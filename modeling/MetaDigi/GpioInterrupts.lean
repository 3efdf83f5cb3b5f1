import MetaDigi.GpioKernel
import Mathlib.Logic.Relation

/-!
# Interrupts of the GPIO driver

The record of a pin says which interrupt its handler is registered for, and
the two agree after every call of a file operation, with one exception: a pin
that is configured as an interrupt with a type that does not exist. What holds
along every run without such a call is shown here.
-/

namespace MetaDigi.GpioInterrupts

open SystemProgram SystemRuns GpioDriver GpioKernel Prog

section Resources

variable (k : Kernel) (r : Resource)

/-- The records stay. -/
@[simp] theorem acquire_gpio : (k.acquire r).gpio = k.gpio := rfl

/-- Nothing has been released in vain. -/
@[simp] theorem acquire_stray : (k.acquire r).stray = k.stray := rfl

/-- One more of it is held. -/
@[simp] theorem acquire_self : (k.acquire r).held r = k.held r + 1 := Function.update_self ..

/-- Of others as many as before. -/
theorem acquire_other {r r' : Resource} (h : r' ≠ r) : (k.acquire r).held r' = k.held r' :=
  Function.update_of_ne h ..

/-- A resource that is held is given back without any trace. -/
theorem release_held {k : Kernel} {r : Resource} (h : 0 < k.held r) :
    k.release r = { k with held := Function.update k.held r (k.held r - 1) } := if_pos h

/-- A release changes nothing else. -/
theorem release_other {k : Kernel} {r r' : Resource} (h : r' ≠ r) :
    (k.release r).held r' = k.held r' := by
  unfold Kernel.release
  split
  · exact Function.update_of_ne h ..
  · rfl

/-- The records stay. -/
@[simp] theorem release_gpio : (k.release r).gpio = k.gpio := by
  unfold Kernel.release
  split <;> rfl

end Resources

/-- The records of the pins are in order: each one tells the interrupt for
which its handler is registered, and no other release has been attempted. -/
structure Bookkeeping (k : Kernel) (g : Pin → GpioConf) : Prop where
  /-- These are the records. -/
  records : k.gpio = some g
  /-- A record has the number of its pin. -/
  dev_id : ∀ pin, (g pin).dev_id = pin.val
  /-- There is an interrupt, or there is none. -/
  irqnum : ∀ pin, (g pin).irqnum = -1 ∨ 0 ≤ (g pin).irqnum
  /-- The handlers are registered accordingly. -/
  irqs : ∀ pin irq, k.held (.irq irq pin) = if (g pin).irqnum = irq ∧ 0 ≤ irq then 1 else 0
  /-- Nothing has been released that was not held. -/
  stray : k.stray = []

/-- Only handlers have been registered or given back. -/
def Aside (k k' : Kernel) : Prop :=
  ∀ r, (∀ irq pin, r ≠ .irq irq pin) → k'.held r = k.held r

/-- Nothing has happened. -/
theorem Aside.refl (k : Kernel) : Aside k k := fun _ _ => rfl

/-- One part after the other. -/
theorem Aside.trans {k₁ k₂ k₃ : Kernel} (h : Aside k₁ k₂) (h' : Aside k₂ k₃) : Aside k₁ k₃ :=
  fun r hr => (h' r hr).trans (h r hr)

section Accesses

variable {answer : (o : GpioOp) → GpioResp o} {k : Kernel} {g : Pin → GpioConf} (pin : Pin)

/-- Reading `dev_id`. -/
theorem loadDevId_ends (hk : k.gpio = some g) :
    Ends (serve answer) (loadDevId pin) k (.ret (g pin).dev_id) k := by
  have hload : (serve answer (.devId pin) k).1 = some (g pin).dev_id := by
    dsimp only [serve]
    rw [hk]
    rfl
  refine Ends.andThen (ends_perform _ _) ?_
  rw [hload]
  exact ends_pure _ _

/-- Reading `irqnum`. -/
theorem loadIrqnum_ends (hk : k.gpio = some g) :
    Ends (serve answer) (loadIrqnum pin) k (.ret (g pin).irqnum) k := by
  have hload : (serve answer (.irqnum pin) k).1 = some (g pin).irqnum := by
    dsimp only [serve]
    rw [hk]
    rfl
  refine Ends.andThen (ends_perform _ _) ?_
  rw [hload]
  exact ends_pure _ _

/-- Writing `irqnum`. -/
theorem storeIrqnum_ends (hk : k.gpio = some g) (v : ℤ) :
    Ends (serve answer) (storeIrqnum pin v) k (.ret ())
      { k with gpio := some (Function.update g pin { g pin with irqnum := v }) } := by
  have hstore : serve answer (.setIrqnum pin v) k = _ :=
    modify_eq pin hk fun c => { c with irqnum := v }
  refine Ends.andThen (ends_perform _ _) ?_
  rw [hstore]
  exact ends_pure _ _

/-- Writing `triggered`. -/
theorem storeTriggered_ends (hk : k.gpio = some g) (v : Bool) :
    Ends (serve answer) (storeTriggered pin v) k (.ret ())
      { k with gpio := some (Function.update g pin { g pin with triggered := v }) } := by
  have hstore : serve answer (.setTriggered pin v) k = _ :=
    modify_eq pin hk fun c => { c with triggered := v }
  refine Ends.andThen (ends_perform _ _) ?_
  rw [hstore]
  exact ends_pure _ _

end Accesses

section Updates

variable {k : Kernel} {g : Pin → GpioConf} {pin : Pin}

/-- A record and the handlers of its pin are changed together. -/
theorem Bookkeeping.assign (h : Bookkeeping k g) {k' : Kernel} {c : GpioConf}
    (hid : c.dev_id = pin.val) (hirq : c.irqnum = -1 ∨ 0 ≤ c.irqnum)
    (hgpio : k'.gpio = some (Function.update g pin c))
    (hself : ∀ irq, k'.held (.irq irq pin) = if c.irqnum = irq ∧ 0 ≤ irq then 1 else 0)
    (hother : ∀ p, p ≠ pin → ∀ irq, k'.held (.irq irq p) = k.held (.irq irq p))
    (hstray : k'.stray = k.stray) : Bookkeeping k' (Function.update g pin c) := by
  refine ⟨hgpio, fun p => ?_, fun p => ?_, fun p irq => ?_, hstray.trans h.stray⟩
  · by_cases hp : p = pin
    · rw [hp, Function.update_self]
      exact hid
    · rw [Function.update_of_ne hp]
      exact h.dev_id p
  · by_cases hp : p = pin
    · rw [hp, Function.update_self]
      exact hirq
    · rw [Function.update_of_ne hp]
      exact h.irqnum p
  · by_cases hp : p = pin
    · rw [hp, Function.update_self]
      exact hself irq
    · rw [Function.update_of_ne hp, hother p hp irq]
      exact h.irqs p irq

/-- Whether the interrupt has occurred does not matter. -/
theorem Bookkeeping.setTriggered (h : Bookkeeping k g) (v : Bool) :
    Bookkeeping { k with gpio := some (Function.update g pin { g pin with triggered := v }) }
      (Function.update g pin { g pin with triggered := v }) :=
  h.assign (h.dev_id pin) (h.irqnum pin) rfl (h.irqs pin) (fun _ _ _ => rfl) rfl

/-- Without an interrupt no handler is registered. -/
theorem Bookkeeping.unregistered (h : Bookkeeping k g) (hpin : (g pin).irqnum < 0) (irq : ℤ) :
    k.held (.irq irq pin) = 0 := by
  rw [h.irqs]
  exact if_neg fun hirq => by omega

/-- The handler of a pin with an interrupt is registered. -/
theorem Bookkeeping.registered (h : Bookkeeping k g) (hpin : 0 ≤ (g pin).irqnum) :
    k.held (.irq (g pin).irqnum pin) = 1 := by
  rw [h.irqs]
  exact if_pos ⟨rfl, hpin⟩

end Updates

section Calls

variable {answer : (o : GpioOp) → GpioResp o} {k : Kernel} {g : Pin → GpioConf}

/-- Giving an interrupt back. -/
theorem dropIrq_ends (h : Bookkeeping k g) (pin : Pin) :
    ∃ k' g', Ends (serve answer) (dropIrq pin) k (.ret ()) k' ∧ Bookkeeping k' g' ∧ Aside k k' ∧
      (g' pin).irqnum = -1 := by
  unfold dropIrq
  by_cases hirq : (g pin).irqnum ≥ 0
  · have hheld := h.registered hirq
    have hfree := ends_perform (E := Fault) (h := serve answer) (.freeIrq (g pin).irqnum pin) k
    have hrecords : (k.release (.irq (g pin).irqnum pin)).gpio = some g :=
      (release_gpio _ _).trans h.records
    have hbooks : Bookkeeping { k.release (.irq (g pin).irqnum pin) with
        gpio := some (Function.update g pin { g pin with irqnum := -1 }) }
        (Function.update g pin { g pin with irqnum := -1 }) := by
      refine h.assign (c := { g pin with irqnum := -1 }) (h.dev_id pin) (.inl rfl) rfl ?_ ?_ ?_
      · intro irq
        rw [release_held (by omega), if_neg fun he => by have hirq := he.1; dsimp only at hirq; omega]
        dsimp only
        by_cases hsame : irq = (g pin).irqnum
        · rw [hsame, Function.update_self, hheld]
        · rw [Function.update_of_ne (fun he => hsame (Resource.irq.inj he).1), h.irqs]
          exact if_neg fun he => hsame he.1.symm
      · intro p hp irq
        exact release_other fun he => hp (Resource.irq.inj he).2
      · rw [release_held (by omega)]
    refine ⟨_, _, Ends.andThen (loadIrqnum_ends pin h.records) ?_, hbooks,
      fun r hr => release_other (hr _ _), by rw [Function.update_self]⟩
    rw [if_pos hirq]
    exact Ends.andThen (loadIrqnum_ends pin h.records)
      (Ends.andThen hfree (storeIrqnum_ends pin hrecords (-1)))
  · refine ⟨k, g, Ends.andThen (loadIrqnum_ends pin h.records) ?_, h, .refl k, ?_⟩
    · rw [if_neg hirq]
      exact ends_pure _ _
    · exact (h.irqnum pin).resolve_right hirq

/-- An operation that changes no more than whether the interrupt has occurred. -/
theorem Bookkeeping.calm (h : Bookkeeping k g) {pin : Pin} {o : GpioOp} (ho : Calm pin o) :
    ∃ g', Bookkeeping (serve answer o k).2 g' ∧ Aside k (serve answer o k).2 := by
  rcases ho with hset | hstill
  · have hstore : (serve answer (.setTriggered pin false) k).2 = _ :=
      congrArg Prod.snd (modify_eq pin h.records fun c => { c with triggered := false })
    rw [hset, hstore]
    exact ⟨_, h.setTriggered false, fun _ _ => rfl⟩
  · rw [serve_still hstill]
    exact ⟨g, h, .refl k⟩

/-- However the run ends, the records are in order, and nothing but handlers
has been registered or given back since an earlier state. -/
def Orderly {α : Type} (answer : (o : GpioOp) → GpioResp o) (k₀ : Kernel) (p : Gpio α)
    (k : Kernel) : Prop :=
  Leaves (serve answer) p k fun _ k' => ∃ g', Bookkeeping k' g' ∧ Aside k₀ k'

section Orderly

variable {α β : Type} {k₀ : Kernel} {X : Fault → Prop} {R : α → Prop} {p : Gpio α}

/-- A program that changes no more than whether the interrupt has occurred. -/
theorem orderly_of_calm (h : Bookkeeping k g) (haside : Aside k₀ k) {pin : Pin}
    (hp : p.Sat (Calm pin) X R) : Orderly answer k₀ p k := by
  refine leaves_keeps (I := fun k' => ∃ g', Bookkeeping k' g' ∧ Aside k₀ k') hp ?_ ⟨g, h, haside⟩
  rintro o k' ho ⟨g', h', haside'⟩
  obtain ⟨g'', h'', hsince⟩ := @Bookkeeping.calm answer _ _ h' pin o ho
  exact ⟨g'', h'', haside'.trans hsince⟩

/-- What leaves the kernel as it is is orderly. -/
theorem orderly_of_still (h : Bookkeeping k g) (hp : p.Sat Still X R) : Orderly answer k p k :=
  orderly_of_calm h (.refl k) (calm_of_still hp ⟨0, by decide⟩)

/-- The interrupt is given back before anything else is done. -/
theorem dropIrq_orderly (h : Bookkeeping k g) (pin : Pin) {f : Unit → Gpio α}
    (hf : (f ()).Sat Still X R) : Orderly answer k (dropIrq pin >>= f) k := by
  obtain ⟨k', g', hdrop, h', haside, -⟩ := dropIrq_ends h pin
  exact hdrop.leaves (orderly_of_calm h' haside (calm_of_still hf pin))

end Orderly

/-- A pin can be configured as an interrupt, or will not be: it is one already,
there is no interrupt for it, or the type that is asked for exists. -/
def Configurable (answer : (o : GpioOp) → GpioResp o) (f : File) (arg : ℕ) (irqnum : ℤ) : Prop :=
  0 ≤ irqnum ∨ answer (.gpioToIrq f.gpionum) < 0 ∨
    ∃ b irqflags, answer (.userChar arg) = some b ∧ irqFlags b = some irqflags

/-- Registering the handler for the interrupt that has been assigned. -/
theorem request_orderly (h : Bookkeeping k g) {k₁ : Kernel} {c : GpioConf} {pin : Pin}
    (hnone : (g pin).irqnum < 0) (hid : c.dev_id = pin.val) (hirq : 0 ≤ c.irqnum)
    (hgpio : k₁.gpio = some (Function.update g pin c)) (hheld : k₁.held = k.held)
    (hstray : k₁.stray = k.stray) (irqflags : ℕ) :
    Orderly answer k (do
      let irq ← loadIrqnum pin
      let retval ← kernelCall (.requestIrq irq irqflags pin)
      if retval ≠ 0 then
        storeIrqnum pin (-1)
        return retval
      else return retval) k₁ := by
  have hload : Ends (serve answer) (loadIrqnum pin) k₁ (.ret c.irqnum) k₁ := by
    have hrecord : Ends (serve answer) (loadIrqnum pin) k₁
        (.ret (Function.update g pin c pin).irqnum) k₁ := loadIrqnum_ends pin hgpio
    rwa [Function.update_self] at hrecord
  have hfree := h.unregistered hnone
  refine hload.leaves (leaves_call ?_)
  dsimp only [serve]
  by_cases hret : answer (.requestIrq c.irqnum irqflags pin) = 0
  · rw [if_neg (not_not.mpr hret), if_pos hret]
    refine leaves_pure ⟨_, h.assign hid (.inr hirq) hgpio ?_ ?_ hstray, ?_⟩
    · intro irq
      by_cases hsame : irq = c.irqnum
      · rw [hsame, acquire_self, hheld, hfree, if_pos ⟨rfl, hirq⟩]
      · rw [acquire_other _ fun he => hsame (Resource.irq.inj he).1, hheld, hfree,
          if_neg fun he => hsame he.1.symm]
    · intro p hp irq
      rw [acquire_other _ fun he => hp (Resource.irq.inj he).2, hheld]
    · intro r hr
      rw [acquire_other _ (hr _ _), hheld]
  · rw [if_pos hret, if_neg hret]
    refine (storeIrqnum_ends pin hgpio (-1)).leaves (leaves_pure ⟨_, h.assign
      (c := { c with irqnum := -1 }) hid (.inl rfl) ?_ ?_ ?_ hstray, ?_⟩)
    · dsimp only
      rw [Function.update_idem, Function.update_self]
    · intro irq
      dsimp only
      rw [hheld, hfree, if_neg fun he => by omega]
    · intro p _ irq
      dsimp only
      rw [hheld]
    · intro r _
      dsimp only
      rw [hheld]

/-- `GPIO_CONFIG_AS_IRQ`. -/
theorem configAsIrq_orderly (h : Bookkeeping k g) (f : File) (arg : ℕ)
    (hconf : Configurable answer f arg (g f.privateData).irqnum) :
    Orderly answer k (configAsIrq f arg) k := by
  unfold Orderly configAsIrq
  refine (loadIrqnum_ends f.privateData h.records).leaves ?_
  by_cases hirq : (g f.privateData).irqnum ≥ 0
  · rw [if_pos hirq]
    exact leaves_pure ⟨g, h, .refl k⟩
  · rw [if_neg hirq]
    refine leaves_call (leaves_call ?_)
    dsimp only [serve]
    by_cases hto : answer (.gpioToIrq f.gpionum) ≥ 0
    · obtain ⟨b, irqflags, hb, hflags⟩ :=
        (hconf.resolve_left hirq).resolve_left (Int.not_lt.mpr hto)
      rw [if_pos hto]
      have hchar : ∀ k', Ends (serve answer) (loadUserChar arg) k' (.ret b) k' := by
        intro k'
        refine Ends.andThen (ends_perform _ _) ?_
        dsimp only [serve]
        rw [hb]
        exact ends_pure _ _
      refine (storeIrqnum_ends f.privateData h.records _).leaves (leaves_call ?_)
      refine (storeTriggered_ends f.privateData rfl false).leaves ((hchar _).leaves ?_)
      rw [hflags]
      refine request_orderly h (c := { g f.privateData with
        irqnum := answer (.gpioToIrq f.gpionum), triggered := false }) (Int.not_le.mp hirq)
        (h.dev_id _) hto ?_ ?_ ?_ irqflags
      · dsimp only
        rw [Function.update_idem, Function.update_self]
      · rfl
      · rfl
    · rw [if_neg hto]
      exact leaves_pure ⟨g, h, .refl k⟩

/-- A pin that is configured with a type that does not exist keeps the
interrupt, without any handler. -/
theorem configAsIrq_untyped (h : Bookkeeping k g) {f : File} {arg : ℕ}
    (hconf : ¬Configurable answer f arg (g f.privateData).irqnum) :
    Leaves (serve answer) (configAsIrq f arg) k fun _ k' => k'.held = k.held ∧
      ∃ g', k'.gpio = some g' ∧ 0 ≤ (g' f.privateData).irqnum := by
  simp only [Configurable, not_or] at hconf
  obtain ⟨hirq, hto, htype⟩ := hconf
  unfold configAsIrq
  refine (loadIrqnum_ends f.privateData h.records).leaves ?_
  rw [if_neg hirq]
  refine leaves_call (leaves_call ?_)
  dsimp only [serve]
  rw [if_pos (Int.not_lt.mp hto)]
  refine (storeIrqnum_ends f.privateData h.records _).leaves (leaves_call ?_)
  refine (storeTriggered_ends f.privateData rfl false).leaves ?_
  have hleft : ∃ g', some (Function.update (Function.update g f.privateData
      { g f.privateData with irqnum := answer (.gpioToIrq f.gpionum) }) f.privateData
      { Function.update g f.privateData { g f.privateData with
        irqnum := answer (.gpioToIrq f.gpionum) } f.privateData with triggered := false }) =
      some g' ∧ 0 ≤ (g' f.privateData).irqnum := by
    refine ⟨_, rfl, ?_⟩
    rw [Function.update_self]
    dsimp only
    rw [Function.update_self]
    exact Int.not_lt.mp hto
  unfold loadUserChar
  refine leaves_call ?_
  dsimp only [serve]
  cases hb : answer (.userChar arg) with
  | none => exact leaves_exit ⟨rfl, hleft⟩
  | some b =>
    cases hflags : irqFlags b with
    | none =>
      refine Ends.leaves (ends_pure b _) ?_
      rw [hflags]
      exact leaves_pure ⟨rfl, hleft⟩
    | some irqflags => exact absurd ⟨b, irqflags, hb, hflags⟩ htype

/-- `gpio_ioctl`. -/
theorem gpioIoctl_orderly (h : Bookkeeping k g) (pullupdown : Bool) (f : File) (cmd : BitVec 32)
    (arg : ℕ)
    (hconf : cmd = gpioConfigAsIrq → Configurable answer f arg (g f.privateData).irqnum) :
    Orderly answer k (gpioIoctl pullupdown f cmd arg) k := by
  unfold Orderly gpioIoctl
  split
  · exact leaves_pure ⟨g, h, .refl k⟩
  · split
    · exact leaves_pure ⟨g, h, .refl k⟩
    · refine (loadDevId_ends f.privateData h.records).leaves ?_
      split
      · exact leaves_pure ⟨g, h, .refl k⟩
      · unfold ioctlSwitch
        split
        · exact dropIrq_orderly h _ (sat_still (.gpioDirectionInput f.gpionum) trivial)
        · split
          · exact dropIrq_orderly h _ (sat_holdValue f.gpionum)
          · split
            · exact orderly_of_calm h (.refl k) (sat_readPinVal f arg)
            · split
              · exact orderly_of_still h ((sat_loadUserChar arg).andThen fun b _ =>
                  (sat_still (.gpioSetValue f.gpionum b) trivial).andThen fun _ _ => sat_return 0)
              · split
                · rename_i hcmd
                  exact configAsIrq_orderly h f arg (hconf hcmd)
                · split
                  · exact orderly_of_still h ((sat_still (.gpioSetPullupdown f.gpionum arg)
                    trivial).andThen fun _ _ => sat_return 0)
                  · exact leaves_pure ⟨g, h, .refl k⟩

/-- `gpio_open` of a pin that is free. -/
theorem gpioOpen_granted (h : Bookkeeping k g) {gpionum : Pin} (hfree : k.held (.pin gpionum) = 0)
    (hret : ¬answer (.gpioRequest gpionum) < 0) :
    Ends (serve answer) (gpioOpen gpionum) k (.ret (0, some gpionum))
      (k.acquire (.pin gpionum)) := by
  have hnot : ¬0 < k.held (.pin gpionum) := by omega
  unfold gpioOpen
  refine Ends.andThen (loadDevId_ends gpionum h.records) ?_
  rw [if_neg (not_not.mpr (h.dev_id gpionum).symm)]
  refine Ends.andThen (ends_perform _ _) ?_
  dsimp only [serve]
  rw [if_neg hnot, if_neg hret, if_neg hret]
  exact ends_pure _ _

/-- What `gpio_open` does: it requests the pin and gives out a file, or neither. -/
theorem gpioOpen_leaves (h : Bookkeeping k g) (gpionum : Pin) (nonblock writable : Bool) :
    Leaves (serve answer) (gpioOpen gpionum) k fun out k' => Bookkeeping k' g ∧
      (∀ r, r ≠ .pin gpionum → k'.held r = k.held r) ∧
      (opened gpionum nonblock writable out = [] ∧
          k'.held (.pin gpionum) = k.held (.pin gpionum) ∨
        opened gpionum nonblock writable out =
            [{ gpionum, privateData := gpionum, nonblock, writable }] ∧
          k.held (.pin gpionum) = 0 ∧ k'.held (.pin gpionum) = 1) := by
  unfold gpioOpen
  refine (loadDevId_ends gpionum h.records).leaves ?_
  rw [if_neg (not_not.mpr (h.dev_id gpionum).symm)]
  refine leaves_call ?_
  dsimp only [serve]
  by_cases hheld : 0 < k.held (.pin gpionum)
  · rw [if_pos hheld]
    exact leaves_pure ⟨h, fun _ _ => rfl, .inl ⟨rfl, rfl⟩⟩
  · rw [if_neg hheld]
    by_cases hret : answer (.gpioRequest gpionum) < 0
    · rw [if_pos hret, if_pos hret]
      refine leaves_pure ⟨h, fun _ _ => rfl, .inl ⟨?_, rfl⟩⟩
      unfold opened
      split
      · rename_i he
        simp only [Outcome.ret.injEq, Prod.mk.injEq, reduceCtorEq, and_false] at he
      · rfl
    · rw [if_neg hret, if_neg hret]
      refine leaves_pure ⟨⟨h.records, h.dev_id, h.irqnum, fun p irq => ?_, h.stray⟩,
        fun r hr => acquire_other _ hr, .inr ⟨rfl, by omega, ?_⟩⟩
      · exact (acquire_other _ (fun he => Resource.noConfusion he)).trans (h.irqs p irq)
      · dsimp only
        rw [acquire_self]
        omega

/-- What `gpio_release_close` does: it gives back the handler and the pin. -/
theorem gpioReleaseClose_ends (h : Bookkeeping k g) {f : File} (hown : f.privateData = f.gpionum)
    (hheld : 0 < k.held (.pin f.gpionum)) :
    ∃ k' g', Ends (serve answer) (gpioReleaseClose f) k (.ret 0) k' ∧ Bookkeeping k' g' ∧
      (g' f.gpionum).irqnum = -1 ∧ k'.held (.pin f.gpionum) = k.held (.pin f.gpionum) - 1 ∧
      ∀ r, (∀ irq pin, r ≠ .irq irq pin) → r ≠ .pin f.gpionum → k'.held r = k.held r := by
  obtain ⟨k₁, g₁, hdrop, h₁, haside, hnone⟩ := @dropIrq_ends answer k g h f.privateData
  have hpin : k₁.held (.pin f.gpionum) = k.held (.pin f.gpionum) := haside _ nofun
  have hfree := ends_perform (E := Fault) (h := serve answer) (.gpioFree f.gpionum) k₁
  have hrelease := release_held (r := .pin f.gpionum) (hpin ▸ hheld)
  unfold gpioReleaseClose
  refine ⟨k₁.release (.pin f.gpionum), g₁,
    Ends.andThen (loadDevId_ends f.privateData h.records) ?_, ?_, hown ▸ hnone, ?_, ?_⟩
  · rw [if_neg (not_not.mpr (hown ▸ (h.dev_id f.privateData).symm))]
    exact hdrop.andThen (Ends.andThen hfree (ends_pure _ _))
  · refine ⟨(release_gpio _ _).trans h₁.records, h₁.dev_id, h₁.irqnum, fun p irq => ?_, ?_⟩
    · exact (release_other (fun he => Resource.noConfusion he)).trans (h₁.irqs p irq)
    · rw [hrelease]
      exact h₁.stray
  · rw [hrelease]
    dsimp only
    rw [Function.update_self, hpin]
  · intro r hr hne
    rw [release_other hne]
    exact haside r hr

end Calls

section Loading

variable {answer : (o : GpioOp) → GpioResp o} {k : Kernel} {g : Pin → GpioConf}

/-- The answer about the region of device numbers. -/
def regionAnswer (answer : (o : GpioOp) → GpioResp o) (gpio_major : ℕ) : ℤ × ℕ :=
  if gpio_major ≠ 0 then (answer (.registerChrdevRegion gpio_major), gpio_major)
  else answer .allocChrdevRegion

/-- The kernel after it. -/
def regionKernel (answer : (o : GpioOp) → GpioResp o) (gpio_major : ℕ) (k : Kernel) : Kernel :=
  if (regionAnswer answer gpio_major).1 < 0 then k
  else k.acquire (.region (regionAnswer answer gpio_major).2)

/-- Asking for the device numbers. -/
theorem takeRegion_ends (gpio_major : ℕ) :
    Ends (serve answer) (takeRegion gpio_major) k (.ret (regionAnswer answer gpio_major))
      (regionKernel answer gpio_major k) := by
  unfold takeRegion regionKernel regionAnswer
  split
  · exact Ends.andThen (ends_perform _ _) (ends_pure _ _)
  · exact ends_perform _ _

/-- The loop of `gpio_init` over some pins. -/
theorem initPins_ends (pins : List Pin) (hk : k.gpio = some g) :
    ∃ us g', Ends (serve answer) (Prog.mapList initPin pins) k (.ret us)
        { k with gpio := some g' } ∧
      ∀ pin, (g' pin).dev_id = (if pin ∈ pins then (pin.val : ℤ) else (g pin).dev_id) ∧
        (g' pin).irqnum = if pin ∈ pins then -1 else (g pin).irqnum := by
  induction pins generalizing k g with
  | nil =>
    refine ⟨[], g, ?_, fun pin => ⟨rfl, rfl⟩⟩
    rw [← hk]
    exact ends_ret _ _
  | cons i pins ih =>
    have hid : serve answer (.setDevId i i.val) k = _ :=
      modify_eq i hk fun c => { c with dev_id := i.val }
    have hstore : Ends (serve answer) (initPin i) k (.ret ()) { k with
        gpio := some (Function.update g i { g i with dev_id := i.val, irqnum := -1 }) } := by
      refine Ends.andThen (ends_perform _ _) ?_
      rw [hid]
      have hlast := @storeIrqnum_ends answer
        { k with gpio := some (Function.update g i { g i with dev_id := i.val }) }
        (Function.update g i { g i with dev_id := i.val }) i rfl (-1)
      rw [Function.update_idem, Function.update_self] at hlast
      exact Ends.andThen (ends_pure _ _) hlast
    obtain ⟨us, g', hrest, hg'⟩ := ih (k := { k with
      gpio := some (Function.update g i { g i with dev_id := i.val, irqnum := -1 }) }) rfl
    refine ⟨() :: us, g', Ends.mapList_cons hstore hrest, fun pin => ?_⟩
    obtain ⟨hid', hirq'⟩ := hg' pin
    rw [hid', hirq']
    by_cases hmem : pin ∈ pins
    · rw [if_pos hmem, if_pos hmem, if_pos (List.mem_cons_of_mem _ hmem),
        if_pos (List.mem_cons_of_mem _ hmem)]
      exact ⟨rfl, rfl⟩
    · rw [if_neg hmem, if_neg hmem]
      by_cases hpin : pin = i
      · rw [hpin, Function.update_self, if_pos (List.mem_cons_self ..),
          if_pos (List.mem_cons_self ..)]
        exact ⟨rfl, rfl⟩
      · have hnot : pin ∉ i :: pins := List.not_mem_cons_of_ne_of_not_mem hpin hmem
        rw [Function.update_of_ne hpin, if_neg hnot, if_neg hnot]
        exact ⟨rfl, rfl⟩

/-- `gpio_init` has succeeded: everything has been acquired once, and the
records are in order. -/
structure Loaded (k : Kernel) : Prop where
  /-- The records are in order. -/
  records : ∃ g, Bookkeeping k g
  /-- No pin has been requested. -/
  pins : ∀ pin, k.held (.pin pin) = 0
  /-- The memory of the records is held. -/
  array : 0 < k.held .pinArray

/-- A result of `gpio_init` that is a failure. -/
theorem sat_failure (gpio_major : ℕ) {e : ℤ} (he : e ≠ 0) (major : ℕ) :
    (gpioExit gpio_major >>= fun _ => (return (e, major) : Gpio (ℤ × ℕ))).Sat (fun _ => True)
      (fun _ => True) (fun r => r.1 ≠ 0) :=
  (sat_any _).andThen fun _ _ => sat_ret he

/-- The kernel after a success of `gpio_init`, with the records of the pins. -/
def loadedKernel (answer : (o : GpioOp) → GpioResp o) (gpio_major : ℕ) (g : Pin → GpioConf) :
    Kernel :=
  { ((((Kernel.acquire {} (.region (regionAnswer answer gpio_major).2)).acquire .device).acquire
      .pinArray).acquire .cdev) with device := true, gpio := some g }

/-- `gpio_init` when everything is granted. -/
theorem gpioInit_granted {gpio_major : ℕ} (hret : ¬(regionAnswer answer gpio_major).1 < 0)
    (hdevice : answer .kzallocDevice = true) (hpins : answer .kzallocPins = true)
    (hcdev : answer .cdevAdd = 0) :
    ∃ g, Ends (serve answer) (gpioInit gpio_major) {} (.ret (0, (regionAnswer answer gpio_major).2))
        (loadedKernel answer gpio_major g) ∧
      ∀ pin, (g pin).dev_id = pin.val ∧ (g pin).irqnum = -1 := by
  obtain ⟨us, g, hloop, hg⟩ := @initPins_ends answer
    (loadedKernel answer gpio_major fun _ => {}) (fun _ => {}) (List.finRange gpioNrDevs) rfl
  have hregion : regionKernel answer gpio_major {} =
      Kernel.acquire {} (.region (regionAnswer answer gpio_major).2) := if_neg hret
  refine ⟨g, ?_, fun pin => ?_⟩
  · unfold gpioInit
    refine Ends.andThen (takeRegion_ends gpio_major) ?_
    dsimp only
    rw [if_neg hret, hregion]
    refine Ends.andThen (ends_perform _ _) ?_
    dsimp only [serve]
    rw [hdevice, if_neg (by decide), if_pos rfl]
    refine Ends.andThen (ends_perform _ _) ?_
    dsimp only [serve]
    rw [hpins, if_neg (by decide), if_pos rfl]
    refine Ends.andThen (ends_perform _ _) ?_
    dsimp only [serve]
    rw [if_neg (not_not.mpr hcdev), if_pos hcdev]
    exact hloop.andThen (ends_pure _ _)
  · obtain ⟨hid, hirq⟩ := hg pin
    rw [if_pos (List.mem_finRange pin)] at hid hirq
    exact ⟨hid, hirq⟩

/-- `gpio_init` when everything is granted. -/
theorem initOutcome_granted {gpio_major : ℕ} (hret : ¬(regionAnswer answer gpio_major).1 < 0)
    (hdevice : answer .kzallocDevice = true) (hpins : answer .kzallocPins = true)
    (hcdev : answer .cdevAdd = 0) :
    initOutcome answer gpio_major = .ret (0, (regionAnswer answer gpio_major).2) := by
  obtain ⟨g, hends, -⟩ := gpioInit_granted hret hdevice hpins hcdev
  exact hends.1

/-- A success of `gpio_init` means that everything has been granted. -/
theorem granted_of_success {gpio_major major : ℕ}
    (hinit : initOutcome answer gpio_major = .ret (0, major)) :
    ¬(regionAnswer answer gpio_major).1 < 0 ∧ answer .kzallocDevice = true ∧
      answer .kzallocPins = true ∧ answer .cdevAdd = 0 := by
  have hfails : ∀ {p : Gpio (ℤ × ℕ)} {k : Kernel} {P : Prop}, p.Sat (fun _ => True)
      (fun _ => True) (fun r => r.1 ≠ 0) → Leaves (serve answer) p k fun out _ =>
        out = .ret (0, major) → P := fun hp hout =>
    absurd rfl ((hp.exec (serve answer) everyCall _).2.1 _ hout)
  have hleaves : Leaves (serve answer) (gpioInit gpio_major) {} fun out _ =>
      out = .ret (0, major) → ¬(regionAnswer answer gpio_major).1 < 0 ∧
        answer .kzallocDevice = true ∧ answer .kzallocPins = true ∧ answer .cdevAdd = 0 := by
    unfold gpioInit
    refine (takeRegion_ends gpio_major).leaves ?_
    dsimp only
    split
    · rename_i hret
      exact hfails (sat_ret (Int.ne_of_lt hret))
    · rename_i hret
      refine leaves_call ?_
      dsimp only [serve]
      split
      · exact hfails (sat_failure _ (by decide) _)
      · rename_i hdevice
        refine leaves_call ?_
        dsimp only [serve]
        split
        · exact hfails (sat_failure _ (by decide) _)
        · rename_i hpins
          refine leaves_call ?_
          dsimp only [serve]
          split
          · exact hfails (sat_failure _ (by decide) _)
          · rename_i hcdev
            intro _
            simp only [Bool.not_eq_true', Bool.not_eq_false] at hdevice hpins
            exact ⟨hret, hdevice, hpins, not_not.mp hcdev⟩
  exact hleaves hinit

/-- The kernel that `gpio_init` leaves has no interrupts. -/
theorem kernel_of_success {gpio_major major : ℕ}
    (hinit : initOutcome answer gpio_major = .ret (0, major)) :
    ∃ g, (System.loaded answer gpio_major).kernel = loadedKernel answer gpio_major g ∧
      ∀ pin, (g pin).dev_id = pin.val ∧ (g pin).irqnum = -1 := by
  obtain ⟨hret, hdevice, hpins, hcdev⟩ := granted_of_success hinit
  obtain ⟨g, hends, hg⟩ := gpioInit_granted hret hdevice hpins hcdev
  exact ⟨g, hends.2, hg⟩

/-- After a success of `gpio_init`. -/
theorem loaded_of_success {gpio_major major : ℕ}
    (hinit : initOutcome answer gpio_major = .ret (0, major)) :
    Loaded (System.loaded answer gpio_major).kernel := by
  obtain ⟨g, hkernel, hg⟩ := kernel_of_success hinit
  rw [hkernel]
  refine ⟨⟨g, rfl, fun pin => (hg pin).1, fun pin => .inl (hg pin).2, fun pin irq => ?_, rfl⟩,
    fun _ => rfl, Nat.one_pos⟩
  rw [(hg pin).2, if_neg fun he => by omega]
  rfl

end Loading

/-- `irqnum` of a pin. -/
def System.irqnum (sys : System) (pin : Pin) : Option ℤ :=
  sys.kernel.gpio.map fun g => (g pin).irqnum

/-- The type of an interrupt exists whenever a pin is to be configured as one,
unless it is one already or there is no interrupt for it. -/
def Typed (answer : (o : GpioOp) → GpioResp o) (sys : System) (call : Call) : Prop :=
  ∀ f arg, call = .ioctl f gpioConfigAsIrq arg →
    ∀ irqnum, System.irqnum sys f.privateData = some irqnum → Configurable answer f arg irqnum

/-- A call on an open file with such a type, whatever the kernel answers. -/
def TypedStep (pullupdown : Bool) (sys sys' : System) : Prop :=
  ∃ answer call, call.OnOpen sys ∧ Typed answer sys call ∧
    sys' = sys.step answer pullupdown call

/-- What is kept by every such call. -/
structure Sound (sys : System) : Prop where
  /-- The records are in order. -/
  records : ∃ g, Bookkeeping sys.kernel g
  /-- A file has the record of its pin. -/
  own : ∀ f ∈ sys.files, f.privateData = f.gpionum
  /-- A pin is requested for the files that are open. -/
  requested : ∀ pin, sys.kernel.held (.pin pin) = sys.files.countP fun f => f.gpionum = pin
  /-- There is one of them at most. -/
  once : ∀ pin, sys.kernel.held (.pin pin) ≤ 1
  /-- The memory of the records is held. -/
  array : 0 < sys.kernel.held .pinArray

section Runs

variable {sys : System} {answer : (o : GpioOp) → GpioResp o} {pullupdown : Bool}

/-- The pin of an open file has been requested. -/
theorem Sound.requested_pos (h : Sound sys) {f : File} (hf : f ∈ sys.files) :
    0 < sys.kernel.held (.pin f.gpionum) := by
  rw [h.requested, List.countP_pos_iff]
  exact ⟨f, hf, decide_eq_true rfl⟩

/-- A call that keeps the records in order and requests no pin. -/
theorem Sound.run {α : Type} {p : Gpio α} (h : Sound sys)
    (hp : Orderly answer sys.kernel p sys.kernel) : Sound (sys.run answer p) := by
  obtain ⟨g', hbooks, haside⟩ := hp
  have hpin : ∀ pin, (sys.run answer p).kernel.held (.pin pin) = sys.kernel.held (.pin pin) :=
    fun pin => haside _ fun _ _ he => Resource.noConfusion he
  refine ⟨⟨g', hbooks⟩, h.own, fun pin => ?_, fun pin => ?_, ?_⟩
  · exact (hpin pin).trans (h.requested pin)
  · exact (hpin pin).trans_le (h.once pin)
  · have harray : (sys.run answer p).kernel.held .pinArray = sys.kernel.held .pinArray :=
      haside _ fun _ _ he => Resource.noConfusion he
    rw [harray]
    exact h.array

/-- `open`. -/
theorem Sound.opens (h : Sound sys) (gpionum : Pin) (nonblock writable : Bool) :
    Sound (sys.step answer pullupdown (.open gpionum nonblock writable)) := by
  obtain ⟨g, hbooks⟩ := h.records
  obtain ⟨hbooks', hother, hopened⟩ :=
    @gpioOpen_leaves answer _ _ hbooks gpionum nonblock writable
  have harray : (sys.step answer pullupdown (.open gpionum nonblock writable)).kernel.held
      .pinArray = sys.kernel.held .pinArray := hother _ fun he => Resource.noConfusion he
  have hpin : ∀ pin, pin ≠ gpionum →
      (sys.step answer pullupdown (.open gpionum nonblock writable)).kernel.held (.pin pin) =
        sys.kernel.held (.pin pin) := fun pin hne =>
    hother _ fun he => hne (Resource.pin.inj he)
  have hcount := h.requested gpionum
  rcases hopened with ⟨hnone, hheld⟩ | ⟨hone, hfree, hheld⟩
  · have hfiles : (sys.step answer pullupdown (.open gpionum nonblock writable)).files =
        sys.files := by
      dsimp only [System.step]
      rw [hnone]
      rfl
    have hall : ∀ pin,
        (sys.step answer pullupdown (.open gpionum nonblock writable)).kernel.held (.pin pin) =
          sys.kernel.held (.pin pin) := by
      intro pin
      by_cases hp : pin = gpionum
      · rw [hp]
        exact hheld
      · exact hpin pin hp
    refine ⟨⟨g, hbooks'⟩, ?_, fun pin => ?_, fun pin => ?_, harray ▸ h.array⟩
    · rw [hfiles]
      exact h.own
    · rw [hfiles, hall]
      exact h.requested pin
    · rw [hall]
      exact h.once pin
  · have hfiles : (sys.step answer pullupdown (.open gpionum nonblock writable)).files =
        { gpionum, privateData := gpionum, nonblock, writable } :: sys.files := by
      dsimp only [System.step]
      rw [hone]
      rfl
    refine ⟨⟨g, hbooks'⟩, ?_, fun pin => ?_, fun pin => ?_, harray ▸ h.array⟩
    · rw [hfiles]
      exact List.forall_mem_cons.mpr ⟨rfl, h.own⟩
    · rw [hfiles, List.countP_cons]
      by_cases hp : pin = gpionum
      · rw [hp, ← hcount, hfree, if_pos (decide_eq_true rfl)]
        exact hheld
      · rw [hpin pin hp, if_neg (fun he => hp (of_decide_eq_true he).symm)]
        exact h.requested pin
    · by_cases hp : pin = gpionum
      · rw [hp]
        exact hheld.le
      · rw [hpin pin hp]
        exact h.once pin

/-- The last `close`: no handler is left, and the pin has been given back. -/
theorem Sound.releases (h : Sound sys) {f : File} (hf : f ∈ sys.files) :
    Sound (sys.step answer pullupdown (.release f)) ∧
      (∀ irq, (sys.step answer pullupdown (.release f)).kernel.held (.irq irq f.gpionum) = 0) ∧
      (sys.step answer pullupdown (.release f)).kernel.held (.pin f.gpionum) = 0 := by
  obtain ⟨g, hbooks⟩ := h.records
  have hpos := h.requested_pos hf
  have honce := h.once f.gpionum
  obtain ⟨k', g', hends, hbooks', hnone, hpin, hother⟩ :=
    @gpioReleaseClose_ends answer _ _ hbooks _ (h.own f hf) hpos
  have hkernel : (sys.step answer pullupdown (.release f)).kernel = k' := hends.2
  have hfiles : (sys.step answer pullupdown (.release f)).files = sys.files.erase f := rfl
  have helse : ∀ pin, pin ≠ f.gpionum → k'.held (.pin pin) = sys.kernel.held (.pin pin) :=
    fun pin hne => hother _ (fun _ _ he => Resource.noConfusion he)
      fun he => hne (Resource.pin.inj he)
  refine ⟨⟨⟨g', hkernel ▸ hbooks'⟩, ?_, fun pin => ?_, fun pin => ?_, ?_⟩, fun irq => ?_, ?_⟩
  · intro q hq
    rw [hfiles] at hq
    exact h.own q (List.mem_of_mem_erase hq)
  · have hcount := h.requested pin
    rw [(List.perm_cons_erase hf).countP_eq, List.countP_cons] at hcount
    rw [hkernel, hfiles]
    by_cases hp : pin = f.gpionum
    · rw [hp, if_pos (decide_eq_true rfl)] at hcount
      rw [hp, hpin]
      omega
    · rw [if_neg fun he => hp (of_decide_eq_true he).symm] at hcount
      rw [helse pin hp]
      exact hcount
  · rw [hkernel]
    by_cases hp : pin = f.gpionum
    · rw [hp, hpin]
      omega
    · rw [helse pin hp]
      exact h.once pin
  · rw [hkernel, hother _ (fun _ _ he => Resource.noConfusion he)
      fun he => Resource.noConfusion he]
    exact h.array
  · rw [hkernel]
    exact hbooks'.unregistered (by omega) irq
  · rw [hkernel, hpin]
    omega

/-- One call. -/
theorem Sound.step {sys' : System} (h : Sound sys) (hstep : TypedStep pullupdown sys sys') :
    Sound sys' := by
  obtain ⟨answer, call, hopen, htyped, hsys'⟩ := hstep
  obtain ⟨g, hbooks⟩ := h.records
  rw [hsys']
  cases call with
  | «open» gpionum nonblock writable => exact h.opens gpionum nonblock writable
  | ioctl f cmd arg =>
    refine h.run (gpioIoctl_orderly hbooks pullupdown f cmd arg fun hcmd => ?_)
    refine htyped f arg (by rw [hcmd]) _ ?_
    rw [System.irqnum, hbooks.records]
    rfl
  | read f buf count => exact h.run (orderly_of_calm hbooks (.refl _) (sat_gpioRead f buf count))
  | write f buf count => exact h.run (orderly_of_still hbooks (sat_gpioWrite f buf count))
  | poll f => exact h.run (orderly_of_still hbooks (sat_gpioPoll f))
  | release f => exact (h.releases hopen).1

/-- Every sequence of such calls. -/
theorem sound_of_runs {gpio_major major : ℕ}
    (hinit : initOutcome answer gpio_major = .ret (0, major))
    (hrun : Relation.ReflTransGen (TypedStep pullupdown) (System.loaded answer gpio_major) sys) :
    Sound sys := by
  induction hrun with
  | refl =>
    have hloaded := loaded_of_success hinit
    refine ⟨hloaded.records, nofun, fun pin => ?_, fun pin => ?_, hloaded.array⟩
    · exact hloaded.pins pin
    · rw [hloaded.pins]
      exact Nat.zero_le _
  | tail _ hstep ih => exact ih.step hstep

end Runs

/-- The state of the interrupts that is promised: the record of every pin tells
the only handler that is registered for it, every `free_irq` so far was for a
handler that was registered, and releasing a file leaves nothing behind. -/
structure InOrder (pullupdown : Bool) (sys : System) : Prop where
  /-- There is no interrupt and no handler, or the handler of the interrupt. -/
  registered : ∀ pin, ∃ irqnum, System.irqnum sys pin = some irqnum ∧
    (irqnum = -1 ∧ (∀ irq, sys.kernel.held (.irq irq pin) = 0) ∨
      irqnum ≠ -1 ∧ sys.kernel.held (.irq irqnum pin) = 1 ∧
        ∀ irq, irq ≠ irqnum → sys.kernel.held (.irq irq pin) = 0)
  /-- Nothing has been released that was not held. -/
  freed : sys.kernel.stray = []
  /-- Releasing a file gives back the handler and the pin. -/
  released : ∀ answer, ∀ f ∈ sys.files,
    (∀ irq, (sys.step answer pullupdown (.release f)).kernel.held (.irq irq f.gpionum) = 0) ∧
      (sys.step answer pullupdown (.release f)).kernel.held (.pin f.gpionum) = 0

/-- The interrupts are in order in every state that can be reached without
asking for a type that does not exist. -/
theorem interrupts_in_order {answer : (o : GpioOp) → GpioResp o} {gpio_major major : ℕ}
    {pullupdown : Bool} {sys : System} (hinit : initOutcome answer gpio_major = .ret (0, major))
    (hrun : Relation.ReflTransGen (TypedStep pullupdown) (System.loaded answer gpio_major) sys) :
    InOrder pullupdown sys := by
  have hsound := sound_of_runs hinit hrun
  obtain ⟨g, hbooks⟩ := hsound.records
  refine ⟨fun pin => ⟨(g pin).irqnum, ?_, ?_⟩, hbooks.stray, fun answer f hf =>
    (hsound.releases hf).2⟩
  · rw [System.irqnum, hbooks.records]
    rfl
  · rcases hbooks.irqnum pin with hnone | hsome
    · exact .inl ⟨hnone, hbooks.unregistered (by omega)⟩
    · refine .inr ⟨by omega, hbooks.registered hsome, fun irq hne => ?_⟩
      rw [hbooks.irqs, if_neg fun he => hne he.1.symm]

section Untyped

variable {sys : System} {answer : (o : GpioOp) → GpioResp o} {pullupdown : Bool}

/-- The first file after `gpio_init` has succeeded; its pin has no interrupt. -/
theorem opens_after_loading {gpio_major major : ℕ} {gpionum : Pin} {nonblock writable : Bool}
    (hinit : initOutcome answer gpio_major = .ret (0, major))
    (hret : ¬answer (.gpioRequest gpionum) < 0) :
    ((System.loaded answer gpio_major).step answer pullupdown
        (.open gpionum nonblock writable)).files =
        [{ gpionum, privateData := gpionum, nonblock, writable }] ∧
      System.irqnum ((System.loaded answer gpio_major).step answer pullupdown
        (.open gpionum nonblock writable)) gpionum = some (-1) := by
  obtain ⟨g, hkernel, hg⟩ := kernel_of_success hinit
  have hloaded := loaded_of_success hinit
  obtain ⟨g', hbooks⟩ := hloaded.records
  have hopen := gpioOpen_granted hbooks (hloaded.pins gpionum) hret
  constructor
  · dsimp only [System.step]
    rw [hopen.1]
    rfl
  · dsimp only [System.step, System.run, System.irqnum]
    rw [hopen.2, acquire_gpio, hkernel]
    exact congrArg some (hg gpionum).2

/-- A type that does not exist leaves a pin with an interrupt that has no
handler. -/
theorem Sound.untyped (h : Sound sys) {call : Call} (hopen : call.OnOpen sys)
    (htyped : ¬Typed answer sys call) :
    ¬InOrder pullupdown (sys.step answer pullupdown call) := by
  obtain ⟨g, hbooks⟩ := h.records
  simp only [Typed, not_forall] at htyped
  obtain ⟨f, arg, hcall, irqnum, hirq, hconf⟩ := htyped
  rw [System.irqnum, hbooks.records] at hirq
  have hpin : (g f.privateData).irqnum = irqnum := Option.some.inj hirq
  rw [← hpin] at hconf
  rw [hcall] at hopen ⊢
  have hown : f.privateData = f.gpionum := h.own f hopen
  have hnone : (g f.privateData).irqnum < 0 := Int.not_le.mp fun hsome => hconf (.inl hsome)
  have hleft : Leaves (serve answer) (gpioIoctl pullupdown f gpioConfigAsIrq arg) sys.kernel
      fun _ k' => k'.held = sys.kernel.held ∧
        ∃ g', k'.gpio = some g' ∧ 0 ≤ (g' f.privateData).irqnum := by
    unfold gpioIoctl
    rw [if_neg (by decide), if_neg (by decide)]
    refine (loadDevId_ends f.privateData hbooks.records).leaves ?_
    rw [if_neg (not_not.mpr (hown ▸ (hbooks.dev_id f.privateData).symm))]
    exact configAsIrq_untyped hbooks hconf
  obtain ⟨hheld, g', hg', hsome⟩ := hleft
  intro horder
  obtain ⟨irqnum', hrecord, hregistered⟩ := horder.registered f.privateData
  have hirqnum : (g' f.privateData).irqnum = irqnum' := by
    rw [System.irqnum] at hrecord
    dsimp only [System.step, System.run] at hrecord
    rw [hg'] at hrecord
    exact Option.some.inj hrecord
  rcases hregistered with ⟨hminus, -⟩ | ⟨-, hone, -⟩
  · omega
  · dsimp only [System.step, System.run] at hone
    rw [hheld, hbooks.unregistered hnone] at hone
    exact absurd hone Nat.zero_ne_one

end Untyped

/-- With the major number of the driver `gpio_init` succeeds then. -/
theorem granting_loads (b : UInt8) : initOutcome (granting b) 240 = .ret (0, 240) :=
  initOutcome_granted (Int.lt_irrefl 0) rfl rfl rfl

/-- The driver with the first pin in use. -/
def firstOpened (b : UInt8) : System :=
  (System.loaded (granting b) 240).step (granting b) false (.open firstPin false true)

/-- The books of the small system are in order. -/
theorem firstOpened_sound (b : UInt8) : Sound (firstOpened b) :=
  (@sound_of_runs _ _ false _ _ (granting_loads b) .refl).opens firstPin false true

/-- The file is open, and the pin has no interrupt. -/
theorem firstOpened_state (b : UInt8) :
    (firstOpened b).files = [firstFile] ∧ System.irqnum (firstOpened b) firstPin = some (-1) :=
  opens_after_loading (granting_loads b) (Int.lt_irrefl 0)

/-- A pin that is configured as an interrupt of the type 4. -/
theorem interrupts_untyped :
    initOutcome (granting 4) 240 = .ret (0, 240) ∧ firstFile ∈ (firstOpened 4).files ∧
      ¬InOrder false ((firstOpened 4).step (granting 4) false
        (.ioctl firstFile gpioConfigAsIrq 0)) := by
  obtain ⟨hfiles, hirq⟩ := firstOpened_state 4
  have hmem : firstFile ∈ (firstOpened 4).files := by
    rw [hfiles]
    exact List.mem_singleton_self _
  refine ⟨granting_loads 4, hmem, (firstOpened_sound 4).untyped hmem fun htyped => ?_⟩
  rcases htyped firstFile 0 rfl _ hirq with hold | hno | ⟨b, irqflags, hb, hflags⟩
  · exact absurd hold (by decide)
  · exact absurd hno (by decide)
  · have hbyte : b = 4 := (Option.some.inj hb).symm
    rw [hbyte] at hflags
    exact absurd hflags nofun

/-- The first pin becomes an interrupt for high levels. -/
theorem interrupts_in_order_typed :
    InOrder false ((firstOpened 0).step (granting 0) false
      (.ioctl firstFile gpioConfigAsIrq 0)) := by
  obtain ⟨hfiles, -⟩ := firstOpened_state 0
  have hmem : firstFile ∈ (firstOpened 0).files := by
    rw [hfiles]
    exact List.mem_singleton_self _
  have hopen : TypedStep false (System.loaded (granting 0) 240) (firstOpened 0) :=
    ⟨granting 0, .open firstPin false true, trivial, nofun, rfl⟩
  have hioctl : TypedStep false (firstOpened 0)
      ((firstOpened 0).step (granting 0) false (.ioctl firstFile gpioConfigAsIrq 0)) := by
    refine ⟨granting 0, .ioctl firstFile gpioConfigAsIrq 0, hmem, fun f arg hcall _ _ => ?_, rfl⟩
    exact .inr (.inr ⟨0, 4, rfl, rfl⟩)
  exact interrupts_in_order (granting_loads 0) (.tail (.single hopen) hioctl)

end MetaDigi.GpioInterrupts
