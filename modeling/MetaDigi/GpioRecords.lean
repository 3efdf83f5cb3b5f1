import MetaDigi.GpioInterrupts
import MetaDigi.SystemHistories

/-!
# The records of the pins in every run

What is kept by every call and every interrupt, whatever the kernel answers and
whatever is asked for: the records exist, and a handler is registered at most
for the interrupt that its record tells. A type that does not exist leaves an
interrupt without a handler, so no more than that can be said here. The steps of
`GPIO_CONFIG_AS_IRQ` are followed together with what an observer makes of them.
-/

namespace MetaDigi.GpioRecords

open SystemProgram SystemRuns SystemHistories GpioDriver GpioKernel GpioInterrupts Prog

section Records

variable {answer : (o : GpioOp) → GpioResp o} {k : Kernel} {g : Pin → GpioConf} {S : Pin → Prop}

/-- The records of the pins exist, interrupts are assigned to certain pins only,
and a handler is registered at most for the interrupt that its record tells. -/
structure Recorded (S : Pin → Prop) (k : Kernel) (g : Pin → GpioConf) : Prop where
  /-- These are the records. -/
  records : k.gpio = some g
  /-- A record has the number of its pin. -/
  dev_id : ∀ pin, (g pin).dev_id = pin.val
  /-- There is no interrupt, or the pin is one of these. -/
  irqnum : ∀ pin, (g pin).irqnum = -1 ∨ 0 ≤ (g pin).irqnum ∧ S pin
  /-- No other handler is registered, and this one is registered once. -/
  irqs : ∀ pin irq, k.held (.irq irq pin) ≤ if (g pin).irqnum = irq ∧ 0 ≤ irq then 1 else 0

/-- Without an interrupt no handler is registered. -/
theorem Recorded.unregistered (h : Recorded S k g) {pin : Pin} (hpin : (g pin).irqnum < 0)
    (irq : ℤ) : k.held (.irq irq pin) = 0 := by
  have hle := h.irqs pin irq
  rw [if_neg fun hirq => by omega] at hle
  exact Nat.le_zero.mp hle

/-- A record is changed, and with it at most the handlers of its pin. -/
theorem Recorded.assign (h : Recorded S k g) {pin : Pin} {k' : Kernel} {c : GpioConf}
    (hid : c.dev_id = (g pin).dev_id) (hirq : c.irqnum = -1 ∨ 0 ≤ c.irqnum ∧ S pin)
    (hgpio : k'.gpio = some (Function.update g pin c))
    (hself : ∀ irq, k'.held (.irq irq pin) ≤ if c.irqnum = irq ∧ 0 ≤ irq then 1 else 0)
    (hother : ∀ p, p ≠ pin → ∀ irq, k'.held (.irq irq p) = k.held (.irq irq p)) :
    Recorded S k' (Function.update g pin c) := by
  refine ⟨hgpio, fun p => ?_, fun p => ?_, fun p irq => ?_⟩
  · by_cases hp : p = pin
    · rw [hp, Function.update_self, hid]
      exact h.dev_id pin
    · rw [Function.update_of_ne hp]
      exact h.dev_id p
  · by_cases hp : p = pin
    · rw [hp, Function.update_self]
      exact hirq
    · rw [Function.update_of_ne hp]
      exact h.irqnum p
  · by_cases hp : p = pin
    · rw [hp, Function.update_self]
      exact hself irq
    · rw [Function.update_of_ne hp, hother p hp irq]
      exact h.irqs p irq

/-- Other resources do not matter. -/
theorem Recorded.aside (h : Recorded S k g) {k' : Kernel} (hgpio : k'.gpio = k.gpio)
    (hheld : ∀ irq pin, k'.held (.irq irq pin) = k.held (.irq irq pin)) : Recorded S k' g :=
  ⟨hgpio.trans h.records, h.dev_id, h.irqnum, fun pin irq => hheld irq pin ▸ h.irqs pin irq⟩

/-- An operation that neither assigns an interrupt nor registers a handler. -/
def Mild (o : GpioOp) : Prop :=
  Still o ∨ (∃ pin v, o = .setTriggered pin v) ∨ (∃ pin, o = .gpioRequest pin) ∨
    ∃ pin, o = .gpioFree pin

/-- Calm operations are mild. -/
theorem mild_of_calm {pin : Pin} {o : GpioOp} (ho : Calm pin o) : Mild o :=
  ho.elim (fun hset => .inr (.inl ⟨pin, false, hset⟩)) .inl

/-- Requesting and freeing a pin has nothing to do with interrupts. -/
theorem Recorded.mild (h : Recorded S k g) {o : GpioOp} (ho : Mild o) :
    ∃ g', Recorded S (serve answer o k).2 g' := by
  rcases ho with hstill | ⟨pin, v, rfl⟩ | ⟨pin, rfl⟩ | ⟨pin, rfl⟩
  · rw [serve_still hstill]
    exact ⟨g, h⟩
  · have hstore : (serve answer (.setTriggered pin v) k).2 = _ :=
      congrArg Prod.snd (modify_eq pin h.records fun c => { c with triggered := v })
    rw [hstore]
    exact ⟨_, h.assign (c := { g pin with triggered := v }) rfl (h.irqnum pin) rfl (h.irqs pin)
      fun _ _ _ => rfl⟩
  · refine ⟨g, ?_⟩
    dsimp only [serve]
    split
    · exact h
    · split
      · exact h
      · exact h.aside rfl fun irq p => acquire_other _ fun he => Resource.noConfusion he
  · exact ⟨g, h.aside (release_gpio _ _) fun irq p => release_other fun he =>
      Resource.noConfusion he⟩

/-- However the run ends, the records are kept. -/
def Keeps {α : Type} (answer : (o : GpioOp) → GpioResp o) (S : Pin → Prop) (p : Gpio α)
    (k : Kernel) : Prop :=
  Leaves (serve answer) p k fun _ k' => ∃ g', Recorded S k' g'

section Keeps

variable {α : Type} {X : Fault → Prop} {R : α → Prop} {p : Gpio α}

/-- A mild part keeps the records in order. -/
theorem keeps_of_mild (h : Recorded S k g) (hp : p.Sat Mild X R) : Keeps answer S p k := by
  refine leaves_keeps (I := fun k' => ∃ g', Recorded S k' g') hp ?_ ⟨g, h⟩
  rintro o k' ho ⟨g', h'⟩
  exact h'.mild ho

/-- Still parts are mild. -/
theorem mild_of_still (hp : p.Sat Still X R) : p.Sat Mild X R :=
  hp.mono (fun _ => .inl) (fun _ => id) fun _ => id

/-- A still part. -/
theorem keeps_of_still (h : Recorded S k g) (hp : p.Sat Still X R) : Keeps answer S p k :=
  keeps_of_mild h (mild_of_still hp)

/-- A calm part. -/
theorem keeps_of_calm (h : Recorded S k g) {pin : Pin} (hp : p.Sat (Calm pin) X R) :
    Keeps answer S p k :=
  keeps_of_mild h (hp.mono (fun _ => mild_of_calm) (fun _ => id) fun _ => id)

/-- Giving an interrupt back. The handler need not be registered. -/
theorem dropIrq_keeps (h : Recorded S k g) (pin : Pin) {f : Unit → Gpio α}
    (hf : (f ()).Sat Mild X R) : Keeps answer S (dropIrq pin >>= f) k := by
  unfold Keeps dropIrq
  rw [andThen_assoc]
  refine (loadIrqnum_ends pin h.records).leaves ?_
  split
  · rename_i hirq
    rw [andThen_assoc]
    refine (loadIrqnum_ends pin h.records).leaves ?_
    rw [andThen_assoc]
    refine leaves_call ?_
    dsimp only [serve]
    have hrecords : (k.release (.irq (g pin).irqnum pin)).gpio = some g :=
      (release_gpio _ _).trans h.records
    have hone := h.irqs pin (g pin).irqnum
    rw [if_pos ⟨rfl, hirq⟩] at hone
    refine (storeIrqnum_ends pin hrecords (-1)).leaves (keeps_of_mild (g := Function.update g pin
      { g pin with irqnum := -1 }) (h.assign rfl (.inl rfl) rfl ?_ ?_) hf)
    · intro irq
      dsimp only
      by_cases hsame : irq = (g pin).irqnum
      · have hnone : (k.release (.irq (g pin).irqnum pin)).held (.irq (g pin).irqnum pin) = 0 := by
          unfold Kernel.release
          split
          · dsimp only
            rw [Function.update_self]
            omega
          · rename_i hnone
            exact Nat.eq_zero_of_not_pos hnone
        rw [hsame, hnone]
        exact Nat.zero_le _
      · have hzero := h.irqs pin irq
        rw [if_neg fun he => hsame he.1.symm] at hzero
        rw [release_other fun he => hsame (Resource.irq.inj he).1]
        exact hzero.trans (Nat.zero_le _)
    · intro p hp irq
      exact release_other fun he => hp (Resource.irq.inj he).2
  · exact keeps_of_mild h hf

end Keeps

/-- The record of a pin when an interrupt has been assigned. -/
def assigned (g : Pin → GpioConf) (pin : Pin) (irqnum : ℤ) : Pin → GpioConf :=
  Function.update g pin { g pin with irqnum, triggered := false }

/-- Assigning an interrupt to a pin that has none. -/
theorem Recorded.assigned (h : Recorded S k g) {pin : Pin} (hpin : (g pin).irqnum < 0) {v : ℤ}
    (hv : v = -1 ∨ 0 ≤ v ∧ S pin) : Recorded S { k with gpio := some (assigned g pin v) }
      (GpioRecords.assigned g pin v) := by
  refine h.assign rfl hv rfl (fun irq => ?_) fun _ _ _ => rfl
  dsimp only
  rw [h.unregistered hpin]
  exact Nat.zero_le _

/-- The records are in order, so that they are kept. -/
theorem recorded_of_bookkeeping (h : Bookkeeping k g) (hS : ∀ pin, 0 ≤ (g pin).irqnum → S pin) :
    Recorded S k g :=
  ⟨h.records, h.dev_id, fun pin => (h.irqnum pin).imp_right fun hirq => ⟨hirq, hS pin hirq⟩,
    fun pin irq => (h.irqs pin irq).le⟩

/-- Interrupts may be assigned to more pins than these. -/
theorem Recorded.mono {T : Pin → Prop} (h : Recorded S k g) (hST : ∀ pin, S pin → T pin) :
    Recorded T k g :=
  ⟨h.records, h.dev_id, fun pin => (h.irqnum pin).imp_right (And.imp_right (hST pin)), h.irqs⟩

end Records

/-- The kernel when an interrupt has been assigned to the pin. -/
def assignedKernel (k : Kernel) (g : Pin → GpioConf) (pin : Pin) (irqnum : ℤ) : Kernel :=
  { k with gpio := some (assigned g pin irqnum) }

/-- The end of `GPIO_CONFIG_AS_IRQ`, once the type has been read. -/
def askHandler (f : File) (t : UInt8) : Gpio ℤ :=
  match irqFlags t with
  | none => return -eINVAL
  | some irqflags => do
    let irq ← loadIrqnum f.privateData
    let retval ← kernelCall (.requestIrq irq irqflags f.privateData)
    if retval ≠ 0 then
      storeIrqnum f.privateData (-1)
      return retval
    else return retval

section Observing

variable {τ : Type} {note : τ → Event GpioOp GpioResp → τ} {answer : (o : GpioOp) → GpioResp o}
  {k k' : Kernel} {g : Pin → GpioConf} {t t' : τ}

/-- An access to memory. -/
def Access : GpioOp → Prop
  | .devId _ => True
  | .irqnum _ => True
  | .setIrqnum _ _ => True
  | .setTriggered _ _ => True
  | .userChar _ => True
  | _ => False

/-- The observer learns nothing from accesses to memory. -/
def Overlooks (note : τ → Event GpioOp GpioResp → τ) : Prop := ∀ o, Access o → Unmoved note o

/-- An access comes first. -/
theorem sat_access {α : Type} (o : GpioOp) (ho : Access o) {f : GpioResp o → Gpio α}
    (hf : ∀ r, (f r).Sat Access (fun _ => True) (fun _ => True)) :
    (kernelCall o >>= f).Sat Access (fun _ => True) (fun _ => True) :=
  ⟨ho, hf⟩

section Accesses

variable (hnote : Overlooks note) (pin : Pin) (hk : k.gpio = some g) (t : τ)

include hnote hk

/-- Reading `dev_id`. -/
theorem loadDevId_tells :
    Tells (serve answer) note (loadDevId pin) k t (.ret (g pin).dev_id) k t :=
  tells_of_sat (loadDevId_ends pin hk)
    (sat_access (.devId pin) trivial fun r => sat_orNoRecord pin r) hnote t

/-- Reading `irqnum`. -/
theorem loadIrqnum_tells :
    Tells (serve answer) note (loadIrqnum pin) k t (.ret (g pin).irqnum) k t :=
  tells_of_sat (loadIrqnum_ends pin hk)
    (sat_access (.irqnum pin) trivial fun r => sat_orNoRecord pin r) hnote t

/-- Writing `irqnum`. -/
theorem storeIrqnum_tells (v : ℤ) :
    Tells (serve answer) note (storeIrqnum pin v) k t (.ret ())
      { k with gpio := some (Function.update g pin { g pin with irqnum := v }) } t :=
  tells_of_sat (storeIrqnum_ends pin hk v) (sat_access (.setIrqnum pin v) trivial fun r =>
    sat_orNoRecord pin r) hnote t

/-- Writing `triggered`. -/
theorem storeTriggered_tells (v : Bool) :
    Tells (serve answer) note (storeTriggered pin v) k t (.ret ())
      { k with gpio := some (Function.update g pin { g pin with triggered := v }) } t :=
  tells_of_sat (storeTriggered_ends pin hk v) (sat_access (.setTriggered pin v) trivial fun r =>
    sat_orNoRecord pin r) hnote t

end Accesses

variable {f : File} {arg : ℕ} (hnote : Overlooks note)

include hnote

/-- The type is read. -/
theorem loadUserChar_tells {b : UInt8} (hchar : answer (.userChar arg) = some b) (k : Kernel)
    (t : τ) : Tells (serve answer) note (loadUserChar arg) k t (.ret b) k t := by
  refine tells_of_sat (Ends.andThen (ends_perform _ _) ?_)
    (sat_access (.userChar arg) trivial fun r => by cases r <;> trivial) hnote t
  dsimp only [serve]
  rw [hchar]
  exact ends_pure b k

/-- A pin that has an interrupt is left alone. -/
theorem configAsIrq_present (hk : k.gpio = some g) (hirq : 0 ≤ (g f.privateData).irqnum) (t : τ) :
    Tells (serve answer) note (configAsIrq f arg) k t (.ret 0) k t := by
  refine (loadIrqnum_tells hnote f.privateData hk t).andThen ?_
  rw [if_pos hirq]
  exact tells_pure 0

/-- There is no interrupt for the pin: nothing but its direction is asked for,
and that is what the result is about. -/
theorem configAsIrq_without (hk : k.gpio = some g) (hirq : (g f.privateData).irqnum < 0)
    (hto : answer (.gpioToIrq f.gpionum) < 0)
    (ht : note (note t ⟨.gpioDirectionInput f.gpionum, answer (.gpioDirectionInput f.gpionum)⟩)
      ⟨.gpioToIrq f.gpionum, answer (.gpioToIrq f.gpionum)⟩ = t') :
    Tells (serve answer) note (configAsIrq f arg) k t
      (.ret (answer (.gpioDirectionInput f.gpionum))) k t' := by
  refine (loadIrqnum_tells hnote f.privateData hk t).andThen ?_
  rw [if_neg (Int.not_le.mpr hirq), ← ht]
  refine tells_call (tells_call ?_)
  dsimp only [serve]
  rw [if_neg (Int.not_le.mpr hto)]
  exact tells_pure _

/-- There is an interrupt: it is assigned, and the queue initialised, before the
type is looked at. -/
theorem configAsIrq_asks (hk : k.gpio = some g) (hirq : (g f.privateData).irqnum < 0)
    (hto : 0 ≤ answer (.gpioToIrq f.gpionum)) {out : Outcome Fault ℤ}
    (hask : Tells (serve answer) note (loadUserChar arg >>= askHandler f)
      (assignedKernel k g f.privateData (answer (.gpioToIrq f.gpionum)))
      (note (note (note t ⟨.gpioDirectionInput f.gpionum, answer (.gpioDirectionInput f.gpionum)⟩)
        ⟨.gpioToIrq f.gpionum, answer (.gpioToIrq f.gpionum)⟩)
        ⟨.initWaitqueueHead f.privateData, answer (.initWaitqueueHead f.privateData)⟩)
      out k' t') :
    Tells (serve answer) note (configAsIrq f arg) k t out k' t' := by
  have hassigned : Function.update (Function.update g f.privateData
      { g f.privateData with irqnum := answer (.gpioToIrq f.gpionum) }) f.privateData
      { Function.update g f.privateData { g f.privateData with
        irqnum := answer (.gpioToIrq f.gpionum) } f.privateData with triggered := false } =
      assigned g f.privateData (answer (.gpioToIrq f.gpionum)) := by
    rw [Function.update_idem, Function.update_self]
    rfl
  refine (loadIrqnum_tells hnote f.privateData hk t).andThen ?_
  rw [if_neg (Int.not_le.mpr hirq)]
  refine tells_call (tells_call ?_)
  dsimp only [serve]
  rw [if_pos hto]
  refine (storeIrqnum_tells hnote f.privateData hk _ _).andThen (tells_call ?_)
  refine (storeTriggered_tells hnote f.privateData rfl _ false).andThen ?_
  rw [hassigned]
  exact hask

/-- `gpio_ioctl` with this command, for a file that has the record of its pin. -/
theorem gpioIoctl_tells (hk : k.gpio = some g) (hid : (f.gpionum.val : ℤ) = (g f.privateData).dev_id)
    (pullupdown : Bool) {out : Outcome Fault ℤ}
    (hconfig : Tells (serve answer) note (configAsIrq f arg) k t out k' t') :
    Tells (serve answer) note (gpioIoctl pullupdown f gpioConfigAsIrq arg) k t out k' t' := by
  unfold gpioIoctl
  rw [if_neg (by decide), if_neg (by decide)]
  refine (loadDevId_tells hnote f.privateData hk t).andThen ?_
  rw [if_neg (not_not.mpr hid)]
  exact hconfig

section Asking

variable {b : UInt8} {irqflags : ℕ}

omit hnote in
/-- The type does not exist. -/
theorem askHandler_untyped (hflags : irqFlags b = none) (k : Kernel) (t : τ) :
    Tells (serve answer) note (askHandler f b) k t (.ret (-eINVAL)) k t := by
  unfold askHandler
  rw [hflags]
  exact tells_pure _

/-- The handler is registered. -/
theorem askHandler_granted (hk : k.gpio = some g) (hflags : irqFlags b = some irqflags)
    (hret : answer (.requestIrq (g f.privateData).irqnum irqflags f.privateData) = 0) (t : τ) :
    Tells (serve answer) note (askHandler f b) k t (.ret 0)
      (k.acquire (.irq (g f.privateData).irqnum f.privateData))
      (note t ⟨.requestIrq (g f.privateData).irqnum irqflags f.privateData, (0 : ℤ)⟩) := by
  unfold askHandler
  rw [hflags]
  refine (loadIrqnum_tells hnote f.privateData hk t).andThen (tells_call ?_)
  dsimp only [serve]
  rw [hret, if_pos rfl, if_neg (not_not.mpr rfl)]
  exact tells_pure _

/-- The handler is refused: the interrupt is taken away again. -/
theorem askHandler_refused (hk : k.gpio = some g) (hflags : irqFlags b = some irqflags)
    (hret : answer (.requestIrq (g f.privateData).irqnum irqflags f.privateData) ≠ 0) (t : τ) :
    Tells (serve answer) note (askHandler f b) k t
      (.ret (answer (.requestIrq (g f.privateData).irqnum irqflags f.privateData)))
      { k with gpio := some (Function.update g f.privateData
        { g f.privateData with irqnum := -1 }) }
      (note t ⟨.requestIrq (g f.privateData).irqnum irqflags f.privateData,
        answer (.requestIrq (g f.privateData).irqnum irqflags f.privateData)⟩) := by
  unfold askHandler
  rw [hflags]
  refine (loadIrqnum_tells hnote f.privateData hk t).andThen (tells_call ?_)
  dsimp only [serve]
  rw [if_neg hret, if_pos hret]
  exact (storeIrqnum_tells hnote f.privateData hk _ _).andThen (tells_pure _)

end Asking

end Observing

section Calls

variable {answer : (o : GpioOp) → GpioResp o} {k : Kernel} {g : Pin → GpioConf} {S : Pin → Prop}
  {f : File} {arg : ℕ} {b : UInt8}

/-- An observer who is not interested in anything. -/
theorem overlooks_unit : Overlooks fun (t : Unit) (_ : Event GpioOp GpioResp) => t :=
  fun _ _ _ _ => rfl

/-- Whatever is answered, the records are kept. -/
theorem askHandler_keeps (h : Recorded S k g) (hirq : 0 ≤ (g f.privateData).irqnum)
    (hnone : ∀ irq, k.held (.irq irq f.privateData) = 0) : Keeps answer S (askHandler f b) k := by
  cases hflags : irqFlags b with
  | none =>
    have hask := @askHandler_untyped Unit (fun t _ => t) answer f b hflags k ()
    exact hask.1.left ⟨g, h⟩
  | some irqflags =>
    by_cases hret : answer (.requestIrq (g f.privateData).irqnum irqflags f.privateData) = 0
    · refine (askHandler_granted overlooks_unit h.records hflags hret ()).1.left
        ⟨g, h.records, h.dev_id, h.irqnum, fun pin irq => ?_⟩
      by_cases hpin : pin = f.privateData
      · rw [hpin]
        by_cases hsame : irq = (g f.privateData).irqnum
        · rw [hsame, acquire_self, hnone, if_pos ⟨rfl, hirq⟩]
        · rw [acquire_other _ fun he => hsame (Resource.irq.inj he).1, hnone]
          exact Nat.zero_le _
      · rw [acquire_other _ fun he => hpin (Resource.irq.inj he).2]
        exact h.irqs pin irq
    · refine (askHandler_refused overlooks_unit h.records hflags hret ()).1.left
        ⟨_, h.assign (c := { g f.privateData with irqnum := -1 }) rfl (.inl rfl) rfl
          (fun irq => ?_) fun _ _ _ => rfl⟩
      dsimp only
      rw [hnone]
      exact Nat.zero_le _

/-- `GPIO_CONFIG_AS_IRQ` keeps the records, also when the type cannot be read. -/
theorem configAsIrq_keeps (h : Recorded S k g)
    (hS : (g f.privateData).irqnum < 0 → 0 ≤ answer (.gpioToIrq f.gpionum) → S f.privateData) :
    Keeps answer S (configAsIrq f arg) k := by
  by_cases hirq : 0 ≤ (g f.privateData).irqnum
  · exact (configAsIrq_present overlooks_unit h.records hirq ()).1.left ⟨g, h⟩
  · have hneg := Int.not_le.mp hirq
    by_cases hto : 0 ≤ answer (.gpioToIrq f.gpionum)
    · have hassigned := h.assigned hneg (.inr ⟨hto, hS hneg hto⟩)
      have hnow : 0 ≤ (assigned g f.privateData (answer (.gpioToIrq f.gpionum))
          f.privateData).irqnum := by
        rw [assigned, Function.update_self]
        exact hto
      have hrest : Keeps answer S (loadUserChar arg >>= askHandler f)
          (assignedKernel k g f.privateData (answer (.gpioToIrq f.gpionum))) := by
        unfold Keeps loadUserChar
        rw [andThen_assoc]
        refine leaves_call ?_
        dsimp only [serve]
        cases answer (.userChar arg) with
        | none => exact leaves_exit ⟨_, hassigned⟩
        | some b => exact askHandler_keeps hassigned hnow (h.unregistered hneg)
      exact (configAsIrq_asks overlooks_unit h.records hneg hto
        (⟨⟨rfl, rfl⟩, rfl⟩ : Tells _ _ _ _ () _ _ ())).1.left hrest
    · exact (configAsIrq_without overlooks_unit h.records hneg (Int.not_le.mp hto)
        (rfl : () = ())).1.left ⟨g, h⟩

/-- `gpio_ioctl`. -/
theorem gpioIoctl_keeps (h : Recorded S k g) (pullupdown : Bool) (cmd : BitVec 32)
    (hS : cmd = gpioConfigAsIrq → (g f.privateData).irqnum < 0 →
      0 ≤ answer (.gpioToIrq f.gpionum) → S f.privateData) :
    Keeps answer S (gpioIoctl pullupdown f cmd arg) k := by
  unfold Keeps gpioIoctl
  split
  · exact leaves_pure ⟨g, h⟩
  · split
    · exact leaves_pure ⟨g, h⟩
    · refine (loadDevId_ends f.privateData h.records).leaves ?_
      split
      · exact leaves_pure ⟨g, h⟩
      · unfold ioctlSwitch
        split
        · exact dropIrq_keeps h _ (mild_of_still (sat_still (.gpioDirectionInput f.gpionum) trivial))
        · split
          · exact dropIrq_keeps h _ (mild_of_still (sat_holdValue f.gpionum))
          · split
            · exact keeps_of_calm h (sat_readPinVal f arg)
            · split
              · exact keeps_of_still h ((sat_loadUserChar arg).andThen fun b _ =>
                  (sat_still (.gpioSetValue f.gpionum b) trivial).andThen fun _ _ => sat_return 0)
              · split
                · rename_i hcmd
                  exact configAsIrq_keeps h (hS hcmd)
                · split
                  · exact keeps_of_still h ((sat_still (.gpioSetPullupdown f.gpionum arg)
                    trivial).andThen fun _ _ => sat_return 0)
                  · exact leaves_pure ⟨g, h⟩

/-- `gpio_release_close`. -/
theorem gpioReleaseClose_keeps (h : Recorded S k g) (f : File) :
    Keeps answer S (gpioReleaseClose f) k := by
  unfold Keeps gpioReleaseClose
  refine (loadDevId_ends f.privateData h.records).leaves ?_
  split
  · exact leaves_pure ⟨g, h⟩
  · exact dropIrq_keeps h _ ((sat_perform (.inr (.inr (.inr ⟨_, rfl⟩))) fun _ => trivial).andThen
      fun _ _ => sat_return 0)

/-- `gpio_open` gives out the record of the pin. -/
theorem sat_gpioOpen (gpionum : Pin) : (gpioOpen gpionum).Sat Mild (fun _ => True)
    (fun r => ∀ pin, r.2 = some pin → pin = gpionum) := by
  refine (mild_of_still (sat_loadDevId gpionum)).andThen fun _ _ => ?_
  split
  · exact sat_ret nofun
  · refine (sat_perform (.inr (.inr (.inl ⟨gpionum, rfl⟩))) fun _ => trivial).andThen
      fun (ret : ℤ) _ => ?_
    split
    · exact sat_ret nofun
    · exact sat_ret fun pin hpin => (Option.some.inj hpin).symm

/-- A file that has been opened has the record of its pin. -/
theorem opened_own {gpionum : Pin} {nonblock writable : Bool} :
    ∀ f ∈ opened gpionum nonblock writable
      (exec (serve answer) everyCall (gpioOpen gpionum) k).outcome, f.privateData = f.gpionum := by
  have hresult := ((sat_gpioOpen gpionum).exec (serve answer) everyCall k).2.1
  intro f hf
  unfold opened at hf
  split at hf
  · rename_i pin hout
    rw [List.mem_singleton.mp hf]
    exact hresult _ hout pin rfl
  · exact absurd hf List.not_mem_nil

/-- `gpio_irq_handler`. -/
theorem sat_gpioIrqHandler (pin : Pin) :
    (gpioIrqHandler pin).Sat Mild (fun _ => True) (fun _ => True) := by
  have hstore : (storeTriggered pin true).Sat Mild (fun _ => True) (fun _ => True) :=
    (sat_perform (.inr (.inl ⟨pin, true, rfl⟩)) fun _ => trivial).andThen fun _ _ =>
      sat_orNoRecord pin _
  exact hstore.andThen fun _ _ => (sat_perform (.inl trivial) fun _ => trivial).andThen
    fun _ _ => sat_return 1

/-- The records and the files that are open, after a call on an open file. -/
structure Standing (S : Pin → Prop) (sys : System) : Prop where
  /-- The records are kept. -/
  records : ∃ g, Recorded S sys.kernel g
  /-- A file has the record of its pin. -/
  own : ∀ f ∈ sys.files, f.privateData = f.gpionum

variable {sys : System} {pullupdown : Bool}

/-- A function that opens and releases nothing. -/
theorem Standing.run {α : Type} {p : Gpio α} (h : Standing S sys)
    (hp : Keeps answer S p sys.kernel) : Standing S (sys.run answer p) :=
  ⟨hp, h.own⟩

/-- One call. An interrupt may be assigned by `GPIO_CONFIG_AS_IRQ`. -/
theorem Standing.step (h : Standing S sys) (call : Call)
    (hS : ∀ f arg irqnum, call = .ioctl f gpioConfigAsIrq arg →
      System.irqnum sys f.privateData = some irqnum → irqnum < 0 →
        0 ≤ answer (.gpioToIrq f.gpionum) → S f.privateData) :
    Standing S (sys.step answer pullupdown call) := by
  obtain ⟨g, hrec⟩ := h.records
  cases call with
  | «open» gpionum nonblock writable =>
    have hrun := h.run (@keeps_of_mild answer _ _ _ _ _ _ _ hrec (sat_gpioOpen gpionum))
    refine ⟨hrun.records, fun f hf => ?_⟩
    exact (List.mem_append.mp hf).elim (opened_own f) (h.own f)
  | ioctl f cmd arg =>
    refine h.run (gpioIoctl_keeps hrec pullupdown cmd fun hcmd hirq hto => ?_)
    refine hS f arg _ (by rw [hcmd]) ?_ hirq hto
    rw [System.irqnum, hrec.records]
    rfl
  | read f buf count => exact h.run (keeps_of_calm hrec (sat_gpioRead f buf count))
  | write f buf count => exact h.run (keeps_of_still hrec (sat_gpioWrite f buf count))
  | poll f => exact h.run (keeps_of_still hrec (sat_gpioPoll f))
  | release f =>
    have hrun := h.run (@gpioReleaseClose_keeps answer _ _ _ hrec f)
    exact ⟨hrun.records, fun q hq => h.own q (List.mem_of_mem_erase hq)⟩

/-- The interrupt handler. -/
theorem Standing.handler (h : Standing S sys) (pin : Pin) :
    Standing S (sys.run answer (gpioIrqHandler pin)) := by
  obtain ⟨g, hrec⟩ := h.records
  exact h.run (keeps_of_mild hrec (sat_gpioIrqHandler pin))

/-- After a success of `gpio_init` no interrupt has been assigned. -/
theorem standing_loaded {gpio_major major : ℕ}
    (hinit : initOutcome answer gpio_major = .ret (0, major)) (S : Pin → Prop) :
    Standing S (System.loaded answer gpio_major) := by
  obtain ⟨g, hkernel, hg⟩ := kernel_of_success hinit
  obtain ⟨g', hbooks⟩ := (loaded_of_success hinit).records
  have hsame : g' = g := Option.some.inj (hbooks.records.symm.trans (congrArg Kernel.gpio hkernel))
  refine ⟨⟨g', recorded_of_bookkeeping hbooks fun pin hirq => ?_⟩, nofun⟩
  rw [hsame, (hg pin).2] at hirq
  omega

end Calls

end MetaDigi.GpioRecords
