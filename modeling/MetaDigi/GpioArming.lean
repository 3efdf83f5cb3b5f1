import MetaDigi.GpioRecords

/-!
# Arming the interrupt of a pin

Next to the kernel stands what it has been told about each pin: the handlers
that are registered, with their triggers, and whether the last request for a
direction has made the pin an input. `GPIO_CONFIG_AS_IRQ` is to arm the
interrupt as it is asked to, or to fail without a trace. When it does so is
shown here for every state that calls and interrupts can lead to.
-/

namespace MetaDigi.GpioArming

open SystemProgram SystemRuns SystemHistories GpioDriver GpioKernel GpioInterrupts GpioRecords Prog

/-- A handler that is registered for the record of a pin. -/
structure Registration where
  /-- The interrupt. -/
  irq : ℤ
  /-- The trigger. -/
  irqflags : ℕ
  /-- The record that the handler is given. -/
  pin : Pin
  deriving DecidableEq

/-- What the kernel has been told about the pins. -/
structure Wiring where
  /-- The handlers that are registered. -/
  armed : List Registration := []
  /-- The last request for a direction was for an input, and has succeeded. -/
  input : Pin → Bool := fun _ => false

/-- What the kernel is told by an operation, with its answer. No handler of a
record is left on an interrupt that is freed for it. -/
def Wiring.note (w : Wiring) : Event GpioOp GpioResp → Wiring
  | ⟨.requestIrq irq irqflags pin, r⟩ =>
    if r = (0 : ℤ) then { w with armed := { irq, irqflags, pin } :: w.armed } else w
  | ⟨.freeIrq irq pin, _⟩ =>
    { w with armed := w.armed.filter fun q => !(q.irq = irq && q.pin = pin) }
  | ⟨.gpioDirectionInput pin, r⟩ =>
    { w with input := Function.update w.input pin (decide (r = (0 : ℤ))) }
  | ⟨.gpioDirectionOutput pin _, _⟩ => { w with input := Function.update w.input pin false }
  | _ => w

/-- The driver with its open files, and what the kernel has been told. -/
structure Wired where
  /-- The kernel and the open files. -/
  system : System
  /-- What the kernel has been told. -/
  wiring : Wiring := {}

section Runs

variable (answer : (o : GpioOp) → GpioResp o)

/-- What the kernel has been told when a function of the driver has run. -/
def Wiring.after {α : Type} (w : Wiring) (p : Gpio α) (k : Kernel) : Wiring :=
  (history (serve answer) p k).foldl Wiring.note w

/-- What it has been told after a call. -/
def Wired.told (pullupdown : Bool) (sys : Wired) : Call → Wiring
  | .open gpionum _ _ => sys.wiring.after answer (gpioOpen gpionum) sys.system.kernel
  | .ioctl f cmd arg =>
    sys.wiring.after answer (gpioIoctl pullupdown f cmd arg) sys.system.kernel
  | .read f buf count => sys.wiring.after answer (gpioRead f buf count) sys.system.kernel
  | .write f buf count => sys.wiring.after answer (gpioWrite f buf count) sys.system.kernel
  | .poll f => sys.wiring.after answer (gpioPoll f) sys.system.kernel
  | .release f => sys.wiring.after answer (gpioReleaseClose f) sys.system.kernel

/-- A call. -/
def Wired.step (pullupdown : Bool) (sys : Wired) (call : Call) : Wired :=
  { system := sys.system.step answer pullupdown call
    wiring := sys.told answer pullupdown call }

/-- A function that is not called for a file. -/
def Wired.run {α : Type} (sys : Wired) (p : Gpio α) : Wired :=
  { system := sys.system.run answer p
    wiring := sys.wiring.after answer p sys.system.kernel }

/-- After `gpio_init`. -/
def Wired.loaded (gpio_major : ℕ) : Wired :=
  Wired.run answer { system := { kernel := {} } } (gpioInit gpio_major)

end Runs

/-- A call on an open file, or an interrupt, whatever the kernel answers. -/
def WiredStep (pullupdown : Bool) (sys sys' : Wired) : Prop :=
  ∃ answer, (∃ call, call.OnOpen sys.system ∧ sys' = sys.step answer pullupdown call) ∨
    ∃ pin, sys' = sys.run answer (gpioIrqHandler pin)

/-- The handler of a pin is registered with this trigger. -/
def Wiring.Armed (w : Wiring) (pin : Pin) (irqflags : ℕ) : Prop :=
  ∃ irq, { irq, irqflags, pin } ∈ w.armed

/-- The pin is an input, and its handler is registered with the trigger that
this type stands for. -/
def Wiring.ArmedAs (w : Wiring) (pin : Pin) (t : UInt8) : Prop :=
  w.input pin = true ∧ ∃ irqflags, irqFlags t = some irqflags ∧ w.Armed pin irqflags

/-- `GPIO_CONFIG_AS_IRQ` does as it is asked, or fails without a trace: when it
returns 0 the pin is an input whose handler is registered with the trigger, and
when it returns anything else the interrupts that are assigned and the handlers
that are registered are as before. -/
def AsAsked (answer : (o : GpioOp) → GpioResp o) (pullupdown : Bool) (sys : Wired) (f : File)
    (arg : ℕ) (t : UInt8) : Prop :=
  ∃ ret, (exec (serve answer) everyCall (gpioIoctl pullupdown f gpioConfigAsIrq arg)
      sys.system.kernel).outcome = .ret ret ∧
    (ret = 0 → (sys.step answer pullupdown (.ioctl f gpioConfigAsIrq arg)).wiring.ArmedAs
      f.gpionum t) ∧
    (ret ≠ 0 →
      (∀ pin, System.irqnum (sys.step answer pullupdown (.ioctl f gpioConfigAsIrq arg)).system pin =
        System.irqnum sys.system pin) ∧
      (sys.step answer pullupdown (.ioctl f gpioConfigAsIrq arg)).wiring.armed = sys.wiring.armed)

/-- What the pin and the kernel have to be like: the pin is armed in this way
already; or it has no interrupt, and there is none for it and it cannot become
an input; or there is one, the type exists, and the handler is refused or the
pin becomes an input. -/
def Armable (answer : (o : GpioOp) → GpioResp o) (sys : Wired) (f : File) (t : UInt8) : Prop :=
  ∃ irqnum, System.irqnum sys.system f.privateData = some irqnum ∧
    (0 ≤ irqnum ∧ sys.wiring.ArmedAs f.gpionum t ∨
      irqnum < 0 ∧ answer (.gpioToIrq f.gpionum) < 0 ∧ answer (.gpioDirectionInput f.gpionum) ≠ 0 ∨
      irqnum < 0 ∧ 0 ≤ answer (.gpioToIrq f.gpionum) ∧ ∃ irqflags, irqFlags t = some irqflags ∧
        (answer (.requestIrq (answer (.gpioToIrq f.gpionum)) irqflags f.privateData) ≠ 0 ∨
          answer (.gpioDirectionInput f.gpionum) = 0))

/-- What the kernel has been told when the pin was to become an input. -/
def Wiring.directed (w : Wiring) (answer : (o : GpioOp) → GpioResp o) (pin : Pin) : Wiring :=
  w.note ⟨.gpioDirectionInput pin, answer (.gpioDirectionInput pin)⟩

theorem directed_input {answer : (o : GpioOp) → GpioResp o} (w : Wiring) (pin : Pin) :
    (w.directed answer pin).input pin = true ↔ answer (.gpioDirectionInput pin) = 0 := by
  dsimp only [Wiring.directed, Wiring.note]
  rw [Function.update_self]
  exact decide_eq_true_iff

/-- A handler that is refused is not registered. -/
theorem note_refused (w : Wiring) {irq : ℤ} {irqflags : ℕ} {pin : Pin} {r : ℤ} (hr : r ≠ 0) :
    w.note ⟨.requestIrq irq irqflags pin, r⟩ = w :=
  if_neg hr

/-- Accesses to memory tell the kernel nothing. -/
theorem wiring_overlooks : Overlooks Wiring.note := by
  intro o ho r w
  cases o <;> first | rfl | exact absurd ho id

/-- A handler is registered only where the kernel holds the interrupt. -/
def Registered (k : Kernel) (w : Wiring) : Prop :=
  ∀ q ∈ w.armed, 0 < k.held (.irq q.irq q.pin)

section Registered

variable {answer : (o : GpioOp) → GpioResp o} {k : Kernel} {w : Wiring}

/-- Other resources do not matter. -/
theorem Registered.aside (h : Registered k w) {k' : Kernel} {w' : Wiring}
    (hheld : ∀ irq pin, k'.held (.irq irq pin) = k.held (.irq irq pin))
    (harmed : w'.armed = w.armed) : Registered k' w' := by
  intro q hq
  rw [hheld]
  exact h q (harmed ▸ hq)

theorem Registered.acquire (h : Registered k w) (r : Resource) : Registered (k.acquire r) w := by
  intro q hq
  by_cases hr : .irq q.irq q.pin = r
  · rw [hr, acquire_self]
    exact Nat.succ_pos _
  · rw [acquire_other _ hr]
    exact h q hq

/-- Every operation. -/
theorem Registered.serve (h : Registered k w) (o : GpioOp) :
    Registered (serve answer o k).2 (w.note ⟨o, (GpioKernel.serve answer o k).1⟩) := by
  have hrelease : ∀ r, (∀ irq pin, .irq irq pin ≠ r) → Registered (k.release r) w :=
    fun r hr => h.aside (fun irq pin => release_other (hr irq pin)) rfl
  have hmodify : ∀ pin f, Registered (k.modify pin f).2 w := by
    intro pin f
    unfold Kernel.modify
    split <;> exact h
  cases o with
  | setDevId pin v => exact hmodify pin _
  | setIrqnum pin v => exact hmodify pin _
  | setTriggered pin v => exact hmodify pin _
  | gpioFree pin => exact hrelease _ nofun
  | unregisterChrdevRegion major => exact hrelease _ nofun
  | kfreeDevice => exact hrelease _ nofun
  | cdevDel => exact hrelease _ nofun
  | freeIrq irq pin =>
    intro q hq
    obtain ⟨hmem, hother⟩ := List.mem_filter.mp hq
    have hne : Resource.irq q.irq q.pin ≠ .irq irq pin := by
      intro he
      obtain ⟨hirq, hpin⟩ := Resource.irq.inj he
      rw [hirq, hpin] at hother
      simp only [decide_true, Bool.and_self, Bool.not_true, Bool.false_eq_true] at hother
    dsimp only [GpioKernel.serve]
    rw [release_other hne]
    exact h q hmem
  | requestIrq irq irqflags pin =>
    dsimp only [GpioKernel.serve, Wiring.note]
    split
    · intro q hq
      rcases List.mem_cons.mp hq with hnew | hold
      · rw [hnew, acquire_self]
        exact Nat.succ_pos _
      · exact h.acquire _ q hold
    · exact h
  | _ =>
    dsimp only [GpioKernel.serve]
    (repeat' split) <;> exact h

theorem Registered.after {α : Type} (h : Registered k w) (p : Gpio α) :
    Registered (exec (GpioKernel.serve answer) everyCall p k).state (w.after answer p k) :=
  history_keeps (J := Registered) (fun o _ _ hk => hk.serve o) p h

end Registered

/-- What is kept by every call and every interrupt. -/
structure Kept (sys : Wired) : Prop where
  /-- The records and the files. -/
  standing : Standing (fun _ => True) sys.system
  /-- A handler is registered only where the kernel holds the interrupt. -/
  registered : Registered sys.system.kernel sys.wiring

section Reachable

variable {sys : Wired} {answer : (o : GpioOp) → GpioResp o} {pullupdown : Bool}

/-- One call, or one interrupt. -/
theorem Kept.step {sys' : Wired} (h : Kept sys) (hstep : WiredStep pullupdown sys sys') :
    Kept sys' := by
  obtain ⟨answer, ⟨call, -, rfl⟩ | ⟨pin, rfl⟩⟩ := hstep
  · refine ⟨h.standing.step call fun _ _ _ _ _ _ _ => trivial, ?_⟩
    cases call with
    | «open» gpionum nonblock writable => exact h.registered.after (gpioOpen gpionum)
    | ioctl f cmd arg => exact h.registered.after (gpioIoctl pullupdown f cmd arg)
    | read f buf count => exact h.registered.after (gpioRead f buf count)
    | write f buf count => exact h.registered.after (gpioWrite f buf count)
    | poll f => exact h.registered.after (gpioPoll f)
    | release f => exact h.registered.after (gpioReleaseClose f)
  · exact ⟨h.standing.handler pin, h.registered.after (gpioIrqHandler pin)⟩

/-- Every sequence of them after `gpio_init`. -/
theorem kept_of_runs {gpio_major major : ℕ}
    (hinit : initOutcome answer gpio_major = .ret (0, major))
    (hrun : Relation.ReflTransGen (WiredStep pullupdown) (Wired.loaded answer gpio_major) sys) :
    Kept sys := by
  induction hrun with
  | refl =>
    have hempty : Registered {} {} := fun q hq => absurd hq List.not_mem_nil
    exact ⟨standing_loaded hinit _, hempty.after (gpioInit gpio_major)⟩
  | tail _ hstep ih => exact ih.step hstep

/-- A pin without an interrupt has no handler. -/
theorem unarmed {S : Pin → Prop} {g : Pin → GpioConf} (hrec : Recorded S sys.system.kernel g)
    (h : Registered sys.system.kernel sys.wiring) {pin : Pin} (hirq : (g pin).irqnum < 0)
    (irqflags : ℕ) : ¬sys.wiring.Armed pin irqflags := by
  rintro ⟨irq, hmem⟩
  have hheld : 0 < sys.system.kernel.held (.irq irq pin) := h _ hmem
  rw [hrec.unregistered hirq] at hheld
  exact absurd hheld (Nat.lt_irrefl 0)

variable {S : Pin → Prop} {g : Pin → GpioConf} {f : File} {arg : ℕ} {t : UInt8}

/-- What is asked of a call whose end is known. -/
theorem asAsked_of_tells (hrec : Recorded S sys.system.kernel g) (hown : f.privateData = f.gpionum)
    {r : ℤ} {k' : Kernel} {w' : Wiring}
    (hends : Tells (serve answer) Wiring.note (configAsIrq f arg) sys.system.kernel sys.wiring
      (.ret r) k' w') :
    AsAsked answer pullupdown sys f arg t ↔ (r = 0 → w'.ArmedAs f.gpionum t) ∧
      (r ≠ 0 → (∀ pin, (k'.gpio.map fun g' => (g' pin).irqnum) = some (g pin).irqnum) ∧
        w'.armed = sys.wiring.armed) := by
  have hioctl := gpioIoctl_tells wiring_overlooks hrec.records
    (hown ▸ (hrec.dev_id f.privateData).symm) pullupdown hends
  have hkernel : (sys.step answer pullupdown (.ioctl f gpioConfigAsIrq arg)).system.kernel = k' :=
    hioctl.1.2
  have hwiring : (sys.step answer pullupdown (.ioctl f gpioConfigAsIrq arg)).wiring = w' :=
    hioctl.2
  unfold AsAsked
  simp only [hioctl.1.1, hwiring, System.irqnum, hkernel, hrec.records, Option.map_some]
  constructor
  · rintro ⟨r', hr, hasked⟩
    rw [Outcome.ret.inj hr]
    exact hasked
  · exact fun hasked => ⟨r, rfl, hasked⟩

section Cases

variable (hrec : Recorded S sys.system.kernel g) (hreg : Registered sys.system.kernel sys.wiring)
  (hown : f.privateData = f.gpionum)

include hrec hown

/-- The pin has an interrupt. -/
theorem asAsked_present (hirq : 0 ≤ (g f.privateData).irqnum) :
    AsAsked answer pullupdown sys f arg t ↔ sys.wiring.ArmedAs f.gpionum t := by
  rw [asAsked_of_tells hrec hown (configAsIrq_present wiring_overlooks hrec.records hirq _)]
  exact ⟨fun hasked => hasked.1 rfl, fun harmed => ⟨fun _ => harmed, fun hne => absurd rfl hne⟩⟩

/-- There is an interrupt for the pin, but not such a type. -/
theorem asAsked_untyped (hirq : (g f.privateData).irqnum < 0)
    (hto : 0 ≤ answer (.gpioToIrq f.gpionum)) (hchar : answer (.userChar arg) = some t)
    (hflags : irqFlags t = none) : ¬AsAsked answer pullupdown sys f arg t := by
  rw [asAsked_of_tells hrec hown (configAsIrq_asks wiring_overlooks hrec.records hirq hto
    ((loadUserChar_tells wiring_overlooks hchar _ _).andThen (askHandler_untyped hflags _ _)))]
  intro hasked
  have hself : (assigned g f.privateData (answer (.gpioToIrq f.gpionum)) f.privateData).irqnum =
      answer (.gpioToIrq f.gpionum) := by
    rw [assigned, Function.update_self]
  have hsame := (hasked.2 (by decide)).1 f.privateData
  have hleft : answer (.gpioToIrq f.gpionum) = (g f.privateData).irqnum :=
    hself.symm.trans (Option.some.inj hsame)
  rw [hleft] at hto
  exact absurd hto (Int.not_le.mpr hirq)

/-- There are both. -/
theorem asAsked_typed {irqflags : ℕ} (hirq : (g f.privateData).irqnum < 0)
    (hto : 0 ≤ answer (.gpioToIrq f.gpionum)) (hchar : answer (.userChar arg) = some t)
    (hflags : irqFlags t = some irqflags) :
    AsAsked answer pullupdown sys f arg t ↔
      answer (.requestIrq (answer (.gpioToIrq f.gpionum)) irqflags f.privateData) ≠ 0 ∨
        answer (.gpioDirectionInput f.gpionum) = 0 := by
  have hself : assigned g f.privateData (answer (.gpioToIrq f.gpionum)) f.privateData =
      { g f.privateData with irqnum := answer (.gpioToIrq f.gpionum), triggered := false } :=
    Function.update_self ..
  have hnow : (assigned g f.privateData (answer (.gpioToIrq f.gpionum)) f.privateData).irqnum =
      answer (.gpioToIrq f.gpionum) := congrArg GpioConf.irqnum hself
  by_cases hret : answer (.requestIrq (answer (.gpioToIrq f.gpionum)) irqflags f.privateData) = 0
  · rw [← hnow] at hret
    rw [asAsked_of_tells hrec hown (configAsIrq_asks wiring_overlooks hrec.records hirq hto
      ((loadUserChar_tells wiring_overlooks hchar _ _).andThen
        (askHandler_granted wiring_overlooks rfl hflags hret _)))]
    rw [hnow] at hret
    constructor
    · exact fun hasked => .inr ((directed_input _ _).mp (hasked.1 rfl).1)
    · intro hdir
      refine ⟨fun _ => ⟨?_, irqflags, hflags, ?_⟩, fun hne => absurd rfl hne⟩
      · exact (directed_input _ _).mpr (hdir.resolve_left (not_not.mpr hret))
      · rw [← hown]
        exact ⟨_, List.mem_cons_self ..⟩
  · have hrefused := hret
    rw [← hnow] at hrefused
    rw [asAsked_of_tells hrec hown (configAsIrq_asks wiring_overlooks hrec.records hirq hto
      ((loadUserChar_tells wiring_overlooks hchar _ _).andThen
        (askHandler_refused wiring_overlooks rfl hflags hrefused _)))]
    refine ⟨fun _ => .inl hret, fun _ => ⟨fun hzero => absurd hzero hrefused, fun _ =>
      ⟨fun pin => congrArg some ?_, (congrArg Wiring.armed (note_refused _ hrefused)).trans rfl⟩⟩⟩
    dsimp only
    by_cases hpin : pin = f.privateData
    · rw [hpin, Function.update_self]
      exact ((hrec.irqnum f.privateData).resolve_right fun hsome =>
        Int.not_le.mpr hirq hsome.1).symm
    · rw [Function.update_of_ne hpin, assigned, Function.update_of_ne hpin]

include hreg

/-- There is no interrupt for the pin. -/
theorem asAsked_without (hirq : (g f.privateData).irqnum < 0)
    (hto : answer (.gpioToIrq f.gpionum) < 0) :
    AsAsked answer pullupdown sys f arg t ↔ answer (.gpioDirectionInput f.gpionum) ≠ 0 := by
  rw [asAsked_of_tells hrec hown (configAsIrq_without wiring_overlooks hrec.records hirq hto rfl)]
  constructor
  · intro hasked hdir
    obtain ⟨-, irqflags, -, harmed⟩ := hasked.1 hdir
    exact unarmed hrec hreg hirq irqflags (hown ▸ harmed)
  · refine fun hdir => ⟨fun hzero => absurd hzero hdir, fun _ => ⟨fun pin => ?_, rfl⟩⟩
    rw [hrec.records]
    rfl

end Cases

/-- When `GPIO_CONFIG_AS_IRQ` does as it is asked, whatever has been kept. -/
theorem Kept.asAsked_iff (h : Kept sys) (hfile : f ∈ sys.system.files)
    (hchar : answer (.userChar arg) = some t) :
    AsAsked answer pullupdown sys f arg t ↔ Armable answer sys f t := by
  obtain ⟨g, hrec⟩ := h.standing.records
  have hown := h.standing.own f hfile
  have hirqnum : System.irqnum sys.system f.privateData = some (g f.privateData).irqnum := by
    rw [System.irqnum, hrec.records]
    rfl
  constructor
  · intro hasked
    refine ⟨_, hirqnum, ?_⟩
    by_cases hirq : 0 ≤ (g f.privateData).irqnum
    · exact .inl ⟨hirq, (asAsked_present hrec hown hirq).mp hasked⟩
    · have hneg := Int.not_le.mp hirq
      by_cases hto : 0 ≤ answer (.gpioToIrq f.gpionum)
      · cases hflags : irqFlags t with
        | none => exact absurd hasked (asAsked_untyped hrec hown hneg hto hchar hflags)
        | some irqflags =>
          exact .inr (.inr ⟨hneg, hto, irqflags, rfl,
            (asAsked_typed hrec hown hneg hto hchar hflags).mp hasked⟩)
      · have hno := Int.not_le.mp hto
        exact .inr (.inl ⟨hneg, hno,
          (asAsked_without hrec h.registered hown hneg hno).mp hasked⟩)
  · rintro ⟨irqnum, hpin, hcases⟩
    rw [← Option.some.inj (hirqnum.symm.trans hpin)] at hcases
    rcases hcases with ⟨hirq, harmed⟩ | ⟨hneg, hno, hdir⟩ | ⟨hneg, hto, irqflags, hflags, hreq⟩
    · exact (asAsked_present hrec hown hirq).mpr harmed
    · exact (asAsked_without hrec h.registered hown hneg hno).mpr hdir
    · exact (asAsked_typed hrec hown hneg hto hchar hflags).mpr hreq

end Reachable

/-- In every state that calls and interrupts can lead to, `GPIO_CONFIG_AS_IRQ`
does as it is asked exactly in these cases. -/
theorem arming_iff {answer₀ answer : (o : GpioOp) → GpioResp o} {gpio_major major : ℕ}
    {pullupdown : Bool} {sys : Wired} {f : File} {arg : ℕ} {t : UInt8}
    (hinit : initOutcome answer₀ gpio_major = .ret (0, major))
    (hrun : Relation.ReflTransGen (WiredStep pullupdown) (Wired.loaded answer₀ gpio_major) sys)
    (hfile : f ∈ sys.system.files) (hchar : answer (.userChar arg) = some t) :
    AsAsked answer pullupdown sys f arg t ↔ Armable answer sys f t :=
  (kept_of_runs hinit hrun).asAsked_iff hfile hchar

/-- The first pin has been opened. -/
def firstWired (b : UInt8) : Wired :=
  (Wired.loaded (granting b) 240).step (granting b) false (.open firstPin false true)

theorem firstWired_reached (b : UInt8) :
    Relation.ReflTransGen (WiredStep false) (Wired.loaded (granting b) 240) (firstWired b) :=
  .single ⟨granting b, .inl ⟨.open firstPin false true, trivial, rfl⟩⟩

theorem firstWired_file (b : UInt8) : firstFile ∈ (firstWired b).system.files := by
  have hfiles : (firstWired b).system.files = [firstFile] := (firstOpened_state b).1
  rw [hfiles]
  exact List.mem_singleton_self _

/-- Everything is granted, and high levels are asked for. -/
theorem arming_granted : AsAsked (granting 0) false (firstWired 0) firstFile 0 0 :=
  (arming_iff (granting_loads 0) (firstWired_reached 0) (firstWired_file 0) rfl).mpr
    ⟨-1, (firstOpened_state 0).2, .inr (.inr ⟨by decide, by decide, 4, rfl, .inr rfl⟩)⟩

/-- The type 4 does not exist: the call fails, and leaves an interrupt assigned
that has no handler. -/
theorem arming_untyped :
    initOutcome (granting 4) 240 = .ret (0, 240) ∧
      Relation.ReflTransGen (WiredStep false) (Wired.loaded (granting 4) 240) (firstWired 4) ∧
      firstFile ∈ (firstWired 4).system.files ∧ granting 4 (.userChar 0) = some 4 ∧
      ¬AsAsked (granting 4) false (firstWired 4) firstFile 0 4 := by
  obtain ⟨g, hrec⟩ := (kept_of_runs (granting_loads 4) (firstWired_reached 4)).standing.records
  have hirqnum : System.irqnum (firstWired 4).system firstPin = some (-1) := (firstOpened_state 4).2
  rw [System.irqnum, hrec.records] at hirqnum
  have hnone : (g firstPin).irqnum = -1 := Option.some.inj hirqnum
  have hneg : (g firstPin).irqnum < 0 := by
    rw [hnone]
    decide
  exact ⟨granting_loads 4, firstWired_reached 4, firstWired_file 4, rfl,
    asAsked_untyped hrec rfl hneg (by decide) rfl rfl⟩

end MetaDigi.GpioArming
