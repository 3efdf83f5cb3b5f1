import MetaDigi.GpioKernel
import MetaDigi.SystemIsolation

/-!
# Pins do not see each other

Calls for all pins are in progress at the same time, and interrupts come in
between. Each function keeps to the record, the interrupt and the pin of its
file. So what happens to one pin does not depend on the others: without their
calls the same would happen.
-/

namespace MetaDigi.GpioIsolation

open SystemProgram SystemThreads SystemIsolation GpioDriver GpioKernel Prog

/-- A function of the driver that runs for a pin. -/
inductive PinCall where
  /-- `gpio_irq_handler`. -/
  | irqHandler (pin : Pin)
  /-- `gpio_open`. -/
  | open (gpionum : Pin)
  /-- `gpio_ioctl`. -/
  | ioctl (f : File) (cmd : BitVec 32) (arg : ℕ)
  /-- `gpio_read`. -/
  | read (f : File) (buf count : ℕ)
  /-- `gpio_write`. -/
  | write (f : File) (buf count : ℕ)
  /-- `gpio_poll`. -/
  | poll (f : File)
  /-- `gpio_release_close`. -/
  | release (f : File)

/-- Its operations. -/
def PinCall.program (pullupdown : Bool) : PinCall → Gpio ℤ
  | .irqHandler pin => gpioIrqHandler pin
  | .open gpionum => do return (← gpioOpen gpionum).1
  | .ioctl f cmd arg => gpioIoctl pullupdown f cmd arg
  | .read f buf count => gpioRead f buf count
  | .write f buf count => gpioWrite f buf count
  | .poll f => gpioPoll f
  | .release f => gpioReleaseClose f

/-- It runs for this pin; a file has the record of its pin. -/
def PinCall.OnPin (pin : Pin) : PinCall → Prop
  | .irqHandler p => p = pin
  | .open gpionum => gpionum = pin
  | .ioctl f _ _ => f.gpionum = pin ∧ f.privateData = pin
  | .read f _ _ => f.gpionum = pin ∧ f.privateData = pin
  | .write f _ _ => f.gpionum = pin ∧ f.privateData = pin
  | .poll f => f.gpionum = pin ∧ f.privateData = pin
  | .release f => f.gpionum = pin ∧ f.privateData = pin

/-- An operation that a function for this pin may issue. -/
def Own (pin : Pin) : GpioOp → Prop
  | .devId p => p = pin
  | .irqnum p => p = pin
  | .setIrqnum p _ => p = pin
  | .triggered p => p = pin
  | .setTriggered p _ => p = pin
  | .gpioDirectionInput p => p = pin
  | .gpioDirectionOutput p _ => p = pin
  | .gpioGetValue p => p = pin
  | .gpioSetValue p _ => p = pin
  | .gpioSetPullupdown p _ => p = pin
  | .gpioToIrq p => p = pin
  | .requestIrq _ _ p => p = pin
  | .freeIrq _ p => p = pin
  | .gpioRequest p => p = pin
  | .gpioFree p => p = pin
  | .initWaitqueueHead p => p = pin
  | .wakeUp p => p = pin
  | .pollWait p => p = pin
  | .waitEvent p => p = pin
  | .signalPending => True
  | .copyToUser _ _ => True
  | .copyFromUser _ => True
  | .userChar _ => True
  | _ => False

/-- What the kernel hands out for a pin. -/
def Belongs (pin : Pin) (r : Resource) : Prop := r = .pin pin ∨ ∃ irq, r = .irq irq pin

instance (pin : Pin) (r : Resource) : Decidable (Belongs pin r) :=
  match r with
  | .pin p => decidable_of_iff (p = pin) (by simp [Belongs])
  | .irq irq p => decidable_of_iff (p = pin) (by simp [Belongs])
  | .region _ | .device | .pinArray | .cdev => .isFalse (by simp [Belongs])

/-- A pin finds the same in two kernels: its record, its interrupts, the pin
itself, and what was released for it without being held. -/
structure Same (pin : Pin) (k k' : Kernel) : Prop where
  /-- The record. -/
  record : k.gpio.map (· pin) = k'.gpio.map (· pin)
  /-- What is handed out. -/
  held : ∀ r, Belongs pin r → k.held r = k'.held r
  /-- What was released in vain. -/
  stray : k.stray.filter (Belongs pin ·) = k'.stray.filter (Belongs pin ·)

section Kernel

variable {pin p : Pin} {k k' : Kernel} {r : Resource} {f : GpioConf → GpioConf}

/-- A kernel agrees with itself. -/
theorem Same.refl : Same pin k k := ⟨rfl, fun _ _ => rfl, rfl⟩

/-- The record of the pin is changed in both. -/
theorem Same.modify (h : Same pin k k') (f : GpioConf → GpioConf) :
    (k.modify pin f).1 = (k'.modify pin f).1 ∧ Same pin (k.modify pin f).2 (k'.modify pin f).2 := by
  have hrecord := h.record
  cases hk : k.gpio with
  | none =>
    cases hk' : k'.gpio with
    | none =>
      unfold Kernel.modify
      rw [hk, hk']
      exact ⟨rfl, h⟩
    | some g' =>
      rw [hk, hk'] at hrecord
      cases hrecord
  | some g =>
    cases hk' : k'.gpio with
    | none =>
      rw [hk, hk'] at hrecord
      cases hrecord
    | some g' =>
      rw [hk, hk', Option.map_some, Option.map_some] at hrecord
      rw [modify_eq pin hk, modify_eq pin hk', Option.some.inj hrecord]
      refine ⟨rfl, ?_, h.held, h.stray⟩
      simp only [Option.map_some, Function.update_self]

/-- The record of another pin is changed. -/
theorem Same.modify_other (h : Same pin k k') (hp : p ≠ pin) (f : GpioConf → GpioConf) :
    Same pin (k.modify p f).2 k' := by
  unfold Kernel.modify
  cases hk : k.gpio with
  | none => exact h
  | some g =>
    refine ⟨?_, h.held, h.stray⟩
    rw [← h.record, hk, Option.map_some, Option.map_some, Function.update_of_ne hp.symm]

/-- Both kernels hand out the same. -/
theorem Same.acquire (h : Same pin k k') (r : Resource) : Same pin (k.acquire r) (k'.acquire r) := by
  refine ⟨h.record, fun r' hr' => ?_, h.stray⟩
  unfold Kernel.acquire
  by_cases hsame : r' = r
  · subst hsame
    simp only [Function.update_self, h.held r' hr']
  · simp only [Function.update_of_ne hsame, h.held r' hr']

/-- What is handed out for another pin does not matter. -/
theorem Same.acquire_other (h : Same pin k k') (hr : ¬Belongs pin r) :
    Same pin (k.acquire r) k' := by
  refine ⟨h.record, fun r' hr' => ?_, h.stray⟩
  have hother : r' ≠ r := fun hsame => hr (hsame ▸ hr')
  unfold Kernel.acquire
  simp only [Function.update_of_ne hother, h.held r' hr']

/-- Both kernels take the same back. -/
theorem Same.release (h : Same pin k k') (hr : Belongs pin r) :
    Same pin (k.release r) (k'.release r) := by
  unfold Kernel.release
  rw [h.held r hr]
  split
  · refine ⟨h.record, fun r' hr' => ?_, h.stray⟩
    by_cases hsame : r' = r
    · subst hsame
      simp only [Function.update_self]
    · simp only [Function.update_of_ne hsame, h.held r' hr']
  · refine ⟨h.record, h.held, ?_⟩
    simp only [List.filter_append, h.stray]

/-- What is taken back for another pin does not matter. -/
theorem Same.release_other (h : Same pin k k') (hr : ¬Belongs pin r) :
    Same pin (k.release r) k' := by
  unfold Kernel.release
  split
  · refine ⟨h.record, fun r' hr' => ?_, h.stray⟩
    have hother : r' ≠ r := fun hsame => hr (hsame ▸ hr')
    simp only [Function.update_of_ne hother, h.held r' hr']
  · refine ⟨h.record, h.held, ?_⟩
    rw [List.filter_append, h.stray, List.filter_cons, if_neg fun hmem => hr (of_decide_eq_true hmem),
      List.filter_nil, List.append_nil]

/-- A pin belongs to itself only. -/
theorem belongs_pin : Belongs pin (.pin p) ↔ p = pin := by simp [Belongs]

/-- An interrupt belongs to the pin it was requested for. -/
theorem belongs_irq (irq : ℤ) : Belongs pin (.irq irq p) ↔ p = pin := by simp [Belongs]

/-- The kernel serves a pin by what it keeps for this pin. -/
theorem serve_isolates (answer : (o : GpioOp) → GpioResp o) : Isolates Own Same (serve answer) where
  own := by
    intro pin o k k' ho h
    cases o with
    | devId p | irqnum p | triggered p =>
      have hp : p = pin := ho
      subst hp
      have hrecord := h.record
      dsimp only [serve]
      refine ⟨?_, h⟩
      cases hk : k.gpio <;> cases hk' : k'.gpio <;> rw [hk, hk'] at hrecord <;> simp_all
    | setIrqnum p v | setTriggered p v =>
      have hp : p = pin := ho
      subst hp
      exact h.modify _
    | requestIrq irq irqflags p =>
      dsimp only [serve]
      refine ⟨rfl, ?_⟩
      split
      · exact h.acquire _
      · exact h
    | freeIrq irq p => exact ⟨rfl, h.release ((belongs_irq irq).mpr ho)⟩
    | gpioRequest p =>
      have hp : p = pin := ho
      subst hp
      dsimp only [serve]
      rw [h.held _ (belongs_pin.mpr rfl)]
      split
      · exact ⟨rfl, h⟩
      · refine ⟨rfl, ?_⟩
        dsimp only
        split
        · exact h
        · exact h.acquire _
    | gpioFree p => exact ⟨rfl, h.release (belongs_pin.mpr ho)⟩
    | gpioDirectionInput p | gpioDirectionOutput p v | gpioGetValue p | gpioSetValue p v
    | gpioSetPullupdown p v | gpioToIrq p | initWaitqueueHead p | wakeUp p | pollWait p
    | waitEvent p | signalPending | copyToUser a v | copyFromUser a | userChar a => exact ⟨rfl, h⟩
    | _ => exact ho.elim
  foreign := by
    intro pin p o k k' ho hne h
    cases o with
    | setIrqnum q v | setTriggered q v =>
      have hq : q = p := ho
      exact h.modify_other (hq ▸ hne) _
    | requestIrq irq irqflags q =>
      have hq : q = p := ho
      dsimp only [serve]
      split
      · exact h.acquire_other fun hmem => hne (hq ▸ (belongs_irq irq).mp hmem)
      · exact h
    | freeIrq irq q =>
      have hq : q = p := ho
      exact h.release_other fun hmem => hne (hq ▸ (belongs_irq irq).mp hmem)
    | gpioRequest q =>
      have hq : q = p := ho
      dsimp only [serve]
      split
      · exact h
      · dsimp only
        split
        · exact h
        · exact h.acquire_other fun hmem => hne (hq ▸ belongs_pin.mp hmem)
    | gpioFree q =>
      have hq : q = p := ho
      exact h.release_other fun hmem => hne (hq ▸ belongs_pin.mp hmem)
    | devId q | irqnum q | triggered q | gpioDirectionInput q | gpioDirectionOutput q v
    | gpioGetValue q | gpioSetValue q v | gpioSetPullupdown q v | gpioToIrq q
    | initWaitqueueHead q | wakeUp q | pollWait q | waitEvent q | signalPending | copyToUser a v
    | copyFromUser a | userChar a => exact h
    | _ => exact ho.elim

end Kernel

section Programs

variable {α β : Type} {pin : Pin}

/-- A program that keeps to a pin. -/
def KeepsTo (pin : Pin) (p : Gpio α) : Prop := p.Sat (Own pin) (fun _ => True) (fun _ => True)

/-- A call of the kernel about the pin. -/
theorem keepsTo_call (o : GpioOp) (ho : Own pin o) : KeepsTo pin (kernelCall o) :=
  sat_perform ho fun _ => trivial

/-- No operation at all. -/
theorem keepsTo_return (a : α) : KeepsTo pin (pure a : Gpio α) := trivial

/-- One part after the other. -/
theorem KeepsTo.andThen {p : Gpio α} {f : α → Gpio β} (hp : KeepsTo pin p)
    (hf : ∀ a, KeepsTo pin (f a)) : KeepsTo pin (p >>= f) :=
  Prog.Sat.andThen hp fun a _ => hf a

/-- A record that is not there. -/
theorem keepsTo_orNoRecord (p : Pin) (r : Option α) : KeepsTo pin (orNoRecord p r) := by
  cases r <;> trivial

/-- Reading `dev_id` of the record. -/
theorem keepsTo_loadDevId : KeepsTo pin (loadDevId pin) :=
  (keepsTo_call (.devId pin) rfl).andThen fun r => keepsTo_orNoRecord pin r

/-- Reading `irqnum`. -/
theorem keepsTo_loadIrqnum : KeepsTo pin (loadIrqnum pin) :=
  (keepsTo_call (.irqnum pin) rfl).andThen fun r => keepsTo_orNoRecord pin r

/-- Writing `irqnum`. -/
theorem keepsTo_storeIrqnum (v : ℤ) : KeepsTo pin (storeIrqnum pin v) :=
  (keepsTo_call (.setIrqnum pin v) rfl).andThen fun r => keepsTo_orNoRecord pin r

/-- Writing `triggered`. -/
theorem keepsTo_storeTriggered (v : Bool) : KeepsTo pin (storeTriggered pin v) :=
  (keepsTo_call (.setTriggered pin v) rfl).andThen fun r => keepsTo_orNoRecord pin r

/-- Reading a character of the caller. -/
theorem keepsTo_loadUserChar (arg : ℕ) : KeepsTo pin (loadUserChar arg) :=
  (keepsTo_call (.userChar arg) trivial).andThen fun r => by cases r <;> trivial

/-- Giving the interrupt of the pin back. -/
theorem keepsTo_dropIrq : KeepsTo pin (dropIrq pin) := by
  refine keepsTo_loadIrqnum.andThen fun v => ?_
  split
  · exact keepsTo_loadIrqnum.andThen fun irq => (keepsTo_call (.freeIrq irq pin) rfl).andThen
      fun _ => keepsTo_storeIrqnum (-1)
  · exact keepsTo_return ()

/-- Reading the pin for the caller. -/
theorem keepsTo_readValue {f : File} (hf : f.gpionum = pin) (buf : ℕ) :
    KeepsTo pin (readValue f buf) := by
  refine (keepsTo_call (.gpioGetValue f.gpionum) hf).andThen fun v =>
    (keepsTo_call (.copyToUser buf v) trivial).andThen fun (copied : Bool) => ?_
  split <;> exact keepsTo_return _

/-- Making the pin an interrupt. -/
theorem keepsTo_configAsIrq {f : File} (hf : f.gpionum = pin ∧ f.privateData = pin) (arg : ℕ) :
    KeepsTo pin (configAsIrq f arg) := by
  obtain ⟨hnum, hdata⟩ := hf
  unfold configAsIrq
  rw [hnum, hdata]
  refine keepsTo_loadIrqnum.andThen fun v => ?_
  split
  · exact keepsTo_return 0
  · refine (keepsTo_call (.gpioDirectionInput pin) rfl).andThen fun (retval : ℤ) =>
      (keepsTo_call (.gpioToIrq pin) rfl).andThen fun (irqnum : ℤ) => ?_
    split
    · refine (keepsTo_storeIrqnum irqnum).andThen fun _ =>
        (keepsTo_call (.initWaitqueueHead pin) rfl).andThen fun _ =>
          (keepsTo_storeTriggered false).andThen fun _ =>
            (keepsTo_loadUserChar arg).andThen fun b => ?_
      split
      · exact keepsTo_return _
      · refine keepsTo_loadIrqnum.andThen fun irq =>
          (keepsTo_call (.requestIrq irq _ pin) rfl).andThen fun (retval : ℤ) => ?_
        split
        · exact (keepsTo_storeIrqnum (-1)).andThen fun _ => keepsTo_return retval
        · exact keepsTo_return retval
    · exact keepsTo_return retval

/-- `GPIO_READ_PIN_VAL`. -/
theorem keepsTo_readPinVal {f : File} (hf : f.gpionum = pin ∧ f.privateData = pin) (arg : ℕ) :
    KeepsTo pin (readPinVal f arg) := by
  obtain ⟨hnum, hdata⟩ := hf
  unfold readPinVal
  rw [hnum, hdata]
  refine (keepsTo_call (.gpioGetValue pin) rfl).andThen fun v =>
    (keepsTo_storeTriggered false).andThen fun _ =>
      (keepsTo_call (.copyToUser arg v) trivial).andThen fun (copied : Bool) => ?_
  split <;> exact keepsTo_return _

/-- The commands of `gpio_ioctl`. -/
theorem keepsTo_ioctlSwitch (pullupdown : Bool) {f : File}
    (hf : f.gpionum = pin ∧ f.privateData = pin) (cmd : BitVec 32) (arg : ℕ) :
    KeepsTo pin (ioctlSwitch pullupdown f cmd arg) := by
  have hirq := keepsTo_configAsIrq hf arg
  have hread := keepsTo_readPinVal hf arg
  obtain ⟨hnum, hdata⟩ := hf
  unfold ioctlSwitch
  rw [hnum, hdata]
  split
  · exact keepsTo_dropIrq.andThen fun _ => keepsTo_call (.gpioDirectionInput pin) rfl
  split
  · exact keepsTo_dropIrq.andThen fun _ => (keepsTo_call (.gpioGetValue pin) rfl).andThen
      fun v => keepsTo_call (.gpioDirectionOutput pin v) rfl
  split
  · exact hread
  split
  · exact (keepsTo_loadUserChar arg).andThen fun b =>
      (keepsTo_call (.gpioSetValue pin b) rfl).andThen fun _ => keepsTo_return 0
  split
  · exact hirq
  split
  · exact (keepsTo_call (.gpioSetPullupdown pin arg) rfl).andThen fun _ => keepsTo_return 0
  · exact keepsTo_return _

/-- Every function keeps to the pin it runs for. -/
theorem keepsTo_program (pullupdown : Bool) {call : PinCall} (hcall : call.OnPin pin) :
    KeepsTo pin (call.program pullupdown) := by
  cases call with
  | irqHandler p =>
    have hp : p = pin := hcall
    subst hp
    exact (keepsTo_storeTriggered true).andThen fun _ => (keepsTo_call (.wakeUp p) rfl).andThen
      fun _ => keepsTo_return 1
  | «open» p =>
    have hp : p = pin := hcall
    subst hp
    refine KeepsTo.andThen (keepsTo_loadDevId.andThen fun v => ?_) fun r => keepsTo_return _
    split
    · exact keepsTo_return _
    · refine (keepsTo_call (.gpioRequest p) rfl).andThen fun (r : ℤ) => ?_
      split <;> exact keepsTo_return _
  | ioctl f cmd arg =>
    change KeepsTo pin (gpioIoctl pullupdown f cmd arg)
    have hswitch := keepsTo_ioctlSwitch pullupdown hcall cmd arg
    unfold gpioIoctl
    rw [hcall.1, hcall.2]
    split
    · exact keepsTo_return _
    split
    · exact keepsTo_return _
    refine keepsTo_loadDevId.andThen fun v => ?_
    split
    · exact keepsTo_return _
    · exact hswitch
  | read f buf count =>
    change KeepsTo pin (gpioRead f buf count)
    have hvalue := keepsTo_readValue hcall.1 buf
    unfold gpioRead awaitEvent
    rw [hcall.2]
    refine keepsTo_loadDevId.andThen fun v => ?_
    split
    · exact keepsTo_return _
    refine keepsTo_loadIrqnum.andThen fun irq => ?_
    split
    · refine KeepsTo.andThen ?_ fun (signal : Bool) => ?_
      · split
        · exact keepsTo_return _
        · exact (keepsTo_call (.waitEvent pin) rfl).andThen fun _ =>
            keepsTo_call .signalPending trivial
      · split
        · exact keepsTo_return _
        · exact (keepsTo_storeTriggered false).andThen fun _ => hvalue
    · exact hvalue
  | write f buf count =>
    change KeepsTo pin (gpioWrite f buf count)
    unfold gpioWrite
    rw [hcall.1, hcall.2]
    refine keepsTo_loadDevId.andThen fun v => ?_
    split
    · exact keepsTo_return _
    refine (keepsTo_call (.copyFromUser buf) trivial).andThen fun r => ?_
    split
    · exact keepsTo_return _
    · exact (keepsTo_call (.gpioSetValue pin _) rfl).andThen fun _ => keepsTo_return 1
  | poll f =>
    change KeepsTo pin (gpioPoll f)
    unfold gpioPoll
    rw [hcall.2]
    refine (keepsTo_call (.pollWait pin) rfl).andThen fun _ =>
      (keepsTo_call (.triggered pin) rfl).andThen fun r =>
        (keepsTo_orNoRecord pin r).andThen fun (triggered : Bool) => ?_
    split <;> exact keepsTo_return _
  | release f =>
    change KeepsTo pin (gpioReleaseClose f)
    unfold gpioReleaseClose
    rw [hcall.1, hcall.2]
    refine keepsTo_loadDevId.andThen fun v => ?_
    split
    · exact keepsTo_return _
    · exact keepsTo_dropIrq.andThen fun _ => (keepsTo_call (.gpioFree pin) rfl).andThen
        fun _ => keepsTo_return 0

end Programs

section Runs

/-- What happens to the calls of the driver. -/
inductive PinHappening where
  /-- A function is called. -/
  | start (c : ℕ) (call : PinCall)
  /-- A call goes on, with what the kernel answers. -/
  | turn (c : ℕ) (answer : (o : GpioOp) → GpioResp o)

/-- The call it happens to. -/
def PinHappening.caller : PinHappening → ℕ
  | .start c _ => c
  | .turn c _ => c

/-- The same for the programs of the functions. -/
def PinHappening.happening (pullupdown : Bool) :
    PinHappening → Happening GpioOp GpioResp Fault ℤ Kernel PinCall
  | .start c tag => .start c tag (tag.program pullupdown)
  | .turn c answer => .turn c (serve answer)

/-- Waiting ends when the flag is set or a signal is pending. -/
def Ready (h : Handler GpioOp GpioResp Kernel) : GpioOp → Kernel → Prop
  | .waitEvent pin, k => k.gpio.map (fun g => (g pin).triggered) = some true ∨
      (h .signalPending k).1 = true
  | _, _ => True

/-- The kernel without any call of the driver. -/
def idle (k : Kernel) : Pool GpioOp GpioResp Fault ℤ Kernel PinCall := ⟨k, fun _ => none⟩

/-- The calls and the kernel after all this. -/
def afterAll (pullupdown : Bool) (k : Kernel) (es : List PinHappening) :
    Pool GpioOp GpioResp Fault ℤ Kernel PinCall :=
  (es.map (PinHappening.happening pullupdown)).foldl happen (idle k)

/-- All this can happen. -/
def CanHappen (pullupdown : Bool) (k : Kernel) (es : List PinHappening) : Prop :=
  Happens Ready (idle k) (es.map (PinHappening.happening pullupdown))

/-- A call that can go on in one kernel can go on in the other. -/
theorem ready_same {pin : Pin} {h : Handler GpioOp GpioResp Kernel} {o : GpioOp} {k k' : Kernel}
    (hh : Isolates Own Same h) (ho : Own pin o) (hk : Same pin k k') (hready : Ready h o k) :
    Ready h o k' := by
  cases o with
  | waitEvent p =>
    have hp : p = pin := ho
    subst hp
    have hrecord := congrArg (Option.map GpioConf.triggered) hk.record
    rw [Option.map_map, Option.map_map] at hrecord
    have hsignal := (hh.own p .signalPending k k' trivial hk).1
    dsimp only [Ready] at hready ⊢
    rw [← hsignal]
    exact hready.imp_left fun hset => hrecord.symm.trans hset
  | _ => trivial

/-- Whatever happens to the calls for all pins, in any order: a pin and the
calls for it are as if there had been no others, and without the others the
same could have happened. -/
theorem pins_isolated (pullupdown : Bool) (owner : ℕ → Pin) (pin : Pin) {k k' : Kernel}
    (hsame : Same pin k k') {es : List PinHappening}
    (hes : ∀ c call, .start c call ∈ es → call.OnPin (owner c)) (hrun : CanHappen pullupdown k es) :
    CanHappen pullupdown k' (es.filter fun e => owner e.caller = pin) ∧
      Alike Same owner pin (afterAll pullupdown k es)
        (afterAll pullupdown k' (es.filter fun e => owner e.caller = pin)) := by
  have hproper : ∀ e ∈ es.map (PinHappening.happening pullupdown), Proper Own Same owner e := by
    intro e he
    obtain ⟨e, hmem, rfl⟩ := List.mem_map.mp he
    cases e with
    | start c call => exact keepsTo_program pullupdown (hes c call hmem)
    | turn c answer => exact serve_isolates answer
  have hfilter : (es.map (PinHappening.happening pullupdown)).filter
      (fun e => owner e.caller = pin) =
      (es.filter fun e => owner e.caller = pin).map (PinHappening.happening pullupdown) := by
    rw [List.filter_map]
    congr 1
    refine List.filter_congr fun e _ => ?_
    cases e <;> rfl
  have hstart : Alike Same owner pin (idle k) (idle k') := ⟨hsame, fun _ _ => rfl⟩
  have howned : Owned Own owner (idle k) := fun c tag p hc => by cases hc
  have hall := isolated hstart howned hproper
    (fun handler o s t hh ho hs hready => ready_same hh ho hs hready) hrun
  rw [hfilter] at hall
  exact hall

/-- The calls of the example: the first is for one pin, the others for another. -/
def exampleOwner (c : ℕ) : Pin := if c = 0 then firstPin else ⟨1, by decide⟩

/-- Records for all pins. -/
def recordsKernel : Kernel := { device := true, gpio := some fun pin => { dev_id := pin.val } }

/-- An interrupt of one pin comes while another pin is polled. -/
def exampleRun : List PinHappening :=
  [.start 0 (.poll firstFile), .turn 0 (granting 0), .start 1 (.irqHandler ⟨1, by decide⟩),
    .turn 1 (granting 0), .turn 0 (granting 0), .turn 1 (granting 0)]

/-- Polling is the same without the interrupt of the other pin. -/
theorem pins_isolated_example :
    Alike Same exampleOwner firstPin (afterAll false recordsKernel exampleRun)
      (afterAll false recordsKernel
        [.start 0 (.poll firstFile), .turn 0 (granting 0), .turn 0 (granting 0)]) := by
  have hes : ∀ c call, .start c call ∈ exampleRun → call.OnPin (exampleOwner c) := by
    intro c call hmem
    simp only [exampleRun, List.mem_cons, PinHappening.start.injEq, reduceCtorEq, false_or,
      List.not_mem_nil, or_false] at hmem
    rcases hmem with ⟨rfl, rfl⟩ | ⟨rfl, rfl⟩
    · exact ⟨rfl, rfl⟩
    · rfl
  have hrun : CanHappen false recordsKernel exampleRun := by
    refine ⟨rfl, ?_, rfl, ?_, ?_, ?_, trivial⟩
    all_goals
      intro o ho
      rw [← Option.some.inj ho]
      trivial
  exact (pins_isolated false exampleOwner firstPin Same.refl hes hrun).2

end Runs

end MetaDigi.GpioIsolation
