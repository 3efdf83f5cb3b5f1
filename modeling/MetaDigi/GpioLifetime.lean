import MetaDigi.GpioInterrupts

/-!
# Loading and unloading the GPIO driver

Every failure of `gpio_init` is cleaned up by `gpio_exit`, and so is the driver
when it is unloaded. The cleanup is right as long as there is no device yet:
with a device it relies on records that may be missing or not yet filled in,
and it never gives the memory of the records back.
-/

namespace MetaDigi.GpioLifetime

open SystemProgram SystemRuns GpioDriver GpioKernel GpioInterrupts Prog

/-- The system is as it was before `gpio_init`: the function has returned,
nothing is held, and nothing has been released that was not held. -/
structure AsBefore (answer : (o : GpioOp) → GpioResp o) (gpio_major : ℕ) : Prop where
  /-- No memory has been used that is not there. -/
  returned : ∃ ret, initOutcome answer gpio_major = .ret ret
  /-- Nothing is held. -/
  held : ∀ r, (System.loaded answer gpio_major).kernel.held r = 0
  /-- There was no other release. -/
  stray : (System.loaded answer gpio_major).kernel.stray = []

/-- Unloading has given back everything the driver had acquired for itself, and
nothing else. -/
structure GivenBack (answer : (o : GpioOp) → GpioResp o) (gpio_major : ℕ) (sys : System) :
    Prop where
  /-- No memory has been used that is not there. -/
  returned : (exec (serve answer) everyCall (gpioExit gpio_major) sys.kernel).outcome = .ret ()
  /-- Nothing but pins is held. -/
  held : ∀ r, (∀ pin, r ≠ .pin pin) → (sys.run answer (gpioExit gpio_major)).kernel.held r = 0
  /-- There was no other release. -/
  stray : (sys.run answer (gpioExit gpio_major)).kernel.stray = sys.kernel.stray

section Failures

variable {answer : (o : GpioOp) → GpioResp o} {gpio_major : ℕ}

/-- The region of device numbers is refused. -/
theorem gpioInit_refused (hret : (regionAnswer answer gpio_major).1 < 0) :
    Ends (serve answer) (gpioInit gpio_major) {} (.ret (regionAnswer answer gpio_major)) {} := by
  have hregion : regionKernel answer gpio_major {} = {} := if_pos hret
  unfold gpioInit
  refine Ends.andThen (takeRegion_ends gpio_major) ?_
  dsimp only
  rw [if_pos hret, hregion]
  exact ends_pure _ _

/-- Without a device, the cleanup gives the region back. -/
theorem gpioExit_withoutDevice {k : Kernel} (hdevice : k.device = false) (major : ℕ) :
    Ends (serve answer) (gpioExit major) k (.ret ()) (k.release (.region major)) := by
  unfold gpioExit
  refine Ends.andThen (ends_perform _ _) ?_
  dsimp only [serve]
  rw [hdevice, if_neg Bool.false_ne_true]
  exact ends_perform _ _

/-- The memory of the device cannot be allocated. -/
theorem gpioInit_withoutDevice (hret : ¬(regionAnswer answer gpio_major).1 < 0)
    (hdevice : answer .kzallocDevice = false) :
    Ends (serve answer) (gpioInit gpio_major) {}
      (.ret (-eNOMEM, (regionAnswer answer gpio_major).2))
      ((Kernel.acquire {} (.region (regionAnswer answer gpio_major).2)).release
        (.region (regionAnswer answer gpio_major).2)) := by
  have hregion : regionKernel answer gpio_major {} =
      Kernel.acquire {} (.region (regionAnswer answer gpio_major).2) := if_neg hret
  unfold gpioInit
  refine Ends.andThen (takeRegion_ends gpio_major) ?_
  dsimp only
  rw [if_neg hret, hregion]
  refine Ends.andThen (ends_perform _ _) ?_
  dsimp only [serve]
  rw [hdevice, Bool.not_false, if_pos rfl, if_neg Bool.false_ne_true]
  exact (gpioExit_withoutDevice rfl _).andThen (ends_pure _ _)

/-- A resource that has been given back leaves no trace. -/
theorem release_acquired (r : Resource) : Kernel.release (Kernel.acquire {} r) r = {} := by
  rw [release_held (by rw [acquire_self]; exact Nat.succ_pos _)]
  simp only [Kernel.acquire, Function.update_self, Function.update_idem, Nat.add_sub_cancel,
    Function.update_eq_self]

/-- With a device, the cleanup begins with the record of the first pin. -/
theorem gpioExit_begins {α : Type} {k : Kernel} {f : Unit → Gpio α}
    {Q : Outcome Fault α → Kernel → Prop} (hdevice : k.device = true) (major : ℕ)
    (hfirst : ∀ rest : Unit → Gpio α, Leaves (serve answer) (exitPin firstPin >>= rest) k Q) :
    Leaves (serve answer) (gpioExit major >>= f) k Q := by
  have hpins : List.finRange gpioNrDevs = firstPin :: (List.finRange 255).map Fin.succ :=
    List.finRange_succ
  have hstart : Prog.mapList exitPin (List.finRange gpioNrDevs) = exitPin firstPin >>= fun a =>
      Prog.mapList exitPin ((List.finRange 255).map Fin.succ) >>= fun as =>
        (return (a :: as) : Gpio (List Unit)) := by
    rw [hpins]
    rfl
  unfold gpioExit
  rw [andThen_assoc]
  refine leaves_call ?_
  dsimp only [serve]
  rw [hdevice, if_pos rfl, andThen_assoc, hstart, andThen_assoc]
  exact hfirst _

/-- Without records this is an access to memory that is not there. -/
theorem gpioExit_withoutPins {α : Type} {k : Kernel} {f : Unit → Gpio α}
    (hdevice : k.device = true) (hgpio : k.gpio = none) (major : ℕ) :
    Leaves (serve answer) (gpioExit major >>= f) k fun out _ => out = .exit (.noRecord firstPin) := by
  refine gpioExit_begins hdevice major fun rest => ?_
  have hload : Ends (serve answer) (loadIrqnum firstPin) k (.exit (.noRecord firstPin)) k := by
    refine Ends.andThen (ends_perform _ _) ?_
    dsimp only [serve]
    rw [hgpio]
    exact ends_exit _ _
  exact (hload.andThen_exit.andThen_exit (f := rest)).1

/-- Changing a record releases nothing. -/
theorem modify_stray (k : Kernel) (pin : Pin) (f : GpioConf → GpioConf) :
    (k.modify pin f).2.stray = k.stray := by
  unfold Kernel.modify
  split <;> rfl

/-- A release of something that is not held is never forgotten. -/
theorem release_stray {k : Kernel} (r : Resource) (hstray : k.stray ≠ []) :
    (k.release r).stray ≠ [] := by
  unfold Kernel.release
  split
  · exact hstray
  · exact List.append_ne_nil_of_left_ne_nil hstray _

theorem serve_stray {k : Kernel} (o : GpioOp) (hstray : k.stray ≠ []) :
    (serve answer o k).2.stray ≠ [] := by
  cases o with
  | setDevId pin v => exact modify_stray k pin _ ▸ hstray
  | setIrqnum pin v => exact modify_stray k pin _ ▸ hstray
  | setTriggered pin v => exact modify_stray k pin _ ▸ hstray
  | freeIrq irq pin => exact release_stray _ hstray
  | gpioFree pin => exact release_stray _ hstray
  | unregisterChrdevRegion major => exact release_stray _ hstray
  | kfreeDevice => exact release_stray _ hstray
  | cdevDel => exact release_stray _ hstray
  | _ => dsimp only [serve]; (repeat' split) <;> exact hstray

theorem stray_stays {α : Type} {k : Kernel} (p : Gpio α) (hstray : k.stray ≠ []) :
    Leaves (serve answer) p k fun _ k' => k'.stray ≠ [] :=
  leaves_keeps (I := fun k' : Kernel => k'.stray ≠ []) (sat_any p) (fun o _ _ h => serve_stray o h) hstray

/-- With records that are not yet filled in, the handler of an interrupt is
given back that was never registered. -/
theorem gpioExit_unfilled {α : Type} {k : Kernel} {f : Unit → Gpio α} {g : Pin → GpioConf}
    (hdevice : k.device = true) (hgpio : k.gpio = some g) (hirq : (g firstPin).irqnum ≠ -1)
    (hheld : k.held (.irq (g firstPin).irqnum firstPin) = 0) (major : ℕ) :
    Leaves (serve answer) (gpioExit major >>= f) k fun _ k' => k'.stray ≠ [] := by
  refine gpioExit_begins hdevice major fun rest => ?_
  have hload := @loadIrqnum_ends answer k g firstPin hgpio
  unfold exitPin
  rw [andThen_assoc]
  refine hload.leaves ?_
  rw [if_pos hirq, andThen_assoc]
  refine hload.leaves ?_
  rw [andThen_assoc]
  refine leaves_call (stray_stays _ ?_)
  dsimp only [serve]
  rw [Kernel.release, if_neg (by omega)]
  exact List.append_ne_nil_of_right_ne_nil _ (List.cons_ne_nil _ _)

/-- The memory of the records cannot be allocated. -/
theorem gpioInit_withoutPins (hret : ¬(regionAnswer answer gpio_major).1 < 0)
    (hdevice : answer .kzallocDevice = true) (hpins : answer .kzallocPins = false) :
    initOutcome answer gpio_major = .exit (.noRecord firstPin) := by
  have hregion : regionKernel answer gpio_major {} =
      Kernel.acquire {} (.region (regionAnswer answer gpio_major).2) := if_neg hret
  have hleaves : Leaves (serve answer) (gpioInit gpio_major) {} fun out _ =>
      out = .exit (.noRecord firstPin) := by
    unfold gpioInit
    refine (takeRegion_ends gpio_major).leaves ?_
    dsimp only
    rw [if_neg hret, hregion]
    refine leaves_call ?_
    dsimp only [serve]
    rw [hdevice, Bool.not_true, if_neg Bool.false_ne_true, if_pos rfl]
    refine leaves_call ?_
    dsimp only [serve]
    rw [hpins, Bool.not_false, if_pos rfl, if_neg Bool.false_ne_true]
    exact gpioExit_withoutPins rfl rfl _
  exact hleaves

/-- The character device cannot be added. -/
theorem gpioInit_withoutCdev (hret : ¬(regionAnswer answer gpio_major).1 < 0)
    (hdevice : answer .kzallocDevice = true) (hpins : answer .kzallocPins = true)
    (hcdev : answer .cdevAdd ≠ 0) : (System.loaded answer gpio_major).kernel.stray ≠ [] := by
  have hregion : regionKernel answer gpio_major {} =
      Kernel.acquire {} (.region (regionAnswer answer gpio_major).2) := if_neg hret
  have hleaves : Leaves (serve answer) (gpioInit gpio_major) {} fun _ k' => k'.stray ≠ [] := by
    unfold gpioInit
    refine (takeRegion_ends gpio_major).leaves ?_
    dsimp only
    rw [if_neg hret, hregion]
    refine leaves_call ?_
    dsimp only [serve]
    rw [hdevice, Bool.not_true, if_neg Bool.false_ne_true, if_pos rfl]
    refine leaves_call ?_
    dsimp only [serve]
    rw [hpins, Bool.not_true, if_neg Bool.false_ne_true, if_pos rfl]
    refine leaves_call ?_
    dsimp only [serve]
    rw [if_pos hcdev, if_neg hcdev]
    exact gpioExit_unfilled rfl rfl (by decide) rfl _
  exact hleaves

/-- Which failures of `gpio_init` are cleaned up. -/
theorem asBefore_iff (hfail : ∀ major, initOutcome answer gpio_major ≠ .ret (0, major)) :
    AsBefore answer gpio_major ↔
      (regionAnswer answer gpio_major).1 < 0 ∨ answer .kzallocDevice = false := by
  by_cases hret : (regionAnswer answer gpio_major).1 < 0
  · obtain ⟨hout, hkernel⟩ := gpioInit_refused hret
    have hloaded : (System.loaded answer gpio_major).kernel = {} := hkernel
    refine ⟨fun _ => .inl hret, fun _ => ⟨⟨_, hout⟩, fun r => ?_, ?_⟩⟩
    · rw [hloaded]
    · rw [hloaded]
  · cases hdevice : answer .kzallocDevice with
    | false =>
      obtain ⟨hout, hkernel⟩ := gpioInit_withoutDevice hret hdevice
      rw [release_acquired] at hkernel
      have hloaded : (System.loaded answer gpio_major).kernel = {} := hkernel
      refine ⟨fun _ => .inr rfl, fun _ => ⟨⟨_, hout⟩, fun r => ?_, ?_⟩⟩
      · rw [hloaded]
      · rw [hloaded]
    | true =>
      have hnever : ¬((regionAnswer answer gpio_major).1 < 0 ∨ true = false) :=
        fun h => h.elim hret nofun
      refine ⟨fun hbefore => ?_, fun h => absurd h hnever⟩
      cases hpins : answer .kzallocPins with
      | false =>
        obtain ⟨ret, hreturned⟩ := hbefore.returned
        rw [gpioInit_withoutPins hret hdevice hpins] at hreturned
        exact absurd hreturned nofun
      | true =>
        by_cases hcdev : answer .cdevAdd = 0
        · exact absurd (initOutcome_granted hret hdevice hpins hcdev) (hfail _)
        · exact absurd hbefore.stray (gpioInit_withoutCdev hret hdevice hpins hcdev)

end Failures

/-- A call on an open file, whatever the kernel answers. -/
def AnyStep (pullupdown : Bool) (sys sys' : System) : Prop :=
  ∃ answer call, call.OnOpen sys ∧ sys' = sys.step answer pullupdown call

section Unloading

variable {answer : (o : GpioOp) → GpioResp o}

/-- Changing a record acquires nothing and releases nothing. -/
theorem modify_held (k : Kernel) (pin : Pin) (f : GpioConf → GpioConf) :
    (k.modify pin f).2.held = k.held := by
  unfold Kernel.modify
  split <;> rfl

theorem acquire_pinArray {k : Kernel} (r : Resource) (hheld : 0 < k.held .pinArray) :
    0 < (k.acquire r).held .pinArray := by
  by_cases hr : .pinArray = r
  · rw [← hr, acquire_self]
    omega
  · rw [acquire_other _ hr]
    exact hheld

/-- The memory of the records is never given back. -/
theorem serve_pinArray {k : Kernel} (o : GpioOp) (hheld : 0 < k.held .pinArray) :
    0 < (serve answer o k).2.held .pinArray := by
  have hrelease : ∀ r, .pinArray ≠ r → 0 < (k.release r).held .pinArray := by
    intro r hr
    rw [release_other hr]
    exact hheld
  cases o with
  | setDevId pin v => exact modify_held k pin _ ▸ hheld
  | setIrqnum pin v => exact modify_held k pin _ ▸ hheld
  | setTriggered pin v => exact modify_held k pin _ ▸ hheld
  | freeIrq irq pin => exact hrelease _ nofun
  | gpioFree pin => exact hrelease _ nofun
  | unregisterChrdevRegion major => exact hrelease _ nofun
  | kfreeDevice => exact hrelease _ nofun
  | cdevDel => exact hrelease _ nofun
  | kzallocDevice =>
    dsimp only [serve]
    split
    · exact acquire_pinArray .device hheld
    · exact hheld
  | kzallocPins =>
    dsimp only [serve]
    split
    · exact acquire_pinArray .pinArray hheld
    · exact hheld
  | _ =>
    dsimp only [serve]
    (repeat' split) <;> exact hheld

theorem run_pinArray {α : Type} {sys : System} (p : Gpio α)
    (hheld : 0 < sys.kernel.held .pinArray) : 0 < (sys.run answer p).kernel.held .pinArray :=
  leaves_keeps (I := fun k : Kernel => 0 < k.held .pinArray) (sat_any p)
    (fun o _ _ h => serve_pinArray o h) hheld

theorem step_pinArray {pullupdown : Bool} {sys : System} (call : Call)
    (hheld : 0 < sys.kernel.held .pinArray) :
    0 < (sys.step answer pullupdown call).kernel.held .pinArray := by
  cases call with
  | «open» gpionum nonblock writable => exact run_pinArray (gpioOpen gpionum) hheld
  | ioctl f cmd arg => exact run_pinArray (gpioIoctl pullupdown f cmd arg) hheld
  | read f buf count => exact run_pinArray (gpioRead f buf count) hheld
  | write f buf count => exact run_pinArray (gpioWrite f buf count) hheld
  | poll f => exact run_pinArray (gpioPoll f) hheld
  | release f => exact run_pinArray (gpioReleaseClose f) hheld

/-- Whatever has been done with the driver, unloading it leaves the memory of
the records behind. -/
theorem not_givenBack {pullupdown : Bool} {gpio_major major : ℕ} {sys : System}
    (hinit : initOutcome answer gpio_major = .ret (0, major))
    (hrun : Relation.ReflTransGen (AnyStep pullupdown) (System.loaded answer gpio_major) sys)
    (answer' : (o : GpioOp) → GpioResp o) : ¬GivenBack answer' major sys := by
  have harray : 0 < sys.kernel.held .pinArray := by
    induction hrun with
    | refl => exact (loaded_of_success hinit).array
    | tail _ hstep ih =>
      obtain ⟨answer, call, -, hsys⟩ := hstep
      rw [hsys]
      exact step_pinArray call ih
  intro hback
  have hleft : 0 < (sys.run answer' (gpioExit major)).kernel.held .pinArray :=
    run_pinArray (gpioExit major) harray
  rw [hback.held .pinArray nofun] at hleft
  exact absurd hleft (Nat.lt_irrefl 0)

end Unloading

/-- Loading and unloading give back what was acquired exactly when `gpio_init`
fails before it has a device: no other failure and no unloading does. -/
theorem lifetime_exact (answer : (o : GpioOp) → GpioResp o) (gpio_major : ℕ) :
    ((∀ major, initOutcome answer gpio_major ≠ .ret (0, major)) →
      (AsBefore answer gpio_major ↔
        (regionAnswer answer gpio_major).1 < 0 ∨ answer .kzallocDevice = false)) ∧
      ∀ major, initOutcome answer gpio_major = .ret (0, major) → ∀ pullupdown sys,
        Relation.ReflTransGen (AnyStep pullupdown) (System.loaded answer gpio_major) sys →
          ∀ answer', ¬GivenBack answer' major sys :=
  ⟨asBefore_iff, fun _ hinit _ _ hrun answer' => not_givenBack hinit hrun answer'⟩

/-- The kernel grants everything but the memory of the device. -/
def withoutDevice : (o : GpioOp) → GpioResp o
  | .kzallocDevice => false
  | o => granting 0 o

/-- The kernel grants everything but the memory of the records. -/
def withoutPins : (o : GpioOp) → GpioResp o
  | .kzallocPins => false
  | o => granting 0 o

/-- One failure that is cleaned up, and one driver that is unloaded at once. -/
theorem lifetime_exact_failed :
    AsBefore withoutDevice 240 ∧ ¬GivenBack (granting 0) 240 (System.loaded (granting 0) 240) := by
  obtain ⟨hout, -⟩ := @gpioInit_withoutDevice withoutDevice 240 (Int.lt_irrefl 0) rfl
  have hfail : ∀ major, initOutcome withoutDevice 240 ≠ .ret (0, major) := by
    intro major hinit
    have hsame := (show initOutcome withoutDevice 240 = _ from hout).symm.trans hinit
    have hret : -eNOMEM = 0 := congrArg Prod.fst (Outcome.ret.inj hsame)
    exact absurd hret (by decide)
  exact ⟨((lifetime_exact withoutDevice 240).1 hfail).mpr (.inr rfl),
    (lifetime_exact (granting 0) 240).2 240 (granting_loads 0) false _ .refl (granting 0)⟩

/-- When there is no memory for the records, the cleanup uses them all the same. -/
theorem lifetime_withoutPins :
    initOutcome withoutPins 240 = .exit (.noRecord firstPin) ∧ ¬AsBefore withoutPins 240 := by
  have hinit : initOutcome withoutPins 240 = .exit (.noRecord firstPin) :=
    gpioInit_withoutPins (Int.lt_irrefl 0) rfl rfl
  refine ⟨hinit, fun hbefore => ?_⟩
  obtain ⟨ret, hreturned⟩ := hbefore.returned
  rw [hinit] at hreturned
  exact absurd hreturned nofun

end MetaDigi.GpioLifetime
