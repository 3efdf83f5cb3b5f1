import MetaDigi.GpioDriver

/-!
# The kernel below the GPIO driver

The kernel keeps the memory of the driver and counts what it has handed out.
Whatever it may answer freely is given for each call of the driver; a release
of something that is not held is noted. Files are opened, used and released
one after the other.
-/

namespace MetaDigi.GpioKernel

open SystemProgram SystemRuns GpioDriver Prog

/-- What the kernel hands out. -/
inductive Resource where
  /-- A region of device numbers. -/
  | region (major : ℕ)
  /-- The memory of the device. -/
  | device
  /-- The memory of the records of the pins. -/
  | pinArray
  /-- The registration of the character device. -/
  | cdev
  /-- An interrupt with the handler for the record of a pin. -/
  | irq (irq : ℤ) (pin : Pin)
  /-- A pin. -/
  | pin (pin : Pin)
  deriving DecidableEq

/-- The kernel, as far as the driver has to do with it. -/
structure Kernel where
  /-- `gpio_device` is set. -/
  device : Bool := false
  /-- The records of the pins, once they are allocated. -/
  gpio : Option (Pin → GpioConf) := none
  /-- How often each resource is handed out. -/
  held : Resource → ℕ := fun _ => 0
  /-- Resources that were released without being held. -/
  stray : List Resource := []

/-- A resource is handed out. -/
def Kernel.acquire (k : Kernel) (r : Resource) : Kernel :=
  { k with held := Function.update k.held r (k.held r + 1) }

/-- A resource is given back. -/
def Kernel.release (k : Kernel) (r : Resource) : Kernel :=
  if 0 < k.held r then { k with held := Function.update k.held r (k.held r - 1) }
  else { k with stray := k.stray ++ [r] }

/-- Change the record of a pin, if there is one. -/
def Kernel.modify (k : Kernel) (pin : Pin) (f : GpioConf → GpioConf) : Option Unit × Kernel :=
  match k.gpio with
  | none => (none, k)
  | some g => (some (), { k with gpio := some (Function.update g pin (f (g pin))) })

/-- Changing a record that is there. -/
theorem modify_eq {k : Kernel} {g : Pin → GpioConf} (pin : Pin) (hk : k.gpio = some g)
    (f : GpioConf → GpioConf) :
    k.modify pin f = (some (), { k with gpio := some (Function.update g pin (f (g pin))) }) := by
  unfold Kernel.modify
  rw [hk]

/-- The kernel carries out an operation. What it may answer freely is given;
a pin that has been requested is refused to anybody else. -/
def serve (answer : (o : GpioOp) → GpioResp o) : Handler GpioOp GpioResp Kernel
  | .gpioDevice, k => (k.device, k)
  | .devId pin, k => (k.gpio.map fun g => (g pin).dev_id, k)
  | .setDevId pin v, k => k.modify pin fun c => { c with dev_id := v }
  | .irqnum pin, k => (k.gpio.map fun g => (g pin).irqnum, k)
  | .setIrqnum pin v, k => k.modify pin fun c => { c with irqnum := v }
  | .triggered pin, k => (k.gpio.map fun g => (g pin).triggered, k)
  | .setTriggered pin v, k => k.modify pin fun c => { c with triggered := v }
  | .requestIrq irq irqflags pin, k =>
    (answer (.requestIrq irq irqflags pin),
      if answer (.requestIrq irq irqflags pin) = 0 then k.acquire (.irq irq pin) else k)
  | .freeIrq irq pin, k => ((), k.release (.irq irq pin))
  | .gpioRequest pin, k =>
    if 0 < k.held (.pin pin) then (-eBUSY, k)
    else (answer (.gpioRequest pin),
      if answer (.gpioRequest pin) < 0 then k else k.acquire (.pin pin))
  | .gpioFree pin, k => ((), k.release (.pin pin))
  | .registerChrdevRegion major, k =>
    (answer (.registerChrdevRegion major),
      if answer (.registerChrdevRegion major) < 0 then k else k.acquire (.region major))
  | .allocChrdevRegion, k =>
    (answer .allocChrdevRegion,
      if (answer .allocChrdevRegion).1 < 0 then k
      else k.acquire (.region (answer .allocChrdevRegion).2))
  | .unregisterChrdevRegion major, k => ((), k.release (.region major))
  | .kzallocDevice, k =>
    (answer .kzallocDevice,
      if answer .kzallocDevice then { k.acquire .device with device := true, gpio := none }
      else { k with device := false })
  | .kzallocPins, k =>
    (answer .kzallocPins,
      if answer .kzallocPins then { k.acquire .pinArray with gpio := some fun _ => {} }
      else { k with gpio := none })
  | .kfreeDevice, k => ((), k.release .device)
  | .cdevAdd, k =>
    (answer .cdevAdd, if answer .cdevAdd = 0 then k.acquire .cdev else k)
  | .cdevDel, k => ((), k.release .cdev)
  | o, k => (answer o, k)

/-- A call of a file operation. -/
inductive Call where
  /-- `open` on the device of a pin. -/
  | open (gpionum : Pin) (nonblock writable : Bool)
  /-- `ioctl`. -/
  | ioctl (f : File) (cmd : BitVec 32) (arg : ℕ)
  /-- `read`. -/
  | read (f : File) (buf count : ℕ)
  /-- `write`. -/
  | write (f : File) (buf count : ℕ)
  /-- `poll`. -/
  | poll (f : File)
  /-- The last `close`. -/
  | release (f : File)

/-- The kernel with the files of the driver that are open. -/
structure System where
  /-- The kernel. -/
  kernel : Kernel
  /-- The open files. -/
  files : List File := []

/-- Only open files are used. -/
def Call.OnOpen (sys : System) : Call → Prop
  | .open _ _ _ => True
  | .ioctl f _ _ => f ∈ sys.files
  | .read f _ _ => f ∈ sys.files
  | .write f _ _ => f ∈ sys.files
  | .poll f => f ∈ sys.files
  | .release f => f ∈ sys.files

/-- The file that `open` has given out, with its record. -/
def opened (gpionum : Pin) (nonblock writable : Bool) (out : Outcome Fault (ℤ × Option Pin)) :
    List File :=
  match out with
  | .ret (0, some privateData) => [{ gpionum, privateData, nonblock, writable }]
  | _ => []

section Step

variable (answer : (o : GpioOp) → GpioResp o)

/-- Run a function of the driver in the kernel. -/
def System.run {α : Type} (sys : System) (p : Gpio α) : System :=
  { sys with kernel := (exec (serve answer) everyCall p sys.kernel).state }

/-- A call, with what the kernel answers meanwhile. -/
def System.step (pullupdown : Bool) (sys : System) : Call → System
  | .open gpionum nonblock writable =>
    { sys.run answer (gpioOpen gpionum) with
      files := opened gpionum nonblock writable
        (exec (serve answer) everyCall (gpioOpen gpionum) sys.kernel).outcome ++ sys.files }
  | .ioctl f cmd arg => sys.run answer (gpioIoctl pullupdown f cmd arg)
  | .read f buf count => sys.run answer (gpioRead f buf count)
  | .write f buf count => sys.run answer (gpioWrite f buf count)
  | .poll f => sys.run answer (gpioPoll f)
  | .release f =>
    { sys.run answer (gpioReleaseClose f) with files := sys.files.erase f }

end Step

/-- The system after `gpio_init` has been run in a kernel that knows nothing of
the driver. -/
def System.loaded (answer : (o : GpioOp) → GpioResp o) (gpio_major : ℕ) : System :=
  System.run answer { kernel := {} } (gpioInit gpio_major)

/-- How `gpio_init` ended. -/
def initOutcome (answer : (o : GpioOp) → GpioResp o) (gpio_major : ℕ) : Outcome Fault (ℤ × ℕ) :=
  (exec (serve answer) everyCall (gpioInit gpio_major) {}).outcome

/-- An operation that leaves the kernel as it is. -/
def Still : GpioOp → Prop
  | .gpioDevice => True
  | .devId _ => True
  | .irqnum _ => True
  | .triggered _ => True
  | .gpioDirectionInput _ => True
  | .gpioDirectionOutput _ _ => True
  | .gpioGetValue _ => True
  | .gpioSetValue _ _ => True
  | .gpioSetPullupdown _ _ => True
  | .gpioToIrq _ => True
  | .initWaitqueueHead _ => True
  | .wakeUp _ => True
  | .pollWait _ => True
  | .waitEvent _ => True
  | .signalPending => True
  | .copyToUser _ _ => True
  | .copyFromUser _ => True
  | .userChar _ => True
  | _ => False

/-- A still operation leaves the kernel as it is. -/
theorem serve_still {answer : (o : GpioOp) → GpioResp o} {o : GpioOp} (ho : Still o)
    (k : Kernel) : (serve answer o k).2 = k := by
  cases o <;> first | rfl | exact absurd ho id

/-- An operation that changes no more than that the interrupt of a pin has not
occurred. -/
def Calm (pin : Pin) (o : GpioOp) : Prop := o = .setTriggered pin false ∨ Still o

section Issued

variable {α : Type} {P : GpioOp → Prop} {X : Fault → Prop} {R : α → Prop}

/-- A still operation. -/
theorem sat_still (o : GpioOp) (ho : Still o) :
    (kernelCall o).Sat Still (fun _ => True) (fun _ => True) :=
  ⟨ho, fun _ => trivial⟩

/-- Still parts are calm. -/
theorem calm_of_still {p : Gpio α} (hp : p.Sat Still X R) (pin : Pin) : p.Sat (Calm pin) X R :=
  hp.mono (fun _ => .inr) (fun _ => id) fun _ => id

/-- A result. -/
theorem sat_return (a : α) : (pure a : Gpio α).Sat P (fun _ => True) (fun _ => True) := trivial

/-- A record that is not there. -/
theorem sat_orNoRecord (pin : Pin) (r : Option α) :
    (orNoRecord pin r).Sat P (fun _ => True) (fun _ => True) := by
  cases r <;> trivial

/-- Reading `dev_id`. -/
theorem sat_loadDevId (pin : Pin) : (loadDevId pin).Sat Still (fun _ => True) (fun _ => True) :=
  (sat_still (.devId pin) trivial).andThen fun r _ => sat_orNoRecord pin r

/-- Reading `irqnum`. -/
theorem sat_loadIrqnum (pin : Pin) : (loadIrqnum pin).Sat Still (fun _ => True) (fun _ => True) :=
  (sat_still (.irqnum pin) trivial).andThen fun r _ => sat_orNoRecord pin r

/-- Clearing `triggered`. -/
theorem sat_clearTriggered (pin : Pin) :
    (storeTriggered pin false).Sat (Calm pin) (fun _ => True) (fun _ => True) :=
  (sat_perform (.inl rfl) fun _ => trivial).andThen fun _ _ => sat_orNoRecord pin _

/-- Reading a character of the caller. -/
theorem sat_loadUserChar (arg : ℕ) :
    (loadUserChar arg).Sat Still (fun _ => True) (fun _ => True) := by
  refine (sat_still (.userChar arg) trivial).andThen fun r _ => ?_
  cases r <;> trivial

/-- Reading the pin for the caller. -/
theorem sat_readValue (f : File) (buf : ℕ) :
    (readValue f buf).Sat Still (fun _ => True) (fun _ => True) := by
  refine (sat_still (.gpioGetValue f.gpionum) trivial).andThen fun v _ =>
    (sat_still (.copyToUser buf v) trivial).andThen fun _ _ => ?_
  split <;> trivial

/-- Waiting for an event. -/
theorem sat_awaitEvent (f : File) : (awaitEvent f).Sat Still (fun _ => True) (fun _ => True) := by
  unfold awaitEvent
  split
  · trivial
  · exact (sat_still (.waitEvent f.privateData) trivial).andThen fun _ _ =>
      sat_still .signalPending trivial

/-- `gpio_read`. -/
theorem sat_gpioRead (f : File) (buf count : ℕ) :
    (gpioRead f buf count).Sat (Calm f.privateData) (fun _ => True) (fun _ => True) := by
  refine (calm_of_still (sat_loadDevId _) _).andThen fun _ _ => ?_
  split
  · trivial
  · refine (calm_of_still (sat_loadIrqnum _) _).andThen fun _ _ => ?_
    split
    · refine (calm_of_still (sat_awaitEvent f) _).andThen fun _ _ => ?_
      split
      · trivial
      · exact (sat_clearTriggered _).andThen fun _ _ => calm_of_still (sat_readValue f buf) _
    · exact calm_of_still (sat_readValue f buf) _

/-- `gpio_write`. -/
theorem sat_gpioWrite (f : File) (buf count : ℕ) :
    (gpioWrite f buf count).Sat Still (fun _ => True) (fun _ => True) := by
  refine (sat_loadDevId _).andThen fun _ _ => ?_
  split
  · trivial
  · refine (sat_still (.copyFromUser buf) trivial).andThen fun r _ => ?_
    split
    · trivial
    · exact (sat_still (.gpioSetValue f.gpionum _) trivial).andThen fun _ _ => trivial

/-- `gpio_poll`. -/
theorem sat_gpioPoll (f : File) : (gpioPoll f).Sat Still (fun _ => True) (fun _ => True) := by
  refine (sat_still (.pollWait f.privateData) trivial).andThen fun _ _ =>
    (sat_still (.triggered f.privateData) trivial).andThen fun _ _ =>
    (sat_orNoRecord _ _).andThen fun _ _ => ?_
  split <;> trivial

/-- `GPIO_READ_PIN_VAL`. -/
theorem sat_readPinVal (f : File) (arg : ℕ) :
    (readPinVal f arg).Sat (Calm f.privateData) (fun _ => True) (fun _ => True) := by
  refine (calm_of_still (sat_still (.gpioGetValue f.gpionum) trivial) _).andThen fun v _ =>
    (sat_clearTriggered _).andThen fun _ _ =>
      (calm_of_still (sat_still (.copyToUser arg v) trivial) _).andThen fun _ _ => ?_
  split <;> trivial

/-- A pin becomes an output with the value that it has. -/
theorem sat_holdValue (pin : Pin) :
    (kernelCall (.gpioGetValue pin) >>= fun v => kernelCall (.gpioDirectionOutput pin v)).Sat
      Still (fun _ => True) (fun _ => True) :=
  (sat_still (.gpioGetValue pin) trivial).andThen fun v _ =>
    sat_still (.gpioDirectionOutput pin v) trivial

end Issued

/-- Everything is granted, every pin has the interrupt 5, and what the user
hands over is always the same byte. -/
def granting (b : UInt8) : (o : GpioOp) → GpioResp o
  | .gpioDevice => true
  | .devId _ => none
  | .setDevId _ _ => none
  | .irqnum _ => none
  | .setIrqnum _ _ => none
  | .triggered _ => none
  | .setTriggered _ _ => none
  | .gpioDirectionInput _ => 0
  | .gpioDirectionOutput _ _ => 0
  | .gpioGetValue _ => 1
  | .gpioSetValue _ _ => ()
  | .gpioSetPullupdown _ _ => ()
  | .gpioToIrq _ => 5
  | .requestIrq _ _ _ => 0
  | .freeIrq _ _ => ()
  | .gpioRequest _ => 0
  | .gpioFree _ => ()
  | .initWaitqueueHead _ => ()
  | .wakeUp _ => ()
  | .pollWait _ => ()
  | .waitEvent _ => ()
  | .signalPending => false
  | .copyToUser _ _ => true
  | .copyFromUser _ => some b
  | .userChar _ => some b
  | .registerChrdevRegion _ => 0
  | .allocChrdevRegion => (0, 240)
  | .unregisterChrdevRegion _ => ()
  | .kzallocDevice => true
  | .kzallocPins => true
  | .kfreeDevice => ()
  | .cdevAdd => 0
  | .cdevDel => ()

/-- The first pin. -/
def firstPin : Pin := ⟨0, by decide⟩

/-- The only user of the first pin. -/
def firstFile : File :=
  { gpionum := firstPin, privateData := firstPin, nonblock := false, writable := true }

end MetaDigi.GpioKernel
