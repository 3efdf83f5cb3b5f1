import MetaDigi.SystemRuns
import Mathlib.Logic.Function.Basic
import Mathlib.Data.List.FinRange
import Mathlib.Algebra.Group.Nat.Defs

/-!
# The GPIO driver

The file operations of the driver, its interrupt handler, and loading and
unloading it, as programs over the functions of the kernel. Every access to the
record of a pin is an operation of its own, so that the same programs can be
run one after the other or interleaved step by step. The kernel keeps account
of what has been handed out and of what has been given back.
-/

namespace MetaDigi.GpioDriver

open SystemProgram

/-- `gpio_nr_devs`: the number of pins. -/
def gpioNrDevs : ℕ := 256

/-- The number of a pin, which is the minor number of its device. -/
abbrev Pin := Fin gpioNrDevs

/-- `struct gpio_conf`: the record of a pin. -/
structure GpioConf where
  /-- The minor number. -/
  dev_id : ℤ := 0
  /-- The interrupt that is assigned, or -1. -/
  irqnum : ℤ := 0
  /-- The interrupt has occurred. -/
  triggered : Bool := false
  deriving DecidableEq, Repr

/-- An open file of the driver. -/
structure File where
  /-- `MINOR(inode->i_rdev)`. -/
  gpionum : Pin
  /-- `private_data`: the record of the pin. -/
  privateData : Pin
  /-- `O_NONBLOCK` is set. -/
  nonblock : Bool
  /-- `FMODE_WRITE` is set. -/
  writable : Bool
  deriving DecidableEq, Repr

/-- The operations of the driver: accesses to its memory, and calls to the
kernel. -/
inductive GpioOp where
  /-- Whether `gpio_device` is set. -/
  | gpioDevice
  /-- Read `dev_id`. -/
  | devId (pin : Pin)
  /-- Write `dev_id`. -/
  | setDevId (pin : Pin) (v : ℤ)
  /-- Read `irqnum`. -/
  | irqnum (pin : Pin)
  /-- Write `irqnum`. -/
  | setIrqnum (pin : Pin) (v : ℤ)
  /-- Read `triggered`. -/
  | triggered (pin : Pin)
  /-- Write `triggered`. -/
  | setTriggered (pin : Pin) (v : Bool)
  /-- `gpio_direction_input`. -/
  | gpioDirectionInput (pin : Pin)
  /-- `gpio_direction_output`. -/
  | gpioDirectionOutput (pin : Pin) (v : ℤ)
  /-- `gpio_get_value`: sample the pin. -/
  | gpioGetValue (pin : Pin)
  /-- `gpio_set_value`. -/
  | gpioSetValue (pin : Pin) (v : UInt8)
  /-- `gpio_set_pullupdown`. -/
  | gpioSetPullupdown (pin : Pin) (arg : ℕ)
  /-- `gpio_to_irq`. -/
  | gpioToIrq (pin : Pin)
  /-- `request_irq` for the record of a pin. -/
  | requestIrq (irq : ℤ) (irqflags : ℕ) (pin : Pin)
  /-- `free_irq` for the record of a pin. -/
  | freeIrq (irq : ℤ) (pin : Pin)
  /-- `gpio_request`. -/
  | gpioRequest (pin : Pin)
  /-- `gpio_free`. -/
  | gpioFree (pin : Pin)
  /-- `init_waitqueue_head`. -/
  | initWaitqueueHead (pin : Pin)
  /-- `wake_up_interruptible`. -/
  | wakeUp (pin : Pin)
  /-- `poll_wait`. -/
  | pollWait (pin : Pin)
  /-- `wait_event_interruptible`, until `triggered` is set or a signal comes. -/
  | waitEvent (pin : Pin)
  /-- `signal_pending`. -/
  | signalPending
  /-- `copy_to_user`, answered by its success. -/
  | copyToUser (arg : ℕ) (v : ℤ)
  /-- `copy_from_user` of one byte. -/
  | copyFromUser (arg : ℕ)
  /-- `*argp`: the byte at an address of the user. -/
  | userChar (arg : ℕ)
  /-- `register_chrdev_region`. -/
  | registerChrdevRegion (major : ℕ)
  /-- `alloc_chrdev_region`, answered by the return value and the major number. -/
  | allocChrdevRegion
  /-- `unregister_chrdev_region`. -/
  | unregisterChrdevRegion (major : ℕ)
  /-- `kzalloc` of the device, stored in `gpio_device`. -/
  | kzallocDevice
  /-- `kzalloc` of the records of the pins, stored in the device. -/
  | kzallocPins
  /-- `kfree` of the device. -/
  | kfreeDevice
  /-- `cdev_add`. -/
  | cdevAdd
  /-- `cdev_del`. -/
  | cdevDel
  deriving DecidableEq

/-- What an operation is answered with; an access to a record that does not
exist has no answer. -/
abbrev GpioResp : GpioOp → Type
  | .gpioDevice => Bool
  | .devId _ => Option ℤ
  | .setDevId _ _ => Option Unit
  | .irqnum _ => Option ℤ
  | .setIrqnum _ _ => Option Unit
  | .triggered _ => Option Bool
  | .setTriggered _ _ => Option Unit
  | .gpioDirectionInput _ => ℤ
  | .gpioDirectionOutput _ _ => ℤ
  | .gpioGetValue _ => ℤ
  | .gpioSetValue _ _ => Unit
  | .gpioSetPullupdown _ _ => Unit
  | .gpioToIrq _ => ℤ
  | .requestIrq _ _ _ => ℤ
  | .freeIrq _ _ => Unit
  | .gpioRequest _ => ℤ
  | .gpioFree _ => Unit
  | .initWaitqueueHead _ => Unit
  | .wakeUp _ => Unit
  | .pollWait _ => Unit
  | .waitEvent _ => Unit
  | .signalPending => Bool
  | .copyToUser _ _ => Bool
  | .copyFromUser _ => Option UInt8
  | .userChar _ => Option UInt8
  | .registerChrdevRegion _ => ℤ
  | .allocChrdevRegion => ℤ × ℕ
  | .unregisterChrdevRegion _ => Unit
  | .kzallocDevice => Bool
  | .kzallocPins => Bool
  | .kfreeDevice => Unit
  | .cdevAdd => ℤ
  | .cdevDel => Unit

/-- An access to memory that is not there. -/
inductive Fault where
  /-- The record of a pin, without an array of records. -/
  | noRecord (pin : Pin)
  /-- An address of the user. -/
  | userAddress (arg : ℕ)
  deriving DecidableEq, Repr

/-- A part of the driver. -/
abbrev Gpio := Prog GpioOp GpioResp Fault

/-- Issue an operation. -/
abbrev kernelCall (o : GpioOp) : Gpio (GpioResp o) := Prog.perform o

/-- Go on with the record of a pin, if there is one. -/
def orNoRecord {α : Type} (pin : Pin) (r : Option α) : Gpio α :=
  match r with
  | some a => return a
  | none => Prog.exit (.noRecord pin)

/-- `dev_id` of a pin. -/
def loadDevId (pin : Pin) : Gpio ℤ := do orNoRecord pin (← kernelCall (.devId pin))

/-- `irqnum` of a pin. -/
def loadIrqnum (pin : Pin) : Gpio ℤ := do orNoRecord pin (← kernelCall (.irqnum pin))

/-- Assign `irqnum`. -/
def storeIrqnum (pin : Pin) (v : ℤ) : Gpio Unit := do
  orNoRecord pin (← kernelCall (.setIrqnum pin v))

/-- Assign `triggered`. -/
def storeTriggered (pin : Pin) (v : Bool) : Gpio Unit := do
  orNoRecord pin (← kernelCall (.setTriggered pin v))

/-- `*argp`. -/
def loadUserChar (arg : ℕ) : Gpio UInt8 := do
  match ← kernelCall (.userChar arg) with
  | some b => return b
  | none => Prog.exit (.userAddress arg)

/-- The error numbers that the driver returns. -/
def eFAULT : ℤ := 14
def eNOMEM : ℤ := 12
def eBUSY : ℤ := 16
def eNODEV : ℤ := 19
def eINVAL : ℤ := 22
def eNOTTY : ℤ := 25
def eRESTARTSYS : ℤ := 512

/-- `_IOC`: the number of an `ioctl` command. -/
def ioc (dir type nr size : ℕ) : BitVec 32 :=
  BitVec.ofNat 32 (dir * 2 ^ 30 + size * 2 ^ 16 + type * 2 ^ 8 + nr)

/-- `GPIO_IOCTL_BASE`. -/
def gpioIoctlBase : ℕ := 71

/-- `GPIO_IOCTL_MAXNR`. -/
def gpioIoctlMaxnr : ℕ := 5

/-- `GPIO_CONFIG_AS_INP`. -/
def gpioConfigAsInp : BitVec 32 := ioc 0 gpioIoctlBase 0 0

/-- `GPIO_READ_PIN_VAL`. -/
def gpioReadPinVal : BitVec 32 := ioc 2 gpioIoctlBase 1 4

/-- `GPIO_CONFIG_AS_OUT`. -/
def gpioConfigAsOut : BitVec 32 := ioc 0 gpioIoctlBase 2 0

/-- `GPIO_WRITE_PIN_VAL`. -/
def gpioWritePinVal : BitVec 32 := ioc 1 gpioIoctlBase 3 4

/-- `GPIO_CONFIG_AS_IRQ`. -/
def gpioConfigAsIrq : BitVec 32 := ioc 2 gpioIoctlBase 4 4

/-- `GPIO_CONFIG_PULLUPDOWN`. -/
def gpioConfigPullupdown : BitVec 32 := ioc 1 gpioIoctlBase 5 4

/-- `_IOC_TYPE`. -/
def iocType (cmd : BitVec 32) : ℕ := cmd.toNat / 2 ^ 8 % 2 ^ 8

/-- `_IOC_NR`. -/
def iocNr (cmd : BitVec 32) : ℕ := cmd.toNat % 2 ^ 8

/-- The trigger that an `ext_irq_type_t` stands for: high level, low level,
rising edge or falling edge. -/
def irqFlags (b : UInt8) : Option ℕ :=
  match b.toNat with
  | 0 => some 4
  | 1 => some 8
  | 2 => some 1
  | 3 => some 2
  | _ => none

/-- `gpio_irq_handler`. -/
def gpioIrqHandler (pin : Pin) : Gpio ℤ := do
  storeTriggered pin true
  kernelCall (.wakeUp pin)
  return 1

/-- Give the interrupt of a pin back, if it has one. -/
def dropIrq (pin : Pin) : Gpio Unit := do
  if (← loadIrqnum pin) ≥ 0 then
    kernelCall (.freeIrq (← loadIrqnum pin) pin)
    storeIrqnum pin (-1)
  else return ()

/-- `GPIO_CONFIG_AS_IRQ` in `gpio_ioctl`. -/
def configAsIrq (f : File) (arg : ℕ) : Gpio ℤ := do
  if (← loadIrqnum f.privateData) ≥ 0 then return 0
  else
    let retval ← kernelCall (.gpioDirectionInput f.gpionum)
    let irqnum ← kernelCall (.gpioToIrq f.gpionum)
    if irqnum ≥ 0 then
      storeIrqnum f.privateData irqnum
      kernelCall (.initWaitqueueHead f.privateData)
      storeTriggered f.privateData false
      match irqFlags (← loadUserChar arg) with
      | none => return -eINVAL
      | some irqflags =>
        let irq ← loadIrqnum f.privateData
        let retval ← kernelCall (.requestIrq irq irqflags f.privateData)
        if retval ≠ 0 then
          storeIrqnum f.privateData (-1)
          return retval
        else return retval
    else return retval

/-- `GPIO_READ_PIN_VAL` in `gpio_ioctl`. -/
def readPinVal (f : File) (arg : ℕ) : Gpio ℤ := do
  let retval ← kernelCall (.gpioGetValue f.gpionum)
  storeTriggered f.privateData false
  if ← kernelCall (.copyToUser arg retval) then return retval else return -eINVAL

/-- The `switch` of `gpio_ioctl`. Whether a pin can be pulled up or down
depends on the machine. -/
def ioctlSwitch (pullupdown : Bool) (f : File) (cmd : BitVec 32) (arg : ℕ) : Gpio ℤ := do
  if cmd = gpioConfigAsInp then
    dropIrq f.privateData
    kernelCall (.gpioDirectionInput f.gpionum)
  else if cmd = gpioConfigAsOut then
    dropIrq f.privateData
    kernelCall (.gpioDirectionOutput f.gpionum (← kernelCall (.gpioGetValue f.gpionum)))
  else if cmd = gpioReadPinVal then readPinVal f arg
  else if cmd = gpioWritePinVal then
    kernelCall (.gpioSetValue f.gpionum (← loadUserChar arg))
    return 0
  else if cmd = gpioConfigAsIrq then configAsIrq f arg
  else if pullupdown && cmd = gpioConfigPullupdown then
    kernelCall (.gpioSetPullupdown f.gpionum arg)
    return 0
  else return -eNOTTY

/-- `gpio_ioctl`. -/
def gpioIoctl (pullupdown : Bool) (f : File) (cmd : BitVec 32) (arg : ℕ) : Gpio ℤ := do
  if iocType cmd ≠ gpioIoctlBase then return -eNOTTY
  else if iocNr cmd > gpioIoctlMaxnr then return -eNOTTY
  else if (f.gpionum.val : ℤ) ≠ (← loadDevId f.privateData) then return -eINVAL
  else ioctlSwitch pullupdown f cmd arg

/-- `POLLOUT | POLLWRNORM`. -/
def pollOut : ℕ := 0x104

/-- `POLLOUT | POLLRDNORM`. -/
def pollRd : ℕ := 0x44

/-- `gpio_poll`. -/
def gpioPoll (f : File) : Gpio ℤ := do
  kernelCall (.pollWait f.privateData)
  let ret := if f.writable then pollOut else 0
  if ← orNoRecord f.privateData (← kernelCall (.triggered f.privateData)) then
    return (ret ||| pollRd : ℕ)
  else return (ret : ℕ)

/-- `gpio_write`. -/
def gpioWrite (f : File) (buf count : ℕ) : Gpio ℤ := do
  if (f.gpionum.val : ℤ) ≠ (← loadDevId f.privateData) ∨ count ≠ 1 then return -eINVAL
  else
    match ← kernelCall (.copyFromUser buf) with
    | none => return -eFAULT
    | some outval =>
      kernelCall (.gpioSetValue f.gpionum outval)
      return 1

/-- The waiting of `gpio_read` for an interrupt. Answers whether a signal has
ended it. -/
def awaitEvent (f : File) : Gpio Bool := do
  if f.nonblock then return false
  else
    kernelCall (.waitEvent f.privateData)
    kernelCall .signalPending

/-- The end of `gpio_read`. -/
def readValue (f : File) (buf : ℕ) : Gpio ℤ := do
  let ret ← kernelCall (.gpioGetValue f.gpionum)
  if ← kernelCall (.copyToUser buf ret) then return 1 else return -eFAULT

/-- `gpio_read`. -/
def gpioRead (f : File) (buf count : ℕ) : Gpio ℤ := do
  if (f.gpionum.val : ℤ) ≠ (← loadDevId f.privateData) ∨ count ≠ 1 then return -eINVAL
  else if (← loadIrqnum f.privateData) ≥ 0 then
    if ← awaitEvent f then return -eRESTARTSYS
    else
      storeTriggered f.privateData false
      readValue f buf
  else readValue f buf

/-- `gpio_open`: the return value, and the record that the file is given. -/
def gpioOpen (gpionum : Pin) : Gpio (ℤ × Option Pin) := do
  if (gpionum.val : ℤ) ≠ (← loadDevId gpionum) then return (-eINVAL, none)
  else
    let ret ← kernelCall (.gpioRequest gpionum)
    if ret < 0 then return (ret, none) else return (0, some gpionum)

/-- `gpio_release_close`. -/
def gpioReleaseClose (f : File) : Gpio ℤ := do
  if (f.gpionum.val : ℤ) ≠ (← loadDevId f.privateData) then return -eINVAL
  else
    dropIrq f.privateData
    kernelCall (.gpioFree f.gpionum)
    return 0

/-- The loop of `gpio_exit`, for one pin. -/
def exitPin (i : Pin) : Gpio Unit := do
  if (← loadIrqnum i) ≠ -1 then
    kernelCall (.freeIrq (← loadIrqnum i) i)
    kernelCall .cdevDel
  else kernelCall .cdevDel

/-- `gpio_exit`. -/
def gpioExit (gpio_major : ℕ) : Gpio Unit := do
  if ← kernelCall .gpioDevice then
    let _ ← Prog.mapList exitPin (List.finRange gpioNrDevs)
    kernelCall .kfreeDevice
    kernelCall (.unregisterChrdevRegion gpio_major)
  else kernelCall (.unregisterChrdevRegion gpio_major)

/-- The loop of `gpio_init`, for one pin. -/
def initPin (i : Pin) : Gpio Unit := do
  orNoRecord i (← kernelCall (.setDevId i i.val))
  storeIrqnum i (-1)

/-- The region of device numbers for `gpio_init`: the return value, and the
major number. -/
def takeRegion (gpio_major : ℕ) : Gpio (ℤ × ℕ) := do
  if gpio_major ≠ 0 then return (← kernelCall (.registerChrdevRegion gpio_major), gpio_major)
  else kernelCall .allocChrdevRegion

/-- `gpio_init`: the return value, and `gpio_major` afterwards. -/
def gpioInit (gpio_major : ℕ) : Gpio (ℤ × ℕ) := do
  let (ret, gpio_major) ← takeRegion gpio_major
  if ret < 0 then return (ret, gpio_major)
  else if !(← kernelCall .kzallocDevice) then
    gpioExit gpio_major
    return (-eNOMEM, gpio_major)
  else if !(← kernelCall .kzallocPins) then
    gpioExit gpio_major
    return (-eNOMEM, gpio_major)
  else if (← kernelCall .cdevAdd) ≠ 0 then
    gpioExit gpio_major
    return (-eNODEV, gpio_major)
  else
    let _ ← Prog.mapList initPin (List.finRange gpioNrDevs)
    return (0, gpio_major)

end MetaDigi.GpioDriver
