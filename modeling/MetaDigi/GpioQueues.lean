import MetaDigi.GpioRecords
import MetaDigi.GpioEvents
import MetaDigi.SystemTraces

/-!
# The wait queue of a pin

Threads call the driver one after the other; a thread that polls a pin stays on
its queue until it has had enough, and a thread that reads it may sleep there.
Interrupts come in between. The queue is initialised by `GPIO_CONFIG_AS_IRQ`
alone, each time an interrupt is assigned: too late for a pin that is polled
before, and once more while a thread may still be waiting. It is shown that
nothing else goes wrong.
-/

namespace MetaDigi.GpioQueues

open SystemProgram SystemRuns SystemHistories SystemTraces GpioDriver GpioKernel GpioInterrupts
open GpioRecords
open Prog (sat_perform sat_ret sat_any andThen_assoc)
open GpioEvents (triggered)

/-- What is noted about the queues of the pins. -/
inductive Note where
  /-- `init_waitqueue_head` has been executed. -/
  | initialised (pin : Pin)
  /-- The handler has woken up the threads on the queue. -/
  | woken (pin : Pin)
  /-- A thread has been registered on the queue. -/
  | joined (c : ℕ) (pin : Pin)
  /-- The thread is not registered any more. -/
  | left (c : ℕ)
  deriving DecidableEq

/-- What is noted when a thread issues an operation. Waiting is noted when it
begins. -/
def log (c : ℕ) : List Note → Event GpioOp GpioResp → List Note
  | trace, ⟨.initWaitqueueHead pin, _⟩ => trace ++ [.initialised pin]
  | trace, ⟨.wakeUp pin, _⟩ => trace ++ [.woken pin]
  | trace, ⟨.pollWait pin, _⟩ => trace ++ [.joined c pin]
  | trace, _ => trace

/-- A thread that is registered on a queue. -/
structure Waiter where
  /-- The file that it has called the driver for. -/
  file : File
  /-- The pin of the queue. -/
  pin : Pin
  /-- What is left of `gpio_read`; `gpio_poll` has returned. -/
  rest : Option (Gpio ℤ)

/-- The driver with its threads. -/
structure Queues where
  /-- The kernel and the open files. -/
  system : System
  /-- The threads that are registered on a queue. -/
  waiters : ℕ → Option Waiter := fun _ => none
  /-- The pins to which a call has assigned an interrupt so far. -/
  configured : List Pin := []
  /-- What has been noted. -/
  trace : List Note := []

/-- `wait_event_interruptible` sleeps as long as the flag is not set and no
signal is pending. -/
def waits (answer : (o : GpioOp) → GpioResp o) : GpioOp → Kernel → Bool
  | .waitEvent pin, k => !answer .signalPending && triggered k pin != some true
  | _, _ => false

/-- The pin to which a call will assign an interrupt: it has none, and there is
one for it. -/
def assigns (answer : (o : GpioOp) → GpioResp o) (sys : System) : Call → Option Pin
  | .ioctl f cmd _ =>
    if cmd = gpioConfigAsIrq ∧ ((System.irqnum sys f.privateData).any fun v => v < 0) = true ∧
        0 ≤ answer (.gpioToIrq f.gpionum) then some f.privateData
    else none
  | _ => none

/-- What may happen next. -/
inductive Happening where
  /-- A thread calls the driver. -/
  | call (c : ℕ) (answer : (o : GpioOp) → GpioResp o) (call : Call)
  /-- A thread that sleeps in `gpio_read` goes on. -/
  | wake (c : ℕ) (answer : (o : GpioOp) → GpioResp o)
  /-- A thread has polled enough. -/
  | leave (c : ℕ)
  /-- An interrupt comes. -/
  | interrupt (answer : (o : GpioOp) → GpioResp o) (pin : Pin)

namespace Queues

variable (sys : Queues)

/-- The trace when a thread has run a function of the driver. -/
def logged {α : Type} (answer : (o : GpioOp) → GpioResp o) (c : ℕ) (p : Gpio α) : List Note :=
  (history (serve answer) p sys.system.kernel).foldl (log c) sys.trace

/-- A thread has run its part of `gpio_read` until the end, or until it sleeps. -/
def settle (c : ℕ) (f : File) (stage : Stage GpioOp GpioResp Fault ℤ Kernel) : Queues :=
  match stage.rest with
  | .call (.waitEvent pin) next =>
    { sys with
      system := { sys.system with kernel := stage.state }
      waiters := Function.update sys.waiters c
        (some { file := f, pin, rest := some (.call (.waitEvent pin) next) })
      trace := stage.events.foldl (log c) sys.trace ++ [.joined c pin] }
  | _ =>
    { sys with
      system := { sys.system with kernel := stage.state }
      trace := stage.events.foldl (log c) sys.trace }

/-- A thread is taken off the queue. -/
def drop (c : ℕ) : Queues :=
  { sys with
    waiters := Function.update sys.waiters c none
    trace := sys.trace ++ [.left c] }

/-- It happens. -/
def next (pullupdown : Bool) (sys : Queues) : Happening → Queues
  | .call c answer (.read f buf count) =>
    sys.settle c f (advance (serve answer) (waits answer) (gpioRead f buf count)
      sys.system.kernel)
  | .call c answer (.poll f) =>
    { sys with
      system := sys.system.step answer pullupdown (.poll f)
      waiters := Function.update sys.waiters c
        (some { file := f, pin := f.privateData, rest := none })
      trace := sys.logged answer c (gpioPoll f) }
  | .call c answer (.open gpionum nonblock writable) =>
    { sys with
      system := sys.system.step answer pullupdown (.open gpionum nonblock writable)
      trace := sys.logged answer c (gpioOpen gpionum) }
  | .call c answer (.ioctl f cmd arg) =>
    { sys with
      system := sys.system.step answer pullupdown (.ioctl f cmd arg)
      configured := (assigns answer sys.system (.ioctl f cmd arg)).toList ++ sys.configured
      trace := sys.logged answer c (gpioIoctl pullupdown f cmd arg) }
  | .call c answer (.write f buf count) =>
    { sys with
      system := sys.system.step answer pullupdown (.write f buf count)
      trace := sys.logged answer c (gpioWrite f buf count) }
  | .call c answer (.release f) =>
    { sys with
      system := sys.system.step answer pullupdown (.release f)
      trace := sys.logged answer c (gpioReleaseClose f) }
  | .wake c answer =>
    match sys.waiters c with
    | some { file, rest := some rest, .. } =>
      (sys.drop c).settle c file (advance (serve answer) (waits answer) rest sys.system.kernel)
    | _ => sys
  | .leave c => sys.drop c
  | .interrupt answer pin =>
    { sys with
      system := sys.system.run answer (gpioIrqHandler pin)
      trace := sys.logged answer 0 (gpioIrqHandler pin) }

/-- It can happen: a thread that is free calls the driver for an open file, and
the last `close` comes when nobody waits with the file; a thread that sleeps is
woken up when it need not wait any more; and the handler runs where it is
registered. -/
def Possible : Happening → Prop
  | .call c _ call => call.OnOpen sys.system ∧ sys.waiters c = none ∧
      ∀ f, call = .release f → ∀ c' w, sys.waiters c' = some w → w.file ≠ f
  | .wake c answer => ∃ w rest, sys.waiters c = some w ∧ w.rest = some rest ∧
      waits answer (.waitEvent w.pin) sys.system.kernel = false
  | .leave c => ∃ w, sys.waiters c = some w ∧ w.rest = none
  | .interrupt _ pin => ∃ irq, 0 < sys.system.kernel.held (.irq irq pin)

/-- It is proper: only a pin to which an interrupt has been assigned before is
polled, and an interrupt is assigned to a pin only when nobody waits for it. -/
def Proper : Happening → Prop
  | .call _ answer call =>
    (∀ f, call = .poll f → f.privateData ∈ sys.configured) ∧
      ∀ pin, assigns answer sys.system call = some pin →
        ∀ c w, sys.waiters c = some w → w.pin ≠ pin
  | _ => True

end Queues

/-- After `gpio_init`. -/
def Queues.loaded (answer : (o : GpioOp) → GpioResp o) (gpio_major : ℕ) : Queues :=
  { system := System.loaded answer gpio_major
    trace := (history (serve answer) (gpioInit gpio_major) {}).foldl (log 0) [] }

/-- A thread is registered on the queue of a pin. -/
def Waiting (trace : List Note) (c : ℕ) (pin : Pin) : Prop :=
  Since (fun n => n = .joined c pin) (fun n => n = .left c) trace

/-- The queue is used only after it has been initialised, and not initialised
while a thread is registered on it. -/
def Allowed (before : List Note) : Note → Prop
  | .initialised pin => ∀ c, ¬Waiting before c pin
  | .woken pin => .initialised pin ∈ before
  | .joined _ pin => .initialised pin ∈ before
  | .left _ => True

/-- The wait queues have always been ready. -/
def Ready (sys : Queues) : Prop := Always Allowed sys.trace

/-- An operation that has nothing to do with a queue. -/
def Apart : GpioOp → Prop
  | .initWaitqueueHead _ => False
  | .wakeUp _ => False
  | .pollWait _ => False
  | .waitEvent _ => False
  | _ => True

/-- An operation apart from the queues is not logged. -/
theorem log_apart (c : ℕ) {o : GpioOp} (ho : Apart o) : Unmoved (log c) o := by
  intro r trace
  cases o <;> first | rfl | exact absurd ho id

/-- Nor does it wait. -/
theorem waits_apart {answer : (o : GpioOp) → GpioResp o} {o : GpioOp} (ho : Apart o) (k : Kernel) :
    waits answer o k = false := by
  cases o <;> first | rfl | exact absurd ho id

/-- The log overlooks such operations. -/
theorem log_overlooks (c : ℕ) : Overlooks (log c) := by
  intro o ho
  refine log_apart c ?_
  cases o <;> trivial

section Programs

/-- The program has nothing to do with a queue. -/
def Aloof {α : Type} (p : Gpio α) : Prop := p.Sat Apart (fun _ => True) (fun _ => True)

variable {α β : Type} {p : Gpio α} {f : α → Gpio β}

/-- A call of the kernel apart from the queues. -/
theorem aloof_call (o : GpioOp) (ho : Apart o) : Aloof (kernelCall o) :=
  sat_perform ho fun _ => trivial

/-- No operation at all. -/
theorem aloof_return (a : α) : Aloof (pure a) := trivial

/-- One part after the other. -/
theorem Aloof.andThen (hp : Aloof p) (hf : ∀ a, Aloof (f a)) : Aloof (p >>= f) :=
  Prog.Sat.andThen hp fun a _ => hf a

/-- A record that is not there. -/
theorem aloof_orNoRecord (pin : Pin) (r : Option α) : Aloof (orNoRecord pin r) := by
  cases r <;> trivial

/-- Reading `dev_id` of the record. -/
theorem aloof_loadDevId (pin : Pin) : Aloof (loadDevId pin) :=
  (aloof_call (.devId pin) trivial).andThen fun r => aloof_orNoRecord pin r

/-- Reading `irqnum`. -/
theorem aloof_loadIrqnum (pin : Pin) : Aloof (loadIrqnum pin) :=
  (aloof_call (.irqnum pin) trivial).andThen fun r => aloof_orNoRecord pin r

/-- Writing `irqnum`. -/
theorem aloof_storeIrqnum (pin : Pin) (v : ℤ) : Aloof (storeIrqnum pin v) :=
  (aloof_call (.setIrqnum pin v) trivial).andThen fun r => aloof_orNoRecord pin r

/-- Writing `triggered`. -/
theorem aloof_storeTriggered (pin : Pin) (v : Bool) : Aloof (storeTriggered pin v) :=
  (aloof_call (.setTriggered pin v) trivial).andThen fun r => aloof_orNoRecord pin r

/-- Reading a character of the caller. -/
theorem aloof_loadUserChar (arg : ℕ) : Aloof (loadUserChar arg) :=
  (aloof_call (.userChar arg) trivial).andThen fun r => by cases r <;> trivial

/-- Giving the interrupt back. -/
theorem aloof_dropIrq (pin : Pin) : Aloof (dropIrq pin) := by
  refine (aloof_loadIrqnum pin).andThen fun v => ?_
  split
  · exact (aloof_loadIrqnum pin).andThen fun irq => (aloof_call (.freeIrq irq pin) trivial).andThen
      fun _ => aloof_storeIrqnum pin (-1)
  · exact aloof_return ()

/-- `GPIO_CONFIG_AS_IRQ` after the type has been read. -/
theorem aloof_askHandler (q : File) (b : UInt8) : Aloof (askHandler q b) := by
  unfold askHandler
  split
  · exact aloof_return _
  · refine (aloof_loadIrqnum q.privateData).andThen fun irq => (aloof_call (.requestIrq irq _
      q.privateData) trivial).andThen fun (retval : ℤ) => ?_
    split
    · exact (aloof_storeIrqnum q.privateData (-1)).andThen fun _ => aloof_return retval
    · exact aloof_return retval

/-- `GPIO_READ_PIN_VAL`. -/
theorem aloof_readPinVal (q : File) (arg : ℕ) : Aloof (readPinVal q arg) := by
  refine (aloof_call (.gpioGetValue q.gpionum) trivial).andThen fun v =>
    (aloof_storeTriggered q.privateData false).andThen fun _ =>
      (aloof_call (.copyToUser arg v) trivial).andThen fun (copied : Bool) => ?_
  split <;> exact aloof_return _

/-- Every other command of `gpio_ioctl`. -/
theorem aloof_gpioIoctl {cmd : BitVec 32} (hcmd : cmd ≠ gpioConfigAsIrq) (pullupdown : Bool)
    (q : File) (arg : ℕ) : Aloof (gpioIoctl pullupdown q cmd arg) := by
  unfold gpioIoctl
  split
  · exact aloof_return _
  · split
    · exact aloof_return _
    · refine (aloof_loadDevId q.privateData).andThen fun v => ?_
      split
      · exact aloof_return _
      · unfold ioctlSwitch
        split
        · exact (aloof_dropIrq _).andThen fun _ => aloof_call (.gpioDirectionInput q.gpionum) trivial
        · split
          · exact (aloof_dropIrq _).andThen fun _ => (aloof_call (.gpioGetValue _) trivial).andThen
              fun v => aloof_call (.gpioDirectionOutput q.gpionum v) trivial
          · split
            · exact aloof_readPinVal q arg
            · split
              · exact (aloof_loadUserChar arg).andThen fun b =>
                  (aloof_call (.gpioSetValue q.gpionum b) trivial).andThen fun _ => aloof_return 0
              · split
                · exact (aloof_call (.gpioSetPullupdown q.gpionum arg) trivial).andThen
                    fun _ => aloof_return 0
                · exact aloof_return _

/-- `gpio_open`. -/
theorem aloof_gpioOpen (gpionum : Pin) : Aloof (gpioOpen gpionum) := by
  refine (aloof_loadDevId gpionum).andThen fun v => ?_
  split
  · exact aloof_return _
  · refine (aloof_call (.gpioRequest gpionum) trivial).andThen fun (r : ℤ) => ?_
    split <;> exact aloof_return _

/-- `gpio_write`. -/
theorem aloof_gpioWrite (q : File) (buf count : ℕ) : Aloof (gpioWrite q buf count) := by
  refine (aloof_loadDevId q.privateData).andThen fun v => ?_
  split
  · exact aloof_return _
  · refine (aloof_call (.copyFromUser buf) trivial).andThen fun r => ?_
    split
    · exact aloof_return _
    · exact (aloof_call (.gpioSetValue q.gpionum _) trivial).andThen fun _ => aloof_return 1

/-- `gpio_release_close`. -/
theorem aloof_gpioReleaseClose (q : File) : Aloof (gpioReleaseClose q) := by
  refine (aloof_loadDevId q.privateData).andThen fun v => ?_
  split
  · exact aloof_return _
  · exact (aloof_dropIrq q.privateData).andThen fun _ => (aloof_call (.gpioFree q.gpionum) trivial).andThen
      fun _ => aloof_return 0

/-- Reading the pin for the caller. -/
theorem aloof_readValue (q : File) (buf : ℕ) : Aloof (readValue q buf) := by
  refine (aloof_call (.gpioGetValue q.gpionum) trivial).andThen fun v =>
    (aloof_call (.copyToUser buf v) trivial).andThen fun (copied : Bool) => ?_
  split <;> exact aloof_return _

/-- A list of such parts. -/
theorem aloof_mapList {γ : Type} {f : γ → Gpio α} (hf : ∀ c, Aloof (f c)) (cs : List γ) :
    Aloof (Prog.mapList f cs) :=
  (Prog.Sat.mapList fun c _ => hf c).mono (fun _ => id) (fun _ => id) fun _ _ => trivial

/-- `gpio_exit`. -/
theorem aloof_gpioExit (gpio_major : ℕ) : Aloof (gpioExit gpio_major) := by
  have hpin : ∀ i, Aloof (exitPin i) := by
    intro i
    refine (aloof_loadIrqnum i).andThen fun v => ?_
    split
    · exact (aloof_loadIrqnum i).andThen fun irq => (aloof_call (.freeIrq irq i) trivial).andThen
        fun _ => aloof_call .cdevDel trivial
    · exact aloof_call .cdevDel trivial
  refine (aloof_call .gpioDevice trivial).andThen fun (device : Bool) => ?_
  split
  · exact (aloof_mapList hpin _).andThen fun _ => (aloof_call .kfreeDevice trivial).andThen
      fun _ => aloof_call (.unregisterChrdevRegion gpio_major) trivial
  · exact aloof_call (.unregisterChrdevRegion gpio_major) trivial

/-- `gpio_init` does not initialise any queue. -/
theorem aloof_gpioInit (gpio_major : ℕ) : Aloof (gpioInit gpio_major) := by
  have hregion : Aloof (takeRegion gpio_major) := by
    unfold takeRegion
    split
    · exact (aloof_call (.registerChrdevRegion gpio_major) trivial).andThen fun r =>
        aloof_return (r, gpio_major)
    · exact aloof_call .allocChrdevRegion trivial
  have hfail : ∀ (e : ℤ) (major : ℕ),
      Aloof (gpioExit major >>= fun _ => (return (e, major) : Gpio (ℤ × ℕ))) :=
    fun e major => (aloof_gpioExit major).andThen fun _ => aloof_return (e, major)
  have hpin : ∀ i, Aloof (initPin i) := fun i => (aloof_call (.setDevId i i.val) trivial).andThen fun r =>
    (aloof_orNoRecord i r).andThen fun _ => aloof_storeIrqnum i (-1)
  refine hregion.andThen fun r => ?_
  dsimp only
  split
  · exact aloof_return _
  · refine (aloof_call .kzallocDevice trivial).andThen fun (device : Bool) => ?_
    split
    · exact hfail _ _
    · refine (aloof_call .kzallocPins trivial).andThen fun (pins : Bool) => ?_
      split
      · exact hfail _ _
      · refine (aloof_call .cdevAdd trivial).andThen fun (cdev : ℤ) => ?_
        split
        · exact hfail _ _
        · exact (aloof_mapList hpin _).andThen fun _ => aloof_return _

end Programs

/-- What is left of `gpio_read`: it clears the flag at most, and the only queue
that it uses is that of its pin. -/
def Reading (pin : Pin) (p : Gpio ℤ) : Prop :=
  p.Sat (fun o => Calm pin o ∧ (Apart o ∨ o = .waitEvent pin)) (fun _ => True ∧ True)
    (fun _ => True ∧ True)

section Reads

variable {answer : (o : GpioOp) → GpioResp o} {k : Kernel} {g : Pin → GpioConf} {f : File}
  {buf count : ℕ}

/-- `gpio_read` waits on the queue of its pin only. -/
theorem reading_gpioRead (f : File) (buf count : ℕ) :
    Reading f.privateData (gpioRead f buf count) := by
  refine Prog.Sat.and (sat_gpioRead f buf count) ?_
  have hwide : ∀ {α : Type} {p : Gpio α}, Aloof p →
      p.Sat (fun o => Apart o ∨ o = .waitEvent f.privateData) (fun _ => True) (fun _ => True) :=
    fun hp => Prog.Sat.mono hp (fun _ => .inl) (fun _ => id) fun _ => id
  have hawait : (awaitEvent f).Sat (fun o => Apart o ∨ o = .waitEvent f.privateData)
      (fun _ => True) (fun _ => True) := by
    unfold awaitEvent
    split
    · trivial
    · exact (sat_perform (.inr rfl) fun _ => trivial).andThen fun _ _ =>
        hwide (aloof_call .signalPending trivial)
  refine (hwide (aloof_loadDevId _)).andThen fun v _ => ?_
  split
  · trivial
  · refine (hwide (aloof_loadIrqnum _)).andThen fun irq _ => ?_
    split
    · refine hawait.andThen fun (signal : Bool) _ => ?_
      split
      · trivial
      · exact (hwide (aloof_storeTriggered _ false)).andThen fun _ _ =>
          hwide (aloof_readValue f buf)
    · exact hwide (aloof_readValue f buf)

/-- `gpio_read` waits only for a pin with an interrupt. -/
theorem gpioRead_waits (hk : k.gpio = some g) {o : GpioOp} {next : GpioResp o → Gpio ℤ}
    (hrest : (advance (serve answer) (waits answer) (gpioRead f buf count) k).rest = .call o next) :
    0 ≤ (g f.privateData).irqnum := by
  have hnever : ∀ o k, Apart o → waits answer o k = false := fun o k ho => waits_apart ho k
  by_contra hirq
  unfold gpioRead at hrest
  rw [advance_andThen (aloof_loadDevId f.privateData) hnever (loadDevId_ends f.privateData hk)]
    at hrest
  split at hrest
  · cases hrest
  · rw [advance_andThen (aloof_loadIrqnum f.privateData) hnever
      (loadIrqnum_ends f.privateData hk), if_neg hirq] at hrest
    exact advance_ended (aloof_readValue f buf) hnever k hrest

/-- A read that does not have to wait is the call that it was. -/
theorem read_at_once (sys : Queues) (c : ℕ) (pullupdown : Bool) {v : ℤ}
    (hret : (advance (serve answer) (waits answer) (gpioRead f buf count)
      sys.system.kernel).rest = .ret v) :
    (sys.next pullupdown (.call c answer (.read f buf count))).system =
        sys.system.step answer pullupdown (.read f buf count) ∧
      (sys.next pullupdown (.call c answer (.read f buf count))).trace =
        sys.logged answer c (gpioRead f buf count) := by
  obtain ⟨⟨-, hstate⟩, hevents⟩ := advance_returns hret
  dsimp only [Queues.next, Queues.settle, Queues.logged, System.step, System.run]
  rw [hret]
  dsimp only
  rw [hstate, hevents]
  exact ⟨rfl, rfl⟩

end Reads

section Logs

variable {sys : Queues} {answer : (o : GpioOp) → GpioResp o} {c : ℕ} {S : Pin → Prop}
  {g : Pin → GpioConf} {f : File}

/-- A program that has nothing to do with a queue leaves no note. -/
theorem foldl_log_aloof {es : List (Event GpioOp GpioResp)} (hes : ∀ e ∈ es, Apart e.1)
    (trace : List Note) : es.foldl (log c) trace = trace :=
  foldl_unmoved fun e he => log_apart c (hes e he) e.2 trace

/-- Such a part leaves the notes alone. -/
theorem logged_aloof {α : Type} {p : Gpio α} (hp : Aloof p) : sys.logged answer c p = sys.trace :=
  foldl_log_aloof (history_sat hp _) _

/-- `gpio_poll` registers the thread. -/
theorem logged_poll : sys.logged answer c (gpioPoll f) = sys.trace ++ [.joined c f.privateData] := by
  have hrest : ∀ r, Aloof (orNoRecord f.privateData r >>= fun (set : Bool) =>
      if set then (return ((if f.writable then pollOut else 0) ||| pollRd : ℕ) : Gpio ℤ)
      else return ((if f.writable then pollOut else 0 : ℕ) : ℤ)) := fun r =>
    (aloof_orNoRecord f.privateData r).andThen fun set => by split <;> exact aloof_return _
  exact foldl_log_aloof (history_sat ((aloof_call (.triggered f.privateData) trivial).andThen hrest) _) _

/-- `gpio_irq_handler` wakes up the queue. -/
theorem logged_handler (hk : sys.system.kernel.gpio = some g) (pin : Pin) :
    sys.logged answer c (gpioIrqHandler pin) = sys.trace ++ [.woken pin] := by
  unfold Queues.logged gpioIrqHandler
  rw [history_andThen (storeTriggered_ends pin hk true), List.foldl_append]
  have hstore : (history (serve answer) (storeTriggered pin true) sys.system.kernel).foldl (log c)
      sys.trace = sys.trace :=
    foldl_log_aloof (history_sat (aloof_storeTriggered pin true) _) _
  rw [hstore]
  rfl

/-- Which pin gets an interrupt, with the records. -/
theorem assigns_ioctl (hk : sys.system.kernel.gpio = some g) (cmd : BitVec 32) (arg : ℕ) :
    assigns answer sys.system (.ioctl f cmd arg) =
      if cmd = gpioConfigAsIrq ∧ (g f.privateData).irqnum < 0 ∧
        0 ≤ answer (.gpioToIrq f.gpionum) then some f.privateData else none := by
  have hirqnum : System.irqnum sys.system f.privateData = some (g f.privateData).irqnum := by
    rw [System.irqnum, hk]
    rfl
  simp only [assigns, hirqnum, Option.any_some, decide_eq_true_eq]

/-- `gpio_ioctl` initialises the queue of a pin exactly when it assigns an
interrupt to it. -/
theorem logged_ioctl (hrec : Recorded S sys.system.kernel g) (hown : f.privateData = f.gpionum)
    (pullupdown : Bool) (cmd : BitVec 32) (arg : ℕ) :
    sys.logged answer c (gpioIoctl pullupdown f cmd arg) =
      sys.trace ++ (assigns answer sys.system (.ioctl f cmd arg)).toList.map .initialised := by
  rw [assigns_ioctl hrec.records]
  by_cases hcmd : cmd = gpioConfigAsIrq
  · have hid : (f.gpionum.val : ℤ) = (g f.privateData).dev_id :=
      hown ▸ (hrec.dev_id f.privateData).symm
    rw [hcmd]
    by_cases hirq : (g f.privateData).irqnum < 0
    · by_cases hto : 0 ≤ answer (.gpioToIrq f.gpionum)
      · rw [if_pos ⟨rfl, hirq, hto⟩]
        have hrest : Aloof (loadUserChar arg >>= askHandler f) :=
          (aloof_loadUserChar arg).andThen fun b => aloof_askHandler f b
        exact (gpioIoctl_tells (log_overlooks c) hrec.records hid pullupdown
          (configAsIrq_asks (log_overlooks c) hrec.records hirq hto
            (tells_of_sat ⟨rfl, rfl⟩ hrest (fun _ => log_apart c) _))).2
      · rw [if_neg fun h => hto h.2.2]
        refine Eq.trans ?_ (List.append_nil sys.trace).symm
        exact (gpioIoctl_tells (log_overlooks c) hrec.records hid pullupdown
          (configAsIrq_without (log_overlooks c) hrec.records hirq (Int.not_le.mp hto) rfl)).2
    · rw [if_neg fun h => hirq h.2.1]
      refine Eq.trans ?_ (List.append_nil sys.trace).symm
      exact (gpioIoctl_tells (log_overlooks c) hrec.records hid pullupdown
        (configAsIrq_present (log_overlooks c) hrec.records (Int.not_lt.mp hirq) sys.trace)).2
  · rw [if_neg fun h => hcmd h.1, logged_aloof (aloof_gpioIoctl hcmd pullupdown f arg)]
    exact (List.append_nil _).symm

end Logs

/-- What is kept by proper events. -/
structure Tended (sys : Queues) : Prop where
  /-- The records and the files; interrupts are assigned to these pins only. -/
  standing : Standing (fun pin => pin ∈ sys.configured) sys.system
  /-- The queues of these pins have been initialised. -/
  initialised : ∀ pin, .initialised pin ∈ sys.trace ↔ pin ∈ sys.configured
  /-- The threads are registered as noted. -/
  waiting : ∀ c pin, Waiting sys.trace c pin ↔ ∃ w, sys.waiters c = some w ∧ w.pin = pin
  /-- Only a queue that has been initialised is waited for. -/
  prepared : ∀ c w, sys.waiters c = some w → w.pin ∈ sys.configured
  /-- What is left of a read. -/
  rests : ∀ c w rest, sys.waiters c = some w → w.rest = some rest → Reading w.pin rest
  /-- The queues have always been ready. -/
  ready : Ready sys

/-- A caller waits from joining a queue to leaving it. -/
theorem waiting_snoc {trace : List Note} {n : Note} {c : ℕ} {pin : Pin} :
    Waiting (trace ++ [n]) c pin ↔ n = .joined c pin ∨ Waiting trace c pin ∧ n ≠ .left c :=
  since_snoc

section Steps

variable {sys : Queues} {answer : (o : GpioOp) → GpioResp o} {c : ℕ} {pullupdown : Bool}

/-- Nothing happens to the queues. -/
theorem Tended.aside (h : Tended sys) {system : System}
    (hst : Standing (fun pin => pin ∈ sys.configured) system) : Tended { sys with system } :=
  ⟨hst, h.initialised, h.waiting, h.prepared, h.rests, h.ready⟩

/-- A thread is registered on a queue that has been initialised. -/
theorem Tended.join (h : Tended sys) (hfree : sys.waiters c = none) {w : Waiter}
    (hpin : w.pin ∈ sys.configured) (hrest : ∀ rest, w.rest = some rest → Reading w.pin rest) :
    Tended { sys with waiters := Function.update sys.waiters c (some w)
                      trace := sys.trace ++ [.joined c w.pin] } := by
  refine ⟨h.standing, fun pin => ?_, fun c' pin => ?_, fun c' w' hw' => ?_,
    fun c' w' rest hw' => ?_, always_snoc.mpr ⟨h.ready, (h.initialised _).mpr hpin⟩⟩
  · rw [← h.initialised, List.mem_append, List.mem_singleton]
    exact or_iff_left nofun
  · rw [waiting_snoc, h.waiting]
    dsimp only
    by_cases hc : c' = c
    · rw [hc, Function.update_self, hfree]
      constructor
      · rintro (hnew | ⟨⟨w', hw', -⟩, -⟩)
        · exact ⟨w, rfl, (Note.joined.inj hnew).2⟩
        · cases hw'
      · rintro ⟨w', hw', hpin'⟩
        rw [← hpin', ← Option.some.inj hw']
        exact .inl rfl
    · rw [Function.update_of_ne hc]
      constructor
      · rintro (hnew | ⟨hold, -⟩)
        · exact absurd (Note.joined.inj hnew).1.symm hc
        · exact hold
      · exact fun hold => .inr ⟨hold, nofun⟩
  · dsimp only at hw'
    by_cases hc : c' = c
    · rw [hc, Function.update_self] at hw'
      exact Option.some.inj hw' ▸ hpin
    · rw [Function.update_of_ne hc] at hw'
      exact h.prepared c' w' hw'
  · dsimp only at hw'
    by_cases hc : c' = c
    · rw [hc, Function.update_self] at hw'
      exact Option.some.inj hw' ▸ hrest rest
    · rw [Function.update_of_ne hc] at hw'
      exact h.rests c' w' rest hw'

/-- A thread is taken off the queue. -/
theorem Tended.drop (h : Tended sys) (c : ℕ) : Tended (sys.drop c) := by
  have hkept : ∀ c' w, (sys.drop c).waiters c' = some w → sys.waiters c' = some w := by
    intro c' w hw
    dsimp only [Queues.drop] at hw
    by_cases hc : c' = c
    · rw [hc, Function.update_self] at hw
      cases hw
    · rwa [Function.update_of_ne hc] at hw
  refine ⟨h.standing, fun pin => ?_, fun c' pin => ?_, fun c' w hw => h.prepared c' w (hkept c' w hw),
    fun c' w rest hw => h.rests c' w rest (hkept c' w hw), always_snoc.mpr ⟨h.ready, trivial⟩⟩
  · dsimp only [Queues.drop]
    rw [← h.initialised, List.mem_append, List.mem_singleton]
    exact or_iff_left nofun
  · dsimp only [Queues.drop]
    rw [waiting_snoc, h.waiting]
    by_cases hc : c' = c
    · rw [hc, Function.update_self]
      constructor
      · rintro (hno | ⟨-, hleft⟩)
        · cases hno
        · exact absurd rfl hleft
      · rintro ⟨w, hw, -⟩
        cases hw
    · rw [Function.update_of_ne hc]
      constructor
      · rintro (hno | ⟨hold, -⟩)
        · cases hno
        · exact hold
      · exact fun hold => .inr ⟨hold, fun hleft => hc (Note.left.inj hleft).symm⟩

/-- A part of `gpio_read` by a thread that is free, where the queue that it may
wait for has been initialised. -/
theorem Tended.settle (h : Tended sys) (hfree : sys.waiters c = none) {f : File} {pin : Pin}
    {stage : Stage GpioOp GpioResp Fault ℤ Kernel}
    (hrecords : ∃ g, Recorded (fun pin => pin ∈ sys.configured) stage.state g)
    (hevents : ∀ e ∈ stage.events, Calm pin e.1 ∧ (Apart e.1 ∨ e.1 = .waitEvent pin))
    (hrest : Reading pin stage.rest)
    (hpin : ∀ o next, stage.rest = .call o next → pin ∈ sys.configured) :
    Tended (sys.settle c f stage) := by
  have htrace : stage.events.foldl (log c) sys.trace = sys.trace := by
    refine foldl_unmoved fun e he => ?_
    rcases (hevents e he).2 with hapart | hwait
    · exact log_apart c hapart e.2 _
    · obtain ⟨o, r⟩ := e
      subst hwait
      rfl
  have hquiet : Tended { sys with system := { sys.system with kernel := stage.state } } :=
    h.aside ⟨hrecords, h.standing.own⟩
  unfold Queues.settle
  rw [htrace]
  split
  · rename_i pin' next hwaits
    have hmem := hpin _ _ hwaits
    rw [hwaits] at hrest
    have hsame : pin' = pin := hrest.1.2.elim (fun hapart => absurd hapart id) GpioOp.waitEvent.inj
    subst hsame
    exact hquiet.join (w := { file := f, pin := pin', rest := some (.call (.waitEvent pin') next) })
      hfree hmem fun rest hsome => Option.some.inj hsome ▸ hrest
  · exact hquiet

/-- The part of `gpio_read` that a thread runs next. -/
theorem Tended.reads (h : Tended sys) (hfree : sys.waiters c = none) {f : File} {pin : Pin}
    {p : Gpio ℤ} (hp : Reading pin p)
    (hpin : ∀ o next, (advance (serve answer) (waits answer) p sys.system.kernel).rest =
      .call o next → pin ∈ sys.configured) :
    Tended (sys.settle c f (advance (serve answer) (waits answer) p sys.system.kernel)) := by
  obtain ⟨g, hrec⟩ := h.standing.records
  have hrecords : ∃ g', Recorded (fun pin => pin ∈ sys.configured)
      (advance (serve answer) (waits answer) p sys.system.kernel).state g' :=
    advance_keeps (I := fun k => ∃ g', Recorded (fun pin => pin ∈ sys.configured) k g') hp
      (fun _ _ ho ⟨_, hrec'⟩ => hrec'.mild (mild_of_calm ho.1)) ⟨g, hrec⟩
  exact h.settle hfree hrecords (advance_sat hp _).1 (advance_sat hp _).2 hpin

/-- An interrupt is assigned by this call alone, and to a pin that is then known. -/
theorem standing_of_call (h : Tended sys) (call : Call) :
    Standing (fun pin => pin ∈ (assigns answer sys.system call).toList ++ sys.configured)
      (sys.system.step answer pullupdown call) := by
  obtain ⟨g, hrec⟩ := h.standing.records
  have hwide : Standing (fun pin => pin ∈ (assigns answer sys.system call).toList ++
      sys.configured) sys.system :=
    ⟨⟨g, hrec.mono fun pin => List.mem_append_right _⟩, h.standing.own⟩
  refine hwide.step call fun f arg irqnum hcall hirqnum hneg hto => List.mem_append_left _ ?_
  rw [System.irqnum, hrec.records] at hirqnum
  have hsame : (g f.privateData).irqnum = irqnum := Option.some.inj hirqnum
  have hirq : (g f.privateData).irqnum < 0 := hsame ▸ hneg
  rw [hcall, assigns_ioctl hrec.records, if_pos ⟨rfl, hirq, hto⟩]
  exact List.mem_singleton_self _

/-- A call that uses no queue. -/
theorem Tended.apart (h : Tended sys) {call : Call} (hnone : assigns answer sys.system call = none)
    {α : Type} {p : Gpio α} (hp : Aloof p) :
    Tended { sys with system := sys.system.step answer pullupdown call
                      trace := sys.logged answer c p } := by
  have hst := @standing_of_call sys answer pullupdown h call
  rw [hnone] at hst
  rw [logged_aloof hp]
  exact h.aside hst

/-- `gpio_ioctl`: the queue is initialised when nobody waits on it. -/
theorem Tended.ioctl (h : Tended sys) {f : File} {cmd : BitVec 32} {arg : ℕ}
    (hfile : f ∈ sys.system.files)
    (hproper : ∀ pin, assigns answer sys.system (.ioctl f cmd arg) = some pin →
      ∀ c w, sys.waiters c = some w → w.pin ≠ pin) :
    Tended (sys.next pullupdown (.call c answer (.ioctl f cmd arg))) := by
  obtain ⟨g, hrec⟩ := h.standing.records
  have hst := @standing_of_call sys answer pullupdown h (.ioctl f cmd arg)
  have hlog := @logged_ioctl sys answer c _ g f hrec (h.standing.own f hfile) pullupdown cmd arg
  dsimp only [Queues.next]
  rw [hlog]
  cases hassigns : assigns answer sys.system (.ioctl f cmd arg) with
  | none =>
    rw [hassigns] at hst
    have hquiet := h.aside hst
    simp only [Option.toList_none, List.map_nil, List.append_nil, List.nil_append]
    exact hquiet
  | some pin =>
    rw [hassigns] at hst
    simp only [Option.toList_some, List.map_cons, List.map_nil, List.singleton_append] at hst ⊢
    refine ⟨hst, fun pin' => ?_, fun c' pin' => ?_, fun c' w hw => List.mem_cons_of_mem _
      (h.prepared c' w hw), h.rests, always_snoc.mpr ⟨h.ready, fun c' hwait => ?_⟩⟩
    · rw [List.mem_append, List.mem_singleton, h.initialised, List.mem_cons, or_comm]
      exact or_congr_left ⟨Note.initialised.inj, congrArg Note.initialised⟩
    · rw [waiting_snoc, h.waiting]
      constructor
      · rintro (hno | ⟨hold, -⟩)
        · cases hno
        · exact hold
      · exact fun hold => .inr ⟨hold, nofun⟩
    · obtain ⟨w, hw, hpin⟩ := (h.waiting c' pin).mp hwait
      exact hproper pin hassigns c' w hw hpin

/-- `gpio_poll` for a pin whose queue has been initialised. -/
theorem Tended.poll (h : Tended sys) (hfree : sys.waiters c = none) {f : File}
    (hproper : f.privateData ∈ sys.configured) :
    Tended (sys.next pullupdown (.call c answer (.poll f))) := by
  have hst := @standing_of_call sys answer pullupdown h (.poll f)
  dsimp only [Queues.next]
  rw [logged_poll]
  have hquiet : Tended { sys with system := sys.system.step answer pullupdown (.poll f) } :=
    h.aside hst
  exact hquiet.join (w := { file := f, pin := f.privateData, rest := none }) hfree hproper nofun

/-- The interrupt handler: where it is registered, an interrupt has been
assigned. -/
theorem Tended.interrupt (h : Tended sys) {pin : Pin}
    (hheld : ∃ irq, 0 < sys.system.kernel.held (.irq irq pin)) :
    Tended (sys.next pullupdown (.interrupt answer pin)) := by
  obtain ⟨g, hrec⟩ := h.standing.records
  obtain ⟨irq, hpos⟩ := hheld
  have hle := hrec.irqs pin irq
  have hirq : (g pin).irqnum = irq ∧ 0 ≤ irq := by
    by_contra hno
    rw [if_neg hno] at hle
    omega
  have hmem : pin ∈ sys.configured :=
    ((hrec.irqnum pin).resolve_left fun hnone => by omega).2
  dsimp only [Queues.next]
  rw [logged_handler hrec.records]
  refine ⟨h.standing.handler pin, fun pin' => ?_, fun c' pin' => ?_, h.prepared, h.rests,
    always_snoc.mpr ⟨h.ready, (h.initialised pin).mpr hmem⟩⟩
  · rw [← h.initialised, List.mem_append, List.mem_singleton]
    exact or_iff_left nofun
  · rw [waiting_snoc, h.waiting]
    constructor
    · rintro (hno | ⟨hold, -⟩)
      · cases hno
      · exact hold
    · exact fun hold => .inr ⟨hold, nofun⟩

/-- Every event that is proper. -/
theorem Tended.next (h : Tended sys) {e : Happening} (hpossible : sys.Possible e)
    (hproper : sys.Proper e) : Tended (sys.next pullupdown e) := by
  cases e with
  | call c answer call =>
    obtain ⟨hopen, hfree, -⟩ := hpossible
    cases call with
    | «open» gpionum nonblock writable => exact h.apart rfl (aloof_gpioOpen gpionum)
    | ioctl f cmd arg => exact h.ioctl hopen hproper.2
    | read f buf count =>
      obtain ⟨g, hrec⟩ := h.standing.records
      refine h.reads hfree (reading_gpioRead f buf count) fun o next hrest => ?_
      have hirq := gpioRead_waits hrec.records hrest
      exact ((hrec.irqnum f.privateData).resolve_left fun hnone => by omega).2
    | write f buf count => exact h.apart rfl (aloof_gpioWrite f buf count)
    | poll f => exact h.poll hfree (hproper.1 f rfl)
    | release f => exact h.apart rfl (aloof_gpioReleaseClose f)
  | wake c answer =>
    obtain ⟨w, rest, hw, hrest, -⟩ := hpossible
    obtain ⟨file, pin, left⟩ := w
    dsimp only at hrest
    subst hrest
    dsimp only [Queues.next]
    rw [hw]
    exact (h.drop c).reads (Function.update_self ..) (h.rests c _ rest hw rfl)
      fun _ _ _ => h.prepared c _ hw
  | leave c => exact h.drop c
  | interrupt answer pin => exact h.interrupt hpossible

/-- Any other event that can happen spoils it: the queue is used or initialised
when it is not allowed. -/
theorem Tended.spoiled (h : Tended sys) {e : Happening} (hpossible : sys.Possible e)
    (hproper : ¬sys.Proper e) : ¬Ready (sys.next pullupdown e) := by
  cases e with
  | call c answer call =>
    by_cases hpoll : ∀ f, call = .poll f → f.privateData ∈ sys.configured
    · have hassign : ¬∀ pin, assigns answer sys.system call = some pin →
          ∀ c w, sys.waiters c = some w → w.pin ≠ pin := fun hall => hproper ⟨hpoll, hall⟩
      simp only [not_forall, not_not] at hassign
      obtain ⟨pin, hpin, c', w, hw, hwpin⟩ := hassign
      cases call with
      | ioctl f cmd arg =>
        obtain ⟨g, hrec⟩ := h.standing.records
        have hown := h.standing.own f hpossible.1
        intro hready
        dsimp only [Ready, Queues.next] at hready
        rw [logged_ioctl hrec hown, hpin] at hready
        exact (always_snoc.mp hready).2 c' ((h.waiting c' pin).mpr ⟨w, hw, hwpin⟩)
      | _ => cases hpin
    · simp only [not_forall] at hpoll
      obtain ⟨f, rfl, hunknown⟩ := hpoll
      intro hready
      dsimp only [Ready, Queues.next] at hready
      rw [logged_poll] at hready
      exact hunknown ((h.initialised _).mp (always_snoc.mp hready).2)
  | wake c answer => exact absurd trivial hproper
  | leave c => exact absurd trivial hproper
  | interrupt answer pin => exact absurd trivial hproper

/-- Notes are only added. -/
theorem foldl_log_extends (c : ℕ) (es : List (Event GpioOp GpioResp)) (trace : List Note) :
    ∃ more, es.foldl (log c) trace = trace ++ more := by
  induction es generalizing trace with
  | nil => exact ⟨[], (List.append_nil trace).symm⟩
  | cons e es ih =>
    have hnote : ∃ notes, log c trace e = trace ++ notes := by
      unfold log
      split <;> first | exact ⟨_, rfl⟩ | exact ⟨[], (List.append_nil trace).symm⟩
    obtain ⟨notes, hnotes⟩ := hnote
    obtain ⟨more, hmore⟩ := ih (log c trace e)
    refine ⟨notes ++ more, ?_⟩
    rw [List.foldl_cons, hmore, hnotes, List.append_assoc]

/-- Notes are only added. -/
theorem settle_extends (sys : Queues) (c : ℕ) (f : File)
    (stage : Stage GpioOp GpioResp Fault ℤ Kernel) :
    ∃ more, (sys.settle c f stage).trace = sys.trace ++ more := by
  obtain ⟨more, hmore⟩ := foldl_log_extends c stage.events sys.trace
  unfold Queues.settle
  split
  · rename_i pin next hrest
    refine ⟨more ++ [.joined c pin], ?_⟩
    dsimp only
    rw [hmore, List.append_assoc]
  · exact ⟨more, hmore⟩

/-- An event only adds notes. -/
theorem next_extends (sys : Queues) (e : Happening) :
    ∃ more, (sys.next pullupdown e).trace = sys.trace ++ more := by
  cases e with
  | call c answer call =>
    cases call with
    | read f buf count => exact settle_extends sys c f _
    | _ => exact foldl_log_extends c _ sys.trace
  | wake c answer =>
    dsimp only [Queues.next]
    split
    · obtain ⟨more, hmore⟩ := settle_extends (sys.drop c) c _ _
      refine ⟨.left c :: more, hmore.trans ?_⟩
      dsimp only [Queues.drop]
      rw [List.append_assoc]
      rfl
    · exact ⟨[], (List.append_nil _).symm⟩
  | leave c => exact ⟨[.left c], rfl⟩
  | interrupt answer pin => exact foldl_log_extends 0 _ sys.trace

/-- What has not been ready once stays so. -/
theorem not_ready_next {e : Happening} (hnot : ¬Ready sys) : ¬Ready (sys.next pullupdown e) := by
  obtain ⟨more, hmore⟩ := @next_extends pullupdown sys e
  intro hready
  rw [Ready, hmore] at hready
  exact hnot hready.front

/-- After a success of `gpio_init`. -/
theorem tended_loaded {gpio_major major : ℕ}
    (hinit : initOutcome answer gpio_major = .ret (0, major)) :
    Tended (Queues.loaded answer gpio_major) := by
  have htrace : (Queues.loaded answer gpio_major).trace = [] :=
    foldl_log_aloof (history_sat (aloof_gpioInit gpio_major) _) []
  refine ⟨standing_loaded hinit _, fun pin => ?_, fun c pin => ?_, nofun, nofun, ?_⟩
  · rw [htrace]
    exact ⟨fun hmem => absurd hmem List.not_mem_nil, fun hmem => absurd hmem List.not_mem_nil⟩
  · rw [htrace]
    refine ⟨fun hwait => absurd hwait not_since_nil, ?_⟩
    rintro ⟨w, hw, -⟩
    cases hw
  · rw [Ready, htrace]
    exact always_nil

end Steps

/-- In every sequence of calls and interrupts after `gpio_init` the wait queues
are ready whenever they are used, and not initialised while a thread is
registered on them, exactly when each event is proper. -/
theorem queues_ready_iff {answer : (o : GpioOp) → GpioResp o} {gpio_major major : ℕ}
    {pullupdown : Bool} {es : List Happening}
    (hinit : initOutcome answer gpio_major = .ret (0, major))
    (hes : Along (Queues.next pullupdown) Queues.Possible (Queues.loaded answer gpio_major) es) :
    Ready (es.foldl (Queues.next pullupdown) (Queues.loaded answer gpio_major)) ↔
      Along (Queues.next pullupdown) Queues.Proper (Queues.loaded answer gpio_major) es :=
  run_iff (I := Tended) (fun _ h => h.ready) (fun _ _ h hpossible hproper => h.next hpossible hproper)
    (fun _ _ h hpossible hproper => h.spoiled hpossible hproper)
    (fun _ _ hnot => not_ready_next hnot) (tended_loaded hinit) hes

/-- The first pin is opened. -/
def opens : Happening := .call 0 (granting 0) (.open firstPin false true)

/-- It is configured as an interrupt. -/
def configures : Happening := .call 0 (granting 0) (.ioctl firstFile gpioConfigAsIrq 0)

/-- It is polled by another thread. -/
def polls : Happening := .call 1 (granting 0) (.poll firstFile)

section Opened

variable {sys : Queues} (hfree : ∀ c, sys.waiters c = none)

include hfree

theorem possible_configures_polls (hfile : firstFile ∈ sys.system.files) :
    Along (Queues.next false) Queues.Possible sys [configures, polls] :=
  ⟨⟨hfile, hfree 0, nofun⟩, ⟨hfile, hfree 1, nofun⟩, trivial⟩

/-- A pin that has been configured can be polled. -/
theorem proper_configures_polls (hirqnum : System.irqnum sys.system firstPin = some (-1)) :
    Along (Queues.next false) Queues.Proper sys [configures, polls] := by
  have hassigns : assigns (granting 0) sys.system (.ioctl firstFile gpioConfigAsIrq 0) =
      some firstPin := by
    have hpin : System.irqnum sys.system firstFile.privateData = some (-1) := hirqnum
    rw [assigns, hpin]
    rfl
  refine ⟨⟨nofun, fun pin _ c w hw => ?_⟩, ⟨fun f hf => ?_, nofun⟩, trivial⟩
  · rw [hfree c] at hw
    cases hw
  · have hconfigured : firstPin ∈ (assigns (granting 0) sys.system
        (.ioctl firstFile gpioConfigAsIrq 0)).toList ++ sys.configured := by
      rw [hassigns]
      exact List.mem_cons_self ..
    rw [← Call.poll.inj hf]
    exact hconfigured

end Opened

/-- The first pin is in use. -/
def firstQueues : Queues := (Queues.loaded (granting 0) 240).next false opens

theorem firstQueues_file : firstFile ∈ firstQueues.system.files := by
  have hfiles : firstQueues.system.files = [firstFile] := (firstOpened_state 0).1
  rw [hfiles]
  exact List.mem_singleton_self _

/-- The pin is configured before it is polled. -/
theorem queues_ready_configured :
    Ready ([opens, configures, polls].foldl (Queues.next false)
      (Queues.loaded (granting 0) 240)) := by
  have hirqnum : System.irqnum firstQueues.system firstPin = some (-1) := (firstOpened_state 0).2
  have hfree : ∀ c, firstQueues.waiters c = none := fun _ => rfl
  refine (queues_ready_iff (granting_loads 0) ?_).mpr ?_
  · exact ⟨⟨trivial, rfl, nofun⟩, possible_configures_polls hfree firstQueues_file⟩
  · exact ⟨⟨nofun, nofun⟩, proper_configures_polls hfree hirqnum⟩

/-- The pin is polled as soon as it has been opened. -/
theorem queues_not_ready :
    initOutcome (granting 0) 240 = .ret (0, 240) ∧
      Along (Queues.next false) Queues.Possible (Queues.loaded (granting 0) 240) [opens, polls] ∧
      ¬Ready ([opens, polls].foldl (Queues.next false) (Queues.loaded (granting 0) 240)) := by
  have hpossible : firstQueues.Possible polls := ⟨firstQueues_file, rfl, nofun⟩
  have hopened : Tended firstQueues :=
    (tended_loaded (granting_loads 0)).next ⟨trivial, rfl, nofun⟩ ⟨nofun, nofun⟩
  have hnone : firstQueues.configured = [] := rfl
  have hspoiled : ¬Ready (firstQueues.next false polls) := by
    refine hopened.spoiled hpossible fun hproper => ?_
    have hknown := hproper.1 firstFile rfl
    rw [hnone] at hknown
    exact absurd hknown List.not_mem_nil
  exact ⟨granting_loads 0, ⟨⟨trivial, rfl, nofun⟩, hpossible, trivial⟩, hspoiled⟩

end MetaDigi.GpioQueues
