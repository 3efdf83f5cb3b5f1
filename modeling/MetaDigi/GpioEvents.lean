import MetaDigi.GpioKernel
import MetaDigi.SystemThreads

/-!
# Events of the GPIO driver

The interrupt handler of a pin runs side by side with any number of calls that
read the pin or poll it. An observer notes when the handler has set the flag
and when the pin is sampled. An event is not to be lost: the flag is set as
long as the pin has not been sampled since the handler ran. Only
`GPIO_READ_PIN_VAL` can lose one, because it samples the pin before it clears
the flag.
-/

namespace MetaDigi.GpioEvents

open SystemProgram SystemRuns SystemThreads GpioDriver GpioKernel

/-- What is called. -/
inductive EventCall where
  /-- `gpio_irq_handler`. -/
  | irqHandler
  /-- `gpio_read`. -/
  | read (f : File) (buf count : ℕ)
  /-- `gpio_poll`. -/
  | poll (f : File)
  /-- `gpio_ioctl` with `GPIO_READ_PIN_VAL`. -/
  | readPinVal (f : File) (arg : ℕ)

/-- The operations of a call. -/
def EventCall.program (pullupdown : Bool) (pin : Pin) : EventCall → Gpio ℤ
  | .irqHandler => gpioIrqHandler pin
  | .read f buf count => gpioRead f buf count
  | .poll f => gpioPoll f
  | .readPinVal f arg => gpioIoctl pullupdown f gpioReadPinVal arg

/-- The file is one of this pin. -/
def EventCall.OnPin (pin : Pin) : EventCall → Prop
  | .irqHandler => True
  | .read f _ _ => f.gpionum = pin ∧ f.privateData = pin
  | .poll f => f.gpionum = pin ∧ f.privateData = pin
  | .readPinVal f _ => f.gpionum = pin ∧ f.privateData = pin

/-- What an observer notes. -/
inductive Note where
  /-- The handler has run: the flag is set. -/
  | handled
  /-- A call has sampled the pin. -/
  | sampled (c : ℕ)
  deriving DecidableEq

/-- What is noted when a call issues an operation. -/
def note (c : ℕ) : GpioOp → List Note
  | .setTriggered _ true => [.handled]
  | .gpioGetValue _ => [.sampled c]
  | _ => []

/-- The calls with the kernel, with the signals that are pending for them and
with the notes so far. -/
structure Observed where
  /-- The calls and the kernel. -/
  pool : Pool GpioOp GpioResp Fault ℤ Kernel EventCall
  /-- A signal is pending for a call. -/
  signals : ℕ → Bool := fun _ => false
  /-- The notes. -/
  notes : List Note := []

/-- What may happen next. -/
inductive Happening where
  /-- A call begins. -/
  | start (c : ℕ) (call : EventCall)
  /-- A signal is sent to a call. -/
  | signal (c : ℕ)
  /-- A call goes on, with what the kernel answers. -/
  | turn (c : ℕ) (answer : (o : GpioOp) → GpioResp o)

/-- `triggered` of a pin. -/
def triggered (k : Kernel) (pin : Pin) : Option Bool := k.gpio.map fun g => (g pin).triggered

/-- It happens. -/
def Observed.next (pullupdown : Bool) (pin : Pin) (sys : Observed) : Happening → Observed
  | .start c call => { sys with pool := sys.pool.start c call (call.program pullupdown pin) }
  | .signal c => { sys with signals := Function.update sys.signals c true }
  | .turn c answer =>
    { sys with pool := sys.pool.turn (serve answer) c
               notes := sys.notes ++ ((sys.pool.nextOp c).map (note c)).getD [] }

/-- The kernel can carry out the next operation of a call: waiting ends when the
flag is set or a signal is pending, and tells a pending signal. -/
def Observed.Ready (sys : Observed) (c : ℕ) (answer : (o : GpioOp) → GpioResp o) : GpioOp → Prop
  | .waitEvent pin => triggered sys.pool.state pin = some true ∨ sys.signals c = true
  | .signalPending => answer .signalPending = sys.signals c
  | _ => True

/-- It can happen: a new call is for this pin, and a call that goes on need not
wait. -/
def Observed.Possible (pin : Pin) (sys : Observed) : Happening → Prop
  | .start c call => sys.pool.calls c = none ∧ call.OnPin pin
  | .signal _ => True
  | .turn c answer =>
    match sys.pool.nextOp c with
    | some o => sys.Ready c answer o
    | none => True

/-- The handler has run since the pin was sampled, or has run at all. -/
def Unseen (notes : List Note) : Prop := notes.getLast? = some .handled

/-- It is not the clearing of the flag by `GPIO_READ_PIN_VAL` after the handler
has run and before the pin has been sampled again. -/
def Observed.Fair (sys : Observed) : Happening → Prop
  | .turn c _ =>
    match sys.pool.calls c with
    | some (.readPinVal _ _, .call (.setTriggered _ false) _) => ¬Unseen sys.notes
    | _ => True
  | _ => True

/-- Anything that can happen. -/
def Step (pullupdown : Bool) (pin : Pin) (sys sys' : Observed) : Prop :=
  ∃ e, sys.Possible pin e ∧ sys' = sys.next pullupdown pin e

/-- Anything that can happen besides. -/
def FairStep (pullupdown : Bool) (pin : Pin) (sys sys' : Observed) : Prop :=
  ∃ e, sys.Possible pin e ∧ sys.Fair e ∧ sys' = sys.next pullupdown pin e

/-- A pin that is configured as an interrupt, before any call. -/
structure Configured (pin : Pin) (sys : Observed) : Prop where
  /-- The record of the pin has an interrupt. -/
  records : ∃ g, sys.pool.state.gpio = some g ∧ (g pin).dev_id = pin.val ∧ 0 ≤ (g pin).irqnum
  /-- There are no calls. -/
  calls : ∀ c, sys.pool.calls c = none
  /-- Nothing has been noted. -/
  notes : sys.notes = []

/-- No event is lost: when a call has ended and the handler has run since that
call sampled the pin, the flag is set, unless the pin has been sampled since
then. This is asked of every call that has ended, so of the last one too. -/
def NoEventLost (pin : Pin) (sys : Observed) : Prop :=
  ∀ c call v before mid after, sys.pool.calls c = some (call, .ret v) →
    sys.notes = before ++ .sampled c :: (mid ++ .handled :: after) →
      (∀ c', .sampled c' ∉ after) → triggered sys.pool.state pin = some true

/-- Some `gpio_read` has cleared the flag and samples the pin next. -/
def Taking (pin : Pin) (sys : Observed) : Prop :=
  ∃ c f buf count next,
    sys.pool.calls c = some (.read f buf count, .call (.gpioGetValue pin) next)

/-- The values that a call stores in the flag. -/
def Stores : EventCall → Bool → Prop
  | .irqHandler, v => v = true
  | .read _ _ _, v => v = false
  | .readPinVal _ _, v => v = false
  | .poll _, _ => False

/-- The operations that a call issues: it stores such a value, or changes
nothing. -/
def Issues (pin : Pin) (call : EventCall) (o : GpioOp) : Prop :=
  (∃ v, o = .setTriggered pin v ∧ Stores call v) ∨ Still o

/-- Whenever the flag is cleared, the pin is sampled next. -/
def Takes (pin : Pin) : Gpio ℤ → Prop
  | .call (.setTriggered _ v) next =>
    (v = false → ∃ rest, next (some ()) = .call (.gpioGetValue pin) rest) ∧
      ∀ r, Takes pin (next r)
  | .call _ next => ∀ r, Takes pin (next r)
  | _ => True

section Programs

variable {pin : Pin} {α : Type}

/-- What follows a call. -/
theorem takes_next {o : GpioOp} {next : GpioResp o → Gpio ℤ} (h : Takes pin (.call o next))
    (r : GpioResp o) : Takes pin (next r) := by
  cases o with
  | setTriggered p v => exact h.2 r
  | _ => exact h r

/-- A call that leaves the kernel as it is. -/
theorem takes_call {o : GpioOp} {next : GpioResp o → Gpio ℤ} (ho : Still o)
    (h : ∀ r, Takes pin (next r)) : Takes pin (.call o next) := by
  cases o with
  | setTriggered p v => exact absurd ho id
  | _ => exact h

/-- A result. -/
theorem takes_return (v : ℤ) : Takes pin (return v) := trivial

/-- A first part that changes nothing. -/
theorem takes_andThen {p : Gpio α} {f : α → Gpio ℤ}
    (hp : p.Sat Still (fun _ => True) (fun _ => True)) (hf : ∀ a, Takes pin (f a)) :
    Takes pin (p >>= f) := by
  induction p with
  | ret a => exact hf a
  | exit e => trivial
  | hang => trivial
  | call o next ih => exact takes_call hp.1 fun r => ih r (hp.2 r)

/-- A part that leaves the kernel as it is. -/
theorem takes_of_still {p : Gpio ℤ} (hp : p.Sat Still (fun _ => True) (fun _ => True)) :
    Takes pin p := by
  induction p with
  | ret a => trivial
  | exit e => trivial
  | hang => trivial
  | call o next ih => exact takes_call hp.1 fun r => ih r (hp.2 r)

/-- `gpio_read` clears the flag before it samples the pin. -/
theorem takes_gpioRead {f : File} (hpin : f.gpionum = pin) (buf count : ℕ) :
    Takes pin (gpioRead f buf count) := by
  refine takes_andThen (sat_loadDevId _) fun _ => ?_
  split
  · exact takes_return _
  · refine takes_andThen (sat_loadIrqnum _) fun _ => ?_
    split
    · refine takes_andThen (sat_awaitEvent f) fun _ => ?_
      split
      · exact takes_return _
      · have hvalue : Takes pin (readValue f buf) := takes_of_still (sat_readValue f buf)
        refine ⟨fun _ => ?_, fun r => ?_⟩
        · rw [← hpin]
          exact ⟨_, rfl⟩
        · cases r with
          | none => trivial
          | some u => exact hvalue
    · exact takes_of_still (sat_readValue f buf)

/-- A calm operation is one that the call may issue. -/
theorem issues_of_calm {call : EventCall} (hcall : Stores call false) {o : GpioOp}
    (ho : Calm pin o) : Issues pin call o :=
  ho.imp_left fun hset => ⟨false, hset, hcall⟩

/-- `GPIO_READ_PIN_VAL` clears the flag and changes nothing else. -/
theorem sat_readPinValIoctl (pullupdown : Bool) (f : File) (arg : ℕ) :
    (gpioIoctl pullupdown f gpioReadPinVal arg).Sat (Calm f.privateData) (fun _ => True)
      (fun _ => True) := by
  unfold gpioIoctl
  rw [if_neg (by decide), if_neg (by decide)]
  refine (calm_of_still (sat_loadDevId _) _).andThen fun _ _ => ?_
  split
  · trivial
  · unfold ioctlSwitch
    rw [if_neg (by decide), if_neg (by decide), if_pos rfl]
    exact sat_readPinVal f arg

/-- The operations of every call. -/
theorem sat_program (pullupdown : Bool) {call : EventCall} (hpin : call.OnPin pin) :
    (call.program pullupdown pin).Sat (Issues pin call) (fun _ => True) (fun _ => True) := by
  cases call with
  | irqHandler =>
    have hstore : (storeTriggered pin true).Sat (Issues pin .irqHandler) (fun _ => True)
        (fun _ => True) :=
      (Prog.sat_perform (.inl ⟨true, rfl, rfl⟩) fun _ => trivial).andThen fun _ _ =>
        sat_orNoRecord pin _
    exact hstore.andThen fun _ _ => (Prog.sat_perform (.inr trivial) fun _ => trivial).andThen
      fun _ _ => sat_return 1
  | read f buf count =>
    have hstores : Stores (.read f buf count) false := rfl
    exact (sat_gpioRead f buf count).mono (fun _ ho => issues_of_calm hstores (hpin.2 ▸ ho))
      (fun _ => id) fun _ => id
  | poll f => exact (sat_gpioPoll f).mono (fun _ => .inr) (fun _ => id) fun _ => id
  | readPinVal f arg =>
    have hstores : Stores (.readPinVal f arg) false := rfl
    exact (sat_readPinValIoctl pullupdown f arg).mono
      (fun _ ho => issues_of_calm hstores (hpin.2 ▸ ho)) (fun _ => id) fun _ => id

end Programs

section Notes

variable {notes : List Note}

/-- An interrupt that has just been handled has not been seen. -/
theorem unseen_handled (notes : List Note) : Unseen (notes ++ [.handled]) :=
  List.getLast?_concat

/-- A sample has seen what was handled before. -/
theorem not_unseen_sampled (notes : List Note) (c : ℕ) : ¬Unseen (notes ++ [.sampled c]) := by
  rw [Unseen, List.getLast?_concat]
  exact nofun

/-- The handler has run, and the pin has not been sampled since then. -/
theorem unseen_of_split {before after : List Note} (hnotes : notes = before ++ .handled :: after)
    (hafter : ∀ c, .sampled c ∉ after) : Unseen notes := by
  rw [hnotes]
  rcases List.eq_nil_or_concat after with hnil | ⟨front, last, hlast⟩
  · rw [hnil]
    exact unseen_handled before
  · rw [hlast, List.concat_eq_append, ← List.cons_append, ← List.append_assoc]
    cases last with
    | handled => exact unseen_handled _
    | sampled c =>
      refine absurd ?_ (hafter c)
      rw [hlast, List.concat_eq_append]
      exact List.mem_append_right _ (List.mem_singleton_self _)

end Notes

/-- What is kept along every run. -/
structure Watched (pin : Pin) (sys : Observed) : Prop where
  /-- The records exist. -/
  records : ∃ g, sys.pool.state.gpio = some g
  /-- Every call issues its operations only. -/
  issues : sys.pool.All fun call p => p.Sat (Issues pin call) (fun _ => True) (fun _ => True)
  /-- A read that clears the flag samples the pin next. -/
  takes : sys.pool.All fun call p => (∃ f buf count, call = .read f buf count) → Takes pin p
  /-- The flag is set unless the event is just being taken. -/
  announced : Unseen sys.notes → triggered sys.pool.state pin = some true ∨ Taking pin sys

section Watching

variable {pin : Pin} {pullupdown : Bool} {sys : Observed}

/-- Such an operation is not noted. -/
theorem note_still {o : GpioOp} (ho : Still o) (hvalue : ∀ p, o ≠ .gpioGetValue p) (c : ℕ) :
    note c o = [] := by
  cases o with
  | gpioGetValue p => exact absurd rfl (hvalue p)
  | setTriggered p v => exact absurd ho id
  | _ => rfl

/-- Writing `triggered` of a record. -/
theorem triggered_set {k : Kernel} {g : Pin → GpioConf} (hk : k.gpio = some g) (pin : Pin)
    (v : Bool) :
    (k.modify pin fun c => { c with triggered := v }).1 = some () ∧
      triggered (k.modify pin fun c => { c with triggered := v }).2 pin = some v := by
  rw [modify_eq pin hk, triggered]
  refine ⟨rfl, congrArg some ?_⟩
  dsimp only
  rw [Function.update_self]

/-- Another call that is taking the event goes on to do so. -/
theorem taking_of_other {c : ℕ} {sys' : Observed}
    (hcall : ∀ f buf count next,
      sys.pool.calls c ≠ some (.read f buf count, .call (.gpioGetValue pin) next))
    (hother : ∀ c', c' ≠ c → sys'.pool.calls c' = sys.pool.calls c') (h : Taking pin sys) :
    Taking pin sys' := by
  obtain ⟨c', f, buf, count, next, hc'⟩ := h
  have hne : c' ≠ c := fun hc => hcall f buf count next (hc ▸ hc')
  exact ⟨c', f, buf, count, next, (hother c' hne).trans hc'⟩

/-- A call begins. -/
theorem Watched.start (h : Watched pin sys) {c : ℕ} {call : EventCall}
    (hnew : sys.pool.calls c = none) (hpin : call.OnPin pin) :
    Watched pin (sys.next pullupdown pin (.start c call)) := by
  refine ⟨h.records, h.issues.start (sat_program pullupdown hpin), h.takes.start ?_, ?_⟩
  · rintro ⟨f, buf, count, hread⟩
    rw [hread] at hpin ⊢
    exact takes_gpioRead hpin.1 buf count
  · intro hunseen
    refine (h.announced hunseen).imp_right (taking_of_other (c := c) ?_ ?_)
    · intro f buf count next hc
      rw [hnew] at hc
      exact nomatch hc
    · exact fun c' hne => Pool.start_other hne

/-- A call goes on. -/
theorem Watched.turn (h : Watched pin sys) {c : ℕ} {answer : (o : GpioOp) → GpioResp o}
    (hfair : sys.Fair (.turn c answer)) :
    Watched pin (sys.next pullupdown pin (.turn c answer)) := by
  have hissues : (sys.pool.turn (serve answer) c).All fun call p =>
      p.Sat (Issues pin call) (fun _ => True) (fun _ => True) :=
    h.issues.turn fun _ _ _ r hp => hp.2 r
  have htakes : (sys.pool.turn (serve answer) c).All fun call p =>
      (∃ f buf count, call = .read f buf count) → Takes pin p :=
    h.takes.turn fun _ _ _ r hp hread => takes_next (hp hread) r
  obtain ⟨g, hg⟩ := h.records
  rcases Pool.turn_cases (serve answer) sys.pool c with ⟨call, o, next, hc⟩ | ⟨hsame, hnone⟩
  · have hturn := Pool.turn_call (h := serve answer) hc
    have hop := Pool.nextOp_call hc
    have hother : ∀ c', c' ≠ c →
        (sys.next pullupdown pin (.turn c answer)).pool.calls c' = sys.pool.calls c' :=
      fun c' hne => Pool.turn_other hne
    have hnotes : (sys.next pullupdown pin (.turn c answer)).notes = sys.notes ++ note c o := by
      dsimp only [Observed.next]
      rw [hop]
      rfl
    have hstate : (sys.next pullupdown pin (.turn c answer)).pool.state =
        (serve answer o sys.pool.state).2 := congrArg Pool.state hturn
    rcases (h.issues c call _ hc).1 with ⟨v, rfl, hstores⟩ | hstill
    · obtain ⟨hanswer, hset⟩ := triggered_set hg pin v
      have hrecords : ∃ g', (serve answer (.setTriggered pin v) sys.pool.state).2.gpio = some g' :=
        ⟨_, congrArg (fun r => r.2.gpio) (modify_eq pin hg fun c => { c with triggered := v })⟩
      refine ⟨hstate ▸ hrecords, hissues, htakes, fun hunseen => ?_⟩
      rw [hstate]
      cases v with
      | true => exact .inl hset
      | false =>
        have hquiet : note c (.setTriggered pin false) = [] := rfl
        rw [hnotes, hquiet, List.append_nil] at hunseen
        cases call with
        | irqHandler => exact nomatch hstores
        | poll f => exact absurd hstores id
        | readPinVal f arg =>
          rw [Observed.Fair, hc] at hfair
          exact absurd hunseen hfair
        | read f buf count =>
          obtain ⟨hnext, -⟩ := h.takes c _ _ hc ⟨f, buf, count, rfl⟩
          obtain ⟨rest, hrest⟩ := hnext rfl
          refine .inr ⟨c, f, buf, count, rest, ?_⟩
          have hserved : (serve answer (.setTriggered pin false) sys.pool.state).1 = some () :=
            hanswer
          dsimp only [Observed.next]
          rw [hturn, hserved, hrest]
          exact Function.update_self ..
    · rw [serve_still hstill] at hstate
      refine ⟨⟨g, hstate ▸ hg⟩, hissues, htakes, fun hunseen => ?_⟩
      rw [hnotes] at hunseen
      rw [hstate]
      by_cases hvalue : ∃ p, o = .gpioGetValue p
      · obtain ⟨p, ho⟩ := hvalue
        rw [ho] at hunseen
        exact absurd hunseen (not_unseen_sampled sys.notes c)
      · rw [note_still hstill (fun p ho => hvalue ⟨p, ho⟩), List.append_nil] at hunseen
        refine (h.announced hunseen).imp_right (taking_of_other ?_ hother)
        intro f buf count next' hc'
        obtain ⟨-, hp⟩ := Prod.mk.inj (Option.some.inj (hc.symm.trans hc'))
        exact hvalue ⟨pin, (Prog.call.inj hp).1⟩
  · have hsys : sys.next pullupdown pin (.turn c answer) = sys := by
      dsimp only [Observed.next]
      rw [hsame, hnone]
      exact congrArg (Observed.mk sys.pool sys.signals) (List.append_nil sys.notes)
    rw [hsys]
    exact h

/-- Anything that can happen, besides. -/
theorem Watched.step {sys' : Observed} (h : Watched pin sys)
    (hstep : FairStep pullupdown pin sys sys') : Watched pin sys' := by
  obtain ⟨e, hpossible, hfair, hsys'⟩ := hstep
  rw [hsys']
  cases e with
  | start c call => exact h.start hpossible.1 hpossible.2
  | signal c => exact ⟨h.records, h.issues, h.takes, h.announced⟩
  | turn c answer => exact h.turn hfair

/-- A configured pin is watched. -/
theorem watched_of_configured (h : Configured pin sys) : Watched pin sys := by
  obtain ⟨g, hg, -⟩ := h.records
  have hnone : ∀ {c call p}, sys.pool.calls c ≠ some (call, p) := by
    intro c call p hc
    rw [h.calls] at hc
    exact nomatch hc
  refine ⟨⟨g, hg⟩, fun c call p hc => absurd hc hnone, fun c call p hc => absurd hc hnone, ?_⟩
  rw [h.notes]
  exact nofun

/-- Every sequence of such steps. -/
theorem watched_of_run {sys₀ : Observed} (hconf : Configured pin sys₀)
    (hrun : Relation.ReflTransGen (FairStep pullupdown pin) sys₀ sys) : Watched pin sys := by
  induction hrun with
  | refl => exact watched_of_configured hconf
  | tail _ hstep ih => exact ih.step hstep

/-- `gpio_poll` reports the event. -/
theorem gpioPoll_reports {answer : (o : GpioOp) → GpioResp o} {k : Kernel} {f : File}
    (hset : triggered k f.privateData = some true) :
    Ends (serve answer) (gpioPoll f) k
      (.ret (((if f.writable then pollOut else 0) ||| pollRd : ℕ) : ℤ)) k := by
  have hflag : (serve answer (.triggered f.privateData)
      (serve answer (.pollWait f.privateData) k).2).1 = some true := hset
  refine Ends.andThen (ends_perform _ _) (Ends.andThen (ends_perform _ _) ?_)
  rw [hflag]
  exact ends_pure _ _

end Watching

/-- No event is lost along any run in which `GPIO_READ_PIN_VAL` never clears the
flag between an event and the next sample, in every state where no `gpio_read`
is just taking an event. -/
theorem no_event_lost {pullupdown : Bool} {pin : Pin} {sys₀ sys : Observed}
    (hconf : Configured pin sys₀)
    (hrun : Relation.ReflTransGen (FairStep pullupdown pin) sys₀ sys)
    (hidle : ¬Taking pin sys) : NoEventLost pin sys := by
  intro c call v before mid after _ hnotes hafter
  have hsplit : sys.notes = (before ++ .sampled c :: mid) ++ .handled :: after := by
    rw [hnotes, List.append_assoc, List.cons_append]
  exact ((watched_of_run hconf hrun).announced (unseen_of_split hsplit hafter)).resolve_right hidle

/-- Things happen one after the other. -/
def Observed.happens (pullupdown : Bool) (pin : Pin) (sys : Observed) (es : List Happening) :
    Observed :=
  es.foldl (Observed.next pullupdown pin) sys

/-- Each of them can happen, and has another property besides. -/
def Along (P : Observed → Happening → Prop) (pullupdown : Bool) (pin : Pin) :
    Observed → List Happening → Prop
  | _, [] => True
  | sys, e :: es =>
    sys.Possible pin e ∧ P sys e ∧ Along P pullupdown pin (sys.next pullupdown pin e) es

/-- What one step keeps is kept along a run. -/
theorem steps_along {P : Observed → Happening → Prop} {R : Observed → Observed → Prop}
    {pullupdown : Bool} {pin : Pin} {sys : Observed} {es : List Happening}
    (hes : Along P pullupdown pin sys es)
    (hR : ∀ sys e, sys.Possible pin e → P sys e → R sys (sys.next pullupdown pin e)) :
    Relation.ReflTransGen R sys (sys.happens pullupdown pin es) := by
  induction es generalizing sys with
  | nil => exact .refl
  | cons e es ih => exact .head (hR sys e hes.1 hes.2.1) (ih hes.2.2)

/-- The first pin is an interrupt. -/
def firstConfigured : Observed :=
  { pool := { state := { gpio := some fun pin => { dev_id := pin.val, irqnum := 5 } }
              calls := fun _ => none } }

/-- The small system is configured. -/
theorem firstConfigured_ok : Configured firstPin firstConfigured :=
  ⟨⟨_, rfl, rfl, by decide⟩, fun _ => rfl, rfl⟩

/-- A `gpio_read` that does not wait, and the handler after it. -/
def announcedEvent : List Happening :=
  [.start 0 (.read { firstFile with nonblock := true } 0 1), .turn 0 (granting 0),
    .turn 0 (granting 0), .turn 0 (granting 0), .turn 0 (granting 0), .turn 0 (granting 0),
    .start 1 .irqHandler, .turn 1 (granting 0)]

/-- An event that is announced there is not lost. -/
theorem no_event_lost_announced :
    NoEventLost firstPin (firstConfigured.happens false firstPin announcedEvent) := by
  refine no_event_lost firstConfigured_ok (steps_along (P := Observed.Fair) ?_
    fun sys e hpossible hfair => ⟨e, hpossible, hfair, rfl⟩) ?_
  · exact ⟨⟨rfl, rfl, rfl⟩, trivial, trivial, trivial, trivial, trivial, trivial, trivial, trivial,
      trivial, trivial, trivial, ⟨rfl, trivial⟩, trivial, trivial, trivial, trivial⟩
  · rintro ⟨c, f, buf, count, next, hc⟩
    match c with
    | 0 => cases hc
    | 1 => cases hc
    | c + 2 => cases hc

/-- `GPIO_READ_PIN_VAL`, and the handler between its sample and its clearing of
the flag. -/
def lostEvent : List Happening :=
  [.start 0 (.readPinVal firstFile 0), .turn 0 (granting 0), .turn 0 (granting 0),
    .start 1 .irqHandler, .turn 1 (granting 0), .turn 1 (granting 0), .turn 0 (granting 0),
    .turn 0 (granting 0)]

/-- The event is lost although no other call is in progress. -/
theorem readPinVal_loses_event :
    Relation.ReflTransGen (Step false firstPin) firstConfigured
        (firstConfigured.happens false firstPin lostEvent) ∧
      ¬Taking firstPin (firstConfigured.happens false firstPin lostEvent) ∧
      ¬NoEventLost firstPin (firstConfigured.happens false firstPin lostEvent) := by
  refine ⟨steps_along (P := fun _ _ => True) ?_ fun sys e hpossible _ => ⟨e, hpossible, rfl⟩,
    ?_, fun hkept => ?_⟩
  · exact ⟨⟨rfl, rfl, rfl⟩, trivial, trivial, trivial, trivial, trivial, ⟨rfl, trivial⟩, trivial,
      trivial, trivial, trivial, trivial, trivial, trivial, trivial, trivial, trivial⟩
  · rintro ⟨c, f, buf, count, next, hc⟩
    match c with
    | 0 => cases hc
    | 1 => cases hc
    | c + 2 => cases hc
  · have hset := hkept 0 _ 1 [] [] [] rfl rfl (fun c' => List.not_mem_nil)
    cases hset

end MetaDigi.GpioEvents
