import MetaDigi.CStrings
import Mathlib.Algebra.GroupWithZero.Nat

/-!
# The option scanner of the C library

`getopt_long` as its manual describes it: short options in clusters, long
options by their name or a unique abbreviation of it, arguments attached or
in the next element, `--` as the end of the options, and operands passed over
until the end. A call is a step on the state of the scanner. What all calls
together answer is a recursion on the arguments, and a call takes the head
off this list.
-/

namespace MetaDigi.Getopt

open CStrings

/-- The character `-`. -/
def dash : UInt8 := 45

/-- The character `:`. -/
def colon : UInt8 := 58

/-- The character `;`. -/
def semicolon : UInt8 := 59

/-- The character `=`. -/
def equals : UInt8 := 61

/-- The value of a call that found an error: the character `?`. -/
def question : ℤ := 63

/-- One entry of the table of long options. Its `flag` is `NULL`, so a call
returns `val`. -/
structure LongOption where
  /-- The name without the dashes. -/
  name : Bytes
  /-- `required_argument`, else `no_argument`. -/
  hasArg : Bool
  /-- The value returned for this option. -/
  val : ℤ

/-- What the scanner is given besides the arguments. -/
structure Tables where
  /-- The short options, a colon behind each one that takes an argument. -/
  optstring : Bytes
  /-- The long options. -/
  longopts : List LongOption
  /-- The environment has `POSIXLY_CORRECT`: the first operand ends the scan. -/
  posixlyCorrect : Bool

/-- What a call answers: the value returned and `optarg`. -/
structure Reply where
  /-- The value returned. -/
  value : ℤ
  /-- The argument of the option. -/
  optarg : Option Bytes
deriving DecidableEq

/-- The reply to an unknown option, a missing argument or one too many. -/
def mistake : Reply := ⟨question, none⟩

/-- The reply at the end of the options. -/
def finished : Reply := ⟨-1, none⟩

/-- The scanner between two calls. The elements it is done with stand in front
of the operands it has passed over. -/
structure Scanner where
  /-- Options with their arguments, and the `--`. -/
  scanned : List Bytes
  /-- What is left of a cluster of short options. -/
  nextchar : Bytes
  /-- Operands that were passed over. -/
  skipped : List Bytes
  /-- Elements not looked at. -/
  rest : List Bytes

/-- The scanner in front of the first argument. -/
def Scanner.start (args : List Bytes) : Scanner := ⟨[], [], [], args⟩

/-- The arguments in the order in which the scanner leaves them. -/
def Scanner.argv (s : Scanner) : List Bytes := s.scanned ++ (s.skipped ++ s.rest)

/-- An element that is no option: it does not start with a dash, or is one. -/
def isOperand (a : Bytes) : Bool := a.head? ≠ some dash ∨ a = [dash]

/-- Looks a character up among the short options: whether it takes an argument. -/
def shortOption (optstring : Bytes) (c : UInt8) : Option Bool :=
  if c = colon ∨ c = semicolon then none
  else
    match optstring with
    | [] => none
    | d :: ds => if d = c then some (ds.head? = some colon) else shortOption ds c

/-- Looks a name up among the long options: an exact match, else the only
option whose name begins with it. -/
def longOption (longopts : List LongOption) (name : Bytes) : Option LongOption :=
  match longopts.find? (·.name = name) with
  | some o => some o
  | none =>
    match longopts.filter (name <+: ·.name) with
    | [o] => some o
    | _ => none

/-- The name in front of the first `=` and the text behind it. -/
def splitValue (body : Bytes) : Bytes × Option Bytes :=
  (body.takeWhile (· ≠ equals), (body.dropWhile (· ≠ equals)).tail?)

/-- An option whose argument is the next element. -/
def takeNext (val : ℤ) (s : Scanner) : Reply × Scanner :=
  match s.rest with
  | [] => (mistake, s)
  | b :: rest => (⟨val, some b⟩, { s with scanned := s.scanned ++ [b], rest := rest })

/-- The short option `c`, with `cs` behind it in the same element. -/
def shortStep (t : Tables) (c : UInt8) (cs : Bytes) (s : Scanner) : Reply × Scanner :=
  match shortOption t.optstring c with
  | none => (mistake, { s with nextchar := cs })
  | some false => (⟨c.toNat, none⟩, { s with nextchar := cs })
  | some true =>
    if cs = [] then takeNext c.toNat { s with nextchar := [] }
    else (⟨c.toNat, some cs⟩, { s with nextchar := [] })

/-- The long option of an element that continues with `body` behind the dashes. -/
def longStep (t : Tables) (body : Bytes) (s : Scanner) : Reply × Scanner :=
  match longOption t.longopts (splitValue body).1 with
  | none => (mistake, s)
  | some o =>
    match o.hasArg, (splitValue body).2 with
    | false, none => (⟨o.val, none⟩, s)
    | false, some _ => (mistake, s)
    | true, some v => (⟨o.val, some v⟩, s)
    | true, none => takeNext o.val s

/-- Goes on to the next option behind the operands. -/
def nextElement (t : Tables) (scanned : List Bytes) :
    List Bytes → List Bytes → Reply × Scanner
  | skipped, [] => (finished, ⟨scanned, [], skipped, []⟩)
  | skipped, a :: rest =>
    if a = [dash, dash] then (finished, ⟨scanned ++ [a], [], skipped ++ rest, []⟩)
    else if isOperand a then
      if t.posixlyCorrect then (finished, ⟨scanned, [], skipped, a :: rest⟩)
      else nextElement t scanned (skipped ++ [a]) rest
    else
      match a with
      | _ :: c :: cs =>
        if c = dash then longStep t cs ⟨scanned ++ [a], [], skipped, rest⟩
        else shortStep t c cs ⟨scanned ++ [a], [], skipped, rest⟩
      | _ => (mistake, ⟨scanned ++ [a], [], skipped, rest⟩)

/-- `getopt_long`: one call. -/
def getoptLong (t : Tables) (s : Scanner) : Reply × Scanner :=
  match s.nextchar with
  | c :: cs => shortStep t c cs s
  | [] => nextElement t s.scanned s.skipped s.rest

/-- What an element says: its replies, and the value of a last option that
waits for the next element as its argument. -/
structure Reading where
  /-- The replies the element gives alone. -/
  replies : List Reply
  /-- The option that waits. -/
  pending : Option ℤ

/-- A reading behind other replies. -/
def Reading.behind (reading : Reading) (rs : List Reply) : Reading :=
  { reading with replies := rs ++ reading.replies }

/-- A cluster of short options. -/
def cluster (t : Tables) : Bytes → Reading
  | [] => ⟨[], none⟩
  | c :: cs =>
    match shortOption t.optstring c with
    | none => (cluster t cs).behind [mistake]
    | some false => (cluster t cs).behind [⟨c.toNat, none⟩]
    | some true => if cs = [] then ⟨[], some c.toNat⟩ else ⟨[⟨c.toNat, some cs⟩], none⟩

/-- A long option. -/
def longReading (t : Tables) (body : Bytes) : Reading :=
  match longOption t.longopts (splitValue body).1 with
  | none => ⟨[mistake], none⟩
  | some o =>
    match o.hasArg, (splitValue body).2 with
    | false, none => ⟨[⟨o.val, none⟩], none⟩
    | false, some _ => ⟨[mistake], none⟩
    | true, some v => ⟨[⟨o.val, some v⟩], none⟩
    | true, none => ⟨[], some o.val⟩

/-- An element that is neither an operand nor `--`. -/
def element (t : Tables) : Bytes → Reading
  | _ :: c :: cs => if c = dash then longReading t cs else cluster t (c :: cs)
  | _ => ⟨[mistake], none⟩

/-- All replies to a list of arguments, and the operands left at the end. -/
def scan (t : Tables) : List Bytes → List Reply × List Bytes
  | [] => ([], [])
  | a :: args =>
    if a = [dash, dash] then ([], args)
    else if isOperand a then
      if t.posixlyCorrect then ([], a :: args) else ((scan t args).1, a :: (scan t args).2)
    else
      match (element t a).pending, args with
      | none, args => ((element t a).replies ++ (scan t args).1, (scan t args).2)
      | some _, [] => ((element t a).replies ++ [mistake], [])
      | some val, b :: args =>
        ((element t a).replies ++ ⟨val, some b⟩ :: (scan t args).1, (scan t args).2)

/-- All replies that follow a reading, and the operands left at the end. -/
def resume (t : Tables) (reading : Reading) (args : List Bytes) : List Reply × List Bytes :=
  match reading.pending, args with
  | none, args => (reading.replies ++ (scan t args).1, (scan t args).2)
  | some _, [] => (reading.replies ++ [mistake], [])
  | some val, b :: args =>
    (reading.replies ++ ⟨val, some b⟩ :: (scan t args).1, (scan t args).2)

/-- The replies that are still to come. -/
def Scanner.replies (t : Tables) (s : Scanner) : List Reply :=
  (resume t (cluster t s.nextchar) s.rest).1

/-- The operands at the end. -/
def Scanner.operands (t : Tables) (s : Scanner) : List Bytes :=
  s.skipped ++ (resume t (cluster t s.nextchar) s.rest).2

/-- Behind an empty reading the scan goes on. -/
theorem resume_empty (t : Tables) (args : List Bytes) : resume t ⟨[], none⟩ args = scan t args := by
  simp only [resume, List.nil_append]

/-- Replies in front of a reading come first. -/
theorem resume_behind (t : Tables) (rs : List Reply) (reading : Reading) (args : List Bytes) :
    resume t (reading.behind rs) args =
      (rs ++ (resume t reading args).1, (resume t reading args).2) := by
  obtain ⟨replies, pending⟩ := reading
  cases pending with
  | none => simp only [Reading.behind, resume, List.append_assoc]
  | some val =>
    cases args with
    | nil => simp only [Reading.behind, resume, List.append_assoc]
    | cons b args => simp only [Reading.behind, resume, List.append_assoc]

/-- The end of the options. -/
theorem scan_dashes (t : Tables) (args : List Bytes) :
    scan t ([dash, dash] :: args) = ([], args) := by
  rw [scan.eq_def]
  exact if_pos rfl

/-- An operand is passed over. -/
theorem scan_operand (t : Tables) {a : Bytes} (ha : isOperand a = true)
    (ht : t.posixlyCorrect = false) (args : List Bytes) :
    scan t (a :: args) = ((scan t args).1, a :: (scan t args).2) := by
  have hdashes : a ≠ [dash, dash] := by
    rintro rfl
    exact absurd ha (by decide)
  rw [scan.eq_def]
  simp only [if_neg hdashes, if_pos ha, ht, Bool.false_eq_true, if_false]

/-- With `POSIXLY_CORRECT` an operand ends the scan. -/
theorem scan_operand_posix (t : Tables) {a : Bytes} (ha : isOperand a = true)
    (ht : t.posixlyCorrect = true) (args : List Bytes) : scan t (a :: args) = ([], a :: args) := by
  have hdashes : a ≠ [dash, dash] := by
    rintro rfl
    exact absurd ha (by decide)
  rw [scan.eq_def]
  simp only [if_neg hdashes, if_pos ha, if_pos ht]

/-- An element with options. -/
theorem scan_element (t : Tables) {a : Bytes} (hdashes : a ≠ [dash, dash])
    (ha : isOperand a = false) (args : List Bytes) :
    scan t (a :: args) = resume t (element t a) args := by
  rw [scan.eq_def]
  simp only [if_neg hdashes, ha, Bool.false_eq_true, if_false]
  rfl

/-- An element with options starts with a dash and continues. -/
theorem option_cons {a : Bytes} (ha : isOperand a = false) : ∃ c cs, a = dash :: c :: cs := by
  simp only [isOperand, decide_eq_false_iff_not, not_or, not_not] at ha
  obtain ⟨hhead, hne⟩ := ha
  cases a with
  | nil => exact absurd hhead (by simp)
  | cons d a =>
    have hd : d = dash := by simpa using hhead
    cases a with
    | nil => exact absurd (by rw [hd]) hne
    | cons c cs => exact ⟨c, cs, by rw [hd]⟩

/-- A name without a value. -/
theorem splitValue_name {name : Bytes} (h : equals ∉ name) : splitValue name = (name, none) := by
  have hall : ∀ c ∈ name, decide (c ≠ equals) = true :=
    fun c hc => decide_eq_true (fun he => h (he ▸ hc))
  rw [splitValue, List.takeWhile_eq_self_iff.mpr hall, List.dropWhile_eq_nil_iff.mpr hall]
  rfl

/-- A name with a value. -/
theorem splitValue_append {name : Bytes} (h : equals ∉ name) (v : Bytes) :
    splitValue (name ++ equals :: v) = (name, some v) := by
  have hall : ∀ c ∈ name, decide (c ≠ equals) = true :=
    fun c hc => decide_eq_true (fun he => h (he ▸ hc))
  rw [splitValue, List.takeWhile_append_of_pos hall, List.dropWhile_append_of_pos hall,
    List.takeWhile_cons_of_neg (by decide), List.dropWhile_cons_of_neg (by decide), List.append_nil]
  rfl

/-- Every text is a name, with or without a value. -/
theorem splitValue_cases (body : Bytes) :
    ∃ name, equals ∉ name ∧ (body = name ∨ ∃ v, body = name ++ equals :: v) := by
  refine ⟨body.takeWhile (· ≠ equals), fun h => by simpa using List.mem_takeWhile_imp h, ?_⟩
  have happend := List.takeWhile_append_dropWhile (p := (· ≠ equals)) (l := body)
  cases hdrop : body.dropWhile (· ≠ equals) with
  | nil =>
    rw [hdrop, List.append_nil] at happend
    exact .inl happend.symm
  | cons c v =>
    have hc : c = equals := by
      have hhead := List.head_dropWhile_not (· ≠ equals) (l := body) (by rw [hdrop]; simp)
      simp only [hdrop, List.head_cons] at hhead
      simpa using hhead
    rw [hdrop, hc] at happend
    exact .inr ⟨v, happend.symm⟩

/-- A call has taken the head off the replies and left the operands alone. -/
def Pops (t : Tables) (replies : List Reply) (operands : List Bytes) (x : Reply × Scanner) : Prop :=
  match replies with
  | [] => x.1 = finished ∧ x.2.skipped ++ x.2.rest = operands
  | r :: rs => x.1 = r ∧ x.2.replies t = rs ∧ x.2.operands t = operands

/-- The replies behind an element that has been read. -/
theorem replies_fresh (t : Tables) (scanned skipped rest : List Bytes) :
    (Scanner.mk scanned [] skipped rest).replies t = (scan t rest).1 := by
  rw [Scanner.replies, cluster, resume_empty]

/-- The operands behind an element that has been read. -/
theorem operands_fresh (t : Tables) (scanned skipped rest : List Bytes) :
    (Scanner.mk scanned [] skipped rest).operands t = skipped ++ (scan t rest).2 := by
  rw [Scanner.operands, cluster, resume_empty]

/-- The next element as an argument. -/
theorem takeNext_pops (t : Tables) (val : ℤ) (scanned skipped rest : List Bytes) :
    Pops t (resume t ⟨[], some val⟩ rest).1 (skipped ++ (resume t ⟨[], some val⟩ rest).2)
      (takeNext val ⟨scanned, [], skipped, rest⟩) := by
  cases rest with
  | nil => exact ⟨rfl, replies_fresh t .., operands_fresh t ..⟩
  | cons b rest => exact ⟨rfl, replies_fresh t .., operands_fresh t ..⟩

/-- A call inside a cluster. -/
theorem shortStep_pops (t : Tables) (c : UInt8) (cs : Bytes) (s : Scanner) :
    Pops t (resume t (cluster t (c :: cs)) s.rest).1
      (s.skipped ++ (resume t (cluster t (c :: cs)) s.rest).2) (shortStep t c cs s) := by
  rw [cluster, shortStep]
  cases shortOption t.optstring c with
  | none =>
    simp only [resume_behind, List.singleton_append]
    exact ⟨rfl, rfl, rfl⟩
  | some takes =>
    cases takes with
    | false =>
      simp only [resume_behind, List.singleton_append]
      exact ⟨rfl, rfl, rfl⟩
    | true =>
      by_cases hcs : cs = []
      · simp only [if_pos hcs]
        exact takeNext_pops t _ _ _ _
      · simp only [if_neg hcs]
        exact ⟨rfl, replies_fresh t .., operands_fresh t ..⟩

/-- A call that reads a long option. -/
theorem longStep_pops (t : Tables) (body : Bytes) (scanned skipped rest : List Bytes) :
    Pops t (resume t (longReading t body) rest).1
      (skipped ++ (resume t (longReading t body) rest).2)
      (longStep t body ⟨scanned, [], skipped, rest⟩) := by
  rw [longReading, longStep]
  cases longOption t.longopts (splitValue body).1 with
  | none => exact ⟨rfl, replies_fresh t .., operands_fresh t ..⟩
  | some o =>
    obtain ⟨name, hasArg, val⟩ := o
    cases hasArg <;> cases (splitValue body).2
    · exact ⟨rfl, replies_fresh t .., operands_fresh t ..⟩
    · exact ⟨rfl, replies_fresh t .., operands_fresh t ..⟩
    · exact takeNext_pops t _ _ _ _
    · exact ⟨rfl, replies_fresh t .., operands_fresh t ..⟩

/-- A call that starts on a new element, by the operands in front of it. -/
theorem nextElement_pops (t : Tables) (scanned skipped rest : List Bytes) :
    Pops t (scan t rest).1 (skipped ++ (scan t rest).2) (nextElement t scanned skipped rest) := by
  induction rest generalizing skipped with
  | nil => exact ⟨rfl, rfl⟩
  | cons a rest ih =>
    rw [nextElement.eq_def]
    dsimp only
    by_cases hdashes : a = [dash, dash]
    · rw [if_pos hdashes, hdashes, scan_dashes]
      exact ⟨rfl, List.append_nil _⟩
    rw [if_neg hdashes]
    cases ha : isOperand a with
    | true =>
      rw [if_pos rfl]
      cases ht : t.posixlyCorrect with
      | true =>
        rw [if_pos rfl, scan_operand_posix t ha ht]
        exact ⟨rfl, rfl⟩
      | false =>
        rw [if_neg (by decide), scan_operand t ha ht]
        simpa only [List.append_assoc, List.singleton_append] using ih (skipped ++ [a])
    | false =>
      obtain ⟨c, cs, rfl⟩ := option_cons ha
      rw [if_neg (by decide), scan_element t hdashes ha, element]
      by_cases hc : c = dash
      · simp only [if_pos hc]
        exact longStep_pops t cs _ skipped rest
      · simp only [if_neg hc]
        exact shortStep_pops t c cs ⟨scanned ++ [dash :: c :: cs], [], skipped, rest⟩

/-- A call takes the head off the replies. -/
theorem getoptLong_pops (t : Tables) (s : Scanner) :
    Pops t (s.replies t) (s.operands t) (getoptLong t s) := by
  obtain ⟨scanned, nextchar, skipped, rest⟩ := s
  cases nextchar with
  | nil =>
    rw [replies_fresh, operands_fresh]
    exact nextElement_pops t scanned skipped rest
  | cons c cs => exact shortStep_pops t c cs _

/-- Short options behind a dash, when there are any. -/
def dashed (cs : Bytes) : List Bytes := if cs = [] then [] else [dash :: cs]

/-- A cluster as an element of its own. -/
theorem scan_dashed (t : Tables) {cs : Bytes} (hcs : cs.head? ≠ some dash) (args : List Bytes) :
    scan t (dashed cs ++ args) = resume t (cluster t cs) args := by
  cases cs with
  | nil => exact (resume_empty t args).symm
  | cons c cs =>
    have hc : c ≠ dash := fun h => hcs (by rw [h]; rfl)
    change scan t ((dash :: c :: cs) :: args) = _
    rw [scan_element t (fun h => hc (List.cons.inj (List.cons.inj h).2).1) (by simp [isOperand]),
      element, if_neg hc]

/-- Options without an argument in front of a cluster. -/
theorem cluster_flags (t : Tables) {flags : Bytes}
    (h : ∀ d ∈ flags, shortOption t.optstring d = some false) (cs : Bytes) :
    cluster t (flags ++ cs) =
      (cluster t cs).behind (flags.map (fun d => ⟨d.toNat, none⟩)) := by
  induction flags with
  | nil => rfl
  | cons d flags ih =>
    rw [List.cons_append, cluster, h d (List.mem_cons_self ..)]
    dsimp only
    rw [ih fun d hd => h d (List.mem_cons_of_mem _ hd)]
    rfl

/-- An argument is taken from the elements not looked at. -/
theorem takeNext_argv (val : ℤ) (s : Scanner) : (takeNext val s).2.argv.Perm s.argv := by
  obtain ⟨scanned, nextchar, skipped, rest⟩ := s
  cases rest with
  | nil => exact List.Perm.refl _
  | cons b rest =>
    simp only [takeNext, Scanner.argv, List.append_assoc, List.singleton_append]
    exact List.Perm.append_left scanned List.perm_middle.symm

/-- A call inside a cluster takes at most an argument. -/
theorem shortStep_argv (t : Tables) (c : UInt8) (cs : Bytes) (s : Scanner) :
    (shortStep t c cs s).2.argv.Perm s.argv := by
  rw [shortStep]
  cases shortOption t.optstring c with
  | none => exact List.Perm.refl _
  | some takes =>
    cases takes with
    | false => exact List.Perm.refl _
    | true =>
      dsimp only
      split
      · exact takeNext_argv _ _
      · exact List.Perm.refl _

/-- A call that reads a long option takes at most an argument. -/
theorem longStep_argv (t : Tables) (body : Bytes) (s : Scanner) :
    (longStep t body s).2.argv.Perm s.argv := by
  rw [longStep]
  cases longOption t.longopts (splitValue body).1 with
  | none => exact List.Perm.refl _
  | some o =>
    obtain ⟨name, hasArg, val⟩ := o
    cases hasArg <;> cases (splitValue body).2
    · exact List.Perm.refl _
    · exact List.Perm.refl _
    · exact takeNext_argv _ _
    · exact List.Perm.refl _

/-- An option moves in front of the operands passed over. -/
theorem argv_moved (scanned skipped rest : List Bytes) (a : Bytes) :
    (Scanner.mk (scanned ++ [a]) [] skipped rest).argv.Perm
      (scanned ++ (skipped ++ a :: rest)) := by
  simp only [Scanner.argv, List.append_assoc, List.singleton_append]
  exact List.Perm.append_left scanned List.perm_middle.symm

/-- A call that starts on a new element only moves elements. -/
theorem nextElement_argv (t : Tables) (scanned skipped rest : List Bytes) :
    (nextElement t scanned skipped rest).2.argv.Perm (scanned ++ (skipped ++ rest)) := by
  induction rest generalizing skipped with
  | nil => exact List.Perm.refl _
  | cons a rest ih =>
    rw [nextElement.eq_def]
    dsimp only
    by_cases hdashes : a = [dash, dash]
    · rw [if_pos hdashes]
      simp only [Scanner.argv, List.append_assoc, List.singleton_append, List.append_nil]
      exact List.Perm.append_left scanned List.perm_middle.symm
    rw [if_neg hdashes]
    cases ha : isOperand a with
    | true =>
      rw [if_pos rfl]
      split
      · exact List.Perm.refl _
      · simpa only [List.append_assoc, List.singleton_append] using ih (skipped ++ [a])
    | false =>
      obtain ⟨c, cs, rfl⟩ := option_cons ha
      rw [if_neg (by decide)]
      dsimp only
      split
      · exact (longStep_argv t cs _).trans (argv_moved ..)
      · exact (shortStep_argv t c cs _).trans (argv_moved ..)

/-- A call only permutes the arguments. -/
theorem getoptLong_argv (t : Tables) (s : Scanner) : (getoptLong t s).2.argv.Perm s.argv := by
  obtain ⟨scanned, nextchar, skipped, rest⟩ := s
  cases nextchar with
  | nil => exact nextElement_argv t scanned skipped rest
  | cons c cs => exact shortStep_argv t c cs _

/-- Induction along a scan, by what stands in front: the end of the options, an
operand, or an element with options, whose last one may use the next element. -/
theorem scan_rule (t : Tables) {P : List Bytes → List Reply × List Bytes → Prop}
    (nil : P [] ([], [])) (dashes : ∀ args, P ([dash, dash] :: args) ([], args))
    (stop : ∀ a args, isOperand a = true → t.posixlyCorrect = true →
      P (a :: args) ([], a :: args))
    (operand : ∀ a args, isOperand a = true → t.posixlyCorrect = false → P args (scan t args) →
      P (a :: args) ((scan t args).1, a :: (scan t args).2))
    (options : ∀ a args, a ≠ [dash, dash] → isOperand a = false → P args (scan t args) →
      (∀ b rest, args = b :: rest → P rest (scan t rest)) →
      P (a :: args) (resume t (element t a) args))
    (args : List Bytes) : P args (scan t args) := by
  have hcons : ∀ a args, P args (scan t args) →
      (∀ b rest, args = b :: rest → P rest (scan t rest)) → P (a :: args) (scan t (a :: args)) := by
    intro a args hargs hrest
    by_cases hdashes : a = [dash, dash]
    · rw [hdashes, scan_dashes]
      exact dashes args
    cases ha : isOperand a with
    | true =>
      cases ht : t.posixlyCorrect with
      | true =>
        rw [scan_operand_posix t ha ht]
        exact stop a args ha ht
      | false =>
        rw [scan_operand t ha ht]
        exact operand a args ha ht hargs
    | false =>
      rw [scan_element t hdashes ha]
      exact options a args hdashes ha hargs hrest
  -- the claim for the arguments and for all but the first
  have hboth : P args (scan t args) ∧ ∀ b rest, args = b :: rest → P rest (scan t rest) := by
    induction args with
    | nil => exact ⟨nil, fun b rest h => by cases h⟩
    | cons a args ih => exact ⟨hcons a args ih.1 ih.2, fun b rest h => by cases h; exact ih.1⟩
  exact hboth.1

/-- The number of options in a reading. -/
def Reading.count (reading : Reading) : ℕ := reading.replies.length + reading.pending.toList.length

/-- A cluster has at most one option for each character. -/
theorem cluster_count (t : Tables) (cs : Bytes) : (cluster t cs).count ≤ cs.length := by
  induction cs with
  | nil => exact Nat.le_refl 0
  | cons c cs ih =>
    rw [cluster]
    cases shortOption t.optstring c with
    | none =>
      simp only [Reading.count, Reading.behind, List.length_append, List.length_cons,
        List.length_nil] at ih ⊢
      omega
    | some takes =>
      cases takes with
      | false =>
        simp only [Reading.count, Reading.behind, List.length_append, List.length_cons,
          List.length_nil] at ih ⊢
        omega
      | true =>
        dsimp only
        split <;> simp [Reading.count]

/-- A long option is one option. -/
theorem longReading_count (t : Tables) (body : Bytes) : (longReading t body).count = 1 := by
  rw [longReading]
  cases longOption t.longopts (splitValue body).1 with
  | none => rfl
  | some o =>
    obtain ⟨name, hasArg, val⟩ := o
    cases hasArg <;> cases (splitValue body).2 <;> rfl

/-- An element has fewer options than characters. -/
theorem element_count (t : Tables) {a : Bytes} (ha : isOperand a = false) :
    (element t a).count ≤ a.length := by
  obtain ⟨c, cs, rfl⟩ := option_cons ha
  rw [element]
  split
  · rw [longReading_count]
    simp
  · exact Nat.le_succ_of_le (cluster_count t (c :: cs))

/-- The replies behind a reading, by the replies to the arguments. -/
theorem resume_length (t : Tables) (reading : Reading) (args : List Bytes) (n : ℕ)
    (hargs : (scan t args).1.length ≤ n)
    (htail : ∀ b rest, args = b :: rest → (scan t rest).1.length ≤ n) :
    (resume t reading args).1.length ≤ reading.count + n := by
  obtain ⟨replies, pending⟩ := reading
  cases pending with
  | none =>
    simp only [resume, Reading.count, List.length_append, Option.toList, List.length_nil]
    omega
  | some val =>
    cases args with
    | nil =>
      simp only [resume, Reading.count, List.length_append, Option.toList, List.length_cons,
        List.length_nil]
      omega
    | cons b rest =>
      have htail := htail b rest rfl
      simp only [resume, Reading.count, List.length_append, Option.toList, List.length_cons,
        List.length_nil]
      omega

/-- There are at most as many replies as characters. -/
theorem scan_length (t : Tables) (args : List Bytes) :
    (scan t args).1.length ≤ (args.map List.length).sum := by
  refine scan_rule t (P := fun args out => out.1.length ≤ (args.map List.length).sum) ?_ ?_ ?_ ?_
    ?_ args
  · exact Nat.le_refl 0
  · exact fun args => Nat.zero_le _
  · exact fun a args _ _ => Nat.zero_le _
  · intro a args _ _ hargs
    rw [List.map_cons, List.sum_cons]
    exact Nat.le_add_left_of_le hargs
  · intro a args _ ha hargs hrest
    have hcount := element_count t ha
    have hlength := resume_length t (element t a) args _ hargs (fun b rest hb => by
      have htail := hrest b rest hb
      rw [hb, List.map_cons, List.sum_cons]
      omega)
    rw [List.map_cons, List.sum_cons]
    omega

/-- The values a call can return besides `-1`. -/
def Returns (t : Tables) (v : ℤ) : Prop :=
  v = question ∨ (∃ c takes, shortOption t.optstring c = some takes ∧ v = c.toNat) ∨
    ∃ o ∈ t.longopts, v = o.val

/-- The options of a reading are in the tables. -/
def Reading.Listed (t : Tables) (reading : Reading) : Prop :=
  (∀ r ∈ reading.replies, Returns t r.value) ∧ ∀ v ∈ reading.pending, Returns t v

/-- A further reply that is in the tables. -/
theorem Reading.Listed.behind {t : Tables} {reading : Reading} (h : reading.Listed t) {r : Reply}
    (hr : Returns t r.value) : (reading.behind [r]).Listed t := by
  refine ⟨fun x hx => ?_, h.2⟩
  rcases List.mem_cons.mp hx with rfl | hx
  · exact hr
  · exact h.1 x hx

/-- A reading of one reply. -/
theorem Reading.Listed.single {t : Tables} {r : Reply} (hr : Returns t r.value) :
    (Reading.mk [r] none).Listed t := by
  refine ⟨fun x hx => ?_, fun v hv => by cases hv⟩
  rw [List.mem_singleton.mp hx]
  exact hr

/-- A reading that waits. -/
theorem Reading.Listed.waits {t : Tables} {v : ℤ} (hv : Returns t v) :
    (Reading.mk [] (some v)).Listed t :=
  ⟨fun x hx => (by cases hx), fun w hw => (by cases hw; exact hv)⟩

/-- The options of a cluster are in the tables. -/
theorem cluster_listed (t : Tables) (cs : Bytes) : (cluster t cs).Listed t := by
  induction cs with
  | nil => exact ⟨fun r hr => (by cases hr), fun v hv => (by cases hv)⟩
  | cons c cs ih =>
    rw [cluster]
    cases hc : shortOption t.optstring c with
    | none => exact ih.behind (.inl rfl)
    | some takes =>
      have hreturns : Returns t c.toNat := .inr (.inl ⟨c, takes, hc, rfl⟩)
      cases takes with
      | false => exact ih.behind hreturns
      | true =>
        dsimp only
        split
        · exact Reading.Listed.waits hreturns
        · exact Reading.Listed.single hreturns

/-- A long option that is found is in the table. -/
theorem longOption_mem {longopts : List LongOption} {name : Bytes} {o : LongOption}
    (h : longOption longopts name = some o) : o ∈ longopts := by
  rw [longOption] at h
  split at h
  · rename_i o' hfind
    cases h
    exact List.mem_of_find?_eq_some hfind
  · split at h
    · rename_i o' hfilter
      cases h
      have hmem : o ∈ longopts.filter (name <+: ·.name) := by
        rw [hfilter]
        exact List.mem_singleton.mpr rfl
      exact (List.mem_filter.mp hmem).1
    · cases h

/-- A long option is in the tables. -/
theorem longReading_listed (t : Tables) (body : Bytes) : (longReading t body).Listed t := by
  rw [longReading]
  cases ho : longOption t.longopts (splitValue body).1 with
  | none => exact Reading.Listed.single (.inl rfl)
  | some o =>
    have hreturns : Returns t o.val := .inr (.inr ⟨o, longOption_mem ho, rfl⟩)
    obtain ⟨name, hasArg, val⟩ := o
    cases hasArg <;> cases (splitValue body).2
    · exact Reading.Listed.single hreturns
    · exact Reading.Listed.single (.inl rfl)
    · exact Reading.Listed.waits hreturns
    · exact Reading.Listed.single hreturns

/-- The options of an element are in the tables. -/
theorem element_listed (t : Tables) (a : Bytes) : (element t a).Listed t := by
  rw [element.eq_def]
  split
  · split
    · exact longReading_listed t _
    · exact cluster_listed t _
  · exact Reading.Listed.single (.inl rfl)

/-- Every call returns `-1` or a value of the tables or a question mark. -/
theorem scan_returns (t : Tables) (args : List Bytes) :
    ∀ r ∈ (scan t args).1, Returns t r.value := by
  refine scan_rule t (P := fun _ out => ∀ r ∈ out.1, Returns t r.value) ?_ ?_ ?_ ?_ ?_ args
  · exact fun r hr => absurd hr List.not_mem_nil
  · exact fun args r hr => absurd hr List.not_mem_nil
  · exact fun a args _ _ r hr => absurd hr List.not_mem_nil
  · exact fun a args _ _ hargs => hargs
  · intro a args _ _ hargs hrest r hr
    obtain ⟨hreplies, hpending⟩ := element_listed t a
    cases hp : (element t a).pending with
    | none =>
      simp only [resume, hp, List.mem_append] at hr
      exact hr.elim (hreplies r) (hargs r)
    | some val =>
      have hval := hpending val hp
      cases args with
      | nil =>
        simp only [resume, hp, List.mem_append, List.mem_singleton] at hr
        rcases hr with hr | rfl
        · exact hreplies r hr
        · exact .inl rfl
      | cons b rest =>
        simp only [resume, hp, List.mem_append, List.mem_cons] at hr
        rcases hr with hr | rfl | hr
        · exact hreplies r hr
        · exact hval
        · exact hrest b rest rfl r hr

end MetaDigi.Getopt
