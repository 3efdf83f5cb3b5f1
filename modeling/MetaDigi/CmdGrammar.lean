import MetaDigi.CmdOptions
import Mathlib.Data.List.Nodup

/-!
# What a command line says

The grammar of command lines over one table of entries: which options occur,
with which arguments, and which operands are left. It speaks of the entries
only, not of the two tables given to the scanner. For a table whose names do
not clash the replies of the scanner lead back to the entries, and they are
the options of the grammar.
-/

namespace MetaDigi.CmdOptions

open CStrings Getopt

/-- An option with its argument. -/
abbrev Occurrence := CmdOptEntry × Option Bytes

/-- The option character of an entry that has one. -/
def CmdOptEntry.short (e : CmdOptEntry) : Option UInt8 :=
  if e.cOptChar = 0 ∨ e.cOptChar = -1 then none else some e.cOptChar.toUInt8

/-- A long name, or the part of it that only this entry's name begins with. -/
inductive Named (es : List CmdOptEntry) : Bytes → CmdOptEntry → Prop where
  | exact {e} : e ∈ es → e.endsTable = false → Named es e.szLabelStr e
  | abbreviated {name e} : e ∈ es → e.endsTable = false → name <+: e.szLabelStr →
      (∀ e' ∈ es, e'.endsTable = false → name <+: e'.szLabelStr → e' = e) → Named es name e

/-- Short options behind one dash, and the last one when it waits for the next
element. -/
inductive Cluster (es : List CmdOptEntry) :
    Bytes → List Occurrence → Option CmdOptEntry → Prop where
  | nil : Cluster es [] [] none
  | flag {e c cs occs p} : e ∈ es → e.short = some c → e.hasArg = false → Cluster es cs occs p →
      Cluster es (c :: cs) ((e, none) :: occs) p
  | attached {e c cs} : e ∈ es → e.short = some c → e.hasArg = true → cs ≠ [] →
      Cluster es (c :: cs) [(e, some cs)] none
  | separate {e c} : e ∈ es → e.short = some c → e.hasArg = true → Cluster es [c] [] (some e)

/-- A long option behind two dashes. -/
inductive Long (es : List CmdOptEntry) :
    Bytes → List Occurrence → Option CmdOptEntry → Prop where
  | flag {name e} : Named es name e → equals ∉ name → e.hasArg = false →
      Long es name [(e, none)] none
  | attached {name e} (v : Bytes) : Named es name e → equals ∉ name → e.hasArg = true →
      Long es (name ++ equals :: v) [(e, some v)] none
  | separate {name e} : Named es name e → equals ∉ name → e.hasArg = true →
      Long es name [] (some e)

/-- An element with options. -/
inductive Element (es : List CmdOptEntry) :
    Bytes → List Occurrence → Option CmdOptEntry → Prop where
  | short {c cs occs p} : c ≠ dash → Cluster es (c :: cs) occs p →
      Element es (dash :: c :: cs) occs p
  | long {body occs p} : body ≠ [] → Long es body occs p →
      Element es (dash :: dash :: body) occs p

/-- The options and the operands in front of the elements `rest`. -/
inductive Words (posixlyCorrect : Bool) (es : List CmdOptEntry) (rest : List Bytes) :
    List Bytes → List Occurrence → List Bytes → Prop where
  | done : Words posixlyCorrect es rest rest [] []
  | operand {a args occs ops} : posixlyCorrect = false → isOperand a = true →
      Words posixlyCorrect es rest args occs ops →
      Words posixlyCorrect es rest (a :: args) occs (a :: ops)
  | options {a args occs occs' ops} : Element es a occs none →
      Words posixlyCorrect es rest args occs' ops →
      Words posixlyCorrect es rest (a :: args) (occs ++ occs') ops
  | waiting {a b args occs occs' ops e} : Element es a occs (some e) →
      Words posixlyCorrect es rest args occs' ops →
      Words posixlyCorrect es rest (a :: b :: args) (occs ++ (e, some b) :: occs') ops

/-- The end of the options, with the operands behind it. -/
inductive Ends (posixlyCorrect : Bool) : List Bytes → List Bytes → Prop where
  | nil : Ends posixlyCorrect [] []
  | dashes {args} : Ends posixlyCorrect ([dash, dash] :: args) args
  | operand {a args} : posixlyCorrect = true → isOperand a = true →
      Ends posixlyCorrect (a :: args) (a :: args)

/-- The options of a command line, in the order of the arguments, and its operands. -/
def CommandLine (posixlyCorrect : Bool) (es : List CmdOptEntry) (args : List Bytes)
    (occs : List Occurrence) (ops : List Bytes) : Prop :=
  ∃ rest front back, Words posixlyCorrect es rest args occs front ∧
    Ends posixlyCorrect rest back ∧ ops = front ++ back

/-- `isalnum`. -/
def isAlnum (c : Int8) : Bool := (48 ≤ c ∧ c ≤ 57) ∨ (65 ≤ c ∧ c ≤ 90) ∨ (97 ≤ c ∧ c ≤ 122)

/-- A table whose entries can be told apart. -/
structure WellFormed (es : List CmdOptEntry) : Prop where
  /-- The index of an entry fits into a `signed char`. -/
  few : es.length ≤ 31
  /-- Option characters are letters and digits. -/
  chars : ∀ e ∈ es, e.cOptChar = 0 ∨ e.cOptChar = -1 ∨ isAlnum e.cOptChar = true
  /-- Option characters are distinct. -/
  charsDistinct : ((es.filter (fun e => e.short.isSome)).map CmdOptEntry.cOptChar).Nodup
  /-- Labels are distinct. -/
  labelsDistinct : (es.map CmdOptEntry.szLabelStr).Nodup

/-- The short options of an entry. -/
def optBytes (e : CmdOptEntry) : Bytes :=
  match e.short with
  | none => []
  | some c => c :: (if e.hasArg then [colon] else [])

/-- The long option of the entry with an index. -/
def longAt (e : CmdOptEntry) (i : ℕ) : LongOption := ⟨e.szLabelStr, e.hasArg, -2 - i⟩

/-- The long options of entries from an index on. -/
def longsFrom : List CmdOptEntry → ℕ → List LongOption
  | [], _ => []
  | e :: es, i => (if e.endsTable then [] else [longAt e i]) ++ longsFrom es (i + 1)

/-- The parameters of the scanner for a table. -/
def tablesOf (posixlyCorrect : Bool) (es : List CmdOptEntry) : Tables :=
  ⟨es.flatMap optBytes, longsFrom es 0, posixlyCorrect⟩

/-- The entry that a value of the scanner stands for. -/
def decode (es : List CmdOptEntry) (v : ℤ) : Option CmdOptEntry :=
  if Int8.ofInt v < 0 then es[(-2 - (Int8.ofInt v).toInt).toNat]?
  else es.find? (·.cOptChar = Int8.ofInt v)

/-- The option that a reply stands for. -/
def decodeReply (es : List CmdOptEntry) (r : Reply) : Option Occurrence :=
  (decode es r.value).map (·, r.optarg)

/-- A reading stands for options and for an entry that waits. -/
def Says (es : List CmdOptEntry) (reading : Reading) (occs : List Occurrence)
    (p : Option CmdOptEntry) : Prop :=
  reading.replies.map (decodeReply es) = occs.map some ∧
    reading.pending.map (decode es) = p.map some

/-- Letters and digits are no punctuation, and not negative. -/
theorem isAlnum_bounds {c : Int8} (h : isAlnum c = true) : 48 ≤ c.toInt ∧ c.toInt ≤ 122 := by
  have hbounds : (48 ≤ c ∧ c ≤ 57) ∨ (65 ≤ c ∧ c ≤ 90) ∨ (97 ≤ c ∧ c ≤ 122) := of_decide_eq_true h
  simp only [Int8.le_iff_toInt_le] at hbounds
  have h48 : (48 : Int8).toInt = 48 := by decide
  have h57 : (57 : Int8).toInt = 57 := by decide
  have h65 : (65 : Int8).toInt = 65 := by decide
  have h90 : (90 : Int8).toInt = 90 := by decide
  have h97 : (97 : Int8).toInt = 97 := by decide
  have h122 : (122 : Int8).toInt = 122 := by decide
  omega

/-- A letter or digit is not negative. -/
theorem not_neg_of_alnum {c : Int8} (h : isAlnum c = true) : ¬c < 0 := by
  obtain ⟨hlow, -⟩ := isAlnum_bounds h
  rw [Int8.lt_iff_toInt_lt, Int8.toInt_zero]
  omega

/-- The byte of a letter or digit is none of the characters of the scanner. -/
theorem isAlnum_byte {c : Int8} (h : isAlnum c = true) :
    c.toUInt8 ≠ colon ∧ c.toUInt8 ≠ semicolon ∧ c.toUInt8 ≠ dash := by
  refine ⟨fun he => ?_, fun he => ?_, fun he => ?_⟩
  · rw [show c = 58 from congrArg UInt8.toInt8 he] at h
    exact absurd h (by decide)
  · rw [show c = 59 from congrArg UInt8.toInt8 he] at h
    exact absurd h (by decide)
  · rw [show c = 45 from congrArg UInt8.toInt8 he] at h
    exact absurd h (by decide)

/-- A byte comes back through the `signed char`. -/
theorem ofInt_byte (c : UInt8) : Int8.ofInt (c.toNat : ℤ) = c.toInt8 := by
  rw [Int8.ofInt_eq_ofNat]
  exact congrArg (fun b => (⟨⟨b⟩⟩ : Int8)) (BitVec.ofNat_toNat 8 c.toBitVec)

section Table

variable {es : List CmdOptEntry}

/-- The option character of a well formed table is a letter or digit. -/
theorem WellFormed.alnum (hes : WellFormed es) {e : CmdOptEntry} (he : e ∈ es) {c : UInt8}
    (hc : e.short = some c) : isAlnum e.cOptChar = true ∧ e.cOptChar.toUInt8 = c := by
  rw [CmdOptEntry.short] at hc
  split at hc
  · cases hc
  · rename_i hne
    rcases hes.chars e he with h | h | h
    · exact absurd (.inl h) hne
    · exact absurd (.inr h) hne
    · exact ⟨h, Option.some.inj hc⟩

/-- An entry with a letter or digit has a short option. -/
theorem short_of_alnum {e : CmdOptEntry} (h : isAlnum e.cOptChar = true) :
    e.short = some e.cOptChar.toUInt8 := by
  have hne : ¬(e.cOptChar = 0 ∨ e.cOptChar = -1) := by
    rintro (h' | h') <;> rw [h'] at h <;> exact absurd h (by decide)
  rw [CmdOptEntry.short, if_neg hne]

/-- Two entries with one option character are the same. -/
theorem WellFormed.char_inj (hes : WellFormed es) {e e' : CmdOptEntry} (he : e ∈ es)
    (he' : e' ∈ es) (halnum : isAlnum e.cOptChar = true) (h : e'.cOptChar = e.cOptChar) :
    e' = e := by
  have halnum' : isAlnum e'.cOptChar = true := by rw [h]; exact halnum
  refine List.inj_on_of_nodup_map hes.charsDistinct (List.mem_filter.mpr ⟨he', ?_⟩)
    (List.mem_filter.mpr ⟨he, ?_⟩) h
  · rw [short_of_alnum halnum']
    rfl
  · rw [short_of_alnum halnum]
    rfl

/-- Two entries with one label are the same. -/
theorem WellFormed.label_inj (hes : WellFormed es) {e e' : CmdOptEntry} (he : e ∈ es)
    (he' : e' ∈ es) (h : e'.szLabelStr = e.szLabelStr) : e' = e :=
  List.inj_on_of_nodup_map hes.labelsDistinct he' he h

/-- An entry stands at one index. -/
theorem WellFormed.index_inj (hes : WellFormed es) {i j : ℕ} {e : CmdOptEntry}
    (hi : es[i]? = some e) (hj : es[j]? = some e) : i = j := by
  have hnodup : es.Nodup := List.Nodup.of_map _ hes.labelsDistinct
  obtain ⟨hlt, -⟩ := List.getElem?_eq_some_iff.mp hi
  exact (List.getElem?_inj hlt hnodup).mp (hi.trans hj.symm)

/-- The value of a long option passes the `signed char` unchanged, and is negative. -/
theorem WellFormed.index_char (hes : WellFormed es) {i : ℕ} {e : CmdOptEntry}
    (hi : es[i]? = some e) :
    (Int8.ofInt (-2 - (i : ℤ))).toInt = -2 - i ∧ Int8.ofInt (-2 - (i : ℤ)) < 0 := by
  obtain ⟨hlt, -⟩ := List.getElem?_eq_some_iff.mp hi
  have hfew := hes.few
  have htoInt : (Int8.ofInt (-2 - (i : ℤ))).toInt = -2 - i :=
    Int8.toInt_ofInt_of_le (by omega) (by omega)
  refine ⟨htoInt, ?_⟩
  rw [Int8.lt_iff_toInt_lt, htoInt, Int8.toInt_zero]
  omega

/-- The value of a short option leads to its entry. -/
theorem decode_short (hes : WellFormed es) {e : CmdOptEntry} (he : e ∈ es) {c : UInt8}
    (hc : e.short = some c) : decode es c.toNat = some e := by
  obtain ⟨halnum, rfl⟩ := hes.alnum he hc
  rw [decode, ofInt_byte, Int8.toInt8_toUInt8, if_neg (not_neg_of_alnum halnum)]
  have hsome : (es.find? (·.cOptChar = e.cOptChar)).isSome = true := by
    rw [List.find?_isSome]
    exact ⟨e, he, decide_eq_true rfl⟩
  obtain ⟨e', he'⟩ := Option.isSome_iff_exists.mp hsome
  have hsame : e' = e := hes.char_inj he (List.mem_of_find?_eq_some he') halnum
    (of_decide_eq_true (List.find?_some he' :))
  rw [he', hsame]

/-- The value of a long option leads to its entry. -/
theorem decode_long {e : CmdOptEntry} {i : ℕ} (hi : es[i]? = some e) (hes : WellFormed es) :
    decode es (-2 - i) = some e := by
  obtain ⟨htoInt, hneg⟩ := hes.index_char hi
  rw [decode, if_pos hneg, htoInt, show (-2 - (-2 - (i : ℤ))).toNat = i by omega, hi]

/-- A mistake leads to no entry. -/
theorem decode_question (hes : WellFormed es) : decode es question = none := by
  rw [decode, if_neg (by decide), List.find?_eq_none]
  intro e he hc
  have hc : e.cOptChar = 63 := of_decide_eq_true hc
  rcases hes.chars e he with h | h | h <;> rw [hc] at h <;> exact absurd h (by decide)

/-- No entry starts with a colon in the short options. -/
theorem head_optBytes (hes : ∀ e ∈ es, ∀ c, e.short = some c → c ≠ colon ∧ c ≠ semicolon) :
    (es.flatMap optBytes).head? ≠ some colon := by
  induction es with
  | nil => exact fun h => by cases h
  | cons e es ih =>
    rw [List.flatMap_cons, optBytes]
    cases hc : e.short with
    | none => exact ih fun e' he' => hes e' (List.mem_cons_of_mem _ he')
    | some c =>
      intro h
      exact (hes e (List.mem_cons_self ..) c hc).1 (by simpa using h)

/-- A lookup in the short options finds the first entry with the character. -/
theorem shortOption_find (hes : ∀ e ∈ es, ∀ c, e.short = some c → c ≠ colon ∧ c ≠ semicolon)
    (c : UInt8) :
    shortOption (es.flatMap optBytes) c = (es.find? (·.short = some c)).map CmdOptEntry.hasArg := by
  by_cases hc : c = colon ∨ c = semicolon
  · have hnone : es.find? (·.short = some c) = none := by
      rw [List.find?_eq_none]
      intro e he hshort
      obtain ⟨hcolon, hsemicolon⟩ := hes e he c (of_decide_eq_true hshort)
      exact hc.elim hcolon hsemicolon
    rw [hnone, shortOption.eq_def, if_pos hc]
    rfl
  have hcolon : colon ≠ c := fun h => hc (.inl h.symm)
  induction es with
  | nil =>
    rw [List.flatMap_nil, shortOption.eq_def, if_neg hc]
    rfl
  | cons e es ih =>
    have htail : ∀ e' ∈ es, ∀ c, e'.short = some c → c ≠ colon ∧ c ≠ semicolon :=
      fun e' he' => hes e' (List.mem_cons_of_mem _ he')
    have ih := ih htail
    rw [List.flatMap_cons, optBytes]
    cases hshort : e.short with
    | none =>
      rw [List.find?_cons_of_neg (by simp [hshort])]
      exact ih
    | some d =>
      dsimp only
      rw [List.cons_append, shortOption.eq_def, if_neg hc]
      dsimp only
      by_cases hd : d = c
      · rw [if_pos hd, List.find?_cons_of_pos (by simp [hshort, hd]), Option.map_some]
        cases harg : e.hasArg with
        | true => simp
        | false => simpa using head_optBytes htail
      · rw [if_neg hd, List.find?_cons_of_neg (by simp [hshort, hd])]
        cases harg : e.hasArg with
        | true =>
          simp only [if_true, List.singleton_append]
          rw [shortOption.eq_def, if_neg hc]
          dsimp only
          rw [if_neg hcolon]
          exact ih
        | false => exact ih

/-- The bytes of option characters are no punctuation. -/
theorem WellFormed.punctuation (hes : WellFormed es) :
    ∀ e ∈ es, ∀ c, e.short = some c → c ≠ colon ∧ c ≠ semicolon := by
  intro e he c hc
  obtain ⟨halnum, rfl⟩ := hes.alnum he hc
  obtain ⟨hcolon, hsemicolon, -⟩ := isAlnum_byte halnum
  exact ⟨hcolon, hsemicolon⟩

/-- A short option that is found belongs to an entry. -/
theorem shortOption_sound (hes : WellFormed es) {c : UInt8} {takes : Bool}
    (h : shortOption (es.flatMap optBytes) c = some takes) :
    ∃ e ∈ es, e.short = some c ∧ e.hasArg = takes := by
  rw [shortOption_find hes.punctuation] at h
  obtain ⟨e, hfind, harg⟩ := Option.map_eq_some_iff.mp h
  exact ⟨e, List.mem_of_find?_eq_some hfind, of_decide_eq_true (List.find?_some hfind :), harg⟩

/-- The short option of an entry is found. -/
theorem shortOption_complete (hes : WellFormed es) {e : CmdOptEntry} (he : e ∈ es) {c : UInt8}
    (hc : e.short = some c) : shortOption (es.flatMap optBytes) c = some e.hasArg := by
  rw [shortOption_find hes.punctuation]
  have hsome : (es.find? (·.short = some c)).isSome = true := by
    rw [List.find?_isSome]
    exact ⟨e, he, decide_eq_true hc⟩
  obtain ⟨e', he'⟩ := Option.isSome_iff_exists.mp hsome
  have hmem := List.mem_of_find?_eq_some he'
  have hc' : e'.short = some c := of_decide_eq_true (List.find?_some he' :)
  obtain ⟨halnum, hbyte⟩ := hes.alnum he hc
  obtain ⟨-, hbyte'⟩ := hes.alnum hmem hc'
  have hchar : e'.cOptChar = e.cOptChar := by
    have hboth := congrArg UInt8.toInt8 (hbyte'.trans hbyte.symm)
    rwa [Int8.toInt8_toUInt8, Int8.toInt8_toUInt8] at hboth
  rw [he', hes.char_inj he hmem halnum hchar, Option.map_some]

/-- The long options are those of the entries, each with its own index. -/
theorem mem_longsFrom (es : List CmdOptEntry) (n : ℕ) (o : LongOption) :
    o ∈ longsFrom es n ↔
      ∃ i e, es[i]? = some e ∧ e.endsTable = false ∧ o = longAt e (n + i) := by
  induction es generalizing n with
  | nil => simp [longsFrom]
  | cons e es ih =>
    rw [longsFrom, List.mem_append, ih]
    constructor
    · rintro (h | ⟨i, e', hi, hends, rfl⟩)
      · cases hends : e.endsTable with
        | true => simp [hends] at h
        | false =>
          simp only [hends, Bool.false_eq_true, if_false, List.mem_singleton] at h
          exact ⟨0, e, rfl, hends, h⟩
      · exact ⟨i + 1, e', hi, hends, by rw [Nat.add_assoc, Nat.add_comm 1]⟩
    · rintro ⟨i, e', hi, hends, rfl⟩
      cases i with
      | zero =>
        cases hi
        left
        simp [hends]
      | succ i => exact .inr ⟨i, e', hi, hends, by rw [Nat.add_assoc, Nat.add_comm 1]⟩

/-- No two long options share a value. -/
theorem longsFrom_nodup (es : List CmdOptEntry) (n : ℕ) : (longsFrom es n).Nodup := by
  induction es generalizing n with
  | nil => exact List.nodup_nil
  | cons e es ih =>
    rw [longsFrom]
    cases e.endsTable with
    | true => exact ih (n + 1)
    | false =>
      refine List.nodup_cons.mpr ⟨fun h => ?_, ih (n + 1)⟩
      obtain ⟨i, e', -, -, hsame⟩ := (mem_longsFrom ..).mp h
      have hval : -2 - (n : ℤ) = -2 - ((n + 1 + i : ℕ) : ℤ) := congrArg LongOption.val hsame
      omega

/-- A long option that is found belongs to an entry that is named. -/
theorem longOption_sound {name : Bytes} {o : LongOption}
    (h : longOption (longsFrom es 0) name = some o) :
    ∃ i e, es[i]? = some e ∧ Named es name e ∧ o = longAt e i := by
  obtain ⟨i, e, hi, hends, ho⟩ := (mem_longsFrom ..).mp (longOption_mem h)
  rw [Nat.zero_add] at ho
  refine ⟨i, e, hi, ?_, ho⟩
  have he := List.mem_of_getElem? hi
  rw [longOption] at h
  split at h
  · rename_i o' hfind
    cases h
    have hname : o.name = name := of_decide_eq_true (List.find?_some hfind :)
    rw [ho] at hname
    rw [← hname]
    exact .exact he hends
  · split at h
    · rename_i o' hfilter
      cases h
      have honly : ∀ x, x ∈ longsFrom es 0 ∧ name <+: x.name ↔ x = o := by
        intro x
        have hx : x ∈ (longsFrom es 0).filter (name <+: ·.name) ↔ x = o := by
          rw [hfilter, List.mem_singleton]
        rwa [List.mem_filter, decide_eq_true_iff] at hx
      have hprefix := ((honly o).mpr rfl).2
      rw [ho] at hprefix
      refine .abbreviated he hends hprefix fun e' he' hends' hprefix' => ?_
      obtain ⟨j, hj⟩ := List.mem_iff_getElem?.mp he'
      have hsame := (honly (longAt e' (0 + j))).mp
        ⟨(mem_longsFrom ..).mpr ⟨j, e', hj, hends', rfl⟩, hprefix'⟩
      have hval : -2 - ((0 + j : ℕ) : ℤ) = -2 - (i : ℤ) := congrArg LongOption.val (hsame.trans ho)
      rw [show j = i by omega, hi] at hj
      exact (Option.some.inj hj).symm
    · cases h

/-- The long option of an entry that is named is found. -/
theorem longOption_complete (hes : WellFormed es) {name : Bytes} {e : CmdOptEntry}
    (h : Named es name e) :
    ∃ i, es[i]? = some e ∧ longOption (longsFrom es 0) name = some (longAt e i) := by
  have hentry : e ∈ es ∧ e.endsTable = false := by
    cases h with
    | exact he hends => exact ⟨he, hends⟩
    | abbreviated he hends _ _ => exact ⟨he, hends⟩
  obtain ⟨he, hends⟩ := hentry
  obtain ⟨i, hi⟩ := List.mem_iff_getElem?.mp he
  refine ⟨i, hi, ?_⟩
  -- the entry found by any lookup is this one
  have hfound : ∀ o ∈ longsFrom es 0, (∀ e' ∈ es, e'.endsTable = false → e'.szLabelStr = o.name →
      e' = e) → o = longAt e i := by
    intro o ho honly
    obtain ⟨j, e', hj, hends', rfl⟩ := (mem_longsFrom ..).mp ho
    have hsame := honly e' (List.mem_of_getElem? hj) hends' rfl
    rw [hsame] at hj ⊢
    rw [Nat.zero_add, hes.index_inj hj hi]
  have hlisted : longAt e i ∈ longsFrom es 0 :=
    (mem_longsFrom ..).mpr ⟨i, e, hi, hends, by rw [Nat.zero_add]⟩
  rw [longOption]
  cases hfind : (longsFrom es 0).find? (·.name = name) with
  | some o =>
    have hname : o.name = name := of_decide_eq_true (List.find?_some hfind :)
    refine congrArg some (hfound o (List.mem_of_find?_eq_some hfind) fun e' he' hends' hlabel => ?_)
    cases h with
    | exact _ _ => exact hes.label_inj he he' (hlabel.trans hname)
    | abbreviated _ _ _ honly =>
      rw [hname] at hlabel
      exact honly e' he' hends' (hlabel ▸ List.prefix_rfl)
  | none =>
    have hnone := List.find?_eq_none.mp hfind
    cases h with
    | exact _ _ => exact absurd rfl (fun hn => hnone _ hlisted (decide_eq_true hn))
    | abbreviated _ _ hprefix honly =>
      have hall : ∀ o ∈ (longsFrom es 0).filter (name <+: ·.name), o = longAt e i := by
        intro o ho
        obtain ⟨ho, hname⟩ := List.mem_filter.mp ho
        have hname : name <+: o.name := of_decide_eq_true hname
        exact hfound o ho fun e' he' hends' hlabel => honly e' he' hends' (hlabel ▸ hname)
      have hmem : longAt e i ∈ (longsFrom es 0).filter (name <+: ·.name) :=
        List.mem_filter.mpr ⟨hlisted, decide_eq_true hprefix⟩
      have hnodup := (longsFrom_nodup es 0).filter (name <+: ·.name)
      have hsingle : (longsFrom es 0).filter (name <+: ·.name) = [longAt e i] := by
        have hreplicate := List.eq_replicate_of_mem hall
        rw [hreplicate] at hnodup hmem ⊢
        have hle := List.nodup_replicate.mp hnodup
        have hpos := List.length_pos_of_mem hmem
        rw [List.length_replicate] at hpos
        rw [show ((longsFrom es 0).filter (name <+: ·.name)).length = 1 by omega]
        rfl
      simp only [hsingle]

/-- A reading of nothing. -/
theorem says_empty {occs : List Occurrence} {p : Option CmdOptEntry} :
    Says es ⟨[], none⟩ occs p ↔ occs = [] ∧ p = none := by
  constructor
  · rintro ⟨hoccs, hp⟩
    exact ⟨List.map_eq_nil_iff.mp hoccs.symm, Option.map_eq_none_iff.mp hp.symm⟩
  · rintro ⟨rfl, rfl⟩
    exact ⟨rfl, rfl⟩

/-- A reading that waits. -/
theorem says_waits {v : ℤ} {occs : List Occurrence} {p : Option CmdOptEntry} :
    Says es ⟨[], some v⟩ occs p ↔ occs = [] ∧ ∃ e, decode es v = some e ∧ p = some e := by
  constructor
  · rintro ⟨hoccs, hp⟩
    obtain ⟨e, he, hv⟩ := Option.map_eq_some_iff.mp hp.symm
    exact ⟨List.map_eq_nil_iff.mp hoccs.symm, e, hv.symm, he⟩
  · rintro ⟨rfl, e, he, rfl⟩
    exact ⟨rfl, by rw [Option.map_some, he, Option.map_some]⟩

/-- A reading behind a reply. -/
theorem says_behind {r : Reply} {reading : Reading} {occs : List Occurrence}
    {p : Option CmdOptEntry} :
    Says es (reading.behind [r]) occs p ↔
      ∃ o occs', decodeReply es r = some o ∧ occs = o :: occs' ∧ Says es reading occs' p := by
  constructor
  · rintro ⟨hoccs, hp⟩
    obtain ⟨o, occs', rfl, ho, hoccs'⟩ := List.map_eq_cons_iff.mp hoccs.symm
    exact ⟨o, occs', ho.symm, rfl, hoccs'.symm, hp⟩
  · rintro ⟨o, occs', ho, rfl, hoccs, hp⟩
    exact ⟨congrArg₂ List.cons ho hoccs, hp⟩

/-- A reading of one reply. -/
theorem says_single {r : Reply} {occs : List Occurrence} {p : Option CmdOptEntry} :
    Says es ⟨[r], none⟩ occs p ↔ ∃ o, decodeReply es r = some o ∧ occs = [o] ∧ p = none := by
  change Says es ((Reading.mk [] none).behind [r]) occs p ↔ _
  rw [says_behind]
  constructor
  · rintro ⟨o, occs', ho, rfl, hsays⟩
    obtain ⟨rfl, rfl⟩ := says_empty.mp hsays
    exact ⟨o, ho, rfl, rfl⟩
  · rintro ⟨o, ho, rfl, rfl⟩
    exact ⟨o, [], ho, rfl, says_empty.mpr ⟨rfl, rfl⟩⟩

/-- A mistake stands for no option. -/
theorem decodeReply_mistake (hes : WellFormed es) : decodeReply es mistake = none := by
  rw [decodeReply, mistake, decode_question hes]
  rfl

/-- The reply to a short option. -/
theorem decodeReply_short (hes : WellFormed es) {e : CmdOptEntry} (he : e ∈ es) {c : UInt8}
    (hc : e.short = some c) (v : Option Bytes) :
    decodeReply es ⟨c.toNat, v⟩ = some (e, v) := by
  rw [decodeReply, decode_short hes he hc]
  rfl

/-- The reply to a long option. -/
theorem decodeReply_long (hes : WellFormed es) {e : CmdOptEntry} {i : ℕ} (hi : es[i]? = some e)
    (v : Option Bytes) : decodeReply es ⟨(longAt e i).val, v⟩ = some (e, v) := by
  rw [decodeReply, longAt, decode_long hi hes]
  rfl

/-- The scanner reads a cluster as the grammar does. -/
theorem cluster_iff (hes : WellFormed es) (posixlyCorrect : Bool) (cs : Bytes)
    (occs : List Occurrence) (p : Option CmdOptEntry) :
    Cluster es cs occs p ↔ Says es (cluster (tablesOf posixlyCorrect es) cs) occs p := by
  constructor
  · intro h
    induction h with
    | nil => exact says_empty.mpr ⟨rfl, rfl⟩
    | flag he hc harg _ ih =>
      rw [cluster, tablesOf, shortOption_complete hes he hc, harg]
      exact says_behind.mpr ⟨_, _, decodeReply_short hes he hc none, rfl, ih⟩
    | attached he hc harg hcs =>
      rw [cluster, tablesOf, shortOption_complete hes he hc, harg]
      simp only [if_neg hcs]
      exact says_single.mpr ⟨_, decodeReply_short hes he hc _, rfl, rfl⟩
    | separate he hc harg =>
      rw [cluster, tablesOf, shortOption_complete hes he hc, harg]
      exact says_waits.mpr ⟨rfl, _, decode_short hes he hc, rfl⟩
  · intro h
    induction cs generalizing occs with
    | nil =>
      obtain ⟨rfl, rfl⟩ := says_empty.mp h
      exact .nil
    | cons c cs ih =>
      rw [cluster] at h
      cases hlook : shortOption (tablesOf posixlyCorrect es).optstring c with
      | none =>
        rw [hlook] at h
        obtain ⟨o, occs', ho, -⟩ := says_behind.mp h
        rw [decodeReply_mistake hes] at ho
        cases ho
      | some takes =>
        obtain ⟨e, he, hc, harg⟩ := shortOption_sound hes hlook
        rw [hlook] at h
        cases takes with
        | false =>
          obtain ⟨o, occs', ho, rfl, hsays⟩ := says_behind.mp h
          rw [decodeReply_short hes he hc] at ho
          cases ho
          exact .flag he hc harg (ih occs' hsays)
        | true =>
          by_cases hcs : cs = []
          · simp only [if_pos hcs] at h
            obtain ⟨rfl, e', he', rfl⟩ := says_waits.mp h
            rw [decode_short hes he hc] at he'
            cases he'
            rw [hcs]
            exact .separate he hc harg
          · simp only [if_neg hcs] at h
            obtain ⟨o, ho, rfl, rfl⟩ := says_single.mp h
            rw [decodeReply_short hes he hc] at ho
            cases ho
            exact .attached he hc harg hcs

/-- The scanner reads a long option as the grammar does. -/
theorem long_iff (hes : WellFormed es) (posixlyCorrect : Bool) (body : Bytes)
    (occs : List Occurrence) (p : Option CmdOptEntry) :
    Long es body occs p ↔ Says es (longReading (tablesOf posixlyCorrect es) body) occs p := by
  constructor
  · intro h
    cases h with
    | flag hname hequals harg =>
      obtain ⟨i, hi, hlook⟩ := longOption_complete hes hname
      rw [longReading, splitValue_name hequals, tablesOf, hlook, longAt, harg]
      exact says_single.mpr ⟨_, decodeReply_long hes hi none, rfl, rfl⟩
    | attached v hname hequals harg =>
      obtain ⟨i, hi, hlook⟩ := longOption_complete hes hname
      rw [longReading, splitValue_append hequals, tablesOf, hlook, longAt, harg]
      exact says_single.mpr ⟨_, decodeReply_long hes hi _, rfl, rfl⟩
    | separate hname hequals harg =>
      obtain ⟨i, hi, hlook⟩ := longOption_complete hes hname
      rw [longReading, splitValue_name hequals, tablesOf, hlook, longAt, harg]
      exact says_waits.mpr ⟨rfl, _, decode_long hi hes, rfl⟩
  · intro h
    have hnot : ∀ {occs p}, ¬Says es ⟨[mistake], none⟩ occs p := by
      intro occs p h
      obtain ⟨o, ho, -⟩ := says_single.mp h
      rw [decodeReply_mistake hes] at ho
      cases ho
    obtain ⟨name, hequals, hbody⟩ := splitValue_cases body
    have hsplit : (splitValue body).1 = name := by
      rcases hbody with rfl | ⟨v, rfl⟩
      · rw [splitValue_name hequals]
      · rw [splitValue_append hequals]
    rw [longReading, hsplit] at h
    cases hlook : longOption (tablesOf posixlyCorrect es).longopts name with
    | none =>
      rw [hlook] at h
      exact absurd h hnot
    | some o =>
      obtain ⟨i, e, hi, hnamed, rfl⟩ := longOption_sound hlook
      rw [hlook, longAt] at h
      rcases hbody with rfl | ⟨v, rfl⟩
      · rw [splitValue_name hequals] at h
        cases harg : e.hasArg with
        | false =>
          rw [harg] at h
          obtain ⟨o, ho, rfl, rfl⟩ := says_single.mp h
          rw [decodeReply, decode_long hi hes] at ho
          cases ho
          exact .flag hnamed hequals harg
        | true =>
          rw [harg] at h
          obtain ⟨rfl, e', he', rfl⟩ := says_waits.mp h
          rw [decode_long hi hes] at he'
          cases he'
          exact .separate hnamed hequals harg
      · rw [splitValue_append hequals] at h
        cases harg : e.hasArg with
        | false =>
          rw [harg] at h
          exact absurd h hnot
        | true =>
          rw [harg] at h
          obtain ⟨o, ho, rfl, rfl⟩ := says_single.mp h
          rw [decodeReply, decode_long hi hes] at ho
          cases ho
          exact .attached v hnamed hequals harg

/-- The scanner reads an element as the grammar does. -/
theorem element_iff (hes : WellFormed es) (posixlyCorrect : Bool) (a : Bytes)
    (occs : List Occurrence) (p : Option CmdOptEntry) :
    Element es a occs p ↔ isOperand a = false ∧ a ≠ [dash, dash] ∧
      Says es (element (tablesOf posixlyCorrect es) a) occs p := by
  constructor
  · intro h
    cases h with
    | short hc hcluster =>
      refine ⟨by simp [isOperand], fun h => hc (List.cons.inj (List.cons.inj h).2).1, ?_⟩
      rw [element, if_neg hc]
      exact (cluster_iff hes posixlyCorrect ..).mp hcluster
    | long hbody hlong =>
      refine ⟨by simp [isOperand], fun h => hbody (by simpa using h), ?_⟩
      rw [element, if_pos rfl]
      exact (long_iff hes posixlyCorrect ..).mp hlong
  · rintro ⟨ha, hdashes, h⟩
    obtain ⟨c, cs, rfl⟩ := option_cons ha
    rw [element] at h
    by_cases hc : c = dash
    · rw [if_pos hc] at h
      rw [hc] at hdashes ⊢
      exact .long (fun hcs => hdashes (by rw [hcs])) ((long_iff hes posixlyCorrect ..).mpr h)
    · rw [if_neg hc] at h
      exact .short hc ((cluster_iff hes posixlyCorrect ..).mpr h)

/-- Elements that have been read give their options and operands first. -/
theorem scan_words (hes : WellFormed es) {posixlyCorrect : Bool} {rest args ops : List Bytes}
    {occs : List Occurrence} (h : Words posixlyCorrect es rest args occs ops) :
    ∃ rs, rs.map (decodeReply es) = occs.map some ∧
      scan (tablesOf posixlyCorrect es) args =
        (rs ++ (scan (tablesOf posixlyCorrect es) rest).1,
          ops ++ (scan (tablesOf posixlyCorrect es) rest).2) := by
  induction h with
  | done => exact ⟨[], rfl, rfl⟩
  | operand hposix ha _ ih =>
    obtain ⟨rs, hrs, hscan⟩ := ih
    refine ⟨rs, hrs, ?_⟩
    rw [scan_operand _ ha hposix, hscan]
    rfl
  | @options a args occs occs' ops hel _ ih =>
    obtain ⟨rs, hrs, hscan⟩ := ih
    obtain ⟨ha, hdashes, hreplies, hpending⟩ := (element_iff hes posixlyCorrect ..).mp hel
    have hpending := Option.map_eq_none_iff.mp hpending
    refine ⟨(element (tablesOf posixlyCorrect es) a).replies ++ rs,
      by rw [List.map_append, List.map_append, hreplies, hrs], ?_⟩
    rw [scan_element _ hdashes ha]
    simp only [resume, hpending, hscan, List.append_assoc]
  | @waiting a b args occs occs' ops e hel _ ih =>
    obtain ⟨rs, hrs, hscan⟩ := ih
    obtain ⟨ha, hdashes, hreplies, hpending⟩ := (element_iff hes posixlyCorrect ..).mp hel
    obtain ⟨v, hv, he⟩ := Option.map_eq_some_iff.mp hpending
    refine ⟨(element (tablesOf posixlyCorrect es) a).replies ++ ⟨v, some b⟩ :: rs, ?_, ?_⟩
    · rw [List.map_append, List.map_append, List.map_cons, List.map_cons, hreplies, hrs,
        decodeReply, he]
      rfl
    · rw [scan_element _ hdashes ha]
      simp only [resume, hv, hscan, List.append_assoc, List.cons_append]

/-- At the end of the options no reply is left. -/
theorem scan_ends {posixlyCorrect : Bool} {rest ops : List Bytes}
    (h : Ends posixlyCorrect rest ops) :
    scan (tablesOf posixlyCorrect es) rest = ([], ops) := by
  cases h with
  | nil => rfl
  | dashes => exact scan_dashes ..
  | operand hposix ha => exact scan_operand_posix _ ha hposix _

/-- A command line without an option. -/
theorem CommandLine.of_ends {posixlyCorrect : Bool} {args ops : List Bytes}
    (h : Ends posixlyCorrect args ops) : CommandLine posixlyCorrect es args [] ops :=
  ⟨args, [], ops, .done, h, rfl⟩

/-- A command line that starts with an operand. -/
theorem CommandLine.operand {posixlyCorrect : Bool} {a : Bytes} {args ops : List Bytes}
    {occs : List Occurrence} (hposix : posixlyCorrect = false) (ha : isOperand a = true)
    (h : CommandLine posixlyCorrect es args occs ops) :
    CommandLine posixlyCorrect es (a :: args) occs (a :: ops) := by
  obtain ⟨rest, front, back, hwords, hends, rfl⟩ := h
  exact ⟨rest, a :: front, back, .operand hposix ha hwords, hends, rfl⟩

/-- A command line that starts with options. -/
theorem CommandLine.options {posixlyCorrect : Bool} {a : Bytes} {args ops : List Bytes}
    {occs occs' : List Occurrence} (ha : Element es a occs none)
    (h : CommandLine posixlyCorrect es args occs' ops) :
    CommandLine posixlyCorrect es (a :: args) (occs ++ occs') ops := by
  obtain ⟨rest, front, back, hwords, hends, rfl⟩ := h
  exact ⟨rest, front, back, .options ha hwords, hends, rfl⟩

/-- A command line that starts with options, the last one with its argument behind it. -/
theorem CommandLine.waiting {posixlyCorrect : Bool} {a b : Bytes} {args ops : List Bytes}
    {occs occs' : List Occurrence} {e : CmdOptEntry} (ha : Element es a occs (some e))
    (h : CommandLine posixlyCorrect es args occs' ops) :
    CommandLine posixlyCorrect es (a :: b :: args) (occs ++ (e, some b) :: occs') ops := by
  obtain ⟨rest, front, back, hwords, hends, rfl⟩ := h
  exact ⟨rest, front, back, .waiting ha hwords, hends, rfl⟩

/-- When every reply stands for an option, the arguments are a command line. -/
theorem commandLine_of_scan (hes : WellFormed es) (posixlyCorrect : Bool) (args : List Bytes) :
    ∀ occs : List Occurrence,
      (scan (tablesOf posixlyCorrect es) args).1.map (decodeReply es) = occs.map some →
      CommandLine posixlyCorrect es args occs (scan (tablesOf posixlyCorrect es) args).2 := by
  refine scan_rule (tablesOf posixlyCorrect es) (P := fun args out => ∀ occs : List Occurrence,
    out.1.map (decodeReply es) = occs.map some → CommandLine posixlyCorrect es args occs out.2)
    ?_ ?_ ?_ ?_ ?_ args
  · intro occs hoccs
    rw [List.map_eq_nil_iff.mp hoccs.symm]
    exact .of_ends .nil
  · intro args occs hoccs
    rw [List.map_eq_nil_iff.mp hoccs.symm]
    exact .of_ends .dashes
  · intro a args ha hposix occs hoccs
    rw [List.map_eq_nil_iff.mp hoccs.symm]
    exact .of_ends (.operand hposix ha)
  · exact fun a args ha hposix hargs occs hoccs => .operand hposix ha (hargs occs hoccs)
  · intro a args hdashes ha hargs hrest occs hoccs
    cases hpending : (element (tablesOf posixlyCorrect es) a).pending with
    | none =>
      simp only [resume, hpending, List.map_append] at hoccs ⊢
      obtain ⟨front, back, rfl, hfront, hback⟩ := List.map_eq_append_iff.mp hoccs.symm
      have hel := (element_iff hes posixlyCorrect a front none).mpr
        ⟨ha, hdashes, hfront.symm, by rw [hpending]; rfl⟩
      exact .options hel (hargs back hback.symm)
    | some v =>
      cases args with
      | nil =>
        simp only [resume, hpending, List.map_append, List.map_cons, List.map_nil,
          decodeReply_mistake hes] at hoccs
        obtain ⟨front, back, rfl, -, hback⟩ := List.map_eq_append_iff.mp hoccs.symm
        obtain ⟨o, -, -, ho, -⟩ := List.map_eq_cons_iff.mp hback
        cases ho
      | cons b rest =>
        simp only [resume, hpending, List.map_append, List.map_cons] at hoccs ⊢
        obtain ⟨front, back, rfl, hfront, hback⟩ := List.map_eq_append_iff.mp hoccs.symm
        obtain ⟨o, occs, rfl, ho, hlast⟩ := List.map_eq_cons_iff.mp hback
        obtain ⟨e, he, rfl⟩ := Option.map_eq_some_iff.mp ho.symm
        have hel := (element_iff hes posixlyCorrect a front (some e)).mpr
          ⟨ha, hdashes, hfront.symm, by rw [hpending, Option.map_some, he, Option.map_some]⟩
        exact .waiting hel (hrest b rest rfl occs hlast.symm)

/-- The replies of the scanner are the options of the command line. -/
theorem commandLine_iff (hes : WellFormed es) (posixlyCorrect : Bool) (args : List Bytes)
    (occs : List Occurrence) (ops : List Bytes) :
    CommandLine posixlyCorrect es args occs ops ↔
      (scan (tablesOf posixlyCorrect es) args).1.map (decodeReply es) = occs.map some ∧
        (scan (tablesOf posixlyCorrect es) args).2 = ops := by
  constructor
  · rintro ⟨rest, front, back, hwords, hends, rfl⟩
    obtain ⟨rs, hrs, hscan⟩ := scan_words hes hwords
    rw [hscan, scan_ends hends, List.append_nil]
    exact ⟨hrs, rfl⟩
  · rintro ⟨hoccs, rfl⟩
    exact commandLine_of_scan hes posixlyCorrect args occs hoccs

/-- A command line says one thing. -/
theorem CommandLine.unique (hes : WellFormed es) {posixlyCorrect : Bool}
    {args ops ops' : List Bytes} {occs occs' : List Occurrence}
    (h : CommandLine posixlyCorrect es args occs ops)
    (h' : CommandLine posixlyCorrect es args occs' ops') : occs' = occs ∧ ops' = ops := by
  obtain ⟨hoccs, hops⟩ := (commandLine_iff hes ..).mp h
  obtain ⟨hoccs', hops'⟩ := (commandLine_iff hes ..).mp h'
  have hsame : occs'.map some = occs.map some := hoccs'.symm.trans hoccs
  exact ⟨List.map_injective_iff.mpr (fun _ _ h => Option.some.inj h) hsame, hops'.symm.trans hops⟩

end Table

end MetaDigi.CmdOptions
