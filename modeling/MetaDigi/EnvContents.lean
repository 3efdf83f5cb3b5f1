import MetaDigi.EnvEdits

/-!
# What a block holds

The checksum of a block says nothing about its variables. To the scans there
are four kinds of data: a list of variables; a list behind a single NUL, which
only the scan for the end mark gets to; and data without an end mark, with a
string or with a NUL in front. For each of them it is told which changes and
which lookups stay inside the block, and what they leave there.
-/

namespace MetaDigi.EnvContents

open CheckedMemory CStrings EnvEdits EnvFuncs EnvMain EnvScan EnvStore PackedStrings

/-- What the data of a block is to the scans. -/
inductive Contents where
  /-- A list of variables. -/
  | listed (L : List Bytes)
  /-- A list of variables behind a NUL. -/
  | hidden (L : List Bytes)
  /-- Strings without an end mark. -/
  | endless (L : List Bytes)
  /-- A NUL in front of strings without an end mark. -/
  | blind

/-- Strings with their terminators, and behind them one without. -/
def Unended (data : Bytes) (L : List Bytes) : Prop :=
  (∀ s ∈ L, Packable 0 s) ∧ ∃ tail, (0 : UInt8) ∉ tail ∧ data = flat 0 L ++ tail

/-- The data has these contents. -/
def Contents.In (data : Bytes) : Contents → Prop
  | .listed L => Holds 0 data L
  | .hidden L => L ≠ [] ∧ ∃ rest, data = 0 :: rest ∧ Holds 0 rest L
  | .endless L => Unended data L
  | .blind => ∃ rest L, data = 0 :: rest ∧ Unended rest L

/-- A lookup ends also when the name is not there. -/
def Contents.Searched : Contents → Prop
  | .endless _ => False
  | .listed _ | .hidden _ | .blind => True

/-- There is an end mark. -/
def Contents.Marked : Contents → Prop
  | .listed _ | .hidden _ => True
  | .endless _ | .blind => False

/-- The lookup of a name ends. -/
def Contents.Finds (var : CString) : Contents → Prop
  | .endless L => L.any (assigns var.val) = true
  | .listed _ | .hidden _ | .blind => True

/-- There is room for a variable, in so many cells. -/
def Contents.HasRoom (varstring : CString) (cells : ℕ) : Contents → Prop
  | .listed L =>
    (packed 0 (L.eraseP (assigns (varName varstring).val) ++ [varstring.val])).length ≤ cells
  | .hidden L => 1 + (packed 0 (L ++ [varstring.val])).length ≤ cells
  | .endless _ | .blind => False

/-- The contents with a variable added. -/
def Contents.added (varstring : CString) : Contents → Contents
  | .listed L => .listed (L.eraseP (assigns (varName varstring).val) ++ [varstring.val])
  | .hidden L => .hidden (L ++ [varstring.val])
  | .endless L => .endless L
  | .blind => .blind

/-- The contents with a variable removed. -/
def Contents.removed (var : CString) : Contents → Contents
  | .listed L => .listed (L.eraseP (assigns var.val))
  | .hidden L => .hidden L
  | .endless L => .endless L
  | .blind => .blind

/-- The end of the data is where it is taken to be, or there is no data: the
difference of the sizes is no size when the block is shorter than its header. -/
def Bounded (data : Bytes) (till : ℕ) : Prop := data = [] ∨ till = data.length

/-- An access beside an array. -/
def Faults {α : Type} (r : Except Fault α) : Prop := ∃ f, r = .error f

section Faults

variable {α β : Type}

theorem not_faults_ok (x : α) : ¬Faults (.ok x : Except Fault α) := by
  rintro ⟨f, hf⟩
  cases hf

/-- A computation that leaves an array is not gone on with. -/
theorem Faults.bind {r : Except Fault α} (h : Faults r) (f : α → Except Fault β) :
    Faults (r >>= f) := by
  obtain ⟨fault, rfl⟩ := h
  exact ⟨fault, rfl⟩

/-- It leaves none, or it has a result. -/
theorem not_faults_iff {r : Except Fault α} : ¬Faults r ↔ ∃ x, r = .ok x := by
  cases r with
  | error f => exact ⟨fun h => absurd ⟨f, rfl⟩ h, by rintro ⟨x, hx⟩; cases hx⟩
  | ok x => exact ⟨fun _ => ⟨x, rfl⟩, fun _ => not_faults_ok x⟩

end Faults

/-- Data splits at its first empty string, or nothing ends it. -/
theorem exists_strings (data : Bytes) :
    ∃ L, Unended data L ∨ (∀ s ∈ L, Packable 0 s) ∧ ∃ rest, data = flat 0 L ++ 0 :: rest := by
  induction hlen : data.length using Nat.strong_induction_on generalizing data with
  | _ n ih =>
    by_cases hnul : (0 : UInt8) ∈ data
    swap
    · exact ⟨[], .inl ⟨by simp, data, hnul, rfl⟩⟩
    obtain ⟨s, rest, rfl, hs⟩ := List.eq_append_cons_of_mem hnul
    by_cases hempty : s = []
    · exact ⟨[], .inr ⟨by simp, rest, by simp [hempty]⟩⟩
    have hpack : Packable 0 s := ⟨hempty, hs⟩
    have hshorter : rest.length < n := by
      rw [← hlen, List.length_append, List.length_cons]
      omega
    obtain ⟨L, ⟨hL, tail, htail, hrest⟩ | ⟨hL, rest', hrest⟩⟩ := ih _ hshorter rest rfl
    · refine ⟨s :: L, .inl ⟨?_, tail, htail, by simp [hrest]⟩⟩
      simpa using ⟨hpack, hL⟩
    · refine ⟨s :: L, .inr ⟨?_, rest', by simp [hrest]⟩⟩
      simpa using ⟨hpack, hL⟩

/-- All data is of one of the four kinds. -/
theorem exists_contents (data : Bytes) : ∃ c : Contents, c.In data := by
  obtain ⟨L, hunended | ⟨hL, rest, hdata⟩⟩ := exists_strings data
  · exact ⟨.endless L, hunended⟩
  by_cases hne : L = []
  swap
  · exact ⟨.listed L, (holds_iff_of_ne_nil hne).mpr ⟨hL, rest, hdata⟩⟩
  rw [hne, flat_nil, List.nil_append] at hdata
  obtain ⟨M, hunended | ⟨hM, rest', hrest⟩⟩ := exists_strings rest
  · exact ⟨.blind, rest, M, hdata, hunended⟩
  by_cases hempty : M = []
  · rw [hempty, flat_nil, List.nil_append] at hrest
    exact ⟨.listed [], holds_nil_iff.mpr ⟨rest', by rw [hdata, hrest]⟩⟩
  · exact ⟨.hidden M, hempty, rest, hdata, (holds_iff_of_ne_nil hempty).mpr ⟨hM, rest', hrest⟩⟩

section Unended

variable {L : List Bytes} {tail : Bytes}

/-- The string at a place, its terminator and what follows. -/
theorem at_entry (pre s : Bytes) :
    pre ++ flat 0 (s :: L) ++ tail = pre ++ s ++ 0 :: (flat 0 L ++ tail) := by simp

/-- What follows the string, as seen from behind it. -/
theorem behind_entry (pre s : Bytes) :
    pre ++ s ++ [0] ++ flat 0 L ++ tail = pre ++ s ++ 0 :: (flat 0 L ++ tail) := by simp

/-- The scan for a terminator runs out of a string without one. -/
theorem skipChars_unended (pre : Bytes) (htail : (0 : UInt8) ∉ tail) (left : ℕ) :
    Faults (skipChars (pre ++ tail) left pre.length) := by
  induction left generalizing pre tail with
  | zero => exact ⟨_, rfl⟩
  | succ left ih =>
    rw [skipChars]
    cases tail with
    | nil =>
      rw [load_past (by simp)]
      exact ⟨_, rfl⟩
    | cons c tail =>
      have hc : c ≠ 0 := fun h => htail (by simp [h])
      have hrest := ih (pre ++ [c]) (fun h => htail (List.mem_cons_of_mem _ h))
      simp only [List.append_assoc, List.singleton_append, List.length_append,
        List.length_singleton] at hrest
      simpa only [load_append, bind, Except.bind, if_neg hc] using hrest

/-- So does every function that reads it. -/
theorem loadString_unended (pre : Bytes) (htail : (0 : UInt8) ∉ tail) :
    Faults (loadString (pre ++ tail) pre.length) :=
  (skipChars_unended pre htail _).bind _

/-- Such a string is never passed over as one that does not match. -/
theorem entryMatches_unended (pre : Bytes) (htail : (0 : UInt8) ∉ tail) (needle : Bytes) :
    Faults (entryMatches (pre ++ tail) pre.length (pre ++ tail).length needle) := by
  rw [entryMatches]
  cases tail with
  | nil =>
    rw [load_past (by simp)]
    exact ⟨_, rfl⟩
  | cons c tail =>
    have hc : c ≠ 0 := fun h => htail (by simp [h])
    have hin : pre.length < (pre ++ c :: tail).length := by simp
    have hstring := loadString_unended pre htail
    simpa only [load_append, bind, Except.bind, if_pos (And.intro hc hin)] using
      hstring.bind fun s => pure (decide (strstr needle s = some 0))

/-- A search goes on behind the strings that do not match, and leaves the block. -/
theorem searchVar_unended (w pre : Bytes) (hL : ∀ s ∈ L, Packable 0 s)
    (htail : (0 : UInt8) ∉ tail) (hnone : L.any (assigns w) = false) (left : ℕ) :
    Faults (searchVar (pre ++ flat 0 L ++ tail) (pre ++ flat 0 L ++ tail).length
      (w ++ [varAsign]) left pre.length) := by
  induction L generalizing pre left with
  | nil =>
    rw [flat_nil, List.append_nil]
    cases left with
    | zero => exact ⟨_, rfl⟩
    | succ left => exact (entryMatches_unended pre htail _).bind _
  | cons s L ih =>
    cases left with
    | zero => exact ⟨_, rfl⟩
    | succ left =>
      rw [List.any_cons, Bool.or_eq_false_iff] at hnone
      have hrest := ih (pre ++ s ++ [0]) (fun t ht => hL t (List.mem_cons_of_mem _ ht)) hnone.2 left
      rw [behind_entry, length_entry] at hrest
      rw [at_entry, searchVar_entry w pre _ (hL s (by simp)), hnone.1, if_neg Bool.false_ne_true]
      exact hrest

/-- A search ends at a string that matches. -/
theorem searchVar_found (tail w pre : Bytes) (hL : ∀ s ∈ L, Packable 0 s) {addr : ℕ}
    (haddr : addrWhere (assigns w) L = some addr) (left : ℕ)
    (hleft : (flat 0 L ++ tail).length ≤ left) :
    searchVar (pre ++ flat 0 L ++ tail) (pre ++ flat 0 L ++ tail).length (w ++ [varAsign]) left
      pre.length = .ok (some (pre.length + addr)) := by
  induction L generalizing pre left addr with
  | nil => cases haddr
  | cons s L ih =>
    simp only [flat_cons, List.length_append, List.length_cons] at hleft
    obtain ⟨left, rfl⟩ := Nat.exists_eq_add_one_of_ne_zero (n := left) (by omega)
    rw [at_entry, searchVar_entry w pre _ (hL s (by simp))]
    rw [addrWhere] at haddr
    split at haddr
    · rename_i hs
      rw [if_pos hs, ← Option.some.inj haddr, Nat.add_zero]
    · rename_i hs
      obtain ⟨next, hnext, rfl⟩ := Option.map_eq_some_iff.mp haddr
      have hrest := ih (pre ++ s ++ [0]) (fun t ht => hL t (List.mem_cons_of_mem _ ht)) hnext left
        (by rw [List.length_append]; omega)
      rw [behind_entry, length_entry] at hrest
      rw [if_neg hs, hrest]
      congr 2
      omega

/-- The scan for the end mark leaves it as well. -/
theorem getEndMark_unended (pre : Bytes) (hL : ∀ s ∈ L, Packable 0 s) (htail : (0 : UInt8) ∉ tail)
    (hne : flat 0 L ++ tail ≠ []) :
    Faults (getEndMark (pre ++ flat 0 L ++ tail) pre.length (pre ++ flat 0 L ++ tail).length) := by
  have hsearch : ∀ left, (flat 0 L ++ tail).length ≤ left →
      Faults (searchEnd (pre ++ flat 0 L ++ tail) (pre ++ flat 0 L ++ tail).length left
        pre.length) := by
    induction L generalizing pre with
    | nil =>
      intro left hleft
      rw [flat_nil, List.nil_append] at hne hleft
      rw [flat_nil, List.append_nil]
      have hpos := List.length_pos_iff.mpr hne
      obtain ⟨left, rfl⟩ := Nat.exists_eq_add_one_of_ne_zero (n := left) (by omega)
      have hin : pre.length < (pre ++ tail).length := by simp [hpos]
      rw [searchEnd, if_pos hin]
      exact (skipChars_unended pre htail _).bind _
    | cons s L ih =>
      intro left hleft
      have hs := hL s (by simp)
      simp only [flat_cons, List.length_append, List.length_cons] at hleft
      obtain ⟨left, rfl⟩ := Nat.exists_eq_add_one_of_ne_zero (n := left) (by omega)
      rw [at_entry]
      have hin := before_terminator pre s (flat 0 L ++ tail)
      have hskip := skipChars_string pre s (flat 0 L ++ tail) hs.clean
        ((pre ++ s ++ 0 :: (flat 0 L ++ tail)).length - pre.length) (by simp)
      have hbefore : ¬(pre ++ s ++ 0 :: (flat 0 L ++ tail)).length ≤ pre.length + s.length := by
        simp
      simp only [searchEnd, hin, if_true, hskip, bind, Except.bind, hbefore, if_false]
      by_cases hlast : flat 0 L ++ tail = []
      · rw [hlast, load_past (by simp [Nat.add_assoc])]
        exact ⟨_, rfl⟩
      · have hrest := ih (pre ++ s ++ [0]) (fun t ht => hL t (List.mem_cons_of_mem _ ht)) hlast
          left (by rw [List.length_append]; omega)
        obtain ⟨c, hc, hload⟩ : ∃ c, c ≠ 0 ∧
            load (pre ++ s ++ [0] ++ (flat 0 L ++ tail)) (pre ++ s ++ [0]).length = .ok c := by
          cases L with
          | nil =>
            cases tail with
            | nil => exact absurd rfl hlast
            | cons c tail =>
              refine ⟨c, fun h => htail (by simp [h]), ?_⟩
              rw [flat_nil, List.nil_append]
              exact load_append (pre ++ s ++ [0]) tail c
          | cons t L =>
            have hload := load_entry (pre ++ s ++ [0]) t (flat 0 L ++ tail) (hL t (by simp))
            simpa using hload
        rw [length_entry] at hload
        rw [behind_entry, length_entry] at hrest
        have hcell : load (pre ++ s ++ 0 :: (flat 0 L ++ tail)) (pre.length + s.length + 1) =
            .ok c := by
          rw [← hload]
          simp
        simpa only [hcell, if_neg hc] using hrest
  refine hsearch _ ?_
  simp only [List.length_append]
  omega

/-- A name is removed from such data only by leaving it. -/
theorem removeVar_unended (pre : Bytes) (hL : ∀ s ∈ L, Packable 0 s) (htail : (0 : UInt8) ∉ tail)
    (var : CString) :
    Faults (removeVar (pre ++ flat 0 L ++ tail) pre.length (pre ++ flat 0 L ++ tail).length
      var) := by
  by_cases hshort : var.val.length < envMaxVarNameLen
  swap
  · rw [removeVar, getVarAddr_long (Nat.le_of_not_lt hshort)]
    exact ⟨_, rfl⟩
  obtain ⟨cells, hstore, htext⟩ := searchedText hshort
  have hleft : (pre ++ flat 0 L ++ tail).length - pre.length = (flat 0 L ++ tail).length := by
    simp only [List.length_append]
    omega
  rcases split_where (assigns var.val) L with ⟨-, -, hany⟩ | ⟨A, e, B, rfl, -, -, haddr, -⟩
  · have hsearch := searchVar_unended var.val pre hL htail hany (flat 0 L ++ tail).length
    rw [removeVar, getVarAddr, hstore]
    simp only [bind, Except.bind, htext, hleft]
    exact hsearch.bind _
  · have hsearch := searchVar_found tail var.val pre hL haddr _ (Nat.le_refl _)
    have hB : ∀ s ∈ e :: B, Packable 0 s := fun s hs => hL s (List.mem_append_right A hs)
    have hend := getEndMark_unended (pre ++ flat 0 A) hB htail (by simp)
    have hmem : pre ++ flat 0 A ++ flat 0 (e :: B) ++ tail =
        pre ++ flat 0 (A ++ e :: B) ++ tail := by simp
    rw [hmem, List.length_append] at hend
    rw [removeVar, getVarAddr, hstore]
    simp only [bind, Except.bind, htext, hleft, hsearch]
    exact hend.bind _

/-- Its strings are printed up to the one without an end. -/
theorem printStrings_unended (pre : Bytes) (hL : ∀ s ∈ L, Packable 0 s) (htail : (0 : UInt8) ∉ tail)
    (left : ℕ) :
    Faults (printStrings (pre ++ flat 0 L ++ tail) (pre ++ flat 0 L ++ tail).length left
      pre.length) := by
  induction L generalizing pre left with
  | nil =>
    rw [flat_nil, List.append_nil]
    cases left with
    | zero => exact ⟨_, rfl⟩
    | succ left =>
      rw [printStrings]
      cases tail with
      | nil =>
        rw [load_past (by simp)]
        exact ⟨_, rfl⟩
      | cons c tail =>
        have hc : c ≠ 0 := fun h => htail (by simp [h])
        simp only [load_append, bind, Except.bind, if_neg hc]
        exact (loadString_unended pre htail).bind _
  | cons s L ih =>
    cases left with
    | zero => exact ⟨_, rfl⟩
    | succ left =>
      have hs := hL s (by simp)
      have hline := loadString_string pre s (flat 0 L ++ tail) hs.clean
      have hnext := getNextEnvString_entry pre s (flat 0 L ++ tail) hs
      obtain ⟨c, hc, hload⟩ := load_entry pre s (flat 0 L ++ tail) hs
      have hrest := ih (pre ++ s ++ [0]) (fun t ht => hL t (List.mem_cons_of_mem _ ht)) left
      rw [behind_entry, length_entry] at hrest
      rw [at_entry]
      simp only [printStrings, hload, hline, hnext, bind, Except.bind, hc, if_false]
      exact hrest.bind _

end Unended

/-- A string begins with a character. -/
theorem first_ne_zero {c : UInt8} {s : Bytes} (h : Packable 0 (c :: s)) : c ≠ 0 :=
  fun hzero => h.clean (by simp [hzero])

section Stray

variable (rest : Bytes)

/-- Behind a NUL nothing is looked up. -/
theorem getVarAddr_stray {var : CString} (hshort : var.val.length < envMaxVarNameLen) (till : ℕ) :
    getVarAddr (0 :: rest) 0 till var = .ok none := by
  obtain ⟨cells, hstore, -⟩ := searchedText hshort
  have hmatch := entryMatches_end [] rest till (CString.ofCells cells).val
  have hnext := getNextEnvString_end [] rest till
  rw [List.nil_append, List.length_nil] at hmatch hnext
  simp only [getVarAddr, hstore, bind, Except.bind, List.length_cons, Nat.sub_zero, searchVar,
    hmatch, hnext, Bool.false_eq_true, if_false]
  rfl

/-- The scan for the end mark passes a single NUL. -/
theorem getEndMark_stray {c : UInt8} (hc : c ≠ 0) :
    getEndMark (0 :: c :: rest) 0 (0 :: c :: rest).length =
      getEndMark (0 :: c :: rest) 1 (0 :: c :: rest).length := by
  have hskip := skipChars_string [] [] (c :: rest) (by simp) (rest.length + 2) (by simp)
  rw [List.nil_append, List.nil_append, List.length_nil, Nat.add_zero] at hskip
  have hload : load (0 :: c :: rest) (0 + 1) = .ok c := rfl
  have hlen : (0 :: c :: rest : Bytes).length = rest.length + 2 := rfl
  rw [getEndMark, getEndMark, hlen, Nat.sub_zero, searchEnd, if_pos (by omega), hlen, Nat.sub_zero,
    hskip]
  simp only [bind, Except.bind, hload, if_neg hc, if_neg (show ¬rest.length + 2 ≤ 0 by omega)]
  rfl

/-- The end mark of a hidden list. -/
theorem getEndMark_hidden {L : List Bytes} (hL : ∀ s ∈ L, Packable 0 s) (hne : L ≠ []) :
    getEndMark (0 :: (flat 0 L ++ 0 :: rest)) 0 (0 :: (flat 0 L ++ 0 :: rest)).length =
      .ok (some (1 + (flat 0 L).length)) := by
  have hend := getEndMark_entries [0] rest L hL hne
  obtain ⟨s, L, rfl⟩ := List.exists_cons_of_ne_nil hne
  obtain ⟨c, s, rfl⟩ := List.exists_cons_of_ne_nil (hL s (by simp)).nonempty
  have hc := first_ne_zero (hL (c :: s) (by simp))
  rw [flat_cons] at hend ⊢
  exact (getEndMark_stray _ hc).trans hend

/-- Behind a NUL there may be no end mark. -/
theorem getEndMark_blind {L : List Bytes} (h : Unended rest L) :
    Faults (getEndMark (0 :: rest) 0 (0 :: rest).length) := by
  obtain ⟨hL, tail, htail, rfl⟩ := h
  cases hrest : flat 0 L ++ tail with
  | nil => exact ⟨_, rfl⟩
  | cons c rest =>
    have hc : c ≠ 0 := by
      intro hzero
      cases L with
      | nil => exact htail (by simp [show tail = c :: rest from hrest, hzero])
      | cons s L =>
        obtain ⟨d, s, rfl⟩ := List.exists_cons_of_ne_nil (hL s (by simp)).nonempty
        have hd : d = c := (List.cons.inj hrest).1
        exact first_ne_zero (hL (d :: s) (by simp)) (hd.trans hzero)
    have hend := getEndMark_unended [0] hL htail (by simp [hrest])
    rw [List.append_assoc, hrest] at hend
    rw [getEndMark_stray rest hc]
    exact hend

end Stray

section Operations

variable {c : Contents} {data : Bytes} {till : ℕ}

/-- There is data unless there are no strings. -/
theorem Contents.In.till_eq (h : c.In data) (hc : c.Searched) (htill : Bounded data till) :
    till = data.length := by
  refine htill.resolve_left fun hnil => ?_
  rw [hnil] at h
  cases c with
  | listed L =>
    obtain ⟨rest, hrest, -⟩ := Holds.split h
    simp at hrest
  | hidden L =>
    obtain ⟨-, rest, hrest, -⟩ := h
    cases hrest
  | endless L => exact hc
  | blind =>
    obtain ⟨rest, L, hrest, -⟩ := h
    cases hrest

/-- Without data every lookup leaves it. -/
theorem getVarAddr_nil (till : ℕ) (var : CString) : Faults (getVarAddr [] 0 till var) := by
  rw [getVarAddr]
  cases hstore : storeAll (List.replicate (envMaxVarNameLen + 1) 0) 0
      (var.val ++ [varAsign] ++ [0]) with
  | error f => exact ⟨f, rfl⟩
  | ok cells => exact ⟨_, rfl⟩

/-- A lookup in strings without an end mark ends only with a result. -/
theorem getVarAddr_endless {L : List Bytes} (h : Unended data L) (htill : Bounded data till)
    {var : CString} (hnone : L.any (assigns var.val) = false) :
    Faults (getVarAddr data 0 till var) := by
  rcases htill with rfl | rfl
  · exact getVarAddr_nil till var
  obtain ⟨hL, tail, htail, rfl⟩ := h
  by_cases hshort : var.val.length < envMaxVarNameLen
  · obtain ⟨cells, hstore, htext⟩ := searchedText hshort
    rw [getVarAddr, hstore]
    simp only [bind, Except.bind, htext]
    exact searchVar_unended var.val [] hL htail hnone _
  · rw [getVarAddr_long (Nat.le_of_not_lt hshort)]
    exact ⟨_, rfl⟩

/-- A name is removed where a lookup ends. -/
theorem removeVar_in (h : c.In data) (htill : Bounded data till) {var : CString}
    (hshort : var.val.length < envMaxVarNameLen) (hc : c.Searched) :
    ∃ b data', removeVar data 0 till var = .ok (b, data') ∧ data'.length = data.length ∧
      (c.removed var).In data' := by
  rw [h.till_eq hc htill]
  cases c with
  | listed L =>
    obtain ⟨mem', hremove, hlen, hmem', -⟩ := removeVar_first h hshort
    exact ⟨_, mem', hremove, hlen, hmem'⟩
  | hidden L =>
    have hdata := h
    obtain ⟨-, rest, rfl, -⟩ := hdata
    exact ⟨false, _, removeVar_absent (getVarAddr_stray rest hshort _), rfl, h⟩
  | endless L => exact hc.elim
  | blind =>
    have hdata := h
    obtain ⟨rest, L, rfl, -⟩ := hdata
    exact ⟨false, _, removeVar_absent (getVarAddr_stray rest hshort _), rfl, h⟩

/-- Anywhere else removing it leaves the block, and so does a long name. -/
theorem removeVar_faults (h : c.In data) (htill : Bounded data till) {var : CString}
    (hno : ¬(var.val.length < envMaxVarNameLen ∧ c.Searched)) :
    Faults (removeVar data 0 till var) := by
  by_cases hshort : var.val.length < envMaxVarNameLen
  swap
  · rw [removeVar, getVarAddr_long (Nat.le_of_not_lt hshort)]
    exact ⟨_, rfl⟩
  cases c with
  | endless L =>
    rcases htill with rfl | rfl
    · exact (getVarAddr_nil till var).bind _
    · obtain ⟨hL, tail, htail, rfl⟩ := h
      exact removeVar_unended [] hL htail var
  | listed L => exact absurd ⟨hshort, trivial⟩ hno
  | hidden L => exact absurd ⟨hshort, trivial⟩ hno
  | blind => exact absurd ⟨hshort, trivial⟩ hno

/-- What `add_var` does when it has looked for the name. -/
def addFound (data : Bytes) (till : ℕ) (varstring : CString) :
    Option ℕ → Except Fault (Bool × Bytes)
  | none => appendVar data 0 till varstring
  | some varAddr => do
    let (removed, mem) ← removeVar data varAddr till (varName varstring)
    if removed then appendVar mem 0 till varstring else return (false, mem)

section Add

variable {varstring : CString} (hsign : varAsign ∈ varstring.val)
  (hshort : (varName varstring).val.length < envMaxVarNameLen)

include hsign hshort

/-- The name of the variable is looked up first. -/
theorem addVar_searched : addVar data 0 till varstring =
    getVarAddr data 0 till (varName varstring) >>= addFound data till varstring := by
  obtain ⟨cells, hname, hcells, -⟩ := getVarName_short hsign hshort
  change getVarName varstring (List.replicate envMaxVarNameLen 0) varAsign = _ at hname
  rw [addVar, hname]
  simp only [bind, Except.bind, if_true, hcells]
  cases getVarAddr data 0 till (varName varstring) with
  | error f => rfl
  | ok found => cases found <;> rfl

/-- A variable that is not found is appended. -/
theorem addVar_absent (hnone : getVarAddr data 0 till (varName varstring) = .ok none) :
    addVar data 0 till varstring = appendVar data 0 till varstring := by
  rw [addVar_searched hsign hshort, hnone]
  rfl

/-- Its lookup may leave the block. -/
theorem addVar_lookup (hlookup : Faults (getVarAddr data 0 till (varName varstring))) :
    Faults (addVar data 0 till varstring) := by
  rw [addVar_searched hsign hshort]
  exact hlookup.bind _

/-- So may the removal of the one that is found. -/
theorem addVar_removal (varAddr : ℕ)
    (hsome : getVarAddr data 0 till (varName varstring) = .ok (some varAddr))
    (hremove : Faults (removeVar data varAddr till (varName varstring))) :
    Faults (addVar data 0 till varstring) := by
  rw [addVar_searched hsign hshort, hsome]
  exact hremove.bind _

/-- Adding it sets the variable of its name. -/
theorem exists_setVar (L : List Bytes) :
    ∃ k v, varString k v = varstring ∧
      setVar k v L = L.eraseP (assigns (varName varstring).val) ++ [varstring.val] := by
  obtain ⟨k, v, hk, rfl⟩ := eq_varString hsign hshort
  exact ⟨k, v, rfl, by rw [setVar, eraseVar_eq, hk]⟩

/-- Behind a hidden list a variable is written where its end mark is. -/
theorem addVar_hidden {L : List Bytes} (hL : ∀ s ∈ L, Packable 0 s) (hne : L ≠ []) (rest : Bytes) :
    addVar (0 :: (flat 0 L ++ 0 :: rest)) 0 (0 :: (flat 0 L ++ 0 :: rest)).length varstring = (do
      let (varAddr, mem) ← appendChars ((0 :: flat 0 L) ++ 0 :: rest)
        ((0 :: flat 0 L) ++ 0 :: rest).length (0 :: flat 0 L : Bytes).length varstring.val
      let mem ← store mem varAddr 0
      let mem ← store mem (varAddr + 1) 0
      return (true, mem)) := by
  have hend := getEndMark_hidden rest hL hne
  have hpos : (flat 0 L).length ≠ 0 := by
    have hcount := length_le_length_flat L
    have hsome := List.length_pos_iff.mpr hne
    omega
  rw [addVar_absent hsign hshort (getVarAddr_stray _ hshort _), appendVar, hend]
  simp only [bind, Except.bind, if_neg (show ¬1 + (flat 0 L).length = 0 + 1 by omega)]
  rw [Nat.add_comm 1]
  rfl

/-- A variable is added where there is room for it. -/
theorem addVar_in (h : c.In data) (htill : Bounded data till)
    (hroom : c.HasRoom varstring data.length) :
    ∃ data', addVar data 0 till varstring = .ok (true, data') ∧ data'.length = data.length ∧
      (c.added varstring).In data' := by
  cases c with
  | listed L =>
    rw [h.till_eq trivial htill]
    obtain ⟨k, v, hv, hset⟩ := exists_setVar hsign hshort L
    obtain ⟨mem', hadd, hlen, hmem'⟩ := addVar_fits h k v (by rw [hset]; exact hroom)
    rw [hv] at hadd
    rw [hset] at hmem'
    exact ⟨mem', hadd, hlen, hmem'⟩
  | hidden L =>
    rw [h.till_eq trivial htill]
    obtain ⟨hne, rest, rfl, hheld⟩ := h
    obtain ⟨hL, rest', rfl⟩ := (holds_iff_of_ne_nil hne).mp hheld
    have hs : Packable 0 varstring.val := ⟨List.ne_nil_of_mem hsign, varstring.property⟩
    simp only [Contents.HasRoom, length_packed_append, List.length_cons, List.length_append]
      at hroom
    have hcells : varstring.val.length + 2 ≤ (0 :: rest' : Bytes).length := by
      rw [List.length_cons]
      omega
    obtain ⟨tail, htail, hwrite⟩ := writeVar_fits (0 :: flat 0 L) hcells
    refine ⟨_, (addVar_hidden hsign hshort hL hne rest').trans hwrite, ?_, ?_⟩
    · simp only [List.length_append, List.length_cons] at htail ⊢
      omega
    · refine ⟨by simp, flat 0 L ++ varstring.val ++ 0 :: 0 :: tail, ?_, holds_append hL hs tail⟩
      rw [List.cons_append, List.cons_append]
  | endless L => exact hroom.elim
  | blind => exact hroom.elim

/-- Without room for it the block is left. -/
theorem addVar_faults (h : c.In data) (htill : Bounded data till)
    (hroom : ¬c.HasRoom varstring data.length) : Faults (addVar data 0 till varstring) := by
  cases c with
  | listed L =>
    rw [h.till_eq trivial htill]
    obtain ⟨k, v, hv, hset⟩ := exists_setVar hsign hshort L
    have hover := addVar_overrun h k v (by rw [hset]; exact Nat.lt_of_not_le hroom)
    rw [hv] at hover
    exact ⟨_, hover⟩
  | hidden L =>
    rw [h.till_eq trivial htill]
    obtain ⟨hne, rest, rfl, hheld⟩ := h
    obtain ⟨hL, rest', rfl⟩ := (holds_iff_of_ne_nil hne).mp hheld
    simp only [Contents.HasRoom, length_packed_append, List.length_cons, List.length_append]
      at hroom
    have hcells : (0 :: rest' : Bytes).length < varstring.val.length + 2 := by
      rw [List.length_cons]
      omega
    exact ⟨_, (addVar_hidden hsign hshort hL hne rest').trans
      (writeVar_overrun (0 :: flat 0 L) (List.cons_ne_nil 0 rest') hcells)⟩
  | endless L =>
    have hunended := h
    rcases split_where (assigns (varName varstring).val) L with
      ⟨-, -, hany⟩ | ⟨A, e, B, rfl, -, hfirst, haddr, -⟩
    · exact addVar_lookup hsign hshort (getVarAddr_endless hunended htill hany)
    rcases htill with rfl | rfl
    · exact addVar_lookup hsign hshort (getVarAddr_nil till _)
    obtain ⟨hL, tail, htail, rfl⟩ := h
    obtain ⟨cells, hstore, htext⟩ := searchedText hshort
    have hsearch := searchVar_found tail (varName varstring).val [] hL haddr _
      (Nat.le_refl _)
    have hB : ∀ s ∈ e :: B, Packable 0 s := fun s hs => hL s (List.mem_append_right A hs)
    have hremove := removeVar_unended (flat 0 A) hB htail (varName varstring)
    have hmem : flat 0 A ++ flat 0 (e :: B) ++ tail = flat 0 (A ++ e :: B) ++ tail := by simp
    rw [hmem] at hremove
    rw [List.nil_append, List.length_nil, Nat.zero_add] at hsearch
    refine addVar_removal hsign hshort (flat 0 A).length ?_ hremove
    rw [getVarAddr, hstore]
    simp only [bind, Except.bind, htext, Nat.sub_zero, hsearch]
  | blind =>
    rw [h.till_eq trivial htill]
    obtain ⟨rest, L, rfl, hrest⟩ := h
    rw [addVar_absent hsign hshort (getVarAddr_stray rest hshort _)]
    exact (getEndMark_blind rest hrest).bind _

end Add

/-- The entry that a lookup ends at is read. -/
theorem varInEnv_found {L : List Bytes} {tail : Bytes} (hL : ∀ s ∈ L, Packable 0 s) {var : CString}
    (hfound : getVarAddr (flat 0 L ++ tail) 0 till var = .ok (addrWhere (assigns var.val) L)) :
    ¬Faults (varInEnv (flat 0 L ++ tail) till var) := by
  rw [varInEnv, hfound]
  rcases split_where (assigns var.val) L with ⟨haddr, -, -⟩ | ⟨A, e, B, rfl, -, -, haddr, -⟩
  · rw [haddr]
    exact not_faults_ok none
  · have hline := loadString_string (flat 0 A) e (flat 0 B ++ tail) (hL e (by simp)).clean
    have hmem : flat 0 (A ++ e :: B) ++ tail = flat 0 A ++ e ++ 0 :: (flat 0 B ++ tail) := by simp
    rw [haddr, hmem]
    simp only [bind, Except.bind, hline]
    exact not_faults_ok (some e)

/-- A variable is read where its lookup ends. -/
theorem varInEnv_faults_iff (h : c.In data) (htill : Bounded data till) (var : CString) :
    Faults (varInEnv data till var) ↔ ¬(var.val.length < envMaxVarNameLen ∧ c.Finds var) := by
  by_cases hshort : var.val.length < envMaxVarNameLen
  swap
  · rw [varInEnv, getVarAddr_long (Nat.le_of_not_lt hshort)]
    exact ⟨fun _ hno => hshort hno.1, fun _ => ⟨_, rfl⟩⟩
  have hstray : ∀ rest, ¬Faults (varInEnv (0 :: rest) till var) := by
    intro rest
    rw [varInEnv, getVarAddr_stray rest hshort]
    exact not_faults_ok none
  cases c with
  | listed L =>
    rw [h.till_eq trivial htill]
    obtain ⟨rest, rfl, -⟩ := Holds.split h
    have hvar := getVarAddr_first hshort [] rest L h.entries
    simp only [List.nil_append, List.length_nil, Nat.zero_add, Option.map_id_fun', id_eq] at hvar
    have hread := varInEnv_found h.entries hvar
    exact ⟨fun hfaults => absurd hfaults hread, fun hno => absurd ⟨hshort, trivial⟩ hno⟩
  | hidden L =>
    obtain ⟨-, rest, rfl, -⟩ := h
    exact ⟨fun hfaults => absurd hfaults (hstray rest), fun hno => absurd ⟨hshort, trivial⟩ hno⟩
  | endless L =>
    have hunended := h
    cases hany : L.any (assigns var.val) with
    | false =>
      have hlookup := getVarAddr_endless hunended htill hany
      refine ⟨fun _ hboth => ?_, fun _ => hlookup.bind _⟩
      exact Bool.false_ne_true (hany.symm.trans hboth.2)
    | true =>
      refine ⟨fun hfaults => absurd hfaults ?_, fun hno => absurd ⟨hshort, hany⟩ hno⟩
      obtain ⟨hL, tail, -, rfl⟩ := h
      have hne : flat 0 L ++ tail ≠ [] := by
        intro hnil
        cases L with
        | nil => cases hany
        | cons s L => simp at hnil
      rw [htill.resolve_left hne]
      obtain ⟨cells, hstore, htext⟩ := searchedText hshort
      have hsome : ∃ addr, addrWhere (assigns var.val) L = some addr := by
        rcases split_where (assigns var.val) L with ⟨-, -, hnone⟩ | ⟨A, e, B, -, -, -, haddr, -⟩
        · exact absurd (hany.symm.trans hnone) (by decide)
        · exact ⟨_, haddr⟩
      obtain ⟨addr, haddr⟩ := hsome
      have hsearch := searchVar_found tail var.val [] hL haddr _ (Nat.le_refl _)
      rw [List.nil_append, List.length_nil, Nat.zero_add] at hsearch
      refine varInEnv_found hL ?_
      rw [getVarAddr, hstore, haddr]
      simp only [bind, Except.bind, htext, Nat.sub_zero, hsearch]
  | blind =>
    obtain ⟨rest, L, rfl, -⟩ := h
    exact ⟨fun hfaults => absurd hfaults (hstray rest), fun hno => absurd ⟨hshort, trivial⟩ hno⟩

/-- A dump ends where a lookup does. -/
theorem dump_faults_iff (h : c.In data) (htill : Bounded data till) :
    Faults (envPrintenvDump data 0 till) ↔ ¬c.Searched := by
  have hstray : ∀ rest, ¬Faults (envPrintenvDump (0 :: rest) 0 till) := fun rest =>
    not_faults_ok []
  cases c with
  | listed L =>
    rw [h.till_eq trivial htill]
    obtain ⟨rest, rfl, -⟩ := Holds.split h
    have hleft : L.length < (flat 0 L ++ 0 :: rest).length := by
      have hcount := length_le_length_flat L
      rw [List.length_append, List.length_cons]
      omega
    have hprint := printStrings_entries [] rest L h.entries _ hleft
    rw [List.nil_append, List.length_nil] at hprint
    rw [envPrintenvDump, Nat.sub_zero, hprint]
    exact ⟨fun hfaults => absurd hfaults (not_faults_ok L), fun hno => absurd trivial hno⟩
  | hidden L =>
    obtain ⟨-, rest, rfl, -⟩ := h
    exact ⟨fun hfaults => absurd hfaults (hstray rest), fun hno => absurd trivial hno⟩
  | endless L =>
    refine ⟨fun _ hsearched => hsearched, fun _ => ?_⟩
    rcases htill with rfl | rfl
    · exact ⟨_, rfl⟩
    · obtain ⟨hL, tail, htail, rfl⟩ := h
      exact printStrings_unended [] hL htail _
  | blind =>
    obtain ⟨rest, L, rfl, -⟩ := h
    exact ⟨fun hfaults => absurd hfaults (hstray rest), fun hno => absurd trivial hno⟩

/-- The scan for the end mark ends where there is one, and without any data. -/
theorem getEndMark_faults_iff (h : c.In data) :
    Faults (getEndMark data 0 data.length) ↔ data ≠ [] ∧ ¬c.Marked := by
  by_cases hnil : data = []
  · rw [hnil]
    exact ⟨fun hfaults => absurd hfaults (not_faults_ok none), fun hboth => absurd rfl hboth.1⟩
  cases c with
  | listed L =>
    refine ⟨fun hfaults => absurd hfaults ?_, fun hboth => absurd trivial hboth.2⟩
    by_cases hne : L = []
    · rw [hne] at h
      obtain ⟨rest, rfl⟩ := holds_nil_iff.mp h
      rw [getEndMark_empty]
      exact not_faults_ok _
    · obtain ⟨hL, rest, rfl⟩ := (holds_iff_of_ne_nil hne).mp h
      have hend := getEndMark_entries [] rest L hL hne
      rw [List.nil_append, List.length_nil] at hend
      rw [hend]
      exact not_faults_ok _
  | hidden L =>
    refine ⟨fun hfaults => absurd hfaults ?_, fun hboth => absurd trivial hboth.2⟩
    obtain ⟨hne, rest, rfl, hheld⟩ := h
    obtain ⟨hL, rest', rfl⟩ := (holds_iff_of_ne_nil hne).mp hheld
    rw [getEndMark_hidden rest' hL hne]
    exact not_faults_ok _
  | endless L =>
    refine ⟨fun _ => ⟨hnil, id⟩, fun _ => ?_⟩
    obtain ⟨hL, tail, htail, rfl⟩ := h
    exact getEndMark_unended [] hL htail hnil
  | blind =>
    refine ⟨fun _ => ⟨hnil, id⟩, fun _ => ?_⟩
    obtain ⟨rest, L, rfl, hrest⟩ := h
    exact getEndMark_blind rest hrest

end Operations

end MetaDigi.EnvContents
