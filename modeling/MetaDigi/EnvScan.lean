import Mathlib.Data.List.Basic
import MetaDigi.PackedStrings
import MetaDigi.EnvFuncs

/-!
# What the environment functions find

Every scan is described at an arbitrary entry: in front of it lies any part
of the block, behind it the remaining entries and the closing NUL. One lemma
for each function says where it stops and what it answers there.
-/

namespace MetaDigi.EnvScan

open CheckedMemory CStrings EnvFuncs PackedStrings

/-- The name of an entry: the part before its first `=`. -/
def nameOf (entry : Bytes) : Option Bytes :=
  (strchr entry varAsign).map (fun separator => entry.take separator)

/-- The distance from the first entry to the entry with a name. -/
def varAddrIn (k : Bytes) : List Bytes → Option ℕ
  | [] => none
  | e :: L => if nameOf e = some k then some 0 else (varAddrIn k L).map (e.length + 1 + ·)

/-- An entry begins with a text and an equals sign. -/
def assigns (w e : Bytes) : Bool := w ++ [varAsign] <+: e

/-- The distance from the first entry to the first one with a property. -/
def addrWhere (p : Bytes → Bool) : List Bytes → Option ℕ
  | [] => none
  | e :: L => if p e then some 0 else (addrWhere p L).map (e.length + 1 + ·)

/-- Beginning with the name and an equals sign is having the name. -/
theorem nameOf_eq_iff {k : Bytes} (hk : varAsign ∉ k) (e : Bytes) :
    nameOf e = some k ↔ k ++ [varAsign] <+: e := by
  constructor
  · intro h
    simp only [nameOf, Option.map_eq_some_iff] at h
    obtain ⟨separator, hsep, htake⟩ := h
    obtain ⟨hlt, hchar, -⟩ := List.findIdx?_eq_some_iff_getElem.mp hsep
    have hsign : e[separator] = varAsign := by simpa using hchar
    have hsplit : e = e.take separator ++ varAsign :: e.drop (separator + 1) := by
      conv_lhs => rw [← List.take_append_drop separator e]
      rw [List.drop_eq_getElem_cons hlt, hsign]
    exact ⟨e.drop (separator + 1), by rw [← htake]; simpa using hsplit.symm⟩
  · rintro ⟨rest, rfl⟩
    simp [nameOf, strchr_append hk]

/-- The string built by `sprintf` in `get_var_addr` fits its array when the
name has at most 49 bytes, and reads back as the name and the sign. -/
theorem searchedText {k : CString} (hlen : k.val.length < envMaxVarNameLen) :
    ∃ cells, storeAll (List.replicate (envMaxVarNameLen + 1) 0) 0 (k.val ++ [varAsign] ++ [0]) =
      .ok cells ∧ (CString.ofCells cells).val = k.val ++ [varAsign] := by
  have hroom : (List.replicate (k.val.length + 2) (0 : UInt8)).length =
      (k.val ++ [varAsign] ++ [0]).length := by simp
  have hstore := storeAll_append [] _ (k.val ++ [varAsign] ++ [0])
    (List.replicate (envMaxVarNameLen - 1 - k.val.length) 0) hroom
  have hcells : ([] : Bytes) ++ List.replicate (k.val.length + 2) 0 ++
      List.replicate (envMaxVarNameLen - 1 - k.val.length) 0 =
        List.replicate (envMaxVarNameLen + 1) 0 := by
    rw [List.nil_append, ← List.replicate_add]
    congr 1
    simp only [envMaxVarNameLen] at hlen ⊢
    omega
  rw [hcells] at hstore
  refine ⟨_, hstore, ?_⟩
  have hclean : ∀ c ∈ k.val ++ [varAsign], decide (c ≠ 0) = true := by
    intro c hc
    rcases List.mem_append.mp hc with hc | hc
    · exact decide_eq_true (fun he => k.property (he ▸ hc))
    · rw [List.mem_singleton.mp hc]
      decide
  simp only [CString.ofCells, List.nil_append, List.append_assoc (_ ++ [varAsign])]
  rw [List.takeWhile_append_of_pos hclean]
  simp

section Entry

variable (pre s rest : Bytes)

/-- The block goes on behind the start of an entry. -/
theorem before_terminator : pre.length < (pre ++ s ++ 0 :: rest).length := by
  simp only [List.length_append, List.length_cons]
  omega

/-- The address behind the terminator of an entry. -/
theorem length_entry : (pre ++ s ++ [0]).length = pre.length + s.length + 1 := by
  simp only [List.length_append, List.length_cons, List.length_nil]

/-- A block of several entries, seen at its first one. -/
theorem block_cons (L : List Bytes) :
    pre ++ flat 0 (s :: L) ++ 0 :: rest = pre ++ s ++ 0 :: (flat 0 L ++ 0 :: rest) := by
  simp

/-- A block of several entries, seen behind its first one. -/
theorem block_behind (L : List Bytes) :
    pre ++ s ++ [0] ++ flat 0 L ++ 0 :: rest = pre ++ s ++ 0 :: (flat 0 L ++ 0 :: rest) := by
  simp

/-- The scan for the terminator stops there as long as the block goes on. -/
theorem skipBefore_string (hs : (0 : UInt8) ∉ s) (left : ℕ) (hleft : s.length < left) :
    skipBefore (pre ++ s ++ 0 :: rest) left pre.length = .ok (pre.length + s.length) := by
  induction s generalizing pre left with
  | nil =>
    obtain ⟨left, rfl⟩ := Nat.exists_eq_add_one_of_ne_zero (Nat.ne_of_gt hleft)
    simp only [List.append_nil, skipBefore, load_append, bind, Except.bind, if_true]
    rfl
  | cons c s ih =>
    obtain ⟨left, rfl⟩ := Nat.exists_eq_add_one_of_ne_zero (Nat.ne_of_gt (Nat.zero_lt_of_lt hleft))
    have hc : c ≠ 0 := fun h => hs (by simp [h])
    have hload : load (pre ++ (c :: s) ++ 0 :: rest) pre.length = .ok c := by simp
    have hnext := ih (pre ++ [c]) (fun h => hs (List.mem_cons_of_mem _ h)) left
      (by simpa using hleft)
    simp only [List.length_append, List.length_singleton, List.append_assoc,
      List.singleton_append] at hnext
    simp only [skipBefore, hload, bind, Except.bind, hc, if_false]
    simpa [Nat.add_assoc, Nat.add_comm 1] using hnext

/-- An entry begins with a character. -/
theorem load_entry (hs : Packable 0 s) :
    ∃ c, c ≠ 0 ∧ load (pre ++ s ++ 0 :: rest) pre.length = .ok c := by
  obtain ⟨c, s, rfl⟩ := List.exists_cons_of_ne_nil hs.nonempty
  exact ⟨c, fun h => hs.clean (by simp [h]), by simp⟩

/-- Behind an entry comes the address after its terminator. -/
theorem getNextEnvString_entry (hs : Packable 0 s) :
    getNextEnvString (pre ++ s ++ 0 :: rest) pre.length (pre ++ s ++ 0 :: rest).length =
      .ok (some (pre.length + s.length + 1)) := by
  have hstop := skipBefore_string pre s rest hs.clean
    ((pre ++ s ++ 0 :: rest).length - pre.length) (by simp)
  obtain ⟨c, hc, hload⟩ := load_entry pre s rest hs
  have hbefore : pre.length + s.length ≠ (pre ++ s ++ 0 :: rest).length := by simp
  simp only [getNextEnvString, hload, hstop, bind, Except.bind, hc, hbefore, if_false]
  rfl

/-- There is no string behind the end mark. -/
theorem getNextEnvString_end (till : ℕ) :
    getNextEnvString (pre ++ 0 :: rest) pre.length till = .ok none := by
  simp only [getNextEnvString, load_append, bind, Except.bind, if_true]
  rfl

/-- An entry matches when it begins with the searched text. -/
theorem entryMatches_entry (hs : Packable 0 s) (needle : Bytes) :
    entryMatches (pre ++ s ++ 0 :: rest) pre.length (pre ++ s ++ 0 :: rest).length needle =
      .ok (decide (needle <+: s)) := by
  have hstring := loadString_string pre s rest hs.clean
  obtain ⟨c, hc, hload⟩ := load_entry pre s rest hs
  have hin := before_terminator pre s rest
  simp only [entryMatches, hload, hstring, bind, Except.bind, hc, hin, ne_eq, not_false_iff,
    and_self, if_true, strstr_eq_zero_iff]
  rfl

/-- The end mark matches nothing. -/
theorem entryMatches_end (till : ℕ) (needle : Bytes) :
    entryMatches (pre ++ 0 :: rest) pre.length till needle = .ok false := by
  simp only [entryMatches, load_append, bind, Except.bind, ne_eq, not_true, false_and, if_false]
  rfl

end Entry

/-- The entry with a name is the one that begins with it. -/
theorem varAddrIn_eq {k : Bytes} (hk : varAsign ∉ k) (L : List Bytes) :
    varAddrIn k L = addrWhere (assigns k) L := by
  induction L with
  | nil => rfl
  | cons s L ih =>
    have hiff : nameOf s = some k ↔ assigns k s = true :=
      (nameOf_eq_iff hk s).trans decide_eq_true_iff.symm
    rw [varAddrIn, addrWhere, ih]
    simp only [hiff]

/-- One turn of the search: the entry matches, or the search goes on behind it. -/
theorem searchVar_entry (w pre rest : Bytes) {s : Bytes} (hs : Packable 0 s) (left : ℕ) :
    searchVar (pre ++ s ++ 0 :: rest) (pre ++ s ++ 0 :: rest).length (w ++ [varAsign]) (left + 1)
        pre.length =
      if assigns w s then .ok (some pre.length)
      else searchVar (pre ++ s ++ 0 :: rest) (pre ++ s ++ 0 :: rest).length (w ++ [varAsign]) left
        (pre.length + s.length + 1) := by
  have hmatch := entryMatches_entry pre s rest hs (w ++ [varAsign])
  have hin := before_terminator pre s rest
  by_cases hfront : w ++ [varAsign] <+: s
  · simp only [searchVar, hmatch, bind, Except.bind, hfront, decide_true, if_true, hin, assigns]
    rfl
  · have hnext := getNextEnvString_entry pre s rest hs
    simp only [searchVar, hmatch, hnext, bind, Except.bind, hfront, decide_false,
      Bool.false_eq_true, if_false, assigns]

/-- The search over a run of entries answers the first one that begins with
the searched text. -/
theorem searchVar_entries (w pre rest : Bytes) (L : List Bytes)
    (hL : ∀ s ∈ L, Packable 0 s) (left : ℕ) (hleft : L.length < left) :
    searchVar (pre ++ flat 0 L ++ 0 :: rest) (pre ++ flat 0 L ++ 0 :: rest).length
      (w ++ [varAsign]) left pre.length = .ok ((addrWhere (assigns w) L).map (pre.length + ·)) := by
  induction L generalizing pre left with
  | nil =>
    obtain ⟨left, rfl⟩ := Nat.exists_eq_add_one_of_ne_zero (Nat.ne_of_gt hleft)
    simp only [flat_nil, List.append_nil, searchVar, entryMatches_end, getNextEnvString_end,
      bind, Except.bind, Bool.false_eq_true, if_false, addrWhere, Option.map_none]
    rfl
  | cons s L ih =>
    obtain ⟨left, rfl⟩ := Nat.exists_eq_add_one_of_ne_zero (Nat.ne_of_gt (Nat.zero_lt_of_lt hleft))
    rw [block_cons, searchVar_entry w pre _ (hL s (by simp)), addrWhere]
    by_cases hs : assigns w s = true
    · rw [if_pos hs, if_pos hs, Option.map_some, Nat.add_zero]
    · have htail := ih (pre ++ s ++ [0]) (fun t ht => hL t (List.mem_cons_of_mem _ ht)) left
        (by simpa using hleft)
      rw [block_behind, length_entry] at htail
      rw [if_neg hs, if_neg hs, htail]
      cases addrWhere (assigns w) L with
      | none => rfl
      | some addr => simp only [Option.map_some]; congr 2; omega

/-- A run of packed entries has at least as many cells as entries. -/
theorem length_le_length_flat (L : List Bytes) : L.length ≤ (flat 0 L).length := by
  induction L with
  | nil => simp
  | cons s L ih => simp only [flat_cons, List.length_append, List.length_cons]; omega

/-- `get_var_addr` answers the first entry that begins with the text and an
equals sign. -/
theorem getVarAddr_first {w : CString} (hlen : w.val.length < envMaxVarNameLen) (pre rest : Bytes)
    (L : List Bytes) (hL : ∀ s ∈ L, Packable 0 s) :
    getVarAddr (pre ++ flat 0 L ++ 0 :: rest) pre.length (pre ++ flat 0 L ++ 0 :: rest).length w =
      .ok ((addrWhere (assigns w.val) L).map (pre.length + ·)) := by
  obtain ⟨cells, hstore, htext⟩ := searchedText hlen
  have hleft : L.length <
      (pre ++ flat 0 L ++ 0 :: rest).length - pre.length := by
    have h := length_le_length_flat L
    simp only [List.length_append, List.length_cons]
    omega
  have hsearch := searchVar_entries w.val pre rest L hL _ hleft
  simp only [getVarAddr, hstore, bind, Except.bind, htext, hsearch]

/-- `get_var_addr` answers the first entry with the name. -/
theorem getVarAddr_entries {k : CString} (hk : varAsign ∉ k.val)
    (hlen : k.val.length < envMaxVarNameLen) (pre rest : Bytes) (L : List Bytes)
    (hL : ∀ s ∈ L, Packable 0 s) :
    getVarAddr (pre ++ flat 0 L ++ 0 :: rest) pre.length (pre ++ flat 0 L ++ 0 :: rest).length k =
      .ok ((varAddrIn k.val L).map (pre.length + ·)) := by
  rw [varAddrIn_eq hk]
  exact getVarAddr_first hlen pre rest L hL

/-- `get_end_mark` started at an entry finds the NUL behind the last one. -/
theorem getEndMark_entries (pre rest : Bytes) (L : List Bytes) (hL : ∀ s ∈ L, Packable 0 s)
    (hne : L ≠ []) :
    getEndMark (pre ++ flat 0 L ++ 0 :: rest) pre.length (pre ++ flat 0 L ++ 0 :: rest).length =
      .ok (some (pre.length + (flat 0 L).length)) := by
  have hsearch : ∀ left, L.length ≤ left →
      searchEnd (pre ++ flat 0 L ++ 0 :: rest) (pre ++ flat 0 L ++ 0 :: rest).length left
        pre.length = .ok (some (pre.length + (flat 0 L).length)) := by
    induction L generalizing pre with
    | nil => exact absurd rfl hne
    | cons s L ih =>
      intro left hleft
      obtain ⟨left, rfl⟩ := Nat.exists_eq_add_one_of_ne_zero
        (Nat.ne_of_gt (Nat.lt_of_lt_of_le (by simp) hleft))
      have hs := hL s (by simp)
      rw [block_cons]
      have hin := before_terminator pre s (flat 0 L ++ 0 :: rest)
      have hskip := skipChars_string pre s (flat 0 L ++ 0 :: rest) hs.clean
        ((pre ++ s ++ 0 :: (flat 0 L ++ 0 :: rest)).length - pre.length) (by simp)
      have hbefore : ¬ (pre ++ s ++ 0 :: (flat 0 L ++ 0 :: rest)).length ≤
          pre.length + s.length := by simp
      simp only [searchEnd, hin, if_true, hskip, bind, Except.bind, hbefore, if_false]
      cases L with
      | nil =>
        have hload := load_append (pre ++ s ++ [0] ++ flat 0 []) rest (0 : UInt8)
        have hlen : (pre ++ s ++ [0] ++ flat 0 []).length = pre.length + s.length + 1 := by
          rw [flat_nil, List.append_nil, length_entry]
        rw [hlen, block_behind] at hload
        simp only [hload, if_true]
        simp only [pure, Except.pure, flat_cons, flat_nil, List.length_append, List.length_cons,
          List.length_nil, Nat.zero_add, Nat.add_assoc]
      | cons t L =>
        have ht := hL t (by simp)
        have htail := ih (pre ++ s ++ [0]) (fun x hx => hL x (List.mem_cons_of_mem _ hx))
          (by simp) left (by simpa using hleft)
        obtain ⟨c, hc, hload⟩ := load_entry (pre ++ s ++ [0]) t (flat 0 L ++ 0 :: rest) ht
        rw [← block_cons, block_behind, length_entry] at hload
        rw [block_behind, length_entry] at htail
        simp only [hload, hc, if_false, htail]
        simp only [flat_cons, List.length_append, List.length_cons]
        congr 2
        omega
  refine hsearch _ ?_
  have h := length_le_length_flat L
  simp only [List.length_append, List.length_cons]
  omega

/-- In an empty environment the end mark is the second cell. -/
theorem getEndMark_empty (rest : Bytes) :
    getEndMark (0 :: 0 :: rest) 0 (0 :: 0 :: rest).length = .ok (some 1) := by
  have hskip := skipChars_string [] [] (0 :: rest) (by simp)
    ((0 :: 0 :: rest : Bytes).length - 0) (by simp)
  have hload := load_append [0] rest (0 : UInt8)
  simp only [List.nil_append, List.append_nil, List.length_nil, Nat.add_zero] at hskip
  simp only [List.singleton_append, List.length_singleton] at hload
  have hin : 0 < (0 :: 0 :: rest : Bytes).length := by simp
  have hbefore : ¬ (0 :: 0 :: rest : Bytes).length ≤ 0 := by simp
  change searchEnd (0 :: 0 :: rest) (0 :: 0 :: rest : Bytes).length (rest.length + 1 + 1) 0 = _
  rw [searchEnd]
  simp only [hin, hbefore, hskip, hload, bind, Except.bind, if_true, if_false, Nat.zero_add]
  rfl

/-- The dump prints the entries of a run in their order, and then stops. -/
theorem printStrings_entries (pre rest : Bytes) (L : List Bytes) (hL : ∀ s ∈ L, Packable 0 s)
    (left : ℕ) (hleft : L.length < left) :
    printStrings (pre ++ flat 0 L ++ 0 :: rest) (pre ++ flat 0 L ++ 0 :: rest).length left
      pre.length = .ok L := by
  induction L generalizing pre left with
  | nil =>
    obtain ⟨left, rfl⟩ := Nat.exists_eq_add_one_of_ne_zero (Nat.ne_of_gt hleft)
    simp only [flat_nil, List.append_nil, printStrings, load_append, bind, Except.bind, if_true]
    rfl
  | cons s L ih =>
    obtain ⟨left, rfl⟩ := Nat.exists_eq_add_one_of_ne_zero (Nat.ne_of_gt (Nat.zero_lt_of_lt hleft))
    have hs := hL s (by simp)
    have hline := loadString_string pre s (flat 0 L ++ 0 :: rest) hs.clean
    have hnext := getNextEnvString_entry pre s (flat 0 L ++ 0 :: rest) hs
    obtain ⟨c, hc, hload⟩ := load_entry pre s (flat 0 L ++ 0 :: rest) hs
    have htail := ih (pre ++ s ++ [0]) (fun t ht => hL t (List.mem_cons_of_mem _ ht)) left
      (by simpa using hleft)
    rw [block_behind, length_entry] at htail
    rw [block_cons]
    simp only [printStrings, hload, hline, hnext, htail, bind, Except.bind, hc, if_false]
    rfl

end MetaDigi.EnvScan
