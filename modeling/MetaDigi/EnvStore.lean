import Mathlib.Data.List.Nodup
import MetaDigi.EnvScan

/-!
# The environment as an ordered map

The abstract state is the list of entries. Setting a variable removes the
first entry of its name and appends the new one; removing a variable removes
that entry. The functions on the packed block refine these two operations as
long as the result fits, and there is no other condition: with a result that
does not fit, the block is overrun.
-/

namespace MetaDigi.EnvStore

open CheckedMemory CStrings EnvFuncs EnvScan PackedStrings

/-- A variable name that fits the arrays of the environment functions. -/
structure VarName where
  /-- The characters of the name; the empty name is allowed. -/
  text : CString
  /-- An equals sign would end the name. -/
  noAssign : varAsign ∉ text.val
  /-- At most 49 characters, so that the NUL has a cell. -/
  short : text.val.length < envMaxVarNameLen

/-- The string `k=v` that is passed to `add_var`. -/
def varString (k : VarName) (v : CString) : CString :=
  ⟨k.text.val ++ varAsign :: v.val, fun h => by
    rcases List.mem_append.mp h with h | h
    · exact k.text.property h
    · rcases List.mem_cons.mp h with h | h
      · exact absurd h (by decide)
      · exact v.property h⟩

/-- The list without the first entry of a name. -/
def eraseVar (k : VarName) (L : List Bytes) : List Bytes :=
  L.eraseP (fun e => nameOf e = some k.text.val)

/-- The list with a variable set: the new entry is the last one. -/
def setVar (k : VarName) (v : CString) (L : List Bytes) : List Bytes :=
  eraseVar k L ++ [(varString k v).val]

/-- No two entries have the same name; entries without a name do not count. -/
def DistinctNames (L : List Bytes) : Prop := (L.filterMap nameOf).Nodup

/-- The new entry has the name it was built from. -/
theorem nameOf_varString (k : VarName) (v : CString) :
    nameOf (varString k v).val = some k.text.val :=
  (nameOf_eq_iff k.noAssign _).mpr ⟨v.val, by simp [varString]⟩

/-- The new entry can be packed: it has its equals sign and no NUL. -/
theorem packable_varString (k : VarName) (v : CString) : Packable 0 (varString k v).val :=
  ⟨by simp [varString], (varString k v).property⟩

/-- The entry of a name is the first one that begins with it. -/
theorem eraseVar_eq (k : VarName) (L : List Bytes) :
    eraseVar k L = L.eraseP (assigns k.text.val) := by
  have hsame : (fun e => decide (nameOf e = some k.text.val)) = assigns k.text.val := by
    funext e
    exact decide_eq_decide.mpr (nameOf_eq_iff k.noAssign e)
  rw [eraseVar, hsame]

/-- There is such an entry exactly when one begins with the name. -/
theorem any_nameOf (k : VarName) (L : List Bytes) :
    L.any (fun e => nameOf e = some k.text.val) = L.any (assigns k.text.val) := by
  congr 1
  funext e
  exact decide_eq_decide.mpr (nameOf_eq_iff k.noAssign e)

/-- Either no entry has a property, or the list splits at the first one that
has it, which lies behind the entries in front of it. -/
theorem split_where (p : Bytes → Bool) (L : List Bytes) :
    (addrWhere p L = none ∧ L.eraseP p = L ∧ L.any p = false) ∨
    ∃ A e B, L = A ++ e :: B ∧ L.eraseP p = A ++ B ∧
      addrWhere p (e :: B) = some 0 ∧ addrWhere p L = some (flat 0 A).length ∧
      L.any p = true := by
  induction L with
  | nil => exact .inl ⟨rfl, rfl, rfl⟩
  | cons s L ih =>
    by_cases hs : p s = true
    · exact .inr ⟨[], s, L, rfl, by simp [hs], by simp [addrWhere, hs],
        by simp [addrWhere, hs], by simp [hs]⟩
    · rcases ih with ⟨haddr, herase, hany⟩ | ⟨A, e, B, hL, herase, hfirst, haddr, hany⟩
      · refine .inl ⟨by simp [addrWhere, hs, haddr], ?_, ?_⟩
        · rw [List.eraseP_cons_of_neg hs, herase]
        · rw [List.any_cons, hany, Bool.eq_false_iff.mpr hs, Bool.or_false]
      · refine .inr ⟨s :: A, e, B, by rw [hL]; rfl, ?_, hfirst, ?_, ?_⟩
        · rw [List.eraseP_cons_of_neg hs, herase, List.cons_append]
        · rw [addrWhere, if_neg hs, haddr, Option.map_some, flat_cons s A,
            List.length_append, List.length_cons]
          congr 1
          omega
        · rw [List.any_cons, hany, Bool.or_true]

/-- Distinct names stay distinct without one of the entries. -/
theorem DistinctNames.eraseVar {L : List Bytes} (h : DistinctNames L) (k : VarName) :
    DistinctNames (eraseVar k L) :=
  h.sublist (List.eraseP_sublist.filterMap nameOf)

/-- With distinct names no entry of the removed name is left. -/
theorem DistinctNames.name_erased {L : List Bytes} (h : DistinctNames L) (k : VarName) :
    ∀ e ∈ EnvStore.eraseVar k L, nameOf e ≠ some k.text.val := by
  induction L with
  | nil => simp [EnvStore.eraseVar]
  | cons s L ih =>
    intro e he hname
    by_cases hs : nameOf s = some k.text.val
    · simp only [EnvStore.eraseVar, hs, decide_true, List.eraseP_cons_of_pos] at he
      simp only [DistinctNames, List.filterMap_cons, hs, List.nodup_cons] at h
      exact h.1 (List.mem_filterMap.mpr ⟨e, he, hname⟩)
    · have hL : DistinctNames L := h.sublist ((List.sublist_cons_self s L).filterMap nameOf)
      simp only [EnvStore.eraseVar, hs, decide_false, Bool.false_eq_true, not_false_iff,
        List.eraseP_cons_of_neg, List.mem_cons] at he
      rcases he with rfl | he
      · exact hs hname
      · exact ih hL e he hname

/-- Setting a variable keeps the names distinct. -/
theorem DistinctNames.setVar {L : List Bytes} (h : DistinctNames L) (k : VarName) (v : CString) :
    DistinctNames (setVar k v L) := by
  have herased := h.name_erased k
  simp only [DistinctNames, EnvStore.setVar, List.filterMap_append, List.filterMap_cons,
    nameOf_varString, List.filterMap_nil]
  refine List.nodup_append.mpr ⟨h.eraseVar k, by simp, ?_⟩
  intro a ha b hb hab
  obtain ⟨e, he, hname⟩ := List.mem_filterMap.mp ha
  rw [List.mem_singleton.mp hb] at hab
  exact herased e he (hname.trans (by rw [hab]))

/-- Removing a found variable closes the gap it leaves; the cells behind the
new end mark are cleared as far as the old one. -/
theorem removeVar_found {w : CString} (hlen : w.val.length < envMaxVarNameLen) (pre rest : Bytes)
    (A : List Bytes) (e : Bytes) (B : List Bytes) (hL : ∀ s ∈ A ++ e :: B, Packable 0 s)
    (haddr : addrWhere (assigns w.val) (A ++ e :: B) = some (flat 0 A).length) :
    removeVar (pre ++ flat 0 (A ++ e :: B) ++ 0 :: rest) pre.length
      (pre ++ flat 0 (A ++ e :: B) ++ 0 :: rest).length w =
      .ok (true, pre ++ flat 0 (A ++ B) ++ 0 :: (List.replicate (e.length + 1) 0 ++ rest)) := by
  have hvar := getVarAddr_first hlen pre rest (A ++ e :: B) hL
  rw [haddr, Option.map_some] at hvar
  have he : Packable 0 e := hL e (by simp)
  have hB : ∀ s ∈ e :: B, Packable 0 s := fun s hs => hL s (List.mem_append_right A hs)
  -- the block as seen from the entry itself
  have hmem : pre ++ flat 0 (A ++ e :: B) ++ 0 :: rest =
      (pre ++ flat 0 A) ++ flat 0 (e :: B) ++ 0 :: rest := by simp
  have hnext : pre ++ flat 0 (A ++ e :: B) ++ 0 :: rest =
      (pre ++ flat 0 A) ++ e ++ 0 :: (flat 0 B ++ 0 :: rest) := by simp
  have hend := getEndMark_entries (pre ++ flat 0 A) rest (e :: B) hB (by simp)
  rw [← hmem, List.length_append] at hend
  have hstep := getNextEnvString_entry (pre ++ flat 0 A) e (flat 0 B ++ 0 :: rest) he
  rw [← hnext, List.length_append] at hstep
  have hcopy := copyCells_down (pre ++ flat 0 A) (e ++ [0]) (flat 0 B ++ [0]) rest (by simp)
  have hcopyMem : pre ++ flat 0 A ++ (e ++ [0]) ++ (flat 0 B ++ [0]) ++ rest =
      pre ++ flat 0 (A ++ e :: B) ++ 0 :: rest := by simp
  have hgap : (((e ++ [0]) ++ (flat 0 B ++ [0])).drop (flat 0 B ++ [0]).length).length =
      (List.replicate (e.length + 1) (0 : UInt8)).length := by
    simp
    omega
  have hclear := storeAll_append (pre ++ flat 0 A ++ (flat 0 B ++ [0])) _
    (List.replicate (e.length + 1) 0) rest hgap
  rw [hcopyMem] at hcopy
  have hcount : pre.length + (flat 0 A).length + (flat 0 (e :: B)).length + 1 -
      (pre.length + (flat 0 A).length + e.length + 1) = (flat 0 B ++ [0]).length := by
    simp only [flat_cons, List.length_append, List.length_cons, List.length_nil]
    omega
  have hclearCount : pre.length + (flat 0 A).length + (flat 0 (e :: B)).length + 1 -
      (pre.length + (flat 0 A).length + (flat 0 B ++ [0]).length) = e.length + 1 := by
    simp only [flat_cons, List.length_append, List.length_cons, List.length_nil]
    omega
  have hsrc : (pre ++ flat 0 A).length + (e ++ [0]).length =
      pre.length + (flat 0 A).length + e.length + 1 := by simp; omega
  have hdst : (pre ++ flat 0 A ++ (flat 0 B ++ [0])).length =
      pre.length + (flat 0 A).length + (flat 0 B ++ [0]).length := by simp [Nat.add_assoc]
  rw [hsrc, List.length_append] at hcopy
  rw [hdst] at hclear
  simp only [removeVar, hvar, hend, hstep, bind, Except.bind, hcount, hcopy, hclearCount, hclear]
  simp [pure, Except.pure]

/-- A name that is not there leaves the block alone. -/
theorem removeVar_absent {k : CString} {mem : Bytes} {from' till : ℕ}
    (h : getVarAddr mem from' till k = .ok none) :
    removeVar mem from' till k = .ok (false, mem) := by
  simp only [removeVar, h, bind, Except.bind]
  rfl

/-- The copy loop stores the whole string when there is room for it. -/
theorem appendChars_room (pre old s rest : Bytes) (h : old.length = s.length) (till : ℕ)
    (htill : pre.length + s.length ≤ till) :
    appendChars (pre ++ old ++ rest) till pre.length s =
      .ok (pre.length + s.length, pre ++ s ++ rest) := by
  induction s generalizing pre old with
  | nil =>
    have hold : old = [] := List.length_eq_zero_iff.mp h
    simp [hold, appendChars, pure, Except.pure]
  | cons c s ih =>
    cases old with
    | nil => simp at h
    | cons first old =>
      have hin : pre.length < till := Nat.lt_of_lt_of_le (by simp) htill
      have hstore : store (pre ++ (first :: old) ++ rest) pre.length c =
          .ok (pre ++ [c] ++ old ++ rest) := by simp
      have hnext := ih (pre ++ [c]) old (by simpa using h)
        (by simp only [List.length_append, List.length_cons, List.length_nil] at htill ⊢; omega)
      rw [List.length_append, List.length_singleton] at hnext
      simp only [appendChars, hin, if_true, hstore, bind, Except.bind, hnext]
      simp [Nat.add_assoc, Nat.add_comm 1]

/-- Without room the loop stops at `till`, with the string cut off. -/
theorem appendChars_cut (pre old s : Bytes) (h : old.length ≤ s.length) :
    appendChars (pre ++ old) (pre ++ old).length pre.length s =
      .ok ((pre ++ old).length, pre ++ s.take old.length) := by
  induction s generalizing pre old with
  | nil =>
    have hold : old = [] := List.length_eq_zero_iff.mp (by simpa using h)
    simp [hold, appendChars, pure, Except.pure]
  | cons c s ih =>
    cases old with
    | nil => simp [appendChars, pure, Except.pure]
    | cons first old =>
      have hstore : store (pre ++ (first :: old)) pre.length c = .ok (pre ++ [c] ++ old) := by
        simp
      have hin : pre.length < (pre ++ first :: old).length := by simp
      have hlen : (pre ++ [c] ++ old).length = (pre ++ first :: old).length := by simp
      have hpre : (pre ++ [c]).length = pre.length + 1 := by simp
      have hnext := ih (pre ++ [c]) old (by simpa using h)
      rw [hlen, hpre] at hnext
      simp only [appendChars, hin, if_true, hstore, bind, Except.bind, hnext]
      simp

/-- Where `add_var` starts to write: over the end mark, which is the first
free cell behind the entries. -/
theorem appendVar_start {L : List Bytes} (hL : ∀ s ∈ L, Packable 0 s) (rest : Bytes)
    (hempty : L = [] → ∃ tail, rest = 0 :: tail) (s : CString) :
    appendVar (flat 0 L ++ 0 :: rest) 0 (flat 0 L ++ 0 :: rest).length s = do
      let (varAddr, mem) ← appendChars (flat 0 L ++ 0 :: rest) (flat 0 L ++ 0 :: rest).length
        (flat 0 L).length s.val
      let mem ← store mem varAddr 0
      let mem ← store mem (varAddr + 1) 0
      return (true, mem) := by
  cases L with
  | nil =>
    obtain ⟨tail, rfl⟩ := hempty rfl
    have hend := getEndMark_empty tail
    simp only [appendVar, flat_nil, List.nil_append, hend, bind, Except.bind, Nat.zero_add,
      if_true, Nat.sub_self, List.length_nil]
  | cons t L =>
    have hend := getEndMark_entries [] rest (t :: L) hL (by simp)
    simp only [List.nil_append, List.length_nil, Nat.zero_add] at hend
    have ht := hL t (by simp)
    have hlong : (flat 0 (t :: L)).length ≠ 0 + 1 := by
      have h := List.length_pos_iff.mpr ht.nonempty
      simp only [flat_cons, List.length_append, List.length_cons]
      omega
    simp only [appendVar, hend, bind, Except.bind, hlong, if_false]

/-- A string with room for two more NULs is stored with both of them. -/
theorem writeVar_fits (pre : Bytes) {cells s : Bytes} (hroom : s.length + 2 ≤ cells.length) :
    ∃ tail, s.length + 2 + tail.length = cells.length ∧ (do
        let (varAddr, mem) ← appendChars (pre ++ cells) (pre ++ cells).length pre.length s
        let mem ← store mem varAddr 0
        let mem ← store mem (varAddr + 1) 0
        return (true, mem)) = Except.ok (true, pre ++ s ++ 0 :: 0 :: tail) := by
  obtain ⟨old, x, y, tail, rfl, hold⟩ : ∃ old x y tail,
      cells = old ++ x :: y :: tail ∧ old.length = s.length := by
    have hlast : s.length + 1 < cells.length := by omega
    refine ⟨cells.take s.length, cells[s.length], cells[s.length + 1],
      cells.drop (s.length + 2), ?_, ?_⟩
    · conv_lhs => rw [← List.take_append_drop s.length cells]
      rw [List.drop_eq_getElem_cons (Nat.lt_of_succ_lt hlast), List.drop_eq_getElem_cons hlast]
    · rw [List.length_take]
      omega
  have hchars : appendChars (pre ++ (old ++ x :: y :: tail))
      (pre ++ (old ++ x :: y :: tail)).length pre.length s =
      .ok (pre.length + s.length, pre ++ s ++ x :: y :: tail) := by
    rw [← List.append_assoc pre old]
    exact appendChars_room pre old s (x :: y :: tail) hold _ (by simp [hold])
  have hfirst : store (pre ++ s ++ x :: y :: tail) (pre.length + s.length) 0 =
      .ok (pre ++ s ++ 0 :: y :: tail) := by
    rw [← List.length_append]
    exact store_append _ _ _ _
  have hsecond : store (pre ++ s ++ 0 :: y :: tail) (pre.length + s.length + 1) 0 =
      .ok (pre ++ s ++ 0 :: 0 :: tail) := by
    have h := store_append (pre ++ s ++ [0]) tail y 0
    simpa [Nat.add_assoc] using h
  refine ⟨tail, by simp [hold]; omega, ?_⟩
  simp only [hchars, hfirst, hsecond, bind, Except.bind]
  rfl

/-- Without that room the block is left. -/
theorem writeVar_overrun (pre : Bytes) {cells s : Bytes} (hne : cells ≠ [])
    (hroom : cells.length < s.length + 2) :
    (do
      let (varAddr, mem) ← appendChars (pre ++ cells) (pre ++ cells).length pre.length s
      let mem ← store mem varAddr 0
      let mem ← store mem (varAddr + 1) 0
      return (true, mem)) = Except.error (.write (pre ++ cells).length) := by
  by_cases hcut : cells.length ≤ s.length
  · have hchars := appendChars_cut pre cells s hcut
    have hfull : (pre ++ s.take cells.length).length ≤ (pre ++ cells).length := by
      simp only [List.length_append, List.length_take]
      omega
    simp only [hchars, bind, Except.bind, store_past hfull]
  · -- the string fits exactly, and the second closing NUL does not
    obtain ⟨old, x, rfl, hold⟩ : ∃ old x, cells = old ++ [x] ∧ old.length = s.length := by
      refine ⟨cells.dropLast, cells.getLast hne, (List.dropLast_append_getLast hne).symm, ?_⟩
      rw [List.length_dropLast]
      omega
    have hlen : (pre ++ (old ++ [x])).length = pre.length + s.length + 1 := by
      simp [hold, Nat.add_assoc]
    have hchars : appendChars (pre ++ (old ++ [x])) (pre.length + s.length + 1) pre.length s =
        .ok (pre.length + s.length, pre ++ s ++ [x]) := by
      rw [← List.append_assoc pre old]
      exact appendChars_room pre old s [x] hold _ (by omega)
    have hfirst : store (pre ++ s ++ [x]) (pre.length + s.length) 0 = .ok (pre ++ s ++ [0]) := by
      rw [← List.length_append]
      exact store_append _ _ _ _
    have hfull : (pre ++ s ++ [0] : Bytes).length ≤ pre.length + s.length + 1 := by
      simp [Nat.add_assoc]
    rw [hlen]
    simp only [hchars, hfirst, store_past hfull, bind, Except.bind]

/-- Appending a string that fits gives the longer list. -/
theorem appendVar_fits {mem : Bytes} {L : List Bytes} (h : Holds 0 mem L) {s : CString}
    (hs : Packable 0 s.val) (hfits : (packed 0 (L ++ [s.val])).length ≤ mem.length) :
    ∃ mem', appendVar mem 0 mem.length s = .ok (true, mem') ∧ mem'.length = mem.length ∧
      Holds 0 mem' (L ++ [s.val]) := by
  obtain ⟨rest, rfl, hempty⟩ := h.split
  rw [length_packed_append, List.length_append] at hfits
  have hroom : s.val.length + 2 ≤ (0 :: rest : Bytes).length := by omega
  obtain ⟨tail, htail, hwrite⟩ := writeVar_fits (flat 0 L) hroom
  refine ⟨flat 0 L ++ s.val ++ 0 :: 0 :: tail, ?_, ?_, holds_append h.entries hs tail⟩
  · rw [appendVar_start h.entries rest hempty]
    exact hwrite
  · simp only [List.length_append, List.length_cons] at htail ⊢
    omega

/-- Appending a string that does not fit always writes at `till`. -/
theorem appendVar_overrun {mem : Bytes} {L : List Bytes} (h : Holds 0 mem L) {s : CString}
    (hfits : mem.length < (packed 0 (L ++ [s.val])).length) :
    appendVar mem 0 mem.length s = .error (.write mem.length) := by
  obtain ⟨rest, rfl, hempty⟩ := h.split
  rw [length_packed_append, List.length_append] at hfits
  rw [appendVar_start h.entries rest hempty]
  exact writeVar_overrun (flat 0 L) (List.cons_ne_nil 0 rest) (by omega)

/-- `get_var_name` on a variable string yields its name. -/
theorem getVarName_varString (k : VarName) (v : CString) :
    ∃ cells, getVarName (varString k v) (List.replicate envMaxVarNameLen 0) varAsign =
      .ok (true, cells) ∧ CString.ofCells cells = k.text := by
  have hsep : strchr (varString k v).val varAsign = some k.text.val.length :=
    strchr_append k.noAssign v.val
  have htake : (varString k v).val.take k.text.val.length = k.text.val := by simp [varString]
  have hroom : (List.replicate (k.text.val.length + 1) (0 : UInt8)).length =
      (k.text.val ++ [0]).length := by simp
  have hstore := storeAll_append [] _ (k.text.val ++ [0])
    (List.replicate (envMaxVarNameLen - 1 - k.text.val.length) 0) hroom
  have hcells : ([] : Bytes) ++ List.replicate (k.text.val.length + 1) 0 ++
      List.replicate (envMaxVarNameLen - 1 - k.text.val.length) 0 =
        List.replicate envMaxVarNameLen 0 := by
    have hshort := k.short
    rw [List.nil_append, ← List.replicate_add]
    congr 1
    simp only [envMaxVarNameLen] at hshort ⊢
    omega
  rw [hcells, List.length_nil] at hstore
  refine ⟨[] ++ (k.text.val ++ [0]) ++
    List.replicate (envMaxVarNameLen - 1 - k.text.val.length) 0, ?_, ?_⟩
  · simp only [getVarName, hsep, htake, hstore, bind, Except.bind]
    rfl
  · have hclean : ∀ c ∈ k.text.val, decide (c ≠ 0) = true :=
      fun c hc => decide_eq_true (fun he => k.text.property (he ▸ hc))
    apply Subtype.ext
    simp only [CString.ofCells, List.nil_append, List.append_assoc]
    rw [List.takeWhile_append_of_pos hclean]
    simp

/-- A list stays a list without one of its entries, in a block that has the
cells of that entry left over. -/
theorem holds_without {A B : List Bytes} {e : Bytes} (hL : ∀ s ∈ A ++ e :: B, Packable 0 s)
    (rest : Bytes) :
    Holds 0 (flat 0 (A ++ B) ++ 0 :: (List.replicate (e.length + 1) 0 ++ rest)) (A ++ B) := by
  have hAB : ∀ s ∈ A ++ B, Packable 0 s := by
    intro s hs
    rcases List.mem_append.mp hs with hs | hs
    · exact hL s (List.mem_append_left _ hs)
    · exact hL s (List.mem_append_right A (List.mem_cons_of_mem e hs))
  by_cases hne : A ++ B = []
  · rw [hne]
    exact holds_nil_iff.mpr ⟨List.replicate e.length 0 ++ rest, by simp [List.replicate_succ]⟩
  · exact (holds_iff_of_ne_nil hne).mpr ⟨hAB, _, rfl⟩

/-- `add_var` on a block that holds a list is the append to the list without
the entry of that name. -/
theorem addVar_eq_append {mem : Bytes} {L : List Bytes} (h : Holds 0 mem L) (k : VarName)
    (v : CString) :
    ∃ mem', mem'.length = mem.length ∧ Holds 0 mem' (eraseVar k L) ∧
      addVar mem 0 mem.length (varString k v) =
        appendVar mem' 0 mem'.length (varString k v) := by
  obtain ⟨cells, hname, hcells⟩ := getVarName_varString k v
  obtain ⟨rest, rfl, hempty⟩ := h.split
  have hvar := getVarAddr_first k.short [] rest L h.entries
  simp only [List.nil_append, List.length_nil, Nat.zero_add] at hvar
  rw [eraseVar_eq]
  rcases split_where (assigns k.text.val) L with
    ⟨haddr, herase, -⟩ | ⟨A, e, B, rfl, herase, hfirst, haddr, -⟩
  · refine ⟨flat 0 L ++ 0 :: rest, rfl, by rw [herase]; exact h, ?_⟩
    rw [haddr] at hvar
    simp only [addVar, hname, bind, Except.bind, if_true, hcells, hvar, Option.map_none]
  · have hB : ∀ s ∈ [] ++ e :: B, Packable 0 s :=
      fun s hs => h.entries s (List.mem_append_right A hs)
    have hremove := removeVar_found k.short (flat 0 A) rest [] e B hB hfirst
    have hmem : flat 0 A ++ flat 0 ([] ++ e :: B) ++ 0 :: rest =
        flat 0 (A ++ e :: B) ++ 0 :: rest := by simp
    have hflat : flat 0 A ++ flat 0 ([] ++ B) = flat 0 (A ++ B) := by simp
    rw [hmem, hflat] at hremove
    rw [haddr, Option.map_some] at hvar
    have hlen : (flat 0 (A ++ B) ++ 0 :: (List.replicate (e.length + 1) 0 ++ rest)).length =
        (flat 0 (A ++ e :: B) ++ 0 :: rest).length := by simp; omega
    refine ⟨_, hlen, by rw [herase]; exact holds_without h.entries rest, ?_⟩
    simp only [addVar, hname, bind, Except.bind, if_true, hcells, hvar, hremove]
    rw [hlen]

/-- `add_var` with a result that fits sets the variable. -/
theorem addVar_fits {mem : Bytes} {L : List Bytes} (h : Holds 0 mem L) (k : VarName) (v : CString)
    (hfits : (packed 0 (setVar k v L)).length ≤ mem.length) :
    ∃ mem', addVar mem 0 mem.length (varString k v) = .ok (true, mem') ∧
      mem'.length = mem.length ∧ Holds 0 mem' (setVar k v L) := by
  obtain ⟨mid, hlen, hmid, hadd⟩ := addVar_eq_append h k v
  obtain ⟨mem', happend, hlen', hmem'⟩ := appendVar_fits hmid (packable_varString k v)
    (by rw [hlen]; exact hfits)
  exact ⟨mem', hadd.trans happend, hlen'.trans hlen, hmem'⟩

/-- `add_var` with a result that does not fit writes behind the block. -/
theorem addVar_overrun {mem : Bytes} {L : List Bytes} (h : Holds 0 mem L) (k : VarName)
    (v : CString) (hfits : mem.length < (packed 0 (setVar k v L)).length) :
    addVar mem 0 mem.length (varString k v) = .error (.write mem.length) := by
  obtain ⟨mid, hlen, hmid, hadd⟩ := addVar_eq_append h k v
  rw [hadd, appendVar_overrun hmid (by rw [hlen]; exact hfits), hlen]

/-- `remove_var` removes the first entry that begins with the text and an
equals sign if there is one, and changes nothing otherwise; it says which of
the two happened. -/
theorem removeVar_first {mem : Bytes} {L : List Bytes} (h : Holds 0 mem L) {w : CString}
    (hlen : w.val.length < envMaxVarNameLen) :
    ∃ mem', removeVar mem 0 mem.length w = .ok (L.any (assigns w.val), mem') ∧
      mem'.length = mem.length ∧ Holds 0 mem' (L.eraseP (assigns w.val)) ∧
      (L.any (assigns w.val) = false → mem' = mem) := by
  obtain ⟨rest, rfl, hempty⟩ := h.split
  rcases split_where (assigns w.val) L with
    ⟨haddr, herase, hany⟩ | ⟨A, e, B, rfl, herase, -, haddr, hany⟩
  · have hvar := getVarAddr_first hlen [] rest L h.entries
    simp only [haddr, List.nil_append, List.length_nil, Option.map_none] at hvar
    exact ⟨_, by rw [removeVar_absent hvar, hany], rfl, by rw [herase]; exact h, fun _ => rfl⟩
  · have hremove := removeVar_found hlen [] rest A e B h.entries haddr
    simp only [List.nil_append, List.length_nil] at hremove
    refine ⟨_, by rw [hremove, hany], ?_, by rw [herase]; exact holds_without h.entries rest,
      fun hf => absurd hf (by rw [hany]; simp)⟩
    simp
    omega

/-- `remove_var` of a name removes its variable. -/
theorem removeVar_refines {mem : Bytes} {L : List Bytes} (h : Holds 0 mem L) (k : VarName) :
    ∃ mem', removeVar mem 0 mem.length k.text =
        .ok (L.any (fun e => nameOf e = some k.text.val), mem') ∧
      mem'.length = mem.length ∧ Holds 0 mem' (eraseVar k L) ∧
      (L.any (fun e => nameOf e = some k.text.val) = false → mem' = mem) := by
  rw [eraseVar_eq, any_nameOf]
  exact removeVar_first h k.short

/-- One call of the two updating functions. -/
inductive Call where
  /-- `add_var(from, till, "k=v")`. -/
  | add (k : VarName) (v : CString)
  /-- `remove_var(from, till, k)`. -/
  | remove (k : VarName)

/-- The call on a block, with `till` at its end. -/
def Call.exec (mem : Bytes) : Call → Except Fault (Bool × Bytes)
  | .add k v => addVar mem 0 mem.length (varString k v)
  | .remove k => removeVar mem 0 mem.length k.text

/-- The call on the list of entries. -/
def Call.apply (L : List Bytes) : Call → List Bytes
  | .add k v => setVar k v L
  | .remove k => eraseVar k L

/-- The result the call has to return. -/
def Call.answer (L : List Bytes) : Call → Bool
  | .add _ _ => true
  | .remove k => L.any (fun e => nameOf e = some k.text.val)

/-- A block represents an ordered map: it holds the entries, their names are
distinct, every name is found at its entry, and the dump lists the entries. -/
structure Represents (mem : Bytes) (L : List Bytes) : Prop where
  /-- The entries are packed at the start of the block. -/
  holds : Holds 0 mem L
  /-- A name determines its entry. -/
  distinct : DistinctNames L
  /-- `get_var_addr` answers the start of the entry, or NULL. -/
  lookup : ∀ k : VarName, getVarAddr mem 0 mem.length k.text = .ok (varAddrIn k.text.val L)
  /-- `env_printenv` dumps the entries in order. -/
  dump : envPrintenvDump mem 0 mem.length = .ok L

/-- Every list that a sequence of calls leads to can be packed into a block
of this size. -/
def FitsAll (n : ℕ) : List Bytes → List Call → Prop
  | _, [] => True
  | L, call :: calls => (packed 0 (call.apply L)).length ≤ n ∧ FitsAll n (call.apply L) calls

/-- A sequence of calls runs on the block as it runs on the list: before and
after every call the block represents the list, every call returns what it
has to, and a call that returns 0 changes no byte. -/
def Tracks (mem : Bytes) (L : List Bytes) : List Call → Prop
  | [] => Represents mem L
  | call :: calls => Represents mem L ∧
    ∃ mem', call.exec mem = .ok (call.answer L, mem') ∧ mem'.length = mem.length ∧
      (call.answer L = false → mem' = mem) ∧ Tracks mem' (call.apply L) calls

/-- Holding distinct names is all that the lookups need. -/
theorem Represents.of_holds {mem : Bytes} {L : List Bytes} (h : Holds 0 mem L)
    (hd : DistinctNames L) : Represents mem L := by
  refine ⟨h, hd, fun k => ?_, ?_⟩
  · obtain ⟨rest, rfl, -⟩ := h.split
    have hvar := getVarAddr_entries k.noAssign k.short [] rest L h.entries
    simpa using hvar
  · obtain ⟨rest, rfl, -⟩ := h.split
    have hleft : L.length < (flat 0 L ++ 0 :: rest).length := by
      have hlen := length_le_length_flat L
      simp only [List.length_append, List.length_cons]
      omega
    have hprint := printStrings_entries [] rest L h.entries _ hleft
    simpa [envPrintenvDump] using hprint

/-- One call keeps the representation. -/
theorem Call.exec_refines {mem : Bytes} {L : List Bytes} (h : Holds 0 mem L)
    (hd : DistinctNames L) (call : Call)
    (hfits : (packed 0 (call.apply L)).length ≤ mem.length) :
    ∃ mem', call.exec mem = .ok (call.answer L, mem') ∧ mem'.length = mem.length ∧
      (call.answer L = false → mem' = mem) ∧ Holds 0 mem' (call.apply L) ∧
      DistinctNames (call.apply L) := by
  cases call with
  | add k v =>
    obtain ⟨mem', hexec, hlen, hmem'⟩ := addVar_fits h k v hfits
    exact ⟨mem', hexec, hlen, fun hf => absurd hf (by simp [Call.answer]), hmem', hd.setVar k v⟩
  | remove k =>
    obtain ⟨mem', hexec, hlen, hmem', hsame⟩ := removeVar_refines h k
    exact ⟨mem', hexec, hlen, hsame, hmem', hd.eraseVar k⟩

/-- The environment store refines an ordered map, over every sequence of
calls whose results fit the block. -/
theorem calls_refine {mem : Bytes} {L : List Bytes} (h : Holds 0 mem L) (hd : DistinctNames L)
    (calls : List Call) (hfits : FitsAll mem.length L calls) : Tracks mem L calls := by
  induction calls generalizing mem L with
  | nil => exact Represents.of_holds h hd
  | cons call calls ih =>
    obtain ⟨mem', hexec, hlen, hsame, hmem', hd'⟩ := Call.exec_refines h hd call hfits.1
    refine ⟨Represents.of_holds h hd, mem', hexec, hlen, hsame, ih hmem' hd' ?_⟩
    rw [hlen]
    exact hfits.2

/-- A name of one letter. -/
def nameA : VarName := ⟨⟨text "a", by decide⟩, by decide, by decide⟩

/-- Setting, replacing and removing a variable in a block of eight bytes. -/
theorem calls_refine_example :
    Tracks [0, 0, 7, 7, 7, 7, 7, 7] []
      [.add nameA ⟨text "b", by decide⟩, .add nameA ⟨text "", by decide⟩, .remove nameA] :=
  calls_refine (holds_nil_iff.mpr ⟨[7, 7, 7, 7, 7, 7], rfl⟩) (by simp [DistinctNames]) _
    ⟨by decide, by decide, by decide, trivial⟩

/-- What atomic refusal asks of `add_var` on a block: a variable that does
not fit is refused without any change, and no call of the updating functions
leaves the block or leaves anything but a list of entries in it. -/
def RefusedAtomically (mem : Bytes) (L : List Bytes) (k : VarName) (v : CString) : Prop :=
  (mem.length < (packed 0 (setVar k v L)).length →
    addVar mem 0 mem.length (varString k v) = .ok (false, mem)) ∧
  ∀ call ∈ [Call.add k v, Call.remove k], ∃ answer mem' L',
    call.exec mem = .ok (answer, mem') ∧ mem'.length = mem.length ∧ Holds 0 mem' L'

/-- `add_var` never refuses: it meets the requirement exactly when the new
variable fits. -/
theorem refusedAtomically_iff_fits {mem : Bytes} {L : List Bytes} (h : Holds 0 mem L)
    (k : VarName) (v : CString) :
    RefusedAtomically mem L k v ↔ (packed 0 (setVar k v L)).length ≤ mem.length := by
  constructor
  · rintro ⟨hrefused, -⟩
    by_contra hover
    have hfits := Nat.lt_of_not_le hover
    have hadd := addVar_overrun h k v hfits
    rw [hrefused hfits] at hadd
    cases hadd
  · intro hfits
    refine ⟨fun hover => absurd hfits (Nat.not_le.mpr hover), fun call hcall => ?_⟩
    rcases List.mem_cons.mp hcall with rfl | hcall
    · obtain ⟨mem', hexec, hlen, hmem'⟩ := addVar_fits h k v hfits
      exact ⟨true, mem', _, hexec, hlen, hmem'⟩
    · rw [List.mem_singleton.mp hcall]
      obtain ⟨mem', hexec, hlen, hmem', -⟩ := removeVar_refines h k
      exact ⟨_, mem', _, hexec, hlen, hmem'⟩

/-- In a block of six bytes with the entry `a=b` there is room for `a=bc`. -/
theorem refusedAtomically_iff_fits_example :
    RefusedAtomically [97, 61, 98, 0, 0, 7] [text "a=b"] nameA ⟨text "bc", by decide⟩ ↔
      (packed 0 (setVar nameA ⟨text "bc", by decide⟩ [text "a=b"])).length ≤ 6 :=
  refusedAtomically_iff_fits ((holds_iff_of_ne_nil (by simp)).mpr
    ⟨by intro s hs; rw [List.mem_singleton.mp hs]; exact ⟨by decide, by decide⟩, [7], by decide⟩) _ _

/-- A block of five bytes is full with the entry `a=b`; setting `a=bc` there
does not return but writes behind the block. -/
theorem add_past_till :
    Holds 0 ([97, 61, 98, 0, 0] : Bytes) [text "a=b"] ∧
    addVar [97, 61, 98, 0, 0] 0 5 (varString nameA ⟨text "bc", by decide⟩) =
      .error (.write 5) ∧
    ¬ RefusedAtomically [97, 61, 98, 0, 0] [text "a=b"] nameA ⟨text "bc", by decide⟩ := by
  have hoverrun : addVar [97, 61, 98, 0, 0] 0 5 (varString nameA ⟨text "bc", by decide⟩) =
      .error (.write 5) := by decide
  refine ⟨(holds_iff_of_ne_nil (by simp)).mpr ⟨?_, [], by decide⟩, hoverrun, fun h => ?_⟩
  · intro s hs
    rw [List.mem_singleton.mp hs]
    exact ⟨by decide, by decide⟩
  · have hrefused := h.1 (by decide)
    rw [show ([97, 61, 98, 0, 0] : Bytes).length = 5 from rfl, hoverrun] at hrefused
    cases hrefused

end MetaDigi.EnvStore
