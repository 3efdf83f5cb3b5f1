import MetaDigi.EnvStore

/-!
# Names that occur more than once

A block whose checksum is right may hold several entries of one name. The
lookup answers the first of them, and an update removes the first and appends
the new one at the end. So what has been set is found again, and what has been
removed is gone, exactly when there was at most one entry of the name.
-/

namespace MetaDigi.EnvRepeats

open CheckedMemory CStrings EnvFuncs EnvScan EnvStore PackedStrings

/-- What `add_var` has set is what `get_var_addr` finds. -/
def SetVisible (mem : Bytes) (k : VarName) (v : CString) : Prop :=
  ∀ mem', addVar mem 0 mem.length (varString k v) = .ok (true, mem') →
    ∃ addr, getVarAddr mem' 0 mem'.length k.text = .ok (some addr) ∧
      loadString mem' addr = .ok (varString k v).val

/-- What `remove_var` has removed is not found any more. -/
def RemovedHidden (mem : Bytes) (k : VarName) : Prop :=
  ∀ mem', removeVar mem 0 mem.length k.text = .ok (true, mem') →
    getVarAddr mem' 0 mem'.length k.text = .ok none

/-- The number of entries that have a name. -/
def entriesOf (k : VarName) (L : List Bytes) : ℕ := L.countP (assigns k.text.val)

/-- Removing the first entry of a name leaves the others. -/
theorem entriesOf_eraseVar (k : VarName) (L : List Bytes) :
    entriesOf k (eraseVar k L) = entriesOf k L - 1 := by
  rw [eraseVar_eq]
  unfold entriesOf
  induction L with
  | nil => rfl
  | cons e L ih =>
    by_cases he : assigns k.text.val e = true
    · rw [List.eraseP_cons_of_pos he, List.countP_cons_of_pos he]
      omega
    · rw [List.eraseP_cons_of_neg he, List.countP_cons_of_neg he, List.countP_cons_of_neg he]
      exact ih

/-- The new entry begins with its name. -/
theorem assigns_varString (k : VarName) (v : CString) :
    assigns k.text.val (varString k v).val = true :=
  decide_eq_true ((nameOf_eq_iff k.noAssign _).mp (nameOf_varString k v))

section Lookup

variable {mem : Bytes} {L : List Bytes} (h : Holds 0 mem L) (k : VarName)

include h

/-- Without an entry of the name `get_var_addr` answers NULL. -/
theorem getVarAddr_absent (hnone : entriesOf k L = 0) :
    getVarAddr mem 0 mem.length k.text = .ok none := by
  obtain ⟨rest, rfl, -⟩ := h.split
  have hvar := getVarAddr_first k.short [] rest L h.entries
  simp only [List.nil_append, List.length_nil, Nat.zero_add] at hvar
  rcases split_where (assigns k.text.val) L with ⟨haddr, -, -⟩ | ⟨A, e, B, hL, -, -, -, hany⟩
  · rw [hvar, haddr, Option.map_none]
  · obtain ⟨e', he', hassigns⟩ := List.any_eq_true.mp hany
    exact absurd hassigns (List.countP_eq_zero.mp hnone e' he')

/-- Otherwise it answers the address of the first one. -/
theorem getVarAddr_present {A B : List Bytes} {e : Bytes} (hL : L = A ++ e :: B)
    (hA : entriesOf k A = 0) (he : assigns k.text.val e = true) :
    ∃ addr, getVarAddr mem 0 mem.length k.text = .ok (some addr) ∧ loadString mem addr = .ok e := by
  obtain ⟨rest, rfl, -⟩ := h.split
  have haddr : ∀ A' : List Bytes, (∀ s ∈ A', ¬assigns k.text.val s = true) →
      addrWhere (assigns k.text.val) (A' ++ e :: B) = some (flat 0 A').length := by
    intro A' hA'
    induction A' with
    | nil => rw [List.nil_append, addrWhere, if_pos he, flat_nil, List.length_nil]
    | cons s A' ih =>
      have htail := ih fun t ht => hA' t (List.mem_cons_of_mem s ht)
      rw [List.cons_append, addrWhere, if_neg (hA' s List.mem_cons_self), htail,
        Option.map_some, flat_cons, List.length_append, List.length_cons]
      congr 1
      omega
  have hvar := getVarAddr_first k.short [] rest L h.entries
  have hclean : (0 : UInt8) ∉ e := (h.entries e (by rw [hL]; simp)).clean
  have hload := loadString_string (flat 0 A) e (flat 0 B ++ 0 :: rest) hclean
  have hmem : flat 0 A ++ e ++ 0 :: (flat 0 B ++ 0 :: rest) = flat 0 L ++ 0 :: rest := by
    rw [hL]
    simp
  rw [hmem] at hload
  refine ⟨(flat 0 A).length, ?_, hload⟩
  simp only [List.nil_append, List.length_nil, Nat.zero_add] at hvar
  rw [hvar, hL, haddr A (List.countP_eq_zero.mp hA), Option.map_some]

/-- `remove_var` hides a name exactly when it occurs at most once. -/
theorem removedHidden_iff : RemovedHidden mem k ↔ entriesOf k L ≤ 1 := by
  obtain ⟨mem', hremove, -, hmem', -⟩ := removeVar_refines h k
  constructor
  · intro hhidden
    by_contra hmore
    have hleft : 0 < entriesOf k (eraseVar k L) := by
      rw [entriesOf_eraseVar]
      omega
    obtain ⟨e, he, hassigns⟩ := List.countP_pos_iff.mp hleft
    rcases split_where (assigns k.text.val) (eraseVar k L) with
      ⟨-, -, hnone⟩ | ⟨A, e', B, hsplit, -, hfirst, haddr, -⟩
    · exact absurd (List.any_eq_true.mpr ⟨e, he, hassigns⟩) (by rw [hnone]; exact Bool.false_ne_true)
    · obtain ⟨rest, hcells, -⟩ := hmem'.split
      have hvar := getVarAddr_first k.short [] rest (eraseVar k L) hmem'.entries
      simp only [List.nil_append, List.length_nil, Nat.zero_add] at hvar
      rw [← hcells, haddr, Option.map_some] at hvar
      have hany : L.any (fun e => nameOf e = some k.text.val) = true := by
        rw [any_nameOf]
        exact List.any_eq_true.mpr
          ⟨e, (List.eraseP_sublist (p := _)).mem (eraseVar_eq k L ▸ he), hassigns⟩
      rw [hany] at hremove
      rw [hhidden mem' hremove] at hvar
      cases hvar
  · intro honce mem'' hremoved
    rw [hremove] at hremoved
    obtain ⟨-, rfl⟩ := Prod.mk.inj (Except.ok.inj hremoved)
    refine getVarAddr_absent hmem' k ?_
    rw [entriesOf_eraseVar]
    omega

/-- What has been set is visible when the name occurs at most once. -/
theorem setVisible_of_once {v : CString} (hfits : (packed 0 (setVar k v L)).length ≤ mem.length)
    (honce : entriesOf k L ≤ 1) : SetVisible mem k v := by
  obtain ⟨mem', hadd, -, hmem'⟩ := addVar_fits h k v hfits
  intro mem'' hadded
  rw [hadd] at hadded
  obtain ⟨-, rfl⟩ := Prod.mk.inj (Except.ok.inj hadded)
  refine getVarAddr_present hmem' k rfl ?_ (assigns_varString k v)
  rw [entriesOf_eraseVar]
  omega

/-- What has been set is visible and what has been removed is hidden exactly
when the name occurs at most once in the block. -/
theorem visible_iff_once (v : CString) (hfits : (packed 0 (setVar k v L)).length ≤ mem.length) :
    SetVisible mem k v ∧ RemovedHidden mem k ↔ entriesOf k L ≤ 1 := by
  rw [removedHidden_iff h k]
  exact ⟨fun hboth => hboth.2, fun honce => ⟨setVisible_of_once h k hfits honce, honce⟩⟩

end Lookup

/-- A block of twelve bytes with `a=1` and room for another entry. -/
theorem visible_once_example :
    SetVisible [97, 61, 49, 0, 0, 7, 7, 7, 7, 7, 7, 7] nameA ⟨text "2", by decide⟩ ∧
      RemovedHidden [97, 61, 49, 0, 0, 7, 7, 7, 7, 7, 7, 7] nameA :=
  (visible_iff_once (L := [text "a=1"]) ((holds_iff_of_ne_nil (by simp)).mpr
    ⟨by intro s hs; rw [List.mem_singleton.mp hs]; exact ⟨by decide, by decide⟩, _, rfl⟩)
    nameA ⟨text "2", by decide⟩ (by decide)).mpr (by decide)

/-- With `a=1` and `a=2` in the block, `a=3` is set behind `a=2`, and `a=2` is
found. -/
theorem set_behind_repeated :
    Holds 0 ([97, 61, 49, 0, 97, 61, 50, 0, 0] : Bytes) [text "a=1", text "a=2"] ∧
    (packed 0 (setVar nameA ⟨text "3", by decide⟩ [text "a=1", text "a=2"])).length ≤ 9 ∧
    ¬(SetVisible [97, 61, 49, 0, 97, 61, 50, 0, 0] nameA ⟨text "3", by decide⟩ ∧
      RemovedHidden [97, 61, 49, 0, 97, 61, 50, 0, 0] nameA) := by
  refine ⟨(holds_iff_of_ne_nil (by simp)).mpr ⟨?_, [], rfl⟩, by decide, ?_⟩
  · intro s hs
    rcases List.mem_cons.mp hs with rfl | hs
    · exact ⟨by decide, by decide⟩
    · rw [List.mem_singleton.mp hs]
      exact ⟨by decide, by decide⟩
  · rintro ⟨hset, -⟩
    have hadded : addVar [97, 61, 49, 0, 97, 61, 50, 0, 0] 0 9
        (varString nameA ⟨text "3", by decide⟩) =
        .ok (true, [97, 61, 50, 0, 97, 61, 51, 0, 0]) := by decide
    obtain ⟨addr, hvar, hload⟩ := hset _ hadded
    have hfound : getVarAddr [97, 61, 50, 0, 97, 61, 51, 0, 0] 0 9 nameA.text = .ok (some 0) := by
      decide
    rw [← Option.some.inj (Except.ok.inj (hfound.symm.trans hvar))] at hload
    revert hload
    decide

end MetaDigi.EnvRepeats
