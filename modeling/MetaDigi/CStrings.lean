import Mathlib.Data.List.TakeWhile
import MetaDigi.CheckedMemory

/-!
# C strings

A C string is a list of bytes without NUL; the terminating byte exists only
in memory. The subtype carries that fact, so a name or value taken from a
string never has to be re-checked. The functions of `string.h` used by the
tools are given on these lists with their documented results.
-/

namespace MetaDigi.CStrings

open CheckedMemory

/-- Raw bytes: file contents, flash contents, memory blocks. -/
abbrev Bytes := List UInt8

/-- A C string: bytes without an inner NUL. -/
abbrev CString := {s : Bytes // (0 : UInt8) ∉ s}

/-- The bytes of a text of the source, one for each character. -/
def text (s : String) : Bytes := s.toList.map (fun c => UInt8.ofNat c.toNat)

/-- The string held by a block of memory: the bytes in front of its first NUL. -/
def CString.ofCells (cells : Bytes) : CString :=
  ⟨cells.takeWhile (· ≠ 0), fun h => by simpa using List.mem_takeWhile_imp h⟩

/-- `strchr`: the index of the first occurrence of a character. -/
def strchr (s : Bytes) (c : UInt8) : Option ℕ := s.findIdx? (· = c)

/-- `strstr`: the index at which the needle first occurs. -/
def strstr (needle : Bytes) : Bytes → Option ℕ
  | [] => if needle = [] then some 0 else none
  | c :: s => if needle <+: c :: s then some 0 else (strstr needle s).map (· + 1)

/-- `while (*from) from++`: the address of the next NUL. The first argument
bounds the cells left in the block; with none left the read is refused. -/
def skipChars (mem : Bytes) : ℕ → ℕ → Except Fault ℕ
  | 0, from' => .error (.read from')
  | left + 1, from' => do
    let c ← load mem from'
    if c = 0 then return from' else skipChars mem left (from' + 1)

/-- The string stored at an address, as a string function would read it. -/
def loadString (mem : Bytes) (from' : ℕ) : Except Fault Bytes := do
  let stop ← skipChars mem (mem.length - from') from'
  return (mem.drop from').take (stop - from')

/-- Cells that hold a string and its terminator. -/
theorem CString.ofCells_string {s : Bytes} (hs : (0 : UInt8) ∉ s) (rest : Bytes) :
    (CString.ofCells (s ++ 0 :: rest)).val = s := by
  have hclean : ∀ c ∈ s, decide (c ≠ 0) = true :=
    fun c hc => decide_eq_true (fun he => hs (he ▸ hc))
  change (s ++ 0 :: rest).takeWhile (· ≠ 0) = s
  rw [List.takeWhile_append_of_pos hclean, List.takeWhile_cons_of_neg (by decide), List.append_nil]

/-- Cells without a NUL. -/
theorem CString.ofCells_clean {s : Bytes} (hs : (0 : UInt8) ∉ s) : (CString.ofCells s).val = s := by
  have hclean : ∀ c ∈ s, decide (c ≠ 0) = true :=
    fun c hc => decide_eq_true (fun he => hs (he ▸ hc))
  exact List.takeWhile_eq_self_iff.mpr hclean

/-- Scanning from the start of a string stops at its terminator. -/
theorem skipChars_string (pre s rest : Bytes) (hs : (0 : UInt8) ∉ s) (left : ℕ)
    (hleft : s.length < left) :
    skipChars (pre ++ s ++ 0 :: rest) left pre.length = .ok (pre.length + s.length) := by
  induction s generalizing pre left with
  | nil =>
    obtain ⟨left, rfl⟩ := Nat.exists_eq_add_one_of_ne_zero (Nat.ne_of_gt hleft)
    simp only [List.append_nil, skipChars, load_append, bind, Except.bind, if_true]
    rfl
  | cons c s ih =>
    obtain ⟨left, rfl⟩ := Nat.exists_eq_add_one_of_ne_zero (Nat.ne_of_gt (Nat.zero_lt_of_lt hleft))
    have hc : c ≠ 0 := fun h => hs (by simp [h])
    have hload : load (pre ++ (c :: s) ++ 0 :: rest) pre.length = .ok c := by simp
    have hnext := ih (pre ++ [c]) (fun h => hs (List.mem_cons_of_mem _ h)) left
      (by simpa using hleft)
    simp only [List.length_append, List.length_singleton, List.append_assoc,
      List.singleton_append] at hnext
    simp only [skipChars, hload, bind, Except.bind, hc, if_false]
    simpa [Nat.add_assoc, Nat.add_comm 1] using hnext

/-- Reading a stored string gives back its bytes. -/
theorem loadString_string (pre s rest : Bytes) (hs : (0 : UInt8) ∉ s) :
    loadString (pre ++ s ++ 0 :: rest) pre.length = .ok s := by
  have hstop := skipChars_string pre s rest hs
    ((pre ++ s ++ 0 :: rest).length - pre.length) (by simp)
  simp only [loadString, hstop, bind, Except.bind, pure, Except.pure]
  simp

/-- The first separator behind a part without separators is at its end. -/
theorem strchr_append {part : Bytes} {sep : UInt8} (h : sep ∉ part) (rest : Bytes) :
    strchr (part ++ sep :: rest) sep = some part.length := by
  induction part with
  | nil => simp [strchr, List.findIdx?_cons]
  | cons c part ih =>
    have hc : c ≠ sep := fun he => h (by simp [he])
    have hpart : sep ∉ part := fun hm => h (List.mem_cons_of_mem _ hm)
    have ih := ih hpart
    simp only [strchr, List.cons_append, List.findIdx?_cons, hc, decide_false,
      List.length_cons] at ih ⊢
    simp [ih]

/-- `strstr` answers the start of the text exactly when the text begins
with the needle. -/
theorem strstr_eq_zero_iff (needle s : Bytes) : strstr needle s = some 0 ↔ needle <+: s := by
  cases s with
  | nil => by_cases h : needle = [] <;> simp [strstr, h]
  | cons c s =>
    by_cases h : needle <+: c :: s
    · simp [strstr, h]
    · cases hs : strstr needle s <;> simp [strstr, h, hs]

/-- A text that is too short does not hold the needle. -/
theorem strstr_short {needle s : Bytes} (h : s.length < needle.length) :
    strstr needle s = none := by
  induction s with
  | nil =>
    have hne : needle ≠ [] := List.ne_nil_of_length_pos h
    rw [strstr, if_neg hne]
  | cons c s ih =>
    have hlong : ¬ needle <+: c :: s := fun hpre => by
      have hle := hpre.length_le
      omega
    rw [List.length_cons] at h
    rw [strstr, if_neg hlong, ih (by omega), Option.map_none]

/-- A needle without a separator occurs on one side of it. -/
theorem strstr_append_sep {needle : Bytes} {sep : UInt8} (hne : needle ≠ []) (hsep : sep ∉ needle)
    (t s : Bytes) :
    strstr needle (t ++ sep :: s) =
      (strstr needle t).or ((strstr needle s).map (t.length + 1 + ·)) := by
  induction t with
  | nil =>
    have hhead : ¬ needle <+: sep :: s := by
      rintro ⟨rest, hrest⟩
      cases needle with
      | nil => exact hne rfl
      | cons c needle =>
        rw [List.cons_append, List.cons.injEq] at hrest
        exact hsep (hrest.1 ▸ List.mem_cons_self ..)
    have hnil : strstr needle [] = none := by rw [strstr, if_neg hne]
    have hstep : strstr needle (sep :: s) = (strstr needle s).map (· + 1) := by
      rw [strstr, if_neg hhead]
    rw [List.nil_append, hstep, hnil, Option.none_or]
    congr 1
    funext n
    rw [List.length_nil, Nat.zero_add, Nat.add_comm]
  | cons c t ih =>
    have hiff : needle <+: c :: (t ++ sep :: s) ↔ needle <+: c :: t := by
      constructor
      · intro hpre
        have hlen : needle.length ≤ (c :: t).length := by
          by_contra hlong
          obtain ⟨rest, hrest⟩ := hpre
          have hchar := congrArg (fun l => l[(c :: t).length]?) hrest
          rw [List.getElem?_append_left (by omega), ← List.cons_append,
            List.getElem?_append_right (Nat.le_refl _), Nat.sub_self, List.getElem?_cons_zero]
            at hchar
          exact hsep (List.mem_of_getElem? hchar)
        exact List.prefix_of_prefix_length_le hpre (by
          rw [← List.cons_append]
          exact List.prefix_append ..) hlen
      · intro hpre
        rw [← List.cons_append]
        exact hpre.trans (List.prefix_append ..)
    rw [List.cons_append, strstr, strstr]
    by_cases hpre : needle <+: c :: t
    · rw [if_pos (hiff.mpr hpre), if_pos hpre, Option.some_or]
    · rw [if_neg fun h => hpre (hiff.mp h), if_neg hpre, ih]
      cases strstr needle t with
      | some j => rfl
      | none =>
        rw [Option.none_or, Option.map_none, Option.none_or, Option.map_map]
        congr 1
        funext n
        rw [Function.comp_apply, List.length_cons]
        omega

/-- The needle lies inside the text. -/
theorem strstr_le {needle s : Bytes} {j : ℕ} (h : strstr needle s = some j) :
    j + needle.length ≤ s.length := by
  induction s generalizing j with
  | nil =>
    rw [strstr] at h
    split at h
    · rename_i hnil
      rw [← Option.some.inj h, hnil]
      exact Nat.le_refl 0
    · exact absurd h nofun
  | cons c s ih =>
    rw [strstr] at h
    split at h
    · rename_i hpre
      rw [← Option.some.inj h, Nat.zero_add]
      exact hpre.length_le
    · obtain ⟨i, hi, hj⟩ := Option.map_eq_some_iff.mp h
      have hrest := ih hi
      rw [List.length_cons]
      omega

end MetaDigi.CStrings
