import Mathlib.Data.List.Basic
import Mathlib.Data.List.TakeDrop

/-!
# Memory cells with checked accesses

A block of memory is a list of cells, addressed from zero. A load or store
outside the block is not given a meaning: the computation stops and names
the offending access. A result without fault is therefore at the same time
a proof that no access left the block.
-/

namespace MetaDigi.CheckedMemory

variable {α : Type}

/-- The first access that left its block, with the index it used. -/
inductive Fault where
  /-- A cell was read at this index. -/
  | read (index : ℕ)
  /-- A cell was written at this index. -/
  | write (index : ℕ)
  deriving DecidableEq, Repr

/-- Read one cell of the block. -/
def load (mem : List α) (index : ℕ) : Except Fault α :=
  if h : index < mem.length then .ok mem[index] else .error (.read index)

/-- Overwrite one cell of the block. -/
def store (mem : List α) (index : ℕ) (cell : α) : Except Fault (List α) :=
  if index < mem.length then .ok (mem.set index cell) else .error (.write index)

/-- Overwrite consecutive cells, in ascending order, starting at an index. -/
def storeAll (mem : List α) (index : ℕ) : List α → Except Fault (List α)
  | [] => .ok mem
  | cell :: cells => do
    let mem ← store mem index cell
    storeAll mem (index + 1) cells

/-- Copy a number of cells upwards from `src` to `dst`, one at a time, so
that a cell written early is read again when the two ranges overlap. -/
def copyCells (mem : List α) (dst src : ℕ) : ℕ → Except Fault (List α)
  | 0 => .ok mem
  | count + 1 => do
    let cell ← load mem src
    let mem ← store mem dst cell
    copyCells mem (dst + 1) (src + 1) count

/-- Loading behind a known prefix reads the cell after it. -/
@[simp] theorem load_append (pre rest : List α) (cell : α) :
    load (pre ++ cell :: rest) pre.length = .ok cell := by
  have hlt : pre.length < (pre ++ cell :: rest).length := by simp
  simp only [load, hlt, dite_true, List.getElem_append_right (Nat.le_refl _), Nat.sub_self,
    List.getElem_cons_zero]

/-- A read at or beyond the end of the block is refused. -/
theorem load_past {mem : List α} {index : ℕ} (h : mem.length ≤ index) :
    load mem index = .error (.read index) := by
  simp only [load, Nat.not_lt.mpr h, dite_false]

/-- A read that is not refused answers the cell. -/
theorem load_eq_ok_iff {mem : List α} {index : ℕ} {cell : α} :
    load mem index = .ok cell ↔ mem[index]? = some cell := by
  by_cases h : index < mem.length
  · simp only [load, h, dite_true, Except.ok.injEq, List.getElem?_eq_getElem h, Option.some.injEq]
  · rw [load_past (Nat.le_of_not_lt h), List.getElem?_eq_none (Nat.le_of_not_lt h)]
    exact ⟨nofun, nofun⟩

/-- A store behind a known prefix replaces the cell after it. -/
@[simp] theorem store_append (pre rest : List α) (old cell : α) :
    store (pre ++ old :: rest) pre.length cell = .ok (pre ++ cell :: rest) := by
  have hlt : pre.length < (pre ++ old :: rest).length := by simp
  simp only [store, hlt, if_true, List.set_append_right _ _ (Nat.le_refl _), Nat.sub_self,
    List.set_cons_zero]

/-- A write at or beyond the end of the block is refused. -/
theorem store_past {mem : List α} {index : ℕ} (h : mem.length ≤ index) (cell : α) :
    store mem index cell = .error (.write index) := by
  simp only [store, Nat.not_lt.mpr h, if_false]

/-- Storing a run of cells over a run of the same length replaces it. -/
theorem storeAll_append (pre old new rest : List α) (h : old.length = new.length) :
    storeAll (pre ++ old ++ rest) pre.length new = .ok (pre ++ new ++ rest) := by
  induction new generalizing pre old with
  | nil =>
    have hold : old = [] := List.length_eq_zero_iff.mp h
    simp only [hold, storeAll]
  | cons cell cells ih =>
    cases old with
    | nil => simp at h
    | cons first old =>
      have hlen : old.length = cells.length := by simpa using h
      have hnext := ih (pre ++ [cell]) old hlen
      simp only [List.append_assoc, List.cons_append, List.nil_append, List.length_append,
        List.length_cons, List.length_nil, Nat.zero_add] at hnext ⊢
      simp only [storeAll, store_append]
      exact hnext

/-- Copying a body down over the gap in front of it leaves the body at the
start of the gap; the last cells of the old range keep their contents. -/
theorem copyCells_down (pre gap body rest : List α) (hgap : gap ≠ []) :
    copyCells (pre ++ gap ++ body ++ rest) pre.length (pre.length + gap.length) body.length =
      .ok (pre ++ body ++ (gap ++ body).drop body.length ++ rest) := by
  induction body generalizing pre gap with
  | nil => simp [copyCells]
  | cons cell body ih =>
    obtain ⟨first, gap, rfl⟩ := List.exists_cons_of_ne_nil hgap
    have hload : load (pre ++ (first :: gap) ++ (cell :: body) ++ rest)
        (pre.length + (first :: gap).length) = .ok cell := by
      simpa using load_append (pre ++ first :: gap) (body ++ rest) cell
    have hstore : store (pre ++ (first :: gap) ++ (cell :: body) ++ rest) pre.length cell =
        .ok (pre ++ [cell] ++ (gap ++ [cell]) ++ body ++ rest) := by
      simp
    have hnext := ih (pre ++ [cell]) (gap ++ [cell]) (by simp)
    have hsrc : (pre ++ [cell]).length + (gap ++ [cell]).length =
        pre.length + (first :: gap).length + 1 := by
      simp only [List.length_append, List.length_cons, List.length_nil]
      omega
    rw [hsrc, List.length_append, List.length_singleton] at hnext
    simp only [copyCells, hload, hstore, bind, Except.bind, hnext, List.length_cons (a := cell)]
    simp

/-- A store does not change the size of the block. -/
theorem length_store {mem mem' : List α} {index : ℕ} {cell : α}
    (h : store mem index cell = .ok mem') : mem'.length = mem.length := by
  unfold store at h
  split at h
  · cases h
    exact List.length_set
  · cases h

/-- A composition that has a result consists of two parts that have one. -/
theorem ok_of_bind {β γ : Type} {x : Except Fault β} {f : β → Except Fault γ} {c : γ}
    (h : x >>= f = .ok c) : ∃ b, x = .ok b ∧ f b = .ok c := by
  cases x with
  | error e => cases h
  | ok b => exact ⟨b, rfl, h⟩

/-- Neither does a run of stores. -/
theorem length_storeAll {mem mem' cells : List α} {index : ℕ}
    (h : storeAll mem index cells = .ok mem') : mem'.length = mem.length := by
  induction cells generalizing mem index with
  | nil =>
    cases h
    rfl
  | cons cell cells ih =>
    obtain ⟨mid, hstore, hrest⟩ := ok_of_bind h
    exact (ih hrest).trans (length_store hstore)

/-- Neither does a copy. -/
theorem length_copyCells {mem mem' : List α} {dst src count : ℕ}
    (h : copyCells mem dst src count = .ok mem') : mem'.length = mem.length := by
  induction count generalizing mem dst src with
  | zero =>
    cases h
    rfl
  | succ count ih =>
    obtain ⟨cell, -, hcell⟩ := ok_of_bind h
    obtain ⟨mid, hstore, hrest⟩ := ok_of_bind hcell
    exact (ih hrest).trans (length_store hstore)

/-- Cells that fit replace the first ones of the block. -/
theorem storeAll_fits {mem cells : List α} (h : cells.length ≤ mem.length) :
    storeAll mem 0 cells = .ok (cells ++ mem.drop cells.length) := by
  have hroom : (mem.take cells.length).length = cells.length := List.length_take_of_le h
  have hstore := storeAll_append [] (mem.take cells.length) cells (mem.drop cells.length) hroom
  rw [List.nil_append, List.take_append_drop] at hstore
  exact hstore

/-- More cells than there are left are stored up to the end of the block, and
the next store is refused. -/
theorem storeAll_overrun {mem cells : List α} {index : ℕ} (hindex : index ≤ mem.length)
    (h : mem.length < index + cells.length) :
    storeAll mem index cells = .error (.write mem.length) := by
  induction cells generalizing mem index with
  | nil =>
    rw [List.length_nil] at h
    omega
  | cons cell cells ih =>
    rw [List.length_cons] at h
    by_cases hin : index < mem.length
    · have hstore : store mem index cell = .ok (mem.set index cell) := by
        simp only [store, hin, if_true]
      have hlen : (mem.set index cell).length = mem.length := List.length_set
      have hnext := @ih (mem.set index cell) (index + 1) (by omega) (by omega)
      rw [hlen] at hnext
      simp only [storeAll, hstore, bind, Except.bind, hnext]
    · have hstore := store_past (Nat.le_of_not_lt hin) cell
      have hend : index = mem.length := by omega
      rw [hend] at hstore ⊢
      simp only [storeAll, hstore, bind, Except.bind]

end MetaDigi.CheckedMemory
