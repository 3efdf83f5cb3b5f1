import Mathlib.Data.List.Basic
import Mathlib.Data.Int.Basic

/-!
# What is known of a memory

A store that may fail is described by what is known of its cells. A successful
write teaches its data, a failed one makes the cells it may have touched
unknown, and what is read has to agree with what was known.
-/

namespace MetaDigi.KnownCells

variable {α : Type}

/-- What is known of each cell. -/
abbrev Known (α : Type) := ℤ → Option α

/-- The data for a cell, where data is placed at an offset. -/
def cellAt (offset : ℤ) (data : List α) (x : ℤ) : Option α :=
  if offset ≤ x then data[(x - offset).toNat]? else none

/-- Cells that lie in a range. -/
def Within (offset : ℤ) (length : ℕ) (x : ℤ) : Prop := offset ≤ x ∧ x < offset + length

instance (offset : ℤ) (length : ℕ) (x : ℤ) : Decidable (Within offset length x) :=
  inferInstanceAs (Decidable (_ ∧ _))

/-- Data becomes known. -/
def learn (known : Known α) (offset : ℤ) (data : List α) : Known α := fun x =>
  (cellAt offset data x).or (known x)

/-- Cells become unknown. -/
def forget (known : Known α) (P : ℤ → Prop) [DecidablePred P] : Known α := fun x =>
  if P x then none else known x

/-- What is known is so. -/
def Agrees (known : Known α) (cells : ℤ → α) : Prop := ∀ x b, known x = some b → cells x = b

/-- Data lies at an offset. -/
def Holds (cells : ℤ → α) (offset : ℤ) (data : List α) : Prop :=
  Agrees (cellAt offset data) cells

/-- Data does not contradict what is known. -/
def Fits (known : Known α) (offset : ℤ) (data : List α) : Prop :=
  ∀ x b b', known x = some b → cellAt offset data x = some b' → b' = b

/-- Only these cells change. -/
def Changes (P : ℤ → Prop) (cells cells' : ℤ → α) : Prop := ∀ x, ¬P x → cells' x = cells x

variable {known : Known α} {cells cells' cells'' : ℤ → α} {offset : ℤ} {data : List α}
  {P P' : ℤ → Prop}

/-- Unknown cells lie outside. -/
theorem cellAt_none {x : ℤ} (h : cellAt offset data x = none) : ¬Within offset data.length x := by
  rintro ⟨hle, hlt⟩
  rw [cellAt, if_pos hle, List.getElem?_eq_none_iff] at h
  omega

/-- One change after the other. -/
theorem Changes.trans (h : Changes P cells cells') (h' : Changes P cells' cells'') :
    Changes P cells cells'' := fun x hx => (h' x hx).trans (h x hx)

/-- Less is known about where cells change. -/
theorem Changes.mono (h : Changes P cells cells') (hP : ∀ x, P x → P' x) :
    Changes P' cells cells' := fun x hx => h x fun hPx => hx (hP x hPx)

/-- Cells that have become unknown may have changed. -/
theorem Agrees.forget [DecidablePred P] (h : Agrees known cells) (hchanges : Changes P cells cells') :
    Agrees (KnownCells.forget known P) cells' := by
  intro x b hb
  unfold KnownCells.forget at hb
  split at hb
  · cases hb
  · rename_i hx
    exact (hchanges x hx).trans (h x b hb)

/-- Data that lies there now is known, and the other cells are as before. -/
theorem Agrees.learn (h : Agrees known cells)
    (hchanges : Changes (Within offset data.length) cells cells') (hholds : Holds cells' offset data) :
    Agrees (KnownCells.learn known offset data) cells' := by
  intro x b hb
  unfold KnownCells.learn at hb
  cases hcell : cellAt offset data x with
  | none =>
    rw [hcell, Option.none_or] at hb
    exact (hchanges x (cellAt_none hcell)).trans (h x b hb)
  | some b' =>
    rw [hcell, Option.some_or] at hb
    exact (hholds x b' hcell).trans (Option.some.inj hb)

/-- Data that lies in the cells fits what is known of them. -/
theorem Agrees.fits (h : Agrees known cells) (hholds : Holds cells offset data) :
    Fits known offset data := fun x b b' hb hb' => (hholds x b' hb').symm.trans (h x b hb)

/-- Cells with data placed at an offset. -/
def place (cells : ℤ → α) (offset : ℤ) (data : List α) : ℤ → α := fun x =>
  (cellAt offset data x).getD (cells x)

/-- The data of a range. -/
def readCells (cells : ℤ → α) (offset : ℤ) (length : ℕ) : List α :=
  (List.range length).map fun i : ℕ => cells (offset + i)

/-- As many bytes are read as are asked for. -/
theorem length_readCells (length : ℕ) : (readCells cells offset length).length = length := by
  rw [readCells, List.length_map, List.length_range]

/-- Placing nothing changes nothing. -/
theorem place_nil : place cells offset [] = cells := by
  funext x
  unfold place cellAt
  split
  · rw [List.getElem?_nil, Option.getD_none]
  · rfl

/-- Data behind data. -/
theorem place_append (data' : List α) :
    place (place cells offset data) (offset + data.length) data' =
      place cells offset (data ++ data') := by
  funext x
  unfold place cellAt
  by_cases hbefore : offset ≤ x
  · rw [if_pos hbefore, if_pos hbefore]
    by_cases hbehind : offset + data.length ≤ x
    · have hindex : (x - (offset + data.length)).toNat = (x - offset).toNat - data.length := by omega
      have hnone : data[(x - offset).toNat]? = none := List.getElem?_eq_none (by omega)
      rw [if_pos hbehind, List.getElem?_append_right (by omega), hindex, hnone, Option.getD_none]
    · rw [if_neg hbehind, List.getElem?_append_left (by omega), Option.getD_none]
  · rw [if_neg hbefore, if_neg hbefore, if_neg (by omega)]
    rfl

/-- A part of the data of a range. -/
theorem readCells_slice {start count length : ℕ} (h : start + count ≤ length) :
    ((readCells cells offset length).drop start).take count =
      readCells cells (offset + start) count := by
  have hlength : count ≤ ((readCells cells offset length).drop start).length := by
    rw [List.length_drop, length_readCells]
    omega
  refine List.ext_getElem ?_ fun i _ hi => ?_
  · rw [List.length_take_of_le hlength, length_readCells]
  · rw [length_readCells] at hi
    rw [List.getElem_take, List.getElem_drop]
    simp only [readCells, List.getElem_map, List.getElem_range]
    congr 1
    omega

end MetaDigi.KnownCells
