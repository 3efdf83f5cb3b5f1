import MetaDigi.CStrings

/-!
# Printing a piece of memory

`MemDump` prints the bytes of a range in rows of sixteen, each byte as a
number and as a character. It does not know where the memory ends, so a range
that goes beyond it is read there all the same. Inside the memory every byte
of the range is printed once, in ascending order.
-/

namespace MetaDigi.MemDump

open CStrings

/-- `COLUMN_COUNT`. -/
def columnCount : ℕ := 16

/-- A byte at an index from `pvBase`, nothing outside of the memory. -/
def readByte (pvBase : Bytes) (index : ℤ) : Option UInt8 :=
  if 0 ≤ index then pvBase[index.toNat]? else none

/-- The bytes of a row, one after the other. -/
def readRow (pvBase : Bytes) : ℕ → ℤ → Option Bytes
  | 0, _ => some []
  | iRowLen + 1, index => do
    let c ← readByte pvBase index
    let rest ← readRow pvBase iRowLen (index + 1)
    return c :: rest

/-- The character that is printed for a byte. -/
def printable (c : UInt8) : UInt8 := if c < 32 ∨ c > 127 then 46 else c

/-- A row as it is printed. -/
structure Row where
  /-- The offset in front. -/
  iOffset : ℤ
  /-- The bytes as numbers. -/
  numbers : Bytes
  /-- The bytes as characters. -/
  characters : Bytes
  deriving DecidableEq, Repr

/-- Print one row. Both representations read the memory. -/
def dumpRow (pvBase : Bytes) (iOffset : ℤ) (iRowLen : ℕ) : Option Row := do
  let numbers ← readRow pvBase iRowLen iOffset
  let characters ← readRow pvBase iRowLen iOffset
  return { iOffset, numbers, characters := characters.map printable }

/-- The loop of `MemDump` over the rows. `pucBuf` is always at the offset that
is printed. -/
def dumpRows (pvBase : Bytes) (iLen i : ℕ) (iOffset : ℤ) : Option (List Row) :=
  if i < iLen then do
    let iRowLen := if i + columnCount ≤ iLen then columnCount else iLen - i
    let row ← dumpRow pvBase iOffset iRowLen
    let rows ← dumpRows pvBase iLen (i + columnCount) (iOffset + iRowLen)
    return row :: rows
  else return []
termination_by iLen - i
decreasing_by
  unfold columnCount
  omega

/-- `MemDump`. The counter is an `int`; no caller asks for more than 32 bytes. -/
def memDump (pvBase : Bytes) (iOffset : ℤ) (iLen : ℕ) : Option (List Row) :=
  dumpRows pvBase iLen 0 iOffset

/-- The indices of a row. -/
def Row.indices (row : Row) : List ℤ :=
  (List.range row.numbers.length).map fun (j : ℕ) => row.iOffset + j

/-- The range lies inside the memory. -/
structure Inside (pvBase : Bytes) (iOffset : ℤ) (iLen : ℕ) : Prop where
  /-- It does not begin in front of it. -/
  nonneg : 0 ≤ iOffset
  /-- It does not go beyond it. -/
  le : iOffset + iLen ≤ pvBase.length

/-- The rows print the range: each of its indices once, with the byte there. -/
structure PrintsRange (pvBase : Bytes) (iOffset : ℤ) (iLen : ℕ) (rows : List Row) : Prop where
  /-- Every index of the range in ascending order. -/
  indices : rows.flatMap Row.indices = (List.range iLen).map fun (j : ℕ) => iOffset + j
  /-- The bytes there. -/
  numbers : rows.flatMap Row.numbers = (pvBase.drop iOffset.toNat).take iLen

section Rows

variable {pvBase : Bytes}

theorem readByte_inside {index : ℤ} {c : UInt8} :
    readByte pvBase index = some c ↔ 0 ≤ index ∧ pvBase[index.toNat]? = some c := by
  unfold readByte
  split
  · rename_i hle
    exact ⟨fun h => ⟨hle, h⟩, fun h => h.2⟩
  · rename_i hneg
    exact ⟨nofun, fun h => absurd h.1 hneg⟩

/-- A row inside the memory is read. -/
theorem readRow_inside {iRowLen : ℕ} {index : ℤ} (h : Inside pvBase index iRowLen) :
    readRow pvBase iRowLen index = some ((pvBase.drop index.toNat).take iRowLen) := by
  induction iRowLen generalizing index with
  | zero => rw [readRow, List.take_zero]
  | succ iRowLen ih =>
    obtain ⟨hnonneg, hle⟩ := h
    have hlt : index.toNat < pvBase.length := by omega
    have hbyte : readByte pvBase index = some pvBase[index.toNat] :=
      readByte_inside.mpr ⟨hnonneg, List.getElem?_eq_getElem hlt⟩
    have hnext : (index + 1).toNat = index.toNat + 1 := by omega
    rw [readRow, hbyte, ih ⟨by omega, by push_cast at hle; omega⟩, hnext,
      List.drop_eq_getElem_cons hlt, List.take_succ_cons]
    rfl

/-- A row that leaves the memory is not. -/
theorem readRow_outside {iRowLen : ℕ} {index : ℤ} (hpos : 0 < iRowLen)
    (h : ¬ Inside pvBase index iRowLen) : readRow pvBase iRowLen index = none := by
  induction iRowLen generalizing index with
  | zero => omega
  | succ iRowLen ih =>
    rw [readRow]
    cases hbyte : readByte pvBase index with
    | none => rfl
    | some c =>
      obtain ⟨hnonneg, hcell⟩ := readByte_inside.mp hbyte
      have hlt := (List.getElem?_eq_some_iff.mp hcell).1
      have hrest : ¬ Inside pvBase (index + 1) iRowLen := fun hin =>
        h ⟨hnonneg, by have := hin.le; push_cast; omega⟩
      have hmore : 0 < iRowLen := by
        by_contra hzero
        exact hrest ⟨by omega, by omega⟩
      rw [Option.bind_eq_bind, Option.bind_some, ih hmore hrest]
      rfl

theorem dumpRow_inside {iRowLen : ℕ} {iOffset : ℤ} (h : Inside pvBase iOffset iRowLen) :
    dumpRow pvBase iOffset iRowLen = some ⟨iOffset, (pvBase.drop iOffset.toNat).take iRowLen,
      ((pvBase.drop iOffset.toNat).take iRowLen).map printable⟩ := by
  rw [dumpRow, readRow_inside h]
  rfl

theorem dumpRow_outside {iRowLen : ℕ} {iOffset : ℤ} (hpos : 0 < iRowLen)
    (h : ¬ Inside pvBase iOffset iRowLen) : dumpRow pvBase iOffset iRowLen = none := by
  rw [dumpRow, readRow_outside hpos h]
  rfl

/-- A row in front of the rows for the rest of a range. -/
theorem PrintsRange.cons {iOffset : ℤ} {iRowLen left : ℕ} {rows : List Row} {row : Row}
    (hrow : row.iOffset = iOffset)
    (hnumbers : row.numbers = (pvBase.drop iOffset.toNat).take iRowLen)
    (hin : Inside pvBase iOffset iRowLen)
    (hrest : PrintsRange pvBase (iOffset + iRowLen) left rows) :
    PrintsRange pvBase iOffset (iRowLen + left) (row :: rows) := by
  obtain ⟨hnonneg, hle⟩ := hin
  have hlength : row.numbers.length = iRowLen := by
    rw [hnumbers, List.length_take, List.length_drop]
    omega
  constructor
  · rw [List.flatMap_cons, hrest.indices, Row.indices, hlength, hrow, List.range_add,
      List.map_append, List.map_map]
    congr 1
    refine List.map_congr_left fun j _ => ?_
    rw [Function.comp_apply, Int.natCast_add, Int.add_assoc]
  · have hnext : (iOffset + iRowLen).toNat = iOffset.toNat + iRowLen := by omega
    rw [List.flatMap_cons, hrest.numbers, hnumbers, hnext, ← List.drop_drop, List.take_add]

/-- A row has at least one byte and leaves the rest of the range. -/
theorem row_and_rest {iLen i : ℕ} (hmore : i < iLen) :
    ∃ iRowLen, iRowLen = (if i + columnCount ≤ iLen then columnCount else iLen - i) ∧
      0 < iRowLen ∧ iRowLen + (iLen - (i + columnCount)) = iLen - i := by
  have hcolumns : columnCount = 16 := rfl
  refine ⟨_, rfl, ?_⟩
  split <;> omega

/-- The rows from a row on print the rest of a range inside the memory. -/
theorem dumpRows_inside {iLen i : ℕ} {iOffset : ℤ}
    (h : i < iLen → Inside pvBase iOffset (iLen - i)) :
    ∃ rows, dumpRows pvBase iLen i iOffset = some rows ∧
      PrintsRange pvBase iOffset (iLen - i) rows := by
  induction hleft : iLen - i using Nat.strong_induction_on generalizing i iOffset with
  | _ left ih =>
    by_cases hmore : i < iLen
    · obtain ⟨hnonneg, hle⟩ := h hmore
      obtain ⟨iRowLen, hrowLen, hpos⟩ := row_and_rest hmore
      have hin : Inside pvBase iOffset iRowLen := ⟨hnonneg, by omega⟩
      have hrest : i + columnCount < iLen →
          Inside pvBase (iOffset + iRowLen) (iLen - (i + columnCount)) :=
        fun _ => ⟨by omega, by omega⟩
      obtain ⟨rows, hrows, hprints⟩ := ih (iLen - (i + columnCount)) (by omega) hrest rfl
      have hrow := dumpRow_inside hin
      have hall : PrintsRange pvBase iOffset (iRowLen + (iLen - (i + columnCount)))
          (⟨iOffset, (pvBase.drop iOffset.toNat).take iRowLen,
            ((pvBase.drop iOffset.toNat).take iRowLen).map printable⟩ :: rows) :=
        hprints.cons rfl rfl hin
      rw [hpos.2, hleft] at hall
      refine ⟨_, ?_, hall⟩
      rw [dumpRows, if_pos hmore, ← hrowLen]
      dsimp only
      rw [hrow, hrows]
      rfl
    · have hzero : left = 0 := by omega
      rw [hzero, dumpRows, if_neg hmore]
      exact ⟨[], rfl, rfl, by rw [List.take_zero]; rfl⟩

/-- A range that leaves the memory is not printed to its end. -/
theorem dumpRows_outside {iLen i : ℕ} {iOffset : ℤ} (hmore : i < iLen)
    (h : ¬ Inside pvBase iOffset (iLen - i)) : dumpRows pvBase iLen i iOffset = none := by
  induction hleft : iLen - i using Nat.strong_induction_on generalizing i iOffset with
  | _ left ih =>
    obtain ⟨iRowLen, hrowLen, hpos⟩ := row_and_rest hmore
    rw [dumpRows, if_pos hmore, ← hrowLen]
    dsimp only
    by_cases hin : Inside pvBase iOffset iRowLen
    · obtain ⟨hnonneg, hle⟩ := hin
      have hlater : i + columnCount < iLen := by
        by_contra hlast
        exact h ⟨hnonneg, by omega⟩
      have hout : ¬ Inside pvBase (iOffset + iRowLen) (iLen - (i + columnCount)) := fun hin =>
        h ⟨hnonneg, by have := hin.le; omega⟩
      rw [dumpRow_inside ⟨hnonneg, hle⟩, ih _ (by omega) hlater hout rfl]
      rfl
    · rw [dumpRow_outside hpos.1 hin]
      rfl

/-- `MemDump` prints its range, each index once, just when the range lies in
the memory. -/
theorem memDump_prints_iff {iOffset : ℤ} {iLen : ℕ} :
    (∃ rows, memDump pvBase iOffset iLen = some rows ∧ PrintsRange pvBase iOffset iLen rows) ↔
      (0 < iLen → Inside pvBase iOffset iLen) := by
  constructor
  · rintro ⟨rows, hrows, -⟩ hpos
    by_contra hout
    have hnone : memDump pvBase iOffset iLen = none := dumpRows_outside hpos hout
    rw [hnone] at hrows
    exact absurd hrows nofun
  · intro hin
    exact dumpRows_inside hin

end Rows

end MetaDigi.MemDump
