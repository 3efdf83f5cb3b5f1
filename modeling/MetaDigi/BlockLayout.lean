import Mathlib.Data.List.Basic

/-!
# Laying out data over the good units of a memory

A memory is divided into units of one size, some of which are bad. Data is
laid out over the good units in ascending order, each unit taking the next
piece. The good cells do not depend on the size of the unit by which the
memory is walked, as long as good and bad change only at the larger unit.
-/

namespace MetaDigi.BlockLayout

variable {α : Type}

/-- The offsets of the good units among `count` units, from a given one on. -/
def goodUnits (bad : ℕ → Bool) (unit : ℕ) : ℕ → ℕ → List ℕ
  | _, 0 => []
  | first, count + 1 =>
    if bad (first * unit) then goodUnits bad unit (first + 1) count
    else first * unit :: goodUnits bad unit (first + 1) count

/-- The cells of one unit. -/
def unitCells (mem : ℕ → α) (unit offset : ℕ) : List α :=
  (List.range unit).map (fun i => mem (offset + i))

/-- The cells of the good units in ascending order. -/
def goodCells (mem : ℕ → α) (bad : ℕ → Bool) (unit first count : ℕ) : List α :=
  (goodUnits bad unit first count).flatMap (unitCells mem unit)

section Units

variable (bad : ℕ → Bool) (unit : ℕ) (mem : ℕ → α)

/-- A bad unit is left out. -/
theorem goodUnits_bad {first : ℕ} (h : bad (first * unit) = true)
    (count : ℕ) : goodUnits bad unit first (count + 1) = goodUnits bad unit (first + 1) count := by
  rw [goodUnits, if_pos h]

/-- A good unit comes first. -/
theorem goodUnits_good {first : ℕ} (h : bad (first * unit) = false)
    (count : ℕ) : goodUnits bad unit first (count + 1) =
      first * unit :: goodUnits bad unit (first + 1) count := by
  rw [goodUnits, if_neg (by rw [h]; exact Bool.false_ne_true)]

/-- The good units are those of the range that are not bad. -/
theorem mem_goodUnits (first count o : ℕ) :
    o ∈ goodUnits bad unit first count ↔
      ∃ i, first ≤ i ∧ i < first + count ∧ o = i * unit ∧ bad o = false := by
  induction count generalizing first with
  | zero =>
    simp only [goodUnits, List.not_mem_nil, false_iff]
    rintro ⟨i, hle, hlt, -⟩
    omega
  | succ count ih =>
    have hsplit : (∃ i, first ≤ i ∧ i < first + (count + 1) ∧ o = i * unit ∧ bad o = false) ↔
        (o = first * unit ∧ bad o = false) ∨
          ∃ i, first + 1 ≤ i ∧ i < first + 1 + count ∧ o = i * unit ∧ bad o = false := by
      constructor
      · rintro ⟨i, hle, hlt, ho, hgood⟩
        rcases Nat.eq_or_lt_of_le hle with heq | hlt'
        · exact .inl ⟨by rw [heq]; exact ho, hgood⟩
        · exact .inr ⟨i, hlt', by omega, ho, hgood⟩
      · rintro (⟨ho, hgood⟩ | ⟨i, hle, hlt, ho, hgood⟩)
        · exact ⟨first, Nat.le_refl _, by omega, ho, hgood⟩
        · exact ⟨i, by omega, by omega, ho, hgood⟩
    rw [hsplit, goodUnits, ← ih (first + 1)]
    by_cases hbad : bad (first * unit) = true
    · rw [if_pos hbad]
      constructor
      · exact .inr
      · rintro (⟨ho, hgood⟩ | hmem)
        · rw [ho, hbad] at hgood
          exact absurd hgood Bool.noConfusion
        · exact hmem
    · rw [if_neg hbad, List.mem_cons]
      have hgood : bad (first * unit) = false := Bool.eq_false_iff.mpr hbad
      constructor
      · rintro (ho | hmem)
        · exact .inl ⟨ho, by rw [ho]; exact hgood⟩
        · exact .inr hmem
      · rintro (⟨ho, -⟩ | hmem)
        · exact .inl ho
        · exact .inr hmem

/-- The good units of a range cut in two. -/
theorem goodUnits_add (first m n : ℕ) :
    goodUnits bad unit first (m + n) =
      goodUnits bad unit first m ++ goodUnits bad unit (first + m) n := by
  induction m generalizing first with
  | zero => rw [Nat.zero_add, goodUnits, List.nil_append, Nat.add_zero]
  | succ m ih =>
    rw [Nat.add_right_comm m 1 n, goodUnits, goodUnits, ih, Nat.add_right_comm first 1 m,
      Nat.add_assoc first m 1]
    split
    · rfl
    · rw [List.cons_append]

/-- A good unit is met when all good ones in front of it have been. -/
theorem mem_take_goodUnits {i count n : ℕ} (hi : i < count) (hgood : bad (i * unit) = false)
    (hn : (goodUnits bad unit 0 i).length < n) :
    i * unit ∈ (goodUnits bad unit 0 count).take n := by
  obtain ⟨k, hk⟩ := Nat.exists_eq_add_of_lt hi
  have hsplit : goodUnits bad unit 0 count = goodUnits bad unit 0 i ++
      i * unit :: goodUnits bad unit (i + 1) k := by
    rw [hk, Nat.add_assoc, goodUnits_add, Nat.zero_add, goodUnits_good bad unit hgood]
  obtain ⟨m, hm⟩ := Nat.exists_eq_add_of_lt hn
  rw [hsplit, hm, Nat.add_assoc, List.take_length_add_append, List.take_succ_cons]
  exact List.mem_append_right _ (List.mem_cons_self ..)

/-- One more unit counts when it is good. -/
theorem length_goodUnits_succ (i : ℕ) :
    (goodUnits bad unit 0 (i + 1)).length =
      (goodUnits bad unit 0 i).length + if bad (i * unit) then 0 else 1 := by
  rw [goodUnits_add, Nat.zero_add, List.length_append]
  cases hbad : bad (i * unit) with
  | true =>
    rw [goodUnits_bad bad unit hbad]
    rfl
  | false =>
    rw [goodUnits_good bad unit hbad]
    rfl

/-- There are further units as long as not all good ones have been met. -/
theorem lt_of_length_goodUnits {i count : ℕ}
    (h : (goodUnits bad unit 0 i).length < (goodUnits bad unit 0 count).length) : i < count := by
  refine Nat.lt_of_not_le fun hle => ?_
  obtain ⟨k, hk⟩ := Nat.exists_eq_add_of_le hle
  rw [hk, goodUnits_add, List.length_append] at h
  omega

/-- The good units are in ascending order and do not overlap. -/
theorem goodUnits_pairwise (first count : ℕ) :
    (goodUnits bad unit first count).Pairwise (fun a b => a + unit ≤ b) := by
  induction count generalizing first with
  | zero => exact List.Pairwise.nil
  | succ count ih =>
    rw [goodUnits]
    split
    · exact ih (first + 1)
    · refine List.Pairwise.cons (fun o ho => ?_) (ih (first + 1))
      obtain ⟨i, hle, -, ho, -⟩ := (mem_goodUnits bad unit _ _ _).mp ho
      rw [ho, ← Nat.succ_mul]
      exact Nat.mul_le_mul_right unit hle

/-- A unit has its cells. -/
theorem length_unitCells (o : ℕ) : (unitCells mem unit o).length = unit := by
  rw [unitCells, List.length_map, List.length_range]

/-- So have the good units. -/
theorem length_goodCells (first count : ℕ) :
    (goodCells mem bad unit first count).length =
      (goodUnits bad unit first count).length * unit := by
  unfold goodCells
  induction goodUnits bad unit first count with
  | nil => exact (Nat.zero_mul unit).symm
  | cons o os ih =>
    rw [List.flatMap_cons, List.length_append, ih, length_unitCells, List.length_cons,
      Nat.succ_mul, Nat.add_comm]

/-- The first elements of lists of one length, put together. -/
theorem take_flatMap {β : Type} {f : ℕ → List β} {k : ℕ} (hf : ∀ o, (f o).length = k) (n : ℕ)
    (os : List ℕ) : (os.flatMap f).take (n * k) = (os.take n).flatMap f := by
  induction n generalizing os with
  | zero => rw [Nat.zero_mul]; rfl
  | succ n ih =>
    cases os with
    | nil => exact List.take_nil
    | cons o os =>
      rw [List.flatMap_cons, List.take_succ_cons, List.flatMap_cons, Nat.succ_mul,
        Nat.add_comm _ k, ← ih os, List.take_append, hf, Nat.add_sub_cancel_left,
        List.take_of_length_le (by rw [hf]; exact Nat.le_add_right ..)]

/-- The cells of the first units. -/
theorem take_units (n : ℕ) (os : List ℕ) :
    (os.flatMap (unitCells mem unit)).take (n * unit) =
      (os.take n).flatMap (unitCells mem unit) :=
  take_flatMap (length_unitCells unit mem) n os

/-- The good cells of a range cut in two. -/
theorem goodCells_add (first m n : ℕ) :
    goodCells mem bad unit first (m + n) =
      goodCells mem bad unit first m ++ goodCells mem bad unit (first + m) n := by
  rw [goodCells, goodUnits_add, List.flatMap_append]
  rfl

/-- The good cells of one unit. -/
theorem goodCells_one (first : ℕ) :
    goodCells mem bad unit first 1 =
      if bad (first * unit) then [] else unitCells mem unit (first * unit) := by
  rw [goodCells, goodUnits, goodUnits]
  split
  · rfl
  · rw [List.flatMap_cons, List.flatMap_nil, List.append_nil]

/-- The cells of adjacent units are those of the larger unit. -/
theorem unitCells_mul (k page offset : ℕ) :
    (List.range k).flatMap (fun j => unitCells mem page (offset + j * page)) =
      unitCells mem (k * page) offset := by
  induction k with
  | zero => rw [Nat.zero_mul]; rfl
  | succ k ih =>
    rw [List.range_succ, List.flatMap_append, ih, List.flatMap_cons, List.flatMap_nil,
      List.append_nil, Nat.succ_mul]
    unfold unitCells
    rw [List.range_add, List.map_append, List.map_map]
    congr 1
    refine List.map_congr_left fun i _ => ?_
    rw [Function.comp_apply, Nat.add_assoc]

/-- The pages of a unit. -/
def pagesOfUnit (k page o : ℕ) : List ℕ := (List.range k).map (fun j => o + j * page)

/-- The pages of a unit. -/
theorem length_pagesOfUnit (k page o : ℕ) : (pagesOfUnit k page o).length = k := by
  rw [pagesOfUnit, List.length_map, List.length_range]

/-- The pages of one unit are all good or all bad. -/
theorem goodUnits_unit_pages {k page : ℕ}
    (hbad : ∀ i j, j < k → bad ((i * k + j) * page) = bad (i * (k * page))) (i m : ℕ)
    (hm : m ≤ k) :
    goodUnits bad page (i * k) m =
      if bad (i * (k * page)) then [] else pagesOfUnit m page (i * (k * page)) := by
  induction m with
  | zero =>
    split <;> rfl
  | succ m ih =>
    rw [goodUnits_add, ih (by omega), goodUnits, goodUnits, hbad i m (by omega)]
    split
    · rfl
    · rw [pagesOfUnit, pagesOfUnit, List.range_succ, List.map_append, List.map_cons, List.map_nil,
        Nat.add_mul, Nat.mul_assoc]

/-- Walking by pages meets the pages of the units. -/
theorem goodUnits_pages {k page : ℕ}
    (hbad : ∀ i j, j < k → bad ((i * k + j) * page) = bad (i * (k * page))) (first count : ℕ) :
    goodUnits bad page (first * k) (count * k) =
      (goodUnits bad (k * page) first count).flatMap (pagesOfUnit k page) := by
  induction count generalizing first with
  | zero => rw [Nat.zero_mul]; rfl
  | succ count ih =>
    have hfirst := goodUnits_unit_pages bad hbad first k (Nat.le_refl k)
    have hrest := ih (first + 1)
    rw [Nat.succ_mul] at hrest
    rw [Nat.succ_mul, Nat.add_comm (count * k) k, goodUnits_add, hrest, hfirst, goodUnits]
    split
    · rw [List.nil_append]
    · rw [List.flatMap_cons]

/-- Walking by pages meets the same good cells as walking by units. -/
theorem goodCells_pages {k page : ℕ}
    (hbad : ∀ i j, j < k → bad ((i * k + j) * page) = bad (i * (k * page))) (first count : ℕ) :
    goodCells mem bad page (first * k) (count * k) = goodCells mem bad (k * page) first count := by
  have hunit : ∀ o, (pagesOfUnit k page o).flatMap (unitCells mem page) =
      unitCells mem (k * page) o := fun o => by
    rw [pagesOfUnit, List.flatMap_map, unitCells_mul]
  rw [goodCells, goodUnits_pages bad hbad, List.flatMap_assoc, goodCells]
  congr 1
  funext o
  exact hunit o

/-- The units that are used, when the data fits. -/
theorem ceil_le {unit n len : ℕ} (hunit : 0 < unit) (hfits : len ≤ n * unit) :
    (len + unit - 1) / unit ≤ n := by
  rw [Nat.div_le_iff_le_mul_add_pred hunit, Nat.mul_comm]
  omega

/-- The units that are used have room for the data. -/
theorem le_ceil_mul {unit : ℕ} (hunit : 0 < unit) (len : ℕ) :
    len ≤ (len + unit - 1) / unit * unit := by
  have hlt := Nat.lt_div_mul_add hunit (a := len + unit - 1)
  omega

/-- What is not reached by whole units needs one more of them. -/
theorem lt_ceil {unit k len : ℕ} (hunit : 0 < unit) (h : k * unit < len) :
    k < (len + unit - 1) / unit :=
  Nat.lt_of_mul_lt_mul_right (Nat.lt_of_lt_of_le h (le_ceil_mul hunit len))

/-- One unit less is used for as much less data. -/
theorem ceil_sub {unit len : ℕ} (hunit : 0 < unit) (hlen : 0 < len) :
    (len + unit - 1) / unit = (len - unit + unit - 1) / unit + 1 := by
  rcases Nat.le_total unit len with hle | hle
  · rw [← Nat.add_div_right _ hunit]
    congr 1
    omega
  · have hone : (len + unit - 1) / unit = 1 := Nat.div_eq_of_lt_le (by omega) (by omega)
    have hzero : (len - unit + unit - 1) / unit = 0 := Nat.div_eq_of_lt (by omega)
    omega

/-- The first pages lie in the first units. -/
theorem mem_take_pages {k page len x : ℕ} (hk : 0 < k) (hpage : 0 < page) {os : List ℕ}
    (hx : x ∈ (os.flatMap (pagesOfUnit k page)).take ((len + page - 1) / page)) :
    ∃ o ∈ os.take ((len + k * page - 1) / (k * page)), x ∈ pagesOfUnit k page o := by
  have hle : (len + page - 1) / page ≤ (len + k * page - 1) / (k * page) * k := by
    refine ceil_le hpage ?_
    rw [Nat.mul_assoc]
    exact le_ceil_mul (Nat.mul_pos hk hpage) _
  have hmem := List.take_subset_take_left _ hle hx
  rw [take_flatMap (length_pagesOfUnit k page)] at hmem
  exact List.mem_flatMap.mp hmem

end Units

section Layout

/-- Lay out data over units in order: each unit with its piece of the data,
until nothing is left. -/
def layout (unit : ℕ) : List ℕ → List α → List (ℕ × List α)
  | [], _ => []
  | o :: os, data =>
    if data.isEmpty then [] else (o, data.take unit) :: layout unit os (data.drop unit)

/-- No data, no pieces. -/
theorem layout_nil (unit : ℕ) (os : List ℕ) : layout unit os ([] : List α) = [] := by
  cases os <;> rfl

/-- The first piece goes to the first unit. -/
theorem layout_cons {unit o : ℕ} {os : List ℕ} {data : List α} (h : data ≠ []) :
    layout unit (o :: os) data = (o, data.take unit) :: layout unit os (data.drop unit) := by
  rw [layout, if_neg]
  rw [List.isEmpty_iff]
  exact h

/-- The units used are the first ones. -/
theorem layout_offsets {unit : ℕ} (hunit : 0 < unit) (os : List ℕ) (data : List α) :
    (layout unit os data).map Prod.fst = os.take ((data.length + unit - 1) / unit) := by
  induction os generalizing data with
  | nil => rw [List.take_nil]; rfl
  | cons o os ih =>
    by_cases h : data = []
    · rw [h, layout_nil, List.length_nil, Nat.zero_add,
        Nat.div_eq_of_lt (Nat.sub_lt hunit Nat.zero_lt_one)]
      rfl
    · have hcount : (data.length + unit - 1) / unit =
          ((data.drop unit).length + unit - 1) / unit + 1 := by
        rw [List.length_drop, ceil_sub hunit (List.length_pos_iff.mpr h)]
      rw [layout_cons h, List.map_cons, ih, hcount, List.take_succ_cons]

/-- Every piece has data, and no more than fits. -/
theorem layout_piece_length (unit : ℕ) (os : List ℕ) (data : List α) :
    ∀ piece ∈ layout unit os data, piece.2.length ≤ unit := by
  induction os generalizing data with
  | nil => exact fun piece h => absurd h List.not_mem_nil
  | cons o os ih =>
    by_cases h : data = []
    · rw [h, layout_nil]
      exact fun piece hp => absurd hp List.not_mem_nil
    · rw [layout_cons h]
      intro piece hp
      rcases List.mem_cons.mp hp with hp | hp
      · rw [hp]
        exact List.length_take_le ..
      · exact ih _ piece hp

/-- Filling the pieces only adds something behind the data, and that is what
the last piece is filled with. -/
theorem layout_filled {fill : List α → List α} {unit : ℕ} (hbegins : ∀ piece, piece <+: fill piece)
    (hfull : ∀ piece, piece.length = unit → fill piece = piece) (os : List ℕ) (data : List α) :
    ∃ tail, (tail = [] ∨ ∃ piece, fill piece = piece ++ tail) ∧
      (layout unit os data).flatMap (fun piece => fill piece.2) =
        data.take (os.length * unit) ++ tail := by
  induction os generalizing data with
  | nil => exact ⟨[], .inl rfl, by rw [List.length_nil, Nat.zero_mul]; rfl⟩
  | cons o os ih =>
    by_cases h : data = []
    · exact ⟨[], .inl rfl, by rw [h, layout_nil, List.take_nil]; rfl⟩
    · rw [layout_cons h, List.flatMap_cons, List.length_cons, Nat.succ_mul,
        Nat.add_comm _ unit, List.take_add]
      rcases Nat.le_total unit data.length with hle | hle
      · obtain ⟨tail, htail, hrest⟩ := ih (data.drop unit)
        refine ⟨tail, htail, ?_⟩
        have hpiece : (data.take unit).length = unit := by
          rw [List.length_take, Nat.min_eq_left hle]
        rw [hrest, hfull _ hpiece, List.append_assoc]
      · obtain ⟨tail, htail⟩ := hbegins data
        refine ⟨tail, .inr ⟨data, htail.symm⟩, ?_⟩
        rw [List.drop_eq_nil_of_le hle, layout_nil, List.flatMap_nil, List.append_nil,
          List.take_nil, List.append_nil, List.take_of_length_le hle]
        exact htail.symm

end Layout

section Store

/-- A memory after data has been stored at an offset. -/
def put (mem : ℕ → α) (offset : ℕ) (data : List α) : ℕ → α := fun a =>
  if offset ≤ a then (data[a - offset]?).getD (mem a) else mem a

/-- Storing changes nothing outside the cells it is for. -/
theorem put_outside (mem : ℕ → α) {offset a : ℕ} {data : List α}
    (h : a < offset ∨ offset + data.length ≤ a) : put mem offset data a = mem a := by
  unfold put
  split
  · rw [List.getElem?_eq_none (by omega), Option.getD_none]
  · rfl

/-- The stored data can be read back. -/
theorem unitCells_put (mem : ℕ → α) (offset : ℕ) (data : List α) :
    unitCells (put mem offset data) data.length offset = data := by
  refine List.ext_getElem ?_ fun i h₁ h₂ => ?_
  · rw [length_unitCells]
  · simp only [unitCells, List.getElem_map, List.getElem_range, put]
    rw [if_pos (Nat.le_add_right ..), Nat.add_sub_cancel_left, List.getElem?_eq_getElem h₂,
      Option.getD_some]

/-- Cells that agree are read alike. -/
theorem unitCells_congr {mem mem' : ℕ → α} {unit offset : ℕ}
    (h : ∀ a, offset ≤ a → a < offset + unit → mem a = mem' a) :
    unitCells mem unit offset = unitCells mem' unit offset := by
  refine List.map_congr_left fun i hi => ?_
  have hlt : i < unit := List.mem_range.mp hi
  exact h _ (by omega) (by omega)

/-- Store several pieces of data. -/
def putAll (mem : ℕ → α) (pieces : List (ℕ × List α)) : ℕ → α :=
  pieces.foldl (fun mem piece => put mem piece.1 piece.2) mem

/-- The first piece, then the others. -/
theorem putAll_cons (mem : ℕ → α) (piece : ℕ × List α) (pieces : List (ℕ × List α)) :
    putAll mem (piece :: pieces) = putAll (put mem piece.1 piece.2) pieces := rfl

/-- Storing the same everywhere. -/
theorem putAll_replicate {unit a : ℕ} {x : α} (mem : ℕ → α) {os : List ℕ}
    (h : mem a = x ∨ ∃ o ∈ os, o ≤ a ∧ a < o + unit) :
    putAll mem (os.map fun o => (o, List.replicate unit x)) a = x := by
  induction os generalizing mem with
  | nil =>
    rcases h with h | ⟨o, ho, -⟩
    · exact h
    · exact absurd ho List.not_mem_nil
  | cons o os ih =>
    rw [List.map_cons, putAll_cons]
    refine ih _ ?_
    have hput : put mem o (List.replicate unit x) a = if o ≤ a ∧ a < o + unit then x else mem a := by
      unfold put
      by_cases hle : o ≤ a
      · by_cases hlt : a < o + unit
        · rw [if_pos hle, if_pos ⟨hle, hlt⟩, List.getElem?_replicate, if_pos (by omega),
            Option.getD_some]
        · rw [if_pos hle, if_neg fun h => hlt h.2, List.getElem?_replicate, if_neg (by omega),
            Option.getD_none]
      · rw [if_neg hle, if_neg fun h => hle h.1]
    rw [hput]
    split
    · exact .inl rfl
    · rename_i hout
      rcases h with h | ⟨p, hp, hin⟩
      · exact .inl h
      · rcases List.mem_cons.mp hp with hp | hp
        · rw [hp] at hin
          exact absurd hin hout
        · exact .inr ⟨p, hp, hin⟩

/-- What is stored at an address depends on the cell there only. -/
theorem putAll_congr {mem mem' : ℕ → α} {a : ℕ} (h : mem a = mem' a)
    (pieces : List (ℕ × List α)) : putAll mem pieces a = putAll mem' pieces a := by
  induction pieces generalizing mem mem' with
  | nil => exact h
  | cons piece pieces ih =>
    rw [putAll_cons, putAll_cons]
    refine ih ?_
    unfold put
    rw [h]

/-- Storing pieces changes nothing outside them. -/
theorem putAll_outside (mem : ℕ → α) {a : ℕ} (pieces : List (ℕ × List α))
    (h : ∀ piece ∈ pieces, a < piece.1 ∨ piece.1 + piece.2.length ≤ a) :
    putAll mem pieces a = mem a := by
  induction pieces generalizing mem with
  | nil => rfl
  | cons piece pieces ih =>
    rw [putAll_cons, ih _ fun q hq => h q (List.mem_cons_of_mem _ hq),
      put_outside mem (h piece (List.mem_cons_self ..))]

/-- Whole units stored in ascending order are found again. -/
theorem unitCells_putAll {unit : ℕ} (mem : ℕ → α) (pieces : List (ℕ × List α))
    (hlen : ∀ piece ∈ pieces, piece.2.length = unit)
    (hsorted : (pieces.map Prod.fst).Pairwise (fun a b => a + unit ≤ b)) :
    (pieces.map Prod.fst).flatMap (unitCells (putAll mem pieces) unit) =
      pieces.flatMap Prod.snd := by
  induction pieces generalizing mem with
  | nil => rfl
  | cons piece pieces ih =>
    rw [List.map_cons] at hsorted
    obtain ⟨hfirst, hrest⟩ := List.pairwise_cons.mp hsorted
    have hpiece := hlen piece (List.mem_cons_self ..)
    have hhead : unitCells (putAll mem (piece :: pieces)) unit piece.1 = piece.2 := by
      have hsame : unitCells (putAll mem (piece :: pieces)) unit piece.1 =
          unitCells (put mem piece.1 piece.2) unit piece.1 := by
        refine unitCells_congr fun a _ hlt => ?_
        rw [putAll_cons, putAll_outside]
        intro q hq
        have hle := hfirst q.1 (List.mem_map_of_mem hq)
        exact .inl (by omega)
      rw [hsame, ← hpiece, unitCells_put]
    rw [List.map_cons, List.flatMap_cons, List.flatMap_cons, hhead, putAll_cons,
      ih _ (fun q hq => hlen q (List.mem_cons_of_mem _ hq)) hrest]

end Store

end MetaDigi.BlockLayout
