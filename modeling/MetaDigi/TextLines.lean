import Mathlib.Data.List.Basic

/-!
# Lines and pieces of a text

A text falls into lines, each with the separator that ends it. A reader with a
buffer takes pieces: up to the next separator, or as much as the buffer holds.
The pieces are the lines exactly when every line fits the buffer, and otherwise
there are more of them.
-/

namespace MetaDigi.TextLines

variable {α : Type} [DecidableEq α] (sep : α)

/-- The lines of a text, each with the separator that ends it. -/
def linesWith : List α → List (List α)
  | [] => []
  | c :: s =>
    if c = sep then [c] :: linesWith s
    else
      match linesWith s with
      | [] => [[c]]
      | line :: lines => (c :: line) :: lines

/-- The first piece of a text, of at most so many characters, and the rest. -/
def piece : ℕ → List α → List α × List α
  | 0, s => ([], s)
  | _ + 1, [] => ([], [])
  | room + 1, c :: s =>
    if c = sep then ([c], s)
    else
      let (front, rest) := piece room s
      (c :: front, rest)

/-- The pieces of a text. The second number bounds how many there are. -/
def pieces (room : ℕ) : ℕ → List α → List (List α)
  | 0, _ => []
  | left + 1, s =>
    if s = [] then []
    else (piece sep room s).1 :: pieces room left (piece sep room s).2

/-- A text that is not empty begins with a line that is not empty. -/
theorem linesWith_cons (c : α) (s : List α) :
    ∃ line lines, linesWith sep (c :: s) = (c :: line) :: lines := by
  rw [linesWith]
  split
  · exact ⟨[], _, rfl⟩
  · split
    · exact ⟨[], [], rfl⟩
    · exact ⟨_, _, rfl⟩

/-- A line in front of a text. -/
theorem linesWith_append {line : List α} (hline : sep ∉ line) (s : List α) :
    linesWith sep (line ++ sep :: s) = (line ++ [sep]) :: linesWith sep s := by
  induction line with
  | nil => rw [List.nil_append, linesWith, if_pos rfl, List.nil_append]
  | cons c line ih =>
    rw [List.mem_cons, not_or] at hline
    rw [List.cons_append, linesWith, if_neg fun h => hline.1 h.symm, ih hline.2, List.cons_append]

/-- The lines of a text that consists of lines. -/
theorem linesWith_flatMap {lines : List (List α)} (hlines : ∀ line ∈ lines, sep ∉ line) :
    linesWith sep (lines.flatMap (· ++ [sep])) = lines.map (· ++ [sep]) := by
  induction lines with
  | nil => rfl
  | cons line lines ih =>
    rw [List.flatMap_cons, List.append_assoc, List.singleton_append,
      linesWith_append sep (hlines line (List.mem_cons_self ..)), List.map_cons,
      ih fun l hl => hlines l (List.mem_cons_of_mem _ hl)]

/-- The first piece and the rest are the text. -/
theorem piece_append (room : ℕ) (s : List α) :
    (piece sep room s).1 ++ (piece sep room s).2 = s := by
  induction s generalizing room with
  | nil => cases room <;> rfl
  | cons c s ih =>
    cases room with
    | zero => rfl
    | succ room =>
      rw [piece]
      split
      · rfl
      · exact congrArg (c :: ·) (ih room)

/-- With any room at all the rest is shorter than the text. -/
theorem length_rest {room : ℕ} (hroom : 0 < room) {s : List α} (hs : s ≠ []) :
    (piece sep room s).2.length < s.length := by
  obtain ⟨room, rfl⟩ := Nat.exists_eq_add_one_of_ne_zero (Nat.ne_of_gt hroom)
  obtain ⟨c, s, rfl⟩ := List.exists_cons_of_ne_nil hs
  have hlen := congrArg List.length (piece_append sep room s)
  rw [List.length_append] at hlen
  rw [piece]
  split
  · exact Nat.lt_succ_self _
  · dsimp only
    rw [List.length_cons]
    omega

/-- The first piece is the first line when that fits, and otherwise as much of
it as does. -/
theorem piece_line {room : ℕ} (hroom : 0 < room) {s : List α} (hs : s ≠ []) :
    ∃ line lines, linesWith sep s = line :: lines ∧
      (line.length ≤ room ∧ (piece sep room s).1 = line ∧
          linesWith sep (piece sep room s).2 = lines ∨
        room < line.length ∧ (piece sep room s).1 = line.take room ∧
          linesWith sep (piece sep room s).2 = line.drop room :: lines) := by
  induction s generalizing room with
  | nil => exact absurd rfl hs
  | cons c s ih =>
    obtain ⟨room, rfl⟩ := Nat.exists_eq_add_one_of_ne_zero (Nat.ne_of_gt hroom)
    by_cases hc : c = sep
    · refine ⟨[c], linesWith sep s, by rw [linesWith, if_pos hc], .inl ⟨by simp, ?_, ?_⟩⟩
      · rw [piece, if_pos hc]
      · rw [piece, if_pos hc]
    cases s with
    | nil =>
      have hempty : piece sep room ([] : List α) = ([], []) := by cases room <;> rfl
      refine ⟨[c], [], by rw [linesWith, if_neg hc, linesWith], .inl ⟨by simp, ?_, ?_⟩⟩
      · rw [piece, if_neg hc, hempty]
      · rw [piece, if_neg hc, hempty, linesWith]
    | cons d s =>
      cases room with
      | zero =>
        obtain ⟨line, lines, hlines⟩ := linesWith_cons sep d s
        refine ⟨c :: d :: line, lines, by rw [linesWith, if_neg hc, hlines], .inr ⟨by simp, ?_, ?_⟩⟩
        · rw [piece, if_neg hc, piece]
          rfl
        · rw [piece, if_neg hc, piece]
          exact hlines
      | succ room =>
        obtain ⟨line, lines, hlines, hcase⟩ := ih (Nat.succ_pos room) (List.cons_ne_nil d s)
        refine ⟨c :: line, lines, by rw [linesWith, if_neg hc, hlines], ?_⟩
        rw [piece, if_neg hc, List.length_cons]
        dsimp only
        rcases hcase with ⟨hshort, hfront, hrest⟩ | ⟨hlong, hfront, hrest⟩
        · exact .inl ⟨Nat.succ_le_succ hshort, congrArg (c :: ·) hfront, hrest⟩
        · refine .inr ⟨Nat.succ_lt_succ hlong, ?_, hrest⟩
          rw [hfront, List.take_succ_cons]

variable {room : ℕ} (hroom : 0 < room)

include hroom

/-- When every line fits, the pieces are the lines. -/
theorem pieces_eq_lines {left : ℕ} {s : List α} (hleft : s.length ≤ left)
    (hfits : ∀ line ∈ linesWith sep s, line.length ≤ room) :
    pieces sep room left s = linesWith sep s := by
  induction left generalizing s with
  | zero =>
    rw [List.length_eq_zero_iff.mp (Nat.le_zero.mp hleft)]
    rfl
  | succ left ih =>
    by_cases hs : s = []
    · rw [pieces, if_pos hs, hs, linesWith]
    obtain ⟨line, lines, hlines, hcase⟩ := piece_line sep hroom hs
    rw [hlines] at hfits
    rcases hcase with ⟨-, hfront, hrest⟩ | ⟨hlong, -⟩
    · have hshorter := length_rest sep hroom hs
      rw [pieces, if_neg hs, hlines, hfront, ih (by omega), hrest]
      intro l hl
      rw [hrest] at hl
      exact hfits l (List.mem_cons_of_mem line hl)
    · exact absurd (hfits line List.mem_cons_self) (Nat.not_le_of_lt hlong)

/-- There are no fewer pieces than lines. -/
theorem length_lines_le {left : ℕ} {s : List α} (hleft : s.length ≤ left) :
    (linesWith sep s).length ≤ (pieces sep room left s).length := by
  induction left generalizing s with
  | zero =>
    rw [List.length_eq_zero_iff.mp (Nat.le_zero.mp hleft)]
    exact Nat.le_refl 0
  | succ left ih =>
    by_cases hs : s = []
    · rw [pieces, if_pos hs, hs]
      exact Nat.le_refl 0
    obtain ⟨line, lines, hlines, hcase⟩ := piece_line sep hroom hs
    have hshorter := length_rest sep hroom hs
    have htail := @ih (piece sep room s).2 (by omega)
    rw [pieces, if_neg hs, hlines, List.length_cons, List.length_cons]
    rcases hcase with ⟨-, -, hrest⟩ | ⟨-, -, hrest⟩
    · rw [hrest] at htail
      exact Nat.succ_le_succ htail
    · rw [hrest, List.length_cons] at htail
      omega

/-- If there are as many pieces as lines, then every line fits. -/
theorem fits_of_length_eq {left : ℕ} {s : List α} (hleft : s.length ≤ left)
    (hlen : (pieces sep room left s).length = (linesWith sep s).length) :
    ∀ line ∈ linesWith sep s, line.length ≤ room := by
  induction left generalizing s with
  | zero =>
    rw [List.length_eq_zero_iff.mp (Nat.le_zero.mp hleft)]
    exact fun line hline => absurd hline List.not_mem_nil
  | succ left ih =>
    by_cases hs : s = []
    · rw [hs]
      exact fun line hline => absurd hline List.not_mem_nil
    obtain ⟨line, lines, hlines, hcase⟩ := piece_line sep hroom hs
    have hshorter := length_rest sep hroom hs
    rw [pieces, if_neg hs, hlines, List.length_cons, List.length_cons] at hlen
    rcases hcase with ⟨hshort, -, hrest⟩ | ⟨-, -, hrest⟩
    · have htail := @ih (piece sep room s).2 (by omega) (by rw [hrest]; omega)
      rw [hlines]
      intro l hl
      rcases List.mem_cons.mp hl with rfl | hl
      · exact hshort
      · exact htail l (hrest ▸ hl)
    · have hmore := length_lines_le sep hroom (Nat.le_of_lt_succ (Nat.lt_of_lt_of_le hshorter hleft))
      rw [hrest, List.length_cons] at hmore
      omega

end MetaDigi.TextLines
