import Mathlib.Data.List.Basic

/-!
# Lists of strings packed between terminators

Strings over any alphabet lie one after the other, each followed by a
terminator, and one more terminator closes the list. The empty list is two
terminators, so that the closing pair can be searched for in every block.
Nothing here is about a particular alphabet, terminator or program.
-/

namespace MetaDigi.PackedStrings

variable {α : Type} (z : α)

/-- A string that can be packed: it has a first letter, and the terminator
does not occur in it. -/
structure Packable (s : List α) : Prop where
  /-- An empty string would be read as the end of the list. -/
  nonempty : s ≠ []
  /-- A terminator inside would end the string early. -/
  clean : z ∉ s

/-- The strings one after the other, each with its terminator. -/
def flat (L : List (List α)) : List α := L.flatMap (· ++ [z])

/-- The complete encoding of a list of strings. -/
def packed (L : List (List α)) : List α := if L = [] then [z, z] else flat z L ++ [z]

/-- A block of memory holds a list when it begins with the list's encoding;
the cells behind the encoding are arbitrary. -/
structure Holds (mem : List α) (L : List (List α)) : Prop where
  /-- Every string of the list can be packed. -/
  entries : ∀ s ∈ L, Packable z s
  /-- The encoding lies at the start of the block. -/
  stored : packed z L <+: mem

variable {z}

@[simp] theorem flat_nil : flat z [] = [] := rfl

@[simp] theorem flat_cons (s : List α) (L : List (List α)) :
    flat z (s :: L) = s ++ z :: flat z L := by
  simp [flat]

@[simp] theorem flat_append (L M : List (List α)) : flat z (L ++ M) = flat z L ++ flat z M := by
  simp [flat]

/-- Some of the strings take no more cells than all of them. -/
theorem length_flat_le {L M : List (List α)} (h : L.Sublist M) :
    (flat z L).length ≤ (flat z M).length := by
  induction h with
  | slnil => exact Nat.le_refl _
  | cons s _ ih =>
    rw [flat_cons, List.length_append, List.length_cons]
    omega
  | cons_cons s _ ih =>
    rw [flat_cons, flat_cons, List.length_append, List.length_append, List.length_cons,
      List.length_cons]
    omega

theorem packed_nil : packed z [] = [z, z] := if_pos rfl

theorem packed_of_ne_nil {L : List (List α)} (h : L ≠ []) : packed z L = flat z L ++ [z] :=
  if_neg h

/-- The empty list holds exactly when the block starts with two terminators. -/
theorem holds_nil_iff {mem : List α} : Holds z mem [] ↔ ∃ rest, mem = z :: z :: rest := by
  constructor
  · rintro ⟨-, rest, h⟩
    exact ⟨rest, by simpa [packed_nil] using h.symm⟩
  · rintro ⟨rest, rfl⟩
    exact ⟨by simp, rest, by simp [packed_nil]⟩

/-- The shape of a block that holds a nonempty list. -/
theorem holds_iff_of_ne_nil {mem : List α} {L : List (List α)} (hL : L ≠ []) :
    Holds z mem L ↔ (∀ s ∈ L, Packable z s) ∧ ∃ rest, mem = flat z L ++ z :: rest := by
  constructor
  · rintro ⟨hentries, rest, h⟩
    exact ⟨hentries, rest, by simpa [packed_of_ne_nil hL] using h.symm⟩
  · rintro ⟨hentries, rest, rfl⟩
    exact ⟨hentries, rest, by simp [packed_of_ne_nil hL]⟩

/-- Every block that holds a list goes on with a terminator behind the
strings, whether the list is empty or not. -/
theorem Holds.split {mem : List α} {L : List (List α)} (h : Holds z mem L) :
    ∃ rest, mem = flat z L ++ z :: rest ∧ (L = [] → ∃ tail, rest = z :: tail) := by
  by_cases hL : L = []
  · obtain ⟨rest, rfl⟩ := holds_nil_iff.mp (hL ▸ h)
    exact ⟨z :: rest, by simp [hL], fun _ => ⟨rest, rfl⟩⟩
  · obtain ⟨-, rest, rfl⟩ := (holds_iff_of_ne_nil hL).mp h
    exact ⟨rest, rfl, fun he => absurd he hL⟩

/-- Appending a string to a list makes its encoding longer by the string and
its terminator; the first string takes one of the two closing terminators. -/
theorem length_packed_append (L : List (List α)) (s : List α) :
    (packed z (L ++ [s])).length = (flat z L).length + s.length + 2 := by
  rw [packed_of_ne_nil (by simp)]
  simp only [flat_append, flat_cons, flat_nil, List.length_append, List.length_cons,
    List.length_nil]
  omega

/-- Appending over the closing terminator yields a block that holds the
longer list. -/
theorem holds_append {L : List (List α)} {s : List α} (hL : ∀ t ∈ L, Packable z t)
    (hs : Packable z s) (rest : List α) :
    Holds z (flat z L ++ s ++ z :: z :: rest) (L ++ [s]) := by
  refine (holds_iff_of_ne_nil (by simp)).mpr ⟨?_, rest, by simp⟩
  intro t ht
  rcases List.mem_append.mp ht with ht | ht
  · exact hL t ht
  · rw [List.mem_singleton.mp ht]
    exact hs

/-- Two clean strings in front of a terminator in the same text are equal,
and so is what follows. -/
theorem clean_append_inj {s t : List α} (hs : z ∉ s) (ht : z ∉ t) {r u : List α}
    (h : s ++ z :: r = t ++ z :: u) : s = t ∧ r = u := by
  induction s generalizing t with
  | nil =>
    cases t with
    | nil => simpa using h
    | cons c t =>
      have hc : c = z := by simpa using (List.cons.inj h).1.symm
      exact absurd (by simp [hc]) ht
  | cons c s ih =>
    cases t with
    | nil =>
      have hc : c = z := by simpa using (List.cons.inj h).1
      exact absurd (by simp [hc]) hs
    | cons d t =>
      obtain ⟨hcd, hrest⟩ := List.cons.inj h
      obtain ⟨hst, hru⟩ := ih (fun hm => hs (List.mem_cons_of_mem _ hm))
        (fun hm => ht (List.mem_cons_of_mem _ hm)) hrest
      exact ⟨by rw [hcd, hst], hru⟩

/-- The list held by a block is determined by the block. -/
theorem Holds.unique {mem : List α} {L M : List (List α)} (hL : Holds z mem L)
    (hM : Holds z mem M) : L = M := by
  obtain ⟨r, hr, -⟩ := hL.split
  obtain ⟨u, hu, -⟩ := hM.split
  have hsame : flat z L ++ z :: r = flat z M ++ z :: u := hr.symm.trans hu
  have hcleanL := hL.entries
  have hcleanM := hM.entries
  clear hL hM hr hu
  induction L generalizing M with
  | nil =>
    cases M with
    | nil => rfl
    | cons t M =>
      have ht := hcleanM t (by simp)
      obtain ⟨c, t, rfl⟩ := List.exists_cons_of_ne_nil ht.nonempty
      have hc : c = z := by simpa using (List.cons.inj hsame).1.symm
      exact absurd (by simp [hc]) ht.clean
  | cons s L ih =>
    have hs := hcleanL s (by simp)
    cases M with
    | nil =>
      obtain ⟨c, s, rfl⟩ := List.exists_cons_of_ne_nil hs.nonempty
      have hc : c = z := by simpa using (List.cons.inj hsame).1
      exact absurd (by simp [hc]) hs.clean
    | cons t M =>
      have ht := hcleanM t (by simp)
      simp only [flat_cons, List.append_assoc, List.cons_append] at hsame
      obtain ⟨hst, hrest⟩ := clean_append_inj hs.clean ht.clean hsame
      rw [hst, ih (M := M) hrest (fun x hx => hcleanL x (List.mem_cons_of_mem _ hx))
        (fun x hx => hcleanM x (List.mem_cons_of_mem _ hx))]

end MetaDigi.PackedStrings
