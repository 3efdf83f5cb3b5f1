import MetaDigi.CStrings
import Mathlib.Algebra.Group.Nat.Defs

/-!
# Scanning numbers and patterns

The conversions of `sscanf` and the basic regular expressions of `regexec`, as
far as the tools use them. A conversion answers its value and the text behind
it, or nothing when the text does not match. An expression is kept as the
source writes it and compiled to a list of atoms, each plain or starred.
-/

namespace MetaDigi.TextScan

open CStrings

/-- `isspace`: blank, tab, newline, vertical tab, form feed, return. -/
def isSpace (c : UInt8) : Bool := c = 32 ∨ (9 ≤ c ∧ c ≤ 13)

/-- The value of a digit, also of the hexadecimal ones. -/
def digitValue (c : UInt8) : Option ℕ :=
  if 48 ≤ c ∧ c ≤ 57 then some (c.toNat - 48)
  else if 97 ≤ c ∧ c ≤ 102 then some (c.toNat - 87)
  else if 65 ≤ c ∧ c ≤ 70 then some (c.toNat - 55)
  else none

/-- Read the digits of a base in front of a text, after `digits` of them
with the given value. Without any digit there is no number. -/
def scanDigits (base : ℕ) : Bytes → ℕ → ℕ → Option (ℕ × Bytes)
  | [], digits, value => if digits = 0 then none else some (value, [])
  | c :: s, digits, value =>
    match digitValue c with
    | some d =>
      if d < base then scanDigits base s (digits + 1) (value * base + d)
      else if digits = 0 then none else some (value, c :: s)
    | none => if digits = 0 then none else some (value, c :: s)

/-- A sign in front of a number. -/
def scanSign : Bytes → Bool × Bytes
  | [] => (false, [])
  | c :: s => if c = 45 then (true, s) else if c = 43 then (false, s) else (false, c :: s)

/-- The value that `strtoul` returns for a number with a sign: it stays at the
largest one when the number is too big, and a negative one wraps around. -/
def toUnsigned (bits : ℕ) (negative : Bool) (value : ℕ) : ℕ :=
  if 2 ^ bits ≤ value then 2 ^ bits - 1
  else if negative then (2 ^ bits - value) % 2 ^ bits else value

/-- The conversion `%u`. -/
def scanUnsigned (bits : ℕ) (s : Bytes) : Option (ℕ × Bytes) := do
  let (negative, s) := scanSign (s.dropWhile isSpace)
  let (value, s) ← scanDigits 10 s 0 0
  return (toUnsigned bits negative value, s)

/-- The conversion `%x`, with or without `0x` in front of the digits. -/
def scanHex (bits : ℕ) (s : Bytes) : Option (ℕ × Bytes) := do
  let (negative, s) := scanSign (s.dropWhile isSpace)
  let s := if s.take 2 = text "0x" ∨ s.take 2 = text "0X" then s.drop 2 else s
  let (value, s) ← scanDigits 16 s 0 0
  return (toUnsigned bits negative value, s)

/-- Text of the format itself. -/
def scanLiteral (expected s : Bytes) : Option Bytes :=
  if expected <+: s then some (s.drop expected.length) else none

/-- The conversion `%s` with a width. -/
def scanWord (width : ℕ) (s : Bytes) : Option (Bytes × Bytes) :=
  let s := s.dropWhile isSpace
  let word := (s.takeWhile (fun c => !isSpace c)).take width
  if word = [] then none else some (word, s.drop word.length)

/-- One position of a regular expression. -/
inductive RegAtom where
  /-- This character. -/
  | char (c : UInt8)
  /-- Any character, written as a dot. -/
  | any
  deriving DecidableEq, Repr

/-- Whether a position accepts a character. -/
def RegAtom.accepts : RegAtom → UInt8 → Bool
  | char d, c => c = d
  | any, _ => true

/-- A compiled expression: each position with its star, if it has one. -/
abbrev RegExp := List (RegAtom × Bool)

/-- The positions of an expression in order; `none` stands for a star. -/
def regTokens : Bytes → List (Option RegAtom)
  | [] => []
  | [c] => [if c = 46 then some .any else if c = 42 then none else some (.char c)]
  | c :: d :: s =>
    if c = 92 then some (.char d) :: regTokens s
    else (if c = 46 then some .any else if c = 42 then none else some (.char c)) ::
      regTokens (d :: s)

/-- Attach every star to the position in front of it. A star at the very
start stands for itself. -/
def regPositions : List (Option RegAtom) → RegExp
  | [] => []
  | none :: ts => (.char 42, false) :: regPositions ts
  | some a :: none :: ts => (a, true) :: regPositions ts
  | some a :: ts => (a, false) :: regPositions ts

/-- `regcomp` for expressions of characters, dots, stars and backslashes. -/
def regcomp (szExp : Bytes) : RegExp := regPositions (regTokens szExp)

/-- Go on behind some number of characters that a position accepts. -/
def regStar (accepts : UInt8 → Bool) (next : Bytes → Bool) : Bytes → Bool
  | [] => next []
  | c :: s => next (c :: s) || (accepts c && regStar accepts next s)

/-- Match an expression at the front of a text. -/
def regMatch : RegExp → Bytes → Bool
  | [], _ => true
  | (a, true) :: re, s => regStar a.accepts (regMatch re) s
  | (_, false) :: _, [] => false
  | (a, false) :: re, c :: s => a.accepts c && regMatch re s

/-- `regexec`: match an expression anywhere in a text. -/
def regexec (re : RegExp) (s : Bytes) : Bool := regStar (fun _ => true) (regMatch re) s

/-- Skipping characters that are accepted reaches every tail of the text
behind a part of such characters. -/
theorem regStar_iff (accepts : UInt8 → Bool) (next : Bytes → Bool) (s : Bytes) :
    regStar accepts next s = true ↔
      ∃ skipped rest, s = skipped ++ rest ∧ (∀ c ∈ skipped, accepts c) ∧ next rest = true := by
  induction s with
  | nil =>
    constructor
    · intro h
      exact ⟨[], [], rfl, fun c hc => absurd hc List.not_mem_nil, h⟩
    · rintro ⟨skipped, rest, hs, -, hnext⟩
      have hrest : rest = [] := (List.append_eq_nil_iff.mp hs.symm).2
      rw [hrest] at hnext
      exact hnext
  | cons c s ih =>
    rw [regStar, Bool.or_eq_true, Bool.and_eq_true, ih]
    constructor
    · rintro (hnext | ⟨hc, skipped, rest, hs, hskipped, hnext⟩)
      · exact ⟨[], c :: s, rfl, fun c hc => absurd hc List.not_mem_nil, hnext⟩
      · refine ⟨c :: skipped, rest, by rw [hs, List.cons_append], ?_, hnext⟩
        intro d hd
        rcases List.mem_cons.mp hd with hd | hd
        · rw [hd]
          exact hc
        · exact hskipped d hd
    · rintro ⟨skipped, rest, hs, hskipped, hnext⟩
      cases skipped with
      | nil =>
        rw [List.nil_append] at hs
        rw [← hs] at hnext
        exact .inl hnext
      | cons d skipped =>
        rw [List.cons_append, List.cons.injEq] at hs
        refine .inr ⟨?_, skipped, rest, hs.2, ?_, hnext⟩
        · rw [hs.1]
          exact hskipped d (List.mem_cons_self ..)
        · exact fun e he => hskipped e (List.mem_cons_of_mem _ he)

/-- An expression is found in a text when some tail of the text matches it. -/
theorem regexec_iff (re : RegExp) (s : Bytes) :
    regexec re s = true ↔ ∃ rest, rest <:+ s ∧ regMatch re rest = true := by
  rw [regexec, regStar_iff]
  constructor
  · rintro ⟨skipped, rest, hs, -, hmatch⟩
    exact ⟨rest, ⟨skipped, hs.symm⟩, hmatch⟩
  · rintro ⟨rest, ⟨skipped, hs⟩, hmatch⟩
    exact ⟨skipped, rest, hs.symm, fun _ _ => rfl, hmatch⟩

/-- The positions for a plain text. -/
def literal (t : Bytes) : RegExp := t.map fun c => (.char c, false)

/-- A plain text matches itself. -/
theorem regMatch_literal (t : Bytes) (re : RegExp) (s : Bytes) :
    regMatch (literal t ++ re) s = true ↔ ∃ rest, s = t ++ rest ∧ regMatch re rest = true := by
  induction t generalizing s with
  | nil =>
    constructor
    · exact fun h => ⟨s, rfl, h⟩
    · rintro ⟨rest, hs, hmatch⟩
      rw [hs]
      exact hmatch
  | cons d t ih =>
    cases s with
    | nil =>
      refine iff_of_false nofun ?_
      rintro ⟨rest, hs, -⟩
      cases hs
    | cons c s =>
      have hstep : regMatch (literal (d :: t) ++ re) (c :: s) =
          (decide (c = d) && regMatch (literal t ++ re) s) := rfl
      rw [hstep, Bool.and_eq_true, decide_eq_true_iff, ih]
      constructor
      · rintro ⟨hc, rest, hs, hmatch⟩
        exact ⟨rest, by rw [hc, hs, List.cons_append], hmatch⟩
      · rintro ⟨rest, hs, hmatch⟩
        rw [List.cons_append, List.cons.injEq] at hs
        exact ⟨hs.1, rest, hs.2, hmatch⟩

/-- The positions for two texts with anything in between. -/
def between (l m : Bytes) : RegExp := literal l ++ (.any, true) :: literal m

/-- Such an expression is found where one text comes behind the other. -/
theorem regexec_between (l m s : Bytes) :
    regexec (between l m) s = true ↔ ∃ u v, s = u ++ v ∧ l <:+: u ∧ m <:+: v := by
  have hmatch : ∀ rest, regMatch (between l m) rest = true ↔
      ∃ skipped z, rest = l ++ (skipped ++ (m ++ z)) := by
    intro rest
    have htail : ∀ t, regMatch ((.any, true) :: literal m) t = true ↔
        ∃ skipped z, t = skipped ++ (m ++ z) := by
      intro t
      have hstar : regMatch ((.any, true) :: literal m) t =
          regStar (RegAtom.accepts .any) (regMatch (literal m)) t := rfl
      have hend := regMatch_literal m []
      rw [List.append_nil] at hend
      rw [hstar, regStar_iff]
      constructor
      · rintro ⟨skipped, rest, ht, -, hm⟩
        obtain ⟨z, hrest, -⟩ := (hend rest).mp hm
        exact ⟨skipped, z, by rw [ht, hrest]⟩
      · rintro ⟨skipped, z, ht⟩
        exact ⟨skipped, m ++ z, ht, fun _ _ => rfl, (hend _).mpr ⟨z, rfl, rfl⟩⟩
    rw [between, regMatch_literal]
    constructor
    · rintro ⟨t, hrest, ht⟩
      obtain ⟨skipped, z, ht⟩ := (htail t).mp ht
      exact ⟨skipped, z, by rw [hrest, ht]⟩
    · rintro ⟨skipped, z, hrest⟩
      exact ⟨_, hrest, (htail _).mpr ⟨skipped, z, rfl⟩⟩
  rw [regexec_iff]
  constructor
  · rintro ⟨rest, ⟨front, hs⟩, hrest⟩
    obtain ⟨skipped, z, hrest⟩ := (hmatch rest).mp hrest
    refine ⟨front ++ l, skipped ++ (m ++ z), ?_, ⟨front, [], List.append_nil _⟩, ⟨skipped, z, ?_⟩⟩
    · rw [← hs, hrest, List.append_assoc]
    · rw [List.append_assoc]
  · rintro ⟨u, v, hs, ⟨a, b, hu⟩, ⟨c, d, hv⟩⟩
    refine ⟨l ++ (b ++ c ++ (m ++ d)), ⟨a, ?_⟩, (hmatch _).mpr ⟨b ++ c, d, rfl⟩⟩
    rw [hs, ← hu, ← hv]
    simp only [List.append_assoc]

/-- A text without a separator lies on one side of one. -/
theorem infix_append_sep {l : Bytes} {sep : UInt8} (hsep : sep ∉ l) (t s : Bytes) :
    l <:+: t ++ [sep] ++ s ↔ l <:+: t ++ [sep] ∨ l <:+: s := by
  constructor
  · rintro ⟨a, b, hab⟩
    rcases List.append_eq_append_iff.mp hab with ⟨w, ht, hb⟩ | ⟨w, hal, hs⟩
    · exact .inl ⟨a, w, ht.symm⟩
    · rcases List.append_eq_append_iff.mp hal with ⟨w', ht, hl⟩ | ⟨w', ha, hw⟩
      · rcases List.eq_nil_or_concat w' with hnil | ⟨w'', c, hw'⟩
        · rw [hnil, List.nil_append] at hl
          exact .inr ⟨[], b, by rw [hl, List.nil_append, ← hs]⟩
        · rw [List.concat_eq_append] at hw'
          rw [hw', ← List.append_assoc] at ht
          have hc : sep = c := List.singleton_inj.mp (List.append_inj' ht rfl).2
          have hmem : c ∈ l := by
            rw [hl, hw']
            exact List.mem_append_left _ (List.mem_append_right _ (List.mem_singleton_self c))
          exact absurd (hc ▸ hmem) hsep
      · refine .inr ⟨w', b, ?_⟩
        rw [← hw, ← hs]
  · rintro (h | h)
    · exact h.trans (List.prefix_append ..).isInfix
    · exact h.trans (List.suffix_append ..).isInfix

end MetaDigi.TextScan
