import Mathlib.Data.BitVec

/-!
# Reflected cyclic redundancy checks

A register takes the bits of a text one at a time, the low bit of a byte
first: it moves down by one place and, when the bit that falls out is set,
the polynomial is added. Adding is exclusive or, and a step is linear in it.
So the steps for a whole byte depend on the low bits of the register only, and
a table may take their place. The width and the polynomial are parameters.
-/

namespace MetaDigi.ReflectedCrc

variable {w : ℕ} (poly : BitVec w)

/-- One bit: the register moves down by one place. -/
def bitStep (c : BitVec w) : BitVec w := if c.getLsbD 0 then c >>> 1 ^^^ poly else c >>> 1

/-- So many bits. -/
def bitSteps : ℕ → BitVec w → BitVec w
  | 0, c => c
  | n + 1, c => bitSteps n (bitStep poly c)

/-- One byte: it is added to the low bits, and they fall out one by one. -/
def byteSteps (c : BitVec w) (byte : UInt8) : BitVec w :=
  bitSteps poly 8 (c ^^^ byte.toBitVec.setWidth w)

/-- The check of a text, with the value the register starts with and the value
that is added at the end. -/
def bitwise (init final : BitVec w) (text : List UInt8) : BitVec w :=
  text.foldl (byteSteps poly) init ^^^ final

/-- A step is linear. -/
theorem bitStep_xor (a b : BitVec w) :
    bitStep poly (a ^^^ b) = bitStep poly a ^^^ bitStep poly b := by
  have hfour : ∀ x y : BitVec w, (x ^^^ poly) ^^^ (y ^^^ poly) = x ^^^ y := by
    intro x y
    rw [BitVec.xor_comm y poly, ← BitVec.xor_assoc, BitVec.xor_assoc x, BitVec.xor_self,
      BitVec.xor_zero]
  unfold bitStep
  rw [BitVec.getLsbD_xor, BitVec.ushiftRight_xor_distrib]
  cases a.getLsbD 0 with
  | false =>
    cases b.getLsbD 0 with
    | false => rfl
    | true => exact BitVec.xor_assoc ..
  | true =>
    cases b.getLsbD 0 with
    | false =>
      simp only [Bool.xor_false, if_true, Bool.false_eq_true, if_false]
      rw [BitVec.xor_assoc, BitVec.xor_comm _ poly, ← BitVec.xor_assoc]
    | true => exact (hfour _ _).symm

/-- So are many of them. -/
theorem bitSteps_xor (n : ℕ) (a b : BitVec w) :
    bitSteps poly n (a ^^^ b) = bitSteps poly n a ^^^ bitSteps poly n b := by
  induction n generalizing a b with
  | zero => rfl
  | succ n ih => rw [bitSteps, bitStep_xor, ih, bitSteps, bitSteps]

/-- As long as no set bit falls out, the register only moves. -/
theorem bitSteps_clear {n : ℕ} {c : BitVec w} (hclear : ∀ i < n, c.getLsbD i = false) :
    bitSteps poly n c = c >>> n := by
  induction n generalizing c with
  | zero => exact (BitVec.ushiftRight_zero _).symm
  | succ n ih =>
    have hfirst : bitStep poly c = c >>> 1 := by
      rw [bitStep, hclear 0 (Nat.zero_lt_succ n), if_neg Bool.false_ne_true]
    have hrest : ∀ i < n, (c >>> 1).getLsbD i = false := by
      intro i hi
      rw [BitVec.getLsbD_ushiftRight]
      exact hclear (1 + i) (by omega)
    rw [bitSteps, hfirst, ih hrest, ← BitVec.shiftRight_add, Nat.add_comm]

/-- The low bits of a register. -/
def low (n : ℕ) (c : BitVec w) : BitVec w := (c.setWidth n).setWidth w

theorem getLsbD_low (n : ℕ) (c : BitVec w) (i : ℕ) :
    (low n c).getLsbD i = (decide (i < n) && c.getLsbD i) := by
  unfold low
  rw [BitVec.getLsbD_setWidth, BitVec.getLsbD_setWidth]
  by_cases hi : i < w
  · rw [decide_eq_true hi, Bool.true_and]
  · rw [decide_eq_false hi, Bool.false_and, BitVec.getLsbD_of_ge c i (by omega), Bool.and_false]

/-- The steps for the low bits, and the other bits moved down. -/
theorem bitSteps_low (n : ℕ) (c : BitVec w) :
    bitSteps poly n c = bitSteps poly n (low n c) ^^^ (c >>> n) := by
  have hsplit : c = low n c ^^^ (low n c ^^^ c) := by
    rw [← BitVec.xor_assoc, BitVec.xor_self, BitVec.zero_xor]
  have hclear : ∀ i < n, (low n c ^^^ c).getLsbD i = false := by
    intro i hi
    rw [BitVec.getLsbD_xor, getLsbD_low, decide_eq_true hi, Bool.true_and, Bool.xor_self]
  have hhigh : (low n c ^^^ c) >>> n = c >>> n := by
    apply BitVec.eq_of_getLsbD_eq
    intro i _
    rw [BitVec.getLsbD_ushiftRight, BitVec.getLsbD_ushiftRight, BitVec.getLsbD_xor, getLsbD_low,
      decide_eq_false (by omega), Bool.false_and, Bool.false_xor]
  have hlinear := bitSteps_xor poly n (low n c) (low n c ^^^ c)
  rw [← hsplit, bitSteps_clear poly hclear, hhigh] at hlinear
  exact hlinear

/-- A table with the steps for every byte takes the place of the steps. -/
theorem byteSteps_table {table : Fin 256 → BitVec w}
    (htable : ∀ i, table i = bitSteps poly 8 (BitVec.ofNat w i)) (c : BitVec w) (byte : UInt8) :
    table ((c ^^^ byte.toBitVec.setWidth w).setWidth 8).toFin ^^^ (c >>> 8) =
      byteSteps poly c byte := by
  have hbyte : (byte.toBitVec.setWidth w) >>> 8 = 0#w := by
    apply BitVec.eq_of_getLsbD_eq
    intro i _
    rw [BitVec.getLsbD_ushiftRight, BitVec.getLsbD_setWidth, BitVec.getLsbD_of_ge _ _ (by omega),
      Bool.and_false, BitVec.getLsbD_zero]
  have hmoved : (c ^^^ byte.toBitVec.setWidth w) >>> 8 = c >>> 8 := by
    rw [BitVec.ushiftRight_xor_distrib, hbyte, BitVec.xor_zero]
  have hindex : ∀ x : BitVec 8, BitVec.ofNat w x.toFin.val = x.setWidth w := fun x =>
    BitVec.eq_of_toNat_eq (by rw [BitVec.toNat_ofNat, BitVec.toNat_setWidth, BitVec.val_toFin])
  rw [byteSteps, bitSteps_low, hmoved, htable, hindex, low]

end MetaDigi.ReflectedCrc
