import Mathlib.Algebra.Group.Nat.Defs
import Mathlib.Data.List.Basic

/-!
# Numbers as bytes

A number is kept in bytes of which the lowest comes first. The value of some
bytes and the low bytes of a number are inverse to each other, as far as the
number fits.
-/

namespace MetaDigi.LittleEndian

/-- The value of bytes of which the lowest comes first. -/
def valueOf : List UInt8 → ℕ
  | [] => 0
  | b :: bytes => b.toNat + 256 * valueOf bytes

/-- So many low bytes of a number. -/
def lowBytes : ℕ → ℕ → List UInt8
  | 0, _ => []
  | n + 1, value => UInt8.ofNat value :: lowBytes n (value / 256)

@[simp] theorem length_lowBytes (n value : ℕ) : (lowBytes n value).length = n := by
  induction n generalizing value with
  | zero => rfl
  | succ n ih => rw [lowBytes, List.length_cons, ih]

/-- Bytes are the low bytes of their value. -/
theorem lowBytes_valueOf (bytes : List UInt8) : lowBytes bytes.length (valueOf bytes) = bytes := by
  induction bytes with
  | nil => rfl
  | cons b bytes ih =>
    have hlow : (b.toNat + 256 * valueOf bytes) % 256 = b.toNat := by
      have hlt := b.toNat_lt
      omega
    have hhigh : (b.toNat + 256 * valueOf bytes) / 256 = valueOf bytes := by
      have hlt := b.toNat_lt
      omega
    rw [List.length_cons, lowBytes, valueOf, hhigh, ih]
    congr 1
    exact UInt8.toNat_inj.mp hlow

/-- The low bytes of a number have the value of the number, when it fits. -/
theorem valueOf_lowBytes {n value : ℕ} (hfits : value < 256 ^ n) :
    valueOf (lowBytes n value) = value := by
  induction n generalizing value with
  | zero =>
    rw [pow_zero] at hfits
    rw [lowBytes, valueOf]
    omega
  | succ n ih =>
    have hlow : (UInt8.ofNat value).toNat = value % 256 := UInt8.toNat_ofNat'
    have hrest : value / 256 < 256 ^ n := by
      rw [pow_succ] at hfits
      omega
    rw [lowBytes, valueOf, ih hrest, hlow]
    omega

end MetaDigi.LittleEndian
