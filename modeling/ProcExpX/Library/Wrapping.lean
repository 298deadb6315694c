import Mathlib.Algebra.Group.Int.Defs
import Mathlib.Algebra.Group.Nat.Defs
import Mathlib.Data.Int.Notation
import Mathlib.Data.Nat.Notation

/-!
# Signed values in unsigned 64-bit arithmetic

Mixed expressions of the C++ types compute modulo 2^64. A difference of signed values
comes out exactly as long as the true difference is not negative, whatever the signs
of the operands.
-/

namespace Library

/-- The unsigned view of a signed value, modulo 2^64. -/
theorem toNat_toUInt64 (x : Int64) : (x.toUInt64.toNat : ℤ) = x.toInt % 2 ^ 64 := by
  have hlt := x.toBitVec.isLt
  rw [← Int64.toNat_toBitVec, ← Int64.toInt_toBitVec, BitVec.toInt_eq_toNat_cond]
  split <;> omega

/-- The unsigned view of the difference of two ordered values is exact. -/
theorem toNat_toUInt64_sub {a b : Int64} (h : a.toInt ≤ b.toInt) :
    (b - a).toUInt64.toNat = (b.toInt - a.toInt).toNat := by
  have hmod := toNat_toUInt64 (b - a)
  rw [Int64.toInt_sub, show (2 : ℤ) ^ 64 = ((2 ^ 64 : ℕ) : ℤ) from rfl, Int.bmod_emod] at hmod
  have ha := a.le_toInt
  have hb := b.toInt_lt
  omega

/-- The increase of a sum of two values is exact when it fits. -/
theorem toNat_increase {a b a' b' : Int64} {d : ℕ} (hd : d < 2 ^ 64)
    (h : a'.toInt + b'.toInt = a.toInt + b.toInt + d) :
    (a'.toUInt64 + b'.toUInt64 - (b.toUInt64 + a.toUInt64)).toNat = d := by
  have ha := toNat_toUInt64 a
  have hb := toNat_toUInt64 b
  have ha' := toNat_toUInt64 a'
  have hb' := toNat_toUInt64 b'
  rw [UInt64.toNat_sub, UInt64.toNat_add, UInt64.toNat_add]
  omega

/-- The increase of a sum of two signed values is exact when it fits. -/
theorem toInt_increase {a b a' b' : Int64} {d : ℕ} (hd : d < 2 ^ 63)
    (h : a'.toInt + b'.toInt = a.toInt + b.toInt + d) : (a' + b' - a - b).toInt = d := by
  have ha := toNat_toUInt64 a
  have hb := toNat_toUInt64 b
  have ha' := toNat_toUInt64 a'
  have hb' := toNat_toUInt64 b'
  have hmod := toNat_toUInt64 (a' + b' - a - b)
  rw [Int64.toUInt64_sub, Int64.toUInt64_sub, Int64.toUInt64_add, UInt64.toNat_sub,
    UInt64.toNat_sub, UInt64.toNat_add] at hmod
  have hle := (a' + b' - a - b).le_toInt
  have hlt := (a' + b' - a - b).toInt_lt
  omega

/-- The increase of a sum of two unsigned values is exact when it fits. -/
theorem toNat_increase_unsigned {a b a' b' : UInt64} {d : ℕ} (hd : d < 2 ^ 64)
    (h : a'.toNat + b'.toNat = a.toNat + b.toNat + d) : (a' + b' - (b + a)).toNat = d := by
  rw [UInt64.toNat_sub, UInt64.toNat_add, UInt64.toNat_add]
  omega

/-- A signed product is exact when it fits. -/
theorem toInt_mul_of_lt {x y : Int64} (hle : 0 ≤ x.toInt * y.toInt)
    (hlt : x.toInt * y.toInt < 2 ^ 63) : (x * y).toInt = x.toInt * y.toInt := by
  rw [Int64.toInt_mul]
  apply Int.bmod_eq_of_le <;> omega

/-- What a signed product leaves of a value that it does not exceed is exact. -/
theorem toInt_sub_mul {x y z : Int64} (hle : 0 ≤ y.toInt * z.toInt)
    (hx : y.toInt * z.toInt ≤ x.toInt) : (x - y * z).toInt = x.toInt - y.toInt * z.toInt := by
  have hlt := x.toInt_lt
  rw [Int64.toInt_sub, toInt_mul_of_lt hle (by omega)]
  apply Int.bmod_eq_of_le <;> omega

/-- The quotient of a signed value that is not negative by a positive one is rounded
down. -/
theorem toInt_div_of_nonneg {x y : Int64} (hx : 0 ≤ x.toInt) (hy : 0 < y.toInt) :
    (x / y).toInt = x.toInt / y.toInt := by
  have hne : y ≠ -1 := by
    rintro rfl
    exact absurd hy (by decide)
  rw [Int64.toInt_div_of_ne_right _ _ hne, Int.tdiv_eq_ediv_of_nonneg hx]

/-- What a quotient leaves of a value that is not negative is the remainder. -/
theorem toInt_remainder {x y q : Int64} (hx : 0 ≤ x.toInt) (hy : 0 < y.toInt)
    (hq : q.toInt = x.toInt / y.toInt) : (x - q * y).toInt = x.toInt % y.toInt := by
  have hproduct : 0 ≤ q.toInt * y.toInt := by
    rw [hq]
    exact Int.mul_nonneg (Int.ediv_nonneg hx (Int.le_of_lt hy)) (Int.le_of_lt hy)
  have hle : q.toInt * y.toInt ≤ x.toInt := by
    rw [hq]
    exact Int.ediv_mul_le _ (Int.ne_of_gt hy)
  rw [toInt_sub_mul hproduct hle, hq, Int.emod_def, Int.mul_comm]

/-- A small signed value is kept by the conversion to 32 bits. -/
theorem toInt_toInt32_of_lt {x : Int64} (hle : 0 ≤ x.toInt) (hlt : x.toInt < 2 ^ 31) :
    x.toInt32.toInt = x.toInt := by
  rw [Int64.toInt_toInt32]
  apply Int.bmod_eq_of_le <;> omega

/-- A small unsigned value is kept by the conversion to signed 32 bits. -/
theorem toInt_toInt32_of_toNat_lt {x : UInt64} (hlt : x.toNat < 2 ^ 31) :
    x.toUInt32.toInt32.toInt = x.toNat :=
  Int32.toInt_ofNat_of_lt (n := x.toNat) hlt

/-- An unsigned 32-bit value is kept by the conversion to signed 64 bits. -/
theorem toInt_toInt64_of_uint32 (n : UInt32) : n.toUInt64.toInt64.toInt = n.toNat := by
  have hmod := toNat_toUInt64 n.toUInt64.toInt64
  rw [UInt64.toUInt64_toInt64, UInt32.toNat_toUInt64] at hmod
  have hle := n.toUInt64.toInt64.le_toInt
  have hlt := n.toUInt64.toInt64.toInt_lt
  have hn := n.toNat_lt
  omega

end Library
