import Mathlib.Data.BitVec
import RlboxDynamic.StructLayout

/-! Rounding a machine word with a mask: `x & ~(a - 1)` down and
`(x + (a - 1)) & ~(a - 1)` up to a multiple of a power of two. Nothing here
names a particular program. -/
namespace RlboxDynamic.MaskRounding
open StructLayout

variable {w n : Nat} {a x : BitVec w}

private theorem toNat_sub_one (positive : 0 < a.toNat) : (a - 1).toNat = a.toNat - 1 := by
  have wide : 0 < w := by
    by_contra none
    obtain rfl : w = 0 := by omega
    have := a.isLt
    omega
  have one : (1 : BitVec w).toNat = 1 := BitVec.toNat_one wide
  rw [BitVec.toNat_sub_of_le (BitVec.le_def.mpr (by omega)), one]

/-- The mask clears the bits below `n`. -/
theorem toNat_mask_down (power : a.toNat = 2 ^ n) :
    (x &&& ~~~(a - 1)).toNat = x.toNat / a.toNat * a.toNat := by
  have positive := Nat.two_pow_pos n
  have ones : (a - 1).toNat = 2 ^ n - 1 := by rw [toNat_sub_one (by omega), power]
  rw [power]
  apply Nat.eq_of_testBit_eq
  intro i
  rw [BitVec.testBit_toNat, BitVec.getLsbD_and, BitVec.getLsbD_not, ← BitVec.testBit_toNat (a - 1),
    ones, Nat.testBit_two_pow_sub_one, Nat.testBit_mul_two_pow, Nat.testBit_div_two_pow]
  by_cases low : i < n
  · simp [low]
  · have high : n ≤ i := by omega
    have kept : i - n + n = i := by omega
    by_cases inside : i < w
    · simp [low, high, inside, kept, BitVec.testBit_toNat]
    · simp [low, inside, kept, BitVec.testBit_toNat, BitVec.getLsbD_of_ge x i (by omega)]

/-- Up to a multiple, the sum taken modulo the word. -/
theorem toNat_mask_up (power : a.toNat = 2 ^ n) :
    ((x + (a - 1)) &&& ~~~(a - 1)).toNat =
      (x.toNat + (a.toNat - 1)) % 2 ^ w / a.toNat * a.toNat := by
  have positive : 0 < a.toNat := power ▸ Nat.two_pow_pos n
  rw [toNat_mask_down power, BitVec.toNat_add, toNat_sub_one positive]

theorem toNat_mask_up_of_lt (power : a.toNat = 2 ^ n)
    (fits : x.toNat + (a.toNat - 1) < 2 ^ w) :
    ((x + (a - 1)) &&& ~~~(a - 1)).toNat = alignUp a.toNat x.toNat := by
  rw [toNat_mask_up power, Nat.mod_eq_of_lt fits, alignUp]

end RlboxDynamic.MaskRounding
