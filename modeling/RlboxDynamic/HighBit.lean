import Mathlib.Data.BitVec

/-! One flag kept in the highest bit of a machine word: setting it, clearing
it, reading it, and what the three do to each other and to the word's value. -/
namespace RlboxDynamic

/-- The word whose only set bit is the highest. -/
def highBit (w : Nat) : BitVec w := 1#w <<< (w - 1)

namespace HighBit
variable {w : Nat} {p q : BitVec w}

theorem getLsbD_highBit (i : Nat) : (highBit w).getLsbD i = decide (i + 1 = w) := by
  simp only [highBit, BitVec.getLsbD_shiftLeft, BitVec.getLsbD_one]
  grind

/-- Masking a word with the highest bit reads that bit. -/
theorem and_highBit_eq_zero : p &&& highBit w = 0#w ↔ p.msb = false := by
  constructor
  · intro masked
    have bit := congrArg (fun x => x.getLsbD (w - 1)) masked
    simp only [BitVec.getLsbD_and, getLsbD_highBit, BitVec.getLsbD_zero] at bit
    rw [BitVec.msb_eq_getLsbD_last]
    grind
  · intro clear
    ext i inside
    rw [BitVec.msb_eq_getLsbD_last] at clear
    simp only [← BitVec.getLsbD_eq_getElem, BitVec.getLsbD_and, getLsbD_highBit, BitVec.getLsbD_zero]
    grind

theorem clear_getLsbD (i : Nat) :
    (p &&& ~~~ highBit w).getLsbD i = (p.getLsbD i && decide (i + 1 ≠ w)) := by
  simp only [BitVec.getLsbD_and, BitVec.getLsbD_not, getLsbD_highBit]
  by_cases inside : i < w
  · simp [inside]
  · simp [BitVec.getLsbD_of_ge p i (by omega)]

theorem set_getLsbD (i : Nat) :
    (p ||| highBit w).getLsbD i = (p.getLsbD i || decide (i + 1 = w)) := by
  simp only [BitVec.getLsbD_or, getLsbD_highBit]

theorem msb_clear : (p &&& ~~~ highBit w).msb = false := by
  rw [BitVec.msb_eq_getLsbD_last, clear_getLsbD]
  cases w with
  | zero => simp
  | succ w => simp

theorem msb_set (wide : 0 < w) : (p ||| highBit w).msb = true := by
  rw [BitVec.msb_eq_getLsbD_last, set_getLsbD]
  simp [show w - 1 + 1 = w by omega]

/-- Clearing the bit changes nothing exactly on words that have it clear. -/
theorem clear_eq_self : p &&& ~~~ highBit w = p ↔ p.msb = false := by
  constructor
  · intro same
    rw [← same]
    exact msb_clear
  · intro clear
    ext i inside
    rw [BitVec.msb_eq_getLsbD_last] at clear
    simp only [← BitVec.getLsbD_eq_getElem, clear_getLsbD]
    grind

/-- Setting the bit changes nothing on words that already have it. -/
theorem set_eq_self (held : p.msb = true) : p ||| highBit w = p := by
  ext i inside
  rw [BitVec.msb_eq_getLsbD_last] at held
  simp only [← BitVec.getLsbD_eq_getElem, set_getLsbD]
  grind

theorem clear_set : (p ||| highBit w) &&& ~~~ highBit w = p &&& ~~~ highBit w := by
  ext i inside
  simp only [← BitVec.getLsbD_eq_getElem, clear_getLsbD, set_getLsbD]
  grind

theorem set_clear : (p &&& ~~~ highBit w) ||| highBit w = p ||| highBit w := by
  ext i inside
  simp only [← BitVec.getLsbD_eq_getElem, clear_getLsbD, set_getLsbD]
  grind

theorem clear_of_toNat_lt (bound : 2 * p.toNat < 2 ^ w) : p.msb = false := by
  cases w with
  | zero => simp [BitVec.msb_eq_getLsbD_last]
  | succ w =>
    rw [BitVec.msb_eq_decide, decide_eq_false_iff_not]
    simp only [Nat.add_sub_cancel, Nat.pow_succ] at bound ⊢
    omega

end HighBit
end RlboxDynamic
