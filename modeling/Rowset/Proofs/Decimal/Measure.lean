import Mathlib.Algebra.Order.Field.Power
import Mathlib.Algebra.Order.Field.Rat
import Mathlib.Data.Rat.Cast.Order
import Mathlib.Tactic.Positivity
import Rowset.Decimal.Basic
import Rowset.Proofs.Text.Digits

/-!
# Digits and magnitude

A positive number is below a power of ten if it has at most so many digits (`Decimal.lt_zpow_iff`), for powers on
either side of one.  So the digits in front of the point measure the magnitude of a decimal
(`Decimal.fitsPrecision_iff`).
-/

namespace Rowset

namespace Decimal

open Text

theorem lt_zpow_iff {n : Nat} (hn : n ≠ 0) (k : Int) : (n : ℚ) < 10 ^ k ↔ ((Text.digits n).length : Int) ≤ k := by
  rcases le_or_gt 0 k with hk | hk
  · obtain ⟨k, rfl⟩ := Int.eq_ofNat_of_zero_le hk
    rw [zpow_natCast, Int.ofNat_le, length_digits_le_iff hn]
    exact_mod_cast Iff.rfl
  · have hpow : (10 : ℚ) ^ k < 1 := zpow_lt_one_of_neg₀ (by norm_num) hk
    have hone : (1 : ℚ) ≤ n := by exact_mod_cast Nat.one_le_iff_ne_zero.mpr hn
    have := length_digits_pos n
    constructor
    · intro h
      exact absurd (h.trans hpow) (not_lt.mpr hone)
    · omega

/-- The number that a decimal stands for, without its sign. -/
def magnitude (d : Decimal) : ℚ := d.coefficient.natAbs * 10 ^ (-d.scale)

theorem zpow_ten_pos (k : Int) : (0 : ℚ) < 10 ^ k := zpow_pos (by norm_num) k

theorem magnitude_lt_iff {d : Decimal} {p : Nat} :
    d.magnitude < 10 ^ p ↔ (d.coefficient.natAbs : ℚ) < 10 ^ (p + d.scale) := by
  rw [magnitude, zpow_neg, ← div_eq_mul_inv, div_lt_iff₀ (zpow_ten_pos d.scale), zpow_add₀ (by norm_num),
    zpow_natCast]

/-- The digits of the coefficient, less the places, tell below which powers of ten a decimal other than zero is. -/
theorem magnitude_lt_iff_length {d : Decimal} (h : d.coefficient ≠ 0) {p : Nat} :
    d.magnitude < 10 ^ p ↔ (d.digits.length : Int) - d.scale ≤ p := by
  rw [magnitude_lt_iff, lt_zpow_iff (Int.natAbs_ne_zero.mpr h), digits]
  omega

theorem toNat_clamp64_le_iff {n : Int} {p : Nat} (hp : p < 2 ^ 32) : (clamp64 n).toNat ≤ p ↔ n ≤ p := by
  simp only [clamp64]
  omega

/-- The count of digits decides how large the number is, in spite of the bound of 64 bits. -/
theorem integerDigits_le_iff {d : Decimal} {p : Nat} (hp : p < 2 ^ 32) :
    d.integerDigits ≤ p ↔ d.magnitude < 10 ^ p := by
  unfold integerDigits
  by_cases hzero : d.coefficient = 0
  · have hpow : (0 : ℚ) < 10 ^ p := by positivity
    simp [isZero, magnitude, hzero, hpow]
  · rw [if_neg (by simpa [isZero] using hzero), toNat_clamp64_le_iff hp, magnitude_lt_iff_length hzero]

theorem scaleDigits_le_iff {d : Decimal} {p : Nat} (hs : d.scale < 2 ^ 32 - 1) :
    d.scaleDigits ≤ p ↔ max d.scale 0 ≤ p := by
  unfold scaleDigits
  omega

/-- A decimal fits a precision if its magnitude is below that power of ten and it has no more places than that. -/
theorem fitsPrecision_iff {d : Decimal} {p : Nat} (hp : p < 2 ^ 32) (hs : d.scale < 2 ^ 32 - 1) :
    d.fitsPrecision p = true ↔ d.magnitude < 10 ^ p ∧ max d.scale 0 ≤ p := by
  rw [fitsPrecision, Bool.and_eq_true, decide_eq_true_eq, decide_eq_true_eq, integerDigits_le_iff hp,
    scaleDigits_le_iff hs]

end Decimal

end Rowset
