import Mathlib.Algebra.Order.Ring.Cast
import Mathlib.Tactic.NormNum
import Rowset.Proofs.Decimal.Measure

/-!
# Decimals as rational numbers

A decimal stands for its coefficient times a power of ten (`value`).  One of the powers on either side of the point is
one (`value_eq_div`), and the digits of the coefficient tell how large the number is, so a decimal is turned into a
64-bit integer exactly if it is one (`toInt64?_exact`).
-/

namespace Rowset.Decimal

/-- The number that a decimal stands for. -/
def value (d : Decimal) : ℚ := d.coefficient * 10 ^ (-d.scale)

variable {d : Decimal}

theorem abs_value (d : Decimal) : |d.value| = d.magnitude := by
  rw [value, magnitude, abs_mul, abs_of_pos (zpow_ten_pos _), Nat.cast_natAbs, Int.cast_abs]

theorem value_eq_zero_iff : d.value = 0 ↔ d.coefficient = 0 := by
  rw [value, mul_eq_zero, or_iff_left (zpow_ten_pos _).ne', Int.cast_eq_zero]

theorem value_neg_iff : d.value < 0 ↔ d.coefficient < 0 := by
  rw [← not_le, ← not_le, value, mul_nonneg_iff_of_pos_right (zpow_ten_pos _), Int.cast_nonneg_iff]

theorem abs_value_lt_iff (h : d.coefficient ≠ 0) {p : Nat} :
    |d.value| < 10 ^ p ↔ (d.digits.length : Int) - d.scale ≤ p := by
  rw [abs_value, magnitude_lt_iff_length h]

/-- The point is moved up or down. -/
theorem value_eq_div (d : Decimal) : d.value = d.coefficient * 10 ^ (-d.scale).toNat / 10 ^ d.scale.toNat := by
  have hpow : (10 : ℚ) ^ (-d.scale) = 10 ^ (-d.scale).toNat / 10 ^ d.scale.toNat := by
    rw [← zpow_natCast, ← zpow_natCast, ← zpow_sub₀ (by norm_num)]
    congr 1
    omega
  rw [value, hpow, mul_div_assoc]

/-- The exponent of a decimal fits 32 bits. -/
def HasExponent (d : Decimal) : Prop :=
  -2 ^ 31 ≤ -d.scale ∧ -d.scale < 2 ^ 31

theorem HasExponent.exponent_eq (h : d.HasExponent) : d.exponent = -d.scale := if_pos h

theorem hasExponent_ofExponent (c : Int) {e : Int} (h : -2 ^ 31 ≤ e ∧ e < 2 ^ 31) : (ofExponent c e).HasExponent := by
  simpa [HasExponent, ofExponent] using h

/-! ## Whole numbers -/

theorem value_of_dvd (h : (10 ^ d.scale.toNat : Int) ∣ d.coefficient) :
    d.value = (d.coefficient * 10 ^ (-d.scale).toNat / 10 ^ d.scale.toNat : Int) := by
  rw [value_eq_div, Int.cast_div (h.mul_right _) (by positivity)]
  push_cast
  rfl

/-- The places of a whole number are zeros. -/
theorem dvd_of_value_eq {n : Int} (h : d.value = n) : (10 ^ d.scale.toNat : Int) ∣ d.coefficient := by
  have hdown : (10 : ℚ) ^ d.scale.toNat ≠ 0 := by positivity
  rw [value_eq_div, div_eq_iff hdown] at h
  have hmul : d.coefficient * 10 ^ (-d.scale).toNat = n * 10 ^ d.scale.toNat := by exact_mod_cast h
  rcases le_total d.scale 0 with hs | hs
  · rw [Int.toNat_of_nonpos hs, pow_zero]
    exact one_dvd _
  · have hup : (-d.scale).toNat = 0 := by omega
    rw [hup, pow_zero, mul_one] at hmul
    exact ⟨n, by rw [hmul, mul_comm]⟩

/-- With no more digits than places, a number is below one. -/
theorem value_ne_of_length_le (h : d.coefficient ≠ 0) (hs : d.digits.length ≤ d.scale) (n : Int) : d.value ≠ n := by
  intro hn
  have hlt : |d.value| < 10 ^ 0 := (abs_value_lt_iff h).mpr (by omega)
  rw [hn, pow_zero] at hlt
  have hzero : n = 0 := Int.abs_lt_one_iff.mp (by exact_mod_cast hlt)
  rw [hzero, Int.cast_zero, value_eq_zero_iff] at hn
  exact h hn

/-- With more than nineteen digits in front of the point, a number does not fit 64 bits. -/
theorem value_ne_of_lt_length (h : d.coefficient ≠ 0) (hs : 19 < d.digits.length - d.scale) {n : Int}
    (hn : -2 ^ 63 ≤ n ∧ n < 2 ^ 63) : d.value ≠ n := by
  intro hvalue
  have hge : ¬|d.value| < 10 ^ 19 := fun hlt => by
    have := (abs_value_lt_iff h).mp hlt
    omega
  rw [hvalue] at hge
  have habs : ¬|n| < 10 ^ 19 := by exact_mod_cast hge
  exact habs (abs_lt.mpr (by omega))

theorem int64Digits_lt_clamp64 {n : Int} : int64Digits < clamp64 n ↔ 19 < n := by
  simp only [int64Digits, clamp64]
  omega

/-- The numbers that are converted are the integers of 64 bits, and each becomes itself. -/
theorem toInt64?_eq_some_iff {n : Int} : d.toInt64? = some n ↔ d.value = n ∧ -2 ^ 63 ≤ n ∧ n < 2 ^ 63 := by
  unfold toInt64?
  by_cases hzero : d.coefficient = 0
  · rw [if_pos (by simpa [isZero] using hzero), value_eq_zero_iff.mpr hzero, Option.some.injEq]
    constructor
    · rintro rfl
      exact ⟨Int.cast_zero.symm, by decide⟩
    · exact fun h => by exact_mod_cast h.1
  rw [if_neg (by simpa [isZero] using hzero)]
  -- The two shortcuts by the number of digits refuse numbers that are out of range or no integers.
  by_cases hlarge : 19 < d.digits.length - d.scale
  · rw [if_pos (by simp [int64Digits_lt_clamp64, hlarge])]
    exact iff_of_false (Option.some_ne_none n).symm fun h => value_ne_of_lt_length hzero hlarge h.2 h.1
  by_cases hsmall : d.digits.length ≤ d.scale
  · rw [if_pos (by simp [hsmall])]
    exact iff_of_false (Option.some_ne_none n).symm fun h => value_ne_of_length_le hzero hsmall n h.1
  rw [if_neg (by simp [int64Digits_lt_clamp64, hlarge, hsmall])]
  simp only [Int.pow_eq]
  by_cases hdvd : (10 ^ d.scale.toNat : Int) ∣ d.coefficient
  · rw [if_neg (by simpa using Int.emod_eq_zero_of_dvd hdvd), value_of_dvd hdvd, Int.cast_inj,
      Option.ite_none_right_eq_some, Option.some.injEq]
    constructor
    · rintro ⟨hrange, rfl⟩
      exact ⟨rfl, hrange⟩
    · rintro ⟨rfl, hrange⟩
      exact ⟨hrange, rfl⟩
  · rw [if_pos fun h => hdvd (Int.dvd_of_emod_eq_zero h)]
    exact iff_of_false (Option.some_ne_none n).symm fun h => hdvd (dvd_of_value_eq h.1)

/-- A decimal is turned into the 64-bit integer that it is, whatever its scale; a fraction and a number out of range
are turned into none. -/
theorem toInt64?_exact (d : Decimal) :
    (∀ n : Int, d.toInt64? = some n ↔ d.value = n ∧ -2 ^ 63 ≤ n ∧ n < 2 ^ 63) ∧
      (d.toInt64? = none ↔ (∀ n : Int, d.value ≠ n) ∨ d.value < -2 ^ 63 ∨ 2 ^ 63 ≤ d.value) := by
  refine ⟨fun n => toInt64?_eq_some_iff, ?_⟩
  rw [Option.eq_none_iff_forall_ne_some]
  constructor
  · intro h
    by_contra! hexact
    obtain ⟨⟨n, hn⟩, hlow, hhigh⟩ := hexact
    rw [hn] at hlow hhigh
    exact h n (toInt64?_eq_some_iff.mpr ⟨hn, by exact_mod_cast hlow, by exact_mod_cast hhigh⟩)
  · intro h n hn
    obtain ⟨hvalue, hlow, hhigh⟩ := toInt64?_eq_some_iff.mp hn
    rw [hvalue] at h
    rcases h with hfraction | hless | hmore
    · exact hfraction n rfl
    · have hless' : n < -2 ^ 63 := by exact_mod_cast hless
      omega
    · have hmore' : 2 ^ 63 ≤ n := by exact_mod_cast hmore
      omega

end Rowset.Decimal
