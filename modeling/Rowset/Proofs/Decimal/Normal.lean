import Mathlib.Tactic.Ring
import Rowset.Proofs.Decimal.Number

/-!
# Numerically equal decimals

The normal form of a decimal has no zeros at the end of its coefficient.  It stands for the same number
(`value_lowest`), and there is only one such form for a number (`Stripped.unique`), so decimals have the same normal
form if they are the same number: `numericallyEq_iff`.
-/

namespace Rowset.Decimal

open Text

/-- The coefficient does not end in zero. -/
def Stripped (d : Decimal) : Prop := ¬(10 : Int) ∣ d.coefficient

/-- The normal form as a decimal. -/
def lowest (d : Decimal) : Decimal := ⟨d.normal.1, d.normal.2⟩

variable {d e : Decimal}

/-! ## Moving zeros into the scale -/

theorem value_shift (c s : Int) (k : Nat) : value ⟨c * 10 ^ k, s⟩ = value ⟨c, s - k⟩ := by
  have hexponent : -(s - k) = k + -s := by omega
  simp only [value, Int.cast_mul, Int.cast_pow, Int.cast_ofNat, hexponent, zpow_add₀ (by norm_num : (10 : ℚ) ≠ 0),
    zpow_natCast]
  ring

/-- Dropping trailing zeros does not change the number, however many rounds it takes. -/
theorem value_stripZeros (n : Nat) (c s : Int) :
    value ⟨(stripZeros n c s).1, (stripZeros n c s).2⟩ = value ⟨c, s⟩ := by
  induction n generalizing c s with
  | zero => rfl
  | succ n ih =>
    unfold stripZeros
    split_ifs with h
    · have htenth : c / 10 * 10 ^ 1 = c := by omega
      rw [ih, ← Nat.cast_one, ← value_shift, htenth]
    · rfl

/-- With fuel for all digits, all zeros at the end are moved. -/
theorem stripped_stripZeros {n : Nat} {c : Int} (hc : c ≠ 0) (hn : c.natAbs < 10 ^ n) (s : Int) :
    Stripped ⟨(stripZeros n c s).1, (stripZeros n c s).2⟩ := by
  induction n generalizing c s with
  | zero =>
    rw [Nat.pow_zero] at hn
    omega
  | succ n ih =>
    unfold stripZeros
    rw [Nat.pow_succ] at hn
    split_ifs with h
    · exact ih (by omega) (by omega) (s - 1)
    · exact fun hdvd => h (Int.emod_eq_zero_of_dvd hdvd)

/-! ## The normal form -/

theorem normal_of_zero (h : d.coefficient = 0) : d.normal = (0, 0) := if_pos (by simpa [isZero] using h)

theorem normal_of_ne_zero (h : d.coefficient ≠ 0) :
    d.normal = stripZeros d.digits.length d.coefficient d.scale := if_neg (by simpa [isZero] using h)

theorem value_lowest (d : Decimal) : d.lowest.value = d.value := by
  by_cases h : d.coefficient = 0
  · rw [lowest, normal_of_zero h, value_eq_zero_iff.mpr h, value_eq_zero_iff]
  · rw [lowest, normal_of_ne_zero h, value_stripZeros]

/-- With as many rounds as there are digits, no trailing zero is left. -/
theorem stripped_lowest (h : d.coefficient ≠ 0) : d.lowest.Stripped := by
  rw [lowest, normal_of_ne_zero h]
  refine stripped_stripZeros h ?_ d.scale
  exact (length_digits_le_iff (Int.natAbs_ne_zero.mpr h) _).mp le_rfl

/-- With more places than another decimal of its value, a coefficient ends in zero. -/
theorem Stripped.scale_le (hd : d.Stripped) (h : d.value = e.value) : d.scale ≤ e.scale := by
  by_contra! hlt
  obtain ⟨k, hk⟩ : ∃ k : Nat, d.scale = e.scale + (k + 1 : Nat) := ⟨(d.scale - e.scale).toNat - 1, by omega⟩
  have hshift : value ⟨e.coefficient * 10 ^ (k + 1), d.scale⟩ = e.value := by
    rw [value_shift, hk, Int.add_sub_cancel]
  have hcoefficient : d.coefficient = e.coefficient * 10 ^ (k + 1) := by
    have hsame := h.trans hshift.symm
    simp only [value] at hsame
    exact_mod_cast mul_right_cancel₀ (zpow_ten_pos _).ne' hsame
  exact hd ⟨e.coefficient * 10 ^ k, by rw [hcoefficient, pow_succ]; ring⟩

/-- Two decimals without trailing zeros are equal once they are the same number. -/
theorem Stripped.unique (hd : d.Stripped) (he : e.Stripped) (h : d.value = e.value) : d = e := by
  have hscale : d.scale = e.scale := le_antisymm (hd.scale_le h) (he.scale_le h.symm)
  have hcoefficient : d.coefficient = e.coefficient := by
    simp only [value, hscale] at h
    exact_mod_cast mul_right_cancel₀ (zpow_ten_pos _).ne' h
  exact congrArg₂ Decimal.mk hcoefficient hscale

/-- Decimals are compared as the numbers that they stand for. -/
theorem numericallyEq_iff : d.numericallyEq e = true ↔ d.value = e.value := by
  rw [numericallyEq, beq_iff_eq]
  constructor
  · intro h
    rw [← value_lowest d, ← value_lowest e, lowest, lowest, h]
  · intro h
    by_cases hd : d.coefficient = 0
    · have he : e.coefficient = 0 := value_eq_zero_iff.mp (h ▸ value_eq_zero_iff.mpr hd)
      rw [normal_of_zero hd, normal_of_zero he]
    · have he : e.coefficient ≠ 0 := fun he => hd (value_eq_zero_iff.mp (h ▸ value_eq_zero_iff.mpr he))
      have hlowest : d.lowest = e.lowest :=
        (stripped_lowest hd).unique (stripped_lowest he) (by rw [value_lowest, value_lowest, h])
      obtain ⟨hfirst, hsecond⟩ := Decimal.mk.inj hlowest
      exact Prod.ext hfirst hsecond

end Rowset.Decimal
