import Mathlib.Algebra.Order.Floor.Semiring
import Mathlib.Data.Nat.Digits.Lemmas
import Mathlib.Data.Rat.Floor
import Rowset.Proofs.Decimal.Grammar
import Rowset.Proofs.Decimal.Number

/-!
# What precision means

`integerDigits` counts the decimal digits of the integer part of a decimal, and `fitsPrecision` asks for a magnitude
below a power of ten and for no more places than that.  Both are computed from the length of the coefficient;
`measures_exact` says it of the number.
-/

namespace Rowset.Decimal

open Text

/-- How many decimal digits the integer part of the magnitude has, none for zero. -/
def wholeDigits (d : Decimal) : Nat :=
  (Nat.digits 10 ⌊|d.value|⌋₊).length

/-- A decimal that is read from a text or built from a coefficient and a 32-bit exponent. -/
inductive Built : Decimal → Prop
  | text {s : String} {d : Decimal} (h : Decimal.parse s = .ok d) : Built d
  | exponent (c : Int) {e : Int} (h : -2 ^ 31 ≤ e ∧ e < 2 ^ 31) : Built (.ofExponent c e)

variable {d : Decimal}

theorem Built.hasExponent (h : d.Built) : d.HasExponent := by
  cases h with
  | text h =>
    have hscale := isScale_iff.mp (parse?_sound (parse_eq_ok_iff.mp h)).2
    unfold HasExponent
    omega
  | exponent c h => exact hasExponent_ofExponent c h

/-! ## Digits in front of the point -/

theorem wholeDigits_le_iff {p : Nat} : d.wholeDigits ≤ p ↔ |d.value| < 10 ^ p := by
  rw [wholeDigits, Nat.digits_length_le_iff (by decide), Nat.floor_lt (abs_nonneg _), Nat.cast_pow, Nat.cast_ofNat]

theorem wholeDigits_eq_length (h : d.coefficient ≠ 0) : d.wholeDigits = (d.digits.length - d.scale).toNat := by
  refine eq_of_forall_ge_iff fun p => ?_
  rw [wholeDigits_le_iff, abs_value_lt_iff h, Int.toNat_le]

/-- The reported count is the true one, but for the bound of 64 bits. -/
theorem integerDigits_eq_min (d : Decimal) : d.integerDigits = min d.wholeDigits (2 ^ 63 - 1) := by
  unfold integerDigits
  by_cases h : d.coefficient = 0
  · rw [if_pos (by simpa [isZero] using h), wholeDigits, value_eq_zero_iff.mpr h]
    simp
  · rw [if_neg (by simpa [isZero] using h), wholeDigits_eq_length h, clamp64]
    omega

/-! ## The measures -/

theorem fitsPrecision_mono {p q : Nat} (hpq : p ≤ q) (h : d.fitsPrecision p = true) : d.fitsPrecision q = true := by
  rw [fitsPrecision, Bool.and_eq_true, decide_eq_true_eq, decide_eq_true_eq] at h ⊢
  exact ⟨h.1.trans hpq, h.2.trans hpq⟩

/-- The digits in front of the point are those of the integer part, as far as 64 bits can count them.  A decimal fits a
precision if its magnitude is below that power of ten and it is written with no more places than that, and then it fits
every greater precision. -/
theorem measures_exact (h : d.Built) :
    d.integerDigits = min d.wholeDigits (2 ^ 63 - 1) ∧ (|d.value| < 1 → d.integerDigits = 0) ∧
      (∀ p : UInt32, d.fitsPrecision p.toNat = true ↔
        |d.value| < 10 ^ p.toNat ∧ max (-d.exponent) 0 ≤ p.toNat) ∧
      ∀ p q : UInt32, p ≤ q → d.fitsPrecision p.toNat = true → d.fitsPrecision q.toNat = true := by
  have hexponent := h.hasExponent
  refine ⟨integerDigits_eq_min d, fun hlt => ?_, fun p => ?_, fun p q hpq => fitsPrecision_mono ?_⟩
  · have hnone : d.wholeDigits ≤ 0 := wholeDigits_le_iff.mpr (by simpa using hlt)
    rw [integerDigits_eq_min]
    omega
  · have hscale : d.scale < 2 ^ 32 - 1 := by
      have := hexponent.1
      omega
    rw [fitsPrecision_iff p.toNat_lt hscale, abs_value, hexponent.exponent_eq, Int.neg_neg]
  · exact UInt32.le_iff_toNat_le.mp hpq

theorem measures_exact_sample :
    Decimal.parse "-99.99" = .ok ⟨-9999, 2⟩ ∧ Decimal.integerDigits ⟨-9999, 2⟩ = 2 ∧
      Decimal.fitsPrecision ⟨-9999, 2⟩ 2 = true ∧ Decimal.fitsPrecision ⟨-9999, 2⟩ 1 = false := by
  have hparse : Decimal.parse "-99.99" = .ok ⟨-9999, 2⟩ := parse_eq_ok_iff.mpr rfl
  obtain ⟨hdigits, -, hfits, -⟩ := measures_exact (.text hparse)
  have hvalue : |Decimal.value ⟨-9999, 2⟩| = 9999 / 100 := by
    norm_num [value, abs_of_neg]
  have hbelow : Decimal.wholeDigits ⟨-9999, 2⟩ ≤ 2 := wholeDigits_le_iff.mpr (by norm_num [hvalue])
  have habove : ¬Decimal.wholeDigits ⟨-9999, 2⟩ ≤ 1 := fun h => by
    have hlt := wholeDigits_le_iff.mp h
    norm_num [hvalue] at hlt
  refine ⟨hparse, ?_, (hfits 2).mpr ⟨?_, by decide⟩, Bool.eq_false_iff.mpr fun h => ?_⟩
  · rw [hdigits]
    omega
  · rw [hvalue, show (2 : UInt32).toNat = 2 from rfl]
    norm_num
  · exact absurd ((hfits 1).mp h).2 (by decide)

end Rowset.Decimal
