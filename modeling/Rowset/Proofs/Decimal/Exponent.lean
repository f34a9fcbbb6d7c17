import Rowset.Proofs.Decimal.Parts

/-!
# The exponent in 32 bits

A decimal reports the exponent of ten in 32 bits, on its own and among its parts.  `Nearest32` says what is to be
reported of an exponent that does not fit: the end of the range on its side.  A decimal reports the nearest exponent
unless the true one is above the range, and then it reports the wrong end (`exponent_nearest_iff`).
-/

namespace Rowset.Decimal

/-- The number `e` fits 32 bits, and no other that fits is nearer to `n`. -/
structure Nearest32 (n e : Int) : Prop where
  fits : -2 ^ 31 ≤ e ∧ e < 2 ^ 31
  nearest : ∀ k, -2 ^ 31 ≤ k ∧ k < 2 ^ 31 → (n - e).natAbs ≤ (n - k).natAbs

variable {m n k l : Int}

/-! ## The nearest integer -/

/-- What fits is nearest to itself, and what does not is nearest to the end of the range on its side. -/
theorem nearest32_iff : Nearest32 n k ↔ k = max (-2 ^ 31) (min n (2 ^ 31 - 1)) := by
  constructor
  · rintro ⟨⟨hlow, hhigh⟩, hnearest⟩
    have hclamped := hnearest (max (-2 ^ 31) (min n (2 ^ 31 - 1))) ⟨by omega, by omega⟩
    omega
  · rintro rfl
    refine ⟨⟨by omega, by omega⟩, fun k hk => ?_⟩
    obtain ⟨hlow, hhigh⟩ := hk
    omega

theorem Nearest32.mono (hm : Nearest32 m k) (hn : Nearest32 n l) (h : m ≤ n) : k ≤ l := by
  rw [nearest32_iff] at hm hn
  omega

/-! ## The reported exponent -/

variable {d : Decimal}

theorem exponent_of_not_hasExponent (h : ¬d.HasExponent) : d.exponent = -2 ^ 31 := if_neg h

theorem nearest32_exponent_iff : Nearest32 (-d.scale) d.exponent ↔ -d.scale < 2 ^ 31 := by
  rw [nearest32_iff]
  unfold exponent
  split_ifs <;> omega

/-- The parts of a decimal report its exponent, also where a decimal may be absent.  An exponent that fits is reported
as it is, one below the range by its lower end, and one above the range by its lower end as well, which is not the
nearest.  So a greater scale never gives a greater exponent, as long as the true exponents are not above the range. -/
theorem exponent_nearest_iff (d : Decimal) :
    (∀ buffer, (d.decompose buffer).1.exponent = d.exponent ∧
        (decompose? (some d) buffer).1.exponent = d.exponent) ∧
      (d.HasExponent → d.exponent = -d.scale) ∧ (¬d.HasExponent → d.exponent = -2 ^ 31) ∧
      (Nearest32 (-d.scale) d.exponent ↔ -d.scale < 2 ^ 31) ∧
      ∀ e : Decimal, e.scale ≤ d.scale → -e.scale < 2 ^ 31 → d.exponent ≤ e.exponent := by
  refine ⟨fun buffer => ⟨(describes_decompose d buffer).exponent, (describes_decompose d buffer).exponent⟩,
    HasExponent.exponent_eq, exponent_of_not_hasExponent, nearest32_exponent_iff, fun e hscale he => ?_⟩
  have hd : -d.scale < 2 ^ 31 := by omega
  exact (nearest32_exponent_iff.mpr hd).mono (nearest32_exponent_iff.mpr he) (by omega)

/-- An exponent below the range is reported by the nearest 32-bit integer. -/
theorem exponent_nearest_iff_sample :
    ¬HasExponent ⟨7, 2 ^ 40⟩ ∧ exponent ⟨7, 2 ^ 40⟩ = -2 ^ 31 ∧ Nearest32 (-(2 ^ 40)) (exponent ⟨7, 2 ^ 40⟩) ∧
      exponent ⟨7, 2 ^ 40⟩ ≤ exponent ⟨3, -2⟩ := by
  obtain ⟨-, -, hunfit, hnearest, hmono⟩ := exponent_nearest_iff ⟨7, 2 ^ 40⟩
  have hbelow : ¬HasExponent ⟨7, 2 ^ 40⟩ := fun h => absurd h.1 (by decide)
  exact ⟨hbelow, hunfit hbelow, hnearest.mpr (by decide), hmono ⟨3, -2⟩ (by decide) (by decide)⟩

/-- The first exponent above the range is reported by the lower end of the range, which is not the nearest number to
it, and is less than what is reported of the exponent below it. -/
theorem exponent_past_range :
    exponent ⟨1, -2 ^ 31⟩ = -2 ^ 31 ∧ Nearest32 (2 ^ 31) (2 ^ 31 - 1) ∧
      ¬Nearest32 (-(⟨1, -2 ^ 31⟩ : Decimal).scale) (exponent ⟨1, -2 ^ 31⟩) ∧
      (∀ buffer, (decompose ⟨1, -2 ^ 31⟩ buffer).1.exponent = -2 ^ 31) ∧
      exponent ⟨1, -2 ^ 31⟩ < exponent ⟨1, -2 ^ 31 + 1⟩ := by
  refine ⟨rfl, nearest32_iff.mpr (by decide), fun h => ?_, fun buffer => ?_, by decide⟩
  · exact absurd (nearest32_exponent_iff.mp h) (by decide)
  · exact (describes_decompose _ buffer).exponent

end Rowset.Decimal
