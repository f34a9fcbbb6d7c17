import Rowset.Proofs.Decimal.Spelling

/-!
# Written decimals are read back

A decimal is written in one of four layouts: digits with an exponent behind `E` or behind `e+`, digits with zeros behind
them, and digits with a point among them.  Each is the text of a number literal (`writeMagnitude_spelled`), so it is
read back (`parse?_write`).  Only zeros that were written out have moved from the scale into the coefficient; the number
is the same, and it needs no more digits than before.
-/

namespace Rowset.Decimal

open Json Text

/-! ## Texts without a sign -/

/-- A text of a literal without a sign: its digits write `m`, and its scale is `s`. -/
def Spelled (cs : List Char) (m : Nat) (s : Int) : Prop :=
  ∃ (n : Numeral) (es : List Char), SpellsExponent n.exponent es ∧ n.negative = false ∧ cs = n.mantissaText ++ es ∧
    ofDigits (n.whole.chars ++ n.fractionDigits) = m ∧ n.fractionDigits.length - n.writtenExponent = s ∧
      n.writtenExponent.natAbs < 2 ^ 127

/-- It is read with either sign in front of it. -/
theorem Spelled.read {cs : List Char} {m : Nat} {s : Int} (h : Spelled cs m s) (hs : isScale s = true)
    (negative : Bool) :
    parse? ((if negative then ['-'] else []) ++ cs) = some ⟨if negative then -m else m, s⟩ := by
  obtain ⟨n, es, hes, hnegative, rfl, rfl, rfl, hsize⟩ := h
  have htext : (if negative then ['-'] else []) ++ (n.mantissaText ++ es) =
      { n with negative := negative }.mantissaText ++ es := by
    simp [Numeral.mantissaText, hnegative]
  rw [htext, parse?_spelled (n := { n with negative := negative }) hes]
  refine if_pos ⟨?_, hs⟩
  change -2 ^ 127 ≤ n.writtenExponent ∧ n.writtenExponent < 2 ^ 127
  omega

/-! ## The layouts -/

theorem spelled_whole (whole : DigitRun) : Spelled whole.chars (ofDigits whole.chars) 0 :=
  ⟨⟨false, whole, none, none⟩, [], .absent, rfl, by simp [Numeral.mantissaText], by simp [Numeral.fractionDigits], rfl,
    by simp [Numeral.writtenExponent]⟩

theorem spelled_point (whole fraction : DigitRun) :
    Spelled (whole.chars ++ '.' :: fraction.chars) (ofDigits (whole.chars ++ fraction.chars)) fraction.chars.length :=
  ⟨⟨false, whole, some fraction, none⟩, [], .absent, rfl, by simp [Numeral.mantissaText], rfl,
    by simp [Numeral.writtenExponent, Numeral.fractionDigits], by simp [Numeral.writtenExponent]⟩

/-- The exponent part with a given value. -/
def exponentOfInt (i : Int) : Exponent := ⟨i < 0, .ofNat i.natAbs⟩

theorem spells_explicitSign {mark : Char} (hm : mark = 'e' ∨ mark = 'E') (i : Int) :
    SpellsExponent (some (exponentOfInt i)) (mark :: explicitSign i) := by
  have h := SpellsExponent.signed hm (exponentOfInt i)
  simpa [exponentOfInt, explicitSign] using h

theorem spelled_exponent (whole : DigitRun) (fraction : Option DigitRun) {mark : Char} (hm : mark = 'e' ∨ mark = 'E')
    {i s : Int} (hi : i.natAbs < 2 ^ 127)
    (hs : (⟨false, whole, fraction, none⟩ : Numeral).fractionDigits.length - i = s) :
    Spelled ((⟨false, whole, fraction, none⟩ : Numeral).mantissaText ++ mark :: explicitSign i)
      (ofDigits (whole.chars ++ (⟨false, whole, fraction, none⟩ : Numeral).fractionDigits)) s := by
  have hvalue : (⟨false, whole, fraction, some (exponentOfInt i)⟩ : Numeral).writtenExponent = i := by
    simp only [Numeral.writtenExponent, exponentOfInt, DigitRun.value, DigitRun.chars_ofNat, ofDigits_digits,
      decide_eq_true_eq]
    split_ifs <;> omega
  exact ⟨⟨false, whole, fraction, some (exponentOfInt i)⟩, _, spells_explicitSign hm i, rfl, rfl, rfl,
    by rw [hvalue]; exact hs, by rw [hvalue]; exact hi⟩

/-- How many zeros are written out behind the digits. -/
def writtenZeros (s : Int) : Nat :=
  if s < -trailingZeroLimit then 0 else (-s).toNat

/-- A point put into a run of digits keeps the digits, and the places behind it are the scale. -/
theorem placePoint_spelled {ds : List Char} (hd : ∀ c ∈ ds, c.isDigit = true) {places : Nat} (hp : 0 < places) :
    Spelled (placePoint ds places) (ofDigits ds) places := by
  have hpadded : ∀ c ∈ List.replicate (places + 1 - ds.length) '0' ++ ds, c.isDigit = true :=
    List.forall_mem_append.mpr ⟨fun _ => isDigit_of_mem_zeros, hd⟩
  have hvalue : ofDigits (List.replicate (places + 1 - ds.length) '0' ++ ds) = ofDigits ds := by
    rw [ofDigits_append, ofDigits_zeros, Nat.mul_zero, Nat.zero_add]
  have hlength : places + 1 ≤ (List.replicate (places + 1 - ds.length) '0' ++ ds).length := by
    rw [List.length_append, List.length_replicate]
    omega
  unfold placePoint
  generalize List.replicate (places + 1 - ds.length) '0' ++ ds = padded at hpadded hvalue hlength
  have hfront : padded.take (padded.length - places) ≠ [] := by
    rw [ne_eq, List.take_eq_nil_iff, ← List.length_eq_zero_iff]
    omega
  have hback : padded.drop (padded.length - places) ≠ [] := by
    rw [ne_eq, List.drop_eq_nil_iff]
    omega
  have h := spelled_point (.of _ hfront fun c hc => hpadded c (List.mem_of_mem_take hc))
    (.of _ hback fun c hc => hpadded c (List.mem_of_mem_drop hc))
  have hplaces : padded.length - (padded.length - places) = places := by omega
  simpa only [DigitRun.of, List.take_append_drop, List.length_drop, hvalue, hplaces] using h

theorem writtenZeros_of_nonneg {s : Int} (h : 0 ≤ s) : writtenZeros s = 0 := by
  unfold writtenZeros
  split_ifs <;> omega

/-- Behind the first digit stands a point, if there is another digit. -/
theorem scientific_spelled {ds : List Char} (hne : ds ≠ []) (hd : ∀ c ∈ ds, c.isDigit = true) {s : Int}
    (hs : (ds.length - 1 - s).natAbs < 2 ^ 127) :
    Spelled (ds.take 1 ++ (if ds.length = 1 then [] else '.' :: ds.drop 1) ++ 'E' :: explicitSign (ds.length - 1 - s))
      (ofDigits ds) s := by
  obtain ⟨c, rest, rfl⟩ := List.exists_cons_of_ne_nil hne
  have hc : ∀ d ∈ [c], d.isDigit = true := by simpa using hd c List.mem_cons_self
  cases rest with
  | nil =>
    refine spelled_exponent (.of [c] (List.cons_ne_nil c []) hc) none (.inr rfl) hs ?_
    simp [Numeral.fractionDigits]
  | cons d rest =>
    have hrest : ∀ e ∈ d :: rest, e.isDigit = true := fun e he => hd e (List.mem_cons_of_mem c he)
    rw [if_neg (by simp)]
    refine spelled_exponent (.of [c] (List.cons_ne_nil c []) hc) (some (.of _ (List.cons_ne_nil d rest) hrest))
      (.inr rfl) hs ?_
    simp only [Numeral.fractionDigits, DigitRun.of, List.length_cons]
    omega

/-- What is written for a magnitude spells its coefficient and scale, the zeros written out counted in both. -/
theorem writeMagnitude_spelled {ds : List Char} (hne : ds ≠ []) (hd : ∀ c ∈ ds, c.isDigit = true) {s : Int}
    (hs : isScale s = true) :
    Spelled (writeMagnitude ds s) (ofDigits ds * 10 ^ writtenZeros s) (s + writtenZeros s) := by
  have hrange := isScale_iff.mp hs
  unfold writeMagnitude
  dsimp only
  by_cases hleading : leadingZeroLimit < s - ds.length
  · have hlimit : 5 < s - ds.length := hleading
    rw [if_pos hleading, writtenZeros_of_nonneg (by omega)]
    simpa using scientific_spelled hne hd (s := s) (by omega)
  rw [if_neg hleading]
  by_cases htrailing : s < -trailingZeroLimit
  · have h := spelled_exponent (.of ds hne hd) none (.inl rfl) (i := -s) (s := s) (by omega)
      (by simp [Numeral.fractionDigits])
    rw [if_pos htrailing, writtenZeros, if_pos htrailing]
    simpa [Numeral.mantissaText, Numeral.fractionDigits, DigitRun.of] using h
  rw [if_neg htrailing]
  by_cases hwhole : s ≤ 0
  · rw [if_pos hwhole, writtenZeros, if_neg htrailing]
    have hzeros : ∀ c ∈ ds ++ List.replicate (-s).toNat '0', c.isDigit = true :=
      List.forall_mem_append.mpr ⟨hd, fun _ => isDigit_of_mem_zeros⟩
    have h := spelled_whole (.of _ (List.append_ne_nil_of_left_ne_nil hne _) hzeros)
    have hscale : s + (-s).toNat = 0 := by omega
    rw [hscale]
    simpa [DigitRun.of, ofDigits_append, Nat.mul_comm] using h
  · rw [if_neg hwhole, writtenZeros_of_nonneg (by omega)]
    have h := placePoint_spelled hd (show 0 < s.toNat by omega)
    rw [Int.toNat_of_nonneg (by omega)] at h
    simpa using h

/-! ## What is read back -/

/-- The decimal with the zeros of its text in the coefficient.  Of zero nothing but the digit is written. -/
def expanded (d : Decimal) : Decimal :=
  let s := if d.isZero then 0 else d.scale
  ⟨d.coefficient * 10 ^ writtenZeros s, s + writtenZeros s⟩

theorem isScale_add_writtenZeros {s : Int} (hs : isScale s = true) : isScale (s + writtenZeros s) = true := by
  rw [isScale_iff] at hs ⊢
  unfold writtenZeros
  split_ifs <;> omega

theorem signed_mul (d : Decimal) (k : Nat) :
    (if d.isNegative then -((d.coefficient.natAbs * 10 ^ k : Nat) : Int) else (d.coefficient.natAbs * 10 ^ k : Nat)) =
      d.coefficient * 10 ^ k := by
  by_cases hneg : d.coefficient < 0
  · have habs : (d.coefficient.natAbs : Int) = -d.coefficient := by omega
    rw [if_pos (by simpa [isNegative] using hneg), Int.natCast_mul, habs, Int.neg_mul, Int.neg_neg, Int.natCast_pow]
    rfl
  · have habs : (d.coefficient.natAbs : Int) = d.coefficient := by omega
    rw [if_neg (by simpa [isNegative] using hneg), Int.natCast_mul, habs, Int.natCast_pow]
    rfl

/-- The text of a decimal is read as that decimal with its zeros written out. -/
theorem parse?_write {d : Decimal} (h : isScale d.scale = true) : parse? d.write = some d.expanded := by
  have hscale : isScale (if d.isZero then 0 else d.scale) = true := by
    split_ifs
    · rfl
    · exact h
  have hspelled := writeMagnitude_spelled (digits_ne_nil d.coefficient.natAbs) (fun _ => isDigit_of_mem_digits) hscale
  have hread := hspelled.read (isScale_add_writtenZeros hscale) d.isNegative
  rw [ofDigits_digits, signed_mul] at hread
  exact hread

/-- No blanks stand around the text of a decimal. -/
theorem trim_write {d : Decimal} (h : isScale d.scale = true) : trim d.write = d.write := by
  have hread := parse?_write h
  have hne : d.write ≠ [] := by
    intro hnil
    rw [hnil] at hread
    cases hread
  exact trim_of_nonblank hne fun c hc => isBlank_of_isNumeric ((parse?_sound hread).1 c hc)

/-- Zeros that were moved into the coefficient are moved back. -/
theorem stripZeros_shift (m k : Nat) (c s : Int) : stripZeros (m + k) (c * 10 ^ k) (s + k) = stripZeros m c s := by
  induction k with
  | zero => simp
  | succ k ih =>
    have hpow : c * 10 ^ (k + 1) = c * 10 ^ k * 10 := by rw [Int.pow_succ, Int.mul_assoc]
    have hdiv : c * 10 ^ (k + 1) / 10 = c * 10 ^ k := by omega
    have hscale : s + (k + 1 : Nat) - 1 = s + k := by omega
    rw [← Nat.add_assoc, stripZeros, if_pos (by omega), hdiv, hscale, ih]

theorem expanded_of_zero {d : Decimal} (h : d.isZero = true) : d.expanded = ⟨0, 0⟩ := by
  have hc : d.coefficient = 0 := by simpa [isZero] using h
  simp [expanded, h, hc, writtenZeros, trailingZeroLimit]

/-- Text keeps the number, not the pair: zeros written out become part of the coefficient. -/
theorem expanded_of_ne_zero {d : Decimal} (h : ¬d.isZero = true) :
    d.expanded = ⟨d.coefficient * 10 ^ writtenZeros d.scale, d.scale + writtenZeros d.scale⟩ := by
  simp [expanded, h]

theorem isZero_expanded (d : Decimal) : d.expanded.isZero = d.isZero := by
  by_cases h : d.isZero = true
  · rw [expanded_of_zero h, h]
    rfl
  · have hpow : (10 : Int) ^ writtenZeros d.scale ≠ 0 := Int.pow_ne_zero (by decide)
    rw [expanded_of_ne_zero h, Bool.eq_false_iff.mpr h]
    simpa [isZero, hpow] using h

theorem length_digits_expanded {d : Decimal} (h : ¬d.isZero = true) :
    d.expanded.digits.length = d.digits.length + writtenZeros d.scale := by
  have hc : d.coefficient ≠ 0 := by simpa [isZero] using h
  have habs (k : Nat) : (d.coefficient * 10 ^ k).natAbs = d.coefficient.natAbs * 10 ^ k := by
    rw [Int.natAbs_mul, Int.natAbs_pow]
    rfl
  rw [expanded_of_ne_zero h, digits, digits, habs, length_digits_mul (Int.natAbs_ne_zero.mpr hc)]

theorem numericallyEq_expanded (d : Decimal) : d.expanded.numericallyEq d = true := by
  rw [numericallyEq, beq_iff_eq, normal, normal, isZero_expanded]
  split_ifs with h
  · rfl
  · rw [length_digits_expanded h, expanded_of_ne_zero h, stripZeros_shift]

theorem integerDigits_expanded (d : Decimal) : d.expanded.integerDigits = d.integerDigits := by
  unfold integerDigits
  rw [isZero_expanded]
  split_ifs with h
  · rfl
  · have hinteger : (d.expanded.digits.length - d.expanded.scale : Int) = d.digits.length - d.scale := by
      rw [length_digits_expanded h, expanded_of_ne_zero h]
      dsimp only
      omega
    rw [hinteger]

theorem scaleDigits_expanded_le (d : Decimal) : d.expanded.scaleDigits ≤ d.scaleDigits := by
  by_cases h : d.isZero = true
  · rw [expanded_of_zero h]
    exact Nat.zero_le _
  · rw [expanded_of_ne_zero h, scaleDigits, scaleDigits, writtenZeros]
    dsimp only
    split_ifs <;> omega

/-- A decimal that fits its column still fits it when it comes back from text. -/
theorem fitsPrecision_expanded {d : Decimal} {precision : Nat} (h : d.fitsPrecision precision = true) :
    d.expanded.fitsPrecision precision = true := by
  rw [fitsPrecision, Bool.and_eq_true, decide_eq_true_eq, decide_eq_true_eq] at h ⊢
  rw [integerDigits_expanded]
  exact ⟨h.1, Nat.le_trans (scaleDigits_expanded_le d) h.2⟩

end Rowset.Decimal
