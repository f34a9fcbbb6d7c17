import Mathlib.Tactic.NormNum
import Rowset.Proofs.Decimal.Measure
import Rowset.Proofs.Decimal.Spelling
import Rowset.Proofs.Value.Shape

/-!
# Quoted numbers

A number literal can be sent as it is or as a string, between blanks.  It is decoded to the same decimal and to the same
long in either form, and no digit of it is lost: `FitsDecimal` and `FitsLong` say when, and `decode_literal` is the main
statement.
-/

namespace Rowset

open Json Text

/-! ## What a literal stands for -/

namespace Json.Numeral

/-- The decimal with the digits of a literal: its exponent counts the places behind the point off the written one. -/
def decimal (n : Numeral) : Decimal :=
  .ofExponent n.coefficient (n.writtenExponent - n.fractionDigits.length)

/-- The digits, the places and the exponent of a literal fit a decimal type of the given precision. -/
structure FitsDecimal (n : Numeral) (precision : Nat) : Prop where
  least : -(2 ^ 31 - 1) ≤ n.fractionDigits.length - n.writtenExponent
  greatest : n.fractionDigits.length - n.writtenExponent ≤ 2 ^ 31 - 1
  magnitude : (n.coefficient.natAbs : ℚ) * 10 ^ (n.writtenExponent - n.fractionDigits.length) < 10 ^ precision
  places : max (n.fractionDigits.length - n.writtenExponent) 0 ≤ precision

/-- A literal is a 64-bit integer. -/
structure FitsLong (n : Numeral) : Prop where
  fraction : n.fraction = none
  exponent : n.exponent = none
  range : -2 ^ 63 ≤ n.coefficient ∧ n.coefficient < 2 ^ 63

/-- The JSON values of a literal with the text `cs`: the number itself, and its text as a string between blanks. -/
inductive Carries (n : Numeral) (cs : List Char) : Json → Prop
  | number : Carries n cs (.number n)
  | string {before after : List Char} (hb : ∀ c ∈ before, isBlank c = true) (ha : ∀ c ∈ after, isBlank c = true) :
      Carries n cs (.string (String.ofList (before ++ cs ++ after)))

variable {n : Numeral} {cs : List Char} {v : Json}

theorem Carries.ne_null (h : n.Carries cs v) : v ≠ .null := by
  cases h <;> nofun

theorem Literal.length_fractionDigits_le (h : n.Literal cs) : n.fractionDigits.length ≤ cs.length := by
  obtain ⟨-, es, -, rfl⟩ := h
  unfold fractionDigits mantissaText
  cases n.fraction with
  | none => exact Nat.zero_le _
  | some r =>
    simp only [List.length_append, List.length_cons]
    omega

theorem trim_literal (h : n.Literal cs) {before after : List Char} (hb : ∀ c ∈ before, isBlank c = true)
    (ha : ∀ c ∈ after, isBlank c = true) : trim (before ++ cs ++ after) = cs := by
  obtain ⟨-, es, hes, rfl⟩ := h
  refine trim_blanks hb ha ?_ fun c hc => Decimal.isBlank_of_isNumeric (isNumeric_spelled hes c hc)
  simp [mantissaText, n.whole.ne_nil]

/-- The text of a literal is that of an integer if it has neither a fraction nor an exponent. -/
theorem parseInt?_spelled {es : List Char} (h : SpellsExponent n.exponent es) :
    parseInt? (n.mantissaText ++ es) = n.toInt? := by
  have hnone {c : Char} (hmem : c ∈ n.mantissaText ++ es) (hd : c.isDigit = false) (hp : c ≠ '+') (hm : c ≠ '-') :
      parseInt? (n.mantissaText ++ es) = none := by
    refine Option.eq_none_iff_forall_ne_some.mpr fun i hi => ?_
    rcases isDigit_or_sign_of_parseInt? hi c hmem with h | h | h
    · rw [hd] at h
      contradiction
    · exact hp h
    · exact hm h
  obtain ⟨negative, whole, fraction, exponent⟩ := n
  cases fraction with
  | some r => exact hnone (c := '.') (by simp [mantissaText]) rfl (by decide) (by decide)
  | none =>
    cases h with
    | absent =>
      have hrun : ∀ c ∈ whole.chars, c.isDigit = true := fun _ => DigitRun.isDigit_of_mem
      cases negative with
      | true => simpa [mantissaText, toInt?, coefficient, fractionDigits] using parseInt?_minus whole.ne_nil hrun
      | false => simpa [mantissaText, toInt?, coefficient, fractionDigits] using parseInt?_digits whole.ne_nil hrun
    | signed hm | unsigned hm =>
      rcases hm with rfl | rfl
      · exact hnone (c := 'e') (by simp) rfl (by decide) (by decide)
      · exact hnone (c := 'E') (by simp) rfl (by decide) (by decide)

theorem decimal_eq (n : Numeral) : n.decimal = ⟨n.coefficient, n.fractionDigits.length - n.writtenExponent⟩ := by
  rw [decimal, Decimal.ofExponent, Int.neg_sub]

/-- A numeral fits a decimal column exactly when its scale can be held and its digits fit the precision. -/
theorem fitsDecimal_iff {precision : Nat} (hp : precision < 2 ^ 32) :
    n.FitsDecimal precision ↔
      Decimal.isScale (n.fractionDigits.length - n.writtenExponent) = true ∧
        n.decimal.fitsPrecision precision = true := by
  have hmagnitude : n.decimal.magnitude =
      n.coefficient.natAbs * 10 ^ (n.writtenExponent - n.fractionDigits.length) := by
    rw [Decimal.magnitude, decimal, Decimal.ofExponent, Int.neg_neg]
  have hfits (hscale : n.fractionDigits.length - n.writtenExponent ≤ 2 ^ 31 - 1) :
      n.decimal.fitsPrecision precision = true ↔ _ :=
    Decimal.fitsPrecision_iff hp (by rw [decimal_eq]; dsimp only; omega)
  rw [hmagnitude, decimal_eq] at hfits
  rw [Decimal.isScale_iff, decimal_eq]
  constructor
  · rintro ⟨hleast, hgreatest, hmagnitude, hplaces⟩
    exact ⟨⟨hleast, hgreatest⟩, (hfits hgreatest).mpr ⟨hmagnitude, hplaces⟩⟩
  · rintro ⟨⟨hleast, hgreatest⟩, h⟩
    obtain ⟨hmagnitude, hplaces⟩ := (hfits hgreatest).mp h
    exact ⟨hleast, hgreatest, hmagnitude, hplaces⟩

/-- Fewer than 2^63 places cannot balance an exponent that takes more than 127 bits. -/
theorem parse?_short {es : List Char} (h : SpellsExponent n.exponent es) (hsize : n.fractionDigits.length < 2 ^ 63) :
    Decimal.parse? (n.mantissaText ++ es) =
      if Decimal.isScale (n.fractionDigits.length - n.writtenExponent) then some n.decimal else none := by
  rw [Decimal.parse?_spelled h, decimal_eq]
  refine if_congr ⟨fun h => h.2, fun h => ⟨?_, h⟩⟩ rfl rfl
  rw [Decimal.isScale_iff] at h
  omega

theorem exponent_decimal {precision : Nat} (h : n.FitsDecimal precision) :
    n.decimal.exponent = n.writtenExponent - n.fractionDigits.length := by
  have hleast := h.least
  have hgreatest := h.greatest
  rw [decimal_eq, Decimal.exponent, if_pos (by dsimp only; omega)]
  exact Int.neg_sub _ _

end Json.Numeral

namespace Value

variable {n : Numeral} {cs : List Char} {v : Json} {w : Value} {p : UInt32}

/-- Quoted or not, the text that is read as a decimal is a text of the literal. -/
theorem decimalText?_of_carries (h : n.Literal cs) (hv : n.Carries cs v) :
    ∃ es, SpellsExponent n.exponent es ∧ decimalText? v = some (n.mantissaText ++ es) := by
  cases hv with
  | number => exact ⟨_, n.spells_exponentText, rfl⟩
  | string hb ha =>
    have htrim := Numeral.trim_literal h hb ha
    obtain ⟨-, es, hes, rfl⟩ := h
    exact ⟨es, hes, by rw [decimalText?, String.toList_ofList, htrim]⟩

theorem readLong?_of_carries (h : n.Literal cs) (hv : n.Carries cs v) :
    readLong? v = n.toInt?.filter (fitsBits 64) := by
  cases hv with
  | number => rfl
  | string hb ha =>
    have htrim := Numeral.trim_literal h hb ha
    obtain ⟨-, es, hes, rfl⟩ := h
    rw [readLong?, String.toList_ofList, htrim, Numeral.parseInt?_spelled hes]

/-! ## Decoding a literal -/

/-- A decimal column accepts a literal, quoted or not, exactly when the numeral fits it, and gives its decimal. -/
theorem decode_decimal_iff {s : UInt32} {nullable : Bool} (h : n.Literal cs) (hsize : cs.length < 2 ^ 63)
    (hv : n.Carries cs v) :
    decode (.decimal p s nullable) v = .ok w ↔ n.FitsDecimal p.toNat ∧ w = .decimal n.decimal := by
  obtain ⟨es, hes, htext⟩ := decimalText?_of_carries h hv
  have hshort := Numeral.parse?_short hes (h.length_fractionDigits_le.trans_lt hsize)
  rw [decode_decimal hv.ne_null, decodeDecimal_eq_ok, Numeral.fitsDecimal_iff p.toNat_lt]
  constructor
  · rintro ⟨cs', d, hcs', hd, hfits, rfl⟩
    cases htext.symm.trans hcs'
    rw [hshort, Option.ite_none_right_eq_some] at hd
    obtain ⟨hscale, hd⟩ := hd
    cases hd
    exact ⟨⟨hscale, hfits⟩, rfl⟩
  · rintro ⟨⟨hscale, hfits⟩, rfl⟩
    exact ⟨_, _, htext, by rw [hshort, if_pos hscale], hfits, rfl⟩

theorem toInt?_filter_eq_some {i : Int} :
    n.toInt?.filter (fitsBits 64) = some i ↔ n.FitsLong ∧ i = n.coefficient := by
  rw [Option.filter_eq_some_iff, fitsBits_iff, Numeral.toInt?]
  constructor
  · rintro ⟨hi, hrange⟩
    split_ifs at hi with hc
    cases hi
    simp only [Bool.and_eq_true, Option.isNone_iff_eq_none] at hc
    exact ⟨⟨hc.1, hc.2, hrange⟩, rfl⟩
  · rintro ⟨⟨hfraction, hexponent, hrange⟩, rfl⟩
    exact ⟨by simp [hfraction, hexponent], hrange⟩

/-- A `long` column accepts a literal, quoted or not, exactly when it is an integer of 64 bits. -/
theorem decode_long_iff {nullable : Bool} (h : n.Literal cs) (hv : n.Carries cs v) :
    decode (.scalar .long nullable) v = .ok w ↔ n.FitsLong ∧ w = .long n.coefficient := by
  rw [decode_scalar hv.ne_null, decodeScalar, orJson_eq_ok, readLong?_of_carries h hv, Option.map_eq_some_iff]
  constructor
  · rintro ⟨i, hi, rfl⟩
    obtain ⟨hfits, rfl⟩ := toInt?_filter_eq_some.mp hi
    exact ⟨hfits, rfl⟩
  · rintro ⟨hfits, rfl⟩
    exact ⟨_, toInt?_filter_eq_some.mpr ⟨hfits, rfl⟩, rfl⟩

/-- A literal is decoded exactly, and it does not matter whether it is quoted.  As a decimal it keeps its digits and
its exponent, less the places behind the point, or it does not fit the type; as a long it is its own value. -/
theorem decode_literal (h : n.Literal cs) (hsize : cs.length < 2 ^ 63) :
    Json.parse (ascii (String.ofList cs)) = .ok (.number n) ∧
      (∀ p : UInt32, n.FitsDecimal p.toNat → n.decimal.coefficient = n.coefficient ∧
        n.decimal.exponent = n.writtenExponent - n.fractionDigits.length) ∧
      ∀ v, n.Carries cs v → ∀ nullable w,
        (∀ p s, decode (.decimal p s nullable) v = .ok w ↔ n.FitsDecimal p.toNat ∧ w = .decimal n.decimal) ∧
          (decode (.scalar .long nullable) v = .ok w ↔ n.FitsLong ∧ w = .long n.coefficient) :=
  ⟨parse_literal h, fun _ hp => ⟨rfl, Numeral.exponent_decimal hp⟩,
    fun _ hv _ _ => ⟨fun _ _ => decode_decimal_iff h hsize hv, decode_long_iff h hv⟩⟩

/-- The parts of `-12.50E3`. -/
def sampleLiteral : Numeral :=
  ⟨true, ⟨['1', '2'], rfl, rfl⟩, some ⟨['5', '0'], rfl, rfl⟩, some ⟨false, ⟨['3'], rfl, rfl⟩⟩⟩

theorem decode_literal_sample :
    Json.parse (ascii "-12.50E3") = .ok (.number sampleLiteral) ∧
      decode (.decimal 5 0 false) (.number sampleLiteral) = .ok (.decimal ⟨-1250, -1⟩) ∧
      decode (.decimal 5 0 false) (.string " -12.50E3\n") = .ok (.decimal ⟨-1250, -1⟩) ∧
      (∀ w, decode (.decimal 4 0 false) (.string " -12.50E3\n") ≠ .ok w) ∧
      ∀ w, decode (.scalar .long false) (.string " -12.50E3\n") ≠ .ok w := by
  have hliteral : sampleLiteral.Literal "-12.50E3".toList :=
    ⟨by simp [sampleLiteral], _, .unsigned (.inr rfl) ⟨['3'], rfl, rfl⟩, rfl⟩
  obtain ⟨hparse, -, hdecode⟩ := decode_literal hliteral (by decide)
  have hquoted : sampleLiteral.Carries "-12.50E3".toList (.string " -12.50E3\n") :=
    @Numeral.Carries.string _ _ [' '] ['\n'] (List.forall_mem_singleton.mpr rfl) (List.forall_mem_singleton.mpr rfl)
  have hmagnitude : (sampleLiteral.coefficient.natAbs : ℚ) *
      10 ^ (sampleLiteral.writtenExponent - sampleLiteral.fractionDigits.length) = 12500 := by
    have hcoefficient : sampleLiteral.coefficient.natAbs = 1250 := by decide
    have hexponent : sampleLiteral.writtenExponent - sampleLiteral.fractionDigits.length = 1 := by decide
    rw [hcoefficient, hexponent]
    norm_num
  have hfits : sampleLiteral.FitsDecimal 5 :=
    ⟨by decide, by decide, by rw [hmagnitude]; norm_num, by decide⟩
  refine ⟨hparse, ((hdecode _ .number _ _).1 5 0).mpr ⟨hfits, rfl⟩, ((hdecode _ hquoted _ _).1 5 0).mpr ⟨hfits, rfl⟩,
    fun w hw => ?_, fun w hw => ?_⟩
  · have hmagnitude' := (((hdecode _ hquoted _ _).1 4 0).mp hw).1.magnitude
    rw [hmagnitude, show (4 : UInt32).toNat = 4 from rfl] at hmagnitude'
    norm_num at hmagnitude'
  · exact Option.some_ne_none _ ((hdecode _ hquoted _ _).2.mp hw).1.fraction

end Value

end Rowset
