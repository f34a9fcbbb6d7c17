import Rowset.Decimal.Text
import Rowset.Proofs.Json.Literal

/-!
# Decimals of number literals

The text of a number literal is also the text of a decimal, and it is read digit by digit: the coefficient is what all
digits write, and the scale is the number of places behind the point less the exponent (`parse?_spelled`).  This holds
for every spelling of the exponent part.
-/

namespace Rowset

open Json Text

/-! ## The characters of a literal -/

theorem Decimal.isNumeric_iff {c : Char} :
    Decimal.isNumeric c = true ↔ c.isDigit = true ∨ c = '+' ∨ c = '-' ∨ c = '.' ∨ c = 'e' ∨ c = 'E' := by
  simp only [Decimal.isNumeric, Bool.or_eq_true, beq_iff_eq, or_assoc]

theorem Decimal.isBlank_of_isNumeric {c : Char} (h : Decimal.isNumeric c = true) : isBlank c = false := by
  rcases Decimal.isNumeric_iff.mp h with hd | rfl | rfl | rfl | rfl | rfl
  · exact isBlank_of_isDigit hd
  all_goals decide

theorem Json.Numeral.mem_mantissaText {n : Numeral} {c : Char} (h : c ∈ n.mantissaText) :
    c.isDigit = true ∨ c = '-' ∨ c = '.' := by
  simp only [mantissaText, List.mem_append] at h
  rcases h with (h | h) | h
  · split_ifs at h
    · exact .inr (.inl (List.mem_singleton.mp h))
    · cases h
  · exact .inl (DigitRun.isDigit_of_mem h)
  · split at h
    · rcases List.mem_cons.mp h with rfl | h
      · exact .inr (.inr rfl)
      · exact .inl (DigitRun.isDigit_of_mem h)
    · cases h

theorem Json.SpellsExponent.isNumeric {e : Option Exponent} {es : List Char} (h : SpellsExponent e es) :
    ∀ c ∈ es, Decimal.isNumeric c = true := by
  have hmark {mark : Char} (hm : mark = 'e' ∨ mark = 'E') : Decimal.isNumeric mark = true := by
    rcases hm with rfl | rfl <;> rfl
  have hdigits (r : DigitRun) : ∀ c ∈ r.chars, Decimal.isNumeric c = true :=
    fun c hc => Decimal.isNumeric_iff.mpr (.inl (r.isDigit_of_mem hc))
  cases h with
  | absent => nofun
  | signed hm e =>
    have hsign : Decimal.isNumeric (if e.negative then '-' else '+') = true := by
      split_ifs <;> rfl
    exact List.forall_mem_cons.mpr ⟨hmark hm, List.forall_mem_cons.mpr ⟨hsign, hdigits e.digits⟩⟩
  | unsigned hm r => exact List.forall_mem_cons.mpr ⟨hmark hm, hdigits r⟩

/-- A JSON literal is made of numeric characters only. -/
theorem Json.Numeral.isNumeric_spelled {n : Numeral} {es : List Char} (h : SpellsExponent n.exponent es) :
    ∀ c ∈ n.mantissaText ++ es, Decimal.isNumeric c = true := by
  intro c hc
  rcases List.mem_append.mp hc with hc | hc
  · rcases mem_mantissaText hc with hd | rfl | rfl
    · exact Decimal.isNumeric_iff.mpr (.inl hd)
    · rfl
    · rfl
  · exact h.isNumeric c hc

namespace Decimal

/-! ## The exponent -/

/-- Reads an exponent part, mark and all; without one the exponent is zero. -/
def exponentOf? : List Char → Option Int
  | [] => some 0
  | _ :: rest => parseExponent? rest

/-- Reading a text of numeric characters: what stands in front of the exponent mark, what stands behind it, and
whether the scale can be held. -/
theorem parse?_eq (cs : List Char) (h : ∀ c ∈ cs, isNumeric c = true) :
    parse? cs = (exponentOf? (cs.dropWhile (!isExponentMark ·))).bind fun exponent =>
      (parseMantissa? (cs.takeWhile (!isExponentMark ·))).bind fun (c, places) =>
        if isScale (places - exponent) then some ⟨c, places - exponent⟩ else none := by
  simp only [parse?, List.all_eq_true.mpr h]
  cases cs.dropWhile (!isExponentMark ·) <;> rfl

theorem exponentOf?_spelled {n : Numeral} {es : List Char} (h : SpellsExponent n.exponent es) :
    exponentOf? es =
      if -2 ^ 127 ≤ n.writtenExponent ∧ n.writtenExponent < 2 ^ 127 then some n.writtenExponent else none := by
  have hread {cs : List Char} (hcs : parseInt? cs = some n.writtenExponent) : parseExponent? cs =
      if -2 ^ 127 ≤ n.writtenExponent ∧ n.writtenExponent < 2 ^ 127 then some n.writtenExponent else none := by
    simp [parseExponent?, hcs]
  obtain ⟨negative, whole, fraction, exponent⟩ := n
  cases h with
  | absent => rfl
  | signed hm e =>
    refine hread ?_
    cases hneg : e.negative with
    | true =>
      simpa [Numeral.writtenExponent, DigitRun.value, hneg] using
        parseInt?_minus e.digits.ne_nil fun _ => e.digits.isDigit_of_mem
    | false =>
      simpa [Numeral.writtenExponent, DigitRun.value, hneg] using
        parseInt?_plus e.digits.ne_nil fun _ => e.digits.isDigit_of_mem
  | unsigned hm r => exact hread (parseInt?_digits r.ne_nil fun _ => r.isDigit_of_mem)

/-! ## The digits -/

theorem ne_of_isDigit {c d : Char} (hc : c.isDigit = true) (hd : d.isDigit = false) : c ≠ d := by
  rintro rfl
  rw [hc] at hd
  contradiction

theorem parseMantissa?_mantissaText (n : Numeral) :
    parseMantissa? n.mantissaText = some (n.coefficient, n.fractionDigits.length) := by
  have hfraction : ∀ c ∈ n.fractionDigits, c.isDigit = true := by
    unfold Numeral.fractionDigits
    split
    · exact fun _ => DigitRun.isDigit_of_mem
    · nofun
  have hdigits : ∀ c ∈ n.whole.chars ++ n.fractionDigits, c.isDigit = true :=
    List.forall_mem_append.mpr ⟨fun _ => DigitRun.isDigit_of_mem, hfraction⟩
  have hne : n.whole.chars ++ n.fractionDigits ≠ [] :=
    List.append_ne_nil_of_left_ne_nil n.whole.ne_nil _
  have hvalue : parseInt? ((if n.negative then ['-'] else []) ++ n.whole.chars ++ n.fractionDigits) =
      some n.coefficient := by
    rw [List.append_assoc]
    cases hn : n.negative with
    | true => simpa [Numeral.coefficient, hn] using parseInt?_minus hne hdigits
    | false => simpa [Numeral.coefficient, hn] using parseInt?_digits hne hdigits
  -- No point stands in front of the one that begins the fraction.
  have hpoint : ∀ c ∈ (if n.negative then ['-'] else []) ++ n.whole.chars, (c != '.') = true := by
    intro c hc
    rcases List.mem_append.mp hc with hc | hc
    · split_ifs at hc
      · rw [List.mem_singleton.mp hc]
        rfl
      · cases hc
    · exact bne_iff_ne.mpr (ne_of_isDigit (DigitRun.isDigit_of_mem hc) rfl)
  have hsplit : n.mantissaText.takeWhile (· != '.') = (if n.negative then ['-'] else []) ++ n.whole.chars ∧
      (n.mantissaText.dropWhile (· != '.')).drop 1 = n.fractionDigits := by
    unfold Numeral.mantissaText Numeral.fractionDigits
    rw [List.takeWhile_append_of_pos hpoint, List.dropWhile_append_of_pos hpoint]
    cases n.fraction <;> simp
  simp only [parseMantissa?, hsplit, hvalue]
  rfl

/-! ## The whole literal -/

/-- A scale has 32 bits and is not the least number of these, for an exponent is its negative. -/
theorem isScale_iff {s : Int} : isScale s = true ↔ -(2 ^ 31 - 1) ≤ s ∧ s ≤ 2 ^ 31 - 1 := by
  simp [isScale]

/-- What is read as a decimal consists of its characters and has a scale that a text can hold. -/
theorem parse?_sound {cs : List Char} {d : Decimal} (h : parse? cs = some d) :
    (∀ c ∈ cs, isNumeric c = true) ∧ isScale d.scale = true := by
  have hall : ∀ c ∈ cs, isNumeric c = true := by
    by_contra hall
    rw [← List.all_eq_true] at hall
    simp [parse?, hall] at h
  rw [parse?_eq cs hall] at h
  obtain ⟨exponent, -, h⟩ := Option.bind_eq_some_iff.mp h
  obtain ⟨⟨c, places⟩, -, h⟩ := Option.bind_eq_some_iff.mp h
  obtain ⟨hscale, h⟩ := Option.ite_none_right_eq_some.mp h
  cases h
  exact ⟨hall, hscale⟩

/-- The first exponent mark of a literal is where its mantissa ends, for a mantissa has none. -/
theorem mantissaText_append (n : Numeral) {e : Option Exponent} {es : List Char} (h : SpellsExponent e es) :
    (n.mantissaText ++ es).takeWhile (!isExponentMark ·) = n.mantissaText ∧
      (n.mantissaText ++ es).dropWhile (!isExponentMark ·) = es := by
  have hmantissa : ∀ c ∈ n.mantissaText, (!isExponentMark c) = true := by
    intro c hc
    rcases Numeral.mem_mantissaText hc with hd | rfl | rfl
    · simp [isExponentMark, ne_of_isDigit hd (d := 'e') rfl, ne_of_isDigit hd (d := 'E') rfl]
    · rfl
    · rfl
  rw [List.takeWhile_append_of_pos hmantissa, List.dropWhile_append_of_pos hmantissa]
  cases h with
  | absent => simp
  | signed hm | unsigned hm => rcases hm with rfl | rfl <;> simp [isExponentMark]

/-- A number literal is read digit by digit, if exponent and scale are in their ranges. -/
theorem parse?_spelled {n : Numeral} {es : List Char} (h : SpellsExponent n.exponent es) :
    parse? (n.mantissaText ++ es) =
      if (-2 ^ 127 ≤ n.writtenExponent ∧ n.writtenExponent < 2 ^ 127) ∧
          isScale (n.fractionDigits.length - n.writtenExponent) = true then
        some ⟨n.coefficient, n.fractionDigits.length - n.writtenExponent⟩
      else none := by
  obtain ⟨htake, hdrop⟩ := mantissaText_append n h
  rw [parse?_eq _ (Numeral.isNumeric_spelled h), htake, hdrop, exponentOf?_spelled h, parseMantissa?_mantissaText]
  by_cases hrange : -2 ^ 127 ≤ n.writtenExponent ∧ n.writtenExponent < 2 ^ 127
  · simp only [hrange, true_and, if_true, Option.bind_some]
  · simp only [hrange, false_and, if_false, Option.bind_none]

end Decimal

end Rowset
