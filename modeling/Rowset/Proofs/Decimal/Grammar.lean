import Rowset.Proofs.Decimal.Spelling
import Rowset.Value.Decoder

/-!
# The grammar of decimal text

A decimal is written as a mantissa and an exponent.  A mantissa in order (`MantissaText`) is one sign or none and then
digits with at most one point; an exponent is nothing, or a mark and an integer.  Reading takes the first point out
before it looks for the sign, so it also accepts a mantissa that begins with the point and has its sign behind that
(`MisplacedSign`), and nothing else (`parse_eq_ok_iff_text`).
-/

namespace Rowset.Decimal

open Text

/-! ## Productions -/

/-- The text of an exponent: nothing, which is zero, or an integer behind a mark. -/
inductive ExponentText : List Char → Int → Prop
  | absent : ExponentText [] 0
  | marked {mark : Char} {cs : List Char} {e : Int} (hm : isExponentMark mark = true) (h : IntegerText cs e) :
      ExponentText (mark :: cs) e

/-- The text of a mantissa with its coefficient and its places: one sign or none, then at least one digit, and at most
one point before, among or behind the digits. -/
inductive MantissaText : List Char → Int → Nat → Prop
  | whole {cs : List Char} {c : Int} (h : IntegerText cs c) : MantissaText cs c 0
  | pointed {sign whole fraction : List Char} {negative : Bool} (hs : LeadingSign sign negative)
      (hne : whole ++ fraction ≠ []) (hd : ∀ c ∈ whole ++ fraction, c.isDigit = true) :
      MantissaText (sign ++ whole ++ '.' :: fraction) (withSign negative (ofDigits (whole ++ fraction)))
        fraction.length

/-- A mantissa that begins with the point and has its sign behind that.  The sign counts as a place. -/
inductive MisplacedSign : List Char → Int → Nat → Prop
  | mk {sign : Char} {ds : List Char} {negative : Bool} (hs : LeadingSign [sign] negative) (hne : ds ≠ [])
      (hd : ∀ c ∈ ds, c.isDigit = true) :
      MisplacedSign ('.' :: sign :: ds) (withSign negative (ofDigits ds)) (ds.length + 1)

/-- A mantissa of some form, and an exponent behind it. -/
def TextOf (Mantissa : List Char → Int → Nat → Prop) (cs : List Char) (c : Int) (places : Nat) (e : Int) : Prop :=
  ∃ ms es, cs = ms ++ es ∧ Mantissa ms c places ∧ ExponentText es e

/-! ## The mantissa -/

theorem ne_point {c : Char} (h : c.isDigit = true ∨ c = '+' ∨ c = '-') : (c != '.') = true := by
  rcases h with hd | rfl | rfl
  · exact bne_iff_ne.mpr (ne_of_isDigit hd rfl)
  · rfl
  · rfl

/-- A mantissa is an integer in which a point may stand anywhere. -/
theorem parseMantissa?_eq_some_iff_spliced {cs : List Char} {c : Int} {places : Nat} :
    parseMantissa? cs = some (c, places) ↔ IntegerText cs c ∧ places = 0 ∨
      ∃ before after, cs = before ++ '.' :: after ∧ IntegerText (before ++ after) c ∧ places = after.length := by
  -- The digits on both sides of the point are read as one integer.
  have hread {w f : List Char} (hw : cs.takeWhile (· != '.') = w) (hf : (cs.dropWhile (· != '.')).drop 1 = f) :
      parseMantissa? cs = some (c, places) ↔ IntegerText (w ++ f) c ∧ places = f.length := by
    simp only [parseMantissa?, hw, hf, Option.bind_eq_bind, Option.pure_def, Option.bind_eq_some_iff,
      parseInt?_eq_some_iff, Option.some.injEq, Prod.mk.injEq]
    constructor
    · rintro ⟨_, h, rfl, rfl⟩
      exact ⟨h, rfl⟩
    · rintro ⟨h, rfl⟩
      exact ⟨c, h, rfl, rfl⟩
  have hsplit := List.takeWhile_append_dropWhile (p := (· != '.')) (l := cs)
  constructor
  · intro h
    cases hrest : cs.dropWhile (· != '.') with
    | nil =>
      rw [hrest, List.append_nil] at hsplit
      have hparts := (hread hsplit (congrArg (List.drop 1) hrest)).mp h
      rw [List.drop_nil, List.append_nil] at hparts
      exact .inl hparts
    | cons d after =>
      have hd := List.head?_dropWhile_not (· != '.') cs
      rw [hrest] at hd
      obtain rfl : d = '.' := by simpa using hd
      rw [hrest] at hsplit
      obtain ⟨hint, hplaces⟩ := (hread rfl (congrArg (List.drop 1) hrest)).mp h
      exact .inr ⟨_, after, hsplit.symm, hint, hplaces⟩
  · -- No character of an integer is a point, so the text is split where it was put together.
    rintro (⟨hint, rfl⟩ | ⟨before, after, rfl, hint, hplaces⟩)
    · have hpoint : ∀ c ∈ cs, (c != '.') = true := fun c hc => ne_point (hint.isDigit_or_sign c hc)
      have hdrop : cs.dropWhile (· != '.') = [] := List.dropWhile_eq_nil_iff.mpr hpoint
      rw [hdrop, List.append_nil] at hsplit
      exact (hread hsplit (congrArg (List.drop 1) hdrop)).mpr ⟨by simpa using hint, rfl⟩
    · have hpoint : ∀ c ∈ before, (c != '.') = true := fun c hc =>
        ne_point (hint.isDigit_or_sign c (List.mem_append_left after hc))
      refine (hread ?_ ?_).mpr ⟨hint, hplaces⟩
      · rw [List.takeWhile_append_of_pos hpoint, List.takeWhile_cons_of_neg (by simp), List.append_nil]
      · rw [List.dropWhile_append_of_pos hpoint, List.dropWhile_cons_of_neg (by simp), List.drop_one, List.tail_cons]

/-- The sign of the integer stands in front of the point, unless nothing does. -/
theorem mantissa_of_spliced {before after : List Char} {c : Int} (h : IntegerText (before ++ after) c) :
    MantissaText (before ++ '.' :: after) c after.length ∨ MisplacedSign (before ++ '.' :: after) c after.length := by
  generalize htext : before ++ after = cs at h
  obtain @⟨sign, ds, negative, hs, hne, hd⟩ := h
  have hpointed {whole : List Char} (hbefore : before = sign ++ whole) (hds : ds = whole ++ after) :
      MantissaText (before ++ '.' :: after) (withSign negative (ofDigits ds)) after.length := by
    subst hbefore hds
    exact .pointed hs hne hd
  cases hs with
  | absent => exact .inl (hpointed rfl htext.symm)
  | plus | minus =>
    cases before with
    | nil =>
      cases htext
      exact .inr (.mk (by constructor) hne hd)
    | cons b whole =>
      obtain ⟨rfl, hds⟩ := List.cons.inj htext
      exact .inl (hpointed rfl hds.symm)

theorem parseMantissa?_eq_some_iff {cs : List Char} {c : Int} {places : Nat} :
    parseMantissa? cs = some (c, places) ↔ MantissaText cs c places ∨ MisplacedSign cs c places := by
  rw [parseMantissa?_eq_some_iff_spliced]
  constructor
  · rintro (⟨hint, rfl⟩ | ⟨before, after, rfl, hint, rfl⟩)
    · exact .inl (.whole hint)
    · exact mantissa_of_spliced hint
  · rintro ((hint | @⟨sign, whole, fraction, _, hs, hne, hd⟩) | @⟨sign, ds, _, hs, hne, hd⟩)
    · exact .inl ⟨hint, rfl⟩
    · refine .inr ⟨sign ++ whole, fraction, rfl, ?_, rfl⟩
      rw [List.append_assoc]
      exact .mk hs hne hd
    · exact .inr ⟨[], sign :: ds, rfl, .mk hs hne hd, rfl⟩

/-! ## The exponent -/

theorem exponentOf?_eq_some_iff {es : List Char} {e : Int} (hmark : ∀ c ∈ es.head?, isExponentMark c = true) :
    exponentOf? es = some e ↔ ExponentText es e ∧ -2 ^ 127 ≤ e ∧ e < 2 ^ 127 := by
  cases es with
  | nil =>
    constructor
    · intro h
      cases h
      exact ⟨.absent, by decide⟩
    · rintro ⟨⟨⟩, -⟩
      rfl
  | cons mark cs =>
    simp only [exponentOf?, parseExponent?, Option.bind_eq_bind, Option.bind_eq_some_iff, parseInt?_eq_some_iff,
      Option.ite_none_right_eq_some, Option.some.injEq]
    constructor
    · rintro ⟨e, h, hrange, rfl⟩
      exact ⟨.marked (hmark mark rfl) h, hrange⟩
    · rintro ⟨_ | ⟨-, h⟩, hrange⟩
      exact ⟨e, h, hrange, rfl⟩

theorem ExponentText.head {es : List Char} {e : Int} (h : ExponentText es e) :
    ∀ c ∈ es.head?, isExponentMark c = true := by
  cases h with
  | absent => nofun
  | marked hm h => simpa using hm

/-! ## The characters of a text -/

theorem isNumeric_of_digit_or_sign {c : Char} (h : c.isDigit = true ∨ c = '+' ∨ c = '-') : isNumeric c = true :=
  isNumeric_iff.mpr (h.imp_right fun hs => hs.imp_right .inl)

theorem ExponentText.isNumeric {es : List Char} {e : Int} (h : ExponentText es e) :
    ∀ c ∈ es, isNumeric c = true := by
  cases h with
  | absent => nofun
  | marked hm h =>
    refine List.forall_mem_cons.mpr ⟨?_, fun c hc => isNumeric_of_digit_or_sign (h.isDigit_or_sign c hc)⟩
    simp only [isExponentMark, Bool.or_eq_true, beq_iff_eq] at hm
    rcases hm with rfl | rfl <;> rfl

/-- A mantissa has no mark of an exponent in it. -/
theorem isNumeric_of_parseMantissa? {ms : List Char} {c : Int} {places : Nat}
    (h : parseMantissa? ms = some (c, places)) :
    ∀ x ∈ ms, isNumeric x = true ∧ (!isExponentMark x) = true := by
  have hchar {x : Char} (hx : x.isDigit = true ∨ x = '+' ∨ x = '-') :
      isNumeric x = true ∧ (!isExponentMark x) = true := by
    refine ⟨isNumeric_of_digit_or_sign hx, ?_⟩
    rcases hx with hd | rfl | rfl
    · simp [isExponentMark, ne_of_isDigit hd (d := 'e') rfl, ne_of_isDigit hd (d := 'E') rfl]
    · rfl
    · rfl
  rcases parseMantissa?_eq_some_iff_spliced.mp h with ⟨hint, -⟩ | ⟨before, after, rfl, hint, -⟩
  · exact fun x hx => hchar (hint.isDigit_or_sign x hx)
  · intro x hx
    rcases List.mem_append.mp hx with hx | hx
    · exact hchar (hint.isDigit_or_sign x (List.mem_append_left after hx))
    · rcases List.mem_cons.mp hx with rfl | hx
      · exact ⟨rfl, rfl⟩
      · exact hchar (hint.isDigit_or_sign x (List.mem_append_right before hx))

/-! ## The whole text -/

/-- What is read as a decimal is a mantissa with an exponent behind it, the exponent and the scale within their
ranges. -/
theorem parse?_eq_some_iff {cs : List Char} {d : Decimal} :
    parse? cs = some d ↔ ∃ ms es places e, cs = ms ++ es ∧ parseMantissa? ms = some (d.coefficient, places) ∧
      ExponentText es e ∧ (-2 ^ 127 ≤ e ∧ e < 2 ^ 127) ∧ d.scale = places - e ∧ isScale d.scale = true := by
  constructor
  · intro h
    have hsplit := List.takeWhile_append_dropWhile (p := (!isExponentMark ·)) (l := cs)
    have hmark : ∀ c ∈ (cs.dropWhile (!isExponentMark ·)).head?, isExponentMark c = true := by
      intro c hc
      have hnot := List.head?_dropWhile_not (!isExponentMark ·) cs
      rw [Option.mem_def.mp hc] at hnot
      simpa using hnot
    rw [parse?_eq cs (parse?_sound h).1] at h
    obtain ⟨e, he, h⟩ := Option.bind_eq_some_iff.mp h
    obtain ⟨⟨c, places⟩, hm, h⟩ := Option.bind_eq_some_iff.mp h
    obtain ⟨hscale, h⟩ := Option.ite_none_right_eq_some.mp h
    cases h
    obtain ⟨hexponent, hrange⟩ := (exponentOf?_eq_some_iff hmark).mp he
    exact ⟨_, _, places, e, hsplit.symm, hm, hexponent, hrange, rfl, hscale⟩
  · -- No mantissa holds a mark of an exponent, so the text is split in front of the exponent.
    rintro ⟨ms, es, places, e, rfl, hm, hexponent, hrange, hd, hscale⟩
    have hms := isNumeric_of_parseMantissa? hm
    have hes : es.takeWhile (!isExponentMark ·) = [] ∧ es.dropWhile (!isExponentMark ·) = es := by
      cases hexponent with
      | absent => exact ⟨rfl, rfl⟩
      | marked hmark h => simp [hmark]
    have hnumeric : ∀ c ∈ ms ++ es, isNumeric c = true :=
      List.forall_mem_append.mpr ⟨fun c hc => (hms c hc).1, hexponent.isNumeric⟩
    have hmantissa : ∀ c ∈ ms, (!isExponentMark c) = true := fun c hc => (hms c hc).2
    rw [parse?_eq _ hnumeric, List.takeWhile_append_of_pos hmantissa, List.dropWhile_append_of_pos hmantissa,
      hes.1, hes.2, List.append_nil, hm, (exponentOf?_eq_some_iff hexponent.head).mpr ⟨hexponent, hrange⟩]
    simp only [Option.bind_some, ← hd, hscale, if_true]

theorem parse_eq_ok_iff {s : String} {d : Decimal} : Decimal.parse s = .ok d ↔ parse? s.toList = some d := by
  unfold Decimal.parse
  cases parse? s.toList <;> simp

/-- Text is read as a decimal if it is a mantissa in order, an exponent behind it or not, and exponent and scale are in
their ranges.  A mantissa without digits in front of its point is also read if the sign stands behind the point.  All
other text is refused as a value that is no decimal. -/
theorem parse_eq_ok_iff_text {s : String} {d : Decimal} :
    (Decimal.parse s = .ok d ↔ ∃ places e,
      (TextOf MantissaText s.toList d.coefficient places e ∨ TextOf MisplacedSign s.toList d.coefficient places e) ∧
        (-2 ^ 127 ≤ e ∧ e < 2 ^ 127) ∧ d.scale = places - e ∧ isScale d.scale = true) ∧
    (Decimal.parse s = .error (.mismatch .decimal (.text s)) ↔ ∀ d, Decimal.parse s ≠ .ok d) := by
  constructor
  · rw [parse_eq_ok_iff, parse?_eq_some_iff]
    constructor
    · rintro ⟨ms, es, places, e, hs, hm, he, hrange, hscale⟩
      rcases parseMantissa?_eq_some_iff.mp hm with hm | hm
      · exact ⟨places, e, .inl ⟨ms, es, hs, hm, he⟩, hrange, hscale⟩
      · exact ⟨places, e, .inr ⟨ms, es, hs, hm, he⟩, hrange, hscale⟩
    · rintro ⟨places, e, ⟨ms, es, hs, hm, he⟩ | ⟨ms, es, hs, hm, he⟩, hrange, hscale⟩
      · exact ⟨ms, es, places, e, hs, parseMantissa?_eq_some_iff.mpr (.inl hm), he, hrange, hscale⟩
      · exact ⟨ms, es, places, e, hs, parseMantissa?_eq_some_iff.mpr (.inr hm), he, hrange, hscale⟩
  · unfold Decimal.parse
    cases parse? s.toList <;> simp

/-- A text in order that begins with the point goes on with a digit. -/
theorem isDigit_of_leading_point {x : Char} {rest : List Char} {c e : Int} {places : Nat}
    (h : TextOf MantissaText ('.' :: x :: rest) c places e) : x.isDigit = true := by
  obtain ⟨ms, es, htext, hm, -⟩ := h
  have hfirst {cs after : List Char} (hcs : ∀ c ∈ cs, c.isDigit = true ∨ c = '+' ∨ c = '-')
      (h : '.' :: x :: rest = cs ++ after) : cs = [] := by
    cases cs with
    | nil => rfl
    | cons c cs =>
      obtain ⟨rfl, -⟩ := List.cons.inj h
      exact absurd rfl (bne_iff_ne.mp (ne_point (hcs _ List.mem_cons_self)))
  cases hm with
  | whole hint =>
    have hms := hfirst hint.isDigit_or_sign htext
    subst hms
    cases (parseInt?_eq_some_iff.mpr hint)
  | @pointed sign whole fraction negative hs hne hd =>
    have hsigned : ∀ c ∈ sign ++ whole, c.isDigit = true ∨ c = '+' ∨ c = '-' := List.forall_mem_append.mpr
      ⟨fun c hc => .inr (hs.mem hc), fun c hc => .inl (hd c (List.mem_append_left fraction hc))⟩
    rw [List.append_assoc] at htext
    obtain ⟨rfl, rfl⟩ := List.append_eq_nil_iff.mp (hfirst hsigned htext)
    cases fraction with
    | nil => exact absurd rfl hne
    | cons y fraction =>
      obtain ⟨rfl, -⟩ := List.cons.inj (List.cons.inj htext).2
      exact hd x List.mem_cons_self

/-- A sign behind the point is taken for one in front, and the number gets one more place. -/
theorem misplaced_sign_read :
    Decimal.parse ".-5" = .ok ⟨-5, 2⟩ ∧ ∀ c places e, ¬TextOf MantissaText ".-5".toList c places e := by
  constructor
  · exact parse_eq_ok_iff.mpr rfl
  · intro c places e h
    exact absurd (isDigit_of_leading_point h) (by decide)

end Rowset.Decimal
