import Mathlib.Data.List.TakeWhile
import Rowset.Proofs.Json.Extension
import Rowset.Proofs.Text.Digits

/-!
# Number literals in JSON text

`Numeral.Literal` is the grammar of number literals: which texts have which parts.  The mark of an exponent stands in
either case, and its sign may be left out; apart from that the parts determine the text.

Each part of a literal is read by its own reader as long as nothing follows that could continue it, so a literal is read
as its parts (`parse_literal`).
-/

namespace Rowset.Json

/-! ## The grammar -/

/-- The texts of an exponent part. -/
inductive SpellsExponent : Option Exponent → List Char → Prop
  | absent : SpellsExponent none []
  | signed {mark : Char} (hm : mark = 'e' ∨ mark = 'E') (e : Exponent) :
      SpellsExponent (some e) (mark :: (if e.negative then '-' else '+') :: e.digits.chars)
  | unsigned {mark : Char} (hm : mark = 'e' ∨ mark = 'E') (r : DigitRun) :
      SpellsExponent (some ⟨false, r⟩) (mark :: r.chars)

namespace Numeral

/-- The texts of a literal with the given parts.  Its digits in front of the point begin with a zero only if there is no
other digit. -/
structure Literal (n : Numeral) (cs : List Char) : Prop where
  whole : ∀ d ds, n.whole.chars ≠ '0' :: d :: ds
  spelled : ∃ es, SpellsExponent n.exponent es ∧ cs = n.mantissaText ++ es

/-- The exponent part that `text` writes is one of its texts. -/
theorem spells_exponentText (n : Numeral) : SpellsExponent n.exponent n.exponentText := by
  unfold exponentText
  cases n.exponent with
  | none => exact .absent
  | some e => exact .signed (.inl rfl) e

end Numeral

theorem DigitRun.isDigit_of_mem {r : DigitRun} {c : Char} (h : c ∈ r.chars) : c.isDigit = true :=
  List.all_eq_true.mp r.digit c h

theorem DigitRun.ne_nil (r : DigitRun) : r.chars ≠ [] :=
  List.isEmpty_eq_false_iff.mp r.nonempty

theorem DigitRun.exists_cons (r : DigitRun) : ∃ c ds, r.chars = c :: ds ∧ c.isDigit = true := by
  obtain ⟨c, ds, hr⟩ := List.exists_cons_of_ne_nil r.ne_nil
  exact ⟨c, ds, hr, isDigit_of_mem (hr ▸ List.mem_cons_self)⟩

theorem DigitRun.ofChars?_chars (r : DigitRun) : ofChars? r.chars = some r := by
  simp [ofChars?, r.nonempty, r.digit]

/-! ## Literals of integers -/

/-- A text of digits as a run. -/
def DigitRun.of (cs : List Char) (hne : cs ≠ []) (hd : ∀ c ∈ cs, c.isDigit = true) : DigitRun :=
  ⟨cs, List.isEmpty_eq_false_iff.mpr hne, List.all_eq_true.mpr hd⟩

/-- The digits of a number as a run. -/
def DigitRun.ofNat (n : Nat) : DigitRun :=
  .of (Text.digits n) (Text.digits_ne_nil n) fun _ => Text.isDigit_of_mem_digits

@[simp] theorem DigitRun.chars_ofNat (n : Nat) : (ofNat n).chars = Text.digits n := rfl

namespace Numeral

/-- The literal of an integer. -/
def ofInt (n : Int) : Numeral := ⟨n < 0, .ofNat n.natAbs, none, none⟩

/-- Decimal digits behind an optional sign are a JSON literal: no leading zero, and no sign but the minus. -/
theorem literal_ofInt (n : Int) : (ofInt n).Literal (Text.signed n) := by
  refine ⟨Text.digits_ne_zero_cons n.natAbs, [], .absent, ?_⟩
  by_cases hn : n < 0 <;> simp [Text.signed, mantissaText, ofInt, hn]

theorem toInt?_ofInt (n : Int) : (ofInt n).toInt? = some n := by
  have hcoefficient : (ofInt n).coefficient = n := by
    simp only [coefficient, fractionDigits, ofInt, DigitRun.chars_ofNat, List.append_nil, Text.ofDigits_digits,
      decide_eq_true_eq]
    split_ifs <;> omega
  exact congrArg some hcoefficient

end Numeral

/-! ## The bytes of a literal -/

/-- The bytes of characters below 128. -/
def bytes (cs : List Char) : List UInt8 :=
  cs.map Char.toUInt8

@[simp] theorem bytes_cons (c : Char) (cs : List Char) : bytes (c :: cs) = c.toUInt8 :: bytes cs := rfl

@[simp] theorem bytes_append (cs ds : List Char) : bytes (cs ++ ds) = bytes cs ++ bytes ds :=
  List.map_append

theorem toNat_of_isDigit {c : Char} (h : c.isDigit = true) : 48 ≤ c.toNat ∧ c.toNat ≤ 57 := by
  simp only [Char.isDigit, Bool.and_eq_true, decide_eq_true_eq] at h
  exact h

theorem toNat_toUInt8 {c : Char} (h : c.isDigit = true) : c.toUInt8.toNat = c.toNat := by
  have hle := (toNat_of_isDigit h).2
  exact Nat.mod_eq_of_lt (show c.toNat < 256 by omega)

theorem isDigit_toUInt8 {c : Char} (h : c.isDigit = true) : isDigit c.toUInt8 = true := by
  simp [isDigit, UInt8.le_iff_toNat_le, toNat_toUInt8 h, toNat_of_isDigit h]

theorem toUInt8_ne {c : Char} (h : c.isDigit = true) {b : UInt8} (hb : b.toNat < 48) : c.toUInt8 ≠ b := by
  rintro rfl
  have := (toNat_of_isDigit h).1
  rw [toNat_toUInt8 h] at hb
  omega

theorem asciiChar_toUInt8 {c : Char} (h : c.isDigit = true) : asciiChar c.toUInt8 = c := by
  rw [asciiChar, toNat_toUInt8 h, Char.ofNat_toNat]

/-- No digit comes next. -/
def EndsRun (rest : List UInt8) : Prop :=
  ∀ b ∈ rest.head?, isDigit b = false

@[simp] theorem endsRun_cons {b : UInt8} {rest : List UInt8} : EndsRun (b :: rest) ↔ isDigit b = false := by
  simp [EndsRun]

theorem EndsRun.takeWhile {rest : List UInt8} (h : EndsRun rest) : rest.takeWhile isDigit = [] := by
  cases rest with
  | nil => rfl
  | cons b rest => rw [List.takeWhile_cons_of_neg (by simpa using endsRun_cons.mp h)]

theorem EndsRun.dropWhile {rest : List UInt8} (h : EndsRun rest) : rest.dropWhile isDigit = rest := by
  cases rest with
  | nil => rfl
  | cons b rest => rw [List.dropWhile_cons_of_neg (by simpa using endsRun_cons.mp h)]

/-- Nothing comes next that could continue a number. -/
def EndsNumeral (rest : List UInt8) : Prop :=
  ∀ b ∈ rest.head?, isDigit b = false ∧ b ≠ point ∧ isExponentMark b = false

theorem EndsNumeral.endsRun {rest : List UInt8} (h : EndsNumeral rest) : EndsRun rest :=
  fun b hb => (h b hb).1

theorem endsNumeral_of_spaces {bs : List UInt8} (h : ∀ b ∈ bs, isSpace b = true) : EndsNumeral bs := by
  intro b hb
  have hspace := h b (List.mem_of_mem_head? hb)
  simp only [isSpace, Bool.or_eq_true, beq_iff_eq] at hspace
  rcases hspace with ((rfl | rfl) | rfl) | rfl <;> decide

/-! ## Reading the parts -/

theorem digitRun_bytes (r : DigitRun) {rest : List UInt8} (h : EndsRun rest) :
    digitRun (bytes r.chars ++ rest) = .ok (r, rest) := by
  have hdigits : ∀ b ∈ bytes r.chars, isDigit b = true := by
    intro b hb
    obtain ⟨c, hc, rfl⟩ := List.mem_map.mp hb
    exact isDigit_toUInt8 (r.isDigit_of_mem hc)
  have hchars : (bytes r.chars).map asciiChar = r.chars := by
    rw [bytes, List.map_map]
    exact (List.map_congr_left fun c hc => asciiChar_toUInt8 (r.isDigit_of_mem hc)).trans (List.map_id _)
  rw [digitRun, List.takeWhile_append_of_pos hdigits, List.dropWhile_append_of_pos hdigits, h.takeWhile, h.dropWhile,
    List.append_nil, hchars, r.ofChars?_chars]

/-- The digits before the point are read whole when they have no leading zero. -/
theorem wholeRun_bytes {r : DigitRun} (hr : ∀ d ds, r.chars ≠ '0' :: d :: ds) {rest : List UInt8} (h : EndsRun rest) :
    wholeRun (bytes r.chars ++ rest) = .ok (r, rest) := by
  simp only [wholeRun, digitRun_bytes r h, ok_bind]
  rfl

/-- The bytes of a fraction, if there is one. -/
def fractionBytes : Option DigitRun → List UInt8
  | some r => point :: bytes r.chars
  | none => []

theorem fractionRun_bytes (f : Option DigitRun) {rest : List UInt8} (h : EndsRun rest) (hp : point ∉ rest.head?) :
    fractionRun (fractionBytes f ++ rest) = .ok (f, rest) := by
  cases f with
  | none =>
    cases rest with
    | nil => rfl
    | cons b rest =>
      have hb : b ≠ point := by simpa using hp
      rw [fractionBytes, List.nil_append, fractionRun]
      intro rest heq
      exact hb (List.cons.inj heq).1
  | some r =>
    change (digitRun (bytes r.chars ++ rest)).bind (fun x => .ok (some x.1, x.2)) = _
    rw [digitRun_bytes r h]
    rfl

/-- Every spelling of an exponent is read as that exponent, whichever letter and sign it has. -/
theorem exponentPart_bytes {e : Option Exponent} {es : List Char} (h : SpellsExponent e es) {rest : List UInt8}
    (hr : EndsNumeral rest) : exponentPart (bytes es ++ rest) = .ok (e, rest) := by
  have hmark {c : Char} (hc : c = 'e' ∨ c = 'E') : isExponentMark c.toUInt8 := by
    rcases hc with rfl | rfl <;> rfl
  have hrun (r : DigitRun) : digitRun (bytes r.chars ++ rest) = .ok (r, rest) := digitRun_bytes r hr.endsRun
  cases h with
  | absent =>
    cases rest with
    | nil => rfl
    | cons b rest => exact if_neg (Bool.eq_false_iff.mp (hr b rfl).2.2)
  | signed hm e =>
    have hsign : exponentSign (bytes ((if e.negative then '-' else '+') :: e.digits.chars) ++ rest) =
        (e.negative, bytes e.digits.chars ++ rest) := by
      cases e.negative <;> rfl
    rw [bytes_cons, List.cons_append, exponentPart_cons (hmark hm), hsign, hrun, ok_bind]
    rfl
  | unsigned hm r =>
    obtain ⟨c, ds, hr, hc⟩ := r.exists_cons
    have hsign : exponentSign (bytes r.chars ++ rest) = (false, bytes r.chars ++ rest) := by
      rw [hr]
      exact exponentSign.eq_3 _ (fun _ h => toUInt8_ne hc (by decide) (List.cons.inj h).1)
        (fun _ h => toUInt8_ne hc (by decide) (List.cons.inj h).1)
    rw [bytes_cons, List.cons_append, exponentPart_cons (hmark hm), hsign, hrun, ok_bind]
    rfl

/-! ## Reading a literal -/

namespace Numeral

theorem bytes_mantissaText (n : Numeral) :
    bytes n.mantissaText =
      (if n.negative then [minus] else []) ++ (bytes n.whole.chars ++ fractionBytes n.fraction) := by
  unfold mantissaText
  rw [bytes_append, bytes_append, List.append_assoc]
  congr 1
  · split <;> rfl
  · cases n.fraction <;> rfl

/-- What an exponent part begins with is neither a digit nor a point. -/
theorem ends_of_spells {e : Option Exponent} {es : List Char} (h : SpellsExponent e es) {rest : List UInt8}
    (hr : EndsNumeral rest) : EndsRun (bytes es ++ rest) ∧ point ∉ (bytes es ++ rest).head? := by
  cases h with
  | absent => exact ⟨hr.endsRun, fun hp => (hr point hp).2.1 rfl⟩
  | signed hm | unsigned hm => rcases hm with rfl | rfl <;> exact ⟨endsRun_cons.mpr rfl, by simp; decide⟩

/-- The literal of a numeral is read as that numeral, up to where the literal ends. -/
theorem numeral_bytes {n : Numeral} {cs : List Char} (h : n.Literal cs) {rest : List UInt8} (hr : EndsNumeral rest) :
    numeral (bytes cs ++ rest) = .ok (n, rest) := by
  obtain ⟨hwhole, es, hes, rfl⟩ := h
  obtain ⟨hends, hpoint⟩ := ends_of_spells hes hr
  have hfraction : EndsRun (fractionBytes n.fraction ++ (bytes es ++ rest)) := by
    cases n.fraction with
    | none => exact hends
    | some r => exact endsRun_cons.mpr rfl
  have hsign : numeralSign (bytes (n.mantissaText ++ es) ++ rest) =
      (n.negative, bytes n.whole.chars ++ (fractionBytes n.fraction ++ (bytes es ++ rest))) := by
    rw [bytes_append, bytes_mantissaText, List.append_assoc, List.append_assoc, List.append_assoc]
    obtain ⟨c, ds, hr, hc⟩ := n.whole.exists_cons
    cases n.negative with
    | true => rfl
    | false =>
      rw [hr]
      exact numeralSign.eq_2 _ fun _ h => toUInt8_ne hc (by decide) (List.cons.inj h).1
  simp only [numeral_eq, hsign, wholeRun_bytes hwhole hfraction, fractionRun_bytes _ hends hpoint,
    exponentPart_bytes hes hr, ok_bind]
  rfl

/-- The first byte of a literal begins a number. -/
theorem bytes_eq_cons {n : Numeral} {cs : List Char} (h : n.Literal cs) :
    ∃ b rest, bytes cs = b :: rest ∧ (b = minus ∨ isDigit b = true) := by
  obtain ⟨-, es, -, rfl⟩ := h
  obtain ⟨c, ds, hr, hc⟩ := n.whole.exists_cons
  rw [bytes_append, bytes_mantissaText, hr]
  cases n.negative with
  | true => exact ⟨minus, _, rfl, .inl rfl⟩
  | false => exact ⟨c.toUInt8, _, rfl, .inr (isDigit_toUInt8 hc)⟩

end Numeral

theorem startsNumber_spec {b : UInt8} (h : b = minus ∨ isDigit b = true) :
    startsNumber b = true ∧ isSpace b = false ∧ b ≠ letterN ∧ b ≠ letterT ∧ b ≠ letterF := by
  have hle : 0x2D ≤ b.toNat ∧ b.toNat ≤ 0x39 := by
    rcases h with rfl | h
    · decide
    · simp only [isDigit, Bool.and_eq_true, decide_eq_true_eq, UInt8.le_iff_toNat_le] at h
      have h₁ : 0x30 ≤ b.toNat := h.1
      have h₂ : b.toNat ≤ 0x39 := h.2
      omega
  have hne {c : UInt8} (hc : c.toNat < 0x2D ∨ 0x39 < c.toNat) : b ≠ c := by
    rintro rfl
    omega
  refine ⟨?_, ?_, hne (by decide), hne (by decide), hne (by decide)⟩
  · rcases h with rfl | h
    · rfl
    · rw [startsNumber, h, Bool.or_true]
  · simp only [isSpace, Bool.or_eq_false_iff, beq_eq_false_iff_ne]
    exact ⟨⟨⟨hne (by decide), hne (by decide)⟩, hne (by decide)⟩, hne (by decide)⟩

theorem value_number {bs more rest : List UInt8} {b : UInt8} {n : Numeral} (hb : b = minus ∨ isDigit b = true)
    (hs : skipSpace bs = b :: more) (hn : numeral (b :: more) = .ok (n, rest)) (levels : Nat) :
    value levels bs = .ok (.number n, rest) := by
  obtain ⟨hstart, -, hnull, htrue, hfalse⟩ := startsNumber_spec hb
  have hwith (list object : Reader Json) : valueWith list object bs = .ok (.number n, rest) := by
    unfold valueWith
    rw [hs]
    dsimp only
    rw [if_neg hnull, if_neg htrue, if_neg hfalse, if_pos hstart, hn]
    rfl
  cases levels <;> exact hwith _ _

theorem atEnd_eq_ok_iff {bs : List UInt8} : atEnd bs = .ok () ↔ ∀ b ∈ bs, isSpace b = true := by
  rw [atEnd, skipSpace, ← List.dropWhile_eq_nil_iff]
  split_ifs with hempty
  · simpa using hempty
  · simpa using hempty

/-- A literal between blanks is read as its parts. -/
theorem parse_blanks {n : Numeral} {cs : List Char} (h : n.Literal cs) {before after : List UInt8}
    (hb : ∀ b ∈ before, isSpace b = true) (ha : ∀ b ∈ after, isSpace b = true) :
    parse (before ++ (bytes cs ++ after)) = .ok (.number n) := by
  obtain ⟨b, more, hbytes, hstart⟩ := Numeral.bytes_eq_cons h
  have hread := Numeral.numeral_bytes h (endsNumeral_of_spaces ha)
  have hskip : skipSpace (before ++ (bytes cs ++ after)) = bytes cs ++ after := by
    rw [skipSpace, List.dropWhile_append_of_pos hb, hbytes, List.cons_append,
      List.dropWhile_cons_of_neg (by simp [(startsNumber_spec hstart).2.1])]
  rw [hbytes, List.cons_append] at hread hskip
  rw [parse, whole, hbytes, List.cons_append, value_number hstart hskip hread, ok_bind]
  simp only [atEnd_eq_ok_iff.mpr ha, ok_bind]
  rfl

theorem parse_literal {n : Numeral} {cs : List Char} (h : n.Literal cs) :
    parse (ascii (String.ofList cs)) = .ok (.number n) := by
  have hread : parse ([] ++ (bytes cs ++ [])) = .ok (.number n) := parse_blanks h nofun nofun
  rw [List.nil_append, List.append_nil] at hread
  rw [ascii, String.toList_ofList]
  exact hread

end Rowset.Json
