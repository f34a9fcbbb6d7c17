import Rowset.Proofs.Json.Literal
import Rowset.Proofs.Text.Position

/-!
# Which texts are numbers

A number is written as its literal, or as an object whose only member has the key `numberKey` and, for its value, a
string that is the literal (`SpellsNumber`).  Both are read, and the readers take nothing but these texts for numbers, so
the grammar is exact (`parse_eq_number_iff`).  The key decides before anything behind it is read: an object that begins
with it is a number or nothing (`number_of_objectOf`).
-/

namespace Rowset.Json

/-! ## Literals -/

theorem bytes_map_asciiChar {bs : List UInt8} (h : ∀ b ∈ bs, isDigit b = true) : bytes (bs.map asciiChar) = bs := by
  have hchar {b : UInt8} (hb : isDigit b = true) : (asciiChar b).toUInt8 = b := by
    simp only [isDigit, Bool.and_eq_true, decide_eq_true_eq, UInt8.le_iff_toNat_le] at hb
    have hsmall : ∀ n < 0x3A, (Char.ofNat n).toUInt8 = UInt8.ofNat n := by decide
    rw [asciiChar, hsmall b.toNat (Nat.lt_succ_of_le hb.2), UInt8.ofNat_toNat]
  rw [bytes, List.map_map]
  exact (List.map_congr_left fun b hb => hchar (h b hb)).trans (List.map_id _)

/-- A run that was read is spelled by the bytes it was read from. -/
theorem of_digitRun {bs rest : List UInt8} {r : DigitRun} (h : digitRun bs = .ok (r, rest)) :
    bs = bytes r.chars ++ rest := by
  unfold digitRun at h
  split at h
  · next hr =>
    cases h
    have hchars : r.chars = (bs.takeWhile isDigit).map asciiChar := by
      unfold DigitRun.ofChars? at hr
      split_ifs at hr
      cases hr
      rfl
    rw [hchars, bytes_map_asciiChar fun b hb => List.mem_takeWhile_imp hb, List.takeWhile_append_dropWhile]
  · cases h

theorem of_wholeRun {bs rest : List UInt8} {r : DigitRun} (h : wholeRun bs = .ok (r, rest)) :
    (∀ d ds, r.chars ≠ '0' :: d :: ds) ∧ bs = bytes r.chars ++ rest := by
  simp only [wholeRun, bind_eq_ok] at h
  obtain ⟨⟨r', after⟩, hr, h⟩ := h
  split at h
  · simp at h
  · next hz =>
    cases h
    exact ⟨hz, of_digitRun hr⟩

theorem of_fractionRun {bs rest : List UInt8} {f : Option DigitRun} (h : fractionRun bs = .ok (f, rest)) :
    bs = fractionBytes f ++ rest := by
  unfold fractionRun at h
  split at h
  · simp only [bind_pure_comp, map_eq_ok, Prod.exists] at h
    obtain ⟨r, after, hr, h⟩ := h
    cases h
    rw [of_digitRun hr]
    rfl
  · cases h
    rfl

/-- Either a sign was taken, or nothing was and the exponent counts as positive. -/
theorem exponentSign_cases (bs : List UInt8) :
    bs = (if (exponentSign bs).1 then minus else plus) :: (exponentSign bs).2 ∨ exponentSign bs = (false, bs) := by
  unfold exponentSign
  split <;> simp

/-- An exponent that was read has one of its spellings in the bytes it was read from. -/
theorem of_exponentPart {bs rest : List UInt8} {e : Option Exponent} (h : exponentPart bs = .ok (e, rest)) :
    ∃ es, SpellsExponent e es ∧ bs = bytes es ++ rest := by
  cases bs with
  | nil =>
    cases h
    exact ⟨[], .absent, rfl⟩
  | cons b bs =>
    by_cases hb : isExponentMark b
    · rw [exponentPart_cons hb] at h
      simp only [bind_pure_comp, map_eq_ok, Prod.exists] at h
      obtain ⟨r, after, hr, h⟩ := h
      cases h
      have hmark : ∃ mark : Char, (mark = 'e' ∨ mark = 'E') ∧ mark.toUInt8 = b := by
        simp only [isExponentMark, Bool.or_eq_true, beq_iff_eq] at hb
        rcases hb with rfl | rfl
        · exact ⟨'e', .inl rfl, rfl⟩
        · exact ⟨'E', .inr rfl, rfl⟩
      obtain ⟨mark, hm, rfl⟩ := hmark
      have hdigits := of_digitRun hr
      rcases exponentSign_cases bs with hsign | hsign
      · generalize exponentSign bs = sign at hdigits hsign
        refine ⟨_, .signed hm ⟨sign.1, r⟩, ?_⟩
        rw [hsign, hdigits]
        cases sign.1 <;> rfl
      · rw [hsign] at hdigits ⊢
        exact ⟨_, .unsigned hm r, by rw [bytes_cons, List.cons_append, ← hdigits]⟩
    · have hnone : exponentPart (b :: bs) = .ok (none, b :: bs) := if_neg hb
      rw [hnone] at h
      cases h
      exact ⟨[], .absent, rfl⟩

theorem numeralSign_spec (bs : List UInt8) :
    bs = (if (numeralSign bs).1 then [minus] else []) ++ (numeralSign bs).2 := by
  unfold numeralSign
  split <;> rfl

/-- What is read as a number begins with a literal. -/
theorem literal_of_numeral {bs rest : List UInt8} {n : Numeral} (h : numeral bs = .ok (n, rest)) :
    ∃ cs, n.Literal cs ∧ bs = bytes cs ++ rest := by
  rw [numeral_eq] at h
  simp only [bind_pure_comp, bind_eq_ok, map_eq_ok, Prod.mk.injEq, Prod.exists] at h
  obtain ⟨w, after, hw, f, after', hf, e, after'', he, rfl, rfl⟩ := h
  obtain ⟨hzero, hwhole⟩ := of_wholeRun hw
  obtain ⟨es, hes, hexponent⟩ := of_exponentPart he
  refine ⟨_, ⟨hzero, es, hes, rfl⟩, ?_⟩
  rw [bytes_append, Numeral.bytes_mantissaText, List.append_assoc, List.append_assoc, List.append_assoc, ← hexponent,
    ← of_fractionRun hf, ← hwhole]
  exact numeralSign_spec bs

/-- What reads to the end of a text as a number is a literal. -/
theorem numeral_eq_ok_nil_iff {bs : List UInt8} {n : Numeral} :
    numeral bs = .ok (n, []) ↔ ∃ cs, n.Literal cs ∧ bs = bytes cs := by
  constructor
  · intro h
    obtain ⟨cs, hcs, hbs⟩ := literal_of_numeral h
    exact ⟨cs, hcs, hbs.trans (List.append_nil _)⟩
  · rintro ⟨cs, hcs, rfl⟩
    have hread : numeral (bytes cs ++ []) = .ok (n, []) := Numeral.numeral_bytes hcs nofun
    rwa [List.append_nil] at hread

/-! ## Literals in strings -/

theorem SpellsExponent.lt_of_mem {e : Option Exponent} {es : List Char} (h : SpellsExponent e es) {c : Char}
    (hc : c ∈ es) : c.toNat < 128 := by
  have hdigit {r : DigitRun} (hr : c ∈ r.chars) : c.toNat < 128 := by
    have := (toNat_of_isDigit (r.isDigit_of_mem hr)).2
    omega
  cases h with
  | absent => cases hc
  | signed hm e =>
    simp only [List.mem_cons] at hc
    rcases hc with rfl | rfl | hc
    · rcases hm with rfl | rfl <;> decide
    · split <;> decide
    · exact hdigit hc
  | unsigned hm r =>
    rcases List.mem_cons.mp hc with rfl | hc
    · rcases hm with rfl | rfl <;> decide
    · exact hdigit hc

namespace Numeral

/-- A literal is written in ASCII. -/
theorem Literal.lt_of_mem {n : Numeral} {cs : List Char} (h : n.Literal cs) {c : Char} (hc : c ∈ cs) :
    c.toNat < 128 := by
  have hdigit {r : DigitRun} (hr : c ∈ r.chars) : c.toNat < 128 := by
    have := (toNat_of_isDigit (r.isDigit_of_mem hr)).2
    omega
  obtain ⟨-, es, hes, rfl⟩ := h
  simp only [mantissaText, List.mem_append] at hc
  rcases hc with ((hc | hc) | hc) | hc
  · split at hc
    · obtain rfl := List.mem_singleton.mp hc
      decide
    · cases hc
  · exact hdigit hc
  · split at hc
    · rcases List.mem_cons.mp hc with rfl | hc
      · decide
      · exact hdigit hc
    · cases hc
  · exact hes.lt_of_mem hc

/-- A literal is ASCII, so its text and its bytes are one and the same. -/
theorem encode_literal {n : Numeral} {cs : List Char} (h : n.Literal cs) : Text.Utf8.encode cs = bytes cs :=
  Text.encode_of_ascii fun _ hc => h.lt_of_mem hc

/-- A string is taken for a number if it is a literal and nothing else. -/
theorem ofText?_eq_some_iff {s : String} {n : Numeral} : ofText? s = some n ↔ n.Literal s.toList := by
  have hread : ofText? s = some n ↔ numeral (Text.Utf8.encode s.toList) = .ok (n, []) := by
    unfold ofText?
    split
    · next m hm => simp [hm]
    · next hnone =>
      constructor
      · rintro ⟨⟩
      · exact fun h => absurd h (hnone n)
  rw [hread, numeral_eq_ok_nil_iff]
  constructor
  · rintro ⟨cs, hcs, hbytes⟩
    rw [← encode_literal hcs] at hbytes
    exact Text.encode_injective hbytes ▸ hcs
  · exact fun h => ⟨_, h, encode_literal h⟩

end Numeral

/-! ## Tokens -/

/-- The texts of a byte with blanks in front of it. -/
def Token (b : UInt8) (text : List UInt8) : Prop :=
  ∃ blanks, (∀ c ∈ blanks, isSpace c = true) ∧ text = blanks ++ [b]

/-- The texts of a string from behind its opening quote, the closing one included. -/
def SpellsString (s : String) (text : List UInt8) : Prop :=
  quoted text = .ok (s, [])

theorem Token.skipSpace_append {b : UInt8} {text : List UInt8} (h : Token b text) (hb : isSpace b = false)
    (rest : List UInt8) : skipSpace (text ++ rest) = b :: rest := by
  obtain ⟨blanks, hblanks, rfl⟩ := h
  rw [List.append_assoc, skipSpace, List.dropWhile_append_of_pos hblanks]
  exact List.dropWhile_cons_of_neg (by simp [hb])

theorem exists_token {b : UInt8} {bs rest : List UInt8} (h : skipSpace bs = b :: rest) :
    ∃ text, Token b text ∧ bs = text ++ rest := by
  refine ⟨bs.takeWhile isSpace ++ [b], ⟨_, fun _ hc => List.mem_takeWhile_imp hc, rfl⟩, ?_⟩
  rw [List.append_assoc, List.singleton_append, ← h]
  exact List.takeWhile_append_dropWhile.symm

/-- A string is read from its text alone. -/
theorem exists_of_quotedFrom {seen bs found rest : List UInt8} (h : quotedFrom seen bs = .ok (found, rest)) :
    ∃ text, quotedFrom seen text = .ok (found, []) ∧ bs = text ++ rest := by
  fun_induction quotedFrom seen bs with
  | case2 seen after =>
    cases h
    exact ⟨[quoteMark], rfl, rfl⟩
  | case5 seen a b c d n hn hnt hl a' b' c' d' after m hm ht ih =>
    obtain ⟨text, htext, rfl⟩ := ih h
    exact ⟨_, (quotedFrom_pair hn hm hnt hl ht _ _).trans htext, rfl⟩
  | case12 seen a b c d after n hn ht hl ih =>
    obtain ⟨text, htext, rfl⟩ := ih h
    exact ⟨_, (quotedFrom_unit hn ht hl _ _).trans htext, rfl⟩
  | case15 seen b after hu e he ih =>
    obtain ⟨text, htext, rfl⟩ := ih h
    refine ⟨backslash :: b :: text, (quotedFrom_escape hu _ _).trans ?_, rfl⟩
    rw [he]
    exact htext
  | case18 seen b after hq _ hs hs' hb ih =>
    obtain ⟨text, htext, rfl⟩ := ih h
    exact ⟨b :: text, (quotedFrom_plain hq (ne_backslash hs hs') _ _).trans ((if_neg hb).trans htext), rfl⟩
  | _ => contradiction

/-- A string is read exactly where one of its spellings starts the text. -/
theorem quoted_eq_ok_iff {bs rest : List UInt8} {s : String} :
    quoted bs = .ok (s, rest) ↔ ∃ text, SpellsString s text ∧ bs = text ++ rest := by
  constructor
  · intro h
    simp only [quoted, bind_eq_ok] at h
    obtain ⟨⟨found, after⟩, hfound, h⟩ := h
    obtain ⟨text, htext, rfl⟩ := exists_of_quotedFrom hfound
    split at h
    · next cs hcs =>
      cases h
      refine ⟨text, ?_, rfl⟩
      simp only [SpellsString, quoted, htext, ok_bind, hcs]
      rfl
    · cases h
  · rintro ⟨text, htext, rfl⟩
    exact closes_quoted htext rest

theorem stringField_eq_ok_iff {bs rest : List UInt8} {s : String} :
    stringField bs = .ok (s, rest) ↔
      ∃ mark text, Token quoteMark mark ∧ SpellsString s text ∧ bs = mark ++ (text ++ rest) := by
  constructor
  · intro h
    unfold stringField at h
    split at h
    · next hmark =>
      obtain ⟨mark, htoken, rfl⟩ := exists_token hmark
      obtain ⟨text, htext, rfl⟩ := quoted_eq_ok_iff.mp h
      exact ⟨mark, text, htoken, htext, rfl⟩
    · cases h
  · rintro ⟨mark, text, htoken, htext, rfl⟩
    unfold stringField
    rw [htoken.skipSpace_append rfl]
    exact quoted_eq_ok_iff.mpr ⟨text, htext, rfl⟩

/-- The first key of an object is a string where nothing else is wanted. -/
theorem nextKey_eq_ok_some_iff {bs rest : List UInt8} {key : String} :
    nextKey true bs = .ok (some (key, rest)) ↔ stringField bs = .ok (key, rest) := by
  unfold stringField
  cases hb : skipSpace bs with
  | nil => simp [nextKey, hb]
  | cons b after =>
    rw [nextKey_cons hb, if_pos rfl]
    by_cases hquote : b = quoteMark
    · subst hquote
      rw [if_neg (by decide), if_pos rfl, map_eq_ok]
      constructor
      · rintro ⟨_, h, ⟨⟩⟩
        exact h
      · exact fun h => ⟨_, h, rfl⟩
    · rw [if_neg hquote]
      split_ifs <;> split <;> simp_all

/-! ## Numbers -/

/-- The texts of a number as an object, from behind the opening brace: the key, the literal as a string, and nothing
else. -/
inductive SpellsMarked (n : Numeral) : List UInt8 → Prop
  | intro {t₀ key t₁ t₂ text t₃ : List UInt8} {s : String} (hopen : Token quoteMark t₀)
      (hkey : SpellsString numberKey key) (hcolon : Token colon t₁) (hquote : Token quoteMark t₂)
      (htext : SpellsString s text) (hs : n.Literal s.toList) (hend : Token closeObject t₃) :
      SpellsMarked n (t₀ ++ (key ++ (t₁ ++ (t₂ ++ (text ++ t₃)))))

/-- The texts of a number. -/
inductive SpellsNumber (n : Numeral) : List UInt8 → Prop
  | literal {cs : List Char} (h : n.Literal cs) : SpellsNumber n (bytes cs)
  | marked {text : List UInt8} (h : SpellsMarked n text) : SpellsNumber n (openObject :: text)

/-- Behind the key only a string with a literal is read, and then the end of the object. -/
theorem markedNumber_eq_ok_iff {bs rest : List UInt8} {v : Json} :
    markedNumber bs = .ok (v, rest) ↔
      ∃ n s t₁ t₂ text t₃, v = .number n ∧ n.Literal s.toList ∧ Token colon t₁ ∧ Token quoteMark t₂ ∧
        SpellsString s text ∧ Token closeObject t₃ ∧ bs = t₁ ++ (t₂ ++ (text ++ (t₃ ++ rest))) := by
  simp only [markedNumber, bind_eq_ok, Prod.exists]
  constructor
  · rintro ⟨_, hk, s, _, hs, h⟩
    obtain ⟨t₁, ht₁, rfl⟩ := exists_token (endKey_eq_ok.mp hk)
    obtain ⟨t₂, text, ht₂, htext, rfl⟩ := stringField_eq_ok_iff.mp hs
    split at h
    · next n hn =>
      simp only [bind_pure_comp, map_eq_ok, Prod.mk.injEq] at h
      obtain ⟨_, he, rfl, rfl⟩ := h
      obtain ⟨t₃, ht₃, rfl⟩ := exists_token (endObject_eq_ok.mp he)
      exact ⟨n, s, t₁, t₂, text, t₃, rfl, Numeral.ofText?_eq_some_iff.mp hn, ht₁, ht₂, htext, ht₃, rfl⟩
    · contradiction
  · rintro ⟨n, s, t₁, t₂, text, t₃, rfl, hn, ht₁, ht₂, htext, ht₃, rfl⟩
    refine ⟨_, endKey_eq_ok.mpr (ht₁.skipSpace_append rfl _), s, _,
      stringField_eq_ok_iff.mpr ⟨t₂, text, ht₂, htext, rfl⟩, ?_⟩
    rw [Numeral.ofText?_eq_some_iff.mpr hn]
    simp only [bind_pure_comp, map_eq_ok, Prod.mk.injEq, true_and]
    exact ⟨rest, endObject_eq_ok.mpr (ht₃.skipSpace_append rfl _), rfl⟩

/-- An object that begins with the key of numbers is a number if it can be read at all. -/
theorem number_of_objectOf {read : Reader Json} {bs after rest : List UInt8} {v : Json}
    (hkey : nextKey true bs = .ok (some (numberKey, after))) (h : objectOf read bs = .ok (v, rest)) :
    ∃ n, v = .number n := by
  rw [objectOf, hkey, ok_bind] at h
  obtain ⟨n, -, -, -, -, -, rfl, -⟩ := markedNumber_eq_ok_iff.mp h
  exact ⟨n, rfl⟩

/-- Among the objects only those that begin with the key of numbers are numbers. -/
theorem objectOf_eq_number_iff {read : Reader Json} {bs rest : List UInt8} {n : Numeral} :
    objectOf read bs = .ok (.number n, rest) ↔
      ∃ after, nextKey true bs = .ok (some (numberKey, after)) ∧ markedNumber after = .ok (.number n, rest) := by
  constructor
  · intro h
    simp only [objectOf, bind_eq_ok] at h
    obtain ⟨place, hn, h⟩ := h
    rcases place with _ | ⟨key, after⟩
    · simp at h
    · dsimp only at h
      split_ifs at h with hkey
      · exact ⟨after, hkey ▸ hn, h⟩
      · simp at h
  · rintro ⟨after, hkey, h⟩
    rw [objectOf, hkey, ok_bind]
    exact h

/-- An object is read as a number exactly if it is written as one. -/
theorem objectOf_eq_number_iff_spells {read : Reader Json} {bs rest : List UInt8} {n : Numeral} :
    objectOf read bs = .ok (.number n, rest) ↔ ∃ text, SpellsMarked n text ∧ bs = text ++ rest := by
  rw [objectOf_eq_number_iff]
  constructor
  · rintro ⟨after, hfirst, h⟩
    obtain ⟨t₀, key, ht₀, hkey, rfl⟩ := stringField_eq_ok_iff.mp (nextKey_eq_ok_some_iff.mp hfirst)
    obtain ⟨_, s, t₁, t₂, text, t₃, ⟨⟩, hn, ht₁, ht₂, htext, ht₃, rfl⟩ := markedNumber_eq_ok_iff.mp h
    exact ⟨_, .intro ht₀ hkey ht₁ ht₂ htext hn ht₃, by simp only [List.append_assoc]⟩
  · rintro ⟨_, @⟨t₀, key, t₁, t₂, text, t₃, s, ht₀, hkey, ht₁, ht₂, htext, hs, ht₃⟩, rfl⟩
    refine ⟨t₁ ++ (t₂ ++ (text ++ (t₃ ++ rest))), nextKey_eq_ok_some_iff.mpr (stringField_eq_ok_iff.mpr ?_),
      markedNumber_eq_ok_iff.mpr ⟨n, s, t₁, t₂, text, t₃, rfl, hs, ht₁, ht₂, htext, ht₃, rfl⟩⟩
    exact ⟨t₀, key, ht₀, hkey, by simp only [List.append_assoc]⟩

/-- What is read as a number spells one, behind blanks. -/
theorem exists_of_value {levels : Nat} {bs rest : List UInt8} {n : Numeral}
    (h : value levels bs = .ok (.number n, rest)) :
    ∃ blanks text, (∀ b ∈ blanks, isSpace b = true) ∧ SpellsNumber n text ∧ bs = blanks ++ (text ++ rest) := by
  have hwith {list object : Reader Json} (hl : ∀ bs, list bs ≠ .ok (.number n, rest))
      (ho : ∀ bs, object bs = .ok (.number n, rest) → ∃ text, SpellsMarked n text ∧ bs = text ++ rest)
      (h : valueWith list object bs = .ok (.number n, rest)) :
      ∃ text, SpellsNumber n text ∧ skipSpace bs = text ++ rest := by
    unfold valueWith at h
    split at h
    · cases h
    · next b after hb =>
      rw [hb]
      split_ifs at h with _ _ _ _ _ _ hopen
      · simp at h
      · simp at h
      · simp at h
      · have hread : numeral (b :: after) = .ok (n, rest) := by simpa using h
        obtain ⟨cs, hcs, hbytes⟩ := literal_of_numeral hread
        exact ⟨_, .literal hcs, hbytes⟩
      · simp at h
      · exact absurd h (hl _)
      · obtain ⟨text, htext, rfl⟩ := ho _ h
        exact ⟨_, .marked htext, hopen ▸ rfl⟩
  obtain ⟨text, htext, hskip⟩ : ∃ text, SpellsNumber n text ∧ skipSpace bs = text ++ rest := by
    cases levels with
    | zero => exact hwith (fun _ => by simp) (fun _ h => by simp at h) h
    | succ levels => exact hwith (fun _ => by simp [arrayOf]) (fun _ => objectOf_eq_number_iff_spells.mp) h
  refine ⟨bs.takeWhile isSpace, text, fun _ hb => List.mem_takeWhile_imp hb, htext, ?_⟩
  rw [← hskip]
  exact List.takeWhile_append_dropWhile.symm

theorem value_object {bs rest : List UInt8} (h : skipSpace bs = openObject :: rest) (levels : Nat) :
    value (levels + 1) bs = objectOf (value levels) rest := by
  rw [value, valueWith, h]
  rfl

/-- Exactly the texts of numbers, with blanks around them, are read as numbers. -/
theorem parse_eq_number_iff {bs : List UInt8} {n : Numeral} :
    parse bs = .ok (.number n) ↔
      ∃ before text after, (∀ b ∈ before, isSpace b = true) ∧ (∀ b ∈ after, isSpace b = true) ∧
        SpellsNumber n text ∧ bs = before ++ (text ++ after) := by
  constructor
  · intro h
    simp only [parse, whole, bind_eq_ok, pure_eq_ok, Prod.exists] at h
    obtain ⟨v, rest, hv, _, hend, rfl⟩ := h
    obtain ⟨blanks, text, hblanks, htext, rfl⟩ := exists_of_value hv
    exact ⟨blanks, text, rest, hblanks, atEnd_eq_ok_iff.mp hend, htext, rfl⟩
  · rintro ⟨before, text, after, hb, ha, htext, rfl⟩
    cases htext with
    | literal h => exact parse_blanks h hb ha
    | @marked text h =>
      have hopen : Token openObject (before ++ [openObject]) := ⟨before, hb, rfl⟩
      have hskip := hopen.skipSpace_append rfl (text ++ after)
      rw [List.append_assoc] at hskip
      have hread := (value_object hskip 126).trans (objectOf_eq_number_iff_spells.mpr ⟨text, h, rfl⟩)
      simp only [parse, whole, bind_eq_ok, pure_eq_ok, Prod.exists]
      exact ⟨_, after, hread, (), atEnd_eq_ok_iff.mpr ha, rfl⟩

end Rowset.Json
