import Rowset.Proofs.Json.Consumption

/-!
# Readers on longer texts

What stands behind a value does not change how the value is read.  A number is the only value without an end of
its own, so there are two versions of this.  A reader that `Stops` has to have stopped in front of a byte; then
that byte is all it saw of what follows.  A reader that `Closes` has read a byte that ends what it reads and has
not looked any further.

A longer text also means more fuel for the loops, so the lemmas about them compare two amounts of fuel.

The main statement is `closes_document`.
-/

namespace Rowset.Json

variable {α σ : Type}

/-- However the text goes on, the same is read and the rest of the text is left. -/
def Closes (read : Reader α) : Prop :=
  ∀ ⦃bs a rest⦄, read bs = .ok (a, rest) → ∀ more, read (bs ++ more) = .ok (a, rest ++ more)

/-- Once something is left, the text may go on behind it: the same is read, and more is left. -/
def Stops (read : Reader α) : Prop :=
  ∀ ⦃bs a rest⦄, read bs = .ok (a, rest) → rest ≠ [] → ∀ more, read (bs ++ more) = .ok (a, rest ++ more)

/-! ## What follows a reader -/

/-- A reader that ends on a closing byte stops wherever its value stops. -/
theorem Closes.stops {read : Reader α} (h : Closes read) : Stops read :=
  fun _ _ _ hr _ => h hr

/-- What becomes of the value that was read does not matter. -/
theorem append_of_changed {α β : Type} {read : Reader α} (h : Stops read) {f : α → β} {bs rest : List UInt8}
    {b : β} (hr : (do let (a, rest) ← read bs; return (f a, rest)) = Except.ok (b, rest)) (hne : rest ≠ [])
    (more : List UInt8) :
    (do let (a, rest) ← read (bs ++ more); return (f a, rest)) = Except.ok (b, rest ++ more) := by
  simp only [bind_pure_comp, map_eq_ok, Prod.mk.injEq, Prod.exists] at hr ⊢
  obtain ⟨a, after, ha, rfl, rfl⟩ := hr
  exact ⟨a, _, h ha hne more, rfl, rfl⟩

/-- Putting a value beside what is left changes nothing about what is left. -/
theorem append_of_tagged {a a' : α} {x y : Except Fault (List UInt8)} {rest more : List UInt8}
    (hx : ∀ r, x = .ok r → y = .ok (r ++ more)) (h : (do return (a, ← x)) = Except.ok (a', rest)) :
    (do return (a, ← y)) = Except.ok (a', rest ++ more) := by
  simp only [bind_pure_comp, map_eq_ok, Prod.mk.injEq] at h ⊢
  obtain ⟨r, hr, rfl, rfl⟩ := h
  exact ⟨_, hx r hr, rfl, rfl⟩

/-- A reader that leaves something was given something. -/
theorem ne_nil_of_length_le {bs rest : List UInt8} (h : rest.length ≤ bs.length) (hne : rest ≠ []) :
    bs ≠ [] := by
  rintro rfl
  exact hne (List.length_eq_zero_iff.mp (Nat.le_zero.mp h))

/-- A reader that leaves something was given something. -/
theorem Shrinks.ne_nil {read : Reader α} (h : Shrinks read) {bs rest : List UInt8} {a : α}
    (hr : read bs = .ok (a, rest)) (hne : rest ≠ []) : bs ≠ [] :=
  ne_nil_of_length_le (h hr) hne

/-! ## Words and strings -/

theorem skipSpace_append {bs rest : List UInt8} {b : UInt8} (h : skipSpace bs = b :: rest) (more : List UInt8) :
    skipSpace (bs ++ more) = b :: (rest ++ more) := by
  unfold skipSpace at h ⊢
  rw [List.dropWhile_append, h]
  rfl

theorem word_append {ws bs rest : List UInt8} (h : word ws bs = .ok rest) (more : List UInt8) :
    word ws (bs ++ more) = .ok (rest ++ more) := by
  fun_induction word ws bs with
  | case1 bs => simp_all [word]
  | case2 => simp at h
  | case3 w ws bs ih => simpa [word] using ih h
  | case4 => simp at h

theorem quotedFrom_escape {b : UInt8} (hu : b ≠ letterU) (seen rest : List UInt8) :
    quotedFrom seen (backslash :: b :: rest) =
      match escaped? b with
      | some e => quotedFrom (e :: seen) rest
      | none => .error .malformed :=
  quotedFrom.eq_6 seen b rest hu

theorem quotedFrom_plain {b : UInt8} (hq : b ≠ quoteMark) (hs : b ≠ backslash) (seen rest : List UInt8) :
    quotedFrom seen (b :: rest) = if b < 0x20 then .error .malformed else quotedFrom (b :: seen) rest :=
  quotedFrom.eq_7 seen b rest hq (fun _ h => absurd h hs) (fun h => absurd h hs) (fun _ _ h => absurd h hs)

/-- The escape of a character in the basic plane. -/
theorem quotedFrom_unit {a b c d : UInt8} {n : Nat} (hn : hexUnit? a b c d = some n)
    (ht : ¬isTrailingSurrogate n) (hl : ¬isLeadingSurrogate n) (seen rest : List UInt8) :
    quotedFrom seen (backslash :: letterU :: a :: b :: c :: d :: rest) = quotedFrom (backwards n ++ seen) rest := by
  refine (quotedFrom.eq_3 seen a b c d rest).trans ?_
  simp only [hn, ht, hl, Bool.false_eq_true, if_false]

/-- The escapes of a pair of surrogates. -/
theorem quotedFrom_pair {a b c d a' b' c' d' : UInt8} {n m : Nat} (hn : hexUnit? a b c d = some n)
    (hm : hexUnit? a' b' c' d' = some m)
    (hnt : ¬isTrailingSurrogate n) (hl : isLeadingSurrogate n) (ht : isTrailingSurrogate m) (seen rest : List UInt8) :
    quotedFrom seen (backslash :: letterU :: a :: b :: c :: d ::
        backslash :: letterU :: a' :: b' :: c' :: d' :: rest) =
      quotedFrom (backwards (0x10000 + (n - 0xD800) * 0x400 + (m - 0xDC00)) ++ seen) rest := by
  refine (quotedFrom.eq_3 seen a b c d _).trans ?_
  simp only [hn, hnt, hl, Bool.false_eq_true, if_false, if_true]
  split
  case h_1 heq =>
    simp only [List.cons.injEq] at heq
    obtain ⟨-, -, rfl, rfl, rfl, rfl, rfl⟩ := heq
    rw [hm]
    exact if_pos ht
  case h_2 heq => cases heq
  case h_3 heq => cases heq
  case h_4 hshort heq => exact absurd (List.cons.inj (List.cons.inj heq).2).2.symm (hshort _ _ _ _ _)
  case h_5 hfull _ _ _ => exact absurd rfl (hfull _ _ _ _ _)

theorem skipQuoted_escape {b : UInt8} (hu : b ≠ letterU) (rest : List UInt8) :
    skipQuoted (backslash :: b :: rest) = if (escaped? b).isSome then skipQuoted rest else .error .malformed :=
  skipQuoted.eq_6 b rest hu

theorem skipQuoted_plain {b : UInt8} (hq : b ≠ quoteMark) (hs : b ≠ backslash) (rest : List UInt8) :
    skipQuoted (b :: rest) = if b < 0x20 then .error .malformed else skipQuoted rest :=
  skipQuoted.eq_7 b rest hq (fun _ h => absurd h hs) (fun h => absurd h hs) (fun _ _ h => absurd h hs)

/-- A backslash is followed by something or by nothing. -/
theorem ne_backslash {b : UInt8} {rest : List UInt8} (h₀ : b = backslash → rest = [] → False)
    (h₁ : ∀ b' rest', b = backslash → rest = b' :: rest' → False) : b ≠ backslash := by
  intro hb
  cases rest with
  | nil => exact h₀ hb rfl
  | cons b' rest' => exact h₁ b' rest' hb rfl

/-- A string that is closed reads the same with anything behind it. -/
theorem quotedFrom_append {seen bs bytes rest : List UInt8} (h : quotedFrom seen bs = .ok (bytes, rest))
    (more : List UInt8) : quotedFrom seen (bs ++ more) = .ok (bytes, rest ++ more) := by
  fun_induction quotedFrom seen bs with
  | case2 seen after =>
    cases h
    rfl
  | case5 seen a b c d n hn hnt hl a' b' c' d' after m hm ht ih =>
    exact (quotedFrom_pair hn hm hnt hl ht _ _).trans (ih h)
  | case12 seen a b c d after n hn ht hl ih =>
    exact (quotedFrom_unit hn ht hl _ _).trans (ih h)
  | case15 seen b after hu e he ih =>
    refine (quotedFrom_escape hu _ _).trans ?_
    rw [he]
    exact ih h
  | case18 seen b after hq _ hs hs' hb ih =>
    exact (quotedFrom_plain hq (ne_backslash hs hs') _ _).trans ((if_neg hb).trans (ih h))
  | _ => contradiction

theorem skipQuoted_append {bs rest : List UInt8} (h : skipQuoted bs = .ok rest) (more : List UInt8) :
    skipQuoted (bs ++ more) = .ok (rest ++ more) := by
  fun_induction skipQuoted bs with
  | case2 after =>
    cases h
    rfl
  | case3 after a b c d hx ih => exact (if_pos hx).trans (ih h)
  | case7 b after hu he ih => exact (skipQuoted_escape hu _).trans ((if_pos he).trans (ih h))
  | case10 b after hq _ hs hs' hb ih =>
    exact (skipQuoted_plain hq (ne_backslash hs hs') _).trans ((if_neg hb).trans (ih h))
  | _ => contradiction

theorem closes_quoted : Closes quoted := by
  intro bs s rest h more
  simp only [quoted, bind_eq_ok] at h
  obtain ⟨⟨bytes, after⟩, hq, h⟩ := h
  simp only [quoted, quotedFrom_append hq, ok_bind]
  split at h
  · next hd => simp_all
  · simp at h

/-! ## Numbers -/

/-- A run of digits may go on in the bytes that follow, so it stops only where something is left behind it. -/
theorem stops_digitRun : Stops digitRun := by
  intro bs r rest h hne more
  unfold digitRun at h ⊢
  split at h
  · next hr =>
    simp only [Except.ok.injEq, Prod.mk.injEq] at h
    obtain ⟨rfl, rfl⟩ := h
    -- The byte the digits stop at is still there, so what follows it is not looked at.
    have ht : (bs ++ more).takeWhile isDigit = bs.takeWhile isDigit := by
      rw [List.takeWhile_append, if_neg]
      intro hlen
      apply hne
      have := congrArg List.length (List.takeWhile_append_dropWhile (p := isDigit) (l := bs))
      rw [List.length_append] at this
      exact List.length_eq_zero_iff.mp (by omega)
    have hd : (bs ++ more).dropWhile isDigit = bs.dropWhile isDigit ++ more := by
      rw [List.dropWhile_append, if_neg (by simpa using hne)]
    rw [ht, hr, hd]
  · simp at h

theorem stops_wholeRun : Stops wholeRun := by
  intro bs r rest h hne more
  simp only [wholeRun, bind_eq_ok] at h
  obtain ⟨⟨r', after⟩, hr, h⟩ := h
  split at h
  · simp at h
  · next hz =>
    simp only [pure_eq_ok, Prod.mk.injEq] at h
    obtain ⟨rfl, rfl⟩ := h
    simp only [wholeRun, stops_digitRun hr hne more, ok_bind]
    rfl

/-- Without a point there is another byte, which stays where it is. -/
theorem stops_fractionRun : Stops fractionRun := by
  intro bs r rest h hne more
  unfold fractionRun at h
  split at h
  · exact append_of_changed stops_digitRun h hne more
  · next hp =>
    simp only [Except.ok.injEq, Prod.mk.injEq] at h
    obtain ⟨rfl, rfl⟩ := h
    obtain ⟨b, bs, rfl⟩ := List.exists_cons_of_ne_nil hne
    unfold fractionRun
    split
    · next heq =>
      simp only [List.cons_append, List.cons.injEq] at heq
      exact absurd (heq.1 ▸ rfl) (hp bs)
    · rfl

/-- The sign in front of the digits of an exponent, negative or not, and what is behind it. -/
def exponentSign : List UInt8 → Bool × List UInt8
  | plus :: rest => (false, rest)
  | minus :: rest => (true, rest)
  | rest => (false, rest)

theorem exponentSign_append {bs : List UInt8} (h : bs ≠ []) (more : List UInt8) :
    exponentSign (bs ++ more) = ((exponentSign bs).1, (exponentSign bs).2 ++ more) := by
  obtain ⟨b, bs, rfl⟩ := List.exists_cons_of_ne_nil h
  by_cases hp : b = plus
  · subst hp
    rfl
  by_cases hm : b = minus
  · subst hm
    rfl
  · have hnone (bs : List UInt8) : exponentSign (b :: bs) = (false, b :: bs) :=
      exponentSign.eq_3 _ (fun _ h => hp (List.cons.inj h).1) (fun _ h => hm (List.cons.inj h).1)
    rw [List.cons_append, hnone, hnone]
    rfl

theorem exponentPart_cons {b : UInt8} (hb : isExponentMark b) (rest : List UInt8) :
    exponentPart (b :: rest) = do
      let (r, after) ← digitRun (exponentSign rest).2
      return (some ⟨(exponentSign rest).1, r⟩, after) := by
  unfold exponentPart
  exact if_pos hb

theorem stops_exponentPart : Stops exponentPart := by
  intro bs e rest h hne more
  cases bs with
  | nil =>
    cases h
    contradiction
  | cons b bs =>
    by_cases hb : isExponentMark b
    · rw [exponentPart_cons hb] at h
      have hbs : bs ≠ [] := by
        rintro rfl
        nomatch h
      rw [List.cons_append, exponentPart_cons hb, exponentSign_append hbs]
      exact append_of_changed (f := fun r => some (Exponent.mk (exponentSign bs).1 r)) stops_digitRun h hne more
    · have hnone (bs : List UInt8) : exponentPart (b :: bs) = .ok (none, b :: bs) := if_neg hb
      rw [hnone] at h
      cases h
      exact hnone (bs ++ more)

/-- The sign in front of a number, negative or not, and what is behind it. -/
def numeralSign : List UInt8 → Bool × List UInt8
  | minus :: rest => (true, rest)
  | bs => (false, bs)

theorem numeralSign_append {bs : List UInt8} (h : bs ≠ []) (more : List UInt8) :
    numeralSign (bs ++ more) = ((numeralSign bs).1, (numeralSign bs).2 ++ more) := by
  obtain ⟨b, bs, rfl⟩ := List.exists_cons_of_ne_nil h
  by_cases hm : b = minus
  · subst hm
    rfl
  · have hnone (bs : List UInt8) : numeralSign (b :: bs) = (false, b :: bs) :=
      numeralSign.eq_2 _ (fun _ h => hm (List.cons.inj h).1)
    rw [List.cons_append, hnone, hnone]
    rfl

/-- A numeral read part by part: its sign, whole digits, fraction and exponent. -/
theorem numeral_eq (bs : List UInt8) :
    numeral bs = do
      let (whole, after) ← wholeRun (numeralSign bs).2
      let (fraction, after) ← fractionRun after
      let (exponent, after) ← exponentPart after
      return (⟨(numeralSign bs).1, whole, fraction, exponent⟩, after) := rfl

theorem stops_numeral : Stops numeral := by
  intro bs n rest h hne more
  have hbs := shrinks_numeral.ne_nil h hne
  rw [numeral_eq] at h ⊢
  simp only [bind_pure_comp, bind_eq_ok, map_eq_ok, Prod.mk.injEq, Prod.exists] at h
  obtain ⟨w, after, hw, f, after', hf, e, after'', he, rfl, rfl⟩ := h
  have hne' := shrinks_exponentPart.ne_nil he hne
  have hne'' := shrinks_fractionRun.ne_nil hf hne'
  simp only [numeralSign_append hbs, stops_wholeRun hw hne'' more, stops_fractionRun hf hne' more,
    stops_exponentPart he hne more, ok_bind]
  rfl

/-! ## Containers -/

theorem endList_eq_ok {bs rest : List UInt8} : endList bs = .ok rest ↔ skipSpace bs = closeList :: rest := by
  unfold endList
  split <;> simp_all [closeList]

theorem endObject_eq_ok {bs rest : List UInt8} :
    endObject bs = .ok rest ↔ skipSpace bs = closeObject :: rest := by
  unfold endObject
  split <;> simp_all [closeObject]

theorem endKey_eq_ok {bs rest : List UInt8} : endKey bs = .ok rest ↔ skipSpace bs = colon :: rest := by
  unfold endKey
  split <;> simp_all [colon]

theorem nextElement_cons {first : Bool} {b : UInt8} {bs rest : List UInt8} (hb : skipSpace bs = b :: rest) :
    nextElement first bs =
      if b = closeList then .ok none
      else if first then .ok (some (b :: rest))
      else if b = comma then
        match skipSpace rest with
        | [] => .error .truncated
        | c :: rest => if c = closeList then .error .malformed else .ok (some (c :: rest))
      else .error .malformed := by
  unfold nextElement
  rw [hb]
  split
  · contradiction
  · next h => exact (if_pos (List.cons.inj h).1).symm
  · next hc h =>
    cases h
    refine Eq.trans ?_ (if_neg hc).symm
    split_ifs
    · rfl
    · cases skipSpace rest with
      | nil => rfl
      | cons c rest => split <;> simp_all [closeList]
    · rfl

theorem nextKey_cons {first : Bool} {b : UInt8} {bs rest : List UInt8} (hb : skipSpace bs = b :: rest) :
    nextKey first bs =
      if b = closeObject then .ok none
      else if first then if b = quoteMark then some <$> quoted rest else .error .malformed
      else if b = comma then
        match skipSpace rest with
        | [] => .error .truncated
        | c :: rest => if c = quoteMark then some <$> quoted rest else .error .malformed
      else .error .malformed := by
  unfold nextKey
  rw [hb]
  split
  · contradiction
  · next h => exact (if_pos (List.cons.inj h).1).symm
  · next hc h =>
    cases h
    refine Eq.trans ?_ (if_neg hc).symm
    split_ifs
    · rfl
    · rfl
    · cases skipSpace rest with
      | nil => rfl
      | cons c rest => split <;> simp_all [quoteMark]
    · rfl

theorem nextElement_append {first : Bool} {bs : List UInt8} {place : Option (List UInt8)}
    (h : nextElement first bs = .ok place) (more : List UInt8) :
    nextElement first (bs ++ more) = .ok (place.map (· ++ more)) := by
  cases hb : skipSpace bs with
  | nil => simp [nextElement, hb] at h
  | cons b after =>
    rw [nextElement_cons hb] at h
    rw [nextElement_cons (skipSpace_append hb more)]
    split_ifs at h ⊢
    · cases h
      rfl
    · cases h
      rfl
    · cases hb' : skipSpace after with
      | nil => simp [hb'] at h
      | cons c after' =>
        rw [hb'] at h
        rw [skipSpace_append hb' more]
        dsimp only at h ⊢
        split_ifs at h ⊢
        cases h
        rfl

theorem nextKey_append {first : Bool} {bs : List UInt8} {place : Option (String × List UInt8)}
    (h : nextKey first bs = .ok place) (more : List UInt8) :
    nextKey first (bs ++ more) = .ok (place.map fun (key, rest) => (key, rest ++ more)) := by
  have key_append {bs : List UInt8} (h : some <$> quoted bs = .ok place) :
      some <$> quoted (bs ++ more) = .ok (place.map fun (key, rest) => (key, rest ++ more)) := by
    simp only [map_eq_ok, Prod.exists] at h ⊢
    obtain ⟨key, rest, hq, rfl⟩ := h
    exact ⟨key, _, closes_quoted hq more, rfl⟩
  cases hb : skipSpace bs with
  | nil => simp [nextKey, hb] at h
  | cons b after =>
    rw [nextKey_cons hb] at h
    rw [nextKey_cons (skipSpace_append hb more)]
    split_ifs at h ⊢
    · cases h
      rfl
    · exact key_append h
    · cases hb' : skipSpace after with
      | nil => simp [hb'] at h
      | cons c after' =>
        rw [hb'] at h
        rw [skipSpace_append hb' more]
        dsimp only at h ⊢
        split_ifs at h ⊢
        exact key_append h

/-! ## Loops

Behind every round comes another one or the closing bracket, so what a round leaves is not empty: it is enough that
the rounds stop. -/

/-- A list has an end, so something is left behind each of its elements. -/
theorem ne_nil_of_elements {read : σ → Reader σ} {fuel : Nat} {first : Bool} {s : σ} {bs : List UInt8}
    {r : σ × List UInt8} (h : elements read fuel first s bs = .ok r) : bs ≠ [] := by
  rintro rfl
  cases fuel <;> simp [elements, nextElement, skipSpace] at h

/-- The elements of a closed list, and with them the list's end, do not depend on what follows it. The round bound may
grow with the text: a list that was read had rounds to spare. -/
theorem elements_append {read : σ → Reader σ} (h : ∀ s, Stops (read s)) {fuel fuel' : Nat} {first : Bool}
    {s s' : σ} {bs rest : List UInt8} (hr : elements read fuel first s bs = .ok (s', rest))
    (hle : fuel ≤ fuel') (more : List UInt8) :
    elements read fuel' first s (bs ++ more) = .ok (s', rest ++ more) := by
  -- By induction on the fuel that the shorter text needed.
  induction fuel generalizing fuel' first s bs with
  | zero => contradiction
  | succ fuel ih =>
    obtain ⟨fuel', rfl⟩ := Nat.exists_eq_add_of_le' hle
    rw [← Nat.add_assoc]
    unfold elements at hr ⊢
    split at hr
    · contradiction
    · next hn =>
      rw [nextElement_append hn more]
      dsimp only [Option.map_none]
      split at hr
      · contradiction
      · next he =>
        cases hr
        rw [endList_eq_ok] at he
        rw [endList_eq_ok.mpr (skipSpace_append he more)]
    · next hn =>
      rw [nextElement_append hn more]
      dsimp only [Option.map_some]
      split at hr
      · contradiction
      · next s'' after hs =>
        rw [h s hs (ne_nil_of_elements hr) more]
        exact ih hr (by omega)

/-- An object has an end, so something is left behind each of its members. -/
theorem ne_nil_of_members {read : String → σ → Reader σ} {fuel : Nat} {first : Bool} {s : σ} {bs : List UInt8}
    {r : σ × List UInt8} (h : members read fuel first s bs = .ok r) : bs ≠ [] := by
  rintro rfl
  cases fuel <;> simp [members, nextKey, skipSpace] at h

/-- The members of a closed object do not depend on what follows it, as the elements of a list do not. -/
theorem members_append {read : String → σ → Reader σ} (h : ∀ key s, Stops (read key s)) {fuel fuel' : Nat}
    {first : Bool} {s s' : σ} {bs rest : List UInt8} (hr : members read fuel first s bs = .ok (s', rest))
    (hle : fuel ≤ fuel') (more : List UInt8) :
    members read fuel' first s (bs ++ more) = .ok (s', rest ++ more) := by
  -- By induction on the fuel, as for elements: the longer text may have more of it.
  induction fuel generalizing fuel' first s bs with
  | zero => contradiction
  | succ fuel ih =>
    obtain ⟨fuel', rfl⟩ := Nat.exists_eq_add_of_le' hle
    rw [← Nat.add_assoc]
    unfold members at hr ⊢
    split at hr
    · contradiction
    · next hn =>
      rw [nextKey_append hn more]
      dsimp only [Option.map_none]
      split at hr
      · contradiction
      · next he =>
        cases hr
        rw [endObject_eq_ok] at he
        rw [endObject_eq_ok.mpr (skipSpace_append he more)]
    · next hn =>
      rw [nextKey_append hn more]
      dsimp only [Option.map_some]
      split at hr
      · contradiction
      · next s'' after hs =>
        rw [h _ s hs (ne_nil_of_members hr) more]
        exact ih hr (by omega)

theorem closes_listOf {read : Reader α} (h : Stops read) : Closes (listOf read) := by
  intro bs as rest hr more
  simp only [listOf, bind_pure_comp, map_eq_ok, Prod.mk.injEq, Prod.exists] at hr ⊢
  obtain ⟨seen, after, he, rfl, rfl⟩ := hr
  refine ⟨seen, _, elements_append (fun s => ?_) he (by simp) more, rfl, rfl⟩
  intro bs s' rest hs hne more
  simp only [map_eq_ok, Prod.mk.injEq, Prod.exists] at hs ⊢
  obtain ⟨a, after, ha, rfl, rfl⟩ := hs
  exact ⟨a, _, h ha hne more, rfl, rfl⟩

theorem closes_arrayOf {read : Reader Json} (h : Stops read) : Closes (arrayOf read) := by
  intro bs v rest hr more
  simp only [arrayOf, bind_pure_comp, map_eq_ok, Prod.mk.injEq, Prod.exists] at hr ⊢
  obtain ⟨vs, after, hl, rfl, rfl⟩ := hr
  exact ⟨vs, _, closes_listOf h hl more, rfl, rfl⟩

/-! ## Values -/

theorem closes_stringField : Closes stringField := by
  intro bs s rest h more
  unfold stringField at h ⊢
  split at h
  · next hb =>
    rw [skipSpace_append hb more]
    exact closes_quoted h more
  · contradiction

/-- A number written as an object ends on that object's brace. -/
theorem closes_markedNumber : Closes markedNumber := by
  intro bs v rest h more
  simp only [markedNumber, bind_eq_ok, Prod.exists] at h ⊢
  obtain ⟨after, hk, s, after', hs, h⟩ := h
  rw [endKey_eq_ok] at hk
  refine ⟨_, endKey_eq_ok.mpr (skipSpace_append hk more), s, _, closes_stringField hs more, ?_⟩
  split at h
  · refine append_of_tagged (fun last he => ?_) h
    rw [endObject_eq_ok] at he
    exact endObject_eq_ok.mpr (skipSpace_append he more)
  · contradiction

theorem stops_readMember {read : Reader Json} (h : Stops read) (key : String) (ms : List (String × Json)) :
    Stops (readMember read key ms) := by
  intro bs ms' rest hr hne more
  simp only [readMember, bind_pure_comp, bind_eq_ok, map_eq_ok, Prod.mk.injEq, Prod.exists] at hr ⊢
  obtain ⟨after, hk, v, after', hv, rfl, rfl⟩ := hr
  rw [endKey_eq_ok] at hk
  exact ⟨_, endKey_eq_ok.mpr (skipSpace_append hk more), v, _, h hv hne more, rfl, rfl⟩

/-- The first key is read in either case, so the longer text is taken for a number if the shorter one is. -/
theorem closes_objectOf {read : Reader Json} (h : Stops read) : Closes (objectOf read) := by
  intro bs v rest hr more
  simp only [objectOf, bind_eq_ok] at hr ⊢
  obtain ⟨place, hn, hr⟩ := hr
  refine ⟨_, nextKey_append hn more, ?_⟩
  cases place with
  | none =>
    refine append_of_tagged (fun last he => ?_) hr
    rw [endObject_eq_ok] at he
    exact endObject_eq_ok.mpr (skipSpace_append he more)
  | some found =>
    obtain ⟨key, after⟩ := found
    dsimp only [Option.map_some] at hr ⊢
    split_ifs at hr ⊢
    · exact closes_markedNumber hr more
    · simp only [bind_pure_comp, bind_eq_ok, map_eq_ok, Prod.mk.injEq, Prod.exists] at hr ⊢
      obtain ⟨ms, after', hm, ms', _, hms, rfl, rfl⟩ := hr
      exact ⟨ms, _, stops_readMember h key [] hm (ne_nil_of_members hms) more, ms', _,
        members_append (stops_readMember h) hms (by simp) more, rfl, rfl⟩

theorem stops_valueWith {list object : Reader Json} (hl : Closes list) (ho : Closes object) :
    Stops (valueWith list object) := by
  intro bs v rest h hne more
  unfold valueWith at h ⊢
  split at h
  · contradiction
  · next b after hb =>
    rw [skipSpace_append hb more]
    dsimp only
    split_ifs at h ⊢
    · exact append_of_tagged (fun _ hw => word_append hw more) h
    · exact append_of_tagged (fun _ hw => word_append hw more) h
    · exact append_of_tagged (fun _ hw => word_append hw more) h
    · exact append_of_changed stops_numeral h hne more
    · exact append_of_changed closes_quoted.stops h hne more
    · exact hl h more
    · exact ho h more

/-- By induction on the levels: a value inside a value is one level further down. -/
theorem stops_value (levels : Nat) : Stops (value levels) := by
  induction levels with
  | zero => exact stops_valueWith (fun _ _ _ h => nomatch h) (fun _ _ _ h => nomatch h)
  | succ levels ih => exact stops_valueWith (closes_arrayOf ih) (closes_objectOf ih)

/-! ## Values that are passed over -/

/-- A skipped number needs something behind it, for it could go on in the bytes that follow. -/
theorem skipNumber_append {bs rest : List UInt8} (h : skipNumber bs = .ok rest) (hne : rest ≠ [])
    (more : List UInt8) : skipNumber (bs ++ more) = .ok (rest ++ more) := by
  unfold skipNumber at h ⊢
  split at h
  · next hn =>
    cases h
    rw [stops_numeral hn hne more]
  · contradiction

theorem stops_skipToken : Stops skipToken := by
  intro bs bracket rest h hne more
  unfold skipToken at h ⊢
  split at h
  · contradiction
  · next b after hb =>
    rw [skipSpace_append hb more]
    dsimp only
    split_ifs at h ⊢
    · exact append_of_tagged (fun _ hw => word_append hw more) h
    · exact append_of_tagged (fun _ hw => word_append hw more) h
    · exact append_of_tagged (fun _ hw => word_append hw more) h
    · simp only [bind_pure_comp, map_eq_ok, Prod.mk.injEq] at h ⊢
      obtain ⟨after, hn, rfl, rfl⟩ := h
      exact ⟨_, skipNumber_append hn hne more, rfl, rfl⟩
    · exact append_of_tagged (fun _ hq => skipQuoted_append hq more) h
    · cases h
      rfl
    · cases h
      rfl

theorem closes_skipClosing (outer : List Bracket) (afterValue : Bool) :
    Closes (skipClosing outer afterValue) := by
  intro bs outer' rest h more
  fun_induction skipClosing outer afterValue bs with
  | case1 =>
    cases h
    rfl
  | case3 top outer afterValue bs b after hb hm ih =>
    rw [skipClosing, skipSpace_append hb more]
    exact (if_pos hm).trans (ih h)
  | case4 top outer bs after hb hm =>
    cases h
    rw [skipClosing, skipSpace_append hb more]
    exact if_neg hm
  | case6 top outer afterValue bs b after hb hm hv =>
    cases h
    rw [skipClosing, skipSpace_append hb more]
    exact (if_neg hm).trans (if_neg hv)
  | _ => contradiction

theorem skipKey_append {bs rest : List UInt8} (h : skipKey bs = .ok rest) (more : List UInt8) :
    skipKey (bs ++ more) = .ok (rest ++ more) := by
  unfold skipKey at h ⊢
  split at h
  · contradiction
  · next hb =>
    rw [skipSpace_append hb more]
    simp only [bind_eq_ok] at h ⊢
    obtain ⟨after, hq, hk⟩ := h
    rw [endKey_eq_ok] at hk
    exact ⟨_, skipQuoted_append hq more, endKey_eq_ok.mpr (skipSpace_append hk more)⟩
  · contradiction

/-- One value, with the brackets behind it, and what follows in the innermost container that is still open. -/
theorem skipInside_eq_ok {fuel : Nat} {outer : List Bracket} {bs rest : List UInt8} :
    skipInside (fuel + 1) outer bs = .ok rest ↔
      ∃ bracket after outer' after', skipToken bs = .ok (bracket, after) ∧
        skipClosing (bracket.toList ++ outer) bracket.isNone after = .ok (outer', after') ∧
        (match outer' with
          | [] => after' = rest
          | .list :: _ => skipInside fuel outer' after' = .ok rest
          | .object :: _ => ∃ behind, skipKey after' = .ok behind ∧ skipInside fuel outer' behind = .ok rest) := by
  simp only [skipInside, bind_eq_ok, Prod.exists]
  refine exists_congr fun bracket => ?_
  constructor
  · rintro ⟨after, ht, h⟩
    refine ⟨after, ?_⟩
    cases bracket
    all_goals
      simp only [bind_eq_ok, Prod.exists] at h
      obtain ⟨outer', after', hc, h⟩ := h
      refine ⟨outer', after', ht, hc, ?_⟩
      split at h <;> simp_all
  · rintro ⟨after, outer', after', ht, hc, h⟩
    refine ⟨after, ht, ?_⟩
    cases bracket
    all_goals
      simp only [bind_eq_ok, Prod.exists]
      refine ⟨outer', after', hc, ?_⟩
      split at h <;> simp_all

/-- An ignored value is passed over to the same place when more bytes follow and more rounds are allowed. -/
theorem skipInside_append {fuel fuel' : Nat} {outer : List Bracket} {bs rest : List UInt8}
    (h : skipInside fuel outer bs = .ok rest) (hle : fuel ≤ fuel') (hne : rest ≠ []) (more : List UInt8) :
    skipInside fuel' outer (bs ++ more) = .ok (rest ++ more) := by
  induction fuel generalizing fuel' outer bs with
  | zero => contradiction
  | succ fuel ih =>
    obtain ⟨fuel', rfl⟩ := Nat.exists_eq_add_of_le' hle
    rw [← Nat.add_assoc]
    obtain ⟨bracket, after, outer', after', ht, hc, h⟩ := skipInside_eq_ok.mp h
    -- Something is left at the end, so something was left behind every part.
    have hne' : after' ≠ [] := by
      refine ne_nil_of_length_le ?_ hne
      split at h
      · exact h ▸ Nat.le_refl _
      · exact length_le_of_skipInside h
      · obtain ⟨behind, hk, h⟩ := h
        exact Nat.le_trans (length_le_of_skipInside h) (length_le_of_skipKey hk)
    have hne'' : after ≠ [] := ne_nil_of_length_le (length_le_of_skipClosing hc) hne'
    refine skipInside_eq_ok.mpr ⟨bracket, _, outer', _, stops_skipToken ht hne'' more,
      closes_skipClosing _ _ hc more, ?_⟩
    split at h
    · exact h ▸ rfl
    · exact ih h (by omega)
    · obtain ⟨behind, hk, h⟩ := h
      exact ⟨_, skipKey_append hk more, ih h (by omega)⟩

theorem skipValue_append {bs rest : List UInt8} (h : skipValue bs = .ok rest) (hne : rest ≠ [])
    (more : List UInt8) : skipValue (bs ++ more) = .ok (rest ++ more) :=
  skipInside_append h (by simp) hne more

/-! ## Fields -/

theorem stops_numeralField : Stops numeralField := by
  intro bs n rest h hne more
  unfold numeralField at h ⊢
  split at h
  · next b after hb =>
    rw [skipSpace_append hb more]
    dsimp only
    split_ifs at h ⊢
    exact stops_numeral h hne more
  · contradiction

theorem stops_countField : Stops countField := by
  intro bs n rest h hne more
  simp only [countField, bind_eq_ok, Prod.exists] at h ⊢
  obtain ⟨n', after, hn, h⟩ := h
  split at h
  · next i hi =>
    split_ifs at h with hc
    cases h
    refine ⟨n', _, stops_numeralField hn hne more, ?_⟩
    rw [hi]
    exact if_pos hc
  · split_ifs at h

theorem stops_realField : Stops realField := by
  intro bs x rest h hne more
  simp only [realField, bind_eq_ok, Prod.exists] at h ⊢
  obtain ⟨n, after, hn, h⟩ := h
  split at h
  · next y hy =>
    cases h
    exact ⟨n, _, stops_numeralField hn hne more, by rw [hy]; rfl⟩
  · contradiction

theorem stops_optionalField {read : Reader α} (h : Stops read) : Stops (optionalField read) := by
  intro bs a rest hr hne more
  unfold optionalField at hr ⊢
  split at hr
  · next b after hb =>
    rw [skipSpace_append hb more]
    dsimp only
    split_ifs at hr ⊢
    · exact append_of_tagged (fun _ hw => word_append hw more) hr
    · exact append_of_changed h hr hne more
  · contradiction

theorem closes_listField {read : Nat → Reader α} (h : ∀ levels, Stops (read levels)) (levels : Nat) :
    Closes (listField read levels) := by
  intro bs as rest hr more
  cases levels with
  | zero =>
    unfold listField at hr
    dsimp only at hr
    split at hr <;> contradiction
  | succ levels =>
    unfold listField at hr ⊢
    dsimp only at hr ⊢
    split at hr
    · next hb =>
      rw [skipSpace_append hb more]
      exact closes_listOf (h levels) hr more
    · contradiction

/-! ## Documents -/

/-- A field is read like its value. -/
theorem stops_slot {name : String} {read : Nat → Reader α} {put : α → σ → σ} {required : Bool}
    (h : ∀ levels, Stops (read levels)) (levels : Nat) (s : σ) :
    Stops ((Slot.of name read put required).read levels s) := by
  intro bs s' rest hr hne more
  exact append_of_changed (f := fun a => put a s) (h levels) hr hne more

/-- A list has an end, so something is left behind each of its fields. -/
theorem ne_nil_of_fromList {slots : List (Slot σ)} {levels : Nat} {first : Bool} {s : σ} {bs : List UInt8}
    {r : σ × List UInt8} (h : fromList levels slots first s bs = .ok r) : bs ≠ [] := by
  rintro rfl
  cases slots <;> simp [fromList, nextElement, endList, skipSpace] at h

theorem closes_fromList {slots : List (Slot σ)} (h : ∀ f ∈ slots, ∀ levels s, Stops (f.read levels s))
    (levels : Nat) (first : Bool) (s : σ) : Closes (fromList levels slots first s) := by
  induction slots generalizing first s with
  | nil =>
    intro bs s' rest hr more
    simp only [fromList, bind_pure_comp, map_eq_ok, Prod.mk.injEq, endList_eq_ok] at hr ⊢
    obtain ⟨after, he, rfl, rfl⟩ := hr
    exact ⟨_, skipSpace_append he more, rfl, rfl⟩
  | cons f fs ih =>
    have ih := ih fun g hg => h g (List.mem_cons_of_mem _ hg)
    intro bs s' rest hr more
    simp only [fromList, bind_eq_ok] at hr ⊢
    obtain ⟨place, hn, hr⟩ := hr
    refine ⟨_, nextElement_append hn more, ?_⟩
    cases place with
    | none =>
      dsimp only [Option.map_none] at hr ⊢
      split_ifs at hr ⊢
      exact ih first s hr more
    | some place =>
      simp only [Option.map_some, bind_eq_ok, Prod.exists] at hr ⊢
      obtain ⟨s'', after, hf, hr⟩ := hr
      exact ⟨s'', _, h f List.mem_cons_self levels s hf (ne_nil_of_fromList hr) more, ih false s'' hr more⟩

theorem stops_memberOf {slots : List (Slot σ)} (h : ∀ f ∈ slots, ∀ levels s, Stops (f.read levels s))
    (levels : Nat) (key : String) (state : List String × σ) : Stops (memberOf levels slots key state) := by
  intro bs state' rest hr hne more
  unfold memberOf at hr ⊢
  split at hr
  · simp only [bind_pure_comp, bind_eq_ok, map_eq_ok, Prod.mk.injEq, endKey_eq_ok] at hr ⊢
    obtain ⟨after, hk, after', hv, rfl, rfl⟩ := hr
    exact ⟨_, skipSpace_append hk more, _, skipValue_append hv hne more, rfl, rfl⟩
  · next f hf =>
    split at hr
    · simp at hr
    · next hc =>
      rw [if_neg hc]
      simp only [bind_pure_comp, bind_eq_ok, map_eq_ok, Prod.mk.injEq, Prod.exists, endKey_eq_ok] at hr ⊢
      obtain ⟨after, hk, s, after', hs, rfl, rfl⟩ := hr
      exact ⟨_, skipSpace_append hk more, s, _,
        h f (List.mem_of_find?_eq_some hf) levels _ hs hne more, rfl, rfl⟩

theorem closes_fromObject {slots : List (Slot σ)} (h : ∀ f ∈ slots, ∀ levels s, Stops (f.read levels s))
    (levels : Nat) (s : σ) : Closes (fromObject levels slots s) := by
  intro bs s' rest hr more
  simp only [fromObject, bind_eq_ok, Prod.exists] at hr ⊢
  obtain ⟨seen, s'', after, hm, hr⟩ := hr
  refine ⟨seen, s'', _, members_append (fun key state => stops_memberOf h levels key state) hm (by simp) more, ?_⟩
  split at hr
  · simp at hr
  · next hc =>
    rw [if_neg hc]
    simp only [pure_eq_ok, Prod.mk.injEq] at hr ⊢
    exact ⟨hr.1, hr.2 ▸ rfl⟩

/-- A whole record ends on a closing byte, which is why one can follow another with nothing between. -/
theorem closes_document {slots : List (Slot σ)} (h : ∀ f ∈ slots, ∀ levels s, Stops (f.read levels s))
    (start : σ) (levels : Nat) : Closes (document slots start levels) := by
  intro bs s rest hr more
  cases levels with
  | zero =>
    unfold document at hr
    dsimp only at hr
    split at hr <;> contradiction
  | succ levels =>
    unfold document at hr ⊢
    dsimp only at hr ⊢
    split at hr
    · next hb =>
      rw [skipSpace_append hb more]
      exact closes_fromList h levels true start hr more
    · next hb =>
      rw [skipSpace_append hb more]
      exact closes_fromObject h levels start hr more
    · contradiction

end Rowset.Json
