import Rowset.Proofs.Descriptor.Grammar
import Rowset.Proofs.Steps

/-!
# Descriptors are read where the grammar has them

Reading and grammar are compared level by level.  `Sound inner T` says that whatever `inner` reads is a text of
`T`, and `Complete inner T` that `inner` reads every text of `T` behind which a type can stop, all of it.  Both
pass from the types of at most `levels` levels to those of one level more.

The main statement is `parse_eq_ok_iff_denotes`.
-/

namespace Rowset.Descriptor

/-- A function that reads a type at the start of a text. -/
abbrev Reading := List Char → Except Fault (Descriptor × List Char)

section

variable {inner : Reading} {T : Production Descriptor}

/-! ## What is read is in the grammar -/

/-- Whatever `inner` reads is a text of `T`. -/
def Sound (inner : Reading) (T : Production Descriptor) : Prop :=
  ∀ ⦃cs t rest⦄, inner cs = .ok (t, rest) → T cs t rest

/-- A name that was not seen keeps names distinct. -/
theorem nodup_concat {seen : List (String × Descriptor)} {name : String} {t : Descriptor}
    (hnew : ¬ seen.any (·.1 == name) = true) (h : (seen.map (·.1)).Nodup) :
    ((seen ++ [(name, t)]).map (·.1)).Nodup := by
  rw [List.map_append, List.nodup_append]
  refine ⟨h, by simp, ?_⟩
  rintro a ha b hb rfl
  obtain ⟨f, hf, rfl⟩ := List.mem_map.mp ha
  have hfst : f.1 = name := by simpa using hb
  exact hnew (List.any_eq_true.mpr ⟨f, hf, beq_iff_eq.mpr hfst⟩)

/-- By induction on the rounds: the fields so far are kept, and no name is taken twice. -/
theorem fields_sound (hi : Sound inner T) {fuel : Nat} {seen fs : List (String × Descriptor)}
    {cs rest : List Char} (h : fields inner fuel seen cs = .ok (fs, rest)) :
    ∃ new after, fs = seen ++ new ∧ FieldsText T cs new after ∧ Mark ')' after rest ∧
      ((seen.map (·.1)).Nodup → (fs.map (·.1)).Nodup) := by
  induction fuel generalizing seen cs with
  | zero => cases h
  | succ fuel ih =>
    simp only [fields, bind_eq_ok, Prod.exists] at h
    obtain ⟨name, after, hname, t, behind, ht, h⟩ := h
    obtain ⟨start, hb, hn⟩ := fieldName_iff.mp hname
    have htype := hi ht
    have hskip := blanks_skip behind
    split at h
    · simp at h
    · next hnew =>
      have hconcat := nodup_concat (t := t) hnew
      -- Behind a field stand a comma and others, or the end.
      split at h
      · next others hs =>
        rw [hs] at hskip
        obtain ⟨new, last, rfl, hfields, hmark, hdistinct⟩ := ih h
        refine ⟨(name, t) :: new, last, List.append_assoc seen [(name, t)] new,
          .more hb hn htype hskip hfields, hmark, fun hseen => hdistinct (hconcat hseen)⟩
      · next others hs =>
        rw [hs] at hskip
        obtain ⟨rfl, rfl⟩ := Prod.mk.inj (pure_eq_ok.mp h)
        exact ⟨[(name, t)], behind, rfl, .one hb hn htype, hskip, hconcat⟩
      · simp at h
      · simp at h

/-- What is read as a type without its marker is a text of one, whichever head it has. -/
theorem base_sound (hi : Sound inner T) {cs rest : List Char} {t : Descriptor}
    (h : base inner cs = .ok (t, rest)) : ∃ start, Blanks cs start ∧ BaseText T start t rest := by
  refine ⟨skip cs, blanks_skip cs, ?_⟩
  unfold base at h
  dsimp only at h
  split at h
  · simp at h
  · cases hw : Head.ofWord? ((skip cs).takeWhile isWordChar) with
    | none =>
      rw [hw] at h
      simp at h
    | some head =>
      rw [hw] at h
      have hbegins : Begins head (skip cs) ((skip cs).dropWhile isWordChar) := begins_iff.mpr ⟨hw, rfl⟩
      generalize (skip cs).dropWhile isWordChar = behind at h hbegins
      -- Each head has a constructor of the grammar, `double` has two.
      cases head with
      | scalar k =>
        obtain ⟨rfl, rfl⟩ := Prod.mk.inj (pure_eq_ok.mp h)
        exact .scalar hbegins
      | double =>
        obtain ⟨rfl, rfl⟩ := Prod.mk.inj (pure_eq_ok.mp h)
        cases htrailing : trailingWord? "precision" behind with
        | none => exact .double hbegins
        | some rest =>
          obtain ⟨second, hgap, hword⟩ := (trailingWord?_iff (by decide)).mp htrailing
          exact .doublePrecision hbegins hgap hword
      | decimal =>
        simp only [bind_eq_ok, Prod.exists, pure_eq_ok, Prod.mk.injEq] at h
        obtain ⟨inside, hopen, p, comma, hp, second, hcomma, s, fourth, hs, last, hclose, rfl, rfl⟩ := h
        obtain ⟨first, hb, hp⟩ := number_iff.mp hp
        obtain ⟨third, hb', hs⟩ := number_iff.mp hs
        exact .decimal hbegins ((expectMark_iff (by decide)).mp hopen) hb hp
          ((expectMark_iff (by decide)).mp hcomma) hb' hs ((expectMark_iff (by decide)).mp hclose)
      | array =>
        simp only [bind_eq_ok, Prod.exists, pure_eq_ok, Prod.mk.injEq] at h
        obtain ⟨inside, hopen, e, after, he, last, hclose, rfl, rfl⟩ := h
        exact .array hbegins ((expectMark_iff (by decide)).mp hopen) (hi he)
          ((expectMark_iff (by decide)).mp hclose)
      | struct =>
        simp only [bind_eq_ok, Prod.exists, pure_eq_ok, Prod.mk.injEq] at h
        obtain ⟨inside, hopen, fs, last, hfs, rfl, rfl⟩ := h
        obtain ⟨new, after, rfl, hfields, hclose, hdistinct⟩ := fields_sound hi hfs
        exact .struct hbegins ((expectMark_iff (by decide)).mp hopen) hfields hclose (hdistinct List.nodup_nil)

/-- By induction on the levels: an inner type has one level less. -/
theorem typeWithin_sound (levels : Nat) : Sound (typeWithin levels) (TypeText levels) := by
  induction levels with
  | zero => intro cs t rest h; cases h
  | succ levels ih =>
    intro cs t rest h
    simp only [typeWithin, bind_eq_ok, Prod.exists] at h
    obtain ⟨t', behind, hbase, h⟩ := h
    obtain ⟨start, hb, hbase⟩ := base_sound ih hbase
    cases htrailing : trailingWord? "null" behind with
    | none =>
      rw [htrailing] at h
      obtain ⟨rfl, rfl⟩ := Prod.mk.inj (pure_eq_ok.mp h)
      exact .plain hb hbase
    | some after =>
      rw [htrailing] at h
      obtain ⟨rfl, rfl⟩ := Prod.mk.inj (pure_eq_ok.mp h)
      obtain ⟨second, hgap, hword⟩ := (trailingWord?_iff (by decide)).mp htrailing
      exact .null hb hbase hgap hword

/-! ## What is in the grammar is read -/

/-- A type can stop here: what follows the blanks is nothing, a comma or a closing parenthesis. -/
def Stops (rest : List Char) : Prop :=
  ∀ c ∈ (skip rest).head?, c = ',' ∨ c = ')'

theorem stops_of_comma {cs rest : List Char} (h : Mark ',' cs rest) : Stops cs := by
  intro c hc
  rw [skip_eq h (by decide)] at hc
  exact .inl (Option.some.inj hc).symm

theorem stops_of_closing {cs rest : List Char} (h : Mark ')' cs rest) : Stops cs := by
  intro c hc
  rw [skip_eq h (by decide)] at hc
  exact .inr (Option.some.inj hc).symm

theorem stops_of_end {cs : List Char} (h : Blanks cs []) : Stops cs := by
  intro c hc
  rw [skip_of_blanks h] at hc
  cases hc

/-- No word follows where a type can stop. -/
theorem trailingWord?_of_stops {cs : List Char} {keyword : String} (hk : keyword.toList ≠ [])
    (h : Stops cs) : trailingWord? keyword cs = none := by
  by_contra hsome
  obtain ⟨rest, hrest⟩ := Option.ne_none_iff_exists'.mp hsome
  obtain ⟨second, ⟨b, cs', rfl, hblank, hb⟩, hword⟩ := (trailingWord?_iff hk).mp hrest
  obtain ⟨c, r, rfl, hc⟩ := hword.start hk
  have hskip : skip (b :: cs') = c :: r := by
    rw [← skip_eq hb (isAsciiBlank_of_isWordChar hc)]
    exact List.dropWhile_cons_of_pos hblank
  rcases h c (by rw [hskip]; rfl) with rfl | rfl <;> revert hc <;> decide

/-- Two words cannot follow at the same place. -/
theorem trailingWord?_of_other {cs second rest : List Char} {keyword keyword' : String}
    (hk : keyword.toList ≠ []) (hne : keyword ≠ keyword') (hgap : Gap cs second)
    (hword : Keyword keyword second rest) : trailingWord? keyword' cs = none := by
  have hsome := (trailingWord?_iff hk).mpr ⟨second, hgap, hword⟩
  cases cs with
  | nil => rfl
  | cons c cs =>
    unfold trailingWord? at hsome ⊢
    dsimp only at hsome ⊢
    refine if_neg fun h => hne ?_
    rw [Bool.and_eq_true] at h
    by_cases hc : (Text.isAsciiBlank c && isKeyword keyword ((skip cs).takeWhile isWordChar)) = true
    · rw [Bool.and_eq_true] at hc
      exact isKeyword_unique hc.2 h.2
    · rw [if_neg hc] at hsome
      cases hsome

/-- `inner` reads every text of `T` behind which a type can stop. -/
def Complete (inner : Reading) (T : Production Descriptor) : Prop :=
  ∀ ⦃cs t rest⦄, T cs t rest → Stops rest → inner cs = .ok (t, rest)

/-- A text of `T` is followed by what is left. -/
def Shrinking (T : Production Descriptor) : Prop :=
  ∀ ⦃cs t rest⦄, T cs t rest → rest <:+ cs

theorem FieldsText.suffix (hs : Shrinking T) {cs rest : List Char} {fs : List (String × Descriptor)}
    (h : FieldsText T cs fs rest) : rest <:+ cs := by
  induction h with
  | one blanks called type => exact (hs type).trans (called.suffix.trans blanks.suffix)
  | more blanks called type comma _ ih =>
    have hothers := (List.suffix_cons _ _).trans comma.suffix
    exact ih.trans (hothers.trans ((hs type).trans (called.suffix.trans blanks.suffix)))

/-- A name that comes again later was not seen before. -/
theorem not_seen {seen fs : List (String × Descriptor)} {name : String} {t : Descriptor}
    (h : ((seen ++ (name, t) :: fs).map (·.1)).Nodup) : ¬ seen.any (·.1 == name) = true := by
  intro hany
  obtain ⟨f, hf, hname⟩ := List.any_eq_true.mp hany
  rw [List.map_append, List.nodup_append] at h
  exact h.2.2 f.1 (List.mem_map_of_mem hf) name List.mem_cons_self (beq_iff_eq.mp hname)

section

variable {fuel : Nat} {seen : List (String × Descriptor)} {cs after behind rest : List Char} {name : String}
  {t : Descriptor}

theorem fields_comma (hname : fieldName cs = .ok (name, after)) (ht : inner after = .ok (t, behind))
    (hnew : ¬ seen.any (·.1 == name) = true) (hm : Mark ',' behind rest) :
    fields inner (fuel + 1) seen cs = fields inner fuel (seen ++ [(name, t)]) rest := by
  have hskip := skip_eq hm (by decide)
  simp only [fields, hname, ht, hskip, ok_bind]
  exact if_neg hnew

theorem fields_closing (hname : fieldName cs = .ok (name, after)) (ht : inner after = .ok (t, behind))
    (hnew : ¬ seen.any (·.1 == name) = true) (hm : Mark ')' behind rest) :
    fields inner (fuel + 1) seen cs = .ok (seen ++ [(name, t)], rest) := by
  have hskip := skip_eq hm (by decide)
  simp only [fields, hname, ht, hskip, ok_bind]
  exact if_neg hnew

end

/-- By induction on the fields: every round takes some of the text, so the rounds last. -/
theorem fields_complete (hc : Complete inner T) (hs : Shrinking T) {cs after rest : List Char}
    {new seen : List (String × Descriptor)} {fuel : Nat} (h : FieldsText T cs new after)
    (hm : Mark ')' after rest) (hd : ((seen ++ new).map (·.1)).Nodup) (hf : cs.length < fuel) :
    fields inner fuel seen cs = .ok (seen ++ new, rest) := by
  induction h generalizing seen fuel with
  | @one cs start after' rest' name t blanks called type =>
    obtain ⟨fuel, rfl⟩ : ∃ n, fuel = n + 1 := ⟨fuel - 1, by omega⟩
    have hname := fieldName_iff.mpr ⟨start, blanks, called⟩
    have htype := hc type (stops_of_closing hm)
    exact fields_closing hname htype (not_seen hd) hm
  | @more cs start after' behind others rest' name t fs blanks called type comma _ ih =>
    obtain ⟨fuel, rfl⟩ : ∃ n, fuel = n + 1 := ⟨fuel - 1, by omega⟩
    have hname := fieldName_iff.mpr ⟨start, blanks, called⟩
    have htype := hc type (stops_of_comma comma)
    have hothers : ',' :: others <:+ cs :=
      comma.suffix.trans ((hs type).trans (called.suffix.trans blanks.suffix))
    have hlen := hothers.length_le
    rw [List.length_cons] at hlen
    rw [fields_comma hname htype (not_seen hd) comma]
    rw [List.append_cons seen (name, t) fs] at hd ⊢
    refine ih hm hd ?_
    omega

/-- The keyword at the start of a type decides which branch is taken. -/
theorem base_of_begins {head : Head} {cs start behind : List Char} (hb : Blanks cs start)
    (h : Begins head start behind) :
    skip cs = start ∧ ¬ (start.takeWhile isWordChar).isEmpty = true ∧
      Head.ofWord? (start.takeWhile isWordChar) = some head ∧ start.dropWhile isWordChar = behind := by
  obtain ⟨c, cs', rfl, hc⟩ := h.start
  obtain ⟨hw, hbehind⟩ := begins_iff.mp h
  refine ⟨skip_eq hb (isAsciiBlank_of_isWordChar hc), ?_, hw, hbehind.symm⟩
  rw [List.takeWhile_cons_of_pos hc]
  simp

/-- Every text of a type is read as that type, where a type can stop. -/
theorem base_complete (hc : Complete inner T) (hs : Shrinking T) {cs start rest : List Char} {t : Descriptor}
    (hb : Blanks cs start) (h : BaseText T start t rest) (hp : trailingWord? "precision" rest = none) :
    base inner cs = .ok (t, rest) := by
  unfold base
  dsimp only
  cases h with
  | scalar word =>
    obtain ⟨hskip, hne, hword, hbehind⟩ := base_of_begins hb word
    rw [hskip, hbehind, hword, if_neg hne]
    rfl
  | double word =>
    obtain ⟨hskip, hne, hword, hbehind⟩ := base_of_begins hb word
    rw [hskip, hbehind, hword, if_neg hne]
    dsimp only
    -- Nothing behind the type may be taken for its second word.
    rw [hp]
    rfl
  | doublePrecision word gap precision =>
    obtain ⟨hskip, hne, hword, hbehind⟩ := base_of_begins hb word
    rw [hskip, hbehind, hword, if_neg hne]
    dsimp only
    rw [(trailingWord?_iff (by decide)).mpr ⟨_, gap, precision⟩]
    rfl
  | decimal word opening blanks precision mark blanks' scale closing =>
    obtain ⟨hskip, hne, hword, hbehind⟩ := base_of_begins hb word
    rw [hskip, hbehind, hword, if_neg hne]
    simp only [(expectMark_iff (by decide)).mpr opening, (expectMark_iff (by decide)).mpr mark,
      (expectMark_iff (by decide)).mpr closing, number_iff.mpr ⟨_, blanks, precision⟩,
      number_iff.mpr ⟨_, blanks', scale⟩, ok_bind]
    rfl
  | array word opening element closing =>
    obtain ⟨hskip, hne, hword, hbehind⟩ := base_of_begins hb word
    rw [hskip, hbehind, hword, if_neg hne]
    simp only [(expectMark_iff (by decide)).mpr opening, (expectMark_iff (by decide)).mpr closing,
      hc element (stops_of_closing closing), ok_bind]
    rfl
  | @struct _ _ inside _ _ fs word opening fields closing distinct =>
    obtain ⟨hskip, hne, hword, hbehind⟩ := base_of_begins hb word
    have hfields : Descriptor.fields inner (inside.length + 1) [] inside = .ok ([] ++ fs, rest) :=
      fields_complete hc hs fields closing distinct (Nat.lt_succ_self inside.length)
    rw [hskip, hbehind, hword, if_neg hne]
    simp only [(expectMark_iff (by decide)).mpr opening, hfields, ok_bind]
    rfl

theorem BaseText.suffix (hs : Shrinking T) {cs rest : List Char} {t : Descriptor} (h : BaseText T cs t rest) :
    rest <:+ cs := by
  cases h with
  | scalar word => exact word.suffix
  | double word => exact word.suffix
  | doublePrecision word gap precision => exact precision.suffix.trans (gap.suffix.trans word.suffix)
  | decimal word opening blanks precision mark blanks' scale closing =>
    have hfirst := blanks.suffix.trans ((List.suffix_cons _ _).trans (opening.suffix.trans word.suffix))
    have hsecond := (List.suffix_cons _ _).trans (mark.suffix.trans (precision.suffix.trans hfirst))
    exact (List.suffix_cons _ _).trans
      (closing.suffix.trans (scale.suffix.trans (blanks'.suffix.trans hsecond)))
  | array word opening element closing =>
    have hinside := (List.suffix_cons _ _).trans (opening.suffix.trans word.suffix)
    exact (List.suffix_cons _ _).trans (closing.suffix.trans ((hs element).trans hinside))
  | struct word opening fields closing =>
    have hinside := (List.suffix_cons _ _).trans (opening.suffix.trans word.suffix)
    exact (List.suffix_cons _ _).trans (closing.suffix.trans ((fields.suffix hs).trans hinside))

end

theorem typeText_suffix (levels : Nat) : Shrinking (TypeText levels) := by
  induction levels with
  | zero => exact fun _ _ _ h => h.elim
  | succ levels ih =>
    intro cs t rest h
    cases h with
    | plain blanks base => exact (base.suffix ih).trans blanks.suffix
    | null blanks base gap word =>
      exact word.suffix.trans (gap.suffix.trans ((base.suffix ih).trans blanks.suffix))

/-- By induction on the levels. Inner types are followed by a mark, where a type can stop. -/
theorem typeWithin_complete (levels : Nat) : Complete (typeWithin levels) (TypeText levels) := by
  induction levels with
  | zero => exact fun _ _ _ h => h.elim
  | succ levels ih =>
    intro cs t rest h hstops
    unfold typeWithin
    cases h with
    | plain blanks base =>
      have hprecision : trailingWord? "precision" rest = none := trailingWord?_of_stops (by decide) hstops
      have hnull : trailingWord? "null" rest = none := trailingWord?_of_stops (by decide) hstops
      rw [base_complete ih (typeText_suffix levels) blanks base hprecision, ok_bind]
      dsimp only
      rw [hnull]
      rfl
    | @null _ _ behind _ _ _ blanks base gap word =>
      have hprecision : trailingWord? "precision" behind = none :=
        trailingWord?_of_other (by decide) (by decide) gap word
      rw [base_complete ih (typeText_suffix levels) blanks base hprecision, ok_bind]
      dsimp only
      rw [(trailingWord?_iff (by decide)).mpr ⟨_, gap, word⟩]
      rfl

/-! ## Whole texts -/

theorem parse_iff {s : String} {t : Descriptor} : parse s = .ok t ↔ Denotes s.toList t := by
  constructor
  · intro h
    simp only [parse, bind_eq_ok, Prod.exists] at h
    obtain ⟨t', rest, ht, h⟩ := h
    have hskip := blanks_skip rest
    cases hs : skip rest with
    | nil =>
      rw [hs] at h hskip
      cases h
      exact ⟨rest, typeWithin_sound maxLevels ht, hskip⟩
    | cons c cs =>
      rw [hs] at h
      simp at h
  · rintro ⟨rest, ht, hend⟩
    have hskip : skip rest = [] := skip_of_blanks hend
    unfold parse
    rw [typeWithin_complete maxLevels ht (stops_of_end hend), ok_bind]
    dsimp only
    rw [hskip]
    rfl

/-- A text is read as the one type that it denotes, and every text that denotes none is an error. -/
theorem parse_eq_ok_iff_denotes (s : String) :
    (∀ t, parse s = .ok t ↔ Denotes s.toList t) ∧
      ((∃ fault, parse s = .error fault) ↔ ∀ t, ¬ Denotes s.toList t) ∧
      ∀ t t', Denotes s.toList t → Denotes s.toList t' → t = t' := by
  refine ⟨fun t => parse_iff, ⟨?_, ?_⟩, ?_⟩
  · rintro ⟨fault, hfault⟩ t ht
    rw [parse_iff.mpr ht] at hfault
    cases hfault
  · intro h
    cases hparse : parse s with
    | ok t => exact absurd (parse_iff.mp hparse) (h t)
    | error fault => exact ⟨fault, rfl⟩
  · intro t t' ht ht'
    have hparse := parse_iff.mpr ht
    rw [parse_iff.mpr ht'] at hparse
    exact (Except.ok.inj hparse).symm

theorem denotes_sample :
    Denotes "Struct(`a b` DOUBLE\tprecision  null,null array( bigint ) )\n".toList
      (.struct [("a b", .scalar .double true), ("null", .array (.scalar .long false) false)] false) :=
  ((parse_eq_ok_iff_denotes _).1 _).mp (by with_unfolding_all rfl)

end Rowset.Descriptor
