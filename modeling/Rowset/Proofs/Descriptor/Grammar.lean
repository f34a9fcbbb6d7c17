import Mathlib.Tactic.Common
import Rowset.Descriptor.Parser

/-!
# The grammar of type descriptors

What a text has to look like to be a type, said without reading it: every production relates a text to what it
stands for and to the characters behind it.  With `W` for an ASCII blank,

* a type of at most `levels + 1` levels is `W*`, a base of types of at most `levels` levels, and optionally `W+`
  and the word `null`;
* a base is a keyword, `double` with `W+ precision` behind it or not, `array ( type )`,
  `decimal ( number , number )` or `struct ( field , ... , field )` with distinct names;
* a field is a name and a type; a name without back-quotes is as long as it can be.

No production looks ahead, backtracks or says in which order anything is tried.  The second half relates the
reading functions to the productions that have no other productions inside.
-/

namespace Rowset.Descriptor

/-! ## Productions -/

/-- A production `P`: `P cs x rest` says that `cs` is a text of `x` and then `rest`. -/
abbrev Production (α : Type) := List Char → α → List Char → Prop

/-- Any number of ASCII blanks. -/
def Blanks (cs rest : List Char) : Prop :=
  ∃ w, cs = w ++ rest ∧ ∀ c ∈ w, Text.isAsciiBlank c = true

/-- At least one ASCII blank. -/
def Gap (cs rest : List Char) : Prop :=
  ∃ c cs', cs = c :: cs' ∧ Text.isAsciiBlank c = true ∧ Blanks cs' rest

/-- A mark behind any number of blanks. -/
def Mark (mark : Char) (cs rest : List Char) : Prop :=
  Blanks cs (mark :: rest)

/-- A maximal run of characters with the property `p`. -/
def Run (p : Char → Bool) : Production (List Char) := fun cs w rest =>
  cs = w ++ rest ∧ (∀ c ∈ w, p c = true) ∧ ∀ c ∈ rest.head?, p c = false

/-- A keyword: a whole word, in any case. -/
def Keyword (keyword : String) (cs rest : List Char) : Prop :=
  ∃ w, Run isWordChar cs w rest ∧ isKeyword keyword w = true

/-- A keyword that stands for `head` at the start of a type. -/
def Begins (head : Head) (cs rest : List Char) : Prop :=
  ∃ keyword, (keyword, head) ∈ heads ∧ Keyword keyword cs rest

/-- A number below 2^32. -/
def Number : Production UInt32 := fun cs n rest =>
  ∃ ds, Run Char.isDigit cs ds rest ∧ ds ≠ [] ∧ Text.ofDigits ds = n.toNat

/-- A field name. -/
inductive FieldName : Production String
  | bare {cs w rest : List Char} (run : Run isNameChar cs w rest) (nonempty : w ≠ [])
      (plain : ∀ c ∈ w, c ≠ '`' ∧ c ≠ ',' ∧ c ≠ '(' ∧ c ≠ ')') : FieldName cs (String.ofList w) rest
  | quoted {w rest : List Char} (nonempty : w ≠ []) (plain : ∀ c ∈ w, c ≠ '`') :
      FieldName ('`' :: (w ++ '`' :: rest)) (String.ofList w) rest

/-- One field or more, with `T` for their types. -/
inductive FieldsText (T : Production Descriptor) : Production (List (String × Descriptor))
  | one {cs start after rest : List Char} {name : String} {t : Descriptor} (blanks : Blanks cs start)
      (called : FieldName start name after) (type : T after t rest) : FieldsText T cs [(name, t)] rest
  | more {cs start after behind others rest : List Char} {name : String} {t : Descriptor}
      {fs : List (String × Descriptor)} (blanks : Blanks cs start) (called : FieldName start name after)
      (type : T after t behind) (comma : Mark ',' behind others) (fields : FieldsText T others fs rest) :
      FieldsText T cs ((name, t) :: fs) rest

/-- A type without its marker for null, with `T` for the types it is made of. -/
inductive BaseText (T : Production Descriptor) : Production Descriptor
  | scalar {cs rest : List Char} {k : Scalar} (word : Begins (.scalar k) cs rest) :
      BaseText T cs (scalar k false) rest
  | double {cs rest : List Char} (word : Begins .double cs rest) : BaseText T cs (scalar .double false) rest
  | doublePrecision {cs behind second rest : List Char} (word : Begins .double cs behind)
      (gap : Gap behind second) (precision : Keyword "precision" second rest) :
      BaseText T cs (scalar .double false) rest
  | decimal {cs behind inside first comma second third fourth rest : List Char} {p s : UInt32}
      (word : Begins .decimal cs behind) (opening : Mark '(' behind inside) (blanks : Blanks inside first)
      (precision : Number first p comma) (mark : Mark ',' comma second) (blanks' : Blanks second third)
      (scale : Number third s fourth) (closing : Mark ')' fourth rest) :
      BaseText T cs (decimal p s false) rest
  | array {cs behind inside after rest : List Char} {e : Descriptor} (word : Begins .array cs behind)
      (opening : Mark '(' behind inside) (element : T inside e after) (closing : Mark ')' after rest) :
      BaseText T cs (array e false) rest
  | struct {cs behind inside after rest : List Char} {fs : List (String × Descriptor)}
      (word : Begins .struct cs behind) (opening : Mark '(' behind inside)
      (fields : FieldsText T inside fs after) (closing : Mark ')' after rest)
      (distinct : (fs.map (·.1)).Nodup) : BaseText T cs (struct fs false) rest

/-- A type with or without its marker for null, with `B` for the type without it. -/
inductive Marked (B : Production Descriptor) : Production Descriptor
  | plain {cs start rest : List Char} {t : Descriptor} (blanks : Blanks cs start) (base : B start t rest) :
      Marked B cs t rest
  | null {cs start behind second rest : List Char} {t : Descriptor} (blanks : Blanks cs start)
      (base : B start t behind) (gap : Gap behind second) (word : Keyword "null" second rest) :
      Marked B cs t.orNull rest

/-- A type of at most the given number of levels. -/
def TypeText : Nat → Production Descriptor
  | 0 => fun _ _ _ => False
  | levels + 1 => Marked (BaseText (TypeText levels))

/-- A whole text that is a type; blanks may follow it. -/
def Denotes (cs : List Char) (t : Descriptor) : Prop :=
  ∃ rest, TypeText maxLevels cs t rest ∧ Blanks rest []

/-! ## Blanks -/

section

variable {cs rest w : List Char} {c mark : Char} {p : Char → Bool} {keyword : String}

theorem Blanks.refl (cs : List Char) : Blanks cs cs :=
  ⟨[], rfl, nofun⟩

theorem blanks_skip (cs : List Char) : Blanks cs (skip cs) :=
  ⟨cs.takeWhile Text.isAsciiBlank, List.takeWhile_append_dropWhile.symm, fun _ hc =>
    List.all_eq_true.mp (List.all_takeWhile) _ hc⟩

theorem skip_of_blanks (h : Blanks cs rest) : skip cs = skip rest := by
  obtain ⟨w, rfl, hw⟩ := h
  exact List.dropWhile_append_of_pos hw

theorem skip_cons (h : Text.isAsciiBlank c = false) (rest : List Char) : skip (c :: rest) = c :: rest :=
  List.dropWhile_cons_of_neg (by rw [h]; decide)

theorem Blanks.suffix (h : Blanks cs rest) : rest <:+ cs := by
  obtain ⟨w, rfl, -⟩ := h
  exact List.suffix_append w rest

theorem Gap.suffix (h : Gap cs rest) : rest <:+ cs := by
  obtain ⟨c, cs', rfl, -, hb⟩ := h
  exact hb.suffix.trans (List.suffix_cons c cs')

theorem Mark.suffix (h : Mark mark cs rest) : mark :: rest <:+ cs :=
  Blanks.suffix h

/-- A mark is expected where the grammar has it. -/
theorem expectMark_iff (hm : Text.isAsciiBlank mark = false) :
    expectMark mark cs = .ok rest ↔ Mark mark cs rest := by
  constructor
  · intro h
    unfold expectMark at h
    have hb := blanks_skip cs
    cases hs : skip cs with
    | nil =>
      rw [hs] at h
      cases h
    | cons c after =>
      rw [hs] at h hb
      dsimp only at h
      by_cases hc : c = mark
      · rw [if_pos hc] at h
        cases h
        exact hc ▸ hb
      · rw [if_neg hc] at h
        cases h
  · intro h
    unfold expectMark
    rw [skip_of_blanks h, skip_cons hm]
    exact if_pos rfl

theorem skip_eq (hb : Blanks cs (c :: rest)) (hc : Text.isAsciiBlank c = false) : skip cs = c :: rest :=
  (skip_of_blanks hb).trans (skip_cons hc rest)

/-! ## Runs -/

theorem run_takeWhile (p : Char → Bool) (cs : List Char) : Run p cs (cs.takeWhile p) (cs.dropWhile p) := by
  refine ⟨List.takeWhile_append_dropWhile.symm, fun c hc => List.all_eq_true.mp List.all_takeWhile c hc, ?_⟩
  intro c hc
  have hhead := List.head?_dropWhile_not p cs
  rw [Option.mem_def] at hc
  rw [hc] at hhead
  simpa using hhead

/-- There is one maximal run. -/
theorem Run.eq (h : Run p cs w rest) : w = cs.takeWhile p ∧ rest = cs.dropWhile p := by
  obtain ⟨rfl, hw, hr⟩ := h
  rw [List.takeWhile_append_of_pos hw, List.dropWhile_append_of_pos hw]
  cases rest with
  | nil => simp
  | cons c rest =>
    have hc : ¬ p c = true := by
      rw [hr c rfl]
      decide
    rw [List.takeWhile_cons_of_neg hc, List.dropWhile_cons_of_neg hc, List.append_nil]
    exact ⟨rfl, rfl⟩

theorem Run.suffix (h : Run p cs w rest) : rest <:+ cs := by
  obtain ⟨rfl, -, -⟩ := h
  exact List.suffix_append w rest

/-! ## Keywords -/

theorem isAsciiBlank_of_isWordChar (h : isWordChar c = true) : Text.isAsciiBlank c = false := by
  by_contra hb
  simp only [Text.isAsciiBlank, Bool.not_eq_false, Bool.or_eq_true, beq_iff_eq] at hb
  rcases hb with (((rfl | rfl) | rfl) | rfl) | rfl <;> revert h <;> decide

theorem Keyword.suffix (h : Keyword keyword cs rest) : rest <:+ cs := by
  obtain ⟨w, hr, -⟩ := h
  exact hr.suffix

/-- The next word is the keyword. -/
theorem keyword_iff :
    Keyword keyword cs rest ↔
      isKeyword keyword (cs.takeWhile isWordChar) = true ∧ rest = cs.dropWhile isWordChar := by
  constructor
  · rintro ⟨w, hr, hk⟩
    obtain ⟨rfl, rfl⟩ := hr.eq
    exact ⟨hk, rfl⟩
  · rintro ⟨hk, rfl⟩
    exact ⟨_, run_takeWhile isWordChar cs, hk⟩

/-- A keyword begins with a character of words. -/
theorem Keyword.start (h : Keyword keyword cs rest) (hk : keyword.toList ≠ []) :
    ∃ c cs', cs = c :: cs' ∧ isWordChar c = true := by
  obtain ⟨w, ⟨rfl, hw, -⟩, hkw⟩ := h
  cases w with
  | nil => exact absurd (beq_iff_eq.mp hkw).symm hk
  | cons c w => exact ⟨c, w ++ rest, rfl, hw c List.mem_cons_self⟩

/-- A word is one keyword at most. -/
theorem isKeyword_unique {keyword' : String} (h : isKeyword keyword w = true) (h' : isKeyword keyword' w = true) :
    keyword = keyword' :=
  String.toList_inj.mp ((beq_iff_eq.mp h).symm.trans (beq_iff_eq.mp h'))

/-- What a word stands for at the start of a type is in the table. -/
theorem ofWord?_iff {head : Head} :
    Head.ofWord? w = some head ↔ ∃ keyword, (keyword, head) ∈ heads ∧ isKeyword keyword w = true := by
  unfold Head.ofWord?
  constructor
  · intro h
    obtain ⟨row, hf, rfl⟩ := Option.map_eq_some_iff.mp h
    have hrow := List.find?_some hf
    exact ⟨row.1, List.mem_of_find?_eq_some hf, hrow⟩
  · rintro ⟨k, hk, hw⟩
    -- No two rows of the table have the same word.
    have hdistinct : ∀ a ∈ heads, ∀ b ∈ heads, a.1 = b.1 → a.2 = b.2 := by decide
    cases hf : heads.find? fun h => isKeyword h.1 w with
    | none => exact absurd hw (List.find?_eq_none.mp hf _ hk)
    | some row =>
      have hrow := List.find?_some hf
      have hsame := hdistinct row (List.mem_of_find?_eq_some hf) (k, head) hk (isKeyword_unique hrow hw)
      exact congrArg some hsame

/-- The head of a type is its first word, taken as far as word characters go. -/
theorem begins_iff {head : Head} :
    Begins head cs rest ↔
      Head.ofWord? (cs.takeWhile isWordChar) = some head ∧ rest = cs.dropWhile isWordChar := by
  rw [ofWord?_iff]
  constructor
  · rintro ⟨k, hk, h⟩
    obtain ⟨hw, rfl⟩ := keyword_iff.mp h
    exact ⟨⟨k, hk, hw⟩, rfl⟩
  · rintro ⟨⟨k, hk, hw⟩, rfl⟩
    exact ⟨k, hk, keyword_iff.mpr ⟨hw, rfl⟩⟩

theorem Begins.suffix {head : Head} (h : Begins head cs rest) : rest <:+ cs := by
  obtain ⟨k, -, hk⟩ := h
  exact hk.suffix

theorem Begins.start {head : Head} (h : Begins head cs rest) : ∃ c cs', cs = c :: cs' ∧ isWordChar c = true := by
  have hnonempty : ∀ row ∈ heads, row.1.toList ≠ [] := by decide
  obtain ⟨k, hk, h⟩ := h
  exact h.start (hnonempty _ hk)

/-- A trailing word is taken where the grammar has it. -/
theorem trailingWord?_iff (hk : keyword.toList ≠ []) :
    trailingWord? keyword cs = some rest ↔ ∃ second, Gap cs second ∧ Keyword keyword second rest := by
  constructor
  · intro h
    cases cs with
    | nil => cases h
    | cons c cs =>
      unfold trailingWord? at h
      dsimp only at h
      by_cases hc : (Text.isAsciiBlank c && isKeyword keyword ((skip cs).takeWhile isWordChar)) = true
      · rw [if_pos hc] at h
        rw [Bool.and_eq_true] at hc
        cases h
        exact ⟨skip cs, ⟨c, cs, rfl, hc.1, blanks_skip cs⟩, keyword_iff.mpr ⟨hc.2, rfl⟩⟩
      · rw [if_neg hc] at h
        cases h
  · rintro ⟨second, ⟨c, cs', rfl, hc, hb⟩, hw⟩
    obtain ⟨d, ds, rfl, hd⟩ := hw.start hk
    obtain ⟨hk, rfl⟩ := keyword_iff.mp hw
    have hskip : skip cs' = d :: ds := skip_eq hb (isAsciiBlank_of_isWordChar hd)
    unfold trailingWord?
    dsimp only
    rw [hskip, hc, hk]
    rfl

/-! ## Numbers and names -/

theorem Number.suffix {n : UInt32} (h : Number cs n rest) : rest <:+ cs := by
  obtain ⟨ds, hr, -, -⟩ := h
  exact hr.suffix

theorem isAsciiBlank_of_isDigit (h : c.isDigit = true) : Text.isAsciiBlank c = false :=
  isAsciiBlank_of_isWordChar (by simp [isWordChar, Char.isAlphanum, h])

/-- A number is read where the grammar has it. -/
theorem number_iff {what : Parameter} {n : UInt32} :
    number what cs = .ok (n, rest) ↔ ∃ start, Blanks cs start ∧ Number start n rest := by
  constructor
  · intro h
    refine ⟨skip cs, blanks_skip cs, (skip cs).takeWhile Char.isDigit, ?_⟩
    unfold number Text.spanDigits at h
    dsimp only at h
    by_cases hempty : ((skip cs).takeWhile Char.isDigit).isEmpty = true
    · rw [if_pos hempty] at h
      cases h
    · rw [if_neg hempty] at h
      by_cases hsmall : Text.ofDigits ((skip cs).takeWhile Char.isDigit) < UInt32.size
      · rw [if_pos hsmall] at h
        cases h
        refine ⟨run_takeWhile Char.isDigit (skip cs), by simpa using hempty, ?_⟩
        exact (UInt32.toNat_ofNat_of_lt hsmall).symm
      · rw [if_neg hsmall] at h
        cases h
  · rintro ⟨start, hb, ds, hr, hne, hn⟩
    have hskip : skip cs = start := by
      obtain ⟨rfl, hd, -⟩ := hr
      cases ds with
      | nil => exact absurd rfl hne
      | cons d ds => exact skip_eq hb (isAsciiBlank_of_isDigit (hd d List.mem_cons_self))
    obtain ⟨rfl, rfl⟩ := hr.eq
    unfold number Text.spanDigits
    rw [hskip]
    dsimp only
    rw [if_neg (by simpa using hne), hn, if_pos n.toNat_lt, UInt32.ofNat_toNat]

theorem FieldName.suffix {name : String} (h : FieldName cs name rest) : rest <:+ cs := by
  cases h with
  | bare run => exact run.suffix
  | @quoted w =>
    refine (List.suffix_cons '`' rest).trans ?_
    exact (List.suffix_append w ('`' :: rest)).trans (List.suffix_cons '`' (w ++ '`' :: rest))

/-- Reading a name behind a back-quote: up to the next one, and not empty. -/
theorem fieldName_of_quote {after : List Char} (h : skip cs = '`' :: after) :
    fieldName cs =
      match after.dropWhile (· != '`') with
      | [] => .error (.unterminatedQuote ('`' :: after))
      | _ :: behind =>
        if (after.takeWhile (· != '`')).isEmpty then .error (.emptyName ('`' :: after))
        else .ok (String.ofList (after.takeWhile (· != '`')), behind) := by
  unfold fieldName
  rw [h]
  rfl

theorem fieldName_of_bare (h : ∀ after, skip cs ≠ '`' :: after) :
    fieldName cs =
      if ((skip cs).takeWhile isNameChar).isEmpty then .error (.expectedName (skip cs))
      else if ((skip cs).takeWhile isNameChar).any (· == '`') then
        .error (.strayQuote (String.ofList ((skip cs).takeWhile isNameChar)))
      else if ((skip cs).takeWhile isNameChar).any fun c => c == ',' || c == '(' || c == ')' then
        .error (.missingType (String.ofList ((skip cs).takeWhile isNameChar)))
      else .ok (String.ofList ((skip cs).takeWhile isNameChar), (skip cs).dropWhile isNameChar) := by
  unfold fieldName
  split
  · next after hs => exact absurd hs (h after)
  · rfl

/-- A name in quotes has no other quote in it and at least one character. -/
theorem fieldName_quoted_iff {name : String} {after : List Char} (hs : skip cs = '`' :: after) :
    fieldName cs = .ok (name, rest) ↔
      ∃ w, w ≠ [] ∧ (∀ c ∈ w, c ≠ '`') ∧ after = w ++ '`' :: rest ∧ name = String.ofList w := by
  rw [fieldName_of_quote hs]
  constructor
  · intro h
    have hrun := run_takeWhile (· != '`') after
    generalize after.takeWhile (· != '`') = w at h hrun
    cases hd : after.dropWhile (· != '`') with
    | nil =>
      rw [hd] at h
      cases h
    | cons q behind =>
      rw [hd] at h hrun
      obtain ⟨rfl, hplain, hstop⟩ := hrun
      have hq : q = '`' := by simpa using hstop q rfl
      dsimp only at h
      split_ifs at h with hempty
      cases h
      exact ⟨w, by simpa using hempty, fun c hc => by simpa using hplain c hc, hq ▸ rfl, rfl⟩
  · rintro ⟨w, nonempty, plain, rfl, rfl⟩
    have hrun : Run (· != '`') (w ++ '`' :: rest) w ('`' :: rest) :=
      ⟨rfl, fun c hc => by simpa using plain c hc, fun c hc => by cases hc; decide⟩
    obtain ⟨hw, hrest⟩ := hrun.eq
    rw [← hw, ← hrest]
    exact if_neg (by simpa using nonempty)

/-- A name without quotes is a run of characters that are neither quotes nor marks. -/
theorem fieldName_bare_iff {name : String} (hs : ∀ after, skip cs ≠ '`' :: after) :
    fieldName cs = .ok (name, rest) ↔
      ∃ w, Run isNameChar (skip cs) w rest ∧ w ≠ [] ∧ (∀ c ∈ w, c ≠ '`' ∧ c ≠ ',' ∧ c ≠ '(' ∧ c ≠ ')') ∧
        name = String.ofList w := by
  rw [fieldName_of_bare hs]
  constructor
  · intro h
    split_ifs at h with hempty hquote hmark
    cases h
    refine ⟨_, run_takeWhile isNameChar (skip cs), by simpa using hempty, fun c hc => ?_, rfl⟩
    simp only [List.any_eq_true, not_exists, not_and, Bool.or_eq_true, beq_iff_eq, not_or] at hquote hmark
    exact ⟨hquote c hc, (hmark c hc).1.1, (hmark c hc).1.2, (hmark c hc).2⟩
  · rintro ⟨w, run, nonempty, plain, rfl⟩
    obtain ⟨rfl, rfl⟩ := run.eq
    rw [if_neg (by simpa using nonempty), if_neg, if_neg]
    · simp only [List.any_eq_true, not_exists, not_and, Bool.or_eq_true, beq_iff_eq, not_or]
      exact fun c hc => ⟨⟨(plain c hc).2.1, (plain c hc).2.2.1⟩, (plain c hc).2.2.2⟩
    · simp only [List.any_eq_true, not_exists, not_and, beq_iff_eq]
      exact fun c hc => (plain c hc).1

/-- A field name does not begin with a blank. -/
theorem FieldName.skip_eq {name : String} {start : List Char} (h : FieldName start name rest) (hb : Blanks cs start) :
    skip cs = start := by
  cases h with
  | bare run nonempty =>
    obtain ⟨rfl, hw, -⟩ := run
    obtain ⟨c, w, rfl⟩ := List.exists_cons_of_ne_nil nonempty
    exact Descriptor.skip_eq hb (by simpa [isNameChar] using hw c List.mem_cons_self)
  | quoted => exact Descriptor.skip_eq hb (by decide)

/-- A field name is read where the grammar has it. -/
theorem fieldName_iff {name : String} :
    fieldName cs = .ok (name, rest) ↔ ∃ start, Blanks cs start ∧ FieldName start name rest := by
  constructor
  · intro h
    refine ⟨skip cs, blanks_skip cs, ?_⟩
    by_cases hs : ∃ after, skip cs = '`' :: after
    · obtain ⟨after, hs⟩ := hs
      obtain ⟨w, nonempty, plain, rfl, rfl⟩ := (fieldName_quoted_iff hs).mp h
      exact hs ▸ .quoted nonempty plain
    · obtain ⟨w, run, nonempty, plain, rfl⟩ := (fieldName_bare_iff (not_exists.mp hs)).mp h
      exact .bare run nonempty plain
  · rintro ⟨start, hb, h⟩
    obtain rfl := h.skip_eq hb
    generalize hs : skip cs = start at h
    cases h with
    | @bare _ w _ run nonempty plain =>
      have hquote : ∀ after, skip cs ≠ '`' :: after := by
        -- A quote would belong to the run.
        intro after hq
        obtain ⟨hw, -⟩ := run.eq
        rw [← hs, hq, List.takeWhile_cons_of_pos (by decide)] at hw
        exact (plain '`' (by rw [hw]; exact List.mem_cons_self)).1 rfl
      exact (fieldName_bare_iff hquote).mpr ⟨w, hs ▸ run, nonempty, plain, rfl⟩
    | quoted nonempty plain => exact (fieldName_quoted_iff hs).mpr ⟨_, nonempty, plain, rfl, rfl⟩

end

end Rowset.Descriptor
