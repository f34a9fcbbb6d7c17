import Rowset.Descriptor.Printer
import Rowset.Proofs.Descriptor.Recognition

/-!
# Writing and reading descriptors

`Descriptor.write` writes texts of the grammar as long as every struct has a field and every field name can be
written: it is not empty and holds no back-quote.  Such a type, if it is not too high, is `Representable`, and
these are exactly the types that are read back from their text.  What is read from any text is representable.

`Structs P` says that the fields of every struct inside a type have the property `P`; `Buildable` types have
distinct names because of how structs are built.  The main statement is `parse_text_iff_representable`.
-/

namespace Rowset.Descriptor

/-! ## Definitions -/

/-- Every struct inside the type has fields with the property `P`. -/
inductive Structs (P : List (String × Descriptor) → Prop) : Descriptor → Prop
  | scalar (k : Scalar) (n : Bool) : Structs P (scalar k n)
  | decimal (p s : UInt32) (n : Bool) : Structs P (decimal p s n)
  | array {e : Descriptor} (n : Bool) (element : Structs P e) : Structs P (array e n)
  | struct {fs : List (String × Descriptor)} (n : Bool) (here : P fs) (types : ∀ f ∈ fs, Structs P f.2) :
      Structs P (struct fs n)

/-- A name that can be written: it is not empty and holds no back-quote. -/
def Nameable (name : String) : Prop :=
  name.toList ≠ [] ∧ ∀ c ∈ name.toList, c ≠ '`'

/-- There is a field, and the names of all fields can be written. -/
def Writable (fs : List (String × Descriptor)) : Prop :=
  fs ≠ [] ∧ ∀ f ∈ fs, Nameable f.1

/-- The names of the fields are distinct. -/
def Distinct (fs : List (String × Descriptor)) : Prop :=
  (fs.map (·.1)).Nodup

/-- Types that are read back from their text. -/
def Representable (t : Descriptor) : Prop :=
  Structs Writable t ∧ t.height ≤ maxLevels

/-- Types that can be built: structs are built by `ofFields` only. -/
inductive Buildable : Descriptor → Prop
  | scalar (k : Scalar) (n : Bool) : Buildable (scalar k n)
  | decimal (p s : UInt32) (n : Bool) : Buildable (decimal p s n)
  | array {e : Descriptor} (n : Bool) (element : Buildable e) : Buildable (array e n)
  | struct {fs : List (String × Descriptor)} (n : Bool) (types : ∀ f ∈ fs, Buildable f.2) :
      Buildable (ofFields fs n)

section

variable {fs gs : List (String × Descriptor)} {name : String} {t : Descriptor}

/-! ## Built structs have distinct names -/

theorem mem_putField {f : String × Descriptor} (h : f ∈ putField name t fs) : f = (name, t) ∨ f ∈ fs := by
  induction fs with
  | nil => exact .inl (List.mem_singleton.mp h)
  | cons g fs ih =>
    unfold putField at h
    by_cases hg : g.1 = name
    · rw [if_pos hg] at h
      rcases List.mem_cons.mp h with h | h
      · exact .inl h
      · exact .inr (List.mem_cons_of_mem g h)
    · rw [if_neg hg] at h
      rcases List.mem_cons.mp h with h | h
      · exact .inr (h ▸ List.mem_cons_self)
      · exact (ih h).imp_right (List.mem_cons_of_mem g)

theorem distinct_putField (h : Distinct fs) : Distinct (putField name t fs) := by
  induction fs with
  | nil => simp [Distinct, putField]
  | cons g fs ih =>
    unfold Distinct at h ih ⊢
    rw [List.map_cons, List.nodup_cons] at h
    unfold putField
    by_cases hg : g.1 = name
    · rw [if_pos hg, List.map_cons, List.nodup_cons]
      exact hg ▸ h
    · rw [if_neg hg, List.map_cons, List.nodup_cons]
      refine ⟨fun hmem => ?_, ih h.2⟩
      obtain ⟨f, hf, hname⟩ := List.mem_map.mp hmem
      rcases mem_putField hf with rfl | hf
      · exact hg hname.symm
      · exact h.1 (List.mem_map.mpr ⟨f, hf, hname⟩)

/-- However fields are put together, no name occurs twice, and each is one of the given ones. -/
theorem foldl_putField (fs : List (String × Descriptor)) (hd : Distinct gs) :
    Distinct (fs.foldl (fun fs f => putField f.1 f.2 fs) gs) ∧
      ∀ f ∈ fs.foldl (fun fs f => putField f.1 f.2 fs) gs, f ∈ gs ∨ f ∈ fs := by
  induction fs generalizing gs with
  | nil => exact ⟨hd, fun f hf => .inl hf⟩
  | cons g fs ih =>
    have hput : Distinct (putField g.1 g.2 gs) := distinct_putField hd
    obtain ⟨hdistinct, hmem⟩ := ih hput
    refine ⟨hdistinct, fun f hf => ?_⟩
    rcases hmem f hf with h | h
    · rcases mem_putField h with rfl | h
      · exact .inr List.mem_cons_self
      · exact .inl h
    · exact .inr (List.mem_cons_of_mem g h)

theorem Buildable.distinct (h : Buildable t) : Structs Distinct t := by
  induction h with
  | scalar k n => exact .scalar k n
  | decimal p s n => exact .decimal p s n
  | array n _ ih => exact .array n ih
  | @struct fs n _ ih =>
    have hnil : Distinct [] := List.nodup_nil
    obtain ⟨hdistinct, hmem⟩ := foldl_putField fs hnil
    refine .struct n hdistinct fun f hf => ?_
    rcases hmem f hf with h | h
    · cases h
    · exact ih f h

/-! ## What is read is representable -/

theorem heightOfFields_le_iff {n : Nat} : heightOfFields fs ≤ n ↔ ∀ f ∈ fs, f.2.height ≤ n := by
  induction fs with
  | nil => simp [heightOfFields]
  | cons f fs ih =>
    rw [heightOfFields, Nat.max_le, ih, List.forall_mem_cons]

theorem Structs.imp {P Q : List (String × Descriptor) → Prop} (h : ∀ fs, P fs → Q fs) (ht : Structs P t) :
    Structs Q t := by
  induction ht with
  | scalar k n => exact .scalar k n
  | decimal p s n => exact .decimal p s n
  | array n _ ih => exact .array n ih
  | struct n here _ ih => exact .struct n (h _ here) ih

theorem Structs.and {P Q : List (String × Descriptor) → Prop} (hp : Structs P t) (hq : Structs Q t) :
    Structs (fun fs => P fs ∧ Q fs) t := by
  induction hp with
  | scalar k n => exact .scalar k n
  | decimal p s n => exact .decimal p s n
  | array n _ ih =>
    cases hq with
    | array _ element => exact .array n (ih element)
  | struct n here _ ih =>
    cases hq with
    | struct _ here' types => exact .struct n ⟨here, here'⟩ fun f hf => ih f hf (types f hf)

theorem Structs.orNull {P : List (String × Descriptor) → Prop} (h : Structs P t) : Structs P t.orNull := by
  cases h with
  | scalar k n => exact .scalar k true
  | decimal p s n => exact .decimal p s true
  | array n element => exact .array true element
  | struct n here types => exact .struct true here types

/-- What was read as a name can be written as one, between back-quotes. -/
theorem FieldName.nameable {cs rest : List Char} (h : FieldName cs name rest) : Nameable name := by
  cases h with
  | bare run nonempty plain =>
    unfold Nameable
    rw [String.toList_ofList]
    exact ⟨nonempty, fun c hc => (plain c hc).1⟩
  | quoted nonempty plain =>
    unfold Nameable
    rw [String.toList_ofList]
    exact ⟨nonempty, plain⟩

theorem FieldsText.writable {T : Production Descriptor} {cs rest : List Char} (h : FieldsText T cs fs rest) :
    Writable fs ∧ ∀ f ∈ fs, ∃ start behind, T start f.2 behind := by
  induction h with
  | one blanks called type =>
    refine ⟨⟨List.cons_ne_nil _ _, ?_⟩, ?_⟩
    · rintro f hf
      rw [List.mem_singleton.mp hf]
      exact called.nameable
    · rintro f hf
      rw [List.mem_singleton.mp hf]
      exact ⟨_, _, type⟩
  | more blanks called type comma _ ih =>
    obtain ⟨⟨-, hnames⟩, htypes⟩ := ih
    exact ⟨⟨List.cons_ne_nil _ _, List.forall_mem_cons.mpr ⟨called.nameable, hnames⟩⟩,
      List.forall_mem_cons.mpr ⟨⟨_, _, type⟩, htypes⟩⟩

/-- A text of the grammar stands for a type that can be written and is no higher than it may be. -/
theorem typeText_structs {levels : Nat} {cs rest : List Char} (h : TypeText levels cs t rest) :
    Structs (fun fs => Writable fs ∧ Distinct fs) t ∧ t.height ≤ levels := by
  induction levels generalizing cs t rest with
  | zero => exact h.elim
  | succ levels ih =>
    have hbase : ∀ {start behind t'}, BaseText (TypeText levels) start t' behind →
        Structs (fun fs => Writable fs ∧ Distinct fs) t' ∧ t'.height ≤ levels + 1 := by
      intro start behind t' hbase
      cases hbase with
      | scalar => exact ⟨.scalar _ _, by simp [height]⟩
      | double => exact ⟨.scalar _ _, by simp [height]⟩
      | doublePrecision => exact ⟨.scalar _ _, by simp [height]⟩
      | decimal => exact ⟨.decimal _ _ _, by simp [height]⟩
      | array _ _ element =>
        obtain ⟨hstructs, hheight⟩ := ih element
        exact ⟨.array _ hstructs, Nat.succ_le_succ hheight⟩
      | struct _ _ fields _ distinct =>
        obtain ⟨hwritable, htypes⟩ := fields.writable
        refine ⟨.struct _ ⟨hwritable, distinct⟩ fun f hf => ?_, ?_⟩
        · obtain ⟨_, _, htype⟩ := htypes f hf
          exact (ih htype).1
        · rw [height]
          refine Nat.succ_le_succ (heightOfFields_le_iff.mpr fun f hf => ?_)
          obtain ⟨_, _, htype⟩ := htypes f hf
          exact (ih htype).2
    cases h with
    | plain blanks base => exact hbase base
    | null blanks base gap word =>
      obtain ⟨hstructs, hheight⟩ := hbase base
      exact ⟨hstructs.orNull, by rwa [height_orNull]⟩

end

/-! ## What is written is in the grammar -/

/-- No word goes on here. -/
def Ends (rest : List Char) : Prop :=
  ∀ c ∈ rest.head?, isWordChar c = false

section

variable {rest body : List Char} {keyword name : String} {head : Head} {t t' : Descriptor}
  {fs : List (String × Descriptor)} {levels : Nat}

theorem ends_cons {c : Char} (h : isWordChar c = false) (rest : List Char) : Ends (c :: rest) := by
  rintro d ⟨⟩
  exact h

theorem ends_writeNull (n : Bool) (h : Ends rest) : Ends (writeNull n ++ rest) := by
  cases n with
  | false => exact h
  | true => exact ends_cons (by decide) ("null".toList ++ rest)

theorem keyword_append (hw : keyword.toList.all isWordChar = true)
    (hl : keyword.toList.map Char.toLower = keyword.toList) (hr : Ends rest) :
    Keyword keyword (keyword.toList ++ rest) rest :=
  ⟨keyword.toList, ⟨rfl, List.all_eq_true.mp hw, hr⟩, beq_iff_eq.mpr hl⟩

/-- The words of the table are in lower case. -/
theorem begins_append (hk : (keyword, head) ∈ heads) (hr : Ends rest) :
    Begins head (keyword.toList ++ rest) rest := by
  have hwords : heads.all (fun row => row.1.toList.all isWordChar &&
      row.1.toList.map Char.toLower == row.1.toList) = true := by decide
  obtain ⟨hw, hl⟩ := Bool.and_eq_true_iff.mp (List.all_eq_true.mp hwords _ hk)
  exact ⟨keyword, hk, keyword_append hw (beq_iff_eq.mp hl) hr⟩

/-- The marker for null is written where the grammar has it. -/
theorem marked_writeNull {B : Production Descriptor} (n : Bool) (ht : t' = if n then t.orNull else t)
    (hB : ∀ rest, Ends rest → B (body ++ rest) t rest) (hr : Ends rest) :
    Marked B (body ++ writeNull n ++ rest) t' rest := by
  rw [List.append_assoc, ht]
  cases n with
  | false => exact .plain (Blanks.refl _) (hB rest hr)
  | true =>
    have hgap : Gap (writeNull true ++ rest) ("null".toList ++ rest) := ⟨' ', _, rfl, by decide, Blanks.refl _⟩
    exact .null (Blanks.refl _) (hB _ (ends_writeNull true hr)) hgap
      (keyword_append (by decide) (by decide) hr)

theorem blanks_space (rest : List Char) : Blanks (' ' :: rest) rest := by
  refine ⟨[' '], rfl, fun c hc => ?_⟩
  rw [List.mem_singleton.mp hc]
  decide

theorem scalar_write (k : Scalar) {T : Production Descriptor} (hr : Ends rest) :
    BaseText T (k.name.toList ++ rest) (scalar k false) rest := by
  cases k with
  | double => exact .double (begins_append (by decide) hr)
  | _ => exact .scalar (begins_append (by decide) hr)

theorem number_write (n : UInt32) {c : Char} (hc : c.isDigit = false) (rest : List Char) :
    Number (Text.digits n.toNat ++ c :: rest) n (c :: rest) := by
  refine ⟨Text.digits n.toNat, ⟨rfl, fun d hd => Text.isDigit_of_mem_digits hd, ?_⟩,
    Text.digits_ne_nil n.toNat, Text.ofDigits_digits n.toNat⟩
  rintro d ⟨⟩
  exact hc

theorem decimal_write (p s : UInt32) {T : Production Descriptor} (rest : List Char) :
    BaseText T ("decimal(".toList ++ Text.digits p.toNat ++ ", ".toList ++ Text.digits s.toNat ++ [')'] ++ rest)
      (decimal p s false) rest := by
  have htext : "decimal(".toList ++ Text.digits p.toNat ++ ", ".toList ++ Text.digits s.toNat ++ [')'] ++ rest =
      "decimal".toList ++ '(' :: (Text.digits p.toNat ++ ',' :: ' ' :: (Text.digits s.toNat ++ ')' :: rest)) := by
    simp
  rw [htext]
  exact .decimal (begins_append (by decide) (ends_cons (by decide) _)) (Blanks.refl _) (Blanks.refl _)
    (number_write p (by decide) _) (Blanks.refl _) (blanks_space _) (number_write s (by decide) _)
    (Blanks.refl _)

/-- What needs no quotes can stand without them. -/
theorem plain_of_needsQuotes {c : Char} (h : needsQuotes c = false) :
    isNameChar c = true ∧ c ≠ ',' ∧ c ≠ '(' ∧ c ≠ ')' := by
  simp only [needsQuotes, Bool.or_eq_false_iff, beq_eq_false_iff_ne] at h
  obtain ⟨⟨⟨hblank, hcomma⟩, hopening⟩, hclosing⟩ := h
  refine ⟨?_, hcomma, hopening, hclosing⟩
  -- The blanks that need quotes are more than those that end a name.
  have hascii : Text.isAsciiBlank c = false := by
    by_contra hb
    rw [Text.isBlank_of_isAsciiBlank (by simpa using hb)] at hblank
    cases hblank
  simp [isNameChar, hascii]

/-- A name is written so that it can be read. -/
theorem fieldName_write (hn : Nameable name) (rest : List Char) :
    FieldName (writeName name ++ ' ' :: rest) name (' ' :: rest) := by
  obtain ⟨hne, hquote⟩ := hn
  have hname : String.ofList name.toList = name := String.ofList_toList
  unfold writeName
  by_cases hq : (name.toList.isEmpty || name.toList.any needsQuotes) = true
  · have htext : '`' :: name.toList ++ ['`'] ++ ' ' :: rest = '`' :: (name.toList ++ '`' :: ' ' :: rest) := by
      simp
    rw [if_pos hq, htext]
    have h : FieldName _ _ (' ' :: rest) := .quoted hne hquote
    rwa [hname] at h
  · rw [if_neg hq]
    have hplain : ∀ c ∈ name.toList, needsQuotes c = false := by
      intro c hc
      rw [Bool.or_eq_true, not_or] at hq
      simpa using fun h => hq.2 (List.any_eq_true.mpr ⟨c, hc, h⟩)
    have hrun : Run isNameChar (name.toList ++ ' ' :: rest) name.toList (' ' :: rest) := by
      refine ⟨rfl, fun c hc => (plain_of_needsQuotes (hplain c hc)).1, ?_⟩
      rintro c ⟨⟩
      decide
    have h := FieldName.bare hrun hne fun c hc => ⟨hquote c hc, (plain_of_needsQuotes (hplain c hc)).2⟩
    rwa [hname] at h

theorem Blanks.trans {cs mid rest : List Char} (h : Blanks cs mid) (h' : Blanks mid rest) : Blanks cs rest := by
  obtain ⟨w, rfl, hw⟩ := h
  obtain ⟨w', rfl, hw'⟩ := h'
  refine ⟨w ++ w', (List.append_assoc w w' rest).symm, fun c hc => ?_⟩
  rcases List.mem_append.mp hc with hc | hc
  · exact hw c hc
  · exact hw' c hc

/-- Blanks may stand in front of a type. -/
theorem typeText_of_blanks {cs mid : List Char} (hb : Blanks cs mid) (h : TypeText levels mid t rest) :
    TypeText levels cs t rest := by
  cases levels with
  | zero => exact h.elim
  | succ levels =>
    cases h with
    | plain blanks base => exact .plain (hb.trans blanks) base
    | null blanks base gap word => exact .null (hb.trans blanks) base gap word

theorem fieldsText_of_blanks {T : Production Descriptor} {cs mid : List Char} (hb : Blanks cs mid)
    (h : FieldsText T mid fs rest) : FieldsText T cs fs rest := by
  cases h with
  | one blanks called type => exact .one (hb.trans blanks) called type
  | more blanks called type comma fields => exact .more (hb.trans blanks) called type comma fields

/-- Fields are written in the grammar if their types are. -/
theorem fieldsText_write (hw : Writable fs)
    (ht : ∀ f ∈ fs, ∀ rest, Ends rest → TypeText levels (f.2.write ++ rest) f.2 rest) (rest : List Char) :
    FieldsText (TypeText levels) (writeFields fs ++ ')' :: rest) fs (')' :: rest) := by
  obtain ⟨hne, hnames⟩ := hw
  induction fs with
  | nil => exact absurd rfl hne
  | cons f fs ih =>
    obtain ⟨name, t⟩ := f
    have hname := hnames _ List.mem_cons_self
    have htype := ht _ List.mem_cons_self
    unfold writeFields
    cases fs with
    | nil =>
      have htext : writeName name ++ ' ' :: t.write ++ [] ++ ')' :: rest =
          writeName name ++ ' ' :: (t.write ++ ')' :: rest) := by simp
      rw [List.isEmpty_nil, if_pos rfl, htext]
      exact .one (Blanks.refl _) (fieldName_write hname _)
        (typeText_of_blanks (blanks_space _) (htype _ (ends_cons (by decide) rest)))
    | cons g gs =>
      have htext : writeName name ++ ' ' :: t.write ++ (", ".toList ++ writeFields (g :: gs)) ++ ')' :: rest =
          writeName name ++ ' ' :: (t.write ++ ',' :: ' ' :: (writeFields (g :: gs) ++ ')' :: rest)) := by simp
      have hrest := ih (fun f hf => ht f (List.mem_cons_of_mem _ hf)) (List.cons_ne_nil g gs)
        fun f hf => hnames f (List.mem_cons_of_mem _ hf)
      rw [List.isEmpty_cons, if_neg (by decide), htext]
      exact .more (Blanks.refl _) (fieldName_write hname _)
        (typeText_of_blanks (blanks_space _) (htype _ (ends_cons (by decide) _))) (Blanks.refl _)
        (fieldsText_of_blanks (blanks_space _) hrest)

/-- A type that can be written is written in the grammar, with as many levels as it has. -/
theorem typeText_write (h : Structs (fun fs => Writable fs ∧ Distinct fs) t) (hh : t.height ≤ levels)
    (hr : Ends rest) : TypeText levels (t.write ++ rest) t rest := by
  induction h generalizing levels rest with
  | scalar k n =>
    obtain ⟨levels, rfl⟩ : ∃ m, levels = m + 1 := ⟨levels - 1, by simp only [height] at hh; omega⟩
    exact marked_writeNull n (by cases n <;> rfl) (fun _ => scalar_write k) hr
  | decimal p s n =>
    obtain ⟨levels, rfl⟩ : ∃ m, levels = m + 1 := ⟨levels - 1, by simp only [height] at hh; omega⟩
    exact marked_writeNull n (by cases n <;> rfl) (fun rest _ => decimal_write p s rest) hr
  | @array e n _ ih =>
    obtain ⟨levels, rfl⟩ : ∃ m, levels = m + 1 := ⟨levels - 1, by simp only [height] at hh; omega⟩
    rw [height] at hh
    refine marked_writeNull n (t := .array e false) (by cases n <;> rfl) (fun rest _ => ?_) hr
    have htext : "array(".toList ++ e.write ++ [')'] ++ rest =
        "array".toList ++ '(' :: (e.write ++ ')' :: rest) := by simp
    rw [htext]
    exact .array (begins_append (by decide) (ends_cons (by decide) _)) (Blanks.refl _)
      (ih (Nat.le_of_succ_le_succ hh) (ends_cons (by decide) rest)) (Blanks.refl _)
  | @struct fs n here _ ih =>
    obtain ⟨levels, rfl⟩ : ∃ m, levels = m + 1 := ⟨levels - 1, by simp only [height] at hh; omega⟩
    rw [height] at hh
    have hheights := heightOfFields_le_iff.mp (Nat.le_of_succ_le_succ hh)
    refine marked_writeNull n (t := .struct fs false) (by cases n <;> rfl) (fun rest _ => ?_) hr
    have htext : "struct(".toList ++ writeFields fs ++ [')'] ++ rest =
        "struct".toList ++ '(' :: (writeFields fs ++ ')' :: rest) := by simp
    rw [htext]
    exact .struct (begins_append (by decide) (ends_cons (by decide) _)) (Blanks.refl _)
      (fieldsText_write here.1 (fun f hf _ => ih f hf (hheights f hf)) rest) (Blanks.refl _) here.2

end

/-! ## Round trips -/

/-- A type with names that can be written is read back from its text. -/
theorem parse_text {t : Descriptor} (h : Structs (fun fs => Writable fs ∧ Distinct fs) t)
    (hh : t.height ≤ maxLevels) : parse t.text = .ok t := by
  refine parse_iff.mpr ⟨[], ?_, Blanks.refl []⟩
  unfold text
  rw [String.toList_ofList, ← t.write.append_nil]
  exact typeText_write h hh nofun

/-- What was read can be written, and is no higher than the bound. -/
theorem representable_of_parse {s : String} {t : Descriptor} (h : parse s = .ok t) :
    Structs (fun fs => Writable fs ∧ Distinct fs) t ∧ t.height ≤ maxLevels := by
  obtain ⟨rest, ht, -⟩ := parse_iff.mp h
  exact typeText_structs ht

/-- Of the types that can be built, those and only those that are representable are read back from their text.
Whatever is read from a text is representable, and so writing and reading it again changes nothing. -/
theorem parse_text_iff_representable :
    (∀ t, Buildable t → (parse t.text = .ok t ↔ Representable t)) ∧
      ∀ s t, parse s = .ok t → Representable t ∧ parse t.text = .ok t := by
  have hwritable : ∀ {t}, Structs (fun fs => Writable fs ∧ Distinct fs) t → Structs Writable t :=
    fun h => h.imp fun _ hfs => hfs.1
  refine ⟨fun t hb => ⟨fun h => ?_, fun h => ?_⟩, fun s t h => ?_⟩
  · obtain ⟨hstructs, hheight⟩ := representable_of_parse h
    exact ⟨hwritable hstructs, hheight⟩
  · exact parse_text (h.1.and hb.distinct) h.2
  · obtain ⟨hstructs, hheight⟩ := representable_of_parse h
    exact ⟨⟨hwritable hstructs, hheight⟩, parse_text hstructs hheight⟩

/-- A struct with a name that needs quotes and a name that is a keyword. -/
def sampleStruct : Descriptor :=
  ofFields [("a, b", .decimal 10 2 true), ("null", .array (.scalar .double false) true)] false

/-- A struct with a name that cannot be written. -/
def unwritableStruct : Descriptor :=
  ofFields [("a`b", .scalar .int false)] false

theorem parse_text_sample :
    Buildable sampleStruct ∧ Representable sampleStruct ∧ parse sampleStruct.text = .ok sampleStruct ∧
      Buildable unwritableStruct ∧ parse unwritableStruct.text ≠ .ok unwritableStruct := by
  have hbuildable : Buildable sampleStruct :=
    .struct false (by simpa using ⟨Buildable.decimal 10 2 true, Buildable.array true (.scalar .double false)⟩)
  have hunwritable : Buildable unwritableStruct :=
    .struct false (by simpa using Buildable.scalar .int false)
  have hparse : parse sampleStruct.text = .ok sampleStruct := by with_unfolding_all rfl
  refine ⟨hbuildable, (parse_text_iff_representable.2 _ _ hparse).1, hparse, hunwritable, fun h => ?_⟩
  obtain ⟨hstructs, -⟩ := (parse_text_iff_representable.1 _ hunwritable).mp h
  cases (hstructs : Structs Writable (.struct [("a`b", .scalar .int false)] false)) with
  | struct _ here => exact (here.2 _ List.mem_cons_self).2 '`' (by decide) rfl

end Rowset.Descriptor
