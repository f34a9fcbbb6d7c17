import Mathlib.Algebra.Ring.Int.Defs
import Mathlib.Algebra.Ring.Nat
import Rowset.Text.Blank
import Rowset.Text.Digits

/-!
# Runs of digits

What a run of digits writes and what `padded` writes.  A digit is not a blank, and a run of digits ends where no
digit comes next.  An integer is a run of digits behind one sign or none (`parseInt?_eq_some_iff`).
-/

namespace Rowset.Text

/-- Digits behind a run multiply it by their power of ten. -/
theorem ofDigits_append (ds es : List Char) :
    ofDigits (ds ++ es) = 10 ^ es.length * ofDigits ds + ofDigits es := by
  unfold ofDigits
  rw [Nat.ofDigitChars_append, Nat.ofDigitChars_eq_ofDigitChars_zero]

theorem digitValue_lt {c : Char} (h : c.isDigit = true) : digitValue c < 10 := by
  simp only [Char.isDigit, Bool.and_eq_true, decide_eq_true_eq] at h
  have : c.toNat ≤ 57 := h.2
  simp only [digitValue, Char.reduceToNat]
  omega

theorem ofDigits_singleton (c : Char) : ofDigits [c] = digitValue c := by
  simp only [ofDigits, digitValue, Nat.ofDigitChars_cons, Nat.ofDigitChars_nil, Nat.mul_zero, Nat.zero_add]

/-- A run of digits writes a number below the power of ten of its length. -/
theorem ofDigits_lt {ds : List Char} (h : ∀ c ∈ ds, c.isDigit = true) : ofDigits ds < 10 ^ ds.length := by
  induction ds with
  | nil => exact Nat.one_pos
  | cons c ds ih =>
    have hc := digitValue_lt (h c List.mem_cons_self)
    have ih := ih fun d hd => h d (List.mem_cons_of_mem c hd)
    rw [← List.singleton_append, ofDigits_append, ofDigits_singleton, List.length_append, List.length_singleton,
      Nat.add_comm 1, Nat.pow_succ]
    have : 10 ^ ds.length * digitValue c ≤ 10 ^ ds.length * 9 := Nat.mul_le_mul_left _ (by omega)
    omega

theorem isDigit_of_mem_zeros {k : Nat} {c : Char} (h : c ∈ List.replicate k '0') : c.isDigit = true := by
  rw [List.eq_of_mem_replicate h]
  rfl

theorem isDigit_of_mem_padded {width n : Nat} {c : Char} (h : c ∈ padded width n) : c.isDigit = true := by
  rcases List.mem_append.mp h with h | h
  · exact isDigit_of_mem_zeros h
  · exact isDigit_of_mem_digits h

@[simp] theorem ofDigits_zeros (k : Nat) : ofDigits (List.replicate k '0') = 0 := by
  unfold ofDigits
  rw [Nat.ofDigitChars_replicate_zero, Nat.mul_zero]

theorem ofDigits_padded (width n : Nat) : ofDigits (padded width n) = n := by
  rw [padded, ofDigits_append, ofDigits_zeros, Nat.mul_zero, Nat.zero_add, ofDigits_digits]

theorem length_padded {width n : Nat} (hw : 0 < width) (h : n < 10 ^ width) :
    (padded width n).length = width := by
  have hdigits : (digits n).length ≤ width := (Nat.length_toDigits_le_iff (by decide) hw).mpr h
  rw [padded, List.length_append, List.length_replicate]
  omega

theorem length_digits_pos (n : Nat) : 0 < (digits n).length :=
  List.length_pos_iff.mpr (digits_ne_nil n)

/-- The digits of a number are as many as its size in powers of ten. -/
theorem length_digits_le_iff {n : Nat} (hn : n ≠ 0) (k : Nat) : (digits n).length ≤ k ↔ n < 10 ^ k := by
  rcases Nat.eq_zero_or_pos k with rfl | hk
  · have := length_digits_pos n
    rw [Nat.pow_zero]
    omega
  · exact Nat.length_toDigits_le_iff (by decide) hk

/-- Zeros behind a number make as many more digits. -/
theorem length_digits_mul {n : Nat} (hn : n ≠ 0) (k : Nat) :
    (digits (n * 10 ^ k)).length = (digits n).length + k := by
  have hten : 0 < 10 ^ k := Nat.pow_pos (by decide)
  have hne : n * 10 ^ k ≠ 0 := Nat.mul_ne_zero hn (Nat.pos_iff_ne_zero.mp hten)
  have hle (j : Nat) : (digits (n * 10 ^ k)).length ≤ j + k ↔ (digits n).length ≤ j := by
    rw [length_digits_le_iff hne, length_digits_le_iff hn, Nat.pow_add, Nat.mul_lt_mul_right hten]
  have hk : k < (digits (n * 10 ^ k)).length := by
    refine Nat.lt_of_not_le fun h => ?_
    have := (hle 0).mp (by omega)
    have := length_digits_pos n
    omega
  refine Nat.le_antisymm ((hle _).mpr (Nat.le_refl _)) ?_
  have := (hle ((digits (n * 10 ^ k)).length - k)).mp (by omega)
  omega

/-- No zero stands in front of other digits. -/
theorem digits_ne_zero_cons (n : Nat) (d : Char) (ds : List Char) : digits n ≠ '0' :: d :: ds := by
  intro h
  have hvalue : n = ofDigits (d :: ds) := by
    rw [← ofDigits_digits n, h, ← List.singleton_append, ofDigits_append, show ofDigits ['0'] = 0 from rfl,
      Nat.mul_zero, Nat.zero_add]
  have hlt : n < 10 ^ (d :: ds).length := by
    rw [hvalue]
    exact ofDigits_lt fun c hc => isDigit_of_mem_digits (h ▸ List.mem_cons_of_mem _ hc)
  have hlen : (digits n).length ≤ (d :: ds).length :=
    (Nat.length_toDigits_le_iff (by decide) (Nat.succ_pos _)).mpr hlt
  rw [h, List.length_cons] at hlen
  omega

theorem isBlank_of_isDigit {c : Char} (h : c.isDigit = true) : isBlank c = false := by
  simp only [Char.isDigit, Bool.and_eq_true, decide_eq_true_eq] at h
  have h₁ : 48 ≤ c.toNat := h.1
  have h₂ : c.toNat ≤ 57 := h.2
  simp only [isBlank, blankRanges, List.any_cons, List.any_nil, Bool.or_false, Bool.or_eq_false_iff,
    Bool.and_eq_false_iff, decide_eq_false_iff_not]
  omega

theorem trimStart_cons {c : Char} (h : isBlank c = false) (cs : List Char) : trimStart (c :: cs) = c :: cs := by
  rw [trimStart, List.dropWhile_cons_of_neg (by simp [h])]

theorem trimStart_blanks {blanks : List Char} (hb : ∀ c ∈ blanks, isBlank c = true) {c : Char}
    (hc : isBlank c = false) (cs : List Char) : trimStart (blanks ++ c :: cs) = c :: cs := by
  rw [trimStart, List.dropWhile_append_of_pos hb, List.dropWhile_cons_of_neg (by simp [hc])]

/-- Blanks around a text are taken off. -/
theorem trim_blanks {before cs after : List Char} (hb : ∀ c ∈ before, isBlank c = true)
    (ha : ∀ c ∈ after, isBlank c = true) (hne : cs ≠ []) (hc : ∀ c ∈ cs, isBlank c = false) :
    trim (before ++ cs ++ after) = cs := by
  have hstart {blanks ds : List Char} (hb : ∀ c ∈ blanks, isBlank c = true) (hne : ds ≠ [])
      (hd : ∀ c ∈ ds, isBlank c = false) (rest : List Char) : trimStart (blanks ++ (ds ++ rest)) = ds ++ rest := by
    obtain ⟨c, ds, rfl⟩ := List.exists_cons_of_ne_nil hne
    exact trimStart_blanks hb (hd c List.mem_cons_self) (ds ++ rest)
  have hend : trimStart (after.reverse ++ (cs.reverse ++ [])) = cs.reverse ++ [] :=
    hstart (by simpa using ha) (by simpa using hne) (by simpa using hc) []
  rw [List.append_nil] at hend
  rw [trim, List.append_assoc, hstart hb hne hc, List.reverse_append, hend, List.reverse_reverse]

theorem trim_of_nonblank {cs : List Char} (hne : cs ≠ []) (hc : ∀ c ∈ cs, isBlank c = false) : trim cs = cs := by
  have h : trim ([] ++ cs ++ []) = cs := trim_blanks nofun nofun hne hc
  rwa [List.nil_append, List.append_nil] at h

/-! ## Integers -/

theorem trim_signed (n : Int) : trim (signed n) = signed n := by
  have hdigits : ∀ c ∈ digits n.natAbs, isBlank c = false := fun c hc => isBlank_of_isDigit (isDigit_of_mem_digits hc)
  unfold signed
  split_ifs
  · exact trim_of_nonblank (List.cons_ne_nil _ _) (List.forall_mem_cons.mpr ⟨by decide, hdigits⟩)
  · exact trim_of_nonblank (digits_ne_nil _) hdigits

theorem parseInt?_minus {ds : List Char} (hne : ds ≠ []) (hd : ∀ c ∈ ds, c.isDigit = true) :
    parseInt? ('-' :: ds) = some (-(ofDigits ds : Int)) := by
  simp [parseInt?, hne, List.all_eq_true.mpr hd]

theorem parseInt?_plus {ds : List Char} (hne : ds ≠ []) (hd : ∀ c ∈ ds, c.isDigit = true) :
    parseInt? ('+' :: ds) = some (ofDigits ds : Int) := by
  simp [parseInt?, hne, List.all_eq_true.mpr hd]

theorem parseInt?_digits {ds : List Char} (hne : ds ≠ []) (hd : ∀ c ∈ ds, c.isDigit = true) :
    parseInt? ds = some (ofDigits ds : Int) := by
  unfold parseInt?
  split
  · exact absurd (hd '+' List.mem_cons_self) (by decide)
  · exact absurd (hd '-' List.mem_cons_self) (by decide)
  · simp [hne, List.all_eq_true.mpr hd]

/-- One sign or none in front of a number, and whether it is a minus. -/
inductive LeadingSign : List Char → Bool → Prop
  | absent : LeadingSign [] false
  | plus : LeadingSign ['+'] false
  | minus : LeadingSign ['-'] true

/-- The integer with a sign and a magnitude. -/
def withSign (negative : Bool) (n : Nat) : Int :=
  if negative then -n else n

/-- A text of an integer: one sign or none, then digits. -/
inductive IntegerText : List Char → Int → Prop
  | mk {sign ds : List Char} {negative : Bool} (hs : LeadingSign sign negative) (hne : ds ≠ [])
      (hd : ∀ c ∈ ds, c.isDigit = true) : IntegerText (sign ++ ds) (withSign negative (ofDigits ds))

/-- Exactly the texts of an integer are read as that integer. -/
theorem parseInt?_eq_some_iff {cs : List Char} {n : Int} : parseInt? cs = some n ↔ IntegerText cs n := by
  constructor
  · intro h
    have hrun {ds : List Char} {f : Nat → Int}
        (h : (if ds.isEmpty || !ds.all Char.isDigit then none else some (ofDigits ds)).map f = some n) :
        ds ≠ [] ∧ (∀ c ∈ ds, c.isDigit = true) ∧ f (ofDigits ds) = n := by
      split_ifs at h with hd
      · cases h
      · simp at hd
        exact ⟨hd.1, hd.2, by simpa using h⟩
    unfold parseInt? at h
    split at h
    · obtain ⟨hne, hd, rfl⟩ := hrun h
      exact .mk .plus hne hd
    · obtain ⟨hne, hd, rfl⟩ := hrun h
      exact .mk .minus hne hd
    · obtain ⟨hne, hd, rfl⟩ := hrun h
      exact .mk .absent hne hd
  · rintro ⟨hs, hne, hd⟩
    cases hs with
    | absent => exact parseInt?_digits hne hd
    | plus => exact parseInt?_plus hne hd
    | minus => exact parseInt?_minus hne hd

theorem LeadingSign.mem {sign : List Char} {negative : Bool} (h : LeadingSign sign negative) {c : Char}
    (hc : c ∈ sign) : c = '+' ∨ c = '-' := by
  cases h with
  | absent => cases hc
  | plus => exact .inl (List.mem_singleton.mp hc)
  | minus => exact .inr (List.mem_singleton.mp hc)

theorem IntegerText.isDigit_or_sign {cs : List Char} {n : Int} (h : IntegerText cs n) :
    ∀ c ∈ cs, c.isDigit = true ∨ c = '+' ∨ c = '-' := by
  obtain ⟨hs, -, hd⟩ := h
  intro c hc
  rcases List.mem_append.mp hc with hc | hc
  · exact .inr (hs.mem hc)
  · exact .inl (hd c hc)

/-- What is read as an integer consists of digits and signs. -/
theorem isDigit_or_sign_of_parseInt? {cs : List Char} {n : Int} (h : parseInt? cs = some n) :
    ∀ c ∈ cs, c.isDigit = true ∨ c = '+' ∨ c = '-' :=
  (parseInt?_eq_some_iff.mp h).isDigit_or_sign

/-! ## Where a run ends -/

/-- No digit comes next. -/
def EndsDigits (rest : List Char) : Prop :=
  ∀ c ∈ rest.head?, c.isDigit = false

@[simp] theorem endsDigits_nil : EndsDigits [] := nofun

@[simp] theorem endsDigits_cons {c : Char} {rest : List Char} : EndsDigits (c :: rest) ↔ c.isDigit = false := by
  simp [EndsDigits]

theorem EndsDigits.takeWhile_take {rest : List Char} (h : EndsDigits rest) (k : Nat) :
    (rest.take k).takeWhile Char.isDigit = [] := by
  cases rest with
  | nil => simp
  | cons c rest =>
    cases k with
    | zero => rfl
    | succ k => rw [List.take_succ_cons, List.takeWhile_cons_of_neg (by simpa using endsDigits_cons.mp h)]

theorem EndsDigits.spanDigits_append {ds rest : List Char} (h : EndsDigits rest)
    (hd : ∀ c ∈ ds, c.isDigit = true) :
    spanDigits (ds ++ rest) = (ds, rest) := by
  have htake : rest.takeWhile Char.isDigit = [] := by
    simpa using h.takeWhile_take rest.length
  have hdrop : rest.dropWhile Char.isDigit = rest := by
    have := List.takeWhile_append_dropWhile (p := Char.isDigit) (l := rest)
    rwa [htake] at this
  rw [spanDigits, List.takeWhile_append_of_pos hd, List.dropWhile_append_of_pos hd, htake, hdrop,
    List.append_nil]

end Rowset.Text
