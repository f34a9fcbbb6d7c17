import Rowset.Proofs.Steps
import Rowset.Wire.StreamRecord

/-!
# Readers take bytes and give none back

A reader leaves at most the bytes it was given (`Shrinks`), and one that reads a container leaves fewer
(`Advances`).  The loops over elements, members and fields carry a state; whatever measure `μ` of the state a
single round raises by at most the bytes it takes, the loop raises by at most the bytes that it takes
(`Spends`).

The main statement is `StreamRecord.length_rows_lt`: a record has fewer rows than its line has bytes.
-/

namespace Rowset.Json

/-! ## What a reader leaves -/

section Measures

variable {α σ : Type}

/-- What is left is no longer than what was given. -/
def Shrinks (read : Reader α) : Prop :=
  ∀ ⦃bs a rest⦄, read bs = .ok (a, rest) → rest.length ≤ bs.length

/-- At least one byte is taken. -/
def Advances (read : Reader α) : Prop :=
  ∀ ⦃bs a rest⦄, read bs = .ok (a, rest) → rest.length < bs.length

/-- The measure `μ` of the state grows by no more than the number of bytes that are taken. -/
def Spends (μ : σ → Nat) (read : σ → Reader σ) : Prop :=
  ∀ ⦃s bs s' rest⦄, read s bs = .ok (s', rest) → μ s' + rest.length ≤ μ s + bs.length

/-- A reader that takes at least one byte takes no byte back. -/
theorem Advances.shrinks {read : Reader α} (h : Advances read) : Shrinks read :=
  fun _ _ _ hr => Nat.le_of_lt (h hr)

/-- What becomes of the value that was read does not change what is left. -/
theorem length_le_of_changed {α β : Type} {read : Reader α} (h : Shrinks read) {f : α → β} {bs rest : List UInt8}
    {b : β} (hr : (do let (a, rest) ← read bs; return (f a, rest)) = Except.ok (b, rest)) :
    rest.length ≤ bs.length := by
  simp only [bind_pure_comp, map_eq_ok, Prod.mk.injEq, Prod.exists] at hr
  obtain ⟨a, _, ha, -, rfl⟩ := hr
  exact h ha

end Measures

/-! ## Words, strings and numbers -/

theorem length_skipSpace_le (bs : List UInt8) : (skipSpace bs).length ≤ bs.length :=
  (List.dropWhile_suffix _).length_le

/-- What follows the first byte behind the blanks is shorter than the text. -/
theorem length_lt_of_skipSpace {bs rest : List UInt8} {b : UInt8} (h : skipSpace bs = b :: rest) :
    rest.length < bs.length := by
  have := length_skipSpace_le bs
  rw [h, List.length_cons] at this
  omega

theorem length_le_of_word {ws bs rest : List UInt8} (h : word ws bs = .ok rest) :
    rest.length ≤ bs.length := by
  induction ws generalizing bs with
  | nil =>
    simp only [word, Except.ok.injEq] at h
    exact h ▸ Nat.le_refl _
  | cons w ws ih =>
    cases bs with
    | nil => simp [word] at h
    | cons b bs =>
      simp only [word] at h
      split at h
      · exact Nat.le_succ_of_le (ih h)
      · simp at h

theorem length_le_of_quotedFrom {seen bs bytes rest : List UInt8}
    (h : quotedFrom seen bs = .ok (bytes, rest)) : rest.length ≤ bs.length := by
  fun_induction quotedFrom seen bs <;> simp_all <;> omega

theorem shrinks_quoted : Shrinks quoted := by
  intro bs s rest h
  simp only [quoted, bind_eq_ok] at h
  obtain ⟨⟨bytes, after⟩, hq, h⟩ := h
  have := length_le_of_quotedFrom hq
  split at h
  · simp only [pure_eq_ok, Prod.mk.injEq] at h
    exact h.2 ▸ this
  · simp at h

theorem length_le_of_skipQuoted {bs rest : List UInt8} (h : skipQuoted bs = .ok rest) :
    rest.length ≤ bs.length := by
  fun_induction skipQuoted bs <;> simp_all <;> omega

theorem shrinks_digitRun : Shrinks digitRun := by
  intro bs r rest h
  simp only [digitRun] at h
  split at h
  · simp only [Except.ok.injEq, Prod.mk.injEq] at h
    exact h.2 ▸ (List.dropWhile_suffix _).length_le
  · simp at h

theorem shrinks_wholeRun : Shrinks wholeRun := by
  intro bs r rest h
  simp only [wholeRun, bind_eq_ok] at h
  obtain ⟨⟨r', after⟩, hr, h⟩ := h
  have := shrinks_digitRun hr
  split at h
  · simp at h
  · simp only [pure_eq_ok, Prod.mk.injEq] at h
    exact h.2 ▸ this

theorem shrinks_fractionRun : Shrinks fractionRun := by
  intro bs r rest h
  unfold fractionRun at h
  split at h
  · exact Nat.le_succ_of_le (length_le_of_changed shrinks_digitRun h)
  · simp_all

theorem shrinks_exponentPart : Shrinks exponentPart := by
  intro bs r rest h
  unfold exponentPart at h
  split at h
  · split at h
    · simp only [bind_pure_comp, map_eq_ok, Prod.mk.injEq, Prod.exists] at h
      obtain ⟨r', after, hr, -, rfl⟩ := h
      have := shrinks_digitRun hr
      split at this <;> simp_all <;> omega
    · simp_all
  · simp_all

theorem shrinks_numeral : Shrinks numeral := by
  intro bs n rest h
  simp only [numeral, bind_pure_comp, bind_eq_ok, map_eq_ok, Prod.mk.injEq, Prod.exists] at h
  obtain ⟨w, after, hw, f, after', hf, e, after'', he, -, rfl⟩ := h
  have h₁ := shrinks_wholeRun hw
  have h₂ := shrinks_fractionRun hf
  have h₃ := shrinks_exponentPart he
  split at h₁ <;> simp_all <;> omega

/-! ## Containers -/

theorem length_le_of_nextElement {first : Bool} {bs rest : List UInt8}
    (h : nextElement first bs = .ok (some rest)) : rest.length ≤ bs.length := by
  have hs := length_skipSpace_le bs
  unfold nextElement at h
  split at h
  · simp at h
  · simp at h
  · next b after _ hb =>
    rw [hb] at hs
    split at h
    · simp only [Except.ok.injEq, Option.some.injEq] at h
      exact h ▸ hs
    · split at h
      · have := length_skipSpace_le after
        split at h
        · simp at h
        · simp at h
        · simp only [Except.ok.injEq, Option.some.injEq] at h
          subst h
          simp only [List.length_cons] at hs
          omega
      · simp at h

theorem length_lt_of_endList {bs rest : List UInt8} (h : endList bs = .ok rest) :
    rest.length < bs.length := by
  unfold endList at h
  split at h
  · simp at h
  · next hb =>
    simp only [Except.ok.injEq] at h
    exact h ▸ length_lt_of_skipSpace hb
  · simp at h

theorem length_lt_of_endObject {bs rest : List UInt8} (h : endObject bs = .ok rest) :
    rest.length < bs.length := by
  unfold endObject at h
  split at h
  · simp at h
  · next hb =>
    simp only [Except.ok.injEq] at h
    exact h ▸ length_lt_of_skipSpace hb
  · simp at h

theorem length_lt_of_endKey {bs rest : List UInt8} (h : endKey bs = .ok rest) :
    rest.length < bs.length := by
  unfold endKey at h
  split at h
  · simp at h
  · next hb =>
    simp only [Except.ok.injEq] at h
    exact h ▸ length_lt_of_skipSpace hb
  · simp at h

theorem length_lt_of_nextKey {first : Bool} {bs rest : List UInt8} {key : String}
    (h : nextKey first bs = .ok (some (key, rest))) : rest.length < bs.length := by
  unfold nextKey at h
  split at h
  · simp at h
  · simp at h
  · next b after _ hb =>
    have := length_lt_of_skipSpace hb
    split at h
    · split at h
      · simp only [map_eq_ok, Option.some.injEq] at h
        obtain ⟨_, hq, rfl⟩ := h
        exact Nat.lt_of_le_of_lt (shrinks_quoted hq) this
      · simp at h
    · split at h
      · split at h
        · simp at h
        · next hq' =>
          simp only [map_eq_ok, Option.some.injEq] at h
          obtain ⟨_, hq, rfl⟩ := h
          have := length_lt_of_skipSpace hq'
          have := shrinks_quoted hq
          omega
        · simp at h
      · simp at h

section Loops

variable {α σ : Type} {μ : σ → Nat}

/-- Each element is read from what the one before it left, so what the elements hold is paid for in bytes. -/
theorem spends_elements {read : σ → Reader σ} (h : Spends μ read) (fuel : Nat) (first : Bool) :
    Spends μ (elements read fuel first) := by
  induction fuel generalizing first with
  | zero => intro s bs s' rest hr; simp [elements] at hr
  | succ fuel ih =>
    intro s bs s' rest hr
    unfold elements at hr
    split at hr
    · simp at hr
    · split at hr
      · simp at hr
      · next he =>
        simp only [Except.ok.injEq, Prod.mk.injEq] at hr
        obtain ⟨rfl, rfl⟩ := hr
        have := length_lt_of_endList he
        omega
    · next hn =>
      split at hr
      · simp at hr
      · next hs =>
        have h₁ := length_le_of_nextElement hn
        have h₂ := h hs
        have h₃ := ih false hr
        omega

theorem spends_members {read : String → σ → Reader σ} (h : ∀ key, Spends μ (read key)) (fuel : Nat)
    (first : Bool) : Spends μ (members read fuel first) := by
  induction fuel generalizing first with
  | zero => intro s bs s' rest hr; simp [members] at hr
  | succ fuel ih =>
    intro s bs s' rest hr
    unfold members at hr
    split at hr
    · simp at hr
    · split at hr
      · simp at hr
      · next he =>
        simp only [Except.ok.injEq, Prod.mk.injEq] at hr
        obtain ⟨rfl, rfl⟩ := hr
        have := length_lt_of_endObject he
        omega
    · next hn =>
      split at hr
      · simp at hr
      · next hs =>
        have h₁ := length_lt_of_nextKey hn
        have h₂ := h _ hs
        have h₃ := ih false hr
        omega

/-- A list takes at least one byte for each of its elements. -/
theorem length_of_listOf {read : Reader α} (h : Advances read) {bs rest : List UInt8} {as : List α}
    (hr : listOf read bs = .ok (as, rest)) : as.length + rest.length ≤ bs.length := by
  simp only [listOf, bind_pure_comp, map_eq_ok, Prod.mk.injEq, Prod.exists] at hr
  obtain ⟨seen, after, he, rfl, rfl⟩ := hr
  rw [List.length_reverse]
  have := spends_elements (μ := List.length) ?_ _ _ he
  · simpa using this
  · intro s bs s' rest hs
    simp only [map_eq_ok, Prod.mk.injEq, Prod.exists] at hs
    obtain ⟨a, after, ha, rfl, rfl⟩ := hs
    have := h ha
    simp only [List.length_cons]
    omega

theorem shrinks_listOf {read : Reader α} (h : Shrinks read) : Shrinks (listOf read) := by
  intro bs as rest hr
  simp only [listOf, bind_pure_comp, map_eq_ok, Prod.mk.injEq, Prod.exists] at hr
  obtain ⟨seen, after, he, -, rfl⟩ := hr
  have := spends_elements (μ := fun _ => 0) ?_ _ _ he
  · simpa using this
  · intro s bs s' rest hs
    simp only [map_eq_ok, Prod.mk.injEq, Prod.exists] at hs
    obtain ⟨a, after, ha, -, rfl⟩ := hs
    simpa using h ha

end Loops

/-! ## Values -/

theorem shrinks_stringField : Shrinks stringField := by
  intro bs s rest h
  unfold stringField at h
  split at h
  · next hb => exact Nat.le_of_lt (Nat.lt_of_le_of_lt (shrinks_quoted h) (length_lt_of_skipSpace hb))
  · simp at h

/-- Putting a value beside what is left does not change what is left. -/
theorem length_le_of_tagged {α : Type} {a a' : α} {x : Except Fault (List UInt8)} {n : Nat}
    {rest : List UInt8} (hx : ∀ r, x = .ok r → r.length ≤ n)
    (h : (do return (a, ← x)) = Except.ok (a', rest)) : rest.length ≤ n := by
  simp only [bind_pure_comp, map_eq_ok, Prod.mk.injEq] at h
  obtain ⟨r, hr, -, rfl⟩ := h
  exact hx r hr

theorem shrinks_valueWith {list object : Reader Json} (hl : Shrinks list) (ho : Shrinks object) :
    Shrinks (valueWith list object) := by
  intro bs v rest h
  unfold valueWith at h
  split at h
  · simp at h
  · next b after hb =>
    have hlt := length_lt_of_skipSpace hb
    split_ifs at h
    · have := length_le_of_tagged (fun _ => length_le_of_word) h
      omega
    · have := length_le_of_tagged (fun _ => length_le_of_word) h
      omega
    · have := length_le_of_tagged (fun _ => length_le_of_word) h
      omega
    · have := length_le_of_changed shrinks_numeral h
      simp only [List.length_cons] at this
      omega
    · have := length_le_of_changed shrinks_quoted h
      omega
    · have := hl h
      omega
    · have := ho h
      omega

theorem shrinks_arrayOf {read : Reader Json} (h : Shrinks read) : Shrinks (arrayOf read) := by
  intro bs v rest hr
  exact length_le_of_changed (shrinks_listOf h) hr

/-- A number written as an object is read from the bytes of that object alone. -/
theorem shrinks_markedNumber : Shrinks markedNumber := by
  intro bs v rest h
  simp only [markedNumber, bind_eq_ok, Prod.exists] at h
  obtain ⟨_, hk, s, _, hs, h⟩ := h
  split at h
  · have h₁ := length_lt_of_endKey hk
    have h₂ := shrinks_stringField hs
    have h₃ := length_le_of_tagged (fun _ he => Nat.le_of_lt (length_lt_of_endObject he)) h
    omega
  · simp at h

theorem shrinks_readMember {read : Reader Json} (h : Shrinks read) (key : String) (ms : List (String × Json)) :
    Shrinks (readMember read key ms) := by
  intro bs ms' rest hr
  simp only [readMember, bind_pure_comp, bind_eq_ok, map_eq_ok, Prod.mk.injEq, Prod.exists] at hr
  obtain ⟨_, hk, v, _, hv, -, rfl⟩ := hr
  have h₁ := length_lt_of_endKey hk
  have h₂ := h hv
  omega

/-- Members are read into a list, whose size is no matter here. -/
theorem spends_readMember {read : Reader Json} (h : Shrinks read) (key : String) :
    Spends (fun _ => 0) (readMember read key) :=
  fun ms _ _ _ hr => Nat.add_le_add_left (shrinks_readMember h key ms hr) 0

theorem shrinks_objectOf {read : Reader Json} (h : Shrinks read) : Shrinks (objectOf read) := by
  intro bs v rest hr
  simp only [objectOf, bind_eq_ok] at hr
  obtain ⟨place, hn, hr⟩ := hr
  cases place with
  | none => exact length_le_of_tagged (fun _ he => Nat.le_of_lt (length_lt_of_endObject he)) hr
  | some found =>
    obtain ⟨key, after⟩ := found
    have hkey := length_lt_of_nextKey hn
    dsimp only at hr
    split at hr
    · have := shrinks_markedNumber hr
      omega
    · simp only [bind_pure_comp, bind_eq_ok, map_eq_ok, Prod.mk.injEq, Prod.exists] at hr
      obtain ⟨_, _, hm, _, _, hms, -, rfl⟩ := hr
      have hfirst := shrinks_readMember h _ _ hm
      have hmore := spends_members (spends_readMember h) _ _ hms
      omega

/-- By induction on the levels: what a value holds inside it is read from its own bytes. -/
theorem shrinks_value (levels : Nat) : Shrinks (value levels) := by
  induction levels with
  | zero => exact shrinks_valueWith (fun _ _ _ h => by simp at h) (fun _ _ _ h => by simp at h)
  | succ levels ih => exact shrinks_valueWith (shrinks_arrayOf ih) (shrinks_objectOf ih)

/-! ## Values that are passed over -/

theorem length_le_of_skipNumber {bs rest : List UInt8} (h : skipNumber bs = .ok rest) :
    rest.length ≤ bs.length := by
  unfold skipNumber at h
  split at h
  · next hn =>
    simp only [Except.ok.injEq] at h
    exact h ▸ shrinks_numeral hn
  · simp at h

theorem length_le_of_skipToken {bs rest : List UInt8} {bracket : Option Bracket}
    (h : skipToken bs = .ok (bracket, rest)) : rest.length ≤ bs.length := by
  unfold skipToken at h
  split at h
  · simp at h
  · next b after hb =>
    have hlt := length_lt_of_skipSpace hb
    split_ifs at h
    · have := length_le_of_tagged (fun _ => length_le_of_word) h
      omega
    · have := length_le_of_tagged (fun _ => length_le_of_word) h
      omega
    · have := length_le_of_tagged (fun _ => length_le_of_word) h
      omega
    · have := length_le_of_tagged (fun _ => length_le_of_skipNumber) h
      simp only [List.length_cons] at this
      omega
    · have := length_le_of_tagged (fun _ => length_le_of_skipQuoted) h
      omega
    · simp only [Except.ok.injEq, Prod.mk.injEq] at h
      exact h.2 ▸ Nat.le_of_lt hlt
    · simp only [Except.ok.injEq, Prod.mk.injEq] at h
      exact h.2 ▸ Nat.le_of_lt hlt

/-- Closing brackets take a byte each, and so does the comma behind them. -/
theorem length_le_of_skipClosing {outer outer' : List Bracket} {afterValue : Bool}
    {bs rest : List UInt8} (h : skipClosing outer afterValue bs = .ok (outer', rest)) :
    rest.length ≤ bs.length := by
  fun_induction skipClosing outer afterValue bs with
  | case1 => simp_all
  | case2 => simp at h
  | case3 top outer afterValue bs b after hb hm ih =>
    have := length_lt_of_skipSpace hb
    have := ih h
    omega
  | case4 top outer bs after hb hm =>
    simp only [Except.ok.injEq, Prod.mk.injEq] at h
    exact h.2 ▸ Nat.le_of_lt (length_lt_of_skipSpace hb)
  | case5 => simp at h
  | case6 top outer afterValue bs b after hb hm =>
    simp only [Except.ok.injEq, Prod.mk.injEq] at h
    exact h.2 ▸ hb ▸ length_skipSpace_le bs

theorem length_le_of_skipKey {bs rest : List UInt8} (h : skipKey bs = .ok rest) :
    rest.length ≤ bs.length := by
  unfold skipKey at h
  split at h
  · simp at h
  · next hb =>
    simp only [bind_eq_ok] at h
    obtain ⟨after, hq, hk⟩ := h
    have := length_lt_of_skipSpace hb
    have := length_le_of_skipQuoted hq
    have := length_lt_of_endKey hk
    omega
  · simp at h

/-- By induction on the rounds: each skips one token, and a skipped token is never given back. -/
theorem length_le_of_skipInside {fuel : Nat} {outer : List Bracket} {bs rest : List UInt8}
    (h : skipInside fuel outer bs = .ok rest) : rest.length ≤ bs.length := by
  induction fuel generalizing outer bs with
  | zero => simp [skipInside] at h
  | succ fuel ih =>
    simp only [skipInside, bind_eq_ok, Prod.exists] at h
    obtain ⟨bracket, after, ht, h⟩ := h
    have h₁ := length_le_of_skipToken ht
    split at h
    all_goals
      simp only [bind_eq_ok, Prod.exists] at h
      obtain ⟨outer', after', hc, h⟩ := h
      have h₂ := length_le_of_skipClosing hc
      split at h
      · simp only [pure_eq_ok] at h
        subst h
        omega
      · have h₃ := ih h
        omega
      · simp only [bind_eq_ok] at h
        obtain ⟨behind, hk, h⟩ := h
        have h₃ := length_le_of_skipKey hk
        have h₄ := ih h
        omega

theorem length_le_of_skipValue {bs rest : List UInt8} (h : skipValue bs = .ok rest) :
    rest.length ≤ bs.length :=
  length_le_of_skipInside h

/-! ## Fields and documents -/

theorem shrinks_numeralField : Shrinks numeralField := by
  intro bs n rest h
  unfold numeralField at h
  split at h
  · next hb =>
    split at h
    · have := length_lt_of_skipSpace hb
      have := shrinks_numeral h
      simp only [List.length_cons] at this
      omega
    · simp at h
  · simp at h

theorem shrinks_countField : Shrinks countField := by
  intro bs n rest h
  simp only [countField, bind_eq_ok, Prod.exists] at h
  obtain ⟨n', after, hn, h⟩ := h
  have := shrinks_numeralField hn
  split at h
  · split at h
    · simp only [pure_eq_ok, Prod.mk.injEq] at h
      exact h.2 ▸ this
    · split at h <;> simp at h
  · split at h <;> simp at h

theorem shrinks_realField : Shrinks realField := by
  intro bs x rest h
  simp only [realField, bind_eq_ok, Prod.exists] at h
  obtain ⟨n, after, hn, h⟩ := h
  have := shrinks_numeralField hn
  split at h
  · simp only [pure_eq_ok, Prod.mk.injEq] at h
    exact h.2 ▸ this
  · simp at h

section Documents

variable {α σ : Type} {μ : σ → Nat}

theorem shrinks_optionalField {read : Reader α} (h : Shrinks read) : Shrinks (optionalField read) := by
  intro bs a rest hr
  unfold optionalField at hr
  split at hr
  · next b after hb =>
    have hlt := length_lt_of_skipSpace hb
    split_ifs at hr
    · have := length_le_of_tagged (fun _ => length_le_of_word) hr
      omega
    · have := length_le_of_changed h hr
      simp only [List.length_cons] at this
      omega
  · simp at hr

theorem advances_listField {read : Nat → Reader α} (h : ∀ levels, Shrinks (read levels)) (levels : Nat) :
    Advances (listField read levels) := by
  intro bs as rest hr
  unfold listField at hr
  cases levels with
  | zero =>
    dsimp only at hr
    split at hr <;> contradiction
  | succ levels =>
    dsimp only at hr
    split at hr
    · next hb => exact Nat.lt_of_le_of_lt (shrinks_listOf (h levels) hr) (length_lt_of_skipSpace hb)
    · simp at hr

/-- A list of lists, or of documents, has no more elements than bytes. -/
theorem length_of_listField {read : Nat → Reader α} (h : ∀ levels, Advances (read levels)) {levels : Nat}
    {bs rest : List UInt8} {as : List α} (hr : listField read levels bs = .ok (as, rest)) :
    as.length + rest.length ≤ bs.length := by
  unfold listField at hr
  cases levels with
  | zero =>
    dsimp only at hr
    split at hr <;> contradiction
  | succ levels =>
    dsimp only at hr
    split at hr
    · next hb =>
      have := length_lt_of_skipSpace hb
      have := length_of_listOf (h levels) hr
      omega
    · simp at hr

/-- A field that leaves the measure as it is. -/
theorem spends_slot {name : String} {read : Nat → Reader α} {put : α → σ → σ} {required : Bool}
    (h : ∀ levels, Shrinks (read levels)) (hp : ∀ a s, μ (put a s) = μ s) (levels : Nat) :
    Spends μ ((Slot.of name read put required).read levels) := by
  intro s bs s' rest hr
  simp only [Slot.of, bind_pure_comp, map_eq_ok, Prod.mk.injEq, Prod.exists] at hr
  obtain ⟨a, _, ha, rfl, rfl⟩ := hr
  have := h levels ha
  rw [hp]
  omega

theorem spends_fromList {slots : List (Slot σ)} (h : ∀ f ∈ slots, ∀ levels, Spends μ (f.read levels))
    (levels : Nat) (first : Bool) : Spends μ (fromList levels slots first) := by
  induction slots generalizing first with
  | nil =>
    intro s bs s' rest hr
    simp only [fromList, bind_pure_comp, map_eq_ok, Prod.mk.injEq] at hr
    obtain ⟨_, he, rfl, rfl⟩ := hr
    have := length_lt_of_endList he
    omega
  | cons f fs ih =>
    have ih := ih fun g hg => h g (List.mem_cons_of_mem _ hg)
    intro s bs s' rest hr
    simp only [fromList, bind_eq_ok] at hr
    obtain ⟨place, hn, hr⟩ := hr
    split at hr
    · split at hr
      · simp at hr
      · exact ih first hr
    · simp only [bind_eq_ok, Prod.exists] at hr
      obtain ⟨s'', after, hf, hr⟩ := hr
      have h₁ := length_le_of_nextElement hn
      have h₂ := h f List.mem_cons_self levels hf
      have h₃ := ih false hr
      omega

/-- One member of a record spends what the field of its name spends; an unknown one is skipped. -/
theorem spends_memberOf {slots : List (Slot σ)} (h : ∀ f ∈ slots, ∀ levels, Spends μ (f.read levels))
    (levels : Nat) (key : String) : Spends (μ ∘ Prod.snd) (memberOf levels slots key) := by
  rintro ⟨seen, s⟩ bs ⟨seen', s'⟩ rest hr
  unfold memberOf at hr
  split at hr
  · simp only [bind_pure_comp, bind_eq_ok, map_eq_ok, Prod.mk.injEq] at hr
    obtain ⟨_, hk, _, hv, ⟨-, rfl⟩, rfl⟩ := hr
    have h₁ := length_lt_of_endKey hk
    have h₂ := length_le_of_skipValue hv
    simp only [Function.comp_apply]
    omega
  · next f hf =>
    split at hr
    · simp at hr
    simp only [bind_pure_comp, bind_eq_ok, map_eq_ok, Prod.mk.injEq, Prod.exists] at hr
    obtain ⟨_, hk, _, _, hs, ⟨-, rfl⟩, rfl⟩ := hr
    have h₁ := length_lt_of_endKey hk
    have h₂ := h f (List.mem_of_find?_eq_some hf) levels hs
    simp only [Function.comp_apply]
    omega

/-- What every field keeps to, the document keeps to; its bracket takes one more byte. -/
theorem length_of_document {slots : List (Slot σ)} {start s : σ}
    (h : ∀ f ∈ slots, ∀ levels, Spends μ (f.read levels)) {levels : Nat} {bs rest : List UInt8}
    (hr : document slots start levels bs = .ok (s, rest)) :
    μ s + rest.length < μ start + bs.length := by
  unfold document at hr
  cases levels with
  | zero =>
    dsimp only at hr
    split at hr <;> contradiction
  | succ levels =>
    dsimp only at hr
    split at hr
    · next hb =>
      have h₁ := length_lt_of_skipSpace hb
      have h₂ := spends_fromList h levels true hr
      omega
    · next hb =>
      have h₁ := length_lt_of_skipSpace hb
      simp only [fromObject, bind_eq_ok, Prod.exists] at hr
      obtain ⟨seen, s', after, hm, hr⟩ := hr
      have h₂ := spends_members (fun key => spends_memberOf h levels key) _ _ hm
      split at hr
      · simp at hr
      · simp only [pure_eq_ok, Prod.mk.injEq] at hr
        obtain ⟨rfl, rfl⟩ := hr
        simp only [Function.comp_apply] at h₂
        omega
    · simp at hr

/-- A document whose fields all shrink is a field like any other. -/
theorem shrinks_document {slots : List (Slot σ)} {start : σ}
    (h : ∀ f ∈ slots, ∀ levels, Spends (fun _ => 0) (f.read levels)) (levels : Nat) :
    Shrinks (document slots start levels) := by
  intro bs s rest hr
  have := length_of_document h hr
  omega

end Documents

end Rowset.Json

/-! ## Records -/

namespace Rowset

open Json

theorem ColumnHeader.shrinks_read (levels : Nat) : Shrinks (read levels) := by
  refine shrinks_document (fun f hf levels => ?_) levels
  simp only [slots, List.mem_cons, List.not_mem_nil, or_false] at hf
  rcases hf with rfl | rfl
  all_goals exact spends_slot (fun _ => shrinks_stringField) (fun _ _ => by rfl) _

theorem Statistics.shrinks_read (levels : Nat) : Shrinks (read levels) := by
  refine shrinks_document (fun f hf levels => ?_) levels
  simp only [slots, List.mem_cons, List.not_mem_nil, or_false] at hf
  rcases hf with rfl | rfl | rfl | rfl | rfl
  · exact spends_slot (fun _ => shrinks_optionalField shrinks_realField) (fun _ _ => by rfl) _
  · exact spends_slot (fun _ => shrinks_optionalField shrinks_countField) (fun _ _ => by rfl) _
  · exact spends_slot (fun _ => shrinks_optionalField shrinks_countField) (fun _ _ => by rfl) _
  · exact spends_slot (fun _ => shrinks_optionalField shrinks_realField) (fun _ _ => by rfl) _
  · exact spends_slot (fun _ => shrinks_optionalField shrinks_realField) (fun _ _ => by rfl) _

theorem ErrorLocation.shrinks_read (levels : Nat) : Shrinks (read levels) := by
  refine shrinks_document (fun f hf levels => ?_) levels
  simp only [slots, List.mem_cons, List.not_mem_nil, or_false] at hf
  rcases hf with rfl | rfl | rfl
  all_goals exact spends_slot (fun _ => shrinks_optionalField shrinks_countField) (fun _ _ => by rfl) _

theorem ServerError.shrinks_read (levels : Nat) : Shrinks (read levels) := by
  refine shrinks_document (fun f hf levels => ?_) levels
  simp only [slots, List.mem_cons, List.not_mem_nil, or_false] at hf
  rcases hf with rfl | rfl | rfl | rfl | rfl | rfl | rfl | rfl
  case inr.inr.inr.inr.inr.inr.inl =>
    exact spends_slot (fun levels => shrinks_optionalField (ErrorLocation.shrinks_read levels))
      (fun _ _ => by rfl) _
  all_goals exact spends_slot (fun _ => shrinks_optionalField shrinks_stringField) (fun _ _ => by rfl) _

theorem RecordKind.shrinks_read (levels : Nat) : Shrinks (read levels) := by
  intro bs k rest h
  unfold read at h
  split at h
  · simp at h
  · next hb =>
    exact Nat.le_of_lt (Nat.lt_of_le_of_lt (length_le_of_changed shrinks_quoted h) (length_lt_of_skipSpace hb))
  · next hb =>
    split at h
    · simp at h
    · have h₁ := length_lt_of_skipSpace hb
      simp only [readKey, bind_eq_ok] at h
      obtain ⟨_, hk, h⟩ := h
      split at h
      · simp only [bind_eq_ok] at h
        obtain ⟨_, he, h⟩ := h
        have h₂ := length_lt_of_nextKey hk
        have h₃ := length_lt_of_endKey he
        split at h
        · simp at h
        · next hs =>
          have h₄ := length_lt_of_skipSpace hs
          split at h
          · simp only [bind_pure_comp, bind_eq_ok, map_eq_ok, Prod.mk.injEq] at h
            obtain ⟨_, hw, _, ho, -, rfl⟩ := h
            have h₅ := length_le_of_word hw
            have h₆ := length_lt_of_endObject ho
            omega
          · simp at h
      · simp at h
  · simp at h

namespace StreamRecord

/-- The rows are the only field that the number of rows depends on, and each of them takes a byte. -/
theorem spends_slots {f : Slot StreamRecord} (hf : f ∈ slots) (levels : Nat) :
    Spends (fun r : StreamRecord => r.rows.length) (f.read levels) := by
  simp only [slots, List.mem_cons, List.not_mem_nil, or_false] at hf
  rcases hf with rfl | rfl | rfl | rfl | rfl | rfl | rfl | rfl
  · exact spends_slot RecordKind.shrinks_read (fun _ _ => by rfl) _
  · exact spends_slot (fun levels => (advances_listField ColumnHeader.shrinks_read levels).shrinks)
      (fun _ _ => by rfl) _
  · intro r bs r' rest h
    simp only [Slot.of, bind_pure_comp, map_eq_ok, Prod.mk.injEq, Prod.exists] at h
    obtain ⟨rows, _, hr, rfl, rfl⟩ := h
    have := length_of_listField (advances_listField shrinks_value) hr
    dsimp only
    omega
  · exact spends_slot (fun levels => (advances_listField ServerError.shrinks_read levels).shrinks)
      (fun _ _ => by rfl) _
  · exact spends_slot (fun levels => shrinks_optionalField (Statistics.shrinks_read levels))
      (fun _ _ => by rfl) _
  all_goals exact spends_slot (fun _ => shrinks_optionalField shrinks_stringField) (fun _ _ => by rfl) _

/-- A record has fewer rows than its line has bytes. -/
theorem length_rows_lt {line : List UInt8} {r : StreamRecord} (h : parse line = .ok r) :
    r.rows.length < line.length := by
  simp only [parse, whole, bind_eq_ok, Prod.exists] at h
  obtain ⟨r', rest, hr, -, -, h⟩ := h
  simp only [pure_eq_ok] at h
  subst h
  have := length_of_document (fun f hf levels => spends_slots hf levels) hr
  simp only [List.length_nil] at this
  omega

end StreamRecord

end Rowset
