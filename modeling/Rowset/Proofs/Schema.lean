import Rowset.Proofs.Steps
import Rowset.Schema

/-!
# Columns mirror the last headers that could be read

An update of a schema takes over all of the headers or none of them.  So after any number of updates, some of them
refused, the columns are those of the last headers that were taken over, and an update that is refused says which
header is the first one that is malformed.  The main statement is `Schema.updates_faithful`.
-/

namespace Rowset

/-- A header whose type can be read. -/
def ColumnHeader.Readable (h : ColumnHeader) : Prop :=
  ∃ t, Descriptor.parse h.type = .ok t

namespace Schema

/-- The columns are those that the headers announce, in their order: the names and the texts of the types are as they
were sent, and the types are read from these texts. -/
structure Mirrors (s : Schema) (hs : List ColumnHeader) : Prop where
  size : s.size = hs.length
  column : ∀ (i : Nat) (h : ColumnHeader), hs[i]? = some h →
    ∃ c, s.get? i = some c ∧ c.name = h.name ∧ c.rawType = h.type ∧ Descriptor.parse h.type = .ok c.type

/-- The error is about the first header whose type is malformed. -/
def FirstMalformed (hs : List ColumnHeader) (e : Error) : Prop :=
  ∃ (i : Nat) (h : ColumnHeader) (fault : Descriptor.Fault), hs[i]? = some h ∧
    Descriptor.parse h.type = .error fault ∧ e = .descriptor h.type fault ∧
    ∀ j < i, ∀ g, hs[j]? = some g → g.Readable

/-- The columns after a sequence of updates. -/
def updated (start : Schema) (updates : List (List ColumnHeader)) : Schema :=
  updates.foldl (fun s hs => (s.setColumns hs).2) start

/-- What holds of the columns after some updates, and of one more update. -/
structure Faithful (start : Schema) (updates : List (List ColumnHeader)) : Prop where
  /-- The columns are those of the last headers all of which could be read. -/
  mirrors : ∀ before hs after, updates = before ++ hs :: after → (∀ h ∈ hs, h.Readable) →
    (∀ later ∈ after, ¬∀ h ∈ later, h.Readable) → (updated start updates).Mirrors hs
  untouched : (∀ hs ∈ updates, ¬∀ h ∈ hs, h.Readable) → updated start updates = start
  accepts : ∀ hs, ((updated start updates).setColumns hs).1 = .ok () ↔ ∀ h ∈ hs, h.Readable
  refuses : ∀ hs e, ((updated start updates).setColumns hs).1 = .error e ↔ FirstMalformed hs e
  keeps : ∀ hs e, ((updated start updates).setColumns hs).1 = .error e →
    ((updated start updates).setColumns hs).2 = updated start updates

end Schema

/-! ## One header -/

section

variable {c : Column} {h : ColumnHeader} {e : Error}

theorem Column.ofHeader_eq_ok_iff :
    ofHeader h = .ok c ↔ c.name = h.name ∧ c.rawType = h.type ∧ Descriptor.parse h.type = .ok c.type := by
  obtain ⟨name, type, rawType⟩ := c
  unfold ofHeader
  cases Descriptor.parse h.type with
  | error fault => simp
  | ok t =>
    simp only [Except.ok.injEq, Column.mk.injEq]
    exact ⟨fun ⟨hn, ht, hr⟩ => ⟨hn.symm, hr.symm, ht⟩, fun ⟨hn, hr, ht⟩ => ⟨hn.symm, ht, hr.symm⟩⟩

theorem Column.ofHeader_eq_error_iff :
    ofHeader h = .error e ↔ ∃ fault, Descriptor.parse h.type = .error fault ∧ e = .descriptor h.type fault := by
  unfold ofHeader
  cases Descriptor.parse h.type with
  | error fault => simp [eq_comm]
  | ok t => simp

theorem ColumnHeader.readable_iff : h.Readable ↔ ∃ c, Column.ofHeader h = .ok c := by
  constructor
  · rintro ⟨t, ht⟩
    exact ⟨⟨h.name, t, h.type⟩, Column.ofHeader_eq_ok_iff.mpr ⟨rfl, rfl, ht⟩⟩
  · rintro ⟨c, hc⟩
    exact ⟨c.type, (Column.ofHeader_eq_ok_iff.mp hc).2.2⟩

end

namespace Schema

variable {s : Schema} {hs : List ColumnHeader} {e : Error}

/-! ## All headers -/

theorem ofHeaders_eq_ok_iff : ofHeaders hs = .ok s ↔ s.Mirrors hs := by
  have hcolumns : ofHeaders hs = .ok s ↔ hs.mapM Column.ofHeader = .ok s.columns := by
    obtain ⟨columns⟩ := s
    simp [ofHeaders]
  rw [hcolumns, mapM_eq_ok, List.forall₂_iff_get]
  constructor
  · rintro ⟨hsize, hsteps⟩
    refine ⟨hsize.symm, fun i h hi => ?_⟩
    obtain ⟨hlt, rfl⟩ := List.getElem?_eq_some_iff.mp hi
    have hlt' : i < s.columns.length := hsize ▸ hlt
    exact ⟨s.columns[i], List.getElem?_eq_getElem hlt', Column.ofHeader_eq_ok_iff.mp (hsteps i hlt hlt')⟩
  · rintro ⟨hsize, hcolumn⟩
    refine ⟨hsize.symm, fun i hlt hlt' => ?_⟩
    obtain ⟨c, hc, hread⟩ := hcolumn i hs[i] (List.getElem?_eq_getElem hlt)
    obtain ⟨_, rfl⟩ := List.getElem?_eq_some_iff.mp hc
    exact Column.ofHeader_eq_ok_iff.mpr hread

/-- A refused update names the leftmost header whose type does not parse. -/
theorem ofHeaders_eq_error_iff : ofHeaders hs = .error e ↔ FirstMalformed hs e := by
  have hcolumns : ofHeaders hs = .error e ↔ hs.mapM Column.ofHeader = .error e := by
    unfold ofHeaders
    cases hs.mapM Column.ofHeader <;> simp [bind, Except.bind, pure, Except.pure]
  rw [hcolumns, mapM_eq_error]
  constructor
  · rintro ⟨i, h, hi, he, hfirst⟩
    obtain ⟨fault, hfault, rfl⟩ := Column.ofHeader_eq_error_iff.mp he
    exact ⟨i, h, fault, hi, hfault, rfl, fun j hj g hg => ColumnHeader.readable_iff.mpr (hfirst j hj g hg)⟩
  · rintro ⟨i, h, fault, hi, hfault, rfl, hfirst⟩
    exact ⟨i, h, hi, Column.ofHeader_eq_error_iff.mpr ⟨fault, hfault, rfl⟩, fun j hj g hg =>
      ColumnHeader.readable_iff.mp (hfirst j hj g hg)⟩

theorem exists_ofHeaders_iff : (∃ s, ofHeaders hs = .ok s) ↔ ∀ h ∈ hs, h.Readable := by
  simp only [ColumnHeader.readable_iff, ← exists_mapM_iff]
  simp [ofHeaders]

/-- An update does all or nothing. -/
theorem setColumns_cases (s : Schema) (hs : List ColumnHeader) :
    ((∀ h ∈ hs, h.Readable) ∧ ∃ s', s.setColumns hs = (.ok (), s') ∧ s'.Mirrors hs) ∨
      (¬∀ h ∈ hs, h.Readable) ∧ ∃ e, s.setColumns hs = (.error e, s) ∧ FirstMalformed hs e := by
  unfold setColumns
  rw [← exists_ofHeaders_iff]
  cases hread : ofHeaders hs with
  | ok s' => exact .inl ⟨⟨s', rfl⟩, s', rfl, ofHeaders_eq_ok_iff.mp hread⟩
  | error e => exact .inr ⟨nofun, e, rfl, ofHeaders_eq_error_iff.mp hread⟩

/-! ## All updates -/

theorem updated_append (start : Schema) (before after : List (List ColumnHeader)) :
    updated start (before ++ after) = updated (updated start before) after := by
  simp only [updated, List.foldl_append]

/-- Updates that fail leave the columns of the last good one. -/
theorem updated_refused (s : Schema) {after : List (List ColumnHeader)}
    (h : ∀ hs ∈ after, ¬∀ h ∈ hs, h.Readable) : updated s after = s := by
  induction after with
  | nil => rfl
  | cons hs after ih =>
    obtain ⟨hhs, hafter⟩ := List.forall_mem_cons.mp h
    rcases setColumns_cases s hs with ⟨hread, -⟩ | ⟨-, e, he, -⟩
    · exact absurd hread hhs
    · show updated (s.setColumns hs).2 after = s
      rw [he, ih hafter]

/-- Whatever updates are made, the columns mirror the last headers that could be read, and there are none before. -/
theorem updates_faithful :
    ({} : Schema).isEmpty = true ∧ ∀ start updates, Faithful start updates := by
  refine ⟨rfl, fun start updates => ⟨?_, updated_refused start, fun hs => ?_, fun hs e => ?_, fun hs e he => ?_⟩⟩
  · rintro before hs after rfl hread hrefused
    have hlast : updated (updated start before) (hs :: after) = ((updated start before).setColumns hs).2 :=
      updated_refused _ hrefused
    rw [updated_append, hlast]
    rcases setColumns_cases (updated start before) hs with ⟨-, s', hs', hmirrors⟩ | ⟨hbad, -⟩
    · rwa [hs']
    · exact absurd hread hbad
  · rcases setColumns_cases (updated start updates) hs with ⟨hread, s', hs', -⟩ | ⟨hbad, e, he, -⟩
    · rw [hs']
      exact iff_of_true rfl hread
    · rw [he]
      exact iff_of_false nofun hbad
  · unfold setColumns
    rw [← ofHeaders_eq_error_iff]
    cases ofHeaders hs <;> simp
  · rcases setColumns_cases (updated start updates) hs with ⟨-, s', hs', -⟩ | ⟨-, e', he', -⟩
    · rw [hs'] at he
      cases he
    · rw [he']

/-- An update that is taken over, and one whose second and third headers are malformed. -/
def sampleUpdates : List (List ColumnHeader) :=
  [[⟨"id", "long"⟩, ⟨"price", "Decimal(38, 9) null"⟩], [⟨"x", "int"⟩, ⟨"y", "varchar"⟩, ⟨"z", "array("⟩]]

theorem updates_faithful_sample :
    (updated {} sampleUpdates).Mirrors [⟨"id", "long"⟩, ⟨"price", "Decimal(38, 9) null"⟩] ∧
      ((updated {} sampleUpdates).setColumns [⟨"x", "int"⟩, ⟨"y", "varchar"⟩]).1 =
        .error (.descriptor "varchar" (.unknownType "varchar")) := by
  have hlong : Descriptor.parse "long" = .ok (.scalar .long false) := by with_unfolding_all rfl
  have hdecimal : Descriptor.parse "Decimal(38, 9) null" = .ok (.decimal 38 9 true) := by with_unfolding_all rfl
  have hint : Descriptor.parse "int" = .ok (.scalar .int false) := by with_unfolding_all rfl
  have hbad : Descriptor.parse "varchar" = .error (.unknownType "varchar") := by with_unfolding_all rfl
  have hfaithful := updates_faithful.2 {} sampleUpdates
  constructor
  · refine hfaithful.mirrors [] _ _ rfl ?_ ?_
    · simp [ColumnHeader.Readable, hlong, hdecimal]
    · simp [ColumnHeader.Readable, hbad]
  · refine (hfaithful.refuses _ _).mpr ⟨1, ⟨"y", "varchar"⟩, .unknownType "varchar", rfl, hbad, rfl, ?_⟩
    intro j hj g hg
    obtain rfl : j = 0 := by omega
    cases hg
    exact ⟨_, hint⟩

end Schema

end Rowset
