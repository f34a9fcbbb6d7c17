import Rowset.Proofs.Cursor.Operations
import Rowset.Proofs.Steps

/-!
# Rows belong to the current result set

A result set says what its columns are and has raw rows.  A cursor has some of them still ahead of it, and a call
of `next` takes the first one: it answers with what the columns make of the raw row as a whole, or with an error.
The main statement is `Cursor.rows_belong`.

`Cursor.Gives` says what `next` does with the raw rows ahead; each cursor keeps an invariant from which it follows.
-/

namespace Rowset

/-! ## Raw rows and their columns -/

namespace Row

variable {s : Schema} {columns : List Column} {cells : List Json} {vs : List Value}

/-- The values are those of the cells, each decoded as its column says. -/
structure DecodesTo (s : Schema) (cells : List Json) (vs : List Value) : Prop where
  width : cells.length = s.size
  size : vs.length = s.size
  value : ∀ (i : Nat) (column : Column) (cell : Json), s.columns[i]? = some column → cells[i]? = some cell →
    ∃ v, vs[i]? = some v ∧ Value.decode column.type cell = .ok v

/-- A raw row of another width, or with a cell that is no value of its column. -/
def Unfit (s : Schema) (cells : List Json) : Prop :=
  cells.length ≠ s.size ∨ ∃ (i : Nat) (column : Column) (cell : Json) (e : DecodeFault),
    s.columns[i]? = some column ∧ cells[i]? = some cell ∧ Value.decode column.type cell = .error e

/-- A row of the right width is decoded cell by cell, each as its own column says. -/
theorem decodeCells_eq_ok_iff (h : cells.length = columns.length) :
    decodeCells columns cells = .ok vs ↔
      vs.length = columns.length ∧
        ∀ (i : Nat) (column : Column) (cell : Json), columns[i]? = some column → cells[i]? = some cell →
          ∃ v, vs[i]? = some v ∧ Value.decode column.type cell = .ok v := by
  induction columns generalizing cells vs with
  | nil =>
    obtain rfl := List.length_eq_zero_iff.mp h
    simp [decodeCells, eq_comm]
  | cons column columns ih =>
    obtain ⟨cell, cells, rfl⟩ := List.exists_cons_of_length_eq_add_one h
    have hlength : cells.length = columns.length := Nat.succ.inj h
    simp only [decodeCells, bind_eq_ok, pure_eq_ok, mapError_eq_ok]
    constructor
    · rintro ⟨v, hv, vs, hvs, rfl⟩
      obtain ⟨hsize, hvalues⟩ := (ih hlength).mp hvs
      refine ⟨congrArg (· + 1) hsize, fun i column' cell' hcolumn hcell => ?_⟩
      cases i with
      | zero =>
        cases hcolumn
        cases hcell
        exact ⟨v, rfl, hv⟩
      | succ i => exact hvalues i column' cell' hcolumn hcell
    · rintro ⟨hsize, hvalues⟩
      obtain ⟨v, vs, rfl⟩ := List.exists_cons_of_length_eq_add_one hsize
      obtain ⟨v', hv', hv⟩ := hvalues 0 column cell rfl rfl
      cases hv'
      exact ⟨v, hv, vs, (ih hlength).mpr ⟨Nat.succ.inj hsize, fun i => hvalues (i + 1)⟩, rfl⟩

/-- A raw row is read as a whole or not at all. -/
theorem decode_eq_ok_iff : decode s cells = .ok vs ↔ DecodesTo s cells vs := by
  unfold decode
  by_cases h : cells.length = s.size
  · rw [if_pos h, decodeCells_eq_ok_iff h]
    exact ⟨fun ⟨hsize, hvalues⟩ => ⟨h, hsize, hvalues⟩, fun hd => ⟨hd.size, hd.value⟩⟩
  · rw [if_neg h]
    exact ⟨nofun, fun hd => absurd hd.width h⟩

theorem Unfit.decode_error (h : Unfit s cells) : ∃ e, decode s cells = .error e := by
  cases hd : decode s cells with
  | error e => exact ⟨e, rfl⟩
  | ok vs =>
    obtain ⟨hwidth, -, hvalues⟩ := decode_eq_ok_iff.mp hd
    rcases h with hne | ⟨i, column, cell, e, hcolumn, hcell, he⟩
    · exact absurd hwidth hne
    · obtain ⟨v, -, hv⟩ := hvalues i column cell hcolumn hcell
      rw [he] at hv
      cases hv

end Row

/-! ## Result sets -/

/-- What a result set says: its columns, if they can be read, and its raw rows. -/
structure ResultSet where
  columns : Except Error Schema
  rows : List (List Json)

/-- The result set of a body. -/
def Body.resultSet (limit : Nat) (b : Body) : ResultSet :=
  ⟨(b.transcript limit).opening, (b.transcript limit).owed.rows⟩

/-- The result set of a document. -/
def ResultDocument.resultSet (d : ResultDocument) : ResultSet :=
  ⟨Schema.ofHeaders d.columns, d.rows⟩

/-- The result sets of a response; without documents there is an empty one. -/
def ResultDocument.resultSets (ds : List ResultDocument) : List ResultSet :=
  (if ds.isEmpty then [{}] else ds).map resultSet

/-- The raw rows `left` are the last ones of a result set and `s` are its columns; without rows the columns do not
matter. -/
structure ResultSet.EndsWith (set : ResultSet) (s : Schema) (left : List (List Json)) : Prop where
  suffix : left <:+ set.rows
  columns : left ≠ [] → set.columns = .ok s

theorem ResultSet.EndsWith.tail {set : ResultSet} {s : Schema} {left : List (List Json)}
    (h : set.EndsWith s left) : set.EndsWith s left.tail := by
  refine ⟨(List.tail_suffix left).trans h.suffix, fun hne => h.columns ?_⟩
  rintro rfl
  exact hne rfl

namespace Cursor

variable {σ : Type} [Cursor σ]

/-- What `next` does with the raw rows that are ahead: it takes the first one and answers with what the columns of
the current result set make of it. -/
structure Gives (sets : List ResultSet) (ahead : σ → List (List Json)) (c : σ) : Prop where
  spent : ahead c = [] → ∀ row, (next c).1 ≠ .ok (some row)
  first : ∀ cells rest, ahead c = cells :: rest → ∃ set s, sets[index c]? = some set ∧ set.columns = .ok s ∧
    ahead c <:+ set.rows ∧ (columns c).1 = .ok s ∧ (next c).1 = Remainder.rowAnswer s cells ∧
    ahead (next c).2 = rest ∧ (columns (next c).2).1 = .ok s

/-- A row that `next` gives is a raw row of the current result set, decoded as the columns say that the cursor has
before and behind it.  A raw row that cannot be decoded as a whole is passed over with an error. -/
structure RowsBelong (sets : List ResultSet) (ahead : σ → List (List Json)) (c : σ) : Prop where
  row : ∀ row, (next c).1 = .ok (some row) → ∃ set cells, sets[index c]? = some set ∧
    set.columns = .ok row.schema ∧ (columns c).1 = .ok row.schema ∧ (columns (next c).2).1 = .ok row.schema ∧
    ahead c = cells :: ahead (next c).2 ∧ ahead c <:+ set.rows ∧ row.size = row.schema.size ∧
    Row.DecodesTo row.schema cells row.values
  refused : ∀ s cells rest, (columns c).1 = .ok s → ahead c = cells :: rest → Row.Unfit s cells →
    (∃ e, (next c).1 = .error e) ∧ ahead (next c).2 = rest

/-- Rows belong where they come from if `next` takes the raw rows from the front. -/
theorem Gives.rowsBelong {sets : List ResultSet} {ahead : σ → List (List Json)} {c : σ} (h : Gives sets ahead c) :
    RowsBelong sets ahead c where
  row row hrow := by
    cases hahead : ahead c with
    | nil => exact absurd hrow (h.spent hahead row)
    | cons cells rest =>
      obtain ⟨set, s, hset, hcolumns, hsuffix, hbefore, hanswer, hrest, hafter⟩ := h.first cells rest hahead
      rw [hrow] at hanswer
      unfold Remainder.rowAnswer at hanswer
      cases hd : Row.decode s cells with
      | error e =>
        rw [hd] at hanswer
        cases hanswer
      | ok vs =>
        rw [hd] at hanswer
        cases hanswer
        have hdecodes := Row.decode_eq_ok_iff.mp hd
        rw [hahead] at hsuffix
        rw [hrest]
        exact ⟨set, cells, hset, hcolumns, hbefore, hafter, rfl, hsuffix, hdecodes.size, hdecodes⟩
  refused s cells rest hs hahead hunfit := by
    obtain ⟨set, s', -, -, -, hbefore, hanswer, hrest, -⟩ := h.first cells rest hahead
    obtain rfl : s = s' := Except.ok.inj (hs.symm.trans hbefore)
    obtain ⟨e, he⟩ := hunfit.decode_error
    refine ⟨⟨e, ?_⟩, hrest⟩
    rw [hanswer]
    unfold Remainder.rowAnswer
    rw [he]

end Cursor

/-! ## Streaming cursors -/

namespace StreamingCursor

variable {c : StreamingCursor} {rem : Remainder} {s : Segment} {set : ResultSet} {sets : List ResultSet}
  {bodies : List Body} {params : StreamParams}

/-- The raw rows of the current result set that were not asked for. -/
def ahead (c : StreamingCursor) : List (List Json) :=
  match c.phase with
  | .awaitingStart => c.unread.owed.rows
  | .reading => c.block ++ c.unread.leadingRows
  | .exhausted => []

/-- What is owed and what is ahead are the same raw rows. -/
theorem Owes.ahead (h : c.Owes rem) : c.ahead = rem.rows := by
  unfold StreamingCursor.ahead
  cases h with
  | reading _ hp => rw [hp]
  | exhausted _ hp => rw [hp]

/-- Ahead of a cursor that has read nothing are the rows that its body announces. -/
theorem Fresh.ahead (h : c.Fresh s) : c.ahead = c.unread.owed.rows := by
  unfold StreamingCursor.ahead
  rw [h.phase]

theorem Owes.columns (h : c.Owes rem) (hr : rem.rows ≠ []) : c.schema = some rem.schema := by
  cases h with
  | reading _ _ _ hcol => exact hcol
  | exhausted _ _ _ _ => exact absurd rfl hr

theorem Owes.columns_eq (h : c.Owes rem) {schema : Schema} (hs : c.schema = some schema) :
    c.columns = (.ok schema, c) := by
  unfold StreamingCursor.columns
  rw [h.ensureStarted]
  dsimp only
  rw [hs]

/-- A cursor that owes rows gives them. -/
theorem Owes.gives (h : c.Owes rem) (hset : set.EndsWith rem.schema rem.rows)
    (hsets : sets[c.index]? = some set) : Cursor.Gives sets StreamingCursor.ahead c := by
  have hstep := next_steps h
  have hanswer : c.next.1 = rem.answer := hstep.answer
  constructor
  · intro hahead row hrow
    rw [h.ahead] at hahead
    have hlast : rem.answer = Remainder.lastAnswer rem.fault := by
      unfold Remainder.answer
      rw [hahead]
    rw [show c.next.1 = .ok (some row) from hrow, hlast] at hanswer
    cases hf : rem.fault <;> rw [hf] at hanswer <;> cases hanswer
  · intro cells rest hahead
    rw [h.ahead] at hahead
    have hne : rem.rows ≠ [] := by
      rw [hahead]
      exact List.cons_ne_nil cells rest
    have hcol := h.columns hne
    have hfirst : rem.answer = Remainder.rowAnswer rem.schema cells := by
      unfold Remainder.answer
      rw [hahead]
    have hrest : rem.next.rows = rest := by
      unfold Remainder.next
      rw [hahead]
    have hafter := hstep.owes.columns_eq (hstep.schema.trans hcol)
    refine ⟨set, rem.schema, hsets, hset.columns hne, ?_, ?_, hanswer.trans hfirst, ?_, congrArg Prod.fst hafter⟩
    · rw [h.ahead]
      exact hset.suffix
    · exact congrArg Prod.fst (h.columns_eq hcol)
    · exact hstep.owes.ahead.trans hrest

/-- The rows of a transcript belong to the columns that it announces. -/
theorem endsWith_owed (t : Transcript) : ResultSet.EndsWith ⟨t.opening, t.owed.rows⟩ t.owed.schema t.owed.rows := by
  refine ⟨List.suffix_rfl, fun hne => ?_⟩
  unfold Transcript.owed at hne ⊢
  cases ho : t.opening with
  | ok s => rfl
  | error e =>
    rw [ho] at hne
    exact absurd rfl hne

/-- So does a cursor that has read nothing: it reads the columns first. -/
theorem Fresh.gives (h : c.Fresh s) (hsets : sets[c.index]? = some ⟨c.unread.opening, c.unread.owed.rows⟩) :
    Cursor.Gives sets StreamingCursor.ahead c := by
  have hstart := ensureStarted_starts h
  -- A call does what it would do behind the first record, unless that is no `START`.
  have hgives := hstart.owes.gives (endsWith_owed c.unread) (hstart.same.index.symm ▸ hsets)
  have hahead : c.ahead = c.ensureStarted.2.ahead := h.ahead.trans hstart.owes.ahead.symm
  have hnext := h.next_eq
  cases hopening : c.unread.opening with
  | error e =>
    -- Without columns no rows are ahead, and the answer is no row.
    rw [hopening] at hnext
    have hnone : c.ahead = [] := by
      rw [h.ahead]
      unfold Transcript.owed
      rw [hopening]
    constructor
    · intro _ row hrow
      rw [show (Cursor.next c).1 = .error e from congrArg Prod.fst hnext] at hrow
      cases hrow
    · intro cells rest hcells
      rw [hnone] at hcells
      cases hcells
  | ok schema =>
    rw [hopening] at hnext
    have hnext : Cursor.next c = Cursor.next c.ensureStarted.2 := hnext
    have hcolumns : (Cursor.columns c).1 = (Cursor.columns c.ensureStarted.2).1 := by
      have hcol := hstart.schema schema hopening
      have hanswer : c.ensureStarted.1 = .ok () := by
        rw [hstart.answer, hopening]
        rfl
      exact (columns_started hanswer hcol).trans (congrArg Prod.fst (hstart.owes.columns_eq hcol)).symm
    have hindex : Cursor.index c = Cursor.index c.ensureStarted.2 := hstart.same.index.symm
    constructor
    · rw [hahead, hnext]
      exact hgives.spent
    · rw [hahead, hnext, hcolumns, hindex]
      exact hgives.first

/-- The cursor is somewhere in the result set `set`. -/
inductive Sits (set : ResultSet) (c : StreamingCursor) : Prop
  | fresh {s : Segment} (fresh : c.Fresh s) (own : set = ⟨c.unread.opening, c.unread.owed.rows⟩) : Sits set c
  | owing {rem : Remainder} (owes : c.Owes rem) (own : set.EndsWith rem.schema rem.rows) : Sits set c

theorem Sits.gives (h : Sits set c) (hsets : sets[c.index]? = some set) :
    Cursor.Gives sets StreamingCursor.ahead c := by
  cases h with
  | fresh hfresh hown => exact hfresh.gives (hown ▸ hsets)
  | owing howes hown => exact howes.gives hown hsets

theorem Sits.ensureStarted (h : Sits set c) : Sits set c.ensureStarted.2 := by
  cases h with
  | fresh hfresh hown => exact .owing (ensureStarted_starts hfresh).owes (hown ▸ endsWith_owed c.unread)
  | owing howes hown =>
    rw [howes.ensureStarted]
    exact .owing howes hown

theorem Owes.sits_next (h : c.Owes rem) (hown : set.EndsWith rem.schema rem.rows) : Sits set c.next.2 := by
  refine .owing (next_steps h).owes ?_
  cases hr : rem.rows with
  | nil =>
    have hnext : rem.next.rows = [] := by
      unfold Remainder.next
      rw [hr]
    rw [hnext]
    exact ⟨List.nil_suffix, absurd rfl⟩
  | cons cells rest =>
    have hnext : rem.next = { rem with rows := rest } := by
      unfold Remainder.next
      rw [hr]
    rw [hr] at hown
    rw [hnext]
    exact hown.tail

/-- Asking for a row does not leave the result set. -/
theorem Sits.next (h : Sits set c) : Sits set c.next.2 := by
  cases h with
  | owing howes hown => exact howes.sits_next hown
  | fresh hfresh hown =>
    have hstart := (ensureStarted_starts hfresh).owes
    have hends : set.EndsWith c.unread.owed.schema c.unread.owed.rows := hown ▸ endsWith_owed c.unread
    rw [hfresh.next_eq]
    cases c.unread.opening with
    | ok schema => exact hstart.sits_next hends
    | error e => exact .owing hstart hends

/-- The cursor takes its result sets from `bodies` and is somewhere in the current one. -/
structure Stands (bodies : List Body) (params : StreamParams) (c : StreamingCursor) : Prop where
  queued : Queued (segmentsOf bodies) params c
  spent : c.closed = true → c.ahead = []
  sits : c.closed = false → ∃ b, bodies[c.index]? = some b ∧ Sits (b.resultSet params.maxLineLength) c

/-- A cursor that stays at its result set stands where it stood. -/
theorem Stands.of_sameSet {c' : StreamingCursor} (h : Stands bodies params c) (hsame : SameSet c c')
    (hclosed : c.closed = true → c'.ahead = [])
    (hsits : ∀ {set}, Sits set c → Sits set c') : Stands bodies params c' := by
  refine ⟨h.queued.of_sameSet hsame, fun hc => hclosed (hsame.closed ▸ hc), fun hc => ?_⟩
  obtain ⟨b, hb, hsit⟩ := h.sits (hsame.closed ▸ hc)
  exact ⟨b, hsame.index ▸ hb, hsits hsit⟩

theorem getElem?_segmentsOf (bodies : List Body) (i : Nat) :
    (segmentsOf bodies)[i]? = (bodies[i]?).map fun b => ⟨i, b⟩ :=
  List.getElem?_mapIdx

theorem stands_ofBodies (bodies : List Body) (params : StreamParams) :
    Stands bodies params (ofBodies bodies params) := by
  refine ⟨queued_ofBodies bodies params, ?_, ?_⟩
  · intro hc
    cases bodies with
    | nil => rfl
    | cons b bodies => exact absurd hc (by simp [ofBodies])
  · intro hc
    cases bodies with
    | nil => cases hc
    | cons b bodies =>
      have hfresh := fresh_ofBodies b bodies params
      refine ⟨b, rfl, .fresh hfresh ?_⟩
      rw [unread_eq hfresh.current]
      rfl

theorem Stands.ensureStarted (h : Stands bodies params c) : Stands bodies params c.ensureStarted.2 := by
  refine h.of_sameSet (sameSet_ensureStarted c) (fun hc => ?_) Sits.ensureStarted
  rw [ensureStarted_closed hc]
  exact h.spent hc

theorem Stands.next (h : Stands bodies params c) : Stands bodies params c.next.2 := by
  refine h.of_sameSet (sameSet_next c) (fun hc => ?_) Sits.next
  rw [next_closed hc]
  exact h.spent hc

/-- At the result set that follows, nothing is read yet. -/
theorem Stands.entered (h : Stands bodies params c) (hc : c.closed = false) {rest : List Segment}
    (hr : c.remaining = s :: rest) : Stands bodies params (c.entered s rest) := by
  have hplace := h.queued.getElem?_next hc hr
  rw [getElem?_segmentsOf, Option.map_eq_some_iff] at hplace
  obtain ⟨b, hb, rfl⟩ := hplace
  have hfresh : (c.entered ⟨c.index + 1, b⟩ rest).Fresh ⟨c.index + 1, b⟩ := ⟨hc, rfl, rfl, rfl⟩
  refine ⟨h.queued.entered hc hr, fun hclosed => ?_, fun _ => ⟨b, hb, .fresh hfresh ?_⟩⟩
  · rw [show (c.entered _ rest).closed = false from hc] at hclosed
    cases hclosed
  · rw [unread_eq hfresh.current, show (c.entered _ rest).params = params from h.queued.params]
    rfl

theorem stands_invariant (bodies : List Body) (params : StreamParams) : Cursor.Invariant (Stands bodies params) :=
  invariant_of_steps Stands.ensureStarted Stands.next (fun h hc hr => h.entered hc hr) fun h _ =>
    ⟨⟨h.queued.params, nofun⟩, fun _ => rfl, nofun⟩

theorem Stands.gives (h : Stands bodies params c) :
    Cursor.Gives (bodies.map (Body.resultSet params.maxLineLength)) StreamingCursor.ahead c := by
  cases hc : c.closed with
  | true =>
    have hnext : Cursor.next c = (.ok none, c) := next_closed hc
    constructor
    · intro _ row hrow
      rw [hnext] at hrow
      cases hrow
    · intro cells rest hcells
      rw [h.spent hc] at hcells
      cases hcells
  | false =>
    obtain ⟨b, hb, hsits⟩ := h.sits hc
    refine hsits.gives ?_
    rw [List.getElem?_map, hb]
    rfl

end StreamingCursor

/-! ## Cursors over documents -/

namespace BufferedCursor

variable {b : BufferedCursor} {ds : List ResultDocument} {sets : List ResultSet} {set : ResultSet}

/-- The pending rows are the last ones of the current result set. -/
structure Stands (ds : List ResultDocument) (b : BufferedCursor) : Prop where
  holds : Holds ds b
  spent : b.closed = true → b.pending = []
  sits : b.closed = false → ∃ d, ds[b.index]? = some d ∧ d.resultSet.EndsWith b.schema b.pending

theorem stands_ofDocuments (h : ofDocuments ds = .ok b) : Stands (if ds.isEmpty then [{}] else ds) b := by
  obtain ⟨first, rest, s, hdocuments, hs, rfl⟩ := ofDocuments_ok h
  rw [hdocuments]
  exact ⟨fun _ => rfl, nofun, fun _ => ⟨first, rfl, List.suffix_rfl, fun _ => hs⟩⟩

theorem Stands.close (h : Stands ds b) : Stands ds b.close := by
  cases hc : b.closed with
  | true =>
    rw [close_closed hc]
    exact h
  | false =>
    rw [close_open hc]
    exact ⟨nofun, fun _ => rfl, nofun⟩

theorem stands_invariant (ds : List ResultDocument) : Cursor.Invariant (Stands ds) where
  columns {b} h := by
    show Stands ds b.columns.2
    unfold columns
    split <;> exact h
  next {b} h := by
    have hholds : Holds ds b.next.2 := (holds_invariant ds).next h.holds
    show Stands ds b.next.2
    cases hb : b.closed with
    | true =>
      rw [next_closed hb]
      exact h
    | false =>
      obtain ⟨d, hd, hends⟩ := h.sits hb
      rw [next_open hb] at hholds ⊢
      exact ⟨hholds, fun hc => absurd (hb.symm.trans hc) nofun, fun _ => ⟨d, hd, hends.tail⟩⟩
  nextResultSet {b} h := by
    have hholds : Holds ds b.nextResultSet.2 := (holds_invariant ds).nextResultSet h.holds
    show Stands ds b.nextResultSet.2
    cases hmore : b.hasNextResultSet with
    | false =>
      rw [nextResultSet_last hmore]
      exact h.close
    | true =>
      obtain ⟨hopen, d, hd⟩ := document_of_hasNextResultSet hmore
      have hd' : ds[b.index + 1]? = some d := h.holds hopen ▸ hd
      rw [nextResultSet_more hmore hd] at hholds ⊢
      cases hs : Schema.ofHeaders d.columns with
      | ok s =>
        rw [hs] at hholds
        exact ⟨hholds, fun hc => absurd (hopen.symm.trans hc) nofun,
          fun _ => ⟨d, hd', List.suffix_rfl, fun _ => hs⟩⟩
      | error e =>
        rw [hs] at hholds
        exact ⟨hholds, fun _ => rfl, fun _ => ⟨d, hd', List.nil_suffix, absurd rfl⟩⟩
  close h := h.close

theorem columns_open (hc : b.closed = false) : b.columns.1 = .ok b.schema := by
  unfold columns
  rw [if_neg (ne_true_of_eq_false hc)]

theorem Stands.gives (h : Stands ds b) :
    Cursor.Gives (ds.map ResultDocument.resultSet) BufferedCursor.pending b := by
  constructor
  · intro hnone row hrow
    obtain ⟨cells, hp⟩ := next_row hrow
    rw [hnone] at hp
    cases hp
  · intro cells rest hp
    cases hc : b.closed with
    | true =>
      rw [h.spent hc] at hp
      cases hp
    | false =>
      obtain ⟨d, hd, hends⟩ := h.sits hc
      have hset : (ds.map ResultDocument.resultSet)[b.index]? = some d.resultSet := by
        rw [List.getElem?_map, hd]
        rfl
      have hs : d.resultSet.columns = .ok b.schema := hends.columns (by rw [hp]; exact List.cons_ne_nil cells rest)
      refine ⟨_, b.schema, hset, hs, hends.suffix, columns_open hc, ?_⟩
      show b.next.1 = _ ∧ b.next.2.pending = rest ∧ b.next.2.columns.1 = _
      rw [next_open hc, hp]
      exact ⟨rfl, rfl, columns_open hc⟩

end BufferedCursor

namespace Cursor

/-- Whatever is read and whatever is done, the rows that `next` gives belong to the current result set. -/
theorem rows_belong :
    (∀ bodies params ops, RowsBelong (bodies.map (Body.resultSet params.maxLineLength)) StreamingCursor.ahead
      (run (StreamingCursor.ofBodies bodies params) ops)) ∧
    ∀ ds b ops, BufferedCursor.ofDocuments ds = .ok b →
      RowsBelong (ResultDocument.resultSets ds) BufferedCursor.pending (run b ops) := by
  constructor
  · intro bodies params ops
    have hstands := (StreamingCursor.stands_invariant bodies params).run
      (StreamingCursor.stands_ofBodies bodies params) ops
    exact hstands.gives.rowsBelong
  · intro ds b ops hb
    have hstands := (BufferedCursor.stands_invariant _).run (BufferedCursor.stands_ofDocuments hb) ops
    exact hstands.gives.rowsBelong

/-- A cursor at a document with a row that fits and one that is too wide. -/
def mixedCursor : BufferedCursor :=
  let rows := [[.string "x"], [.string "y", .null]]
  { documents := [{ columns := [⟨"a", "text"⟩], rows := rows }]
    pending := rows
    schema := ⟨[⟨"a", .scalar .text false, "text"⟩]⟩ }

theorem rows_belong_sample :
    BufferedCursor.ofDocuments mixedCursor.documents = .ok mixedCursor ∧
      (next (run mixedCursor [])).1 = .ok (some ⟨[.text "x"], mixedCursor.schema⟩) ∧
      RowsBelong (ResultDocument.resultSets mixedCursor.documents) BufferedCursor.pending (run mixedCursor []) ∧
      ∃ e, (next (run mixedCursor [.next])).1 = .error e := by
  have hb : BufferedCursor.ofDocuments mixedCursor.documents = .ok mixedCursor := by with_unfolding_all rfl
  refine ⟨hb, by with_unfolding_all rfl, rows_belong.2 _ _ [] hb, ?_⟩
  have hwide : Row.Unfit mixedCursor.schema [.string "y", .null] := .inl (by decide)
  exact ((rows_belong.2 _ _ [.next] hb).refused mixedCursor.schema _ [] (by with_unfolding_all rfl)
    (by with_unfolding_all rfl) hwide).1

end Cursor

end Rowset
