import Rowset.Proofs.Cursor.Agreement
import Rowset.Proofs.Cursor.Draining

/-!
# Result sets whose columns cannot be read

Documents and bodies that deliver them may hold malformed types behind the first result set.  Going on to such a
result set is refused with the malformed type, by both kinds of cursor, and then there are no rows to be had.  The
cursors stay side by side (`Parallel`), and the result sets behind can be reached.

Only the question for columns tells them apart there: over documents a refused result set has no columns, and over
bodies it is a fault to ask for them (`trace_ne_of_refused`).  The main statement is `Cursor.parallels_of_delivers`.
-/

namespace Rowset

/-- The columns of the result set with this number cannot be read. -/
def Refused (ds : List ResultDocument) (i : Nat) : Prop :=
  ∃ d e, ds[i]? = some d ∧ Schema.ofHeaders d.columns = .error e

theorem not_refused {ds : List ResultDocument} {i : Nat} {d : ResultDocument} {s : Schema} (hd : ds[i]? = some d)
    (hs : Schema.ofHeaders d.columns = .ok s) : ¬ Refused ds i := by
  rintro ⟨d', e, hd', he⟩
  cases hd.symm.trans hd'
  cases hs.symm.trans he

namespace StreamingCursor

variable {c : StreamingCursor} {e : Error}

theorem schema_of_read {answer : Except Error (Option StreamRecord)} {d : StreamingCursor}
    (h : c.readRecord = (answer, d)) : d.schema = c.schema := by
  unfold readRecord at h
  cases hs : c.current with
  | none =>
    rw [hs] at h
    exact congrArg (·.2.schema) h.symm
  | some s =>
    rw [hs] at h
    exact congrArg (·.2.schema) h.symm

/-- A first record that is refused leaves the columns as they were. -/
theorem schema_of_error (h : c.ensureStarted.1 = .error e) : c.ensureStarted.2.schema = c.schema := by
  have hopens := opens_ensureStarted c
  generalize c.ensureStarted = result at h hopens
  cases hopens with
  | closed _ => rfl
  | before _ _ => cases h
  | failed _ _ read => exact (schema_of_read read :)
  | started _ _ _ _ _ => cases h

theorem Owes.block_eq_nil {rem : Remainder} (h : c.Owes rem) (hp : c.phase = .exhausted) : c.block = [] := by
  cases h with
  | reading _ hp' => cases hp'.symm.trans hp
  | exhausted _ _ hb => exact hb

/-- A cursor at a refused result set. -/
structure Barred (c : StreamingCursor) : Prop where
  opened : c.closed = false
  phase : c.phase = .exhausted
  block : c.block = []
  schema : c.schema = none

theorem Barred.owes (h : c.Barred) : c.Owes ⟨{}, [], none, []⟩ :=
  .exhausted h.opened h.phase h.block List.nil_suffix

theorem Barred.next_eq (h : c.Barred) : c.next = (.ok none, c) :=
  h.owes.next_of_exhausted h.phase

theorem Barred.columns_eq (h : c.Barred) : c.columns = (.error (.framing .noColumns), c) := by
  unfold columns
  rw [h.owes.ensureStarted]
  dsimp only
  rw [h.schema]

/-- Going on to a result set whose columns cannot be read. -/
theorem barred_entered {d : ResultDocument} {s : Segment} {rest : List Segment} (hc : c.closed = false)
    (hd : Delivers c.params.maxLineLength d s.body) (he : Schema.ofHeaders d.columns = .error e) :
    (c.entered s rest).ensureStarted.1 = .error e ∧ (c.entered s rest).ensureStarted.2.Barred := by
  have hfresh : (c.entered s rest).Fresh s := ⟨hc, rfl, rfl, rfl⟩
  have hopening : (c.entered s rest).unread.opening = .error e := hd.opening.trans he
  have hstart := ensureStarted_starts hfresh
  have hanswer : (c.entered s rest).ensureStarted.1 = .error e := by
    rw [hstart.answer, hopening]
    rfl
  have hphase := hstart.exhausted e hopening
  exact ⟨hanswer, hstart.owes.opened, hphase, hstart.owes.block_eq_nil hphase, schema_of_error hanswer⟩

end StreamingCursor

/-! ## Cursors side by side -/

/-- The current result set, over documents and over a body: it delivers the same rows, or it was refused. -/
inductive Place (ds : List ResultDocument) (b : BufferedCursor) (c : StreamingCursor) : Prop
  | entered (readable : ¬ Refused ds b.index) (serves : c.Serves b.schema b.pending)
  | refused (refused : Refused ds b.index) (schema : b.schema = {}) (pending : b.pending = []) (barred : c.Barred)

/-- Two cursors at the same place of the result sets `ds`. -/
structure Parallel (ds : List ResultDocument) (b : BufferedCursor) (c : StreamingCursor) : Prop where
  rowCount : b.rowCount = c.rowCount
  index : b.index = c.index
  closed : b.closed = c.closed
  documents : b.closed = false → b.documents = ds
  place : b.closed = false → Place ds b c
  follow : b.closed = false →
    List.Forall₂ (fun d s => Delivers c.params.maxLineLength d s.body) (ds.drop (b.index + 1)) c.remaining

namespace Parallel

open StreamingCursor (SameSet)

variable {ds : List ResultDocument} {b : BufferedCursor} {c : StreamingCursor}

/-- Cursors stay side by side if nothing but the rows of the current result set changes. -/
theorem of_sameSet {b' : BufferedCursor} {c' : StreamingCursor} (h : Parallel ds b c) (hopen : b.closed = false)
    (hdocuments : b'.documents = b.documents) (hindex : b'.index = b.index) (hclosed : b'.closed = b.closed)
    (hsame : SameSet c c') (hcount : b'.rowCount = c'.rowCount) (hplace : Place ds b' c') : Parallel ds b' c' where
  rowCount := hcount
  index := by rw [hindex, hsame.index, h.index]
  closed := by rw [hclosed, hsame.closed, h.closed]
  documents _ := hdocuments.trans (h.documents hopen)
  place _ := hplace
  follow _ := by
    rw [hsame.params, hsame.remaining, hindex]
    exact h.follow hopen

/-! ## One operation -/

theorem next (h : Parallel ds b c) : b.next.1 = c.next.1 ∧ Parallel ds b.next.2 c.next.2 := by
  cases hb : b.closed with
  | true =>
    rw [BufferedCursor.next_closed hb, StreamingCursor.next_closed (h.closed.symm.trans hb)]
    exact ⟨rfl, h⟩
  | false =>
    rw [BufferedCursor.next_open hb]
    cases h.place hb with
    | entered hread hserves =>
      obtain ⟨hanswer, hserves, hsame, hcount⟩ := hserves.next
      rw [hanswer]
      refine ⟨rfl, h.of_sameSet hb rfl rfl rfl hsame ?_ (.entered hread hserves)⟩
      rw [hcount, hanswer, ← h.rowCount]
    | refused hrefused hschema hpending hbarred =>
      rw [hbarred.next_eq, hpending]
      exact ⟨rfl, h.of_sameSet hb rfl rfl rfl (.refl c) h.rowCount (.refused hrefused hschema rfl hbarred)⟩

/-- The columns are the same unless the result set was refused. -/
theorem columns (h : Parallel ds b c) :
    (¬ (b.closed = false ∧ Refused ds b.index) → b.columns.1 = c.columns.1) ∧
      Parallel ds b.columns.2 c.columns.2 := by
  cases hb : b.closed with
  | true =>
    have hc : Cursor.isClosed c = true := h.closed.symm.trans hb
    have hbuffered : Cursor.columns b = (.error .closed, b) := (Cursor.Lawful.of_closed hb).2.1
    have hstreaming : Cursor.columns c = (.error .closed, c) := (Cursor.Lawful.of_closed hc).2.1
    rw [show b.columns = _ from hbuffered, show c.columns = _ from hstreaming]
    exact ⟨fun _ => rfl, h⟩
  | false =>
    have hbuffered : b.columns = (.ok b.schema, b) := by
      unfold BufferedCursor.columns
      rw [hb]
      rfl
    rw [hbuffered]
    cases h.place hb with
    | entered hread hserves =>
      obtain ⟨c', beyond, hstart, howes, hcol, hsame, hcount, -⟩ := hserves.ensureStarted
      have hstreaming : c.columns = (.ok b.schema, c') := by
        unfold StreamingCursor.columns
        rw [hstart]
        dsimp only
        rw [hcol]
      rw [hstreaming]
      refine ⟨fun _ => rfl, h.of_sameSet hb rfl rfl rfl hsame (h.rowCount.trans hcount.symm) ?_⟩
      exact .entered hread (.started howes hcol rfl rfl rfl)
    | refused hrefused _ _ hbarred =>
      rw [hbarred.columns_eq]
      exact ⟨fun hnot => absurd ⟨rfl, hrefused⟩ hnot, h⟩

theorem close (h : Parallel ds b c) : Parallel ds b.close c.close := by
  cases hb : b.closed with
  | true =>
    rw [BufferedCursor.close_closed hb, StreamingCursor.close_closed (h.closed.symm.trans hb)]
    exact h
  | false =>
    rw [BufferedCursor.close_open hb, StreamingCursor.close_open (h.closed.symm.trans hb)]
    exact ⟨h.rowCount, h.index, rfl, nofun, nofun, nofun⟩

theorem hasNextResultSet (h : Parallel ds b c) : b.hasNextResultSet = c.hasNextResultSet := by
  unfold BufferedCursor.hasNextResultSet StreamingCursor.hasNextResultSet
  rw [← h.closed]
  cases hb : b.closed with
  | true => rfl
  | false =>
    have hlen := (h.follow hb).length_eq
    rw [List.length_drop, ← h.documents hb] at hlen
    cases hr : c.remaining with
    | nil =>
      rw [hr, List.length_nil] at hlen
      simpa using Nat.le_of_sub_eq_zero hlen
    | cons s rest =>
      rw [hr, List.length_cons] at hlen
      simp
      omega

/-- The body that comes next delivers the document that comes next. -/
theorem delivers_next (h : Parallel ds b c) (hopen : b.closed = false) {s : Segment} {rest : List Segment}
    (hr : c.remaining = s :: rest) :
    ∃ d, ds[b.index + 1]? = some d ∧ Delivers c.params.maxLineLength d s.body ∧
      List.Forall₂ (fun d s => Delivers c.params.maxLineLength d s.body) (ds.drop (b.index + 2)) rest := by
  have hfollow := h.follow hopen
  rw [hr] at hfollow
  obtain ⟨d, ds', hdelivers, hrest, hdrop⟩ := List.forall₂_cons_right_iff.mp hfollow
  have hhead := congrArg (·[0]?) hdrop
  have htail := congrArg List.tail hdrop
  rw [List.tail_drop] at htail
  refine ⟨d, by simpa using hhead, hdelivers, ?_⟩
  rw [show ds.drop (b.index + 2) = ds' from htail]
  exact hrest

/-- Cursors that went on to the result sets that come next are side by side there. -/
theorem gone_on (h : Parallel ds b c) (hopen : b.closed = false) {s : Segment} {rest : List Segment}
    {c' : StreamingCursor} (hsame : SameSet (c.entered s rest) c') (hcount : c'.rowCount = c.rowCount)
    (hrest : List.Forall₂ (fun d s => Delivers c.params.maxLineLength d s.body) (ds.drop (b.index + 2)) rest)
    {rows : List (List Json)} {schema : Schema}
    (hplace : Place ds { b with index := b.index + 1, pending := rows, schema := schema } c') :
    Parallel ds { b with index := b.index + 1, pending := rows, schema := schema } c' where
  rowCount := h.rowCount.trans hcount.symm
  index := by
    rw [hsame.index]
    exact congrArg (· + 1) h.index
  closed := by
    rw [hsame.closed]
    exact h.closed
  documents _ := h.documents hopen
  place _ := hplace
  follow _ := by
    rw [hsame.params, hsame.remaining]
    exact hrest

/-- Both cursors go on to the result set `d`, or are refused. -/
theorem nextResultSet_more (h : Parallel ds b c) (hmore : b.hasNextResultSet = true) {d : ResultDocument}
    (hd : ds[b.index + 1]? = some d) :
    b.nextResultSet.1 = (Schema.ofHeaders d.columns).map (fun _ => true) ∧
      c.nextResultSet.1 = (Schema.ofHeaders d.columns).map (fun _ => true) ∧
      Parallel ds b.nextResultSet.2 c.nextResultSet.2 := by
  obtain ⟨hc, s, rest, hr⟩ := StreamingCursor.remaining_of_hasNextResultSet (h.hasNextResultSet ▸ hmore)
  have hb : b.closed = false := h.closed.trans hc
  obtain ⟨d', hd', hdelivers, hrest⟩ := h.delivers_next hb hr
  obtain rfl : d = d' := Option.some.inj (hd.symm.trans hd')
  rw [BufferedCursor.nextResultSet_more hmore (h.documents hb ▸ hd), StreamingCursor.nextResultSet_more hc hr]
  cases hs : Schema.ofHeaders d.columns with
  | ok schema =>
    have hserves : (c.entered s rest).Serves schema d.rows := StreamingCursor.serves_entered hc hdelivers hs
    obtain ⟨c', beyond, hstart, howes, hcol, hsame, hcount, -⟩ := hserves.ensureStarted
    rw [hstart]
    have hplace : Place ds { b with index := b.index + 1, pending := d.rows, schema := schema } c' :=
      .entered (not_refused hd hs) (.started howes hcol rfl rfl rfl)
    exact ⟨rfl, rfl, h.gone_on hb hsame hcount hrest hplace⟩
  | error e =>
    obtain ⟨hanswer, hbarred⟩ : (c.entered s rest).ensureStarted.1 = .error e ∧
        (c.entered s rest).ensureStarted.2.Barred := StreamingCursor.barred_entered hc hdelivers hs
    have hsame := StreamingCursor.sameSet_ensureStarted (c.entered s rest)
    have hcount := StreamingCursor.rowCount_ensureStarted (c.entered s rest)
    rw [hanswer]
    exact ⟨rfl, rfl, h.gone_on hb hsame hcount hrest (.refused ⟨d, e, hd, hs⟩ rfl rfl hbarred)⟩

theorem nextResultSet (h : Parallel ds b c) :
    b.nextResultSet.1 = c.nextResultSet.1 ∧ Parallel ds b.nextResultSet.2 c.nextResultSet.2 := by
  cases hmore : b.hasNextResultSet with
  | true =>
    obtain ⟨hb, d, hd⟩ := BufferedCursor.document_of_hasNextResultSet hmore
    obtain ⟨hbuffered, hstreaming, hafter⟩ := h.nextResultSet_more hmore (h.documents hb ▸ hd)
    exact ⟨hbuffered.trans hstreaming.symm, hafter⟩
  | false =>
    have hmore' : Cursor.hasNextResultSet c = false := h.hasNextResultSet.symm.trans hmore
    have hlast : Cursor.nextResultSet c = (.ok false, Cursor.close c) := Cursor.Lawful.nextResultSet_last hmore'
    rw [BufferedCursor.nextResultSet_last hmore, show c.nextResultSet = _ from hlast]
    exact ⟨rfl, h.close⟩

theorem perform (h : Parallel ds b c) (op : Operation) :
    ((op = .columns → ¬ (b.closed = false ∧ Refused ds b.index)) →
      (Cursor.perform b op).1 = (Cursor.perform c op).1) ∧
      Parallel ds (Cursor.perform b op).2 (Cursor.perform c op).2 := by
  cases op with
  | columns => exact ⟨fun hread => congrArg Answer.columns (h.columns.1 (hread rfl)), h.columns.2⟩
  | next => exact ⟨fun _ => congrArg Answer.next h.next.1, h.next.2⟩
  | nextInto dest =>
    show (_ → Answer.nextInto (Cursor.nextInto b dest).1 = Answer.nextInto (Cursor.nextInto c dest).1) ∧
      Parallel ds (Cursor.nextInto b dest).2 (Cursor.nextInto c dest).2
    have hanswer : (Cursor.next b).1 = (Cursor.next c).1 := h.next.1
    rw [Cursor.nextInto_eq, Cursor.nextInto_eq, hanswer]
    exact ⟨fun _ => rfl, h.next.2⟩
  | fetchAll =>
    obtain ⟨rows, fault, b', hyields⟩ := Cursor.exists_yields b
    obtain ⟨c', hyields', hafter⟩ := hyields.transfer (R := Parallel ds) Parallel.next h
    show (_ → Answer.fetchAll (Cursor.fetchAll b).1 = Answer.fetchAll (Cursor.fetchAll c).1) ∧
      Parallel ds (Cursor.fetchAll b).2 (Cursor.fetchAll c).2
    rw [hyields.fetchAll, hyields'.fetchAll]
    exact ⟨fun _ => rfl, hafter⟩
  | nextResultSet => exact ⟨fun _ => congrArg Answer.nextResultSet h.nextResultSet.1, h.nextResultSet.2⟩
  | close => exact ⟨fun _ => rfl, h.close⟩

/-! ## Any sequence of operations -/

theorem run (h : Parallel ds b c) (ops : List Operation) : Parallel ds (Cursor.run b ops) (Cursor.run c ops) := by
  induction ops generalizing b c with
  | nil => exact h
  | cons op ops ih => exact ih (h.perform op).2

theorem view (h : Parallel ds b c) : Cursor.view b = Cursor.view c := by
  show View.mk b.rowCount b.closed b.hasNextResultSet b.index = View.mk _ _ _ _
  rw [h.rowCount, h.closed, h.hasNextResultSet, h.index]
  rfl

end Parallel

/-- What cursors over the result sets `ds` that begin as `b` and `c` have in common, whatever is done with both. -/
structure Parallels (ds : List ResultDocument) (b : BufferedCursor) (c : StreamingCursor) : Prop where
  view : ∀ ops, Cursor.view (Cursor.run b ops) = Cursor.view (Cursor.run c ops)
  /-- Every operation answers the same, but for the columns of a refused result set. -/
  answer : ∀ ops op,
    (op = .columns → ¬ ((Cursor.run b ops).closed = false ∧ Refused ds (Cursor.run b ops).index)) →
    (Cursor.perform (Cursor.run b ops) op).1 = (Cursor.perform (Cursor.run c ops) op).1
  refused : ∀ ops, (Cursor.run b ops).closed = false → Refused ds (Cursor.run b ops).index →
    (Cursor.columns (Cursor.run b ops)).1 = .ok {} ∧
      (Cursor.columns (Cursor.run c ops)).1 = .error (.framing .noColumns) ∧
      (Cursor.next (Cursor.run b ops)).1 = .ok none ∧ (Cursor.next (Cursor.run c ops)).1 = .ok none
  /-- Going on to a result set whose columns cannot be read fails with the type that is malformed. -/
  refusal : ∀ ops, (Cursor.run b ops).closed = false → ∀ d e, ds[(Cursor.run b ops).index + 1]? = some d →
    Schema.ofHeaders d.columns = .error e →
    (Cursor.nextResultSet (Cursor.run b ops)).1 = .error e ∧
      (Cursor.nextResultSet (Cursor.run c ops)).1 = .error e ∧ ∃ text fault, e = .descriptor text fault

theorem Parallel.parallels {ds : List ResultDocument} {b : BufferedCursor} {c : StreamingCursor}
    (h : Parallel ds b c) : Parallels ds b c where
  view ops := (h.run ops).view
  answer ops op := ((h.run ops).perform op).1
  refused ops hopen hrefused := by
    cases (h.run ops).place hopen with
    | entered hread _ => exact absurd hrefused hread
    | refused _ hschema hpending hbarred =>
      have hcolumns : (Cursor.run b ops).columns.1 = .ok {} := by
        unfold BufferedCursor.columns
        rw [hopen, hschema]
        rfl
      have hnext : (Cursor.run b ops).next.1 = .ok none := by
        rw [BufferedCursor.next_open hopen, hpending]
        rfl
      exact ⟨hcolumns, congrArg Prod.fst hbarred.columns_eq, hnext, congrArg Prod.fst hbarred.next_eq⟩
  refusal ops hopen d e hd he := by
    have hmore : (Cursor.run b ops).hasNextResultSet = true := by
      have hlt := (List.getElem?_eq_some_iff.mp hd).1
      rw [← (h.run ops).documents hopen] at hlt
      unfold BufferedCursor.hasNextResultSet
      simp [hopen, hlt]
    obtain ⟨hbuffered, hstreaming, -⟩ := (h.run ops).nextResultSet_more hmore hd
    rw [he] at hbuffered hstreaming
    exact ⟨hbuffered, hstreaming, Schema.ofHeaders_error he⟩

section

variable {d : ResultDocument} {ds : List ResultDocument} {bodies : List Body} {params : StreamParams}

/-- The cursors are side by side from the start if the first result set can be entered. -/
theorem parallel_ofDocuments (he : ∀ d' ∈ d :: ds, d'.errors = [])
    (ht : ∀ c ∈ d.columns, ∃ t, Descriptor.parse c.type = .ok t)
    (hd : List.Forall₂ (Delivers params.maxLineLength) (d :: ds) bodies) :
    ∃ b, BufferedCursor.ofDocuments (d :: ds) = .ok b ∧ Parallel (d :: ds) b (.ofBodies bodies params) := by
  obtain ⟨schema, hschema⟩ := Schema.exists_ofHeaders_iff.mpr ht
  obtain ⟨body, bodies, hbody, hrest, rfl⟩ := List.forall₂_cons_left_iff.mp hd
  obtain ⟨hs, hrows, hfault⟩ := hbody.owed hschema
  have hfresh := StreamingCursor.fresh_ofBodies body bodies params
  have hunread : (StreamingCursor.ofBodies (body :: bodies) params).unread =
      body.transcript params.maxLineLength := StreamingCursor.unread_eq hfresh.current
  rw [← hunread] at hs hrows hfault
  refine ⟨_, BufferedCursor.ofDocuments_cons he hschema, rfl, rfl, hfresh.opened.symm, fun _ => rfl,
    fun _ => .entered (not_refused rfl hschema) ?_, fun _ => ?_⟩
  · exact .fresh hfresh (hunread ▸ hbody.opening.trans hschema) hrows hfault hs
  · rw [← List.forall₂_map_right_iff, StreamingCursor.ofBodies_cons]
    exact hrest

/-- Documents and bodies that deliver them look the same through their cursors if the first result set can be
entered, but for the columns of those that are refused. -/
theorem Cursor.parallels_of_delivers (he : ∀ d' ∈ d :: ds, d'.errors = [])
    (ht : ∀ c ∈ d.columns, ∃ t, Descriptor.parse c.type = .ok t)
    (hd : List.Forall₂ (Delivers params.maxLineLength) (d :: ds) bodies) :
    ∃ b, BufferedCursor.ofDocuments (d :: ds) = .ok b ∧
      Parallels (d :: ds) b (StreamingCursor.ofBodies bodies params) := by
  obtain ⟨b, hb, hparallel⟩ := parallel_ofDocuments he ht hd
  exact ⟨b, hb, hparallel.parallels⟩

end

/-- A row, a result set whose columns cannot be read, and one without columns. -/
def refusedDocuments : List ResultDocument :=
  [{ columns := [⟨"a", "text"⟩], rows := [[.string "x"]] }, { columns := [⟨"b", "no type"⟩], rows := [[.null]] }, {}]

/-- Bodies that deliver `refusedDocuments`. -/
def refusedBodies : List Body :=
  [⟨[], [.bytes "[\"START\",[[\"a\",\"text\"]]]\n[\"DATA\",[],[[\"x\"]]]\n[\"FINISHED_WITH_SUCCESS\"]".toUTF8.toList]⟩,
    ⟨[], [.bytes "[\"START\",[[\"b\",\"no type\"]]]\n[\"DATA\",[],[[null]]]\n".toUTF8.toList,
      .bytes "[\"FINISHED_WITH_SUCCESS\"]\n".toUTF8.toList]⟩,
    ⟨[], [.bytes "[\"START\"]\n[\"FINISHED_WITH_SUCCESS\"]\n".toUTF8.toList]⟩]

theorem delivers_refused :
    List.Forall₂ (Delivers ({} : StreamParams).maxLineLength) refusedDocuments refusedBodies := by
  refine .cons ⟨{ kind := .start, columns := [⟨"a", "text"⟩] }, [{ kind := .data, rows := [[.string "x"]] }],
    { kind := .finishedWithSuccess }, [], ?_, rfl, rfl, by simp, rfl, rfl⟩
    (.cons ⟨{ kind := .start, columns := [⟨"b", "no type"⟩] }, [{ kind := .data, rows := [[.null]] }],
      { kind := .finishedWithSuccess }, [], ?_, rfl, rfl, by simp, rfl, rfl⟩
    (.cons ⟨{ kind := .start }, [], { kind := .finishedWithSuccess }, [], ?_, rfl, rfl, by simp, rfl, rfl⟩ .nil))
  · with_unfolding_all rfl
  · with_unfolding_all rfl
  · with_unfolding_all rfl

theorem errors_refused : ∀ d ∈ refusedDocuments, d.errors = [] := by
  simp [refusedDocuments]

theorem readable_refused :
    ∀ c ∈ (refusedDocuments.headD {}).columns, ∃ t, Descriptor.parse c.type = .ok t := by
  simp only [refusedDocuments, List.headD_cons, List.forall_mem_cons]
  exact ⟨⟨.scalar .text false, by with_unfolding_all rfl⟩, nofun⟩

theorem parallels_of_delivers_sample :
    (∀ d ∈ refusedDocuments, d.errors = []) ∧
      (∀ c ∈ (refusedDocuments.headD {}).columns, ∃ t, Descriptor.parse c.type = .ok t) ∧
      List.Forall₂ (Delivers ({} : StreamParams).maxLineLength) refusedDocuments refusedBodies ∧
      ∃ b, BufferedCursor.ofDocuments refusedDocuments = .ok b ∧
        Parallels refusedDocuments b (StreamingCursor.ofBodies refusedBodies) :=
  ⟨errors_refused, readable_refused, delivers_refused,
    Cursor.parallels_of_delivers errors_refused readable_refused delivers_refused⟩

/-- A cursor at the first of `refusedDocuments`. -/
def refusedCursor : BufferedCursor :=
  { documents := refusedDocuments, pending := [[.string "x"]], schema := ⟨[⟨"a", .scalar .text false, "text"⟩]⟩ }

/-- The question for columns tells cursors apart at a result set that was refused. -/
theorem trace_ne_of_refused :
    List.Forall₂ (Delivers ({} : StreamParams).maxLineLength) refusedDocuments refusedBodies ∧
      (∀ c ∈ (refusedDocuments.headD {}).columns, ∃ t, Descriptor.parse c.type = .ok t) ∧
      BufferedCursor.ofDocuments refusedDocuments = .ok refusedCursor ∧
      Cursor.trace refusedCursor [.nextResultSet, .columns] ≠
        Cursor.trace (StreamingCursor.ofBodies refusedBodies) [.nextResultSet, .columns] := by
  have hstart : BufferedCursor.ofDocuments refusedDocuments = .ok refusedCursor := by with_unfolding_all rfl
  refine ⟨delivers_refused, readable_refused, hstart, fun htrace => ?_⟩
  obtain ⟨b, hb, hparallel⟩ : ∃ b, BufferedCursor.ofDocuments refusedDocuments = .ok b ∧
      Parallel refusedDocuments b (.ofBodies refusedBodies) :=
    parallel_ofDocuments errors_refused readable_refused delivers_refused
  obtain rfl : refusedCursor = b := Except.ok.inj (hstart.symm.trans hb)
  have hrefused : Refused refusedDocuments (Cursor.run refusedCursor [.nextResultSet]).index :=
    ⟨_, _, rfl, by with_unfolding_all rfl⟩
  obtain ⟨hbuffered, hstreaming, -⟩ := hparallel.parallels.refused [.nextResultSet] (by decide +kernel) hrefused
  simp only [Cursor.trace, List.cons.injEq, Prod.mk.injEq] at htrace
  have hanswers := Answer.columns.inj htrace.2.1.1
  rw [show (Cursor.columns (Cursor.perform refusedCursor .nextResultSet).2).1 = .ok {} from hbuffered] at hanswers
  cases hanswers.trans hstreaming

end Rowset
