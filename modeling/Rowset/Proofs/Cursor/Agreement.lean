import Mathlib.Data.List.Forall2
import Rowset.Proofs.Cursor.Operations

/-!
# Result sets in full and result sets streamed

A cursor over documents and a cursor over bodies that deliver the same columns and rows, cut into blocks in
whatever way, cannot be told apart: `Cursor.trace` is what a caller sees of a sequence of operations, and it is
the same for both.

`Agree` relates two such cursors and is a simulation.  The main statement is `Cursor.trace_eq_of_delivers`.
-/

namespace Rowset

/-! ## Documents and bodies -/

/-- The body delivers the columns and the rows of a document: behind its `START` come `DATA` records, in any
number and of any size, and a `FINISHED_WITH_SUCCESS`. -/
def Delivers (limit : Nat) (d : ResultDocument) (b : Body) : Prop :=
  ∃ start blocks finish rest, (b.transcript limit).records = start :: (blocks ++ finish :: rest) ∧
    start.kind = .start ∧ start.columns = d.columns ∧
    (∀ r ∈ blocks, r.kind = .data) ∧ blocks.flatMap (·.rows) = d.rows ∧
    finish.kind = .finishedWithSuccess

namespace Transcript

variable {blocks rest : List StreamRecord} {finish : StreamRecord} {stop : Option Error}

theorem leadingRows_blocks (hb : ∀ r ∈ blocks, r.kind = .data) (hf : finish.kind ≠ .data) :
    leadingRows ⟨blocks ++ finish :: rest, stop⟩ = blocks.flatMap (·.rows) := by
  induction blocks with
  | nil => exact leadingRows_other hf
  | cons r rs ih =>
    rw [List.cons_append, leadingRows_data (hb r List.mem_cons_self), List.flatMap_cons,
      ih fun r' hr' => hb r' (List.mem_cons_of_mem r hr')]

theorem closing_blocks (hb : ∀ r ∈ blocks, r.kind = .data) (hf : finish.kind = .finishedWithSuccess) :
    closing ⟨blocks ++ finish :: rest, stop⟩ = none := by
  induction blocks with
  | nil =>
    rw [List.nil_append, closing_other (by rw [hf]; decide), if_pos hf]
  | cons r rs ih =>
    rw [List.cons_append, closing_data (hb r List.mem_cons_self)]
    exact ih fun r' hr' => hb r' (List.mem_cons_of_mem r hr')

end Transcript

section

variable {limit : Nat} {d : ResultDocument} {body : Body} {s : Schema}

theorem Delivers.opening (h : Delivers limit d body) :
    (body.transcript limit).opening = Schema.ofHeaders d.columns := by
  obtain ⟨start, blocks, finish, rest, hr, hk, hc, -⟩ := h
  unfold Transcript.opening
  rw [hr]
  dsimp only
  rw [if_pos hk, hc]

theorem Delivers.owed (h : Delivers limit d body) (hs : Schema.ofHeaders d.columns = .ok s) :
    (body.transcript limit).owed.schema = s ∧ (body.transcript limit).owed.rows = d.rows ∧
      (body.transcript limit).owed.fault = none := by
  have ho := h.opening.trans hs
  obtain ⟨start, blocks, finish, rest, hr, -, -, hb, hd, hf⟩ := h
  have htail : (body.transcript limit).tail = ⟨blocks ++ finish :: rest, (body.transcript limit).stop⟩ := by
    unfold Transcript.tail
    rw [hr]
    rfl
  unfold Transcript.owed
  rw [ho, htail]
  refine ⟨rfl, ?_, Transcript.closing_blocks hb hf⟩
  rw [← hd]
  exact Transcript.leadingRows_blocks hb (by rw [hf]; decide)

end

/-! ## Cursors that agree -/

/-- The rows that a streaming cursor gives of its result set, which ends well. -/
inductive StreamingCursor.Serves (c : StreamingCursor) (schema : Schema) (rows : List (List Json)) : Prop
  | fresh {s : Segment} (fresh : c.Fresh s) (opening : c.unread.opening = .ok schema)
      (rows : c.unread.owed.rows = rows) (fault : c.unread.owed.fault = none)
      (columns : c.unread.owed.schema = schema)
  | started {rem : Remainder} (owes : c.Owes rem) (columns : c.schema = some schema)
      (schema : rem.schema = schema) (rows : rem.rows = rows) (fault : rem.fault = none)

/-- The result sets that follow the current one. -/
def Follow (limit : Nat) (ds : List ResultDocument) (segments : List Segment) : Prop :=
  List.Forall₂ (fun d s => Delivers limit d s.body ∧ ∃ schema, Schema.ofHeaders d.columns = .ok schema)
    ds segments

/-- Two cursors at the same place of the same result sets. -/
structure Agree (b : BufferedCursor) (c : StreamingCursor) : Prop where
  rowCount : b.rowCount = c.rowCount
  index : b.index = c.index
  closed : b.closed = c.closed
  settled : b.closed = true → b.pending = []
  serves : b.closed = false → c.Serves b.schema b.pending
  follow : b.closed = false → Follow c.params.maxLineLength (b.documents.drop (b.index + 1)) c.remaining

/-! ## Rows -/

namespace StreamingCursor

variable {c : StreamingCursor} {schema : Schema} {rows : List (List Json)}

/-- Looking at the first record changes nothing that can be seen. -/
theorem Serves.ensureStarted (h : c.Serves schema rows) :
    ∃ c' beyond, c.ensureStarted = (.ok (), c') ∧ c'.Owes ⟨schema, rows, none, beyond⟩ ∧
      c'.schema = some schema ∧ SameSet c c' ∧ c'.rowCount = c.rowCount ∧ c.next = c'.next := by
  cases h with
  | fresh hf ho hr hfault hs =>
    have hstart := ensureStarted_starts hf
    have hnext := hf.next_eq
    rw [ho] at hnext
    have howes : c.ensureStarted.2.Owes ⟨schema, rows, none, c.unread.owed.beyond⟩ := by
      rw [← hs, ← hr, ← hfault]
      exact hstart.owes
    refine ⟨_, _, Prod.ext ?_ rfl, howes, hstart.schema schema ho, hstart.same, hstart.rowCount, hnext⟩
    rw [hstart.answer, ho]
    rfl
  | @started rem ho hcol hs hr hfault =>
    obtain ⟨s, rs, fault, beyond⟩ := rem
    cases hs
    cases hr
    cases hfault
    exact ⟨c, beyond, ho.ensureStarted, ho, hcol, .refl c, rfl, rfl⟩

/-- One row of those that a cursor serves. -/
theorem Serves.next (h : c.Serves schema rows) :
    c.next.1 = Remainder.answer ⟨schema, rows, none, []⟩ ∧ c.next.2.Serves schema rows.tail ∧
      SameSet c c.next.2 ∧ c.next.2.rowCount = c.rowCount + delivered c.next.1 := by
  obtain ⟨c', beyond, -, howes, hcol, hsame, hcount, hnext⟩ := h.ensureStarted
  have hstep := next_steps howes
  rw [hnext]
  refine ⟨?_, ?_, hsame.trans hstep.same, by rw [hstep.rowCount, hcount]⟩
  · rw [hstep.answer]
    cases rows <;> rfl
  · have hs := hstep.owes
    cases rows with
    | nil => exact .started hs (hstep.schema.trans hcol) rfl rfl rfl
    | cons cells rest => exact .started hs (hstep.schema.trans hcol) rfl rfl rfl

/-! ## Going on to a result set -/

theorem serves_entered {d : ResultDocument} {s : Segment} {rest : List Segment} (h : c.closed = false)
    (hd : Delivers c.params.maxLineLength d s.body) (hs : Schema.ofHeaders d.columns = .ok schema) :
    (c.entered s rest).Serves schema d.rows := by
  have hfresh : (c.entered s rest).Fresh s := ⟨h, rfl, rfl, rfl⟩
  obtain ⟨hschema, hrows, hfault⟩ := hd.owed hs
  exact .fresh hfresh (hd.opening.trans hs) hrows hfault hschema

end StreamingCursor

namespace Agree

variable {b : BufferedCursor} {c : StreamingCursor}

/-- Cursors go on to agree if nothing but the rows of the current result set changes. -/
theorem of_sameSet {b' : BufferedCursor} {c' : StreamingCursor} (h : Agree b c) (hopen : b.closed = false)
    (hdocuments : b'.documents = b.documents) (hindex : b'.index = b.index) (hclosed : b'.closed = b.closed)
    (hsame : StreamingCursor.SameSet c c') (hcount : b'.rowCount = c'.rowCount)
    (hserves : c'.Serves b'.schema b'.pending) : Agree b' c' := by
  refine ⟨hcount, ?_, ?_, ?_, fun _ => hserves, fun _ => ?_⟩
  · rw [hindex, hsame.index]
    exact h.index
  · rw [hclosed, hsame.closed]
    exact h.closed
  · intro hb'
    rw [hclosed, hopen] at hb'
    cases hb'
  · rw [hsame.params, hsame.remaining, hdocuments, hindex]
    exact h.follow hopen

/-! ## One operation -/

theorem next (h : Agree b c) : b.next.1 = c.next.1 ∧ Agree b.next.2 c.next.2 := by
  cases hb : b.closed with
  | true =>
    have hc : c.closed = true := h.closed.symm.trans hb
    have hbnext : b.next = (.ok none, b) := BufferedCursor.next_closed hb
    have hcnext : c.next = (.ok none, c) := StreamingCursor.next_closed hc
    rw [hbnext, hcnext]
    exact ⟨rfl, h⟩
  | false =>
    obtain ⟨hanswer, hserves, hsame, hcount⟩ := (h.serves hb).next
    rw [BufferedCursor.next_open hb, hanswer]
    refine ⟨rfl, h.of_sameSet hb rfl rfl rfl hsame ?_ hserves⟩
    rw [hcount, hanswer, ← h.rowCount]

theorem columns (h : Agree b c) : b.columns.1 = c.columns.1 ∧ Agree b.columns.2 c.columns.2 := by
  unfold BufferedCursor.columns StreamingCursor.columns
  cases hb : b.closed with
  | true =>
    have hc : c.ensureStarted = (.error .closed, c) :=
      StreamingCursor.ensureStarted_closed (h.closed.symm.trans hb)
    rw [hc]
    exact ⟨rfl, h⟩
  | false =>
    obtain ⟨c', beyond, hstart, howes, hcol, hsame, hcount, -⟩ := (h.serves hb).ensureStarted
    rw [hstart]
    dsimp only
    rw [hcol]
    refine ⟨rfl, h.of_sameSet hb rfl rfl rfl hsame ?_ (.started howes hcol rfl rfl rfl)⟩
    rw [hcount]
    exact h.rowCount

theorem close (h : Agree b c) : Agree b.close c.close := by
  cases hb : b.closed with
  | true =>
    rw [BufferedCursor.close_closed hb, StreamingCursor.close_closed (h.closed.symm.trans hb)]
    exact h
  | false =>
    rw [BufferedCursor.close_open hb, StreamingCursor.close_open (h.closed.symm.trans hb)]
    exact ⟨h.rowCount, h.index, rfl, fun _ => rfl, nofun, nofun⟩

theorem hasNextResultSet (h : Agree b c) : b.hasNextResultSet = c.hasNextResultSet := by
  unfold BufferedCursor.hasNextResultSet StreamingCursor.hasNextResultSet
  rw [← h.closed]
  cases hb : b.closed with
  | true => rfl
  | false =>
    have hlen := (h.follow hb).length_eq
    rw [List.length_drop] at hlen
    cases hr : c.remaining with
    | nil =>
      rw [hr, List.length_nil] at hlen
      simpa using Nat.le_of_sub_eq_zero hlen
    | cons s rest =>
      rw [hr, List.length_cons] at hlen
      simp
      omega

/-- A closed cursor has no other result set. -/
theorem nextResultSet_closed (h : Agree b c) (hb : b.closed = true) :
    b.nextResultSet.1 = c.nextResultSet.1 ∧ Agree b.nextResultSet.2 c.nextResultSet.2 := by
  have hc : c.closed = true := h.closed.symm.trans hb
  have hlast : b.hasNextResultSet = false := by
    unfold BufferedCursor.hasNextResultSet
    rw [hb]
    rfl
  rw [BufferedCursor.nextResultSet_last hlast, BufferedCursor.close_closed hb,
    StreamingCursor.nextResultSet_closed hc]
  exact ⟨rfl, h⟩

/-- Behind the last result set both are closed. -/
theorem nextResultSet_last (h : Agree b c) (hb : b.closed = false) (hr : c.remaining = []) :
    b.nextResultSet.1 = c.nextResultSet.1 ∧ Agree b.nextResultSet.2 c.nextResultSet.2 := by
  have hc : c.closed = false := h.closed.symm.trans hb
  have hlast : c.hasNextResultSet = false := by
    unfold StreamingCursor.hasNextResultSet
    rw [hr, hc]
    rfl
  rw [BufferedCursor.nextResultSet_last (h.hasNextResultSet.trans hlast), BufferedCursor.close_open hb,
    StreamingCursor.nextResultSet_last hc hr]
  exact ⟨rfl, h.rowCount, h.index, rfl, fun _ => rfl, nofun, nofun⟩

/-- The next document is the one that the next body delivers, so both begin with the same rows to come. -/
theorem nextResultSet_more (h : Agree b c) (hb : b.closed = false) {s : Segment} {rest : List Segment}
    (hr : c.remaining = s :: rest) :
    b.nextResultSet.1 = c.nextResultSet.1 ∧ Agree b.nextResultSet.2 c.nextResultSet.2 := by
  have hc : c.closed = false := h.closed.symm.trans hb
  have hnext : c.hasNextResultSet = true := by
    unfold StreamingCursor.hasNextResultSet
    rw [hr, hc]
    rfl
  have hfollow := h.follow hb
  rw [hr] at hfollow
  obtain ⟨d, ds, ⟨hd, schema, hschema⟩, hrest, hdrop⟩ := List.forall₂_cons_right_iff.mp hfollow
  have hdocument : b.documents[b.index + 1]? = some d := by
    have hhead := congrArg (·[0]?) hdrop
    simpa using hhead
  have hserves : (c.entered s rest).Serves schema d.rows := StreamingCursor.serves_entered hc hd hschema
  obtain ⟨c', beyond, hstart, howes, hcol, hsame, hcount, -⟩ := hserves.ensureStarted
  rw [BufferedCursor.nextResultSet_ok (h.hasNextResultSet.trans hnext) hdocument hschema,
    StreamingCursor.nextResultSet_more hc hr, hstart]
  refine ⟨rfl, ?_, ?_, ?_, ?_, fun _ => .started howes hcol rfl rfl rfl, fun _ => ?_⟩
  · rw [hcount]
    exact h.rowCount
  · rw [hsame.index]
    exact congrArg (· + 1) h.index
  · rw [hsame.closed]
    exact h.closed
  · intro hclosed
    exact absurd hclosed (ne_true_of_eq_false hb)
  · rw [hsame.params, hsame.remaining]
    have htail := congrArg List.tail hdrop
    rw [List.tail_drop] at htail
    show Follow c.params.maxLineLength (b.documents.drop (b.index + 1 + 1)) rest
    rw [htail]
    exact hrest

theorem nextResultSet (h : Agree b c) :
    b.nextResultSet.1 = c.nextResultSet.1 ∧ Agree b.nextResultSet.2 c.nextResultSet.2 := by
  cases hb : b.closed with
  | true => exact h.nextResultSet_closed hb
  | false =>
    cases hr : c.remaining with
    | nil => exact h.nextResultSet_last hb hr
    | cons s rest => exact h.nextResultSet_more hb hr

/-! ## Any sequence of operations -/

theorem view (h : Agree b c) : Cursor.view b = Cursor.view c := by
  show View.mk b.rowCount b.closed b.hasNextResultSet b.index = View.mk _ _ _ _
  rw [h.rowCount, h.closed, h.hasNextResultSet, h.index]
  rfl

theorem simulation : Cursor.Simulation Agree where
  columns := columns
  next := next
  nextResultSet := nextResultSet
  close := close

theorem trace (h : Agree b c) (ops : List Operation) : Cursor.trace b ops = Cursor.trace c ops :=
  simulation.trace view h ops

end Agree

/-! ## The first result set -/

theorem BufferedCursor.ofDocuments_cons {d : ResultDocument} {ds : List ResultDocument} {s : Schema}
    (he : ∀ d' ∈ d :: ds, d'.errors = []) (hs : Schema.ofHeaders d.columns = .ok s) :
    ofDocuments (d :: ds) = .ok { documents := d :: ds, pending := d.rows, schema := s } := by
  have hfind : (d :: ds).find? (!·.errors.isEmpty) = none := by
    rw [List.find?_eq_none]
    intro d' hd'
    simp [he d' hd']
  unfold ofDocuments
  rw [hfind]
  unfold enter
  simp [hs]

theorem StreamingCursor.ofBodies_cons (b : Body) (bs : List Body) (params : StreamParams) :
    (ofBodies (b :: bs) params).remaining.map (·.body) = bs := by
  apply List.ext_getElem?
  intro i
  simp [ofBodies, Function.comp_def]

theorem follow_of_bodies {limit : Nat} {ds : List ResultDocument} {segments : List Segment}
    (hs : ∀ d ∈ ds, ∃ s, Schema.ofHeaders d.columns = .ok s)
    (hd : List.Forall₂ (Delivers limit) ds (segments.map (·.body))) : Follow limit ds segments := by
  rw [List.forall₂_map_right_iff] at hd
  induction hd with
  | nil => exact .nil
  | @cons d s ds segments hbody hrest ih =>
    exact .cons ⟨hbody, hs d List.mem_cons_self⟩ (ih fun d' hd' => hs d' (List.mem_cons_of_mem d hd'))

section

variable {ds : List ResultDocument} {bodies : List Body} {params : StreamParams}

/-- The cursors agree from the start. -/
theorem agree_ofDocuments (hne : ds ≠ []) (he : ∀ d ∈ ds, d.errors = [])
    (ht : ∀ d ∈ ds, ∀ c ∈ d.columns, ∃ t, Descriptor.parse c.type = .ok t)
    (hd : List.Forall₂ (Delivers params.maxLineLength) ds bodies) :
    ∃ b, BufferedCursor.ofDocuments ds = .ok b ∧ Agree b (.ofBodies bodies params) := by
  cases hd with
  | nil => exact absurd rfl hne
  | @cons d body ds bodies hbody hrest =>
    obtain ⟨schema, hschema⟩ := Schema.exists_ofHeaders_iff.mpr (ht d List.mem_cons_self)
    obtain ⟨hs, hrows, hfault⟩ := hbody.owed hschema
    have hfresh := StreamingCursor.fresh_ofBodies body bodies params
    have hunread : (StreamingCursor.ofBodies (body :: bodies) params).unread =
        body.transcript params.maxLineLength := StreamingCursor.unread_eq hfresh.current
    refine ⟨_, BufferedCursor.ofDocuments_cons he hschema, rfl, rfl, ?_, nofun, fun _ => ?_, fun _ => ?_⟩
    · exact hfresh.opened.symm
    · rw [← hunread] at hs hrows hfault
      exact .fresh hfresh (hunread ▸ hbody.opening.trans hschema) hrows hfault hs
    · have htail : ∀ d' ∈ ds, ∃ s, Schema.ofHeaders d'.columns = .ok s := fun d' hd' =>
        Schema.exists_ofHeaders_iff.mpr (ht d' (List.mem_cons_of_mem d hd'))
      refine follow_of_bodies htail ?_
      rw [StreamingCursor.ofBodies_cons]
      exact hrest

/-- Documents and bodies that deliver them look the same through their cursors, whatever is done. -/
theorem Cursor.trace_eq_of_delivers (hne : ds ≠ []) (he : ∀ d ∈ ds, d.errors = [])
    (ht : ∀ d ∈ ds, ∀ c ∈ d.columns, ∃ t, Descriptor.parse c.type = .ok t)
    (hd : List.Forall₂ (Delivers params.maxLineLength) ds bodies) :
    ∃ b, BufferedCursor.ofDocuments ds = .ok b ∧
      view b = view (StreamingCursor.ofBodies bodies params) ∧
      ∀ ops, trace b ops = trace (StreamingCursor.ofBodies bodies params) ops := by
  obtain ⟨b, hb, hagree⟩ := agree_ofDocuments hne he ht hd
  exact ⟨b, hb, hagree.view, hagree.trace⟩

end

/-- One result set with a row that is too wide, and one without columns. -/
def sampleDocuments : List ResultDocument :=
  [{ columns := [⟨"a", "text null"⟩], rows := [[.string "x"], [.null, .null], [.null]] }, {}]

/-- Bodies that deliver `sampleDocuments`, the rows in three blocks. -/
def sampleBodies : List Body :=
  [⟨[], [.bytes "[\"START\",[[\"a\",\"text null\"]]]\n[\"DATA\",[],[[\"x\"]]]\n[\"DATA\"]\r\n".toUTF8.toList,
      .bytes "[\"DATA\",[],[[null,null],[null]]]\n[\"FINISHED_WITH_SUCCESS\"]".toUTF8.toList]⟩,
    ⟨[], [.bytes "[\"START\"]\n\n[\"FINISHED_WITH_SUCCESS\"]\n".toUTF8.toList]⟩]

theorem delivers_sample :
    List.Forall₂ (Delivers ({} : StreamParams).maxLineLength) sampleDocuments sampleBodies := by
  refine .cons ⟨{ kind := .start, columns := [⟨"a", "text null"⟩] },
    [{ kind := .data, rows := [[.string "x"]] }, { kind := .data },
      { kind := .data, rows := [[.null, .null], [.null]] }],
    { kind := .finishedWithSuccess }, [], ?_, rfl, rfl, by simp, rfl, rfl⟩
    (.cons ⟨{ kind := .start }, [], { kind := .finishedWithSuccess }, [], ?_, rfl, rfl, by simp, rfl, rfl⟩ .nil)
  · with_unfolding_all rfl
  · with_unfolding_all rfl

theorem trace_eq_of_delivers_sample :
    List.Forall₂ (Delivers ({} : StreamParams).maxLineLength) sampleDocuments sampleBodies ∧
      ∃ b, BufferedCursor.ofDocuments sampleDocuments = .ok b ∧
        Cursor.view b = Cursor.view (StreamingCursor.ofBodies sampleBodies) ∧
        ∀ ops, Cursor.trace b ops = Cursor.trace (StreamingCursor.ofBodies sampleBodies) ops := by
  have htypes : ∀ d ∈ sampleDocuments, ∀ c ∈ d.columns, ∃ t, Descriptor.parse c.type = .ok t := by
    simp only [sampleDocuments, List.forall_mem_cons]
    exact ⟨⟨⟨.scalar .text true, by with_unfolding_all rfl⟩, nofun⟩, nofun, nofun⟩
  exact ⟨delivers_sample, Cursor.trace_eq_of_delivers nofun (by simp [sampleDocuments]) htypes delivers_sample⟩

end Rowset
