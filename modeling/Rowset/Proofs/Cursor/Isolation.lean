import Rowset.Proofs.Cursor.Likeness

/-!
# Result sets are isolated from one another

What a cursor does at a result set depends on that result set and those behind it.  Two cursors that went through
different result sets in different ways, and are now brought to the same place, go on alike; only the rows that
they delivered so far add up to different numbers.  The main statement is `Cursor.isolation`.

A cursor that goes on takes its result sets from a queue.  `StreamingCursor.Queued` and `BufferedCursor.Holds` say
where in the queue it is, whatever was done with it before.
-/

namespace Rowset

namespace Cursor

variable {σ : Type} [Cursor σ]

/-- Going on brings the cursor to result set number `k`. -/
def GoesTo (k : Nat) (c : σ) : Prop :=
  index c + 1 = k ∧ index (nextResultSet c).2 = k

/-- Going on answers the same for both cursors, and behind it they cannot be told apart by what `sight` shows.  The
rows delivered differ by what they differed by before. -/
structure GoOnAlike {α : Type} (sight : σ → α) (c d : σ) : Prop where
  answer : (nextResultSet c).1 = (nextResultSet d).1
  after : Indistinguishable sight (nextResultSet c).2 (nextResultSet d).2
  rows : ∀ ops, rowCount (run (nextResultSet c).2 ops) + rowCount d =
    rowCount (run (nextResultSet d).2 ops) + rowCount c

end Cursor

/-! ## Streaming cursors -/

namespace StreamingCursor

variable {c c' : StreamingCursor} {segments : List Segment} {params : StreamParams} {k : Nat}

/-- A cursor that is brought to another result set was open, and the result set was the next in the queue. -/
theorem remaining_of_goesTo (h : Queued segments params c) (hk : Cursor.GoesTo k c) :
    c.closed = false ∧ ∃ s rest, c.remaining = s :: rest ∧ segments.drop k = s :: rest := by
  obtain ⟨hindex, hafter⟩ := hk
  have hmoved : c.nextResultSet.2.index = c.index + 1 := hafter.trans hindex.symm
  cases hc : c.closed with
  | true =>
    rw [nextResultSet_closed hc] at hmoved
    simp at hmoved
  | false =>
    cases hr : c.remaining with
    | nil =>
      rw [nextResultSet_last hc hr] at hmoved
      exact absurd hmoved (Nat.ne_of_lt (Nat.lt_succ_self c.index))
    | cons s rest =>
      refine ⟨rfl, s, rest, rfl, ?_⟩
      rw [← hindex, ← hr]
      exact (h.remaining hc).symm

theorem drop_segmentsOf (before after : List Body) :
    (segmentsOf (before ++ after)).drop before.length = after.mapIdx fun i b => ⟨i + before.length, b⟩ := by
  unfold segmentsOf
  rw [List.mapIdx_append, List.drop_left' (by simp)]

/-- Cursors with the same queue go on alike. -/
theorem goOnAlike (h : Queued segments params c) {segments' : List Segment} (h' : Queued segments' params c')
    (hqueue : segments.drop k = segments'.drop k) (hk : Cursor.GoesTo k c) (hk' : Cursor.GoesTo k c') :
    Cursor.GoOnAlike sight c c' := by
  obtain ⟨hc, s, rest, hr, hdrop⟩ := remaining_of_goesTo h hk
  obtain ⟨hc', s', rest', hr', hdrop'⟩ := remaining_of_goesTo h' hk'
  obtain ⟨rfl, rfl⟩ : s = s' ∧ rest = rest' := List.cons.inj (hdrop.symm.trans (hqueue.trans hdrop'))
  -- What the histories have added up to is where the tallies start from; all else of them is left behind.
  have hentered : Alike c.leave.tally c'.leave.tally (c.entered s rest) (c'.entered s rest) := by
    refine Alike.entered ?_ ?_ (hc'.trans hc.symm) (.refl _ s) (List.forall₂_same.mpr fun s _ => .refl _ s) (.refl _ _)
    · rw [h.params, h'.params]
    · exact Nat.succ.inj (hk'.1.trans hk.1.symm)
  obtain ⟨hanswer, hafter⟩ := hentered.ensureStarted
  have hgo : c.nextResultSet.1 = c'.nextResultSet.1 ∧
      Alike c.leave.tally c'.leave.tally c.nextResultSet.2 c'.nextResultSet.2 := by
    rw [nextResultSet_more hc hr, nextResultSet_more hc' hr', hanswer]
    exact ⟨rfl, hafter⟩
  have hsimulation := Alike.simulation c.leave.tally c'.leave.tally
  exact
    { answer := hgo.1
      after := hsimulation.indistinguishable Alike.sight Alike.sight_release hgo.2
      rows := fun ops => (hsimulation.run hgo.2 ops).tally.rows_add }

end StreamingCursor

/-! ## Cursors over documents -/

namespace BufferedCursor

variable {b b' : BufferedCursor} {ds : List ResultDocument} {n n' k : Nat}

/-- What can be seen of a cursor over documents, apart from the number of rows that it delivered. -/
structure Sight where
  closed : Bool
  hasNextResultSet : Bool
  index : Nat
  statistics : Option Statistics
  count : Nat

def sight (b : BufferedCursor) : Sight :=
  ⟨b.closed, b.hasNextResultSet, b.index, b.statistics, b.count⟩

/-- Two cursors with the same future.  They have delivered `n` and `n'` rows more than the same number. -/
structure Alike (n n' : Nat) (b b' : BufferedCursor) : Prop where
  index : b'.index = b.index
  count : b'.documents.length = b.documents.length
  documents : b'.documents.drop b.index = b.documents.drop b.index
  pending : b'.pending = b.pending
  schema : b'.schema = b.schema
  closed : b'.closed = b.closed
  rowCount : b.rowCount + n' = b'.rowCount + n

namespace Alike

/-- The documents from the current one on are the same. -/
theorem document (h : Alike n n' b b') (i : Nat) : b'.documents[b.index + i]? = b.documents[b.index + i]? := by
  have hdrop := congrArg (·[i]?) h.documents
  simpa using hdrop

theorem columns (h : Alike n n' b b') : b.columns.1 = b'.columns.1 ∧ Alike n n' b.columns.2 b'.columns.2 := by
  unfold BufferedCursor.columns
  rw [h.closed, h.schema]
  by_cases hb : b.closed = true
  · rw [if_pos hb, if_pos hb]
    exact ⟨rfl, h⟩
  · rw [if_neg hb, if_neg hb]
    exact ⟨rfl, h⟩

theorem next (h : Alike n n' b b') : b.next.1 = b'.next.1 ∧ Alike n n' b.next.2 b'.next.2 := by
  cases hb : b.closed with
  | true =>
    rw [next_closed hb, next_closed (h.closed.trans hb)]
    exact ⟨rfl, h⟩
  | false =>
    rw [next_open hb, next_open (h.closed.trans hb), h.schema, h.pending]
    have hrows := h.rowCount
    exact
      ⟨rfl, { index := h.index, count := h.count, documents := h.documents, pending := rfl, schema := rfl
              closed := h.closed, rowCount := by dsimp only; omega }⟩

theorem close (h : Alike n n' b b') : Alike n n' b.close b'.close := by
  cases hb : b.closed with
  | true =>
    rw [close_closed hb, close_closed (h.closed.trans hb)]
    exact h
  | false =>
    rw [close_open hb, close_open (h.closed.trans hb)]
    exact
      { index := h.index, count := rfl, documents := rfl, pending := rfl, schema := rfl, closed := rfl
        rowCount := h.rowCount }

theorem hasNextResultSet (h : Alike n n' b b') : b'.hasNextResultSet = b.hasNextResultSet := by
  unfold BufferedCursor.hasNextResultSet
  rw [h.closed, h.index, h.count]

/-- Cursors that may differ in all that belongs to their current result sets are alike at the next one. -/
theorem more (hmore : b.hasNextResultSet = true) (hmore' : b'.hasNextResultSet = true)
    (hindex : b'.index = b.index) (hcount : b'.documents.length = b.documents.length)
    (hdocuments : b'.documents.drop (b.index + 1) = b.documents.drop (b.index + 1))
    (hclosed : b'.closed = b.closed) (hrows : b.rowCount + n' = b'.rowCount + n) :
    b.nextResultSet.1 = b'.nextResultSet.1 ∧ Alike n n' b.nextResultSet.2 b'.nextResultSet.2 := by
  have hlt : b.index + 1 < b.documents.length := by
    unfold BufferedCursor.hasNextResultSet at hmore
    simpa using (Bool.and_eq_true_iff.mp hmore).2
  have hd : b.documents[b.index + 1]? = some b.documents[b.index + 1] := List.getElem?_eq_getElem hlt
  have hd' : b'.documents[b'.index + 1]? = some b.documents[b.index + 1] := by
    have hfirst := congrArg (·[0]?) hdocuments
    rw [hindex, ← hd]
    simpa using hfirst
  rw [nextResultSet_more hmore hd, nextResultSet_more hmore' hd']
  cases Schema.ofHeaders b.documents[b.index + 1].columns with
  | ok s =>
    exact ⟨rfl, { index := congrArg (· + 1) hindex, count := hcount, documents := hdocuments, pending := rfl
                  schema := rfl, closed := hclosed, rowCount := hrows }⟩
  | error e =>
    exact ⟨rfl, { index := congrArg (· + 1) hindex, count := hcount, documents := hdocuments, pending := rfl
                  schema := rfl, closed := hclosed, rowCount := hrows }⟩

theorem nextResultSet (h : Alike n n' b b') :
    b.nextResultSet.1 = b'.nextResultSet.1 ∧ Alike n n' b.nextResultSet.2 b'.nextResultSet.2 := by
  cases hmore : b.hasNextResultSet with
  | false =>
    rw [nextResultSet_last hmore, nextResultSet_last (h.hasNextResultSet.trans hmore)]
    exact ⟨rfl, h.close⟩
  | true =>
    have hdocuments := congrArg List.tail h.documents
    rw [List.tail_drop, List.tail_drop] at hdocuments
    exact more hmore (h.hasNextResultSet.trans hmore) h.index h.count hdocuments h.closed h.rowCount

theorem simulation (n n' : Nat) : Cursor.Simulation (Alike n n') where
  columns := columns
  next := next
  nextResultSet := nextResultSet
  close := close

theorem sight (h : Alike n n' b b') : b.sight = b'.sight := by
  have hstatistics : b'.statistics = b.statistics := by
    unfold BufferedCursor.statistics
    rw [h.index]
    exact congrArg (·.bind (·.statistics)) (h.document 0)
  have hcount : b'.count = b.count := h.count
  unfold BufferedCursor.sight
  rw [h.closed, h.hasNextResultSet, h.index, hstatistics, hcount]

end Alike

/-- A cursor that is brought to another result set was open, and the result set was there. -/
theorem hasNextResultSet_of_goesTo (hk : Cursor.GoesTo k b) : b.hasNextResultSet = true := by
  obtain ⟨hindex, hafter⟩ := hk
  have hmoved : b.nextResultSet.2.index = b.index + 1 := hafter.trans hindex.symm
  cases hmore : b.hasNextResultSet with
  | true => rfl
  | false =>
    have hstays : b.close.index = b.index := by
      unfold close
      split <;> rfl
    rw [nextResultSet_last hmore, hstays] at hmoved
    exact absurd hmoved (Nat.ne_of_lt (Nat.lt_succ_self b.index))

/-- Cursors with the same documents from number `k` on go on alike. -/
theorem goOnAlike {ds' : List ResultDocument} (h : Holds ds b) (h' : Holds ds' b') (hcount : ds'.length = ds.length)
    (hdocuments : ds'.drop k = ds.drop k) (hk : Cursor.GoesTo k b) (hk' : Cursor.GoesTo k b') :
    Cursor.GoOnAlike sight b b' := by
  have hmore := hasNextResultSet_of_goesTo hk
  have hmore' := hasNextResultSet_of_goesTo hk'
  have hopen := (document_of_hasNextResultSet hmore).1
  have hopen' := (document_of_hasNextResultSet hmore').1
  have hindex : b.index + 1 = k := hk.1
  have hindex' : b'.index + 1 = k := hk'.1
  obtain ⟨hanswer, hafter⟩ : b.nextResultSet.1 = b'.nextResultSet.1 ∧
      Alike b.rowCount b'.rowCount b.nextResultSet.2 b'.nextResultSet.2 := by
    refine Alike.more hmore hmore' (Nat.succ.inj (hindex'.trans hindex.symm)) ?_ ?_ (hopen'.trans hopen.symm)
      (Nat.add_comm _ _)
    · rw [h hopen, h' hopen', hcount]
    · rw [h hopen, h' hopen', hindex, hdocuments]
  have hsimulation := Alike.simulation b.rowCount b'.rowCount
  exact
    { answer := hanswer
      after := hsimulation.indistinguishable Alike.sight Alike.sight hafter
      rows := fun ops => (hsimulation.run hafter ops).rowCount }

end BufferedCursor

/-! ## Both cursors -/

/-- Two cursors, over result sets that are the same from some number on and may differ before it, each with a
history of its own, go on alike once they are brought to that number. -/
theorem Cursor.isolation :
    (∀ params before before' after ops ops', before'.length = before.length →
      GoesTo before.length (run (StreamingCursor.ofBodies (before ++ after) params) ops) →
      GoesTo before.length (run (StreamingCursor.ofBodies (before' ++ after) params) ops') →
      GoOnAlike StreamingCursor.sight (run (StreamingCursor.ofBodies (before ++ after) params) ops)
        (run (StreamingCursor.ofBodies (before' ++ after) params) ops')) ∧
    ∀ before before' after b b' ops ops', before'.length = before.length →
      BufferedCursor.ofDocuments (before ++ after) = .ok b → BufferedCursor.ofDocuments (before' ++ after) = .ok b' →
      GoesTo before.length (run b ops) → GoesTo before.length (run b' ops') →
      GoOnAlike BufferedCursor.sight (run b ops) (run b' ops') := by
  constructor
  · intro params before before' after ops ops' hlength hk hk'
    have hqueued := (StreamingCursor.queued_invariant _ params).run
      (StreamingCursor.queued_ofBodies (before ++ after) params) ops
    have hqueued' := (StreamingCursor.queued_invariant _ params).run
      (StreamingCursor.queued_ofBodies (before' ++ after) params) ops'
    refine StreamingCursor.goOnAlike hqueued hqueued' ?_ hk hk'
    rw [StreamingCursor.drop_segmentsOf, ← hlength, StreamingCursor.drop_segmentsOf]
  · intro before before' after b b' ops ops' hlength hb hb' hk hk'
    -- Without documents there is one empty result set, and nothing to go on to.
    have hnonempty : before ++ after ≠ [] := by
      rintro h
      obtain ⟨rfl, -⟩ := List.append_eq_nil_iff.mp h
      exact Nat.succ_ne_zero _ hk.1
    have hnonempty' : before' ++ after ≠ [] := by
      rintro h
      rw [List.append_eq_nil_iff, ← List.length_eq_zero_iff, hlength] at h
      exact Nat.succ_ne_zero _ (hk.1.trans h.1)
    have hholds := (BufferedCursor.holds_invariant _).run (BufferedCursor.holds_ofDocuments hb hnonempty) ops
    have hholds' := (BufferedCursor.holds_invariant _).run (BufferedCursor.holds_ofDocuments hb' hnonempty') ops'
    refine BufferedCursor.goOnAlike hholds hholds' ?_ ?_ hk hk'
    · rw [List.length_append, List.length_append, hlength]
    · rw [List.drop_left' rfl, List.drop_left' hlength]

/-! ## Histories that differ -/

/-- A body with a row that fails, and others behind it. -/
def unreadBody : Body :=
  ⟨[], [.bytes "[\"START\",[[\"b\",\"text\"]]]\n[\"DATA\",[],[[\"x\"],[1],[\"y\"]]]\n".toUTF8.toList]⟩

/-- A body that cannot be read to its end. -/
def brokenBody : Body :=
  ⟨[], [.bytes "[\"START\"".toUTF8.toList, .failure "reset"]⟩

/-- A cursor at a document with a row that fails, another document behind it. -/
def unreadCursor : BufferedCursor :=
  let rows := [[.string "x"], [.null], [.string "y"]]
  { documents := [{ columns := [⟨"b", "text"⟩], rows := rows }, { columns := [⟨"a", "int"⟩], rows := [[.null]] }]
    pending := rows
    schema := ⟨[⟨"b", .scalar .text false, "text"⟩]⟩ }

/-- A cursor at a document without rows, the same behind it. -/
def emptyCursor : BufferedCursor :=
  { documents := [{}, { columns := [⟨"a", "int"⟩], rows := [[.null]] }] }

theorem isolation_sample :
    (Cursor.GoesTo 1 (Cursor.run (StreamingCursor.ofBodies [unreadBody, StreamingCursor.sampleBody]) [.next, .next]) ∧
      Cursor.GoesTo 1
        (Cursor.run (StreamingCursor.ofBodies [brokenBody, StreamingCursor.sampleBody]) [.columns, .fetchAll]) ∧
      Cursor.GoOnAlike StreamingCursor.sight
        (Cursor.run (StreamingCursor.ofBodies [unreadBody, StreamingCursor.sampleBody]) [.next, .next])
        (Cursor.run (StreamingCursor.ofBodies [brokenBody, StreamingCursor.sampleBody]) [.columns, .fetchAll])) ∧
    BufferedCursor.ofDocuments unreadCursor.documents = .ok unreadCursor ∧
      BufferedCursor.ofDocuments emptyCursor.documents = .ok emptyCursor ∧
      Cursor.GoesTo 1 (Cursor.run unreadCursor [.next, .next]) ∧ Cursor.GoesTo 1 (Cursor.run emptyCursor [.columns]) ∧
      Cursor.GoOnAlike BufferedCursor.sight (Cursor.run unreadCursor [.next, .next])
        (Cursor.run emptyCursor [.columns]) := by
  have hunread : Cursor.GoesTo 1
      (Cursor.run (StreamingCursor.ofBodies [unreadBody, StreamingCursor.sampleBody]) [.next, .next]) :=
    ⟨by decide +kernel, by decide +kernel⟩
  have hbroken : Cursor.GoesTo 1
      (Cursor.run (StreamingCursor.ofBodies [brokenBody, StreamingCursor.sampleBody]) [.columns, .fetchAll]) :=
    ⟨by decide +kernel, by decide +kernel⟩
  refine ⟨⟨hunread, hbroken, Cursor.isolation.1 {} [unreadBody] [brokenBody] [StreamingCursor.sampleBody] _ _ rfl
    hunread hbroken⟩, ?_⟩
  have hb : BufferedCursor.ofDocuments unreadCursor.documents = .ok unreadCursor := by with_unfolding_all rfl
  have hb' : BufferedCursor.ofDocuments emptyCursor.documents = .ok emptyCursor := by with_unfolding_all rfl
  have hrows : Cursor.GoesTo 1 (Cursor.run unreadCursor [.next, .next]) := ⟨by decide +kernel, by decide +kernel⟩
  have hnone : Cursor.GoesTo 1 (Cursor.run emptyCursor [.columns]) := ⟨by decide +kernel, by decide +kernel⟩
  exact ⟨hb, hb', hrows, hnone,
    Cursor.isolation.2 [_] [{}] [_] unreadCursor emptyCursor _ _ (by rfl) hb hb' hrows hnone⟩

end Rowset
