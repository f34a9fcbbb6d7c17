import Rowset.Proofs.Cursor.Lifecycle

/-!
# Every result set is visited once

Going on from result set to result set leads through all of them in their order, each of them once, even if some of
them cannot be entered.  Whether another one follows can be told beforehand.  The main statement is
`Cursor.navigation`.
-/

namespace Rowset

namespace Cursor

variable {σ : Type} [Cursor σ]

/-- The cursor after `k` calls of `nextResultSet`, whatever they answered. -/
def advance : Nat → σ → σ
  | 0, c => c
  | k + 1, c => advance k (nextResultSet c).2

/-- How a cursor over `n` result sets goes on.  From an open cursor, the calls before the one that has nothing to go
on to lead through the numbers up to `n`. -/
structure Navigates (n : Nat) (c : σ) : Prop where
  more : hasNextResultSet c = true →
    ((nextResultSet c).1 = .ok true ∨ ∃ e, (nextResultSet c).1 = .error e) ∧
      isClosed (nextResultSet c).2 = false ∧ index (nextResultSet c).2 = index c + 1
  last : hasNextResultSet c = false →
    (nextResultSet c).1 = .ok false ∧ isClosed (nextResultSet c).2 = true ∧ index (nextResultSet c).2 = index c
  bounded : isClosed c = false → index c < n
  visits : isClosed c = false → ∀ k, index c + k < n →
    isClosed (advance k c) = false ∧ index (advance k c) = index c + k ∧
      ((nextResultSet (advance k c)).1 = .ok false ↔ index c + k + 1 = n)

/-- Whether a result set follows can be told by the number of the current one. -/
def Predicts (n : Nat) (c : σ) : Prop :=
  isClosed c = false → (hasNextResultSet c = true ↔ index c + 1 < n)

namespace Lawful

variable [Lawful σ] {P : σ → Prop} {c : σ} {n : Nat}

theorem index_close (c : σ) : index (close c) = index c :=
  congrArg View.index (view_close c)

theorem opened_of_hasNextResultSet (h : hasNextResultSet c = true) : isClosed c = false := by
  cases hc : isClosed c with
  | false => rfl
  | true => rw [(of_closed hc).1] at h; cases h

/-- A cursor does not go back. -/
theorem le_index_invariant (i : Nat) : Invariant fun c : σ => i ≤ index c where
  columns {c} h := by
    rw [show index (columns c).2 = index c from congrArg View.index (view_columns c)]
    exact h
  next {c} h := by
    rw [show index (next c).2 = index c from congrArg View.index (view_next c)]
    exact h
  nextResultSet {c} h := by
    cases hmore : hasNextResultSet c with
    | false =>
      rw [nextResultSet_last hmore, index_close]
      exact h
    | true =>
      rw [(nextResultSet_more hmore).2.2.2]
      exact Nat.le_succ_of_le h
  close {c} h := by
    rw [index_close]
    exact h

/-- The number of the current result set stays below `n` as long as the cursor is open. -/
theorem bounded_invariant (hP : Invariant P) (hn : ∀ {c : σ}, P c → Predicts n c) :
    Invariant fun c : σ => P c ∧ (isClosed c = false → index c < n) where
  columns {c} h := by
    refine ⟨hP.columns h.1, fun hopen => ?_⟩
    rw [show index (columns c).2 = index c from congrArg View.index (view_columns c)]
    exact h.2 ((isClosed_columns c).symm.trans hopen)
  next {c} h := by
    refine ⟨hP.next h.1, fun hopen => ?_⟩
    rw [show index (next c).2 = index c from congrArg View.index (view_next c)]
    exact h.2 ((isClosed_next c).symm.trans hopen)
  nextResultSet {c} h := by
    refine ⟨hP.nextResultSet h.1, fun hopen => ?_⟩
    cases hmore : hasNextResultSet c with
    | false =>
      rw [nextResultSet_last hmore, isClosed_close] at hopen
      cases hopen
    | true =>
      rw [(nextResultSet_more hmore).2.2.2]
      exact (hn h.1 (opened_of_hasNextResultSet hmore)).mp hmore
  close {c} h := by
    refine ⟨hP.close h.1, fun hopen => ?_⟩
    rw [isClosed_close] at hopen
    cases hopen

theorem answer_more (h : hasNextResultSet c = true) :
    (nextResultSet c).1 = .ok true ∨ ∃ e, (nextResultSet c).1 = .error e := by
  have hanswer := (nextResultSet_more h).1
  match hgo : (nextResultSet c).1 with
  | .ok true => exact .inl rfl
  | .ok false => exact absurd hgo hanswer
  | .error e => exact .inr ⟨e, rfl⟩

/-- Each call raises the number by one until there is nothing to go on to. -/
theorem visits (hP : Invariant P) (hn : ∀ {c : σ}, P c → Predicts n c) (hc : P c) (hopen : isClosed c = false)
    (k : Nat) (hk : index c + k < n) :
    isClosed (advance k c) = false ∧ index (advance k c) = index c + k ∧
      ((nextResultSet (advance k c)).1 = .ok false ↔ index c + k + 1 = n) := by
  have hpredicts := hn hc hopen
  induction k generalizing c with
  | zero =>
    refine ⟨hopen, rfl, ?_⟩
    show (nextResultSet c).1 = .ok false ↔ index c + 1 = n
    cases hmore : hasNextResultSet c with
    | false =>
      rw [nextResultSet_last hmore]
      have hlast : ¬ index c + 1 < n := by rw [← hpredicts, hmore]; decide
      exact iff_of_true rfl (by omega)
    | true =>
      have hlt := hpredicts.mp hmore
      exact iff_of_false (nextResultSet_more hmore).1 (by omega)
  | succ k ih =>
    obtain ⟨-, -, hopen', hindex⟩ := nextResultSet_more (hpredicts.mpr (by omega : index c + 1 < n))
    have hc' := hP.nextResultSet hc
    have hrest := ih hc' hopen' (by omega) (hn hc' hopen')
    rw [hindex, show index c + 1 + k = index c + (k + 1) by omega] at hrest
    exact hrest

theorem navigates (hP : Invariant P) (hn : ∀ {c : σ}, P c → Predicts n c) (hc : P c)
    (hbounded : isClosed c = false → index c < n) : Navigates n c where
  more hmore := ⟨answer_more hmore, (nextResultSet_more hmore).2.2⟩
  last hlast := by
    rw [nextResultSet_last hlast]
    exact ⟨rfl, isClosed_close c, index_close c⟩
  bounded := hbounded
  visits hopen k hk := visits hP hn hc hopen k hk

/-- A cursor that starts with the first of `n` result sets goes on like that after any run. -/
theorem navigates_run (hP : Invariant P) (hn : ∀ {c : σ}, P c → Predicts n c) (hc : P c)
    (hbounded : isClosed c = false → index c < n) (ops : List Operation) : Navigates n (run c ops) := by
  obtain ⟨hrun, hbelow⟩ := (bounded_invariant hP hn).run ⟨hc, hbounded⟩ ops
  exact navigates hP hn hrun hbelow

end Lawful

end Cursor

theorem StreamingCursor.Queued.predicts {segments : List Segment} {params : StreamParams} {c : StreamingCursor}
    (h : Queued segments params c) : Cursor.Predicts segments.length c := by
  intro hopen
  have hc : c.closed = false := hopen
  show (!c.closed && !c.remaining.isEmpty) = true ↔ c.index + 1 < segments.length
  rw [hc, h.remaining hc]
  simp

theorem BufferedCursor.Holds.predicts {ds : List ResultDocument} {b : BufferedCursor} (h : Holds ds b) :
    Cursor.Predicts ds.length b := by
  intro hopen
  have hb : b.closed = false := hopen
  show (!b.closed && decide (b.index + 1 < b.documents.length)) = true ↔ b.index + 1 < ds.length
  rw [hb, h hb]
  simp

/-- The current document is there. -/
def BufferedCursor.InBounds (b : BufferedCursor) : Prop :=
  b.index < b.documents.length

namespace Cursor

/-- A streaming cursor begins at the first of its bodies and goes through all of them. -/
theorem navigates_ofBodies (bodies : List Body) (params : StreamParams) (hne : bodies ≠ []) :
    isClosed (StreamingCursor.ofBodies bodies params) = false ∧ index (StreamingCursor.ofBodies bodies params) = 0 ∧
      ∀ ops, Navigates bodies.length (run (StreamingCursor.ofBodies bodies params) ops) := by
  obtain ⟨body, rest, rfl⟩ := List.exists_cons_of_ne_nil hne
  have hopen := (StreamingCursor.fresh_ofBodies body rest params).opened
  have hlength : (StreamingCursor.segmentsOf (body :: rest)).length = (body :: rest).length :=
    List.length_mapIdx
  refine ⟨hopen, rfl, ?_⟩
  rw [← hlength]
  refine Lawful.navigates_run (StreamingCursor.queued_invariant _ params) StreamingCursor.Queued.predicts
    (StreamingCursor.queued_ofBodies _ params) fun _ => ?_
  rw [hlength]
  exact Nat.succ_pos rest.length

/-- A buffered cursor begins at the first of its documents, of which there is one even in an empty response. -/
theorem navigates_ofDocuments {ds : List ResultDocument} {b : BufferedCursor}
    (hb : BufferedCursor.ofDocuments ds = .ok b) :
    isClosed b = false ∧ index b = 0 ∧ ∀ ops, Navigates (max 1 ds.length) (run b ops) := by
  obtain ⟨first, rest, s, hdocuments, -, rfl⟩ := BufferedCursor.ofDocuments_ok hb
  have hlength : (first :: rest).length = max 1 ds.length := by
    rw [← hdocuments]
    cases ds <;> simp
  refine ⟨rfl, rfl, ?_⟩
  rw [← hlength]
  exact Lawful.navigates_run (BufferedCursor.holds_invariant (first :: rest)) BufferedCursor.Holds.predicts
    (fun _ => rfl) fun _ => Nat.succ_pos rest.length

/-- No document is looked up that is not there: not the current one, and not the next one where another is said to
follow. -/
theorem inBounds_run {ds : List ResultDocument} {b : BufferedCursor}
    (hb : BufferedCursor.ofDocuments ds = .ok b) (ops : List Operation) :
    (isClosed (run b ops) = false → (run b ops).InBounds) ∧
      (hasNextResultSet (run b ops) = true →
        BufferedCursor.InBounds { run b ops with index := (run b ops).index + 1 }) := by
  obtain ⟨first, rest, s, -, -, hstart⟩ := BufferedCursor.ofDocuments_ok hb
  have hbegins : BufferedCursor.Holds (first :: rest) b ∧ (isClosed b = false → index b < (first :: rest).length) := by
    rw [hstart]
    exact ⟨fun _ => rfl, fun _ => Nat.succ_pos rest.length⟩
  obtain ⟨hholds, hbelow⟩ := (Lawful.bounded_invariant (BufferedCursor.holds_invariant (first :: rest))
    BufferedCursor.Holds.predicts).run hbegins ops
  have hin : ∀ i, isClosed (run b ops) = false → i < (first :: rest).length → i < (run b ops).documents.length :=
    fun i hopen hi => (hholds hopen).symm ▸ hi
  refine ⟨fun hopen => hin _ hopen (hbelow hopen), fun hmore => ?_⟩
  have hopen := Lawful.opened_of_hasNextResultSet hmore
  exact hin _ hopen ((hholds.predicts hopen).mp hmore)

/-- A cursor over one result set or more starts at the first one and goes through all of them, whatever is done in
between and whether or not they can be entered.  A cursor over documents looks up none that is not there. -/
theorem navigation :
    (∀ bodies params, bodies ≠ [] →
      isClosed (StreamingCursor.ofBodies bodies params) = false ∧
        index (StreamingCursor.ofBodies bodies params) = 0 ∧
        ∀ ops, Navigates bodies.length (run (StreamingCursor.ofBodies bodies params) ops)) ∧
    (∀ ds b, BufferedCursor.ofDocuments ds = .ok b →
      isClosed b = false ∧ index b = 0 ∧ ∀ ops, Navigates (max 1 ds.length) (run b ops)) ∧
    (∀ ds : List ResultDocument,
      BufferedCursor.InBounds { documents := if ds.isEmpty then [{}] else ds }) ∧
    ∀ ds b, BufferedCursor.ofDocuments ds = .ok b → ∀ ops,
      (isClosed (run b ops) = false → (run b ops).InBounds) ∧
        (hasNextResultSet (run b ops) = true →
          BufferedCursor.InBounds { run b ops with index := (run b ops).index + 1 }) := by
  refine ⟨navigates_ofBodies, fun _ _ hb => navigates_ofDocuments hb, ?_, fun _ _ hb => inBounds_run hb⟩
  intro ds
  cases ds <;> exact Nat.succ_pos _

theorem navigation_sample :
    BufferedCursor.ofDocuments faultyCursor.documents = .ok faultyCursor ∧
      hasNextResultSet (run faultyCursor [.next]) = true ∧
      isClosed (nextResultSet (run faultyCursor [.next])).2 = false ∧
      index (nextResultSet (run faultyCursor [.next])).2 = 1 ∧
      ([StreamingCursor.sampleBody] : List Body) ≠ [] ∧
      Navigates 1 (run (StreamingCursor.ofBodies [StreamingCursor.sampleBody]) [.fetchAll, .close]) := by
  have hb : BufferedCursor.ofDocuments faultyCursor.documents = .ok faultyCursor := by with_unfolding_all rfl
  have hmore : hasNextResultSet (run faultyCursor [.next]) = true := by decide +kernel
  obtain ⟨-, hopen, hindex⟩ := ((navigation.2.1 _ _ hb).2.2 [.next]).more hmore
  refine ⟨hb, hmore, hopen, hindex.trans ?_, List.cons_ne_nil _ _, ?_⟩
  · decide +kernel
  · exact (navigation.1 [StreamingCursor.sampleBody] {} (List.cons_ne_nil _ _)).2.2 _

end Cursor

end Rowset
