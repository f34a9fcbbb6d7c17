import Rowset.Proofs.Cursor.Laws
import Rowset.Proofs.Cursor.Log

/-!
# How cursors are closed and what they count

A cursor is closed because it was asked to, or because it was to go on behind its last result set; no error closes
it.  A closed cursor stays as it is, whatever is done.  All along, it counts the rows that `next` gives, no matter
who asks for them.  The main statement is `Cursor.lifecycle`.
-/

namespace Rowset

open StreamingCursor (delivered)

namespace Cursor

variable {σ : Type} [Cursor σ]

/-- A closed cursor, which nothing changes any more. -/
structure Frozen (c : σ) : Prop where
  closed : isClosed c = true
  hasNextResultSet : hasNextResultSet c = false
  columns : columns c = (.error .closed, c)
  next : next c = (.ok none, c)
  nextResultSet : nextResultSet c = (.ok false, c)
  close : close c = c

/-- What holds of every run of a cursor that begins as `start`. -/
structure Accountable (start : σ) : Prop where
  /-- An operation closes the cursor if it is to do so, or if it finds no result set to go on to. -/
  closes : ∀ ops op, isClosed (run start ops) = false →
    (isClosed (perform (run start ops) op).2 = true ↔
      op = .close ∨ (perform (run start ops) op).1 = .nextResultSet (.ok false))
  frozen : ∀ ops, isClosed (run start ops) = true →
    Frozen (run start ops) ∧ ∀ more, run start (ops ++ more) = run start ops
  /-- The number of rows is that of the rows that `next` gave. -/
  counts : ∀ ops, rowCount (run start ops) = (run (logged start) ops).rows.length
  next : ∀ ops, rowCount (next (run start ops)).2 = rowCount (run start ops) + delivered (next (run start ops)).1
  columns : ∀ ops, rowCount (columns (run start ops)).2 = rowCount (run start ops)
  nextResultSet : ∀ ops, rowCount (nextResultSet (run start ops)).2 = rowCount (run start ops)
  close : ∀ ops, rowCount (close (run start ops)) = rowCount (run start ops)

/-- Nothing that is done with it changes it. -/
theorem Frozen.perform {c : σ} (h : Frozen c) (op : Operation) : (Cursor.perform c op).2 = c := by
  cases op with
  | columns => exact congrArg Prod.snd h.columns
  | next => exact congrArg Prod.snd h.next
  | nextInto dest =>
    show (Cursor.nextInto c dest).2 = c
    rw [nextInto_eq, h.next]
  | fetchAll =>
    show (fetch (rowBound c + 1) [] c).2 = c
    rw [fetch_succ, h.next]
  | nextResultSet => exact congrArg Prod.snd h.nextResultSet
  | close => exact h.close

theorem Frozen.run {c : σ} (h : Frozen c) (ops : List Operation) : Cursor.run c ops = c := by
  induction ops with
  | nil => rfl
  | cons op ops ih =>
    show Cursor.run (Cursor.perform c op).2 ops = c
    rw [h.perform, ih]

theorem run_append (c : σ) (ops more : List Operation) : run c (ops ++ more) = run (run c ops) more := by
  induction ops generalizing c with
  | nil => rfl
  | cons op ops ih => exact ih (perform c op).2

namespace Lawful

variable [Lawful σ] {c : σ}

/-! ## Closed cursors -/

theorem frozen (h : isClosed c = true) : Frozen c := by
  obtain ⟨hlast, hcolumns, hnext, hclose⟩ := of_closed h
  refine ⟨h, hlast, hcolumns, hnext, ?_, hclose⟩
  rw [nextResultSet_last hlast, hclose]

/-! ## What closes a cursor -/

theorem isClosed_columns (c : σ) : isClosed (columns c).2 = isClosed c :=
  congrArg View.closed (view_columns c)

theorem isClosed_next (c : σ) : isClosed (next c).2 = isClosed c :=
  congrArg View.closed (view_next c)

theorem isClosed_close (c : σ) : isClosed (close c) = true :=
  congrArg View.closed (view_close c)

/-- Going on closes a cursor if and only if nothing follows. -/
theorem isClosed_nextResultSet (c : σ) : isClosed (nextResultSet c).2 = true ↔ (nextResultSet c).1 = .ok false := by
  cases hmore : hasNextResultSet c with
  | false =>
    rw [nextResultSet_last hmore]
    exact iff_of_true (isClosed_close c) rfl
  | true =>
    obtain ⟨hanswer, -, hopen, -⟩ := nextResultSet_more hmore
    exact iff_of_false (ne_true_of_eq_false hopen) hanswer

/-- Only closing closes, and going on to a result set that is not there. -/
theorem isClosed_perform (h : isClosed c = false) (op : Operation) :
    isClosed (perform c op).2 = true ↔ op = .close ∨ (perform c op).1 = .nextResultSet (.ok false) := by
  have hother : op ≠ .close → (∀ answer, (perform c op).1 ≠ .nextResultSet answer) →
      isClosed (perform c op).2 = false →
      (isClosed (perform c op).2 = true ↔ op = .close ∨ (perform c op).1 = .nextResultSet (.ok false)) := by
    intro hop hanswer hopen
    exact iff_of_false (ne_true_of_eq_false hopen) (not_or.mpr ⟨hop, hanswer _⟩)
  cases op with
  | columns => exact hother nofun (fun _ => nofun) ((isClosed_columns c).trans h)
  | next => exact hother nofun (fun _ => nofun) ((isClosed_next c).trans h)
  | nextInto dest =>
    refine hother nofun (fun _ => nofun) ?_
    show isClosed (nextInto c dest).2 = false
    rw [nextInto_eq, isClosed_next, h]
  | fetchAll =>
    have hkeeps : ∀ {c : σ}, isClosed c = false → isClosed (next c).2 = false := fun hc =>
      (isClosed_next _).trans hc
    exact hother nofun (fun _ => nofun) (fetch_keeps (P := fun c => isClosed c = false) hkeeps h _ [])
  | nextResultSet =>
    have hiff := isClosed_nextResultSet c
    constructor
    · intro hclosed
      exact .inr (congrArg Answer.nextResultSet (hiff.mp hclosed))
    · intro hanswer
      exact hiff.mpr (Answer.nextResultSet.inj (hanswer.resolve_left nofun))
  | close => exact iff_of_true (isClosed_close c) (.inl rfl)

/-! ## Counting -/

theorem rowCount_columns (c : σ) : rowCount (columns c).2 = rowCount c :=
  congrArg View.rowCount (view_columns c)

theorem rowCount_next (c : σ) : rowCount (next c).2 = rowCount c + delivered (next c).1 :=
  congrArg View.rowCount (view_next c)

theorem rowCount_close (c : σ) : rowCount (close c) = rowCount c :=
  congrArg View.rowCount (view_close c)

theorem rowCount_nextResultSet (c : σ) : rowCount (nextResultSet c).2 = rowCount c := by
  cases hmore : hasNextResultSet c with
  | false =>
    rw [nextResultSet_last hmore]
    exact rowCount_close c
  | true => exact (nextResultSet_more hmore).2.1

theorem length_given (answer : Except Error (Option Row)) : (given answer).length = delivered answer := by
  match answer with
  | .ok (some row) => rfl
  | .ok none => rfl
  | .error e => rfl

/-- The rows that are counted are those in the log, and `n` that were given before. -/
theorem counted_invariant (n : Nat) : Invariant fun w : Logged σ => rowCount w.cursor = n + w.rows.length where
  columns {w} h := (rowCount_columns w.cursor).trans h
  next {w} h := by
    show rowCount (Cursor.next w.cursor).2 = n + (w.rows ++ given (Cursor.next w.cursor).1).length
    rw [rowCount_next, h, List.length_append, length_given, Nat.add_assoc]
  nextResultSet {w} h := (rowCount_nextResultSet w.cursor).trans h
  close {w} h := (rowCount_close w.cursor).trans h

theorem accountable [Bounded σ] {start : σ} (h : rowCount start = 0) : Accountable start where
  closes _ op hopen := isClosed_perform hopen op
  frozen ops hclosed := by
    refine ⟨frozen hclosed, fun more => ?_⟩
    rw [run_append, (frozen hclosed).run]
  counts ops := by
    have hcounted := (counted_invariant 0).run (c := logged start) h ops
    rwa [run_logged, Nat.zero_add] at hcounted
  next ops := rowCount_next (run start ops)
  columns ops := rowCount_columns (run start ops)
  nextResultSet ops := rowCount_nextResultSet (run start ops)
  close ops := rowCount_close (run start ops)

end Lawful

/-- Both kinds of cursor account for their closing and their rows, whatever is done.  Over bodies a cursor is
closed from the start if there are none, and over documents it never is. -/
theorem lifecycle :
    (∀ bodies params, Accountable (StreamingCursor.ofBodies bodies params) ∧
      (isClosed (StreamingCursor.ofBodies bodies params) = true ↔ bodies = [])) ∧
    ∀ ds b, BufferedCursor.ofDocuments ds = .ok b → Accountable b ∧ isClosed b = false := by
  constructor
  · intro bodies params
    refine ⟨Lawful.accountable rfl, ?_⟩
    cases bodies with
    | nil => exact iff_of_true rfl rfl
    | cons body bodies =>
      exact iff_of_false (ne_true_of_eq_false (StreamingCursor.fresh_ofBodies body bodies params).opened) nofun
  · intro ds b hb
    obtain ⟨first, rest, s, -, -, rfl⟩ := BufferedCursor.ofDocuments_ok hb
    exact ⟨Lawful.accountable rfl, rfl⟩

/-- A cursor at a document with a row that fails and one that does not; the columns of the document behind it cannot
be read. -/
def faultyCursor : BufferedCursor :=
  let rows := [[.null, .null], [.string "x"]]
  { documents := [{ columns := [⟨"a", "text"⟩], rows := rows }, { columns := [⟨"b", "no type"⟩] }]
    pending := rows
    schema := ⟨[⟨"a", .scalar .text false, "text"⟩]⟩ }

theorem lifecycle_sample :
    BufferedCursor.ofDocuments faultyCursor.documents = .ok faultyCursor ∧
      Accountable faultyCursor ∧
      rowCount (run faultyCursor [.fetchAll, .next, .nextResultSet]) = 1 ∧
      isClosed (run faultyCursor [.fetchAll, .next, .nextResultSet]) = false ∧
      isClosed (run faultyCursor [.fetchAll, .next, .nextResultSet, .nextResultSet]) = true := by
  have hb : BufferedCursor.ofDocuments faultyCursor.documents = .ok faultyCursor := by with_unfolding_all rfl
  have h := lifecycle.2 faultyCursor.documents faultyCursor hb
  refine ⟨hb, h.1, by decide +kernel, by decide +kernel, ?_⟩
  exact (h.1.closes [.fetchAll, .next, .nextResultSet] .nextResultSet (by decide +kernel)).mpr
    (.inr (by with_unfolding_all rfl))

end Cursor

end Rowset
