import Rowset.Proofs.Cursor.Operations

/-!
# Laws of cursors

`Cursor.Lawful` says what every kind of cursor keeps to, in every state: how each basic operation changes what
can be asked of a cursor, and that an operation on a closed cursor does nothing.  Both kinds of cursor keep to
these laws, so that what follows from them alone is proved once for both.
-/

namespace Rowset

open StreamingCursor (delivered)

namespace Cursor

variable {σ : Type} [Cursor σ]

/-- What every kind of cursor keeps to.  Rows are counted when they are delivered and at no other time.  Going on
to a result set that follows may fail, but it always gets there; without one that follows, it is closing. -/
class Lawful (σ : Type) [Cursor σ] : Prop where
  view_columns : ∀ c : σ, view (columns c).2 = view c
  view_next : ∀ c : σ, view (next c).2 = { view c with rowCount := rowCount c + delivered (next c).1 }
  view_close : ∀ c : σ, view (close c) = ⟨rowCount c, true, false, index c⟩
  nextResultSet_last : ∀ {c : σ}, hasNextResultSet c = false → nextResultSet c = (.ok false, close c)
  nextResultSet_more : ∀ {c : σ}, hasNextResultSet c = true → (nextResultSet c).1 ≠ .ok false ∧
    rowCount (nextResultSet c).2 = rowCount c ∧ isClosed (nextResultSet c).2 = false ∧
    index (nextResultSet c).2 = index c + 1
  of_closed : ∀ {c : σ}, isClosed c = true →
    hasNextResultSet c = false ∧ columns c = (.error .closed, c) ∧ next c = (.ok none, c) ∧ close c = c

end Cursor

/-! ## Cursors over documents -/

namespace BufferedCursor

instance : Cursor.Lawful BufferedCursor where
  view_columns b := by
    show Cursor.view b.columns.2 = _
    unfold columns
    split <;> rfl
  view_next b := by
    show Cursor.view b.next.2 = { Cursor.view b with rowCount := b.rowCount + delivered b.next.1 }
    cases hb : b.closed with
    | true =>
      rw [next_closed hb]
      rfl
    | false =>
      rw [next_open hb]
      rfl
  view_close b := by
    show Cursor.view b.close = ⟨b.rowCount, true, false, b.index⟩
    cases hb : b.closed with
    | true =>
      rw [close_closed hb]
      show (⟨b.rowCount, b.closed, !b.closed && _, b.index⟩ : View) = _
      rw [hb]
      rfl
    | false =>
      rw [close_open hb]
      rfl
  nextResultSet_last := nextResultSet_last
  nextResultSet_more {b} hmore := by
    obtain ⟨hopen, d, hd⟩ := document_of_hasNextResultSet hmore
    show b.nextResultSet.1 ≠ _ ∧ b.nextResultSet.2.rowCount = _ ∧ b.nextResultSet.2.closed = _ ∧
      b.nextResultSet.2.index = _
    rw [nextResultSet_more hmore hd]
    cases Schema.ofHeaders d.columns with
    | ok s => exact ⟨nofun, rfl, hopen, rfl⟩
    | error e => exact ⟨nofun, rfl, hopen, rfl⟩
  of_closed {b} hb := by
    have hclosed : b.closed = true := hb
    refine ⟨?_, ?_, next_closed hclosed, close_closed hclosed⟩
    · show (!b.closed && _) = false
      rw [hclosed]
      rfl
    · show b.columns = _
      unfold columns
      rw [if_pos hclosed]

end BufferedCursor

/-! ## Streaming cursors -/

namespace StreamingCursor

variable {c d : StreamingCursor} {answer : Except Error (Option StreamRecord)}

theorem rowCount_of_read (h : c.readRecord = (answer, d)) : d.rowCount = c.rowCount := by
  unfold readRecord at h
  cases hs : c.current with
  | none =>
    rw [hs] at h
    exact congrArg (·.2.rowCount) h.symm
  | some s =>
    rw [hs] at h
    exact congrArg (·.2.rowCount) h.symm

theorem Opens.rowCount {result : Except Error Unit × StreamingCursor} (h : Opens c result) :
    result.2.rowCount = c.rowCount := by
  cases h with
  | closed _ => rfl
  | before _ _ => rfl
  | failed _ _ read => exact (rowCount_of_read read :)
  | started _ _ read _ _ => exact (rowCount_of_read read :)

/-- A row is counted when it is delivered. -/
theorem Pulls.rowCount {result : Except Error (Option Row) × StreamingCursor} (h : Pulls c result) :
    result.2.rowCount = c.rowCount + delivered result.1 := by
  induction h with
  | spent => rfl
  | row _ _ _ => rfl
  | badRow _ => rfl
  | idle _ _ => rfl
  | failed _ _ read => exact (rowCount_of_read read :)
  | finished _ _ read _ => exact (rowCount_of_read read :)
  | data _ _ read _ _ ih =>
    rw [ih, ← rowCount_of_read read]

theorem rowCount_ensureStarted (c : StreamingCursor) : c.ensureStarted.2.rowCount = c.rowCount :=
  (opens_ensureStarted c).rowCount

theorem rowCount_next (c : StreamingCursor) : c.next.2.rowCount = c.rowCount + delivered c.next.1 := by
  have hstart := rowCount_ensureStarted c
  rcases next_cases c with ⟨-, hnext⟩ | ⟨e, -, hnext⟩ | ⟨-, hpulls⟩
  · rw [hnext]
    rfl
  · rw [hnext]
    exact hstart
  · rw [hpulls.rowCount, hstart]

/-- Within a result set only the number of rows changes. -/
theorem SameSet.view (h : SameSet c d) : Cursor.view d = { Cursor.view c with rowCount := d.rowCount } := by
  show (⟨d.rowCount, d.closed, !d.closed && !d.remaining.isEmpty, d.index⟩ : View) =
    ⟨d.rowCount, c.closed, !c.closed && !c.remaining.isEmpty, c.index⟩
  rw [h.closed, h.remaining, h.index]

theorem remaining_of_hasNextResultSet (h : c.hasNextResultSet = true) :
    c.closed = false ∧ ∃ s rest, c.remaining = s :: rest := by
  unfold hasNextResultSet at h
  obtain ⟨hopen, hmore⟩ := Bool.and_eq_true_iff.mp h
  refine ⟨by simpa using hopen, ?_⟩
  cases hr : c.remaining with
  | nil =>
    rw [hr] at hmore
    cases hmore
  | cons s rest => exact ⟨s, rest, rfl⟩

instance : Cursor.Lawful StreamingCursor where
  view_columns c := by
    have hview := (sameSet_columns c).view
    have hrows : c.columns.2.rowCount = c.rowCount := by
      rw [columns_snd]
      exact rowCount_ensureStarted c
    rw [hrows] at hview
    exact hview
  view_next c := by
    have hview := (sameSet_next c).view
    rw [rowCount_next] at hview
    exact hview
  view_close c := by
    show Cursor.view c.close = ⟨c.rowCount, true, false, c.index⟩
    cases hc : c.closed with
    | true =>
      rw [close_closed hc]
      show (⟨c.rowCount, c.closed, !c.closed && _, c.index⟩ : View) = _
      rw [hc]
      rfl
    | false =>
      rw [close_open hc]
      rfl
  nextResultSet_last {c} hlast := by
    show c.nextResultSet = (.ok false, c.close)
    cases hc : c.closed with
    | true => rw [nextResultSet_closed hc, close_closed hc]
    | false =>
      have hlast' : (!c.closed && !c.remaining.isEmpty) = false := hlast
      have hr : c.remaining = [] := by simpa [hc] using hlast'
      rw [nextResultSet_last hc hr, close_last hc hr]
  nextResultSet_more {c} hmore := by
    obtain ⟨hopen, s, rest, hr⟩ := remaining_of_hasNextResultSet hmore
    have hsame := sameSet_ensureStarted (c.entered s rest)
    have hrows := rowCount_ensureStarted (c.entered s rest)
    show c.nextResultSet.1 ≠ _ ∧ c.nextResultSet.2.rowCount = _ ∧ c.nextResultSet.2.closed = _ ∧
      c.nextResultSet.2.index = _
    rw [nextResultSet_more hopen hr]
    refine ⟨?_, hrows, hsame.closed.trans hopen, hsame.index⟩
    cases (c.entered s rest).ensureStarted.1 <;> nofun
  of_closed {c} hc := by
    have hclosed : c.closed = true := hc
    refine ⟨?_, ?_, next_closed hclosed, close_closed hclosed⟩
    · show (!c.closed && _) = false
      rw [hclosed]
      rfl
    · show c.columns = _
      unfold columns
      rw [ensureStarted_closed hclosed]

end StreamingCursor

end Rowset
