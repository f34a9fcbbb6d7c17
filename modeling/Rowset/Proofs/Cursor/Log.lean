import Rowset.Proofs.Cursor.Behaviour

/-!
# Cursors with a log

`Logged` is a cursor that takes notes: which rows `next` gave, and how much was asked of the current result set.
It notes the calls of `next` that taking many rows makes as well, since these are the calls of any cursor.  The
notes change nothing (`run_logged`).
-/

namespace Rowset

namespace Cursor

variable {σ : Type} [Cursor σ]

/-- The row of an answer, if it has one. -/
def given : Except Error (Option Row) → List Row
  | .ok (some row) => [row]
  | _ => []

/-- A cursor and its log. -/
structure Logged (σ : Type) where
  cursor : σ
  /-- The rows that `next` gave, over all result sets. -/
  rows : List Row := []
  /-- How many rows were asked for since the current result set was entered, none if not even its columns were. -/
  asked : Option Nat := none

namespace Logged

/-- A call of `next` asks for one more row, and going on asks for the columns of the result set that follows. -/
instance : Cursor (Logged σ) where
  columns w :=
    ((Cursor.columns w.cursor).1,
      { w with cursor := (Cursor.columns w.cursor).2, asked := some (w.asked.getD 0) })
  next w :=
    ((Cursor.next w.cursor).1,
      { cursor := (Cursor.next w.cursor).2
        rows := w.rows ++ given (Cursor.next w.cursor).1
        asked := some (w.asked.getD 0 + 1) })
  nextResultSet w :=
    ((Cursor.nextResultSet w.cursor).1,
      { w with cursor := (Cursor.nextResultSet w.cursor).2, asked := some 0 })
  close w := { w with cursor := Cursor.close w.cursor }
  release w := { w with cursor := Cursor.release w.cursor }
  rowCount w := Cursor.rowCount w.cursor
  isClosed w := Cursor.isClosed w.cursor
  hasNextResultSet w := Cursor.hasNextResultSet w.cursor
  index w := Cursor.index w.cursor
  rowBound w := Cursor.rowBound w.cursor

instance [Bounded σ] : Bounded (Logged σ) where
  ahead w := Bounded.ahead w.cursor
  ahead_next h := Bounded.ahead_next h
  ahead_le w := Bounded.ahead_le w.cursor

/-- The log does not matter. -/
theorem simulation : Simulation fun (w : Logged σ) (c : σ) => w.cursor = c where
  columns := by
    rintro w c rfl
    exact ⟨rfl, rfl⟩
  next := by
    rintro w c rfl
    exact ⟨rfl, rfl⟩
  nextResultSet := by
    rintro w c rfl
    exact ⟨rfl, rfl⟩
  close := by
    rintro w c rfl
    rfl

variable [Bounded σ]

theorem perform_fst (w : Logged σ) (op : Operation) : (perform w op).1 = (perform w.cursor op).1 :=
  (simulation.perform rfl op).1

theorem cursor_perform (w : Logged σ) (op : Operation) : (perform w op).2.cursor = (perform w.cursor op).2 :=
  (simulation.perform rfl op).2

theorem cursor_run (w : Logged σ) (ops : List Operation) : (run w ops).cursor = run w.cursor ops :=
  simulation.run rfl ops

end Logged

/-- A cursor with an empty log. -/
def logged (c : σ) : Logged σ := { cursor := c }

/-- A log changes nothing. -/
@[simp] theorem run_logged [Bounded σ] (c : σ) (ops : List Operation) : (run (logged c) ops).cursor = run c ops :=
  Logged.cursor_run (logged c) ops

@[simp] theorem trace_logged [Bounded σ] (c : σ) (ops : List Operation) : trace (logged c) ops = trace c ops :=
  Logged.simulation.trace (by rintro w c rfl; rfl) rfl ops

end Cursor

end Rowset
