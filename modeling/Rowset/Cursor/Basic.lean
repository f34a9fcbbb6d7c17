import Rowset.Row

/-!
# Cursors

A cursor walks over result sets in order.  Within a result set `next` gives row after row and then nothing; it
never goes on to the following result set by itself.  `nextResultSet` does, and behind the last result set it
closes the cursor.

Every operation is a function from a cursor to its answer and the cursor afterwards, which differs from the one
before even if the answer is an error.  The ways of taking many rows at once are built from `next` alone.
-/

namespace Rowset

/-- The operations of a cursor whose state is a `σ`. -/
class Cursor (σ : Type) where
  /-- The columns of the current result set. -/
  columns : σ → Except Error Schema × σ
  /-- The next row of the current result set, none at its end. -/
  next : σ → Except Error (Option Row) × σ
  /-- Goes on to the following result set, or closes the cursor and answers false. -/
  nextResultSet : σ → Except Error Bool × σ
  /-- Closes the cursor. -/
  close : σ → σ
  /-- Gives up whatever the cursor still holds. -/
  release : σ → σ
  /-- The number of rows so far, over all result sets. -/
  rowCount : σ → Nat
  isClosed : σ → Bool
  /-- Whether another result set follows. -/
  hasNextResultSet : σ → Bool
  /-- The number of the current result set, from zero. -/
  index : σ → Nat
  /-- A number that the rows left in the current result set do not exceed. -/
  rowBound : σ → Nat

namespace Cursor

variable {σ : Type} [Cursor σ]

/-- Puts the values of the next row in place of `dest` and answers true; at the end and after an error `dest`
stays as it is. -/
def nextInto (c : σ) (dest : List Value) : (Except Error Bool × List Value) × σ :=
  match next c with
  | (.ok (some row), c) => ((.ok true, row.values), c)
  | (.ok none, c) => ((.ok false, dest), c)
  | (.error e, c) => ((.error e, dest), c)

/-- Takes up to `fuel` rows behind those of `seen`, which come last first; an error hides them all. -/
def fetch : Nat → List Row → σ → Except Error (List Row) × σ
  | 0, seen, c => (.ok seen.reverse, c)
  | fuel + 1, seen, c =>
    match next c with
    | (.ok (some row), c) => fetch fuel (row :: seen) c
    | (.ok none, c) => (.ok seen.reverse, c)
    | (.error e, c) => (.error e, c)

/-- The rows left in the current result set. -/
def fetchAll (c : σ) : Except Error (List Row) × σ :=
  fetch (rowBound c + 1) [] c

/-- Takes up to `fuel` answers behind those of `seen`, which come last first; an error is the last one. -/
def answers : Nat → List (Except Error Row) → σ → List (Except Error Row) × σ
  | 0, seen, c => (seen.reverse, c)
  | fuel + 1, seen, c =>
    match next c with
    | (.ok (some row), c) => answers fuel (.ok row :: seen) c
    | (.ok none, c) => (seen.reverse, c)
    | (.error e, c) => ((.error e :: seen).reverse, c)

/-- The rows left in the current result set up to the first error, which comes last; the cursor is given up
behind them. -/
def stream (c : σ) : List (Except Error Row) × σ :=
  let (items, c) := answers (rowBound c + 1) [] c
  (items, release c)

end Cursor

end Rowset
