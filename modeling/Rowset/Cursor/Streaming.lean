import Rowset.Cursor.Basic
import Rowset.Wire.Body

/-!
# Result sets that are streamed

A `StreamingCursor` walks over bodies, one a result set.  A body is well formed if its records are a `START`,
any number of `DATA` and a `FINISHED_WITH_SUCCESS`; whatever departs from that is an error, and after it the
result set has no more rows.  Records are read when a row, or the columns, are asked for and not before.

The cursor owns its bodies.  `released` lists the bodies it gave up, in the order in which it did.
-/

namespace Rowset

/-- Settings of the line reader. -/
structure StreamParams where
  /-- The most bytes of a record, without the end of its line. -/
  maxLineLength : Nat := 256 * 1024 * 1024
  /-- The room set aside for a line at first. -/
  lineCapacity : Nat := 8 * 1024
deriving DecidableEq, Repr, Inhabited

/-- How far the current result set has been read. -/
inductive Phase where
  | awaitingStart
  | reading
  | exhausted
deriving DecidableEq, Repr, Inhabited

/-- The body of one result set and its place among them. -/
structure Segment where
  position : Nat
  body : Body
deriving DecidableEq, Repr, Inhabited

/-- A cursor over bodies. -/
structure StreamingCursor where
  params : StreamParams
  current : Option Segment
  remaining : List Segment
  released : List Nat := []
  phase : Phase := .awaitingStart
  schema : Option Schema := none
  /-- The raw rows of the last block that are left. -/
  block : List (List Json) := []
  index : Nat := 0
  queryId : Option String := none
  queryLabel : Option String := none
  statistics : Option Statistics := none
  /-- The rows delivered so far.  A counter of 64 bits shows the same number: no run gets to deliver 2^64 rows. -/
  rowCount : Nat := 0
  closed : Bool
deriving Inhabited, Repr

namespace StreamingCursor

/-- A cursor over bodies; without any it is closed from the start. -/
def ofBodies (bodies : List Body) (params : StreamParams := {}) : StreamingCursor :=
  let segments := bodies.mapIdx fun i b => (⟨i, b⟩ : Segment)
  { params := params, current := segments.head?, remaining := segments.tail, closed := segments.isEmpty }

/-! ## Reading records -/

/-- Reads the next record of the current body. -/
def readRecord (c : StreamingCursor) : Except Error (Option StreamRecord) × StreamingCursor :=
  match c.current with
  | none => (.error .closed, c)
  | some s =>
    let (answer, body) := s.body.readRecord c.params.maxLineLength
    (answer, { c with current := some { s with body := body } })

/-- The same cursor at the end of its result set. -/
def exhaust (c : StreamingCursor) : StreamingCursor :=
  { c with phase := .exhausted }

/-- What a record means that cannot stand where it stands. -/
def unexpected (phase : Phase) (r : StreamRecord) : Error :=
  match r.kind with
  | .finishWithError => .server r.errors
  | .start => .framing .startInside
  | .data => .framing .dataBeforeStart
  | .finishedWithSuccess =>
    if phase = .awaitingStart then .framing .finishBeforeStart
    else .framing (.unexpectedKind .finishedWithSuccess)
  | .unknown => .framing (.unexpectedKind .unknown)

/-- Takes over what the first record of a result set announces. -/
def start (c : StreamingCursor) (r : StreamRecord) : Except Error Unit × StreamingCursor :=
  match Schema.ofHeaders r.columns with
  | .ok s =>
    (.ok (), { c with
      schema := some s, queryId := r.queryId, queryLabel := r.queryLabel, phase := .reading })
  | .error e => (.error e, c.exhaust)

/-- Reads the first record of the current result set unless that was done before. -/
def ensureStarted (c : StreamingCursor) : Except Error Unit × StreamingCursor :=
  if c.closed then (.error .closed, c)
  else if c.phase ≠ .awaitingStart then (.ok (), c)
  else
    match c.readRecord with
    | (.error e, c) => (.error e, c.exhaust)
    | (.ok none, c) => (.error (.framing .endedBeforeStart), c.exhaust)
    | (.ok (some r), c) =>
      if r.kind = .start then c.start r else (.error (unexpected c.phase r), c.exhaust)

/-! ## Rows -/

/-- The number of bytes left in the current body. -/
def bytesLeft (c : StreamingCursor) : Nat :=
  match c.current with
  | some s => s.body.size
  | none => 0

/-- Takes the next row of the block, reading at most `fuel` records for it. -/
def nextWithin : Nat → StreamingCursor → Except Error (Option Row) × StreamingCursor
  | 0, c => (.ok none, c)
  | fuel + 1, c =>
    match c.block with
    | cells :: rest =>
      let c := { c with block := rest }
      match c.schema with
      | none => (.error (.framing .dataBeforeStart), c)
      | some s =>
        match Row.decode s cells with
        | .ok vs => (.ok (some ⟨vs, s⟩), { c with rowCount := c.rowCount + 1 })
        | .error e => (.error e, c)
    | [] =>
      if c.phase ≠ .reading then (.ok none, c)
      else
        match c.readRecord with
        | (.error e, c) => (.error e, c.exhaust)
        | (.ok none, c) => (.error (.framing .endedBeforeFinish), c.exhaust)
        | (.ok (some r), c) =>
          match r.kind with
          | .data => nextWithin fuel { c with block := r.rows }
          | .finishedWithSuccess => (.ok none, { c.exhaust with statistics := r.statistics })
          | _ => (.error (unexpected c.phase r), c.exhaust)

def next (c : StreamingCursor) : Except Error (Option Row) × StreamingCursor :=
  if c.closed then (.ok none, c)
  else
    match c.ensureStarted with
    | (.error e, c) => (.error e, c)
    -- A record takes at least one byte, and one more round finds the end.
    | (.ok (), c) => nextWithin (c.bytesLeft + 2) c

def columns (c : StreamingCursor) : Except Error Schema × StreamingCursor :=
  match c.ensureStarted with
  | (.error e, c) => (.error e, c)
  | (.ok (), c) =>
    match c.schema with
    | some s => (.ok s, c)
    | none => (.error (.framing .noColumns), c)

/-! ## Result sets -/

/-- Gives up the current body and all that is known of its result set. -/
def leave (c : StreamingCursor) : StreamingCursor :=
  { c with
    current := none
    released := c.released ++ (c.current.map (·.position)).toList
    schema := none, block := [], queryId := none, queryLabel := none, statistics := none }

/-- Gives up all bodies. -/
def release (c : StreamingCursor) : StreamingCursor :=
  let c := c.leave
  { c with remaining := [], released := c.released ++ c.remaining.map (·.position) }

def hasNextResultSet (c : StreamingCursor) : Bool :=
  !c.closed && !c.remaining.isEmpty

def nextResultSet (c : StreamingCursor) : Except Error Bool × StreamingCursor :=
  if c.closed then (.ok false, c)
  else
    let c := c.leave
    match c.remaining with
    | [] => (.ok false, { c with phase := .exhausted, closed := true })
    | s :: rest =>
      match ensureStarted
        { c with current := some s, remaining := rest, phase := .awaitingStart, index := c.index + 1 } with
      | (.ok (), c) => (.ok true, c)
      | (.error e, c) => (.error e, c)

def close (c : StreamingCursor) : StreamingCursor :=
  if c.closed then c else { c.release with phase := .exhausted, closed := true }

instance : Cursor StreamingCursor where
  columns := columns
  next := next
  nextResultSet := nextResultSet
  close := close
  release := release
  rowCount := rowCount
  isClosed := closed
  hasNextResultSet := hasNextResultSet
  index := index
  -- A row takes at least one byte of its body.
  rowBound c := c.block.length + c.bytesLeft

end StreamingCursor

end Rowset
