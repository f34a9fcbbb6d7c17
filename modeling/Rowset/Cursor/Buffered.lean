import Rowset.Cursor.Basic

/-!
# Result sets that arrived in full

A `BufferedCursor` walks over documents.  Raw rows are read one at a time, so that a row with a bad value
leaves the rows before it delivered and the rows after it available.  A result set with a malformed type has no
columns and no rows.
-/

namespace Rowset

/-- A cursor over documents. -/
structure BufferedCursor where
  documents : List ResultDocument
  index : Nat := 0
  /-- The raw rows of the current result set that are left. -/
  pending : List (List Json) := []
  schema : Schema := {}
  /-- The rows delivered so far, fewer than 2^64 in any run. -/
  rowCount : Nat := 0
  closed : Bool := false
deriving Inhabited, Repr

namespace BufferedCursor

/-- Reads the columns of the current document and makes its rows available. -/
def enter (c : BufferedCursor) : Except Error Unit × BufferedCursor :=
  let d := (c.documents[c.index]?).getD {}
  match Schema.ofHeaders d.columns with
  | .ok s => (.ok (), { c with pending := d.rows, schema := s })
  | .error e => (.error e, { c with pending := [], schema := {} })

/-- A cursor over documents none of which reports errors; without documents there is one empty result set. -/
def ofDocuments (ds : List ResultDocument) : Except Error BufferedCursor :=
  match ds.find? (!·.errors.isEmpty) with
  | some d => .error (.server d.errors)
  | none =>
    match enter { documents := if ds.isEmpty then [{}] else ds } with
    | (.ok (), c) => .ok c
    | (.error e, _) => .error e

/-- A cursor over the documents of a response. -/
def ofBody (bs : List UInt8) : Except Error BufferedCursor :=
  match ResultDocument.parseResponse bs with
  | .ok ds => ofDocuments ds
  | .error fault => .error (.json fault)

/-- The number of result sets, zero once the cursor is closed. -/
def count (c : BufferedCursor) : Nat := c.documents.length

/-- The statistics of the current result set. -/
def statistics (c : BufferedCursor) : Option Statistics :=
  (c.documents[c.index]?).bind (·.statistics)

def columns (c : BufferedCursor) : Except Error Schema × BufferedCursor :=
  if c.closed then (.error .closed, c) else (.ok c.schema, c)

def hasNextResultSet (c : BufferedCursor) : Bool :=
  !c.closed && c.index + 1 < c.documents.length

def next (c : BufferedCursor) : Except Error (Option Row) × BufferedCursor :=
  if c.closed then (.ok none, c)
  else
    match c.pending with
    | [] => (.ok none, c)
    | cells :: rest =>
      match Row.decode c.schema cells with
      | .ok vs => (.ok (some ⟨vs, c.schema⟩), { c with pending := rest, rowCount := c.rowCount + 1 })
      | .error e => (.error e, { c with pending := rest })

def close (c : BufferedCursor) : BufferedCursor :=
  if c.closed then c else { c with closed := true, pending := [], documents := [], schema := {} }

def nextResultSet (c : BufferedCursor) : Except Error Bool × BufferedCursor :=
  if c.hasNextResultSet then
    match enter { c with index := c.index + 1 } with
    | (.ok (), c) => (.ok true, c)
    | (.error e, c) => (.error e, c)
  else (.ok false, c.close)

instance : Cursor BufferedCursor where
  columns := columns
  next := next
  nextResultSet := nextResultSet
  close := close
  release := id
  rowCount := rowCount
  isClosed := closed
  hasNextResultSet := hasNextResultSet
  index := index
  rowBound c := c.pending.length

end BufferedCursor

end Rowset
