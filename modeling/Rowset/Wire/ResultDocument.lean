import Rowset.Json.Document
import Rowset.Text.Blank
import Rowset.Wire.ServerError

/-!
# Result documents

A result set that arrives in full is one JSON document: the columns, the rows as raw values, and optionally a
row count, statistics and errors.  A response is any number of documents one after the other.  A response of
nothing but blanks is one empty document.
-/

namespace Rowset

open Json

/-- A column as the server announces it: its name and the text of its type. -/
structure ColumnHeader where
  name : String
  type : String
deriving DecidableEq, Repr, Inhabited

namespace ColumnHeader

/-- The fields of a column, both of which have to be there. -/
def slots : List (Slot ColumnHeader) :=
  [.of "name" (fun _ => stringField) (fun v c => { c with name := v }) true,
    .of "type" (fun _ => stringField) (fun v c => { c with type := v }) true]

/-- Reads a column; both parts of the state it starts from are replaced. -/
def read : Nat → Reader ColumnHeader :=
  document slots ⟨"", ""⟩

end ColumnHeader

/-- What the server measured while it ran a query. -/
structure Statistics where
  elapsed : Option (Binary .double) := none
  rowsRead : Option Nat := none
  bytesRead : Option Nat := none
  timeBeforeExecution : Option (Binary .double) := none
  timeToExecute : Option (Binary .double) := none
deriving DecidableEq, Repr, Inhabited

namespace Statistics

/-- The fields of statistics in their order. -/
def slots : List (Slot Statistics) :=
  [.of "elapsed" (fun _ => optionalField realField) fun v s => { s with elapsed := v },
    .of "rows_read" (fun _ => optionalField countField) fun v s => { s with rowsRead := v },
    .of "bytes_read" (fun _ => optionalField countField) fun v s => { s with bytesRead := v },
    .of "time_before_execution" (fun _ => optionalField realField)
      fun v s => { s with timeBeforeExecution := v },
    .of "time_to_execute" (fun _ => optionalField realField) fun v s => { s with timeToExecute := v }]

/-- Reads statistics. -/
def read : Nat → Reader Statistics :=
  document slots {}

end Statistics

/-- Reads rows of raw values. -/
def readRows : Nat → Reader (List (List Json)) :=
  listField (listField Json.value)

/-- One result set in full. -/
structure ResultDocument where
  columns : List ColumnHeader := []
  rows : List (List Json) := []
  rowCount : Option Nat := none
  statistics : Option Statistics := none
  errors : List ServerError := []
deriving Inhabited, Repr

namespace ResultDocument

/-- The fields of a document in their order. -/
def slots : List (Slot ResultDocument) :=
  [.of "meta" (listField ColumnHeader.read) fun v d => { d with columns := v },
    .of "data" readRows fun v d => { d with rows := v },
    .of "rows" (fun _ => optionalField countField) fun v d => { d with rowCount := v },
    .of "statistics" (fun levels => optionalField (Statistics.read levels))
      fun v d => { d with statistics := v },
    .of "errors" (listField ServerError.read) fun v d => { d with errors := v }]

/-- Reads a document. -/
def read : Nat → Reader ResultDocument :=
  document slots {}

/-- Reads a text of exactly one document. -/
def parse (bs : List UInt8) : Except Json.Fault ResultDocument :=
  whole (read maxNesting) bs

/-- Reads documents up to the end of a response, behind those of `seen`, which come last first.  A document
takes at least one byte. -/
def readAll : Nat → List ResultDocument → List UInt8 → Except Json.Fault (List ResultDocument)
  | 0, _, _ => .error .truncated
  | fuel + 1, seen, bs =>
    if (skipSpace bs).isEmpty then .ok seen.reverse
    else do
      let (d, bs) ← read maxNesting bs
      readAll fuel (d :: seen) bs

/-- Reads a response. -/
def parseResponse (bs : List UInt8) : Except Json.Fault (List ResultDocument) :=
  if bs.all Text.isBlankByte then .ok [{}] else readAll (bs.length + 1) [] bs

end ResultDocument

end Rowset
