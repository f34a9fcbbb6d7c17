import Rowset.Wire.ResultDocument

/-!
# Stream records

A streamed result set is a sequence of records, one a line.  The kind of a record says which of its other
fields matter: `START` announces the columns, `DATA` carries rows, and a last record tells success, with
statistics, or failure, with errors.
-/

namespace Rowset

open Json

/-- The kind of a stream record. -/
inductive RecordKind where
  | start
  | data
  | finishedWithSuccess
  | finishWithError
  | unknown
deriving DecidableEq, Repr, Inhabited

namespace RecordKind

/-- The name of a kind. -/
def name : RecordKind → String
  | start => "START"
  | data => "DATA"
  | finishedWithSuccess => "FINISHED_WITH_SUCCESS"
  | finishWithError => "FINISH_WITH_ERROR"
  | unknown => "UNKNOWN"

/-- The kind of a name; the kinds of a finish have two names each. -/
def ofName (s : String) : RecordKind :=
  if s = "START" then start
  else if s = "DATA" then data
  else if s = "FINISHED_WITH_SUCCESS" || s = "FINISH_SUCCESSFULLY" then finishedWithSuccess
  else if s = "FINISH_WITH_ERROR" || s = "FINISH_WITH_ERRORS" then finishWithError
  else unknown

/-- Reads the rest of a kind that is written as the only key of an object with the value null.  As everywhere
in JSON, what stands in the place of the key and is no string makes the text malformed. -/
def readKey : Reader RecordKind := fun bs => do
  let some (s, bs) ← nextKey true bs | throw .malformed
  let bs ← endKey bs
  match skipSpace bs with
  | [] => throw .truncated
  | b :: rest =>
    if b = letterN then
      let bs ← word (ascii "ull") rest
      return (ofName s, ← endObject bs)
    else throw (wrongKind (b :: rest))

/-- Reads a kind, a string or an object with one key. -/
def read (levels : Nat) : Reader RecordKind := fun bs =>
  match skipSpace bs with
  | [] => .error .truncated
  | quoteMark :: rest => do
    let (s, bs) ← quoted rest
    return (ofName s, bs)
  | openObject :: rest => if levels = 0 then .error .malformed else readKey rest
  | _ => .error .malformed

end RecordKind

/-- One line of a streamed result set; what its kind does not carry is left empty. -/
structure StreamRecord where
  kind : RecordKind
  columns : List ColumnHeader := []
  rows : List (List Json) := []
  errors : List ServerError := []
  statistics : Option Statistics := none
  queryId : Option String := none
  queryLabel : Option String := none
  requestId : Option String := none
deriving Inhabited, Repr

namespace StreamRecord

/-- The fields of a record in their order; only the kind has to be there. -/
def slots : List (Slot StreamRecord) :=
  [.of "message_type" RecordKind.read (fun v r => { r with kind := v }) true,
    .of "result_columns" (listField ColumnHeader.read) fun v r => { r with columns := v },
    .of "data" readRows fun v r => { r with rows := v },
    .of "errors" (listField ServerError.read) fun v r => { r with errors := v },
    .of "statistics" (fun levels => optionalField (Statistics.read levels))
      fun v r => { r with statistics := v },
    .of "query_id" (fun _ => optionalField stringField) fun v r => { r with queryId := v },
    .of "query_label" (fun _ => optionalField stringField) fun v r => { r with queryLabel := v },
    .of "request_id" (fun _ => optionalField stringField) fun v r => { r with requestId := v }]

/-- Reads a record; the kind it starts from is replaced. -/
def read : Nat → Reader StreamRecord :=
  document slots { kind := .unknown }

/-- Reads a line as a record. -/
def parse (line : List UInt8) : Except Json.Fault StreamRecord :=
  whole (read maxNesting) line

end StreamRecord

end Rowset
