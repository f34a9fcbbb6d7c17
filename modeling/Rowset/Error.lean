import Rowset.Decimal.Parts
import Rowset.Descriptor.Parser
import Rowset.Json.Scanner
import Rowset.Value.Decoder
import Rowset.Wire.StreamRecord

/-!
# Errors

Every way in which reading results can fail, by its cause.  The wording is in `Error.message` and the messages
of the causes.
-/

namespace Rowset

/-- How a sequence of records or the shape of a row departs from what it should be. -/
inductive Framing where
  | endedBeforeStart
  | endedBeforeFinish
  | dataBeforeStart
  | finishBeforeStart
  | startInside
  | unexpectedKind (kind : RecordKind)
  | noColumns
  | rowWidth (found expected : Nat)
deriving DecidableEq, Repr

/-- What is wrong with the records or the row. -/
def Framing.message : Framing → String
  | endedBeforeStart => "response ended before START"
  | endedBeforeFinish => "response ended before FINISHED_WITH_SUCCESS"
  | dataBeforeStart => "DATA received before START"
  | finishBeforeStart => "FINISHED_WITH_SUCCESS received before START"
  | startInside => "unexpected START inside a result set"
  | unexpectedKind k => "unexpected message type " ++ k.name
  | noColumns => "result set has no column metadata"
  | rowWidth found expected => "row has " ++ toString found ++ " values, expected " ++ toString expected

/-- The words for a value that is not of its type. -/
def DecodeFault.message : DecodeFault → String
  | mismatch expected found =>
    String.ofList ("Cannot decode ".toList ++ found.write ++ " as ".toList ++ expected.write)
  | missingField name => "Struct field mismatch: missing field '" ++ name ++ "'"
  | unexpectedField name => "Struct field mismatch: unexpected field '" ++ name ++ "'"

/-- The words for a text that is not the JSON that is wanted. -/
def Json.Fault.message : Json.Fault → String
  | malformed => "the text is malformed"
  | truncated => "the text ends too early"
  | mismatched => "the value is of the wrong kind"

/-- Why a result could not be read. -/
inductive Error where
  /-- A body could not be read. -/
  | read (cause : String)
  | json (fault : Json.Fault)
  | descriptor (text : String) (fault : Descriptor.Fault)
  | value (fault : DecodeFault)
  | parts (fault : Decimal.PartsFault)
  | framing (fault : Framing)
  /-- The server reported errors instead of a result. -/
  | server (errors : List ServerError)
  | columnIndex (index count : Nat)
  | lineTooLong (limit : Nat)
  | closed
deriving Repr

namespace Error

/-- What went wrong. -/
def message : Error → String
  | read cause => "I/O error: " ++ cause
  | json fault => "Invalid JSON: " ++ fault.message
  | descriptor text fault => "Invalid type descriptor '" ++ text ++ "': " ++ fault.message text.toList
  | value fault => fault.message
  | parts fault => "Invalid decimal: " ++ fault.message
  | framing fault => "Protocol error: " ++ fault.message
  | server errors => "Server error: " ++ ServerError.summary errors
  | columnIndex index count =>
    "Column index " ++ toString index ++ " out of bounds (columns: " ++ toString count ++ ")"
  | lineTooLong limit => "Stream record exceeds " ++ toString limit ++ " bytes"
  | closed => "Cursor is closed"

/-- Whether the error is about a value that does not match its type. -/
def isDecode : Error → Bool
  | value _ => true
  | _ => false

end Error

end Rowset
