import Rowset.Json.Document

/-!
# Errors reported by the server

The server describes an error by any of a number of fields, each of which may be missing.  `write` puts what is
there into one line.
-/

namespace Rowset

/-- The place in the text of a query that an error is about. -/
structure ErrorLocation where
  failingLine : Option Nat := none
  startOffset : Option Nat := none
  endOffset : Option Nat := none
deriving DecidableEq, Repr, Inhabited

/-- One error of a query. -/
structure ServerError where
  code : Option String := none
  name : Option String := none
  severity : Option String := none
  source : Option String := none
  description : Option String := none
  resolution : Option String := none
  location : Option ErrorLocation := none
  helpLink : Option String := none
deriving DecidableEq, Repr, Inhabited

open Json

namespace ErrorLocation

/-- The fields of a location in their order. -/
def slots : List (Slot ErrorLocation) :=
  [.of "failingLine" (fun _ => optionalField countField) fun v l => { l with failingLine := v },
    .of "startOffset" (fun _ => optionalField countField) fun v l => { l with startOffset := v },
    .of "endOffset" (fun _ => optionalField countField) fun v l => { l with endOffset := v }]

/-- Reads a location. -/
def read : Nat → Reader ErrorLocation :=
  document slots {}

/-- The line and the range of a location, as far as they are known. -/
def message (l : ErrorLocation) : String :=
  (match l.failingLine with
    | some n => " at line " ++ toString n
    | none => "") ++
  match l.startOffset, l.endOffset with
  | some a, some b => " [" ++ toString a ++ ".." ++ toString b ++ "]"
  | _, _ => ""

end ErrorLocation

namespace ServerError

/-- The fields of an error in their order. -/
def slots : List (Slot ServerError) :=
  [.of "code" (fun _ => optionalField stringField) fun v e => { e with code := v },
    .of "name" (fun _ => optionalField stringField) fun v e => { e with name := v },
    .of "severity" (fun _ => optionalField stringField) fun v e => { e with severity := v },
    .of "source" (fun _ => optionalField stringField) fun v e => { e with source := v },
    .of "description" (fun _ => optionalField stringField) fun v e => { e with description := v },
    .of "resolution" (fun _ => optionalField stringField) fun v e => { e with resolution := v },
    .of "location" (fun levels => optionalField (ErrorLocation.read levels))
      fun v e => { e with location := v },
    .of "helpLink" (fun _ => optionalField stringField) fun v e => { e with helpLink := v }]

/-- Reads an error. -/
def read : Nat → Reader ServerError :=
  document slots {}

/-- A part of the message between two texts, nothing if the part is missing. -/
def part (before : String) (s : Option String) (after : String) : String :=
  match s with
  | some s => before ++ s ++ after
  | none => ""

/-- The error in one line. -/
def message (e : ServerError) : String :=
  part "" e.severity ": " ++ part "" e.code " " ++ part "(" e.name ") " ++
    e.description.getD "unknown error" ++ (e.location.map ErrorLocation.message).getD "" ++
    part ". " e.resolution "" ++ part " (see " e.helpLink ")"

/-- A list of errors in one line: the first one and how many follow. -/
def summary : List ServerError → String
  | [] => "no error details"
  | [e] => e.message
  | e :: es => e.message ++ " (and " ++ toString es.length ++ " more)"

end ServerError

end Rowset
