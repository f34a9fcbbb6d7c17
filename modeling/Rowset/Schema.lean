import Rowset.Error

/-!
# Columns of a result set

A `Schema` holds the columns of a result set with their types read.  It is built from all headers or from none:
`setColumns` keeps what it had if one of the types is malformed.

Columns are found by name, the exact name first and then any name that differs only in the case of ASCII
letters.
-/

namespace Rowset

/-- A column of a result set. -/
structure Column where
  name : String
  type : Descriptor
  /-- The text that the type was read from. -/
  rawType : String
deriving Inhabited, Repr

/-- Reads the type of a column. -/
def Column.ofHeader (h : ColumnHeader) : Except Error Column :=
  match Descriptor.parse h.type with
  | .ok t => .ok ⟨h.name, t, h.type⟩
  | .error fault => .error (.descriptor h.type fault)

/-- The representation that the values of a column are decoded into. -/
inductive NativeKind where
  | int32
  | int64
  | float32
  | float64
  | string
  | date
  | localTime
  | zonedTime
  | boolean
  | bytes
  | decimal
  | array
  | struct
deriving DecidableEq, Repr

/-- The representation of the values of a type. -/
def NativeKind.of : Descriptor → NativeKind
  | .scalar .int _ => int32
  | .scalar .long _ => int64
  | .scalar .float _ => float32
  | .scalar .double _ => float64
  | .scalar .text _ | .scalar .geography _ => string
  | .scalar .date _ => date
  | .scalar .timestamp _ => localTime
  | .scalar .timestamptz _ => zonedTime
  | .scalar .boolean _ => boolean
  | .scalar .bytea _ => bytes
  | .decimal .. => decimal
  | .array .. => array
  | .struct .. => struct

/-- The columns of a result set in their order. -/
structure Schema where
  columns : List Column := []
deriving Inhabited, Repr

namespace Schema

/-- Reads the types of all columns; the first malformed one is the error. -/
def ofHeaders (hs : List ColumnHeader) : Except Error Schema := do
  return ⟨← hs.mapM Column.ofHeader⟩

/-- Replaces the columns, or keeps them if a type is malformed. -/
def setColumns (s : Schema) (hs : List ColumnHeader) : Except Error Unit × Schema :=
  match ofHeaders hs with
  | .ok s' => (.ok (), s')
  | .error e => (.error e, s)

def names (s : Schema) : List String := s.columns.map (·.name)

def size (s : Schema) : Nat := s.columns.length

def isEmpty (s : Schema) : Bool := s.columns.isEmpty

def get? (s : Schema) (i : Nat) : Option Column := s.columns[i]?

/-- The column with this number. -/
def get (s : Schema) (i : Nat) : Except Error Column :=
  match s.get? i with
  | some c => .ok c
  | none => .error (.columnIndex i s.size)

/-- Whether two names differ at most in the case of ASCII letters. -/
def sameName (a b : String) : Bool :=
  a.toList.map Char.toLower == b.toList.map Char.toLower

/-- The number of the column with this name. -/
def find? (s : Schema) (name : String) : Option Nat :=
  (s.columns.findIdx? (·.name == name)).or (s.columns.findIdx? (sameName ·.name name))

/-! ## Questions about one column -/

/-- The representation of the values of a column. -/
def nativeKind (s : Schema) (i : Nat) : Except Error NativeKind := do
  return .of (← s.get i).type

/-- Whether a column is marked for null. -/
def nullable (s : Schema) (i : Nat) : Except Error Bool := do
  return (← s.get i).type.nullable

/-- The greatest length of a column whose values have one. -/
def unboundedLength : Nat := UInt64.size - 1

/-- The greatest length of the values of a type, if their length varies. -/
def lengthOf? : Descriptor → Option Nat
  | .scalar .text _ | .scalar .bytea _ | .scalar .geography _ | .array .. => some unboundedLength
  | _ => none

/-- The greatest length of the values of a column, if their length varies. -/
def length? (s : Schema) (i : Nat) : Except Error (Option Nat) := do
  return lengthOf? (← s.get i).type

/-- Precision and scale of a decimal column. -/
def precisionScale? (s : Schema) (i : Nat) : Except Error (Option (UInt32 × UInt32)) := do
  return (← s.get i).type.precisionScale?

/-- The name of the type of a column in upper case, without parameters. -/
def typeName (s : Schema) (i : Nat) : Except Error String := do
  return String.ofList ((← s.get i).type.kindName.toList.map Char.toUpper)

end Schema

end Rowset
