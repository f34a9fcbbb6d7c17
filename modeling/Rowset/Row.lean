import Rowset.Schema

/-!
# Rows

A row pairs the values of one record with the columns of its result set.  `Row.decode` reads a raw row as a
whole: its width is checked first, and the leftmost value that does not match its column is the error.
-/

namespace Rowset

/-- A record of a result set. -/
structure Row where
  values : List Value
  schema : Schema
deriving Inhabited, Repr

namespace Row

/-- Reads the cells of a raw row against their columns. -/
def decodeCells : List Column → List Json → Except Error (List Value)
  | c :: cs, v :: vs => do
    let w ← (Value.decode c.type v).mapError .value
    let ws ← decodeCells cs vs
    return w :: ws
  | _, _ => .ok []

/-- Reads a raw row. -/
def decode (s : Schema) (cells : List Json) : Except Error (List Value) :=
  if cells.length = s.size then decodeCells s.columns cells
  else .error (.framing (.rowWidth cells.length s.size))

def size (r : Row) : Nat := r.values.length

def isEmpty (r : Row) : Bool := r.values.isEmpty

def get? (r : Row) (i : Nat) : Option Value := r.values[i]?

/-- The value with this number. -/
def get (r : Row) (i : Nat) : Except Error Value :=
  match r.get? i with
  | some v => .ok v
  | none => .error (.columnIndex i r.size)

/-- The value of the column with this name. -/
def getByName? (r : Row) (name : String) : Option Value :=
  (r.schema.find? name).bind r.get?

/-- The columns with their values. -/
def fields (r : Row) : List (Column × Value) :=
  r.schema.columns.zip r.values

end Row

end Rowset
