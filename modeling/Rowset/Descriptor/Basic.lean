/-!
# Type descriptors

A result column carries the description of its type: a scalar kind, a decimal with precision and scale, an
array of another type, or a struct with named fields in declaration order.  Every level says on its own
whether null is expected there.

`Descriptor.ofFields` is the public way to build a struct: names are distinct afterwards, a later field of
an earlier name takes the earlier one's place.  Two descriptors are `Same` (decided by `same`) when they
differ at most in the order of struct fields; markers for null count.
-/

namespace Rowset

/-- The kinds of type without parameters. -/
inductive Scalar where
  | int
  | long
  | float
  | double
  | text
  | date
  | timestamp
  | timestamptz
  | boolean
  | bytea
  | geography
deriving DecidableEq, Repr

/-- The canonical name of a scalar kind. -/
def Scalar.name : Scalar → String
  | .int => "int"
  | .long => "long"
  | .float => "float"
  | .double => "double"
  | .text => "text"
  | .date => "date"
  | .timestamp => "timestamp"
  | .timestamptz => "timestamptz"
  | .boolean => "boolean"
  | .bytea => "bytea"
  | .geography => "geography"

/-- The type of a column, an array element or a struct field. -/
inductive Descriptor where
  | scalar (kind : Scalar) (nullable : Bool)
  | decimal (precision scale : UInt32) (nullable : Bool)
  | array (element : Descriptor) (nullable : Bool)
  | struct (fields : List (String × Descriptor)) (nullable : Bool)
deriving Inhabited, Repr

namespace Descriptor

/-- Whether the type carries the marker for null. -/
def nullable : Descriptor → Bool
  | scalar _ n | decimal _ _ n | array _ n | struct _ n => n

/-- The same type with the marker for null. -/
def orNull : Descriptor → Descriptor
  | scalar k _ => scalar k true
  | decimal p s _ => decimal p s true
  | array e _ => array e true
  | struct fs _ => struct fs true

/-- The name of the kind without its parameters. -/
def kindName : Descriptor → String
  | scalar k _ => k.name
  | decimal .. => "decimal"
  | array .. => "array"
  | struct .. => "struct"

/-- Precision and scale of a decimal. -/
def precisionScale? : Descriptor → Option (UInt32 × UInt32)
  | decimal p s _ => some (p, s)
  | _ => none

/-- Puts a field into a list of fields: in place of the field of that name, else at the end. -/
def putField (name : String) (type : Descriptor) :
    List (String × Descriptor) → List (String × Descriptor)
  | [] => [(name, type)]
  | f :: fs => if f.1 = name then (name, type) :: fs else f :: putField name type fs

/-- The struct with these fields; of two fields of one name the later takes the earlier one's place. -/
def ofFields (fields : List (String × Descriptor)) (nullable : Bool) : Descriptor :=
  struct (fields.foldl (fun fs f => putField f.1 f.2 fs) []) nullable

mutual

/-- The number of levels: one for a type without components. -/
def height : Descriptor → Nat
  | scalar .. => 1
  | decimal .. => 1
  | array e _ => e.height + 1
  | struct fs _ => heightOfFields fs + 1

/-- The largest number of levels among the fields, zero without any. -/
def heightOfFields : List (String × Descriptor) → Nat
  | [] => 0
  | (_, t) :: fs => max t.height (heightOfFields fs)

end

@[simp] theorem height_orNull (t : Descriptor) : t.orNull.height = t.height := by
  cases t <;> simp [orNull, height]

mutual

/-- Whether two types agree up to the order of struct fields at every level. -/
def same : Descriptor → Descriptor → Bool
  | scalar k n, scalar k' n' => k == k' && n == n'
  | decimal p s n, decimal p' s' n' => p == p' && s == s' && n == n'
  | array e n, array e' n' => same e e' && n == n'
  | struct fs n, struct fs' n' => fs.length == fs'.length && sameFields fs fs' && n == n'
  | _, _ => false

/-- Whether every field on the left has a field of its name and type on the right. -/
def sameFields : List (String × Descriptor) → List (String × Descriptor) → Bool
  | [], _ => true
  | (name, t) :: fs, gs =>
    (match gs.lookup name with
      | some t' => same t t'
      | none => false) && sameFields fs gs

end

end Descriptor

end Rowset
