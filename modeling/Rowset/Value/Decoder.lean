import Rowset.Calendar.Reader
import Rowset.Decimal.Text
import Rowset.Descriptor.Printer
import Rowset.Json.Printer
import Rowset.Text.Hex
import Rowset.Value.Basic

/-!
# Reading values

`Value.decode` reads a JSON value against a type.  Null is accepted for every type at every depth, with or
without the marker for null; nothing else is ever replaced by a default.

* Integers have neither fraction nor exponent and fit their type; a long may be quoted.
* Binary numbers are rounded to the nearest double, and a float from there; the infinities and NaN are quoted.
* Decimals keep every digit, quoted or not, and have to fit the precision of the type.
* Dates, times and binary values are quoted in their own formats.
* An object has exactly the fields of its struct.  Missing fields are looked for first, in the order of the
  declaration, then unexpected ones, in the order of the keys, and only then values.
-/

namespace Rowset

/-- What a value should have been. -/
inductive Expectation where
  | scalar (kind : Scalar)
  | decimal
  /-- A decimal that fits a precision. -/
  | decimalWithin (precision : UInt32)
  /-- An array or a struct. -/
  | composite (type : Descriptor)
deriving Repr

/-- The words for an expectation in messages. -/
def Expectation.write : Expectation → List Char
  | scalar k => k.name.toList
  | decimal => "decimal".toList
  | decimalWithin p => "decimal(".toList ++ Text.digits p.toNat ++ [')']
  | composite t => t.write

/-- What was there instead. -/
inductive Evidence where
  | json (value : Json)
  | text (s : String)
  | digits (s : String) (fault : Text.Hex.Fault)
deriving Repr

/-- The words for evidence in messages. -/
def Evidence.write : Evidence → List Char
  | json v => v.describe
  | text s => '\'' :: s.toList ++ ['\'']
  | digits s fault => '\'' :: s.toList ++ "' (".toList ++ fault.message ++ [')']

/-- Why a value is not of its type. -/
inductive DecodeFault where
  | mismatch (expected : Expectation) (found : Evidence)
  | missingField (name : String)
  | unexpectedField (name : String)
deriving Repr

/-- Reads a text as a decimal that stands on its own. -/
def Decimal.parse (s : String) : Except DecodeFault Decimal :=
  match Decimal.parse? s.toList with
  | some d => .ok d
  | none => .error (.mismatch .decimal (.text s))

namespace Value

/-! ## Numbers -/

/-- Whether an integer fits the given number of bits, one of them for its sign. -/
def fitsBits (bits : Nat) (n : Int) : Bool :=
  -Int.pow 2 (bits - 1) ≤ n && n < Int.pow 2 (bits - 1)

/-- A 32-bit integer, unquoted. -/
def readInt? : Json → Option Int
  | .number n => n.toInt?.filter (fitsBits 32)
  | _ => none

/-- A 64-bit integer, quoted or not; quoted ones may stand between blanks. -/
def readLong? : Json → Option Int
  | .number n => n.toInt?.filter (fitsBits 64)
  | .string s => (Text.parseInt? (Text.trim s.toList)).filter (fitsBits 64)
  | _ => none

/-- The binary numbers that have a name. -/
def namedDouble? (s : String) : Option (Binary .double) :=
  if s = "inf" then some (.infinity false)
  else if s = "-inf" then some (.infinity true)
  else if s = "nan" then some .nan
  else if s = "-nan" then some Binary.nan.neg
  else none

/-- A double: the nearest to a number, if that is finite, or a quoted name. -/
def readDouble? : Json → Option (Binary .double)
  | .number n => if n.nearest.isFinite then some n.nearest else none
  | .string s => namedDouble? s
  | _ => none

/-- A float: the nearest to a double that is not past the largest float. -/
def readFloat? (v : Json) : Option (Binary .single) := do
  let x ← readDouble? v
  if x.isFinite && x.exceeds (Binary.largest : Binary .single) then none else some x.convert

/-- The text of a decimal; a quoted one may stand between blanks. -/
def decimalText? : Json → Option (List Char)
  | .number n => some n.text
  | .string s => some (Text.trim s.toList)
  | _ => none

/-- Reads a decimal that fits the precision. -/
def decodeDecimal (precision : UInt32) (v : Json) : Except DecodeFault Value :=
  match decimalText? v with
  | none => .error (.mismatch .decimal (.json v))
  | some cs =>
    match Decimal.parse? cs with
    | some d =>
      if d.fitsPrecision precision.toNat then .ok (.decimal d)
      else .error (.mismatch (.decimalWithin precision) (.json v))
    | none => .error (.mismatch (.decimalWithin precision) (.json v))

/-! ## Texts -/

/-- The characters of a quoted value. -/
def readString? : Json → Option String
  | .string s => some s
  | _ => none

/-- Reads hexadecimal digits, behind `\x` or on their own. -/
def decodeBytes (s : String) : Except DecodeFault (List UInt8) :=
  let cs := match s.toList with
    | '\\' :: 'x' :: rest => rest
    | cs => cs
  match Text.Hex.decode cs with
  | .ok bs => .ok bs
  | .error fault => .error (.mismatch (.scalar .bytea) (.digits s fault))

/-- Reads a quoted value of a kind with `read`. -/
def decodeText (kind : Scalar) (v : Json) (read : String → Except DecodeFault Value) :
    Except DecodeFault Value :=
  match readString? v with
  | some s => read s
  | none => .error (.mismatch (.scalar kind) (.json v))

/-- The value that was read, or a complaint about the text. -/
def orText (kind : Scalar) (s : String) : Option Value → Except DecodeFault Value
  | some v => .ok v
  | none => .error (.mismatch (.scalar kind) (.text s))

/-- The value that was read, or a complaint about the JSON value. -/
def orJson (kind : Scalar) (v : Json) : Option Value → Except DecodeFault Value
  | some w => .ok w
  | none => .error (.mismatch (.scalar kind) (.json v))

/-! ## All types -/

/-- Reads a value of a scalar type other than null. -/
def decodeScalar (kind : Scalar) (v : Json) : Except DecodeFault Value :=
  match kind with
  | .int => orJson .int v ((readInt? v).map .int)
  | .long => orJson .long v ((readLong? v).map .long)
  | .float => orJson .float v ((readFloat? v).map .float)
  | .double => orJson .double v ((readDouble? v).map .double)
  | .boolean =>
    orJson .boolean v (match v with
      | .bool b => some (.boolean b)
      | _ => none)
  | .text => decodeText .text v fun s => .ok (.text s)
  | .geography => decodeText .geography v fun s => .ok (.geography s)
  | .date => decodeText .date v fun s => orText .date s ((Date.parse? s.toList).map .date)
  | .timestamp =>
    decodeText .timestamp v fun s => orText .timestamp s ((Timestamp.parse? s.toList).map .timestamp)
  | .timestamptz =>
    decodeText .timestamptz v fun s => orText .timestamptz s ((Zoned.parse? s.toList).map .timestamptz)
  | .bytea => decodeText .bytea v fun s => .bytea <$> decodeBytes s

/-- The first difference between the declared fields and the keys of an object. -/
def fieldFault? (fields : List (String × Descriptor)) (members : List (String × Json)) :
    Option DecodeFault :=
  match fields.find? fun f => !members.any (·.1 == f.1) with
  | some f => some (.missingField f.1)
  | none =>
    match members.find? fun m => !fields.any (·.1 == m.1) with
    | some m => some (.unexpectedField m.1)
    | none => none

mutual

/-- Reads a JSON value against a type. -/
def decode : Descriptor → Json → Except DecodeFault Value
  | t, v =>
    if v.isNull then .ok .null
    else match t with
      | .scalar k _ => decodeScalar k v
      | .decimal p _ _ => decodeDecimal p v
      | .array e n =>
        match v with
        | .array items => .array <$> items.mapM fun item => decode e item
        | _ => .error (.mismatch (.composite (.array e n)) (.json v))
      | .struct fs n =>
        match v with
        | .object ms =>
          match fieldFault? fs ms with
          | some fault => .error fault
          | none => .struct <$> decodeFields fs ms
        | _ => .error (.mismatch (.composite (.struct fs n)) (.json v))

/-- Reads the members of an object against the declared fields, in the order of the declaration. -/
def decodeFields : List (String × Descriptor) → List (String × Json) →
    Except DecodeFault (List (String × Value))
  | [], _ => .ok []
  | (name, t) :: fs, ms => do
    let v ← decode t ((ms.lookup name).getD .null)
    let vs ← decodeFields fs ms
    return (name, v) :: vs

end

end Value

end Rowset
