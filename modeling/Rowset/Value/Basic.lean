import Rowset.Binary.Basic
import Rowset.Calendar.Timestamp
import Rowset.Decimal.Basic

/-!
# Values

A `Value` is what a cell of a row holds once its text has been read against the type of its column.  Null is a
value of every type and stands for no other value, at any depth.

`equal` compares values as numbers, instants and sets of fields: kinds never mix, decimals compare
numerically, zoned times by instant, binary numbers as IEEE 754 does, and the order of struct fields does not
matter.
-/

namespace Rowset

/-- A decoded value. -/
inductive Value where
  | null
  /-- A 32-bit integer. -/
  | int (n : Int)
  /-- A 64-bit integer. -/
  | long (n : Int)
  | float (x : Binary .single)
  | double (x : Binary .double)
  | text (s : String)
  | date (d : Date)
  | timestamp (t : Timestamp)
  | timestamptz (z : Zoned)
  | boolean (b : Bool)
  | bytea (bytes : List UInt8)
  | geography (s : String)
  | decimal (d : Decimal)
  | array (items : List Value)
  /-- Fields in the order of their declaration. -/
  | struct (fields : List (String × Value))
deriving Inhabited, Repr

namespace Value

/-! ## Views -/

def isNull : Value → Bool
  | null => true
  | _ => false

/-- The characters of a text or a geography. -/
def string? : Value → Option String
  | text s | geography s => some s
  | _ => none

/-- A whole number as a 64-bit integer. -/
def int64? : Value → Option Int
  | int n | long n => some n
  | decimal d => d.toInt64?
  | _ => none

/-- A number as a double. -/
def double? : Value → Option (Binary .double)
  | int n | long n => some (.ofInt n)
  | float x => some x.convert
  | double x => some x
  | decimal d => some d.toDouble
  | _ => none

def boolean? : Value → Option Bool
  | boolean b => some b
  | _ => none

def date? : Value → Option Date
  | date d => some d
  | _ => none

def timestamp? : Value → Option Timestamp
  | timestamp t => some t
  | _ => none

def timestamptz? : Value → Option Zoned
  | timestamptz z => some z
  | _ => none

def decimal? : Value → Option Decimal
  | decimal d => some d
  | _ => none

def bytes? : Value → Option (List UInt8)
  | bytea bs => some bs
  | _ => none

def items? : Value → Option (List Value)
  | array vs => some vs
  | _ => none

def fields? : Value → Option (List (String × Value))
  | struct fs => some fs
  | _ => none

/-! ## Equality -/

mutual

/-- Whether two values are equal. -/
def equal : Value → Value → Bool
  | null, null => true
  | int m, int n => m == n
  | long m, long n => m == n
  | float x, float y => x.numericallyEq y
  | double x, double y => x.numericallyEq y
  | text s, text t => s == t
  | date d, date e => d == e
  | timestamp t, timestamp u => t == u
  | timestamptz y, timestamptz z => y.sameInstant z
  | boolean a, boolean b => a == b
  | bytea a, bytea b => a == b
  | geography s, geography t => s == t
  | decimal d, decimal e => d.numericallyEq e
  | array vs, array ws => equalItems vs ws
  | struct fs, struct gs => fs.length == gs.length && equalFields fs gs
  | _, _ => false

/-- Whether two lists have equal items in the same places. -/
def equalItems : List Value → List Value → Bool
  | [], [] => true
  | v :: vs, w :: ws => equal v w && equalItems vs ws
  | _, _ => false

/-- Whether every field on the left has an equal field of its name on the right. -/
def equalFields : List (String × Value) → List (String × Value) → Bool
  | [], _ => true
  | (name, v) :: fs, gs =>
    (match gs.lookup name with
      | some w => equal v w
      | none => false) && equalFields fs gs

end

end Value

end Rowset
