import Rowset.Binary.Shortest
import Rowset.Calendar.Printer
import Rowset.Decimal.Text
import Rowset.Text.Hex
import Rowset.Value.Basic

/-!
# Text of values

A value of a scalar type is written the way it is sent, binary values as digits behind `\x`.  Null is written
`NULL`.  Items and fields stand between brackets and braces with commas between them; texts inside are not
quoted.
-/

namespace Rowset.Value

mutual

/-- The text of a value. -/
def write : Value → List Char
  | null => "NULL".toList
  | int n | long n => Text.signed n
  | float x => x.text
  | double x => x.text
  | text s | geography s => s.toList
  | date d => d.write
  | timestamp t => t.write
  | timestamptz z => z.write
  | boolean true => "true".toList
  | boolean false => "false".toList
  | bytea bs => '\\' :: 'x' :: Text.Hex.encode bs
  | decimal d => d.write
  | array vs => '[' :: writeItems vs ++ [']']
  | struct fs => '\x7b' :: writeFields fs ++ ['\x7d']

/-- The items of an array. -/
def writeItems : List Value → List Char
  | [] => []
  | v :: vs => v.write ++ (if vs.isEmpty then [] else ',' :: writeItems vs)

/-- The fields of a struct, each as name, colon and value. -/
def writeFields : List (String × Value) → List Char
  | [] => []
  | (name, v) :: fs => name.toList ++ ':' :: v.write ++ (if fs.isEmpty then [] else ',' :: writeFields fs)

end

instance : ToString Value := ⟨fun v => String.ofList v.write⟩

end Rowset.Value
