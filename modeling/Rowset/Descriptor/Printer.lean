import Rowset.Descriptor.Basic
import Rowset.Text.Blank
import Rowset.Text.Digits

/-!
# Written form of type descriptors

`Descriptor.write` gives the canonical text of a type: canonical kind names in lower case, one blank after
each comma, and ` null` after a type that carries the marker.  A field name stands between back-quotes if it
is empty or holds a blank, a comma or a parenthesis.
-/

namespace Rowset.Descriptor

/-- Characters that a field name can only hold between back-quotes. -/
def needsQuotes (c : Char) : Bool :=
  Text.isBlank c || c == ',' || c == '(' || c == ')'

/-- A field name, between back-quotes where it needs them. -/
def writeName (name : String) : List Char :=
  if name.toList.isEmpty || name.toList.any needsQuotes then '`' :: name.toList ++ ['`']
  else name.toList

/-- The marker for null behind a type that carries it. -/
def writeNull (nullable : Bool) : List Char :=
  if nullable then " null".toList else []

mutual

/-- The canonical text of a type. -/
def write : Descriptor → List Char
  | scalar k n => k.name.toList ++ writeNull n
  | decimal p s n =>
    "decimal(".toList ++ Text.digits p.toNat ++ ", ".toList ++ Text.digits s.toNat ++ [')'] ++ writeNull n
  | array e n => "array(".toList ++ e.write ++ [')'] ++ writeNull n
  | struct fs n => "struct(".toList ++ writeFields fs ++ [')'] ++ writeNull n

/-- The fields of a struct with a comma and a blank between them. -/
def writeFields : List (String × Descriptor) → List Char
  | [] => []
  | (name, t) :: fs =>
    writeName name ++ ' ' :: t.write ++ (if fs.isEmpty then [] else ", ".toList ++ writeFields fs)

end

/-- The canonical text of a type. -/
def text (t : Descriptor) : String :=
  String.ofList t.write

instance : ToString Descriptor := ⟨text⟩

end Rowset.Descriptor
