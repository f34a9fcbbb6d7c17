import Rowset.Json.Basic
import Rowset.Text.Hex
import Rowset.Text.Position

/-!
# Compact text of JSON values

No blanks are written.  In strings the quote, the backslash and the control characters are escaped, five of
these by a letter and the others by four hexadecimal digits.

`describe` cuts a text that is too long for a message: it keeps the longest start of at most
`reportLimit` bytes that ends between two characters, and three dots follow.  `shorten?` finds the same end by going back
from the limit to the last boundary.
-/

namespace Rowset.Json

/-- A character inside a string. -/
def escape (c : Char) : List Char :=
  if c = '"' then ['\\', '"']
  else if c = '\\' then ['\\', '\\']
  else if c = '\x08' then ['\\', 'b']
  else if c = '\x0c' then ['\\', 'f']
  else if c = '\n' then ['\\', 'n']
  else if c = '\r' then ['\\', 'r']
  else if c = '\t' then ['\\', 't']
  else if c.toNat < 0x20 then
    ['\\', 'u', '0', '0', Text.Hex.digit (c.toNat / 16), Text.Hex.digit (c.toNat % 16)]
  else [c]

/-- A string between quotes. -/
def writeString (s : String) : List Char :=
  '"' :: s.toList.flatMap escape ++ ['"']

mutual

/-- The compact text of a value. -/
def write : Json → List Char
  | null => "null".toList
  | bool true => "true".toList
  | bool false => "false".toList
  | number n => n.text
  | string s => writeString s
  | array vs => '[' :: writeItems vs ++ [']']
  | object ms => '\x7b' :: writeMembers ms ++ ['\x7d']

/-- The items of an array with commas between them. -/
def writeItems : List Json → List Char
  | [] => []
  | v :: vs => v.write ++ (if vs.isEmpty then [] else ',' :: writeItems vs)

/-- The members of an object with commas between them. -/
def writeMembers : List (String × Json) → List Char
  | [] => []
  | (key, v) :: ms =>
    writeString key ++ ':' :: v.write ++ (if ms.isEmpty then [] else ',' :: writeMembers ms)

end

/-- The compact text of a value. -/
def text (v : Json) : String :=
  String.ofList v.write

/-- The most bytes of a value that a message shows. -/
def reportLimit : Nat := 64

/-- The longest start of a text that takes at most the given number of bytes. -/
def takeBytes : Nat → List Char → List Char
  | _, [] => []
  | limit, c :: cs => if c.utf8Size ≤ limit then c :: takeBytes (limit - c.utf8Size) cs else []

theorem takeBytes_prefix (limit : Nat) (cs : List Char) : takeBytes limit cs <+: cs := by
  induction cs generalizing limit with
  | nil => simp [takeBytes]
  | cons c cs ih =>
    unfold takeBytes
    split
    · exact List.cons_prefix_cons.mpr ⟨rfl, ih _⟩
    · exact List.nil_prefix

theorem byteSize_takeBytes_le (limit : Nat) (cs : List Char) :
    Text.byteSize (takeBytes limit cs) ≤ limit := by
  induction cs generalizing limit with
  | nil => simp [takeBytes]
  | cons c cs ih =>
    unfold takeBytes
    split
    · next h =>
      have := ih (limit - c.utf8Size)
      rw [Text.byteSize_cons]
      omega
    · simp

/-- The text of a value for a message, shortened if it is long. -/
def describe (v : Json) : List Char :=
  let cs := v.write
  if Text.byteSize cs ≤ reportLimit then cs
  else takeBytes reportLimit cs ++ "...".toList

/-- A text for a message, cut off behind the last boundary up to the limit if it is longer; none if the search for that
boundary goes on below zero. -/
def shorten? (limit : Nat) (cs : List Char) : Option (List Char) :=
  if Text.byteSize cs ≤ limit then some cs
  else
    match Text.lastBoundary? cs limit with
    | some last => (Text.slice? cs 0 last).map (· ++ "...".toList)
    | none => none

end Rowset.Json
