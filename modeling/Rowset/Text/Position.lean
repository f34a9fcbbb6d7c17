import Rowset.Text.Blank
import Rowset.Text.Utf8

/-!
# Positions in a text

A position in a text is a number of bytes of its UTF-8 form.  A byte can be looked at wherever it stands, but
characters are only cut out between two boundaries: positions where a character begins or the text ends.
-/

namespace Rowset.Text

/-- The Latin-1 character of a byte. -/
def latin1 (b : UInt8) : Char :=
  Char.ofNat b.toNat

/-- The byte at a position, none behind the end. -/
def byteAt? (text : List Char) (pos : Nat) : Option UInt8 :=
  (Utf8.encode text)[pos]?

/-- The position behind the bytes from `pos` on that have a property. -/
def runEnd (p : UInt8 → Bool) (text : List Char) (pos : Nat) : Nat :=
  pos + (((Utf8.encode text).drop pos).takeWhile p).length

/-- The text before and from a position, none if the position is inside of a character or behind the end. -/
def splitAt? : Nat → List Char → Option (List Char × List Char)
  | 0, cs => some ([], cs)
  | _ + 1, [] => none
  | pos + 1, c :: cs =>
    if c.utf8Size ≤ pos + 1 then (splitAt? (pos + 1 - c.utf8Size) cs).map fun parts => (c :: parts.1, parts.2)
    else none
termination_by structural _ cs => cs

/-- Whether a character begins, or the text ends, at a position. -/
def isBoundary (text : List Char) (pos : Nat) : Bool :=
  (splitAt? pos text).isSome

/-- The characters between two positions, none unless these are boundaries in their order. -/
def slice? (text : List Char) (first last : Nat) : Option (List Char) :=
  match splitAt? first text with
  | some (_, rest) => if first ≤ last then (splitAt? (last - first) rest).map (·.1) else none
  | none => none

/-- The last boundary up to a position, searched for backwards; none if the search goes on below zero. -/
def lastBoundary? (text : List Char) : Nat → Option Nat
  | 0 => if isBoundary text 0 then some 0 else none
  | pos + 1 => if isBoundary text (pos + 1) then some (pos + 1) else lastBoundary? text pos

end Rowset.Text
