import Rowset.Calendar.Timestamp
import Rowset.Text.Blank
import Rowset.Text.Digits

/-!
# Reading dates and times

Dates are written year-month-day, times hour:minute:second with an optional fraction, and a zoned time ends
in its offset.  Before each number blanks of any kind are passed over, so that a blank between date and time
is neither required nor limited in number; the marks between the numbers have to follow at once.

The offset of a zoned time is `Z`, or a sign, hours and optionally minutes.  Seconds behind the minutes are
read on their own: they go in the direction of the last sign that stands behind the first space.
-/

namespace Rowset

namespace Calendar

/-! ## Numbers and marks -/

/-- Reads one to `width` digits after any blanks. -/
def number? (width : Nat) (cs : List Char) : Option (Nat × List Char) :=
  let cs := Text.trimStart cs
  let ds := (cs.take width).takeWhile Char.isDigit
  if ds.isEmpty then none else some (Text.ofDigits ds, cs.drop ds.length)

/-- Reads a mark that has to follow at once. -/
def mark? (mark : Char) : List Char → Option (List Char)
  | c :: rest => if c = mark then some rest else none
  | [] => none

/-- Reads a year after any blanks: one to four digits, or behind a sign any number of digits. -/
def year? (cs : List Char) : Option (Int × List Char) :=
  let signed (rest : List Char) : Option (Nat × List Char) :=
    let (ds, rest) := Text.spanDigits rest
    if ds.isEmpty then none else some (Text.ofDigits ds, rest)
  match Text.trimStart cs with
  | '-' :: rest => (signed rest).map fun (n, rest) => (-(n : Int), rest)
  | '+' :: rest => (signed rest).map fun (n, rest) => ((n : Int), rest)
  | cs => (number? 4 cs).map fun (n, rest) => ((n : Int), rest)

/-- Reads the fraction of a second as nanoseconds, zero without a point; digits past the ninth do not
count. -/
def fraction? (cs : List Char) : Option (Nat × List Char) :=
  match cs with
  | '.' :: rest =>
    let (ds, rest) := Text.spanDigits rest
    let kept := ds.take 9
    if ds.isEmpty then none else some (Text.ofDigits kept * Nat.pow 10 (9 - kept.length), rest)
  | _ => some (0, cs)

/-! ## Dates and times -/

/-- Reads a date from the start of a text. -/
def date? (cs : List Char) : Option (Date × List Char) := do
  let (year, cs) ← year? cs
  let cs ← mark? '-' cs
  let (month, cs) ← number? 2 cs
  let cs ← mark? '-' cs
  let (day, cs) ← number? 2 cs
  let date ← Date.of? year month day
  return (date, cs)

/-- Reads a date and a time from the start of a text. -/
def timestamp? (cs : List Char) : Option (Timestamp × List Char) := do
  let (date, cs) ← date? cs
  let (hour, cs) ← number? 2 cs
  let cs ← mark? ':' cs
  let (minute, cs) ← number? 2 cs
  let cs ← mark? ':' cs
  let (second, cs) ← number? 2 cs
  let (nano, cs) ← fraction? cs
  let t ← Timestamp.of? date hour minute second nano
  return (t, cs)

/-! ## Offsets -/

/-- Two digits at the start of a text, the first of them at most `most`. -/
def twoDigits? (most : Char) : List Char → Option (Nat × List Char)
  | c :: d :: rest =>
    if c.isDigit && d.isDigit && c ≤ most then some (Text.ofDigits [c, d], rest) else none
  | _ => none

/-- The direction of a sign: behind it stand seconds ahead of universal time or behind it. -/
def direction? (c : Char) : Option Int :=
  if c = '+' then some 1
  else if c = '-' || c = '\u2212' then some (-1)
  else none

/-- Characters that may stand between the hours and minutes of an offset. -/
def separatesMinutes (c : Char) : Bool := c == ':' || Text.isBlank c

/-- Reads the minutes of an offset; nothing at all means none. -/
def offsetMinutes? (cs : List Char) : Option (Nat × List Char) :=
  match cs.dropWhile separatesMinutes with
  | [] => some (0, [])
  | cs => twoDigits? '5' cs

/-- Reads an offset after any blanks, in seconds. -/
def offset? (cs : List Char) : Option (Int × List Char) :=
  match Text.trimStart cs with
  | [] => none
  | c :: cs =>
    if c = 'Z' || c = 'z' then some (0, cs)
    else do
      let sign ← direction? c
      let (hours, cs) ← twoDigits? '9' cs
      let (minutes, cs) ← offsetMinutes? cs
      return (sign * (3600 * hours + 60 * minutes), cs)

/-- Reads the seconds of an offset, which have to end the text. -/
def offsetSeconds? (cs : List Char) : Option Nat := do
  let cs ← mark? ':' cs
  match ← twoDigits? '5' cs with
  | (s, []) => some s
  | _ => none

/-- The direction of the last sign behind the first space. -/
def lastDirection? (cs : List Char) : Option Int :=
  (cs.dropWhile (· != ' ')).reverse.findSome? direction?

end Calendar

open Calendar

/-- Reads a whole text as a date. -/
def Date.parse? (cs : List Char) : Option Date :=
  match date? cs with
  | some (d, []) => some d
  | _ => none

/-- Reads a whole text as a date and a time. -/
def Timestamp.parse? (cs : List Char) : Option Timestamp :=
  match timestamp? cs with
  | some (t, []) => some t
  | _ => none

/-- Reads a whole text as a date and a time with an offset.  Without the seconds of the offset the text has
to be a zoned time too. -/
def Zoned.parse? (cs : List Char) : Option Zoned := do
  let (wall, rest) ← timestamp? cs
  let (offset, rest) ← offset? rest
  let z ← Zoned.of? wall offset
  if rest.isEmpty then
    return z
  let seconds ← offsetSeconds? rest
  let sign ← lastDirection? (cs.take (cs.length - rest.length))
  Zoned.of? wall (offset + sign * seconds)

end Rowset
