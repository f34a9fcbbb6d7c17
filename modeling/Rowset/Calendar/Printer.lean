import Rowset.Calendar.Timestamp
import Rowset.Text.Digits

/-!
# Written form of dates and times

Years have at least four digits, and a sign outside the years 0 to 9999.  A fraction of a second is left out
or takes three, six or nine digits, whichever is the first to be exact.  An offset is rounded to minutes.
-/

namespace Rowset

namespace Date

/-- The text of a year. -/
def writeYear (year : Int) : List Char :=
  if 0 ≤ year ∧ year ≤ 9999 then Text.padded 4 year.toNat
  else (if year < 0 then '-' else '+') :: Text.padded 4 year.natAbs

/-- The text of a date. -/
def write (d : Date) : List Char :=
  writeYear d.year ++ '-' :: Text.padded 2 d.month ++ '-' :: Text.padded 2 d.day

end Date

namespace Timestamp

/-- The text of a fraction of a second, a number of nanoseconds below a billion. -/
def writeFraction (nano : Nat) : List Char :=
  if nano = 0 then []
  else if nano % 1000000 = 0 then '.' :: Text.padded 3 (nano / 1000000)
  else if nano % 1000 = 0 then '.' :: Text.padded 6 (nano / 1000)
  else '.' :: Text.padded 9 nano

/-- The text of a time; a leap second is written as second 60. -/
def write (t : Timestamp) : List Char :=
  t.date.write ++ ' ' :: Text.padded 2 t.hour ++ ':' :: Text.padded 2 t.minute ++
    ':' :: Text.padded 2 (t.second + t.nano / nanosPerSecond) ++ writeFraction (t.nano % nanosPerSecond)

end Timestamp

namespace Zoned

/-- The text of an offset to the nearest minute, half a minute away from zero. -/
def writeOffset (offset : Int) : List Char :=
  let minutes := (offset.natAbs + 30) / 60
  (if offset < 0 then '-' else '+') :: Text.padded 2 (minutes / 60) ++ ':' :: Text.padded 2 (minutes % 60)

/-- The text of a zoned time. -/
def write (z : Zoned) : List Char :=
  z.wall.write ++ writeOffset z.offset

end Zoned

end Rowset
