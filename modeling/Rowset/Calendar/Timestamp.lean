import Rowset.Calendar.Date

/-!
# Times with and without an offset

A `Timestamp` is a time on the clock of some unnamed place.  A leap second is the second 59 with a fraction of
a second or more.  A `Zoned` time adds how far that clock is ahead of universal time; two of them are the same
instant if their universal times agree.
-/

namespace Rowset

/-- A time on a day, to the nanosecond. -/
structure Timestamp where
  date : Date
  hour : Nat
  minute : Nat
  second : Nat
  /-- Nanoseconds; a billion or more inside a leap second. -/
  nano : Nat
deriving DecidableEq, Repr

namespace Timestamp

/-- A billion nanoseconds are a second. -/
def nanosPerSecond : Nat := 1000000000

/-- The time on `date` at these hands of the clock, if there is one; second 60 is a leap second. -/
def of? (date : Date) (hour minute second nano : Nat) : Option Timestamp :=
  if hour < 24 ∧ minute < 60 ∧ nano < nanosPerSecond then
    if second < 60 then some ⟨date, hour, minute, second, nano⟩
    else if second = 60 then some ⟨date, hour, minute, 59, nanosPerSecond + nano⟩
    else none
  else none

/-- The whole seconds since midnight. -/
def secondOfDay (t : Timestamp) : Nat :=
  3600 * t.hour + 60 * t.minute + t.second

/-- The seconds from the start of 1970 on the same clock. -/
def clockSeconds (t : Timestamp) : Int :=
  86400 * t.date.dayNumber + t.secondOfDay

end Timestamp

/-- A time on a clock that is `offset` seconds ahead of universal time. -/
structure Zoned where
  wall : Timestamp
  offset : Int
deriving DecidableEq, Repr

namespace Zoned

/-- The seconds from the start of 1970 in universal time. -/
def unixSeconds (z : Zoned) : Int :=
  z.wall.clockSeconds - z.offset

/-- Whether universal time is in a supported year. -/
def inRange (z : Zoned) : Bool :=
  86400 * (⟨Date.firstYear, 1, 1⟩ : Date).dayNumber ≤ z.unixSeconds
    && z.unixSeconds < 86400 * ((⟨Date.lastYear, 12, 31⟩ : Date).dayNumber + 1)

/-- The time with this clock and offset, if the offset is less than a day and universal time is in range. -/
def of? (wall : Timestamp) (offset : Int) : Option Zoned :=
  let z : Zoned := ⟨wall, offset⟩
  if offset.natAbs < 86400 && z.inRange then some z else none

/-- Whether two times are the same instant. -/
def sameInstant (y z : Zoned) : Bool :=
  y.unixSeconds == z.unixSeconds && y.wall.nano == z.wall.nano

end Zoned

end Rowset
