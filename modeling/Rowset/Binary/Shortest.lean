import Rowset.Binary.Basic
import Rowset.Text.Digits

/-!
# Shortest decimal text of a binary number

Of all decimals that read back as the number, the shortest have the coarsest grid `10 ^ p` with a point
inside the interval that rounds to it.  `shortest` walks the grids from coarse to fine and takes the first
such point, the nearer one of two and the larger one of two equally near.  The text is always positional.
-/

namespace Rowset.Binary

variable {f : Format}

/-- The interval of magnitudes that round to a number: its ends and middle over one denominator, and
whether the ends belong to it. -/
structure Neighbourhood where
  low : Nat
  middle : Nat
  high : Nat
  den : Nat
  closed : Bool
deriving DecidableEq, Repr

/-- What rounds to a finite positive number.  Below a power of two the gap is half as wide. -/
def neighbourhood (x : Binary f) : Neighbourhood :=
  let m := x.significand
  let below := if m = 1 <<< f.fractionBits then 1 else 2
  -- The unit is a quarter of the last place.
  let unit := 1 <<< (x.quantum - 2).toNat
  { low := (4 * m - below) * unit, middle := 4 * m * unit, high := (4 * m + 2) * unit
    den := 1 <<< (2 - x.quantum).toNat, closed := m % 2 == 0 }

namespace Neighbourhood

/-- Whether `c * scale / den'` lies in the interval, for a grid `scale / den'`. -/
def contains (n : Neighbourhood) (num den : Nat) : Bool :=
  let v := num * n.den
  if n.closed then n.low * den ≤ v && v ≤ n.high * den
  else n.low * den < v && v < n.high * den

/-- The point of the grid `10 ^ p` inside the interval that is nearest to its middle. -/
def onGrid? (n : Neighbourhood) (p : Int) : Option Nat :=
  let up := Nat.pow 10 p.toNat
  let down := Nat.pow 10 (-p).toNat
  let c := n.middle * down / (n.den * up)
  match n.contains (c * up) down, n.contains ((c + 1) * up) down with
  | true, true =>
    -- Twice the middle against the sum of the two candidates.
    if 2 * n.middle * down < (2 * c + 1) * up * n.den then some c else some (c + 1)
  | true, false => some c
  | false, true => some (c + 1)
  | false, false => none

/-- The first grid with a point inside, from `10 ^ p` down. -/
def search (n : Neighbourhood) : Nat → Int → Nat × Int
  | 0, p => (n.middle, p)
  | fuel + 1, p =>
    match n.onGrid? p with
    | some c => (c, p)
    | none => n.search fuel (p - 1)

end Neighbourhood

/-- The shortest decimal `c * 10 ^ p` that reads back as the magnitude of a finite number other than zero. -/
def shortest (x : Binary f) : Nat × Int :=
  let n := x.neighbourhood
  let p : Int := (Nat.toDigits 10 (n.high / n.den)).length
  -- The number itself lies on the grid of its own quantum, so the walk ends.
  n.search (p - f.leastQuantum).toNat.succ p

/-- The decimal `c * 10 ^ p` without an exponent. -/
def positional (c : Nat) (p : Int) : List Char :=
  if 0 ≤ p then Text.digits c ++ List.replicate p.toNat '0'
  else Text.placePoint (Text.digits c) (-p).toNat

/-- The text of a number: the fewest digits that read back, never an exponent. -/
def text (x : Binary f) : List Char :=
  if x.isNaN then "NaN".toList
  else
    (if x.negative then ['-'] else []) ++
      (if x.isInfinite then "inf".toList
        else if x.isZero then ['0']
        else positional x.shortest.1 x.shortest.2)

end Rowset.Binary
