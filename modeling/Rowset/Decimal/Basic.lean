import Rowset.Binary.Basic
import Rowset.Text.Digits

/-!
# Exact decimals

A decimal is an integer coefficient times a power of ten.  It keeps the scale it was built with, so `1.0` and
`1.00` differ although they are numerically equal; `normal` is the form in which numerically equal decimals
coincide.

Scales are 64-bit integers.  The measures that answer in 32 bits, `exponent` and `scaleDigits`, stop at the
end of their range.
-/

namespace Rowset

/-- The number `coefficient * 10 ^ (-scale)`. -/
structure Decimal where
  coefficient : Int
  scale : Int
deriving DecidableEq, Repr

namespace Decimal

/-- The decimal `coefficient * 10 ^ exponent`. -/
def ofExponent (coefficient exponent : Int) : Decimal :=
  ⟨coefficient, -exponent⟩

def isZero (d : Decimal) : Bool := d.coefficient == 0

def isNegative (d : Decimal) : Bool := d.coefficient < 0

/-- The decimal digits of the coefficient without its sign, `0` for zero. -/
def digits (d : Decimal) : List Char :=
  Text.digits d.coefficient.natAbs

/-- The exponent of ten in 32 bits; one that does not fit is reported as the least. -/
def exponent (d : Decimal) : Int :=
  if -2147483648 ≤ -d.scale ∧ -d.scale < 2147483648 then -d.scale else -2147483648

/-- The number of digits behind the point, at most 2^32 - 1. -/
def scaleDigits (d : Decimal) : Nat :=
  min d.scale.toNat 4294967295

/-- The 64-bit integer nearest to `n`. -/
def clamp64 (n : Int) : Int :=
  max (-9223372036854775808) (min n 9223372036854775807)

/-- The number of digits before the point, zero for a magnitude below one. -/
def integerDigits (d : Decimal) : Nat :=
  if d.isZero then 0 else (clamp64 (d.digits.length - d.scale)).toNat

/-- Whether at most `precision` digits stand on either side of the point. -/
def fitsPrecision (d : Decimal) (precision : Nat) : Bool :=
  d.integerDigits ≤ precision && d.scaleDigits ≤ precision

/-! ## Numerical equality -/

/-- Moves up to `n` zeros from the end of a coefficient into the scale. -/
def stripZeros : Nat → Int → Int → Int × Int
  | 0, c, s => (c, s)
  | n + 1, c, s => if c % 10 = 0 then stripZeros n (c / 10) (s - 1) else (c, s)

/-- Coefficient and scale without zeros at the end of the coefficient; of zero, both are zero. -/
def normal (d : Decimal) : Int × Int :=
  if d.isZero then (0, 0) else stripZeros d.digits.length d.coefficient d.scale

/-- Whether two decimals are the same number. -/
def numericallyEq (d e : Decimal) : Bool :=
  d.normal == e.normal

/-! ## Conversions -/

/-- The most digits of a 64-bit integer. -/
def int64Digits : Int := 19

/-- The value as a 64-bit integer, if it is one.  The number of digits is looked at first, so that a large
exponent is never expanded. -/
def toInt64? (d : Decimal) : Option Int :=
  let n : Int := d.digits.length
  if d.isZero then some 0
  else if int64Digits < clamp64 (n - d.scale) || n ≤ d.scale then none
  else
    let up := Int.pow 10 (-d.scale).toNat
    let down := Int.pow 10 d.scale.toNat
    if d.coefficient % down ≠ 0 then none
    else
      let v := d.coefficient * up / down
      if -9223372036854775808 ≤ v ∧ v < 9223372036854775808 then some v else none

/-- How many digits are enough for a double. -/
def doubleDigits : Nat := 25

/-- The number of groups of nineteen digits that the conversion to a double cuts off: those beyond about
`doubleDigits`, counted from the size in bits. -/
def surplusGroups (m : Nat) : Nat :=
  let count := (Text.digits (Nat.pow 2 (m.log2 + 2))).length - 1
  (count - doubleDigits) / 19

/-- A double near the value.  An integer is rounded once, and so is a fraction after its surplus digits are
cut off; a multiple of a power of ten is rounded twice, and an exponent past 32 bits gives an infinity. -/
def toDouble (d : Decimal) : Binary .double :=
  let m := d.coefficient.natAbs
  if d.isZero then .zero false
  else if d.scale = 0 then .ofInt d.coefficient
  else
    let groups := surplusGroups m
    let m := m / Nat.pow 10 (19 * groups)
    let scale := d.scale - 19 * groups
    if -2147483648 < scale ∧ scale ≤ 2147483647 then
      if scale ≤ 0 then
        let product : Binary .double := (Binary.ofInt m).mul (.ofScientific false 1 (-scale))
        { product with negative := d.isNegative }
      else .ofScientific d.isNegative m (-scale)
    else .infinity d.isNegative

end Decimal

end Rowset
