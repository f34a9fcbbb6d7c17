import Rowset.Decimal.Basic

/-!
# Decimal text

`parse?` reads a sign, digits with a point among them, and an exponent behind `e` or `E`.  `text` writes
small scales positionally, large ones with an exponent: behind `E` for many places behind the point, behind
`e+` for many zeros before it.
-/

namespace Rowset.Decimal

/-! ## Reading -/

/-- The characters of decimal text. -/
def isNumeric (c : Char) : Bool :=
  c.isDigit || c == '+' || c == '-' || c == '.' || c == 'e' || c == 'E'

def isExponentMark (c : Char) : Bool := c == 'e' || c == 'E'

/-- Whether a text can hold a scale: the ends of the 32-bit range are symmetric here. -/
def isScale (s : Int) : Bool :=
  -2147483647 ≤ s && s ≤ 2147483647

/-- Reads the exponent behind its mark, a signed 128-bit integer. -/
def parseExponent? (cs : List Char) : Option Int := do
  let e ← Text.parseInt? cs
  if -170141183460469231731687303715884105728 ≤ e ∧ e < 170141183460469231731687303715884105728 then some e else none

/-- Reads the digits with the point among them, and gives the scale they have for an exponent of zero.  The
sign is looked for after the point is taken out. -/
def parseMantissa? (cs : List Char) : Option (Int × Nat) := do
  let whole := cs.takeWhile (· != '.')
  let fraction := (cs.dropWhile (· != '.')).drop 1
  let c ← Text.parseInt? (whole ++ fraction)
  return (c, fraction.length)

/-- Reads a text as a decimal. -/
def parse? (cs : List Char) : Option Decimal := do
  if !cs.all isNumeric then none
  let mantissa := cs.takeWhile (!isExponentMark ·)
  let exponent ← match cs.dropWhile (!isExponentMark ·) with
    | [] => some 0
    | _ :: rest => parseExponent? rest
  let (c, places) ← parseMantissa? mantissa
  let scale := places - exponent
  if isScale scale then some ⟨c, scale⟩ else none

/-! ## Writing -/

/-- With more leading zeros behind the point than this, a number is written with an exponent. -/
def leadingZeroLimit : Int := 5

/-- With more zeros before the point than this, a number is written with an exponent. -/
def trailingZeroLimit : Int := 15

/-- An integer with its sign in any case. -/
def explicitSign (n : Int) : List Char :=
  (if n < 0 then '-' else '+') :: Text.digits n.natAbs

/-- The magnitude with digits `ds` and scale `s`. -/
def writeMagnitude (ds : List Char) (s : Int) : List Char :=
  let n : Int := ds.length
  if leadingZeroLimit < s - n then
    ds.take 1 ++ (if ds.length = 1 then [] else '.' :: ds.drop 1) ++ 'E' :: explicitSign (n - 1 - s)
  else if s < -trailingZeroLimit then ds ++ 'e' :: explicitSign (-s)
  else if s ≤ 0 then ds ++ List.replicate (-s).toNat '0'
  else Text.placePoint ds s.toNat

/-- The text of a decimal; a zero is written without its scale. -/
def write (d : Decimal) : List Char :=
  (if d.isNegative then ['-'] else []) ++ writeMagnitude d.digits (if d.isZero then 0 else d.scale)

/-- The text of a decimal. -/
def text (d : Decimal) : String :=
  String.ofList d.write

instance : ToString Decimal := ⟨text⟩

end Rowset.Decimal
