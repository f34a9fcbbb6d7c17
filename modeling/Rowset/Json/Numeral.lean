import Rowset.Binary.Basic
import Rowset.Text.Digits

/-!
# Number literals of JSON

A literal is kept by its parts, so that no digit of it is lost: `1E5` and `1e+05` differ and `-0` is not `0`.
Only the spelling of the exponent is normal: a small `e` and an explicit sign.

`nearest` is the double nearest to the literal.  `approximate?` is the cheaper reading that documents of a
query use for their statistics: it keeps the digits that fit 64 bits, scales by a power of ten in double
arithmetic and refuses what is too large.
-/

namespace Rowset.Json

/-- One or more digits. -/
structure DigitRun where
  chars : List Char
  nonempty : chars.isEmpty = false
  digit : chars.all Char.isDigit = true
deriving DecidableEq, Repr

/-- The run of these digits, if they are digits and there is one. -/
def DigitRun.ofChars? (cs : List Char) : Option DigitRun :=
  if h : cs.isEmpty = false ∧ cs.all Char.isDigit = true then some ⟨cs, h.1, h.2⟩ else none

/-- The number that the digits write. -/
def DigitRun.value (r : DigitRun) : Nat :=
  Text.ofDigits r.chars

/-- The exponent part of a literal: its sign and digits. -/
structure Exponent where
  negative : Bool
  digits : DigitRun
deriving DecidableEq, Repr

/-- A number literal by its parts. -/
structure Numeral where
  negative : Bool
  whole : DigitRun
  fraction : Option DigitRun
  exponent : Option Exponent
deriving DecidableEq, Repr

namespace Numeral

/-- The digits behind the point. -/
def fractionDigits (n : Numeral) : List Char :=
  match n.fraction with
  | some r => r.chars
  | none => []

/-- The literal without its exponent part. -/
def mantissaText (n : Numeral) : List Char :=
  (if n.negative then ['-'] else []) ++ n.whole.chars ++
    match n.fraction with
    | some r => '.' :: r.chars
    | none => []

/-- The exponent part of the literal. -/
def exponentText (n : Numeral) : List Char :=
  match n.exponent with
  | some e => 'e' :: (if e.negative then '-' else '+') :: e.digits.chars
  | none => []

/-- The text of the literal. -/
def text (n : Numeral) : List Char :=
  n.mantissaText ++ n.exponentText

/-- The digits of the literal as one integer with its sign. -/
def coefficient (n : Numeral) : Int :=
  let m := Text.ofDigits (n.whole.chars ++ n.fractionDigits)
  if n.negative then -m else m

/-- The exponent that is written, zero without one. -/
def writtenExponent (n : Numeral) : Int :=
  match n.exponent with
  | some e => if e.negative then -e.digits.value else e.digits.value
  | none => 0

/-- The literal as an integer, if it has neither a fraction nor an exponent. -/
def toInt? (n : Numeral) : Option Int :=
  if n.fraction.isNone && n.exponent.isNone then some n.coefficient else none

/-- The double nearest to the literal, possibly infinite. -/
def nearest (n : Numeral) : Binary .double :=
  .ofScientific n.negative n.coefficient.natAbs (n.writtenExponent - n.fractionDigits.length)

/-! ## The reading of statistics -/

/-- Appends digits to a significand as long as the result is below 2^64; the digits that are left follow. -/
def accumulate (m : Nat) : List Char → Nat × List Char
  | [] => (m, [])
  | d :: ds =>
    if 10 * m + Text.digitValue d < UInt64.size then accumulate (10 * m + Text.digitValue d) ds
    else (m, d :: ds)

/-- The greatest power of ten among the doubles. -/
def greatestPower : Nat := 308

/-- The double nearest to a power of ten. -/
def powerOfTen (k : Nat) : Binary .double :=
  .ofScientific false 1 k

/-- Multiplies by `10 ^ e` in double arithmetic; none if the result is infinite.  A number below 2^64 becomes
zero within three steps down. -/
def scale? : Nat → Binary .double → Int → Option (Binary .double)
  | 0, x, _ => some x
  | steps + 1, x, e =>
    if e.natAbs ≤ greatestPower then
      if 0 ≤ e then
        let y := x.mul (powerOfTen e.natAbs)
        if y.isInfinite then none else some y
      else some (x.div (powerOfTen e.natAbs))
    else if x.isZero then some x
    else if 0 ≤ e then none
    else scale? steps (x.div (powerOfTen greatestPower)) (e + greatestPower)

/-- The least and the greatest exponent of the reading, which keeps it in 32 bits. -/
def clampExponent (e : Int) : Int :=
  max (-2147483648) (min e 2147483647)

/-- The literal in double arithmetic; none if it is too large. -/
def approximate? (n : Numeral) : Option (Binary .double) :=
  let (m, unread) := accumulate 0 n.whole.chars
  let (m', unread') := accumulate m n.fractionDigits
  let shift : Int := unread.length - (n.fractionDigits.length - unread'.length : Nat)
  let signedZero : Binary .double := .zero n.negative
  let signed (x : Binary .double) : Binary .double := { x with negative := n.negative }
  match n.exponent with
  | none => (scale? 4 (.ofInt m') shift).map signed
  | some e =>
    if 2147483648 ≤ e.digits.value then
      if m' ≠ 0 && !e.negative then none else some signedZero
    else (scale? 4 (.ofInt m') (clampExponent (shift + n.writtenExponent))).map signed

end Numeral

end Rowset.Json
