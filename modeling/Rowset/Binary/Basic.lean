/-!
# Binary floating-point numbers

`Binary f` is a number of the IEEE 754 interchange format `f`, by its three fields.  All arithmetic goes
through exact ratios of natural numbers: `round` gives the number of the format nearest to a ratio, the even
one of two equally near, and every operation is the exact result, rounded once.

`numericallyEq` is the comparison of the standard: NaN differs from everything and the two zeros are equal.
-/

namespace Rowset

/-- An interchange format: how many bits hold the fraction and how many the exponent. -/
structure Format where
  fractionBits : Nat
  exponentBits : Nat
deriving DecidableEq, Repr

namespace Format

/-- The 32-bit format. -/
def single : Format := ⟨23, 8⟩

/-- The 64-bit format. -/
def double : Format := ⟨52, 11⟩

/-- What is added to the exponent of a normal number to give its stored exponent. -/
def bias (f : Format) : Nat := 1 <<< (f.exponentBits - 1) - 1

/-- The stored exponent of infinities and NaNs. -/
def topExponent (f : Format) : Nat := 1 <<< f.exponentBits - 1

/-- The smallest positive number of the format is two to this power. -/
def leastQuantum (f : Format) : Int := 1 - (f.bias : Int) - f.fractionBits

end Format

/-- A number of a format: its sign, its stored exponent and its stored fraction. -/
structure Binary (f : Format) where
  negative : Bool
  exponent : Nat
  fraction : Nat
deriving DecidableEq, Repr

namespace Binary

variable {f : Format}

/-! ## Parts of a number -/

/-- The zero of the given sign. -/
def zero (negative : Bool) : Binary f := ⟨negative, 0, 0⟩

/-- The infinity of the given sign. -/
def infinity (negative : Bool) : Binary f := ⟨negative, f.topExponent, 0⟩

/-- A quiet NaN. -/
def nan : Binary f := ⟨false, f.topExponent, 1 <<< (f.fractionBits - 1)⟩

def isNaN (x : Binary f) : Bool := x.exponent == f.topExponent && x.fraction != 0

def isInfinite (x : Binary f) : Bool := x.exponent == f.topExponent && x.fraction == 0

def isFinite (x : Binary f) : Bool := x.exponent != f.topExponent

def isZero (x : Binary f) : Bool := x.exponent == 0 && x.fraction == 0

/-- The number with the other sign. -/
def neg (x : Binary f) : Binary f := { x with negative := !x.negative }

/-- The bit pattern, the sign in front. -/
def bits (x : Binary f) : Nat :=
  (if x.negative then 1 <<< (f.exponentBits + f.fractionBits) else 0)
    + x.exponent <<< f.fractionBits + x.fraction

/-- The integer `m` of a finite number `m * 2 ^ q`. -/
def significand (x : Binary f) : Nat :=
  if x.exponent = 0 then x.fraction else 1 <<< f.fractionBits + x.fraction

/-- The exponent `q` of a finite number `m * 2 ^ q`. -/
def quantum (x : Binary f) : Int :=
  f.leastQuantum + ((x.exponent - 1 : Nat) : Int)

/-- The magnitude of a finite number as a numerator and a denominator. -/
def ratio (x : Binary f) : Nat × Nat :=
  if 0 ≤ x.quantum then (x.significand <<< x.quantum.toNat, 1)
  else (x.significand, 1 <<< (-x.quantum).toNat)

/-- Equality of numbers: NaN differs from itself and the zeros are equal. -/
def numericallyEq (x y : Binary f) : Bool :=
  !x.isNaN && !y.isNaN && (x == y || (x.isZero && y.isZero))

/-! ## Rounding -/

/-- The integer nearest to a quotient, the even one of two equally near. -/
def roundDiv (num den : Nat) : Nat :=
  let q := num / den
  let twice := 2 * (num % den)
  if twice < den then q
  else if den < twice then q + 1
  else if q % 2 = 0 then q else q + 1

/-- The largest `e` with `2 ^ e ≤ num / den`, for positive `num` and `den`. -/
def floorLog2 (num den : Nat) : Int :=
  let e : Int := (num.log2 : Int) - den.log2
  if num <<< (-e).toNat < den <<< e.toNat then e - 1 else e

/-- The number nearest to `num / den` with the given sign, the even one of two equally near; what is past
the largest number by half a step or more becomes infinite. -/
def round (negative : Bool) (num den : Nat) : Binary f :=
  if num = 0 then zero negative
  else
    let q := max (floorLog2 num den - f.fractionBits) f.leastQuantum
    let m := roundDiv (num <<< (-q).toNat) (den <<< q.toNat)
    -- A carry out of the fraction runs into the exponent, which is where it belongs.
    let pattern := (q - f.leastQuantum).toNat <<< f.fractionBits + m
    let exponent := pattern >>> f.fractionBits
    if f.topExponent ≤ exponent then infinity negative
    else ⟨negative, exponent, pattern % 1 <<< f.fractionBits⟩

/-- The number nearest to an integer. -/
def ofInt (n : Int) : Binary f :=
  round (n < 0) n.natAbs 1

/-- Decimal orders of magnitude outside which every number is infinite or zero in the formats here. -/
def decimalReach : Int := 400

/-- The number nearest to `m * 10 ^ e` with the given sign. -/
def ofScientific (negative : Bool) (m : Nat) (e : Int) : Binary f :=
  let order := (Nat.toDigits 10 m).length + e
  if m = 0 then zero negative
  else if decimalReach < order then infinity negative
  else if order < -decimalReach then zero negative
  else round negative (m * Nat.pow 10 e.toNat) (Nat.pow 10 (-e).toNat)

/-! ## Arithmetic -/

/-- The product, rounded once. -/
def mul (x y : Binary f) : Binary f :=
  let negative := x.negative != y.negative
  if x.isNaN || y.isNaN then nan
  else if x.isInfinite || y.isInfinite then
    if x.isZero || y.isZero then nan else infinity negative
  else round negative (x.ratio.1 * y.ratio.1) (x.ratio.2 * y.ratio.2)

/-- The quotient of finite numbers by a divisor other than zero, rounded once. -/
def div (x y : Binary f) : Binary f :=
  round (x.negative != y.negative) (x.ratio.1 * y.ratio.2) (x.ratio.2 * y.ratio.1)

/-- The number of another format nearest to this one. -/
def convert {g : Format} (x : Binary f) : Binary g :=
  if x.isNaN then nan
  else if x.isInfinite then infinity x.negative
  else round x.negative x.ratio.1 x.ratio.2

/-- Whether the magnitude of `x` is above that of `y`, both finite. -/
def exceeds {g : Format} (x : Binary f) (y : Binary g) : Bool :=
  y.ratio.1 * x.ratio.2 < x.ratio.1 * y.ratio.2

/-- The largest finite number. -/
def largest : Binary f := ⟨false, f.topExponent - 1, 1 <<< f.fractionBits - 1⟩

end Binary

end Rowset
