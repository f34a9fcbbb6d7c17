import Rowset.Decimal.Basic

/-!
# Binary parts of a decimal

For storage in binary formats a decimal is split into a form, a sign, the magnitude of its coefficient as
big-endian bytes, and an exponent; `compose` builds it again.  The form `nan` stands for an absent decimal
where one may be absent, and nothing else stands for the other special forms.

The caller can hand over a buffer; the bytes are written there if they fit.
-/

namespace Rowset.Decimal

/-- The kind of number that parts describe. -/
inductive Form where
  | finite
  | infinite
  | nan
deriving DecidableEq, Repr

/-- The number of a form. -/
def Form.code : Form → Nat
  | finite => 0
  | infinite => 1
  | nan => 2

/-- Why parts make no decimal. -/
inductive PartsFault where
  | unknownForm (code : Nat)
  | infinity
  | nan
deriving DecidableEq, Repr

/-- What is wrong with the parts. -/
def PartsFault.message : PartsFault → String
  | unknownForm code => "unknown form " ++ toString code
  | infinity => "infinity is not representable"
  | nan => "NaN is not representable"

/-- The form of a number. -/
def Form.ofCode : Nat → Except PartsFault Form
  | 0 => .ok finite
  | 1 => .ok infinite
  | 2 => .ok nan
  | code => .error (.unknownForm code)

/-! ## Bytes of a magnitude -/

/-- Puts the base-256 digits of `n` in front of `rest`, at most `fuel` of them. -/
def bytesOnto : Nat → Nat → List UInt8 → List UInt8
  | 0, _, rest => rest
  | fuel + 1, n, rest => if n = 0 then rest else bytesOnto fuel (n / 256) (UInt8.ofNat (n % 256) :: rest)

/-- The big-endian bytes of a number without leading zeros, none for zero. -/
def magnitudeBytes (n : Nat) : List UInt8 :=
  bytesOnto (n.log2 / 8 + 1) n []

/-- The number that big-endian bytes write. -/
def ofMagnitudeBytes (bs : List UInt8) : Nat :=
  bs.foldl (fun n b => 256 * n + b.toNat) 0

/-! ## Parts -/

/-- Memory of a caller: room for `capacity` bytes, some of them in use. -/
structure Buffer where
  capacity : Nat
  content : List UInt8
deriving DecidableEq, Repr

/-- Replaces the content of the buffer if the bytes fit, and else takes new memory of their size.  The flag
tells whether the memory of the buffer is in use afterwards. -/
def Buffer.replace (b : Buffer) (bytes : List UInt8) : Buffer × Bool :=
  if bytes.length ≤ b.capacity then ({ b with content := bytes }, 0 < b.capacity)
  else (⟨bytes.length, bytes⟩, false)

/-- A decimal in parts. -/
structure Parts where
  form : Form
  negative : Bool
  coefficient : List UInt8
  exponent : Int
deriving DecidableEq, Repr

/-- The parts of a decimal, and whether the coefficient went into the buffer. -/
def decompose (d : Decimal) (buffer : Buffer) : Parts × Bool :=
  let (stored, reused) := buffer.replace (magnitudeBytes d.coefficient.natAbs)
  (⟨.finite, d.isNegative, stored.content, d.exponent⟩, reused)

/-- The decimal with these parts. -/
def compose (p : Parts) : Except PartsFault Decimal :=
  match p.form with
  | .finite =>
    let m : Int := ofMagnitudeBytes p.coefficient
    .ok (ofExponent (if p.negative then -m else m) p.exponent)
  | .infinite => .error .infinity
  | .nan => .error .nan

/-- The parts of a decimal that may be absent. -/
def decompose? (d : Option Decimal) (buffer : Buffer) : Parts × Bool :=
  match d with
  | some d => d.decompose buffer
  | none =>
    let (stored, reused) := buffer.replace []
    (⟨.nan, false, stored.content, 0⟩, reused)

/-- The decimal with these parts, absent for the form `nan`. -/
def compose? (p : Parts) : Except PartsFault (Option Decimal) :=
  match p.form with
  | .nan => .ok none
  | _ => some <$> compose p

end Rowset.Decimal
