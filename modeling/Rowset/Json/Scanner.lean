import Rowset.Json.Numeral
import Rowset.Text.Hex
import Rowset.Text.Utf8

/-!
# Words, strings and numbers in JSON text

JSON arrives as bytes.  A `Reader` takes the bytes from some place on and returns what it read together with
the bytes after it, or the first `Fault` from left to right.  Text that ends where more has to follow is
`truncated`; that is told apart from a byte that cannot stand where it stands, and from a value that is well
formed but of a kind that is not wanted there.
-/

namespace Rowset.Json

/-- Why a text cannot be read as what is wanted. -/
inductive Fault where
  /-- A byte that cannot stand where it stands, or a limit that is passed. -/
  | malformed
  /-- The text ends too early. -/
  | truncated
  /-- A value of a kind that is not wanted here. -/
  | mismatched
deriving DecidableEq, Repr

/-- A function that reads something from the start of some bytes. -/
abbrev Reader (α : Type) : Type := List UInt8 → Except Fault (α × List UInt8)

/-! ## Bytes -/

@[match_pattern] abbrev quoteMark : UInt8 := 0x22
@[match_pattern] abbrev backslash : UInt8 := 0x5C
@[match_pattern] abbrev comma : UInt8 := 0x2C
@[match_pattern] abbrev colon : UInt8 := 0x3A
@[match_pattern] abbrev point : UInt8 := 0x2E
@[match_pattern] abbrev plus : UInt8 := 0x2B
@[match_pattern] abbrev minus : UInt8 := 0x2D
@[match_pattern] abbrev openList : UInt8 := 0x5B
@[match_pattern] abbrev closeList : UInt8 := 0x5D
@[match_pattern] abbrev openObject : UInt8 := 0x7B
@[match_pattern] abbrev closeObject : UInt8 := 0x7D
@[match_pattern] abbrev letterF : UInt8 := 0x66
@[match_pattern] abbrev letterN : UInt8 := 0x6E
@[match_pattern] abbrev letterT : UInt8 := 0x74
@[match_pattern] abbrev letterU : UInt8 := 0x75

/-- The letter of an exponent, in either case. -/
def isExponentMark (b : UInt8) : Bool := b == 0x65 || b == 0x45

/-- Blanks between tokens: space, tab, line feed and carriage return. -/
def isSpace (b : UInt8) : Bool :=
  b == 0x20 || b == 0x09 || b == 0x0A || b == 0x0D

/-- The bytes without the blanks at their start. -/
def skipSpace (bs : List UInt8) : List UInt8 :=
  bs.dropWhile isSpace

def isDigit (b : UInt8) : Bool :=
  0x30 ≤ b && b ≤ 0x39

/-- The character of a byte; one above 127 gives a character that stands nowhere in JSON but in strings. -/
def asciiChar (b : UInt8) : Char :=
  Char.ofNat b.toNat

/-! ## Words -/

/-- Reads exactly the given bytes. -/
def word : List UInt8 → List UInt8 → Except Fault (List UInt8)
  | [], bs => .ok bs
  | _ :: _, [] => .error .truncated
  | w :: ws, b :: bs => if b = w then word ws bs else .error .malformed

/-- The bytes of an ASCII word. -/
def ascii (s : String) : List UInt8 :=
  s.toList.map Char.toUInt8

/-! ## Strings -/

/-- The value of a hexadecimal digit in either case. -/
def hexValue? (b : UInt8) : Option Nat :=
  Text.Hex.digitValue? (asciiChar b)

/-- The number that four hexadecimal digits write. -/
def hexUnit? (a b c d : UInt8) : Option Nat := do
  return ((← hexValue? a) * 16 + (← hexValue? b)) * 256 + ((← hexValue? c) * 16 + (← hexValue? d))

/-- The byte that a letter after a backslash stands for; `u` is not among the letters. -/
def escaped? (b : UInt8) : Option UInt8 :=
  if b = 0x22 || b = 0x5C || b = 0x2F then some b
  else if b = 0x62 then some 0x08
  else if b = 0x66 then some 0x0C
  else if b = 0x6E then some 0x0A
  else if b = 0x72 then some 0x0D
  else if b = 0x74 then some 0x09
  else none

def isLeadingSurrogate (n : Nat) : Bool := 0xD800 ≤ n && n ≤ 0xDBFF

def isTrailingSurrogate (n : Nat) : Bool := 0xDC00 ≤ n && n ≤ 0xDFFF

/-- The bytes of a character by its number, last first. -/
def backwards (n : Nat) : List UInt8 :=
  (String.utf8EncodeChar (Char.ofNat n)).reverse

/-- The bytes of a string up to its closing quote, escapes resolved, behind the bytes of `seen`, which come
last first.  The two halves of a character beyond the basic plane are escaped as a pair of surrogates; a
surrogate on its own is malformed. -/
def quotedFrom (seen : List UInt8) : List UInt8 → Except Fault (List UInt8 × List UInt8)
  | [] => .error .truncated
  | quoteMark :: rest => .ok (seen.reverse, rest)
  | backslash :: letterU :: rest =>
    match rest with
    | a :: b :: c :: d :: rest =>
      match hexUnit? a b c d with
      | none => .error .malformed
      | some n =>
        if isTrailingSurrogate n then .error .malformed
        else if isLeadingSurrogate n then
          match rest with
          | backslash :: letterU :: a :: b :: c :: d :: rest =>
            match hexUnit? a b c d with
            | some m =>
              if isTrailingSurrogate m then
                quotedFrom (backwards (0x10000 + (n - 0xD800) * 0x400 + (m - 0xDC00)) ++ seen) rest
              else .error .malformed
            | none => .error .malformed
          | [] | [backslash] => .error .truncated
          | backslash :: letterU :: _ => .error .truncated
          | _ => .error .malformed
        else quotedFrom (backwards n ++ seen) rest
    | _ => .error .truncated
  | [backslash] => .error .truncated
  | backslash :: b :: rest =>
    match escaped? b with
    | some e => quotedFrom (e :: seen) rest
    | none => .error .malformed
  | b :: rest => if b < 0x20 then .error .malformed else quotedFrom (b :: seen) rest

/-- Reads a string from behind its opening quote; its bytes have to be UTF-8. -/
def quoted : Reader String := fun bs => do
  let (bytes, rest) ← quotedFrom [] bs
  match Text.Utf8.decode bytes with
  | some cs => return (String.ofList cs, rest)
  | none => throw .malformed

/-- Passes over a string from behind its opening quote.  Escapes have to be complete, but neither
surrogates nor the encoding are looked at. -/
def skipQuoted : List UInt8 → Except Fault (List UInt8)
  | [] => .error .truncated
  | quoteMark :: rest => .ok rest
  | backslash :: letterU :: rest =>
    match rest with
    | a :: b :: c :: d :: rest => if (hexUnit? a b c d).isSome then skipQuoted rest else .error .malformed
    | _ => .error .truncated
  | [backslash] => .error .truncated
  | backslash :: b :: rest => if (escaped? b).isSome then skipQuoted rest else .error .malformed
  | b :: rest => if b < 0x20 then .error .malformed else skipQuoted rest

/-! ## Numbers -/

/-- Reads one or more digits. -/
def digitRun : Reader DigitRun := fun bs =>
  match DigitRun.ofChars? ((bs.takeWhile isDigit).map asciiChar) with
  | some r => .ok (r, bs.dropWhile isDigit)
  | none => .error (if bs.isEmpty then .truncated else .malformed)

/-- Reads the digits before the point, which begin with a zero only if there is no other digit. -/
def wholeRun : Reader DigitRun := fun bs => do
  let (r, rest) ← digitRun bs
  match r.chars with
  | '0' :: _ :: _ => throw .malformed
  | _ => return (r, rest)

/-- Reads a point and the digits behind it, if there is a point. -/
def fractionRun : Reader (Option DigitRun) := fun bs =>
  match bs with
  | point :: rest => do
    let (r, rest) ← digitRun rest
    return (some r, rest)
  | _ => .ok (none, bs)

/-- Reads an exponent, if there is one. -/
def exponentPart : Reader (Option Exponent) := fun bs =>
  match bs with
  | b :: rest =>
    if isExponentMark b then do
      let (negative, rest) := match rest with
        | plus :: rest => (false, rest)
        | minus :: rest => (true, rest)
        | rest => (false, rest)
      let (r, rest) ← digitRun rest
      return (some ⟨negative, r⟩, rest)
    else .ok (none, bs)
  | [] => .ok (none, bs)

/-- Reads a number literal from its first byte, a minus sign or a digit. -/
def numeral : Reader Numeral := fun bs => do
  let (negative, bs) := match bs with
    | minus :: rest => (true, rest)
    | bs => (false, bs)
  let (whole, bs) ← wholeRun bs
  let (fraction, bs) ← fractionRun bs
  let (exponent, bs) ← exponentPart bs
  return (⟨negative, whole, fraction, exponent⟩, bs)

/-- Whether a byte begins a number. -/
def startsNumber (b : UInt8) : Bool :=
  b == minus || isDigit b

end Rowset.Json
