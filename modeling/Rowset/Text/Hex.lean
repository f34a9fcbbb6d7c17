import Rowset.Text.Blank

/-!
# Hexadecimal text

Binary values travel as hexadecimal digits in either case, two a byte.  `decode` refuses an odd number of bytes
of text first, and then the first character that is no digit; every character before that one is a single
byte, so its index is its place in bytes.  The message shows the first byte of the character.
-/

namespace Rowset.Text.Hex

/-- Why a text is not hexadecimal. -/
inductive Fault where
  | oddLength
  | badDigit (found : Char) (position : Nat)
deriving DecidableEq, Repr

/-- The value of a digit. -/
def digitValue? (c : Char) : Option Nat :=
  if '0' ≤ c && c ≤ '9' then some (c.toNat - '0'.toNat)
  else if 'a' ≤ c && c ≤ 'f' then some (c.toNat - 'a'.toNat + 10)
  else if 'A' ≤ c && c ≤ 'F' then some (c.toNat - 'A'.toNat + 10)
  else none

/-- A digit below sixteen, in lower case. -/
def digit (n : Nat) : Char :=
  (Nat.toDigits 16 n).headD '0'

/-- The digits of a byte. -/
def encodeByte (b : UInt8) : List Char :=
  [digit (b.toNat / 16), digit (b.toNat % 16)]

/-- The digits of some bytes. -/
def encode (bs : List UInt8) : List Char :=
  bs.flatMap encodeByte

/-- The value of the digit at some position. -/
def digitAt (position : Nat) (c : Char) : Except Fault Nat :=
  match digitValue? c with
  | some n => .ok n
  | none => .error (.badDigit c position)

/-- Decodes pairs of digits behind the bytes of `seen`, which come last first. -/
def decodeFrom (position : Nat) (seen : List UInt8) : List Char → Except Fault (List UInt8)
  | [] => .ok seen.reverse
  | [c] => do
    let _ ← digitAt position c
    throw .oddLength
  | c :: d :: rest => do
    let high ← digitAt position c
    let low ← digitAt (position + 1) d
    decodeFrom (position + 2) (UInt8.ofNat (16 * high + low) :: seen) rest

/-- The bytes that hexadecimal text stands for. -/
def decode (cs : List Char) : Except Fault (List UInt8) :=
  if byteSize cs % 2 = 1 then .error .oddLength else decodeFrom 0 [] cs

/-- A Latin-1 character between single quotes.  A quote, a backslash and what cannot be seen are escaped. -/
def quoteChar (c : Char) : List Char :=
  let shown :=
    if c = '\'' || c = '\\' then ['\\', c]
    else if c = '\x00' then ['\\', '0']
    else if c = '\t' then ['\\', 't']
    else if c = '\n' then ['\\', 'n']
    else if c = '\r' then ['\\', 'r']
    else if c.toNat < 0x20 || (0x7F ≤ c.toNat && c.toNat ≤ 0xA0) || c.toNat = 0xAD then
      ['\\', 'u', '\x7b'] ++ Nat.toDigits 16 c.toNat ++ ['\x7d']
    else [c]
  '\'' :: shown ++ ['\'']

/-- What is wrong with the text. -/
def Fault.message : Fault → List Char
  | oddLength => "Odd number of digits".toList
  | badDigit c position =>
    "Invalid character ".toList ++ quoteChar (leadByte c) ++ " at position ".toList ++
      (toString position).toList

end Rowset.Text.Hex
