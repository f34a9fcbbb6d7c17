/-!
# UTF-8

`decode` turns bytes into the characters they encode and refuses every other byte string: overlong forms,
surrogates, numbers past the last character and sequences that end early.  `encode` is its inverse.
-/

namespace Rowset.Text.Utf8

/-- The bytes of a text. -/
def encode (cs : List Char) : List UInt8 :=
  cs.flatMap String.utf8EncodeChar

/-- The character whose lead byte holds the bits `lead` and whose continuation bytes are `tail`; its number
is at least `least`, the first one that needs so many bytes. -/
def scalar? (least lead : Nat) (tail : List UInt8) : Option Char :=
  let n := tail.foldl (fun n b => 64 * n + b.toNat % 64) lead
  if tail.all (fun b => b.toNat / 64 == 2) && least ≤ n then
    if h : n.isValidChar then some (Char.ofNatAux n h) else none
  else none

/-- Decodes the bytes behind the characters of `seen`, which come last first. -/
def decodeFrom (seen : List Char) : List UInt8 → Option (List Char)
  | [] => some seen.reverse
  | a :: rest =>
    if a < 0x80 then
      match scalar? 0 a.toNat [] with
      | some c => decodeFrom (c :: seen) rest
      | none => none
    else if a < 0xC0 then none
    else if a < 0xE0 then
      match rest with
      | b :: rest =>
        match scalar? 0x80 (a.toNat - 0xC0) [b] with
        | some c => decodeFrom (c :: seen) rest
        | none => none
      | _ => none
    else if a < 0xF0 then
      match rest with
      | b :: b' :: rest =>
        match scalar? 0x800 (a.toNat - 0xE0) [b, b'] with
        | some c => decodeFrom (c :: seen) rest
        | none => none
      | _ => none
    else
      match rest with
      | b :: b' :: b'' :: rest =>
        match scalar? 0x10000 (a.toNat - 0xF0) [b, b', b''] with
        | some c => decodeFrom (c :: seen) rest
        | none => none
      | _ => none

/-- The characters that the bytes encode, if they encode any. -/
def decode (bs : List UInt8) : Option (List Char) :=
  decodeFrom [] bs

end Rowset.Text.Utf8
