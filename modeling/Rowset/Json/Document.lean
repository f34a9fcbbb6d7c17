import Rowset.Json.Reader

/-!
# Documents with fields of known types

A document is an object whose fields are known by name, or, just as well, the list of their values in order.
`document` reads either into a state: every field is a `Slot` that says how its value changes the state.
A field may be left out unless it is required, must not occur twice, and fields of other names are passed
over.

Readers of this module take the number of containers that may still be opened.
-/

namespace Rowset.Json

variable {α σ : Type}

/-! ## Fields -/

/-- The literal of a number. -/
def numeralField : Reader Numeral := fun bs =>
  match skipSpace bs with
  | b :: rest => if startsNumber b then numeral (b :: rest) else .error (wrongKind bs)
  | [] => .error .truncated

/-- A count below 2^64: digits without a sign, a fraction or an exponent. -/
def countField : Reader Nat := fun bs => do
  let (n, rest) ← numeralField bs
  match n.toInt? with
  | some i =>
    if !n.negative && i.toNat < UInt64.size then return (i.toNat, rest)
    else if n.approximate?.isNone then throw .malformed
    else throw .mismatched
  | none => if n.approximate?.isNone then throw .malformed else throw .mismatched

/-- A measured quantity. -/
def realField : Reader (Binary .double) := fun bs => do
  let (n, rest) ← numeralField bs
  match n.approximate? with
  | some x => return (x, rest)
  | none => throw .malformed

/-- A field that may be null. -/
def optionalField (read : Reader α) : Reader (Option α) := fun bs =>
  match skipSpace bs with
  | b :: rest =>
    if b = letterN then do return (none, ← word (ascii "ull") rest)
    else do
      let (a, rest) ← read (b :: rest)
      return (some a, rest)
  | [] => .error .truncated

/-- A list of at most the given number of levels. -/
def listField (read : Nat → Reader α) : Nat → Reader (List α)
  | 0, bs =>
    match skipSpace bs with
    | openList :: _ => .error .malformed
    | _ => .error (wrongKind bs)
  | levels + 1, bs =>
    match skipSpace bs with
    | openList :: rest => listOf (read levels) rest
    | _ => .error (wrongKind bs)

/-! ## Documents -/

/-- A field of a document: its name, whether it has to be there, and how its value changes the state. -/
structure Slot (σ : Type) where
  name : String
  required : Bool
  read : Nat → σ → Reader σ

/-- The slot of a field that `read` reads and `put` stores. -/
def Slot.of (name : String) (read : Nat → Reader α) (put : α → σ → σ) (required : Bool := false) :
    Slot σ where
  name := name
  required := required
  read levels s bs := do
    let (a, bs) ← read levels bs
    return (put a s, bs)

/-- Reads the values of the fields in order through the closing bracket. -/
def fromList (levels : Nat) : List (Slot σ) → Bool → σ → Reader σ
  | [], _, s, bs => do return (s, ← endList bs)
  | f :: fs, first, s, bs => do
    match ← nextElement first bs with
    | none => if f.required then throw .mismatched else fromList levels fs first s bs
    | some bs =>
      let (s, bs) ← f.read levels s bs
      fromList levels fs false s bs

/-- Reads the member of a document behind its key; the names that were there before are remembered. -/
def memberOf (levels : Nat) (slots : List (Slot σ)) (key : String) (state : List String × σ) :
    Reader (List String × σ) := fun bs => do
  match slots.find? (·.name == key) with
  | none =>
    let bs ← endKey bs
    return (state, ← skipValue bs)
  | some f =>
    if state.1.contains key then
      throw .mismatched
    let bs ← endKey bs
    let (s, bs) ← f.read levels state.2 bs
    return ((key :: state.1, s), bs)

/-- Reads the members of a document through the closing brace. -/
def fromObject (levels : Nat) (slots : List (Slot σ)) (start : σ) : Reader σ := fun bs => do
  let ((seen, s), bs) ← members (memberOf levels slots) (bs.length + 1) true ([], start) bs
  if slots.any fun f => f.required && !seen.contains f.name then
    throw .mismatched
  return (s, bs)

/-- Reads a document in either form, from the state `start`. -/
def document (slots : List (Slot σ)) (start : σ) : Nat → Reader σ
  | 0, bs =>
    match skipSpace bs with
    | openList :: _ | openObject :: _ => .error .malformed
    | _ => .error (wrongKind bs)
  | levels + 1, bs =>
    match skipSpace bs with
    | openList :: rest => fromList levels slots true start rest
    | openObject :: rest => fromObject levels slots start rest
    | _ => .error (wrongKind bs)

end Rowset.Json
