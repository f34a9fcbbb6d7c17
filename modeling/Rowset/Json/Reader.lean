import Rowset.Json.Basic
import Rowset.Json.Scanner

/-!
# Reading JSON values

Containers are read by two loops, `elements` and `members`, which know commas and brackets and leave what
stands between them to a function of their own; the loops carry a state so that they also serve documents
whose fields have types.  Every round takes at least one byte, so the length of the text is fuel enough.

A number may also be written as an object with a single member, whose key is `numberKey` and whose value is a string
that holds the literal.  The key decides: an object that begins with it is such a number or cannot be read.

A value may nest containers `maxNesting` deep.  A value nobody asked for is passed over by `skipValue`,
which knows no such limit and looks less closely.
-/

namespace Rowset.Json

variable {σ : Type}

/-! ## Containers -/

/-- Where the next element of a list begins; none if the closing bracket is next. -/
def nextElement (first : Bool) (bs : List UInt8) : Except Fault (Option (List UInt8)) :=
  match skipSpace bs with
  | [] => .error .truncated
  | closeList :: _ => .ok none
  | b :: rest =>
    if first then .ok (some (b :: rest))
    else if b = comma then
      match skipSpace rest with
      | [] => .error .truncated
      | closeList :: _ => .error .malformed
      | rest => .ok (some rest)
    else .error .malformed

/-- Reads the closing bracket of a list. -/
def endList (bs : List UInt8) : Except Fault (List UInt8) :=
  match skipSpace bs with
  | [] => .error .truncated
  | closeList :: rest => .ok rest
  | _ => .error .malformed

/-- The next key of an object and the bytes behind it; none if the closing brace is next. -/
def nextKey (first : Bool) (bs : List UInt8) : Except Fault (Option (String × List UInt8)) :=
  match skipSpace bs with
  | [] => .error .truncated
  | closeObject :: _ => .ok none
  | b :: rest =>
    if first then
      if b = quoteMark then some <$> quoted rest else .error .malformed
    else if b = comma then
      match skipSpace rest with
      | [] => .error .truncated
      | quoteMark :: rest => some <$> quoted rest
      | _ => .error .malformed
    else .error .malformed

/-- Reads the closing brace of an object. -/
def endObject (bs : List UInt8) : Except Fault (List UInt8) :=
  match skipSpace bs with
  | [] => .error .truncated
  | closeObject :: rest => .ok rest
  | _ => .error .malformed

/-- Reads the colon behind a key. -/
def endKey (bs : List UInt8) : Except Fault (List UInt8) :=
  match skipSpace bs with
  | [] => .error .truncated
  | colon :: rest => .ok rest
  | _ => .error .malformed

/-- Reads the elements of a list through the closing bracket, each with `read`. -/
def elements (read : σ → Reader σ) : Nat → Bool → σ → Reader σ
  | 0, _, _, _ => .error .truncated
  | fuel + 1, first, s, bs =>
    match nextElement first bs with
    | .error e => .error e
    | .ok none =>
      match endList bs with
      | .error e => .error e
      | .ok rest => .ok (s, rest)
    | .ok (some bs) =>
      match read s bs with
      | .error e => .error e
      | .ok (s, bs) => elements read fuel false s bs

/-- Reads the members of an object through the closing brace; `read` goes on behind each key. -/
def members (read : String → σ → Reader σ) : Nat → Bool → σ → Reader σ
  | 0, _, _, _ => .error .truncated
  | fuel + 1, first, s, bs =>
    match nextKey first bs with
    | .error e => .error e
    | .ok none =>
      match endObject bs with
      | .error e => .error e
      | .ok rest => .ok (s, rest)
    | .ok (some (key, bs)) =>
      match read key s bs with
      | .error e => .error e
      | .ok (s, bs) => members read fuel false s bs

/-- Reads the elements of a list with `read`, in order, from behind the opening bracket. -/
def listOf {α : Type} (read : Reader α) : Reader (List α) := fun bs => do
  let step (seen : List α) : Reader (List α) := fun bs => do
    let (a, bs) ← read bs
    return (a :: seen, bs)
  let (seen, bs) ← elements step (bs.length + 1) true [] bs
  return (seen.reverse, bs)

/-! ## Numbers in strings -/

/-- Why a value that begins here is not of the kind that is wanted.  A word, number or string is read to its
end first, so that it can turn out malformed or truncated; a container is refused at its bracket. -/
def wrongKind (bs : List UInt8) : Fault :=
  match skipSpace bs with
  | [] => .truncated
  | b :: rest =>
    if b = openList || b = openObject then .mismatched
    else match skipWord b rest with
      | .ok _ => .mismatched
      | .error e => e
where
  /-- Reads what begins with the byte `b` unless it is a container. -/
  skipWord (b : UInt8) (rest : List UInt8) : Except Fault Unit := do
    if b = letterN then let _ ← word (ascii "ull") rest
    else if b = letterT then let _ ← word (ascii "rue") rest
    else if b = letterF then let _ ← word (ascii "alse") rest
    else if startsNumber b then let _ ← numeral (b :: rest)
    else if b = quoteMark then let _ ← quoted rest
    else throw .malformed

/-- A string where nothing else is wanted. -/
def stringField : Reader String := fun bs =>
  match skipSpace bs with
  | quoteMark :: rest => quoted rest
  | _ => .error (wrongKind bs)

/-- The key that marks an object as a number. -/
def numberKey : String := "$serde_json::private::Number"

/-- The number whose literal a text is, without any blanks. -/
def Numeral.ofText? (s : String) : Option Numeral :=
  match numeral (Text.Utf8.encode s.toList) with
  | .ok (n, []) => some n
  | _ => none

/-- Reads a marked number from behind its key: a string with the literal, and nothing else up to the closing brace. -/
def markedNumber : Reader Json := fun bs => do
  let bs ← endKey bs
  let (s, bs) ← stringField bs
  match Numeral.ofText? s with
  | some n => return (.number n, ← endObject bs)
  | none => throw .mismatched

/-! ## Values -/

/-- The most containers that may stand inside one another. -/
def maxNesting : Nat := 127

/-- Reads a value, with `list` and `object` for what follows an opening bracket or brace. -/
def valueWith (list object : Reader Json) : Reader Json := fun bs =>
  match skipSpace bs with
  | [] => .error .truncated
  | b :: rest =>
    if b = letterN then do return (.null, ← word (ascii "ull") rest)
    else if b = letterT then do return (.bool true, ← word (ascii "rue") rest)
    else if b = letterF then do return (.bool false, ← word (ascii "alse") rest)
    else if startsNumber b then do
      let (n, rest) ← numeral (b :: rest)
      return (.number n, rest)
    else if b = quoteMark then do
      let (s, rest) ← quoted rest
      return (.string s, rest)
    else if b = openList then list rest
    else if b = openObject then object rest
    else .error .malformed

/-- Reads the value of a member behind its key and puts it among the members before it. -/
def readMember (read : Reader Json) (key : String) (ms : List (String × Json)) : Reader (List (String × Json)) :=
  fun bs => do
    let bs ← endKey bs
    let (v, bs) ← read bs
    return (putMember key v ms, bs)

/-- Reads the members of an object whose values `read` reads, from behind the opening brace.  An object that begins
with `numberKey` is a number instead; as a later key it is like any other. -/
def objectOf (read : Reader Json) : Reader Json := fun bs => do
  match ← nextKey true bs with
  | none => return (.object [], ← endObject bs)
  | some (key, bs) =>
    if key = numberKey then markedNumber bs
    else
      let (ms, bs) ← readMember read key [] bs
      let (ms, bs) ← members (readMember read) (bs.length + 1) false ms bs
      return (.object ms, bs)

/-- Reads the items of an array that `read` reads, from behind the opening bracket. -/
def arrayOf (read : Reader Json) : Reader Json := fun bs => do
  let (vs, bs) ← listOf read bs
  return (.array vs, bs)

/-- Reads a value that nests at most the given number of containers. -/
def value : Nat → Reader Json
  | 0 => valueWith (fun _ => .error .malformed) (fun _ => .error .malformed)
  | levels + 1 => valueWith (arrayOf (value levels)) (objectOf (value levels))

/-- Refuses anything but blanks. -/
def atEnd (bs : List UInt8) : Except Fault Unit :=
  if (skipSpace bs).isEmpty then .ok () else .error .malformed

/-- Reads a whole text with `read`; blanks may follow. -/
def whole {α : Type} (read : Reader α) (bs : List UInt8) : Except Fault α := do
  let (a, rest) ← read bs
  atEnd rest
  return a

/-- Reads a whole text as one value. -/
def parse (bs : List UInt8) : Except Fault Json :=
  whole (value maxNesting) bs

/-! ## Values nobody asked for -/

/-- A container that is open while a value is passed over. -/
inductive Bracket where
  | list
  | object
deriving DecidableEq, Repr

/-- Passes over a number.  One that breaks off is malformed here. -/
def skipNumber (bs : List UInt8) : Except Fault (List UInt8) :=
  match numeral bs with
  | .ok (_, rest) => .ok rest
  | .error _ => .error .malformed

/-- Passes over a word, a number or a string, or opens a container. -/
def skipToken (bs : List UInt8) : Except Fault (Option Bracket × List UInt8) :=
  match skipSpace bs with
  | [] => .error .truncated
  | b :: rest =>
    if b = letterN then do return (none, ← word (ascii "ull") rest)
    else if b = letterT then do return (none, ← word (ascii "rue") rest)
    else if b = letterF then do return (none, ← word (ascii "alse") rest)
    else if startsNumber b then do return (none, ← skipNumber (b :: rest))
    else if b = quoteMark then do return (none, ← skipQuoted rest)
    else if b = openList then .ok (some .list, rest)
    else if b = openObject then .ok (some .object, rest)
    else .error .malformed

/-- Passes over closing brackets as far as they match the open containers, innermost first.  What follows is
the place of the next element or key; nothing is open any more when the value is over.  `afterValue` tells
whether a value precedes, so that a comma has to stand between it and the next one. -/
def skipClosing : List Bracket → Bool → List UInt8 → Except Fault (List Bracket × List UInt8)
  | [], _, bs => .ok ([], bs)
  | top :: rest, afterValue, bs =>
    match skipSpace bs with
    | [] => .error .truncated
    | b :: bs =>
      if (b = closeList && top == .list) || (b = closeObject && top == .object) then
        skipClosing rest true bs
      else if afterValue then
        if b = comma then .ok (top :: rest, bs) else .error .malformed
      else .ok (top :: rest, b :: bs)

/-- Passes over a key and its colon. -/
def skipKey (bs : List UInt8) : Except Fault (List UInt8) :=
  match skipSpace bs with
  | [] => .error .truncated
  | quoteMark :: rest => do
    let rest ← skipQuoted rest
    endKey rest
  | _ => .error .malformed

/-- Passes over a value inside the given open containers and over all that follows in them. -/
def skipInside : Nat → List Bracket → List UInt8 → Except Fault (List UInt8)
  | 0, _, _ => .error .truncated
  | fuel + 1, outer, bs => do
    let (bracket, bs) ← skipToken bs
    let (outer, bs) ← match bracket with
      | some b => skipClosing (b :: outer) false bs
      | none => skipClosing outer true bs
    match outer with
    | [] => return bs
    | .list :: _ => skipInside fuel outer bs
    | .object :: _ =>
      let bs ← skipKey bs
      skipInside fuel outer bs

/-- Passes over one value of any depth. -/
def skipValue (bs : List UInt8) : Except Fault (List UInt8) :=
  skipInside (bs.length + 1) [] bs

end Rowset.Json
