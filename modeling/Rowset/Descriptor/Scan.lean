import Rowset.Descriptor.Parser
import Rowset.Text.Position

/-!
# Reading type descriptors by position

The grammar of type descriptors, read through the bytes of a text.  Reading has a `Place`: a position, which moves over
the bytes, and the number of types that are open.  Characters are cut out of the text where a word, a number or a name
is found.

A `Scan` is a step of reading.  It gives a value, finds a fault, or is stuck: a cut is not between two boundaries in
their order, a type is closed that is not open, or there is no end to the fields or the levels of a type.  The place is
where reading stands behind the step, also behind a fault.  On the way a step notes what happens: the routines that are
entered and left, the runs of bytes that are passed, the cuts, and the rounds of the loop over the fields of a struct.
A routine is a step with a task of its own in the grammar, or a look at one byte.  Only within a run bytes are looked at
without a routine, one after the other, and there the position may be inside of a character.
-/

namespace Rowset.Descriptor

/-- Where reading stands. -/
structure Place where
  pos : Nat
  depth : Nat
deriving DecidableEq, Repr

/-- The tasks that reading consists of. -/
inductive Routine where
  | text
  | type
  | nested
  | primitive
  | fields
  | fieldName
  | number
  | keyword
  | word
  | wordEnd
  | mark
  | blanks
  | byte
deriving DecidableEq, Repr

/-- What is noted while reading. -/
inductive Event where
  /-- A routine was entered and left, with a value or with a fault. -/
  | call (routine : Routine) (before after : Place) (succeeded : Bool)
  /-- The bytes between two positions were passed. -/
  | run (first last : Nat)
  /-- Characters were cut out between two positions. -/
  | cut (first last : Nat)
  /-- A field of a struct was read as a whole. -/
  | round (before after : Nat)
deriving DecidableEq, Repr

/-- How a step ends. -/
inductive Outcome (α : Type) where
  | value (a : α)
  | fault (message : String)
  | stuck
deriving DecidableEq, Repr

/-- Whether a step gave a value. -/
def Outcome.succeeded {α : Type} : Outcome α → Bool
  | value _ => true
  | fault _ | stuck => false

/-- A step as it went. -/
structure Report (α : Type) where
  outcome : Outcome α
  place : Place
  events : List Event
deriving Repr

/-- A step of reading a text. -/
def Scan (α : Type) := List Char → Place → Report α

namespace Scan

/-! ## Steps -/

instance : Monad Scan where
  pure a := fun _ place => ⟨.value a, place, []⟩
  bind m f := fun text place =>
    let first := m text place
    match first.outcome with
    | .value a =>
      let second := f a text first.place
      ⟨second.outcome, second.place, first.events ++ second.events⟩
    | .fault message => ⟨.fault message, first.place, first.events⟩
    | .stuck => ⟨.stuck, first.place, first.events⟩

variable {α : Type}

def fail (message : String) : Scan α := fun _ place => ⟨.fault message, place, []⟩

def stuck : Scan α := fun _ place => ⟨.stuck, place, []⟩

def position : Scan Nat := fun _ place => ⟨.value place.pos, place, []⟩

def depth : Scan Nat := fun _ place => ⟨.value place.depth, place, []⟩

def jump (pos : Nat) : Scan Unit := fun _ place => ⟨.value (), { place with pos := pos }, []⟩

/-- The number of bytes of the text. -/
def size : Scan Nat := fun text place => ⟨.value (Text.byteSize text), place, []⟩

/-- Moves over the bytes that have a property. -/
def advance (p : UInt8 → Bool) : Scan Unit := fun text place =>
  let last := Text.runEnd p text place.pos
  ⟨.value (), { place with pos := last }, [.run place.pos last]⟩

/-- The characters between two positions. -/
def cut (first last : Nat) : Scan (List Char) := fun text place =>
  ⟨match Text.slice? text first last with
    | some cs => .value cs
    | none => .stuck, place, [.cut first last]⟩

/-- Notes that a routine was entered and left. -/
def call (routine : Routine) (m : Scan α) : Scan α := fun text place =>
  let report := m text place
  { report with events := report.events ++ [.call routine place report.place report.outcome.succeeded] }

/-- The byte at the position. -/
def peek : Scan (Option UInt8) := call .byte fun text place =>
  ⟨.value (Text.byteAt? text place.pos), place, []⟩

/-- Notes that a field was read which began at `before`. -/
def round (before : Nat) : Scan Unit := fun _ place => ⟨.value (), place, [.round before place.pos]⟩

/-- A step inside of one more open type. -/
def deeper (m : Scan α) : Scan α := fun text place =>
  let report := m text { place with depth := place.depth + 1 }
  match report.place.depth with
  | 0 => { report with outcome := .stuck }
  | depth + 1 => { report with place := { report.place with depth := depth } }

/-! ## Blanks, marks, words and numbers -/

def isWordByte (b : UInt8) : Bool :=
  isWordChar (Text.latin1 b)

def isDigitByte (b : UInt8) : Bool :=
  (Text.latin1 b).isDigit

/-- Moves over blanks and tells whether there are any. -/
def skip : Scan Bool := call .blanks do
  let start ← position
  advance Text.isBlankByte
  return start < (← position)

/-- Reads a mark after any blanks. -/
def expectMark (mark : Char) : Scan Unit := call .mark do
  let _ ← skip
  let pos ← position
  match ← peek with
  | some b =>
    if b = UInt8.ofNat mark.toNat then jump (pos + 1)
    else fail ("expected '" ++ mark.toString ++ "' at offset " ++ toString pos ++ ", found " ++
      ("'" ++ (Text.latin1 b).toString ++ "'"))
  | none => fail ("expected '" ++ mark.toString ++ "' at offset " ++ toString pos ++ ", found " ++ "end of input")

/-- The end of the word at the position. -/
def wordEnd : Scan Nat := call .wordEnd fun text place =>
  ⟨.value (Text.runEnd isWordByte text place.pos), place, []⟩

def readWord : Scan (List Char) := call .word do
  let start ← position
  let last ← wordEnd
  jump last
  cut start last

/-- Moves over the keyword if that is the next word and a blank precedes it, and tells whether it is. -/
def eatKeyword (keyword : String) : Scan Bool := call .keyword do
  let saved ← position
  if ← skip then
    let start ← position
    let last ← wordEnd
    if isKeyword keyword (← cut start last) then
      jump last
      return true
    else
      jump saved
      return false
  else return false

/-- Reads a number below 2^32 after any blanks. -/
def readNumber (what : Parameter) : Scan UInt32 := call .number do
  let _ ← skip
  let start ← position
  advance isDigitByte
  let last ← position
  if start = last then fail ("expected " ++ what.name ++ " at offset " ++ toString start)
  else
    let ds ← cut start last
    if Text.ofDigits ds < UInt32.size then return UInt32.ofNat (Text.ofDigits ds)
    else fail ("invalid " ++ what.name ++ ": number too large to fit in target type")

/-! ## Struct fields -/

/-- Reads a field name whose back-quote is at `start`. -/
def quotedName (start : Nat) : Scan String := do
  let behind ← cut (start + 1) (← size)
  if behind.any (· == '`') then
    let length := Text.byteSize (behind.takeWhile (· != '`'))
    let name ← cut (start + 1) (start + 1 + length)
    jump (start + length + 2)
    if name.isEmpty then fail ("empty field name at offset " ++ toString start)
    else return String.ofList name
  else fail ("unterminated back-quote at offset " ++ toString start)

/-- Reads a field name that begins at `start`, without back-quotes around it. -/
def bareName (start : Nat) : Scan String := do
  advance fun b => !Text.isBlankByte b
  let name ← cut start (← position)
  if name.isEmpty then fail ("expected a field name at offset " ++ toString start)
  else if name.any (· == '`') then fail ("field name '" ++ String.ofList name ++ "' is not fully back-quoted")
  else if name.any fun c => c == ',' || c == '(' || c == ')' then
    fail ("field '" ++ String.ofList name ++ "' has no type")
  else return String.ofList name

/-- Reads a field name after any blanks. -/
def fieldName : Scan String := call .fieldName do
  let _ ← skip
  let start ← position
  match ← peek with
  | some b => if b = UInt8.ofNat '`'.toNat then quotedName start else bareName start
  | none => bareName start

/-- Reads the fields of a struct behind those of `seen`, with `inner` for their types. -/
def fieldsFrom (inner : Scan Descriptor) : Nat → List (String × Descriptor) → Scan (List (String × Descriptor))
  | 0, _ => stuck
  | fuel + 1, seen => do
    let before ← position
    let name ← fieldName
    let t ← inner
    if seen.any (·.1 == name) then fail ("duplicate struct field '" ++ name ++ "'")
    else
      let _ ← skip
      let pos ← position
      match ← peek with
      | some b =>
        if b = UInt8.ofNat ','.toNat then
          jump (pos + 1)
          round before
          fieldsFrom inner fuel (seen ++ [(name, t)])
        else if b = UInt8.ofNat ')'.toNat then
          jump (pos + 1)
          round before
          return seen ++ [(name, t)]
        else fail ("unexpected " ++ ("'" ++ (Text.latin1 b).toString ++ "'") ++ " at offset " ++ toString pos ++
          " in struct fields")
      | none => fail "unbalanced parentheses in struct"

/-- Reads the fields of a struct through the closing parenthesis.  Every field takes at least one byte. -/
def readFields (inner : Scan Descriptor) : Scan (List (String × Descriptor)) := call .fields do
  fieldsFrom inner ((← size) + 1) []

/-! ## Types -/

/-- The type that a word stands for on its own. -/
def primitive (word : List Char) : Scan Descriptor := call .primitive do
  match Head.ofWord? word with
  | some (.scalar k) => return scalar k false
  | some .double =>
    let _ ← eatKeyword "precision"
    return scalar .double false
  | _ => fail ("unknown type '" ++ String.ofList word ++ "'")

/-- Reads a type without its marker for null behind its first word, with `inner` for the types it is made of. -/
def readBase (inner : Scan Descriptor) (word : List Char) : Scan Descriptor := do
  match Head.ofWord? word with
  | some .array =>
    expectMark '('
    let e ← inner
    expectMark ')'
    return array e false
  | some .decimal =>
    expectMark '('
    let p ← readNumber .precision
    expectMark ','
    let s ← readNumber .scale
    expectMark ')'
    return decimal p s false
  | some .struct =>
    expectMark '('
    return struct (← readFields inner) false
  | _ => primitive word

/-- Reads a type, with `inner` for the types it is made of. -/
def nested (inner : Scan Descriptor) : Scan Descriptor := call .nested do
  let _ ← skip
  let start ← position
  let word ← readWord
  if word.isEmpty then fail ("expected a type at offset " ++ toString start)
  else
    let t ← readBase inner word
    if ← eatKeyword "null" then return t.orNull else return t

/-- Reads a type, with types inside of types for the given number of levels. -/
def readType : Nat → Scan Descriptor
  | 0 => stuck
  | levels + 1 => call .type do
    if maxLevels ≤ (← depth) then fail ("type nesting exceeds " ++ toString maxLevels ++ " levels")
    else deeper (nested (readType levels))

/-- Reads a whole text as a type; blanks may follow it.  A level more than there may be is enough to see that there are
too many. -/
def readText : Scan Descriptor := call .text do
  let t ← readType (maxLevels + 1)
  let _ ← skip
  let pos ← position
  match ← peek with
  | none => return t
  | some _ => fail ("unexpected input at offset " ++ toString pos)

/-- Reads a whole text from its start. -/
def parse (text : String) : Report Descriptor :=
  readText text.toList ⟨0, 0⟩

end Scan

end Rowset.Descriptor
