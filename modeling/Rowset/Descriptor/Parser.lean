import Rowset.Descriptor.Basic
import Rowset.Text.Blank
import Rowset.Text.Digits

/-!
# Reading type descriptors

A descriptor is read from left to right, and each reading function returns what it found together with the
characters that are left.  The grammar, with `W` for an ASCII blank:

* a type is `W*`, a base, and optionally `W+` and the word `null`;
* a base is a keyword, `double` optionally followed by `W+` and `precision`, `array ( type )`,
  `decimal ( number , number )` or `struct ( name type , ... , name type )`;
* a field name is a run of characters other than blanks that holds no back-quote, comma or parenthesis, or
  any characters but back-quotes between two back-quotes.

Keywords are whole words (ASCII letters, digits and the underscore) and their case does not matter.  Types
nest at most `maxLevels` deep and the names within one struct are distinct.

A `Fault` says what is wrong and keeps the characters that were left at the place; offsets in its message
are the bytes before them.
-/

namespace Rowset.Descriptor

/-- The two numbers of a decimal type. -/
inductive Parameter where
  | precision
  | scale
deriving DecidableEq, Repr

/-- The word for a number in messages. -/
def Parameter.name : Parameter → String
  | precision => "precision"
  | scale => "scale"

/-- Why a text is no type descriptor; `rest` is the text from the place of the fault on. -/
inductive Fault where
  | tooDeep
  | expectedType (rest : List Char)
  | expectedMark (mark : Char) (rest : List Char)
  | expectedNumber (what : Parameter) (rest : List Char)
  | numberTooLarge (what : Parameter)
  | unknownType (word : String)
  | duplicateField (name : String)
  | unexpectedInFields (mark : Char) (rest : List Char)
  | unbalanced
  | unterminatedQuote (rest : List Char)
  | emptyName (rest : List Char)
  | expectedName (rest : List Char)
  | strayQuote (name : String)
  | missingType (name : String)
  | trailing (rest : List Char)
deriving DecidableEq, Repr

/-- The most levels a type may have. -/
def maxLevels : Nat := 128

namespace Fault

/-- The number of bytes of `text` before `rest`, in digits. -/
def offset (text rest : List Char) : String :=
  toString (Text.byteSize text - Text.byteSize rest)

/-- What stands at the start of `rest`, by its first byte. -/
def found : List Char → String
  | [] => "end of input"
  | c :: _ => "'" ++ (Text.leadByte c).toString ++ "'"

/-- What is wrong with `text`. -/
def message (text : List Char) : Fault → String
  | tooDeep => "type nesting exceeds " ++ toString maxLevels ++ " levels"
  | expectedType rest => "expected a type at offset " ++ offset text rest
  | expectedMark mark rest =>
    "expected '" ++ mark.toString ++ "' at offset " ++ offset text rest ++ ", found " ++ found rest
  | expectedNumber what rest => "expected " ++ what.name ++ " at offset " ++ offset text rest
  | numberTooLarge what => "invalid " ++ what.name ++ ": number too large to fit in target type"
  | unknownType word => "unknown type '" ++ word ++ "'"
  | duplicateField name => "duplicate struct field '" ++ name ++ "'"
  | unexpectedInFields mark rest =>
    "unexpected " ++ found [mark] ++ " at offset " ++ offset text (mark :: rest) ++ " in struct fields"
  | unbalanced => "unbalanced parentheses in struct"
  | unterminatedQuote rest => "unterminated back-quote at offset " ++ offset text rest
  | emptyName rest => "empty field name at offset " ++ offset text rest
  | expectedName rest => "expected a field name at offset " ++ offset text rest
  | strayQuote name => "field name '" ++ name ++ "' is not fully back-quoted"
  | missingType name => "field '" ++ name ++ "' has no type"
  | trailing rest => "unexpected input at offset " ++ offset text rest

end Fault

/-! ## Words, marks and numbers -/

/-- The text without the ASCII blanks at its start. -/
def skip (cs : List Char) : List Char :=
  cs.dropWhile Text.isAsciiBlank

/-- Characters of keywords. -/
def isWordChar (c : Char) : Bool :=
  c.isAlphanum || c == '_'

/-- Whether a word is the keyword, in any case. -/
def isKeyword (keyword : String) (word : List Char) : Bool :=
  word.map Char.toLower == keyword.toList

/-- Reads a mark after any blanks. -/
def expectMark (mark : Char) (cs : List Char) : Except Fault (List Char) :=
  match skip cs with
  | c :: rest => if c = mark then .ok rest else .error (.expectedMark mark (c :: rest))
  | [] => .error (.expectedMark mark [])

/-- What is left after the keyword, if that is the next word and a blank precedes it. -/
def trailingWord? (keyword : String) (cs : List Char) : Option (List Char) :=
  match cs with
  | c :: rest =>
    if Text.isAsciiBlank c && isKeyword keyword ((skip rest).takeWhile isWordChar) then
      some ((skip rest).dropWhile isWordChar)
    else none
  | [] => none

/-- Reads a number below 2^32 after any blanks. -/
def number (what : Parameter) (cs : List Char) : Except Fault (UInt32 × List Char) :=
  let (ds, rest) := Text.spanDigits (skip cs)
  if ds.isEmpty then .error (.expectedNumber what (skip cs))
  else if Text.ofDigits ds < UInt32.size then .ok (UInt32.ofNat (Text.ofDigits ds), rest)
  else .error (.numberTooLarge what)

/-- What a keyword at the start of a type stands for. -/
inductive Head where
  | scalar (kind : Scalar)
  | double
  | decimal
  | array
  | struct
deriving DecidableEq, Repr

/-- The keywords that begin a type. -/
def heads : List (String × Head) :=
  [("int", .scalar .int), ("integer", .scalar .int),
    ("long", .scalar .long), ("bigint", .scalar .long),
    ("float", .scalar .float), ("real", .scalar .float),
    ("double", .double),
    ("text", .scalar .text), ("string", .scalar .text),
    ("date", .scalar .date), ("pgdate", .scalar .date),
    ("timestamp", .scalar .timestamp), ("timestampntz", .scalar .timestamp),
    ("timestamptz", .scalar .timestamptz),
    ("boolean", .scalar .boolean), ("bool", .scalar .boolean),
    ("bytea", .scalar .bytea), ("geography", .scalar .geography),
    ("array", .array), ("decimal", .decimal), ("numeric", .decimal), ("struct", .struct)]

/-- What a word at the start of a type stands for. -/
def Head.ofWord? (word : List Char) : Option Head :=
  (heads.find? fun h => isKeyword h.1 word).map (·.2)

/-! ## Struct fields -/

/-- Characters of a field name without back-quotes around it. -/
def isNameChar (c : Char) : Bool :=
  !Text.isAsciiBlank c

/-- Reads a field name after any blanks. -/
def fieldName (cs : List Char) : Except Fault (String × List Char) :=
  match skip cs with
  | '`' :: rest =>
    let name := rest.takeWhile (· != '`')
    match rest.dropWhile (· != '`') with
    | [] => .error (.unterminatedQuote ('`' :: rest))
    | _ :: after =>
      if name.isEmpty then .error (.emptyName ('`' :: rest)) else .ok (String.ofList name, after)
  | start =>
    let name := start.takeWhile isNameChar
    if name.isEmpty then .error (.expectedName start)
    else if name.any (· == '`') then .error (.strayQuote (String.ofList name))
    else if name.any fun c => c == ',' || c == '(' || c == ')' then
      .error (.missingType (String.ofList name))
    else .ok (String.ofList name, start.dropWhile isNameChar)

/-- Reads the fields of a struct through the closing parenthesis, with `inner` for their types.  Every field
takes at least one character, so the length of the text is fuel enough. -/
def fields (inner : List Char → Except Fault (Descriptor × List Char)) :
    Nat → List (String × Descriptor) → List Char →
      Except Fault (List (String × Descriptor) × List Char)
  | 0, _, _ => .error .unbalanced
  | fuel + 1, seen, cs => do
    let (name, cs) ← fieldName cs
    let (t, cs) ← inner cs
    if seen.any (·.1 == name) then
      throw (.duplicateField name)
    match skip cs with
    | ',' :: cs => fields inner fuel (seen ++ [(name, t)]) cs
    | ')' :: cs => return (seen ++ [(name, t)], cs)
    | c :: cs => throw (.unexpectedInFields c cs)
    | [] => throw .unbalanced

/-! ## Types -/

/-- Reads a type without its marker for null, with `inner` for the types it is made of. -/
def base (inner : List Char → Except Fault (Descriptor × List Char)) (cs : List Char) :
    Except Fault (Descriptor × List Char) := do
  let start := skip cs
  let word := start.takeWhile isWordChar
  let cs := start.dropWhile isWordChar
  if word.isEmpty then
    throw (.expectedType start)
  match Head.ofWord? word with
  | none => throw (.unknownType (String.ofList word))
  | some (.scalar k) => return (scalar k false, cs)
  | some .double => return (scalar .double false, (trailingWord? "precision" cs).getD cs)
  | some .decimal =>
    let cs ← expectMark '(' cs
    let (p, cs) ← number .precision cs
    let cs ← expectMark ',' cs
    let (s, cs) ← number .scale cs
    let cs ← expectMark ')' cs
    return (decimal p s false, cs)
  | some .array =>
    let cs ← expectMark '(' cs
    let (e, cs) ← inner cs
    let cs ← expectMark ')' cs
    return (array e false, cs)
  | some .struct =>
    let cs ← expectMark '(' cs
    let (fs, cs) ← fields inner (cs.length + 1) [] cs
    return (struct fs false, cs)

/-- Reads a type of at most the given number of levels. -/
def typeWithin : Nat → List Char → Except Fault (Descriptor × List Char)
  | 0, _ => .error .tooDeep
  | levels + 1, cs => do
    let (t, cs) ← base (typeWithin levels) cs
    match trailingWord? "null" cs with
    | some cs => return (t.orNull, cs)
    | none => return (t, cs)

/-- Reads a whole text as a type; blanks may follow it. -/
def parse (text : String) : Except Fault Descriptor := do
  let (t, cs) ← typeWithin maxLevels text.toList
  match skip cs with
  | [] => return t
  | rest => throw (.trailing rest)

end Rowset.Descriptor
