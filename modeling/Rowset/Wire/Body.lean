import Rowset.Error

/-!
# Bodies read in pieces

The body of a streamed response comes in pieces, one a read, and a read can fail.  Records stand on lines; a
line ends at a line feed or at the end of the body, and a carriage return before that belongs to the end too.
Lines of nothing but blanks are passed over.

No more than `limit + 3` bytes are ever taken for one line, which is enough to see that a line is longer than
`limit`, whatever ends it: two bytes may belong to the end, and one is past the limit.
-/

namespace Rowset

/-- What one read gives. -/
inductive Chunk where
  | bytes (bs : List UInt8)
  | failure (cause : String)
deriving DecidableEq, Repr

/-- A body: the bytes that were read and not used, and the reads to come. -/
structure Body where
  buffered : List UInt8 := []
  pending : List Chunk
deriving DecidableEq, Repr, Inhabited

namespace Body

def lineFeed : UInt8 := 0x0A

def carriageReturn : UInt8 := 0x0D

/-- The number of bytes that a read gives. -/
def chunkSize : Chunk → Nat
  | .bytes bs => bs.length
  | .failure _ => 0

/-- The number of bytes that the reads to come give. -/
def pendingSize : List Chunk → Nat
  | [] => 0
  | c :: cs => chunkSize c + pendingSize cs

/-- The number of bytes that are left. -/
def size (b : Body) : Nat :=
  b.buffered.length + pendingSize b.pending

/-! ## Lines -/

/-- A start of a line, what follows it, and whether nothing more is to be taken for that line. -/
structure LinePart where
  taken : List UInt8
  rest : List UInt8
  complete : Bool
deriving DecidableEq, Repr

/-- Takes bytes up to a line feed, that included, and at most `budget` of them. -/
def takeLine (budget : Nat) (bs : List UInt8) : LinePart :=
  let window := bs.take budget
  let line := window.takeWhile (· != lineFeed)
  if line.length < window.length then ⟨line ++ [lineFeed], bs.drop (line.length + 1), true⟩
  else ⟨window, bs.drop budget, window.length == budget⟩

/-- Takes the rest of a line that begins with `seen`, from `buffered` and then from the reads to come.  A read
without bytes ends the line, and so does the end of the body. -/
def readLineFrom (budget : Nat) (seen buffered : List UInt8) (chunks : List Chunk) :
    Except String (List UInt8) × Body :=
  let part := takeLine budget buffered
  let line := seen ++ part.taken
  if part.complete then (.ok line, ⟨part.rest, chunks⟩)
  else
    match chunks with
    | [] => (.ok line, ⟨[], []⟩)
    | .bytes [] :: cs => (.ok line, ⟨[], cs⟩)
    | .bytes (b :: bs) :: cs => readLineFrom (budget - part.taken.length) line (b :: bs) cs
    | .failure cause :: cs => (.error cause, ⟨[], cs⟩)

/-- Takes a line with its end, at most `budget` bytes; no bytes at all mean the end of the body. -/
def readLine (budget : Nat) (b : Body) : Except String (List UInt8) × Body :=
  readLineFrom budget [] b.buffered b.pending

/-- The bytes without a last one if that is `mark`. -/
def stripLast (mark : UInt8) (bs : List UInt8) : List UInt8 :=
  if bs.getLast? = some mark then bs.dropLast else bs

/-- A line without its end, a line feed or a carriage return and a line feed. -/
def trimLine (line : List UInt8) : List UInt8 :=
  stripLast carriageReturn (stripLast lineFeed line)

/-! ## Records -/

/-- Reads the next record, passing over at most `fuel` blank lines.

The budget for a line is a plain sum.  A budget of 64 bits that stops at its greatest value where the sum passes it
takes the same bytes: the two differ only for a line of 2^64 - 1 bytes or more, and no line that is held in memory is
that long. -/
def readRecordWithin (limit : Nat) : Nat → Body → Except Error (Option StreamRecord) × Body
  | 0, b => (.ok none, b)
  | fuel + 1, b =>
    match b.readLine (limit + 3) with
    | (.error cause, b) => (.error (.read cause), b)
    | (.ok line, b) =>
      let text := trimLine line
      if line.isEmpty then (.ok none, b)
      else if limit < text.length then (.error (.lineTooLong limit), b)
      else if text.all Text.isBlankByte then readRecordWithin limit fuel b
      else
        match StreamRecord.parse text with
        | .ok r => (.ok (some r), b)
        | .error fault => (.error (.json fault), b)

/-- Reads the next record, none at the end of the body.  A line takes at least one byte. -/
def readRecord (limit : Nat) (b : Body) : Except Error (Option StreamRecord) × Body :=
  readRecordWithin limit (b.size + 1) b

end Body

end Rowset
