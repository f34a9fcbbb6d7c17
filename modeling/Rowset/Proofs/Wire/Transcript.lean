import Mathlib.Algebra.Ring.Nat
import Rowset.Proofs.Json.Consumption
import Rowset.Wire.Body

/-!
# What can be read off a body

`Body.transcript` says what reading a body record by record gives, without any reading: its bytes are taken
apart at the line feeds, a carriage return is dropped from the end of each part, parts of nothing but blanks
are left out, and every other part is one record.  The first part that is too long or no record stops it, as
does a read that fails; otherwise it stops at the end of the body.

The main statement is `Body.readRecord_transcript`: whatever the reads are, `Body.readRecord` gives the first
record of the transcript and leaves a body with the rest of the transcript.
-/

namespace Rowset

/-- Records in their order, and what stops them; nothing does at the end of the body. -/
structure Transcript where
  records : List StreamRecord := []
  stop : Option Error := none

namespace Transcript

open Body

/-! ## Definitions -/

/-- What reading the first record gives. -/
def head (t : Transcript) : Except Error (Option StreamRecord) :=
  match t.records, t.stop with
  | r :: _, _ => .ok (some r)
  | [], none => .ok none
  | [], some e => .error e

/-- What is left behind the first record. -/
def tail (t : Transcript) : Transcript :=
  { t with records := t.records.tail }

/-- A line in front of a transcript. -/
def before (limit : Nat) (line : List UInt8) (t : Transcript) : Transcript :=
  let text := stripLast carriageReturn line
  if limit < text.length then { stop := some (.lineTooLong limit) }
  else if text.all Text.isBlankByte then t
  else
    match StreamRecord.parse text with
    | .ok r => { t with records := r :: t.records }
    | .error fault => { stop := some (.json fault) }

/-- The lines that a line feed ends. -/
def fullLines (bs : List UInt8) : List (List UInt8) :=
  (bs.splitOn lineFeed).dropLast

/-- The bytes behind the last line feed. -/
def openLine (bs : List UInt8) : List UInt8 :=
  (bs.splitOn lineFeed).getLastD []

/-- The transcript of bytes behind which a read gives nothing.  That is the end of the body, or else of a line
behind which reading goes on with `after`. -/
def atEnd (limit : Nat) (bs : List UInt8) (after : Transcript) : Transcript :=
  (fullLines bs).foldr (before limit) (if openLine bs = [] then {} else before limit (openLine bs) after)

/-- The transcript of bytes behind which a read fails.  The line that it cuts off is lost, unless it is past the
limit by then. -/
def atFailure (limit : Nat) (bs : List UInt8) (cause : String) : Transcript :=
  (fullLines bs).foldr (before limit)
    { stop := some (if (openLine bs).length < limit + 3 then .read cause else .lineTooLong limit) }

/-- The transcript of `seen` and of all reads to come. -/
def ofReads (limit : Nat) (seen : List UInt8) : List Chunk → Transcript
  | [] => atEnd limit seen {}
  | .bytes [] :: cs => atEnd limit seen (ofReads limit [] cs)
  | .bytes (b :: bs) :: cs => ofReads limit (seen ++ b :: bs) cs
  | .failure cause :: _ => atFailure limit seen cause

end Transcript

/-- The records of a body and what stops them. -/
def Body.transcript (limit : Nat) (b : Body) : Transcript :=
  .ofReads limit b.buffered b.pending

/-! ## Transcripts line by line -/

namespace Transcript

open Body

section

variable {limit : Nat} {line bs rest : List UInt8} {t : Transcript} {cs : List Chunk} {cause : String}

theorem fullLines_line (h : lineFeed ∉ line) :
    fullLines (line ++ lineFeed :: rest) = line :: fullLines rest := by
  obtain ⟨p, ps, hp⟩ := List.exists_cons_of_ne_nil (List.splitOn_ne_nil lineFeed rest)
  unfold fullLines
  rw [List.splitOn_append_cons_self_of_not_mem h, hp, List.dropLast_cons_cons]

theorem openLine_line (h : lineFeed ∉ line) : openLine (line ++ lineFeed :: rest) = openLine rest := by
  obtain ⟨p, ps, hp⟩ := List.exists_cons_of_ne_nil (List.splitOn_ne_nil lineFeed rest)
  unfold openLine
  rw [List.splitOn_append_cons_self_of_not_mem h, hp]
  simp

theorem fullLines_of_not_mem (h : lineFeed ∉ bs) : fullLines bs = [] := by
  simp [fullLines, List.splitOn_eq_singleton h]

theorem openLine_of_not_mem (h : lineFeed ∉ bs) : openLine bs = bs := by
  simp [openLine, List.splitOn_eq_singleton h]

theorem atEnd_line (h : lineFeed ∉ line) :
    atEnd limit (line ++ lineFeed :: rest) t = before limit line (atEnd limit rest t) := by
  unfold atEnd
  rw [fullLines_line h, openLine_line h, List.foldr_cons]

theorem atEnd_nil : atEnd limit [] t = {} := by
  simp [atEnd, fullLines, openLine]

theorem atEnd_last (h : lineFeed ∉ bs) (hb : bs ≠ []) : atEnd limit bs t = before limit bs t := by
  unfold atEnd
  rw [fullLines_of_not_mem h, openLine_of_not_mem h, if_neg hb, List.foldr_nil]

theorem atFailure_line (h : lineFeed ∉ line) :
    atFailure limit (line ++ lineFeed :: rest) cause = before limit line (atFailure limit rest cause) := by
  unfold atFailure
  rw [fullLines_line h, openLine_line h, List.foldr_cons]

theorem atFailure_last (h : lineFeed ∉ bs) :
    atFailure limit bs cause =
      { stop := some (if bs.length < limit + 3 then .read cause else .lineTooLong limit) } := by
  unfold atFailure
  rw [fullLines_of_not_mem h, openLine_of_not_mem h, List.foldr_nil]

/-- A line that is there does not depend on the reads to come. -/
theorem ofReads_line (h : lineFeed ∉ line) :
    ofReads limit (line ++ lineFeed :: rest) cs = before limit line (ofReads limit rest cs) := by
  induction cs generalizing rest with
  | nil => exact atEnd_line h
  | cons c cs ih =>
    match c with
    | .bytes [] => exact atEnd_line h
    | .bytes (b :: bs) =>
      simp only [ofReads, List.append_assoc, List.cons_append]
      exact ih
    | .failure cause => exact atFailure_line h

theorem length_stripLast (mark : UInt8) (bs : List UInt8) :
    bs.length ≤ (stripLast mark bs).length + 1 ∧ (stripLast mark bs).length ≤ bs.length := by
  unfold stripLast
  split
  · simp only [List.length_dropLast]
    omega
  · omega

theorem before_of_long (h : limit + 2 ≤ line.length) :
    before limit line t = { stop := some (.lineTooLong limit) } := by
  have := (length_stripLast carriageReturn line).1
  unfold before
  rw [if_pos (by omega)]

/-- A line past the limit stops the transcript, whatever ends the line. -/
theorem atEnd_of_long (hl : lineFeed ∉ line) (h : line.length = limit + 3) :
    atEnd limit (line ++ rest) t = { stop := some (.lineTooLong limit) } := by
  by_cases hm : lineFeed ∈ rest
  · obtain ⟨xs, ys, rfl, hx⟩ := List.eq_append_cons_of_mem hm
    rw [← List.append_assoc, atEnd_line (by simp [hl, hx]), before_of_long]
    rw [List.length_append]
    omega
  · rw [atEnd_last (by simp [hl, hm]) (by intro h0; simp_all), before_of_long]
    rw [List.length_append]
    omega

/-- A line past the limit is reported before the read that fails behind it. -/
theorem atFailure_of_long (hl : lineFeed ∉ line) (h : line.length = limit + 3) :
    atFailure limit (line ++ rest) cause = { stop := some (.lineTooLong limit) } := by
  by_cases hm : lineFeed ∈ rest
  · obtain ⟨xs, ys, rfl, hx⟩ := List.eq_append_cons_of_mem hm
    rw [← List.append_assoc, atFailure_line (by simp [hl, hx]), before_of_long]
    rw [List.length_append]
    omega
  · rw [atFailure_last (by simp [hl, hm]), if_neg]
    rw [List.length_append]
    omega

/-- A line is past the limit as soon as its bytes are, whatever the reads to come bring. -/
theorem ofReads_of_long (hl : lineFeed ∉ line) (h : line.length = limit + 3) :
    ofReads limit (line ++ rest) cs = { stop := some (.lineTooLong limit) } := by
  induction cs generalizing rest with
  | nil => exact atEnd_of_long hl h
  | cons c cs ih =>
    match c with
    | .bytes [] => exact atEnd_of_long hl h
    | .bytes (b :: bs) =>
      rw [ofReads, List.append_assoc]
      exact ih
    | .failure cause => exact atFailure_of_long hl h

/-! ### Records are smaller than their bytes -/

/-- One for every record and one for each of its rows. -/
def weight (t : Transcript) : Nat :=
  (t.records.map fun r => r.rows.length + 1).sum

/-- What holds of bytes without a line feed, and of a line in front of bytes of which it holds, holds of all
bytes. -/
theorem lines_induction {P : List UInt8 → Prop} (last : ∀ bs, lineFeed ∉ bs → P bs)
    (line : ∀ line rest, lineFeed ∉ line → P rest → P (line ++ lineFeed :: rest)) (bs : List UInt8) :
    P bs := by
  induction h : bs.length using Nat.strongRecOn generalizing bs with
  | _ n ih =>
    by_cases hm : lineFeed ∈ bs
    · obtain ⟨xs, ys, rfl, hx⟩ := List.eq_append_cons_of_mem hm
      exact line xs ys hx (ih ys.length (by simp only [List.length_append, List.length_cons] at h; omega) ys rfl)
    · exact last bs hm

/-- A record weighs no more than the bytes of its line. -/
theorem weight_before_le : (before limit line t).weight ≤ line.length + t.weight := by
  have hl := (length_stripLast carriageReturn line).2
  unfold before
  dsimp only
  split
  · simp [weight]
  · split
    · omega
    · split
      · next r hr =>
        have := StreamRecord.length_rows_lt hr
        simp only [weight, List.map_cons, List.sum_cons] at *
        omega
      · simp [weight]

theorem weight_atEnd_le : (atEnd limit bs t).weight ≤ bs.length + t.weight := by
  induction bs using lines_induction with
  | last bs h =>
    by_cases hb : bs = []
    · rw [hb, atEnd_nil]
      simp [weight]
    · rw [atEnd_last h hb]
      exact weight_before_le
  | line line rest h ih =>
    rw [atEnd_line h]
    refine Nat.le_trans weight_before_le ?_
    simp only [List.length_append, List.length_cons]
    omega

theorem weight_atFailure_le : (atFailure limit bs cause).weight ≤ bs.length := by
  induction bs using lines_induction with
  | last bs h =>
    rw [atFailure_last h]
    simp [weight]
  | line line rest h ih =>
    rw [atFailure_line h]
    refine Nat.le_trans weight_before_le ?_
    simp only [List.length_append, List.length_cons]
    omega

theorem weight_ofReads_le : (ofReads limit bs cs).weight ≤ bs.length + pendingSize cs := by
  induction cs generalizing bs with
  | nil => exact weight_atEnd_le
  | cons c cs ih =>
    rw [pendingSize]
    match c with
    | .bytes [] =>
      refine Nat.le_trans weight_atEnd_le ?_
      have hafter : (ofReads limit [] cs).weight ≤ [].length + pendingSize cs := ih
      simp only [chunkSize, List.length_nil] at *
      omega
    | .bytes (b :: bs') =>
      refine Nat.le_trans (ih : (ofReads limit (bs ++ b :: bs') cs).weight ≤ _) ?_
      simp only [List.length_append, chunkSize]
      omega
    | .failure cause =>
      refine Nat.le_trans weight_atFailure_le ?_
      omega

/-- The records of a body are no more than its bytes, even with their rows. -/
theorem weight_transcript_le (limit : Nat) (b : Body) : (b.transcript limit).weight ≤ b.size :=
  weight_ofReads_le

/-! ### What can stop a transcript -/

/-- The errors of a line that is no record or too long, and of a read that fails. -/
def Interrupts (limit : Nat) (e : Error) : Prop :=
  (∃ fault, e = .json fault) ∨ e = .lineTooLong limit ∨ ∃ cause, e = .read cause

/-- Nothing else stops the transcript. -/
def Interruptible (limit : Nat) (t : Transcript) : Prop :=
  ∀ e, t.stop = some e → Interrupts limit e

theorem interruptible_stop {e : Error} (h : Interrupts limit e) : Interruptible limit { stop := some e } := by
  intro e' he'
  exact Option.some.inj he' ▸ h

theorem interruptible_before (h : Interruptible limit t) : Interruptible limit (before limit line t) := by
  unfold before
  dsimp only
  split
  · exact interruptible_stop (.inr (.inl rfl))
  · split
    · exact h
    · split
      · exact h
      · exact interruptible_stop (.inl ⟨_, rfl⟩)

theorem interruptible_lines {lines : List (List UInt8)} (h : Interruptible limit t) :
    Interruptible limit (lines.foldr (before limit) t) := by
  induction lines with
  | nil => exact h
  | cons line lines ih => exact interruptible_before ih

theorem interruptible_atEnd (h : Interruptible limit t) : Interruptible limit (atEnd limit bs t) := by
  refine interruptible_lines ?_
  split
  · exact nofun
  · exact interruptible_before h

/-- Only lines and reads stop a transcript, by induction on the reads to come. -/
theorem interruptible_ofReads : Interruptible limit (ofReads limit bs cs) := by
  induction cs generalizing bs with
  | nil => exact interruptible_atEnd nofun
  | cons c cs ih =>
    match c with
    | .bytes [] => exact interruptible_atEnd ih
    | .bytes (b :: bs') => exact ih
    | .failure cause =>
      refine interruptible_lines (interruptible_stop ?_)
      split
      · exact .inr (.inr ⟨cause, rfl⟩)
      · exact .inr (.inl rfl)

end

end Transcript

/-! ## Lines across reads -/

namespace Body

open Transcript

section

variable {limit budget fuel n : Nat} {b b' : Body} {bs line seen buffered taken : List UInt8}
  {cs : List Chunk} {t : Transcript}

@[simp] theorem takeLine_zero : takeLine 0 bs = ⟨[], bs, true⟩ := by
  simp [takeLine]

@[simp] theorem takeLine_nil : takeLine (n + 1) [] = ⟨[], [], false⟩ := by
  simp [takeLine]

theorem takeLine_cons (n : Nat) (b : UInt8) (bs : List UInt8) :
    takeLine (n + 1) (b :: bs) =
      if b = lineFeed then ⟨[lineFeed], bs, true⟩
      else ⟨b :: (takeLine n bs).taken, (takeLine n bs).rest, (takeLine n bs).complete⟩ := by
  by_cases hb : b = lineFeed
  · simp [takeLine, hb]
  · simp only [takeLine, List.take_succ_cons, List.takeWhile_cons, bne_iff_ne, ne_eq, hb,
      not_false_eq_true, ↓reduceIte, List.length_cons, Nat.add_lt_add_iff_right, List.drop_succ_cons]
    split <;> simp

/-- How a line is taken: it ends in time, it is cut off, or there is no more of it. -/
theorem takeLine_cases (n : Nat) (bs : List UInt8) :
    (∃ line rest, lineFeed ∉ line ∧ bs = line ++ lineFeed :: rest ∧
      takeLine n bs = ⟨line ++ [lineFeed], rest, true⟩) ∨
    (∃ line rest, lineFeed ∉ line ∧ line.length = n ∧ bs = line ++ rest ∧
      takeLine n bs = ⟨line, rest, true⟩) ∨
    (lineFeed ∉ bs ∧ bs.length < n ∧ takeLine n bs = ⟨bs, [], false⟩) := by
  induction bs generalizing n with
  | nil =>
    cases n with
    | zero => exact .inr (.inl ⟨[], [], by simp⟩)
    | succ n => exact .inr (.inr (by simp))
  | cons b bs ih =>
    cases n with
    | zero => exact .inr (.inl ⟨[], b :: bs, by simp⟩)
    | succ n =>
      rw [takeLine_cons]
      by_cases hb : b = lineFeed
      · subst hb
        exact .inl ⟨[], bs, by simp⟩
      · have hb' : lineFeed ≠ b := Ne.symm hb
        rw [if_neg hb]
        rcases ih n with ⟨line, rest, hl, rfl, ht⟩ | ⟨line, rest, hl, hn, rfl, ht⟩ | ⟨hl, hn, ht⟩
        · exact .inl ⟨b :: line, rest, by simp [hb', hl], rfl, by simp [ht]⟩
        · exact .inr (.inl ⟨b :: line, rest, by simp [hb', hl], by simpa using hn, rfl, by simp [ht]⟩)
        · exact .inr (.inr ⟨by simp [hb', hl], by simpa using hn, by simp [ht]⟩)

theorem trimLine_of_lineFeed : trimLine (line ++ [lineFeed]) = stripLast carriageReturn line := by
  simp [trimLine, stripLast]

theorem trimLine_of_not_mem (h : lineFeed ∉ line) : trimLine line = stripLast carriageReturn line := by
  have hl : ¬ line.getLast? = some lineFeed := fun hl => h (List.mem_of_getLast? hl)
  exact congrArg (stripLast carriageReturn) (if_neg hl)

/-- What taking a line means for the transcript `t` of a body of `size` bytes. -/
inductive Takes (limit : Nat) (t : Transcript) (size : Nat) : Except String (List UInt8) × Body → Prop
  | line {taken line : List UInt8} {b : Body} (nonempty : taken ≠ [])
      (trimmed : trimLine taken = stripLast carriageReturn line)
      (here : t = before limit line (b.transcript limit)) (smaller : b.size < size) :
      Takes limit t size (.ok taken, b)
  | long {taken : List UInt8} {b : Body} (length : limit < (trimLine taken).length)
      (here : t = { stop := some (.lineTooLong limit) }) : Takes limit t size (.ok taken, b)
  | finish {b : Body} (here : t = {}) : Takes limit t size (.ok [], b)
  | failed {cause : String} {b : Body} (here : t = { stop := some (.read cause) }) :
      Takes limit t size (.error cause, b)

theorem transcript_nil (limit : Nat) : (⟨[], []⟩ : Body).transcript limit = {} := by
  show atEnd limit [] {} = {}
  exact atEnd_nil

/-- A read without bytes ends the line, or the body if there is nothing of a line. -/
theorem takes_atEnd (h : lineFeed ∉ bs) (hn : bs.length + size ⟨[], cs⟩ ≤ n) :
    Takes limit (atEnd limit bs ((⟨[], cs⟩ : Body).transcript limit)) n (.ok bs, ⟨[], cs⟩) := by
  by_cases hne : bs = []
  · rw [hne, atEnd_nil]
    exact .finish rfl
  · have := List.length_pos_iff.mpr hne
    exact .line hne (trimLine_of_not_mem h) (atEnd_last h hne) (by omega)

/-- The line ends in time. -/
theorem takes_ended {rest : List UInt8} (h : lineFeed ∉ line) (hn : size ⟨rest, cs⟩ < n) :
    Takes limit (ofReads limit (line ++ lineFeed :: rest) cs) n (.ok (line ++ [lineFeed]), ⟨rest, cs⟩) :=
  .line (by simp) trimLine_of_lineFeed (ofReads_line h) hn

/-- As many bytes as are taken at most do not hold a line feed, so the line is too long whatever follows: a carriage
return is all that can be stripped from them. -/
theorem takes_cut {rest : List UInt8} (h : lineFeed ∉ line) (hlen : line.length = limit + 3) :
    Takes limit (ofReads limit (line ++ rest) cs) n (.ok line, ⟨rest, cs⟩) := by
  refine .long ?_ (ofReads_of_long h hlen)
  have := (length_stripLast carriageReturn line).1
  rw [trimLine_of_not_mem h]
  omega

/-- A read fails while the line is not known to be too long. -/
theorem takes_failure {cause : String} (h : lineFeed ∉ line) (hlen : line.length < limit + 3) :
    Takes limit (atFailure limit line cause) n (.error cause, b) :=
  .failed (by rw [atFailure_last h, if_pos hlen])

/-- A line is incomplete where the bytes end before the line and the budget do. -/
theorem takeLine_of_incomplete (h : ¬ (takeLine n bs).complete = true) :
    lineFeed ∉ bs ∧ bs.length < n ∧ (takeLine n bs).taken = bs := by
  rcases takeLine_cases n bs with ⟨line, rest, -, -, ht⟩ | ⟨line, rest, -, -, -, ht⟩ | ⟨hl, hn, ht⟩
  · exact absurd (by rw [ht]) h
  · exact absurd (by rw [ht]) h
  · exact ⟨hl, hn, by rw [ht]⟩

/-- The buffered bytes decide how the line goes on behind `seen`, without another read. -/
theorem takes_of_complete (hs : lineFeed ∉ seen) (hb : seen.length + budget = limit + 3)
    (h : (takeLine budget buffered).complete = true) :
    Takes limit (ofReads limit (seen ++ buffered) cs) (seen.length + size ⟨buffered, cs⟩)
      (.ok (seen ++ (takeLine budget buffered).taken), ⟨(takeLine budget buffered).rest, cs⟩) := by
  rcases takeLine_cases budget buffered with
    ⟨front, rest, hl, rfl, ht⟩ | ⟨front, rest, hl, hn, rfl, ht⟩ | ⟨-, -, ht⟩
  · rw [ht, ← List.append_assoc, ← List.append_assoc]
    refine takes_ended (by simp [hs, hl]) ?_
    simp only [size, List.length_append, List.length_cons]
    omega
  · rw [ht, ← List.append_assoc]
    refine takes_cut (by simp [hs, hl]) ?_
    rw [List.length_append]
    omega
  · exact absurd h (by simp [ht])

/-- A line that begins with `seen` is taken as the transcript says, whatever the reads are.  Every read puts what it
gives behind `seen` and takes as much off the budget, so the two together stay what they are. -/
theorem readLineFrom_takes (hs : lineFeed ∉ seen) (hb : seen.length + budget = limit + 3) :
    Takes limit (ofReads limit (seen ++ buffered) cs) (seen.length + size ⟨buffered, cs⟩)
      (readLineFrom budget seen buffered cs) := by
  fun_induction readLineFrom budget seen buffered cs with
  | case1 cs budget seen buffered part line h => exact takes_of_complete hs hb h
  | case2 budget seen buffered part line h =>
    -- There is no other read: the body ends here.
    obtain ⟨hl, -, ht⟩ := takeLine_of_incomplete h
    have hline : line = seen ++ buffered := congrArg (seen ++ ·) ht
    have hnil : (⟨[], []⟩ : Body).transcript limit = {} := transcript_nil limit
    rw [ofReads, ← hnil, hline]
    refine takes_atEnd (by simp [hs, hl]) ?_
    simp [size, Nat.add_assoc]
  | case3 budget seen buffered part line h cs =>
    -- A read without bytes ends the line as well, but there are more reads to come.
    obtain ⟨hl, -, ht⟩ := takeLine_of_incomplete h
    have hline : line = seen ++ buffered := congrArg (seen ++ ·) ht
    rw [hline]
    refine takes_atEnd (by simp [hs, hl]) ?_
    simp [size, pendingSize, Nat.add_assoc]
  | case4 budget seen buffered part line h b bs cs ih =>
    -- The line goes on in the bytes of the next read.
    obtain ⟨hl, hn, ht⟩ := takeLine_of_incomplete h
    have hline : line = seen ++ buffered := congrArg (seen ++ ·) ht
    have hsize : line.length + size ⟨b :: bs, cs⟩ = seen.length + size ⟨buffered, .bytes (b :: bs) :: cs⟩ := by
      simp only [hline, size, List.length_append, pendingSize, chunkSize]
      omega
    rw [← hsize, ofReads, ← hline]
    refine ih (by simp [hline, hs, hl]) ?_
    rw [hline, List.length_append, ht]
    omega
  | case5 budget seen buffered part h cause cs =>
    obtain ⟨hl, hn, -⟩ := takeLine_of_incomplete h
    refine takes_failure (by simp [hs, hl]) ?_
    rw [List.length_append]
    omega

/-- Reading a line by its budget takes the first line of the transcript, or what stops it. -/
theorem readLine_takes (limit : Nat) (b : Body) :
    Takes limit (b.transcript limit) b.size (b.readLine (limit + 3)) := by
  have h : Takes limit (ofReads limit ([] ++ b.buffered) b.pending) ([].length + b.size)
      (readLineFrom (limit + 3) [] b.buffered b.pending) :=
    readLineFrom_takes List.not_mem_nil (Nat.zero_add (limit + 3))
  rwa [List.length_nil, Nat.zero_add, List.nil_append] at h

/-! ## Reading is transcribing -/

/-- An answer and the body behind it are those of the transcript `t`. -/
structure Gives (limit : Nat) (t : Transcript) (result : Except Error (Option StreamRecord) × Body) :
    Prop where
  answer : result.1 = t.head
  rest : t.records ≠ [] → result.2.transcript limit = t.tail

theorem gives_stop {e : Error} : Gives limit { stop := some e } (.error e, b) :=
  ⟨rfl, fun h => absurd rfl h⟩

/-- By induction on the rounds: blank lines are passed over, and the first other one is the first record. -/
theorem readRecordWithin_transcript (hf : b.size < fuel) :
    Gives limit (b.transcript limit) (b.readRecordWithin limit fuel) := by
  induction fuel generalizing b with
  | zero => omega
  | succ fuel ih =>
    unfold readRecordWithin
    have h := readLine_takes limit b
    generalize b.readLine (limit + 3) = result at h
    cases h with
    | line nonempty trimmed here smaller =>
      rename_i taken line b'
      have hne : ¬ taken.isEmpty = true := by simpa using nonempty
      -- The reader and the transcript ask the same of the line: whether it is long, blank, or a record.
      dsimp only
      rw [if_neg hne, trimmed, here]
      unfold before
      by_cases hlong : limit < (stripLast carriageReturn line).length
      · rw [if_pos hlong, if_pos hlong]
        exact gives_stop
      · rw [if_neg hlong, if_neg hlong]
        by_cases hblank : (stripLast carriageReturn line).all Text.isBlankByte = true
        · rw [if_pos hblank, if_pos hblank]
          exact ih (by omega)
        · rw [if_neg hblank, if_neg hblank]
          cases StreamRecord.parse (stripLast carriageReturn line) with
          | ok r => exact ⟨rfl, fun _ => rfl⟩
          | error fault => exact gives_stop
    | long length here =>
      rename_i taken b'
      -- What was cut off at the budget is past the limit, so it is not taken for the end of the body.
      have hne : ¬ taken.isEmpty = true := by
        intro h0
        rw [List.isEmpty_iff.mp h0] at length
        exact absurd length (Nat.not_lt_zero limit)
      dsimp only
      rw [if_neg hne, if_pos length, here]
      exact gives_stop
    | finish here =>
      rw [here]
      exact ⟨rfl, fun h => absurd rfl h⟩
    | failed here =>
      rw [here]
      exact gives_stop

/-- Reading a record gives the first one of the transcript and leaves the others. -/
theorem readRecord_transcript (limit : Nat) (b : Body) :
    Gives limit (b.transcript limit) (b.readRecord limit) :=
  readRecordWithin_transcript (Nat.lt_succ_self b.size)

end

end Body

end Rowset
