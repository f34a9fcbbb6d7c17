import Mathlib.Logic.Relation
import Rowset.Proofs.Wire.Transcript

/-!
# Reading records is splitting lines

`Body.lineAnswers` says what the lines of a text give, without any reading: the text is split at its line feeds,
a carriage return at the end of a line is dropped, blank lines are left out, and every other line is a record, no
record, or too long.

`Body.Cut` says that a body gives a text, in reads of whatever size.  The main statements are
`Body.Cut.readRecord_eq`, by which reading such a body again and again tells what the lines give, and
`Body.Cut.transcript_eq`, by which nothing changes if the text is given other line ends or more blank lines.
-/

namespace Rowset

namespace Body

open Transcript

/-! ## Definitions -/

/-- The lines of a text: its parts between the line feeds, the last part only if it is not empty. -/
def lines (bs : List UInt8) : List (List UInt8) :=
  let parts := bs.splitOn lineFeed
  if parts.getLast? = some [] then parts.dropLast else parts

/-- What a line gives.  Its end may have a carriage return.  A line longer than `limit` is an error, and a blank
one is nothing at all. -/
def lineAnswer (limit : Nat) (line : List UInt8) : Option (Except Error StreamRecord) :=
  let text := stripLast carriageReturn line
  if limit < text.length then some (.error (.lineTooLong limit))
  else if text.all Text.isBlankByte then none
  else some ((StreamRecord.parse text).mapError .json)

/-- What the lines of a text give. -/
def lineAnswers (limit : Nat) (bs : List UInt8) : List (Except Error StreamRecord) :=
  (lines bs).filterMap (lineAnswer limit)

/-- How a reader tells what a line gives, or that there is no line left. -/
def reported : Option (Except Error StreamRecord) → Except Error (Option StreamRecord)
  | some (.ok r) => .ok (some r)
  | some (.error e) => .error e
  | none => .ok none

/-- The body after `k` records were read. -/
def afterRecords (limit : Nat) : Nat → Body → Body
  | 0, b => b
  | k + 1, b => afterRecords limit k (b.readRecord limit).2

/-- The body gives the text `bs`, cut into reads none of which is empty. -/
def Cut (bs : List UInt8) (b : Body) : Prop :=
  ∃ chunks : List (List UInt8), (∀ c ∈ chunks, c ≠ []) ∧ chunks.flatten = bs ∧ b = ⟨[], chunks.map .bytes⟩

/-- Ways to write the same lines: a blank line is put between two lines, a line feed gets a carriage return, and
the last line goes without a line feed. -/
inductive Relined (limit : Nat) : List UInt8 → List UInt8 → Prop
  | blankLine {front blank rest : List UInt8} (between : front = [] ∨ front.getLast? = some lineFeed)
      (isBlank : blank.all Text.isBlankByte) (isLine : lineFeed ∉ blank)
      (short : (stripLast carriageReturn blank).length ≤ limit) :
      Relined limit (front ++ rest) (front ++ (blank ++ lineFeed :: rest))
  | returned {front rest : List UInt8} (bare : front.getLast? ≠ some carriageReturn) :
      Relined limit (front ++ lineFeed :: rest) (front ++ carriageReturn :: lineFeed :: rest)
  | unended {bs : List UInt8} : Relined limit (bs ++ [lineFeed]) bs

section

variable {bs line rest : List UInt8}

theorem lines_line (h : lineFeed ∉ line) : lines (line ++ lineFeed :: rest) = line :: lines rest := by
  obtain ⟨p, ps, hp⟩ := List.exists_cons_of_ne_nil (List.splitOn_ne_nil lineFeed rest)
  unfold lines
  rw [List.splitOn_append_cons_self_of_not_mem h, hp]
  dsimp only
  rw [List.getLast?_cons_cons, List.dropLast_cons_cons]
  split <;> rfl

theorem lines_nil : lines [] = [] := by
  simp [lines]

theorem lines_last (h : lineFeed ∉ bs) (hne : bs ≠ []) : lines bs = [bs] := by
  simp [lines, List.splitOn_eq_singleton h, hne]

end

end Body

/-! ## Transcripts of lines -/

namespace Transcript

open Body

/-- The transcript of what lines give. -/
def ofAnswers : List (Except Error StreamRecord) → Transcript
  | [] => {}
  | .ok r :: rest => { ofAnswers rest with records := r :: (ofAnswers rest).records }
  | .error e :: _ => { stop := some e }

section

variable {limit : Nat} {bs bs' line front rest : List UInt8} {t : Transcript}

/-- A line in front of the lines of a text, and in front of its transcript. -/
theorem before_ofAnswers (answers : List (Except Error StreamRecord)) :
    before limit line (ofAnswers answers) = ofAnswers ((lineAnswer limit line).toList ++ answers) := by
  unfold before lineAnswer
  dsimp only
  by_cases hlong : limit < (stripLast carriageReturn line).length
  · rw [if_pos hlong, if_pos hlong]
    rfl
  · rw [if_neg hlong, if_neg hlong]
    by_cases hblank : (stripLast carriageReturn line).all Text.isBlankByte = true
    · rw [if_pos hblank, if_pos hblank]
      rfl
    · rw [if_neg hblank, if_neg hblank]
      cases StreamRecord.parse (stripLast carriageReturn line) <;> rfl

theorem lineAnswers_cons (h : lines bs = line :: lines rest) :
    lineAnswers limit bs = (lineAnswer limit line).toList ++ lineAnswers limit rest := by
  unfold lineAnswers
  rw [h, List.filterMap_cons]
  cases lineAnswer limit line <;> rfl

/-- The transcript of a whole text is that of its lines. -/
theorem atEnd_eq_ofAnswers (limit : Nat) (bs : List UInt8) :
    atEnd limit bs {} = ofAnswers (lineAnswers limit bs) := by
  have hnil : ofAnswers (lineAnswers limit []) = {} := by
    unfold lineAnswers
    rw [lines_nil]
    rfl
  induction bs using lines_induction with
  | last bs h =>
    by_cases hne : bs = []
    · rw [hne, atEnd_nil, hnil]
    · have hlast : lines bs = bs :: lines [] := by rw [lines_last h hne, lines_nil]
      rw [atEnd_last h hne, lineAnswers_cons hlast, ← before_ofAnswers, hnil]
  | line line rest h ih =>
    rw [atEnd_line h, ih, lineAnswers_cons (lines_line h), before_ofAnswers]

/-! ## Other ways to write the same lines -/

/-- The lines in front of a line feed come before what follows it. -/
theorem atEnd_append (limit : Nat) (front rest : List UInt8) (t : Transcript) :
    atEnd limit (front ++ lineFeed :: rest) t =
      (front.splitOn lineFeed).foldr (before limit) (atEnd limit rest t) := by
  induction front using lines_induction with
  | last front h => rw [atEnd_line h, List.splitOn_eq_singleton h, List.foldr_cons, List.foldr_nil]
  | line line front h ih =>
    rw [List.append_assoc, List.cons_append, atEnd_line h, ih, List.splitOn_append_cons_self_of_not_mem h,
      List.foldr_cons]

/-- A blank line within the limit makes no difference. -/
theorem before_blank (hblank : bs.all Text.isBlankByte = true)
    (hshort : (stripLast carriageReturn bs).length ≤ limit) : before limit bs t = t := by
  have hstrip : (stripLast carriageReturn bs).all Text.isBlankByte = true := by
    rw [List.all_eq_true] at hblank ⊢
    intro x hx
    refine hblank x ?_
    unfold stripLast at hx
    split at hx
    · exact (List.dropLast_sublist bs).mem hx
    · exact hx
  unfold before
  rw [if_neg (Nat.not_lt.mpr hshort), if_pos hstrip]

/-- A carriage return at the end of a line does not matter. -/
theorem before_returned (h : line.getLast? ≠ some carriageReturn) :
    before limit (line ++ [carriageReturn]) t = before limit line t := by
  have hwith : stripLast carriageReturn (line ++ [carriageReturn]) = line := by simp [stripLast]
  have hwithout : stripLast carriageReturn line = line := if_neg h
  unfold before
  rw [hwith, hwithout]

/-- A carriage return at the end of the last line makes no difference, unless it is the second one. -/
theorem foldr_returned (h : front.getLast? ≠ some carriageReturn) :
    ((front ++ [carriageReturn]).splitOn lineFeed).foldr (before limit) t =
      (front.splitOn lineFeed).foldr (before limit) t := by
  induction front using lines_induction with
  | last front hfront =>
    have hne : lineFeed ≠ carriageReturn := by decide
    have hmark : lineFeed ∉ front ++ [carriageReturn] := by simp [hfront, hne]
    rw [List.splitOn_eq_singleton hfront, List.splitOn_eq_singleton hmark]
    exact before_returned h
  | line line front hline ih =>
    have hrest : front.getLast? ≠ some carriageReturn := by
      intro hlast
      refine h ?_
      rw [List.getLast?_append, List.getLast?_cons, hlast]
      rfl
    rw [List.append_assoc, List.cons_append, List.splitOn_append_cons_self_of_not_mem hline,
      List.splitOn_append_cons_self_of_not_mem hline, List.foldr_cons, List.foldr_cons, ih hrest]

/-- A last line feed does not matter. -/
theorem atEnd_unended (limit : Nat) (bs : List UInt8) : atEnd limit (bs ++ [lineFeed]) {} = atEnd limit bs {} := by
  induction bs using lines_induction with
  | last bs h =>
    rw [atEnd_line h, atEnd_nil]
    by_cases hne : bs = []
    · rw [hne, atEnd_nil]
      exact before_blank rfl (Nat.zero_le limit)
    · rw [atEnd_last h hne]
  | line line rest h ih => rw [List.append_assoc, List.cons_append, atEnd_line h, atEnd_line h, ih]

/-- None of the ways to write the same lines makes a difference. -/
theorem atEnd_relined (h : Relined limit bs bs') : atEnd limit bs {} = atEnd limit bs' {} := by
  cases h with
  | @blankLine front blank rest between isBlank isLine short =>
    have hblank : atEnd limit (blank ++ lineFeed :: rest) {} = atEnd limit rest {} := by
      rw [atEnd_line isLine, before_blank isBlank short]
    rcases between with rfl | hlast
    · exact hblank.symm
    · obtain ⟨init, rfl⟩ := List.getLast?_eq_some_iff.mp hlast
      rw [List.append_assoc, List.append_assoc, List.singleton_append, List.singleton_append, atEnd_append,
        atEnd_append, hblank]
  | @returned front rest bare =>
    have hmark : front ++ carriageReturn :: lineFeed :: rest = (front ++ [carriageReturn]) ++ lineFeed :: rest := by
      simp
    rw [hmark, atEnd_append, atEnd_append, foldr_returned bare]
  | unended => exact atEnd_unended limit bs'

theorem atEnd_eq_of_eqvGen (h : Relation.EqvGen (Relined limit) bs bs') :
    atEnd limit bs {} = atEnd limit bs' {} := by
  induction h with
  | rel bs bs' h => exact atEnd_relined h
  | refl bs => rfl
  | symm bs bs' h ih => exact ih.symm
  | trans bs bs' bs'' h h' ih ih' => exact ih.trans ih'

end

end Transcript

/-! ## Bodies without failures -/

namespace Body

open Transcript

section

variable {limit budget fuel : Nat} {b b' : Body} {bs bs' seen buffered line : List UInt8} {cs : List Chunk}

/-- All reads to come give something. -/
def Steady (cs : List Chunk) : Prop :=
  ∀ c ∈ cs, ∃ bs, bs ≠ [] ∧ c = .bytes bs

/-- The transcript of a text does not depend on how it is cut into reads. -/
theorem Cut.transcript_eq (h : Cut bs b) : b.transcript limit = atEnd limit bs {} := by
  obtain ⟨chunks, hne, rfl, rfl⟩ := h
  have hreads : ∀ seen, ofReads limit seen (chunks.map .bytes) = atEnd limit (seen ++ chunks.flatten) {} := by
    induction chunks with
    | nil =>
      intro seen
      rw [List.flatten_nil, List.append_nil]
      rfl
    | cons c chunks ih =>
      intro seen
      match c, hne c List.mem_cons_self with
      | x :: xs, _ =>
        rw [List.flatten_cons, ← List.append_assoc]
        exact ih (fun c' hc' => hne c' (List.mem_cons_of_mem _ hc')) (seen ++ x :: xs)
  exact hreads []

theorem Cut.steady (h : Cut bs b) : Steady b.pending := by
  obtain ⟨chunks, hne, -, rfl⟩ := h
  intro c hc
  obtain ⟨bs', hbs, rfl⟩ := List.mem_map.mp hc
  exact ⟨bs', hne bs' hbs, rfl⟩

theorem readLineFrom_steady (h : Steady cs) (hbudget : seen = [] → 0 < budget) :
    Steady (readLineFrom budget seen buffered cs).2.pending ∧
      ((readLineFrom budget seen buffered cs).1 = .ok [] →
        (readLineFrom budget seen buffered cs).2 = ⟨[], []⟩) := by
  fun_induction readLineFrom budget seen buffered cs with
  | case1 cs budget seen buffered part line hcomplete =>
    -- A complete line holds its line feed, or as many bytes as the budget has.
    refine ⟨h, ?_⟩
    intro hline
    obtain ⟨hseen, htaken⟩ := List.append_eq_nil_iff.mp (Except.ok.inj hline)
    rcases takeLine_cases budget buffered with ⟨front, rest, -, -, ht⟩ | ⟨front, rest, -, hn, -, ht⟩ | ⟨-, -, ht⟩
    · rw [show part = _ from ht] at htaken
      simp at htaken
    · have := hbudget hseen
      rw [show part = _ from ht] at htaken
      dsimp only at htaken
      rw [htaken, List.length_nil] at hn
      omega
    · exact absurd hcomplete (by simp [part, ht])
  | case2 budget seen buffered part line hcomplete => exact ⟨h, fun _ => rfl⟩
  | case3 budget seen buffered part line hcomplete cs =>
    obtain ⟨bs, hne, heq⟩ := h (.bytes []) List.mem_cons_self
    exact absurd (Chunk.bytes.inj heq).symm hne
  | case4 budget seen buffered part line hcomplete x xs cs ih =>
    refine ih (fun c hc => h c (List.mem_cons_of_mem _ hc)) ?_
    intro hline
    obtain ⟨hseen, htaken⟩ := List.append_eq_nil_iff.mp hline
    rw [htaken, List.length_nil]
    exact hbudget hseen
  | case5 budget seen buffered part hcomplete cause cs =>
    obtain ⟨bs, -, heq⟩ := h (.failure cause) List.mem_cons_self
    cases heq

/-- Reading from a body without failures leaves such a body, and the end of the body is for good. -/
theorem readRecordWithin_steady (h : Steady b.pending) (hf : b.size < fuel) :
    Steady (b.readRecordWithin limit fuel).2.pending ∧
      ((b.readRecordWithin limit fuel).1 = .ok none → (b.readRecordWithin limit fuel).2 = ⟨[], []⟩) := by
  induction fuel generalizing b with
  | zero => omega
  | succ fuel ih =>
    unfold readRecordWithin
    obtain ⟨hsteady, hend⟩ : Steady (b.readLine (limit + 3)).2.pending ∧
        ((b.readLine (limit + 3)).1 = .ok [] → (b.readLine (limit + 3)).2 = ⟨[], []⟩) :=
      readLineFrom_steady h fun _ => Nat.succ_pos (limit + 2)
    have htakes := readLine_takes limit b
    generalize b.readLine (limit + 3) = read at hsteady hend htakes
    obtain ⟨answer, b'⟩ := read
    cases answer with
    | error cause => exact ⟨hsteady, by simp⟩
    | ok line =>
      dsimp only at hsteady hend ⊢
      by_cases hempty : line.isEmpty = true
      · rw [if_pos hempty]
        exact ⟨hsteady, fun _ => hend (by rw [List.isEmpty_iff.mp hempty])⟩
      · rw [if_neg hempty]
        by_cases hlong : limit < (trimLine line).length
        · rw [if_pos hlong]
          exact ⟨hsteady, by simp⟩
        · rw [if_neg hlong]
          by_cases hblank : (trimLine line).all Text.isBlankByte = true
          · -- A blank line takes some bytes, so the rounds last.
            rw [if_pos hblank]
            have hsmaller : b'.size < b.size := by
              cases htakes with
              | line nonempty trimmed here smaller => exact smaller
              | long length here => exact absurd length hlong
              | finish here => exact absurd rfl hempty
            exact ih hsteady (by omega)
          · rw [if_neg hblank]
            cases StreamRecord.parse (trimLine line) with
            | ok r => exact ⟨hsteady, by simp⟩
            | error fault => exact ⟨hsteady, by simp⟩

/-- One record of a body without failures: the first answer is told, and the others are left. -/
theorem readRecord_ofAnswers {answers : List (Except Error StreamRecord)} (h : Steady b.pending)
    (ht : b.transcript limit = ofAnswers answers) :
    (b.readRecord limit).1 = reported answers[0]? ∧
      ((∀ e, answers[0]? ≠ some (.error e)) →
        Steady (b.readRecord limit).2.pending ∧ (b.readRecord limit).2.transcript limit = ofAnswers answers.tail) := by
  have hg := readRecord_transcript limit b
  obtain ⟨hsteady, hend⟩ : Steady (b.readRecord limit).2.pending ∧
      ((b.readRecord limit).1 = .ok none → (b.readRecord limit).2 = ⟨[], []⟩) :=
    readRecordWithin_steady h (Nat.lt_succ_self b.size)
  have hanswer := hg.answer
  rw [ht] at hanswer hg
  match answers with
  | [] =>
    refine ⟨hanswer, fun _ => ⟨hsteady, ?_⟩⟩
    rw [hend hanswer]
    exact transcript_nil limit
  | .ok r :: rest =>
    refine ⟨hanswer, fun _ => ⟨hsteady, ?_⟩⟩
    exact hg.rest (List.cons_ne_nil r _)
  | .error e :: rest =>
    refine ⟨hanswer, fun hok => ?_⟩
    exact absurd rfl (hok e)

theorem afterRecords_ofAnswers {answers : List (Except Error StreamRecord)} (h : Steady b.pending)
    (ht : b.transcript limit = ofAnswers answers) (k : Nat) (hk : ∀ j < k, ∀ e, answers[j]? ≠ some (.error e)) :
    ((b.afterRecords limit k).readRecord limit).1 = reported answers[k]? := by
  induction k generalizing b answers with
  | zero => exact (readRecord_ofAnswers h ht).1
  | succ k ih =>
    obtain ⟨hsteady, hrest⟩ := (readRecord_ofAnswers h ht).2 (hk 0 (Nat.succ_pos k))
    have htail : ∀ j, answers.tail[j]? = answers[j + 1]? := fun j => List.getElem?_tail
    rw [← htail k]
    refine ih hsteady hrest ?_
    intro j hj e
    rw [htail j]
    exact hk (j + 1) (Nat.succ_lt_succ hj) e

/-- Reading a body again and again tells what the lines of its text give, up to the first error. -/
theorem Cut.readRecord_eq (h : Cut bs b) (k : Nat)
    (hk : ∀ j < k, ∀ e, (lineAnswers limit bs)[j]? ≠ some (.error e)) :
    ((b.afterRecords limit k).readRecord limit).1 = reported (lineAnswers limit bs)[k]? := by
  have ht : b.transcript limit = ofAnswers (lineAnswers limit bs) :=
    h.transcript_eq.trans (atEnd_eq_ofAnswers limit bs)
  exact afterRecords_ofAnswers h.steady ht k hk

/-- Bodies that give the same lines cannot be told apart by their transcripts. -/
theorem Cut.transcript_relined (h : Cut bs b) (h' : Cut bs' b') (hr : Relation.EqvGen (Relined limit) bs bs') :
    b.transcript limit = b'.transcript limit := by
  rw [h.transcript_eq, h'.transcript_eq, atEnd_eq_of_eqvGen hr]

end

end Body

end Rowset
