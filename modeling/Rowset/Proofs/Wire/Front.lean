import Rowset.Proofs.Wire.Lines

/-!
# What a record needs of its body

A line is read up to its line feed and no further.  So the lines that are complete in the first reads of a body are
read without the reads behind them: these stay as they are, whatever they are.  The main statement is
`Body.readRecord_followedBy`.
-/

namespace Rowset

namespace Body

open Transcript

/-- What the lines of a text give that a line feed ends. -/
def completed (limit : Nat) (bs : List UInt8) : List (Except Error StreamRecord) :=
  (fullLines bs).filterMap (lineAnswer limit)

/-- The first reads of a body, none of which is empty, behind bytes that were read before. -/
structure Front where
  buffered : List UInt8 := []
  chunks : List (List UInt8)
  nonempty : ∀ bs ∈ chunks, bs ≠ []

namespace Front

/-- The bytes that the reads give. -/
def text (front : Front) : List UInt8 :=
  front.buffered ++ front.chunks.flatten

/-- The body with these reads and then with others. -/
def followedBy (front : Front) (more : List Chunk) : Body :=
  ⟨front.buffered, front.chunks.map .bytes ++ more⟩

end Front

section

variable {limit budget : Nat} {buffered line rest more : List UInt8} {chunks : List (List UInt8)}

/-- Bytes without a line feed in front of a line that has one are the beginning of the line. -/
theorem exists_rest_of_line {part : List UInt8} (hp : lineFeed ∉ part)
    (h : part ++ more = line ++ lineFeed :: rest) :
    ∃ left, line = part ++ left ∧ more = left ++ lineFeed :: rest := by
  rcases List.append_eq_append_iff.mp h with ⟨left, hline, hmore⟩ | ⟨beyond, hpart, hrest⟩
  · exact ⟨left, hline, hmore⟩
  · cases beyond with
    | nil => exact ⟨[], by simpa using hpart.symm, hrest.symm⟩
    | cons x beyond =>
      obtain ⟨rfl, -⟩ := List.cons.inj hrest
      exact absurd (hpart ▸ List.mem_append_right line List.mem_cons_self) hp

/-- Taking from bytes that begin with a line takes that line or, past the budget, a part of it. -/
theorem takeLine_line (hl : lineFeed ∉ line) (h : buffered ++ more = line ++ lineFeed :: rest)
    (hc : (takeLine budget buffered).complete = true) :
    (takeLine budget buffered).taken = line ++ [lineFeed] ∧ (takeLine budget buffered).rest ++ more = rest ∨
      budget ≤ line.length ∧ (takeLine budget buffered).taken = line.take budget := by
  rcases takeLine_cases budget buffered with
    ⟨part, after, hp, rfl, ht⟩ | ⟨part, after, hp, rfl, rfl, ht⟩ | ⟨-, -, ht⟩
  · rw [List.append_assoc, List.cons_append] at h
    obtain ⟨left, rfl, hleft⟩ := exists_rest_of_line hp h
    rw [ht]
    cases left with
    | nil => exact .inl ⟨by rw [List.append_nil], (List.cons.inj hleft).2⟩
    | cons x left =>
      obtain ⟨rfl, -⟩ := List.cons.inj hleft
      exact absurd (List.mem_append_right part List.mem_cons_self) hl
  · rw [List.append_assoc] at h
    obtain ⟨left, rfl, -⟩ := exists_rest_of_line hp h
    rw [ht]
    exact .inr ⟨by simp, by simp⟩
  · rw [ht] at hc
    cases hc

/-- Reading a line that is complete in the first reads gives the same whatever the reads behind them are, which
stay as they are.  Past the budget only a part of the line is read. -/
theorem readLineFrom_followedBy (hne : ∀ bs ∈ chunks, bs ≠ []) (hl : lineFeed ∉ line)
    (h : buffered ++ chunks.flatten = line ++ lineFeed :: rest) (budget : Nat) (seen : List UInt8) :
    ∃ taken front, (∀ more, readLineFrom budget seen buffered (chunks.map .bytes ++ more) =
        (.ok (seen ++ taken), Front.followedBy front more)) ∧
      (taken = line ++ [lineFeed] ∧ front.text = rest ∨ budget ≤ line.length ∧ taken = line.take budget) := by
  -- By induction on the reads; a part of the line that one of them gives goes to `seen`.
  induction chunks generalizing budget seen buffered line with
  | nil =>
    have hc : (takeLine budget buffered).complete = true := by
      by_contra hc
      obtain ⟨hmem, -, -⟩ := takeLine_of_incomplete hc
      rw [List.flatten_nil, List.append_nil] at h
      exact hmem (h ▸ List.mem_append_right line List.mem_cons_self)
    refine ⟨(takeLine budget buffered).taken, ⟨(takeLine budget buffered).rest, [], hne⟩, fun more => ?_, ?_⟩
    · rw [readLineFrom.eq_def]
      exact if_pos hc
    · exact takeLine_line hl h hc
  | cons c cs ih =>
    by_cases hc : (takeLine budget buffered).complete = true
    · refine ⟨(takeLine budget buffered).taken, ⟨(takeLine budget buffered).rest, c :: cs, hne⟩, fun more => ?_, ?_⟩
      · rw [readLineFrom.eq_def]
        exact if_pos hc
      · exact takeLine_line hl h hc
    · -- The bytes at hand are the front of the line, whose rest is `left`.
      obtain ⟨hmem, hshort, htaken⟩ := takeLine_of_incomplete hc
      obtain ⟨left, rfl, hleft⟩ := exists_rest_of_line hmem h
      have hl' : lineFeed ∉ left := fun hm => hl (List.mem_append_right buffered hm)
      obtain ⟨b, bs, rfl⟩ := List.exists_cons_of_ne_nil (hne c List.mem_cons_self)
      obtain ⟨taken, front, hread, hcases⟩ :=
        ih (fun bs hbs => hne bs (List.mem_cons_of_mem _ hbs)) hl' hleft (budget - buffered.length) (seen ++ buffered)
      refine ⟨buffered ++ taken, front, fun more => ?_, ?_⟩
      · rw [readLineFrom.eq_def]
        dsimp only
        rw [if_neg hc, htaken, ← List.append_assoc, ← hread more]
        rfl
      · rcases hcases with ⟨htaken, htext⟩ | ⟨hlong, htaken⟩
        · exact .inl ⟨by rw [htaken, List.append_assoc], htext⟩
        · refine .inr ⟨by rw [List.length_append]; omega, ?_⟩
          rw [htaken, List.take_append, List.take_of_length_le (Nat.le_of_lt hshort)]

/-! ## Records -/

theorem completed_line (hl : lineFeed ∉ line) :
    completed limit (line ++ lineFeed :: rest) = (lineAnswer limit line).toList ++ completed limit rest := by
  unfold completed
  rw [fullLines_line hl, List.filterMap_cons]
  cases lineAnswer limit line <;> rfl

theorem completed_of_not_mem (h : lineFeed ∉ line) : completed limit line = [] := by
  unfold completed
  rw [fullLines_of_not_mem h]
  rfl

theorem lineAnswer_of_long (h : limit + 2 ≤ line.length) :
    lineAnswer limit line = some (.error (.lineTooLong limit)) := by
  have := (length_stripLast carriageReturn line).1
  unfold lineAnswer
  rw [if_pos (by omega)]

/-- A line that was read tells what it gives, or is passed over. -/
theorem readRecordWithin_line {b after : Body} {taken : List UInt8} {fuel : Nat}
    (hread : b.readLine (limit + 3) = (.ok taken, after)) (hl : lineFeed ∉ line)
    (htaken : taken = line ++ [lineFeed] ∨ limit + 3 ≤ line.length ∧ taken = line.take (limit + 3)) :
    b.readRecordWithin limit (fuel + 1) =
      match lineAnswer limit line with
      | some answer => (reported (some answer), after)
      | none => after.readRecordWithin limit fuel := by
  rw [readRecordWithin, hread]
  dsimp only
  -- The line was taken as a whole, or cut off, and then it is too long in either form.
  rcases htaken with rfl | ⟨hlong, rfl⟩
  · have hne : ¬ (line ++ [lineFeed]).isEmpty = true := by simp
    rw [if_neg hne, trimLine_of_lineFeed]
    unfold lineAnswer
    dsimp only
    by_cases hlong : limit < (stripLast carriageReturn line).length
    · rw [if_pos hlong, if_pos hlong]
      rfl
    · rw [if_neg hlong, if_neg hlong]
      by_cases hblank : (stripLast carriageReturn line).all Text.isBlankByte = true
      · rw [if_pos hblank, if_pos hblank]
      · rw [if_neg hblank, if_neg hblank]
        cases StreamRecord.parse (stripLast carriageReturn line) <;> rfl
  · have hlength : (line.take (limit + 3)).length = limit + 3 := List.length_take_of_le hlong
    have hmem : lineFeed ∉ line.take (limit + 3) := fun hm => hl (List.mem_of_mem_take hm)
    have hne : ¬ (line.take (limit + 3)).isEmpty = true := by
      rw [List.isEmpty_iff_length_eq_zero, hlength]
      omega
    have htrim := (length_stripLast carriageReturn (line.take (limit + 3))).1
    rw [if_neg hne, trimLine_of_not_mem hmem, if_pos (by omega), lineAnswer_of_long (by omega)]
    rfl

/-- The first record that is complete in the first reads is read the same whatever the reads behind them are, which
stay as they are.  So do the other records that are complete, unless the first one was an error. -/
theorem readRecordWithin_followedBy {answer : Except Error StreamRecord} {others : List (Except Error StreamRecord)}
    (front : Front) (h : completed limit front.text = answer :: others) :
    ∃ after : Front, (∀ more fuel, front.text.length < fuel →
        (front.followedBy more).readRecordWithin limit fuel = (reported (some answer), after.followedBy more)) ∧
      ∀ r, answer = .ok r → completed limit after.text = others := by
  generalize htext : front.text = text at h
  induction text using lines_induction generalizing front with
  | last text hl =>
    rw [completed_of_not_mem hl] at h
    cases h
  | line line rest hl ih =>
    obtain ⟨taken, behind, hread, htaken⟩ := readLineFrom_followedBy front.nonempty hl htext (limit + 3) []
    have hstep : ∀ more fuel, (front.followedBy more).readRecordWithin limit (fuel + 1) = _ := fun more fuel =>
      readRecordWithin_line (hread more) hl (htaken.imp_left And.left)
    rw [completed_line hl] at h
    cases hline : lineAnswer limit line with
    | some answer' =>
      rw [hline] at h
      obtain ⟨rfl, rfl⟩ := List.cons.inj h
      refine ⟨behind, fun more fuel hf => ?_, ?_⟩
      · obtain ⟨fuel, rfl⟩ : ∃ n, fuel = n + 1 := ⟨fuel - 1, by omega⟩
        rw [hstep, hline]
      · rintro r rfl
        rcases htaken with ⟨-, hrest⟩ | ⟨hlong, -⟩
        · rw [hrest]
          rfl
        · rw [lineAnswer_of_long (by omega)] at hline
          cases hline
    | none =>
      -- The line is blank, and the record is on one of those behind it.
      rw [hline] at h
      rcases htaken with ⟨-, hrest⟩ | ⟨hlong, -⟩
      · obtain ⟨after, hafter, hothers⟩ := ih behind hrest h
        refine ⟨after, fun more fuel hf => ?_, hothers⟩
        rw [List.length_append, List.length_cons] at hf
        obtain ⟨fuel, rfl⟩ : ∃ n, fuel = n + 1 := ⟨fuel - 1, by omega⟩
        rw [hstep, hline]
        exact hafter more fuel (by omega)
      · rw [lineAnswer_of_long (by omega)] at hline
        cases hline

theorem Front.length_text_le (front : Front) (more : List Chunk) :
    front.text.length ≤ (front.followedBy more).size := by
  have hchunks (chunks : List (List UInt8)) :
      chunks.flatten.length ≤ pendingSize (chunks.map Chunk.bytes ++ more) := by
    induction chunks with
    | nil => exact Nat.zero_le _
    | cons bs chunks ih =>
      rw [List.flatten_cons, List.length_append]
      exact Nat.add_le_add_left ih bs.length
  show (front.buffered ++ front.chunks.flatten).length ≤
    front.buffered.length + pendingSize (front.chunks.map Chunk.bytes ++ more)
  rw [List.length_append]
  exact Nat.add_le_add_left (hchunks front.chunks) _

/-! ## Bodies that go on differently -/

/-- Two bodies that are the same but for the reads `more` and `more'` at their ends.  At least `n` records are
complete in front of these. -/
inductive Parted (limit : Nat) (more more' : List Chunk) (n : Nat) : Body → Body → Prop
  | same {b : Body} (same : more = more') : Parted limit more more' n b b
  | front {front : Body.Front} (complete : n ≤ (completed limit front.text).length) :
      Parted limit more more' n (front.followedBy more) (front.followedBy more')

theorem Parted.of_le {more more' : List Chunk} {m n : Nat} {b b' : Body} (h : Parted limit more more' n b b')
    (hmn : m ≤ n) : Parted limit more more' m b b' := by
  cases h with
  | same hsame => exact .same hsame
  | front hcomplete => exact .front (Nat.le_trans hmn hcomplete)

/-- A record that is complete is read the same, and what differs is not read. -/
theorem Parted.readRecord {more more' : List Chunk} {n : Nat} {b b' : Body}
    (h : Parted limit more more' (n + 1) b b') :
    (b.readRecord limit).1 = (b'.readRecord limit).1 ∧
      Parted limit more more' 0 (b.readRecord limit).2 (b'.readRecord limit).2 ∧
      ∀ r, (b.readRecord limit).1 = .ok (some r) →
        Parted limit more more' n (b.readRecord limit).2 (b'.readRecord limit).2 := by
  cases h with
  | same hsame => exact ⟨rfl, .same hsame, fun _ _ => .same hsame⟩
  | @front front hcomplete =>
    obtain ⟨answer, others, hanswer⟩ :=
      List.exists_cons_of_ne_nil (List.ne_nil_of_length_pos (Nat.lt_of_lt_of_le n.succ_pos hcomplete))
    obtain ⟨after, hread, hothers⟩ := readRecordWithin_followedBy front hanswer
    have hrecord : ∀ more, (front.followedBy more).readRecord limit =
        (reported (some answer), after.followedBy more) :=
      fun more => hread more _ (Nat.lt_succ_of_le (front.length_text_le more))
    rw [hrecord, hrecord]
    refine ⟨rfl, .front (Nat.zero_le _), fun r hr => .front ?_⟩
    cases answer with
    | error e => cases hr
    | ok r' =>
      rw [hanswer, List.length_cons] at hcomplete
      rw [hothers r' rfl]
      exact Nat.le_of_succ_le_succ hcomplete

end

end Body

end Rowset
