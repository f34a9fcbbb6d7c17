import Mathlib.Tactic.Common
import Rowset.Cursor.Streaming
import Rowset.Proofs.Schema
import Rowset.Proofs.Wire.Transcript

/-!
# One streamed result set from its first record to its end

The records of a result set are a `START`, any number of `DATA` and a `FINISHED_WITH_SUCCESS`.
`Transcript.answers` says what asking for rows gives: one answer for each row of the `DATA` records behind the
`START`, and then the end, which is an error unless the next record is the `FINISHED_WITH_SUCCESS`.

`Remainder` is what a result set still has to give, and `StreamingCursor.Owes` ties it to a cursor that has read
the `START` or has given up.  One step, `next_steps`, takes one answer off the remainder and leaves everything
that does not belong to the result set as it was.

The main statement is `StreamingCursor.Fresh.next_answers`.
-/

namespace Rowset

/-! ## Columns that cannot be read -/

theorem Schema.ofHeaders_error {hs : List ColumnHeader} {e : Error} (h : Schema.ofHeaders hs = .error e) :
    ∃ text fault, e = .descriptor text fault := by
  obtain ⟨_, header, fault, _, _, he, _⟩ := ofHeaders_eq_error_iff.mp h
  exact ⟨header.type, fault, he⟩

/-! ## What a transcript has to give -/

/-- What a result set still has to give: raw rows and then its end.  `beyond` are the records behind the one
that decides how it ends. -/
structure Remainder where
  schema : Schema
  rows : List (List Json)
  fault : Option Error
  beyond : List StreamRecord

namespace Remainder

/-- The answer for one raw row. -/
def rowAnswer (s : Schema) (cells : List Json) : Except Error (Option Row) :=
  match Row.decode s cells with
  | .ok vs => .ok (some ⟨vs, s⟩)
  | .error e => .error e

/-- The answer behind the last row. -/
def lastAnswer (fault : Option Error) : Except Error (Option Row) :=
  match fault with
  | none => .ok none
  | some e => .error e

/-- All answers up to the end. -/
def answers (rem : Remainder) : List (Except Error (Option Row)) :=
  rem.rows.map (rowAnswer rem.schema) ++ [lastAnswer rem.fault]

/-- The next answer. -/
def answer (rem : Remainder) : Except Error (Option Row) :=
  match rem.rows with
  | cells :: _ => rowAnswer rem.schema cells
  | [] => lastAnswer rem.fault

/-- What is left behind the next answer; at the end there is nothing more. -/
def next (rem : Remainder) : Remainder :=
  match rem.rows with
  | _ :: rest => { rem with rows := rest }
  | [] => { rem with fault := none }

@[simp] theorem next_beyond (rem : Remainder) : rem.next.beyond = rem.beyond := by
  unfold next
  split <;> rfl

theorem answers_zero (rem : Remainder) : rem.answers[0]?.getD (.ok none) = rem.answer := by
  unfold answers answer
  cases rem.rows <;> simp

theorem answers_succ (rem : Remainder) (k : Nat) :
    rem.answers[k + 1]?.getD (.ok none) = rem.next.answers[k]?.getD (.ok none) := by
  unfold answers next
  cases rem.rows with
  | nil => cases k <;> simp [lastAnswer]
  | cons cells rest => simp

theorem length_answers_next {rem : Remainder} (h : rem.rows ≠ []) :
    rem.next.answers.length + 1 ≤ rem.answers.length := by
  unfold answers next
  cases hr : rem.rows with
  | nil => exact absurd hr h
  | cons cells rest => simp

end Remainder

namespace Transcript

/-- The raw rows of the `DATA` records in front. -/
def leadingRows (t : Transcript) : List (List Json) :=
  (t.records.takeWhile (·.kind = .data)).flatMap (·.rows)

/-- What follows the `DATA` records in front. -/
def afterRows (t : Transcript) : Transcript :=
  { t with records := t.records.dropWhile (·.kind = .data) }

/-- The error where a transcript does not go on as it should: errors of the server, whatever stopped the
records, or a fault of the framing. -/
def departure (t : Transcript) (missing : Framing) (misplaced : RecordKind → Framing) : Error :=
  match t.records with
  | r :: _ => if r.kind = .finishWithError then .server r.errors else .framing (misplaced r.kind)
  | [] => t.stop.getD (.framing missing)

/-- The error where a `START` should stand. -/
def noStart (t : Transcript) : Error :=
  t.departure .endedBeforeStart fun
    | .data => .dataBeforeStart
    | .finishedWithSuccess => .finishBeforeStart
    | kind => .unexpectedKind kind

/-- The error where a `DATA` or a `FINISHED_WITH_SUCCESS` should stand. -/
def noFinish (t : Transcript) : Error :=
  t.departure .endedBeforeFinish fun
    | .start => .startInside
    | kind => .unexpectedKind kind

/-- The columns that the first record announces. -/
def opening (t : Transcript) : Except Error Schema :=
  match t.records with
  | r :: _ => if r.kind = .start then Schema.ofHeaders r.columns else .error t.noStart
  | [] => .error t.noStart

/-- The error behind the `DATA` records in front, none if they are followed by a `FINISHED_WITH_SUCCESS`. -/
def closing (t : Transcript) : Option Error :=
  match t.afterRows.records with
  | r :: _ => if r.kind = .finishedWithSuccess then none else some t.afterRows.noFinish
  | [] => some t.afterRows.noFinish

/-- What the records behind a `START` have to give. -/
def remainder (t : Transcript) (s : Schema) : Remainder :=
  ⟨s, t.leadingRows, t.closing, t.afterRows.records.tail⟩

/-- What a result set has to give once its first record was looked at. -/
def owed (t : Transcript) : Remainder :=
  match t.opening with
  | .ok s => t.tail.remainder s
  | .error _ => ⟨{}, [], none, t.records.tail⟩

/-- The answers for a whole result set. -/
def answers (t : Transcript) : List (Except Error (Option Row)) :=
  match t.opening with
  | .ok s => (t.tail.remainder s).answers
  | .error e => [.error e]

/-! ### Records one by one -/

section

variable {r : StreamRecord} {rs : List StreamRecord} {stop : Option Error}

theorem head_cons : head ⟨r :: rs, stop⟩ = .ok (some r) := rfl

theorem leadingRows_data (h : r.kind = .data) :
    leadingRows ⟨r :: rs, stop⟩ = r.rows ++ leadingRows ⟨rs, stop⟩ := by
  simp [leadingRows, h]

theorem leadingRows_other (h : r.kind ≠ .data) : leadingRows ⟨r :: rs, stop⟩ = [] := by
  simp [leadingRows, h]

theorem afterRows_data (h : r.kind = .data) : afterRows ⟨r :: rs, stop⟩ = afterRows ⟨rs, stop⟩ := by
  simp [afterRows, h]

theorem afterRows_other (h : r.kind ≠ .data) : afterRows ⟨r :: rs, stop⟩ = ⟨r :: rs, stop⟩ := by
  simp [afterRows, h]

theorem closing_data (h : r.kind = .data) : closing ⟨r :: rs, stop⟩ = closing ⟨rs, stop⟩ := by
  unfold closing
  rw [afterRows_data h]

theorem closing_other (h : r.kind ≠ .data) :
    closing ⟨r :: rs, stop⟩ =
      if r.kind = .finishedWithSuccess then none else some (noFinish ⟨r :: rs, stop⟩) := by
  unfold closing
  rw [afterRows_other h]

theorem length_records_le (t : Transcript) : t.records.length ≤ t.weight := by
  obtain ⟨rs, stop⟩ := t
  induction rs with
  | nil => simp
  | cons r rs ih =>
    simp only [weight, List.map_cons, List.sum_cons, List.length_cons] at ih ⊢
    omega

end

end Transcript

namespace StreamingCursor

/-! ## The place of a cursor in its result set -/

/-- What can still be read off the current body. -/
def unread (c : StreamingCursor) : Transcript :=
  match c.current with
  | some s => s.body.transcript c.params.maxLineLength
  | none => {}

/-- The cursor is at the segment `s`, of which it has read nothing. -/
structure Fresh (c : StreamingCursor) (s : Segment) : Prop where
  opened : c.closed = false
  phase : c.phase = .awaitingStart
  block : c.block = []
  current : c.current = some s

/-- What the cursor has to give of a result set whose `START` was read, or which it has given up. -/
inductive Owes (c : StreamingCursor) : Remainder → Prop
  | reading {s : Segment} {schema : Schema} (opened : c.closed = false) (phase : c.phase = .reading)
      (current : c.current = some s) (columns : c.schema = some schema) :
      Owes c ⟨schema, c.block ++ c.unread.leadingRows, c.unread.closing, c.unread.afterRows.records.tail⟩
  | exhausted {schema : Schema} {beyond : List StreamRecord} (opened : c.closed = false)
      (phase : c.phase = .exhausted) (block : c.block = []) (spared : beyond <:+ c.unread.records) :
      Owes c ⟨schema, [], none, beyond⟩

/-- `c'` is at the same result set as `c`. -/
structure SameSet (c c' : StreamingCursor) : Prop where
  params : c'.params = c.params
  remaining : c'.remaining = c.remaining
  released : c'.released = c.released
  index : c'.index = c.index
  closed : c'.closed = c.closed
  position : c'.current.map (·.position) = c.current.map (·.position)

theorem SameSet.refl (c : StreamingCursor) : SameSet c c := ⟨rfl, rfl, rfl, rfl, rfl, rfl⟩

theorem SameSet.trans {a b c : StreamingCursor} (h : SameSet a b) (h' : SameSet b c) : SameSet a c :=
  ⟨h'.params.trans h.params, h'.remaining.trans h.remaining, h'.released.trans h.released,
    h'.index.trans h.index, h'.closed.trans h.closed, h'.position.trans h.position⟩

/-- The number of rows that an answer delivers. -/
def delivered : Except Error (Option Row) → Nat
  | .ok (some _) => 1
  | _ => 0

/-- One call of `next` by a cursor that owes `rem`. -/
structure Steps (c : StreamingCursor) (rem : Remainder)
    (result : Except Error (Option Row) × StreamingCursor) : Prop where
  answer : result.1 = rem.answer
  owes : result.2.Owes rem.next
  same : SameSet c result.2
  schema : result.2.schema = c.schema
  rowCount : result.2.rowCount = c.rowCount + delivered result.1
  exhausted : rem.rows = [] → result.2.phase = .exhausted

section

variable {c c' : StreamingCursor} {s : Segment} {rem : Remainder} {schema : Schema} {t : Transcript}
  {fuel : Nat}

theorem unread_eq (h : c.current = some s) : c.unread = s.body.transcript c.params.maxLineLength := by
  unfold unread
  rw [h]

/-! ## One step -/

/-- The cursor behind the record that it reads next. -/
def advanced (c : StreamingCursor) (s : Segment) : StreamingCursor :=
  { c with current := some { s with body := (s.body.readRecord c.params.maxLineLength).2 } }

/-- Reading a record gives the first one that is unread and touches nothing but the body. -/
theorem readRecord_eq (h : c.current = some s) : c.readRecord = (c.unread.head, c.advanced s) := by
  have hg := Body.readRecord_transcript c.params.maxLineLength s.body
  rw [unread_eq h, ← hg.answer]
  unfold readRecord
  rw [h]
  rfl

theorem unread_advanced (h : c.current = some s) (hne : c.unread.records ≠ []) :
    (c.advanced s).unread = c.unread.tail := by
  rw [unread_eq h] at hne ⊢
  exact (Body.readRecord_transcript c.params.maxLineLength s.body).rest hne

/-- Behind the record that is read next stand those that stood behind it. -/
theorem unread_advanced_cons {r : StreamRecord} {rs : List StreamRecord} {stop : Option Error}
    (h : c.current = some s) (hu : c.unread = ⟨r :: rs, stop⟩) :
    (c.advanced s).unread = ⟨rs, stop⟩ := by
  rw [unread_advanced h (by rw [hu]; exact List.cons_ne_nil r rs), hu]
  rfl

theorem sameSet_advanced (h : c.current = some s) : SameSet c (c.advanced s) :=
  ⟨rfl, rfl, rfl, rfl, rfl, by rw [h]; rfl⟩

/-- The records that are left behind the next one are left by whatever comes to stand in its place. -/
theorem tail_suffix_advanced (h : c.current = some s) :
    c.unread.records.tail <:+ (c.advanced s).unread.records := by
  by_cases hne : c.unread.records = []
  · rw [hne]
    exact List.nil_suffix
  · rw [unread_advanced h hne]
    exact List.suffix_rfl

theorem delivered_lastAnswer (fault : Option Error) : delivered (Remainder.lastAnswer fault) = 0 := by
  cases fault <;> rfl

/-- Taking a row off the block is one step. -/
theorem steps_row {cells : List Json} {rest : List (List Json)} (hc : c.closed = false)
    (hp : c.phase = .reading) (hs : c.current = some s) (hcol : c.schema = some schema)
    (hb : c.block = cells :: rest) :
    Steps c ⟨schema, c.block ++ c.unread.leadingRows, c.unread.closing, c.unread.afterRows.records.tail⟩
      (nextWithin (fuel + 1) c) := by
  unfold nextWithin
  rw [hb]
  dsimp only
  rw [hcol]
  dsimp only
  cases hd : Row.decode schema cells with
  | ok vs =>
    refine ⟨?_, .reading hc hp hs rfl, ⟨rfl, rfl, rfl, rfl, rfl, rfl⟩, hcol.symm, rfl, nofun⟩
    simp [Remainder.answer, Remainder.rowAnswer, hd]
  | error e =>
    refine ⟨?_, .reading hc hp hs rfl, ⟨rfl, rfl, rfl, rfl, rfl, rfl⟩, hcol.symm, rfl, nofun⟩
    simp [Remainder.answer, Remainder.rowAnswer, hd]

/-- Giving up behind the record that was read last is one step. -/
theorem steps_end {answer : Except Error (Option Row)} {fault : Option Error} {beyond : List StreamRecord}
    {statistics : Option Statistics} (hc : c.closed = false) (hs : c.current = some s) (hb : c.block = [])
    (ha : answer = Remainder.lastAnswer fault) (hbeyond : beyond <:+ c.unread.records.tail) :
    Steps c ⟨schema, [], fault, beyond⟩
      (answer, { (c.advanced s).exhaust with statistics := statistics }) := by
  have hspared : beyond <:+ (c.advanced s).unread.records := hbeyond.trans (tail_suffix_advanced hs)
  refine ⟨ha, .exhausted hc rfl hb hspared, ⟨rfl, rfl, rfl, rfl, rfl, ?_⟩, rfl, ?_, fun _ => rfl⟩
  · rw [hs]
    rfl
  · rw [ha, delivered_lastAnswer]
    rfl

theorem unexpected_reading {r : StreamRecord} {rs : List StreamRecord} {stop : Option Error}
    (hd : r.kind ≠ .data) (hf : r.kind ≠ .finishedWithSuccess) :
    unexpected .reading r = Transcript.noFinish ⟨r :: rs, stop⟩ := by
  unfold unexpected Transcript.noFinish Transcript.departure
  cases hk : r.kind <;> simp_all

/-- Without a row in the block, the next record decides. -/
theorem nextWithin_read (hp : c.phase = .reading) (hs : c.current = some s) (hb : c.block = []) :
    nextWithin (fuel + 1) c =
      match c.unread.head with
      | .error e => (.error e, (c.advanced s).exhaust)
      | .ok none => (.error (.framing .endedBeforeFinish), (c.advanced s).exhaust)
      | .ok (some r) =>
        match r.kind with
        | .data => nextWithin fuel { c.advanced s with block := r.rows }
        | .finishedWithSuccess => (.ok none, { (c.advanced s).exhaust with statistics := r.statistics })
        | _ => (.error (unexpected c.phase r), (c.advanced s).exhaust) := by
  rw [nextWithin, hb]
  dsimp only
  rw [if_neg (by rw [hp]; decide), readRecord_eq hs]
  cases c.unread.head with
  | error e => rfl
  | ok r? =>
    cases r? with
    | none => rfl
    | some r => rfl

section

variable {r : StreamRecord} {rs : List StreamRecord} {stop : Option Error}

/-- A block is only taken over; what it owes is owed already. -/
theorem steps_data (hp : c.phase = .reading) (hs : c.current = some s) (hb : c.block = [])
    (ht : c.unread = ⟨r :: rs, stop⟩) (hd : r.kind = .data)
    (hstep : Steps { c.advanced s with block := r.rows } rem
      (nextWithin fuel { c.advanced s with block := r.rows })) : Steps c rem (nextWithin (fuel + 1) c) := by
  have hsame : SameSet c { c.advanced s with block := r.rows } :=
    (sameSet_advanced hs).trans ⟨rfl, rfl, rfl, rfl, rfl, rfl⟩
  rw [nextWithin_read hp hs hb, ht, Transcript.head_cons]
  dsimp only
  rw [hd]
  exact ⟨hstep.answer, hstep.owes, hsame.trans hstep.same, hstep.schema, hstep.rowCount, hstep.exhausted⟩

/-- Any other record is the last one that is read. -/
theorem steps_other (hc : c.closed = false) (hp : c.phase = .reading) (hs : c.current = some s)
    (hb : c.block = []) (ht : c.unread = ⟨r :: rs, stop⟩) (hd : r.kind ≠ .data) :
    Steps c ⟨schema, [], Transcript.closing ⟨r :: rs, stop⟩, rs⟩ (nextWithin (fuel + 1) c) := by
  have hspared : rs <:+ c.unread.records.tail := by
    rw [ht]
    exact List.suffix_rfl
  rw [nextWithin_read hp hs hb, ht, Transcript.head_cons, Transcript.closing_other hd]
  dsimp only
  by_cases hf : r.kind = .finishedWithSuccess
  · rw [if_pos hf, hf]
    exact steps_end hc hs hb rfl hspared
  · rw [if_neg hf, hp, unexpected_reading hd hf]
    cases hk : r.kind with
    | data => exact absurd hk hd
    | finishedWithSuccess => exact absurd hk hf
    | start => exact steps_end hc hs hb rfl hspared
    | finishWithError => exact steps_end hc hs hb rfl hspared
    | unknown => exact steps_end hc hs hb rfl hspared

/-- Without a record there is nothing more to read. -/
theorem steps_stopped (hc : c.closed = false) (hp : c.phase = .reading) (hs : c.current = some s)
    (hb : c.block = []) (ht : c.unread = ⟨[], stop⟩) :
    Steps c ⟨schema, [], Transcript.closing ⟨[], stop⟩, []⟩ (nextWithin (fuel + 1) c) := by
  rw [nextWithin_read hp hs hb, ht]
  cases stop with
  | none => exact steps_end hc hs hb rfl List.nil_suffix
  | some e => exact steps_end hc hs hb rfl List.nil_suffix

end

/-- Looking for the next row is one step, if there is enough fuel for the records that are unread. -/
theorem nextWithin_steps (h : c.Owes rem) (hf : c.unread.records.length < fuel) :
    Steps c rem (nextWithin fuel c) := by
  -- By induction on the fuel; a `DATA` record takes one round and moves its rows into the block.
  induction fuel generalizing c rem with
  | zero => omega
  | succ fuel ih =>
    cases h with
    | exhausted hc hp hb hs =>
      rw [nextWithin, hb]
      dsimp only
      rw [if_pos (by rw [hp]; decide)]
      exact ⟨rfl, .exhausted hc hp hb hs, .refl c, rfl, rfl, fun _ => hp⟩
    | @reading s schema hc hp hs hcol =>
      cases hb : c.block with
      | cons cells rest =>
        rw [← hb]
        exact steps_row hc hp hs hcol hb
      | nil =>
        match ht : c.unread with
        | ⟨[], stop⟩ => exact steps_stopped hc hp hs hb ht
        | ⟨r :: rs, stop⟩ =>
          rw [List.nil_append]
          by_cases hd : r.kind = .data
          · have hadv := unread_advanced_cons hs ht
            have howes : Owes { c.advanced s with block := r.rows }
                ⟨schema, r.rows ++ (c.advanced s).unread.leadingRows, (c.advanced s).unread.closing,
                  (c.advanced s).unread.afterRows.records.tail⟩ := .reading hc hp rfl hcol
            have hlen : (c.advanced s).unread.records.length < fuel := by
              rw [hadv]
              rw [ht] at hf
              exact Nat.lt_of_succ_lt_succ hf
            have hstep := ih howes hlen
            rw [hadv] at hstep
            rw [Transcript.leadingRows_data hd, Transcript.closing_data hd, Transcript.afterRows_data hd]
            exact steps_data hp hs hb ht hd hstep
          · rw [Transcript.leadingRows_other hd, Transcript.afterRows_other hd]
            exact steps_other hc hp hs hb ht hd

theorem weight_unread_le (c : StreamingCursor) : c.unread.weight ≤ c.bytesLeft := by
  unfold unread bytesLeft
  cases c.current with
  | none => exact Nat.le_refl 0
  | some s => exact Transcript.weight_transcript_le _ _

theorem records_lt_bytesLeft (c : StreamingCursor) : c.unread.records.length < c.bytesLeft + 2 := by
  have hrecords := Transcript.length_records_le c.unread
  have hweight := weight_unread_le c
  omega

theorem nextWithin_bytesLeft (h : c.Owes rem) : Steps c rem (nextWithin (c.bytesLeft + 2) c) :=
  nextWithin_steps h (records_lt_bytesLeft c)

theorem Owes.ensureStarted (h : c.Owes rem) : c.ensureStarted = (.ok (), c) := by
  unfold StreamingCursor.ensureStarted
  cases h with
  | reading hc hp => rw [hc, hp]; rfl
  | exhausted hc hp => rw [hc, hp]; rfl

theorem Owes.opened (h : c.Owes rem) : c.closed = false := by
  cases h with
  | reading hc => exact hc
  | exhausted hc => exact hc

/-- One call of `next` takes one answer off what is owed. -/
theorem next_steps (h : c.Owes rem) : Steps c rem c.next := by
  unfold next
  rw [h.opened, h.ensureStarted]
  exact nextWithin_bytesLeft h

/-! ## The first record -/

/-- Looking at the first record of a result set with the transcript `t`. -/
structure Starts (c : StreamingCursor) (t : Transcript)
    (result : Except Error Unit × StreamingCursor) : Prop where
  answer : result.1 = t.opening.map fun _ => ()
  owes : result.2.Owes t.owed
  same : SameSet c result.2
  schema : ∀ s, t.opening = .ok s → result.2.schema = some s
  rowCount : result.2.rowCount = c.rowCount
  exhausted : ∀ e, t.opening = .error e → result.2.phase = .exhausted

theorem unexpected_awaitingStart {r : StreamRecord} {rs : List StreamRecord} {stop : Option Error}
    (h : r.kind ≠ .start) : unexpected .awaitingStart r = Transcript.noStart ⟨r :: rs, stop⟩ := by
  unfold unexpected Transcript.noStart Transcript.departure
  cases hk : r.kind <;> simp_all

/-- Giving up at the first record. -/
theorem starts_error {e : Error} (hc : c.closed = false) (hs : c.current = some s) (hb : c.block = [])
    (ht : c.unread = t) (ho : t.opening = .error e) : Starts c t (.error e, (c.advanced s).exhaust) := by
  have howed : t.owed = ⟨{}, [], none, t.records.tail⟩ := by
    unfold Transcript.owed
    rw [ho]
  have hspared : t.records.tail <:+ (c.advanced s).unread.records := ht ▸ tail_suffix_advanced hs
  refine ⟨by rw [ho]; rfl, ?_, (sameSet_advanced hs).trans ⟨rfl, rfl, rfl, rfl, rfl, rfl⟩, ?_, rfl,
    fun _ _ => rfl⟩
  · rw [howed]
    exact .exhausted hc rfl hb hspared
  · intro schema hschema
    rw [ho] at hschema
    cases hschema

/-- Taking over what the first record announces. -/
theorem starts_opened {r : StreamRecord} {rs : List StreamRecord} {stop : Option Error} (hc : c.closed = false)
    (hs : c.current = some s) (hb : c.block = []) (ht : c.unread = ⟨r :: rs, stop⟩)
    (ho : (⟨r :: rs, stop⟩ : Transcript).opening = .ok schema) :
    Starts c ⟨r :: rs, stop⟩ (.ok (), { c.advanced s with
      schema := some schema, queryId := r.queryId, queryLabel := r.queryLabel, phase := .reading }) := by
  have hadv := unread_advanced_cons hs ht
  have howed : (⟨r :: rs, stop⟩ : Transcript).owed = Transcript.remainder ⟨rs, stop⟩ schema := by
    unfold Transcript.owed
    rw [ho]
    rfl
  refine ⟨by rw [ho]; rfl, ?_, (sameSet_advanced hs).trans ⟨rfl, rfl, rfl, rfl, rfl, rfl⟩, ?_, rfl, ?_⟩
  · rw [howed, ← hadv]
    have howes := Owes.reading (c := { c.advanced s with
      schema := some schema, queryId := r.queryId, queryLabel := r.queryLabel, phase := .reading }) hc rfl rfl rfl
    rw [show (c.advanced s).block = [] from hb] at howes
    exact howes
  · intro schema' hschema'
    rw [ho] at hschema'
    cases hschema'
    rfl
  · intro e he
    rw [ho] at he
    cases he

/-- The first record of a result set is dealt with as the transcript says. -/
theorem ensureStarted_starts (h : c.Fresh s) : Starts c c.unread c.ensureStarted := by
  obtain ⟨hc, hp, hb, hs⟩ := h
  unfold ensureStarted
  rw [if_neg (ne_true_of_eq_false hc), if_neg (not_not_intro hp), readRecord_eq hs]
  -- Everything but a `START` with columns that can be read ends in an error, and `opening` says which.
  match ht : c.unread with
  | ⟨[], none⟩ => exact starts_error hc hs hb ht rfl
  | ⟨[], some e⟩ => exact starts_error hc hs hb ht rfl
  | ⟨r :: rs, stop⟩ =>
    show Starts c _ (if r.kind = .start then _ else _)
    have ho : (⟨r :: rs, stop⟩ : Transcript).opening =
        if r.kind = .start then Schema.ofHeaders r.columns else .error (Transcript.noStart ⟨r :: rs, stop⟩) := rfl
    by_cases hk : r.kind = .start
    · rw [if_pos hk] at ho ⊢
      unfold start
      cases hschema : Schema.ofHeaders r.columns with
      | error e => exact starts_error hc hs hb ht (ho.trans hschema)
      | ok schema => exact starts_opened hc hs hb ht (ho.trans hschema)
    · rw [if_neg hk] at ho ⊢
      have hphase : (c.advanced s).phase = .awaitingStart := hp
      rw [hphase, unexpected_awaitingStart hk]
      exact starts_error hc hs hb ht ho

/-! ## All steps -/

/-- The cursor after `k` calls of `next`. -/
def afterNext : Nat → StreamingCursor → StreamingCursor
  | 0, c => c
  | k + 1, c => afterNext k c.next.2

theorem Owes.beyond_suffix (h : c.Owes rem) : rem.beyond <:+ c.unread.records := by
  cases h with
  | reading hc hp hs hcol => exact (List.tail_suffix _).trans (List.dropWhile_suffix _)
  | exhausted hc hp hb hs => exact hs

theorem Owes.next_of_exhausted (h : c.Owes rem) (hp : c.phase = .exhausted) : c.next = (.ok none, c) := by
  have hopen := h.opened
  have hstarted := h.ensureStarted
  cases h with
  | reading hc hp' => simp [hp] at hp'
  | exhausted hc _ hb =>
    unfold next
    rw [hopen, hstarted]
    show nextWithin (c.bytesLeft + 2) c = _
    unfold nextWithin
    rw [hb]
    dsimp only
    rw [if_pos (by rw [hp]; decide)]

/-- Nothing happens to an exhausted cursor. -/
theorem Owes.afterNext_of_exhausted (h : c.Owes rem) (hp : c.phase = .exhausted) (k : Nat) :
    afterNext k c = c := by
  induction k with
  | zero => rfl
  | succ k ih =>
    show afterNext k c.next.2 = c
    rw [h.next_of_exhausted hp]
    exact ih

/-- All calls of `next` by a cursor with the answers `answers`, of which the last one ends the result set. -/
structure Drains (c : StreamingCursor) (answers : List (Except Error (Option Row)))
    (beyond : List StreamRecord) (k : Nat) : Prop where
  answer : (afterNext k c).next.1 = answers[k]?.getD (.ok none)
  spared : beyond <:+ (afterNext k c).unread.records
  same : SameSet c (afterNext k c)
  settled : answers.length ≤ k → (afterNext k c).next = (.ok none, afterNext k c)

theorem Owes.drains (h : c.Owes rem) (k : Nat) : Drains c rem.answers rem.beyond k := by
  induction k generalizing c rem with
  | zero =>
    refine ⟨?_, h.beyond_suffix, .refl c, ?_⟩
    · rw [Remainder.answers_zero]
      exact (next_steps h).answer
    · intro hk
      simp [Remainder.answers] at hk
  | succ k ih =>
    have hstep := next_steps h
    obtain ⟨hanswer, hbeyond, hsame, hsettled⟩ := ih hstep.owes
    rw [Remainder.next_beyond] at hbeyond
    refine ⟨?_, hbeyond, hstep.same.trans hsame, ?_⟩
    · rw [Remainder.answers_succ]
      exact hanswer
    · intro hk
      by_cases hrows : rem.rows = []
      · have hp := hstep.exhausted hrows
        show (afterNext k c.next.2).next = (.ok none, afterNext k c.next.2)
        rw [hstep.owes.afterNext_of_exhausted hp]
        exact hstep.owes.next_of_exhausted hp
      · exact hsettled (Nat.le_of_succ_le_succ (Nat.le_trans (Remainder.length_answers_next hrows) hk))

theorem owed_beyond_suffix (t : Transcript) : t.owed.beyond <:+ t.records := by
  unfold Transcript.owed
  cases t.opening with
  | error e => exact List.tail_suffix _
  | ok schema =>
    exact (List.tail_suffix _).trans ((List.dropWhile_suffix _).trans (List.tail_suffix _))

theorem answers_ne_nil (t : Transcript) : t.answers ≠ [] := by
  unfold Transcript.answers
  cases t.opening <;> simp [Remainder.answers]

/-- A call of `next` first looks at the first record. -/
theorem Fresh.next_eq (h : c.Fresh s) :
    c.next = match c.unread.opening with
      | .ok _ => c.ensureStarted.2.next
      | .error e => (.error e, c.ensureStarted.2) := by
  have hstart := ensureStarted_starts h
  have howes := hstart.owes
  have hanswer := hstart.answer
  conv_lhs => unfold next
  rw [if_neg (ne_true_of_eq_false h.opened)]
  generalize c.ensureStarted = result at howes hanswer
  obtain ⟨answer, c'⟩ := result
  cases hopening : c.unread.opening with
  | error e =>
    rw [hopening] at hanswer
    rw [show answer = .error e from hanswer]
  | ok schema =>
    rw [hopening] at hanswer
    rw [show answer = .ok () from hanswer]
    show nextWithin (c'.bytesLeft + 2) c' = c'.next
    unfold next
    rw [howes.opened, howes.ensureStarted]
    rfl

/-- A result set that does not begin as it has to answers its fault once, and nothing more. -/
theorem Fresh.drains_of_error (h : c.Fresh s) {e : Error} (hopening : c.unread.opening = .error e) (k : Nat) :
    Drains c c.unread.answers c.unread.owed.beyond k := by
  have hstart := ensureStarted_starts h
  have hnext := h.next_eq
  rw [hopening] at hnext
  have hanswers : c.unread.answers = [.error e] := by
    unfold Transcript.answers
    rw [hopening]
  cases k with
  | zero =>
    rw [hanswers]
    exact ⟨congrArg Prod.fst hnext, owed_beyond_suffix _, .refl c, fun hk => absurd hk (Nat.not_succ_le_zero 0)⟩
  | succ k =>
    have hrest : afterNext (k + 1) c = c.ensureStarted.2 := by
      show afterNext k c.next.2 = _
      rw [hnext]
      exact hstart.owes.afterNext_of_exhausted (hstart.exhausted e hopening) k
    have hidle := hstart.owes.next_of_exhausted (hstart.exhausted e hopening)
    refine ⟨?_, ?_, ?_, ?_⟩
    · rw [hrest, hidle, hanswers]
      rfl
    · rw [hrest]
      exact hstart.owes.beyond_suffix
    · rw [hrest]
      exact hstart.same
    · intro _
      rw [hrest, hidle]

/-- One that begins as it has to goes on as it does behind its first record. -/
theorem Fresh.drains_of_opened (h : c.Fresh s) {schema : Schema} (hopening : c.unread.opening = .ok schema) (k : Nat) :
    Drains c c.unread.answers c.unread.owed.beyond k := by
  have hstart := ensureStarted_starts h
  have hnext := h.next_eq
  rw [hopening] at hnext
  have hdrains := hstart.owes.drains k
  have hanswers : c.unread.answers = c.unread.owed.answers := by
    unfold Transcript.answers Transcript.owed
    rw [hopening]
  cases k with
  | zero =>
    have hpos := List.length_pos_iff.mpr (answers_ne_nil c.unread)
    refine ⟨?_, owed_beyond_suffix _, .refl c, fun hk => absurd hk (Nat.not_le_of_lt hpos)⟩
    rw [hanswers]
    show c.next.1 = _
    rw [hnext]
    exact hdrains.answer
  | succ k =>
    have hrest : afterNext (k + 1) c = afterNext (k + 1) c.ensureStarted.2 := by
      show afterNext k c.next.2 = afterNext k c.ensureStarted.2.next.2
      rw [hnext]
    rw [hanswers]
    refine ⟨?_, ?_, ?_, ?_⟩
    · rw [hrest]
      exact hdrains.answer
    · rw [hrest]
      exact hdrains.spared
    · rw [hrest]
      exact hstart.same.trans hdrains.same
    · rw [hrest]
      exact hdrains.settled

theorem Fresh.drains (h : c.Fresh s) (k : Nat) :
    Drains c c.unread.answers c.unread.owed.beyond k := by
  cases hopening : c.unread.opening with
  | error e => exact h.drains_of_error hopening k
  | ok schema => exact h.drains_of_opened hopening k

theorem fresh_ofBodies (b : Body) (bs : List Body) (params : StreamParams) :
    (ofBodies (b :: bs) params).Fresh ⟨0, b⟩ := by
  refine ⟨?_, rfl, rfl, ?_⟩ <;> simp [ofBodies]

/-- The answers of a cursor at a result set of which it has read nothing: one for every row of the `DATA` records
behind the `START`, in their order, then the end, and nothing more.  The records behind the one that decides the
end are never read.  Columns that cannot be read end the result set with the type that is malformed, and what
stops the records is a line that is no record or too long or a read that fails. -/
theorem Fresh.next_answers (h : c.Fresh s) (k : Nat) :
    Drains c (s.body.transcript c.params.maxLineLength).answers
        (s.body.transcript c.params.maxLineLength).owed.beyond k ∧
      (∀ r rs, (s.body.transcript c.params.maxLineLength).records = r :: rs → r.kind = .start →
        ∀ e, Schema.ofHeaders r.columns = .error e → ∃ text fault, e = .descriptor text fault) ∧
      ∀ e, (s.body.transcript c.params.maxLineLength).stop = some e →
        Transcript.Interrupts c.params.maxLineLength e := by
  refine ⟨?_, fun _ _ _ _ _ he => Schema.ofHeaders_error he, Transcript.interruptible_ofReads⟩
  rw [← unread_eq h.current]
  exact h.drains k

end

/-- One column, a row, a row that is too wide, another row, and a record behind the end. -/
def sampleBody : Body :=
  ⟨[], [.bytes "[\"START\",[[\"a\",\"int\"]]]\n[\"DATA\",[],[[1],[2,3]]]\n".toUTF8.toList,
    .bytes "[\"DATA\",[],[]]\r\n\n[\"DATA\",[],[[4]]]\n".toUTF8.toList,
    .bytes "[\"FINISHED_WITH_SUCCESS\"]\n[\"DATA\",[],[[5]]]".toUTF8.toList]⟩

theorem next_answers_sample :
    (ofBodies [sampleBody]).Fresh ⟨0, sampleBody⟩ ∧
      delivered (afterNext 0 (ofBodies [sampleBody])).next.1 = 1 ∧
      delivered (afterNext 1 (ofBodies [sampleBody])).next.1 = 0 ∧
      delivered (afterNext 2 (ofBodies [sampleBody])).next.1 = 1 ∧
      (afterNext 4 (ofBodies [sampleBody])).next = (.ok none, afterNext 4 (ofBodies [sampleBody])) := by
  have h := fresh_ofBodies sampleBody [] {}
  refine ⟨h, ?_, ?_, ?_, (h.next_answers 4).1.settled ?_⟩
  · rw [(h.next_answers 0).1.answer]
    decide +kernel
  · rw [(h.next_answers 1).1.answer]
    decide +kernel
  · rw [(h.next_answers 2).1.answer]
    decide +kernel
  · decide +kernel

end StreamingCursor

end Rowset
