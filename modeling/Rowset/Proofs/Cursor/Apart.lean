import Rowset.Proofs.Cursor.Demand
import Rowset.Proofs.Wire.Front

/-!
# Cursors with different bodies to read

`Apart` relates two cursors that differ in what is to be read, and says how many records may be read until that
matters.  An operation that needs no more of them answers the same for both, and leaves them with as many records
less.
-/

namespace Rowset

open Body (Parted)

namespace StreamingCursor

variable {more more' : List Chunk} {m n fuel fuel' : Nat} {c c' : StreamingCursor} {r : StreamRecord}

/-- The cursor with other bodies to read. -/
def withBodies (c : StreamingCursor) (current : Option Segment) (waiting : List Segment) : StreamingCursor :=
  { c with current := current, remaining := waiting }

/-- Two cursors that are the same but for the bodies that they read and that are waiting.  Of the current body, at
least `n` records are complete in front of what is different, unless it is exhausted. -/
structure Apart (more more' : List Chunk) (n : Nat) (c c' : StreamingCursor) : Prop where
  rest : c' = c.withBodies c'.current c'.remaining
  current : ∃ p b b', c.current = some ⟨p, b⟩ ∧ c'.current = some ⟨p, b'⟩ ∧
    Parted c.params.maxLineLength more more' 0 b b' ∧
    (c.phase ≠ .exhausted → Parted c.params.maxLineLength more more' n b b')

theorem phase_readRecord (c : StreamingCursor) : c.readRecord.2.phase = c.phase := by
  unfold readRecord
  cases c.current <;> rfl

theorem phase_of_read {answer : Except Error (Option StreamRecord)} {d : StreamingCursor}
    (h : c.readRecord = (answer, d)) : d.phase = c.phase := by
  rw [← phase_readRecord c, h]

/-- Behind a block there is one record less to be read for the next row. -/
theorem demand_of_data {d : StreamingCursor} (hb : c.block = []) (hr : c.phase = .reading)
    (hread : c.readRecord = (.ok (some r), d)) (hk : r.kind = .data) :
    c.demand 1 = demand { d with block := r.rows } 1 + 1 := by
  have hphase := (phase_of_read hread).trans hr
  rw [demand_reading hr, hb, unread_of_read hread, demand_reading (c := { d with block := r.rows }) hphase, Nat.add_comm]
  exact Transcript.reach_data hk 0

theorem phase_of_started (h : c.ensureStarted.1 = .ok ()) : c.ensureStarted.2.phase ≠ .awaitingStart := by
  have hopens := opens_ensureStarted c
  generalize c.ensureStarted = result at h hopens ⊢
  cases hopens with
  | closed _ => cases h
  | before _ hphase => exact hphase
  | failed _ _ _ => cases h
  | started _ _ _ _ _ => exact nofun

namespace Apart

theorem params (h : Apart more more' n c c') : c'.params = c.params := by
  rw [h.rest]
  rfl

theorem phase (h : Apart more more' n c c') : c'.phase = c.phase := by
  rw [h.rest]
  rfl

theorem closed (h : Apart more more' n c c') : c'.closed = c.closed := by
  rw [h.rest]
  rfl

theorem schema (h : Apart more more' n c c') : c'.schema = c.schema := by
  rw [h.rest]
  rfl

theorem block (h : Apart more more' n c c') : c'.block = c.block := by
  rw [h.rest]
  rfl

theorem of_le (h : Apart more more' n c c') (hmn : m ≤ n) : Apart more more' m c c' := by
  obtain ⟨hrest, p, b, b', hcurrent, hcurrent', hparted, hahead⟩ := h
  exact ⟨hrest, p, b, b', hcurrent, hcurrent', hparted, fun hp => (hahead hp).of_le hmn⟩

/-- What is done to both cursors alike, and not to their bodies, keeps them apart as they were. -/
theorem map (h : Apart more more' n c c') (f : StreamingCursor → StreamingCursor)
    (hf : ∀ d s waiting, f (d.withBodies s waiting) = (f d).withBodies s waiting)
    (hparams : (f c).params = c.params) (hphase : (f c).phase ≠ .exhausted → c.phase ≠ .exhausted) :
    Apart more more' n (f c) (f c') := by
  obtain ⟨hrest, p, b, b', hcurrent, hcurrent', hparted, hahead⟩ := h
  have hsame : ∀ d, f d = (f d).withBodies d.current d.remaining := fun d => hf d d.current d.remaining
  have hkept : ∀ d, (f d).current = d.current := fun d => by rw [hsame]; rfl
  have hwaiting : ∀ d, (f d).remaining = d.remaining := fun d => by rw [hsame]; rfl
  refine ⟨?_, p, b, b', (hkept c).trans hcurrent, (hkept c').trans hcurrent', hparams ▸ hparted,
    fun hp => hparams ▸ hahead (hphase hp)⟩
  rw [hkept, hwaiting, ← hf, ← hrest]

/-- How far an exhausted body was read does not matter any more. -/
theorem exhaust (h : Apart more more' m c c') (n : Nat) : Apart more more' n c.exhaust c'.exhaust := by
  obtain ⟨hrest, p, b, b', hcurrent, hcurrent', hparted, -⟩ := h
  exact ⟨congrArg StreamingCursor.exhaust hrest, p, b, b', hcurrent, hcurrent', hparted, absurd rfl⟩

/-- Both cursors read the same record, and nothing of what is different. -/
theorem readRecord (h : Apart more more' (n + 1) c c') (hp : c.phase ≠ .exhausted) :
    c.readRecord.1 = c'.readRecord.1 ∧ Apart more more' 0 c.readRecord.2 c'.readRecord.2 ∧
      ∀ r, c.readRecord.1 = .ok (some r) → Apart more more' n c.readRecord.2 c'.readRecord.2 := by
  have hparams := h.params
  obtain ⟨hrest, p, b, b', hcurrent, hcurrent', -, hahead⟩ := h
  obtain ⟨hanswer, hparted, hmore⟩ := (hahead hp).readRecord
  have hread : c.readRecord = ((b.readRecord c.params.maxLineLength).1,
      { c with current := some ⟨p, (b.readRecord c.params.maxLineLength).2⟩ }) := by
    unfold StreamingCursor.readRecord
    rw [hcurrent]
  have hread' : c'.readRecord = ((b'.readRecord c.params.maxLineLength).1,
      { c' with current := some ⟨p, (b'.readRecord c.params.maxLineLength).2⟩ }) := by
    unfold StreamingCursor.readRecord
    rw [hcurrent', hparams]
  have hafter := congrArg (fun d : StreamingCursor =>
    { d with current := some (⟨p, (b'.readRecord c.params.maxLineLength).2⟩ : Segment) }) hrest
  rw [hread, hread']
  exact ⟨hanswer, ⟨hafter, p, _, _, rfl, rfl, hparted, fun _ => hparted⟩,
    fun r hr => ⟨hafter, p, _, _, rfl, rfl, hparted, fun _ => hmore r hr⟩⟩

/-- The first record means the same for both.  One that is no proper `START` exhausts them, and then their bodies do
not matter. -/
theorem announced (h : Apart more more' n c c') (hp : c.phase ≠ .exhausted) (r : StreamRecord) :
    (c.announced r).1 = (c'.announced r).1 ∧ Apart more more' n (c.announced r).2 (c'.announced r).2 := by
  unfold StreamingCursor.announced
  rw [h.phase]
  by_cases hk : r.kind = .start
  · rw [if_pos hk, if_pos hk]
    unfold start
    cases Schema.ofHeaders r.columns with
    | error e => exact ⟨rfl, h.exhaust n⟩
    | ok s => exact ⟨rfl, h.map (fun d => { d with
        schema := some s, queryId := r.queryId, queryLabel := r.queryLabel, phase := .reading })
        (fun _ _ _ => rfl) rfl fun _ => hp⟩
  · rw [if_neg hk, if_neg hk]
    exact ⟨rfl, h.exhaust n⟩

/-- Looking at the first record answers the same. -/
theorem ensureStarted (h : Apart more more' n c c') (hn : c.demand 0 ≤ n) :
    c.ensureStarted.1 = c'.ensureStarted.1 ∧
      Apart more more' (n - c.demand 0) c.ensureStarted.2 c'.ensureStarted.2 := by
  cases hc : c.closed with
  | true =>
    rw [ensureStarted_closed hc, ensureStarted_closed (h.closed.trans hc)]
    exact ⟨rfl, h.of_le (Nat.sub_le _ _)⟩
  | false =>
    have hc' := h.closed.trans hc
    by_cases hp : c.phase = .awaitingStart
    · have hp' := h.phase.trans hp
      have hone : c.demand 0 = 1 := by rw [demand_awaitingStart hp, Transcript.needed_zero]
      rw [hone] at hn ⊢
      obtain ⟨n, rfl⟩ : ∃ k, n = k + 1 := ⟨n - 1, by omega⟩
      obtain ⟨hanswer, hend, hgo⟩ := h.readRecord (by rw [hp]; decide)
      rcases hread : c.readRecord with ⟨answer, d⟩
      rcases hread' : c'.readRecord with ⟨answer', d'⟩
      rw [hread, hread'] at hanswer hend hgo
      obtain rfl : answer = answer' := hanswer
      rcases answer with e | _ | r
      · rw [ensureStarted_failure hc hp hread, ensureStarted_failure hc' hp' hread']
        exact ⟨rfl, hend.exhaust n⟩
      · rw [ensureStarted_unfinished hc hp hread, ensureStarted_unfinished hc' hp' hread']
        exact ⟨rfl, hend.exhaust n⟩
      · have hphase := (phase_of_read hread).trans hp
        rw [ensureStarted_record hc hp hread, ensureStarted_record hc' hp' hread']
        exact (hgo r rfl).announced (by rw [hphase]; decide) r
    · rw [ensureStarted_started hc hp, ensureStarted_started hc' (h.phase.symm ▸ hp)]
      exact ⟨rfl, h.of_le (Nat.sub_le _ _)⟩

/-- A row of the block is the same for both. -/
theorem nextWithin_row {cells : List Json} {rest : List (List Json)} (h : Apart more more' n c c')
    (hb : c.block = cells :: rest) (fuel fuel' : Nat) :
    (StreamingCursor.nextWithin (fuel + 1) c).1 = (StreamingCursor.nextWithin (fuel' + 1) c').1 ∧
      Apart more more' n (StreamingCursor.nextWithin (fuel + 1) c).2 (StreamingCursor.nextWithin (fuel' + 1) c').2 := by
  unfold StreamingCursor.nextWithin
  rw [hb, h.block.trans hb]
  dsimp only
  cases hs : c.schema with
  | none =>
    rw [h.schema.trans hs]
    exact ⟨rfl, h.map (fun d => { d with schema := none, block := rest }) (fun _ _ _ => rfl) rfl id⟩
  | some s =>
    rw [h.schema.trans hs]
    dsimp only
    cases Row.decode s cells with
    | error e => exact ⟨rfl, h.map (fun d => { d with schema := some s, block := rest }) (fun _ _ _ => rfl) rfl id⟩
    | ok vs =>
      exact ⟨rfl, h.map (fun d => { d with schema := some s, block := rest, rowCount := d.rowCount + 1 })
        (fun _ _ _ => rfl) rfl id⟩

/-- A record that brings no rows means the same for both, and their bodies do not matter behind it. -/
theorem concluded (h : Apart more more' m c c') (n : Nat) (r : StreamRecord) :
    (c.concluded r).1 = (c'.concluded r).1 ∧ Apart more more' n (c.concluded r).2 (c'.concluded r).2 := by
  unfold StreamingCursor.concluded
  rw [h.phase]
  split_ifs
  · exact ⟨rfl, (h.exhaust n).map (fun d => { d with statistics := r.statistics }) (fun _ _ _ => rfl) rfl id⟩
  · exact ⟨rfl, h.exhaust n⟩

/-- Looking for the next row answers the same.  By induction on the rounds of the first cursor: a block takes one record
off what may be read, and one round off both sides. -/
theorem nextWithin (h : Apart more more' n c c') (hp : c.phase ≠ .awaitingStart) (hn : c.demand 1 ≤ n)
    (hf : c.unread.records.length < fuel) (hf' : c'.unread.records.length < fuel') :
    (nextWithin fuel c).1 = (nextWithin fuel' c').1 ∧
      Apart more more' (n - c.demand 1) (nextWithin fuel c).2 (nextWithin fuel' c').2 := by
  induction fuel generalizing n fuel' c c' with
  | zero => omega
  | succ fuel ih =>
    obtain ⟨fuel', rfl⟩ : ∃ k, fuel' = k + 1 := ⟨fuel' - 1, by omega⟩
    cases hb : c.block with
    | cons cells rest =>
      obtain ⟨hanswer, hafter⟩ := h.nextWithin_row hb fuel fuel'
      exact ⟨hanswer, hafter.of_le (Nat.sub_le _ _)⟩
    | nil =>
      have hb' := h.block.trans hb
      by_cases hr : c.phase = .reading
      · have hr' := h.phase.trans hr
        have hpos : 1 ≤ c.demand 1 := by
          rw [demand_reading hr, hb]
          exact Transcript.reach_pos _ 0
        obtain ⟨n, rfl⟩ : ∃ k, n = k + 1 := ⟨n - 1, by omega⟩
        obtain ⟨hanswer, hend, hgo⟩ := h.readRecord (by rw [hr]; decide)
        rcases hread : c.readRecord with ⟨answer, d⟩
        rcases hread' : c'.readRecord with ⟨answer', d'⟩
        rw [hread, hread'] at hanswer hend hgo
        -- One answer for both: an error, the end of the body, or a record.
        obtain rfl : answer = answer' := hanswer
        rcases answer with e | _ | r
        · rw [nextWithin_failure hb hr hread, nextWithin_failure hb' hr' hread']
          exact ⟨rfl, hend.exhaust _⟩
        · rw [nextWithin_unfinished hb hr hread, nextWithin_unfinished hb' hr' hread']
          exact ⟨rfl, hend.exhaust _⟩
        · by_cases hk : r.kind = .data
          · have hblock : Apart more more' n { d with block := r.rows } { d' with block := r.rows } :=
              (hgo r rfl).map (fun d => { d with block := r.rows }) (fun _ _ _ => rfl) rfl id
            have hrest := demand_of_data hb hr hread hk
            have hphase := (phase_of_read hread).trans hr
            rw [unread_of_read hread] at hf
            rw [unread_of_read hread'] at hf'
            rw [nextWithin_data hb hr hread hk, nextWithin_data hb' hr' hread' hk, hrest, Nat.add_sub_add_right]
            exact ih hblock (by rw [hphase]; decide) (by omega) (Nat.lt_of_succ_lt_succ hf) (Nat.lt_of_succ_lt_succ hf')
          · rw [nextWithin_other hb hr hread hk, nextWithin_other hb' hr' hread' hk]
            exact hend.concluded _ r
      · rw [nextWithin_idle hb hr, nextWithin_idle hb' (h.phase.symm ▸ hr)]
        exact ⟨rfl, h.of_le (Nat.sub_le _ _)⟩

/-- Asking for a row answers the same. -/
theorem next {set : ResultSet} (h : Apart more more' n c c') (hsits : Sits set c) (hn : c.demand 1 ≤ n) :
    c.next.1 = c'.next.1 ∧ Apart more more' (n - c.demand 1) c.next.2 c'.next.2 := by
  have hsplit : c.demand 1 = c.demand 0 + c.ensureStarted.2.demand 1 := hsits.meets_ensureStarted.demand 1
  have hphase := phase_of_started (c := c)
  obtain ⟨hanswer, hstart⟩ := h.ensureStarted (by omega)
  unfold StreamingCursor.next
  rw [h.closed]
  by_cases hc : c.closed = true
  · rw [if_pos hc, if_pos hc]
    exact ⟨rfl, h.of_le (Nat.sub_le _ _)⟩
  · rw [if_neg hc, if_neg hc]
    rw [hsplit] at hn ⊢
    generalize c.ensureStarted = result at hanswer hstart hphase hn ⊢
    generalize c'.ensureStarted = result' at hanswer hstart ⊢
    obtain ⟨answer, d⟩ := result
    obtain ⟨answer', d'⟩ := result'
    obtain rfl : answer = answer' := hanswer
    cases answer with
    | error e => exact ⟨rfl, hstart.of_le (by omega)⟩
    | ok u =>
      rw [← Nat.sub_sub]
      exact hstart.nextWithin (hphase rfl) (Nat.le_sub_of_add_le' hn) (records_lt_bytesLeft d) (records_lt_bytesLeft d')

/-- Asking for the columns answers the same. -/
theorem columns (h : Apart more more' n c c') (hn : c.demand 0 ≤ n) :
    c.columns.1 = c'.columns.1 ∧ Apart more more' (n - c.demand 0) c.columns.2 c'.columns.2 := by
  obtain ⟨hanswer, hstart⟩ := h.ensureStarted hn
  unfold StreamingCursor.columns
  generalize c.ensureStarted = result at hanswer hstart ⊢
  generalize c'.ensureStarted = result' at hanswer hstart ⊢
  obtain ⟨answer, d⟩ := result
  obtain ⟨answer', d'⟩ := result'
  obtain rfl : answer = answer' := hanswer
  cases answer with
  | error e => exact ⟨rfl, hstart⟩
  | ok u =>
    dsimp only
    rw [hstart.schema]
    cases d.schema <;> exact ⟨rfl, hstart⟩

end Apart

end StreamingCursor

end Rowset
