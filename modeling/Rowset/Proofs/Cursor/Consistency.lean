import Mathlib.Logic.Relation
import Rowset.Proofs.Cursor.Demand
import Rowset.Proofs.Cursor.Lifecycle

/-!
# The state of a streaming cursor is consistent

The fields of a streaming cursor depend on each other: there is a body as long as the cursor is open, columns are known
while rows are read, and what is known of a result set is known only behind its first record.  `Consistent` says so.
It holds between operations, and also at every place inside of an operation where a record is read or a row is taken
(`Visits`).  So the answers that are there for a cursor without a body, and for a row without columns, are never given:
that a cursor is closed is only ever answered to who asks a closed cursor for its columns.

The main statement is `StreamingCursor.consistency`.
-/

namespace Rowset

namespace StreamingCursor

open Cursor (fault perform run)

/-- What the fields of a cursor say of each other. -/
structure Consistent (c : StreamingCursor) : Prop where
  current : c.closed = true ↔ c.current = none
  remaining : c.closed = true → c.remaining = []
  awaiting : c.phase = .awaitingStart →
    c.schema = none ∧ c.queryId = none ∧ c.queryLabel = none ∧ c.statistics = none ∧ c.block = []
  reading : c.phase = .reading → ∃ s, c.schema = some s
  block : c.block ≠ [] → c.phase = .reading ∧ ∃ s, c.schema = some s
  statistics : ∀ statistics, c.statistics = some statistics → c.phase = .exhausted

/-- What an open cursor does between two places of an operation where it reads a record or takes a row: the first
record was a `START`, a record with rows was read, or the result set that follows is entered. -/
inductive Moves : StreamingCursor → StreamingCursor → Prop
  | started {c d : StreamingCursor} (opened : c.closed = false) (start : c.ensureStarted = (.ok (), d)) : Moves c d
  | data {c d : StreamingCursor} {r : StreamRecord} (opened : c.closed = false) (block : c.block = [])
      (phase : c.phase = .reading) (read : c.readRecord = (.ok (some r), d)) (kind : r.kind = .data) :
      Moves c { d with block := r.rows }
  | entered {c : StreamingCursor} {s : Segment} {rest : List Segment} (opened : c.closed = false)
      (remaining : c.remaining = s :: rest) : Moves c (c.entered s rest)

/-- The cursor `d` is one that an operation on `c` may come by.  Taking several rows is to take one after the other. -/
abbrev Visits : StreamingCursor → StreamingCursor → Prop :=
  Relation.ReflTransGen Moves

/-- What holds of a cursor between two operations, and of those that an operation comes by. -/
structure Guarded (c : StreamingCursor) : Prop where
  consistent : Consistent c
  visited : ∀ d, Visits c d → Consistent d ∧ d.closed = c.closed
  /-- There is a body to read a record from. -/
  reads : ∀ d, Visits c d → d.closed = false → d.readRecord.1 ≠ .error .closed
  /-- There are columns to decode a row with. -/
  takes : ∀ d, Visits c d → ∀ cells left, d.block = cells :: left → ∃ s, d.schema = some s ∧
    ∀ fuel, nextWithin (fuel + 1) d =
      match Row.decode s cells with
      | .ok vs => (.ok (some ⟨vs, s⟩), { d with block := left, rowCount := d.rowCount + 1 })
      | .error e => (.error e, { d with block := left })
  answers : ∀ op, (perform c op).1.fault = some .closed ↔ c.closed = true ∧ op = .columns

variable {c d : StreamingCursor} {answer : Except Error (Option StreamRecord)} {bodies : List Body}
  {params : StreamParams}

/-! ## Reading a record -/

theorem ne_closed_of_readRecordWithin (limit fuel : Nat) (b : Body) :
    (Body.readRecordWithin limit fuel b).1 ≠ .error .closed := by
  induction fuel generalizing b with
  | zero => rintro ⟨⟩
  | succ fuel ih =>
    unfold Body.readRecordWithin
    rcases b.readLine (limit + 3) with ⟨answer, after⟩
    cases answer with
    | error cause => rintro ⟨⟩
    | ok line =>
      dsimp only
      split
      · rintro ⟨⟩
      · split
        · rintro ⟨⟩
        · split
          · exact ih after
          · split <;> rintro ⟨⟩

theorem readRecord_ne_closed {s : Segment} (h : c.current = some s) : c.readRecord.1 ≠ .error .closed := by
  unfold readRecord
  rw [h]
  exact ne_closed_of_readRecordWithin _ _ _

/-- Only the body changes, and it stays. -/
theorem eq_of_read (h : c.readRecord = (answer, d)) :
    ∃ current, d = { c with current := current } ∧ (current = none ↔ c.current = none) := by
  unfold readRecord at h
  cases hs : c.current with
  | none =>
    rw [hs] at h
    cases h
    exact ⟨none, by rw [← hs], iff_of_true rfl rfl⟩
  | some s =>
    rw [hs] at h
    cases h
    exact ⟨_, rfl, iff_of_false nofun nofun⟩

/-! ## One step -/

theorem Consistent.opens {result : Except Error Unit × StreamingCursor} (hc : Consistent c) (h : Opens c result) :
    Consistent result.2 := by
  cases h with
  | closed _ => exact hc
  | before _ _ => exact hc
  | failed opened phase read =>
    obtain ⟨current, rfl, hcurrent⟩ := eq_of_read read
    obtain ⟨-, -, -, -, hblock⟩ := hc.awaiting phase
    exact ⟨hc.current.trans hcurrent.symm, hc.remaining, nofun, nofun, absurd hblock, fun _ _ => rfl⟩
  | @started r d schema opened phase read kind columns =>
    obtain ⟨current, rfl, hcurrent⟩ := eq_of_read read
    obtain ⟨-, -, -, hstatistics, hblock⟩ := hc.awaiting phase
    refine ⟨hc.current.trans hcurrent.symm, hc.remaining, nofun, fun _ => ⟨schema, rfl⟩, absurd hblock, ?_⟩
    intro statistics h
    rw [show c.statistics = some statistics from h] at hstatistics
    cases hstatistics

/-- Behind a record with rows the columns are still known. -/
theorem Consistent.data {r : StreamRecord} (hc : Consistent c) (phase : c.phase = .reading)
    (read : c.readRecord = (.ok (some r), d)) : Consistent { d with block := r.rows } := by
  obtain ⟨current, rfl, hcurrent⟩ := eq_of_read read
  have hawaiting : c.phase ≠ .awaitingStart := by rw [phase]; exact nofun
  exact ⟨hc.current.trans hcurrent.symm, hc.remaining, fun h => absurd h hawaiting, hc.reading,
    fun _ => ⟨phase, hc.reading phase⟩, hc.statistics⟩

/-- A row that is taken off the block leaves the state as consistent as it was. -/
theorem Consistent.taken {cells : List Json} {left : List (List Json)} (hc : Consistent c)
    (hb : c.block = cells :: left) (n : Nat) : Consistent { c with block := left, rowCount := n } := by
  have hrows := hc.block (by rw [hb]; exact List.cons_ne_nil cells left)
  have hawaiting : c.phase ≠ .awaitingStart := by rw [hrows.1]; exact nofun
  exact ⟨hc.current, hc.remaining, fun h => absurd h hawaiting, hc.reading, fun _ => hrows, hc.statistics⟩

theorem Consistent.pulls {result : Except Error (Option Row) × StreamingCursor} (hc : Consistent c)
    (h : Pulls c result) : Consistent result.2 := by
  induction h with
  | spent => exact hc
  | row block _ _ => exact hc.taken block _
  | badRow block => exact hc.taken block _
  | idle _ _ => exact hc
  | failed block phase read =>
    obtain ⟨current, rfl, hcurrent⟩ := eq_of_read read
    exact ⟨hc.current.trans hcurrent.symm, hc.remaining, nofun, nofun, absurd block, fun _ _ => rfl⟩
  | finished block phase read kind =>
    obtain ⟨current, rfl, hcurrent⟩ := eq_of_read read
    exact ⟨hc.current.trans hcurrent.symm, hc.remaining, nofun, nofun, absurd block, fun _ _ => rfl⟩
  | data block phase read kind _ ih => exact ih (hc.data phase read)

theorem Consistent.ensureStarted (hc : Consistent c) : Consistent c.ensureStarted.2 :=
  hc.opens (opens_ensureStarted c)

theorem Consistent.entered {s : Segment} {rest : List Segment} (hc : c.closed = false) :
    Consistent (c.entered s rest) := by
  have hopen : (c.entered s rest).closed ≠ true := ne_true_of_eq_false hc
  exact ⟨iff_of_false hopen nofun, fun h => absurd h hopen, fun _ => ⟨rfl, rfl, rfl, rfl, rfl⟩, nofun, absurd rfl,
    nofun⟩

theorem Consistent.next (hc : Consistent c) : Consistent c.next.2 := by
  rcases next_cases c with ⟨-, hnext⟩ | ⟨e, -, hnext⟩ | ⟨-, hpulls⟩
  · rw [hnext]
    exact hc
  · rw [hnext]
    exact hc.ensureStarted
  · exact hc.ensureStarted.pulls hpulls

/-! ## All steps -/

theorem consistent_ofBodies (bodies : List Body) (params : StreamParams) : Consistent (ofBodies bodies params) := by
  cases bodies with
  | nil => exact ⟨iff_of_true rfl rfl, fun _ => rfl, fun _ => ⟨rfl, rfl, rfl, rfl, rfl⟩, nofun, absurd rfl, nofun⟩
  | cons b bodies =>
    have hfresh := fresh_ofBodies b bodies params
    have hopen : (ofBodies (b :: bodies) params).closed ≠ true := ne_true_of_eq_false hfresh.opened
    refine ⟨iff_of_false hopen ?_, fun h => absurd h hopen, fun _ => ⟨rfl, rfl, rfl, rfl, rfl⟩, nofun, absurd rfl,
      nofun⟩
    rw [hfresh.current]
    exact nofun

theorem consistent_invariant : Cursor.Invariant Consistent :=
  invariant_of_steps Consistent.ensureStarted Consistent.next (fun _ hc _ => Consistent.entered hc) fun _ _ =>
    ⟨iff_of_true rfl rfl, fun _ => rfl, nofun, nofun, absurd rfl, nofun⟩

/-! ## Inside of operations -/

/-- One step inside an operation keeps the fields consistent and the cursor open. -/
theorem Consistent.moves (hc : Consistent c) (h : Moves c d) : Consistent d ∧ d.closed = c.closed := by
  cases h with
  | started opened start =>
    have hsame := sameSet_ensureStarted c
    have hd := hc.ensureStarted
    rw [start] at hsame hd
    exact ⟨hd, hsame.closed⟩
  | data opened block phase read kind => exact ⟨hc.data phase read, (sameSet_of_read read).closed⟩
  | entered opened remaining => exact ⟨.entered opened, rfl⟩

/-- So every cursor that an open one comes by is consistent and open. -/
theorem Consistent.visits (hc : Consistent c) (h : Visits c d) : Consistent d ∧ d.closed = c.closed := by
  induction h with
  | refl => exact ⟨hc, rfl⟩
  | tail _ hmove ih =>
    obtain ⟨hd, hclosed⟩ := ih.1.moves hmove
    exact ⟨hd, hclosed.trans ih.2⟩

/-- Reading a record would answer that the cursor is closed if there were no body; an open cursor has one. -/
theorem Consistent.readRecord_ne_closed (hc : Consistent c) (h : c.closed = false) :
    c.readRecord.1 ≠ .error .closed := by
  have hcurrent : c.current ≠ none := fun hnone => absurd (hc.current.mpr hnone) (ne_true_of_eq_false h)
  obtain ⟨s, hs⟩ := Option.ne_none_iff_exists'.mp hcurrent
  exact StreamingCursor.readRecord_ne_closed hs

/-- Rows in the block come with a schema, so taking one never looks for a schema in vain. -/
theorem Consistent.nextWithin_row {cells : List Json} {left : List (List Json)} (hc : Consistent c)
    (hb : c.block = cells :: left) : ∃ s, c.schema = some s ∧ ∀ fuel, nextWithin (fuel + 1) c =
      match Row.decode s cells with
      | .ok vs => (.ok (some ⟨vs, s⟩), { c with block := left, rowCount := c.rowCount + 1 })
      | .error e => (.error e, { c with block := left }) := by
  obtain ⟨-, s, hs⟩ := hc.block (by rw [hb]; exact List.cons_ne_nil cells left)
  refine ⟨s, hs, fun fuel => ?_⟩
  unfold nextWithin
  cases hrow : Row.decode s cells with
  | ok vs => simp only [hb, hs, hrow]
  | error e => simp only [hb, hs, hrow]

/-! ## Answers -/

theorem fault_decode_ne_closed (s : Schema) (cells : List Json) : fault (Row.decode s cells) ≠ some .closed := by
  unfold Row.decode
  split
  · cases h : Row.decodeCells s.columns cells with
    | ok vs => exact nofun
    | error e =>
      obtain ⟨fault, rfl⟩ := Row.decodeCells_error h
      exact nofun
  · exact nofun

theorem fault_ofHeaders_ne_closed (hs : List ColumnHeader) : fault (Schema.ofHeaders hs) ≠ some .closed := by
  cases h : Schema.ofHeaders hs with
  | ok s => exact nofun
  | error e =>
    obtain ⟨text, fault, rfl⟩ := Schema.ofHeaders_error h
    exact nofun

theorem unexpected_ne_closed (phase : Phase) (r : StreamRecord) : some (unexpected phase r) ≠ some .closed := by
  unfold unexpected
  cases r.kind with
  | finishedWithSuccess => dsimp only; split <;> exact nofun
  | _ => exact nofun

theorem fault_announced_ne_closed (c : StreamingCursor) (r : StreamRecord) : fault (c.announced r).1 ≠ some .closed := by
  unfold announced
  by_cases hk : r.kind = .start
  · have hcolumns := fault_ofHeaders_ne_closed r.columns
    rw [if_pos hk]
    unfold start
    cases hs : Schema.ofHeaders r.columns with
    | ok s => exact nofun
    | error e => rwa [hs] at hcolumns
  · rw [if_neg hk]
    exact unexpected_ne_closed c.phase r

theorem fault_concluded_ne_closed (c : StreamingCursor) (r : StreamRecord) : fault (c.concluded r).1 ≠ some .closed := by
  unfold concluded
  split_ifs
  · exact nofun
  · exact unexpected_ne_closed c.phase r

theorem Consistent.fault_readRecord (hc : Consistent c) (h : c.closed = false) :
    fault c.readRecord.1 ≠ some .closed := by
  have hread := hc.readRecord_ne_closed h
  cases ha : c.readRecord.1 with
  | ok r? => exact nofun
  | error e => exact fun he => hread (ha.trans (congrArg Except.error (Option.some.inj he)))

theorem Consistent.fault_ensureStarted (hc : Consistent c) (h : c.closed = false) :
    fault c.ensureStarted.1 ≠ some .closed := by
  by_cases hp : c.phase = .awaitingStart
  · have hread := hc.fault_readRecord h
    rcases hr : c.readRecord with ⟨_ | _ | r, d⟩
    · rw [hr] at hread
      rwa [ensureStarted_failure h hp hr]
    · rw [ensureStarted_unfinished h hp hr]
      exact nofun
    · rw [ensureStarted_record h hp hr]
      exact fault_announced_ne_closed d r
  · rw [ensureStarted_started h hp]
    exact nofun

/-- By induction on the records that are read: each was asked for while the cursor was open. -/
theorem Consistent.fault_nextWithin (hc : Consistent c) (h : c.closed = false) (fuel : Nat) :
    fault (nextWithin fuel c).1 ≠ some .closed := by
  induction fuel generalizing c with
  | zero => rintro ⟨⟩
  | succ fuel ih =>
    cases hb : c.block with
    | cons cells left =>
      obtain ⟨s, -, hrow⟩ := hc.nextWithin_row hb
      have hdecode := fault_decode_ne_closed s cells
      rw [hrow]
      cases hd : Row.decode s cells with
      | ok vs => rintro ⟨⟩
      | error e => rwa [hd] at hdecode
    | nil =>
      by_cases hp : c.phase = .reading
      · have hread := hc.fault_readRecord h
        rcases hr : c.readRecord with ⟨_ | _ | r, d⟩
        · rw [hr] at hread
          rwa [nextWithin_failure hb hp hr]
        · rw [nextWithin_unfinished hb hp hr]
          rintro ⟨⟩
        · by_cases hk : r.kind = .data
          · rw [nextWithin_data hb hp hr hk]
            exact ih (hc.data hp hr) ((sameSet_of_read hr).closed.trans h)
          · rw [nextWithin_other hb hp hr hk]
            exact fault_concluded_ne_closed d r
      · rw [nextWithin_idle hb hp]
        rintro ⟨⟩

theorem Consistent.fault_columns (hc : Consistent c) (h : c.closed = false) : fault c.columns.1 ≠ some .closed := by
  have hstart := hc.fault_ensureStarted h
  unfold columns
  match hs : c.ensureStarted with
  | (.error e, d) => rwa [hs] at hstart
  | (.ok (), d) =>
    dsimp only
    cases d.schema <;> exact nofun

theorem Consistent.fault_next (hc : Consistent c) (h : c.closed = false) : fault c.next.1 ≠ some .closed := by
  have hstart := hc.fault_ensureStarted h
  have hconsistent := hc.ensureStarted
  have hclosed := (sameSet_ensureStarted c).closed.trans h
  unfold StreamingCursor.next
  rw [if_neg (ne_true_of_eq_false h)]
  match hs : c.ensureStarted with
  | (.error e, d) => rwa [hs] at hstart
  | (.ok (), d) =>
    rw [hs] at hconsistent hclosed
    exact hconsistent.fault_nextWithin hclosed _

theorem Consistent.fault_fetch (hc : Consistent c) (h : c.closed = false) (fuel : Nat) (seen : List Row) :
    fault (Cursor.fetch fuel seen c).1 ≠ some .closed := by
  induction fuel generalizing c seen with
  | zero => exact nofun
  | succ fuel ih =>
    have hnext : fault (Cursor.next c).1 ≠ some .closed := hc.fault_next h
    rw [Cursor.fetch_succ]
    match hn : (Cursor.next c).1 with
    | .error e => rwa [hn] at hnext
    | .ok none => exact nofun
    | .ok (some row) => exact ih (consistent_invariant.next hc) ((sameSet_next c).closed.trans h) (row :: seen)

theorem Consistent.fault_nextInto (hc : Consistent c) (h : c.closed = false) (dest : List Value) :
    fault (Cursor.nextInto c dest).1.1 ≠ some .closed := by
  have hnext : fault (Cursor.next c).1 ≠ some .closed := hc.fault_next h
  rw [Cursor.nextInto_eq]
  match hn : (Cursor.next c).1 with
  | .error e => rwa [hn] at hnext
  | .ok none => exact nofun
  | .ok (some row) => exact nofun

theorem fault_nextResultSet (h : c.closed = false) : fault c.nextResultSet.1 ≠ some .closed := by
  cases hr : c.remaining with
  | nil =>
    rw [nextResultSet_last h hr]
    exact nofun
  | cons s rest =>
    have hstart : fault (c.entered s rest).ensureStarted.1 ≠ some .closed :=
      (Consistent.entered h).fault_ensureStarted h
    rw [nextResultSet_more h hr]
    cases hanswer : (c.entered s rest).ensureStarted.1 with
    | ok _ => exact nofun
    | error e => rwa [hanswer] at hstart

/-- That it is closed is what a closed cursor answers to who asks for its columns, and nobody else is told so. -/
theorem Consistent.fault_perform_iff (hc : Consistent c) (op : Operation) :
    (perform c op).1.fault = some .closed ↔ c.closed = true ∧ op = .columns := by
  cases h : c.closed with
  | false =>
    refine iff_of_false ?_ nofun
    cases op with
    | columns => exact hc.fault_columns h
    | next => exact hc.fault_next h
    | nextInto dest => exact hc.fault_nextInto h dest
    | fetchAll => exact hc.fault_fetch h _ []
    | nextResultSet => exact fault_nextResultSet h
    | close => exact nofun
  | true =>
    have hfrozen : Cursor.Frozen c := Cursor.Lawful.frozen h
    -- All others answer as if there were nothing more.
    cases op with
    | columns =>
      refine iff_of_true ?_ ⟨rfl, rfl⟩
      show fault (Cursor.columns c).1 = some .closed
      rw [hfrozen.columns]
      rfl
    | next =>
      refine iff_of_false ?_ nofun
      show fault (Cursor.next c).1 ≠ some .closed
      rw [hfrozen.next]
      exact nofun
    | nextInto dest =>
      refine iff_of_false ?_ nofun
      show fault (Cursor.nextInto c dest).1.1 ≠ some .closed
      rw [Cursor.nextInto_eq, hfrozen.next]
      exact nofun
    | fetchAll =>
      refine iff_of_false ?_ nofun
      show fault (Cursor.fetch (Cursor.rowBound c + 1) [] c).1 ≠ some .closed
      rw [Cursor.fetch_succ, hfrozen.next]
      exact nofun
    | nextResultSet =>
      refine iff_of_false ?_ nofun
      show fault (Cursor.nextResultSet c).1 ≠ some .closed
      rw [hfrozen.nextResultSet]
      exact nofun
    | close => exact iff_of_false nofun nofun

theorem Consistent.guarded (hc : Consistent c) : Guarded c where
  consistent := hc
  visited _ hd := hc.visits hd
  reads _ hd hopen := (hc.visits hd).1.readRecord_ne_closed hopen
  takes _ hd _ _ hb := (hc.visits hd).1.nextWithin_row hb
  answers := hc.fault_perform_iff

/-- Whatever is done with a cursor over bodies, its state is consistent, and no operation comes to a place where it has
no body to read or no columns for a row. -/
theorem consistency (bodies : List Body) (params : StreamParams) (ops : List Operation) :
    Guarded (run (ofBodies bodies params) ops) :=
  (consistent_invariant.run (consistent_ofBodies bodies params) ops).guarded

/-- A row is left in the block behind the first one, and the cursor is closed then. -/
theorem consistency_sample :
    (run (ofBodies [sampleBody]) [.next]).block.length = 1 ∧
      (run (ofBodies [sampleBody]) [.next]).phase = .reading ∧
      (run (ofBodies [sampleBody]) [.next]).statistics = none ∧
      (perform (run (ofBodies [sampleBody]) [.next, .close]) .columns).1.fault = some .closed ∧
      (run (ofBodies [sampleBody]) [.next, .close]).current = none := by
  have hlength : (run (ofBodies [sampleBody]) [.next]).block.length = 1 := by decide +kernel
  have hclosed : (run (ofBodies [sampleBody]) [.next, .close]).closed = true := by decide +kernel
  have hreading := (consistency [sampleBody] {} [.next]).consistent
  have hafter := consistency [sampleBody] {} [.next, .close]
  have hphase := (hreading.block (List.ne_nil_of_length_eq_add_one hlength)).1
  refine ⟨hlength, hphase, ?_, (hafter.answers .columns).mpr ⟨hclosed, rfl⟩, hafter.consistent.current.mp hclosed⟩
  refine Option.eq_none_iff_forall_ne_some.mpr fun statistics h => ?_
  have hexhausted := hreading.statistics statistics h
  rw [hphase] at hexhausted
  cases hexhausted

end StreamingCursor

end Rowset
