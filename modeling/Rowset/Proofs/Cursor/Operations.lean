import Rowset.Cursor.Buffered
import Rowset.Proofs.Cursor.Behaviour
import Rowset.Proofs.Cursor.ResultSet

/-!
# What the operations of the two cursors do

Equations for a cursor that is open, closed, or at its last result set, and the ways in which a step can go
(`Pulls`, `Opens`).  What follows from them for all runs:

* what every step of a streaming cursor keeps is kept by its operations (`invariant_of_steps`);
* the result sets of a cursor come from its documents or bodies, one after the other (`Holds`, `Queued`);
* a cursor can give only so many rows: documents hold their rows; a streamed row is in the block or in a record
  that is unread, a record weighs more than its rows, and what is unread weighs no more than the bytes left.
-/

namespace Rowset

namespace BufferedCursor

variable {b : BufferedCursor} {row : Row} {d : ResultDocument} {ds : List ResultDocument} {s : Schema}

theorem close_closed (h : b.closed = true) : b.close = b := by
  unfold close
  rw [if_pos h]

theorem close_open (h : b.closed = false) :
    b.close = { b with closed := true, pending := [], documents := [], schema := {} } := by
  unfold close
  rw [if_neg (ne_true_of_eq_false h)]

theorem nextResultSet_last (h : b.hasNextResultSet = false) : b.nextResultSet = (.ok false, b.close) := by
  unfold nextResultSet
  rw [if_neg (ne_true_of_eq_false h)]

theorem nextResultSet_more (h : b.hasNextResultSet = true) (hd : b.documents[b.index + 1]? = some d) :
    b.nextResultSet =
      match Schema.ofHeaders d.columns with
      | .ok s => (.ok true, { b with index := b.index + 1, pending := d.rows, schema := s })
      | .error e => (.error e, { b with index := b.index + 1, pending := [], schema := {} }) := by
  unfold nextResultSet enter
  rw [if_pos h]
  dsimp only
  rw [hd, Option.getD_some]
  cases Schema.ofHeaders d.columns <;> rfl

theorem nextResultSet_ok (h : b.hasNextResultSet = true) (hd : b.documents[b.index + 1]? = some d)
    (hs : Schema.ofHeaders d.columns = .ok s) :
    b.nextResultSet = (.ok true, { b with index := b.index + 1, pending := d.rows, schema := s }) := by
  rw [nextResultSet_more h hd, hs]

/-- A result set that follows has a document. -/
theorem document_of_hasNextResultSet (h : b.hasNextResultSet = true) :
    b.closed = false ∧ ∃ d, b.documents[b.index + 1]? = some d := by
  unfold hasNextResultSet at h
  obtain ⟨hopen, hlt⟩ := Bool.and_eq_true_iff.mp h
  exact ⟨by simpa using hopen, _, List.getElem?_eq_getElem (by simpa using hlt)⟩

/-- A cursor over documents starts at the first one, with all of its rows. -/
theorem ofDocuments_ok (h : ofDocuments ds = .ok b) :
    ∃ first rest s, (if ds.isEmpty then [{}] else ds) = first :: rest ∧ Schema.ofHeaders first.columns = .ok s ∧
      b = { documents := first :: rest, pending := first.rows, schema := s } := by
  obtain ⟨first, rest, hdocuments⟩ : ∃ first rest, (if ds.isEmpty then [{}] else ds) = first :: rest := by
    cases ds with
    | nil => exact ⟨{}, [], rfl⟩
    | cons first rest => exact ⟨first, rest, rfl⟩
  refine ⟨first, rest, ?_⟩
  unfold ofDocuments at h
  rw [hdocuments] at h
  cases hfind : ds.find? (!·.errors.isEmpty) with
  | some d =>
    rw [hfind] at h
    cases h
  | none =>
    rw [hfind] at h
    unfold enter at h
    dsimp only [List.getElem?_cons_zero, Option.getD_some] at h
    cases hs : Schema.ofHeaders first.columns with
    | error e =>
      rw [hs] at h
      cases h
    | ok s =>
      rw [hs] at h
      cases h
      exact ⟨s, hdocuments, rfl, rfl⟩

theorem next_closed (h : b.closed = true) : b.next = (.ok none, b) := by
  unfold next
  rw [if_pos h]

/-- An open cursor takes the first of the rows that are pending. -/
theorem next_open (h : b.closed = false) :
    b.next = (Remainder.answer ⟨b.schema, b.pending, none, []⟩,
      { b with
        pending := b.pending.tail
        rowCount := b.rowCount +
          StreamingCursor.delivered (Remainder.answer ⟨b.schema, b.pending, none, []⟩) }) := by
  unfold next
  rw [if_neg (ne_true_of_eq_false h)]
  obtain ⟨ds, i, pending, schema, n, closed⟩ := b
  cases pending with
  | nil => rfl
  | cons cells rest =>
    unfold Remainder.answer Remainder.rowAnswer
    dsimp only
    cases Row.decode schema cells <;> rfl

/-- A row that is delivered was the first of those pending. -/
theorem next_row (h : b.next.1 = .ok (some row)) : ∃ cells, b.pending = cells :: b.next.2.pending := by
  cases hb : b.closed with
  | true =>
    rw [next_closed hb] at h
    cases h
  | false =>
    rw [next_open hb] at h ⊢
    cases hp : b.pending with
    | nil =>
      rw [hp] at h
      cases h
    | cons cells rest => exact ⟨cells, rfl⟩

instance : Cursor.Bounded BufferedCursor where
  ahead b := b.pending.length
  ahead_next := by
    intro b row h
    obtain ⟨cells, hp⟩ := next_row h
    show b.next.2.pending.length < b.pending.length
    rw [hp]
    exact Nat.lt_succ_self b.next.2.pending.length
  ahead_le b := Nat.le_refl b.pending.length

/-! ## Where the result sets come from -/

/-- The documents stay as they are until the cursor is closed. -/
def Holds (ds : List ResultDocument) (b : BufferedCursor) : Prop :=
  b.closed = false → b.documents = ds

theorem holds_invariant (ds : List ResultDocument) : Cursor.Invariant (Holds ds) := by
  have hclose : ∀ {b}, Holds ds b → Holds ds b.close := by
    intro b h
    cases hb : b.closed with
    | true =>
      rw [close_closed hb]
      exact h
    | false =>
      rw [close_open hb]
      exact nofun
  refine ⟨fun {b} h => ?_, fun {b} h => ?_, fun {b} h => ?_, hclose⟩
  · show Holds ds b.columns.2
    unfold columns
    split <;> exact h
  · show Holds ds b.next.2
    cases hb : b.closed with
    | true =>
      rw [next_closed hb]
      exact h
    | false =>
      rw [next_open hb]
      exact h
  · show Holds ds b.nextResultSet.2
    cases hmore : b.hasNextResultSet with
    | false =>
      rw [nextResultSet_last hmore]
      exact hclose h
    | true =>
      obtain ⟨-, d, hd⟩ := document_of_hasNextResultSet hmore
      rw [nextResultSet_more hmore hd]
      cases Schema.ofHeaders d.columns <;> exact h

theorem holds_ofDocuments (h : ofDocuments ds = .ok b) (hds : ds ≠ []) : Holds ds b := by
  obtain ⟨first, rest, s, hdocuments, -, rfl⟩ := ofDocuments_ok h
  rw [if_neg (by simpa using hds)] at hdocuments
  exact fun _ => hdocuments.symm

end BufferedCursor

namespace StreamingCursor

variable {c c' : StreamingCursor} {r : StreamRecord} {row : Row} {s : Segment} {segments rest : List Segment}
  {params : StreamParams}

/-! ## Going on to a result set -/

/-- The cursor at the result set that follows. -/
def entered (c : StreamingCursor) (s : Segment) (rest : List Segment) : StreamingCursor :=
  { c.leave with current := some s, remaining := rest, phase := .awaitingStart, index := c.index + 1 }

theorem next_closed (h : c.closed = true) : c.next = (.ok none, c) := by
  unfold next
  rw [if_pos h]

theorem ensureStarted_closed (h : c.closed = true) : c.ensureStarted = (.error .closed, c) := by
  unfold ensureStarted
  rw [if_pos h]

theorem close_closed (h : c.closed = true) : c.close = c := by
  unfold close
  rw [if_pos h]

theorem close_open (h : c.closed = false) :
    c.close = { c.release with phase := .exhausted, closed := true } := by
  unfold close
  rw [if_neg (ne_true_of_eq_false h)]

theorem nextResultSet_closed (h : c.closed = true) : c.nextResultSet = (.ok false, c) := by
  unfold nextResultSet
  rw [if_pos h]

theorem nextResultSet_last (h : c.closed = false) (hr : c.remaining = []) :
    c.nextResultSet = (.ok false, { c.leave with phase := .exhausted, closed := true }) := by
  have hr' : c.leave.remaining = [] := hr
  unfold nextResultSet
  rw [if_neg (ne_true_of_eq_false h)]
  dsimp only
  rw [hr']

/-- Without a result set that follows, a cursor that leaves its result set has nothing left. -/
theorem close_last (hc : c.closed = false) (hr : c.remaining = []) :
    c.close = { c.leave with phase := .exhausted, closed := true } := by
  have hreleased : c.release = c.leave := by
    unfold release
    show { c.leave with remaining := [], released := c.leave.released ++ c.remaining.map (·.position) } = c.leave
    rw [hr, List.map_nil, List.append_nil]
    show { c.leave with remaining := [] } = c.leave
    rw [← show c.leave.remaining = [] from hr]
  rw [close_open hc, hreleased]

theorem nextResultSet_more (h : c.closed = false) (hr : c.remaining = s :: rest) :
    c.nextResultSet =
      ((c.entered s rest).ensureStarted.1.map fun _ => true, (c.entered s rest).ensureStarted.2) := by
  have hr' : c.leave.remaining = s :: rest := hr
  rcases hstart : (c.entered s rest).ensureStarted with ⟨answer, d⟩
  have hstart' : ensureStarted { c.leave with
      current := some s, remaining := rest, phase := .awaitingStart, index := c.leave.index + 1 } = (answer, d) :=
    hstart
  unfold nextResultSet
  rw [if_neg (ne_true_of_eq_false h)]
  dsimp only
  rw [hr']
  dsimp only
  rw [hstart']
  cases answer <;> rfl

/-! ## What a step can do -/

/-- What reading a record does: it takes the record off what is unread and touches nothing but the body. -/
theorem readRecord_record (h : c.readRecord.1 = .ok (some r)) :
    ∃ s, c.current = some s ∧ c.readRecord.2 = c.advanced s ∧
      c.unread = ⟨r :: (c.advanced s).unread.records, (c.advanced s).unread.stop⟩ := by
  match hs : c.current with
  | none =>
    unfold readRecord at h
    rw [hs] at h
    cases h
  | some s =>
    rw [readRecord_eq hs] at h ⊢
    have hhead : c.unread.head = .ok (some r) := h
    match hu : c.unread with
    | ⟨[], none⟩ => rw [hu] at hhead; cases hhead
    | ⟨[], some e⟩ => rw [hu] at hhead; cases hhead
    | ⟨r' :: rs, stop⟩ =>
      rw [hu] at hhead
      cases hhead
      exact ⟨s, rfl, rfl, by rw [unread_advanced_cons hs hu]⟩

theorem unread_of_read {d : StreamingCursor} (h : c.readRecord = (.ok (some r), d)) :
    c.unread = ⟨r :: d.unread.records, d.unread.stop⟩ := by
  obtain ⟨s, -, hafter, hunread⟩ := readRecord_record (congrArg Prod.fst h)
  obtain rfl : d = c.advanced s := by rw [← hafter, h]
  exact hunread

section

variable {e : Error} {d : StreamingCursor} {fuel : Nat}

/-- The first record is looked at once. -/
theorem ensureStarted_started (hc : c.closed = false) (hp : c.phase ≠ .awaitingStart) :
    c.ensureStarted = (.ok (), c) := by
  unfold ensureStarted
  rw [if_neg (ne_true_of_eq_false hc), if_pos hp]

theorem ensureStarted_failure (hc : c.closed = false) (hp : c.phase = .awaitingStart)
    (hr : c.readRecord = (.error e, d)) : c.ensureStarted = (.error e, d.exhaust) := by
  unfold ensureStarted
  rw [if_neg (ne_true_of_eq_false hc), if_neg (not_not_intro hp), hr]

/-- The body ends where its first record has to follow. -/
theorem ensureStarted_unfinished (hc : c.closed = false) (hp : c.phase = .awaitingStart)
    (hr : c.readRecord = (.ok none, d)) :
    c.ensureStarted = (.error (.framing .endedBeforeStart), d.exhaust) := by
  unfold ensureStarted
  rw [if_neg (ne_true_of_eq_false hc), if_neg (not_not_intro hp), hr]

/-- What comes of the first record: what it announces is taken over, or it is an error. -/
def announced (c : StreamingCursor) (r : StreamRecord) : Except Error Unit × StreamingCursor :=
  if r.kind = .start then c.start r else (.error (unexpected c.phase r), c.exhaust)

theorem ensureStarted_record (hc : c.closed = false) (hp : c.phase = .awaitingStart)
    (hr : c.readRecord = (.ok (some r), d)) : c.ensureStarted = d.announced r := by
  unfold ensureStarted
  rw [if_neg (ne_true_of_eq_false hc), if_neg (not_not_intro hp), hr]
  rfl

/-- Unless a body is being read, there are no rows. -/
theorem nextWithin_idle (hb : c.block = []) (hp : c.phase ≠ .reading) : nextWithin (fuel + 1) c = (.ok none, c) := by
  rw [nextWithin, hb]
  exact if_pos hp

/-- A record that cannot be read ends the result set with its error. -/
theorem nextWithin_failure (hb : c.block = []) (hp : c.phase = .reading) (hr : c.readRecord = (.error e, d)) :
    nextWithin (fuel + 1) c = (.error e, d.exhaust) := by
  rw [nextWithin, hb]
  dsimp only
  rw [if_neg (not_not_intro hp), hr]

/-- The body ends where a record has to follow. -/
theorem nextWithin_unfinished (hb : c.block = []) (hp : c.phase = .reading) (hr : c.readRecord = (.ok none, d)) :
    nextWithin (fuel + 1) c = (.error (.framing .endedBeforeFinish), d.exhaust) := by
  rw [nextWithin, hb]
  dsimp only
  rw [if_neg (not_not_intro hp), hr]

/-- A record with rows puts them into the block, and looking for a row begins again. -/
theorem nextWithin_data (hb : c.block = []) (hp : c.phase = .reading) (hr : c.readRecord = (.ok (some r), d))
    (hk : r.kind = .data) : nextWithin (fuel + 1) c = nextWithin fuel { d with block := r.rows } := by
  rw [nextWithin, hb]
  dsimp only
  rw [if_neg (not_not_intro hp), hr]
  dsimp only
  rw [hk]

/-- What comes of a record that brings no rows: the end of the result set, or an error. -/
def concluded (c : StreamingCursor) (r : StreamRecord) : Except Error (Option Row) × StreamingCursor :=
  if r.kind = .finishedWithSuccess then (.ok none, { c.exhaust with statistics := r.statistics })
  else (.error (unexpected c.phase r), c.exhaust)

/-- Any other record ends the result set, well or with an error. -/
theorem nextWithin_other (hb : c.block = []) (hp : c.phase = .reading) (hr : c.readRecord = (.ok (some r), d))
    (hk : r.kind ≠ .data) : nextWithin (fuel + 1) c = d.concluded r := by
  rw [nextWithin, hb]
  dsimp only
  rw [if_neg (not_not_intro hp), hr]
  unfold concluded
  cases hkind : r.kind with
  | data => exact absurd hkind hk
  | finishedWithSuccess => simp only [hkind, if_true]
  | _ => simp only [hkind, reduceCtorEq, if_false]

end

/-- The ways to look at the first record. -/
inductive Opens (c : StreamingCursor) : Except Error Unit × StreamingCursor → Prop
  | closed (closed : c.closed = true) : Opens c (.error .closed, c)
  | before (opened : c.closed = false) (phase : c.phase ≠ .awaitingStart) : Opens c (.ok (), c)
  | failed {answer : Except Error (Option StreamRecord)} {d : StreamingCursor} {e : Error}
      (opened : c.closed = false) (phase : c.phase = .awaitingStart) (read : c.readRecord = (answer, d)) :
      Opens c (.error e, d.exhaust)
  | started {r : StreamRecord} {d : StreamingCursor} {schema : Schema} (opened : c.closed = false)
      (phase : c.phase = .awaitingStart) (read : c.readRecord = (.ok (some r), d)) (kind : r.kind = .start)
      (columns : Schema.ofHeaders r.columns = .ok schema) :
      Opens c (.ok (), { d with
        schema := some schema, queryId := r.queryId, queryLabel := r.queryLabel, phase := .reading })

/-- There are no more ways to look at the first record than those of `Opens`. -/
theorem opens_ensureStarted (c : StreamingCursor) : Opens c c.ensureStarted := by
  cases hc : c.closed with
  | true =>
    rw [ensureStarted_closed hc]
    exact .closed hc
  | false =>
    by_cases hp : c.phase = .awaitingStart
    · rcases hr : c.readRecord with ⟨_ | _ | r, d⟩
      · rw [ensureStarted_failure hc hp hr]
        exact .failed hc hp hr
      · rw [ensureStarted_unfinished hc hp hr]
        exact .failed hc hp hr
      · rw [ensureStarted_record hc hp hr]
        unfold announced
        by_cases hk : r.kind = .start
        · rw [if_pos hk]
          unfold start
          cases hs : Schema.ofHeaders r.columns with
          | error e => exact .failed hc hp hr
          | ok schema => exact .started hc hp hr hk hs
        · rw [if_neg hk]
          exact .failed hc hp hr
    · rw [ensureStarted_started hc hp]
      exact .before hc hp

/-- The ways to look for the next row: it is at the front of the block, or records are read until it is. -/
inductive Pulls : StreamingCursor → Except Error (Option Row) × StreamingCursor → Prop
  | spent {c : StreamingCursor} : Pulls c (.ok none, c)
  | row {c : StreamingCursor} {cells : List Json} {left : List (List Json)} {schema : Schema} {vs : List Value}
      (block : c.block = cells :: left) (columns : c.schema = some schema)
      (decoded : Row.decode schema cells = .ok vs) :
      Pulls c (.ok (some ⟨vs, schema⟩), { c with block := left, rowCount := c.rowCount + 1 })
  | badRow {c : StreamingCursor} {cells : List Json} {left : List (List Json)} {e : Error}
      (block : c.block = cells :: left) : Pulls c (.error e, { c with block := left })
  | idle {c : StreamingCursor} (block : c.block = []) (phase : c.phase ≠ .reading) : Pulls c (.ok none, c)
  | failed {c d : StreamingCursor} {answer : Except Error (Option StreamRecord)} {e : Error}
      (block : c.block = []) (phase : c.phase = .reading) (read : c.readRecord = (answer, d)) :
      Pulls c (.error e, d.exhaust)
  | finished {c d : StreamingCursor} {r : StreamRecord} (block : c.block = []) (phase : c.phase = .reading)
      (read : c.readRecord = (.ok (some r), d)) (kind : r.kind = .finishedWithSuccess) :
      Pulls c (.ok none, { d.exhaust with statistics := r.statistics })
  | data {c d : StreamingCursor} {r : StreamRecord} {result : Except Error (Option Row) × StreamingCursor}
      (block : c.block = []) (phase : c.phase = .reading) (read : c.readRecord = (.ok (some r), d))
      (kind : r.kind = .data) (pulls : Pulls { d with block := r.rows } result) : Pulls c result

/-- A row of the block is taken off it, whether it can be decoded or not. -/
theorem pulls_row {cells : List Json} {left : List (List Json)} (hb : c.block = cells :: left) (fuel : Nat) :
    Pulls c (nextWithin (fuel + 1) c) := by
  rw [nextWithin, hb]
  dsimp only
  cases hs : c.schema with
  | none =>
    have hbad : Pulls c (.error (.framing .dataBeforeStart), { c with block := left }) := .badRow hb
    rwa [hs] at hbad
  | some schema =>
    dsimp only
    cases hd : Row.decode schema cells with
    | error e =>
      have hbad : Pulls c (.error e, { c with block := left }) := .badRow hb
      rwa [hs] at hbad
    | ok vs =>
      have hrow := Pulls.row hb hs hd
      rwa [hs] at hrow

/-- There are no more ways to look for a row than those of `Pulls`, by induction on the records that are read. -/
theorem pulls_nextWithin (fuel : Nat) (c : StreamingCursor) : Pulls c (nextWithin fuel c) := by
  induction fuel generalizing c with
  | zero => exact .spent
  | succ fuel ih =>
    cases hb : c.block with
    | cons cells left => exact pulls_row hb fuel
    | nil =>
      by_cases hp : c.phase = .reading
      · rcases hr : c.readRecord with ⟨e | _ | r, d⟩
        · exact nextWithin_failure hb hp hr ▸ .failed hb hp hr
        · exact nextWithin_unfinished hb hp hr ▸ .failed hb hp hr
        · by_cases hk : r.kind = .data
          · exact nextWithin_data hb hp hr hk ▸ .data hb hp hr hk (ih _)
          · rw [nextWithin_other hb hp hr hk, concluded]
            split
            · next hfinished => exact .finished hb hp hr hfinished
            · exact .failed hb hp hr
      · exact nextWithin_idle hb hp ▸ .idle hb hp

/-- A call of `next` answers nothing, fails, or looks for a row behind the first record. -/
theorem next_cases (c : StreamingCursor) :
    (c.closed = true ∧ c.next = (.ok none, c)) ∨
      (∃ e, c.ensureStarted.1 = .error e ∧ c.next = (.error e, c.ensureStarted.2)) ∨
      c.ensureStarted.1 = .ok () ∧ Pulls c.ensureStarted.2 c.next := by
  cases hc : c.closed with
  | true => exact .inl ⟨rfl, next_closed hc⟩
  | false =>
    right
    unfold next
    rw [if_neg (ne_true_of_eq_false hc)]
    match c.ensureStarted with
    | (.error e, d) => exact .inl ⟨e, rfl, rfl⟩
    | (.ok (), d) => exact .inr ⟨rfl, pulls_nextWithin _ d⟩

theorem columns_snd (c : StreamingCursor) : c.columns.2 = c.ensureStarted.2 := by
  unfold columns
  match c.ensureStarted with
  | (.error e, d) => rfl
  | (.ok (), d) =>
    dsimp only
    cases d.schema <;> rfl

theorem columns_started {schema : Schema} (h : c.ensureStarted.1 = .ok ())
    (hs : c.ensureStarted.2.schema = some schema) : c.columns.1 = .ok schema := by
  unfold columns
  rw [show c.ensureStarted = (.ok (), c.ensureStarted.2) from Prod.ext h rfl]
  dsimp only
  rw [hs]

/-! ## What stays as it is within a result set -/

theorem sameSet_readRecord (c : StreamingCursor) : SameSet c c.readRecord.2 := by
  match hs : c.current with
  | none =>
    have hread : c.readRecord = (.error .closed, c) := by unfold readRecord; rw [hs]
    rw [hread]
    exact .refl c
  | some s =>
    rw [readRecord_eq hs]
    exact sameSet_advanced hs

theorem sameSet_of_read {d : StreamingCursor} {answer : Except Error (Option StreamRecord)}
    (h : c.readRecord = (answer, d)) : SameSet c d := by
  have hread := sameSet_readRecord c
  rwa [h] at hread

theorem Opens.sameSet {result : Except Error Unit × StreamingCursor} (h : Opens c result) :
    SameSet c result.2 := by
  cases h with
  | closed _ => exact .refl c
  | before _ _ => exact .refl c
  | failed _ _ read => exact { sameSet_of_read read with }
  | started _ _ read _ _ => exact { sameSet_of_read read with }

theorem Pulls.sameSet {result : Except Error (Option Row) × StreamingCursor} (h : Pulls c result) :
    SameSet c result.2 := by
  induction h with
  | spent => exact .refl _
  | @row c _ _ _ _ _ _ _ => exact { SameSet.refl c with }
  | @badRow c _ _ _ _ => exact { SameSet.refl c with }
  | idle _ _ => exact .refl _
  | failed _ _ read => exact { sameSet_of_read read with }
  | finished _ _ read _ => exact { sameSet_of_read read with }
  | @data c d r _ _ _ read _ _ ih =>
    have hblock : SameSet c { d with block := r.rows } := { sameSet_of_read read with }
    exact hblock.trans ih

theorem sameSet_ensureStarted (c : StreamingCursor) : SameSet c c.ensureStarted.2 :=
  (opens_ensureStarted c).sameSet

/-- Asking for a row changes nothing but the place in the current result set. -/
theorem sameSet_next (c : StreamingCursor) : SameSet c c.next.2 := by
  have hstart := sameSet_ensureStarted c
  rcases next_cases c with ⟨-, hnext⟩ | ⟨e, -, hnext⟩ | ⟨-, hpulls⟩
  · rw [hnext]
    exact .refl c
  · rw [hnext]
    exact hstart
  · exact hstart.trans hpulls.sameSet

theorem sameSet_columns (c : StreamingCursor) : SameSet c c.columns.2 := by
  rw [columns_snd]
  exact sameSet_ensureStarted c

/-! ## Invariants -/

/-- What the steps of a cursor keep is kept by its operations: going on enters the result set that follows and looks at its
first record, and without one it is closing. -/
theorem invariant_of_steps {P : StreamingCursor → Prop} (started : ∀ {c}, P c → P c.ensureStarted.2)
    (next : ∀ {c}, P c → P c.next.2)
    (entered : ∀ {c s rest}, P c → c.closed = false → c.remaining = s :: rest → P (c.entered s rest))
    (closed : ∀ {c}, P c → c.closed = false → P { c.release with phase := .exhausted, closed := true }) :
    Cursor.Invariant P := by
  have hclose : ∀ {c}, P c → P c.close := by
    intro c h
    cases hc : c.closed with
    | true =>
      rw [close_closed hc]
      exact h
    | false =>
      rw [close_open hc]
      exact closed h hc
  refine ⟨fun {c} h => ?_, next, fun {c} h => ?_, hclose⟩
  · show P c.columns.2
    rw [columns_snd]
    exact started h
  · show P c.nextResultSet.2
    cases hc : c.closed with
    | true =>
      rw [nextResultSet_closed hc]
      exact h
    | false =>
      cases hr : c.remaining with
      | nil =>
        rw [nextResultSet_last hc hr, ← close_last hc hr]
        exact hclose h
      | cons s rest =>
        rw [nextResultSet_more hc hr]
        exact started (entered h hc hr)

/-! ## Where the result sets come from -/

/-- The bodies with their places. -/
def segmentsOf (bodies : List Body) : List Segment :=
  bodies.mapIdx fun i b => ⟨i, b⟩

theorem map_position_segmentsOf (bodies : List Body) :
    (segmentsOf bodies).map (·.position) = List.range bodies.length :=
  List.ext_getElem (by simp [segmentsOf]) fun i hi hi' => by simp [segmentsOf]

/-- The segments that follow the current one are waiting, unless the cursor is closed. -/
structure Queued (segments : List Segment) (params : StreamParams) (c : StreamingCursor) : Prop where
  params : c.params = params
  remaining : c.closed = false → c.remaining = segments.drop (c.index + 1)

theorem queued_ofBodies (bodies : List Body) (params : StreamParams) :
    Queued (segmentsOf bodies) params (ofBodies bodies params) :=
  ⟨rfl, fun _ => List.drop_one.symm⟩

theorem Queued.of_sameSet (h : Queued segments params c) (hsame : SameSet c c') : Queued segments params c' := by
  refine ⟨hsame.params.trans h.params, fun hc => ?_⟩
  rw [hsame.remaining, hsame.index]
  exact h.remaining (hsame.closed ▸ hc)

theorem Queued.entered (h : Queued segments params c) (hc : c.closed = false) (hr : c.remaining = s :: rest) :
    Queued segments params (c.entered s rest) := by
  refine ⟨h.params, fun _ => ?_⟩
  have hqueue := congrArg List.tail ((h.remaining hc).symm.trans hr)
  rw [List.tail_drop] at hqueue
  exact hqueue.symm

/-- The segment that comes next is the one behind the current one. -/
theorem Queued.getElem?_next (h : Queued segments params c) (hc : c.closed = false) (hr : c.remaining = s :: rest) :
    segments[c.index + 1]? = some s := by
  have hfirst := congrArg (·[0]?) ((h.remaining hc).symm.trans hr)
  simpa using hfirst

theorem queued_invariant (segments : List Segment) (params : StreamParams) :
    Cursor.Invariant (Queued segments params) :=
  invariant_of_steps (fun h => h.of_sameSet (sameSet_ensureStarted _)) (fun h => h.of_sameSet (sameSet_next _))
    Queued.entered fun h _ => ⟨h.params, nofun⟩

/-! ## Rows that are left -/

/-- The rows that a cursor has in its block, and the weight of what it has not read. -/
def load (c : StreamingCursor) : Nat :=
  c.block.length + c.unread.weight

/-- A record pays for its rows and for itself. -/
theorem load_of_read {d : StreamingCursor} (h : c.readRecord = (.ok (some r), d)) :
    d.load + r.rows.length + 1 = c.load := by
  obtain ⟨s, -, hafter, hunread⟩ := readRecord_record (congrArg Prod.fst h)
  obtain rfl : d = c.advanced s := by rw [← hafter, h]
  unfold load
  rw [hunread]
  show c.block.length + (c.advanced s).unread.weight + r.rows.length + 1 = c.block.length + _
  simp only [Transcript.weight, List.map_cons, List.sum_cons]
  omega

theorem Opens.load_le {d : StreamingCursor} (h : Opens c (.ok (), d)) : d.load ≤ c.load := by
  cases h with
  | before _ _ => exact Nat.le_refl c.load
  | @started r d schema _ _ read _ _ =>
    have hload := load_of_read read
    show d.load ≤ c.load
    omega

/-- Every row that is given takes something away from the load. -/
theorem Pulls.load_lt {result : Except Error (Option Row) × StreamingCursor} (h : Pulls c result)
    (hrow : result.1 = .ok (some row)) : result.2.load < c.load := by
  induction h with
  | @row c cells left _ _ block _ _ =>
    show left.length + c.unread.weight < c.load
    unfold load
    rw [block, List.length_cons]
    omega
  | @data c d r result block _ read _ _ ih =>
    have hload := load_of_read read
    have hblock : load { d with block := r.rows } ≤ d.load + r.rows.length := by
      show r.rows.length + d.unread.weight ≤ d.block.length + d.unread.weight + r.rows.length
      omega
    have hrest := ih hrow
    omega
  | spent => cases hrow
  | badRow _ => cases hrow
  | idle _ _ => cases hrow
  | failed _ _ _ => cases hrow
  | finished _ _ _ _ => cases hrow

theorem load_next (h : c.next.1 = .ok (some row)) : c.next.2.load < c.load := by
  have hopens := opens_ensureStarted c
  rcases next_cases c with ⟨-, hnext⟩ | ⟨e, -, hnext⟩ | ⟨hstart, hpulls⟩
  · rw [hnext] at h
    cases h
  · rw [hnext] at h
    cases h
  · rw [show c.ensureStarted = (.ok (), c.ensureStarted.2) from Prod.ext hstart rfl] at hopens
    exact Nat.lt_of_lt_of_le (hpulls.load_lt h) hopens.load_le

instance : Cursor.Bounded StreamingCursor where
  ahead := load
  ahead_next := load_next
  ahead_le c := Nat.add_le_add_left (weight_unread_le c) c.block.length

end StreamingCursor

end Rowset
