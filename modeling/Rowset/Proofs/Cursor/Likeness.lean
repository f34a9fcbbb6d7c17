import Mathlib.Data.List.Forall2
import Rowset.Proofs.Cursor.Operations

/-!
# Streaming cursors with the same future

What a streaming cursor does depends on the transcripts of its bodies and not on their bytes.  A result set that
is exhausted is not read any more, so that its body does not matter either, and nothing depends on the rows
delivered and the bodies given up so far.

`Alike` relates two cursors that may differ in just that, and `Alike.simulation` says that it is a simulation.
-/

namespace Rowset

/-- What a cursor adds up over its life: the rows that it delivered and the bodies that it gave up. -/
structure Tally where
  rows : Nat := 0
  released : List Nat := []

namespace Tally

def add (t more : Tally) : Tally :=
  ⟨t.rows + more.rows, t.released ++ more.released⟩

theorem add_assoc (t u v : Tally) : (t.add u).add v = t.add (u.add v) := by
  simp [add, Nat.add_assoc]

/-- Two tallies that grew by the same from `base` and `base'`. -/
def Abreast (base base' t t' : Tally) : Prop :=
  ∃ more : Tally, t = base.add more ∧ t' = base'.add more

theorem Abreast.refl (t t' : Tally) : Abreast t t' t t' :=
  ⟨{}, by simp [add], by simp [add]⟩

theorem Abreast.add {base base' t t' : Tally} (h : Abreast base base' t t') (more : Tally) :
    Abreast base base' (t.add more) (t'.add more) := by
  obtain ⟨sofar, rfl, rfl⟩ := h
  exact ⟨sofar.add more, add_assoc .., add_assoc ..⟩

/-- From the same start, tallies that grow alike are equal. -/
theorem Abreast.eq {base t t' : Tally} (h : Abreast base base t t') : t = t' := by
  obtain ⟨more, ht, ht'⟩ := h
  exact ht.trans ht'.symm

/-- The rows differ by what they differed by at first. -/
theorem Abreast.rows_add {base base' t t' : Tally} (h : Abreast base base' t t') :
    t.rows + base'.rows = t'.rows + base.rows := by
  obtain ⟨more, rfl, rfl⟩ := h
  simp only [Tally.add]
  omega

end Tally

/-- Two segments at the same place whose bodies have the same transcript. -/
structure Segment.Alike (limit : Nat) (s s' : Segment) : Prop where
  position : s'.position = s.position
  transcript : s'.body.transcript limit = s.body.transcript limit

theorem Segment.Alike.refl (limit : Nat) (s : Segment) : Segment.Alike limit s s := ⟨rfl, rfl⟩

namespace StreamingCursor

def tally (c : StreamingCursor) : Tally := ⟨c.rowCount, c.released⟩

/-- Two cursors with the same future.  Their tallies have grown by the same since they were `base` and
`base'`. -/
structure Alike (base base' : Tally) (c c' : StreamingCursor) : Prop where
  limit : c'.params.maxLineLength = c.params.maxLineLength
  position : c'.current.map (·.position) = c.current.map (·.position)
  unread : c.phase ≠ .exhausted → c'.unread = c.unread
  remaining : List.Forall₂ (Segment.Alike c.params.maxLineLength) c.remaining c'.remaining
  phase : c'.phase = c.phase
  schema : c'.schema = c.schema
  block : c'.block = c.block
  index : c'.index = c.index
  queryId : c'.queryId = c.queryId
  queryLabel : c'.queryLabel = c.queryLabel
  statistics : c'.statistics = c.statistics
  closed : c'.closed = c.closed
  tally : Tally.Abreast base base' c.tally c'.tally

/-- Reading a record of two cursors with the same future, of which `count` records are unread: both read the same
record and go on, or both have to be given up for the same reason. -/
inductive Reads (base base' : Tally) (count : Nat) :
    Except Error (Option StreamRecord) × StreamingCursor →
      Except Error (Option StreamRecord) × StreamingCursor → Prop
  | record {r : StreamRecord} {d d' : StreamingCursor} (alike : Alike base base' d d')
      (phase : d.phase ≠ .exhausted) (fewer : d.unread.records.length < count) :
      Reads base base' count (.ok (some r), d) (.ok (some r), d')
  | finish {d d' : StreamingCursor} (alike : Alike base base' d.exhaust d'.exhaust) :
      Reads base base' count (.ok none, d) (.ok none, d')
  | failure {e : Error} {d d' : StreamingCursor} (alike : Alike base base' d.exhaust d'.exhaust) :
      Reads base base' count (.error e, d) (.error e, d')

namespace Alike

variable {base base' : Tally} {c c' : StreamingCursor}

theorem exhaust (h : Alike base base' c c') : Alike base base' c.exhaust c'.exhaust :=
  { h with phase := rfl, unread := fun hp => absurd rfl hp }

/-! ## Reading records -/

theorem readRecord (h : Alike base base' c c') (hp : c.phase ≠ .exhausted) :
    Reads base base' c.unread.records.length c.readRecord c'.readRecord := by
  have hposition := h.position
  match hs : c.current, hs' : c'.current with
  | none, none =>
    have hread : c.readRecord = (.error .closed, c) := by unfold StreamingCursor.readRecord; rw [hs]
    have hread' : c'.readRecord = (.error .closed, c') := by unfold StreamingCursor.readRecord; rw [hs']
    rw [hread, hread']
    exact .failure h.exhaust
  | none, some s' => rw [hs, hs'] at hposition; cases hposition
  | some s, none => rw [hs, hs'] at hposition; cases hposition
  | some s, some s' =>
    have hunread := h.unread hp
    have hplace : (c'.advanced s').current.map (·.position) = (c.advanced s).current.map (·.position) := by
      rw [(sameSet_advanced hs).position, (sameSet_advanced hs').position, hposition]
    have hends : Alike base base' (c.advanced s).exhaust (c'.advanced s').exhaust :=
      { h with position := hplace, unread := fun hp => absurd rfl hp, phase := rfl }
    rw [readRecord_eq hs, readRecord_eq hs', hunread]
    match hu : c.unread with
    | ⟨[], none⟩ => exact .finish hends
    | ⟨[], some e⟩ => exact .failure hends
    | ⟨r :: rs, stop⟩ =>
      have hrest := unread_advanced_cons hs hu
      have hrest' := unread_advanced_cons hs' (hunread.trans hu)
      refine .record { h with position := hplace, unread := fun _ => hrest'.trans hrest.symm } hp ?_
      rw [hrest]
      exact Nat.lt_succ_self rs.length

/-- The first record means the same for both. -/
theorem announced (h : Alike base base' c c') (hp : c.phase ≠ .exhausted) (r : StreamRecord) :
    (c.announced r).1 = (c'.announced r).1 ∧ Alike base base' (c.announced r).2 (c'.announced r).2 := by
  unfold StreamingCursor.announced
  rw [h.phase]
  by_cases hk : r.kind = .start
  · rw [if_pos hk, if_pos hk]
    unfold start
    cases Schema.ofHeaders r.columns with
    | error e => exact ⟨rfl, h.exhaust⟩
    | ok s =>
      exact ⟨rfl, { h with schema := rfl, queryId := rfl, queryLabel := rfl, phase := rfl,
                           unread := fun _ => h.unread hp }⟩
  · rw [if_neg hk, if_neg hk]
    exact ⟨rfl, h.exhaust⟩

/-- Looking at the first record answers the same and leaves the cursors alike. -/
theorem ensureStarted (h : Alike base base' c c') :
    c.ensureStarted.1 = c'.ensureStarted.1 ∧ Alike base base' c.ensureStarted.2 c'.ensureStarted.2 := by
  cases hc : c.closed with
  | true =>
    rw [ensureStarted_closed hc, ensureStarted_closed (h.closed.trans hc)]
    exact ⟨rfl, h⟩
  | false =>
    have hc' := h.closed.trans hc
    by_cases hp : c.phase = .awaitingStart
    · have hp' := h.phase.trans hp
      have hreads := h.readRecord (by rw [hp]; decide)
      rcases hread : c.readRecord with ⟨answer, d⟩
      rcases hread' : c'.readRecord with ⟨answer', d'⟩
      rw [hread, hread'] at hreads
      cases hreads with
      | finish hends =>
        rw [ensureStarted_unfinished hc hp hread, ensureStarted_unfinished hc' hp' hread']
        exact ⟨rfl, hends⟩
      | failure hends =>
        rw [ensureStarted_failure hc hp hread, ensureStarted_failure hc' hp' hread']
        exact ⟨rfl, hends⟩
      | @record r d d' hd hphase _ =>
        rw [ensureStarted_record hc hp hread, ensureStarted_record hc' hp' hread']
        exact hd.announced hphase r
    · rw [ensureStarted_started hc hp, ensureStarted_started hc' (h.phase.symm ▸ hp)]
      exact ⟨rfl, h⟩

/-! ## Rows -/

/-- A row of the block is the same for both, and is counted by both. -/
theorem nextWithin_row {cells : List Json} {rest : List (List Json)} (h : Alike base base' c c')
    (hb : c.block = cells :: rest) (fuel fuel' : Nat) :
    (StreamingCursor.nextWithin (fuel + 1) c).1 = (StreamingCursor.nextWithin (fuel' + 1) c').1 ∧
      Alike base base' (StreamingCursor.nextWithin (fuel + 1) c).2 (StreamingCursor.nextWithin (fuel' + 1) c').2 := by
  unfold StreamingCursor.nextWithin
  rw [hb, h.block.trans hb]
  dsimp only
  cases hs : c.schema with
  | none =>
    rw [h.schema.trans hs]
    exact ⟨rfl, { h with block := rfl, schema := rfl }⟩
  | some s =>
    rw [h.schema.trans hs]
    dsimp only
    cases hd : Row.decode s cells with
    | error e => exact ⟨rfl, { h with block := rfl, schema := rfl }⟩
    | ok vs =>
      have htally : Tally.Abreast base base' (c.tally.add ⟨1, []⟩) (c'.tally.add ⟨1, []⟩) := h.tally.add _
      simp only [Tally.add, List.append_nil] at htally
      exact ⟨rfl, { h with block := rfl, schema := rfl, tally := htally }⟩

/-- A record that brings no rows means the same for both. -/
theorem concluded (h : Alike base base' c c') (r : StreamRecord) :
    (c.concluded r).1 = (c'.concluded r).1 ∧ Alike base base' (c.concluded r).2 (c'.concluded r).2 := by
  unfold StreamingCursor.concluded
  rw [h.phase]
  split_ifs
  · exact ⟨rfl, { h.exhaust with statistics := rfl }⟩
  · exact ⟨rfl, h.exhaust⟩

/-- Looking for the next row answers the same if there are enough rounds for the records that are unread. -/
theorem nextWithin (h : Alike base base' c c') {fuel fuel' : Nat} (hf : c.unread.records.length < fuel)
    (hf' : c'.unread.records.length < fuel') :
    (nextWithin fuel c).1 = (nextWithin fuel' c').1 ∧
      Alike base base' (nextWithin fuel c).2 (nextWithin fuel' c').2 := by
  -- Bodies with one transcript may differ in length, so that the two sides do not have the same number of rounds.
  induction fuel generalizing fuel' c c' with
  | zero => omega
  | succ fuel ih =>
    obtain ⟨fuel', rfl⟩ : ∃ n, fuel' = n + 1 := ⟨fuel' - 1, by omega⟩
    cases hb : c.block with
    | cons cells rest => exact h.nextWithin_row hb fuel fuel'
    | nil =>
      have hb' := h.block.trans hb
      by_cases hp : c.phase = .reading
      · have hp' := h.phase.trans hp
        have hunread := h.unread (by rw [hp]; decide)
        have hreads := h.readRecord (by rw [hp]; decide)
        rw [hunread] at hf'
        rcases hr : c.readRecord with ⟨answer, d⟩
        rcases hr' : c'.readRecord with ⟨answer', d'⟩
        rw [hr, hr'] at hreads
        cases hreads with
        | finish hends =>
          rw [nextWithin_unfinished hb hp hr, nextWithin_unfinished hb' hp' hr']
          exact ⟨rfl, hends⟩
        | failure hends =>
          rw [nextWithin_failure hb hp hr, nextWithin_failure hb' hp' hr']
          exact ⟨rfl, hends⟩
        | @record r d d' hd hphase hfewer =>
          by_cases hk : r.kind = .data
          · have hblock : Alike base base' { d with block := r.rows } { d' with block := r.rows } :=
              { hd with block := rfl }
            have hsame := hd.unread hphase
            have hleft : d'.unread.records.length < fuel' := by
              rw [hsame]
              omega
            rw [nextWithin_data hb hp hr hk, nextWithin_data hb' hp' hr' hk]
            exact ih hblock (Nat.lt_of_lt_of_le hfewer (Nat.le_of_lt_succ hf)) hleft
          · rw [nextWithin_other hb hp hr hk, nextWithin_other hb' hp' hr' hk]
            exact hd.concluded r
      · rw [nextWithin_idle hb hp, nextWithin_idle hb' (h.phase.symm ▸ hp)]
        exact ⟨rfl, h⟩

theorem next (h : Alike base base' c c') : c.next.1 = c'.next.1 ∧ Alike base base' c.next.2 c'.next.2 := by
  unfold StreamingCursor.next
  rw [h.closed]
  by_cases hc : c.closed = true
  · rw [if_pos hc, if_pos hc]
    exact ⟨rfl, h⟩
  · rw [if_neg hc, if_neg hc]
    obtain ⟨hanswer, hd⟩ := h.ensureStarted
    generalize c.ensureStarted = result at hanswer hd
    generalize c'.ensureStarted = result' at hanswer hd
    obtain ⟨answer, d⟩ := result
    obtain ⟨answer', d'⟩ := result'
    cases hanswer
    cases answer with
    | error e => exact ⟨rfl, hd⟩
    | ok u => exact hd.nextWithin (records_lt_bytesLeft d) (records_lt_bytesLeft d')

theorem columns (h : Alike base base' c c') :
    c.columns.1 = c'.columns.1 ∧ Alike base base' c.columns.2 c'.columns.2 := by
  unfold StreamingCursor.columns
  obtain ⟨hanswer, hd⟩ := h.ensureStarted
  generalize c.ensureStarted = result at hanswer hd
  generalize c'.ensureStarted = result' at hanswer hd
  obtain ⟨answer, d⟩ := result
  obtain ⟨answer', d'⟩ := result'
  cases hanswer
  cases answer with
  | error e => exact ⟨rfl, hd⟩
  | ok u =>
    dsimp only
    rw [hd.schema]
    cases d.schema <;> exact ⟨rfl, hd⟩

/-! ## Result sets -/

theorem leave_tally (h : Alike base base' c c') : Tally.Abreast base base' c.leave.tally c'.leave.tally := by
  have htally := h.tally.add ⟨0, (c.current.map (·.position)).toList⟩
  rwa [show c'.leave.tally = c'.tally.add ⟨0, (c.current.map (·.position)).toList⟩ by rw [← h.position]; rfl]

theorem release_tally (h : Alike base base' c c') :
    Tally.Abreast base base' c.release.tally c'.release.tally := by
  have hremaining : c'.remaining.map (·.position) = c.remaining.map (·.position) := by
    have hmap := List.forall₂_map_right_iff.mpr (List.forall₂_map_left_iff.mpr
      (h.remaining.imp fun s s' hs => hs.position.symm))
    exact (List.forall₂_eq_eq_eq ▸ hmap).symm
  have htally := h.leave_tally.add ⟨0, c.remaining.map (·.position)⟩
  rwa [show c'.release.tally = c'.leave.tally.add ⟨0, c.remaining.map (·.position)⟩ by rw [← hremaining]; rfl]

/-- Cursors that may differ in all that belongs to their current result sets are alike at the next one. -/
theorem entered {s s' : Segment} {rest rest' : List Segment}
    (hlimit : c'.params.maxLineLength = c.params.maxLineLength) (hindex : c'.index = c.index)
    (hclosed : c'.closed = c.closed) (hs : Segment.Alike c.params.maxLineLength s s')
    (hrest : List.Forall₂ (Segment.Alike c.params.maxLineLength) rest rest')
    (htally : Tally.Abreast base base' c.leave.tally c'.leave.tally) :
    Alike base base' (c.entered s rest) (c'.entered s' rest') where
  limit := hlimit
  position := congrArg some hs.position
  unread _ := by
    show s'.body.transcript c'.params.maxLineLength = s.body.transcript c.params.maxLineLength
    rw [hlimit]
    exact hs.transcript
  remaining := hrest
  phase := rfl
  schema := rfl
  block := rfl
  index := congrArg (· + 1) hindex
  queryId := rfl
  queryLabel := rfl
  statistics := rfl
  closed := hclosed
  tally := htally

theorem nextResultSet (h : Alike base base' c c') :
    c.nextResultSet.1 = c'.nextResultSet.1 ∧ Alike base base' c.nextResultSet.2 c'.nextResultSet.2 := by
  cases hc : c.closed with
  | true =>
    rw [nextResultSet_closed hc, nextResultSet_closed (h.closed.trans hc)]
    exact ⟨rfl, h⟩
  | false =>
    have hremaining := h.remaining
    match hr : c.remaining, hr' : c'.remaining with
    | [], [] =>
      rw [nextResultSet_last hc hr, nextResultSet_last (h.closed.trans hc) hr']
      refine ⟨rfl, ?_⟩
      exact
        { limit := h.limit, position := rfl, unread := fun hp => absurd rfl hp, remaining := h.remaining
          phase := rfl, schema := rfl, block := rfl, index := h.index, queryId := rfl, queryLabel := rfl
          statistics := rfl, closed := rfl, tally := h.leave_tally }
    | [], s' :: rest' => rw [hr, hr'] at hremaining; cases hremaining
    | s :: rest, [] => rw [hr, hr'] at hremaining; cases hremaining
    | s :: rest, s' :: rest' =>
      rw [hr, hr'] at hremaining
      obtain ⟨hs, hrest⟩ := List.forall₂_cons.mp hremaining
      obtain ⟨hanswer, hd⟩ := (entered h.limit h.index h.closed hs hrest h.leave_tally).ensureStarted
      rw [nextResultSet_more hc hr, nextResultSet_more (h.closed.trans hc) hr', hanswer]
      exact ⟨rfl, hd⟩

theorem close (h : Alike base base' c c') : Alike base base' c.close c'.close := by
  cases hc : c.closed with
  | true =>
    rw [close_closed hc, close_closed (h.closed.trans hc)]
    exact h
  | false =>
    rw [close_open hc, close_open (h.closed.trans hc)]
    exact
      { limit := h.limit, position := rfl, unread := fun hp => absurd rfl hp, remaining := .nil
        phase := rfl, schema := rfl, block := rfl, index := h.index, queryId := rfl, queryLabel := rfl
        statistics := rfl, closed := rfl, tally := h.release_tally }

theorem simulation (base base' : Tally) : Cursor.Simulation (Alike base base') where
  columns := columns
  next := next
  nextResultSet := nextResultSet
  close := close

end Alike

/-! ## What can be seen -/

/-- What can be seen of a streaming cursor, apart from what it adds up over its life. -/
structure Sight where
  closed : Bool
  hasNextResultSet : Bool
  index : Nat
  queryId : Option String
  queryLabel : Option String
  statistics : Option Statistics

def sight (c : StreamingCursor) : Sight :=
  ⟨c.closed, c.hasNextResultSet, c.index, c.queryId, c.queryLabel, c.statistics⟩

variable {base base' : Tally} {c c' : StreamingCursor}

theorem Alike.sight (h : Alike base base' c c') : c.sight = c'.sight := by
  have hremaining : c'.remaining.isEmpty = c.remaining.isEmpty := by
    rw [Bool.eq_iff_iff, List.isEmpty_iff_length_eq_zero, List.isEmpty_iff_length_eq_zero, h.remaining.length_eq]
  unfold StreamingCursor.sight hasNextResultSet
  rw [h.closed, h.index, h.queryId, h.queryLabel, h.statistics, hremaining]

theorem Alike.sight_release (h : Alike base base' c c') : c.release.sight = c'.release.sight := by
  show Sight.mk c.closed (!c.closed && !List.isEmpty []) c.index none none none =
    Sight.mk c'.closed (!c'.closed && !List.isEmpty []) c'.index none none none
  rw [h.closed, h.index]

end StreamingCursor

end Rowset
