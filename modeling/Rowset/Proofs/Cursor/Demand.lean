import Rowset.Proofs.Cursor.Log
import Rowset.Proofs.Cursor.Provenance

/-!
# How many records are needed

The rows that a caller asked for decide how many records of a body have to be read: the first one for the columns,
and then as many blocks as hold the rows, or one record more if it is the end.  `Transcript.needed` says this of a
body, and `StreamingCursor.demand` of what a cursor has not read yet.

A cursor reads just as many (`Sits.meets_next`).  So it is known how far it has read from what was asked of it
(`Tied`), and a read that fails is reported when a record behind it is needed for the first time.
-/

namespace Rowset

/-! ## Errors of answers -/

/-- The error of an answer, if it is one. -/
def Cursor.fault {α : Type} : Except Error α → Option Error
  | .ok _ => none
  | .error e => some e

/-- The error that an operation answers, if it does. -/
def Answer.fault : Answer → Option Error
  | .columns answer => Cursor.fault answer
  | .next answer => Cursor.fault answer
  | .nextInto answer => Cursor.fault answer.1
  | .fetchAll answer => Cursor.fault answer
  | .nextResultSet answer => Cursor.fault answer
  | .close => none

namespace Row

theorem decodeCells_error {columns : List Column} {cells : List Json} {e : Error}
    (h : decodeCells columns cells = .error e) : ∃ fault, e = .value fault := by
  induction columns generalizing cells with
  | nil => cases h
  | cons column columns ih =>
    cases cells with
    | nil => cases h
    | cons cell cells =>
      unfold decodeCells at h
      cases hv : Value.decode column.type cell with
      | error fault =>
        rw [hv] at h
        cases h
        exact ⟨fault, rfl⟩
      | ok v =>
        rw [hv] at h
        cases hvs : decodeCells columns cells with
        | error e' =>
          rw [hvs] at h
          cases h
          exact ih hvs
        | ok vs =>
          rw [hvs] at h
          cases h

/-- A row that is at hand is not read. -/
theorem decode_ne_read {s : Schema} {cells : List Json} {e : Error} (h : decode s cells = .error e) (cause : String) :
    e ≠ .read cause := by
  unfold decode at h
  split at h
  · obtain ⟨fault, rfl⟩ := decodeCells_error h
    exact nofun
  · cases h
    exact nofun

end Row

/-! ## Records that are needed -/

namespace Transcript

/-- How many of the records behind a `START` are needed for `n` answers.  The end of the result set answers all
further calls, and the end of the body counts as a record. -/
def reach : List StreamRecord → Nat → Nat
  | _, 0 => 0
  | [], _ + 1 => 1
  | r :: rs, n + 1 => if r.kind = .data then 1 + reach rs (n + 1 - r.rows.length) else 1

/-- How many records of a result set are needed if `asked` rows were asked for, or nothing at all. -/
def needed (t : Transcript) : Option Nat → Nat
  | none => 0
  | some n =>
    match t.opening with
    | .ok _ => 1 + reach t.tail.records n
    | .error _ => 1

section

variable {r : StreamRecord} {rs : List StreamRecord} {stop : Option Error} {t : Transcript} {cause : String}

@[simp] theorem reach_zero (rs : List StreamRecord) : reach rs 0 = 0 := by
  cases rs <;> rfl

theorem reach_data (h : r.kind = .data) (n : Nat) :
    reach (r :: rs) (n + 1) = 1 + reach rs (n + 1 - r.rows.length) := by
  rw [reach, if_pos h]

theorem reach_other (h : r.kind ≠ .data) (n : Nat) : reach (r :: rs) (n + 1) = 1 := by
  rw [reach, if_neg h]

theorem reach_pos (rs : List StreamRecord) (n : Nat) : 1 ≤ reach rs (n + 1) := by
  cases rs with
  | nil => exact Nat.le_refl 1
  | cons r rs =>
    by_cases hk : r.kind = .data
    · rw [reach_data hk]
      exact Nat.le_add_right 1 _
    · exact Nat.le_of_eq (reach_other hk n).symm

theorem reach_mono (rs : List StreamRecord) {m n : Nat} (h : m ≤ n) : reach rs m ≤ reach rs n := by
  induction rs generalizing m n with
  | nil =>
    cases m with
    | zero => exact Nat.zero_le _
    | succ m =>
      obtain ⟨n, rfl⟩ : ∃ k, n = k + 1 := ⟨n - 1, by omega⟩
      exact Nat.le_refl 1
  | cons r rs ih =>
    cases m with
    | zero => exact Nat.zero_le _
    | succ m =>
      obtain ⟨n, rfl⟩ : ∃ k, n = k + 1 := ⟨n - 1, by omega⟩
      by_cases hk : r.kind = .data
      · rw [reach_data hk, reach_data hk]
        exact Nat.add_le_add_left (ih (by omega)) 1
      · exact Nat.le_of_eq ((reach_other hk m).trans (reach_other hk n).symm)

theorem needed_of_ok {schema : Schema} (h : t.opening = .ok schema) (n : Nat) :
    t.needed (some n) = 1 + reach t.tail.records n := by
  unfold needed
  dsimp only
  rw [h]

theorem needed_of_error {e : Error} (h : t.opening = .error e) (n : Nat) : t.needed (some n) = 1 := by
  unfold needed
  dsimp only
  rw [h]

/-- The columns take one record, whatever it is. -/
theorem needed_zero (t : Transcript) : t.needed (some 0) = 1 := by
  cases h : t.opening with
  | error e => rw [needed_of_error h]
  | ok schema => rw [needed_of_ok h, reach_zero]

/-- One more row does not take fewer records. -/
theorem needed_le (t : Transcript) (asked : Option Nat) : t.needed asked ≤ t.needed (some (asked.getD 0 + 1)) := by
  cases asked with
  | none => exact Nat.zero_le _
  | some n =>
    show t.needed (some n) ≤ t.needed (some (n + 1))
    cases h : t.opening with
    | error e => exact Nat.le_of_eq ((needed_of_error h n).trans (needed_of_error h (n + 1)).symm)
    | ok schema =>
      rw [needed_of_ok h, needed_of_ok h]
      exact Nat.add_le_add_left (reach_mono _ (Nat.le_succ n)) 1

theorem departure_eq_read {missing : Framing} {misplaced : RecordKind → Framing} :
    t.departure missing misplaced = .read cause ↔ t.records = [] ∧ t.stop = some (.read cause) := by
  obtain ⟨rs, stop⟩ := t
  unfold departure
  cases rs with
  | nil => cases stop <;> simp
  | cons r rs =>
    dsimp only
    split <;> simp

theorem opening_eq_read : t.opening = .error (.read cause) ↔ t.records = [] ∧ t.stop = some (.read cause) := by
  obtain ⟨rs, stop⟩ := t
  cases rs with
  | nil =>
    rw [← departure_eq_read]
    exact ⟨Except.error.inj, congrArg Except.error⟩
  | cons r rs =>
    have hne : Transcript.records ⟨r :: rs, stop⟩ ≠ [] := List.cons_ne_nil r rs
    refine ⟨fun h => ?_, fun h => absurd h.1 hne⟩
    unfold opening at h
    dsimp only at h
    split at h
    · obtain ⟨text, fault, he⟩ := Schema.ofHeaders_error h
      cases he
    · exact absurd (departure_eq_read.mp (Except.error.inj h)).1 hne

end

end Transcript

/-! ## Records that a cursor needs -/

namespace StreamingCursor

open Transcript (reach)

/-- How many of the records that the cursor has not read are needed for `n` answers. -/
def demand (c : StreamingCursor) (n : Nat) : Nat :=
  match c.phase with
  | .awaitingStart => c.unread.needed (some n)
  | .reading => reach c.unread.records (n - c.block.length)
  | .exhausted => 0

/-- From `c` to `c'` the cursor was asked for `n` more answers, the last of which is the error `fault`: it has read
the records that are needed for them, and a read failed if there were not as many. -/
structure Meets (c : StreamingCursor) (n : Nat) (fault : Option Error) (c' : StreamingCursor) : Prop where
  demand : ∀ m, c.demand (n + m) = c.demand n + c'.demand m
  unread : c'.phase ≠ .exhausted →
    c.demand n ≤ c.unread.records.length ∧ c'.unread = ⟨c.unread.records.drop (c.demand n), c.unread.stop⟩
  stays : c.phase = .exhausted → c'.phase = .exhausted
  failed : ∀ cause, fault = some (.read cause) ↔
    c.unread.records.length < c.demand n ∧ c.unread.stop = some (.read cause)

variable {c c' d : StreamingCursor} {s : Segment} {set : ResultSet} {rem : Remainder} {fault fault' : Option Error}
  {m n fuel : Nat}

theorem demand_awaitingStart (h : c.phase = .awaitingStart) (n : Nat) : c.demand n = c.unread.needed (some n) := by
  unfold demand
  rw [h]

theorem demand_reading (h : c.phase = .reading) (n : Nat) :
    c.demand n = reach c.unread.records (n - c.block.length) := by
  unfold demand
  rw [h]

theorem demand_exhausted (h : c.phase = .exhausted) (n : Nat) : c.demand n = 0 := by
  unfold demand
  rw [h]

namespace Meets

/-- Behind the first record, no record is needed for no rows. -/
theorem nothing (h : c.Owes rem) : Meets c 0 none c := by
  have hzero : c.demand 0 = 0 := by
    cases h with
    | reading _ hp => rw [demand_reading hp, Nat.zero_sub, Transcript.reach_zero]
    | exhausted _ hp => exact demand_exhausted hp 0
  refine ⟨fun m => ?_, fun _ => ?_, id, fun cause => ?_⟩
  · rw [hzero, Nat.zero_add, Nat.zero_add]
  · rw [hzero]
    exact ⟨Nat.zero_le _, rfl⟩
  · rw [hzero]
    exact ⟨nofun, fun h => absurd h.1 (Nat.not_lt_zero _)⟩

theorem trans (h : Meets c m fault d) (hf : ∀ cause, fault ≠ some (.read cause)) (h' : Meets d n fault' c') :
    Meets c (m + n) fault' c' where
  demand k := by rw [Nat.add_assoc, h.demand, h.demand, h'.demand, Nat.add_assoc]
  unread hp := by
    obtain ⟨hle, hunread⟩ := h.unread fun hd => hp (h'.stays hd)
    obtain ⟨hle', hunread'⟩ := h'.unread hp
    rw [hunread, List.length_drop] at hle'
    rw [h.demand, hunread', hunread, List.drop_drop]
    exact ⟨by omega, rfl⟩
  stays hp := h'.stays (h.stays hp)
  failed cause := by
    rw [h'.failed, h.demand]
    have hfailed := h.failed cause
    by_cases hd : d.phase = .exhausted
    · rw [demand_exhausted hd, Nat.add_zero]
      exact ⟨fun h => absurd h.1 (Nat.not_lt_zero _), fun h => absurd (hfailed.mpr h) (hf cause)⟩
    · obtain ⟨hle, hunread⟩ := h.unread hd
      rw [hunread, List.length_drop]
      exact and_congr_left fun _ => by omega

/-- What ended the result set answers nothing more. -/
theorem add (h : Meets c m fault d) (hd : d.phase = .exhausted) (n : Nat) : Meets c (m + n) fault d where
  demand k := by
    rw [Nat.add_assoc, h.demand, h.demand, demand_exhausted hd, demand_exhausted hd, demand_exhausted hd]
  unread hp := absurd hd hp
  stays := h.stays
  failed cause := by rw [h.demand, demand_exhausted hd, Nat.add_zero, h.failed]

/-! ### One row -/

/-- A row that is at hand needs no record. -/
theorem row {cells : List Json} {rest : List (List Json)} (hp : c.phase = .reading) (hb : c.block = cells :: rest)
    (hp' : c'.phase = .reading) (hb' : c'.block = rest) (hunread : c'.unread = c.unread)
    (hf : ∀ cause, fault ≠ some (.read cause)) : Meets c 1 fault c' := by
  have hzero : c.demand 1 = 0 := by
    rw [demand_reading hp, hb, List.length_cons, Nat.sub_eq_zero_of_le (Nat.le_add_left 1 _),
      Transcript.reach_zero]
  refine ⟨fun m => ?_, fun _ => ?_, fun hc => ?_, fun cause => ?_⟩
  · rw [hzero, Nat.zero_add, demand_reading hp, demand_reading hp', hb, hb', hunread, List.length_cons,
      Nat.add_comm 1 m, Nat.add_sub_add_right]
  · rw [hzero, hunread]
    exact ⟨Nat.zero_le _, rfl⟩
  · rw [hp] at hc
    cases hc
  · rw [hzero]
    exact ⟨fun h => absurd h (hf cause), fun h => absurd h.1 (Nat.not_lt_zero _)⟩

/-- A record, or the end of the body, that ends the result set. -/
theorem finish (hp : c.phase = .reading) (hb : c.block = []) (hp' : c'.phase = .exhausted)
    (hone : ∀ n, reach c.unread.records (n + 1) = 1)
    (hf : ∀ cause, fault = some (.read cause) ↔ c.unread.records = [] ∧ c.unread.stop = some (.read cause)) :
    Meets c 1 fault c' := by
  have hdemand : ∀ n, c.demand (1 + n) = 1 := fun n => by
    rw [demand_reading hp, hb, Nat.add_comm 1 n]
    exact hone n
  refine ⟨fun m => ?_, fun hc => absurd hp' hc, fun _ => hp', fun cause => ?_⟩
  · rw [hdemand, demand_exhausted hp']
    exact (hdemand 0).symm
  · rw [hf, show c.demand 1 = 1 from hdemand 0, Nat.lt_one_iff, List.length_eq_zero_iff]

/-- A block that is taken over is one record that is needed. -/
theorem data {r : StreamRecord} {rs : List StreamRecord} {stop : Option Error} (hp : c.phase = .reading)
    (hb : c.block = []) (ht : c.unread = ⟨r :: rs, stop⟩) (hk : r.kind = .data) (hp' : d.phase = .reading)
    (hb' : d.block = r.rows) (ht' : d.unread = ⟨rs, stop⟩) (h : Meets d 1 fault c') : Meets c 1 fault c' := by
  have hdemand : ∀ n, c.demand (1 + n) = 1 + d.demand (1 + n) := fun n => by
    rw [demand_reading hp, demand_reading hp', hb, hb', ht, ht', Nat.add_comm 1 n]
    exact Transcript.reach_data hk n
  have hone : c.demand 1 = 1 + d.demand 1 := hdemand 0
  refine ⟨fun m => ?_, fun hc => ?_, fun hc => ?_, fun cause => ?_⟩
  · rw [hdemand, h.demand, hone, Nat.add_assoc]
  · obtain ⟨hle, hunread⟩ := h.unread hc
    rw [ht'] at hle hunread
    rw [hone, ht, hunread, Nat.add_comm 1]
    exact ⟨Nat.succ_le_succ hle, rfl⟩
  · rw [hp] at hc
    cases hc
  · rw [h.failed, ht', hone, ht, Nat.add_comm 1]
    exact and_congr_left fun _ => Nat.succ_lt_succ_iff.symm

end Meets

/-! ### The operations -/

/-- Looking at the first record reads it, unless that was done before. -/
theorem Fresh.meets_ensureStarted (h : c.Fresh s) : Meets c 0 (Cursor.fault c.ensureStarted.1) c.ensureStarted.2 := by
  have hstart := ensureStarted_starts h
  have hopens := opens_ensureStarted c
  have hneeded := demand_awaitingStart h.phase
  have hanswer := hstart.answer
  have hexhausted := hstart.exhausted
  generalize c.ensureStarted = result at hopens hanswer hexhausted ⊢
  cases hopening : c.unread.opening with
  | error e =>
    have hphase := hexhausted e hopening
    -- The first record decides, and no more is ever needed.
    have hone : ∀ n, c.demand n = 1 := fun n => (hneeded n).trans (Transcript.needed_of_error hopening n)
    rw [hopening] at hanswer
    refine ⟨fun m => by rw [hone, hone, demand_exhausted hphase], absurd hphase, fun _ => hphase, fun cause => ?_⟩
    rw [hanswer, hone, Nat.lt_one_iff, List.length_eq_zero_iff, ← Transcript.opening_eq_read, hopening]
    exact ⟨fun h => congrArg _ (Option.some.inj h), fun h => congrArg _ (Except.error.inj h)⟩
  | ok schema =>
    have hreach : ∀ n, c.demand n = 1 + reach c.unread.tail.records n := fun n =>
      (hneeded n).trans (Transcript.needed_of_ok hopening n)
    have hone : c.demand 0 = 1 := by rw [hreach, Transcript.reach_zero]
    rw [hopening] at hanswer
    -- Of the ways to look at the first record, one is left in which it is read and says what the columns are.
    cases hopens with
    | closed hclosed => cases hanswer
    | before _ hphase => exact absurd h.phase hphase
    | failed _ _ _ => cases hanswer
    | @started r d schema' _ _ read _ _ =>
      obtain ⟨s', -, hafter, hunread⟩ := readRecord_record (congrArg Prod.fst read)
      obtain rfl : d = c.advanced s' := by rw [← hafter, read]
      refine ⟨fun m => ?_, fun _ => ?_, fun hp => ?_, fun cause => ?_⟩
      · rw [hone, hreach, Nat.zero_add, demand_reading rfl]
        show _ = 1 + reach (c.advanced s').unread.records (m - c.block.length)
        rw [h.block, hunread]
        rfl
      · rw [hone, hunread]
        exact ⟨Nat.succ_le_succ (Nat.zero_le _), rfl⟩
      · rw [h.phase] at hp
        cases hp
      · rw [hone, hunread]
        exact ⟨nofun, fun h => absurd h.1 (Nat.not_lt_of_le (Nat.succ_le_succ (Nat.zero_le _)))⟩

theorem unexpected_ne_read (phase : Phase) (r : StreamRecord) (cause : String) :
    unexpected phase r ≠ .read cause := by
  unfold unexpected
  cases r.kind with
  | finishedWithSuccess =>
    dsimp only
    split <;> exact nofun
  | start => exact nofun
  | data => exact nofun
  | finishWithError => exact nofun
  | unknown => exact nofun

section

variable {rs : List StreamRecord} {r : StreamRecord} {stop : Option Error}

/-- Without a record there is nothing more to read. -/
theorem meets_stopped (hp : c.phase = .reading) (hs : c.current = some s) (hb : c.block = [])
    (ht : c.unread = ⟨[], stop⟩) :
    Meets c 1 (Cursor.fault (nextWithin (fuel + 1) c).1) (nextWithin (fuel + 1) c).2 := by
  have hone : ∀ n, reach c.unread.records (n + 1) = 1 := fun n => by
    rw [ht]
    rfl
  rw [nextWithin_read hp hs hb, ht]
  cases stop with
  | none =>
    refine .finish hp hb rfl hone fun cause => ?_
    rw [ht]
    exact ⟨nofun, nofun⟩
  | some e =>
    refine .finish hp hb rfl hone fun cause => ?_
    rw [ht]
    exact ⟨fun he => ⟨rfl, he⟩, And.right⟩

/-- A record that is no block is the last one that is needed. -/
theorem meets_other (hp : c.phase = .reading) (hs : c.current = some s) (hb : c.block = [])
    (ht : c.unread = ⟨r :: rs, stop⟩) (hk : r.kind ≠ .data) :
    Meets c 1 (Cursor.fault (nextWithin (fuel + 1) c).1) (nextWithin (fuel + 1) c).2 := by
  have hone : ∀ n, reach c.unread.records (n + 1) = 1 := fun n => by
    rw [ht]
    exact Transcript.reach_other hk n
  have hne : c.unread.records ≠ [] := by
    rw [ht]
    exact List.cons_ne_nil r rs
  have hbad : ∀ cause, some (unexpected c.phase r) = some (.read cause) ↔
      c.unread.records = [] ∧ c.unread.stop = some (.read cause) := fun cause =>
    ⟨fun he => absurd (Option.some.inj he) (unexpected_ne_read c.phase r cause), fun he => absurd he.1 hne⟩
  rw [nextWithin_read hp hs hb, ht, Transcript.head_cons]
  dsimp only
  cases hkind : r.kind with
  | data => exact absurd hkind hk
  | finishedWithSuccess => exact .finish hp hb rfl hone fun cause => ⟨nofun, fun he => absurd he.1 hne⟩
  | start => exact .finish hp hb rfl hone hbad
  | finishWithError => exact .finish hp hb rfl hone hbad
  | unknown => exact .finish hp hb rfl hone hbad

/-- A row of the block is at hand. -/
theorem meets_row {cells : List Json} {rest : List (List Json)} {schema : Schema} (hp : c.phase = .reading)
    (hcol : c.schema = some schema) (hb : c.block = cells :: rest) :
    Meets c 1 (Cursor.fault (nextWithin (fuel + 1) c).1) (nextWithin (fuel + 1) c).2 := by
  rw [nextWithin, hb]
  dsimp only
  rw [hcol]
  dsimp only
  cases hd : Row.decode schema cells with
  | ok vs => exact .row hp hb hp rfl rfl fun _ he => Option.some_ne_none _ he.symm
  | error e => exact .row hp hb hp rfl rfl fun cause he => Row.decode_ne_read hd cause (Option.some.inj he)

end

/-- Looking for the next row reads the records that are needed for it. -/
theorem Owes.meets_nextWithin (h : c.Owes rem) (hf : c.unread.records.length < fuel) :
    Meets c 1 (Cursor.fault (nextWithin fuel c).1) (nextWithin fuel c).2 := by
  induction fuel generalizing c rem with
  | zero => omega
  | succ fuel ih =>
    have hnothing := Meets.nothing h
    cases h with
    | exhausted hc hp hb hs =>
      rw [nextWithin, hb]
      dsimp only
      rw [if_pos (by rw [hp]; decide)]
      exact hnothing.add hp 1
    | @reading s schema hc hp hs hcol =>
      cases hb : c.block with
      | cons cells rest => exact meets_row hp hcol hb
      | nil =>
        rcases ht : c.unread with ⟨records, stop⟩
        cases records with
        | nil => exact meets_stopped hp hs hb ht
        | cons r rs =>
          by_cases hk : r.kind = .data
          · have hadv := unread_advanced_cons hs ht
            have howes : Owes { c.advanced s with block := r.rows } _ := .reading hc hp rfl hcol
            rw [nextWithin_read hp hs hb, ht, Transcript.head_cons]
            dsimp only
            rw [hk]
            refine .data (d := { c.advanced s with block := r.rows }) hp hb ht hk hp rfl hadv (ih howes ?_)
            rw [show unread { c.advanced s with block := r.rows } = ⟨rs, stop⟩ from hadv]
            rw [ht] at hf
            exact Nat.lt_of_succ_lt_succ hf
          · exact meets_other hp hs hb ht hk

/-- From a cursor in a result set, asking for a row reads what is needed. -/
theorem Owes.meets_next (h : c.Owes rem) : Meets c 1 (Cursor.fault c.next.1) c.next.2 := by
  unfold next
  rw [h.opened, h.ensureStarted]
  exact h.meets_nextWithin (records_lt_bytesLeft c)

theorem Sits.meets_ensureStarted (h : Sits set c) :
    Meets c 0 (Cursor.fault c.ensureStarted.1) c.ensureStarted.2 := by
  cases h with
  | fresh hfresh _ => exact hfresh.meets_ensureStarted
  | owing howes _ =>
    rw [howes.ensureStarted]
    exact .nothing howes

theorem Sits.meets_next (h : Sits set c) : Meets c 1 (Cursor.fault c.next.1) c.next.2 := by
  cases h with
  | owing howes _ => exact howes.meets_next
  | fresh hfresh _ =>
    have hstart := ensureStarted_starts hfresh
    have hmeets := hfresh.meets_ensureStarted
    rw [hfresh.next_eq]
    rw [hstart.answer] at hmeets
    cases hopening : c.unread.opening with
    | ok schema =>
      rw [hopening] at hmeets
      exact hmeets.trans nofun hstart.owes.meets_next
    | error e =>
      rw [hopening] at hmeets
      exact hmeets.add (hstart.exhausted e hopening) 1

/-- So does asking for the columns. -/
theorem Sits.meets_columns (h : Sits set c) : Meets c 0 (Cursor.fault c.columns.1) c.columns.2 := by
  have hmeets := h.meets_ensureStarted
  unfold columns
  generalize c.ensureStarted = result at hmeets
  obtain ⟨answer, d⟩ := result
  cases answer with
  | error e => exact hmeets
  | ok u =>
    dsimp only
    cases d.schema with
    | some schema => exact hmeets
    | none => exact { hmeets with failed := fun cause => ⟨nofun, fun he => nomatch (hmeets.failed cause).mpr he⟩ }

/-- Going on asks for the columns of the result set that follows. -/
theorem meets_nextResultSet {rest : List Segment} (hc : c.closed = false) (hr : c.remaining = s :: rest) :
    SameSet (c.entered s rest) c.nextResultSet.2 ∧ ∀ {set}, Sits set (c.entered s rest) →
      Meets (c.entered s rest) 0 (Cursor.fault c.nextResultSet.1) c.nextResultSet.2 := by
  have hfault : Cursor.fault c.nextResultSet.1 = Cursor.fault (c.entered s rest).ensureStarted.1 := by
    rw [nextResultSet_more hc hr]
    cases (c.entered s rest).ensureStarted.1 <;> rfl
  have hafter : c.nextResultSet.2 = (c.entered s rest).ensureStarted.2 := by
    rw [nextResultSet_more hc hr]
  rw [hfault, hafter]
  exact ⟨sameSet_ensureStarted _, Sits.meets_ensureStarted⟩

/-! ## What was asked and what was read -/

/-- The cursor has read what is needed of a result set with the transcript `t` of which `asked` was asked, and it
needs the same as the result set for all that is asked further. -/
structure Tied (t : Transcript) (asked : Option Nat) (c : StreamingCursor) : Prop where
  needed : ∀ n, t.needed (some (asked.getD 0 + n)) = t.needed asked + c.demand n
  unread : c.phase ≠ .exhausted →
    t.needed asked ≤ t.records.length ∧ c.unread = ⟨t.records.drop (t.needed asked), t.stop⟩

variable {t : Transcript} {asked : Option Nat}

theorem Fresh.tied (h : c.Fresh s) : Tied c.unread none c where
  needed n := by
    rw [demand_awaitingStart h.phase]
    show c.unread.needed (some (0 + n)) = 0 + c.unread.needed (some n)
    rw [Nat.zero_add, Nat.zero_add]
  unread _ := ⟨Nat.zero_le _, rfl⟩

theorem Tied.step (h : Tied t asked c) (hm : Meets c n fault c') : Tied t (some (asked.getD 0 + n)) c' where
  needed m := by
    show t.needed (some (asked.getD 0 + n + m)) = _
    rw [Nat.add_assoc, h.needed, h.needed, hm.demand, Nat.add_assoc]
  unread hp := by
    obtain ⟨hle, hunread⟩ := h.unread fun hc => hp (hm.stays hc)
    obtain ⟨hle', hunread'⟩ := hm.unread hp
    rw [hunread, List.length_drop] at hle'
    rw [h.needed, hunread', hunread, List.drop_drop]
    exact ⟨by omega, rfl⟩

/-- A read that failed is reported when a record behind it is needed for the first time. -/
theorem Tied.failed (h : Tied t asked c) (hm : Meets c n fault c') (cause : String) :
    fault = some (.read cause) ↔ (t.records.length < t.needed (some (asked.getD 0 + n)) ∧
      t.stop = some (.read cause)) ∧ t.needed asked ≤ t.records.length := by
  rw [hm.failed, h.needed]
  by_cases hp : c.phase = .exhausted
  · rw [demand_exhausted hp]
    exact ⟨fun h => absurd h.1 (Nat.not_lt_zero _), fun h => absurd h.1.1 (Nat.not_lt_of_le h.2)⟩
  · obtain ⟨hle, hunread⟩ := h.unread hp
    rw [hunread, List.length_drop]
    constructor
    · rintro ⟨hlt, hstop⟩
      exact ⟨⟨by omega, hstop⟩, hle⟩
    · rintro ⟨⟨hlt, hstop⟩, -⟩
      exact ⟨by omega, hstop⟩

/-- The cursor takes its result sets from `bodies` and has read of the current one what is needed. -/
structure Follows (bodies : List Body) (params : StreamParams) (w : Cursor.Logged StreamingCursor) : Prop where
  stands : Stands bodies params w.cursor
  tied : w.cursor.closed = false → ∀ b, bodies[w.cursor.index]? = some b →
    Tied (b.transcript params.maxLineLength) w.asked w.cursor

variable {bodies : List Body} {params : StreamParams} {w w' : Cursor.Logged StreamingCursor}

theorem Stands.exists_sits (h : Stands bodies params c) (hc : c.closed = false) : ∃ set, Sits set c := by
  obtain ⟨b, -, hsits⟩ := h.sits hc
  exact ⟨_, hsits⟩

/-- Within a result set. -/
theorem Follows.within (h : Follows bodies params w) (hstands : Stands bodies params w'.cursor)
    (hsame : SameSet w.cursor w'.cursor) (hasked : w'.asked = some (w.asked.getD 0 + n))
    (hmeets : ∀ {set}, Sits set w.cursor → Meets w.cursor n fault w'.cursor) : Follows bodies params w' := by
  refine ⟨hstands, fun hc b hb => ?_⟩
  rw [hsame.closed] at hc
  rw [hsame.index] at hb
  obtain ⟨set, hsits⟩ := h.stands.exists_sits hc
  rw [hasked]
  exact (h.tied hc b hb).step (hmeets hsits)

/-- The next result set, before its first record is looked at. -/
theorem Follows.entered {rest : List Segment} (h : Follows bodies params w) (hc : w.cursor.closed = false)
    (hr : w.cursor.remaining = s :: rest) : Follows bodies params { cursor := w.cursor.entered s rest } := by
  refine ⟨h.stands.entered hc hr, fun _ b hb => ?_⟩
  have hplace := h.stands.queued.getElem?_next hc hr
  rw [getElem?_segmentsOf, show bodies[w.cursor.index + 1]? = some b from hb] at hplace
  obtain rfl := Option.some.inj hplace
  have hfresh : (w.cursor.entered ⟨w.cursor.index + 1, b⟩ rest).Fresh ⟨w.cursor.index + 1, b⟩ := ⟨hc, rfl, rfl, rfl⟩
  have htied := hfresh.tied
  rw [unread_eq hfresh.current, show (w.cursor.entered _ rest).params = params from h.stands.queued.params] at htied
  exact htied

/-- A closed cursor is in no result set. -/
theorem follows_of_closed (hstands : Stands bodies params w.cursor) (hc : w.cursor.closed = true) :
    Follows bodies params w :=
  ⟨hstands, fun hopen => absurd (hc.symm.trans hopen) nofun⟩

theorem Follows.nextResultSet (h : Follows bodies params w) : Follows bodies params (Cursor.nextResultSet w).2 := by
  have hstands : Stands bodies params w.cursor.nextResultSet.2 :=
    (stands_invariant bodies params).nextResultSet h.stands
  cases hc : w.cursor.closed with
  | true =>
    refine follows_of_closed hstands ?_
    show w.cursor.nextResultSet.2.closed = true
    rw [nextResultSet_closed hc]
    exact hc
  | false =>
    cases hr : w.cursor.remaining with
    | nil =>
      refine follows_of_closed hstands ?_
      show w.cursor.nextResultSet.2.closed = true
      rw [nextResultSet_last hc hr]
    | cons s rest =>
      obtain ⟨hsame, hmeets⟩ := meets_nextResultSet hc hr
      exact (h.entered hc hr).within hstands hsame rfl hmeets

theorem follows_invariant (bodies : List Body) (params : StreamParams) : Cursor.Invariant (Follows bodies params) where
  columns {w} h := h.within ((stands_invariant bodies params).columns h.stands) (sameSet_columns w.cursor) rfl
    Sits.meets_columns
  next {w} h := h.within ((stands_invariant bodies params).next h.stands) (sameSet_next w.cursor) rfl Sits.meets_next
  nextResultSet h := h.nextResultSet
  close {w} h := by
    refine follows_of_closed ((stands_invariant bodies params).close h.stands) ?_
    show w.cursor.close.closed = true
    cases hc : w.cursor.closed with
    | true => rw [close_closed hc, hc]
    | false => rw [close_open hc]

theorem follows_ofBodies (bodies : List Body) (params : StreamParams) :
    Follows bodies params (Cursor.logged (ofBodies bodies params)) := by
  refine ⟨stands_ofBodies bodies params, fun hc b hb => ?_⟩
  cases bodies with
  | nil => cases hc
  | cons first rest =>
    obtain rfl := Option.some.inj hb
    have hfresh := fresh_ofBodies first rest params
    have htied := hfresh.tied
    rw [unread_eq hfresh.current] at htied
    exact htied

end StreamingCursor

end Rowset
