import Rowset.Proofs.Cursor.Demand
import Rowset.Proofs.Cursor.Navigation

/-!
# Reads that fail

A read that fails is reported by the operation that is the first to need a record behind it, by no other one, and
the result set is exhausted then.  The main statement is `Follows.endures`.
-/

namespace Rowset

namespace StreamingCursor

open Cursor (Logged perform run fault)

variable {bodies : List Body} {params : StreamParams} {w w' w'' : Logged StreamingCursor} {cause : String}
  {error : Option Error} {n : Nat}

/-- More is needed of the current result set than its body has in front of a read that failed. -/
def Misses (bodies : List Body) (params : StreamParams) (cause : String) (w : Logged StreamingCursor) : Prop :=
  w.cursor.closed = false ∧ ∃ b, bodies[w.cursor.index]? = some b ∧
    (b.transcript params.maxLineLength).records.length < (b.transcript params.maxLineLength).needed w.asked ∧
    (b.transcript params.maxLineLength).stop = some (.read cause)

/-- From `w` to `w'` a caller asked for more of the current result set, and the last answer was the error `error`: it
is that of a read that failed if and only if the cursor came to need more than that read left. -/
structure Reports (bodies : List Body) (params : StreamParams) (w : Logged StreamingCursor) (error : Option Error)
    (w' : Logged StreamingCursor) : Prop where
  index : w'.cursor.index = w.cursor.index
  failed : ∀ cause, error = some (.read cause) ↔ Misses bodies params cause w' ∧ ¬ Misses bodies params cause w
  stays : ∀ cause, Misses bodies params cause w → Misses bodies params cause w'

/-! ## Answers within a result set -/

theorem misses_iff {b : Body} (hc : w.cursor.closed = false) (hb : bodies[w.cursor.index]? = some b) :
    Misses bodies params cause w ↔
      (b.transcript params.maxLineLength).records.length < (b.transcript params.maxLineLength).needed w.asked ∧
        (b.transcript params.maxLineLength).stop = some (.read cause) := by
  constructor
  · rintro ⟨-, b', hb', hmisses⟩
    rw [hb] at hb'
    cases hb'
    exact hmisses
  · exact fun hmisses => ⟨hc, b, hb, hmisses⟩

theorem not_misses_of_closed (hc : w.cursor.closed = true) : ¬ Misses bodies params cause w :=
  fun h => absurd (hc.symm.trans h.1) nofun

theorem Reports.refl (w : Logged StreamingCursor) : Reports bodies params w none w :=
  ⟨rfl, fun _ => ⟨nofun, fun h => absurd h.1 h.2⟩, fun _ => id⟩

theorem Reports.trans (h : Reports bodies params w none w') (h' : Reports bodies params w' error w'') :
    Reports bodies params w error w'' where
  index := h'.index.trans h.index
  failed cause := by
    have hnone : ¬ (Misses bodies params cause w' ∧ ¬ Misses bodies params cause w) :=
      fun hm => nomatch (h.failed cause).mpr hm
    have hstays := h.stays cause
    rw [h'.failed cause]
    tauto
  stays cause hm := h'.stays cause (h.stays cause hm)

theorem Follows.reports (h : Follows bodies params w) (hsame : SameSet w.cursor w'.cursor)
    (hasked : w'.asked = some (w.asked.getD 0 + n))
    (hmeets : ∀ {set}, Sits set w.cursor → Meets w.cursor n error w'.cursor)
    (hclosed : w.cursor.closed = true → ∀ cause, error ≠ some (.read cause)) :
    Reports bodies params w error w' := by
  cases hc : w.cursor.closed with
  | true =>
    have hc' := hsame.closed.trans hc
    exact
      { index := hsame.index
        failed := fun cause => iff_of_false (hclosed hc cause) fun hm => not_misses_of_closed hc' hm.1
        stays := fun cause hm => absurd hm (not_misses_of_closed hc) }
  | false =>
    obtain ⟨b, hb, hsits⟩ := h.stands.sits hc
    have hb' : bodies[w'.cursor.index]? = some b := hsame.index.symm ▸ hb
    have htied := h.tied hc b hb
    refine ⟨hsame.index, fun cause => ?_, fun cause => ?_⟩
    · rw [htied.failed (hmeets hsits), misses_iff hc hb, misses_iff (hsame.closed.trans hc) hb', hasked]
      refine and_congr_right fun hm => ?_
      exact ⟨fun hle hlt => absurd hlt.1 (Nat.not_lt_of_le hle),
        fun hnot => Nat.le_of_not_lt fun hlt => hnot ⟨hlt, hm.2⟩⟩
    · rw [misses_iff hc hb, misses_iff (hsame.closed.trans hc) hb', hasked, htied.needed]
      exact fun hm => ⟨Nat.lt_of_lt_of_le hm.1 (Nat.le_add_right _ _), hm.2⟩

theorem Follows.reports_columns (h : Follows bodies params w) :
    Reports bodies params w (fault (Cursor.columns w).1) (Cursor.columns w).2 := by
  refine h.reports (sameSet_columns w.cursor) rfl Sits.meets_columns fun hc cause => ?_
  have hcolumns : Cursor.columns w.cursor = (.error .closed, w.cursor) := (Cursor.Lawful.frozen hc).columns
  show fault (Cursor.columns w.cursor).1 ≠ _
  rw [hcolumns]
  exact nofun

theorem Follows.reports_next (h : Follows bodies params w) :
    Reports bodies params w (fault (Cursor.next w).1) (Cursor.next w).2 := by
  refine h.reports (sameSet_next w.cursor) rfl Sits.meets_next fun hc cause => ?_
  show fault w.cursor.next.1 ≠ _
  rw [next_closed hc]
  exact nofun

/-- Taking many rows reports what the last call of `next` does. -/
theorem Follows.reports_fetch (h : Follows bodies params w) (fuel : Nat) (seen : List Row) :
    Reports bodies params w (fault (Cursor.fetch fuel seen w).1) (Cursor.fetch fuel seen w).2 := by
  induction fuel generalizing w seen with
  | zero => exact .refl w
  | succ fuel ih =>
    have hnext := h.reports_next
    rw [Cursor.fetch_succ]
    cases hn : (Cursor.next w).1 with
    | error e =>
      rw [hn] at hnext
      exact hnext
    | ok row? =>
      rw [hn] at hnext
      cases row? with
      | none => exact hnext
      | some row => exact hnext.trans (ih ((follows_invariant bodies params).next h) (row :: seen))

theorem Follows.reports_nextInto (h : Follows bodies params w) (dest : List Value) :
    Reports bodies params w (fault (Cursor.nextInto w dest).1.1) (Cursor.nextInto w dest).2 := by
  have hnext := h.reports_next
  rw [Cursor.nextInto_eq]
  cases hn : (Cursor.next w).1 with
  | error e =>
    rw [hn] at hnext
    exact hnext
  | ok row? =>
    rw [hn] at hnext
    cases row? <;> exact hnext

/-! ## Answers of all operations -/

/-- How a cursor deals with reads that fail. -/
structure Endures (bodies : List Body) (params : StreamParams) (w : Logged StreamingCursor) : Prop where
  /-- Such a read is reported by the operation that comes to need more than it left. -/
  reported : ∀ op cause, (perform w.cursor op).1.fault = some (.read cause) ↔
    Misses bodies params cause (perform w op).2 ∧
      ((perform w op).2.cursor.index = w.cursor.index → ¬ Misses bodies params cause w)
  /-- No other one in this result set reports one. -/
  once : ∀ cause, Misses bodies params cause w → ∀ ops op,
    (perform (run w.cursor ops) op).2.index = w.cursor.index →
      ∀ cause', (perform (run w.cursor ops) op).1.fault ≠ some (.read cause')
  /-- There are no more rows. -/
  exhausted : ∀ cause, Misses bodies params cause w → w.cursor.phase = .exhausted ∧ w.cursor.next = (.ok none, w.cursor)

/-- Nothing is missed of a result set of which nothing was asked. -/
theorem not_misses_of_unasked (hasked : w.asked = none) : ¬ Misses bodies params cause w := by
  rintro ⟨-, b, -, hlt, -⟩
  rw [hasked] at hlt
  exact absurd hlt (Nat.not_lt_zero _)

theorem Follows.reported_nextResultSet (h : Follows bodies params w) (cause : String) :
    fault w.cursor.nextResultSet.1 = some (.read cause) ↔ Misses bodies params cause (Cursor.nextResultSet w).2 ∧
      (w.cursor.nextResultSet.2.index = w.cursor.index → ¬ Misses bodies params cause w) := by
  have hclosed : ∀ {answer : Except Error Bool} {c : StreamingCursor}, w.cursor.nextResultSet = (answer, c) →
      answer = .ok false → c.closed = true →
      (fault w.cursor.nextResultSet.1 = some (.read cause) ↔ Misses bodies params cause (Cursor.nextResultSet w).2 ∧
        (w.cursor.nextResultSet.2.index = w.cursor.index → ¬ Misses bodies params cause w)) := by
    rintro answer c hnext rfl hc
    have hafter : (Cursor.nextResultSet w).2.cursor.closed = true := by
      show w.cursor.nextResultSet.2.closed = true
      rw [hnext]
      exact hc
    rw [hnext]
    exact iff_of_false nofun fun hm => not_misses_of_closed hafter hm.1
  cases hc : w.cursor.closed with
  | true => exact hclosed (nextResultSet_closed hc) rfl hc
  | false =>
    cases hr : w.cursor.remaining with
    | nil => exact hclosed (nextResultSet_last hc hr) rfl rfl
    | cons s rest =>
      obtain ⟨hsame, hmeets⟩ := meets_nextResultSet hc hr
      have hreports : Reports bodies params _ _ (Cursor.nextResultSet w).2 :=
        (h.entered hc hr).reports hsame rfl hmeets fun hclosed => absurd (hc.symm.trans hclosed) nofun
      have hmoved : w.cursor.nextResultSet.2.index ≠ w.cursor.index :=
        fun heq => Nat.succ_ne_self _ (hsame.index.symm.trans heq)
      rw [hreports.failed]
      exact and_congr_right fun _ => iff_of_true (not_misses_of_unasked rfl) fun heq => absurd heq hmoved

theorem Follows.reported (h : Follows bodies params w) (op : Operation) (cause : String) :
    (perform w op).1.fault = some (.read cause) ↔ Misses bodies params cause (perform w op).2 ∧
      ((perform w op).2.cursor.index = w.cursor.index → ¬ Misses bodies params cause w) := by
  have hwithin : ∀ {error w'}, Reports bodies params w error w' → (error = some (.read cause) ↔
      Misses bodies params cause w' ∧ (w'.cursor.index = w.cursor.index → ¬ Misses bodies params cause w)) := by
    intro error w' hr
    rw [hr.failed, forall_prop_of_true hr.index]
  cases op with
  | columns => exact hwithin h.reports_columns
  | next => exact hwithin h.reports_next
  | nextInto dest => exact hwithin (h.reports_nextInto dest)
  | fetchAll => exact hwithin (h.reports_fetch _ [])
  | nextResultSet => exact h.reported_nextResultSet cause
  | close =>
    have hclosed : (Cursor.close w).cursor.closed = true := Cursor.Lawful.isClosed_close w.cursor
    exact iff_of_false nofun fun hm => not_misses_of_closed hclosed hm.1

/-- The result set is exhausted by then. -/
theorem Follows.exhausted (h : Follows bodies params w) (hm : Misses bodies params cause w) :
    w.cursor.phase = .exhausted ∧ w.cursor.next = (.ok none, w.cursor) := by
  obtain ⟨hc, b, hb, hlt, -⟩ := hm
  have hphase : w.cursor.phase = .exhausted := by
    by_contra hp
    exact absurd ((h.tied hc b hb).unread hp).1 (Nat.not_le_of_lt hlt)
  obtain ⟨set, hsits⟩ := h.stands.exists_sits hc
  refine ⟨hphase, ?_⟩
  cases hsits with
  | fresh hfresh _ =>
    rw [hfresh.phase] at hphase
    cases hphase
  | owing howes _ => exact howes.next_of_exhausted hphase

theorem Reports.missed {i : Nat} (h : Reports bodies params w error w') (hclosed : w'.cursor.closed = w.cursor.closed)
    (hmissed : w.cursor.index = i → w.cursor.closed = true ∨ Misses bodies params cause w) (hi : w'.cursor.index = i) :
    w'.cursor.closed = true ∨ Misses bodies params cause w' := by
  rw [hclosed]
  exact (hmissed (h.index.symm.trans hi)).imp_right (h.stays cause)

/-- What is missed in a result set is missed until it is left. -/
theorem missed_invariant (bodies : List Body) (params : StreamParams) (cause : String) (i : Nat) :
    Cursor.Invariant fun w : Logged StreamingCursor => Follows bodies params w ∧ i ≤ w.cursor.index ∧
      (w.cursor.index = i → w.cursor.closed = true ∨ Misses bodies params cause w) where
  columns {w} h := by
    obtain ⟨hfollows, hle, hmissed⟩ := h
    have hreports := hfollows.reports_columns
    exact ⟨(follows_invariant bodies params).columns hfollows, hreports.index.symm ▸ hle,
      hreports.missed (sameSet_columns w.cursor).closed hmissed⟩
  next {w} h := by
    obtain ⟨hfollows, hle, hmissed⟩ := h
    have hreports := hfollows.reports_next
    exact ⟨(follows_invariant bodies params).next hfollows, hreports.index.symm ▸ hle,
      hreports.missed (sameSet_next w.cursor).closed hmissed⟩
  nextResultSet {w} h := by
    obtain ⟨hfollows, hle, -⟩ := h
    have hle' : i ≤ Cursor.index (Cursor.nextResultSet w.cursor).2 :=
      (Cursor.Lawful.le_index_invariant i).nextResultSet hle
    -- Going on leaves the result set with this number, unless it closes the cursor.
    refine ⟨hfollows.nextResultSet, hle', fun hi => .inl ?_⟩
    have hlast : Cursor.hasNextResultSet w.cursor = false := by
      by_contra hmore
      have hmoved := (Cursor.Lawful.nextResultSet_more (eq_true_of_ne_false hmore)).2.2.2
      have hnext : (Cursor.nextResultSet w.cursor).2.index = i := hi
      exact absurd (hmoved.symm.trans hnext) (Nat.ne_of_gt (Nat.lt_succ_of_le hle))
    show Cursor.isClosed (Cursor.nextResultSet w.cursor).2 = true
    rw [Cursor.Lawful.nextResultSet_last hlast]
    exact Cursor.Lawful.isClosed_close w.cursor
  close {w} h := by
    obtain ⟨hfollows, hle, -⟩ := h
    have hle' : i ≤ Cursor.index (Cursor.close w.cursor) := (Cursor.Lawful.le_index_invariant i).close hle
    exact ⟨(follows_invariant bodies params).close hfollows, hle',
      fun _ => .inl (Cursor.Lawful.isClosed_close w.cursor)⟩

theorem Follows.once (h : Follows bodies params w) (hm : Misses bodies params cause w) (ops : List Operation)
    (op : Operation) (hi : (perform (run w.cursor ops) op).2.index = w.cursor.index) (cause' : String) :
    (perform (run w.cursor ops) op).1.fault ≠ some (.read cause') := by
  obtain ⟨hfollows, hle, hmissed⟩ := (missed_invariant bodies params cause w.cursor.index).run
    ⟨h, Nat.le_refl _, fun _ => .inr hm⟩ ops
  rw [← Cursor.Logged.cursor_run w ops] at hi ⊢
  generalize run w ops = w' at hfollows hle hmissed hi ⊢
  have honward : w'.cursor.index ≤ (perform w'.cursor op).2.index :=
    (Cursor.Lawful.le_index_invariant w'.cursor.index).perform (c := w'.cursor) (Nat.le_refl _) op
  have hstill : w'.cursor.index = w.cursor.index := by omega
  rw [← Cursor.Logged.perform_fst]
  intro hfault
  obtain ⟨hmisses, hfirst⟩ := (hfollows.reported op cause').mp hfault
  rw [Cursor.Logged.cursor_perform] at hfirst
  rcases hmissed hstill with hclosed | ⟨hopen, b, hb, hlt, -⟩
  · refine not_misses_of_closed ?_ hmisses
    rw [Cursor.Logged.cursor_perform, (Cursor.Lawful.frozen hclosed).perform op]
    exact hclosed
  · -- The read that failed is the same, so that it was missed before.
    obtain ⟨-, b', hb', -, hstop⟩ := hmisses
    rw [Cursor.Logged.cursor_perform, hi, ← hstill, hb] at hb'
    cases hb'
    exact hfirst (hi.trans hstill.symm) ⟨hopen, b, hb, hlt, hstop⟩

/-- Reads that fail are dealt with as they should be, whatever was done before. -/
theorem Follows.endures (h : Follows bodies params w) : Endures bodies params w where
  reported op cause := by
    rw [← Cursor.Logged.perform_fst]
    exact h.reported op cause
  once cause hm := h.once hm
  exhausted cause hm := h.exhausted hm

end StreamingCursor

end Rowset
