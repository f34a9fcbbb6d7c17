import Mathlib.Tactic.Common
import Rowset.Cursor.Basic

/-!
# What a caller sees of a cursor

A caller performs operations, one after the other, and sees their answers and what can be asked of the cursor in
between.  This module says once what holds for all cursors:

* `Invariant`: what the four basic operations keep is kept by every sequence of operations;
* `Simulation`: cursors that answer the basic operations alike, and stay related, answer every sequence of
  operations alike.

Taking all rows at once goes on for at most `rowBound` rounds.  `Bounded` says that this is enough.
-/

namespace Rowset

/-- The operations of a caller. -/
inductive Operation where
  | columns
  | next
  | nextInto (dest : List Value)
  | fetchAll
  | nextResultSet
  | close

/-- What the operations answer. -/
inductive Answer where
  | columns (answer : Except Error Schema)
  | next (answer : Except Error (Option Row))
  | nextInto (answer : Except Error Bool × List Value)
  | fetchAll (answer : Except Error (List Row))
  | nextResultSet (answer : Except Error Bool)
  | close

/-- What can be asked of a cursor at any time. -/
structure View where
  rowCount : Nat
  closed : Bool
  hasNextResultSet : Bool
  index : Nat
deriving DecidableEq

namespace Cursor

variable {σ τ : Type} [Cursor σ] [Cursor τ]

/-- One operation. -/
def perform (c : σ) : Operation → Answer × σ
  | .columns => (.columns (columns c).1, (columns c).2)
  | .next => (.next (next c).1, (next c).2)
  | .nextInto dest => (.nextInto (nextInto c dest).1, (nextInto c dest).2)
  | .fetchAll => (.fetchAll (fetchAll c).1, (fetchAll c).2)
  | .nextResultSet => (.nextResultSet (nextResultSet c).1, (nextResultSet c).2)
  | .close => (.close, close c)

/-- What can be seen of a cursor. -/
def view (c : σ) : View :=
  ⟨rowCount c, isClosed c, hasNextResultSet c, index c⟩

/-- The answers to a sequence of operations, each with what can be seen of the cursor behind it. -/
def trace (c : σ) : List Operation → List (Answer × View)
  | [] => []
  | op :: ops => ((perform c op).1, view (perform c op).2) :: trace (perform c op).2 ops

/-- The cursor after a sequence of operations. -/
def run (c : σ) : List Operation → σ
  | [] => c
  | op :: ops => run (perform c op).2 ops

/-! ## Rounds that take one row -/

theorem fetch_succ (fuel : Nat) (seen : List Row) (c : σ) :
    fetch (fuel + 1) seen c =
      match (next c).1 with
      | .ok (some row) => fetch fuel (row :: seen) (next c).2
      | .ok none => (.ok seen.reverse, (next c).2)
      | .error e => (.error e, (next c).2) := by
  rw [fetch]
  obtain ⟨answer, c'⟩ := next c
  cases answer with
  | error e => rfl
  | ok row? => cases row? <;> rfl

theorem answers_succ (fuel : Nat) (seen : List (Except Error Row)) (c : σ) :
    answers (fuel + 1) seen c =
      match (next c).1 with
      | .ok (some row) => answers fuel (.ok row :: seen) (next c).2
      | .ok none => (seen.reverse, (next c).2)
      | .error e => ((.error e :: seen).reverse, (next c).2) := by
  rw [answers]
  obtain ⟨answer, c'⟩ := next c
  cases answer with
  | error e => rfl
  | ok row? => cases row? <;> rfl

theorem nextInto_eq (c : σ) (dest : List Value) :
    nextInto c dest =
      (match (next c).1 with
        | .ok (some row) => (.ok true, row.values)
        | .ok none => (.ok false, dest)
        | .error e => (.error e, dest), (next c).2) := by
  unfold nextInto
  obtain ⟨answer, c'⟩ := next c
  cases answer with
  | error e => rfl
  | ok row? => cases row? <;> rfl

/-! ## Properties that operations keep -/

/-- What `next` keeps is kept by taking all rows. -/
theorem fetch_keeps {P : σ → Prop} (h : ∀ {c : σ}, P c → P (next c).2) {c : σ} (hc : P c) (fuel : Nat)
    (seen : List Row) : P (fetch fuel seen c).2 := by
  induction fuel generalizing seen c with
  | zero => exact hc
  | succ fuel ih =>
    rw [fetch_succ]
    have hnext := h hc
    cases (next c).1 with
    | error e => exact hnext
    | ok row? =>
      cases row? with
      | none => exact hnext
      | some row => exact ih hnext (row :: seen)

theorem answers_keeps {P : σ → Prop} (h : ∀ {c : σ}, P c → P (next c).2) {c : σ} (hc : P c) (fuel : Nat)
    (seen : List (Except Error Row)) : P (answers fuel seen c).2 := by
  induction fuel generalizing seen c with
  | zero => exact hc
  | succ fuel ih =>
    rw [answers_succ]
    have hnext := h hc
    cases (next c).1 with
    | error e => exact hnext
    | ok row? =>
      cases row? with
      | none => exact hnext
      | some row => exact ih hnext (.ok row :: seen)

/-- The basic operations keep a property of cursors. -/
structure Invariant (P : σ → Prop) : Prop where
  columns : ∀ {c : σ}, P c → P (columns c).2
  next : ∀ {c : σ}, P c → P (next c).2
  nextResultSet : ∀ {c : σ}, P c → P (nextResultSet c).2
  close : ∀ {c : σ}, P c → P (close c)

namespace Invariant

variable {P : σ → Prop} {c : σ}

theorem perform (h : Invariant P) (hc : P c) (op : Operation) : P (Cursor.perform c op).2 := by
  cases op with
  | columns => exact h.columns hc
  | next => exact h.next hc
  | nextInto dest =>
    show P (Cursor.nextInto c dest).2
    rw [nextInto_eq]
    exact h.next hc
  | fetchAll => exact fetch_keeps h.next hc (rowBound c + 1) []
  | nextResultSet => exact h.nextResultSet hc
  | close => exact h.close hc

/-- So does every sequence of operations. -/
theorem run (h : Invariant P) (hc : P c) (ops : List Operation) : P (Cursor.run c ops) := by
  induction ops generalizing c with
  | nil => exact hc
  | cons op ops ih => exact ih (h.perform hc op)

end Invariant

/-! ## Enough rounds -/

/-- No more rows are left in the current result set of a cursor than its bound says: every row that `next` gives
takes something away from `ahead`. -/
class Bounded (σ : Type) [Cursor σ] where
  ahead : σ → Nat
  ahead_next : ∀ {c : σ} {row : Row}, (next c).1 = .ok (some row) → ahead (next c).2 < ahead c
  ahead_le : ∀ c : σ, ahead c ≤ rowBound c

open Bounded

/-! ## Cursors that answer alike -/

/-- The basic operations answer the same for related cursors and leave related cursors. -/
structure Simulation (R : σ → τ → Prop) : Prop where
  columns : ∀ {c : σ} {d : τ}, R c d → (columns c).1 = (columns d).1 ∧ R (columns c).2 (columns d).2
  next : ∀ {c : σ} {d : τ}, R c d → (next c).1 = (next d).1 ∧ R (next c).2 (next d).2
  nextResultSet : ∀ {c : σ} {d : τ},
    R c d → (nextResultSet c).1 = (nextResultSet d).1 ∧ R (nextResultSet c).2 (nextResultSet d).2
  close : ∀ {c : σ} {d : τ}, R c d → R (close c) (close d)

/-- The same as long as `G` holds: an operation behind which `G` holds of the first cursor answers the same for
related cursors and leaves related cursors.  Asking for a row does not bring `G` about. -/
structure SimulationWhile (G : σ → Prop) (R : σ → τ → Prop) : Prop where
  columns : ∀ {c : σ} {d : τ}, R c d → G (columns c).2 →
    (columns c).1 = (columns d).1 ∧ R (columns c).2 (columns d).2
  next : ∀ {c : σ} {d : τ}, R c d → G (next c).2 → (next c).1 = (next d).1 ∧ R (next c).2 (next d).2
  nextResultSet : ∀ {c : σ} {d : τ}, R c d → G (nextResultSet c).2 →
    (nextResultSet c).1 = (nextResultSet d).1 ∧ R (nextResultSet c).2 (nextResultSet d).2
  close : ∀ {c : σ} {d : τ}, R c d → G (close c) → R (close c) (close d)
  before_next : ∀ {c : σ}, G (Cursor.next c).2 → G c

namespace SimulationWhile

variable {G : σ → Prop} {R : σ → τ → Prop} {c : σ} {d : τ}

theorem nextInto (h : SimulationWhile G R) (hr : R c d) (dest : List Value)
    (hg : G (Cursor.nextInto c dest).2) :
    (Cursor.nextInto c dest).1 = (Cursor.nextInto d dest).1 ∧
      R (Cursor.nextInto c dest).2 (Cursor.nextInto d dest).2 := by
  rw [nextInto_eq] at hg
  obtain ⟨hanswer, hnext⟩ := h.next hr hg
  rw [nextInto_eq, nextInto_eq, ← hanswer]
  exact ⟨rfl, hnext⟩

/-- If `G` holds behind all rows, it did so before them. -/
theorem before_fetch (h : SimulationWhile G R) (fuel : Nat) (seen : List Row)
    (hg : G (Cursor.fetch fuel seen c).2) : G c := by
  by_contra hc
  exact fetch_keeps (P := fun c => ¬ G c) (fun hc hg => hc (h.before_next hg)) hc fuel seen hg

variable [Bounded σ] [Bounded τ]

/-- The number of rounds does not matter if it is enough on both sides. -/
theorem fetch (h : SimulationWhile G R) (hr : R c d) {fuel fuel' : Nat} (hc : ahead c < fuel)
    (hd : ahead d < fuel') (seen : List Row) (hg : G (Cursor.fetch fuel seen c).2) :
    (Cursor.fetch fuel seen c).1 = (Cursor.fetch fuel' seen d).1 ∧
      R (Cursor.fetch fuel seen c).2 (Cursor.fetch fuel' seen d).2 := by
  induction fuel generalizing fuel' seen c d with
  | zero => omega
  | succ fuel ih =>
    obtain ⟨fuel', rfl⟩ : ∃ n, fuel' = n + 1 := ⟨fuel' - 1, by omega⟩
    rw [fetch_succ] at hg
    rw [fetch_succ, fetch_succ]
    cases hn : (Cursor.next c).1 with
    | error e =>
      rw [hn] at hg
      obtain ⟨hanswer, hnext⟩ := h.next hr hg
      rw [← hanswer, hn]
      exact ⟨rfl, hnext⟩
    | ok row? =>
      rw [hn] at hg
      cases row? with
      | none =>
        obtain ⟨hanswer, hnext⟩ := h.next hr hg
        rw [← hanswer, hn]
        exact ⟨rfl, hnext⟩
      | some row =>
        obtain ⟨hanswer, hnext⟩ := h.next hr (h.before_fetch fuel _ hg)
        have hlt := ahead_next hn
        have hlt' := ahead_next (hanswer.symm.trans hn)
        rw [← hanswer, hn]
        exact ih hnext (by omega) (by omega) (row :: seen) hg

/-- An operation behind which `G` holds answers the same for related cursors and leaves related cursors. -/
theorem perform (h : SimulationWhile G R) (hr : R c d) (op : Operation) (hg : G (Cursor.perform c op).2) :
    (Cursor.perform c op).1 = (Cursor.perform d op).1 ∧
      R (Cursor.perform c op).2 (Cursor.perform d op).2 := by
  cases op with
  | columns => exact ⟨congrArg Answer.columns (h.columns hr hg).1, (h.columns hr hg).2⟩
  | next => exact ⟨congrArg Answer.next (h.next hr hg).1, (h.next hr hg).2⟩
  | nextInto dest => exact ⟨congrArg Answer.nextInto (h.nextInto hr dest hg).1, (h.nextInto hr dest hg).2⟩
  | fetchAll =>
    obtain ⟨hanswer, hafter⟩ :=
      h.fetch hr (Nat.lt_succ_of_le (ahead_le c)) (Nat.lt_succ_of_le (ahead_le d)) [] hg
    exact ⟨congrArg Answer.fetchAll hanswer, hafter⟩
  | nextResultSet => exact ⟨congrArg Answer.nextResultSet (h.nextResultSet hr hg).1, (h.nextResultSet hr hg).2⟩
  | close => exact ⟨rfl, h.close hr hg⟩

/-- So does every sequence of operations behind each of which `G` holds. -/
theorem run (h : SimulationWhile G R) (hr : R c d) (ops : List Operation)
    (hg : ∀ i < ops.length, G (Cursor.run c (ops.take (i + 1)))) : R (Cursor.run c ops) (Cursor.run d ops) := by
  induction ops generalizing c d with
  | nil => exact hr
  | cons op ops ih =>
    exact ih (h.perform hr op (hg 0 (Nat.succ_pos _))).2 fun i hi => hg (i + 1) (Nat.succ_lt_succ hi)

theorem trace (h : SimulationWhile G R) (hview : ∀ {c : σ} {d : τ}, R c d → view c = view d) (hr : R c d)
    (ops : List Operation) (hg : ∀ i < ops.length, G (Cursor.run c (ops.take (i + 1)))) :
    Cursor.trace c ops = Cursor.trace d ops := by
  induction ops generalizing c d with
  | nil => rfl
  | cons op ops ih =>
    obtain ⟨hanswer, hafter⟩ := h.perform hr op (hg 0 (Nat.succ_pos _))
    unfold Cursor.trace
    rw [hanswer, hview hafter, ih hafter fun i hi => hg (i + 1) (Nat.succ_lt_succ hi)]

end SimulationWhile

namespace Simulation

variable {R : σ → τ → Prop} {c : σ} {d : τ}

/-- Cursors that always answer alike do so whatever else holds. -/
theorem whileTrue (h : Simulation R) : SimulationWhile (fun _ => True) R where
  columns hr _ := h.columns hr
  next hr _ := h.next hr
  nextResultSet hr _ := h.nextResultSet hr
  close hr _ := h.close hr
  before_next := id

variable [Bounded σ] [Bounded τ]

theorem answers (h : Simulation R) (hr : R c d) {fuel fuel' : Nat} (hc : ahead c < fuel)
    (hd : ahead d < fuel') (seen : List (Except Error Row)) :
    (Cursor.answers fuel seen c).1 = (Cursor.answers fuel' seen d).1 ∧
      R (Cursor.answers fuel seen c).2 (Cursor.answers fuel' seen d).2 := by
  induction fuel generalizing fuel' seen c d with
  | zero => omega
  | succ fuel ih =>
    obtain ⟨fuel', rfl⟩ : ∃ n, fuel' = n + 1 := ⟨fuel' - 1, by omega⟩
    obtain ⟨hanswer, hnext⟩ := h.next hr
    rw [answers_succ, answers_succ, ← hanswer]
    cases hn : (Cursor.next c).1 with
    | error e => exact ⟨rfl, hnext⟩
    | ok row? =>
      cases row? with
      | none => exact ⟨rfl, hnext⟩
      | some row =>
        have hlt := ahead_next hn
        have hlt' := ahead_next (hanswer.symm.trans hn)
        exact ih hnext (by omega) (by omega) (.ok row :: seen)

/-- Every operation answers the same for related cursors and leaves related cursors. -/
theorem perform (h : Simulation R) (hr : R c d) (op : Operation) :
    (Cursor.perform c op).1 = (Cursor.perform d op).1 ∧
      R (Cursor.perform c op).2 (Cursor.perform d op).2 :=
  h.whileTrue.perform hr op trivial

theorem run (h : Simulation R) (hr : R c d) (ops : List Operation) :
    R (Cursor.run c ops) (Cursor.run d ops) :=
  h.whileTrue.run hr ops fun _ _ => trivial

theorem trace (h : Simulation R) (hview : ∀ {c : σ} {d : τ}, R c d → view c = view d) (hr : R c d)
    (ops : List Operation) : Cursor.trace c ops = Cursor.trace d ops :=
  h.whileTrue.trace hview hr ops fun _ _ => trivial

end Simulation

/-! ## Cursors that cannot be told apart -/

/-- No sequence of operations tells two cursors apart: whatever was done before, the next operation answers the
same, so does taking the rows one by one up to the end, and what `sight` shows of the cursors is the same, also
once they are given up. -/
structure Indistinguishable {α : Type} (sight : σ → α) (c d : σ) : Prop where
  answer : ∀ ops op, (perform (run c ops) op).1 = (perform (run d ops) op).1
  state : ∀ ops, sight (run c ops) = sight (run d ops)
  items : ∀ ops, (stream (run c ops)).1 = (stream (run d ops)).1
  streamed : ∀ ops, sight (stream (run c ops)).2 = sight (stream (run d ops)).2
  dropped : ∀ ops, sight (release (run c ops)) = sight (release (run d ops))

theorem Simulation.indistinguishable [Bounded σ] {α : Type} {R : σ → σ → Prop} {sight : σ → α} {c d : σ}
    (h : Simulation R) (hsight : ∀ {c d : σ}, R c d → sight c = sight d)
    (hrelease : ∀ {c d : σ}, R c d → sight (release c) = sight (release d)) (hr : R c d) :
    Indistinguishable sight c d := by
  have hstream : ∀ ops, (stream (Cursor.run c ops)).1 = (stream (Cursor.run d ops)).1 ∧
      sight (stream (Cursor.run c ops)).2 = sight (stream (Cursor.run d ops)).2 := by
    intro ops
    obtain ⟨hitems, hafter⟩ := h.answers (h.run hr ops) (Nat.lt_succ_of_le (ahead_le _))
      (Nat.lt_succ_of_le (ahead_le _)) []
    exact ⟨hitems, hrelease hafter⟩
  exact
    { answer := fun ops op => (h.perform (h.run hr ops) op).1
      state := fun ops => hsight (h.run hr ops)
      items := fun ops => (hstream ops).1
      streamed := fun ops => (hstream ops).2
      dropped := fun ops => hrelease (h.run hr ops) }

end Cursor

end Rowset
