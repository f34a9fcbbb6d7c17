import Rowset.Proofs.Cursor.Lifecycle

/-!
# A streaming cursor owns its bodies

A body is held until the cursor leaves its result set, and given up then, once.  So the bodies that an open cursor
gave up are those before its current one, and a closed cursor gave up all of them.  No error makes a difference to
this.  The main statement is `StreamingCursor.ownership`.
-/

namespace Rowset

namespace StreamingCursor

open Cursor (perform run release stream)

variable {c c' : StreamingCursor} {bodies : List Body} {params : StreamParams} {n : Nat}

/-- What a cursor over `n` bodies holds and what it gave up, by the numbers of the bodies. -/
structure Accounts (n : Nat) (c : StreamingCursor) : Prop where
  opened : c.closed = false → c.released = List.range c.index ∧ c.current.map (·.position) = some c.index ∧
    c.remaining.map (·.position) = List.range' (c.index + 1) c.remaining.length ∧
    c.index + 1 + c.remaining.length = n
  closed : c.closed = true → c.released = List.range n ∧ c.current = none ∧ c.remaining = []

/-- The bodies that an operation gives up, of `n` in all. -/
def givesUp (n : Nat) (c : StreamingCursor) : Operation → List Nat
  | .nextResultSet => if c.closed then [] else [c.index]
  | .close => if c.closed then [] else List.range' c.index (n - c.index)
  | .columns | .next | .nextInto _ | .fetchAll => []

/-- How a cursor over `n` bodies deals with them: it gives up each of them once, in their order, when it leaves the
result set or is closed, and none is left when it is closed or given up itself. -/
structure Owns (n : Nat) (c : StreamingCursor) : Prop where
  accounts : Accounts n c
  once : c.released.Nodup
  step : ∀ op, (perform c op).2.released = c.released ++ givesUp n c op
  closing : ∀ op, op = .close ∨ (perform c op).1 = .nextResultSet (.ok false) →
    (perform c op).2.released = List.range n
  dropped : (release c).released = List.range n
  streamed : (stream c).2.released = List.range n

/-! ## Accounts -/

theorem range_split {i : Nat} (h : i ≤ n) : List.range n = List.range i ++ List.range' i (n - i) := by
  have happend := List.range'_append_1 (s := 0) (m := i) (n := n - i)
  rw [Nat.zero_add, Nat.add_sub_cancel' h] at happend
  rw [List.range_eq_range', List.range_eq_range', happend]

theorem accounts_ofBodies (bodies : List Body) (params : StreamParams) :
    Accounts bodies.length (ofBodies bodies params) := by
  cases bodies with
  | nil => exact ⟨nofun, fun _ => ⟨rfl, rfl, rfl⟩⟩
  | cons b bodies =>
    have hpositions := map_position_segmentsOf (b :: bodies)
    have hlength : (segmentsOf (b :: bodies)).length = bodies.length + 1 := by simp [segmentsOf]
    have hcurrent := (fresh_ofBodies b bodies params).current
    refine ⟨fun _ => ⟨rfl, by rw [hcurrent]; rfl, ?_, ?_⟩, fun hc => absurd hc ?_⟩
    · show (segmentsOf (b :: bodies)).tail.map (·.position) = List.range' 1 (segmentsOf (b :: bodies)).tail.length
      rw [List.map_tail, hpositions, List.length_tail, hlength, List.length_cons, List.range_eq_range',
        List.tail_range']
    · show 0 + 1 + (segmentsOf (b :: bodies)).tail.length = bodies.length + 1
      rw [List.length_tail, hlength]
      omega
    · rw [(fresh_ofBodies b bodies params).opened]
      decide

/-- Within a result set nothing is given up. -/
theorem Accounts.of_sameSet (h : Accounts n c) (hsame : SameSet c c') : Accounts n c' := by
  refine ⟨fun hc => ?_, fun hc => ?_⟩
  · rw [hsame.released, hsame.index, hsame.position, hsame.remaining]
    exact h.opened (hsame.closed ▸ hc)
  · obtain ⟨hreleased, hcurrent, hremaining⟩ := h.closed (hsame.closed ▸ hc)
    have hposition := hsame.position
    rw [hcurrent] at hposition
    exact ⟨hsame.released.trans hreleased, Option.map_eq_none_iff.mp hposition, hsame.remaining.trans hremaining⟩

/-- Leaving a result set gives up its body. -/
theorem Accounts.released_leave (h : Accounts n c) (hc : c.closed = false) :
    c.leave.released = List.range (c.index + 1) := by
  obtain ⟨hreleased, hcurrent, -, -⟩ := h.opened hc
  show c.released ++ (c.current.map (·.position)).toList = _
  rw [hreleased, hcurrent, List.range_succ]
  rfl

/-- Giving a cursor up leaves no body behind. -/
theorem Accounts.released_release (h : Accounts n c) : c.release.released = List.range n := by
  show c.leave.released ++ c.remaining.map (·.position) = _
  cases hc : c.closed with
  | true =>
    obtain ⟨hreleased, hcurrent, hremaining⟩ := h.closed hc
    show (c.released ++ (c.current.map (·.position)).toList) ++ c.remaining.map (·.position) = _
    rw [hreleased, hcurrent, hremaining]
    simp
  | false =>
    obtain ⟨-, -, hremaining, hcount⟩ := h.opened hc
    rw [h.released_leave hc, hremaining, range_split (by omega : c.index + 1 ≤ n), ← hcount, Nat.add_sub_cancel_left]

theorem Accounts.entered {s : Segment} {rest : List Segment} (h : Accounts n c) (hc : c.closed = false)
    (hr : c.remaining = s :: rest) : Accounts n (c.entered s rest) := by
  obtain ⟨-, -, hremaining, hcount⟩ := h.opened hc
  rw [hr, List.length_cons] at hremaining hcount
  obtain ⟨hs, hrest⟩ := List.cons.inj hremaining
  refine ⟨fun _ => ⟨h.released_leave hc, congrArg some hs, hrest, ?_⟩, fun hclosed => ?_⟩
  · show c.index + 1 + 1 + rest.length = n
    omega
  · rw [show (c.entered s rest).closed = false from hc] at hclosed
    cases hclosed

theorem accounts_invariant (n : Nat) : Cursor.Invariant (Accounts n) :=
  invariant_of_steps (fun h => h.of_sameSet (sameSet_ensureStarted _)) (fun h => h.of_sameSet (sameSet_next _))
    Accounts.entered fun h _ => ⟨nofun, fun _ => ⟨h.released_release, rfl, rfl⟩⟩

/-! ## One step -/

theorem Accounts.released_close (h : Accounts n c) : c.close.released = c.released ++ givesUp n c .close := by
  cases hc : c.closed with
  | true =>
    rw [close_closed hc, givesUp, if_pos hc, List.append_nil]
  | false =>
    obtain ⟨hreleased, -, -, hcount⟩ := h.opened hc
    have hsplit := range_split (by omega : c.index ≤ n)
    rw [close_open hc, givesUp, if_neg (ne_true_of_eq_false hc), hreleased, ← hsplit]
    exact h.released_release

/-- Going on gives up the body that is left, also when the one behind it cannot be opened. -/
theorem Accounts.released_nextResultSet (h : Accounts n c) :
    c.nextResultSet.2.released = c.released ++ givesUp n c .nextResultSet := by
  unfold givesUp
  cases hc : c.closed with
  | true => rw [nextResultSet_closed hc, if_pos rfl, List.append_nil]
  | false =>
    have hleave : c.leave.released = c.released ++ [c.index] := by
      rw [h.released_leave hc, (h.opened hc).1, List.range_succ]
    rw [if_neg nofun, ← hleave]
    cases hr : c.remaining with
    | nil => rw [nextResultSet_last hc hr]
    | cons s rest =>
      rw [nextResultSet_more hc hr]
      exact (sameSet_ensureStarted (c.entered s rest)).released

theorem Accounts.released_perform (h : Accounts n c) (op : Operation) :
    (perform c op).2.released = c.released ++ givesUp n c op := by
  cases op with
  | columns => exact (sameSet_columns c).released.trans (List.append_nil _).symm
  | next => exact (sameSet_next c).released.trans (List.append_nil _).symm
  | nextInto dest =>
    show (Cursor.nextInto c dest).2.released = _
    rw [Cursor.nextInto_eq]
    exact (sameSet_next c).released.trans (List.append_nil _).symm
  | fetchAll =>
    have hkeeps : (Cursor.fetch (Cursor.rowBound c + 1) [] c).2.released = c.released :=
      Cursor.fetch_keeps (P := fun d : StreamingCursor => d.released = c.released)
        (fun hd => (sameSet_next _).released.trans hd) rfl _ []
    exact hkeeps.trans (List.append_nil _).symm
  | nextResultSet => exact h.released_nextResultSet
  | close => exact h.released_close

theorem Accounts.owns (h : Accounts n c) : Owns n c where
  accounts := h
  once := by
    cases hc : c.closed with
    | true =>
      rw [(h.closed hc).1]
      exact List.nodup_range
    | false =>
      rw [(h.opened hc).1]
      exact List.nodup_range
  step := h.released_perform
  closing op hop := by
    have hafter : Accounts n (perform c op).2 := (accounts_invariant n).perform h op
    refine (hafter.closed ?_).1
    cases hc : c.closed with
    | true =>
      rw [(Cursor.Lawful.frozen hc).perform]
      exact hc
    | false => exact (Cursor.Lawful.isClosed_perform hc op).mpr hop
  dropped := h.released_release
  streamed :=
    Accounts.released_release (Cursor.answers_keeps (accounts_invariant n).next h (Cursor.rowBound c + 1) [])

/-- Whatever is done with a cursor over bodies, it owns them as it should. -/
theorem ownership (bodies : List Body) (params : StreamParams) :
    (bodies = [] → (ofBodies bodies params).closed = true) ∧
      ∀ ops, Owns bodies.length (run (ofBodies bodies params) ops) := by
  refine ⟨?_, fun ops => ?_⟩
  · rintro rfl
    rfl
  · exact ((accounts_invariant bodies.length).run (accounts_ofBodies bodies params) ops).owns

/-- A body that cannot be read, a body that is left in the middle, and a body that is never looked at. -/
def ownedBodies : List Body :=
  [⟨[], [.failure "reset"]⟩, sampleBody, sampleBody]

theorem ownership_sample :
    ([] : List Body) = [] ∧ (ofBodies []).closed = true ∧
      (run (ofBodies ownedBodies) [.fetchAll, .nextResultSet, .next]).released = [0] ∧
      (perform (run (ofBodies ownedBodies) [.fetchAll, .nextResultSet, .next]) .close).2.released = [0, 1, 2] ∧
      (stream (run (ofBodies ownedBodies) [])).2.released = [0, 1, 2] := by
  refine ⟨rfl, (ownership [] {}).1 rfl, by decide +kernel, ?_, ?_⟩
  · exact ((ownership ownedBodies {}).2 [.fetchAll, .nextResultSet, .next]).closing .close (.inl rfl)
  · exact ((ownership ownedBodies {}).2 []).streamed

end StreamingCursor

end Rowset
