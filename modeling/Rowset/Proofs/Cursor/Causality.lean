import Rowset.Proofs.Cursor.Apart
import Rowset.Proofs.Cursor.Failure
import Rowset.Proofs.Cursor.Likeness

/-!
# Nothing is read before it is needed

Two bodies may share their first reads and go on differently behind them.  As long as a caller needs no more records
than are complete in the reads that they share, it cannot tell cursors over the two apart, and neither cursor has
read anything of what is different.  The main statement is `StreamingCursor.causality`.
-/

namespace Rowset

open Body (Parted)

/-- Two bodies that begin with the same reads.  The first `count` of their records are complete in these, unless the
bodies are the same altogether. -/
structure Fork (limit : Nat) where
  shared : Body.Front
  more : List Chunk
  more' : List Chunk
  count : Nat
  complete : more = more' ∨ count ≤ (Body.completed limit shared.text).length

namespace Fork

variable {limit : Nat}

def left (f : Fork limit) : Body :=
  f.shared.followedBy f.more

def right (f : Fork limit) : Body :=
  f.shared.followedBy f.more'

theorem parted (f : Fork limit) : Parted limit f.more f.more' f.count f.left f.right := by
  rcases f.complete with hsame | hcomplete
  · have hright : f.right = f.left := congrArg f.shared.followedBy hsame.symm
    rw [hright]
    exact .same hsame
  · exact .front hcomplete

end Fork

namespace StreamingCursor

open Cursor (Logged logged run perform trace)

variable {m : Nat} {c' d' : StreamingCursor} {params : StreamParams} {forks : List (Fork params.maxLineLength)}
  {w w' : Logged StreamingCursor}

/-- What was asked of the current result set needs no more records of the body on the left than the one on the right
has as well. -/
def Suffices (forks : List (Fork params.maxLineLength)) (w : Logged StreamingCursor) : Prop :=
  w.cursor.closed = false → ∀ f, forks[w.cursor.index]? = some f →
    (f.left.transcript params.maxLineLength).needed w.asked ≤ f.count

/-- A cursor over the bodies on the left and one over those on the right of which the same was asked. -/
structure Beside (forks : List (Fork params.maxLineLength)) (w : Logged StreamingCursor) (c' : StreamingCursor) :
    Prop where
  follows : Follows (forks.map Fork.left) params w
  queued : Queued (segmentsOf (forks.map Fork.right)) params c'
  closed : w.cursor.closed = true → c' = w.cursor
  opened : w.cursor.closed = false → ∀ f, forks[w.cursor.index]? = some f →
    Apart f.more f.more' (f.count - (f.left.transcript params.maxLineLength).needed w.asked) w.cursor c'

/-- An open cursor reads one of the two bodies of a fork. -/
theorem Beside.exists_fork (h : Beside forks w c') (hc : w.cursor.closed = false) :
    ∃ f set, forks[w.cursor.index]? = some f ∧ (forks.map Fork.left)[w.cursor.index]? = some f.left ∧
      Sits set w.cursor := by
  obtain ⟨b, hb, hsits⟩ := h.follows.stands.sits hc
  have hleft := hb
  rw [List.getElem?_map, Option.map_eq_some_iff] at hb
  obtain ⟨f, hf, rfl⟩ := hb
  exact ⟨f, _, hf, hleft, hsits⟩

/-- Within a result set. -/
theorem Beside.within {α : Type} {a a' : α} (h : Beside forks w c')
    (hfollows : Follows (forks.map Fork.left) params w')
    (hqueued : Queued (segmentsOf (forks.map Fork.right)) params d')
    (hsame : SameSet w.cursor w'.cursor) (hasked : w'.asked = some (w.asked.getD 0 + m)) (hfits : Suffices forks w')
    (hclosed : w.cursor.closed = true → c' = w.cursor → a = a' ∧ d' = w'.cursor)
    (hopen : ∀ {more more' n set}, Sits set w.cursor → Apart more more' n w.cursor c' → w.cursor.demand m ≤ n →
      a = a' ∧ Apart more more' (n - w.cursor.demand m) w'.cursor d') :
    a = a' ∧ Beside forks w' d' := by
  cases hc : w.cursor.closed with
  | true =>
    obtain ⟨hanswer, hafter⟩ := hclosed hc (h.closed hc)
    have hc' := hsame.closed.trans hc
    exact ⟨hanswer, hfollows, hqueued, fun _ => hafter, fun ho => absurd (hc'.symm.trans ho) nofun⟩
  | false =>
    have hc' := hsame.closed.trans hc
    obtain ⟨f, set, hf, hleft, hsits⟩ := h.exists_fork hc
    have hf' : forks[w'.cursor.index]? = some f := hsame.index.symm ▸ hf
    have hneeded := (h.follows.tied hc f.left hleft).needed m
    rw [← hasked] at hneeded
    have hle := hfits hc' f hf'
    obtain ⟨hanswer, hafter⟩ := hopen hsits (h.opened hc f hf) (by omega)
    refine ⟨hanswer, hfollows, hqueued, fun ho => absurd (hc'.symm.trans ho) nofun, fun _ g hg => ?_⟩
    rw [hf'] at hg
    cases hg
    rw [hneeded, ← Nat.sub_sub]
    exact hafter

theorem Beside.rest (h : Beside forks w c') : c' = w.cursor.withBodies c'.current c'.remaining := by
  cases hc : w.cursor.closed with
  | true =>
    rw [h.closed hc]
    rfl
  | false =>
    obtain ⟨f, -, hf, -⟩ := h.exists_fork hc
    exact (h.opened hc f hf).rest

theorem Beside.position (h : Beside forks w c') :
    c'.current.map (·.position) = w.cursor.current.map (·.position) := by
  cases hc : w.cursor.closed with
  | true => rw [h.closed hc]
  | false =>
    obtain ⟨f, -, hf, -⟩ := h.exists_fork hc
    obtain ⟨-, p, b, b', hcurrent, hcurrent', -⟩ := h.opened hc f hf
    rw [hcurrent, hcurrent']
    rfl

theorem Beside.index_eq (h : Beside forks w c') : c'.index = w.cursor.index := by
  rw [h.rest]
  rfl

theorem Beside.closed_eq (h : Beside forks w c') : c'.closed = w.cursor.closed := by
  rw [h.rest]
  rfl

/-- The bodies that are waiting are those of the forks that follow. -/
theorem Beside.remaining (h : Beside forks w c') (hc : w.cursor.closed = false) :
    w.cursor.remaining = (segmentsOf (forks.map Fork.left)).drop (w.cursor.index + 1) ∧
      c'.remaining = (segmentsOf (forks.map Fork.right)).drop (w.cursor.index + 1) := by
  refine ⟨h.follows.stands.queued.remaining hc, ?_⟩
  rw [← h.index_eq]
  exact h.queued.remaining (h.closed_eq.trans hc)

theorem Beside.waiting (h : Beside forks w c') :
    c'.remaining.map (·.position) = w.cursor.remaining.map (·.position) := by
  cases hc : w.cursor.closed with
  | true => rw [h.closed hc]
  | false =>
    obtain ⟨hremaining, hremaining'⟩ := h.remaining hc
    rw [hremaining, hremaining', List.map_drop, List.map_drop, map_position_segmentsOf, map_position_segmentsOf,
      List.length_map, List.length_map]

theorem Beside.leave (h : Beside forks w c') : c'.leave = w.cursor.leave.withBodies none c'.remaining := by
  unfold StreamingCursor.leave
  rw [h.position, h.rest]
  rfl

theorem Beside.release (h : Beside forks w c') : c'.release = w.cursor.release := by
  have hwaiting : (w.cursor.leave.withBodies none c'.remaining).remaining.map (·.position) =
      w.cursor.leave.remaining.map (·.position) := h.waiting
  unfold StreamingCursor.release
  rw [h.leave]
  dsimp only
  rw [hwaiting]
  rfl

theorem Beside.close (h : Beside forks w c') : Beside forks (Cursor.close w) c'.close := by
  have hfollows := (follows_invariant (forks.map Fork.left) params).close h.follows
  have hqueued : Queued _ params c'.close := (queued_invariant _ params).close h.queued
  have hclosed : (Cursor.close w).cursor.closed = true := Cursor.Lawful.isClosed_close w.cursor
  refine ⟨hfollows, hqueued, fun _ => ?_, fun ho => absurd (hclosed.symm.trans ho) nofun⟩
  show c'.close = w.cursor.close
  cases hc : w.cursor.closed with
  | true => rw [h.closed hc]
  | false => rw [close_open hc, close_open (h.closed_eq.trans hc), h.release]

/-- The bodies that come next are those of the next fork, of which nothing was read. -/
theorem Beside.entered {s s' : Segment} {rest rest' : List Segment} (h : Beside forks w c')
    (hc : w.cursor.closed = false) (hr : w.cursor.remaining = s :: rest) (hr' : c'.remaining = s' :: rest') :
    Beside forks { cursor := w.cursor.entered s rest } (c'.entered s' rest') := by
  have hc' := h.closed_eq.trans hc
  refine ⟨h.follows.entered hc hr, h.queued.entered hc' hr', fun ho => absurd (hc.symm.trans ho) nofun,
    fun _ f hf => ?_⟩
  have hs := h.follows.stands.queued.getElem?_next hc hr
  have hs' := h.queued.getElem?_next hc' hr'
  have hf : forks[w.cursor.index + 1]? = some f := hf
  rw [getElem?_segmentsOf, List.getElem?_map, hf] at hs
  rw [h.index_eq, getElem?_segmentsOf, List.getElem?_map, hf] at hs'
  obtain rfl := Option.some.inj hs
  obtain rfl := Option.some.inj hs'
  have hparted : Parted (w.cursor.entered ⟨w.cursor.index + 1, f.left⟩ rest).params.maxLineLength f.more f.more' f.count
      f.left f.right := by
    rw [show (w.cursor.entered _ rest).params = params from h.follows.stands.queued.params]
    exact f.parted
  refine ⟨?_, w.cursor.index + 1, f.left, f.right, rfl, rfl, hparted.of_le (Nat.zero_le _), fun _ => hparted⟩
  show c'.entered _ rest' = _
  unfold StreamingCursor.entered
  rw [h.leave, h.index_eq]
  rfl

/-- Cursors that are closed are the same. -/
theorem beside_of_closed (hfollows : Follows (forks.map Fork.left) params w')
    (hqueued : Queued (segmentsOf (forks.map Fork.right)) params d') (hc : w'.cursor.closed = true)
    (hsame : d' = w'.cursor) : Beside forks w' d' :=
  ⟨hfollows, hqueued, fun _ => hsame, fun ho => absurd (hc.symm.trans ho) nofun⟩

/-- Going on answers the same and leads to the next fork. -/
theorem Beside.nextResultSet (h : Beside forks w c') (hfits : Suffices forks (Cursor.nextResultSet w).2) :
    w.cursor.nextResultSet.1 = c'.nextResultSet.1 ∧ Beside forks (Cursor.nextResultSet w).2 c'.nextResultSet.2 := by
  have hfollows := h.follows.nextResultSet
  have hqueued : Queued _ params c'.nextResultSet.2 := (queued_invariant _ params).nextResultSet h.queued
  -- A closed cursor stays, one at the last result set is closed, and any other enters the fork that follows.
  cases hc : w.cursor.closed with
  | true =>
    have hclosed : (Cursor.nextResultSet w).2.cursor.closed = true := by
      show w.cursor.nextResultSet.2.closed = true
      rw [nextResultSet_closed hc]
      exact hc
    refine ⟨by rw [h.closed hc], beside_of_closed hfollows hqueued hclosed ?_⟩
    show c'.nextResultSet.2 = w.cursor.nextResultSet.2
    rw [h.closed hc]
  | false =>
    have hc' := h.closed_eq.trans hc
    have hwaiting := h.waiting
    match hr : w.cursor.remaining, hr' : c'.remaining with
    | [], [] =>
      have hlast := nextResultSet_last hc hr
      have hlast' := nextResultSet_last hc' hr'
      have hclosed : (Cursor.nextResultSet w).2.cursor.closed = true := by
        show w.cursor.nextResultSet.2.closed = true
        rw [hlast]
      refine ⟨by rw [hlast, hlast'], beside_of_closed hfollows hqueued hclosed ?_⟩
      show c'.nextResultSet.2 = w.cursor.nextResultSet.2
      rw [hlast, hlast', h.leave, hr']
      have hleave : w.cursor.leave.withBodies none [] = w.cursor.leave := by
        rw [← hr]
        rfl
      rw [hleave]
    | [], s' :: rest' => rw [hr, hr'] at hwaiting; cases hwaiting
    | s :: rest, [] => rw [hr, hr'] at hwaiting; cases hwaiting
    | s :: rest, s' :: rest' =>
      obtain ⟨hsame, -⟩ := meets_nextResultSet hc hr
      refine (h.entered hc hr hr').within (m := 0) hfollows hqueued hsame rfl hfits
        (fun ho => absurd (hc.symm.trans ho) nofun) fun _ hapart hn => ?_
      obtain ⟨hanswer, hafter⟩ := hapart.ensureStarted hn
      show _ ∧ Apart _ _ _ w.cursor.nextResultSet.2 _
      rw [nextResultSet_more hc hr, nextResultSet_more hc' hr', hanswer]
      exact ⟨rfl, hafter⟩

/-- As long as the complete records suffice, both cursors answer alike. -/
theorem beside_simulation (forks : List (Fork params.maxLineLength)) :
    Cursor.SimulationWhile (Suffices forks) (Beside forks) where
  columns {w c'} h hfits :=
    h.within (m := 0) ((follows_invariant _ params).columns h.follows) ((queued_invariant _ params).columns h.queued)
      (sameSet_columns w.cursor) rfl hfits (fun _ he => by rw [he]; exact ⟨rfl, rfl⟩)
      fun _ hapart hn => hapart.columns hn
  next {w c'} h hfits :=
    h.within (m := 1) ((follows_invariant _ params).next h.follows) ((queued_invariant _ params).next h.queued)
      (sameSet_next w.cursor) rfl hfits (fun _ he => by rw [he]; exact ⟨rfl, rfl⟩)
      fun hsits hapart hn => hapart.next hsits hn
  nextResultSet h hfits := h.nextResultSet hfits
  close h _ := h.close
  before_next {w} hfits hc f hf := by
    have hsame := sameSet_next w.cursor
    refine Nat.le_trans (Transcript.needed_le _ _) (hfits (hsame.closed.trans hc) f ?_)
    rw [← hf]
    exact congrArg (forks[·]?) hsame.index

theorem beside_ofBodies (forks : List (Fork params.maxLineLength)) :
    Beside forks (logged (ofBodies (forks.map Fork.left) params)) (ofBodies (forks.map Fork.right) params) := by
  have hfollows := follows_ofBodies (forks.map Fork.left) params
  have hqueued := queued_ofBodies (forks.map Fork.right) params
  cases forks with
  | nil => exact beside_of_closed hfollows hqueued rfl rfl
  | cons f forks =>
    have hfresh : (ofBodies (f.left :: forks.map Fork.left) params).Fresh ⟨0, f.left⟩ := fresh_ofBodies _ _ params
    have hfresh' : (ofBodies (f.right :: forks.map Fork.right) params).Fresh ⟨0, f.right⟩ := fresh_ofBodies _ _ params
    refine ⟨hfollows, hqueued, fun hc => absurd (hfresh.opened.symm.trans hc) nofun, fun _ g hg => ?_⟩
    obtain rfl := Option.some.inj hg
    refine ⟨?_, 0, f.left, f.right, hfresh.current, hfresh'.current, f.parted.of_le (Nat.zero_le _), fun _ => f.parted⟩
    have hclosed := hfresh'.opened.trans hfresh.opened.symm
    show { ofBodies (f.right :: forks.map Fork.right) params with
      closed := (ofBodies (f.right :: forks.map Fork.right) params).closed } = _
    rw [hclosed]
    rfl

/-! ## What can be told -/

/-- Nothing that can be seen tells two cursors apart, and what the bodies to be read do not share is not read. -/
structure Unaware (forks : List (Fork params.maxLineLength)) (c c' : StreamingCursor) : Prop where
  sight : c.sight = c'.sight
  tally : c.tally = c'.tally
  untouched : c.closed = false → ∃ f, forks[c.index]? = some f ∧ (f.more = f.more' ∨ ∃ front : Body.Front,
    c.current.map (·.body) = some (front.followedBy f.more) ∧ c'.current.map (·.body) = some (front.followedBy f.more'))
  waiting : c.closed = false → c.remaining = (segmentsOf (forks.map Fork.left)).drop (c.index + 1) ∧
    c'.remaining = (segmentsOf (forks.map Fork.right)).drop (c.index + 1)

theorem Beside.hasNextResultSet (h : Beside forks w c') : w.cursor.hasNextResultSet = c'.hasNextResultSet := by
  have hempty := congrArg List.isEmpty h.waiting
  rw [List.isEmpty_map, List.isEmpty_map] at hempty
  unfold StreamingCursor.hasNextResultSet
  rw [hempty, h.rest]
  rfl

theorem Beside.view (h : Beside forks w c') : Cursor.view w = Cursor.view c' := by
  show View.mk _ _ w.cursor.hasNextResultSet _ = View.mk _ _ c'.hasNextResultSet _
  rw [h.hasNextResultSet, h.rest]
  rfl

theorem Beside.unaware (h : Beside forks w c') : Unaware forks w.cursor c' where
  sight := by
    unfold StreamingCursor.sight
    rw [h.hasNextResultSet, h.rest]
    rfl
  tally := by
    rw [h.rest]
    rfl
  untouched hc := by
    obtain ⟨f, -, hf, -⟩ := h.exists_fork hc
    obtain ⟨-, p, b, b', hcurrent, hcurrent', hparted, -⟩ := h.opened hc f hf
    refine ⟨f, hf, ?_⟩
    rw [hcurrent, hcurrent']
    cases hparted with
    | same hsame => exact .inl hsame
    | front _ => exact .inr ⟨_, rfl, rfl⟩
  waiting := h.remaining

/-- Nothing is read before it is needed.  As long as a caller needs no more records than are complete in the reads that
two bodies share, cursors over them answer alike and neither has read what follows.  A read that fails is reported by
the operation that is the first to need a record behind it, and by no other. -/
theorem causality (params : StreamParams) :
    (∀ (forks : List (Fork params.maxLineLength)) (ops : List Operation),
      (∀ i, Suffices forks (run (logged (ofBodies (forks.map Fork.left) params)) (ops.take i))) →
        trace (ofBodies (forks.map Fork.left) params) ops = trace (ofBodies (forks.map Fork.right) params) ops ∧
          Unaware forks (run (ofBodies (forks.map Fork.left) params) ops)
            (run (ofBodies (forks.map Fork.right) params) ops)) ∧
    ∀ bodies ops, Endures bodies params (run (logged (ofBodies bodies params)) ops) := by
  refine ⟨fun forks ops hfits => ?_, fun bodies ops => ?_⟩
  · have hbeside := beside_ofBodies forks
    have hsimulation := beside_simulation forks
    have htrace := hsimulation.trace Beside.view hbeside ops fun i _ => hfits (i + 1)
    have hrun := (hsimulation.run hbeside ops fun i _ => hfits (i + 1)).unaware
    rw [Cursor.trace_logged] at htrace
    rw [Cursor.run_logged] at hrun
    exact ⟨htrace, hrun⟩
  · exact ((follows_invariant bodies params).run (follows_ofBodies bodies params) ops).endures

/-- A `START` in two reads and a block of one row.  Behind them, one body fails and the other goes on with a record
and something else. -/
def sampleFork : Fork ({} : StreamParams).maxLineLength where
  shared :=
    { chunks :=
        ["[\"START\",[[\"a\",".toUTF8.toList, "\"int\"]]]\n".toUTF8.toList, "[\"DATA\",[],[[1]]]\n".toUTF8.toList]
      nonempty := by decide +kernel }
  more := [.failure "reset"]
  more' := [.bytes "[\"DATA\",[],[[2]]]\n~".toUTF8.toList]
  count := 2
  complete := .inr (by decide +kernel)

theorem causality_sample :
    (∀ i, Suffices [sampleFork] (run (logged (ofBodies [sampleFork.left])) ([.columns, .next].take i))) ∧
      trace (ofBodies [sampleFork.left]) [.columns, .next] = trace (ofBodies [sampleFork.right]) [.columns, .next] ∧
      delivered (run (ofBodies [sampleFork.left]) [.columns]).next.1 = 1 ∧
      (perform (run (ofBodies [sampleFork.left]) [.columns, .next]) .next).1.fault = some (.read "reset") ∧
      delivered (run (ofBodies [sampleFork.right]) [.columns, .next]).next.1 = 1 := by
  have hsuffices : ∀ i, Suffices [sampleFork]
      (run (logged (ofBodies [sampleFork.left])) ([.columns, .next].take i)) := by
    intro i _ f hf
    obtain rfl := List.mem_singleton.mp (List.mem_of_getElem? hf)
    match i with
    | 0 => decide +kernel
    | 1 => decide +kernel
    | i + 2 =>
      rw [List.take_of_length_le (Nat.le_add_left 2 i)]
      decide +kernel
  refine ⟨hsuffices, ((causality {}).1 _ _ hsuffices).1, by decide +kernel, ?_, by decide +kernel⟩
  have hendures := (causality {}).2 [sampleFork.left] [.columns, .next]
  rw [← Cursor.run_logged]
  refine (hendures.reported .next "reset").mpr ⟨⟨by decide +kernel, sampleFork.left, ?_, by decide +kernel, ?_⟩, ?_⟩
  · rw [show (perform (run (logged (ofBodies [sampleFork.left])) [.columns, .next]) .next).2.cursor.index = 0 by
      decide +kernel]
    rfl
  · with_unfolding_all rfl
  · rintro - ⟨-, b, hb, hlt, -⟩
    obtain rfl := List.mem_singleton.mp (List.mem_of_getElem? hb)
    exact absurd hlt (by decide +kernel)

end StreamingCursor

end Rowset
