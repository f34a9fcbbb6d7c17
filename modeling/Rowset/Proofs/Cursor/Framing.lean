import Rowset.Proofs.Cursor.Likeness
import Rowset.Proofs.Wire.Lines

/-!
# Streaming cursors see lines only

A streaming cursor reads the lines of its bodies.  How reads cut a body, how much room is set aside for a line,
how lines end, and how many blank lines stand between them makes no difference to anything that it answers.
The main statement is `StreamingCursor.sees_lines_only`.
-/

namespace Rowset

/-- Two bodies with the same lines, each cut into reads in its own way. -/
def Body.SameLines (limit : Nat) (b b' : Body) : Prop :=
  ∃ bs bs', Cut bs b ∧ Cut bs' b' ∧ Relation.EqvGen (Relined limit) bs bs'

namespace StreamingCursor

variable {limit : Nat} {bodies bodies' : List Body}

theorem segments_alike (h : List.Forall₂ (Body.SameLines limit) bodies bodies') :
    List.Forall₂ (Segment.Alike limit) (bodies.mapIdx fun i b => ⟨i, b⟩) (bodies'.mapIdx fun i b => ⟨i, b⟩) := by
  rw [List.forall₂_iff_get] at h ⊢
  obtain ⟨hlength, hbodies⟩ := h
  refine ⟨by simpa using hlength, ?_⟩
  intro i hi hi'
  obtain ⟨bs, bs', hb, hb', hlines⟩ := hbodies i (by simpa using hi) (by simpa using hi')
  have hsame := (hb.transcript_relined hb' hlines).symm
  simp only [List.get_eq_getElem, List.getElem_mapIdx] at hsame ⊢
  exact ⟨rfl, hsame⟩

/-- Cursors over bodies with the same lines have the same future, whatever their capacities are. -/
theorem alike_ofBodies (h : List.Forall₂ (Body.SameLines limit) bodies bodies') (capacity capacity' : Nat) :
    Alike {} {} (ofBodies bodies ⟨limit, capacity⟩) (ofBodies bodies' ⟨limit, capacity'⟩) := by
  have hsegments := segments_alike h
  unfold ofBodies
  generalize (bodies.mapIdx fun i b => (⟨i, b⟩ : Segment)) = segments at hsegments
  generalize (bodies'.mapIdx fun i b => (⟨i, b⟩ : Segment)) = segments' at hsegments
  have hstart : ∀ {c c' : StreamingCursor}, c.tally = {} → c'.tally = {} → Tally.Abreast {} {} c.tally c'.tally := by
    intro c c' hc hc'
    rw [hc, hc']
    exact .refl {} {}
  cases hsegments with
  | nil =>
    exact
      { limit := rfl, position := rfl, unread := fun _ => rfl, remaining := .nil, phase := rfl, schema := rfl
        block := rfl, index := rfl, queryId := rfl, queryLabel := rfl, statistics := rfl, closed := rfl
        tally := hstart rfl rfl }
  | cons hs hrest =>
    exact
      { limit := rfl, position := congrArg some hs.position, unread := fun _ => hs.transcript, remaining := hrest
        phase := rfl, schema := rfl, block := rfl, index := rfl, queryId := rfl, queryLabel := rfl
        statistics := rfl, closed := rfl, tally := hstart rfl rfl }

/-- Records are lines.  Reading a body again and again, in reads of whatever size, tells what the lines of its
text give, up to the first error.  Cursors over bodies with the same lines cannot be told apart. -/
theorem sees_lines_only (limit : Nat) :
    (∀ bs b, Body.Cut bs b → ∀ k, (∀ j < k, ∀ e, (Body.lineAnswers limit bs)[j]? ≠ some (.error e)) →
      ((b.afterRecords limit k).readRecord limit).1 = Body.reported (Body.lineAnswers limit bs)[k]?) ∧
    ∀ bodies bodies', List.Forall₂ (Body.SameLines limit) bodies bodies' → ∀ capacity capacity',
      Cursor.Indistinguishable (fun c => (c.sight, c.tally)) (ofBodies bodies ⟨limit, capacity⟩)
        (ofBodies bodies' ⟨limit, capacity'⟩) := by
  refine ⟨fun bs b hb k hk => hb.readRecord_eq k hk, ?_⟩
  intro bodies bodies' hbodies capacity capacity'
  have hseen : ∀ {c c' : StreamingCursor}, Alike {} {} c c' → (c.sight, c.tally) = (c'.sight, c'.tally) :=
    fun h => Prod.ext h.sight h.tally.eq
  have hreleased : ∀ {c c' : StreamingCursor}, Alike {} {} c c' →
      (c.release.sight, c.release.tally) = (c'.release.sight, c'.release.tally) :=
    fun h => Prod.ext h.sight_release h.release_tally.eq
  exact (Alike.simulation {} {}).indistinguishable hseen hreleased (alike_ofBodies hbodies capacity capacity')

open Body in
/-- A `START` and a `DATA` on two lines. -/
def twoLines : List UInt8 :=
  "[\"START\"]".toUTF8.toList ++ lineFeed :: ("[\"DATA\"]".toUTF8.toList ++ [lineFeed])

open Body in
/-- The same with a carriage return, a blank line and no line feed at the end. -/
def twoLinesRelined : List UInt8 :=
  "[\"START\"]".toUTF8.toList ++ carriageReturn :: lineFeed :: 0x20 :: lineFeed :: "[\"DATA\"]".toUTF8.toList

/-- `twoLines` in three reads. -/
def twoLinesBody : Body :=
  ⟨[], ["[\"STA".toUTF8.toList, "RT\"]\n[\"DATA\"]".toUTF8.toList, "\n".toUTF8.toList].map .bytes⟩

/-- `twoLinesRelined` in two reads, the first of which ends behind the carriage return. -/
def twoLinesRelinedBody : Body :=
  ⟨[], ["[\"START\"]\r".toUTF8.toList, "\n \n[\"DATA\"]".toUTF8.toList].map .bytes⟩

open Body in
theorem relined_sample : Relation.EqvGen (Relined 16) twoLines twoLinesRelined := by
  unfold twoLines twoLinesRelined
  generalize hstart : "[\"START\"]".toUTF8.toList = startLine
  generalize "[\"DATA\"]".toUTF8.toList = dataLine
  have hreturned : Relined 16 (startLine ++ lineFeed :: (dataLine ++ [lineFeed]))
      (startLine ++ carriageReturn :: lineFeed :: (dataLine ++ [lineFeed])) :=
    .returned (by subst hstart; decide +kernel)
  have hblank : Relined 16 ((startLine ++ [carriageReturn, lineFeed]) ++ (dataLine ++ [lineFeed]))
      ((startLine ++ [carriageReturn, lineFeed]) ++ ([0x20] ++ lineFeed :: (dataLine ++ [lineFeed]))) :=
    .blankLine (.inr (by simp)) (by decide) (by decide) (by decide)
  have hunended : Relined 16 ((startLine ++ carriageReturn :: lineFeed :: 0x20 :: lineFeed :: dataLine) ++ [lineFeed])
      (startLine ++ carriageReturn :: lineFeed :: 0x20 :: lineFeed :: dataLine) := .unended
  simp only [List.append_assoc, List.cons_append, List.nil_append] at hblank hunended
  exact .trans _ _ _ (.rel _ _ hreturned) (.trans _ _ _ (.rel _ _ hblank) (.rel _ _ hunended))

theorem cut_sample : Body.Cut twoLines twoLinesBody ∧ Body.Cut twoLinesRelined twoLinesRelinedBody :=
  ⟨⟨_, by decide +kernel, by decide +kernel, rfl⟩, ⟨_, by decide +kernel, by decide +kernel, rfl⟩⟩

theorem sees_lines_only_sample :
    Body.Cut twoLines twoLinesBody ∧
      (∀ j < 1, ∀ e, (Body.lineAnswers 16 twoLines)[j]? ≠ some (.error e)) ∧
      ((twoLinesBody.afterRecords 16 1).readRecord 16).1 = .ok (some { kind := .data }) ∧
      List.Forall₂ (Body.SameLines 16) [twoLinesBody] [twoLinesRelinedBody] ∧
      Cursor.Indistinguishable (fun c => (c.sight, c.tally)) (ofBodies [twoLinesBody] ⟨16, 0⟩)
        (ofBodies [twoLinesRelinedBody] ⟨16, 4⟩) := by
  have hanswers : Body.lineAnswers 16 twoLines = [.ok { kind := .start }, .ok { kind := .data }] := by
    with_unfolding_all rfl
  have hfirst : ∀ j < 1, ∀ e, (Body.lineAnswers 16 twoLines)[j]? ≠ some (.error e) := by
    intro j hj e
    obtain rfl : j = 0 := by omega
    rw [hanswers]
    exact nofun
  have hlines : List.Forall₂ (Body.SameLines 16) [twoLinesBody] [twoLinesRelinedBody] :=
    .cons ⟨_, _, cut_sample.1, cut_sample.2, relined_sample⟩ .nil
  refine ⟨cut_sample.1, hfirst, ?_, hlines, (sees_lines_only 16).2 _ _ hlines 0 4⟩
  rw [(sees_lines_only 16).1 twoLines twoLinesBody cut_sample.1 1 hfirst, hanswers]
  rfl

end StreamingCursor

end Rowset
