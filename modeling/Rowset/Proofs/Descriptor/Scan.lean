import Mathlib.Data.List.TakeWhile
import Rowset.Descriptor.Scan
import Rowset.Proofs.Descriptor.Grammar
import Rowset.Proofs.Steps
import Rowset.Proofs.Text.Position

/-!
# Reading by position is safe

A step of reading by position goes with a function on the characters that are left: from a boundary it gives the value
of that function and stands before the characters that the function leaves, or it has the fault of that function.  On
the way it keeps the number of open types, and whatever it notes is as it should be (`Follows`).  There is one rule for
each way to make a step, and one statement for each routine.

A routine is then entered and left on a boundary, with as many types open, and a type that is read takes some bytes.
The main statement is `parse_safe`.
-/

namespace Rowset.Descriptor.Scan

open Text (At Boundary Uniform byteSize)

/-! ## What is noted -/

/-- A routine between the places where it was entered and left. -/
structure Passage (text : List Char) (routine : Routine) (before after : Place) (succeeded : Bool) : Prop where
  entered : Boundary text before.pos ∧ before.pos ≤ byteSize text
  left : Boundary text after.pos ∧ after.pos ≤ byteSize text
  bounded : before.depth ≤ maxLevels
  restored : after.depth = before.depth
  /-- A type that is read takes some bytes. -/
  advanced : routine = .type → succeeded = true → before.pos < after.pos

/-- What is noted is as it should be. -/
def Noted (text : List Char) : Event → Prop
  | .call routine before after succeeded => Passage text routine before after succeeded
  | .run first last | .cut first last => first ≤ last ∧ Boundary text first ∧ Boundary text last
  | .round before after => before < after

variable {α β : Type} {text cs rest w : List Char} {pos depth least least' first : Nat}

/-! ## Rules -/

/-- How a step ends whose value and rest are to be those of `x`; it moves at least to `least`. -/
def Ends (text : List Char) (least : Nat) (report : Report α) : Except Fault (α × List Char) → Prop
  | .ok (a, rest) => report.outcome = .value a ∧ At text report.place.pos rest ∧ least ≤ report.place.pos
  | .error f => report.outcome = .fault (f.message text) ∧ Boundary text report.place.pos

/-- A step with `depth` types open that goes with `x`. -/
structure Follows (text : List Char) (depth least : Nat) (x : Except Fault (α × List Char)) (report : Report α) :
    Prop where
  restored : report.place.depth = depth
  noted : ∀ event ∈ report.events, Noted text event
  ends : Ends text least report x

variable {x : Except Fault (α × List Char)} {report : Report α} {m : Scan α}

theorem Follows.weaken (h : Follows text depth least x report) (hle : least' ≤ least) :
    Follows text depth least' x report := by
  refine ⟨h.restored, h.noted, ?_⟩
  have hends := h.ends
  rcases x with f | ⟨a, rest⟩
  · exact hends
  · exact ⟨hends.1, hends.2.1, Nat.le_trans hle hends.2.2⟩

/-- A step that notes nothing and moves to `pos`. -/
theorem Follows.pure (a : α) (h : At text pos rest) (hle : least ≤ pos) :
    Follows text depth least (.ok (a, rest)) ((Pure.pure a : Scan α) text ⟨pos, depth⟩) :=
  ⟨rfl, List.forall_mem_nil _, rfl, h, hle⟩

theorem Follows.fail {message : String} {f : Fault} (h : Boundary text pos) (hm : message = f.message text) :
    Follows text depth least (.error f) ((Scan.fail message : Scan α) text ⟨pos, depth⟩) :=
  ⟨rfl, List.forall_mem_nil _, congrArg Outcome.fault hm, h⟩

section

variable {f : α → Scan β} {place : Place}

theorem bind_value {a : α} (h : (m text place).outcome = .value a) :
    (m >>= f) text place = ⟨(f a text (m text place).place).outcome, (f a text (m text place).place).place,
      (m text place).events ++ (f a text (m text place).place).events⟩ := by
  dsimp only [bind]
  rw [h]

theorem bind_fault {message : String} (h : (m text place).outcome = .fault message) :
    (m >>= f) text place = ⟨.fault message, (m text place).place, (m text place).events⟩ := by
  dsimp only [bind]
  rw [h]

end

/-- Steps that go with their functions go with them one after the other. -/
theorem Follows.bind {f : α → Scan β} {g : α × List Char → Except Fault (β × List Char)}
    (h : Follows text depth least x (m text ⟨pos, depth⟩))
    (hf : ∀ a rest pos', x = .ok (a, rest) → At text pos' rest → least ≤ pos' →
      Follows text depth least' (g (a, rest)) (f a text ⟨pos', depth⟩)) :
    Follows text depth least' (x >>= g) ((m >>= f) text ⟨pos, depth⟩) := by
  have hends := h.ends
  rcases x with fault | ⟨a, rest⟩
  · rw [bind_fault hends.1]
    exact ⟨h.restored, h.noted, rfl, hends.2⟩
  · obtain ⟨hvalue, hat, hle⟩ := hends
    have hplace : (m text ⟨pos, depth⟩).place = ⟨(m text ⟨pos, depth⟩).place.pos, depth⟩ :=
      congrArg (Place.mk _) h.restored
    have hnext := hf a rest _ rfl hat hle
    rw [bind_value hvalue, hplace]
    refine ⟨hnext.restored, fun event he => ?_, hnext.ends⟩
    exact (List.mem_append.mp he).elim (h.noted event) (hnext.noted event)

/-- A step whose value says nothing goes with a function that gives what is left. -/
theorem Follows.bind_unit {m : Scan Unit} {y : Except Fault (List Char)} {f : Unit → Scan β}
    {g : List Char → Except Fault (β × List Char)}
    (h : Follows text depth least (y.map ((), ·)) (m text ⟨pos, depth⟩))
    (hf : ∀ rest pos', y = .ok rest → At text pos' rest → least ≤ pos' →
      Follows text depth least' (g rest) (f () text ⟨pos', depth⟩)) :
    Follows text depth least' (y >>= g) ((m >>= f) text ⟨pos, depth⟩) := by
  rcases y with fault | rest
  · exact h.bind (g := fun parts => g parts.2) nofun
  · refine h.bind (g := fun parts => g parts.2) ?_
    rintro _ _ pos' ⟨⟩ hat hle
    exact hf rest pos' rfl hat hle

/-- A step that cannot fail. -/
theorem Follows.then {a : α} {f : α → Scan β} {y : Except Fault (β × List Char)}
    (h : Follows text depth least (.ok (a, rest)) (m text ⟨pos, depth⟩))
    (hf : ∀ pos', At text pos' rest → least ≤ pos' → Follows text depth least' y (f a text ⟨pos', depth⟩)) :
    Follows text depth least' y ((m >>= f) text ⟨pos, depth⟩) := by
  refine h.bind (g := fun _ => y) ?_
  rintro _ _ pos' ⟨⟩ hat hle
  exact hf pos' hat hle

/-- A step that cannot fail, and it is known where it ends. -/
theorem Follows.then_at {a : α} {pos' : Nat} {f : α → Scan β} {y : Except Fault (β × List Char)}
    (h : Follows text depth least (.ok (a, rest)) (m text ⟨pos, depth⟩)) (hat : At text pos' rest)
    (hf : Follows text depth least' y (f a text ⟨pos', depth⟩)) :
    Follows text depth least' y ((m >>= f) text ⟨pos, depth⟩) := by
  refine h.then fun pos'' hat' _ => ?_
  obtain rfl := hat.unique hat'
  exact hf

/-- A routine is noted when it is left, and a type only if it has read something. -/
theorem call_follows {routine : Routine} (hb : Boundary text pos) (hd : depth ≤ maxLevels)
    (h : Follows text depth least x (m text ⟨pos, depth⟩)) (hadvanced : routine = .type → pos < least) :
    Follows text depth least x (call routine m text ⟨pos, depth⟩) := by
  have hleft : Boundary text (m text ⟨pos, depth⟩).place.pos := by
    have hends := h.ends
    rcases x with fault | ⟨a, rest⟩
    · exact hends.2
    · exact hends.2.1.boundary
  refine ⟨h.restored, fun event he => ?_, h.ends⟩
  rcases List.mem_append.mp he with he | he
  · exact h.noted event he
  · obtain rfl := List.mem_singleton.mp he
    refine ⟨⟨hb, hb.le_byteSize⟩, ⟨hleft, hleft.le_byteSize⟩, hd, h.restored, fun htype hsucceeded => ?_⟩
    have hends := h.ends
    rcases x with fault | ⟨a, rest⟩
    · rw [hends.1] at hsucceeded
      exact absurd hsucceeded Bool.false_ne_true
    · exact Nat.lt_of_lt_of_le (hadvanced htype) hends.2.2

/-- The depth is the same again behind an inner type. -/
theorem deeper_follows (h : Follows text (depth + 1) least x (m text ⟨pos, depth + 1⟩)) :
    Follows text depth least x (deeper m text ⟨pos, depth⟩) := by
  unfold deeper
  obtain ⟨hrestored, hnoted, hends⟩ := h
  generalize m text ⟨pos, depth + 1⟩ = inner at hrestored hnoted hends
  obtain ⟨outcome, ⟨pos', depth'⟩, events⟩ := inner
  cases hrestored
  exact ⟨rfl, hnoted, by rcases x with fault | ⟨a, rest⟩ <;> exact hends⟩

/-- Passing over bytes ends at a boundary, for the property does not cut a character in two. -/
theorem advance_follows {q : Char → Bool} (h : At text pos cs) (hq : Uniform q) :
    Follows text depth pos (.ok ((), cs.dropWhile q))
      (advance (fun b => q (Text.latin1 b)) text ⟨pos, depth⟩) := by
  have hend := h.dropWhile q
  rw [← h.runEnd_eq hq] at hend
  have hle : pos ≤ Text.runEnd (fun b => q (Text.latin1 b)) text pos := Nat.le_add_right pos _
  refine ⟨rfl, fun event he => ?_, rfl, hend, hle⟩
  obtain rfl := List.mem_singleton.mp he
  exact ⟨hle, h.boundary, hend.boundary⟩

theorem cut_follows (h : At text pos cs) (hw : At text first (w ++ rest)) :
    Follows text depth pos (.ok (w, cs)) (cut first (first + byteSize w) text ⟨pos, depth⟩) := by
  unfold cut
  rw [Text.slice?_of_at hw]
  refine ⟨rfl, fun event he => ?_, rfl, h, Nat.le_refl pos⟩
  obtain rfl := List.mem_singleton.mp he
  exact ⟨Nat.le_add_right _ _, hw.boundary, hw.advance.boundary⟩

/-- A round of a loop is noted, and it has to have moved. -/
theorem round_follows {before : Nat} (h : At text pos cs) (hlt : before < pos) :
    Follows text depth pos (.ok ((), cs)) (round before text ⟨pos, depth⟩) := by
  refine ⟨rfl, fun event he => ?_, rfl, h, Nat.le_refl pos⟩
  obtain rfl := List.mem_singleton.mp he
  exact hlt

theorem peek_follows (h : At text pos cs) (hd : depth ≤ maxLevels) :
    Follows text depth pos (.ok (Text.byteAt? text pos, cs)) (peek text ⟨pos, depth⟩) :=
  call_follows h.boundary hd (.pure _ h (Nat.le_refl pos)) nofun

/-! ### Steps that only look -/

section

variable {f : Nat → Scan α} {place : Place}

theorem position_bind : (position >>= f) text place = f place.pos text place := rfl

theorem depth_bind : (Scan.depth >>= f) text place = f place.depth text place := rfl

theorem size_bind : (size >>= f) text place = f (byteSize text) text place := rfl

theorem jump_bind {f : Unit → Scan α} : (jump pos >>= f) text place = f () text ⟨pos, place.depth⟩ := rfl

/-- A round that moves behind a mark leaves fewer characters to what follows it. -/
theorem mark_round_follows {c : Char} {pos' : Nat} {f : Unit → Scan α} (h : At text pos cs)
    (h' : At text pos' (c :: rest)) (hc : c.toNat < 128) (hle : pos ≤ pos')
    (hf : At text (pos' + 1) rest → rest.length < cs.length →
      Follows text depth (pos' + 1) x (f () text ⟨pos' + 1, depth⟩)) :
    Follows text depth pos x ((jump (pos' + 1) >>= fun _ => round pos >>= f) text ⟨pos', depth⟩) := by
  have hnext : At text (pos' + 1) rest := h'.advance_ascii hc
  have hlt : pos < pos' + 1 := Nat.lt_succ_of_le hle
  rw [jump_bind]
  refine (round_follows hnext hlt).then_at hnext ?_
  exact (hf hnext (h.length_lt hnext hlt)).weaken (Nat.le_of_lt hlt)

end

/-! ## Blanks, marks, words and numbers -/

theorem toNat_lt_of_le {c high : Char} (h : c.val ≤ high.val) (hhigh : high.toNat < 128) : c.toNat < 128 :=
  Nat.lt_of_le_of_lt (UInt32.le_iff_toNat_le.mp h) hhigh

theorem uniform_isDigit : Uniform Char.isDigit :=
  Text.uniform_of_ascii fun _ h => toNat_lt_of_le (of_decide_eq_true (Bool.and_eq_true_iff.mp h).2) (by decide)

theorem uniform_isWordChar : Uniform isWordChar := by
  refine Text.uniform_of_ascii fun c h => ?_
  have hcases : (((c.isUpper || c.isLower) || c.isDigit) || c == '_') = true := h
  rw [Bool.or_eq_true, Bool.or_eq_true, Bool.or_eq_true, beq_iff_eq] at hcases
  rcases hcases with ((h | h) | h) | rfl
  · exact toNat_lt_of_le (of_decide_eq_true h).2 (by decide)
  · exact toNat_lt_of_le (of_decide_eq_true (Bool.and_eq_true_iff.mp h).2) (by decide)
  · exact toNat_lt_of_le (of_decide_eq_true (Bool.and_eq_true_iff.mp h).2) (by decide)
  · decide

/-- The offset of what is left at a position is the position. -/
theorem offset_eq (h : At text pos rest) : Fault.offset text rest = toString pos := by
  unfold Fault.offset
  rw [h.byteSize_eq, Nat.add_sub_cancel]

/-- A run takes no bytes if it is empty. -/
theorem eq_add_byteSize_iff : pos = pos + byteSize w ↔ w.isEmpty = true := by
  cases w with
  | nil => exact ⟨fun _ => rfl, fun _ => rfl⟩
  | cons c w =>
    have hsize := c.utf8Size_pos
    rw [Text.byteSize_cons]
    exact ⟨fun h => by omega, nofun⟩

/-- Blanks are passed if the first character is one. -/
theorem lt_blanks_iff :
    pos < pos + byteSize (cs.takeWhile Text.isAsciiBlank) ↔ cs.head?.any Text.isAsciiBlank = true := by
  cases cs with
  | nil => exact ⟨fun h => absurd h (Nat.lt_irrefl pos), nofun⟩
  | cons c rest =>
    have hsize := c.utf8Size_pos
    rw [List.takeWhile_cons, List.head?_cons, Option.any_some]
    cases Text.isAsciiBlank c with
    | true => exact ⟨fun _ => rfl, fun _ => by rw [if_pos rfl, Text.byteSize_cons]; omega⟩
    | false => exact ⟨fun h => absurd h (Nat.lt_irrefl pos), nofun⟩

theorem skip_follows (h : At text pos cs) (hd : depth ≤ maxLevels) :
    Follows text depth pos (.ok (cs.head?.any Text.isAsciiBlank, Descriptor.skip cs)) (skip text ⟨pos, depth⟩) := by
  refine call_follows h.boundary hd ?_ nofun
  have hend := h.dropWhile Text.isAsciiBlank
  rw [position_bind]
  refine (advance_follows h Text.uniform_isAsciiBlank).then_at hend ?_
  rw [position_bind, Bool.eq_iff_iff.mpr (decide_eq_true_iff.trans lt_blanks_iff)]
  exact .pure _ hend (Nat.le_add_right pos _)

theorem expectMark_follows {mark : Char} (hm : mark.toNat < 128) (h : At text pos cs) (hd : depth ≤ maxLevels) :
    Follows text depth (pos + 1) ((Descriptor.expectMark mark cs).map ((), ·)) (expectMark mark text ⟨pos, depth⟩) := by
  refine call_follows h.boundary hd ?_ nofun
  refine (skip_follows h hd).then fun pos' hat hle => ?_
  rw [position_bind]
  refine (peek_follows hat hd).then_at hat ?_
  unfold Descriptor.expectMark
  dsimp only
  generalize Descriptor.skip cs = start at hat
  cases start with
  | nil =>
    rw [hat.byteAt?_nil]
    refine .fail hat.boundary ?_
    unfold Fault.message Fault.found
    dsimp only
    rw [offset_eq hat]
  | cons c rest =>
    obtain ⟨b, hbyte, hlead, his⟩ := hat.byteAt?_cons
    rw [hbyte]
    dsimp only
    by_cases hc : c = mark
    · rw [if_pos hc, if_pos ((his mark hm).mpr hc)]
      subst hc
      exact .pure _ (hat.advance_ascii hm) (Nat.succ_le_succ hle)
    · rw [if_neg hc, if_neg fun hbm => hc ((his mark hm).mp hbm)]
      refine .fail hat.boundary ?_
      unfold Fault.message Fault.found
      dsimp only
      rw [offset_eq hat, hlead]

theorem wordEnd_follows (h : At text pos cs) (hd : depth ≤ maxLevels) :
    Follows text depth pos (.ok (pos + byteSize (cs.takeWhile isWordChar), cs)) (wordEnd text ⟨pos, depth⟩) := by
  refine call_follows h.boundary hd ?_ nofun
  have hend : Text.runEnd isWordByte text pos = pos + byteSize (cs.takeWhile isWordChar) :=
    h.runEnd_eq uniform_isWordChar
  rw [hend]
  exact .pure _ h (Nat.le_refl pos)

/-- A run of characters can be cut out. -/
theorem cut_run_follows (h : At text pos cs) (q : Char → Bool) (h' : At text first rest) :
    Follows text depth first (.ok (cs.takeWhile q, rest))
      (cut pos (pos + byteSize (cs.takeWhile q)) text ⟨first, depth⟩) := by
  have hsplit : At text pos (cs.takeWhile q ++ cs.dropWhile q) := by
    rw [List.takeWhile_append_dropWhile]
    exact h
  exact cut_follows h' hsplit

theorem readWord_follows (h : At text pos cs) (hd : depth ≤ maxLevels) :
    Follows text depth (pos + byteSize (cs.takeWhile isWordChar))
      (.ok (cs.takeWhile isWordChar, cs.dropWhile isWordChar)) (readWord text ⟨pos, depth⟩) := by
  refine call_follows h.boundary hd ?_ nofun
  rw [position_bind]
  refine (wordEnd_follows h hd).then fun pos' _ _ => ?_
  rw [jump_bind]
  exact cut_run_follows h isWordChar (h.dropWhile isWordChar)

/-- A keyword that is not there leaves the position where it was, in front of the blanks. -/
theorem eatKeyword_follows (keyword : String) (h : At text pos cs) (hd : depth ≤ maxLevels) :
    Follows text depth pos (.ok ((trailingWord? keyword cs).isSome, (trailingWord? keyword cs).getD cs))
      (eatKeyword keyword text ⟨pos, depth⟩) := by
  refine call_follows h.boundary hd ?_ nofun
  rw [position_bind]
  refine (skip_follows h hd).then fun start hstart hle => ?_
  cases cs with
  | nil => exact .pure false hstart hle
  | cons c rest =>
    rw [List.head?_cons, Option.any_some]
    unfold trailingWord?
    dsimp only
    cases hc : Text.isAsciiBlank c with
    | false =>
      rw [skip_cons hc] at hstart
      exact .pure false hstart hle
    | true =>
      have hskip : Descriptor.skip (c :: rest) = Descriptor.skip rest := List.dropWhile_cons_of_pos hc
      rw [hskip] at hstart
      rw [if_pos rfl, position_bind, Bool.true_and]
      refine (wordEnd_follows hstart hd).then_at hstart ?_
      refine (cut_run_follows hstart isWordChar hstart).then_at hstart ?_
      cases isKeyword keyword ((Descriptor.skip rest).takeWhile isWordChar) with
      | true => exact .pure true (hstart.dropWhile isWordChar) (Nat.le_trans hle (Nat.le_add_right start _))
      | false => exact .pure false h (Nat.le_refl pos)

theorem readNumber_follows (what : Parameter) (h : At text pos cs) (hd : depth ≤ maxLevels) :
    Follows text depth pos (number what cs) (readNumber what text ⟨pos, depth⟩) := by
  refine call_follows h.boundary hd ?_ nofun
  refine (skip_follows h hd).then fun start hstart hle => ?_
  rw [position_bind]
  unfold number Text.spanDigits
  generalize Descriptor.skip cs = ds at hstart
  have hlast := hstart.dropWhile Char.isDigit
  refine (advance_follows hstart uniform_isDigit).then_at hlast ?_
  rw [position_bind]
  dsimp only
  by_cases hempty : (ds.takeWhile Char.isDigit).isEmpty = true
  · rw [if_pos hempty, if_pos (eq_add_byteSize_iff.mpr hempty)]
    refine .fail hlast.boundary ?_
    unfold Fault.message
    dsimp only
    rw [offset_eq hstart]
  · rw [if_neg hempty, if_neg fun heq => hempty (eq_add_byteSize_iff.mp heq)]
    refine (cut_run_follows hstart Char.isDigit hlast).then_at hlast ?_
    by_cases hsmall : Text.ofDigits (ds.takeWhile Char.isDigit) < UInt32.size
    · rw [if_pos hsmall, if_pos hsmall]
      exact .pure _ hlast (Nat.le_trans hle (Nat.le_add_right start _))
    · rw [if_neg hsmall, if_neg hsmall]
      exact .fail hlast.boundary rfl

/-! ## Struct fields -/

/-- There is a back-quote if something is left behind the characters up to the first one. -/
theorem any_quote_iff : cs.any (· == '`') = true ↔ cs.dropWhile (· != '`') ≠ [] := by
  rw [Ne, List.dropWhile_eq_nil_iff]
  simp

/-- The name between back-quotes; it may hold characters of any size. -/
theorem quotedName_follows {after : List Char} (hs : Descriptor.skip cs = '`' :: after)
    (h : At text pos ('`' :: after)) :
    Follows text depth pos (Descriptor.fieldName cs) (quotedName pos text ⟨pos, depth⟩) := by
  have hafter : At text (pos + 1) after := h.advance_ascii (by decide)
  have hwhole : At text (pos + 1) (after ++ []) := (List.append_nil after).symm ▸ hafter
  have hend := hafter.dropWhile (· != '`')
  rw [fieldName_of_quote hs]
  unfold quotedName
  -- All that follows the first back-quote is cut out, to look for the second one.
  rw [size_bind, hafter.byteSize_eq]
  refine (cut_follows h hwhole).then_at h ?_
  cases hdrop : after.dropWhile (· != '`') with
  | nil =>
    rw [if_neg fun hany => any_quote_iff.mp hany hdrop]
    refine .fail h.boundary ?_
    unfold Fault.message
    dsimp only
    rw [offset_eq h]
  | cons q behind =>
    have hq : q = '`' := by
      have hhead := List.head?_dropWhile_not (· != '`') after
      rw [hdrop] at hhead
      simpa using hhead
    subst hq
    rw [if_pos (any_quote_iff.mpr (by rw [hdrop]; exact nofun))]
    refine (cut_run_follows hafter (· != '`') h).then_at h ?_
    have hbehind : At text (pos + byteSize (after.takeWhile (· != '`')) + 2) behind := by
      rw [hdrop] at hend
      have hnext := hend.advance_ascii (by decide)
      rwa [Nat.add_right_comm pos 1] at hnext
    rw [jump_bind]
    dsimp only
    by_cases hempty : (after.takeWhile (· != '`')).isEmpty = true
    · rw [if_pos hempty, if_pos hempty]
      refine .fail hbehind.boundary ?_
      unfold Fault.message
      dsimp only
      rw [offset_eq h]
    · rw [if_neg hempty, if_neg hempty]
      exact .pure _ hbehind (by omega)

theorem bareName_follows (hs : ∀ after, Descriptor.skip cs ≠ '`' :: after) (h : At text pos (Descriptor.skip cs)) :
    Follows text depth pos (Descriptor.fieldName cs) (bareName pos text ⟨pos, depth⟩) := by
  rw [fieldName_of_bare hs]
  unfold bareName
  have hlast := h.dropWhile isNameChar
  refine (advance_follows h Text.uniform_isAsciiBlank.not).then_at hlast ?_
  rw [position_bind]
  refine (cut_run_follows h isNameChar hlast).then_at hlast ?_
  generalize (Descriptor.skip cs).takeWhile isNameChar = name at *
  by_cases hempty : name.isEmpty = true
  · rw [if_pos hempty, if_pos hempty]
    refine .fail hlast.boundary ?_
    unfold Fault.message
    dsimp only
    rw [offset_eq h]
  rw [if_neg hempty, if_neg hempty]
  by_cases hquote : name.any (· == '`') = true
  · rw [if_pos hquote, if_pos hquote]
    exact .fail hlast.boundary rfl
  rw [if_neg hquote, if_neg hquote]
  by_cases hmark : (name.any fun c => c == ',' || c == '(' || c == ')') = true
  · rw [if_pos hmark, if_pos hmark]
    exact .fail hlast.boundary rfl
  rw [if_neg hmark, if_neg hmark]
  exact .pure _ hlast (Nat.le_add_right pos _)

theorem fieldName_follows (h : At text pos cs) (hd : depth ≤ maxLevels) :
    Follows text depth pos (Descriptor.fieldName cs) (fieldName text ⟨pos, depth⟩) := by
  refine call_follows h.boundary hd ?_ nofun
  refine (skip_follows h hd).then fun start hstart hle => ?_
  rw [position_bind]
  refine (peek_follows hstart hd).then_at hstart ?_
  cases hs : Descriptor.skip cs with
  | nil =>
    rw [hs] at hstart
    rw [hstart.byteAt?_nil]
    refine (bareName_follows ?_ (hs ▸ hstart)).weaken hle
    rw [hs]
    exact nofun
  | cons c rest =>
    rw [hs] at hstart
    obtain ⟨b, hbyte, -, his⟩ := hstart.byteAt?_cons
    rw [hbyte]
    dsimp only
    by_cases hc : c = '`'
    · rw [if_pos ((his '`' (by decide)).mpr hc)]
      subst hc
      exact (quotedName_follows hs hstart).weaken hle
    · rw [if_neg fun hbm => hc ((his '`' (by decide)).mp hbm)]
      refine (bareName_follows ?_ (hs ▸ hstart)).weaken hle
      rw [hs]
      exact fun after heq => hc (List.cons.inj heq).1

/-- A reader of types goes with a function from every boundary on, and what it reads takes some bytes. -/
def Reads (text : List Char) (depth : Nat) (inner : List Char → Except Fault (Descriptor × List Char))
    (m : Scan Descriptor) : Prop :=
  ∀ ⦃pos cs⦄, At text pos cs → Follows text depth (pos + 1) (inner cs) (m text ⟨pos, depth⟩)

variable {inner : List Char → Except Fault (Descriptor × List Char)} {m : Scan Descriptor}

/-- Every round leaves fewer characters, so either fuel is enough. -/
theorem fieldsFrom_follows (hm : Reads text depth inner m) (hd : depth ≤ maxLevels) {fuel fuel' : Nat}
    (seen : List (String × Descriptor)) (h : At text pos cs) (hfuel : cs.length < fuel) (hfuel' : cs.length < fuel') :
    Follows text depth pos (fields inner fuel seen cs) (fieldsFrom m fuel' seen text ⟨pos, depth⟩) := by
  induction fuel generalizing fuel' seen cs pos with
  | zero => exact absurd hfuel (Nat.not_lt_zero _)
  | succ fuel ih =>
    obtain ⟨fuel', rfl⟩ := Nat.exists_eq_succ_of_ne_zero (Nat.ne_of_gt (Nat.zero_lt_of_lt hfuel'))
    unfold fields fieldsFrom
    rw [position_bind]
    -- A name and a type are read alike; then the byte that is seen decides as its character does.
    refine (fieldName_follows h hd).bind fun name behind p₁ _ h₁ hle₁ => ?_
    refine (hm h₁).bind fun t after p₂ _ h₂ hle₂ => ?_
    dsimp only
    by_cases hseen : (seen.any (·.1 == name)) = true
    · rw [if_pos hseen, if_pos hseen]
      exact .fail h₂.boundary rfl
    rw [if_neg hseen, if_neg hseen]
    refine (skip_follows h₂ hd).then fun p₃ h₃ hle₃ => ?_
    rw [position_bind]
    refine (peek_follows h₃ hd).then_at h₃ ?_
    split
    · next rest hs =>
      rw [hs] at h₃
      obtain ⟨b, hbyte, -, his⟩ := h₃.byteAt?_cons
      rw [hbyte]
      dsimp only
      rw [if_pos ((his ',' (by decide)).mpr rfl)]
      exact mark_round_follows h h₃ (by decide) (by omega) fun hnext hlt => ih _ hnext (by omega) (by omega)
    · next rest hs =>
      rw [hs] at h₃
      obtain ⟨b, hbyte, -, his⟩ := h₃.byteAt?_cons
      rw [hbyte]
      dsimp only
      rw [if_neg fun hb => absurd ((his ',' (by decide)).mp hb) (by decide), if_pos ((his ')' (by decide)).mpr rfl)]
      exact mark_round_follows h h₃ (by decide) (by omega) fun hnext _ => .pure _ hnext (Nat.le_refl _)
    · next c rest hcomma hclosing hs =>
      rw [hs] at h₃
      obtain ⟨b, hbyte, hlead, his⟩ := h₃.byteAt?_cons
      rw [hbyte]
      dsimp only
      rw [if_neg fun hb => hcomma ((his ',' (by decide)).mp hb), if_neg fun hb => hclosing ((his ')' (by decide)).mp hb)]
      refine .fail h₃.boundary ?_
      unfold Fault.message Fault.found
      dsimp only
      rw [offset_eq h₃, hlead]
    · next hs =>
      rw [hs] at h₃
      rw [h₃.byteAt?_nil]
      exact .fail h₃.boundary rfl

/-- The loop over fields goes with the recursion over them; every round moves behind a name. -/
theorem readFields_follows (hm : Reads text depth inner m) (hd : depth ≤ maxLevels) (h : At text pos cs) :
    Follows text depth pos (fields inner (cs.length + 1) [] cs) (readFields m text ⟨pos, depth⟩) := by
  refine call_follows h.boundary hd ?_ nofun
  rw [size_bind]
  exact fieldsFrom_follows hm hd [] h (Nat.lt_succ_self _) (Nat.lt_succ_of_le h.length_le)

/-! ## Types -/

theorem primitive_scalar_follows {word : List Char} {k : Scalar} (hw : Head.ofWord? word = some (.scalar k))
    (h : At text pos cs) (hd : depth ≤ maxLevels) :
    Follows text depth pos (.ok (scalar k false, cs)) (primitive word text ⟨pos, depth⟩) := by
  refine call_follows h.boundary hd ?_ nofun
  rw [hw]
  exact .pure _ h (Nat.le_refl pos)

theorem primitive_double_follows {word : List Char} (hw : Head.ofWord? word = some .double)
    (h : At text pos cs) (hd : depth ≤ maxLevels) :
    Follows text depth pos (.ok (scalar .double false, (trailingWord? "precision" cs).getD cs))
      (primitive word text ⟨pos, depth⟩) := by
  refine call_follows h.boundary hd ?_ nofun
  rw [hw]
  exact (eatKeyword_follows "precision" h hd).then fun pos' hat hle => .pure _ hat hle

theorem primitive_unknown_follows {word : List Char} (hw : Head.ofWord? word = none)
    (h : At text pos cs) (hd : depth ≤ maxLevels) :
    Follows text depth pos (.error (.unknownType (String.ofList word))) (primitive word text ⟨pos, depth⟩) := by
  refine call_follows h.boundary hd ?_ nofun
  rw [hw]
  exact .fail h.boundary rfl

theorem readBase_follows (hm : Reads text depth inner m) (hd : depth ≤ maxLevels)
    (hword : ((Descriptor.skip cs).takeWhile isWordChar).isEmpty = false)
    (h : At text pos ((Descriptor.skip cs).dropWhile isWordChar)) :
    Follows text depth pos (base inner cs)
      (readBase m ((Descriptor.skip cs).takeWhile isWordChar) text ⟨pos, depth⟩) := by
  unfold base readBase
  dsimp only
  rw [if_neg (by rw [hword]; exact Bool.false_ne_true)]
  generalize (Descriptor.skip cs).takeWhile isWordChar = word at *
  generalize (Descriptor.skip cs).dropWhile isWordChar = behind at *
  cases hhead : Head.ofWord? word with
  | none => exact primitive_unknown_follows hhead h hd
  | some head =>
    cases head with
    | scalar k => exact primitive_scalar_follows hhead h hd
    | double => exact primitive_double_follows hhead h hd
    | decimal =>
      refine (expectMark_follows (by decide) h hd).bind_unit fun _ p₁ _ h₁ hle₁ => ?_
      refine (readNumber_follows .precision h₁ hd).bind fun p _ p₂ _ h₂ hle₂ => ?_
      refine (expectMark_follows (by decide) h₂ hd).bind_unit fun _ p₃ _ h₃ hle₃ => ?_
      refine (readNumber_follows .scale h₃ hd).bind fun s _ p₄ _ h₄ hle₄ => ?_
      refine (expectMark_follows (by decide) h₄ hd).bind_unit fun _ p₅ _ h₅ hle₅ => ?_
      exact .pure _ h₅ (by omega)
    | array =>
      refine (expectMark_follows (by decide) h hd).bind_unit fun _ p₁ _ h₁ hle₁ => ?_
      refine (hm h₁).bind fun e _ p₂ _ h₂ hle₂ => ?_
      refine (expectMark_follows (by decide) h₂ hd).bind_unit fun _ p₃ _ h₃ hle₃ => ?_
      exact .pure _ h₃ (by omega)
    | struct =>
      refine (expectMark_follows (by decide) h hd).bind_unit fun _ p₁ _ h₁ hle₁ => ?_
      refine (readFields_follows hm hd h₁).bind fun fs _ p₂ _ h₂ hle₂ => ?_
      exact .pure _ h₂ (by omega)

/-- A word that is not empty takes some bytes. -/
theorem lt_add_byteSize (hw : w.isEmpty = false) : pos < pos + byteSize w := by
  refine Nat.lt_of_le_of_ne (Nat.le_add_right pos _) fun heq => ?_
  rw [eq_add_byteSize_iff.mp heq] at hw
  exact Bool.false_ne_true hw.symm

/-- An inner type is read one level deeper, and the bound on the depth is the bound on the levels. -/
theorem nested_follows {levels : Nat} (hm : Reads text depth (typeWithin levels) m) (hd : depth ≤ maxLevels)
    (h : At text pos cs) :
    Follows text depth (pos + 1) (typeWithin (levels + 1) cs) (nested m text ⟨pos, depth⟩) := by
  refine call_follows h.boundary hd ?_ nofun
  unfold typeWithin
  refine (skip_follows h hd).then fun p₁ h₁ hle₁ => ?_
  rw [position_bind]
  refine (readWord_follows h₁ hd).then fun p₂ h₂ hle₂ => ?_
  cases hword : ((Descriptor.skip cs).takeWhile isWordChar).isEmpty with
  | true =>
    unfold base
    dsimp only
    rw [if_pos hword]
    refine .fail h₂.boundary ?_
    unfold Fault.message
    dsimp only
    rw [offset_eq h₁]
  | false =>
    have hlt : p₁ < p₁ + byteSize ((Descriptor.skip cs).takeWhile isWordChar) := lt_add_byteSize hword
    rw [if_neg Bool.false_ne_true]
    refine (readBase_follows hm hd hword h₂).bind fun t behind p₃ _ h₃ hle₃ => ?_
    refine (eatKeyword_follows "null" h₃ hd).then fun p₄ h₄ hle₄ => ?_
    dsimp only
    cases hnull : trailingWord? "null" behind with
    | some after =>
      rw [hnull] at h₄
      exact .pure _ h₄ (by omega)
    | none =>
      rw [hnull] at h₄
      exact .pure _ h₄ (by omega)

/-- A type is read where the levels that are left and the types that are open are together as many as there may be. -/
theorem reads_type (text : List Char) {levels depth : Nat} (hlevels : depth + levels = maxLevels) :
    Reads text depth (typeWithin levels) (readType (levels + 1)) := by
  intro pos cs h
  induction levels generalizing depth pos cs with
  | zero =>
    refine call_follows h.boundary (Nat.le_of_eq hlevels) ?_ fun _ => Nat.lt_succ_self pos
    have hfull : maxLevels ≤ depth := Nat.le_of_eq hlevels.symm
    rw [depth_bind, if_pos hfull]
    exact .fail h.boundary rfl
  | succ levels ih =>
    refine call_follows h.boundary (by omega) ?_ fun _ => Nat.lt_succ_self pos
    rw [depth_bind, if_neg (by dsimp only; omega)]
    refine deeper_follows ?_
    exact nested_follows (fun _ _ h' => ih (by omega) h') (by omega) h

/-- Reading a text by position goes with reading its characters. -/
theorem parse_follows (text : String) :
    Follows text.toList 0 0 ((Descriptor.parse text).map (·, [])) (parse text) := by
  refine call_follows (Text.at_start text.toList).boundary (Nat.zero_le _) ?_ nofun
  have hparse : (Descriptor.parse text).map (·, ([] : List Char)) = typeWithin maxLevels text.toList >>= fun parts =>
      if (Descriptor.skip parts.2).isEmpty then .ok (parts.1, [])
      else .error (.trailing (Descriptor.skip parts.2)) := by
    unfold Descriptor.parse
    rcases typeWithin maxLevels text.toList with f | ⟨t, behind⟩
    · rfl
    · rw [ok_bind, ok_bind]
      dsimp only
      cases Descriptor.skip behind <;> rfl
  rw [hparse]
  refine (reads_type _ (Nat.zero_add maxLevels) (Text.at_start text.toList)).bind fun t behind p₁ _ h₁ _ => ?_
  refine (skip_follows h₁ (Nat.zero_le _)).then fun p₂ h₂ _ => ?_
  rw [position_bind]
  refine (peek_follows h₂ (Nat.zero_le _)).then_at h₂ ?_
  dsimp only
  generalize Descriptor.skip behind = rest at h₂
  cases rest with
  | nil =>
    rw [h₂.byteAt?_nil]
    exact .pure t h₂ (Nat.zero_le _)
  | cons c rest =>
    obtain ⟨b, hbyte, -, -⟩ := h₂.byteAt?_cons
    rw [hbyte]
    refine .fail h₂.boundary ?_
    unfold Fault.message
    dsimp only
    rw [offset_eq h₂]

/-! ## A whole text -/

/-- How reading by position ends if the characters have this result. -/
def outcomeOf (text : List Char) : Except Fault Descriptor → Outcome Descriptor
  | .ok t => .value t
  | .error f => .fault (f.message text)

/-- What is promised of reading a whole text. -/
structure Safe (text : String) (report : Report Descriptor) : Prop where
  /-- Reading is never stuck. -/
  outcome : report.outcome = outcomeOf text.toList (Descriptor.parse text)
  closed : report.place.depth = 0
  noted : ∀ event ∈ report.events, Noted text.toList event

end Rowset.Descriptor.Scan
