import Mathlib.Data.List.TakeWhile
import Rowset.Proofs.Calendar.Layout

/-!
# Offsets of zoned times

An offset is written behind a sign in one of the forms of `OffsetForm`.  Hours and minutes are read together with the
sign.  Seconds are not: their sign is looked for again, from the end of what was read before them, and the last sign
there is that of the offset, whatever signs the date has (`lastDirection?_append`).  So every offset below a day is
read exactly, also if its hours and minutes are zero.

The main statement is `Zoned.parse?_inverts`.
-/

namespace Rowset

namespace Calendar

open Text

/-- The ways to write an offset behind its sign. -/
inductive OffsetForm where
  /-- Hours alone. -/
  | hours
  /-- Hours and minutes with nothing between them. -/
  | compact
  /-- Hours and minutes with a colon between them. -/
  | minutes
  /-- Hours, minutes and seconds with colons between them. -/
  | seconds
deriving DecidableEq, Repr

namespace OffsetForm

/-- The unit, in seconds, that an offset has to be a multiple of to be written in a form. -/
def unit : OffsetForm → Nat
  | hours => 3600
  | compact | minutes => 60
  | seconds => 1

/-- What follows the hours of an offset. -/
def behindHours (form : OffsetForm) (n : Nat) : List Char :=
  match form with
  | hours => []
  | compact => padded 2 (n / 60 % 60)
  | minutes => ':' :: padded 2 (n / 60 % 60)
  | seconds => ':' :: (padded 2 (n / 60 % 60) ++ ':' :: padded 2 (n % 60))

/-- The text of an offset behind its sign. -/
def write (form : OffsetForm) (n : Nat) : List Char :=
  padded 2 (n / 3600) ++ form.behindHours n

end OffsetForm

/-! ## Two digits -/

theorem padded_two {n : Nat} (h : n < 100) :
    padded 2 n = [Nat.digitChar (n / 10), Nat.digitChar (n % 10)] := by
  revert n
  decide

theorem twoDigits?_padded {most : Char} {n : Nat} (h : n < 100) (hm : Nat.digitChar (n / 10) ≤ most)
    (rest : List Char) : twoDigits? most (padded 2 n ++ rest) = some (n, rest) := by
  have hvalue := ofDigits_padded 2 n
  have hdigits : ∀ c ∈ padded 2 n, c.isDigit = true := fun c hc => isDigit_of_mem_padded hc
  rw [padded_two h] at hvalue hdigits ⊢
  have htens := hdigits (Nat.digitChar (n / 10)) (by simp)
  have hones := hdigits (Nat.digitChar (n % 10)) (by simp)
  simp [twoDigits?, htens, hones, hm, hvalue]

theorem twoDigits?_nine {n : Nat} (h : n < 100) (rest : List Char) :
    twoDigits? '9' (padded 2 n ++ rest) = some (n, rest) := by
  refine twoDigits?_padded h ?_ rest
  revert n
  decide

theorem twoDigits?_five {n : Nat} (h : n < 60) (rest : List Char) :
    twoDigits? '5' (padded 2 n ++ rest) = some (n, rest) := by
  refine twoDigits?_padded (by omega) ?_ rest
  revert n
  decide

theorem twoDigits?_lt {cs rest : List Char} {n : Nat} (h : twoDigits? '5' cs = some (n, rest)) : n < 60 := by
  unfold twoDigits? at h
  split at h
  · next c d rest =>
    split_ifs at h with hdigits
    cases h
    simp only [Bool.and_eq_true, decide_eq_true_eq] at hdigits
    obtain ⟨⟨hc, hd⟩, hfive⟩ := hdigits
    have hle : c.toNat ≤ 53 := hfive
    have hones := digitValue_lt hd
    have htens : digitValue c ≤ 5 := by
      simp only [digitValue, Char.reduceToNat]
      omega
    have hvalue := ofDigits_append [c] [d]
    rw [ofDigits_singleton, ofDigits_singleton, List.length_singleton, List.singleton_append] at hvalue
    omega
  · contradiction

/-! ## Signs, hours and minutes -/

theorem mark_of_direction? {mark : Char} {d : Int} (h : direction? mark = some d) :
    mark = '+' ∨ mark = '-' ∨ mark = '\u2212' := by
  unfold direction? at h
  split_ifs at h with hplus hminus
  · exact .inl hplus
  · simp only [Bool.or_eq_true, decide_eq_true_eq] at hminus
    exact .inr hminus

theorem direction?_eq {mark : Char} {d : Int} (h : direction? mark = some d) : d = 1 ∨ d = -1 := by
  rcases mark_of_direction? h with rfl | rfl | rfl
  · exact .inl (Option.some.inj h).symm
  · exact .inr (Option.some.inj h).symm
  · exact .inr (Option.some.inj h).symm

theorem direction?_of_isDigit {c : Char} (h : c.isDigit = true) : direction? c = none := by
  cases hd : direction? c with
  | none => rfl
  | some d =>
    rcases mark_of_direction? hd with rfl | rfl | rfl <;> contradiction

/-- A signed offset is read as hours and minutes, whatever stands between the two. -/
theorem offset?_sign {mark : Char} {d : Int} (h : direction? mark = some d) {hours minutes : Nat} (hh : hours < 100)
    {cs rest : List Char} (hm : offsetMinutes? cs = some (minutes, rest)) :
    offset? (mark :: (padded 2 hours ++ cs)) = some (d * (3600 * hours + 60 * minutes : Nat), rest) := by
  have htrim : trimStart (mark :: (padded 2 hours ++ cs)) = mark :: (padded 2 hours ++ cs) := by
    apply trimStart_cons
    rcases mark_of_direction? h with rfl | rfl | rfl <;> decide
  have hz : ¬(mark = 'Z' ∨ mark = 'z') := by
    rcases mark_of_direction? h with rfl | rfl | rfl <;> decide
  simp [offset?, htrim, hz, h, twoDigits?_nine hh, hm]

theorem offsetMinutes?_compact {minutes : Nat} (h : minutes < 60) (rest : List Char) :
    offsetMinutes? (padded 2 minutes ++ rest) = some (minutes, rest) := by
  have htwo := twoDigits?_five h rest
  have hmem : Nat.digitChar (minutes / 10) ∈ padded 2 minutes := by
    rw [padded_two (by omega)]
    exact List.mem_cons_self
  have hdigit := isDigit_of_mem_padded hmem
  have hsep : separatesMinutes (Nat.digitChar (minutes / 10)) = false := by
    have hcolon : Nat.digitChar (minutes / 10) ≠ ':' := by
      intro hc
      rw [hc] at hdigit
      contradiction
    simp [separatesMinutes, hcolon, isBlank_of_isDigit hdigit]
  rw [padded_two (by omega)] at htwo ⊢
  unfold offsetMinutes?
  rw [List.cons_append, List.dropWhile_cons_of_neg (by simp [hsep])]
  exact htwo

theorem offsetMinutes?_colon {minutes : Nat} (h : minutes < 60) (rest : List Char) :
    offsetMinutes? (':' :: (padded 2 minutes ++ rest)) = some (minutes, rest) := by
  have hcolon : offsetMinutes? (':' :: (padded 2 minutes ++ rest)) =
      offsetMinutes? (padded 2 minutes ++ rest) := by
    unfold offsetMinutes?
    rw [List.dropWhile_cons_of_pos (by decide)]
  exact hcolon.trans (offsetMinutes?_compact h rest)

/-- An offset without seconds is a whole number of minutes. -/
theorem dvd_of_offset? {cs rest : List Char} {o : Int} (h : offset? cs = some (o, rest)) : 60 ∣ o := by
  unfold offset? at h
  split at h
  · contradiction
  · split_ifs at h
    · cases h
      exact Int.dvd_zero 60
    · simp only [Option.bind_eq_bind, Option.bind_eq_some_iff, Prod.exists] at h
      obtain ⟨d, -, hours, _, -, minutes, _, -, h⟩ := h
      cases h
      rw [show (3600 * hours + 60 * minutes : Int) = 60 * (60 * hours + minutes) by omega, Int.mul_left_comm]
      exact Int.dvd_mul_right 60 _

/-! ## Seconds -/

theorem offsetSeconds?_colon {seconds : Nat} (h : seconds < 60) :
    offsetSeconds? (':' :: padded 2 seconds) = some seconds := by
  have htwo := twoDigits?_five h []
  rw [List.append_nil] at htwo
  simp [offsetSeconds?, htwo]

theorem offsetSeconds?_lt {cs : List Char} {seconds : Nat} (h : offsetSeconds? cs = some seconds) :
    seconds < 60 := by
  simp only [offsetSeconds?, Option.bind_eq_bind, Option.bind_eq_some_iff] at h
  obtain ⟨rest, -, ⟨n, behind⟩, htwo, h⟩ := h
  split at h
  · next heq =>
    cases heq
    cases h
    exact twoDigits?_lt htwo
  · contradiction

/-- The sign of an offset is the last one behind the first space, whatever signs precede it. -/
theorem lastDirection?_append {before after : List Char} {mark : Char} {d : Int} (hs : ' ' ∈ before)
    (hm : direction? mark = some d) (ha : ∀ c ∈ after, direction? c = none) :
    lastDirection? (before ++ mark :: after) = some d := by
  have hspace : ¬(before.dropWhile (· != ' ')).isEmpty = true := by
    rw [List.isEmpty_iff, List.dropWhile_eq_nil_iff]
    intro hall
    simpa using hall ' ' hs
  have hafter : after.reverse.findSome? direction? = none :=
    List.findSome?_eq_none_iff.mpr fun c hc => ha c (List.mem_reverse.mp hc)
  unfold lastDirection?
  rw [List.dropWhile_append, if_neg hspace, List.reverse_append, List.reverse_cons, List.append_assoc,
    List.findSome?_append, hafter]
  simp [hm]

theorem lastDirection?_eq {cs : List Char} {d : Int} (h : lastDirection? cs = some d) : d = 1 ∨ d = -1 := by
  obtain ⟨mark, -, hm⟩ := List.exists_of_findSome?_eq_some h
  exact direction?_eq hm

/-! ## Texts of an offset -/

/-- A text of the offset `o`: a sign in its direction, then its size in a form that is exact. -/
structure OffsetText (o : Int) where
  mark : Char
  sign : Int
  form : OffsetForm
  mark_sign : direction? mark = some sign
  signed : o = sign * o.natAbs
  whole : form.unit ∣ o.natAbs

namespace OffsetText

variable {o : Int}

/-- The text of an offset with a plus or a minus sign. -/
def plain (o : Int) (form : OffsetForm) (h : form.unit ∣ o.natAbs) : OffsetText o where
  mark := if o < 0 then '-' else '+'
  sign := if o < 0 then -1 else 1
  form := form
  mark_sign := by split <;> rfl
  signed := by split <;> omega
  whole := h

def text (w : OffsetText o) : List Char :=
  w.mark :: w.form.write o.natAbs

theorem text_ends (w : OffsetText o) : EndsDigits w.text ∧ '.' ∉ w.text.head? := by
  unfold text
  rcases mark_of_direction? w.mark_sign with h | h | h <;> rw [h] <;> simp

/-- Without seconds an offset is read at once. -/
theorem read (w : OffsetText o) (ho : o.natAbs < 86400) (hf : w.form ≠ .seconds) :
    offset? w.text = some (o, []) := by
  have hread {minutes : Nat} (hm : offsetMinutes? (w.form.behindHours o.natAbs) = some (minutes, []))
      (hsum : 3600 * (o.natAbs / 3600) + 60 * minutes = o.natAbs) : offset? w.text = some (o, []) := by
    rw [text, OffsetForm.write, offset?_sign w.mark_sign (by omega) hm, hsum, ← w.signed]
  have hmod : o.natAbs / 60 % 60 < 60 := Nat.mod_lt _ (by decide)
  have hwhole := w.whole
  cases hform : w.form with
  | hours =>
    rw [hform] at hread hwhole
    exact hread rfl (Nat.mul_div_cancel' hwhole)
  | compact =>
    rw [hform] at hread hwhole
    have hm := offsetMinutes?_compact hmod []
    rw [List.append_nil] at hm
    simp only [OffsetForm.unit] at hwhole
    exact hread hm (by omega)
  | minutes =>
    rw [hform] at hread hwhole
    have hm := offsetMinutes?_colon hmod []
    rw [List.append_nil] at hm
    simp only [OffsetForm.unit] at hwhole
    exact hread hm (by omega)
  | seconds => exact absurd hform hf

/-- The sign, hours and minutes of an offset. -/
def clock (w : OffsetText o) : List Char :=
  w.mark :: (padded 2 (o.natAbs / 3600) ++ ':' :: padded 2 (o.natAbs / 60 % 60))

theorem text_seconds (w : OffsetText o) (hf : w.form = .seconds) :
    w.text = w.clock ++ ':' :: padded 2 (o.natAbs % 60) := by
  simp [text, clock, OffsetForm.write, hf, OffsetForm.behindHours]

/-- In a text that ends in the hours and minutes of an offset, the last sign is the offset's own. -/
theorem lastDirection?_clock (w : OffsetText o) {before : List Char} (hs : ' ' ∈ before) :
    lastDirection? (before ++ w.clock) = some w.sign := by
  refine lastDirection?_append hs w.mark_sign fun c hc => ?_
  rcases List.mem_append.mp hc with hc | hc
  · exact direction?_of_isDigit (isDigit_of_mem_padded hc)
  · rcases List.mem_cons.mp hc with rfl | hc
    · rfl
    · exact direction?_of_isDigit (isDigit_of_mem_padded hc)

/-- The offset that the sign, hours and minutes write. -/
def clockOffset (w : OffsetText o) : Int :=
  w.sign * (o.natAbs / 60 * 60 : Nat)

/-- Of an offset with seconds the hours and minutes are read at first. -/
theorem read_clock (w : OffsetText o) (ho : o.natAbs < 86400) (hf : w.form = .seconds) :
    offset? w.text = some (w.clockOffset, ':' :: padded 2 (o.natAbs % 60)) := by
  have hm := offsetMinutes?_colon (Nat.mod_lt (o.natAbs / 60) (by decide)) (':' :: padded 2 (o.natAbs % 60))
  rw [text, OffsetForm.write, hf, OffsetForm.behindHours, offset?_sign w.mark_sign (by omega) hm, clockOffset,
    show 3600 * (o.natAbs / 3600) + 60 * (o.natAbs / 60 % 60) = o.natAbs / 60 * 60 by omega]

/-- The sign applies to the seconds as well, also where hours and minutes are zero. -/
theorem clockOffset_add (w : OffsetText o) : w.clockOffset + w.sign * (o.natAbs % 60 : Nat) = o := by
  rw [clockOffset, ← Int.mul_add, ← Int.natCast_add, Nat.div_add_mod' o.natAbs 60]
  exact w.signed.symm

/-- Without its seconds an offset goes a part of the way. -/
theorem clockOffset_between (w : OffsetText o) :
    0 ≤ w.clockOffset ∧ w.clockOffset ≤ o ∨ o ≤ w.clockOffset ∧ w.clockOffset ≤ 0 := by
  have hsum := w.clockOffset_add
  unfold clockOffset at hsum ⊢
  rcases direction?_eq w.mark_sign with hd | hd
  · rw [hd] at hsum ⊢
    omega
  · rw [hd] at hsum ⊢
    omega

end OffsetText

end Calendar

open Calendar Text

/-! ## Zoned times -/

namespace Zoned

theorem parse?_of_offset {cs rest : List Char} {wall : Timestamp} {o : Int} {z : Zoned}
    (ht : timestamp? cs = some (wall, rest)) (ho : offset? rest = some (o, [])) (hz : of? wall o = some z) :
    parse? cs = some z := by
  simp [parse?, ht, ho, hz]

/-- The path with seconds: an offset, a tail of seconds, and the sign from in front of them. -/
theorem parse?_of_seconds {head rest behind : List Char} {wall : Timestamp} {o sign : Int} {seconds : Nat}
    {z : Zoned} (ht : timestamp? (head ++ behind) = some (wall, rest)) (ho : offset? rest = some (o, behind))
    (hz : of? wall o = some z) (hs : offsetSeconds? behind = some seconds) (hd : lastDirection? head = some sign) :
    parse? (head ++ behind) = of? wall (o + sign * seconds) := by
  have hne : behind ≠ [] := by
    rintro rfl
    contradiction
  simp [parse?, ht, ho, hz, hs, hd, hne]

theorem of?_eq_some {wall : Timestamp} {o : Int} {z : Zoned} :
    of? wall o = some z ↔ o.natAbs < 86400 ∧ (⟨wall, o⟩ : Zoned).inRange ∧ ⟨wall, o⟩ = z := by
  simp [of?, and_assoc]

/-- Every layout of a time with every way of writing its offset reads back as that time. -/
theorem parse?_text {t : Timestamp} {o : Int} (l : t.Layout) (w : OffsetText o) (h : t.Valid)
    (ho : o.natAbs < 86400) (hr : (⟨t, o⟩ : Zoned).inRange) : parse? (l.text ++ w.text) = some ⟨t, o⟩ := by
  obtain ⟨hends, hpoint⟩ := w.text_ends
  have ht := l.read h hends hpoint
  by_cases hform : w.form = .seconds
  · -- The text up to the minutes has to be a zoned time of its own before its seconds are looked at.
    have hbetween := w.clockOffset_between
    have hz := of?_eq_some.mpr ⟨by omega, inRange_of_between h hr hbetween, rfl⟩
    have hspace : ' ' ∈ l.text := by simp [Timestamp.Layout.text]
    have hoffset := w.read_clock ho hform
    have hseconds : offsetSeconds? (':' :: padded 2 (o.natAbs % 60)) = some (o.natAbs % 60) :=
      offsetSeconds?_colon (Nat.mod_lt _ (by decide))
    have hsplit : l.text ++ w.text = (l.text ++ w.clock) ++ ':' :: padded 2 (o.natAbs % 60) := by
      rw [w.text_seconds hform, List.append_assoc]
    rw [hsplit] at ht ⊢
    rw [parse?_of_seconds ht hoffset hz hseconds (w.lastDirection?_clock hspace), w.clockOffset_add]
    exact of?_eq_some.mpr ⟨ho, hr, rfl⟩
  · exact parse?_of_offset ht (w.read ho hform) (of?_eq_some.mpr ⟨ho, hr, rfl⟩)

/-! ## Seconds do not lead out of a day -/

theorem natAbs_lt_of_seconds {rest behind head : List Char} {wall : Timestamp} {o sign : Int} {seconds : Nat}
    {z : Zoned} (ho : offset? rest = some (o, behind)) (hz : of? wall o = some z)
    (hs : offsetSeconds? behind = some seconds) (hd : lastDirection? head = some sign) :
    (o + sign * seconds).natAbs < 86400 := by
  have hdvd := dvd_of_offset? ho
  have hlt := offsetSeconds?_lt hs
  have hday := (of?_eq_some.mp hz).1
  -- A multiple of a minute below a day leaves room for 59 seconds in either direction.
  rcases lastDirection?_eq hd with rfl | rfl <;> omega

/-- A time and an offset below a day are read back from their texts if the instant is in range, and no seconds behind an
offset ever lead out of a day. -/
theorem parse?_inverts :
    (∀ {t : Timestamp} {o : Int} (l : t.Layout) (w : OffsetText o), t.Valid → o.natAbs < 86400 →
      (⟨t, o⟩ : Zoned).inRange → parse? (l.text ++ w.text) = some ⟨t, o⟩) ∧
    ∀ {cs rest behind : List Char} {wall : Timestamp} {o sign : Int} {seconds : Nat} {z : Zoned},
      timestamp? cs = some (wall, rest) → offset? rest = some (o, behind) → of? wall o = some z →
      offsetSeconds? behind = some seconds →
      lastDirection? (cs.take (cs.length - behind.length)) = some sign →
      (o + sign * seconds).natAbs < 86400 := by
  constructor
  · intro t o l w ht ho hr
    exact parse?_text l w ht ho hr
  · intro cs rest behind wall o sign seconds z _ hoffset hz hs hd
    exact natAbs_lt_of_seconds hoffset hz hs hd

/-- Half a second into a leap second of a year before the year 1. -/
def leapSecond : Timestamp := ⟨⟨-4, 2, 29⟩, 23, 59, 59, 1500000000⟩

theorem valid_leapSecond : leapSecond.Valid :=
  ⟨by decide, by decide, by decide, by decide, .inr ⟨rfl, by decide⟩⟩

theorem parse?_inverts_sample :
    leapSecond.Valid ∧ (-30 : Int).natAbs < 86400 ∧ (⟨leapSecond, -30⟩ : Zoned).inRange ∧
      parse? "-0004-02-29 23:59:60.500-00:00:30".toList = some ⟨leapSecond, -30⟩ ∧
      timestamp? "-0004-02-29 23:59:60.500-00:00:30".toList = some (leapSecond, "-00:00:30".toList) ∧
      offset? "-00:00:30".toList = some (0, ":30".toList) ∧ offsetSeconds? ":30".toList = some 30 ∧
      lastDirection? "-0004-02-29 23:59:60.500-00:00".toList = some (-1) ∧
      (0 + (-1) * (30 : Nat) : Int).natAbs < 86400 := by
  have hr : (⟨leapSecond, -30⟩ : Zoned).inRange := by decide +kernel
  have ht : timestamp? "-0004-02-29 23:59:60.500-00:00:30".toList = some (leapSecond, "-00:00:30".toList) := by
    decide +kernel
  have hz : of? leapSecond 0 = some ⟨leapSecond, 0⟩ := by decide +kernel
  have ho : offset? "-00:00:30".toList = some (0, ":30".toList) := by decide +kernel
  have hs : offsetSeconds? ":30".toList = some 30 := by decide +kernel
  have hd : lastDirection? "-0004-02-29 23:59:60.500-00:00".toList = some (-1) := by decide +kernel
  have hread := parse?_inverts.1 (.written leapSecond valid_leapSecond)
    (.plain (-30) .seconds (Nat.one_dvd _)) valid_leapSecond (by decide) hr
  exact ⟨valid_leapSecond, by decide, hr, hread, ht, ho, hs, hd, parse?_inverts.2 ht ho hz hs hd⟩

end Zoned

end Rowset
