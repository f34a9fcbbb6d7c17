import Rowset.Proofs.Calendar.Reading

/-!
# Seconds behind an accepted text

A text of a zoned time is accepted without seconds of the offset or with them.  What becomes of seconds that are put
behind a text without them is decided by the last sign behind the first space: they go in its direction, and without
such a sign they are refused (`Zoned.parse?_append`).  Behind a sign, hours and minutes that is the sign of the offset,
but only if a space stands somewhere in front of it; and behind the letter of universal time, which has no sign, it is
a sign of the date if the first space stands in front of one.

The main statement is `Zoned.parse?_append_seconds`.
-/

namespace Rowset

namespace Calendar

open Text

/-! ## Offsets without seconds -/

/-- Hours and minutes as they stand behind a sign: two digits each, with any colons and blanks between them. -/
inductive HoursMinutes : List Char → Prop
  | mk {h₁ h₂ m₁ m₂ : Char} {between : List Char} (hours : h₁.isDigit = true ∧ h₂.isDigit = true)
      (separators : ∀ c ∈ between, separatesMinutes c = true) (minutes : m₁.isDigit = true ∧ m₂.isDigit = true) :
      HoursMinutes (h₁ :: h₂ :: (between ++ [m₁, m₂]))

/-- The letter of universal time. -/
def IsUniversal (c : Char) : Prop := c = 'Z' ∨ c = 'z'

theorem twoDigits?_cons {most c d : Char} (hc : c.isDigit = true) (hd : d.isDigit = true) (rest : List Char) :
    twoDigits? most (c :: d :: rest) = if c ≤ most then some (ofDigits [c, d], rest) else none := by
  simp [twoDigits?, hc, hd]

theorem separatesMinutes_of_isDigit {c : Char} (h : c.isDigit = true) : separatesMinutes c = false := by
  have hcolon : c ≠ ':' := by
    rintro rfl
    contradiction
  simp [separatesMinutes, hcolon, isBlank_of_isDigit h]

theorem direction?_of_separatesMinutes {c : Char} (h : separatesMinutes c = true) : direction? c = none := by
  cases hd : direction? c with
  | none => rfl
  | some d => rcases mark_of_direction? hd with rfl | rfl | rfl <;> exact absurd h (by decide)

/-- No other sign stands behind the sign of an offset. -/
theorem HoursMinutes.unsigned {after : List Char} (h : HoursMinutes after) : ∀ c ∈ after, direction? c = none := by
  obtain ⟨hours, separators, minutes⟩ := h
  simp only [List.mem_cons, List.mem_append, List.not_mem_nil, or_false]
  rintro c (rfl | rfl | hc | rfl | rfl)
  · exact direction?_of_isDigit hours.1
  · exact direction?_of_isDigit hours.2
  · exact direction?_of_separatesMinutes (separators c hc)
  · exact direction?_of_isDigit minutes.1
  · exact direction?_of_isDigit minutes.2

/-- Colons and blanks may stand between hours and minutes, in any number. -/
theorem offsetMinutes?_between {between : List Char} {m₁ m₂ : Char} (hb : ∀ c ∈ between, separatesMinutes c = true)
    (hm : m₁.isDigit = true ∧ m₂.isDigit = true) (rest : List Char) :
    offsetMinutes? (between ++ m₁ :: m₂ :: rest) = if m₁ ≤ '5' then some (ofDigits [m₁, m₂], rest) else none := by
  unfold offsetMinutes?
  rw [List.dropWhile_append_of_pos hb, List.dropWhile_cons_of_neg (by simp [separatesMinutes_of_isDigit hm.1])]
  exact twoDigits?_cons hm.1 hm.2 rest

theorem offset?_mark {blanks : List Char} (hb : ∀ c ∈ blanks, isBlank c = true) {mark : Char} {d : Int}
    (hd : direction? mark = some d) (cs : List Char) :
    offset? (blanks ++ mark :: cs) = do
      let (hours, cs) ← twoDigits? '9' cs
      let (minutes, cs) ← offsetMinutes? cs
      return (d * (3600 * hours + 60 * minutes), cs) := by
  have hblank : isBlank mark = false := by rcases mark_of_direction? hd with rfl | rfl | rfl <;> decide
  have hletter : ¬(mark = 'Z' ∨ mark = 'z') := by rcases mark_of_direction? hd with rfl | rfl | rfl <;> decide
  simp [offset?, trimStart_blanks hb hblank, hletter, hd]

/-- Sign, hours and minutes are read alike, or refused, whatever follows them. -/
theorem HoursMinutes.read {after : List Char} (h : HoursMinutes after) {blanks : List Char} {mark : Char} {d : Int}
    (hb : ∀ c ∈ blanks, isBlank c = true) (hd : direction? mark = some d) :
    ∃ o? : Option Int, ∀ more, offset? (blanks ++ mark :: after ++ more) = o?.map fun o => (o, more) := by
  obtain @⟨h₁, h₂, m₁, m₂, between, hours, separators, minutes⟩ := h
  have hnine : h₁ ≤ '9' := by
    have := hours.1
    simp only [Char.isDigit, Bool.and_eq_true, decide_eq_true_eq] at this
    exact this.2
  refine ⟨if m₁ ≤ '5' then some (d * (3600 * ofDigits [h₁, h₂] + 60 * ofDigits [m₁, m₂])) else none, fun more => ?_⟩
  simp only [List.cons_append, List.append_assoc, List.nil_append, offset?_mark hb hd,
    twoDigits?_cons hours.1 hours.2, hnine, if_true, Option.bind_eq_bind, Option.bind_some,
    offsetMinutes?_between separators minutes]
  split_ifs <;> rfl

theorem universal_read {blanks : List Char} (hb : ∀ c ∈ blanks, isBlank c = true) {mark : Char}
    (hm : IsUniversal mark) (more : List Char) : offset? (blanks ++ [mark] ++ more) = some (0, more) := by
  have hblank : isBlank mark = false := by rcases hm with rfl | rfl <;> decide
  have hletter : (mark = 'Z' || mark = 'z') = true := by simpa [IsUniversal] using hm
  rw [List.append_assoc, List.singleton_append]
  unfold offset?
  rw [trimStart_blanks hb hblank]
  exact if_pos hletter

/-! ## The sign that is found -/

/-- A sign in front of the first space does not count. -/
theorem lastDirection?_eq_none {cs : List Char} (h : ∀ c ∈ cs.dropWhile (· != ' '), direction? c = none) :
    lastDirection? cs = none :=
  List.findSome?_eq_none_iff.mpr fun c hc => h c (List.mem_reverse.mp hc)

/-- Without a space in front of the last sign that sign is not found. -/
theorem lastDirection?_spaceless {before after : List Char} {mark : Char} {d : Int} (hs : ' ' ∉ before)
    (hm : direction? mark = some d) (ha : ∀ c ∈ after, direction? c = none) :
    lastDirection? (before ++ mark :: after) = none := by
  apply lastDirection?_eq_none
  have hbefore : ∀ c ∈ before, (c != ' ') = true := by
    intro c hc
    rw [bne_iff_ne]
    rintro rfl
    exact hs hc
  have hmark : (mark != ' ') = true := by rcases mark_of_direction? hm with rfl | rfl | rfl <;> decide
  rw [List.dropWhile_append_of_pos hbefore, List.dropWhile_cons, if_pos hmark]
  intro c hc
  exact ha c ((List.dropWhile_suffix _).mem hc)

end Calendar

open Calendar Text

/-! ## Zoned times -/

namespace Zoned

/-- The same clock with another offset, if that leads to an instant in range. -/
def shifted? (z : Zoned) (seconds : Int) : Option Zoned :=
  if (⟨z.wall, z.offset + seconds⟩ : Zoned).inRange then some ⟨z.wall, z.offset + seconds⟩ else none

theorem of?_eq_shifted? {z : Zoned} {seconds : Int} (h : (z.offset + seconds).natAbs < 86400) :
    of? z.wall (z.offset + seconds) = z.shifted? seconds := by
  simp [of?, shifted?, h]

/-- Seconds behind a text without them go in the direction of the last sign behind the first space, and are refused if
there is none. -/
theorem parse?_append {cs rest behind : List Char} {wall : Timestamp} {o : Int} {z : Zoned} {seconds : Nat}
    (h : parse? cs = some z) (ht : timestamp? cs = some (wall, rest))
    (ho : ∀ more, offset? (rest ++ more) = some (o, more)) (hs : offsetSeconds? behind = some seconds) :
    ⟨wall, o⟩ = z ∧ parse? (cs ++ behind) = (lastDirection? cs).bind fun d => z.shifted? (d * seconds) := by
  have hoffset : offset? rest = some (o, []) := by simpa using ho []
  have hz : of? wall o = some z := by simpa [parse?, ht, hoffset] using h
  obtain rfl := (of?_eq_some.mp hz).2.2
  have hrest : rest ≠ [] := by
    rintro rfl
    simp [offset?, trimStart] at hoffset
  have ht' := stops_timestamp.append ht hrest behind
  refine ⟨rfl, ?_⟩
  cases hd : lastDirection? cs with
  | none =>
    have hne : behind ≠ [] := by
      rintro rfl
      contradiction
    simp [parse?, ht', ho, hz, hs, hd, hne]
  | some d =>
    rw [parse?_of_seconds ht' (ho behind) hz hs hd]
    exact of?_eq_shifted? (z := ⟨wall, o⟩) (natAbs_lt_of_seconds (ho behind) hz hs hd)

/-- Seconds behind an accepted text without seconds.  Behind the letter of universal time they are refused if no sign
stands behind the first space; else they go in the direction of the last such sign, which is one of the date.  Behind
hours and minutes they go in the direction of the sign of the offset if a space stands in front of that sign, and are
refused if none does. -/
theorem parse?_append_seconds {cs rest : List Char} {z : Zoned} {seconds : Nat} (h : parse? cs = some z)
    (ht : timestamp? cs = some (z.wall, rest)) (hs : seconds < 60) :
    (∀ (blanks : List Char) (letter : Char), rest = blanks ++ [letter] → (∀ c ∈ blanks, isBlank c = true) →
      IsUniversal letter →
        z.offset = 0 ∧
        ((∀ c ∈ cs.dropWhile (· != ' '), direction? c = none) → parse? (cs ++ ':' :: padded 2 seconds) = none) ∧
        ∀ (before after : List Char) (mark : Char) (d : Int), cs = before ++ mark :: after → ' ' ∈ before →
          direction? mark = some d → (∀ c ∈ after, direction? c = none) →
            parse? (cs ++ ':' :: padded 2 seconds) = z.shifted? (d * seconds)) ∧
    ∀ (before blanks after : List Char) (mark : Char) (d : Int), cs = before ++ mark :: after →
      rest = blanks ++ mark :: after → (∀ c ∈ blanks, isBlank c = true) → direction? mark = some d →
        HoursMinutes after →
          parse? (cs ++ ':' :: padded 2 seconds) = if ' ' ∈ before then z.shifted? (d * seconds) else none := by
  have hseconds := offsetSeconds?_colon hs
  constructor
  · rintro blanks letter rfl hb hl
    obtain ⟨hz, hparse⟩ := parse?_append h ht (universal_read hb hl) hseconds
    refine ⟨congrArg Zoned.offset hz.symm, fun hnone => ?_, ?_⟩
    · rw [hparse, lastDirection?_eq_none hnone, Option.bind_none]
    · rintro before after mark d rfl hspace hd hafter
      rw [hparse, lastDirection?_append hspace hd hafter, Option.bind_some]
  · rintro before blanks after mark d rfl rfl hb hd hafter
    -- The offset is read with or without seconds behind it, for it was read without them.
    obtain ⟨o?, ho⟩ := hafter.read hb hd
    obtain ⟨o, rfl⟩ : ∃ o, o? = some o := by
      cases o? with
      | none =>
        have hnone : offset? (blanks ++ mark :: after) = none := by simpa using ho []
        simp [parse?, ht, hnone] at h
      | some o => exact ⟨o, rfl⟩
    obtain ⟨-, hparse⟩ := parse?_append h ht ho hseconds
    rw [hparse]
    split_ifs with hspace
    · rw [lastDirection?_append hspace hd hafter.unsigned, Option.bind_some]
    · rw [lastDirection?_spaceless hspace hd hafter.unsigned, Option.bind_none]

/-- A time of an afternoon in January. -/
def afternoon : Timestamp := ⟨⟨2023, 1, 5⟩, 17, 4, 42, 0⟩

theorem parse?_append_seconds_sample :
    parse? " 2023-01-05 17:04:42Z".toList = some ⟨afternoon, 0⟩ ∧
      timestamp? " 2023-01-05 17:04:42Z".toList = some (afternoon, "Z".toList) ∧ IsUniversal 'Z' ∧
      parse? "2023-01-05 17:04:42 -00:30".toList = some ⟨afternoon, -1800⟩ ∧
      timestamp? "2023-01-05 17:04:42 -00:30".toList = some (afternoon, " -00:30".toList) ∧
      HoursMinutes "00:30".toList ∧ 30 < 60 ∧
      parse? (" 2023-01-05 17:04:42Z".toList ++ ':' :: padded 2 30) = some ⟨afternoon, -30⟩ ∧
      parse? ("2023-01-05 17:04:42 -00:30".toList ++ ':' :: padded 2 30) = some ⟨afternoon, -1830⟩ := by
  have hs : 30 < 60 := by decide
  have hz : parse? " 2023-01-05 17:04:42Z".toList = some ⟨afternoon, 0⟩ := by decide +kernel
  have htz : timestamp? " 2023-01-05 17:04:42Z".toList = some (afternoon, "Z".toList) := by decide +kernel
  have ho : parse? "2023-01-05 17:04:42 -00:30".toList = some ⟨afternoon, -1800⟩ := by decide +kernel
  have hto : timestamp? "2023-01-05 17:04:42 -00:30".toList = some (afternoon, " -00:30".toList) := by
    decide +kernel
  have hminutes : HoursMinutes "00:30".toList :=
    @HoursMinutes.mk '0' '0' '3' '0' [':'] (by decide) (List.forall_mem_singleton.mpr rfl) (by decide)
  obtain ⟨-, -, hread⟩ := (parse?_append_seconds hz htz hs).1 [] 'Z' rfl (by simp) (.inl rfl)
  refine ⟨hz, htz, .inl rfl, ho, hto, hminutes, hs, ?_, ?_⟩
  · have hunsigned : ("05 17:04:42Z".toList.all fun c => direction? c = none) = true := by decide
    rw [hread " 2023-01".toList "05 17:04:42Z".toList '-' (-1) rfl (by decide) rfl (by simpa using hunsigned)]
    decide +kernel
  · rw [(parse?_append_seconds ho hto hs).2 "2023-01-05 17:04:42 ".toList [' '] "00:30".toList '-' (-1) rfl rfl
      (List.forall_mem_singleton.mpr rfl) rfl hminutes]
    decide +kernel

/-- Behind the letter of universal time seconds can be accepted, and behind an offset they can be refused although the
instant is in range. -/
theorem seconds_misread :
    parse? " 2023-01-05 17:04:42Z".toList = some ⟨afternoon, 0⟩ ∧
      parse? " 2023-01-05 17:04:42Z:30".toList = some ⟨afternoon, -30⟩ ∧
      parse? "2023-01-05\t17:04:42+05:30".toList = some ⟨afternoon, 19800⟩ ∧
      (⟨afternoon, 19815⟩ : Zoned).inRange = true ∧ parse? "2023-01-05\t17:04:42+05:30:15".toList = none := by
  decide +kernel

end Zoned

end Rowset
