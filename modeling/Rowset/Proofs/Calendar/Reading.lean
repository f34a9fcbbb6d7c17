import Rowset.Proofs.Calendar.Offset

/-!
# What is read as a time

A reader of dates and times sees of a text no more than what it takes and the character behind that: once it has left
something, the text may go on (`Stops`).  So a time is read the same with more behind it (`stops_timestamp`).  Whatever
is read as a date or a time is one there is (`date_valid`, `timestamp_valid`).
-/

namespace Rowset.Calendar

open Text

variable {α β : Type}

/-- A function that reads something from the start of a text. -/
abbrev Reader (α : Type) : Type := List Char → Option (α × List Char)

/-- Of a text that is left in part the same is read however it goes on; where there is no text, none is left. -/
structure Stops (read : Reader α) : Prop where
  nil : ∀ {a : α} {rest : List Char}, read [] = some (a, rest) → rest = []
  append : ∀ {cs : List Char} {a : α} {rest : List Char}, read cs = some (a, rest) → rest ≠ [] →
    ∀ more, read (cs ++ more) = some (a, rest ++ more)

/-! ## Readers in a row -/

theorem Stops.ne_nil {read : Reader α} (h : Stops read) {cs rest : List Char} {a : α} (hr : read cs = some (a, rest))
    (hne : rest ≠ []) : cs ≠ [] := by
  rintro rfl
  exact hne (h.nil hr)

theorem Stops.bind {read : Reader α} {next : α → Reader β} (h : Stops read) (hn : ∀ a, Stops (next a)) :
    Stops fun cs => do
      let (a, cs) ← read cs
      next a cs where
  nil hr := by
    obtain ⟨⟨a, mid⟩, ha, hb⟩ := Option.bind_eq_some_iff.mp hr
    obtain rfl := h.nil ha
    exact (hn a).nil hb
  append hr hne more := by
    obtain ⟨⟨a, mid⟩, ha, hb⟩ := Option.bind_eq_some_iff.mp hr
    exact Option.bind_eq_some_iff.mpr
      ⟨_, h.append ha ((hn a).ne_nil hb hne) more, (hn a).append hb hne more⟩

theorem Stops.behind {next : Reader β} (mark : Char) (h : Stops next) :
    Stops fun cs => do
      let cs ← mark? mark cs
      next cs where
  nil hr := by
    obtain ⟨mid, hm, -⟩ := Option.bind_eq_some_iff.mp hr
    contradiction
  append {cs _ _} hr hne more := by
    obtain ⟨mid, hm, hb⟩ := Option.bind_eq_some_iff.mp hr
    refine Option.bind_eq_some_iff.mpr ⟨mid ++ more, ?_, h.append hb hne more⟩
    cases cs with
    | nil => contradiction
    | cons c cs =>
      simp only [mark?] at hm
      split_ifs at hm with hc
      cases hm
      exact if_pos hc

/-- What becomes of the value that is read does not matter. -/
theorem Stops.map {read : Reader α} (h : Stops read) (f : α → β) :
    Stops fun cs => (read cs).map fun (a, rest) => (f a, rest) where
  nil hr := by
    obtain ⟨⟨a, rest⟩, ha, hb⟩ := Option.map_eq_some_iff.mp hr
    cases hb
    exact h.nil ha
  append hr hne more := by
    obtain ⟨⟨a, rest⟩, ha, hb⟩ := Option.map_eq_some_iff.mp hr
    cases hb
    exact Option.map_eq_some_iff.mpr ⟨_, h.append ha hne more, rfl⟩

/-- Building a value takes nothing of the text. -/
theorem Stops.build (x : Option β) :
    Stops fun cs => do
      let b ← x
      return (b, cs) where
  nil hr := by
    obtain ⟨b, -, hb⟩ := Option.bind_eq_some_iff.mp hr
    cases hb
    rfl
  append hr _ _ := by
    obtain ⟨_, hx, hb⟩ := Option.bind_eq_some_iff.mp hr
    cases hb
    exact Option.bind_eq_some_iff.mpr ⟨_, hx, rfl⟩

/-! ## Numbers -/

theorem trimStart_append {cs : List Char} (h : trimStart cs ≠ []) (more : List Char) :
    trimStart (cs ++ more) = trimStart cs ++ more := by
  unfold trimStart at h ⊢
  rw [List.dropWhile_append, if_neg (by simpa using h)]

/-- A run that ends inside a text ends there however the text goes on. -/
theorem takeWhile_append_of_lt {p : Char → Bool} {cs : List Char} (h : (cs.takeWhile p).length < cs.length)
    (more : List Char) : (cs ++ more).takeWhile p = cs.takeWhile p := by
  rw [List.takeWhile_append, if_neg (by omega)]

theorem length_takeWhile_lt {p : Char → Bool} {cs : List Char} (h : cs.dropWhile p ≠ []) :
    (cs.takeWhile p).length < cs.length := by
  have hsplit := congrArg List.length (List.takeWhile_append_dropWhile (p := p) (l := cs))
  have := List.length_pos_iff.mpr h
  rw [List.length_append] at hsplit
  omega

theorem spanDigits_append_more {cs : List Char} (hne : (spanDigits cs).2 ≠ []) (more : List Char) :
    spanDigits (cs ++ more) = ((spanDigits cs).1, (spanDigits cs).2 ++ more) := by
  simp only [spanDigits] at hne ⊢
  rw [takeWhile_append_of_lt (length_takeWhile_lt hne), List.dropWhile_append,
    if_neg (by simpa using hne)]

/-- The digits of a number are as many as there are, or as many as there is room for. -/
theorem take_takeWhile_append {width : Nat} {cs : List Char}
    (h : ((cs.take width).takeWhile Char.isDigit).length < cs.length)
    (more : List Char) :
    ((cs ++ more).take width).takeWhile Char.isDigit = (cs.take width).takeWhile Char.isDigit := by
  rw [List.take_append]
  rcases Nat.le_total width cs.length with hle | hle
  · rw [Nat.sub_eq_zero_of_le hle, List.take_zero, List.append_nil]
  · rw [List.take_of_length_le hle] at h ⊢
    exact takeWhile_append_of_lt h _

/-- A number field with a non-digit behind it is read the same when the text goes on. -/
theorem stops_number (width : Nat) : Stops (number? width) where
  nil hr := by
    simp [number?, trimStart] at hr
  append {cs n rest} hr hne more := by
    simp only [number?] at hr
    split_ifs at hr with hempty
    cases hr
    have hlt : (((trimStart cs).take width).takeWhile Char.isDigit).length < (trimStart cs).length := by
      simpa using hne
    have htrim : trimStart cs ≠ [] := List.length_pos_iff.mp (Nat.zero_lt_of_lt hlt)
    simp only [number?, trimStart_append htrim, take_takeWhile_append hlt, List.drop_append_of_le_length hlt.le]
    exact if_neg hempty

/-- A year behind its sign. -/
def run? : Reader Nat := fun cs =>
  if (spanDigits cs).1.isEmpty then none else some (ofDigits (spanDigits cs).1, (spanDigits cs).2)

theorem stops_run : Stops run? where
  nil hr := by
    simp [run?, spanDigits] at hr
  append {cs n rest} hr hne more := by
    unfold run? at hr ⊢
    split_ifs at hr with hempty
    cases hr
    rw [spanDigits_append_more hne, if_neg hempty]

theorem year?_cons {cs t : List Char} {c : Char} (h : trimStart cs = c :: t) :
    year? cs =
      if c = '-' then (run? t).map fun (n, rest) => (-(n : Int), rest)
      else if c = '+' then (run? t).map fun (n, rest) => ((n : Int), rest)
      else (number? 4 (c :: t)).map fun (n, rest) => ((n : Int), rest) := by
  unfold year?
  rw [h]
  dsimp only
  split
  · next heq =>
    cases heq
    rfl
  · next heq =>
    cases heq
    rfl
  · next hminus hplus =>
    have hm : c ≠ '-' := fun hc => hminus t (by rw [hc])
    have hp : c ≠ '+' := fun hc => hplus t (by rw [hc])
    rw [if_neg hm, if_neg hp]

theorem stops_year : Stops year? where
  nil hr := by
    simp [year?, trimStart, number?] at hr
  append {cs y rest} hr hne more := by
    have htrim : trimStart cs ≠ [] := by
      intro hnil
      unfold year? at hr
      rw [hnil] at hr
      simp [number?, trimStart] at hr
    obtain ⟨c, t, ht⟩ := List.exists_cons_of_ne_nil htrim
    have ht' : trimStart (cs ++ more) = c :: (t ++ more) := by rw [trimStart_append htrim, ht, List.cons_append]
    rw [year?_cons ht] at hr
    rw [year?_cons ht']
    split_ifs at hr ⊢
    · exact (stops_run.map fun n => -(n : Int)).append hr hne more
    · exact (stops_run.map fun n => (n : Int)).append hr hne more
    · exact ((stops_number 4).map fun n => (n : Int)).append hr hne more

theorem stops_fraction : Stops fraction? where
  nil hr := by
    cases hr
    rfl
  append {cs nano rest} hr hne more := by
    cases cs with
    | nil => cases hr; contradiction
    | cons c cs =>
      by_cases hc : c = '.'
      · subst hc
        simp only [List.cons_append, fraction?] at hr ⊢
        split_ifs at hr with hempty
        cases hr
        rw [spanDigits_append_more hne, if_neg hempty]
      · have hnone (cs : List Char) : fraction? (c :: cs) = some (0, c :: cs) :=
          fraction?.eq_2 _ fun _ h => hc (List.cons.inj h).1
        rw [hnone] at hr
        cases hr
        exact hnone (cs ++ more)

/-! ## Dates and times -/

theorem stops_date : Stops date? :=
  stops_year.bind fun _ => .behind '-' <| (stops_number 2).bind fun _ => .behind '-' <|
    (stops_number 2).bind fun _ => .build _

theorem stops_timestamp : Stops timestamp? :=
  stops_date.bind fun _ => (stops_number 2).bind fun _ => .behind ':' <| (stops_number 2).bind fun _ =>
    .behind ':' <| (stops_number 2).bind fun _ => stops_fraction.bind fun _ => .build _

/-! ## Valid values -/

theorem date_valid {cs rest : List Char} {d : Date} (h : date? cs = some (d, rest)) : d.isValid = true := by
  simp only [date?, Option.bind_eq_bind, Option.bind_eq_some_iff, Prod.exists] at h
  obtain ⟨year, _, -, _, -, month, _, -, _, -, day, _, -, date, hdate, h⟩ := h
  cases h
  simp only [Date.of?] at hdate
  split_ifs at hdate with hvalid
  cases hdate
  exact hvalid

theorem of?_valid {d : Date} {hour minute second nano : Nat} {t : Timestamp} (hd : d.isValid = true)
    (h : Timestamp.of? d hour minute second nano = some t) : t.Valid := by
  unfold Timestamp.of? at h
  split_ifs at h with hclock hsecond hleap
  · cases h
    exact ⟨hd, hclock.1, hclock.2.1, hsecond, .inl hclock.2.2⟩
  · cases h
    refine ⟨hd, hclock.1, hclock.2.1, Nat.lt_succ_self 59, .inr ⟨rfl, ?_⟩⟩
    rw [Nat.two_mul]
    exact Nat.add_lt_add_left hclock.2.2 _

/-- What is read as a time is one: its date exists and its clock is in range. -/
theorem timestamp_valid {cs rest : List Char} {t : Timestamp} (h : timestamp? cs = some (t, rest)) : t.Valid := by
  simp only [timestamp?, Option.bind_eq_bind, Option.bind_eq_some_iff, Prod.exists] at h
  obtain ⟨date, _, hdate, hour, _, -, _, -, minute, _, -, _, -, second, _, -, nano, _, -, t, ht, h⟩ := h
  cases h
  exact of?_valid (date_valid hdate) ht

end Rowset.Calendar

namespace Rowset

open Calendar

/-! ## Whole texts -/

theorem Date.parse?_valid {cs : List Char} {d : Date} (h : parse? cs = some d) : d.isValid = true := by
  unfold parse? at h
  split at h
  · next hread =>
    cases h
    exact date_valid hread
  · cases h

theorem Timestamp.parse?_valid {cs : List Char} {t : Timestamp} (h : parse? cs = some t) : t.Valid := by
  unfold parse? at h
  split at h
  · next hread =>
    cases h
    exact timestamp_valid hread
  · cases h

/-- What is read is a valid clock, an offset below a day and an instant in range. -/
theorem Zoned.parse?_sound {cs : List Char} {z : Zoned} (h : Zoned.parse? cs = some z) :
    z.wall.Valid ∧ z.offset.natAbs < 86400 ∧ z.inRange = true := by
  have hsound {wall : Timestamp} {o : Int} (hw : wall.Valid) (hz : Zoned.of? wall o = some z) :
      z.wall.Valid ∧ z.offset.natAbs < 86400 ∧ z.inRange = true := by
    obtain ⟨hday, hrange, rfl⟩ := Zoned.of?_eq_some.mp hz
    exact ⟨hw, hday, hrange⟩
  simp only [Zoned.parse?, Option.bind_eq_bind, Option.bind_eq_some_iff, Prod.exists] at h
  obtain ⟨wall, rest, ht, offset, behind, -, y, hy, h⟩ := h
  have hwall := timestamp_valid ht
  split_ifs at h
  · cases h
    exact hsound hwall hy
  · obtain ⟨_, -, h⟩ := Option.bind_eq_some_iff.mp h
    obtain ⟨_, -, hz⟩ := Option.bind_eq_some_iff.mp h
    exact hsound hwall hz

end Rowset
