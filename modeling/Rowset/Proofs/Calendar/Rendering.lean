import Rowset.Proofs.Calendar.Reading

/-!
# Written times are read back

A valid time is read back from the text that is written for it (`Timestamp.parse?_write`), and so is a day
(`Date.parse?_write`).  The offset of a zoned time is written to the nearest minute and the clock beside it unchanged.
So the text of a zoned time is read as that clock with the offset that is written; this is the time itself if the offset
is a whole number of minutes, and otherwise another instant or no time at all (`Zoned.parse?_write_nearestMinute`).
-/

namespace Rowset

open Calendar Text

/-! ## Days and times -/

/-- Midnight of a day. -/
def Date.midnight (d : Date) : Timestamp := ⟨d, 0, 0, 0, 0⟩

theorem Date.valid_midnight {d : Date} (h : d.isValid = true) : d.midnight.Valid :=
  ⟨h, Nat.zero_lt_succ _, Nat.zero_lt_succ _, Nat.zero_lt_succ _, .inl (Nat.zero_lt_succ _)⟩

theorem Date.parse?_write {d : Date} (h : d.isValid = true) : parse? d.write = some d := by
  have hread := (Timestamp.Layout.written d.midnight (valid_midnight h)).date_read (valid_midnight h) endsDigits_nil
  have htext : (Timestamp.Layout.written d.midnight (valid_midnight h)).dateText = d.write := by
    simp [Timestamp.Layout.dateText, Timestamp.Layout.written, write, midnight]
  rw [List.append_nil, htext] at hread
  simp [parse?, hread, midnight]

theorem Timestamp.write_append_read {t : Timestamp} (h : t.Valid) {rest : List Char} (hr : EndsDigits rest)
    (hp : '.' ∉ rest.head?) : timestamp? (t.write ++ rest) = some (t, rest) := by
  rw [← Layout.text_written t h]
  exact (Layout.written t h).read h hr hp

/-- A written time reads back as itself, fraction and leap second included. -/
theorem Timestamp.parse?_write {t : Timestamp} (h : t.Valid) : parse? t.write = some t := by
  have hread := write_append_read h endsDigits_nil nofun
  rw [List.append_nil] at hread
  simp [parse?, hread]

/-! ## Zoned times -/

namespace Zoned

/-- The nearest whole number of minutes, in seconds; half a minute is rounded away from zero. -/
def nearestMinute (offset : Int) : Int :=
  (if offset < 0 then -1 else 1) * (60 * ((offset.natAbs + 30) / 60) : Nat)

theorem nearestMinute_eq_iff {offset : Int} : nearestMinute offset = offset ↔ 60 ∣ offset := by
  unfold nearestMinute
  split_ifs <;> omega

/-- The written offset reads back as the nearest minute, which is all that it writes. -/
theorem writeOffset_read {offset : Int} (h : offset.natAbs < 86400) :
    offset? (writeOffset offset) = some (nearestMinute offset, []) := by
  have hd : direction? (if offset < 0 then '-' else '+') = some (if offset < 0 then -1 else 1) := by
    split_ifs <;> rfl
  have hm := offsetMinutes?_colon (Nat.mod_lt ((offset.natAbs + 30) / 60) (by decide : 0 < 60)) []
  rw [List.append_nil] at hm
  have hread := offset?_sign hd (show (offset.natAbs + 30) / 60 / 60 < 100 by omega) hm
  have hsum : 3600 * ((offset.natAbs + 30) / 60 / 60) + 60 * ((offset.natAbs + 30) / 60 % 60) =
      60 * ((offset.natAbs + 30) / 60) := by omega
  rw [hsum] at hread
  exact hread

theorem writeOffset_ends (offset : Int) : EndsDigits (writeOffset offset) ∧ '.' ∉ (writeOffset offset).head? := by
  unfold writeOffset
  split_ifs <;> simp

/-- The text of an accepted time is read as its clock with the offset to the nearest minute.  That is the same instant
just for a whole number of minutes, and then it is the same time. -/
theorem parse?_write_nearestMinute {cs : List Char} {z : Zoned} (h : parse? cs = some z) :
    parse? z.write = of? z.wall (nearestMinute z.offset) ∧ (parse? z.write = some z ↔ 60 ∣ z.offset) ∧
      ∀ y, parse? z.write = some y → (y.sameInstant z = true ↔ 60 ∣ z.offset) := by
  obtain ⟨hwall, hday, hrange⟩ := parse?_sound h
  have hread : parse? z.write = of? z.wall (nearestMinute z.offset) := by
    obtain ⟨hends, hpoint⟩ := writeOffset_ends z.offset
    have ht := Timestamp.write_append_read hwall hends hpoint
    simp only [parse?, write, ht, writeOffset_read hday, Option.bind_eq_bind, Option.bind_some, List.isEmpty_nil,
      if_true]
    cases of? z.wall (nearestMinute z.offset) <;> rfl
  have hsame : ∀ y, parse? z.write = some y → (y.sameInstant z = true ↔ 60 ∣ z.offset) := by
    intro y hy
    rw [hread, of?_eq_some] at hy
    obtain ⟨-, -, rfl⟩ := hy
    simp only [sameInstant, unixSeconds, beq_self_eq_true, Bool.and_true, beq_iff_eq, ← nearestMinute_eq_iff]
    omega
  refine ⟨hread, ⟨fun hback => ?_, fun hminutes => ?_⟩, hsame⟩
  · exact (hsame z hback).mp (by simp [sameInstant])
  · rw [hread, nearestMinute_eq_iff.mpr hminutes, of?_eq_some]
    exact ⟨hday, hrange, rfl⟩

/-- The first instant of a year in which clocks were set by the sun. -/
def newYear : Timestamp := ⟨⟨1900, 1, 1⟩, 0, 0, 0, 0⟩

theorem parse?_write_nearestMinute_sample :
    parse? "1900-01-01 00:00:00+00:19:32".toList = some ⟨newYear, 1172⟩ ∧
      parse? (⟨newYear, 1172⟩ : Zoned).write = some ⟨newYear, 1200⟩ ∧
      (⟨newYear, 1200⟩ : Zoned).sameInstant ⟨newYear, 1172⟩ = false ∧
      parse? "1900-01-01 00:00:00-03".toList = some ⟨newYear, -10800⟩ ∧
      parse? (⟨newYear, -10800⟩ : Zoned).write = some ⟨newYear, -10800⟩ := by
  have hseconds : parse? "1900-01-01 00:00:00+00:19:32".toList = some ⟨newYear, 1172⟩ := by decide +kernel
  have hhours : parse? "1900-01-01 00:00:00-03".toList = some ⟨newYear, -10800⟩ := by decide +kernel
  obtain ⟨hread, -, hsame⟩ := parse?_write_nearestMinute hseconds
  have hwritten : parse? (⟨newYear, 1172⟩ : Zoned).write = some ⟨newYear, 1200⟩ := hread.trans (by decide +kernel)
  refine ⟨hseconds, hwritten, ?_, hhours, (parse?_write_nearestMinute hhours).2.1.mpr (by decide)⟩
  rw [Bool.eq_false_iff, ne_eq, hsame _ hwritten]
  decide

/-- The text of an accepted time can be read as another instant, and it can be no text of a time. -/
theorem rendered_apart :
    parse? "1900-01-01 00:00:00+00:19:32".toList = some ⟨newYear, 1172⟩ ∧
      (⟨newYear, 1172⟩ : Zoned).write = "1900-01-01 00:00:00+00:20".toList ∧
      parse? "1900-01-01 00:00:00+00:20".toList = some ⟨newYear, 1200⟩ ∧
      (⟨newYear, 1200⟩ : Zoned).sameInstant ⟨newYear, 1172⟩ = false ∧
      parse? "1900-01-01 00:00:00+23:59:45".toList = some ⟨newYear, 86385⟩ ∧
      (⟨newYear, 86385⟩ : Zoned).write = "1900-01-01 00:00:00+24:00".toList ∧
      parse? "1900-01-01 00:00:00+24:00".toList = none := by
  decide +kernel

end Zoned

end Rowset
