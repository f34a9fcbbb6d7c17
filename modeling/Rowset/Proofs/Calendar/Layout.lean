import Rowset.Calendar.Printer
import Rowset.Calendar.Reader
import Rowset.Proofs.Calendar.Days
import Rowset.Proofs.Text.Digits

/-!
# The layout of dates and times

A `Layout` is a text of a time, number by number: year, month and day with dashes between them, a space, then hour,
minute and second with colons between them and the fraction of the second, if there is one.  A number may be written
with leading zeros as far as it has room, and a fraction with any number of digits.  A layout is read as the time
that it writes (`Layout.read`), and `Timestamp.write` writes one (`Layout.text_written`).
-/

namespace Rowset

namespace Calendar

open Text

/-! ## Numbers -/

/-- The digits `ds` write the number `n` and are at most `width` many. -/
structure Number (width n : Nat) (ds : List Char) : Prop where
  digits : ∀ c ∈ ds, c.isDigit = true
  nonempty : ds ≠ []
  fits : ds.length ≤ width
  value : ofDigits ds = n

theorem Number.trimStart_append {width n : Nat} {ds : List Char} (h : Number width n ds) (rest : List Char) :
    trimStart (ds ++ rest) = ds ++ rest := by
  obtain ⟨c, ds, rfl⟩ := List.exists_cons_of_ne_nil h.nonempty
  exact trimStart_cons (isBlank_of_isDigit (h.digits c List.mem_cons_self)) _

theorem Number.read {width n : Nat} {ds rest : List Char} (h : Number width n ds) (hr : EndsDigits rest) :
    number? width (ds ++ rest) = some (n, rest) := by
  have htake : ((ds ++ rest).take width).takeWhile Char.isDigit = ds := by
    rw [List.take_append, List.take_of_length_le h.fits, List.takeWhile_append_of_pos h.digits,
      hr.takeWhile_take, List.append_nil]
  simp only [number?, h.trimStart_append, htake, List.isEmpty_iff, h.nonempty, if_false, h.value, List.drop_left]

@[simp] theorem mark?_cons (mark : Char) (rest : List Char) : mark? mark (mark :: rest) = some rest :=
  if_pos rfl

/-! ## Years and fractions -/

/-- The texts of a year: up to four digits, or behind a sign any number of digits. -/
inductive YearText : Int → List Char → Prop
  | plain {n : Nat} {ds : List Char} (h : Number 4 n ds) : YearText n ds
  | after {n width : Nat} {ds : List Char} (h : Number width n ds) : YearText n ('+' :: ds)
  | before {n width : Nat} {ds : List Char} (h : Number width n ds) : YearText (-n) ('-' :: ds)

theorem YearText.read {year : Int} {ds rest : List Char} (h : YearText year ds) (hr : EndsDigits rest) :
    year? (ds ++ rest) = some (year, rest) := by
  cases h with
  | @plain n ds h =>
    have hread := h.read hr
    have htrim := h.trimStart_append rest
    obtain ⟨c, ds, rfl⟩ := List.exists_cons_of_ne_nil h.nonempty
    have hc := h.digits c List.mem_cons_self
    unfold year?
    rw [htrim]
    dsimp only
    split
    · next heq =>
      cases heq
      contradiction
    · next heq =>
      cases heq
      contradiction
    · rw [hread]
      rfl
  | after h =>
    rw [List.cons_append, year?, trimStart_cons (by decide)]
    simp [hr.spanDigits_append h.digits, h.nonempty, h.value]
  | before h =>
    rw [List.cons_append, year?, trimStart_cons (by decide)]
    simp [hr.spanDigits_append h.digits, h.nonempty, h.value]

/-- The texts of a fraction of a second, given in nanoseconds; none is needed for zero. -/
inductive FractionText : Nat → List Char → Prop
  | none : FractionText 0 []
  | digits {nano : Nat} {ds : List Char} (hd : ∀ c ∈ ds, c.isDigit = true) (hne : ds ≠ [])
      (h : ofDigits ds * 10 ^ 9 = nano * 10 ^ ds.length) : FractionText nano ('.' :: ds)

/-- Digits past the ninth are zeros. -/
theorem nano_of_kept {nano : Nat} {ds : List Char} (hd : ∀ c ∈ ds, c.isDigit = true)
    (h : ofDigits ds * 10 ^ 9 = nano * 10 ^ ds.length) :
    ofDigits (ds.take 9) * 10 ^ (9 - (ds.take 9).length) = nano := by
  rcases Nat.le_total ds.length 9 with hle | hle
  · rw [List.take_of_length_le hle]
    have hpow : 10 ^ 9 = 10 ^ (9 - ds.length) * 10 ^ ds.length := by rw [← Nat.pow_add, Nat.sub_add_cancel hle]
    rw [hpow, ← Nat.mul_assoc] at h
    exact Nat.eq_of_mul_eq_mul_right (Nat.pow_pos (by decide)) h
  · have hlen : (ds.take 9).length = 9 := by rw [List.length_take, Nat.min_eq_left hle]
    rw [hlen, Nat.sub_self, Nat.pow_zero, Nat.mul_one]
    have hbehind : ofDigits (ds.drop 9) < 10 ^ (ds.drop 9).length :=
      ofDigits_lt fun c hc => hd c (List.mem_of_mem_drop hc)
    have hsplit := ofDigits_append (ds.take 9) (ds.drop 9)
    rw [List.take_append_drop] at hsplit
    have hpow : 10 ^ ds.length = 10 ^ (ds.drop 9).length * 10 ^ 9 := by
      rw [← Nat.pow_add, List.length_drop, Nat.sub_add_cancel hle]
    rw [hsplit, hpow, ← Nat.mul_assoc] at h
    have hvalue := Nat.eq_of_mul_eq_mul_right (by decide) h
    have hpos : 0 < 10 ^ (ds.drop 9).length := Nat.pow_pos (by decide)
    calc ofDigits (ds.take 9)
        = (10 ^ (ds.drop 9).length * ofDigits (ds.take 9) + ofDigits (ds.drop 9)) /
            10 ^ (ds.drop 9).length := by
          rw [Nat.mul_add_div hpos, Nat.div_eq_of_lt hbehind, Nat.add_zero]
      _ = nano := by rw [hvalue, Nat.mul_div_cancel _ hpos]

theorem FractionText.endsDigits {nano : Nat} {ds rest : List Char} (h : FractionText nano ds)
    (hr : EndsDigits rest) : EndsDigits (ds ++ rest) := by
  cases h with
  | none => exact hr
  | digits => exact endsDigits_cons.mpr rfl

/-- Every way of writing a fraction, the empty one included, is read as its nanoseconds. -/
theorem FractionText.read {nano : Nat} {ds rest : List Char} (h : FractionText nano ds) (hr : EndsDigits rest)
    (hp : '.' ∉ rest.head?) : fraction? (ds ++ rest) = some (nano, rest) := by
  cases h with
  | none =>
    unfold fraction?
    split
    · simp_all
    · rfl
  | digits hd hne h =>
    simp only [List.cons_append, fraction?, hr.spanDigits_append hd, List.isEmpty_iff, hne, if_false,
      Nat.pow_eq, nano_of_kept hd h]

end Calendar

open Calendar Text

/-! ## Layouts -/

/-- A text of a time, number by number. -/
structure Timestamp.Layout (t : Timestamp) where
  year : List Char
  month : List Char
  day : List Char
  hour : List Char
  minute : List Char
  second : List Char
  fraction : List Char
  yearText : YearText t.date.year year
  monthText : Number 2 t.date.month month
  dayText : Number 2 t.date.day day
  hourText : Number 2 t.hour hour
  minuteText : Number 2 t.minute minute
  secondText : Number 2 (t.second + t.nano / Timestamp.nanosPerSecond) second
  fractionText : FractionText (t.nano % Timestamp.nanosPerSecond) fraction

namespace Timestamp.Layout

variable {t : Timestamp}

def dateText (l : Layout t) : List Char :=
  l.year ++ '-' :: (l.month ++ '-' :: l.day)

def timeText (l : Layout t) : List Char :=
  l.hour ++ ':' :: (l.minute ++ ':' :: (l.second ++ l.fraction))

def text (l : Layout t) : List Char :=
  l.dateText ++ ' ' :: l.timeText

theorem date_read (l : Layout t) (h : t.Valid) {rest : List Char} (hr : EndsDigits rest) :
    date? (l.dateText ++ rest) = some (t.date, rest) := by
  have hends (cs : List Char) : EndsDigits ('-' :: cs) := endsDigits_cons.mpr rfl
  have hdate : Date.of? t.date.year t.date.month t.date.day = some t.date := if_pos h.date
  simp only [dateText, List.append_assoc, List.cons_append, date?, l.yearText.read (hends _),
    l.monthText.read (hends _), l.dayText.read hr, mark?_cons, Option.bind_eq_bind, Option.bind_some, hdate]
  rfl

/-- The space in front of the hour is a blank like any other. -/
theorem hour_read (l : Layout t) {rest : List Char} (hr : EndsDigits rest) :
    number? 2 (' ' :: (l.hour ++ rest)) = some (t.hour, rest) :=
  l.hourText.read hr

/-- A layout is read back as the time it lays out, with anything behind it that could not go on the number. -/
theorem read (l : Layout t) (h : t.Valid) {rest : List Char} (hr : EndsDigits rest) (hp : '.' ∉ rest.head?) :
    timestamp? (l.text ++ rest) = some (t, rest) := by
  have hends (cs : List Char) : EndsDigits (':' :: cs) := endsDigits_cons.mpr rfl
  have hspace (cs : List Char) : EndsDigits (' ' :: cs) := endsDigits_cons.mpr rfl
  simp only [text, timeText, List.append_assoc, List.cons_append, timestamp?, l.date_read h (hspace _),
    l.hour_read (hends _), l.minuteText.read (hends _), l.secondText.read (l.fractionText.endsDigits hr),
    l.fractionText.read hr hp, mark?_cons, Option.bind_eq_bind, Option.bind_some, h.of?_eq]
  rfl

end Timestamp.Layout

/-! ## The layout that is written -/

namespace Calendar

theorem number_padded {width n : Nat} (hw : 0 < width) (h : n < 10 ^ width) :
    Number width n (padded width n) where
  digits _ hc := isDigit_of_mem_padded hc
  nonempty := by
    have := length_padded hw h
    rintro hnil
    rw [hnil, List.length_nil] at this
    omega
  fits := Nat.le_of_eq (length_padded hw h)
  value := ofDigits_padded width n

theorem yearText_writeYear (year : Int) : YearText year (Date.writeYear year) := by
  have hnumber : Number (padded 4 year.natAbs).length year.natAbs (padded 4 year.natAbs) :=
    ⟨fun _ hc => isDigit_of_mem_padded hc, by simp [padded, digits_ne_nil], Nat.le_refl _,
      ofDigits_padded _ _⟩
  unfold Date.writeYear
  split
  · next h =>
    have hfour : Number 4 year.toNat (padded 4 year.toNat) := number_padded (by decide) (by omega)
    have hplain := YearText.plain hfour
    rwa [Int.toNat_of_nonneg h.1] at hplain
  · split
    · have hbefore := YearText.before hnumber
      rwa [show -(year.natAbs : Int) = year by omega] at hbefore
    · have hafter := YearText.after hnumber
      rwa [show (year.natAbs : Int) = year by omega] at hafter

theorem fractionText_writeFraction {nano : Nat} (h : nano < 10 ^ 9) :
    FractionText nano (Timestamp.writeFraction nano) := by
  have hdigits {width places : Nat} (hw : 0 < width) (hsum : width + places = 9) (hz : nano % 10 ^ places = 0) :
      FractionText nano ('.' :: padded width (nano / 10 ^ places)) := by
    have hlt : nano / 10 ^ places < 10 ^ width := by
      rw [Nat.div_lt_iff_lt_mul (Nat.pow_pos (by decide)), ← Nat.pow_add, hsum]
      exact h
    have hnumber := number_padded hw hlt
    refine .digits hnumber.digits hnumber.nonempty ?_
    rw [hnumber.value, length_padded hw hlt, ← hsum, Nat.add_comm, Nat.pow_add, ← Nat.mul_assoc,
      Nat.div_mul_cancel (Nat.dvd_of_mod_eq_zero hz)]
  unfold Timestamp.writeFraction
  split_ifs with hzero hmillis hmicros
  · subst hzero
    exact .none
  · have hthree : FractionText nano ('.' :: padded 3 (nano / 10 ^ 6)) := hdigits (by decide) rfl hmillis
    exact hthree
  · have hsix : FractionText nano ('.' :: padded 6 (nano / 10 ^ 3)) := hdigits (by decide) rfl hmicros
    exact hsix
  · have hnanos : FractionText nano ('.' :: padded 9 (nano / 10 ^ 0)) := hdigits (by decide) rfl (Nat.mod_one _)
    rwa [Nat.pow_zero, Nat.div_one] at hnanos

end Calendar

namespace Timestamp

/-- The layout that a time is written in. -/
def Layout.written (t : Timestamp) (h : t.Valid) : Layout t where
  year := Date.writeYear t.date.year
  month := padded 2 t.date.month
  day := padded 2 t.date.day
  hour := padded 2 t.hour
  minute := padded 2 t.minute
  second := padded 2 (t.second + t.nano / nanosPerSecond)
  fraction := writeFraction (t.nano % nanosPerSecond)
  yearText := yearText_writeYear _
  monthText := number_padded (by decide) (by have := (Date.isValid_iff.mp h.date).month_le; omega)
  dayText := number_padded (by decide) (Nat.lt_of_le_of_lt (Date.isValid_iff.mp h.date).day_le_31 (by decide))
  hourText := number_padded (by decide) (by have := h.hour; omega)
  minuteText := number_padded (by decide) (by have := h.minute; omega)
  secondText := number_padded (by decide) (Nat.lt_of_le_of_lt h.second_le_60 (by decide))
  fractionText := fractionText_writeFraction (Nat.mod_lt _ (by decide))

/-- What is written is the text of a layout, so it is read as a layout is. -/
theorem Layout.text_written (t : Timestamp) (h : t.Valid) : (Layout.written t h).text = t.write := by
  simp [Layout.text, Layout.dateText, Layout.timeText, Layout.written, write, Date.write]

end Timestamp

end Rowset
