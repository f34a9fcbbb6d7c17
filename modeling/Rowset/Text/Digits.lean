/-!
# Decimal digits

Numbers are written with ASCII digits everywhere in this library: in descriptors, dates, decimals and JSON.
`ofDigits` reads a run of digits as a natural number, `digits` writes one without leading zeros, and
`padded` with leading zeros up to a given width.
-/

namespace Rowset.Text

/-- The value of an ASCII digit; the characters `+`, `-` and letters have none and are never asked for. -/
def digitValue (c : Char) : Nat :=
  c.toNat - '0'.toNat

/-- The number that a run of digits writes, zero for the empty run. -/
def ofDigits (ds : List Char) : Nat :=
  Nat.ofDigitChars 10 ds 0

/-- The digits of a number without leading zeros, a single zero for zero. -/
def digits (n : Nat) : List Char :=
  Nat.toDigits 10 n

/-- The digits of a number, with zeros in front up to the given width. -/
def padded (width n : Nat) : List Char :=
  List.replicate (width - (digits n).length) '0' ++ digits n

/-- The digits of an integer behind a minus sign if it is negative. -/
def signed (n : Int) : List Char :=
  if n < 0 then '-' :: digits n.natAbs else digits n.natAbs

/-- The digits `ds` with a point before the last `places` of them, and zeros in front so that a digit stands
before the point. -/
def placePoint (ds : List Char) (places : Nat) : List Char :=
  let ds := List.replicate (places + 1 - ds.length) '0' ++ ds
  ds.take (ds.length - places) ++ '.' :: ds.drop (ds.length - places)

/-- Splits a text after its longest run of digits at the start. -/
def spanDigits (cs : List Char) : List Char × List Char :=
  (cs.takeWhile Char.isDigit, cs.dropWhile Char.isDigit)

/-- Reads a whole text as an integer: one optional sign, then digits. -/
def parseInt? (cs : List Char) : Option Int :=
  let unsigned (ds : List Char) : Option Nat :=
    if ds.isEmpty || !ds.all Char.isDigit then none else some (ofDigits ds)
  match cs with
  | '+' :: ds => (unsigned ds).map Int.ofNat
  | '-' :: ds => (unsigned ds).map fun n => -Int.ofNat n
  | ds => (unsigned ds).map Int.ofNat

/-! ## What is written is read -/

@[simp] theorem ofDigits_digits (n : Nat) : ofDigits (digits n) = n :=
  Nat.ofDigitChars_ten_toDigits

theorem digits_ne_nil (n : Nat) : digits n ≠ [] :=
  Nat.toDigits_ne_nil

theorem isDigit_of_mem_digits {n : Nat} {c : Char} (h : c ∈ digits n) : c.isDigit = true :=
  Nat.isDigit_of_mem_toDigits (by decide) (by decide) h

/-- Nothing is lost when a text is split behind its digits. -/
theorem spanDigits_append (cs : List Char) : (spanDigits cs).1 ++ (spanDigits cs).2 = cs :=
  List.takeWhile_append_dropWhile

/-- An integer is read back from its text. -/
theorem parseInt?_signed (n : Int) : parseInt? (signed n) = some n := by
  have hall (m : Nat) : (digits m).all Char.isDigit = true :=
    List.all_eq_true.mpr fun _ h => isDigit_of_mem_digits h
  have hempty (m : Nat) : (digits m).isEmpty = false := by
    cases h : digits m with
    | nil => exact absurd h (digits_ne_nil m)
    | cons => rfl
  unfold signed
  split
  · simp only [parseInt?, hempty, hall, ofDigits_digits]
    have hn : (n.natAbs : Int) = -n := Int.ofNat_natAbs_of_nonpos (by omega)
    show some (-(n.natAbs : Int)) = some n
    rw [hn, Int.neg_neg]
  · have hhead : ∀ c rest, digits n.natAbs = c :: rest → c ≠ '+' ∧ c ≠ '-' := by
      intro c rest h
      have hc : c.isDigit = true := isDigit_of_mem_digits (n := n.natAbs) (by simp [h])
      constructor <;> rintro rfl <;> simp [Char.isDigit] at hc
    unfold parseInt?
    split
    · next h => exact absurd rfl (hhead _ _ h).1
    · next h => exact absurd rfl (hhead _ _ h).2
    · simp only [hempty, hall, ofDigits_digits]
      have hn : (n.natAbs : Int) = n := Int.natAbs_of_nonneg (by omega)
      show some (n.natAbs : Int) = some n
      rw [hn]

end Rowset.Text
