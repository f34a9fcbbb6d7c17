import Mathlib.Data.Nat.Digits.Lemmas
import Rowset.Decimal.Parts
import Rowset.Proofs.Decimal.Number

/-!
# Decimals and their parts

The coefficient of a decimal is split off as the only bytes that write its magnitude and begin with no zero
(`Minimal.unique`).  So parts and decimals determine each other: `Inverse` lists what splitting and building owe each
other, and `split_build_laws` gives it for decimals and for decimals that may be absent.
-/

namespace Rowset.Decimal

/-! ## Bytes of a magnitude -/

theorem ofMagnitudeBytes_append (as bs : List UInt8) :
    ofMagnitudeBytes (as ++ bs) = bs.foldl (fun n b => 256 * n + b.toNat) (ofMagnitudeBytes as) := by
  simp [ofMagnitudeBytes]

/-- With fuel for all digits, the bytes put in front are those of the number. -/
theorem ofMagnitudeBytes_bytesOnto (fuel n : Nat) (rest : List UInt8) (h : n < 256 ^ fuel) :
    ofMagnitudeBytes (bytesOnto fuel n rest) = rest.foldl (fun n b => 256 * n + b.toNat) n := by
  induction fuel generalizing n rest with
  | zero =>
    obtain rfl : n = 0 := by simpa using h
    rfl
  | succ fuel ih =>
    unfold bytesOnto
    split
    · next hn => subst hn; rfl
    · rw [ih (n / 256) _ (by rw [Nat.pow_succ] at h; omega)]
      have hb : (UInt8.ofNat (n % 256)).toNat = n % 256 := by simp
      rw [List.foldl_cons, hb, Nat.div_add_mod]

/-- The fuel is enough for all digits. -/
theorem lt_pow_fuel (n : Nat) : n < 256 ^ (n.log2 / 8 + 1) := by
  have h : n < 2 ^ (n.log2 + 1) := Nat.lt_log2_self
  calc n < 2 ^ (n.log2 + 1) := h
    _ ≤ 2 ^ (8 * (n.log2 / 8 + 1)) := Nat.pow_le_pow_right (by decide) (by omega)
    _ = 256 ^ (n.log2 / 8 + 1) := by rw [Nat.pow_mul]

/-- The bytes of a number write that number. -/
theorem ofMagnitudeBytes_magnitudeBytes (n : Nat) : ofMagnitudeBytes (magnitudeBytes n) = n :=
  ofMagnitudeBytes_bytesOnto _ n [] (lt_pow_fuel n)

/-- Bytes that write a number and do not begin with zero. -/
structure Minimal (bs : List UInt8) (n : Nat) : Prop where
  number : ofMagnitudeBytes bs = n
  head : bs.head? ≠ some 0

/-- Bytes are digits in base 256, the highest first. -/
theorem ofMagnitudeBytes_eq_ofDigits (bs : List UInt8) :
    ofMagnitudeBytes bs = Nat.ofDigits 256 (bs.reverse.map UInt8.toNat) := by
  induction bs using List.reverseRecOn with
  | nil => rfl
  | append_singleton bs b ih =>
    rw [ofMagnitudeBytes_append, ih, List.reverse_append, List.reverse_singleton, List.singleton_append,
      List.map_cons, Nat.ofDigits_cons, List.foldl_cons, List.foldl_nil, Nat.add_comm]

theorem digits_ofMagnitudeBytes {bs : List UInt8} (h : bs.head? ≠ some 0) :
    Nat.digits 256 (ofMagnitudeBytes bs) = bs.reverse.map UInt8.toNat := by
  rw [ofMagnitudeBytes_eq_ofDigits]
  refine Nat.digits_ofDigits 256 (by decide) _ (fun k hk => ?_) fun hne hlast => ?_
  · obtain ⟨b, -, rfl⟩ := List.mem_map.mp hk
    exact b.toNat_lt
  · cases bs with
    | nil => contradiction
    | cons b bs =>
      have hb : b.toNat = (0 : UInt8).toNat := by simpa using hlast
      exact h (congrArg some (UInt8.toNat_inj.mp hb))

/-- A number is written by only one sequence of bytes that does not begin with zero. -/
theorem Minimal.unique {as bs : List UInt8} {n : Nat} (ha : Minimal as n) (hb : Minimal bs n) : as = bs := by
  have h : as.reverse.map UInt8.toNat = bs.reverse.map UInt8.toNat := by
    rw [← digits_ofMagnitudeBytes ha.head, ← digits_ofMagnitudeBytes hb.head, ha.number, hb.number]
  exact List.reverse_inj.mp (List.map_injective_iff.mpr (fun _ _ => UInt8.toNat_inj.mp) h)

theorem head_bytesOnto {fuel n : Nat} {rest : List UInt8} (hn : n < 256 ^ fuel) (h : n = 0 → rest.head? ≠ some 0) :
    (bytesOnto fuel n rest).head? ≠ some 0 := by
  induction fuel generalizing n rest with
  | zero => exact h (by simpa using hn)
  | succ fuel ih =>
    unfold bytesOnto
    split_ifs with hzero
    · exact h hzero
    · -- If the division leaves nothing, the digit put in front is the number itself, which is not zero.
      refine ih (by rw [Nat.pow_succ] at hn; omega) fun hlast hhead => ?_
      have hdigit : n % 256 = 0 := by
        simpa using congrArg UInt8.toNat (Option.some.inj hhead)
      omega

theorem minimal_magnitudeBytes (n : Nat) : Minimal (magnitudeBytes n) n :=
  ⟨ofMagnitudeBytes_magnitudeBytes n, head_bytesOnto (lt_pow_fuel n) nofun⟩

theorem minimal_dropWhile (bs : List UInt8) : Minimal (bs.dropWhile (· == 0)) (ofMagnitudeBytes bs) := by
  induction bs with
  | nil => exact ⟨rfl, nofun⟩
  | cons b bs ih =>
    by_cases hb : b = 0
    · subst hb
      have hzero : ofMagnitudeBytes (0 :: bs) = ofMagnitudeBytes bs := by simp [ofMagnitudeBytes]
      rw [hzero]
      exact ih
    · rw [List.dropWhile_cons_of_neg (by simpa using hb)]
      exact ⟨rfl, by simpa using hb⟩

/-- Bytes come back from their number without the zeros in front. -/
theorem magnitudeBytes_ofMagnitudeBytes (bs : List UInt8) :
    magnitudeBytes (ofMagnitudeBytes bs) = bs.dropWhile (· == 0) :=
  (minimal_magnitudeBytes _).unique (minimal_dropWhile bs)

/-! ## Parts -/

/-- What the parts of a decimal say about it. -/
structure Describes (p : Parts) (d : Decimal) : Prop where
  form : p.form = .finite
  negative : p.negative = true ↔ d.value < 0
  coefficient : Minimal p.coefficient d.coefficient.natAbs
  exponent : p.exponent = d.exponent

/-- Splitting into parts and building from parts undo each other on the decimals among the values of a type.  The
buffer makes no difference, and nothing is infinite. -/
structure Inverse {α : Type} (embed : Decimal → α) (split : α → Buffer → Parts × Bool)
    (build : Parts → Except PartsFault α) : Prop where
  describes : ∀ d buffer, Describes (split (embed d) buffer).1 d
  same : ∀ a buffer buffer', (split a buffer).1 = (split a buffer').1
  build_split : ∀ d buffer, d.HasExponent → build (split (embed d) buffer).1 = .ok (embed d)
  split_build : ∀ negative bytes e, -2 ^ 31 ≤ e ∧ e < 2 ^ 31 →
    ∃ d, build ⟨.finite, negative, bytes, e⟩ = .ok (embed d) ∧ ∀ buffer, (split (embed d) buffer).1 =
      ⟨.finite, negative && ofMagnitudeBytes bytes != 0, bytes.dropWhile (· == 0), e⟩
  infinite : ∀ p, p.form = .infinite → build p = .error .infinity

theorem replace_content (buffer : Buffer) (bytes : List UInt8) : (buffer.replace bytes).1.content = bytes := by
  unfold Buffer.replace
  split_ifs <;> rfl

theorem decompose_fst (d : Decimal) (buffer : Buffer) :
    (d.decompose buffer).1 = ⟨.finite, d.isNegative, magnitudeBytes d.coefficient.natAbs, d.exponent⟩ := by
  simp only [decompose, replace_content]

theorem describes_decompose (d : Decimal) (buffer : Buffer) : Describes (d.decompose buffer).1 d := by
  rw [decompose_fst]
  refine ⟨rfl, ?_, minimal_magnitudeBytes _, rfl⟩
  rw [value_neg_iff, isNegative, decide_eq_true_eq]

theorem compose_decompose {d : Decimal} (h : d.HasExponent) (buffer : Buffer) :
    compose (d.decompose buffer).1 = .ok d := by
  have hsigned : (if d.isNegative then -(d.coefficient.natAbs : Int) else d.coefficient.natAbs) = d.coefficient := by
    simp only [isNegative, decide_eq_true_eq]
    split_ifs <;> omega
  rw [decompose_fst, compose, h.exponent_eq]
  simp only [ofMagnitudeBytes_magnitudeBytes, hsigned, ofExponent, Int.neg_neg]

theorem decompose_compose (negative : Bool) (bytes : List UInt8) {e : Int} (h : -2 ^ 31 ≤ e ∧ e < 2 ^ 31) :
    ∃ d, compose ⟨.finite, negative, bytes, e⟩ = .ok d ∧ ∀ buffer, (d.decompose buffer).1 =
      ⟨.finite, negative && ofMagnitudeBytes bytes != 0, bytes.dropWhile (· == 0), e⟩ := by
  refine ⟨_, rfl, fun buffer => ?_⟩
  rw [decompose_fst, ← magnitudeBytes_ofMagnitudeBytes]
  generalize ofMagnitudeBytes bytes = m
  have hnegative : (ofExponent (if negative then -(m : Int) else m) e).isNegative = (negative && m != 0) := by
    rw [Bool.eq_iff_iff, isNegative, ofExponent, decide_eq_true_eq, Bool.and_eq_true, bne_iff_ne]
    cases negative with
    | false => simp
    | true =>
      simp only [if_true, true_and]
      omega
  have hmagnitude : (ofExponent (if negative then -(m : Int) else m) e).coefficient.natAbs = m := by
    rw [ofExponent]
    split_ifs <;> simp
  have hexponent : (ofExponent (if negative then -(m : Int) else m) e).exponent = e := by
    rw [(hasExponent_ofExponent _ h).exponent_eq, ofExponent, Int.neg_neg]
  simp only [hnegative, hmagnitude, hexponent]

theorem inverse_decompose : Inverse id decompose compose where
  describes := describes_decompose
  same d buffer buffer' := by rw [decompose_fst, decompose_fst]
  build_split _ buffer h := compose_decompose h buffer
  split_build negative bytes _ h := decompose_compose negative bytes h
  infinite p h := by rw [compose, h]

/-! ## Decimals that may be absent -/

theorem compose?_of_ne {p : Parts} (h : p.form ≠ .nan) : compose? p = some <$> compose p := by
  unfold compose?
  split
  · contradiction
  · rfl

theorem inverse_decompose? : Inverse some decompose? compose? where
  describes := describes_decompose
  same
    | none, buffer, buffer' => by simp only [decompose?, replace_content]
    | some d, buffer, buffer' => inverse_decompose.same d buffer buffer'
  build_split d buffer h := by
    have hform : (d.decompose buffer).1.form ≠ .nan := by
      rw [(describes_decompose d buffer).form]
      decide
    exact (compose?_of_ne hform).trans (congrArg (some <$> ·) (compose_decompose h buffer))
  split_build negative bytes e h := by
    obtain ⟨d, hd, hsplit⟩ := decompose_compose negative bytes h
    have hform : Form.finite ≠ .nan := by decide
    exact ⟨d, (compose?_of_ne hform).trans (congrArg (some <$> ·) hd), hsplit⟩
  infinite p h := by
    have hform : p.form ≠ .nan := by
      rw [h]
      decide
    rw [compose?_of_ne hform, inverse_decompose.infinite p h]
    rfl

/-- Splitting a decimal into parts and building it from parts undo each other, and so they do where a decimal may be
absent.  There the form `nan` stands for none; without that it stands for nothing. -/
theorem split_build_laws :
    Inverse id decompose compose ∧ (∀ p : Parts, p.form = .nan → compose p = .error .nan) ∧
      Inverse some decompose? compose? ∧ (∀ buffer, (decompose? none buffer).1 = ⟨.nan, false, [], 0⟩) ∧
        ∀ p : Parts, p.form = .nan → compose? p = .ok none := by
  refine ⟨inverse_decompose, fun p h => ?_, inverse_decompose?, fun buffer => ?_, fun p h => ?_⟩
  · rw [compose, h]
  · simp only [decompose?, replace_content]
  · rw [compose?, h]

/-- The least exponent is kept, and a zero has no sign. -/
theorem split_build_laws_sample :
    HasExponent ⟨-65535, 2 ^ 31⟩ ∧
      compose (decompose ⟨-65535, 2 ^ 31⟩ ⟨16, [1, 2, 3]⟩).1 = .ok ⟨-65535, 2 ^ 31⟩ ∧
      (∃ d, compose ⟨.finite, true, [0, 0], 3⟩ = .ok d ∧ (d.decompose ⟨0, []⟩).1 = ⟨.finite, false, [], 3⟩) ∧
      compose ⟨.infinite, false, [1], 0⟩ = .error .infinity ∧ compose ⟨.nan, false, [1], 0⟩ = .error .nan ∧
      compose? ⟨.nan, false, [1], 0⟩ = .ok none := by
  obtain ⟨hdecimal, hnan, -, -, habsent⟩ := split_build_laws
  have hexponent : HasExponent ⟨-65535, 2 ^ 31⟩ := ⟨by decide, by decide⟩
  refine ⟨hexponent, hdecimal.build_split _ _ hexponent, ?_, hdecimal.infinite _ rfl, hnan _ rfl, habsent _ rfl⟩
  obtain ⟨d, hd, hsplit⟩ := hdecimal.split_build true [0, 0] 3 (by decide)
  exact ⟨d, hd, hsplit _⟩

end Rowset.Decimal
