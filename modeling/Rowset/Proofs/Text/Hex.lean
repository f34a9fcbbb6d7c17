import Rowset.Proofs.Steps
import Rowset.Text.Hex

/-!
# Hexadecimal digits are read back

Every byte is written as two digits, each a single byte of text, and read from them (`decode_encode`).
-/

namespace Rowset.Text.Hex

theorem digitAt_digit {n : Nat} (h : n < 16) (position : Nat) : digitAt position (digit n) = .ok n := by
  have hvalue : ∀ n < 16, digitValue? (digit n) = some n := by decide
  rw [digitAt, hvalue n h]

theorem decodeFrom_encode (position : Nat) (seen bs : List UInt8) :
    decodeFrom position seen (encode bs) = .ok (seen.reverse ++ bs) := by
  induction bs generalizing position seen with
  | nil => rw [List.append_nil]; rfl
  | cons b bs ih =>
    have hb := b.toNat_lt
    have hbyte : UInt8.ofNat (16 * (b.toNat / 16) + b.toNat % 16) = b := by
      rw [Nat.div_add_mod, UInt8.ofNat_toNat]
    change decodeFrom position seen (digit (b.toNat / 16) :: digit (b.toNat % 16) :: encode bs) = _
    rw [decodeFrom, digitAt_digit (by omega), ok_bind, digitAt_digit (by omega), ok_bind, hbyte, ih,
      List.reverse_cons, List.append_assoc, List.singleton_append]

theorem byteSize_encode (bs : List UInt8) : byteSize (encode bs) = 2 * bs.length := by
  have hsize : ∀ n < 16, (digit n).utf8Size = 1 := by decide
  induction bs with
  | nil => rfl
  | cons b bs ih =>
    have hb := b.toNat_lt
    change byteSize (digit (b.toNat / 16) :: digit (b.toNat % 16) :: encode bs) = _
    rw [byteSize_cons, byteSize_cons, hsize _ (by omega), hsize _ (by omega), ih, List.length_cons]
    omega

/-- The digits of some bytes are read as these bytes. -/
theorem decode_encode (bs : List UInt8) : decode (encode bs) = .ok bs := by
  rw [decode, byteSize_encode, if_neg (by omega), decodeFrom_encode]
  rfl

end Rowset.Text.Hex
