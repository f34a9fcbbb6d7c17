import Rowset.Proofs.Calendar.Rendering
import Rowset.Proofs.Decimal.RoundTrip
import Rowset.Proofs.Text.Hex
import Rowset.Proofs.Value.Shape
import Rowset.Value.Printer

/-!
# Displayed values are decoded again

Values of most types are displayed in the form they are sent in: integers, decimals, texts, dates, times without an
offset and bytes.  `resent` makes JSON of the text of such a value, and decoding that gives an equal value
(`decode_resent`).  Apart from a decimal, which may come back with its zeros written out, it is the same value.
-/

namespace Rowset

open Json Text

namespace Value

/-- The types whose values are displayed in the form they are sent in. -/
def Resendable : Descriptor → Prop
  | .scalar kind _ => kind ∈ [.int, .long, .text, .geography, .date, .timestamp, .bytea]
  | .decimal .. => True
  | .array .. | .struct .. => False

/-- The text of a value as JSON: a number for the type `int`, and a string for every other type. -/
def resent : Descriptor → Value → Except Json.Fault Json
  | .scalar .int _, w => Json.parse (ascii (String.ofList w.write))
  | _, w => .ok (.string (String.ofList w.write))

variable {v : Json} {w : Value}

/-! ## Scalars -/

theorem resent_int {n : Int} (hn : -2 ^ 31 ≤ n ∧ n < 2 ^ 31) (nullable : Bool) :
    resent (.scalar .int nullable) (.int n) = .ok (.number (.ofInt n)) ∧
      decodeScalar .int (.number (.ofInt n)) = .ok (.int n) := by
  constructor
  · exact parse_literal (Numeral.literal_ofInt n)
  · refine orJson_eq_ok.mpr ?_
    rw [readInt?, Numeral.toInt?_ofInt, Option.filter_some_pos (fitsBits_iff.mpr hn)]
    rfl

theorem decodeBytes_encode (bs : List UInt8) :
    decodeBytes (String.ofList ('\\' :: 'x' :: Hex.encode bs)) = .ok bs := by
  simp only [decodeBytes, String.toList_ofList, Hex.decode_encode]

/-- Values of the quoted kinds are decoded from their texts. -/
theorem decodeScalar_write {kind : Scalar} (h : decodeScalar kind v = .ok w)
    (hkind : kind ∈ [.long, .text, .geography, .date, .timestamp, .bytea]) :
    decodeScalar kind (.string (String.ofList w.write)) = .ok w := by
  cases kind with
  | long =>
    obtain ⟨n, hn, rfl⟩ := orJson_map h
    refine orJson_eq_ok.mpr ?_
    rw [write, readLong?, String.toList_ofList, trim_signed, parseInt?_signed,
      Option.filter_some_pos (fitsBits_iff.mpr (readLong?_range hn))]
    rfl
  | text | geography =>
    obtain ⟨s, -, hs⟩ := decodeText_eq_ok.mp h
    cases hs
    rw [write, String.ofList_toList, decodeScalar, decodeText_eq_ok]
    exact ⟨s, rfl, rfl⟩
  | date =>
    obtain ⟨s, d, hd, rfl⟩ := decodeText_map h
    rw [decodeScalar, decodeText_eq_ok]
    refine ⟨_, rfl, orText_eq_ok.mpr ?_⟩
    rw [write, String.toList_ofList, Date.parse?_write (Date.parse?_valid hd)]
    rfl
  | timestamp =>
    obtain ⟨s, t, ht, rfl⟩ := decodeText_map h
    rw [decodeScalar, decodeText_eq_ok]
    refine ⟨_, rfl, orText_eq_ok.mpr ?_⟩
    rw [write, String.toList_ofList, Timestamp.parse?_write (Timestamp.parse?_valid ht)]
    rfl
  | bytea =>
    obtain ⟨s, -, hs⟩ := decodeText_eq_ok.mp h
    obtain ⟨bs, -, rfl⟩ := map_eq_ok.mp hs
    rw [decodeScalar, decodeText_eq_ok]
    refine ⟨_, rfl, map_eq_ok.mpr ⟨bs, ?_, rfl⟩⟩
    rw [write, decodeBytes_encode]
  | _ => contradiction

theorem equal_self {k : NativeKind} (h : w.nativeKind? = some k)
    (hk : k ∈ [.int32, .int64, .string, .date, .localTime, .bytes]) : w.equal w = true := by
  cases w with
  | int | long | text | geography | date | timestamp | bytea => simp [equal]
  | null => cases h
  | float | double | timestamptz | boolean | decimal | array | struct =>
    cases h
    contradiction

/-! ## Decimals -/

theorem decodeDecimal_write {p : UInt32} (h : decodeDecimal p v = .ok w) :
    ∃ w', decodeDecimal p (.string (String.ofList w.write)) = .ok w' ∧ w'.equal w = true := by
  obtain ⟨cs, d, -, hd, hfits, rfl⟩ := decodeDecimal_eq_ok.mp h
  have hscale := (Decimal.parse?_sound hd).2
  refine ⟨.decimal d.expanded, decodeDecimal_eq_ok.mpr ⟨d.write, d.expanded, ?_, Decimal.parse?_write hscale,
    Decimal.fitsPrecision_expanded hfits, rfl⟩, ?_⟩
  · rw [decimalText?, String.toList_ofList, write, Decimal.trim_write hscale]
  · rw [equal]
    exact Decimal.numericallyEq_expanded d

/-! ## All types -/

theorem resent_quoted {kind : Scalar} (hkind : kind ≠ .int) (nullable : Bool) (w : Value) :
    resent (.scalar kind nullable) w = .ok (.string (String.ofList w.write)) := by
  cases kind with
  | int => contradiction
  | _ => rfl

/-- A displayed value is decoded to a value that is equal to it. -/
theorem decode_resent {t : Descriptor} (ht : Resendable t) (h : decode t v = .ok w) (hw : w ≠ .null) :
    ∃ v' w', resent t w = .ok v' ∧ decode t v' = .ok w' ∧ w'.equal w = true := by
  have hv : v ≠ .null := by
    rintro rfl
    rw [decode_null] at h
    cases h
    contradiction
  cases t with
  | scalar kind nullable =>
    rw [decode_scalar hv] at h
    have hself : w.equal w = true := by
      refine equal_self (decodeScalar_sound h nullable).1 ?_
      cases kind <;> simp [Resendable, NativeKind.of] at ht ⊢
    by_cases hkind : kind = .int
    · subst hkind
      obtain ⟨n, hn, rfl⟩ := orJson_map h
      obtain ⟨hresent, hdecode⟩ := resent_int (readInt?_range hn) nullable
      exact ⟨_, _, hresent, (decode_scalar (by nofun)).trans hdecode, hself⟩
    · have hquoted : kind ∈ [.long, .text, .geography, .date, .timestamp, .bytea] :=
        (List.mem_cons.mp ht).resolve_left hkind
      have hdecode := decodeScalar_write h hquoted
      exact ⟨_, w, resent_quoted hkind nullable w, (decode_scalar (by nofun)).trans hdecode, hself⟩
  | decimal p s nullable =>
    rw [decode_decimal hv] at h
    obtain ⟨w', hdecode, hequal⟩ := decodeDecimal_write h
    exact ⟨_, w', rfl, (decode_decimal (by nofun)).trans hdecode, hequal⟩
  | array => contradiction
  | struct => contradiction

/-- The zeros of a decimal are written out, and what is read back is the same number. -/
theorem decode_resent_sample :
    decode (.decimal 38 9 false) (.string "-1.5e3") = .ok (.decimal ⟨-15, -2⟩) ∧
      resent (.decimal 38 9 false) (.decimal ⟨-15, -2⟩) = .ok (.string "-1500") ∧
      ∃ w, decode (.decimal 38 9 false) (.string "-1500") = .ok w ∧ w.equal (.decimal ⟨-15, -2⟩) = true := by
  have hdecode : decode (.decimal 38 9 false) (.string "-1.5e3") = .ok (.decimal ⟨-15, -2⟩) := by
    with_unfolding_all rfl
  have hresent : resent (.decimal 38 9 false) (.decimal ⟨-15, -2⟩) = .ok (.string "-1500") := by
    with_unfolding_all rfl
  have hresendable : Resendable (.decimal 38 9 false) := trivial
  obtain ⟨v, w, hv, hw, hequal⟩ := decode_resent hresendable hdecode nofun
  cases hresent.symm.trans hv
  exact ⟨hdecode, hresent, w, hw, hequal⟩

end Value

end Rowset
