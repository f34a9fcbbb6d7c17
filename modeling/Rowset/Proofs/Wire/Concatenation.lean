import Rowset.Proofs.Json.Extension
import Rowset.Wire.ResultDocument

/-!
# Responses one behind the other

A response is read document by document, and a document has a bracket at its end.  So behind a response that can be
read another one is read as if it stood alone: its documents follow, or its fault is the fault of the whole.  Blanks
between the two and behind the last do not matter.

The main statement is `ResultDocument.parseResponse_concatenation`.
-/

namespace Rowset

open Json

/-! ## Documents end with their brackets -/

theorem ColumnHeader.closes_read (levels : Nat) : Closes (read levels) := by
  refine closes_document (fun f hf levels s => ?_) _ levels
  simp only [slots, List.mem_cons, List.not_mem_nil, or_false] at hf
  rcases hf with rfl | rfl
  all_goals exact stops_slot (fun _ => closes_stringField.stops) _ _

theorem Statistics.closes_read (levels : Nat) : Closes (read levels) := by
  refine closes_document (fun f hf levels s => ?_) _ levels
  simp only [slots, List.mem_cons, List.not_mem_nil, or_false] at hf
  rcases hf with rfl | rfl | rfl | rfl | rfl
  · exact stops_slot (fun _ => stops_optionalField stops_realField) _ _
  · exact stops_slot (fun _ => stops_optionalField stops_countField) _ _
  · exact stops_slot (fun _ => stops_optionalField stops_countField) _ _
  · exact stops_slot (fun _ => stops_optionalField stops_realField) _ _
  · exact stops_slot (fun _ => stops_optionalField stops_realField) _ _

theorem ErrorLocation.closes_read (levels : Nat) : Closes (read levels) := by
  refine closes_document (fun f hf levels s => ?_) _ levels
  simp only [slots, List.mem_cons, List.not_mem_nil, or_false] at hf
  rcases hf with rfl | rfl | rfl
  all_goals exact stops_slot (fun _ => stops_optionalField stops_countField) _ _

theorem ServerError.closes_read (levels : Nat) : Closes (read levels) := by
  refine closes_document (fun f hf levels s => ?_) _ levels
  simp only [slots, List.mem_cons, List.not_mem_nil, or_false] at hf
  rcases hf with rfl | rfl | rfl | rfl | rfl | rfl | rfl | rfl
  case inr.inr.inr.inr.inr.inr.inl =>
    exact stops_slot (fun levels => stops_optionalField (ErrorLocation.closes_read levels).stops) _ _
  all_goals exact stops_slot (fun _ => stops_optionalField closes_stringField.stops) _ _

namespace ResultDocument

theorem closes_read (levels : Nat) : Closes (read levels) := by
  refine closes_document (fun f hf levels s => ?_) _ levels
  simp only [slots, List.mem_cons, List.not_mem_nil, or_false] at hf
  rcases hf with rfl | rfl | rfl | rfl | rfl
  · exact stops_slot (fun levels => (closes_listField (fun l => (ColumnHeader.closes_read l).stops) levels).stops) _ _
  · exact stops_slot (fun levels => (closes_listField (fun l => (closes_listField stops_value l).stops) levels).stops)
      _ _
  · exact stops_slot (fun _ => stops_optionalField stops_countField) _ _
  · exact stops_slot (fun levels => stops_optionalField (Statistics.closes_read levels).stops) _ _
  · exact stops_slot (fun levels => (closes_listField (fun l => (ServerError.closes_read l).stops) levels).stops) _ _

/-- A document takes at least its brackets. -/
theorem advances_read (levels : Nat) : Advances (read levels) := by
  intro bs d rest h
  have := length_of_document (μ := fun _ => 0) (fun f hf levels => ?_) h
  · simpa using this
  · simp only [slots, List.mem_cons, List.not_mem_nil, or_false] at hf
    rcases hf with rfl | rfl | rfl | rfl | rfl
    · exact spends_slot (fun levels => (advances_listField ColumnHeader.shrinks_read levels).shrinks)
        (fun _ _ => by rfl) _
    · exact spends_slot
        (fun levels => (advances_listField (fun l => (advances_listField shrinks_value l).shrinks) levels).shrinks)
        (fun _ _ => by rfl) _
    · exact spends_slot (fun _ => shrinks_optionalField shrinks_countField) (fun _ _ => by rfl) _
    · exact spends_slot (fun levels => shrinks_optionalField (Statistics.shrinks_read levels)) (fun _ _ => by rfl) _
    · exact spends_slot (fun levels => (advances_listField ServerError.shrinks_read levels).shrinks)
        (fun _ _ => by rfl) _

/-! ## Blanks and fuel -/

/-- Blanks in front of a document do not matter. -/
theorem read_congr {bs bs' : List UInt8} (h : skipSpace bs = skipSpace bs') (levels : Nat) :
    read levels bs = read levels bs' := by
  cases levels <;> simp only [read, document, wrongKind, h]

theorem readAll_congr {bs bs' : List UInt8} (h : skipSpace bs = skipSpace bs') (fuel : Nat)
    (seen : List ResultDocument) : readAll fuel seen bs = readAll fuel seen bs' := by
  cases fuel with
  | zero => rfl
  | succ fuel => simp only [readAll, h, read_congr h]

/-- One document more than the text has bytes is fuel enough. -/
theorem readAll_fuel {fuel fuel' : Nat} {bs : List UInt8} (h : bs.length < fuel) (h' : bs.length < fuel')
    (seen : List ResultDocument) : readAll fuel seen bs = readAll fuel' seen bs := by
  induction fuel generalizing fuel' bs seen with
  | zero => omega
  | succ fuel ih =>
    obtain _ | fuel' := fuel'
    · omega
    simp only [readAll]
    split
    · rfl
    · cases hd : read maxNesting bs with
      | error f => rfl
      | ok read =>
        have := advances_read maxNesting hd
        exact ih (by omega) (by omega) _

/-- The documents that were read before are only put in front. -/
theorem readAll_seen (fuel : Nat) (seen : List ResultDocument) (bs : List UInt8) :
    readAll fuel seen bs = (seen.reverse ++ ·) <$> readAll fuel [] bs := by
  induction fuel generalizing seen bs with
  | zero => rfl
  | succ fuel ih =>
    simp only [readAll]
    split
    · simp [Functor.map, Except.map]
    · cases hd : read maxNesting bs with
      | error f => rfl
      | ok read =>
        obtain ⟨d, rest⟩ := read
        rw [ok_bind, ok_bind]
        dsimp only
        rw [ih (d :: seen), ih [d]]
        simp [Functor.map_map]

/-! ## Concatenation -/

/-- Behind documents that can be read to their end, reading goes on as from the start. -/
theorem readAll_append {fuel fuel' : Nat} {seen docs : List ResultDocument} {bs more : List UInt8}
    (h : readAll fuel seen bs = .ok docs) (hf : bs.length + more.length < fuel') :
    readAll fuel' seen (bs ++ more) = readAll (more.length + 1) docs.reverse more := by
  -- By induction on the fuel, document by document; each of them is read from the longer text just the same.
  induction fuel generalizing fuel' seen bs with
  | zero => contradiction
  | succ fuel ih =>
    simp only [readAll] at h
    split at h
    · next hs =>
      cases h
      have hblank : skipSpace (bs ++ more) = skipSpace more := by
        unfold skipSpace at hs ⊢
        rw [List.dropWhile_append, if_pos hs]
      rw [readAll_congr hblank, List.reverse_reverse]
      exact readAll_fuel (by omega) (by omega) _
    · next hs =>
      simp only [bind_eq_ok, Prod.exists] at h
      obtain ⟨d, rest, hd, h⟩ := h
      obtain _ | fuel' := fuel'
      · omega
      have hd' := closes_read maxNesting hd more
      have := advances_read maxNesting hd
      have hs' : ¬(skipSpace (bs ++ more)).isEmpty := by
        rw [List.isEmpty_iff] at hs
        obtain ⟨b, after, hb⟩ := List.exists_cons_of_ne_nil hs
        simp [skipSpace_append hb]
      rw [readAll, if_neg hs', hd', ok_bind]
      exact ih h (by omega)

/-- What follows a response is read as documents of its own. -/
theorem parseResponse_append {bs more : List UInt8} {docs : List ResultDocument}
    (hb : bs.all Text.isBlankByte = false) (h : parseResponse bs = .ok docs) :
    parseResponse (bs ++ more) = (docs ++ ·) <$> readAll (more.length + 1) [] more := by
  have hb' : (bs ++ more).all Text.isBlankByte = false := by rw [List.all_append, hb, Bool.false_and]
  simp only [parseResponse, hb, hb', Bool.false_eq_true, if_false] at h ⊢
  rw [readAll_append h (by simp), readAll_seen, List.reverse_reverse]

theorem skipSpace_of_isSpace {blanks : List UInt8} (h : ∀ b ∈ blanks, isSpace b) (bs : List UInt8) :
    skipSpace (blanks ++ bs) = skipSpace bs :=
  List.dropWhile_append_of_pos h

/-- Blanks between two responses do not matter, whatever becomes of the second. -/
theorem parseResponse_append_blanks {bs blanks more : List UInt8} {docs : List ResultDocument}
    (hb : bs.all Text.isBlankByte = false) (hm : more.all Text.isBlankByte = false)
    (hs : ∀ b ∈ blanks, isSpace b) (h : parseResponse bs = .ok docs) :
    parseResponse (bs ++ blanks ++ more) = (docs ++ ·) <$> parseResponse more := by
  have hmore : parseResponse more = readAll (more.length + 1) [] more := by
    simp only [parseResponse, hm, Bool.false_eq_true, if_false]
  rw [List.append_assoc, parseResponse_append hb h, readAll_congr (skipSpace_of_isSpace hs more), hmore]
  congr 1
  exact readAll_fuel (by rw [List.length_append]; omega) (Nat.lt_succ_self _) _

/-- A response that is not blank and can be read gives the same documents with blanks behind it.  With another one
behind it that is not blank either, blanks between them or not, it gives the documents of both if the other one can be
read, and otherwise nothing but the other's fault. -/
theorem parseResponse_concatenation {bs blanks : List UInt8} {docs : List ResultDocument}
    (hb : bs.all Text.isBlankByte = false) (hs : ∀ b ∈ blanks, isSpace b) (h : parseResponse bs = .ok docs) :
    parseResponse (bs ++ blanks) = .ok docs ∧
      ∀ more, more.all Text.isBlankByte = false →
        (∀ docs', parseResponse more = .ok docs' → parseResponse (bs ++ blanks ++ more) = .ok (docs ++ docs')) ∧
        ∀ fault, parseResponse more = .error fault → parseResponse (bs ++ blanks ++ more) = .error fault := by
  constructor
  · have hend : readAll (blanks.length + 1) [] blanks = .ok [] := by
      have hnone := skipSpace_of_isSpace hs []
      rw [List.append_nil] at hnone
      rw [readAll_congr hnone]
      rfl
    rw [parseResponse_append hb h, hend]
    exact congrArg Except.ok (List.append_nil docs)
  · intro more hm
    have happend := parseResponse_append_blanks hb hm hs h
    constructor
    · intro docs' hmore
      rw [happend, hmore]
      rfl
    · intro fault hmore
      rw [happend, hmore]
      rfl

/-- A document with a field that nobody asks for, and one as a list. -/
def sampleResponse : List UInt8 :=
  "\x7b\"more\":[\"\x7d\"],\"data\":[[null]]\x7d[[],[[true]]]".toUTF8.toList

/-- A response whose second document has rows of the wrong kind. -/
def wrongResponse : List UInt8 :=
  "[] [[],true]".toUTF8.toList

theorem parseResponse_concatenation_sample :
    sampleResponse.all Text.isBlankByte = false ∧ (∀ b ∈ [0x20, 0x0A], isSpace b) ∧
      parseResponse sampleResponse = .ok [{ rows := [[.null]] }, { rows := [[.bool true]] }] ∧
      parseResponse (sampleResponse ++ [0x20, 0x0A]) = .ok [{ rows := [[.null]] }, { rows := [[.bool true]] }] ∧
      parseResponse (sampleResponse ++ [0x20, 0x0A] ++ sampleResponse) =
        .ok [{ rows := [[.null]] }, { rows := [[.bool true]] }, { rows := [[.null]] }, { rows := [[.bool true]] }] ∧
      parseResponse (sampleResponse ++ [0x20, 0x0A] ++ wrongResponse) = .error .mismatched := by
  have hb : sampleResponse.all Text.isBlankByte = false := by decide +kernel
  have hs : ∀ b ∈ [(0x20 : UInt8), 0x0A], isSpace b := by decide +kernel
  have h : parseResponse sampleResponse = .ok [{ rows := [[.null]] }, { rows := [[.bool true]] }] := by
    with_unfolding_all rfl
  obtain ⟨hblanks, hmore⟩ := parseResponse_concatenation hb hs h
  refine ⟨hb, hs, h, hblanks, ?_, ?_⟩
  · exact (hmore sampleResponse hb).1 _ h
  · exact (hmore wrongResponse (by decide +kernel)).2 _ (by with_unfolding_all rfl)

end ResultDocument

end Rowset
