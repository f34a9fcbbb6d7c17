import Mathlib.Data.List.Lex
import Rowset.Proofs.Descriptor.RoundTrip
import Rowset.Proofs.Fields
import Rowset.Proofs.Value.Shape
import Rowset.Row

/-!
# Where decoding fails

A type and a JSON value have positions in common, which `Position` lists by the numbers of the items and fields on the
way down.  A position can be wrong on its own (`OwnFault`): a scalar is refused, an array or a struct is of another
kind of JSON, or the keys of an object are not the declared names.  Decoding fails if there is such a position, and
with the fault of the first one, where a level comes before its parts and these come in the order of items and declared
fields (`FirstFault`).

The main statement, on values and on rows, is `Value.decode_diagnosis`.
-/

namespace Rowset

/-- Whether the fault is about the names of fields. -/
def DecodeFault.isKeyFault : DecodeFault → Bool
  | mismatch .. => false
  | missingField _ | unexpectedField _ => true

namespace Value

/-! ## Positions -/

/-- The part with the given number of a type and a JSON value. -/
inductive Part : Descriptor → Json → Nat → Descriptor → Json → Prop
  | item {e : Descriptor} {n : Bool} {vs : List Json} {i : Nat} {v : Json} (raw : vs[i]? = some v) :
      Part (.array e n) (.array vs) i e v
  | field {fs : List (String × Descriptor)} {n : Bool} {ms : List (String × Json)} {i : Nat} {name : String}
      {t : Descriptor} {v : Json} (declared : fs[i]? = some (name, t)) (raw : ms.lookup name = some v) :
      Part (.struct fs n) (.object ms) i t v

/-- The positions of a type and a JSON value: the whole, and those of every part behind the number of the part. -/
inductive Position : Descriptor → Json → List Nat → Descriptor → Json → Prop
  | whole {t : Descriptor} {v : Json} : Position t v [] t v
  | part {t t' t'' : Descriptor} {v v' v'' : Json} {i : Nat} {path : List Nat} (part : Part t v i t' v')
      (rest : Position t' v' path t'' v'') : Position t v (i :: path) t'' v''

/-- The keys of an object are not the declared names.  The first name that is missing is the fault, and if none is, the
first key that is not declared. -/
inductive KeyFault (fs : List (String × Descriptor)) (ms : List (String × Json)) : DecodeFault → Prop
  | missing {before after : List (String × Descriptor)} {f : String × Descriptor} (declared : fs = before ++ f :: after)
      (present : ∀ g ∈ before, g.1 ∈ ms.map (·.1)) (absent : f.1 ∉ ms.map (·.1)) : KeyFault fs ms (.missingField f.1)
  | unexpected {before after : List (String × Json)} {m : String × Json} (complete : ∀ f ∈ fs, f.1 ∈ ms.map (·.1))
      (members : ms = before ++ m :: after) (known : ∀ k ∈ before, k.1 ∈ fs.map (·.1))
      (unknown : m.1 ∉ fs.map (·.1)) : KeyFault fs ms (.unexpectedField m.1)

/-- What is wrong with a value on its own, without its parts. -/
inductive OwnFault : Descriptor → Json → DecodeFault → Prop
  | scalar {kind : Scalar} {n : Bool} {v : Json} {fault : DecodeFault} (given : v ≠ .null)
      (refused : decodeScalar kind v = .error fault) : OwnFault (.scalar kind n) v fault
  | decimal {p s : UInt32} {n : Bool} {v : Json} {fault : DecodeFault} (given : v ≠ .null)
      (refused : decodeDecimal p v = .error fault) : OwnFault (.decimal p s n) v fault
  | noArray {e : Descriptor} {n : Bool} {v : Json} (given : v ≠ .null) (kind : ∀ vs, v ≠ .array vs) :
      OwnFault (.array e n) v (.mismatch (.composite (.array e n)) (.json v))
  | noObject {fs : List (String × Descriptor)} {n : Bool} {v : Json} (given : v ≠ .null) (kind : ∀ ms, v ≠ .object ms) :
      OwnFault (.struct fs n) v (.mismatch (.composite (.struct fs n)) (.json v))
  | keys {fs : List (String × Descriptor)} {n : Bool} {ms : List (String × Json)} {fault : DecodeFault}
      (differ : KeyFault fs ms fault) : OwnFault (.struct fs n) (.object ms) fault

/-- The fault of the first position that is wrong on its own. -/
structure FirstFault (t : Descriptor) (v : Json) (path : List Nat) (fault : DecodeFault) : Prop where
  here : ∃ t' v', Position t v path t' v' ∧ OwnFault t' v' fault
  first : ∀ path' < path, ∀ t' v' fault', Position t v path' t' v' → ¬OwnFault t' v' fault'

section

variable {t t' t'' : Descriptor} {v v' v'' : Json} {i : Nat} {path : List Nat} {fault fault' : DecodeFault}
  {fs : List (String × Descriptor)} {ms : List (String × Json)}

theorem Part.unique (h : Part t v i t' v') (h' : Part t v i t'' v'') : t' = t'' ∧ v' = v'' := by
  cases h with
  | item raw =>
    cases h' with
    | item raw' =>
      cases raw.symm.trans raw'
      exact ⟨rfl, rfl⟩
  | field declared raw =>
    cases h' with
    | field declared' raw' =>
      cases declared.symm.trans declared'
      cases raw.symm.trans raw'
      exact ⟨rfl, rfl⟩

theorem Part.height_lt (h : Part t v i t' v') : t'.height < t.height := by
  cases h with
  | item => exact Nat.lt_succ_self _
  | field declared =>
    exact Nat.lt_succ_of_le (Descriptor.heightOfFields_le_iff.mp (Nat.le_refl _) _ (List.mem_of_getElem? declared))

/-- A path leads to one place at most, so faults are told apart by their paths. -/
theorem Position.unique (h : Position t v path t' v') (h' : Position t v path t'' v'') : t' = t'' ∧ v' = v'' := by
  induction h with
  | whole =>
    cases h'
    exact ⟨rfl, rfl⟩
  | part part _ ih =>
    cases h' with
    | part part' rest' =>
      obtain ⟨rfl, rfl⟩ := part.unique part'
      exact ih rest'

/-! ## Keys -/

theorem keyFault_of_fieldFault? (h : fieldFault? fs ms = some fault) : KeyFault fs ms fault := by
  unfold fieldFault? at h
  split at h
  · next f hmissing =>
    obtain ⟨before, after, hfs, hpresent, habsent⟩ := find?_unmatched_eq_some_iff.mp hmissing
    cases h
    exact .missing hfs hpresent habsent
  · next hcomplete =>
    split at h
    · next m hextra =>
      obtain ⟨before, after, hms, hknown, hunknown⟩ := find?_unmatched_eq_some_iff.mp hextra
      cases h
      exact .unexpected (find?_unmatched_eq_none_iff.mp hcomplete) hms hknown hunknown
    · cases h

theorem KeyFault.fieldFault?_eq (h : KeyFault fs ms fault) : fieldFault? fs ms = some fault := by
  unfold fieldFault?
  cases h with
  | missing declared present absent =>
    simp only [find?_unmatched_eq_some_iff.mpr ⟨_, _, declared, present, absent⟩]
  | unexpected complete members known unknown =>
    simp only [find?_unmatched_eq_none_iff.mpr complete,
      find?_unmatched_eq_some_iff.mpr ⟨_, _, members, known, unknown⟩]

theorem fieldFault?_eq_some_iff : fieldFault? fs ms = some fault ↔ KeyFault fs ms fault :=
  ⟨keyFault_of_fieldFault?, KeyFault.fieldFault?_eq⟩

/-- The key check passes exactly when the members and the fields have the same names. -/
theorem fieldFault?_eq_none_iff :
    fieldFault? fs ms = none ↔ ∀ name, name ∈ ms.map (·.1) ↔ name ∈ fs.map (·.1) := by
  constructor
  · intro h name
    obtain ⟨hdeclared, hmembers⟩ := keys_of_fieldFault? h
    constructor
    · intro hname
      obtain ⟨m, hm, rfl⟩ := List.mem_map.mp hname
      exact hmembers m hm
    · intro hname
      obtain ⟨f, hf, rfl⟩ := List.mem_map.mp hname
      exact hdeclared f hf
  · intro h
    rw [Option.eq_none_iff_forall_ne_some]
    intro fault hfault
    cases fieldFault?_eq_some_iff.mp hfault with
    | @missing _ _ f declared _ absent =>
      refine absent ((h f.1).mpr ?_)
      rw [declared]
      simp
    | @unexpected _ _ m _ members _ unknown =>
      refine unknown ((h m.1).mp ?_)
      rw [members]
      simp

/-- There is a fault in the keys if they are not the declared names. -/
theorem exists_keyFault_iff :
    (∃ fault, KeyFault fs ms fault) ↔ ¬∀ name, name ∈ ms.map (·.1) ↔ name ∈ fs.map (·.1) := by
  rw [← fieldFault?_eq_none_iff, ← Ne, Option.ne_none_iff_exists']
  simp only [fieldFault?_eq_some_iff]

/-! ## One level -/

theorem decodeFields_eq_mapM (fs : List (String × Descriptor)) (ms : List (String × Json)) :
    decodeFields fs ms = fs.mapM fun f => (f.1, ·) <$> decode f.2 ((ms.lookup f.1).getD .null) := by
  induction fs with
  | nil => rfl
  | cons f fs ih =>
    obtain ⟨name, t⟩ := f
    rw [decodeFields, List.mapM_cons, ih]
    cases decode t ((ms.lookup name).getD .null) <;> rfl

theorem OwnFault.ne_null (h : OwnFault t v fault) : v ≠ .null := by
  cases h with
  | scalar given | decimal given | noArray given | noObject given => exact given
  | keys => nofun

/-- A position that is wrong on its own is not decoded, whatever its parts are. -/
theorem OwnFault.decode_eq (h : OwnFault t v fault) : decode t v = .error fault := by
  have hv := h.ne_null
  cases h with
  | scalar _ refused => rwa [decode_scalar hv]
  | decimal _ refused => rwa [decode_decimal hv]
  | noArray _ kind =>
    unfold decode
    rw [if_neg (isNull_of_ne hv)]
    cases v with
    | array vs => exact absurd rfl (kind vs)
    | _ => rfl
  | noObject _ kind =>
    unfold decode
    rw [if_neg (isNull_of_ne hv)]
    cases v with
    | object ms => exact absurd rfl (kind ms)
    | _ => rfl
  | keys differ =>
    rw [decode, if_neg (isNull_of_ne hv)]
    simp only [fieldFault?_eq_some_iff.mpr differ]

/-- The parts of what is decoded are decoded. -/
theorem Part.decode_ok {w : Value} (hp : Part t v i t' v') (h : decode t v = .ok w) : ∃ w', decode t' v' = .ok w' := by
  cases hp with
  | item raw =>
    obtain ⟨vs, ws, hvs, -, hitems⟩ := (sound_of_decode h).array _ _ rfl nofun
    cases hvs
    obtain ⟨w', -, hw'⟩ := hitems.values _ _ raw
    exact ⟨w', hw'⟩
  | field declared raw =>
    obtain ⟨ms, gs, hms, -, hfields⟩ := (sound_of_decode h).struct _ _ rfl nofun
    cases hms
    obtain ⟨v', w', hv', -, hw'⟩ := hfields.values _ _ _ declared
    cases raw.symm.trans hv'
    exact ⟨w', hw'⟩

/-- What is not wrong on its own fails with its first part that fails. -/
theorem exists_part_of_error (h : decode t v = .error fault) (hown : ∀ fault', ¬OwnFault t v fault') :
    ∃ i t' v', Part t v i t' v' ∧ decode t' v' = .error fault ∧
      ∀ j < i, ∀ t'' v'', Part t v j t'' v'' → ∃ w, decode t'' v'' = .ok w := by
  have hv : v ≠ .null := by
    rintro rfl
    rw [decode_null] at h
    cases h
  cases t with
  | scalar kind n => exact absurd (.scalar hv (decode_scalar hv ▸ h)) (hown fault)
  | decimal p s n => exact absurd (.decimal hv (decode_decimal hv ▸ h)) (hown fault)
  | array e n =>
    by_cases hkind : ∀ vs, v ≠ .array vs
    · exact absurd (.noArray hv hkind) (hown _)
    · simp only [not_forall, not_not] at hkind
      obtain ⟨vs, rfl⟩ := hkind
      rw [decode, if_neg (isNull_of_ne hv)] at h
      obtain ⟨i, v', hv', he, hfirst⟩ := mapM_eq_error.mp (map_eq_error.mp h)
      refine ⟨i, e, v', .item hv', he, fun j hj t'' v'' hpart => ?_⟩
      cases hpart with
      | item raw => exact hfirst j hj v'' raw
  | struct fs n =>
    by_cases hkind : ∀ ms, v ≠ .object ms
    · exact absurd (.noObject hv hkind) (hown _)
    · simp only [not_forall, not_not] at hkind
      obtain ⟨ms, rfl⟩ := hkind
      have hkeys : fieldFault? fs ms = none :=
        Option.eq_none_iff_forall_ne_some.mpr fun fault' h' => hown fault' (.keys (fieldFault?_eq_some_iff.mp h'))
      rw [decode, if_neg (isNull_of_ne hv)] at h
      simp only [hkeys] at h
      rw [map_eq_error, decodeFields_eq_mapM] at h
      obtain ⟨i, ⟨name, t'⟩, hf, he, hfirst⟩ := mapM_eq_error.mp h
      -- The name is among the keys, so what is decoded is a member.
      obtain ⟨v', hv'⟩ := exists_lookup
        ((fieldFault?_eq_none_iff.mp hkeys name).mpr (name_mem (List.mem_of_getElem? hf)))
      rw [map_eq_error, hv', Option.getD_some] at he
      refine ⟨i, t', v', .field hf hv', he, fun j hj t'' v'' hpart => ?_⟩
      cases hpart with
      | field declared raw =>
        obtain ⟨w, hw⟩ := hfirst j hj _ declared
        obtain ⟨w', hw', -⟩ := map_eq_ok.mp hw
        rw [raw, Option.getD_some] at hw'
        exact ⟨w', hw'⟩

/-! ## All levels -/

/-- What is decoded is decoded at every position. -/
theorem Position.decode_ok (hp : Position t v path t' v') (h : ∃ w, decode t v = .ok w) :
    ∃ w, decode t' v' = .ok w := by
  induction hp with
  | whole => exact h
  | part part _ ih =>
    obtain ⟨w, hw⟩ := h
    exact ih (part.decode_ok hw)

/-- Where something is decoded, nothing is wrong. -/
theorem Position.not_ownFault (hp : Position t v path t' v') (h : ∃ w, decode t v = .ok w) :
    ¬OwnFault t' v' fault := by
  intro hfault
  obtain ⟨w, hw⟩ := hp.decode_ok h
  cases hfault.decode_eq.symm.trans hw

/-- Decoding fails with the fault of the first position that is wrong on its own. -/
theorem firstFault_of_error {t : Descriptor} {v : Json} {fault : DecodeFault} (h : decode t v = .error fault) :
    ∃ path, FirstFault t v path fault := by
  by_cases hown : ∃ fault', OwnFault t v fault'
  · obtain ⟨fault', hfault⟩ := hown
    cases hfault.decode_eq.symm.trans h
    exact ⟨[], ⟨t, v, .whole, hfault⟩, fun path' hlt => absurd hlt (List.not_lt_nil path')⟩
  · -- The fault is in the first part that fails, and at the first position there.
    obtain ⟨i, t', v', hpart, he, hbefore⟩ := exists_part_of_error h (not_exists.mp hown)
    have hheight := hpart.height_lt
    obtain ⟨path, ⟨t'', v'', hpos, hfault⟩, hfirst⟩ := firstFault_of_error he
    refine ⟨i :: path, ⟨t'', v'', .part hpart hpos, hfault⟩, ?_⟩
    intro path' hlt u x fault' hpos' hfault'
    cases hpos' with
    | whole => exact hown ⟨fault', hfault'⟩
    | part part' rest' =>
      rcases List.cons_lt_cons_iff.mp hlt with hj | ⟨rfl, hlt'⟩
      · -- An earlier part is decoded as a whole.
        exact rest'.not_ownFault (hbefore _ hj _ _ part') hfault'
      · obtain ⟨rfl, rfl⟩ := hpart.unique part'
        exact hfirst _ hlt' _ _ _ rest' hfault'
termination_by t.height

theorem FirstFault.path_eq {path' : List Nat} (h : FirstFault t v path fault) (h' : FirstFault t v path' fault') :
    path = path' := by
  obtain ⟨t', v', hpos, hfault⟩ := h.here
  obtain ⟨t'', v'', hpos', hfault'⟩ := h'.here
  rcases lt_trichotomy path path' with hlt | heq | hlt
  · exact absurd hfault (h'.first path hlt t' v' fault hpos)
  · exact heq
  · exact absurd hfault' (h.first path' hlt t'' v'' fault' hpos')

theorem FirstFault.fault_eq (h : FirstFault t v path fault) (h' : FirstFault t v path fault') : fault = fault' := by
  obtain ⟨t', v', hpos, hfault⟩ := h.here
  obtain ⟨t'', v'', hpos', hfault'⟩ := h'.here
  obtain ⟨rfl, rfl⟩ := hpos.unique hpos'
  cases hfault.decode_eq.symm.trans hfault'.decode_eq
  rfl

/-- The fault a failing decode reports is the first one, in the order in which the value is walked. -/
theorem decode_eq_error : decode t v = .error fault ↔ ∃ path, FirstFault t v path fault := by
  refine ⟨firstFault_of_error, ?_⟩
  rintro ⟨path, h⟩
  obtain ⟨t', v', hpos, hfault⟩ := h.here
  cases hdecode : decode t v with
  | ok w => exact absurd hfault (hpos.not_ownFault ⟨w, hdecode⟩)
  | error fault' =>
    obtain ⟨path', h'⟩ := firstFault_of_error hdecode
    obtain rfl := h.path_eq h'
    rw [h.fault_eq h']

/-- Decoding fails exactly when some place of the value has a fault of its own. -/
theorem exists_error_iff :
    (∃ fault, decode t v = .error fault) ↔
      ∃ path t' v' fault, Position t v path t' v' ∧ OwnFault t' v' fault := by
  constructor
  · rintro ⟨fault, h⟩
    obtain ⟨path, ⟨t', v', hpos, hfault⟩, -⟩ := firstFault_of_error h
    exact ⟨path, t', v', fault, hpos, hfault⟩
  · rintro ⟨path, t', v', fault, hpos, hfault⟩
    cases hdecode : decode t v with
    | ok w => exact absurd hfault (hpos.not_ownFault ⟨w, hdecode⟩)
    | error fault' => exact ⟨fault', rfl⟩

/-! ## The class of a fault -/

theorem decodeBytes_fault {s : String} (h : decodeBytes s = .error fault) : fault.isKeyFault = false := by
  unfold decodeBytes at h
  dsimp only at h
  split at h
  · cases h
  · cases h
    rfl

theorem orJson_fault {kind : Scalar} {x : Option Value} (h : orJson kind v x = .error fault) :
    fault.isKeyFault = false := by
  cases x <;> cases h
  rfl

theorem orText_fault {kind : Scalar} {s : String} {x : Option Value} (h : orText kind s x = .error fault) :
    fault.isKeyFault = false := by
  cases x <;> cases h
  rfl

theorem decodeText_fault {kind : Scalar} {read : String → Except DecodeFault Value}
    (h : decodeText kind v read = .error fault) (hread : ∀ s, read s = .error fault → fault.isKeyFault = false) :
    fault.isKeyFault = false := by
  unfold decodeText at h
  split at h
  · exact hread _ h
  · cases h
    rfl

theorem decodeScalar_fault {kind : Scalar} (h : decodeScalar kind v = .error fault) : fault.isKeyFault = false := by
  cases kind with
  | int | long | float | double | boolean => exact orJson_fault h
  | text | geography => exact decodeText_fault h fun _ => nofun
  | date | timestamp | timestamptz => exact decodeText_fault h fun _ => orText_fault
  | bytea => exact decodeText_fault h fun _ hs => decodeBytes_fault (map_eq_error.mp hs)

theorem decodeDecimal_fault {p : UInt32} (h : decodeDecimal p v = .error fault) : fault.isKeyFault = false := by
  unfold decodeDecimal at h
  split at h
  · cases h
    rfl
  · split at h
    · split_ifs at h
      cases h
      rfl
    · cases h
      rfl

/-- The fault is about the names of fields exactly where an object has other keys than the declared names. -/
theorem OwnFault.isKeyFault_iff (h : OwnFault t v fault) :
    fault.isKeyFault = true ↔ ∃ fs n ms, t = .struct fs n ∧ v = .object ms ∧ KeyFault fs ms fault := by
  cases h with
  | scalar _ refused => simp [decodeScalar_fault refused]
  | decimal _ refused => simp [decodeDecimal_fault refused]
  | noArray => simp [DecodeFault.isKeyFault]
  | noObject _ kind =>
    simp only [DecodeFault.isKeyFault, Bool.false_eq_true, false_iff]
    rintro ⟨-, -, ms, -, rfl, -⟩
    exact kind ms rfl
  | @keys fs n ms _ differ =>
    have hclass : fault.isKeyFault = true := by
      cases differ with
      | missing | unexpected => rfl
    exact iff_of_true hclass ⟨fs, n, ms, rfl, rfl, differ⟩

end

end Value

/-! ## Rows -/

namespace Row

/-- The leftmost cell that is not of the type of its column, and what is wrong with it. -/
structure FirstFault (s : Schema) (cells : List Json) (i : Nat) (fault : DecodeFault) : Prop where
  here : ∃ c v, s.columns[i]? = some c ∧ cells[i]? = some v ∧ Value.decode c.type v = .error fault
  first : ∀ j < i, ∀ c v, s.columns[j]? = some c → cells[j]? = some v → ∃ w, Value.decode c.type v = .ok w

/-- Every cell is of the type of its column. -/
def CellsFit (s : Schema) (cells : List Json) : Prop :=
  ∀ (i : Nat) (c : Column) (v : Json), s.columns[i]? = some c → cells[i]? = some v →
    ∃ w, Value.decode c.type v = .ok w

variable {s : Schema} {cells : List Json} {e : Error}

theorem decodeCells_eq_mapM (cs : List Column) (vs : List Json) :
    decodeCells cs vs = (cs.zip vs).mapM fun cell => (Value.decode cell.1.type cell.2).mapError .value := by
  induction cs generalizing vs with
  | nil => rfl
  | cons c cs ih =>
    cases vs with
    | nil => rfl
    | cons v vs => rw [decodeCells, List.zip_cons_cons, List.mapM_cons, ih]

/-- A row fails with the fault of its first cell that has one. -/
theorem decodeCells_eq_error :
    decodeCells s.columns cells = .error e ↔ ∃ i fault, FirstFault s cells i fault ∧ e = .value fault := by
  rw [decodeCells_eq_mapM, mapM_eq_error]
  constructor
  · rintro ⟨i, ⟨c, v⟩, hcell, he, hfirst⟩
    obtain ⟨hc, hv⟩ := List.getElem?_zip_eq_some.mp hcell
    obtain ⟨fault, hfault, rfl⟩ := mapError_eq_error.mp he
    refine ⟨i, fault, ⟨⟨c, v, hc, hv, hfault⟩, fun j hj c' v' hc' hv' => ?_⟩, rfl⟩
    obtain ⟨w, hw⟩ := hfirst j hj (c', v') (List.getElem?_zip_eq_some.mpr ⟨hc', hv'⟩)
    exact ⟨w, mapError_eq_ok.mp hw⟩
  · rintro ⟨i, fault, ⟨⟨c, v, hc, hv, hfault⟩, hfirst⟩, rfl⟩
    refine ⟨i, (c, v), List.getElem?_zip_eq_some.mpr ⟨hc, hv⟩, mapError_eq_error.mpr ⟨fault, hfault, rfl⟩, ?_⟩
    rintro j hj ⟨c', v'⟩ hcell
    obtain ⟨hc', hv'⟩ := List.getElem?_zip_eq_some.mp hcell
    obtain ⟨w, hw⟩ := hfirst j hj c' v' hc' hv'
    exact ⟨w, mapError_eq_ok.mpr hw⟩

theorem exists_decodeCells_iff : (∃ ws, decodeCells s.columns cells = .ok ws) ↔ CellsFit s cells := by
  rw [decodeCells_eq_mapM, exists_mapM_iff]
  simp only [mapError_eq_ok]
  constructor
  · intro h i c v hc hv
    exact h (c, v) (List.mem_of_getElem? (List.getElem?_zip_eq_some.mpr ⟨hc, hv⟩))
  · intro h cell hcell
    obtain ⟨i, hi⟩ := List.mem_iff_getElem?.mp hcell
    obtain ⟨hc, hv⟩ := List.getElem?_zip_eq_some.mp hi
    exact h i cell.1 cell.2 hc hv

/-- A row of another width fails for its width, and any other row for its leftmost cell that fails. -/
theorem decode_eq_error : decode s cells = .error e ↔
    cells.length ≠ s.size ∧ e = .framing (.rowWidth cells.length s.size) ∨
      cells.length = s.size ∧ ∃ i fault, FirstFault s cells i fault ∧ e = .value fault := by
  unfold decode
  by_cases hwidth : cells.length = s.size
  · simp [hwidth, decodeCells_eq_error]
  · simp [hwidth, eq_comm]

theorem exists_decode_iff : (∃ ws, decode s cells = .ok ws) ↔ cells.length = s.size ∧ CellsFit s cells := by
  unfold decode
  by_cases hwidth : cells.length = s.size
  · simp [hwidth, exists_decodeCells_iff]
  · simp [hwidth]

end Row

/-! ## The diagnosis -/

/-- When and with what fault decoding fails. -/
structure Value.Diagnosis (t : Descriptor) (v : Json) : Prop where
  fails : (∃ fault, decode t v = .error fault) ↔
    ∃ path t' v' fault, Position t v path t' v' ∧ OwnFault t' v' fault
  first : ∀ fault, decode t v = .error fault ↔ ∃ path, FirstFault t v path fault
  isDecode : ∀ fault, decode t v = .error fault → (Error.value fault).isDecode = true
  keys : ∀ fs n ms, t = .struct fs n → v = .object ms → (¬∀ name, name ∈ ms.map (·.1) ↔ name ∈ fs.map (·.1)) →
    ∃ fault, KeyFault fs ms fault ∧ decode t v = .error fault
  isKeyFault : ∀ path fault, FirstFault t v path fault → (fault.isKeyFault = true ↔
    ∃ fs n ms, Position t v path (.struct fs n) (.object ms) ∧ KeyFault fs ms fault)

/-- When and with what error reading a row fails. -/
structure Row.Diagnosis (s : Schema) (cells : List Json) : Prop where
  framing : (∃ fault, decode s cells = .error (.framing fault)) ↔ cells.length ≠ s.size
  error : ∀ e, decode s cells = .error e ↔
    cells.length ≠ s.size ∧ e = .framing (.rowWidth cells.length s.size) ∨
      cells.length = s.size ∧ ∃ i fault, FirstFault s cells i fault ∧ e = .value fault
  ok : (∃ ws, decode s cells = .ok ws) ↔ cells.length = s.size ∧ CellsFit s cells

theorem Row.diagnosis (s : Schema) (cells : List Json) : Row.Diagnosis s cells := by
  refine ⟨?_, fun _ => decode_eq_error, exists_decode_iff⟩
  constructor
  · rintro ⟨fault, h⟩
    rcases decode_eq_error.mp h with ⟨hwidth, -⟩ | ⟨-, _, _, -, he⟩
    · exact hwidth
    · cases he
  · intro hwidth
    exact ⟨_, decode_eq_error.mpr (.inl ⟨hwidth, rfl⟩)⟩

/-- Decoding fails exactly if a position of the type and the value is wrong on its own, with the fault of the first
one: an object with other keys than the declared names fails for these, whatever its values are.  A row fails for its
width, and otherwise for the leftmost of its cells that fails. -/
theorem Value.decode_diagnosis :
    (∀ t v, Value.Diagnosis t v) ∧ ∀ s cells, Row.Diagnosis s cells := by
  refine ⟨fun t v => ⟨exists_error_iff, fun _ => decode_eq_error, fun _ _ => rfl, ?_, ?_⟩, Row.diagnosis⟩
  · rintro fs n ms rfl rfl hkeys
    obtain ⟨fault, hfault⟩ := exists_keyFault_iff.mpr hkeys
    exact ⟨fault, hfault, (OwnFault.keys hfault).decode_eq⟩
  · intro path fault h
    obtain ⟨t', v', hpos, hfault⟩ := h.here
    rw [hfault.isKeyFault_iff]
    constructor
    · rintro ⟨fs, n, ms, rfl, rfl, hkeys⟩
      exact ⟨fs, n, ms, hpos, hkeys⟩
    · rintro ⟨fs, n, ms, hpos', hkeys⟩
      obtain ⟨rfl, rfl⟩ := hpos.unique hpos'
      exact ⟨fs, n, ms, rfl, rfl, hkeys⟩

/-- The missing field is found before the value that is wrong. -/
example : Value.decode (.array (.struct [("size", .scalar .int false), ("name", .scalar .text false)] false) false)
    (.array [.null, .object [("size", .string "large")], .bool true]) = .error (.missingField "name") := by
  with_unfolding_all rfl

end Rowset
