import Mathlib.Algebra.Ring.Int.Defs
import Mathlib.Data.List.Forall2
import Rowset.Proofs.Fields
import Rowset.Proofs.Steps
import Rowset.Schema

/-!
# Decoded values have the shape of their types

Whatever `Value.decode` accepts has the shape of its type at every depth.  Null stands for null and for nothing
else, other values have the representation of their type and are in its range, an array has as many items as the
JSON array, and a struct has exactly the declared fields, which are the members of the JSON object.

`Sound` says this about one level, `Place` lists the levels, and the main statement is `Value.decode_sound`.
-/

namespace Rowset

namespace Value

/-! ## One level -/

/-- The representation of a value; null has none. -/
def nativeKind? : Value → Option NativeKind
  | null => none
  | int _ => some .int32
  | long _ => some .int64
  | float _ => some .float32
  | double _ => some .float64
  | text _ | geography _ => some .string
  | date _ => some .date
  | timestamp _ => some .localTime
  | timestamptz _ => some .zonedTime
  | boolean _ => some .boolean
  | bytea _ => some .bytes
  | decimal _ => some .decimal
  | array _ => some .array
  | struct _ => some .struct

/-- Whole numbers are in the range of their representation. -/
def InRange : Value → Prop
  | int n => -2 ^ 31 ≤ n ∧ n < 2 ^ 31
  | long n => -2 ^ 63 ≤ n ∧ n < 2 ^ 63
  | _ => True

/-- Reads the members of an object against the declared fields and takes every one off the object.  A member that
is not there is read as `fallback`. -/
def takeFields (fallback : Json) : List (String × Descriptor) → List (String × Json) →
    Except DecodeFault (List (String × Value))
  | [], _ => .ok []
  | (name, t) :: fs, ms => do
    let v ← decode t ((ms.lookup name).getD fallback)
    let vs ← takeFields fallback fs (ms.filter (·.1 != name))
    return (name, v) :: vs

/-- The members of an object are the fields of a struct: the same names, in the order of the declaration, each with
the value of the member of its name.  No member is ever replaced by something else. -/
structure FieldsSound (fs : List (String × Descriptor)) (ms : List (String × Json)) (gs : List (String × Value)) :
    Prop where
  keys : ∀ name, name ∈ ms.map (·.1) ↔ name ∈ fs.map (·.1)
  names : gs.map (·.1) = fs.map (·.1)
  values : ∀ (i : Nat) (name : String) (t : Descriptor), fs[i]? = some (name, t) →
    ∃ v w, ms.lookup name = some v ∧ gs[i]? = some (name, w) ∧ decode t v = .ok w
  taken : (fs.map (·.1)).Nodup → ∀ fallback, takeFields fallback fs ms = .ok gs

/-- The items of an array are decoded one by one. -/
structure ItemsSound (e : Descriptor) (vs : List Json) (ws : List Value) : Prop where
  size : ws.length = vs.length
  values : ∀ (i : Nat) (v : Json), vs[i]? = some v → ∃ w, ws[i]? = some w ∧ decode e v = .ok w

/-- A value is of its type, as far as its outermost level shows. -/
structure Sound (t : Descriptor) (v : Json) (w : Value) : Prop where
  null : w = .null ↔ v = .null
  kind : v ≠ .null → w.nativeKind? = some (.of t)
  range : w.InRange
  decimal : ∀ p s n, t = .decimal p s n → v ≠ .null → ∃ d, w = .decimal d ∧ d.fitsPrecision p.toNat = true
  array : ∀ e n, t = .array e n → v ≠ .null → ∃ vs ws, v = .array vs ∧ w = .array ws ∧ ItemsSound e vs ws
  struct : ∀ fs n, t = .struct fs n → v ≠ .null → ∃ ms gs, v = .object ms ∧ w = .struct gs ∧ FieldsSound fs ms gs

/-! ## Scalars -/

section

variable {kind : Scalar} {v : Json} {w : Value}

theorem orJson_eq_ok {x : Option Value} : orJson kind v x = .ok w ↔ x = some w := by
  cases x <;> simp [orJson]

theorem orText_eq_ok {s : String} {x : Option Value} : orText kind s x = .ok w ↔ x = some w := by
  cases x <;> simp [orText]

theorem orJson_map {α : Type} {f : α → Value} {x : Option α} (h : orJson kind v (x.map f) = .ok w) :
    ∃ y, x = some y ∧ w = f y := by
  obtain ⟨y, hy, rfl⟩ := Option.map_eq_some_iff.mp (orJson_eq_ok.mp h)
  exact ⟨y, hy, rfl⟩

theorem decodeText_eq_ok {read : String → Except DecodeFault Value} :
    decodeText kind v read = .ok w ↔ ∃ s, v = .string s ∧ read s = .ok w := by
  unfold decodeText
  cases v <;> simp [readString?]

theorem decodeText_map {α : Type} {f : α → Value} {read : String → Option α}
    (h : decodeText kind v (fun s => orText kind s ((read s).map f)) = .ok w) : ∃ s y, read s = some y ∧ w = f y := by
  obtain ⟨s, -, hs⟩ := decodeText_eq_ok.mp h
  obtain ⟨y, hy, rfl⟩ := Option.map_eq_some_iff.mp (orText_eq_ok.mp hs)
  exact ⟨s, y, hy, rfl⟩

theorem fitsBits_iff {bits : Nat} {n : Int} :
    fitsBits bits n = true ↔ -2 ^ (bits - 1) ≤ n ∧ n < 2 ^ (bits - 1) := by
  simp [fitsBits]

theorem readInt?_range {n : Int} (h : readInt? v = some n) : -2 ^ 31 ≤ n ∧ n < 2 ^ 31 := by
  unfold readInt? at h
  split at h
  · exact fitsBits_iff.mp (Option.filter_eq_some_iff.mp h).2
  · cases h

theorem readLong?_range {n : Int} (h : readLong? v = some n) : -2 ^ 63 ≤ n ∧ n < 2 ^ 63 := by
  unfold readLong? at h
  split at h
  · exact fitsBits_iff.mp (Option.filter_eq_some_iff.mp h).2
  · exact fitsBits_iff.mp (Option.filter_eq_some_iff.mp h).2
  · cases h

/-- A scalar has the representation of its kind. -/
theorem decodeScalar_sound (h : decodeScalar kind v = .ok w) (n : Bool) :
    w.nativeKind? = some (.of (.scalar kind n)) ∧ w.InRange := by
  cases kind with
  | int =>
    obtain ⟨m, hm, rfl⟩ := orJson_map h
    exact ⟨rfl, readInt?_range hm⟩
  | long =>
    obtain ⟨m, hm, rfl⟩ := orJson_map h
    exact ⟨rfl, readLong?_range hm⟩
  | float =>
    obtain ⟨x, -, rfl⟩ := orJson_map h
    exact ⟨rfl, trivial⟩
  | double =>
    obtain ⟨x, -, rfl⟩ := orJson_map h
    exact ⟨rfl, trivial⟩
  | boolean =>
    unfold decodeScalar at h
    cases v with
    | bool b =>
      cases h
      exact ⟨rfl, trivial⟩
    | _ => cases h
  | text =>
    obtain ⟨s, -, hs⟩ := decodeText_eq_ok.mp h
    cases hs
    exact ⟨rfl, trivial⟩
  | geography =>
    obtain ⟨s, -, hs⟩ := decodeText_eq_ok.mp h
    cases hs
    exact ⟨rfl, trivial⟩
  | date =>
    obtain ⟨-, d, -, rfl⟩ := decodeText_map h
    exact ⟨rfl, trivial⟩
  | timestamp =>
    obtain ⟨-, t, -, rfl⟩ := decodeText_map h
    exact ⟨rfl, trivial⟩
  | timestamptz =>
    obtain ⟨-, z, -, rfl⟩ := decodeText_map h
    exact ⟨rfl, trivial⟩
  | bytea =>
    obtain ⟨s, -, hs⟩ := decodeText_eq_ok.mp h
    obtain ⟨bs, -, rfl⟩ := map_eq_ok.mp hs
    exact ⟨rfl, trivial⟩

/-- A decimal is decoded exactly when its text reads as one and fits the column's precision. -/
theorem decodeDecimal_eq_ok {p : UInt32} :
    decodeDecimal p v = .ok w ↔
      ∃ cs d, decimalText? v = some cs ∧ Decimal.parse? cs = some d ∧ d.fitsPrecision p.toNat = true ∧
        w = .decimal d := by
  unfold decodeDecimal
  constructor
  · intro h
    split at h
    · cases h
    · next cs hcs =>
      split at h
      · next d hd =>
        split_ifs at h with hfits
        cases h
        exact ⟨cs, d, hcs, hd, hfits, rfl⟩
      · cases h
  · rintro ⟨cs, d, hcs, hd, hfits, rfl⟩
    simp only [hcs, hd, hfits, if_true]

theorem decodeDecimal_sound {p : UInt32} (h : decodeDecimal p v = .ok w) :
    ∃ d, w = .decimal d ∧ d.fitsPrecision p.toNat = true := by
  obtain ⟨-, d, -, -, hfits, rfl⟩ := decodeDecimal_eq_ok.mp h
  exact ⟨d, rfl, hfits⟩

end

/-! ## Arrays and structs -/

section

variable {fs : List (String × Descriptor)} {ms : List (String × Json)} {gs : List (String × Value)}

/-- Items are decoded one by one, in the order of the array and against one element type. -/
theorem items_sound {e : Descriptor} {vs : List Json} {ws : List Value}
    (h : (vs.mapM fun item => decode e item) = .ok ws) : ItemsSound e vs ws := by
  obtain ⟨hsize, hvalues⟩ := List.forall₂_iff_get.mp (mapM_eq_ok.mp h)
  refine ⟨hsize.symm, fun i v hv => ?_⟩
  obtain ⟨hi, rfl⟩ := List.getElem?_eq_some_iff.mp hv
  exact ⟨_, List.getElem?_eq_getElem (hsize ▸ hi), hvalues i hi (hsize ▸ hi)⟩

/-- Without a fault the declared fields and the members have the same names. -/
theorem keys_of_fieldFault? (h : fieldFault? fs ms = none) :
    (∀ f ∈ fs, f.1 ∈ ms.map (·.1)) ∧ ∀ m ∈ ms, m.1 ∈ fs.map (·.1) := by
  unfold fieldFault? at h
  split at h
  · cases h
  · next hmissing =>
    split at h
    · cases h
    · next hextra =>
      constructor
      · intro f hf
        simpa using List.find?_eq_none.mp hmissing f hf
      · intro m hm
        simpa using List.find?_eq_none.mp hextra m hm

/-- Looking up a member in a list that begins with `m`. -/
theorem lookup_member_cons (k : String) (m : String × Json) (ms : List (String × Json)) :
    (m :: ms).lookup k = if k = m.1 then some m.2 else ms.lookup k := by
  obtain ⟨key, v⟩ := m
  by_cases h : k = key
  · simp [h]
  · simp [List.lookup_cons, beq_eq_false_iff_ne.mpr h, h]

theorem lookup_without {name key : String} (h : key ≠ name) :
    (ms.filter (·.1 != name)).lookup key = ms.lookup key := by
  induction ms with
  | nil => rfl
  | cons m ms ih =>
    rw [List.filter_cons, lookup_member_cons]
    by_cases hm : m.1 = name
    · rw [if_neg (by simp [hm]), ih, if_neg (hm ▸ h)]
    · rw [if_pos (by simp [hm]), lookup_member_cons, ih]

/-- Fields are decoded in the order of the type, each from the member of its name. -/
theorem decodeFields_eq_ok (h : decodeFields fs ms = .ok gs) :
    gs.map (·.1) = fs.map (·.1) ∧ ∀ (i : Nat) (name : String) (t : Descriptor), fs[i]? = some (name, t) →
      ∃ w, gs[i]? = some (name, w) ∧ decode t ((ms.lookup name).getD .null) = .ok w := by
  induction fs generalizing gs with
  | nil =>
    rw [decodeFields] at h
    cases h
    exact ⟨rfl, nofun⟩
  | cons f fs ih =>
    obtain ⟨name, t⟩ := f
    simp only [decodeFields, bind_eq_ok, pure_eq_ok] at h
    obtain ⟨w, hw, gs, hgs, rfl⟩ := h
    obtain ⟨hnames, hvalues⟩ := ih hgs
    refine ⟨congrArg (name :: ·) hnames, fun i name' t' hf => ?_⟩
    cases i with
    | zero =>
      cases hf
      exact ⟨w, rfl, hw⟩
    | succ i => exact hvalues i name' t' hf

/-- Only the members named by the type are looked at. -/
theorem decodeFields_congr {ms' : List (String × Json)} (h : ∀ f ∈ fs, ms'.lookup f.1 = ms.lookup f.1) :
    decodeFields fs ms' = decodeFields fs ms := by
  induction fs with
  | nil => rw [decodeFields, decodeFields]
  | cons f fs ih =>
    obtain ⟨name, t⟩ := f
    obtain ⟨hname, hrest⟩ := List.forall_mem_cons.mp h
    rw [decodeFields, decodeFields, ih hrest, show ms'.lookup name = ms.lookup name from hname]

/-- Taking members off the object changes nothing, as long as all of them are there and no name comes twice. -/
theorem takeFields_eq (fallback : Json) (hnodup : (fs.map (·.1)).Nodup) (hkeys : ∀ f ∈ fs, f.1 ∈ ms.map (·.1)) :
    takeFields fallback fs ms = decodeFields fs ms := by
  induction fs generalizing ms with
  | nil => rw [takeFields, decodeFields]
  | cons f fs ih =>
    obtain ⟨name, t⟩ := f
    obtain ⟨hnew, hnodup⟩ := List.nodup_cons.mp hnodup
    obtain ⟨hname, hkeys⟩ := List.forall_mem_cons.mp hkeys
    -- The names that follow are other names, so that their members are still there.
    have hother : ∀ f ∈ fs, f.1 ≠ name := by
      intro f hf hname
      exact hnew (List.mem_map.mpr ⟨f, hf, hname⟩)
    have hleft : ∀ f ∈ fs, f.1 ∈ (ms.filter (·.1 != name)).map (·.1) := by
      intro f hf
      obtain ⟨m, hm, hmf⟩ := List.mem_map.mp (hkeys f hf)
      exact List.mem_map.mpr ⟨m, List.mem_filter.mpr ⟨hm, by simp [hmf, hother f hf]⟩, hmf⟩
    obtain ⟨v, hv⟩ := exists_lookup hname
    rw [takeFields, decodeFields, hv, Option.getD_some, Option.getD_some, ih hnodup hleft,
      decodeFields_congr fun f hf => lookup_without (hother f hf)]

/-- With the key check passed, every field of the type is there and no member is left over. -/
theorem fields_sound (hfault : fieldFault? fs ms = none) (h : decodeFields fs ms = .ok gs) :
    FieldsSound fs ms gs := by
  obtain ⟨hdeclared, hmembers⟩ := keys_of_fieldFault? hfault
  obtain ⟨hnames, hvalues⟩ := decodeFields_eq_ok h
  constructor
  · intro name
    constructor
    · rintro hname
      obtain ⟨m, hm, rfl⟩ := List.mem_map.mp hname
      exact hmembers m hm
    · rintro hname
      obtain ⟨f, hf, rfl⟩ := List.mem_map.mp hname
      exact hdeclared f hf
  · exact hnames
  · intro i name t hf
    obtain ⟨v, hv⟩ := exists_lookup (hdeclared _ (List.mem_of_getElem? hf))
    obtain ⟨w, hw, hdecode⟩ := hvalues i name t hf
    rw [hv] at hdecode
    exact ⟨v, w, hv, hw, hdecode⟩
  · intro hnodup fallback
    rw [takeFields_eq fallback hnodup hdeclared]
    exact h

end

/-! ## All types -/

section

variable {t e : Descriptor} {fs : List (String × Descriptor)} {n : Bool} {v : Json} {w : Value}

theorem decode_null (t : Descriptor) : decode t .null = .ok .null := by
  unfold decode
  rfl

theorem isNull_of_ne (h : v ≠ .null) : ¬v.isNull = true := by
  cases v <;> simp_all [Json.isNull]

theorem decode_scalar {kind : Scalar} (hv : v ≠ .null) : decode (.scalar kind n) v = decodeScalar kind v := by
  rw [decode, if_neg (isNull_of_ne hv)]

theorem decode_decimal {p s : UInt32} (hv : v ≠ .null) : decode (.decimal p s n) v = decodeDecimal p v := by
  rw [decode, if_neg (isNull_of_ne hv)]

theorem decode_array (hv : v ≠ .null) (h : decode (.array e n) v = .ok w) :
    ∃ vs ws, v = .array vs ∧ w = .array ws ∧ (vs.mapM fun item => decode e item) = .ok ws := by
  unfold decode at h
  rw [if_neg (isNull_of_ne hv)] at h
  cases v with
  | array vs =>
    obtain ⟨ws, hws, rfl⟩ := map_eq_ok.mp h
    exact ⟨vs, ws, rfl, rfl, hws⟩
  | _ => cases h

/-- A value of a struct type that is not null comes from an object that passed the key check. -/
theorem decode_struct (hv : v ≠ .null) (h : decode (.struct fs n) v = .ok w) :
    ∃ ms gs, v = .object ms ∧ w = .struct gs ∧ fieldFault? fs ms = none ∧ decodeFields fs ms = .ok gs := by
  unfold decode at h
  rw [if_neg (isNull_of_ne hv)] at h
  cases v with
  | object ms =>
    dsimp only at h
    cases hfault : fieldFault? fs ms with
    | some fault =>
      rw [hfault] at h
      cases h
    | none =>
      rw [hfault] at h
      obtain ⟨gs, hgs, rfl⟩ := map_eq_ok.mp h
      exact ⟨ms, gs, rfl, rfl, hfault, hgs⟩
  | _ => cases h

/-- Null is of every type. -/
theorem sound_null (t : Descriptor) : Sound t .null .null :=
  ⟨⟨fun _ => rfl, fun _ => rfl⟩, absurd rfl, trivial, fun _ _ _ _ => absurd rfl, fun _ _ _ => absurd rfl,
    fun _ _ _ => absurd rfl⟩

theorem null_iff_of_kind {k : NativeKind} (hv : v ≠ .null) (hw : w.nativeKind? = some k) :
    w = .null ↔ v = .null := by
  refine ⟨?_, fun h => absurd h hv⟩
  rintro rfl
  cases hw

theorem sound_of_decode (h : decode t v = .ok w) : Sound t v w := by
  by_cases hv : v = .null
  · subst hv
    rw [decode_null] at h
    cases h
    exact sound_null t
  · cases t with
    | scalar kind n =>
      obtain ⟨hkind, hrange⟩ := decodeScalar_sound (decode_scalar hv ▸ h) n
      exact ⟨null_iff_of_kind hv hkind, fun _ => hkind, hrange, nofun, nofun, nofun⟩
    | decimal p s n =>
      obtain ⟨d, rfl, hfits⟩ := decodeDecimal_sound (decode_decimal hv ▸ h)
      refine ⟨null_iff_of_kind hv rfl, fun _ => rfl, trivial, ?_, nofun, nofun⟩
      rintro p s n ⟨⟩ -
      exact ⟨d, rfl, hfits⟩
    | array e n =>
      obtain ⟨vs, ws, rfl, rfl, hitems⟩ := decode_array hv h
      refine ⟨null_iff_of_kind hv rfl, fun _ => rfl, trivial, nofun, ?_, nofun⟩
      rintro e n ⟨⟩ -
      exact ⟨vs, ws, rfl, rfl, items_sound hitems⟩
    | struct fs n =>
      obtain ⟨ms, gs, rfl, rfl, hfault, hfields⟩ := decode_struct hv h
      refine ⟨null_iff_of_kind hv rfl, fun _ => rfl, trivial, nofun, nofun, ?_⟩
      rintro fs n ⟨⟩ -
      exact ⟨ms, gs, rfl, rfl, fields_sound hfault hfields⟩

end

/-! ## All levels -/

/-- The places that a type, a JSON value and a decoded value have in common: the whole, the items of arrays and the
fields of structs. -/
inductive Place (t : Descriptor) (v : Json) (w : Value) : Descriptor → Json → Value → Prop
  | whole : Place t v w t v w
  | item {e : Descriptor} {n : Bool} {vs : List Json} {ws : List Value} {i : Nat} {v' : Json} {w' : Value}
      (array : Place t v w (.array e n) (.array vs) (.array ws)) (raw : vs[i]? = some v')
      (decoded : ws[i]? = some w') : Place t v w e v' w'
  | field {fs : List (String × Descriptor)} {n : Bool} {ms : List (String × Json)} {gs : List (String × Value)}
      {i : Nat} {name : String} {t' : Descriptor} {v' : Json} {w' : Value}
      (struct : Place t v w (.struct fs n) (.object ms) (.struct gs)) (declared : fs[i]? = some (name, t'))
      (raw : ms.lookup name = some v') (decoded : gs[i]? = some (name, w')) : Place t v w t' v' w'

/-- What is decoded as a whole is decoded at every place. -/
theorem decode_at {t t' : Descriptor} {v v' : Json} {w w' : Value} (h : decode t v = .ok w)
    (hp : Place t v w t' v' w') : decode t' v' = .ok w' := by
  -- On the way to the place; one level down is what `Sound` says about the level above.
  induction hp with
  | whole => exact h
  | item _ hraw hdecoded ih =>
    obtain ⟨vs, ws, hvs, hws, hitems⟩ := (sound_of_decode ih).array _ _ rfl nofun
    cases hvs
    cases hws
    obtain ⟨w'', hw'', hdecode⟩ := hitems.values _ _ hraw
    rw [hdecoded] at hw''
    cases hw''
    exact hdecode
  | field _ hdeclared hraw hdecoded ih =>
    obtain ⟨ms, gs, hms, hgs, hfields⟩ := (sound_of_decode ih).struct _ _ rfl nofun
    cases hms
    cases hgs
    obtain ⟨v'', w'', hv'', hw'', hdecode⟩ := hfields.values _ _ _ hdeclared
    rw [hraw] at hv''
    rw [hdecoded] at hw''
    cases hv''
    cases hw''
    exact hdecode

/-- What is decoded has the shape of its type: at every place it is the decoding of the JSON value at that place, and
of the type at that place. -/
theorem decode_sound {t : Descriptor} {v : Json} {w : Value} (h : decode t v = .ok w) {t' : Descriptor} {v' : Json}
    {w' : Value} (hp : Place t v w t' v' w') : decode t' v' = .ok w' ∧ Sound t' v' w' :=
  ⟨decode_at h hp, sound_of_decode (decode_at h hp)⟩

/-- A struct with two fields, its JSON value with the members the other way round, and what that is decoded to. -/
def sampleType : Descriptor :=
  .struct [("price", .decimal 4 1 false), ("counts", .array (.scalar .long true) false)] false

def sampleJson : Json :=
  .object [("counts", .array [.string "7", .null]), ("price", .string "12.5")]

def sampleValue : Value :=
  .struct [("price", .decimal ⟨125, 1⟩), ("counts", .array [.long 7, .null])]

theorem decode_sound_sample :
    decode sampleType sampleJson = .ok sampleValue ∧
      Place sampleType sampleJson sampleValue (.scalar .long true) .null .null ∧
      decode (.scalar .long true) .null = .ok .null ∧ Sound sampleType sampleJson sampleValue := by
  have hdecode : decode sampleType sampleJson = .ok sampleValue := by with_unfolding_all rfl
  have hcounts : Place sampleType sampleJson sampleValue (.array (.scalar .long true) false)
      (.array [.string "7", .null]) (.array [.long 7, .null]) :=
    .field (i := 1) .whole rfl rfl rfl
  have hnull : Place sampleType sampleJson sampleValue (.scalar .long true) .null .null :=
    .item (i := 1) hcounts rfl rfl
  exact ⟨hdecode, hnull, (decode_sound hdecode hnull).1, (decode_sound hdecode .whole).2⟩

end Value

end Rowset
