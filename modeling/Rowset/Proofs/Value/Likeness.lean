import Rowset.Proofs.Value.Equality
import Rowset.Proofs.Value.Fault

/-!
# Decoding against types that are alike

Two types are `Alike` if they differ at most in the order of struct fields and in the markers for null, at any depth.
For types whose structs have distinct names that is equality of types without the markers (`alike_iff_same`).

Types that are alike accept the same JSON values, though they may refuse one with different faults, and decode them to
values that differ at most in the order of struct fields.  The main statement is `Value.decode_alike`.
-/

namespace Rowset

namespace Descriptor

/-- The types differ at most in the order of struct fields and in markers for null, at any depth. -/
inductive Alike : Descriptor → Descriptor → Prop
  | scalar (kind : Scalar) (n m : Bool) : Alike (scalar kind n) (scalar kind m)
  | decimal (p s : UInt32) (n m : Bool) : Alike (decimal p s n) (decimal p s m)
  | array {d e : Descriptor} (n m : Bool) (element : Alike d e) : Alike (array d n) (array e m)
  | struct {fs gs : List (String × Descriptor)} (n m : Bool) (names : (fs.map (·.1)).Perm (gs.map (·.1)))
      (types : ∀ (name : String) (d e : Descriptor), (name, d) ∈ fs → (name, e) ∈ gs → Alike d e) :
      Alike (struct fs n) (struct gs m)

mutual

/-- The same type without any marker for null. -/
def unmarked : Descriptor → Descriptor
  | scalar k _ => scalar k false
  | decimal p s _ => decimal p s false
  | array e _ => array e.unmarked false
  | struct fs _ => struct (unmarkedFields fs) false

/-- The same fields without any marker for null. -/
def unmarkedFields : List (String × Descriptor) → List (String × Descriptor)
  | [] => []
  | (name, t) :: fs => (name, t.unmarked) :: unmarkedFields fs

end

section

variable {t u : Descriptor} {fs gs : List (String × Descriptor)} {name : String} {n m : Bool}

theorem Alike.symm (h : Alike t u) : Alike u t := by
  induction h with
  | scalar kind n m => exact .scalar kind m n
  | decimal p s n m => exact .decimal p s m n
  | array n m _ ih => exact .array m n ih
  | struct n m names _ ih => exact .struct m n names.symm fun name d e hd he => ih name e d he hd

/-! ## Equality without markers -/

theorem unmarkedFields_eq_map (fs : List (String × Descriptor)) :
    unmarkedFields fs = fs.map fun f => (f.1, f.2.unmarked) := by
  induction fs with
  | nil => rfl
  | cons f fs ih => rw [unmarkedFields, ih, List.map_cons]

theorem names_unmarkedFields (fs : List (String × Descriptor)) : (unmarkedFields fs).map (·.1) = fs.map (·.1) := by
  rw [unmarkedFields_eq_map, List.map_map]
  rfl

theorem mem_unmarkedFields : (name, u) ∈ unmarkedFields fs ↔ ∃ t, (name, t) ∈ fs ∧ t.unmarked = u := by
  simp [unmarkedFields_eq_map]

/-- Struct types are compared by field name, as structs are. -/
theorem sameFields_iff :
    sameFields fs gs = true ↔ ∀ f ∈ fs, ∃ u, gs.lookup f.1 = some u ∧ f.2.same u = true := by
  induction fs with
  | nil => simp [sameFields]
  | cons f fs ih =>
    obtain ⟨name, t⟩ := f
    rw [sameFields, Bool.and_eq_true, ih, List.forall_mem_cons]
    cases gs.lookup name <;> simp

theorem same_struct : (struct fs n).same (struct gs m) = true ↔
    (fs.length = gs.length ∧ ∀ f ∈ fs, ∃ u, gs.lookup f.1 = some u ∧ f.2.same u = true) ∧ n = m := by
  rw [same, Bool.and_eq_true, Bool.and_eq_true, beq_iff_eq, beq_iff_eq, sameFields_iff]

theorem Alike.same (h : Alike t u) : t.unmarked.same u.unmarked = true := by
  induction h with
  | scalar | decimal => simp [unmarked, Descriptor.same]
  | array _ _ _ ih => simpa [unmarked, Descriptor.same] using ih
  | @struct fs gs n m names _ ih =>
    have hsame : SameFields (fun t u => t.same u = true) (unmarkedFields fs) (unmarkedFields gs) := by
      refine ⟨by rwa [names_unmarkedFields, names_unmarkedFields], fun name t u ht hu => ?_⟩
      obtain ⟨d, hd, rfl⟩ := mem_unmarkedFields.mp ht
      obtain ⟨e, he, rfl⟩ := mem_unmarkedFields.mp hu
      exact ih name d e hd he
    exact same_struct.mpr ⟨⟨hsame.size, fun f hf => hsame.exists_lookup hf⟩, rfl⟩

/-- Types that compare as the same are reorderings of each other, if no field name occurs twice. -/
theorem alike_of_same (ht : Structs Distinct t) (h : t.unmarked.same u.unmarked = true) : Alike t u := by
  induction ht generalizing u with
  | scalar k n =>
    cases u with
    | scalar k' m =>
      obtain rfl : k = k' := by simpa [unmarked, same] using h
      exact .scalar k n m
    | _ => cases h
  | decimal p s n =>
    cases u with
    | decimal p' s' m =>
      obtain ⟨rfl, rfl⟩ : p = p' ∧ s = s' := by simpa [unmarked, same] using h
      exact .decimal p s n m
    | _ => cases h
  | array n _ ih =>
    cases u with
    | array e m => exact .array n m (ih (by simpa [unmarked, same] using h))
    | _ => cases h
  | @struct fs n here _ ih =>
    cases u with
    | struct gs m =>
      obtain ⟨⟨hsize, hlookup⟩, -⟩ := same_struct.mp h
      have hdistinct : ((unmarkedFields fs).map (·.1)).Nodup := by rwa [names_unmarkedFields]
      have hsame : SameFields (fun t u => t.same u = true) (unmarkedFields fs) (unmarkedFields gs) :=
        sameFields_of_lookup hdistinct hsize hlookup
      have hnames := hsame.names
      rw [names_unmarkedFields, names_unmarkedFields] at hnames
      refine .struct n m hnames fun name d e hd he => ?_
      have hd' := mem_unmarkedFields.mpr ⟨d, hd, rfl⟩
      have he' := mem_unmarkedFields.mpr ⟨e, he, rfl⟩
      exact ih (name, d) hd (hsame.related name d.unmarked e.unmarked hd' he')
    | _ => cases h

/-- Types with distinct names are alike if they are equal without their markers. -/
theorem alike_iff_same (ht : Structs Distinct t) : Alike t u ↔ t.unmarked.same u.unmarked = true :=
  ⟨Alike.same, alike_of_same ht⟩

end

end Descriptor

namespace Value

section

variable {t u d e : Descriptor} {n m : Bool} {v : Json} {w x : Value} {fs : List (String × Descriptor)}
  {ms : List (String × Json)} {gs : List (String × Value)} {name : String}

/-! ## What is decoded to what -/

/-- A value of a type without parts has no parts. -/
theorem isComposite_of_decode (ht : NativeKind.of t ≠ .array ∧ NativeKind.of t ≠ .struct) (h : decode t v = .ok w) :
    w.isComposite = false := by
  obtain ⟨harray, hstruct⟩ := ht
  have hsound := sound_of_decode h
  by_cases hv : v = .null
  · rw [hsound.null.mpr hv]
    rfl
  · have hkind := hsound.kind hv
    cases w with
    | array => exact absurd (Option.some.inj hkind).symm harray
    | struct => exact absurd (Option.some.inj hkind).symm hstruct
    | _ => rfl

theorem nativeKind_scalar (kind : Scalar) (n : Bool) :
    NativeKind.of (.scalar kind n) ≠ .array ∧ NativeKind.of (.scalar kind n) ≠ .struct := by
  cases kind <;> simp [NativeKind.of]

theorem nativeKind_decimal (p s : UInt32) (n : Bool) :
    NativeKind.of (.decimal p s n) ≠ .array ∧ NativeKind.of (.decimal p s n) ≠ .struct := by
  simp [NativeKind.of]

theorem decode_array_eq_ok :
    decode (.array e n) v = .ok w ↔ v = .null ∧ w = .null ∨
      ∃ vs ws, v = .array vs ∧ w = .array ws ∧ (vs.mapM fun item => decode e item) = .ok ws := by
  by_cases hv : v = .null
  · subst hv
    simp [decode_null, eq_comm]
  · constructor
    · intro h
      exact .inr (decode_array hv h)
    · rintro (⟨rfl, -⟩ | ⟨vs, ws, rfl, rfl, h⟩)
      · exact absurd rfl hv
      · rw [decode, if_neg (isNull_of_ne hv), h]
        rfl

theorem decode_struct_eq_ok :
    decode (.struct fs n) v = .ok w ↔ v = .null ∧ w = .null ∨
      ∃ ms gs, v = .object ms ∧ w = .struct gs ∧ fieldFault? fs ms = none ∧ decodeFields fs ms = .ok gs := by
  by_cases hv : v = .null
  · subst hv
    simp [decode_null, eq_comm]
  · constructor
    · intro h
      exact .inr (decode_struct hv h)
    · rintro (⟨rfl, -⟩ | ⟨ms, gs, rfl, rfl, hkeys, h⟩)
      · exact absurd rfl hv
      · rw [decode, if_neg (isNull_of_ne hv)]
        simp only [hkeys, h]
        rfl

/-- The fields of a decoded struct are decoded. -/
theorem exists_type_of_field (h : decodeFields fs ms = .ok gs) (hw : (name, w) ∈ gs) :
    ∃ d, (name, d) ∈ fs ∧ decode d ((ms.lookup name).getD .null) = .ok w := by
  rw [decodeFields_eq_mapM] at h
  obtain ⟨⟨name', d⟩, hd, hdecode⟩ := exists_of_mem_mapM h hw
  obtain ⟨w', hw', heq⟩ := map_eq_ok.mp hdecode
  cases heq
  exact ⟨d, hd, hw'⟩

theorem exists_decodeFields_iff :
    (∃ gs, decodeFields fs ms = .ok gs) ↔
      ∀ (name : String) (d : Descriptor), (name, d) ∈ fs → ∃ w, decode d ((ms.lookup name).getD .null) = .ok w := by
  rw [decodeFields_eq_mapM, exists_mapM_iff]
  simp [Prod.forall]

/-- If the structs of a type have distinct names, so have those of what is decoded. -/
theorem keyed_of_decode (ht : Descriptor.Structs Descriptor.Distinct t) (h : decode t v = .ok w) : w.Keyed := by
  induction ht generalizing v w with
  | scalar => exact keyed_scalar (isComposite_of_decode (nativeKind_scalar _ _) h)
  | decimal => exact keyed_scalar (isComposite_of_decode (nativeKind_decimal _ _ _) h)
  | array n _ ih =>
    rcases decode_array_eq_ok.mp h with ⟨-, rfl⟩ | ⟨vs, ws, rfl, rfl, hitems⟩
    · exact keyed_scalar rfl
    · rw [keyed_array]
      intro w hw
      obtain ⟨v, -, hv⟩ := exists_of_mem_mapM hitems hw
      exact ih hv
  | struct n here _ ih =>
    rcases decode_struct_eq_ok.mp h with ⟨-, rfl⟩ | ⟨ms, gs, rfl, rfl, -, hfields⟩
    · exact keyed_scalar rfl
    · rw [keyed_struct]
      refine ⟨(decodeFields_eq_ok hfields).1 ▸ here, fun g hg => ?_⟩
      obtain ⟨d, hd, hdecode⟩ := exists_type_of_field hfields hg
      exact ih (g.1, d) hd hdecode

/-! ## Types that are alike -/

/-- The key check looks at names only, and not at their order. -/
theorem fieldFault?_eq_none_of_perm {fs' : List (String × Descriptor)} (names : (fs.map (·.1)).Perm (fs'.map (·.1)))
    (h : fieldFault? fs ms = none) : fieldFault? fs' ms = none := by
  rw [fieldFault?_eq_none_iff] at h ⊢
  intro name
  rw [h, names.mem_iff]

/-- If fields of one name are decoded to the same, so are all fields, in whatever order they are declared. -/
theorem exists_decodeFields_of_perm {fs' : List (String × Descriptor)}
    (names : (fs.map (·.1)).Perm (fs'.map (·.1)))
    (types : ∀ (name : String) (d e : Descriptor), (name, d) ∈ fs → (name, e) ∈ fs' →
      ∀ v w, decode d v = .ok w → ∃ x, decode e v = .ok x ∧ Reordered w x)
    (h : decodeFields fs ms = .ok gs) :
    ∃ gs', decodeFields fs' ms = .ok gs' ∧ Reordered (.struct gs) (.struct gs') := by
  -- The members are taken in another order, but each is decoded on its own.
  obtain ⟨gs', hgs'⟩ : ∃ gs', decodeFields fs' ms = .ok gs' := by
    rw [exists_decodeFields_iff]
    intro name e he
    obtain ⟨d, hd⟩ := exists_partner names.symm he
    obtain ⟨w, hw⟩ := exists_decodeFields_iff.mp ⟨gs, h⟩ name d hd
    obtain ⟨x, hx, -⟩ := types name d e hd he _ w hw
    exact ⟨x, hx⟩
  refine ⟨gs', hgs', .struct ?_ fun name w x hw hx => ?_⟩
  · rw [(decodeFields_eq_ok h).1, (decodeFields_eq_ok hgs').1]
    exact names
  · obtain ⟨d, hd, hdecode⟩ := exists_type_of_field h hw
    obtain ⟨e, he, hdecode'⟩ := exists_type_of_field hgs' hx
    obtain ⟨y, hy, hreordered⟩ := types name d e hd he _ w hdecode
    cases hdecode'.symm.trans hy
    exact hreordered

theorem reordered_array {vs ws : List Value} (h : List.Forall₂ Reordered vs ws) :
    Reordered (.array vs) (.array ws) := by
  obtain ⟨hsize, hitems⟩ := List.forall₂_iff_get.mp h
  refine .array hsize fun i v w hv hw => ?_
  obtain ⟨hi, rfl⟩ := List.getElem?_eq_some_iff.mp hv
  obtain ⟨hi', rfl⟩ := List.getElem?_eq_some_iff.mp hw
  exact hitems i hi hi'

/-- What is decoded against a type is decoded against a type that is like it, to the same value up to the order of
fields. -/
theorem exists_decode_of_alike (h : Descriptor.Alike t u) (hw : decode t v = .ok w) :
    ∃ x, decode u v = .ok x ∧ Reordered w x := by
  induction h generalizing v w with
  | scalar kind n m =>
    have hscalar := isComposite_of_decode (nativeKind_scalar kind n) hw
    rw [decode] at hw ⊢
    exact ⟨w, hw, .scalar hscalar hscalar rfl⟩
  | decimal p s n m =>
    have hscalar := isComposite_of_decode (nativeKind_decimal p s n) hw
    rw [decode] at hw ⊢
    exact ⟨w, hw, .scalar hscalar hscalar rfl⟩
  | array n m _ ih =>
    rcases decode_array_eq_ok.mp hw with ⟨rfl, rfl⟩ | ⟨vs, ws, rfl, rfl, hws⟩
    · exact ⟨.null, decode_null _, .scalar rfl rfl rfl⟩
    · obtain ⟨xs, hxs, hrelated⟩ := exists_mapM_of_related (fun _ _ => ih) hws
      exact ⟨.array xs, decode_array_eq_ok.mpr (.inr ⟨vs, xs, rfl, rfl, hxs⟩), reordered_array hrelated⟩
  | struct n m names _ ih =>
    rcases decode_struct_eq_ok.mp hw with ⟨rfl, rfl⟩ | ⟨ms, gs, rfl, rfl, hkeys, hgs⟩
    · exact ⟨.null, decode_null _, .scalar rfl rfl rfl⟩
    · have hkeys' := fieldFault?_eq_none_of_perm names hkeys
      obtain ⟨gs', hgs', hreordered⟩ :=
        exists_decodeFields_of_perm names (fun name d e hd he _ _ => ih name d e hd he) hgs
      exact ⟨.struct gs', decode_struct_eq_ok.mpr (.inr ⟨ms, gs', rfl, rfl, hkeys', hgs'⟩), hreordered⟩

/-- Types that differ at most in the order of fields and in markers for null refuse the same JSON values.  What they
accept they decode to the same value up to the order of fields, so that the two values are equal if there is no NaN. -/
theorem decode_alike (h : Descriptor.Alike t u) (v : Json) :
    (∃ fault fault', decode t v = .error fault ∧ decode u v = .error fault') ∨
      ∃ w x, decode t v = .ok w ∧ decode u v = .ok x ∧ Reordered w x ∧
        (¬w.HasNaN → w.equal x = true ∧ x.equal w = true) := by
  cases ht : decode t v with
  | ok w =>
    obtain ⟨x, hx, hreordered⟩ := exists_decode_of_alike h ht
    refine .inr ⟨w, x, rfl, hx, hreordered, fun hn => ?_⟩
    have halike := hreordered.alike hn
    exact ⟨equal_of_alike halike, equal_of_alike (halike.symm fun _ _ => SameScalar.symm)⟩
  | error fault =>
    cases hu : decode u v with
    | ok x =>
      obtain ⟨w, hw, -⟩ := exists_decode_of_alike h.symm hu
      cases ht.symm.trans hw
    | error fault' => exact .inl ⟨fault, fault', rfl, rfl⟩

/-- The values are equal only if there is no NaN, when names are distinct. -/
theorem equal_iff_of_alike (ht : Descriptor.Structs Descriptor.Distinct t) (h : Descriptor.Alike t u)
    (hw : decode t v = .ok w) (hx : decode u v = .ok x) : w.equal x = true ↔ ¬w.HasNaN := by
  obtain ⟨y, hy, hreordered⟩ := exists_decode_of_alike h hw
  cases hx.symm.trans hy
  constructor
  · intro hequal
    exact (alike_of_equal (keyed_of_decode ht hw) hequal).not_hasNaN
  · intro hn
    exact equal_of_alike (hreordered.alike hn)

end

/-- Two declarations of the same fields in different order and with different markers. -/
def priceDeclaredFirst : Descriptor :=
  .array (.struct [("price", .decimal 4 1 false),
    ("size", .struct [("width", .scalar .long false), ("height", .scalar .long true)] false)] true) false

def sizeDeclaredFirst : Descriptor :=
  .array (.struct [("size", .struct [("height", .scalar .long false), ("width", .scalar .long false)] true),
    ("price", .decimal 4 1 true)] false) false

def pricedSizes : Json :=
  .array [.null, .object [("price", .string "12.5"), ("size", .object [("width", .string "3"), ("height", .null)])]]

theorem distinct_priceDeclaredFirst : Descriptor.Structs Descriptor.Distinct priceDeclaredFirst := by
  have houter : Descriptor.Distinct [("price", .decimal 4 1 false),
      ("size", .struct [("width", .scalar .long false), ("height", .scalar .long true)] false)] := by
    simp [Descriptor.Distinct]
  have hinner : Descriptor.Distinct [("width", .scalar .long false), ("height", .scalar .long true)] := by
    simp [Descriptor.Distinct]
  refine .array _ (.struct _ houter (List.forall_mem_cons.mpr ⟨.decimal .., List.forall_mem_singleton.mpr ?_⟩))
  exact .struct _ hinner (List.forall_mem_cons.mpr ⟨.scalar .., List.forall_mem_singleton.mpr (.scalar ..)⟩)

theorem decode_alike_sample :
    Descriptor.Alike priceDeclaredFirst sizeDeclaredFirst ∧
      (∃ w x, decode priceDeclaredFirst pricedSizes = .ok w ∧ decode sizeDeclaredFirst pricedSizes = .ok x ∧
        Reordered w x ∧ w.equal x = true) ∧
      decode priceDeclaredFirst (.array [.object []]) = .error (.missingField "price") ∧
      decode sizeDeclaredFirst (.array [.object []]) = .error (.missingField "size") := by
  have halike : Descriptor.Alike priceDeclaredFirst sizeDeclaredFirst :=
    (Descriptor.alike_iff_same distinct_priceDeclaredFirst).mpr (by decide)
  have hdecode : decode priceDeclaredFirst pricedSizes = .ok (.array [.null, .struct [("price", .decimal ⟨125, 1⟩),
      ("size", .struct [("width", .long 3), ("height", .null)])]]) := by with_unfolding_all rfl
  have hrefused : decode priceDeclaredFirst (.array [.object []]) = .error (.missingField "price") := by
    with_unfolding_all rfl
  refine ⟨halike, ?_, hrefused, by with_unfolding_all rfl⟩
  rcases decode_alike halike pricedSizes with ⟨fault, -, herror, -⟩ | ⟨w, x, hw, hx, hreordered, hequal⟩
  · cases hdecode.symm.trans herror
  · have hkeyed := keyed_of_decode distinct_priceDeclaredFirst hw
    cases hdecode.symm.trans hw
    have hn := (equal_self_iff hkeyed).mp (by decide +kernel)
    exact ⟨_, x, rfl, hx, hreordered, (hequal hn).1⟩

end Value

end Rowset
