import Rowset.Proofs.Decimal.Normal
import Rowset.Proofs.Fields
import Rowset.Value.Basic

/-!
# Equality of values

`Value.equal` is symmetric and transitive, and what keeps it from being reflexive is NaN alone.  It compares arrays item
by item and structs field by field, in any order; so it is the relation `Alike SameScalar`, which goes down to the
scalars and compares decimals as numbers, zoned times as instants, binary numbers as IEEE 754 does, and all other
scalars exactly.

The fields of a struct have distinct names; `Keyed` values are those where that is so at every depth.  The main
statement is `Value.equal_laws`.
-/

namespace Rowset

/-- Universal time, in seconds and nanoseconds. -/
def Zoned.instant (z : Zoned) : Int × Nat := (z.unixSeconds, z.wall.nano)

theorem Zoned.sameInstant_iff {y z : Zoned} : y.sameInstant z = true ↔ y.instant = z.instant := by
  simp [sameInstant, instant]

namespace Binary

variable {f : Format} {x y z : Binary f}

/-- Floating numbers are compared as numbers: `nan` equals nothing and the two zeros are equal. -/
theorem numericallyEq_iff :
    x.numericallyEq y = true ↔
      x.isNaN = false ∧ y.isNaN = false ∧ (x = y ∨ x.isZero = true ∧ y.isZero = true) := by
  simp [numericallyEq, and_assoc]

theorem numericallyEq_self : x.numericallyEq x = true ↔ x.isNaN = false := by
  simp [numericallyEq_iff]

theorem numericallyEq_symm (h : x.numericallyEq y = true) : y.numericallyEq x = true := by
  rw [numericallyEq_iff] at h ⊢
  obtain ⟨hx, hy, rfl | ⟨hzx, hzy⟩⟩ := h
  · exact ⟨hy, hx, .inl rfl⟩
  · exact ⟨hy, hx, .inr ⟨hzy, hzx⟩⟩

theorem numericallyEq_trans (h : x.numericallyEq y = true) (h' : y.numericallyEq z = true) :
    x.numericallyEq z = true := by
  rw [numericallyEq_iff] at h h' ⊢
  obtain ⟨hx, -, hxy⟩ := h
  obtain ⟨-, hz, hyz⟩ := h'
  refine ⟨hx, hz, ?_⟩
  rcases hxy with rfl | ⟨hzx, hzy⟩
  · exact hyz
  · rcases hyz with rfl | ⟨-, hzz⟩
    · exact .inr ⟨hzx, hzy⟩
    · exact .inr ⟨hzx, hzz⟩

end Binary

namespace Value

/-! ## What is inside a value -/

/-- Whether a value has parts. -/
def isComposite : Value → Bool
  | array _ | struct _ => true
  | _ => false

/-- Whether a value is a scalar that is compared as it is, and not as what it stands for. -/
def isExact : Value → Bool
  | float _ | double _ | decimal _ | timestamptz _ | array _ | struct _ => false
  | _ => true

def isNaN : Value → Bool
  | float x => x.isNaN
  | double x => x.isNaN
  | _ => false

/-- A value is itself inside, and so is what is inside its items and the values of its fields. -/
inductive Inside (v : Value) : Value → Prop
  | here : Inside v v
  | item {w : Value} {ws : List Value} (mem : w ∈ ws) (inside : Inside v w) : Inside v (array ws)
  | field {name : String} {w : Value} {fs : List (String × Value)} (mem : (name, w) ∈ fs) (inside : Inside v w) :
      Inside v (struct fs)

/-- There is a NaN at some depth. -/
def HasNaN (v : Value) : Prop := ∃ w, Inside w v ∧ w.isNaN = true

/-- The fields of every struct inside have distinct names. -/
structure Keyed (v : Value) : Prop where
  distinct : ∀ fs, Inside (struct fs) v → (fs.map (·.1)).Nodup

theorem sizeOf_field_lt {fs : List (String × Value)} {f : String × Value} (hf : f ∈ fs) : sizeOf f.2 < sizeOf fs := by
  have hlt := List.sizeOf_lt_of_mem hf
  obtain ⟨name, w⟩ := f
  rw [Prod.mk.sizeOf_spec] at hlt
  dsimp only
  omega

/-- To show something of all values, show it of scalars, and of arrays and structs if it holds of their parts. -/
@[elab_as_elim]
theorem parts_induction {P : Value → Prop} (scalar : ∀ v, v.isComposite = false → P v)
    (array : ∀ vs, (∀ v ∈ vs, P v) → P (array vs)) (struct : ∀ fs, (∀ f ∈ fs, P f.2) → P (struct fs)) (v : Value) :
    P v :=
  match v with
  | .array vs => array vs fun w _ => parts_induction scalar array struct w
  | .struct fs => struct fs fun f hf =>
    have : sizeOf f.2 < sizeOf fs := sizeOf_field_lt hf
    parts_induction scalar array struct f.2
  | .null | .int _ | .long _ | .float _ | .double _ | .text _ | .date _ | .timestamp _ | .timestamptz _ | .boolean _
  | .bytea _ | .geography _ | .decimal _ => scalar _ rfl

section

variable {v w x : Value} {vs ws : List Value} {fs gs : List (String × Value)}

theorem inside_scalar_iff (hw : w.isComposite = false) : Inside v w ↔ v = w := by
  constructor
  · intro h
    cases h with
    | here => rfl
    | item | field => cases hw
  · rintro rfl
    exact .here

theorem hasNaN_scalar (hv : v.isComposite = false) : HasNaN v ↔ v.isNaN = true := by
  simp [HasNaN, inside_scalar_iff hv]

theorem hasNaN_array : HasNaN (array vs) ↔ ∃ v ∈ vs, HasNaN v := by
  constructor
  · rintro ⟨w, hw, hnan⟩
    cases hw with
    | here => cases hnan
    | item mem inside => exact ⟨_, mem, w, inside, hnan⟩
  · rintro ⟨v, hv, w, hw, hnan⟩
    exact ⟨w, .item hv hw, hnan⟩

theorem hasNaN_struct : HasNaN (struct fs) ↔ ∃ f ∈ fs, HasNaN f.2 := by
  constructor
  · rintro ⟨w, hw, hnan⟩
    cases hw with
    | here => cases hnan
    | field mem inside => exact ⟨_, mem, w, inside, hnan⟩
  · rintro ⟨⟨name, v⟩, hv, w, hw, hnan⟩
    exact ⟨w, .field hv hw, hnan⟩

theorem keyed_scalar (hv : v.isComposite = false) : Keyed v := by
  refine ⟨fun fs h => ?_⟩
  obtain rfl := (inside_scalar_iff hv).mp h
  cases hv

theorem keyed_array : Keyed (array vs) ↔ ∀ v ∈ vs, Keyed v := by
  constructor
  · intro h v hv
    exact ⟨fun fs hfs => h.distinct fs (.item hv hfs)⟩
  · intro h
    refine ⟨fun fs hfs => ?_⟩
    cases hfs with
    | item mem inside => exact (h _ mem).distinct fs inside

theorem keyed_struct : Keyed (struct fs) ↔ (fs.map (·.1)).Nodup ∧ ∀ f ∈ fs, Keyed f.2 := by
  constructor
  · intro h
    exact ⟨h.distinct fs .here, fun f hf => ⟨fun gs hgs => h.distinct gs (.field hf hgs)⟩⟩
  · rintro ⟨hd, h⟩
    refine ⟨fun gs hgs => ?_⟩
    cases hgs with
    | here => exact hd
    | field mem inside => exact (h _ mem).distinct gs inside

/-! ## Agreement up to the order of fields -/

/-- Two values agree up to the order of struct fields at every level, and where they have scalars, `R` relates these. -/
inductive Alike (R : Value → Value → Prop) : Value → Value → Prop
  | scalar {v w : Value} (left : v.isComposite = false) (right : w.isComposite = false) (related : R v w) :
      Alike R v w
  | array {vs ws : List Value} (size : vs.length = ws.length)
      (items : ∀ (i : Nat) (v w : Value), vs[i]? = some v → ws[i]? = some w → Alike R v w) :
      Alike R (array vs) (array ws)
  | struct {fs gs : List (String × Value)} (names : (fs.map (·.1)).Perm (gs.map (·.1)))
      (values : ∀ (name : String) (v w : Value), (name, v) ∈ fs → (name, w) ∈ gs → Alike R v w) :
      Alike R (struct fs) (struct gs)

/-- The same value up to the order of struct fields at every level. -/
def Reordered : Value → Value → Prop := Alike (· = ·)

/-- Scalars that count as the same: decimals as numbers, zoned times as instants, binary numbers as IEEE 754 compares
them, and the others if they are the same. -/
inductive SameScalar : Value → Value → Prop
  | decimal {d e : Decimal} (number : d.value = e.value) : SameScalar (decimal d) (decimal e)
  | timestamptz {y z : Zoned} (instant : y.instant = z.instant) : SameScalar (timestamptz y) (timestamptz z)
  | float {x y : Binary .single} (number : x.numericallyEq y = true) : SameScalar (float x) (float y)
  | double {x y : Binary .double} (number : x.numericallyEq y = true) : SameScalar (double x) (double y)
  | exact {v : Value} (exact : v.isExact = true) : SameScalar v v

section

variable {R S T : Value → Value → Prop}

theorem Alike.symm (h : Alike R v w) (hR : ∀ v w, R v w → S w v) : Alike S w v := by
  induction h with
  | scalar left right related => exact .scalar right left (hR _ _ related)
  | array size items ih => exact .array size.symm fun i v w hv hw => ih i w v hw hv
  | struct names values ih => exact .struct names.symm fun name v w hv hw => ih name w v hw hv

/-- Alikeness composes along the composition of the relations between its leaves. -/
theorem Alike.comp (h : Alike R v w) (h' : Alike S w x) (hT : ∀ v w x, R v w → S w x → T v x) : Alike T v x := by
  induction h generalizing x with
  | scalar left right related =>
    cases h' with
    | scalar _ right' related' => exact .scalar left right' (hT _ _ _ related related')
    | array | struct => cases right
  | @array vs ws size items ih =>
    cases h' with
    | scalar left => cases left
    | array size' items' =>
      refine .array (size.trans size') fun i v x hv hx => ?_
      have hi : i < ws.length := size ▸ (List.getElem?_eq_some_iff.mp hv).1
      exact ih i v ws[i] hv (List.getElem?_eq_getElem hi) (items' i _ x (List.getElem?_eq_getElem hi) hx)
  | struct names values ih =>
    cases h' with
    | scalar left => cases left
    | struct names' values' =>
      refine .struct (names.trans names') fun name v x hv hx => ?_
      obtain ⟨w, hw⟩ := exists_partner names hv
      exact ih name v w hv hw (values' name w x hw hx)

/-- Distinct names are distinct in any order. -/
theorem Alike.keyed (h : Alike R v w) (hv : v.Keyed) : w.Keyed := by
  induction h with
  | scalar _ right => exact keyed_scalar right
  | @array vs ws size items ih =>
    rw [keyed_array] at hv ⊢
    intro w hw
    obtain ⟨i, hi, rfl⟩ := List.getElem_of_mem hw
    have hi' : i < vs.length := size ▸ hi
    exact ih i vs[i] _ (List.getElem?_eq_getElem hi') (List.getElem?_eq_getElem hi) (hv _ (List.getElem_mem hi'))
  | struct names values ih =>
    rw [keyed_struct] at hv ⊢
    refine ⟨names.nodup_iff.mp hv.1, fun g hg => ?_⟩
    obtain ⟨v, hf⟩ := exists_partner names.symm hg
    exact ih g.1 v g.2 hf hg (hv.2 _ hf)

end

/-! ## Scalars -/

theorem SameScalar.symm (h : SameScalar v w) : SameScalar w v := by
  cases h with
  | decimal number => exact .decimal number.symm
  | timestamptz instant => exact .timestamptz instant.symm
  | float number => exact .float (Binary.numericallyEq_symm number)
  | double number => exact .double (Binary.numericallyEq_symm number)
  | exact h => exact .exact h

theorem SameScalar.trans (h : SameScalar v w) (h' : SameScalar w x) : SameScalar v x := by
  cases h with
  | exact => exact h'
  | decimal number =>
    cases h' with
    | decimal number' => exact .decimal (number.trans number')
    | exact => exact .decimal number
  | timestamptz instant =>
    cases h' with
    | timestamptz instant' => exact .timestamptz (instant.trans instant')
    | exact => exact .timestamptz instant
  | float number =>
    cases h' with
    | float number' => exact .float (Binary.numericallyEq_trans number number')
    | exact => exact .float number
  | double number =>
    cases h' with
    | double number' => exact .double (Binary.numericallyEq_trans number number')
    | exact => exact .double number

theorem SameScalar.isComposite (h : SameScalar v w) : v.isComposite = false ∧ w.isComposite = false := by
  cases h with
  | @exact v h => cases v <;> simp_all [isExact, Value.isComposite]
  | _ => exact ⟨rfl, rfl⟩

theorem SameScalar.isNaN (h : SameScalar v w) : v.isNaN = false := by
  cases h with
  | float number | double number => exact (Binary.numericallyEq_iff.mp number).1
  | @exact v h => cases v <;> simp_all [isExact, Value.isNaN]
  | _ => rfl

theorem sameScalar_self (hv : v.isComposite = false) (hn : v.isNaN = false) : SameScalar v v := by
  cases v with
  | float => exact .float (Binary.numericallyEq_self.mpr hn)
  | double => exact .double (Binary.numericallyEq_self.mpr hn)
  | decimal => exact .decimal rfl
  | timestamptz => exact .timestamptz rfl
  | array | struct => cases hv
  | _ => exact .exact rfl

/-- Values of different variants are never equal, whatever they hold. -/
theorem variant_eq_of_equal (h : v.equal w = true) : v.ctorIdx = w.ctorIdx := by
  unfold equal at h
  split at h
  all_goals first | rfl | cases h

/-- Apart from numbers with a point, zoned times and composite values, equal values are the same. -/
theorem eq_of_equal (hv : v.isExact = true) (h : v.equal w = true) : v = w := by
  unfold equal at h
  split at h
  all_goals simp_all [isExact]

theorem sameScalar_of_equal (hv : v.isComposite = false) (h : v.equal w = true) : SameScalar v w := by
  by_cases hexact : v.isExact = true
  · exact eq_of_equal hexact h ▸ .exact hexact
  · have hvariant := variant_eq_of_equal h
    cases v with
    | float =>
      cases w with
      | float => exact .float h
      | _ => cases hvariant
    | double =>
      cases w with
      | double => exact .double h
      | _ => cases hvariant
    | decimal =>
      cases w with
      | decimal => exact .decimal (Decimal.numericallyEq_iff.mp h)
      | _ => cases hvariant
    | timestamptz =>
      cases w with
      | timestamptz => exact .timestamptz (Zoned.sameInstant_iff.mp h)
      | _ => cases hvariant
    | array | struct => cases hv
    | _ => exact absurd rfl hexact

theorem equal_of_sameScalar (h : SameScalar v w) : v.equal w = true := by
  cases h with
  | float number | double number => exact number
  | decimal number => exact Decimal.numericallyEq_iff.mpr number
  | timestamptz instant => exact Zoned.sameInstant_iff.mpr instant
  | @exact v h => cases v <;> simp_all [isExact, equal]

/-! ## Arrays and structs -/

theorem equalItems_iff : equalItems vs ws = true ↔
    vs.length = ws.length ∧ ∀ (i : Nat) (v w : Value), vs[i]? = some v → ws[i]? = some w → v.equal w = true := by
  induction vs generalizing ws with
  | nil => cases ws <;> simp [equalItems]
  | cons v vs ih =>
    cases ws with
    | nil => simp [equalItems]
    | cons w ws =>
      rw [equalItems, Bool.and_eq_true, ih, List.length_cons, List.length_cons, Nat.add_right_cancel_iff]
      constructor
      · rintro ⟨hhead, hsize, hitems⟩
        refine ⟨hsize, fun i v' w' hv hw => ?_⟩
        cases i with
        | zero =>
          cases hv
          cases hw
          exact hhead
        | succ i => exact hitems i v' w' hv hw
      · rintro ⟨hsize, hitems⟩
        exact ⟨hitems 0 v w rfl rfl, hsize, fun i => hitems (i + 1)⟩

/-- Structs are compared by field name, so the order in which they hold their fields does not count. -/
theorem equalFields_iff :
    equalFields fs gs = true ↔ ∀ f ∈ fs, ∃ w, gs.lookup f.1 = some w ∧ f.2.equal w = true := by
  induction fs with
  | nil => simp [equalFields]
  | cons f fs ih =>
    obtain ⟨name, v⟩ := f
    rw [equalFields, Bool.and_eq_true, ih, List.forall_mem_cons]
    cases gs.lookup name <;> simp

theorem equal_array :
    (array vs).equal (array ws) = true ↔
      vs.length = ws.length ∧ ∀ (i : Nat) (v w : Value), vs[i]? = some v → ws[i]? = some w → v.equal w = true := by
  rw [equal, equalItems_iff]

theorem equal_struct : (struct fs).equal (struct gs) = true ↔
    fs.length = gs.length ∧ ∀ f ∈ fs, ∃ w, gs.lookup f.1 = some w ∧ f.2.equal w = true := by
  rw [equal, Bool.and_eq_true, beq_iff_eq, equalFields_iff]

/-! ## All values -/

/-- Values that agree are equal. -/
theorem equal_of_alike (h : Alike SameScalar v w) : v.equal w = true := by
  induction h with
  | scalar _ _ related => exact equal_of_sameScalar related
  | array size _ ih => exact equal_array.mpr ⟨size, ih⟩
  | struct names _ ih =>
    have hsame : SameFields (fun v w => equal v w = true) _ _ := ⟨names, ih⟩
    exact equal_struct.mpr ⟨hsame.size, fun f hf => hsame.exists_lookup hf⟩

/-- Values that are equal agree. -/
theorem alike_of_equal (hv : v.Keyed) (h : v.equal w = true) : Alike SameScalar v w := by
  have hvariant := variant_eq_of_equal h
  induction v using parts_induction generalizing w with
  | scalar v hscalar =>
    have hsame := sameScalar_of_equal hscalar h
    exact .scalar hscalar hsame.isComposite.2 hsame
  | array vs ih =>
    cases w with
    | array ws =>
      obtain ⟨hsize, hitems⟩ := equal_array.mp h
      refine .array hsize fun i v w hv' hw => ?_
      have hmem := List.mem_of_getElem? hv'
      have hequal := hitems i v w hv' hw
      exact ih v hmem (keyed_array.mp hv v hmem) hequal (variant_eq_of_equal hequal)
    | _ => cases hvariant
  | struct fs ih =>
    cases w with
    | struct gs =>
      obtain ⟨hd, hkeyed⟩ := keyed_struct.mp hv
      obtain ⟨hsize, hlookup⟩ := equal_struct.mp h
      -- Lookup goes from left to right only; names that are distinct make up for the other direction.
      have hsame : SameFields (fun v w => equal v w = true) fs gs := sameFields_of_lookup hd hsize hlookup
      refine .struct hsame.names fun name v w hv' hw => ?_
      have hequal := hsame.related name v w hv' hw
      exact ih (name, v) hv' (hkeyed _ hv') hequal (variant_eq_of_equal hequal)
    | _ => cases hvariant

/-- Equality of values is alikeness of their shapes over equal leaves; the laws below come from it. -/
theorem equal_iff_alike (hv : v.Keyed) : v.equal w = true ↔ Alike SameScalar v w :=
  ⟨alike_of_equal hv, equal_of_alike⟩

/-! ## NaN -/

/-- A value that equals something has no `nan` inside it. -/
theorem Alike.not_hasNaN (h : Alike SameScalar v w) : ¬v.HasNaN := by
  induction h with
  | scalar left _ related =>
    rw [hasNaN_scalar left, related.isNaN]
    exact Bool.false_ne_true
  | @array vs ws size items ih =>
    rw [hasNaN_array]
    rintro ⟨v, hv, hnan⟩
    obtain ⟨i, hi, rfl⟩ := List.getElem_of_mem hv
    exact ih i _ ws[i] (List.getElem?_eq_getElem hi) (List.getElem?_eq_getElem (size ▸ hi)) hnan
  | struct names values ih =>
    rw [hasNaN_struct]
    rintro ⟨f, hf, hnan⟩
    obtain ⟨w, hw⟩ := exists_partner names hf
    exact ih f.1 f.2 w hf hw hnan

/-- Without NaN, the same value in another order is an equal value. -/
theorem Reordered.alike (h : Reordered v w) (hn : ¬v.HasNaN) : Alike SameScalar v w := by
  induction h with
  | scalar left right related =>
    subst related
    rw [hasNaN_scalar left, Bool.not_eq_true] at hn
    exact .scalar left right (sameScalar_self left hn)
  | array size items ih =>
    rw [hasNaN_array] at hn
    exact .array size fun i v w hv hw => ih i v w hv hw fun hnan => hn ⟨v, List.mem_of_getElem? hv, hnan⟩
  | struct names values ih =>
    rw [hasNaN_struct] at hn
    exact .struct names fun name v w hv hw => ih name v w hv hw fun hnan => hn ⟨(name, v), hv, hnan⟩

theorem Reordered.refl (hv : v.Keyed) : Reordered v v := by
  induction v using parts_induction with
  | scalar v hscalar => exact .scalar hscalar hscalar rfl
  | array vs ih =>
    refine .array rfl fun i v w hv' hw => ?_
    have hmem := List.mem_of_getElem? hv'
    cases hv'.symm.trans hw
    exact ih v hmem (keyed_array.mp hv v hmem)
  | struct fs ih =>
    obtain ⟨hd, hkeyed⟩ := keyed_struct.mp hv
    refine .struct (.refl _) fun name v w hv' hw => ?_
    cases (lookup_of_mem hd hv').symm.trans (lookup_of_mem hd hw)
    exact ih (name, v) hv' (hkeyed _ hv')

theorem equal_self_iff (hv : v.Keyed) : v.equal v = true ↔ ¬v.HasNaN :=
  ⟨fun h => (alike_of_equal hv h).not_hasNaN, fun h => equal_of_alike ((Reordered.refl hv).alike h)⟩

/-! ## The laws of equality -/

theorem equal_comm (hv : v.Keyed) (hw : w.Keyed) : v.equal w = w.equal v := by
  rw [Bool.eq_iff_iff, equal_iff_alike hv, equal_iff_alike hw]
  exact ⟨fun h => h.symm fun _ _ => SameScalar.symm, fun h => h.symm fun _ _ => SameScalar.symm⟩

theorem equal_trans (hv : v.Keyed) (hw : w.Keyed) (h : v.equal w = true) (h' : w.equal x = true) :
    v.equal x = true :=
  equal_of_alike ((alike_of_equal hv h).comp (alike_of_equal hw h') fun _ _ _ => SameScalar.trans)

/-- The order of fields makes no difference to equality. -/
theorem Reordered.equal_eq (h : Reordered v w) (hv : v.Keyed) : w.equal x = v.equal x := by
  rw [Bool.eq_iff_iff, equal_iff_alike hv, equal_iff_alike (h.keyed hv)]
  constructor
  · intro hw
    exact h.comp hw fun v w x hvw hwx => hvw ▸ hwx
  · intro hx
    exact (h.symm fun _ _ => Eq.symm).comp hx fun v w x hvw hwx => hvw ▸ hwx

/-- Equality of values is symmetric and transitive, and a value is equal to itself unless there is a NaN in it.  Values
of different variants differ, and the order of the fields of either side makes no difference at any depth.  In all,
equal values are those that agree up to that order, with decimals compared as numbers and zoned times as instants. -/
theorem equal_laws (hv : v.Keyed) (hw : w.Keyed) :
    (v.equal w = true → w.equal v = true) ∧ (∀ x, v.equal w = true → w.equal x = true → v.equal x = true) ∧
      (v.equal v = true ↔ ¬v.HasNaN) ∧ (v.ctorIdx ≠ w.ctorIdx → v.equal w = false) ∧
      (∀ v', Reordered v v' → v'.equal w = v.equal w ∧ w.equal v' = w.equal v) ∧
      (v.equal w = true ↔ Alike SameScalar v w) := by
  refine ⟨fun h => equal_comm hv hw ▸ h, fun _ => equal_trans hv hw, equal_self_iff hv, fun hne => ?_, fun v' h => ?_,
    equal_iff_alike hv⟩
  · exact Bool.eq_false_iff.mpr fun h => hne (variant_eq_of_equal h)
  · rw [equal_comm hw (h.keyed hv), equal_comm hw hv, h.equal_eq hv]
    exact ⟨rfl, rfl⟩

end

/-- A price and an instant, under different offsets and in a different order. -/
def priceFirst : Value :=
  struct [("price", decimal ⟨10, 1⟩), ("sent", array [timestamptz ⟨⟨⟨2024, 1, 31⟩, 23, 30, 0, 0⟩, 0⟩, null])]

def priceLast : Value :=
  struct [("sent", array [timestamptz ⟨⟨⟨2024, 2, 1⟩, 0, 30, 0, 0⟩, 3600⟩, null]), ("price", decimal ⟨100, 2⟩)]

theorem equal_laws_sample :
    priceFirst.Keyed ∧ priceLast.Keyed ∧ priceFirst.equal priceLast = true ∧ priceLast.equal priceFirst = true ∧
      priceFirst.equal priceFirst = true ∧ Alike SameScalar priceFirst priceLast ∧
      (array [priceFirst, double .nan]).Keyed ∧
      (array [priceFirst, double .nan]).equal (array [priceFirst, double .nan]) = false := by
  have hsent (z : Zoned) : (array [timestamptz z, null]).Keyed :=
    keyed_array.mpr (List.forall_mem_cons.mpr ⟨keyed_scalar rfl, List.forall_mem_singleton.mpr (keyed_scalar rfl)⟩)
  have hfirst : priceFirst.Keyed := keyed_struct.mpr
    ⟨by decide, List.forall_mem_cons.mpr ⟨keyed_scalar rfl, List.forall_mem_singleton.mpr (hsent _)⟩⟩
  have hlast : priceLast.Keyed := keyed_struct.mpr
    ⟨by decide, List.forall_mem_cons.mpr ⟨hsent _, List.forall_mem_singleton.mpr (keyed_scalar rfl)⟩⟩
  have hequal : priceFirst.equal priceLast = true := by decide +kernel
  have hnan : (array [priceFirst, double .nan]).Keyed := by
    rw [keyed_array, List.forall_mem_cons, List.forall_mem_singleton]
    exact ⟨hfirst, keyed_scalar rfl⟩
  obtain ⟨hsymm, -, hself, -, -, halike⟩ := equal_laws hfirst hlast
  have hfree : ¬priceFirst.HasNaN := (halike.mp hequal).not_hasNaN
  refine ⟨hfirst, hlast, hequal, hsymm hequal, hself.mpr hfree, halike.mp hequal, hnan, ?_⟩
  rw [Bool.eq_false_iff, Ne, (equal_laws hnan hfirst).2.2.1, not_not]
  exact ⟨double .nan, .item (by simp) .here, by decide⟩

end Value

end Rowset
