import Mathlib.Data.List.Nodup
import Mathlib.Data.List.Perm.Subperm

/-!
# Fields by name

Lists of named things, the fields of a struct or the members of an object, are compared by name.  `SameFields R` says
that two lists have the same names in some order and that `R` relates what has the same name.  If no name comes twice,
it is enough to look every field of one list up in the other (`sameFields_of_lookup`).
-/

namespace Rowset

variable {α β : Type} {fs : List (String × α)} {gs : List (String × β)} {name : String} {x : α} {y : β}

theorem mem_of_lookup (h : fs.lookup name = some x) : (name, x) ∈ fs := by
  obtain ⟨before, after, rfl, -⟩ := List.lookup_eq_some_iff.mp h
  exact List.mem_append_right _ List.mem_cons_self

theorem exists_lookup (h : name ∈ fs.map (·.1)) : ∃ x, fs.lookup name = some x := by
  obtain ⟨f, hf, rfl⟩ := List.mem_map.mp h
  exact Option.isSome_iff_exists.mp (List.lookup_isSome_iff.mpr ⟨f, hf, beq_self_eq_true f.1⟩)

theorem name_mem (h : (name, x) ∈ fs) : name ∈ fs.map (·.1) := List.mem_map.mpr ⟨_, h, rfl⟩

/-- A name that comes once is found where it is. -/
theorem lookup_of_mem (hd : (fs.map (·.1)).Nodup) (h : (name, x) ∈ fs) : fs.lookup name = some x := by
  obtain ⟨x', hx'⟩ := exists_lookup (name_mem h)
  have hsame : (name, x') = (name, x) := List.inj_on_of_nodup_map hd (mem_of_lookup hx') h rfl
  rw [hx', (Prod.mk.inj hsame).2]

theorem any_name_iff : gs.any (·.1 == name) = true ↔ name ∈ gs.map (·.1) := by
  rw [List.any_eq_true, List.mem_map]
  simp only [beq_iff_eq]

/-- The first of some named things whose name is not among others. -/
theorem find?_unmatched_eq_some_iff {f : String × α} :
    (fs.find? fun f => !gs.any (·.1 == f.1)) = some f ↔
      ∃ before after, fs = before ++ f :: after ∧ (∀ g ∈ before, g.1 ∈ gs.map (·.1)) ∧ f.1 ∉ gs.map (·.1) := by
  rw [List.find?_eq_some_iff_append]
  simp only [Bool.not_not, Bool.not_eq_true', Bool.eq_false_iff, Ne, any_name_iff]
  constructor
  · rintro ⟨hf, before, after, hfs, hbefore⟩
    exact ⟨before, after, hfs, hbefore, hf⟩
  · rintro ⟨before, after, hfs, hbefore, hf⟩
    exact ⟨hf, before, after, hfs, hbefore⟩

theorem find?_unmatched_eq_none_iff :
    (fs.find? fun f => !gs.any (·.1 == f.1)) = none ↔ ∀ f ∈ fs, f.1 ∈ gs.map (·.1) := by
  simp only [List.find?_eq_none, Bool.not_eq_true', Bool.eq_false_iff, Ne, any_name_iff, not_not]

/-- The lists have the same names, in any order, and `R` relates what has the same name. -/
structure SameFields (R : α → β → Prop) (fs : List (String × α)) (gs : List (String × β)) : Prop where
  names : (fs.map (·.1)).Perm (gs.map (·.1))
  related : ∀ name x y, (name, x) ∈ fs → (name, y) ∈ gs → R x y

/-- What is in one list has a partner in a list with the same names. -/
theorem exists_partner (hnames : (fs.map (·.1)).Perm (gs.map (·.1))) (h : (name, x) ∈ fs) : ∃ y, (name, y) ∈ gs := by
  obtain ⟨y, hy⟩ := exists_lookup (hnames.mem_iff.mp (name_mem h))
  exact ⟨y, mem_of_lookup hy⟩

theorem SameFields.size {R : α → β → Prop} (h : SameFields R fs gs) : fs.length = gs.length := by
  simpa using h.names.length_eq

theorem SameFields.exists_lookup {R : α → β → Prop} (h : SameFields R fs gs) (hx : (name, x) ∈ fs) :
    ∃ y, gs.lookup name = some y ∧ R x y := by
  obtain ⟨y, hy⟩ := Rowset.exists_lookup (h.names.mem_iff.mp (name_mem hx))
  exact ⟨y, hy, h.related name x y hx (mem_of_lookup hy)⟩

/-- Lists of one size have the same fields if every field of one is found in the other. -/
theorem sameFields_of_lookup {R : α → β → Prop} (hd : (fs.map (·.1)).Nodup) (hsize : fs.length = gs.length)
    (hlookup : ∀ f ∈ fs, ∃ y, gs.lookup f.1 = some y ∧ R f.2 y) : SameFields R fs gs := by
  have hnames : (fs.map (·.1)).Perm (gs.map (·.1)) := by
    refine (List.subperm_of_subset hd fun name hname => ?_).perm_of_length_le (by simp [hsize])
    obtain ⟨f, hf, rfl⟩ := List.mem_map.mp hname
    obtain ⟨y, hy, -⟩ := hlookup f hf
    exact name_mem (mem_of_lookup hy)
  refine ⟨hnames, fun name x y hx hy => ?_⟩
  obtain ⟨y', hy', hrelated⟩ := hlookup (name, x) hx
  rw [lookup_of_mem (hnames.nodup_iff.mp hd) hy] at hy'
  cases hy'
  exact hrelated

end Rowset
