import Mathlib.Tactic.Common
import Rowset.Text.Position

/-!
# Positions and characters

A position in a text is a boundary if the characters before it take that many bytes.  Then the bytes from there on are
those of the characters that are left (`At`), a byte that is looked at is the first one of a character, and what is cut
out between two boundaries is a part of the text.

Runs of bytes are runs of characters if the bytes of a character have a property together or not at all, as they have
for a property that does not tell characters beyond ASCII apart (`Uniform`).
-/

namespace Rowset.Text

/-- The characters that are left at a position of a text. -/
def At (text : List Char) (pos : Nat) (rest : List Char) : Prop :=
  ∃ front, text = front ++ rest ∧ byteSize front = pos

/-- A position where a character begins, or the text ends. -/
def Boundary (text : List Char) (pos : Nat) : Prop :=
  ∃ rest, At text pos rest

/-- Characters beyond ASCII have the property together or not at all. -/
def Uniform (q : Char → Bool) : Prop :=
  ∀ c d, 128 ≤ c.toNat → 128 ≤ d.toNat → q c = q d

variable {text cs rest w front back : List Char} {pos pos' first last : Nat} {c d : Char} {q : Char → Bool}

/-! ## Boundaries -/

theorem At.boundary (h : At text pos rest) : Boundary text pos := ⟨rest, h⟩

theorem at_start (text : List Char) : At text 0 text := ⟨[], rfl, rfl⟩

theorem At.advance (h : At text pos (w ++ rest)) : At text (pos + byteSize w) rest := by
  obtain ⟨front, rfl, rfl⟩ := h
  exact ⟨front ++ w, (List.append_assoc front w rest).symm, byteSize_append front w⟩

/-- An ASCII character takes one byte. -/
theorem At.advance_ascii (h : At text pos (c :: rest)) (hc : c.toNat < 128) : At text (pos + 1) rest := by
  have hsize : byteSize [c] = 1 := Char.utf8Size_eq_one_iff.mpr (Nat.le_of_lt_succ hc)
  rw [← hsize]
  exact h.advance

/-- The position behind a prefix is the bytes of the prefix: position and rest make up the whole text. -/
theorem At.byteSize_eq (h : At text pos rest) : byteSize text = pos + byteSize rest := by
  obtain ⟨front, rfl, rfl⟩ := h
  exact byteSize_append front rest

/-- The position is known by what is left. -/
theorem At.unique (h : At text pos rest) (h' : At text pos' rest) : pos = pos' :=
  Nat.add_right_cancel (h.byteSize_eq.symm.trans h'.byteSize_eq)

theorem Boundary.le_byteSize (h : Boundary text pos) : pos ≤ byteSize text := by
  obtain ⟨rest, h⟩ := h
  rw [h.byteSize_eq]
  exact Nat.le_add_right pos _

theorem length_le_byteSize (cs : List Char) : cs.length ≤ byteSize cs := by
  induction cs with
  | nil => exact Nat.le_refl 0
  | cons c cs ih =>
    have hsize := c.utf8Size_pos
    rw [List.length_cons, byteSize_cons]
    omega

theorem At.length_le (h : At text pos rest) : rest.length ≤ byteSize text := by
  have hrest := length_le_byteSize rest
  rw [h.byteSize_eq]
  omega

/-- Further on less is left. -/
theorem At.length_lt (h : At text pos cs) (h' : At text pos' rest) (hlt : pos < pos') : rest.length < cs.length := by
  obtain ⟨front, rfl, rfl⟩ := h
  obtain ⟨front', hfront, rfl⟩ := h'
  by_contra hle
  have hprefix : front' <+: front := by
    refine List.prefix_of_prefix_length_le ⟨rest, hfront.symm⟩ (List.prefix_append front cs) ?_
    have hlength := congrArg List.length hfront
    simp only [List.length_append] at hlength
    omega
  obtain ⟨w, rfl⟩ := hprefix
  rw [byteSize_append] at hlt
  omega

/-! ## Cuts -/

theorem splitAt?_eq_some_iff : splitAt? pos cs = some (front, back) ↔ cs = front ++ back ∧ byteSize front = pos := by
  constructor
  · intro h
    induction cs generalizing pos front with
    | nil =>
      cases pos with
      | zero =>
        cases h
        exact ⟨rfl, rfl⟩
      | succ pos => cases h
    | cons c cs ih =>
      cases pos with
      | zero =>
        cases h
        exact ⟨rfl, rfl⟩
      | succ pos =>
        unfold splitAt? at h
        split at h
        · next hle =>
          obtain ⟨⟨front', back'⟩, hparts, hfront⟩ := Option.map_eq_some_iff.mp h
          obtain ⟨rfl, rfl⟩ := Prod.mk.inj hfront
          obtain ⟨rfl, hsize⟩ := ih hparts
          refine ⟨rfl, ?_⟩
          rw [byteSize_cons, hsize]
          omega
        · cases h
  · rintro ⟨rfl, rfl⟩
    induction front with
    | nil => exact splitAt?.eq_1 _
    | cons c front ih =>
      obtain ⟨pos, hpos⟩ : ∃ pos, c.utf8Size + byteSize front = pos + 1 :=
        Nat.exists_eq_succ_of_ne_zero (Nat.ne_of_gt (Nat.add_pos_left c.utf8Size_pos (byteSize front)))
      rw [byteSize_cons, hpos, List.cons_append, splitAt?, ← hpos, if_pos (Nat.le_add_right _ _),
        Nat.add_sub_cancel_left, ih]
      rfl

theorem isBoundary_iff : isBoundary text pos = true ↔ Boundary text pos := by
  unfold isBoundary
  rw [Option.isSome_iff_exists]
  constructor
  · rintro ⟨⟨front, back⟩, h⟩
    obtain ⟨rfl, rfl⟩ := splitAt?_eq_some_iff.mp h
    exact ⟨back, front, rfl, rfl⟩
  · rintro ⟨back, front, rfl, rfl⟩
    exact ⟨(front, back), splitAt?_eq_some_iff.mpr ⟨rfl, rfl⟩⟩

/-- Between boundaries the characters are cut out. -/
theorem slice?_of_at (h : At text first (w ++ rest)) : slice? text first (first + byteSize w) = some w := by
  obtain ⟨front, rfl, rfl⟩ := h
  have hfirst : splitAt? (byteSize front) (front ++ (w ++ rest)) = some (front, w ++ rest) :=
    splitAt?_eq_some_iff.mpr ⟨rfl, rfl⟩
  have hlast : splitAt? (byteSize w) (w ++ rest) = some (w, rest) := splitAt?_eq_some_iff.mpr ⟨rfl, rfl⟩
  unfold slice?
  rw [hfirst]
  dsimp only
  rw [if_pos (Nat.le_add_right _ _), Nat.add_sub_cancel_left, hlast]
  rfl

/-! ## Bytes of a character -/

theorem utf8EncodeChar_of_ascii (h : c.toNat < 128) : String.utf8EncodeChar c = [UInt8.ofNat c.toNat] := by
  unfold String.utf8EncodeChar
  exact if_pos (Nat.le_of_lt_succ h)

theorem utf8EncodeChar_cons (c : Char) : ∃ b bs, String.utf8EncodeChar c = b :: bs :=
  List.exists_cons_of_length_pos ((String.length_utf8EncodeChar c).symm ▸ c.utf8Size_pos)

/-- A number with its highest bit set is a byte with its highest bit set. -/
theorem le_toNat_ofNat {n : Nat} (h : 128 ≤ n) (h' : n < 256) : 128 ≤ (UInt8.ofNat n).toNat := by
  rw [UInt8.toNat_ofNat']
  omega

/-- The bytes of characters beyond ASCII are beyond ASCII. -/
theorem le_of_mem_utf8EncodeChar (h : 128 ≤ c.toNat) {b : UInt8} (hb : b ∈ String.utf8EncodeChar c) :
    128 ≤ b.toNat := by
  have hlarge : ¬c.val.toNat ≤ 127 := Nat.not_le_of_lt h
  unfold String.utf8EncodeChar at hb
  rw [if_neg hlarge] at hb
  split at hb
  · simp only [List.mem_cons, List.not_mem_nil, or_false] at hb
    rcases hb with rfl | rfl <;> exact le_toNat_ofNat (by omega) (by omega)
  split at hb
  · simp only [List.mem_cons, List.not_mem_nil, or_false] at hb
    rcases hb with rfl | rfl | rfl <;> exact le_toNat_ofNat (by omega) (by omega)
  · simp only [List.mem_cons, List.not_mem_nil, or_false] at hb
    rcases hb with rfl | rfl | rfl | rfl <;> exact le_toNat_ofNat (by omega) (by omega)

theorem toNat_latin1 (b : UInt8) : (latin1 b).toNat = b.toNat := by
  have hb := b.toNat_lt
  have hvalid : b.toNat.isValidChar := .inl (by omega)
  unfold latin1 Char.ofNat
  rw [dif_pos hvalid]
  rfl

/-- What does not tell characters beyond ASCII apart, has a character with each of its bytes or with none. -/
theorem Uniform.latin1_eq (hq : Uniform q) {b : UInt8} (hb : b ∈ String.utf8EncodeChar c) : q (latin1 b) = q c := by
  by_cases hc : c.toNat < 128
  · rw [utf8EncodeChar_of_ascii hc, List.mem_singleton] at hb
    have hlatin : latin1 b = c := by
      refine Char.toNat_inj.mp ?_
      rw [toNat_latin1, hb, UInt8.toNat_ofNat']
      omega
    rw [hlatin]
  · have hc : 128 ≤ c.toNat := Nat.le_of_not_lt hc
    refine hq _ _ ?_ hc
    rw [toNat_latin1]
    exact le_of_mem_utf8EncodeChar hc hb

/-! ## Runs of bytes -/

theorem encode_cons (c : Char) (cs : List Char) : Utf8.encode (c :: cs) = String.utf8EncodeChar c ++ Utf8.encode cs :=
  List.flatMap_cons

theorem encode_append (cs ds : List Char) : Utf8.encode (cs ++ ds) = Utf8.encode cs ++ Utf8.encode ds :=
  List.flatMap_append

/-- ASCII is its own encoding. -/
theorem encode_of_ascii (h : ∀ c ∈ cs, c.toNat < 128) : Utf8.encode cs = cs.map Char.toUInt8 := by
  induction cs with
  | nil => rfl
  | cons c cs ih =>
    rw [encode_cons, utf8EncodeChar_of_ascii (h c List.mem_cons_self), ih fun d hd => h d (List.mem_cons_of_mem c hd)]
    rfl

/-- A text is known by its bytes. -/
theorem encode_injective {ds : List Char} (h : Utf8.encode cs = Utf8.encode ds) : cs = ds := by
  have hbytes : cs.utf8Encode = ds.utf8Encode := congrArg List.toByteArray h
  rw [← String.toByteArray_ofList, ← String.toByteArray_ofList, String.toByteArray_inj] at hbytes
  exact String.ofList_injective hbytes

theorem length_encode (cs : List Char) : (Utf8.encode cs).length = byteSize cs := by
  induction cs with
  | nil => rfl
  | cons c cs ih => rw [encode_cons, List.length_append, String.length_utf8EncodeChar, ih, byteSize_cons]

/-- The bytes from a boundary on are those of the characters that are left. -/
theorem At.drop_encode (h : At text pos rest) : (Utf8.encode text).drop pos = Utf8.encode rest := by
  obtain ⟨front, rfl, rfl⟩ := h
  rw [encode_append, ← length_encode, List.drop_left]

/-- Scanning bytes for a uniform property and scanning characters for it stop at the same place. -/
theorem takeWhile_encode (hq : Uniform q) (cs : List Char) :
    (Utf8.encode cs).takeWhile (fun b => q (latin1 b)) = Utf8.encode (cs.takeWhile q) := by
  induction cs with
  | nil => rfl
  | cons c cs ih =>
    have hbytes : ∀ b ∈ String.utf8EncodeChar c, q (latin1 b) = q c := fun b hb => hq.latin1_eq hb
    rw [encode_cons]
    cases hc : q c with
    | true =>
      rw [List.takeWhile_cons_of_pos hc, encode_cons, ← ih]
      exact List.takeWhile_append_of_pos fun b hb => (hbytes b hb).trans hc
    | false =>
      obtain ⟨b, bs, hb⟩ := utf8EncodeChar_cons c
      have hfirst : ¬q (latin1 b) = true := by
        rw [hbytes b (hb ▸ List.mem_cons_self), hc]
        exact Bool.false_ne_true
      rw [List.takeWhile_cons_of_neg (by rw [hc]; exact Bool.false_ne_true), hb, List.cons_append]
      exact List.takeWhile_cons_of_neg hfirst

/-- A run of bytes is a run of characters. -/
theorem At.runEnd_eq (h : At text pos cs) (hq : Uniform q) :
    runEnd (fun b => q (latin1 b)) text pos = pos + byteSize (cs.takeWhile q) := by
  unfold runEnd
  rw [h.drop_encode, takeWhile_encode hq, length_encode]

/-- Behind a run stand the characters behind it. -/
theorem At.dropWhile (h : At text pos cs) (q : Char → Bool) :
    At text (pos + byteSize (cs.takeWhile q)) (cs.dropWhile q) := by
  refine At.advance ?_
  rw [List.takeWhile_append_dropWhile]
  exact h

/-- Nothing is left where there is no byte. -/
theorem At.byteAt?_nil (h : At text pos []) : byteAt? text pos = none := by
  unfold byteAt?
  rw [← List.head?_drop, h.drop_encode]
  rfl

/-! ## Properties of ASCII characters -/

/-- A property of ASCII characters is uniform: every other character's bytes are above them. -/
theorem uniform_of_ascii (h : ∀ c, q c = true → c.toNat < 128) : Uniform q := by
  have hfalse (c : Char) (hc : 128 ≤ c.toNat) : q c = false :=
    Bool.eq_false_iff.mpr fun hq => Nat.not_lt_of_le hc (h c hq)
  intro c d hc hd
  rw [hfalse c hc, hfalse d hd]

theorem Uniform.not (hq : Uniform q) : Uniform fun c => !q c := by
  intro c d hc hd
  exact congrArg Bool.not (hq c d hc hd)

/-- An ASCII character is known by any byte of it. -/
theorem uniform_eq (hd : d.toNat < 128) : Uniform (· == d) :=
  uniform_of_ascii fun _ h => beq_iff_eq.mp h ▸ hd

/-- An ASCII character's byte is found in no other character's encoding. -/
theorem eq_byte_iff (hd : d.toNat < 128) {b : UInt8} (hb : b ∈ String.utf8EncodeChar c) :
    b = UInt8.ofNat d.toNat ↔ c = d := by
  have hlatin : b = UInt8.ofNat d.toNat ↔ latin1 b = d := by
    rw [← UInt8.toNat_inj, ← Char.toNat_inj, toNat_latin1, UInt8.toNat_ofNat', Nat.mod_eq_of_lt (by omega)]
  rw [hlatin, ← beq_iff_eq, ← beq_iff_eq (a := c)]
  exact Bool.eq_iff_iff.mp ((uniform_eq hd).latin1_eq hb)

/-- At a boundary there is the first byte of a character, which tells the character from every ASCII one. -/
theorem At.byteAt?_cons (h : At text pos (c :: rest)) :
    ∃ b, byteAt? text pos = some b ∧ latin1 b = leadByte c ∧
      ∀ d : Char, d.toNat < 128 → (b = UInt8.ofNat d.toNat ↔ c = d) := by
  obtain ⟨b, bs, hb⟩ := utf8EncodeChar_cons c
  refine ⟨b, ?_, ?_, fun d hd => eq_byte_iff hd (hb ▸ List.mem_cons_self)⟩
  · unfold byteAt?
    rw [← List.head?_drop, h.drop_encode, encode_cons, hb]
    rfl
  · unfold leadByte
    rw [hb]
    rfl

theorem uniform_isAsciiBlank : Uniform isAsciiBlank := by
  refine uniform_of_ascii fun c h => ?_
  simp only [isAsciiBlank, Bool.or_eq_true, beq_iff_eq] at h
  rcases h with (((rfl | rfl) | rfl) | rfl) | rfl <;> decide

end Rowset.Text
