import Rowset.Json.Printer
import Rowset.Proofs.Text.Position

/-!
# Values in messages are cut between characters

A message shows a long value up to the last boundary within the limit.  That boundary is searched for backwards from
the limit (`shorten?`); the start of a text is a boundary, so the search ends there at the latest, and since no
character takes more than four bytes it ends after three steps at most.  What is shown is then the longest start of the
text within the limit, as `describe` has it.

The main statement is `describe_keeps_characters`.
-/

namespace Rowset.Json

open Text (At Boundary byteSize lastBoundary? slice?)

variable {cs w : List Char} {limit last : Nat}

/-! ## The longest start -/

/-- Whatever start fits is a start of what is taken. -/
theorem prefix_takeBytes (hw : w <+: cs) (hle : byteSize w ≤ limit) : w <+: takeBytes limit cs := by
  induction w generalizing cs limit with
  | nil => exact List.nil_prefix
  | cons c w ih =>
    obtain ⟨rest, rfl⟩ := hw
    rw [Text.byteSize_cons] at hle
    rw [List.cons_append, takeBytes, if_pos (by omega)]
    exact List.cons_prefix_cons.mpr ⟨rfl, ih ⟨rest, rfl⟩ (by omega)⟩

/-- The next character does not fit, and it takes four bytes at most. -/
theorem lt_byteSize_takeBytes (h : limit < byteSize cs) : limit < byteSize (takeBytes limit cs) + 4 := by
  have hfits := byteSize_takeBytes_le limit cs
  obtain ⟨rest, hrest⟩ := takeBytes_prefix limit cs
  cases rest with
  | nil =>
    rw [List.append_nil] at hrest
    rw [hrest] at hfits
    omega
  | cons c rest =>
    by_contra hle
    have hsize := c.utf8Size_le_four
    have hnext : takeBytes limit cs ++ [c] <+: cs := ⟨rest, by rw [List.append_assoc]; exact hrest⟩
    have hnextSize : byteSize (takeBytes limit cs ++ [c]) ≤ limit := by
      rw [Text.byteSize_append, Text.byteSize_cons, Text.byteSize_nil]
      omega
    have hlength := (prefix_takeBytes hnext hnextSize).length_le
    rw [List.length_append, List.length_singleton] at hlength
    omega

/-! ## The search for it -/

/-- The search ends at the greatest boundary up to where it began. -/
theorem lastBoundary?_eq_some {pos : Nat} (hb : Boundary cs last) (hle : last ≤ pos)
    (hgreatest : ∀ p ≤ pos, Boundary cs p → p ≤ last) : lastBoundary? cs pos = some last := by
  induction pos with
  | zero =>
    obtain rfl := Nat.le_zero.mp hle
    unfold lastBoundary?
    rw [if_pos (Text.isBoundary_iff.mpr hb)]
  | succ pos ih =>
    unfold lastBoundary?
    by_cases hpos : Boundary cs (pos + 1)
    · have hlast : pos + 1 = last := Nat.le_antisymm (hgreatest _ (Nat.le_refl _) hpos) hle
      rw [if_pos (Text.isBoundary_iff.mpr hpos), hlast]
    · rw [if_neg fun hbound => hpos (Text.isBoundary_iff.mp hbound)]
      have hne : last ≠ pos + 1 := fun heq => hpos (heq ▸ hb)
      exact ih (by omega) fun p hp => hgreatest p (Nat.le_succ_of_le hp)

theorem lastBoundary?_takeBytes (limit : Nat) (cs : List Char) :
    lastBoundary? cs limit = some (byteSize (takeBytes limit cs)) := by
  obtain ⟨rest, hrest⟩ := takeBytes_prefix limit cs
  refine lastBoundary?_eq_some ⟨rest, _, hrest.symm, rfl⟩ (byteSize_takeBytes_le limit cs) ?_
  rintro p hp ⟨back, front, rfl, rfl⟩
  obtain ⟨between, hbetween⟩ := prefix_takeBytes (List.prefix_append front back) hp
  rw [← hbetween, Text.byteSize_append]
  exact Nat.le_add_right _ _

theorem shorten?_eq (limit : Nat) (cs : List Char) :
    shorten? limit cs = some (if byteSize cs ≤ limit then cs else takeBytes limit cs ++ "...".toList) := by
  unfold shorten?
  by_cases hle : byteSize cs ≤ limit
  · rw [if_pos hle, if_pos hle]
  · obtain ⟨rest, hrest⟩ := takeBytes_prefix limit cs
    have hstart : At cs 0 (takeBytes limit cs ++ rest) := hrest.symm ▸ Text.at_start cs
    have hcut := Text.slice?_of_at hstart
    rw [Nat.zero_add] at hcut
    rw [if_neg hle, if_neg hle, lastBoundary?_takeBytes]
    dsimp only
    rw [hcut]
    rfl

/-! ## What a message shows -/

/-- The part of a text that a message shows of it if it is too long. -/
structure LongestFront (cs front : List Char) : Prop where
  isStart : front <+: cs
  fits : byteSize front ≤ 64
  longest : ∀ w, w <+: cs → byteSize w ≤ 64 → w <+: front
  /-- The search for its end begins at the limit. -/
  found : lastBoundary? cs 64 = some (byteSize front)
  most : 61 ≤ byteSize front

theorem longestFront_takeBytes (h : 64 < byteSize cs) : LongestFront cs (takeBytes 64 cs) := by
  have hstart := takeBytes_prefix 64 cs
  have hnearly := lt_byteSize_takeBytes h
  exact ⟨hstart, byteSize_takeBytes_le 64 cs, fun _ => prefix_takeBytes, lastBoundary?_takeBytes 64 cs, by omega⟩

/-- What is promised of a value in a message. -/
structure Described (v : Json) : Prop where
  /-- It is what the search for a boundary gives, so that search does not go on below zero. -/
  shortened : shorten? 64 v.write = some v.describe
  whole : byteSize v.write ≤ 64 → v.describe = v.write
  cut : 64 < byteSize v.write → ∃ front, LongestFront v.write front ∧ v.describe = front ++ "...".toList
  bounded : byteSize v.describe ≤ 67

/-- A value in a message is cut between characters, as late as the limit allows. -/
theorem describe_keeps_characters (v : Json) : Described v := by
  have hshort : shorten? 64 v.write = some v.describe := shorten?_eq 64 v.write
  by_cases hle : byteSize v.write ≤ 64
  · have hwhole : v.describe = v.write := if_pos hle
    refine ⟨hshort, fun _ => hwhole, fun hlt => absurd hle (Nat.not_le_of_lt hlt), ?_⟩
    rw [hwhole]
    omega
  · have hcut : v.describe = takeBytes 64 v.write ++ "...".toList := if_neg hle
    have hfront := longestFront_takeBytes (Nat.lt_of_not_le hle)
    refine ⟨hshort, fun h => absurd h hle, fun _ => ⟨_, hfront, hcut⟩, ?_⟩
    have hdots : byteSize "...".toList = 3 := by decide
    have hfits := hfront.fits
    rw [hcut, Text.byteSize_append, hdots]
    omega

/-- Sixty-two letters and a sign of three bytes behind the quote: the limit falls into the sign, which is left out. -/
def longString : Json :=
  string (String.ofList (List.replicate 62 'a' ++ ['€']))

/-- The search steps back over the first byte of the sign. -/
theorem describe_keeps_characters_sample :
    Described longString ∧ longString.describe = '"' :: List.replicate 62 'a' ++ "...".toList ∧
      lastBoundary? longString.write 64 = some 63 := by
  refine ⟨describe_keeps_characters longString, ?_, ?_⟩ <;> decide

end Rowset.Json
