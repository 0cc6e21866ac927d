import Mathlib.Data.List.Basic
import Mathlib.Data.List.Infix
import Mathlib.Tactic.Lemma

/-!
# Blocks of cells

An allocated block is a list of cells, and a cell that nothing was written to
holds no value. Copies into a block fail where they would leave it. A text at
the front of a block grows by what is copied behind it.
-/
namespace MemoryBlocks

variable {ε α : Type} (fault : ε)

abbrev Block (α : Type) := List (Option α)

/-- A block of `n` cells that begins with the cells of `block`. -/
def resize (block : Block α) (n : Nat) : Block α :=
  block.take n ++ List.replicate (n - block.length) none

/-- The first `n` cells of `source`, copied to the position `offset`. -/
def copyInto (block : Block α) (offset : Nat) (source : Block α) (n : Nat) :
    Except ε (Block α) :=
  if offset + n ≤ block.length ∧ n ≤ source.length then
    .ok (block.take offset ++ source.take n ++ block.drop (offset + n))
  else .error fault

def putAt (block : Block α) (i : Nat) (c : α) : Except ε (Block α) :=
  if i < block.length then .ok (block.set i (some c)) else .error fault

/-- The block begins with this text. -/
def Holds (block : Block α) (text : List α) : Prop := text.map some <+: block

variable {block source : Block α} {text piece : List α}

lemma holds_nil (block : Block α) : Holds block [] := List.nil_prefix

lemma holds_map (text : List α) : Holds (text.map some) text := List.prefix_refl _

lemma Holds.length_le (h : Holds block text) : text.length ≤ block.length := by
  have hlength := List.IsPrefix.length_le h
  rwa [List.length_map] at hlength

lemma Holds.take (h : Holds block text) : block.take text.length = text.map some := by
  have htake := List.prefix_iff_eq_take.mp h
  rw [List.length_map] at htake
  exact htake.symm

/-- A text begins with each of its own beginnings. -/
lemma Holds.shorten (h : Holds block text) (shorter : piece <+: text) : Holds block piece :=
  (shorter.map some).trans h

lemma resize_length (block : Block α) (n : Nat) : (resize block n).length = n := by
  rw [resize, List.length_append, List.length_take, List.length_replicate]
  omega

lemma Holds.resize (h : Holds block text) {n : Nat} (fits : text.length ≤ n) :
    Holds (resize block n) text := by
  have hfront : text.map some <+: block.take n := by
    refine List.prefix_take_iff.mpr ⟨h, ?_⟩
    rwa [List.length_map]
  exact hfront.trans (List.prefix_append _ _)

/-- A copy behind a text makes it longer. -/
theorem Holds.copyInto (h : Holds block text) (hs : Holds source piece)
    (fits : text.length + piece.length ≤ block.length) :
    ∃ after, copyInto fault block text.length source piece.length = .ok after ∧
      after.length = block.length ∧ Holds after (text ++ piece) := by
  refine ⟨_, if_pos ⟨fits, hs.length_le⟩, ?_, ?_⟩
  · simp only [List.length_append, List.length_take, List.length_drop]
    have := hs.length_le
    omega
  · rw [h.take, hs.take, Holds, List.map_append]
    exact List.prefix_append _ _

theorem Holds.putAt (h : Holds block text) (c : α) (fits : text.length < block.length) :
    ∃ after, putAt fault block text.length c = .ok after ∧ after.length = block.length ∧
      Holds after (text ++ [c]) := by
  refine ⟨_, if_pos fits, List.length_set, ?_⟩
  obtain ⟨rest, rfl⟩ := h
  cases rest with
  | nil =>
    rw [List.append_nil, List.length_map] at fits
    exact absurd fits (Nat.lt_irrefl _)
  | cons d rest =>
    refine ⟨rest, ?_⟩
    rw [List.set_append_right _ _ (by rw [List.length_map]), List.length_map, Nat.sub_self,
      List.set_cons_zero, List.map_append, List.append_assoc]
    rfl

end MemoryBlocks
