import Mathlib.Data.List.Perm.Subperm
import Mathlib.Data.List.Range
import Mathlib.Logic.Function.Basic
import Mathlib.Tactic.Lemma

/-!
# Descriptor tables

The open files of a process by their descriptors. A new file gets the lowest
descriptor that is not in use, and there is a limit to all of them. A loop over
all descriptors closes those it picks. A file that is open under one descriptor
only is known by it.
-/
namespace DescriptorTable

variable {τ : Type*}

/-- The descriptor a new file gets, if there is one below the limit. -/
def lowestFree (limit : Nat) (fds : Nat → Option τ) : Option Nat :=
  (List.range limit).find? fun fd => (fds fd).isNone

/-- A new file, under the descriptor it gets. -/
def openFile (limit : Nat) (fds : Nat → Option τ) (file : τ) : Option (Nat × (Nat → Option τ)) :=
  (lowestFree limit fds).map fun fd => (fd, Function.update fds fd (some file))

def close (fds : Nat → Option τ) (fd : Nat) : Nat → Option τ := Function.update fds fd none

/-- The loop over the descriptors below the limit, for those that are picked. -/
def closeWhere (picked : Nat → Bool) (limit : Nat) (fds : Nat → Option τ) : Nat → Option τ :=
  (List.range limit).foldl (fun fds fd => if picked fd then close fds fd else fds) fds

/-- Below the limit no descriptor is in use but these. -/
def Within (limit : Nat) (used : List Nat) (fds : Nat → Option τ) : Prop :=
  ∀ fd, fd < limit → fds fd ≠ none → fd ∈ used

/-- The file is open under this descriptor and no other. -/
def HeldAt (fds : Nat → Option τ) (file : τ) (fd : Nat) : Prop :=
  ∀ other, fds other = some file ↔ other = fd

def Absent (fds : Nat → Option τ) (file : τ) : Prop := ∀ fd, fds fd ≠ some file

/-- What opening a file makes of a table. -/
structure Opened (limit : Nat) (fds : Nat → Option τ) (file : τ) (fd : Nat)
    (after : Nat → Option τ) : Prop where
  below : fd < limit
  free : fds fd = none
  lowest : ∀ other, other < fd → fds other ≠ none
  self : after fd = some file
  other : ∀ fd', fd' ≠ fd → after fd' = fds fd'

section Tables
variable {fds after : Nat → Option τ} {used : List Nat} {limit fd : Nat} {file file' : τ}

lemma openFile_opened (h : openFile limit fds file = some (fd, after)) :
    Opened limit fds file fd after := by
  obtain ⟨fd', hfind, hpair⟩ := Option.map_eq_some_iff.mp h
  cases hpair
  obtain ⟨hfree, hmem, hlower⟩ := List.find?_range_eq_some.mp hfind
  refine ⟨List.mem_range.mp hmem, Option.isNone_iff_eq_none.mp hfree, fun other hother hnone => ?_,
    Function.update_self _ _ _, fun fd' hne => Function.update_of_ne hne _ _⟩
  have hheld := hlower other hother
  rw [hnone] at hheld
  cases hheld

/-- There is a descriptor as long as fewer than the limit are in use. -/
lemma openFile_room (within : Within limit used fds) (room : used.length < limit) (file : τ) :
    ∃ fd after, openFile limit fds file = some (fd, after) := by
  cases hfind : lowestFree limit fds with
  | some fd => exact ⟨fd, _, by rw [openFile, hfind]; rfl⟩
  | none =>
    have hall : ∀ fd ∈ List.range limit, fd ∈ used := by
      intro fd hfd
      refine within fd (List.mem_range.mp hfd) (fun hfree => ?_)
      exact List.find?_eq_none.mp hfind fd hfd (Option.isNone_iff_eq_none.mpr hfree)
    have hlength := (List.subperm_of_subset List.nodup_range hall).length_le
    rw [List.length_range] at hlength
    exact absurd room (Nat.not_lt_of_le hlength)

namespace Opened

lemma within (opened : Opened limit fds file fd after) (within : Within limit used fds) :
    Within limit (fd :: used) after := by
  intro fd' hlimit hused
  by_cases hself : fd' = fd
  · exact hself ▸ List.mem_cons_self
  · rw [opened.other fd' hself] at hused
    exact List.mem_cons_of_mem _ (within fd' hlimit hused)

/-- A descriptor that was in use is left as it was. -/
lemma keeps (opened : Opened limit fds file fd after) {other : Nat}
    (held : fds other = some file') : after other = some file' := by
  rw [opened.other other (fun h => ?_), held]
  rw [h, opened.free] at held
  cases held

lemma holds (opened : Opened limit fds file fd after) {other : Nat}
    (held : after other = some file') :
    other = fd ∧ file' = file ∨ other ≠ fd ∧ fds other = some file' := by
  by_cases hself : other = fd
  · subst hself
    rw [opened.self] at held
    cases held
    exact Or.inl ⟨rfl, rfl⟩
  · exact Or.inr ⟨hself, opened.other other hself ▸ held⟩

lemma heldAt (opened : Opened limit fds file fd after) (absent : Absent fds file) :
    HeldAt after file fd := by
  intro other
  constructor
  · intro held
    rcases opened.holds held with ⟨hself, _⟩ | ⟨_, hheld⟩
    · exact hself
    · exact absurd hheld (absent other)
  · rintro rfl
    exact opened.self

lemma absent (opened : Opened limit fds file fd after) (hne : file' ≠ file)
    (absent : Absent fds file') : Absent after file' := by
  intro other held
  rcases opened.holds held with ⟨_, hfile⟩ | ⟨_, hheld⟩
  · exact hne hfile
  · exact absent other hheld

lemma keepsAt (opened : Opened limit fds file fd after) (hne : file' ≠ file) {other : Nat}
    (only : HeldAt fds file' other) : HeldAt after file' other := by
  intro fd'
  constructor
  · intro held
    rcases opened.holds held with ⟨_, hfile⟩ | ⟨_, hheld⟩
    · exact absurd hfile hne
    · exact (only fd').mp hheld
  · intro hself
    exact opened.keeps ((only fd').mpr hself)

end Opened

lemma close_apply (other : Nat) : close fds fd other = if other = fd then none else fds other :=
  Function.update_apply _ _ _ _

/-- Closing what has been opened leaves what was there before. -/
lemma Opened.close_self (opened : Opened limit fds file fd after) : close after fd = fds := by
  funext other
  rw [close_apply]
  split
  · rename_i hself
    rw [hself, opened.free]
  · rename_i hother
    exact opened.other other hother

/-- The loop leaves a descriptor below the limit if and only if it is not picked. -/
lemma closeWhere_apply (picked : Nat → Bool) (limit : Nat) (fds : Nat → Option τ) (fd : Nat) :
    closeWhere picked limit fds fd = if fd < limit ∧ picked fd = true then none else fds fd := by
  induction limit with
  | zero => rfl
  | succ limit ih =>
    have hstep : closeWhere picked (limit + 1) fds = if picked limit = true then
        close (closeWhere picked limit fds) limit else closeWhere picked limit fds := by
      rw [closeWhere, List.range_succ, List.foldl_append]
      rfl
    rw [hstep]
    by_cases hlast : fd = limit
    · subst hlast
      cases hpicked : picked fd with
      | true => rw [if_pos rfl, close_apply, if_pos rfl, if_pos ⟨Nat.lt_succ_self fd, rfl⟩]
      | false =>
        rw [if_neg Bool.false_ne_true, ih, hpicked, if_neg (fun h => Bool.false_ne_true h.2),
          if_neg (fun h => Bool.false_ne_true h.2)]
    · have hbound : fd < limit + 1 ↔ fd < limit := by omega
      simp only [hbound]
      rw [← ih]
      split
      · rw [close_apply, if_neg hlast]
      · rfl

end Tables

end DescriptorTable
