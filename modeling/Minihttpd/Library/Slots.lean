import Mathlib.Data.List.Basic
import Mathlib.Data.List.Perm.Basic
import Mathlib.Logic.Function.Basic
import Mathlib.Tactic.Lemma

/-!
# Tables of slots

A table is a list of slots, empty or holding a key, and the keys stand for
values. Filling an empty slot adds one value to those the table holds, and
clearing a full one takes one away.
-/
namespace Slots

variable {κ α : Type*}

/-- The number of full slots. -/
def occupied (slots : List (Option κ)) : Nat := (slots.filter Option.isSome).length

/-- The values of the keys in the table, from the first slot to the last. -/
def held (value : κ → Option α) (slots : List (Option κ)) : List α :=
  slots.filterMap (fun slot => slot.bind value)

lemma occupied_replicate (n : Nat) : occupied (List.replicate n (none : Option κ)) = 0 := by
  rw [occupied, List.length_eq_zero_iff, List.filter_eq_nil_iff]
  intro slot hslot
  rw [List.eq_of_mem_replicate hslot]
  exact Bool.false_ne_true

lemma held_replicate (value : κ → Option α) (n : Nat) :
    held value (List.replicate n none) = [] := by
  rw [held, List.filterMap_eq_nil_iff]
  intro slot hslot
  rw [List.eq_of_mem_replicate hslot]
  rfl

lemma occupied_le (slots : List (Option κ)) : occupied slots ≤ slots.length :=
  List.length_filter_le _ _

theorem occupied_fill {slots : List (Option κ)} {i : Nat} (key : κ)
    (empty : slots[i]? = some none) :
    occupied (slots.set i (some key)) = occupied slots + 1 := by
  induction slots generalizing i with
  | nil => cases empty
  | cons slot rest ih =>
    cases i with
    | zero =>
      cases empty
      rfl
    | succ i =>
      have hrest := ih empty
      cases slot with
      | none => exact hrest
      | some k => exact congrArg Nat.succ hrest

theorem occupied_clear {slots : List (Option κ)} {i : Nat} {key : κ}
    (full : slots[i]? = some (some key)) : occupied (slots.set i none) + 1 = occupied slots := by
  induction slots generalizing i with
  | nil => cases full
  | cons slot rest ih =>
    cases i with
    | zero =>
      cases full
      rfl
    | succ i =>
      have hrest := ih full
      cases slot with
      | none => exact hrest
      | some k => exact congrArg Nat.succ hrest

/-- A table with room has an empty slot. -/
theorem exists_empty {slots : List (Option κ)} (room : occupied slots < slots.length) :
    ∃ i, slots.findIdx? Option.isNone = some i ∧ slots[i]? = some none := by
  cases hfind : slots.findIdx? Option.isNone with
  | some i =>
    obtain ⟨hi, hnone, _⟩ := List.findIdx?_eq_some_iff_getElem.mp hfind
    refine ⟨i, rfl, ?_⟩
    rw [List.getElem?_eq_getElem hi, Option.isNone_iff_eq_none.mp hnone]
  | none =>
    have hall := List.findIdx?_eq_none_iff.mp hfind
    have hfilter : slots.filter Option.isSome = slots := by
      apply List.filter_eq_self.mpr
      intro slot hslot
      have := hall slot hslot
      cases slot with
      | none => cases this
      | some k => rfl
    rw [occupied, hfilter] at room
    exact absurd room (Nat.lt_irrefl _)

lemma held_cons_none {value : κ → Option α} {slot : Option κ} (rest : List (Option κ))
    (h : slot.bind value = none) : held value (slot :: rest) = held value rest :=
  List.filterMap_cons_none h

lemma held_cons_some {value : κ → Option α} {slot : Option κ} {a : α} (rest : List (Option κ))
    (h : slot.bind value = some a) : held value (slot :: rest) = a :: held value rest :=
  List.filterMap_cons_some h

lemma mem_held {value : κ → Option α} {slots : List (Option κ)} {i : Nat} {key : κ} {a : α}
    (full : slots[i]? = some (some key)) (means : value key = some a) : a ∈ held value slots :=
  List.mem_filterMap.mpr ⟨some key, List.mem_of_getElem? full, means⟩

lemma exists_slot {value : κ → Option α} {slots : List (Option κ)} {a : α}
    (h : a ∈ held value slots) : ∃ (i : Nat) (key : κ), slots[i]? = some (some key) ∧
      value key = some a := by
  obtain ⟨slot, hslot, hvalue⟩ := List.mem_filterMap.mp h
  obtain ⟨i, hi⟩ := List.mem_iff_getElem?.mp hslot
  obtain ⟨key, rfl, hkey⟩ := Option.bind_eq_some_iff.mp hvalue
  exact ⟨i, key, hi, hkey⟩

lemma held_length {value : κ → Option α} {slots : List (Option κ)}
    (meant : ∀ (i : Nat) (k : κ), slots[i]? = some (some k) → (value k).isSome = true) :
    (held value slots).length = occupied slots := by
  induction slots with
  | nil => rfl
  | cons slot rest ih =>
    have hrest := ih (fun i k hi => meant (i + 1) k hi)
    cases slot with
    | none =>
      rw [held_cons_none rest rfl]
      exact hrest
    | some k =>
      obtain ⟨a, ha⟩ := Option.isSome_iff_exists.mp (meant 0 k rfl)
      rw [held_cons_some rest (show (some k).bind value = some a from ha), List.length_cons]
      exact congrArg Nat.succ hrest

/-- Two meanings of the keys that agree on the table hold the same values. -/
lemma held_congr {value value' : κ → Option α} {slots : List (Option κ)}
    (same : ∀ (i : Nat) k, slots[i]? = some (some k) → value k = value' k) :
    held value slots = held value' slots := by
  induction slots with
  | nil => rfl
  | cons slot rest ih =>
    have hrest := ih (fun i k h => same (i + 1) k h)
    have hslot : slot.bind value = slot.bind value' := by
      cases slot with
      | none => rfl
      | some k => exact same 0 k rfl
    cases hvalue : slot.bind value with
    | none => rw [held_cons_none rest hvalue, held_cons_none rest (hslot ▸ hvalue), hrest]
    | some a => rw [held_cons_some rest hvalue, held_cons_some rest (hslot ▸ hvalue), hrest]

theorem held_fill {value : κ → Option α} {slots : List (Option κ)} {i : Nat} {key : κ} {a : α}
    (empty : slots[i]? = some none) (means : value key = some a) :
    (held value (slots.set i (some key))).Perm (a :: held value slots) := by
  induction slots generalizing i with
  | nil => cases empty
  | cons slot rest ih =>
    cases i with
    | zero =>
      cases empty
      rw [List.set_cons_zero, held_cons_some rest (show (some key).bind value = some a from means),
        held_cons_none rest rfl]
    | succ i =>
      have hrest := ih empty
      rw [List.set_cons_succ]
      cases hslot : slot.bind value with
      | none =>
        rw [held_cons_none _ hslot, held_cons_none _ hslot]
        exact hrest
      | some b =>
        rw [held_cons_some _ hslot, held_cons_some _ hslot]
        exact (hrest.cons b).trans (List.Perm.swap a b _)

theorem held_clear {value : κ → Option α} {slots : List (Option κ)} {i : Nat} {key : κ} {a : α}
    (full : slots[i]? = some (some key)) (means : value key = some a) :
    (held value slots).Perm (a :: held value (slots.set i none)) := by
  induction slots generalizing i with
  | nil => cases full
  | cons slot rest ih =>
    cases i with
    | zero =>
      cases full
      rw [List.set_cons_zero, held_cons_some rest (show (some key).bind value = some a from means),
        held_cons_none rest rfl]
    | succ i =>
      have hrest := ih full
      rw [List.set_cons_succ]
      cases hslot : slot.bind value with
      | none =>
        rw [held_cons_none _ hslot, held_cons_none _ hslot]
        exact hrest
      | some b =>
        rw [held_cons_some _ hslot, held_cons_some _ hslot]
        exact (hrest.cons b).trans (List.Perm.swap a b _)

lemma getElem?_set_none {slots : List (Option κ)} {i j : Nat} {key : κ}
    (h : (slots.set i none)[j]? = some (some key)) : slots[j]? = some (some key) ∧ j ≠ i := by
  by_cases hij : i = j
  · subst hij
    rw [List.getElem?_set_self'] at h
    cases hs : slots[i]? with
    | none =>
      rw [hs] at h
      cases h
    | some slot =>
      rw [hs] at h
      cases h
  · rw [List.getElem?_set_ne hij] at h
    exact ⟨h, Ne.symm hij⟩

lemma getElem?_set_some {slots : List (Option κ)} {i j : Nat} {key k : κ}
    (h : (slots.set i (some key))[j]? = some (some k)) :
    j = i ∧ k = key ∨ j ≠ i ∧ slots[j]? = some (some k) := by
  by_cases hij : i = j
  · subst hij
    rw [List.getElem?_set_self'] at h
    cases hs : slots[i]? with
    | none =>
      rw [hs] at h
      cases h
    | some slot =>
      rw [hs] at h
      cases h
      exact Or.inl ⟨rfl, rfl⟩
  · rw [List.getElem?_set_ne hij] at h
    exact Or.inr ⟨Ne.symm hij, h⟩

end Slots
