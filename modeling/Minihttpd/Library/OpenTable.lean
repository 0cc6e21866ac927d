import Mathlib.Data.List.Basic
import Mathlib.Data.List.Nodup
import Mathlib.Data.List.Perm.Basic
import Mathlib.Logic.Function.Basic
import Mathlib.Tactic.Lemma

/-!
# Tables of open keys

A table says which name an open key stands for. Keys are opened under a name
and closed again; a key that has been closed may be opened anew, so it is the
names that tell what has been opened and what has been closed.
-/
namespace OpenTable

variable {κ ν : Type*}

/-- The names of the keys that are open. -/
def names (table : κ → Option ν) (keys : List κ) : List ν := keys.filterMap table

/-- The open keys are those of a list without repetition. -/
structure Tracks (table : κ → Option ν) (keys : List κ) : Prop where
  distinct : keys.Nodup
  open_iff : ∀ k, (table k).isSome = true ↔ k ∈ keys

lemma names_append (table : κ → Option ν) (first second : List κ) :
    names table (first ++ second) = names table first ++ names table second :=
  List.filterMap_append

lemma names_congr {table table' : κ → Option ν} {keys : List κ}
    (same : ∀ k ∈ keys, table' k = table k) : names table' keys = names table keys :=
  List.filterMap_congr same

lemma names_length {table : κ → Option ν} {keys : List κ}
    (all_open : ∀ k ∈ keys, (table k).isSome = true) : (names table keys).length = keys.length := by
  induction keys with
  | nil => rfl
  | cons k rest ih =>
    obtain ⟨v, hv⟩ := Option.isSome_iff_exists.mp (all_open k List.mem_cons_self)
    have hrest := ih (fun j hj => all_open j (List.mem_cons_of_mem _ hj))
    rw [names, List.filterMap_cons_some hv, List.length_cons, List.length_cons]
    exact congrArg (· + 1) hrest

lemma tracks_none : Tracks (fun _ : κ => (none : Option ν)) [] := by
  refine ⟨List.nodup_nil, fun k => ?_⟩
  exact iff_of_false Bool.false_ne_true List.not_mem_nil

variable [DecidableEq κ]

/-- The keys are closed one after the other; closing a closed key does nothing. -/
def closeAll (table : κ → Option ν) : List κ → (κ → Option ν) × List ν
  | [] => (table, [])
  | k :: rest =>
    let later := closeAll (Function.update table k none) rest
    (later.1, (table k).toList ++ later.2)

/-- Closing distinct keys takes out their names and leaves the other keys alone. -/
theorem closeAll_spec (table : κ → Option ν) {keys : List κ} (distinct : keys.Nodup) :
    (closeAll table keys).2 = names table keys ∧
      ∀ k, (closeAll table keys).1 k = if k ∈ keys then none else table k := by
  induction keys generalizing table with
  | nil => exact ⟨rfl, fun _ => rfl⟩
  | cons j rest ih =>
    obtain ⟨hj, hrest⟩ := List.nodup_cons.mp distinct
    obtain ⟨hnames, htable⟩ := ih (Function.update table j none) hrest
    constructor
    · have hsame : names (Function.update table j none) rest = names table rest := by
        apply names_congr
        intro k hk
        exact Function.update_of_ne (ne_of_mem_of_not_mem hk hj) _ _
      simp only [closeAll]
      rw [hnames, hsame, names, names]
      cases hname : table j with
      | none =>
        rw [List.filterMap_cons_none hname]
        rfl
      | some v =>
        rw [List.filterMap_cons_some hname]
        rfl
    · intro k
      simp only [closeAll, htable]
      by_cases hkj : k = j
      · subst hkj
        rw [if_neg hj, if_pos List.mem_cons_self, Function.update_self]
      · rw [Function.update_of_ne hkj]
        by_cases hk : k ∈ rest
        · rw [if_pos hk, if_pos (List.mem_cons_of_mem _ hk)]
        · have hnot : k ∉ j :: rest := fun h => (List.mem_cons.mp h).elim hkj hk
          rw [if_neg hk, if_neg hnot]

/-- A new key is opened under a name. -/
theorem Tracks.install {table : κ → Option ν} {keys : List κ} (h : Tracks table keys) {k : κ}
    (free : table k = none) (v : ν) :
    Tracks (Function.update table k (some v)) (keys ++ [k]) ∧
      names (Function.update table k (some v)) (keys ++ [k]) = names table keys ++ [v] := by
  have hnew : k ∉ keys := by
    rw [← h.open_iff, free]
    exact Bool.false_ne_true
  have hsame : names (Function.update table k (some v)) keys = names table keys := by
    apply names_congr
    intro j hj
    exact Function.update_of_ne (ne_of_mem_of_not_mem hj hnew) _ _
  refine ⟨⟨?_, fun j => ?_⟩, ?_⟩
  · rw [List.nodup_append]
    refine ⟨h.distinct, List.nodup_singleton k, fun a ha b hb heq => hnew ?_⟩
    rw [← List.mem_singleton.mp hb, ← heq]
    exact ha
  · by_cases hj : j = k
    · subst hj
      rw [Function.update_self]
      exact iff_of_true rfl (List.mem_append_right _ (List.mem_singleton_self j))
    · rw [Function.update_of_ne hj, h.open_iff, List.mem_append, List.mem_singleton]
      exact (or_iff_left hj).symm
  · rw [names_append, hsame]
    congr 1
    rw [names, List.filterMap_cons_some (Function.update_self k (some v) table)]
    rfl

/-- What the open keys stood for is what those that stay open stand for, and
the names that have been closed: as many as keys were closed. -/
theorem Tracks.close {table : κ → Option ν} {keys closed kept : List κ} (h : Tracks table keys)
    (split : keys.Perm (closed ++ kept)) :
    Tracks (closeAll table closed).1 kept ∧
      (names table keys).Perm ((closeAll table closed).2 ++ names (closeAll table closed).1 kept) ∧
      (closeAll table closed).2.length = closed.length := by
  have hdistinct : (closed ++ kept).Nodup := split.nodup_iff.mp h.distinct
  obtain ⟨hclosed, hkept, hapart⟩ := List.nodup_append.mp hdistinct
  obtain ⟨hnames, htable⟩ := closeAll_spec table hclosed
  have hout : ∀ k ∈ kept, k ∉ closed := fun k hk hc => hapart k hc k hk rfl
  have hsame : names (closeAll table closed).1 kept = names table kept := by
    apply names_congr
    intro k hk
    rw [htable, if_neg (hout k hk)]
  refine ⟨⟨hkept, fun k => ?_⟩, ?_, ?_⟩
  · rw [htable]
    by_cases hk : k ∈ closed
    · rw [if_pos hk]
      exact iff_of_false Bool.false_ne_true (fun hkeep => hout k hkeep hk)
    · rw [if_neg hk, h.open_iff, split.mem_iff, List.mem_append]
      exact or_iff_right hk
  · rw [hnames, hsame, ← names_append]
    exact split.filterMap table
  · rw [hnames]
    apply names_length
    intro k hk
    rw [h.open_iff, split.mem_iff]
    exact List.mem_append_left _ hk

end OpenTable
