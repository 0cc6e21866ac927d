import Mathlib.Data.Multiset.AddSub
import Mathlib.Tactic.Lemma

/-!
# A ledger of resources

A record of acquisitions and releases, replayed from the resources held before
it. Releasing what is not held has no result, so a record that can be replayed
releases nothing twice.
-/
namespace Ledger

variable {ρ : Type*}

inductive Action (ρ : Type*) where
  | acquire (r : ρ)
  | release (r : ρ)
  deriving DecidableEq, Repr

variable [DecidableEq ρ]

/-- What is held after a record, none where something not held is released. -/
def settle : Multiset ρ → List (Action ρ) → Option (Multiset ρ)
  | held, [] => some held
  | held, .acquire r :: rest => settle (r ::ₘ held) rest
  | held, .release r :: rest => if r ∈ held then settle (held.erase r) rest else none

lemma settle_append (held : Multiset ρ) (first second : List (Action ρ)) :
    settle held (first ++ second) = (settle held first).bind (settle · second) := by
  induction first generalizing held with
  | nil => rfl
  | cons action rest ih =>
    cases action with
    | acquire r => exact ih (r ::ₘ held)
    | release r =>
      rw [List.cons_append, settle, settle]
      by_cases hr : r ∈ held
      · rw [if_pos hr, if_pos hr]
        exact ih (held.erase r)
      · rw [if_neg hr, if_neg hr]
        rfl

section Rules
variable {start held : Multiset ρ} {record : List (Action ρ)}

theorem settle_acquire (h : settle start record = some held) (r : ρ) :
    settle start (record ++ [.acquire r]) = some (r ::ₘ held) := by
  rw [settle_append, h]
  rfl

theorem settle_release {r : ρ} (h : settle start record = some (r ::ₘ held)) :
    settle start (record ++ [.release r]) = some held := by
  rw [settle_append, h]
  change (if r ∈ r ::ₘ held then some ((r ::ₘ held).erase r) else none) = some held
  rw [if_pos (Multiset.mem_cons_self r held), Multiset.erase_cons_head]

/-- Everything in a list is released, and the rest is held on to. -/
theorem settle_releases {released : List ρ} (h : settle start record = some (released + held)) :
    settle start (record ++ released.map .release) = some held := by
  induction released generalizing record with
  | nil =>
    rw [List.map_nil, List.append_nil, h, Multiset.coe_nil, Multiset.zero_add]
  | cons r rest ih =>
    rw [List.map_cons, ← List.singleton_append, ← List.append_assoc]
    refine ih (settle_release ?_)
    rw [h, ← Multiset.cons_coe, Multiset.cons_add]

end Rules

end Ledger
