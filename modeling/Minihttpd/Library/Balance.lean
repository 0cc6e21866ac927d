import Mathlib.Logic.Function.Basic
import Mathlib.Tactic.Lemma

/-!
# Counting where least has been counted

Counters over an index set of which some members take part. As long as only a
least one of these is counted up, they stay level, whoever drops out.
-/
namespace Balance

variable {ι : Type*} {value : ι → Nat} {takesPart : ι → Prop}

/-- Two counters that take part differ by at most one. -/
def Level (value : ι → Nat) (takesPart : ι → Prop) : Prop :=
  ∀ i j, takesPart i → takesPart j → value i ≤ value j + 1

theorem level_of_equal {n : Nat} (equal : ∀ i, takesPart i → value i = n) :
    Level value takesPart := by
  intro i j hi hj
  rw [equal i hi, equal j hj]
  exact Nat.le_succ n

theorem Level.drop {still : ι → Prop} (h : Level value takesPart)
    (fewer : ∀ i, still i → takesPart i) : Level value still :=
  fun i j hi hj => h i j (fewer i hi) (fewer j hj)

theorem Level.count [DecidableEq ι] (h : Level value takesPart) {i : ι}
    (least : ∀ j, takesPart j → value i ≤ value j) :
    Level (Function.update value i (value i + 1)) takesPart := by
  intro j k hj hk
  rcases eq_or_ne j i with rfl | hji
  · rcases eq_or_ne k j with rfl | hkj
    · exact Nat.le_succ _
    · rw [Function.update_self, Function.update_of_ne hkj]
      exact Nat.succ_le_succ (least k hk)
  · rw [Function.update_of_ne hji]
    rcases eq_or_ne k i with rfl | hki
    · rw [Function.update_self]
      exact Nat.le_succ_of_le (h j k hj hk)
    · rw [Function.update_of_ne hki]
      exact h j k hj hk

end Balance
