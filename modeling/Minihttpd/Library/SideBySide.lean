import Minihttpd.Library.FailingRun

/-!
# Computations side by side

Two computations agree where both succeed, with related results, or both fail
in the same way. Agreement is kept by sequences and by whole runs, so it is
proved of programs from what the single steps do.
-/
namespace SideBySide

open FailingRun

universe u v w
variable {ε : Type u} {α β γ δ : Type v}

def Agree (R : α → β → Prop) : Except ε α → Except ε β → Prop
  | .ok a, .ok b => R a b
  | .error e, .error e' => e = e'
  | _, _ => False

variable {R : α → β → Prop} {S : γ → δ → Prop}

theorem agree_refl (x : Except ε α) : Agree Eq x x := by
  cases x with
  | error e => exact rfl
  | ok a => exact rfl

theorem agree_mono {R' : α → β → Prop} {x : Except ε α} {y : Except ε β} (h : Agree R x y)
    (weaker : ∀ a b, R a b → R' a b) : Agree R' x y := by
  cases x with
  | error e =>
    cases y with
    | error e' => exact h
    | ok b => exact h
  | ok a =>
    cases y with
    | error e' => exact h
    | ok b => exact weaker a b h

theorem agree_bind {x : Except ε α} {y : Except ε β} {f : α → Except ε γ} {g : β → Except ε δ}
    (h : Agree R x y) (rest : ∀ a b, R a b → Agree S (f a) (g b)) :
    Agree S (x >>= f) (y >>= g) := by
  cases x with
  | error e =>
    cases y with
    | error e' => exact h
    | ok b => exact h.elim
  | ok a =>
    cases y with
    | error e' => exact h.elim
    | ok b => exact rest a b h

/-- What follows a success may use what it came from. -/
theorem agree_bind_of_ok {x : Except ε α} {y : Except ε β} {f : α → Except ε γ}
    {g : β → Except ε δ} (h : Agree R x y)
    (rest : ∀ a b, x = .ok a → y = .ok b → R a b → Agree S (f a) (g b)) :
    Agree S (x >>= f) (y >>= g) := by
  cases x with
  | error e =>
    cases y with
    | error e' => exact h
    | ok b => exact h.elim
  | ok a =>
    cases y with
    | error e' => exact h.elim
    | ok b => exact rest a b rfl rfl h

/-- Runs over the same inputs agree when single steps do. -/
theorem agree_foldlM {ι : Type*} {f : α → ι → Except ε α} {g : β → ι → Except ε β}
    (step : ∀ a b i, R a b → Agree R (f a i) (g b i)) (inputs : List ι) {a : α} {b : β}
    (h : R a b) : Agree R (inputs.foldlM f a) (inputs.foldlM g b) := by
  induction inputs generalizing a b with
  | nil => exact h
  | cons i rest ih =>
    rw [List.foldlM_cons, List.foldlM_cons]
    exact agree_bind (step a b i h) fun _ _ hnext => ih hnext

/-- A success on the right is one on the left. -/
theorem agree_ok {x : Except ε α} {b : β} (h : Agree R x (.ok b)) : ∃ a, x = .ok a ∧ R a b := by
  cases x with
  | error e => exact h.elim
  | ok a => exact ⟨a, rfl, h⟩

/-- A success on the left is one on the right. -/
theorem agree_of_ok {a : α} {y : Except ε β} (h : Agree R (.ok a) y) : ∃ b, y = .ok b ∧ R a b := by
  cases y with
  | error e => exact h.elim
  | ok b => exact ⟨b, rfl, h⟩

end SideBySide
