import Mathlib.Data.List.Basic
import Mathlib.Data.List.Induction
import Mathlib.Tactic.Lemma

/-!
# Runs of steps that may fail

A step is a function into `Except ε`; a run is a monadic fold over its inputs.
The rules below take a fact about one step to a fact about a whole run.
-/
namespace FailingRun

universe u v w
variable {ε : Type u} {α β : Type v}

lemma ok_bind (a : α) (f : α → Except ε β) : ((.ok a : Except ε α) >>= f) = f a := rfl

/-- A sequence succeeds exactly through a success of its first part. -/
theorem bind_eq_ok {x : Except ε α} {f : α → Except ε β} {b : β} :
    (x >>= f) = .ok b ↔ ∃ a, x = .ok a ∧ f a = .ok b := by
  cases x with
  | error e =>
    constructor
    · intro h
      cases h
    · rintro ⟨_, h, _⟩
      cases h
  | ok a =>
    constructor
    · intro h
      exact ⟨a, rfl, h⟩
    · rintro ⟨_, h, hf⟩
      cases h
      exact hf

/-- A sequence fails in its first part or, behind a success of it, in its second. -/
theorem bind_eq_error {x : Except ε α} {f : α → Except ε β} {e : ε} :
    (x >>= f) = .error e ↔ x = .error e ∨ ∃ a, x = .ok a ∧ f a = .error e := by
  cases x with
  | error e' =>
    constructor
    · intro h
      cases h
      exact Or.inl rfl
    · rintro (h | ⟨_, h, _⟩)
      · cases h
        rfl
      · cases h
  | ok a =>
    constructor
    · intro h
      exact Or.inr ⟨a, rfl, h⟩
    · rintro (h | ⟨_, h, hf⟩)
      · cases h
      · cases h
        exact hf

/-- A failure that neither part of a sequence has. -/
theorem bind_ne_error {x : Except ε α} {f : α → Except ε β} {e : ε} (first : x ≠ .error e)
    (second : ∀ a, x = .ok a → f a ≠ .error e) : (x >>= f) ≠ .error e := by
  rintro h
  rcases bind_eq_error.mp h with hx | ⟨a, ha, hf⟩
  · exact first hx
  · exact second a ha hf

/-- Two sequences that go on alike behind each success of their first part. -/
theorem bind_congr_ok {x : Except ε α} {f g : α → Except ε β}
    (same : ∀ a, x = .ok a → f a = g a) : (x >>= f) = (x >>= g) := by
  cases x with
  | error e => rfl
  | ok a => exact same a rfl

/-- Where only successes that meet `P` count in the first part, they alone count in all. -/
theorem bind_ok_and_first {x y : Except ε α} {f : α → Except ε β} {P : Prop} {b : β}
    (first : ∀ a, x = .ok a ↔ y = .ok a ∧ P) : (x >>= f) = .ok b ↔ (y >>= f) = .ok b ∧ P := by
  rw [bind_eq_ok, bind_eq_ok]
  constructor
  · rintro ⟨a, ha, hf⟩
    obtain ⟨hy, hP⟩ := (first a).mp ha
    exact ⟨⟨a, hy, hf⟩, hP⟩
  · rintro ⟨⟨a, ha, hf⟩, hP⟩
    exact ⟨a, (first a).mpr ⟨ha, hP⟩, hf⟩

/-- The same of the second part. -/
theorem bind_ok_and_second {x : Except ε α} {f g : α → Except ε β} {P : Prop} {b : β}
    (second : ∀ a, x = .ok a → (f a = .ok b ↔ g a = .ok b ∧ P)) :
    (x >>= f) = .ok b ↔ (x >>= g) = .ok b ∧ P := by
  rw [bind_eq_ok, bind_eq_ok]
  constructor
  · rintro ⟨a, ha, hf⟩
    obtain ⟨hg, hP⟩ := (second a ha).mp hf
    exact ⟨⟨a, ha, hg⟩, hP⟩
  · rintro ⟨⟨a, ha, hg⟩, hP⟩
    exact ⟨a, ha, (second a ha).mpr ⟨hg, hP⟩⟩

theorem toOption_eq_some {x : Except ε α} {a : α} (h : x.toOption = some a) : x = .ok a := by
  cases x with
  | error e => cases h
  | ok b => exact congrArg Except.ok (Option.some.inj h)

theorem map_eq_ok {x : Except ε α} {f : α → β} {b : β} :
    x.map f = .ok b ↔ ∃ a, x = .ok a ∧ f a = b := by
  cases x with
  | error e =>
    constructor
    · intro h
      cases h
    · rintro ⟨_, h, _⟩
      cases h
  | ok a =>
    constructor
    · intro h
      cases h
      exact ⟨a, rfl, rfl⟩
    · rintro ⟨_, h, rfl⟩
      cases h
      rfl

section Fold
variable {σ : Type v} {ι : Type w} {step : σ → ι → Except ε σ}

/-- Where every step keeps `Inv` or fails with a `Bad` fault, so does every run. -/
theorem foldlM_total {Inv : σ → Prop} {Bad : ε → Prop} (inputs : List ι)
    (steps : ∀ s i, i ∈ inputs → Inv s →
      (∃ t, step s i = .ok t ∧ Inv t) ∨ ∃ e, step s i = .error e ∧ Bad e)
    {s : σ} (hs : Inv s) :
    (∃ t, inputs.foldlM step s = .ok t ∧ Inv t) ∨
      ∃ e, inputs.foldlM step s = .error e ∧ Bad e := by
  induction inputs generalizing s with
  | nil => exact Or.inl ⟨s, rfl, hs⟩
  | cons i rest ih =>
    rw [List.foldlM_cons]
    rcases steps s i List.mem_cons_self hs with ⟨m, hm, hinv⟩ | ⟨e, he, hbad⟩
    · rw [hm]
      exact ih (fun s i hi => steps s i (List.mem_cons_of_mem _ hi)) hinv
    · rw [he]
      exact Or.inr ⟨e, rfl, hbad⟩

/-- What every step keeps is kept by a run that gets through. -/
theorem foldlM_keeps {Inv : σ → Prop} (inputs : List ι)
    (steps : ∀ s i t, i ∈ inputs → Inv s → step s i = .ok t → Inv t) {s t : σ} (start : Inv s)
    (run : inputs.foldlM step s = .ok t) : Inv t := by
  induction inputs generalizing s with
  | nil =>
    cases run
    exact start
  | cons i rest ih =>
    rw [List.foldlM_cons] at run
    obtain ⟨m, hm, hrest⟩ := bind_eq_ok.mp run
    exact ih (fun s i t hi => steps s i t (List.mem_cons_of_mem _ hi))
      (steps s i m List.mem_cons_self start hm) hrest

/-- A run in which every step changes the view of its own input only, and there
by `R`, changes the view of each of its inputs by `R`. -/
theorem foldlM_each {ν : Type*} {view : σ → ι → ν} {R : ι → ν → ν → Prop} {Inv : σ → Prop}
    {inputs : List ι} (distinct : inputs.Nodup)
    (steps : ∀ s i, Inv s → ∃ t, step s i = .ok t ∧ Inv t ∧ R i (view s i) (view t i) ∧
      ∀ j, j ≠ i → view t j = view s j) {s : σ} (start : Inv s) :
    ∃ t, inputs.foldlM step s = .ok t ∧ Inv t ∧ (∀ i ∈ inputs, R i (view s i) (view t i)) ∧
      ∀ j, j ∉ inputs → view t j = view s j := by
  induction inputs generalizing s with
  | nil => exact ⟨s, rfl, start, fun _ h => absurd h List.not_mem_nil, fun _ _ => rfl⟩
  | cons i rest ih =>
    obtain ⟨hi, hrest⟩ := List.nodup_cons.mp distinct
    obtain ⟨m, hm, hinv, hown, hothers⟩ := steps s i start
    obtain ⟨t, ht, htinv, hdone, hsame⟩ := ih hrest hinv
    refine ⟨t, ?_, htinv, ?_, ?_⟩
    · rw [List.foldlM_cons, bind_eq_ok]
      exact ⟨m, hm, ht⟩
    · intro j hj
      rcases List.mem_cons.mp hj with rfl | hj
      · rw [hsame j hi]
        exact hown
      · have hne : j ≠ i := fun h => hi (h ▸ hj)
        rw [← hothers j hne]
        exact hdone j hj
    · intro j hj
      have hne : j ≠ i := fun h => hj (h ▸ List.mem_cons_self)
      rw [hsame j (fun h => hj (List.mem_cons_of_mem _ h)), hothers j hne]

/-- A run of an instrumented step erases to a run of the step. -/
theorem foldlM_erase {τ : Type v} {erase : τ → σ} {full : τ → ι → Except ε τ}
    (steps : ∀ s i, (full s i).map erase = step (erase s) i) (inputs : List ι) (s : τ) :
    (inputs.foldlM full s).map erase = inputs.foldlM step (erase s) := by
  induction inputs generalizing s with
  | nil => rfl
  | cons i rest ih =>
    rw [List.foldlM_cons, List.foldlM_cons, ← steps]
    cases full s i with
    | error e => rfl
    | ok t => exact ih t

theorem foldlM_append_eq_ok {first second : List ι} {s t : σ} :
    (first ++ second).foldlM step s = .ok t ↔
      ∃ m, first.foldlM step s = .ok m ∧ second.foldlM step m = .ok t := by
  rw [List.foldlM_append, bind_eq_ok]

/-- `P` holds of every step of the run from `s`: of the state in front of it, of
its input, and of the inputs up to and with it. -/
def EveryStep (step : σ → ι → Except ε σ) (s : σ) (inputs : List ι)
    (P : σ → ι → List ι → Prop) : Prop :=
  ∀ done i rest, inputs = done ++ i :: rest →
    ∃ m, done.foldlM step s = .ok m ∧ P m i (done ++ [i])

lemma foldlM_concat_eq_ok {done : List ι} {i : ι} {s m t : σ} (run : done.foldlM step s = .ok m)
    (last : step m i = .ok t) : (done ++ [i]).foldlM step s = .ok t := by
  rw [foldlM_append_eq_ok]
  refine ⟨m, run, ?_⟩
  rw [List.foldlM_cons, bind_eq_ok]
  exact ⟨t, last, rfl⟩

/-- Where two properties of a step agree under an invariant, and the first of
them hands the invariant on, they agree about whole runs. -/
theorem everyStep_congr (Inv : σ → Prop) {P Q : σ → ι → List ι → Prop} {s : σ} {inputs : List ι}
    (start : Inv s)
    (same : ∀ done i rest m, inputs = done ++ i :: rest → done.foldlM step s = .ok m → Inv m →
      (P m i (done ++ [i]) ↔ Q m i (done ++ [i])))
    (keeps : ∀ done i rest m, inputs = done ++ i :: rest → done.foldlM step s = .ok m → Inv m →
      P m i (done ++ [i]) → ∃ t, step m i = .ok t ∧ Inv t) :
    EveryStep step s inputs P ↔ EveryStep step s inputs Q := by
  have reached : EveryStep step s inputs (fun m i upto => P m i upto ∨ Q m i upto) →
      ∀ done rest, inputs = done ++ rest → ∀ m, done.foldlM step s = .ok m → Inv m := by
    intro either done
    induction done using List.reverseRecOn with
    | nil =>
      intro _ _ m run
      cases run
      exact start
    | append_singleton earlier i ih =>
      intro rest split m run
      rw [List.append_assoc, List.singleton_append] at split
      obtain ⟨before, hbefore, hstep⟩ := either earlier i rest split
      have hinv := ih _ split before hbefore
      have hP : P before i (earlier ++ [i]) :=
        hstep.elim id (same earlier i rest before split hbefore hinv).mpr
      obtain ⟨t, ht, htinv⟩ := keeps earlier i rest before split hbefore hinv hP
      rw [foldlM_concat_eq_ok hbefore ht] at run
      cases run
      exact htinv
  constructor
  · intro every done i rest split
    have either : EveryStep step s inputs (fun m i upto => P m i upto ∨ Q m i upto) :=
      fun done i rest split => (every done i rest split).imp fun _ h => ⟨h.1, Or.inl h.2⟩
    obtain ⟨m, hm, hP⟩ := every done i rest split
    have hinv := reached either done _ split m hm
    exact ⟨m, hm, (same done i rest m split hm hinv).mp hP⟩
  · intro every done i rest split
    have either : EveryStep step s inputs (fun m i upto => P m i upto ∨ Q m i upto) :=
      fun done i rest split => (every done i rest split).imp fun _ h => ⟨h.1, Or.inr h.2⟩
    obtain ⟨m, hm, hQ⟩ := every done i rest split
    have hinv := reached either done _ split m hm
    exact ⟨m, hm, (same done i rest m split hm hinv).mpr hQ⟩

end Fold

end FailingRun
