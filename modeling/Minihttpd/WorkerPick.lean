import Minihttpd.ReapedWorkers

/-!
# The worker that is picked

The pick starts from a sentinel that is itself a value of the counters. A worker
whose counter has come to it is passed over, and a connection that finds no other
worker is refused although somebody could take it.
-/
namespace WorkerPick

open MainLoop LoadBalance ReapedWorkers FailingRun

/-- The worker at `i` is the first of those that run and have been sent least. -/
structure FirstLeast (child : List ServerChild) (i : Nat) (c : ServerChild) : Prop where
  place : child[i]? = some c
  running : c.workerRunning = true
  least : ∀ d ∈ child, d.workerRunning = true → c.sentConnectionNumber ≤ d.sentConnectionNumber
  first : ∀ j d, child[j]? = some d → d.workerRunning = true →
    d.sentConnectionNumber = c.sentConnectionNumber → i ≤ j

/-- With these workers a connection is refused only when nobody can take it. In
a run of the main process that has come to them it is then refused only when all
of them have exited. -/
structure PicksSomebody (child : List ServerChild) : Prop where
  found : pickWorker child < child.length ↔ ∃ c ∈ child, c.workerRunning = true
  picked : pickWorker child < child.length → ∃ c, FirstLeast child (pickWorker child) c
  refused : ∀ start events s t, Started start → Unreaped start →
    mainRun start events = .ok s → s.child = child → mainStep s .pick = .ok t →
    t.place = .testFlag → ∀ c ∈ child, s.process c.pid = .reaped

/-- Where somebody runs, somebody runs whose counter is below the sentinel. -/
def SomebodyBelow (child : List ServerChild) : Prop :=
  (∃ c ∈ child, c.workerRunning = true) →
    ∃ c ∈ child, c.workerRunning = true ∧ c.sentConnectionNumber ≠ 4294967295

lemma pickWorker_first {child : List ServerChild} (found : pickWorker child < child.length) :
    ∃ c, FirstLeast child (pickWorker child) c ∧ c.sentConnectionNumber < 4294967295 := by
  rcases pickLoop_spec child 0 child.length 4294967295 with ⟨hnone, _⟩ |
    ⟨k, c, hk, hpick, hrunning, hmin, hleast, hfirst⟩
  · rw [pickWorker, hnone] at found
    exact absurd found (Nat.lt_irrefl _)
  · have hk' : pickWorker child = k := hpick.trans (Nat.zero_add k)
    rw [hk']
    refine ⟨c, ⟨hk, hrunning, hleast, fun j d hd hrunning' hsame => ?_⟩, hmin⟩
    by_contra hbefore
    have hlarger := hfirst j d (Nat.lt_of_not_le hbefore) hd hrunning'
    omega

/-- A worker below the sentinel is not overlooked. -/
lemma pickWorker_found {child : List ServerChild} {c : ServerChild} (mem : c ∈ child)
    (running : c.workerRunning = true) (below : c.sentConnectionNumber < 4294967295) :
    pickWorker child < child.length := by
  rcases pickLoop_spec child 0 child.length 4294967295 with ⟨_, hall⟩ | ⟨k, d, hk, hpick, _⟩
  · have hlarge := hall c mem running
    omega
  · rw [pickWorker, hpick, Nat.zero_add]
    exact (List.getElem?_eq_some_iff.mp hk).1

/-- A connection that is refused has found no worker. -/
lemma refused_nobody {s t : Main} (step : mainStep s .pick = .ok t) (refused : t.place = .testFlag) :
    s.child.length ≤ pickWorker s.child := by
  cases step_taken step with
  | nobody _ hnobody => exact hnobody
  | picks => cases refused

/-- A connection is refused only when nobody can take it, if and only if not all
the workers that run have counters at the sentinel. -/
theorem picks_somebody_iff {child : List ServerChild}
    (counted : ∀ c ∈ child, c.sentConnectionNumber < 4294967296) :
    PicksSomebody child ↔ SomebodyBelow child := by
  constructor
  · intro h hrunning
    obtain ⟨c, hc, hbelow⟩ := pickWorker_first (h.found.mpr hrunning)
    exact ⟨c, List.mem_of_getElem? hc.place, hc.running, Nat.ne_of_lt hbelow⟩
  · intro h
    have hfound : pickWorker child < child.length ↔ ∃ c ∈ child, c.workerRunning = true := by
      constructor
      · intro hpick
        obtain ⟨c, hc, _⟩ := pickWorker_first hpick
        exact ⟨c, List.mem_of_getElem? hc.place, hc.running⟩
      · intro hrunning
        obtain ⟨c, hc, hrunning', hne⟩ := h hrunning
        have hcount := counted c hc
        exact pickWorker_found hc hrunning' (by omega)
    refine ⟨hfound, fun hpick => ?_, ?_⟩
    · obtain ⟨c, hc, _⟩ := pickWorker_first hpick
      exact ⟨c, hc⟩
    · rintro start events s t started unreaped run rfl step refused c hc
      have hnobody := refused_nobody step refused
      have hstopped : c.workerRunning = false := by
        by_contra hrunning
        have hpick := hfound.mpr ⟨c, hc, eq_true_of_ne_false hrunning⟩
        omega
      exact (run_marked started unreaped run).marked c hc hstopped

theorem picks_somebody_three : PicksSomebody
    [⟨100, 4, false⟩, ⟨101, 4294967295, true⟩, ⟨102, 7, true⟩, ⟨103, 7, true⟩] :=
  (@picks_somebody_iff [⟨100, 4, false⟩, ⟨101, 4294967295, true⟩, ⟨102, 7, true⟩, ⟨103, 7, true⟩]
    (by decide)).mpr fun _ => ⟨⟨102, 7, true⟩, by decide, rfl, by decide⟩

/-- One worker, in front of the test of the flag, after `n` connections. -/
def oneWorker (n : Nat) : Main where
  place := .testFlag
  signalChildHandled := false
  child := [⟨100, n, true⟩]
  process := fun _ => .alive

lemma oneWorker_counted {n : Nat} (room : n < 4294967295) :
    countSent ⟨100, n, true⟩ = ⟨100, n + 1, true⟩ := by
  have hcount := countSent_below (c := ⟨100, n, true⟩) room
  rw [countSent] at hcount ⊢
  exact congrArg (fun count => ServerChild.mk 100 count true) hcount

/-- One turn of the loop accepts a connection and sends it to the worker. -/
lemma oneWorker_connection {n : Nat} (room : n < 4294967295) :
    mainRun (oneWorker n) connectionEvents = .ok (oneWorker (n + 1)) := by
  have hpick : pickWorker [⟨100, n, true⟩] = 0 := by
    rw [pickWorker, pickLoop, if_pos ⟨room, rfl⟩]
    rfl
  have hpicked : mainStep { oneWorker n with place := .pick } .pick =
      .ok { oneWorker n with place := .send 0 } := by
    simp [mainStep, oneWorker, hpick]
  have hsent : mainStep { oneWorker n with place := .send 0 } (.send true) =
      .ok (oneWorker (n + 1)) := by
    change Except.ok { oneWorker n with child := [countSent ⟨100, n, true⟩] } = _
    rw [oneWorker_counted room]
    rfl
  have hfront : mainRun (oneWorker n) connectionEvents =
      (mainStep { oneWorker n with place := .pick } .pick).bind fun s => mainRun s [.send true] := rfl
  have hlast : mainRun { oneWorker n with place := .send 0 } [.send true] =
      (mainStep { oneWorker n with place := .send 0 } (.send true)).bind pure := rfl
  rw [hfront, hpicked]
  change mainRun { oneWorker n with place := .send 0 } [.send true] = _
  rw [hlast, hsent]
  rfl

/-- The loop comes to every count. -/
lemma oneWorker_run {n : Nat} (counted : n ≤ 4294967295) :
    ∃ events, mainRun (oneWorker 0) events = .ok (oneWorker n) := by
  induction n with
  | zero => exact ⟨[], rfl⟩
  | succ n ih =>
    obtain ⟨events, hevents⟩ := ih (Nat.le_of_succ_le counted)
    refine ⟨events ++ connectionEvents, ?_⟩
    rw [mainRun, List.foldlM_append]
    change (mainRun (oneWorker 0) events).bind _ = _
    rw [hevents]
    exact oneWorker_connection counted

/-- After 4294967295 connections the only worker is passed over, although it runs. -/
theorem running_worker_refused : ∃ events s t, Started (oneWorker 0) ∧ Unreaped (oneWorker 0) ∧
    mainRun (oneWorker 0) events = .ok s ∧ s.child = [⟨100, 4294967295, true⟩] ∧
    s.process 100 = .alive ∧ mainStep s .pick = .ok t ∧ t.place = .testFlag ∧
    ¬ PicksSomebody s.child := by
  obtain ⟨events, hevents⟩ := @oneWorker_run 4294967295 (Nat.le_refl _)
  have hrefused : pickWorker [⟨100, 4294967295, true⟩] = 1 := by decide
  refine ⟨events ++ [.testFlag, .accept true], { oneWorker 4294967295 with place := .pick },
    oneWorker 4294967295, ⟨rfl, by simp [oneWorker]⟩,
    ⟨by simp [oneWorker], by simp [NoZombie, oneWorker]⟩, ?_, rfl, rfl, rfl, rfl, ?_⟩
  · rw [mainRun, List.foldlM_append]
    change (mainRun (oneWorker 0) events).bind _ = _
    rw [hevents]
    rfl
  · intro h
    have hfound : pickWorker [⟨100, 4294967295, true⟩] < 1 :=
      h.found.mpr ⟨⟨100, 4294967295, true⟩, List.mem_singleton_self _, rfl⟩
    omega

end WorkerPick
