import Minihttpd.MainLoop
import Minihttpd.Library.Balance
import Mathlib.Algebra.Ring.Nat

/-!
# The balance of the workers

The pick finds the first worker that runs and has been sent least. Counting
such a worker keeps the counters of the running workers level, and a worker
that exits only leaves them.
-/
namespace LoadBalance

open ByteBuffer MainLoop Balance FailingRun

/-- A worker that runs, has been sent less than the sentinel, and not more than
any other that runs. -/
structure Least (child : List ServerChild) (c : ServerChild) : Prop where
  running : c.workerRunning = true
  below : c.sentConnectionNumber < 4294967295
  least : ∀ d ∈ child, d.workerRunning = true → c.sentConnectionNumber ≤ d.sentConnectionNumber

/-- Either the loop finds nobody below the minimum it starts with, or its result
is the first of the workers that have been sent least. -/
lemma pickLoop_spec (child : List ServerChild) (id pick min : Nat) :
    (pickLoop child id pick min = pick ∧
      ∀ d ∈ child, d.workerRunning = true → min ≤ d.sentConnectionNumber) ∨
    ∃ k c, child[k]? = some c ∧ pickLoop child id pick min = id + k ∧
      c.workerRunning = true ∧ c.sentConnectionNumber < min ∧
      (∀ d ∈ child, d.workerRunning = true → c.sentConnectionNumber ≤ d.sentConnectionNumber) ∧
      ∀ j d, j < k → child[j]? = some d → d.workerRunning = true →
        c.sentConnectionNumber < d.sentConnectionNumber := by
  induction child generalizing id pick min with
  | nil => exact Or.inl ⟨rfl, fun d hd => absurd hd List.not_mem_nil⟩
  | cons c rest ih =>
    rw [pickLoop]
    by_cases hless : c.sentConnectionNumber < min ∧ c.workerRunning = true
    · rw [if_pos hless]
      right
      rcases ih (id + 1) id c.sentConnectionNumber with ⟨hpick, hleast⟩ |
        ⟨k, d, hk, hpick, hrunning, hmin, hleast, hfirst⟩
      · refine ⟨0, c, rfl, hpick, hless.2, hless.1, ?_, fun j d hj => absurd hj (Nat.not_lt_zero j)⟩
        intro d hd
        rcases List.mem_cons.mp hd with rfl | hd
        · exact fun _ => Nat.le_refl _
        · exact hleast d hd
      · refine ⟨k + 1, d, hk, by omega, hrunning, by omega, ?_, ?_⟩
        · intro e he
          rcases List.mem_cons.mp he with rfl | he
          · exact fun _ => Nat.le_of_lt hmin
          · exact hleast e he
        · intro j e hj he hrunning'
          cases j with
          | zero =>
            cases he
            exact hmin
          | succ j => exact hfirst j e (Nat.lt_of_succ_lt_succ hj) he hrunning'
    · rw [if_neg hless]
      rcases ih (id + 1) pick min with ⟨hpick, hleast⟩ |
        ⟨k, d, hk, hpick, hrunning, hmin, hleast, hfirst⟩
      · refine Or.inl ⟨hpick, ?_⟩
        intro d hd hrunning
        rcases List.mem_cons.mp hd with rfl | hd
        · exact Nat.le_of_not_lt fun hlt => hless ⟨hlt, hrunning⟩
        · exact hleast d hd hrunning
      · have hlarger : c.workerRunning = true → d.sentConnectionNumber < c.sentConnectionNumber :=
          fun hrunning' => Nat.lt_of_lt_of_le hmin
            (Nat.le_of_not_lt fun hlt => hless ⟨hlt, hrunning'⟩)
        refine Or.inr ⟨k + 1, d, hk, by omega, hrunning, hmin, ?_, ?_⟩
        · intro e he hrunning'
          rcases List.mem_cons.mp he with rfl | he
          · exact Nat.le_of_lt (hlarger hrunning')
          · exact hleast e he hrunning'
        · intro j e hj he hrunning'
          cases j with
          | zero =>
            cases he
            exact hlarger hrunning'
          | succ j => exact hfirst j e (Nat.lt_of_succ_lt_succ hj) he hrunning'

theorem pickWorker_spec {child : List ServerChild} (found : pickWorker child < child.length) :
    ∃ c, child[pickWorker child]? = some c ∧ Least child c := by
  rcases pickLoop_spec child 0 child.length 4294967295 with ⟨hnone, _⟩ |
    ⟨k, c, hk, hpick, hrunning, hmin, hleast, _⟩
  · rw [pickWorker, hnone] at found
    exact absurd found (Nat.lt_irrefl _)
  · rw [Nat.zero_add] at hpick
    exact ⟨c, by rw [pickWorker, hpick]; exact hk, hrunning, hmin, hleast⟩

def sentNumber (child : List ServerChild) (i : Nat) : Nat :=
  (child[i]?.map ServerChild.sentConnectionNumber).getD 0

def Running (child : List ServerChild) (i : Nat) : Prop :=
  ∃ c, child[i]? = some c ∧ c.workerRunning = true

def totalSent (child : List ServerChild) : Nat :=
  (child.map ServerChild.sentConnectionNumber).sum

/-- The running workers are level, and the picked one is still a least one when
the descriptor is sent to it. -/
structure Balanced (s : Main) : Prop where
  level : Level (sentNumber s.child) (Running s.child)
  picked : ∀ i, s.place = .send i → ∃ c, s.child[i]? = some c ∧ Least s.child c

lemma sentNumber_of {child : List ServerChild} {i : Nat} {c : ServerChild}
    (h : child[i]? = some c) : sentNumber child i = c.sentConnectionNumber := by
  rw [sentNumber, h]
  rfl

lemma countSent_below {c : ServerChild} (below : c.sentConnectionNumber < 4294967295) :
    (countSent c).sentConnectionNumber = c.sentConnectionNumber + 1 :=
  u32_of_lt (Nat.succ_lt_succ below)

lemma sentNumber_count {child : List ServerChild} {i : Nat} {c : ServerChild}
    (h : child[i]? = some c) (below : c.sentConnectionNumber < 4294967295) :
    sentNumber (child.modify i countSent) =
      Function.update (sentNumber child) i (sentNumber child i + 1) := by
  funext j
  rcases eq_or_ne j i with rfl | hji
  · rw [Function.update_self, sentNumber_of h, sentNumber, List.getElem?_modify_eq, h]
    exact countSent_below below
  · rw [Function.update_of_ne hji, sentNumber, List.getElem?_modify_ne _ _ hji.symm]
    rfl

lemma running_count (child : List ServerChild) (i j : Nat) :
    Running (child.modify i countSent) j → Running child j := by
  rintro ⟨c, hc, hrunning⟩
  rw [List.getElem?_modify] at hc
  obtain ⟨d, hd, hcd⟩ := Option.map_eq_some_iff.mp hc
  refine ⟨d, hd, ?_⟩
  rw [← hcd] at hrunning
  split at hrunning
  · exact hrunning
  · exact hrunning

lemma sentNumber_mark (child : List ServerChild) (pid : Nat) :
    sentNumber (child.map (markExited pid)) = sentNumber child := by
  have same : ∀ c, (markExited pid c).sentConnectionNumber = c.sentConnectionNumber := by
    intro c
    rw [markExited]
    split <;> rfl
  funext i
  rw [sentNumber, sentNumber, List.getElem?_map, Option.map_map]
  exact congrArg (fun f => (child[i]?.map f).getD 0) (funext same)

lemma running_mark (child : List ServerChild) (pid i : Nat) :
    Running (child.map (markExited pid)) i → Running child i := by
  rintro ⟨c, hc, hrunning⟩
  rw [List.getElem?_map] at hc
  obtain ⟨d, hd, rfl⟩ := Option.map_eq_some_iff.mp hc
  refine ⟨d, hd, ?_⟩
  rw [markExited] at hrunning
  split at hrunning
  · cases hrunning
  · exact hrunning

theorem taken_balanced {s t : Main} {event : MainEvent} (h : Balanced s) (taken : Taken s event t) :
    Balanced t := by
  have elsewhere : ∀ {place : Place} {signalled : Bool} {process : Nat → ProcessState},
      (∀ i, place ≠ .send i) → Balanced ⟨place, signalled, s.child, process⟩ :=
    fun hplace => ⟨h.level, fun i hi => absurd hi (hplace i)⟩
  cases taken with
  | exit => exact ⟨h.level, h.picked⟩
  | flagSet => exact elsewhere (fun _ => Place.noConfusion)
  | flagClear => exact elsewhere (fun _ => Place.noConfusion)
  | reaps => exact elsewhere (fun _ => Place.noConfusion)
  | drained => exact elsewhere (fun _ => Place.noConfusion)
  | marks pid =>
    refine ⟨?_, fun i hi => by cases hi⟩
    rw [sentNumber_mark]
    exact h.level.drop (running_mark s.child pid)
  | clears => exact elsewhere (fun _ => Place.noConfusion)
  | accepts connected =>
    refine elsewhere (fun i hi => ?_)
    split at hi <;> cases hi
  | nobody => exact elsewhere (fun _ => Place.noConfusion)
  | picks _ found =>
    refine ⟨h.level, fun i hi => ?_⟩
    cases hi
    exact pickWorker_spec found
  | sent i hplace =>
    obtain ⟨c, hc, hleast⟩ := h.picked i hplace
    refine ⟨?_, fun i hi => by cases hi⟩
    rw [sentNumber_count hc hleast.below]
    refine (h.level.count fun j hj => ?_).drop (running_count s.child i)
    obtain ⟨d, hd, hrunning⟩ := hj
    rw [sentNumber_of hc, sentNumber_of hd]
    exact hleast.least d (List.mem_of_getElem? hd) hrunning
  | unsent => exact elsewhere (fun _ => Place.noConfusion)

lemma totalSent_count {child : List ServerChild} {i : Nat} {c : ServerChild}
    (h : child[i]? = some c) (below : c.sentConnectionNumber < 4294967295) :
    totalSent (child.modify i countSent) = totalSent child + 1 := by
  induction child generalizing i with
  | nil => cases h
  | cons d rest ih =>
    cases i with
    | zero =>
      cases h
      have hcount := countSent_below below
      simp only [totalSent, List.modify_zero_cons, List.map_cons, List.sum_cons, hcount]
      omega
    | succ i =>
      have hrest := ih h
      simp only [totalSent, List.modify_succ_cons, List.map_cons, List.sum_cons] at hrest ⊢
      omega

lemma totalSent_mark (child : List ServerChild) (pid : Nat) :
    totalSent (child.map (markExited pid)) = totalSent child := by
  rw [totalSent, totalSent, List.map_map]
  congr 1
  refine List.map_congr_left fun c _ => ?_
  simp only [Function.comp_apply, markExited]
  split <;> rfl

lemma taken_total {s t : Main} {event : MainEvent} (h : Balanced s) (taken : Taken s event t) :
    totalSent t.child = totalSent s.child + if event = .send true then 1 else 0 := by
  cases taken with
  | marks pid => exact totalSent_mark s.child pid
  | sent i hplace =>
    obtain ⟨c, hc, hleast⟩ := h.picked i hplace
    exact totalSent_count hc hleast.below
  | _ => rfl

lemma started_balanced {s : Main} (started : Started s) : Balanced s := by
  constructor
  · apply level_of_equal
    rintro i ⟨c, hc, _⟩
    rw [sentNumber_of hc]
    exact (started.running c (List.mem_of_getElem? hc)).2
  · intro i hi
    rw [started.place] at hi
    cases hi

lemma run_total {s t : Main} {events : List MainEvent} (h : Balanced s)
    (run : mainRun s events = .ok t) :
    totalSent t.child = totalSent s.child + events.count (.send true) := by
  induction events generalizing s with
  | nil =>
    cases run
    rfl
  | cons event rest ih =>
    rw [mainRun, List.foldlM_cons] at run
    obtain ⟨u, hu, hrest⟩ := bind_eq_ok.mp run
    have htaken := step_taken hu
    have hhead := taken_total h htaken
    have htail := ih (taken_balanced h htaken) hrest
    rw [List.count_cons, htail, hhead]
    simp only [beq_iff_eq]
    omega

/-- The acceptor is balanced. Behind every run, any two workers that are marked
as running have been sent numbers of connections that differ by at most one,
and all counters together are the number of descriptors sent. Whether a send
succeeds or not, it goes to a worker marked as running, and the counter of that
worker has room for it. -/
theorem acceptor_balanced {start last : Main} {events : List MainEvent} (started : Started start)
    (run : mainRun start events = .ok last) :
    (∀ c ∈ last.child, ∀ d ∈ last.child, c.workerRunning = true → d.workerRunning = true →
      c.sentConnectionNumber ≤ d.sentConnectionNumber + 1) ∧
    (last.child.map ServerChild.sentConnectionNumber).sum = events.count (.send true) ∧
    ∀ done sent rest, events = done ++ .send sent :: rest → ∃ s i c,
      mainRun start done = .ok s ∧ s.place = .send i ∧ s.child[i]? = some c ∧
      c.workerRunning = true ∧
      (countSent c).sentConnectionNumber = c.sentConnectionNumber + 1 := by
  have hstart := started_balanced started
  have hkeeps : ∀ {done : List MainEvent} {s : Main}, mainRun start done = .ok s → Balanced s :=
    fun hrun => mainRun_keeps (fun _ _ _ _ => taken_balanced) hstart hrun
  refine ⟨?_, ?_, ?_⟩
  · intro c hc d hd hrunning hrunning'
    obtain ⟨i, hi⟩ := List.mem_iff_getElem?.mp hc
    obtain ⟨j, hj⟩ := List.mem_iff_getElem?.mp hd
    have hlevel := (hkeeps run).level i j ⟨c, hi, hrunning⟩ ⟨d, hj, hrunning'⟩
    rwa [sentNumber_of hi, sentNumber_of hj] at hlevel
  · have htotal := run_total hstart run
    have hzero : totalSent start.child = 0 := by
      rw [totalSent, List.sum_eq_zero_iff_forall_eq_nat]
      intro n hn
      obtain ⟨c, hc, rfl⟩ := List.mem_map.mp hn
      exact (started.running c hc).2
    rw [hzero, Nat.zero_add] at htotal
    exact htotal
  · rintro done sent rest rfl
    obtain ⟨s, hs, hrest⟩ := foldlM_append_eq_ok.mp run
    rw [List.foldlM_cons] at hrest
    obtain ⟨t, ht, _⟩ := bind_eq_ok.mp hrest
    have hsending : ∃ i, s.place = .send i := by
      cases step_taken ht with
      | sent i hplace => exact ⟨i, hplace⟩
      | unsent i hplace => exact ⟨i, hplace⟩
    obtain ⟨i, hplace⟩ := hsending
    obtain ⟨c, hc, hleast⟩ := (hkeeps hs).picked i hplace
    exact ⟨s, i, c, hs, hplace, hc, hleast.running, countSent_below hleast.below⟩

/-- Two workers; the first one is marked as exited after its first connection. -/
def twoWorkers : Main where
  place := .testFlag
  signalChildHandled := false
  child := [⟨100, 0, true⟩, ⟨101, 0, true⟩]
  process := fun _ => .alive

lemma twoWorkers_started : Started twoWorkers := ⟨rfl, by decide⟩

def connectionEvents : List MainEvent := [.testFlag, .accept true, .pick, .send true]

theorem acceptor_balanced_two : ∃ last, mainRun twoWorkers
      (connectionEvents ++ [.exit 100, .testFlag, .waitpid (some 100), .mark, .waitpid none,
        .clearFlag, .accept true, .pick, .send true] ++ connectionEvents) = .ok last ∧
    (last.child.map ServerChild.sentConnectionNumber).sum = 3 := by
  obtain ⟨last, hrun⟩ : ∃ last, mainRun twoWorkers
      (connectionEvents ++ [.exit 100, .testFlag, .waitpid (some 100), .mark, .waitpid none,
        .clearFlag, .accept true, .pick, .send true] ++ connectionEvents) = .ok last := ⟨_, rfl⟩
  exact ⟨last, hrun, (acceptor_balanced twoWorkers_started hrun).2.1⟩

end LoadBalance
