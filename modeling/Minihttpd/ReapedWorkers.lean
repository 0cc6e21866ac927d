import Minihttpd.LoadBalance

/-!
# The workers that have exited

The reaping block drains the zombies and clears the flag afterwards. A worker
that exits between the last `waitpid` and the clearing is missed, and no other
is.
-/
namespace ReapedWorkers

open MainLoop LoadBalance FailingRun

def Exited (s : Main) (c : ServerChild) : Prop := s.process c.pid ≠ .alive

/-- Whether the loop is inside the block that reaps workers. -/
def Place.reaping : Place → Bool
  | .wait => true
  | .mark _ => true
  | .clearFlag => true
  | _ => false

/-- Outside the reaping block and with the flag clear, every worker that has
exited is marked. -/
def NoExitMissed (s : Main) : Prop :=
  Place.reaping s.place = false → s.signalChildHandled = false →
    ∀ c ∈ s.child, Exited s c → c.workerRunning = false

def NoZombie (s : Main) : Prop := ∀ c ∈ s.child, s.process c.pid ≠ .zombie

/-- When the loop starts no worker has been reaped, and one that has exited has
raised its signal. -/
structure Unreaped (s : Main) : Prop where
  unreaped : ∀ c ∈ s.child, s.process c.pid ≠ .reaped
  signalled : s.signalChildHandled = false → NoZombie s

/-- A worker is marked when it has been reaped, unless it is just being marked. -/
structure Marked (s : Main) : Prop where
  reaped : ∀ c ∈ s.child, s.process c.pid = .reaped →
    c.workerRunning = false ∨ s.place = .mark c.pid
  marked : ∀ c ∈ s.child, c.workerRunning = false → s.process c.pid = .reaped
  marking : ∀ pid, s.place = .mark pid → s.process pid = .reaped

lemma markExited_pid (pid : Nat) (c : ServerChild) : (markExited pid c).pid = c.pid := by
  rw [markExited]
  split <;> rfl

lemma mem_count {child : List ServerChild} {i : Nat} {c : ServerChild}
    (h : c ∈ child.modify i countSent) :
    ∃ d ∈ child, c.pid = d.pid ∧ c.workerRunning = d.workerRunning := by
  obtain ⟨j, hj⟩ := List.mem_iff_getElem?.mp h
  rw [List.getElem?_modify] at hj
  obtain ⟨d, hd, rfl⟩ := Option.map_eq_some_iff.mp hj
  refine ⟨d, List.mem_of_getElem? hd, ?_⟩
  split <;> exact ⟨rfl, rfl⟩

/-- Elsewhere in the loop only the place and the flag change. -/
lemma Marked.elsewhere {s : Main} (h : Marked s) {place : Place} (signalled : Bool)
    (from_outside : ∀ pid, s.place ≠ .mark pid) (to_outside : ∀ pid, place ≠ .mark pid) :
    Marked { s with place := place, signalChildHandled := signalled } :=
  ⟨fun c hc hreaped => Or.inl ((h.reaped c hc hreaped).resolve_right (from_outside c.pid)),
    h.marked, fun pid hplace => absurd hplace (to_outside pid)⟩

lemma outside_of {s : Main} {place : Place} (hplace : s.place = place)
    (outside : ∀ pid, place ≠ .mark pid) : ∀ pid, s.place ≠ .mark pid := by
  rw [hplace]
  exact outside

lemma exit_marked {s : Main} (h : Marked s) {pid : Nat} (halive : s.process pid = .alive) :
    Marked { s with
      process := Function.update s.process pid .zombie, signalChildHandled := true } := by
  have other : ∀ {q : Nat}, s.process q = .reaped → q ≠ pid := by
    rintro q hreaped rfl
    rw [halive] at hreaped
    cases hreaped
  have kept : ∀ {q : Nat}, Function.update s.process pid .zombie q = .reaped ↔
      s.process q = .reaped := by
    intro q
    constructor
    · intro hreaped
      rcases eq_or_ne q pid with rfl | hne
      · rw [Function.update_self] at hreaped
        cases hreaped
      · rwa [Function.update_of_ne hne] at hreaped
    · intro hreaped
      rwa [Function.update_of_ne (other hreaped)]
  exact ⟨fun c hc hreaped => h.reaped c hc (kept.mp hreaped),
    fun c hc hmarked => kept.mpr (h.marked c hc hmarked),
    fun q hplace => kept.mpr (h.marking q hplace)⟩

lemma reap_marked {s : Main} (h : Marked s) {pid : Nat} (hplace : s.place = .wait) :
    Marked { s with place := .mark pid, process := Function.update s.process pid .reaped } := by
  have kept : ∀ {q : Nat}, q ≠ pid →
      (Function.update s.process pid .reaped q = .reaped ↔ s.process q = .reaped) := by
    intro q hne
    rw [Function.update_of_ne hne]
  refine ⟨fun c hc hreaped => ?_, fun c hc hmarked => ?_, ?_⟩
  · rcases eq_or_ne c.pid pid with heq | hne
    · exact Or.inr (congrArg Place.mark heq.symm)
    · refine Or.inl ((h.reaped c hc ((kept hne).mp hreaped)).resolve_right ?_)
      rw [hplace]
      exact Place.noConfusion
  · rcases eq_or_ne c.pid pid with heq | hne
    · rw [heq]
      exact Function.update_self _ _ _
    · exact (kept hne).mpr (h.marked c hc hmarked)
  · rintro q hq
    cases hq
    exact Function.update_self _ _ _

lemma mark_marked {s : Main} (h : Marked s) {pid : Nat} (hplace : s.place = .mark pid) :
    Marked { s with place := .wait, child := s.child.map (markExited pid) } := by
  refine ⟨fun c hc hreaped => ?_, fun c hc hmarked => ?_, fun q hq => by cases hq⟩
  · obtain ⟨d, hd, rfl⟩ := List.mem_map.mp hc
    rw [markExited_pid] at hreaped
    left
    rw [markExited]
    rcases h.reaped d hd hreaped with hmarked | hplace'
    · split
      · rfl
      · exact hmarked
    · rw [hplace] at hplace'
      rw [if_pos (Place.mark.inj hplace').symm]
  · obtain ⟨d, hd, rfl⟩ := List.mem_map.mp hc
    rw [markExited_pid]
    rw [markExited] at hmarked
    split at hmarked
    · rename_i hpid
      rw [hpid]
      exact h.marking pid hplace
    · exact h.marked d hd hmarked

theorem taken_marked {s t : Main} {event : MainEvent} (h : Marked s) (taken : Taken s event t) :
    Marked t := by
  cases taken with
  | exit pid halive => exact exit_marked h halive
  | reaps pid hplace => exact reap_marked h hplace
  | marks pid hplace => exact mark_marked h hplace
  | flagSet hplace =>
    exact h.elsewhere _ (outside_of hplace fun _ => Place.noConfusion) (fun _ => Place.noConfusion)
  | flagClear hplace =>
    exact h.elsewhere _ (outside_of hplace fun _ => Place.noConfusion) (fun _ => Place.noConfusion)
  | drained hplace =>
    exact h.elsewhere _ (outside_of hplace fun _ => Place.noConfusion) (fun _ => Place.noConfusion)
  | clears hplace =>
    exact h.elsewhere _ (outside_of hplace fun _ => Place.noConfusion) (fun _ => Place.noConfusion)
  | accepts connected hplace =>
    refine h.elsewhere _ (outside_of hplace fun _ => Place.noConfusion) (fun pid hpid => ?_)
    split at hpid <;> cases hpid
  | nobody hplace =>
    exact h.elsewhere _ (outside_of hplace fun _ => Place.noConfusion) (fun _ => Place.noConfusion)
  | picks hplace =>
    exact h.elsewhere _ (outside_of hplace fun _ => Place.noConfusion) (fun _ => Place.noConfusion)
  | unsent _ hplace =>
    exact h.elsewhere _ (outside_of hplace fun _ => Place.noConfusion) (fun _ => Place.noConfusion)
  | sent i hplace =>
    refine ⟨fun c hc hreaped => ?_, fun c hc hmarked => ?_, fun q hq => by cases hq⟩
    · obtain ⟨d, hd, hpid, hrunning⟩ := mem_count hc
      rw [hpid] at hreaped
      rw [hrunning]
      refine Or.inl ((h.reaped d hd hreaped).resolve_right ?_)
      rw [hplace]
      exact Place.noConfusion
    · obtain ⟨d, hd, hpid, hrunning⟩ := mem_count hc
      rw [hpid]
      exact h.marked d hd (hrunning ▸ hmarked)

/-- Outside the reaping block and with the flag clear, nobody waits to be reaped. -/
def Quiet (s : Main) : Prop :=
  Place.reaping s.place = false → s.signalChildHandled = false → NoZombie s

lemma noExitMissed_iff {s : Main} (h : Marked s) : NoExitMissed s ↔ Quiet s := by
  constructor
  · intro hmissed houtside hclear c hc hzombie
    have hexited : Exited s c := by
      rw [Exited, hzombie]
      exact ProcessState.noConfusion
    have hreaped := h.marked c hc (hmissed houtside hclear c hc hexited)
    rw [hzombie] at hreaped
    cases hreaped
  · intro hquiet houtside hclear c hc hexited
    have hreaped : s.process c.pid = .reaped := by
      have hzombie := hquiet houtside hclear c hc
      cases hprocess : s.process c.pid with
      | alive => exact absurd hprocess hexited
      | zombie => exact absurd hprocess hzombie
      | reaped => rfl
    refine (h.reaped c hc hreaped).resolve_right (fun hplace => ?_)
    rw [hplace] at houtside
    cases houtside

theorem taken_quiet {s t : Main} {event : MainEvent} (h : Quiet s) (taken : Taken s event t)
    (drained : event = .clearFlag → NoZombie s) : Quiet t := by
  have outside : ∀ {place : Place}, s.place = place → Place.reaping place = false →
      Place.reaping s.place = false := by
    rintro place rfl hplace
    exact hplace
  cases taken with
  | exit => exact fun _ hclear => by cases hclear
  | flagSet => exact fun hplace => by cases hplace
  | flagClear hplace => exact fun _ => h (outside hplace rfl)
  | reaps => exact fun hplace => by cases hplace
  | drained => exact fun hplace => by cases hplace
  | marks => exact fun hplace => by cases hplace
  | clears => exact fun _ _ => drained rfl
  | accepts _ hplace => exact fun _ => h (outside hplace rfl)
  | nobody hplace => exact fun _ => h (outside hplace rfl)
  | picks hplace => exact fun _ => h (outside hplace rfl)
  | unsent _ hplace => exact fun _ => h (outside hplace rfl)
  | sent i hplace =>
    intro _ hclear c hc
    obtain ⟨d, hd, hpid, _⟩ := mem_count hc
    rw [hpid]
    exact h (outside hplace rfl) hclear d hd

/-- Wherever a run clears the flag, no worker has exited that is not reaped yet. -/
def ClearsDrained (start : Main) (events : List MainEvent) : Prop :=
  ∀ done rest s, events = done ++ .clearFlag :: rest → mainRun start done = .ok s → NoZombie s

/-- In every state that a run comes to, no exit is missed. -/
def NeverMisses (start : Main) (events : List MainEvent) : Prop :=
  ∀ done rest s, events = done ++ rest → mainRun start done = .ok s → NoExitMissed s

lemma start_marked {start : Main} (started : Started start) (unreaped : Unreaped start) :
    Marked start := by
  refine ⟨fun c hc hreaped => absurd hreaped (unreaped.unreaped c hc), fun c hc hmarked => ?_,
    fun pid hplace => ?_⟩
  · rw [(started.running c hc).1] at hmarked
    cases hmarked
  · rw [started.place] at hplace
    cases hplace

lemma run_marked {start s : Main} {events : List MainEvent} (started : Started start)
    (unreaped : Unreaped start) (run : mainRun start events = .ok s) : Marked s :=
  mainRun_keeps (fun _ _ _ _ => taken_marked) (start_marked started unreaped) run

lemma run_quiet {start : Main} {events : List MainEvent} (unreaped : Unreaped start)
    (drained : ClearsDrained start events) :
    ∀ done rest s, events = done ++ rest → mainRun start done = .ok s → Quiet s := by
  intro done
  induction done using List.reverseRecOn with
  | nil =>
    intro rest s _ run
    cases run
    exact fun _ => unreaped.signalled
  | append_singleton earlier event ih =>
    intro rest s split run
    rw [List.append_assoc, List.singleton_append] at split
    obtain ⟨before, hbefore, hlast⟩ := foldlM_append_eq_ok.mp run
    rw [List.foldlM_cons] at hlast
    obtain ⟨after, hafter, hnil⟩ := bind_eq_ok.mp hlast
    cases hnil
    refine taken_quiet (ih _ before split hbefore) (step_taken hafter) ?_
    rintro rfl
    exact drained earlier rest before split hbefore

/-- Of the workers in `gone` those that are not marked are still to be reaped,
or being marked. -/
def Sorted (gone : Nat → Prop) (s : Main) : Prop :=
  ∀ c ∈ s.child, gone c.pid → c.workerRunning = false ∨ s.place = .mark c.pid ∨
    (s.place = .wait ∨ ∃ pid, s.place = .mark pid) ∧ s.process c.pid = .zombie

/-- Nobody in `gone` is left unmarked outside the draining loop. -/
lemma Sorted.marked {gone : Nat → Prop} {s : Main} (h : Sorted gone s)
    (waits : s.place ≠ .wait) (marks : ∀ pid, s.place ≠ .mark pid) :
    ∀ c ∈ s.child, gone c.pid → c.workerRunning = false := by
  intro c hc hgone
  rcases h c hc hgone with hmarked | hplace | ⟨hplace | ⟨pid, hplace⟩, _⟩
  · exact hmarked
  · exact absurd hplace (marks c.pid)
  · exact absurd hplace waits
  · exact absurd hplace (marks pid)

theorem taken_sorted {gone : Nat → Prop} {s t : Main} {event : MainEvent} (h : Sorted gone s)
    (taken : Taken s event t) (between : event ≠ .testFlag) : Sorted gone t := by
  have outside : ∀ {place : Place}, s.place = place → place ≠ .wait → (∀ pid, place ≠ .mark pid) →
      ∀ c ∈ s.child, gone c.pid → c.workerRunning = false := by
    rintro place rfl hwait hmark
    exact h.marked hwait hmark
  cases taken with
  | flagSet => exact absurd rfl between
  | flagClear => exact absurd rfl between
  | exit pid halive =>
    intro c hc hgone
    rcases h c hc hgone with hmarked | hplace | ⟨hplace, hzombie⟩
    · exact Or.inl hmarked
    · exact Or.inr (Or.inl hplace)
    · refine Or.inr (Or.inr ⟨hplace, ?_⟩)
      have hne : c.pid ≠ pid := by
        rintro rfl
        rw [halive] at hzombie
        cases hzombie
      exact (Function.update_of_ne hne _ _).trans hzombie
  | reaps pid hwait =>
    intro c hc hgone
    rcases h c hc hgone with hmarked | hplace | ⟨_, hzombie⟩
    · exact Or.inl hmarked
    · rw [hwait] at hplace
      cases hplace
    · rcases eq_or_ne c.pid pid with rfl | hne
      · exact Or.inr (Or.inl rfl)
      · exact Or.inr (Or.inr ⟨Or.inr ⟨pid, rfl⟩, (Function.update_of_ne hne _ _).trans hzombie⟩)
  | drained hwait hnone =>
    intro c hc hgone
    rcases h c hc hgone with hmarked | hplace | ⟨_, hzombie⟩
    · exact Or.inl hmarked
    · rw [hwait] at hplace
      cases hplace
    · exact absurd hzombie (hnone c hc)
  | marks pid hmark =>
    intro c hc hgone
    obtain ⟨d, hd, rfl⟩ := List.mem_map.mp hc
    rw [markExited_pid] at hgone ⊢
    rw [markExited]
    by_cases hpid : d.pid = pid
    · rw [if_pos hpid]
      exact Or.inl rfl
    · rw [if_neg hpid]
      rcases h d hd hgone with hmarked | hplace | ⟨_, hzombie⟩
      · exact Or.inl hmarked
      · rw [hmark] at hplace
        exact absurd (Place.mark.inj hplace).symm hpid
      · exact Or.inr (Or.inr ⟨Or.inl rfl, hzombie⟩)
  | clears hplace =>
    exact fun c hc hgone => Or.inl (outside hplace (by decide) (fun _ => Place.noConfusion) c hc hgone)
  | accepts _ hplace =>
    exact fun c hc hgone => Or.inl (outside hplace (by decide) (fun _ => Place.noConfusion) c hc hgone)
  | nobody hplace =>
    exact fun c hc hgone => Or.inl (outside hplace (by decide) (fun _ => Place.noConfusion) c hc hgone)
  | picks hplace =>
    exact fun c hc hgone => Or.inl (outside hplace (by decide) (fun _ => Place.noConfusion) c hc hgone)
  | unsent _ hplace =>
    exact fun c hc hgone =>
      Or.inl (outside hplace Place.noConfusion (fun _ => Place.noConfusion) c hc hgone)
  | sent i hplace =>
    intro c hc hgone
    obtain ⟨d, hd, hpid, hrunning⟩ := mem_count hc
    rw [hpid] at hgone
    rw [hrunning]
    exact Or.inl (outside hplace Place.noConfusion (fun _ => Place.noConfusion) d hd hgone)

/-- The flag is tested by `s`: whoever has exited is marked, or waits in the loop
that is entered. -/
lemma test_sorted {s t : Main} (marked : Marked s) (never : NoExitMissed s)
    (taken : Taken s .testFlag t) : Sorted (fun pid => s.process pid ≠ .alive) t := by
  intro c hc hgone
  cases taken with
  | flagSet hplace =>
    cases hprocess : s.process c.pid with
    | alive => exact absurd hprocess hgone
    | zombie => exact Or.inr (Or.inr ⟨Or.inl rfl, rfl⟩)
    | reaped =>
      refine Or.inl ((marked.reaped c hc hprocess).resolve_right ?_)
      rw [hplace]
      exact Place.noConfusion
  | flagClear hplace hclear => exact Or.inl (never (by rw [hplace]; rfl) hclear c hc hgone)

/-- No exit is missed in any state of a run exactly if no worker exits between
the last `waitpid` of a reaping block and the clearing of the flag. No
connection of such a run is given to a worker that had exited by the last test
of the flag. -/
theorem no_exit_missed_iff {start last : Main} {events : List MainEvent}
    (started : Started start) (unreaped : Unreaped start)
    (run : mainRun start events = .ok last) :
    (NeverMisses start events ↔ ClearsDrained start events) ∧
    (ClearsDrained start events → ∀ before between after s t c,
      events = before ++ .testFlag :: (between ++ .pick :: after) → .testFlag ∉ between →
      mainRun start before = .ok s → mainRun start (before ++ .testFlag :: between) = .ok t →
      t.child[pickWorker t.child]? = some c → s.process c.pid = .alive) := by
  have hnever : ClearsDrained start events → NeverMisses start events := by
    intro drained done rest s split hrun
    exact (noExitMissed_iff (run_marked started unreaped hrun)).mpr
      (run_quiet unreaped drained done rest s split hrun)
  refine ⟨⟨?_, hnever⟩, ?_⟩
  · intro never done rest s split hrun
    -- the state behind the clearing is outside the block, with the flag clear
    rw [split] at run
    obtain ⟨s', hs', hrest⟩ := foldlM_append_eq_ok.mp run
    rw [show done.foldlM mainStep start = .ok s from hrun] at hs'
    cases hs'
    rw [List.foldlM_cons] at hrest
    obtain ⟨t, ht, _⟩ := bind_eq_ok.mp hrest
    have hrun' : mainRun start (done ++ [.clearFlag]) = .ok t := foldlM_concat_eq_ok hrun ht
    have hquiet := (noExitMissed_iff (run_marked started unreaped hrun')).mp
      (never (done ++ [.clearFlag]) rest t (by rw [split, List.append_assoc]; rfl) hrun')
    cases step_taken ht with
    | clears => exact hquiet rfl rfl
  · intro drained before between after s t c split untested hbefore hbetween hpicked
    obtain ⟨s', hs', hrest⟩ := foldlM_append_eq_ok.mp hbetween
    rw [show before.foldlM mainStep start = .ok s from hbefore] at hs'
    cases hs'
    rw [List.foldlM_cons] at hrest
    obtain ⟨tested, htested, hrest⟩ := bind_eq_ok.mp hrest
    have hsorted := test_sorted (run_marked started unreaped hbefore)
      (hnever drained before _ s split hbefore) (step_taken htested)
    have hsorted_t : Sorted (fun pid => s.process pid ≠ .alive) t :=
      mainRun_keeps (fun event _ _ hmem h htaken => taken_sorted h htaken
        (fun heq => untested (heq ▸ hmem))) hsorted hrest
    -- the pick is taken from `t`
    rw [split, show before ++ .testFlag :: (between ++ .pick :: after) =
      (before ++ .testFlag :: between) ++ .pick :: after by
        rw [List.append_assoc, List.cons_append]] at run
    obtain ⟨t', ht', hrest'⟩ := foldlM_append_eq_ok.mp run
    rw [show (before ++ .testFlag :: between).foldlM mainStep start = .ok t from hbetween] at ht'
    cases ht'
    rw [List.foldlM_cons] at hrest'
    obtain ⟨_, hpick, _⟩ := bind_eq_ok.mp hrest'
    have hplace : t.place = .pick := by
      cases step_taken hpick with
      | nobody hplace => exact hplace
      | picks hplace => exact hplace
    have hlength : pickWorker t.child < t.child.length := (List.getElem?_eq_some_iff.mp hpicked).1
    obtain ⟨d, hd, hleast⟩ := pickWorker_spec hlength
    rw [hpicked] at hd
    cases hd
    by_contra hgone
    have hmarked := hsorted_t.marked (by rw [hplace]; exact Place.noConfusion)
      (by rw [hplace]; exact fun _ => Place.noConfusion) c (List.mem_of_getElem? hpicked) hgone
    rw [hleast.running] at hmarked
    cases hmarked

lemma twoWorkers_unreaped : Unreaped twoWorkers :=
  ⟨fun _ _ => ProcessState.noConfusion, fun _ _ _ => ProcessState.noConfusion⟩

/-- The first of two workers exits and is reaped, up to the clearing of the flag. -/
def reapingEvents : List MainEvent :=
  [.exit 100, .testFlag, .waitpid (some 100), .mark, .waitpid none]

theorem no_exit_missed_one : NeverMisses twoWorkers (reapingEvents ++ [.clearFlag]) := by
  obtain ⟨last, hrun⟩ : ∃ last, mainRun twoWorkers (reapingEvents ++ [.clearFlag]) = .ok last :=
    ⟨_, rfl⟩
  apply (no_exit_missed_iff twoWorkers_started twoWorkers_unreaped hrun).1.mpr
  intro done rest s split hdone
  obtain ⟨rfl, -, -⟩ := (List.append_cons_inj_of_notMem (by decide) (by decide)).mp split
  have hs : s.child = [⟨100, 0, false⟩, ⟨101, 0, true⟩] ∧ s.process 100 = .reaped ∧
      s.process 101 = .alive := by
    cases hdone
    exact ⟨rfl, rfl, rfl⟩
  intro c hc
  rw [hs.1] at hc
  simp only [List.mem_cons, List.not_mem_nil, or_false] at hc
  rcases hc with rfl | rfl
  · rw [hs.2.1]
    exact ProcessState.noConfusion
  · rw [hs.2.2]
    exact ProcessState.noConfusion

/-- The second worker exits before the flag is cleared: it is missed, and the
next connection is given to it. -/
theorem no_exit_missed_not_late : ∃ s, mainRun twoWorkers
      (reapingEvents ++ [.exit 101, .clearFlag, .accept true]) = .ok s ∧
    s.child[pickWorker s.child]? = some ⟨101, 0, true⟩ ∧ s.process 101 = .zombie ∧
    s.signalChildHandled = false ∧ ¬ NoExitMissed s ∧
    ¬ NeverMisses twoWorkers (reapingEvents ++ [.exit 101, .clearFlag, .accept true]) := by
  obtain ⟨s, hrun, hplace, hpicked, hzombie, hclear⟩ : ∃ s, mainRun twoWorkers
      (reapingEvents ++ [.exit 101, .clearFlag, .accept true]) = .ok s ∧ s.place = .pick ∧
      s.child[pickWorker s.child]? = some ⟨101, 0, true⟩ ∧ s.process 101 = .zombie ∧
      s.signalChildHandled = false := ⟨_, rfl, rfl, rfl, rfl, rfl⟩
  have hmissed : ¬ NoExitMissed s := by
    intro h
    have hmarked := h (by rw [hplace]; rfl) hclear _ (List.mem_of_getElem? hpicked)
      (by rw [Exited, hzombie]; exact ProcessState.noConfusion)
    cases hmarked
  exact ⟨s, hrun, hpicked, hzombie, hclear, hmissed,
    fun never => hmissed (never _ [] s (List.append_nil _).symm hrun)⟩

end ReapedWorkers
