import Mathlib.Data.List.Pairwise
import Mathlib.Logic.Relation
import Minihttpd.ConnectionLedger

/-!
# The life of a connection

A connection comes into the hand of the main process, which refuses it or sends
it to a worker; there it waits, is opened and is closed. The system refines
this life: in every state each connection is at one point of it, and whatever
the system does takes it forward.
-/
namespace ConnectionLife

open ConnectionTypes HttpWorker SystemCalls MainLoop WorkerTable ServerSystem OpenTable
open ConnectionLedger

variable {config : ServerConfig} {admits : SysAnswers → Prop} {start s t : System}

/-- The points of a life; `coming` is before the `accept`. -/
inductive Life where
  | coming
  | inHand
  | refused
  | waiting (worker : Nat)
  | opened (worker : Nat)
  | closed (worker : Nat)
  deriving DecidableEq, Repr

inductive LifeStep : Life → Life → Prop where
  | accept : LifeStep .coming .inHand
  | refuse : LifeStep .inHand .refused
  | send (worker : Nat) : LifeStep .inHand (.waiting worker)
  | receive (worker : Nat) : LifeStep (.waiting worker) (.opened worker)
  | close (worker : Nat) : LifeStep (.opened worker) (.closed worker)

/-- Forward in a life, by any number of its steps. -/
def Forward : Life → Life → Prop := Relation.ReflTransGen LifeStep

lemma forward_hand_worker (i : Nat) : Forward .inHand (.waiting i) ∧ Forward .inHand (.opened i) ∧
    Forward .inHand (.closed i) :=
  have hwaiting := Relation.ReflTransGen.single (LifeStep.send i)
  have hopened := hwaiting.tail (.receive i)
  ⟨hwaiting, hopened, hopened.tail (.close i)⟩

lemma forward_hand {l : Life} (accepted : l ≠ .coming) : Forward .inHand l := by
  cases l with
  | coming => exact absurd rfl accepted
  | inHand => exact .refl
  | refused => exact .single .refuse
  | waiting i => exact (forward_hand_worker i).1
  | opened i => exact (forward_hand_worker i).2.1
  | closed i => exact (forward_hand_worker i).2.2

lemma forward_coming (l : Life) : Forward .coming l := by
  by_cases hl : l = .coming
  · rw [hl]
    exact .refl
  · exact .head .accept (forward_hand hl)

/-- What is open in a worker can only be closed there. -/
lemma forward_opened {i : Nat} {l : Life} (h : Forward (.opened i) l) :
    l = .opened i ∨ l = .closed i := by
  induction h with
  | refl => exact Or.inl rfl
  | tail _ step ih =>
    rcases ih with rfl | rfl
    · cases step
      exact Or.inr rfl
    · cases step

/-- The points of the lives of the accepted connections, with those that are there. -/
def lives (s : System) : List (Life × List Nat) :=
  (.inHand, s.hand.toList) :: (.refused, s.refused) ::
    (List.range s.main.child.length).flatMap fun i =>
      [(.closed i, (s.worker i).closed), (.opened i, (s.worker i).opened),
        (.waiting i, (s.worker i).channel)]

/-- The connection is at this point of its life. -/
def At (s : System) (c : Nat) (l : Life) : Prop :=
  l = .coming ∧ s.accepted ≤ c ∨ ∃ connections, (l, connections) ∈ lives s ∧ c ∈ connections

lemma mem_lives {s : System} {l : Life} {connections : List Nat} :
    (l, connections) ∈ lives s ↔ l = .inHand ∧ connections = s.hand.toList ∨
      l = .refused ∧ connections = s.refused ∨ ∃ i, i < s.main.child.length ∧
        (l = .closed i ∧ connections = (s.worker i).closed ∨
          l = .opened i ∧ connections = (s.worker i).opened ∨
          l = .waiting i ∧ connections = (s.worker i).channel) := by
  simp only [lives, List.mem_cons, List.mem_flatMap, List.mem_range, Prod.mk.injEq,
    List.not_mem_nil, or_false]

lemma lives_perm {config : ServerConfig} {s : System} (main : MainSide s)
    (worker : WorkerSide config s) :
    (List.range s.accepted).Perm ((lives s).flatMap Prod.snd) := by
  have hplaces := places_perm main worker
  rw [List.append_assoc] at hplaces
  simp only [lives, List.flatMap_cons, List.flatMap_assoc, List.flatMap_nil, List.append_nil]
  simpa only [List.append_assoc] using hplaces

theorem at_unique {config : ServerConfig} {s : System} (main : MainSide s)
    (worker : WorkerSide config s) (c : Nat) : ∃! l, At s c l := by
  have hperm := lives_perm main worker
  have hmem : ∀ {l connections}, (l, connections) ∈ lives s → c ∈ connections → c < s.accepted :=
    fun hl hc => List.mem_range.mp (hperm.mem_iff.mpr (List.mem_flatMap.mpr ⟨_, hl, hc⟩))
  rcases Nat.lt_or_ge c s.accepted with haccepted | hcoming
  · obtain ⟨⟨l, connections⟩, hl, hc⟩ :=
      List.mem_flatMap.mp (hperm.mem_iff.mp (List.mem_range.mpr haccepted))
    refine ⟨l, Or.inr ⟨connections, hl, hc⟩, fun l' hl' => ?_⟩
    rcases hl' with ⟨_, hcoming⟩ | ⟨connections', hl', hc'⟩
    · exact absurd haccepted (Nat.not_lt_of_le hcoming)
    · -- no connection is in two of the lists
      have hapart := (List.nodup_flatMap.mp (hperm.nodup_iff.mp List.nodup_range)).2
      have hsymm : Std.Symm (Function.onFun List.Disjoint (Prod.snd : Life × List Nat → List Nat)) :=
        ⟨fun _ _ h => List.disjoint_symm h⟩
      by_contra hne
      have hdisjoint := hapart.forall hl hl' fun heq => hne (congrArg Prod.fst heq).symm
      exact hdisjoint hc hc'
  · refine ⟨.coming, Or.inl ⟨rfl, hcoming⟩, fun l' hl' => ?_⟩
    rcases hl' with ⟨hl', _⟩ | ⟨connections', hl', hc'⟩
    · exact hl'
    · exact absurd (hmem hl' hc') (Nat.not_lt_of_le hcoming)

/-- What is recorded of the connections only grows. -/
structure Grows (s t : System) : Prop where
  length : t.main.child.length = s.main.child.length
  accepted : s.accepted ≤ t.accepted
  refused : s.refused <+: t.refused
  sent : ∀ i, (s.worker i).sent <+: (t.worker i).sent
  delivered : ∀ i, (s.worker i).delivered <+: (t.worker i).delivered
  closed : ∀ i, (s.worker i).closed <+: (t.worker i).closed

lemma grows_refl (s : System) : Grows s s :=
  ⟨rfl, Nat.le_refl _, List.prefix_refl _, fun _ => List.prefix_refl _,
    fun _ => List.prefix_refl _, fun _ => List.prefix_refl _⟩

lemma Grows.trans {s t u : System} (first : Grows s t) (second : Grows t u) : Grows s u :=
  ⟨second.length.trans first.length, Nat.le_trans first.accepted second.accepted,
    first.refused.trans second.refused, fun i => (first.sent i).trans (second.sent i),
    fun i => (first.delivered i).trans (second.delivered i),
    fun i => (first.closed i).trans (second.closed i)⟩

/-- A step of the main process leaves the workers alone. -/
lemma grows_main {s t : System} (length : t.main.child.length = s.main.child.length)
    (accepted : s.accepted ≤ t.accepted) (refused : s.refused <+: t.refused)
    (worker : t.worker = s.worker) : Grows s t := by
  refine ⟨length, accepted, refused, ?_, ?_, ?_⟩ <;>
    exact fun i => congrFun worker i ▸ List.prefix_refl _

/-- A worker process is replaced by one that has done more. -/
lemma grows_setWorker {s : System} {i : Nat} {p : WorkerProcess}
    (sent : (s.worker i).sent <+: p.sent) (delivered : (s.worker i).delivered <+: p.delivered)
    (closed : (s.worker i).closed <+: p.closed) : Grows s (s.setWorker i p) := by
  have hother : ∀ j, j ≠ i → (s.setWorker i p).worker j = s.worker j :=
    fun j hji => Function.update_of_ne hji _ _
  refine ⟨rfl, Nat.le_refl _, List.prefix_refl _, ?_, ?_, ?_⟩ <;>
  · intro j
    by_cases hji : j = i
    · subst hji
      rw [System.setWorker_self]
      assumption
    · exact (hother j hji).symm ▸ List.prefix_refl _

theorem step_grows {config : ServerConfig} {admits : SysAnswers → Prop} {s t : System}
    (step : Step config admits s t) : Grows s t := by
  cases step with
  | signal signo => exact grows_main rfl (Nat.le_refl _) (List.prefix_refl _) rfl
  | signalWorker i signo =>
    exact grows_setWorker (List.prefix_refl _) (List.prefix_refl _) (List.prefix_refl _)
  | enters _ _ _ _ => exact grows_main rfl (Nat.le_refl _) (List.prefix_refl _) rfl
  | leaves _ _ _ => exact grows_main rfl (Nat.le_refl _) (List.prefix_refl _) rfl
  | moves event main _ _ hstep =>
    exact grows_main (taken_length (step_taken hstep)) (Nat.le_refl _) (List.prefix_refl _) rfl
  | accepts main _ hstep =>
    exact grows_main (taken_length (step_taken hstep)) (Nat.le_succ _) (List.prefix_refl _) rfl
  | picks main _ hstep _ =>
    exact grows_main (taken_length (step_taken hstep)) (Nat.le_refl _) (List.prefix_refl _) rfl
  | refuses main c _ hstep _ _ =>
    exact grows_main (taken_length (step_taken hstep)) (Nat.le_refl _) (List.prefix_append _ _) rfl
  | sends main i c _ _ _ hstep _ =>
    have hmain : Grows s (s.setMain main) :=
      grows_main (taken_length (step_taken hstep)) (Nat.le_refl _) (List.prefix_refl _) rfl
    have hworker := hmain.trans (@grows_setWorker (s.setMain main) i { s.worker i with
      channel := (s.worker i).channel ++ [c], sent := (s.worker i).sent ++ [c] }
      (List.prefix_append _ _) (List.prefix_refl _) (List.prefix_refl _))
    exact ⟨hworker.length, hworker.accepted, hworker.refused, hworker.sent, hworker.delivered,
      hworker.closed⟩
  | sendFails main c _ hstep _ =>
    exact grows_main (taken_length (step_taken hstep)) (Nat.le_refl _) (List.prefix_append _ _) rfl
  | kills _ =>
    exact ⟨rfl, Nat.le_refl _, List.prefix_refl _, fun _ => List.prefix_refl _,
      fun _ => List.prefix_refl _, fun _ => List.prefix_refl _⟩
  | polls i _ _ _ =>
    exact grows_setWorker (List.prefix_refl _) (List.prefix_refl _) (List.prefix_refl _)
  | batchEnds i _ _ =>
    exact grows_setWorker (List.prefix_refl _) (List.prefix_refl _) (List.prefix_refl _)
  | handles i call next _ _ _ _ _ _ =>
    exact grows_setWorker (List.prefix_refl _) (List.prefix_refl _) (List.prefix_append _ _)
  | receives i c rest fd unset mask answers next _ _ _ _ _ _ _ _ =>
    exact grows_setWorker (List.prefix_refl _) (List.prefix_append _ _) (List.prefix_append _ _)
  | exits i child main next fds _ hstep _ _ _ =>
    have hmain : Grows s { s with main := main } :=
      grows_main (taken_length (step_taken hstep)) (Nat.le_refl _) (List.prefix_refl _) rfl
    exact hmain.trans
      (grows_setWorker (List.prefix_refl _) (List.prefix_refl _) (List.prefix_refl _))
  | dies i child main _ hstep =>
    exact grows_main (taken_length (step_taken hstep)) (Nat.le_refl _) (List.prefix_refl _) rfl

lemma runs_grow {config : ServerConfig} {admits : SysAnswers → Prop} {s t : System}
    (runs : Runs config admits s t) : Grows s t := by
  induction runs with
  | start => exact grows_refl s
  | step _ step ih => exact ih.trans (step_grows step)

lemma runs_append (runs : Runs config admits start s) (later : Runs config admits s t) :
    Runs config admits start t := by
  induction later with
  | start => exact runs
  | step _ step ih => exact .step ih step

section Points
variable {i c : Nat} {l : Life}

lemma at_refused (h : c ∈ s.refused) : At s c .refused :=
  Or.inr ⟨_, mem_lives.mpr (Or.inr (Or.inl ⟨rfl, rfl⟩)), h⟩

lemma at_worker {connections : List Nat} (hi : i < s.main.child.length) (mem : c ∈ connections)
    (here : l = .closed i ∧ connections = (s.worker i).closed ∨
      l = .opened i ∧ connections = (s.worker i).opened ∨
      l = .waiting i ∧ connections = (s.worker i).channel) : At s c l :=
  Or.inr ⟨_, mem_lives.mpr (Or.inr (Or.inr ⟨i, hi, here⟩)), mem⟩

lemma accepted_not_coming (old : c < s.accepted) (h : At s c l) : l ≠ .coming := by
  rintro rfl
  rcases h with ⟨_, hcoming⟩ | ⟨connections, hl, _⟩
  · exact Nat.not_lt_of_le hcoming old
  · rcases mem_lives.mp hl with ⟨h, _⟩ | ⟨h, _⟩ | ⟨_, _, ⟨h, _⟩ | ⟨h, _⟩ | ⟨h, _⟩⟩ <;> cases h

/-- What a worker has received is open there, or closed. -/
lemma delivered_at (worker : WorkerSide config s) (hi : i < s.main.child.length)
    (delivered : c ∈ (s.worker i).delivered) : At s c (.opened i) ∨ At s c (.closed i) := by
  have hmem : c ∈ (s.worker i).closed ++ (s.worker i).opened := by
    cases hexited : (s.worker i).exited with
    | false => exact (worker.working i hi hexited).delivered.mem_iff.mp delivered
    | true =>
      have hend := (worker.ended i hi hexited).1
      exact List.mem_append_left _ (hend.delivered.mem_iff.mp delivered)
  rcases List.mem_append.mp hmem with hclosed | hopened
  · exact Or.inr (at_worker hi hclosed (Or.inl ⟨rfl, rfl⟩))
  · exact Or.inl (at_worker hi hopened (Or.inr (Or.inl ⟨rfl, rfl⟩)))

/-- What a worker has been sent waits there, or it has been received. -/
lemma sent_at (worker : WorkerSide config s) (hi : i < s.main.child.length)
    (sent : c ∈ (s.worker i).sent) :
    At s c (.waiting i) ∨ At s c (.opened i) ∨ At s c (.closed i) := by
  have hsent : (s.worker i).sent = (s.worker i).delivered ++ (s.worker i).channel := by
    cases hexited : (s.worker i).exited with
    | false => exact (worker.working i hi hexited).sent
    | true => exact (worker.ended i hi hexited).1.sent
  rw [hsent] at sent
  rcases List.mem_append.mp sent with hdelivered | hwaiting
  · exact Or.inr (delivered_at worker hi hdelivered)
  · exact Or.inl (at_worker hi hwaiting (Or.inr (Or.inr ⟨rfl, rfl⟩)))

lemma forward_closed (i : Nat) : Forward (.opened i) (.closed i) := .single (.close i)

/-- Later the connection is at a point further on. -/
theorem later_point (main : MainSide s) (worker : WorkerSide config s) (main' : MainSide t)
    (worker' : WorkerSide config t) (grows : Grows s t) (h : At s c l) :
    ∃ l', At t c l' ∧ Forward l l' := by
  obtain ⟨later, hlater, _⟩ := at_unique main' worker' c
  rcases h with ⟨rfl, _⟩ | ⟨connections, hl, hc⟩
  · exact ⟨later, hlater, forward_coming later⟩
  · rcases mem_lives.mp hl with ⟨rfl, rfl⟩ | ⟨rfl, rfl⟩ | ⟨i, hi, hworker⟩
    · have hnewest := main.newest c (Option.mem_toList.mp hc)
      have hold := grows.accepted
      exact ⟨later, hlater, forward_hand (accepted_not_coming (by omega) hlater)⟩
    · exact ⟨.refused, at_refused (grows.refused.subset hc), .refl⟩
    · have hi' := grows.length ▸ hi
      rcases hworker with ⟨rfl, rfl⟩ | ⟨rfl, rfl⟩ | ⟨rfl, rfl⟩
      · exact ⟨.closed i, at_worker hi' ((grows.closed i).subset hc) (Or.inl ⟨rfl, rfl⟩), .refl⟩
      · have hdelivered : c ∈ (s.worker i).delivered := by
          cases hexited : (s.worker i).exited with
          | false =>
            exact (worker.working i hi hexited).delivered.mem_iff.mpr (List.mem_append_right _ hc)
          | true =>
            rw [(worker.ended i hi hexited).1.opened] at hc
            exact absurd hc List.not_mem_nil
        rcases delivered_at worker' hi' ((grows.delivered i).subset hdelivered) with
          hopened | hclosed
        · exact ⟨.opened i, hopened, .refl⟩
        · exact ⟨.closed i, hclosed, forward_closed i⟩
      · have hsent : c ∈ (s.worker i).sent :=
          (worker.places hi).mem_iff.mpr (List.mem_append_right _ hc)
        have hreceive : Forward (.waiting i) (.opened i) := .single (.receive i)
        rcases sent_at worker' hi' ((grows.sent i).subset hsent) with
          hwaiting | hopened | hclosed
        · exact ⟨.waiting i, hwaiting, .refl⟩
        · exact ⟨.opened i, hopened, hreceive⟩
        · exact ⟨.closed i, hclosed, hreceive.trans (forward_closed i)⟩

end Points

/-- The system refines the life of a connection. In every state of every run
each connection is at exactly one point of its life, and from any state to any
later one, with all processes interleaved in any way, it has only gone forward:
no connection comes back from a worker, goes from one to another, is opened
again, or is both refused and served. -/
theorem lives_go_forward (begun : Begun start) (runs : Runs config admits start s) :
    (∀ c, ∃! l, At s c l) ∧ ∀ t, Runs config admits s t → ∀ c l l', At s c l → At t c l' →
      Forward l l' := by
  have hmain := runs_mainSide begun runs
  have hworker := runs_workerSide begun runs
  refine ⟨at_unique hmain hworker, fun t later c l l' hl hl' => ?_⟩
  have hmain' := runs_mainSide begun (runs_append runs later)
  have hworker' := runs_workerSide begun (runs_append runs later)
  obtain ⟨point, hpoint, hforward⟩ :=
    later_point hmain hworker hmain' hworker' (runs_grow later) hl
  exact (at_unique hmain' hworker' c).unique hpoint hl' ▸ hforward

/-- The first connection is open in worker 0, and stays there. -/
theorem lives_go_forward_first : ∃ s : System, At s 0 (.opened 0) ∧
    ∀ t, Runs setConfigDefault (fun _ => True) s t → ∀ l, At t 0 l →
      l = .opened 0 ∨ l = .closed 0 := by
  obtain ⟨w, _, s, hw, _, hrun, hfirst, _⟩ := @first_connection (fun _ => True) trivial
  have hopened : At s 0 (.opened 0) := by
    refine at_worker (by rw [hfirst.workers]; exact Nat.zero_lt_two) (List.mem_singleton.mpr rfl)
      (Or.inr (Or.inl ⟨rfl, hfirst.opened.symm⟩))
  exact ⟨s, hopened, fun t later l hl =>
    forward_opened ((lives_go_forward (serverOf_begun hw) hrun).2 t later 0 _ l hopened hl)⟩

end ConnectionLife
