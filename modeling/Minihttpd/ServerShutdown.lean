import Minihttpd.SystemParts

/-!
# Shutdown

The server shuts down on a SIGTERM, or on the second SIGINT. The main process
then takes at most one more connection, and none once it has left its loop. A
worker goes on until its last connection is closed, and leaves nothing behind.
-/
namespace ServerShutdown

open ByteBuffer SystemCalls FdEvents ConnectionTypes HttpConnection StateMachine HttpWorker
open ConnectionRuns Registration WorkerTable MainLoop LoadBalance ServerSystem OpenTable Slots
open ConnectionLedger HandlerActs WorkerConnections SystemParts FailingRun

variable {admits : SysAnswers → Prop}

/-- What the signals ask for. -/
def ShutdownAsked (signals : List Signal) : Prop :=
  .sigterm ∈ signals ∨ 2 ≤ signals.count .sigint

/-- The flags after these signals. -/
structure Flagged (signals : List Signal) (flags : SignalFlags) : Prop where
  graceful : flags.gracefulShutdown = true ↔ 1 ≤ signals.count .sigint
  shutdown : flags.serverShutdown = true ↔ ShutdownAsked signals

lemma flagged_initial : Flagged [] .initial := by
  constructor
  · exact iff_of_false Bool.false_ne_true (Nat.not_succ_le_zero 0)
  · refine iff_of_false Bool.false_ne_true ?_
    rintro (hterm | hint)
    · cases hterm
    · exact absurd hint (Nat.not_succ_le_zero 1)

lemma count_sigint (signals : List Signal) :
    (signals ++ [Signal.sigint]).count .sigint = signals.count .sigint + 1 := by
  rw [List.count_append, List.count_singleton_self]

lemma count_other (signals : List Signal) {signo : Signal} (other : signo ≠ .sigint) :
    (signals ++ [signo]).count .sigint = signals.count .sigint := by
  rw [List.count_append, List.count_singleton, if_neg (mt beq_iff_eq.mp other)]
  rfl

/-- A signal sets the flags and none takes one back. -/
lemma Flagged.signal {signals : List Signal} {flags : SignalFlags} (h : Flagged signals flags)
    (signo : Signal) : Flagged (signals ++ [signo]) (signalHandler flags signo) := by
  obtain ⟨graceful, shutdown⟩ := h
  rw [ShutdownAsked] at shutdown
  cases signo with
  | sigpipe =>
    have hcount := count_other signals (show Signal.sigpipe ≠ .sigint from Signal.noConfusion)
    constructor
    · rw [hcount]
      exact graceful
    · rw [ShutdownAsked, hcount, List.mem_append]
      simpa [signalHandler] using shutdown
  | sigterm =>
    have hcount := count_other signals (show Signal.sigterm ≠ .sigint from Signal.noConfusion)
    constructor
    · rw [hcount]
      exact graceful
    · exact iff_of_true rfl (Or.inl (List.mem_append_right _ (List.mem_singleton_self _)))
  | sigint =>
    -- the second SIGINT finds the flag of the first
    by_cases hgraceful : flags.gracefulShutdown = true
    · have hfirst := graceful.mp hgraceful
      rw [signalHandler, if_pos hgraceful]
      constructor
      · exact iff_of_true hgraceful (by rw [count_sigint]; omega)
      · exact iff_of_true rfl (Or.inr (by rw [count_sigint]; omega))
    · have hnone : signals.count .sigint = 0 := by
        have hfirst := mt graceful.mpr hgraceful
        omega
      rw [signalHandler, if_neg hgraceful]
      constructor
      · exact iff_of_true rfl (by rw [count_sigint]; omega)
      · rw [ShutdownAsked, count_sigint, List.mem_append, hnone]
        rw [hnone] at shutdown
        simpa using shutdown

lemma signalHandler_shutdown {flags : SignalFlags} (h : flags.serverShutdown = true)
    (signo : Signal) : (signalHandler flags signo).serverShutdown = true := by
  cases signo with
  | sigpipe => exact h
  | sigterm => rfl
  | sigint =>
    rw [signalHandler]
    split
    · rfl
    · exact h

/-- The main process leaves its loop only where it has been asked to, and does
not go back into its body. -/
structure MainStop (s : System) : Prop where
  flagged : Flagged s.signals s.flags
  left : s.left = true → s.flags.serverShutdown = true ∧ s.inBody = false ∧
    s.main.place = .testFlag

lemma exit_place {s t : Main} {pid : Nat} (h : mainStep s (.exit pid) = .ok t) :
    t.place = s.place := by
  cases step_taken h with
  | exit => rfl

lemma step_mainStop {config : ServerConfig} {s t : System} (h : MainStop s)
    (step : Step config admits s t) : MainStop t := by
  have hbody : ∀ {u : System}, s.inBody = true → u.left = s.left → u.left = true →
      u.flags.serverShutdown = true ∧ u.inBody = false ∧ u.main.place = .testFlag := by
    intro u hinside hsame hleft
    have hout := (h.left (hsame ▸ hleft)).2.1
    rw [hinside] at hout
    cases hout
  cases step with
  | signal signo =>
    refine ⟨h.flagged.signal signo, fun hleft => ?_⟩
    obtain ⟨hshut, hrest⟩ := h.left hleft
    exact ⟨signalHandler_shutdown hshut signo, hrest⟩
  | enters _ _ out =>
    refine ⟨h.flagged, fun hleft => ?_⟩
    rw [out] at hleft
    cases hleft
  | leaves place out shut => exact ⟨h.flagged, fun _ => ⟨shut, out, place⟩⟩
  | moves event main inside => exact ⟨h.flagged, hbody inside rfl⟩
  | accepts main inside => exact ⟨h.flagged, hbody inside rfl⟩
  | picks main inside => exact ⟨h.flagged, hbody inside rfl⟩
  | refuses main c inside => exact ⟨h.flagged, hbody inside rfl⟩
  | sends main i c inside => exact ⟨h.flagged, hbody inside rfl⟩
  | sendFails main c inside => exact ⟨h.flagged, hbody inside rfl⟩
  | exits i c main next fds _ hstep =>
    refine ⟨h.flagged, fun hleft => ?_⟩
    obtain ⟨hshut, hout, hplace⟩ := h.left hleft
    exact ⟨hshut, hout, (exit_place hstep).trans hplace⟩
  | dies i c main _ hstep =>
    refine ⟨h.flagged, fun hleft => ?_⟩
    obtain ⟨hshut, hout, hplace⟩ := h.left hleft
    exact ⟨hshut, hout, (exit_place hstep).trans hplace⟩
  | _ => exact ⟨h.flagged, h.left⟩

lemma runs_mainStop {config : ServerConfig} {start s : System} (begun : Begun start)
    (runs : Runs config admits start s) : MainStop s := by
  induction runs with
  | start =>
    constructor
    · rw [begun.signals, begun.flags]
      exact flagged_initial
    · intro hleft
      rw [begun.left] at hleft
      cases hleft
  | step _ step ih => exact step_mainStop ih step

/-- At most one more connection than `total` has been accepted, and none more by a
body of the loop that has not come to its `accept` yet. -/
structure Within (total : Nat) (s : System) : Prop where
  shutdown : s.flags.serverShutdown = true
  bound : s.accepted ≤ total + 1
  before : s.inBody = true → ¬ Holding s.main.place → s.accepted ≤ total

lemma step_within {config : ServerConfig} {total : Nat} {s t : System} (h : Within total s)
    (step : Step config admits s t) : Within total t := by
  obtain ⟨hshut, hbound, hbefore⟩ := h
  cases step with
  | signal signo => exact ⟨signalHandler_shutdown hshut signo, hbound, hbefore⟩
  | enters _ _ _ running =>
    rw [running] at hshut
    cases hshut
  | moves event main inside silent hstep =>
    obtain ⟨hfree, _⟩ := silent_place silent (step_taken hstep)
    exact ⟨hshut, hbound, fun _ _ => hbefore inside hfree⟩
  | accepts main inside hstep =>
    have hplaces : ¬ Holding s.main.place ∧ Holding main.place := by
      cases step_taken hstep with
      | accepts _ place => exact ⟨by rw [place]; exact id, trivial⟩
    have hlast := hbefore inside hplaces.1
    exact ⟨hshut, Nat.succ_le_succ hlast, fun _ hfree => absurd hplaces.2 hfree⟩
  | picks main inside hstep found =>
    have hplace : Holding main.place := by
      cases step_taken hstep with
      | nobody => exact absurd rfl found
      | picks _ => trivial
    exact ⟨hshut, hbound, fun _ hfree => absurd hplace hfree⟩
  | refuses main c inside hstep back =>
    refine ⟨hshut, hbound, fun hinside _ => ?_⟩
    exact absurd back (of_decide_eq_true hinside)
  | sends main i c inside _ _ hstep =>
    have hplace : main.place = .testFlag := by
      cases step_taken hstep with
      | sent => rfl
    exact ⟨hshut, hbound, fun hinside _ => absurd hplace (of_decide_eq_true hinside)⟩
  | sendFails main c inside hstep =>
    have hplace : main.place = .testFlag := by
      cases step_taken hstep with
      | unsent => rfl
    exact ⟨hshut, hbound, fun hinside _ => absurd hplace (of_decide_eq_true hinside)⟩
  | exits i c main next fds _ hstep =>
    refine ⟨hshut, hbound, fun hinside hfree => hbefore hinside ?_⟩
    rw [← exit_place hstep]
    exact hfree
  | dies i c main _ hstep =>
    refine ⟨hshut, hbound, fun hinside hfree => hbefore hinside ?_⟩
    rw [← exit_place hstep]
    exact hfree
  | _ => exact ⟨hshut, hbound, hbefore⟩

/-- Outside its loop the main process takes and hands over nothing. -/
lemma step_outside {config : ServerConfig} {s t : System} (stop : MainStop s) (left : s.left = true)
    (step : Step config admits s t) : t.left = true ∧ t.accepted = s.accepted ∧
      t.refused = s.refused ∧ ∀ i, (t.worker i).sent = (s.worker i).sent := by
  have hout := (stop.left left).2.1
  have hnot : s.inBody = true → t.left = true ∧ t.accepted = s.accepted ∧
      t.refused = s.refused ∧ ∀ i, (t.worker i).sent = (s.worker i).sent := by
    intro hinside
    rw [hout] at hinside
    cases hinside
  cases step with
  | moves event main inside => exact hnot inside
  | accepts main inside => exact hnot inside
  | picks main inside => exact hnot inside
  | refuses main c inside => exact hnot inside
  | sends main i c inside => exact hnot inside
  | sendFails main c inside => exact hnot inside
  | leaves => exact ⟨rfl, rfl, rfl, fun _ => rfl⟩
  | signalWorker i signo => exact ⟨left, rfl, rfl, sent_setWorker rfl⟩
  | polls i => exact ⟨left, rfl, rfl, sent_setWorker rfl⟩
  | batchEnds i => exact ⟨left, rfl, rfl, sent_setWorker rfl⟩
  | handles i c next => exact ⟨left, rfl, rfl, sent_setWorker rfl⟩
  | receives i c rest fd unset mask answers next => exact ⟨left, rfl, rfl, sent_setWorker rfl⟩
  | exits i c main next fds =>
    exact ⟨left, rfl, rfl, @sent_setWorker { s with main := main } i _ rfl⟩
  | _ => exact ⟨left, rfl, rfl, fun _ => rfl⟩

lemma runs_outside {config : ServerConfig} {start s t : System} (begun : Begun start)
    (first : Runs config admits start s) (left : s.left = true) (runs : Runs config admits s t) :
    MainStop t ∧ t.left = true ∧ t.accepted = s.accepted ∧ t.refused = s.refused ∧
      ∀ i, (t.worker i).sent = (s.worker i).sent := by
  induction runs with
  | start => exact ⟨runs_mainStop begun first, left, rfl, rfl, fun _ => rfl⟩
  | step _ step ih =>
    obtain ⟨hstop, hleft, haccepted, hrefused, hsent⟩ := ih
    obtain ⟨hleft', haccepted', hrefused', hsent'⟩ := step_outside hstop hleft step
    exact ⟨step_mainStop hstop step, hleft', haccepted'.trans haccepted, hrefused'.trans hrefused,
      fun i => (hsent' i).trans (hsent i)⟩

lemma runs_within {config : ServerConfig} {s t : System} (shut : s.flags.serverShutdown = true)
    (runs : Runs config admits s t) : Within s.accepted t := by
  induction runs with
  | start => exact ⟨shut, Nat.le_succ _, fun _ _ => Nat.le_refl _⟩
  | step _ step ih => exact step_within ih step

/-- The server stops accepting. It is shut down by a SIGTERM or by a second
SIGINT, and by nothing else; the main process leaves its loop only then. From
the signal on, at most one more connection is accepted, by the body of the loop
that was already entered, and from the end of the loop on none is accepted,
refused or handed over. -/
theorem stops_accepting {config : ServerConfig} {start s : System} (begun : Begun start)
    (runs : Runs config admits start s) :
    (s.flags.serverShutdown = true ↔ ShutdownAsked s.signals) ∧
    (s.left = true → ShutdownAsked s.signals) ∧
    ∀ t, Runs config admits s t →
      (ShutdownAsked s.signals → t.accepted ≤ s.accepted + 1) ∧
      (s.left = true → t.accepted = s.accepted ∧ t.refused = s.refused ∧
        ∀ i, (t.worker i).sent = (s.worker i).sent) := by
  have hstop := runs_mainStop begun runs
  refine ⟨hstop.flagged.shutdown, ?_, fun t later => ⟨?_, ?_⟩⟩
  · exact fun hleft => hstop.flagged.shutdown.mp (hstop.left hleft).1
  · exact fun hasked => (runs_within (hstop.flagged.shutdown.mpr hasked) later).bound
  · exact fun hleft => (runs_outside begun runs hleft later).2.2

/-- A server that is shut down behind its first connection, and leaves its loop. -/
theorem stops_accepting_one : ∃ s t u : System, s.accepted = 1 ∧ s.signals = [.sigint, .sigint] ∧
    s.flags.serverShutdown = true ∧ t.accepted ≤ s.accepted + 1 ∧ t.left = true ∧
    u.accepted = t.accepted ∧ (u.worker 0).sent = (t.worker 0).sent := by
  obtain ⟨w, _, s, hw, _, hrun, hfirst, _⟩ := @first_connection (fun _ => True) trivial
  have begun := serverOf_begun hw
  obtain ⟨asked, hasked, hplace, hbody, hsignals, haccepted⟩ : ∃ u : System,
      Runs setConfigDefault (fun _ => True) (serverOf w) u ∧ u.main.place = .testFlag ∧
      u.inBody = false ∧ u.signals = [.sigint, .sigint] ∧ u.accepted = 1 := by
    refine ⟨_, (hrun.step (.signal .sigint)).step (.signal .sigint), hfirst.between.1,
      hfirst.between.2, ?_, hfirst.accepted⟩
    change s.signals ++ [_] ++ [_] = _
    rw [hfirst.signals]
    rfl
  have htwo : ShutdownAsked asked.signals := by
    rw [hsignals]
    exact Or.inr (Nat.le_refl 2)
  obtain ⟨hflags, _, hlater⟩ := stops_accepting begun hasked
  have hleaves := @Step.leaves setConfigDefault (fun _ => True) _ hplace hbody (hflags.mpr htwo)
  obtain ⟨hnone, _, hsent⟩ := ((stops_accepting begun (hasked.step hleaves)).2.2 _
    (Runs.start.step (.kills rfl))).2 rfl
  exact ⟨asked, _, _, haccepted, hsignals, hflags.mpr htwo,
    (hlater _ (Runs.start.step hleaves)).1 htwo, rfl, hnone, hsent 0⟩

/-- Nothing of a connection and no registration is left in the worker. -/
structure Cleared (w : Worker) : Prop where
  heap : ∀ a, w.heap a = none
  entries : ∀ k, w.ev.handlerArray k = none ∧ w.ev.interest k = none

lemma slot_counted {config : ServerConfig} {w : Worker} {i a : Nat} (inv : TableInv config w)
    (slot : InSlot w i a) : 0 < w.curConnectionNumber := by
  have hclear := occupied_clear slot
  rw [inv.count]
  omega

/-- No assertion of the cleanup fails, and where the table is empty nothing is left. -/
lemma finish_spec {config : ServerConfig} {w : Worker} {log : List (Nat × List Event)}
    (inv : TableInv config w) (views : Views config admits w log) :
    ∃ next, workerFinish w = .ok (next, [w.timerFd, w.unixDomainSocketFd]) ∧
      (w.curConnectionNumber = 0 → Cleared next) := by
  obtain ⟨_, htimer⟩ := inv.timer
  obtain ⟨_, hunix⟩ := inv.unixSocket
  have hapart : w.unixDomainSocketFd.toNat ≠ w.timerFd.toNat := by
    intro heq
    have hnode := hunix.node
    rw [heq, htimer.node] at hnode
    cases hnode
  obtain ⟨ev₁, ev₂, hunset, hunregister, honly, hnode, hinterest⟩ := unsetUnregister_spec htimer
  have hunix₂ := watched_onlyAt honly hapart hunix
  obtain ⟨ev₃, ev₄, hunset', hunregister', honly', hnode', hinterest'⟩ :=
    unsetUnregister_spec hunix₂
  refine ⟨{ workerFreeConnectons w with ev := ev₄ }, ?_, fun hempty => ⟨fun a => ?_, fun k => ?_⟩⟩
  · change (fdeventsUnsetEvent w.ev w.timerFd >>= _) = _
    rw [hunset]
    change (fdeventsUnregisterFd ev₁ w.timerFd >>= _) = _
    rw [hunregister]
    change (fdeventsUnsetEvent ev₂ w.unixDomainSocketFd >>= _) = _
    rw [hunset']
    change (fdeventsUnregisterFd ev₃ w.unixDomainSocketFd >>= _) = _
    rw [hunregister']
    rfl
  · change w.heap a = none
    cases hconn : w.heap a with
    | none => rfl
    | some conn =>
      obtain ⟨⟨i, slot⟩, _⟩ := views.lives inv hconn
      exact absurd hempty (Nat.ne_of_gt (slot_counted inv slot))
  · change ev₄.handlerArray k = none ∧ ev₄.interest k = none
    by_cases hkU : k = w.unixDomainSocketFd.toNat
    · rw [hkU]
      exact ⟨hnode', hinterest'⟩
    · rw [honly'.nodes k hkU, honly'.interest k hkU]
      by_cases hkT : k = w.timerFd.toNat
      · rw [hkT]
        exact ⟨hnode, hinterest⟩
      · rw [honly.nodes k hkT, honly.interest k hkT]
        have hnone : w.ev.handlerArray k = none := by
          cases hn : w.ev.handlerArray k with
          | none => rfl
          | some n =>
            have hentry := inv.entries k n hn
            cases hctx : n.ctx with
            | unixDomainSocket =>
              rw [hctx] at hentry
              exact absurd hentry hkU
            | timer =>
              rw [hctx] at hentry
              exact absurd hentry hkT
            | connection a =>
              rw [hctx] at hentry
              obtain ⟨i, _, slot, _⟩ := hentry
              exact absurd hempty (Nat.ne_of_gt (slot_counted inv slot))
        exact ⟨hnone, (inv.mirrors k).unwatched (by rw [hnone]; rfl)⟩

/-- A worker that has left its loop was told to, and is cleared. -/
structure Stopped (p : WorkerProcess) : Prop where
  shutdown : p.flags.serverShutdown = true
  cleared : Cleared p.worker

/-- A worker process is replaced by one that has not ended, or is as stopped as before. -/
lemma stopped_setWorker {s : System} {i j : Nat} {p : WorkerProcess}
    (others : (s.worker j).exited = true → Stopped (s.worker j))
    (here : i = j → p.exited = true → Stopped p)
    (exited : ((s.setWorker i p).worker j).exited = true) :
    Stopped ((s.setWorker i p).worker j) := by
  by_cases hij : j = i
  · subst hij
    have hself : (s.setWorker j p).worker j = p := Function.update_self _ _ _
    rw [hself] at exited ⊢
    exact here rfl exited
  · have hother : (s.setWorker i p).worker j = s.worker j := Function.update_of_ne hij _ _
    rw [hother] at exited ⊢
    exact others exited

lemma stopped_running {s : System} {i j : Nat} {p : WorkerProcess} (running : p.exited = false)
    (others : (s.worker j).exited = true → Stopped (s.worker j))
    (exited : ((s.setWorker i p).worker j).exited = true) :
    Stopped ((s.setWorker i p).worker j) := by
  apply stopped_setWorker others _ exited
  intro _ hexited
  rw [running] at hexited
  cases hexited

lemma step_stopped {config : ServerConfig} {s t : System} (side : WorkerSide config s)
    (views : ∀ i, i < s.main.child.length → (s.worker i).exited = false →
      Views config admits (s.worker i).worker (s.worker i).log)
    (step : Step config admits s t) {j : Nat}
    (before : (s.worker j).exited = true → Stopped (s.worker j))
    (exited : (t.worker j).exited = true) : Stopped (t.worker j) := by
  cases step with
  | signalWorker i signo =>
    apply stopped_setWorker before _ exited
    intro hij hexited
    subst hij
    obtain ⟨hshut, hcleared⟩ := before hexited
    exact ⟨signalHandler_shutdown hshut signo, hcleared⟩
  | kills =>
    obtain ⟨hshut, hcleared⟩ := before exited
    exact ⟨signalHandler_shutdown hshut .sigterm, hcleared⟩
  | sends main i c _ _ alive =>
    exact @stopped_running (s.setMain main) i j { s.worker i with
      channel := (s.worker i).channel ++ [c], sent := (s.worker i).sent ++ [c] }
      (side.alive_inv alive).1 before exited
  | polls i alive => exact stopped_running (side.alive_inv alive).1 before exited
  | batchEnds i alive => exact stopped_running (side.alive_inv alive).1 before exited
  | handles i c next alive => exact stopped_running (side.alive_inv alive).1 before exited
  | receives i c rest fd unset mask answers next alive =>
    exact stopped_running (side.alive_inv alive).1 before exited
  | exits i c main next fds child hstep _ finished finish =>
    apply @stopped_setWorker { s with main := main } i j _ before _ exited
    intro hij _
    subst hij
    rw [loopGoesOn, not_or] at finished
    have halive : s.Alive i := by
      refine ⟨c, child, ?_⟩
      cases step_taken hstep with
      | exit _ halive => exact halive
    obtain ⟨hrunning, hinv⟩ := side.alive_inv halive
    have hviews := views i (alive_lt halive) hrunning
    obtain ⟨last, hlast, hcleared⟩ := finish_spec hinv.table hviews
    rw [hlast] at finish
    cases finish
    exact ⟨Bool.not_eq_false _ ▸ finished.1, hcleared (Nat.eq_zero_of_not_pos finished.2)⟩
  | _ => exact before exited

lemma runs_stopped {config : ServerConfig} {start s : System} (begun : Begun start)
    (runs : Runs config admits start s) {i : Nat} (exited : (s.worker i).exited = true) :
    Stopped (s.worker i) := by
  induction runs with
  | start =>
    rw [(begun.fresh i).2.2.1] at exited
    cases exited
  | step hruns step ih =>
    exact step_stopped (runs_workerSide begun hruns)
      (fun j hj alive => (running_views begun hruns hj alive).1) step ih exited

/-- A worker without connections that has been told to shut down can end. -/
lemma can_end {config : ServerConfig} {start s : System} (begun : Begun start)
    (runs : Runs config admits start s) {i : Nat} (alive : s.Alive i)
    (between : (s.worker i).inBatch = false) (shut : (s.worker i).flags.serverShutdown = true)
    (idle : (s.worker i).opened = []) :
    ∃ t, Step config admits s t ∧ (t.worker i).exited = true ∧
      (t.worker i).delivered = (s.worker i).delivered := by
  obtain ⟨hrunning, hinv⟩ := (runs_workerSide begun runs).alive_inv alive
  have hviews := (running_views begun runs (alive_lt alive) hrunning).1
  obtain ⟨next, hfinish, _⟩ := finish_spec hinv.table hviews
  obtain ⟨c, hc, hprocess⟩ := alive
  have hexit : mainStep s.main (.exit c.pid) = .ok { s.main with
      process := Function.update s.main.process c.pid .zombie
      signalChildHandled := true } := by
    rw [mainStep, if_pos]
    refine ⟨List.any_eq_true.mpr ⟨c, List.mem_of_getElem? hc, ?_⟩, hprocess⟩
    exact beq_self_eq_true c.pid
  have hfinished : ¬ loopGoesOn (s.worker i).flags.serverShutdown (s.worker i).worker := by
    rw [loopGoesOn, shut, ← opened_length hinv, idle]
    rintro (hserving | hbusy)
    · cases hserving
    · exact Nat.lt_irrefl 0 hbusy
  refine ⟨_, .exits i c _ next _ hc hexit between hfinished hfinish, ?_, ?_⟩ <;>
    rw [System.setWorker_self]

/-- Workers finish what they have begun, and leave nothing behind. A worker
that has ended by itself had been told to shut down; every connection it had
received is closed, no connection is left on its heap, and no descriptor is left
in its event array or with epoll. As long as it has a connection, a worker goes
on, and one without that has been told to shut down can end. -/
theorem workers_finish {config : ServerConfig} {start s : System} (begun : Begun start)
    (runs : Runs config admits start s) {i : Nat} (worker : i < s.main.child.length) :
    ((s.worker i).exited = true → (s.worker i).flags.serverShutdown = true ∧
      (s.worker i).delivered.Perm (s.worker i).closed ∧ (s.worker i).opened = [] ∧
      Cleared (s.worker i).worker) ∧
    (s.Alive i → (s.worker i).inBatch = false →
      ((s.worker i).flags.serverShutdown = false ∨ (s.worker i).opened ≠ [] →
        ∃ t, Step config admits s t ∧ (t.worker i).inBatch = true) ∧
      ((s.worker i).flags.serverShutdown = true → (s.worker i).opened = [] →
        ∃ t, Step config admits s t ∧ (t.worker i).exited = true)) := by
  have hside := runs_workerSide begun runs
  constructor
  · intro hexited
    obtain ⟨hshut, hcleared⟩ := runs_stopped begun runs hexited
    have hend := (hside.ended i worker hexited).1
    exact ⟨hshut, hend.delivered, hend.opened, hcleared⟩
  · intro alive between
    obtain ⟨_, hinv⟩ := hside.alive_inv alive
    constructor
    · intro busy
      have hgoes : loopGoesOn (s.worker i).flags.serverShutdown (s.worker i).worker := by
        rcases busy with hserving | hopened
        · exact Or.inl hserving
        · right
          rw [← opened_length hinv]
          exact List.length_pos_iff.mpr hopened
      refine ⟨_, .polls i alive between hgoes, ?_⟩
      rw [System.setWorker_self]
    · intro shut idle
      obtain ⟨t, hstep, hexited, _⟩ := can_end begun runs alive between shut idle
      exact ⟨t, hstep, hexited⟩

/-- The client of the first connection closes it without a request. -/
def firstClosing : HandlerCall :=
  .connection 0 ⟨true, false, false, false, false⟩ 0 fun _ =>
    { SysAnswers.failing with read := .data [] }

/-- A worker that gets a SIGTERM when its one connection has come and gone. -/
theorem workers_finish_one : ∃ s : System, (s.worker 0).flags.serverShutdown = true ∧
    (s.worker 0).delivered = [0] ∧ (s.worker 0).closed = [0] ∧ (s.worker 0).opened = [] ∧
    Cleared (s.worker 0).worker := by
  obtain ⟨w, next, s, hw, hnext, hrun, hfirst, _⟩ := @first_connection (fun _ => True) trivial
  have hcheck : (workerStart 16 ctlSucceeds 4 3 4 0).toOption.any (fun w =>
      (handlerCall setConfigDefault w firstCall).toOption.any fun next =>
        (next.ev.handlerArray 5).map Fdnode.ctx == some (HandlerCtx.connection 0) &&
        (handlerCall setConfigDefault next firstClosing).toOption.any fun after =>
          heldFds after == []) = true := by
    decide +kernel
  rw [hw] at hcheck
  simp only [Except.toOption, Option.any_some, hnext] at hcheck
  obtain ⟨hnode, hafter⟩ := Bool.and_eq_true_iff.mp hcheck
  obtain ⟨after, hcall, hheld⟩ := (Option.any_eq_true _ _).mp hafter
  obtain ⟨u, hclosed, halive, hprocess⟩ := first_handled hrun hfirst (eq_of_beq hnode)
    (fun _ => trivial) (toOption_eq_some hcall)
  have hbatch : (u.worker 0).inBatch = true := by
    rw [hprocess]
    exact hfirst.inBatch
  have hasked := (hclosed.step (.batchEnds 0 halive hbatch)).step (.signalWorker 0 .sigterm)
  generalize hlast : System.setWorker _ _ _ = asked at hasked
  have hworker : asked.worker 0 = { (s.worker 0).handled setConfigDefault firstClosing after with
      inBatch := false
      flags := signalHandler (s.worker 0).flags .sigterm } := by
    rw [← hlast]
    simp only [System.setWorker_self, hprocess]
    rfl
  have hstays : asked.Alive 0 := hlast ▸ halive
  have begun := serverOf_begun hw
  have hidle : (asked.worker 0).opened = [] := by
    rw [hworker]
    exact congrArg (names _) (eq_of_beq hheld)
  obtain ⟨t, hstep, hexited, hdelivered⟩ := can_end begun hasked hstays (by rw [hworker])
    (by rw [hworker]; rfl) hidle
  have hended := hasked.step hstep
  obtain ⟨hshut, hperm, hopened, hcleared⟩ := (workers_finish begun hended
    (by rw [runs_length hended]; exact Nat.zero_lt_two)).1 hexited
  have hone : (t.worker 0).delivered = [0] := by
    rw [hdelivered, hworker]
    exact hfirst.delivered
  rw [hone] at hperm
  exact ⟨t, hshut, hone, List.perm_singleton.mp hperm.symm, hopened, hcleared⟩

end ServerShutdown
