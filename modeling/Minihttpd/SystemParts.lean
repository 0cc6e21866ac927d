import Minihttpd.ConnectionLedger
import Minihttpd.WorkerConnections

/-!
# The parts of the system

What the main process does in a run of the system is a run of its loop, and
what a worker process does is a run of the handlers of its worker. So what has
been proved of either alone holds in the system, and the descriptors are fresh
because the kernel keeps the table of each process.
-/
namespace SystemParts

open ByteBuffer SystemCalls FdEvents ConnectionTypes HttpConnection StateMachine HttpWorker
open ConnectionRuns Registration WorkerTable MainLoop LoadBalance ServerSystem OpenTable Slots
open ConnectionLedger AnsweredRuns HandlerActs WorkerConnections FailingRun

variable {admits : SysAnswers → Prop}

/-- Without a message the handler of the unix socket does not look at the answer. -/
lemma quiet_permitted {config : ServerConfig} {w : Worker} {c : HandlerCall}
    (quiet : messageFds c = []) (registered : Registered w c) (answered : Admitted admits c) :
    ∃ c', Permitted w c' ∧ Admitted admits c' ∧ handlerCall config w c' = handlerCall config w c ∧
      handlerLog config w c' = handlerLog config w c := by
  cases c with
  | connection address mask now answers =>
    exact ⟨.connection address mask now answers, registered, answered, rfl, rfl⟩
  | timer mask now answers => exact ⟨.timer mask now answers, trivial, answered, rfl, rfl⟩
  | unixDomainSocket mask recv answers =>
    cases recv with
    | fail errno logged =>
      exact ⟨.unixDomainSocket mask (.fail errno logged) answers, trivial, answered, rfl, rfl⟩
    | endOfFile => exact ⟨.unixDomainSocket mask .endOfFile answers, trivial, answered, rfl, rfl⟩
    | message fd unset =>
      have hmask : mask.epollhup = true ∨ mask.epollerr = true := by
        by_contra hnone
        rw [messageFds, if_neg hnone] at quiet
        cases quiet
      refine ⟨.unixDomainSocket mask .endOfFile answers, trivial, answered, ?_, (if_pos hmask).symm⟩
      simp only [handlerCall, unixDomainSocketHandle]
      by_cases hup : mask.epollhup = true
      · rw [if_pos hup, if_pos hup]
      · have herr := hmask.resolve_left hup
        rw [if_neg hup, if_neg hup, if_pos herr, if_pos herr]

/-- How a step of the system looks to the main process. -/
lemma step_main {config : ServerConfig} {s t : System} (step : Step config admits s t) :
    t.main = s.main ∨ ∃ event, mainStep s.main event = .ok t.main := by
  cases step with
  | moves event main _ _ hstep => exact Or.inr ⟨event, hstep⟩
  | accepts main _ hstep => exact Or.inr ⟨_, hstep⟩
  | picks main _ hstep => exact Or.inr ⟨_, hstep⟩
  | refuses main c _ hstep => exact Or.inr ⟨_, hstep⟩
  | sends main i c _ _ _ hstep => exact Or.inr ⟨_, hstep⟩
  | sendFails main c _ hstep => exact Or.inr ⟨_, hstep⟩
  | exits i c main next fds _ hstep => exact Or.inr ⟨_, hstep⟩
  | dies i c main _ hstep => exact Or.inr ⟨_, hstep⟩
  | _ => exact Or.inl rfl

/-- How a step of the system looks to the worker of process `i`. -/
def WorkerMoves (config : ServerConfig) (admits : SysAnswers → Prop) (s t : System)
    (i : Nat) : Prop :=
  (t.worker i).worker = (s.worker i).worker ∧ (t.worker i).log = (s.worker i).log ∨
    ∃ c, Permitted (s.worker i).worker c ∧ Admitted admits c ∧
      handlerCall config (s.worker i).worker c = .ok (t.worker i).worker ∧
      (t.worker i).log = (s.worker i).log ++ handlerLog config (s.worker i).worker c

lemma moves_setWorker {config : ServerConfig} {s t : System} {i j : Nat} {p : WorkerProcess}
    (worker : t.worker = Function.update s.worker i p)
    (moves : i = j → p.worker = (s.worker j).worker ∧ p.log = (s.worker j).log ∨
      ∃ c, Permitted (s.worker j).worker c ∧ Admitted admits c ∧
        handlerCall config (s.worker j).worker c = .ok p.worker ∧
        p.log = (s.worker j).log ++ handlerLog config (s.worker j).worker c) :
    WorkerMoves config admits s t j := by
  by_cases hij : i = j
  · subst hij
    rw [WorkerMoves, worker, Function.update_self]
    exact moves rfl
  · left
    rw [worker, Function.update_of_ne (Ne.symm hij)]
    exact ⟨rfl, rfl⟩

lemma step_worker {config : ServerConfig} {s t : System} (side : WorkerSide config s)
    (step : Step config admits s t) {j : Nat} (running : (t.worker j).exited = false) :
    WorkerMoves config admits s t j := by
  cases step with
  | signalWorker i signo => exact moves_setWorker rfl fun h => by subst h; exact Or.inl ⟨rfl, rfl⟩
  | sends main i c _ _ _ _ => exact moves_setWorker rfl fun h => by subst h; exact Or.inl ⟨rfl, rfl⟩
  | polls i => exact moves_setWorker rfl fun h => by subst h; exact Or.inl ⟨rfl, rfl⟩
  | batchEnds i => exact moves_setWorker rfl fun h => by subst h; exact Or.inl ⟨rfl, rfl⟩
  | handles i c next _ _ quiet registered answered call =>
    apply moves_setWorker rfl
    intro h
    subst h
    obtain ⟨c', hpermitted, hanswered, hsame, hlog⟩ :=
      @quiet_permitted admits config _ _ quiet registered answered
    exact Or.inr ⟨c', hpermitted, hanswered, hsame.trans call, congrArg _ hlog.symm⟩
  | receives i c rest fd unset mask answers next alive _ hup herr channel free admitted call =>
    apply moves_setWorker rfl
    intro h
    subst h
    have hfresh := notOpen_of_free (side.alive_inv alive).2 free
    exact Or.inr ⟨.unixDomainSocket mask (.message (some fd) unset) answers, ⟨fd, rfl, hfresh⟩,
      admitted, call, rfl⟩
  | exits i c main next fds =>
    apply moves_setWorker rfl
    intro h
    subst h
    rw [System.setWorker_self] at running
    cases running
  | _ => exact Or.inl ⟨rfl, rfl⟩

/-- A worker process that has ended stays ended. -/
lemma step_exited {config : ServerConfig} {s t : System} (step : Step config admits s t) {j : Nat}
    (exited : (s.worker j).exited = true) : (t.worker j).exited = true := by
  have hset : ∀ {i : Nat} {p : WorkerProcess}, (p.exited = (s.worker i).exited ∨ p.exited = true) →
      (Function.update s.worker i p j).exited = true := by
    intro i p hp
    by_cases hij : j = i
    · subst hij
      rw [Function.update_self]
      rcases hp with h | h
      · exact h.trans exited
      · exact h
    · rw [Function.update_of_ne hij]
      exact exited
  cases step with
  | signalWorker i signo => exact hset (Or.inl rfl)
  | sends main i c => exact hset (Or.inl rfl)
  | polls i => exact hset (Or.inl rfl)
  | batchEnds i => exact hset (Or.inl rfl)
  | handles i c next => exact hset (Or.inl rfl)
  | receives i c rest fd unset mask answers next => exact hset (Or.inl rfl)
  | exits i c main next fds => exact hset (Or.inr rfl)
  | _ => exact exited

lemma runs_main {config : ServerConfig} {start s : System} (runs : Runs config admits start s) :
    ∃ events, mainRun start.main events = .ok s.main := by
  induction runs with
  | start => exact ⟨[], rfl⟩
  | step _ step ih =>
    obtain ⟨events, hrun⟩ := ih
    rcases step_main step with hsame | ⟨event, hevent⟩
    · rw [hsame]
      exact ⟨events, hrun⟩
    · exact ⟨events ++ [event], foldlM_concat_eq_ok hrun hevent⟩

lemma runs_length {config : ServerConfig} {start s : System} (runs : Runs config admits start s) :
    s.main.child.length = start.main.child.length := by
  induction runs with
  | start => rfl
  | step _ step ih =>
    rcases step_main step with hsame | ⟨event, hevent⟩
    · rw [hsame]
      exact ih
    · exact (taken_length (step_taken hevent)).trans ih

theorem runs_worker {config : ServerConfig} {start s : System} (begun : Begun start)
    (runs : Runs config admits start s) {i : Nat} (running : (s.worker i).exited = false) :
    LoggedRun config admits (start.worker i).worker (s.worker i).worker (s.worker i).log := by
  induction runs with
  | start =>
    obtain ⟨_, _, _, _, _, _, _, _, hlog⟩ := begun.fresh i
    rw [hlog]
    exact .start
  | @step s t hruns step ih =>
    have hbefore : (s.worker i).exited = false := by
      by_contra hexited
      rw [step_exited step (Bool.not_eq_false _ ▸ hexited)] at running
      cases running
    have hmoves := step_worker (runs_workerSide begun hruns) step running
    rcases hmoves with ⟨hsame, hlog⟩ | ⟨c, hpermitted, hanswered, hcall, hlog⟩
    · rw [hsame, hlog]
      exact ih hbefore
    · rw [hlog]
      exact .call (ih hbefore) hpermitted hanswered hcall

/-- Behind every run, what a worker has done on its connections are runs of theirs. -/
theorem running_views {config : ServerConfig} {start s : System} (begun : Begun start)
    (runs : Runs config admits start s) {i : Nat} (worker : i < s.main.child.length)
    (running : (s.worker i).exited = false) :
    Views config admits (s.worker i).worker (s.worker i).log ∧
      TableInv config (s.worker i).worker := by
  have hlog := runs_worker begun runs running
  obtain ⟨_, _, _, _, _, _, hstart⟩ := begun.started i (runs_length runs ▸ worker)
  have hinv := workerStart_inv config hstart
  exact ⟨run_views hinv (start_views hstart) hlog, run_inv hinv hlog.run⟩

/-- The connection that is open under a name is one of the worker. -/
lemma opened_connection {p : WorkerProcess} {c : Nat} (open_here : c ∈ p.opened) :
    ∃ a conn, p.worker.heap a = some conn ∧ p.table conn.connSocketFd = some c := by
  obtain ⟨fd, hfd, hname⟩ := List.mem_filterMap.mp open_here
  obtain ⟨i, a, _, hsocket⟩ := exists_slot hfd
  obtain ⟨conn, hconn, rfl⟩ := Option.map_eq_some_iff.mp hsocket
  exact ⟨a, conn, hconn, hname⟩

/-- The system is made of the runs of its parts. In every run of the system,
with all processes and signals interleaved in any way, the main process has
made a run of its loop, and every worker that has not ended a run of its
handlers, each with a descriptor that was new to it. The table of the worker
holds together, and every connection that is open in it is where the run of
its own state machine has come to rest, registered for what it waits for unless
an `epoll_ctl` for its descriptor has failed. -/
theorem system_parts {config : ServerConfig} {start s : System} (begun : Begun start)
    (runs : Runs config admits start s) :
    (∃ events, mainRun start.main events = .ok s.main) ∧
    ∀ i, i < s.main.child.length → (s.worker i).exited = false →
      LoggedRun config admits (start.worker i).worker (s.worker i).worker (s.worker i).log ∧
      TableOk (s.worker i).worker ∧
      ∀ c ∈ (s.worker i).opened, ∃ a conn n, (s.worker i).worker.heap a = some conn ∧
        (s.worker i).table conn.connSocketFd = some c ∧
        Waiting ⟨(s.worker i).worker.curTs, conn, (s.worker i).worker.ev,
          traceOf (s.worker i).log a⟩ ∧
        ReachedIn config admits .resting n ∧ n.conn = conn ∧
        n.trace = traceOf (s.worker i).log a := by
  refine ⟨runs_main runs, fun i hi running => ?_⟩
  have hlog := runs_worker begun runs running
  obtain ⟨hviews, htable⟩ := running_views begun runs hi running
  refine ⟨hlog, htable.ok, fun c hc => ?_⟩
  obtain ⟨a, conn, hconn, hname⟩ := opened_connection hc
  obtain ⟨_, hawaits, n, hreached, hn, _, htrace⟩ := hviews.lives htable hconn
  exact ⟨a, conn, n, hconn, hname, hawaits, hreached, hn, htrace⟩

/-- The first connection, open in worker 0. -/
theorem system_parts_first : ∃ s : System, (s.worker 0).opened = [0] ∧
    TableOk (s.worker 0).worker ∧ ∃ a n, ReachedIn setConfigDefault (fun _ => True) .resting n ∧
      n.trace = traceOf (s.worker 0).log a := by
  obtain ⟨w, _, s, hw, _, hrun, hfirst, _⟩ := @first_connection (fun _ => True) trivial
  obtain ⟨_, hok, hconnections⟩ := (system_parts (serverOf_begun hw) hrun).2 0
    (by rw [hfirst.workers]; exact Nat.zero_lt_two) hfirst.running
  obtain ⟨a, _, n, _, _, _, hreached, _, htrace⟩ :=
    hconnections 0 (by rw [hfirst.opened]; exact .head _)
  exact ⟨s, hfirst.opened, hok, a, n, hreached, htrace⟩

end SystemParts
