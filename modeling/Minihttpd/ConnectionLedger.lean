import Minihttpd.ServerSystem

/-!
# Where the connections are

Every connection that the main process has accepted is in one place: in its
hand, refused by it, on its way to a worker, open in a worker, or closed there.
A worker closes what it has been given, once and nothing else, whatever its
descriptors are used for again in the meantime.
-/
namespace ConnectionLedger

open ByteBuffer SystemCalls FdEvents ConnectionTypes HttpConnection StateMachine HttpWorker
open ConnectionRuns Registration WorkerTable MainLoop LoadBalance ServerSystem OpenTable Slots
open HandlerActs FailingRun

variable {admits : SysAnswers → Prop}

/-- A handler of `w` has received `fds`, and closed what `next` has closed in addition. -/
structure Logs (w next : Worker) (fds : List Int) : Prop where
  received : next.received = w.received ++ fds
  closed : w.closed <+: next.closed

lemma logs_refl (w : Worker) : Logs w w [] := ⟨(List.append_nil _).symm, List.prefix_refl _⟩

lemma workerStateMachine_logs {config : ServerConfig} {answers : Nat → SysAnswers}
    {w next : Worker} {a : Nat} (h : workerStateMachine config answers w a = .ok next) :
    Logs w next [] := by
  rw [workerStateMachine] at h
  cases hconn : w.heap a with
  | none =>
    simp only [hconn] at h
    cases h
  | some conn =>
    simp only [hconn] at h
    obtain ⟨m, _, h⟩ := bind_eq_ok.mp h
    split at h
    · cases h
      exact ⟨(List.append_nil _).symm, List.prefix_append _ _⟩
    · cases h
      exact ⟨(List.append_nil _).symm, List.prefix_append _ _⟩

lemma connectionEvent_logs {config : ServerConfig} {mask : EventMask} {now : Int}
    {answers : Nat → SysAnswers} {w next : Worker} {a : Nat}
    (h : connectionEventHandle config mask now answers w a = .ok next) : Logs w next [] := by
  rw [connectionEventHandle] at h
  cases hconn : w.heap a with
  | none =>
    simp only [hconn] at h
    cases h
  | some conn =>
    simp only [hconn] at h
    have hcall := workerStateMachine_logs h
    exact ⟨hcall.received, hcall.closed⟩

lemma sweepSlot_logs {config : ServerConfig} {answers : Nat → Nat → SysAnswers}
    {w next : Worker} {i : Nat} (h : sweepSlot config answers w i = .ok next) :
    Logs w next [] := by
  rw [sweepSlot] at h
  split at h
  · cases h
    exact logs_refl w
  · split at h
    · cases h
    · split at h
      · cases h
        exact logs_refl w
      · have hcall := workerStateMachine_logs h
        exact ⟨hcall.received, hcall.closed⟩

lemma timerExpire_logs {config : ServerConfig} {mask : EventMask} {now : Int}
    {answers : Nat → Nat → SysAnswers} {w next : Worker}
    (h : workerTimerExpireHandler config mask now answers w = .ok next) : Logs w next [] := by
  rw [workerTimerExpireHandler] at h
  split at h
  · cases h
    exact logs_refl w
  · split at h
    · cases h
      exact logs_refl w
    · -- a slot that is swept adds to what the slots in front of it have closed
      have hstart : Logs w { w with curTs := now } [] :=
        ⟨(List.append_nil _).symm, List.prefix_refl _⟩
      apply @foldlM_keeps _ _ _ _ (fun s => Logs w s []) _ _ _ _ hstart h
      intro s i t _ hs ht
      have hslot := sweepSlot_logs ht
      constructor
      · rw [hslot.received, hs.received, List.append_nil]
      · exact hs.closed.trans hslot.closed

lemma withoutUnixSocket_logs {w next : Worker} (h : withoutUnixSocket w = .ok next) :
    Logs w next [] := by
  obtain ⟨ev, _, hnext⟩ := bind_eq_ok.mp h
  cases hnext
  exact ⟨(List.append_nil _).symm, List.prefix_refl _⟩

theorem unixSocket_logs {config : ServerConfig} {mask : EventMask} {recv : RecvAnswer}
    {answers : Nat → SysAnswers} {w next : Worker} (inv : TableInv config w)
    (h : unixDomainSocketHandle config mask recv answers w = .ok next) :
    Logs w next (messageFds (.unixDomainSocket mask recv answers)) := by
  by_cases hmessage : mask.epollhup = false ∧ mask.epollerr = false ∧
      ∃ fd unset, recv = .message fd unset
  · obtain ⟨hhup, herr, fd, unset, rfl⟩ := hmessage
    have hfds : messageFds (.unixDomainSocket mask (.message fd unset) answers) =
        [fd.getD unset] := by
      simp [messageFds, hhup, herr]
    rw [hfds]
    rcases handle_message config answers fd unset inv.count hhup herr with
      hfull | ⟨index, _, hadd⟩
    · rw [h] at hfull
      cases hfull
      exact ⟨rfl, List.prefix_append _ _⟩
    · rw [h] at hadd
      obtain ⟨ev, _, hcall⟩ := bind_eq_ok.mp hadd.symm
      have hlogs := workerStateMachine_logs hcall
      exact ⟨hlogs.received.trans (List.append_nil _), hlogs.closed⟩
  · have hfds : messageFds (.unixDomainSocket mask recv answers) = [] := by
      cases recv with
      | fail errno => rfl
      | endOfFile => rfl
      | message fd unset =>
        rw [messageFds, if_pos]
        by_contra hnone
        simp only [not_or, Bool.not_eq_true] at hnone
        exact hmessage ⟨hnone.1, hnone.2, fd, unset, rfl⟩
    rw [hfds]
    rcases handle_cases config answers recv with hsame | hunset | hcase
    · rw [hsame] at h
      cases h
      exact logs_refl w
    · rw [hunset] at h
      exact withoutUnixSocket_logs h
    · exact absurd hcase hmessage

theorem handlerCall_logs {config : ServerConfig} {w next : Worker} {c : HandlerCall}
    (inv : TableInv config w) (h : handlerCall config w c = .ok next) :
    Logs w next (messageFds c) := by
  cases c with
  | unixDomainSocket mask recv answers => exact unixSocket_logs inv h
  | connection address mask now answers => exact connectionEvent_logs h
  | timer mask now answers => exact timerExpire_logs h

/-- The descriptors a handler starts with, and the one it receives, are those it
closes and those it leaves open. -/
lemma held_split {config : ServerConfig} {w next : Worker} {fds : List Int}
    (before : TableInv config w) (after : TableInv config next) (logs : Logs w next fds) :
    (heldFds w ++ fds).Perm (next.closed.drop w.closed.length ++ heldFds next) := by
  obtain ⟨newly, hnewly⟩ := logs.closed
  have hdrop : next.closed.drop w.closed.length = newly := by rw [← hnewly, List.drop_left]
  have hreceived := before.descriptors.append_right fds
  have hnext := after.descriptors
  rw [logs.received, ← hnewly, List.append_assoc] at hnext
  rw [List.append_assoc] at hreceived
  rw [hdrop]
  exact (List.perm_append_left_iff w.closed).mp (hreceived.symm.trans hnext)

/-- The ledger of a worker process. -/
structure ProcessInv (config : ServerConfig) (p : WorkerProcess) : Prop where
  table : TableInv config p.worker
  tracks : Tracks p.table (heldFds p.worker)
  sent : p.sent = p.delivered ++ p.channel
  delivered : p.delivered.Perm (p.closed ++ p.opened)
  received : p.delivered.length = p.worker.received.length
  closes : p.closed.length = p.worker.closed.length

lemma notOpen_of_free {config : ServerConfig} {p : WorkerProcess} {fd : Int}
    (inv : ProcessInv config p) (h : FreeFd p fd) : NotOpen p.worker fd := by
  refine ⟨h.range, h.unixSocket, h.timer, fun hheld => ?_⟩
  have hopen := (inv.tracks.open_iff fd).mpr hheld
  rw [h.unused] at hopen
  cases hopen

/-- A handler that has received `fds` under the names `connections`. -/
lemma handled_inv {config : ServerConfig} {p q : WorkerProcess} {next : Worker} {fds : List Int}
    (c : HandlerCall) (inv : ProcessInv config p) (after : TableInv config next)
    (logs : Logs p.worker next fds)
    (worker : q.worker = p.worker) (tracks : Tracks q.table (heldFds p.worker ++ fds))
    (closed : q.closed = p.closed) (sent : q.sent = q.delivered ++ q.channel)
    (delivered : q.delivered.Perm (p.closed ++ names q.table (heldFds p.worker ++ fds)))
    (received : q.delivered.length = p.delivered.length + fds.length) :
    ProcessInv config (q.handled config c next) := by
  have hsplit := held_split inv.table after logs
  rw [← worker] at hsplit tracks delivered
  obtain ⟨htracks, hnames, hlength⟩ := tracks.close hsplit
  refine ⟨after, htracks, sent, ?_, ?_, ?_⟩
  · change q.delivered.Perm (q.closed ++ (closeAll q.table _).2 ++ _)
    rw [closed, List.append_assoc]
    exact delivered.trans (hnames.append_left p.closed)
  · change q.delivered.length = next.received.length
    rw [received, inv.received, logs.received, List.length_append]
  · change (q.closed ++ (closeAll q.table _).2).length = next.closed.length
    obtain ⟨newly, hnewly⟩ := logs.closed
    rw [List.length_append, hlength, closed, inv.closes, worker, ← hnewly, List.drop_left,
      List.length_append]

/-- A handler that no message is for. -/
theorem handles_inv {config : ServerConfig} {p : WorkerProcess} {c : HandlerCall} {next : Worker}
    (inv : ProcessInv config p) (quiet : messageFds c = []) (after : TableInv config next)
    (h : handlerCall config p.worker c = .ok next) :
    ProcessInv config (p.handled config c next) := by
  have logs := handlerCall_logs inv.table h
  rw [quiet] at logs
  have hheld : heldFds p.worker ++ [] = heldFds p.worker := List.append_nil _
  apply handled_inv c inv after logs rfl _ rfl inv.sent _ rfl
  · rw [hheld]
    exact inv.tracks
  · rw [hheld]
    exact inv.delivered

/-- A message comes with its descriptor. -/
theorem receives_inv {config : ServerConfig} {p : WorkerProcess} {connection : Nat}
    {rest : List Nat} {fd unset : Int} {mask : EventMask} {answers : Nat → SysAnswers}
    {next : Worker} (inv : ProcessInv config p) (channel : p.channel = connection :: rest)
    (free : FreeFd p fd) (hup : mask.epollhup = false) (err : mask.epollerr = false)
    (after : TableInv config next) (h : handlerCall config p.worker
      (.unixDomainSocket mask (.message (some fd) unset) answers) = .ok next) :
    ProcessInv config ((p.received fd connection rest).handled config
      (.unixDomainSocket mask (.message (some fd) unset) answers) next) := by
  have logs := handlerCall_logs inv.table h
  have hfds : messageFds (.unixDomainSocket mask (.message (some fd) unset) answers) = [fd] := by
    simp [messageFds, hup, err]
  rw [hfds] at logs
  obtain ⟨htracks, hnames⟩ := inv.tracks.install free.unused connection
  refine @handled_inv config p (p.received fd connection rest) next [fd] _ inv after logs rfl
    htracks rfl ?_ ?_ ?_
  · change p.sent = p.delivered ++ [connection] ++ rest
    rw [inv.sent, channel, List.append_assoc, List.singleton_append]
  · change (p.delivered ++ [connection]).Perm
      (p.closed ++ names (Function.update p.table fd (some connection)) _)
    rw [hnames, ← List.append_assoc]
    exact inv.delivered.append_right [connection]
  · change (p.delivered ++ [connection]).length = _
    rw [List.length_append]
    rfl

/-- A process whose worker, table and ledger stay is accounted for as before. -/
lemma ProcessInv.carry {config : ServerConfig} {p q : WorkerProcess} (inv : ProcessInv config p)
    (worker : q.worker = p.worker) (table : q.table = p.table)
    (sent : q.sent = q.delivered ++ q.channel) (delivered : q.delivered = p.delivered)
    (closed : q.closed = p.closed) : ProcessInv config q := by
  obtain ⟨htable, htracks, _, hdelivered, hreceived, hcloses⟩ := inv
  rw [WorkerProcess.opened, ← worker, ← table, ← closed, ← delivered] at hdelivered
  rw [← worker, ← delivered] at hreceived
  rw [← worker, ← closed] at hcloses
  rw [← worker] at htable htracks
  rw [← table] at htracks
  exact ⟨htable, htracks, sent, hdelivered, hreceived, hcloses⟩

/-- A worker process that has ended by itself: nothing it received is open in it. -/
structure Ended (p : WorkerProcess) : Prop where
  sent : p.sent = p.delivered ++ p.channel
  delivered : p.delivered.Perm p.closed
  opened : p.opened = []
  closes : p.closed.length = p.worker.closed.length

/-- A worker leaves its loop with an empty table, and its cleanup keeps it so. -/
lemma finish_ended {config : ServerConfig} {p q : WorkerProcess} {shutdown : Bool} {next : Worker}
    {fds : List Int} (inv : ProcessInv config p) (finished : ¬ loopGoesOn shutdown p.worker)
    (h : workerFinish p.worker = .ok (next, fds))
    (same : q = { p with worker := next, exited := true }) : Ended q := by
  have hzero : p.worker.curConnectionNumber = 0 := by
    rw [loopGoesOn, not_or] at finished
    exact Nat.eq_zero_of_not_pos finished.2
  have hheld : heldFds p.worker = [] := by
    have hempty := inv.table.count
    rw [hzero] at hempty
    rw [heldFds, List.eq_nil_iff_forall_not_mem]
    intro fd hfd
    obtain ⟨i, a, hi, _⟩ := exists_slot hfd
    have hslot := occupied_clear hi
    omega
  have hopened : p.opened = [] := by
    rw [WorkerProcess.opened, hheld]
    rfl
  obtain ⟨_, _, h⟩ := bind_eq_ok.mp h
  obtain ⟨_, _, h⟩ := bind_eq_ok.mp h
  obtain ⟨_, _, h⟩ := bind_eq_ok.mp h
  obtain ⟨_, _, h⟩ := bind_eq_ok.mp h
  cases h
  subst same
  have hdelivered := inv.delivered
  rw [hopened, List.append_nil] at hdelivered
  exact ⟨inv.sent, hdelivered, rfl, inv.closes⟩

lemma taken_length {s t : Main} {event : MainEvent} (taken : Taken s event t) :
    t.child.length = s.child.length := by
  cases taken with
  | marks pid => exact List.length_map _
  | sent i _ => exact List.length_modify _ _ _
  | _ => rfl

lemma taken_pid {s t : Main} {event : MainEvent} (taken : Taken s event t) (i : Nat) :
    t.child[i]?.map ServerChild.pid = s.child[i]?.map ServerChild.pid := by
  cases taken with
  | marks pid =>
    have hpid : ServerChild.pid ∘ markExited pid = ServerChild.pid := by
      funext c
      simp only [Function.comp_apply, markExited]
      split <;> rfl
    rw [List.getElem?_map, Option.map_map, hpid]
  | sent j _ =>
    rw [List.getElem?_modify]
    cases s.child[i]? with
    | none => rfl
    | some c =>
      change some (if j = i then countSent c else c).pid = some c.pid
      split <;> rfl
  | _ => rfl

lemma alive_of_update {process : Nat → ProcessState} {gone pid : Nat} {state : ProcessState}
    (ended : state ≠ .alive) (alive : Function.update process gone state pid = .alive) :
    process pid = .alive := by
  by_cases hpid : pid = gone
  · subst hpid
    rw [Function.update_self] at alive
    exact absurd alive ended
  · exact (Function.update_of_ne hpid _ _).symm.trans alive

/-- A process that is alive behind a step was alive in front of it. -/
lemma taken_alive {s t : Main} {event : MainEvent} (taken : Taken s event t) {pid : Nat}
    (alive : t.process pid = .alive) : s.process pid = .alive := by
  cases taken with
  | exit gone _ => exact alive_of_update ProcessState.noConfusion alive
  | reaps gone _ _ => exact alive_of_update ProcessState.noConfusion alive
  | _ => exact alive

lemma exited_gone {s t : Main} {pid : Nat} (taken : Taken s (.exit pid) t) :
    t.process pid ≠ .alive := by
  cases taken with
  | exit =>
    change Function.update s.process pid ProcessState.zombie pid ≠ .alive
    rw [Function.update_self]
    exact ProcessState.noConfusion

lemma alive_back {s t : System} {event : MainEvent} (taken : Taken s.main event t.main) {i : Nat}
    (alive : t.Alive i) : s.Alive i := by
  obtain ⟨c, hc, hprocess⟩ := alive
  have hpid := taken_pid taken i
  rw [hc] at hpid
  obtain ⟨d, hd, hsame⟩ := Option.map_eq_some_iff.mp hpid.symm
  exact ⟨d, hd, taken_alive taken (hsame ▸ hprocess)⟩

/-- Only a descriptor that is sent changes a counter. -/
lemma taken_sentNumber {s t : Main} {event : MainEvent} (taken : Taken s event t)
    (other : event ≠ .send true) : sentNumber t.child = sentNumber s.child := by
  cases taken with
  | marks pid => exact sentNumber_mark s.child pid
  | sent i _ => exact absurd rfl other
  | _ => rfl

/-- Whether the main process has a connection in its hand. -/
def Holding : Place → Prop
  | .pick => True
  | .send _ => True
  | _ => False

/-- All connections that have been sent to workers. -/
def allSent (s : System) : List Nat :=
  (List.range s.main.child.length).flatMap fun i => (s.worker i).sent

lemma flatMap_extended {α : Type} {f g : Nat → List α} {i : Nat} {a : α} {indices : List Nat}
    (distinct : indices.Nodup) (mem : i ∈ indices) (here : g i = f i ++ [a])
    (others : ∀ j, j ≠ i → g j = f j) : (indices.flatMap g).Perm (a :: indices.flatMap f) := by
  induction indices with
  | nil => exact absurd mem List.not_mem_nil
  | cons j rest ih =>
    obtain ⟨hj, hrest⟩ := List.nodup_cons.mp distinct
    rw [List.flatMap_cons, List.flatMap_cons]
    rcases List.mem_cons.mp mem with rfl | hi
    · have hsame : rest.flatMap g = rest.flatMap f :=
        List.flatMap_congr fun k hk => others k (ne_of_mem_of_not_mem hk hj)
      rw [here, hsame, List.append_assoc]
      exact List.perm_middle
    · rw [others j (ne_of_mem_of_not_mem hi hj).symm]
      exact ((ih hrest hi).append_left (f j)).trans List.perm_middle

/-- What the main process has accepted is in its hand, refused or sent; the
connections go to each worker in the order they have come, and its counter is
their number. -/
structure MainSide (s : System) : Prop where
  balanced : Balanced s.main
  counters : ∀ i, i < s.main.child.length →
    sentNumber s.main.child i = (s.worker i).sent.length
  holding : Holding s.main.place ↔ s.hand.isSome = true
  newest : ∀ c, s.hand = some c → c + 1 = s.accepted
  ordered : ∀ i, i < s.main.child.length → (s.worker i).sent.Pairwise (· < ·)
  older : ∀ i, i < s.main.child.length → ∀ c ∈ (s.worker i).sent, c < s.hand.getD s.accepted
  conserved : (List.range s.accepted).Perm (s.hand.toList ++ s.refused ++ allSent s)

/-- The workers keep their ledgers, and one that has ended is not alive. -/
structure WorkerSide (config : ServerConfig) (s : System) : Prop where
  working : ∀ i, i < s.main.child.length → (s.worker i).exited = false →
    ProcessInv config (s.worker i)
  ended : ∀ i, i < s.main.child.length → (s.worker i).exited = true →
    Ended (s.worker i) ∧ ¬ s.Alive i

/-- A step of the main process that sends nothing and keeps its hand. -/
lemma MainSide.move {s t : System} {event : MainEvent} (h : MainSide s)
    (taken : Taken s.main event t.main) (other : event ≠ .send true)
    (place : Holding t.main.place ↔ Holding s.main.place) (hand : t.hand = s.hand)
    (accepted : t.accepted = s.accepted) (refused : t.refused = s.refused)
    (sent : ∀ i, (t.worker i).sent = (s.worker i).sent) : MainSide t := by
  have hlength := taken_length taken
  have hall : allSent t = allSent s := by
    rw [allSent, allSent, hlength]
    exact List.flatMap_congr fun i _ => sent i
  constructor
  · exact taken_balanced h.balanced taken
  · intro i hi
    rw [taken_sentNumber taken other, sent]
    exact h.counters i (hlength ▸ hi)
  · rw [place, hand]
    exact h.holding
  · rw [hand, accepted]
    exact h.newest
  · intro i hi
    rw [sent]
    exact h.ordered i (hlength ▸ hi)
  · intro i hi
    rw [sent, hand, accepted]
    exact h.older i (hlength ▸ hi)
  · rw [hand, accepted, refused, hall]
    exact h.conserved

/-- A step of the main process in which no connection is handed over. -/
lemma MainSide.stay {s t : System} (h : MainSide s) (main : t.main = s.main)
    (hand : t.hand = s.hand) (accepted : t.accepted = s.accepted) (refused : t.refused = s.refused)
    (sent : ∀ i, (t.worker i).sent = (s.worker i).sent) : MainSide t := by
  have hall : allSent t = allSent s := by
    rw [allSent, allSent, main]
    exact List.flatMap_congr fun i _ => sent i
  constructor
  · rw [main]
    exact h.balanced
  · intro i hi
    rw [main] at hi ⊢
    rw [sent]
    exact h.counters i hi
  · rw [main, hand]
    exact h.holding
  · rw [hand, accepted]
    exact h.newest
  · intro i hi
    rw [main] at hi
    rw [sent]
    exact h.ordered i hi
  · intro i hi
    rw [main] at hi
    rw [sent, hand, accepted]
    exact h.older i hi
  · rw [hand, accepted, refused, hall]
    exact h.conserved

lemma WorkerSide.move {config : ServerConfig} {s t : System} {event : MainEvent}
    (h : WorkerSide config s) (taken : Taken s.main event t.main) (worker : t.worker = s.worker) :
    WorkerSide config t := by
  have hlength := taken_length taken
  constructor
  · intro i hi
    rw [worker]
    exact h.working i (hlength ▸ hi)
  · intro i hi
    rw [worker]
    intro hexited
    obtain ⟨hended, hgone⟩ := h.ended i (hlength ▸ hi) hexited
    exact ⟨hended, mt (alive_back taken) hgone⟩

/-- One worker process is replaced by another. -/
lemma WorkerSide.replace {config : ServerConfig} {s : System} {i : Nat} {p : WorkerProcess}
    (h : WorkerSide config s)
    (working : i < s.main.child.length → p.exited = false → ProcessInv config p)
    (ended : i < s.main.child.length → p.exited = true → Ended p ∧ ¬ s.Alive i) :
    WorkerSide config (s.setWorker i p) := by
  have hother : ∀ j, j ≠ i → (s.setWorker i p).worker j = s.worker j :=
    fun j hji => Function.update_of_ne hji _ _
  have hself : (s.setWorker i p).worker i = p := Function.update_self _ _ _
  constructor
  · intro j hj
    by_cases hji : j = i
    · subst hji
      rw [hself]
      exact working hj
    · rw [hother j hji]
      exact h.working j hj
  · intro j hj
    by_cases hji : j = i
    · subst hji
      rw [hself]
      exact ended hj
    · rw [hother j hji]
      exact h.ended j hj

/-- The process has not ended, before or after. -/
lemma WorkerSide.goesOn {config : ServerConfig} {s : System} {i : Nat} {p : WorkerProcess}
    (h : WorkerSide config s) (running : p.exited = false) (after : ProcessInv config p) :
    WorkerSide config (s.setWorker i p) := by
  apply h.replace
  · exact fun _ _ => after
  · intro _ hexited
    rw [running] at hexited
    cases hexited

lemma sent_setWorker {s : System} {i : Nat} {p : WorkerProcess} (same : p.sent = (s.worker i).sent)
    (j : Nat) : ((s.setWorker i p).worker j).sent = (s.worker j).sent := by
  by_cases hji : j = i
  · subst hji
    rw [System.setWorker_self]
    exact same
  · rw [show (s.setWorker i p).worker j = s.worker j from Function.update_of_ne hji _ _]

lemma alive_lt {s : System} {i : Nat} (h : s.Alive i) : i < s.main.child.length := by
  obtain ⟨c, hc, _⟩ := h
  exact (List.getElem?_eq_some_iff.mp hc).1

lemma WorkerSide.alive_inv {config : ServerConfig} {s : System} {i : Nat}
    (h : WorkerSide config s) (alive : s.Alive i) :
    (s.worker i).exited = false ∧ ProcessInv config (s.worker i) := by
  have hrunning : (s.worker i).exited = false := by
    by_contra hexited
    exact (h.ended i (alive_lt alive) (Bool.not_eq_false _ ▸ hexited)).2 alive
  exact ⟨hrunning, h.working i (alive_lt alive) hrunning⟩

lemma silent_place {s t : Main} {event : MainEvent} (silent : Silent event)
    (taken : Taken s event t) : ¬ Holding s.place ∧ ¬ Holding t.place := by
  cases taken with
  | exit => exact silent.elim
  | flagSet place => exact ⟨by rw [place]; exact id, id⟩
  | flagClear place => exact ⟨by rw [place]; exact id, id⟩
  | reaps _ place => exact ⟨by rw [place]; exact id, id⟩
  | drained place => exact ⟨by rw [place]; exact id, id⟩
  | marks _ place => exact ⟨by rw [place]; exact id, id⟩
  | clears place => exact ⟨by rw [place]; exact id, id⟩
  | accepts connected place =>
    have hfailed : connected = false := silent
    subst hfailed
    exact ⟨by rw [place]; exact id, id⟩
  | nobody => exact silent.elim
  | picks => exact silent.elim
  | sent => exact silent.elim
  | unsent => exact silent.elim

lemma silent_not_send {event : MainEvent} (silent : Silent event) : event ≠ .send true := by
  rintro rfl
  exact silent

/-- A new connection is the newest one, and in nobody else's hand. -/
lemma accepts_main {s t : System} (h : MainSide s) (taken : Taken s.main (.accept true) t.main)
    (hand : t.hand = some s.accepted) (accepted : t.accepted = s.accepted + 1)
    (refused : t.refused = s.refused) (worker : t.worker = s.worker) : MainSide t := by
  have hlength := taken_length taken
  have hempty : s.hand = none := by
    generalize t.main = last at taken
    cases taken with
    | accepts _ place =>
      have hnot : ¬ s.hand.isSome = true := by
        rw [← h.holding, place]
        exact id
      exact Option.not_isSome_iff_eq_none.mp hnot
  have hplace : Holding t.main.place := by
    generalize t.main = last at taken
    cases taken with
    | accepts _ _ => trivial
  have hall : allSent t = allSent s := by rw [allSent, allSent, hlength, worker]
  constructor
  · exact taken_balanced h.balanced taken
  · intro i hi
    rw [taken_sentNumber taken MainEvent.noConfusion, worker]
    exact h.counters i (hlength ▸ hi)
  · rw [hand]
    exact iff_of_true hplace rfl
  · intro c hc
    rw [hand] at hc
    cases hc
    exact accepted.symm
  · intro i hi
    rw [worker]
    exact h.ordered i (hlength ▸ hi)
  · intro i hi c hc
    rw [worker] at hc
    have hold := h.older i (hlength ▸ hi) c hc
    rw [hempty] at hold
    rw [hand]
    exact hold
  · have hconserved := h.conserved
    rw [hempty] at hconserved
    rw [accepted, List.range_succ, hand, refused, hall]
    exact (List.perm_append_singleton _ _).trans (hconserved.cons s.accepted)

/-- The connection in the hand goes elsewhere. -/
lemma hand_free {s : System} (h : MainSide s) {c : Nat} (hand : s.hand = some c) :
    ∀ i, i < s.main.child.length → ∀ d ∈ (s.worker i).sent, d < s.accepted := by
  intro i hi d hd
  have hold := h.older i hi d hd
  have hnew := h.newest c hand
  rw [hand, Option.getD_some] at hold
  omega

lemma refuses_main {s t : System} {event : MainEvent} {c : Nat} (h : MainSide s)
    (taken : Taken s.main event t.main) (other : event ≠ .send true)
    (place : ¬ Holding t.main.place) (before : s.hand = some c) (hand : t.hand = none)
    (accepted : t.accepted = s.accepted) (refused : t.refused = s.refused ++ [c])
    (worker : t.worker = s.worker) : MainSide t := by
  have hlength := taken_length taken
  have hall : allSent t = allSent s := by rw [allSent, allSent, hlength, worker]
  constructor
  · exact taken_balanced h.balanced taken
  · intro i hi
    rw [taken_sentNumber taken other, worker]
    exact h.counters i (hlength ▸ hi)
  · rw [hand]
    exact iff_of_false place Bool.false_ne_true
  · intro d hd
    rw [hand] at hd
    cases hd
  · intro i hi
    rw [worker]
    exact h.ordered i (hlength ▸ hi)
  · intro i hi
    rw [worker, hand, accepted]
    exact hand_free h before i (hlength ▸ hi)
  · have hconserved := h.conserved
    rw [before] at hconserved
    rw [accepted, hand, refused, hall]
    refine hconserved.trans (List.Perm.append_right (allSent s) ?_)
    exact (List.perm_append_singleton c s.refused).symm

/-- The connection is put behind those that its worker has been sent before. -/
lemma sends_main {s t : System} {i c : Nat} {p : WorkerProcess} (h : MainSide s)
    (taken : Taken s.main (.send true) t.main) (place : s.main.place = .send i)
    (before : s.hand = some c) (hand : t.hand = none) (accepted : t.accepted = s.accepted)
    (refused : t.refused = s.refused) (sent : p.sent = (s.worker i).sent ++ [c])
    (worker : t.worker = Function.update s.worker i p) : MainSide t := by
  obtain ⟨child, hchild, hleast⟩ := h.balanced.picked i place
  have hi : i < s.main.child.length := (List.getElem?_eq_some_iff.mp hchild).1
  have hlength := taken_length taken
  have hself : t.worker i = p := by
    rw [worker]
    exact Function.update_self _ _ _
  have hother : ∀ j, j ≠ i → t.worker j = s.worker j := by
    intro j hj
    rw [worker]
    exact Function.update_of_ne hj _ _
  have hnumber : sentNumber t.main.child =
      Function.update (sentNumber s.main.child) i (sentNumber s.main.child i + 1) := by
    generalize t.main = last at taken
    cases taken with
    | sent k hplace =>
      rw [place] at hplace
      cases hplace
      exact sentNumber_count hchild hleast.below
  have hplace : ¬ Holding t.main.place := by
    generalize t.main = last at taken
    cases taken with
    | sent _ _ => exact id
  constructor
  · exact taken_balanced h.balanced taken
  · intro j hj
    rw [hnumber]
    by_cases hji : j = i
    · subst hji
      rw [Function.update_self, hself, sent, List.length_append, h.counters j hi]
      rfl
    · rw [Function.update_of_ne hji, hother j hji]
      exact h.counters j (hlength ▸ hj)
  · rw [hand]
    exact iff_of_false hplace Bool.false_ne_true
  · intro d hd
    rw [hand] at hd
    cases hd
  · intro j hj
    by_cases hji : j = i
    · subst hji
      rw [hself, sent, List.pairwise_append]
      refine ⟨h.ordered j hi, List.pairwise_singleton _ _, fun d hd e he => ?_⟩
      have hold := h.older j hi d hd
      rw [before, Option.getD_some] at hold
      rwa [List.mem_singleton.mp he]
    · rw [hother j hji]
      exact h.ordered j (hlength ▸ hj)
  · intro j hj d hd
    rw [hand, accepted, Option.getD_none]
    by_cases hji : j = i
    · subst hji
      rw [hself, sent, List.mem_append, List.mem_singleton] at hd
      rcases hd with hd | rfl
      · exact hand_free h before j hi d hd
      · have hnew := h.newest d before
        omega
    · rw [hother j hji] at hd
      exact hand_free h before j (hlength ▸ hj) d hd
  · have hall : (allSent t).Perm (c :: allSent s) := by
      rw [allSent, hlength]
      apply flatMap_extended List.nodup_range (List.mem_range.mpr hi)
      · rw [hself, sent]
      · exact fun j hj => congrArg WorkerProcess.sent (hother j hj)
    have hconserved := h.conserved
    rw [before] at hconserved
    rw [accepted, hand, refused]
    refine hconserved.trans ?_
    exact (List.perm_middle.symm.trans (hall.symm.append_left s.refused))

theorem step_mainSide {config : ServerConfig} {s t : System} (h : MainSide s)
    (step : Step config admits s t) : MainSide t := by
  cases step with
  | signal signo => exact h.stay rfl rfl rfl rfl fun _ => rfl
  | signalWorker i signo => exact h.stay rfl rfl rfl rfl (sent_setWorker rfl)
  | enters => exact h.stay rfl rfl rfl rfl fun _ => rfl
  | leaves => exact h.stay rfl rfl rfl rfl fun _ => rfl
  | moves event main _ silent step =>
    have htaken := step_taken step
    obtain ⟨hbefore, hafter⟩ := silent_place silent htaken
    exact h.move htaken (silent_not_send silent) (iff_of_false hafter hbefore) rfl rfl rfl
      fun _ => rfl
  | accepts main _ step => exact accepts_main h (step_taken step) rfl rfl rfl rfl
  | picks main _ step found =>
    have htaken := step_taken step
    have hplaces : Holding s.main.place ∧ Holding main.place := by
      cases htaken with
      | nobody => exact absurd rfl found
      | picks place => exact ⟨by rw [place]; trivial, trivial⟩
    exact h.move htaken MainEvent.noConfusion (iff_of_true hplaces.2 hplaces.1) rfl rfl rfl
      fun _ => rfl
  | refuses main c _ step back hand =>
    refine refuses_main h (step_taken step) MainEvent.noConfusion ?_ hand rfl rfl rfl rfl
    change ¬ Holding main.place
    rw [back]
    exact id
  | sends main i c _ place _ step hand =>
    exact sends_main h (step_taken step) place hand rfl rfl rfl rfl rfl
  | sendFails main c _ step hand =>
    have htaken := step_taken step
    have hplace : ¬ Holding main.place := by
      cases htaken with
      | unsent => exact id
    exact refuses_main h htaken (by decide) hplace hand rfl rfl rfl rfl
  | kills => exact h.stay rfl rfl rfl rfl fun _ => rfl
  | polls i => exact h.stay rfl rfl rfl rfl (sent_setWorker rfl)
  | batchEnds i => exact h.stay rfl rfl rfl rfl (sent_setWorker rfl)
  | handles i c next => exact h.stay rfl rfl rfl rfl (sent_setWorker rfl)
  | receives i c rest fd unset mask answers next =>
    exact h.stay rfl rfl rfl rfl (sent_setWorker rfl)
  | exits i c main next fds _ step =>
    have htaken := step_taken step
    have hplace : main.place = s.main.place := by
      cases htaken with
      | exit => rfl
    refine h.move htaken MainEvent.noConfusion ?_ rfl rfl rfl
      (@sent_setWorker { s with main := main } i _ rfl)
    change Holding main.place ↔ _
    rw [hplace]
  | dies i c main _ step =>
    have htaken := step_taken step
    have hplace : main.place = s.main.place := by
      cases htaken with
      | exit => rfl
    refine h.move htaken MainEvent.noConfusion ?_ rfl rfl rfl fun _ => rfl
    change Holding main.place ↔ _
    rw [hplace]

lemma handles_table {config : ServerConfig} {w next : Worker} {c : HandlerCall}
    (inv : TableInv config w) (quiet : messageFds c = []) (registered : Registered w c)
    (h : handlerCall config w c = .ok next) : TableInv config next := by
  have kept : ∀ result, KeepsTable config result → result = .ok next → TableInv config next := by
    rintro _ (⟨last, rfl, hlast⟩ | ⟨_, rfl, _⟩) heq
    · cases heq
      exact hlast
    · cases heq
  cases c with
  | unixDomainSocket mask recv answers =>
    change unixDomainSocketHandle config mask recv answers w = .ok next at h
    rcases handle_cases config answers recv with hsame | hunset | ⟨hup, herr, fd, unset, rfl⟩
    · rw [hsame] at h
      cases h
      exact inv
    · rw [hunset] at h
      exact kept _ (withoutUnixSocket_keeps inv) h
    · simp [messageFds, hup, herr] at quiet
  | connection address mask now answers =>
    exact kept _ (@handlerCall_keeps config w inv (.connection address mask now answers)
      registered) h
  | timer mask now answers => exact kept _ (timerHandler_keeps mask now answers inv) h

theorem step_workerSide {config : ServerConfig} {s t : System} (h : WorkerSide config s)
    (step : Step config admits s t) : WorkerSide config t := by
  cases step with
  | signal signo => exact ⟨h.working, h.ended⟩
  | signalWorker i signo =>
    apply h.replace
    · intro hi hrunning
      have hinv := h.working i hi hrunning
      exact hinv.carry rfl rfl hinv.sent rfl rfl
    · intro hi hexited
      obtain ⟨hend, hgone⟩ := h.ended i hi hexited
      exact ⟨⟨hend.sent, hend.delivered, hend.opened, hend.closes⟩, hgone⟩
  | enters => exact ⟨h.working, h.ended⟩
  | leaves => exact ⟨h.working, h.ended⟩
  | moves event main _ _ step => exact h.move (step_taken step) rfl
  | accepts main _ step => exact h.move (step_taken step) rfl
  | picks main _ step => exact h.move (step_taken step) rfl
  | refuses main c _ step => exact h.move (step_taken step) rfl
  | sends main i c _ _ alive step =>
    obtain ⟨hrunning, hinv⟩ := h.alive_inv alive
    have hmoved : WorkerSide config (s.setMain main) := h.move (step_taken step) rfl
    have hsent := hinv.sent
    have hextended : (s.worker i).sent ++ [c] =
        (s.worker i).delivered ++ ((s.worker i).channel ++ [c]) := by
      rw [hsent, List.append_assoc]
    have hcarried := @ProcessInv.carry config (s.worker i) { s.worker i with
      channel := (s.worker i).channel ++ [c], sent := (s.worker i).sent ++ [c] }
      hinv rfl rfl hextended rfl rfl
    have hside := @WorkerSide.goesOn config _ i { s.worker i with
      channel := (s.worker i).channel ++ [c], sent := (s.worker i).sent ++ [c] }
      hmoved hrunning hcarried
    exact ⟨hside.working, hside.ended⟩
  | sendFails main c _ step => exact h.move (step_taken step) rfl
  | kills =>
    constructor
    · intro i hi hrunning
      have hinv := h.working i hi hrunning
      exact hinv.carry rfl rfl hinv.sent rfl rfl
    · intro i hi hexited
      obtain ⟨hend, hgone⟩ := h.ended i hi hexited
      exact ⟨⟨hend.sent, hend.delivered, hend.opened, hend.closes⟩, hgone⟩
  | polls i alive =>
    obtain ⟨hrunning, hinv⟩ := h.alive_inv alive
    exact h.goesOn hrunning (hinv.carry rfl rfl hinv.sent rfl rfl)
  | batchEnds i alive =>
    obtain ⟨hrunning, hinv⟩ := h.alive_inv alive
    exact h.goesOn hrunning (hinv.carry rfl rfl hinv.sent rfl rfl)
  | handles i c next alive _ quiet registered _ call =>
    obtain ⟨hrunning, hinv⟩ := h.alive_inv alive
    exact h.goesOn hrunning
      (handles_inv hinv quiet (handles_table hinv.table quiet registered call) call)
  | receives i c rest fd unset mask answers next alive _ hup herr channel free _ call =>
    obtain ⟨hrunning, hinv⟩ := h.alive_inv alive
    have hpermitted : Permitted (s.worker i).worker
        (.unixDomainSocket mask (.message (some fd) unset) answers) :=
      ⟨fd, rfl, notOpen_of_free hinv free⟩
    have hafter : TableInv config next := by
      rcases handlerCall_keeps hinv.table hpermitted with ⟨last, hlast, hok⟩ | ⟨_, herror, _⟩
      · rw [call] at hlast
        cases hlast
        exact hok
      · rw [call] at herror
        cases herror
    exact h.goesOn hrunning (receives_inv hinv channel free hup herr hafter call)
  | exits i c main next fds child step _ finished finish =>
    have htaken := step_taken step
    have halive : s.Alive i := by
      refine ⟨c, child, ?_⟩
      cases htaken with
      | exit _ halive => exact halive
    have hgone : ¬ System.Alive { s with main := main } i := by
      rintro ⟨d, hd, hprocess⟩
      have hpid := taken_pid htaken i
      have hd' : main.child[i]? = some d := hd
      rw [hd', child] at hpid
      rw [Option.some.inj hpid] at hprocess
      exact exited_gone htaken hprocess
    obtain ⟨hrunning, hinv⟩ := h.alive_inv halive
    have hend := finish_ended hinv finished finish rfl
    have hmoved : WorkerSide config { s with main := main } := h.move htaken rfl
    apply hmoved.replace
    · intro _ hstill
      cases hstill
    · exact fun _ _ => ⟨hend, hgone⟩
  | dies i c main _ step => exact h.move (step_taken step) rfl

lemma start_empty {maxFd sizes : Nat} {epollCtl : CtlAnswers} {unixFd timerFd now : Int}
    {w : Worker} (h : workerStart maxFd epollCtl sizes unixFd timerFd now = .ok w) :
    heldFds w = [] ∧ w.received = [] ∧ w.closed = [] := by
  obtain ⟨_, _, h⟩ := bind_eq_ok.mp h
  obtain ⟨_, _, h⟩ := bind_eq_ok.mp h
  obtain ⟨_, _, h⟩ := bind_eq_ok.mp h
  obtain ⟨_, _, h⟩ := bind_eq_ok.mp h
  cases h
  exact ⟨held_replicate _ sizes, rfl, rfl⟩

lemma begun_mainSide {start : System} (begun : Begun start) : MainSide start := by
  have hsent : ∀ i, (start.worker i).sent = [] := fun i => (begun.fresh i).2.2.2.2.2.1
  constructor
  · exact started_balanced begun.main
  · intro i hi
    have hc := begun.main.running _ (List.getElem_mem hi)
    rw [sentNumber_of (List.getElem?_eq_getElem hi), hsent]
    exact hc.2
  · rw [begun.main.place, begun.hand]
    exact iff_of_false id Bool.false_ne_true
  · intro c hc
    rw [begun.hand] at hc
    cases hc
  · intro i _
    rw [hsent]
    exact List.Pairwise.nil
  · intro i _ c hc
    rw [hsent] at hc
    cases hc
  · have hall : allSent start = [] := List.flatMap_eq_nil_iff.mpr fun i _ => hsent i
    rw [begun.accepted, begun.hand, begun.refused, hall]
    exact List.Perm.refl _

lemma begun_workerSide {config : ServerConfig} {start : System} (begun : Begun start) :
    WorkerSide config start := by
  constructor
  · intro i hi _
    obtain ⟨maxFd, epollCtl, sizes, unixFd, timerFd, now, hstart⟩ := begun.started i hi
    obtain ⟨_, _, _, hchannel, htable, hsent, hdelivered, hclosed, _⟩ := begun.fresh i
    have hinv := workerStart_inv config hstart
    obtain ⟨hheld, hreceived, hcloses⟩ := start_empty hstart
    constructor
    · exact hinv
    · rw [htable, hheld]
      exact tracks_none
    · rw [hsent, hdelivered, hchannel]
      rfl
    · rw [WorkerProcess.opened, hheld, hdelivered, hclosed]
      exact List.Perm.refl _
    · rw [hdelivered, hreceived]
      rfl
    · rw [hclosed, hcloses]
      rfl
  · intro i _ hexited
    rw [(begun.fresh i).2.2.1] at hexited
    cases hexited

theorem runs_mainSide {config : ServerConfig} {start s : System} (begun : Begun start)
    (runs : Runs config admits start s) : MainSide s := by
  induction runs with
  | start => exact begun_mainSide begun
  | step _ step ih => exact step_mainSide ih step

theorem runs_workerSide {config : ServerConfig} {start s : System} (begun : Begun start)
    (runs : Runs config admits start s) : WorkerSide config s := by
  induction runs with
  | start => exact begun_workerSide begun
  | step _ step ih => exact step_workerSide ih step

lemma flatMap_perm {α : Type} {f g : Nat → List α} {indices : List Nat}
    (same : ∀ i ∈ indices, (f i).Perm (g i)) : (indices.flatMap f).Perm (indices.flatMap g) := by
  induction indices with
  | nil => exact List.Perm.refl _
  | cons i rest ih =>
    rw [List.flatMap_cons, List.flatMap_cons]
    exact (same i List.mem_cons_self).append (ih fun j hj => same j (List.mem_cons_of_mem _ hj))

/-- Where the connections that a worker has been sent are. -/
lemma WorkerSide.places {config : ServerConfig} {s : System} (h : WorkerSide config s) {i : Nat}
    (hi : i < s.main.child.length) : (s.worker i).sent.Perm
      ((s.worker i).closed ++ (s.worker i).opened ++ (s.worker i).channel) := by
  cases hexited : (s.worker i).exited with
  | false =>
    have hinv := h.working i hi hexited
    rw [hinv.sent]
    exact hinv.delivered.append_right _
  | true =>
    have hend := (h.ended i hi hexited).1
    rw [hend.sent, hend.opened, List.append_nil]
    exact hend.delivered.append_right _

/-- The number of open connections is the counter of the worker. -/
lemma opened_length {config : ServerConfig} {p : WorkerProcess} (inv : ProcessInv config p) :
    p.opened.length = p.worker.curConnectionNumber := by
  have hmeant : ∀ i a : Nat, p.worker.conn[i]? = some (some a) →
      (socketOf p.worker a).isSome = true := by
    intro i a hi
    obtain ⟨conn, hconn, _⟩ := inv.table.slots i a hi
    rw [socketOf, hconn]
    rfl
  calc p.opened.length
      = (heldFds p.worker).length :=
        names_length fun fd hfd => (inv.tracks.open_iff fd).mpr hfd
    _ = occupied p.worker.conn := held_length hmeant
    _ = p.worker.curConnectionNumber := inv.table.count.symm

/-- The server in front of its loop, with two workers that are `w`. -/
def serverOf (w : Worker) : System where
  main := twoWorkers
  flags := .initial
  signals := []
  inBody := false
  left := false
  accepted := 0
  hand := none
  refused := []
  worker := fun _ => ⟨w, .initial, false, false, [], fun _ => none, [], [], [], []⟩

lemma serverOf_begun {maxFd sizes : Nat} {epollCtl : CtlAnswers} {unixFd timerFd now : Int}
    {w : Worker} (h : workerStart maxFd epollCtl sizes unixFd timerFd now = .ok w) :
    Begun (serverOf w) where
  main := twoWorkers_started
  pids := show [100, 101].Nodup by decide
  alive _ _ := rfl
  flags := rfl
  signals := rfl
  inBody := rfl
  left := rfl
  accepted := rfl
  hand := rfl
  refused := rfl
  started _ _ := ⟨maxFd, epollCtl, sizes, unixFd, timerFd, now, h⟩
  fresh _ := ⟨rfl, rfl, rfl, rfl, rfl, rfl, rfl, rfl, rfl⟩

/-- The handler of the first connection: its socket has nothing to read yet. -/
def firstCall : HandlerCall :=
  .unixDomainSocket EventMask.input (.message (some 5) 0) fun _ => SysAnswers.failing

/-- A server whose worker 0 has become `next` by its first connection. -/
structure FirstReceived (next : Worker) (s : System) : Prop where
  accepted : s.accepted = 1
  between : s.main.place = .testFlag ∧ s.inBody = false
  signals : s.signals = []
  workers : s.main.child.length = 2
  alive : s.Alive 0
  inBatch : (s.worker 0).inBatch = true
  running : (s.worker 0).exited = false
  worker : (s.worker 0).worker = next
  delivered : (s.worker 0).delivered = [0]
  opened : (s.worker 0).opened = [0]

/-- One connection, from its `accept` to its first handler in worker 0. -/
lemma first_connection (failing : admits SysAnswers.failing) : ∃ w next s,
    workerStart 16 ctlSucceeds 4 3 4 0 = .ok w ∧
    handlerCall setConfigDefault w firstCall = .ok next ∧
    Runs setConfigDefault admits (serverOf w) s ∧ FirstReceived next s ∧
    (s.worker 0).log = handlerLog setConfigDefault w firstCall := by
  obtain ⟨w, next, hw, hcall, hrange, hunix, htimer, hheld, hnone⟩ : ∃ w next,
      workerStart 16 ctlSucceeds 4 3 4 0 = .ok w ∧
      handlerCall setConfigDefault w firstCall = .ok next ∧
      w.ev.InRange 5 ∧ (5 : Int) ≠ w.unixDomainSocketFd ∧ (5 : Int) ≠ w.timerFd ∧
      heldFds next = [5] ∧ next.closed.drop w.closed.length = [] :=
    ⟨_, _, rfl, rfl, ⟨by decide, by decide⟩, by decide, by decide, by decide, rfl⟩
  have hstart : Runs setConfigDefault admits (serverOf w) (serverOf w) := .start
  have haccepted := ((hstart.step (.enters rfl rfl rfl rfl)).step
    (.moves .testFlag _ rfl trivial rfl)).step (.accepts _ rfl rfl)
  have hsent := (haccepted.step (.picks _ rfl rfl Place.noConfusion)).step
    (.sends _ 0 0 rfl rfl ⟨_, rfl, rfl⟩ rfl rfl)
  have hpolled := hsent.step (.polls 0 ⟨_, rfl, rfl⟩ rfl (Or.inl rfl))
  have hreceived := hpolled.step (.receives 0 0 [] 5 0 EventMask.input _ next ⟨_, rfl, rfl⟩ rfl
    rfl rfl rfl ⟨hrange, hunix, htimer, rfl⟩ (fun _ => failing) hcall)
  refine ⟨w, next, _, hw, hcall, hreceived,
    ⟨rfl, ⟨rfl, rfl⟩, rfl, rfl, ⟨_, rfl, rfl⟩, rfl, rfl, rfl, rfl, ?_⟩, rfl⟩
  change names (closeAll (Function.update (fun _ => none) 5 (some 0))
    (next.closed.drop w.closed.length)).1 (heldFds next) = [0]
  rw [hheld, hnone]
  rfl

/-- An event of the first connection, and its handler. -/
lemma first_handled {start s : System} {next after : Worker} {mask : EventMask} {now : Int}
    {answers : Nat → SysAnswers} (runs : Runs setConfigDefault admits start s)
    (received : FirstReceived next s)
    (node : (next.ev.handlerArray 5).map Fdnode.ctx = some (.connection 0))
    (admitted : ∀ k, admits (answers k))
    (call : handlerCall setConfigDefault next (.connection 0 mask now answers) = .ok after) :
    ∃ t, Runs setConfigDefault admits start t ∧ t.Alive 0 ∧ t.worker 0 =
      (s.worker 0).handled setConfigDefault (.connection 0 mask now answers) after := by
  obtain ⟨n, hn, hctx⟩ := Option.map_eq_some_iff.mp node
  have hstep := runs.step (.handles 0 (.connection 0 mask now answers) after received.alive
    received.inBatch rfl (by rw [received.worker]; exact ⟨5, n, hn, hctx⟩) admitted
    (by rw [received.worker]; exact call))
  refine ⟨_, hstep, received.alive, ?_⟩
  rw [System.setWorker_self]

/-- The places of the connections make up what has been accepted. -/
lemma places_perm {config : ServerConfig} {s : System} (main : MainSide s)
    (worker : WorkerSide config s) : (List.range s.accepted).Perm
      (s.hand.toList ++ s.refused ++ (List.range s.main.child.length).flatMap fun i =>
        (s.worker i).closed ++ (s.worker i).opened ++ (s.worker i).channel) := by
  refine main.conserved.trans (List.Perm.append_left _ ?_)
  exact flatMap_perm fun i hi => worker.places (List.mem_range.mp hi)

/-- Every connection is accounted for. Whatever the order in which the main
process, the workers and the signals have taken their steps, each connection
that has been accepted is in exactly one place: in the hand of the main
process, refused by it, or at exactly one worker, where it waits on the unix
socket, is open, or has been closed. The counter of a worker is the number of
its open connections, and of the descriptors it has closed each has closed a
connection: none is closed twice, and none that is not its own. -/
theorem connections_accounted {config : ServerConfig} {start s : System} (begun : Begun start)
    (runs : Runs config admits start s) :
    (List.range s.accepted).Perm (s.hand.toList ++ s.refused ++
      (List.range s.main.child.length).flatMap fun i =>
        (s.worker i).closed ++ (s.worker i).opened ++ (s.worker i).channel) ∧
    ∀ i, i < s.main.child.length →
      (s.worker i).closed.length = (s.worker i).worker.closed.length ∧
      (s.Alive i → (s.worker i).opened.length = (s.worker i).worker.curConnectionNumber) := by
  have hworker := runs_workerSide begun runs
  constructor
  · exact places_perm (runs_mainSide begun runs) hworker
  · intro i hi
    constructor
    · cases hexited : (s.worker i).exited with
      | false => exact (hworker.working i hi hexited).closes
      | true => exact (hworker.ended i hi hexited).1.closes
    · exact fun alive => opened_length (hworker.alive_inv alive).2

/-- The first connection has been received by worker 0. -/
theorem connections_accounted_first : ∃ s : System, (s.worker 0).delivered = [0] ∧
    [0].Perm (s.hand.toList ++ s.refused ++ (List.range 2).flatMap fun i =>
      (s.worker i).closed ++ (s.worker i).opened ++ (s.worker i).channel) := by
  obtain ⟨w, _, s, hw, _, hrun, hfirst, _⟩ := @first_connection (fun _ => True) trivial
  obtain ⟨hplaces, _⟩ := connections_accounted (serverOf_begun hw) hrun
  rw [hfirst.accepted, hfirst.workers] at hplaces
  exact ⟨s, hfirst.delivered, hplaces⟩

/-- Connections are handed over in the order of their acceptance. Every worker
receives the connections that were sent to it, each once and in the order in
which they were accepted; the rest are still on its unix socket. Its counter in
the main process is the number that were sent, and for two workers that are
marked as running these numbers differ by at most one. -/
theorem handed_over_in_order {config : ServerConfig} {start s : System} (begun : Begun start)
    (runs : Runs config admits start s) :
    (∀ i, i < s.main.child.length →
      (s.worker i).sent = (s.worker i).delivered ++ (s.worker i).channel ∧
      (s.worker i).sent.Pairwise (· < ·) ∧
      sentNumber s.main.child i = (s.worker i).sent.length) ∧
    ∀ i j, Running s.main.child i → Running s.main.child j →
      (s.worker i).sent.length ≤ (s.worker j).sent.length + 1 := by
  have hmain := runs_mainSide begun runs
  have hworker := runs_workerSide begun runs
  constructor
  · intro i hi
    refine ⟨?_, hmain.ordered i hi, hmain.counters i hi⟩
    cases hexited : (s.worker i).exited with
    | false => exact (hworker.working i hi hexited).sent
    | true => exact (hworker.ended i hi hexited).1.sent
  · intro i j hrunning hrunning'
    have ⟨c, hi, _⟩ := hrunning
    have ⟨d, hj, _⟩ := hrunning'
    have hlevel := hmain.balanced.level i j hrunning hrunning'
    rwa [hmain.counters i (List.getElem?_eq_some_iff.mp hi).1,
      hmain.counters j (List.getElem?_eq_some_iff.mp hj).1] at hlevel

theorem handed_over_in_order_first : ∃ s : System, (s.worker 0).delivered = [0] ∧
    (s.worker 0).sent = [0] ++ (s.worker 0).channel ∧ (s.worker 0).sent.Pairwise (· < ·) := by
  obtain ⟨w, _, s, hw, _, hrun, hfirst, _⟩ := @first_connection (fun _ => True) trivial
  obtain ⟨hworkers, _⟩ := handed_over_in_order (serverOf_begun hw) hrun
  obtain ⟨hsent, hordered, _⟩ := hworkers 0 (by rw [hfirst.workers]; exact Nat.zero_lt_two)
  rw [hfirst.delivered] at hsent
  exact ⟨s, hfirst.delivered, hsent, hordered⟩

end ConnectionLedger
