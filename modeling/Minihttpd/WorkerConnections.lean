import Minihttpd.HandlerActs
import Minihttpd.Library.SideBySide

/-!
# The connections of a worker

A worker looks after many connections with one array of events and one clock.
To each of them it is as if it were alone: what the worker does on a connection
is a run of its state machine. This carries what holds of the runs of one
connection over to every connection of every worker.
-/
namespace WorkerConnections

open ByteBuffer SystemCalls FdEvents ConnectionTypes HttpRequest HttpResponse HttpConnection
open StateMachine HttpWorker ConnectionRuns Registration WorkerTable HandlerActs Slots
open AnsweredRuns FailingRun SideBySide

variable {admits : SysAnswers → Prop}

/-- The machines differ in their events, and in their traces up to `before` and `before'`. -/
structure Beside (before before' : List Event) (m n : Machine) : Prop where
  clock : n.curTs = m.curTs
  conn : n.conn = m.conn
  trace : ∃ since, m.trace = before ++ since ∧ n.trace = before' ++ since

section Turns
variable {config : ServerConfig} {ans : SysAnswers} {before before' : List Event} {m n : Machine}

lemma Beside.advance (h : Beside before before' m n) (conn : Connection) (events : List Event) :
    Beside before before' (m.advance conn events) (n.advance conn events) := by
  obtain ⟨since, hm, hn⟩ := h.trace
  refine ⟨h.clock, rfl, since ++ events, ?_, ?_⟩
  · change m.trace ++ events = _
    rw [hm, List.append_assoc]
  · change n.trace ++ events = _
    rw [hn, List.append_assoc]

lemma Beside.emit (h : Beside before before' m n) (events : List Event) :
    Beside before before' (m.emit events) (n.emit events) := by
  have hadvance := h.advance m.conn events
  exact ⟨h.clock, h.conn, hadvance.trace⟩

/-- What is computed from the connection alone is the same for both. -/
lemma Beside.bind {α : Type} (h : Beside before before' m n) (x : Except Fault α)
    (conn : α → Connection) (events : α → List Event) :
    Agree (Beside before before') (x >>= fun r => pure (m.advance (conn r) (events r)))
      (x >>= fun r => pure (n.advance (conn r) (events r))) := by
  apply agree_bind (agree_refl x)
  rintro r _ rfl
  exact h.advance (conn r) (events r)

lemma beside_requestEnd (h : Beside before before' m n) :
    Agree (Beside before before') (handleRequestEnd config m) (handleRequestEnd config n) := by
  simp only [handleRequestEnd, h.conn]
  exact h.bind _ _ _

lemma beside_handleRequest (h : Beside before before' m n) :
    Agree (Beside before before') (handleHandleRequest config ans m)
      (handleHandleRequest config ans n) := by
  simp only [handleHandleRequest, h.conn]
  exact h.bind _ _ _

lemma beside_responseStart (h : Beside before before' m n) :
    Agree (Beside before before') (handleResponseStart config ans m)
      (handleResponseStart config ans n) := by
  simp only [handleResponseStart, h.conn]
  exact h.bind _ _ _

lemma beside_responseEnd (h : Beside before before' m n) :
    Beside before before' (handleResponseEnd ans m) (handleResponseEnd ans n) := by
  simp only [handleResponseEnd, h.conn, h.clock]
  split
  · exact h.advance _ _
  · exact h.advance _ _

lemma beside_read (h : Beside before before' m n) :
    Agree (Beside before before')
      (do
        let (conn, bytes) ← connectionHandleReadState config m.curTs ans m.conn
        return m.advance conn (readEvents bytes))
      (do
        let (conn, bytes) ← connectionHandleReadState config n.curTs ans n.conn
        return n.advance conn (readEvents bytes)) := by
  rw [h.conn, h.clock]
  exact h.bind _ _ _

lemma beside_error (h : Beside before before' m n) :
    Beside before before' (handleError ans m) (handleError ans n) := by
  simp only [handleError, h.conn, h.clock]
  exact h.advance _ _

lemma beside_write (h : Beside before before' m n) :
    Agree (Beside before before') (handleWrite ans m) (handleWrite ans n) := by
  rw [handleWrite, handleWrite, h.conn, h.clock]
  split
  · exact h.bind _ _ _
  · split
    · exact h.advance _ []
    · exact h

lemma beside_close (h : Beside before before' m n) (state : m.conn.state = .close)
    (left : MachineInv config m) (right : MachineInv config n) :
    Agree (Beside before before') (handleClose ans m) (handleClose ans n) := by
  obtain ⟨ctx, events, hwatched⟩ := left.watched (by rw [state]; exact ConnectionState.noConfusion)
  obtain ⟨ctx', events', hwatched'⟩ :=
    right.watched (by rw [h.conn, state]; exact ConnectionState.noConfusion)
  rw [handleClose, handleClose, h.conn, h.clock]
  generalize (if peerGone ans.read = true then m.curTs - (minihttpdCloseTimeout + 1)
    else m.conn.closeTimeoutTs) = timeout
  have hnext := h.advance { m.conn with closeTimeoutTs := timeout } []
  have hclock : (n.advance { m.conn with closeTimeoutTs := timeout } []).curTs = m.curTs := h.clock
  have hown : (m.advance { m.conn with closeTimeoutTs := timeout } []).curTs = m.curTs := rfl
  simp only [hclock, hown]
  by_cases hlate : m.curTs - timeout > minihttpdCloseTimeout
  · rw [if_pos hlate, if_pos hlate]
    rw [h.conn] at hwatched'
    obtain ⟨ev, hclose, _⟩ :=
      @connectionClose_spec (m.advance { m.conn with closeTimeoutTs := timeout } []) _ _ hwatched
    obtain ⟨ev', hclose', _⟩ :=
      @connectionClose_spec (n.advance { m.conn with closeTimeoutTs := timeout } []) _ _ hwatched'
    rw [hclose, hclose']
    have hend := hnext.advance { m.conn with
      closeTimeoutTs := timeout, connSocketFd := -1, state := .connect }
      [.socketClose m.conn.connSocketFd]
    exact ⟨hend.clock, hend.conn, hend.trace⟩
  · rw [if_neg hlate, if_neg hlate]
    exact hnext

/-- A turn is the same on both, or fails on both alike. -/
theorem beside_turn (h : Beside before before' m n) (left : MachineInv config m)
    (right : MachineInv config n) (ans : SysAnswers) :
    Agree (Beside before before') (connectionIteration config ans m)
      (connectionIteration config ans n) := by
  have hemit := h.emit [.state m.conn.state]
  have hn : n.conn.state = m.conn.state := congrArg Connection.state h.conn
  cases hm : m.conn.state with
  | requestStart =>
    rw [hm] at hn hemit
    simp only [connectionIteration, Machine.emit, hm, h.conn]
    exact hemit.advance _ []
  | requestEnd =>
    rw [hm] at hn hemit
    simp only [connectionIteration, Machine.emit, hm, hn]
    exact beside_requestEnd hemit
  | handleRequest =>
    rw [hm] at hn hemit
    simp only [connectionIteration, Machine.emit, hm, hn]
    exact beside_handleRequest hemit
  | responseStart =>
    rw [hm] at hn hemit
    simp only [connectionIteration, Machine.emit, hm, hn]
    exact beside_responseStart hemit
  | responseEnd =>
    rw [hm] at hn hemit
    simp only [connectionIteration, Machine.emit, hm, hn]
    exact beside_responseEnd hemit
  | read =>
    rw [hm] at hn hemit
    simp only [connectionIteration, Machine.emit, hm, hn]
    exact beside_read hemit
  | write =>
    rw [hm] at hn hemit
    simp only [connectionIteration, Machine.emit, hm, hn]
    exact beside_write hemit
  | error =>
    rw [hm] at hn hemit
    simp only [connectionIteration, Machine.emit, hm, hn]
    exact beside_error hemit
  | close =>
    rw [hm] at hn hemit
    simp only [connectionIteration, Machine.emit, hm, hn]
    exact beside_close hemit hm ⟨left.conn, left.watched⟩ ⟨right.conn, right.watched⟩
  | connect =>
    rw [hm] at hn hemit
    simp only [connectionIteration, Machine.emit, hm, hn]
    exact hemit

lemma beside_loop (answers : Nat → SysAnswers) (fuel turn : Nat) (h : Beside before before' m n)
    (left : MachineInv config m) (right : MachineInv config n) :
    Agree (Beside before before') (stateLoop config answers fuel turn m)
      (stateLoop config answers fuel turn n) := by
  induction fuel generalizing turn m n with
  | zero => exact rfl
  | succ fuel ih =>
    rw [stateLoop, stateLoop]
    refine agree_bind_of_ok (beside_turn h left right (answers turn)) ?_
    intro x y hx hy hnext
    rw [hnext.conn, h.conn]
    split
    · exact hnext
    · exact ih (turn + 1) hnext (turn_machineInv left hx) (turn_machineInv right hy)

end Turns

lemma updateInterest_same {m r : Machine} (h : updateInterest m = .ok r) :
    r.conn = m.conn ∧ r.curTs = m.curTs ∧ r.trace = m.trace := by
  rw [updateInterest] at h
  cases hstate : m.conn.state with
  | read =>
    simp only [hstate] at h
    obtain ⟨_, _, h⟩ := bind_eq_ok.mp h
    cases h
    exact ⟨rfl, rfl, rfl⟩
  | close =>
    simp only [hstate] at h
    obtain ⟨_, _, h⟩ := bind_eq_ok.mp h
    cases h
    exact ⟨rfl, rfl, rfl⟩
  | write =>
    simp only [hstate] at h
    split at h
    · obtain ⟨_, _, h⟩ := bind_eq_ok.mp h
      cases h
      exact ⟨rfl, rfl, rfl⟩
    · obtain ⟨_, _, h⟩ := bind_eq_ok.mp h
      cases h
      exact ⟨rfl, rfl, rfl⟩
  | _ =>
    simp only [hstate] at h
    cases h
    exact ⟨rfl, rfl, rfl⟩

/-- A connection that has gone through its whole run: its last turn has found
it in `CON_STATE_CONNECT`. -/
def RunOver (config : ServerConfig) (admits : SysAnswers → Prop) (trace : List Event) : Prop :=
  ∃ p, ReachedIn config admits .running p ∧ p.conn.state = .connect ∧
    trace = p.trace ++ [.state .connect]

/-- A call on the machine `m` of a worker takes a reached machine `n` on the
same connection along. -/
theorem call_followed {config : ServerConfig} {answers : Nat → SysAnswers} {m n r : Machine}
    (admitted : ∀ k, admits (answers k)) (reached : ReachedIn config admits .running n)
    (left : MachineInv config m) (clock : n.curTs = m.curTs) (conn : n.conn = m.conn)
    (trace : m.trace = [])
    (call : connectionStateMachine config answers m = .ok r) :
    (r.conn.state ≠ .connect → ∃ next, ReachedIn config admits .resting next ∧ next.conn = r.conn ∧
      next.curTs = r.curTs ∧ next.trace = n.trace ++ r.trace) ∧
    (r.conn.state = .connect → RunOver config admits (n.trace ++ r.trace)) := by
  have hbeside : Beside [] n.trace m n := ⟨clock, conn, [], trace, (List.append_nil _).symm⟩
  rw [connectionStateMachine] at call
  obtain ⟨next, hloop, call⟩ := bind_eq_ok.mp call
  have hagree := beside_loop answers 16 0 hbeside left (reached_inv reached.reached).1
  rw [hloop] at hagree
  obtain ⟨next', hloop', hnext⟩ := agree_of_ok hagree
  obtain ⟨since, hsince, hsince'⟩ := hnext.trace
  rw [List.nil_append] at hsince
  by_cases hconnect : next.conn.state = .connect
  · rw [if_pos hconnect] at call
    cases call
    refine ⟨fun h => absurd hconnect h, fun _ => ?_⟩
    obtain ⟨p, ans, hp, _, hturn, hsame⟩ := loop_ends_in admitted 16 0 reached hloop'
    rw [hnext.conn, hconnect] at hsame
    refine ⟨p, hp, hsame.symm, ?_⟩
    simp only [connectionIteration, Machine.emit, ← hsame] at hturn
    cases hturn
    rw [hsince, ← hsince']
  · rw [if_neg hconnect] at call
    obtain ⟨hconn, hclock, htrace⟩ := updateInterest_same call
    refine ⟨fun _ => ?_, fun h => absurd (hconn ▸ h) hconnect⟩
    obtain ⟨rest, hrest, hrconn, hrclock, hrtrace⟩ :=
      call_ends_in admitted reached hloop' (by rw [hnext.conn]; exact hconnect)
    refine ⟨rest, hrest, ?_, ?_, ?_⟩
    · rw [hrconn, hconn, hnext.conn]
    · rw [hrclock, hclock, hnext.clock]
    · rw [hrtrace, hsince', htrace, hsince]

/-- The connection at address `a` is in the table, and a run of its own has come
to rest where the worker has. -/
def Lives (config : ServerConfig) (admits : SysAnswers → Prop) (w : Worker)
    (log : List (Nat × List Event)) (a : Nat) : Prop :=
  ∃ conn n, w.heap a = some conn ∧ (∃ i, InSlot w i a) ∧ ReachedIn config admits .resting n ∧
    n.conn = conn ∧ n.curTs = w.curTs ∧ n.trace = traceOf log a ∧
    Rests ⟨w.curTs, conn, w.ev, []⟩

/-- The connection that was at address `a` is gone, and its run is over. -/
def Gone (config : ServerConfig) (admits : SysAnswers → Prop) (w : Worker)
    (log : List (Nat × List Event)) (a : Nat) : Prop :=
  w.heap a = none ∧ RunOver config admits (traceOf log a)

structure Views (config : ServerConfig) (admits : SysAnswers → Prop) (w : Worker)
    (log : List (Nat × List Event)) : Prop where
  known : ∀ a, a < w.nextAddress → Lives config admits w log a ∨ Gone config admits w log a
  unknown : ∀ a, w.nextAddress ≤ a → w.heap a = none ∧ traceOf log a = []

section Keeping
variable {config : ServerConfig} {w next : Worker} {log entry : List (Nat × List Event)}

/-- What happens elsewhere leaves the connection at address `b` as it is. -/
lemma Lives.frame {b : Nat} {fd : Int} (h : Lives config admits w log b)
    (heap : next.heap b = w.heap b) (slots : ∀ i, InSlot w i b → InSlot next i b)
    (clock : next.curTs = w.curTs)
    (only : OnlyAt fd w.ev next.ev)
    (apart : ∀ conn, w.heap b = some conn → conn.connSocketFd.toNat ≠ fd.toNat)
    (quiet : traceOf entry b = []) : Lives config admits next (log ++ entry) b := by
  obtain ⟨conn, n, hconn, ⟨i, slot⟩, hreached, hn, hclock, htrace, ctx, hrests⟩ := h
  refine ⟨conn, n, heap.trans hconn, ⟨i, slots i slot⟩, hreached, hn, hclock.trans clock.symm, ?_,
    ctx, ?_⟩
  · rw [traceOf_append, quiet, List.append_nil]
    exact htrace
  · have hfd := apart conn hconn
    rcases hrests with ⟨hstate, hwatched⟩ | ⟨hstate, hblocked, hwatched⟩
    · exact Or.inl ⟨hstate, watched_onlyAt only hfd hwatched⟩
    · exact Or.inr ⟨hstate, hblocked, watched_onlyAt only hfd hwatched⟩

lemma Gone.frame {b : Nat} (h : Gone config admits w log b) (heap : next.heap b = w.heap b)
    (quiet : traceOf entry b = []) : Gone config admits next (log ++ entry) b := by
  refine ⟨heap.trans h.1, ?_⟩
  rw [traceOf_append, quiet, List.append_nil]
  exact h.2

/-- What a call leaves alone. -/
structure Elsewhere (a : Nat) (fd : Int) (w next : Worker) : Prop where
  clock : next.curTs = w.curTs
  addresses : next.nextAddress = w.nextAddress
  heap : ∀ b, b ≠ a → next.heap b = w.heap b
  slots : ∀ b, b ≠ a → ∀ i, InSlot w i b → InSlot next i b
  only : OnlyAt fd w.ev next.ev

lemma called_elsewhere {i a : Nat} {conn : Connection} {m : Machine}
    (index : conn.connectionIndex = i) (slot : InSlot w i a) (ends : Ends config w conn m)
    (called : Called config admits w a conn m next) : Elsewhere a conn.connSocketFd w next := by
  have hworker := called.worker
  rcases ends with hopen | hclosed
  · rw [if_neg hopen.rests.open_still] at hworker
    subst hworker
    exact ⟨rfl, rfl, fun b hb => Function.update_of_ne hb _ _, fun _ _ _ hslot => hslot, hopen.only⟩
  · rw [if_pos hclosed.state, hclosed.index] at hworker
    subst hworker
    refine ⟨rfl, rfl, fun b hb => Function.update_of_ne hb _ _, fun b hb j hslot => ?_,
      hclosed.only⟩
    have hji : conn.connectionIndex ≠ j := by
      rintro rfl
      rw [InSlot, index, slot] at hslot
      cases hslot
      exact hb rfl
    change (w.conn.set conn.connectionIndex none)[j]? = some (some b)
    rw [List.getElem?_set_ne hji]
    exact hslot

/-- The call of the state machine on the connection at `a`, which the reached
machine `n` follows. -/
lemma called_views {i a : Nat} {conn : Connection} {m n : Machine}
    (inv : TableInv config (w.setHeap a (some conn))) (slot : InSlot w i a)
    (old : a < w.nextAddress)
    (others : ∀ b, b ≠ a → b < w.nextAddress →
      Lives config admits w log b ∨ Gone config admits w log b)
    (unknown : ∀ b, w.nextAddress ≤ b → w.heap b = none ∧ traceOf log b = [])
    (reached : ReachedIn config admits .running n) (same : n.conn = conn)
    (clock : n.curTs = w.curTs) (trace : n.trace = traceOf log a)
    (called : Called config admits w a conn m next) :
    Views config admits next (log ++ [(a, m.trace)]) := by
  obtain ⟨hmachine, _, hindex⟩ := table_machine inv slot
  obtain ⟨hnext, hends⟩ := called_ends inv slot called
  have helse := called_elsewhere hindex slot hends called
  have hquiet : ∀ b, b ≠ a → traceOf [(a, m.trace)] b = [] := fun b hb => traceOf_other hb.symm _
  have htrace : traceOf (log ++ [(a, m.trace)]) a = n.trace ++ m.trace := by
    rw [traceOf_append, traceOf_self, trace]
  have hself : (w.setHeap a (some conn)).heap a = some conn := Function.update_self _ _ _
  have hother : ∀ b, b ≠ a → (w.setHeap a (some conn)).heap b = w.heap b :=
    fun b hb => Function.update_of_ne hb _ _
  constructor
  · intro b hb
    rw [helse.addresses] at hb
    by_cases hba : b = a
    · subst hba
      obtain ⟨answers, hanswers, hcall⟩ := called.machine
      obtain ⟨hstays, hleaves⟩ := call_followed hanswers reached hmachine clock same rfl hcall
      have hworker := called.worker
      rcases hends with hopen | hclosed
      · left
        have hstate := hopen.rests.open_still
        obtain ⟨rest, hrest, hrconn, hrclock, hrtrace⟩ := hstays hstate
        rw [if_neg hstate] at hworker
        subst hworker
        exact ⟨m.conn, rest, Function.update_self _ _ _, ⟨i, slot⟩, hrest, hrconn,
          hrclock.trans hopen.curTs, hrtrace.trans htrace.symm, hopen.rests⟩
      · right
        rw [if_pos hclosed.state] at hworker
        subst hworker
        refine ⟨Function.update_self _ _ _, ?_⟩
        rw [htrace]
        exact hleaves hclosed.state
    · rcases others b hba hb with hlives | hgone
      · left
        apply hlives.frame (helse.heap b hba) (helse.slots b hba) helse.clock helse.only _
          (hquiet b hba)
        -- two connections of the table have different descriptors
        intro other hheap heq
        obtain ⟨_, _, _, ⟨j, hslot⟩, _⟩ := hlives
        exact hba (inv.fd_unique hslot slot ((hother b hba).trans hheap) hself heq).2
      · exact Or.inr (hgone.frame (helse.heap b hba) (hquiet b hba))
  · intro b hb
    rw [helse.addresses] at hb
    have hba : b ≠ a := Nat.ne_of_gt (Nat.lt_of_lt_of_le old hb)
    obtain ⟨hheap, hlog⟩ := unknown b hb
    rw [helse.heap b hba, traceOf_append, hquiet b hba, hlog]
    exact ⟨hheap, rfl⟩

/-- The descriptor of a connection is watched for it. -/
lemma slot_watched (inv : TableInv config w) {i a : Nat} {conn : Connection} (slot : InSlot w i a)
    (hconn : w.heap a = some conn) :
    ∃ events, Watched w.ev conn.connSocketFd (.connection a) events := by
  obtain ⟨held, hheld, hslot⟩ := inv.slots i a slot
  rw [hconn] at hheld
  cases hheld
  exact hslot.watched

/-- An act that touches at most the unix socket. -/
lemma quiet_views (inv : TableInv config w) (views : Views config admits w log)
    (heap : next.heap = w.heap) (addresses : next.nextAddress = w.nextAddress)
    (conn : next.conn = w.conn) (clock : next.curTs = w.curTs)
    (only : OnlyAt w.unixDomainSocketFd w.ev next.ev) : Views config admits next (log ++ []) := by
  obtain ⟨_, hunix⟩ := inv.unixSocket
  constructor
  · intro a ha
    rw [addresses] at ha
    rcases views.known a ha with hlives | hgone
    · left
      apply hlives.frame (congrFun heap a) _ clock only _ rfl
      · intro i hslot
        rw [InSlot, conn]
        exact hslot
      · intro other hother heq
        obtain ⟨_, _, _, ⟨i, hslot⟩, _⟩ := hlives
        obtain ⟨_, hwatched⟩ := slot_watched inv hslot hother
        have hnode := hwatched.node
        rw [heq, hunix.node] at hnode
        cases hnode
    · exact Or.inr (hgone.frame (congrFun heap a) rfl)
  · intro a ha
    rw [addresses] at ha
    rw [heap, List.append_nil]
    exact views.unknown a ha

lemma clock_views (views : Views config admits w log) (now : Int) :
    Views config admits { w with curTs := now } (log ++ []) := by
  rw [List.append_nil]
  refine ⟨fun a ha => ?_, views.unknown⟩
  rcases views.known a ha with ⟨conn, n, hconn, hslot, hreached, hn, _, htrace, hrests⟩ | hgone
  · exact Or.inl ⟨conn, { n with curTs := now }, hconn, hslot, .clock now hreached, hn, rfl, htrace,
      hrests⟩
  · exact Or.inr hgone

theorem act_views (inv : TableInv config w) (views : Views config admits w log)
    (act : Act config admits w next entry) : Views config admits next (log ++ entry) := by
  cases act with
  | clock now => exact clock_views views now
  | deaf ev hev =>
    obtain ⟨_, hunix⟩ := inv.unixSocket
    obtain ⟨_, hunset, honly, _⟩ := unsetEvent_spec hunix
    rw [hev] at hunset
    cases hunset
    exact quiet_views inv views rfl rfl rfl rfl honly
  | refuse fd => exact quiet_views inv views rfl rfl rfl rfl (onlyAt_refl _ _)
  | add index fd ev m next hempty hfree hev hcalled =>
    obtain ⟨hadded, honly, hwatched⟩ := added_table inv hempty hfree hev
    have hfresh := hfree.free inv
    rw [← added_again index fd ev] at hadded
    have hslots : ∀ b i, InSlot w i b → InSlot (addConnection w index fd ev) i b := by
      intro b i hslot
      have hindex : index ≠ i := by
        rintro rfl
        rw [InSlot, hempty] at hslot
        cases hslot
      change (w.conn.set index (some w.nextAddress))[i]? = some (some b)
      rw [List.getElem?_set_ne hindex]
      exact hslot
    have hheap : ∀ b, b ≠ w.nextAddress → (addConnection w index fd ev).heap b = w.heap b :=
      fun b hb => Function.update_of_ne hb _ _
    -- the new connection is accepted with a registration that has no events yet
    have haccepted : Accepted ⟨w.curTs, { connectionSetDefault with
        connectionIndex := index, connSocketFd := fd }, ev, []⟩ := by
      exact ⟨⟨index, fd, rfl⟩, hwatched.range, ⟨_, hwatched.node, rfl⟩,
        hwatched.mirrors.unwatched (by rw [hwatched.node]; rfl), rfl⟩
    apply called_views hadded (addConnection_slot fd ev hempty) (Nat.lt_succ_self _) _ _
      (.accepted haccepted) rfl rfl (views.unknown _ (Nat.le_refl _)).2.symm hcalled
    · intro b hb hold
      have hbefore : b < w.nextAddress := Nat.lt_of_le_of_ne (Nat.lt_succ_iff.mp hold) hb
      rcases views.known b hbefore with hlives | hgone
      · left
        rw [← List.append_nil log]
        apply hlives.frame (hheap b hb) (hslots b) rfl honly _ rfl
        intro other hother heq
        obtain ⟨_, _, _, ⟨i, hslot⟩, _⟩ := hlives
        obtain ⟨_, hold⟩ := slot_watched inv hslot hother
        have hnode := hold.node
        rw [heq, hfresh] at hnode
        cases hnode
      · right
        rw [← List.append_nil log]
        exact hgone.frame (hheap b hb) rfl
    · intro b hb
      have hafter : w.nextAddress < b := Nat.lt_of_succ_le hb
      rw [hheap b (Nat.ne_of_gt hafter)]
      exact views.unknown b (Nat.le_of_lt hafter)
  | call i a conn woken m next slot hconn hwoken hcalled =>
    have hold := inv.addresses i a slot
    rcases views.known a hold with ⟨_, n, hheap, _, hreached, hn, hclock, htrace, _⟩ | hgone
    · rw [hconn] at hheap
      cases hheap
      have hrunning : ReachedIn config admits .running { n with conn := woken } := by
        cases hwoken with
        | event mask now =>
          rw [← hn]
          exact .event mask now hreached
        | expired after hexpire =>
          apply ReachedIn.expired hreached
          rw [hn, hclock]
          exact hexpire
      exact called_views (hwoken.table inv slot hconn) slot hold (fun b _ => views.known b)
        views.unknown hrunning rfl hclock htrace hcalled
    · rw [hgone.1] at hconn
      cases hconn

theorem acts_views (inv : TableInv config w) (views : Views config admits w log)
    (acts : Acts config admits w next entry) : Views config admits next (log ++ entry) := by
  induction acts with
  | none =>
    rw [List.append_nil]
    exact views
  | act hacts hact ih =>
    rw [← List.append_assoc]
    exact act_views (acts_keep inv hacts) ih hact

lemma start_views {maxFd sizes : Nat} {epollCtl : CtlAnswers} {unixFd timerFd now : Int}
    (h : workerStart maxFd epollCtl sizes unixFd timerFd now = .ok w) :
    Views config admits w [] := by
  obtain ⟨_, _, h⟩ := bind_eq_ok.mp h
  obtain ⟨_, _, h⟩ := bind_eq_ok.mp h
  obtain ⟨_, _, h⟩ := bind_eq_ok.mp h
  obtain ⟨_, _, h⟩ := bind_eq_ok.mp h
  cases h
  exact ⟨fun a ha => absurd ha (Nat.not_lt_zero a), fun _ _ => ⟨rfl, rfl⟩⟩

theorem run_views {start : Worker} (inv : TableInv config start)
    (views : Views config admits start []) (run : LoggedRun config admits start w log) :
    Views config admits w log := by
  have hall := acts_views inv views (run.acts inv)
  rwa [List.nil_append] at hall

/-- A connection on the heap is one of the table. -/
lemma Views.lives (views : Views config admits w log) (table : TableInv config w) {a : Nat}
    {conn : Connection} (hconn : w.heap a = some conn) : (∃ i, InSlot w i a) ∧
      Waiting ⟨w.curTs, conn, w.ev, traceOf log a⟩ ∧
      ∃ n, ReachedIn config admits .resting n ∧ n.conn = conn ∧ n.curTs = w.curTs ∧
        n.trace = traceOf log a := by
  have hold : a < w.nextAddress := by
    by_contra hnew
    rw [(views.unknown a (Nat.le_of_not_lt hnew)).1] at hconn
    cases hconn
  rcases views.known a hold with ⟨_, n, hheap, hslot, hreached, hn, hclock, htrace, hrests⟩ | hgone
  · rw [hconn] at hheap
    cases hheap
    obtain ⟨i, slot⟩ := hslot
    obtain ⟨held, hheld, hslotInv⟩ := table.slots i a slot
    rw [hconn] at hheld
    cases hheld
    obtain ⟨events, hwatched⟩ := hslotInv.watched
    have hmachine : MachineInv config ⟨w.curTs, conn, w.ev, traceOf log a⟩ :=
      ⟨hslotInv.inv, fun _ => ⟨_, events, hwatched⟩⟩
    exact ⟨⟨i, slot⟩, rests_waiting hmachine hrests, n, hreached, hn, hclock, htrace⟩
  · rw [hgone.1] at hconn
    cases hconn

end Keeping

/-- The connections of a worker do not notice each other. Behind every run of
its handlers, in any order, each connection on the heap is in a slot, and what
the worker has done on it is a run of the connection's own state machine, at
rest in the same state, clock and trace, and registered for what it waits for
unless an `epoll_ctl` for its descriptor has failed. A connection that is no
longer on the heap has gone through its whole run. -/
theorem connections_run_alone {config : ServerConfig} {maxFd sizes : Nat} {epollCtl : CtlAnswers}
    {unixFd timerFd now : Int} {start w : Worker} {log : List (Nat × List Event)}
    (started : workerStart maxFd epollCtl sizes unixFd timerFd now = .ok start)
    (run : LoggedRun config admits start w log) :
    (∀ a conn, w.heap a = some conn → (∃ i, InSlot w i a) ∧
      Waiting ⟨w.curTs, conn, w.ev, traceOf log a⟩ ∧
      ∃ n, ReachedIn config admits .resting n ∧ n.conn = conn ∧ n.curTs = w.curTs ∧
        n.trace = traceOf log a) ∧
    ∀ a, w.heap a = none → traceOf log a = [] ∨ RunOver config admits (traceOf log a) := by
  have hinv := workerStart_inv config started
  have hviews := run_views hinv (start_views started) run
  constructor
  · exact fun a conn hconn => hviews.lives (run_inv hinv run.run) hconn
  · intro a hnone
    by_cases hold : a < w.nextAddress
    · rcases hviews.known a hold with ⟨_, _, hheap, _⟩ | hgone
      · rw [hnone] at hheap
        cases hheap
      · exact Or.inr hgone.2
    · exact Or.inl (hviews.unknown a (Nat.le_of_not_lt hold)).2

/-- The first connection a worker is handed. -/
theorem connections_run_alone_first : ∃ start w log,
    LoggedRun setConfigDefault (fun _ => True) start w log ∧ ∃ conn, w.heap 0 = some conn ∧
      ∃ n, ReachedIn setConfigDefault (fun _ => True) .resting n ∧ n.conn = conn ∧
        n.trace = traceOf log 0 := by
  obtain ⟨start, w, conn, hstart, hcall, hconn, hrange, hunix, htimer, hheld⟩ : ∃ start w conn,
      workerStart 16 ctlSucceeds 4 3 4 0 = .ok start ∧
      handlerCall setConfigDefault start (.unixDomainSocket EventMask.input
        (.message (some 5) 0) fun _ => SysAnswers.failing) = .ok w ∧ w.heap 0 = some conn ∧
      start.ev.InRange 5 ∧ (5 : Int) ≠ start.unixDomainSocketFd ∧ (5 : Int) ≠ start.timerFd ∧
      (5 : Int) ∉ heldFds start :=
    ⟨_, _, _, rfl, rfl, rfl, ⟨by decide, by decide⟩, by decide, by decide, by decide⟩
  have permitted : Permitted start (.unixDomainSocket EventMask.input (.message (some 5) 0)
      fun _ => SysAnswers.failing) := ⟨5, rfl, hrange, hunix, htimer, hheld⟩
  have hrun : LoggedRun setConfigDefault (fun _ => True) start w _ :=
    .call .start permitted (fun _ => trivial) hcall
  obtain ⟨_, _, n, hreached, hn, _, htrace⟩ := (connections_run_alone hstart hrun).1 0 conn hconn
  exact ⟨start, w, _, hrun, conn, hconn, n, hreached, hn, htrace⟩

end WorkerConnections
