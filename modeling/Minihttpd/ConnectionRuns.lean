import Minihttpd.Turns
import Minihttpd.Registration

/-!
# Runs of one connection

The invariant over every machine of every run: between two turns of a call,
and between two calls. A connection at rest is watched for the event that will
wake it, and every response that starts to be written is whole.
-/
namespace ConnectionRuns

open ByteBuffer SystemCalls FdEvents ChunkQueue ConnectionTypes HttpResponse HttpConnection
open StateMachine WriteQueue RequestOutcome Turns ConnectionInvariant Registration FailingRun

structure MachineInv (config : ServerConfig) (m : Machine) : Prop where
  conn : ConnInv config m.conn
  watched : m.conn.state ≠ .connect → ∃ ctx events, Watched m.ev m.conn.connSocketFd ctx events

/-- A connection at rest waits for input, or for room to go on writing. -/
def Rests (m : Machine) : Prop :=
  ∃ ctx, (m.conn.state = .read ∨ m.conn.state = .close) ∧
      Watched m.ev m.conn.connSocketFd ctx EventMask.input ∨
    m.conn.state = .write ∧ Blocked m.conn ∧
      Watched m.ev m.conn.connSocketFd ctx EventMask.output

lemma setDefault_inv (config : ServerConfig) (index : Nat) (fd : Int) :
    ConnInv config { connectionSetDefault with connectionIndex := index, connSocketFd := fd } :=
  ⟨ChunkQueueLaws.chunkqueueInit_idleClean, chunkqueueInit_ok, ⟨rfl, rfl, rfl⟩, rfl⟩

lemma accepted_inv (config : ServerConfig) {m : Machine} (h : Accepted m) : MachineInv config m := by
  obtain ⟨index, fd, hconn⟩ := h.conn
  refine ⟨?_, fun _ => ?_⟩
  · rw [hconn]
    exact setDefault_inv config index fd
  · obtain ⟨n, hnode, hevents⟩ := h.node
    have hnode' : m.ev.handlerArray m.conn.connSocketFd.toNat = some n := hnode
    refine ⟨n.ctx, EventMask.none, h.range, ?_, fun _ => h.absent, fun _ => ?_⟩
    · rw [← hevents]
      exact hnode
    · rw [h.absent, hnode', recorded, if_pos hevents]

/-- `connection_event_handle` in front of the state machine sets the two flags
and, on an error of the socket, the state or the deadline of the close. -/
lemma noteEvents_cases (mask : EventMask) (now : Int) (conn : Connection) :
    ∃ readable writeable,
      noteEvents mask now conn = { conn with readable := readable, writeable := writeable } ∨
      noteEvents mask now conn =
        { conn with readable := readable, writeable := writeable, state := .error } ∨
      conn.state = .close ∧ noteEvents mask now conn = { conn with
        readable := readable, writeable := writeable
        closeTimeoutTs := now - (minihttpdCloseTimeout + 1) } := by
  obtain ⟨epollin, epollout, epollerr, epollhup, other⟩ := mask
  refine ⟨epollin || conn.readable, epollout || conn.writeable, ?_⟩
  have flags : (if epollout then { (if epollin then { conn with readable := true } else conn) with
        writeable := true } else if epollin then { conn with readable := true } else conn) =
      { conn with readable := epollin || conn.readable, writeable := epollout || conn.writeable } := by
    cases epollin <;> cases epollout <;> rfl
  simp only [noteEvents, flags]
  cases epollhup with
  | true =>
    by_cases hclose : conn.state = .close
    · exact Or.inr (Or.inr ⟨hclose, if_pos hclose⟩)
    · exact Or.inr (Or.inl (if_neg hclose))
  | false =>
    cases epollerr with
    | true => exact Or.inr (Or.inl rfl)
    | false => exact Or.inl rfl

lemma flags_conn {config : ServerConfig} {conn : Connection} (inv : ConnInv config conn)
    (readable writeable : Bool) :
    ConnInv config { conn with readable := readable, writeable := writeable } := by
  refine ⟨inv.idle, inv.writequeue, ?_⟩
  have hphase := inv.phase
  rw [StateInv] at hphase ⊢
  cases hstate : conn.state with
  | requestStart =>
    rw [hstate] at hphase
    exact ⟨⟨hphase.1.status, hphase.1.unfinished, hphase.1.empty⟩, hphase.2⟩
  | requestEnd =>
    rw [hstate] at hphase
    exact ⟨⟨hphase.1.status, hphase.1.unfinished, hphase.1.empty⟩, hphase.2.terminated,
      hphase.2.short⟩
  | read =>
    rw [hstate] at hphase
    exact ⟨⟨hphase.1.status, hphase.1.unfinished, hphase.1.empty⟩, hphase.2.shape, hphase.2.short⟩
  | handleRequest =>
    rw [hstate] at hphase
    exact ⟨hphase.status, hphase.unfinished, hphase.empty⟩
  | responseStart =>
    rw [hstate] at hphase
    exact ⟨hphase.status, hphase.bodies, hphase.whole⟩
  | write =>
    rw [hstate] at hphase
    exact ⟨hphase.finished, hphase.chunks, hphase.pending⟩
  | _ => trivial

lemma noteEvents_conn {config : ServerConfig} {conn : Connection} (inv : ConnInv config conn)
    (mask : EventMask) (now : Int) : ConnInv config (noteEvents mask now conn) := by
  obtain ⟨readable, writeable, heq | heq | ⟨hclose, heq⟩⟩ := noteEvents_cases mask now conn
  · rw [heq]
    exact flags_conn inv readable writeable
  · rw [heq]
    exact ⟨inv.idle, inv.writequeue, trivial⟩
  · rw [heq]
    refine ⟨inv.idle, inv.writequeue, ?_⟩
    rw [StateInv]
    simp only [hclose]

lemma noteEvents_socket (mask : EventMask) (now : Int) (conn : Connection) :
    SameSocket conn (noteEvents mask now conn) := by
  obtain ⟨readable, writeable, heq | heq | ⟨_, heq⟩⟩ := noteEvents_cases mask now conn <;>
    rw [heq] <;> exact ⟨rfl, rfl⟩

/-- An overdue connection is turned to `CON_STATE_ERROR`, or is closing already. -/
lemma timerExpire_cases {config : ServerConfig} {now : Int} {conn after : Connection}
    (h : timerExpire config now conn = some after) :
    after = { conn with state := .error } ∨ conn.state = .close ∧ after = conn := by
  rw [timerExpire] at h
  split at h
  · exact Or.inl (Option.some.inj h).symm
  · split at h
    · exact Or.inl (Option.some.inj h).symm
    · split at h
      · rename_i hclose
        exact Or.inr ⟨hclose.1, (Option.some.inj h).symm⟩
      · cases h

lemma timerExpire_conn {config : ServerConfig} {now : Int} {conn after : Connection}
    (inv : ConnInv config conn) (h : timerExpire config now conn = some after) :
    ConnInv config after ∧ SameSocket conn after := by
  rcases timerExpire_cases h with rfl | ⟨_, rfl⟩
  · exact ⟨⟨inv.idle, inv.writequeue, trivial⟩, rfl, rfl⟩
  · exact ⟨inv, rfl, rfl⟩

/-- `CON_STATE_CLOSE` ends in a descriptor that is neither registered nor watched. -/
lemma connectionClose_spec {m : Machine} {ctx : HandlerCtx} {events : EventMask}
    (watched : Watched m.ev m.conn.connSocketFd ctx events) :
    ∃ ev, connectionClose m = .ok { m with
        ev := ev
        trace := m.trace ++ [.socketClose m.conn.connSocketFd]
        conn := { m.conn with connSocketFd := -1, state := .connect } } ∧
      OnlyAt m.conn.connSocketFd m.ev ev ∧
      ev.handlerArray m.conn.connSocketFd.toNat = none ∧
      ev.interest m.conn.connSocketFd.toNat = none := by
  obtain ⟨ev₁, ev, hunset, hunregister, honly, hnode, hinterest⟩ := unsetUnregister_spec watched
  refine ⟨ev, ?_, honly, hnode, hinterest⟩
  simp only [connectionClose, hunset]
  change (fdeventsUnregisterFd ev₁ m.conn.connSocketFd >>= _) = _
  rw [hunregister]
  rfl

lemma turn_machineInv {config : ServerConfig} {ans : SysAnswers} {m next : Machine}
    (inv : MachineInv config m) (h : connectionIteration config ans m = .ok next) :
    MachineInv config next := by
  have hturn := iteration_spec inv.conn h
  refine ⟨hturn.inv, fun hopen => ?_⟩
  rcases hturn.worker with ⟨_, hkeeps⟩ | ⟨_, hclosed, _⟩ | hconnect
  · have hstate : m.conn.state ≠ .connect := by
      intro hconnect
      have hsame : next = m.emit [.state .connect] := by
        simp only [connectionIteration, hconnect] at h
        simp only [Machine.emit, hconnect] at h
        cases h
        rfl
      rw [hsame] at hopen
      exact hopen hconnect
    obtain ⟨ctx, events, hwatched⟩ := inv.watched hstate
    rw [hkeeps.ev, hkeeps.socket.fd]
    exact ⟨ctx, events, hwatched⟩
  · exact absurd hclosed hopen
  · have hsame : next = m.emit [.state .connect] := by
      have hm : m.conn.state = .connect := hconnect
      simp only [connectionIteration, Machine.emit, hm] at h
      cases h
      rfl
    rw [hsame] at hopen
    exact absurd hconnect hopen

/-- Where the loop has ended, the switch behind it registers what the
connection waits for. It never takes its default, nor does it unset the events
of a connection in `CON_STATE_WRITE`. -/
lemma settled_rests {config : ServerConfig} {ans : SysAnswers} {m next : Machine}
    (inv : MachineInv config m) (h : connectionIteration config ans m = .ok next)
    (same : next.conn.state = m.conn.state) (open_still : next.conn.state ≠ .connect) :
    ∃ rest, updateInterest next = .ok rest ∧ MachineInv config rest ∧ Rests rest ∧
      rest.conn = next.conn ∧ rest.curTs = next.curTs ∧ rest.trace = next.trace ∧
      OnlyAt next.conn.connSocketFd next.ev rest.ev ∧
      ∀ ctx events, Watched next.ev next.conn.connSocketFd ctx events →
        ∃ events', Watched rest.ev next.conn.connSocketFd ctx events' := by
  have hnext := turn_machineInv inv h
  have hstays := (iteration_spec inv.conn h).stays same
  obtain ⟨ctx, events, hwatched⟩ := hnext.watched open_still
  obtain ⟨evIn, hin, honlyIn, hwatchedIn⟩ :=
    setEvents_spec hwatched (show EventMask.input ≠ EventMask.none by decide)
  obtain ⟨evOut, hout, honlyOut, hwatchedOut⟩ :=
    setEvents_spec hwatched (show EventMask.output ≠ EventMask.none by decide)
  have hwaits : next.conn.state = .read ∨ next.conn.state = .close ∨
      next.conn.state = .write ∧ Blocked next.conn := by
    rcases hstays with h | h | h | ⟨h, hblocked⟩
    · exact Or.inl (same.trans h)
    · exact Or.inr (Or.inl (same.trans h))
    · exact absurd (same.trans h) open_still
    · exact Or.inr (Or.inr ⟨same.trans h, hblocked⟩)
  rcases hwaits with hread | hclose | ⟨hwrite, hblocked⟩
  · refine ⟨{ next with ev := evIn }, ?_, ⟨hnext.conn, fun _ => ⟨ctx, _, hwatchedIn⟩⟩,
      ⟨ctx, Or.inl ⟨Or.inl hread, hwatchedIn⟩⟩, rfl, rfl, rfl, honlyIn,
      fun _ _ h => ⟨_, watched_ctx hwatched h ▸ hwatchedIn⟩⟩
    simp only [updateInterest, hread, hin]
    rfl
  · refine ⟨{ next with ev := evIn }, ?_, ⟨hnext.conn, fun _ => ⟨ctx, _, hwatchedIn⟩⟩,
      ⟨ctx, Or.inl ⟨Or.inr hclose, hwatchedIn⟩⟩, rfl, rfl, rfl, honlyIn,
      fun _ _ h => ⟨_, watched_ctx hwatched h ▸ hwatchedIn⟩⟩
    simp only [updateInterest, hclose, hin]
    rfl
  · refine ⟨{ next with ev := evOut }, ?_, ⟨hnext.conn, fun _ => ⟨ctx, _, hwatchedOut⟩⟩,
      ⟨ctx, Or.inr ⟨hwrite, hblocked, hwatchedOut⟩⟩, rfl, rfl, rfl, honlyOut,
      fun _ _ h => ⟨_, watched_ctx hwatched h ▸ hwatchedOut⟩⟩
    simp only [updateInterest, hwrite, if_pos (And.intro hblocked.length hblocked.unwriteable), hout]
    rfl

theorem reached_inv {config : ServerConfig} {phase : Phase} {m : Machine}
    (h : Reached config phase m) : MachineInv config m ∧ (phase = .resting → Rests m) := by
  induction h with
  | accepted haccepted => exact ⟨accepted_inv config haccepted, fun h => by cases h⟩
  | turn _ hturn _ ih => exact ⟨turn_machineInv ih.1 hturn, fun h => by cases h⟩
  | settled _ hturn same open_still hupdate ih =>
    obtain ⟨rest, hrest, hinv, hrests, _⟩ := settled_rests ih.1 hturn same open_still
    rw [hupdate] at hrest
    cases hrest
    exact ⟨hinv, fun _ => hrests⟩
  | @event m mask now _ ih =>
    have hsocket := noteEvents_socket mask now m.conn
    refine ⟨⟨noteEvents_conn ih.1.conn mask now, fun _ => ?_⟩, fun h => by cases h⟩
    obtain ⟨ctx, hrests⟩ := ih.2 rfl
    rw [hsocket.fd]
    rcases hrests with ⟨_, hwatched⟩ | ⟨_, _, hwatched⟩
    · exact ⟨ctx, _, hwatched⟩
    · exact ⟨ctx, _, hwatched⟩
  | clock now _ ih => exact ⟨⟨ih.1.conn, ih.1.watched⟩, fun _ => ih.2 rfl⟩
  | @expired m conn _ hexpire ih =>
    obtain ⟨hconn, hsocket⟩ := timerExpire_conn ih.1.conn hexpire
    refine ⟨⟨hconn, fun _ => ?_⟩, fun h => by cases h⟩
    obtain ⟨ctx, hrests⟩ := ih.2 rfl
    rw [hsocket.fd]
    rcases hrests with ⟨_, hwatched⟩ | ⟨_, _, hwatched⟩
    · exact ⟨ctx, _, hwatched⟩
    · exact ⟨ctx, _, hwatched⟩

/-- The machines that can come of the machine `start`, which is in a call. -/
inductive Onward (config : ServerConfig) (start : Machine) : Phase → Machine → Prop where
  | here : Onward config start .running start
  | turn {m next : Machine} {ans : SysAnswers} : Onward config start .running m →
      connectionIteration config ans m = .ok next → next.conn.state ≠ m.conn.state →
      Onward config start .running next
  | settled {m next rest : Machine} {ans : SysAnswers} : Onward config start .running m →
      connectionIteration config ans m = .ok next → next.conn.state = m.conn.state →
      next.conn.state ≠ .connect → updateInterest next = .ok rest →
      Onward config start .resting rest
  | event {m : Machine} (mask : EventMask) (now : Int) : Onward config start .resting m →
      Onward config start .running { m with conn := noteEvents mask now m.conn }
  | clock {m : Machine} (now : Int) : Onward config start .resting m →
      Onward config start .resting { m with curTs := now }
  | expired {m : Machine} {conn : Connection} : Onward config start .resting m →
      timerExpire config m.curTs m.conn = some conn →
      Onward config start .running { m with conn := conn }

lemma Onward.reached {config : ServerConfig} {start m : Machine} {phase : Phase}
    (from_reached : Reached config .running start) (h : Onward config start phase m) :
    Reached config phase m := by
  induction h with
  | here => exact from_reached
  | turn _ hturn moves ih => exact .turn ih hturn moves
  | settled _ hturn same open_still hupdate ih => exact .settled ih hturn same open_still hupdate
  | event mask now _ ih => exact .event mask now ih
  | clock now _ ih => exact .clock now ih
  | expired _ hexpire ih => exact .expired ih hexpire

/-- A fault of a call is raised while a request is parsed or handled, while a
head is prepared, or by the write loop; none of these touches a registration. -/
def CallFault (config : ServerConfig) (e : Fault) : Prop :=
  ∃ (p : Machine) (ans : SysAnswers), ConnInv config p.conn ∧
    (p.conn.state = .requestEnd ∨ p.conn.state = .handleRequest ∨
      p.conn.state = .responseStart ∨ p.conn.state = .write) ∧
    connectionIteration config ans p = .error e

lemma iteration_error {config : ServerConfig} {ans : SysAnswers} {m : Machine} {e : Fault}
    (inv : MachineInv config m) (h : connectionIteration config ans m = .error e) :
    CallFault config e := by
  refine ⟨m, ans, inv.conn, ?_, h⟩
  have hwatched := inv.watched
  simp only [connectionIteration, Machine.emit] at h
  cases hstate : m.conn.state with
  | requestEnd => exact Or.inl rfl
  | handleRequest => exact Or.inr (Or.inl rfl)
  | responseStart => exact Or.inr (Or.inr (Or.inl rfl))
  | write => exact Or.inr (Or.inr (Or.inr rfl))
  | requestStart =>
    simp only [hstate] at h
    cases h
  | responseEnd =>
    simp only [hstate] at h
    cases h
  | error =>
    simp only [hstate] at h
    cases h
  | connect =>
    simp only [hstate] at h
    cases h
  | read =>
    simp only [hstate] at h
    have hphase := inv.conn.phase
    rw [StateInv, hstate] at hphase
    rcases bind_eq_error.mp h with hread | ⟨_, _, hpure⟩
    · obtain ⟨after, bytes, hok, _⟩ := handleReadState_outcome hphase.2
      rw [hok] at hread
      cases hread
    · cases hpure
  | close =>
    simp only [hstate, handleClose] at h
    generalize (if peerGone ans.read = true then m.curTs - (minihttpdCloseTimeout + 1)
      else m.conn.closeTimeoutTs) = ts at h
    split at h
    · obtain ⟨ctx, events, hw⟩ := hwatched (by rw [hstate]; exact ConnectionState.noConfusion)
      rw [connectionClose] at h
      obtain ⟨ev₁, ev₂, hunset, hunregister, _⟩ := unsetUnregister_spec hw
      rcases bind_eq_error.mp h with hfail | ⟨ev, hev, h⟩
      · change fdeventsUnsetEvent m.ev m.conn.connSocketFd = _ at hfail
        rw [hunset] at hfail
        cases hfail
      · change fdeventsUnsetEvent m.ev m.conn.connSocketFd = _ at hev
        rw [hunset] at hev
        cases hev
        rcases bind_eq_error.mp h with hfail | ⟨_, _, hpure⟩
        · change fdeventsUnregisterFd ev₁ m.conn.connSocketFd = _ at hfail
          rw [hunregister] at hfail
          cases hfail
        · cases hpure
    · cases h

/-- The machine after a call that has closed the connection of `m`. -/
structure Closed (m r : Machine) : Prop where
  state : r.conn.state = .connect
  index : r.conn.connectionIndex = m.conn.connectionIndex
  only : OnlyAt m.conn.connSocketFd m.ev r.ev
  node : r.ev.handlerArray m.conn.connSocketFd.toNat = none
  interest : r.ev.interest m.conn.connSocketFd.toNat = none
  closes : socketCloses r.trace = socketCloses m.trace ++ [m.conn.connSocketFd]

lemma closed_of_keeps {a b r : Machine} (h : Keeps a b) (closed : Closed b r) : Closed a r := by
  obtain ⟨state, index, only, node, interest, closes⟩ := closed
  rw [h.socket.fd] at only node interest closes
  rw [h.ev] at only
  rw [h.closes] at closes
  exact ⟨state, index.trans h.socket.index, only, node, interest, closes⟩

lemma emit_keeps (m : Machine) (s : ConnectionState) : Keeps m (m.emit [.state s]) := by
  refine ⟨⟨rfl, rfl⟩, rfl, rfl, ?_⟩
  change socketCloses (m.trace ++ [.state s]) = _
  rw [socketCloses_append]
  exact List.append_nil _

lemma closes_closed {m next : Machine} {ctx : HandlerCtx} {events : EventMask}
    (watched : Watched m.ev m.conn.connSocketFd ctx events) (h : Closes m next) :
    Closed m next := by
  obtain ⟨p, hclose, hev, _, hsocket, htrace⟩ := h
  rw [← hev, ← hsocket.fd] at watched
  obtain ⟨ev, hok, honly, hnode, hinterest⟩ := connectionClose_spec watched
  rw [hclose] at hok
  cases hok
  rw [hev, hsocket.fd] at honly
  rw [hsocket.fd] at hnode hinterest
  refine ⟨rfl, hsocket.index, honly, hnode, hinterest, ?_⟩
  rw [socketCloses_append, htrace, hsocket.fd]
  rfl

/-- The loop comes to an end within its fuel: at rest in a state, with the
connection closed, or with a fault of one of its turns. -/
theorem stateLoop_spec {config : ServerConfig} {answers : Nat → SysAnswers} (fuel turn : Nat)
    {m : Machine} (inv : MachineInv config m) (open_still : m.conn.state ≠ .connect)
    (enough : rank m.conn < fuel) :
    (∃ r, stateLoop config answers fuel turn m = .ok r ∧
      (r.conn.state ≠ .connect ∧ Keeps m r ∧ (∃ p ans, MachineInv config p ∧
        connectionIteration config ans p = .ok r ∧ r.conn.state = p.conn.state) ∨
      Closed m r)) ∨
    ∃ e, stateLoop config answers fuel turn m = .error e ∧ CallFault config e := by
  induction fuel generalizing turn m with
  | zero => omega
  | succ fuel ih =>
    rw [stateLoop]
    cases hturn : connectionIteration config (answers turn) m with
    | error e => exact Or.inr ⟨e, rfl, iteration_error inv hturn⟩
    | ok next =>
      have hspec := iteration_spec inv.conn hturn
      have hnext := turn_machineInv inv hturn
      have hkeepsEmit := emit_keeps m m.conn.state
      change (∃ r, (if next.conn.state = m.conn.state then _ else _) = _ ∧ _) ∨
        ∃ e, (if next.conn.state = m.conn.state then _ else _) = _ ∧ _
      by_cases hsame : next.conn.state = m.conn.state
      · rw [if_pos hsame]
        refine Or.inl ⟨next, rfl, Or.inl ?_⟩
        rcases hspec.worker with ⟨hopen, hkeeps⟩ | ⟨hclose, hconnect, _⟩ | hconnect
        · exact ⟨hopen, hkeepsEmit.trans hkeeps, m, answers turn, inv, hturn, hsame⟩
        · rw [hconnect] at hsame
          exact absurd hsame.symm open_still
        · exact absurd hconnect open_still
      · rw [if_neg hsame]
        have hdescends : rank next.conn < rank m.conn := hspec.descends hsame
        rcases hspec.worker with ⟨hopen, hkeeps⟩ | ⟨hclose, hconnect, hcloses⟩ | hconnect
        · have hall := hkeepsEmit.trans hkeeps
          rcases ih (turn + 1) hnext hopen (by omega) with ⟨r, hr, hend⟩ | ⟨e, he, hfault⟩
          · refine Or.inl ⟨r, hr, ?_⟩
            rcases hend with ⟨hr_open, hr_keeps, hr_end⟩ | hclosed
            · exact Or.inl ⟨hr_open, hall.trans hr_keeps, hr_end⟩
            · exact Or.inr (closed_of_keeps hall hclosed)
          · exact Or.inr ⟨e, he, hfault⟩
        · -- one more turn in `CON_STATE_CONNECT` ends the loop
          obtain ⟨ctx, events, hwatched⟩ := inv.watched open_still
          have hclosed : Closed m next := closed_of_keeps hkeepsEmit (closes_closed hwatched hcloses)
          cases fuel with
          | zero => omega
          | succ fuel =>
            refine Or.inl ⟨next.emit [.state next.conn.state], ?_, Or.inr ?_⟩
            · have hlast : connectionIteration config (answers (turn + 1)) next =
                  .ok (next.emit [.state next.conn.state]) := by
                simp only [connectionIteration, Machine.emit, hconnect]
              rw [stateLoop, hlast]
              exact if_pos rfl
            · refine ⟨hclosed.state, hclosed.index, hclosed.only, hclosed.node, hclosed.interest, ?_⟩
              rw [(emit_keeps next next.conn.state).closes]
              exact hclosed.closes
        · exact absurd hconnect open_still

lemma rank_lt (conn : Connection) : rank conn < 16 := by
  rw [rank]
  cases conn.state with
  | read =>
    simp only
    split <;> omega
  | requestStart =>
    simp only
    split <;> omega
  | _ => simp only; omega

/-- A call that leaves the connection open leaves it at rest. -/
structure LeftOpen (config : ServerConfig) (m r : Machine) : Prop where
  inv : MachineInv config r
  rests : Rests r
  socket : SameSocket m.conn r.conn
  only : OnlyAt m.conn.connSocketFd m.ev r.ev
  watched : ∀ ctx events, Watched m.ev m.conn.connSocketFd ctx events →
    ∃ events', Watched r.ev m.conn.connSocketFd ctx events'
  curTs : r.curTs = m.curTs
  closes : socketCloses r.trace = socketCloses m.trace

lemma Rests.open_still {m : Machine} (h : Rests m) : m.conn.state ≠ .connect := by
  obtain ⟨_, ⟨hread | hclose, _⟩ | ⟨hwrite, _⟩⟩ := h
  · rw [hread]
    exact ConnectionState.noConfusion
  · rw [hclose]
    exact ConnectionState.noConfusion
  · rw [hwrite]
    exact ConnectionState.noConfusion

theorem stateMachine_spec {config : ServerConfig} (answers : Nat → SysAnswers) {m : Machine}
    (inv : MachineInv config m) (open_still : m.conn.state ≠ .connect) :
    (∃ r, connectionStateMachine config answers m = .ok r ∧
      (LeftOpen config m r ∨ Closed m r)) ∨
    ∃ e, connectionStateMachine config answers m = .error e ∧ CallFault config e := by
  rw [connectionStateMachine]
  rcases stateLoop_spec 16 0 inv open_still (rank_lt m.conn) with
    ⟨next, hnext, hend⟩ | ⟨e, he, hfault⟩
  · left
    rw [hnext]
    change ∃ r, (if next.conn.state = .connect then _ else _) = _ ∧ _
    rcases hend with ⟨hopen, hkeeps, p, ans, hp, hturn, hsame⟩ | hclosed
    · obtain ⟨rest, hrest, hinv, hrests, hconn, hts, htrace, honly, hwatched⟩ :=
        settled_rests hp hturn hsame hopen
      refine ⟨rest, by rw [if_neg hopen]; exact hrest, Or.inl ⟨hinv, hrests, ?_, ?_, ?_, ?_, ?_⟩⟩
      · rw [hconn]
        exact hkeeps.socket
      · rw [← hkeeps.ev, ← hkeeps.socket.fd]
        exact honly
      · rw [← hkeeps.ev, ← hkeeps.socket.fd]
        exact hwatched
      · exact hts.trans hkeeps.curTs
      · rw [htrace]
        exact hkeeps.closes
    · exact ⟨next, if_pos hclosed.state, Or.inr hclosed⟩
  · exact Or.inr ⟨e, by rw [he]; rfl, hfault⟩

/-- The descriptor of the machine is registered for `mask`, in the array and
with the kernel. -/
def RegisteredFor (m : Machine) (mask : EventMask) : Prop :=
  ∃ ctx, m.ev.node m.conn.connSocketFd = some ⟨ctx, mask⟩ ∧
    m.ev.interest m.conn.connSocketFd.toNat = some mask.withErrors

lemma registeredFor_of_watched {m : Machine} {ctx : HandlerCtx} {mask : EventMask}
    (some_events : mask ≠ EventMask.none) (h : Watched m.ev m.conn.connSocketFd ctx mask)
    (took : Took m.ev m.conn.connSocketFd.toNat) : RegisteredFor m mask := by
  refine ⟨ctx, h.node, ?_⟩
  rw [h.mirrors.watched took, h.node]
  exact if_neg some_events

/-- What a connection that is left alone waits for. -/
structure Awaits (m : Machine) : Prop where
  state : m.conn.state = .read ∨ m.conn.state = .write ∨ m.conn.state = .close
  input : m.conn.state = .read ∨ m.conn.state = .close → RegisteredFor m EventMask.input
  output : m.conn.state = .write → RegisteredFor m EventMask.output ∧ m.conn.writeable = false ∧
    ∀ file, unsent file m.conn.writequeue.active ≠ []

lemma Rests.state {m : Machine} (h : Rests m) :
    m.conn.state = .read ∨ m.conn.state = .write ∨ m.conn.state = .close := by
  obtain ⟨_, ⟨hread | hclose, _⟩ | ⟨hwrite, _⟩⟩ := h
  · exact Or.inl hread
  · exact Or.inr (Or.inr hclose)
  · exact Or.inr (Or.inl hwrite)

/-- A machine at rest is waiting for what it is registered for, unless an
`epoll_ctl` for its descriptor has failed. -/
def Waiting (m : Machine) : Prop :=
  (m.conn.state = .read ∨ m.conn.state = .write ∨ m.conn.state = .close) ∧
    (Took m.ev m.conn.connSocketFd.toNat → Awaits m)

lemma rests_awaits {config : ServerConfig} {m : Machine} (inv : MachineInv config m)
    (h : Rests m) (took : Took m.ev m.conn.connSocketFd.toNat) : Awaits m := by
  obtain ⟨ctx, ⟨hstate, hwatched⟩ | ⟨hstate, hblocked, hwatched⟩⟩ := h
  · refine ⟨hstate.imp_right Or.inr, fun _ => registeredFor_of_watched (by decide) hwatched took, ?_⟩
    intro hwrite
    rcases hstate with h | h
    · rw [h] at hwrite
      cases hwrite
    · rw [h] at hwrite
      cases hwrite
  · refine ⟨Or.inr (Or.inl hstate), ?_, fun _ =>
      ⟨registeredFor_of_watched (by decide) hwatched took, hblocked.unwriteable, ?_⟩⟩
    · intro hinput
      rcases hinput with h | h
      · rw [h] at hstate
        cases hstate
      · rw [h] at hstate
        cases hstate
    · intro file hnil
      apply hblocked.pending
      rw [remainingTotal_eq file inv.conn.writequeue.chunks, hnil]
      rfl

lemma rests_waiting {config : ServerConfig} {m : Machine} (inv : MachineInv config m)
    (h : Rests m) : Waiting m := ⟨h.state, rests_awaits inv h⟩

/-- A loop that ends has ended with a turn that stayed in its state. -/
lemma stateLoop_ends {config : ServerConfig} {answers : Nat → SysAnswers} (fuel turn : Nat)
    {m next : Machine} (reached : Reached config .running m)
    (h : stateLoop config answers fuel turn m = .ok next) :
    ∃ p ans, Reached config .running p ∧ connectionIteration config ans p = .ok next ∧
      next.conn.state = p.conn.state := by
  induction fuel generalizing turn m with
  | zero => cases h
  | succ fuel ih =>
    rw [stateLoop] at h
    obtain ⟨mid, hmid, h⟩ := bind_eq_ok.mp h
    by_cases hsame : mid.conn.state = m.conn.state
    · rw [if_pos hsame] at h
      cases h
      exact ⟨m, answers turn, reached, hmid, hsame⟩
    · rw [if_neg hsame] at h
      exact ih (turn + 1) (.turn reached hmid hsame) h

/-- A freshly accepted connection in an otherwise empty worker. -/
def newMachine (fd : Nat) : Machine where
  curTs := 0
  conn := { connectionSetDefault with connSocketFd := fd }
  ev := { fdeventInitialize (fd + 1) ctlSucceeds with
    handlerArray := Function.update (fun _ => none) fd (some ⟨.connection 0, EventMask.none⟩) }
  trace := []

lemma newMachine_accepted (fd : Nat) : Accepted (newMachine fd) where
  conn := ⟨0, fd, rfl⟩
  range := ⟨Int.natCast_nonneg fd, Int.ofNat_lt.mpr (Nat.lt_succ_self fd)⟩
  node := by
    refine ⟨⟨.connection 0, EventMask.none⟩, ?_, rfl⟩
    change Function.update (fun _ => none) fd _ fd = _
    exact Function.update_self _ _ _
  absent := rfl
  trace := rfl

/-- No connection rests without a wake-up, where no `epoll_ctl` for its
descriptor has failed. Whenever `connection_state_machine` comes back with a
connection that is still there, the connection is registered for what it waits
for. The switch behind the loop takes neither its default nor, in
`CON_STATE_WRITE`, the branch that unsets the events. -/
theorem rests_with_wakeup {config : ServerConfig} {m rest : Machine}
    {answers : Nat → SysAnswers} (reached : Reached config .running m)
    (returns : connectionStateMachine config answers m = .ok rest)
    (kept : rest.conn.state ≠ .connect) (took : Took rest.ev rest.conn.connSocketFd.toNat) :
    Awaits rest ∧ ∃ next, stateLoop config answers 16 0 m = .ok next ∧
      (next.conn.state = .read ∨ next.conn.state = .write ∨ next.conn.state = .close) ∧
      (next.conn.state = .write →
        chunkqueueLength next.conn.writequeue ≠ 0 ∧ next.conn.writeable = false) := by
  rw [connectionStateMachine] at returns
  obtain ⟨next, hloop, h⟩ := bind_eq_ok.mp returns
  have hopen : next.conn.state ≠ .connect := by
    intro hconnect
    rw [if_pos hconnect] at h
    cases h
    exact kept hconnect
  rw [if_neg hopen] at h
  obtain ⟨p, ans, hp, hturn, hsame⟩ := stateLoop_ends 16 0 reached hloop
  obtain ⟨rest', hrest, hinv, hrests, hconn, _⟩ :=
    settled_rests (reached_inv hp).1 hturn hsame hopen
  rw [h] at hrest
  cases hrest
  have hawaits := rests_awaits hinv hrests took
  refine ⟨hawaits, next, hloop, ?_, ?_⟩
  · rw [← hconn]
    exact hawaits.state
  · intro hwrite
    obtain ⟨ctx, ⟨hstate, _⟩ | ⟨_, hblocked, _⟩⟩ := hrests
    · rw [hconn, hwrite] at hstate
      rcases hstate with h | h <;> cases h
    · rw [← hconn]
      exact ⟨hblocked.length, hblocked.unwriteable⟩

/-- A new connection whose first `epoll_ctl` fails. -/
def unwatchedMachine : Machine :=
  { newMachine 5 with ev := { (newMachine 5).ev with epollCtl := fun _ _ => false } }

/-- It rests in `CON_STATE_READ` as if it had been registered, and no event of
its socket will ever be reported. -/
theorem rests_without_wakeup : ∃ rest, Reached setConfigDefault .running unwatchedMachine ∧
    connectionStateMachine setConfigDefault (fun _ => SysAnswers.failing) unwatchedMachine =
      .ok rest ∧ rest.conn.state = .read ∧ rest.ev.interest 5 = none ∧ ¬ Awaits rest := by
  have accepted : Accepted unwatchedMachine :=
    ⟨(newMachine_accepted 5).conn, (newMachine_accepted 5).range, (newMachine_accepted 5).node,
      rfl, rfl⟩
  refine ⟨_, .accepted accepted, rfl, rfl, rfl, fun hawaits => ?_⟩
  obtain ⟨_, _, hinterest⟩ := hawaits.input (Or.inl rfl)
  cases hinterest

/-- The states in which a call can begin. -/
def entryStates : List ConnectionState := [.requestStart, .read, .write, .error, .close]

lemma event_state {config : ServerConfig} {m : Machine} (h : Reached config .resting m)
    (mask : EventMask) (now : Int) : (noteEvents mask now m.conn).state ∈ entryStates := by
  obtain ⟨ctx, hrests⟩ := (reached_inv h).2 rfl
  have hstate : m.conn.state ∈ entryStates := by
    rcases hrests with ⟨h | h, _⟩ | ⟨h, _⟩ <;> rw [h] <;> decide
  obtain ⟨readable, writeable, heq | heq | ⟨_, heq⟩⟩ := noteEvents_cases mask now m.conn
  · rw [heq]
    exact hstate
  · rw [heq]
    simp [entryStates]
  · rw [heq]
    exact hstate

lemma expired_state {config : ServerConfig} {now : Int} {conn after : Connection}
    (h : timerExpire config now conn = some after) : after.state ∈ entryStates := by
  rcases timerExpire_cases h with rfl | ⟨hclose, rfl⟩
  · simp [entryStates]
  · rw [hclose]
    decide

/-- A state in which no call begins is entered by a turn. -/
lemma entered_by_turn {config : ServerConfig} {m : Machine} (reached : Reached config .running m)
    (inner : m.conn.state ∉ entryStates) :
    ∃ p ans, Reached config .running p ∧ connectionIteration config ans p = .ok m ∧
      m.conn.state ≠ p.conn.state ∧ m.conn.state ∈ successors p.conn.state ∧
      Turn config ans (p.emit [.state p.conn.state]) m := by
  cases reached with
  | accepted haccepted =>
    obtain ⟨index, fd, hconn⟩ := haccepted.conn
    rw [hconn] at inner
    exact absurd List.mem_cons_self inner
  | event mask now hrest => exact absurd (event_state hrest mask now) inner
  | expired _ hexpire => exact absurd (expired_state hexpire) inner
  | @turn p _ ans hp hturn moves =>
    have hcases := turn_cases (reached_inv hp).1.conn hturn
    exact ⟨p, ans, hp, hturn, moves, hcases.successor, hcases⟩

/-- A request has been handled just before a response starts. -/
lemma responseStart_source {config : ServerConfig} {m : Machine}
    (reached : Reached config .running m) (hstate : m.conn.state = .responseStart) :
    ∃ p ans, Reached config .running p ∧ p.conn.state = .handleRequest ∧
      connectionIteration config ans p = .ok m := by
  obtain ⟨p, ans, hp, hturn, _, hsuccessor, _⟩ :=
    entered_by_turn reached (by rw [hstate]; decide)
  refine ⟨p, ans, hp, ?_, hturn⟩
  rw [hstate] at hsuccessor
  cases hfrom : p.conn.state <;> rw [hfrom] at hsuccessor <;>
    first
      | rfl
      | exact absurd hsuccessor (by decide)

lemma responseStart_listed {config : ServerConfig} {m : Machine} (inv : ConnInv config m.conn)
    (hstate : m.conn.state = .responseStart) :
    m.conn.httpStatus = 200 ∨ m.conn.httpStatus ∈ errorStatuses := by
  have hanswered := inv.phase
  rw [StateInv, hstate] at hanswered
  exact hanswered.status.imp And.left And.left

/-- Every response is complete and current. Where the head is prepared, the
status is settled and listed, and it was settled by handling a request with an
empty queue. `CON_STATE_WRITE` then starts with one head and at most one body:
the file or the listing of that request, or the error page of its status. -/
theorem response_complete {config : ServerConfig} {m : Machine}
    (reached : Reached config .running m) (hstate : m.conn.state = .responseStart) :
    m.conn.httpStatus ≠ 0 ∧ (queryHttpStatusString m.conn.httpStatus).isSome = true ∧
    ∃ p ans, Reached config .running p ∧ p.conn.state = .handleRequest ∧
      p.conn.writequeue.active = [] ∧ connectionIteration config ans p = .ok m ∧
      ∀ ans' next, connectionIteration config ans' m = .ok next →
        next.conn.state = .write ∧ next.conn.httpResponseBodyFinished = true ∧
        ∃ head body, next.conn.writequeue.active = head :: body ∧ head.chunkType = .mem ∧
          body.length ≤ 1 ∧ (∀ c ∈ head :: body, c.chunkOffset = 0) ∧
          (m.conn.httpStatus = 200 → QueuedBody ans
            (atFullpath config { p.conn with connectionResponse := responseInitialize }) body) ∧
          (m.conn.httpStatus ≠ 200 → ∃ c, body = [c] ∧ ErrorBody m.conn.httpStatus c) := by
  have hinv := (reached_inv reached).1.conn
  have hlisted := responseStart_listed hinv hstate
  have hnonzero : m.conn.httpStatus ≠ 0 := by
    rcases hlisted with h | h
    · omega
    · have := errorStatus_range h
      omega
  obtain ⟨text, htext⟩ := status_listed hlisted
  refine ⟨hnonzero, by rw [htext]; rfl, ?_⟩
  obtain ⟨p, ans, hp, hhandle, hturn⟩ := responseStart_source reached hstate
  have hpinv := (reached_inv hp).1.conn
  have hphase := hpinv.phase
  rw [StateInv, hhandle] at hphase
  refine ⟨p, ans, hp, hhandle, hphase.empty, hturn, ?_⟩
  have hbody : m.conn.httpStatus = 200 → QueuedBody ans
      (atFullpath config { p.conn with connectionResponse := responseInitialize })
      m.conn.writequeue.active := by
    have hrun : handleHandleRequest config ans (p.emit [.state p.conn.state]) = .ok m := by
      simpa only [connectionIteration, Machine.emit, hhandle] using hturn
    exact (handleRequest_inv (m := p.emit [.state p.conn.state]) hpinv hhandle hrun).2.2
  intro ans' next hnext
  have hrun : handleResponseStart config ans' (m.emit [.state m.conn.state]) = .ok next := by
    simpa only [connectionIteration, Machine.emit, hstate] using hnext
  obtain ⟨hnextInv, hwrite, head, body, hactive, hmem, hlength, hwhole, hserved, herror⟩ :=
    responseStart_inv (m := m.emit [.state m.conn.state]) hinv hstate hrun
  have hfinished := hnextInv.phase
  rw [StateInv, hwrite] at hfinished
  refine ⟨hwrite, hfinished.finished, head, body, hactive, hmem, hlength, ?_, ?_, herror⟩
  · intro c hc
    exact hwhole c (by rw [hactive]; exact hc)
  · intro h200
    rw [hserved h200]
    exact hbody h200

/-- Turns that each leave the state they start in. -/
def turns (config : ServerConfig) : Machine → List SysAnswers → Option Machine
  | m, [] => some m
  | m, ans :: rest =>
    match connectionIteration config ans m with
    | .error _ => none
    | .ok next => if next.conn.state = m.conn.state then none else turns config next rest

lemma reached_turns {config : ServerConfig} {m r : Machine} (answers : List SysAnswers)
    (reached : Reached config .running m) (h : turns config m answers = some r) :
    Reached config .running r := by
  induction answers generalizing m with
  | nil =>
    cases h
    exact reached
  | cons ans rest ih =>
    rw [turns] at h
    cases hturn : connectionIteration config ans m with
    | error e =>
      simp only [hturn] at h
      cases h
    | ok next =>
      simp only [hturn] at h
      split at h
      · cases h
      · rename_i hmoves
        exact ih (.turn reached hturn hmoves) h

lemma turns_single {config : ServerConfig} {m next : Machine} {ans : SysAnswers}
    (h : turns config m [ans] = some next) : connectionIteration config ans m = .ok next := by
  rw [turns] at h
  cases hturn : connectionIteration config ans m with
  | error e =>
    simp only [hturn] at h
    cases h
  | ok r =>
    simp only [hturn] at h
    split at h
    · cases h
    · rw [turns] at h
      rw [Option.some.inj h]

/-- A new connection after its first call, which has found nothing to read. -/
def restingMachine : Machine where
  curTs := 0
  conn := { connectionSetDefault with connSocketFd := 5, state := .read }
  ev := (((newMachine 5).ev.countCtl 5).setInterest 5 (some EventMask.input.withErrors)).setNode 5
    (some ⟨.connection 0, EventMask.input⟩)
  trace := [.state .requestStart, .state .read]

/-- The same connection when its socket has become readable and writeable. -/
def readableMachine : Machine :=
  { restingMachine with
    conn := noteEvents ⟨true, true, false, false, false⟩ 0 restingMachine.conn }

lemma readableMachine_reached {config : ServerConfig} : Reached config .running readableMachine := by
  have first : connectionIteration config SysAnswers.failing (newMachine 5) =
      .ok { newMachine 5 with
        conn := { connectionSetDefault with connSocketFd := 5, state := .read }
        trace := [.state .requestStart] } := rfl
  have running := Reached.turn (.accepted (newMachine_accepted 5)) first
    ConnectionState.noConfusion
  exact .event _ 0 (@Reached.settled _ _ _ restingMachine SysAnswers.failing
    running rfl rfl ConnectionState.noConfusion rfl)

/-- The answers while a request comes in, is parsed and is handled. -/
def requestAnswers (head : Bytes) (stat : StatAnswer) : List SysAnswers :=
  [{ SysAnswers.failing with read := .data head }, SysAnswers.failing,
    { SysAnswers.failing with stat := stat }]

/-- The answers of a whole exchange on a connection that then reads again. -/
def exchangeAnswers (head : Bytes) (stat : StatAnswer) : List SysAnswers :=
  requestAnswers head stat ++
    [SysAnswers.failing, { SysAnswers.failing with write := fun _ => .accept 100000 },
      SysAnswers.failing, SysAnswers.failing]

/-- A request after which the connection is to stay open. -/
def sampleRequest : Bytes := asciiBytes "GET /a HTTP/1.1\r\nHost: x\r\n\r\n"

/-- A request for a missing file, of whose error page the socket takes ten bytes. -/
def partialAnswers : List SysAnswers :=
  requestAnswers sampleRequest (.fail .enoent) ++
    [SysAnswers.failing, { SysAnswers.failing with write := fun _ => .accept 10 }]

/-- A connection with a response half sent is registered for `EPOLLOUT`. -/
theorem rests_with_wakeup_write : ∃ rest,
    connectionStateMachine setConfigDefault
      (fun i => partialAnswers.getD i SysAnswers.failing) readableMachine = .ok rest ∧
    rest.conn.state = .write ∧ RegisteredFor rest EventMask.output ∧
    rest.conn.writeable = false ∧ ∀ file, unsent file rest.conn.writequeue.active ≠ [] := by
  have hrun : (connectionStateMachine setConfigDefault
      (fun i => partialAnswers.getD i SysAnswers.failing) readableMachine).toOption.any
      (fun rest => decide (rest.conn.state = .write ∧ rest.conn.connSocketFd = 5 ∧
        ∀ n < rest.ev.ctlCalls 5, rest.ev.epollCtl 5 n = true)) = true := by
    decide +kernel
  obtain ⟨rest, hreturns, hrest⟩ := (Option.any_eq_true _ _).mp hrun
  obtain ⟨hstate, hfd, htook⟩ := of_decide_eq_true hrest
  have hopen : rest.conn.state ≠ .connect := by
    rw [hstate]
    exact ConnectionState.noConfusion
  have took : Took rest.ev rest.conn.connSocketFd.toNat := by
    rw [hfd]
    exact htook
  have hok := toOption_eq_some hreturns
  exact ⟨rest, hok, hstate,
    (rests_with_wakeup readableMachine_reached hok hopen took).1.output hstate⟩
/-- A file of three bytes is queued behind its head. -/
theorem response_complete_file : ∃ m next head c, m.conn.state = .responseStart ∧
    m.conn.httpStatus = 200 ∧
    connectionIteration setConfigDefault SysAnswers.failing m = .ok next ∧
    next.conn.writequeue.active = [head, c] ∧ head.chunkType = .mem ∧ c.chunkType = .file ∧
    c.fileLength = 3 ∧ ∀ d ∈ [head, c], d.chunkOffset = 0 := by
  have hrun : (turns setConfigDefault readableMachine
      (requestAnswers sampleRequest (.found ⟨.regular, 3, 0⟩))).any (fun m =>
        decide (m.conn.state = .responseStart ∧ m.conn.httpStatus = 200) &&
        (connectionIteration setConfigDefault SysAnswers.failing m).toOption.any (fun next =>
          decide (next.conn.writequeue.active.map Chunk.chunkType = [.mem, .file]) &&
          next.conn.writequeue.active.all (fun c =>
            c.chunkType == .mem || c.fileLength == 3))) = true := by
    decide +kernel
  obtain ⟨m, hturns, hm⟩ := (Option.any_eq_true _ _).mp hrun
  obtain ⟨hready, hm⟩ := Bool.and_eq_true_iff.mp hm
  obtain ⟨hstate, hstatus⟩ := of_decide_eq_true hready
  obtain ⟨next, hturn, hnext⟩ := (Option.any_eq_true _ _).mp hm
  obtain ⟨hkinds, hlengths⟩ := Bool.and_eq_true_iff.mp hnext
  have hkinds := of_decide_eq_true hkinds
  have reached := reached_turns _ readableMachine_reached hturns
  obtain ⟨_, _, _, _, _, _, _, _, hresponse⟩ := response_complete reached hstate
  obtain ⟨_, _, head, body, hactive, hmem, _, hwhole, _⟩ :=
    hresponse _ next (toOption_eq_some hturn)
  rw [hactive, List.map_cons] at hkinds
  obtain ⟨c, hbody, hfile⟩ := List.map_eq_singleton_iff.mp (List.cons.inj hkinds).2
  rw [hbody] at hactive hwhole
  rw [hactive, List.all_eq_true] at hlengths
  have hlength : c.fileLength = 3 := by
    have hc := hlengths c (by simp)
    rw [hfile] at hc
    exact of_decide_eq_true hc
  exact ⟨m, next, head, c, hstate, hstatus, toOption_eq_some hturn, hactive, hmem, hfile, hlength,
    hwhole⟩

end ConnectionRuns
