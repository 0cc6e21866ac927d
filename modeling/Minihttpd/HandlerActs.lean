import Minihttpd.AnsweredRuns

/-!
# What a handler does

The handlers of a worker are made of a few acts: the clock is set, the unix
socket is no longer listened to, a descriptor is refused, a connection is
added, or the state machine is called on a connection that has been woken. The
log of a run says what each call has done on which connection.
-/
namespace HandlerActs

open ByteBuffer SystemCalls FdEvents ConnectionTypes HttpConnection StateMachine HttpWorker
open ConnectionRuns Registration WorkerTable AnsweredRuns FailingRun

variable {admits : SysAnswers → Prop}

/-- The ways in which a worker wakes a connection at rest. -/
inductive Woken (config : ServerConfig) (curTs : Int) (conn : Connection) : Connection → Prop where
  | event (mask : EventMask) (now : Int) : Woken config curTs conn (noteEvents mask now conn)
  | expired (after : Connection) : timerExpire config curTs conn = some after →
      Woken config curTs conn after

/-- A call of the state machine on the connection `conn` at address `a`. -/
structure Called (config : ServerConfig) (admits : SysAnswers → Prop) (w : Worker) (a : Nat)
    (conn : Connection) (m : Machine) (next : Worker) : Prop where
  machine : ∃ answers, (∀ k, admits (answers k)) ∧
    connectionStateMachine config answers ⟨w.curTs, conn, w.ev, []⟩ = .ok m
  worker : next = if m.conn.state = .connect then
      releaseConnection { w with ev := m.ev, closed := w.closed ++ socketCloses m.trace } a
        m.conn.connectionIndex
    else { w with ev := m.ev, closed := w.closed ++ socketCloses m.trace }.setHeap a (some m.conn)

/-- An act of a handler, with what its call of the state machine has done. -/
inductive Act (config : ServerConfig) (admits : SysAnswers → Prop) (w : Worker) :
    Worker → List (Nat × List Event) → Prop where
  | clock (now : Int) : Act config admits w { w with curTs := now } []
  | deaf (ev : Fdevents) : fdeventsUnsetEvent w.ev w.unixDomainSocketFd = .ok ev →
      Act config admits w { w with ev := ev } []
  | refuse (fd : Int) : Act config admits w
      { w with received := w.received ++ [fd], closed := w.closed ++ [fd] } []
  | add (index : Nat) (fd : Int) (ev : Fdevents) (m : Machine) (next : Worker) :
      w.conn[index]? = some none → NotOpen w fd →
      fdeventsRegisterFd w.ev fd (.connection w.nextAddress) = .ok ev →
      Called config admits (addConnection w index fd ev) w.nextAddress
        { connectionSetDefault with connectionIndex := index, connSocketFd := fd } m next →
      Act config admits w next [(w.nextAddress, m.trace)]
  | call (i a : Nat) (conn woken : Connection) (m : Machine) (next : Worker) : InSlot w i a →
      w.heap a = some conn → Woken config w.curTs conn woken →
      Called config admits w a woken m next →
      Act config admits w next [(a, m.trace)]

/-- Acts one after the other, with their log. -/
inductive Acts (config : ServerConfig) (admits : SysAnswers → Prop) (w : Worker) :
    Worker → List (Nat × List Event) → Prop where
  | none : Acts config admits w w []
  | act {middle next : Worker} {log entry : List (Nat × List Event)} :
      Acts config admits w middle log →
      Act config admits middle next entry → Acts config admits w next (log ++ entry)

lemma Act.acts {config : ServerConfig} {w next : Worker} {entry : List (Nat × List Event)}
    (h : Act config admits w next entry) : Acts config admits w next entry := .act .none h

lemma Acts.trans {config : ServerConfig} {w middle next : Worker}
    {first second : List (Nat × List Event)} (hfirst : Acts config admits w middle first)
    (hsecond : Acts config admits middle next second) :
    Acts config admits w next (first ++ second) := by
  induction hsecond with
  | none =>
    rw [List.append_nil]
    exact hfirst
  | act _ hact ih =>
    rw [← List.append_assoc]
    exact .act ih hact

/-- What the state machine does on the connection at address `a`. -/
def machineLog (config : ServerConfig) (answers : Nat → SysAnswers) (w : Worker) (a : Nat) :
    List (Nat × List Event) :=
  match w.heap a with
  | none => []
  | some conn =>
    match connectionStateMachine config answers ⟨w.curTs, conn, w.ev, []⟩ with
    | .error _ => []
    | .ok m => [(a, m.trace)]

def slotLog (config : ServerConfig) (answers : Nat → Nat → SysAnswers) (w : Worker) (i : Nat) :
    List (Nat × List Event) :=
  match w.conn.getD i none with
  | none => []
  | some a =>
    match w.heap a with
    | none => []
    | some conn =>
      match timerExpire config w.curTs conn with
      | none => []
      | some conn => machineLog config (answers i) (w.setHeap a (some conn)) a

def sweepLog (config : ServerConfig) (answers : Nat → Nat → SysAnswers) :
    List Nat → Worker → List (Nat × List Event)
  | [], _ => []
  | i :: rest, w =>
    match sweepSlot config answers w i with
    | .error _ => []
    | .ok next => slotLog config answers w i ++ sweepLog config answers rest next

/-- What a call of a handler does on the connections, in order. -/
def handlerLog (config : ServerConfig) (w : Worker) : HandlerCall → List (Nat × List Event)
  | .connection a mask now answers =>
    match w.heap a with
    | none => []
    | some conn => machineLog config answers (w.setHeap a (some (noteEvents mask now conn))) a
  | .timer mask now answers =>
    if mask.epollin = false ∨ now = w.curTs then []
    else sweepLog config answers (List.range w.connMaxSize) { w with curTs := now }
  | .unixDomainSocket mask (.message fd unset) answers =>
    if mask.epollhup ∨ mask.epollerr then []
    else
      let connectionFd := fd.getD unset
      match workerGetNewConnection { w with received := w.received ++ [connectionFd] } with
      | .ok (some (address, w)) =>
        match fdeventsRegisterFd w.ev connectionFd (.connection address) with
        | .error _ => []
        | .ok ev =>
          let conn := (w.heap address).map (fun conn => { conn with connSocketFd := connectionFd })
          machineLog config answers { w.setHeap address conn with ev := ev } address
      | _ => []
  | .unixDomainSocket _ _ _ => []

/-- The call of the state machine in a worker whose heap holds `conn` at `a`. -/
lemma called_of_call {config : ServerConfig} {answers : Nat → SysAnswers} {w next : Worker}
    {a : Nat} {conn : Connection} (admitted : ∀ k, admits (answers k))
    (h : workerStateMachine config answers (w.setHeap a (some conn)) a = .ok next) :
    ∃ m, Called config admits w a conn m next ∧
      machineLog config answers (w.setHeap a (some conn)) a = [(a, m.trace)] := by
  have hconn : (w.setHeap a (some conn)).heap a = some conn := Function.update_self _ _ _
  simp only [workerStateMachine, hconn] at h
  obtain ⟨m, hm, h⟩ := bind_eq_ok.mp h
  have hforget : ∀ value : Option Connection,
      Function.update (Function.update w.heap a (some conn)) a value =
        Function.update w.heap a value := fun _ => Function.update_idem _ _ _
  refine ⟨m, ⟨⟨answers, admitted, hm⟩, ?_⟩, by simp only [machineLog, hconn, hm]⟩
  split at h
  · rename_i hclosed
    cases h
    rw [if_pos hclosed]
    simp only [releaseConnection, Worker.setHeap, hforget]
  · rename_i hopen
    cases h
    rw [if_neg hopen]
    simp only [Worker.setHeap, hforget]

/-- The same where the heap already holds it. -/
lemma called_of_held {config : ServerConfig} {answers : Nat → SysAnswers} {w next : Worker}
    {a : Nat} {conn : Connection} (admitted : ∀ k, admits (answers k))
    (hconn : w.heap a = some conn)
    (h : workerStateMachine config answers w a = .ok next) :
    ∃ m, Called config admits w a conn m next ∧ machineLog config answers w a = [(a, m.trace)] := by
  have hsame : w.setHeap a (some conn) = w := by
    rw [Worker.setHeap, ← hconn, Function.update_eq_self]
  rw [← hsame] at h
  have hcalled := called_of_call admitted h
  rw [hsame] at hcalled
  exact hcalled

lemma message_acts {config : ServerConfig} {mask : EventMask} {fd : Int} {unset : Int}
    {answers : Nat → SysAnswers} {w next : Worker} (inv : TableInv config w) (fresh : NotOpen w fd)
    (hup : mask.epollhup = false) (err : mask.epollerr = false)
    (admitted : ∀ k, admits (answers k))
    (h : handlerCall config w (.unixDomainSocket mask (.message (some fd) unset) answers) =
      .ok next) :
    Acts config admits w next
      (handlerLog config w (.unixDomainSocket mask (.message (some fd) unset) answers)) := by
  simp only [handlerCall, unixDomainSocketHandle, handlerLog, hup, err, Bool.false_eq_true,
    if_false, or_self, Option.getD_some] at h ⊢
  by_cases hroom : w.curConnectionNumber < w.connMaxSize
  · obtain ⟨index, hempty, hnew⟩ :=
      @getNewConnection_room { w with received := w.received ++ [fd] } inv.count hroom
    rw [hnew] at h
    simp only [hnew]
    change (fdeventsRegisterFd w.ev fd (.connection w.nextAddress) >>= _) = _ at h
    obtain ⟨ev, hev, hcall⟩ := bind_eq_ok.mp h
    have hadded : ∀ conn : Option Connection,
        Function.update (Function.update w.heap w.nextAddress
          (some { connectionSetDefault with connectionIndex := index })) w.nextAddress conn =
        Function.update w.heap w.nextAddress conn := fun _ => Function.update_idem _ _ _
    simp only [Worker.setHeap, Function.update_self, hadded, Option.map_some, hev] at hcall ⊢
    have hheld : (addConnection w index fd ev).heap w.nextAddress =
        some { connectionSetDefault with connectionIndex := index, connSocketFd := fd } :=
      Function.update_self _ _ _
    obtain ⟨m, hcalled, hlog⟩ := called_of_held admitted hheld hcall
    have hact : Act config admits w next [(w.nextAddress, m.trace)] :=
      .add index fd ev m next hempty fresh hev hcalled
    rw [addConnection] at hlog
    rw [hlog]
    exact hact.acts
  · have hfull : workerGetNewConnection { w with received := w.received ++ [fd] } = .ok none :=
      if_pos (Nat.le_of_not_lt hroom)
    rw [hfull] at h
    simp only [hfull]
    cases h
    exact (Act.refuse fd).acts

lemma unixSocket_acts {config : ServerConfig} {mask : EventMask} {recv : RecvAnswer}
    {answers : Nat → SysAnswers} {w next : Worker} (inv : TableInv config w)
    (fresh : FreshDescriptor w recv) (admitted : ∀ k, admits (answers k))
    (h : handlerCall config w (.unixDomainSocket mask recv answers) = .ok next) :
    Acts config admits w next (handlerLog config w (.unixDomainSocket mask recv answers)) := by
  by_cases hmessage : mask.epollhup = false ∧ mask.epollerr = false ∧
      ∃ fd unset, recv = .message fd unset
  · obtain ⟨hup, herr, fd, unset, rfl⟩ := hmessage
    obtain ⟨f, rfl, hf⟩ := fresh
    exact message_acts inv hf hup herr admitted h
  · have hlog : handlerLog config w (.unixDomainSocket mask recv answers) = [] := by
      cases recv with
      | fail errno => rfl
      | endOfFile => rfl
      | message fd unset =>
        rw [handlerLog, if_pos]
        by_contra hnone
        simp only [not_or, Bool.not_eq_true] at hnone
        exact hmessage ⟨hnone.1, hnone.2, fd, unset, rfl⟩
    rw [hlog]
    change unixDomainSocketHandle config mask recv answers w = .ok next at h
    rcases handle_cases config answers recv with hsame | hunset | hcase
    · rw [hsame] at h
      cases h
      exact .none
    · rw [hunset] at h
      obtain ⟨ev, hev, hnext⟩ := bind_eq_ok.mp h
      cases hnext
      exact (Act.deaf ev hev).acts
    · exact absurd hcase hmessage

lemma connectionEvent_acts {config : ServerConfig} {mask : EventMask} {now : Int}
    {answers : Nat → SysAnswers} {w next : Worker} {i a : Nat} (slot : InSlot w i a)
    (admitted : ∀ k, admits (answers k))
    (h : handlerCall config w (.connection a mask now answers) = .ok next) :
    Acts config admits w next (handlerLog config w (.connection a mask now answers)) := by
  rw [handlerCall, connectionEventHandle] at h
  rw [handlerLog]
  cases hconn : w.heap a with
  | none =>
    simp only [hconn] at h
    cases h
  | some conn =>
    simp only [hconn] at h
    obtain ⟨m, hcalled, hlog⟩ := called_of_call admitted h
    simp only [hlog]
    exact (Act.call i a conn _ m next slot hconn (.event mask now) hcalled).acts

lemma slot_of_getD {w : Worker} {i a : Nat} (h : w.conn.getD i none = some a) : InSlot w i a := by
  rw [List.getD_eq_getElem?_getD] at h
  rw [InSlot]
  cases hget : w.conn[i]? with
  | none =>
    rw [hget] at h
    cases h
  | some key =>
    rw [hget] at h
    exact congrArg some h

lemma sweepSlot_acts {config : ServerConfig} {answers : Nat → Nat → SysAnswers} {w next : Worker}
    {i : Nat} (admitted : ∀ i k, admits (answers i k))
    (h : sweepSlot config answers w i = .ok next) :
    Acts config admits w next (slotLog config answers w i) := by
  rw [sweepSlot] at h
  rw [slotLog]
  cases hslot : w.conn.getD i none with
  | none =>
    simp only [hslot] at h
    cases h
    exact .none
  | some a =>
    cases hconn : w.heap a with
    | none =>
      simp only [hslot, hconn] at h
      cases h
    | some conn =>
      cases hexpire : timerExpire config w.curTs conn with
      | none =>
        simp only [hslot, hconn, hexpire] at h ⊢
        cases h
        exact .none
      | some after =>
        simp only [hslot, hconn, hexpire] at h ⊢
        obtain ⟨m, hcalled, hlog⟩ := called_of_call (admitted i) h
        rw [hlog]
        exact (Act.call i a conn after m next (slot_of_getD hslot) hconn
          (.expired after hexpire) hcalled).acts

/-- The acts of a slot come in front of those of the slots behind it. -/
lemma sweep_acts {config : ServerConfig} {answers : Nat → Nat → SysAnswers} {w next : Worker}
    {slots : List Nat} (admitted : ∀ i k, admits (answers i k))
    (h : slots.foldlM (sweepSlot config answers) w = .ok next) :
    Acts config admits w next (sweepLog config answers slots w) := by
  induction slots generalizing w with
  | nil =>
    cases h
    exact .none
  | cons i rest ih =>
    rw [List.foldlM_cons] at h
    obtain ⟨middle, hmiddle, hrest⟩ := bind_eq_ok.mp h
    simp only [sweepLog, hmiddle]
    exact (sweepSlot_acts admitted hmiddle).trans (ih hrest)

lemma timer_acts {config : ServerConfig} {mask : EventMask} {now : Int}
    {answers : Nat → Nat → SysAnswers} {w next : Worker} (admitted : ∀ i k, admits (answers i k))
    (h : handlerCall config w (.timer mask now answers) = .ok next) :
    Acts config admits w next (handlerLog config w (.timer mask now answers)) := by
  rw [handlerCall, workerTimerExpireHandler] at h
  rw [handlerLog]
  split at h
  · rename_i hmask
    cases h
    rw [if_pos (Or.inl hmask)]
    exact .none
  · rename_i hmask
    split at h
    · rename_i hnow
      cases h
      rw [if_pos (Or.inr hnow)]
      exact .none
    · rename_i hnow
      rw [if_neg (not_or.mpr ⟨hmask, hnow⟩)]
      exact (Act.clock now).acts.trans (sweep_acts admitted h)

/-- A permitted handler that comes back has done nothing but acts, and its log is theirs. -/
theorem handlerCall_acts {config : ServerConfig} {w next : Worker} {c : HandlerCall}
    (inv : TableInv config w) (permitted : Permitted w c) (answered : Admitted admits c)
    (h : handlerCall config w c = .ok next) :
    Acts config admits w next (handlerLog config w c) := by
  cases c with
  | unixDomainSocket mask recv answers => exact unixSocket_acts inv permitted answered h
  | connection address mask now answers =>
    obtain ⟨k, n, hnode, hctx⟩ := permitted
    have hentry := inv.entries k n hnode
    rw [hctx] at hentry
    obtain ⟨i, _, slot, _⟩ := hentry
    exact connectionEvent_acts slot answered h
  | timer mask now answers => exact timer_acts answered h

lemma Called.whole {config : ServerConfig} {w next : Worker} {a : Nat} {conn : Connection}
    {m : Machine} (h : Called config admits w a conn m next) :
    ∃ answers, workerStateMachine config answers (w.setHeap a (some conn)) a = .ok next := by
  obtain ⟨⟨answers, _, hm⟩, hnext⟩ := h
  have hconn : (w.setHeap a (some conn)).heap a = some conn := Function.update_self _ _ _
  have hforget : ∀ value : Option Connection,
      Function.update (Function.update w.heap a (some conn)) a value =
        Function.update w.heap a value := fun _ => Function.update_idem _ _ _
  refine ⟨answers, ?_⟩
  simp only [workerStateMachine, hconn]
  change (connectionStateMachine config answers ⟨w.curTs, conn, w.ev, []⟩ >>= _) = _
  rw [hm, hnext]
  change (if m.conn.state = .connect then _ else _) = _
  split
  · simp only [releaseConnection, Worker.setHeap, hforget]
    rfl
  · simp only [Worker.setHeap, hforget]
    rfl

/-- The call leaves its connection at rest, or has closed it. -/
def Ends (config : ServerConfig) (w : Worker) (conn : Connection) (m : Machine) : Prop :=
  LeftOpen config ⟨w.curTs, conn, w.ev, []⟩ m ∨ Closed ⟨w.curTs, conn, w.ev, []⟩ m

/-- A connection of the table is a machine with its registration. -/
lemma table_machine {config : ServerConfig} {w : Worker} {i a : Nat} {conn : Connection}
    (inv : TableInv config (w.setHeap a (some conn))) (slot : InSlot w i a) :
    MachineInv config ⟨w.curTs, conn, w.ev, []⟩ ∧ conn.state ≠ .connect ∧
      conn.connectionIndex = i := by
  obtain ⟨held, hheld, hslot⟩ := inv.slots i a slot
  rw [show (w.setHeap a (some conn)).heap a = some conn from Function.update_self _ _ _] at hheld
  cases hheld
  obtain ⟨events, hwatched⟩ := hslot.watched
  exact ⟨⟨hslot.inv, fun _ => ⟨_, _, hwatched⟩⟩, hslot.open_still, hslot.index⟩

theorem called_ends {config : ServerConfig} {w next : Worker} {i a : Nat} {conn : Connection}
    {m : Machine} (inv : TableInv config (w.setHeap a (some conn))) (slot : InSlot w i a)
    (h : Called config admits w a conn m next) : TableInv config next ∧ Ends config w conn m := by
  constructor
  · obtain ⟨answers, hcall⟩ := h.whole
    rcases workerStateMachine_spec answers inv slot with ⟨last, hlast, hinv⟩ | ⟨_, herror, _⟩
    · rw [hcall] at hlast
      cases hlast
      exact hinv
    · rw [hcall] at herror
      cases herror
  · obtain ⟨answers, _, hm⟩ := h.machine
    obtain ⟨hmachine, hopen, _⟩ := table_machine inv slot
    rcases stateMachine_spec answers hmachine hopen with ⟨r, hr, hend⟩ | ⟨_, herror, _⟩
    · rw [hm] at hr
      cases hr
      exact hend
    · rw [hm] at herror
      cases herror

lemma Woken.table {config : ServerConfig} {w : Worker} {i a : Nat} {conn woken : Connection}
    (inv : TableInv config w) (slot : InSlot w i a) (hconn : w.heap a = some conn)
    (h : Woken config w.curTs conn woken) : TableInv config (w.setHeap a (some woken)) := by
  obtain ⟨held, hheld, hslot⟩ := inv.slots i a slot
  rw [hconn] at hheld
  cases hheld
  cases h with
  | event mask now =>
    exact tableInv_setHeap inv slot hconn (noteEvents_conn hslot.inv mask now)
      (noteEvents_open mask now hslot.open_still) (noteEvents_socket mask now conn)
  | expired after hexpire =>
    obtain ⟨hafter, hsocket⟩ := timerExpire_conn hslot.inv hexpire
    exact tableInv_setHeap inv slot hconn hafter (timerExpire_open hexpire) hsocket

/-- The new connection, before it is called for the first time. -/
lemma added_table {config : ServerConfig} {w : Worker} (inv : TableInv config w) {index : Nat}
    {fd : Int} {ev : Fdevents} (empty : w.conn[index]? = some none) (free : NotOpen w fd)
    (registered : fdeventsRegisterFd w.ev fd (.connection w.nextAddress) = .ok ev) :
    TableInv config (addConnection w index fd ev) ∧ OnlyAt fd w.ev ev ∧
      Watched ev fd (.connection w.nextAddress) EventMask.none := by
  have hfree := free.free inv
  obtain ⟨ev', hev, honly, hwatched⟩ :=
    registerFd_spec (.connection w.nextAddress) free.range hfree (inv.mirrors _)
  rw [registered] at hev
  cases hev
  exact ⟨tableInv_addConnection inv empty hfree honly hwatched, honly, hwatched⟩

lemma added_again {w : Worker} (index : Nat) (fd : Int) (ev : Fdevents) :
    (addConnection w index fd ev).setHeap w.nextAddress
      (some { connectionSetDefault with connectionIndex := index, connSocketFd := fd }) =
        addConnection w index fd ev := by
  have hforget : Function.update (addConnection w index fd ev).heap w.nextAddress
      (some { connectionSetDefault with connectionIndex := index, connSocketFd := fd }) =
        (addConnection w index fd ev).heap := Function.update_idem _ _ _
  rw [Worker.setHeap, hforget]

/-- An act keeps the table. -/
theorem act_keeps {config : ServerConfig} {w next : Worker} {entry : List (Nat × List Event)}
    (inv : TableInv config w) (h : Act config admits w next entry) : TableInv config next := by
  cases h with
  | clock now =>
    exact ⟨inv.count, inv.slots, inv.entries, inv.mirrors, inv.addresses, inv.unixSocket, inv.timer,
      inv.descriptors⟩
  | deaf ev hev =>
    obtain ⟨events, hwatched⟩ := inv.unixSocket
    obtain ⟨ev', hunset, honly, hafter⟩ := unsetEvent_spec hwatched
    rw [hev] at hunset
    cases hunset
    exact tableInv_setEv inv hwatched honly hafter
  | refuse fd => exact inv.refuse fd
  | add index fd ev m next hempty hfree hev hcalled =>
    have hadded := (added_table inv hempty hfree hev).1
    rw [← added_again index fd ev] at hadded
    exact (called_ends hadded (addConnection_slot fd ev hempty) hcalled).1
  | call i a conn woken m next slot hconn hwoken hcalled =>
    exact (called_ends (hwoken.table inv slot hconn) slot hcalled).1

theorem acts_keep {config : ServerConfig} {w next : Worker} {log : List (Nat × List Event)}
    (inv : TableInv config w) (h : Acts config admits w next log) : TableInv config next := by
  induction h with
  | none => exact inv
  | act _ hact ih => exact act_keeps ih hact

/-- A run of a worker, with the log of its handlers. -/
inductive LoggedRun (config : ServerConfig) (admits : SysAnswers → Prop) (start : Worker) :
    Worker → List (Nat × List Event) → Prop where
  | start : LoggedRun config admits start start []
  | call {w next : Worker} {log : List (Nat × List Event)} {c : HandlerCall} :
      LoggedRun config admits start w log → Permitted w c → Admitted admits c →
      handlerCall config w c = .ok next →
      LoggedRun config admits start next (log ++ handlerLog config w c)

lemma LoggedRun.run {config : ServerConfig} {start w : Worker} {log : List (Nat × List Event)}
    (h : LoggedRun config admits start w log) : WorkerRun config start w := by
  induction h with
  | start => exact .start
  | call _ permitted _ hcall ih => exact .call ih permitted hcall

theorem LoggedRun.acts {config : ServerConfig} {start w : Worker} {log : List (Nat × List Event)}
    (inv : TableInv config start) (h : LoggedRun config admits start w log) :
    Acts config admits start w log := by
  induction h with
  | start => exact .none
  | call hrun permitted answered hcall ih =>
    exact ih.trans (handlerCall_acts (run_inv inv hrun.run) permitted answered hcall)

/-- What a log says of the connection at address `a`. -/
def traceOf (log : List (Nat × List Event)) (a : Nat) : List Event :=
  log.flatMap fun entry => if entry.1 = a then entry.2 else []

lemma traceOf_append (first second : List (Nat × List Event)) (a : Nat) :
    traceOf (first ++ second) a = traceOf first a ++ traceOf second a :=
  List.flatMap_append

lemma traceOf_self (a : Nat) (events : List Event) : traceOf [(a, events)] a = events := by
  simp [traceOf]

lemma traceOf_other {a b : Nat} (other : a ≠ b) (events : List Event) :
    traceOf [(a, events)] b = [] := by
  simp [traceOf, other]

end HandlerActs
