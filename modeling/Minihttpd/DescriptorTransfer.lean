import Minihttpd.EventDispatch

/-!
# Descriptors received on the unix socket

`unix_domain_socket_recvfd` returns what `recvmsg` has returned, and sets the
descriptor only where four conditions hold of the control message. The handler
looks at the result alone.
-/
namespace DescriptorTransfer

open ByteBuffer SystemCalls FdEvents ChunkQueue ConnectionTypes HttpConnection StateMachine
open HttpWorker ConnectionRuns Registration WorkerTable TimerSweep FailingRun Slots

/-- `struct cmsghdr` with the first integer of its data. -/
structure Cmsghdr where
  cmsgLen : Nat
  cmsgLevel : Nat
  cmsgType : Nat
  cmsgData : Int
  deriving DecidableEq, Repr

/-- `CMSG_LEN(sizeof(int))`, `SOL_SOCKET` and `SCM_RIGHTS`. -/
def cmsgLenInt : Nat := 20
def solSocket : Nat := 1
def scmRights : Nat := 1

/-- `recvmsg`: an error, with what a failing `write` to the log then leaves in
`errno`, the end of file, or data with the first header of its control data, if
there is one. -/
inductive RecvmsgOutcome where
  | fail (errno : Errno) (logged : Option Errno)
  | endOfFile
  | data (header : Option Cmsghdr)
  deriving DecidableEq, Repr

/-- What `recvfd` stores in `*fd`. -/
def storedFd : Option Cmsghdr → Option Int
  | none => none
  | some hdr =>
    if hdr.cmsgLen = cmsgLenInt ∧ hdr.cmsgLevel = solSocket ∧ hdr.cmsgType = scmRights then
      some hdr.cmsgData
    else none

/-- `unix_domain_socket_recvfd`, with the value that `*fd` has before. -/
def unixDomainSocketRecvfd (outcome : RecvmsgOutcome) (fd : Int) : RecvAnswer :=
  match outcome with
  | .fail errno logged => .fail errno logged
  | .endOfFile => .endOfFile
  | .data header => .message (storedFd header) fd

/-- The descriptor that the call of `recvmsg` has delivered. -/
def RecvmsgOutcome.delivered : RecvmsgOutcome → Option Int
  | .data header => storedFd header
  | _ => none

/-- The errors after which the handler waits for the next event. -/
def passing (errno : Errno) : Bool := errno == .eintr || errno == .eagain

/-- The end of file, or an error that stays. -/
def RecvmsgOutcome.hard : RecvmsgOutcome → Bool
  | .fail errno _ => !passing errno
  | .endOfFile => true
  | .data _ => false

/-- A passing error that is overwritten while it is logged. -/
def RecvmsgOutcome.masked : RecvmsgOutcome → Bool
  | .fail errno (some logged) => passing errno && !passing logged
  | _ => false

/-- Data that came without a descriptor. -/
def RecvmsgOutcome.bare : RecvmsgOutcome → Bool
  | .data header => (storedFd header).isNone
  | _ => false

def handleRecvmsg (config : ServerConfig) (mask : EventMask) (outcome : RecvmsgOutcome) (fd : Int)
    (answers : Nat → SysAnswers) (w : Worker) : Except Fault Worker :=
  unixDomainSocketHandle config mask (unixDomainSocketRecvfd outcome fd) answers w

/-- Nothing is registered and nothing is closed. The unix socket is
unregistered at most, after the end of file or an error. -/
structure Untouched (mask : EventMask) (outcome : RecvmsgOutcome) (w next : Worker) : Prop where
  conn : next.conn = w.conn
  count : next.curConnectionNumber = w.curConnectionNumber
  heap : next.heap = w.heap
  closed : next.closed = w.closed
  ev : next.ev = w.ev ∨
    fdeventsUnsetEvent w.ev w.unixDomainSocketFd = .ok next.ev ∧
      (mask.epollhup = true ∨ outcome.hard = true)

/-- Whatever is registered or closed is the descriptor `f`. -/
structure OnlyFor (f : Int) (w next : Worker) : Prop where
  connections : ∀ i, slotConn next i = slotConn w i ∨ slotConn w i = none ∧
    ∃ a conn, slotConn next i = some (a, conn) ∧ conn.connSocketFd = f
  entries : OnlyAt f w.ev next.ev
  closed : next.closed = w.closed ∨ next.closed = w.closed ++ [f]

/-- The unix socket has been unregistered before. -/
def UnixSocketOff (w : Worker) : Prop :=
  ∃ n, w.ev.node w.unixDomainSocketFd = some n ∧ n.events = EventMask.none

/-- A handled event touches the descriptor that its `recvmsg` has delivered. -/
def TouchesDelivered (mask : EventMask) (outcome : RecvmsgOutcome) (w next : Worker) : Prop :=
  Untouched mask outcome w next ∨ ∃ f, outcome.delivered = some f ∧ OnlyFor f w next

/-- The connection behind `f` after its first call: it waits for a request. -/
def waitingConnection (index : Nat) (f : Int) (now : Int) : Connection :=
  { connectionSetDefault with
    connectionIndex := index, connSocketFd := f, startTs := now, activeReadTs := now, state := .read }

/-- The first call on a new connection registers it for input. -/
lemma firstCall {config : ServerConfig} {answers : Nat → SysAnswers} {curTs : Int} {index : Nat}
    {f : Int} {ev ev' : Fdevents} (set : fdeventsSetEvents ev f EventMask.input = .ok ev') :
    connectionStateMachine config answers
      ⟨curTs, { connectionSetDefault with connectionIndex := index, connSocketFd := f }, ev, []⟩ =
    .ok ⟨curTs, waitingConnection index f (answers 0).time, ev',
      [.state .requestStart, .state .read]⟩ := by
  have hloop : stateLoop config answers 16 0
      ⟨curTs, { connectionSetDefault with connectionIndex := index, connSocketFd := f }, ev, []⟩ =
      .ok ⟨curTs, waitingConnection index f (answers 0).time, ev,
        [.state .requestStart, .state .read]⟩ := rfl
  rw [connectionStateMachine, hloop]
  change (do
    let ev ← fdeventsSetEvents ev f EventMask.input
    return (⟨curTs, waitingConnection index f (answers 0).time, ev,
      [.state .requestStart, .state .read]⟩ : Machine)) = _
  rw [set]
  rfl

lemma firstCall_worker {config : ServerConfig} {answers : Nat → SysAnswers} {w : Worker}
    {a index : Nat} {f : Int} {ev : Fdevents}
    (hconn : w.heap a =
      some { connectionSetDefault with connectionIndex := index, connSocketFd := f })
    (set : fdeventsSetEvents w.ev f EventMask.input = .ok ev) :
    workerStateMachine config answers w a = .ok
      ({ w with ev := ev }.setHeap a (some (waitingConnection index f (answers 0).time))) := by
  simp only [workerStateMachine, hconn]
  rw [firstCall set]
  change (.ok (Worker.setHeap { w with ev := ev, closed := w.closed ++ [] } _ _) : Except Fault _) = _
  rw [List.append_nil]

lemma registerFd_refused {ev : Fdevents} {fd : Int} (ctx : HandlerCtx)
    (h : ¬ (ev.InRange fd ∧ ev.handlerArray fd.toNat = none)) :
    fdeventsRegisterFd ev fd ctx = .error .registration := if_neg h

lemma keeps_ok {config : ServerConfig} {next : Worker} (h : KeepsTable config (.ok next)) :
    TableInv config next := by
  rcases h with ⟨_, hok, hinv⟩ | ⟨_, herror, _⟩
  · cases hok
    exact hinv
  · cases herror

/-- What a message whose descriptor is taken for `f` makes of the worker. -/
inductive Adopted (w : Worker) (f : Int) : Worker → Prop where
  | refused : Adopted w f { w with received := w.received ++ [f], closed := w.closed ++ [f] }
  | added (index : Nat) (now : Int) (ev : Fdevents) : w.conn[index]? = some none →
      OnlyAt f w.ev ev → Adopted w f { w with
        conn := w.conn.set index (some w.nextAddress)
        curConnectionNumber := w.curConnectionNumber + 1
        heap := Function.update w.heap w.nextAddress (some (waitingConnection index f now))
        nextAddress := w.nextAddress + 1
        ev := ev
        received := w.received ++ [f] }

/-- A message is refused, or its descriptor is registered, or it cannot be. -/
theorem message_cases (config : ServerConfig) {mask : EventMask} (fd : Option Int) (unset : Int)
    (answers : Nat → SysAnswers) {w : Worker} (inv : TableInv config w)
    (hup : mask.epollhup = false) (err : mask.epollerr = false) :
    (∃ next, unixDomainSocketHandle config mask (.message fd unset) answers w = .ok next ∧
      TableInv config next ∧ Adopted w (fd.getD unset) next) ∨
    unixDomainSocketHandle config mask (.message fd unset) answers w = .error .registration ∧
      ¬ (w.ev.InRange (fd.getD unset) ∧ w.ev.handlerArray (fd.getD unset).toNat = none) := by
  rcases handle_message config answers fd unset inv.count hup err with
    hfull | ⟨index, hempty, hadd⟩
  · exact Or.inl ⟨_, hfull, inv.refuse _, .refused⟩
  rw [hadd]
  generalize fd.getD unset = f
  by_cases hfree : w.ev.InRange f ∧ w.ev.handlerArray f.toNat = none
  · left
    obtain ⟨ev₁, hregister, honly₁, hwatched⟩ :=
      registerFd_spec (.connection w.nextAddress) hfree.1 hfree.2 (inv.mirrors _)
    obtain ⟨ev₂, hset, honly₂, _⟩ :=
      setEvents_spec hwatched (show EventMask.input ≠ EventMask.none by decide)
    have hcall := @firstCall_worker config answers (addConnection w index f ev₁) w.nextAddress
      index f ev₂ (Function.update_self _ _ _) hset
    have hkeeps := workerStateMachine_spec answers
      (tableInv_addConnection inv hempty hfree.2 honly₁ hwatched) (addConnection_slot f ev₁ hempty)
    rw [hcall] at hkeeps
    rw [hregister, ok_bind, hcall]
    simp only [addConnection, Worker.setHeap, Function.update_idem] at hkeeps ⊢
    exact ⟨_, rfl, keeps_ok hkeeps, .added index (answers 0).time ev₂ hempty (honly₁.trans honly₂)⟩
  · right
    rw [registerFd_refused _ hfree]
    exact ⟨rfl, hfree⟩

lemma Adopted.onlyFor {config : ServerConfig} {w next : Worker} {f : Int} (inv : TableInv config w)
    (h : Adopted w f next) : OnlyFor f w next := by
  cases h with
  | refused => exact ⟨fun _ => Or.inl rfl, onlyAt_refl f w.ev, Or.inr rfl⟩
  | added index now ev hempty honly =>
    refine ⟨fun i => ?_, honly, Or.inl rfl⟩
    by_cases hi : i = index
    · subst hi
      refine Or.inr ⟨slotConn_eq_none hempty, w.nextAddress, waitingConnection i f now, ?_, rfl⟩
      apply slotConn_eq_some.mpr
      constructor
      · change (w.conn.set i (some w.nextAddress))[i]? = _
        rw [List.getElem?_set_self', hempty]
        rfl
      · exact Function.update_self _ _ _
    · -- the slot of an older connection, at an older address
      left
      have hslot : (w.conn.set index (some w.nextAddress))[i]? = w.conn[i]? :=
        List.getElem?_set_ne (Ne.symm hi)
      rw [slotConn, slotConn, List.getD_eq_getElem?_getD, List.getD_eq_getElem?_getD, hslot]
      cases hkey : w.conn[i]?.getD none with
      | none => rfl
      | some a =>
        have hin : InSlot w i a := getD_inSlot.mp (by rw [List.getD_eq_getElem?_getD, hkey])
        have hne : a ≠ w.nextAddress := Nat.ne_of_lt (inv.addresses i a hin)
        have hheap : Function.update w.heap w.nextAddress (some (waitingConnection index f now)) a =
            w.heap a := Function.update_of_ne hne _ _
        rw [Option.bind_some, Option.bind_some]
        exact congrArg (Option.map fun conn => (a, conn)) hheap

lemma Adopted.touches {w next : Worker} {f : Int} {mask : EventMask} {outcome : RecvmsgOutcome}
    (h : Adopted w f next) : ¬ Untouched mask outcome w next := by
  intro hsame
  cases h with
  | refused =>
    have hlength : (w.closed ++ [f]).length = w.closed.length := congrArg List.length hsame.closed
    rw [List.length_append] at hlength
    exact Nat.succ_ne_self _ hlength
  | added => exact Nat.succ_ne_self _ hsame.count

lemma unset_untouched {config : ServerConfig} {mask : EventMask} {outcome : RecvmsgOutcome}
    {w : Worker} (inv : TableInv config w) (cause : mask.epollhup = true ∨ outcome.hard = true) :
    ∃ next, (do
      let ev ← fdeventsUnsetEvent w.ev w.unixDomainSocketFd
      return { w with ev := ev } : Except Fault Worker) = .ok next ∧
      TouchesDelivered mask outcome w next := by
  obtain ⟨_, hwatched⟩ := inv.unixSocket
  obtain ⟨ev, hunset, _, _⟩ := unsetEvent_spec hwatched
  rw [hunset]
  exact ⟨{ w with ev := ev }, rfl, Or.inl ⟨rfl, rfl, rfl, rfl, Or.inr ⟨hunset, cause⟩⟩⟩

/-- A second `fdevents_unset_event` changes nothing. -/
lemma unsetEvent_same_iff {ev next : Fdevents} {fd : Int}
    (h : fdeventsUnsetEvent ev fd = .ok next) :
    next = ev ↔ ∃ n, ev.node fd = some n ∧ n.events = EventMask.none := by
  rw [fdeventsUnsetEvent] at h
  split at h
  · cases hnode : ev.node fd with
    | none =>
      rw [hnode] at h
      cases h
    | some n =>
      rw [hnode] at h
      cases h
      have hput : ∀ ev' : Fdevents, (ev'.setNode fd (some { n with events := EventMask.none })).node
          fd = some { n with events := EventMask.none } := fun _ => Function.update_self _ _ _
      constructor
      · intro hsame
        have hafter := hput (if n.events ≠ EventMask.none then ev.setInterest fd none else ev)
        rw [hsame, hnode] at hafter
        exact ⟨n, rfl, congrArg Fdnode.events (Option.some.inj hafter)⟩
      · rintro ⟨p, hp, hnone⟩
        cases hp
        have hkept : ({ n with events := EventMask.none } : Fdnode) = n := by rw [← hnone]
        rw [if_neg (not_not_intro hnone), hkept, Fdevents.setNode, ← hnode, Fdevents.node,
          Function.update_eq_self]
  · cases h

/-- Where a `recvmsg` that fails leaves its error to the log. -/
lemma fail_touches_iff {config : ServerConfig} {mask : EventMask} (errno : Errno)
    (logged : Option Errno) (fd : Int) (answers : Nat → SysAnswers) {w : Worker}
    (inv : TableInv config w) (hup : mask.epollhup = false) (err : mask.epollerr = false) :
    (∃ next, handleRecvmsg config mask (.fail errno logged) fd answers w = .ok next ∧
      TouchesDelivered mask (.fail errno logged) w next) ↔
    ((RecvmsgOutcome.fail errno logged).masked = true → UnixSocketOff w) := by
  have hhandle : handleRecvmsg config mask (.fail errno logged) fd answers w =
      if passing (logged.getD errno) then .ok w else withoutUnixSocket w := by
    simp only [handleRecvmsg, unixDomainSocketRecvfd, unixDomainSocketHandle, hup, err,
      Bool.false_eq_true, if_false]
    cases logged.getD errno <;> rfl
  rw [hhandle]
  by_cases hmasked : (RecvmsgOutcome.fail errno logged).masked = true
  · rw [imp_iff_right hmasked]
    cases logged with
    | none => cases hmasked
    | some later =>
      obtain ⟨hpasses, hstays⟩ := Bool.and_eq_true_iff.mp hmasked
      rw [Bool.not_eq_true'] at hstays
      rw [Option.getD_some, hstays, if_neg Bool.false_ne_true]
      constructor
      · rintro ⟨next, hnext, huntouched | ⟨f, hf, _⟩⟩
        · obtain ⟨ev, hunset, heq⟩ := bind_eq_ok.mp hnext
          cases heq
          rcases huntouched.ev with hsame | ⟨_, hcause | hcause⟩
          · exact (unsetEvent_same_iff hunset).mp hsame
          · rw [hup] at hcause
            cases hcause
          · rw [RecvmsgOutcome.hard, hpasses] at hcause
            cases hcause
        · cases hf
      · intro off
        obtain ⟨_, hwatched⟩ := inv.unixSocket
        obtain ⟨ev, hunset, _, _⟩ := unsetEvent_spec hwatched
        refine ⟨{ w with ev := ev }, bind_eq_ok.mpr ⟨ev, hunset, rfl⟩, Or.inl ⟨rfl, rfl, rfl, rfl, ?_⟩⟩
        exact Or.inl ((unsetEvent_same_iff hunset).mpr off)
  · refine iff_of_true ?_ (fun h => absurd h hmasked)
    split
    · exact ⟨w, rfl, Or.inl ⟨rfl, rfl, rfl, rfl, Or.inl rfl⟩⟩
    · rename_i hstays
      have hhard : (RecvmsgOutcome.fail errno logged).hard = true := by
        cases logged with
        | none => simpa [RecvmsgOutcome.hard] using hstays
        | some later =>
          simp only [RecvmsgOutcome.masked, RecvmsgOutcome.hard, Option.getD_some] at hmasked hstays ⊢
          simpa [hstays] using hmasked
      exact unset_untouched inv (Or.inr hhard)

/-- The workers of all runs, whatever `recvmsg` answers in them. -/
inductive WorkerReached (config : ServerConfig) (start : Worker) : Worker → Prop where
  | start : WorkerReached config start start
  | unixSocket {w next : Worker} (mask : EventMask) (outcome : RecvmsgOutcome) (fd : Int)
      (answers : Nat → SysAnswers) : WorkerReached config start w →
      handleRecvmsg config mask outcome fd answers w = .ok next → WorkerReached config start next
  | call {w next : Worker} {c : HandlerCall} : WorkerReached config start w → Permitted w c →
      handlerCall config w c = .ok next → WorkerReached config start next

lemma handleRecvmsg_inv {config : ServerConfig} {mask : EventMask} {outcome : RecvmsgOutcome}
    {fd : Int} {answers : Nat → SysAnswers} {w next : Worker} (inv : TableInv config w)
    (h : handleRecvmsg config mask outcome fd answers w = .ok next) : TableInv config next := by
  rw [handleRecvmsg] at h
  rcases handle_cases config answers (unixDomainSocketRecvfd outcome fd) with
    hsame | hunset | ⟨hhup, herr, received, unset, hmessage⟩
  · rw [hsame] at h
    cases h
    exact inv
  · have hkeeps := withoutUnixSocket_keeps inv
    rw [← hunset, h] at hkeeps
    exact keeps_ok hkeeps
  · rw [hmessage] at h
    rcases message_cases config received unset answers inv hhup herr with
      ⟨adopted, hok, hinv, _⟩ | ⟨herror, _⟩
    · rw [h] at hok
      cases hok
      exact hinv
    · rw [h] at herror
      cases herror

theorem reached_inv {config : ServerConfig} {start w : Worker} (inv : TableInv config start)
    (run : WorkerReached config start w) : TableInv config w := by
  induction run with
  | start => exact inv
  | unixSocket mask outcome fd answers _ h ih => exact handleRecvmsg_inv ih h
  | call _ permitted h ih =>
    have hkeeps := handlerCall_keeps ih permitted
    rw [h] at hkeeps
    exact keeps_ok hkeeps

lemma touches_iff {config : ServerConfig} {mask : EventMask} {outcome : RecvmsgOutcome}
    (fd : Int) (answers : Nat → SysAnswers) {w : Worker} (inv : TableInv config w)
    (fresh : ∀ f, outcome.delivered = some f → NotOpen w f) :
    (∃ next, handleRecvmsg config mask outcome fd answers w = .ok next ∧
      TouchesDelivered mask outcome w next) ↔
    (outcome.bare = false ∧ (outcome.masked = true → UnixSocketOff w) ∨
      mask.epollhup = true ∨ mask.epollerr = true) := by
  have hsame : TouchesDelivered mask outcome w w := Or.inl ⟨rfl, rfl, rfl, rfl, Or.inl rfl⟩
  by_cases hhup : mask.epollhup = true
  · simp only [handleRecvmsg, unixDomainSocketHandle, hhup, if_true]
    exact iff_of_true (unset_untouched inv (Or.inl hhup)) (Or.inr (Or.inl trivial))
  by_cases herr : mask.epollerr = true
  · simp only [handleRecvmsg, unixDomainSocketHandle, if_neg hhup, herr, if_true]
    exact iff_of_true ⟨w, rfl, hsame⟩ (Or.inr (Or.inr trivial))
  have hclear : (outcome.bare = false ∧ (outcome.masked = true → UnixSocketOff w) ∨
      mask.epollhup = true ∨ mask.epollerr = true) ↔
      outcome.bare = false ∧ (outcome.masked = true → UnixSocketOff w) := by
    constructor
    · rintro (h | h | h)
      · exact h
      · exact absurd h hhup
      · exact absurd h herr
    · exact Or.inl
  rw [hclear]
  cases outcome with
  | fail errno logged =>
    exact (fail_touches_iff errno logged fd answers inv (Bool.eq_false_iff.mpr hhup)
      (Bool.eq_false_iff.mpr herr)).trans (and_iff_right rfl).symm
  | endOfFile =>
    refine iff_of_true ?_ ⟨rfl, fun h => by cases h⟩
    simp only [handleRecvmsg, unixDomainSocketRecvfd, unixDomainSocketHandle, if_neg hhup,
      if_neg herr]
    exact unset_untouched inv (Or.inr rfl)
  | data header =>
    have hcases := message_cases config (storedFd header) fd answers inv
      (Bool.eq_false_iff.mpr hhup) (Bool.eq_false_iff.mpr herr)
    rw [and_iff_left (show (RecvmsgOutcome.data header).masked = true → UnixSocketOff w from
      fun h => by cases h)]
    change (∃ next, unixDomainSocketHandle config mask (.message (storedFd header) fd) answers w =
      .ok next ∧ _) ↔ (storedFd header).isNone = false
    cases hstored : storedFd header with
    | none =>
      rw [hstored] at hcases
      refine iff_of_false ?_ Bool.noConfusion
      rintro ⟨next, hnext, htouches⟩
      rcases hcases with ⟨adopted, hok, _, hadopted⟩ | ⟨herror, _⟩
      · rw [hnext] at hok
        cases hok
        rcases htouches with huntouched | ⟨f, hf, _⟩
        · exact hadopted.touches huntouched
        · have hnone : storedFd header = some f := hf
          rw [hstored] at hnone
          cases hnone
      · rw [hnext] at herror
        cases herror
    | some f =>
      rw [hstored] at hcases
      refine iff_of_true ?_ rfl
      have hfresh := fresh f hstored
      rcases hcases with ⟨adopted, hok, _, hadopted⟩ | ⟨_, hnot⟩
      · exact ⟨adopted, hok, Or.inr ⟨f, hstored, hadopted.onlyFor inv⟩⟩
      · exact absurd ⟨hfresh.range, hfresh.free inv⟩ hnot

/-- In every worker state that can be reached, the handler registers or closes
only what its `recvmsg` has delivered, and gives the unix socket up only after
an error that stays, if and only if that was not data without a descriptor, nor
a passing error that the log has overwritten. A descriptor that is delivered is
new to the worker. -/
theorem touches_delivered_iff {config : ServerConfig} {maxFd sizes : Nat} {epollCtl : CtlAnswers}
    {unixFd timerFd now : Int} {start w : Worker} {mask : EventMask} {outcome : RecvmsgOutcome}
    (fd : Int) (answers : Nat → SysAnswers)
    (started : workerStart maxFd epollCtl sizes unixFd timerFd now = .ok start)
    (run : WorkerReached config start w) (fresh : ∀ f, outcome.delivered = some f → NotOpen w f) :
    (∃ next, handleRecvmsg config mask outcome fd answers w = .ok next ∧
      TouchesDelivered mask outcome w next) ↔
    (outcome.bare = false ∧ (outcome.masked = true → UnixSocketOff w) ∨
      mask.epollhup = true ∨ mask.epollerr = true) :=
  touches_iff fd answers (reached_inv (workerStart_inv config started) run) fresh

/-- The header that `sendmsg` in the parent makes for descriptor 5. -/
def sampleHeader : Cmsghdr := ⟨20, 1, 1, 5⟩

theorem touches_delivered_sample : ∃ start next, workerStart 16 ctlSucceeds 4 3 4 0 = .ok start ∧
    handleRecvmsg setConfigDefault EventMask.input (.data (some sampleHeader)) 0
      (fun _ => SysAnswers.failing) start = .ok next ∧
    TouchesDelivered EventMask.input (.data (some sampleHeader)) start next := by
  obtain ⟨start, hstart, hnew⟩ : ∃ start,
      workerStart 16 ctlSucceeds 4 3 4 0 = .ok start ∧ NotOpen start 5 :=
    ⟨_, rfl, ⟨by decide, by decide⟩, by decide, by decide, by decide⟩
  have fresh : ∀ f, (RecvmsgOutcome.data (some sampleHeader)).delivered = some f →
      NotOpen start f := by
    intro f hf
    obtain rfl : 5 = f := Option.some.inj hf
    exact hnew
  obtain ⟨next, hnext, htouches⟩ := (@touches_delivered_iff setConfigDefault _ _ _ _ _ _ _ _
    EventMask.input _ 0 (fun _ => SysAnswers.failing) hstart .start fresh).mpr
      (Or.inl ⟨rfl, fun h => by cases h⟩)
  exact ⟨start, next, hstart, hnext, htouches⟩

/-- Data without control data: the worker adopts whatever number is found in
`connection_fd`, here 5. -/
theorem bare_message_adopted : ∃ start next, workerStart 16 ctlSucceeds 4 3 4 0 = .ok start ∧
    handleRecvmsg setConfigDefault EventMask.input (.data none) 5
      (fun _ => SysAnswers.failing) start = .ok next ∧
    (slotConn next 0).map (fun slot => slot.2.connSocketFd) = some 5 ∧
    ¬ TouchesDelivered EventMask.input (.data none) start next := by
  obtain ⟨start, next, hstart, hnext, hslot⟩ : ∃ start next,
      workerStart 16 ctlSucceeds 4 3 4 0 = .ok start ∧
      handleRecvmsg setConfigDefault EventMask.input (.data none) 5
        (fun _ => SysAnswers.failing) start = .ok next ∧
      (slotConn next 0).map (fun slot => slot.2.connSocketFd) = some 5 :=
    ⟨_, _, rfl, rfl, rfl⟩
  refine ⟨start, next, hstart, hnext, hslot, fun htouches => ?_⟩
  have hiff := @touches_iff setConfigDefault EventMask.input (.data none) 5
    (fun _ => SysAnswers.failing) start (workerStart_inv _ hstart) (fun f hf => by cases hf)
  rcases hiff.mp ⟨next, hnext, htouches⟩ with ⟨h, _⟩ | h | h
  · cases h
  · cases h
  · cases h

end DescriptorTransfer
