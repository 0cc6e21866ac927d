import Minihttpd.FdEvents
import Minihttpd.HttpConnection

/-!
# The connection state machine

`connection_state_machine` and `connection_event_handle`. A machine is one
connection with the clock and the event registrations of its worker, and the
trace of what the connection has done. `Reached` generates every machine that
occurs between two states of a call, and every machine at rest between calls.
-/
namespace StateMachine

open ByteBuffer SystemCalls FdEvents ChunkQueue ConnectionTypes HttpRequest HttpResponse
open HttpConnection

structure Machine where
  curTs : Int
  conn : Connection
  ev : Fdevents
  trace : List Event

def Machine.emit (m : Machine) (events : List Event) : Machine :=
  { m with trace := m.trace ++ events }

/-- The connection and its events after one state has been handled. -/
def Machine.advance (m : Machine) (conn : Connection) (events : List Event) : Machine :=
  { m with conn := conn, trace := m.trace ++ events }

/-- The descriptors closed in the course of a trace. -/
def socketCloses (trace : List Event) : List Int :=
  trace.filterMap fun
    | .socketClose fd => some fd
    | _ => none

def connectionClose (m : Machine) : Except Fault Machine := do
  let fd := m.conn.connSocketFd
  let ev ← fdeventsUnsetEvent m.ev fd
  let ev ← fdeventsUnregisterFd ev fd
  return { m with
    ev := ev
    trace := m.trace ++ [.socketClose fd]
    conn := { m.conn with connSocketFd := -1, state := .connect } }

/-- The fields cleared on entry to `CON_STATE_REQUEST_END`. -/
def clearRequest (conn : Connection) : Connection :=
  { conn with
    httpStatus := 0
    connectionRequest := { conn.connectionRequest with
      httpMethod := bufferReset conn.connectionRequest.httpMethod
      httpVersion := .unset
      httpRange := bufferReset conn.connectionRequest.httpRange
      hostname := bufferReset conn.connectionRequest.hostname
      requestUrl := bufferReset conn.connectionRequest.requestUrl } }

/-- `close_timeout_ts` after a `shutdown` answered by `shutdownOk`. -/
def closeTimeout (curTs : Int) (shutdownOk : Bool) : Int :=
  if shutdownOk then curTs else curTs - (minihttpdCloseTimeout + 1)

/-- Whether `read` in `CON_STATE_CLOSE` says that the peer is gone. -/
def peerGone : ReadAnswer → Bool
  | .data available => available.isEmpty
  | .fail .eintr => false
  | .fail .eagain => false
  | .fail _ => true

def readEvents (bytes : Bytes) : List Event := if bytes = [] then [] else [.socketRead bytes]

def writeEvents (bytes : Bytes) : List Event := if bytes = [] then [] else [.socketWrite bytes]

def handleRequestEnd (config : ServerConfig) (m : Machine) : Except Fault Machine := do
  let conn := clearRequest m.conn
  let content := conn.connectionRequest.requestContent.str
  let (_, conn) ← httpReuqestParse config conn
  return m.advance { conn with state := .handleRequest } [.parse content]

def handleHandleRequest (config : ServerConfig) (ans : SysAnswers) (m : Machine) :
    Except Fault Machine := do
  let (_, conn, events) ← httpRequestHandle config ans
    { m.conn with connectionResponse := responseInitialize }
  return m.advance { conn with state := .responseStart } events

def handleResponseStart (config : ServerConfig) (ans : SysAnswers) (m : Machine) :
    Except Fault Machine := do
  let conn ← connectionHandlePrepareResponseHead config ans m.conn
  return m.advance { conn with state := .write }
    [.respond conn.httpStatus (conn.writequeue.active.map chunkSegment)]

def handleResponseEnd (ans : SysAnswers) (m : Machine) : Machine :=
  if m.conn.keepAlive then
    m.advance (connectionReset { m.conn with state := .requestStart }) []
  else
    m.advance (connectionReset { m.conn with
      closeTimeoutTs := closeTimeout m.curTs ans.shutdown, state := .close }) [.shutdown]

def handleWrite (ans : SysAnswers) (m : Machine) : Except Fault Machine :=
  if chunkqueueLength m.conn.writequeue ≠ 0 then do
    let (conn, bytes) ← connectionHandleWriteState m.curTs ans m.conn
    return m.advance conn (writeEvents bytes)
  else if m.conn.httpResponseBodyFinished then
    .ok (m.advance { m.conn with state := .responseEnd } [])
  else .ok m

def handleError (ans : SysAnswers) (m : Machine) : Machine :=
  m.advance (connectionReset { m.conn with
    keepAlive := false, closeTimeoutTs := closeTimeout m.curTs ans.shutdown, state := .close })
    [.shutdown]

def handleClose (ans : SysAnswers) (m : Machine) : Except Fault Machine :=
  let closeTimeoutTs := if peerGone ans.read then m.curTs - (minihttpdCloseTimeout + 1)
    else m.conn.closeTimeoutTs
  let m := m.advance { m.conn with closeTimeoutTs := closeTimeoutTs } []
  if m.curTs - closeTimeoutTs > minihttpdCloseTimeout then connectionClose m else .ok m

/-- One turn of the loop: the switch on the state. -/
def connectionIteration (config : ServerConfig) (ans : SysAnswers) (m : Machine) :
    Except Fault Machine :=
  let m := m.emit [.state m.conn.state]
  match m.conn.state with
  | .requestStart =>
    .ok (m.advance { m.conn with
      startTs := ans.time, activeReadTs := ans.time, state := .read } [])
  | .requestEnd => handleRequestEnd config m
  | .handleRequest => handleHandleRequest config ans m
  | .responseStart => handleResponseStart config ans m
  | .responseEnd => .ok (handleResponseEnd ans m)
  | .read => do
    let (conn, bytes) ← connectionHandleReadState config m.curTs ans m.conn
    return m.advance conn (readEvents bytes)
  | .write => handleWrite ans m
  | .error => .ok (handleError ans m)
  | .close => handleClose ans m
  | .connect => .ok m

lemma iteration_write {config : ServerConfig} {ans : SysAnswers} {m : Machine}
    (state : m.conn.state = .write) :
    connectionIteration config ans m = handleWrite ans (m.emit [.state .write]) := by
  simp only [connectionIteration, Machine.emit, state]

lemma iteration_responseEnd {config : ServerConfig} {ans : SysAnswers} {m : Machine}
    (state : m.conn.state = .responseEnd) :
    connectionIteration config ans m = .ok (handleResponseEnd ans (m.emit [.state .responseEnd])) := by
  simp only [connectionIteration, Machine.emit, state]

/-- The loop `while(!handle_done)`; the answers are numbered by its turns. -/
def stateLoop (config : ServerConfig) (answers : Nat → SysAnswers) :
    Nat → Nat → Machine → Except Fault Machine
  | 0, _, _ => .error .outOfFuel
  | fuel + 1, turn, m => do
    let next ← connectionIteration config (answers turn) m
    if next.conn.state = m.conn.state then return next
    else stateLoop config answers fuel (turn + 1) next

/-- The switch behind the loop, for a connection that has not been closed. -/
def updateInterest (m : Machine) : Except Fault Machine := do
  let fd := m.conn.connSocketFd
  match m.conn.state with
  | .read =>
    let ev ← fdeventsSetEvents m.ev fd EventMask.input
    return { m with ev := ev }
  | .close =>
    let ev ← fdeventsSetEvents m.ev fd EventMask.input
    return { m with ev := ev }
  | .write =>
    let ev ← if chunkqueueLength m.conn.writequeue ≠ 0 ∧ m.conn.writeable = false then
        fdeventsSetEvents m.ev fd EventMask.output
      else fdeventsUnsetEvent m.ev fd
    return { m with ev := ev }
  | _ => return m

/-- `connection_state_machine`, up to the release of a connection that has
reached `CON_STATE_CONNECT`. A call passes at most one request and at most
eleven changes of state. -/
def connectionStateMachine (config : ServerConfig) (answers : Nat → SysAnswers) (m : Machine) :
    Except Fault Machine := do
  let m ← stateLoop config answers 16 0 m
  if m.conn.state = .connect then return m
  else updateInterest m

/-- `connection_event_handle` in front of the state machine. -/
def noteEvents (mask : EventMask) (now : Int) (conn : Connection) : Connection :=
  let conn := if mask.epollin then { conn with readable := true } else conn
  let conn := if mask.epollout then { conn with writeable := true } else conn
  if mask.epollhup then
    if conn.state = .close then { conn with closeTimeoutTs := now - (minihttpdCloseTimeout + 1) }
    else { conn with state := .error }
  else if mask.epollerr then { conn with state := .error }
  else conn

/-- The tests of `worker_timer_expire_handler`: the connection to run the
state machine on, or none when it is not overdue. -/
def timerExpire (config : ServerConfig) (curTs : Int) (conn : Connection) : Option Connection :=
  if conn.state = .read ∧ curTs - conn.activeReadTs > config.maxReadIdleTs then
    some { conn with state := .error }
  else if conn.state = .write ∧ conn.activeWriteTs ≠ 0 ∧
      curTs - conn.activeWriteTs > config.maxWriteIdleTs then
    some { conn with state := .error }
  else if conn.state = .close ∧ curTs - conn.closeTimeoutTs > minihttpdCloseTimeout then
    some conn
  else none

/-- What a worker can do to a connection at rest. -/
inductive ConnInput where
  | event (mask : EventMask) (now : Int) (answers : Nat → SysAnswers)
  | tick (now : Int) (answers : Nat → SysAnswers)

def connectionInput (config : ServerConfig) (m : Machine) : ConnInput → Except Fault Machine
  | .event mask now answers =>
    connectionStateMachine config answers { m with conn := noteEvents mask now m.conn }
  | .tick now answers =>
    if now = m.curTs then .ok m
    else
      let m := { m with curTs := now }
      match timerExpire config now m.conn with
      | none => .ok m
      | some conn => connectionStateMachine config answers { m with conn := conn }

/-- A machine as `unix_domain_socket_handle` hands it to the state machine. -/
structure Accepted (m : Machine) : Prop where
  conn : ∃ index fd, m.conn =
    { connectionSetDefault with connectionIndex := index, connSocketFd := fd }
  range : m.ev.InRange m.conn.connSocketFd
  node : ∃ n, m.ev.node m.conn.connSocketFd = some n ∧ n.events = EventMask.none
  absent : m.ev.interest m.conn.connSocketFd.toNat = none
  trace : m.trace = []

inductive Phase where
  | running
  | resting
  deriving DecidableEq, Repr

/-- The machines of all runs of one connection: in a call in front of a turn
of the loop, or between two calls. -/
inductive Reached (config : ServerConfig) : Phase → Machine → Prop where
  | accepted {m : Machine} : Accepted m → Reached config .running m
  | turn {m next : Machine} {ans : SysAnswers} : Reached config .running m →
      connectionIteration config ans m = .ok next → next.conn.state ≠ m.conn.state →
      Reached config .running next
  | settled {m next rest : Machine} {ans : SysAnswers} : Reached config .running m →
      connectionIteration config ans m = .ok next → next.conn.state = m.conn.state →
      next.conn.state ≠ .connect → updateInterest next = .ok rest → Reached config .resting rest
  | event {m : Machine} (mask : EventMask) (now : Int) : Reached config .resting m →
      Reached config .running { m with conn := noteEvents mask now m.conn }
  | clock {m : Machine} (now : Int) : Reached config .resting m →
      Reached config .resting { m with curTs := now }
  | expired {m : Machine} {conn : Connection} : Reached config .resting m →
      timerExpire config m.curTs m.conn = some conn →
      Reached config .running { m with conn := conn }

end StateMachine
