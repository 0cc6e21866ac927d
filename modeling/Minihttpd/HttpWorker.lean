import Minihttpd.StateMachine

/-!
# The worker

`worker.cpp` and the event loop of a worker in `main.cpp`. Connections live in
a heap and are known by their addresses; the slots of `conn[]`, and the event
contexts, hold addresses. An address is never handed out twice, so it stands
for the identity of a connection. `received` and `closed` record descriptors.
-/
namespace HttpWorker

open ByteBuffer SystemCalls FdEvents ChunkQueue ConnectionTypes HttpConnection StateMachine

structure Worker where
  conn : List (Option Nat)
  curConnectionNumber : Nat
  ev : Fdevents
  unixDomainSocketFd : Int
  timerFd : Int
  curTs : Int
  heap : Nat → Option Connection
  nextAddress : Nat
  received : List Int
  closed : List Int

def Worker.connMaxSize (w : Worker) : Nat := w.conn.length

def Worker.setHeap (w : Worker) (address : Nat) (conn : Option Connection) : Worker :=
  { w with heap := Function.update w.heap address conn }

/-- `worker_connection_initialize` and the registrations made before the loop. -/
def workerStart (maxFd : Nat) (epollCtl : CtlAnswers) (maxConnectionSizes : Nat)
    (unixDomainSocketFd timerFd now : Int) : Except Fault Worker := do
  let ev := fdeventInitialize maxFd epollCtl
  let ev ← fdeventsRegisterFd ev unixDomainSocketFd .unixDomainSocket
  let ev ← fdeventsSetEvents ev unixDomainSocketFd EventMask.input
  let ev ← fdeventsRegisterFd ev timerFd .timer
  let ev ← fdeventsSetEvents ev timerFd EventMask.input
  return ⟨List.replicate maxConnectionSizes none, 0, ev, unixDomainSocketFd, timerFd, now,
    fun _ => none, 0, [], []⟩

def workerGetNewConnection (w : Worker) : Except Fault (Option (Nat × Worker)) :=
  if w.curConnectionNumber ≥ w.connMaxSize then .ok none
  else
    match w.conn.findIdx? Option.isNone with
    | none => .error .registration
    | some index =>
      let address := w.nextAddress
      .ok (some (address, { w with
        conn := w.conn.set index (some address)
        curConnectionNumber := w.curConnectionNumber + 1
        heap := Function.update w.heap address
          (some { connectionSetDefault with connectionIndex := index })
        nextAddress := address + 1 }))

/-- The connection is unlinked from its slot and freed. -/
def releaseConnection (w : Worker) (address index : Nat) : Worker :=
  { w with
    conn := w.conn.set index none
    curConnectionNumber := w.curConnectionNumber - 1
    heap := Function.update w.heap address none }

/-- `connection_state_machine` on the connection at `address`. -/
def workerStateMachine (config : ServerConfig) (answers : Nat → SysAnswers) (w : Worker)
    (address : Nat) : Except Fault Worker :=
  match w.heap address with
  | none => .error .nullPointer
  | some conn => do
    let m ← connectionStateMachine config answers ⟨w.curTs, conn, w.ev, []⟩
    let w := { w with ev := m.ev, closed := w.closed ++ socketCloses m.trace }
    if m.conn.state = .connect then return releaseConnection w address m.conn.connectionIndex
    else return w.setHeap address (some m.conn)

def connectionEventHandle (config : ServerConfig) (mask : EventMask) (now : Int)
    (answers : Nat → SysAnswers) (w : Worker) (address : Nat) : Except Fault Worker :=
  match w.heap address with
  | none => .error .nullPointer
  | some conn =>
    workerStateMachine config answers (w.setHeap address (some (noteEvents mask now conn))) address

/-- `recvmsg`: a failure is logged, which may leave another `errno` behind;
`message` carries the descriptor of an SCM_RIGHTS message or none, in which case
`connection_fd` keeps the value it happens to have. -/
inductive RecvAnswer where
  | fail (errno : Errno) (logged : Option Errno)
  | endOfFile
  | message (fd : Option Int) (unset : Int)
  deriving DecidableEq, Repr

def unixDomainSocketHandle (config : ServerConfig) (mask : EventMask) (recv : RecvAnswer)
    (answers : Nat → SysAnswers) (w : Worker) : Except Fault Worker :=
  let withoutSocket := do
    let ev ← fdeventsUnsetEvent w.ev w.unixDomainSocketFd
    return { w with ev := ev }
  if mask.epollhup then withoutSocket
  else if mask.epollerr then .ok w
  else
    match recv with
    | .fail errno logged =>
      match logged.getD errno with
      | .eintr => .ok w
      | .eagain => .ok w
      | _ => withoutSocket
    | .endOfFile => withoutSocket
    | .message fd unset => do
      let connectionFd := fd.getD unset
      let w := { w with received := w.received ++ [connectionFd] }
      match ← workerGetNewConnection w with
      | none => return { w with closed := w.closed ++ [connectionFd] }
      | some (address, w) =>
        let ev ← fdeventsRegisterFd w.ev connectionFd (.connection address)
        let conn := (w.heap address).map (fun conn => { conn with connSocketFd := connectionFd })
        workerStateMachine config answers { w.setHeap address conn with ev := ev } address

/-- The body of the loop over the slots. -/
def sweepSlot (config : ServerConfig) (answers : Nat → Nat → SysAnswers) (w : Worker)
    (connectionIndex : Nat) : Except Fault Worker :=
  match w.conn.getD connectionIndex none with
  | none => .ok w
  | some address =>
    match w.heap address with
    | none => .error .nullPointer
    | some conn =>
      match timerExpire config w.curTs conn with
      | none => .ok w
      | some conn =>
        workerStateMachine config (answers connectionIndex) (w.setHeap address (some conn)) address

/-- The answers are numbered by the slot first. -/
def workerTimerExpireHandler (config : ServerConfig) (mask : EventMask) (now : Int)
    (answers : Nat → Nat → SysAnswers) (w : Worker) : Except Fault Worker :=
  if mask.epollin = false then .ok w
  else if now = w.curTs then .ok w
  else (List.range w.connMaxSize).foldlM (sweepSlot config answers) { w with curTs := now }

/-- One event of a batch, with the answers its handler meets. -/
structure BatchEvent where
  fd : Int
  mask : EventMask
  now : Int
  recv : RecvAnswer
  answers : Nat → Nat → SysAnswers

/-- One turn of the loop over the events `epoll_wait` has returned. -/
def dispatchEvent (config : ServerConfig) (w : Worker) (e : BatchEvent) : Except Fault Worker := do
  match ← fdeventsGetHandle w.ev e.fd with
  | .unixDomainSocket => unixDomainSocketHandle config e.mask e.recv (e.answers 0) w
  | .timer => workerTimerExpireHandler config e.mask e.now e.answers w
  | .connection address => connectionEventHandle config e.mask e.now (e.answers 0) w address

def dispatchBatch (config : ServerConfig) (w : Worker) (batch : List BatchEvent) :
    Except Fault Worker :=
  batch.foldlM (dispatchEvent config) w

/-- The condition of the event loop. -/
def loopGoesOn (serverShutdown : Bool) (w : Worker) : Prop :=
  serverShutdown = false ∨ w.curConnectionNumber > 0

instance (serverShutdown : Bool) (w : Worker) : Decidable (loopGoesOn serverShutdown w) :=
  inferInstanceAs (Decidable (_ ∨ _))

/-- `worker_free_connectons` frees the array of the slots and no connection. -/
def workerFreeConnectons (w : Worker) : Worker := { w with conn := [] }

/-- What follows the event loop, with the descriptors that are closed there. -/
def workerFinish (w : Worker) : Except Fault (Worker × List Int) := do
  let w := workerFreeConnectons w
  let ev ← fdeventsUnsetEvent w.ev w.timerFd
  let ev ← fdeventsUnregisterFd ev w.timerFd
  let ev ← fdeventsUnsetEvent ev w.unixDomainSocketFd
  let ev ← fdeventsUnregisterFd ev w.unixDomainSocketFd
  return ({ w with ev := ev }, [w.timerFd, w.unixDomainSocketFd])

end HttpWorker
