import Minihttpd.LoadBalance
import Minihttpd.HandlerActs
import Minihttpd.Library.OpenTable

/-!
# The server as a system of processes

The main process and its workers, from the end of the fork loop on. They share
the unix sockets, through which the main process hands connections over, and
the signals; every process takes its steps at any time. A connection is known
by its number: `accept` counts them. What the kernel keeps of a worker process
is beside its state: the messages on its unix socket, and the table of its
descriptors, which says of which connection an open one is.
-/
namespace ServerSystem

open ByteBuffer SystemCalls FdEvents ConnectionTypes HttpConnection StateMachine HttpWorker
open ConnectionRuns WorkerTable AnsweredRuns HandlerActs MainLoop OpenTable FailingRun

/-- What `signal_handler` is set up for. A SIGCHLD is an event of the main
process, `MainEvent.exit`. -/
inductive Signal where
  | sigpipe
  | sigint
  | sigterm
  deriving DecidableEq, Repr

structure SignalFlags where
  signalPipeHandled : Bool
  gracefulShutdown : Bool
  serverShutdown : Bool
  deriving DecidableEq, Repr

def SignalFlags.initial : SignalFlags := ⟨false, false, false⟩

def signalHandler (flags : SignalFlags) : Signal → SignalFlags
  | .sigpipe => { flags with signalPipeHandled := true }
  | .sigterm => { flags with serverShutdown := true }
  | .sigint =>
    if flags.gracefulShutdown then { flags with serverShutdown := true }
    else { flags with gracefulShutdown := true }

/-- A worker process. `sent`, `delivered` and `closed` record the connections
whose descriptors were sent to it, received by it and closed by it, and `log`
what its handlers have done on the connections. -/
structure WorkerProcess where
  worker : Worker
  flags : SignalFlags
  inBatch : Bool
  exited : Bool
  channel : List Nat
  table : Int → Option Nat
  sent : List Nat
  delivered : List Nat
  closed : List Nat
  log : List (Nat × List Event)

/-- The connections that are open in the process. -/
def WorkerProcess.opened (p : WorkerProcess) : List Nat := names p.table (heldFds p.worker)

/-- The process after a handler: the kernel closes what the handler has closed. -/
def WorkerProcess.handled (config : ServerConfig) (p : WorkerProcess) (c : HandlerCall)
    (next : Worker) : WorkerProcess :=
  let after := closeAll p.table (next.closed.drop p.worker.closed.length)
  { p with
    worker := next
    table := after.1
    closed := p.closed ++ after.2
    log := p.log ++ handlerLog config p.worker c }

/-- `recvmsg` takes the first message off the unix socket, and the kernel opens
its connection under a descriptor of its choice. -/
def WorkerProcess.received (p : WorkerProcess) (fd : Int) (connection : Nat) (rest : List Nat) :
    WorkerProcess :=
  { p with
    channel := rest
    table := Function.update p.table fd (some connection)
    delivered := p.delivered ++ [connection] }

/-- A descriptor that the kernel may give to a message. -/
structure FreeFd (p : WorkerProcess) (fd : Int) : Prop where
  range : p.worker.ev.InRange fd
  unixSocket : fd ≠ p.worker.unixDomainSocketFd
  timer : fd ≠ p.worker.timerFd
  unused : p.table fd = none

/-- The whole server. `hand` is the connection behind `connection_fd`, between
its `accept` and its `close` in the main process. -/
structure System where
  main : Main
  flags : SignalFlags
  signals : List Signal
  inBody : Bool
  left : Bool
  accepted : Nat
  hand : Option Nat
  refused : List Nat
  worker : Nat → WorkerProcess

def System.setWorker (s : System) (i : Nat) (p : WorkerProcess) : System :=
  { s with worker := Function.update s.worker i p }

@[simp] lemma System.setWorker_self (s : System) (i : Nat) (p : WorkerProcess) :
    (s.setWorker i p).worker i = p := by
  simp only [System.setWorker, Function.update_self]

/-- The main process goes on in the body of its loop, or back to its test. -/
def System.setMain (s : System) (main : Main) : System :=
  { s with main := main, inBody := decide (main.place ≠ .testFlag) }

def System.Alive (s : System) (i : Nat) : Prop :=
  ∃ c, s.main.child[i]? = some c ∧ s.main.process c.pid = .alive

/-- A step of the main process that no connection is part of. -/
def Silent : MainEvent → Prop
  | .testFlag => True
  | .waitpid _ => True
  | .mark => True
  | .clearFlag => True
  | .accept connected => connected = false
  | _ => False

/-- The descriptor that a handler gets with a message. -/
def messageFds : HandlerCall → List Int
  | .unixDomainSocket mask (.message fd unset) _ =>
    if mask.epollhup ∨ mask.epollerr then [] else [fd.getD unset]
  | _ => []

/-- The event is about a descriptor of the worker. -/
def Registered (w : Worker) : HandlerCall → Prop
  | .connection address _ _ _ => ∃ k n, w.ev.handlerArray k = some n ∧ n.ctx = .connection address
  | _ => True

/-- The steps of the system. Every message that a worker receives carries its
descriptor, under a number in range: left out are the runs in which `recvmsg` has
to discard one, because the worker has none free. The answers that the system
calls of the workers get are such as `admits` says. -/
inductive Step (config : ServerConfig) (admits : SysAnswers → Prop) (s : System) :
    System → Prop where
  | signal (signo : Signal) : Step config admits s
      { s with flags := signalHandler s.flags signo, signals := s.signals ++ [signo] }
  | signalWorker (i : Nat) (signo : Signal) : Step config admits s
      (s.setWorker i { s.worker i with flags := signalHandler (s.worker i).flags signo })
  | enters : s.main.place = .testFlag → s.inBody = false → s.left = false →
      s.flags.serverShutdown = false → Step config admits s { s with inBody := true }
  | leaves : s.main.place = .testFlag → s.inBody = false → s.flags.serverShutdown = true →
      Step config admits s { s with left := true }
  | moves (event : MainEvent) (main : Main) : s.inBody = true → Silent event →
      mainStep s.main event = .ok main → Step config admits s (s.setMain main)
  | accepts (main : Main) : s.inBody = true → mainStep s.main (.accept true) = .ok main →
      Step config admits s { s.setMain main with
        accepted := s.accepted + 1
        hand := some s.accepted }
  | picks (main : Main) : s.inBody = true → mainStep s.main .pick = .ok main →
      main.place ≠ .testFlag → Step config admits s (s.setMain main)
  | refuses (main : Main) (connection : Nat) : s.inBody = true → mainStep s.main .pick = .ok main →
      main.place = .testFlag → s.hand = some connection →
      Step config admits s { s.setMain main with
        hand := none
        refused := s.refused ++ [connection] }
  | sends (main : Main) (i connection : Nat) : s.inBody = true → s.main.place = .send i →
      s.Alive i → mainStep s.main (.send true) = .ok main → s.hand = some connection →
      Step config admits s { (s.setMain main).setWorker i { s.worker i with
        channel := (s.worker i).channel ++ [connection]
        sent := (s.worker i).sent ++ [connection] } with hand := none }
  | sendFails (main : Main) (connection : Nat) : s.inBody = true →
      mainStep s.main (.send false) = .ok main → s.hand = some connection →
      Step config admits s { s.setMain main with
        hand := none
        refused := s.refused ++ [connection] }
  | kills : s.left = true → Step config admits s { s with
      worker := fun i => { s.worker i with flags := signalHandler (s.worker i).flags .sigterm } }
  | polls (i : Nat) : s.Alive i → (s.worker i).inBatch = false →
      loopGoesOn (s.worker i).flags.serverShutdown (s.worker i).worker →
      Step config admits s (s.setWorker i { s.worker i with inBatch := true })
  | batchEnds (i : Nat) : s.Alive i → (s.worker i).inBatch = true →
      Step config admits s (s.setWorker i { s.worker i with inBatch := false })
  | handles (i : Nat) (c : HandlerCall) (next : Worker) : s.Alive i → (s.worker i).inBatch = true →
      messageFds c = [] → Registered (s.worker i).worker c → Admitted admits c →
      handlerCall config (s.worker i).worker c = .ok next →
      Step config admits s (s.setWorker i ((s.worker i).handled config c next))
  | receives (i connection : Nat) (rest : List Nat) (fd unset : Int) (mask : EventMask)
      (answers : Nat → SysAnswers) (next : Worker) : s.Alive i → (s.worker i).inBatch = true →
      mask.epollhup = false → mask.epollerr = false →
      (s.worker i).channel = connection :: rest → FreeFd (s.worker i) fd →
      (∀ k, admits (answers k)) → handlerCall config (s.worker i).worker
        (.unixDomainSocket mask (.message (some fd) unset) answers) = .ok next →
      Step config admits s (s.setWorker i
        (((s.worker i).received fd connection rest).handled config
          (.unixDomainSocket mask (.message (some fd) unset) answers) next))
  | exits (i : Nat) (c : ServerChild) (main : Main) (next : Worker) (fds : List Int) :
      s.main.child[i]? = some c → mainStep s.main (.exit c.pid) = .ok main →
      (s.worker i).inBatch = false →
      ¬ loopGoesOn (s.worker i).flags.serverShutdown (s.worker i).worker →
      workerFinish (s.worker i).worker = .ok (next, fds) →
      Step config admits s ({ s with main := main }.setWorker i { s.worker i with
        worker := next, exited := true })
  | dies (i : Nat) (c : ServerChild) (main : Main) : s.main.child[i]? = some c →
      mainStep s.main (.exit c.pid) = .ok main → Step config admits s { s with main := main }

/-- The main process in front of its loop, with its workers in front of theirs. -/
structure Begun (s : System) : Prop where
  main : Started s.main
  pids : (s.main.child.map ServerChild.pid).Nodup
  alive : ∀ c ∈ s.main.child, s.main.process c.pid = .alive
  flags : s.flags = .initial
  signals : s.signals = []
  inBody : s.inBody = false
  left : s.left = false
  accepted : s.accepted = 0
  hand : s.hand = none
  refused : s.refused = []
  started : ∀ i, i < s.main.child.length → ∃ maxFd epollCtl sizes unixFd timerFd now,
    workerStart maxFd epollCtl sizes unixFd timerFd now = .ok (s.worker i).worker
  fresh : ∀ i, (s.worker i).flags = .initial ∧ (s.worker i).inBatch = false ∧
    (s.worker i).exited = false ∧ (s.worker i).channel = [] ∧
    (s.worker i).table = (fun _ => none) ∧ (s.worker i).sent = [] ∧
    (s.worker i).delivered = [] ∧ (s.worker i).closed = [] ∧ (s.worker i).log = []

inductive Runs (config : ServerConfig) (admits : SysAnswers → Prop) (start : System) :
    System → Prop where
  | start : Runs config admits start start
  | step {s t : System} : Runs config admits start s → Step config admits s t →
      Runs config admits start t

end ServerSystem
