import Minihttpd.ByteBuffer
import Minihttpd.Library.FailingRun
import Mathlib.Logic.Function.Basic

/-!
# The main process

The accept loop of `main.cpp`, cut into the steps at which a signal can come
in between: the test of `signal_child_handled`, each `waitpid`, the marking of
a worker, the clearing of the flag, `accept`, the pick, and the send. A worker
may exit at any time, and its SIGCHLD sets the flag. The loop runs on until
`server_shutdown`; a run is any part of it from its start.
-/
namespace MainLoop

open ByteBuffer FailingRun

/-- What the main process keeps of a worker: `server_child`. -/
structure ServerChild where
  pid : Nat
  sentConnectionNumber : Nat
  workerRunning : Bool
  deriving DecidableEq, Repr

/-- A worker process as the kernel sees it: once it has exited it is a zombie,
until a `waitpid` has returned its pid. -/
inductive ProcessState where
  | alive
  | zombie
  | reaped
  deriving DecidableEq, Repr

/-- The statement the main process is in front of. -/
inductive Place where
  | testFlag
  | wait
  | mark (exitWorkerPid : Nat)
  | clearFlag
  | accept
  | pick
  | send (pickWorkerIndex : Nat)
  deriving DecidableEq, Repr

structure Main where
  place : Place
  signalChildHandled : Bool
  child : List ServerChild
  process : Nat → ProcessState

/-- The steps of the loop with the answers of their calls, and the exit of a
worker. A `waitpid` without an answer is one that returns no pid. -/
inductive MainEvent where
  | exit (pid : Nat)
  | testFlag
  | waitpid (answer : Option Nat)
  | mark
  | clearFlag
  | accept (connected : Bool)
  | pick
  | send (sent : Bool)
  deriving DecidableEq, Repr

/-- The loop over the workers of the pick, at worker `workerProcessId`. -/
def pickLoop : List ServerChild → Nat → Nat → Nat → Nat
  | [], _, pickWorkerIndex, _ => pickWorkerIndex
  | c :: rest, workerProcessId, pickWorkerIndex, minSentConnections =>
    if c.sentConnectionNumber < minSentConnections ∧ c.workerRunning then
      pickLoop rest (workerProcessId + 1) workerProcessId c.sentConnectionNumber
    else pickLoop rest (workerProcessId + 1) pickWorkerIndex minSentConnections

/-- The index of the picked worker, `worker_number` where there is none. -/
def pickWorker (child : List ServerChild) : Nat := pickLoop child 0 child.length 4294967295

def markExited (exitWorkerPid : Nat) (c : ServerChild) : ServerChild :=
  if c.pid = exitWorkerPid then { c with workerRunning := false } else c

def countSent (c : ServerChild) : ServerChild :=
  { c with sentConnectionNumber := u32 (c.sentConnectionNumber + 1) }

/-- Whether some worker could be reaped. -/
def hasZombie (s : Main) : Bool := s.child.any fun c => s.process c.pid == .zombie

/-- One step, an error where it cannot be taken. A failed `accept` goes back to
the test, whatever its `errno`. -/
def mainStep (s : Main) : MainEvent → Except Unit Main
  | .exit pid =>
    if s.child.any (fun c => c.pid == pid) ∧ s.process pid = .alive then
      .ok { s with process := Function.update s.process pid .zombie, signalChildHandled := true }
    else .error ()
  | .testFlag =>
    if s.place = .testFlag then
      .ok { s with place := if s.signalChildHandled then .wait else .accept }
    else .error ()
  | .waitpid (some pid) =>
    if s.place = .wait ∧ s.process pid = .zombie then
      .ok { s with place := .mark pid, process := Function.update s.process pid .reaped }
    else .error ()
  | .waitpid none =>
    if s.place = .wait ∧ hasZombie s = false then .ok { s with place := .clearFlag }
    else .error ()
  | .mark =>
    match s.place with
    | .mark pid => .ok { s with place := .wait, child := s.child.map (markExited pid) }
    | _ => .error ()
  | .clearFlag =>
    if s.place = .clearFlag then .ok { s with place := .accept, signalChildHandled := false }
    else .error ()
  | .accept connected =>
    if s.place = .accept then .ok { s with place := if connected then .pick else .testFlag }
    else .error ()
  | .pick =>
    if s.place = .pick then
      let pickWorkerIndex := pickWorker s.child
      .ok { s with place :=
        if pickWorkerIndex ≥ s.child.length then .testFlag else .send pickWorkerIndex }
    else .error ()
  | .send sent =>
    match s.place with
    | .send pickWorkerIndex =>
      .ok { s with
        place := .testFlag
        child := if sent then s.child.modify pickWorkerIndex countSent else s.child }
    | _ => .error ()

/-- The state after these steps, an error where one of them cannot be taken. -/
def mainRun (s : Main) (events : List MainEvent) : Except Unit Main := events.foldlM mainStep s

/-- In front of the loop every worker has been forked and is marked as running. -/
structure Started (s : Main) : Prop where
  place : s.place = .testFlag
  running : ∀ c ∈ s.child, c.workerRunning = true ∧ c.sentConnectionNumber = 0

/-- The ways in which a step is taken. -/
inductive Taken (s : Main) : MainEvent → Main → Prop where
  | exit (pid : Nat) : s.process pid = .alive → Taken s (.exit pid)
      { s with process := Function.update s.process pid .zombie, signalChildHandled := true }
  | flagSet : s.place = .testFlag → s.signalChildHandled = true →
      Taken s .testFlag { s with place := .wait }
  | flagClear : s.place = .testFlag → s.signalChildHandled = false →
      Taken s .testFlag { s with place := .accept }
  | reaps (pid : Nat) : s.place = .wait → s.process pid = .zombie → Taken s (.waitpid (some pid))
      { s with place := .mark pid, process := Function.update s.process pid .reaped }
  | drained : s.place = .wait → (∀ c ∈ s.child, s.process c.pid ≠ .zombie) →
      Taken s (.waitpid none) { s with place := .clearFlag }
  | marks (pid : Nat) : s.place = .mark pid →
      Taken s .mark { s with place := .wait, child := s.child.map (markExited pid) }
  | clears : s.place = .clearFlag →
      Taken s .clearFlag { s with place := .accept, signalChildHandled := false }
  | accepts (connected : Bool) : s.place = .accept → Taken s (.accept connected)
      { s with place := if connected then .pick else .testFlag }
  | nobody : s.place = .pick → pickWorker s.child ≥ s.child.length →
      Taken s .pick { s with place := .testFlag }
  | picks : s.place = .pick → pickWorker s.child < s.child.length →
      Taken s .pick { s with place := .send (pickWorker s.child) }
  | sent (i : Nat) : s.place = .send i → Taken s (.send true)
      { s with place := .testFlag, child := s.child.modify i countSent }
  | unsent (i : Nat) : s.place = .send i → Taken s (.send false) { s with place := .testFlag }

theorem step_taken {s t : Main} {event : MainEvent} (h : mainStep s event = .ok t) :
    Taken s event t := by
  cases event with
  | exit pid =>
    rw [mainStep] at h
    split at h
    · rename_i halive
      cases h
      exact .exit pid halive.2
    · cases h
  | testFlag =>
    rw [mainStep] at h
    split at h
    · rename_i hplace
      cases h
      by_cases hflag : s.signalChildHandled = true
      · rw [if_pos hflag]
        exact .flagSet hplace hflag
      · rw [if_neg hflag]
        exact .flagClear hplace (eq_false_of_ne_true hflag)
    · cases h
  | waitpid answer =>
    cases answer with
    | some pid =>
      rw [mainStep] at h
      split at h
      · rename_i hwait
        cases h
        exact .reaps pid hwait.1 hwait.2
      · cases h
    | none =>
      rw [mainStep] at h
      split at h
      · rename_i hwait
        cases h
        refine .drained hwait.1 (fun c hc hzombie => ?_)
        have hnone := List.any_eq_false.mp hwait.2 c hc
        exact hnone (beq_iff_eq.mpr hzombie)
      · cases h
  | mark =>
    rw [mainStep] at h
    split at h
    · rename_i pid hplace
      cases h
      exact .marks pid hplace
    · cases h
  | clearFlag =>
    rw [mainStep] at h
    split at h
    · rename_i hplace
      cases h
      exact .clears hplace
    · cases h
  | accept connected =>
    rw [mainStep] at h
    split at h
    · rename_i hplace
      cases h
      exact .accepts connected hplace
    · cases h
  | pick =>
    rw [mainStep] at h
    split at h
    · rename_i hplace
      by_cases hnobody : pickWorker s.child ≥ s.child.length
      · simp only [if_pos hnobody] at h
        cases h
        exact .nobody hplace hnobody
      · simp only [if_neg hnobody] at h
        cases h
        exact .picks hplace (Nat.lt_of_not_le hnobody)
    · cases h
  | send sent =>
    rw [mainStep] at h
    split at h
    · rename_i i hplace
      cases sent with
      | true =>
        cases h
        exact .sent i hplace
      | false =>
        cases h
        exact .unsent i hplace
    · cases h

/-- What every step keeps holds at the end of every run. -/
theorem mainRun_keeps {Inv : Main → Prop} {s t : Main} {events : List MainEvent}
    (steps : ∀ event u v, event ∈ events → Inv u → Taken u event v → Inv v) (start : Inv s)
    (run : mainRun s events = .ok t) : Inv t :=
  foldlM_keeps events (fun u event v he hu h => steps event u v he hu (step_taken h)) start run

end MainLoop
