import Minihttpd.Library.DescriptorTable
import Minihttpd.ServerSystem

/-!
# The start of the server

What `main` does with descriptors and processes before its loop: it becomes a
daemon, opens its log and the listening socket, and forks the workers, each with
a pair of unix sockets. A worker closes what it has been forked with, but for
the standard streams and its end of the pair, and sets itself up.
-/
namespace ServerStart

open ByteBuffer SystemCalls FdEvents ConnectionTypes HttpConnection HttpWorker Registration
open MainLoop ServerSystem DescriptorTable FailingRun

/-- An open file of one of the processes: `inherited` is what the server was
started with, and the others say of which worker they are. -/
inductive OpenFile where
  | inherited
  | devNull
  | logFile
  | syslog
  | listening
  | mainEnd (workerId : Nat)
  | workerEnd (workerId : Nat)
  | epoll (workerId : Nat)
  | workerLog (workerId : Nat)
  | timer (workerId : Nat)
  deriving DecidableEq, Repr

abbrev Descriptors := Nat → Option OpenFile

/-- A call that opens a file, with the answer of the kernel. -/
def opens (answer : Bool) (limit : Nat) (fds : Descriptors) (file : OpenFile) :
    Option (Nat × Descriptors) :=
  if answer then openFile limit fds file else none

/-- What the calls answer that set up one worker: `fork` in the main process,
and in the worker `open` and `timerfd_create`. -/
structure ForkAnswers where
  pid : Option Nat
  rlimit : Bool
  log : Bool
  timer : Bool
  epollCtl : CtlAnswers
  now : Int

/-- What the calls of `daemonize` answer: the two of `fork`, `getrlimit` and the
`open` of `/dev/null`. -/
structure DaemonAnswers where
  firstFork : Bool
  secondFork : Bool
  rlimit : Bool
  devNull : Bool

structure StartAnswers where
  daemon : DaemonAnswers
  log : Bool
  listens : Bool
  fork : Nat → ForkAnswers

/-- The part of `daemonize` that is about descriptors, nothing where the process
exits. `main` ignores the result: where a `fork` fails it goes on with what it
was started with. `dup2` of a failed `open` does nothing. -/
def daemonize (limit : Nat) (answers : DaemonAnswers) (fds : Descriptors) : Option Descriptors :=
  if answers.firstFork = false ∨ answers.secondFork = false then some fds
  else if answers.rlimit = false then none
  else
    let fds := closeWhere (fun _ => true) limit fds
    match opens answers.devNull limit fds .devNull with
    | none => some fds
    | some (fd, fds) =>
      let fds := Function.update fds 1 (fds fd)
      some (Function.update fds 2 (fds fd))

/-- A worker in front of its loop, with the files it has open. -/
structure WorkerFiles where
  worker : Worker
  fds : Descriptors

/-- The worker process from the `fork` to its loop. It exits where `getrlimit`
fails or the log does not open; a missing epoll instance or timer runs into an
assertion of the event array. -/
def workerProcess (limit workerId unixFd : Nat) (answers : ForkAnswers) (fds : Descriptors) :
    Except Fault (Option WorkerFiles) :=
  if answers.rlimit = false then .ok none
  else
    let fds := closeWhere (fun fd => decide (fd > 2 ∧ fd ≠ unixFd)) limit fds
    match openFile limit fds (.epoll workerId) with
    | none => .error .registration
    | some (_, fds) =>
      match opens answers.log limit fds (.workerLog workerId) with
      | none => .ok none
      | some (_, fds) =>
        match opens answers.timer limit fds (.timer workerId) with
        | none => do
          let worker ← workerStart limit answers.epollCtl (limit / 2) unixFd (-1) answers.now
          return some ⟨worker, fds⟩
        | some (timerFd, fds) => do
          let worker ← workerStart limit answers.epollCtl (limit / 2) unixFd timerFd answers.now
          return some ⟨worker, fds⟩

/-- A forked worker: its `server_child` with `unix_domain_socket_fd[0]`, and
what its process has come to. -/
structure Forked where
  child : ServerChild
  mainFd : Nat
  process : Except Fault (Option WorkerFiles)

/-- The body of the fork loop, nothing where the main process gives up. -/
def forkWorker (limit : Nat) (answers : ForkAnswers) (workerId : Nat) (fds : Descriptors) :
    Option (Forked × Descriptors) := do
  let (mainFd, fds) ← openFile limit fds (.mainEnd workerId)
  let (unixFd, fds) ← openFile limit fds (.workerEnd workerId)
  let pid ← answers.pid
  return (⟨⟨pid, 0, true⟩, mainFd, workerProcess limit workerId unixFd answers fds⟩,
    close fds unixFd)

/-- The fork loop. Where it gives up, the workers it has forked are left. -/
def forkLoop (limit : Nat) (answers : Nat → ForkAnswers) (fds : Descriptors) :
    Nat → Except (List Forked) (List Forked × Descriptors)
  | 0 => .ok ([], fds)
  | workerId + 1 =>
    match forkLoop limit answers fds workerId with
    | .error left => .error left
    | .ok (workers, fds) =>
      match forkWorker limit (answers workerId) workerId fds with
      | none => .error workers
      | some (worker, fds) => .ok (workers ++ [worker], fds)

/-- The log of the main process: a file where one is configured or the server
does not become a daemon, else the socket of `syslog`, which may fail. -/
def openLog (limit : Nat) (toFile : Bool) (answer : Bool) (fds : Descriptors) :
    Option Descriptors :=
  if toFile then (opens answer limit fds .logFile).map Prod.snd
  else
    match opens answer limit fds .syslog with
    | none => some fds
    | some (_, fds) => some fds

/-- The steps of `main` from the daemon to its loop. -/
def startServer (limit workerNumber : Nat) (dontDaemonize logsToFile : Bool)
    (answers : StartAnswers) (fds : Descriptors) :
    Except (List Forked) (List Forked × Descriptors) :=
  match if dontDaemonize then some fds else daemonize limit answers.daemon fds with
  | none => .error []
  | some fds =>
    match openLog limit (logsToFile || dontDaemonize) answers.log fds with
    | none => .error []
    | some fds =>
      match opens answers.listens limit fds .listening with
      | none => .error []
      | some (_, fds) => forkLoop limit answers.fork fds workerNumber

/-- The files that the main process may have open, and those that a worker may. -/
def OpenFile.OfMain : OpenFile → Prop
  | .inherited | .devNull | .logFile | .syslog | .listening | .mainEnd _ => True
  | _ => False

def OpenFile.OfWorker (workerId : Nat) : OpenFile → Prop
  | .inherited | .devNull => True
  | .workerEnd i | .epoll i | .workerLog i | .timer i => i = workerId
  | _ => False

/-- The standard streams are open, on what the server was started with or on
`/dev/null`. -/
def StandardStreams (fds : Descriptors) : Prop :=
  ∀ fd, fd ≤ 2 → fds fd = some .inherited ∨ fds fd = some .devNull

/-- A worker has its end of the pair open once, and nothing that is not its own. -/
structure Owns (workerId unixFd : Nat) (fds : Descriptors) : Prop where
  unixEnd : HeldAt fds (.workerEnd workerId) unixFd
  files : ∀ fd file, fds fd = some file → file.OfWorker workerId

lemma Owns.opened {workerId unixFd limit fd : Nat} {fds after : Descriptors} {file : OpenFile}
    (owns : Owns workerId unixFd fds) (opened : Opened limit fds file fd after)
    (own : file.OfWorker workerId) (apart : OpenFile.workerEnd workerId ≠ file) :
    Owns workerId unixFd after := by
  refine ⟨opened.keepsAt apart owns.unixEnd, fun other file' held => ?_⟩
  rcases opened.holds held with ⟨_, hfile⟩ | ⟨_, hheld⟩
  · exact hfile ▸ own
  · exact owns.files other file' hheld

lemma opens_opened {answer : Bool} {limit fd : Nat} {fds after : Descriptors} {file : OpenFile}
    (h : opens answer limit fds file = some (fd, after)) : Opened limit fds file fd after := by
  rw [opens] at h
  split at h
  · exact openFile_opened h
  · cases h

/-- The files a worker is forked with: those of the main process, and its end. -/
structure ForkedWith (limit workerId unixFd : Nat) (fds : Descriptors) : Prop where
  unixEnd : HeldAt fds (.workerEnd workerId) unixFd
  streams : StandardStreams fds
  high : ∀ fd file, limit ≤ fd → fds fd = some file → file = .inherited

lemma closed_owns {limit workerId unixFd : Nat} {fds : Descriptors}
    (forked : ForkedWith limit workerId unixFd fds) : Owns workerId unixFd
      (closeWhere (fun fd => decide (fd > 2 ∧ fd ≠ unixFd)) limit fds) := by
  -- what is left is the unix socket, a standard stream, or beyond the limit
  have hleft : ∀ fd file, closeWhere (fun fd => decide (fd > 2 ∧ fd ≠ unixFd)) limit fds fd =
      some file → fds fd = some file ∧ (fd = unixFd ∨ file = .inherited ∨ file = .devNull) := by
    intro fd file held
    rw [closeWhere_apply] at held
    split at held
    · cases held
    · rename_i hkept
      refine ⟨held, ?_⟩
      rcases Nat.lt_or_ge fd limit with hfd | hfd
      · by_cases hunix : fd = unixFd
        · exact Or.inl hunix
        · have hlow : fd ≤ 2 := by
            by_contra hhigh
            exact hkept ⟨hfd, decide_eq_true ⟨Nat.lt_of_not_le hhigh, hunix⟩⟩
          rcases forked.streams fd hlow with hstream | hstream
          · rw [hstream] at held
            cases held
            exact Or.inr (Or.inl rfl)
          · rw [hstream] at held
            cases held
            exact Or.inr (Or.inr rfl)
      · exact Or.inr (Or.inl (forked.high fd file hfd held))
  have hunixEnd := (forked.unixEnd unixFd).mpr rfl
  constructor
  · intro other
    constructor
    · intro held
      exact (forked.unixEnd other).mp (hleft other _ held).1
    · rintro rfl
      rw [closeWhere_apply, if_neg (fun h => (of_decide_eq_true h.2).2 rfl)]
      exact hunixEnd
  · intro fd file held
    obtain ⟨hheld, rfl | rfl | rfl⟩ := hleft fd file held
    · rw [hunixEnd] at hheld
      cases hheld
      exact rfl
    · exact trivial
    · exact trivial

/-- A worker that comes to its loop owns what it has open, and its end of the
pair is the descriptor it listens on. -/
lemma workerProcess_owns {limit workerId unixFd : Nat} {answers : ForkAnswers} {fds : Descriptors}
    {p : WorkerFiles} (forked : ForkedWith limit workerId unixFd fds)
    (h : workerProcess limit workerId unixFd answers fds = .ok (some p)) :
    Owns workerId unixFd p.fds ∧
      ∃ timerFd, workerStart limit answers.epollCtl (limit / 2) unixFd timerFd answers.now =
        .ok p.worker := by
  have howns := closed_owns forked
  rw [workerProcess] at h
  split at h
  · cases h
  dsimp only at h
  split at h
  · cases h
  · rename_i epollFd fds₁ hepoll
    have howns₁ := howns.opened (openFile_opened hepoll) rfl OpenFile.noConfusion
    split at h
    · cases h
    · rename_i logFd fds₂ hlog
      have howns₂ := howns₁.opened (opens_opened hlog) rfl OpenFile.noConfusion
      split at h
      · obtain ⟨worker, hstart, hp⟩ := bind_eq_ok.mp h
        cases hp
        exact ⟨howns₂, _, hstart⟩
      · rename_i timerFd fds₃ htimer
        obtain ⟨worker, hstart, hp⟩ := bind_eq_ok.mp h
        cases hp
        exact ⟨howns₂.opened (opens_opened htimer) rfl OpenFile.noConfusion, _, hstart⟩

lemma workerStart_unixFd {maxFd sizes : Nat} {epollCtl : CtlAnswers} {unixFd timerFd now : Int}
    {w : Worker} (h : workerStart maxFd epollCtl sizes unixFd timerFd now = .ok w) :
    w.unixDomainSocketFd = unixFd := by
  obtain ⟨_, _, h⟩ := bind_eq_ok.mp h
  obtain ⟨_, _, h⟩ := bind_eq_ok.mp h
  obtain ⟨_, _, h⟩ := bind_eq_ok.mp h
  obtain ⟨_, _, h⟩ := bind_eq_ok.mp h
  cases h
  rfl

/-- A worker that has come to its loop has its end of the pair open under the
descriptor it listens on, and nothing of another process. -/
def Forked.Sound (limit workerId : Nat) (w : Forked) : Prop :=
  ∀ p, w.process = .ok (some p) → ∃ unixFd : Nat, p.worker.unixDomainSocketFd = unixFd ∧
    Owns workerId unixFd p.fds ∧
    ∃ epollCtl timerFd now,
      workerStart limit epollCtl (limit / 2) unixFd timerFd now = .ok p.worker

/-- The main process after some turns of the fork loop. -/
structure Forking (limit : Nat) (workers : List Forked) (fds : Descriptors) : Prop where
  files : ∀ fd file, fds fd = some file → file.OfMain
  high : ∀ fd file, limit ≤ fd → fds fd = some file → file = .inherited
  streams : StandardStreams fds
  listening : ∃ fd, HeldAt fds .listening fd
  ends : ∀ i (w : Forked), workers[i]? = some w → HeldAt fds (.mainEnd i) w.mainFd
  fresh : ∀ i, workers.length ≤ i → Absent fds (.mainEnd i)
  sound : ∀ i (w : Forked), workers[i]? = some w → w.Sound limit i

lemma StandardStreams.opened {limit fd : Nat} {fds after : Descriptors} {file : OpenFile}
    (streams : StandardStreams fds) (opened : Opened limit fds file fd after) :
    StandardStreams after :=
  fun other hother => (streams other hother).imp opened.keeps opened.keeps

lemma high_opened {limit fd : Nat} {fds after : Descriptors} {file : OpenFile}
    (high : ∀ fd file, limit ≤ fd → fds fd = some file → file = .inherited)
    (opened : Opened limit fds file fd after) :
    ∀ fd file, limit ≤ fd → after fd = some file → file = .inherited := by
  intro other file' hother held
  rcases opened.holds held with ⟨hself, _⟩ | ⟨_, hheld⟩
  · exact absurd opened.below (Nat.not_lt_of_le (hself ▸ hother))
  · exact high other file' hother hheld

lemma mem_appended {workers : List Forked} {w last : Forked} {i : Nat}
    (h : (workers ++ [last])[i]? = some w) :
    i < workers.length ∧ workers[i]? = some w ∨ i = workers.length ∧ w = last := by
  rw [List.getElem?_append] at h
  split at h
  · rename_i hi
    exact Or.inl ⟨hi, h⟩
  · rename_i hi
    rw [List.getElem?_singleton] at h
    split at h
    · rename_i hzero
      cases h
      exact Or.inr ⟨by omega, rfl⟩
    · cases h

/-- One turn of the fork loop. -/
lemma forkWorker_step {limit : Nat} {workers : List Forked} {fds after : Descriptors}
    {answers : ForkAnswers} {w : Forked} (forking : Forking limit workers fds)
    (h : forkWorker limit answers workers.length fds = some (w, after)) :
    Forking limit (workers ++ [w]) after := by
  obtain ⟨⟨mainFd, fds₁⟩, hmain, h⟩ := Option.bind_eq_some_iff.mp h
  obtain ⟨⟨unixFd, fds₂⟩, hunix, h⟩ := Option.bind_eq_some_iff.mp h
  obtain ⟨pid, _, h⟩ := Option.bind_eq_some_iff.mp h
  cases h
  have hopened₁ := openFile_opened hmain
  have hopened₂ := openFile_opened hunix
  have hstreams₁ := forking.streams.opened hopened₁
  have hhigh₁ := high_opened forking.high hopened₁
  have hfiles₁ : ∀ fd file, fds₁ fd = some file → file.OfMain := by
    intro fd file held
    rcases hopened₁.holds held with ⟨_, rfl⟩ | ⟨_, hheld⟩
    · exact trivial
    · exact forking.files fd file hheld
  -- the worker is forked with both ends, and the main process then closes the second
  have hforked : ForkedWith limit workers.length unixFd fds₂ :=
    ⟨hopened₂.heldAt fun fd held => hfiles₁ fd _ held, hstreams₁.opened hopened₂,
      high_opened hhigh₁ hopened₂⟩
  rw [hopened₂.close_self]
  refine ⟨hfiles₁, hhigh₁, hstreams₁, ?_, ?_, ?_, ?_⟩
  · obtain ⟨fd, hlistening⟩ := forking.listening
    exact ⟨fd, hopened₁.keepsAt OpenFile.noConfusion hlistening⟩
  · intro i w hw
    rcases mem_appended hw with ⟨hi, hold⟩ | ⟨rfl, rfl⟩
    · refine hopened₁.keepsAt (fun heq => ?_) (forking.ends i w hold)
      cases heq
      exact Nat.lt_irrefl _ hi
    · exact hopened₁.heldAt (forking.fresh _ (Nat.le_refl _))
  · intro i hi
    rw [List.length_append, List.length_singleton] at hi
    refine hopened₁.absent (fun heq => ?_) (forking.fresh i (Nat.le_of_succ_le hi))
    cases heq
    exact Nat.lt_irrefl _ hi
  · intro i w hw
    rcases mem_appended hw with ⟨_, hold⟩ | ⟨rfl, rfl⟩
    · exact forking.sound i w hold
    · intro p hp
      obtain ⟨howns, timerFd, hstart⟩ := workerProcess_owns hforked hp
      exact ⟨unixFd, workerStart_unixFd hstart, howns, _, timerFd, answers.now, hstart⟩

/-- The fork loop, whether it comes to its end or gives up. -/
lemma forkLoop_sound {limit : Nat} {answers : Nat → ForkAnswers} {fds : Descriptors}
    (forking : Forking limit [] fds) (n : Nat) :
    (∀ workers after, forkLoop limit answers fds n = .ok (workers, after) →
      workers.length = n ∧ Forking limit workers after) ∧
    ∀ left, forkLoop limit answers fds n = .error left →
      ∀ i (w : Forked), left[i]? = some w → w.Sound limit i := by
  induction n with
  | zero =>
    constructor
    · intro workers after h
      cases h
      exact ⟨rfl, forking⟩
    · intro left h
      cases h
  | succ n ih =>
    rw [forkLoop]
    split
    · rename_i left hleft
      constructor
      · intro _ _ h
        cases h
      · intro left' h
        cases h
        exact ih.2 left hleft
    · rename_i workers before hbefore
      obtain ⟨hlength, hforking⟩ := ih.1 workers before hbefore
      split
      · constructor
        · intro _ _ h
          cases h
        · intro left h
          cases h
          exact hforking.sound
      · rename_i w after hforked
        constructor
        · intro _ _ h
          cases h
          rw [← hlength] at hforked
          exact ⟨by rw [List.length_append, hlength, List.length_singleton],
            forkWorker_step hforking hforked⟩
        · intro _ h
          cases h

lemma mem_standard {fd : Nat} (low : fd ≤ 2) : fd ∈ [0, 1, 2] := by
  have hcases : fd = 0 ∨ fd = 1 ∨ fd = 2 := by omega
  rcases hcases with rfl | rfl | rfl <;> decide

/-- What the main process may have open in front of its listening socket. -/
def OpenFile.Early : OpenFile → Prop
  | .inherited | .devNull | .logFile | .syslog => True
  | _ => False

structure Opening (limit : Nat) (fds : Descriptors) : Prop where
  files : ∀ fd file, fds fd = some file → file.Early
  high : ∀ fd file, limit ≤ fd → fds fd = some file → file = .inherited
  streams : StandardStreams fds

lemma Opening.opened {limit fd : Nat} {fds after : Descriptors} {file : OpenFile}
    (opening : Opening limit fds) (opened : Opened limit fds file fd after) (early : file.Early) :
    Opening limit after := by
  refine ⟨fun other file' held => ?_, high_opened opening.high opened,
    opening.streams.opened opened⟩
  rcases opened.holds held with ⟨_, rfl⟩ | ⟨_, hheld⟩
  · exact early
  · exact opening.files other file' hheld

lemma Opening.listens {limit fd : Nat} {fds after : Descriptors} (opening : Opening limit fds)
    (opened : Opened limit fds .listening fd after) : Forking limit [] after := by
  have habsent : ∀ file, ¬ OpenFile.Early file → Absent fds file :=
    fun file hlate other held => hlate (opening.files other file held)
  refine ⟨?_, high_opened opening.high opened, opening.streams.opened opened,
    ⟨fd, opened.heldAt (habsent _ id)⟩, ?_,
    fun i _ => opened.absent OpenFile.noConfusion (habsent _ id), ?_⟩
  intro other file held
  rcases opened.holds held with ⟨_, rfl⟩ | ⟨_, hheld⟩
  · exact trivial
  · have hearly := opening.files other file hheld
    cases file with
    | inherited | devNull | logFile | syslog | listening => exact trivial
    | _ => exact hearly.elim
  · intro _ _ h
    cases h
  · intro _ _ h
    cases h

/-- The process becomes a daemon with `/dev/null` open. -/
structure DaemonAnswers.Succeeds (answers : DaemonAnswers) : Prop where
  firstFork : answers.firstFork = true
  secondFork : answers.secondFork = true
  rlimit : answers.rlimit = true
  devNull : answers.devNull = true

/-- `daemonize` leaves the standard streams open on `/dev/null`, and nothing
else below the limit. -/
lemma daemonize_apply {limit : Nat} {answers : DaemonAnswers} (succeeds : answers.Succeeds)
    (room : 3 ≤ limit) (fds : Descriptors) : ∃ daemonized,
      daemonize limit answers fds = some daemonized ∧ ∀ fd, daemonized fd =
        if fd ≤ 2 then some .devNull else if fd < limit then none else fds fd := by
  have hclosed : ∀ fd, closeWhere (fun _ => true) limit fds fd =
      if fd < limit then none else fds fd := by
    intro fd
    rw [closeWhere_apply]
    simp only [and_true]
  have hempty : Within limit [] (closeWhere (fun _ => true) limit fds) := by
    intro fd hfd hused
    rw [hclosed, if_pos hfd] at hused
    exact absurd rfl hused
  obtain ⟨first, after, hopen⟩ := openFile_room hempty
    (show 0 < limit from Nat.lt_of_lt_of_le (by decide) room) OpenFile.devNull
  have hopened := openFile_opened hopen
  have hfirst : first = 0 := by
    rcases Nat.eq_zero_or_pos first with hzero | hpos
    · exact hzero
    · have hused := hopened.lowest 0 hpos
      rw [hclosed, if_pos (by omega)] at hused
      exact absurd rfl hused
  subst hfirst
  have hafter : daemonize limit answers fds =
      some (Function.update (Function.update after 1 (some .devNull)) 2 (some .devNull)) := by
    have hopens : opens true limit (closeWhere (fun _ => true) limit fds) .devNull =
        some (0, after) := hopen
    simp only [daemonize, succeeds.firstFork, succeeds.secondFork, succeeds.rlimit,
      succeeds.devNull, Bool.true_eq_false, or_self, if_false, hopens, hopened.self,
      Function.update_of_ne (show (0 : Nat) ≠ 1 by decide)]
  refine ⟨_, hafter, fun fd => ?_⟩
  rw [Function.update_apply, Function.update_apply]
  by_cases hzero : fd = 0
  · subst hzero
    exact hopened.self
  · rw [hopened.other fd hzero, hclosed]
    by_cases htwo : fd = 2
    · rw [if_pos htwo, if_pos (Nat.le_of_eq htwo)]
    · by_cases hone : fd = 1
      · rw [if_neg htwo, if_pos hone, if_pos (by omega)]
      · rw [if_neg htwo, if_neg hone, if_neg (show ¬ fd ≤ 2 by omega)]

lemma daemonize_opening {limit : Nat} {answers : DaemonAnswers} {fds : Descriptors}
    (succeeds : answers.Succeeds) (room : 3 ≤ limit)
    (inherited : ∀ fd file, fds fd = some file → file = .inherited) :
    ∃ daemonized, daemonize limit answers fds = some daemonized ∧ Opening limit daemonized ∧
      Within limit [0, 1, 2] daemonized := by
  obtain ⟨daemonized, hok, happly⟩ := daemonize_apply succeeds room fds
  refine ⟨daemonized, hok, ⟨?_, ?_, ?_⟩, ?_⟩
  · intro fd file held
    rw [happly] at held
    split at held
    · cases held
      exact trivial
    · split at held
      · cases held
      · rw [inherited fd file held]
        exact trivial
  · intro fd file hfd held
    rw [happly, if_neg (by omega), if_neg (Nat.not_lt_of_le hfd)] at held
    exact inherited fd file held
  · intro fd hfd
    rw [happly, if_pos hfd]
    exact Or.inr rfl
  · intro fd hfd hused
    by_cases hlow : fd ≤ 2
    · exact mem_standard hlow
    · rw [happly, if_neg hlow, if_pos hfd] at hused
      exact absurd rfl hused

lemma openLog_opening {limit : Nat} {toFile answer : Bool} {fds after : Descriptors}
    (opening : Opening limit fds) (h : openLog limit toFile answer fds = some after) :
    Opening limit after := by
  rw [openLog] at h
  split at h
  · obtain ⟨⟨fd, fds'⟩, hopen, hafter⟩ := Option.map_eq_some_iff.mp h
    cases hafter
    exact opening.opened (opens_opened hopen) trivial
  · split at h
    · cases h
      exact opening
    · rename_i fd fds' hopen
      cases h
      exact opening.opened (opens_opened hopen) trivial

/-- The server stays with the descriptors it has been started with. -/
def StaysAsStarted (dontDaemonize : Bool) (answers : DaemonAnswers) : Prop :=
  dontDaemonize = true ∨ answers.firstFork = false ∨ answers.secondFork = false

/-- What the server is started with: open standard streams where it does not
become a daemon, and otherwise descriptors for them and a `/dev/null` that opens. -/
structure StartedWith (limit : Nat) (dontDaemonize : Bool) (answers : StartAnswers)
    (fds : Descriptors) : Prop where
  inherited : ∀ fd file, fds fd = some file → file = .inherited
  streams : StaysAsStarted dontDaemonize answers.daemon → ∀ fd, fd ≤ 2 → fds fd ≠ none
  devNull : ¬ StaysAsStarted dontDaemonize answers.daemon →
    answers.daemon.devNull = true ∧ 3 ≤ limit

/-- Where the start goes on behind `daemonize`, the standard streams are open,
and no other descriptor that was not in use before. -/
lemma StartedWith.daemonized {limit : Nat} {dontDaemonize : Bool} {answers : StartAnswers}
    {fds : Descriptors} (started : StartedWith limit dontDaemonize answers fds) :
    (if dontDaemonize then some fds else daemonize limit answers.daemon fds) = none ∧
      answers.daemon.rlimit = false ∨
    ∃ after, (if dontDaemonize then some fds else daemonize limit answers.daemon fds) =
        some after ∧ Opening limit after ∧
      (∀ used, Within limit used fds → ∃ used', Within limit used' after ∧
        used'.length ≤ max 3 used.length) := by
  by_cases hstays : StaysAsStarted dontDaemonize answers.daemon
  · refine Or.inr ⟨fds, ?_, ⟨fun fd file held => ?_,
      fun fd file _ held => started.inherited fd file held, fun fd hfd => ?_⟩,
      fun used within => ⟨used, within, Nat.le_max_right _ _⟩⟩
    · rcases hstays with hdont | hfork
      · rw [if_pos hdont]
      · split
        · rfl
        · exact if_pos hfork
    · rw [started.inherited fd file held]
      exact trivial
    · obtain ⟨file, hfile⟩ := Option.ne_none_iff_exists'.mp (started.streams hstays fd hfd)
      rw [hfile, started.inherited fd file hfile]
      exact Or.inl rfl
  · obtain ⟨hnull, hlimit⟩ := started.devNull hstays
    rw [StaysAsStarted, not_or, not_or, Bool.not_eq_true, Bool.not_eq_false,
      Bool.not_eq_false] at hstays
    obtain ⟨hdont, hfirst, hsecond⟩ := hstays
    rw [hdont]
    cases hlimits : answers.daemon.rlimit with
    | false =>
      refine Or.inl ⟨?_, rfl⟩
      simp only [daemonize, hfirst, hsecond, hlimits, Bool.true_eq_false, Bool.false_eq_true,
        or_self, if_false, if_true]
    | true =>
      obtain ⟨daemonized, hok, hopening, hwithin⟩ :=
        daemonize_opening ⟨hfirst, hsecond, hlimits, hnull⟩ hlimit started.inherited
      exact Or.inr ⟨daemonized, hok, hopening,
        fun _ _ => ⟨[0, 1, 2], hwithin, Nat.le_max_left _ _⟩⟩

lemma startServer_sound {limit workerNumber : Nat} {dontDaemonize logsToFile : Bool}
    {answers : StartAnswers} {fds : Descriptors}
    (started : StartedWith limit dontDaemonize answers fds) :
    (∀ workers after,
      startServer limit workerNumber dontDaemonize logsToFile answers fds = .ok (workers, after) →
      workers.length = workerNumber ∧ Forking limit workers after) ∧
    ∀ left, startServer limit workerNumber dontDaemonize logsToFile answers fds = .error left →
      ∀ i (w : Forked), left[i]? = some w → w.Sound limit i := by
  have hnone : ∀ i (w : Forked), ([] : List Forked)[i]? = some w → w.Sound limit i := by
    intro _ _ h
    cases h
  have hgives_up : ∀ result : Except (List Forked) (List Forked × Descriptors), result = .error [] →
      (∀ workers after, result = .ok (workers, after) →
        workers.length = workerNumber ∧ Forking limit workers after) ∧
      ∀ left, result = .error left → ∀ i (w : Forked), left[i]? = some w → w.Sound limit i := by
    rintro _ rfl
    constructor
    · intro _ _ h
      cases h
    · intro left h
      cases h
      exact hnone
  rcases started.daemonized with ⟨hexits, _⟩ | ⟨daemonized, hdaemonized, hearly, _⟩
  · simp only [startServer, hexits]
    exact hgives_up _ rfl
  cases hlog : openLog limit (logsToFile || dontDaemonize) answers.log daemonized with
  | none =>
    simp only [startServer, hdaemonized, hlog]
    exact hgives_up _ rfl
  | some logged =>
    have hopening := openLog_opening hearly hlog
    cases hlistens : opens answers.listens limit logged .listening with
    | none =>
      simp only [startServer, hdaemonized, hlog, hlistens]
      exact hgives_up _ rfl
    | some opened =>
      simp only [startServer, hdaemonized, hlog, hlistens]
      exact forkLoop_sound (hopening.listens (opens_opened hlistens)) workerNumber

lemma workerStart_room {maxFd sizes unixFd timerFd : Nat} (epollCtl : CtlAnswers) (now : Int)
    (unix : unixFd < maxFd) (timer : timerFd < maxFd) (apart : timerFd ≠ unixFd) :
    ∃ w, workerStart maxFd epollCtl sizes unixFd timerFd now = .ok w := by
  have hinput : EventMask.input ≠ EventMask.none := by decide
  have hrange : ∀ fd, fd < maxFd → (fdeventInitialize maxFd epollCtl).InRange fd :=
    fun fd hfd => ⟨Int.natCast_nonneg fd, Int.ofNat_lt.mpr hfd⟩
  obtain ⟨ev₁, h₁, honly₁, hwatched₁⟩ :=
    registerFd_spec .unixDomainSocket (hrange unixFd unix) rfl (initialize_mirrors _ _ _)
  obtain ⟨ev₂, h₂, honly₂, _⟩ := setEvents_spec hwatched₁ hinput
  have honly := honly₁.trans honly₂
  obtain ⟨ev₃, h₃, _, hwatched₃⟩ := @registerFd_spec ev₂ timerFd .timer
    (honly.inRange.mpr (hrange timerFd timer)) (honly.nodes _ apart)
    (honly.mirrors apart (initialize_mirrors _ _ _))
  obtain ⟨ev₄, h₄, _⟩ := setEvents_spec hwatched₃ hinput
  exact ⟨_, by rw [workerStart, h₁, ok_bind, h₂, ok_bind, h₃, ok_bind, h₄]; rfl⟩

lemma opens_room {limit : Nat} {used : List Nat} {fds : Descriptors}
    (within : Within limit used fds) (room : used.length < limit) (file : OpenFile) :
    ∃ fd after, opens true limit fds file = some (fd, after) ∧ Within limit (fd :: used) after := by
  obtain ⟨fd, after, hopen⟩ := openFile_room within room file
  exact ⟨fd, after, hopen, (openFile_opened hopen).within within⟩

lemma openLog_room {limit : Nat} {toFile : Bool} {used : List Nat} {fds : Descriptors}
    (within : Within limit used fds) (room : used.length < limit) :
    ∃ after fd, openLog limit toFile true fds = some after ∧ Within limit (fd :: used) after := by
  cases toFile with
  | true =>
    obtain ⟨fd, after, hopen, hwithin⟩ := opens_room within room .logFile
    exact ⟨after, fd, by rw [openLog, if_pos rfl, hopen]; rfl, hwithin⟩
  | false =>
    obtain ⟨fd, after, hopen, hwithin⟩ := opens_room within room .syslog
    exact ⟨after, fd, by rw [openLog, if_neg Bool.false_ne_true, hopen], hwithin⟩

/-- The answers that let a worker come to its loop. -/
def ForkAnswers.Succeeds (answers : ForkAnswers) (pid : Nat) : Prop :=
  answers.pid = some pid ∧ answers.rlimit = true ∧ answers.log = true ∧ answers.timer = true

/-- Seven descriptors let a worker come to its loop: the standard streams, its
unix socket, and the three that it opens. -/
lemma workerProcess_comes (workerId : Nat) {limit unixFd pid : Nat} {answers : ForkAnswers}
    {fds : Descriptors} {file : OpenFile} (succeeds : answers.Succeeds pid) (room : 7 ≤ limit)
    (unix : unixFd < limit) (held : fds unixFd = some file) :
    ∃ p, workerProcess limit workerId unixFd answers fds = .ok (some p) := by
  obtain ⟨_, hlimit, hlog, htimer⟩ := succeeds
  have hwithin : Within limit [0, 1, 2, unixFd]
      (closeWhere (fun fd => decide (fd > 2 ∧ fd ≠ unixFd)) limit fds) := by
    intro fd hfd hused
    rw [closeWhere_apply] at hused
    split at hused
    · exact absurd rfl hused
    · rename_i hkept
      by_cases hunix : fd = unixFd
      · exact List.mem_append_right [0, 1, 2] (List.mem_singleton.mpr hunix)
      · have hlow : ¬ fd > 2 := fun h => hkept ⟨hfd, decide_eq_true ⟨h, hunix⟩⟩
        exact List.mem_append_left [unixFd] (mem_standard (Nat.le_of_not_lt hlow))
  have hheld : closeWhere (fun fd => decide (fd > 2 ∧ fd ≠ unixFd)) limit fds unixFd =
      some file := by
    rw [closeWhere_apply, if_neg (fun h => (of_decide_eq_true h.2).2 rfl), held]
  obtain ⟨epollFd, fds₁, hepoll⟩ := openFile_room hwithin (show 4 < limit by omega)
    (OpenFile.epoll workerId)
  have hopened₁ := openFile_opened hepoll
  obtain ⟨logFd, fds₂, hopenLog, hwithin₂⟩ := opens_room (hopened₁.within hwithin)
    (show 5 < limit by omega) (OpenFile.workerLog workerId)
  have hopened₂ := opens_opened hopenLog
  obtain ⟨timerFd, fds₃, hopenTimer, _⟩ := opens_room hwithin₂ (show 6 < limit by omega)
    (OpenFile.timer workerId)
  have hopened₃ := opens_opened hopenTimer
  -- the timer gets a descriptor that is free, and that of the unix socket is not
  have hapart : timerFd ≠ unixFd := by
    intro heq
    have hfree := hopened₃.free
    rw [heq, hopened₂.keeps (hopened₁.keeps hheld)] at hfree
    cases hfree
  obtain ⟨w, hw⟩ := @workerStart_room limit (limit / 2) unixFd timerFd answers.epollCtl
    answers.now unix hopened₃.below hapart
  refine ⟨⟨w, fds₃⟩, ?_⟩
  simp only [workerProcess, hlimit, Bool.true_eq_false, if_false, hepoll, hlog, hopenLog, htimer,
    hopenTimer, hw, ok_bind]
  rfl

/-- A worker that has been forked and has come to its loop. -/
def Forked.Came (pid : Nat) (w : Forked) : Prop :=
  w.child = ⟨pid, 0, true⟩ ∧ ∃ p, w.process = .ok (some p)

lemma forkWorker_comes (workerId : Nat) {limit pid : Nat} {answers : ForkAnswers}
    {fds : Descriptors} {used : List Nat} (succeeds : answers.Succeeds pid)
    (within : Within limit used fds) (room : used.length + 2 ≤ limit) (seven : 7 ≤ limit) :
    ∃ w after, forkWorker limit answers workerId fds = some (w, after) ∧ w.Came pid ∧
      ∃ used', Within limit used' after ∧ used'.length = used.length + 1 := by
  obtain ⟨mainFd, fds₁, hmain⟩ := openFile_room within (Nat.lt_of_succ_lt room)
    (OpenFile.mainEnd workerId)
  have hwithin₁ := (openFile_opened hmain).within within
  obtain ⟨unixFd, fds₂, hunix⟩ := openFile_room hwithin₁ room (OpenFile.workerEnd workerId)
  have hopened₂ := openFile_opened hunix
  have hcame := workerProcess_comes workerId succeeds seven hopened₂.below hopened₂.self
  refine ⟨⟨⟨pid, 0, true⟩, mainFd, workerProcess limit workerId unixFd answers fds₂⟩, fds₁, ?_,
    ⟨rfl, hcame⟩, mainFd :: used, hwithin₁, rfl⟩
  simp only [forkWorker, hmain, hunix, succeeds.1, hopened₂.close_self, Option.bind_eq_bind,
    Option.bind_some]
  rfl

lemma forkLoop_comes {limit : Nat} {answers : Nat → ForkAnswers} {fds : Descriptors}
    {used : List Nat} {pids : Nat → Nat} (within : Within limit used fds) (seven : 7 ≤ limit)
    (n : Nat) (succeeds : ∀ i, i < n → (answers i).Succeeds (pids i))
    (room : used.length + n + 1 ≤ limit) :
    ∃ workers after, forkLoop limit answers fds n = .ok (workers, after) ∧ workers.length = n ∧
      (∀ i (w : Forked), workers[i]? = some w → w.Came (pids i)) ∧
      ∃ used', Within limit used' after ∧ used'.length = used.length + n := by
  induction n with
  | zero =>
    refine ⟨[], fds, rfl, rfl, fun _ _ h => ?_, used, within, rfl⟩
    cases h
  | succ n ih =>
    obtain ⟨workers, before, hloop, hlength, hcame, used', hwithin, hused⟩ :=
      ih (fun i hi => succeeds i (Nat.lt_succ_of_lt hi)) (by omega)
    obtain ⟨w, after, hfork, hw, used'', hwithin', hused'⟩ :=
      forkWorker_comes n (succeeds n (Nat.lt_succ_self n)) hwithin (by omega) seven
    refine ⟨workers ++ [w], after, ?_, ?_, ?_, used'', hwithin', by omega⟩
    · simp only [forkLoop, hloop, hfork]
    · rw [List.length_append, hlength, List.length_singleton]
    · intro i w' hw'
      rcases mem_appended hw' with ⟨_, hold⟩ | ⟨hi, rfl⟩
      · exact hcame i w' hold
      · rw [hi, hlength]
        exact hw

/-- It stands where no worker process is in front of its loop. -/
def noWorker : Worker := ⟨[], 0, fdeventInitialize 0 ctlSucceeds, -1, -1, 0, fun _ => none, 0, [], []⟩

def Forked.worker (w : Forked) : Worker :=
  match w.process with
  | .ok (some p) => p.worker
  | _ => noWorker

/-- The processes that the start leaves, with the variables as `main` sets them. -/
def serverStarted (workers : List Forked) : System where
  main := ⟨.testFlag, false, workers.map Forked.child, fun _ => .alive⟩
  flags := .initial
  signals := []
  inBody := false
  left := false
  accepted := 0
  hand := none
  refused := []
  worker := fun i => ⟨(workers[i]?.map Forked.worker).getD noWorker, .initial, false, false, [],
    fun _ => none, [], [], [], []⟩

lemma serverStarted_begun {limit : Nat} {workers : List Forked} {pids : Nat → Nat}
    (came : ∀ i (w : Forked), workers[i]? = some w → w.Came (pids i))
    (sound : ∀ i (w : Forked), workers[i]? = some w → w.Sound limit i)
    (distinct : ∀ i j, i < workers.length → j < workers.length → pids i = pids j → i = j) :
    Begun (serverStarted workers) where
  main := by
    refine ⟨rfl, fun c hc => ?_⟩
    obtain ⟨w, hw, rfl⟩ := List.mem_map.mp hc
    obtain ⟨i, hi⟩ := List.mem_iff_getElem?.mp hw
    rw [(came i w hi).1]
    exact ⟨rfl, rfl⟩
  pids := by
    change ((workers.map Forked.child).map ServerChild.pid).Nodup
    rw [List.map_map, List.nodup_iff_getElem?_ne_getElem?]
    intro i j hij hj heq
    rw [List.length_map] at hj
    have hi := Nat.lt_trans hij hj
    rw [List.getElem?_map, List.getElem?_map, List.getElem?_eq_getElem hi,
      List.getElem?_eq_getElem hj] at heq
    have hpid : ∀ k (hk : k < workers.length), workers[k].child.pid = pids k := fun k hk => by
      rw [(came k _ (List.getElem?_eq_getElem hk)).1]
    have hpids : workers[i].child.pid = workers[j].child.pid := Option.some.inj heq
    rw [hpid i hi, hpid j hj] at hpids
    exact absurd (distinct i j hi hj hpids) (Nat.ne_of_lt hij)
  alive _ _ := rfl
  flags := rfl
  signals := rfl
  inBody := rfl
  left := rfl
  accepted := rfl
  hand := rfl
  refused := rfl
  started := by
    intro i hi
    have hi' : i < workers.length := by
      rw [← List.length_map Forked.child]
      exact hi
    have hw := List.getElem?_eq_getElem hi'
    obtain ⟨_, p, hp⟩ := came i _ hw
    obtain ⟨unixFd, _, _, epollCtl, timerFd, now, hstart⟩ := sound i _ hw p hp
    have hworker : ((serverStarted workers).worker i).worker = p.worker := by
      simp only [serverStarted, hw, Option.map_some, Option.getD_some, Forked.worker, hp]
    exact ⟨limit, epollCtl, limit / 2, unixFd, timerFd, now, by rw [hworker]; exact hstart⟩
  fresh _ := ⟨rfl, rfl, rfl, rfl, rfl, rfl, rfl, rfl, rfl⟩

/-- Every end of a unix socket pair is open in one process only. Started as
`StartedWith` says, and whatever the calls answer otherwise, when the main
process comes to its loop it has open what is its own: the listening socket
once, and of each pair its end once, as `unix_domain_socket_fd[0]`. A worker
that comes to its loop listens on the only descriptor of its own end, and has
no end of another worker open, none of the main process, and not the listening
socket. That also holds of the workers that are left where the start gives up. -/
theorem ends_held_once {limit workerNumber : Nat} {dontDaemonize logsToFile : Bool}
    {answers : StartAnswers} {fds : Descriptors}
    (started : StartedWith limit dontDaemonize answers fds) :
    (∀ workers after,
      startServer limit workerNumber dontDaemonize logsToFile answers fds = .ok (workers, after) →
      workers.length = workerNumber ∧ (∀ fd file, after fd = some file → file.OfMain) ∧
      (∃ fd, HeldAt after .listening fd) ∧
      ∀ i (w : Forked), workers[i]? = some w →
        HeldAt after (.mainEnd i) w.mainFd ∧ w.Sound limit i) ∧
    ∀ left, startServer limit workerNumber dontDaemonize logsToFile answers fds = .error left →
      ∀ i (w : Forked), left[i]? = some w → w.Sound limit i := by
  obtain ⟨hcomes, hleft⟩ := @startServer_sound limit workerNumber dontDaemonize logsToFile answers
    fds started
  refine ⟨fun workers after h => ?_, hleft⟩
  obtain ⟨hlength, hforking⟩ := hcomes workers after h
  exact ⟨hlength, hforking.files, hforking.listening,
    fun i w hw => ⟨hforking.ends i w hw, hforking.sound i w hw⟩⟩

/-- Two workers, with calls that succeed. -/
def twoAnswers : StartAnswers :=
  ⟨⟨true, true, true, true⟩, true, true, fun i => ⟨some (100 + i), true, true, true, ctlSucceeds, 0⟩⟩

/-- What a server that is started from a shell has open. -/
def shellStreams : Descriptors := fun fd => if fd ≤ 2 then some .inherited else none

lemma shell_started : StartedWith 16 false twoAnswers shellStreams where
  inherited := by
    intro fd file held
    rw [shellStreams] at held
    split at held
    · cases held
      rfl
    · cases held
  streams h := by
    rcases h with h | h | h <;> cases h
  devNull _ := ⟨rfl, by decide⟩

theorem ends_held_once_two : ∃ workers after,
    startServer 16 2 false false twoAnswers shellStreams = .ok (workers, after) ∧
      workers.length = 2 ∧ ∃ fd, HeldAt after .listening fd := by
  obtain ⟨workers, after, h⟩ : ∃ workers after,
      startServer 16 2 false false twoAnswers shellStreams = .ok (workers, after) := ⟨_, _, rfl⟩
  obtain ⟨hlength, _, hlistening, _⟩ := (ends_held_once shell_started).1 workers after h
  exact ⟨workers, after, h, hlength, hlistening⟩

/-- With descriptors for its files, the pairs of its workers and seven in all,
and calls that succeed, the server comes to its loops: every worker is forked and
is in front of its loop, and the processes are as `Begun` says, from where every
run of the system starts. -/
theorem startup_begins {limit workerNumber : Nat} {dontDaemonize logsToFile : Bool}
    {answers : StartAnswers} {fds : Descriptors} {used : List Nat} {pids : Nat → Nat}
    (started : StartedWith limit dontDaemonize answers fds) (within : Within limit used fds)
    (room : max 3 used.length + workerNumber + 4 ≤ limit)
    (limits : answers.daemon.rlimit = true) (logs : answers.log = true)
    (listens : answers.listens = true)
    (forks : ∀ i, i < workerNumber → (answers.fork i).Succeeds (pids i))
    (distinct : ∀ i j, i < workerNumber → j < workerNumber → pids i = pids j → i = j) :
    ∃ workers after,
      startServer limit workerNumber dontDaemonize logsToFile answers fds = .ok (workers, after) ∧
      workers.length = workerNumber ∧
      (∀ i (w : Forked), workers[i]? = some w → w.Came (pids i)) ∧
      Begun (serverStarted workers) := by
  obtain ⟨fds₀, hdaemonized, used₀, hwithin₀, hused₀⟩ : ∃ fds₀,
      (if dontDaemonize then some fds else daemonize limit answers.daemon fds) = some fds₀ ∧
      ∃ used', Within limit used' fds₀ ∧ used'.length ≤ max 3 used.length := by
    rcases started.daemonized with ⟨_, hfails⟩ | ⟨fds₀, hok, _, hwithin⟩
    · rw [limits] at hfails
      cases hfails
    · exact ⟨fds₀, hok, hwithin used within⟩
  obtain ⟨fds₁, logFd, hlog, hwithin₁⟩ := @openLog_room limit (logsToFile || dontDaemonize) used₀ _
    hwithin₀ (by omega)
  obtain ⟨fd, fds₂, hlistens, hwithin₂⟩ := opens_room hwithin₁
    (by rw [List.length_cons]; omega) .listening
  obtain ⟨workers, after, hloop, hlength, hcame, _⟩ := forkLoop_comes hwithin₂ (by omega)
    workerNumber forks (by rw [List.length_cons, List.length_cons]; omega)
  have hstart : startServer limit workerNumber dontDaemonize logsToFile answers fds =
      .ok (workers, after) := by
    simp only [startServer, hdaemonized, logs, hlog, listens, hlistens, hloop]
  obtain ⟨hcomes, _⟩ := @startServer_sound limit workerNumber dontDaemonize logsToFile answers
    fds started
  refine ⟨workers, after, hstart, hlength, hcame, ?_⟩
  refine serverStarted_begun hcame (hcomes workers after hstart).2.sound ?_
  rw [hlength]
  exact distinct

theorem startup_begins_two : ∃ workers after,
    startServer 16 2 false false twoAnswers shellStreams = .ok (workers, after) ∧
      Begun (serverStarted workers) := by
  have hwithin : Within 16 [0, 1, 2] shellStreams := by
    intro fd _ hused
    by_cases hlow : fd ≤ 2
    · exact mem_standard hlow
    · rw [shellStreams, if_neg hlow] at hused
      exact absurd rfl hused
  obtain ⟨workers, after, h, _, _, hbegun⟩ := @startup_begins 16 2 false false twoAnswers
    shellStreams [0, 1, 2] (fun i => 100 + i) shell_started hwithin (by decide) rfl rfl rfl
    (fun i _ => ⟨rfl, rfl, rfl, rfl⟩) (fun i j _ _ h => Nat.add_left_cancel h)
  exact ⟨workers, after, h, hbegun⟩

end ServerStart
