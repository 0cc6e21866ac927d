import Minihttpd.TimerSweep

/-!
# The idle times of connections

The worker keeps three times in a connection and compares them in the sweep of
the timer. A run is instrumented here with the times at which a connection has
really read, entered `CON_STATE_WRITE` and written, and the two are compared.
-/
namespace IdleStamps

open ByteBuffer SystemCalls FdEvents ChunkQueue ConnectionTypes HttpRequest HttpResponse
open HttpConnection StateMachine HttpWorker RequestOutcome ConnectionInvariant Turns
open ConnectionRuns Registration WorkerTable TimerSweep FailingRun Slots

/-- What has happened to a connection, by the clocks the code reads it off: the
last read activity or request start, the last entry into `CON_STATE_WRITE`, and
the successful writes since then. -/
structure Stamps where
  readActivity : Int
  writeEntry : Int
  writes : List Int
  deriving DecidableEq, Repr

def Stamps.fresh : Stamps := ⟨0, 0, []⟩

/-- Whether `connection_handle_write` gets something done: all that is queued
is written, or a part of it, or bytes were taken before it failed. -/
def writeSucceeds (ans : SysAnswers) (queue : Chunkqueue) : Prop :=
  ∃ t, connectionHandleWrite ans queue = .ok t ∧ (t.code = 0 ∨ t.code = 1 ∨ t.sent ≠ [])

instance (ans : SysAnswers) (queue : Chunkqueue) : Decidable (writeSucceeds ans queue) :=
  match h : connectionHandleWrite ans queue with
  | .error e => isFalse (by
      rintro ⟨t, ht, _⟩
      rw [h] at ht
      cases ht)
  | .ok t => decidable_of_iff (t.code = 0 ∨ t.code = 1 ∨ t.sent ≠ []) (by
      constructor
      · intro hcode
        exact ⟨t, h, hcode⟩
      · rintro ⟨t', ht, hcode⟩
        rw [h] at ht
        cases ht
        exact hcode)

/-- What one turn of the loop adds to the stamps of the connection. -/
def stampTurn (ans : SysAnswers) (m : Machine) (s : Stamps) : Stamps :=
  match m.conn.state with
  | .requestStart => { s with readActivity := ans.time }
  | .read => if m.conn.readable then { s with readActivity := m.curTs } else s
  | .responseStart => { s with writeEntry := m.curTs, writes := [] }
  | .write =>
    if chunkqueueLength m.conn.writequeue ≠ 0 ∧ m.conn.writeable = true ∧
        writeSucceeds ans m.conn.writequeue then { s with writes := m.curTs :: s.writes }
    else s
  | _ => s

/-- The stamps after the turns that `stateLoop` makes. -/
def stampLoop (config : ServerConfig) (answers : Nat → SysAnswers) :
    Nat → Nat → Machine → Stamps → Stamps
  | 0, _, _, s => s
  | fuel + 1, turn, m, s =>
    match connectionIteration config (answers turn) m with
    | .error _ => s
    | .ok next =>
      if next.conn.state = m.conn.state then stampTurn (answers turn) m s
      else stampLoop config answers fuel (turn + 1) next (stampTurn (answers turn) m s)

/-- The stamps of every connection, by its address. -/
abbrev History := Nat → Stamps

def stampCall (config : ServerConfig) (answers : Nat → SysAnswers) (w : Worker) (h : History)
    (address : Nat) : History :=
  match w.heap address with
  | none => h
  | some conn =>
    Function.update h address (stampLoop config answers 16 0 (machineOf w conn) (h address))

def stampedStateMachine (config : ServerConfig) (answers : Nat → SysAnswers) (w : Worker)
    (h : History) (address : Nat) : Except Fault (Worker × History) :=
  (workerStateMachine config answers w address).map
    (fun next => (next, stampCall config answers w h address))

def stampedEventHandle (config : ServerConfig) (mask : EventMask) (now : Int)
    (answers : Nat → SysAnswers) (w : Worker) (h : History) (address : Nat) :
    Except Fault (Worker × History) :=
  match w.heap address with
  | none => .error .nullPointer
  | some conn =>
    stampedStateMachine config answers (w.setHeap address (some (noteEvents mask now conn))) h
      address

def stampedUnixSocketHandle (config : ServerConfig) (mask : EventMask) (recv : RecvAnswer)
    (answers : Nat → SysAnswers) (w : Worker) (h : History) : Except Fault (Worker × History) :=
  let withoutSocket := do
    let ev ← fdeventsUnsetEvent w.ev w.unixDomainSocketFd
    return ({ w with ev := ev }, h)
  if mask.epollhup then withoutSocket
  else if mask.epollerr then .ok (w, h)
  else
    match recv with
    | .fail errno logged =>
      match logged.getD errno with
      | .eintr => .ok (w, h)
      | .eagain => .ok (w, h)
      | _ => withoutSocket
    | .endOfFile => withoutSocket
    | .message fd unset => do
      let connectionFd := fd.getD unset
      let w := { w with received := w.received ++ [connectionFd] }
      match ← workerGetNewConnection w with
      | none => return ({ w with closed := w.closed ++ [connectionFd] }, h)
      | some (address, w) =>
        let ev ← fdeventsRegisterFd w.ev connectionFd (.connection address)
        let conn := (w.heap address).map (fun conn => { conn with connSocketFd := connectionFd })
        stampedStateMachine config answers { w.setHeap address conn with ev := ev } h address

def stampedSweepSlot (config : ServerConfig) (answers : Nat → Nat → SysAnswers)
    (s : Worker × History) (connectionIndex : Nat) : Except Fault (Worker × History) :=
  match s.1.conn.getD connectionIndex none with
  | none => .ok s
  | some address =>
    match s.1.heap address with
    | none => .error .nullPointer
    | some conn =>
      match timerExpire config s.1.curTs conn with
      | none => .ok s
      | some conn =>
        stampedStateMachine config (answers connectionIndex) (s.1.setHeap address (some conn)) s.2
          address

def stampedTimerHandler (config : ServerConfig) (mask : EventMask) (now : Int)
    (answers : Nat → Nat → SysAnswers) (w : Worker) (h : History) :
    Except Fault (Worker × History) :=
  if mask.epollin = false then .ok (w, h)
  else if now = w.curTs then .ok (w, h)
  else (List.range w.connMaxSize).foldlM (stampedSweepSlot config answers) ({ w with curTs := now }, h)

def stampedCall (config : ServerConfig) (w : Worker) (h : History) :
    HandlerCall → Except Fault (Worker × History)
  | .unixDomainSocket mask recv answers => stampedUnixSocketHandle config mask recv answers w h
  | .connection address mask now answers => stampedEventHandle config mask now answers w h address
  | .timer mask now answers => stampedTimerHandler config mask now answers w h

lemma stampedStateMachine_erase (config : ServerConfig) (answers : Nat → SysAnswers) (w : Worker)
    (h : History) (a : Nat) :
    (stampedStateMachine config answers w h a).map Prod.fst = workerStateMachine config answers w a := by
  rw [stampedStateMachine]
  cases workerStateMachine config answers w a with
  | error e => rfl
  | ok next => rfl

lemma stampedEventHandle_erase (config : ServerConfig) (mask : EventMask) (now : Int)
    (answers : Nat → SysAnswers) (w : Worker) (h : History) (a : Nat) :
    (stampedEventHandle config mask now answers w h a).map Prod.fst =
      connectionEventHandle config mask now answers w a := by
  rw [stampedEventHandle, connectionEventHandle]
  cases w.heap a with
  | none => rfl
  | some conn => exact stampedStateMachine_erase config answers _ h a

lemma stampedSweepSlot_erase (config : ServerConfig) (answers : Nat → Nat → SysAnswers)
    (s : Worker × History) (i : Nat) :
    (stampedSweepSlot config answers s i).map Prod.fst = sweepSlot config answers s.1 i := by
  rw [stampedSweepSlot, sweepSlot]
  cases s.1.conn.getD i none with
  | none => rfl
  | some a =>
    cases hconn : s.1.heap a with
    | none => simp only [hconn]; rfl
    | some conn =>
      simp only [hconn]
      cases timerExpire config s.1.curTs conn with
      | none => rfl
      | some after => exact stampedStateMachine_erase config (answers i) _ s.2 a

lemma withoutSocket_erase (w : Worker) (h : History) :
    (do
      let ev ← fdeventsUnsetEvent w.ev w.unixDomainSocketFd
      return ({ w with ev := ev }, h) : Except Fault (Worker × History)).map Prod.fst =
    (do
      let ev ← fdeventsUnsetEvent w.ev w.unixDomainSocketFd
      return { w with ev := ev }) := by
  cases fdeventsUnsetEvent w.ev w.unixDomainSocketFd with
  | error e => rfl
  | ok ev => rfl

lemma stampedUnixSocketHandle_erase (config : ServerConfig) (mask : EventMask) (recv : RecvAnswer)
    (answers : Nat → SysAnswers) (w : Worker) (h : History) :
    (stampedUnixSocketHandle config mask recv answers w h).map Prod.fst =
      unixDomainSocketHandle config mask recv answers w := by
  have hunset := withoutSocket_erase w h
  unfold stampedUnixSocketHandle unixDomainSocketHandle
  split
  · exact hunset
  · split
    · rfl
    · cases recv with
      | fail errno logged =>
        dsimp only
        cases logged.getD errno with
        | eintr => rfl
        | eagain => rfl
        | _ => exact hunset
      | endOfFile => exact hunset
      | message fd unset =>
        cases hnew : workerGetNewConnection { w with received := w.received ++ [fd.getD unset] } with
        | error e => simp only [hnew]; rfl
        | ok found =>
          simp only [hnew]
          cases found with
          | none => rfl
          | some found =>
            obtain ⟨address, w'⟩ := found
            change Except.map Prod.fst (fdeventsRegisterFd w'.ev _ _ >>= _) =
              (fdeventsRegisterFd w'.ev _ _ >>= _)
            cases fdeventsRegisterFd w'.ev (fd.getD unset) (.connection address) with
            | error e => rfl
            | ok ev => exact stampedStateMachine_erase config answers _ h address

/-- An instrumented handler does what the handler does. -/
theorem stampedCall_erase (config : ServerConfig) (w : Worker) (h : History) (c : HandlerCall) :
    (stampedCall config w h c).map Prod.fst = handlerCall config w c := by
  cases c with
  | unixDomainSocket mask recv answers =>
    exact stampedUnixSocketHandle_erase config mask recv answers w h
  | connection a mask now answers => exact stampedEventHandle_erase config mask now answers w h a
  | timer mask now answers =>
    rw [stampedCall, stampedTimerHandler, handlerCall, workerTimerExpireHandler]
    split
    · rfl
    · split
      · rfl
      · exact foldlM_erase (stampedSweepSlot_erase config answers) _ _

/-- The runs of a worker with the stamps of its connections. -/
inductive StampedRun (config : ServerConfig) (start : Worker) : Worker → History → Prop where
  | start : StampedRun config start start (fun _ => Stamps.fresh)
  | call {w next : Worker} {h after : History} {c : HandlerCall} : StampedRun config start w h →
      Permitted w c → stampedCall config w h c = .ok (next, after) →
      StampedRun config start next after

lemma stampedCall_ok {config : ServerConfig} {w next : Worker} {h after : History}
    {c : HandlerCall} (hcall : stampedCall config w h c = .ok (next, after)) :
    handlerCall config w c = .ok next := by
  rw [← stampedCall_erase config w h c, hcall]
  rfl

lemma stampedCall_exists {config : ServerConfig} {w next : Worker} (h : History)
    {c : HandlerCall} (hcall : handlerCall config w c = .ok next) :
    ∃ after, stampedCall config w h c = .ok (next, after) := by
  rw [← stampedCall_erase config w h c] at hcall
  obtain ⟨⟨next', after⟩, hok, hnext⟩ := map_eq_ok.mp hcall
  cases hnext
  exact ⟨after, hok⟩

/-- Every run can be stamped, and in no other way than along its calls. -/
theorem stampedRun_iff {config : ServerConfig} {start w : Worker} :
    WorkerRun config start w ↔ ∃ h, StampedRun config start w h := by
  constructor
  · intro run
    induction run with
    | start => exact ⟨_, .start⟩
    | call _ permitted hcall ih =>
      obtain ⟨h, hstamped⟩ := ih
      obtain ⟨after, hafter⟩ := stampedCall_exists h hcall
      exact ⟨after, .call hstamped permitted hafter⟩
  · rintro ⟨h, run⟩
    induction run with
    | start => exact .start
    | call _ permitted hcall ih => exact .call ih permitted (stampedCall_ok hcall)

/-- How the times in a connection compare with its stamps, state by state. -/
def StampOk (conn : Connection) (s : Stamps) : Prop :=
  match conn.state with
  | .requestStart | .requestEnd | .handleRequest | .responseStart => conn.activeWriteTs = 0
  | .read => conn.activeReadTs = s.readActivity ∧ conn.activeWriteTs = 0
  | .write => conn.activeWriteTs = 0 ∨ conn.activeWriteTs ∈ s.writes
  | .responseEnd | .error | .close | .connect => True

lemma parse_writeTs {conn : Connection} {result : Int × Connection}
    (h : ParseOutcome conn result) : result.2.activeWriteTs = conn.activeWriteTs := by
  cases h <;> rfl

lemma handle_writeTs {config : ServerConfig} {ans : SysAnswers} {conn after : Connection}
    {events : List Event} (h : HandleOutcome config ans conn after events) :
    after.activeWriteTs = conn.activeWriteTs := by
  cases h <;> rfl

lemma body_writeTs {conn mid : Connection} (h : BodyOutcome conn mid) :
    (setContentLength mid).activeWriteTs = conn.activeWriteTs := by
  rw [setContentLength]
  cases h <;> split <;> rfl

/-- Reading keeps the two times in step, whatever comes of it. -/
lemma read_stampOk {config : ServerConfig} {ans : SysAnswers} {m : Machine} {after : Connection}
    {bytes : Bytes} {s : Stamps} (hstate : m.conn.state = .read)
    (hread : connectionHandleReadState config m.curTs ans m.conn = .ok (after, bytes))
    (h : ReadStateOutcome config m.curTs ans m.conn after bytes) (ok : StampOk m.conn s) :
    StampOk after (stampTurn ans m s) := by
  rw [StampOk, hstate] at ok
  obtain ⟨hts, hzero⟩ := ok
  have hstamp : stampTurn ans m s =
      if m.conn.readable then { s with readActivity := m.curTs } else s := by
    simp only [stampTurn, hstate]
  rw [hstamp]
  by_cases hreadable : m.conn.readable = true
  · rw [if_pos hreadable]
    have stepped : ∀ mid, ReadStep m.curTs ans m.conn mid → mid.state = .read ∧
        mid.activeReadTs = m.curTs ∧ mid.activeWriteTs = 0 := by
      intro mid step
      rw [step.fields]
      exact ⟨hstate, rfl, hzero⟩
    cases h with
    | skipped hunreadable =>
      rw [hreadable] at hunreadable
      cases hunreadable
    | nothing mid step =>
      obtain ⟨hmid, htimes⟩ := stepped after step
      rw [StampOk, hmid]
      exact htimes
    | failed => trivial
    | endOfFile => trivial
    | got mid after step _ _ hexamine =>
      obtain ⟨hmid, htimes⟩ := stepped mid step
      cases hexamine with
      | complete => exact htimes.2
      | tooLong => exact htimes.2
      | waiting =>
        rw [StampOk, hmid]
        exact htimes
  · rw [if_neg hreadable]
    have hunreadable : m.conn.readable = false := Bool.eq_false_iff.mpr hreadable
    rw [connectionHandleReadState, if_pos hunreadable] at hread
    cases hread
    rw [StampOk, hstate]
    exact ⟨hts, hzero⟩

/-- A write is noted by the code only if it has ended with 0 or 1. -/
lemma write_stampOk {ans : SysAnswers} {m : Machine} {after : Connection} {bytes : Bytes}
    {s : Stamps} (hstate : m.conn.state = .write)
    (pending : chunkqueueLength m.conn.writequeue ≠ 0)
    (hwrite : connectionHandleWriteState m.curTs ans m.conn = .ok (after, bytes))
    (ok : StampOk m.conn s) : StampOk after (stampTurn ans m s) := by
  rw [StampOk, hstate] at ok
  have hstamp : stampTurn ans m s =
      if chunkqueueLength m.conn.writequeue ≠ 0 ∧ m.conn.writeable = true ∧
        writeSucceeds ans m.conn.writequeue then { s with writes := m.curTs :: s.writes }
      else s := by
    simp only [stampTurn, hstate]
  have hgrows : ∀ ts ∈ s.writes, ts ∈ (stampTurn ans m s).writes := by
    intro ts hts
    rw [hstamp]
    split
    · exact List.mem_cons_of_mem _ hts
    · exact hts
  rw [connectionHandleWriteState] at hwrite
  by_cases hwriteable : m.conn.writeable = false
  · rw [if_pos hwriteable] at hwrite
    cases hwrite
    rw [StampOk, hstate]
    exact ok.imp_right (hgrows _)
  · rw [if_neg hwriteable] at hwrite
    obtain ⟨t, ht, hwrite⟩ := bind_eq_ok.mp hwrite
    -- a write that the code notes is a successful one
    have hnoted : t.code = 0 ∨ t.code = 1 → m.curTs ∈ (stampTurn ans m s).writes := by
      intro hcode
      have hsucceeds : writeSucceeds ans m.conn.writequeue :=
        ⟨t, ht, hcode.imp_right Or.inl⟩
      rw [hstamp, if_pos ⟨pending, Bool.not_eq_false _ ▸ hwriteable, hsucceeds⟩]
      exact List.mem_cons_self
    by_cases h0 : t.code = 0
    · rw [if_pos h0] at hwrite
      cases hwrite
      rw [StampOk]
      by_cases hfinished : m.conn.httpResponseBodyFinished = true
      · simp only [if_pos hfinished]
      · simp only [if_neg hfinished, hstate]
        exact Or.inr (hnoted (Or.inl h0))
    · rw [if_neg h0] at hwrite
      by_cases h1 : t.code = -1
      · rw [if_pos h1] at hwrite
        cases hwrite
        simp only [StampOk, hstate]
        exact ok.imp_right (hgrows _)
      · rw [if_neg h1] at hwrite
        by_cases h2 : t.code = 1
        · rw [if_pos h2] at hwrite
          cases hwrite
          simp only [StampOk, hstate]
          exact Or.inr (hnoted (Or.inr h2))
        · rw [if_neg h2] at hwrite
          cases hwrite
          trivial

/-- One turn keeps the times in step with the stamps. -/
theorem turn_stampOk {config : ServerConfig} {ans : SysAnswers} {m next : Machine} {s : Stamps}
    (h : Turn config ans m next) (ok : StampOk m.conn s) :
    StampOk next.conn (stampTurn ans m s) := by
  have hzero : m.conn.state = .requestStart ∨ m.conn.state = .requestEnd ∨
      m.conn.state = .handleRequest ∨ m.conn.state = .responseStart → m.conn.activeWriteTs = 0 := by
    rintro (h | h | h | h) <;> rw [StampOk, h] at ok <;> exact ok
  cases h with
  | started hstate =>
    simp only [stampTurn, hstate]
    exact ⟨rfl, hzero (Or.inl hstate)⟩
  | parsed result hstate _ hparse =>
    exact (parse_writeTs hparse).trans (hzero (Or.inr (Or.inl hstate)))
  | handled after events hstate houtcome =>
    exact (handle_writeTs houtcome).trans (hzero (Or.inr (Or.inr (Or.inl hstate))))
  | prepared mid text writequeue hstate hbody =>
    exact Or.inl ((body_writeTs hbody).trans (hzero (Or.inr (Or.inr (Or.inr hstate)))))
  | read after bytes hstate hread houtcome => exact read_stampOk hstate hread houtcome ok
  | wrote after bytes hstate hpending hwrite _ => exact write_stampOk hstate hpending hwrite ok
  | finished => trivial
  | ended =>
    rw [handleResponseEnd]
    split
    · rfl
    · trivial
  | failed => trivial
  | lingers ts hstate =>
    simp only [StampOk, Machine.advance, hstate]
  | closed => trivial
  | gone hstate =>
    rw [StampOk, hstate]
    trivial

theorem loop_stampOk {config : ServerConfig} {answers : Nat → SysAnswers} (fuel turn : Nat)
    {m r : Machine} {s : Stamps} (inv : MachineInv config m) (ok : StampOk m.conn s)
    (h : stateLoop config answers fuel turn m = .ok r) :
    StampOk r.conn (stampLoop config answers fuel turn m s) := by
  induction fuel generalizing turn m s with
  | zero => cases h
  | succ fuel ih =>
    rw [stateLoop] at h
    obtain ⟨next, hturn, h⟩ := bind_eq_ok.mp h
    have hcases := turn_cases inv.conn hturn
    have hnext := turn_stampOk hcases (show StampOk (m.emit [.state m.conn.state]).conn s from ok)
    change StampOk next.conn (stampTurn (answers turn) m s) at hnext
    rw [stampLoop, hturn]
    by_cases hsame : next.conn.state = m.conn.state
    · rw [if_pos hsame] at h
      cases h
      simp only [if_pos hsame]
      exact hnext
    · rw [if_neg hsame] at h
      simp only [if_neg hsame]
      exact ih (turn + 1) (turn_machineInv inv hturn) hnext h

lemma updateInterest_conn {m r : Machine} (h : updateInterest m = .ok r) : r.conn = m.conn := by
  simp only [updateInterest] at h
  split at h
  · obtain ⟨_, _, h⟩ := bind_eq_ok.mp h
    cases h
    rfl
  · obtain ⟨_, _, h⟩ := bind_eq_ok.mp h
    cases h
    rfl
  · split at h
    · obtain ⟨_, _, h⟩ := bind_eq_ok.mp h
      cases h
      rfl
    · obtain ⟨_, _, h⟩ := bind_eq_ok.mp h
      cases h
      rfl
  · cases h
    rfl

theorem call_stampOk {config : ServerConfig} {answers : Nat → SysAnswers} {m r : Machine}
    {s : Stamps} (inv : MachineInv config m) (ok : StampOk m.conn s)
    (h : connectionStateMachine config answers m = .ok r) :
    StampOk r.conn (stampLoop config answers 16 0 m s) := by
  rw [connectionStateMachine] at h
  obtain ⟨next, hloop, h⟩ := bind_eq_ok.mp h
  have hnext := loop_stampOk 16 0 inv ok hloop
  split at h
  · cases h
    exact hnext
  · rw [updateInterest_conn h]
    exact hnext

def StampInv (w : Worker) (h : History) : Prop :=
  ∀ i a conn, slotConn w i = some (a, conn) → StampOk conn (h a)

lemma stampCall_self {config : ServerConfig} {answers : Nat → SysAnswers} {w : Worker} {h : History}
    {a : Nat} {conn : Connection} (hconn : w.heap a = some conn) :
    stampCall config answers w h a a = stampLoop config answers 16 0 (machineOf w conn) (h a) := by
  simp only [stampCall, hconn]
  exact Function.update_self _ _ _

lemma stampCall_other {config : ServerConfig} {answers : Nat → SysAnswers} {w : Worker} {h : History}
    {a b : Nat} (hb : b ≠ a) : stampCall config answers w h a b = h b := by
  rw [stampCall]
  cases w.heap a with
  | none => rfl
  | some conn => exact Function.update_of_ne hb _ _

/-- A call on one connection, whose own stamps fit, keeps all stamps fitting. -/
lemma stateMachine_stampInv {config : ServerConfig} {answers : Nat → SysAnswers} {w next : Worker}
    {h after : History} {i a : Nat} {conn : Connection} (inv : TableInv config w)
    (slot : InSlot w i a) (hconn : w.heap a = some conn) (ok : StampInv w h)
    (hcall : stampedStateMachine config answers w h a = .ok (next, after)) :
    StampInv next after := by
  rw [stampedStateMachine] at hcall
  obtain ⟨next', hnext, heq⟩ := map_eq_ok.mp hcall
  cases heq
  have hcases := workerStateMachine_cases inv slot hconn hnext
  have honly := hcases.onlySlot
  intro j b other hother
  by_cases hj : j = i
  · subst hj
    cases hcases with
    | kept r hr hopen =>
      have hself : slotConn ({ w with ev := r.ev }.setHeap a (some r.conn)) j = some (a, r.conn) :=
        slotConn_eq_some.mpr ⟨slot, Function.update_self _ _ _⟩
      rw [hself] at hother
      cases hother
      rw [stampCall_self hconn]
      exact call_stampOk (slot_machineInv (table_slot inv slot hconn))
        (ok j a conn (slotConn_eq_some.mpr ⟨slot, hconn⟩)) hr
    | released r hr hclosed =>
      have hcleared : (w.conn.set j none)[j]? = some none := by
        rw [List.getElem?_set_self', show w.conn[j]? = _ from slot]
        rfl
      rw [slotConn_eq_none hcleared] at hother
      cases hother
  · rw [honly.others inv slot hj] at hother
    have hb : b ≠ a := by
      rintro rfl
      exact hj (inv.slot_unique (slotConn_eq_some.mp hother).1 slot)
    rw [stampCall_other hb]
    exact ok j b other hother

/-- Replacing a connection by one that fits the same stamps. -/
lemma stampInv_setHeap {w : Worker} {h : History} {a : Nat} {after : Connection}
    (ok : StampInv w h) (fits : StampOk after (h a)) : StampInv (w.setHeap a (some after)) h := by
  intro j b other hother
  obtain ⟨hslot, hheap⟩ := slotConn_eq_some.mp hother
  by_cases hb : b = a
  · subst hb
    rw [show (w.setHeap b (some after)).heap b = some after from Function.update_self _ _ _] at hheap
    cases hheap
    exact fits
  · rw [show (w.setHeap a (some after)).heap b = w.heap b from
      Function.update_of_ne hb _ _] at hheap
    exact ok j b other (slotConn_eq_some.mpr ⟨hslot, hheap⟩)

lemma noteEvents_stampOk {mask : EventMask} {now : Int} {conn : Connection} {s : Stamps}
    (ok : StampOk conn s) : StampOk (noteEvents mask now conn) s := by
  obtain ⟨readable, writeable, heq | heq | ⟨hclose, heq⟩⟩ := noteEvents_cases mask now conn
  · rw [heq]
    exact ok
  · rw [heq]
    trivial
  · rw [heq]
    simp only [StampOk, hclose]

/-- What the sweep makes of a slot and of the stamps of its connection. -/
structure StampedSwept (config : ServerConfig) (t : Int) (answers : Nat → SysAnswers)
    (before after : Option ((Nat × Connection) × Stamps)) : Prop where
  swept : SweptTo config t answers (before.map Prod.fst) (after.map Prod.fst)
  spared : ∀ x s, before = some (x, s) → timerExpire config t x.2 = none → after = before

def slotStamps (s : Worker × History) (i : Nat) : Option ((Nat × Connection) × Stamps) :=
  (slotConn s.1 i).map (fun x => (x, s.2 x.1))

lemma slotStamps_eq {s : Worker × History} {i : Nat} {x : Option (Nat × Connection)}
    (h : slotConn s.1 i = x) : slotStamps s i = x.map (fun x => (x, s.2 x.1)) := by
  rw [slotStamps, h]

lemma slotStamps_fst (s : Worker × History) (i : Nat) :
    (slotStamps s i).map Prod.fst = slotConn s.1 i := by
  rw [slotStamps, Option.map_map]
  exact Option.map_id_fun' ▸ rfl

/-- The sweep keeps the stamps of every connection that it does not call. -/
lemma stampedSweepSlot_step {config : ServerConfig} (answers : Nat → Nat → SysAnswers)
    {s : Worker × History} (inv : TableInv config s.1) (i : Nat) :
    ∃ next, stampedSweepSlot config answers s i = .ok next ∧
      SweepStep config (answers i) s.1 i next.1 ∧
      StampedSwept config s.1.curTs (answers i) (slotStamps s i) (slotStamps next i) ∧
      ∀ j, j ≠ i → slotStamps next j = slotStamps s j := by
  obtain ⟨w, h⟩ := s
  replace inv : TableInv config w := inv
  have hsame : ∀ swept : SweptTo config w.curTs (answers i) (slotConn w i) (slotConn w i),
      SweepStep config (answers i) w i w ∧ StampedSwept config w.curTs (answers i)
        (slotStamps (w, h) i) (slotStamps (w, h) i) := by
    intro swept
    refine ⟨sweepStep_same inv swept, ⟨?_, fun _ _ _ _ => rfl⟩⟩
    rw [slotStamps_fst]
    exact swept
  rw [stampedSweepSlot]
  cases hkey : w.conn.getD i none with
  | none =>
    have hempty : slotConn w i = none := by
      rw [slotConn, hkey]
      rfl
    obtain ⟨hstep, hswept⟩ := hsame (hempty ▸ .empty)
    exact ⟨(w, h), rfl, hstep, hswept, fun _ _ => rfl⟩
  | some a =>
    have slot : InSlot w i a := getD_inSlot.mp hkey
    obtain ⟨conn, hconn, _⟩ := inv.slots i a slot
    have hbefore : slotConn w i = some (a, conn) := slotConn_eq_some.mpr ⟨slot, hconn⟩
    simp only [hconn]
    cases hexpire : timerExpire config w.curTs conn with
    | none =>
      obtain ⟨hstep, hswept⟩ := hsame (hbefore ▸ .spared a conn hexpire)
      exact ⟨(w, h), rfl, hstep, hswept, fun _ _ => rfl⟩
    | some after =>
      obtain ⟨next, hnext, hstep⟩ := overdue_call (answers i) inv slot hconn hexpire
      refine ⟨(next, stampCall config (answers i) (w.setHeap a (some after)) h a), ?_, hstep,
        ⟨?_, ?_⟩, ?_⟩
      · simp only [stampedStateMachine, hnext]
        rfl
      · rw [slotStamps_fst, slotStamps_fst]
        exact hstep.swept
      · intro x s hx hnone
        rw [slotStamps_eq hbefore] at hx
        cases hx
        rw [show timerExpire config (w, h).1.curTs conn = _ from hexpire] at hnone
        cases hnone
      · intro j hj
        have hothers := hstep.others j hj
        rw [slotStamps, slotStamps]
        change (slotConn next j).map _ = (slotConn w j).map _
        rw [hothers]
        cases hother : slotConn w j with
        | none => rfl
        | some x =>
          have hb : x.1 ≠ a := by
            intro hb
            rw [← hb] at slot
            exact hj (inv.slot_unique (slotConn_eq_some.mp hother).1 slot)
          simp only [Option.map_some]
          rw [stampCall_other hb]

/-- The handler of the timer comes back, and what it has made of each slot. -/
theorem stampedTimer_sweeps {config : ServerConfig} {mask : EventMask} {now : Int}
    (answers : Nat → Nat → SysAnswers) {w : Worker} (h : History) (inv : TableInv config w)
    (fires : mask.epollin = true) (advances : now ≠ w.curTs) :
    ∃ next after, stampedTimerHandler config mask now answers w h = .ok (next, after) ∧
      ∀ i, StampedSwept config now (answers i) (slotStamps (w, h) i)
        (slotStamps (next, after) i) := by
  obtain ⟨⟨next, after⟩, hnext, _, hswept, hsame⟩ := @foldlM_each _ _ _
    (stampedSweepSlot config answers) _ slotStamps (fun i => StampedSwept config now (answers i))
    (fun s => Sweeping config now w s.1) (List.range w.connMaxSize) List.nodup_range
    (by
      intro s i hs
      obtain ⟨t, ht, hstep, hswept, hothers⟩ := stampedSweepSlot_step answers hs.inv i
      exact ⟨t, ht, hs.step hstep, hs.curTs ▸ hswept, hothers⟩)
    ({ w with curTs := now }, h) ⟨tableInv_clock inv now, rfl, rfl, rfl, rfl⟩
  have hfires : mask.epollin ≠ false := by
    rw [fires]
    decide
  refine ⟨next, after, ?_, fun i => ?_⟩
  · rw [stampedTimerHandler, if_neg hfires, if_neg advances]
    exact hnext
  · by_cases hi : i < w.connMaxSize
    · exact hswept i (List.mem_range.mpr hi)
    · have hbeyond : slotConn w i = none := slotConn_beyond (Nat.le_of_not_lt hi)
      rw [hsame i (fun h => hi (List.mem_range.mp h))]
      change StampedSwept config now (answers i) (slotStamps (w, h) i) (slotStamps (w, h) i)
      rw [slotStamps_eq hbeyond]
      exact ⟨.empty, fun _ _ _ _ => rfl⟩

/-- A connection that is there after the sweep has been spared with its stamps,
or is lingering. -/
lemma swept_cases {config : ServerConfig} {t : Int} {w next : Worker} {h after : History} {i a : Nat}
    {conn : Connection} {answers : Nat → SysAnswers}
    (swept : StampedSwept config t answers (slotStamps (w, h) i) (slotStamps (next, after) i))
    (hconn : slotConn next i = some (a, conn)) :
    (slotConn w i = some (a, conn) ∧ timerExpire config t conn = none ∧ after a = h a) ∨
      Lingering t conn := by
  have hswept := swept.swept
  rw [slotStamps_fst, slotStamps_fst, show slotConn (next, after).1 i = _ from hconn] at hswept
  generalize hbefore : slotConn (w, h).1 i = before at hswept
  cases hswept with
  | spared _ _ hnone =>
    left
    have hsame := swept.spared (a, conn) (h a) (slotStamps_eq hbefore) hnone
    rw [slotStamps_eq hbefore, slotStamps_eq (show slotConn (next, after).1 i = _ from hconn)] at hsame
    obtain ⟨_, hstamps⟩ := Prod.mk.inj (Option.some.inj hsame)
    exact ⟨rfl, hnone, hstamps⟩
  | lingering _ _ _ _ _ _ hlingering => exact Or.inr hlingering

/-- A new connection fits any stamps. -/
lemma addConnection_stampInv {w : Worker} {h : History} {index : Nat} {fd : Int} {ev : Fdevents}
    {config : ServerConfig} (inv : TableInv config w) (ok : StampInv w h) : StampInv (addConnection w index fd ev) h := by
  intro j a conn hconn
  obtain ⟨hslot, hheap⟩ := slotConn_eq_some.mp hconn
  rcases getElem?_set_some hslot with ⟨_, rfl⟩ | ⟨hj, hold⟩
  · rw [show (addConnection w index fd ev).heap w.nextAddress = _ from
      Function.update_self _ _ _] at hheap
    cases hheap
    rfl
  · have ha : a ≠ w.nextAddress := Nat.ne_of_lt (inv.addresses j a hold)
    rw [show (addConnection w index fd ev).heap a = w.heap a from
      Function.update_of_ne ha _ _] at hheap
    exact ok j a conn (slotConn_eq_some.mpr ⟨hold, hheap⟩)

lemma unixSocket_stampInv {config : ServerConfig} {mask : EventMask} {recv : RecvAnswer}
    {answers : Nat → SysAnswers} {w next : Worker} {h after : History} (inv : TableInv config w)
    (fresh : FreshDescriptor w recv) (ok : StampInv w h)
    (hcall : stampedUnixSocketHandle config mask recv answers w h = .ok (next, after)) :
    StampInv next after := by
  have hsame : ∀ {r : Worker × History}, (.ok (w, h) : Except Fault (Worker × History)) = .ok r →
      StampInv r.1 r.2 := by
    intro r hr
    cases hr
    exact ok
  have hunset : ∀ {r : Worker × History}, (do
      let ev ← fdeventsUnsetEvent w.ev w.unixDomainSocketFd
      return ({ w with ev := ev }, h) : Except Fault (Worker × History)) = .ok r →
      StampInv r.1 r.2 := by
    intro r hr
    obtain ⟨_, _, hr⟩ := bind_eq_ok.mp hr
    cases hr
    exact ok
  unfold stampedUnixSocketHandle at hcall
  split at hcall
  · exact hunset hcall
  · split at hcall
    · exact hsame hcall
    · cases recv with
      | fail errno logged =>
        dsimp only at hcall
        generalize logged.getD errno = n at hcall
        cases n with
        | eintr => exact hsame hcall
        | eagain => exact hsame hcall
        | _ => exact hunset hcall
      | endOfFile => exact hunset hcall
      | message fd unset =>
        obtain ⟨f, rfl, hf⟩ := fresh
        simp only [Option.getD_some] at hcall
        by_cases hroom : w.curConnectionNumber < w.connMaxSize
        · obtain ⟨index, hempty, hnew⟩ :=
            getNewConnection_room (w := { w with received := w.received ++ [f] }) inv.count hroom
          have hfree := hf.free inv
          obtain ⟨ev, hregister, honly, hwatched⟩ :=
            registerFd_spec (.connection w.nextAddress) hf.range hfree (inv.mirrors _)
          have hadded := tableInv_addConnection inv hempty hfree honly hwatched
          rw [hnew] at hcall
          change (fdeventsRegisterFd w.ev f (.connection w.nextAddress) >>= _) = _ at hcall
          rw [hregister] at hcall
          have hset : ∀ conn : Option Connection,
              Function.update (Function.update w.heap w.nextAddress
                (some { connectionSetDefault with connectionIndex := index })) w.nextAddress conn =
              Function.update w.heap w.nextAddress conn := fun _ => Function.update_idem _ _ _
          change stampedStateMachine config answers _ h _ = _ at hcall
          simp only [Worker.setHeap, Function.update_self, hset, Option.map_some] at hcall
          exact stateMachine_stampInv hadded (addConnection_slot f ev hempty)
            (Function.update_self _ _ _) (addConnection_stampInv inv ok) hcall
        · have hfull : workerGetNewConnection { w with received := w.received ++ [f] } =
              .ok none := if_pos (Nat.le_of_not_lt hroom)
          rw [hfull] at hcall
          cases hcall
          exact ok

theorem stampedCall_stampInv {config : ServerConfig} {w next : Worker} {h after : History}
    {c : HandlerCall} (inv : TableInv config w) (permitted : Permitted w c) (ok : StampInv w h)
    (hcall : stampedCall config w h c = .ok (next, after)) : StampInv next after := by
  cases c with
  | unixDomainSocket mask recv answers => exact unixSocket_stampInv inv permitted ok hcall
  | connection a mask now answers =>
    obtain ⟨k, n, hn, hctx⟩ := permitted
    have hentry := inv.entries k n hn
    rw [hctx] at hentry
    obtain ⟨i, conn, slot, hconn, _⟩ := hentry
    have hslot := table_slot inv slot hconn
    rw [stampedCall, stampedEventHandle, hconn] at hcall
    exact stateMachine_stampInv (tableInv_setHeap inv slot hconn (noteEvents_conn hslot.inv mask now)
        (noteEvents_open mask now hslot.open_still) (noteEvents_socket mask now conn))
      slot (Function.update_self _ _ _) (stampInv_setHeap ok (noteEvents_stampOk
        (ok i a conn (slotConn_eq_some.mpr ⟨slot, hconn⟩)))) hcall
  | timer mask now answers =>
    rw [stampedCall] at hcall
    by_cases hfires : mask.epollin = true
    · by_cases hnow : now = w.curTs
      · rw [stampedTimerHandler, if_neg (by rw [hfires]; decide), if_pos hnow] at hcall
        cases hcall
        exact ok
      · obtain ⟨next', after', hok, hswept⟩ := stampedTimer_sweeps answers h inv hfires hnow
        rw [hcall] at hok
        cases hok
        intro i a conn hconn
        rcases swept_cases (hswept i) hconn with ⟨hbefore, _, hstamps⟩ | hlingering
        · rw [hstamps]
          exact ok i a conn hbefore
        · simp only [StampOk, hlingering.1]
    · rw [stampedTimerHandler, if_pos (Bool.eq_false_iff.mpr hfires)] at hcall
      cases hcall
      exact ok

theorem stampedRun_inv {config : ServerConfig} {start w : Worker} {h : History}
    (inv : TableInv config start) (empty : ∀ i, slotConn start i = none)
    (run : StampedRun config start w h) : TableInv config w ∧ StampInv w h := by
  induction run with
  | start =>
    refine ⟨inv, fun i a conn hconn => ?_⟩
    rw [empty i] at hconn
    cases hconn
  | call run permitted hcall ih =>
    refine ⟨run_inv inv (stampedRun_iff.mpr ⟨_, .call run permitted hcall⟩), ?_⟩
    exact stampedCall_stampInv ih.1 permitted ih.2 hcall

lemma workerStart_empty {maxFd sizes : Nat} {epollCtl : CtlAnswers} {unixFd timerFd now : Int}
    {w : Worker} (h : workerStart maxFd epollCtl sizes unixFd timerFd now = .ok w) (i : Nat) :
    slotConn w i = none := by
  rw [workerStart] at h
  obtain ⟨_, _, h⟩ := bind_eq_ok.mp h
  obtain ⟨_, _, h⟩ := bind_eq_ok.mp h
  obtain ⟨_, _, h⟩ := bind_eq_ok.mp h
  obtain ⟨_, _, h⟩ := bind_eq_ok.mp h
  cases h
  rw [slotConn]
  cases (List.replicate sizes (none : Option Nat)).getD i none with
  | none => rfl
  | some a => rfl

/-- A connection that the sweep at `t` must not leave, by what has happened to it. -/
def Overdue (config : ServerConfig) (t : Int) (conn : Connection) (s : Stamps) : Prop :=
  match conn.state with
  | .read => t - s.readActivity > config.maxReadIdleTs
  | .write => t - s.writeEntry > config.maxWriteIdleTs ∧
      ∀ ts ∈ s.writes, t - ts > config.maxWriteIdleTs
  | .close => t - conn.closeTimeoutTs > minihttpdCloseTimeout
  | _ => False

/-- Whether the worker has a connection that is overdue at `t`. -/
def HasOverdue (config : ServerConfig) (t : Int) (w : Worker) (h : History) : Prop :=
  ∃ i a conn, InSlot w i a ∧ w.heap a = some conn ∧ Overdue config t conn (h a)

/-- An overdue connection in `CON_STATE_WRITE` that has no `active_write_ts`: no
call of `connection_handle_write` for its response has ended with 0 or 1. -/
def HasUnnoted (config : ServerConfig) (t : Int) (w : Worker) (h : History) : Prop :=
  ∃ i a conn, InSlot w i a ∧ w.heap a = some conn ∧ conn.state = .write ∧
    conn.activeWriteTs = 0 ∧ Overdue config t conn (h a)

/-- The tests of the sweep pass over an overdue connection in one case only. -/
lemma overdue_spared {config : ServerConfig} {t : Int} {conn : Connection} {s : Stamps}
    (ok : StampOk conn s) (overdue : Overdue config t conn s)
    (spared : timerExpire config t conn = none) : conn.state = .write ∧ conn.activeWriteTs = 0 := by
  rw [timerExpire] at spared
  cases hstate : conn.state with
  | read =>
    rw [StampOk, hstate] at ok
    rw [Overdue, hstate, ← ok.1] at overdue
    rw [if_pos ⟨hstate, overdue⟩] at spared
    cases spared
  | write =>
    refine ⟨rfl, ?_⟩
    by_contra hnoted
    rw [StampOk, hstate] at ok
    rw [Overdue, hstate] at overdue
    have hlate := overdue.2 _ (ok.resolve_left hnoted)
    rw [if_neg (by rw [hstate]; exact fun h => ConnectionState.noConfusion h.1),
      if_pos ⟨hstate, hnoted, hlate⟩] at spared
    cases spared
  | close =>
    rw [Overdue, hstate] at overdue
    rw [if_neg (by rw [hstate]; exact fun h => ConnectionState.noConfusion h.1),
      if_neg (by rw [hstate]; exact fun h => ConnectionState.noConfusion h.1),
      if_pos ⟨hstate, overdue⟩] at spared
    cases spared
  | _ =>
    rw [Overdue, hstate] at overdue
    exact overdue.elim

lemma unnoted_spared {config : ServerConfig} {t : Int} {conn : Connection}
    (state : conn.state = .write) (unnoted : conn.activeWriteTs = 0) :
    timerExpire config t conn = none := by
  rw [timerExpire, state, if_neg (fun h => ConnectionState.noConfusion h.1),
    if_neg (fun h => h.2.1 unnoted), if_neg (fun h => ConnectionState.noConfusion h.1)]

lemma lingering_not_overdue {config : ServerConfig} {t : Int} {conn : Connection} {s : Stamps}
    (h : Lingering t conn) : ¬ Overdue config t conn s := by
  rw [Overdue, h.1]
  exact h.2

/-- What the sweep leaves, for stamps that fit the connections. -/
lemma sweep_overdue_iff {config : ServerConfig} {t : Int} {w : Worker} {h : History}
    {mask : EventMask} (answers : Nat → Nat → SysAnswers) (inv : TableInv config w)
    (ok : StampInv w h) (fires : mask.epollin = true) (advances : t ≠ w.curTs) :
    ∃ next after, stampedCall config w h (.timer mask t answers) = .ok (next, after) ∧
      (HasOverdue config t next after ↔ HasUnnoted config t w h) := by
  obtain ⟨next, after, hok, hswept⟩ := stampedTimer_sweeps answers h inv fires advances
  refine ⟨next, after, hok, ?_, ?_⟩
  · rintro ⟨i, a, conn, slot, hconn, overdue⟩
    rcases swept_cases (hswept i) (slotConn_eq_some.mpr ⟨slot, hconn⟩) with
      ⟨hbefore, hnone, hstamps⟩ | hlingering
    · rw [hstamps] at overdue
      obtain ⟨hstate, hunnoted⟩ := overdue_spared (ok i a conn hbefore) overdue hnone
      obtain ⟨hslot, hheap⟩ := slotConn_eq_some.mp hbefore
      exact ⟨i, a, conn, hslot, hheap, hstate, hunnoted, overdue⟩
    · exact absurd overdue (lingering_not_overdue hlingering)
  · rintro ⟨i, a, conn, slot, hconn, hstate, hunnoted, overdue⟩
    have hbefore : slotStamps (w, h) i = some ((a, conn), h a) :=
      slotStamps_eq (slotConn_eq_some.mpr ⟨slot, hconn⟩)
    have hsame := (hswept i).spared (a, conn) (h a) hbefore (unnoted_spared hstate hunnoted)
    rw [hbefore] at hsame
    obtain ⟨x, hx, hpair⟩ := Option.map_eq_some_iff.mp hsame
    obtain ⟨rfl, hstamps⟩ := Prod.mk.inj hpair
    obtain ⟨hslot, hheap⟩ := slotConn_eq_some.mp hx
    refine ⟨i, a, conn, hslot, hheap, ?_⟩
    rw [show after a = h a from hstamps]
    exact overdue

/-- After any run of a worker, a timer call that advances the clock to `t` comes
back and leaves no overdue connection, if and only if none is in
`CON_STATE_WRITE` with `active_write_ts` unset and overdue when the timer fires. -/
theorem sweep_leaves_none_iff {config : ServerConfig} {maxFd sizes : Nat} {epollCtl : CtlAnswers}
    {unixFd timerFd now t : Int} {start w : Worker} {h : History} {mask : EventMask}
    {answers : Nat → Nat → SysAnswers}
    (started : workerStart maxFd epollCtl sizes unixFd timerFd now = .ok start)
    (run : StampedRun config start w h) (fires : mask.epollin = true) (advances : t ≠ w.curTs) :
    ∃ next after, stampedCall config w h (.timer mask t answers) = .ok (next, after) ∧
      (¬ HasOverdue config t next after ↔ ¬ HasUnnoted config t w h) := by
  obtain ⟨inv, ok⟩ :=
    stampedRun_inv (workerStart_inv config started) (workerStart_empty started) run
  obtain ⟨next, after, hok, hiff⟩ := sweep_overdue_iff answers inv ok fires advances
  exact ⟨next, after, hok, not_congr hiff⟩

/-- The request of the run below comes in, and the head of its response goes
out; the file of the response exists but cannot be opened. -/
def unreadableCalls : List HandlerCall :=
  [.unixDomainSocket EventMask.input (.message (some 5) 0) (fun _ => SysAnswers.failing),
    .connection 0 EventMask.input 0 (fun turn =>
      (requestAnswers sampleRequest (.found ⟨.regular, 3, 0⟩)).getD turn SysAnswers.failing),
    .connection 0 EventMask.output 0
      (fun _ => { SysAnswers.failing with write := fun _ => .accept 100000 })]

/-- What `Permitted` asks for, on the descriptor of the run. -/
def permittedHere (w : Worker) : HandlerCall → Bool
  | .unixDomainSocket _ _ _ => decide (w.ev.InRange 5 ∧ (5 : Int) ≠ w.unixDomainSocketFd ∧
      (5 : Int) ≠ w.timerFd ∧ (5 : Int) ∉ heldFds w)
  | .connection address _ _ _ =>
    (w.ev.handlerArray 5).any (fun n => decide (n.ctx = .connection address))
  | .timer _ _ _ => true

def stampedCalls (s : Worker × History) : List HandlerCall → Option (Worker × History)
  | [] => some s
  | c :: rest =>
    if permittedHere s.1 c then
      (stampedCall setConfigDefault s.1 s.2 c).toOption.bind (fun s => stampedCalls s rest)
    else none

lemma permitted_of_here {w : Worker} {c : HandlerCall} (in_run : c ∈ unreadableCalls)
    (h : permittedHere w c = true) : Permitted w c := by
  cases c with
  | unixDomainSocket mask recv answers =>
    obtain ⟨hrange, hunix, htimer, hheld⟩ := of_decide_eq_true h
    simp only [unreadableCalls, List.mem_cons, List.not_mem_nil, or_false,
      HandlerCall.unixDomainSocket.injEq, reduceCtorEq] at in_run
    rw [in_run.2.1]
    exact ⟨5, rfl, hrange, hunix, htimer, hheld⟩
  | connection a mask now answers =>
    obtain ⟨n, hn, hctx⟩ := (Option.any_eq_true _ _).mp h
    exact ⟨5, n, hn, of_decide_eq_true hctx⟩
  | timer mask now answers => trivial

lemma stampedCalls_run {start w w' : Worker} {h h' : History} (calls : List HandlerCall)
    (in_run : ∀ c ∈ calls, c ∈ unreadableCalls) (run : StampedRun setConfigDefault start w h)
    (done : stampedCalls (w, h) calls = some (w', h')) :
    StampedRun setConfigDefault start w' h' := by
  induction calls generalizing w h with
  | nil =>
    cases done
    exact run
  | cons c rest ih =>
    rw [stampedCalls] at done
    split at done
    · rename_i hhere
      obtain ⟨⟨m, hm⟩, hcall, hrest⟩ := Option.bind_eq_some_iff.mp done
      exact ih (fun c hc => in_run c (List.mem_cons_of_mem _ hc))
        (.call run (permitted_of_here (in_run c List.mem_cons_self) hhere) (toOption_eq_some hcall))
        hrest
    · cases done

lemma unreadable_run : ∃ start w h, workerStart 16 ctlSucceeds 4 3 4 0 = .ok start ∧
    StampedRun setConfigDefault start w h ∧ w.curTs = 0 ∧ HasUnnoted setConfigDefault 1000 w h := by
  have hrun : (workerStart 16 ctlSucceeds 4 3 4 0).toOption.any (fun start =>
      (stampedCalls (start, fun _ => Stamps.fresh) unreadableCalls).any (fun s =>
        (slotConn s.1 0).any (fun x => decide (s.1.curTs = 0 ∧ x.2.state = .write ∧
          x.2.activeWriteTs = 0 ∧ s.2 x.1 = ⟨0, 0, [0]⟩)))) = true := by
    decide +kernel
  obtain ⟨start, hstart, hrun⟩ := (Option.any_eq_true _ _).mp hrun
  obtain ⟨⟨w, h⟩, hcalls, hrun⟩ := (Option.any_eq_true _ _).mp hrun
  obtain ⟨⟨a, conn⟩, hslot, hrun⟩ := (Option.any_eq_true _ _).mp hrun
  obtain ⟨hnow, hstate, hunnoted, hstamps⟩ := of_decide_eq_true hrun
  have hslot' := slotConn_eq_some.mp hslot
  refine ⟨start, w, h, toOption_eq_some hstart,
    stampedCalls_run _ (fun _ hc => hc) .start hcalls, hnow,
    0, a, conn, hslot'.1, hslot'.2, hstate, hunnoted, ?_⟩
  rw [Overdue, hstate, show h a = _ from hstamps]
  change (1000 : Int) - 0 > (360 : Nat) ∧ ∀ ts ∈ [(0 : Int)], 1000 - ts > (360 : Nat)
  decide

/-- The connection that waits for the file is still there when 1000 seconds
have gone by. -/
theorem sweep_leaves_unreadable : ∃ start w h next after,
    workerStart 16 ctlSucceeds 4 3 4 0 = .ok start ∧ StampedRun setConfigDefault start w h ∧
    stampedCall setConfigDefault w h
      (.timer EventMask.input 1000 fun _ _ => SysAnswers.failing) = .ok (next, after) ∧
    HasOverdue setConfigDefault 1000 next after := by
  obtain ⟨start, w, h, hstart, run, hnow, hunnoted⟩ := unreadable_run
  have advances : (1000 : Int) ≠ w.curTs := by
    rw [hnow]
    decide
  obtain ⟨next, after, hcall, hiff⟩ := @sweep_leaves_none_iff _ _ _ _ _ _ _ _ _ _ _ EventMask.input
    (fun _ _ => SysAnswers.failing) hstart run rfl advances
  exact ⟨start, w, h, next, after, hstart, run, hcall,
    not_not.mp (fun hnone => (hiff.mp hnone) hunnoted)⟩

/-- So the sweep does not always leave no overdue connection. -/
theorem sweep_leaves_some : ¬ ∀ (config : ServerConfig) (maxFd sizes : Nat) (epollCtl : CtlAnswers)
    (unixFd timerFd now t : Int) (start w next : Worker) (h after : History) (mask : EventMask)
    (answers : Nat → Nat → SysAnswers),
    workerStart maxFd epollCtl sizes unixFd timerFd now = .ok start →
    StampedRun config start w h → mask.epollin = true → t ≠ w.curTs →
    stampedCall config w h (.timer mask t answers) = .ok (next, after) →
    ¬ HasOverdue config t next after := by
  intro swept_all
  obtain ⟨start, w, h, hstart, run, hnow, hunnoted⟩ := unreadable_run
  have advances : (1000 : Int) ≠ w.curTs := by
    rw [hnow]
    decide
  obtain ⟨inv, ok⟩ :=
    stampedRun_inv (workerStart_inv setConfigDefault hstart) (workerStart_empty hstart) run
  obtain ⟨next, after, hcall, hiff⟩ := @sweep_overdue_iff _ _ _ _ EventMask.input
    (fun _ _ => SysAnswers.failing) inv ok rfl advances
  exact swept_all setConfigDefault 16 4 ctlSucceeds 3 4 0 1000 start w next h after
    EventMask.input _ hstart run rfl advances hcall (hiff.mpr hunnoted)

end IdleStamps
