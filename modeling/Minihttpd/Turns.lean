import Minihttpd.ConnectionInvariant

/-!
# The turns of the loop

What one turn of `connection_state_machine` can do, state by state. The rules
about runs are proved by cases on it.
-/
namespace Turns

open ByteBuffer SystemCalls FdEvents ChunkQueue ConnectionTypes HttpRequest HttpResponse
open HttpConnection StateMachine RequestOutcome ConnectionInvariant FailingRun

/-- One turn from the machine `m`, whose state is in the trace already. -/
inductive Turn (config : ServerConfig) (ans : SysAnswers) (m : Machine) : Machine → Prop where
  | started : m.conn.state = .requestStart → Turn config ans m
      (m.advance { m.conn with
        startTs := ans.time, activeReadTs := ans.time, state := .read } [])
  | parsed (result : Int × Connection) : m.conn.state = .requestEnd →
      httpReuqestParse config (clearRequest m.conn) = .ok result →
      ParseOutcome (clearRequest m.conn) result →
      Turn config ans m (m.advance { result.2 with state := .handleRequest }
        [.parse m.conn.connectionRequest.requestContent.str])
  | handled (after : Connection) (events : List Event) : m.conn.state = .handleRequest →
      HandleOutcome config ans { m.conn with connectionResponse := responseInitialize }
        after events →
      Turn config ans m (m.advance { after with state := .responseStart } events)
  | prepared (mid : Connection) (text : String) (writequeue : Chunkqueue) :
      m.conn.state = .responseStart → BodyOutcome m.conn mid →
      queryHttpStatusString m.conn.httpStatus = some text →
      chunkqueuePrependBuffer mid.writequeue
        (responseHead config ans (setContentLength mid) text) = .ok writequeue →
      Turn config ans m
        (m.advance { setContentLength mid with writequeue := writequeue, state := .write }
          [.respond m.conn.httpStatus (writequeue.active.map chunkSegment)])
  | read (after : Connection) (bytes : Bytes) : m.conn.state = .read →
      connectionHandleReadState config m.curTs ans m.conn = .ok (after, bytes) →
      ReadStateOutcome config m.curTs ans m.conn after bytes →
      Turn config ans m (m.advance after (readEvents bytes))
  | wrote (after : Connection) (bytes : Bytes) : m.conn.state = .write →
      chunkqueueLength m.conn.writequeue ≠ 0 →
      connectionHandleWriteState m.curTs ans m.conn = .ok (after, bytes) →
      WriteStateOutcome m.curTs ans m.conn after bytes →
      Turn config ans m (m.advance after (writeEvents bytes))
  | finished : m.conn.state = .write → chunkqueueLength m.conn.writequeue = 0 →
      Turn config ans m (m.advance { m.conn with state := .responseEnd } [])
  | ended : m.conn.state = .responseEnd → Turn config ans m (handleResponseEnd ans m)
  | failed : m.conn.state = .error → Turn config ans m (handleError ans m)
  | lingers (ts : Int) : m.conn.state = .close →
      ¬ m.curTs - ts > minihttpdCloseTimeout → (ts = m.conn.closeTimeoutTs ∨
        ts = m.curTs - (minihttpdCloseTimeout + 1)) →
      Turn config ans m (m.advance { m.conn with closeTimeoutTs := ts } [])
  | closed (ts : Int) (ev : Fdevents) : m.conn.state = .close →
      Turn config ans m { m with
        ev := ev
        trace := m.trace ++ [.socketClose m.conn.connSocketFd]
        conn := { m.conn with closeTimeoutTs := ts, connSocketFd := -1, state := .connect } }
  | gone : m.conn.state = .connect → Turn config ans m m

lemma close_cases {config : ServerConfig} {ans : SysAnswers} {m next : Machine}
    (hstate : m.conn.state = .close) (h : handleClose ans m = .ok next) :
    Turn config ans m next := by
  simp only [handleClose] at h
  have hts : (if peerGone ans.read = true then m.curTs - (minihttpdCloseTimeout + 1)
      else m.conn.closeTimeoutTs) = m.conn.closeTimeoutTs ∨
      (if peerGone ans.read = true then m.curTs - (minihttpdCloseTimeout + 1)
      else m.conn.closeTimeoutTs) = m.curTs - (minihttpdCloseTimeout + 1) := by
    split
    · exact Or.inr rfl
    · exact Or.inl rfl
  generalize (if peerGone ans.read = true then m.curTs - (minihttpdCloseTimeout + 1)
    else m.conn.closeTimeoutTs) = ts at h hts
  split at h
  · rw [connectionClose] at h
    obtain ⟨_, _, h⟩ := bind_eq_ok.mp h
    obtain ⟨ev, _, heq⟩ := bind_eq_ok.mp h
    cases heq
    have hturn := @Turn.closed config ans m ts ev hstate
    rw [← List.append_nil m.trace] at hturn
    exact hturn
  · rename_i hlate
    cases h
    exact .lingers ts hstate hlate hts

lemma write_cases {config : ServerConfig} {ans : SysAnswers} {m next : Machine}
    (inv : ConnInv config m.conn) (hstate : m.conn.state = .write)
    (h : handleWrite ans m = .ok next) : Turn config ans m next := by
  have hphase := inv.phase
  rw [StateInv, hstate] at hphase
  rw [handleWrite] at h
  by_cases hlength : chunkqueueLength m.conn.writequeue ≠ 0
  · rw [if_pos hlength] at h
    obtain ⟨⟨after, bytes⟩, hwrite, heq⟩ := bind_eq_ok.mp h
    cases heq
    exact .wrote after bytes hstate hlength hwrite (handleWriteState_outcome inv.writequeue hwrite)
  · rw [if_neg hlength, if_pos hphase.finished] at h
    cases h
    exact .finished hstate (not_not.mp hlength)

lemma prepare_cases {config : ServerConfig} {ans : SysAnswers} {m next : Machine}
    (inv : ConnInv config m.conn) (hstate : m.conn.state = .responseStart)
    (h : handleResponseStart config ans m = .ok next) : Turn config ans m next := by
  have hphase := inv.phase
  rw [StateInv, hstate] at hphase
  obtain ⟨after, hprepare, heq⟩ := bind_eq_ok.mp h
  obtain ⟨mid, text, writequeue, hbody, htext, hqueue, hafter⟩ :=
    prepareResponseHead_outcome (hphase.status.imp And.left And.left) hprepare
  have hstatus : (setContentLength mid).httpStatus = m.conn.httpStatus := by
    rw [setContentLength_status, hbody.status_eq]
  have hturn := Turn.prepared mid text writequeue hstate hbody htext hqueue
  rw [← hstatus] at hturn
  cases heq
  rw [hafter]
  exact hturn

/-- Every turn is one of these, whatever the calls it makes are answered. -/
theorem turn_cases {config : ServerConfig} {ans : SysAnswers} {m next : Machine}
    (inv : ConnInv config m.conn) (h : connectionIteration config ans m = .ok next) :
    Turn config ans (m.emit [.state m.conn.state]) next := by
  have hinv : ConnInv config (m.emit [.state m.conn.state]).conn := inv
  simp only [connectionIteration] at h
  generalize m.emit [.state m.conn.state] = e at h hinv ⊢
  cases hstate : e.conn.state with
  | requestStart =>
    simp only [hstate] at h
    cases h
    exact .started hstate
  | requestEnd =>
    simp only [hstate] at h
    obtain ⟨result, hparse, heq⟩ := bind_eq_ok.mp h
    cases heq
    exact .parsed result hstate hparse (httpReuqestParse_outcome hparse)
  | handleRequest =>
    simp only [hstate] at h
    obtain ⟨⟨code, after, events⟩, hhandle, heq⟩ := bind_eq_ok.mp h
    cases heq
    exact .handled after events hstate (httpRequestHandle_outcome hhandle)
  | responseStart => exact prepare_cases hinv hstate (by simpa only [hstate] using h)
  | responseEnd =>
    simp only [hstate] at h
    cases h
    exact .ended hstate
  | read =>
    simp only [hstate] at h
    obtain ⟨⟨after, bytes⟩, hread, heq⟩ := bind_eq_ok.mp h
    cases heq
    have hphase := hinv.phase
    rw [StateInv, hstate] at hphase
    obtain ⟨after', bytes', hread', houtcome⟩ := handleReadState_outcome hphase.2
    rw [hread] at hread'
    cases hread'
    exact .read after bytes hstate hread houtcome
  | write => exact write_cases hinv hstate (by simpa only [hstate] using h)
  | error =>
    simp only [hstate] at h
    cases h
    exact .failed hstate
  | close => exact close_cases hstate (by simpa only [hstate] using h)
  | connect =>
    simp only [hstate] at h
    cases h
    exact .gone hstate

/-- The states a turn can end in, by the state it begins in. -/
def successors : ConnectionState → List ConnectionState
  | .requestStart => [.read]
  | .requestEnd => [.handleRequest]
  | .handleRequest => [.responseStart]
  | .responseStart => [.write]
  | .read => [.read, .requestEnd, .handleRequest, .close, .error]
  | .write => [.write, .responseEnd, .error]
  | .responseEnd => [.requestStart, .close]
  | .error => [.close]
  | .close => [.close, .connect]
  | .connect => [.connect]

lemma read_successor {config : ServerConfig} {curTs : Int} {ans : SysAnswers}
    {conn after : Connection} {bytes : Bytes} (hstate : conn.state = .read)
    (h : ReadStateOutcome config curTs ans conn after bytes) :
    after.state ∈ successors .read := by
  cases h with
  | skipped =>
    rw [hstate]
    decide
  | nothing mid step =>
    rw [step.fields]
    change conn.state ∈ _
    rw [hstate]
    decide
  | failed => simp [successors]
  | endOfFile => simp [successors]
  | got mid after step _ _ hexamine =>
    cases hexamine with
    | complete => simp [successors]
    | tooLong => simp [successors]
    | waiting =>
      rw [step.fields]
      change conn.state ∈ _
      rw [hstate]
      decide

lemma write_successor {curTs : Int} {ans : SysAnswers} {conn after : Connection} {bytes : Bytes}
    (hstate : conn.state = .write) (h : WriteStateOutcome curTs ans conn after bytes) :
    after.state ∈ successors .write := by
  cases h with
  | skipped =>
    rw [hstate]
    decide
  | done =>
    dsimp only
    split
    · simp [successors]
    · rw [hstate]
      decide
  | waiting =>
    dsimp only
    rw [hstate]
    decide
  | failed => simp [successors]

lemma Turn.successor {config : ServerConfig} {ans : SysAnswers} {m next : Machine}
    (h : Turn config ans m next) : next.conn.state ∈ successors m.conn.state := by
  cases h with
  | started hstate =>
    rw [hstate]
    exact List.mem_singleton_self _
  | parsed _ hstate =>
    rw [hstate]
    exact List.mem_singleton_self _
  | handled _ _ hstate =>
    rw [hstate]
    exact List.mem_singleton_self _
  | prepared _ _ _ hstate =>
    rw [hstate]
    exact List.mem_singleton_self _
  | read _ _ hstate _ houtcome =>
    rw [hstate]
    exact read_successor hstate houtcome
  | wrote _ _ hstate _ _ houtcome =>
    rw [hstate]
    exact write_successor hstate houtcome
  | finished hstate =>
    rw [hstate]
    exact List.mem_cons_of_mem _ List.mem_cons_self
  | ended hstate =>
    rw [hstate, handleResponseEnd]
    split
    · exact List.mem_cons_self
    · exact List.mem_cons_of_mem _ List.mem_cons_self
  | failed hstate =>
    rw [hstate]
    exact List.mem_singleton_self _
  | lingers _ hstate =>
    rw [hstate]
    change m.conn.state ∈ _
    rw [hstate]
    exact List.mem_cons_self
  | closed _ _ hstate =>
    rw [hstate]
    exact List.mem_cons_of_mem _ List.mem_cons_self
  | gone hstate =>
    rw [hstate]
    exact List.mem_singleton_self _

/-- A turn in `CON_STATE_READ`. -/
lemma read_cases {config : ServerConfig} {ans : SysAnswers} {m next : Machine}
    (inv : ConnInv config m.conn) (hstate : m.conn.state = .read)
    (h : connectionIteration config ans m = .ok next) :
    ∃ after bytes, ReadStateOutcome config m.curTs ans m.conn after bytes ∧
      next = (m.emit [.state .read]).advance after (readEvents bytes) := by
  have hphase := inv.phase
  rw [StateInv, hstate] at hphase
  obtain ⟨after, bytes, hread, houtcome⟩ := @handleReadState_outcome config m.curTs ans _ hphase.2
  refine ⟨after, bytes, houtcome, ?_⟩
  simp only [connectionIteration, Machine.emit, hstate, hread] at h
  cases h
  rfl

end Turns
