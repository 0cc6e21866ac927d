import Minihttpd.BufferAppends
import Minihttpd.ReadQueue
import Minihttpd.RequestOutcome
import Minihttpd.StateMachine
import Minihttpd.WriteQueue

/-!
# The invariant of a connection

What holds of a connection in each of its states, and that every turn of the
state machine and every event keeps it: the status that goes with the state,
the flag that ends a response, and the shape of the two queues.
-/
namespace ConnectionInvariant

open ByteBuffer SystemCalls FdEvents ChunkQueue ChunkQueueLaws ConnectionTypes HttpResponse
open HttpConnection StateMachine ReadQueue WriteQueue RequestOutcome FailingRun

/-- Nothing of a response exists yet. -/
structure Fresh (conn : Connection) : Prop where
  status : conn.httpStatus = 0
  unfinished : conn.httpResponseBodyFinished = false
  empty : conn.writequeue.active = []

/-- The read queue holds less than a head may have. -/
structure ReadReady (config : ServerConfig) (conn : Connection) : Prop where
  shape : ReadShape conn.readqueue (queueString conn.readqueue)
  short : (queueString conn.readqueue).length ≤ config.maxHttpHeadSize

/-- A head has been copied out of the read queue. -/
structure HeadReady (config : ServerConfig) (conn : Connection) : Prop where
  terminated : conn.connectionRequest.requestContent.Terminated
  short : conn.connectionRequest.requestContent.str.length < config.maxHttpHeadSize + 2147483648

def Whole (q : Chunkqueue) : Prop := ∀ c ∈ q.active, c.chunkOffset = 0

/-- A status is settled, and a body is queued just in case it is 200. -/
structure Answered (conn : Connection) : Prop where
  status : conn.httpStatus = 200 ∧ conn.httpResponseBodyFinished = true ∨
    conn.httpStatus ∈ errorStatuses ∧ conn.httpResponseBodyFinished = false ∧
      conn.writequeue.active = []
  bodies : conn.writequeue.active.length ≤ 1
  whole : Whole conn.writequeue

/-- The statuses that a request can have before it is handled. -/
structure Unhandled (conn : Connection) : Prop where
  status : conn.httpStatus = 0 ∨ conn.httpStatus = 400 ∨ conn.httpStatus = 414 ∨
    conn.httpStatus = 501
  unfinished : conn.httpResponseBodyFinished = false
  empty : conn.writequeue.active = []

/-- A response is on its way: either none of it is sent, or some of it is not. -/
structure Sending (conn : Connection) : Prop where
  finished : conn.httpResponseBodyFinished = true
  chunks : conn.writequeue.active.length ≤ 2
  pending : Whole conn.writequeue ∨ remainingTotal conn.writequeue.active ≠ 0

def StateInv (config : ServerConfig) (conn : Connection) : Prop :=
  match conn.state with
  | .requestStart => Fresh conn ∧ conn.readqueue.active = []
  | .read => Fresh conn ∧ ReadReady config conn
  | .requestEnd => Fresh conn ∧ HeadReady config conn
  | .handleRequest => Unhandled conn
  | .responseStart => Answered conn
  | .write => Sending conn
  | _ => True

structure ConnInv (config : ServerConfig) (conn : Connection) : Prop where
  idle : IdleClean conn.readqueue
  writequeue : QueueOk conn.writequeue
  phase : StateInv config conn

lemma findHead_ok (active : List Chunk) (chunk : Nat) (mem : ∀ c ∈ active, c.chunkType = .mem) :
    ∃ r, findHead active chunk = .ok r := by
  induction active generalizing chunk with
  | nil => exact ⟨none, rfl⟩
  | cons c rest ih =>
    rw [findHead, if_pos (mem c List.mem_cons_self)]
    cases findInChunk (chunkString c :: rest.map chunkString) chunk (chunkString c) 0 with
    | some position => exact ⟨some position, rfl⟩
    | none => exact ih (chunk + 1) (fun d hd => mem d (List.mem_cons_of_mem _ hd))

/-- `chunkqueue_length` counts the string of a read queue below 2^32. -/
lemma chunkqueueLength_eq {q : Chunkqueue} {received : Bytes} (shape : ReadShape q received)
    (short : received.length < 4294967296) : chunkqueueLength q = received.length := by
  have fold : ∀ (active : List Chunk) (len : Nat), (∀ c ∈ active, c.chunkType = .mem) →
      (∀ c ∈ active, c.mem.Terminated) →
      len + ((active.map chunkString).flatten).length < 4294967296 →
      active.foldl (fun len c => u32 (len + chunkLength c)) len =
        len + ((active.map chunkString).flatten).length := by
    intro active
    induction active with
    | nil =>
      intro len _ _ _
      rfl
    | cons c rest ih =>
      intro len mem terminated hlen
      have hkind := mem c List.mem_cons_self
      have hterm := terminated c List.mem_cons_self
      have hlength : chunkLength c = (chunkString c).length := by
        simp only [chunkLength, hkind]
        rw [chunkString_eq hterm, hterm.stringLength_eq]
      rw [List.map_cons, List.flatten_cons, List.length_append] at hlen ⊢
      rw [List.foldl_cons, hlength, u32_of_lt (by omega),
        ih _ (fun d hd => mem d (List.mem_cons_of_mem _ hd))
          (fun d hd => terminated d (List.mem_cons_of_mem _ hd)) (by omega)]
      omega
  have hcontent := shape.content
  rw [queueString] at hcontent
  rw [chunkqueueLength, fold q.active 0 shape.mem shape.terminated (by rw [hcontent]; omega),
    hcontent, Nat.zero_add]

/-- What follows a read that has brought some bytes. -/
inductive ExamineOutcome (config : ServerConfig) (conn : Connection) : Connection → Prop where
  | complete (lastChunk lastChunkIndex : Nat) :
      findHead conn.readqueue.active 0 = .ok (some (lastChunk, lastChunkIndex)) →
      ExamineOutcome config conn { conn with
        connectionRequest := { conn.connectionRequest with
          requestContent := appendedAll (bufferReset conn.connectionRequest.requestContent)
            (headPieces conn.readqueue.active lastChunk lastChunkIndex) }
        state := .requestEnd }
  | tooLong : findHead conn.readqueue.active 0 = .ok none →
      chunkqueueLength conn.readqueue > config.maxHttpHeadSize →
      ExamineOutcome config conn
        { conn with httpStatus := 414, keepAlive := false, state := .handleRequest }
  | waiting : findHead conn.readqueue.active 0 = .ok none →
      chunkqueueLength conn.readqueue ≤ config.maxHttpHeadSize →
      ExamineOutcome config conn conn

theorem examineReadqueue_outcome {config : ServerConfig} {conn after : Connection}
    (h : examineReadqueue config conn = .ok after) : ExamineOutcome config conn after := by
  obtain ⟨position, hposition, h⟩ := bind_eq_ok.mp h
  cases position with
  | some position =>
    obtain ⟨content, hcontent, h⟩ := bind_eq_ok.mp h
    cases bufferAppendStrings_ok hcontent
    cases h
    exact .complete position.1 position.2 hposition
  | none =>
    by_cases hlong : chunkqueueLength conn.readqueue > config.maxHttpHeadSize
    · simp only [if_pos hlong] at h
      cases h
      exact .tooLong hposition hlong
    · simp only [if_neg hlong] at h
      cases h
      exact .waiting hposition (Nat.le_of_not_lt hlong)

/-- The connection after a `connection_handle_read` made at `curTs`. -/
structure ReadStep (curTs : Int) (ans : SysAnswers) (conn after : Connection) : Prop where
  fields : after = { conn with
    activeReadTs := curTs, readqueue := after.readqueue, readable := after.readable }
  shape : ReadShape after.readqueue (queueString conn.readqueue ++ readBytes ans)

/-- The ways in which `CON_STATE_READ` is handled. -/
inductive ReadStateOutcome (config : ServerConfig) (curTs : Int) (ans : SysAnswers)
    (conn : Connection) : Connection → Bytes → Prop where
  | skipped : conn.readable = false → ReadStateOutcome config curTs ans conn conn []
  | nothing (mid : Connection) : ReadStep curTs ans conn mid → readBytes ans = [] →
      ReadStateOutcome config curTs ans conn mid []
  | failed (mid : Connection) : ReadStep curTs ans conn mid → readBytes ans = [] →
      conn.readable = true → ReadStateOutcome config curTs ans conn { mid with state := .error } []
  | endOfFile (mid : Connection) : ReadStep curTs ans conn mid → readBytes ans = [] →
      conn.readable = true → ReadStateOutcome config curTs ans conn { mid with
        state := .close, closeTimeoutTs := ans.time - (minihttpdCloseTimeout + 1) } []
  | got (mid after : Connection) : ReadStep curTs ans conn mid → readBytes ans ≠ [] →
      conn.readable = true → ExamineOutcome config mid after →
      ReadStateOutcome config curTs ans conn after (readBytes ans)

lemma readBytes_length (ans : SysAnswers) : (readBytes ans).length < 2147483648 :=
  Nat.lt_of_le_of_lt (readBytes_le_need ans) (needReadBytes_bounds ans).2

/-- The pieces of a head are a part of what the chunks hold. -/
lemma headPieces_length (active : List Chunk) (lastChunk lastChunkIndex : Nat) :
    (headPieces active lastChunk lastChunkIndex).flatten.length ≤
      ((active.map chunkString).flatten).length := by
  have hlast : ∀ l : List Chunk,
      (((l.take 1).map (fun c => (chunkString c).take lastChunkIndex)).flatten).length ≤
        ((l.map chunkString).flatten).length := by
    intro l
    cases l with
    | nil => exact Nat.le_refl 0
    | cons c rest =>
      simp only [List.take_succ_cons, List.take_zero, List.map_cons, List.map_nil,
        List.flatten_cons, List.flatten_nil, List.append_nil, List.length_append]
      have := List.length_take_le' lastChunkIndex (chunkString c)
      omega
  have hsplit := congrArg List.length (congrArg List.flatten
    (congrArg (List.map chunkString) (List.take_append_drop lastChunk active)))
  rw [List.map_append, List.flatten_append, List.length_append] at hsplit
  rw [headPieces, List.flatten_append, List.length_append]
  have := hlast (active.drop lastChunk)
  omega

/-- In `CON_STATE_READ` nothing faults, and one of the outcomes applies. -/
theorem handleReadState_outcome {config : ServerConfig} {curTs : Int} {ans : SysAnswers}
    {conn : Connection} (ready : ReadReady config conn) :
    ∃ after bytes, connectionHandleReadState config curTs ans conn = .ok (after, bytes) ∧
      ReadStateOutcome config curTs ans conn after bytes := by
  by_cases hreadable : conn.readable = false
  · refine ⟨conn, [], ?_, .skipped hreadable⟩
    rw [connectionHandleReadState, if_pos hreadable]
  · have hready_true : conn.readable = true := by simpa using hreadable
    have hlimit := config.headLimit
    have hbytes := readBytes_length ans
    have hready := ready.short
    have hshape : ReadShape { conn with activeReadTs := curTs }.readqueue
        (queueString conn.readqueue) := ready.shape
    obtain ⟨code, mid, hok, hmid, _⟩ := handleRead_spec ans hshape (by omega)
    obtain ⟨hfields, hcode⟩ := handleRead_result hok
    have step : ReadStep curTs ans conn mid := ⟨hfields, hmid⟩
    simp only [connectionHandleReadState, if_neg hreadable, hok]
    rcases hcode with ⟨hnil, rfl | rfl | rfl⟩ | ⟨hsome, hpos⟩
    · exact ⟨mid, [], by rw [hnil]; rfl, .nothing mid step hnil⟩
    · exact ⟨_, [], by rw [hnil]; rfl, .failed mid step hnil hready_true⟩
    · exact ⟨_, [], by rw [hnil]; rfl, .endOfFile mid step hnil hready_true⟩
    · have hlength : 0 < (readBytes ans).length := List.length_pos_iff.mpr hsome
      obtain ⟨position, hposition⟩ := findHead_ok mid.readqueue.active 0 hmid.mem
      have hcontent := congrArg List.length hmid.content
      rw [queueString, List.length_append] at hcontent
      have hexamine : ∃ after, examineReadqueue config mid = .ok after := by
        rw [examineReadqueue, hposition]
        cases position with
        | some position =>
          have hpieces := headPieces_length mid.readqueue.active position.1 position.2
          obtain ⟨happends, _⟩ := bufferAppendStrings_stored bufferInit_stored
            (headPieces mid.readqueue.active position.1 position.2)
            (by rw [bufferInit_str, List.length_nil]; omega)
          exact ⟨_, bind_eq_ok.mpr ⟨_, rfl, bind_eq_ok.mpr ⟨_, happends, rfl⟩⟩⟩
        | none =>
          by_cases hlong : chunkqueueLength mid.readqueue > config.maxHttpHeadSize
          · exact ⟨_, if_pos hlong⟩
          · exact ⟨_, if_neg hlong⟩
      obtain ⟨after, hafter⟩ := hexamine
      refine ⟨after, readBytes ans, ?_, .got mid after step hsome hready_true
        (examineReadqueue_outcome hafter)⟩
      have h2 : ¬ code = -2 := by omega
      have h1 : ¬ code = -1 := by omega
      have h0 : ¬ code = 0 := by omega
      change (if code = -2 then _ else if code = -1 then _ else if code = 0 then _ else _) = _
      rw [if_neg h2, if_neg h1, if_neg h0, hafter]
      rfl

/-- The queue after a read stays within two heads' worth of bytes. -/
lemma ReadStep.length_lt {config : ServerConfig} {curTs : Int} {ans : SysAnswers}
    {conn mid : Connection} (ready : ReadReady config conn) (step : ReadStep curTs ans conn mid) :
    chunkqueueLength mid.readqueue = (queueString mid.readqueue).length := by
  have hlimit := config.headLimit
  have hbytes := readBytes_length ans
  have hready := ready.short
  rw [chunkqueueLength_eq step.shape (by rw [List.length_append]; omega), step.shape.content]

lemma ReadStep.fresh {curTs : Int} {ans : SysAnswers} {conn mid : Connection} (fresh : Fresh conn)
    (step : ReadStep curTs ans conn mid) : Fresh mid := by
  rw [step.fields]
  exact ⟨fresh.status, fresh.unfinished, fresh.empty⟩

lemma ReadStep.writequeue {curTs : Int} {ans : SysAnswers} {conn mid : Connection}
    (step : ReadStep curTs ans conn mid) : mid.writequeue = conn.writequeue := by
  rw [step.fields]

lemma ReadStep.headReady {config : ServerConfig} {curTs : Int} {ans : SysAnswers}
    {conn mid : Connection} (ready : ReadReady config conn) (step : ReadStep curTs ans conn mid)
    (lastChunk lastChunkIndex : Nat) :
    HeadReady config { mid with
      connectionRequest := { mid.connectionRequest with
        requestContent := appendedAll (bufferReset mid.connectionRequest.requestContent)
          (headPieces mid.readqueue.active lastChunk lastChunkIndex) }
      state := .requestEnd } := by
  have hlimit := config.headLimit
  have hbytes := readBytes_length ans
  have hready := ready.short
  have hpieces := headPieces_length mid.readqueue.active lastChunk lastChunkIndex
  have hcontent := congrArg List.length step.shape.content
  rw [queueString, List.length_append] at hcontent
  obtain ⟨hstr, hterminated⟩ := appendedAll_str bufferInit_terminated
    (headPieces mid.readqueue.active lastChunk lastChunkIndex)
    (by rw [bufferInit_str, List.length_nil]; omega)
  refine ⟨hterminated, ?_⟩
  change (appendedAll bufferInit _).str.length < _
  rw [hstr, bufferInit_str, List.nil_append]
  omega

lemma ReadStep.state {curTs : Int} {ans : SysAnswers} {conn mid : Connection}
    (step : ReadStep curTs ans conn mid) : mid.state = conn.state := by
  rw [step.fields]

theorem readState_inv {config : ServerConfig} {curTs : Int} {ans : SysAnswers}
    {conn after : Connection} {bytes : Bytes} (inv : ConnInv config conn)
    (hstate : conn.state = .read) (h : ReadStateOutcome config curTs ans conn after bytes) :
    ConnInv config after := by
  have hphase := inv.phase
  rw [StateInv, hstate] at hphase
  obtain ⟨fresh, ready⟩ := hphase
  have kept : ∀ mid, ReadStep curTs ans conn mid → IdleClean mid.readqueue ∧
      QueueOk mid.writequeue := by
    intro mid step
    refine ⟨step.shape.idle, ?_⟩
    rw [step.writequeue]
    exact inv.writequeue
  cases h with
  | skipped => exact inv
  | nothing _ step hnil =>
    obtain ⟨hidle, hqueue⟩ := kept _ step
    refine ⟨hidle, hqueue, ?_⟩
    have hcontent := step.shape.content
    rw [hnil, List.append_nil] at hcontent
    rw [StateInv, step.state, hstate]
    refine ⟨step.fresh fresh, step.shape.content ▸ step.shape, ?_⟩
    rw [hcontent]
    exact ready.short
  | failed mid step _ _ =>
    obtain ⟨hidle, hqueue⟩ := kept mid step
    exact ⟨hidle, hqueue, trivial⟩
  | endOfFile mid step _ _ =>
    obtain ⟨hidle, hqueue⟩ := kept mid step
    exact ⟨hidle, hqueue, trivial⟩
  | got mid _ step _ _ hexamine =>
    obtain ⟨hidle, hqueue⟩ := kept mid step
    have hfresh := step.fresh fresh
    cases hexamine with
    | complete lastChunk lastChunkIndex =>
      exact ⟨hidle, hqueue, ⟨hfresh.status, hfresh.unfinished, hfresh.empty⟩,
        step.headReady ready lastChunk lastChunkIndex⟩
    | tooLong =>
      exact ⟨hidle, hqueue, ⟨Or.inr (Or.inr (Or.inl rfl)), hfresh.unfinished, hfresh.empty⟩⟩
    | waiting _ hshort =>
      refine ⟨hidle, hqueue, ?_⟩
      rw [step.length_lt ready] at hshort
      rw [StateInv, step.state, hstate]
      exact ⟨hfresh, step.shape.content ▸ step.shape, hshort⟩

theorem requestEnd_inv {config : ServerConfig} {m next : Machine} (inv : ConnInv config m.conn)
    (hstate : m.conn.state = .requestEnd) (h : handleRequestEnd config m = .ok next) :
    ConnInv config next.conn ∧ next.conn.state = .handleRequest := by
  have hphase := inv.phase
  rw [StateInv, hstate] at hphase
  obtain ⟨hfresh, _⟩ := hphase
  obtain ⟨result, hparse, heq⟩ := bind_eq_ok.mp h
  cases heq
  have houtcome := httpReuqestParse_outcome hparse
  refine ⟨?_, rfl⟩
  cases houtcome with
  | accepted r keep =>
    exact ⟨inv.idle, inv.writequeue, ⟨Or.inl rfl, hfresh.unfinished, hfresh.empty⟩⟩
  | rejected r status hstatus =>
    refine ⟨inv.idle, inv.writequeue, ⟨?_, hfresh.unfinished, hfresh.empty⟩⟩
    rcases hstatus with rfl | rfl
    · exact Or.inr (Or.inl rfl)
    · exact Or.inr (Or.inr (Or.inr rfl))

/-- The body a request is answered with by `http_request_handle`: a file, a
listing, or nothing where there is nothing to send. -/
inductive QueuedBody (ans : SysAnswers) (conn : Connection) : List Chunk → Prop where
  | none (s : Stat) : ans.stat = .found s → s.kind = .regular →
      (cString conn.connectionResponse.fullpath.data).length = 0 ∨ u32 s.size = 0 →
      QueuedBody ans conn []
  | file (s : Stat) (c : Chunk) : ans.stat = .found s → s.kind = .regular →
      NewFile conn.connectionResponse.fullpath (u32 s.size) c → QueuedBody ans conn [c]
  | listing (b : Buffer) (events : List Event) (c : Chunk) :
      httpHandleDirectoryParse ans conn conn.connectionResponse.fullpath =
        .ok (b, events) →
      c.chunkType = .mem → c.chunkOffset = 0 → c.mem.Terminated → c.mem.str = bufferString b →
      QueuedBody ans conn [c]

/-- An empty queue that something is put into holds just that. -/
lemma appended_empty {q p : Chunkqueue} {c : Chunk} (empty : q.active = [])
    (h : p.active = q.active ++ [c]) : p.active = [c] := by
  rw [h, empty, List.nil_append]

theorem handleOutcome_body {config : ServerConfig} {ans : SysAnswers} {conn after : Connection}
    {events : List Event} (ok : QueueOk conn.writequeue) (empty : conn.writequeue.active = [])
    (unfinished : conn.httpResponseBodyFinished = false)
    (status : conn.httpStatus = 0 ∨ conn.httpStatus ∈ errorStatuses)
    (h : HandleOutcome config ans conn after events) :
    QueueOk after.writequeue ∧ Answered after ∧ after.readqueue = conn.readqueue ∧
      (after.httpStatus = 200 →
        QueuedBody ans (atFullpath config conn) after.writequeue.active) := by
  have nothing : ∀ q : Chunkqueue, q.active = [] → Whole q := by
    intro q hq c hc
    rw [hq] at hc
    cases hc
  cases h with
  | answered h0 h200 =>
    have herror : conn.httpStatus ∈ errorStatuses := status.resolve_left h0
    refine ⟨ok, ⟨Or.inr ⟨herror, unfinished, empty⟩, ?_, nothing _ empty⟩, rfl, ?_⟩
    · rw [empty]
      exact Nat.zero_le _
    · intro hstatus
      exact absurd hstatus h200
  | refused code hcode =>
    have herror : code ∈ errorStatuses := by
      rcases hcode with rfl | rfl | rfl <;> decide
    refine ⟨ok, ⟨Or.inr ⟨herror, unfinished, empty⟩, ?_, nothing _ empty⟩, rfl, ?_⟩
    · change conn.writequeue.active.length ≤ 1
      rw [empty]
      exact Nat.zero_le _
    · rintro rfl
      rcases hcode with h | h | h <;> cases h
  | file s contentType writequeue hstat hkind hqueue _ =>
    have hok := appendFile_queueOk ok (u32_lt s.size) hqueue
    rcases appendFile_spec ok.idle hqueue with ⟨_, hskip, rfl⟩ | ⟨_, _, hnew⟩
    · refine ⟨ok, ⟨Or.inl ⟨rfl, rfl⟩, ?_, nothing _ empty⟩, rfl, fun _ => ?_⟩
      · change conn.writequeue.active.length ≤ 1
        rw [empty]
        exact Nat.zero_le _
      · change QueuedBody _ _ conn.writequeue.active
        rw [empty]
        exact .none s hstat hkind hskip
    · obtain ⟨c, hactive, hfile, hunread, hstart, hlen, _, hunmapped, _, hmmapLen, _, hname⟩ := hnew
      have hsingle := appended_empty empty hactive
      refine ⟨hok, ⟨Or.inl ⟨rfl, rfl⟩, ?_, ?_⟩, rfl, fun _ => ?_⟩
      · change writequeue.active.length ≤ 1
        rw [hsingle]
        exact Nat.le_refl _
      · intro d hd
        change d ∈ writequeue.active at hd
        rw [hsingle] at hd
        rw [List.mem_singleton.mp hd]
        exact hunread
      · change QueuedBody _ _ writequeue.active
        rw [hsingle]
        exact .file s c hstat hkind ⟨hfile, hunread, hstart, hlen, hunmapped, hmmapLen, hname⟩
  | listing b listed writequeue hparsed hqueue =>
    have hok := appendBuffer_queueOk ok hqueue
    obtain ⟨c, hactive, _, hmem, hzero, hterm, hstr, _⟩ := appendBuffer_spec ok.idle hqueue
    have hsingle := appended_empty empty hactive
    refine ⟨hok, ⟨Or.inl ⟨rfl, rfl⟩, ?_, ?_⟩, rfl, fun _ => ?_⟩
    · change writequeue.active.length ≤ 1
      rw [hsingle]
      exact Nat.le_refl _
    · intro d hd
      change d ∈ writequeue.active at hd
      rw [hsingle] at hd
      rw [List.mem_singleton.mp hd]
      exact hzero
    · change QueuedBody _ _ writequeue.active
      rw [hsingle]
      exact .listing b listed c hparsed hmem hzero hterm hstr

theorem handleRequest_inv {config : ServerConfig} {ans : SysAnswers} {m next : Machine}
    (inv : ConnInv config m.conn) (hstate : m.conn.state = .handleRequest)
    (h : handleHandleRequest config ans m = .ok next) :
    ConnInv config next.conn ∧ next.conn.state = .responseStart ∧
      (next.conn.httpStatus = 200 → QueuedBody ans
        (atFullpath config { m.conn with connectionResponse := responseInitialize })
        next.conn.writequeue.active) := by
  have hphase := inv.phase
  rw [StateInv, hstate] at hphase
  rw [handleHandleRequest] at h
  obtain ⟨⟨code, after, events⟩, hhandle, heq⟩ := bind_eq_ok.mp h
  cases heq
  have hstatus : m.conn.httpStatus = 0 ∨ m.conn.httpStatus ∈ errorStatuses := by
    rcases hphase.status with h | h | h | h
    · exact Or.inl h
    all_goals
      right
      rw [h]
      decide
  have houtcome := httpRequestHandle_outcome hhandle
  obtain ⟨hqueue, hanswered, hread, hbody⟩ :=
    @handleOutcome_body config ans { m.conn with connectionResponse := responseInitialize } after
      events inv.writequeue hphase.empty hphase.unfinished hstatus houtcome
  have hidle : IdleClean after.readqueue := by
    rw [hread]
    exact inv.idle
  exact ⟨⟨hidle, hqueue, ⟨hanswered.status, hanswered.bodies, hanswered.whole⟩⟩, rfl, hbody⟩

/-- The error page that goes with a status. -/
def ErrorBody (status : Nat) (c : Chunk) : Prop :=
  ∃ text, queryHttpStatusString status = some text ∧ c.chunkType = .mem ∧ c.chunkOffset = 0 ∧
    c.mem.Terminated ∧ c.mem.str = (httpErrorPage status text).flatten

lemma errorPage_length {status : Nat} {text : String} (listed : status ∈ errorStatuses)
    (found : queryHttpStatusString status = some text) :
    (httpErrorPage status text).flatten.length < 1000 := by
  have short : ∀ s ∈ errorStatuses, (queryHttpStatusString s).all
      (fun t => decide ((httpErrorPage s t).flatten.length < 1000)) = true := by decide +kernel
  have hshort := short status listed
  rw [found, Option.all_some, decide_eq_true_iff] at hshort
  exact hshort

lemma errorPage_str {status : Nat} {text : String} (listed : status ∈ errorStatuses)
    (found : queryHttpStatusString status = some text) :
    bufferString (errorPage status text) = (httpErrorPage status text).flatten := by
  have hshort := errorPage_length listed found
  obtain ⟨hstr, hterm⟩ := appendedAll_str bufferInit_terminated (httpErrorPage status text)
    (by simp only [bufferInit_str, List.length_nil]; omega)
  rw [bufferInit_str, List.nil_append] at hstr
  rw [errorPage, hterm.take_stringLength, hstr]

theorem bodyOutcome_spec {conn mid : Connection} (ok : QueueOk conn.writequeue)
    (answered : Answered conn) (h : BodyOutcome conn mid) :
    QueueOk mid.writequeue ∧ Whole mid.writequeue ∧ mid.writequeue.active.length ≤ 1 ∧
      mid.httpResponseBodyFinished = true ∧ mid.readqueue = conn.readqueue ∧
      (conn.httpStatus = 200 → mid.writequeue = conn.writequeue) ∧
      (conn.httpStatus ≠ 200 → ∃ c, mid.writequeue.active = [c] ∧
        ErrorBody conn.httpStatus c) := by
  cases h with
  | kept hok =>
    have hfinished : conn.httpResponseBodyFinished = true := by
      rcases answered.status with h | h
      · exact h.2
      · rw [hok] at h
        exact absurd h.1 (by decide)
    exact ⟨ok, answered.whole, answered.bodies, hfinished, rfl, fun _ => rfl,
      fun hne => absurd hok hne⟩
  | page text writequeue herror htext hqueue =>
    have hne : conn.httpStatus ≠ 200 := by
      intro h
      rw [h] at herror
      exact absurd herror (by decide)
    have hempty : conn.writequeue.active = [] := by
      rcases answered.status with h | h
      · exact absurd h.1 hne
      · exact h.2.2
    have hok := appendBuffer_queueOk ok hqueue
    obtain ⟨c, hactive, _, hmem, hzero, hterm, hstr, _⟩ := appendBuffer_spec ok.idle hqueue
    have hsingle := appended_empty hempty hactive
    refine ⟨hok, ?_, ?_, rfl, rfl, fun h => absurd h hne, fun _ => ⟨c, hsingle, text, htext,
      hmem, hzero, hterm, hstr.trans (errorPage_str herror htext)⟩⟩
    · intro d hd
      change d ∈ writequeue.active at hd
      rw [hsingle] at hd
      rw [List.mem_singleton.mp hd]
      exact hzero
    · change writequeue.active.length ≤ 1
      rw [hsingle]
      exact Nat.le_refl _

/-- The head chunk is in front of the body that was settled. -/
theorem responseStart_inv {config : ServerConfig} {ans : SysAnswers} {m next : Machine}
    (inv : ConnInv config m.conn) (hstate : m.conn.state = .responseStart)
    (h : handleResponseStart config ans m = .ok next) :
    ConnInv config next.conn ∧ next.conn.state = .write ∧
      ∃ head body, next.conn.writequeue.active = head :: body ∧ head.chunkType = .mem ∧
        body.length ≤ 1 ∧ Whole next.conn.writequeue ∧
        (m.conn.httpStatus = 200 → body = m.conn.writequeue.active) ∧
        (m.conn.httpStatus ≠ 200 → ∃ c, body = [c] ∧ ErrorBody m.conn.httpStatus c) := by
  have hphase := inv.phase
  rw [StateInv, hstate] at hphase
  obtain ⟨after, hprepare, heq⟩ := bind_eq_ok.mp h
  cases heq
  have hstatus : m.conn.httpStatus = 200 ∨ m.conn.httpStatus ∈ errorStatuses := by
    rcases hphase.status with h | h
    · exact Or.inl h.1
    · exact Or.inr h.1
  obtain ⟨mid, text, writequeue, hbody, _, hqueue, rfl⟩ :=
    prepareResponseHead_outcome hstatus hprepare
  obtain ⟨hok, hwhole, hlength, hfinished, hread, hserved, hpage⟩ :=
    bodyOutcome_spec inv.writequeue hphase hbody
  have hnew := prependBuffer_queueOk hok hqueue
  obtain ⟨c, hactive, _, hmem, hzero, _⟩ := prependBuffer_spec hok.idle hqueue
  have hall : Whole writequeue := by
    intro d hd
    rw [hactive] at hd
    rcases List.mem_cons.mp hd with rfl | hd
    · exact hzero
    · exact hwhole d hd
  have hset : (setContentLength mid).httpResponseBodyFinished = true := by
    rw [setContentLength]
    split <;> exact hfinished
  have hreadqueue : (setContentLength mid).readqueue = m.conn.readqueue := by
    rw [setContentLength]
    split <;> exact hread
  refine ⟨⟨?_, hnew, hset, ?_, Or.inl hall⟩, rfl, c, mid.writequeue.active, hactive, hmem, hlength,
    hall, fun h => by rw [hserved h], hpage⟩
  · change IdleClean (setContentLength mid).readqueue
    rw [hreadqueue]
    exact inv.idle
  · change writequeue.active.length ≤ 2
    rw [hactive, List.length_cons]
    omega

/-- The ways in which `connection_handle_write_state` comes back. -/
inductive WriteStateOutcome (curTs : Int) (ans : SysAnswers) (conn : Connection) :
    Connection → Bytes → Prop where
  | skipped : conn.writeable = false → WriteStateOutcome curTs ans conn conn []
  | done (t : WriteTurn) : WriteOk ans.file conn.writequeue t → t.code = 0 →
      WriteStateOutcome curTs ans conn { conn with
        writequeue := t.queue
        state := if conn.httpResponseBodyFinished then .responseEnd else conn.state
        activeWriteTs := curTs } t.sent
  | waiting (t : WriteTurn) (ts : Int) : WriteOk ans.file conn.writequeue t → t.code ≠ 0 →
      WriteStateOutcome curTs ans conn
        { conn with writequeue := t.queue, writeable := false, activeWriteTs := ts } t.sent
  | failed (t : WriteTurn) : WriteOk ans.file conn.writequeue t → t.code ≠ 0 →
      WriteStateOutcome curTs ans conn { conn with writequeue := t.queue, state := .error } t.sent

theorem handleWriteState_outcome {curTs : Int} {ans : SysAnswers} {conn after : Connection}
    {bytes : Bytes} (ok : QueueOk conn.writequeue)
    (h : connectionHandleWriteState curTs ans conn = .ok (after, bytes)) :
    WriteStateOutcome curTs ans conn after bytes := by
  rw [connectionHandleWriteState] at h
  by_cases hwriteable : conn.writeable = false
  · rw [if_pos hwriteable] at h
    cases h
    exact .skipped hwriteable
  · rw [if_neg hwriteable] at h
    obtain ⟨t, ht, h⟩ := bind_eq_ok.mp h
    have hok : WriteOk ans.file conn.writequeue t := by
      rcases handleWrite_spec rfl ok with ⟨t', ht', hok, _⟩ | ⟨hfuel, _⟩
      · rw [ht] at ht'
        cases ht'
        exact hok
      · rw [ht] at hfuel
        cases hfuel
    by_cases h0 : t.code = 0
    · rw [if_pos h0] at h
      cases h
      exact .done t hok h0
    · rw [if_neg h0] at h
      by_cases h1 : t.code = -1
      · rw [if_pos h1] at h
        cases h
        exact .waiting t _ hok h0
      · rw [if_neg h1] at h
        by_cases h2 : t.code = 1
        · rw [if_pos h2] at h
          cases h
          exact .waiting t _ hok h0
        · rw [if_neg h2] at h
          cases h
          exact .failed t hok h0

def segmentLength : Segment → Nat
  | .memory bytes => bytes.length
  | .file _ _ length => length

lemma chunkLength_segment {c : Chunk} (ok : ChunkOk c) :
    chunkLength c = segmentLength (chunkSegment c) := by
  cases hkind : c.chunkType with
  | mem =>
    simp only [chunkLength, chunkSegment, hkind, segmentLength]
    exact (ok.mem hkind).stringLength_eq
  | file => simp only [chunkLength, chunkSegment, hkind, segmentLength]

/-- `chunkqueue_length` depends on what was queued, not on what was sent. -/
lemma chunkqueueLength_segments {q : Chunkqueue} (ok : QueueOk q) :
    chunkqueueLength q = (q.active.map chunkSegment).foldl
      (fun len s => u32 (len + segmentLength s)) 0 := by
  have fold : ∀ (active : List Chunk) (len : Nat), (∀ c ∈ active, ChunkOk c) →
      active.foldl (fun len c => u32 (len + chunkLength c)) len =
        (active.map chunkSegment).foldl (fun len s => u32 (len + segmentLength s)) len := by
    intro active
    induction active with
    | nil =>
      intro len _
      rfl
    | cons c rest ih =>
      intro len chunks
      rw [List.foldl_cons, List.map_cons, List.foldl_cons,
        chunkLength_segment (chunks c List.mem_cons_self)]
      exact ih _ (fun d hd => chunks d (List.mem_cons_of_mem _ hd))
  exact fold q.active 0 ok.chunks

lemma remaining_le {c : Chunk} (ok : ChunkOk c) : chunkRemainingLen c ≤ chunkLength c := by
  rw [chunkRemainingLen, u32Sub_of_le ok.offset (chunkLength_lt ok)]
  exact Nat.sub_le _ _

/-- Of a response with a length, what is left unsent has a length too. -/
theorem length_after_write {q p : Chunkqueue} (ok : QueueOk q) (okp : QueueOk p)
    (two : q.active.length ≤ 2) (length : chunkqueueLength q ≠ 0)
    (segments : p.active.map chunkSegment <:+ q.active.map chunkSegment)
    (unsent : remainingTotal p.active ≠ 0) : chunkqueueLength p ≠ 0 := by
  cases hactive : p.active with
  | nil =>
    rw [hactive] at unsent
    exact absurd rfl unsent
  | cons c rest =>
    cases hrest : rest with
    | nil =>
      have hc := okp.chunks c (by rw [hactive]; exact List.mem_cons_self)
      have hle := remaining_le hc
      have hlt := chunkLength_lt hc
      rw [hactive, hrest] at unsent
      rw [remainingTotal, List.map_singleton, List.sum_singleton] at unsent
      rw [chunkqueueLength, hactive, hrest, List.foldl_cons, List.foldl_nil, Nat.zero_add,
        u32_of_lt hlt]
      intro hzero
      rw [hzero] at hle
      exact unsent (Nat.le_zero.mp hle)
    | cons d more =>
      have hsame : p.active.map chunkSegment = q.active.map chunkSegment := by
        apply segments.eq_of_length_le
        rw [List.length_map, List.length_map, hactive, hrest, List.length_cons, List.length_cons]
        omega
      rw [chunkqueueLength_segments okp, hsame, ← chunkqueueLength_segments ok]
      exact length

lemma remaining_of_unsent {file : Bytes → Nat → UInt8} {q : Chunkqueue} (ok : QueueOk q)
    (h : unsent file q.active ≠ []) : remainingTotal q.active ≠ 0 := by
  rw [remainingTotal_eq file ok.chunks]
  exact fun hzero => h (List.length_eq_zero_iff.mp hzero)

lemma remaining_of_zero {c : Chunk} (ok : ChunkOk c) (zero : c.chunkOffset = 0) :
    chunkRemainingLen c = chunkLength c := by
  rw [chunkRemainingLen, u32Sub_of_le ok.offset (chunkLength_lt ok), zero, Nat.sub_zero]

/-- An untouched response with a length has something left to send. -/
lemma remaining_of_whole {q : Chunkqueue} (ok : QueueOk q) (whole : Whole q)
    (length : chunkqueueLength q ≠ 0) : remainingTotal q.active ≠ 0 := by
  intro hzero
  apply length
  have fold : ∀ active : List Chunk, (∀ c ∈ active, ChunkOk c) → (∀ c ∈ active, c.chunkOffset = 0) →
      remainingTotal active = 0 →
      active.foldl (fun len c => u32 (len + chunkLength c)) 0 = 0 := by
    intro active
    induction active with
    | nil =>
      intro _ _ _
      rfl
    | cons c rest ih =>
      intro chunks offsets total
      have hc := chunks c List.mem_cons_self
      rw [remainingTotal, List.map_cons, List.sum_cons,
        remaining_of_zero hc (offsets c List.mem_cons_self)] at total
      have hlen : chunkLength c = 0 := by omega
      have hsum : u32 (0 + chunkLength c) = 0 := by
        rw [hlen, Nat.zero_add, u32, Nat.zero_mod]
      rw [List.foldl_cons, hsum]
      exact ih (fun d hd => chunks d (List.mem_cons_of_mem _ hd))
        (fun d hd => offsets d (List.mem_cons_of_mem _ hd)) (by rw [remainingTotal]; omega)
  exact fold q.active ok.chunks whole hzero

/-- A connection at rest in `CON_STATE_WRITE` waits for its socket. -/
structure Blocked (conn : Connection) : Prop where
  unwriteable : conn.writeable = false
  pending : remainingTotal conn.writequeue.active ≠ 0
  length : chunkqueueLength conn.writequeue ≠ 0

theorem write_inv {config : ServerConfig} {ans : SysAnswers} {m next : Machine}
    (inv : ConnInv config m.conn) (hstate : m.conn.state = .write)
    (h : handleWrite ans m = .ok next) :
    ConnInv config next.conn ∧ (next.conn.state = .responseEnd ∨ next.conn.state = .error ∨
      next.conn.state = .write ∧ Blocked next.conn) := by
  have hphase := inv.phase
  rw [StateInv, hstate] at hphase
  have hfinished := hphase.finished
  rw [handleWrite] at h
  by_cases hlength : chunkqueueLength m.conn.writequeue ≠ 0
  · rw [if_pos hlength] at h
    obtain ⟨⟨after, bytes⟩, hwrite, heq⟩ := bind_eq_ok.mp h
    cases heq
    have pending : remainingTotal m.conn.writequeue.active ≠ 0 := by
      rcases hphase.pending with hwhole | hpending
      · exact remaining_of_whole inv.writequeue hwhole hlength
      · exact hpending
    cases handleWriteState_outcome inv.writequeue hwrite with
    | skipped hunwriteable => exact ⟨inv, Or.inr (Or.inr ⟨hstate, hunwriteable, pending, hlength⟩)⟩
    | done t hok hcode =>
      simp only [if_pos hfinished]
      exact ⟨⟨inv.idle, hok.queue, trivial⟩, Or.inl rfl⟩
    | waiting t ts hok hcode =>
      have hunsent := remaining_of_unsent hok.queue (hok.unfinished hcode)
      have hleft := length_after_write inv.writequeue hok.queue hphase.chunks hlength hok.segments
        hunsent
      have hchunks : t.queue.active.length ≤ 2 := by
        have hle := hok.segments.length_le
        rw [List.length_map, List.length_map] at hle
        exact Nat.le_trans hle hphase.chunks
      refine ⟨⟨inv.idle, hok.queue, ?_⟩, Or.inr (Or.inr ⟨hstate, rfl, hunsent, hleft⟩)⟩
      change StateInv config { m.conn with
        writequeue := t.queue, writeable := false, activeWriteTs := ts }
      rw [StateInv, hstate]
      exact ⟨hfinished, hchunks, Or.inr hunsent⟩
    | failed t hok hcode => exact ⟨⟨inv.idle, hok.queue, trivial⟩, Or.inr (Or.inl rfl)⟩
  · rw [if_neg hlength, if_pos hfinished] at h
    cases h
    exact ⟨⟨inv.idle, inv.writequeue, trivial⟩, Or.inl rfl⟩

lemma queueReset_ok {q : Chunkqueue} (clean : IdleClean q) : QueueOk (chunkqueueReset q) := by
  refine ⟨?_, reset_idleClean clean⟩
  intro c hc
  rw [reset_active] at hc
  cases hc

lemma connectionReset_inv {config : ServerConfig} {conn : Connection}
    (read : IdleClean conn.readqueue) (write : IdleClean conn.writequeue)
    (hstate : conn.state = .requestStart ∨ conn.state = .close) :
    ConnInv config (connectionReset conn) := by
  refine ⟨reset_idleClean read, queueReset_ok write, ?_⟩
  have hkeep : (connectionReset conn).state = conn.state := rfl
  rcases hstate with h | h
  · rw [StateInv, hkeep, h]
    exact ⟨⟨rfl, rfl, rfl⟩, rfl⟩
  · rw [StateInv, hkeep, h]
    trivial

/-- The two connections are one, as far as its slot and its socket go. -/
structure SameSocket (conn after : Connection) : Prop where
  fd : after.connSocketFd = conn.connSocketFd
  index : after.connectionIndex = conn.connectionIndex

lemma parse_socket {conn : Connection} {result : Int × Connection}
    (h : ParseOutcome conn result) : SameSocket conn result.2 := by
  cases h <;> exact ⟨rfl, rfl⟩

lemma handle_socket {config : ServerConfig} {ans : SysAnswers} {conn after : Connection}
    {events : List Event} (h : HandleOutcome config ans conn after events) :
    SameSocket conn after := by
  cases h <;> exact ⟨rfl, rfl⟩

lemma body_socket {conn after : Connection} (h : BodyOutcome conn after) :
    SameSocket conn after := by
  cases h <;> exact ⟨rfl, rfl⟩

lemma setContentLength_socket (conn : Connection) : SameSocket conn (setContentLength conn) := by
  rw [setContentLength]
  split <;> exact ⟨rfl, rfl⟩

lemma examine_socket {config : ServerConfig} {conn after : Connection}
    (h : ExamineOutcome config conn after) : SameSocket conn after := by
  cases h <;> exact ⟨rfl, rfl⟩

lemma ReadStep.socket {curTs : Int} {ans : SysAnswers} {conn mid : Connection}
    (step : ReadStep curTs ans conn mid) : SameSocket conn mid := by
  constructor <;> rw [step.fields]

lemma readState_socket {config : ServerConfig} {curTs : Int} {ans : SysAnswers}
    {conn after : Connection} {bytes : Bytes}
    (h : ReadStateOutcome config curTs ans conn after bytes) : SameSocket conn after := by
  cases h with
  | skipped => exact ⟨rfl, rfl⟩
  | nothing _ step => exact step.socket
  | failed _ step => exact ⟨step.socket.fd, step.socket.index⟩
  | endOfFile _ step => exact ⟨step.socket.fd, step.socket.index⟩
  | got _ _ step _ _ hexamine =>
    have h := examine_socket hexamine
    exact ⟨h.fd.trans step.socket.fd, h.index.trans step.socket.index⟩

lemma writeState_socket {curTs : Int} {ans : SysAnswers} {conn after : Connection} {bytes : Bytes}
    (h : WriteStateOutcome curTs ans conn after bytes) : SameSocket conn after := by
  cases h <;> exact ⟨rfl, rfl⟩

lemma socketCloses_append (first second : List Event) :
    socketCloses (first ++ second) = socketCloses first ++ socketCloses second :=
  List.filterMap_append

/-- A turn of the loop leaves the worker's side of the machine as it is. -/
structure Keeps (m next : Machine) : Prop where
  socket : SameSocket m.conn next.conn
  ev : next.ev = m.ev
  curTs : next.curTs = m.curTs
  closes : socketCloses next.trace = socketCloses m.trace

lemma Keeps.trans {a b c : Machine} (hab : Keeps a b) (hbc : Keeps b c) : Keeps a c :=
  ⟨⟨hbc.socket.fd.trans hab.socket.fd, hbc.socket.index.trans hab.socket.index⟩,
    hbc.ev.trans hab.ev, hbc.curTs.trans hab.curTs, hbc.closes.trans hab.closes⟩

lemma keeps_advance {m : Machine} {conn : Connection} {events : List Event}
    (socket : SameSocket m.conn conn) (none_closed : socketCloses events = []) :
    Keeps m (m.advance conn events) := by
  refine ⟨socket, rfl, rfl, ?_⟩
  change socketCloses (m.trace ++ events) = socketCloses m.trace
  rw [socketCloses_append, none_closed, List.append_nil]

lemma handle_closes {config : ServerConfig} {ans : SysAnswers} {conn after : Connection}
    {events : List Event} (h : HandleOutcome config ans conn after events) :
    socketCloses events = [] := by
  apply List.filterMap_eq_nil_iff.mpr
  intro e he
  obtain ⟨path, rfl | rfl | rfl⟩ := handle_paths h e he <;> rfl

/-- A bound for the states still ahead in one call, readable input counted once. -/
def rank (conn : Connection) : Nat :=
  match conn.state with
  | .connect => 0
  | .close => 1
  | .error => 2
  | .read => if conn.readable then 10 else 3
  | .requestStart => if conn.readable then 11 else 4
  | .responseEnd => 5
  | .write => 6
  | .responseStart => 7
  | .handleRequest => 8
  | .requestEnd => 9

/-- The last turn in `CON_STATE_CLOSE`: the connection is closed. -/
def Closes (m next : Machine) : Prop :=
  ∃ p, connectionClose p = .ok next ∧ p.ev = m.ev ∧ p.curTs = m.curTs ∧
    SameSocket m.conn p.conn ∧ p.trace = m.trace

/-- The states a turn can leave as they are, and what is known there. -/
def Stays (m next : Machine) : Prop :=
  m.conn.state = .read ∨ m.conn.state = .close ∨ m.conn.state = .connect ∨
    m.conn.state = .write ∧ Blocked next.conn

/-- What one turn may do to the machine `m`. It keeps the invariant, touches the
registrations only where it closes the connection, and stays in a state only
to wait there. -/
structure TurnSpec (config : ServerConfig) (m next : Machine) : Prop where
  inv : ConnInv config next.conn
  worker : next.conn.state ≠ .connect ∧ Keeps m next ∨
    m.conn.state = .close ∧ next.conn.state = .connect ∧ Closes m next ∨ m.conn.state = .connect
  stays : next.conn.state = m.conn.state → Stays m next
  descends : next.conn.state ≠ m.conn.state → rank next.conn < rank m.conn

/-- A turn that moves on to another state. -/
lemma turn_moves {config : ServerConfig} {m next : Machine} (inv : ConnInv config next.conn)
    (moves : next.conn.state ≠ m.conn.state) (open_still : next.conn.state ≠ .connect)
    (keeps : Keeps m next) (descends : rank next.conn < rank m.conn) : TurnSpec config m next :=
  ⟨inv, Or.inl ⟨open_still, keeps⟩, fun h => absurd h moves, fun _ => descends⟩

theorem requestStart_turn {config : ServerConfig} {m : Machine} (now : Int)
    (inv : ConnInv config m.conn) (hstate : m.conn.state = .requestStart) :
    TurnSpec config m
      (m.advance { m.conn with startTs := now, activeReadTs := now, state := .read } []) := by
  have hphase := inv.phase
  rw [StateInv, hstate] at hphase
  obtain ⟨hfresh, hempty⟩ := hphase
  have hnone : ∀ c, c ∉ m.conn.readqueue.active := by
    intro c hc
    rw [hempty] at hc
    cases hc
  have hnil : queueString m.conn.readqueue = [] := by rw [queueString, hempty]; rfl
  have hready : ReadReady config m.conn := by
    refine ⟨⟨fun c hc => absurd hc (hnone c), fun c hc => absurd hc (hnone c),
      fun c hc => absurd hc (hnone c), rfl, inv.idle⟩, ?_⟩
    rw [hnil]
    exact Nat.zero_le _
  refine turn_moves ⟨inv.idle, inv.writequeue, ?_, ?_⟩ ?_ ?_ (keeps_advance ⟨rfl, rfl⟩ rfl) ?_
  · exact ⟨hfresh.status, hfresh.unfinished, hfresh.empty⟩
  · exact ⟨hready.shape, hready.short⟩
  · rw [hstate]
    exact ConnectionState.noConfusion
  · exact ConnectionState.noConfusion
  · change (if m.conn.readable then 10 else 3) < rank m.conn
    simp only [rank, hstate]
    split <;> omega

theorem requestEnd_turn {config : ServerConfig} {m next : Machine} (inv : ConnInv config m.conn)
    (hstate : m.conn.state = .requestEnd) (h : handleRequestEnd config m = .ok next) :
    TurnSpec config m next := by
  obtain ⟨hnext, hto⟩ := requestEnd_inv inv hstate h
  rw [handleRequestEnd] at h
  obtain ⟨result, hparse, heq⟩ := bind_eq_ok.mp h
  have hsocket := parse_socket (httpReuqestParse_outcome hparse)
  refine turn_moves hnext ?_ ?_ ?_ ?_
  · rw [hto, hstate]
    decide
  · rw [hto]
    decide
  · cases heq
    exact keeps_advance ⟨hsocket.fd, hsocket.index⟩ rfl
  · simp only [rank, hto, hstate]
    decide

theorem handleRequest_turn {config : ServerConfig} {ans : SysAnswers} {m next : Machine}
    (inv : ConnInv config m.conn) (hstate : m.conn.state = .handleRequest)
    (h : handleHandleRequest config ans m = .ok next) : TurnSpec config m next := by
  obtain ⟨hnext, hto, _⟩ := handleRequest_inv inv hstate h
  rw [handleHandleRequest] at h
  obtain ⟨⟨code, after, events⟩, hhandle, heq⟩ := bind_eq_ok.mp h
  have houtcome := httpRequestHandle_outcome hhandle
  have hsocket := handle_socket houtcome
  refine turn_moves hnext ?_ ?_ ?_ ?_
  · rw [hto, hstate]
    decide
  · rw [hto]
    decide
  · cases heq
    exact keeps_advance ⟨hsocket.fd, hsocket.index⟩ (handle_closes houtcome)
  · simp only [rank, hto, hstate]
    decide

theorem responseStart_turn {config : ServerConfig} {ans : SysAnswers} {m next : Machine}
    (inv : ConnInv config m.conn) (hstate : m.conn.state = .responseStart)
    (h : handleResponseStart config ans m = .ok next) : TurnSpec config m next := by
  have hanswered := inv.phase
  rw [StateInv, hstate] at hanswered
  obtain ⟨hnext, hto, _⟩ := responseStart_inv inv hstate h
  rw [handleResponseStart] at h
  obtain ⟨after, hprepare, heq⟩ := bind_eq_ok.mp h
  have hstatus : m.conn.httpStatus = 200 ∨ m.conn.httpStatus ∈ errorStatuses :=
    hanswered.status.imp And.left And.left
  obtain ⟨mid, text, writequeue, hbody, _, _, hafter⟩ := prepareResponseHead_outcome hstatus hprepare
  have hset := setContentLength_socket mid
  have hmid := body_socket hbody
  have hsocket : SameSocket m.conn after := by
    rw [hafter]
    exact ⟨hset.fd.trans hmid.fd, hset.index.trans hmid.index⟩
  refine turn_moves hnext ?_ ?_ ?_ ?_
  · rw [hto, hstate]
    decide
  · rw [hto]
    decide
  · cases heq
    exact keeps_advance ⟨hsocket.fd, hsocket.index⟩ rfl
  · simp only [rank, hto, hstate]
    decide

theorem responseEnd_turn {config : ServerConfig} {m : Machine} (ans : SysAnswers)
    (inv : ConnInv config m.conn) (hstate : m.conn.state = .responseEnd) :
    TurnSpec config m (handleResponseEnd ans m) := by
  rw [handleResponseEnd]
  by_cases hkeep : m.conn.keepAlive = true
  · rw [if_pos hkeep]
    refine turn_moves (connectionReset_inv inv.idle inv.writequeue.idle (Or.inl rfl)) ?_ ?_
      (keeps_advance ⟨rfl, rfl⟩ rfl) ?_
    · rw [hstate]
      exact ConnectionState.noConfusion
    · exact ConnectionState.noConfusion
    · change 4 < rank m.conn
      simp only [rank, hstate]
      decide
  · rw [if_neg hkeep]
    refine turn_moves (connectionReset_inv inv.idle inv.writequeue.idle (Or.inr rfl)) ?_ ?_
      (keeps_advance ⟨rfl, rfl⟩ rfl) ?_
    · rw [hstate]
      exact ConnectionState.noConfusion
    · exact ConnectionState.noConfusion
    · change 1 < rank m.conn
      simp only [rank, hstate]
      decide

theorem error_turn {config : ServerConfig} {m : Machine} (ans : SysAnswers)
    (inv : ConnInv config m.conn) (hstate : m.conn.state = .error) :
    TurnSpec config m (handleError ans m) := by
  refine turn_moves (connectionReset_inv inv.idle inv.writequeue.idle (Or.inr rfl)) ?_ ?_
    (keeps_advance ⟨rfl, rfl⟩ rfl) ?_
  · rw [hstate]
    exact ConnectionState.noConfusion
  · exact ConnectionState.noConfusion
  · change 1 < rank m.conn
    simp only [rank, hstate]
    decide

theorem read_turn {config : ServerConfig} {m : Machine} {ans : SysAnswers} {after : Connection}
    {bytes : Bytes} (inv : ConnInv config m.conn) (hstate : m.conn.state = .read)
    (h : ReadStateOutcome config m.curTs ans m.conn after bytes) :
    TurnSpec config m (m.advance after (readEvents bytes)) := by
  have hnext := readState_inv inv hstate h
  have hto : after.state ≠ .connect := by
    cases h with
    | skipped => rw [hstate]; exact ConnectionState.noConfusion
    | nothing _ step => rw [step.state, hstate]; exact ConnectionState.noConfusion
    | failed => exact ConnectionState.noConfusion
    | endOfFile => exact ConnectionState.noConfusion
    | got mid _ step _ _ hexamine =>
      cases hexamine with
      | complete => exact ConnectionState.noConfusion
      | tooLong => exact ConnectionState.noConfusion
      | waiting => rw [step.state, hstate]; exact ConnectionState.noConfusion
  have hclosed : socketCloses (readEvents bytes) = [] := by
    rw [readEvents]
    split <;> rfl
  refine ⟨hnext, Or.inl ⟨hto, keeps_advance (readState_socket h) hclosed⟩, fun _ => Or.inl hstate, ?_⟩
  -- the state changes only where something was readable
  change after.state ≠ m.conn.state → rank after < rank m.conn
  intro hmoves
  have hrank : m.conn.readable = true → rank m.conn = 10 := by
    intro hreadable
    simp only [rank, hstate, hreadable, if_true]
  cases h with
  | skipped => exact absurd rfl hmoves
  | nothing _ step => exact absurd step.state hmoves
  | failed _ _ _ hreadable =>
    rw [hrank hreadable]
    exact (by decide : 2 < 10)
  | endOfFile _ _ _ hreadable =>
    rw [hrank hreadable]
    exact (by decide : 1 < 10)
  | got mid _ step _ hreadable hexamine =>
    rw [hrank hreadable]
    cases hexamine with
    | complete => exact (by decide : 9 < 10)
    | tooLong => exact (by decide : 8 < 10)
    | waiting => exact absurd step.state hmoves

theorem write_turn {config : ServerConfig} {ans : SysAnswers} {m next : Machine}
    (inv : ConnInv config m.conn) (hstate : m.conn.state = .write)
    (h : handleWrite ans m = .ok next) : TurnSpec config m next := by
  obtain ⟨hnext, hto⟩ := write_inv inv hstate h
  have hopen : next.conn.state ≠ .connect := by
    rcases hto with h | h | ⟨h, _⟩ <;> rw [h] <;> exact ConnectionState.noConfusion
  have hkeeps : Keeps m next := by
    rw [handleWrite] at h
    by_cases hlength : chunkqueueLength m.conn.writequeue ≠ 0
    · rw [if_pos hlength] at h
      obtain ⟨⟨after, bytes⟩, hwrite, heq⟩ := bind_eq_ok.mp h
      cases heq
      have hclosed : socketCloses (writeEvents bytes) = [] := by
        rw [writeEvents]
        split <;> rfl
      exact keeps_advance (writeState_socket (handleWriteState_outcome inv.writequeue hwrite)) hclosed
    · rw [if_neg hlength] at h
      by_cases hfinished : m.conn.httpResponseBodyFinished = true
      · rw [if_pos hfinished] at h
        cases h
        exact keeps_advance ⟨rfl, rfl⟩ rfl
      · rw [if_neg hfinished] at h
        cases h
        exact ⟨⟨rfl, rfl⟩, rfl, rfl, rfl⟩
  refine ⟨hnext, Or.inl ⟨hopen, hkeeps⟩, fun hsame => ?_, fun hmoves => ?_⟩
  · rw [hstate] at hsame
    rcases hto with h | h | ⟨_, hblocked⟩
    · rw [h] at hsame
      cases hsame
    · rw [h] at hsame
      cases hsame
    · exact Or.inr (Or.inr (Or.inr ⟨hstate, hblocked⟩))
  · rcases hto with h | h | ⟨h, _⟩
    · simp only [rank, h, hstate]
      decide
    · simp only [rank, h, hstate]
      decide
    · exact absurd (h.trans hstate.symm) hmoves

theorem close_turn {config : ServerConfig} {ans : SysAnswers} {m next : Machine}
    (inv : ConnInv config m.conn) (hstate : m.conn.state = .close)
    (h : handleClose ans m = .ok next) : TurnSpec config m next := by
  simp only [handleClose] at h
  generalize (if peerGone ans.read = true then m.curTs - (minihttpdCloseTimeout + 1)
    else m.conn.closeTimeoutTs) = ts at h
  by_cases hover : m.curTs - ts > minihttpdCloseTimeout
  · have hclose : connectionClose (m.advance { m.conn with closeTimeoutTs := ts } []) = .ok next := by
      rw [← h]
      exact (if_pos hover).symm
    have hshape := hclose
    rw [connectionClose] at hshape
    obtain ⟨ev₁, _, hshape⟩ := bind_eq_ok.mp hshape
    obtain ⟨ev₂, _, heq⟩ := bind_eq_ok.mp hshape
    cases heq
    refine ⟨⟨inv.idle, inv.writequeue, trivial⟩, Or.inr (Or.inl ⟨hstate, rfl, ?_⟩),
      fun hsame => ?_, fun _ => ?_⟩
    · exact ⟨_, hclose, rfl, rfl, ⟨rfl, rfl⟩, List.append_nil _⟩
    · rw [hstate] at hsame
      cases hsame
    · change 0 < rank m.conn
      simp only [rank, hstate]
      decide
  · have heq : Except.ok (m.advance { m.conn with closeTimeoutTs := ts } []) =
        (Except.ok next : Except Fault Machine) := by
      rw [← h]
      exact (if_neg hover).symm
    cases heq
    have hinv : ConnInv config { m.conn with closeTimeoutTs := ts } := by
      refine ⟨inv.idle, inv.writequeue, ?_⟩
      rw [StateInv]
      simp only [hstate]
    refine ⟨hinv, Or.inl ⟨?_, keeps_advance ⟨rfl, rfl⟩ rfl⟩, fun _ => Or.inr (Or.inl hstate),
      fun hmoves => absurd rfl hmoves⟩
    change m.conn.state ≠ .connect
    rw [hstate]
    exact ConnectionState.noConfusion

/-- Every turn of the loop, from the machine that has noted its state. -/
theorem iteration_spec {config : ServerConfig} {ans : SysAnswers} {m next : Machine}
    (inv : ConnInv config m.conn) (h : connectionIteration config ans m = .ok next) :
    TurnSpec config (m.emit [.state m.conn.state]) next := by
  have hinv : ConnInv config (m.emit [.state m.conn.state]).conn := inv
  simp only [connectionIteration] at h
  generalize m.emit [.state m.conn.state] = e at h hinv ⊢
  cases hstate : e.conn.state with
  | requestStart =>
    simp only [hstate] at h
    cases h
    exact requestStart_turn ans.time hinv hstate
  | requestEnd => exact requestEnd_turn hinv hstate (by simpa only [hstate] using h)
  | handleRequest => exact handleRequest_turn hinv hstate (by simpa only [hstate] using h)
  | responseStart => exact responseStart_turn hinv hstate (by simpa only [hstate] using h)
  | responseEnd =>
    simp only [hstate] at h
    cases h
    exact responseEnd_turn ans hinv hstate
  | read =>
    simp only [hstate] at h
    obtain ⟨⟨after, bytes⟩, hread, heq⟩ := bind_eq_ok.mp h
    cases heq
    have hphase := hinv.phase
    rw [StateInv, hstate] at hphase
    obtain ⟨after', bytes', hread', houtcome⟩ := handleReadState_outcome hphase.2
    rw [hread] at hread'
    cases hread'
    exact read_turn hinv hstate houtcome
  | write => exact write_turn hinv hstate (by simpa only [hstate] using h)
  | error =>
    simp only [hstate] at h
    cases h
    exact error_turn ans hinv hstate
  | close => exact close_turn hinv hstate (by simpa only [hstate] using h)
  | connect =>
    simp only [hstate] at h
    cases h
    exact ⟨hinv, Or.inr (Or.inr hstate), fun _ => Or.inr (Or.inr (Or.inl hstate)),
      fun hmoves => absurd rfl hmoves⟩

end ConnectionInvariant
