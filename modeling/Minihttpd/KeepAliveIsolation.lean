import Minihttpd.AlikeQueues
import Minihttpd.ConnectionRuns

/-!
# Keep-alive isolation

Two connections that begin a request, whether they have served others before or
are new, differ in their place, their descriptor, two time stamps and what is
left over in their queues. No turn looks at any of these, so the same inputs
take both through the same states, requests and responses.
-/
namespace KeepAliveIsolation

open ByteBuffer SystemCalls ChunkQueue ChunkQueueLaws ConnectionTypes HttpRequest HttpResponse
open HttpConnection StateMachine FailingRun SideBySide AlikeQueues ConnectionInvariant
open ConnectionRuns

/-- Two connections that no turn can tell apart. -/
inductive AlikeConn : Connection → Connection → Prop where
  | mk (conn : Connection) (index : Nat) (fd startTs closeTimeoutTs : Int)
      (readqueue writequeue : Chunkqueue) :
      (conn.state = .close → conn.closeTimeoutTs = closeTimeoutTs) →
      Alike conn.readqueue readqueue → Alike conn.writequeue writequeue →
      AlikeConn conn { conn with
        connectionIndex := index, connSocketFd := fd, startTs := startTs
        closeTimeoutTs := closeTimeoutTs, readqueue := readqueue, writequeue := writequeue }

/-- What is seen of an event but the descriptor that is closed. -/
def anonymous : Event → Event
  | .socketClose _ => .socketClose (-1)
  | event => event

/-- Behind `before` and `before'` the two traces are the same. -/
def SameSince (before before' trace trace' : List Event) : Prop :=
  ∃ since since', trace = before ++ since ∧ trace' = before' ++ since' ∧
    since.map anonymous = since'.map anonymous

structure Alongside (before before' : List Event) (m n : Machine) : Prop where
  clock : m.curTs = n.curTs
  conn : AlikeConn m.conn n.conn
  trace : SameSince before before' m.trace n.trace

variable {before before' : List Event} {m n : Machine} {c d : Connection}

lemma SameSince.append {trace trace' : List Event} (h : SameSince before before' trace trace')
    {events events' : List Event} (same : events.map anonymous = events'.map anonymous) :
    SameSince before before' (trace ++ events) (trace' ++ events') := by
  obtain ⟨since, since', rfl, rfl, hsince⟩ := h
  refine ⟨since ++ events, since' ++ events', List.append_assoc _ _ _, List.append_assoc _ _ _, ?_⟩
  rw [List.map_append, List.map_append, hsince, same]

lemma Alongside.advance (h : Alongside before before' m n) (conn : AlikeConn c d)
    (events : List Event) : Alongside before before' (m.advance c events) (n.advance d events) :=
  ⟨h.clock, conn, h.trace.append rfl⟩

lemma Alongside.emit (h : Alongside before before' m n) (events : List Event) :
    Alongside before before' (m.emit events) (n.emit events) :=
  ⟨h.clock, h.conn, h.trace.append rfl⟩

/-- What does not depend on the differences is the same. -/
lemma AlikeConn.same {β : Type} (g : Connection → β)
    (blind : ∀ (c : Connection) (index : Nat) (fd startTs closeTimeoutTs : Int)
      (readqueue writequeue : Chunkqueue), g { c with
        connectionIndex := index, connSocketFd := fd, startTs := startTs
        closeTimeoutTs := closeTimeoutTs, readqueue := readqueue, writequeue := writequeue } = g c)
    (h : AlikeConn c d) : g c = g d := by
  cases h with
  | mk place fd startTs closeTimeoutTs readqueue writequeue closing read write =>
    exact (blind c place fd startTs closeTimeoutTs readqueue writequeue).symm

lemma AlikeConn.state_eq (h : AlikeConn c d) : c.state = d.state :=
  h.same Connection.state (fun _ _ _ _ _ _ _ => rfl)

lemma AlikeConn.request_eq (h : AlikeConn c d) : c.connectionRequest = d.connectionRequest :=
  h.same Connection.connectionRequest (fun _ _ _ _ _ _ _ => rfl)

lemma AlikeConn.status_eq (h : AlikeConn c d) : c.httpStatus = d.httpStatus :=
  h.same Connection.httpStatus (fun _ _ _ _ _ _ _ => rfl)

lemma AlikeConn.length_eq (h : AlikeConn c d) :
    chunkqueueLength c.writequeue = chunkqueueLength d.writequeue := by
  cases h with
  | mk place fd startTs closeTimeoutTs readqueue writequeue closing read write =>
    exact alike_length write

/-- The same segments are queued. -/
lemma AlikeConn.segments_eq (h : AlikeConn c d) :
    c.writequeue.active.map chunkSegment = d.writequeue.active.map chunkSegment := by
  cases h with
  | mk place fd startTs closeTimeoutTs readqueue writequeue closing read write =>
    exact same_of_visible visible_segments write.active

/-- Any other change made to both leaves them alike. -/
lemma AlikeConn.change (h : AlikeConn c d) (g : Connection → Connection)
    (blind : ∀ (c : Connection) (index : Nat) (fd startTs closeTimeoutTs : Int)
      (readqueue writequeue : Chunkqueue), g { c with
        connectionIndex := index, connSocketFd := fd, startTs := startTs
        closeTimeoutTs := closeTimeoutTs, readqueue := readqueue, writequeue := writequeue } =
      { g c with
        connectionIndex := index, connSocketFd := fd, startTs := startTs
        closeTimeoutTs := closeTimeoutTs, readqueue := readqueue, writequeue := writequeue })
    (queues : (g c).readqueue = c.readqueue ∧ (g c).writequeue = c.writequeue)
    (closing : (g c).state = .close → c.state = .close ∧ (g c).closeTimeoutTs = c.closeTimeoutTs) :
    AlikeConn (g c) (g d) := by
  cases h with
  | mk place fd startTs closeTimeoutTs readqueue writequeue same read write =>
    have hclosing : (g c).state = .close → (g c).closeTimeoutTs = closeTimeoutTs := by
      intro hclose
      obtain ⟨hc, hts⟩ := closing hclose
      exact hts.trans (same hc)
    rw [← queues.1] at read
    rw [← queues.2] at write
    rw [blind c place fd startTs closeTimeoutTs readqueue writequeue]
    exact .mk (g c) place fd startTs closeTimeoutTs readqueue writequeue hclosing read write

lemma AlikeConn.setState (h : AlikeConn c d) {state : ConnectionState} (open_state : state ≠ .close) :
    AlikeConn { c with state := state } { d with state := state } :=
  h.change (fun c => { c with state := state }) (fun _ _ _ _ _ _ _ => rfl) ⟨rfl, rfl⟩
    (fun hclose => absurd hclose open_state)

/-- Where a connection begins to close, its time stamp is set. -/
lemma AlikeConn.setClosing (h : AlikeConn c d) (state : ConnectionState) (timeout : Int) :
    AlikeConn { c with state := state, closeTimeoutTs := timeout }
      { d with state := state, closeTimeoutTs := timeout } := by
  cases h with
  | mk place fd startTs closeTimeoutTs readqueue writequeue closing read write =>
    exact .mk _ place fd startTs timeout readqueue writequeue (fun _ => rfl) read write

lemma AlikeConn.setTimeout (h : AlikeConn c d) (timeout : Int) :
    AlikeConn { c with closeTimeoutTs := timeout } { d with closeTimeoutTs := timeout } := by
  cases h with
  | mk place fd startTs closeTimeoutTs readqueue writequeue closing read write =>
    exact .mk _ place fd startTs timeout readqueue writequeue (fun _ => rfl) read write

/-- The same result and alike connections. -/
structure AlikeParse (x y : Int × Connection) : Prop where
  code : x.1 = y.1
  conn : AlikeConn x.2 y.2

lemma alike_reject (h : AlikeConn c d) (status : Nat) :
    AlikeParse (rejectRequest c status) (rejectRequest d status) :=
  ⟨rfl, h.change (fun c => { c with httpStatus := status, keepAlive := false })
    (fun _ _ _ _ _ _ _ => rfl) ⟨rfl, rfl⟩ (fun hclose => ⟨hclose, rfl⟩)⟩

lemma alike_finish (h : AlikeConn c d) : AlikeParse (finishRequest c) (finishRequest d) := by
  cases h with
  | mk place fd startTs closeTimeoutTs readqueue writequeue closing read write =>
    simp only [finishRequest]
    split
    · split
      · exact alike_reject (.mk _ place fd startTs closeTimeoutTs readqueue writequeue closing
          read write) 400
      · exact ⟨rfl, .mk _ place fd startTs closeTimeoutTs readqueue writequeue closing read write⟩
    · exact ⟨rfl, .mk _ place fd startTs closeTimeoutTs readqueue writequeue closing read write⟩

lemma alike_setRequest (h : AlikeConn c d) (r : Request) :
    AlikeConn { c with connectionRequest := r } { d with connectionRequest := r } :=
  h.change (fun c => { c with connectionRequest := r }) (fun _ _ _ _ _ _ _ => rfl) ⟨rfl, rfl⟩
    (fun hclose => ⟨hclose, rfl⟩)

lemma alike_withContent (h : AlikeConn c d) (content : Bytes) :
    AlikeConn (Connection.withContent c content) (Connection.withContent d content) := by
  rw [Connection.withContent, Connection.withContent, ← h.request_eq]
  exact alike_setRequest h _

lemma alike_options (h : AlikeConn c d) (content : Bytes) (index : Nat) :
    AlikeParse (parseOptions c content index) (parseOptions d content index) := by
  simp only [parseOptions, ← h.request_eq]
  split
  · exact alike_reject h 400
  · generalize scanOptions (content.drop index)
      ⟨index, index, 0, true, content, c.connectionRequest⟩ = scan
    have hconn := alike_withContent (alike_setRequest h scan.2.request) scan.2.content
    split
    · exact alike_finish hconn
    · exact alike_reject hconn 400

lemma alike_requestLine (config : ServerConfig) (h : AlikeConn c d) (content : Bytes)
    (method url proto index : Nat) :
    Agree AlikeParse (parseRequestLine config c content method url proto index)
      (parseRequestLine config d content method url proto index) := by
  have hcut := alike_withContent h
    ((((content.set index 0).set (index + 1) 0).set (url - 1) 0).set (proto - 1) 0)
  simp only [parseRequestLine, ← hcut.request_eq]
  refine agree_bind (agree_refl _) ?_
  rintro methodB _ rfl
  refine agree_bind (agree_refl _) ?_
  rintro methodKey _ rfl
  split
  · exact alike_reject hcut 501
  · refine agree_bind (agree_refl _) ?_
    rintro httpMethod _ rfl
    split
    · exact alike_reject (alike_setRequest hcut _) 400
    · exact alike_options (alike_setRequest hcut _) _ _

theorem alike_parse (config : ServerConfig) (h : AlikeConn c d) :
    Agree AlikeParse (httpReuqestParse config c) (httpReuqestParse config d) := by
  rw [httpReuqestParse, httpReuqestParse, ← h.request_eq]
  split
  · exact alike_reject h 400
  · exact alike_reject h 400
  · exact alike_options h _ _
  · exact alike_requestLine config h _ _ _ _ _

/-- The same result and events, and alike connections. -/
structure AlikeHandled (x y : Int × Connection × List Event) : Prop where
  code : x.1 = y.1
  conn : AlikeConn x.2.1 y.2.1
  events : x.2.2 = y.2.2

lemma alike_setResponse (h : AlikeConn c d) (r : Response) :
    AlikeConn { c with connectionResponse := r } { d with connectionResponse := r } :=
  h.change (fun c => { c with connectionResponse := r }) (fun _ _ _ _ _ _ _ => rfl) ⟨rfl, rfl⟩
    (fun hclose => ⟨hclose, rfl⟩)

lemma alike_fullpath (config : ServerConfig) (h : AlikeConn c d) :
    Agree AlikeConn (withFullpath config c) (withFullpath config d) := by
  cases h with
  | mk place fd startTs closeTimeoutTs readqueue writequeue closing read write =>
    simp only [withFullpath]
    refine agree_bind (agree_refl _) ?_
    rintro fullpath _ rfl
    exact .mk _ place fd startTs closeTimeoutTs readqueue writequeue closing read write

lemma alike_refuse (h : AlikeConn c d) (status : Nat) :
    AlikeConn (refusePath c status) (refusePath d status) :=
  h.change (fun c => refusePath c status) (fun _ _ _ _ _ _ _ => rfl) ⟨rfl, rfl⟩
    (fun hclose => ⟨hclose, rfl⟩)

lemma alike_serveFile (config : ServerConfig) (h : AlikeConn c d) (size : Nat) :
    Agree AlikeConn (serveFile config c size) (serveFile config d size) := by
  cases h with
  | mk place fd startTs closeTimeoutTs readqueue writequeue closing read write =>
    simp only [serveFile]
    refine agree_bind (alike_appendFile write _ _ _) ?_
    intro q p hqueue
    exact .mk _ place fd startTs closeTimeoutTs readqueue p closing read hqueue

lemma alike_serveDirectory (ans : SysAnswers) (h : AlikeConn c d) :
    Agree (fun x y : Connection × List Event => AlikeConn x.1 y.1 ∧ x.2 = y.2)
      (serveDirectory ans c) (serveDirectory ans d) := by
  cases h with
  | mk place fd startTs closeTimeoutTs readqueue writequeue closing read write =>
    simp only [serveDirectory]
    refine agree_bind (agree_refl (httpHandleDirectoryParse ans c c.connectionResponse.fullpath)) ?_
    rintro page _ rfl
    refine agree_bind (alike_appendBuffer write _) ?_
    intro q p hqueue
    exact ⟨.mk _ place fd startTs closeTimeoutTs readqueue p closing read hqueue, rfl⟩

theorem alike_handle (config : ServerConfig) (ans : SysAnswers) (h : AlikeConn c d) :
    Agree AlikeHandled (httpRequestHandle config ans c) (httpRequestHandle config ans d) := by
  have hstatus : c.httpStatus = d.httpStatus := by
    cases h with
    | mk => rfl
  simp only [httpRequestHandle, ← hstatus, ← h.request_eq]
  split
  · exact ⟨rfl, h, rfl⟩
  · split
    · exact rfl
    · refine agree_bind (alike_fullpath config h) ?_
      intro at_path at_path' hpath
      have hresponse : at_path.connectionResponse = at_path'.connectionResponse := by
        cases hpath with
        | mk => rfl
      rw [hresponse]
      cases ans.stat with
      | fail errno => exact ⟨rfl, alike_refuse hpath _, rfl⟩
      | found s =>
        dsimp only
        cases s.kind with
        | regular =>
          refine agree_bind (alike_serveFile config hpath s.size) ?_
          intro x y hserved
          exact ⟨rfl, hserved, rfl⟩
        | directory =>
          refine agree_bind (alike_serveDirectory ans hpath) ?_
          rintro ⟨x, events⟩ ⟨y, _⟩ ⟨hserved, rfl⟩
          exact ⟨rfl, hserved, rfl⟩
        | other => exact ⟨rfl, alike_refuse hpath 403, rfl⟩

lemma alike_errorPage (h : AlikeConn c d) : Agree AlikeConn (appendErrorPage c) (appendErrorPage d) := by
  cases h with
  | mk place fd startTs closeTimeoutTs readqueue writequeue closing read write =>
    simp only [appendErrorPage]
    cases queryHttpStatusString c.httpStatus with
    | none => exact rfl
    | some text =>
      dsimp only
      generalize bufferAppendStrings bufferInit (httpErrorPage c.httpStatus text) = printed
      refine agree_bind (agree_refl printed) ?_
      rintro page _ rfl
      refine agree_bind (alike_appendBuffer write page) ?_
      intro q p hqueue
      exact .mk _ place fd startTs closeTimeoutTs readqueue p closing read hqueue

lemma alike_customize (h : AlikeConn c d) :
    Agree AlikeConn (customizeBody c) (customizeBody d) := by
  cases h with
  | mk place fd startTs closeTimeoutTs readqueue writequeue closing read write =>
    simp only [customizeBody]
    split
    · exact .mk _ place fd startTs closeTimeoutTs readqueue _ closing read
        (alike_reset write.left write.right)
    · split
      · exact .mk _ place fd startTs closeTimeoutTs readqueue writequeue closing read write
      · exact alike_errorPage
          (.mk c place fd startTs closeTimeoutTs readqueue writequeue closing read write)

lemma alike_setLength (h : AlikeConn c d) :
    AlikeConn (setContentLength c) (setContentLength d) := by
  cases h with
  | mk place fd startTs closeTimeoutTs readqueue writequeue closing read write =>
    simp only [setContentLength, ← alike_length write]
    split
    · exact .mk _ place fd startTs closeTimeoutTs readqueue writequeue closing read write
    · exact .mk _ place fd startTs closeTimeoutTs readqueue writequeue closing read write

lemma alike_writeHead (config : ServerConfig) (ans : SysAnswers) (h : AlikeConn c d) :
    Agree AlikeConn (connectionWriteResponseHead config ans c)
      (connectionWriteResponseHead config ans d) := by
  cases h with
  | mk place fd startTs closeTimeoutTs readqueue writequeue closing read write =>
    simp only [connectionWriteResponseHead]
    split
    · exact rfl
    · refine agree_bind (agree_refl _) ?_
      rintro head _ rfl
      refine agree_bind (alike_prependBuffer write head) ?_
      intro q p hqueue
      exact .mk _ place fd startTs closeTimeoutTs readqueue p closing read hqueue

theorem alike_prepare (config : ServerConfig) (ans : SysAnswers) (h : AlikeConn c d) :
    Agree AlikeConn (connectionHandlePrepareResponseHead config ans c)
      (connectionHandlePrepareResponseHead config ans d) := by
  have hset : AlikeConn (if c.httpStatus = 0 then { c with httpStatus := 403 } else c)
      (if d.httpStatus = 0 then { d with httpStatus := 403 } else d) := by
    cases h with
    | mk place fd startTs closeTimeoutTs readqueue writequeue closing read write =>
      dsimp only
      split
      · exact .mk _ place fd startTs closeTimeoutTs readqueue writequeue closing read write
      · exact .mk _ place fd startTs closeTimeoutTs readqueue writequeue closing read write
  rw [connectionHandlePrepareResponseHead, connectionHandlePrepareResponseHead]
  refine agree_bind (alike_customize hset) ?_
  intro x y hbody
  exact alike_writeHead config ans (alike_setLength hbody)

/-- The same result and bytes, and alike connections. -/
structure AlikeRead (x y : Int × Connection × Bytes) : Prop where
  code : x.1 = y.1
  conn : AlikeConn x.2.1 y.2.1
  bytes : x.2.2 = y.2.2

lemma alike_handleRead (ans : SysAnswers) (h : AlikeConn c d) :
    Agree AlikeRead (connectionHandleRead ans c) (connectionHandleRead ans d) := by
  cases h with
  | mk place fd startTs closeTimeoutTs readqueue writequeue closing read write =>
    obtain ⟨hqueue, hplace⟩ := alike_getMemory read ans.needReadBytes
    simp only [connectionHandleRead]
    generalize chunkGetMemory c.readqueue ans.needReadBytes = x at hqueue hplace
    generalize chunkGetMemory readqueue ans.needReadBytes = y at hqueue hplace
    obtain ⟨q, there⟩ := x
    obtain ⟨p, there'⟩ := y
    cases hplace
    cases there with
    | none => exact rfl
    | some position =>
      dsimp only
      cases ans.read with
      | fail errno =>
        cases errno <;>
          exact ⟨rfl, .mk _ place fd startTs closeTimeoutTs p writequeue closing hqueue write, rfl⟩
      | data available =>
        dsimp only
        split
        · exact ⟨rfl, .mk _ place fd startTs closeTimeoutTs p writequeue closing hqueue write, rfl⟩
        · refine agree_bind (alike_commit hqueue _) ?_
          intro q' p' hcommit
          exact ⟨rfl, .mk _ place fd startTs closeTimeoutTs p' writequeue closing hcommit write, rfl⟩

lemma alike_examine (config : ServerConfig) (h : AlikeConn c d) :
    Agree AlikeConn (examineReadqueue config c) (examineReadqueue config d) := by
  cases h with
  | mk place fd startTs closeTimeoutTs readqueue writequeue closing read write =>
    have hfind : findHead c.readqueue.active 0 = findHead readqueue.active 0 :=
      @same_of_visible _ (fun l => findHead l 0) (fun l => visible_findHead l 0) _ _ read.active
    have hpieces : ∀ last index, headPieces c.readqueue.active last index =
        headPieces readqueue.active last index := fun last index =>
      @same_of_visible _ (fun l => headPieces l last index)
        (fun l => visible_headPieces l last index) _ _ read.active
    simp only [examineReadqueue, hfind, hpieces, alike_length read]
    refine agree_bind (agree_refl _) ?_
    rintro position _ rfl
    cases position with
    | none =>
      dsimp only
      split
      · exact .mk _ place fd startTs closeTimeoutTs readqueue writequeue
          (fun h => by cases h) read write
      · exact .mk _ place fd startTs closeTimeoutTs readqueue writequeue closing read write
    | some position =>
      refine agree_bind (agree_refl _) ?_
      rintro content _ rfl
      exact .mk _ place fd startTs closeTimeoutTs readqueue writequeue
        (fun h => by cases h) read write

/-- Alike connections, and the same bytes read or written. -/
def AlikeMoved (x y : Connection × Bytes) : Prop := AlikeConn x.1 y.1 ∧ x.2 = y.2

theorem alike_readState (config : ServerConfig) (curTs : Int) (ans : SysAnswers)
    (h : AlikeConn c d) :
    Agree AlikeMoved (connectionHandleReadState config curTs ans c)
      (connectionHandleReadState config curTs ans d) := by
  have hreadable : c.readable = d.readable := by
    cases h with
    | mk => rfl
  have hstamped : AlikeConn { c with activeReadTs := curTs } { d with activeReadTs := curTs } := by
    cases h with
    | mk place fd startTs closeTimeoutTs readqueue writequeue closing read write =>
      exact .mk _ place fd startTs closeTimeoutTs readqueue writequeue closing read write
  rw [connectionHandleReadState, connectionHandleReadState]
  by_cases hquiet : c.readable = false
  · rw [if_pos hquiet, if_pos (hreadable ▸ hquiet)]
    exact ⟨h, rfl⟩
  · rw [if_neg hquiet, if_neg (hreadable ▸ hquiet)]
    refine agree_bind (alike_handleRead ans hstamped) ?_
    rintro ⟨code, x, bytes⟩ ⟨_, y, _⟩ ⟨rfl, hconn, rfl⟩
    dsimp only at hconn ⊢
    have set : ∀ (state : ConnectionState) (timeout : Int),
        AlikeConn { x with state := state, closeTimeoutTs := timeout }
          { y with state := state, closeTimeoutTs := timeout } := by
      intro state timeout
      cases hconn with
      | mk place fd startTs closeTimeoutTs readqueue writequeue closing read write =>
        exact .mk _ place fd startTs timeout readqueue writequeue (fun _ => rfl) read write
    split
    · refine ⟨?_, rfl⟩
      cases hconn with
      | mk place fd startTs closeTimeoutTs readqueue writequeue closing read write =>
        exact .mk _ place fd startTs closeTimeoutTs readqueue writequeue
          (fun h => by cases h) read write
    · split
      · exact ⟨hconn, rfl⟩
      · split
        · exact ⟨set .close _, rfl⟩
        · refine agree_bind (alike_examine config hconn) ?_
          intro x' y' hexamined
          exact ⟨hexamined, rfl⟩

theorem alike_writeState (curTs : Int) (ans : SysAnswers) (h : AlikeConn c d) :
    Agree AlikeMoved (connectionHandleWriteState curTs ans c)
      (connectionHandleWriteState curTs ans d) := by
  cases h with
  | mk place fd startTs closeTimeoutTs readqueue writequeue closing read write =>
    simp only [connectionHandleWriteState]
    split
    · exact ⟨.mk _ place fd startTs closeTimeoutTs readqueue writequeue closing read write, rfl⟩
    · refine agree_bind (alike_write write ans) ?_
      rintro ⟨code, q, sent⟩ ⟨_, p, _⟩ ⟨rfl, hqueue, rfl⟩
      dsimp only at hqueue ⊢
      split
      · refine ⟨.mk _ place fd startTs closeTimeoutTs readqueue p ?_ read hqueue, rfl⟩
        dsimp only
        split
        · exact fun h => by cases h
        · exact closing
      · split
        · exact ⟨.mk _ place fd startTs closeTimeoutTs readqueue p closing read hqueue, rfl⟩
        · split
          · exact ⟨.mk _ place fd startTs closeTimeoutTs readqueue p closing read hqueue, rfl⟩
          · exact ⟨.mk _ place fd startTs closeTimeoutTs readqueue p (fun h => by cases h)
              read hqueue, rfl⟩

/-- A reset leaves nothing but what is alike already. -/
lemma alike_connectionReset (h : AlikeConn c d) :
    AlikeConn (connectionReset c) (connectionReset d) := by
  cases h with
  | mk place fd startTs closeTimeoutTs readqueue writequeue closing read write =>
    exact .mk _ place fd startTs closeTimeoutTs _ _ closing (alike_reset read.left read.right)
      (alike_reset write.left write.right)

section
variable {config : ServerConfig} {ans : SysAnswers}

lemma AlikeConn.started (h : AlikeConn c d) (now : Int) :
    AlikeConn { c with startTs := now, activeReadTs := now, state := .read }
      { d with startTs := now, activeReadTs := now, state := .read } := by
  cases h with
  | mk place fd startTs closeTimeoutTs readqueue writequeue closing read write =>
    exact .mk _ place fd now closeTimeoutTs readqueue writequeue (fun h => by cases h) read write

lemma alongside_requestEnd (h : Alongside before before' m n) :
    Agree (Alongside before before') (handleRequestEnd config m) (handleRequestEnd config n) := by
  have hclear : AlikeConn (clearRequest m.conn) (clearRequest n.conn) :=
    h.conn.change clearRequest (fun _ _ _ _ _ _ _ => rfl) ⟨rfl, rfl⟩ (fun hclose => ⟨hclose, rfl⟩)
  simp only [handleRequestEnd, ← hclear.request_eq]
  refine agree_bind (alike_parse config hclear) ?_
  rintro ⟨code, x⟩ ⟨_, y⟩ ⟨rfl, hparsed⟩
  exact h.advance (hparsed.setState ConnectionState.noConfusion) _

lemma alongside_handleRequest (h : Alongside before before' m n) :
    Agree (Alongside before before') (handleHandleRequest config ans m)
      (handleHandleRequest config ans n) := by
  simp only [handleHandleRequest]
  refine agree_bind (alike_handle config ans (alike_setResponse h.conn responseInitialize)) ?_
  rintro ⟨code, x, events⟩ ⟨_, y, _⟩ ⟨rfl, hhandled, rfl⟩
  refine h.advance (AlikeConn.setState hhandled ?_) _
  exact ConnectionState.noConfusion

lemma alongside_responseStart (h : Alongside before before' m n) :
    Agree (Alongside before before') (handleResponseStart config ans m)
      (handleResponseStart config ans n) := by
  simp only [handleResponseStart]
  refine agree_bind (alike_prepare config ans h.conn) ?_
  intro x y hprepared
  refine ⟨h.clock, hprepared.setState ConnectionState.noConfusion, h.trace.append ?_⟩
  rw [hprepared.status_eq, hprepared.segments_eq]

lemma alongside_responseEnd (h : Alongside before before' m n) :
    Alongside before before' (handleResponseEnd ans m) (handleResponseEnd ans n) := by
  have hkeep : m.conn.keepAlive = n.conn.keepAlive :=
    h.conn.same Connection.keepAlive (fun _ _ _ _ _ _ _ => rfl)
  rw [handleResponseEnd, handleResponseEnd, ← hkeep, ← h.clock]
  split
  · exact h.advance (alike_connectionReset (h.conn.setState ConnectionState.noConfusion)) []
  · exact h.advance (alike_connectionReset (h.conn.setClosing .close _)) [.shutdown]

lemma alongside_read (h : Alongside before before' m n) :
    Agree (Alongside before before')
      (do
        let (conn, bytes) ← connectionHandleReadState config m.curTs ans m.conn
        return m.advance conn (readEvents bytes))
      (do
        let (conn, bytes) ← connectionHandleReadState config n.curTs ans n.conn
        return n.advance conn (readEvents bytes)) := by
  rw [← h.clock]
  refine agree_bind (alike_readState config m.curTs ans h.conn) ?_
  rintro ⟨x, bytes⟩ ⟨y, _⟩ ⟨hread, rfl⟩
  exact h.advance hread _

lemma alongside_write (h : Alongside before before' m n) :
    Agree (Alongside before before') (handleWrite ans m) (handleWrite ans n) := by
  have hfinished : m.conn.httpResponseBodyFinished = n.conn.httpResponseBodyFinished :=
    h.conn.same Connection.httpResponseBodyFinished (fun _ _ _ _ _ _ _ => rfl)
  rw [handleWrite, handleWrite, ← h.conn.length_eq, ← h.clock, ← hfinished]
  split
  · refine agree_bind (alike_writeState m.curTs ans h.conn) ?_
    rintro ⟨x, bytes⟩ ⟨y, _⟩ ⟨hwrite, rfl⟩
    exact h.advance hwrite _
  · split
    · exact h.advance (h.conn.setState ConnectionState.noConfusion) []
    · exact h

lemma alongside_error (h : Alongside before before' m n) :
    Alongside before before' (handleError ans m) (handleError ans n) := by
  have hclosing := h.conn.setClosing .close (closeTimeout m.curTs ans.shutdown)
  rw [handleError, handleError, ← h.clock]
  exact h.advance (alike_connectionReset (hclosing.change (fun c => { c with keepAlive := false })
    (fun _ _ _ _ _ _ _ => rfl) ⟨rfl, rfl⟩ (fun hclose => ⟨hclose, rfl⟩))) [.shutdown]

lemma AlikeConn.timeout_eq (h : AlikeConn c d) (state : c.state = .close) :
    c.closeTimeoutTs = d.closeTimeoutTs := by
  cases h with
  | mk place fd startTs closeTimeoutTs readqueue writequeue closing read write =>
    exact closing state

lemma AlikeConn.closed (h : AlikeConn c d) :
    AlikeConn { c with connSocketFd := -1, state := .connect }
      { d with connSocketFd := -1, state := .connect } := by
  cases h with
  | mk place fd startTs closeTimeoutTs readqueue writequeue closing read write =>
    exact .mk _ place (-1) startTs closeTimeoutTs readqueue writequeue (fun h => by cases h)
      read write

/-- Both descriptors are registered, so both connections can be closed. -/
lemma alongside_closed {ctx ctx' : FdEvents.HandlerCtx} {events events' : EventMask}
    (h : Alongside before before' m n)
    (left : Registration.Watched m.ev m.conn.connSocketFd ctx events)
    (right : Registration.Watched n.ev n.conn.connSocketFd ctx' events') :
    Agree (Alongside before before') (connectionClose m) (connectionClose n) := by
  obtain ⟨ev, hclose, _⟩ := connectionClose_spec left
  obtain ⟨ev', hclose', _⟩ := connectionClose_spec right
  rw [hclose, hclose']
  exact ⟨h.clock, h.conn.closed, h.trace.append rfl⟩

lemma alongside_close (h : Alongside before before' m n) (state : m.conn.state = .close)
    (left : MachineInv config m) (right : MachineInv config n) :
    Agree (Alongside before before') (handleClose ans m) (handleClose ans n) := by
  have hstate : n.conn.state = .close := h.conn.state_eq ▸ state
  obtain ⟨ctx, events, hwatched⟩ := left.watched (by rw [state]; exact ConnectionState.noConfusion)
  obtain ⟨ctx', events', hwatched'⟩ :=
    right.watched (by rw [hstate]; exact ConnectionState.noConfusion)
  rw [handleClose, handleClose, ← h.clock, ← h.conn.timeout_eq state]
  generalize (if peerGone ans.read = true then m.curTs - (minihttpdCloseTimeout + 1)
    else m.conn.closeTimeoutTs) = timeout
  have hnext := h.advance (h.conn.setTimeout timeout) []
  have hclock : (n.advance { n.conn with closeTimeoutTs := timeout } []).curTs = m.curTs :=
    h.clock.symm
  have hown : (m.advance { m.conn with closeTimeoutTs := timeout } []).curTs = m.curTs := rfl
  simp only [hclock, hown]
  by_cases hlate : m.curTs - timeout > minihttpdCloseTimeout
  · rw [if_pos hlate, if_pos hlate]
    exact alongside_closed hnext hwatched hwatched'
  · rw [if_neg hlate, if_neg hlate]
    exact hnext

/-- A turn keeps two machines alongside each other, or it fails for both alike. -/
theorem alongside_turn (h : Alongside before before' m n) (left : MachineInv config m)
    (right : MachineInv config n) (ans : SysAnswers) :
    Agree (Alongside before before') (connectionIteration config ans m)
      (connectionIteration config ans n) := by
  have hemit := h.emit [.state m.conn.state]
  have hn := h.conn.state_eq.symm
  cases hm : m.conn.state with
  | requestStart =>
    rw [hm] at hn hemit
    simp only [connectionIteration, Machine.emit, hm, hn]
    exact hemit.advance (h.conn.started ans.time) []
  | requestEnd =>
    rw [hm] at hn hemit
    simp only [connectionIteration, Machine.emit, hm, hn]
    exact alongside_requestEnd hemit
  | handleRequest =>
    rw [hm] at hn hemit
    simp only [connectionIteration, Machine.emit, hm, hn]
    exact alongside_handleRequest hemit
  | responseStart =>
    rw [hm] at hn hemit
    simp only [connectionIteration, Machine.emit, hm, hn]
    exact alongside_responseStart hemit
  | responseEnd =>
    rw [hm] at hn hemit
    simp only [connectionIteration, Machine.emit, hm, hn]
    exact alongside_responseEnd hemit
  | read =>
    rw [hm] at hn hemit
    simp only [connectionIteration, Machine.emit, hm, hn]
    exact alongside_read hemit
  | write =>
    rw [hm] at hn hemit
    simp only [connectionIteration, Machine.emit, hm, hn]
    exact alongside_write hemit
  | error =>
    rw [hm] at hn hemit
    simp only [connectionIteration, Machine.emit, hm, hn]
    exact alongside_error hemit
  | close =>
    rw [hm] at hn hemit
    simp only [connectionIteration, Machine.emit, hm, hn]
    have hleft : MachineInv config (m.emit [.state .close]) := ⟨left.conn, left.watched⟩
    have hright : MachineInv config (n.emit [.state .close]) := ⟨right.conn, right.watched⟩
    exact alongside_close hemit hm hleft hright
  | connect =>
    rw [hm] at hn hemit
    simp only [connectionIteration, Machine.emit, hm, hn]
    exact hemit

lemma alongside_loop (answers : Nat → SysAnswers) (fuel turn : Nat)
    (h : Alongside before before' m n) (left : MachineInv config m) (right : MachineInv config n) :
    Agree (Alongside before before') (stateLoop config answers fuel turn m)
      (stateLoop config answers fuel turn n) := by
  induction fuel generalizing turn m n with
  | zero => exact rfl
  | succ fuel ih =>
    rw [stateLoop, stateLoop]
    refine agree_bind_of_ok (alongside_turn h left right (answers turn)) ?_
    intro x y hx hy hnext
    rw [← hnext.conn.state_eq, ← h.conn.state_eq]
    split
    · exact hnext
    · exact ih (turn + 1) hnext (turn_machineInv left hx) (turn_machineInv right hy)

/-- A machine a call has come back from. -/
def Returned (config : ServerConfig) (m : Machine) : Prop :=
  m.conn.state = .connect ∨ Reached config .resting m

/-- Two machines alongside each other, both with their call behind them. -/
structure BothReturned (config : ServerConfig) (before before' : List Event) (m n : Machine) :
    Prop where
  alongside : Alongside before before' m n
  left : Returned config m
  right : Returned config n

/-- The end of a call only changes what a connection waits for. -/
lemma call_end {answers : Nat → SysAnswers} {next : Machine} (reached : Reached config .running m)
    (loop : stateLoop config answers 16 0 m = .ok next) (open_still : next.conn.state ≠ .connect) :
    ∃ rest, updateInterest next = .ok rest ∧ Reached config .resting rest ∧
      rest.conn = next.conn ∧ rest.curTs = next.curTs ∧ rest.trace = next.trace := by
  obtain ⟨p, ans, hp, hturn, hsame⟩ := stateLoop_ends 16 0 reached loop
  obtain ⟨rest, hrest, _, _, hconn, hclock, htrace, _⟩ :=
    settled_rests (reached_inv hp).1 hturn hsame open_still
  exact ⟨rest, hrest, .settled hp hturn hsame open_still hrest, hconn, hclock, htrace⟩

theorem alongside_call (answers : Nat → SysAnswers) (h : Alongside before before' m n)
    (left : Reached config .running m) (right : Reached config .running n) :
    Agree (BothReturned config before before') (connectionStateMachine config answers m)
      (connectionStateMachine config answers n) := by
  rw [connectionStateMachine, connectionStateMachine]
  refine agree_bind_of_ok
    (alongside_loop answers 16 0 h (reached_inv left).1 (reached_inv right).1) ?_
  intro x y hx hy hnext
  have hstate := hnext.conn.state_eq
  by_cases hconnect : x.conn.state = .connect
  · rw [if_pos hconnect, if_pos (hstate ▸ hconnect)]
    exact ⟨hnext, Or.inl hconnect, Or.inl (hstate ▸ hconnect)⟩
  · obtain ⟨rest, hrest, hreached, hconn, hclock, htrace⟩ := call_end left hx hconnect
    obtain ⟨rest', hrest', hreached', hconn', hclock', htrace'⟩ :=
      call_end right hy (hstate ▸ hconnect)
    rw [if_neg hconnect, if_neg (hstate ▸ hconnect), hrest, hrest']
    refine ⟨⟨?_, ?_, ?_⟩, Or.inr hreached, Or.inr hreached'⟩
    · rw [hclock, hclock', hnext.clock]
    · rw [hconn, hconn']
      exact hnext.conn
    · rw [htrace, htrace']
      exact hnext.trace

lemma alike_noteEvents (h : AlikeConn c d) (mask : EventMask) (now : Int) :
    AlikeConn (noteEvents mask now c) (noteEvents mask now d) := by
  have hin : AlikeConn (if mask.epollin then { c with readable := true } else c)
      (if mask.epollin then { d with readable := true } else d) := by
    split
    · exact h.change (fun c => { c with readable := true }) (fun _ _ _ _ _ _ _ => rfl) ⟨rfl, rfl⟩
        (fun hclose => ⟨hclose, rfl⟩)
    · exact h
  simp only [noteEvents]
  generalize (if mask.epollin then { c with readable := true } else c) = c' at hin ⊢
  generalize (if mask.epollin then { d with readable := true } else d) = d' at hin ⊢
  have hout : AlikeConn (if mask.epollout then { c' with writeable := true } else c')
      (if mask.epollout then { d' with writeable := true } else d') := by
    split
    · exact hin.change (fun c => { c with writeable := true }) (fun _ _ _ _ _ _ _ => rfl) ⟨rfl, rfl⟩
        (fun hclose => ⟨hclose, rfl⟩)
    · exact hin
  generalize (if mask.epollout then { c' with writeable := true } else c') = c'' at hout ⊢
  generalize (if mask.epollout then { d' with writeable := true } else d') = d'' at hout ⊢
  split
  · have hstate := hout.state_eq
    by_cases hclose : c''.state = .close
    · rw [if_pos hclose, if_pos (hstate ▸ hclose)]
      exact hout.setTimeout _
    · rw [if_neg hclose, if_neg (hstate ▸ hclose)]
      exact hout.setState ConnectionState.noConfusion
  · split
    · exact hout.setState ConnectionState.noConfusion
    · exact hout

/-- Both are overdue, or neither is. -/
lemma alike_expire (config : ServerConfig) (h : AlikeConn c d) (now : Int) :
    timerExpire config now c = none ∧ timerExpire config now d = none ∨
      ∃ x y, timerExpire config now c = some x ∧ timerExpire config now d = some y ∧
        AlikeConn x y := by
  have herror : AlikeConn { c with state := .error } { d with state := .error } :=
    h.setState ConnectionState.noConfusion
  have hreads : c.state = .read ∧ now - c.activeReadTs > config.maxReadIdleTs ↔
      d.state = .read ∧ now - d.activeReadTs > config.maxReadIdleTs := by
    rw [h.state_eq, h.same Connection.activeReadTs (fun _ _ _ _ _ _ _ => rfl)]
  have hwrites : c.state = .write ∧ c.activeWriteTs ≠ 0 ∧
      now - c.activeWriteTs > config.maxWriteIdleTs ↔ d.state = .write ∧ d.activeWriteTs ≠ 0 ∧
      now - d.activeWriteTs > config.maxWriteIdleTs := by
    rw [h.state_eq, h.same Connection.activeWriteTs (fun _ _ _ _ _ _ _ => rfl)]
  have hcloses : c.state = .close ∧ now - c.closeTimeoutTs > minihttpdCloseTimeout ↔
      d.state = .close ∧ now - d.closeTimeoutTs > minihttpdCloseTimeout := by
    rw [← h.state_eq]
    exact and_congr_right fun hstate => by rw [h.timeout_eq hstate]
  rw [timerExpire, timerExpire]
  by_cases hread : c.state = .read ∧ now - c.activeReadTs > config.maxReadIdleTs
  · rw [if_pos hread, if_pos (hreads.mp hread)]
    exact Or.inr ⟨_, _, rfl, rfl, herror⟩
  · rw [if_neg hread, if_neg (mt hreads.mpr hread)]
    by_cases hwrite : c.state = .write ∧ c.activeWriteTs ≠ 0 ∧
        now - c.activeWriteTs > config.maxWriteIdleTs
    · rw [if_pos hwrite, if_pos (hwrites.mp hwrite)]
      exact Or.inr ⟨_, _, rfl, rfl, herror⟩
    · rw [if_neg hwrite, if_neg (mt hwrites.mpr hwrite)]
      by_cases hclose : c.state = .close ∧ now - c.closeTimeoutTs > minihttpdCloseTimeout
      · rw [if_pos hclose, if_pos (hcloses.mp hclose)]
        exact Or.inr ⟨_, _, rfl, rfl, h⟩
      · rw [if_neg hclose, if_neg (mt hcloses.mpr hclose)]
        exact Or.inl ⟨rfl, rfl⟩

/-- What the worker does to a connection that is still there. -/
def afterwards (config : ServerConfig) (m : Machine) (i : ConnInput) : Except Fault Machine :=
  if m.conn.state = .connect then .ok m else connectionInput config m i

theorem alongside_input (i : ConnInput) (h : BothReturned config before before' m n) :
    Agree (BothReturned config before before') (afterwards config m i) (afterwards config n i) := by
  have hstate := h.alongside.conn.state_eq
  rw [afterwards, afterwards, ← hstate]
  by_cases hconnect : m.conn.state = .connect
  · rw [if_pos hconnect, if_pos hconnect]
    exact h
  · rw [if_neg hconnect, if_neg hconnect]
    have hleft : Reached config .resting m := h.left.resolve_left hconnect
    have hright : Reached config .resting n := h.right.resolve_left (hstate ▸ hconnect)
    cases i with
    | event mask now answers =>
      have hnoted : Alongside before before' { m with conn := noteEvents mask now m.conn }
          { n with conn := noteEvents mask now n.conn } :=
        ⟨h.alongside.clock, alike_noteEvents h.alongside.conn mask now, h.alongside.trace⟩
      exact alongside_call answers hnoted (.event mask now hleft) (.event mask now hright)
    | tick now answers =>
      simp only [connectionInput, ← h.alongside.clock]
      split
      · exact h
      · rcases alike_expire config h.alongside.conn now with ⟨hm, hn⟩ | ⟨x, y, hm, hn, hexpired⟩
        · rw [hm, hn]
          exact ⟨⟨rfl, h.alongside.conn, h.alongside.trace⟩, Or.inr (.clock now hleft),
            Or.inr (.clock now hright)⟩
        · rw [hm, hn]
          exact alongside_call answers ⟨rfl, hexpired, h.alongside.trace⟩
            (.expired (.clock now hleft) hm) (.expired (.clock now hright) hn)

/-- A connection in front of a request: it has just ended a response that it
keeps the connection after, or it is new. -/
inductive Renewed (config : ServerConfig) : Machine → Prop where
  | kept {p m : Machine} {ans : SysAnswers} : Reached config .running p →
      p.conn.state = .responseEnd → p.conn.keepAlive = true →
      connectionIteration config ans p = .ok m → Renewed config m
  | fresh {m : Machine} : Accepted m → Renewed config m

/-- The rest of the call a connection is in, and all that follows it. -/
def followUp (config : ServerConfig) (answers : Nat → SysAnswers) (inputs : List ConnInput)
    (m : Machine) : Except Fault Machine := do
  let rest ← connectionStateMachine config answers m
  inputs.foldlM (afterwards config) rest

/-- Whatever a renewed connection has served, it is a new one but for its place,
its descriptor, two time stamps and its idle chunks. -/
lemma renewed_conn (h : Renewed config m) : Reached config .running m ∧
    ∃ index fd startTs closeTimeoutTs readqueue writequeue,
      m.conn = { connectionSetDefault with
        connectionIndex := index, connSocketFd := fd, startTs := startTs
        closeTimeoutTs := closeTimeoutTs, readqueue := readqueue, writequeue := writequeue } ∧
      (readqueue.active = [] ∧ IdleClean readqueue) ∧
      writequeue.active = [] ∧ IdleClean writequeue := by
  cases h with
  | @kept p m ans reached state keep hturn =>
    have hinv := (reached_inv reached).1.conn
    rw [iteration_responseEnd state, handleResponseEnd] at hturn
    have hkeep : (p.emit [.state .responseEnd]).conn.keepAlive = true := keep
    rw [if_pos hkeep] at hturn
    cases hturn
    have hsame : connectionIteration config ans p = .ok ((p.emit [.state .responseEnd]).advance
        (connectionReset { p.conn with state := .requestStart }) []) := by
      rw [iteration_responseEnd state, handleResponseEnd, if_pos hkeep]
      rfl
    refine ⟨.turn reached hsame ?_, ?_⟩
    · rw [state]
      exact ConnectionState.noConfusion
    · exact ⟨_, _, _, _, _, _, rfl, ⟨rfl, reset_idleClean hinv.idle⟩, rfl,
        reset_idleClean hinv.writequeue.idle⟩
  | fresh haccepted =>
    obtain ⟨index, fd, hconn⟩ := haccepted.conn
    exact ⟨.accepted haccepted, index, fd, 0, 0, chunkqueueInit, chunkqueueInit, hconn,
      ⟨rfl, chunkqueueInit_idleClean⟩, rfl, chunkqueueInit_idleClean⟩

lemma renewed_alike (hm : Renewed config m) (hn : Renewed config n) :
    AlikeConn m.conn n.conn := by
  obtain ⟨_, _, _, _, _, _, _, hconn, ⟨hread, hreadIdle⟩, hwrite, hwriteIdle⟩ := renewed_conn hm
  obtain ⟨_, place, fd, startTs, closeTimeoutTs, readqueue, writequeue, hconn',
    ⟨hread', hreadIdle'⟩, hwrite', hwriteIdle'⟩ := renewed_conn hn
  rw [hconn, hconn']
  exact .mk _ place fd startTs closeTimeoutTs readqueue writequeue
    (fun h => by cases h) ⟨by rw [hread, hread'], hreadIdle, hreadIdle'⟩
    ⟨by rw [hwrite, hwrite'], hwriteIdle, hwriteIdle'⟩

/-- Two connections in front of a request are told apart by nothing that comes
of it, whatever either has served before: with the same answers and inputs they
go through the same states, hand the same heads to the parser, queue and write
the same responses, and end in the same state or with the same fault. -/
theorem keep_alive_isolation (hm : Renewed config m) (hn : Renewed config n)
    (clock : m.curTs = n.curTs) (answers : Nat → SysAnswers) (inputs : List ConnInput) :
    Agree (fun r s => r.conn.state = s.conn.state ∧ SameSince m.trace n.trace r.trace s.trace)
      (followUp config answers inputs m) (followUp config answers inputs n) := by
  have hstart : Alongside m.trace n.trace m n :=
    ⟨clock, renewed_alike hm hn, [], [], (List.append_nil _).symm, (List.append_nil _).symm, rfl⟩
  have hrun : Agree (BothReturned config m.trace n.trace) (followUp config answers inputs m)
      (followUp config answers inputs n) := by
    refine agree_bind (alongside_call answers hstart (renewed_conn hm).1 (renewed_conn hn).1) ?_
    intro r s hreturned
    exact agree_foldlM (fun _ _ i h => alongside_input i h) inputs hreturned
  exact agree_mono hrun fun r s h => ⟨h.alongside.conn.state_eq, h.alongside.trace⟩

end

/-- A request that keeps its connection, and finds no file. -/
def keptAnswers : List SysAnswers :=
  requestAnswers (asciiBytes "GET / HTTP/1.1\r\nHost: a\r\n\r\n") (.fail .enoent) ++
    [SysAnswers.failing, { SysAnswers.failing with write := fun _ => .accept 4096 }]

def keptMachine : Option Machine :=
  (turns setConfigDefault readableMachine keptAnswers).bind fun p =>
    if p.conn.state = .responseEnd ∧ p.conn.keepAlive = true ∧ p.curTs = 0 then
      (connectionIteration setConfigDefault SysAnswers.failing p).toOption
    else none

lemma keptMachine_renewed (h : keptMachine = some m) :
    Renewed setConfigDefault m ∧ m.curTs = 0 := by
  obtain ⟨p, hturns, hend⟩ := Option.bind_eq_some_iff.mp h
  split at hend
  · rename_i hp
    obtain ⟨state, keep, clock⟩ := hp
    have hturn := toOption_eq_some hend
    refine ⟨.kept (reached_turns _ readableMachine_reached hturns) state keep hturn, ?_⟩
    rw [iteration_responseEnd state, handleResponseEnd] at hturn
    have hkeep : (p.emit [.state .responseEnd]).conn.keepAlive = true := keep
    rw [if_pos hkeep] at hturn
    cases hturn
    exact clock
  · cases hend

/-- A further request, and its response. -/
def nextRequest : ConnInput :=
  .event ⟨true, true, false, false, false⟩ 0 fun _ => { SysAnswers.failing with
    read := .data (asciiBytes "GET / HTTP/1.0\r\n\r\n"), write := fun _ => .accept 4096 }

/-- A connection with recycled chunks beside a new one, through a request. -/
theorem keep_alive_isolation_new : ∃ m : Machine, m.conn.writequeue.idle ≠ [] ∧
    Agree (fun r s => r.conn.state = s.conn.state ∧ SameSince m.trace [] r.trace s.trace)
      (followUp setConfigDefault (fun _ => SysAnswers.failing) [nextRequest] m)
      (followUp setConfigDefault (fun _ => SysAnswers.failing) [nextRequest] (newMachine 7)) := by
  have hrun : keptMachine.any (fun m => decide (m.conn.writequeue.idle ≠ [])) = true := by
    decide +kernel
  obtain ⟨m, hkept, hidle⟩ := (Option.any_eq_true _ _).mp hrun
  obtain ⟨hrenewed, hclock⟩ := keptMachine_renewed hkept
  exact ⟨m, of_decide_eq_true hidle,
    keep_alive_isolation hrenewed (.fresh (newMachine_accepted 7)) hclock _ _⟩

end KeepAliveIsolation
