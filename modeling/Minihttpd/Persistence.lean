import Minihttpd.RequestStream
import Minihttpd.ResponseFraming

/-!
# Advertised persistence

What a client makes of the status line and the Connection field of a response,
and what the connection does behind that response. A head that is refused is
answered with `Connection: close`, and nothing is parsed after it.
-/
namespace Persistence

open ByteBuffer SystemCalls FdEvents ChunkQueue ConnectionTypes HttpRequest HttpResponse
open HttpConnection StateMachine ReadQueue WriteQueue RequestOutcome ConnectionInvariant Turns
open ConnectionRuns Framing ResponseFraming RequestStream FailingRun

def connectionName : Bytes := asciiBytes "connection"

/-- The options a head has under Connection, in lower case. -/
def connectionOptions (head : Bytes) : List Bytes :=
  (fieldLines connectionName head).map fun line => (fieldValue line).map lowerByte

/-- A client of HTTP/1.1 takes a connection for persistent unless it is told
otherwise, and one of HTTP/1.0 only when it is told so. -/
def persists (head : Bytes) : Bool :=
  if head.take 8 = asciiBytes "HTTP/1.1" then
    !(connectionOptions head).contains (asciiBytes "close")
  else (connectionOptions head).contains (asciiBytes "keep-alive")

def headOf : List Segment → Bytes
  | .memory bytes :: _ => bytes
  | _ => []

/-- The heads of the responses in a trace. -/
def heads (trace : List Event) : List Bytes :=
  trace.filterMap fun
    | .respond _ segments => some (headOf segments)
    | _ => none

lemma heads_append (a b : List Event) : heads (a ++ b) = heads a ++ heads b :=
  List.filterMap_append

lemma typeText_noLf {config : ServerConfig} {contentType : Buffer}
    (h : ServedType config contentType) : (10 : UInt8) ∉ typeText contentType := by
  rcases typeText_source h with h | h | ⟨e, he, h⟩
  · rw [h]
    decide
  · exact fun hmem => absurd (h.mem hmem) (by decide)
  · exact fun hmem => config.mimeLines e he (h.mem hmem)

lemma connectionField_named (conn : Connection) :
    (connectionField conn).filter (hasName connectionName) = connectionField conn := by
  rw [List.filter_eq_self, connectionField]
  intro line hline
  split at hline
  · rw [List.mem_singleton.mp hline]
    exact (hasName_append (asciiBytes "Connection") (by decide) connectionName
      (32 :: if conn.keepAlive then asciiBytes "keep-alive" else asciiBytes "close")).trans
      (by decide)
  · cases hline

lemma lengthField_other (contentLength : Nat) :
    (lengthField contentLength).filter (hasName connectionName) = [] := by
  rw [List.filter_eq_nil_iff, lengthField]
  intro line hline
  split at hline
  · rw [List.mem_singleton.mp hline, lengthLine, hasName_append _ (by decide)]
    decide
  · cases hline

/-- The Connection lines of a head are those it was given. -/
theorem head_connectionField {config : ServerConfig} {conn : Connection} {statusText : String}
    (ans : SysAnswers) (text : (10 : UInt8) ∉ asciiBytes statusText)
    (type : ServedType config conn.connectionResponse.contentType) :
    fieldLines connectionName (responseHeadParts config ans conn statusText).flatten =
      connectionField conn := by
  rw [head_fieldLines ans text (typeText_noLf type) (by decide) (by decide),
    connectionField_named, lengthField_other, closingFields_other (by decide), List.append_nil,
    List.append_nil]

/-- Whatever the version, a head says what `keep_alive` is. -/
structure Announces (head : Bytes) (keepAlive : Bool) : Prop where
  persists : persists head = keepAlive
  close : keepAlive = false →
    fieldLines connectionName head = [asciiBytes "Connection: " ++ asciiBytes "close"]

theorem head_announces {config : ServerConfig} {conn : Connection} {statusText : String}
    (ans : SysAnswers) (text : (10 : UInt8) ∉ asciiBytes statusText)
    (type : ServedType config conn.connectionResponse.contentType) :
    Announces (responseHeadParts config ans conn statusText).flatten conn.keepAlive := by
  have hfield := head_connectionField ans text type
  have hversion : (responseHeadParts config ans conn statusText).flatten.take 8 =
      if conn.connectionRequest.httpVersion = .http11 then asciiBytes "HTTP/1.1"
      else asciiBytes "HTTP/1.0" := by
    rw [responseHeadParts]
    split <;> rfl
  constructor
  · rw [persists, hversion, connectionOptions, hfield, connectionField]
    by_cases h11 : conn.connectionRequest.httpVersion = .http11
    · rw [if_pos h11, if_pos rfl]
      cases hkeep : conn.keepAlive with
      | true =>
        rw [if_neg (by simp [h11])]
        rfl
      | false =>
        rw [if_pos (Or.inr rfl)]
        decide
    · rw [if_neg h11, if_neg (by decide), if_pos (Or.inl h11)]
      cases conn.keepAlive <;> decide
  · intro hclose
    rw [hfield, connectionField, if_pos (Or.inr hclose), hclose]
    rfl

/-- A response is announced when it starts, by what `keep_alive` is then. -/
lemma prepared_announces {config : ServerConfig} {m next : Machine} {ans : SysAnswers}
    (reached : Reached config .running m) (hstate : m.conn.state = .responseStart)
    (turn : connectionIteration config ans m = .ok next) :
    next.conn.keepAlive = m.conn.keepAlive ∧
      ∃ head, heads next.trace = heads m.trace ++ [head] ∧ Announces head m.conn.keepAlive := by
  obtain ⟨mid, text, c, hqueued⟩ := head_queued reached hstate turn
  have hkeep := body_keepAlive hqueued.body
  obtain ⟨htext, _⟩ :=
    statusText_plain (responseStart_listed (reached_inv reached).1.conn hstate) hqueued.status
  have hhead : headOf (next.conn.writequeue.active.map chunkSegment) =
      (responseHeadParts config ans (setContentLength mid) text).flatten := by
    rw [hqueued.active, List.map_cons, chunkSegment, hqueued.mem, ← hqueued.text,
      chunkString_eq hqueued.terminated]
    rfl
  refine ⟨hqueued.keepAlive.trans hkeep, _, ?_, hkeep ▸ head_announces ans htext.noLf hqueued.type⟩
  rw [hqueued.trace, heads_append, heads_append, ← hhead]
  simp only [heads, List.filterMap_cons, List.filterMap_nil, List.append_nil]

/-- While a response is sent, the last head says what will be done behind it. -/
def Advertised (m : Machine) : Prop :=
  m.conn.state = .write ∨ m.conn.state = .responseEnd →
    ∃ head, (heads m.trace).getLast? = some head ∧ Announces head m.conn.keepAlive

lemma heads_emit (m : Machine) (s : ConnectionState) :
    heads (m.emit [.state s]).trace = heads m.trace := by
  rw [Machine.emit, heads_append]
  exact List.append_nil _

lemma heads_writeEvents (bytes : Bytes) : heads (writeEvents bytes) = [] := by
  rw [writeEvents]
  split <;> rfl

lemma turn_advertised {config : ServerConfig} {ans : SysAnswers} {m next : Machine}
    (reached : Reached config .running m) (before : Advertised m)
    (h : connectionIteration config ans m = .ok next) : Advertised next := by
  have hprepared := fun hstate => prepared_announces reached hstate h
  have hbefore : Advertised (m.emit [.state m.conn.state]) := by
    intro hstate
    rw [heads_emit]
    exact before hstate
  have hturn := turn_cases (reached_inv reached).1.conn h
  -- a turn that sends none of a new head keeps to the last one
  have keeps : ∀ (conn : Connection) (events : List Event), heads events = [] →
      conn.keepAlive = m.conn.keepAlive → m.conn.state = .write →
      Advertised ((m.emit [.state m.conn.state]).advance conn events) := by
    intro conn events hnone hkeep hwrite _
    obtain ⟨head, hlast, hannounces⟩ := hbefore (Or.inl hwrite)
    refine ⟨head, ?_, ?_⟩
    · rw [Machine.advance, heads_append, hnone, List.append_nil]
      exact hlast
    · rw [Machine.advance, hkeep]
      exact hannounces
  have elsewhere : ∀ s : ConnectionState, next.conn.state = s → s ≠ .write → s ≠ .responseEnd →
      Advertised next := by
    rintro s rfl hwrite hend (h | h)
    · exact absurd h hwrite
    · exact absurd h hend
  cases hturn with
  | started => exact elsewhere .read rfl (by decide) (by decide)
  | parsed => exact elsewhere .handleRequest rfl (by decide) (by decide)
  | handled => exact elsewhere .responseStart rfl (by decide) (by decide)
  | prepared mid text writequeue hstate =>
    obtain ⟨hkeep, head, hheads, hannounces⟩ := hprepared hstate
    intro _
    exact ⟨head, by rw [hheads, List.getLast?_concat], hkeep ▸ hannounces⟩
  | read after bytes hstate _ hread =>
    have hnot : after.state ≠ .write ∧ after.state ≠ .responseEnd := by
      have hsame : m.conn.state ≠ .write ∧ m.conn.state ≠ .responseEnd := by
        change m.conn.state = .read at hstate
        rw [hstate]
        decide
      cases hread with
      | skipped => exact hsame
      | nothing _ step => exact step.state ▸ hsame
      | failed => exact ⟨ConnectionState.noConfusion, ConnectionState.noConfusion⟩
      | endOfFile => exact ⟨ConnectionState.noConfusion, ConnectionState.noConfusion⟩
      | got mid _ step _ _ hexamine =>
        cases hexamine with
        | complete => exact ⟨ConnectionState.noConfusion, ConnectionState.noConfusion⟩
        | tooLong => exact ⟨ConnectionState.noConfusion, ConnectionState.noConfusion⟩
        | waiting => exact step.state ▸ hsame
    exact elsewhere _ rfl hnot.1 hnot.2
  | wrote after bytes hstate _ _ hwrite =>
    refine keeps after _ (heads_writeEvents bytes) ?_ hstate
    cases hwrite <;> rfl
  | finished hstate => exact keeps _ _ rfl rfl hstate
  | ended =>
    rw [handleResponseEnd]
    split
    · exact fun h => h.elim ConnectionState.noConfusion ConnectionState.noConfusion
    · exact fun h => h.elim ConnectionState.noConfusion ConnectionState.noConfusion
  | failed => exact fun h => h.elim ConnectionState.noConfusion ConnectionState.noConfusion
  | lingers ts hstate => exact elsewhere .close hstate (by decide) (by decide)
  | closed => exact elsewhere .connect rfl (by decide) (by decide)
  | gone hstate => exact elsewhere .connect hstate (by decide) (by decide)

theorem reached_advertised {config : ServerConfig} {phase : Phase} {m : Machine}
    (h : Reached config phase m) : Advertised m := by
  induction h with
  | accepted haccepted =>
    obtain ⟨index, fd, hconn⟩ := haccepted.conn
    rw [Advertised, hconn]
    rintro (h | h) <;> cases h
  | turn hbefore hturn _ ih => exact turn_advertised hbefore ih hturn
  | settled hbefore hturn same open_still hupdate ih =>
    obtain ⟨rest, hrest, _, _, hconn, _, htrace, _⟩ :=
      settled_rests (reached_inv hbefore).1 hturn same open_still
    rw [hupdate] at hrest
    cases hrest
    rw [Advertised, hconn, htrace]
    exact turn_advertised hbefore ih hturn
  | @event m mask now _ ih =>
    obtain ⟨readable, writeable, heq | heq | ⟨_, heq⟩⟩ := noteEvents_cases mask now m.conn
    · rw [heq]
      exact ih
    · rw [heq]
      rintro (h | h) <;> cases h
    · rw [heq]
      exact ih
  | clock now _ ih => exact ih
  | expired _ hexpire ih =>
    rcases timerExpire_cases hexpire with rfl | ⟨_, rfl⟩
    · rintro (h | h) <;> cases h
    · exact ih

/-- The two results of the parser. -/
inductive Verdict : Int × Connection → Prop where
  | served (conn : Connection) : conn.httpStatus = 0 → Verdict (0, conn)
  | refused (conn : Connection) : conn.httpStatus = 400 ∨ conn.httpStatus = 501 →
      conn.keepAlive = false → Verdict (-1, conn)

theorem parse_verdict {config : ServerConfig} {conn : Connection} {result : Int × Connection}
    (h : httpReuqestParse config (clearRequest conn) = .ok result) : Verdict result := by
  cases httpReuqestParse_outcome h with
  | accepted => exact .served _ rfl
  | rejected r status hs => exact .refused _ hs rfl

/-- A turn that refuses a head, for what is in it or for its size. -/
inductive Refuses (config : ServerConfig) (m next : Machine) : Prop where
  | parser (ans : SysAnswers) (conn : Connection) : m.conn.state = .requestEnd →
      httpReuqestParse config (clearRequest m.conn) = .ok (-1, conn) →
      connectionIteration config ans m = .ok next → Refuses config m next
  | size (ans : SysAnswers) : m.conn.state = .read → next.conn.httpStatus = 414 →
      connectionIteration config ans m = .ok next → Refuses config m next

/-- A connection on its way to be closed, with a refused request or without one. -/
def Closing (conn : Connection) : Prop :=
  match conn.state with
  | .handleRequest => conn.keepAlive = false
  | .responseStart => conn.keepAlive = false
  | .write => conn.keepAlive = false
  | .responseEnd => conn.keepAlive = false
  | .error => True
  | .close => True
  | .connect => True
  | _ => False

/-- Between two machines nothing was parsed, and whatever was answered was
answered with `Connection: close`. -/
structure OnlyCloses (start m : Machine) : Prop where
  closing : Closing m.conn
  silence : ∃ events, m.trace = start.trace ++ events ∧ parsed events = [] ∧
    ∀ head ∈ heads events, Announces head false

lemma OnlyCloses.step {start m next : Machine} {events : List Event} (h : OnlyCloses start m)
    (closing : Closing next.conn) (trace : next.trace = m.trace ++ events)
    (quiet : parsed events = []) (announced : ∀ head ∈ heads events, Announces head false) :
    OnlyCloses start next := by
  obtain ⟨before, htrace, hparsed, hheads⟩ := h.silence
  refine ⟨closing, before ++ events, ?_, ?_, ?_⟩
  · rw [trace, htrace, List.append_assoc]
  · rw [parsed_append, hparsed, quiet]
    rfl
  · intro head hmem
    rw [heads_append] at hmem
    exact (List.mem_append.mp hmem).elim (hheads head) (announced head)

lemma heads_handled {config : ServerConfig} {ans : SysAnswers} {conn after : Connection}
    {events : List Event} (h : HandleOutcome config ans conn after events) : heads events = [] := by
  rw [heads, List.filterMap_eq_nil_iff]
  intro e he
  obtain ⟨path, rfl | rfl | rfl⟩ := handle_paths h e he <;> rfl

lemma turn_onlyCloses {config : ServerConfig} {ans : SysAnswers} {start m next : Machine}
    (reached : Reached config .running m) (before : OnlyCloses start m)
    (h : connectionIteration config ans m = .ok next) : OnlyCloses start next := by
  have hprepared := fun hstate => prepared_announces reached hstate h
  have hclosing := before.closing
  rw [Closing] at hclosing
  have noted : OnlyCloses start (m.emit [.state m.conn.state]) :=
    before.step before.closing rfl rfl (fun head hmem => absurd hmem List.not_mem_nil)
  have hturn := turn_cases (reached_inv reached).1.conn h
  -- all but the start of a response leave the heads as they are
  have quiet : ∀ (conn : Connection) (events : List Event), Closing conn → parsed events = [] →
      heads events = [] → OnlyCloses start ((m.emit [.state m.conn.state]).advance conn events) := by
    intro conn events hconn hparsed hheads
    refine noted.step hconn rfl hparsed (fun head hmem => ?_)
    rw [hheads] at hmem
    exact absurd hmem List.not_mem_nil
  cases hturn with
  | started hstate =>
    change m.conn.state = _ at hstate
    simp only [hstate] at hclosing
  | parsed result hstate =>
    change m.conn.state = _ at hstate
    simp only [hstate] at hclosing
  | read after bytes hstate =>
    change m.conn.state = _ at hstate
    simp only [hstate] at hclosing
  | handled after events hstate houtcome =>
    change m.conn.state = _ at hstate
    simp only [hstate] at hclosing
    exact quiet _ events ((handle_keepAlive houtcome).trans hclosing)
      (handle_silent houtcome).2.1 (heads_handled houtcome)
  | prepared mid text writequeue hstate =>
    obtain ⟨hkeep, head, hheads, hannounces⟩ := hprepared hstate
    change m.conn.state = _ at hstate
    simp only [hstate] at hclosing
    rw [hclosing] at hkeep hannounces
    refine noted.step hkeep rfl rfl (fun other hmem => ?_)
    rw [Machine.advance, heads_append, heads_emit] at hheads
    rw [List.append_cancel_left hheads] at hmem
    rw [List.mem_singleton.mp hmem]
    exact hannounces
  | wrote after bytes hstate _ _ hwrite =>
    change m.conn.state = _ at hstate
    simp only [hstate] at hclosing
    refine quiet after _ ?_ (writeEvents_silent bytes).2.1 (heads_writeEvents bytes)
    rw [Closing]
    cases hwrite with
    | skipped => simpa only [Machine.emit, hstate] using hclosing
    | done =>
      have hphase := (reached_inv reached).1.conn.phase
      rw [StateInv, hstate] at hphase
      have hfinished : (m.emit [.state m.conn.state]).conn.httpResponseBodyFinished = true :=
        hphase.finished
      simp only [if_pos hfinished]
      exact hclosing
    | waiting => simpa only [Machine.emit, hstate] using hclosing
    | failed => trivial
  | finished hstate =>
    change m.conn.state = _ at hstate
    simp only [hstate] at hclosing
    exact quiet _ _ hclosing rfl rfl
  | ended hstate =>
    change m.conn.state = _ at hstate
    simp only [hstate] at hclosing
    have hkeep : ¬ (m.emit [.state m.conn.state]).conn.keepAlive = true :=
      ne_true_of_eq_false hclosing
    rw [handleResponseEnd, if_neg hkeep]
    exact quiet _ _ trivial rfl rfl
  | failed => exact quiet _ _ trivial rfl rfl
  | lingers ts hstate =>
    refine quiet _ _ ?_ rfl rfl
    rw [Closing]
    simp only [hstate]
  | closed =>
    exact noted.step trivial rfl rfl (fun head hmem => absurd hmem List.not_mem_nil)
  | gone => exact noted

theorem onward_onlyCloses {config : ServerConfig} {start m : Machine} {phase : Phase}
    (reached : Reached config .running start) (closing : Closing start.conn)
    (h : Onward config start phase m) : OnlyCloses start m := by
  induction h with
  | here =>
    exact ⟨closing, [], (List.append_nil _).symm, rfl, fun head hmem => absurd hmem List.not_mem_nil⟩
  | turn hbefore hturn _ ih => exact turn_onlyCloses (hbefore.reached reached) ih hturn
  | settled hbefore hturn same open_still hupdate ih =>
    have hinv := (reached_inv (hbefore.reached reached)).1
    obtain ⟨rest, hrest, _, _, hconn, _, htrace, _⟩ := settled_rests hinv hturn same open_still
    rw [hupdate] at hrest
    cases hrest
    have hnext := turn_onlyCloses (hbefore.reached reached) ih hturn
    constructor
    · rw [hconn]
      exact hnext.closing
    · rw [htrace]
      exact hnext.silence
  | @event m mask now _ ih =>
    refine ⟨?_, ih.silence⟩
    obtain ⟨readable, writeable, heq | heq | ⟨_, heq⟩⟩ := noteEvents_cases mask now m.conn
    · rw [heq]
      exact ih.closing
    · rw [heq]
      trivial
    · rw [heq]
      exact ih.closing
  | clock now _ ih => exact ⟨ih.closing, ih.silence⟩
  | expired _ hexpire ih =>
    refine ⟨?_, ih.silence⟩
    rcases timerExpire_cases hexpire with rfl | ⟨_, rfl⟩
    · trivial
    · exact ih.closing

lemma refuses_spec {config : ServerConfig} {m next : Machine}
    (reached : Reached config .running m) (h : Refuses config m next) :
    Reached config .running next ∧ next.conn.state = .handleRequest ∧
      next.conn.keepAlive = false ∧ next.conn.httpStatus ∈ errorStatuses := by
  have hinv := (reached_inv reached).1.conn
  cases h with
  | parser ans conn hstate hparse hturn =>
    have hrun : handleRequestEnd config (m.emit [.state m.conn.state]) = .ok next := by
      simpa only [connectionIteration, Machine.emit, hstate] using hturn
    obtain ⟨result, hresult, heq⟩ := bind_eq_ok.mp hrun
    have hsame : result = (-1, conn) := Except.ok.inj (hresult.symm.trans hparse)
    cases hsame
    cases heq
    cases parse_verdict hparse with
    | refused _ hstatus hkeep =>
      refine ⟨.turn reached hturn ?_, rfl, hkeep, ?_⟩
      · rw [hstate]
        exact ConnectionState.noConfusion
      · change conn.httpStatus ∈ errorStatuses
        rcases hstatus with h | h <;> rw [h] <;> decide
  | size ans hstate h414 hturn =>
    have hphase := hinv.phase
    rw [StateInv, hstate] at hphase
    have hzero : ¬ m.conn.httpStatus = 414 := by
      rw [hphase.1.status]
      decide
    obtain ⟨after, bytes, hread, rfl⟩ := read_cases hinv hstate hturn
    change after.httpStatus = 414 at h414
    have hsame : ∀ mid, ReadStep m.curTs ans m.conn mid → ¬ mid.httpStatus = 414 := by
      intro mid step
      rw [step.fields]
      exact hzero
    cases hread with
    | skipped => exact absurd h414 hzero
    | nothing _ step => exact absurd h414 (hsame _ step)
    | failed mid step => exact absurd h414 (hsame mid step)
    | endOfFile mid step => exact absurd h414 (hsame mid step)
    | got mid _ step _ _ hexamine =>
      cases hexamine with
      | complete => exact absurd h414 (hsame mid step)
      | tooLong =>
        have hlisted : 414 ∈ errorStatuses := by decide
        refine ⟨.turn reached hturn ?_, rfl, rfl, hlisted⟩
        rw [hstate]
        exact ConnectionState.noConfusion
      | waiting => exact absurd h414 (hsame _ step)

/-- The answer to a refused head starts, and says that the connection closes. -/
lemma refused_answered {config : ServerConfig} {m : Machine} (ans ans' : SysAnswers)
    (reached : Reached config .running m) (hstate : m.conn.state = .handleRequest)
    (hkeep : m.conn.keepAlive = false) (hstatus : m.conn.httpStatus ∈ errorStatuses) :
    ∃ mid next head, connectionIteration config ans m = .ok mid ∧
      connectionIteration config ans' mid = .ok next ∧ next.conn.state = .write ∧
      heads next.trace = heads m.trace ++ [head] ∧ Announces head false := by
  have hrange := errorStatus_range hstatus
  have hguard : m.conn.httpStatus ≠ 0 ∧ m.conn.httpStatus ≠ 200 := by omega
  have hfirst : connectionIteration config ans m = .ok ((m.emit [.state .handleRequest]).advance
      { m.conn with connectionResponse := responseInitialize, state := .responseStart } []) := by
    simp only [connectionIteration, Machine.emit, hstate, handleHandleRequest, httpRequestHandle,
      if_pos hguard]
    rfl
  have hmid := Reached.turn reached hfirst (by rw [hstate]; exact ConnectionState.noConfusion)
  obtain ⟨next, hnext⟩ := responseStart_returns ans' hmid rfl
  obtain ⟨_, head, hheads, hannounces⟩ := prepared_announces hmid rfl hnext
  have hinv := (reached_inv hmid).1.conn
  have hwrite : next.conn.state = .write := by
    have hrun : handleResponseStart config ans' (Machine.emit _ [.state .responseStart]) =
        .ok next := hnext
    exact (responseStart_inv (m := Machine.emit _ [.state .responseStart]) hinv rfl hrun).2.1
  refine ⟨_, next, head, hfirst, hnext, hwrite, ?_, hkeep ▸ hannounces⟩
  rw [hheads, Machine.advance, heads_append, heads_emit]
  exact congrArg (· ++ [head]) (List.append_nil _)

/-- What a client derives from the head of a response is what the connection
does behind the response. The parser either leaves the status at 0 or refuses
the head with 400 or 501; a head that is refused, for that or for its size, is
answered with `Connection: close`, and no other head is parsed afterwards. -/
theorem persistence_agrees (config : ServerConfig) :
    (∀ m, Reached config .running m → m.conn.state = .responseEnd →
      ∃ head, (heads m.trace).getLast? = some head ∧ ∀ ans, ∃ next,
        connectionIteration config ans m = .ok next ∧
        (persists head = true ↔ next.conn.state = .requestStart)) ∧
    (∀ conn result, httpReuqestParse config (clearRequest conn) = .ok result → Verdict result) ∧
    (∀ m next, Reached config .running m → Refuses config m next →
      (∀ ans ans', ∃ mid last head, connectionIteration config ans next = .ok mid ∧
        connectionIteration config ans' mid = .ok last ∧ last.conn.state = .write ∧
        heads last.trace = heads next.trace ++ [head] ∧ Announces head false) ∧
      ∀ phase r, Onward config next phase r → OnlyCloses next r) := by
  refine ⟨?_, fun conn result h => parse_verdict h, ?_⟩
  · intro m reached hstate
    obtain ⟨head, hlast, hannounces⟩ := reached_advertised reached (Or.inr hstate)
    refine ⟨head, hlast, fun ans => ⟨_, iteration_responseEnd hstate, ?_⟩⟩
    have emitted : (m.emit [.state .responseEnd]).conn.keepAlive = m.conn.keepAlive := rfl
    rw [hannounces.persists, handleResponseEnd, emitted]
    constructor
    · intro hkeep
      rw [if_pos hkeep]
      rfl
    · intro hstart
      by_contra hkeep
      rw [if_neg hkeep] at hstart
      cases hstart
  · intro m next reached refuses
    obtain ⟨hnext, hstate, hkeep, hstatus⟩ := refuses_spec reached refuses
    refine ⟨fun ans ans' => refused_answered ans ans' hnext hstate hkeep hstatus, ?_⟩
    intro phase r honward
    refine onward_onlyCloses hnext ?_ honward
    rw [Closing]
    simp only [hstate]
    exact hkeep

/-- An empty head: it is refused, and the connection closes behind the answer. -/
theorem persistence_agrees_empty_head : ∃ m next : Machine, Refuses setConfigDefault m next ∧
    ∀ phase r, Onward setConfigDefault next phase r → OnlyCloses next r := by
  have hrun : (turns setConfigDefault readableMachine
      [{ SysAnswers.failing with read := .data blankLine }]).any (fun m =>
        decide (m.conn.state = .requestEnd) &&
          (match httpReuqestParse setConfigDefault (clearRequest m.conn) with
            | .ok (code, _) => code == -1
            | .error _ => false) &&
          (turns setConfigDefault m [SysAnswers.failing]).isSome) = true := by
    decide +kernel
  obtain ⟨m, hturns, hm⟩ := (Option.any_eq_true _ _).mp hrun
  simp only [Bool.and_eq_true, decide_eq_true_eq] at hm
  obtain ⟨⟨hstate, hparse⟩, hturn⟩ := hm
  obtain ⟨next, hnext⟩ := Option.isSome_iff_exists.mp hturn
  have reached := reached_turns _ readableMachine_reached hturns
  obtain ⟨conn, hconn⟩ : ∃ conn,
      httpReuqestParse setConfigDefault (clearRequest m.conn) = .ok (-1, conn) := by
    cases hresult : httpReuqestParse setConfigDefault (clearRequest m.conn) with
    | error e =>
      rw [hresult] at hparse
      cases hparse
    | ok result =>
      rw [hresult] at hparse
      exact ⟨result.2, by rw [← beq_iff_eq.mp hparse]⟩
  have hrefuses := Refuses.parser SysAnswers.failing conn hstate hconn (turns_single hnext)
  exact ⟨m, next, hrefuses,
    ((persistence_agrees setConfigDefault).2.2 m next reached hrefuses).2⟩

end Persistence
