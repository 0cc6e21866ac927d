import Minihttpd.ChunkQueueLaws
import Minihttpd.HttpConnection
import Minihttpd.Library.FailingRun

/-!
# What parsing and handling a request can come to

One inversion for each of `http_reuqest_parse`, `http_request_handle` and
`connection_handle_prepare_response_head`: which fields they write, and with
what. The invariants of the connection are read off from these.
-/
namespace RequestOutcome

open ByteBuffer SystemCalls ChunkQueue ChunkQueueLaws ConnectionTypes HttpRequest HttpResponse
open HttpConnection FailingRun

inductive ParseOutcome (conn : Connection) : Int × Connection → Prop where
  | accepted (r : Request) (keep : Bool) :
      ParseOutcome conn (0, { conn with connectionRequest := r, keepAlive := keep })
  | rejected (r : Request) (status : Nat) : status = 400 ∨ status = 501 →
      ParseOutcome conn
        (-1, { conn with connectionRequest := r, httpStatus := status, keepAlive := false })

/-- The parser may have rewritten the request before it comes to its result. -/
lemma ParseOutcome.ofRequest {conn : Connection} {r : Request} {result : Int × Connection}
    (h : ParseOutcome { conn with connectionRequest := r } result) : ParseOutcome conn result := by
  cases h with
  | accepted r' keep => exact .accepted r' keep
  | rejected r' status hs => exact .rejected r' status hs

lemma finishRequest_outcome (conn : Connection) : ParseOutcome conn (finishRequest conn) := by
  rw [finishRequest]
  by_cases hversion : conn.connectionRequest.httpVersion = .http11
  · simp only [if_pos hversion]
    by_cases hhost : bufferIsEmpty conn.connectionRequest.hostname = true
    · rw [if_pos hhost]
      exact .rejected conn.connectionRequest 400 (Or.inl rfl)
    · rw [if_neg hhost]
      exact .accepted conn.connectionRequest _
  · simp only [if_neg hversion]
    exact .accepted conn.connectionRequest _

lemma parseOptions_outcome (conn : Connection) (content : Bytes) (index : Nat) :
    ParseOutcome conn (parseOptions conn content index) := by
  rw [parseOptions]
  by_cases hurl : bufferIsEmpty conn.connectionRequest.requestUrl = true
  · rw [if_pos hurl]
    exact .rejected conn.connectionRequest 400 (Or.inl rfl)
  · rw [if_neg hurl]
    generalize scanOptions (content.drop index)
      ⟨index, index, 0, true, content, conn.connectionRequest⟩ = scan
    obtain ⟨valid, s⟩ := scan
    cases valid with
    | true => exact (finishRequest_outcome _).ofRequest
    | false => exact .rejected _ 400 (Or.inl rfl)

theorem httpReuqestParse_outcome {config : ServerConfig} {conn : Connection}
    {result : Int × Connection} (h : httpReuqestParse config conn = .ok result) :
    ParseOutcome conn result := by
  rw [httpReuqestParse] at h
  generalize scanRequestLine conn.connectionRequest.requestContent.str 0 0 0 0 0 = line at h
  cases line with
  | extraSpace => exact Except.ok.inj h ▸ .rejected conn.connectionRequest 400 (Or.inl rfl)
  | malformed => exact Except.ok.inj h ▸ .rejected conn.connectionRequest 400 (Or.inl rfl)
  | unfinished => exact Except.ok.inj h ▸ parseOptions_outcome conn _ _
  | found method url proto index =>
    simp only [parseRequestLine] at h
    obtain ⟨_, _, h⟩ := bind_eq_ok.mp h
    obtain ⟨methodKey, _, h⟩ := bind_eq_ok.mp h
    by_cases hmethod : methodKey ≠ .get ∧ methodKey ≠ .post
    · rw [if_pos hmethod] at h
      exact Except.ok.inj h ▸ .rejected _ 501 (Or.inr rfl)
    · rw [if_neg hmethod] at h
      obtain ⟨httpMethod, _, h⟩ := bind_eq_ok.mp h
      split at h
      · exact Except.ok.inj h ▸ .rejected _ 400 (Or.inl rfl)
      · exact Except.ok.inj h ▸ (parseOptions_outcome _ _ _).ofRequest

/-- The path `http_request_handle` builds, as the system calls see it. -/
def requestPath (config : ServerConfig) (conn : Connection) : Bytes :=
  cString (atFullpath config conn).connectionResponse.fullpath.data

/-- The connection after a file or a listing has been queued. -/
def served (conn : Connection) (contentType : Buffer) (writequeue : Chunkqueue) : Connection :=
  { conn with
    connectionResponse := { conn.connectionResponse with contentType := contentType }
    writequeue := writequeue, httpResponseBodyFinished := true, httpStatus := 200 }

/-- What can come of a request whose status is `conn.httpStatus` so far. -/
inductive HandleOutcome (config : ServerConfig) (ans : SysAnswers) (conn : Connection) :
    Connection → List Event → Prop where
  | answered : conn.httpStatus ≠ 0 → conn.httpStatus ≠ 200 → HandleOutcome config ans conn conn []
  | refused (status : Nat) : status = 403 ∨ status = 404 ∨ status = 500 →
      HandleOutcome config ans conn (refusePath (atFullpath config conn) status)
        [.stat (requestPath config conn)]
  | file (s : Stat) (contentType : Buffer) (writequeue : Chunkqueue) :
      ans.stat = .found s → s.kind = .regular →
      chunkqueueAppendFile conn.writequeue
        (atFullpath config conn).connectionResponse.fullpath 0 (u32 s.size) = .ok writequeue →
      contentType = (match lookupMimeType config.table
          (atFullpath config conn).connectionResponse.fullpath with
        | none => conn.connectionResponse.contentType
        | some mimeType => bufferCopyString conn.connectionResponse.contentType mimeType) →
      HandleOutcome config ans conn (served (atFullpath config conn) contentType writequeue)
        [.stat (requestPath config conn)]
  | listing (b : Buffer) (events : List Event) (writequeue : Chunkqueue) :
      httpHandleDirectoryParse ans (atFullpath config conn)
        (atFullpath config conn).connectionResponse.fullpath = .ok (b, events) →
      chunkqueueAppendBuffer conn.writequeue b = .ok writequeue →
      HandleOutcome config ans conn (served (atFullpath config conn)
          (bufferCopyString conn.connectionResponse.contentType (asciiBytes "text/html"))
          writequeue)
        (.stat (requestPath config conn) :: events)

lemma statusOfErrno_cases (errno : Errno) :
    statusOfErrno errno = 403 ∨ statusOfErrno errno = 404 ∨ statusOfErrno errno = 500 := by
  cases errno <;> simp [statusOfErrno]

theorem httpRequestHandle_outcome {config : ServerConfig} {ans : SysAnswers}
    {conn after : Connection} {code : Int} {events : List Event}
    (h : httpRequestHandle config ans conn = .ok (code, after, events)) :
    HandleOutcome config ans conn after events := by
  rw [httpRequestHandle] at h
  by_cases hstatus : conn.httpStatus ≠ 0 ∧ conn.httpStatus ≠ 200
  · rw [if_pos hstatus] at h
    cases h
    exact .answered hstatus.1 hstatus.2
  · rw [if_neg hstatus] at h
    by_cases hnull : conn.connectionRequest.requestUrl.isNull = true
    · rw [if_pos hnull] at h
      cases h
    · rw [if_neg hnull] at h
      obtain ⟨_, hbuilt, h⟩ := bind_eq_ok.mp h
      cases withFullpath_ok hbuilt
      cases hstat : ans.stat with
      | fail errno =>
        simp only [hstat] at h
        cases h
        exact .refused _ (statusOfErrno_cases errno)
      | found s =>
        simp only [hstat] at h
        cases hkind : s.kind with
        | regular =>
          simp only [hkind, serveFile] at h
          obtain ⟨served, hserved, h⟩ := bind_eq_ok.mp h
          obtain ⟨writequeue, hqueue, heq⟩ := bind_eq_ok.mp hserved
          cases heq
          cases h
          exact .file s _ writequeue hstat hkind hqueue rfl
        | directory =>
          simp only [hkind, serveDirectory] at h
          obtain ⟨served, hserved, h⟩ := bind_eq_ok.mp h
          obtain ⟨parsed, hparsed, hrest⟩ := bind_eq_ok.mp hserved
          obtain ⟨writequeue, hqueue, heq⟩ := bind_eq_ok.mp hrest
          cases heq
          cases h
          exact .listing parsed.1 parsed.2 writequeue hparsed hqueue
        | other =>
          simp only [hkind] at h
          cases h
          exact .refused 403 (Or.inl rfl)

/-- The entries of a directory are looked at, and nothing else. -/
lemma listEntries_events {ans : SysAnswers} {requestUrl directoryPath : Buffer}
    (entries : List Dirent) {b after : Buffer} {events : List Event}
    (h : listEntries ans requestUrl directoryPath entries b = .ok (after, events)) :
    ∃ paths, events = List.map Event.statEntry paths := by
  induction entries generalizing b after events with
  | nil =>
    cases h
    exact ⟨[], rfl⟩
  | cons entry rest ih =>
    rw [listEntries] at h
    by_cases hdot : entry.name = asciiBytes "."
    · rw [if_pos hdot] at h
      exact ih h
    · rw [if_neg hdot] at h
      -- an entry that cannot be looked at has no line, but is asked about all the same
      obtain ⟨path, _, h⟩ := bind_eq_ok.mp h
      obtain ⟨page, _, h⟩ := bind_eq_ok.mp h
      obtain ⟨⟨last, more⟩, hrest, heq⟩ := bind_eq_ok.mp h
      cases heq
      obtain ⟨paths, rfl⟩ := ih hrest
      exact ⟨cString path.data :: paths, rfl⟩

lemma directoryParse_events {ans : SysAnswers} {conn : Connection} {directoryPath b : Buffer}
    {events : List Event} (h : httpHandleDirectoryParse ans conn directoryPath = .ok (b, events)) :
    ∃ paths, events = .opendir (cString directoryPath.data) :: List.map Event.statEntry paths := by
  rw [httpHandleDirectoryParse] at h
  by_cases hempty : bufferIsEmpty directoryPath = true
  · rw [if_pos hempty] at h
    cases h
  · rw [if_neg hempty] at h
    obtain ⟨_, _, h⟩ := bind_eq_ok.mp h
    obtain ⟨_, _, h⟩ := bind_eq_ok.mp h
    obtain ⟨_, _, h⟩ := bind_eq_ok.mp h
    obtain ⟨_, _, h⟩ := bind_eq_ok.mp h
    obtain ⟨_, _, h⟩ := bind_eq_ok.mp h
    obtain ⟨_, _, h⟩ := bind_eq_ok.mp h
    obtain ⟨_, _, h⟩ := bind_eq_ok.mp h
    obtain ⟨⟨listed, more⟩, hlisted, h⟩ := bind_eq_ok.mp h
    obtain ⟨_, _, h⟩ := bind_eq_ok.mp h
    cases h
    rw [readDirectory] at hlisted
    split at hlisted
    · cases hlisted
      exact ⟨[], rfl⟩
    · obtain ⟨paths, rfl⟩ := listEntries_events _ hlisted
      exact ⟨paths, rfl⟩

/-- All that is seen of handling a request are the paths it asks about. -/
lemma handle_paths {config : ServerConfig} {ans : SysAnswers} {conn after : Connection}
    {events : List Event} (h : HandleOutcome config ans conn after events) :
    ∀ e ∈ events, ∃ path, e = .stat path ∨ e = .opendir path ∨ e = .statEntry path := by
  intro e he
  cases h with
  | answered => cases he
  | refused => exact ⟨_, Or.inl (List.mem_singleton.mp he)⟩
  | file => exact ⟨_, Or.inl (List.mem_singleton.mp he)⟩
  | listing b events writequeue hparsed =>
    obtain ⟨paths, rfl⟩ := directoryParse_events hparsed
    rcases List.mem_cons.mp he with rfl | he
    · exact ⟨_, Or.inl rfl⟩
    · rcases List.mem_cons.mp he with rfl | he
      · exact ⟨_, Or.inr (Or.inl rfl)⟩
      · obtain ⟨path, _, rfl⟩ := List.mem_map.mp he
        exact ⟨path, Or.inr (Or.inr rfl)⟩

/-- The statuses of the program's error answers. -/
def errorStatuses : List Nat := [400, 403, 404, 414, 500, 501]

lemma status_listed {status : Nat} (h : status = 200 ∨ status ∈ errorStatuses) :
    ∃ text, queryHttpStatusString status = some text := by
  have table : ∀ s ∈ 200 :: errorStatuses, (queryHttpStatusString s).isSome = true := by decide
  apply Option.isSome_iff_exists.mp
  apply table
  rcases h with rfl | h
  · exact List.mem_cons_self
  · exact List.mem_cons_of_mem _ h

lemma errorStatus_range {status : Nat} (h : status ∈ errorStatuses) :
    400 ≤ status ∧ status < 600 := by
  have range : ∀ s ∈ errorStatuses, 400 ≤ s ∧ s < 600 := by decide
  exact range status h

/-- The error page of a status as it is put into the queue. -/
def errorPage (status : Nat) (text : String) : Buffer :=
  appendedAll bufferInit (httpErrorPage status text)

/-- The connection after the switch on its status. -/
inductive BodyOutcome (conn : Connection) : Connection → Prop where
  | kept : conn.httpStatus = 200 → BodyOutcome conn conn
  | page (text : String) (writequeue : Chunkqueue) : conn.httpStatus ∈ errorStatuses →
      queryHttpStatusString conn.httpStatus = some text →
      chunkqueueAppendBuffer conn.writequeue (errorPage conn.httpStatus text) = .ok writequeue →
      BodyOutcome conn { conn with
        writequeue := writequeue
        httpResponseBodyFinished := true
        connectionResponse := { conn.connectionResponse with
          contentType := bufferCopyString conn.connectionResponse.contentType
            (asciiBytes "text/html") } }

lemma customizeBody_outcome {conn after : Connection}
    (status : conn.httpStatus = 200 ∨ conn.httpStatus ∈ errorStatuses)
    (h : customizeBody conn = .ok after) : BodyOutcome conn after := by
  rw [customizeBody] at h
  rcases status with hok | herror
  · rw [if_neg (by omega), if_pos (by omega)] at h
    cases h
    exact .kept hok
  · have hrange := errorStatus_range herror
    rw [if_neg (by omega), if_neg (by omega), appendErrorPage] at h
    cases htext : queryHttpStatusString conn.httpStatus with
    | none =>
      rw [htext] at h
      cases h
    | some text =>
      simp only [htext] at h
      obtain ⟨_, hpage, h⟩ := bind_eq_ok.mp h
      obtain ⟨writequeue, hqueue, heq⟩ := bind_eq_ok.mp h
      cases bufferAppendStrings_ok hpage
      cases heq
      exact .page text writequeue herror htext hqueue

/-- The response head as it is put into the queue. -/
def responseHead (config : ServerConfig) (ans : SysAnswers) (conn : Connection) (text : String) :
    Buffer :=
  appendedAll bufferInit (responseHeadParts config ans conn text)

lemma setContentLength_status (conn : Connection) :
    (setContentLength conn).httpStatus = conn.httpStatus := by
  rw [setContentLength]
  split <;> rfl

lemma setContentLength_writequeue (conn : Connection) :
    (setContentLength conn).writequeue = conn.writequeue := by
  rw [setContentLength]
  split <;> rfl

lemma BodyOutcome.status_eq {conn after : Connection} (h : BodyOutcome conn after) :
    after.httpStatus = conn.httpStatus := by
  cases h <;> rfl

/-- The body is settled first, then its length, then the head goes in front. -/
theorem prepareResponseHead_outcome {config : ServerConfig} {ans : SysAnswers}
    {conn after : Connection}
    (status : conn.httpStatus = 200 ∨ conn.httpStatus ∈ errorStatuses)
    (h : connectionHandlePrepareResponseHead config ans conn = .ok after) :
    ∃ mid text writequeue, BodyOutcome conn mid ∧
      queryHttpStatusString conn.httpStatus = some text ∧
      chunkqueuePrependBuffer mid.writequeue
        (responseHead config ans (setContentLength mid) text) = .ok writequeue ∧
      after = { setContentLength mid with writequeue := writequeue } := by
  have hnonzero : ¬ conn.httpStatus = 0 := by
    rcases status with hok | herror
    · omega
    · have := errorStatus_range herror
      omega
  simp only [connectionHandlePrepareResponseHead, if_neg hnonzero] at h
  obtain ⟨mid, hmid, h⟩ := bind_eq_ok.mp h
  have hbody := customizeBody_outcome status hmid
  obtain ⟨text, htext⟩ := status_listed status
  have hstatus : (setContentLength mid).httpStatus = conn.httpStatus := by
    rw [setContentLength_status, hbody.status_eq]
  simp only [connectionWriteResponseHead, hstatus, htext] at h
  obtain ⟨_, hhead, h⟩ := bind_eq_ok.mp h
  cases bufferAppendStrings_ok hhead
  obtain ⟨writequeue, hqueue, heq⟩ := bind_eq_ok.mp h
  cases heq
  rw [setContentLength_writequeue] at hqueue
  refine ⟨mid, text, writequeue, hbody, htext, hqueue, ?_⟩
  rw [← hstatus]

end RequestOutcome
