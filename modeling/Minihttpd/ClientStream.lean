import Minihttpd.Persistence
import Minihttpd.RequestStream
import Minihttpd.ResponseStream
import Minihttpd.SystemParts
import Minihttpd.Library.MessageStream

/-!
# What the clients read

A client reads a head up to its first CRLFCRLF, and as many bytes behind it as
the Content-Length line says. So it takes the stream of a connection apart into
the responses that were queued, one for each request, whatever else the worker
and the other processes do.
-/
namespace ClientStream

open ByteBuffer SystemCalls FdEvents ChunkQueue ChunkQueueLaws ConnectionTypes HttpResponse
open HttpConnection StateMachine HttpWorker ReadQueue WriteQueue RequestOutcome
open ConnectionInvariant Turns ConnectionRuns AnsweredRuns ResponseFraming Persistence
open RequestStream ResponseStream WorkerTable HandlerActs
open WorkerConnections ServerSystem ConnectionLedger SystemParts Framing MessageStream FailingRun

/-- A response as a client reads it: its head and its body. -/
def message (file : Bytes → Nat → UInt8) (segments : List Segment) : Bytes × Bytes :=
  (headOf segments, responseBytes file segments.tail)

/-- What is queued as a response is a head and a body that go together. -/
structure FramedResponse (file : Bytes → Nat → UInt8) (segments : List Segment) : Prop where
  whole : responseBytes file segments = (message file segments).1 ++ (message file segments).2
  framed : (message file segments).2.length < 2147483648 →
    Framed (message file segments).1 (message file segments).2

section Runs
variable {config : ServerConfig} {ans : SysAnswers} {file : Bytes → Nat → UInt8}
variable {phase : Phase} {m next : Machine}

lemma prepared_framed (reached : Reached config .running m) (state : m.conn.state = .responseStart)
    (service : OneLine config.serviceName) (mime : ∀ e ∈ config.table, OneLine e.mimeType)
    (turn : connectionIteration config ans m = .ok next) : ∃ segments,
      responded next.trace = responded m.trace ++ [segments] ∧ FramedResponse file segments := by
  have hinv := (reached_inv reached).1.conn
  have hphase := hinv.phase
  rw [StateInv, state] at hphase
  obtain ⟨mid, text, c, hqueued⟩ := head_queued reached state turn
  obtain ⟨hok, hwhole, _⟩ := bodyOutcome_spec hinv.writequeue hphase hqueued.body
  obtain ⟨head, body, hactive, hframes⟩ := response_frames reached state service mime turn
  obtain ⟨rfl, rfl⟩ := List.cons.inj (hqueued.active.symm.trans hactive)
  have hbody : unsent file mid.writequeue.active =
      responseBytes file (mid.writequeue.active.map chunkSegment) :=
    unsent_segments file hok.chunks hwhole
  have hsegment : chunkSegment c = .memory (chunkString c) := by
    simp only [chunkSegment, hqueued.mem, chunkString_eq hqueued.terminated]
  refine ⟨next.conn.writequeue.active.map chunkSegment, ?_, ?_, ?_⟩
  · rw [hqueued.trace, responded_append, responded_append]
    exact congrArg (· ++ _) (List.append_nil _)
  · rw [hactive, List.map_cons, hsegment]
    rfl
  · intro hsmall
    rw [hactive, List.map_cons, hsegment] at hsmall ⊢
    change (responseBytes file (mid.writequeue.active.map chunkSegment)).length < _ at hsmall
    rw [← hbody] at hsmall
    have hframed := (hframes file hsmall).2
    rw [hbody] at hframed
    exact hframed

/-- Only `CON_STATE_RESPONSE_START` queues a response. -/
lemma turn_responded (other : m.conn.state ≠ .responseStart) (turn : Turn config ans m next) :
    responded next.trace = responded m.trace := by
  cases turn with
  | handled _ _ _ houtcome => exact idle_responded (handle_idle houtcome)
  | prepared _ _ _ hstate => exact absurd hstate other
  | read _ bytes => exact idle_responded (readEvents_idle bytes)
  | wrote _ bytes =>
    change responded (m.trace ++ writeEvents bytes) = _
    rw [responded_append, writeEvents_responded, List.append_nil]
  | ended =>
    rw [handleResponseEnd]
    split
    · exact idle_responded ⟨rfl, rfl⟩
    · exact idle_responded ⟨rfl, rfl⟩
  | gone => rfl
  | _ => exact idle_responded ⟨rfl, rfl⟩

lemma iteration_framed (reached : Reached config .running m)
    (service : OneLine config.serviceName) (mime : ∀ e ∈ config.table, OneLine e.mimeType)
    (before : ∀ segments ∈ responded m.trace, FramedResponse file segments)
    (turn : connectionIteration config ans m = .ok next) :
    ∀ segments ∈ responded next.trace, FramedResponse file segments := by
  by_cases hstate : m.conn.state = .responseStart
  · obtain ⟨segments, hsegments, hframed⟩ :=
      @prepared_framed config ans file m next reached hstate service mime turn
    intro other hmem
    rw [hsegments] at hmem
    rcases List.mem_append.mp hmem with hold | hnew
    · exact before other hold
    · rw [List.mem_singleton.mp hnew]
      exact hframed
  · have hturn := turn_cases (reached_inv reached).1.conn turn
    have hsame : responded next.trace = responded m.trace :=
      (turn_responded (m := Machine.emit _ _) hstate hturn).trans (idle_responded ⟨rfl, rfl⟩)
    rw [hsame]
    exact before

theorem reached_framed (reached : Reached config phase m) (service : OneLine config.serviceName)
    (mime : ∀ e ∈ config.table, OneLine e.mimeType) :
    ∀ segments ∈ responded m.trace, FramedResponse file segments := by
  induction reached with
  | accepted haccepted =>
    rw [haccepted.trace]
    exact fun _ hmem => absurd hmem List.not_mem_nil
  | turn hbefore hturn _ ih => exact iteration_framed hbefore service mime ih hturn
  | settled hbefore hturn _ _ hupdate ih =>
    obtain ⟨_, _, htrace⟩ := updateInterest_same hupdate
    rw [htrace]
    exact iteration_framed hbefore service mime ih hturn
  | event _ _ _ ih => exact ih
  | clock _ _ ih => exact ih
  | expired _ _ ih => exact ih

end Runs

/-- What a client has read of the stream, and what it keeps for the next message. -/
def clientReads (stream : Bytes) : List (Bytes × Bytes) × Bytes :=
  readStream (readHeadBody lengthName) stream

/-- The bodies are such that a client can tell where they end, and no response
is so long that its length wraps. -/
def Bodied (file : Bytes → Nat → UInt8) (trace : List Event) : Prop :=
  ∀ segments ∈ responded trace, (message file segments).2 ≠ [] ∧
    (message file segments).2.length < 2147483648 ∧
    (responseBytes file segments).length < 4294967296

/-- `rest` is what has come of the first of the responses `later`, and not all of it. -/
def Outstanding (file : Bytes → Nat → UInt8) (later : List (List Segment)) (rest : Bytes) : Prop :=
  match later with
  | [] => rest = []
  | next :: _ => rest <+: responseBytes file next ∧ rest ≠ responseBytes file next

section Client
variable {file : Bytes → Nat → UInt8} {trace : List Event}

lemma responseBytes_length (segments : List Segment) :
    (responseBytes file segments).length = (segments.map segmentLength).sum := by
  rw [responseBytes, List.length_flatMap]
  congr 1
  apply List.map_congr_left
  intro s _
  cases s with
  | memory bytes => rfl
  | file path offset length => exact fileBytes_length file path offset length

lemma bodied_counted (bodied : Bodied file trace) : Counted trace := by
  intro segments hmem
  have hlength := (bodied segments hmem).2.2
  rw [responseBytes_length] at hlength
  exact Nat.ne_of_lt hlength

lemma responses_delimited (framed : ∀ segments ∈ responded trace, FramedResponse file segments)
    (bodied : Bodied file trace) :
    ∀ m ∈ (responded trace).map fun segments =>
        (message file segments, responseBytes file segments),
      Delimits (readHeadBody lengthName) m.1 m.2 := by
  intro m hm
  obtain ⟨segments, hmem, rfl⟩ := List.mem_map.mp hm
  obtain ⟨hwhole, hframed⟩ := framed segments hmem
  obtain ⟨hsome, hsmall, _⟩ := bodied segments hmem
  have hresponse := hframed hsmall
  rw [hwhole]
  exact headBody_delimits hresponse.ending (hresponse.client hsome)

lemma respondedBytes_flatten : respondedBytes file trace = (((responded trace).map fun segments =>
    (message file segments, responseBytes file segments)).map Prod.snd).flatten := by
  rw [respondedBytes, List.flatMap, List.map_map]
  rfl

theorem client_reads (framed : ∀ segments ∈ responded trace, FramedResponse file segments)
    (bodied : Bodied file trace) (ordered : sentBytes trace <+: respondedBytes file trace) :
    ∃ done later, responded trace = done ++ later ∧
      (clientReads (sentBytes trace)).1 = done.map (message file) ∧
      Outstanding file later (clientReads (sentBytes trace)).2 := by
  rw [respondedBytes_flatten] at ordered
  obtain ⟨done, later, hsplit, hread, hrest⟩ :=
    readStream_prefix (readHeadBody_nil lengthName) (responses_delimited framed bodied) ordered
  obtain ⟨done, later, hresponded, rfl, rfl⟩ := List.map_eq_append_iff.mp hsplit
  refine ⟨done, later, hresponded, ?_, ?_⟩
  · rw [clientReads, hread, List.map_map]
    rfl
  · rcases hrest with ⟨hnil, hrest⟩ | ⟨next, rest, hnext, hpart, hne⟩
    · rw [List.map_eq_nil_iff.mp hnil]
      exact hrest
    · obtain ⟨segments, rest, rfl, rfl, _⟩ := List.map_eq_cons_iff.mp hnext
      exact ⟨hpart, hne⟩

/-- When all is sent, all is read. -/
theorem client_reads_all (framed : ∀ segments ∈ responded trace, FramedResponse file segments)
    (bodied : Bodied file trace) (all : respondedBytes file trace = sentBytes trace) :
    clientReads (sentBytes trace) = ((responded trace).map (message file), []) := by
  have hread := readStream_messages (readHeadBody_nil lengthName)
    (responses_delimited framed bodied) (readHeadBody_nil lengthName)
  rw [← respondedBytes_flatten, List.append_nil, all, List.map_map] at hread
  exact hread

end Client

/-- Where the client of a connection stands: it has read the responses in the
order in which they were queued, and keeps a part of the next one. When the
connection waits for a request, there is one message for each request that was
parsed; when it is closed without having failed, nothing is missing. -/
structure Served (file : Bytes → Nat → UInt8) (state : ConnectionState) (trace : List Event) :
    Prop where
  order : ∃ done later, responded trace = done ++ later ∧
    (clientReads (sentBytes trace)).1 = done.map (message file) ∧
    Outstanding file later (clientReads (sentBytes trace)).2
  waiting : state = .read → (clientReads (sentBytes trace)).1.length = (parsed trace).length ∧
    clientReads (sentBytes trace) = ((responded trace).map (message file), [])
  closed : state = .close ∨ state = .connect → Event.state .error ∉ trace →
    clientReads (sentBytes trace) = ((responded trace).map (message file), [])

/-- A head is one response for each head. -/
lemma answered_responded {trace : List Event} {heads : List Bytes}
    (h : exchanged trace = answered heads) : (responded trace).length = heads.length := by
  have hnone : ∀ trace : List Event,
      (responded trace).length = (exchanged trace).countP Option.isNone := by
    intro trace
    induction trace with
    | nil => rfl
    | cons e rest ih =>
      cases e with
      | respond status segments =>
        change (responded rest).length + 1 = (none :: exchanged rest).countP Option.isNone
        rw [List.countP_cons_of_pos rfl, ih]
      | parse content =>
        change (responded rest).length = (some content :: exchanged rest).countP Option.isNone
        rw [List.countP_cons_of_neg Bool.false_ne_true, ih]
      | _ => exact ih
  rw [hnone, h]
  clear h hnone
  induction heads with
  | nil => rfl
  | cons head rest ih =>
    change (some head :: none :: answered rest).countP Option.isNone = rest.length + 1
    rw [List.countP_cons_of_neg Bool.false_ne_true, List.countP_cons_of_pos rfl, ih]

theorem reached_served {config : ServerConfig} {file : Bytes → Nat → UInt8} {phase : Phase}
    {m : Machine} (service : OneLine config.serviceName)
    (mime : ∀ e ∈ config.table, OneLine e.mimeType)
    (reached : ReachedIn config (fun ans => ans.file = file) phase m)
    (bodied : Bodied file m.trace) : Served file m.conn.state m.trace := by
  have hframed := @reached_framed config file phase m reached.reached service mime
  have hdelivery := reached_delivery reached (bodied_counted bodied)
  have hall := client_reads_all hframed bodied
  refine ⟨client_reads hframed bodied hdelivery.ordered, fun hread => ?_, fun hclosed => ?_⟩
  · rw [Delivery] at hdelivery
    simp only [hread] at hdelivery
    have hledger := reached_ledger reached.reached
    rw [Ledger] at hledger
    simp only [hread] at hledger
    have hanswers := hledger.answers
    rw [List.append_nil] at hanswers
    refine ⟨?_, hall hdelivery⟩
    rw [hall hdelivery, List.length_map]
    exact answered_responded hanswers
  · intro hnone
    rw [Delivery] at hdelivery
    rcases hclosed with hstate | hstate
    · simp only [hstate] at hdelivery
      exact hall (hdelivery.2 hnone)
    · simp only [hstate] at hdelivery
      exact hall (hdelivery.2 hnone)

/-- A connection that is gone has been through `CON_STATE_CONNECT`. -/
lemma over_served {config : ServerConfig} {file : Bytes → Nat → UInt8} {trace : List Event}
    (service : OneLine config.serviceName) (mime : ∀ e ∈ config.table, OneLine e.mimeType)
    (ended : RunOver config (fun ans => ans.file = file) trace) (bodied : Bodied file trace) :
    Served file .connect trace := by
  obtain ⟨p, hreached, hstate, rfl⟩ := ended
  have hsent : sentBytes (p.trace ++ [.state .connect]) = sentBytes p.trace :=
    idle_sent ⟨rfl, rfl⟩
  have hresponded : responded (p.trace ++ [.state .connect]) = responded p.trace :=
    idle_responded ⟨rfl, rfl⟩
  rw [Bodied, hresponded] at bodied
  obtain ⟨horder, _, hclosed⟩ := reached_served service mime hreached bodied
  rw [hstate] at hclosed
  constructor
  · rw [hsent, hresponded]
    exact horder
  · exact fun h => absurd h ConnectionState.noConfusion
  · intro _ hnone
    rw [hsent, hresponded]
    exact hclosed (Or.inr rfl) fun hmem => hnone (List.mem_append_left _ hmem)

/-- The clients of the server read their responses. In every run of the system
in which the files stay as they are, with all processes and signals interleaved
in any way, what a worker has sent on a connection is read by its client as the
responses that were queued on this connection, whole and in order, up to the
one that is being sent. While the connection waits for a request, its client
has read one response for each request that was parsed, and when it has been
closed without a failure, every response. -/
theorem clients_served {config : ServerConfig} {file : Bytes → Nat → UInt8} {start s : System}
    (begun : Begun start) (service : (13 : UInt8) ∉ config.serviceName)
    (mime : ∀ e ∈ config.table, (13 : UInt8) ∉ e.mimeType)
    (runs : Runs config (fun ans => ans.file = file) start s) {i : Nat}
    (worker : i < s.main.child.length) (running : (s.worker i).exited = false) (a : Nat)
    (bodied : Bodied file (traceOf (s.worker i).log a)) :
    Served file (((s.worker i).worker.heap a).elim .connect Connection.state)
      (traceOf (s.worker i).log a) := by
  have service : OneLine config.serviceName := ⟨service, config.nameLine⟩
  have mime : ∀ e ∈ config.table, OneLine e.mimeType :=
    fun e he => ⟨mime e he, config.mimeLines e he⟩
  obtain ⟨hviews, htable⟩ := running_views begun runs worker running
  cases hconn : (s.worker i).worker.heap a with
  | some conn =>
    obtain ⟨_, _, n, hreached, rfl, _, htrace⟩ := hviews.lives htable hconn
    rw [← htrace] at bodied ⊢
    exact reached_served service mime hreached bodied
  | none =>
    by_cases hold : a < (s.worker i).worker.nextAddress
    · rcases hviews.known a hold with ⟨_, _, hheap, _⟩ | hgone
      · rw [hconn] at hheap
        cases hheap
      · exact over_served service mime hgone.2 bodied
    · have hnone := (hviews.unknown a (Nat.le_of_not_lt hold)).2
      rw [hnone]
      exact ⟨⟨[], [], rfl, rfl, rfl⟩, fun h => absurd h ConnectionState.noConfusion,
        fun _ _ => rfl⟩

/-- A request on the first connection, and its response. -/
def firstExchange : HandlerCall :=
  .connection 0 ⟨true, true, false, false, false⟩ 0 fun k =>
    (exchangeAnswers sampleRequest (.fail .enoent)).getD k SysAnswers.failing

/-- The first exchange of worker 0 can be called, and is that of one request. -/
def exchanges (w next : Worker) : Bool :=
  match handlerCall setConfigDefault next firstExchange with
  | .error _ => false
  | .ok after =>
    let trace := traceOf (handlerLog setConfigDefault w firstCall ++
      handlerLog setConfigDefault next firstExchange) 0
    decide ((next.ev.handlerArray 5).map Fdnode.ctx = some (.connection 0) ∧
      parsed trace = [sampleRequest] ∧ (after.heap 0).map Connection.state = some .read ∧
      ∀ segments ∈ responded trace, (message noFile segments).2 ≠ [] ∧
        (message noFile segments).2.length < 2147483648 ∧
        (responseBytes noFile segments).length < 4294967296)

/-- The client of the first connection reads one response to its one request. -/
theorem clients_served_first : ∃ s : System,
    parsed (traceOf (s.worker 0).log 0) = [sampleRequest] ∧
    (clientReads (sentBytes (traceOf (s.worker 0).log 0))).1.length = 1 := by
  obtain ⟨w, next, s, hw, hnext, hrun, hfirst, hlog⟩ :=
    @first_connection (fun ans => ans.file = noFile) rfl
  have hcheck : (workerStart 16 ctlSucceeds 4 3 4 0).toOption.any (fun w =>
      (handlerCall setConfigDefault w firstCall).toOption.any (exchanges w)) = true := by
    decide +kernel
  rw [hw] at hcheck
  simp only [Except.toOption, Option.any_some, hnext] at hcheck
  rw [exchanges] at hcheck
  cases hafter : handlerCall setConfigDefault next firstExchange with
  | error e =>
    rw [hafter] at hcheck
    cases hcheck
  | ok after =>
    rw [hafter] at hcheck
    obtain ⟨hnode, hparsed, hstate, hbodied⟩ := of_decide_eq_true hcheck
    have hadmitted : Admitted (fun ans => ans.file = noFile) firstExchange := by
      refine @admitted_getD (fun ans => ans.file = noFile) _ ?_ rfl
      simp [exchangeAnswers, requestAnswers, SysAnswers.failing]
      rfl
    obtain ⟨last, hstep, _, hworker⟩ := first_handled hrun hfirst hnode hadmitted hafter
    change last.worker 0 = (s.worker 0).handled setConfigDefault firstExchange after at hworker
    have htrace : traceOf (last.worker 0).log 0 = traceOf
        (handlerLog setConfigDefault w firstCall ++
          handlerLog setConfigDefault next firstExchange) 0 := by
      rw [hworker, WorkerProcess.handled, hlog, hfirst.worker]
    have hworkers : 0 < last.main.child.length := by
      rw [runs_length hstep]
      exact Nat.zero_lt_two
    have hrunning : (last.worker 0).exited = false := by
      rw [hworker]
      exact hfirst.running
    have hserved := clients_served (serverOf_begun hw) (by decide) (by decide) hstep
      hworkers hrunning 0 (by rw [htrace]; exact hbodied)
    have hreading : ((last.worker 0).worker.heap 0).elim .connect Connection.state = .read := by
      obtain ⟨conn, hconn, hread⟩ := Option.map_eq_some_iff.mp hstate
      rw [hworker, WorkerProcess.handled, hconn]
      exact hread
    rw [htrace] at hserved
    refine ⟨last, htrace ▸ hparsed, ?_⟩
    rw [htrace, (hserved.waiting hreading).1, hparsed]
    rfl

end ClientStream
