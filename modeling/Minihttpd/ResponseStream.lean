import Minihttpd.AnsweredRuns
import Minihttpd.ResponseSent
import Minihttpd.WorkerConnections

/-!
# The stream of responses

What the server sends on a connection is made of whole responses in the order
in which they were queued. Only a connection that has failed ends in front of
the end of a response.
-/
namespace ResponseStream

open ByteBuffer SystemCalls FdEvents ChunkQueue ChunkQueueLaws ConnectionTypes HttpConnection
open StateMachine WriteQueue RequestOutcome ConnectionInvariant Turns ConnectionRuns AnsweredRuns
open ResponseSent WorkerConnections FailingRun

/-- All bytes that were sent. -/
def sentBytes (trace : List Event) : Bytes :=
  trace.flatMap fun
    | .socketWrite bytes => bytes
    | _ => []

/-- The responses, as they were queued. -/
def responded (trace : List Event) : List (List Segment) :=
  trace.filterMap fun
    | .respond _ segments => some segments
    | _ => none

def segmentBytes (file : Bytes → Nat → UInt8) : Segment → Bytes
  | .memory bytes => bytes
  | .file path offset length => fileBytes file path offset length

def responseBytes (file : Bytes → Nat → UInt8) (segments : List Segment) : Bytes :=
  segments.flatMap (segmentBytes file)

/-- The bytes of all responses, one behind the other. -/
def respondedBytes (file : Bytes → Nat → UInt8) (trace : List Event) : Bytes :=
  (responded trace).flatMap (responseBytes file)

/-- What was queued has not the length that `chunkqueue_length` takes for 0. -/
def Counted (trace : List Event) : Prop :=
  ∀ segments ∈ responded trace, (segments.map segmentLength).sum ≠ 4294967296

lemma sentBytes_append (a b : List Event) : sentBytes (a ++ b) = sentBytes a ++ sentBytes b :=
  List.flatMap_append

lemma responded_append (a b : List Event) : responded (a ++ b) = responded a ++ responded b :=
  List.filterMap_append

lemma respondedBytes_append (file : Bytes → Nat → UInt8) (a b : List Event) :
    respondedBytes file (a ++ b) = respondedBytes file a ++ respondedBytes file b := by
  rw [respondedBytes, responded_append]
  exact List.flatMap_append

lemma Counted.before {a b : List Event} (h : Counted (a ++ b)) : Counted a := by
  intro segments hmem
  apply h
  rw [responded_append]
  exact List.mem_append_left _ hmem

lemma sentBytes_write (bytes : Bytes) : sentBytes (writeEvents bytes) = bytes := by
  rw [writeEvents]
  split
  · rename_i hnil
    rw [hnil]
    rfl
  · exact List.append_nil bytes

/-- Nothing is sent, and no response is queued. -/
def Idle (events : List Event) : Prop := sentBytes events = [] ∧ responded events = []

lemma handle_idle {config : ServerConfig} {ans : SysAnswers} {conn after : Connection}
    {events : List Event} (h : HandleOutcome config ans conn after events) : Idle events := by
  have hpaths := handle_paths h
  constructor
  · apply List.flatMap_eq_nil_iff.mpr
    intro e he
    obtain ⟨path, rfl | rfl | rfl⟩ := hpaths e he <;> rfl
  · apply List.filterMap_eq_nil_iff.mpr
    intro e he
    obtain ⟨path, rfl | rfl | rfl⟩ := hpaths e he <;> rfl

lemma readEvents_idle (bytes : Bytes) : Idle (readEvents bytes) := by
  rw [readEvents]
  split <;> exact ⟨rfl, rfl⟩

lemma writeEvents_responded (bytes : Bytes) : responded (writeEvents bytes) = [] := by
  rw [writeEvents]
  split <;> rfl

/-- A chunk that is untouched is unsent as it was queued. -/
lemma unsentChunk_segment (file : Bytes → Nat → UInt8) {c : Chunk} (ok : ChunkOk c)
    (whole : c.chunkOffset = 0) : unsentChunk file c = segmentBytes file (chunkSegment c) := by
  cases hkind : c.chunkType with
  | mem =>
    rw [unsentChunk_whole file hkind whole (ok.mem hkind)]
    simp only [chunkSegment, hkind, segmentBytes]
  | file =>
    simp only [unsentChunk, chunkContent, chunkSegment, hkind, segmentBytes, whole, List.drop_zero]

lemma unsent_segments (file : Bytes → Nat → UInt8) {active : List Chunk}
    (chunks : ∀ c ∈ active, ChunkOk c) (whole : ∀ c ∈ active, c.chunkOffset = 0) :
    unsent file active = responseBytes file (active.map chunkSegment) := by
  rw [unsent, responseBytes, List.flatMap_map, List.flatMap]
  congr 1
  exact List.map_congr_left fun c hc => unsentChunk_segment file (chunks c hc) (whole c hc)

lemma queuedTotal_segments {active : List Chunk} (chunks : ∀ c ∈ active, ChunkOk c) :
    queuedTotal active = ((active.map chunkSegment).map segmentLength).sum := by
  rw [queuedTotal, List.map_map]
  congr 1
  exact List.map_congr_left fun c hc => chunkLength_segment (chunks c hc)

lemma unsent_of_total {file : Bytes → Nat → UInt8} {q : Chunkqueue} (ok : QueueOk q)
    (zero : queuedTotal q.active = 0) : unsent file q.active = [] := by
  apply List.length_eq_zero_iff.mp
  rw [← remainingTotal_eq file ok.chunks]
  exact Nat.eq_zero_of_le_zero (zero ▸ remaining_le_total ok.chunks)

/-- How far the responses are sent: up to what is left in the queue while one is
being written, and as a whole in front of the next request. -/
def Delivery (file : Bytes → Nat → UInt8) (m : Machine) : Prop :=
  match m.conn.state with
  | .write =>
      respondedBytes file m.trace = sentBytes m.trace ++ unsent file m.conn.writequeue.active ∧
      (chunkqueueLength m.conn.writequeue ≠ 0 ∨
        m.conn.writequeue.active.map chunkSegment ∈ responded m.trace)
  | .error => sentBytes m.trace <+: respondedBytes file m.trace
  | .close => sentBytes m.trace <+: respondedBytes file m.trace ∧
      (Event.state .error ∉ m.trace → respondedBytes file m.trace = sentBytes m.trace)
  | .connect => sentBytes m.trace <+: respondedBytes file m.trace ∧
      (Event.state .error ∉ m.trace → respondedBytes file m.trace = sentBytes m.trace)
  | _ => respondedBytes file m.trace = sentBytes m.trace

section Steps
variable {config : ServerConfig} {ans : SysAnswers} {file : Bytes → Nat → UInt8}
variable {m next : Machine}

lemma Delivery.ordered (h : Delivery file m) :
    sentBytes m.trace <+: respondedBytes file m.trace := by
  rw [Delivery] at h
  cases hstate : m.conn.state with
  | write =>
    simp only [hstate] at h
    rw [h.1]
    exact List.prefix_append _ _
  | error =>
    simp only [hstate] at h
    exact h
  | close | connect =>
    simp only [hstate] at h
    exact h.1
  | _ =>
    simp only [hstate] at h
    exact h ▸ List.prefix_refl _

lemma idle_sent {trace events : List Event} (idle : Idle events) :
    sentBytes (trace ++ events) = sentBytes trace := by
  rw [sentBytes_append, idle.1, List.append_nil]

lemma idle_responded {trace events : List Event} (idle : Idle events) :
    responded (trace ++ events) = responded trace := by
  rw [responded_append, idle.2, List.append_nil]

lemma idle_queued {trace events : List Event} (idle : Idle events) :
    respondedBytes file (trace ++ events) = respondedBytes file trace := by
  rw [respondedBytes, idle_responded idle, respondedBytes]

/-- A state that is entered with everything sent. -/
lemma delivered_all {conn : Connection} {events : List Event} (idle : Idle events)
    (all : respondedBytes file m.trace = sentBytes m.trace) (other : conn.state ≠ .write) :
    Delivery file (m.advance conn events) := by
  have hall : respondedBytes file (m.advance conn events).trace =
      sentBytes (m.advance conn events).trace := by
    change respondedBytes file (m.trace ++ events) = sentBytes (m.trace ++ events)
    rw [idle_queued idle, idle_sent idle, all]
  have hstate : (m.advance conn events).conn.state = conn.state := rfl
  rw [Delivery, hstate, hall]
  cases hconn : conn.state with
  | write => exact absurd hconn other
  | error => exact List.prefix_refl _
  | close | connect => exact ⟨List.prefix_refl _, fun _ => rfl⟩
  | _ => rfl

/-- A response has been queued, and none of it is sent. -/
lemma prepared_delivery {mid : Connection} {text : String} {writequeue : Chunkqueue}
    (inv : ConnInv config m.conn) (state : m.conn.state = .responseStart)
    (all : respondedBytes file m.trace = sentBytes m.trace) (body : BodyOutcome m.conn mid)
    (queue : chunkqueuePrependBuffer mid.writequeue
      (responseHead config ans (setContentLength mid) text) = .ok writequeue)
    (after : QueueOk writequeue) (status : Nat) :
    Delivery file (m.advance { setContentLength mid with writequeue := writequeue, state := .write }
      [.respond status (writequeue.active.map chunkSegment)]) := by
  have hphase := inv.phase
  rw [StateInv, state] at hphase
  obtain ⟨hok, hwhole, _⟩ := bodyOutcome_spec inv.writequeue hphase body
  obtain ⟨c, hactive, _, _, hzero, _⟩ := prependBuffer_spec hok.idle queue
  have hall : ∀ d ∈ writequeue.active, d.chunkOffset = 0 := by
    intro d hd
    rw [hactive] at hd
    rcases List.mem_cons.mp hd with rfl | hd
    · exact hzero
    · exact hwhole d hd
  have hqueued : respondedBytes file [Event.respond status (writequeue.active.map chunkSegment)] =
      unsent file writequeue.active := by
    rw [unsent_segments file after.chunks hall]
    exact List.append_nil _
  constructor
  · change respondedBytes file (m.trace ++ _) = sentBytes (m.trace ++ _) ++ _
    rw [respondedBytes_append, sentBytes_append, hqueued, all]
    exact congrArg (· ++ _) (List.append_nil _).symm
  · right
    change _ ∈ responded (m.trace ++ _)
    rw [responded_append]
    exact List.mem_append_right _ (List.mem_singleton_self _)

lemma wrote_delivery {after : Connection} {bytes : Bytes} (inv : ConnInv config m.conn)
    (state : m.conn.state = .write) (length : chunkqueueLength m.conn.writequeue ≠ 0)
    (same : ans.file = file)
    (pending : respondedBytes file m.trace =
      sentBytes m.trace ++ unsent file m.conn.writequeue.active)
    (h : WriteStateOutcome m.curTs ans m.conn after bytes) :
    Delivery file (m.advance after (writeEvents bytes)) := by
  subst same
  have hphase := inv.phase
  rw [StateInv, state] at hphase
  have hqueued : ∀ bytes, respondedBytes ans.file (m.trace ++ writeEvents bytes) =
      respondedBytes ans.file m.trace := by
    intro bytes
    rw [respondedBytes, responded_append, writeEvents_responded, List.append_nil, respondedBytes]
  have hsent : ∀ bytes, sentBytes (m.trace ++ writeEvents bytes) = sentBytes m.trace ++ bytes := by
    intro bytes
    rw [sentBytes_append, sentBytes_write]
  -- what a turn has sent is taken off the queue
  have hturn : ∀ t : WriteTurn, WriteOk ans.file m.conn.writequeue t →
      respondedBytes ans.file (m.trace ++ writeEvents t.sent) =
        sentBytes (m.trace ++ writeEvents t.sent) ++ unsent ans.file t.queue.active := by
    intro t hok
    rw [hqueued, hsent, pending, hok.conserved, List.append_assoc]
  rw [Delivery]
  cases h with
  | skipped =>
    simp only [Machine.advance, state]
    refine ⟨?_, Or.inl length⟩
    rw [hqueued, hsent, pending, List.append_nil]
  | done t hok hcode =>
    simp only [Machine.advance, if_pos hphase.finished]
    rw [hturn t hok, hok.finished hcode]
    exact List.append_nil _
  | waiting t ts hok hcode =>
    simp only [Machine.advance, state]
    refine ⟨hturn t hok, Or.inl ?_⟩
    have hunsent := remaining_of_unsent hok.queue (hok.unfinished hcode)
    exact length_after_write inv.writequeue hok.queue hphase.chunks length hok.segments hunsent
  | failed t hok =>
    simp only [Machine.advance]
    rw [hturn t hok]
    exact List.prefix_append _ _

/-- An empty queue by its length is an empty queue, when the responses are counted. -/
lemma finished_delivery (inv : ConnInv config m.conn) (state : m.conn.state = .write)
    (zero : chunkqueueLength m.conn.writequeue = 0) (counted : Counted m.trace)
    (delivery : Delivery file m) : respondedBytes file m.trace = sentBytes m.trace := by
  have hphase := inv.phase
  rw [StateInv, state] at hphase
  rw [Delivery, state] at delivery
  have hmem := delivery.2.resolve_left (not_not.mpr zero)
  have htotal := (total_of_length_zero inv.writequeue hphase.chunks zero).resolve_right
    (queuedTotal_segments inv.writequeue.chunks ▸ counted _ hmem)
  rw [delivery.1, unsent_of_total inv.writequeue htotal, List.append_nil]

lemma turn_delivery (inv : ConnInv config m.conn) (after : ConnInv config next.conn)
    (same : ans.file = file) (counted : Counted m.trace)
    (noted : Event.state m.conn.state ∈ m.trace) (delivery : Delivery file m)
    (turn : Turn config ans m next) : Delivery file next := by
  have hordered := delivery.ordered
  have hbefore := delivery
  rw [Delivery] at hbefore
  cases turn with
  | started hstate =>
    simp only [hstate] at hbefore
    exact delivered_all ⟨rfl, rfl⟩ hbefore ConnectionState.noConfusion
  | parsed result hstate =>
    simp only [hstate] at hbefore
    exact delivered_all ⟨rfl, rfl⟩ hbefore ConnectionState.noConfusion
  | handled conn events hstate houtcome =>
    simp only [hstate] at hbefore
    exact delivered_all (handle_idle houtcome) hbefore ConnectionState.noConfusion
  | prepared mid text writequeue hstate hbody _ hqueue =>
    simp only [hstate] at hbefore
    exact prepared_delivery inv hstate hbefore hbody hqueue after.writequeue _
  | read conn bytes hstate _ houtcome =>
    simp only [hstate] at hbefore
    apply delivered_all (readEvents_idle bytes) hbefore
    have hnext := read_successor hstate houtcome
    intro hwrite
    rw [hwrite] at hnext
    exact absurd hnext (by decide)
  | wrote conn bytes hstate hlength _ houtcome =>
    simp only [hstate] at hbefore
    exact wrote_delivery inv hstate hlength same hbefore.1 houtcome
  | finished hstate hzero =>
    exact delivered_all ⟨rfl, rfl⟩ (finished_delivery inv hstate hzero counted delivery)
      ConnectionState.noConfusion
  | ended hstate =>
    simp only [hstate] at hbefore
    rw [handleResponseEnd]
    split
    · exact delivered_all ⟨rfl, rfl⟩ hbefore ConnectionState.noConfusion
    · exact delivered_all ⟨rfl, rfl⟩ hbefore ConnectionState.noConfusion
  | failed hstate =>
    rw [hstate] at noted
    constructor
    · change sentBytes (m.trace ++ [.shutdown]) <+: respondedBytes file (m.trace ++ [.shutdown])
      rw [idle_sent ⟨rfl, rfl⟩, idle_queued ⟨rfl, rfl⟩]
      exact hordered
    · exact fun hnone => absurd (List.mem_append_left _ noted) hnone
  | lingers ts hstate =>
    simp only [hstate] at hbefore
    rw [Delivery]
    simp only [Machine.advance, hstate, List.append_nil]
    exact hbefore
  | closed ts ev hstate =>
    simp only [hstate] at hbefore
    have hsent := @idle_sent m.trace [Event.socketClose m.conn.connSocketFd] ⟨rfl, rfl⟩
    have hqueued := @idle_queued file m.trace [Event.socketClose m.conn.connSocketFd] ⟨rfl, rfl⟩
    rw [Delivery]
    simp only [hsent, hqueued]
    exact ⟨hbefore.1, fun hnone => hbefore.2 fun hmem => hnone (List.mem_append_left _ hmem)⟩
  | gone => exact delivery

/-- A state is written to the trace first. -/
lemma Delivery.noted (delivery : Delivery file m) :
    Delivery file (m.emit [.state m.conn.state]) := by
  have hidle : Idle [Event.state m.conn.state] := ⟨rfl, rfl⟩
  rw [Delivery] at delivery ⊢
  simp only [Machine.emit, idle_sent hidle, idle_queued hidle, idle_responded hidle]
  cases hstate : m.conn.state with
  | close | connect =>
    simp only [hstate] at delivery ⊢
    exact ⟨delivery.1, fun hnone => delivery.2 fun hmem => hnone (List.mem_append_left _ hmem)⟩
  | _ =>
    simp only [hstate] at delivery ⊢
    exact delivery

theorem delivery_turn (inv : ConnInv config m.conn) (same : ans.file = file)
    (counted : Counted m.trace) (delivery : Delivery file m)
    (h : connectionIteration config ans m = .ok next) : Delivery file next := by
  have hcounted : Counted (m.trace ++ [.state m.conn.state]) := by
    intro segments hmem
    rw [idle_responded ⟨rfl, rfl⟩] at hmem
    exact counted segments hmem
  exact turn_delivery (m := Machine.emit _ _) inv (iteration_spec inv h).inv same hcounted
    (List.mem_append_right _ (List.mem_singleton_self _)) delivery.noted (turn_cases inv h)

lemma turn_extends (turn : Turn config ans m next) : m.trace <+: next.trace := by
  cases turn with
  | ended =>
    rw [handleResponseEnd]
    split
    · exact List.prefix_append _ _
    · exact List.prefix_append _ _
  | gone => exact List.prefix_refl _
  | _ => exact List.prefix_append _ _

lemma iteration_extends (inv : ConnInv config m.conn)
    (h : connectionIteration config ans m = .ok next) : m.trace <+: next.trace :=
  (List.prefix_append _ _).trans (turn_extends (turn_cases inv h))

lemma Counted.earlier {a b : List Event} (h : Counted b) (before : a <+: b) : Counted a := by
  obtain ⟨events, rfl⟩ := before
  exact h.before

end Steps

section Runs
variable {config : ServerConfig} {file : Bytes → Nat → UInt8} {phase : Phase} {m : Machine}

lemma delivery_flags (delivery : Delivery file m) (mask : EventMask) (now : Int) :
    Delivery file { m with conn := noteEvents mask now m.conn } := by
  obtain ⟨readable, writeable, heq | heq | ⟨hclose, heq⟩⟩ := noteEvents_cases mask now m.conn
  · rw [heq]
    exact delivery
  · rw [heq]
    exact delivery.ordered
  · rw [heq]
    rw [Delivery] at delivery ⊢
    simp only [hclose] at delivery ⊢
    exact delivery

theorem reached_delivery (reached : ReachedIn config (fun ans => ans.file = file) phase m)
    (counted : Counted m.trace) : Delivery file m := by
  induction reached with
  | accepted haccepted =>
    obtain ⟨index, fd, hconn⟩ := haccepted.conn
    rw [Delivery, hconn, haccepted.trace]
    rfl
  | turn hbefore hsame hturn _ ih =>
    have inv := (reached_inv hbefore.reached).1.conn
    have hcounted := counted.earlier (iteration_extends inv hturn)
    exact delivery_turn inv hsame hcounted (ih hcounted) hturn
  | settled hbefore hsame hturn _ _ hupdate ih =>
    have inv := (reached_inv hbefore.reached).1.conn
    obtain ⟨hconn, _, htrace⟩ := updateInterest_same hupdate
    rw [htrace] at counted
    have hcounted := counted.earlier (iteration_extends inv hturn)
    have hnext := delivery_turn inv hsame hcounted (ih hcounted) hturn
    rw [Delivery, hconn, htrace]
    exact hnext
  | event mask now _ ih => exact delivery_flags (ih counted) mask now
  | clock now _ ih => exact ih counted
  | expired _ hexpire ih =>
    have hdelivery := ih counted
    rcases timerExpire_cases hexpire with rfl | ⟨_, rfl⟩
    · exact hdelivery.ordered
    · exact hdelivery

/-- The bytes of a connection are its responses, whole and in the order in which
they were queued, as long as the files stay as they are. While one is being
written, what is missing of it is in the queue; in front of the next request
nothing is missing, nor behind a connection that has been closed without a
failure. No response may be 2^32 bytes long: it would count as sent. -/
theorem sent_as_responded (reached : ReachedIn config (fun ans => ans.file = file) phase m)
    (counted : Counted m.trace) :
    sentBytes m.trace <+: respondedBytes file m.trace ∧
    (m.conn.state = .write → respondedBytes file m.trace =
      sentBytes m.trace ++ unsent file m.conn.writequeue.active) ∧
    (m.conn.state ∉ [ConnectionState.write, .error, .close, .connect] →
      sentBytes m.trace = respondedBytes file m.trace) ∧
    (m.conn.state ∈ [ConnectionState.close, .connect] → Event.state .error ∉ m.trace →
      sentBytes m.trace = respondedBytes file m.trace) := by
  have hdelivery := reached_delivery reached counted
  refine ⟨hdelivery.ordered, fun hwrite => ?_, fun hother => ?_, fun hclosed hnone => ?_⟩
  · rw [Delivery, hwrite] at hdelivery
    exact hdelivery.1
  · rw [Delivery] at hdelivery
    cases hstate : m.conn.state with
    | write | error | close | connect => simp [hstate] at hother
    | _ =>
      simp only [hstate] at hdelivery
      exact hdelivery.symm
  · rw [Delivery] at hdelivery
    rcases List.mem_pair.mp hclosed with hstate | hstate
    · simp only [hstate] at hdelivery
      exact (hdelivery.2 hnone).symm
    · simp only [hstate] at hdelivery
      exact (hdelivery.2 hnone).symm

end Runs

/-- The files of an environment in which none is read. -/
def noFile : Bytes → Nat → UInt8 := fun _ _ => 0

/-- A connection that has answered its first request. -/
theorem sent_as_responded_first : ∃ m : Machine, m.conn.state = .read ∧
    (responded m.trace).length = 1 ∧ sentBytes m.trace = respondedBytes noFile m.trace := by
  have hrun : (turns setConfigDefault readableMachine
      (exchangeAnswers sampleRequest (.fail .enoent))).any (fun m =>
        decide (m.conn.state = .read ∧ (responded m.trace).length = 1 ∧
          ∀ segments ∈ responded m.trace,
            (segments.map segmentLength).sum ≠ 4294967296)) = true := by
    decide +kernel
  obtain ⟨m, hturns, hm⟩ := (Option.any_eq_true _ _).mp hrun
  obtain ⟨hstate, hone, hcounted⟩ := of_decide_eq_true hm
  have hadmitted : ∀ ans ∈ exchangeAnswers sampleRequest (.fail .enoent), ans.file = noFile := by
    simp [exchangeAnswers, requestAnswers, SysAnswers.failing]
    rfl
  have reached := turns_in _ hadmitted (@readableMachine_in setConfigDefault _ rfl) hturns
  have hall := (sent_as_responded reached hcounted).2.2.1 (by rw [hstate]; decide)
  exact ⟨m, hstate, hone, hall⟩

end ResponseStream
