import Minihttpd.ConnectionRuns
import Minihttpd.HeadSearch
import Minihttpd.Library.Framer

/-!
# The requests of a persistent connection

Seen from its socket, a connection is a framer of CRLFCRLF-ended heads. It
examines a read only once, and clears its queue after the response: the bytes
a read has brought behind a head are lost with it.
-/
namespace RequestStream

open ByteBuffer SystemCalls ChunkQueue ChunkQueueLaws ConnectionTypes HttpRequest HttpResponse
open HttpConnection StateMachine ReadQueue WriteQueue RequestOutcome ConnectionInvariant
open Turns ConnectionRuns HeadSearch Framing FailingRun

/-- The results of `read()` so far. -/
def received (trace : List Event) : List Bytes :=
  trace.filterMap fun
    | .socketRead bytes => some bytes
    | _ => none

/-- The heads that were handed to the parser. -/
def parsed (trace : List Event) : List Bytes :=
  trace.filterMap fun
    | .parse content => some content
    | _ => none

/-- Heads (`some`) and responses (`none`), in the order they came. -/
def exchanged (trace : List Event) : List (Option Bytes) :=
  trace.filterMap fun
    | .parse content => some (some content)
    | .respond _ _ => some none
    | _ => none

/-- Every head is followed by its response. -/
def answered (heads : List Bytes) : List (Option Bytes) := heads.flatMap fun h => [some h, none]

/-- The view of a stretch of events in which no request comes or goes. -/
def Silent (events : List Event) : Prop :=
  received events = [] ∧ parsed events = [] ∧ exchanged events = []

lemma received_append (a b : List Event) : received (a ++ b) = received a ++ received b :=
  List.filterMap_append

lemma parsed_append (a b : List Event) : parsed (a ++ b) = parsed a ++ parsed b :=
  List.filterMap_append

lemma exchanged_append (a b : List Event) : exchanged (a ++ b) = exchanged a ++ exchanged b :=
  List.filterMap_append

lemma silent_of_each {events : List Event} (h : ∀ e ∈ events, Silent [e]) : Silent events := by
  induction events with
  | nil => exact ⟨rfl, rfl, rfl⟩
  | cons e rest ih =>
    obtain ⟨h1, h2, h3⟩ := h e List.mem_cons_self
    obtain ⟨i1, i2, i3⟩ := ih (fun d hd => h d (List.mem_cons_of_mem _ hd))
    have hsplit : e :: rest = [e] ++ rest := rfl
    refine ⟨?_, ?_, ?_⟩
    · rw [hsplit, received_append, h1, i1]
      rfl
    · rw [hsplit, parsed_append, h2, i2]
      rfl
    · rw [hsplit, exchanged_append, h3, i3]
      rfl

lemma handle_silent {config : ServerConfig} {ans : SysAnswers} {conn after : Connection}
    {events : List Event} (h : HandleOutcome config ans conn after events) : Silent events := by
  apply silent_of_each
  intro e he
  obtain ⟨path, rfl | rfl | rfl⟩ := handle_paths h e he <;> exact ⟨rfl, rfl, rfl⟩

lemma writeEvents_silent (bytes : Bytes) : Silent (writeEvents bytes) := by
  rw [writeEvents]
  split <;> exact ⟨rfl, rfl, rfl⟩

def framer (trace : List Event) : Framer UInt8 := Framer.run blankLine (received trace)

/-- Where the connection stands in the stream: the beginning of a head is in
`queue`, the heads in `unparsed` are cut off, and `owed` is what is missing for
all parsed heads to be answered. -/
structure Stands (trace : List Event) (queue : Bytes) (unparsed : List Bytes)
    (owed : List (Option Bytes)) : Prop where
  pending : (framer trace).pending = queue
  messages : (framer trace).messages = parsed trace ++ unparsed
  answers : exchanged trace ++ owed = answered (parsed trace)

/-- Where the framer stands in each state. A connection that will not be kept
alive does not come back to reading. -/
def Ledger (m : Machine) : Prop :=
  match m.conn.state with
  | .requestStart => Stands m.trace [] [] []
  | .read => Stands m.trace (queueString m.conn.readqueue) [] []
  | .requestEnd => Stands m.trace [] [m.conn.connectionRequest.requestContent.str] []
  | .handleRequest => m.conn.keepAlive = true → Stands m.trace [] [] [none]
  | .responseStart => m.conn.keepAlive = true → Stands m.trace [] [] [none]
  | .write => m.conn.keepAlive = true → Stands m.trace [] [] []
  | .responseEnd => m.conn.keepAlive = true → Stands m.trace [] [] []
  | _ => True

section Steps
variable {trace : List Event} {queue : Bytes} {unparsed : List Bytes} {owed : List (Option Bytes)}

lemma Stands.after_silent {events : List Event} (h : Stands trace queue unparsed owed)
    (quiet : Silent events) : Stands (trace ++ events) queue unparsed owed := by
  obtain ⟨hreceived, hparsed, hexchanged⟩ := quiet
  have hframer : framer (trace ++ events) = framer trace := by
    rw [framer, received_append, hreceived, List.append_nil]
    rfl
  constructor
  · rw [hframer]
    exact h.pending
  · rw [hframer, parsed_append, hparsed, List.append_nil]
    exact h.messages
  · rw [exchanged_append, parsed_append, hparsed, hexchanged, List.append_nil, List.append_nil]
    exact h.answers

/-- The head that is cut off is handed to the parser. -/
lemma Stands.after_parse {head : Bytes} (h : Stands trace queue [head] []) :
    Stands (trace ++ [.parse head]) queue [] [none] := by
  have hframer : framer (trace ++ [.parse head]) = framer trace := by
    rw [framer, received_append]
    exact congrArg _ (List.append_nil _)
  have hparsed : parsed (trace ++ [.parse head]) = parsed trace ++ [head] := parsed_append _ _
  have hexchanged : exchanged (trace ++ [.parse head]) = exchanged trace ++ [some head] :=
    exchanged_append _ _
  constructor
  · rw [hframer]
    exact h.pending
  · rw [hframer, hparsed, List.append_nil]
    exact h.messages
  · have hanswers := h.answers
    rw [List.append_nil] at hanswers
    rw [hexchanged, hparsed, hanswers, answered, answered, List.flatMap_append, List.append_assoc]
    rfl

lemma Stands.after_respond (h : Stands trace queue unparsed [none]) (status : Nat)
    (segments : List Segment) : Stands (trace ++ [.respond status segments]) queue unparsed [] := by
  have hframer : framer (trace ++ [.respond status segments]) = framer trace := by
    rw [framer, received_append]
    exact congrArg _ (List.append_nil _)
  have hparsed : parsed (trace ++ [.respond status segments]) = parsed trace :=
    (parsed_append _ _).trans (List.append_nil _)
  have hexchanged : exchanged (trace ++ [.respond status segments]) = exchanged trace ++ [none] :=
    exchanged_append _ _
  constructor
  · rw [hframer]
    exact h.pending
  · rw [hframer, hparsed]
    exact h.messages
  · rw [hexchanged, hparsed, List.append_nil]
    exact h.answers

/-- Some bytes come in that do not complete a head. -/
lemma Stands.after_read {bytes : Bytes} (h : Stands trace queue [] owed)
    (cut : cutAfter blankLine (queue ++ bytes) = none) :
    Stands (trace ++ [.socketRead bytes]) (queue ++ bytes) [] owed := by
  have hfeed : framer (trace ++ [.socketRead bytes]) =
      { framer trace with pending := queue ++ bytes } := by
    rw [← h.pending] at cut ⊢
    rw [framer, received_append]
    exact (Framer.run_concat _ _).trans (Framer.feed_none cut)
  have hparsed : parsed (trace ++ [.socketRead bytes]) = parsed trace :=
    (parsed_append _ _).trans (List.append_nil _)
  have hexchanged : exchanged (trace ++ [.socketRead bytes]) = exchanged trace :=
    (exchanged_append _ _).trans (List.append_nil _)
  constructor
  · rw [hfeed]
  · rw [hfeed, hparsed]
    exact h.messages
  · rw [hexchanged, hparsed]
    exact h.answers

/-- A head is complete; what has been read behind it is not kept in mind. -/
lemma Stands.after_head {bytes head rest : Bytes} (h : Stands trace queue [] owed)
    (cut : cutAfter blankLine (queue ++ bytes) = some (head, rest)) :
    Stands (trace ++ [.socketRead bytes]) [] [head] owed := by
  have hfeed : framer (trace ++ [.socketRead bytes]) =
      ⟨(framer trace).messages ++ [head], [], (framer trace).dropped ++ [rest]⟩ := by
    rw [← h.pending] at cut
    rw [framer, received_append]
    exact (Framer.run_concat _ _).trans (Framer.feed_some cut)
  have hparsed : parsed (trace ++ [.socketRead bytes]) = parsed trace :=
    (parsed_append _ _).trans (List.append_nil _)
  have hexchanged : exchanged (trace ++ [.socketRead bytes]) = exchanged trace :=
    (exchanged_append _ _).trans (List.append_nil _)
  constructor
  · rw [hfeed]
  · rw [hfeed, hparsed, h.messages, List.append_nil]
  · rw [hexchanged, hparsed]
    exact h.answers

end Steps

lemma handle_keepAlive {config : ServerConfig} {ans : SysAnswers} {conn after : Connection}
    {events : List Event} (h : HandleOutcome config ans conn after events) :
    after.keepAlive = conn.keepAlive := by
  cases h <;> rfl

lemma body_keepAlive {conn mid : Connection} (h : BodyOutcome conn mid) :
    (setContentLength mid).keepAlive = conn.keepAlive := by
  have hset : (setContentLength mid).keepAlive = mid.keepAlive := by
    rw [setContentLength]
    split <;> rfl
  rw [hset]
  cases h <;> rfl

/-- What is handed over as a head is what a client has sent up to the first
CRLFCRLF. -/
lemma complete_content {config : ServerConfig} {curTs : Int} {ans : SysAnswers}
    {conn mid : Connection} {lastChunk lastChunkIndex : Nat} (ready : ReadReady config conn)
    (step : ReadStep curTs ans conn mid)
    (found : findHead mid.readqueue.active 0 = .ok (some (lastChunk, lastChunkIndex))) :
    ∃ rest, cutAfter blankLine (queueString conn.readqueue ++ readBytes ans) =
      some ((appendedAll (bufferReset mid.connectionRequest.requestContent)
        (headPieces mid.readqueue.active lastChunk lastChunkIndex)).str, rest) := by
  have hsearch := findHead_eq step.shape.mem
  have hcontent : (mid.readqueue.active.map chunkString).flatten =
      queueString conn.readqueue ++ readBytes ans := step.shape.content
  rw [found, hcontent] at hsearch
  obtain ⟨rest, hcut⟩ := hsearch
  have hlength := congrArg List.length (cutAfter_append hcut)
  have hshort := ready.short
  have hlimit := config.headLimit
  have hbytes := readBytes_length ans
  simp only [List.length_append] at hlength
  obtain ⟨hstr, _⟩ := appendedAll_str bufferInit_terminated
    (headPieces mid.readqueue.active lastChunk lastChunkIndex)
    (by rw [bufferInit_str, List.length_nil]; omega)
  rw [bufferInit_str, List.nil_append] at hstr
  exact ⟨rest, by rw [hcut, ← hstr]; rfl⟩

lemma incomplete_content {curTs : Int} {ans : SysAnswers} {conn mid : Connection}
    (step : ReadStep curTs ans conn mid) (found : findHead mid.readqueue.active 0 = .ok none) :
    cutAfter blankLine (queueString conn.readqueue ++ readBytes ans) = none := by
  have hsearch := findHead_eq step.shape.mem
  have hcontent : (mid.readqueue.active.map chunkString).flatten =
      queueString conn.readqueue ++ readBytes ans := step.shape.content
  rwa [found, hcontent] at hsearch

lemma readState_ledger {config : ServerConfig} {ans : SysAnswers} {m : Machine} {after : Connection}
    {bytes : Bytes} (hstate : m.conn.state = .read) (ready : ReadReady config m.conn)
    (ledger : Stands m.trace (queueString m.conn.readqueue) [] [])
    (h : ReadStateOutcome config m.curTs ans m.conn after bytes) :
    Ledger (m.advance after (readEvents bytes)) := by
  cases h with
  | skipped =>
    rw [Ledger]
    simp only [Machine.advance, hstate]
    exact ledger.after_silent ⟨rfl, rfl, rfl⟩
  | nothing mid step hnil =>
    have hcontent := step.shape.content
    rw [hnil, List.append_nil] at hcontent
    rw [Ledger]
    simp only [Machine.advance, step.state, hstate, hcontent]
    exact ledger.after_silent ⟨rfl, rfl, rfl⟩
  | failed => trivial
  | endOfFile => trivial
  | got mid _ step hsome _ hexamine =>
    have hevents : readEvents (readBytes ans) = [.socketRead (readBytes ans)] := if_neg hsome
    rw [hevents]
    cases hexamine with
    | complete lastChunk lastChunkIndex hfound =>
      obtain ⟨rest, hcut⟩ := complete_content ready step hfound
      exact ledger.after_head hcut
    | tooLong => exact fun hkeep => absurd hkeep Bool.false_ne_true
    | waiting hfound =>
      have hnone := incomplete_content step hfound
      have hqueue : queueString after.readqueue = queueString m.conn.readqueue ++ readBytes ans :=
        step.shape.content
      rw [Ledger]
      simp only [Machine.advance, step.state, hstate, hqueue]
      exact ledger.after_read hnone

lemma wrote_ledger {config : ServerConfig} {ans : SysAnswers} {m : Machine} {after : Connection}
    {bytes : Bytes} (inv : ConnInv config m.conn) (hstate : m.conn.state = .write)
    (ledger : m.conn.keepAlive = true → Stands m.trace [] [] [])
    (h : WriteStateOutcome m.curTs ans m.conn after bytes) :
    Ledger (m.advance after (writeEvents bytes)) := by
  have hphase := inv.phase
  rw [StateInv, hstate] at hphase
  have hquiet := writeEvents_silent bytes
  rw [Ledger]
  cases h with
  | skipped =>
    simp only [Machine.advance, hstate]
    exact fun hkeep => (ledger hkeep).after_silent hquiet
  | done t =>
    simp only [Machine.advance, if_pos hphase.finished]
    exact fun hkeep => (ledger hkeep).after_silent hquiet
  | waiting t ts =>
    simp only [Machine.advance, hstate]
    exact fun hkeep => (ledger hkeep).after_silent hquiet
  | failed => trivial

lemma turn_ledger {config : ServerConfig} {ans : SysAnswers} {m next : Machine}
    (inv : ConnInv config m.conn) (ledger : Ledger m) (turn : Turn config ans m next) :
    Ledger next := by
  have hphase := inv.phase
  rw [StateInv] at hphase
  rw [Ledger] at ledger
  cases turn with
  | started hstate =>
    simp only [hstate] at hphase ledger
    change Stands (_ ++ []) (queueString m.conn.readqueue) [] []
    rw [queueString, hphase.2]
    exact ledger.after_silent ⟨rfl, rfl, rfl⟩
  | parsed result hstate =>
    simp only [hstate] at ledger
    exact fun _ => ledger.after_parse
  | handled after events hstate houtcome =>
    simp only [hstate] at ledger
    intro hkeep
    have hbefore : m.conn.keepAlive = true := (handle_keepAlive houtcome).symm.trans hkeep
    exact (ledger hbefore).after_silent (handle_silent houtcome)
  | prepared mid text writequeue hstate hbody =>
    simp only [hstate] at ledger
    intro hkeep
    have hbefore : m.conn.keepAlive = true := (body_keepAlive hbody).symm.trans hkeep
    exact (ledger hbefore).after_respond _ _
  | read after bytes hstate _ houtcome =>
    simp only [hstate] at hphase ledger
    exact readState_ledger hstate hphase.2 ledger houtcome
  | wrote after bytes hstate _ _ houtcome =>
    simp only [hstate] at ledger
    exact wrote_ledger inv hstate ledger houtcome
  | finished hstate =>
    simp only [hstate] at ledger
    exact fun hkeep => (ledger hkeep).after_silent ⟨rfl, rfl, rfl⟩
  | ended hstate =>
    simp only [hstate] at ledger
    rw [handleResponseEnd]
    by_cases hkeep : m.conn.keepAlive = true
    · rw [if_pos hkeep]
      exact (ledger hkeep).after_silent ⟨rfl, rfl, rfl⟩
    · rw [if_neg hkeep]
      trivial
  | failed => trivial
  | lingers ts hstate =>
    rw [Ledger]
    simp only [Machine.advance, hstate]
  | closed => trivial
  | gone hstate =>
    rw [Ledger]
    simp only [hstate]

/-- The state of a machine is written to its trace first. -/
lemma Ledger.noted {m : Machine} (ledger : Ledger m) : Ledger (m.emit [.state m.conn.state]) := by
  have hquiet : Silent [Event.state m.conn.state] := ⟨rfl, rfl, rfl⟩
  rw [Ledger] at ledger ⊢
  simp only [Machine.emit]
  cases hstate : m.conn.state with
  | requestStart | read | requestEnd =>
    simp only [hstate] at ledger hquiet ⊢
    exact ledger.after_silent hquiet
  | handleRequest | responseStart | write | responseEnd =>
    simp only [hstate] at ledger hquiet ⊢
    exact fun hkeep => (ledger hkeep).after_silent hquiet
  | error | close | connect => trivial

theorem ledger_turn {config : ServerConfig} {ans : SysAnswers} {m next : Machine}
    (inv : ConnInv config m.conn) (ledger : Ledger m)
    (h : connectionIteration config ans m = .ok next) : Ledger next :=
  turn_ledger (m := Machine.emit _ _) inv ledger.noted (turn_cases inv h)

lemma ledger_flags {m : Machine} (ledger : Ledger m) (mask : EventMask) (now : Int) :
    Ledger { m with conn := noteEvents mask now m.conn } := by
  obtain ⟨readable, writeable, heq | heq | ⟨hclose, heq⟩⟩ := noteEvents_cases mask now m.conn
  · rw [heq]
    exact ledger
  · rw [heq]
    trivial
  · rw [heq, Ledger]
    simp only [hclose]

theorem reached_ledger {config : ServerConfig} {phase : Phase} {m : Machine}
    (h : Reached config phase m) : Ledger m := by
  induction h with
  | accepted haccepted =>
    obtain ⟨index, fd, hconn⟩ := haccepted.conn
    rw [Ledger, hconn, haccepted.trace]
    exact ⟨rfl, rfl, rfl⟩
  | turn hbefore hturn _ ih => exact ledger_turn (reached_inv hbefore).1.conn ih hturn
  | settled hbefore hturn same open_still hupdate ih =>
    have hnext := ledger_turn (reached_inv hbefore).1.conn ih hturn
    obtain ⟨rest, hrest, _, _, hconn, _, htrace, _⟩ :=
      settled_rests (reached_inv hbefore).1 hturn same open_still
    rw [hupdate] at hrest
    cases hrest
    rw [Ledger, hconn, htrace]
    exact hnext
  | event mask now _ ih => exact ledger_flags ih mask now
  | clock now _ ih => exact ih
  | expired _ hexpire ih =>
    rcases timerExpire_cases hexpire with rfl | ⟨_, rfl⟩
    · trivial
    · exact ih

/-- What a persistent connection owes its client whenever it reads: the heads
parsed and the bytes it still holds are what it has received, and each head has
been parsed and answered in its turn. -/
structure StreamKept (m : Machine) (heads : List Bytes) : Prop where
  conserved : (parsed m.trace).flatten ++ queueString m.conn.readqueue =
    (received m.trace).flatten
  inOrder : parsed m.trace = heads.take (parsed m.trace).length
  oneByOne : exchanged m.trace = answered (parsed m.trace)

/-- No received byte is lost exactly as long as no `read()` goes past the end of
the head that it completes. -/
theorem stream_kept_iff {config : ServerConfig} {phase : Phase} {m : Machine} {heads : List Bytes}
    (reached : Reached config phase m) (reading : m.conn.state = .read)
    (framed : ∀ head ∈ heads, OnlyAtEnd blankLine head)
    (stream : (received m.trace).flatten <+: heads.flatten) :
    StreamKept m heads ↔ Aligned blankLine [] (received m.trace) := by
  have hledger := reached_ledger reached
  rw [Ledger, reading] at hledger
  have hmessages : (framer m.trace).messages = parsed m.trace := by
    rw [hledger.messages, List.append_nil]
  have hconserved : (parsed m.trace).flatten ++ queueString m.conn.readqueue =
      (received m.trace).flatten ↔ Aligned blankLine [] (received m.trace) := by
    rw [← conserved_iff blankLine_ne_nil, ← hledger.pending, ← hmessages]
    rfl
  constructor
  · exact fun h => hconserved.mp h.conserved
  · intro haligned
    have hkept := hconserved.mpr haligned
    refine ⟨hkept, ?_, ?_⟩
    · have haccounts := Framer.run_accounts blankLine_ne_nil (received m.trace)
      refine messages_unique blankLine_ne_nil (fun head hhead => ?_) framed
        (hkept ▸ stream)
      rw [← hmessages] at hhead
      exact haccounts.messages head hhead
    · have hanswers := hledger.answers
      rw [List.append_nil] at hanswers
      exact hanswers

lemma sampleRequest_framed : OnlyAtEnd blankLine sampleRequest := by
  have hcut : cutAfter blankLine sampleRequest = some (sampleRequest, []) := by decide +kernel
  exact cutAfter_onlyAtEnd blankLine_ne_nil hcut

/-- One request that comes alone. -/
theorem stream_kept_one : ∃ m : Machine, received m.trace = [sampleRequest] ∧
    StreamKept m [sampleRequest] := by
  have hrun : (turns setConfigDefault readableMachine
      (exchangeAnswers sampleRequest (.fail .enoent))).any (fun m =>
        decide (m.conn.state = .read ∧ received m.trace = [sampleRequest])) = true := by
    decide +kernel
  obtain ⟨m, hturns, hm⟩ := (Option.any_eq_true _ _).mp hrun
  obtain ⟨hread, hreceived⟩ := of_decide_eq_true hm
  have reached := reached_turns _ readableMachine_reached hturns
  refine ⟨m, hreceived, (stream_kept_iff reached hread ?_ ?_).mpr ?_⟩
  · intro head hhead
    rw [List.mem_singleton.mp hhead]
    exact sampleRequest_framed
  · rw [hreceived]
  · have hcut := sampleRequest_framed.cutAfter_eq blankLine_ne_nil []
    rw [List.append_nil] at hcut
    rw [hreceived, Aligned, List.nil_append, hcut]
    exact ⟨rfl, trivial⟩

/-- Two requests that come in one `read()`: the second one is gone. -/
theorem stream_kept_not_two : ∃ m : Machine, Reached setConfigDefault .running m ∧
    m.conn.state = .read ∧ received m.trace = [sampleRequest ++ sampleRequest] ∧
    parsed m.trace = [sampleRequest] ∧ queueString m.conn.readqueue = [] ∧
    ¬ StreamKept m [sampleRequest, sampleRequest] := by
  have hrun : (turns setConfigDefault readableMachine
      (exchangeAnswers (sampleRequest ++ sampleRequest) (.fail .enoent))).any (fun m =>
        decide (m.conn.state = .read ∧ received m.trace = [sampleRequest ++ sampleRequest] ∧
          parsed m.trace = [sampleRequest] ∧ queueString m.conn.readqueue = [])) = true := by
    decide +kernel
  obtain ⟨m, hturns, hm⟩ := (Option.any_eq_true _ _).mp hrun
  obtain ⟨hread, hreceived, hparsed, hqueue⟩ := of_decide_eq_true hm
  refine ⟨m, reached_turns _ readableMachine_reached hturns, hread, hreceived, hparsed, hqueue, ?_⟩
  intro hkept
  have hlength := congrArg List.length hkept.conserved
  rw [hparsed, hqueue, hreceived] at hlength
  exact absurd hlength (by decide +kernel)

end RequestStream
