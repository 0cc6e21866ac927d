import Minihttpd.RequestStream

/-!
# The limit on the size of a head

`CON_STATE_READ` compares the size of what it has read with the limit only
where that holds no complete head. The first request of a connection is
decided as by a framer with a limit, over the same pieces.
-/
namespace HeadLimit

open ByteBuffer SystemCalls ChunkQueue ConnectionTypes HttpRequest HttpConnection StateMachine
open FailingRun ReadQueue ConnectionInvariant Turns ConnectionRuns Framing RequestStream HeadSearch

/-- What becomes of the first request of a connection, after these reads. -/
inductive FirstDecision (config : ServerConfig) : List Bytes → FirstMessage UInt8 → Prop where
  | parses {m next : Machine} {ans : SysAnswers} : Reached config .running m →
      m.conn.state = .read → parsed m.trace = [] →
      connectionIteration config ans m = .ok next → next.conn.state = .requestEnd →
      FirstDecision config (received next.trace)
        (.message next.conn.connectionRequest.requestContent.str)
  | refuses {m next : Machine} {ans : SysAnswers} : Reached config .running m →
      m.conn.state = .read → parsed m.trace = [] →
      connectionIteration config ans m = .ok next → next.conn.state = .handleRequest →
      next.conn.httpStatus = 414 → FirstDecision config (received next.trace) .tooLong

/-- Before its first request is decided, a connection holds all it has read. -/
lemma first_undecided {config : ServerConfig} {m : Machine} (reached : Reached config .running m)
    (hstate : m.conn.state = .read) (first : parsed m.trace = []) :
    queueString m.conn.readqueue = (received m.trace).flatten ∧
      limitedCut blankLine config.maxHttpHeadSize [] (received m.trace) = none := by
  have hledger := reached_ledger reached
  rw [Ledger, hstate] at hledger
  have hphase := (reached_inv reached).1.conn.phase
  rw [StateInv, hstate] at hphase
  have hnone : (framer m.trace).messages = [] := by
    rw [hledger.messages, first]
    rfl
  have hqueue : queueString m.conn.readqueue = (received m.trace).flatten := by
    rw [← hledger.pending]
    exact Framer.run_pending hnone
  have hcut : cutAfter blankLine (received m.trace).flatten = none := by
    rw [← hqueue, ← hledger.pending]
    exact (Framer.run_accounts blankLine_ne_nil (received m.trace)).pending
  refine ⟨hqueue, ?_⟩
  rw [limitedCut_none_iff blankLine_ne_nil (Nat.zero_le _) rfl, List.nil_append]
  exact ⟨hqueue ▸ hphase.2.short, hcut⟩

/-- A turn that decides the first request, or does not. -/
lemma decision_turn {config : ServerConfig} {m next : Machine} {ans : SysAnswers}
    (reached : Reached config .running m) (hstate : m.conn.state = .read)
    (first : parsed m.trace = []) (turn : connectionIteration config ans m = .ok next)
    (moves : next.conn.state = .requestEnd ∨ next.conn.state = .handleRequest) :
    limitedCut blankLine config.maxHttpHeadSize [] (received next.trace) =
      some (if next.conn.state = .requestEnd then
        .message next.conn.connectionRequest.requestContent.str else .tooLong) := by
  have hinv := (reached_inv reached).1.conn
  have hphase := hinv.phase
  rw [StateInv, hstate] at hphase
  obtain ⟨hqueue, hundecided⟩ := first_undecided reached hstate first
  obtain ⟨after, bytes, hread, rfl⟩ := read_cases hinv hstate turn
  change after.state = .requestEnd ∨ after.state = .handleRequest at moves
  have hstays : ∀ mid, ReadStep m.curTs ans m.conn mid →
      ¬ (mid.state = .requestEnd ∨ mid.state = .handleRequest) := by
    intro mid step
    rw [step.state, hstate]
    decide
  cases hread with
  | skipped =>
    rw [hstate] at moves
    exact absurd moves (by decide)
  | nothing _ step => exact absurd moves (hstays _ step)
  | failed mid => rcases moves with h | h <;> cases h
  | endOfFile mid => rcases moves with h | h <;> cases h
  | got mid _ step hsome _ hexamine =>
    have hreceived : received ((m.emit [.state .read]).advance after (readEvents (readBytes ans))).trace
        = received m.trace ++ [readBytes ans] := by
      have hevents : readEvents (readBytes ans) = [.socketRead (readBytes ans)] := if_neg hsome
      rw [Machine.advance, hevents, Machine.emit, received_append, received_append]
      exact congrArg (· ++ [readBytes ans]) (List.append_nil _)
    rw [hreceived, limitedCut_concat _ hundecided, List.nil_append, ← hqueue, limitedCut]
    cases hexamine with
    | complete lastChunk lastChunkIndex hfound =>
      obtain ⟨rest, hcut⟩ := complete_content hphase.2 step hfound
      rw [hcut]
      rfl
    | tooLong hfound hlong =>
      have hlength := step.length_lt hphase.2
      have hcontent : queueString mid.readqueue = queueString m.conn.readqueue ++ readBytes ans :=
        step.shape.content
      rw [hlength, hcontent] at hlong
      rw [incomplete_content step hfound]
      simp only [if_pos hlong]
      rfl
    | waiting => exact absurd moves (hstays _ step)

theorem decision_eq {config : ServerConfig} {reads : List Bytes} {decision : FirstMessage UInt8}
    (h : FirstDecision config reads decision) :
    limitedCut blankLine config.maxHttpHeadSize [] reads = some decision := by
  cases h with
  | parses reached hstate first turn hnext =>
    rw [decision_turn reached hstate first turn (Or.inl hnext), if_pos hnext]
  | refuses reached hstate first turn hnext =>
    rw [decision_turn reached hstate first turn (Or.inr hnext), hnext]
    rfl

/-- The limit is tested where a read ends. A run answers 414 exactly when one of
its reads ends behind the limit and in front of the end of the head; any other
run hands over the stream up to its first CRLFCRLF. Two ways of cutting a stream
therefore come to the same if both have such a read or neither has one, and in
any case where the head ends within the limit or does not end at all. -/
theorem head_limit {config : ServerConfig} {stream : Bytes} {first second : List Bytes}
    {a b : FirstMessage UInt8} (run₁ : FirstDecision config first a)
    (run₂ : FirstDecision config second b) (cut₁ : first.flatten <+: stream)
    (cut₂ : second.flatten <+: stream) :
    (a = .tooLong ↔ Overshoots blankLine config.maxHttpHeadSize [] first) ∧
    (∀ head, a = .message head → ∃ rest, cutAfter blankLine stream = some (head, rest)) ∧
    (a = b ↔ (Overshoots blankLine config.maxHttpHeadSize [] first ↔
      Overshoots blankLine config.maxHttpHeadSize [] second)) ∧
    (∀ head rest, cutAfter blankLine stream = some (head, rest) →
      head.length ≤ config.maxHttpHeadSize → a = .message head ∧ b = .message head) ∧
    (cutAfter blankLine stream = none → a = .tooLong ∧ b = .tooLong) := by
  have ha := decision_eq run₁
  have hb := decision_eq run₂
  refine ⟨?_, ?_, limitedCut_agree_iff blankLine_ne_nil ha hb cut₁ cut₂, ?_, ?_⟩
  · rw [← limitedCut_tooLong_iff blankLine_ne_nil (Nat.zero_le _), ha]
    exact ⟨congrArg some, Option.some.inj⟩
  · rintro head rfl
    exact limitedCut_message blankLine_ne_nil ha cut₁
  · intro head rest hcut hshort
    exact ⟨limitedCut_within blankLine_ne_nil ha cut₁ hcut hshort,
      limitedCut_within blankLine_ne_nil hb cut₂ hcut hshort⟩
  · intro hcut
    exact ⟨limitedCut_endless blankLine_ne_nil ha cut₁ hcut,
      limitedCut_endless blankLine_ne_nil hb cut₂ hcut⟩

/-- A read that FIONREAD lets take all there is. -/
def wholeRead (bytes : Bytes) (size : bytes.length < 2147483648) : SysAnswers :=
  { SysAnswers.failing with fionread := some ⟨bytes.length, size⟩, read := .data bytes }

lemma wholeRead_takes (bytes : Bytes) (size : bytes.length < 2147483648) :
    readBytes (wholeRead bytes size) = bytes := by
  refine List.take_of_length_le ?_
  simp only [wholeRead, SysAnswers.needReadBytes]
  split_ifs with small
  · rcases small with h | h <;> omega
  · exact Nat.le_refl _

/-- One read on a new connection decides its first request, if it brings a whole
head or more than the limit without one. -/
lemma wholeRead_decides {config : ServerConfig} {bytes : Bytes} (brings : bytes ≠ [])
    (size : bytes.length < 2147483648) :
    (∀ head rest, cutAfter blankLine bytes = some (head, rest) →
      FirstDecision config [bytes] (.message head)) ∧
    (cutAfter blankLine bytes = none → config.maxHttpHeadSize < bytes.length →
      FirstDecision config [bytes] .tooLong) := by
  have reached : Reached config .running readableMachine := readableMachine_reached
  have hphase := (reached_inv reached).1.conn.phase
  change _ ∧ ReadReady config readableMachine.conn at hphase
  have htaken := wholeRead_takes bytes size
  obtain ⟨after, got, hread, houtcome⟩ := @handleReadState_outcome config
    readableMachine.curTs (wholeRead bytes size) _ hphase.2
  have turn : connectionIteration config (wholeRead bytes size) readableMachine =
      .ok ((readableMachine.emit [.state .read]).advance after (readEvents got)) :=
    bind_eq_ok.mpr ⟨_, hread, rfl⟩
  cases houtcome with
  | skipped unreadable => cases unreadable
  | nothing _ _ hnil => exact absurd (htaken.symm.trans hnil) brings
  | failed _ _ hnil => exact absurd (htaken.symm.trans hnil) brings
  | endOfFile _ _ hnil => exact absurd (htaken.symm.trans hnil) brings
  | got mid _ step hsome _ hexamine =>
    have hqueue : queueString readableMachine.conn.readqueue ++
        readBytes (wholeRead bytes size) = bytes := htaken
    have hlength : chunkqueueLength mid.readqueue = bytes.length := by
      rw [step.length_lt hphase.2, step.shape.content, hqueue]
    have hreceived : received ((readableMachine.emit [.state .read]).advance after
        (readEvents (readBytes (wholeRead bytes size)))).trace = [bytes] := by
      rw [htaken, readEvents, if_neg brings]
      rfl
    rw [← hreceived]
    cases hexamine with
    | complete lastChunk lastChunkIndex hfound =>
      obtain ⟨rest, hcut⟩ := complete_content hphase.2 step hfound
      rw [hqueue] at hcut
      rw [hcut]
      refine ⟨?_, fun hnone => absurd hnone (Option.some_ne_none _)⟩
      rintro head rest heq
      obtain ⟨rfl, rfl⟩ := Prod.mk.inj (Option.some.inj heq)
      exact .parses reached rfl rfl turn rfl
    | tooLong hfound =>
      have hcut := incomplete_content step hfound
      rw [hqueue] at hcut
      rw [hcut]
      exact ⟨fun _ _ heq => absurd heq.symm (Option.some_ne_none _),
        fun _ _ => .refuses reached rfl rfl turn rfl rfl⟩
    | waiting hfound hshort =>
      have hcut := incomplete_content step hfound
      rw [hqueue] at hcut
      rw [hcut]
      rw [hlength] at hshort
      exact ⟨fun _ _ heq => absurd heq.symm (Option.some_ne_none _),
        fun _ hlong => absurd hlong (Nat.not_lt.mpr hshort)⟩

/-- A head that comes in one read is handed over as it is. -/
theorem head_limit_one_read : ∃ head rest,
    FirstDecision setConfigDefault [sampleRequest] (.message head) ∧
    cutAfter blankLine sampleRequest = some (head, rest) := by
  have hsome : sampleRequest ≠ [] := by decide
  have hsize : sampleRequest.length < 2147483648 := by decide
  have hcut : cutAfter blankLine sampleRequest = some (sampleRequest, []) := by decide
  have run : FirstDecision setConfigDefault [sampleRequest] (.message sampleRequest) :=
    (wholeRead_decides hsome hsize).1 _ _ hcut
  have stream : [sampleRequest].flatten <+: sampleRequest := by
    rw [List.flatten_singleton]
  obtain ⟨rest, hrest⟩ := (head_limit run run stream stream).2.1 _ rfl
  exact ⟨_, rest, run, hrest⟩

/-- The beginning of a request line, its URL a slash and `n` letters. -/
def longLine (n : Nat) : Bytes := asciiBytes "GET /" ++ List.replicate n 97

lemma longLine_one (n : Nat) : OneLine (longLine n) := by
  constructor <;> rw [longLine, List.mem_append, List.mem_replicate, not_or] <;>
    exact ⟨by decide, fun h => absurd h.2 (by decide)⟩

lemma longLine_length (n : Nat) : (longLine n).length = 5 + n := by
  rw [longLine, List.length_append, List.length_replicate]
  rfl

lemma longLine_take {n k : Nat} (h : n ≤ k) : (longLine k).take (5 + n) = longLine n := by
  have hfive : (asciiBytes "GET /").length = 5 := rfl
  rw [longLine, ← hfive, List.take_length_add_append, List.take_replicate, Nat.min_eq_left h]
  rfl

/-- A request whose URL makes its head longer than 65535 bytes. -/
def longRequest : Bytes := longLine 65536 ++ asciiBytes " HTTP/1.0" ++ blankLine

/-- The head of 65554 bytes under the limit of 65535: read at once it is handed
over, and refused when its first 65536 bytes come alone. -/
theorem head_limit_not_alike :
    FirstDecision setConfigDefault [longRequest] (.message longRequest) ∧
    FirstDecision setConfigDefault [longRequest.take 65536] .tooLong ∧
    [longRequest.take 65536].flatten <+: longRequest ∧
    cutAfter blankLine longRequest = some (longRequest, []) ∧
    setConfigDefault.maxHttpHeadSize < longRequest.length := by
  have hlength : longRequest.length = 65554 := by
    rw [longRequest, List.length_append, List.length_append, longLine_length]
    rfl
  have hversion : OneLine (asciiBytes " HTTP/1.0") := by
    constructor <;> decide
  have hblank : cutAfter blankLine blankLine = some (blankLine, []) := by decide
  have hcut : cutAfter blankLine longRequest = some (longRequest, []) := by
    rw [longRequest, List.append_assoc, cutAfter_inLine (longLine_one _),
      cutAfter_inLine hversion, hblank]
    rfl
  have htake : longRequest.take 65536 = longLine 65531 := by
    rw [longRequest, List.append_assoc, List.take_append_of_le_length]
    · exact @longLine_take 65531 65536 (by decide)
    · rw [longLine_length]
      decide
  have hpiece : (longLine 65531).length = 65536 := longLine_length 65531
  have hnone : cutAfter blankLine (longLine 65531) = none := by
    rw [← List.append_nil (longLine 65531), cutAfter_inLine (longLine_one _)]
    rfl
  have hlimit : setConfigDefault.maxHttpHeadSize = 65535 := rfl
  refine ⟨?_, ?_, ?_, hcut, ?_⟩
  · have hsome : longRequest ≠ [] := List.ne_nil_of_length_pos (by omega)
    exact (wholeRead_decides hsome (by omega)).1 _ _ hcut
  · rw [htake]
    have hsome : longLine 65531 ≠ [] := List.ne_nil_of_length_pos (by omega)
    exact (wholeRead_decides hsome (by omega)).2 hnone (by omega)
  · rw [List.flatten_singleton]
    exact List.take_prefix _ _
  · rw [hlength, hlimit]
    decide

end HeadLimit
