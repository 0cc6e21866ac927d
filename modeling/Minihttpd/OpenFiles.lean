import Minihttpd.FileBalance
import Minihttpd.SystemParts

/-!
# The files a worker has open

Only the chunk in front of a write queue is opened and mapped, and a read queue
holds no file. So each connection has at most one file open, and a worker no
more files than connections.
-/
namespace OpenFiles

open ByteBuffer SystemCalls ChunkQueue ChunkQueueLaws ConnectionTypes HttpResponse HttpConnection
open StateMachine HttpWorker RequestOutcome Turns ConnectionInvariant ConnectionRuns FileBalance
open AnsweredRuns WorkerTable WorkerConnections HandlerActs Slots ServerSystem ConnectionLedger
open SystemParts FailingRun FdEvents

/-- None of the chunks has a file open or mapped. -/
def Shut (chunks : List Chunk) : Prop := ∀ c ∈ chunks, heldBy c = []

lemma shut_nil : Shut [] := by
  intro c hc
  cases hc

lemma Shut.tail {chunks : List Chunk} (h : Shut chunks) : Shut chunks.tail :=
  fun c hc => h c (List.mem_of_mem_tail hc)

lemma shut_snoc {chunks : List Chunk} {c : Chunk} (h : Shut chunks) (last : heldBy c = []) :
    Shut (chunks ++ [c]) := by
  intro d hd
  rcases List.mem_append.mp hd with hd | hd
  · exact h d hd
  · rw [List.mem_singleton.mp hd]
    exact last

lemma shut_replaceLast {chunks : List Chunk} {c : Chunk} (h : Shut chunks)
    (last : chunks.getLast? = some c) (mem : Buffer) :
    Shut (chunks.dropLast ++ [{ c with mem := mem }]) :=
  shut_snoc (fun d hd => h d (List.dropLast_subset _ hd)) (h c (List.mem_of_getLast? last))

lemma newMemory_shut {q : Chunkqueue} (clean : IdleClean q) (h : Shut q.active) (need : Nat) :
    Shut (chunkGetNewMemory q need).1.active := by
  obtain ⟨hc, hactive, _⟩ := getUnused_spec clean
  simp only [chunkGetNewMemory]
  generalize chunkqueueGetUnusedChunk q = unused at hc hactive ⊢
  change Shut (unused.2.active ++ [_])
  rw [hactive]
  exact shut_snoc h (heldBy_clean hc.fileFd hc.mmapStart)

lemma getMemory_shut {q : Chunkqueue} (clean : IdleClean q) (h : Shut q.active) (need : Nat) :
    Shut (chunkGetMemory q need).1.active := by
  rw [chunkGetMemory]
  by_cases hneed : need = 0
  · rw [if_pos hneed]
    exact h
  · rw [if_neg hneed]
    cases hlast : q.active.getLast? with
    | none => exact newMemory_shut clean h need
    | some c =>
      by_cases htype : c.chunkType = .mem
      · simp only [if_pos htype]
        generalize (if bufferIsEmpty c.mem then bufferAllocSize c.mem need else c.mem) = b
        have hsame := shut_replaceLast h hlast b
        split
        · exact hsame
        · exact newMemory_shut (idleClean_setActive clean _) hsame need
      · simp only [if_neg htype]
        exact newMemory_shut clean h need

lemma commitMemory_shut {q p : Chunkqueue} {bytes : Bytes} (h : Shut q.active)
    (run : chunkCommitMemory q bytes = .ok p) : Shut p.active := by
  rw [chunkCommitMemory] at run
  split at run
  · cases run
    exact h
  · split at run
    · cases run
    · rename_i c hlast
      split at run
      · cases run
        exact shut_replaceLast h hlast _
      · cases run

lemma handleRead_shut {ans : SysAnswers} {conn after : Connection} {n : Int} {bytes : Bytes}
    (clean : IdleClean conn.readqueue) (h : Shut conn.readqueue.active)
    (run : connectionHandleRead ans conn = .ok (n, after, bytes)) :
    Shut after.readqueue.active := by
  have hmemory := getMemory_shut clean h ans.needReadBytes
  rw [connectionHandleRead] at run
  generalize chunkGetMemory conn.readqueue ans.needReadBytes = memory at run hmemory
  obtain ⟨readqueue, place⟩ := memory
  cases place with
  | none => cases run
  | some place =>
    simp only at run
    split at run
    · cases run
      exact hmemory
    · cases run
      exact hmemory
    · cases run
      exact hmemory
    · split at run
      · cases run
        exact hmemory
      · obtain ⟨committed, hcommit, heq⟩ := bind_eq_ok.mp run
        cases heq
        exact commitMemory_shut hmemory hcommit

lemma readState_shut {config : ServerConfig} {curTs : Int} {ans : SysAnswers}
    {conn after : Connection} {bytes : Bytes} (clean : IdleClean conn.readqueue)
    (h : Shut conn.readqueue.active)
    (run : connectionHandleReadState config curTs ans conn = .ok (after, bytes)) :
    Shut after.readqueue.active := by
  rw [connectionHandleReadState] at run
  split at run
  · cases run
    exact h
  · obtain ⟨⟨n, mid, got⟩, hread, run⟩ := bind_eq_ok.mp run
    have hmid := @handleRead_shut ans { conn with activeReadTs := curTs } _ _ _ clean h hread
    simp only at run
    split at run
    · cases run
      exact hmid
    · split at run
      · cases run
        exact hmid
      · split at run
        · cases run
          exact hmid
        · obtain ⟨examined, hexamine, heq⟩ := bind_eq_ok.mp run
          cases heq
          cases examineReadqueue_outcome hexamine with
          | complete => exact hmid
          | tooLong => exact hmid
          | waiting => exact hmid

/-- What is left of a queue, in front of which a chunk may be open, is such again. -/
lemma dropWritten_tail (chunks : List Chunk) (len : Nat) (h : Shut chunks.tail) :
    Shut (dropWritten chunks len).2.tail := by
  induction chunks generalizing len with
  | nil => exact shut_nil
  | cons c rest ih =>
    rw [dropWritten]
    split
    · exact h
    · split
      · exact ih _ (Shut.tail h)
      · exact h

lemma markWritten_tail {q : Chunkqueue} (h : Shut q.active.tail) (len : Nat) :
    Shut (chunkqueueMarkWritten q len).2.active.tail := by
  rw [chunkqueueMarkWritten, (markWrittenLoop_active q.active q len).2]
  exact dropWritten_tail q.active len h

lemma removeFinished_tail {q : Chunkqueue} (h : Shut q.active.tail) :
    Shut (chunkqueueRemoveFinishedChunk q).active.tail := by
  have loop : ∀ (active : List Chunk) (p : Chunkqueue), Shut active.tail →
      Shut (removeFinishedLoop p active).active.tail := by
    intro active
    induction active with
    | nil => exact fun p hp => hp
    | cons c rest ih =>
      intro p hp
      rw [removeFinishedLoop]
      split
      · exact hp
      · exact ih _ (Shut.tail hp)
  exact loop q.active q h

lemma writev_tail {q : Chunkqueue} {answer : WriteAnswer} {t : WriteTurn}
    (h : Shut q.active.tail) (run : connectionWritevMemChunk q answer = .ok t) :
    Shut t.queue.active.tail := by
  rw [connectionWritevMemChunk] at run
  obtain ⟨sendChunks, _, run⟩ := bind_eq_ok.mp run
  split at run
  · cases run
    exact removeFinished_tail h
  · split at run
    · cases run
      exact h
    · simp only at run
      split at run
      · split at run
        · cases run
        · cases run
          exact markWritten_tail h _
      · cases run
        exact h

lemma sendMapped_tail {file : Bytes → Nat → UInt8} {q : Chunkqueue} {c : Chunk} {m : Mapping}
    {offset sendLen : Nat} {answer : WriteAnswer} {t : WriteTurn} (h : Shut q.active.tail)
    (run : sendMapped file q c m offset sendLen answer = .ok t) : Shut t.queue.active.tail := by
  rw [sendMapped] at run
  split at run
  · split at run
    · cases run
      exact h
    · cases run
      exact h
    · cases run
      exact h
    · cases run
      simp only
      split
      · exact markWritten_tail h _
      · exact h
  · cases run

/-- A file is opened and mapped in the chunk in front, the others stay as they are. -/
lemma sendFile_tail {ans : SysAnswers} {turn : Nat} {q : Chunkqueue} {c : Chunk}
    {rest : List Chunk} {t : WriteTurn} (active : q.active = c :: rest) (h : Shut rest)
    (run : connectionSendFileChunk ans turn q c rest = .ok t) : Shut t.queue.active.tail := by
  simp only [connectionSendFileChunk] at run
  split at run
  · split at run
    · cases run
    · split at run
      · cases run
        rw [active]
        exact h
      · split at run
        · cases run
          exact h
        · refine sendMapped_tail ?_ run
          exact h
  · cases run

lemma writeTurn_tail {ans : SysAnswers} {turn : Nat} {q : Chunkqueue} {t : WriteTurn}
    (h : Shut q.active.tail) (run : connectionHandleWriteTurn ans turn q = .ok t) :
    Shut t.queue.active.tail := by
  rw [connectionHandleWriteTurn] at run
  split at run
  · cases run
    exact h
  · rename_i c rest hactive
    split at run
    · exact writev_tail h run
    · rw [hactive] at h
      exact sendFile_tail hactive h run

lemma handleWrite_tail {ans : SysAnswers} {q : Chunkqueue} {t : WriteTurn}
    (h : Shut q.active.tail) (run : connectionHandleWrite ans q = .ok t) :
    Shut t.queue.active.tail := by
  have loop : ∀ (fuel turn : Nat) (q : Chunkqueue) (sent : Bytes), Shut q.active.tail →
      handleWriteLoop ans fuel turn q sent = .ok t → Shut t.queue.active.tail := by
    intro fuel
    induction fuel with
    | zero =>
      intro turn q sent _ run
      cases run
    | succ fuel ih =>
      intro turn q sent h run
      rw [handleWriteLoop] at run
      split at run
      · cases run
        exact h
      · obtain ⟨first, hfirst, run⟩ := bind_eq_ok.mp run
        have hnext := writeTurn_tail h hfirst
        split at run
        · cases run
          exact hnext
        · exact ih (turn + 1) first.queue _ hnext run
  exact loop _ 0 q [] h run

lemma appendBuffer_shut {q p : Chunkqueue} {mem : Buffer} (clean : IdleClean q)
    (h : Shut q.active) (run : chunkqueueAppendBuffer q mem = .ok p) : Shut p.active := by
  obtain ⟨c, hactive, _, _, _, _, _, _, hclean⟩ := appendBuffer_spec clean run
  rw [hactive]
  exact shut_snoc h (heldBy_clean hclean.fileFd hclean.mmapStart)

lemma appendFile_shut {q p : Chunkqueue} {filename : Buffer} {offset len : Nat}
    (clean : IdleClean q) (h : Shut q.active)
    (run : chunkqueueAppendFile q filename offset len = .ok p) : Shut p.active := by
  rcases appendFile_spec clean run with ⟨_, _, rfl⟩ |
    ⟨_, _, c, hactive, _, _, _, _, hfd, hmap, _⟩
  · exact h
  · rw [hactive]
    exact shut_snoc h (heldBy_clean hfd hmap)

/-- A connection has at most the file open that it is sending. -/
structure OneOpen (conn : Connection) : Prop where
  readqueue : Shut conn.readqueue.active
  behind : Shut conn.writequeue.active.tail
  queued : conn.state = .responseStart → Shut conn.writequeue.active

lemma handle_shut {config : ServerConfig} {ans : SysAnswers} {conn after : Connection}
    {events : List Event} (clean : IdleClean conn.writequeue) (h : Shut conn.writequeue.active)
    (outcome : HandleOutcome config ans conn after events) : Shut after.writequeue.active := by
  cases outcome with
  | answered => exact h
  | refused => exact h
  | file _ _ _ _ _ hqueue => exact appendFile_shut clean h hqueue
  | listing _ _ _ _ hqueue => exact appendBuffer_shut clean h hqueue

lemma handle_readqueue {config : ServerConfig} {ans : SysAnswers} {conn after : Connection}
    {events : List Event} (outcome : HandleOutcome config ans conn after events) :
    after.readqueue = conn.readqueue := by
  cases outcome with
  | answered | refused | file | listing => rfl

lemma prepare_tail {config : ServerConfig} {ans : SysAnswers} {conn mid : Connection}
    {text : String} {writequeue : Chunkqueue} (clean : IdleClean conn.writequeue)
    (h : Shut conn.writequeue.active) (body : BodyOutcome conn mid)
    (head : chunkqueuePrependBuffer mid.writequeue
      (responseHead config ans (setContentLength mid) text) = .ok writequeue) :
    Shut writequeue.active.tail := by
  cases body with
  | kept =>
    obtain ⟨c, hactive, _⟩ := prependBuffer_spec clean head
    rw [hactive]
    exact h
  | page _ queue _ _ hqueue =>
    obtain ⟨_, _, hclean, _⟩ := appendBuffer_spec clean hqueue
    obtain ⟨c, hactive, _⟩ := prependBuffer_spec hclean head
    rw [hactive]
    exact appendBuffer_shut clean h hqueue

/-- Reading leaves the write queue alone. -/
lemma read_writequeue {config : ServerConfig} {curTs : Int} {ans : SysAnswers}
    {conn after : Connection} {bytes : Bytes} (state : conn.state = .read)
    (outcome : ReadStateOutcome config curTs ans conn after bytes) :
    after.writequeue = conn.writequeue ∧ after.state ≠ .responseStart := by
  have hstay : conn.state ≠ .responseStart := by
    rw [state]
    exact ConnectionState.noConfusion
  have hsame : ∀ mid, ReadStep curTs ans conn mid →
      mid.writequeue = conn.writequeue ∧ mid.state ≠ .responseStart := by
    intro mid step
    rw [step.fields]
    exact ⟨rfl, hstay⟩
  cases outcome with
  | skipped => exact ⟨rfl, hstay⟩
  | nothing _ step => exact hsame _ step
  | failed mid step => exact ⟨(hsame mid step).1, ConnectionState.noConfusion⟩
  | endOfFile mid step => exact ⟨(hsame mid step).1, ConnectionState.noConfusion⟩
  | got mid _ step _ _ hexamine =>
    cases hexamine with
    | complete => exact ⟨(hsame mid step).1, ConnectionState.noConfusion⟩
    | tooLong => exact ⟨(hsame mid step).1, ConnectionState.noConfusion⟩
    | waiting => exact hsame _ step

lemma writeState_oneOpen {curTs : Int} {ans : SysAnswers} {conn after : Connection}
    {bytes : Bytes} (state : conn.state = .write) (h : OneOpen conn)
    (run : connectionHandleWriteState curTs ans conn = .ok (after, bytes)) : OneOpen after := by
  have hstay : conn.state ≠ .responseStart := by
    rw [state]
    exact ConnectionState.noConfusion
  rw [connectionHandleWriteState] at run
  split at run
  · cases run
    exact h
  · obtain ⟨t, ht, hrest⟩ := bind_eq_ok.mp run
    have hqueue := handleWrite_tail h.behind ht
    simp only at hrest
    split at hrest
    · cases hrest
      refine ⟨h.readqueue, hqueue, fun hqueued => ?_⟩
      simp only at hqueued
      split at hqueued
      · cases hqueued
      · exact absurd hqueued hstay
    · split at hrest
      · cases hrest
        exact ⟨h.readqueue, hqueue, fun hqueued => absurd hqueued hstay⟩
      · split at hrest
        · cases hrest
          exact ⟨h.readqueue, hqueue, fun hqueued => absurd hqueued hstay⟩
        · cases hrest
          exact ⟨h.readqueue, hqueue, ConnectionState.noConfusion⟩

theorem turn_oneOpen {config : ServerConfig} {ans : SysAnswers} {m next : Machine}
    (inv : ConnInv config m.conn) (h : OneOpen m.conn) (turn : Turn config ans m next) :
    OneOpen next.conn := by
  cases turn with
  | started => exact ⟨h.readqueue, h.behind, ConnectionState.noConfusion⟩
  | parsed result _ _ houtcome =>
    cases houtcome with
    | accepted | rejected => exact ⟨h.readqueue, h.behind, ConnectionState.noConfusion⟩
  | handled after events hstate houtcome =>
    have hempty : m.conn.writequeue.active = [] := by
      have hphase := inv.phase
      rw [StateInv, hstate] at hphase
      exact hphase.empty
    have hafter : Shut after.writequeue.active :=
      @handle_shut config ans { m.conn with connectionResponse := responseInitialize } after events
        inv.writequeue.idle (by rw [hempty]; exact shut_nil) houtcome
    refine ⟨?_, hafter.tail, fun _ => hafter⟩
    change Shut after.readqueue.active
    rw [handle_readqueue houtcome]
    exact h.readqueue
  | prepared mid text writequeue hstate hbody _ hqueue =>
    refine ⟨?_, prepare_tail inv.writequeue.idle (h.queued hstate) hbody hqueue,
      ConnectionState.noConfusion⟩
    change Shut (setContentLength mid).readqueue.active
    rw [body_readqueue hbody]
    exact h.readqueue
  | read after bytes hstate hread houtcome =>
    obtain ⟨hsame, hstate'⟩ := read_writequeue hstate houtcome
    refine ⟨readState_shut inv.idle h.readqueue hread, ?_, fun hqueued => absurd hqueued hstate'⟩
    change Shut after.writequeue.active.tail
    rw [hsame]
    exact h.behind
  | wrote after bytes hstate _ hwrite _ =>
    have hafter := writeState_oneOpen hstate h hwrite
    exact ⟨hafter.readqueue, hafter.behind, hafter.queued⟩
  | finished => exact ⟨h.readqueue, h.behind, ConnectionState.noConfusion⟩
  | ended hstate =>
    rw [handleResponseEnd]
    split
    · exact ⟨shut_nil, shut_nil, ConnectionState.noConfusion⟩
    · exact ⟨shut_nil, shut_nil, ConnectionState.noConfusion⟩
  | failed => exact ⟨shut_nil, shut_nil, fun _ => shut_nil⟩
  | lingers ts hstate =>
    refine ⟨h.readqueue, h.behind, fun hqueued => ?_⟩
    exact h.queued hqueued
  | closed => exact ⟨h.readqueue, h.behind, ConnectionState.noConfusion⟩
  | gone => exact h

theorem reached_oneOpen {config : ServerConfig} {phase : Phase} {m : Machine}
    (h : Reached config phase m) : OneOpen m.conn := by
  induction h with
  | accepted haccepted =>
    obtain ⟨index, fd, hconn⟩ := haccepted.conn
    rw [hconn]
    exact ⟨shut_nil, shut_nil, ConnectionState.noConfusion⟩
  | turn hbefore hturn _ ih =>
    have inv := (reached_inv hbefore).1.conn
    exact @turn_oneOpen _ _ (Machine.emit _ _) _ inv ih (turn_cases inv hturn)
  | settled hbefore hturn same open_still hupdate ih =>
    have hinv := (reached_inv hbefore).1
    obtain ⟨rest, hrest, _, _, hconn, _⟩ := settled_rests hinv hturn same open_still
    rw [hupdate] at hrest
    cases hrest
    rw [hconn]
    exact @turn_oneOpen _ _ (Machine.emit _ _) _ hinv.conn ih (turn_cases hinv.conn hturn)
  | @event m mask now _ ih =>
    obtain ⟨readable, writeable, heq | heq | ⟨_, heq⟩⟩ := noteEvents_cases mask now m.conn <;>
      rw [heq]
    · exact ⟨ih.readqueue, ih.behind, ih.queued⟩
    · exact ⟨ih.readqueue, ih.behind, ConnectionState.noConfusion⟩
    · exact ⟨ih.readqueue, ih.behind, ih.queued⟩
  | clock now _ ih => exact ih
  | expired _ hexpire ih =>
    rcases timerExpire_cases hexpire with rfl | ⟨_, rfl⟩
    · exact ⟨ih.readqueue, ih.behind, ConnectionState.noConfusion⟩
    · exact ih

/-- The descriptors of the files that a connection has open. -/
def fileDescriptors (conn : Connection) : List Nat :=
  (conn.readqueue.active ++ conn.writequeue.active).filterMap Chunk.fileFd

/-- The descriptors of the files that a worker has open. -/
def openFiles (w : Worker) : List Nat := (held w.heap w.conn).flatMap fileDescriptors

lemma shut_files {chunks : List Chunk} (h : Shut chunks) : chunks.filterMap Chunk.fileFd = [] := by
  rw [List.filterMap_eq_nil_iff]
  intro c hc
  have hheld := h c hc
  rw [heldBy] at hheld
  cases hfd : c.fileFd with
  | none => rfl
  | some fd =>
    rw [hfd] at hheld
    cases hheld

lemma OneOpen.files {conn : Connection} (h : OneOpen conn) :
    (fileDescriptors conn).length ≤ 1 := by
  rw [fileDescriptors, List.filterMap_append, shut_files h.readqueue, List.nil_append]
  have hbehind := h.behind
  cases hactive : conn.writequeue.active with
  | nil => exact Nat.zero_le 1
  | cons c rest =>
    rw [hactive] at hbehind
    have hrest : rest.filterMap Chunk.fileFd = [] := shut_files hbehind
    rw [List.filterMap_cons, hrest]
    cases c.fileFd with
    | none => exact Nat.zero_le 1
    | some fd => exact Nat.le_refl 1

lemma openFiles_length {w : Worker} (one : ∀ conn ∈ held w.heap w.conn, OneOpen conn) :
    (openFiles w).length ≤ (held w.heap w.conn).length := by
  rw [openFiles]
  generalize held w.heap w.conn = conns at one
  induction conns with
  | nil => exact Nat.le_refl 0
  | cons conn rest ih =>
    have hfirst := (one conn List.mem_cons_self).files
    have hrest := ih fun d hd => one d (List.mem_cons_of_mem conn hd)
    rw [List.flatMap_cons, List.length_append, List.length_cons]
    omega

/-- The number of slots does not change. -/
lemma called_slots {config : ServerConfig} {admits : SysAnswers → Prop} {w next : Worker} {a : Nat}
    {conn : Connection} {m : Machine} (called : Called config admits w a conn m next) :
    next.connMaxSize = w.connMaxSize := by
  rw [called.worker]
  split
  · exact List.length_set
  · rfl

lemma acts_slots {config : ServerConfig} {admits : SysAnswers → Prop} {w next : Worker}
    {log : List (Nat × List Event)} (acts : Acts config admits w next log) :
    next.connMaxSize = w.connMaxSize := by
  induction acts with
  | none => rfl
  | act _ hact ih =>
    rw [← ih]
    cases hact with
    | clock | deaf | refuse => rfl
    | add _ _ _ _ _ _ _ _ called => exact (called_slots called).trans List.length_set
    | call _ _ _ _ _ _ _ _ _ called => exact called_slots called

/-- A worker has at most one file open for each of its connections. In every
run of the system, a connection has a file open and mapped only in the chunk in
front of its write queue, and none in its read queue. So a worker, whose table
has a slot for every two descriptors it may have, does not need more than these
for its connections and their files; those of the worker itself come on top. -/
theorem files_bounded {config : ServerConfig} {admits : SysAnswers → Prop} {start s : System}
    (begun : Begun start) (runs : Runs config admits start s) {i : Nat}
    (worker : i < s.main.child.length) (running : (s.worker i).exited = false) :
    (∀ a conn, (s.worker i).worker.heap a = some conn →
      Shut conn.readqueue.active ∧ Shut conn.writequeue.active.tail) ∧
    (openFiles (s.worker i).worker).length ≤ (s.worker i).opened.length ∧
    (s.worker i).opened.length + (openFiles (s.worker i).worker).length ≤
      2 * (start.worker i).worker.connMaxSize := by
  obtain ⟨hviews, htable⟩ := running_views begun runs worker running
  have hone : ∀ a conn, (s.worker i).worker.heap a = some conn → OneOpen conn := by
    intro a conn hconn
    obtain ⟨_, _, n, hreached, rfl, _⟩ := hviews.lives htable hconn
    exact reached_oneOpen hreached.reached
  obtain ⟨hcounter, hroom⟩ := htable.ok.counter
  -- every full slot holds a connection, so the files are no more than the slots
  have hheld : (held (s.worker i).worker.heap (s.worker i).worker.conn).length =
      (s.worker i).worker.curConnectionNumber := by
    rw [hcounter]
    refine held_length (fun j a hslot => ?_)
    obtain ⟨conn, _, hconn, _⟩ := htable.ok.slots j a hslot
    rw [hconn]
    rfl
  have hfiles : (openFiles (s.worker i).worker).length ≤
      (s.worker i).worker.curConnectionNumber := by
    rw [← hheld]
    apply openFiles_length
    intro conn hconn
    obtain ⟨_, a, _, hheap⟩ := exists_slot hconn
    exact hone a conn hheap
  have hopened := opened_length ((runs_workerSide begun runs).working i worker running)
  have hslots : (s.worker i).worker.connMaxSize = (start.worker i).worker.connMaxSize := by
    obtain ⟨_, _, _, _, _, _, hstart⟩ := begun.started i (runs_length runs ▸ worker)
    exact acts_slots ((runs_worker begun runs running).acts (workerStart_inv config hstart))
  refine ⟨fun a conn hconn => ⟨(hone a conn hconn).readqueue, (hone a conn hconn).behind⟩, ?_, ?_⟩
  · rw [hopened]
    exact hfiles
  · rw [hopened, ← hslots]
    omega

/-- A request for a file on the first connection; only the head of the response goes out. -/
def fileExchange : HandlerCall :=
  .connection 0 ⟨true, true, false, false, false⟩ 0 fun k =>
    (requestAnswers sampleRequest (.found ⟨.regular, 3, 0⟩) ++
      [SysAnswers.failing, headOnlyAnswers]).getD k SysAnswers.failing

/-- The file that worker 0 sends on its first connection, open there. -/
theorem files_bounded_open : ∃ s : System, openFiles (s.worker 0).worker = [7] ∧
    [7].length ≤ (s.worker 0).opened.length ∧
    (s.worker 0).opened.length + [7].length ≤ 2 * 4 := by
  obtain ⟨w, next, s, hw, hnext, hrun, hfirst, _⟩ := @first_connection (fun _ => True) trivial
  have hcheck : (workerStart 16 ctlSucceeds 4 3 4 0).toOption.any (fun w =>
      (handlerCall setConfigDefault w firstCall).toOption.any fun next =>
        (next.ev.handlerArray 5).map Fdnode.ctx == some (HandlerCtx.connection 0) &&
        w.connMaxSize == 4 &&
        (handlerCall setConfigDefault next fileExchange).toOption.any fun after =>
          openFiles after == [7]) = true := by
    decide +kernel
  rw [hw] at hcheck
  simp only [Except.toOption, Option.any_some, hnext] at hcheck
  obtain ⟨hbegins, hafter⟩ := Bool.and_eq_true_iff.mp hcheck
  obtain ⟨hnode, hslots⟩ := Bool.and_eq_true_iff.mp hbegins
  obtain ⟨after, hcall, hfiles⟩ := (Option.any_eq_true _ _).mp hafter
  obtain ⟨last, hstep, _, hworker⟩ := first_handled hrun hfirst (eq_of_beq hnode)
    (fun _ => trivial) (toOption_eq_some hcall)
  have hopen : openFiles (last.worker 0).worker = [7] := by
    rw [hworker]
    exact eq_of_beq hfiles
  obtain ⟨_, hfewer, hroom⟩ := @files_bounded _ _ _ _ (serverOf_begun hw) hstep 0
    (by rw [runs_length hstep]; exact Nat.zero_lt_two) (by rw [hworker]; exact hfirst.running)
  have hstart : ((serverOf w).worker 0).worker.connMaxSize = 4 := eq_of_beq hslots
  rw [hopen] at hfewer hroom
  rw [hstart] at hroom
  exact ⟨last, hopen, hfewer, hroom⟩

end OpenFiles
