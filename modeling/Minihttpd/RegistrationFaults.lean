import Minihttpd.StateMachine
import Minihttpd.Library.FailingRun

/-!
# Faults of the event array

The states of a connection read and write its buffers and its queues. The array
of the registered descriptors, with its assertions, is reached from the close
of a connection only.
-/
namespace RegistrationFaults

open ByteBuffer SystemCalls ChunkQueue ConnectionTypes HttpRequest HttpResponse HttpConnection
open StateMachine FailingRun

/-- No assertion of the table or of the event array fails. -/
def Spares {α : Type} (x : Except Fault α) : Prop := x ≠ .error .registration

section Sequences
variable {α β : Type}

@[simp] lemma spares_ok (a : α) : Spares (.ok a : Except Fault α) := fun h => by cases h

@[simp] lemma spares_pure (a : α) : Spares (pure a : Except Fault α) := spares_ok a

@[simp] lemma spares_error {e : Fault} : Spares (.error e : Except Fault α) ↔ e ≠ .registration :=
  not_congr (by rw [Except.error.injEq])

lemma Spares.bind {x : Except Fault α} {f : α → Except Fault β} (first : Spares x)
    (second : ∀ a, Spares (f a)) : Spares (x >>= f) :=
  bind_ne_error first fun a _ => second a

lemma spares_foldlM {step : β → α → Except Fault β} (each : ∀ b a, Spares (step b a))
    (inputs : List α) (b : β) : Spares (inputs.foldlM step b) := by
  induction inputs generalizing b with
  | nil => exact spares_pure b
  | cons a rest ih =>
    rw [List.foldlM_cons]
    exact (each b a).bind ih

end Sequences

lemma appendString_spares (b : Buffer) (s : Bytes) : Spares (bufferAppendString b s) := by
  have hstore : ∀ b text, Spares (storeString b text) := by
    intro b text
    rw [storeString]
    split <;> simp
  rw [bufferAppendString, bufferAppendStringLength]
  split
  · exact spares_ok b
  · dsimp only
    split <;> exact hstore _ _

lemma appendStrings_spares (b : Buffer) (parts : List Bytes) :
    Spares (bufferAppendStrings b parts) := spares_foldlM appendString_spares parts b

lemma appendBuffer_spares (b src : Buffer) : Spares (bufferAppendBuffer b src) := by
  rw [bufferAppendBuffer]
  split
  · simp
  · split <;>
    · rw [storeString]
      split <;> simp

lemma copyBuffer_spares (des src : Buffer) : Spares (bufferCopyBuffer des src) := by
  rw [bufferCopyBuffer]
  split <;> simp

lemma queueBuffer_spares (q : Chunkqueue) (mem : Buffer) :
    Spares (chunkqueueAppendBuffer q mem) ∧ Spares (chunkqueuePrependBuffer q mem) :=
  ⟨(copyBuffer_spares _ _).bind fun _ => spares_pure _,
    (copyBuffer_spares _ _).bind fun _ => spares_pure _⟩

lemma parse_spares (config : ServerConfig) (conn : Connection) :
    Spares (httpReuqestParse config conn) := by
  rw [httpReuqestParse]
  split
  · exact spares_ok _
  · exact spares_ok _
  · exact spares_ok _
  · refine (appendString_spares _ _).bind fun method => ?_
    have hmethod : Spares (httpGetRequestMethod method) := by
      rw [httpGetRequestMethod]
      split
      · simp
      · split <;> exact spares_ok _
    refine hmethod.bind fun key => ?_
    split
    · exact spares_pure _
    · refine (copyBuffer_spares _ _).bind fun _ => ?_
      dsimp only
      split <;> exact spares_pure _

lemma lastCharacter_spares (b : Buffer) : Spares (lastCharacter b) := by
  rw [lastCharacter]
  split <;> simp

lemma closeWithSlash_spares (b : Buffer) (last : UInt8) : Spares (closeWithSlash b last) := by
  rw [closeWithSlash]
  split
  · exact appendString_spares b _
  · exact spares_ok b

lemma directoryLine_spares (ans : SysAnswers) (requestUrl : Buffer) (name : Bytes) (s : Stat) :
    Spares (directoryLine ans requestUrl name s) := by
  have hdate : Spares (lastModifiedTime ans s) := by
    rw [lastModifiedTime]
    split <;> simp
  rw [directoryLine]
  refine (copyBuffer_spares _ _).bind fun _ => ?_
  refine (lastCharacter_spares _).bind fun _ => ?_
  refine (closeWithSlash_spares _ _).bind fun _ => ?_
  refine (appendString_spares _ _).bind fun _ => ?_
  refine (appendString_spares _ _).bind fun _ => ?_
  refine (appendBuffer_spares _ _).bind fun _ => ?_
  refine (appendStrings_spares _ _).bind fun _ => ?_
  exact hdate.bind fun _ => spares_pure _

lemma entryPath_spares (directoryPath : Buffer) (name : Bytes) :
    Spares (entryPath directoryPath name) := by
  rw [entryPath]
  refine (copyBuffer_spares _ _).bind fun _ => ?_
  refine (lastCharacter_spares _).bind fun _ => ?_
  exact (closeWithSlash_spares _ _).bind fun _ => appendString_spares _ _

lemma listEntries_spares (ans : SysAnswers) (requestUrl directoryPath : Buffer)
    (entries : List Dirent) (b : Buffer) :
    Spares (listEntries ans requestUrl directoryPath entries b) := by
  have hentry : ∀ entry b, Spares (listEntry ans requestUrl entry b) := by
    intro entry b
    rw [listEntry]
    split
    · exact spares_ok b
    · exact (directoryLine_spares _ _ _ _).bind fun _ => appendString_spares _ _
  induction entries generalizing b with
  | nil => exact spares_ok _
  | cons entry rest ih =>
    rw [listEntries]
    split
    · exact ih b
    · refine (entryPath_spares _ _).bind fun _ => (hentry _ _).bind fun _ => ?_
      exact (ih _).bind fun _ => spares_pure _

lemma directoryParse_spares (ans : SysAnswers) (conn : Connection) (directoryPath : Buffer) :
    Spares (httpHandleDirectoryParse ans conn directoryPath) := by
  have hread : ∀ b, Spares (readDirectory ans conn.connectionRequest.requestUrl directoryPath b) := by
    intro b
    rw [readDirectory]
    split
    · exact spares_ok _
    · exact listEntries_spares _ _ _ _ _
  rw [httpHandleDirectoryParse]
  split
  · simp
  · refine (appendStrings_spares _ _).bind fun _ => ?_
    refine (appendBuffer_spares _ _).bind fun _ => ?_
    refine (lastCharacter_spares _).bind fun _ => ?_
    refine (closeWithSlash_spares _ _).bind fun _ => ?_
    refine (appendStrings_spares _ _).bind fun _ => ?_
    refine (closeWithSlash_spares _ _).bind fun _ => ?_
    refine (appendString_spares _ _).bind fun _ => (hread _).bind fun _ => ?_
    exact (appendStrings_spares _ _).bind fun _ => spares_pure _

lemma appendFile_spares (q : Chunkqueue) (filename : Buffer) (offset len : Nat) :
    Spares (chunkqueueAppendFile q filename offset len) := by
  rw [chunkqueueAppendFile]
  split
  · simp
  · split
    · exact spares_pure q
    · exact (copyBuffer_spares _ _).bind fun _ => spares_pure _

lemma handle_spares (config : ServerConfig) (ans : SysAnswers) (conn : Connection) :
    Spares (httpRequestHandle config ans conn) := by
  have hpath : Spares (withFullpath config conn) :=
    (appendStrings_spares _ _).bind fun _ => spares_pure _
  have hfile : ∀ c size, Spares (serveFile config c size) := fun c size =>
    (appendFile_spares _ _ _ _).bind fun _ => spares_pure _
  have hdirectory : ∀ c, Spares (serveDirectory ans c) := fun c =>
    (directoryParse_spares _ _ _).bind fun _ =>
      (queueBuffer_spares _ _).1.bind fun _ => spares_pure _
  rw [httpRequestHandle]
  split
  · exact spares_pure _
  · split
    · simp
    · refine hpath.bind fun c => ?_
      dsimp only
      split
      · exact spares_pure _
      · split
        · exact (hfile _ _).bind fun _ => spares_pure _
        · exact (hdirectory _).bind fun _ => spares_pure _
        · exact spares_pure _

lemma prepare_spares (config : ServerConfig) (ans : SysAnswers) (conn : Connection) :
    Spares (connectionHandlePrepareResponseHead config ans conn) := by
  have hbody : ∀ c, Spares (customizeBody c) := by
    intro c
    rw [customizeBody]
    split
    · exact spares_ok _
    · split
      · exact spares_ok c
      · rw [appendErrorPage]
        split
        · simp
        · exact (appendStrings_spares _ _).bind fun _ =>
            (queueBuffer_spares _ _).1.bind fun _ => spares_pure _
  refine (hbody _).bind fun c => ?_
  rw [connectionWriteResponseHead]
  split
  · simp
  · exact (appendStrings_spares _ _).bind fun _ =>
      (queueBuffer_spares _ _).2.bind fun _ => spares_pure _

lemma gatherChunks_spares (active : List Chunk) (room : Nat) :
    Spares (gatherChunks active room) := by
  induction active generalizing room with
  | nil => exact spares_ok _
  | cons c rest ih =>
    rw [gatherChunks]
    split
    · exact spares_ok _
    · split
      · dsimp only
        split
        · exact (ih _).bind fun _ => spares_ok _
        · exact ih room
      · simp

lemma writeTurn_spares (ans : SysAnswers) (turn : Nat) (q : Chunkqueue) :
    Spares (connectionHandleWriteTurn ans turn q) := by
  have hmapped : ∀ q c m offset len answer,
      Spares (sendMapped ans.file q c m offset len answer) := by
    intro q c m offset len answer
    rw [sendMapped]
    split
    · split <;> exact spares_ok _
    · simp
  rw [connectionHandleWriteTurn]
  split
  · exact spares_ok _
  · split
    · refine (gatherChunks_spares _ _).bind fun pieces => ?_
      split
      · exact spares_pure _
      · split
        · exact spares_pure _
        · dsimp only
          split
          · split <;> simp
          · exact spares_pure _
    · rw [connectionSendFileChunk]
      split
      · dsimp only
        split
        · simp
        · split
          · exact spares_ok _
          · split
            · exact spares_ok _
            · exact hmapped _ _ _ _ _ _
      · simp

lemma writeLoop_spares (ans : SysAnswers) (fuel turn : Nat) (q : Chunkqueue) (sent : Bytes) :
    Spares (handleWriteLoop ans fuel turn q sent) := by
  induction fuel generalizing turn q sent with
  | zero => simp [handleWriteLoop]
  | succ fuel ih =>
    rw [handleWriteLoop]
    split
    · exact spares_ok _
    · refine (writeTurn_spares _ _ _).bind fun t => ?_
      split
      · exact spares_pure _
      · exact ih _ _ _

lemma writeState_spares (curTs : Int) (ans : SysAnswers) (conn : Connection) :
    Spares (connectionHandleWriteState curTs ans conn) := by
  rw [connectionHandleWriteState]
  split
  · exact spares_ok _
  · refine (writeLoop_spares _ _ _ _ _).bind fun t => ?_
    dsimp only
    split
    · exact spares_pure _
    · split
      · exact spares_pure _
      · split <;> exact spares_pure _

/-- Where a request is parsed or handled, a head is prepared, or a response is
written, no assertion of the event array is reached. -/
theorem iteration_spares {config : ServerConfig} {ans : SysAnswers} {m : Machine}
    (state : m.conn.state = .requestEnd ∨ m.conn.state = .handleRequest ∨
      m.conn.state = .responseStart ∨ m.conn.state = .write) :
    Spares (connectionIteration config ans m) := by
  simp only [connectionIteration, Machine.emit]
  rcases state with hstate | hstate | hstate | hstate <;> rw [hstate]
  · exact (parse_spares _ _).bind fun _ => spares_pure _
  · exact (handle_spares _ _ _).bind fun _ => spares_pure _
  · exact (prepare_spares _ _ _).bind fun _ => spares_pure _
  · simp only [handleWrite]
    split
    · exact (writeState_spares _ _ _).bind fun _ => spares_pure _
    · split <;> exact spares_ok _

end RegistrationFaults
