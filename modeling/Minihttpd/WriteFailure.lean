import Minihttpd.SendWindow

/-!
# Failures of the write paths

`connection_handle_write` promises -1 where writing can go on later and -2
where the connection has to be closed. Which of the two a failure gets depends
on the path it is met on: `connection_writev_mem_chunk` switches on the result
of `writev` instead of `errno`, and `connection_send_file_chunk` returns -1
for `open` and `mmap` as well.
-/
namespace WriteFailure

open ByteBuffer SystemCalls ChunkQueue ConnectionTypes HttpConnection SendWindow FailingRun

inductive FailedCall where
  | writev (errno : Errno)
  | write (errno : Errno)
  | openFile
  | mmap
  deriving DecidableEq, Repr

/-- The socket is full, or the call was interrupted. -/
def FailedCall.temporary : FailedCall → Bool
  | .writev errno => errno == .eintr || errno == .eagain
  | .write errno => errno == .eintr || errno == .eagain
  | .openFile => false
  | .mmap => false

/-- The result that the failure should have. -/
def promisedCode (f : FailedCall) : Int := if f.temporary then -1 else -2

/-- The failures of either path that its own switch tells apart. -/
def FailedCall.distinguished : FailedCall → Bool
  | .writev errno => !(errno == .eintr || errno == .eagain)
  | .write _ => true
  | .openFile => false
  | .mmap => false

def failedErrno : WriteAnswer → Option Errno
  | .fail errno => some errno
  | .accept _ => none

/-- The call that fails in a turn on the file chunk `c`. -/
def fileFailure (ans : SysAnswers) (turn : Nat) (c : Chunk) : Option FailedCall :=
  if c.chunkOffset ≤ c.fileLength ∧ u32Sub c.fileLength c.chunkOffset ≠ 0 then
    match openFileChunk c (ans.openFile turn) with
    | none => some .openFile
    | some (opened, _) =>
      let d := (windowedChunk ans turn opened).1
      if d.mmapStart.isNone then some .mmap
      else if d.mmapOffset ≤ sendOffset c then (failedErrno (ans.write turn)).map .write
      else none
  else none

/-- The call that fails in a turn of the loop. -/
def turnFailure (ans : SysAnswers) (turn : Nat) (queue : Chunkqueue) : Option FailedCall :=
  match queue.active with
  | [] => none
  | c :: _ =>
    match c.chunkType with
    | .mem =>
      match gatherChunks queue.active 16 with
      | .ok (_ :: _) => (failedErrno (ans.write turn)).map .writev
      | _ => none
    | .file => fileFailure ans turn c

/-- The call that fails in a run of the loop, in its last turn. -/
def loopFailure (ans : SysAnswers) : Nat → Nat → Chunkqueue → Option FailedCall
  | 0, _, _ => none
  | fuel + 1, turn, queue =>
    if queue.active = [] then none
    else
      match turnFailure ans turn queue with
      | some f => some f
      | none =>
        match connectionHandleWriteTurn ans turn queue with
        | .ok t => if t.code = 0 then loopFailure ans fuel (turn + 1) t.queue else none
        | .error _ => none

/-- The result that the failure has. -/
def returnedCode : FailedCall → Int
  | .writev _ => -2
  | .write errno => if errno = .eintr ∨ errno = .eagain then -1 else -2
  | .openFile => -1
  | .mmap => -1

lemma returnedCode_ne_zero (f : FailedCall) : returnedCode f ≠ 0 := by
  cases f with
  | writev errno => exact (by decide : (-2 : Int) ≠ 0)
  | write errno => cases errno <;> decide
  | openFile => decide
  | mmap => decide

lemma writev_failure {queue : Chunkqueue} {answer : WriteAnswer} {errno : Errno} {piece : Bytes}
    {pieces : List Bytes} (gathered : gatherChunks queue.active 16 = .ok (piece :: pieces))
    (failed : failedErrno answer = some errno) :
    connectionWritevMemChunk queue answer = .ok ⟨-2, queue, []⟩ := by
  cases answer with
  | accept bytes => cases failed
  | fail e =>
    apply bind_eq_ok.mpr
    exact ⟨_, gathered, rfl⟩

lemma sendMapped_failure {file : Bytes → Nat → UInt8} {queue : Chunkqueue} {c : Chunk}
    {m : Mapping} {offset len : Nat} {answer : WriteAnswer} {errno : Errno}
    (reach : c.mmapOffset ≤ offset) (failed : failedErrno answer = some errno) :
    sendMapped file queue c m offset len answer = .ok ⟨returnedCode (.write errno), queue, []⟩ := by
  cases answer with
  | accept bytes => cases failed
  | fail e =>
    obtain rfl : e = errno := Option.some.inj failed
    unfold sendMapped
    rw [if_pos reach]
    cases e <;> rfl

theorem file_failure {ans : SysAnswers} {turn : Nat} {queue : Chunkqueue} {c : Chunk}
    {rest : List Chunk} {f : FailedCall} (failed : fileFailure ans turn c = some f) :
    ∃ t, connectionSendFileChunk ans turn queue c rest = .ok t ∧ t.code = returnedCode f := by
  unfold fileFailure at failed
  by_cases hpending : c.chunkOffset ≤ c.fileLength ∧ u32Sub c.fileLength c.chunkOffset ≠ 0
  · rw [if_pos hpending] at failed
    simp only [connectionSendFileChunk, if_pos hpending.1, if_neg hpending.2]
    cases hopen : openFileChunk c (ans.openFile turn) with
    | none =>
      rw [hopen] at failed
      cases failed
      exact ⟨_, rfl, rfl⟩
    | some opened =>
      obtain ⟨o, opens⟩ := opened
      obtain ⟨fd, rfl⟩ := WriteQueue.openFileChunk_spec hopen
      simp only [hopen] at failed
      have hwindow : (if needsRemap { c with fileFd := fd } (u32 (c.fileOffset + c.chunkOffset)) = true
          then remapFileChunk { c with fileFd := fd } (u32 (c.fileOffset + c.chunkOffset))
            (u32 (c.fileOffset + c.fileLength)) (ans.mmap turn)
          else ({ c with fileFd := fd }, [])) = windowedChunk ans turn { c with fileFd := fd } := rfl
      simp only [hwindow]
      generalize windowedChunk ans turn { c with fileFd := fd } = window at failed ⊢
      obtain ⟨d, moved⟩ := window
      cases hmap : d.mmapStart with
      | none =>
        simp only [hmap, Option.isNone_none, if_true] at failed
        cases failed
        exact ⟨_, rfl, rfl⟩
      | some m =>
        simp only [hmap, Option.isNone_some, Bool.false_eq_true, if_false] at failed
        by_cases hreach : d.mmapOffset ≤ sendOffset c
        · rw [if_pos hreach] at failed
          obtain ⟨errno, hwrite, rfl⟩ := Option.map_eq_some_iff.mp failed
          exact ⟨_, sendMapped_failure hreach hwrite, rfl⟩
        · rw [if_neg hreach] at failed
          cases failed
  · rw [if_neg hpending] at failed
    cases failed

theorem turn_failure {ans : SysAnswers} {turn : Nat} {queue : Chunkqueue} {f : FailedCall}
    (failed : turnFailure ans turn queue = some f) :
    ∃ t, connectionHandleWriteTurn ans turn queue = .ok t ∧ t.code = returnedCode f := by
  unfold turnFailure at failed
  unfold connectionHandleWriteTurn
  cases hactive : queue.active with
  | nil =>
    rw [hactive] at failed
    cases failed
  | cons c rest =>
    cases htype : c.chunkType with
    | mem =>
      simp only [hactive, htype] at failed ⊢
      split at failed
      · next piece pieces hgather =>
        obtain ⟨errno, hwrite, rfl⟩ := Option.map_eq_some_iff.mp failed
        rw [← hactive] at hgather
        exact ⟨_, writev_failure hgather hwrite, rfl⟩
      · cases failed
    | file =>
      simp only [hactive, htype] at failed ⊢
      exact file_failure failed

/-- A run in which a call fails ends in that turn, with the turn's result. -/
theorem loop_failure {ans : SysAnswers} {fuel turn : Nat} {queue : Chunkqueue} {f : FailedCall}
    (sent : Bytes) (failed : loopFailure ans fuel turn queue = some f) :
    ∃ t, handleWriteLoop ans fuel turn queue sent = .ok t ∧ t.code = returnedCode f := by
  induction fuel generalizing turn queue sent with
  | zero => cases failed
  | succ fuel ih =>
    unfold loopFailure at failed
    rw [handleWriteLoop]
    by_cases hactive : queue.active = []
    · rw [if_pos hactive] at failed
      cases failed
    · rw [if_neg hactive] at failed ⊢
      cases hfail : turnFailure ans turn queue with
      | some g =>
        rw [hfail] at failed
        cases failed
        obtain ⟨t, hturn, hcode⟩ := turn_failure hfail
        have hnonzero : t.code ≠ 0 := by
          rw [hcode]
          exact returnedCode_ne_zero f
        refine ⟨{ t with sent := sent ++ t.sent }, ?_, hcode⟩
        apply bind_eq_ok.mpr
        exact ⟨t, hturn, if_pos hnonzero⟩
      | none =>
        rw [hfail] at failed
        cases hturn : connectionHandleWriteTurn ans turn queue with
        | error e =>
          rw [hturn] at failed
          cases failed
        | ok t =>
          simp only [hturn] at failed
          by_cases hcode : t.code = 0
          · rw [if_pos hcode] at failed
            obtain ⟨last, hlast, hresult⟩ := ih (sent ++ t.sent) failed
            refine ⟨last, ?_, hresult⟩
            apply bind_eq_ok.mpr
            exact ⟨t, rfl, by rw [if_neg (not_not_intro hcode)]; exact hlast⟩
          · rw [if_neg hcode] at failed
            cases failed

lemma promised_iff_returned (f : FailedCall) :
    returnedCode f = promisedCode f ↔ f.distinguished = true := by
  cases f with
  | writev errno => cases errno <;> decide
  | write errno => cases errno <;> decide
  | openFile => decide
  | mmap => decide

lemma returnedCode_cases (f : FailedCall) : returnedCode f = -1 ∨ returnedCode f = -2 := by
  cases f with
  | writev errno => exact Or.inr rfl
  | write errno => cases errno <;> decide
  | openFile => exact Or.inl rfl
  | mmap => exact Or.inl rfl

/-- Where two bounds on the turns both let a run come back, it is the same run. -/
lemma handleWriteLoop_unique {ans : SysAnswers} {fuel more turn : Nat} {queue : Chunkqueue}
    {sent : Bytes} {t u : WriteTurn} (ht : handleWriteLoop ans fuel turn queue sent = .ok t)
    (hu : handleWriteLoop ans more turn queue sent = .ok u) : t = u := by
  induction fuel generalizing more turn queue sent with
  | zero => cases ht
  | succ fuel ih =>
    cases more with
    | zero => cases hu
    | succ more =>
      rw [handleWriteLoop] at ht hu
      by_cases hactive : queue.active = []
      · rw [if_pos hactive] at ht hu
        cases ht
        cases hu
        rfl
      · rw [if_neg hactive] at ht hu
        obtain ⟨v, hv, ht⟩ := bind_eq_ok.mp ht
        obtain ⟨w, hw, hu⟩ := bind_eq_ok.mp hu
        obtain rfl : v = w := Except.ok.inj (hv.symm.trans hw)
        by_cases hcode : v.code ≠ 0
        · rw [if_pos hcode] at ht hu
          cases ht
          cases hu
          rfl
        · rw [if_neg hcode] at ht hu
          exact ih ht hu

/-- What the result of a failed run makes of the connection. -/
lemma writeState_failed {curTs : Int} {ans : SysAnswers} {conn after : Connection} {sent : Bytes}
    {fuel : Nat} {t : WriteTurn} (writeable : conn.writeable = true)
    (run : handleWriteLoop ans fuel 0 conn.writequeue [] = .ok t)
    (h : connectionHandleWriteState curTs ans conn = .ok (after, sent)) :
    (t.code = -1 → after.state = conn.state ∧ after.writeable = false) ∧
    (t.code = -2 → after.state = .error ∧ after.writeable = true) := by
  have hwriteable : ¬ conn.writeable = false := by
    rw [writeable]
    exact Bool.noConfusion
  rw [connectionHandleWriteState, if_neg hwriteable] at h
  obtain ⟨u, hu, h⟩ := bind_eq_ok.mp h
  obtain rfl : t = u := handleWriteLoop_unique run hu
  constructor
  · intro hcode
    simp only [hcode] at h
    cases h
    exact ⟨rfl, rfl⟩
  · intro hcode
    simp only [hcode] at h
    cases h
    exact ⟨rfl, writeable⟩

/-- What the contract promises of the connection: it waits for the socket, or
it is closed. -/
structure Settled (f : FailedCall) (after : Connection) : Prop where
  waits : f.temporary = true → after.state = .write ∧ after.writeable = false
  closes : f.temporary = false → after.state = .error

/-- A failing call is classified as promised if and only if it is a `write`, or
a `writev` that reports neither EINTR nor EAGAIN. -/
theorem failure_classified_iff {ans : SysAnswers} {conn : Connection} {f : FailedCall} {fuel : Nat}
    (curTs : Int) (state : conn.state = .write) (writeable : conn.writeable = true)
    (failed : loopFailure ans fuel 0 conn.writequeue = some f) :
    ∃ t, handleWriteLoop ans fuel 0 conn.writequeue [] = .ok t ∧
      (t.code = promisedCode f ↔ f.distinguished = true) ∧
      ∀ after sent, connectionHandleWriteState curTs ans conn = .ok (after, sent) →
        (Settled f after ↔ f.distinguished = true) := by
  obtain ⟨t, hrun, hcode⟩ := loop_failure [] failed
  refine ⟨t, hrun, ?_, fun after sent hstate => ?_⟩
  · rw [hcode]
    exact promised_iff_returned f
  · obtain ⟨hwait, hclose⟩ := writeState_failed writeable hrun hstate
    rw [state] at hwait
    rw [← promised_iff_returned, ← hcode]
    constructor
    · intro h
      rcases returnedCode_cases f with hreturned | hreturned
      · obtain ⟨hsame, _⟩ := hwait (hcode.trans hreturned)
        cases htemporary : f.temporary with
        | true => simp [promisedCode, htemporary, hcode, hreturned]
        | false =>
          rw [h.closes htemporary] at hsame
          cases hsame
      · obtain ⟨_, hready⟩ := hclose (hcode.trans hreturned)
        cases htemporary : f.temporary with
        | true =>
          rw [(h.waits htemporary).2] at hready
          cases hready
        | false => simp [promisedCode, htemporary, hcode, hreturned]
    · intro h
      constructor
      · intro htemporary
        exact hwait (by simp [h, promisedCode, htemporary])
      · intro htemporary
        exact (hclose (by simp [h, promisedCode, htemporary])).1

/-- A connection in `CON_STATE_WRITE` with the one-byte chunk "a" queued. -/
def oneByteConnection : Connection :=
  { connectionSetDefault with
    state := .write
    writeable := true
    writequeue := ⟨[{ chunkInitialize with mem := ⟨[97, 0], 64⟩ }], [], []⟩ }

/-- The peer of a writev has gone away. -/
theorem failure_classified_epipe : ∃ t,
    handleWriteLoop { SysAnswers.failing with write := fun _ => .fail .epipe } 1 0
      oneByteConnection.writequeue [] = .ok t ∧ t.code = promisedCode (.writev .epipe) := by
  have hfailed : loopFailure { SysAnswers.failing with write := fun _ => .fail .epipe } 1 0
      oneByteConnection.writequeue = some (.writev .epipe) := by decide +kernel
  obtain ⟨t, hrun, hcode, _⟩ := failure_classified_iff 0 rfl rfl hfailed
  exact ⟨t, hrun, hcode.mpr rfl⟩

/-- A full socket makes `writev` close the connection. -/
theorem full_socket_closes : ∃ t after sent,
    loopFailure SysAnswers.failing 1 0 oneByteConnection.writequeue = some (.writev .eagain) ∧
    handleWriteLoop SysAnswers.failing 1 0 oneByteConnection.writequeue [] = .ok t ∧
    t.code ≠ promisedCode (.writev .eagain) ∧
    connectionHandleWriteState 0 SysAnswers.failing oneByteConnection = .ok (after, sent) ∧
    after.state = .error := by
  have hfailed : loopFailure SysAnswers.failing 1 0 oneByteConnection.writequeue =
      some (.writev .eagain) := by decide +kernel
  have hstate : (connectionHandleWriteState 0 SysAnswers.failing oneByteConnection).toOption.any
      (fun result => decide (result.1.state = .error)) = true := by decide +kernel
  obtain ⟨t, hrun, hcode⟩ := loop_failure [] hfailed
  obtain ⟨⟨after, sent⟩, hafter, herror⟩ := (Option.any_eq_true _ _).mp hstate
  refine ⟨t, after, sent, hfailed, hrun, ?_, toOption_eq_some hafter, of_decide_eq_true herror⟩
  rw [hcode]
  decide

end WriteFailure
