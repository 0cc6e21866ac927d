import Minihttpd.ResponseFraming

/-!
# Files served whole

A file is queued with its size cut to 32 bits, and the length of the queue is
announced. So a file is served whole just in case its size fits 32 bits, and a
larger one is answered with status 200 and a first part of it, or nothing.
-/
namespace WholeFile

open ByteBuffer SystemCalls ChunkQueue ChunkQueueLaws ConnectionTypes HttpRequest HttpResponse
open HttpConnection StateMachine FailingRun RequestOutcome ConnectionInvariant ConnectionRuns
open ResponseFraming

/-- Position `i` of the file named by `fullpath` lies in a queued window. -/
def Covered (fullpath : Buffer) (q : Chunkqueue) (i : Nat) : Prop :=
  ∃ c ∈ q.active, c.chunkType = .file ∧ bufferCopyBuffer bufferInit fullpath = .ok c.filename ∧
    c.fileOffset ≤ i ∧ i < c.fileOffset + c.fileLength

/-- The windows cover all `size` bytes of a file and no others, and the head
that is written next announces as many. -/
structure ServedWhole (config : ServerConfig) (m : Machine) (size : Nat) : Prop where
  covers : ∀ i, Covered m.conn.connectionResponse.fullpath m.conn.writequeue i ↔ i < size
  announced : ∀ ans, ∃ next, connectionIteration config ans m = .ok next ∧
    next.conn.connectionResponse.contentLength = size

lemma cString_ne_nil {b : UInt8} (h : b ≠ 0) (rest : Bytes) : cString (b :: rest) ≠ [] := by
  rw [cString, List.takeWhile_cons_of_pos (by simpa using h)]
  exact List.cons_ne_nil _ _

/-- A path begins with the root or a slash, whatever the URL is. -/
lemma fullpath_nonempty (config : ServerConfig) (conn : Connection) :
    (cString (atFullpath config conn).connectionResponse.fullpath.data).length ≠ 0 := by
  have hroot := config.rootLimit
  have hslash : asciiBytes "/" = [47] := by decide
  obtain ⟨hstr, hterminated⟩ := appended_str
    (bufferCopyStringLength_terminated conn.connectionResponse.fullpath
      (show config.serviceRootDir.length < 4294967295 by omega)) [47] (by
      rw [bufferCopyStringLength_str, List.length_singleton]
      omega)
  rw [bufferCopyStringLength_str] at hstr
  -- whatever is appended goes behind the root and the slash
  have hdata : ∀ s, ∃ rest, (appended (appended (bufferCopyStringLength
      conn.connectionResponse.fullpath config.serviceRootDir) [47]) s).data =
        config.serviceRootDir ++ 47 :: rest := by
    intro s
    generalize appended (bufferCopyStringLength
      conn.connectionResponse.fullpath config.serviceRootDir) [47] = b at hstr hterminated ⊢
    have hb : b.data = config.serviceRootDir ++ [47] ++ [0] := by
      rcases hterminated.ending with hnil | hend
      · rw [Buffer.str, hnil] at hstr
        simp at hstr
      · rw [hend, hstr]
    rw [appended]
    by_cases hs : s.length = 0
    · rw [if_pos hs, hb]
      exact ⟨[0], by simp⟩
    · have hprep : ∀ n, (bufferAppendPrepareSizes b n).data = b.data := by
        intro n
        rw [bufferAppendPrepareSizes]
        split <;> rfl
      have hused : ∀ n, (bufferAppendPrepareSizes b n).usedBytes =
          config.serviceRootDir.length + 2 := by
        intro n
        rw [Buffer.usedBytes, hprep, hb, u32_of_lt (by simp; omega)]
        simp
      have hlength : ∀ n, ¬ bufferStringLength (bufferAppendPrepareSizes b n) = 0 := by
        intro n
        rw [bufferStringLength_eq, hused]
        omega
      refine ⟨s ++ [0], ?_⟩
      simp only [if_neg hs, if_neg (hlength _), hprep, hused, hb]
      rw [show config.serviceRootDir.length + 2 - 1 = (config.serviceRootDir ++ [47]).length by simp,
        List.take_left]
      simp
  obtain ⟨rest, hrest⟩ := hdata (if (cutUrl conn.connectionRequest.requestUrl).data.headD 0 = 47
    then (cString (cutUrl conn.connectionRequest.requestUrl).data).drop 1
    else cString (cutUrl conn.connectionRequest.requestUrl).data)
  have hpath : (atFullpath config conn).connectionResponse.fullpath.data =
      config.serviceRootDir ++ 47 :: rest := by
    rw [← hrest, ← hslash]
    rfl
  rw [hpath, ne_eq, List.length_eq_zero_iff]
  cases hdir : config.serviceRootDir with
  | nil => exact cString_ne_nil (by decide) rest
  | cons b root =>
    exact cString_ne_nil (config.rootNulFree b (hdir ▸ List.mem_cons_self)) _

/-- A regular file that is answered with status 200. -/
lemma regular_served {config : ServerConfig} {ans : SysAnswers} {conn after : Connection}
    {code : Int} {events : List Event} {s : Stat} (unanswered : conn.httpStatus = 0)
    (found : ans.stat = .found s) (regular : s.kind = .regular)
    (h : httpRequestHandle config ans conn = .ok (code, after, events)) :
    ∃ writequeue,
      chunkqueueAppendFile conn.writequeue
        (atFullpath config conn).connectionResponse.fullpath 0 (u32 s.size) = .ok writequeue ∧
      after = served (atFullpath config conn)
        (match lookupMimeType config.table (atFullpath config conn).connectionResponse.fullpath with
          | none => conn.connectionResponse.contentType
          | some mimeType => bufferCopyString conn.connectionResponse.contentType mimeType)
        writequeue ∧
      events = [.stat (requestPath config conn)] := by
  rw [httpRequestHandle, if_neg (fun hne => hne.1 unanswered)] at h
  by_cases hnull : conn.connectionRequest.requestUrl.isNull = true
  · rw [if_pos hnull] at h
    cases h
  · rw [if_neg hnull] at h
    obtain ⟨_, hbuilt, h⟩ := bind_eq_ok.mp h
    cases withFullpath_ok hbuilt
    simp only [found, regular, serveFile] at h
    obtain ⟨conn', hserved, h⟩ := bind_eq_ok.mp h
    obtain ⟨writequeue, hqueue, heq⟩ := bind_eq_ok.mp hserved
    cases heq
    cases h
    exact ⟨writequeue, hqueue, rfl, rfl⟩

/-- Of the requests that come to be handled, a file answers the unanswered ones. -/
lemma unanswered_of_ok {config : ServerConfig} {ans : SysAnswers} {conn after : Connection}
    {code : Int} {events : List Event} (open_status : conn.httpStatus ≠ 200)
    (h : httpRequestHandle config ans conn = .ok (code, after, events))
    (ok : after.httpStatus = 200) : conn.httpStatus = 0 := by
  by_contra hne
  rw [httpRequestHandle, if_pos ⟨hne, open_status⟩] at h
  cases h
  exact open_status ok

/-- The one window of a file, which is missing where its length comes to 0. -/
lemma queued_window {q p : Chunkqueue} {fullpath : Buffer} {size : Nat} (idle : IdleClean q)
    (empty : q.active = []) (named : (cString fullpath.data).length ≠ 0)
    (h : chunkqueueAppendFile q fullpath 0 (u32 size) = .ok p) :
    chunkqueueLength p = u32 size ∧ ∀ i, Covered fullpath p i ↔ i < u32 size := by
  rcases appendFile_spec idle h with ⟨_, hskip, rfl⟩ |
    ⟨_, _, c, hactive, hfile, _, hoffset, hlength, _, _, _, _, _, hname⟩
  · have hzero : u32 size = 0 := hskip.resolve_left named
    constructor
    · rw [chunkqueueLength, empty, hzero]
      rfl
    · intro i
      constructor
      · rintro ⟨c, hc, _⟩
        rw [empty] at hc
        cases hc
      · intro hi
        omega
  · rw [empty, List.nil_append] at hactive
    constructor
    · rw [chunkqueueLength, hactive, List.foldl_cons, List.foldl_nil, chunkLength, hfile, Nat.zero_add]
      change u32 c.fileLength = _
      rw [hlength, u32_of_lt (u32_lt size)]
    · intro i
      constructor
      · rintro ⟨d, hd, _, _, _, hi⟩
        rw [hactive, List.mem_singleton] at hd
        subst hd
        rw [hoffset, hlength] at hi
        omega
      · intro hi
        refine ⟨c, hactive ▸ List.mem_singleton_self c, hfile, hname, ?_, ?_⟩
        · rw [hoffset]
          exact Nat.zero_le _
        · rw [hoffset, hlength]
          omega

/-- The head announces the length of the queue it is put in front of. -/
lemma announced_length {config : ServerConfig} {m : Machine} (ans : SysAnswers)
    (reached : Reached config .running m) (state : m.conn.state = .responseStart)
    (ok : m.conn.httpStatus = 200) :
    ∃ next, connectionIteration config ans m = .ok next ∧
      next.conn.connectionResponse.contentLength = chunkqueueLength m.conn.writequeue := by
  have hinv := (reached_inv reached).1.conn
  have hphase := hinv.phase
  rw [StateInv, state] at hphase
  obtain ⟨next, hturn⟩ := responseStart_returns ans reached state
  refine ⟨next, hturn, ?_⟩
  simp only [connectionIteration, Machine.emit, state] at hturn
  obtain ⟨after, hprepare, heq⟩ := bind_eq_ok.mp hturn
  cases heq
  obtain ⟨mid, text, writequeue, hbody, _, _, hafter⟩ :=
    prepareResponseHead_outcome (Or.inl ok) hprepare
  obtain ⟨_, _, _, hfinished, _, hsame, _⟩ := bodyOutcome_spec hinv.writequeue hphase hbody
  change after.connectionResponse.contentLength = _
  rw [hafter, setContentLength, if_pos hfinished, ← hsame ok]

/-- A regular file answered with status 200 is served whole if and only if its
size fits 32 bits. -/
theorem served_whole_iff {config : ServerConfig} {m next : Machine} {ans : SysAnswers} {s : Stat}
    (reached : Reached config .running m) (state : m.conn.state = .handleRequest)
    (found : ans.stat = .found s) (regular : s.kind = .regular)
    (turn : connectionIteration config ans m = .ok next) (ok : next.conn.httpStatus = 200) :
    ServedWhole config next s.size ↔ s.size < 4294967296 := by
  have hinv := (reached_inv reached).1.conn
  have hphase := hinv.phase
  rw [StateInv, state] at hphase
  have hnext : Reached config .running next ∧ next.conn.state = .responseStart := by
    have hstate := (handleRequest_inv (m := m.emit [.state .handleRequest]) hinv state
      (by simpa only [connectionIteration, Machine.emit, state] using turn)).2.1
    refine ⟨.turn reached turn ?_, hstate⟩
    rw [hstate, state]
    exact ConnectionState.noConfusion
  have hturn := turn
  simp only [connectionIteration, Machine.emit, state] at hturn
  obtain ⟨⟨code, after, events⟩, hhandle, heq⟩ := bind_eq_ok.mp hturn
  cases heq
  have hother : m.conn.httpStatus ≠ 200 := by
    have := hphase.status
    omega
  have hzero : m.conn.httpStatus = 0 := @unanswered_of_ok config ans
    { m.conn with connectionResponse := responseInitialize } _ _ _ hother hhandle ok
  obtain ⟨writequeue, hqueue, rfl, _⟩ :=
    @regular_served config ans { m.conn with connectionResponse := responseInitialize } _ _ _ s
      hzero found regular hhandle
  obtain ⟨hlength, hcovered⟩ := queued_window hinv.writequeue.idle hphase.empty
    (fullpath_nonempty config { m.conn with connectionResponse := responseInitialize }) hqueue
  constructor
  · intro h
    by_contra hbig
    have hlast := (h.covers (u32 s.size)).mpr (Nat.lt_of_lt_of_le (u32_lt _) (Nat.le_of_not_lt hbig))
    exact Nat.lt_irrefl _ ((hcovered _).mp hlast)
  · intro hsmall
    rw [u32_of_lt hsmall] at hlength hcovered
    refine ⟨hcovered, fun ans' => ?_⟩
    obtain ⟨answered, hanswered, hannounced⟩ := announced_length ans' hnext.1 hnext.2 ok
    exact ⟨answered, hanswered, hannounced.trans hlength⟩

/-- A request for the file of the given size, up to the turn that queues it. -/
def handledFile (size : Nat) : Option (Machine × Machine) :=
  (turns setConfigDefault readableMachine ((fileRequest size).take 2)).bind fun m =>
    match connectionIteration setConfigDefault
        { SysAnswers.failing with stat := .found ⟨.regular, size, 0⟩ } m with
    | .error _ => none
    | .ok next => some (m, next)

lemma handledFile_reached {size : Nat} {m next : Machine} (h : handledFile size = some (m, next)) :
    Reached setConfigDefault .running m ∧ connectionIteration setConfigDefault
      { SysAnswers.failing with stat := .found ⟨.regular, size, 0⟩ } m = .ok next := by
  obtain ⟨m', hturns, hnext⟩ := Option.bind_eq_some_iff.mp h
  have reached := reached_turns _ readableMachine_reached hturns
  cases hturn : connectionIteration setConfigDefault
      { SysAnswers.failing with stat := .found ⟨.regular, size, 0⟩ } m' with
  | error e =>
    simp only [hturn] at hnext
    cases hnext
  | ok next' =>
    simp only [hturn] at hnext
    cases hnext
    exact ⟨reached, hturn⟩

/-- A file of three bytes. -/
theorem served_whole_three_bytes : ∃ next : Machine, next.conn.httpStatus = 200 ∧
    ServedWhole setConfigDefault next 3 := by
  have hrun : (handledFile 3).any (fun run => decide (run.1.conn.state = .handleRequest ∧
      run.2.conn.httpStatus = 200)) = true := by
    decide +kernel
  obtain ⟨⟨m, next⟩, hhandled, hrun⟩ := (Option.any_eq_true _ _).mp hrun
  obtain ⟨hstate, hok⟩ := of_decide_eq_true hrun
  obtain ⟨reached, hturn⟩ := handledFile_reached hhandled
  exact ⟨next, hok, (served_whole_iff (s := ⟨.regular, 3, 0⟩) reached hstate rfl rfl hturn hok).mpr
    (by decide)⟩

/-- Of a file of 4294967299 bytes, three are queued and announced. -/
theorem served_whole_not_large : ∃ m next : Machine, Reached setConfigDefault .running m ∧
    m.conn.state = .handleRequest ∧ connectionIteration setConfigDefault
      { SysAnswers.failing with stat := .found ⟨.regular, 4294967299, 0⟩ } m = .ok next ∧
    next.conn.httpStatus = 200 ∧ next.conn.writequeue.active.map (fun c => c.fileLength) = [3] ∧
    ¬ ServedWhole setConfigDefault next 4294967299 := by
  have hrun : (handledFile 4294967299).any (fun run => decide (run.1.conn.state = .handleRequest ∧
      run.2.conn.httpStatus = 200 ∧
      run.2.conn.writequeue.active.map (fun c => (c.fileOffset, c.fileLength)) = [(0, 3)])) =
        true := by
    decide +kernel
  obtain ⟨⟨m, next⟩, hhandled, hrun⟩ := (Option.any_eq_true _ _).mp hrun
  obtain ⟨hstate, hok, hwindows⟩ := of_decide_eq_true hrun
  obtain ⟨reached, hturn⟩ := handledFile_reached hhandled
  obtain ⟨c, hactive, hc⟩ := List.map_eq_singleton_iff.mp hwindows
  have hoffset : c.fileOffset = 0 := congrArg Prod.fst hc
  have hlength : c.fileLength = 3 := congrArg Prod.snd hc
  refine ⟨m, next, reached, hstate, hturn, hok, by rw [hactive, ← hlength]; rfl, fun h => ?_⟩
  obtain ⟨d, hd, _, _, _, hi⟩ := (h.covers 3).mpr (by decide)
  rw [hactive, List.mem_singleton] at hd
  subst hd
  omega

end WholeFile
