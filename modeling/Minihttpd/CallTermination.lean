import Minihttpd.WriteFailure
import Minihttpd.CheckedResponse
import Minihttpd.ResponseFraming
import Mathlib.Algebra.Ring.Nat

/-!
# A call comes to its end

Two loops run in one call of the state machine: over its states, and, in
`CON_STATE_WRITE`, over the chunks of the response. The first goes round at
most once. The second shortens the response with every turn, but for a turn
whose 32-bit sum of the bytes on offer has wrapped to 0.
-/
namespace CallTermination

open ByteBuffer SystemCalls ChunkQueue ChunkQueueLaws ConnectionTypes HttpConnection StateMachine
open WriteQueue ConnectionInvariant Turns ConnectionRuns SendWindow FailingRun HttpResponse
open RequestOutcome ReadQueue DirectoryListing Confinement CheckedResponse ResponseFraming

/-- The machines in front of the turns of one call, numbered as its answers are. -/
inductive CallTurn (config : ServerConfig) (answers : Nat → SysAnswers) (start : Machine) :
    Nat → Machine → Prop where
  | first : CallTurn config answers start 0 start
  | next {i : Nat} {m after : Machine} : CallTurn config answers start i m →
      connectionIteration config (answers i) m = .ok after → after.conn.state ≠ m.conn.state →
      CallTurn config answers start (i + 1) after

/-- The turns `k` and `k + 1` lead from `CON_STATE_RESPONSE_END` back to
`CON_STATE_REQUEST_START`. -/
def GoesRound (config : ServerConfig) (answers : Nat → SysAnswers) (start : Machine) (k : Nat) :
    Prop :=
  ∃ m after, CallTurn config answers start k m ∧ m.conn.state = .responseEnd ∧
    CallTurn config answers start (k + 1) after ∧ after.conn.state = .requestStart ∧
    after.conn.readable = false

/-- The order in which a request passes through the states. -/
def place : ConnectionState → Nat
  | .requestStart => 0
  | .read => 1
  | .requestEnd => 2
  | .handleRequest => 3
  | .responseStart => 4
  | .write => 5
  | .responseEnd => 6
  | .error => 7
  | .close => 8
  | .connect => 9

lemma successor_place {s t : ConnectionState} (h : t ∈ successors s) (moves : t ≠ s) :
    place s < place t ∨ s = .responseEnd ∧ t = .requestStart := by
  revert t
  cases s <;> decide

section Call
variable {config : ServerConfig} {answers : Nat → SysAnswers} {start : Machine}

lemma callTurn_reached (reached : Reached config .running start) {i : Nat} {m : Machine}
    (h : CallTurn config answers start i m) : Reached config .running m := by
  induction h with
  | first => exact reached
  | next _ hturn moves ih => exact .turn ih hturn moves

lemma callTurn_unique {i : Nat} {m p : Machine} (hm : CallTurn config answers start i m)
    (hp : CallTurn config answers start i p) : m = p := by
  induction hm generalizing p with
  | first =>
    cases hp
    rfl
  | next _ hturn _ ih =>
    cases hp with
    | next hq hturn' _ =>
      obtain rfl := ih hq
      exact Except.ok.inj (hturn.symm.trans hturn')

/-- The loop over the states makes fewer than sixteen turns. -/
lemma callTurn_bound (reached : Reached config .running start) {i : Nat} {m : Machine}
    (h : CallTurn config answers start i m) : i + rank m.conn ≤ rank start.conn := by
  induction h with
  | first => omega
  | @next i m after hm hturn moves ih =>
    have hinv := (ConnectionRuns.reached_inv (callTurn_reached reached hm)).1.conn
    have hdescends : rank after.conn < rank m.conn := (iteration_spec hinv hturn).descends moves
    omega

lemma turn_forward {ans : SysAnswers} {m after : Machine} (inv : ConnInv config m.conn)
    (hturn : connectionIteration config ans m = .ok after)
    (moves : after.conn.state ≠ m.conn.state) :
    place m.conn.state < place after.conn.state ∨
      m.conn.state = .responseEnd ∧ after.conn.state = .requestStart ∧
        after.conn.readable = false := by
  have hsuccessor := (turn_cases inv hturn).successor
  rcases successor_place hsuccessor moves with hplace | ⟨hend, hstart⟩
  · exact Or.inl hplace
  · have hstate : m.conn.state = .responseEnd := hend
    refine Or.inr ⟨hstate, hstart, ?_⟩
    rw [iteration_responseEnd hstate] at hturn
    cases hturn
    rw [handleResponseEnd]
    split <;> rfl

/-- Between two turns the state moves on, unless the call goes round. -/
theorem callTurn_forward (reached : Reached config .running start) {i j : Nat} {m p : Machine}
    (hm : CallTurn config answers start i m) (hp : CallTurn config answers start j p)
    (later : i < j) :
    place m.conn.state < place p.conn.state ∨
      ∃ k, i ≤ k ∧ k < j ∧ GoesRound config answers start k := by
  induction hp with
  | first => exact absurd later (Nat.not_lt_zero i)
  | @next j p after hp hturn moves ih =>
    have hinv := (ConnectionRuns.reached_inv (callTurn_reached reached hp)).1.conn
    have hle : i ≤ j := Nat.lt_succ_iff.mp later
    rcases turn_forward hinv hturn moves with hplace | ⟨hend, hstart, hreadable⟩
    · rcases Nat.eq_or_lt_of_le hle with rfl | hlt
      · obtain rfl := callTurn_unique hm hp
        exact Or.inl hplace
      · rcases ih hlt with hbefore | ⟨k, hik, hkj, hround⟩
        · exact Or.inl (Nat.lt_trans hbefore hplace)
        · exact Or.inr ⟨k, hik, Nat.lt_succ_of_lt hkj, hround⟩
    · exact Or.inr ⟨j, hle, Nat.lt_succ_self j, p, after, hp, hend, hp.next hturn moves, hstart,
        hreadable⟩

/-- Behind `CON_STATE_REQUEST_START` a call that has gone round passes on to
`CON_STATE_READ` and stays there: the reset has cleared `readable`. -/
theorem round_ends {k n : Nat} {p : Machine} (round : GoesRound config answers start k)
    (hp : CallTurn config answers start n p) (later : k + 1 < n) :
    n = k + 2 ∧ p.conn.state = .read ∧ p.conn.readable = false ∧
      ∀ ans after, connectionIteration config ans p = .ok after → after.conn.state = .read := by
  obtain ⟨_, s, _, _, hs, hstate, hreadable⟩ := round
  have settles : ∀ r : Machine, r.conn.state = .read → r.conn.readable = false →
      ∀ ans after, connectionIteration config ans r = .ok after → after.conn.state = .read := by
    intro r hread hnot ans after hturn
    simp only [connectionIteration, Machine.emit, hread, connectionHandleReadState, hnot,
      if_true] at hturn
    cases hturn
    exact hread
  induction hp with
  | first => exact absurd later (Nat.not_lt_zero _)
  | @next n p after hp hturn moves ih =>
    rcases Nat.eq_or_lt_of_le (Nat.lt_succ_iff.mp later) with heq | hlt
    · subst heq
      obtain rfl := callTurn_unique hs hp
      simp only [connectionIteration, Machine.emit, hstate] at hturn
      cases hturn
      exact ⟨rfl, rfl, hreadable, settles _ rfl hreadable⟩
    · obtain ⟨_, hread, _, hsettles⟩ := ih hlt
      exact absurd ((hsettles _ _ hturn).trans hread.symm) moves

/-- No state is entered a third time: no cycle of states is traversed twice. -/
theorem no_third_visit (reached : Reached config .running start) {i j k : Nat} {m p r : Machine}
    (hm : CallTurn config answers start i m) (hp : CallTurn config answers start j p)
    (hr : CallTurn config answers start k r) (first : i < j) (second : j < k)
    (same : m.conn.state = p.conn.state) : r.conn.state ≠ p.conn.state := by
  intro again
  rcases callTurn_forward reached hm hp first with hplace | ⟨a, _, haj, hround⟩
  · rw [same] at hplace
    exact absurd hplace (Nat.lt_irrefl _)
  · rcases callTurn_forward reached hp hr second with hplace | ⟨b, hjb, hbk, e, s, he, hend, _⟩
    · rw [again] at hplace
      exact absurd hplace (Nat.lt_irrefl _)
    · -- the second round would begin behind the end of the first
      rcases Nat.eq_or_lt_of_le (Nat.le_trans haj hjb) with hab | hab
      · obtain ⟨_, q, _, _, hq, hstart, _⟩ := hround
        rw [← hab] at he
        rw [callTurn_unique hq he, hend] at hstart
        cases hstart
      · obtain ⟨_, hread, _⟩ := round_ends hround he hab
        rw [hread] at hend
        cases hend

end Call

/-- The unsent bytes plus the number of queued chunks. -/
def remainingWork (q : Chunkqueue) : Nat := remainingTotal q.active + q.active.length

/-- The queues in front of the turns of `connection_handle_write`. -/
inductive LoopTurn (ans : SysAnswers) (start : Chunkqueue) : Nat → Chunkqueue → Prop where
  | first : LoopTurn ans start 0 start
  | next {k : Nat} {q : Chunkqueue} {t : WriteTurn} : LoopTurn ans start k q → q.active ≠ [] →
      connectionHandleWriteTurn ans k q = .ok t → t.code = 0 → LoopTurn ans start (k + 1) t.queue

/-- `writev` is offered a positive multiple of 2^32 bytes, and takes none. -/
def Stalls (ans : SysAnswers) (turn : Nat) (q : Chunkqueue) : Prop :=
  ∃ c rest pieces, q.active = c :: rest ∧ c.chunkType = .mem ∧
    gatherChunks q.active 16 = .ok pieces ∧ pieces.flatten ≠ [] ∧
    u32 pieces.flatten.length = 0 ∧ ans.write turn = .accept 0

/-- The sum of the bytes on offer is 0 then, as is the result: the loop goes on
with the queue as it was. -/
lemma stalled_turn {ans : SysAnswers} {turn : Nat} {q : Chunkqueue} (h : Stalls ans turn q) :
    connectionHandleWriteTurn ans turn q = .ok ⟨0, q, []⟩ := by
  obtain ⟨c, rest, pieces, hactive, hmem, hgather, hsome, hwrapped, hnone⟩ := h
  have hpieces : pieces ≠ [] := by
    rintro rfl
    exact hsome rfl
  rw [connectionHandleWriteTurn, hactive]
  simp only [hmem]
  rw [hnone]
  apply bind_eq_ok.mpr
  refine ⟨pieces, hgather, ?_⟩
  simp only [if_neg hpieces, hwrapped, Nat.zero_min, if_true, Nat.lt_irrefl, gt_iff_lt, if_false]
  rfl

lemma turnOk_shorter {file : Bytes → Nat → UInt8} {q : Chunkqueue} {t : WriteTurn}
    (ok : QueueOk q) (h : TurnOk file q t)
    (progress : t.sent ≠ [] ∨ t.queue.active.length < q.active.length) :
    remainingWork t.queue < remainingWork q := by
  have hlength := h.length
  have hconserved := congrArg List.length h.conserved
  rw [List.length_append] at hconserved
  rw [remainingWork, remainingWork, remainingTotal_eq file ok.chunks,
    remainingTotal_eq file h.queue.chunks]
  rcases progress with hsent | hshorter
  · have hpos := List.length_pos_iff.mpr hsent
    omega
  · omega

lemma writev_progress (file : Bytes → Nat → UInt8) {ans : SysAnswers} {turn : Nat} {q : Chunkqueue}
    {c : Chunk} {rest : List Chunk} {t : WriteTurn} (ok : QueueOk q) (head : q.active = c :: rest)
    (hmem : c.chunkType = .mem) (h : connectionWritevMemChunk q (ans.write turn) = .ok t)
    (goes_on : t.code = 0) :
    t.sent ≠ [] ∨ t.queue.active.length < q.active.length ∨ Stalls ans turn q := by
  obtain ⟨pieces, later, hgather, hunsent, hsome, hempty⟩ :=
    gatherChunks_spec file q.active 16 fun c hc => (ok.chunks c hc).within
  obtain ⟨gathered, hgathered, h⟩ := bind_eq_ok.mp h
  obtain rfl := Except.ok.inj (hgather.symm.trans hgathered)
  by_cases hnil : pieces = []
  · -- nothing is left of the chunk in front, which is dropped
    rw [if_pos hnil] at h
    cases h
    have hzero := hempty hnil (by decide) c rest head hmem
    have hdrop := (dropFinished_spec file rest (fun d hd => ok.chunks d (by
      rw [head]
      exact List.mem_cons_of_mem _ hd))).2.2.2
    refine Or.inr (Or.inl ?_)
    change (chunkqueueRemoveFinishedChunk q).active.length < _
    rw [(removeFinished_spec ok.idle).1, head, dropFinished, if_neg (by omega), List.length_cons]
    exact Nat.lt_succ_of_le hdrop
  · rw [if_neg hnil] at h
    have hoffered := hsome hnil
    have hpos := List.length_pos_iff.mpr hoffered
    cases hanswer : ans.write turn with
    | fail errno =>
      rw [hanswer] at h
      cases h
      cases goes_on
    | accept bytes =>
      simp only [hanswer] at h
      generalize hn : min bytes (min pieces.flatten.length maxTransfer) = n at h
      by_cases hz : n > 0
      · rw [if_pos hz] at h
        split at h
        · cases h
        · cases h
          left
          intro hsent
          have hlength : (pieces.flatten.take n).length = 0 := congrArg List.length hsent
          rw [List.length_take] at hlength
          omega
      · rw [if_neg hz] at h
        cases h
        have hzero : n = 0 := Nat.eq_zero_of_not_pos hz
        have hwrapped : n = u32 pieces.flatten.length := by
          by_contra hne
          rw [if_neg hne] at goes_on
          cases goes_on
        have hmax : 0 < maxTransfer := by decide
        have hbytes : bytes = 0 := by omega
        refine Or.inr (Or.inr ⟨c, rest, pieces, head, hmem, hgather, hoffered, ?_, ?_⟩)
        · rw [← hwrapped, hzero]
        · rw [hanswer, hbytes]

/-- What a `write` sends does not depend on the queue behind the chunk. -/
lemma sendMapped_alone {file : Bytes → Nat → UInt8} {q : Chunkqueue} (p : Chunkqueue) {c : Chunk}
    {m : Mapping} {offset len : Nat} {answer : WriteAnswer} {t : WriteTurn}
    (h : sendMapped file q c m offset len answer = .ok t) :
    ∃ u, sendMapped file p c m offset len answer = .ok u ∧ u.code = t.code ∧ u.sent = t.sent := by
  unfold sendMapped at h ⊢
  by_cases hreach : c.mmapOffset ≤ offset
  · rw [if_pos hreach] at h ⊢
    cases answer with
    | fail errno =>
      cases errno <;>
      · cases h
        exact ⟨_, rfl, rfl, rfl⟩
    | accept bytes =>
      cases h
      exact ⟨_, rfl, rfl, rfl⟩
  · rw [if_neg hreach] at h
    cases h

/-- A queued file chunk has bytes left, fewer than 2^32. -/
lemma fileChunk_unsent (file : Bytes → Nat → UInt8) {c : Chunk} (ok : ChunkOk c)
    (hfile : c.chunkType = .file) :
    0 < (unsent file [c]).length ∧ (unsent file [c]).length < 4294967296 := by
  have hc := ok.file hfile
  have hpending := hc.pending
  have hshort := hc.short
  have hone : unsent file [c] = unsentChunk file c := by
    rw [unsent_cons]
    exact List.append_nil _
  have hkind : chunkLength c = c.fileLength := by
    rw [chunkLength]
    simp only [hfile]
  rw [hone, ← chunkRemainingLen_eq file ok, chunkRemainingLen, hkind,
    u32Sub_of_le (Nat.le_of_lt hpending) hshort]
  omega

lemma sendFile_progress {ans : SysAnswers} {turn : Nat} {q : Chunkqueue} {c : Chunk}
    {rest : List Chunk} {t : WriteTurn} (ok : ChunkOk c) (hfile : c.chunkType = .file)
    (h : connectionSendFileChunk ans turn q c rest = .ok t) (goes_on : t.code = 0) :
    t.sent ≠ [] := by
  have hc := ok.file hfile
  have alone : QueueOk ⟨[c], [], []⟩ :=
    ⟨fun d hd => by rw [List.mem_singleton.mp hd]; exact ok, fun d hd => by cases hd⟩
  obtain ⟨u, hu, hcode, hsent⟩ : ∃ u, connectionSendFileChunk ans turn ⟨[c], [], []⟩ c [] = .ok u ∧
      u.code = t.code ∧ u.sent = t.sent := by
    rcases sendFileChunk_mapped ans turn (q := q) rest hc.pending hc.short with
      ⟨hnone, _, _, hfailed⟩ | ⟨d, calls, m, hmapped, _, hsend⟩
    · rw [hfailed] at h
      cases h
      cases goes_on
    · rcases sendFileChunk_mapped ans turn (q := ⟨[c], [], []⟩) [] hc.pending hc.short with
        ⟨hnone, _⟩ | ⟨e, moved, n, hmapped', hn, hsend'⟩
      · rw [hmapped] at hnone
        cases hnone
      · obtain ⟨rfl, rfl⟩ := Prod.mk.inj (Option.some.inj (hmapped.symm.trans hmapped'))
        rename_i hm
        obtain rfl : m = n := Option.some.inj (hm.symm.trans hn)
        rw [hsend] at h
        rw [hsend']
        exact sendMapped_alone _ h
  obtain ⟨v, hv, hturn⟩ := sendFileChunk_spec rfl turn alone rfl hfile
  obtain rfl := Except.ok.inj (hu.symm.trans hv)
  have hunsent := fileChunk_unsent ans.file ok hfile
  rw [← hsent]
  rcases hturn.progress (hcode.trans goes_on) hunsent.2 with hsome | hshorter
  · exact hsome
  · -- the only chunk is gone, and all its bytes have been sent
    have hgone : u.queue.active = [] := List.length_eq_zero_iff.mp (Nat.lt_one_iff.mp hshorter)
    have hconserved := hturn.conserved
    rw [hgone] at hconserved
    intro hnone
    rw [hnone] at hconserved
    have hzero : (unsent ans.file [c]).length = 0 := congrArg List.length hconserved
    rw [hzero] at hunsent
    exact Nat.lt_irrefl 0 hunsent.1

/-- A turn after which the loop goes on shortens the response, or it stalls. -/
theorem turn_progress {ans : SysAnswers} {turn : Nat} {q : Chunkqueue} {t : WriteTurn}
    (ok : QueueOk q) (pending : q.active ≠ [])
    (h : connectionHandleWriteTurn ans turn q = .ok t) (goes_on : t.code = 0) :
    remainingWork t.queue < remainingWork q ∨ Stalls ans turn q := by
  obtain ⟨u, hu, hturn⟩ := handleWriteTurn_spec rfl turn ok pending
  obtain rfl := Except.ok.inj (h.symm.trans hu)
  cases hactive : q.active with
  | nil => exact absurd hactive pending
  | cons c rest =>
    rw [connectionHandleWriteTurn, hactive] at h
    cases hkind : c.chunkType with
    | mem =>
      simp only [hkind] at h
      rcases writev_progress ans.file ok hactive hkind h goes_on with
        hsent | hshorter | hstalls
      · exact Or.inl (turnOk_shorter ok hturn (Or.inl hsent))
      · exact Or.inl (turnOk_shorter ok hturn (Or.inr hshorter))
      · exact Or.inr hstalls
    | file =>
      simp only [hkind] at h
      have hc := ok.chunks c (by rw [hactive]; exact List.mem_cons_self)
      exact Or.inl (turnOk_shorter ok hturn (Or.inl (sendFile_progress hc hkind h goes_on)))

lemma loopTurn_ok {ans : SysAnswers} {start q : Chunkqueue} {k : Nat} (ok : QueueOk start)
    (h : LoopTurn ans start k q) : QueueOk q := by
  induction h with
  | first => exact ok
  | next _ pending hturn _ ih =>
    obtain ⟨u, hu, hturn'⟩ := handleWriteTurn_spec rfl _ ih pending
    obtain rfl := Except.ok.inj (hturn.symm.trans hu)
    exact hturn'.queue

/-- Without a turn that stalls, the loop ends within as many turns as there is
work left. -/
theorem writeLoop_ends {ans : SysAnswers} {start : Chunkqueue} (ok : QueueOk start)
    (never : ∀ k q, LoopTurn ans start k q → ¬ Stalls ans k q) {fuel k : Nat} {q : Chunkqueue}
    (sent : Bytes) (at_turn : LoopTurn ans start k q) (enough : remainingWork q < fuel) :
    handleWriteLoop ans fuel k q sent ≠ .error .outOfFuel := by
  induction fuel generalizing k q sent with
  | zero => exact absurd enough (Nat.not_lt_zero _)
  | succ fuel ih =>
    have hq := loopTurn_ok ok at_turn
    rw [handleWriteLoop]
    by_cases hnil : q.active = []
    · rw [if_pos hnil]
      exact fun h => by cases h
    · obtain ⟨t, ht, _⟩ := handleWriteTurn_spec rfl k hq hnil
      rw [if_neg hnil, ht]
      change (if t.code ≠ 0 then _ else _) ≠ _
      by_cases hcode : t.code = 0
      · rw [if_neg (not_not_intro hcode)]
        rcases turn_progress hq hnil ht hcode with hshorter | hstalls
        · exact ih _ (.next at_turn hnil ht hcode) (by omega)
        · exact absurd hstalls (never k q at_turn)
      · rw [if_pos hcode]
        exact fun h => by cases h

/-- The turn calls `connection_handle_write`. -/
def Writes (m : Machine) : Prop :=
  m.conn.state = .write ∧ chunkqueueLength m.conn.writequeue ≠ 0 ∧ m.conn.writeable = true

/-- The loops of one call come to their ends. -/
structure Stops (config : ServerConfig) (answers : Nat → SysAnswers) (start : Machine) : Prop where
  states : ∃ bound, ∀ i m, CallTurn config answers start i m → i < bound
  twice : ∀ i j k m p r, CallTurn config answers start i m → CallTurn config answers start j p →
    CallTurn config answers start k r → i < j → j < k → m.conn.state = p.conn.state →
    r.conn.state ≠ p.conn.state
  cycle : ∀ i j m p, CallTurn config answers start i m → CallTurn config answers start j p →
    i < j → m.conn.state = p.conn.state → ∃ k, i ≤ k ∧ k < j ∧
      GoesRound config answers start k ∧ ∀ n r, CallTurn config answers start n r → k + 1 < n →
        n = k + 2 ∧ r.conn.state = .read ∧ r.conn.readable = false
  writes : ∀ i m, CallTurn config answers start i m → Writes m →
    connectionHandleWrite (answers i) m.conn.writequeue ≠ .error .outOfFuel
  decreases : ∀ i m k q t, CallTurn config answers start i m → Writes m →
    LoopTurn (answers i) m.conn.writequeue k q → q.active ≠ [] →
    connectionHandleWriteTurn (answers i) k q = .ok t → t.code = 0 →
    remainingWork t.queue < remainingWork q

lemma stops_of_never {config : ServerConfig} {answers : Nat → SysAnswers} {start : Machine}
    (reached : Reached config .running start)
    (never : ∀ i m k q, CallTurn config answers start i m → Writes m →
      LoopTurn (answers i) m.conn.writequeue k q → ¬ Stalls (answers i) k q) :
    Stops config answers start := by
  have hqueue : ∀ i m, CallTurn config answers start i m → QueueOk m.conn.writequeue :=
    fun i m hm => (ConnectionRuns.reached_inv (callTurn_reached reached hm)).1.conn.writequeue
  constructor
  · refine ⟨16, fun i m hm => ?_⟩
    have hbound := callTurn_bound reached hm
    have hrank := rank_lt start.conn
    omega
  · intro i j k m p r hm hp hr first second same
    exact no_third_visit reached hm hp hr first second same
  · intro i j m p hm hp later same
    rcases callTurn_forward reached hm hp later with hplace | ⟨k, hik, hkj, hround⟩
    · rw [same] at hplace
      exact absurd hplace (Nat.lt_irrefl _)
    · refine ⟨k, hik, hkj, hround, fun n r hr hn => ?_⟩
      obtain ⟨hlast, hread, hreadable, _⟩ := round_ends hround hr hn
      exact ⟨hlast, hread, hreadable⟩
  · intro i m hm hwrites
    exact writeLoop_ends (hqueue i m hm) (fun k q => never i m k q hm hwrites) [] .first
      (Nat.lt_succ_self _)
  · intro i m k q t hm hwrites hq pending hturn goes_on
    rcases turn_progress (loopTurn_ok (hqueue i m hm) hq) pending hturn goes_on with h | hstalls
    · exact h
    · exact absurd hstalls (never i m k q hm hwrites hq)

/-- A call on a reachable connection stops, whatever it is answered, if and only
if no turn of its write loop stalls. -/
theorem call_stops_iff {config : ServerConfig} {answers : Nat → SysAnswers} {start : Machine}
    (reached : Reached config .running start) :
    Stops config answers start ↔
      ∀ i m k q, CallTurn config answers start i m → Writes m →
        LoopTurn (answers i) m.conn.writequeue k q → ¬ Stalls (answers i) k q := by
  constructor
  · intro stops i m k q hm hwrites hq hstalls
    have pending : q.active ≠ [] := by
      obtain ⟨c, rest, _, hactive, _⟩ := hstalls
      rw [hactive]
      exact List.cons_ne_nil c rest
    exact Nat.lt_irrefl _
      (stops.decreases i m k q _ hm hwrites hq pending (stalled_turn hstalls) rfl)
  · exact stops_of_never reached

lemma callTurn_turns {config : ServerConfig} {answers : Nat → SysAnswers} {start m r : Machine}
    {k : Nat} (before : CallTurn config answers start k m) (list : List SysAnswers)
    (answered : ∀ i (h : i < list.length), answers (k + i) = list[i])
    (h : turns config m list = some r) : CallTurn config answers start (k + list.length) r := by
  induction list generalizing m k with
  | nil =>
    cases h
    exact before
  | cons ans rest ih =>
    rw [turns] at h
    cases hturn : connectionIteration config ans m with
    | error e =>
      simp only [hturn] at h
      cases h
    | ok next =>
      simp only [hturn] at h
      split at h
      · cases h
      · rename_i moves
        have hfirst : answers k = ans := answered 0 (Nat.succ_pos _)
        have hnext : CallTurn config answers start (k + 1) next :=
          .next before (by rw [hfirst]; exact hturn) moves
        have hrest := ih hnext (fun i hi => by
          have hanswer := answered (i + 1) (Nat.succ_lt_succ hi)
          rwa [List.getElem_cons_succ, Nat.add_left_comm, Nat.add_comm i] at hanswer) h
        rwa [List.length_cons, Nat.add_comm rest.length, ← Nat.add_assoc]

/-- A file is asked for, and all that is offered of the response is taken. -/
def fileAnswers : List SysAnswers :=
  requestAnswers sampleRequest (.found ⟨.regular, 3, 0⟩) ++
    [SysAnswers.failing,
     { SysAnswers.failing with
       openFile := fun _ => some 7
       mmap := fun _ => some 4096
       write := fun _ => .accept 100000 }]

/-- One turn of the write loop takes the head, one the file, and the call stops. -/
theorem call_stops_two_turns :
    Stops setConfigDefault (fun i => fileAnswers.getD i SysAnswers.failing) readableMachine ∧
    ∃ m q, CallTurn setConfigDefault (fun i => fileAnswers.getD i SysAnswers.failing)
        readableMachine 4 m ∧ Writes m ∧
      LoopTurn (fileAnswers.getD 4 SysAnswers.failing) m.conn.writequeue 2 q := by
  constructor
  · refine (call_stops_iff readableMachine_reached).mpr ?_
    rintro i _ k _ _ _ _ ⟨_, _, _, _, _, _, _, _, hanswer⟩
    rcases i with _ | _ | _ | _ | _ | i <;> cases hanswer
  · have hrun : (turns setConfigDefault readableMachine (fileAnswers.take 4)).any (fun m =>
        decide (m.conn.state = .write ∧ chunkqueueLength m.conn.writequeue ≠ 0 ∧
          m.conn.writeable = true ∧ m.conn.writequeue.active ≠ []) &&
        (connectionHandleWriteTurn (fileAnswers.getD 4 SysAnswers.failing) 0
          m.conn.writequeue).toOption.any (fun t =>
            decide (t.code = 0 ∧ t.queue.active ≠ []) &&
            (connectionHandleWriteTurn (fileAnswers.getD 4 SysAnswers.failing) 1
              t.queue).toOption.any (fun u => decide (u.code = 0)))) = true := by
      decide +kernel
    obtain ⟨m, hturns, hm⟩ := (Option.any_eq_true _ _).mp hrun
    obtain ⟨hwrites, hm⟩ := Bool.and_eq_true_iff.mp hm
    obtain ⟨hstate, hlength, hready, hsome⟩ := of_decide_eq_true hwrites
    obtain ⟨t, hfirst, ht⟩ := (Option.any_eq_true _ _).mp hm
    obtain ⟨hgoes, ht⟩ := Bool.and_eq_true_iff.mp ht
    obtain ⟨hcode, hleft⟩ := of_decide_eq_true hgoes
    obtain ⟨u, hsecond, hu⟩ := (Option.any_eq_true _ _).mp ht
    refine ⟨m, u.queue, callTurn_turns .first (fileAnswers.take 4) (fun i hi => ?_) hturns,
      ⟨hstate, hlength, hready⟩, .next (.next .first hsome (toOption_eq_some hfirst) hcode) hleft
        (toOption_eq_some hsecond) (of_decide_eq_true hu)⟩
    have hinside : i < fileAnswers.length := by
      rw [List.length_take] at hi
      omega
    rw [Nat.zero_add, List.getElem_take]
    rw [List.getD_eq_getElem?_getD, List.getElem?_eq_getElem hinside, Option.getD_some]

/-- Names of five bytes, different from each other below 100^5. -/
def numberedName (i : Nat) : Bytes :=
  (List.range 5).map fun k => UInt8.ofNat (65 + i / 100 ^ k % 100)

def numberedEntry (i : Nat) : Dirent := ⟨numberedName i, .found ⟨.regular, 3, 0⟩⟩

/-- `k` entries with short names, and one whose name fills its column. -/
def crowdedEntries (k : Nat) : List Dirent :=
  (List.range k).map numberedEntry ++ [⟨List.replicate 64 97, .found ⟨.regular, 3, 0⟩⟩]

/-- The directory "/" with these entries is asked for; the first `writev` takes 14
bytes of the response, and the second none. -/
def crowdedAnswers (k : Nat) : Nat → SysAnswers
  | 0 => { SysAnswers.failing with read := .data (asciiBytes "GET / HTTP/1.0\r\n\r\n") }
  | 2 => { SysAnswers.failing with
      stat := .found ⟨.directory, 0, 0⟩, opendir := some (crowdedEntries k)
      localtime := fun _ => some SysAnswers.failing.date }
  | 4 => { SysAnswers.failing with write := fun turn => .accept (if turn = 0 then 14 else 0) }
  | _ => SysAnswers.failing

lemma numberedName_length (i : Nat) : (numberedName i).length = 5 := rfl

lemma numberedName_plain (i : Nat) : ∀ c ∈ numberedName i, c ≠ 0 := by
  intro c hc hzero
  obtain ⟨k, _, rfl⟩ := List.mem_map.mp hc
  have hvalue := congrArg UInt8.toNat hzero
  rw [UInt8.toNat_ofNat'] at hvalue
  have hdigit := Nat.mod_lt (i / 100 ^ k) (show 100 > 0 by decide)
  generalize i / 100 ^ k % 100 = digit at hvalue hdigit
  rw [Nat.mod_eq_of_lt (by omega)] at hvalue
  change 65 + digit = 0 at hvalue
  omega

/-- An entry of the crowded directory: a file whose name fits its column. -/
structure CrowdedEntry (entry : Dirent) : Prop where
  file : entry.stat = .found ⟨.regular, 3, 0⟩
  some_name : 5 ≤ entry.name.length
  short : entry.name.length ≤ 64
  plain : ∀ c ∈ entry.name, c ≠ 0

lemma crowdedEntries_each (k : Nat) : ∀ entry ∈ crowdedEntries k, CrowdedEntry entry := by
  intro entry h
  rcases List.mem_append.mp h with h | h
  · obtain ⟨i, _, rfl⟩ := List.mem_map.mp h
    exact ⟨rfl, Nat.le_refl _, by rw [numberedEntry, numberedName_length]; decide,
      numberedName_plain i⟩
  · rw [List.mem_singleton.mp h]
    refine ⟨rfl, ?_, Nat.le_of_eq List.length_replicate, fun c hc => ?_⟩
    · rw [List.length_replicate]
      decide
    · rw [List.eq_of_mem_replicate hc]
      decide

/-- The line of such an entry: 146 bytes and its name. -/
lemma crowdedLine (k : Nat) {entry : Dirent} (h : CrowdedEntry entry) :
    ∃ line, listedLine (crowdedAnswers k 2) [47] entry = some line ∧
      line.length = entry.name.length + 146 := by
  have hother : entry.name ≠ asciiBytes "." := fun hdot => by
    have hlength := h.some_name
    rw [hdot] at hlength
    exact absurd hlength (by decide)
  refine ⟨entryLine [47] entry.name (dateText (crowdedAnswers k 2) ⟨.regular, 3, 0⟩)
    ⟨.regular, 3, 0⟩, ?_, ?_⟩
  · rw [listedLine, if_neg hother, h.file]
  · have hdate : (dateText (crowdedAnswers k 2) ⟨.regular, 3, 0⟩).length ≤ 32 := by
      change SysAnswers.failing.date.text.length ≤ 32
      decide
    have hslash : (withSlash [47]).length = 1 := by decide
    rw [entryLine_length h.short hdate (by decide), hslash]
    omega

/-- The lines of some entries are as long as their names and 146 bytes for each. -/
lemma crowdedLines (k : Nat) (entries : List Dirent)
    (each : ∀ entry ∈ entries, CrowdedEntry entry) :
    (listedLines (crowdedAnswers k 2) [47] entries).flatten.length =
        (entries.map fun entry => entry.name.length + 146).sum ∧
      ∀ line ∈ listedLines (crowdedAnswers k 2) [47] entries, line.length ≤ 1023 := by
  induction entries with
  | nil => exact ⟨rfl, fun line h => by cases h⟩
  | cons entry rest ih =>
    obtain ⟨hentry, hrest⟩ := List.forall_mem_cons.mp each
    obtain ⟨line, hlisted, hline⟩ := crowdedLine k hentry
    obtain ⟨hlength, hfit⟩ := ih hrest
    have hcons : listedLines (crowdedAnswers k 2) [47] (entry :: rest) =
        line :: listedLines (crowdedAnswers k 2) [47] rest := List.filterMap_cons_some hlisted
    rw [hcons]
    refine ⟨?_, List.forall_mem_cons.mpr ⟨?_, hfit⟩⟩
    · rw [List.flatten_cons, List.length_append, hlength, hline, List.map_cons, List.sum_cons]
    · have hshort := hentry.short
      omega

lemma crowdedEntries_sum (k : Nat) :
    ((crowdedEntries k).map fun entry => entry.name.length + 146).sum = 151 * k + 210 := by
  have hnumbered : (((List.range k).map numberedEntry).map fun entry =>
      entry.name.length + 146) = List.replicate k 151 := by
    rw [List.map_map]
    exact List.eq_replicate_iff.mpr ⟨by rw [List.length_map, List.length_range], by
      intro n hn
      obtain ⟨i, _, rfl⟩ := List.mem_map.mp hn
      exact congrArg (· + 146) (numberedName_length i)⟩
  rw [crowdedEntries, List.map_append, List.sum_append, hnumbered, List.sum_replicate_nat,
    List.map_singleton, List.sum_singleton, List.length_replicate, Nat.mul_comm]

/-- The connection that `http_request_handle` works on. -/
def withRootPath (m : Machine) : Connection :=
  atFullpath setConfigDefault { m.conn with connectionResponse := responseInitialize }

/-- The connection is about to handle "/". -/
structure AsksRoot (m : Machine) : Prop where
  state : m.conn.state = .handleRequest
  status : m.conn.httpStatus = 0
  url : (withRootPath m).connectionRequest.requestUrl.data = [47, 0]
  request : m.conn.connectionRequest.requestUrl.isNull = false
  memory : (withRootPath m).connectionRequest.requestUrl.isNull = false
  version : m.conn.connectionRequest.httpVersion = .http10
  closes : m.conn.keepAlive = false
  empty : m.conn.writequeue.active = []
  writeable : m.conn.writeable = true

lemma asksRoot (k : Nat) : ∃ m, turns setConfigDefault readableMachine
    [crowdedAnswers k 0, crowdedAnswers k 1] = some m ∧ AsksRoot m := by
  have hrun : (turns setConfigDefault readableMachine
      [crowdedAnswers k 0, crowdedAnswers k 1]).any (fun m =>
        decide (m.conn.state = .handleRequest ∧ m.conn.httpStatus = 0 ∧
          (withRootPath m).connectionRequest.requestUrl.data = [47, 0] ∧
          m.conn.connectionRequest.requestUrl.isNull = false ∧
          (withRootPath m).connectionRequest.requestUrl.isNull = false ∧
          m.conn.connectionRequest.httpVersion = .http10 ∧ m.conn.keepAlive = false ∧
          m.conn.writequeue.active = [] ∧ m.conn.writeable = true)) = true := by
    change (turns setConfigDefault readableMachine
      [crowdedAnswers 0 0, crowdedAnswers 0 1]).any _ = true
    decide +kernel
  obtain ⟨m, hm, hfacts⟩ := (Option.any_eq_true _ _).mp hrun
  obtain ⟨h1, h2, h3, h4, h5, h6, h7, h8, h9⟩ := of_decide_eq_true hfacts
  exact ⟨m, hm, h1, h2, h3, h4, h5, h6, h7, h8, h9⟩

lemma asksRoot_page {m : Machine} (asks : AsksRoot m) {k : Nat} (fits : k ≤ 28443489) :
    ∃ b events, httpHandleDirectoryParse (crowdedAnswers k 2) (withRootPath m)
        (withRootPath m).connectionResponse.fullpath = .ok (b, events) ∧
      b.Terminated ∧ b.isNull = false ∧ b.str.length = 340 + 151 * k := by
  have hurl : Holds (withRootPath m).connectionRequest.requestUrl [47] := by
    refine ⟨⟨by rw [asks.url]; decide, Or.inr ?_⟩, ?_⟩ <;> rw [Buffer.str, asks.url] <;> rfl
  have hpath : HoldsPath (withRootPath m).connectionResponse.fullpath
      (setConfigDefault.serviceRootDir ++ 47 :: relativePart [47]) :=
    fullpath_holds asks.url (by decide +kernel) (by decide)
  obtain ⟨_, _, hdirectory⟩ := @withFullpath_returns setConfigDefault
    { m.conn with connectionResponse := responseInitialize } [47] asks.url (by decide +kernel)
    (by decide)
  have heach := crowdedEntries_each k
  have hopen : (crowdedAnswers k 2).opendir.getD [] = crowdedEntries k := rfl
  obtain ⟨hlines, hshort⟩ := crowdedLines k _ heach
  have hlength : (page [47] (writtenLines (listedLines (crowdedAnswers k 2) [47]
      (crowdedEntries k)))).length = 340 + 151 * k := by
    have hslash : (withSlash [47]).length = 1 := by decide
    rw [page_length, (writtenLines_flatten _).2.mpr hshort, hlines, crowdedEntries_sum, hslash]
    omega
  have hsome : setConfigDefault.serviceRootDir ++ 47 :: relativePart [47] ≠ [] := by simp
  obtain ⟨hholds, hreturns⟩ := @directoryParse_iff (crowdedAnswers k 2) _ _ _ _ hurl asks.memory
    (by decide) (by decide +kernel) hpath hsome hdirectory (by
      rw [hopen]
      exact fun entry h => ⟨Nat.le_trans (heach entry h).short (by decide), (heach entry h).plain⟩)
  rw [hopen] at hholds hreturns
  obtain ⟨b, events, hparse⟩ := hreturns.mpr ⟨fun _ _ _ _ _ => rfl, by
    intro entry h _
    have hname := (heach entry h).short
    have hdefault : (withSlash (setConfigDefault.serviceRootDir ++ 47 :: relativePart [47])).length ≤
        1000 := by decide +kernel
    refine Or.inr ?_
    rw [List.length_append]
    omega, by omega⟩
  have hheld := hholds b events hparse
  refine ⟨b, events, hparse, hheld.stored.terminated, hheld.stored.not_null ?_, ?_⟩
  · rw [hheld.str]
    exact List.ne_nil_of_length_pos (by omega)
  · rw [hheld.str, hlength]

/-- The page of the directory is the response, and its head is to come. -/
structure PageReady (m : Machine) (c : Chunk) (n : Nat) : Prop where
  state : m.conn.state = .responseStart
  status : m.conn.httpStatus = 200
  version : m.conn.connectionRequest.httpVersion = .http10
  closes : m.conn.keepAlive = false
  finished : m.conn.httpResponseBodyFinished = true
  type : m.conn.connectionResponse.contentType.data = asciiBytes "text/html" ++ [0]
  writeable : m.conn.writeable = true
  active : m.conn.writequeue.active = [c]
  mem : c.chunkType = .mem
  untouched : c.chunkOffset = 0
  terminated : c.mem.Terminated
  length : c.mem.str.length = n

lemma asksRoot_handled {m : Machine} (asks : AsksRoot m) (clean : IdleClean m.conn.writequeue)
    {k : Nat} (fits : k ≤ 28443489) :
    ∃ next c, connectionIteration setConfigDefault (crowdedAnswers k 2) m = .ok next ∧
      PageReady next c (340 + 151 * k) := by
  obtain ⟨b, events, hparse, hterm, hmemory, hlength⟩ := asksRoot_page asks fits
  obtain ⟨q, hqueue⟩ := appendBuffer_returns m.conn.writequeue hmemory
  obtain ⟨c, hactive, _, hmem, hzero, hterminated, hstr, _⟩ := appendBuffer_spec clean hqueue
  rw [asks.empty, List.nil_append] at hactive
  have hstring : c.mem.str.length = 340 + 151 * k := by
    rw [hstr, hterm.take_stringLength, hlength]
  obtain ⟨_, hpath, _⟩ := @withFullpath_returns setConfigDefault
    { m.conn with connectionResponse := responseInitialize } [47] asks.url (by decide +kernel)
    (by decide)
  have hserve : serveDirectory (crowdedAnswers k 2) (withRootPath m) = .ok ({ withRootPath m with
      connectionResponse := { (withRootPath m).connectionResponse with
        contentType := bufferCopyString (withRootPath m).connectionResponse.contentType
          (asciiBytes "text/html") }
      writequeue := q, httpResponseBodyFinished := true, httpStatus := 200 }, events) := by
    have hq : chunkqueueAppendBuffer (withRootPath m).writequeue b = .ok q := hqueue
    simp only [serveDirectory, hparse, hq, ok_bind]
    rfl
  have hstatus : ¬ (m.conn.httpStatus ≠ 0 ∧ m.conn.httpStatus ≠ 200) := fun h => h.1 asks.status
  have hstat : (crowdedAnswers k 2).stat = .found ⟨.directory, 0, 0⟩ := rfl
  have hhandle : httpRequestHandle setConfigDefault (crowdedAnswers k 2)
      { m.conn with connectionResponse := responseInitialize } =
      serveDirectory (crowdedAnswers k 2) (withRootPath m) >>= fun served =>
        .ok (0, served.1, .stat (requestPath setConfigDefault
          { m.conn with connectionResponse := responseInitialize }) :: served.2) := by
    simp only [httpRequestHandle, if_neg hstatus, asks.request, hpath, hstat, ok_bind,
      Bool.false_eq_true, if_false]
    rfl
  have hturn : connectionIteration setConfigDefault (crowdedAnswers k 2) m =
      handleHandleRequest setConfigDefault (crowdedAnswers k 2) (m.emit [.state .handleRequest]) := by
    simp only [connectionIteration, Machine.emit, asks.state]
  rw [hturn]
  change ∃ next c, (httpRequestHandle setConfigDefault (crowdedAnswers k 2)
    { m.conn with connectionResponse := responseInitialize } >>= _) = .ok next ∧ _
  rw [hhandle, hserve]
  exact ⟨_, c, rfl, rfl, rfl, asks.version, asks.closes, rfl, rfl, asks.writeable, hactive, hmem,
    hzero, hterminated, hstring⟩

/-- The length of a page from 2^31 on is shown as a negative one. -/
lemma crowdedHead_length {ans : SysAnswers} {conn : Connection}
    (version : conn.connectionRequest.httpVersion = .http10) (status : conn.httpStatus = 200)
    (closes : conn.keepAlive = false)
    (type : conn.connectionResponse.contentType.data = asciiBytes "text/html" ++ [0])
    (length : conn.connectionResponse.contentLength = 4294967179)
    (date : ans.date = SysAnswers.failing.date) :
    (responseHeadParts setConfigDefault ans conn "OK").flatten.length = 131 := by
  have htype : bufferIsEmpty conn.connectionResponse.contentType = false := by
    rw [bufferIsEmpty, Buffer.usedBytes, type]
    decide
  simp only [responseHeadParts, version, status, closes, length, date, htype, type]
  decide +kernel

/-- The head of the page is in front of it. -/
lemma pageReady_written {ans : SysAnswers} {m next : Machine} {c : Chunk}
    (reached : Reached setConfigDefault .running m) (ready : PageReady m c 4294967179)
    (date : ans.date = SysAnswers.failing.date)
    (h : connectionIteration setConfigDefault ans m = .ok next) :
    ∃ head, next.conn.state = .write ∧ next.conn.writeable = true ∧
      next.conn.writequeue.active = [head, c] ∧ head.chunkType = .mem ∧
      head.chunkOffset = 0 ∧ head.mem.Terminated ∧ head.mem.str.length = 131 := by
  have kept : ∀ mid, BodyOutcome m.conn mid → mid = m.conn := by
    intro mid hbody
    cases hbody with
    | kept => rfl
    | page _ _ herror =>
      rw [ready.status] at herror
      exact absurd herror (by decide)
  obtain ⟨mid, text, head, hqueued⟩ := head_queued reached ready.state h
  obtain rfl := kept mid hqueued.body
  have htext : text = "OK" := by
    have hstatus := hqueued.status
    rw [ready.status] at hstatus
    exact (Option.some.inj hstatus).symm
  have hset : setContentLength m.conn = { m.conn with connectionResponse :=
      { m.conn.connectionResponse with contentLength := chunkqueueLength m.conn.writequeue } } := by
    rw [setContentLength, if_pos ready.finished]
  have hcount : chunkqueueLength m.conn.writequeue = 4294967179 := by
    have hlength : chunkLength c = 4294967179 := by
      rw [chunkLength, ready.mem]
      exact ready.terminated.stringLength_eq.trans ready.length
    rw [chunkqueueLength, ready.active, List.foldl_cons, List.foldl_nil, hlength]
    rfl
  have hhead : head.mem.str.length = 131 := by
    rw [← chunkString_eq hqueued.terminated, hqueued.text, htext, hset]
    exact crowdedHead_length ready.version ready.status ready.closes ready.type hcount date
  have hmoves : next.conn.state = .write ∧ next.conn.writeable = m.conn.writeable := by
    have hstart : (m.emit [.state m.conn.state]).conn.state = .responseStart := ready.state
    cases turn_cases (ConnectionRuns.reached_inv reached).1.conn h with
    | prepared mid _ _ _ hbody =>
      obtain rfl := kept mid hbody
      refine ⟨rfl, ?_⟩
      change (setContentLength m.conn).writeable = m.conn.writeable
      rw [hset]
    | _ => simp_all
  refine ⟨head, hmoves.1, hmoves.2.trans ready.writeable, ?_, hqueued.mem, hqueued.untouched,
    hqueued.terminated, hhead⟩
  rw [hqueued.active, ready.active]

/-- What is left of two memory chunks is offered together. -/
lemma gather_two {c d : Chunk} (hc : c.chunkType = .mem) (hd : d.chunkType = .mem)
    (inside : c.chunkOffset < (chunkString c).length) (some_text : chunkString d ≠ [])
    (whole : d.chunkOffset = 0) :
    gatherChunks [c, d] 16 = .ok [(chunkString c).drop c.chunkOffset, chunkString d] := by
  have hlength : ∀ e : Chunk, (chunkString e).length ≤ bufferStringLength e.mem := by
    intro e
    rw [chunkString, bufferString, List.length_take]
    exact Nat.min_le_left _ _
  have hfirst : c.chunkOffset ≤ bufferStringLength c.mem :=
    Nat.le_trans (Nat.le_of_lt inside) (hlength c)
  have hsome : ((chunkString c).drop c.chunkOffset).length > 0 := by
    rw [List.length_drop]
    omega
  have hrest : (chunkString d).length > 0 := List.length_pos_iff.mpr some_text
  simp only [gatherChunks, hc, hd, whole, List.drop_zero, if_pos hfirst, if_pos hsome,
    if_pos hrest, if_pos (Nat.zero_le _), ne_eq, not_true_eq_false, false_or, reduceCtorEq,
    if_false, Nat.reduceSub, Except.map]

section Wrapped
variable {ans : SysAnswers} {q : Chunkqueue} {c d : Chunk} {n : Nat}

/-- The first `writev` leaves 2^32 bytes behind, the second takes none of them. -/
lemma wrapped_stalls (clean : IdleClean q) (active : q.active = [c, d])
    (hc : c.chunkType = .mem) (hd : d.chunkType = .mem) (first : c.chunkOffset = 0)
    (second : d.chunkOffset = 0) (hcterm : c.mem.Terminated) (hdterm : d.mem.Terminated)
    (total : c.mem.str.length + d.mem.str.length = 4294967296 + n) (pos : 0 < n)
    (inside : n < c.mem.str.length) (few : n ≤ maxTransfer) (takes : ans.write 0 = .accept n)
    (takes_none : ans.write 1 = .accept 0) :
    ∃ p, LoopTurn ans q 1 p ∧ Stalls ans 1 p := by
  have hcstring : chunkString c = c.mem.str := chunkString_eq hcterm
  have hdstring : chunkString d = d.mem.str := chunkString_eq hdterm
  have hdsome : chunkString d ≠ [] := by
    intro hnil
    rw [hdstring] at hnil
    have hshort := hcterm.short
    have hlength := @List.length_dropLast _ c.mem.data
    rw [hnil, Buffer.str, hlength, List.length_nil] at total
    omega
  obtain ⟨p, hmark, hactive⟩ : ∃ p, chunkqueueMarkWritten q n = (0, p) ∧
      p.active = [{ c with chunkOffset := n }, d] := by
    have hremaining : chunkRemainingLen c = c.mem.str.length := by
      have hlength : chunkLength c = c.mem.str.length := by
        rw [chunkLength, hc]
        exact hcterm.stringLength_eq
      rw [chunkRemainingLen, hlength, first]
      have hshort := hcterm.short
      rw [u32Sub_of_le (Nat.zero_le _)]
      · rfl
      · rw [Buffer.str, List.length_dropLast]
        omega
    obtain ⟨hleft, hdropped, _⟩ := markWritten_spec n clean
    have hdrop : dropWritten [c, d] n = (0, [{ c with chunkOffset := n }, d]) := by
      have hnlt : n < 4294967296 := Nat.lt_of_le_of_lt few (by decide)
      rw [dropWritten, hremaining, if_neg (by omega), if_neg (by omega), first, Nat.zero_add,
        u32_of_lt hnlt]
    rw [active, hdrop] at hleft hdropped
    exact ⟨_, Prod.ext hleft rfl, hdropped⟩
  have hoffered : ([c.mem.str, d.mem.str] : List Bytes).flatten.length = 4294967296 + n := by
    rw [List.flatten_cons, List.flatten_singleton, List.length_append, total]
  have hgather : gatherChunks q.active 16 = .ok [c.mem.str, d.mem.str] := by
    have htwo := gather_two hc hd (by rw [first, hcstring]; omega) hdsome second
    rw [hcstring, hdstring, first, List.drop_zero] at htwo
    rw [active, htwo]
  have hgather' : gatherChunks p.active 16 = .ok [c.mem.str.drop n, d.mem.str] := by
    have htwo := @gather_two { c with chunkOffset := n } d hc hd
      (show n < (chunkString c).length by rw [hcstring]; exact inside) hdsome second
    have hmoved : chunkString { c with chunkOffset := n } = c.mem.str := hcstring
    rw [hmoved, hdstring] at htwo
    rw [hactive, htwo]
  have hturn : connectionHandleWriteTurn ans 0 q =
      .ok ⟨0, p, ([c.mem.str, d.mem.str] : List Bytes).flatten.take n⟩ := by
    have hwrapped : u32 (4294967296 + n) = n := by
      rw [u32, Nat.add_mod_left, Nat.mod_eq_of_lt (Nat.lt_of_le_of_lt few (by decide))]
    have hn : min n (min (4294967296 + n) maxTransfer) = n := by omega
    have hwritten : connectionWritevMemChunk q (.accept n) =
        .ok ⟨0, p, ([c.mem.str, d.mem.str] : List Bytes).flatten.take n⟩ := by
      rw [connectionWritevMemChunk]
      refine bind_eq_ok.mpr ⟨_, hgather, ?_⟩
      rw [if_neg (List.cons_ne_nil _ _)]
      simp only [hoffered, hn, hwrapped, if_true, if_pos pos, hmark]
      rfl
    rw [connectionHandleWriteTurn, active]
    simp only [hc, takes, hwritten]
  refine ⟨p, .next .first (by rw [active]; exact List.cons_ne_nil _ _) hturn rfl, ?_⟩
  have hleft : ([c.mem.str.drop n, d.mem.str] : List Bytes).flatten.length = 4294967296 := by
    rw [List.flatten_cons, List.flatten_singleton, List.length_append, List.length_drop]
    omega
  refine ⟨_, [d], _, hactive, hc, hgather', ?_, ?_, takes_none⟩
  · intro hnil
    rw [hnil, List.length_nil] at hleft
    omega
  · rw [hleft]
    rfl

end Wrapped

/-- The page alone is shorter than 2^32 bytes, the response is not. -/
lemma crowded_stalls : ∃ m q,
    CallTurn setConfigDefault (crowdedAnswers 28443489) readableMachine 4 m ∧
    Writes m ∧ LoopTurn (crowdedAnswers 28443489 4) m.conn.writequeue 1 q ∧
    Stalls (crowdedAnswers 28443489 4) 1 q := by
  obtain ⟨m, hm, asks⟩ := asksRoot 28443489
  have reached := reached_turns _ readableMachine_reached hm
  have hidle := (ConnectionRuns.reached_inv reached).1.conn.writequeue.idle
  obtain ⟨handled, page, hhandled, ready⟩ := asksRoot_handled asks hidle (Nat.le_refl _)
  have moves : handled.conn.state ≠ m.conn.state := by
    rw [ready.state, asks.state]
    decide
  have reachedHandled := reached.turn hhandled moves
  obtain ⟨next, hnext⟩ :=
    responseStart_returns (crowdedAnswers 28443489 3) reachedHandled ready.state
  obtain ⟨head, hwrite, hready, hactive, hheadMem, hheadZero, hheadTerm, hheadLength⟩ :=
    pageReady_written reachedHandled ready rfl hnext
  have moves' : next.conn.state ≠ handled.conn.state := by
    rw [hwrite, ready.state]
    decide
  have reachedNext := reachedHandled.turn hnext moves'
  have hpage := ready.length
  have hfirst : CallTurn setConfigDefault (crowdedAnswers 28443489) readableMachine 2 m :=
    callTurn_turns .first [crowdedAnswers 28443489 0, crowdedAnswers 28443489 1] (fun i hi => by
      have hcases : i = 0 ∨ i = 1 := by
        rw [List.length_cons, List.length_singleton] at hi
        omega
      rcases hcases with rfl | rfl <;> rfl) hm
  have hqueue := (ConnectionRuns.reached_inv reachedNext).1.conn.writequeue
  obtain ⟨q, hloop, hstalls⟩ := @wrapped_stalls (crowdedAnswers 28443489 4) next.conn.writequeue
    head page 14 hqueue.idle hactive hheadMem ready.mem hheadZero ready.untouched hheadTerm
    ready.terminated (by omega) (by decide) (by omega) (by decide) rfl rfl
  refine ⟨next, q, .next (.next hfirst hhandled moves) hnext moves', ⟨hwrite, ?_, hready⟩, hloop,
    hstalls⟩
  -- the 32-bit sum of the lengths is 14
  have hlengths : chunkLength head = 131 ∧ chunkLength page = 4294967179 := by
    rw [chunkLength, chunkLength, hheadMem, ready.mem]
    exact ⟨hheadTerm.stringLength_eq.trans hheadLength,
      ready.terminated.stringLength_eq.trans hpage⟩
  rw [chunkqueueLength, hactive, List.foldl_cons, List.foldl_cons, List.foldl_nil, hlengths.1,
    hlengths.2]
  decide

theorem call_does_not_stop : Reached setConfigDefault .running readableMachine ∧
    ¬ Stops setConfigDefault (crowdedAnswers 28443489) readableMachine := by
  obtain ⟨m, q, hturn, hwrites, hloop, hstalls⟩ := crowded_stalls
  refine ⟨readableMachine_reached, fun stops => ?_⟩
  have pending : q.active ≠ [] := by
    obtain ⟨c, rest, _, hactive, _⟩ := hstalls
    rw [hactive]
    exact List.cons_ne_nil c rest
  exact Nat.lt_irrefl _
    (stops.decreases 4 m 1 q _ hturn hwrites hloop pending (stalled_turn hstalls) rfl)

end CallTermination
