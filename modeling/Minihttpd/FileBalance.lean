import Minihttpd.ConnectionRuns
import Minihttpd.Library.Ledger

/-!
# Descriptors and mappings of the file chunks

The calls made for the chunks of a queue are a record of what is acquired and
released. After every step it comes out at what the active chunks hold, and
`connection_free` leaves nothing.
-/
namespace FileBalance

open ByteBuffer SystemCalls ChunkQueue ChunkQueueLaws ConnectionTypes HttpResponse HttpConnection
open StateMachine RequestOutcome Turns ConnectionInvariant ConnectionRuns Ledger FailingRun

inductive Resource where
  | descriptor (fd : Nat)
  | mapping (addr len : Nat)
  deriving DecidableEq, Repr

def callAction : KernelCall → Action Resource
  | .openFile fd => .acquire (.descriptor fd)
  | .close fd => .release (.descriptor fd)
  | .mmap m => .acquire (.mapping m.addr m.len)
  | .munmap addr len => .release (.mapping addr len)

/-- The descriptor and the mapping of a chunk, as its own fields name them. -/
def heldBy (c : Chunk) : List Resource :=
  (c.fileFd.map Resource.descriptor).toList ++
    (c.mmapStart.map fun m => Resource.mapping m.addr c.mmapLen).toList

def heldByAll (chunks : List Chunk) : List Resource := chunks.flatMap heldBy

/-- The calls of a queue come out at these resources. -/
def ComesTo (calls : List KernelCall) (held : List Resource) : Prop :=
  settle 0 (calls.map callAction) = some (held : Multiset Resource)

/-- The calls of a queue come out at what its active chunks hold. -/
def Balanced (q : Chunkqueue) : Prop := ComesTo q.calls (heldByAll q.active)

lemma release_actions (c : Chunk) :
    (chunkRelease c).map callAction = (heldBy c).map Action.release := by
  rw [chunkRelease, heldBy]
  cases c.fileFd <;> cases c.mmapStart <;> rfl

lemma heldBy_clean {c : Chunk} (fd : c.fileFd = none) (map : c.mmapStart = none) :
    heldBy c = [] := by
  rw [heldBy, fd, map]
  rfl

lemma ComesTo.releases {calls more : List KernelCall} {released held : List Resource}
    (h : ComesTo calls (released ++ held)) (actions : more.map callAction = released.map .release) :
    ComesTo (calls ++ more) held := by
  rw [ComesTo, List.map_append, actions]
  apply settle_releases
  rw [Multiset.coe_add]
  exact h

lemma ComesTo.acquires {calls : List KernelCall} {held : List Resource} (h : ComesTo calls held)
    {call : KernelCall} {r : Resource} (action : callAction call = .acquire r) :
    ComesTo (calls ++ [call]) (r :: held) := by
  rw [ComesTo, List.map_append, List.map_singleton, action]
  exact settle_acquire h r

/-- A chunk is let go of: what it holds is released. -/
lemma ComesTo.release {calls : List KernelCall} {c : Chunk} {held : List Resource}
    (h : ComesTo calls (heldBy c ++ held)) : ComesTo (calls ++ chunkRelease c) held :=
  h.releases (release_actions c)

lemma ComesTo.perm {calls : List KernelCall} {held held' : List Resource} (h : ComesTo calls held)
    (same : held.Perm held') : ComesTo calls held' := by
  rw [ComesTo, h, Multiset.coe_eq_coe.mpr same]

@[simp] lemma getUnused_calls (q : Chunkqueue) : (chunkqueueGetUnusedChunk q).2.calls = q.calls := by
  rw [chunkqueueGetUnusedChunk]
  split <;> rfl

@[simp] lemma pushUnused_calls (q : Chunkqueue) (c : Chunk) :
    (chunkqueuePushUnusedChunk q c).calls = q.calls ++ chunkRelease c := by
  rw [chunkqueuePushUnusedChunk]
  split <;> rfl

lemma heldByAll_append (a b : List Chunk) : heldByAll (a ++ b) = heldByAll a ++ heldByAll b :=
  List.flatMap_append

lemma heldByAll_cons (c : Chunk) (rest : List Chunk) :
    heldByAll (c :: rest) = heldBy c ++ heldByAll rest := List.flatMap_cons

/-- A queue whose chunks hold the same resources. -/
lemma Balanced.same {q p : Chunkqueue} (h : Balanced q) (calls : p.calls = q.calls)
    (held : heldByAll p.active = heldByAll q.active) : Balanced p := by
  rw [Balanced, calls, held]
  exact h

lemma heldByAll_snoc {c : Chunk} (chunks : List Chunk) (none_held : heldBy c = []) :
    heldByAll (chunks ++ [c]) = heldByAll chunks := by
  rw [heldByAll_append, heldByAll_cons, none_held, heldByAll, heldByAll, List.flatMap_nil,
    List.append_nil, List.append_nil]

lemma appendBuffer_balanced {q p : Chunkqueue} {mem : Buffer} (clean : IdleClean q)
    (h : Balanced q) (run : chunkqueueAppendBuffer q mem = .ok p) : Balanced p := by
  obtain ⟨hc, hactive, _⟩ := getUnused_spec clean
  have hcalls := getUnused_calls q
  simp only [chunkqueueAppendBuffer] at run
  generalize chunkqueueGetUnusedChunk q = unused at run hc hactive hcalls
  obtain ⟨b, _, hp⟩ := bind_eq_ok.mp run
  cases hp
  refine h.same hcalls ?_
  change heldByAll (unused.2.active ++ [_]) = _
  rw [hactive]
  exact heldByAll_snoc _ (heldBy_clean hc.fileFd hc.mmapStart)

lemma prependBuffer_balanced {q p : Chunkqueue} {mem : Buffer} (clean : IdleClean q)
    (h : Balanced q) (run : chunkqueuePrependBuffer q mem = .ok p) : Balanced p := by
  obtain ⟨hc, hactive, _⟩ := getUnused_spec clean
  have hcalls := getUnused_calls q
  simp only [chunkqueuePrependBuffer] at run
  generalize chunkqueueGetUnusedChunk q = unused at run hc hactive hcalls
  obtain ⟨b, _, hp⟩ := bind_eq_ok.mp run
  cases hp
  refine h.same hcalls ?_
  change heldByAll (_ :: unused.2.active) = _
  rw [hactive, heldByAll_cons]
  exact congrArg (· ++ heldByAll q.active) (heldBy_clean hc.fileFd hc.mmapStart)

lemma appendFile_calls {q p : Chunkqueue} {filename : Buffer} {offset len : Nat}
    (run : chunkqueueAppendFile q filename offset len = .ok p) : p.calls = q.calls := by
  by_cases hnull : filename.isNull = true
  · simp only [chunkqueueAppendFile, hnull, if_true] at run
    cases run
  · by_cases hskip : (cString filename.data).length = 0 ∨ len = 0
    · simp only [chunkqueueAppendFile, hnull, if_false, if_pos hskip, Bool.false_eq_true] at run
      cases run
      rfl
    · simp only [chunkqueueAppendFile, hnull, if_false, if_neg hskip, Bool.false_eq_true] at run
      have hcalls := getUnused_calls q
      generalize chunkqueueGetUnusedChunk q = unused at run hcalls
      obtain ⟨b, _, hp⟩ := bind_eq_ok.mp run
      cases hp
      exact hcalls

lemma appendFile_balanced {q p : Chunkqueue} {filename : Buffer} {offset len : Nat}
    (clean : IdleClean q) (h : Balanced q)
    (run : chunkqueueAppendFile q filename offset len = .ok p) : Balanced p := by
  refine h.same (appendFile_calls run) ?_
  rcases appendFile_spec clean run with ⟨_, _, rfl⟩ | ⟨_, _, c, hactive, _, _, _, _, hfd, hmap, _⟩
  · rfl
  · rw [hactive]
    exact heldByAll_snoc _ (heldBy_clean hfd hmap)

/-- The chunks behind a chunk that is pushed to the idle stack. -/
lemma push_balanced {q : Chunkqueue} {c : Chunk} {rest : List Chunk}
    (h : ComesTo q.calls (heldByAll (c :: rest))) :
    ComesTo (chunkqueuePushUnusedChunk q c).calls (heldByAll rest) := by
  rw [pushUnused_calls]
  exact ComesTo.release h

lemma reset_balanced {q : Chunkqueue} (h : Balanced q) : Balanced (chunkqueueReset q) := by
  have pushes : ∀ (active : List Chunk) (p : Chunkqueue), ComesTo p.calls (heldByAll active) →
      ComesTo (active.foldl chunkqueuePushUnusedChunk p).calls [] := by
    intro active
    induction active with
    | nil => exact fun p hp => hp
    | cons c rest ih => exact fun p hp => ih _ (push_balanced hp)
  exact pushes q.active q h

lemma heldByAll_offset (c : Chunk) (offset : Nat) (rest : List Chunk) :
    heldByAll ({ c with chunkOffset := offset } :: rest) = heldByAll (c :: rest) := rfl

lemma markWritten_balanced {q : Chunkqueue} (h : Balanced q) (len : Nat) :
    Balanced (chunkqueueMarkWritten q len).2 := by
  have loop : ∀ (active : List Chunk) (p : Chunkqueue) (len : Nat),
      ComesTo p.calls (heldByAll active) → Balanced (markWrittenLoop p active len).2 := by
    intro active
    induction active with
    | nil => exact fun p len hp => hp
    | cons c rest ih =>
      intro p len hp
      rw [markWrittenLoop]
      by_cases hnone : len = 0 ∧ chunkRemainingLen c > 0
      · rw [if_pos hnone]
        exact hp
      · rw [if_neg hnone]
        generalize chunkRemainingLen c = chunkLen
        by_cases hwhole : len ≥ chunkLen
        · rw [if_pos hwhole]
          refine ih _ _ (push_balanced ?_)
          rw [heldByAll_offset]
          exact hp
        · rw [if_neg hwhole, Balanced, heldByAll_offset]
          exact hp
  exact loop q.active q len h

lemma removeFinished_balanced {q : Chunkqueue} (h : Balanced q) :
    Balanced (chunkqueueRemoveFinishedChunk q) := by
  have loop : ∀ (active : List Chunk) (p : Chunkqueue), ComesTo p.calls (heldByAll active) →
      Balanced (removeFinishedLoop p active) := by
    intro active
    induction active with
    | nil => exact fun p hp => hp
    | cons c rest ih =>
      intro p hp
      rw [removeFinishedLoop]
      split
      · exact hp
      · exact ih _ (push_balanced hp)
  exact loop q.active q h

/-- A change in the memory of the last chunk. -/
lemma heldByAll_replaceLast {active : List Chunk} {c : Chunk} (last : active.getLast? = some c)
    (mem : Buffer) : heldByAll (active.dropLast ++ [{ c with mem := mem }]) = heldByAll active := by
  have hsplit := List.dropLast_append_getLast? c last
  have hsame : heldBy { c with mem := mem } = heldBy c := rfl
  rw [heldByAll_append, heldByAll_cons, hsame, ← heldByAll_cons, ← heldByAll_append, hsplit]

lemma newMemory_balanced {q : Chunkqueue} (clean : IdleClean q) (h : Balanced q) (need : Nat) :
    Balanced (chunkGetNewMemory q need).1 := by
  obtain ⟨hc, hactive, _⟩ := getUnused_spec clean
  have hcalls := getUnused_calls q
  simp only [chunkGetNewMemory]
  generalize chunkqueueGetUnusedChunk q = unused at hc hactive hcalls ⊢
  refine h.same hcalls ?_
  change heldByAll (unused.2.active ++ [_]) = _
  rw [hactive]
  exact heldByAll_snoc _ (heldBy_clean hc.fileFd hc.mmapStart)

lemma getMemory_balanced {q : Chunkqueue} (clean : IdleClean q) (h : Balanced q) (need : Nat) :
    Balanced (chunkGetMemory q need).1 := by
  rw [chunkGetMemory]
  by_cases hneed : need = 0
  · rw [if_pos hneed]
    exact h
  · rw [if_neg hneed]
    cases hlast : q.active.getLast? with
    | none => exact newMemory_balanced clean h need
    | some c =>
      by_cases htype : c.chunkType = .mem
      · simp only [if_pos htype]
        generalize (if bufferIsEmpty c.mem then bufferAllocSize c.mem need else c.mem) = b
        have hsame : Balanced { q with
            active := q.active.dropLast ++ [{ c with mem := b }] } :=
          h.same rfl (heldByAll_replaceLast hlast b)
        split
        · exact hsame
        · exact newMemory_balanced (idleClean_setActive clean _) hsame need
      · simp only [if_neg htype]
        exact newMemory_balanced clean h need

lemma commitMemory_balanced {q p : Chunkqueue} {bytes : Bytes} (h : Balanced q)
    (run : chunkCommitMemory q bytes = .ok p) : Balanced p := by
  rw [chunkCommitMemory] at run
  split at run
  · cases run
    exact h
  · split at run
    · cases run
    · rename_i c hlast
      split at run
      · cases run
        exact h.same rfl (heldByAll_replaceLast hlast _)
      · cases run

lemma writev_balanced {q : Chunkqueue} {answer : WriteAnswer} {t : WriteTurn} (h : Balanced q)
    (run : connectionWritevMemChunk q answer = .ok t) : Balanced t.queue := by
  rw [connectionWritevMemChunk] at run
  obtain ⟨sendChunks, _, run⟩ := bind_eq_ok.mp run
  split at run
  · cases run
    exact removeFinished_balanced h
  · split at run
    · cases run
      exact h
    · simp only at run
      split at run
      · split at run
        · cases run
        · cases run
          exact markWritten_balanced h _
      · cases run
        exact h

/-- A file that is opened is held, and nothing else about the chunk changes. -/
lemma openFile_comesTo {c opened : Chunk} {answer : Option Nat} {calls more : List KernelCall}
    {held : List Resource} (h : ComesTo calls (heldBy c ++ held))
    (run : openFileChunk c answer = some (opened, more)) :
    ComesTo (calls ++ more) (heldBy opened ++ held) := by
  rw [openFileChunk] at run
  cases hfd : c.fileFd with
  | some fd =>
    rw [hfd] at run
    cases run
    rw [List.append_nil]
    exact h
  | none =>
    rw [hfd] at run
    obtain ⟨fd, _, heq⟩ := Option.map_eq_some_iff.mp run
    cases heq
    have hheld : heldBy { c with fileFd := some fd } = .descriptor fd :: heldBy c := by
      rw [heldBy, heldBy, hfd]
      rfl
    rw [hheld]
    exact h.acquires rfl

/-- The calls and the chunk that come of moving a window: the old window is
unmapped, and a new one is there unless `mmap` fails. -/
lemma remap_eq (c : Chunk) (offset fileEnd : Nat) (answer : Option Nat) :
    ∃ mmapOffset mmapLen, remapFileChunk c offset fileEnd answer =
      ({ c with
          mmapStart := answer.map fun addr => ⟨addr, cString c.filename.data, mmapOffset, mmapLen⟩
          mmapOffset := mmapOffset, mmapLen := mmapLen },
        (c.mmapStart.map fun m => KernelCall.munmap m.addr c.mmapLen).toList ++
          (answer.map fun addr => KernelCall.mmap
            ⟨addr, cString c.filename.data, mmapOffset, mmapLen⟩).toList) := by
  refine ⟨offset - offset % 4096, if u32 (offset - offset % 4096 + 262144) > fileEnd then
    u32Sub fileEnd (offset - offset % 4096) else 262144, ?_⟩
  simp only [remapFileChunk]
  generalize (if u32 (offset - offset % 4096 + 262144) > fileEnd then
    u32Sub fileEnd (offset - offset % 4096) else 262144) = mmapLen
  generalize offset - offset % 4096 = mmapOffset
  cases c.mmapStart <;> cases answer <;> rfl

/-- A window that is moved is unmapped with the length it was mapped with, and
the new one is held in its place. -/
lemma remap_comesTo (c : Chunk) (offset fileEnd : Nat) (answer : Option Nat)
    {calls : List KernelCall} {held : List Resource} (h : ComesTo calls (heldBy c ++ held)) :
    ComesTo (calls ++ (remapFileChunk c offset fileEnd answer).2)
      (heldBy (remapFileChunk c offset fileEnd answer).1 ++ held) := by
  obtain ⟨mmapOffset, mmapLen, hremap⟩ := remap_eq c offset fileEnd answer
  rw [hremap, ← List.append_assoc]
  have hunmapped : ComesTo
      (calls ++ (c.mmapStart.map fun m => KernelCall.munmap m.addr c.mmapLen).toList)
      ((c.fileFd.map Resource.descriptor).toList ++ held) := by
    refine @ComesTo.releases calls _
      (c.mmapStart.map fun m => Resource.mapping m.addr c.mmapLen).toList _ ?_ ?_
    · refine h.perm ?_
      rw [heldBy, List.append_assoc]
      exact List.perm_append_comm_assoc _ _ _
    · cases c.mmapStart <;> rfl
  cases answer with
  | none =>
    rw [heldBy]
    simpa only [Option.map_none, Option.toList_none, List.append_nil] using hunmapped
  | some addr =>
    refine (@ComesTo.acquires _ _ hunmapped _ (.mapping addr mmapLen) rfl).perm ?_
    rw [heldBy]
    simp only [Option.map_some, Option.toList_some, List.append_assoc, List.singleton_append]
    exact List.perm_middle.symm

lemma sendMapped_balanced {file : Bytes → Nat → UInt8} {q : Chunkqueue} {c : Chunk} {m : Mapping}
    {offset sendLen : Nat} {answer : WriteAnswer} {t : WriteTurn} (h : Balanced q)
    (run : sendMapped file q c m offset sendLen answer = .ok t) : Balanced t.queue := by
  rw [sendMapped] at run
  split at run
  · split at run
    · cases run
      exact h
    · cases run
      exact h
    · cases run
      exact h
    · cases run
      simp only
      split
      · exact markWritten_balanced h _
      · exact h
  · cases run

lemma sendFile_balanced {ans : SysAnswers} {turn : Nat} {q : Chunkqueue} {c : Chunk}
    {rest : List Chunk} {t : WriteTurn} (active : q.active = c :: rest) (h : Balanced q)
    (run : connectionSendFileChunk ans turn q c rest = .ok t) : Balanced t.queue := by
  have hstart : ComesTo q.calls (heldBy c ++ heldByAll rest) := by
    rw [← heldByAll_cons, ← active]
    exact h
  simp only [connectionSendFileChunk] at run
  split at run
  · split at run
    · cases run
    · split at run
      · cases run
        exact h
      · rename_i opened more hopen
        have hopened := openFile_comesTo hstart hopen
        have hsend : ∀ {d : Chunk} {calls : List KernelCall},
            ComesTo (q.calls ++ more ++ calls) (heldBy d ++ heldByAll rest) →
            Balanced { q with active := d :: rest, calls := q.calls ++ more ++ calls } := by
          intro d calls hd
          rw [Balanced, heldByAll_cons]
          exact hd
        have hqueue : ∀ {d : Chunk} {calls : List KernelCall},
            (if needsRemap opened (u32 (c.fileOffset + c.chunkOffset)) = true then
              remapFileChunk opened (u32 (c.fileOffset + c.chunkOffset))
                (u32 (c.fileOffset + c.fileLength)) (ans.mmap turn)
            else (opened, [])) = (d, calls) →
            Balanced { q with active := d :: rest, calls := q.calls ++ more ++ calls } := by
          intro d calls heq
          apply hsend
          split at heq
          · have hremapped := remap_comesTo opened (u32 (c.fileOffset + c.chunkOffset))
              (u32 (c.fileOffset + c.fileLength)) (ans.mmap turn) hopened
            rw [heq] at hremapped
            exact hremapped
          · cases heq
            rw [List.append_nil]
            exact hopened
        split at run
        · cases run
          exact hqueue rfl
        · exact sendMapped_balanced (hqueue rfl) run
  · cases run

lemma writeTurn_balanced {ans : SysAnswers} {turn : Nat} {q : Chunkqueue} {t : WriteTurn}
    (h : Balanced q) (run : connectionHandleWriteTurn ans turn q = .ok t) : Balanced t.queue := by
  rw [connectionHandleWriteTurn] at run
  split at run
  · cases run
    exact h
  · rename_i c rest hactive
    split at run
    · exact writev_balanced h run
    · exact sendFile_balanced hactive h run

theorem handleWrite_balanced {ans : SysAnswers} {q : Chunkqueue} {t : WriteTurn}
    (h : Balanced q) (run : connectionHandleWrite ans q = .ok t) : Balanced t.queue := by
  have loop : ∀ (fuel turn : Nat) (q : Chunkqueue) (sent : Bytes), Balanced q →
      handleWriteLoop ans fuel turn q sent = .ok t → Balanced t.queue := by
    intro fuel
    induction fuel with
    | zero =>
      intro turn q sent _ run
      cases run
    | succ fuel ih =>
      intro turn q sent h run
      rw [handleWriteLoop] at run
      split at run
      · cases run
        exact h
      · obtain ⟨first, hfirst, run⟩ := bind_eq_ok.mp run
        have hnext := writeTurn_balanced h hfirst
        split at run
        · cases run
          exact hnext
        · exact ih (turn + 1) first.queue _ hnext run
  exact loop _ 0 q [] h run

structure ConnBalanced (conn : Connection) : Prop where
  readqueue : Balanced conn.readqueue
  writequeue : Balanced conn.writequeue

lemma handleRead_balanced {ans : SysAnswers} {conn after : Connection} {n : Int} {bytes : Bytes}
    (clean : IdleClean conn.readqueue) (h : Balanced conn.readqueue)
    (run : connectionHandleRead ans conn = .ok (n, after, bytes)) : Balanced after.readqueue := by
  have hmemory := getMemory_balanced clean h ans.needReadBytes
  rw [connectionHandleRead] at run
  generalize chunkGetMemory conn.readqueue ans.needReadBytes = memory at run hmemory
  obtain ⟨readqueue, place⟩ := memory
  cases place with
  | none => cases run
  | some place =>
    simp only at run
    split at run
    · cases run
      exact hmemory
    · cases run
      exact hmemory
    · cases run
      exact hmemory
    · split at run
      · cases run
        exact hmemory
      · obtain ⟨committed, hcommit, heq⟩ := bind_eq_ok.mp run
        cases heq
        exact commitMemory_balanced hmemory hcommit

lemma readState_balanced {config : ServerConfig} {curTs : Int} {ans : SysAnswers}
    {conn after : Connection} {bytes : Bytes} (clean : IdleClean conn.readqueue)
    (h : Balanced conn.readqueue)
    (run : connectionHandleReadState config curTs ans conn = .ok (after, bytes)) :
    Balanced after.readqueue := by
  rw [connectionHandleReadState] at run
  split at run
  · cases run
    exact h
  · obtain ⟨⟨n, mid, got⟩, hread, run⟩ := bind_eq_ok.mp run
    have hmid := @handleRead_balanced ans { conn with activeReadTs := curTs } _ _ _ clean h hread
    simp only at run
    split at run
    · cases run
      exact hmid
    · split at run
      · cases run
        exact hmid
      · split at run
        · cases run
          exact hmid
        · obtain ⟨examined, hexamine, heq⟩ := bind_eq_ok.mp run
          cases heq
          cases examineReadqueue_outcome hexamine with
          | complete => exact hmid
          | tooLong => exact hmid
          | waiting => exact hmid

lemma handle_balanced {config : ServerConfig} {ans : SysAnswers} {conn after : Connection}
    {events : List Event} (clean : IdleClean conn.writequeue) (h : ConnBalanced conn)
    (outcome : HandleOutcome config ans conn after events) : ConnBalanced after := by
  cases outcome with
  | answered => exact h
  | refused => exact ⟨h.readqueue, h.writequeue⟩
  | file _ _ _ _ _ hqueue => exact ⟨h.readqueue, appendFile_balanced clean h.writequeue hqueue⟩
  | listing _ _ _ _ hqueue => exact ⟨h.readqueue, appendBuffer_balanced clean h.writequeue hqueue⟩

lemma parse_balanced {conn : Connection} {result : Int × Connection} (h : ConnBalanced conn)
    (outcome : ParseOutcome conn result) : ConnBalanced result.2 := by
  cases outcome with
  | accepted => exact ⟨h.readqueue, h.writequeue⟩
  | rejected => exact ⟨h.readqueue, h.writequeue⟩

lemma connectionReset_balanced {conn : Connection} (h : ConnBalanced conn) :
    ConnBalanced (connectionReset conn) :=
  ⟨reset_balanced h.readqueue, reset_balanced h.writequeue⟩

lemma prepare_balanced {config : ServerConfig} {ans : SysAnswers} {conn mid : Connection}
    {text : String} {writequeue : Chunkqueue} (clean : IdleClean conn.writequeue)
    (h : Balanced conn.writequeue) (body : BodyOutcome conn mid)
    (head : chunkqueuePrependBuffer mid.writequeue
      (responseHead config ans (setContentLength mid) text) = .ok writequeue) :
    Balanced writequeue := by
  cases body with
  | kept => exact prependBuffer_balanced clean h head
  | page _ queue _ _ hqueue =>
    obtain ⟨_, _, hclean, _⟩ := appendBuffer_spec clean hqueue
    exact prependBuffer_balanced hclean (appendBuffer_balanced clean h hqueue) head

lemma body_readqueue {conn mid : Connection} (body : BodyOutcome conn mid) :
    (setContentLength mid).readqueue = conn.readqueue := by
  have hset : (setContentLength mid).readqueue = mid.readqueue := by
    rw [setContentLength]
    split <;> rfl
  rw [hset]
  cases body <;> rfl

theorem turn_balanced {config : ServerConfig} {ans : SysAnswers} {m next : Machine}
    (inv : ConnInv config m.conn) (h : ConnBalanced m.conn) (turn : Turn config ans m next) :
    ConnBalanced next.conn := by
  cases turn with
  | started => exact ⟨h.readqueue, h.writequeue⟩
  | parsed result _ _ houtcome =>
    have hresult := @parse_balanced (clearRequest m.conn) _ ⟨h.readqueue, h.writequeue⟩ houtcome
    exact ⟨hresult.readqueue, hresult.writequeue⟩
  | handled after events _ houtcome =>
    have hafter := @handle_balanced config ans
      { m.conn with connectionResponse := responseInitialize } after events
      inv.writequeue.idle ⟨h.readqueue, h.writequeue⟩ houtcome
    exact ⟨hafter.readqueue, hafter.writequeue⟩
  | prepared mid text writequeue _ hbody _ hqueue =>
    refine ⟨?_, prepare_balanced inv.writequeue.idle h.writequeue hbody hqueue⟩
    change Balanced (setContentLength mid).readqueue
    rw [body_readqueue hbody]
    exact h.readqueue
  | read after bytes _ hread houtcome =>
    refine ⟨readState_balanced inv.idle h.readqueue hread, ?_⟩
    change Balanced after.writequeue
    have hsame : ∀ mid, ReadStep m.curTs ans m.conn mid → Balanced mid.writequeue := by
      intro mid step
      rw [step.writequeue]
      exact h.writequeue
    cases houtcome with
    | skipped => exact h.writequeue
    | nothing _ step => exact hsame _ step
    | failed mid step => exact hsame mid step
    | endOfFile mid step => exact hsame mid step
    | got mid _ step _ _ hexamine =>
      cases hexamine with
      | complete => exact hsame mid step
      | tooLong => exact hsame mid step
      | waiting => exact hsame _ step
  | wrote after bytes _ _ hwrite _ =>
    rw [connectionHandleWriteState] at hwrite
    split at hwrite
    · cases hwrite
      exact h
    · obtain ⟨t, ht, hrest⟩ := bind_eq_ok.mp hwrite
      have hqueue := handleWrite_balanced h.writequeue ht
      simp only at hrest
      split at hrest
      · cases hrest
        exact ⟨h.readqueue, hqueue⟩
      · split at hrest
        · cases hrest
          exact ⟨h.readqueue, hqueue⟩
        · split at hrest
          · cases hrest
            exact ⟨h.readqueue, hqueue⟩
          · cases hrest
            exact ⟨h.readqueue, hqueue⟩
  | finished => exact ⟨h.readqueue, h.writequeue⟩
  | ended =>
    rw [handleResponseEnd]
    split
    · exact @connectionReset_balanced { m.conn with state := _ } ⟨h.readqueue, h.writequeue⟩
    · exact @connectionReset_balanced { m.conn with closeTimeoutTs := _, state := _ }
        ⟨h.readqueue, h.writequeue⟩
  | failed =>
    exact @connectionReset_balanced { m.conn with keepAlive := _, closeTimeoutTs := _, state := _ }
      ⟨h.readqueue, h.writequeue⟩
  | lingers => exact ⟨h.readqueue, h.writequeue⟩
  | closed => exact ⟨h.readqueue, h.writequeue⟩
  | gone => exact h

theorem reached_balanced {config : ServerConfig} {phase : Phase} {m : Machine}
    (h : Reached config phase m) : ConnBalanced m.conn := by
  induction h with
  | accepted haccepted =>
    obtain ⟨index, fd, hconn⟩ := haccepted.conn
    rw [hconn]
    exact ⟨rfl, rfl⟩
  | turn hbefore hturn _ ih =>
    have inv := (reached_inv hbefore).1.conn
    exact turn_balanced (m := Machine.emit _ _) inv ih (turn_cases inv hturn)
  | settled hbefore hturn same open_still hupdate ih =>
    have hinv := (reached_inv hbefore).1
    obtain ⟨rest, hrest, _, _, hconn, _⟩ := settled_rests hinv hturn same open_still
    rw [hupdate] at hrest
    cases hrest
    rw [hconn]
    exact turn_balanced (m := Machine.emit _ _) hinv.conn ih (turn_cases hinv.conn hturn)
  | @event m mask now _ ih =>
    obtain ⟨readable, writeable, heq | heq | ⟨_, heq⟩⟩ := noteEvents_cases mask now m.conn <;>
      rw [heq] <;> exact ⟨ih.readqueue, ih.writequeue⟩
  | clock now _ ih => exact ih
  | expired _ hexpire ih =>
    rcases timerExpire_cases hexpire with rfl | ⟨_, rfl⟩
    · exact ⟨ih.readqueue, ih.writequeue⟩
    · exact ih

/-- `chunkqueue_free`: the calls of the queue, and those that free its chunks,
the active ones and then the idle ones. -/
def chunkqueueFree (q : Chunkqueue) : List KernelCall :=
  q.calls ++ (q.active ++ q.idle).flatMap chunkRelease

/-- `connection_free`, as far as descriptors and mappings go. -/
def connectionFree (conn : Connection) : List KernelCall × List KernelCall :=
  (chunkqueueFree conn.readqueue, chunkqueueFree conn.writequeue)

lemma chunkqueueFree_comesTo {q : Chunkqueue} (clean : IdleClean q) (h : Balanced q) :
    ComesTo (chunkqueueFree q) [] := by
  have hidle : q.idle.flatMap chunkRelease = [] := by
    rw [List.flatMap_eq_nil_iff]
    intro c hc
    rw [chunkRelease, (clean c hc).fileFd, (clean c hc).mmapStart]
    rfl
  have hactive : ∀ (active : List Chunk) (calls : List KernelCall),
      ComesTo calls (heldByAll active) → ComesTo (calls ++ active.flatMap chunkRelease) [] := by
    intro active
    induction active with
    | nil =>
      intro calls hcalls
      rw [List.flatMap_nil, List.append_nil]
      exact hcalls
    | cons c rest ih =>
      intro calls hcalls
      rw [List.flatMap_cons, ← List.append_assoc]
      exact ih _ (ComesTo.release hcalls)
  rw [chunkqueueFree, List.flatMap_append, hidle, List.append_nil]
  exact hactive q.active q.calls h

/-- A queue whose files are accounted for: the files opened and not yet closed
are those that its active chunks have a descriptor of, and the live mappings are
those of their windows, each with the length in the chunk. No descriptor was
closed and no window unmapped that was not there. -/
structure Accounted (q : Chunkqueue) : Prop where
  active : settle 0 (q.calls.map callAction) =
    some ((heldByAll q.active : List Resource) : Multiset Resource)
  idle : ∀ c ∈ q.idle, c.fileFd = none ∧ c.mmapStart = none

/-- Descriptors and mappings are balanced at every step of every run of a
connection, and once it is freed none of them remains. -/
theorem files_balanced {config : ServerConfig} {phase : Phase} {m : Machine}
    (reached : Reached config phase m) :
    Accounted m.conn.readqueue ∧ Accounted m.conn.writequeue ∧
    settle 0 ((connectionFree m.conn).1.map callAction) = some 0 ∧
    settle 0 ((connectionFree m.conn).2.map callAction) = some 0 := by
  have hbalanced := reached_balanced reached
  have inv := (reached_inv reached).1.conn
  have hclean : ∀ {q : Chunkqueue}, IdleClean q → ∀ c ∈ q.idle,
      c.fileFd = none ∧ c.mmapStart = none :=
    fun clean c hc => ⟨(clean c hc).fileFd, (clean c hc).mmapStart⟩
  exact ⟨⟨hbalanced.readqueue, hclean inv.idle⟩, ⟨hbalanced.writequeue, hclean inv.writequeue.idle⟩,
    chunkqueueFree_comesTo inv.idle hbalanced.readqueue,
    chunkqueueFree_comesTo inv.writequeue.idle hbalanced.writequeue⟩

/-- The socket takes the head of a response and not a byte of the file. -/
def headOnlyAnswers : SysAnswers :=
  { SysAnswers.failing with
    write := fun turn => if turn = 0 then .accept 100000 else .fail .eagain
    openFile := fun _ => some 7
    mmap := fun _ => some 4096 }

/-- A file that waits for room in the socket, open and mapped. -/
theorem files_balanced_mapped : ∃ m : Machine, Reached setConfigDefault .resting m ∧
    heldByAll m.conn.writequeue.active = [.descriptor 7, .mapping 4096 3] ∧
    Accounted m.conn.writequeue ∧
    settle 0 ((connectionFree m.conn).2.map callAction) = some 0 := by
  have hrun : (turns setConfigDefault readableMachine
      (requestAnswers sampleRequest (.found ⟨.regular, 3, 0⟩) ++ [SysAnswers.failing])).any
      (fun m => decide (m.conn.state = .write) &&
        (connectionIteration setConfigDefault headOnlyAnswers m).toOption.any (fun next =>
          decide (next.conn.state = .write ∧
            heldByAll next.conn.writequeue.active = [.descriptor 7, .mapping 4096 3]))) = true := by
    decide +kernel
  obtain ⟨m, hturns, hm⟩ := (Option.any_eq_true _ _).mp hrun
  obtain ⟨hwrite, hnext⟩ := Bool.and_eq_true_iff.mp hm
  obtain ⟨next, hturn, hlast⟩ := (Option.any_eq_true _ _).mp hnext
  obtain ⟨hstays, hheld⟩ := of_decide_eq_true hlast
  have hiteration := toOption_eq_some hturn
  have reached := reached_turns _ readableMachine_reached hturns
  have hsame := hstays.trans (of_decide_eq_true hwrite).symm
  have hopen : next.conn.state ≠ .connect := by
    rw [hstays]
    exact ConnectionState.noConfusion
  obtain ⟨rest, hupdate, _, _, hconn, _⟩ :=
    settled_rests (reached_inv reached).1 hiteration hsame hopen
  have hrest := Reached.settled reached hiteration hsame hopen hupdate
  rw [← hconn] at hheld
  exact ⟨rest, hrest, hheld, (files_balanced hrest).2.1, (files_balanced hrest).2.2.2⟩

end FileBalance
