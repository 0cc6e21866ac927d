import Minihttpd.LinkRefinement
import Minihttpd.WriteQueue

/-!
# The shape of a chunk queue

Whatever is done to a queue, its two lists stay lists: they share no chunk, end
where the queue says that they end, and the idle list is as long as it is said
to be. No file chunk stays linked once it has been sent, so the branch of
`connection_send_file_chunk` that pushes a linked chunk is never reached.
-/
namespace QueueShape

open ByteBuffer SystemCalls LinkedCells ChunkQueue ChunkQueueLaws HttpConnection LinkRefinement
open SideBySide FailingRun
open ChunkLinks (LinkedQueue)
open WriteQueue (Rewindowed Within dropWritten_split dropWritten_unsent gatherChunks_spec
  remainingTotal_unsent openFileChunk_spec)

/-- What has been sent of a chunk lies inside it, and a file chunk has bytes left. -/
structure ChunkWithin (c : Chunk) : Prop where
  offset : c.chunkOffset ≤ chunkLength c
  short : chunkLength c < 4294967296
  pending : c.chunkType = .file → c.chunkOffset < c.fileLength

structure QueueWithin (l : Chunkqueue) : Prop where
  chunks : ∀ c ∈ l.active, ChunkWithin c
  idle : IdleClean l
  idleCount : l.idle.length ≤ 4

lemma memChunk_within {c : Chunk} (hmem : c.chunkType = .mem)
    (hoff : c.chunkOffset ≤ bufferStringLength c.mem) : ChunkWithin c := by
  have hlt := bufferStringLength_lt c.mem
  refine ⟨?_, ?_, fun hfile => ?_⟩
  · rw [chunkLength, hmem]
    exact hoff
  · rw [chunkLength, hmem]
    exact Nat.lt_succ_of_lt hlt
  · rw [hmem] at hfile
    cases hfile

lemma ChunkWithin.memOffset {c : Chunk} (h : ChunkWithin c) (hmem : c.chunkType = .mem) :
    c.chunkOffset ≤ bufferStringLength c.mem := by
  have hoff := h.offset
  rw [chunkLength, hmem] at hoff
  exact hoff

lemma ChunkWithin.within {c : Chunk} (h : ChunkWithin c) : Within c := ⟨h.offset, h.short⟩

lemma QueueWithin.pending {l : Chunkqueue} (h : QueueWithin l) {c : Chunk} (hc : c ∈ l.active)
    (hfile : c.chunkType = .file) : u32Sub c.fileLength c.chunkOffset ≠ 0 := by
  have hwithin := h.chunks c hc
  have hlength : chunkLength c = c.fileLength := by rw [chunkLength, hfile]
  have hpending := hwithin.pending hfile
  have hshort := hwithin.short
  rw [hlength] at hshort
  rw [u32Sub_of_le (Nat.le_of_lt hpending) hshort]
  omega

lemma init_within : QueueWithin chunkqueueInit :=
  ⟨fun _ hc => (List.not_mem_nil hc).elim, chunkqueueInit_idleClean, Nat.zero_le _⟩

lemma getUnused_idleCount {l : Chunkqueue} (h : l.idle.length ≤ 4) :
    (chunkqueueGetUnusedChunk l).2.idle.length ≤ 4 := by
  cases hi : l.idle with
  | nil =>
    simp only [chunkqueueGetUnusedChunk, hi]
    decide
  | cons c rest =>
    simp only [chunkqueueGetUnusedChunk, hi]
    rw [hi, List.length_cons] at h
    exact Nat.le_of_succ_le h

lemma pushUnused_idleCount {l : Chunkqueue} (h : l.idle.length ≤ 4) (c : Chunk) :
    (chunkqueuePushUnusedChunk l c).idle.length ≤ 4 := by
  by_cases hfull : l.idle.length ≥ 4
  · simp only [chunkqueuePushUnusedChunk, if_pos hfull]
    exact h
  · simp only [chunkqueuePushUnusedChunk, if_neg hfull, List.length_cons]
    omega

lemma markWrittenLoop_idleCount (active : List Chunk) {l : Chunkqueue} (h : l.idle.length ≤ 4)
    (len : Nat) : (markWrittenLoop l active len).2.idle.length ≤ 4 := by
  induction active generalizing l len with
  | nil => exact h
  | cons c rest ih =>
    simp only [markWrittenLoop]
    by_cases h0 : len = 0 ∧ chunkRemainingLen c > 0
    · simp only [if_pos h0]
      exact h
    · by_cases h1 : len ≥ chunkRemainingLen c
      · simp only [if_neg h0, if_pos h1]
        exact ih (pushUnused_idleCount h _) _
      · simp only [if_neg h0, if_neg h1]
        exact h

lemma removeFinishedLoop_idleCount (active : List Chunk) {l : Chunkqueue}
    (h : l.idle.length ≤ 4) : (removeFinishedLoop l active).idle.length ≤ 4 := by
  induction active generalizing l with
  | nil => exact h
  | cons c rest ih =>
    rw [removeFinishedLoop]
    split
    · exact h
    · exact ih (pushUnused_idleCount h c)

lemma reset_idleCount {l : Chunkqueue} (h : l.idle.length ≤ 4) :
    (chunkqueueReset l).idle.length ≤ 4 := by
  have pushes : ∀ (chunks : List Chunk) (p : Chunkqueue), p.idle.length ≤ 4 →
      (chunks.foldl chunkqueuePushUnusedChunk p).idle.length ≤ 4 := by
    intro chunks
    induction chunks with
    | nil => exact fun p hp => hp
    | cons c rest ih => exact fun p hp => ih _ (pushUnused_idleCount hp c)
  exact pushes l.active l h

/-- What is sent of a chunk that is not finished leaves it unfinished. -/
lemma ChunkWithin.advance {c : Chunk} (h : ChunkWithin c) {n : Nat}
    (hn : n < chunkRemainingLen c) : ChunkWithin { c with chunkOffset := c.chunkOffset + n } := by
  have hpart := (h.within.advance_eq hn).1
  refine ⟨Nat.le_of_lt hpart, h.short, fun hfile => ?_⟩
  have hkind : c.chunkType = .file := hfile
  rw [chunkLength, hkind] at hpart
  exact hpart

theorem dropWritten_within (active : List Chunk) (len : Nat)
    (h : ∀ c ∈ active, ChunkWithin c) : ∀ c ∈ (dropWritten active len).2, ChunkWithin c := by
  rcases dropWritten_split active len (fun c hc => (h c hc).within) with
    ⟨_, hdrop⟩ | ⟨done, c, rest, n, rfl, _, hn, hdrop⟩
  · rw [hdrop]
    exact fun c hc => absurd hc List.not_mem_nil
  · rw [hdrop]
    intro d hd
    rcases List.mem_cons.mp hd with rfl | hd
    · exact (h c (by simp)).advance hn
    · exact h d (List.mem_append_right _ (List.mem_cons_of_mem c hd))

lemma markWritten_left {l : Chunkqueue} (h : ∀ c ∈ l.active, Within c) (len : Nat) :
    (chunkqueueMarkWritten l len).1 = len - remainingTotal l.active :=
  (markWrittenLoop_active l.active l len).1.trans
    (dropWritten_unsent (fun _ _ => 0) l.active len h).1

theorem markWritten_within {l : Chunkqueue} (ok : QueueWithin l) (len : Nat) :
    QueueWithin (chunkqueueMarkWritten l len).2 := by
  obtain ⟨_, hactive, hidle⟩ := markWritten_spec len ok.idle
  refine ⟨?_, hidle, markWrittenLoop_idleCount l.active ok.idleCount len⟩
  rw [hactive]
  exact dropWritten_within l.active len ok.chunks

lemma dropFinished_suffix (active : List Chunk) : dropFinished active <:+ active := by
  induction active with
  | nil => exact List.suffix_refl _
  | cons c rest ih =>
    rw [dropFinished]
    split
    · exact List.suffix_refl _
    · exact ih.trans (List.suffix_cons _ _)

theorem removeFinished_within {l : Chunkqueue} (ok : QueueWithin l) :
    QueueWithin (chunkqueueRemoveFinishedChunk l) := by
  obtain ⟨hactive, hidle⟩ := removeFinished_spec ok.idle
  refine ⟨fun c hc => ?_, hidle, removeFinishedLoop_idleCount l.active ok.idleCount⟩
  rw [hactive] at hc
  exact ok.chunks c ((dropFinished_suffix l.active).subset hc)

theorem reset_within {l : Chunkqueue} (ok : QueueWithin l) : QueueWithin (chunkqueueReset l) :=
  ⟨fun _ hc => (List.not_mem_nil hc).elim, reset_idleClean ok.idle, reset_idleCount ok.idleCount⟩

theorem appendBuffer_within {l p : Chunkqueue} {mem : Buffer} (ok : QueueWithin l)
    (h : chunkqueueAppendBuffer l mem = .ok p) : QueueWithin p := by
  obtain ⟨c, hactive, hidle, hmem, hoff, _⟩ := appendBuffer_spec ok.idle h
  refine ⟨fun d hd => ?_, hidle, ?_⟩
  · rw [hactive] at hd
    rcases List.mem_append.mp hd with hd | hd
    · exact ok.chunks d hd
    · rw [List.mem_singleton.mp hd]
      exact memChunk_within hmem (hoff ▸ Nat.zero_le _)
  · obtain ⟨b, _, hp⟩ := bind_eq_ok.mp h
    cases hp
    exact getUnused_idleCount ok.idleCount

theorem prependBuffer_within {l p : Chunkqueue} {mem : Buffer} (ok : QueueWithin l)
    (h : chunkqueuePrependBuffer l mem = .ok p) : QueueWithin p := by
  obtain ⟨c, hactive, hidle, hmem, hoff, _⟩ := prependBuffer_spec ok.idle h
  refine ⟨fun d hd => ?_, hidle, ?_⟩
  · rw [hactive] at hd
    rcases List.mem_cons.mp hd with rfl | hd
    · exact memChunk_within hmem (hoff ▸ Nat.zero_le _)
    · exact ok.chunks d hd
  · obtain ⟨b, _, hp⟩ := bind_eq_ok.mp h
    cases hp
    exact getUnused_idleCount ok.idleCount

theorem appendFile_within {l p : Chunkqueue} {filename : Buffer} {offset len : Nat}
    (ok : QueueWithin l) (short : len < 4294967296)
    (h : chunkqueueAppendFile l filename offset len = .ok p) : QueueWithin p := by
  rcases appendFile_spec ok.idle h with ⟨_, _, rfl⟩ | ⟨hidle, hsome, c, hactive, hfile, hoff, _, hlen, _⟩
  · exact ok
  · refine ⟨fun d hd => ?_, hidle, ?_⟩
    · rw [hactive] at hd
      rcases List.mem_append.mp hd with hd | hd
      · exact ok.chunks d hd
      · rw [List.mem_singleton.mp hd]
        have hlength : chunkLength c = len := by rw [chunkLength, hfile, hlen]
        refine ⟨hoff ▸ Nat.zero_le _, hlength ▸ short, fun _ => ?_⟩
        rw [hoff, hlen]
        exact Nat.pos_of_ne_zero (fun hzero => hsome (Or.inr hzero))
    · by_cases hnull : filename.isNull = true
      · simp only [chunkqueueAppendFile, if_pos hnull] at h
        cases h
      · simp only [chunkqueueAppendFile, if_neg hnull, if_neg hsome] at h
        obtain ⟨b, _, hp⟩ := bind_eq_ok.mp h
        cases hp
        exact getUnused_idleCount ok.idleCount

lemma within_concat {l : Chunkqueue} (ok : QueueWithin l) {active : List Chunk} {c : Chunk}
    (sub : active ⊆ l.active) (hc : ChunkWithin c) :
    QueueWithin { l with active := active ++ [c] } := by
  refine ⟨fun d hd => ?_, ok.idle, ok.idleCount⟩
  rcases List.mem_append.mp hd with hd | hd
  · exact ok.chunks d (sub hd)
  · rw [List.mem_singleton.mp hd]
    exact hc

/-- The chunk that a pointer of `chunk_get_memory` points into. -/
def PointsAt (l : Chunkqueue) (position : Nat) : Prop :=
  ∃ c, l.active.getLast? = some c ∧ c.chunkType = .mem ∧ bufferStringLength c.mem = position

lemma getNewMemory_within {l : Chunkqueue} (ok : QueueWithin l) (need : Nat) :
    QueueWithin (chunkGetNewMemory l need).1 ∧
      ∃ position, (chunkGetNewMemory l need).2 = some position ∧
        PointsAt (chunkGetNewMemory l need).1 position := by
  obtain ⟨hc, hactive, hidle⟩ := getUnused_spec ok.idle
  simp only [chunkGetNewMemory, chunkqueueAppendChunk, hactive]
  refine ⟨⟨fun d hd => ?_, hidle, getUnused_idleCount ok.idleCount⟩, _, rfl, _,
    List.getLast?_concat, rfl, rfl⟩
  rcases List.mem_append.mp hd with hd | hd
  · exact ok.chunks d hd
  · rw [List.mem_singleton.mp hd]
    refine memChunk_within rfl ?_
    change (chunkqueueGetUnusedChunk l).1.chunkOffset ≤ _
    rw [hc.chunkOffset]
    exact Nat.zero_le _

/-- The memory given out keeps the string of the chunk that it is taken from. -/
lemma emptyAlloc_stringLength {b : Buffer} (h : bufferIsEmpty b = true) (need : Nat) :
    bufferStringLength (bufferAllocSize b need) = bufferStringLength b := by
  have hused : b.usedBytes = 0 := eq_of_beq h
  have hempty : bufferStringLength b = 0 := by rw [bufferStringLength_eq, hused]
  by_cases hroom : b.size ≥ (if need = 0 then 1 else need)
  · simp only [bufferAllocSize, if_pos hroom]
  · simp only [bufferAllocSize, if_neg hroom]
    rw [hempty]
    rfl

theorem getMemory_within {l : Chunkqueue} (ok : QueueWithin l) (need : Nat) :
    QueueWithin (chunkGetMemory l need).1 ∧
      ∀ position, (chunkGetMemory l need).2 = some position →
        PointsAt (chunkGetMemory l need).1 position := by
  have fresh : ∀ {p : Chunkqueue}, QueueWithin p → QueueWithin (chunkGetNewMemory p need).1 ∧
      ∀ position, (chunkGetNewMemory p need).2 = some position →
        PointsAt (chunkGetNewMemory p need).1 position := by
    intro p hp
    obtain ⟨hwithin, position, hposition, hpoints⟩ := getNewMemory_within hp need
    refine ⟨hwithin, fun position' h => ?_⟩
    rw [hposition] at h
    cases h
    exact hpoints
  by_cases hneed : need = 0
  · simp only [chunkGetMemory, if_pos hneed]
    refine ⟨ok, fun position h => ?_⟩
    cases h
  · cases hc : l.active.getLast? with
    | none =>
      simp only [chunkGetMemory, if_neg hneed, hc]
      exact fresh ok
    | some c =>
      by_cases hmem : c.chunkType = .mem
      · simp only [chunkGetMemory, if_neg hneed, hc, if_pos hmem]
        have hlength : bufferStringLength (if bufferIsEmpty c.mem = true
            then bufferAllocSize c.mem need else c.mem) = bufferStringLength c.mem := by
          split
          · exact emptyAlloc_stringLength ‹_› need
          · rfl
        generalize (if bufferIsEmpty c.mem = true then bufferAllocSize c.mem need else c.mem) = b
          at hlength
        have hoff := (ok.chunks c (List.mem_of_getLast? hc)).memOffset hmem
        have hwithin := within_concat ok (List.dropLast_subset _)
          (memChunk_within (c := { c with mem := b }) hmem (hlength ▸ hoff))
        by_cases hroom : bufferRemainingBytes b ≥ need
        · simp only [if_pos hroom]
          refine ⟨hwithin, fun position h => ?_⟩
          cases h
          exact ⟨_, List.getLast?_concat, hmem, rfl⟩
        · simp only [if_neg hroom]
          exact fresh hwithin
      · simp only [chunkGetMemory, if_neg hneed, hc, if_neg hmem]
        exact fresh ok

/-- Committed bytes that fit 32 bits make the string of the last chunk longer. -/
theorem commitMemory_within {l : Chunkqueue} (ok : QueueWithin l) {bytes : Bytes} {position : Nat}
    (points : PointsAt l position) (fits : position + bytes.length < 4294967295) :
    ∃ p, chunkCommitMemory l bytes = .ok p ∧ QueueWithin p := by
  obtain ⟨c, hc, hmem, hposition⟩ := points
  by_cases hbytes : bytes.length = 0
  · exact ⟨l, if_pos hbytes, ok⟩
  · simp only [chunkCommitMemory, if_neg hbytes, hc, if_pos hmem]
    refine ⟨_, rfl, within_concat ok (List.dropLast_subset _) (memChunk_within hmem ?_)⟩
    refine Nat.le_trans ((ok.chunks c (List.mem_of_getLast? hc)).memOffset hmem) ?_
    change bufferStringLength c.mem ≤ bufferStringLength ⟨_, c.mem.size⟩
    by_cases hempty : bufferStringLength c.mem = 0
    · rw [hempty]
      exact Nat.zero_le _
    · have hused : c.mem.usedBytes ≤ c.mem.data.length := Nat.mod_le _ _
      have hlength : (c.mem.data.take (c.mem.usedBytes - 1) ++ bytes ++ [0]).length =
          bufferStringLength c.mem + bytes.length + 1 := by
        rw [bufferStringLength_eq, List.append_assoc, List.length_append, List.length_append,
          List.length_take, List.length_singleton, Nat.min_eq_left (by omega)]
        omega
      have hnew : bufferStringLength
          ⟨c.mem.data.take (c.mem.usedBytes - 1) ++ bytes ++ [0], c.mem.size⟩ =
          bufferStringLength c.mem + bytes.length := by
        rw [bufferStringLength_eq ⟨_, c.mem.size⟩, Buffer.usedBytes, hlength, u32_of_lt (by omega)]
        omega
      rw [if_neg hempty, hnew]
      exact Nat.le_add_right _ _

/-- The gathered pieces are part of the unsent bytes. -/
lemma gatherChunks_within (active : List Chunk) (room : Nat) (h : ∀ c ∈ active, Within c) :
    ∃ pieces, gatherChunks active room = .ok pieces ∧
      pieces.flatten.length ≤ remainingTotal active := by
  obtain ⟨pieces, later, hpieces, hunsent, _⟩ := gatherChunks_spec (fun _ _ => 0) active room h
  refine ⟨pieces, hpieces, ?_⟩
  rw [remainingTotal_unsent (fun _ _ => 0) h, hunsent, List.length_append]
  exact Nat.le_add_right _ _

/-- All that `writev` takes is then marked as written. -/
theorem writevMemChunk_takes {l : Chunkqueue} (h : ∀ c ∈ l.active, Within c)
    (answer : WriteAnswer) :
    ∃ t, connectionWritevMemChunk l answer = .ok t ∧
      (t.queue = l ∨ t.queue = chunkqueueRemoveFinishedChunk l ∨
        ∃ n, t.queue = (chunkqueueMarkWritten l n).2) := by
  obtain ⟨pieces, hpieces, hlen⟩ := gatherChunks_within l.active 16 h
  simp only [connectionWritevMemChunk, hpieces, ok_bind]
  by_cases hnil : pieces = []
  · simp only [if_pos hnil]
    exact ⟨_, rfl, Or.inr (Or.inl rfl)⟩
  · simp only [if_neg hnil]
    cases answer with
    | fail errno => exact ⟨_, rfl, Or.inl rfl⟩
    | accept bytes =>
      have hleft := markWritten_left h (min bytes (min pieces.flatten.length maxTransfer))
      by_cases hpos : min bytes (min pieces.flatten.length maxTransfer) > 0
      · have hall : ¬ (chunkqueueMarkWritten l
            (min bytes (min pieces.flatten.length maxTransfer))).1 ≠ 0 := by omega
        simp only [if_pos hpos, if_neg hall]
        exact ⟨⟨_, _, _⟩, rfl, Or.inr (Or.inr ⟨_, rfl⟩)⟩
      · simp only [if_neg hpos]
        exact ⟨⟨_, _, _⟩, rfl, Or.inl rfl⟩

theorem writevMemChunk_within {l : Chunkqueue} (ok : QueueWithin l) (answer : WriteAnswer) :
    ∃ t, connectionWritevMemChunk l answer = .ok t ∧ QueueWithin t.queue := by
  obtain ⟨t, ht, hqueue⟩ := writevMemChunk_takes (fun c hc => (ok.chunks c hc).within) answer
  refine ⟨t, ht, ?_⟩
  rcases hqueue with h | h | ⟨n, h⟩
  · rw [h]
    exact ok
  · rw [h]
    exact removeFinished_within ok
  · rw [h]
    exact markWritten_within ok n

lemma sendMapped_within {l : Chunkqueue} (ok : QueueWithin l) (file : Bytes → Nat → UInt8)
    {c : Chunk} (m : Mapping) {offset : Nat} (sendLen : Nat) (answer : WriteAnswer)
    (window : c.mmapOffset ≤ offset) :
    ∃ t, sendMapped file l c m offset sendLen answer = .ok t ∧ QueueWithin t.queue := by
  simp only [sendMapped, if_pos window]
  cases answer with
  | fail errno => cases errno <;> exact ⟨_, rfl, ok⟩
  | accept bytes =>
    refine ⟨_, rfl, ?_⟩
    change QueueWithin (if _ then _ else _)
    split
    · exact markWritten_within ok _
    · exact ok

lemma rewindowed_within {c d : Chunk} (h : Rewindowed c d) (hc : ChunkWithin c) :
    ChunkWithin d := by
  rw [h.eq]
  exact ⟨hc.offset, hc.short, hc.pending⟩

/-- A window that is kept reaches back to the offset, and so does a new one. -/
lemma window_reaches (c : Chunk) (offset fileEnd : Nat) (answer : Option Nat) :
    Rewindowed c (if needsRemap c offset = true then remapFileChunk c offset fileEnd answer
      else (c, [])).1 ∧
    (if needsRemap c offset = true then remapFileChunk c offset fileEnd answer
      else (c, [])).1.mmapOffset ≤ offset := by
  by_cases hremap : needsRemap c offset = true
  · rw [if_pos hremap]
    obtain ⟨len, hlen⟩ : ∃ len, (if u32 (offset - offset % 4096 + 262144) > fileEnd
        then u32Sub fileEnd (offset - offset % 4096) else 262144) = len := ⟨_, rfl⟩
    cases answer with
    | none =>
      simp only [remapFileChunk, hlen]
      exact ⟨⟨rfl⟩, Nat.sub_le _ _⟩
    | some addr =>
      simp only [remapFileChunk, hlen]
      exact ⟨⟨rfl⟩, Nat.sub_le _ _⟩
  · rw [if_neg hremap]
    refine ⟨⟨rfl⟩, ?_⟩
    change c.mmapOffset ≤ offset
    simp only [needsRemap, Bool.or_eq_true, decide_eq_true_eq, not_or, Nat.not_lt] at hremap
    exact hremap.1.2

theorem sendFileChunk_within {l : Chunkqueue} {c : Chunk} {rest : List Chunk}
    (ok : QueueWithin l) (hc : l.active = c :: rest) (hfile : c.chunkType = .file)
    (ans : SysAnswers) (turn : Nat) :
    ∃ t, connectionSendFileChunk ans turn l c rest = .ok t ∧ QueueWithin t.queue := by
  have hmem : c ∈ l.active := hc ▸ List.mem_cons_self
  have hwithin := ok.chunks c hmem
  have hoff : c.chunkOffset ≤ c.fileLength := Nat.le_of_lt (hwithin.pending hfile)
  simp only [connectionSendFileChunk, if_pos hoff, if_neg (ok.pending hmem hfile)]
  cases hopen : openFileChunk c (ans.openFile turn) with
  | none => exact ⟨_, rfl, ok⟩
  | some opened =>
    obtain ⟨d, calls⟩ := opened
    obtain ⟨fd, rfl⟩ := openFileChunk_spec hopen
    obtain ⟨hsame, hreach⟩ := window_reaches { c with fileFd := fd }
      (u32 (c.fileOffset + c.chunkOffset)) (u32 (c.fileOffset + c.fileLength)) (ans.mmap turn)
    simp only
    generalize (if needsRemap { c with fileFd := fd } (u32 (c.fileOffset + c.chunkOffset)) = true then
      remapFileChunk { c with fileFd := fd } (u32 (c.fileOffset + c.chunkOffset))
        (u32 (c.fileOffset + c.fileLength)) (ans.mmap turn)
      else ({ c with fileFd := fd }, [])) = window at hsame hreach ⊢
    have hqueue : QueueWithin
        { l with active := window.1 :: rest, calls := l.calls ++ calls ++ window.2 } := by
      refine ⟨fun e he => ?_, ok.idle, ok.idleCount⟩
      rcases List.mem_cons.mp he with rfl | he
      · exact rewindowed_within hsame ⟨hwithin.offset, hwithin.short, hwithin.pending⟩
      · exact ok.chunks e (hc ▸ List.mem_cons_of_mem _ he)
    cases hmap : window.1.mmapStart with
    | none => exact ⟨_, rfl, hqueue⟩
    | some m => exact sendMapped_within hqueue ans.file m _ _ hreach

theorem writeTurn_within {l : Chunkqueue} (ok : QueueWithin l) (ans : SysAnswers) (turn : Nat) :
    ∃ t, connectionHandleWriteTurn ans turn l = .ok t ∧ QueueWithin t.queue := by
  cases hc : l.active with
  | nil =>
    simp only [connectionHandleWriteTurn, hc]
    exact ⟨_, rfl, ok⟩
  | cons c rest =>
    simp only [connectionHandleWriteTurn, hc]
    cases ht : c.chunkType with
    | mem => exact writevMemChunk_within ok (ans.write turn)
    | file => exact sendFileChunk_within ok hc ht ans turn

/-- One operation on a queue. A write turn is one turn of the loop of
`connection_handle_write`, so that runs also stop between the turns of a call. -/
inductive QueueOp where
  | appendBuffer (mem : Buffer)
  | prependBuffer (mem : Buffer)
  | appendFile (filename : Buffer) (offset len : UInt32)
  | getMemory (need : UInt32) (bytes : Bytes)
  | markWritten (len : UInt32)
  | removeFinishedChunk
  | reset
  | writeTurn (ans : SysAnswers) (turn : Nat)
  | handleWrite (ans : SysAnswers) (fuel : Nat)

/-- `chunk_get_memory`, and `chunk_commit_memory` of the bytes that the caller has put there. -/
def getAndCommit (q : LinkedQueue) (need : Nat) (bytes : Bytes) : Except Fault LinkedQueue := do
  let (q, pointer) ← ChunkLinks.chunkGetMemory q need
  match pointer with
  | none => if bytes = [] then return q else .error .nullPointer
  | some _ => ChunkLinks.chunkCommitMemory q bytes

def queueOp (q : LinkedQueue) : QueueOp → Except Fault LinkedQueue
  | .appendBuffer mem => ChunkLinks.chunkqueueAppendBuffer q mem
  | .prependBuffer mem => ChunkLinks.chunkqueuePrependBuffer q mem
  | .appendFile filename offset len =>
    ChunkLinks.chunkqueueAppendFile q filename offset.toNat len.toNat
  | .getMemory need bytes => getAndCommit q need.toNat bytes
  | .markWritten len => (ChunkLinks.chunkqueueMarkWritten q len.toNat).map (·.2)
  | .removeFinishedChunk => ChunkLinks.chunkqueueRemoveFinishedChunk q
  | .reset => ChunkLinks.chunkqueueReset q
  | .writeTurn ans turn => (ChunkLinks.connectionHandleWriteTurn ans turn q).map (·.queue)
  | .handleWrite ans fuel => (ChunkLinks.connectionHandleWrite ans fuel q).map (·.queue)

/-- The arguments that a caller may pass: buffers that are allocated, and as
many bytes as fit a 32-bit length behind the pointer they are put at. -/
def Accepted (q : LinkedQueue) : QueueOp → Prop
  | .appendBuffer mem => mem.isNull = false
  | .prependBuffer mem => mem.isNull = false
  | .appendFile filename _ _ => filename.isNull = false
  | .getMemory need bytes => ∀ p pointer, ChunkLinks.chunkGetMemory q need.toNat = .ok (p, pointer) →
      pointer.elim (bytes = []) (fun position => position + bytes.length < 4294967295)
  | _ => True

/-- The queue stands for two lists whose chunks are as they should be. -/
def WellShaped (q : LinkedQueue) : Prop := ∃ l, Represents q l ∧ QueueWithin l

lemma wellShaped_of_agree {x : Except Fault LinkedQueue} {y : Except Fault Chunkqueue}
    (agree : Agree Represents x y) (within : ∀ l, y = .ok l → QueueWithin l) {q : LinkedQueue}
    (h : x = .ok q) : WellShaped q := by
  rw [h] at agree
  obtain ⟨l, hl, hrep⟩ := agree_of_ok agree
  exact ⟨l, hrep, within l hl⟩

lemma pending_of_within {l : Chunkqueue} (ok : QueueWithin l) : Pending l :=
  fun _ _ hc hfile => ok.pending (hc ▸ List.mem_cons_self) hfile

lemma writeTurn_shape {q : LinkedQueue} (h : WellShaped q) (ans : SysAnswers) (turn : Nat) :
    ∃ t, ChunkLinks.connectionHandleWriteTurn ans turn q = .ok t ∧ WellShaped t.queue := by
  obtain ⟨l, hrep, ok⟩ := h
  obtain ⟨u, hu, hwithin⟩ := writeTurn_within ok ans turn
  have hagree := writeTurn_refines hrep (pending_of_within ok) ans turn
  rw [hu] at hagree
  obtain ⟨t, ht, hsame⟩ := agree_ok hagree
  exact ⟨t, ht, u.queue, hsame.queue, hwithin⟩

/-- The loop of `connection_handle_write`, by its turns. -/
lemma handleWriteLoop_shape {q : LinkedQueue} (h : WellShaped q) (ans : SysAnswers)
    (fuel turn : Nat) (sent : Bytes) :
    (∃ t, ChunkLinks.handleWriteLoop ans fuel turn q sent = .ok t ∧ WellShaped t.queue) ∨
      ChunkLinks.handleWriteLoop ans fuel turn q sent = .error .outOfFuel := by
  induction fuel generalizing q turn sent with
  | zero => exact Or.inr rfl
  | succ fuel ih =>
    by_cases hfirst : q.first = none
    · exact Or.inl ⟨⟨0, q, sent⟩, by rw [ChunkLinks.handleWriteLoop, if_pos hfirst], h⟩
    · obtain ⟨t, ht, hshape⟩ := writeTurn_shape h ans turn
      simp only [ChunkLinks.handleWriteLoop, if_neg hfirst, ht, ok_bind]
      by_cases hcode : t.code ≠ 0
      · rw [if_pos hcode]
        exact Or.inl ⟨_, rfl, hshape⟩
      · rw [if_neg hcode]
        exact ih hshape (turn + 1) (sent ++ t.sent)

lemma getAndCommit_shape {q : LinkedQueue} (h : WellShaped q) (need : Nat) (bytes : Bytes) :
    ∃ p pointer, ChunkLinks.chunkGetMemory q need = .ok (p, pointer) ∧
      (∀ q', getAndCommit q need bytes = .ok q' → WellShaped q') ∧
      (pointer.elim (bytes = []) (fun position => position + bytes.length < 4294967295) →
        ∃ q', getAndCommit q need bytes = .ok q') := by
  obtain ⟨l, hrep, ok⟩ := h
  obtain ⟨p, hget, hp⟩ := getMemory_refines hrep need
  obtain ⟨hwithin, hpoints⟩ := getMemory_within ok need
  refine ⟨p, (chunkGetMemory l need).2, hget, ?_⟩
  simp only [getAndCommit, hget, ok_bind]
  cases hpointer : (chunkGetMemory l need).2 with
  | none =>
    by_cases hbytes : bytes = []
    · simp only [if_pos hbytes]
      exact ⟨fun q' hq' => by cases hq'; exact ⟨_, hp, hwithin⟩, fun _ => ⟨p, rfl⟩⟩
    · simp only [if_neg hbytes]
      refine ⟨fun q' hq' => ?_, fun hnil => absurd hnil hbytes⟩
      cases hq'
  | some position =>
    have points := hpoints position hpointer
    by_cases fits : position + bytes.length < 4294967295
    · obtain ⟨r, hr, hrwithin⟩ := commitMemory_within hwithin points fits
      have hagree := commitMemory_refines hp bytes (fun c hc => by
        obtain ⟨d, hd, _, hposition⟩ := points
        rw [hc] at hd
        cases hd
        rw [hposition]
        exact fits)
      rw [hr] at hagree
      obtain ⟨r', hr', hrep'⟩ := agree_ok hagree
      refine ⟨fun q' hq' => ?_, fun _ => ⟨r', hr'⟩⟩
      rw [hr'] at hq'
      cases hq'
      exact ⟨r, hrep', hrwithin⟩
    · refine ⟨fun q' hq' => ?_, fun hfits => absurd hfits fits⟩
      obtain ⟨c, hc, hmem, hposition⟩ := points
      obtain ⟨a, hlast, hcell, _⟩ := represents_last hp hc
      by_cases hbytes : bytes.length = 0
      · have hlt := bufferStringLength_lt c.mem
        rw [hposition] at hlt
        exact absurd hlt (by omega)
      · simp only [ChunkLinks.chunkCommitMemory, if_neg hbytes, hlast, load_eq hcell, ok_bind,
          if_pos hmem, hposition, if_pos (Nat.le_of_not_lt fits)] at hq'
        cases hq'

lemma bufferCopyBuffer_allocated {des src : Buffer} (h : src.isNull = false) :
    bufferCopyBuffer des src = .ok (bufferCopyStringLength des (bufferString src)) := by
  rw [bufferCopyBuffer, h]
  rfl

/-- What an operation makes of a well-shaped queue, and that it ends. -/
theorem queueOp_shape {q : LinkedQueue} (h : WellShaped q) (op : QueueOp) :
    (∀ q', queueOp q op = .ok q' → WellShaped q') ∧
    (Accepted q op → (∃ q', queueOp q op = .ok q') ∨
      ∃ ans fuel, op = .handleWrite ans fuel ∧ queueOp q op = .error .outOfFuel) := by
  have returns : ∀ {x : Except Fault LinkedQueue}, (∃ q', x = .ok q' ∧ WellShaped q') →
      (∀ q', x = .ok q' → WellShaped q') ∧ ∃ q', x = .ok q' := by
    rintro x ⟨q', rfl, hq'⟩
    refine ⟨fun p hp => ?_, q', rfl⟩
    cases hp
    exact hq'
  cases op with
  | appendBuffer mem =>
    obtain ⟨l, hrep, ok⟩ := h
    have hagree := appendBuffer_refines hrep mem
    refine ⟨fun q' hq' => wellShaped_of_agree hagree (fun p hp => appendBuffer_within ok hp) hq',
      fun hmem => Or.inl ?_⟩
    simp only [chunkqueueAppendBuffer, bufferCopyBuffer_allocated hmem] at hagree
    obtain ⟨q', hq', _⟩ := agree_ok hagree
    exact ⟨q', hq'⟩
  | prependBuffer mem =>
    obtain ⟨l, hrep, ok⟩ := h
    have hagree := prependBuffer_refines hrep mem
    refine ⟨fun q' hq' => wellShaped_of_agree hagree (fun p hp => prependBuffer_within ok hp) hq',
      fun hmem => Or.inl ?_⟩
    simp only [chunkqueuePrependBuffer, bufferCopyBuffer_allocated hmem] at hagree
    obtain ⟨q', hq', _⟩ := agree_ok hagree
    exact ⟨q', hq'⟩
  | appendFile filename offset len =>
    obtain ⟨l, hrep, ok⟩ := h
    have hagree := appendFile_refines hrep filename offset.toNat len.toNat
    have hshort : len.toNat < 4294967296 := len.toNat_lt
    refine ⟨fun q' hq' => wellShaped_of_agree hagree
      (fun p hp => appendFile_within ok hshort hp) hq', fun hname => Or.inl ?_⟩
    have hnull : ¬ filename.isNull = true := Bool.eq_false_iff.mp hname
    by_cases hskip : (cString filename.data).length = 0 ∨ len.toNat = 0
    · simp only [chunkqueueAppendFile, if_neg hnull, if_pos hskip] at hagree
      obtain ⟨q', hq', _⟩ := agree_ok hagree
      exact ⟨q', hq'⟩
    · simp only [chunkqueueAppendFile, if_neg hnull, if_neg hskip,
        bufferCopyBuffer_allocated hname] at hagree
      obtain ⟨q', hq', _⟩ := agree_ok hagree
      exact ⟨q', hq'⟩
  | getMemory need bytes =>
    obtain ⟨p, pointer, hget, hshape, htotal⟩ := getAndCommit_shape h need.toNat bytes
    exact ⟨hshape, fun hbytes => Or.inl (htotal (hbytes p pointer hget))⟩
  | markWritten len =>
    obtain ⟨l, hrep, ok⟩ := h
    obtain ⟨p, hmark, hp⟩ := markWritten_refines hrep len.toNat
    obtain ⟨hkeeps, htotal⟩ := returns (x := queueOp q (.markWritten len))
      ⟨p, by rw [queueOp, hmark]; rfl, _, hp, markWritten_within ok len.toNat⟩
    exact ⟨hkeeps, fun _ => Or.inl htotal⟩
  | removeFinishedChunk =>
    obtain ⟨l, hrep, ok⟩ := h
    obtain ⟨p, hremove, hp⟩ := removeFinished_refines hrep
    obtain ⟨hkeeps, htotal⟩ := returns (x := queueOp q .removeFinishedChunk)
      ⟨p, hremove, _, hp, removeFinished_within ok⟩
    exact ⟨hkeeps, fun _ => Or.inl htotal⟩
  | reset =>
    obtain ⟨l, hrep, ok⟩ := h
    obtain ⟨p, hreset, hp⟩ := reset_refines hrep
    obtain ⟨hkeeps, htotal⟩ := returns (x := queueOp q .reset)
      ⟨p, hreset, _, hp, reset_within ok⟩
    exact ⟨hkeeps, fun _ => Or.inl htotal⟩
  | writeTurn ans turn =>
    obtain ⟨t, ht, hshape⟩ := writeTurn_shape h ans turn
    obtain ⟨hkeeps, htotal⟩ := returns (x := queueOp q (.writeTurn ans turn))
      ⟨t.queue, by rw [queueOp, ht]; rfl, hshape⟩
    exact ⟨hkeeps, fun _ => Or.inl htotal⟩
  | handleWrite ans fuel =>
    rcases handleWriteLoop_shape h ans fuel 0 [] with ⟨t, ht, hshape⟩ | hfuel
    · obtain ⟨hkeeps, htotal⟩ := returns (x := queueOp q (.handleWrite ans fuel))
        ⟨t.queue, by rw [queueOp, ChunkLinks.connectionHandleWrite, ht]; rfl, hshape⟩
      exact ⟨hkeeps, fun _ => Or.inl htotal⟩
    · have herror : queueOp q (.handleWrite ans fuel) = .error .outOfFuel := by
        rw [queueOp, ChunkLinks.connectionHandleWrite, hfuel]
        rfl
      refine ⟨fun q' hq' => ?_, fun _ => Or.inr ⟨ans, fuel, rfl, herror⟩⟩
      rw [herror] at hq'
      cases hq'

theorem run_shape {ops : List QueueOp} {q : LinkedQueue}
    (run : ops.foldlM queueOp ChunkLinks.chunkqueueInit = .ok q) : WellShaped q :=
  foldlM_keeps ops (fun _ op p _ hp hop => (queueOp_shape hp op).1 p hop)
    ⟨_, init_represents, init_within⟩ run

/-- The two lists of a queue, chunk by chunk with their addresses. The last
field is the guard of the branch of `connection_send_file_chunk` that pushes a
chunk without unlinking it: no active file chunk meets it. -/
structure Shape (q : LinkedQueue) (active idle : List (Nat × Chunk)) : Prop where
  activeList : Chain q.heap q.first active
  ending : q.last = lastAddress active
  bothNull : q.first = none ↔ q.last = none
  idleList : Chain q.heap q.idle idle
  idleCount : q.idleChunkSize = idle.length ∧ q.idleChunkSize ≤ 4
  apart : (addresses active ++ addresses idle).Nodup
  idleClean : ∀ c ∈ values idle, Clean c
  offset : ∀ c ∈ values active, c.chunkOffset ≤ chunkLength c
  unfinished : ∀ c ∈ values active, c.chunkType = .file → u32Sub c.fileLength c.chunkOffset ≠ 0

lemma WellShaped.shape {q : LinkedQueue} (h : WellShaped q) : ∃ active idle, Shape q active idle := by
  obtain ⟨l, ⟨active, idle, hl, hlast, rfl⟩, ok⟩ := h
  refine ⟨active, idle, hl.activeChain, hlast, ?_, hl.idleChain, ⟨hl.count, ?_⟩, hl.apart, ok.idle,
    fun c hc => (ok.chunks c hc).offset, fun c hc hfile => ok.pending hc hfile⟩
  · rw [chain_nil_iff hl.activeChain, hlast, lastAddress_nil_iff]
  · have hcount : (values idle).length ≤ 4 := ok.idleCount
    rw [values, List.length_map] at hcount
    rw [hl.count]
    exact hcount

/-- After any operations in any order the queue has its shape, and each further
operation with accepted arguments returns: none of its assertions fails and it
follows no dangling pointer. Only the loop of `connection_handle_write` may
need more turns than it is given. -/
theorem queue_keeps_shape (ops : List QueueOp) {q : LinkedQueue}
    (run : ops.foldlM queueOp ChunkLinks.chunkqueueInit = .ok q) :
    (∃ active idle, Shape q active idle) ∧
    ∀ op, Accepted q op → (∃ q', queueOp q op = .ok q') ∨
      ∃ ans fuel, op = .handleWrite ans fuel ∧ queueOp q op = .error .outOfFuel :=
  ⟨(run_shape run).shape, fun op => (queueOp_shape (run_shape run) op).2⟩

/-- A response queued and half sent, and a file opened behind it. -/
def sampleOps : List QueueOp :=
  [.appendFile (bufferCopyString bufferInit (asciiBytes "/f")) 4096 3,
    .prependBuffer (bufferCopyString bufferInit (asciiBytes "head")), .getMemory 8 [1, 2],
    .markWritten 2, .writeTurn SysAnswers.failing 0, .markWritten 4, .removeFinishedChunk,
    .handleWrite SysAnswers.failing 2, .appendBuffer (bufferCopyString bufferInit [])]

theorem queue_keeps_shape_sample :
    ∃ q, sampleOps.foldlM queueOp ChunkLinks.chunkqueueInit = .ok q ∧
      (∃ active idle, Shape q active idle) ∧
      ∀ op, Accepted q op → (∃ q', queueOp q op = .ok q') ∨
        ∃ ans fuel, op = .handleWrite ans fuel ∧ queueOp q op = .error .outOfFuel := by
  have hsome : (sampleOps.foldlM queueOp ChunkLinks.chunkqueueInit).toOption.isSome = true := by
    decide +kernel
  obtain ⟨q, hq⟩ := Option.isSome_iff_exists.mp hsome
  have run := toOption_eq_some hq
  exact ⟨q, run, queue_keeps_shape sampleOps run⟩

end QueueShape
