import Minihttpd.ChunkQueue
import Minihttpd.Library.FailingRun

/-!
# Laws of the chunk queue

Idle chunks stay clean, whichever way a chunk has come back to the idle stack.
Hence every operation acts on the active chunks alone, independently of what
the queue was used for before.
-/
namespace ChunkQueueLaws

open ByteBuffer SystemCalls ChunkQueue FailingRun

/-- Nothing of an earlier use is left: `chunk_type`, `send_file.offset` and
`send_file.length` differ between a new and a reset chunk and are set on use. -/
structure Clean (c : Chunk) : Prop where
  mem : c.mem = bufferInit
  filename : c.filename = bufferInit
  fileFd : c.fileFd = none
  mmapStart : c.mmapStart = none
  mmapOffset : c.mmapOffset = 0
  mmapLen : c.mmapLen = 0
  chunkOffset : c.chunkOffset = 0

def IdleClean (q : Chunkqueue) : Prop := ∀ c ∈ q.idle, Clean c

lemma chunkInitialize_clean : Clean chunkInitialize := ⟨rfl, rfl, rfl, rfl, rfl, rfl, rfl⟩

lemma chunkReset_clean (c : Chunk) : Clean (chunkReset c) := ⟨rfl, rfl, rfl, rfl, rfl, rfl, rfl⟩

lemma chunkqueueInit_idleClean : IdleClean chunkqueueInit := by
  intro c hc
  cases hc

lemma getUnused_spec {q : Chunkqueue} (clean : IdleClean q) :
    Clean (chunkqueueGetUnusedChunk q).1 ∧
    (chunkqueueGetUnusedChunk q).2.active = q.active ∧
    IdleClean (chunkqueueGetUnusedChunk q).2 := by
  cases hi : q.idle with
  | nil =>
    simp only [chunkqueueGetUnusedChunk, hi]
    refine ⟨chunkInitialize_clean, trivial, ?_⟩
    intro c hc
    rw [List.eq_of_mem_replicate hc]
    exact chunkInitialize_clean
  | cons c rest =>
    simp only [chunkqueueGetUnusedChunk, hi]
    refine ⟨clean c (hi ▸ List.mem_cons_self), trivial, ?_⟩
    intro d hd
    exact clean d (hi ▸ List.mem_cons_of_mem c hd)

lemma pushUnused_idleClean {q : Chunkqueue} (clean : IdleClean q) (c : Chunk) :
    IdleClean (chunkqueuePushUnusedChunk q c) := by
  by_cases h : q.idle.length ≥ 4
  · simp only [chunkqueuePushUnusedChunk, if_pos h]
    exact clean
  · simp only [chunkqueuePushUnusedChunk, if_neg h]
    intro d hd
    rcases List.mem_cons.mp hd with rfl | hd
    · exact chunkReset_clean c
    · exact clean d hd

lemma idleClean_setActive {q : Chunkqueue} (clean : IdleClean q) (active : List Chunk) :
    IdleClean { q with active := active } := clean

@[simp] lemma reset_active (q : Chunkqueue) : (chunkqueueReset q).active = [] := rfl

lemma reset_idleClean {q : Chunkqueue} (clean : IdleClean q) : IdleClean (chunkqueueReset q) := by
  have pushes : ∀ (l : List Chunk) (p : Chunkqueue), IdleClean p →
      IdleClean (l.foldl chunkqueuePushUnusedChunk p) := by
    intro l
    induction l with
    | nil => exact fun p hp => hp
    | cons c rest ih => exact fun p hp => ih _ (pushUnused_idleClean hp c)
  exact pushes q.active q clean

/-- A chunk holding a copied buffer, at the end or in front of the queue. -/
lemma appendBuffer_spec {q p : Chunkqueue} {mem : Buffer} (clean : IdleClean q)
    (h : chunkqueueAppendBuffer q mem = .ok p) :
    ∃ c, p.active = q.active ++ [c] ∧ IdleClean p ∧ c.chunkType = .mem ∧ c.chunkOffset = 0 ∧
      c.mem.Terminated ∧ c.mem.str = bufferString mem ∧
      bufferCopyBuffer bufferInit mem = .ok c.mem ∧
      Clean { c with mem := bufferInit } := by
  obtain ⟨hc, hactive, hidle⟩ := getUnused_spec clean
  simp only [chunkqueueAppendBuffer] at h
  obtain ⟨b, hb, hp⟩ := bind_eq_ok.mp h
  cases hp
  have hcopy := bufferCopyBuffer_ok hb
  rw [hc.mem] at hb
  exact ⟨{ (chunkqueueGetUnusedChunk q).1 with chunkType := .mem, mem := b },
    by simp only [chunkqueueAppendChunk, hactive], hidle, rfl, hc.chunkOffset, hcopy.1, hcopy.2,
    hb, rfl, hc.filename, hc.fileFd, hc.mmapStart, hc.mmapOffset, hc.mmapLen, hc.chunkOffset⟩

lemma prependBuffer_spec {q p : Chunkqueue} {mem : Buffer} (clean : IdleClean q)
    (h : chunkqueuePrependBuffer q mem = .ok p) :
    ∃ c, p.active = c :: q.active ∧ IdleClean p ∧ c.chunkType = .mem ∧ c.chunkOffset = 0 ∧
      c.mem.Terminated ∧ c.mem.str = bufferString mem ∧
      bufferCopyBuffer bufferInit mem = .ok c.mem ∧
      Clean { c with mem := bufferInit } := by
  obtain ⟨hc, hactive, hidle⟩ := getUnused_spec clean
  simp only [chunkqueuePrependBuffer] at h
  obtain ⟨b, hb, hp⟩ := bind_eq_ok.mp h
  cases hp
  have hcopy := bufferCopyBuffer_ok hb
  rw [hc.mem] at hb
  exact ⟨{ (chunkqueueGetUnusedChunk q).1 with chunkType := .mem, mem := b },
    by simp only [hactive], hidle, rfl, hc.chunkOffset, hcopy.1, hcopy.2,
    hb, rfl, hc.filename, hc.fileFd, hc.mmapStart, hc.mmapOffset, hc.mmapLen, hc.chunkOffset⟩

/-- Either nothing is appended, or one file chunk that was not opened yet. -/
lemma appendFile_spec {q p : Chunkqueue} {filename : Buffer} {offset len : Nat}
    (clean : IdleClean q) (h : chunkqueueAppendFile q filename offset len = .ok p) :
    IdleClean p ∧
    ((cString filename.data).length = 0 ∨ len = 0) ∧ p = q ∨
    IdleClean p ∧ ¬ ((cString filename.data).length = 0 ∨ len = 0) ∧
    ∃ c, p.active = q.active ++ [c] ∧ c.chunkType = .file ∧ c.chunkOffset = 0 ∧
      c.fileOffset = offset ∧ c.fileLength = len ∧ c.fileFd = none ∧ c.mmapStart = none ∧
      c.mmapOffset = 0 ∧ c.mmapLen = 0 ∧ c.mem = bufferInit ∧
      bufferCopyBuffer bufferInit filename = .ok c.filename := by
  by_cases hnull : filename.isNull = true
  · simp only [chunkqueueAppendFile, hnull, if_true] at h
    cases h
  · by_cases hskip : (cString filename.data).length = 0 ∨ len = 0
    · simp only [chunkqueueAppendFile, hnull, if_false, if_pos hskip, Bool.false_eq_true] at h
      cases h
      exact Or.inl ⟨clean, hskip, rfl⟩
    · simp only [chunkqueueAppendFile, hnull, if_false, if_neg hskip, Bool.false_eq_true] at h
      obtain ⟨hc, hactive, hidle⟩ := getUnused_spec clean
      obtain ⟨b, hb, hp⟩ := bind_eq_ok.mp h
      cases hp
      rw [hc.filename] at hb
      exact Or.inr ⟨hidle, hskip,
        { (chunkqueueGetUnusedChunk q).1 with
          chunkType := .file, filename := b, fileFd := none, fileOffset := offset,
          fileLength := len },
        by simp only [chunkqueueAppendChunk, hactive], rfl, hc.chunkOffset, rfl, rfl, rfl,
        hc.mmapStart, hc.mmapOffset, hc.mmapLen, hc.mem, hb⟩

/-- What `chunkqueue_mark_written` does to the active chunks. -/
def dropWritten : List Chunk → Nat → Nat × List Chunk
  | [], len => (len, [])
  | c :: rest, len =>
    if len = 0 ∧ chunkRemainingLen c > 0 then (len, c :: rest)
    else if len ≥ chunkRemainingLen c then dropWritten rest (len - chunkRemainingLen c)
    else (0, { c with chunkOffset := u32 (c.chunkOffset + len) } :: rest)

lemma markWrittenLoop_active (active : List Chunk) (q : Chunkqueue) (len : Nat) :
    (markWrittenLoop q active len).1 = (dropWritten active len).1 ∧
    (markWrittenLoop q active len).2.active = (dropWritten active len).2 := by
  induction active generalizing q len with
  | nil => exact ⟨rfl, rfl⟩
  | cons c rest ih =>
    simp only [markWrittenLoop, dropWritten]
    by_cases h0 : len = 0 ∧ chunkRemainingLen c > 0
    · simp only [if_pos h0]
      exact ⟨trivial, trivial⟩
    · by_cases h1 : len ≥ chunkRemainingLen c
      · simp only [if_neg h0, if_pos h1]
        exact ih _ _
      · simp only [if_neg h0, if_neg h1]
        exact ⟨trivial, trivial⟩

lemma markWrittenLoop_idleClean (active : List Chunk) {q : Chunkqueue} (len : Nat)
    (clean : IdleClean q) : IdleClean (markWrittenLoop q active len).2 := by
  induction active generalizing q len with
  | nil => exact clean
  | cons c rest ih =>
    simp only [markWrittenLoop]
    by_cases h0 : len = 0 ∧ chunkRemainingLen c > 0
    · simp only [if_pos h0]
      exact clean
    · by_cases h1 : len ≥ chunkRemainingLen c
      · simp only [if_neg h0, if_pos h1]
        exact ih _ (pushUnused_idleClean clean _)
      · simp only [if_neg h0, if_neg h1]
        exact clean

lemma markWritten_spec {q : Chunkqueue} (len : Nat) (clean : IdleClean q) :
    (chunkqueueMarkWritten q len).1 = (dropWritten q.active len).1 ∧
    (chunkqueueMarkWritten q len).2.active = (dropWritten q.active len).2 ∧
    IdleClean (chunkqueueMarkWritten q len).2 := by
  obtain ⟨hleft, hactive⟩ := markWrittenLoop_active q.active q len
  exact ⟨hleft, hactive, markWrittenLoop_idleClean q.active len clean⟩

/-- What `chunkqueue_remove_finished_chunk` does to the active chunks. -/
def dropFinished : List Chunk → List Chunk
  | [] => []
  | c :: rest => if chunkRemainingLen c > 0 then c :: rest else dropFinished rest

lemma removeFinished_spec {q : Chunkqueue} (clean : IdleClean q) :
    (chunkqueueRemoveFinishedChunk q).active = dropFinished q.active ∧
    IdleClean (chunkqueueRemoveFinishedChunk q) := by
  have loop : ∀ (active : List Chunk) (p : Chunkqueue), IdleClean p →
      (removeFinishedLoop p active).active = dropFinished active ∧
      IdleClean (removeFinishedLoop p active) := by
    intro active
    induction active with
    | nil => exact fun p hp => ⟨rfl, hp⟩
    | cons c rest ih =>
      intro p hp
      by_cases h : chunkRemainingLen c > 0
      · simp only [removeFinishedLoop, dropFinished, if_pos h]
        exact ⟨trivial, hp⟩
      · simp only [removeFinishedLoop, dropFinished, if_neg h]
        exact ih _ (pushUnused_idleClean hp c)
  exact loop q.active q clean

end ChunkQueueLaws
