import Minihttpd.ChunkQueueLaws
import Minihttpd.HttpConnection
import Minihttpd.Library.SideBySide

/-!
# Queues that cannot be told apart

What a queue was used for before is left in the number of its idle chunks and,
in memory chunks, in the place and length of a file part. No operation depends
on either, so queues that are alike but for these stay alike, and are read and
written in the same way.
-/
namespace AlikeQueues

open ByteBuffer SystemCalls ChunkQueue ChunkQueueLaws HttpConnection SideBySide

/-- A chunk without what is left over in it. -/
def visible (c : Chunk) : Chunk :=
  match c.chunkType with
  | .mem => { c with fileOffset := 0, fileLength := 0 }
  | .file => c

structure Alike (q p : Chunkqueue) : Prop where
  active : q.active.map visible = p.active.map visible
  left : IdleClean q
  right : IdleClean p

lemma visible_mem {c : Chunk} (h : c.chunkType = .mem) :
    visible c = { c with fileOffset := 0, fileLength := 0 } := by
  rw [visible, h]

lemma visible_file {c : Chunk} (h : c.chunkType = .file) : visible c = c := by
  rw [visible, h]

/-- Whatever is not looked up in a file part is the same. -/
lemma visible_keeps {β : Type*} {g : Chunk → β}
    (blind : ∀ (c : Chunk) (offset length : Nat), c.chunkType = .mem →
      g { c with fileOffset := offset, fileLength := length } = g c) (c : Chunk) :
    g (visible c) = g c := by
  cases h : c.chunkType with
  | mem => rw [visible_mem h, blind c 0 0 h]
  | file => rw [visible_file h]

@[simp] lemma visible_chunkType (c : Chunk) : (visible c).chunkType = c.chunkType :=
  visible_keeps (fun _ _ _ _ => rfl) c

@[simp] lemma visible_mem_eq (c : Chunk) : (visible c).mem = c.mem :=
  visible_keeps (fun _ _ _ _ => rfl) c

@[simp] lemma visible_chunkOffset (c : Chunk) : (visible c).chunkOffset = c.chunkOffset :=
  visible_keeps (fun _ _ _ _ => rfl) c

@[simp] lemma visible_chunkString (c : Chunk) : chunkString (visible c) = chunkString c := by
  rw [chunkString, visible_mem_eq, chunkString]

@[simp] lemma visible_chunkLength (c : Chunk) : chunkLength (visible c) = chunkLength c := by
  apply visible_keeps
  intro c offset length h
  simp only [chunkLength, h]

@[simp] lemma visible_remainingLen (c : Chunk) :
    chunkRemainingLen (visible c) = chunkRemainingLen c := by
  rw [chunkRemainingLen, visible_chunkLength, visible_chunkOffset, chunkRemainingLen]

lemma visible_setOffset (c : Chunk) (offset : Nat) :
    visible { c with chunkOffset := offset } = { visible c with chunkOffset := offset } := by
  obtain ⟨_, _, _, _, _, _, _, _, type, _⟩ := c
  cases type <;> rfl

/-- Of alike file chunks nothing is hidden. -/
lemma eq_of_visible {c d : Chunk} (same : visible c = visible d) (file : c.chunkType = .file) :
    c = d := by
  have hfile : d.chunkType = .file := by
    rw [← visible_chunkType, ← same, visible_chunkType, file]
  rw [visible_file file, visible_file hfile] at same
  exact same

/-- A function of the visible chunks gives the same for alike lists. -/
lemma same_of_visible {β : Type*} {f : List Chunk → β} (blind : ∀ l, f (l.map visible) = f l)
    {l l' : List Chunk} (same : l.map visible = l'.map visible) : f l = f l' := by
  rw [← blind l, same, blind l']

lemma visible_strings (l : List Chunk) :
    (l.map visible).map chunkString = l.map chunkString := by
  rw [List.map_map]
  exact List.map_congr_left fun c _ => visible_chunkString c

lemma visible_findHead (l : List Chunk) (chunk : Nat) :
    findHead (l.map visible) chunk = findHead l chunk := by
  induction l generalizing chunk with
  | nil => rfl
  | cons c rest ih =>
    rw [List.map_cons, findHead, findHead, visible_chunkType, visible_chunkString, visible_strings]
    split
    · split
      · rfl
      · exact ih (chunk + 1)
    · rfl

lemma visible_headPieces (l : List Chunk) (lastChunk lastChunkIndex : Nat) :
    headPieces (l.map visible) lastChunk lastChunkIndex = headPieces l lastChunk lastChunkIndex := by
  rw [headPieces, headPieces, ← List.map_take, visible_strings, ← List.map_drop, ← List.map_take,
    List.map_map]
  congr 1
  exact List.map_congr_left fun c _ => by rw [Function.comp_apply, visible_chunkString]

lemma visible_length (l : List Chunk) (len : Nat) :
    (l.map visible).foldl (fun len c => u32 (len + chunkLength c)) len =
      l.foldl (fun len c => u32 (len + chunkLength c)) len := by
  rw [List.foldl_map]
  simp only [visible_chunkLength]

lemma visible_remainingTotal (l : List Chunk) :
    remainingTotal (l.map visible) = remainingTotal l := by
  rw [remainingTotal, remainingTotal, List.map_map]
  congr 1
  exact List.map_congr_left fun c _ => by rw [Function.comp_apply, visible_remainingLen]

lemma visible_segments (l : List Chunk) :
    (l.map visible).map ConnectionTypes.chunkSegment = l.map ConnectionTypes.chunkSegment := by
  rw [List.map_map]
  refine List.map_congr_left fun c _ => visible_keeps (fun c offset length h => ?_) c
  simp only [ConnectionTypes.chunkSegment, h]

lemma visible_gather (l : List Chunk) (room : Nat) :
    gatherChunks (l.map visible) room = gatherChunks l room := by
  induction l generalizing room with
  | nil => rfl
  | cons c rest ih =>
    rw [List.map_cons, gatherChunks, gatherChunks, visible_chunkType, visible_mem_eq,
      visible_chunkString, visible_chunkOffset]
    dsimp only
    rw [ih, ih]

variable {q p : Chunkqueue}

lemma alike_length (h : Alike q p) : chunkqueueLength q = chunkqueueLength p :=
  same_of_visible (fun l => visible_length l 0) h.active

lemma alike_nil_iff (h : Alike q p) : q.active = [] ↔ p.active = [] := by
  have hlength := congrArg List.length h.active
  rw [List.length_map, List.length_map] at hlength
  rw [← List.length_eq_zero_iff, hlength, List.length_eq_zero_iff]

lemma alike_reset (left : IdleClean q) (right : IdleClean p) :
    Alike (chunkqueueReset q) (chunkqueueReset p) :=
  ⟨rfl, reset_idleClean left, reset_idleClean right⟩

lemma clean_mem {c d : Chunk} (hc : Clean c) (hd : Clean d) (b : Buffer) :
    visible { c with chunkType := .mem, mem := b } =
      visible { d with chunkType := .mem, mem := b } := by
  rw [visible_mem rfl, visible_mem rfl]
  simp only [hc.filename, hc.fileFd, hc.mmapStart, hc.mmapOffset, hc.mmapLen, hc.chunkOffset,
    hd.filename, hd.fileFd, hd.mmapStart, hd.mmapOffset, hd.mmapLen, hd.chunkOffset]

lemma clean_file {c d : Chunk} (hc : Clean c) (hd : Clean d) (b : Buffer) (offset len : Nat) :
    visible { c with chunkType := .file, filename := b, fileFd := none, fileOffset := offset,
                     fileLength := len } =
      visible { d with chunkType := .file, filename := b, fileFd := none, fileOffset := offset,
                       fileLength := len } := by
  simp only [hc.mem, hc.mmapStart, hc.mmapOffset, hc.mmapLen, hc.chunkOffset,
    hd.mem, hd.mmapStart, hd.mmapOffset, hd.mmapLen, hd.chunkOffset]

/-- An unused chunk of either queue serves for the other. -/
lemma alike_unused (h : Alike q p) :
    Clean (chunkqueueGetUnusedChunk q).1 ∧ Clean (chunkqueueGetUnusedChunk p).1 ∧
      Alike (chunkqueueGetUnusedChunk q).2 (chunkqueueGetUnusedChunk p).2 := by
  obtain ⟨hc, hq, hidle⟩ := getUnused_spec h.left
  obtain ⟨hd, hp, hidle'⟩ := getUnused_spec h.right
  exact ⟨hc, hd, by rw [hq, hp]; exact h.active, hidle, hidle'⟩

lemma alike_append (h : Alike q p) {c d : Chunk} (same : visible c = visible d) :
    Alike (chunkqueueAppendChunk q c) (chunkqueueAppendChunk p d) := by
  refine ⟨?_, h.left, h.right⟩
  change (q.active ++ [c]).map visible = (p.active ++ [d]).map visible
  rw [List.map_append, List.map_append, h.active, List.map_singleton, List.map_singleton, same]

theorem alike_appendBuffer (h : Alike q p) (mem : Buffer) :
    Agree Alike (chunkqueueAppendBuffer q mem) (chunkqueueAppendBuffer p mem) := by
  obtain ⟨hc, hd, hrest⟩ := alike_unused h
  simp only [chunkqueueAppendBuffer, hc.mem, hd.mem]
  refine agree_bind (agree_refl _) ?_
  rintro b _ rfl
  exact alike_append hrest (clean_mem hc hd b)

theorem alike_prependBuffer (h : Alike q p) (mem : Buffer) :
    Agree Alike (chunkqueuePrependBuffer q mem) (chunkqueuePrependBuffer p mem) := by
  obtain ⟨hc, hd, hrest⟩ := alike_unused h
  simp only [chunkqueuePrependBuffer, hc.mem, hd.mem]
  refine agree_bind (agree_refl _) ?_
  rintro b _ rfl
  refine ⟨?_, hrest.left, hrest.right⟩
  simp only [List.map_cons, hrest.active, clean_mem hc hd b]

theorem alike_appendFile (h : Alike q p) (filename : Buffer) (offset len : Nat) :
    Agree Alike (chunkqueueAppendFile q filename offset len)
      (chunkqueueAppendFile p filename offset len) := by
  obtain ⟨hc, hd, hrest⟩ := alike_unused h
  simp only [chunkqueueAppendFile, hc.filename, hd.filename]
  split
  · exact rfl
  · split
    · exact h
    · refine agree_bind (agree_refl _) ?_
      rintro b _ rfl
      exact alike_append hrest (clean_file hc hd b offset len)

/-- Memory for a read, at the same place in alike queues. -/
structure AlikeMemory (x y : Chunkqueue × Option Nat) : Prop where
  queue : Alike x.1 y.1
  place : x.2 = y.2

lemma alike_newMemory (h : Alike q p) (need : Nat) :
    AlikeMemory (chunkGetNewMemory q need) (chunkGetNewMemory p need) := by
  obtain ⟨hc, hd, hrest⟩ := alike_unused h
  refine ⟨?_, ?_⟩
  · simp only [chunkGetNewMemory, hc.mem, hd.mem]
    exact alike_append hrest (clean_mem hc hd _)
  · simp only [chunkGetNewMemory, hc.mem, hd.mem]

/-- The last chunks of alike queues. -/
lemma alike_last (h : Alike q p) : q.active.getLast? = none ∧ p.active.getLast? = none ∨
    ∃ c d, q.active.getLast? = some c ∧ p.active.getLast? = some d ∧ visible c = visible d := by
  have hlast := congrArg List.getLast? h.active
  rw [List.getLast?_map, List.getLast?_map] at hlast
  cases hq : q.active.getLast? with
  | none =>
    rw [hq] at hlast
    exact Or.inl ⟨rfl, Option.map_eq_none_iff.mp hlast.symm⟩
  | some c =>
    rw [hq] at hlast
    obtain ⟨d, hd, hsame⟩ := Option.map_eq_some_iff.mp hlast.symm
    exact Or.inr ⟨c, d, rfl, hd, hsame.symm⟩

/-- Alike queues with the memory of their last chunk replaced. -/
lemma alike_setLast (h : Alike q p) {c d : Chunk} (same : visible c = visible d)
    (memory : c.chunkType = .mem) (b : Buffer) :
    Alike { q with active := q.active.dropLast ++ [{ c with mem := b }] }
      { p with active := p.active.dropLast ++ [{ d with mem := b }] } := by
  have hmemory : d.chunkType = .mem := by
    rw [← visible_chunkType, ← same, visible_chunkType, memory]
  refine ⟨?_, h.left, h.right⟩
  have hfront := congrArg List.dropLast h.active
  rw [← List.map_dropLast, ← List.map_dropLast] at hfront
  have hlast : visible { c with mem := b } = visible { d with mem := b } := by
    rw [visible_mem memory, visible_mem hmemory] at same
    rw [visible_mem (c := { c with mem := b }) memory, visible_mem (c := { d with mem := b }) hmemory]
    exact congrArg (fun e : Chunk => { e with mem := b }) same
  simp only [List.map_append, List.map_cons, List.map_nil, hfront, hlast]

theorem alike_getMemory (h : Alike q p) (need : Nat) :
    AlikeMemory (chunkGetMemory q need) (chunkGetMemory p need) := by
  simp only [chunkGetMemory]
  by_cases hneed : need = 0
  · rw [if_pos hneed, if_pos hneed]
    exact ⟨h, rfl⟩
  rw [if_neg hneed, if_neg hneed]
  rcases alike_last h with ⟨hq, hp⟩ | ⟨c, d, hq, hp, hsame⟩
  · rw [hq, hp]
    exact alike_newMemory h need
  · have htype := congrArg Chunk.chunkType hsame
    have hmem := congrArg Chunk.mem hsame
    rw [visible_chunkType, visible_chunkType] at htype
    rw [visible_mem_eq, visible_mem_eq] at hmem
    rw [hq, hp]
    dsimp only
    by_cases hmemory : c.chunkType = .mem
    · have hmemory' : d.chunkType = .mem := htype ▸ hmemory
      simp only [if_pos hmemory, if_pos hmemory', ← hmem]
      have hset := alike_setLast h hsame hmemory
        (if bufferIsEmpty c.mem then bufferAllocSize c.mem need else c.mem)
      generalize (if bufferIsEmpty c.mem then bufferAllocSize c.mem need else c.mem) = b at hset ⊢
      by_cases hroom : bufferRemainingBytes b ≥ need
      · rw [if_pos hroom, if_pos hroom]
        exact ⟨hset, rfl⟩
      · rw [if_neg hroom, if_neg hroom]
        exact alike_newMemory hset need
    · have hmemory' : ¬ d.chunkType = .mem := htype ▸ hmemory
      rw [if_neg hmemory, if_neg hmemory']
      exact alike_newMemory h need

theorem alike_commit (h : Alike q p) (bytes : Bytes) :
    Agree Alike (chunkCommitMemory q bytes) (chunkCommitMemory p bytes) := by
  simp only [chunkCommitMemory]
  by_cases hbytes : bytes.length = 0
  · rw [if_pos hbytes, if_pos hbytes]
    exact h
  rw [if_neg hbytes, if_neg hbytes]
  rcases alike_last h with ⟨hq, hp⟩ | ⟨c, d, hq, hp, hsame⟩
  · rw [hq, hp]
    exact rfl
  · have htype := congrArg Chunk.chunkType hsame
    have hmem := congrArg Chunk.mem hsame
    rw [visible_chunkType, visible_chunkType] at htype
    rw [visible_mem_eq, visible_mem_eq] at hmem
    rw [hq, hp]
    dsimp only
    by_cases hmemory : c.chunkType = .mem
    · have hmemory' : d.chunkType = .mem := htype ▸ hmemory
      rw [if_pos hmemory, if_pos hmemory', ← hmem]
      exact alike_setLast h hsame hmemory _
    · have hmemory' : ¬ d.chunkType = .mem := htype ▸ hmemory
      rw [if_neg hmemory, if_neg hmemory']
      exact rfl

lemma visible_dropWritten (l : List Chunk) (len : Nat) :
    dropWritten (l.map visible) len =
      ((dropWritten l len).1, (dropWritten l len).2.map visible) := by
  induction l generalizing len with
  | nil => rfl
  | cons c rest ih =>
    rw [List.map_cons, dropWritten, dropWritten, visible_remainingLen, visible_chunkOffset]
    split
    · rfl
    · split
      · exact ih _
      · rw [← visible_setOffset]
        rfl

lemma alike_markWritten (h : Alike q p) (len : Nat) :
    (chunkqueueMarkWritten q len).1 = (chunkqueueMarkWritten p len).1 ∧
      Alike (chunkqueueMarkWritten q len).2 (chunkqueueMarkWritten p len).2 := by
  obtain ⟨hrest, hactive, hidle⟩ := markWritten_spec len h.left
  obtain ⟨hrest', hactive', hidle'⟩ := markWritten_spec len h.right
  have hq := visible_dropWritten q.active len
  have hp := visible_dropWritten p.active len
  rw [h.active, hp] at hq
  obtain ⟨hcount, hleft⟩ := Prod.mk.inj hq
  exact ⟨by rw [hrest, hrest', hcount], by rw [hactive, hactive', hleft], hidle, hidle'⟩

lemma visible_dropFinished (l : List Chunk) :
    dropFinished (l.map visible) = (dropFinished l).map visible := by
  induction l with
  | nil => rfl
  | cons c rest ih =>
    rw [List.map_cons, dropFinished, dropFinished, visible_remainingLen]
    split
    · rfl
    · exact ih

lemma alike_removeFinished (h : Alike q p) :
    Alike (chunkqueueRemoveFinishedChunk q) (chunkqueueRemoveFinishedChunk p) := by
  obtain ⟨hactive, hidle⟩ := removeFinished_spec h.left
  obtain ⟨hactive', hidle'⟩ := removeFinished_spec h.right
  refine ⟨?_, hidle, hidle'⟩
  rw [hactive, hactive', ← visible_dropFinished, ← visible_dropFinished, h.active]

/-- The same bytes sent, the same result, and alike queues left. -/
structure AlikeTurn (t s : WriteTurn) : Prop where
  code : t.code = s.code
  queue : Alike t.queue s.queue
  sent : t.sent = s.sent

lemma alike_writev (h : Alike q p) (answer : WriteAnswer) :
    Agree AlikeTurn (connectionWritevMemChunk q answer) (connectionWritevMemChunk p answer) := by
  have hgather : gatherChunks q.active 16 = gatherChunks p.active 16 :=
    @same_of_visible _ (fun l => gatherChunks l 16) (fun l => visible_gather l 16) _ _ h.active
  simp only [connectionWritevMemChunk, hgather]
  refine agree_bind (agree_refl _) ?_
  rintro pieces _ rfl
  split
  · exact ⟨rfl, alike_removeFinished h, rfl⟩
  · cases answer with
    | fail errno => exact ⟨rfl, h, rfl⟩
    | accept bytes =>
      obtain ⟨hcount, hmarked⟩ := alike_markWritten h
        (min bytes (min pieces.flatten.length maxTransfer))
      dsimp only
      split
      · rw [hcount]
        split
        · exact rfl
        · exact ⟨rfl, hmarked, rfl⟩
      · exact ⟨rfl, h, rfl⟩

lemma alike_sendMapped (h : Alike q p) (file : Bytes → Nat → UInt8) (c : Chunk) (m : Mapping)
    (offset sendLen : Nat) (answer : WriteAnswer) :
    Agree AlikeTurn (sendMapped file q c m offset sendLen answer)
      (sendMapped file p c m offset sendLen answer) := by
  simp only [sendMapped]
  split
  · cases answer with
    | fail errno => cases errno <;> exact ⟨rfl, h, rfl⟩
    | accept bytes =>
      dsimp only
      refine ⟨rfl, ?_, rfl⟩
      dsimp only
      split
      · exact (alike_markWritten h _).2
      · exact h
  · exact rfl

/-- A file chunk at the head of alike queues is the same one. -/
lemma alike_sendFile (h : Alike q p) (ans : SysAnswers) (turn : Nat) (c : Chunk)
    {rest rest' : List Chunk} (same : rest.map visible = rest'.map visible) :
    Agree AlikeTurn (connectionSendFileChunk ans turn q c rest)
      (connectionSendFileChunk ans turn p c rest') := by
  simp only [connectionSendFileChunk]
  split
  · split
    · exact rfl
    · cases openFileChunk c (ans.openFile turn) with
      | none => exact ⟨rfl, h, rfl⟩
      | some opened =>
        dsimp only
        generalize (if needsRemap opened.1 (u32 (c.fileOffset + c.chunkOffset)) = true then
          remapFileChunk opened.1 (u32 (c.fileOffset + c.chunkOffset))
            (u32 (c.fileOffset + c.fileLength)) (ans.mmap turn)
          else (opened.1, [])) = mapped
        have hqueue : Alike { q with active := mapped.1 :: rest, calls := q.calls ++ opened.2 ++ mapped.2 }
            { p with active := mapped.1 :: rest', calls := p.calls ++ opened.2 ++ mapped.2 } :=
          ⟨by rw [List.map_cons, List.map_cons, same], h.left, h.right⟩
        cases mapped.1.mmapStart with
        | none => exact ⟨rfl, hqueue, rfl⟩
        | some m => exact alike_sendMapped hqueue ans.file _ m _ _ _
  · exact rfl

lemma alike_writeTurn (h : Alike q p) (ans : SysAnswers) (turn : Nat) :
    Agree AlikeTurn (connectionHandleWriteTurn ans turn q)
      (connectionHandleWriteTurn ans turn p) := by
  have hactive := h.active
  simp only [connectionHandleWriteTurn]
  cases hq : q.active with
  | nil =>
    rw [(alike_nil_iff h).mp hq]
    exact ⟨rfl, h, rfl⟩
  | cons c rest =>
    cases hp : p.active with
    | nil =>
      rw [(alike_nil_iff h).mpr hp] at hq
      cases hq
    | cons d rest' =>
      rw [hq, hp, List.map_cons, List.map_cons] at hactive
      obtain ⟨hhead, htail⟩ := List.cons.inj hactive
      have htype := congrArg Chunk.chunkType hhead
      rw [visible_chunkType, visible_chunkType] at htype
      dsimp only
      rw [← htype]
      cases hc : c.chunkType with
      | mem => exact alike_writev h _
      | file =>
        rw [← eq_of_visible hhead hc]
        exact alike_sendFile h ans turn c htail

lemma alike_writeLoop (h : Alike q p) (ans : SysAnswers) (fuel turn : Nat) (sent : Bytes) :
    Agree AlikeTurn (handleWriteLoop ans fuel turn q sent)
      (handleWriteLoop ans fuel turn p sent) := by
  induction fuel generalizing turn q p sent with
  | zero => exact rfl
  | succ fuel ih =>
    rw [handleWriteLoop, handleWriteLoop]
    by_cases hempty : q.active = []
    · rw [if_pos hempty, if_pos ((alike_nil_iff h).mp hempty)]
      exact ⟨rfl, h, rfl⟩
    · rw [if_neg hempty, if_neg (mt (alike_nil_iff h).mpr hempty)]
      refine agree_bind (alike_writeTurn h ans turn) ?_
      rintro t s ⟨hcode, hqueue, hsent⟩
      rw [hcode, hsent]
      split
      · exact ⟨rfl, hqueue, rfl⟩
      · exact ih hqueue (turn + 1) _

/-- Alike queues are written in the same way. -/
theorem alike_write (h : Alike q p) (ans : SysAnswers) :
    Agree AlikeTurn (connectionHandleWrite ans q) (connectionHandleWrite ans p) := by
  have hbytes : remainingTotal q.active = remainingTotal p.active :=
    same_of_visible visible_remainingTotal h.active
  have hcount := congrArg List.length h.active
  rw [List.length_map, List.length_map] at hcount
  rw [connectionHandleWrite, connectionHandleWrite, hbytes, hcount]
  exact alike_writeLoop h ans _ 0 []

end AlikeQueues
