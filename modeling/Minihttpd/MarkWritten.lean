import Minihttpd.QueueShape

/-!
# The bytes marked as written

`chunkqueue_mark_written` on any queue whose lists are lists, however its chunks
are cut and wherever the written bytes end. What is left to send is what was
left before without a first part, and nothing else of the queue is touched.
-/
namespace MarkWritten

open ByteBuffer SystemCalls ChunkQueue ChunkQueueLaws LinkedCells LinkRefinement QueueShape
open ChunkLinks (LinkedQueue)
open WriteQueue (Within unsent dropWritten_split dropWritten_unsent remainingTotal_unsent)

/-- The remaining length of the chunks of a queue. -/
def totalRemaining (active : List Chunk) : Nat :=
  (active.map fun c => chunkLength c - c.chunkOffset).sum

/-- A queue as it may be handed over: its two lists are lists, its ends are where
it says, and of no chunk more has been sent than it holds. -/
structure WellFormed (q : LinkedQueue) (l : Chunkqueue) : Prop where
  lists : Represents q l
  chunks : ∀ c ∈ l.active, Within c

/-- What is left when `len` bytes of the queue `l` have been written, and the
queue `q` stands for `k` then. -/
structure Dropped (file : Bytes → Nat → UInt8) (l : Chunkqueue) (len : Nat) (q : LinkedQueue)
    (k : Chunkqueue) : Prop where
  wellFormed : WellFormed q k
  suffix : unsent file k.active = (unsent file l.active).drop (min len (totalRemaining l.active))
  unfinished : ∀ c rest, k.active = c :: rest → 0 < chunkLength c - c.chunkOffset
  bothNull : q.first = none ↔ q.last = none

lemma totalRemaining_eq {active : List Chunk} (h : ∀ c ∈ active, Within c) :
    totalRemaining active = HttpConnection.remainingTotal active := by
  rw [totalRemaining, HttpConnection.remainingTotal]
  congr 1
  apply List.map_congr_left
  intro c hc
  exact ((h c hc).remaining_eq).symm

lemma totalRemaining_unsent (file : Bytes → Nat → UInt8) {active : List Chunk}
    (h : ∀ c ∈ active, Within c) : totalRemaining active = (unsent file active).length :=
  (totalRemaining_eq h).trans (remainingTotal_unsent file h)

lemma represents_bothNull {q : LinkedQueue} {l : Chunkqueue} (h : Represents q l) :
    q.first = none ↔ q.last = none := by
  obtain ⟨active, idle, hl, hlast, rfl⟩ := h
  rw [chain_nil_iff hl.activeChain, hlast, lastAddress_nil_iff]

/-- The chunks that are left, and the one in front of them. -/
lemma dropWritten_front (active : List Chunk) (len : Nat) (h : ∀ c ∈ active, Within c) :
    (∀ c ∈ (dropWritten active len).2, Within c) ∧
      ∀ c rest, (dropWritten active len).2 = c :: rest → 0 < chunkLength c - c.chunkOffset := by
  rcases dropWritten_split active len h with ⟨_, hdrop⟩ | ⟨done, c, rest, n, rfl, _, hn, hdrop⟩
  · rw [hdrop]
    exact ⟨fun c hc => absurd hc List.not_mem_nil, fun c rest hsplit => by cases hsplit⟩
  · have hpart := ((h c (by simp)).advance_eq hn).1
    rw [hdrop]
    constructor
    · intro d hd
      rcases List.mem_cons.mp hd with rfl | hd
      · exact ⟨Nat.le_of_lt hpart, (h c (by simp)).short⟩
      · exact h d (List.mem_append_right _ (List.mem_cons_of_mem c hd))
    · intro d rest' hsplit
      cases hsplit
      exact Nat.sub_pos_of_lt hpart

/-- The written bytes are a first part of the unsent ones, and the number that is
returned counts those for which there was nothing left. After `writev` it is
zero, whatever the socket has taken. -/
theorem mark_written_exact {q : LinkedQueue} {l : Chunkqueue} (wf : WellFormed q l)
    (file : Bytes → Nat → UInt8) (len : Nat) :
    totalRemaining l.active = (unsent file l.active).length ∧
    (∃ q' k, ChunkLinks.chunkqueueMarkWritten q len =
        .ok (len - min len (totalRemaining l.active), q') ∧ Dropped file l len q' k) ∧
    ∀ c rest answer, l.active = c :: rest → c.chunkType = .mem →
      ∃ t, ChunkLinks.connectionWritevMemChunk q answer = .ok t := by
  have htotal := totalRemaining_eq wf.chunks
  refine ⟨totalRemaining_unsent file wf.chunks, ?_, ?_⟩
  · obtain ⟨q', hmark, hrep⟩ := markWritten_refines wf.lists len
    obtain ⟨_, hactive⟩ := markWrittenLoop_active l.active l len
    obtain ⟨hwithin, hfront⟩ := dropWritten_front l.active len wf.chunks
    have hkept : (chunkqueueMarkWritten l len).2.active = (dropWritten l.active len).2 := hactive
    have hcount : (chunkqueueMarkWritten l len).1 = len - min len (totalRemaining l.active) := by
      rw [markWritten_left wf.chunks len, htotal]
      omega
    have hmin : (unsent file l.active).drop (min len (totalRemaining l.active)) =
        (unsent file l.active).drop len := by
      rw [totalRemaining_unsent file wf.chunks]
      rcases Nat.le_total len (unsent file l.active).length with hle | hle
      · rw [Nat.min_eq_left hle]
      · rw [Nat.min_eq_right hle, List.drop_length, List.drop_eq_nil_of_le hle]
    rw [hcount] at hmark
    refine ⟨q', (chunkqueueMarkWritten l len).2, hmark, ⟨hrep, ?_⟩, ?_, ?_, represents_bothNull hrep⟩
    · rw [hkept]
      exact hwithin
    · rw [hkept, hmin]
      exact (dropWritten_unsent file l.active len wf.chunks).2
    · rw [hkept]
      exact hfront
  · intro c rest answer _ _
    have hagree := writevMemChunk_refines wf.lists answer
    obtain ⟨t, ht, _⟩ := writevMemChunk_takes wf.chunks answer
    rw [ht] at hagree
    cases hturn : ChunkLinks.connectionWritevMemChunk q answer with
    | error e =>
      rw [hturn] at hagree
      cases hagree
    | ok turn => exact ⟨turn, rfl⟩

/-- An empty memory chunk in front of a file chunk with three bytes left. -/
def sampleQueue : LinkedQueue where
  heap
    | 0 => some ⟨{ chunkInitialize with mem := bufferCopyString bufferInit [] }, some 1⟩
    | 1 => some ⟨{ chunkInitialize with chunkType := .file, fileLength := 5, chunkOffset := 2 }, none⟩
    | _ => none
  nextAddress := 2
  first := some 0
  last := some 1
  idle := none
  idleChunkSize := 0
  calls := []

def sampleChunks : Chunkqueue :=
  ⟨[{ chunkInitialize with mem := bufferCopyString bufferInit [] },
    { chunkInitialize with chunkType := .file, fileLength := 5, chunkOffset := 2 }], [], []⟩

lemma sampleQueue_wellFormed : WellFormed sampleQueue sampleChunks := by
  constructor
  · refine ⟨[(0, _), (1, _)], [], ⟨⟨rfl, some 1, rfl, rfl, none, rfl, rfl⟩, rfl, by simp, ?_, rfl⟩,
      rfl, rfl⟩
    rintro (_ | _ | a) ha
    · cases ha
    · exact absurd ha (by decide)
    · rfl
  · intro c hc
    rcases List.mem_cons.mp hc with rfl | hc
    · exact ⟨by decide, by decide⟩
    · rw [List.mem_singleton.mp hc]
      exact ⟨by decide, by decide⟩

theorem mark_written_exact_sample :
    ∃ q' k, ChunkLinks.chunkqueueMarkWritten sampleQueue 2 = .ok (0, q') ∧
      Dropped (fun _ i => UInt8.ofNat i) sampleChunks 2 q' k :=
  (mark_written_exact sampleQueue_wellFormed (fun _ i => UInt8.ofNat i) 2).2.1

end MarkWritten
