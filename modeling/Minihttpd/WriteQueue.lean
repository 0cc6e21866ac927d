import Minihttpd.ChunkQueueLaws
import Minihttpd.HttpConnection

/-!
# The write queue

What a queue still has to send, and what one turn of the write loop does to
it: the bytes accepted by the socket are taken from the front of the unsent
bytes, whichever way the queue is cut into chunks and windows.
-/
namespace WriteQueue

open ByteBuffer SystemCalls ChunkQueue ChunkQueueLaws ConnectionTypes HttpConnection FailingRun

def fileBytes (file : Bytes → Nat → UInt8) (path : Bytes) (offset len : Nat) : Bytes :=
  (List.range len).map (fun i => file path (offset + i))

/-- All bytes of a chunk, sent or not. -/
def chunkContent (file : Bytes → Nat → UInt8) (c : Chunk) : Bytes :=
  match c.chunkType with
  | .mem => chunkString c
  | .file => fileBytes file (cString c.filename.data) c.fileOffset c.fileLength

def unsentChunk (file : Bytes → Nat → UInt8) (c : Chunk) : Bytes :=
  (chunkContent file c).drop c.chunkOffset

def unsent (file : Bytes → Nat → UInt8) (active : List Chunk) : Bytes :=
  (active.map (unsentChunk file)).flatten

/-- A file chunk in the queue: it has bytes left, and its window shows the part
of its file it was mapped for. -/
structure FileOk (c : Chunk) : Prop where
  start : c.fileOffset = 0
  short : c.fileLength < 4294967296
  pending : c.chunkOffset < c.fileLength
  window : ∀ m, c.mmapStart = some m → m.path = cString c.filename.data ∧ m.offset = c.mmapOffset
  windowShort : c.mmapLen < 4294967296

structure ChunkOk (c : Chunk) : Prop where
  offset : c.chunkOffset ≤ chunkLength c
  mem : c.chunkType = .mem → c.mem.Terminated
  file : c.chunkType = .file → FileOk c

structure QueueOk (q : Chunkqueue) : Prop where
  chunks : ∀ c ∈ q.active, ChunkOk c
  idle : IdleClean q

lemma fileBytes_length (file : Bytes → Nat → UInt8) (path : Bytes) (offset len : Nat) :
    (fileBytes file path offset len).length = len := by
  simp [fileBytes]

lemma fileBytes_take (file : Bytes → Nat → UInt8) (path : Bytes) {offset len n : Nat}
    (h : n ≤ len) : (fileBytes file path offset len).take n = fileBytes file path offset n := by
  rw [fileBytes, ← List.map_take, List.take_range, Nat.min_eq_left h, fileBytes]

lemma fileBytes_drop (file : Bytes → Nat → UInt8) (path : Bytes) (offset len n : Nat) :
    (fileBytes file path offset len).drop n = fileBytes file path (offset + n) (len - n) := by
  apply List.ext_getElem
  · simp [fileBytes]
  · intro i h1 h2
    simp [fileBytes, Nat.add_assoc]

lemma mappedBytes_eq (file : Bytes → Nat → UInt8) (m : Mapping) (start len : Nat) :
    mappedBytes file m start len = fileBytes file m.path (m.offset + start) len := by
  simp only [mappedBytes, fileBytes, Nat.add_assoc]

lemma unsent_cons (file : Bytes → Nat → UInt8) (c : Chunk) (rest : List Chunk) :
    unsent file (c :: rest) = unsentChunk file c ++ unsent file rest := by
  simp [unsent]

lemma chunkLength_lt {c : Chunk} (h : ChunkOk c) : chunkLength c < 4294967296 := by
  cases ht : c.chunkType with
  | mem =>
    simp only [chunkLength, ht]
    have := bufferStringLength_lt c.mem
    omega
  | file =>
    simp only [chunkLength, ht]
    exact (h.file ht).short

/-- No more has been sent of a chunk than it holds, and its length fits 32 bits. -/
structure Within (c : Chunk) : Prop where
  offset : c.chunkOffset ≤ chunkLength c
  short : chunkLength c < 4294967296

lemma ChunkOk.within {c : Chunk} (h : ChunkOk c) : Within c := ⟨h.offset, chunkLength_lt h⟩

lemma bufferString_length (b : Buffer) : (bufferString b).length = bufferStringLength b := by
  have hused : b.usedBytes ≤ b.data.length := Nat.mod_le _ _
  rw [bufferString, List.length_take, bufferStringLength_eq]
  omega

lemma chunkContent_length (file : Bytes → Nat → UInt8) (c : Chunk) :
    (chunkContent file c).length = chunkLength c := by
  cases ht : c.chunkType with
  | mem =>
    simp only [chunkContent, chunkLength, ht]
    exact bufferString_length c.mem
  | file =>
    simp only [chunkContent, chunkLength, ht]
    exact fileBytes_length _ _ _ _

lemma Within.remaining_eq {c : Chunk} (h : Within c) :
    chunkRemainingLen c = chunkLength c - c.chunkOffset :=
  u32Sub_of_le h.offset h.short

/-- `chunk_remaining_len` counts the unsent bytes of a chunk. -/
lemma Within.remaining_unsent (file : Bytes → Nat → UInt8) {c : Chunk} (h : Within c) :
    chunkRemainingLen c = (unsentChunk file c).length := by
  rw [h.remaining_eq, unsentChunk, List.length_drop, chunkContent_length]

lemma chunkRemainingLen_eq (file : Bytes → Nat → UInt8) {c : Chunk} (h : ChunkOk c) :
    chunkRemainingLen c = (unsentChunk file c).length :=
  h.within.remaining_unsent file

lemma remainingTotal_cons (c : Chunk) (rest : List Chunk) :
    remainingTotal (c :: rest) = chunkRemainingLen c + remainingTotal rest := by
  rw [remainingTotal, remainingTotal, List.map_cons, List.sum_cons]

lemma remainingTotal_unsent (file : Bytes → Nat → UInt8) {active : List Chunk}
    (h : ∀ c ∈ active, Within c) : remainingTotal active = (unsent file active).length := by
  rw [remainingTotal, unsent, List.length_flatten, List.map_map]
  congr 1
  apply List.map_congr_left
  intro c hc
  exact (h c hc).remaining_unsent file

lemma remainingTotal_eq (file : Bytes → Nat → UInt8) {active : List Chunk}
    (h : ∀ c ∈ active, ChunkOk c) : remainingTotal active = (unsent file active).length :=
  remainingTotal_unsent file fun c hc => (h c hc).within

lemma Within.advance_eq {c : Chunk} (h : Within c) {n : Nat} (hn : n < chunkRemainingLen c) :
    c.chunkOffset + n < chunkLength c ∧ u32 (c.chunkOffset + n) = c.chunkOffset + n := by
  have hshort := h.short
  rw [h.remaining_eq] at hn
  exact ⟨by omega, u32_of_lt (by omega)⟩

/-- `chunkqueue_mark_written` drops all the chunks, or it stops inside one of
them, with the first byte of it that was not written in front. -/
theorem dropWritten_split (active : List Chunk) (len : Nat) (h : ∀ c ∈ active, Within c) :
    remainingTotal active ≤ len ∧
        dropWritten active len = (len - remainingTotal active, []) ∨
      ∃ done c rest n, active = done ++ c :: rest ∧ len = remainingTotal done + n ∧
        n < chunkRemainingLen c ∧
        dropWritten active len = (0, { c with chunkOffset := c.chunkOffset + n } :: rest) := by
  induction active generalizing len with
  | nil => exact Or.inl ⟨Nat.zero_le len, rfl⟩
  | cons c rest ih =>
    have hc := h c List.mem_cons_self
    rw [dropWritten, remainingTotal_cons]
    by_cases h0 : len = 0 ∧ chunkRemainingLen c > 0
    · rw [if_pos h0, h0.1]
      exact Or.inr ⟨[], c, rest, 0, rfl, rfl, h0.2, rfl⟩
    · rw [if_neg h0]
      by_cases h1 : len ≥ chunkRemainingLen c
      · rw [if_pos h1]
        rcases ih (len - chunkRemainingLen c) (fun d hd => h d (List.mem_cons_of_mem _ hd)) with
          ⟨hall, hdrop⟩ | ⟨done, d, rest', n, hsplit, hlen, hn, hdrop⟩
        · exact Or.inl ⟨by omega, by rw [hdrop, Nat.sub_sub]⟩
        · refine Or.inr ⟨c :: done, d, rest', n, by rw [hsplit, List.cons_append], ?_, hn, hdrop⟩
          rw [remainingTotal_cons]
          omega
      · have hlt : len < chunkRemainingLen c := Nat.lt_of_not_le h1
        rw [if_neg h1, (hc.advance_eq hlt).2]
        exact Or.inr ⟨[], c, rest, len, rfl, (Nat.zero_add len).symm, hlt, rfl⟩

lemma unsent_append (file : Bytes → Nat → UInt8) (done rest : List Chunk) :
    unsent file (done ++ rest) = unsent file done ++ unsent file rest := by
  simp [unsent]

/-- The unsent bytes lose a first part of the given length. -/
theorem dropWritten_unsent (file : Bytes → Nat → UInt8) (active : List Chunk) (len : Nat)
    (h : ∀ c ∈ active, Within c) :
    (dropWritten active len).1 = len - remainingTotal active ∧
      unsent file (dropWritten active len).2 = (unsent file active).drop len := by
  rcases dropWritten_split active len h with ⟨hall, hdrop⟩ | ⟨done, c, rest, n, hsplit, rfl, hn, hdrop⟩
  · rw [hdrop]
    rw [remainingTotal_unsent file h] at hall
    exact ⟨rfl, (List.drop_eq_nil_of_le hall).symm⟩
  · subst hsplit
    have hc : Within c := h c (by simp)
    have hdone := remainingTotal_unsent file fun d hd => h d (List.mem_append_left _ hd)
    have hall := remainingTotal_unsent file h
    have hremaining := hc.remaining_unsent file
    rw [unsent_append, unsent_cons] at hall
    rw [hdrop]
    constructor
    · change 0 = _
      rw [hall, List.length_append, List.length_append]
      omega
    · rw [unsent_append, hdone, List.drop_append, List.drop_eq_nil_of_le (by omega),
        Nat.add_sub_cancel_left, List.nil_append, unsent_cons, unsent_cons,
        List.drop_append_of_le_length (by omega)]
      congr 1
      change (chunkContent file c).drop (c.chunkOffset + n) = _
      rw [unsentChunk, List.drop_drop]

/-- Sending part of a chunk moves its offset and nothing else. -/
lemma chunkOk_advance {c : Chunk} {n : Nat} (h : ChunkOk c) (hn : n < chunkRemainingLen c) :
    ChunkOk { c with chunkOffset := c.chunkOffset + n } := by
  have hpart := (h.within.advance_eq hn).1
  refine ⟨Nat.le_of_lt hpart, h.mem, fun ht => ?_⟩
  obtain ⟨start, short, _, window, windowShort⟩ := h.file ht
  refine ⟨start, short, ?_, window, windowShort⟩
  have hkind : c.chunkType = .file := ht
  simp only [chunkLength, hkind] at hpart
  exact hpart

/-- `chunkqueue_mark_written` drops bytes from the front of the unsent ones. -/
theorem dropWritten_spec (file : Bytes → Nat → UInt8) (active : List Chunk) (len : Nat)
    (h : ∀ c ∈ active, ChunkOk c) :
    (dropWritten active len).1 = len - (unsent file active).length ∧
    (∀ c ∈ (dropWritten active len).2, ChunkOk c) ∧
    unsent file (dropWritten active len).2 = (unsent file active).drop len ∧
    (dropWritten active len).2.map chunkSegment <:+ active.map chunkSegment ∧
    (dropWritten active len).2.length ≤ active.length := by
  have hwithin : ∀ c ∈ active, Within c := fun c hc => (h c hc).within
  obtain ⟨hleft, hunsent⟩ := dropWritten_unsent file active len hwithin
  rw [remainingTotal_eq file h] at hleft
  refine ⟨hleft, ?_, hunsent, ?_⟩
  · rcases dropWritten_split active len hwithin with ⟨_, hdrop⟩ | ⟨done, c, rest, n, rfl, _, hn, hdrop⟩
    · rw [hdrop]
      exact fun c hc => absurd hc List.not_mem_nil
    · rw [hdrop]
      intro d hd
      rcases List.mem_cons.mp hd with rfl | hd
      · exact chunkOk_advance (h c (by simp)) hn
      · exact h d (List.mem_append_right _ (List.mem_cons_of_mem c hd))
  · rcases dropWritten_split active len hwithin with ⟨_, hdrop⟩ | ⟨done, c, rest, n, rfl, _, hn, hdrop⟩
    · rw [hdrop]
      exact ⟨List.nil_suffix, Nat.zero_le _⟩
    · rw [hdrop, List.map_append]
      exact ⟨List.suffix_append _ _, by simp⟩

theorem markWritten_unsent (file : Bytes → Nat → UInt8) {q : Chunkqueue} {n : Nat}
    (ok : QueueOk q) (offered : n ≤ (unsent file q.active).length) :
    (chunkqueueMarkWritten q n).1 = 0 ∧ QueueOk (chunkqueueMarkWritten q n).2 ∧
    unsent file (chunkqueueMarkWritten q n).2.active = (unsent file q.active).drop n ∧
    (chunkqueueMarkWritten q n).2.active.map chunkSegment <:+ q.active.map chunkSegment ∧
    (chunkqueueMarkWritten q n).2.active.length ≤ q.active.length := by
  obtain ⟨hleft, hactive, hidle⟩ := markWritten_spec n ok.idle
  obtain ⟨hcount, hok, hunsent, hsuffix, hlength⟩ := dropWritten_spec file q.active n ok.chunks
  refine ⟨by omega, ⟨?_, hidle⟩, ?_, ?_, ?_⟩
  · rw [hactive]
    exact hok
  · rw [hactive, hunsent]
  · rw [hactive]
    exact hsuffix
  · rw [hactive]
    exact hlength

theorem dropFinished_spec (file : Bytes → Nat → UInt8) (active : List Chunk)
    (h : ∀ c ∈ active, ChunkOk c) :
    (∀ c ∈ dropFinished active, ChunkOk c) ∧
    unsent file (dropFinished active) = unsent file active ∧
    (dropFinished active).map chunkSegment <:+ active.map chunkSegment ∧
    (dropFinished active).length ≤ active.length := by
  induction active with
  | nil => exact ⟨h, rfl, List.suffix_refl _, Nat.le_refl _⟩
  | cons c rest ih =>
    rw [dropFinished]
    by_cases hpos : chunkRemainingLen c > 0
    · rw [if_pos hpos]
      exact ⟨h, rfl, List.suffix_refl _, Nat.le_refl _⟩
    · rw [if_neg hpos]
      obtain ⟨hok, hunsent, hsuffix, hlength⟩ := ih (fun d hd => h d (List.mem_cons_of_mem _ hd))
      have hnil : unsentChunk file c = [] := by
        rw [chunkRemainingLen_eq file (h c List.mem_cons_self)] at hpos
        exact List.length_eq_zero_iff.mp (by omega)
      refine ⟨hok, ?_, hsuffix.trans (List.suffix_cons _ _), Nat.le_succ_of_le hlength⟩
      rw [hunsent, unsent_cons, hnil, List.nil_append]

lemma unsentChunk_mem (file : Bytes → Nat → UInt8) {c : Chunk} (ht : c.chunkType = .mem) :
    unsentChunk file c = (chunkString c).drop c.chunkOffset := by
  simp only [unsentChunk, chunkContent, ht]

/-- The `iovec` array covers a first part of the unsent bytes. It is empty only
where the chunk in front has nothing left. -/
theorem gatherChunks_spec (file : Bytes → Nat → UInt8) (active : List Chunk) (room : Nat)
    (h : ∀ c ∈ active, Within c) :
    ∃ pieces later, gatherChunks active room = .ok pieces ∧
      unsent file active = pieces.flatten ++ later ∧
      (pieces ≠ [] → pieces.flatten ≠ []) ∧
      (pieces = [] → 0 < room → ∀ c rest, active = c :: rest → c.chunkType = .mem →
        chunkRemainingLen c = 0) := by
  induction active generalizing room with
  | nil => exact ⟨[], [], rfl, rfl, fun h => absurd rfl h, fun _ _ c rest hnil => by cases hnil⟩
  | cons c rest ih =>
    have hc := h c List.mem_cons_self
    have hrest : ∀ d ∈ rest, Within d := fun d hd => h d (List.mem_cons_of_mem _ hd)
    by_cases hstop : c.chunkType ≠ .mem ∨ room = 0
    · refine ⟨[], unsent file (c :: rest), ?_, rfl, fun h => absurd rfl h, ?_⟩
      · rw [gatherChunks, if_pos hstop]
      · intro _ hroom d tail hsplit hmem
        cases hsplit
        rcases hstop with hfile | hzero
        · exact absurd hmem hfile
        · omega
    · have hmem : c.chunkType = .mem := by
        by_contra hne
        exact hstop (Or.inl hne)
      have hpiece := unsentChunk_mem file hmem
      have hlength := hc.remaining_unsent file
      have hoffset : c.chunkOffset ≤ bufferStringLength c.mem := by
        have hle := hc.offset
        simp only [chunkLength, hmem] at hle
        exact hle
      by_cases hpos : ((chunkString c).drop c.chunkOffset).length > 0
      · obtain ⟨pieces, later, hok, hunsent, _, _⟩ := ih (room - 1) hrest
        refine ⟨(chunkString c).drop c.chunkOffset :: pieces, later, ?_, ?_, ?_, ?_⟩
        · simp only [gatherChunks, if_neg hstop, if_pos hoffset, if_pos hpos, hok]
          rfl
        · rw [unsent_cons, hunsent, hpiece, List.flatten_cons, List.append_assoc]
        · intro _ hnil
          rw [List.flatten_cons, List.append_eq_nil_iff] at hnil
          rw [hnil.1] at hpos
          exact Nat.lt_irrefl 0 hpos
        · intro hnil
          cases hnil
      · obtain ⟨pieces, later, hok, hunsent, hsome, _⟩ := ih room hrest
        have hnil : (chunkString c).drop c.chunkOffset = [] :=
          List.length_eq_zero_iff.mp (by omega)
        refine ⟨pieces, later, ?_, ?_, hsome, ?_⟩
        · simp only [gatherChunks, if_neg hstop, if_pos hoffset, if_neg hpos, hok]
        · rw [unsent_cons, hunsent, hpiece, hnil, List.nil_append]
        · intro _ _ d tail hsplit _
          cases hsplit
          rw [hlength, hpiece, hnil]
          rfl

/-- What one turn of the write loop does to the queue `q`. -/
structure TurnOk (file : Bytes → Nat → UInt8) (q : Chunkqueue) (t : WriteTurn) : Prop where
  queue : QueueOk t.queue
  conserved : unsent file q.active = t.sent ++ unsent file t.queue.active
  segments : t.queue.active.map chunkSegment <:+ q.active.map chunkSegment
  length : t.queue.active.length ≤ q.active.length
  unfinished : t.code ≠ 0 → unsent file t.queue.active ≠ []
  progress : t.code = 0 → (unsent file q.active).length < 4294967296 →
    t.sent ≠ [] ∨ t.queue.active.length < q.active.length

lemma u32_le (n : Nat) : u32 n ≤ n := Nat.mod_le _ _

section Turns
variable {file : Bytes → Nat → UInt8} {q : Chunkqueue}

/-- A turn that sends nothing and leaves the queue, with more to come. -/
lemma TurnOk.kept (ok : QueueOk q) (pending : unsent file q.active ≠ []) {code : Int}
    (more : code ≠ 0) : TurnOk file q ⟨code, q, []⟩ :=
  ⟨ok, rfl, List.suffix_refl _, Nat.le_refl _, fun _ => pending, fun h => absurd h more⟩

/-- A turn in which the first `n` unsent bytes are sent and marked. -/
lemma TurnOk.marked (ok : QueueOk q) {n : Nat} (pos : 0 < n)
    (le : n ≤ (unsent file q.active).length) {code : Int}
    (more : code ≠ 0 → n < (unsent file q.active).length) :
    TurnOk file q ⟨code, (chunkqueueMarkWritten q n).2, (unsent file q.active).take n⟩ := by
  obtain ⟨_, hqueue, hdrop, hsuffix, hlength⟩ := markWritten_unsent file ok le
  refine ⟨hqueue, ?_, hsuffix, hlength, ?_, ?_⟩
  · rw [hdrop]
    exact (List.take_append_drop n _).symm
  · intro hcode hall
    have hmore := more hcode
    rw [hdrop, List.drop_eq_nil_iff] at hall
    omega
  · intro _ _
    left
    intro hsent
    have hlen := congrArg List.length hsent
    rw [List.length_take, List.length_nil] at hlen
    omega

/-- A turn that finds a finished chunk in front drops it. -/
lemma TurnOk.dropped (ok : QueueOk q) {c : Chunk} {rest : List Chunk} (head : q.active = c :: rest)
    (finished : chunkRemainingLen c = 0) :
    TurnOk file q ⟨0, chunkqueueRemoveFinishedChunk q, []⟩ := by
  obtain ⟨hactive, hidle⟩ := removeFinished_spec ok.idle
  obtain ⟨hok, hsame, hsuffix, hlength⟩ := dropFinished_spec file q.active ok.chunks
  have hrest : ∀ d ∈ rest, ChunkOk d := fun d hd => ok.chunks d (by
    rw [head]
    exact List.mem_cons_of_mem _ hd)
  obtain ⟨_, _, _, hshorter⟩ := dropFinished_spec file rest hrest
  rw [← hactive] at hok hsame hsuffix hlength
  refine ⟨⟨hok, hidle⟩, ?_, hsuffix, hlength, fun hcode => absurd rfl hcode, fun _ _ => ?_⟩
  · rw [hsame, List.nil_append]
  · right
    rw [hactive, head, dropFinished, if_neg (by omega), List.length_cons]
    omega

theorem writevMemChunk_spec (file : Bytes → Nat → UInt8) {q : Chunkqueue} {c : Chunk}
    {rest : List Chunk} (answer : WriteAnswer) (ok : QueueOk q) (head : q.active = c :: rest)
    (hmem : c.chunkType = .mem) :
    ∃ t, connectionWritevMemChunk q answer = .ok t ∧ TurnOk file q t := by
  obtain ⟨pieces, later, hgather, hunsent, hsome, hempty⟩ :=
    gatherChunks_spec file q.active 16 fun c hc => (ok.chunks c hc).within
  simp only [connectionWritevMemChunk, hgather, ok_bind]
  by_cases hnil : pieces = []
  · rw [if_pos hnil]
    exact ⟨_, rfl, TurnOk.dropped ok head (hempty hnil (by decide) c rest head hmem)⟩
  rw [if_neg hnil]
  have hpos : 0 < pieces.flatten.length := List.length_pos_iff.mpr (hsome hnil)
  have hpending : unsent file q.active ≠ [] := by
    rw [hunsent]
    exact List.append_ne_nil_of_left_ne_nil (hsome hnil) _
  have hle : pieces.flatten.length ≤ (unsent file q.active).length := by
    rw [hunsent, List.length_append]
    exact Nat.le_add_right _ _
  cases answer with
  | fail errno => exact ⟨_, rfl, TurnOk.kept ok hpending (by decide)⟩
  | accept bytes =>
    have hn : min bytes (min pieces.flatten.length maxTransfer) ≤ pieces.flatten.length := by
      omega
    have hsmall : min bytes (min pieces.flatten.length maxTransfer) ≤ maxTransfer := by omega
    have hcap : maxTransfer < 4294967296 := by decide
    dsimp only
    generalize min bytes (min pieces.flatten.length maxTransfer) = n at hn hsmall
    -- all was taken exactly when the count matches, unless 2^32 bytes were on offer
    have hmore : n ≠ u32 pieces.flatten.length → n < (unsent file q.active).length := by
      intro hne
      by_contra hge
      have heq : n = pieces.flatten.length := by omega
      rw [heq, u32_of_lt (by omega)] at hne
      exact hne rfl
    have hcode : (if n = u32 pieces.flatten.length then (0 : Int) else 1) ≠ 0 →
        n < (unsent file q.active).length := fun hcode => hmore fun heq => hcode (if_pos heq)
    by_cases hz : n > 0
    · obtain ⟨hleft, _⟩ := markWritten_unsent file ok (Nat.le_trans hn hle)
      have hsent : pieces.flatten.take n = (unsent file q.active).take n := by
        rw [hunsent, List.take_append_of_le_length hn]
      rw [if_pos hz, if_neg (not_not_intro hleft), hsent]
      exact ⟨_, rfl, TurnOk.marked ok hz (Nat.le_trans hn hle) hcode⟩
    · rw [if_neg hz]
      refine ⟨_, rfl, ok, rfl, List.suffix_refl _, Nat.le_refl _, fun _ => hpending, ?_⟩
      -- nothing taken is all that was offered only where 2^32 bytes were on offer
      intro hzero hshort
      have hless : ¬ n = u32 pieces.flatten.length := by
        rw [u32_of_lt (by omega)]
        omega
      exact absurd ((if_neg hless).symm.trans hzero) (by decide)

end Turns

/-- A chunk with another descriptor and another window: what is queued and what
is sent of it stay the same. -/
structure Rewindowed (c d : Chunk) : Prop where
  eq : d = { c with fileFd := d.fileFd, mmapStart := d.mmapStart, mmapOffset := d.mmapOffset,
                    mmapLen := d.mmapLen }

lemma Rewindowed.unsentChunk_eq {c d : Chunk} (h : Rewindowed c d)
    (file : Bytes → Nat → UInt8) : unsentChunk file d = unsentChunk file c := by
  rw [h.eq]
  rfl

lemma Rewindowed.segment_eq {c d : Chunk} (h : Rewindowed c d) :
    chunkSegment d = chunkSegment c := by
  rw [h.eq]
  rfl

lemma Rewindowed.chunkOk {c d : Chunk} (h : Rewindowed c d) (ok : ChunkOk c)
    (window : ∀ m, d.mmapStart = some m →
      m.path = cString c.filename.data ∧ m.offset = d.mmapOffset)
    (windowShort : d.mmapLen < 4294967296) : ChunkOk d := by
  rw [h.eq]
  refine ⟨ok.offset, ok.mem, fun ht => ?_⟩
  have hfile := ok.file ht
  exact ⟨hfile.start, hfile.short, hfile.pending, window, windowShort⟩

/-- The window the write goes through: it shows the file at `offset`. -/
structure WindowAt (c d : Chunk) (offset : Nat) : Prop where
  same : Rewindowed c d
  window : ∀ m, d.mmapStart = some m → m.path = cString c.filename.data ∧ m.offset = d.mmapOffset
  short : d.mmapLen < 4294967296
  reaches : d.mmapOffset ≤ offset ∧ offset < d.mmapOffset + d.mmapLen

lemma remapFileChunk_spec {c : Chunk} {offset fileEnd : Nat} (answer : Option Nat)
    (inside : offset < fileEnd) (short : fileEnd < 4294967296) :
    WindowAt c (remapFileChunk c offset fileEnd answer).1 offset := by
  have hpage : offset - offset % 4096 ≤ offset := Nat.sub_le _ _
  have hmod : offset % 4096 < 4096 := Nat.mod_lt _ (by decide)
  have hlen : ∃ len, (if u32 (offset - offset % 4096 + 262144) > fileEnd
      then u32Sub fileEnd (offset - offset % 4096) else 262144) = len ∧
      len < 4294967296 ∧ offset < offset - offset % 4096 + len := by
    by_cases hover : u32 (offset - offset % 4096 + 262144) > fileEnd
    · refine ⟨fileEnd - (offset - offset % 4096), ?_, by omega, by omega⟩
      rw [if_pos hover, u32Sub_of_le (by omega) short]
    · exact ⟨262144, if_neg hover, by decide, by omega⟩
  obtain ⟨len, hlen, hshort, hreach⟩ := hlen
  cases answer with
  | none =>
    simp only [remapFileChunk, hlen]
    refine ⟨⟨rfl⟩, fun m hm => ?_, hshort, hpage, hreach⟩
    cases hm
  | some addr =>
    simp only [remapFileChunk, hlen]
    refine ⟨⟨rfl⟩, fun m hm => ?_, hshort, hpage, hreach⟩
    cases hm
    exact ⟨rfl, rfl⟩

lemma keptWindow_spec {c : Chunk} {offset : Nat} (ok : FileOk c)
    (kept : needsRemap c offset = false) : WindowAt c c offset := by
  have hle := u32_le (c.mmapOffset + c.mmapLen)
  simp only [needsRemap, Bool.or_eq_false_iff, decide_eq_false_iff_not] at kept
  refine ⟨⟨rfl⟩, ok.window, ok.windowShort, by omega, by omega⟩

lemma openFileChunk_spec {c d : Chunk} {calls : List KernelCall} {answer : Option Nat}
    (h : openFileChunk c answer = some (d, calls)) : ∃ fd, d = { c with fileFd := fd } := by
  rw [openFileChunk] at h
  cases hfd : c.fileFd with
  | some fd =>
    simp only [hfd] at h
    cases h
    exact ⟨c.fileFd, rfl⟩
  | none =>
    simp only [hfd, Option.map_eq_some_iff] at h
    obtain ⟨fd, _, heq⟩ := h
    cases heq
    exact ⟨some fd, rfl⟩

/-- The write through a window of the chunk in front. -/
theorem sendMapped_spec {file : Bytes → Nat → UInt8} {q : Chunkqueue} {c d : Chunk}
    {rest : List Chunk} {m : Mapping} (answer : WriteAnswer) (ok : QueueOk q)
    (head : q.active = d :: rest) (hfile : c.chunkType = .file) (hc : FileOk c)
    (at_window : WindowAt c d c.chunkOffset) (mapped : d.mmapStart = some m) :
    ∃ t, sendMapped file q d m c.chunkOffset (c.fileLength - c.chunkOffset) answer = .ok t ∧
      TurnOk file q t := by
  obtain ⟨hpath, hoffset⟩ := at_window.window m mapped
  obtain ⟨hstart, hshow⟩ := at_window.reaches
  have hpending := hc.pending
  have havailable : u32Sub d.mmapLen (c.chunkOffset - d.mmapOffset) =
      d.mmapLen - (c.chunkOffset - d.mmapOffset) :=
    u32Sub_of_le (by omega) at_window.short
  generalize hgen : min (c.fileLength - c.chunkOffset)
    (d.mmapLen - (c.chunkOffset - d.mmapOffset)) = sendLen
  have hsend : 0 < sendLen ∧ sendLen ≤ c.fileLength - c.chunkOffset := by omega
  have hhead : unsentChunk file d =
      fileBytes file m.path c.chunkOffset (c.fileLength - c.chunkOffset) := by
    rw [at_window.same.unsentChunk_eq, unsentChunk]
    simp only [chunkContent, hfile]
    rw [fileBytes_drop, hc.start, Nat.zero_add, hpath]
  have hall : unsent file q.active = unsentChunk file d ++ unsent file rest := by
    rw [head, unsent_cons]
  have hlength : c.fileLength - c.chunkOffset ≤ (unsent file q.active).length := by
    rw [hall, hhead, List.length_append, fileBytes_length]
    omega
  have hsome : unsent file q.active ≠ [] := by
    intro hnil
    rw [hnil, List.length_nil] at hlength
    omega
  have hbytes : ∀ n, n ≤ sendLen → mappedBytes file m (c.chunkOffset - d.mmapOffset) n =
      (unsent file q.active).take n := by
    intro n hn
    have hpos : m.offset + (c.chunkOffset - d.mmapOffset) = c.chunkOffset := by omega
    rw [mappedBytes_eq, hpos, hall, List.take_append_of_le_length (by
      rw [hhead, fileBytes_length]
      omega), hhead, fileBytes_take file m.path (by omega)]
  simp only [sendMapped, if_pos hstart, havailable, hgen]
  cases answer with
  | fail errno => cases errno <;> exact ⟨_, rfl, TurnOk.kept ok hsome (by decide)⟩
  | accept bytes =>
    have hn : min bytes sendLen ≤ sendLen := Nat.min_le_right _ _
    refine ⟨_, rfl, ?_⟩
    generalize min bytes sendLen = n at hn ⊢
    by_cases hz : n > 0
    · simp only [if_pos hz, hbytes n hn]
      exact TurnOk.marked ok hz (by omega) fun hcode => by
        have hne : n ≠ sendLen := fun heq => hcode (if_pos heq)
        omega
    · have hz0 : n = 0 := by omega
      have hone : (if n = sendLen then (0 : Int) else 1) = 1 := if_neg (by omega)
      have hnone : mappedBytes file m (c.chunkOffset - d.mmapOffset) n = [] := by
        rw [hz0]
        rfl
      simp only [if_neg hz, hone, hnone]
      exact TurnOk.kept ok hsome (by decide)

theorem sendFileChunk_spec {file : Bytes → Nat → UInt8} {ans : SysAnswers} (same : ans.file = file)
    (turn : Nat) {q : Chunkqueue} {c : Chunk} {rest : List Chunk} (ok : QueueOk q)
    (head : q.active = c :: rest) (hfile : c.chunkType = .file) :
    ∃ t, connectionSendFileChunk ans turn q c rest = .ok t ∧ TurnOk file q t := by
  have hok := ok.chunks c (by rw [head]; exact List.mem_cons_self)
  have hc := hok.file hfile
  have hpending := hc.pending
  have hshort := hc.short
  have hoffset : u32 (c.fileOffset + c.chunkOffset) = c.chunkOffset := by
    rw [hc.start, Nat.zero_add]
    exact u32_of_lt (by omega)
  have hend : u32 (c.fileOffset + c.fileLength) = c.fileLength := by
    rw [hc.start, Nat.zero_add]
    exact u32_of_lt hshort
  have hlen : u32Sub c.fileLength c.chunkOffset = c.fileLength - c.chunkOffset :=
    u32Sub_of_le (by omega) hshort
  have hsome : unsent file q.active ≠ [] := by
    intro hnil
    have hremaining := chunkRemainingLen_eq file hok
    rw [head, unsent_cons, List.append_eq_nil_iff] at hnil
    rw [hnil.1, chunkRemainingLen, chunkLength, hfile, hlen, List.length_nil] at hremaining
    omega
  simp only [connectionSendFileChunk, hoffset, hend, hlen, if_pos (Nat.le_of_lt hpending),
    if_neg (show ¬ c.fileLength - c.chunkOffset = 0 by omega)]
  cases hopen : openFileChunk c (ans.openFile turn) with
  | none =>
    exact ⟨_, rfl, TurnOk.kept ok hsome (by decide)⟩
  | some opened =>
    obtain ⟨d, calls⟩ := opened
    obtain ⟨fd, rfl⟩ := openFileChunk_spec hopen
    have hd : FileOk { c with fileFd := fd } := ⟨hc.start, hshort, hpending, hc.window, hc.windowShort⟩
    -- the chunk in front, with a window that reaches the next unsent byte
    have hwindow : ∃ e moved, (if needsRemap { c with fileFd := fd } c.chunkOffset
        then remapFileChunk { c with fileFd := fd } c.chunkOffset c.fileLength (ans.mmap turn)
        else ({ c with fileFd := fd }, [])) = (e, moved) ∧
        WindowAt { c with fileFd := fd } e c.chunkOffset := by
      by_cases hremap : needsRemap { c with fileFd := fd } c.chunkOffset = true
      · exact ⟨_, _, if_pos hremap, remapFileChunk_spec _ hpending hshort⟩
      · rw [if_neg hremap]
        exact ⟨_, _, rfl, keptWindow_spec hd (by simpa using hremap)⟩
    obtain ⟨e, moved, heq, hat⟩ := hwindow
    have hrewindowed : Rewindowed c e := ⟨by rw [hat.same.eq]⟩
    have hqueue : QueueOk { q with active := e :: rest, calls := q.calls ++ calls ++ moved } := by
      refine ⟨?_, ok.idle⟩
      intro x hx
      rcases List.mem_cons.mp hx with rfl | hx
      · exact hrewindowed.chunkOk hok hat.window hat.short
      · exact ok.chunks x (by rw [head]; exact List.mem_cons_of_mem _ hx)
    have hunsent : unsent file (e :: rest) = unsent file q.active := by
      rw [head, unsent_cons, unsent_cons, hrewindowed.unsentChunk_eq]
    have hsegments : (e :: rest).map chunkSegment = q.active.map chunkSegment := by
      rw [head, List.map_cons, List.map_cons, hrewindowed.segment_eq]
    have hlength : (e :: rest).length = q.active.length := by rw [head]; rfl
    simp only [heq]
    cases hmapped : e.mmapStart with
    | none =>
      refine ⟨_, rfl, hqueue, hunsent.symm, ?_, ?_, ?_, fun h => by cases h⟩
      · exact hsegments ▸ List.suffix_rfl
      · exact Nat.le_of_eq hlength
      · intro _ hnil
        exact hsome (hunsent ▸ hnil)
    | some m =>
      rw [same]
      obtain ⟨t, ht, hturn⟩ := sendMapped_spec (ans.write turn) hqueue rfl
        (c := { c with fileFd := fd }) hfile hd hat hmapped
      refine ⟨t, ht, hturn.queue, ?_, ?_, ?_, hturn.unfinished, ?_⟩
      · rw [← hunsent]
        exact hturn.conserved
      · rw [← hsegments]
        exact hturn.segments
      · rw [← hlength]
        exact hturn.length
      · rw [← hunsent, ← hlength]
        exact hturn.progress

theorem handleWriteTurn_spec {file : Bytes → Nat → UInt8} {ans : SysAnswers}
    (same : ans.file = file) (turn : Nat) {q : Chunkqueue} (ok : QueueOk q)
    (pending : q.active ≠ []) :
    ∃ t, connectionHandleWriteTurn ans turn q = .ok t ∧ TurnOk file q t := by
  cases hactive : q.active with
  | nil => exact absurd hactive pending
  | cons c rest =>
    simp only [connectionHandleWriteTurn, hactive]
    cases hkind : c.chunkType with
    | mem => exact writevMemChunk_spec file _ ok hactive hkind
    | file => exact sendFileChunk_spec same turn ok hactive hkind

/-- What a call of `connection_handle_write` does to the queue `q`. -/
structure WriteOk (file : Bytes → Nat → UInt8) (q : Chunkqueue) (t : WriteTurn) : Prop where
  queue : QueueOk t.queue
  conserved : unsent file q.active = t.sent ++ unsent file t.queue.active
  segments : t.queue.active.map chunkSegment <:+ q.active.map chunkSegment
  finished : t.code = 0 → t.queue.active = []
  unfinished : t.code ≠ 0 → unsent file t.queue.active ≠ []

/-- The queues a run of write turns passes through, with the bytes sent by then. -/
inductive WriteRun (file : Bytes → Nat → UInt8) (start : Chunkqueue) : Chunkqueue → Bytes → Prop
    where
  | start : WriteRun file start start []
  | turn {q : Chunkqueue} {sent : Bytes} {ans : SysAnswers} {turn : Nat} {t : WriteTurn} :
      WriteRun file start q sent → ans.file = file → q.active ≠ [] →
      connectionHandleWriteTurn ans turn q = .ok t → WriteRun file start t.queue (sent ++ t.sent)

/-- The loop ends with everything sent, or with a turn that could not go on;
it runs on only past four gigabytes of unsent bytes, or past its fuel. -/
theorem handleWriteLoop_spec {file : Bytes → Nat → UInt8} {ans : SysAnswers}
    (same : ans.file = file) (fuel turn : Nat) {q : Chunkqueue} (sent : Bytes) (ok : QueueOk q) :
    (∃ t, handleWriteLoop ans fuel turn q sent = .ok { t with sent := sent ++ t.sent } ∧
      WriteOk file q t ∧ ∀ start before, WriteRun file start q before →
        WriteRun file start t.queue (before ++ t.sent)) ∨
    (handleWriteLoop ans fuel turn q sent = .error .outOfFuel ∧
      (4294967296 ≤ (unsent file q.active).length ∨
        fuel ≤ (unsent file q.active).length + q.active.length)) := by
  induction fuel generalizing turn q sent with
  | zero => exact Or.inr ⟨rfl, Or.inr (Nat.zero_le _)⟩
  | succ fuel ih =>
    rw [handleWriteLoop]
    by_cases hnil : q.active = []
    · refine Or.inl ⟨⟨0, q, []⟩, ?_, ⟨ok, rfl, List.suffix_refl _, fun _ => hnil, fun h => ?_⟩, ?_⟩
      · rw [if_pos hnil, List.append_nil]
      · exact absurd rfl h
      · intro start before run
        rw [List.append_nil]
        exact run
    · rw [if_neg hnil]
      obtain ⟨t, ht, hturn⟩ := handleWriteTurn_spec same turn ok hnil
      by_cases hcode : t.code = 0
      · have hloop : ∀ r, handleWriteLoop ans fuel (turn + 1) t.queue (sent ++ t.sent) = r →
            (connectionHandleWriteTurn ans turn q >>= fun t =>
              if t.code ≠ 0 then Except.ok { t with sent := sent ++ t.sent }
              else handleWriteLoop ans fuel (turn + 1) t.queue (sent ++ t.sent)) = r := by
          intro r hr
          rw [ht, ← hr]
          exact if_neg (not_not_intro hcode)
        rcases ih (turn + 1) (sent ++ t.sent) hturn.queue with ⟨r, hr, hok, hrun⟩ | ⟨hr, hwhy⟩
        · refine Or.inl ⟨⟨r.code, r.queue, t.sent ++ r.sent⟩, ?_,
            ⟨hok.queue, ?_, hok.segments.trans hturn.segments, hok.finished, hok.unfinished⟩, ?_⟩
          · rw [← List.append_assoc]
            exact hloop _ hr
          · rw [hturn.conserved, hok.conserved, List.append_assoc]
          · intro start before run
            rw [← List.append_assoc]
            exact hrun start _ (WriteRun.turn run same hnil ht)
        · refine Or.inr ⟨hloop _ hr, ?_⟩
          have hlength : (unsent file q.active).length =
              t.sent.length + (unsent file t.queue.active).length := by
            rw [hturn.conserved, List.length_append]
          by_cases hbig : 4294967296 ≤ (unsent file q.active).length
          · exact Or.inl hbig
          · right
            have hchunks := hturn.length
            rcases hturn.progress hcode (by omega) with hsent | hshorter
            · have hpos : 0 < t.sent.length := List.length_pos_iff.mpr hsent
              omega
            · omega
      · refine Or.inl ⟨t, ?_, ⟨hturn.queue, hturn.conserved, hturn.segments,
          fun h => absurd h hcode, hturn.unfinished⟩, ?_⟩
        · rw [ht]
          exact if_pos hcode
        · intro start before run
          exact WriteRun.turn run same hnil ht

theorem handleWrite_spec {file : Bytes → Nat → UInt8} {ans : SysAnswers} (same : ans.file = file)
    {q : Chunkqueue} (ok : QueueOk q) :
    (∃ t, connectionHandleWrite ans q = .ok t ∧ WriteOk file q t ∧
      ∀ start before, WriteRun file start q before →
        WriteRun file start t.queue (before ++ t.sent)) ∨
    (connectionHandleWrite ans q = .error .outOfFuel ∧
      4294967296 ≤ (unsent file q.active).length) := by
  rcases handleWriteLoop_spec same (remainingTotal q.active + q.active.length + 1) 0 [] ok with
    ⟨t, ht, hok, hrun⟩ | ⟨ht, hbig | hfuel⟩
  · exact Or.inl ⟨t, ht, hok, hrun⟩
  · exact Or.inr ⟨ht, hbig⟩
  · rw [remainingTotal_eq file ok.chunks] at hfuel
    omega

/-- Every turn of a run keeps the queue in order and the bytes in sequence. -/
theorem writeRun_conserves {file : Bytes → Nat → UInt8} {start q : Chunkqueue} {sent : Bytes}
    (ok : QueueOk start) (run : WriteRun file start q sent) :
    QueueOk q ∧ sent ++ unsent file q.active = unsent file start.active := by
  induction run with
  | start => exact ⟨ok, rfl⟩
  | @turn q sent ans turn t _ same pending ht ih =>
    obtain ⟨hok, hbytes⟩ := ih
    obtain ⟨r, hr, hturn⟩ := handleWriteTurn_spec same turn hok pending
    rw [ht] at hr
    cases hr
    refine ⟨hturn.queue, ?_⟩
    rw [List.append_assoc, ← hturn.conserved]
    exact hbytes

/-- One call that puts something into a queue. -/
inductive QueueOp where
  | appendBuffer (b : Buffer)
  | appendFile (filename : Buffer) (len : Fin 4294967296)
  | prependBuffer (b : Buffer)
  deriving DecidableEq, Repr

def queueOp (q : Chunkqueue) : QueueOp → Except Fault Chunkqueue
  | .appendBuffer b => chunkqueueAppendBuffer q b
  | .appendFile filename len => chunkqueueAppendFile q filename 0 len
  | .prependBuffer b => chunkqueuePrependBuffer q b

/-- The bytes of a file that `chunkqueue_append_file` queues. -/
def queuedFile (file : Bytes → Nat → UInt8) (filename : Buffer) (len : Nat) : Bytes :=
  if (cString filename.data).length = 0 then []
  else fileBytes file (cString (bufferString filename ++ [0])) 0 len

/-- What is queued once an operation has been added to what was queued before. -/
def queuedStep (file : Bytes → Nat → UInt8) (before : Bytes) : QueueOp → Bytes
  | .appendBuffer b => before ++ bufferString b
  | .appendFile filename len => before ++ queuedFile file filename len
  | .prependBuffer b => bufferString b ++ before

def queuedBytes (file : Bytes → Nat → UInt8) (ops : List QueueOp) : Bytes :=
  ops.foldl (queuedStep file) []

lemma memChunk_ok {c : Chunk} (hmem : c.chunkType = .mem) (hzero : c.chunkOffset = 0)
    (term : c.mem.Terminated) : ChunkOk c := by
  refine ⟨by omega, fun _ => term, fun hfile => ?_⟩
  rw [hmem] at hfile
  cases hfile

lemma unsentChunk_whole (file : Bytes → Nat → UInt8) {c : Chunk} (hmem : c.chunkType = .mem)
    (hzero : c.chunkOffset = 0) (term : c.mem.Terminated) : unsentChunk file c = c.mem.str := by
  rw [unsentChunk_mem file hmem, hzero, List.drop_zero, chunkString, term.take_stringLength]

lemma unsent_snoc (file : Bytes → Nat → UInt8) (active : List Chunk) (c : Chunk) :
    unsent file (active ++ [c]) = unsent file active ++ unsentChunk file c := by
  simp [unsent]

/-- A chunk set up by `chunkqueue_append_file`. -/
structure NewFile (filename : Buffer) (len : Nat) (c : Chunk) : Prop where
  kind : c.chunkType = .file
  unread : c.chunkOffset = 0
  start : c.fileOffset = 0
  length : c.fileLength = len
  unmapped : c.mmapStart = none
  mmapLen : c.mmapLen = 0
  name : bufferCopyBuffer bufferInit filename = .ok c.filename

lemma NewFile.chunkOk {filename : Buffer} {len : Nat} {c : Chunk} (h : NewFile filename len c)
    (pos : 0 < len) (short : len < 4294967296) : ChunkOk c := by
  refine ⟨by rw [h.unread]; exact Nat.zero_le _, fun hmem => ?_, fun _ => ⟨h.start, ?_, ?_, ?_, ?_⟩⟩
  · rw [h.kind] at hmem
    cases hmem
  · rw [h.length]
    exact short
  · rw [h.unread, h.length]
    exact pos
  · intro m hm
    rw [h.unmapped] at hm
    cases hm
  · rw [h.mmapLen]
    decide

lemma bufferCopyBuffer_data {src b : Buffer} (h : bufferCopyBuffer bufferInit src = .ok b) :
    b.data = bufferString src ++ [0] := by
  rw [bufferCopyBuffer] at h
  by_cases hnull : src.isNull = true
  · rw [if_pos hnull] at h
    cases h
  · rw [if_neg hnull] at h
    cases h
    rfl

lemma NewFile.unsent_eq {filename : Buffer} {len : Nat} {c : Chunk} (h : NewFile filename len c)
    (file : Bytes → Nat → UInt8) :
    unsentChunk file c = fileBytes file (cString (bufferString filename ++ [0])) 0 len := by
  simp only [unsentChunk, chunkContent, h.kind]
  rw [h.unread, List.drop_zero, h.start, h.length, bufferCopyBuffer_data h.name]

/-- Each operation adds its bytes at its end of the queue. -/
theorem queueOp_spec (file : Bytes → Nat → UInt8) {q p : Chunkqueue} (op : QueueOp)
    (ok : QueueOk q) (h : queueOp q op = .ok p) :
    QueueOk p ∧ unsent file p.active = queuedStep file (unsent file q.active) op := by
  cases op with
  | appendBuffer b =>
    obtain ⟨c, hactive, hidle, hmem, hzero, hterm, hstr, _⟩ := appendBuffer_spec ok.idle h
    refine ⟨⟨?_, hidle⟩, ?_⟩
    · intro d hd
      rw [hactive] at hd
      rcases List.mem_append.mp hd with hd | hd
      · exact ok.chunks d hd
      · rw [List.mem_singleton.mp hd]
        exact memChunk_ok hmem hzero hterm
    · rw [hactive, unsent_snoc, unsentChunk_whole file hmem hzero hterm, hstr]
      rfl
  | prependBuffer b =>
    obtain ⟨c, hactive, hidle, hmem, hzero, hterm, hstr, _⟩ := prependBuffer_spec ok.idle h
    refine ⟨⟨?_, hidle⟩, ?_⟩
    · intro d hd
      rw [hactive] at hd
      rcases List.mem_cons.mp hd with rfl | hd
      · exact memChunk_ok hmem hzero hterm
      · exact ok.chunks d hd
    · rw [hactive, unsent_cons, unsentChunk_whole file hmem hzero hterm, hstr]
      rfl
  | appendFile filename len =>
    rcases appendFile_spec ok.idle h with ⟨hidle, hskip, rfl⟩ | ⟨hidle, hqueued, hnew⟩
    · refine ⟨ok, ?_⟩
      have hnone : queuedFile file filename len = [] := by
        rw [queuedFile]
        rcases hskip with hempty | hzero
        · rw [if_pos hempty]
        · rw [hzero]
          split <;> rfl
      change _ = unsent file p.active ++ queuedFile file filename len
      rw [hnone, List.append_nil]
    · obtain ⟨c, hactive, hkind, hunread, hstart, hlen, _, hunmapped, _, hmmapLen, _, hname⟩ := hnew
      have hc : NewFile filename len c :=
        ⟨hkind, hunread, hstart, hlen, hunmapped, hmmapLen, hname⟩
      rw [not_or] at hqueued
      refine ⟨⟨?_, hidle⟩, ?_⟩
      · intro d hd
        rw [hactive] at hd
        rcases List.mem_append.mp hd with hd | hd
        · exact ok.chunks d hd
        · rw [List.mem_singleton.mp hd]
          exact hc.chunkOk (Nat.pos_of_ne_zero hqueued.2) len.isLt
      · rw [hactive, unsent_snoc, hc.unsent_eq file, queuedStep, queuedFile, if_neg hqueued.1]

lemma appendBuffer_queueOk {q p : Chunkqueue} {b : Buffer} (ok : QueueOk q)
    (h : chunkqueueAppendBuffer q b = .ok p) : QueueOk p :=
  (queueOp_spec (fun _ _ => 0) (.appendBuffer b) ok h).1

lemma prependBuffer_queueOk {q p : Chunkqueue} {b : Buffer} (ok : QueueOk q)
    (h : chunkqueuePrependBuffer q b = .ok p) : QueueOk p :=
  (queueOp_spec (fun _ _ => 0) (.prependBuffer b) ok h).1

lemma appendFile_queueOk {q p : Chunkqueue} {filename : Buffer} {len : Nat} (ok : QueueOk q)
    (short : len < 4294967296) (h : chunkqueueAppendFile q filename 0 len = .ok p) : QueueOk p :=
  (queueOp_spec (fun _ _ => 0) (.appendFile filename ⟨len, short⟩) ok h).1

theorem queueOps_spec (file : Bytes → Nat → UInt8) {q p : Chunkqueue} (ops : List QueueOp)
    (ok : QueueOk q) (built : ops.foldlM queueOp q = .ok p) :
    QueueOk p ∧ unsent file p.active = ops.foldl (queuedStep file) (unsent file q.active) := by
  induction ops generalizing q with
  | nil =>
    cases built
    exact ⟨ok, rfl⟩
  | cons op rest ih =>
    rw [List.foldlM_cons, bind_eq_ok] at built
    obtain ⟨m, hm, hrest⟩ := built
    obtain ⟨hok, hstep⟩ := queueOp_spec file op ok hm
    obtain ⟨hp, hall⟩ := ih hok hrest
    exact ⟨hp, by rw [hall, hstep]; rfl⟩

lemma chunkqueueInit_ok : QueueOk chunkqueueInit :=
  ⟨fun c hc => (by cases hc), chunkqueueInit_idleClean⟩

/-- Byte conservation on the write side. At every turn of every run of writes,
what was sent and what is unsent make up what was queued. A call either comes
back at such a point, with nothing left unsent if its result is 0, or has four
gigabytes to send. -/
theorem write_run_conserves (file : Bytes → Nat → UInt8) (ops : List QueueOp)
    {start q : Chunkqueue} {sent : Bytes} (built : ops.foldlM queueOp chunkqueueInit = .ok start)
    (run : WriteRun file start q sent) :
    sent ++ unsent file q.active = queuedBytes file ops ∧
    ∀ ans : SysAnswers, ans.file = file →
      (∃ t, connectionHandleWrite ans q = .ok t ∧
        WriteRun file start t.queue (sent ++ t.sent) ∧
        (t.code = 0 → unsent file t.queue.active = [])) ∨
      (connectionHandleWrite ans q = .error .outOfFuel ∧
        4294967296 ≤ (unsent file q.active).length) := by
  obtain ⟨hstart, hqueued⟩ := queueOps_spec file ops chunkqueueInit_ok built
  obtain ⟨hok, hbytes⟩ := writeRun_conserves hstart run
  refine ⟨by rw [hbytes, hqueued]; rfl, fun ans same => ?_⟩
  rcases handleWrite_spec same hok with ⟨t, ht, hwrite, hrun⟩ | hbig
  · refine Or.inl ⟨t, ht, hrun start sent run, fun hcode => ?_⟩
    rw [hwrite.finished hcode]
    rfl
  · exact Or.inr hbig

/-- A buffer and a file in front of one `writev` that takes a single byte. -/
theorem write_run_conserves_one_byte :
    ∃ start q, [QueueOp.appendBuffer (bufferCopyString bufferInit (asciiBytes "ab")),
        QueueOp.appendFile (bufferCopyString bufferInit (asciiBytes "f")) 3].foldlM queueOp
          chunkqueueInit = .ok start ∧
      WriteRun (fun _ i => i.toUInt8) start q (asciiBytes "a") ∧
      asciiBytes "a" ++ unsent (fun _ i => i.toUInt8) q.active =
        queuedBytes (fun _ i => i.toUInt8)
          [.appendBuffer (bufferCopyString bufferInit (asciiBytes "ab")),
            .appendFile (bufferCopyString bufferInit (asciiBytes "f")) 3] := by
  let ans : SysAnswers := { SysAnswers.failing with
    write := fun _ => .accept 1, file := fun _ i => i.toUInt8 }
  obtain ⟨start, built, hturn⟩ : ∃ start,
      [QueueOp.appendBuffer (bufferCopyString bufferInit (asciiBytes "ab")),
        QueueOp.appendFile (bufferCopyString bufferInit (asciiBytes "f")) 3].foldlM queueOp
          chunkqueueInit = .ok start ∧ start.active ≠ [] ∧
      ∃ t, connectionHandleWriteTurn ans 0 start = .ok t ∧ t.sent = asciiBytes "a" := by
    refine ⟨_, rfl, ?_, _, rfl, rfl⟩
    intro hnil
    cases hnil
  obtain ⟨pending, t, ht, hsent⟩ := hturn
  have run : WriteRun (fun _ i => i.toUInt8) start t.queue (asciiBytes "a") :=
    hsent ▸ @WriteRun.turn _ _ _ _ ans 0 _ WriteRun.start rfl pending ht
  exact ⟨start, t.queue, built, run, (write_run_conserves _ _ built run).1⟩

end WriteQueue
