import Minihttpd.ChunkQueueLaws
import Minihttpd.HttpConnection

/-!
# The read queue

What one `connection_handle_read` does to the read queue, and what a run of
them keeps. The memory handed to `read` is large enough for the bytes asked
for, but not for the NUL that is written behind them: a read that fills an
empty chunk to the brim leaves `used_bytes` one above `size`.
-/
namespace ReadQueue

open ByteBuffer SystemCalls ChunkQueue ChunkQueueLaws ConnectionTypes HttpConnection FailingRun

def queueString (q : Chunkqueue) : Bytes := (q.active.map chunkString).flatten

/-- The bytes one step reads. -/
def readBytes (ans : SysAnswers) : Bytes :=
  match ans.read with
  | .fail _ => []
  | .data available => available.take ans.needReadBytes

/-- What holds of a read queue whether or not its terminators fit. -/
structure ReadShape (q : Chunkqueue) (received : Bytes) : Prop where
  mem : ∀ c ∈ q.active, c.chunkType = .mem
  terminated : ∀ c ∈ q.active, c.mem.Terminated
  sized : ∀ c ∈ q.active, c.mem.size < 4294967296
  content : queueString q = received
  idle : IdleClean q

/-- `used_bytes <= size` in every chunk. -/
def Fits (q : Chunkqueue) : Prop := ∀ c ∈ q.active, c.mem.usedBytes ≤ c.mem.size

/-- The allocation of the chunk a read of `need` bytes starts with, when it
starts an empty one. -/
def emptyCapacity (q : Chunkqueue) (need : Nat) : Option Nat :=
  match q.active.getLast? with
  | none => some (bufferAlignSize need)
  | some c =>
    if c.mem.usedBytes = 0 then
      some (if c.mem.size ≥ need then c.mem.size else bufferAlignSize need)
    else if c.mem.size - c.mem.usedBytes ≥ need then none
    else some (bufferAlignSize need)

/-- A read of `n` bytes that starts an empty chunk does not fill it. -/
def LeavesTerminatorRoom (q : Chunkqueue) (need n : Nat) : Prop :=
  ∀ capacity, emptyCapacity q need = some capacity → n < capacity

/-- The chunk at the end of the queue that `chunk_get_memory` leaves. -/
structure ReservedChunk (q : Chunkqueue) (need : Nat) (front : List Chunk) (c : Chunk) : Prop where
  active : (chunkGetMemory q need).1.active = front ++ [c]
  pointer : (chunkGetMemory q need).2 = some (bufferStringLength c.mem)
  room : Fits q → c.mem.usedBytes + need ≤ c.mem.size
  capacity : Fits q →
    emptyCapacity q need = if c.mem.usedBytes = 0 then some c.mem.size else none
  front : ∀ d ∈ front, d ∈ q.active

lemma bufferAllocSize_init {need : Nat} (low : 1024 ≤ need) :
    bufferAllocSize bufferInit need = ⟨[], bufferAlignSize need⟩ := by
  have h0 : ¬ need = 0 := by omega
  have h1 : ¬ bufferInit.size ≥ need := by
    change ¬ 0 ≥ need
    omega
  simp only [bufferAllocSize, if_neg h0, if_neg h1]

lemma chunkString_eq {c : Chunk} (h : c.mem.Terminated) : chunkString c = c.mem.str :=
  h.take_stringLength

lemma empty_usedBytes (size : Nat) : Buffer.usedBytes ⟨[], size⟩ = 0 := rfl

lemma empty_terminated (size : Nat) : Buffer.Terminated ⟨[], size⟩ :=
  ⟨Nat.zero_lt_succ _, Or.inl rfl⟩

lemma newMemory_spec {q : Chunkqueue} {need : Nat} (low : 1024 ≤ need)
    (clean : IdleClean q) :
    ∃ c, (chunkGetNewMemory q need).1.active = q.active ++ [c] ∧
      (chunkGetNewMemory q need).2 = some (bufferStringLength c.mem) ∧
      IdleClean (chunkGetNewMemory q need).1 ∧ c.chunkType = .mem ∧
      c.mem = ⟨[], bufferAlignSize need⟩ := by
  obtain ⟨hc, hactive, hidle⟩ := getUnused_spec clean
  refine ⟨{ (chunkqueueGetUnusedChunk q).1 with
    chunkType := .mem, mem := bufferAllocSize (chunkqueueGetUnusedChunk q).1.mem need },
    ?_, rfl, hidle, rfl, ?_⟩
  · simp only [chunkGetNewMemory, chunkqueueAppendChunk, hactive]
  · change bufferAllocSize (chunkqueueGetUnusedChunk q).1.mem need = _
    rw [hc.mem, bufferAllocSize_init low]

lemma queueString_concat {q : Chunkqueue} {front : List Chunk} {c : Chunk}
    (active : q.active = front ++ [c]) :
    queueString q = (front.map chunkString).flatten ++ chunkString c := by
  rw [queueString, active]
  simp

/-- One more memory chunk behind those of a queue. -/
lemma ReadShape.concat {q p : Chunkqueue} {text : Bytes} {c : Chunk} (shape : ReadShape q text)
    (active : p.active = q.active ++ [c]) (idle : IdleClean p) (mem : c.chunkType = .mem)
    (term : c.mem.Terminated) (sized : c.mem.size < 4294967296) :
    ReadShape p (text ++ c.mem.str) := by
  constructor
  · rw [active, List.forall_mem_append, List.forall_mem_singleton]
    exact ⟨shape.mem, mem⟩
  · rw [active, List.forall_mem_append, List.forall_mem_singleton]
    exact ⟨shape.terminated, term⟩
  · rw [active, List.forall_mem_append, List.forall_mem_singleton]
    exact ⟨shape.sized, sized⟩
  · rw [queueString_concat active, chunkString_eq term, ← shape.content]
    rfl
  · exact idle

/-- The chunks in front of the last one, and their bytes. -/
lemma ReadShape.front {q : Chunkqueue} {received : Bytes} {front : List Chunk} {c : Chunk}
    (shape : ReadShape q received) (split : q.active = front ++ [c]) :
    ∃ text, received = text ++ c.mem.str ∧ ReadShape { q with active := front } text := by
  have hc : c ∈ q.active := by rw [split]; simp
  have hfront : ∀ d ∈ front, d ∈ q.active := by
    intro d hd
    rw [split]
    exact List.mem_append_left _ hd
  refine ⟨(front.map chunkString).flatten, ?_, ?_⟩
  · rw [← shape.content, queueString_concat split, chunkString_eq (shape.terminated c hc)]
  · exact ⟨fun d hd => shape.mem d (hfront d hd), fun d hd => shape.terminated d (hfront d hd),
      fun d hd => shape.sized d (hfront d hd), rfl, shape.idle⟩

/-- The case of `chunk_get_memory` in which a chunk is taken from the idle stack. -/
lemma getMemory_new {q p : Chunkqueue} {received : Bytes} {need : Nat} (low : 1024 ≤ need)
    (high : need < 2147483648) (shape : ReadShape p received)
    (get : chunkGetMemory q need = chunkGetNewMemory p need)
    (capacity : Fits q → emptyCapacity q need = some (bufferAlignSize need))
    (members : ∀ d ∈ p.active, d ∈ q.active) :
    ∃ front c, ReservedChunk q need front c ∧
      ReadShape (chunkGetMemory q need).1 received := by
  obtain ⟨c, hactive, hpointer, hidle, htype, hmem⟩ := newMemory_spec low shape.idle
  have hbound := le_bufferAlignSize (show need ≤ 4294967232 by omega)
  have hused : c.mem.usedBytes = 0 := by rw [hmem]; rfl
  have hsize : c.mem.size = bufferAlignSize need := by rw [hmem]
  have hterm : c.mem.Terminated := hmem ▸ empty_terminated _
  have hstr : c.mem.str = [] := by rw [hmem]; rfl
  refine ⟨p.active, c, ⟨by rw [get, hactive], by rw [get, hpointer], ?_, ?_, members⟩, ?_⟩
  · intro _
    rw [hused, hsize]
    omega
  · intro fits
    rw [if_pos hused, hsize]
    exact capacity fits
  · have hshape := shape.concat hactive hidle htype hterm (by rw [hsize]; omega)
    rw [hstr, List.append_nil] at hshape
    rw [get]
    exact hshape

/-- The last chunk with its buffer replaced by one with `bytes` behind its string. -/
lemma ReadShape.extendLast {q : Chunkqueue} {received bytes : Bytes} {front : List Chunk}
    {c : Chunk} (shape : ReadShape q received) (split : q.active = front ++ [c]) {b : Buffer}
    (term : b.Terminated) (str : b.str = c.mem.str ++ bytes) (sized : b.size < 4294967296) :
    ReadShape { q with active := front ++ [{ c with mem := b }] } (received ++ bytes) := by
  have hc : c ∈ q.active := by rw [split]; simp
  obtain ⟨text, htext, hfront⟩ := shape.front split
  rw [htext, List.append_assoc, ← str]
  exact @ReadShape.concat _ { q with active := front ++ [{ c with mem := b }] } _
    { c with mem := b } hfront rfl shape.idle (shape.mem c hc) term sized

theorem getMemory_spec {q : Chunkqueue} {received : Bytes} {need : Nat} (low : 1024 ≤ need)
    (high : need < 2147483648) (shape : ReadShape q received) :
    ∃ front c, ReservedChunk q need front c ∧
      ReadShape (chunkGetMemory q need).1 received := by
  have hneed : ¬ need = 0 := by omega
  have halign := le_bufferAlignSize (show need ≤ 4294967232 by omega)
  cases hlast : q.active.getLast? with
  | none =>
    exact getMemory_new low high shape (by simp only [chunkGetMemory, if_neg hneed, hlast])
      (fun _ => by simp only [emptyCapacity, hlast]) (fun d hd => hd)
  | some c =>
    have hsplit : q.active = q.active.dropLast ++ [c] :=
      (List.dropLast_append_getLast? c hlast).symm
    have hc : c ∈ q.active := List.mem_of_getLast? hlast
    have htype := shape.mem c hc
    have hfront : ∀ d ∈ q.active.dropLast, d ∈ q.active := fun d hd => List.dropLast_subset _ hd
    have hsized := shape.sized c hc
    by_cases hempty : c.mem.usedBytes = 0
    · -- the last chunk is still empty: its buffer is allocated again if it is too small
      have hisEmpty : bufferIsEmpty c.mem = true := by simp [bufferIsEmpty, hempty]
      have hdata : c.mem.data = [] := by
        have hlen := (shape.terminated c hc).usedBytes_eq
        exact List.length_eq_zero_iff.mp (by omega)
      have hb : ∃ size, bufferAllocSize c.mem need = ⟨[], size⟩ ∧ need ≤ size ∧
          size < 4294967296 ∧ size = if c.mem.size ≥ need then c.mem.size
            else bufferAlignSize need := by
        by_cases hs : c.mem.size ≥ need
        · refine ⟨c.mem.size, ?_, hs, hsized, (if_pos hs).symm⟩
          simp only [bufferAllocSize, if_neg hneed, if_pos hs]
          rw [← hdata]
        · refine ⟨bufferAlignSize need, ?_, by omega, by omega, (if_neg hs).symm⟩
          simp only [bufferAllocSize, if_neg hneed, if_neg hs]
      obtain ⟨size, hb, hroom, hlt, hcap⟩ := hb
      have hremaining : bufferRemainingBytes ⟨[], size⟩ = size := rfl
      have hget : chunkGetMemory q need =
          ({ q with active := q.active.dropLast ++ [{ c with mem := ⟨[], size⟩ }] },
            some (bufferStringLength ⟨[], size⟩)) := by
        simp only [chunkGetMemory, if_neg hneed, hlast, if_pos htype, hisEmpty, if_true, hb,
          hremaining, if_pos hroom, ge_iff_le]
      refine ⟨q.active.dropLast, { c with mem := ⟨[], size⟩ },
        ⟨by rw [hget], by rw [hget], fun _ => ?_, fun _ => ?_, hfront⟩, ?_⟩
      · rw [empty_usedBytes]
        change 0 + need ≤ size
        omega
      · simp only [empty_usedBytes, if_true]
        simp only [emptyCapacity, hlast, if_pos hempty, ← hcap]
      · have hshape := shape.extendLast hsplit (empty_terminated size)
          (show Buffer.str ⟨[], size⟩ = c.mem.str ++ [] by simp [Buffer.str, hdata]) hlt
        rw [List.append_nil] at hshape
        rw [hget]
        exact hshape
    · have hisEmpty : bufferIsEmpty c.mem = false := by simp [bufferIsEmpty, hempty]
      have hsame : { q with active := q.active.dropLast ++ [c] } = q := by rw [← hsplit]
      by_cases hroom : bufferRemainingBytes c.mem ≥ need
      · have hget : chunkGetMemory q need = (q, some (bufferStringLength c.mem)) := by
          simp only [chunkGetMemory, if_neg hneed, hlast, if_pos htype, hisEmpty,
            Bool.false_eq_true, if_false, if_pos hroom, hsame]
        have hfits : Fits q → bufferRemainingBytes c.mem = c.mem.size - c.mem.usedBytes ∧
            c.mem.usedBytes ≤ c.mem.size := by
          intro fits
          have hle := fits c hc
          refine ⟨?_, hle⟩
          rw [bufferRemainingBytes, if_pos (by omega), u32Sub_of_le hle hsized]
        refine ⟨q.active.dropLast, c, ⟨by rw [hget]; exact hsplit, by rw [hget], ?_, ?_, hfront⟩,
          by rw [hget]; exact shape⟩
        · intro fits
          have h := hfits fits
          omega
        · intro fits
          have h := hfits fits
          have hle : c.mem.size - c.mem.usedBytes ≥ need := by omega
          rw [if_neg hempty]
          simp only [emptyCapacity, hlast, if_neg hempty, if_pos hle]
      · have hget : chunkGetMemory q need = chunkGetNewMemory q need := by
          simp only [chunkGetMemory, if_neg hneed, hlast, if_pos htype, hisEmpty,
            Bool.false_eq_true, if_false, if_neg hroom, hsame]
        refine getMemory_new low high shape hget ?_ (fun d hd => hd)
        intro fits
        have hle := fits c hc
        rw [bufferRemainingBytes, if_pos (by omega), u32Sub_of_le hle hsized] at hroom
        simp only [emptyCapacity, hlast, if_neg hempty, if_neg hroom]

/-- The buffer of the last chunk once `bytes` are committed to it. -/
def committed (b : Buffer) (bytes : Bytes) : Buffer := { b with data := b.str ++ bytes ++ [0] }

lemma commitMemory_eq {q : Chunkqueue} {front : List Chunk} {c : Chunk} {bytes : Bytes}
    (split : q.active = front ++ [c]) (htype : c.chunkType = .mem) (term : c.mem.Terminated)
    (some_bytes : bytes ≠ []) :
    chunkCommitMemory q bytes =
      .ok { q with active := front ++ [{ c with mem := committed c.mem bytes }] } := by
  have hlen : ¬ bytes.length = 0 := fun h => some_bytes (List.length_eq_zero_iff.mp h)
  have hlast : q.active.getLast? = some c := by rw [split]; simp
  have hdrop : q.active.dropLast = front := by rw [split]; simp
  simp only [chunkCommitMemory, if_neg hlen, hlast, if_pos htype, hdrop]
  by_cases hzero : bufferStringLength c.mem = 0
  · have hstr : c.mem.str = [] := by
      rw [term.stringLength_eq] at hzero
      exact List.length_eq_zero_iff.mp hzero
    simp only [if_pos hzero, committed, hstr, List.nil_append]
  · have htake : c.mem.data.take (c.mem.usedBytes - 1) = c.mem.str := by
      rw [← bufferStringLength_eq]
      exact term.take_stringLength
    simp only [if_neg hzero, htake, committed]

lemma committed_str (b : Buffer) (bytes : Bytes) : (committed b bytes).str = b.str ++ bytes := by
  simp only [committed, Buffer.str, List.dropLast_concat]

lemma committed_terminated {b : Buffer} {bytes : Bytes}
    (short : b.str.length + bytes.length + 1 < 4294967296) :
    (committed b bytes).Terminated := by
  refine ⟨?_, Or.inr ?_⟩
  · simp only [committed, List.length_append, List.length_singleton]
    exact short
  · rw [committed_str]
    rfl

/-- The NUL fits unless the bytes fill an empty buffer. -/
lemma committed_fits_iff {b : Buffer} {bytes : Bytes} {need : Nat} (term : b.Terminated)
    (short : b.str.length + bytes.length + 1 < 4294967296) (room : b.usedBytes + need ≤ b.size)
    (len : bytes.length ≤ need) :
    (committed b bytes).usedBytes ≤ (committed b bytes).size ↔
      (b.usedBytes = 0 → bytes.length < b.size) := by
  have hused := (committed_terminated short).usedBytes_eq
  have hdata : (committed b bytes).data.length = b.str.length + bytes.length + 1 := by
    simp only [committed, List.length_append, List.length_singleton]
  have hsize : (committed b bytes).size = b.size := rfl
  have hstr : b.str.length = b.usedBytes - 1 := by
    rw [← term.stringLength_eq, bufferStringLength_eq]
  rw [hused, hdata, hsize]
  constructor
  · intro h hzero
    omega
  · intro h
    by_cases hzero : b.usedBytes = 0
    · have := h hzero
      omega
    · omega

lemma chunkString_length_le {q : Chunkqueue} {received : Bytes} (shape : ReadShape q received)
    {c : Chunk} (hc : c ∈ q.active) : (chunkString c).length ≤ received.length := by
  rw [← shape.content, queueString]
  exact (List.sublist_flatten_of_mem (List.mem_map_of_mem hc)).length_le

section Reserved
variable {q : Chunkqueue} {need : Nat} {front : List Chunk} {c : Chunk}

lemma ReservedChunk.roomFor_iff (reserved : ReservedChunk q need front c) (fits : Fits q)
    (n : Nat) :
    LeavesTerminatorRoom q need n ↔ (c.mem.usedBytes = 0 → n < c.mem.size) := by
  rw [LeavesTerminatorRoom, reserved.capacity fits]
  constructor
  · intro h hused
    exact h _ (if_pos hused)
  · intro h capacity hcap
    by_cases hused : c.mem.usedBytes = 0
    · rw [if_pos hused] at hcap
      cases hcap
      exact h hused
    · rw [if_neg hused] at hcap
      cases hcap

/-- Only the terminator of the last chunk is in question. -/
lemma ReservedChunk.fits_iff (reserved : ReservedChunk q need front c) (fits : Fits q)
    {p : Chunkqueue} {d : Chunk} (active : p.active = front ++ [d]) :
    Fits p ↔ d.mem.usedBytes ≤ d.mem.size := by
  rw [Fits, active, List.forall_mem_append, List.forall_mem_singleton]
  exact and_iff_right fun b hb => fits b (reserved.front b hb)

/-- The queue of `chunk_get_memory` stays where nothing is read, and gets the
bytes into its last chunk otherwise. -/
lemma handleRead_queue {conn : Connection} (ans : SysAnswers)
    (reserved : ReservedChunk conn.readqueue ans.needReadBytes front c)
    (htype : c.chunkType = .mem) (term : c.mem.Terminated) :
    ∃ code after, connectionHandleRead ans conn = .ok (code, after, readBytes ans) ∧
      after.readqueue =
        if readBytes ans = [] then (chunkGetMemory conn.readqueue ans.needReadBytes).1
        else { (chunkGetMemory conn.readqueue ans.needReadBytes).1 with
          active := front ++ [{ c with mem := committed c.mem (readBytes ans) }] } := by
  have hpair : chunkGetMemory conn.readqueue ans.needReadBytes =
      ((chunkGetMemory conn.readqueue ans.needReadBytes).1, some (bufferStringLength c.mem)) := by
    rw [← reserved.pointer]
  rw [connectionHandleRead, hpair]
  cases hread : ans.read with
  | fail errno =>
    have hnil : readBytes ans = [] := by simp only [readBytes, hread]
    rw [hnil, if_pos rfl]
    cases errno <;> exact ⟨_, _, rfl, rfl⟩
  | data available =>
    have hbytes : readBytes ans = available.take ans.needReadBytes := by
      simp only [readBytes, hread]
    by_cases hnil : available.take ans.needReadBytes = []
    · rw [hbytes, if_pos hnil]
      simp only [hnil, if_true]
      exact ⟨_, _, rfl, rfl⟩
    · have hcommit := commitMemory_eq reserved.active htype term hnil
      rw [hbytes, if_neg hnil]
      simp only [if_neg hnil, hcommit]
      exact ⟨_, _, rfl, rfl⟩

end Reserved

lemma readBytes_le_need (ans : SysAnswers) : (readBytes ans).length ≤ ans.needReadBytes := by
  rw [readBytes]
  split
  · exact Nat.zero_le _
  · exact List.length_take_le _ _

/-- One step: it returns, it appends the bytes read, and the terminators fit
afterwards exactly if the read leaves room for its own. -/
theorem handleRead_spec {conn : Connection} {received : Bytes} (ans : SysAnswers)
    (shape : ReadShape conn.readqueue received)
    (total : received.length + (readBytes ans).length + 1 < 4294967296) :
    ∃ code after, connectionHandleRead ans conn = .ok (code, after, readBytes ans) ∧
      ReadShape after.readqueue (received ++ readBytes ans) ∧
      (Fits conn.readqueue → (Fits after.readqueue ↔
        LeavesTerminatorRoom conn.readqueue ans.needReadBytes (readBytes ans).length)) := by
  obtain ⟨low, high⟩ := needReadBytes_bounds ans
  obtain ⟨front, c, reserved, hshape⟩ := getMemory_spec low high shape
  have hc : c ∈ (chunkGetMemory conn.readqueue ans.needReadBytes).1.active := by
    rw [reserved.active]
    simp
  have hterm := hshape.terminated c hc
  obtain ⟨code, after, hok, hqueue⟩ := handleRead_queue ans reserved (hshape.mem c hc) hterm
  refine ⟨code, after, hok, ?_⟩
  by_cases hnil : readBytes ans = []
  · rw [if_pos hnil] at hqueue
    rw [hnil, List.append_nil, hqueue]
    refine ⟨hshape, fun fits => ?_⟩
    have hroom := reserved.room fits
    rw [reserved.fits_iff fits reserved.active, reserved.roomFor_iff fits, List.length_nil]
    omega
  · have hstr : c.mem.str.length ≤ received.length := by
      rw [← chunkString_eq hterm]
      exact chunkString_length_le hshape hc
    have hshort : c.mem.str.length + (readBytes ans).length + 1 < 4294967296 := by omega
    rw [if_neg hnil] at hqueue
    rw [hqueue]
    refine ⟨?_, fun fits => ?_⟩
    · exact hshape.extendLast reserved.active (committed_terminated hshort) (committed_str _ _)
        (hshape.sized c hc)
    · rw [reserved.fits_iff fits rfl, reserved.roomFor_iff fits]
      exact committed_fits_iff hterm hshort (reserved.room fits) (readBytes_le_need ans)

/-- Which fields a read writes, and what its result says of the bytes. -/
theorem handleRead_result {ans : SysAnswers} {conn after : Connection} {code : Int}
    {bytes : Bytes} (h : connectionHandleRead ans conn = .ok (code, after, bytes)) :
    after = { conn with readqueue := after.readqueue, readable := after.readable } ∧
    (bytes = [] ∧ (code = -1 ∨ code = -2 ∨ code = 0) ∨ bytes ≠ [] ∧ code = bytes.length) := by
  rw [connectionHandleRead] at h
  cases hget : chunkGetMemory conn.readqueue ans.needReadBytes with
  | mk readqueue pointer =>
    rw [hget] at h
    cases pointer with
    | none => cases h
    | some position =>
      cases hread : ans.read with
      | fail errno =>
        simp only [hread] at h
        cases errno <;> cases h <;> simp
      | data available =>
        simp only [hread] at h
        by_cases hnil : available.take ans.needReadBytes = []
        · rw [if_pos hnil] at h
          cases h
          simp
        · rw [if_neg hnil] at h
          obtain ⟨committed, _, heq⟩ := bind_eq_ok.mp h
          cases heq
          exact ⟨rfl, Or.inr ⟨hnil, rfl⟩⟩

def handleReadStep (conn : Connection) (ans : SysAnswers) : Except Fault Connection :=
  (connectionHandleRead ans conn).map fun r => r.2.1

/-- The memory handed to `read` lies inside the allocation of the last chunk. -/
def SpanInside (q : Chunkqueue) (need : Nat) : Prop :=
  ∃ c position, (chunkGetMemory q need).1.active.getLast? = some c ∧
    (chunkGetMemory q need).2 = some position ∧ position + need ≤ c.mem.size

/-- What a step from `before` to `after` promises, `received` being all the
bytes read by then. -/
structure ReadSafe (before after : Connection) (need : Nat) (received : Bytes) : Prop where
  span : SpanInside before.readqueue need
  fits : Fits after.readqueue
  noWrap : ∀ c ∈ after.readqueue.active, c.mem.usedBytes + bufferRemainingBytes c.mem = c.mem.size
  content : queueString after.readqueue = received

lemma handleReadStep_eq {conn after : Connection} {ans : SysAnswers} {code : Int} {bytes : Bytes}
    (h : connectionHandleRead ans conn = .ok (code, after, bytes)) :
    handleReadStep conn ans = .ok after := by
  rw [handleReadStep, h]
  rfl

lemma setDefault_shape : ReadShape connectionSetDefault.readqueue [] := by
  refine ⟨?_, ?_, ?_, rfl, chunkqueueInit_idleClean⟩ <;> intro c hc <;> cases hc

/-- Every run of reads returns, whether or not its terminators fit. -/
theorem readRun_shape (answers : List SysAnswers)
    (total : (answers.flatMap readBytes).length < 2147483648) :
    ∃ conn, answers.foldlM handleReadStep connectionSetDefault = .ok conn ∧
      ReadShape conn.readqueue (answers.flatMap readBytes) := by
  induction answers using List.reverseRecOn with
  | nil => exact ⟨connectionSetDefault, rfl, setDefault_shape⟩
  | append_singleton done ans ih =>
    simp only [List.flatMap_append, List.flatMap_singleton, List.length_append] at total ⊢
    obtain ⟨conn, hrun, shape⟩ := ih (by omega)
    obtain ⟨code, after, hok, hshape, _⟩ := handleRead_spec ans shape (by omega)
    exact ⟨after, foldlM_concat_eq_ok hrun (handleReadStep_eq hok), hshape⟩

lemma fits_noWrap {q : Chunkqueue} {received : Bytes} (shape : ReadShape q received)
    (fits : Fits q) {c : Chunk} (hc : c ∈ q.active) :
    c.mem.usedBytes + bufferRemainingBytes c.mem = c.mem.size := by
  have hle := fits c hc
  rw [bufferRemainingBytes]
  by_cases hused : c.mem.usedBytes > 0
  · rw [if_pos hused, u32Sub_of_le hle (shape.sized c hc)]
    omega
  · rw [if_neg hused]
    omega

lemma spanInside_of_fits {q : Chunkqueue} {received : Bytes} {need : Nat} (low : 1024 ≤ need)
    (high : need < 2147483648) (shape : ReadShape q received) (fits : Fits q) :
    SpanInside q need := by
  obtain ⟨front, c, reserved, _⟩ := getMemory_spec low high shape
  refine ⟨c, bufferStringLength c.mem, ?_, reserved.pointer, ?_⟩
  · rw [reserved.active]
    simp
  · have hroom := reserved.room fits
    rw [bufferStringLength_eq]
    omega

/-- One step is safe exactly when it leaves room for its NUL. -/
theorem handleRead_safe_iff {before : Connection} {received : Bytes} (ans : SysAnswers)
    (shape : ReadShape before.readqueue received) (fits : Fits before.readqueue)
    (total : received.length + (readBytes ans).length < 2147483648) :
    (∃ code after, connectionHandleRead ans before = .ok (code, after, readBytes ans) ∧
      ReadSafe before after ans.needReadBytes (received ++ readBytes ans)) ↔
    LeavesTerminatorRoom before.readqueue ans.needReadBytes (readBytes ans).length := by
  obtain ⟨code, after, hok, hshape, hiff⟩ := handleRead_spec ans shape (by omega)
  constructor
  · rintro ⟨code', after', hok', safe⟩
    rw [hok] at hok'
    cases hok'
    exact (hiff fits).mp safe.fits
  · intro room
    have hafter := (hiff fits).mpr room
    obtain ⟨low, high⟩ := needReadBytes_bounds ans
    exact ⟨code, after, hok, spanInside_of_fits low high shape fits, hafter,
      fun c hc => fits_noWrap hshape hafter hc, hshape.content⟩

/-- The read queue of a fresh connection. Over any run of reads with fewer than
2^31 bytes in all, every step hands out memory inside its allocation, keeps
`used_bytes <= size` and appends exactly the bytes read, if and only if no
step fills an empty chunk to the brim. -/
theorem read_run_safe_iff (answers : List SysAnswers)
    (total : (answers.flatMap readBytes).length < 2147483648) :
    EveryStep handleReadStep connectionSetDefault answers (fun before ans upto =>
      ∃ code after, connectionHandleRead ans before = .ok (code, after, readBytes ans) ∧
        ReadSafe before after ans.needReadBytes (upto.flatMap readBytes)) ↔
    EveryStep handleReadStep connectionSetDefault answers (fun before ans _ =>
      LeavesTerminatorRoom before.readqueue ans.needReadBytes (readBytes ans).length) := by
  have part : ∀ done ans rest, answers = done ++ ans :: rest →
      (done.flatMap readBytes).length + (readBytes ans).length < 2147483648 := by
    rintro done ans rest rfl
    simp only [List.flatMap_append, List.flatMap_cons, List.length_append] at total
    omega
  have shaped : ∀ done ans rest before, answers = done ++ ans :: rest →
      done.foldlM handleReadStep connectionSetDefault = .ok before →
      ReadShape before.readqueue (done.flatMap readBytes) := by
    intro done ans rest before split run
    have hpart := part done ans rest split
    obtain ⟨before', hrun, shape⟩ := readRun_shape done (by omega)
    rw [run] at hrun
    cases hrun
    exact shape
  refine everyStep_congr (fun conn => Fits conn.readqueue) ?_ ?_ ?_
  · intro c hc
    cases hc
  · intro done ans rest before split run fits
    rw [List.flatMap_append, List.flatMap_singleton]
    exact handleRead_safe_iff ans (shaped done ans rest before split run) fits
      (part done ans rest split)
  · rintro done ans rest before split run fits ⟨code, after, hok, safe⟩
    exact ⟨after, handleReadStep_eq hok, safe.fits⟩

/-- Three bytes of a first read stay far from the end of their allocation. -/
theorem read_run_safe_three :
    EveryStep handleReadStep connectionSetDefault
      [{ SysAnswers.failing with read := .data (asciiBytes "GET") }] (fun before ans upto =>
      ∃ code after, connectionHandleRead ans before = .ok (code, after, readBytes ans) ∧
        ReadSafe before after ans.needReadBytes (upto.flatMap readBytes)) := by
  refine (read_run_safe_iff _ (by decide)).mpr ?_
  intro done ans rest split
  cases done with
  | nil =>
    cases split
    refine ⟨connectionSetDefault, rfl, ?_⟩
    intro capacity hcap
    cases hcap
    decide
  | cons _ done => cases done <;> cases split

/-- FIONREAD has nothing to report, 1024 bytes are asked for and 1024 arrive:
the NUL behind them is written one past the end of the allocation. -/
theorem read_run_overflows : ¬ ∀ answers : List SysAnswers,
    (answers.flatMap readBytes).length < 2147483648 →
    EveryStep handleReadStep connectionSetDefault answers (fun before ans upto =>
      ∃ code after, connectionHandleRead ans before = .ok (code, after, readBytes ans) ∧
        ReadSafe before after ans.needReadBytes (upto.flatMap readBytes)) := by
  intro every
  have hlen : (readBytes { SysAnswers.failing with
      read := .data (List.replicate 1024 65) }).length = 1024 := by
    change ((List.replicate 1024 65).take 1024).length = 1024
    rw [List.length_take, List.length_replicate, Nat.min_self]
  obtain ⟨before, hrun, hsafe⟩ := every
    [{ SysAnswers.failing with read := .data (List.replicate 1024 65) }]
    (by rw [List.flatMap_singleton, hlen]; decide) [] _ [] rfl
  cases hrun
  rw [List.nil_append, List.flatMap_singleton] at hsafe
  have hroom := (handleRead_safe_iff _ setDefault_shape (fun c hc => by cases hc)
    (by rw [hlen]; decide)).mp hsafe
  have := hroom 1024 rfl
  omega

end ReadQueue
