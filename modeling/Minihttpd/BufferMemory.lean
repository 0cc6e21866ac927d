import Minihttpd.ByteBuffer
import Minihttpd.Library.MemoryBlocks
import Minihttpd.Library.SideBySide
import Mathlib.Logic.Function.Basic

/-!
# Buffers in memory

`buffer.cpp` once more, over the blocks that its buffers point to: what is read
or written lies inside a block or the call fails. `malloc` and `realloc` do not
run out of memory, and a new cell holds nothing until it is written to.
-/
namespace BufferMemory

open ByteBuffer MemoryBlocks FailingRun SideBySide

/-- `buffer`; a NULL pointer is none. -/
structure MemBuffer where
  ptr : Option (Block UInt8)
  usedBytes : Nat
  size : Nat
  deriving DecidableEq, Repr

def bufferInit : MemBuffer := ⟨none, 0, 0⟩

def bufferReset (_ : MemBuffer) : MemBuffer := ⟨none, 0, 0⟩

def bufferStringLength (b : MemBuffer) : Nat := if b.usedBytes > 0 then b.usedBytes - 1 else 0

def bufferRemainingBytes (b : MemBuffer) : Nat :=
  if b.usedBytes > 0 then u32Sub b.size b.usedBytes else b.size

def bufferIsEmpty (b : MemBuffer) : Bool := b.usedBytes == 0

/-- The old block is freed before the new one is allocated. -/
def bufferAllocSize (b : MemBuffer) (sizes : Nat) : MemBuffer :=
  let sizes := if sizes = 0 then 1 else sizes
  if b.size ≥ sizes then b
  else ⟨some (List.replicate (bufferAlignSize sizes) none), 0, bufferAlignSize sizes⟩

def memcpy (dest : Option (Block UInt8)) (offset : Nat) (src : Option (Block UInt8)) (n : Nat) :
    Except Fault (Block UInt8) :=
  match dest, src with
  | some block, some source => copyInto Fault.outOfBounds block offset source n
  | _, _ => .error .nullPointer

/-- `b->ptr[b->used_bytes-1]='\0'`. -/
def terminate (b : MemBuffer) : Except Fault MemBuffer :=
  match b.ptr with
  | none => .error .nullPointer
  | some block => do
    let block ← putAt Fault.outOfBounds block (u32Sub b.usedBytes 1) 0
    return { b with ptr := some block }

/-- The end of every function that writes: the bytes, `used_bytes`, and the NUL. -/
def writeBytes (b : MemBuffer) (offset : Nat) (src : Option (Block UInt8)) (n usedBytes : Nat) :
    Except Fault MemBuffer := do
  let block ← memcpy b.ptr offset src n
  terminate { b with ptr := some block, usedBytes := usedBytes }

def bufferCopyStringLength (b : MemBuffer) (src : Option (Block UInt8)) (length : Nat) :
    Except Fault MemBuffer :=
  if src.isNone then .error .assertion
  else writeBytes (bufferAllocSize b (u32 (length + 1))) 0 src length (u32 (length + 1))

/-- `realloc` to the aligned size. -/
def reallocTo (b : MemBuffer) (sizes : Nat) : MemBuffer :=
  { b with ptr := some (resize (b.ptr.getD []) (bufferAlignSize sizes)),
           size := bufferAlignSize sizes }

def bufferAppendPrepareSizes (b : MemBuffer) (sizes : Nat) : MemBuffer :=
  if bufferRemainingBytes b < sizes then reallocTo b (u32 (b.usedBytes + sizes)) else b

def bufferAppendStringLength (b : MemBuffer) (string : Option (Block UInt8)) (len : Nat) :
    Except Fault MemBuffer :=
  if string.isNone then .error .assertion
  else if len = 0 then .ok b
  else
    let b := bufferAppendPrepareSizes b (u32 (len + 1))
    if bufferStringLength b = 0 then writeBytes b 0 string len (u32 (len + 1))
    else writeBytes b (b.usedBytes - 1) string len (u32 (b.usedBytes + len))

/-- `src->used_bytes-1` is computed in 32 bits, for an empty source as well. -/
def bufferAppendBuffer (b src : MemBuffer) : Except Fault MemBuffer :=
  let b := bufferAppendPrepareSizes b src.usedBytes
  let n := u32Sub src.usedBytes 1
  if bufferIsEmpty b then writeBytes b 0 src.ptr n src.usedBytes
  else writeBytes b (b.usedBytes - 1) src.ptr n (u32 (b.usedBytes + n))

def bufferCopyBuffer (des src : MemBuffer) : Except Fault MemBuffer :=
  bufferCopyStringLength des src.ptr (bufferStringLength src)

def bufferStringSetLength (b : MemBuffer) (len : Nat) : Except Fault MemBuffer :=
  let b := if b.size < u32 (len + 1) then reallocTo b (u32 (len + 1)) else b
  terminate { b with usedBytes := u32 (len + 1) }

/-- The bytes a buffer is read for, its first `used_bytes - 1` ones. -/
def contents (b : MemBuffer) : Block UInt8 := (b.ptr.getD []).take (b.usedBytes - 1)

/-- The buffer stands for the byte string `text`. -/
structure Denotes (b : MemBuffer) (text : Bytes) : Prop where
  contents : contents b = text.map some
  allocated : (b.ptr.getD []).length = b.size
  room : b.usedBytes ≤ b.size
  ending : 0 < b.usedBytes → (b.ptr.getD [])[b.usedBytes - 1]? = some (some 0)

/-- A buffer in memory and the model that keeps the bytes in use only. -/
structure Stores (b : MemBuffer) (m : Buffer) : Prop where
  used : b.usedBytes = m.data.length
  size : b.size = m.size
  null : m.size = 0 → b.ptr = none ∧ m.data = []
  block : m.size ≠ 0 → ∃ block, b.ptr = some block ∧ block.length = m.size ∧ Holds block m.data

/-- What the functions keep of a buffer whose size fits 32 bits with its rounding. -/
structure Kept (m : Buffer) : Prop where
  terminated : m.Terminated
  written : m.data = [] → m.size = 0
  sized : m.size ≤ 4294967232

lemma init_stores : Stores bufferInit ByteBuffer.bufferInit :=
  ⟨rfl, rfl, fun _ => ⟨rfl, rfl⟩, fun h => absurd rfl h⟩

lemma init_kept : Kept ByteBuffer.bufferInit := ⟨bufferInit_terminated, fun _ => rfl, by decide⟩

section

variable {b : MemBuffer} {m : Buffer}

lemma Stores.length_le (h : Stores b m) : m.data.length ≤ m.size := by
  by_cases hsize : m.size = 0
  · rw [(h.null hsize).2]
    exact Nat.zero_le _
  · obtain ⟨block, _, hlength, hholds⟩ := h.block hsize
    exact hlength ▸ hholds.length_le

lemma Stores.denotes (h : Stores b m) (kept : Kept m) : Denotes b m.str := by
  by_cases hsize : m.size = 0
  · obtain ⟨hnull, hdata⟩ := h.null hsize
    have hused : b.usedBytes = 0 := by rw [h.used, hdata, List.length_nil]
    have hbytes : b.size = 0 := h.size.trans hsize
    refine ⟨?_, ?_, ?_, fun hpos => by omega⟩
    · rw [contents, hnull, Buffer.str, hdata]
      exact List.take_nil
    · rw [hnull, hbytes]
      rfl
    · omega
  · obtain ⟨block, hptr, hlength, hholds⟩ := h.block hsize
    have hsome : m.data ≠ [] := fun hnil => hsize (kept.written hnil)
    obtain hnil | hending := kept.terminated.ending
    · exact absurd hnil hsome
    · have hlast : b.usedBytes - 1 = m.str.length := by
        rw [h.used, hending, List.length_append, List.length_singleton, Nat.add_sub_cancel]
      rw [hending] at hholds
      refine ⟨?_, ?_, ?_, fun _ => ?_⟩
      · rw [contents, hptr, hlast]
        exact (hholds.shorten (List.prefix_append _ _)).take
      · rw [hptr, h.size]
        exact hlength
      · rw [h.used, h.size]
        exact h.length_le
      · obtain ⟨rest, hrest⟩ := hholds
        rw [hptr, hlast]
        change block[m.str.length]? = _
        rw [← hrest, List.map_append, List.append_assoc,
          List.getElem?_append_right (by rw [List.length_map]), List.length_map, Nat.sub_self]
        rfl

/-- The NUL goes behind the text. -/
lemma terminate_stores {block : Block UInt8} {text : Bytes} (hptr : b.ptr = some block)
    (hsize : block.length = b.size) (hholds : Holds block text)
    (used : b.usedBytes = text.length + 1) (fits : text.length + 1 ≤ b.size)
    (short : text.length + 1 < 4294967296) :
    ∃ after, terminate b = .ok after ∧ Stores after ⟨text ++ [0], b.size⟩ := by
  obtain ⟨final, hput, hfinal, hended⟩ := hholds.putAt Fault.outOfBounds 0 (by omega)
  have hindex : u32Sub b.usedBytes 1 = text.length := by
    rw [u32Sub_of_le (by omega) (by omega)]
    omega
  refine ⟨{ b with ptr := some final }, ?_, ?_, rfl, fun hzero => ?_, fun _ => ?_⟩
  · rw [terminate, hptr, hindex]
    dsimp only
    rw [hput]
    rfl
  · rw [used, List.length_append, List.length_singleton]
  · change b.size = 0 at hzero
    omega
  · exact ⟨final, rfl, hfinal.trans hsize, hended⟩

/-- Bytes that are copied behind the text of a block are then terminated. -/
lemma writeBytes_stores {block source : Block UInt8} {text piece : Bytes} {usedBytes : Nat}
    (hptr : b.ptr = some block) (hsize : block.length = b.size) (hholds : Holds block text)
    (hsource : Holds source piece) (fits : text.length + piece.length + 1 ≤ b.size)
    (short : text.length + piece.length + 1 < 4294967296)
    (used : usedBytes = text.length + piece.length + 1) :
    ∃ after, writeBytes b text.length (some source) piece.length usedBytes = .ok after ∧
      Stores after ⟨text ++ piece ++ [0], b.size⟩ := by
  obtain ⟨copied, hcopy, hcopied, hpiece⟩ :=
    hholds.copyInto Fault.outOfBounds hsource (by omega)
  have hlength : (text ++ piece).length = text.length + piece.length := List.length_append
  have hused : usedBytes = (text ++ piece).length + 1 := by omega
  have hfits : (text ++ piece).length + 1 ≤ b.size := by omega
  obtain ⟨after, hended, hstores⟩ := @terminate_stores ⟨some copied, usedBytes, b.size⟩ copied
    (text ++ piece) rfl (hcopied.trans hsize) hpiece hused hfits (by omega)
  refine ⟨after, ?_, hstores⟩
  have hmemcpy : memcpy b.ptr text.length (some source) piece.length = .ok copied := by
    rw [hptr]
    exact hcopy
  rw [writeBytes, hmemcpy, ok_bind]
  exact hended

/-- `buffer_alloc_size` leaves room, whatever the buffer held. -/
lemma allocSize_block (h : Stores b m) {sizes : Nat} (some_size : 0 < sizes)
    (fits : sizes ≤ 4294967232) :
    ∃ block, (bufferAllocSize b sizes).ptr = some block ∧
      block.length = (bufferAllocSize b sizes).size ∧ sizes ≤ (bufferAllocSize b sizes).size ∧
      (bufferAllocSize b sizes).size = (ByteBuffer.bufferAllocSize m sizes).size := by
  have hpos : ¬ sizes = 0 := by omega
  rw [bufferAllocSize, ByteBuffer.bufferAllocSize, if_neg hpos, h.size]
  by_cases hroom : m.size ≥ sizes
  · obtain ⟨block, hptr, hlength, _⟩ := h.block (by omega)
    rw [if_pos hroom, if_pos hroom]
    exact ⟨block, hptr, hlength.trans h.size.symm, by rw [h.size]; exact hroom, h.size⟩
  · rw [if_neg hroom, if_neg hroom]
    exact ⟨_, rfl, List.length_replicate, (le_bufferAlignSize fits).1, rfl⟩

lemma align_sized {sizes : Nat} (fits : sizes ≤ 4294967232) : bufferAlignSize sizes ≤ 4294967232 := by
  rw [bufferAlignSize, u32_of_lt (by omega)]
  omega

lemma allocSize_sized (sized : m.size ≤ 4294967232) {sizes : Nat} (some_size : 0 < sizes)
    (fits : sizes ≤ 4294967232) : (ByteBuffer.bufferAllocSize m sizes).size ≤ 4294967232 := by
  have hpos : ¬ sizes = 0 := by omega
  rw [ByteBuffer.bufferAllocSize, if_neg hpos]
  split
  · exact sized
  · exact align_sized fits

lemma kept_text {text : Bytes} {size : Nat} (fits : text.length + 1 ≤ 4294967232)
    (sized : size ≤ 4294967232) : Kept ⟨text ++ [0], size⟩ := by
  refine ⟨⟨?_, Or.inr ?_⟩, fun hnil => by simp at hnil, sized⟩
  · rw [List.length_append, List.length_singleton]
    omega
  · rw [Buffer.str, List.dropLast_concat]

/-- A copy leaves the copied bytes behind. -/
theorem copyStringLength_stores (h : Stores b m) (kept : Kept m) {source : Block UInt8}
    {text : Bytes} (hsource : Holds source text) (fits : text.length + 1 ≤ 4294967232) :
    ∃ after, bufferCopyStringLength b (some source) text.length = .ok after ∧
      Stores after (ByteBuffer.bufferCopyStringLength m text) ∧
      Kept (ByteBuffer.bufferCopyStringLength m text) := by
  have hneed : u32 (text.length + 1) = text.length + 1 := u32_of_lt (by omega)
  obtain ⟨block, hptr, hlength, hroom, hsize⟩ := allocSize_block h (Nat.succ_pos text.length) fits
  obtain ⟨after, hwrite, hstores⟩ := writeBytes_stores hptr hlength (holds_nil block) hsource
    (by rw [List.length_nil, Nat.zero_add]; exact hroom) (by rw [List.length_nil]; omega)
    (by rw [List.length_nil, Nat.zero_add])
  rw [hsize] at hstores
  refine ⟨after, ?_, ?_, ?_⟩
  · rw [bufferCopyStringLength, if_neg (by simp), hneed]
    exact hwrite
  · rw [ByteBuffer.bufferCopyStringLength, hneed]
    exact hstores
  · rw [ByteBuffer.bufferCopyStringLength, hneed]
    exact kept_text fits (allocSize_sized kept.sized (Nat.succ_pos _) fits)

lemma remaining_eq (h : Stores b m) (kept : Kept m) :
    bufferRemainingBytes b = m.size - m.data.length ∧
      ByteBuffer.bufferRemainingBytes m = m.size - m.data.length := by
  have hle := h.length_le
  have hsized := kept.sized
  have hused := kept.terminated.usedBytes_eq
  constructor
  · rw [bufferRemainingBytes, h.used, h.size]
    split
    · exact u32Sub_of_le hle (by omega)
    · omega
  · rw [ByteBuffer.bufferRemainingBytes, hused]
    split
    · exact u32Sub_of_le hle (by omega)
    · omega

lemma resized_block (h : Stores b m) {size : Nat} (fits : m.data.length ≤ size) :
    Holds (resize (b.ptr.getD []) size) m.data := by
  by_cases hsize : m.size = 0
  · rw [(h.null hsize).2]
    exact holds_nil _
  · obtain ⟨block, hptr, _, hholds⟩ := h.block hsize
    rw [hptr]
    exact hholds.resize fits

/-- Room has been made for `n` more bytes, and nothing has been lost. -/
structure Prepared (m : Buffer) (n : Nat) (p : MemBuffer) (q : Buffer) : Prop where
  used : p.usedBytes = m.data.length
  size : p.size = q.size
  data : q.data = m.data
  sized : q.size ≤ 4294967232
  room : m.data.length + n ≤ p.size
  block : ∃ block, p.ptr = some block ∧ block.length = p.size ∧ Holds block m.data

lemma prepare_stores (h : Stores b m) (kept : Kept m) {n : Nat} (some_bytes : 0 < n)
    (fits : m.data.length + n ≤ 4294967232) :
    Prepared m n (bufferAppendPrepareSizes b n) (ByteBuffer.bufferAppendPrepareSizes m n) := by
  obtain ⟨hremaining, hremaining'⟩ := remaining_eq h kept
  have hneed : u32 (m.data.length + n) = m.data.length + n := u32_of_lt (by omega)
  rw [bufferAppendPrepareSizes, ByteBuffer.bufferAppendPrepareSizes, hremaining, hremaining']
  by_cases hroom : m.size - m.data.length < n
  · have halign := (le_bufferAlignSize fits).1
    rw [if_pos hroom, if_pos hroom, h.used, kept.terminated.usedBytes_eq, hneed]
    exact ⟨h.used, rfl, rfl, align_sized fits, halign, _, rfl, resize_length _ _,
      resized_block h (by omega)⟩
  · obtain ⟨block, hptr, hlength, hholds⟩ := h.block (by omega)
    rw [if_neg hroom, if_neg hroom]
    refine ⟨h.used, h.size, rfl, kept.sized, ?_, block, hptr, hlength.trans h.size.symm, hholds⟩
    rw [h.size]
    omega

/-- Bytes are appended where the string of the buffer ends. -/
lemma Prepared.append {n : Nat} {p : MemBuffer} {q : Buffer} (h : Prepared m n p q)
    {source : Block UInt8} {piece : Bytes} {usedBytes : Nat}
    (hsource : Holds source piece) (room : m.str.length + piece.length + 1 ≤ m.data.length + n)
    (used : usedBytes = m.str.length + piece.length + 1) :
    ∃ after, writeBytes p m.str.length (some source) piece.length usedBytes = .ok after ∧
      Stores after ⟨m.str ++ piece ++ [0], q.size⟩ ∧ Kept ⟨m.str ++ piece ++ [0], q.size⟩ := by
  obtain ⟨block, hptr, hlength, hholds⟩ := h.block
  have hroom := h.room
  have hsized := h.sized
  rw [h.size] at hroom
  have hstr : Holds block m.str := hholds.shorten (List.dropLast_prefix _)
  obtain ⟨after, hwrite, hstores⟩ := writeBytes_stores hptr hlength hstr hsource
    (by rw [h.size]; omega) (by omega) used
  rw [h.size] at hstores
  refine ⟨after, hwrite, hstores, kept_text ?_ h.sized⟩
  rw [List.length_append]
  omega

/-- Appended bytes are the end of the string then. -/
theorem appendStringLength_stores (h : Stores b m) (kept : Kept m) {source : Block UInt8}
    {piece : Bytes} (hsource : Holds source piece)
    (fits : m.data.length + piece.length + 1 ≤ 4294967232) :
    ∃ after k, bufferAppendStringLength b (some source) piece.length = .ok after ∧
      ByteBuffer.bufferAppendStringLength m piece = .ok k ∧ Stores after k ∧ Kept k := by
  rw [bufferAppendStringLength, ByteBuffer.bufferAppendStringLength, if_neg (by simp)]
  by_cases hnone : piece.length = 0
  · rw [if_pos hnone, if_pos hnone]
    exact ⟨b, m, rfl, rfl, h, kept⟩
  · have hneed : u32 (piece.length + 1) = piece.length + 1 := u32_of_lt (by omega)
    have hprepared := prepare_stores h kept (Nat.succ_pos piece.length) (by omega)
    have hused := m.length_le
    rw [if_neg hnone, if_neg hnone, hneed]
    generalize bufferAppendPrepareSizes b (piece.length + 1) = p at hprepared ⊢
    generalize ByteBuffer.bufferAppendPrepareSizes m (piece.length + 1) = q at hprepared ⊢
    have hroom := hprepared.room
    rw [hprepared.size] at hroom
    have hlength : bufferStringLength p = m.str.length := by
      rw [bufferStringLength, hprepared.used, Buffer.str, List.length_dropLast]
      split <;> omega
    have hterminated : q.usedBytes = m.data.length := by
      rw [Buffer.usedBytes, hprepared.data]
      exact kept.terminated.usedBytes_eq
    have hlength' : ByteBuffer.bufferStringLength q = m.str.length := by
      rw [bufferStringLength_eq, hterminated, Buffer.str, List.length_dropLast]
    by_cases hempty : m.str.length = 0
    · obtain ⟨after, hwrite, hstores, hkept⟩ := hprepared.append hsource (by omega)
        (by omega : piece.length + 1 = m.str.length + piece.length + 1)
      rw [hempty] at hwrite
      rw [List.length_eq_zero_iff.mp hempty, List.nil_append] at hstores hkept
      dsimp only
      rw [if_pos (hlength.trans hempty), if_pos (hlength'.trans hempty)]
      exact ⟨after, _, hwrite, storeString_fits (by omega), hstores, hkept⟩
    · have hsome : m.data.length = m.str.length + 1 := by
        rw [Buffer.str, List.length_dropLast] at hempty ⊢
        omega
      obtain ⟨after, hwrite, hstores, hkept⟩ := hprepared.append hsource (by omega)
        (show u32 (p.usedBytes + piece.length) = m.str.length + piece.length + 1 by
          rw [hprepared.used, u32_of_lt (by omega)]
          omega)
      have hoffset : p.usedBytes - 1 = m.str.length := by
        rw [hprepared.used]
        omega
      have htake : q.data.take (q.usedBytes - 1) = m.str := by
        rw [hprepared.data, hterminated, hsome, Nat.add_sub_cancel]
        exact m.take_str
      dsimp only
      rw [if_neg (by omega), if_neg (by omega), hoffset, htake]
      exact ⟨after, _, hwrite, storeString_fits (by rw [List.length_append]; omega), hstores, hkept⟩

variable {src : MemBuffer} {sm : Buffer}

/-- A source that has been written to holds its string and the NUL. -/
lemma Stores.source (h : Stores src sm) (kept : Kept sm) (some_data : sm.data ≠ []) :
    sm.data = sm.str ++ [0] ∧ src.usedBytes = sm.str.length + 1 ∧
      ∃ block, src.ptr = some block ∧ Holds block sm.str := by
  have hending := kept.terminated.ending.resolve_left some_data
  have hsize : sm.size ≠ 0 := by
    intro hzero
    exact some_data (h.null hzero).2
  obtain ⟨block, hptr, _, hholds⟩ := h.block hsize
  refine ⟨hending, ?_, block, hptr, hholds.shorten (List.dropLast_prefix _)⟩
  have hlength := congrArg List.length hending
  rw [List.length_append, List.length_singleton] at hlength
  exact h.used.trans hlength

/-- A source that has not been written to has no block. -/
lemma Stores.unwritten (h : Stores src sm) (kept : Kept sm) (no_data : sm.data = []) :
    src.ptr = none ∧ src.usedBytes = 0 ∧ sm.size = 0 := by
  have hsize := kept.written no_data
  refine ⟨(h.null hsize).1, ?_, hsize⟩
  rw [h.used, no_data, List.length_nil]

theorem appendBuffer_stores (h : Stores b m) (kept : Kept m) (hs : Stores src sm) (keptS : Kept sm)
    (some_data : sm.data ≠ []) (fits : m.data.length + sm.str.length + 1 ≤ 4294967232) :
    ∃ after k, bufferAppendBuffer b src = .ok after ∧
      ByteBuffer.bufferAppendBuffer m sm = .ok k ∧ Stores after k ∧ Kept k ∧
      k.data = m.str ++ sm.str ++ [0] := by
  obtain ⟨hending, hused, source, hptr, hsource⟩ := hs.source keptS some_data
  have hused' : sm.usedBytes = sm.str.length + 1 := by
    rw [keptS.terminated.usedBytes_eq, ← hs.used, hused]
  have hcount : u32Sub (sm.str.length + 1) 1 = sm.str.length := by
    rw [u32Sub_of_le (by omega) (by omega), Nat.add_sub_cancel]
  have htakeS : sm.data.take (sm.str.length + 1 - 1) = sm.str := by
    rw [Nat.add_sub_cancel]
    exact sm.take_str
  have hprepared := prepare_stores h kept (Nat.succ_pos sm.str.length) (by omega)
  have hle := m.length_le
  rw [bufferAppendBuffer, ByteBuffer.bufferAppendBuffer, hused, hused', hcount, hptr, htakeS]
  generalize bufferAppendPrepareSizes b (sm.str.length + 1) = p at hprepared ⊢
  generalize ByteBuffer.bufferAppendPrepareSizes m (sm.str.length + 1) = q at hprepared ⊢
  have hroom := hprepared.room
  rw [hprepared.size] at hroom
  have hterminated : q.usedBytes = m.data.length := by
    rw [Buffer.usedBytes, hprepared.data]
    exact kept.terminated.usedBytes_eq
  rw [if_neg (Nat.succ_ne_zero _), bufferIsEmpty, ByteBuffer.bufferIsEmpty, hprepared.used,
    hterminated]
  by_cases hempty : m.data.length = 0
  · have hstr : m.str = [] := by
      rw [Buffer.str, List.length_eq_zero_iff.mp hempty]
      rfl
    have hzero : m.str.length = 0 := by rw [hstr, List.length_nil]
    obtain ⟨after, hwrite, hstores, hkept⟩ := hprepared.append hsource (by omega)
      (by omega : sm.str.length + 1 = m.str.length + sm.str.length + 1)
    rw [hzero] at hwrite
    rw [hstr, List.nil_append] at hstores hkept
    rw [if_pos (beq_iff_eq.mpr hempty), if_pos (beq_iff_eq.mpr hempty), hstr, List.nil_append]
    exact ⟨after, _, hwrite, storeString_fits (by omega), hstores, hkept, rfl⟩
  · have hsome : m.data.length = m.str.length + 1 := by
      rw [Buffer.str, List.length_dropLast]
      omega
    obtain ⟨after, hwrite, hstores, hkept⟩ := hprepared.append hsource (by omega)
      (show u32 (m.data.length + sm.str.length) = m.str.length + sm.str.length + 1 by
        rw [u32_of_lt (by omega)]
        omega)
    have hoffset : m.data.length - 1 = m.str.length := by omega
    have htake : q.data.take m.str.length = m.str := by
      rw [hprepared.data]
      exact m.take_str
    have hdata : ¬ (m.data.length == 0) = true := fun hzero => hempty (beq_iff_eq.mp hzero)
    rw [if_neg hdata, if_neg hdata, hoffset, htake]
    exact ⟨after, _, hwrite, storeString_fits (by rw [List.length_append]; omega), hstores, hkept,
      rfl⟩

/-- Four gigabytes are to be copied from NULL. -/
theorem appendBuffer_unwritten (hs : Stores src sm) (keptS : Kept sm) (no_data : sm.data = [])
    (b : MemBuffer) : ∃ e, bufferAppendBuffer b src = .error e := by
  obtain ⟨hnull, hused, _⟩ := hs.unwritten keptS no_data
  have hwrite : ∀ (p : MemBuffer) (offset n usedBytes : Nat),
      writeBytes p offset none n usedBytes = .error .nullPointer := by
    intro p offset n usedBytes
    rw [writeBytes, memcpy]
    · rfl
    · simp
  rw [bufferAppendBuffer, hnull]
  split
  · exact ⟨_, hwrite _ _ _ _⟩
  · exact ⟨_, hwrite _ _ _ _⟩

theorem copyBuffer_stores (h : Stores b m) (kept : Kept m) (hs : Stores src sm) (keptS : Kept sm)
    (some_data : sm.data ≠ []) :
    ∃ after k, bufferCopyBuffer b src = .ok after ∧ ByteBuffer.bufferCopyBuffer m sm = .ok k ∧
      Stores after k ∧ Kept k ∧ k.data = sm.str ++ [0] := by
  obtain ⟨hending, hused, source, hptr, hsource⟩ := hs.source keptS some_data
  have hlength : bufferStringLength src = sm.str.length := by
    rw [bufferStringLength, hused, if_pos (Nat.succ_pos _), Nat.add_sub_cancel]
  have hfits : sm.str.length + 1 ≤ 4294967232 := by
    have hle := hs.length_le
    have hsized := keptS.sized
    rw [← hs.used, hused] at hle
    omega
  have hnull : sm.isNull = false := by
    rw [Buffer.isNull, beq_eq_false_iff_ne]
    intro hzero
    exact some_data (hs.null hzero).2
  obtain ⟨after, hcopy, hstores, hkept⟩ := copyStringLength_stores h kept hsource hfits
  refine ⟨after, ByteBuffer.bufferCopyStringLength m sm.str, ?_, ?_, hstores, hkept, rfl⟩
  · rw [bufferCopyBuffer, hptr, hlength]
    exact hcopy
  · rw [ByteBuffer.bufferCopyBuffer, hnull, keptS.terminated.take_stringLength]
    rfl

/-- The assertion on the source fails. -/
theorem copyBuffer_unwritten (hs : Stores src sm) (keptS : Kept sm) (no_data : sm.data = [])
    (des : MemBuffer) : bufferCopyBuffer des src = .error .assertion := by
  rw [bufferCopyBuffer, (hs.unwritten keptS no_data).1]
  rfl

theorem stringSetLength_stores (h : Stores b m) (kept : Kept m) {len : Nat}
    (shorter : len ≤ m.str.length) :
    ∃ after, bufferStringSetLength b len = .ok after ∧
      Stores after (ByteBuffer.bufferStringSetLength m len) ∧
      Kept (ByteBuffer.bufferStringSetLength m len) ∧
      (ByteBuffer.bufferStringSetLength m len).data = m.str.take len ++ [0] := by
  have hle := h.length_le
  have hsized := kept.sized
  have hstr : m.str.length = m.data.length - 1 := by rw [Buffer.str, List.length_dropLast]
  have hneed : u32 (len + 1) = len + 1 := u32_of_lt (by omega)
  have hdata : (m.data ++ List.replicate (len - m.data.length) 0).take len = m.str.take len := by
    have hnone : len - m.data.length = 0 := by omega
    rw [hnone, List.replicate_zero, List.append_nil, ← m.take_str, List.take_take,
      Nat.min_eq_left shorter]
  have hlength : (m.str.take len).length = len := List.length_take_of_le shorter
  -- the string that is left, in a block with room for its terminator
  have hroom : ∀ size, (if m.size < len + 1 then bufferAlignSize (len + 1) else m.size) = size →
      ∃ block, (if b.size < len + 1 then reallocTo b (len + 1) else b).ptr = some block ∧
        block.length = size ∧ Holds block (m.str.take len) ∧ len + 1 ≤ size ∧
        size ≤ 4294967232 ∧ (if b.size < len + 1 then reallocTo b (len + 1) else b).size = size := by
    rintro size rfl
    rw [h.size]
    by_cases hsmall : m.size < len + 1
    · rw [if_pos hsmall, if_pos hsmall]
      have hzero : len = 0 := by omega
      rw [hzero, List.take_zero]
      exact ⟨_, rfl, resize_length _ _, holds_nil _, (le_bufferAlignSize (by omega)).1,
        align_sized (by omega), rfl⟩
    · obtain ⟨block, hptr, hblock, hholds⟩ := h.block (by omega)
      rw [if_neg hsmall, if_neg hsmall]
      exact ⟨block, hptr, hblock, hholds.shorten ((List.take_prefix _ _).trans
        (List.dropLast_prefix _)), by omega, hsized, h.size⟩
  obtain ⟨block, hptr, hblock, hholds, hfits, hbound, hsize⟩ := hroom _ rfl
  rw [bufferStringSetLength, ByteBuffer.bufferStringSetLength, hneed, hdata]
  generalize (if b.size < len + 1 then reallocTo b (len + 1) else b) = p at hptr hsize ⊢
  generalize (if m.size < len + 1 then bufferAlignSize (len + 1) else m.size) = size at *
  obtain ⟨after, hended, hstores⟩ := @terminate_stores { p with usedBytes := len + 1 } block
    (m.str.take len) hptr (hblock.trans hsize.symm) hholds (by rw [hlength])
    (by rw [hlength]; exact hsize.symm ▸ hfits) (by rw [hlength]; omega)
  have hkept := @kept_text (m.str.take len) size (by rw [hlength]; omega) hbound
  refine ⟨after, hended, ?_, hkept, rfl⟩
  rw [← hsize]
  exact hstores

end

end BufferMemory
