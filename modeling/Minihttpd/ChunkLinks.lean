import Minihttpd.HttpConnection
import Minihttpd.Library.LinkedCells

/-!
# Chunk queues on the heap

`chunk.cpp` and the write side of `connection.cpp` once more, over the pointers
they work with: `first`, `last` and `idle`, and the `next` field of each chunk.
What the functions compute from the fields of a single chunk is taken from the
model of the queue as two lists.
-/
namespace ChunkLinks

open ByteBuffer SystemCalls ChunkQueue HttpConnection LinkedCells

abbrev Node := Cell Nat Chunk

/-- A queue with the heap of its chunks. `malloc` hands out `nextAddress` and
never an address it has handed out before, so that a pointer to a freed chunk
leads nowhere. -/
structure LinkedQueue where
  heap : Heap Nat Chunk
  nextAddress : Nat
  first : Option Nat
  last : Option Nat
  idle : Option Nat
  idleChunkSize : Nat
  calls : List KernelCall

namespace LinkedQueue

def load (q : LinkedQueue) (c : Nat) : Except Fault Node :=
  match q.heap c with
  | none => .error .nullPointer
  | some node => .ok node

def store (q : LinkedQueue) (c : Nat) (node : Node) : LinkedQueue :=
  { q with heap := Function.update q.heap c (some node) }

def free (q : LinkedQueue) (c : Nat) : LinkedQueue :=
  { q with heap := Function.update q.heap c none }

/-- No list without a cycle has as many chunks. -/
def loopFuel (q : LinkedQueue) : Nat := q.nextAddress + 1

end LinkedQueue

def chunkqueueInit : LinkedQueue := ⟨fun _ => none, 0, none, none, none, 0, []⟩

/-- The loop over `index` in `chunkqueue_get_unused_chunk`. -/
def allocateIdle : Nat → LinkedQueue → LinkedQueue
  | 0, q => q
  | n + 1, q =>
    allocateIdle n
      { q.store q.nextAddress ⟨chunkInitialize, q.idle⟩ with
        idle := some q.nextAddress, nextAddress := q.nextAddress + 1 }

def refillIdle (q : LinkedQueue) : Except Fault LinkedQueue :=
  if q.idleChunkSize = 0 then
    if q.idle = none then .ok (allocateIdle 4 { q with idleChunkSize := 4 })
    else .error .assertion
  else .ok q

def chunkqueueGetUnusedChunk (q : LinkedQueue) : Except Fault (Nat × LinkedQueue) := do
  let q ← refillIdle q
  match q.idle with
  | none => .error .assertion
  | some c =>
    let node ← q.load c
    return (c, { q with idle := node.next, idleChunkSize := q.idleChunkSize - 1 })

/-- `first`, `last` and the other chunks keep pointing to where they did: it is
for the callers to unlink the chunk. -/
def chunkqueuePushUnusedChunk (q : LinkedQueue) (c : Nat) : Except Fault LinkedQueue := do
  let node ← q.load c
  if q.idleChunkSize ≥ 4 then
    return { q.free c with calls := q.calls ++ chunkRelease node.value }
  else
    return { q.store c ⟨chunkReset node.value, q.idle⟩ with
      idle := some c, idleChunkSize := q.idleChunkSize + 1,
      calls := q.calls ++ chunkRelease node.value }

/-- The loop of `chunkqueue_reset`, which leaves `first` and `last` behind. -/
def resetLoop : Nat → LinkedQueue → Option Nat → Except Fault LinkedQueue
  | 0, _, _ => .error .outOfFuel
  | _ + 1, q, none => .ok q
  | fuel + 1, q, some c => do
    let node ← q.load c
    let q ← chunkqueuePushUnusedChunk q c
    resetLoop fuel q node.next

def chunkqueueReset (q : LinkedQueue) : Except Fault LinkedQueue := do
  let q ← resetLoop q.loopFuel q q.first
  return { q with first := none, last := none }

def chunkqueueAppendChunk (q : LinkedQueue) (c : Nat) : Except Fault LinkedQueue := do
  let node ← q.load c
  let q := q.store c { node with next := none }
  match q.last with
  | none =>
    return { q with last := some c, first := if q.first = none then some c else q.first }
  | some l =>
    let tail ← q.load l
    let q := q.store l { tail with next := some c }
    return { q with last := some c, first := if q.first = none then some c else q.first }

def chunkqueueAppendBuffer (q : LinkedQueue) (mem : Buffer) : Except Fault LinkedQueue := do
  let (c, q) ← chunkqueueGetUnusedChunk q
  let node ← q.load c
  let b ← bufferCopyBuffer node.value.mem mem
  chunkqueueAppendChunk
    (q.store c { node with value := { node.value with chunkType := .mem, mem := b } }) c

def chunkqueuePrependBuffer (q : LinkedQueue) (mem : Buffer) : Except Fault LinkedQueue := do
  let (c, q) ← chunkqueueGetUnusedChunk q
  let node ← q.load c
  let b ← bufferCopyBuffer node.value.mem mem
  let q := q.store c ⟨{ node.value with chunkType := .mem, mem := b }, q.first⟩
  return { q with first := some c, last := if q.last = none then some c else q.last }

def chunkqueueAppendFile (q : LinkedQueue) (filename : Buffer) (offset len : Nat) :
    Except Fault LinkedQueue := do
  if filename.isNull then .error .nullPointer
  else if (cString filename.data).length = 0 ∨ len = 0 then return q
  else
    let (c, q) ← chunkqueueGetUnusedChunk q
    let node ← q.load c
    let b ← bufferCopyBuffer node.value.filename filename
    chunkqueueAppendChunk
      (q.store c { node with value := { node.value with
        chunkType := .file, filename := b, fileFd := none, fileOffset := offset,
        fileLength := len } }) c

/-- A chunk is appended first and then given its memory. -/
def chunkGetNewMemory (q : LinkedQueue) (need : Nat) : Except Fault (LinkedQueue × Option Nat) := do
  let (c, q) ← chunkqueueGetUnusedChunk q
  let q ← chunkqueueAppendChunk q c
  let node ← q.load c
  let b := bufferAllocSize node.value.mem need
  return (q.store c { node with value := { node.value with chunkType := .mem, mem := b } },
    some (bufferStringLength b))

def chunkGetMemory (q : LinkedQueue) (need : Nat) : Except Fault (LinkedQueue × Option Nat) :=
  if need = 0 then .ok (q, none)
  else
    match q.last with
    | none => chunkGetNewMemory q need
    | some l => do
      let node ← q.load l
      if node.value.chunkType = .mem then
        let b := if bufferIsEmpty node.value.mem then bufferAllocSize node.value.mem need
          else node.value.mem
        let q := q.store l { node with value := { node.value with mem := b } }
        if bufferRemainingBytes b ≥ need then return (q, some (bufferStringLength b))
        else chunkGetNewMemory q need
      else chunkGetNewMemory q need

/-- The bytes put at the pointer, and then `chunk_commit_memory`. An allocation
is shorter than 2^32 bytes, so bytes that reach as far are put behind its end. -/
def chunkCommitMemory (q : LinkedQueue) (bytes : Bytes) : Except Fault LinkedQueue :=
  if bytes.length = 0 then .ok q
  else
    match q.last with
    | none => .error .assertion
    | some l => do
      let node ← q.load l
      let c := node.value
      if c.chunkType = .mem then
        let data :=
          if bufferStringLength c.mem = 0 then bytes ++ [0]
          else c.mem.data.take (c.mem.usedBytes - 1) ++ bytes ++ [0]
        if bufferStringLength c.mem + bytes.length ≥ 4294967295 then .error .outOfBounds
        else return q.store l { node with value := { c with mem := { c.mem with data := data } } }
      else .error .assertion

def markWrittenLoop : Nat → LinkedQueue → Nat → Except Fault (Nat × LinkedQueue)
  | 0, _, _ => .error .outOfFuel
  | fuel + 1, q, len =>
    match q.first with
    | none => .ok (len, q)
    | some c => do
      let node ← q.load c
      let chunkLen := chunkRemainingLen node.value
      if len = 0 ∧ chunkLen > 0 then return (len, q)
      else if len ≥ chunkLen then
        let q := q.store c { node with value := { node.value with
          chunkOffset := u32 (node.value.chunkOffset + chunkLen) } }
        let q := { q with first := node.next, last := if q.last = some c then none else q.last }
        let q ← chunkqueuePushUnusedChunk q c
        markWrittenLoop fuel q (len - chunkLen)
      else
        return (0, q.store c { node with value := { node.value with
          chunkOffset := u32 (node.value.chunkOffset + len) } })

def chunkqueueMarkWritten (q : LinkedQueue) (len : Nat) : Except Fault (Nat × LinkedQueue) :=
  markWrittenLoop q.loopFuel q len

def removeFinishedLoop : Nat → LinkedQueue → Except Fault LinkedQueue
  | 0, _ => .error .outOfFuel
  | fuel + 1, q =>
    match q.first with
    | none => .ok q
    | some c => do
      let node ← q.load c
      if chunkRemainingLen node.value > 0 then return q
      else
        let q := { q with first := node.next, last := if q.last = some c then none else q.last }
        let q ← chunkqueuePushUnusedChunk q c
        removeFinishedLoop fuel q

def chunkqueueRemoveFinishedChunk (q : LinkedQueue) : Except Fault LinkedQueue :=
  removeFinishedLoop q.loopFuel q

structure LinkedTurn where
  code : Int
  queue : LinkedQueue
  sent : Bytes

def gatherChunks (q : LinkedQueue) : Nat → Option Nat → Nat → Except Fault (List Bytes)
  | 0, _, _ => .error .outOfFuel
  | _ + 1, none, _ => .ok []
  | fuel + 1, some a, room => do
    let node ← q.load a
    let c := node.value
    if c.chunkType ≠ .mem ∨ room = 0 then return []
    else if c.chunkOffset ≤ bufferStringLength c.mem then
      let piece := (chunkString c).drop c.chunkOffset
      if piece.length > 0 then (gatherChunks q fuel node.next (room - 1)).map (piece :: ·)
      else gatherChunks q fuel node.next room
    else .error .assertion

def connectionWritevMemChunk (q : LinkedQueue) (answer : WriteAnswer) :
    Except Fault LinkedTurn := do
  let sendChunks ← gatherChunks q q.loopFuel q.first 16
  if sendChunks = [] then
    let q ← chunkqueueRemoveFinishedChunk q
    return ⟨0, q, []⟩
  else
    match answer with
    | .fail _ => return ⟨-2, q, []⟩
    | .accept bytes =>
      let offered := sendChunks.flatten
      let n := min bytes (min offered.length maxTransfer)
      let code : Int := if n = u32 offered.length then 0 else 1
      if n > 0 then
        let (remainingBytes, q) ← chunkqueueMarkWritten q n
        if remainingBytes ≠ 0 then .error .assertion
        else return ⟨code, q, offered.take n⟩
      else return ⟨code, q, []⟩

def sendMapped (file : Bytes → Nat → UInt8) (q : LinkedQueue) (c : Chunk) (m : Mapping)
    (offset sendLen : Nat) (answer : WriteAnswer) : Except Fault LinkedTurn :=
  if c.mmapOffset ≤ offset then
    let start := offset - c.mmapOffset
    let sendLen := min sendLen (u32Sub c.mmapLen start)
    match answer with
    | .fail .eintr => .ok ⟨-1, q, []⟩
    | .fail .eagain => .ok ⟨-1, q, []⟩
    | .fail _ => .ok ⟨-2, q, []⟩
    | .accept bytes => do
      let n := min bytes sendLen
      let code : Int := if n = sendLen then 0 else 1
      if n > 0 then
        let (_, q) ← chunkqueueMarkWritten q n
        return ⟨code, q, mappedBytes file m start n⟩
      else return ⟨code, q, mappedBytes file m start n⟩
  else .error .assertion

/-- `connection_send_file_chunk`, the branch for a chunk that has been sent
included: it pushes the chunk to the idle list and leaves it linked. -/
def connectionSendFileChunk (ans : SysAnswers) (turn : Nat) (q : LinkedQueue) (a : Nat) :
    Except Fault LinkedTurn := do
  let node ← q.load a
  let c := node.value
  if c.chunkOffset ≤ c.fileLength then
    let offset := u32 (c.fileOffset + c.chunkOffset)
    let sendLen := u32Sub c.fileLength c.chunkOffset
    let fileEnd := u32 (c.fileOffset + c.fileLength)
    if sendLen = 0 then
      let q ← chunkqueuePushUnusedChunk q a
      return ⟨0, q, []⟩
    else
      match openFileChunk c (ans.openFile turn) with
      | none => return ⟨-1, q, []⟩
      | some (c, opened) =>
        let (c, calls) :=
          if needsRemap c offset then remapFileChunk c offset fileEnd (ans.mmap turn)
          else (c, [])
        let q := { q.store a { node with value := c } with calls := q.calls ++ opened ++ calls }
        match c.mmapStart with
        | none => return ⟨-1, q, []⟩
        | some m => sendMapped ans.file q c m offset sendLen (ans.write turn)
  else .error .assertion

/-- One turn of the loop of `connection_handle_write`. -/
def connectionHandleWriteTurn (ans : SysAnswers) (turn : Nat) (q : LinkedQueue) :
    Except Fault LinkedTurn :=
  match q.first with
  | none => .ok ⟨0, q, []⟩
  | some a => do
    let node ← q.load a
    match node.value.chunkType with
    | .mem => connectionWritevMemChunk q (ans.write turn)
    | .file => connectionSendFileChunk ans turn q a

def handleWriteLoop (ans : SysAnswers) : Nat → Nat → LinkedQueue → Bytes → Except Fault LinkedTurn
  | 0, _, _, _ => .error .outOfFuel
  | fuel + 1, turn, q, sent =>
    if q.first = none then .ok ⟨0, q, sent⟩
    else do
      let t ← connectionHandleWriteTurn ans turn q
      if t.code ≠ 0 then return { t with sent := sent ++ t.sent }
      else handleWriteLoop ans fuel (turn + 1) t.queue (sent ++ t.sent)

/-- `connection_handle_write`, cut off where it has not ended after `fuel` turns. -/
def connectionHandleWrite (ans : SysAnswers) (fuel : Nat) (q : LinkedQueue) :
    Except Fault LinkedTurn :=
  handleWriteLoop ans fuel 0 q []

end ChunkLinks
