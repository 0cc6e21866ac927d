import Minihttpd.SystemCalls

/-!
# Chunks and chunk queues

`chunk.cpp`. A queue is the list of its active chunks, oldest first, and the
stack of its idle ones: `first` and `last` are the ends of the active list and
`idle_chunk_size` is the length of the idle one. The descriptor and mapping
calls made for the chunks of a queue are recorded in `calls`.
-/
namespace ChunkQueue

open ByteBuffer SystemCalls

inductive ChunkType where
  | mem
  | file
  deriving DecidableEq, Repr

/-- A live `mmap` result: `len` bytes of `path` from `offset` on. -/
structure Mapping where
  addr : Nat
  path : Bytes
  offset : Nat
  len : Nat
  deriving DecidableEq, Repr

structure Chunk where
  mem : Buffer
  fileFd : Option Nat
  fileOffset : Nat
  fileLength : Nat
  filename : Buffer
  mmapStart : Option Mapping
  mmapOffset : Nat
  mmapLen : Nat
  chunkType : ChunkType
  chunkOffset : Nat
  deriving DecidableEq, Repr

inductive KernelCall where
  | openFile (fd : Nat)
  | close (fd : Nat)
  | mmap (m : Mapping)
  | munmap (addr len : Nat)
  deriving DecidableEq, Repr

structure Chunkqueue where
  active : List Chunk
  idle : List Chunk
  calls : List KernelCall
  deriving DecidableEq, Repr

/-- `send_file.offset` is left unset by the source and stands here as 0: it is
only read in file chunks, after `chunkqueue_append_file` has set it. -/
def chunkInitialize : Chunk where
  mem := bufferInit
  fileFd := none
  fileOffset := 0
  fileLength := 4294967295
  filename := bufferInit
  mmapStart := none
  mmapOffset := 0
  mmapLen := 0
  chunkType := .mem
  chunkOffset := 0

def chunkReset (c : Chunk) : Chunk where
  mem := bufferReset c.mem
  fileFd := none
  fileOffset := 0
  fileLength := 0
  filename := bufferReset c.filename
  mmapStart := none
  mmapOffset := 0
  mmapLen := 0
  chunkType := .file
  chunkOffset := 0

/-- The calls by which `chunk_reset` and `chunk_free` let go of a chunk. -/
def chunkRelease (c : Chunk) : List KernelCall :=
  (match c.fileFd with
    | none => []
    | some fd => [.close fd]) ++
  (match c.mmapStart with
    | none => []
    | some m => [.munmap m.addr c.mmapLen])

def chunkqueueInit : Chunkqueue := ⟨[], [], []⟩

/-- Four chunks are allocated when the idle stack has run out. -/
def chunkqueueGetUnusedChunk (q : Chunkqueue) : Chunk × Chunkqueue :=
  match q.idle with
  | [] => (chunkInitialize, { q with idle := List.replicate 3 chunkInitialize })
  | c :: rest => (c, { q with idle := rest })

/-- Pushes a chunk that has been unlinked from the active list. -/
def chunkqueuePushUnusedChunk (q : Chunkqueue) (c : Chunk) : Chunkqueue :=
  if q.idle.length ≥ 4 then { q with calls := q.calls ++ chunkRelease c }
  else { q with idle := chunkReset c :: q.idle, calls := q.calls ++ chunkRelease c }

def chunkqueueReset (q : Chunkqueue) : Chunkqueue :=
  { q.active.foldl chunkqueuePushUnusedChunk q with active := [] }

def chunkqueueAppendChunk (q : Chunkqueue) (c : Chunk) : Chunkqueue :=
  { q with active := q.active ++ [c] }

def chunkqueueAppendBuffer (q : Chunkqueue) (mem : Buffer) : Except Fault Chunkqueue := do
  let (c, q) := chunkqueueGetUnusedChunk q
  let b ← bufferCopyBuffer c.mem mem
  return chunkqueueAppendChunk q { c with chunkType := .mem, mem := b }

def chunkqueuePrependBuffer (q : Chunkqueue) (mem : Buffer) : Except Fault Chunkqueue := do
  let (c, q) := chunkqueueGetUnusedChunk q
  let b ← bufferCopyBuffer c.mem mem
  return { q with active := { c with chunkType := .mem, mem := b } :: q.active }

/-- The full length of a chunk, whatever part of it has been sent. -/
def chunkLength (c : Chunk) : Nat :=
  match c.chunkType with
  | .mem => bufferStringLength c.mem
  | .file => c.fileLength

def chunkqueueLength (q : Chunkqueue) : Nat :=
  q.active.foldl (fun len c => u32 (len + chunkLength c)) 0

/-- Appends an unused chunk with room for `need` bytes. -/
def chunkGetNewMemory (q : Chunkqueue) (need : Nat) : Chunkqueue × Option Nat :=
  let (c, q) := chunkqueueGetUnusedChunk q
  let b := bufferAllocSize c.mem need
  (chunkqueueAppendChunk q { c with chunkType := .mem, mem := b }, some (bufferStringLength b))

/-- `chunk_get_memory`: the queue, whose last chunk then holds the memory, and
the position of the returned pointer inside the allocation of that chunk. -/
def chunkGetMemory (q : Chunkqueue) (need : Nat) : Chunkqueue × Option Nat :=
  if need = 0 then (q, none)
  else
    match q.active.getLast? with
    | none => chunkGetNewMemory q need
    | some c =>
      if c.chunkType = .mem then
        let b := if bufferIsEmpty c.mem then bufferAllocSize c.mem need else c.mem
        let q := { q with active := q.active.dropLast ++ [{ c with mem := b }] }
        if bufferRemainingBytes b ≥ need then (q, some (bufferStringLength b))
        else chunkGetNewMemory q need
      else chunkGetNewMemory q need

/-- The bytes `read()` has put at the pointer, and then `chunk_commit_memory`. -/
def chunkCommitMemory (q : Chunkqueue) (bytes : Bytes) : Except Fault Chunkqueue :=
  if bytes.length = 0 then .ok q
  else
    match q.active.getLast? with
    | none => .error .assertion
    | some c =>
      if c.chunkType = .mem then
        let data :=
          if bufferStringLength c.mem = 0 then bytes ++ [0]
          else c.mem.data.take (c.mem.usedBytes - 1) ++ bytes ++ [0]
        .ok { q with active := q.active.dropLast ++ [{ c with mem := { c.mem with data := data } }] }
      else .error .assertion

/-- `strlen(filename->ptr)` faults on a buffer that was never written. -/
def chunkqueueAppendFile (q : Chunkqueue) (filename : Buffer) (offset len : Nat) :
    Except Fault Chunkqueue := do
  if filename.isNull then .error .nullPointer
  else if (cString filename.data).length = 0 ∨ len = 0 then return q
  else
    let (c, q) := chunkqueueGetUnusedChunk q
    let b ← bufferCopyBuffer c.filename filename
    return chunkqueueAppendChunk q
      { c with chunkType := .file, filename := b, fileFd := none, fileOffset := offset,
               fileLength := len }

def chunkRemainingLen (c : Chunk) : Nat := u32Sub (chunkLength c) c.chunkOffset

/-- The loop of `chunkqueue_mark_written` over the active chunks. -/
def markWrittenLoop (q : Chunkqueue) : List Chunk → Nat → Nat × Chunkqueue
  | [], len => (len, { q with active := [] })
  | c :: rest, len =>
    let chunkLen := chunkRemainingLen c
    if len = 0 ∧ chunkLen > 0 then (len, { q with active := c :: rest })
    else if len ≥ chunkLen then
      markWrittenLoop
        (chunkqueuePushUnusedChunk q { c with chunkOffset := u32 (c.chunkOffset + chunkLen) })
        rest (len - chunkLen)
    else (0, { q with active := { c with chunkOffset := u32 (c.chunkOffset + len) } :: rest })

def chunkqueueMarkWritten (q : Chunkqueue) (len : Nat) : Nat × Chunkqueue :=
  markWrittenLoop q q.active len

def removeFinishedLoop (q : Chunkqueue) : List Chunk → Chunkqueue
  | [] => { q with active := [] }
  | c :: rest =>
    if chunkRemainingLen c > 0 then { q with active := c :: rest }
    else removeFinishedLoop (chunkqueuePushUnusedChunk q c) rest

def chunkqueueRemoveFinishedChunk (q : Chunkqueue) : Chunkqueue :=
  removeFinishedLoop q q.active

end ChunkQueue
