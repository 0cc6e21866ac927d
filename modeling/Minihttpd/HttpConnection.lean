import Minihttpd.HttpResponse
import Mathlib.Algebra.Ring.Nat

/-!
# Reading a head and writing a response

`connection.cpp` without its state machine: the read side with the search for
the end of a head, the response head and the error page, and the write side
with its two kinds of chunks.
-/
namespace HttpConnection

open ByteBuffer SystemCalls ChunkQueue ConnectionTypes HttpRequest HttpResponse

/-- The time stamps `start_ts` and `close_timeout_ts` are left unset by the
source and stand here as 0. -/
def connectionSetDefault : Connection where
  connectionIndex := 0
  state := .requestStart
  connSocketFd := -1
  startTs := 0
  activeReadTs := 0
  activeWriteTs := 0
  closeTimeoutTs := 0
  readable := false
  writeable := false
  keepAlive := false
  httpStatus := 0
  httpResponseBodyFinished := false
  readqueue := chunkqueueInit
  writequeue := chunkqueueInit
  connectionRequest := requestInitialize
  connectionResponse := responseInitialize

def connectionReset (conn : Connection) : Connection :=
  { conn with
    readable := false
    writeable := false
    httpStatus := 0
    httpResponseBodyFinished := false
    keepAlive := false
    readqueue := chunkqueueReset conn.readqueue
    writequeue := chunkqueueReset conn.writequeue
    connectionRequest := requestReset conn.connectionRequest
    connectionResponse := responseReset conn.connectionResponse
    activeReadTs := 0
    activeWriteTs := 0 }

/-- `connection_handle_read`: its result, the connection, and the bytes read. -/
def connectionHandleRead (ans : SysAnswers) (conn : Connection) :
    Except Fault (Int × Connection × Bytes) :=
  match chunkGetMemory conn.readqueue ans.needReadBytes with
  | (_, none) => .error .assertion
  | (readqueue, some _) =>
    let conn := { conn with readqueue := readqueue, readable := false }
    match ans.read with
    | .fail .eintr => .ok (-1, { conn with readable := true }, [])
    | .fail .eagain => .ok (-1, conn, [])
    | .fail _ => .ok (-2, conn, [])
    | .data available =>
      let bytes := available.take ans.needReadBytes
      if bytes = [] then .ok (0, conn, [])
      else do
        let readqueue ← chunkCommitMemory conn.readqueue bytes
        return (bytes.length, { conn with
          readqueue := readqueue, readable := bytes.length == ans.needReadBytes }, bytes)

/-- The `buffer_string_length(c->mem)` bytes at `c->mem->ptr`. -/
def chunkString (c : Chunk) : Bytes := bufferString c.mem

inductive MatchResult where
  | found (next : Nat)
  | retry
  | more (target : Bytes)
  deriving DecidableEq, Repr

/-- The inner loop over one chunk, from position `j` on. -/
def matchInChunk : Bytes → Nat → Bytes → MatchResult
  | _, _, [] => .retry
  | [], _, target => .more target
  | b :: rest, j, t :: target =>
    if b = t then (if target = [] then .found (j + 1) else matchInChunk rest (j + 1) target)
    else .retry

/-- The loop over `cc`: the chunks from number `chunk` on, the first one from
position `j` on. The result is the chunk and the position behind the match. -/
def matchHead : List Bytes → Nat → Nat → Bytes → Option (Nat × Nat)
  | [], _, _, _ => none
  | c :: rest, chunk, j, target =>
    match matchInChunk (c.drop j) j target with
    | .found next => some (chunk, next)
    | .retry => none
    | .more target => matchHead rest (chunk + 1) 0 target

/-- The loop over `index` in one chunk, over its bytes from `index` on. -/
def findInChunk (strings : List Bytes) (chunk : Nat) : Bytes → Nat → Option (Nat × Nat)
  | [], _ => none
  | b :: rest, index =>
    if b = 13 then
      match matchHead strings chunk (index + 1) [10, 13, 10] with
      | some position => some position
      | none => findInChunk strings chunk rest (index + 1)
    else findInChunk strings chunk rest (index + 1)

/-- The search for the end of a head: `last_chunk` and `last_chunk_index`. -/
def findHead : List Chunk → Nat → Except Fault (Option (Nat × Nat))
  | [], _ => .ok none
  | c :: rest, chunk =>
    if c.chunkType = .mem then
      match findInChunk (chunkString c :: rest.map chunkString) chunk (chunkString c) 0 with
      | some position => .ok (some position)
      | none => findHead rest (chunk + 1)
    else .error .assertion

/-- The chunks in front of `last_chunk` and its first `last_chunk_index` bytes. -/
def headPieces (active : List Chunk) (lastChunk lastChunkIndex : Nat) : List Bytes :=
  (active.take lastChunk).map chunkString ++
    ((active.drop lastChunk).take 1).map (fun c => (chunkString c).take lastChunkIndex)

/-- What follows a successful read: a complete head, too long a head, or more
reading. -/
def examineReadqueue (config : ServerConfig) (conn : Connection) : Except Fault Connection := do
  match ← findHead conn.readqueue.active 0 with
  | some (lastChunk, lastChunkIndex) =>
    let requestContent ← bufferAppendStrings (bufferReset conn.connectionRequest.requestContent)
      (headPieces conn.readqueue.active lastChunk lastChunkIndex)
    return { conn with
      connectionRequest := { conn.connectionRequest with requestContent := requestContent }
      state := .requestEnd }
  | none =>
    if chunkqueueLength conn.readqueue > config.maxHttpHeadSize then
      return { conn with httpStatus := 414, keepAlive := false, state := .handleRequest }
    else return conn

/-- `connection_handle_read_state`, with the bytes read. -/
def connectionHandleReadState (config : ServerConfig) (curTs : Int) (ans : SysAnswers)
    (conn : Connection) : Except Fault (Connection × Bytes) :=
  if conn.readable = false then .ok (conn, [])
  else do
    let (n, conn, bytes) ← connectionHandleRead ans { conn with activeReadTs := curTs }
    if n = -2 then return ({ conn with state := .error }, bytes)
    else if n = -1 then return (conn, bytes)
    else if n = 0 then
      return ({ conn with
        state := .close, closeTimeoutTs := ans.time - (minihttpdCloseTimeout + 1) }, bytes)
    else
      let conn ← examineReadqueue config conn
      return (conn, bytes)

def httpErrorPage (httpStatus : Nat) (statusText : String) : List Bytes :=
  [asciiBytes "<?xml version=\"1.0\" encoding=\"iso-8859-1\"?>\n",
   asciiBytes "<!DOCTYPE html PUBLIC \"-//W3C//DTD XHTML 1.0 Transitional//EN\"\n",
   asciiBytes "         \"http://www.w3.org/TR/xhtml1/DTD/xhtml1-transitional.dtd\">\n",
   asciiBytes "<html xmlns=\"http://www.w3.org/1999/xhtml\" xml:lang=\"en\" lang=\"en\">\n",
   asciiBytes " <head>\n",
   asciiBytes "  <title>",
   formatDecimal httpStatus, asciiBytes " - ", asciiBytes statusText,
   asciiBytes "</title>\n </head>\n <body>\n  <h1>",
   formatDecimal httpStatus, asciiBytes " - ", asciiBytes statusText,
   asciiBytes "</h1>\n </body>\n</html>\n"]

/-- The strings appended to the head, in order. -/
def responseHeadParts (config : ServerConfig) (ans : SysAnswers) (conn : Connection)
    (statusText : String) : List Bytes :=
  let version := conn.connectionRequest.httpVersion
  let response := conn.connectionResponse
  [if version = .http11 then asciiBytes "HTTP/1.1 " else asciiBytes "HTTP/1.0 ",
   formatDecimal conn.httpStatus ++ asciiBytes " ", asciiBytes statusText] ++
  (if version ≠ .http11 ∨ conn.keepAlive = false then
    [asciiBytes "\r\nConnection: ",
     if conn.keepAlive then asciiBytes "keep-alive" else asciiBytes "close"]
  else []) ++
  (if response.contentLength > 0 then
    [asciiBytes "\r\nContent-Length: ", formatInt (toInt32 response.contentLength)]
  else []) ++
  (if bufferIsEmpty response.contentType then
    [asciiBytes "\r\nContent-Type: application/octet-stream"]
  else [asciiBytes "\r\nContent-Type: ", cString response.contentType.data]) ++
  [asciiBytes "\r\nDate: ", ans.date.text,
   asciiBytes "\r\nServer: ", config.serviceName, asciiBytes "\r\n\r\n"]

def connectionWriteResponseHead (config : ServerConfig) (ans : SysAnswers) (conn : Connection) :
    Except Fault Connection :=
  match queryHttpStatusString conn.httpStatus with
  | none => .error .assertion
  | some statusText => do
    let b ← bufferAppendStrings bufferInit (responseHeadParts config ans conn statusText)
    let writequeue ← chunkqueuePrependBuffer conn.writequeue b
    return { conn with writequeue := writequeue }

/-- The error page for a status between 400 and 599. -/
def appendErrorPage (conn : Connection) : Except Fault Connection :=
  match queryHttpStatusString conn.httpStatus with
  | none => .error .assertion
  | some statusText => do
    let b ← bufferAppendStrings bufferInit (httpErrorPage conn.httpStatus statusText)
    let writequeue ← chunkqueueAppendBuffer conn.writequeue b
    return { conn with
      writequeue := writequeue
      httpResponseBodyFinished := true
      connectionResponse := { conn.connectionResponse with
        contentType := bufferCopyString conn.connectionResponse.contentType
          (asciiBytes "text/html") } }

/-- The switch on `http_status`. -/
def customizeBody (conn : Connection) : Except Fault Connection :=
  if conn.httpStatus = 204 ∨ conn.httpStatus = 205 ∨ conn.httpStatus = 304 then
    .ok { conn with
      writequeue := chunkqueueReset conn.writequeue, httpResponseBodyFinished := true }
  else if conn.httpStatus < 400 ∨ conn.httpStatus ≥ 600 then .ok conn
  else appendErrorPage conn

def setContentLength (conn : Connection) : Connection :=
  if conn.httpResponseBodyFinished then
    { conn with connectionResponse := { conn.connectionResponse with
        contentLength := chunkqueueLength conn.writequeue } }
  else conn

def connectionHandlePrepareResponseHead (config : ServerConfig) (ans : SysAnswers)
    (conn : Connection) : Except Fault Connection := do
  let conn := if conn.httpStatus = 0 then { conn with httpStatus := 403 } else conn
  let conn ← customizeBody conn
  connectionWriteResponseHead config ans (setContentLength conn)

/-- The outcome of a write function: its result, the queue it leaves, and the
bytes the socket has accepted. -/
structure WriteTurn where
  code : Int
  queue : Chunkqueue
  sent : Bytes

/-- The `iovec` array: the non-empty rests of at most `room` leading memory chunks. -/
def gatherChunks : List Chunk → Nat → Except Fault (List Bytes)
  | [], _ => .ok []
  | c :: rest, room =>
    if c.chunkType ≠ .mem ∨ room = 0 then .ok []
    else if c.chunkOffset ≤ bufferStringLength c.mem then
      let piece := (chunkString c).drop c.chunkOffset
      if piece.length > 0 then (gatherChunks rest (room - 1)).map (piece :: ·)
      else gatherChunks rest room
    else .error .assertion

/-- A failed `writev` is classified by its result instead of `errno`, so that
every failure takes the default branch. -/
def connectionWritevMemChunk (queue : Chunkqueue) (answer : WriteAnswer) :
    Except Fault WriteTurn := do
  let sendChunks ← gatherChunks queue.active 16
  if sendChunks = [] then return ⟨0, chunkqueueRemoveFinishedChunk queue, []⟩
  else
    match answer with
    | .fail _ => return ⟨-2, queue, []⟩
    | .accept bytes =>
      let offered := sendChunks.flatten
      let n := min bytes (min offered.length maxTransfer)
      let code : Int := if n = u32 offered.length then 0 else 1
      if n > 0 then
        let (remainingBytes, queue) := chunkqueueMarkWritten queue n
        if remainingBytes ≠ 0 then .error .assertion
        else return ⟨code, queue, offered.take n⟩
      else return ⟨code, queue, []⟩

/-- The file chunk with an open descriptor, or none where `open` fails. -/
def openFileChunk (c : Chunk) (answer : Option Nat) : Option (Chunk × List KernelCall) :=
  match c.fileFd with
  | some _ => some (c, [])
  | none => answer.map (fun fd => ({ c with fileFd := some fd }, [.openFile fd]))

/-- Whether the window of the chunk has to be moved to reach `offset`. -/
def needsRemap (c : Chunk) (offset : Nat) : Bool :=
  c.mmapStart.isNone || offset < c.mmapOffset || offset ≥ u32 (c.mmapOffset + c.mmapLen)

/-- A new window of 64 pages, or up to the end of the file part. -/
def remapFileChunk (c : Chunk) (offset fileEnd : Nat) (answer : Option Nat) :
    Chunk × List KernelCall :=
  let released := match c.mmapStart with
    | none => []
    | some m => [KernelCall.munmap m.addr c.mmapLen]
  let mmapOffset := offset - offset % 4096
  let mmapLen :=
    if u32 (mmapOffset + 262144) > fileEnd then u32Sub fileEnd mmapOffset else 262144
  let c := { c with mmapStart := none, mmapOffset := mmapOffset, mmapLen := mmapLen }
  match answer with
  | none => (c, released)
  | some addr =>
    let m : Mapping := ⟨addr, cString c.filename.data, mmapOffset, mmapLen⟩
    ({ c with mmapStart := some m }, released ++ [.mmap m])

/-- The bytes of a mapping from position `start` on. -/
def mappedBytes (file : Bytes → Nat → UInt8) (m : Mapping) (start len : Nat) : Bytes :=
  (List.range len).map (fun i => file m.path (m.offset + (start + i)))

/-- The `write` call on the mapped part of the head chunk of `queue`. -/
def sendMapped (file : Bytes → Nat → UInt8) (queue : Chunkqueue) (c : Chunk) (m : Mapping)
    (offset sendLen : Nat) (answer : WriteAnswer) : Except Fault WriteTurn :=
  if c.mmapOffset ≤ offset then
    let start := offset - c.mmapOffset
    let sendLen := min sendLen (u32Sub c.mmapLen start)
    match answer with
    | .fail .eintr => .ok ⟨-1, queue, []⟩
    | .fail .eagain => .ok ⟨-1, queue, []⟩
    | .fail _ => .ok ⟨-2, queue, []⟩
    | .accept bytes =>
      let n := min bytes sendLen
      let queue := if n > 0 then (chunkqueueMarkWritten queue n).2 else queue
      .ok ⟨if n = sendLen then 0 else 1, queue, mappedBytes file m start n⟩
  else .error .assertion

/-- `connection_send_file_chunk` on the head chunk `c` of the queue. -/
def connectionSendFileChunk (ans : SysAnswers) (turn : Nat) (queue : Chunkqueue) (c : Chunk)
    (rest : List Chunk) : Except Fault WriteTurn :=
  if c.chunkOffset ≤ c.fileLength then
    let offset := u32 (c.fileOffset + c.chunkOffset)
    let sendLen := u32Sub c.fileLength c.chunkOffset
    let fileEnd := u32 (c.fileOffset + c.fileLength)
    if sendLen = 0 then .error .danglingChunk
    else
      match openFileChunk c (ans.openFile turn) with
      | none => .ok ⟨-1, queue, []⟩
      | some (c, opened) =>
        let (c, calls) :=
          if needsRemap c offset then remapFileChunk c offset fileEnd (ans.mmap turn)
          else (c, [])
        let queue := { queue with active := c :: rest, calls := queue.calls ++ opened ++ calls }
        match c.mmapStart with
        | none => .ok ⟨-1, queue, []⟩
        | some m => sendMapped ans.file queue c m offset sendLen (ans.write turn)
  else .error .assertion

/-- One turn of the loop of `connection_handle_write`. -/
def connectionHandleWriteTurn (ans : SysAnswers) (turn : Nat) (queue : Chunkqueue) :
    Except Fault WriteTurn :=
  match queue.active with
  | [] => .ok ⟨0, queue, []⟩
  | c :: rest =>
    match c.chunkType with
    | .mem => connectionWritevMemChunk queue (ans.write turn)
    | .file => connectionSendFileChunk ans turn queue c rest

def handleWriteLoop (ans : SysAnswers) : Nat → Nat → Chunkqueue → Bytes → Except Fault WriteTurn
  | 0, _, _, _ => .error .outOfFuel
  | fuel + 1, turn, queue, sent =>
    if queue.active = [] then .ok ⟨0, queue, sent⟩
    else do
      let t ← connectionHandleWriteTurn ans turn queue
      if t.code ≠ 0 then return { t with sent := sent ++ t.sent }
      else handleWriteLoop ans fuel (turn + 1) t.queue (sent ++ t.sent)

/-- The bytes still to be sent, as the chunks count them. -/
def remainingTotal (active : List Chunk) : Nat := (active.map chunkRemainingLen).sum

/-- `connection_handle_write`. The fuel covers a turn for every unsent byte
and every chunk. -/
def connectionHandleWrite (ans : SysAnswers) (queue : Chunkqueue) : Except Fault WriteTurn :=
  handleWriteLoop ans (remainingTotal queue.active + queue.active.length + 1) 0 queue []

/-- `connection_handle_write_state`, with the bytes accepted by the socket. -/
def connectionHandleWriteState (curTs : Int) (ans : SysAnswers) (conn : Connection) :
    Except Fault (Connection × Bytes) :=
  if conn.writeable = false then .ok (conn, [])
  else do
    let t ← connectionHandleWrite ans conn.writequeue
    let conn := { conn with writequeue := t.queue }
    if t.code = 0 then
      let state := if conn.httpResponseBodyFinished then .responseEnd else conn.state
      return ({ conn with state := state, activeWriteTs := curTs }, t.sent)
    else if t.code = -1 then return ({ conn with writeable := false }, t.sent)
    else if t.code = 1 then
      return ({ conn with writeable := false, activeWriteTs := curTs }, t.sent)
    else return ({ conn with state := .error }, t.sent)

end HttpConnection
