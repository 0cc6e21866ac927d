import Minihttpd.ChunkQueue

/-!
# Configuration, status texts and the connection record

`config.h`, `key_map.cpp`, `request.h`, `response.h` and `connection.h`. Flags
the source keeps as 0 or 1 are Booleans here. The configuration strings are
set once, by `buffer_copy_string`, and stand as the strings themselves.
-/
namespace ConnectionTypes

open ByteBuffer SystemCalls ChunkQueue

structure MimeTypeEntry where
  extension : Bytes
  mimeType : Bytes
  deriving DecidableEq, Repr

/-- `set_config_default` fixes the service name, the root directory and a head
limit of 65535; the bounds asked for here keep a head, one more read and the
path of a file inside 32 bits. A line of the MIME file is read into 1024 bytes,
and its newline stands behind the closing quote of the type. -/
structure ServerConfig where
  serviceName : Bytes
  supportHttp11 : Bool
  maxHttpHeadSize : Nat
  serviceRootDir : Bytes
  table : List MimeTypeEntry
  maxReadIdleTs : Nat
  maxWriteIdleTs : Nat
  headLimit : maxHttpHeadSize < 1073741824
  nameLimit : serviceName.length < 2147483648
  mimeLimit : ∀ e ∈ table, e.mimeType.length < 1024
  nameLine : (10 : UInt8) ∉ serviceName
  mimeLines : ∀ e ∈ table, (10 : UInt8) ∉ e.mimeType
  rootLimit : serviceRootDir.length < 1073741760
  rootNulFree : ∀ c ∈ serviceRootDir, c ≠ 0

/-- `server_config_init` and `set_config_default`, with no MIME table loaded. -/
def setConfigDefault : ServerConfig where
  serviceName := asciiBytes "minihttpd"
  supportHttp11 := true
  maxHttpHeadSize := 65535
  serviceRootDir := asciiBytes "/var/opt/minihttpd/minihttpd"
  table := []
  maxReadIdleTs := 60
  maxWriteIdleTs := 360
  headLimit := by decide
  nameLimit := by decide
  mimeLimit := by decide
  nameLine := by decide
  mimeLines := by decide
  rootLimit := by decide
  rootNulFree := by decide +kernel

def minihttpdCloseTimeout : Int := 4

def httpStatusTable : List (Nat × String) :=
  [(100, "Continue"), (101, "Switching Protocols"), (102, "Processing"),
   (200, "OK"), (201, "Created"), (202, "Accepted"),
   (203, "Non-Authoritative Information"), (204, "No Content"), (205, "Reset Content"),
   (206, "Partial Content"), (207, "Multi-status"),
   (300, "Multiple Choices"), (301, "Moved Permanently"), (302, "Found"),
   (303, "See Other"), (304, "Not Modified"), (305, "Use Proxy"), (306, "(Unused)"),
   (307, "Temporary Redirect"),
   (400, "Bad Request"), (401, "Unauthorized"), (402, "Payment Required"),
   (403, "Forbidden"), (404, "Not Found"), (405, "Method Not Allowed"),
   (406, "Not Acceptable"), (407, "Proxy Authentication Required"),
   (408, "Request Timeout"), (409, "Conflict"), (410, "Gone"), (411, "Length Required"),
   (412, "Precondition Failed"), (413, "Request Entity Too Large"),
   (414, "Request-URI Too Long"), (415, "Unsupported Media Type"),
   (416, "Requested Range Not Satisfiable"), (417, "Expectation Failed"),
   (422, "Unprocessable Entity"), (423, "Locked"), (424, "Failed Dependency"),
   (426, "Upgrade Required"),
   (500, "Internal Server Error"), (501, "Not Implemented"), (502, "Bad Gateway"),
   (503, "Service Not Available"), (504, "Gateway Timeout"),
   (505, "HTTP Version Not Supported"), (507, "Insufficient Storage")]

def queryHttpStatusString (httpStatusCode : Nat) : Option String :=
  (httpStatusTable.find? (fun e => e.1 == httpStatusCode)).map Prod.snd

inductive HttpVersion where
  | unset
  | http10
  | http11
  deriving DecidableEq, Repr

/-- `HTTP_CONNECTION_UNSET`, `_KEEP_ALIVE` and `_CLOSE`. -/
inductive HttpConnectionOption where
  | unset
  | keepAlive
  | close
  deriving DecidableEq, Repr

structure Request where
  requestContent : Buffer
  httpMethod : Buffer
  requestUrl : Buffer
  httpVersion : HttpVersion
  keepAlive : HttpConnectionOption
  hostname : Buffer
  httpRange : Buffer
  deriving DecidableEq, Repr

def requestInitialize : Request :=
  ⟨bufferInit, bufferInit, bufferInit, .unset, .unset, bufferInit, bufferInit⟩

def requestReset (r : Request) : Request :=
  ⟨bufferReset r.requestContent, bufferReset r.httpMethod, bufferReset r.requestUrl,
    .unset, .unset, bufferReset r.hostname, bufferReset r.httpRange⟩

structure Response where
  fullpath : Buffer
  contentLength : Nat
  contentType : Buffer
  deriving DecidableEq, Repr

def responseInitialize : Response := ⟨bufferInit, 0, bufferInit⟩

def responseReset (r : Response) : Response :=
  ⟨bufferReset r.fullpath, 0, bufferReset r.contentType⟩

inductive ConnectionState where
  | requestStart
  | requestEnd
  | read
  | handleRequest
  | responseStart
  | write
  | responseEnd
  | error
  | close
  | connect
  deriving DecidableEq, Repr

structure Connection where
  connectionIndex : Nat
  state : ConnectionState
  connSocketFd : Int
  startTs : Int
  activeReadTs : Int
  activeWriteTs : Int
  closeTimeoutTs : Int
  readable : Bool
  writeable : Bool
  keepAlive : Bool
  httpStatus : Nat
  httpResponseBodyFinished : Bool
  readqueue : Chunkqueue
  writequeue : Chunkqueue
  connectionRequest : Request
  connectionResponse : Response
  deriving DecidableEq, Repr

/-- One stretch of a response as it was queued. -/
inductive Segment where
  | memory (bytes : Bytes)
  | file (path : Bytes) (offset length : Nat)
  deriving DecidableEq, Repr

def chunkSegment (c : Chunk) : Segment :=
  match c.chunkType with
  | .mem => .memory c.mem.str
  | .file => .file (cString c.filename.data) c.fileOffset c.fileLength

/-- What an observer of a connection sees it do, oldest first. -/
inductive Event where
  | state (s : ConnectionState)
  | socketRead (bytes : Bytes)
  | parse (content : Bytes)
  | stat (path : Bytes)
  | opendir (path : Bytes)
  | statEntry (path : Bytes)
  | respond (status : Nat) (segments : List Segment)
  | socketWrite (bytes : Bytes)
  | shutdown
  | socketClose (fd : Int)
  deriving DecidableEq, Repr

end ConnectionTypes
