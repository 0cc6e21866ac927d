import Minihttpd.HttpRequest

/-!
# The request handler

`response.cpp`: cutting the URL, building the full path, and queueing the file
or the directory listing. The paths handed to `stat` and `opendir` are
reported as events.
-/
namespace HttpResponse

open ByteBuffer SystemCalls ChunkQueue ConnectionTypes HttpRequest

/-- `strchr` for one byte, and the cut at its first occurrence. -/
def cutUrlAt (mark : UInt8) (requestUrl : Buffer) : Buffer :=
  match (cString requestUrl.data).findIdx? (fun c => c == mark) with
  | none => requestUrl
  | some position => bufferStringSetLength requestUrl position

/-- The URL without the parts behind the first '#' and then the first '?'. -/
def cutUrl (requestUrl : Buffer) : Buffer := cutUrlAt 63 (cutUrlAt 35 requestUrl)

/-- `service_root_dir`, a slash, and the URL without one leading slash. -/
def buildFullpath (config : ServerConfig) (fullpath requestUrl : Buffer) : Except Fault Buffer :=
  let url := cString requestUrl.data
  bufferAppendStrings (bufferCopyStringLength fullpath config.serviceRootDir)
    [asciiBytes "/", if requestUrl.data.headD 0 = 47 then url.drop 1 else url]

/-- The lookup loop over the MIME table. -/
def lookupMimeType (table : List MimeTypeEntry) (fullpath : Buffer) : Option Bytes :=
  let fullpathLen := bufferStringLength fullpath
  (table.find? (fun entry =>
    0 < entry.extension.length && entry.extension.length ≤ fullpathLen &&
    strncasecmpEq (cString (fullpath.data.drop (fullpathLen - entry.extension.length)))
      entry.extension entry.extension.length)).map MimeTypeEntry.mimeType

/-- `ptr[buffer_string_length(b) - 1]`, far outside when the string is empty. -/
def lastCharacter (b : Buffer) : Except Fault UInt8 :=
  if bufferStringLength b = 0 then .error .outOfBounds
  else .ok (b.data.getD (bufferStringLength b - 1) 0)

def closeWithSlash (b : Buffer) (last : UInt8) : Except Fault Buffer :=
  if last ≠ 47 then bufferAppendString b (asciiBytes "/") else .ok b

/-- `snprintf(line + strlen(line), 1024 - strlen(line), "%s", s)`. -/
def snprintfLine (line s : Bytes) : Bytes := line ++ s.take (1023 - line.length)

/-- The `%32s` conversion. -/
def padLeft32 (s : Bytes) : Bytes := List.replicate (32 - s.length) 32 ++ s

/-- `%ld` of a non-negative number, and `%d` of one below 2^31. -/
def formatDecimal (n : Nat) : Bytes := (Nat.toDigits 10 n).map (fun c => c.toNat.toUInt8)

/-- `%d` of a 32-bit value. -/
def formatInt (v : Int) : Bytes :=
  if v < 0 then 45 :: formatDecimal v.natAbs else formatDecimal v.natAbs

/-- `strftime` of the time of modification, handed what `localtime` gives. -/
def lastModifiedTime (ans : SysAnswers) (s : Stat) : Except Fault Bytes :=
  match ans.localtime s.mtime with
  | none => .error .nullPointer
  | some date => .ok date.text

/-- The line of one listed entry, cut to the 1024 bytes of `html_line`. -/
def directoryLine (ans : SysAnswers) (requestUrl : Buffer) (name : Bytes) (s : Stat) :
    Except Fault Bytes := do
  let relFilepath ← bufferCopyBuffer bufferInit requestUrl
  let last ← lastCharacter relFilepath
  let relFilepath ← closeWithSlash relFilepath last
  let relFilepath ← bufferAppendString relFilepath name
  let filenameHtml ← bufferAppendString bufferInit (asciiBytes "<a href=\"")
  let filenameHtml ← bufferAppendBuffer filenameHtml relFilepath
  let filenameHtml ← bufferAppendStrings filenameHtml
    ([asciiBytes "\">", name, asciiBytes "</a>"] ++
      List.replicate (64 - name.length) (asciiBytes " "))
  let date ← lastModifiedTime ans s
  let line := snprintfLine [] (cString filenameHtml.data)
  let line := snprintfLine line (padLeft32 date)
  return snprintfLine line (padLeft32 (formatDecimal s.size) ++ asciiBytes "\r\n")

/-- The path of an entry, as it is handed to `stat`. -/
def entryPath (directoryPath : Buffer) (name : Bytes) : Except Fault Buffer := do
  let fullpath ← bufferCopyBuffer bufferInit directoryPath
  let last ← lastCharacter fullpath
  let fullpath ← closeWithSlash fullpath last
  bufferAppendString fullpath name

/-- An entry that can be stat'ed adds its line to the page. -/
def listEntry (ans : SysAnswers) (requestUrl : Buffer) (entry : Dirent) (b : Buffer) :
    Except Fault Buffer :=
  match entry.stat with
  | .fail _ => .ok b
  | .found s => do
    let line ← directoryLine ans requestUrl entry.name s
    bufferAppendString b line

/-- The `readdir` loop. -/
def listEntries (ans : SysAnswers) (requestUrl directoryPath : Buffer) :
    List Dirent → Buffer → Except Fault (Buffer × List Event)
  | [], b => .ok (b, [])
  | entry :: rest, b =>
    if entry.name = asciiBytes "." then listEntries ans requestUrl directoryPath rest b
    else do
      let path ← entryPath directoryPath entry.name
      let b ← listEntry ans requestUrl entry b
      let (b, events) ← listEntries ans requestUrl directoryPath rest b
      return (b, .statEntry (cString path.data) :: events)

/-- The list of a page; where `opendir` fails there is none. -/
def readDirectory (ans : SysAnswers) (requestUrl directoryPath b : Buffer) :
    Except Fault (Buffer × List Event) :=
  match ans.opendir with
  | none => .ok (b, [])
  | some entries => listEntries ans requestUrl directoryPath entries b

/-- `http_handle_directory_parse`, whose NULL result fails the caller's assert. -/
def httpHandleDirectoryParse (ans : SysAnswers) (conn : Connection) (directoryPath : Buffer) :
    Except Fault (Buffer × List Event) := do
  if bufferIsEmpty directoryPath then .error .assertion
  else
    let requestUrl := conn.connectionRequest.requestUrl
    let b ← bufferAppendStrings bufferInit
      [asciiBytes "<html>\r\n", asciiBytes "<head><title>", asciiBytes "Index of "]
    let b ← bufferAppendBuffer b requestUrl
    let last ← lastCharacter requestUrl
    let b ← closeWithSlash b last
    let b ← bufferAppendStrings b
      [asciiBytes "</title></head>\r\n", asciiBytes "<body bgcolor=\"white\">\r\n",
       asciiBytes "<h1>Index of ", cString requestUrl.data]
    let b ← closeWithSlash b last
    let b ← bufferAppendString b (asciiBytes "</h1><hr><pre>\r\n")
    let opened := Event.opendir (cString directoryPath.data)
    let (b, events) ← readDirectory ans requestUrl directoryPath b
    let b ← bufferAppendStrings b [asciiBytes "</pre><hr></body>\r\n", asciiBytes "</html>\r\n"]
    return (b, opened :: events)

/-- The answers to a path that cannot be served: its status, and no path kept. -/
def refusePath (conn : Connection) (status : Nat) : Connection :=
  { conn with httpStatus := status, connectionResponse := { conn.connectionResponse with
      fullpath := bufferReset conn.connectionResponse.fullpath } }

def statusOfErrno : Errno → Nat
  | .eacces => 403
  | .enoent => 404
  | _ => 500

def serveFile (config : ServerConfig) (conn : Connection) (size : Nat) :
    Except Fault Connection := do
  let response := conn.connectionResponse
  let contentType := match lookupMimeType config.table response.fullpath with
    | none => response.contentType
    | some mimeType => bufferCopyString response.contentType mimeType
  let writequeue ← chunkqueueAppendFile conn.writequeue response.fullpath 0 (u32 size)
  return { conn with
    connectionResponse := { response with contentType := contentType }
    writequeue := writequeue, httpResponseBodyFinished := true, httpStatus := 200 }

def serveDirectory (ans : SysAnswers) (conn : Connection) :
    Except Fault (Connection × List Event) := do
  let response := conn.connectionResponse
  let (b, events) ← httpHandleDirectoryParse ans conn response.fullpath
  let writequeue ← chunkqueueAppendBuffer conn.writequeue b
  return ({ conn with
    connectionResponse := { response with
      contentType := bufferCopyString response.contentType (asciiBytes "text/html") }
    writequeue := writequeue, httpResponseBodyFinished := true, httpStatus := 200 }, events)

/-- The connection once the URL is cut and the full path is built. -/
def withFullpath (config : ServerConfig) (conn : Connection) : Except Fault Connection := do
  let requestUrl := cutUrl conn.connectionRequest.requestUrl
  let fullpath ← buildFullpath config conn.connectionResponse.fullpath requestUrl
  return { conn with
    connectionRequest := { conn.connectionRequest with requestUrl := requestUrl }
    connectionResponse := { conn.connectionResponse with fullpath := fullpath } }

/-- `http_request_handle`. A request that has a status other than 200 already
is left alone. -/
def httpRequestHandle (config : ServerConfig) (ans : SysAnswers) (conn : Connection) :
    Except Fault (Int × Connection × List Event) := do
  if conn.httpStatus ≠ 0 ∧ conn.httpStatus ≠ 200 then return (0, conn, [])
  else if conn.connectionRequest.requestUrl.isNull then .error .nullPointer
  else
    let conn ← withFullpath config conn
    let path := Event.stat (cString conn.connectionResponse.fullpath.data)
    match ans.stat with
    | .fail errno => return (-1, refusePath conn (statusOfErrno errno), [path])
    | .found s =>
      match s.kind with
      | .regular =>
        let conn ← serveFile config conn s.size
        return (0, conn, [path])
      | .directory =>
        let (conn, events) ← serveDirectory ans conn
        return (0, conn, path :: events)
      | .other => return (-1, refusePath conn 403, [path])

/-- What `buildFullpath` leaves where its appends fit. -/
def joinedFullpath (config : ServerConfig) (fullpath requestUrl : Buffer) : Buffer :=
  let url := cString requestUrl.data
  appendedAll (bufferCopyStringLength fullpath config.serviceRootDir)
    [asciiBytes "/", if requestUrl.data.headD 0 = 47 then url.drop 1 else url]

/-- What `withFullpath` leaves where its appends fit. -/
def atFullpath (config : ServerConfig) (conn : Connection) : Connection :=
  let requestUrl := cutUrl conn.connectionRequest.requestUrl
  { conn with
    connectionRequest := { conn.connectionRequest with requestUrl := requestUrl }
    connectionResponse := { conn.connectionResponse with
      fullpath := joinedFullpath config conn.connectionResponse.fullpath requestUrl } }

lemma withFullpath_ok {config : ServerConfig} {conn after : Connection}
    (h : withFullpath config conn = .ok after) : after = atFullpath config conn := by
  simp only [withFullpath, bind, Except.bind] at h
  split at h
  · cases h
  · rename_i fullpath hbuild
    cases bufferAppendStrings_ok hbuild
    cases h
    rfl

end HttpResponse
