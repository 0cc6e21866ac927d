import Minihttpd.DirectoryListing
import Minihttpd.Library.BoundedMemory

/-!
# The accesses of the request handler

`http_request_handle` and `http_handle_directory_parse` with their reads
checked: bytes by position, the last one at an unsigned `length - 1`, and
strings that have to end inside their buffer.
-/
namespace CheckedResponse

open ByteBuffer SystemCalls ChunkQueue ChunkQueueLaws ConnectionTypes HttpRequest HttpResponse
open StateMachine RequestOutcome RequestUrl ConnectionRuns Confinement DirectoryListing
open BoundedMemory FailingRun

/-- The C string at `ptr`. -/
def stringOf (b : Buffer) : Except Fault Bytes := stringAt Fault.outOfBounds 0 b.data 0

/-- `ptr[buffer_string_length(b) - 1]`, in 32 bits. -/
def lastByte (b : Buffer) : Except Fault UInt8 :=
  byteAt Fault.outOfBounds b.data (u32Sub (bufferStringLength b) 1)

def checkedCutAt (mark : UInt8) (requestUrl : Buffer) : Except Fault Buffer := do
  let url ← stringOf requestUrl
  match url.findIdx? (fun c => c == mark) with
  | none => return requestUrl
  | some position => return bufferStringSetLength requestUrl position

def checkedCut (requestUrl : Buffer) : Except Fault Buffer := do
  let requestUrl ← checkedCutAt 35 requestUrl
  checkedCutAt 63 requestUrl

def checkedFullpath (config : ServerConfig) (fullpath requestUrl : Buffer) :
    Except Fault Buffer := do
  let root ← bufferAppendString (bufferCopyStringLength fullpath config.serviceRootDir)
    (asciiBytes "/")
  let first ← byteAt Fault.outOfBounds requestUrl.data 0
  let relative ← stringAt Fault.outOfBounds 0 requestUrl.data (if first = 47 then 1 else 0)
  bufferAppendString root relative

def checkedMimeType (fullpath : Buffer) : List MimeTypeEntry → Except Fault (Option Bytes)
  | [] => return none
  | entry :: rest =>
    let fullpathLen := bufferStringLength fullpath
    if entry.extension.length = 0 ∨ entry.extension.length > fullpathLen then
      checkedMimeType fullpath rest
    else do
      let ending ← stringAt Fault.outOfBounds 0 fullpath.data (fullpathLen - entry.extension.length)
      if strncasecmpEq ending entry.extension entry.extension.length then
        return some entry.mimeType
      else checkedMimeType fullpath rest

/-- `last_modified_time` and `filesize` are written through `ptr` behind their
`buffer_alloc_size`, which leaves their `used_bytes` at 0, and are read back. -/
def checkedDirectoryLine (ans : SysAnswers) (requestUrl : Buffer) (name : Bytes) (s : Stat) :
    Except Fault Bytes := do
  let relFilepath ← bufferCopyBuffer bufferInit requestUrl
  let last ← lastByte relFilepath
  let relFilepath ← closeWithSlash relFilepath last
  let relFilepath ← bufferAppendString relFilepath name
  let filenameHtml ← bufferAppendString bufferInit (asciiBytes "<a href=\"")
  let filenameHtml ← bufferAppendBuffer filenameHtml relFilepath
  let filenameHtml ← bufferAppendStrings filenameHtml
    ([asciiBytes "\">", name, asciiBytes "</a>"] ++
      List.replicate (64 - name.length) (asciiBytes " "))
  let _ ← lastModifiedTime ans s
  let html ← stringOf filenameHtml
  let line := snprintfLine [] html
  let date ← stringOf (bufferAllocSize bufferInit 256)
  let line := snprintfLine line (padLeft32 date)
  let size ← stringOf (bufferAllocSize bufferInit 32)
  return snprintfLine line (padLeft32 size ++ asciiBytes "\r\n")

def checkedEntryPath (directoryPath : Buffer) (name : Bytes) : Except Fault Bytes := do
  let fullpath ← bufferCopyBuffer bufferInit directoryPath
  let last ← lastByte fullpath
  let fullpath ← closeWithSlash fullpath last
  let fullpath ← bufferAppendString fullpath name
  stringOf fullpath

def checkedListEntry (ans : SysAnswers) (requestUrl : Buffer) (entry : Dirent) (b : Buffer) :
    Except Fault Buffer :=
  match entry.stat with
  | .fail _ => .ok b
  | .found s => do
    let line ← checkedDirectoryLine ans requestUrl entry.name s
    bufferAppendString b line

def checkedListEntries (ans : SysAnswers) (requestUrl directoryPath : Buffer) :
    List Dirent → Buffer → Except Fault (Buffer × List Event)
  | [], b => .ok (b, [])
  | entry :: rest, b =>
    if entry.name = asciiBytes "." then checkedListEntries ans requestUrl directoryPath rest b
    else do
      let path ← checkedEntryPath directoryPath entry.name
      let b ← checkedListEntry ans requestUrl entry b
      let (b, events) ← checkedListEntries ans requestUrl directoryPath rest b
      return (b, .statEntry path :: events)

def checkedReadDirectory (ans : SysAnswers) (requestUrl directoryPath b : Buffer) :
    Except Fault (Buffer × List Event) :=
  match ans.opendir with
  | none => .ok (b, [])
  | some entries => checkedListEntries ans requestUrl directoryPath entries b

def checkedDirectoryParse (ans : SysAnswers) (conn : Connection) (directoryPath : Buffer) :
    Except Fault (Buffer × List Event) := do
  if bufferIsEmpty directoryPath then .error .assertion
  else
    let requestUrl := conn.connectionRequest.requestUrl
    let b ← bufferAppendStrings bufferInit
      [asciiBytes "<html>\r\n", asciiBytes "<head><title>", asciiBytes "Index of "]
    let b ← bufferAppendBuffer b requestUrl
    let last ← lastByte requestUrl
    let b ← closeWithSlash b last
    let url ← stringOf requestUrl
    let b ← bufferAppendStrings b
      [asciiBytes "</title></head>\r\n", asciiBytes "<body bgcolor=\"white\">\r\n",
       asciiBytes "<h1>Index of ", url]
    let last ← lastByte requestUrl
    let b ← closeWithSlash b last
    let b ← bufferAppendString b (asciiBytes "</h1><hr><pre>\r\n")
    let path ← stringOf directoryPath
    let (b, events) ← checkedReadDirectory ans requestUrl directoryPath b
    let b ← bufferAppendStrings b [asciiBytes "</pre><hr></body>\r\n", asciiBytes "</html>\r\n"]
    return (b, .opendir path :: events)

def checkedServeFile (config : ServerConfig) (conn : Connection) (size : Nat) :
    Except Fault Connection := do
  let response := conn.connectionResponse
  let found ← checkedMimeType response.fullpath config.table
  let contentType := match found with
    | none => response.contentType
    | some mimeType => bufferCopyString response.contentType mimeType
  let writequeue ← chunkqueueAppendFile conn.writequeue response.fullpath 0 (u32 size)
  return { conn with
    connectionResponse := { response with contentType := contentType }
    writequeue := writequeue, httpResponseBodyFinished := true, httpStatus := 200 }

def checkedServeDirectory (ans : SysAnswers) (conn : Connection) :
    Except Fault (Connection × List Event) := do
  let response := conn.connectionResponse
  let (b, events) ← checkedDirectoryParse ans conn response.fullpath
  let writequeue ← chunkqueueAppendBuffer conn.writequeue b
  return ({ conn with
    connectionResponse := { response with
      contentType := bufferCopyString response.contentType (asciiBytes "text/html") }
    writequeue := writequeue, httpResponseBodyFinished := true, httpStatus := 200 }, events)

/-- `http_request_handle` with all its reads checked. -/
def checkedHandle (config : ServerConfig) (ans : SysAnswers) (conn : Connection) :
    Except Fault (Int × Connection × List Event) := do
  if conn.httpStatus ≠ 0 ∧ conn.httpStatus ≠ 200 then return (0, conn, [])
  else if conn.connectionRequest.requestUrl.isNull then .error .nullPointer
  else
    let requestUrl ← checkedCut conn.connectionRequest.requestUrl
    let fullpath ← checkedFullpath config conn.connectionResponse.fullpath requestUrl
    let path ← stringOf fullpath
    let conn := { conn with
      connectionRequest := { conn.connectionRequest with requestUrl := requestUrl }
      connectionResponse := { conn.connectionResponse with fullpath := fullpath } }
    match ans.stat with
    | .fail errno => return (-1, refusePath conn (statusOfErrno errno), [.stat path])
    | .found s =>
      match s.kind with
      | .regular =>
        let conn ← checkedServeFile config conn s.size
        return (0, conn, [.stat path])
      | .directory =>
        let (conn, events) ← checkedServeDirectory ans conn
        return (0, conn, .stat path :: events)
      | .other => return (-1, refusePath conn 403, [.stat path])

/-- Something was written to the buffer, and it ends with a NUL. -/
def Ends (b : Buffer) : Prop := ∃ text, b.data = text ++ [0]

lemma stringOf_eq {b : Buffer} (h : Ends b) : stringOf b = .ok (cString b.data) := by
  obtain ⟨text, hdata⟩ := h
  rw [stringOf, hdata, stringAt_text _ _ (Nat.zero_le _), List.drop_zero]
  exact congrArg Except.ok (cString_append text []).symm

lemma ends_store {b after : Buffer} {text : Bytes} (h : storeString b text = .ok after) :
    Ends after := ⟨text, by rw [storeString_ok h]⟩

lemma ends_append {b after : Buffer} (h : Ends b) {s : Bytes}
    (ok : bufferAppendString b s = .ok after) : Ends after := by
  rw [bufferAppendString, bufferAppendStringLength] at ok
  split at ok
  · cases ok
    exact h
  · dsimp only at ok
    split at ok <;> exact ends_store ok

lemma ends_slash {b after : Buffer} (h : Ends b) {last : UInt8}
    (ok : closeWithSlash b last = .ok after) : Ends after := by
  rw [closeWithSlash] at ok
  split at ok
  · exact ends_append h ok
  · cases ok
    exact h

lemma ends_copy {des src b : Buffer} (h : bufferCopyBuffer des src = .ok b) : Ends b := by
  rw [bufferCopyBuffer] at h
  split at h
  · cases h
  · cases h
    exact ⟨_, rfl⟩

/-- With an empty string the position wraps to the last one of 32 bits. -/
lemma lastByte_eq {b : Buffer} (h : b.Terminated) : lastByte b = lastCharacter b := by
  have hlength := h.stringLength_eq
  have hshort := h.short
  rw [Buffer.str, List.length_dropLast] at hlength
  rw [lastByte, lastCharacter, byteAt]
  by_cases hempty : bufferStringLength b = 0
  · have houtside : b.data[u32Sub (bufferStringLength b) 1]? = none := by
      rw [List.getElem?_eq_none_iff, hempty]
      change b.data.length ≤ 4294967295
      omega
    rw [if_pos hempty, houtside]
  · have hinside : u32Sub (bufferStringLength b) 1 < b.data.length := by
      rw [u32Sub_of_le (by omega) (by omega)]
      omega
    rw [if_neg hempty, List.getElem?_eq_getElem hinside,
      List.getD_eq_getElem?_getD, ← u32Sub_of_le (b := 1) (by omega) (by omega),
      List.getElem?_eq_getElem hinside]
    rfl

lemma checkedCutAt_eq (mark : UInt8) {b : Buffer} (h : Ends b) :
    checkedCutAt mark b = .ok (cutUrlAt mark b) ∧ Ends (cutUrlAt mark b) := by
  rw [checkedCutAt, stringOf_eq h, cutUrlAt]
  cases hfind : (cString b.data).findIdx? (fun c => c == mark) with
  | none =>
    simp only [Except.bind, bind, hfind]
    exact ⟨rfl, h⟩
  | some position =>
    simp only [Except.bind, bind, hfind]
    exact ⟨rfl, _, rfl⟩

lemma checkedCut_eq {b : Buffer} (h : Ends b) :
    checkedCut b = .ok (cutUrl b) ∧ Ends (cutUrl b) := by
  obtain ⟨hfirst, hends⟩ := checkedCutAt_eq 35 h
  obtain ⟨hsecond, hlast⟩ := checkedCutAt_eq 63 hends
  rw [checkedCut, hfirst]
  exact ⟨hsecond, hlast⟩

lemma checkedFullpath_eq (config : ServerConfig) (fullpath : Buffer) {requestUrl : Buffer}
    (h : Ends requestUrl) :
    checkedFullpath config fullpath requestUrl = buildFullpath config fullpath requestUrl := by
  obtain ⟨text, hdata⟩ := h
  have hurl : cString requestUrl.data = cString text := by
    rw [hdata]
    exact cString_append text []
  have hhead : requestUrl.data.headD 0 = text.headD 0 := by
    rw [hdata]
    cases text <;> rfl
  have hpart : stringAt Fault.outOfBounds 0 (text ++ [0]) (if text.headD 0 = 47 then 1 else 0) =
      .ok (if text.headD 0 = 47 then (cString text).drop 1 else cString text) := by
    split
    · rename_i hslash
      cases text with
      | nil => exact absurd hslash (by decide)
      | cons c rest =>
        obtain rfl : c = 47 := hslash
        exact stringAt_text _ _ (Nat.succ_le_succ (Nat.zero_le _))
    · exact stringAt_text _ _ (Nat.zero_le _)
  rw [checkedFullpath, buildFullpath, hurl, hhead, hdata, byteAt_headD _ _ (Nat.zero_le _),
    List.drop_zero]
  simp only [ok_bind, hpart, bufferAppendStrings, List.foldlM_cons, List.foldlM_nil, bind_pure]

lemma lookupMimeType_cons (fullpath : Buffer) (entry : MimeTypeEntry)
    (rest : List MimeTypeEntry) :
    lookupMimeType (entry :: rest) fullpath =
      if entry.extension.length = 0 ∨ entry.extension.length > bufferStringLength fullpath then
        lookupMimeType rest fullpath
      else if strncasecmpEq (cString (fullpath.data.drop
          (bufferStringLength fullpath - entry.extension.length)))
          entry.extension entry.extension.length then some entry.mimeType
      else lookupMimeType rest fullpath := by
  simp only [lookupMimeType, List.find?_cons]
  by_cases hskip : entry.extension.length = 0 ∨
      entry.extension.length > bufferStringLength fullpath
  · have hno : (0 < entry.extension.length &&
        entry.extension.length ≤ bufferStringLength fullpath) = false := by
      rcases hskip with h0 | hlong
      · simp [h0]
      · simp [Nat.not_le.mpr hlong]
    simp only [if_pos hskip, hno, Bool.false_and]
  · have hyes : (0 < entry.extension.length &&
        entry.extension.length ≤ bufferStringLength fullpath) = true := by
      simp only [Bool.and_eq_true, decide_eq_true_eq]
      omega
    simp only [if_neg hskip, hyes, Bool.true_and]
    split
    · rename_i hmatch
      rw [if_pos hmatch]
      rfl
    · rename_i hmatch
      rw [if_neg (Bool.eq_false_iff.mp hmatch)]

lemma checkedMimeType_eq {fullpath : Buffer} {path : Bytes} (h : HoldsPath fullpath path)
    (table : List MimeTypeEntry) :
    checkedMimeType fullpath table = .ok (lookupMimeType table fullpath) := by
  have hlength : bufferStringLength fullpath = path.length := by
    rw [h.terminated.stringLength_eq, h.str]
  induction table with
  | nil => rfl
  | cons entry rest ih =>
    rw [checkedMimeType, ih, lookupMimeType_cons]
    by_cases hskip : entry.extension.length = 0 ∨
        entry.extension.length > bufferStringLength fullpath
    · rw [if_pos hskip, if_pos hskip]
    · have hpart : cString (fullpath.data.drop (path.length - entry.extension.length)) =
          cString (path.drop (path.length - entry.extension.length)) := by
        rw [h.data, List.drop_append_of_le_length (Nat.sub_le _ _)]
        exact cString_append _ []
      have hstring : stringAt Fault.outOfBounds 0 fullpath.data
          (path.length - entry.extension.length) =
          .ok (cString (path.drop (path.length - entry.extension.length))) := by
        rw [h.data]
        exact stringAt_text _ _ (Nat.sub_le _ _)
      rw [if_neg hskip, if_neg hskip, hlength, hstring, hpart]
      simp only [Except.bind, bind]
      split <;> rfl

lemma stringOf_unused (sizes : Nat) :
    stringOf (bufferAllocSize bufferInit sizes) = .error .outOfBounds := by
  have hdata : (bufferAllocSize bufferInit sizes).data = [] := by
    rw [bufferAllocSize]
    generalize (if sizes = 0 then 1 else sizes) = request
    split <;> rfl
  rw [stringOf, hdata]
  rfl

/-- No line is put together inside of the buffers. -/
lemma checkedDirectoryLine_stops (ans : SysAnswers) (requestUrl : Buffer) (name : Bytes) (s : Stat)
    (line : Bytes) : checkedDirectoryLine ans requestUrl name s ≠ .ok line := by
  intro h
  rw [checkedDirectoryLine] at h
  obtain ⟨_, _, h⟩ := bind_eq_ok.mp h
  obtain ⟨_, _, h⟩ := bind_eq_ok.mp h
  obtain ⟨_, _, h⟩ := bind_eq_ok.mp h
  obtain ⟨_, _, h⟩ := bind_eq_ok.mp h
  obtain ⟨_, _, h⟩ := bind_eq_ok.mp h
  obtain ⟨_, _, h⟩ := bind_eq_ok.mp h
  obtain ⟨_, _, h⟩ := bind_eq_ok.mp h
  obtain ⟨_, _, h⟩ := bind_eq_ok.mp h
  obtain ⟨_, _, h⟩ := bind_eq_ok.mp h
  obtain ⟨_, hdate, _⟩ := bind_eq_ok.mp h
  rw [stringOf_unused] at hdate
  cases hdate

lemma checkedEntryPath_eq (directoryPath : Buffer) (name : Bytes) :
    checkedEntryPath directoryPath name =
      (entryPath directoryPath name).map (fun path => cString path.data) := by
  rw [checkedEntryPath, entryPath]
  cases hcopy : bufferCopyBuffer bufferInit directoryPath with
  | error e => rfl
  | ok copied =>
    simp only [ok_bind]
    rw [lastByte_eq (bufferCopyBuffer_ok hcopy).1]
    cases lastCharacter copied with
    | error e => rfl
    | ok last =>
      simp only [ok_bind]
      cases hclosed : closeWithSlash copied last with
      | error e => rfl
      | ok closed =>
        simp only [ok_bind]
        cases hpath : bufferAppendString closed name with
        | error e => rfl
        | ok path => exact stringOf_eq (ends_append (ends_slash (ends_copy hcopy) hclosed) hpath)

/-- No entry but "." can be looked at. -/
def NoneListed (entries : List Dirent) : Prop :=
  ∀ entry ∈ entries, entry.name ≠ asciiBytes "." → ∀ s, entry.stat ≠ .found s

/-- A list gets through with its reads checked if it has no lines. -/
lemma checkedListEntries_ok_iff (ans : SysAnswers) (requestUrl directoryPath : Buffer)
    (entries : List Dirent) (b : Buffer) (listed : Buffer × List Event) :
    checkedListEntries ans requestUrl directoryPath entries b = .ok listed ↔
      listEntries ans requestUrl directoryPath entries b = .ok listed ∧ NoneListed entries := by
  induction entries generalizing b listed with
  | nil => exact (and_iff_left fun _ h => by cases h).symm
  | cons entry rest ih =>
    rw [checkedListEntries, listEntries]
    by_cases hdot : entry.name = asciiBytes "."
    · rw [if_pos hdot, if_pos hdot, ih]
      have hskip : NoneListed (entry :: rest) ↔ NoneListed rest :=
        List.forall_mem_cons.trans (and_iff_right fun hother => absurd hdot hother)
      rw [hskip]
    · rw [if_neg hdot, if_neg hdot, checkedEntryPath_eq]
      cases hpath : entryPath directoryPath entry.name with
      | error e => exact iff_of_false (fun h => by cases h) (fun h => by cases h.1)
      | ok path =>
        simp only [Except.map, ok_bind, checkedListEntry, listEntry]
        cases hstat : entry.stat with
        | fail errno =>
          have hskip : NoneListed (entry :: rest) ↔ NoneListed rest :=
            List.forall_mem_cons.trans (and_iff_right fun _ s hfound => by
              rw [hstat] at hfound
              cases hfound)
          rw [hskip]
          exact bind_ok_and_first (ih b)
        | found s =>
          refine iff_of_false (fun h => ?_)
            (fun h => (List.forall_mem_cons.mp h.2).1 hdot s hstat)
          obtain ⟨_, hlisted, _⟩ := bind_eq_ok.mp h
          obtain ⟨line, hline, _⟩ := bind_eq_ok.mp hlisted
          exact checkedDirectoryLine_stops _ _ _ _ line hline

/-- A URL as it comes out of the cuts. -/
structure HoldsUrl (b : Buffer) (url : Bytes) : Prop where
  data : b.data = url ++ [0]
  short : url.length < 3221225471

lemma HoldsUrl.terminated {b : Buffer} {url : Bytes} (h : HoldsUrl b url) : b.Terminated := by
  have hshort := h.short
  refine ⟨?_, Or.inr ?_⟩
  · rw [h.data, List.length_append, List.length_singleton]
    omega
  · rw [Buffer.str, h.data, List.dropLast_concat]

lemma HoldsUrl.length {b : Buffer} {url : Bytes} (h : HoldsUrl b url) :
    bufferStringLength b = url.length := by
  rw [h.terminated.stringLength_eq, Buffer.str, h.data, List.dropLast_concat]

lemma checkedReadDirectory_ok_iff (ans : SysAnswers) (requestUrl directoryPath b : Buffer)
    (listed : Buffer × List Event) :
    checkedReadDirectory ans requestUrl directoryPath b = .ok listed ↔
      readDirectory ans requestUrl directoryPath b = .ok listed ∧
        NoneListed (ans.opendir.getD []) := by
  rw [checkedReadDirectory, readDirectory]
  cases ans.opendir with
  | none => exact (and_iff_left fun _ h => by cases h).symm
  | some entries => exact checkedListEntries_ok_iff ans requestUrl directoryPath entries b listed

lemma checkedDirectoryParse_ok_iff (ans : SysAnswers) (conn : Connection) {directoryPath : Buffer}
    {url : Bytes} (request : HoldsUrl conn.connectionRequest.requestUrl url)
    (path : Ends directoryPath) (result : Buffer × List Event) :
    checkedDirectoryParse ans conn directoryPath = .ok result ↔
      httpHandleDirectoryParse ans conn directoryPath = .ok result ∧
        NoneListed (ans.opendir.getD []) := by
  rw [checkedDirectoryParse, httpHandleDirectoryParse]
  split
  · exact iff_of_false (fun h => by cases h) (fun h => by cases h.1)
  · simp only [lastByte_eq request.terminated, stringOf_eq ⟨url, request.data⟩, stringOf_eq path,
      ok_bind]
    refine bind_ok_and_second fun titled _ => bind_ok_and_second fun named _ => ?_
    cases lastCharacter conn.connectionRequest.requestUrl with
    | error e => exact iff_of_false (fun h => by cases h) (fun h => by cases h.1)
    | ok last =>
      simp only [ok_bind]
      refine bind_ok_and_second fun _ _ => bind_ok_and_second fun _ _ =>
        bind_ok_and_second fun _ _ => bind_ok_and_second fun start _ => ?_
      exact bind_ok_and_first (checkedReadDirectory_ok_iff ans _ directoryPath start)

lemma checkedServeFile_eq (config : ServerConfig) {conn : Connection} {path : Bytes}
    (holds : HoldsPath conn.connectionResponse.fullpath path) (size : Nat) :
    checkedServeFile config conn size = serveFile config conn size := by
  rw [checkedServeFile, serveFile]
  dsimp only
  rw [checkedMimeType_eq holds]
  rfl

lemma checkedServeDirectory_ok_iff (ans : SysAnswers) {conn : Connection} {url path : Bytes}
    (request : HoldsUrl conn.connectionRequest.requestUrl url)
    (holds : HoldsPath conn.connectionResponse.fullpath path) (result : Connection × List Event) :
    checkedServeDirectory ans conn = .ok result ↔
      serveDirectory ans conn = .ok result ∧ NoneListed (ans.opendir.getD []) :=
  bind_ok_and_first (checkedDirectoryParse_ok_iff ans conn request ⟨path, holds.data⟩)

lemma lastCharacter_empty {b : Buffer} (h : HoldsUrl b []) :
    lastCharacter b = .error .outOfBounds := by
  have hlength : bufferStringLength b = 0 := h.length
  rw [lastCharacter, if_pos hlength]

/-- The last character of an empty URL is looked for far outside. -/
lemma checkedDirectoryParse_empty {ans : SysAnswers} {conn : Connection} {directoryPath : Buffer}
    {path : Bytes} (request : HoldsUrl conn.connectionRequest.requestUrl [])
    (holds : HoldsPath directoryPath path) :
    checkedDirectoryParse ans conn directoryPath = .error .outOfBounds := by
  obtain ⟨titled, htitled, hheld⟩ := bufferInit_held.appends
    [asciiBytes "<html>\r\n", asciiBytes "<head><title>", asciiBytes "Index of "] (by decide)
  obtain ⟨named, hnamed, _⟩ := hheld.appendBuffer request.data (by decide)
  rw [checkedDirectoryParse, path_not_empty holds]
  simp only [htitled, hnamed, lastByte_eq request.terminated, lastCharacter_empty request, ok_bind,
    Bool.false_eq_true, if_false]
  rfl

lemma appendFile_returns (q : Chunkqueue) {filename : Buffer} (offset len : Nat)
    (memory : filename.isNull = false) :
    ∃ p, chunkqueueAppendFile q filename offset len = .ok p := by
  simp only [chunkqueueAppendFile, memory, Bool.false_eq_true, if_false]
  split
  · exact ⟨_, rfl⟩
  · simp only [bufferCopyBuffer, memory, Bool.false_eq_true, if_false]
    exact ⟨_, rfl⟩

lemma appendBuffer_returns (q : Chunkqueue) {mem : Buffer} (memory : mem.isNull = false) :
    ∃ p, chunkqueueAppendBuffer q mem = .ok p := by
  simp only [chunkqueueAppendBuffer, bufferCopyBuffer, memory, Bool.false_eq_true, if_false]
  exact ⟨_, rfl⟩

lemma cut_memory (mark : UInt8) {b : Buffer} (memory : b.size ≠ 0)
    (short : b.data.length ≤ 4294967232) :
    (cutUrlAt mark b).size ≠ 0 ∧ (cutUrlAt mark b).data.length ≤ b.data.length := by
  rw [cutUrlAt]
  cases hfind : (cString b.data).findIdx? (fun c => c == mark) with
  | none => exact ⟨memory, Nat.le_refl _⟩
  | some position =>
    obtain ⟨hlt, _⟩ := List.findIdx?_eq_some_iff_getElem.mp hfind
    have hinside : position < b.data.length :=
      Nat.lt_of_lt_of_le hlt (List.takeWhile_prefix _).length_le
    constructor
    · have hsize := (le_bufferAlignSize (show position + 1 ≤ 4294967232 by omega)).1
      change (if b.size < u32 (position + 1) then bufferAlignSize (u32 (position + 1))
        else b.size) ≠ 0
      rw [u32_of_lt (by omega)]
      split
      · omega
      · exact memory
    · change (_ ++ [0]).length ≤ _
      rw [List.length_append, List.length_take, List.length_singleton]
      omega

/-- `stat` finds a directory at the path of the request. -/
def DirectoryFound (ans : SysAnswers) : Prop := ∃ s, ans.stat = .found s ∧ s.kind = .directory

/-- A directory that is listed inside of the buffers: its URL leaves something, it
has no lines, and no path and not the page outgrow a buffer. -/
structure ListedInside (path url : Bytes) (entries : List Dirent) : Prop where
  some_url : url ≠ []
  unlisted : NoneListed entries
  paths : PathsFit path entries
  fits : (page url []).length ≤ 4294967230

lemma NoneListed.no_lines {ans : SysAnswers} {url : Bytes} {entries : List Dirent}
    (h : NoneListed entries) : listedLines ans url entries = [] ∧ Dated ans entries := by
  constructor
  · rw [listedLines, List.filterMap_eq_nil_iff]
    intro entry hentry
    rw [listedLine]
    split
    · rfl
    · rename_i hother
      cases hstat : entry.stat with
      | fail errno => rfl
      | found s => exact absurd hstat (h entry hentry hother s)
  · exact fun entry hentry hother s hstat => absurd hstat (h entry hentry hother s)

section Accepted
variable {config : ServerConfig} {conn : Connection} {head : Bytes} {ans : SysAnswers}

lemma taken_url (h : UrlTaken head conn) :
    Ends conn.connectionRequest.requestUrl ∧ conn.connectionRequest.requestUrl.isNull = false ∧
      HoldsUrl (cutUrl conn.connectionRequest.requestUrl) (visibleUrl head) ∧
      (cutUrl conn.connectionRequest.requestUrl).isNull = false := by
  obtain ⟨b, text, hurl, hshort⟩ := h.url
  have hurl : conn.connectionRequest.requestUrl = bufferCopyStringLength b text := hurl
  have hmemory : (bufferCopyStringLength b text).size ≠ 0 :=
    (bufferCopyStringLength_stored b (by omega)).2
  have hlength : (bufferCopyStringLength b text).data.length ≤ 4294967232 := by
    rw [bufferCopyStringLength_data, List.length_append, List.length_singleton]
    omega
  have hfirst := cut_memory 35 hmemory hlength
  have hsecond := cut_memory 63 hfirst.1 (Nat.le_trans hfirst.2 hlength)
  refine ⟨⟨text, by rw [hurl]; rfl⟩, ?_, ⟨h.cut, h.short⟩, ?_⟩
  · rw [hurl]
    exact beq_eq_false_iff_ne.mpr hmemory
  · rw [hurl]
    exact beq_eq_false_iff_ne.mpr hsecond.1

/-- The path that an accepted request leads to. -/
def takenPath (config : ServerConfig) (head : Bytes) : Bytes :=
  config.serviceRootDir ++ 47 :: relativePart (visibleUrl head)

lemma taken_path (h : UrlTaken head conn) :
    HoldsPath (atFullpath config conn).connectionResponse.fullpath (takenPath config head) ∧
      takenPath config head ≠ [] :=
  ⟨fullpath_holds h.cut h.nulFree h.short, by simp [takenPath]⟩

lemma handle_eq (h : UrlTaken head conn) :
    checkedHandle config ans conn = match ans.stat with
      | .fail errno => .ok (-1, refusePath (atFullpath config conn) (statusOfErrno errno),
          [.stat (requestPath config conn)])
      | .found s => match s.kind with
        | .regular => checkedServeFile config (atFullpath config conn) s.size >>= fun after =>
            .ok (0, after, [.stat (requestPath config conn)])
        | .directory => checkedServeDirectory ans (atFullpath config conn) >>= fun served =>
            .ok (0, served.1, .stat (requestPath config conn) :: served.2)
        | .other => .ok (-1, refusePath (atFullpath config conn) 403,
            [.stat (requestPath config conn)]) := by
  obtain ⟨hends, hmemory, _⟩ := taken_url h
  obtain ⟨hcut, hcutEnds⟩ := checkedCut_eq hends
  obtain ⟨hbuild, _⟩ := @withFullpath_returns config conn _ h.cut h.nulFree h.short
  have hstring : stringOf (atFullpath config conn).connectionResponse.fullpath =
      .ok (requestPath config conn) :=
    stringOf_eq ⟨_, (@taken_path config conn head h).1.data⟩
  have hfull := (checkedFullpath_eq config conn.connectionResponse.fullpath hcutEnds).trans hbuild
  rw [checkedHandle, if_neg (fun hstatus => hstatus.1 h.status), hmemory]
  simp only [hcut, hfull, hstring, ok_bind, Bool.false_eq_true, if_false]
  rfl

/-- A file or its absence is handled inside of the buffers. -/
lemma handle_elsewhere (h : UrlTaken head conn) (elsewhere : ¬ DirectoryFound ans) :
    ∃ result, checkedHandle config ans conn = .ok result := by
  rw [handle_eq h]
  cases hstat : ans.stat with
  | fail errno => exact ⟨_, rfl⟩
  | found s =>
    dsimp only
    cases hkind : s.kind with
    | other => exact ⟨_, rfl⟩
    | directory => exact absurd ⟨s, hstat, hkind⟩ elsewhere
    | regular =>
      obtain ⟨_, _, hmemory⟩ := @withFullpath_returns config conn _ h.cut h.nulFree h.short
      obtain ⟨q, hq⟩ := appendFile_returns (atFullpath config conn).writequeue 0 (u32 s.size) hmemory
      dsimp only
      rw [checkedServeFile_eq config (taken_path h).1, serveFile, hq]
      exact ⟨_, rfl⟩

lemma serveDirectory_iff (h : UrlTaken head conn)
    (names : ∀ entry ∈ ans.opendir.getD [], PlainName entry.name) :
    (∃ served, checkedServeDirectory ans (atFullpath config conn) = .ok served) ↔
      ListedInside (takenPath config head) (visibleUrl head) (ans.opendir.getD []) := by
  obtain ⟨_, _, hurl, hmemory⟩ := taken_url h
  obtain ⟨hpath, hsome⟩ := @taken_path config conn head h
  obtain ⟨_, _, hdirectory⟩ := @withFullpath_returns config conn _ h.cut h.nulFree h.short
  have hrequest : HoldsUrl (atFullpath config conn).connectionRequest.requestUrl
      (visibleUrl head) := hurl
  have hholds : Holds (atFullpath config conn).connectionRequest.requestUrl (visibleUrl head) :=
    ⟨hrequest.terminated, by rw [Buffer.str, hrequest.data, List.dropLast_concat]⟩
  have hparse := fun (nonempty : visibleUrl head ≠ []) =>
    @directoryParse_iff ans _ _ _ _ hholds hmemory nonempty h.nulFree hpath hsome hdirectory names
  constructor
  · rintro ⟨served, hserved⟩
    obtain ⟨⟨b, events⟩, hchecked, _⟩ := bind_eq_ok.mp hserved
    have hnonempty : visibleUrl head ≠ [] := by
      intro hempty
      rw [hempty] at hrequest
      rw [checkedDirectoryParse_empty hrequest hpath] at hchecked
      cases hchecked
    obtain ⟨hparsed, hnone⟩ := (checkedDirectoryParse_ok_iff ans (atFullpath config conn) hrequest
      ⟨_, hpath.data⟩ (b, events)).mp hchecked
    obtain ⟨_, hpaths, hfits⟩ := (hparse hnonempty).2.mp ⟨b, events, hparsed⟩
    rw [(NoneListed.no_lines hnone).1] at hfits
    exact ⟨hnonempty, hnone, hpaths, hfits⟩
  · intro hlisted
    obtain ⟨hlines, hdated⟩ := @NoneListed.no_lines ans (visibleUrl head) _ hlisted.unlisted
    obtain ⟨hheld, hreturns⟩ := hparse hlisted.some_url
    obtain ⟨b, events, hb⟩ := hreturns.mpr ⟨hdated, hlisted.paths, by
      rw [hlines]
      exact hlisted.fits⟩
    have hpage := hheld b events hb
    have hmade := hpage.stored.not_null (by
      rw [hpage.str]
      exact List.ne_nil_of_length_pos (by rw [page_length]; omega))
    obtain ⟨q, hq⟩ := appendBuffer_returns (atFullpath config conn).writequeue hmade
    have hserve : ∃ served, serveDirectory ans (atFullpath config conn) = .ok served := by
      rw [serveDirectory, hb]
      simp only [ok_bind, hq]
      exact ⟨_, rfl⟩
    obtain ⟨served, hserved⟩ := hserve
    exact ⟨served, (checkedServeDirectory_ok_iff ans hrequest hpath served).mpr
      ⟨hserved, hlisted.unlisted⟩⟩

/-- The handling of an accepted request returns, all its reads inside of the
buffers, unless a directory is found that is not listed there. -/
theorem handle_inside_iff {m : Machine} {after : Connection}
    (reached : Reached config .running m) (state : m.conn.state = .requestEnd)
    (accepted : httpReuqestParse config (clearRequest m.conn) = .ok (0, after))
    (names : ∀ entry ∈ ans.opendir.getD [], PlainName entry.name) :
    (∃ result, checkedHandle config ans { after with connectionResponse := responseInitialize } =
      .ok result) ↔
      (DirectoryFound ans →
        ListedInside (takenPath config m.conn.connectionRequest.requestContent.str)
          (visibleUrl m.conn.connectionRequest.requestContent.str) (ans.opendir.getD [])) := by
  have htaken := accepted_taken reached state accepted
  generalize ({ after with connectionResponse := responseInitialize } : Connection) = conn
    at htaken ⊢
  generalize m.conn.connectionRequest.requestContent.str = head at htaken ⊢
  by_cases hfound : DirectoryFound ans
  · rw [← @serveDirectory_iff config _ _ _ htaken names]
    obtain ⟨s, hstat, hkind⟩ := hfound
    simp only [handle_eq htaken, hstat, hkind]
    constructor
    · rintro ⟨result, hresult⟩ _
      obtain ⟨served, hserved, _⟩ := bind_eq_ok.mp hresult
      exact ⟨served, hserved⟩
    · intro hserves
      obtain ⟨served, hserved⟩ := hserves ⟨s, hstat, hkind⟩
      exact ⟨_, bind_eq_ok.mpr ⟨served, hserved, rfl⟩⟩
  · exact iff_of_true (handle_elsewhere htaken hfound) (fun h => absurd h hfound)

end Accepted

/-- `stat` answers that the path is a directory; nothing in it can be looked at. -/
def directoryAnswers : SysAnswers :=
  { SysAnswers.failing with
    stat := .found ⟨.directory, 0, 0⟩
    opendir := some [⟨asciiBytes ".", .found ⟨.directory, 0, 0⟩⟩, ⟨asciiBytes "..", .fail .eacces⟩] }

lemma directoryAnswers_names :
    ∀ entry ∈ directoryAnswers.opendir.getD [], PlainName entry.name := by
  have hplain : ∀ entry ∈ directoryAnswers.opendir.getD [],
      entry.name.length ≤ 255 ∧ ∀ c ∈ entry.name, c ≠ 0 := by decide +kernel
  exact fun entry h => ⟨(hplain entry h).1, (hplain entry h).2⟩

/-- The root directory is listed where it is asked for by its slash. -/
theorem handle_inside_slash : ∃ (m : Machine) (after : Connection)
    (result : Int × Connection × List Event),
    httpReuqestParse setConfigDefault (clearRequest m.conn) = .ok (0, after) ∧
    m.conn.connectionRequest.requestContent.str = asciiBytes "GET /#top HTTP/1.0\r\n\r\n" ∧
    checkedHandle setConfigDefault directoryAnswers
      { after with connectionResponse := responseInitialize } = .ok result := by
  obtain ⟨m, after, reached, state, accepted, htest⟩ :=
    @accepts_head (asciiBytes "GET /#top HTTP/1.0\r\n\r\n")
      (fun m _ => decide (m.conn.connectionRequest.requestContent.str =
        asciiBytes "GET /#top HTTP/1.0\r\n\r\n")) (by decide +kernel)
  have hhead := of_decide_eq_true htest
  obtain ⟨result, hresult⟩ :=
    (handle_inside_iff reached state accepted directoryAnswers_names).mpr (by
      intro _
      rw [hhead]
      have hurl : visibleUrl (asciiBytes "GET /#top HTTP/1.0\r\n\r\n") = [47] := by decide
      rw [hurl]
      refine ⟨by decide, ?_, ?_, by decide +kernel⟩
      · intro entry hentry hother s
        have hstats : ∀ entry ∈ directoryAnswers.opendir.getD [], entry.name ≠ asciiBytes "." →
            entry.stat = .fail .eacces := by decide
        rw [hstats entry hentry hother]
        exact StatAnswer.noConfusion
      · intro entry hentry _
        have hpaths : ∀ entry ∈ directoryAnswers.opendir.getD [],
            (withSlash (takenPath setConfigDefault (asciiBytes "GET /#top HTTP/1.0\r\n\r\n")) ++
              entry.name).length ≤ 4294967230 := by decide +kernel
        exact Or.inr (hpaths entry hentry))
  exact ⟨m, after, result, accepted, hhead, hresult⟩

/-- Of a URL that is all fragment nothing is left, and its last byte is read. -/
theorem handle_inside_not_fragment : ∃ (m : Machine) (after : Connection),
    Reached setConfigDefault .running m ∧ m.conn.state = .requestEnd ∧
    m.conn.connectionRequest.requestContent.str = asciiBytes "GET # HTTP/1.0\r\n\r\n" ∧
    httpReuqestParse setConfigDefault (clearRequest m.conn) = .ok (0, after) ∧
    checkedHandle setConfigDefault directoryAnswers
      { after with connectionResponse := responseInitialize } = .error .outOfBounds := by
  obtain ⟨m, after, reached, state, accepted, htest⟩ :=
    @accepts_head (asciiBytes "GET # HTTP/1.0\r\n\r\n")
      (fun m _ => decide (m.conn.connectionRequest.requestContent.str =
        asciiBytes "GET # HTTP/1.0\r\n\r\n")) (by decide +kernel)
  have hhead := of_decide_eq_true htest
  have htaken := accepted_taken reached state accepted
  have hempty : visibleUrl m.conn.connectionRequest.requestContent.str = [] := by
    rw [hhead]
    decide
  have hrequest := (taken_url htaken).2.2.1
  rw [hempty] at hrequest
  refine ⟨m, after, reached, state, hhead, accepted, ?_⟩
  have hstat : directoryAnswers.stat = .found ⟨.directory, 0, 0⟩ := rfl
  rw [handle_eq htaken, hstat]
  simp only [checkedServeDirectory]
  rw [checkedDirectoryParse_empty hrequest (taken_path htaken).1]
  rfl

end CheckedResponse
