import Minihttpd.ConnectionTypes

/-!
# The request parser

`request.cpp`. Pointers into `request_content` are positions in its string.
The parser writes NULs into that string to cut it into C strings; `content`
is the string as it stands after those writes.
-/
namespace HttpRequest

open ByteBuffer ConnectionTypes

inductive HttpMethod where
  | unset
  | get
  | head
  | post
  | put
  | delete
  | connect
  | options
  | trace
  | acl
  | baselineControl
  | bind
  | checkin
  | checkout
  | copy
  | label
  | link
  | lock
  | merge
  | mkactivity
  | mkcalendar
  | mkcol
  | mkredirectref
  | mkworkspace
  | move
  | orderpatch
  | patch
  | propfind
  | proppatch
  | rebind
  | report
  | search
  | unbind
  | uncheckout
  | unlink
  | unlock
  | update
  | updateredirectref
  | versionControl
  deriving DecidableEq, Repr

def httpMethods : List (HttpMethod × String) :=
  [(.get, "GET"), (.head, "HEAD"), (.post, "POST"), (.put, "PUT"), (.delete, "DELETE"),
   (.connect, "CONNECT"), (.options, "OPTIONS"), (.trace, "TRACE"), (.acl, "ACL"),
   (.baselineControl, "BASELINE-CONTROL"), (.bind, "BIND"), (.checkin, "CHECKIN"),
   (.checkout, "CHECKOUT"), (.copy, "COPY"), (.label, "LABEL"), (.link, "LINK"),
   (.lock, "LOCK"), (.merge, "MERGE"), (.mkactivity, "MKACTIVITY"),
   (.mkcalendar, "MKCALENDAR"), (.mkcol, "MKCOL"), (.mkredirectref, "MKREDIRECTREF"),
   (.mkworkspace, "MKWORKSPACE"), (.move, "MOVE"), (.orderpatch, "ORDERPATCH"),
   (.patch, "PATCH"), (.propfind, "PROPFIND"), (.proppatch, "PROPPATCH"),
   (.rebind, "REBIND"), (.report, "REPORT"), (.search, "SEARCH"), (.unbind, "UNBIND"),
   (.uncheckout, "UNCHECKOUT"), (.unlink, "UNLINK"), (.unlock, "UNLOCK"),
   (.update, "UPDATE"), (.updateredirectref, "UPDATEREDIRECTREF"),
   (.versionControl, "VERSION-CONTROL")]

/-- `strcmp` is handed `b->ptr`, NULL for a buffer nothing was appended to. -/
def httpGetRequestMethod (b : Buffer) : Except Fault HttpMethod :=
  if b.isNull then .error .nullPointer
  else
    match httpMethods.find? (fun e => asciiBytes e.2 == cString b.data) with
    | some e => .ok e.1
    | none => .ok .unset

def isSpace (c : UInt8) : Bool := c == 32 || (9 ≤ c && c ≤ 13)

def isDigit (c : UInt8) : Bool := 48 ≤ c && c ≤ 57

def toLower (c : UInt8) : UInt8 := if 65 ≤ c && c ≤ 90 then c + 32 else c

/-- `strncasecmp(a, b, n) == 0` for two C strings. -/
def strncasecmpEq (a b : Bytes) (n : Nat) : Bool :=
  (a.take n).map toLower == (b.take n).map toLower

def decimalValue (digits : Bytes) : Nat :=
  digits.foldl (fun acc c => acc * 10 + (c.toNat - 48)) 0

/-- `strtol(s, &err, 10)` with 64-bit `long`: the value and the rest at `err`. -/
def strtol (s : Bytes) : Int × Bytes :=
  let t := s.dropWhile isSpace
  let (negative, t) :=
    match t with
    | 45 :: r => (true, r)
    | 43 :: r => (false, r)
    | _ => (false, t)
  let digits := t.takeWhile isDigit
  if digits.isEmpty then (0, s)
  else
    let v : Int := decimalValue digits
    let v := if negative then -v else v
    (max (-9223372036854775808) (min v 9223372036854775807), t.dropWhile isDigit)

/-- Conversion of a `long` to `int`. -/
def toInt32 (v : Int) : Int := (v + 2147483648) % 4294967296 - 2147483648

inductive RequestLine where
  | unfinished
  | extraSpace
  | malformed
  | found (method url proto index : Nat)
  deriving DecidableEq, Repr

/-- The scan for the first line, over the bytes from `index` on. -/
def scanRequestLine : Bytes → Nat → Nat → Nat → Nat → Nat → RequestLine
  | [], _, _, _, _, _ => .unfinished
  | c :: rest, index, offset, lineState, method, url =>
    if c = 32 then
      match lineState with
      | 0 => scanRequestLine rest (index + 1) (index + 1) 1 offset url
      | 1 => scanRequestLine rest (index + 1) (index + 1) 2 method offset
      | _ => .extraSpace
    else if c = 13 ∧ rest.headD 0 = 10 then
      if lineState ≠ 2 then .malformed else .found method url offset index
    else scanRequestLine rest (index + 1) offset lineState method url

/-- The version of a protocol word, or none where it is answered with 400. -/
def parseHttpVersion (support11 : Bool) (proto : Bytes) : Option HttpVersion :=
  if proto.take 5 = asciiBytes "HTTP/" then
    let majorVersion := proto.drop 5
    match majorVersion.findIdx? (fun c => c == 46) with
    | none => none
    | some 0 => none
    | some dot =>
      let minorVersion := majorVersion.drop (dot + 1)
      if minorVersion = [] then none
      else
        let (major, majorErr) := strtol (majorVersion.take dot)
        let (minor, minorErr) := strtol minorVersion
        if majorErr ≠ [] ∨ minorErr ≠ [] then none
        else if toInt32 major = 1 ∧ toInt32 minor = 1 then
          some (if support11 then .http11 else .http10)
        else if toInt32 major = 1 ∧ toInt32 minor = 0 then some .http10
        else none
  else none

structure OptionScan where
  index : Nat
  offset : Nat
  optionBuf : Nat
  isKey : Bool
  content : Bytes
  request : Request
  deriving DecidableEq, Repr

/-- One complete option line. `sizeof("Connection"-1)` is the size of a
pointer, so only eight bytes of that name are compared. -/
def applyOption (r : Request) (optionKey optionBuf : Bytes) : Request :=
  if strncasecmpEq optionKey (asciiBytes "Connection") 8 then
    if strncasecmpEq optionBuf (asciiBytes "keep-alive") 10 then { r with keepAlive := .keepAlive }
    else if strncasecmpEq optionBuf (asciiBytes "close") 5 then { r with keepAlive := .close }
    else r
  else if strncasecmpEq optionKey (asciiBytes "Host") 4 then
    { r with hostname := bufferCopyString r.hostname optionBuf }
  else if strncasecmpEq optionKey (asciiBytes "Range") 5 then
    { r with httpRange := bufferCopyString r.httpRange optionBuf }
  else r

/-- The end of an option line at `index`: the CRLF becomes two NULs. -/
def OptionScan.endLine (s : OptionScan) : OptionScan :=
  let content := (s.content.set s.index 0).set (s.index + 1) 0
  let request :=
    if s.index - s.optionBuf > 0 then
      applyOption s.request (cString (content.drop s.offset)) (cString (content.drop s.optionBuf))
    else s.request
  { s with index := s.index + 2, offset := s.index + 2, isKey := true,
           content := content, request := request }

/-- The option loop over the bytes from `s.index` on; false where a CR inside
a value is not followed by LF. -/
def scanOptions : Bytes → OptionScan → Bool × OptionScan
  | [], s => (true, s)
  | c :: rest, s =>
    if s.isKey then
      if c = 58 then
        scanOptions rest { s with index := s.index + 1, optionBuf := s.index + 1, isKey := false }
      else scanOptions rest { s with index := s.index + 1 }
    else if c = 13 then
      match rest with
      | 10 :: rest => scanOptions rest s.endLine
      | _ => (false, s)
    else if (c = 32 ∨ c = 9) ∧ s.optionBuf = s.index then
      scanOptions rest { s with index := s.index + 1, optionBuf := s.index + 1 }
    else scanOptions rest { s with index := s.index + 1 }

/-- The exits with `http_status` set, `keep_alive` cleared and result -1. -/
def rejectRequest (conn : Connection) (status : Nat) : Int × Connection :=
  (-1, { conn with httpStatus := status, keepAlive := false })

def Connection.withContent (conn : Connection) (content : Bytes) : Connection :=
  { conn with connectionRequest := { conn.connectionRequest with
      requestContent := { conn.connectionRequest.requestContent with data := content ++ [0] } } }

/-- `keep_alive` and the check for a hostname, once all options are read. -/
def finishRequest (conn : Connection) : Int × Connection :=
  let r := conn.connectionRequest
  if r.httpVersion = .http11 then
    let conn := { conn with keepAlive := r.keepAlive != .close }
    if bufferIsEmpty r.hostname then rejectRequest conn 400 else (0, conn)
  else (0, { conn with keepAlive := r.keepAlive == .keepAlive })

/-- The options behind the first line, which ends before `index`. -/
def parseOptions (conn : Connection) (content : Bytes) (index : Nat) : Int × Connection :=
  if bufferIsEmpty conn.connectionRequest.requestUrl then rejectRequest conn 400
  else
    let (valid, s) := scanOptions (content.drop index)
      ⟨index, index, 0, true, content, conn.connectionRequest⟩
    let conn := Connection.withContent { conn with connectionRequest := s.request } s.content
    if valid then finishRequest conn else rejectRequest conn 400

/-- The first line, found at these positions: method, URL and version. -/
def parseRequestLine (config : ServerConfig) (conn : Connection) (content : Bytes)
    (method url proto index : Nat) : Except Fault (Int × Connection) := do
  let content := (((content.set index 0).set (index + 1) 0).set (url - 1) 0).set (proto - 1) 0
  let conn := Connection.withContent conn content
  let methodB ← bufferAppendString bufferInit (cString (content.drop method))
  let methodKey ← httpGetRequestMethod methodB
  if methodKey ≠ .get ∧ methodKey ≠ .post then return rejectRequest conn 501
  let httpMethod ← bufferCopyBuffer conn.connectionRequest.httpMethod methodB
  let requestUrl := bufferCopyString conn.connectionRequest.requestUrl (cString (content.drop url))
  let conn := { conn with connectionRequest := { conn.connectionRequest with
    httpMethod := httpMethod, requestUrl := requestUrl } }
  match parseHttpVersion config.supportHttp11 (cString (content.drop proto)) with
  | none => return rejectRequest conn 400
  | some version =>
    let conn := { conn with connectionRequest := { conn.connectionRequest with
      httpVersion := version } }
    return parseOptions conn content (index + 2)

/-- `http_reuqest_parse`: 0 for a request to handle, -1 for a refused one. -/
def httpReuqestParse (config : ServerConfig) (conn : Connection) :
    Except Fault (Int × Connection) :=
  let content := conn.connectionRequest.requestContent.str
  match scanRequestLine content 0 0 0 0 0 with
  | .extraSpace => .ok (rejectRequest conn 400)
  | .malformed => .ok (rejectRequest conn 400)
  | .unfinished => .ok (parseOptions conn content content.length)
  | .found method url proto index => parseRequestLine config conn content method url proto index

end HttpRequest
