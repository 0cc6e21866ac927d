import Minihttpd.ConnectionRuns
import Minihttpd.Library.Framing

/-!
# Framing of responses

A client that cuts the head behind its first CRLFCRLF and reads as many bytes
as its Content-Length line says gets the body that was queued. The line is left
out for an empty body.
-/
namespace ResponseFraming

open ByteBuffer SystemCalls ChunkQueue ChunkQueueLaws ConnectionTypes HttpRequest HttpResponse
open HttpConnection StateMachine ReadQueue WriteQueue RequestOutcome ConnectionInvariant
open ConnectionRuns Framing FailingRun

lemma digit_byte {c : Char} (h : c.isDigit = true) :
    isDigitByte c.toNat.toUInt8 = true ∧ c.toNat.toUInt8.toNat = c.toNat := by
  have hrange : 48 ≤ c.toNat ∧ c.toNat ≤ 57 := by
    simp only [Char.isDigit, Bool.and_eq_true, decide_eq_true_eq] at h
    exact ⟨h.1, h.2⟩
  have hbyte : c.toNat.toUInt8.toNat = c.toNat := by
    simp only [Nat.toUInt8_eq, UInt8.toNat_ofNat']
    omega
  refine ⟨?_, hbyte⟩
  simp only [isDigitByte, Bool.and_eq_true, decide_eq_true_eq, UInt8.le_iff_toNat_le, hbyte]
  exact hrange

lemma formatDecimal_digits (n : Nat) : ∀ c ∈ formatDecimal n, isDigitByte c = true := by
  intro c hc
  obtain ⟨d, hd, rfl⟩ := List.mem_map.mp hc
  exact (digit_byte (Nat.isDigit_of_mem_toDigits (by decide) (by decide) hd)).1

lemma formatDecimal_ne_nil (n : Nat) : formatDecimal n ≠ [] := by
  simp only [formatDecimal, ne_eq, List.map_eq_nil_iff]
  exact Nat.toDigits_ne_nil

/-- What `%d` writes is read back. -/
theorem readDecimal_formatDecimal (n : Nat) : readDecimal (formatDecimal n) = some n := by
  have hdigits : (formatDecimal n).all isDigitByte = true :=
    List.all_eq_true.mpr (formatDecimal_digits n)
  have hfold : ∀ (digits : List Char) (value : Nat), (∀ d ∈ digits, d.isDigit = true) →
      (digits.map fun c => c.toNat.toUInt8).foldl (fun value c => 10 * value + (c.toNat - 48)) value =
        Nat.ofDigitChars 10 digits value := by
    intro digits
    induction digits with
    | nil =>
      intro value _
      rfl
    | cons d digits ih =>
      intro value h
      rw [List.map_cons, List.foldl_cons, (digit_byte (h d List.mem_cons_self)).2,
        ih _ (fun c hc => h c (List.mem_cons_of_mem _ hc))]
      rfl
  rw [readDecimal, if_pos ⟨formatDecimal_ne_nil n, hdigits⟩, formatDecimal,
    hfold _ 0 (fun d hd => Nat.isDigit_of_mem_toDigits (by decide) (by decide) hd),
    Nat.ofDigitChars_toDigits (by decide) (by decide)]

lemma formatInt_small {n : Nat} (h : n < 2147483648) : formatInt (toInt32 n) = formatDecimal n := by
  have hsame : toInt32 n = n := by
    rw [toInt32]
    omega
  rw [hsame, formatInt, if_neg (by omega), Int.natAbs_natCast]

lemma oneLine_of_digits {s : Bytes} (h : ∀ c ∈ s, isDigitByte c = true) : OneLine s := by
  constructor
  · intro hc
    exact absurd (h 13 hc) (by decide)
  · intro hc
    exact absurd (h 10 hc) (by decide)

lemma oneLine_append {s t : Bytes} (hs : OneLine s) (ht : OneLine t) : OneLine (s ++ t) := by
  constructor
  · rw [List.mem_append]
    rintro (h | h)
    · exact hs.noCr h
    · exact ht.noCr h
  · rw [List.mem_append]
    rintro (h | h)
    · exact hs.noLf h
    · exact ht.noLf h

instance (line : Text) : Decidable (OneLine line) :=
  decidable_of_iff ((13 : UInt8) ∉ line ∧ (10 : UInt8) ∉ line)
    ⟨fun h => ⟨h.1, h.2⟩, fun h => ⟨h.noCr, h.noLf⟩⟩

def statusLine (conn : Connection) (statusText : String) : Bytes :=
  (if conn.connectionRequest.httpVersion = .http11 then asciiBytes "HTTP/1.1 "
    else asciiBytes "HTTP/1.0 ") ++
  (formatDecimal conn.httpStatus ++ asciiBytes " ") ++ asciiBytes statusText

def typeText (contentType : Buffer) : Bytes :=
  if bufferIsEmpty contentType then asciiBytes "application/octet-stream"
  else cString contentType.data

/-- The fields of a head, apart from Content-Length. -/
def connectionField (conn : Connection) : List Bytes :=
  if conn.connectionRequest.httpVersion ≠ .http11 ∨ conn.keepAlive = false then
    [asciiBytes "Connection: " ++
      (if conn.keepAlive then asciiBytes "keep-alive" else asciiBytes "close")]
  else []

def lengthField (contentLength : Nat) : List Bytes :=
  if contentLength > 0 then [asciiBytes "Content-Length: " ++ formatInt (toInt32 contentLength)]
  else []

def closingFields (config : ServerConfig) (ans : SysAnswers) (conn : Connection) : List Bytes :=
  [asciiBytes "Content-Type: " ++ typeText conn.connectionResponse.contentType,
   asciiBytes "Date: " ++ ans.date.text,
   asciiBytes "Server: " ++ config.serviceName]

def headFields (config : ServerConfig) (ans : SysAnswers) (conn : Connection) : List Bytes :=
  connectionField conn ++ lengthField conn.connectionResponse.contentLength ++
    closingFields config ans conn

/-- The strings of a head make up its lines. -/
lemma responseHeadParts_flatten (config : ServerConfig) (ans : SysAnswers) (conn : Connection)
    (statusText : String) : (responseHeadParts config ans conn statusText).flatten =
      joinLines (statusLine conn statusText :: headFields config ans conn) ++ crlf := by
  have literals : asciiBytes "\r\nConnection: " = crlf ++ asciiBytes "Connection: " ∧
      asciiBytes "\r\nContent-Length: " = crlf ++ asciiBytes "Content-Length: " ∧
      asciiBytes "\r\nContent-Type: application/octet-stream" =
        crlf ++ (asciiBytes "Content-Type: " ++ asciiBytes "application/octet-stream") ∧
      asciiBytes "\r\nContent-Type: " = crlf ++ asciiBytes "Content-Type: " ∧
      asciiBytes "\r\nDate: " = crlf ++ asciiBytes "Date: " ∧
      asciiBytes "\r\nServer: " = crlf ++ asciiBytes "Server: " ∧
      asciiBytes "\r\n\r\n" = crlf ++ crlf := by decide
  obtain ⟨h1, h2, h3, h4, h5, h6, h7⟩ := literals
  simp only [responseHeadParts, h1, h2, h3, h4, h5, h6, h7, joinLines, statusLine, headFields,
    connectionField, lengthField, closingFields, typeText]
  by_cases hconn : conn.connectionRequest.httpVersion ≠ .http11 ∨ conn.keepAlive = false <;>
  by_cases hlength : conn.connectionResponse.contentLength > 0 <;>
  by_cases htype : bufferIsEmpty conn.connectionResponse.contentType = true <;>
  simp only [hconn, hlength, htype, if_true, if_false, List.map_cons, List.map_nil,
    List.flatten_cons, List.flatten_nil, List.nil_append, List.append_nil, List.append_assoc, List.cons_append, Bool.false_eq_true]

/-- The strings a head takes from outside stay within their lines. -/
structure PlainHead (config : ServerConfig) (conn : Connection) (statusText : String) : Prop where
  service : OneLine config.serviceName
  status : OneLine (asciiBytes statusText)
  contentType : OneLine (typeText conn.connectionResponse.contentType)

lemma dateText_oneLine (d : DateText) : OneLine d.text := by
  constructor
  · intro h
    exact absurd (d.plain 13 h) (by decide)
  · intro h
    exact absurd (d.plain 10 h) (by decide)

lemma statusLine_oneLine {conn : Connection} {statusText : String}
    (h : OneLine (asciiBytes statusText)) : OneLine (statusLine conn statusText) := by
  refine oneLine_append (oneLine_append ?_ (oneLine_append ?_ (by decide))) h
  · split <;> decide
  · exact oneLine_of_digits (formatDecimal_digits _)

lemma formatInt_oneLine (v : Int) : OneLine (formatInt v) := by
  rw [formatInt]
  split
  · exact oneLine_append (s := [45]) (by decide) (oneLine_of_digits (formatDecimal_digits _))
  · exact oneLine_of_digits (formatDecimal_digits _)

lemma headFields_oneLine {config : ServerConfig} {ans : SysAnswers} {conn : Connection}
    {statusText : String} (plain : PlainHead config conn statusText) :
    ∀ line ∈ headFields config ans conn, OneLine line ∧ line ≠ [] := by
  have named : ∀ {name rest : Bytes}, OneLine name → name ≠ [] → OneLine rest →
      OneLine (name ++ rest) ∧ name ++ rest ≠ [] :=
    fun hname hne hrest => ⟨oneLine_append hname hrest, fun h => hne (List.append_eq_nil_iff.mp h).1⟩
  intro line hline
  rw [headFields, List.mem_append, List.mem_append] at hline
  rcases hline with (hline | hline) | hline
  · rw [connectionField] at hline
    split at hline
    · rw [List.mem_singleton.mp hline]
      refine named (by decide) (by decide) ?_
      split <;> decide
    · cases hline
  · rw [lengthField] at hline
    split at hline
    · rw [List.mem_singleton.mp hline]
      exact named (by decide) (by decide) (formatInt_oneLine _)
    · cases hline
  · simp only [closingFields, List.mem_cons, List.not_mem_nil, or_false] at hline
    rcases hline with rfl | rfl | rfl
    · exact named (by decide) (by decide) plain.contentType
    · exact named (by decide) (by decide) (dateText_oneLine _)
    · exact named (by decide) (by decide) plain.service

def lengthName : Bytes := asciiBytes "content-length"

/-- The Content-Length line as its name, a colon, a space and its value. -/
lemma lengthLine (value : Bytes) : asciiBytes "Content-Length: " ++ value =
    asciiBytes "Content-Length" ++ 58 :: 32 :: value := rfl

/-- A field whose name starts otherwise is not the status line. -/
lemma statusLine_other {name : Bytes} (other : name.head? ≠ some 104) (conn : Connection)
    (statusText : String) : ¬ hasName name (statusLine conn statusText) = true := by
  obtain ⟨tail, htail⟩ : ∃ tail, statusLine conn statusText = 72 :: tail := by
    rw [statusLine]
    split <;> exact ⟨_, rfl⟩
  have hname : fieldName (72 :: tail) = 104 :: fieldName tail := rfl
  rw [htail, hasName, beq_iff_eq, hname]
  rintro rfl
  exact other rfl

lemma connectionField_other (conn : Connection) :
    (connectionField conn).filter (hasName lengthName) = [] := by
  rw [List.filter_eq_nil_iff, connectionField]
  intro line hline
  split at hline
  · rw [List.mem_singleton.mp hline]
    have hname := hasName_append (asciiBytes "Connection") (by decide) lengthName
      (32 :: if conn.keepAlive then asciiBytes "keep-alive" else asciiBytes "close")
    exact ne_true_of_eq_false (hname.trans (by decide))
  · cases hline

lemma lengthField_named (contentLength : Nat) :
    (lengthField contentLength).filter (hasName lengthName) = lengthField contentLength := by
  rw [List.filter_eq_self, lengthField]
  intro line hline
  split at hline
  · rw [List.mem_singleton.mp hline, lengthLine, hasName_append _ (by decide)]
    decide
  · cases hline

/-- The names of the fields that close a head, in lower case. -/
def closingNames : List Bytes := [asciiBytes "content-type", asciiBytes "date", asciiBytes "server"]

lemma closingFields_other {name : Bytes} (other : name ∉ closingNames) (config : ServerConfig)
    (ans : SysAnswers) (conn : Connection) :
    (closingFields config ans conn).filter (hasName name) = [] := by
  have named : ∀ field rest : Bytes, (58 : UInt8) ∉ field → field.map lowerByte ∈ closingNames →
      ¬ hasName name (field ++ 58 :: rest) = true := by
    intro field rest noColon hfield h
    rw [hasName_append field noColon, beq_iff_eq] at h
    exact other (h ▸ hfield)
  rw [List.filter_eq_nil_iff]
  intro line hline
  simp only [closingFields, List.mem_cons, List.not_mem_nil, or_false] at hline
  rcases hline with rfl | rfl | rfl
  · exact named (asciiBytes "Content-Type") _ (by decide) (by decide)
  · exact named (asciiBytes "Date") _ (by decide) (by decide)
  · exact named (asciiBytes "Server") _ (by decide) (by decide)

/-- A head is cut into its lines when no line feed comes in from outside. -/
lemma headLines_noLf {config : ServerConfig} {conn : Connection} {statusText : String}
    (ans : SysAnswers) (text : (10 : UInt8) ∉ asciiBytes statusText)
    (type : (10 : UInt8) ∉ typeText conn.connectionResponse.contentType) :
    ∀ line ∈ statusLine conn statusText :: headFields config ans conn, (10 : UInt8) ∉ line := by
  have joined : ∀ {s t : Bytes}, (10 : UInt8) ∉ s → (10 : UInt8) ∉ t → (10 : UInt8) ∉ s ++ t :=
    fun hs ht h => (List.mem_append.mp h).elim hs ht
  intro line hline
  rcases List.mem_cons.mp hline with rfl | hline
  · refine joined (joined ?_ (joined ?_ (by decide))) text
    · split <;> decide
    · exact (oneLine_of_digits (formatDecimal_digits _)).noLf
  rw [headFields, List.mem_append, List.mem_append] at hline
  rcases hline with (hline | hline) | hline
  · rw [connectionField] at hline
    split at hline
    · rw [List.mem_singleton.mp hline]
      refine joined (by decide) ?_
      split <;> decide
    · cases hline
  · rw [lengthField] at hline
    split at hline
    · rw [List.mem_singleton.mp hline]
      exact joined (by decide) ((formatInt_oneLine _).noLf)
    · cases hline
  · simp only [closingFields, List.mem_cons, List.not_mem_nil, or_false] at hline
    rcases hline with rfl | rfl | rfl
    · exact joined (by decide) type
    · exact joined (by decide) (dateText_oneLine _).noLf
    · exact joined (by decide) config.nameLine

/-- The lines that a client finds under a name which starts no status line. -/
theorem head_fieldLines {config : ServerConfig} {conn : Connection} {statusText : String}
    (ans : SysAnswers) (text : (10 : UInt8) ∉ asciiBytes statusText)
    (type : (10 : UInt8) ∉ typeText conn.connectionResponse.contentType) {name : Bytes}
    (named : name ≠ []) (other : name.head? ≠ some 104) :
    fieldLines name (responseHeadParts config ans conn statusText).flatten =
      (connectionField conn).filter (hasName name) ++
        (lengthField conn.connectionResponse.contentLength).filter (hasName name) ++
        (closingFields config ans conn).filter (hasName name) := by
  have hend : (splitLines crlf).filter (hasName name) = [] := by
    rw [List.filter_eq_nil_iff]
    intro line hline
    have hempty : line = [] := by
      have hlines : splitLines crlf = [[], []] := by decide
      rw [hlines] at hline
      simpa using hline
    rw [hempty, hasName, beq_iff_eq]
    exact fun h => named h.symm
  rw [fieldLines, responseHeadParts_flatten, splitLines_joinLines (headLines_noLf ans text type),
    List.filter_append, hend, List.append_nil,
    List.filter_cons_of_neg (statusLine_other other conn statusText), headFields,
    List.filter_append, List.filter_append]

/-- No other line is taken for the Content-Length. -/
theorem head_lengthField {config : ServerConfig} {conn : Connection}
    {statusText : String} (ans : SysAnswers) (plain : PlainHead config conn statusText) :
    fieldLines lengthName (responseHeadParts config ans conn statusText).flatten =
      lengthField conn.connectionResponse.contentLength := by
  rw [head_fieldLines ans plain.status.noLf plain.contentType.noLf (by decide) (by decide),
    connectionField_other, lengthField_named, closingFields_other (by decide), List.nil_append,
    List.append_nil]

/-- The first CRLFCRLF of a head is its end. -/
theorem head_cut {config : ServerConfig} {ans : SysAnswers} {conn : Connection}
    {statusText : String} (plain : PlainHead config conn statusText) (rest : Bytes) :
    cutAfter blankLine ((responseHeadParts config ans conn statusText).flatten ++ rest) =
      some ((responseHeadParts config ans conn statusText).flatten, rest) := by
  rw [responseHeadParts_flatten]
  exact cutAfter_head (statusLine_oneLine plain.status) (headFields_oneLine plain) rest

/-- The client reads back what the head was written for. -/
theorem head_readMessage {config : ServerConfig} {ans : SysAnswers} {conn : Connection}
    {statusText : String} (plain : PlainHead config conn statusText) {body rest : Bytes}
    (length : conn.connectionResponse.contentLength = body.length) (pos : 0 < body.length)
    (small : body.length < 2147483648) :
    readMessage lengthName ((responseHeadParts config ans conn statusText).flatten ++
        (body ++ rest)) =
      some ((responseHeadParts config ans conn statusText).flatten, body, rest) := by
  have hfield := head_lengthField ans plain
  rw [lengthField, length, if_pos pos, formatInt_small small] at hfield
  have hvalue : readDecimal (fieldValue (asciiBytes "Content-Length: " ++
      formatDecimal body.length)) = some body.length := by
    have hspace : (formatDecimal body.length).head? ≠ some 32 := by
      intro h
      exact absurd (formatDecimal_digits _ 32 (List.mem_of_head? h)) (by decide)
    rw [lengthLine, fieldValue_append (by decide) hspace, readDecimal_formatDecimal]
  rw [readMessage_eq (head_cut plain (body ++ rest)) hfield hvalue
    (by rw [List.length_append]; omega), List.take_left, List.drop_left]

/-- The content types a response can have. -/
inductive ServedType (config : ServerConfig) (contentType : Buffer) : Prop where
  | unset : contentType = bufferInit → ServedType config contentType
  | html : contentType.data = asciiBytes "text/html" ++ [0] → ServedType config contentType
  | listed (e : MimeTypeEntry) : e ∈ config.table → contentType.data = e.mimeType ++ [0] →
      ServedType config contentType

lemma lookupMimeType_mem {table : List MimeTypeEntry} {fullpath : Buffer} {mimeType : Bytes}
    (h : lookupMimeType table fullpath = some mimeType) : ∃ e ∈ table, e.mimeType = mimeType := by
  obtain ⟨e, hfind, heq⟩ := Option.map_eq_some_iff.mp h
  exact ⟨e, List.mem_of_find?_eq_some hfind, heq⟩

lemma handleOutcome_type {config : ServerConfig} {ans : SysAnswers} {conn after : Connection}
    {events : List Event} (unset : conn.connectionResponse.contentType = bufferInit)
    (h : HandleOutcome config ans conn after events) :
    ServedType config after.connectionResponse.contentType := by
  cases h with
  | answered => exact .unset unset
  | refused => exact .unset unset
  | file s contentType writequeue _ _ _ htype =>
    change ServedType config contentType
    cases hlookup : lookupMimeType config.table
        (atFullpath config conn).connectionResponse.fullpath with
    | none =>
      rw [hlookup] at htype
      exact .unset (htype.trans unset)
    | some mimeType =>
      rw [hlookup] at htype
      obtain ⟨e, he, rfl⟩ := lookupMimeType_mem hlookup
      exact .listed e he (by rw [htype]; rfl)
  | listing => exact .html rfl

lemma responseStart_type {config : ServerConfig} {m : Machine}
    (reached : Reached config .running m) (hstate : m.conn.state = .responseStart) :
    ServedType config m.conn.connectionResponse.contentType := by
  obtain ⟨p, ans, _, hhandle, hturn⟩ := responseStart_source reached hstate
  have hrun : handleHandleRequest config ans (p.emit [.state p.conn.state]) = .ok m := by
    simpa only [connectionIteration, Machine.emit, hhandle] using hturn
  obtain ⟨⟨code, after, events⟩, hafter, heq⟩ := bind_eq_ok.mp hrun
  cases heq
  have houtcome := httpRequestHandle_outcome hafter
  have htype : ServedType config after.connectionResponse.contentType :=
    handleOutcome_type rfl houtcome
  exact htype

lemma bodyOutcome_type {config : ServerConfig} {conn mid : Connection}
    (before : ServedType config conn.connectionResponse.contentType)
    (h : BodyOutcome conn mid) : ServedType config mid.connectionResponse.contentType := by
  cases h with
  | kept => exact before
  | page => exact .html rfl

lemma cString_terminated_sublist (s : Bytes) : (cString (s ++ [0])).Sublist s := by
  rw [cString]
  induction s with
  | nil => exact List.Sublist.refl _
  | cons c s ih =>
    rw [List.cons_append, List.takeWhile_cons]
    split
    · exact ih.cons_cons c
    · exact List.nil_sublist _

/-- A content type is a text of its own, a part of an entry of the MIME table,
or the default. -/
lemma typeText_source {config : ServerConfig} {contentType : Buffer}
    (h : ServedType config contentType) :
    typeText contentType = asciiBytes "application/octet-stream" ∨
      (typeText contentType).Sublist (asciiBytes "text/html") ∨
      ∃ e ∈ config.table, (typeText contentType).Sublist e.mimeType := by
  have ofData : ∀ s : Bytes, contentType.data = s ++ [0] → s.length < 1024 →
      (typeText contentType).Sublist s := by
    intro s hdata hshort
    have hempty : bufferIsEmpty contentType = false := by
      rw [bufferIsEmpty, beq_eq_false_iff_ne, Buffer.usedBytes, hdata, List.length_append,
        List.length_singleton, u32_of_lt (by omega)]
      omega
    rw [typeText, hempty, if_neg Bool.false_ne_true, hdata]
    exact cString_terminated_sublist s
  cases h with
  | unset h =>
    left
    rw [h]
    rfl
  | html h => exact Or.inr (Or.inl (ofData _ h (by decide)))
  | listed e he h => exact Or.inr (Or.inr ⟨e, he, ofData _ h (config.mimeLimit e he)⟩)

lemma typeText_length {config : ServerConfig} {contentType : Buffer}
    (h : ServedType config contentType) : (typeText contentType).length < 1024 := by
  rcases typeText_source h with h | h | ⟨e, he, h⟩
  · rw [h]
    decide
  · exact Nat.lt_of_le_of_lt h.length_le (by decide)
  · exact Nat.lt_of_le_of_lt h.length_le (config.mimeLimit e he)

/-- A content type is one line when the MIME table holds lines only. -/
lemma typeText_plain {config : ServerConfig} {contentType : Buffer}
    (mime : ∀ e ∈ config.table, OneLine e.mimeType) (h : ServedType config contentType) :
    OneLine (typeText contentType) := by
  have part : ∀ s : Bytes, OneLine s → (typeText contentType).Sublist s →
      OneLine (typeText contentType) :=
    fun s one hsub => ⟨fun h => one.noCr (hsub.mem h), fun h => one.noLf (hsub.mem h)⟩
  rcases typeText_source h with h | h | ⟨e, he, h⟩
  · rw [h]
    decide
  · exact part _ (by decide) h
  · exact part _ (mime e he) h

lemma statusText_plain {status : Nat} {text : String}
    (listed : status = 200 ∨ status ∈ errorStatuses)
    (found : queryHttpStatusString status = some text) :
    OneLine (asciiBytes text) ∧ (asciiBytes text).length < 100 ∧
      (formatDecimal status).length < 10 := by
  have table : ∀ s ∈ 200 :: errorStatuses, (formatDecimal s).length < 10 ∧
      (queryHttpStatusString s).all (fun t => decide (OneLine (asciiBytes t) ∧
        (asciiBytes t).length < 100)) = true := by decide +kernel
  have hmem : status ∈ 200 :: errorStatuses := by
    rcases listed with rfl | h
    · exact List.mem_cons_self
    · exact List.mem_cons_of_mem _ h
  obtain ⟨hdigits, htext⟩ := table status hmem
  rw [found, Option.all_some, decide_eq_true_iff] at htext
  exact ⟨htext.1, htext.2, hdigits⟩

lemma connectionField_length (conn : Connection) :
    (joinLines (connectionField conn)).length ≤ 24 := by
  rw [connectionField]
  split
  · cases conn.keepAlive <;> decide
  · exact Nat.zero_le _

lemma formatInt_length (n : Nat) : (formatInt (toInt32 n)).length ≤ 11 := by
  have hrange : (toInt32 n).natAbs ≤ 2147483648 := by
    rw [toInt32]
    omega
  have hdecimal : (formatDecimal (toInt32 n).natAbs).length ≤ 10 := by
    rw [formatDecimal, List.length_map, Nat.length_toDigits_le_iff (by decide) (by decide)]
    omega
  rw [formatInt]
  split
  · rw [List.length_cons]
    omega
  · omega

lemma lengthField_length (contentLength : Nat) :
    (joinLines (lengthField contentLength)).length ≤ 29 := by
  have hdecimal := formatInt_length contentLength
  have hfield : (asciiBytes "Content-Length: ").length = 16 := rfl
  rw [lengthField]
  split
  · simp only [joinLines, List.map_cons, List.map_nil, List.flatten_cons, List.flatten_nil,
      List.append_nil, List.length_append, hfield]
    change 16 + _ + 2 ≤ 29
    omega
  · exact Nat.zero_le _

lemma closingFields_length (config : ServerConfig) (ans : SysAnswers) (conn : Connection) :
    (joinLines (closingFields config ans conn)).length =
      (typeText conn.connectionResponse.contentType).length +
        ans.date.text.length + config.serviceName.length + 34 := by
  have hfields : (asciiBytes "Content-Type: ").length = 14 ∧ (asciiBytes "Date: ").length = 6 ∧
      (asciiBytes "Server: ").length = 8 ∧ crlf.length = 2 := ⟨rfl, rfl, rfl, rfl⟩
  obtain ⟨h1, h2, h3, h4⟩ := hfields
  simp only [closingFields, joinLines, List.map_cons, List.map_nil, List.flatten_cons,
    List.flatten_nil, List.append_nil, List.length_append, h1, h2, h3, h4]
  omega

lemma statusLine_length (conn : Connection) (statusText : String) :
    (statusLine conn statusText).length =
      (formatDecimal conn.httpStatus).length + (asciiBytes statusText).length + 10 := by
  have hversion : (if conn.connectionRequest.httpVersion = .http11 then asciiBytes "HTTP/1.1 "
      else asciiBytes "HTTP/1.0 ").length = 9 := by split <;> rfl
  have hspace : (asciiBytes " ").length = 1 := rfl
  simp only [statusLine, List.length_append, hversion, hspace]
  omega

/-- Apart from the name of the server, a head is short. -/
lemma responseHeadParts_length {config : ServerConfig} {ans : SysAnswers} {conn : Connection}
    {statusText : String} (text : (asciiBytes statusText).length < 100)
    (digits : (formatDecimal conn.httpStatus).length < 10)
    (type : (typeText conn.connectionResponse.contentType).length < 1024) :
    config.serviceName.length ≤ (responseHeadParts config ans conn statusText).flatten.length ∧
      (responseHeadParts config ans conn statusText).flatten.length <
        config.serviceName.length + 2048 := by
  have hdate := ans.date.short
  have hstatus := statusLine_length conn statusText
  have hconnection := connectionField_length conn
  have hlength := lengthField_length conn.connectionResponse.contentLength
  have hclosing := closingFields_length config ans conn
  have hjoin : joinLines (statusLine conn statusText :: headFields config ans conn) =
      statusLine conn statusText ++ crlf ++ (joinLines (connectionField conn) ++
        joinLines (lengthField conn.connectionResponse.contentLength) ++
        joinLines (closingFields config ans conn)) := by
    simp only [headFields, joinLines, List.map_cons, List.map_append, List.flatten_cons,
      List.flatten_append]
  have hcrlf : crlf.length = 2 := rfl
  rw [responseHeadParts_flatten, hjoin]
  simp only [List.length_append, hcrlf]
  omega

/-- What `CON_STATE_WRITE` starts with, as it is framed. -/
structure Framed (head : Bytes) (body : Bytes) : Prop where
  ending : OnlyAtEnd blankLine head
  field : fieldLines lengthName head =
    if body = [] then [] else [asciiBytes "Content-Length: " ++ formatDecimal body.length]
  client : body ≠ [] → ∀ rest,
    readMessage lengthName (head ++ body ++ rest) = some (head, body, rest)

lemma parts_framed {config : ServerConfig} {ans : SysAnswers} {conn : Connection}
    {statusText : String} (plain : PlainHead config conn statusText) {body : Bytes}
    (length : conn.connectionResponse.contentLength = body.length)
    (small : body.length < 2147483648) :
    Framed (responseHeadParts config ans conn statusText).flatten body := by
  refine ⟨?_, ?_, fun nonempty rest => ?_⟩
  · exact cutAfter_onlyAtEnd blankLine_ne_nil (head_cut plain [])
  · rw [head_lengthField ans plain, lengthField, length]
    by_cases hempty : body = []
    · rw [if_pos hempty, hempty]
      rfl
    · rw [if_neg hempty, if_pos (List.length_pos_of_ne_nil hempty), formatInt_small small]
  · rw [List.append_assoc]
    exact head_readMessage plain length (List.length_pos_of_ne_nil nonempty) small

/-- `chunkqueue_length` counts the body that is queued. -/
lemma queueLength_body (file : Bytes → Nat → UInt8) {q : Chunkqueue} (ok : QueueOk q)
    (whole : Whole q) (single : q.active.length ≤ 1) :
    chunkqueueLength q = (unsent file q.active).length := by
  rw [chunkqueueLength]
  cases hactive : q.active with
  | nil => rfl
  | cons c rest =>
    have hrest : rest = [] := by
      rw [hactive, List.length_cons] at single
      exact List.length_eq_zero_iff.mp (by omega)
    subst hrest
    have hmem : c ∈ q.active := by
      rw [hactive]
      exact List.mem_singleton_self c
    have hok := ok.chunks c hmem
    have hone : unsent file [c] = unsentChunk file c := by
      rw [unsent_cons]
      exact List.append_nil _
    rw [hone, unsentChunk, whole c hmem, List.drop_zero, chunkContent_length file c]
    change u32 (0 + chunkLength c) = chunkLength c
    rw [Nat.zero_add, u32_of_lt (chunkLength_lt hok)]

/-- What `CON_STATE_RESPONSE_START` makes of `m`: the body of `mid`, and in front
of it the head, written for `mid` with its length set. -/
structure HeadQueued (config : ServerConfig) (ans : SysAnswers) (m next : Machine)
    (mid : Connection) (text : String) (head : Chunk) : Prop where
  body : BodyOutcome m.conn mid
  status : queryHttpStatusString m.conn.httpStatus = some text
  active : next.conn.writequeue.active = head :: mid.writequeue.active
  mem : head.chunkType = .mem
  untouched : head.chunkOffset = 0
  terminated : head.mem.Terminated
  text : chunkString head =
    (responseHeadParts config ans (setContentLength mid) text).flatten
  type : ServedType config (setContentLength mid).connectionResponse.contentType
  keepAlive : next.conn.keepAlive = (setContentLength mid).keepAlive
  trace : next.trace = m.trace ++ [.state .responseStart] ++
    [.respond next.conn.httpStatus (next.conn.writequeue.active.map chunkSegment)]

lemma setContentLength_type (conn : Connection) :
    (setContentLength conn).connectionResponse.contentType =
      conn.connectionResponse.contentType := by
  rw [setContentLength]
  split <;> rfl

/-- The head fits its buffer, whatever length it announces. -/
theorem head_queued {config : ServerConfig} {m next : Machine} {ans : SysAnswers}
    (reached : Reached config .running m) (hstate : m.conn.state = .responseStart)
    (turn : connectionIteration config ans m = .ok next) :
    ∃ mid text head, HeadQueued config ans m next mid text head := by
  have hinv := (reached_inv reached).1.conn
  have hphase := hinv.phase
  rw [StateInv, hstate] at hphase
  have hlisted := responseStart_listed hinv hstate
  have hrun : handleResponseStart config ans (m.emit [.state .responseStart]) = .ok next := by
    simpa only [connectionIteration, Machine.emit, hstate] using turn
  obtain ⟨after, hprepare, heq⟩ := bind_eq_ok.mp hrun
  cases heq
  obtain ⟨mid, text, writequeue, hbody, htext, hqueue, hafter⟩ :=
    prepareResponseHead_outcome hlisted hprepare
  obtain ⟨hok, _⟩ := bodyOutcome_spec hinv.writequeue hphase hbody
  obtain ⟨c, hactive, _, hmem, hzero, hterm, hstr, _⟩ := prependBuffer_spec hok.idle hqueue
  have htype : ServedType config (setContentLength mid).connectionResponse.contentType := by
    rw [setContentLength_type]
    exact bodyOutcome_type (responseStart_type reached hstate) hbody
  obtain ⟨_, htextShort, hdigits⟩ := statusText_plain hlisted htext
  have hstatus : (setContentLength mid).httpStatus = m.conn.httpStatus := by
    rw [setContentLength_status, hbody.status_eq]
  have hname := config.nameLimit
  have hfits := @responseHeadParts_length config ans (setContentLength mid) text htextShort
    (hstatus ▸ hdigits) (typeText_length htype)
  obtain ⟨hhead, hheadTerm⟩ := appendedAll_str bufferInit_terminated
    (responseHeadParts config ans (setContentLength mid) text)
    (by rw [bufferInit_str, List.length_nil]; omega)
  have hstring : chunkString c =
      (responseHeadParts config ans (setContentLength mid) text).flatten := by
    rw [chunkString_eq hterm, hstr, responseHead, hheadTerm.take_stringLength, hhead,
      bufferInit_str, List.nil_append]
  refine ⟨mid, text, c, hbody, htext, ?_, hmem, hzero, hterm, hstring, htype, ?_, rfl⟩
  · change after.writequeue.active = _
    rw [hafter]
    exact hactive
  · change after.keepAlive = _
    rw [hafter]

lemma customizeBody_returns {conn : Connection}
    (status : conn.httpStatus = 200 ∨ conn.httpStatus ∈ errorStatuses) :
    ∃ mid, customizeBody conn = .ok mid := by
  rw [customizeBody]
  rcases status with hok | herror
  · rw [if_neg (by omega), if_pos (by omega)]
    exact ⟨conn, rfl⟩
  · have hrange := errorStatus_range herror
    obtain ⟨text, htext⟩ := status_listed (Or.inr herror)
    have hlength := errorPage_length herror htext
    obtain ⟨hpage, b, hcopy⟩ := bufferAppendStrings_init
      (chunkqueueGetUnusedChunk conn.writequeue).1.mem
      (show (httpErrorPage conn.httpStatus text).flatten ≠ [] from List.cons_ne_nil _ _) (by omega)
    rw [if_neg (by omega), if_neg (by omega), appendErrorPage]
    simp only [htext, hpage, ok_bind, chunkqueueAppendBuffer, hcopy]
    exact ⟨_, rfl⟩

/-- A response always starts: its body can be copied, and so can its head. -/
theorem responseStart_returns {config : ServerConfig} {m : Machine} (ans : SysAnswers)
    (reached : Reached config .running m) (hstate : m.conn.state = .responseStart) :
    ∃ next, connectionIteration config ans m = .ok next := by
  have hinv := (reached_inv reached).1.conn
  have hlisted := responseStart_listed hinv hstate
  obtain ⟨mid, hmid⟩ := customizeBody_returns hlisted
  have hbody := customizeBody_outcome hlisted hmid
  obtain ⟨text, htext⟩ := status_listed hlisted
  have htype : ServedType config (setContentLength mid).connectionResponse.contentType := by
    rw [setContentLength_type]
    exact bodyOutcome_type (responseStart_type reached hstate) hbody
  obtain ⟨_, htextShort, hdigits⟩ := statusText_plain hlisted htext
  have hstatus : (setContentLength mid).httpStatus = m.conn.httpStatus := by
    rw [setContentLength_status, hbody.status_eq]
  have hfits := @responseHeadParts_length config ans (setContentLength mid) text htextShort
    (hstatus ▸ hdigits) (typeText_length htype)
  have hsome : (responseHeadParts config ans (setContentLength mid) text).flatten ≠ [] := by
    rw [responseHeadParts]
    split <;> exact List.cons_ne_nil _ _
  obtain ⟨hhead, b, hcopy⟩ := bufferAppendStrings_init
    (chunkqueueGetUnusedChunk (setContentLength mid).writequeue).1.mem hsome
    (by
      have hname := config.nameLimit
      omega)
  have hnonzero : ¬ m.conn.httpStatus = 0 := by
    rcases hlisted with h | h
    · omega
    · have := errorStatus_range h
      omega
  have hprepare : ∃ after, connectionHandlePrepareResponseHead config ans m.conn = .ok after := by
    simp only [connectionHandlePrepareResponseHead, if_neg hnonzero, hmid]
    change ∃ after, connectionWriteResponseHead config ans (setContentLength mid) = .ok after
    simp only [connectionWriteResponseHead, hstatus, htext, hhead, ok_bind,
      chunkqueuePrependBuffer, hcopy]
    exact ⟨_, rfl⟩
  obtain ⟨after, hafter⟩ := hprepare
  simp only [connectionIteration, Machine.emit, hstate, handleResponseStart, hafter]
  exact ⟨_, rfl⟩

/-- Every response that a client can delimit is delimited as it was queued. The
head ends with its only CRLFCRLF, and its one Content-Length line is the number
of bytes of the body; a response without a body has no such line. -/
theorem response_frames {config : ServerConfig} {m next : Machine} {ans : SysAnswers}
    (reached : Reached config .running m) (hstate : m.conn.state = .responseStart)
    (service : OneLine config.serviceName) (mime : ∀ e ∈ config.table, OneLine e.mimeType)
    (turn : connectionIteration config ans m = .ok next) :
    ∃ head body, next.conn.writequeue.active = head :: body ∧ ∀ file,
      (unsent file body).length < 2147483648 →
        unsent file next.conn.writequeue.active = chunkString head ++ unsent file body ∧
        Framed (chunkString head) (unsent file body) := by
  have hinv := (reached_inv reached).1.conn
  have hphase := hinv.phase
  rw [StateInv, hstate] at hphase
  obtain ⟨mid, text, c, hqueued⟩ := head_queued reached hstate turn
  obtain ⟨hok, hwhole, hlength, hfinished, _⟩ :=
    bodyOutcome_spec hinv.writequeue hphase hqueued.body
  have hset : setContentLength mid = { mid with connectionResponse :=
      { mid.connectionResponse with contentLength := chunkqueueLength mid.writequeue } } := by
    rw [setContentLength, if_pos hfinished]
  refine ⟨c, mid.writequeue.active, hqueued.active, fun file small => ?_⟩
  have hcount := queueLength_body file hok hwhole hlength
  obtain ⟨htextPlain, _⟩ := statusText_plain (responseStart_listed hinv hstate) hqueued.status
  have hplain : PlainHead config (setContentLength mid) text :=
    ⟨service, htextPlain, typeText_plain mime hqueued.type⟩
  have hlengthSet : (setContentLength mid).connectionResponse.contentLength =
      (unsent file mid.writequeue.active).length := by
    rw [hset]
    exact hcount
  constructor
  · rw [hqueued.active, unsent_cons,
      unsentChunk_whole file hqueued.mem hqueued.untouched hqueued.terminated,
      chunkString_eq hqueued.terminated]
  · rw [hqueued.text]
    exact parts_framed hplain hlengthSet small

/-- A response of `readableMachine`, before and after its head is in front of it. -/
def responseTo (answers : List SysAnswers) : Option (Machine × Machine) :=
  (turns setConfigDefault readableMachine answers).bind fun m =>
    match connectionIteration setConfigDefault SysAnswers.failing m with
    | .error _ => none
    | .ok next => some (m, next)

lemma responseTo_reached {answers : List SysAnswers} {m next : Machine}
    (h : responseTo answers = some (m, next)) : Reached setConfigDefault .running m ∧
      connectionIteration setConfigDefault SysAnswers.failing m = .ok next := by
  obtain ⟨m', hturns, hnext⟩ := Option.bind_eq_some_iff.mp h
  have reached := reached_turns answers readableMachine_reached hturns
  cases hturn : connectionIteration setConfigDefault SysAnswers.failing m' with
  | error e =>
    simp only [hturn] at hnext
    cases hnext
  | ok next' =>
    simp only [hturn] at hnext
    cases hnext
    exact ⟨reached, hturn⟩

/-- A request for a file of `size` bytes, on a connection that is to stay open. -/
def fileRequest (size : Nat) : List SysAnswers :=
  requestAnswers sampleRequest (.found ⟨.regular, size, 0⟩)

/-- A file of three bytes is framed. -/
theorem response_frames_three_bytes : ∃ next : Machine, ∃ head body,
    next.conn.writequeue.active = head :: body ∧
    (unsent (fun _ _ => 97) body).length = 3 ∧
    Framed (chunkString head) (unsent (fun _ _ => 97) body) := by
  have hrun : (responseTo (fileRequest 3)).any (fun run =>
      decide (run.1.conn.state = .responseStart ∧
        (unsent (fun _ _ => 97) run.2.conn.writequeue.active.tail).length = 3)) = true := by
    decide +kernel
  obtain ⟨⟨m, next⟩, hresponse, hrun⟩ := (Option.any_eq_true _ _).mp hrun
  obtain ⟨hstate, hlength⟩ := of_decide_eq_true hrun
  obtain ⟨reached, hturn⟩ := responseTo_reached hresponse
  obtain ⟨head, body, hactive, hframed⟩ :=
    response_frames reached hstate (by decide) (fun e he => by cases he) hturn
  have hbody : (unsent (fun _ _ => 97) body).length = 3 := by
    rw [hactive] at hlength
    exact hlength
  exact ⟨next, head, body, hactive, hbody, (hframed _ (by omega)).2⟩

/-- A file without a byte: the head has no Content-Length line, and a client
finds no response in the bytes that are sent. -/
theorem response_frames_not_empty : ∃ m next : Machine, ∃ head : Chunk,
    Reached setConfigDefault .running m ∧ m.conn.state = .responseStart ∧
    m.conn.keepAlive = true ∧
    connectionIteration setConfigDefault SysAnswers.failing m = .ok next ∧
    next.conn.writequeue.active = [head] ∧
    fieldLines lengthName (chunkString head) = [] ∧
    readMessage lengthName (chunkString head) = none := by
  have hrun : (responseTo (fileRequest 0)).any (fun run => decide (run.1.conn.state = .responseStart ∧
      run.1.conn.keepAlive = true ∧ run.2.conn.writequeue.active.map (fun c =>
        (fieldLines lengthName (chunkString c), readMessage lengthName (chunkString c))) =
          [([], none)])) = true := by
    decide +kernel
  obtain ⟨⟨m, next⟩, hresponse, hrun⟩ := (Option.any_eq_true _ _).mp hrun
  obtain ⟨hstate, hkeep, hqueue⟩ := of_decide_eq_true hrun
  obtain ⟨reached, hturn⟩ := responseTo_reached hresponse
  obtain ⟨head, hactive, hhead⟩ := List.map_eq_singleton_iff.mp hqueue
  exact ⟨m, next, head, reached, hstate, hkeep, hturn, hactive, congrArg Prod.fst hhead,
    congrArg Prod.snd hhead⟩

end ResponseFraming
