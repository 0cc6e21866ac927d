import Minihttpd.KeyMap
import Minihttpd.Confinement
import Minihttpd.WholeFile

/-!
# From the MIME file to the Content-Type

The pairs of a MIME file come back in the heads of the files that are served:
the first pair whose extension ends the path, in capitals or not, names the type.
-/
namespace ContentType

open ByteBuffer SystemCalls ConnectionTypes HttpRequest HttpResponse StateMachine FailingRun
open RequestOutcome ConnectionInvariant Turns ConnectionRuns Framing ResponseFraming ChunkQueueLaws
open Confinement KeyMap HttpConnection RequestUrl

/-- The type of the first pair whose extension ends the path. -/
def typeFor (pairs : List MimeTypeEntry) (path : Bytes) : Bytes :=
  match pairs.find? (fun e => decide (e.extension.map lowerByte <:+ path.map lowerByte)) with
  | some e => e.mimeType
  | none => asciiBytes "application/octet-stream"

example : typeFor [⟨asciiBytes ".gz", asciiBytes "a/b"⟩, ⟨asciiBytes ".tar.gz", asciiBytes "c/d"⟩]
    (asciiBytes "/srv/X.TAR.GZ") = asciiBytes "a/b" := by decide

/-- The head that is written next has one Content-Type line, which names `type`. -/
def HeadNames (config : ServerConfig) (m : Machine) (type : Bytes) : Prop :=
  ∀ ans, ∃ next head body, connectionIteration config ans m = .ok next ∧
    next.conn.writequeue.active = head :: body ∧
    fieldLines (asciiBytes "content-type") (chunkString head) =
      [asciiBytes "Content-Type: " ++ type]

/-- The configuration with the table of a MIME file. -/
def withMimeTable (config : ServerConfig) {filename : Bytes} {fopen : Option Bytes}
    {table : MimeTable} (loaded : mimeTableInitialize filename fopen = .ok (some table)) :
    ServerConfig :=
  { config with
    table := table.entry
    mimeLimit := fun e he => (mimeTable_types loaded e he).1
    mimeLines := fun e he => (mimeTable_types loaded e he).2 }

/-- What a MIME file is for: its pairs make up the table, and with that table
every regular file that is answered with status 200 is answered with its type. -/
structure ServesTypes (loaded : Except Fault (Option MimeTable)) (pairs : List MimeTypeEntry) :
    Prop where
  table : ∃ table, loaded = .ok (some table) ∧ table.entry = pairs ∧
    table.usedEntry = pairs.length
  configured : ∃ config : ServerConfig, config.table = pairs
  types : ∀ (config : ServerConfig) (m next : Machine) (ans : SysAnswers) (s : Stat),
    config.table = pairs → Reached config .running m → m.conn.state = .handleRequest →
    ans.stat = .found s → s.kind = .regular → connectionIteration config ans m = .ok next →
    next.conn.httpStatus = 200 →
    ∃ path, next.trace = m.trace ++ [.state .handleRequest, .stat path] ∧
      HeadNames config next (typeFor pairs path)

lemma toLower_eq : toLower = lowerByte := by
  funext c
  rw [toLower, lowerByte]
  simp only [Bool.and_eq_true, decide_eq_true_eq]

/-- The comparison at the end of a path. -/
lemma ends_iff {b : Buffer} {path extension : Bytes} (h : HoldsPath b path)
    (some_extension : extension ≠ []) :
    (0 < extension.length && extension.length ≤ bufferStringLength b &&
      strncasecmpEq (cString (b.data.drop (bufferStringLength b - extension.length)))
        extension extension.length) =
      decide (extension.map lowerByte <:+ path.map lowerByte) := by
  have hlength : bufferStringLength b = path.length := by
    rw [h.terminated.stringLength_eq, h.str]
  have hpos : 0 < extension.length := List.length_pos_iff.mpr some_extension
  rw [hlength, Bool.eq_iff_iff, Bool.and_eq_true, Bool.and_eq_true, decide_eq_true_iff,
    decide_eq_true_iff, decide_eq_true_iff, List.suffix_iff_eq_drop, List.length_map,
    List.length_map, ← List.map_drop]
  by_cases hfits : extension.length ≤ path.length
  · have hpart : cString (b.data.drop (path.length - extension.length)) =
        path.drop (path.length - extension.length) := by
      rw [h.data, List.drop_append_of_le_length (Nat.sub_le _ _)]
      exact cString_terminated fun c hc => h.nulFree c (List.mem_of_mem_drop hc)
    have hwhole : (path.drop (path.length - extension.length)).take extension.length =
        path.drop (path.length - extension.length) := by
      apply List.take_of_length_le
      rw [List.length_drop]
      omega
    rw [hpart, strncasecmpEq, hwhole, List.take_length, beq_iff_eq, toLower_eq]
    constructor
    · exact fun hmatch => hmatch.2.symm
    · exact fun hmatch => ⟨⟨hpos, hfits⟩, hmatch.symm⟩
  · constructor
    · exact fun hmatch => absurd hmatch.1.2 hfits
    · intro hmatch
      have := congrArg List.length hmatch
      rw [List.length_map, List.length_map, List.length_drop] at this
      omega

lemma lookupMimeType_first {b : Buffer} {path : Bytes} (h : HoldsPath b path)
    {pairs : List MimeTypeEntry} (named : ∀ e ∈ pairs, e.extension ≠ []) :
    lookupMimeType pairs b = (pairs.find? (fun e =>
      decide (e.extension.map lowerByte <:+ path.map lowerByte))).map MimeTypeEntry.mimeType := by
  induction pairs with
  | nil => rfl
  | cons e pairs ih =>
    have hrest := ih (fun d hd => named d (List.mem_cons_of_mem e hd))
    rw [lookupMimeType, List.find?_cons, List.find?_cons,
      ends_iff h (named e List.mem_cons_self)]
    split
    · rfl
    · exact hrest

/-- A head that grows too large is answered before it is handled. -/
lemma read_handles {config : ServerConfig} {curTs : Int} {ans : SysAnswers}
    {conn after : Connection} {bytes : Bytes} (reading : conn.state = .read)
    (h : ReadStateOutcome config curTs ans conn after bytes) (state : after.state = .handleRequest) :
    after.httpStatus = 414 := by
  cases h with
  | skipped =>
    rw [reading] at state
    cases state
  | nothing mid step =>
    rw [step.fields] at state
    exact absurd (reading.symm.trans state) ConnectionState.noConfusion
  | failed => cases state
  | endOfFile => cases state
  | got mid after step _ _ hexamine =>
    cases hexamine with
    | complete => cases state
    | tooLong => rfl
    | waiting =>
      rw [step.fields] at state
      exact absurd (reading.symm.trans state) ConnectionState.noConfusion

/-- A request that is still unanswered when it is handled has been accepted. -/
lemma handleRequest_source {config : ServerConfig} {m : Machine}
    (reached : Reached config .running m) (state : m.conn.state = .handleRequest)
    (unanswered : m.conn.httpStatus = 0) :
    ∃ p after, Reached config .running p ∧ p.conn.state = .requestEnd ∧
      httpReuqestParse config (clearRequest p.conn) = .ok (0, after) ∧
      m.conn = { after with state := .handleRequest } := by
  obtain ⟨p, ans, hp, _, _, _, hcases⟩ := entered_by_turn reached (by rw [state]; decide)
  cases hcases with
  | parsed result hstate hparse houtcome =>
    cases houtcome with
    | accepted r keep => exact ⟨p, _, hp, hstate, hparse, rfl⟩
    | rejected r status hstatus =>
      have hzero : status = 0 := unanswered
      omega
  | read after bytes hstate _ houtcome =>
    have hlarge : after.httpStatus = 414 := read_handles hstate houtcome state
    have hzero : after.httpStatus = 0 := unanswered
    omega
  | started => cases state
  | handled => cases state
  | prepared => cases state
  | wrote after bytes hstate _ _ houtcome =>
    have hnext : after.state ∈ successors .write := write_successor hstate houtcome
    have hhandle : after.state = .handleRequest := state
    rw [hhandle] at hnext
    exact absurd hnext (by decide)
  | finished => cases state
  | ended hstate =>
    rw [handleResponseEnd] at state
    split at state <;> cases state
  | failed => cases state
  | lingers ts hstate =>
    have hhandle : p.conn.state = .handleRequest := state
    have hclose : p.conn.state = .close := hstate
    rw [hhandle] at hclose
    cases hclose
  | closed => cases state
  | gone hstate =>
    have hhandle : p.conn.state = .handleRequest := state
    have hconnect : p.conn.state = .connect := hstate
    rw [hhandle] at hconnect
    cases hconnect

/-- The path of an unanswered request is a string. -/
lemma unanswered_path {config : ServerConfig} {m : Machine}
    (reached : Reached config .running m) (state : m.conn.state = .handleRequest)
    (unanswered : m.conn.httpStatus = 0) :
    HoldsPath (atFullpath config { m.conn with
        connectionResponse := responseInitialize }).connectionResponse.fullpath
      (requestPath config { m.conn with connectionResponse := responseInitialize }) := by
  obtain ⟨p, after, hp, hstate, haccepted, hconn⟩ := handleRequest_source reached state unanswered
  have htaken := accepted_taken hp hstate haccepted
  have hholds := @fullpath_holds config
    { m.conn with connectionResponse := responseInitialize } _
    (by rw [hconn]; exact htaken.cut) htaken.nulFree htaken.short
  rw [requestPath, hholds.cString]
  exact hholds

lemma hasName_label {label field : Bytes} (split : label = field ++ [58, 32])
    (noColon : (58 : UInt8) ∉ field) (name value : Bytes) :
    hasName name (label ++ value) = (field.map lowerByte == name) := by
  rw [split, List.append_assoc]
  exact hasName_append field noColon name (32 :: value)

/-- The one Content-Type line of a head. -/
lemma head_typeLine {config : ServerConfig} {conn : Connection} {statusText : String}
    (ans : SysAnswers) (text : (10 : UInt8) ∉ asciiBytes statusText)
    (type : (10 : UInt8) ∉ typeText conn.connectionResponse.contentType) :
    fieldLines (asciiBytes "content-type") (responseHeadParts config ans conn statusText).flatten =
      [asciiBytes "Content-Type: " ++ typeText conn.connectionResponse.contentType] := by
  have other : ∀ label field value : Bytes, label = field ++ [58, 32] → (58 : UInt8) ∉ field →
      (field.map lowerByte == asciiBytes "content-type") = false →
      ¬ hasName (asciiBytes "content-type") (label ++ value) = true := by
    intro label field value split noColon hfield
    rw [hasName_label split noColon, hfield]
    exact Bool.false_ne_true
  have hconnection : (connectionField conn).filter (hasName (asciiBytes "content-type")) = [] := by
    rw [List.filter_eq_nil_iff, connectionField]
    intro line hline
    split at hline
    · rw [List.mem_singleton.mp hline]
      exact other _ (asciiBytes "Connection") _ (by decide) (by decide) (by decide)
    · cases hline
  have hlength : (lengthField conn.connectionResponse.contentLength).filter
      (hasName (asciiBytes "content-type")) = [] := by
    rw [List.filter_eq_nil_iff, lengthField]
    intro line hline
    split at hline
    · rw [List.mem_singleton.mp hline]
      exact other _ (asciiBytes "Content-Length") _ (by decide) (by decide) (by decide)
    · cases hline
  have htype : hasName (asciiBytes "content-type") (asciiBytes "Content-Type: " ++
      typeText conn.connectionResponse.contentType) = true := by
    rw [@hasName_label _ (asciiBytes "Content-Type") (by decide) (by decide)]
    decide
  rw [head_fieldLines ans text type (by decide) (by decide), hconnection, hlength, closingFields,
    List.nil_append, List.nil_append, List.filter_cons_of_pos htype,
    List.filter_cons_of_neg (other _ (asciiBytes "Date") _ (by decide) (by decide) (by decide)),
    List.filter_cons_of_neg (other _ (asciiBytes "Server") _ (by decide) (by decide) (by decide)),
    List.filter_nil]

/-- A response with status 200 starts with a head that names its type. -/
lemma response_named {config : ServerConfig} {m : Machine}
    (reached : Reached config .running m) (state : m.conn.state = .responseStart)
    (ok : m.conn.httpStatus = 200)
    (type : (10 : UInt8) ∉ typeText m.conn.connectionResponse.contentType) :
    HeadNames config m (typeText m.conn.connectionResponse.contentType) := by
  intro ans
  obtain ⟨next, hturn⟩ := responseStart_returns ans reached state
  obtain ⟨mid, text, head, hqueued⟩ := head_queued reached state hturn
  have hmid : mid = m.conn := by
    cases hqueued.body with
    | kept => rfl
    | page _ _ herror =>
      rw [ok] at herror
      exact absurd herror (by decide)
  subst hmid
  obtain ⟨htext, _⟩ := statusText_plain (Or.inl ok) hqueued.status
  refine ⟨next, head, m.conn.writequeue.active, hturn, hqueued.active, ?_⟩
  have hsame := setContentLength_type m.conn
  rw [hqueued.text, head_typeLine ans htext.noLf (hsame.symm ▸ type), hsame]

/-- A type that was looked up, or none, as the head shows it. -/
lemma typeText_lookup {pairs : List MimeTypeEntry} {path : Bytes}
    (nulFree : ∀ e ∈ pairs, (0 : UInt8) ∉ e.mimeType)
    (short : ∀ e ∈ pairs, e.mimeType.length < 1024) :
    typeText (match (pairs.find? (fun e =>
        decide (e.extension.map lowerByte <:+ path.map lowerByte))).map MimeTypeEntry.mimeType with
      | none => bufferInit
      | some mimeType => bufferCopyString bufferInit mimeType) = typeFor pairs path := by
  rw [typeFor]
  cases hfind : pairs.find? (fun e =>
      decide (e.extension.map lowerByte <:+ path.map lowerByte)) with
  | none => rfl
  | some e =>
    have hmem := List.mem_of_find?_eq_some hfind
    have hshort := short e hmem
    have hdata : (bufferCopyString bufferInit e.mimeType).data = e.mimeType ++ [0] := rfl
    have hfilled : bufferIsEmpty (bufferCopyString bufferInit e.mimeType) = false := by
      rw [bufferIsEmpty, beq_eq_false_iff_ne, Buffer.usedBytes, hdata, List.length_append,
        List.length_singleton, u32_of_lt (by omega)]
      omega
    change typeText (bufferCopyString bufferInit e.mimeType) = e.mimeType
    rw [typeText, hfilled, if_neg Bool.false_ne_true, hdata]
    exact cString_terminated fun c hc hzero => nulFree e hmem (hzero ▸ hc)

lemma typeFor_oneLine (config : ServerConfig) (path : Bytes) :
    (10 : UInt8) ∉ typeFor config.table path := by
  rw [typeFor]
  split
  · rename_i e hfind
    exact config.mimeLines e (List.mem_of_find?_eq_some hfind)
  · decide

/-- The first pair whose extension ends the path of a regular file names the
type in the head of its response. -/
theorem regular_typed {config : ServerConfig} {m next : Machine} {ans : SysAnswers} {s : Stat}
    (named : ∀ e ∈ config.table, e.extension ≠ [])
    (nulFree : ∀ e ∈ config.table, (0 : UInt8) ∉ e.mimeType)
    (reached : Reached config .running m) (state : m.conn.state = .handleRequest)
    (found : ans.stat = .found s) (regular : s.kind = .regular)
    (turn : connectionIteration config ans m = .ok next) (ok : next.conn.httpStatus = 200) :
    ∃ path, next.trace = m.trace ++ [.state .handleRequest, .stat path] ∧
      HeadNames config next (typeFor config.table path) := by
  have hinv := (reached_inv reached).1.conn
  have hstart : next.conn.state = .responseStart := (handleRequest_inv
    (m := m.emit [.state .handleRequest]) hinv state
    (by simpa only [connectionIteration, Machine.emit, state] using turn)).2.1
  have hnext : Reached config .running next :=
    .turn reached turn (by rw [hstart, state]; exact ConnectionState.noConfusion)
  have hphase := hinv.phase
  rw [StateInv, state] at hphase
  have hturn := turn
  simp only [connectionIteration, Machine.emit, state] at hturn
  obtain ⟨⟨code, after, events⟩, hhandle, heq⟩ := bind_eq_ok.mp hturn
  cases heq
  have hother : m.conn.httpStatus ≠ 200 := by
    have := hphase.status
    omega
  have hzero : m.conn.httpStatus = 0 := @WholeFile.unanswered_of_ok config ans
    { m.conn with connectionResponse := responseInitialize } _ _ _ hother hhandle ok
  obtain ⟨writequeue, _, hafter, rfl⟩ := @WholeFile.regular_served config ans
    { m.conn with connectionResponse := responseInitialize } _ _ _ s hzero found regular hhandle
  have hpath := unanswered_path reached state hzero
  have htype : typeText after.connectionResponse.contentType = typeFor config.table
      (requestPath config { m.conn with connectionResponse := responseInitialize }) := by
    rw [← typeText_lookup nulFree config.mimeLimit, ← lookupMimeType_first hpath named, hafter]
    rfl
  have hline : (10 : UInt8) ∉ typeText after.connectionResponse.contentType :=
    htype ▸ typeFor_oneLine config _
  refine ⟨_, List.append_assoc _ _ _, ?_⟩
  rw [← htype]
  exact response_named hnext hstart ok hline

/-- The pairs of plain lines are words, and the types are strings. -/
lemma plain_pairs {lines : List MimeLine} (plain : ∀ line ∈ lines, line.Plain) :
    ∀ e ∈ pairsOf lines, e.extension ≠ [] ∧ (0 : UInt8) ∉ e.mimeType := by
  intro e he
  obtain ⟨line, hline, hentry⟩ := List.mem_filterMap.mp he
  cases line with
  | comment text => cases hentry
  | pair blanks extension mimeType =>
    obtain ⟨_, ⟨some_extension, _⟩, _, _, nulFree⟩ := (plain _ hline).legible
    cases hentry
    exact ⟨some_extension, nulFree⟩

/-- The pairs of a MIME file are those that files are served with, if and only
if the places for them can be counted in 32 bits. -/
theorem mime_types_iff {filename : Bytes} {lines : List MimeLine} (named : filename ≠ [])
    (plain : ∀ line ∈ lines, line.Plain) :
    ServesTypes (mimeTableInitialize filename (some (mimeFile lines))) (pairsOf lines) ↔
      (pairsOf lines).length ≤ 4294966272 := by
  have hread := mimeTable_read named plain
  constructor
  · intro h
    obtain ⟨table, hloaded, _⟩ := h.table
    by_contra hmany
    rw [if_neg hmany, hloaded] at hread
    cases hread
  · intro hfew
    rw [if_pos hfew] at hread
    obtain ⟨table, hloaded, hentry, hused⟩ := hread
    refine ⟨⟨table, hloaded, hentry, hused⟩, ⟨withMimeTable setConfigDefault hloaded, hentry⟩, ?_⟩
    intro config m next ans s htable reached state found regular turn ok
    rw [← htable]
    exact regular_typed (fun e he => (plain_pairs plain e (htable ▸ he)).1)
      (fun e he => (plain_pairs plain e (htable ▸ he)).2) reached state found regular turn ok

def mimePath : Bytes := asciiBytes "/etc/minihttpd/mime_type.conf"

def samplePair : MimeLine := .pair [32, 9] (asciiBytes ".tar.gz") (asciiBytes "application/gzip")

lemma samplePair_plain : samplePair.Plain :=
  ⟨by rw [samplePair]; simp only [MimeLine.Legible]; decide +kernel, by decide, by decide⟩

/-- A comment, and an extension that ends another. -/
theorem mime_types_comment : ServesTypes (mimeTableInitialize mimePath (some (mimeFile
      [.comment (asciiBytes " types"), samplePair, .pair [] (asciiBytes ".GZ") (asciiBytes "a/b")])))
    [⟨asciiBytes ".tar.gz", asciiBytes "application/gzip"⟩,
      ⟨asciiBytes ".GZ", asciiBytes "a/b"⟩] := by
  refine (mime_types_iff (by decide) ?_).mpr (by decide)
  intro line hline
  simp only [List.mem_cons, List.not_mem_nil, or_false] at hline
  rcases hline with rfl | rfl | rfl
  · exact ⟨trivial, by decide, by decide⟩
  · exact samplePair_plain
  · exact ⟨by simp only [MimeLine.Legible]; decide +kernel, by decide, by decide⟩

/-- The place for one pair more is looked for in a table of none. -/
theorem mime_types_not_large : (∀ line ∈ List.replicate 4294966273 samplePair, line.Plain) ∧
    mimeTableInitialize mimePath (some (mimeFile (List.replicate 4294966273 samplePair))) =
      .error .outOfBounds ∧
    ¬ ServesTypes (mimeTableInitialize mimePath
        (some (mimeFile (List.replicate 4294966273 samplePair))))
      (pairsOf (List.replicate 4294966273 samplePair)) := by
  generalize hcount : 4294966273 = n
  have plain : ∀ line ∈ List.replicate n samplePair, line.Plain := by
    intro line hline
    rw [List.eq_of_mem_replicate hline]
    exact samplePair_plain
  have hlength : (pairsOf (List.replicate n samplePair)).length = n := by
    have hentry : samplePair.entry =
        some ⟨asciiBytes ".tar.gz", asciiBytes "application/gzip"⟩ := rfl
    rw [pairsOf, List.filterMap_replicate_of_some hentry, List.length_replicate]
  have hread := @mimeTable_read mimePath _ (by decide) plain
  rw [hlength, if_neg (by omega)] at hread
  refine ⟨plain, hread, ?_⟩
  intro h
  obtain ⟨table, hloaded, _⟩ := h.table
  rw [hread] at hloaded
  cases hloaded

end ContentType
