import Minihttpd.ConnectionRuns
import Minihttpd.Library.LexicalPath
import Minihttpd.RequestUrl

/-!
# Which requests stay inside of the root directory

A path is the root directory, a slash and the URL, and nothing looks at the
segments of the URL. Whether the path leaves the root directory is decided by
the course of the URL alone.
-/
namespace Confinement

open ByteBuffer SystemCalls ChunkQueue ConnectionTypes HttpRequest HttpResponse HttpConnection
open StateMachine RequestOutcome RequestUrl ConnectionInvariant ConnectionRuns LexicalPath
open LexicalPath.Location ChunkQueueLaws

lemma cutUrlAt_data {b : Buffer} {url : Bytes} (mark : UInt8) (data : b.data = url ++ [0])
    (nulFree : ∀ c ∈ url, c ≠ 0) :
    (cutUrlAt mark b).data = url.takeWhile (fun c => c != mark) ++ [0] := by
  rw [cutUrlAt, data, cString_terminated nulFree]
  cases hfind : url.findIdx? (fun c => c == mark) with
  | none =>
    have hnone := List.findIdx?_eq_none_iff.mp hfind
    have hself : url.takeWhile (fun c => c != mark) = url := by
      rw [List.takeWhile_eq_self_iff]
      exact fun c hc => by simpa using hnone c hc
    rw [hself]
    exact data
  | some position =>
    obtain ⟨hlt, hget, hbefore⟩ := List.findIdx?_eq_some_iff_getElem.mp hfind
    have htake : url.takeWhile (fun c => c != mark) = url.take position := by
      have hidx := (List.findIdx?_eq_some_iff_findIdx_eq.mp hfind).2
      rw [List.takeWhile_eq_take_findIdx_not]
      simp only [bne, Bool.not_not, hidx]
    rw [htake]
    simp only [bufferStringSetLength, data]
    rw [List.append_assoc, List.take_append_of_le_length (Nat.le_of_lt hlt)]

/-- What is left of a URL behind the cuts at '#' and '?'. -/
lemma cutUrl_data {b : Buffer} {url : Bytes} (data : b.data = url ++ [0])
    (nulFree : ∀ c ∈ url, c ≠ 0) :
    (cutUrl b).data = url.takeWhile (fun c => c != 35 && c != 63) ++ [0] := by
  have hfirst := cutUrlAt_data 35 data nulFree
  have hsecond := cutUrlAt_data 63 hfirst
    (fun c hc => nulFree c ((List.takeWhile_prefix _).subset hc))
  rw [cutUrl, hsecond, List.takeWhile_takeWhile]
  congr 2
  funext c
  grind

/-- The URL without one slash in front. -/
def relativePart (url : Bytes) : Bytes := if url.headD 0 = 47 then url.drop 1 else url

/-- A buffer that holds a path. -/
structure HoldsPath (b : Buffer) (path : Bytes) : Prop where
  terminated : b.Terminated
  str : b.str = path
  data : b.data = path ++ [0]
  nulFree : ∀ c ∈ path, c ≠ 0

lemma HoldsPath.cString {b : Buffer} {path : Bytes} (h : HoldsPath b path) :
    cString b.data = path := by
  rw [h.data, cString_terminated h.nulFree]

theorem fullpath_holds {config : ServerConfig} {conn : Connection} {url : Bytes}
    (data : (cutUrl conn.connectionRequest.requestUrl).data = url ++ [0])
    (nulFree : ∀ c ∈ url, c ≠ 0) (short : url.length < 3221225471) :
    HoldsPath (atFullpath config conn).connectionResponse.fullpath
      (config.serviceRootDir ++ 47 :: relativePart url) := by
  have hroot := config.rootLimit
  have hurl : ByteBuffer.cString (cutUrl conn.connectionRequest.requestUrl).data = url := by
    rw [data, cString_terminated nulFree]
  have hhead : (cutUrl conn.connectionRequest.requestUrl).data.headD 0 = url.headD 0 := by
    rw [data]
    cases url <;> rfl
  have hpart : (relativePart url).length ≤ url.length ∧ ∀ c ∈ relativePart url, c ∈ url := by
    rw [relativePart]
    split
    · exact ⟨by simp, fun c hc => List.mem_of_mem_drop hc⟩
    · exact ⟨Nat.le_refl _, fun c hc => hc⟩
  have hslash : asciiBytes "/" = [47] := by decide
  have hpath : (atFullpath config conn).connectionResponse.fullpath =
      appendedAll (bufferCopyStringLength conn.connectionResponse.fullpath
        config.serviceRootDir) [[47], relativePart url] := by
    simp only [atFullpath, joinedFullpath, hurl, hhead, relativePart, hslash]
  obtain ⟨hstr, hterminated⟩ := appendedAll_str
    (bufferCopyStringLength_terminated conn.connectionResponse.fullpath
      (show config.serviceRootDir.length < 4294967295 by omega))
    [[47], relativePart url] (by
      simp only [bufferCopyStringLength_str, List.flatten_cons, List.flatten_nil, List.append_nil,
        List.length_append, List.length_cons, List.length_nil]
      omega)
  rw [← hpath] at hstr hterminated
  have hjoined : (atFullpath config conn).connectionResponse.fullpath.str =
      config.serviceRootDir ++ 47 :: relativePart url := by
    rw [hstr]
    simp
  refine ⟨hterminated, hjoined, ?_, ?_⟩
  · rcases hterminated.ending with hnil | hend
    · rw [Buffer.str, hnil] at hjoined
      simp at hjoined
    · rw [hend, hjoined]
  · intro c hc
    rcases List.mem_append.mp hc with hc | hc
    · exact config.rootNulFree c hc
    · rcases List.mem_cons.mp hc with rfl | hc
      · decide
      · exact nulFree c (hpart.2 c hc)

/-- The path fits its buffer, whatever the URL of a head is. -/
theorem withFullpath_returns {config : ServerConfig} {conn : Connection} {url : Bytes}
    (data : (cutUrl conn.connectionRequest.requestUrl).data = url ++ [0])
    (nulFree : ∀ c ∈ url, c ≠ 0) (short : url.length < 3221225471) :
    buildFullpath config conn.connectionResponse.fullpath
        (cutUrl conn.connectionRequest.requestUrl) =
      .ok (atFullpath config conn).connectionResponse.fullpath ∧
    withFullpath config conn = .ok (atFullpath config conn) ∧
    (atFullpath config conn).connectionResponse.fullpath.isNull = false := by
  have hroot := config.rootLimit
  have hurl : ByteBuffer.cString (cutUrl conn.connectionRequest.requestUrl).data = url := by
    rw [data, cString_terminated nulFree]
  have hone : asciiBytes "/" = [47] := by decide
  obtain ⟨happends, hstored⟩ := bufferAppendStrings_stored
    (bufferCopyStringLength_stored conn.connectionResponse.fullpath
      (show config.serviceRootDir.length + 1 ≤ 4294967232 by omega)).1
    [asciiBytes "/", if (cutUrl conn.connectionRequest.requestUrl).data.headD 0 = 47 then url.drop 1
      else url] (by
      rw [bufferCopyStringLength_str, hone, List.flatten_cons, List.flatten_singleton,
        List.length_append, List.length_singleton]
      split
      · rw [List.length_drop]
        omega
      · omega)
  rw [← hurl] at happends hstored
  have hbuild : buildFullpath config conn.connectionResponse.fullpath
      (cutUrl conn.connectionRequest.requestUrl) =
      .ok (atFullpath config conn).connectionResponse.fullpath := happends
  refine ⟨hbuild, ?_, hstored.not_null ?_⟩
  · rw [withFullpath, hbuild]
    rfl
  · have hholds := @fullpath_holds config conn url data nulFree short
    change (atFullpath config conn).connectionResponse.fullpath.str ≠ []
    rw [hholds.str]
    simp

/-- The place a path names, with '/' and '.' as its bytes. -/
def place (path : Bytes) : Location Bytes := locate 47 46 path

/-- `service_root_dir`; an empty one stands for "/", as the path built from it does. -/
def rootPlace (config : ServerConfig) : Location Bytes := place (config.serviceRootDir ++ [47])

def InsideRoot (config : ServerConfig) (path : Bytes) : Prop :=
  Inside (rootPlace config) (place path)

instance (config : ServerConfig) (path : Bytes) : Decidable (InsideRoot config path) :=
  inferInstanceAs (Decidable (Inside _ _))

/-- What a URL does, whatever directory it is taken from. -/
def urlCourse (url : Bytes) : Course Bytes := Course.ofMoves (movesOf 47 46 url)

lemma urlCourse_relativePart (url : Bytes) : urlCourse (relativePart url) = urlCourse url := by
  rw [relativePart]
  split
  · rename_i hslash
    cases url with
    | nil => rfl
    | cons c rest =>
      have hc : c = 47 := hslash
      subst hc
      rw [urlCourse, urlCourse, movesOf_slash, Course.ofMoves_stay]
      rfl
  · rfl

lemma insideRoot_iff (config : ServerConfig) (url : Bytes) :
    InsideRoot config (config.serviceRootDir ++ 47 :: relativePart url) ↔
      (rootPlace config).Returns (urlCourse url) := by
  rw [InsideRoot, place, locate_join, ← urlCourse_relativePart url]
  exact inside_follow_iff _ _

def eventPath : Event → Option Bytes
  | .stat path => some path
  | .opendir path => some path
  | _ => none

def queuedFile (c : Chunk) : Option Bytes :=
  match chunkSegment c with
  | .file path _ _ => some path
  | .memory _ => none

/-- The path kept in `fullpath`, those given to `stat` and `opendir` for it, and
the files queued. -/
def usedPaths (conn : Connection) (events : List Event) : List Bytes :=
  (if conn.connectionResponse.fullpath.data = [] then []
    else [cString conn.connectionResponse.fullpath.data]) ++
  events.filterMap eventPath ++ conn.writequeue.active.filterMap queuedFile

lemma queuedFile_mem {c : Chunk} (h : c.chunkType = .mem) : queuedFile c = none := by
  simp only [queuedFile, chunkSegment, h]

lemma queuedFile_file {c : Chunk} {b : Buffer} {path : Bytes} (h : c.chunkType = .file)
    (holds : HoldsPath b path) (name : bufferCopyBuffer bufferInit b = .ok c.filename) :
    queuedFile c = some path := by
  have hname : cString c.filename.data = path := by
    rw [bufferCopyBuffer] at name
    split at name
    · cases name
    · rw [← Except.ok.inj name, bufferCopyStringLength_data, holds.terminated.take_stringLength,
        holds.str, cString_terminated holds.nulFree]
  simp only [queuedFile, chunkSegment, h, hname]

/-- One path is built for a request, and nothing else is used. -/
theorem usedPaths_eq {config : ServerConfig} {ans : SysAnswers} {conn after : Connection}
    {events : List Event} {built : Bytes} (clean : IdleClean conn.writequeue)
    (empty : conn.writequeue.active = []) (status : conn.httpStatus = 0)
    (holds : HoldsPath (atFullpath config conn).connectionResponse.fullpath built)
    (h : HandleOutcome config ans conn after events) :
    ∀ path ∈ usedPaths after events, path = built := by
  have hstat : requestPath config conn = built := holds.cString
  have hfull : (atFullpath config conn).connectionResponse.fullpath.data ≠ [] := by
    rw [holds.data]
    simp
  intro path hpath
  rw [usedPaths] at hpath
  cases h with
  | answered h0 => exact absurd status h0
  | refused code =>
    simp [refusePath, atFullpath, bufferReset, eventPath, empty, hstat] at hpath
    exact hpath
  | file s contentType writequeue _ _ hqueue =>
    have hfiles : ∀ p ∈ writequeue.active.filterMap queuedFile, p = built := by
      rcases appendFile_spec clean hqueue with ⟨_, _, rfl⟩ | ⟨_, _, c, hactive, hfile, hname⟩
      · rw [empty]
        simp
      · have hc := queuedFile_file hfile holds hname.2.2.2.2.2.2.2.2
        rw [appended_empty empty hactive]
        simp [hc]
    simp [served, hfull, holds.cString, eventPath, hstat] at hpath
    rcases hpath with h | ⟨c, hc, hp⟩
    · exact h
    · exact hfiles path (List.mem_filterMap.mpr ⟨c, hc, hp⟩)
  | listing b listed writequeue hparsed hqueue =>
    obtain ⟨entries, rfl⟩ := directoryParse_events hparsed
    obtain ⟨c, hactive, _, hmem, _⟩ := appendBuffer_spec clean hqueue
    have hentries : (entries.map Event.statEntry).filterMap eventPath = [] := by
      induction entries <;> simp_all [eventPath]
    simp [served, hfull, holds.cString, eventPath, hstat, hentries,
      appended_empty empty hactive, queuedFile_mem hmem] at hpath
    exact hpath

/-- No path that the handling of a request builds or uses leaves the root. -/
def Confined (config : ServerConfig) (conn : Connection) : Prop :=
  InsideRoot config (requestPath config conn) ∧
    ∀ ans code after events, httpRequestHandle config ans conn = .ok (code, after, events) →
      ∀ path ∈ usedPaths after events, InsideRoot config path

lemma confined_iff_inside {config : ServerConfig} {conn : Connection} {built : Bytes}
    (clean : IdleClean conn.writequeue) (empty : conn.writequeue.active = [])
    (status : conn.httpStatus = 0)
    (holds : HoldsPath (atFullpath config conn).connectionResponse.fullpath built) :
    Confined config conn ↔ InsideRoot config built := by
  have hpath : requestPath config conn = built := holds.cString
  constructor
  · intro h
    rw [← hpath]
    exact h.1
  · intro inside
    refine ⟨hpath ▸ inside, ?_⟩
    intro ans code after events handled path used
    rw [usedPaths_eq clean empty status holds (httpRequestHandle_outcome handled) path used]
    exact inside

/-- What the parser leaves of a head it accepts, as far as its handling goes. -/
structure UrlTaken (head : Bytes) (conn : Connection) : Prop where
  url : ∃ b text, conn.connectionRequest.requestUrl = bufferCopyString b text ∧
    text.length < 3221225471
  cut : (cutUrl conn.connectionRequest.requestUrl).data = visibleUrl head ++ [0]
  nulFree : ∀ c ∈ visibleUrl head, c ≠ 0
  short : (visibleUrl head).length < 3221225471
  status : conn.httpStatus = 0
  clean : IdleClean conn.writequeue
  empty : conn.writequeue.active = []

/-- An accepted request, as it comes to its handling. -/
theorem accepted_taken {config : ServerConfig} {m : Machine} {after : Connection}
    (reached : Reached config .running m) (state : m.conn.state = .requestEnd)
    (accepted : httpReuqestParse config (clearRequest m.conn) = .ok (0, after)) :
    UrlTaken m.conn.connectionRequest.requestContent.str
      { after with connectionResponse := responseInitialize } := by
  have inv := (reached_inv reached).1.conn
  have hphase := inv.phase
  rw [StateInv, state] at hphase
  obtain ⟨fresh, ready⟩ := hphase
  obtain ⟨method, url, rest, hwords, hbuffer⟩ := accepted_url rfl accepted
  have hwords : Words m.conn.connectionRequest.requestContent.str method url rest := hwords
  have hvisible := visibleUrl_words hwords
  have hdata : after.connectionRequest.requestUrl.data = cString url ++ [0] := by
    rw [hbuffer]
    rfl
  have hcut := cutUrl_data hdata (cString_nulFree url)
  rw [← hvisible] at hcut
  have htext : (cString url).length < 3221225471 := by
    have hlimit := config.headLimit
    have hready := ready.short
    have hhead := congrArg List.length hwords.split
    have hsecond := (List.takeWhile_prefix (p := fun c => c != 0) (l := url)).length_le
    rw [cString]
    simp only [List.length_append, List.length_cons] at hhead
    omega
  have hpart : visibleUrl m.conn.connectionRequest.requestContent.str <+: cString url := by
    rw [hvisible]
    exact List.takeWhile_prefix _
  obtain ⟨r, keep, hafter⟩ : ∃ r keep, after =
      { clearRequest m.conn with connectionRequest := r, keepAlive := keep } := by
    cases httpReuqestParse_outcome accepted with
    | accepted r keep => exact ⟨r, keep, rfl⟩
  exact {
    url := ⟨_, _, hbuffer, htext⟩
    cut := hcut
    nulFree := fun c hc => cString_nulFree url c (hpart.subset hc)
    short := Nat.lt_of_le_of_lt hpart.length_le htext
    status := by rw [hafter]; rfl
    clean := by rw [hafter]; exact inv.writequeue.idle
    empty := by rw [hafter]; exact fresh.empty }

/-- The handling of an accepted request stays inside the root exactly when the
course of its URL does: what it climbs out of the root it descends into again. -/
theorem confined_iff {config : ServerConfig} {m : Machine} {after : Connection}
    (reached : Reached config .running m) (state : m.conn.state = .requestEnd)
    (accepted : httpReuqestParse config (clearRequest m.conn) = .ok (0, after)) :
    Confined config { after with connectionResponse := responseInitialize } ↔
      (rootPlace config).Returns
        (urlCourse (visibleUrl m.conn.connectionRequest.requestContent.str)) := by
  have htaken := accepted_taken reached state accepted
  rw [← insideRoot_iff]
  exact confined_iff_inside htaken.clean htaken.empty htaken.status
    (fullpath_holds htaken.cut htaken.nulFree htaken.short)

/-- The request as the parser leaves it, where it is accepted. -/
def acceptedRequest (config : ServerConfig) (m : Machine) : Option Connection :=
  match httpReuqestParse config (clearRequest m.conn) with
  | .ok (0, after) => some after
  | _ => none

lemma acceptedRequest_eq {config : ServerConfig} {m : Machine} {after : Connection}
    (h : acceptedRequest config m = some after) :
    httpReuqestParse config (clearRequest m.conn) = .ok (0, after) := by
  rw [acceptedRequest] at h
  split at h
  · rename_i hparse
    rw [hparse, Option.some.inj h]
  · cases h

/-- A machine that has read a head it accepts, for tests of what comes next. -/
lemma accepts_head {head : Bytes} {test : Machine → Connection → Bool}
    (h : (turns setConfigDefault readableMachine
        [{ SysAnswers.failing with read := .data head }]).any (fun m =>
      decide (m.conn.state = .requestEnd) &&
        (acceptedRequest setConfigDefault m).any (test m)) = true) :
    ∃ m after, Reached setConfigDefault .running m ∧ m.conn.state = .requestEnd ∧
      httpReuqestParse setConfigDefault (clearRequest m.conn) = .ok (0, after) ∧
      test m after = true := by
  obtain ⟨m, hturns, hm⟩ := (Option.any_eq_true _ _).mp h
  obtain ⟨hstate, haccepted⟩ := Bool.and_eq_true_iff.mp hm
  obtain ⟨after, hafter, htest⟩ := (Option.any_eq_true _ _).mp haccepted
  exact ⟨m, after, reached_turns _ readableMachine_reached hturns, of_decide_eq_true hstate,
    acceptedRequest_eq hafter, htest⟩

/-- Segments that climb no further than they have descended. -/
theorem confined_within : ∃ (m : Machine) (after : Connection), httpReuqestParse setConfigDefault (clearRequest m.conn) =
    .ok (0, after) ∧ m.conn.connectionRequest.requestContent.str =
      asciiBytes "GET /a/../b?../.. HTTP/1.0\r\n\r\n" ∧
    Confined setConfigDefault { after with connectionResponse := responseInitialize } := by
  obtain ⟨m, after, reached, state, accepted, htest⟩ :=
    @accepts_head (asciiBytes "GET /a/../b?../.. HTTP/1.0\r\n\r\n")
      (fun m _ => decide (m.conn.connectionRequest.requestContent.str =
        asciiBytes "GET /a/../b?../.. HTTP/1.0\r\n\r\n")) (by decide +kernel)
  have hhead := of_decide_eq_true htest
  refine ⟨m, after, accepted, hhead, (confined_iff reached state accepted).mpr ?_⟩
  rw [hhead]
  decide +kernel

/-- A URL with dots enough names a file outside of the root. -/
theorem confined_not_dots : ∃ m after, Reached setConfigDefault .running m ∧
    m.conn.state = .requestEnd ∧
    httpReuqestParse setConfigDefault (clearRequest m.conn) = .ok (0, after) ∧
    place (requestPath setConfigDefault
      { after with connectionResponse := responseInitialize }) =
      ⟨.root, [asciiBytes "etc", asciiBytes "passwd"]⟩ ∧
    ¬ Confined setConfigDefault { after with connectionResponse := responseInitialize } := by
  obtain ⟨m, after, reached, state, accepted, htest⟩ :=
    @accepts_head (asciiBytes "GET /../../../../etc/passwd HTTP/1.0\r\n\r\n")
      (fun _ after => decide (place (requestPath setConfigDefault
        { after with connectionResponse := responseInitialize }) =
          ⟨.root, [asciiBytes "etc", asciiBytes "passwd"]⟩)) (by decide +kernel)
  have hplace := of_decide_eq_true htest
  refine ⟨m, after, reached, state, accepted, hplace, ?_⟩
  intro confined
  have hinside := confined.1
  rw [InsideRoot, hplace] at hinside
  exact absurd hinside (by decide +kernel)

end Confinement
