import Minihttpd.Library.BoundedMemory
import Minihttpd.RequestStream
import Minihttpd.RequestUrl

/-!
# The accesses of the request parser

`http_reuqest_parse` once more, position by position over the bytes of
`request_content`. Every read, write and string is checked against the buffer
and every pointer against NULL.
-/
namespace CheckedRequest

open ByteBuffer SystemCalls ConnectionTypes HttpRequest StateMachine RequestOutcome
open RequestUrl Turns ConnectionInvariant ConnectionRuns RequestStream Framing BoundedMemory FailingRun

/-- The first loop, from `index` on. The pointers start as NULL. -/
def checkedRequestLine (data : Bytes) (len : Nat) :
    Nat → Nat → Nat → Nat → Option Nat → Option Nat → Except Fault RequestLine
  | 0, _, _, _, _, _ => .error .outOfFuel
  | fuel + 1, index, offset, lineState, method, url =>
    if index < len then do
      let c ← byteAt Fault.outOfBounds data index
      if c = 32 then
        match lineState with
        | 0 => checkedRequestLine data len fuel (index + 1) (index + 1) 1 (some offset) url
        | 1 => checkedRequestLine data len fuel (index + 1) (index + 1) 2 method (some offset)
        | _ => return .extraSpace
      else if c = 13 then do
        let next ← byteAt Fault.outOfBounds data (index + 1)
        if next = 10 then
          if lineState ≠ 2 then return .malformed
          else
            match method, url with
            | some method, some url => return .found method url offset index
            | _, _ => .error .nullPointer
        else checkedRequestLine data len fuel (index + 1) offset lineState method url
      else checkedRequestLine data len fuel (index + 1) offset lineState method url
    else return .unfinished

/-- The byte in front of a position is overwritten. -/
def setBefore (data : Bytes) (i : Nat) (c : UInt8) : Except Fault Bytes :=
  if i = 0 then .error .outOfBounds else setByte Fault.outOfBounds data (i - 1) c

/-- `strtol` at a position, and the byte at `err`. -/
def checkedStrtol (data : Bytes) (i : Nat) : Except Fault (Int × UInt8) := do
  let s ← stringAt Fault.outOfBounds 0 data i
  let (value, rest) := strtol s
  let err ← byteAt Fault.outOfBounds data (i + (s.length - rest.length))
  return (value, err)

/-- The version at `proto`, and the buffer behind the look at it: the '.' is
overwritten for a while. -/
def checkedHttpVersion (support11 : Bool) (data : Bytes) (proto : Nat) :
    Except Fault (Option HttpVersion × Bytes) := do
  let word ← stringAt Fault.outOfBounds 0 data proto
  if word.take 5 = asciiBytes "HTTP/" then do
    let majorVersion ← stringAt Fault.outOfBounds 0 data (proto + 5)
    match majorVersion.findIdx? (fun c => c == 46) with
    | none => return (none, data)
    | some 0 => return (none, data)
    | some dot => do
      let minor := proto + 5 + dot
      let following ← byteAt Fault.outOfBounds data (minor + 1)
      if following = 0 then return (none, data)
      else do
        let data ← setByte Fault.outOfBounds data minor 0
        let (major, majorErr) ← checkedStrtol data (proto + 5)
        let data ← setByte Fault.outOfBounds data minor 46
        let (minor, minorErr) ← checkedStrtol data (minor + 1)
        if majorErr ≠ 0 ∨ minorErr ≠ 0 then return (none, data)
        else if toInt32 major = 1 ∧ toInt32 minor = 1 then
          return (some (if support11 then .http11 else .http10), data)
        else if toInt32 major = 1 ∧ toInt32 minor = 0 then return (some .http10, data)
        else return (none, data)
  else return (none, data)

/-- The end of an option line; `option_buf_len` is a `uint32_t`. -/
def checkedEndLine (s : OptionScan) : Except Fault OptionScan := do
  let content ← setByte Fault.outOfBounds s.content s.index 0
  let content ← setByte Fault.outOfBounds content (s.index + 1) 0
  let ended := { s with
    index := s.index + 2, offset := s.index + 2, isKey := true, content := content }
  if u32Sub s.index s.optionBuf > 0 then do
    let optionKey ← stringAt Fault.outOfBounds 0 content s.offset
    let optionBuf ← stringAt Fault.outOfBounds 0 content s.optionBuf
    return { ended with request := applyOption s.request optionKey optionBuf }
  else return ended

/-- The second loop, from `s.index` on. -/
def checkedOptions (len : Nat) : Nat → OptionScan → Except Fault (Bool × OptionScan)
  | 0, _ => .error .outOfFuel
  | fuel + 1, s =>
    if s.index < len then do
      let c ← byteAt Fault.outOfBounds s.content s.index
      if s.isKey then
        if c = 58 then
          checkedOptions len fuel
            { s with index := s.index + 1, optionBuf := s.index + 1, isKey := false }
        else checkedOptions len fuel { s with index := s.index + 1 }
      else if c = 13 then do
        let next ← byteAt Fault.outOfBounds s.content (s.index + 1)
        if next = 10 then do
          let s ← checkedEndLine s
          checkedOptions len fuel s
        else return (false, s)
      else if (c = 32 ∨ c = 9) ∧ s.optionBuf = s.index then
        checkedOptions len fuel { s with index := s.index + 1, optionBuf := s.index + 1 }
      else checkedOptions len fuel { s with index := s.index + 1 }
    else return (true, s)

def Connection.withData (conn : Connection) (data : Bytes) : Connection :=
  { conn with connectionRequest := { conn.connectionRequest with
      requestContent := { conn.connectionRequest.requestContent with data := data } } }

def checkedParseOptions (conn : Connection) (data : Bytes) (len index : Nat) :
    Except Fault (Int × Connection) := do
  if bufferIsEmpty conn.connectionRequest.requestUrl then return rejectRequest conn 400
  else
    let (valid, s) ← checkedOptions len (len + 1)
      ⟨index, index, 0, true, data, conn.connectionRequest⟩
    let conn := Connection.withData { conn with connectionRequest := s.request } s.content
    if valid then return finishRequest conn else return rejectRequest conn 400

def checkedFirstLine (config : ServerConfig) (conn : Connection) (data : Bytes)
    (len method url proto index : Nat) : Except Fault (Int × Connection) := do
  let data ← setByte Fault.outOfBounds data index 0
  let data ← setByte Fault.outOfBounds data (index + 1) 0
  let data ← setBefore data url 0
  let data ← setBefore data proto 0
  let conn := Connection.withData conn data
  let methodWord ← stringAt Fault.outOfBounds 0 data method
  let methodB ← bufferAppendString bufferInit methodWord
  let methodKey ← httpGetRequestMethod methodB
  if methodKey ≠ .get ∧ methodKey ≠ .post then return rejectRequest conn 501
  let httpMethod ← bufferCopyBuffer conn.connectionRequest.httpMethod methodB
  let urlWord ← stringAt Fault.outOfBounds 0 data url
  let requestUrl := bufferCopyString conn.connectionRequest.requestUrl urlWord
  let conn := { conn with connectionRequest := { conn.connectionRequest with
    httpMethod := httpMethod, requestUrl := requestUrl } }
  let (version, data) ← checkedHttpVersion config.supportHttp11 data proto
  let conn := Connection.withData conn data
  match version with
  | none => return rejectRequest conn 400
  | some version =>
    let conn := { conn with connectionRequest := { conn.connectionRequest with
      httpVersion := version } }
    checkedParseOptions conn data len (index + 2)

/-- `http_reuqest_parse` with all its accesses checked. -/
def checkedParse (config : ServerConfig) (conn : Connection) :
    Except Fault (Int × Connection) := do
  let requestContent := conn.connectionRequest.requestContent
  let len := bufferStringLength requestContent
  match ← checkedRequestLine requestContent.data len (len + 1) 0 0 0 none none with
  | .extraSpace => return rejectRequest conn 400
  | .malformed => return rejectRequest conn 400
  | .unfinished => checkedParseOptions conn requestContent.data len len
  | .found method url proto index =>
    checkedFirstLine config conn requestContent.data len method url proto index

lemma lt_of_drop {content rest : Bytes} {index : Nat} {c : UInt8}
    (h : content.drop index = c :: rest) :
    index < content.length ∧ content.drop (index + 1) = rest := by
  have hlength := congrArg List.length h
  rw [List.length_drop, List.length_cons] at hlength
  refine ⟨by omega, ?_⟩
  rw [← List.drop_drop, h]
  rfl

/-- The pointers are set by the time the line is complete. -/
lemma checkedRequestLine_eq {content : Bytes} {fuel index offset lineState : Nat} {m u : Nat}
    {method url : Option Nat} (enough : content.length - index < fuel)
    (method_set : 1 ≤ lineState → method = some m) (url_set : 2 ≤ lineState → url = some u) :
    checkedRequestLine (content ++ [0]) content.length fuel index offset lineState method url =
      .ok (scanRequestLine (content.drop index) index offset lineState m u) := by
  induction fuel generalizing index offset lineState m u method url with
  | zero => omega
  | succ fuel ih =>
    unfold checkedRequestLine
    cases hdrop : content.drop index with
    | nil =>
      rw [if_neg (by have := List.drop_eq_nil_iff.mp hdrop; omega)]
      rfl
    | cons c rest =>
      obtain ⟨hlt, hrest⟩ := lt_of_drop hdrop
      obtain ⟨hbyte, hnext⟩ := byteAt_of_drop Fault.outOfBounds 0 hdrop
      rw [if_pos hlt, hbyte]
      simp only [scanRequestLine, ← hrest]
      by_cases hblank : c = 32
      · simp only [Except.bind, bind, if_pos hblank]
        obtain rfl | rfl | ⟨k, rfl⟩ : lineState = 0 ∨ lineState = 1 ∨ ∃ k, lineState = k + 2 := by
          rcases lineState with _ | _ | k
          · exact Or.inl rfl
          · exact Or.inr (Or.inl rfl)
          · exact Or.inr (Or.inr ⟨k, rfl⟩)
        · refine ih ?_ (fun _ => rfl) (fun h => ?_)
          · omega
          · omega
        · refine ih ?_ (fun _ => method_set (Nat.le_refl 1)) (fun _ => rfl)
          omega
        · rfl
      · by_cases hcr : c = 13
        · simp only [Except.bind, bind, if_neg hblank, if_pos hcr, hnext, hrest]
          by_cases hlf : rest.headD 0 = 10
          · rw [if_pos hlf, if_pos (show c = 13 ∧ rest.headD 0 = 10 from ⟨hcr, hlf⟩)]
            by_cases hstate : lineState ≠ 2
            · rw [if_pos hstate, if_pos hstate]
              rfl
            · rw [if_neg hstate, if_neg hstate, method_set (by omega), url_set (by omega)]
              rfl
          · rw [if_neg hlf, if_neg (fun h => hlf h.2), ← hrest]
            exact ih (by omega) method_set url_set
        · simp only [Except.bind, bind, if_neg hblank, if_neg hcr]
          rw [if_neg (fun h => hcr h.1)]
          exact ih (by omega) method_set url_set

lemma digits_rest {s t : Bytes} (v : Int) (h : t <:+ s) :
    (if (t.takeWhile isDigit).isEmpty then (0, s) else (v, t.dropWhile isDigit)).2 <:+ s := by
  split
  · exact List.suffix_rfl
  · exact (List.dropWhile_suffix _).trans h

lemma strtol_rest (s : Bytes) : (strtol s).2 <:+ s := by
  have hspace := List.dropWhile_suffix (l := s) isSpace
  simp only [strtol]
  split
  · rename_i r hsign
    rw [hsign] at hspace
    exact digits_rest _ ((List.suffix_cons _ _).trans hspace)
  · rename_i r hsign
    rw [hsign] at hspace
    exact digits_rest _ ((List.suffix_cons _ _).trans hspace)
  · exact digits_rest _ hspace

lemma cString_drop {s : Bytes} {n : Nat} (h : n ≤ (cString s).length) :
    (cString s).drop n = cString (s.drop n) := takeWhile_drop _ h

lemma cString_eq_nil (s : Bytes) : cString s = [] ↔ s.headD 0 = 0 := takeWhile_eq_nil_iff 0 s

/-- `strtol` stops at a byte of the string or at its terminator. -/
lemma checkedStrtol_eq {text : Bytes} {i : Nat} (inside : i ≤ text.length) :
    checkedStrtol (text ++ [0]) i = .ok ((strtol (cString (text.drop i))).1,
      (strtol (cString (text.drop i))).2.headD 0) := by
  have hrest := strtol_rest (cString (text.drop i))
  have hstring : stringAt Fault.outOfBounds 0 (text ++ [0]) i = .ok (cString (text.drop i)) :=
    stringAt_text _ _ inside
  have hwhole : (cString (text.drop i)).length ≤ text.length - i := by
    rw [← List.length_drop]
    exact (List.takeWhile_prefix _).length_le
  simp only [checkedStrtol, hstring, Except.bind, bind]
  generalize strtol (cString (text.drop i)) = converted at hrest ⊢
  have hlength := hrest.length_le
  rw [byteAt_headD _ _ (by omega)]
  have hdrop : converted.2 = cString (text.drop (i + ((cString (text.drop i)).length -
      converted.2.length))) := by
    rw [← List.drop_drop, ← cString_drop (by omega)]
    exact List.suffix_iff_eq_drop.mp hrest
  have hhead := headD_takeWhile 0 (text.drop (i + ((cString (text.drop i)).length -
    converted.2.length)))
  rw [← cString, ← hdrop] at hhead
  rw [← hhead]
  rfl

/-- The rest behind a number is looked at through its first byte. -/
lemma rest_eq_nil {s t : Bytes} (h : t <:+ cString s) : t = [] ↔ t.headD 0 = 0 := by
  constructor
  · rintro rfl
    rfl
  · intro hhead
    cases t with
    | nil => rfl
    | cons c rest => exact absurd hhead (cString_nulFree s c (h.subset List.mem_cons_self))

/-- The '.' of the version is put back. -/
lemma restore_dot {content : Bytes} {i : Nat} (h : content[i]? = some 46) :
    (content.set i 0).set i 46 = content := by
  obtain ⟨hlt, hget⟩ := List.getElem?_eq_some_iff.mp h
  rw [List.set_set, ← hget, List.set_getElem_self]

lemma checkedHttpVersion_eq {content : Bytes} {proto : Nat} (inside : proto ≤ content.length)
    (support11 : Bool) :
    checkedHttpVersion support11 (content ++ [0]) proto =
      .ok (parseHttpVersion support11 (cString (content.drop proto)), content ++ [0]) := by
  have hword : stringAt Fault.outOfBounds 0 (content ++ [0]) proto =
      .ok (cString (content.drop proto)) := stringAt_text _ _ inside
  simp only [checkedHttpVersion, parseHttpVersion, hword, Except.bind, bind]
  by_cases hhttp : (cString (content.drop proto)).take 5 = asciiBytes "HTTP/"
  · have hfive : 5 ≤ (cString (content.drop proto)).length := by
      have hlength := congrArg List.length hhttp
      rw [List.length_take] at hlength
      change min 5 _ = 5 at hlength
      omega
    have hspan : (cString (content.drop proto)).length ≤ content.length - proto := by
      rw [← List.length_drop]
      exact (List.takeWhile_prefix _).length_le
    have hmajor : (cString (content.drop proto)).drop 5 = cString (content.drop (proto + 5)) := by
      rw [cString_drop hfive, List.drop_drop]
    have hinside : proto + 5 ≤ content.length := by omega
    have hstring : stringAt Fault.outOfBounds 0 (content ++ [0]) (proto + 5) =
        .ok (cString (content.drop (proto + 5))) := stringAt_text _ _ hinside
    rw [if_pos hhttp, if_pos hhttp, hstring, hmajor]
    dsimp only
    cases hdot : (cString (content.drop (proto + 5))).findIdx? (fun c => c == 46) with
    | none => rfl
    | some dot =>
      cases dot with
      | zero => rfl
      | succ n =>
        obtain ⟨hn, hbyte, _⟩ := List.findIdx?_eq_some_iff_getElem.mp hdot
        have hspan' : (cString (content.drop (proto + 5))).length ≤ content.length - (proto + 5) := by
          rw [← List.length_drop]
          exact (List.takeWhile_prefix _).length_le
        have hget : content[proto + 5 + (n + 1)]? = some 46 := by
          have hstarts := List.takeWhile_prefix (p := fun c => c != 0) (l := content.drop (proto + 5))
          rw [← List.getElem?_drop, ← beq_iff_eq.mp hbyte, List.getElem?_eq_getElem
            (Nat.lt_of_lt_of_le hn hstarts.length_le)]
          exact congrArg some (hstarts.getElem hn).symm
        have hminor : (cString (content.drop (proto + 5))).drop (n + 1 + 1) =
            cString (content.drop (proto + 5 + (n + 1) + 1)) := by
          rw [cString_drop (by omega), List.drop_drop]
          rfl
        have hcut : cString ((content.set (proto + 5 + (n + 1)) 0).drop (proto + 5)) =
            (cString (content.drop (proto + 5))).take (n + 1) := by
          rw [List.drop_set, if_neg (by omega), Nat.add_sub_cancel_left]
          exact takeWhile_set 0 _ _
        simp only []
        rw [byteAt_headD _ _ (by omega), hminor]
        dsimp only
        by_cases hnil : (content.drop (proto + 5 + (n + 1) + 1)).headD 0 = 0
        · rw [if_pos hnil, if_pos ((cString_eq_nil _).mpr hnil)]
          rfl
        · rw [if_neg hnil, if_neg (fun h => hnil ((cString_eq_nil _).mp h)),
            setByte_text _ _ (by omega)]
          dsimp only
          rw [checkedStrtol_eq (by rw [List.length_set]; omega), hcut]
          dsimp only
          rw [setByte_text _ _ (by rw [List.length_set]; omega), restore_dot hget]
          dsimp only
          rw [checkedStrtol_eq (by omega)]
          dsimp only
          have hmajorErr := rest_eq_nil (strtol_rest (cString ((content.set (proto + 5 + (n + 1)) 0).drop (proto + 5))))
          have hminorErr := rest_eq_nil (strtol_rest (cString (content.drop (proto + 5 + (n + 1) + 1))))
          rw [hcut] at hmajorErr
          simp only [ne_eq, hmajorErr, hminorErr]
          split
          · rfl
          · split
            · rfl
            · split <;> rfl
  · rw [if_neg hhttp, if_neg hhttp]
    rfl

/-- The scan over the whole buffer, its terminator included. -/
def OptionScan.block (s : OptionScan) : OptionScan := { s with content := s.content ++ [0] }

/-- The positions the option loop keeps are behind it. -/
structure Behind (s : OptionScan) : Prop where
  offset : s.offset ≤ s.index
  optionBuf : s.optionBuf ≤ s.index

lemma checkedEndLine_eq {s : OptionScan} (behind : Behind s)
    (inside : s.index + 1 < s.content.length) (short : s.content.length < 4294967296) :
    checkedEndLine (OptionScan.block s) = .ok (OptionScan.block s.endLine) := by
  have hlength : ((s.content.set s.index 0).set (s.index + 1) 0).length = s.content.length := by
    rw [List.length_set, List.length_set]
  have hkey := behind.offset
  have hbuf := behind.optionBuf
  have hfirst : setByte Fault.outOfBounds (s.content ++ [0]) s.index 0 =
      .ok (s.content.set s.index 0 ++ [0]) := setByte_text _ _ (by omega) _
  have hsecond : setByte Fault.outOfBounds (s.content.set s.index 0 ++ [0]) (s.index + 1) 0 =
      .ok ((s.content.set s.index 0).set (s.index + 1) 0 ++ [0]) :=
    setByte_text _ _ (by rw [List.length_set]; omega) _
  have hsub : u32Sub s.index s.optionBuf = s.index - s.optionBuf := u32Sub_of_le hbuf (by omega)
  simp only [checkedEndLine, OptionScan.block, OptionScan.endLine, hfirst, hsecond, hsub,
    Except.bind, bind]
  by_cases hsome : s.index - s.optionBuf > 0
  · rw [if_pos hsome, if_pos hsome, stringAt_text _ _ (by omega)]
    dsimp only
    rw [stringAt_text _ _ (by omega)]
    rfl
  · rw [if_neg hsome, if_neg hsome]
    rfl

lemma endLine_drop (s : OptionScan) :
    s.endLine.content.drop s.endLine.index = s.content.drop (s.index + 2) := by
  change ((s.content.set s.index 0).set (s.index + 1) 0).drop (s.index + 2) = _
  rw [List.drop_set, if_pos (by omega), List.drop_set, if_pos (by omega)]

lemma endLine_length (s : OptionScan) : s.endLine.content.length = s.content.length := by
  change ((s.content.set s.index 0).set (s.index + 1) 0).length = _
  rw [List.length_set, List.length_set]

lemma endLine_behind (s : OptionScan) (h : s.optionBuf ≤ s.index) : Behind s.endLine :=
  ⟨Nat.le_refl _, Nat.le_succ_of_le (Nat.le_succ_of_le h)⟩

lemma checkedOptions_eq {fuel : Nat} {s : OptionScan} (behind : Behind s)
    (enough : s.content.length - s.index < fuel) (short : s.content.length < 4294967296) :
    checkedOptions s.content.length fuel (OptionScan.block s) =
      .ok ((scanOptions (s.content.drop s.index) s).1,
        OptionScan.block (scanOptions (s.content.drop s.index) s).2) := by
  induction fuel generalizing s with
  | zero => omega
  | succ fuel ih =>
    have hkey := behind.offset
    have hbuf := behind.optionBuf
    unfold checkedOptions
    cases hdrop : s.content.drop s.index with
    | nil =>
      have hend := List.drop_eq_nil_iff.mp hdrop
      rw [if_neg (show ¬ (OptionScan.block s).index < s.content.length from Nat.not_lt.mpr hend)]
      rfl
    | cons c rest =>
      obtain ⟨hlt, hrest⟩ := lt_of_drop hdrop
      obtain ⟨hbyte, hnext⟩ := byteAt_of_drop Fault.outOfBounds 0 hdrop
      -- whatever is done with a byte, the scan goes on behind it
      have onward : ∀ t : OptionScan, Behind t → t.content = s.content → t.index = s.index + 1 →
          checkedOptions s.content.length fuel (OptionScan.block t) =
            .ok ((scanOptions rest t).1, OptionScan.block (scanOptions rest t).2) := by
        intro t hbehind hcontent hindex
        have := ih hbehind (by rw [hcontent, hindex]; omega) (by rw [hcontent]; exact short)
        rwa [hcontent, hindex, hrest] at this
      rw [if_pos (show (OptionScan.block s).index < s.content.length from hlt)]
      have hbyte : byteAt Fault.outOfBounds (OptionScan.block s).content
        (OptionScan.block s).index = .ok c := hbyte
      have hnext : byteAt Fault.outOfBounds (OptionScan.block s).content
        ((OptionScan.block s).index + 1) = .ok (rest.headD 0) := hnext
      rw [hbyte]
      unfold scanOptions
      simp only [Except.bind, bind]
      by_cases hisKey : s.isKey = true
      · rw [if_pos (show (OptionScan.block s).isKey = true from hisKey)]
        by_cases hcolon : c = 58
        · rw [if_pos hcolon, if_pos hisKey, if_pos hcolon]
          exact onward { s with index := s.index + 1, optionBuf := s.index + 1, isKey := false }
            ⟨Nat.le_succ_of_le hkey, Nat.le_refl _⟩ rfl rfl
        · rw [if_neg hcolon, if_pos hisKey, if_neg hcolon]
          exact onward { s with index := s.index + 1 }
            ⟨Nat.le_succ_of_le hkey, Nat.le_succ_of_le hbuf⟩ rfl rfl
      · rw [if_neg (show ¬ (OptionScan.block s).isKey = true from hisKey)]
        by_cases hcr : c = 13
        · rw [if_pos hcr, hnext, if_neg hisKey, if_pos hcr]
          dsimp only
          by_cases hlf : rest.headD 0 = 10
          · obtain ⟨behindLf, rfl⟩ : ∃ behindLf, rest = 10 :: behindLf := by
              cases rest with
              | nil => exact absurd hlf (by decide)
              | cons d behindLf => exact ⟨behindLf, congrArg (· :: behindLf) hlf⟩
            obtain ⟨hinside, hbehindLf⟩ := lt_of_drop hrest
            have hended := ih (endLine_behind s hbuf)
              (by rw [endLine_length]; change _ - (s.index + 2) < fuel; omega)
              (by rw [endLine_length]; exact short)
            rw [endLine_drop, endLine_length, hbehindLf] at hended
            rw [if_pos hlf, checkedEndLine_eq behind hinside short]
            exact hended
          · rw [if_neg hlf]
            cases rest with
            | nil => rfl
            | cons d behindLf =>
              split
              · rename_i heq
                cases heq
                exact absurd rfl hlf
              · rfl
        · rw [if_neg hcr]
          by_cases hblank : (c = 32 ∨ c = 9) ∧ s.optionBuf = s.index
          · rw [if_pos (show (c = 32 ∨ c = 9) ∧ (OptionScan.block s).optionBuf =
              (OptionScan.block s).index from hblank), if_neg hisKey, if_neg hcr,
              if_pos hblank]
            exact onward { s with index := s.index + 1, optionBuf := s.index + 1 }
              ⟨Nat.le_succ_of_le hkey, Nat.le_refl _⟩ rfl rfl
          · rw [if_neg (show ¬ ((c = 32 ∨ c = 9) ∧ (OptionScan.block s).optionBuf =
              (OptionScan.block s).index) from hblank), if_neg hisKey, if_neg hcr,
              if_neg hblank]
            exact onward { s with index := s.index + 1 }
              ⟨Nat.le_succ_of_le hkey, Nat.le_succ_of_le hbuf⟩ rfl rfl

lemma checkedParseOptions_eq (conn : Connection) {content : Bytes} (index : Nat)
    (short : content.length < 4294967296) :
    checkedParseOptions conn (content ++ [0]) content.length index =
      .ok (parseOptions conn content index) := by
  rw [checkedParseOptions, parseOptions]
  by_cases hurl : bufferIsEmpty conn.connectionRequest.requestUrl = true
  · rw [if_pos hurl, if_pos hurl]
    rfl
  · have hscan := @checkedOptions_eq (content.length + 1)
      ⟨index, index, 0, true, content, conn.connectionRequest⟩ ⟨Nat.le_refl _, Nat.zero_le _⟩
      (Nat.lt_succ_of_le (Nat.sub_le _ _)) short
    rw [OptionScan.block] at hscan
    rw [if_neg hurl, if_neg hurl, hscan]
    simp only [Except.bind, bind]
    split <;> rfl

/-- A complete first line lies inside the scanned bytes, its method at their start. -/
lemma scan_bounds (bytes : Bytes) {index offset lineState method url m u p i : Nat}
    (h : scanRequestLine bytes index offset lineState method url = .found m u p i) :
    i + 1 < index + bytes.length ∧ m = if lineState = 0 then offset else method := by
  induction bytes generalizing index offset lineState method url with
  | nil => cases h
  | cons c rest ih =>
    rw [List.length_cons]
    unfold scanRequestLine at h
    split at h
    · split at h
      · obtain ⟨hi, hm⟩ := ih h
        exact ⟨by omega, hm⟩
      · obtain ⟨hi, hm⟩ := ih h
        exact ⟨by omega, hm⟩
      · cases h
    · split at h
      · rename_i hcrlf
        split at h
        · cases h
        · rename_i hstate
          cases h
          refine ⟨?_, by rw [if_neg (by omega)]⟩
          cases rest with
          | nil => exact absurd hcrlf.2 (by decide)
          | cons d behind =>
            rw [List.length_cons]
            omega
      · obtain ⟨hi, hm⟩ := ih h
        exact ⟨by omega, hm⟩

lemma checkedFirstLine_eq (config : ServerConfig) (conn : Connection) {content : Bytes}
    {m u p i : Nat} (short : content.length < 4294967296) (method : m ≤ content.length)
    (url : 0 < u ∧ u ≤ content.length) (proto : 0 < p ∧ p ≤ content.length)
    (inside : i + 1 < content.length) :
    checkedFirstLine config conn (content ++ [0]) content.length m u p i =
      parseRequestLine config conn content m u p i := by
  obtain ⟨hu, hulen⟩ := url
  obtain ⟨hp, hplen⟩ := proto
  have h₁ : setByte Fault.outOfBounds (content ++ [0]) i 0 = .ok (content.set i 0 ++ [0]) :=
    setByte_text _ _ (by omega) _
  have h₂ : setByte Fault.outOfBounds (content.set i 0 ++ [0]) (i + 1) 0 =
      .ok ((content.set i 0).set (i + 1) 0 ++ [0]) :=
    setByte_text _ _ (by rw [List.length_set]; omega) _
  have h₃ : setBefore ((content.set i 0).set (i + 1) 0 ++ [0]) u 0 =
      .ok (((content.set i 0).set (i + 1) 0).set (u - 1) 0 ++ [0]) := by
    rw [setBefore, if_neg (by omega)]
    exact setByte_text _ _ (by rw [List.length_set, List.length_set]; omega) _
  have h₄ : setBefore (((content.set i 0).set (i + 1) 0).set (u - 1) 0 ++ [0]) p 0 =
      .ok ((((content.set i 0).set (i + 1) 0).set (u - 1) 0).set (p - 1) 0 ++ [0]) := by
    rw [setBefore, if_neg (by omega)]
    exact setByte_text _ _ (by rw [List.length_set, List.length_set, List.length_set]; omega) _
  have hlength : ((((content.set i 0).set (i + 1) 0).set (u - 1) 0).set (p - 1) 0).length =
      content.length := by
    simp only [List.length_set]
  simp only [checkedFirstLine, parseRequestLine, h₁, h₂, h₃, h₄, Except.bind, bind]
  generalize (((content.set i 0).set (i + 1) 0).set (u - 1) 0).set (p - 1) 0 = cut at hlength ⊢
  have hstring : ∀ j, j ≤ content.length →
      stringAt Fault.outOfBounds 0 (cut ++ [0]) j = .ok (cString (cut.drop j)) := by
    intro j hj
    rw [← hlength] at hj
    exact stringAt_text _ _ hj
  rw [hstring m method, hstring u hulen, checkedHttpVersion_eq (by rw [hlength]; exact hplen)]
  dsimp only
  have hconn : Connection.withData conn (cut ++ [0]) = Connection.withContent conn cut := rfl
  rw [hconn]
  cases bufferAppendString bufferInit (cString (cut.drop m)) with
  | error e => rfl
  | ok methodB =>
    dsimp only
    cases httpGetRequestMethod methodB with
    | error e => rfl
    | ok key =>
      dsimp only
      split
      · rfl
      · cases bufferCopyBuffer (Connection.withContent conn cut).connectionRequest.httpMethod
          methodB with
        | error e => rfl
        | ok httpMethod =>
          dsimp only
          cases parseHttpVersion config.supportHttp11 (cString (cut.drop p)) with
          | none => rfl
          | some version =>
            rw [← hlength]
            exact checkedParseOptions_eq _ _ (by rw [hlength]; exact short)

/-- All accesses of the parser are inside `request_content`. -/
theorem checkedParse_eq (config : ServerConfig) {conn : Connection}
    (content : conn.connectionRequest.requestContent.Terminated)
    (ending : conn.connectionRequest.requestContent.data ≠ []) :
    checkedParse config conn = httpReuqestParse config conn := by
  have hdata := content.ending.resolve_left ending
  have hlen := content.stringLength_eq
  have hshort : conn.connectionRequest.requestContent.str.length < 4294967296 := by
    rw [Buffer.str, List.length_dropLast]
    exact Nat.lt_of_le_of_lt (Nat.sub_le _ _) content.short
  simp only [checkedParse, httpReuqestParse, hlen]
  rw [hdata]
  generalize conn.connectionRequest.requestContent.str = bytes at hshort ⊢
  have hline := @checkedRequestLine_eq bytes (bytes.length + 1) 0 0 0 0 0 none none (by omega)
    (fun h => absurd h (by decide)) (fun h => absurd h (by decide))
  rw [hline]
  simp only [List.drop_zero, Except.bind, bind]
  cases hscan : scanRequestLine bytes 0 0 0 0 0 with
  | extraSpace => rfl
  | malformed => rfl
  | unfinished => exact checkedParseOptions_eq conn bytes.length hshort
  | found m u p i =>
    obtain ⟨hi, hm⟩ := scan_bounds bytes hscan
    obtain ⟨first, second, rest, _, hu, hp, hpi⟩ := scan_line bytes hscan
    rw [if_pos rfl] at hm
    exact checkedFirstLine_eq config conn hshort (by omega) ⟨by omega, by omega⟩
      ⟨by omega, by omega⟩ (by omega)

def crlf : Bytes := [13, 10]

/-- The first line, which has two blanks, begins with a blank or a NUL. -/
def MethodMissing (head : Bytes) : Prop :=
  (head.headD 0 = 32 ∨ head.headD 0 = 0) ∧
    ∃ line rest, cutAfter crlf head = some (line, rest) ∧ line.count 32 = 2

lemma crlf_starts {c : UInt8} {rest : Bytes} :
    crlf <+: c :: rest ↔ c = 13 ∧ rest.headD 0 = 10 := by
  rw [crlf, List.cons_prefix_cons]
  cases rest with
  | nil => simp
  | cons d rest => simp [eq_comm]

/-- The scan completes the lines that end after two blanks. -/
lemma scan_found_iff (bytes : Bytes) {index offset lineState method url : Nat}
    (state : lineState ≤ 2) :
    (∃ m u p i, scanRequestLine bytes index offset lineState method url = .found m u p i) ↔
      ∃ line rest, cutAfter crlf bytes = some (line, rest) ∧ lineState + line.count 32 = 2 := by
  induction bytes generalizing index offset lineState method url with
  | nil => simp [scanRequestLine, cutAfter]
  | cons c rest ih =>
    have behind : (∃ line rest', (cutAfter crlf rest).map (fun cut => (c :: cut.1, cut.2)) =
        some (line, rest') ∧ lineState + line.count 32 = 2) ↔
        ∃ line rest', cutAfter crlf rest = some (line, rest') ∧
          lineState + (line.count 32 + if c = 32 then 1 else 0) = 2 := by
      constructor
      · rintro ⟨line, rest', hcut, hcount⟩
        obtain ⟨⟨line', last⟩, hcut', heq⟩ := Option.map_eq_some_iff.mp hcut
        cases heq
        rw [List.count_cons] at hcount
        exact ⟨line', last, hcut', by simpa using hcount⟩
      · rintro ⟨line, rest', hcut, hcount⟩
        refine ⟨c :: line, rest', by rw [hcut]; rfl, ?_⟩
        rw [List.count_cons]
        simpa using hcount
    unfold scanRequestLine cutAfter
    by_cases hblank : c = 32
    · have hnot : ¬ crlf <+: c :: rest := fun h =>
        absurd (hblank.symm.trans (crlf_starts.mp h).1) (by decide)
      rw [if_neg hnot, behind]
      simp only [if_pos hblank]
      obtain rfl | rfl | rfl : lineState = 0 ∨ lineState = 1 ∨ lineState = 2 := by omega
      · have hone := @ih (index + 1) (index + 1) 1 offset url (by decide)
        refine hone.trans (exists_congr fun _ => exists_congr fun _ => and_congr_right fun _ => ?_)
        omega
      · have htwo := @ih (index + 1) (index + 1) 2 method offset (by decide)
        refine htwo.trans (exists_congr fun _ => exists_congr fun _ => and_congr_right fun _ => ?_)
        omega
      · constructor
        · rintro ⟨_, _, _, _, h⟩
          cases h
        · rintro ⟨_, _, _, h⟩
          omega
    · simp only [if_neg hblank]
      by_cases hends : c = 13 ∧ rest.headD 0 = 10
      · rw [if_pos (crlf_starts.mpr hends), if_pos hends]
        constructor
        · rintro ⟨m, u, p, i, h⟩
          split at h
          · cases h
          · rename_i hstate
            exact ⟨crlf, _, rfl, by rw [show crlf.count 32 = 0 from rfl]; omega⟩
        · rintro ⟨line, rest', h, hcount⟩
          cases h
          rw [show crlf.count 32 = 0 from rfl] at hcount
          rw [if_neg (by omega)]
          exact ⟨_, _, _, _, rfl⟩
      · rw [if_neg (fun h => hends (crlf_starts.mp h)), if_neg hends, behind, ih state]
        simp only [if_neg hblank, Nat.add_zero]

lemma headD_set_succ (s : Bytes) (n : Nat) (c : UInt8) : (s.set (n + 1) c).headD 0 = s.headD 0 := by
  cases s <;> rfl

/-- The method is the empty string when the line starts with a blank or a NUL. -/
lemma method_empty_iff {head first second rest : Bytes} {u p i : Nat}
    (h : Words head first second rest) (hu : u = first.length + 1)
    (hp : p = u + second.length + 1) (hi : p ≤ i) :
    cString ((((head.set i 0).set (i + 1) 0).set (u - 1) 0).set (p - 1) 0) = [] ↔
      head.headD 0 = 32 ∨ head.headD 0 = 0 := by
  obtain ⟨j, rfl⟩ : ∃ j, i = j + 1 := ⟨i - 1, by omega⟩
  obtain ⟨q, hq⟩ : ∃ q, p - 1 = q + 1 := ⟨p - 2, by omega⟩
  rw [cString_eq_nil, hq, headD_set_succ, hu, Nat.add_sub_cancel]
  have hsplit := h.split
  cases first with
  | nil =>
    rw [List.nil_append] at hsplit
    rw [hsplit]
    exact ⟨fun _ => Or.inl rfl, fun _ => rfl⟩
  | cons c first =>
    rw [List.length_cons, headD_set_succ, headD_set_succ, headD_set_succ]
    have hhead : head.headD 0 = c := by
      rw [hsplit]
      rfl
    rw [hhead]
    exact ⟨Or.inr, fun h' => h'.resolve_left (h.method c List.mem_cons_self)⟩

/-- An empty method leaves its buffer without memory; `strcmp` then gets NULL. -/
lemma parseRequestLine_result (config : ServerConfig) (conn : Connection) {content : Bytes}
    {u p i : Nat} (short : content.length < 4294967200) :
    (cString ((((content.set i 0).set (i + 1) 0).set (u - 1) 0).set (p - 1) 0) = [] →
      parseRequestLine config conn content 0 u p i = .error .nullPointer) ∧
    (cString ((((content.set i 0).set (i + 1) 0).set (u - 1) 0).set (p - 1) 0) ≠ [] →
      ∃ result, parseRequestLine config conn content 0 u p i = .ok result) := by
  simp only [parseRequestLine, List.drop_zero]
  have hlength : ((((content.set i 0).set (i + 1) 0).set (u - 1) 0).set (p - 1) 0).length =
      content.length := by
    simp only [List.length_set]
  generalize (((content.set i 0).set (i + 1) 0).set (u - 1) 0).set (p - 1) 0 = cut at hlength ⊢
  constructor
  · intro hempty
    rw [hempty]
    rfl
  · intro hsome
    have hshort : (cString cut).length ≤ cut.length := (List.takeWhile_prefix _).length_le
    obtain ⟨happend, hstored⟩ := bufferAppendString_stored bufferInit_stored (cString cut)
      (by change 0 + (cString cut).length + 1 ≤ _; omega)
    obtain ⟨hstr, _⟩ := appended_str bufferInit_terminated (cString cut)
      (by change 0 + (cString cut).length + 1 < _; omega)
    rw [bufferInit_str, List.nil_append] at hstr
    have hnull := hstored.not_null (by rw [hstr]; exact hsome)
    rw [happend]
    generalize appended bufferInit (cString cut) = methodB at hnull ⊢
    obtain ⟨key, hkey⟩ : ∃ key, httpGetRequestMethod methodB = .ok key := by
      rw [httpGetRequestMethod, hnull]
      split
      · contradiction
      · split <;> exact ⟨_, rfl⟩
    simp only [Except.bind, bind, hkey]
    split
    · exact ⟨_, rfl⟩
    · simp only [bufferCopyBuffer, hnull, Bool.false_eq_true, if_false]
      cases parseHttpVersion config.supportHttp11 (cString (cut.drop p)) <;> exact ⟨_, rfl⟩

/-- The parser faults on the heads without a method, and on no others. -/
theorem parse_faults_iff (config : ServerConfig) (conn : Connection)
    (short : conn.connectionRequest.requestContent.str.length < 4294967200) :
    (MethodMissing conn.connectionRequest.requestContent.str →
      httpReuqestParse config conn = .error .nullPointer) ∧
    (¬ MethodMissing conn.connectionRequest.requestContent.str →
      ∃ result, httpReuqestParse config conn = .ok result) := by
  have hfound := @scan_found_iff conn.connectionRequest.requestContent.str 0 0 0 0 0 (by decide)
  simp only [httpReuqestParse]
  generalize conn.connectionRequest.requestContent.str = bytes at short hfound ⊢
  have hunfound : (∀ m u p i, scanRequestLine bytes 0 0 0 0 0 ≠ .found m u p i) →
      ¬ MethodMissing bytes := by
    rintro hno ⟨_, line, rest, hcut, hcount⟩
    obtain ⟨m, u, p, i, h⟩ := hfound.mpr ⟨line, rest, hcut, by omega⟩
    exact hno m u p i h
  cases hscan : scanRequestLine bytes 0 0 0 0 0 with
  | extraSpace => exact ⟨fun h => absurd h (hunfound (by simp [hscan])), fun _ => ⟨_, rfl⟩⟩
  | malformed => exact ⟨fun h => absurd h (hunfound (by simp [hscan])), fun _ => ⟨_, rfl⟩⟩
  | unfinished => exact ⟨fun h => absurd h (hunfound (by simp [hscan])), fun _ => ⟨_, rfl⟩⟩
  | found m u p i =>
    obtain ⟨_, hm⟩ := scan_bounds bytes hscan
    obtain ⟨first, second, rest, hwords, hu, hp, hpi⟩ := scan_line bytes hscan
    rw [if_pos rfl] at hm
    rw [Nat.zero_add] at hu
    obtain ⟨line, behind, hcut, hcount⟩ := hfound.mp ⟨m, u, p, i, hscan⟩
    have hempty := method_empty_iff hwords hu hp hpi
    obtain ⟨hfault, hreturns⟩ := @parseRequestLine_result config conn bytes u p i short
    rw [hm]
    constructor
    · exact fun missing => hfault (hempty.mpr missing.1)
    · intro present
      exact hreturns fun hnil => present ⟨hempty.mp hnil, line, behind, hcut, by omega⟩

/-- What `connection_handle_read_state` hands over ends with its only CRLFCRLF. -/
lemma extracted_framed {config : ServerConfig} {m : Machine} (reached : Reached config .running m)
    (state : m.conn.state = .requestEnd) :
    OnlyAtEnd blankLine m.conn.connectionRequest.requestContent.str := by
  obtain ⟨p, ans, hp, hturn, _, hsuccessor, _⟩ := entered_by_turn reached (by rw [state]; decide)
  rw [state] at hsuccessor
  have hread : p.conn.state = .read := by
    cases hfrom : p.conn.state <;> rw [hfrom] at hsuccessor <;>
      first
        | rfl
        | exact absurd hsuccessor (by decide)
  have inv := (reached_inv hp).1.conn
  have hphase := inv.phase
  rw [StateInv, hread] at hphase
  obtain ⟨after, bytes, houtcome, rfl⟩ := read_cases inv hread hturn
  have notRead : ∀ mid : Connection, ReadStep p.curTs ans p.conn mid → mid.state ≠ .requestEnd := by
    intro mid step h
    rw [step.state, hread] at h
    cases h
  cases houtcome with
  | skipped =>
    rw [show ((p.emit [.state .read]).advance p.conn (readEvents [])).conn.state = p.conn.state
      from rfl, hread] at state
    cases state
  | nothing mid step => exact absurd state (notRead _ step)
  | failed => cases state
  | endOfFile => cases state
  | got mid _ step _ _ hexamine =>
    cases hexamine with
    | complete lastChunk lastChunkIndex hfound =>
      obtain ⟨rest, hcut⟩ := complete_content hphase.2 step hfound
      exact cutAfter_onlyAtEnd blankLine_ne_nil hcut
    | tooLong => cases state
    | waiting => exact absurd state (notRead _ step)

/-- What the checked parser does with a head that was extracted. -/
lemma extracted_result {config : ServerConfig} {m : Machine} (reached : Reached config .running m)
    (state : m.conn.state = .requestEnd) :
    (MethodMissing m.conn.connectionRequest.requestContent.str →
      checkedParse config (clearRequest m.conn) = .error .nullPointer) ∧
    (¬ MethodMissing m.conn.connectionRequest.requestContent.str →
      ∃ result, checkedParse config (clearRequest m.conn) = .ok result) := by
  have hframed := extracted_framed reached state
  have inv := (reached_inv reached).1.conn
  have hphase := inv.phase
  rw [StateInv, state] at hphase
  have hlimit := config.headLimit
  have hshort := hphase.2.short
  have hdata : m.conn.connectionRequest.requestContent.data ≠ [] := by
    intro hnil
    rw [Buffer.str, hnil] at hframed
    exact absurd (List.suffix_nil.mp hframed.ending) blankLine_ne_nil
  have heq : checkedParse config (clearRequest m.conn) =
      httpReuqestParse config (clearRequest m.conn) :=
    checkedParse_eq config hphase.2.terminated hdata
  rw [heq]
  refine parse_faults_iff config (clearRequest m.conn) ?_
  change m.conn.connectionRequest.requestContent.str.length < 4294967200
  omega

/-- The parser returns on every head that can be extracted, all its accesses in
place, except on those whose first line is complete but starts with a blank or
a NUL: there the method is compared through a NULL pointer. -/
theorem parse_total_iff {config : ServerConfig} {m : Machine}
    (reached : Reached config .running m) (state : m.conn.state = .requestEnd) :
    OnlyAtEnd blankLine m.conn.connectionRequest.requestContent.str ∧
      ((∃ result, checkedParse config (clearRequest m.conn) = .ok result) ↔
        ¬ MethodMissing m.conn.connectionRequest.requestContent.str) ∧
      (MethodMissing m.conn.connectionRequest.requestContent.str →
        checkedParse config (clearRequest m.conn) = .error .nullPointer) := by
  obtain ⟨hfault, hreturns⟩ := extracted_result reached state
  refine ⟨extracted_framed reached state, ⟨?_, hreturns⟩, hfault⟩
  rintro ⟨result, hok⟩ missing
  rw [hfault missing] at hok
  cases hok

lemma reads_head {head : Bytes}
    (h : (turns setConfigDefault readableMachine
        [{ SysAnswers.failing with read := .data head }]).any (fun m =>
      decide (m.conn.state = .requestEnd ∧ m.conn.connectionRequest.requestContent.str = head)) =
        true) :
    ∃ m, Reached setConfigDefault .running m ∧ m.conn.state = .requestEnd ∧
      m.conn.connectionRequest.requestContent.str = head := by
  obtain ⟨m, hturns, hm⟩ := (Option.any_eq_true _ _).mp h
  obtain ⟨hstate, hhead⟩ := of_decide_eq_true hm
  exact ⟨m, reached_turns _ readableMachine_reached hturns, hstate, hhead⟩

/-- Two blanks, but no URL and no version. -/
def bareHead : Bytes := asciiBytes "GET  \r\n\r\n"

theorem parse_total_bare : ∃ m : Machine, m.conn.connectionRequest.requestContent.str = bareHead ∧
    ∃ result, checkedParse setConfigDefault (clearRequest m.conn) = .ok result := by
  obtain ⟨m, reached, state, hhead⟩ := @reads_head bareHead (by decide +kernel)
  refine ⟨m, hhead, (parse_total_iff reached state).2.1.mpr ?_⟩
  rw [hhead]
  rintro ⟨h | h, _⟩ <;> exact absurd h (by decide)

/-- A head that begins with the blank behind its method. -/
def blankHead : Bytes := asciiBytes " / HTTP/1.0\r\n\r\n"

/-- The parser compares NULL with the names of the methods. -/
theorem parse_total_not_blank : ∃ m : Machine, Reached setConfigDefault .running m ∧
    m.conn.state = .requestEnd ∧ m.conn.connectionRequest.requestContent.str = blankHead ∧
    OnlyAtEnd blankLine blankHead ∧
    checkedParse setConfigDefault (clearRequest m.conn) = .error .nullPointer := by
  obtain ⟨m, reached, state, hhead⟩ := @reads_head blankHead (by decide +kernel)
  have hframed := extracted_framed reached state
  have hfault := (extracted_result reached state).1
  rw [hhead] at hframed hfault
  refine ⟨m, reached, state, hhead, hframed, hfault ⟨Or.inl rfl, ?_⟩⟩
  exact ⟨asciiBytes " / HTTP/1.0\r\n", crlf, by decide, by decide⟩

end CheckedRequest
