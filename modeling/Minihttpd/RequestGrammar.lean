import Minihttpd.RequestUrl
import Minihttpd.Library.Framing

/-!
# The grammar of a request line

The first line of a head as the parser takes it, against the three words it is
meant to consist of.
-/
namespace RequestGrammar

open ByteBuffer ConnectionTypes HttpRequest HttpConnection RequestUrl Framing FailingRun

/-- What lies behind the first line: an answer, or the option loop. -/
abbrev LineResult := (Int × Connection) ⊕ (Connection × Bytes × Nat)

def checkUrl (conn : Connection) (content : Bytes) (index : Nat) : LineResult :=
  if bufferIsEmpty conn.connectionRequest.requestUrl then .inl (rejectRequest conn 400)
  else .inr (conn, content, index)

/-- `parseRequestLine` as far as the option loop. -/
def linePart (config : ServerConfig) (conn : Connection) (content : Bytes)
    (method url proto index : Nat) : Except Fault LineResult := do
  let content := (((content.set index 0).set (index + 1) 0).set (url - 1) 0).set (proto - 1) 0
  let conn := Connection.withContent conn content
  let methodB ← bufferAppendString bufferInit (cString (content.drop method))
  let methodKey ← httpGetRequestMethod methodB
  if methodKey ≠ .get ∧ methodKey ≠ .post then return .inl (rejectRequest conn 501)
  let httpMethod ← bufferCopyBuffer conn.connectionRequest.httpMethod methodB
  let requestUrl := bufferCopyString conn.connectionRequest.requestUrl (cString (content.drop url))
  let conn := { conn with connectionRequest := { conn.connectionRequest with
    httpMethod := httpMethod, requestUrl := requestUrl } }
  match parseHttpVersion config.supportHttp11 (cString (content.drop proto)) with
  | none => return .inl (rejectRequest conn 400)
  | some version =>
    let conn := { conn with connectionRequest := { conn.connectionRequest with
      httpVersion := version } }
    return checkUrl conn content (index + 2)

/-- `http_reuqest_parse` as far as the option loop. -/
def requestLinePart (config : ServerConfig) (conn : Connection) : Except Fault LineResult :=
  let content := conn.connectionRequest.requestContent.str
  match scanRequestLine content 0 0 0 0 0 with
  | .extraSpace => .ok (.inl (rejectRequest conn 400))
  | .malformed => .ok (.inl (rejectRequest conn 400))
  | .unfinished => .ok (checkUrl conn content content.length)
  | .found method url proto index => linePart config conn content method url proto index

/-- The option loop and what follows it. -/
def optionLoop (conn : Connection) (content : Bytes) (index : Nat) : Int × Connection :=
  let (valid, s) := scanOptions (content.drop index)
    ⟨index, index, 0, true, content, conn.connectionRequest⟩
  let conn := Connection.withContent { conn with connectionRequest := s.request } s.content
  if valid then finishRequest conn else rejectRequest conn 400

/-- The rest of the parser behind its first part. -/
def finishLine : LineResult → Int × Connection
  | .inl refused => refused
  | .inr (conn, content, index) => optionLoop conn content index

lemma parseOptions_eq (conn : Connection) (content : Bytes) (index : Nat) :
    parseOptions conn content index = finishLine (checkUrl conn content index) := by
  rw [parseOptions, checkUrl]
  split
  · rfl
  · rfl

theorem parse_eq (config : ServerConfig) (conn : Connection) :
    httpReuqestParse config conn = (requestLinePart config conn).map finishLine := by
  rw [httpReuqestParse, requestLinePart]
  cases scanRequestLine conn.connectionRequest.requestContent.str 0 0 0 0 0 with
  | extraSpace => rfl
  | malformed => rfl
  | unfinished => exact congrArg Except.ok (parseOptions_eq _ _ _)
  | found method url proto index =>
    simp only [parseRequestLine, linePart, parseOptions_eq]
    cases bufferAppendString bufferInit _ with
    | error => rfl
    | ok methodB =>
      simp only [Except.bind, bind]
      cases httpGetRequestMethod methodB with
      | error => rfl
      | ok key =>
        by_cases hkey : key ≠ .get ∧ key ≠ .post
        · simp only [if_pos hkey]
          rfl
        · simp only [if_neg hkey]
          cases bufferCopyBuffer _ methodB with
          | error => rfl
          | ok httpMethod =>
            dsimp only
            generalize parseHttpVersion _ _ = version
            cases version <;> rfl

/-- A line of three words. -/
structure ThreeWords (line method url proto : Bytes) : Prop where
  split : line = method ++ 32 :: (url ++ 32 :: proto)
  method : (32 : UInt8) ∉ method
  url : (32 : UInt8) ∉ url
  proto : (32 : UInt8) ∉ proto

lemma ThreeWords.count {line method url proto : Bytes} (h : ThreeWords line method url proto) :
    line.count 32 = 2 := by
  rw [h.split, List.count_append, List.count_cons_self, List.count_append, List.count_cons_self,
    List.count_eq_zero.mpr h.method, List.count_eq_zero.mpr h.url, List.count_eq_zero.mpr h.proto]

/-- A string is split at its first separator in one way. -/
lemma split_unique {sep : UInt8} {a b s t : Bytes} (ha : sep ∉ a) (hb : sep ∉ b)
    (same : a ++ sep :: s = b ++ sep :: t) : a = b ∧ s = t := by
  have hfirst : ∀ {w : Bytes} (r : Bytes), sep ∉ w →
      (w ++ sep :: r).takeWhile (fun c => c != sep) = w := by
    intro w r hw
    have hnone : ∀ c ∈ w, (c != sep) = true := fun c hc => bne_iff_ne.mpr fun h => hw (h ▸ hc)
    rw [List.takeWhile_append_of_pos hnone]
    simp
  have hfront := congrArg (List.takeWhile (fun c => c != sep)) same
  rw [hfirst s ha, hfirst t hb] at hfront
  subst hfront
  exact ⟨rfl, (List.cons.inj (List.append_cancel_left same)).2⟩

lemma ThreeWords.unique {line m u p method url proto : Bytes} (h : ThreeWords line m u p)
    (h' : ThreeWords line method url proto) : m = method ∧ u = url ∧ p = proto := by
  obtain ⟨hm, hbehind⟩ := split_unique h.method h'.method (h.split.symm.trans h'.split)
  obtain ⟨hu, hp⟩ := split_unique h.url h'.url hbehind
  exact ⟨hm, hu, hp⟩

/-- The scan passes over a word. -/
lemma scan_word {word t : Bytes} (index offset lineState method url : Nat)
    (blanks : (32 : UInt8) ∉ word) (whole : ¬ crlf <:+: word) (next : t.headD 0 ≠ 10) :
    scanRequestLine (word ++ t) index offset lineState method url =
      scanRequestLine t (index + word.length) offset lineState method url := by
  induction word generalizing index with
  | nil => rfl
  | cons c word ih =>
    have hc : c ≠ 32 := fun h => blanks (h ▸ List.mem_cons_self)
    have hends : ¬ (c = 13 ∧ (word ++ t).headD 0 = 10) := by
      rintro ⟨rfl, hnext⟩
      cases word with
      | nil => exact next hnext
      | cons d word =>
        have hd : d = 10 := hnext
        subst hd
        exact whole ⟨[], word, rfl⟩
    have hrest := ih (index + 1) (fun h => blanks (List.mem_cons_of_mem _ h))
      (fun h => whole (h.trans (List.suffix_cons c word).isInfix))
    simp only [List.cons_append, scanRequestLine, if_neg hc, if_neg hends, hrest,
      List.length_cons]
    congr 1
    omega

/-- A word without a blank in it, and the rest behind the first blank. -/
lemma cut_word (line : Bytes) : (32 : UInt8) ∉ line ∨
    ∃ word rest, line = word ++ 32 :: rest ∧ (32 : UInt8) ∉ word := by
  by_cases hmem : (32 : UInt8) ∈ line
  · obtain ⟨word, rest, hsplit, hword⟩ := List.eq_append_cons_of_mem hmem
    exact Or.inr ⟨word, rest, hsplit, hword⟩
  · exact Or.inl hmem

section Words
variable {word : Bytes} (t : Bytes) (index offset method url : Nat)

/-- The line ends behind the word. -/
lemma scan_last (lineState : Nat) (blanks : (32 : UInt8) ∉ word) (whole : ¬ crlf <:+: word) :
    scanRequestLine (word ++ (crlf ++ t)) index offset lineState method url =
      if lineState ≠ 2 then .malformed else .found method url offset (index + word.length) := by
  have hnext : (crlf ++ t).headD 0 ≠ 10 := show (13 : UInt8) ≠ 10 by decide
  rw [scan_word _ _ _ _ _ blanks whole hnext]
  rfl

lemma scan_blank (lineState : Nat) (blanks : (32 : UInt8) ∉ word) (whole : ¬ crlf <:+: word) :
    scanRequestLine (word ++ 32 :: t) index offset lineState method url =
      scanRequestLine (32 :: t) (index + word.length) offset lineState method url :=
  scan_word _ _ _ _ _ blanks whole (show (32 : UInt8) ≠ 10 by decide)

end Words

/-- The scan finds the three words of the first line, or it fails. -/
theorem scan_first_line {line : Bytes} (rest : Bytes) (whole : ¬ crlf <:+: line) :
    (∃ method url proto, ThreeWords line method url proto ∧
      scanRequestLine (line ++ (crlf ++ rest)) 0 0 0 0 0 =
        .found 0 (method.length + 1) (method.length + 1 + url.length + 1) line.length) ∨
    (¬ ∃ method url proto, ThreeWords line method url proto) ∧
      (scanRequestLine (line ++ (crlf ++ rest)) 0 0 0 0 0 = .extraSpace ∨
        scanRequestLine (line ++ (crlf ++ rest)) 0 0 0 0 0 = .malformed) := by
  have hno : line.count 32 ≠ 2 → ¬ ∃ method url proto, ThreeWords line method url proto := by
    rintro hn ⟨method, url, proto, hwords⟩
    exact hn hwords.count
  have part : ∀ {w : Bytes}, w <:+: line → ¬ crlf <:+: w := fun hw h => whole (h.trans hw)
  rcases cut_word line with hnone | ⟨method, behind, rfl, hmethod⟩
  · refine Or.inr ⟨hno ?_, Or.inr (scan_last rest 0 0 0 0 0 hnone whole)⟩
    rw [List.count_eq_zero.mpr hnone]
    decide
  · have hbehind : behind <:+: method ++ 32 :: behind :=
      ((List.suffix_cons 32 behind).trans (List.suffix_append _ _)).isInfix
    have hfirst : scanRequestLine ((method ++ 32 :: behind) ++ (crlf ++ rest)) 0 0 0 0 0 =
        scanRequestLine (behind ++ (crlf ++ rest)) (method.length + 1) (method.length + 1) 1 0 0 := by
      rw [List.append_assoc]
      have hscan := scan_blank (behind ++ (crlf ++ rest)) 0 0 0 0 0 hmethod
        (part (List.prefix_append _ _).isInfix)
      rw [Nat.zero_add] at hscan
      exact hscan
    have hcount : (method ++ 32 :: behind).count 32 = behind.count 32 + 1 := by
      rw [List.count_append, List.count_eq_zero.mpr hmethod, Nat.zero_add, List.count_cons_self]
    rw [hfirst]
    rw [hcount] at hno
    rcases cut_word behind with hnone | ⟨url, proto, rfl, hurl⟩
    · refine Or.inr ⟨hno ?_, Or.inr (scan_last rest _ _ _ _ 1 hnone (part hbehind))⟩
      rw [List.count_eq_zero.mpr hnone]
      decide
    · have hproto : proto <:+: method ++ 32 :: (url ++ 32 :: proto) :=
        ((List.suffix_cons 32 proto).trans (List.suffix_append _ _)).isInfix.trans hbehind
      have hsecond : scanRequestLine ((url ++ 32 :: proto) ++ (crlf ++ rest)) (method.length + 1)
          (method.length + 1) 1 0 0 = scanRequestLine (proto ++ (crlf ++ rest))
            (method.length + 1 + url.length + 1) (method.length + 1 + url.length + 1) 2 0
            (method.length + 1) := by
        rw [List.append_assoc]
        exact scan_blank (proto ++ (crlf ++ rest)) _ _ _ _ 1 hurl
          (part ((List.prefix_append _ _).isInfix.trans hbehind))
      rw [hsecond]
      rw [List.count_append, List.count_eq_zero.mpr hurl, Nat.zero_add, List.count_cons_self] at hno
      rcases cut_word proto with hnone | ⟨word, more, rfl, hword⟩
      · refine Or.inl ⟨method, url, proto, ⟨rfl, hmethod, hurl, hnone⟩, ?_⟩
        rw [scan_last rest _ _ _ _ 2 hnone (part hproto), if_neg (not_not_intro rfl)]
        congr 1
        simp only [List.length_append, List.length_cons]
        omega
      · refine Or.inr ⟨hno ?_, Or.inl ?_⟩
        · rw [List.count_append, List.count_cons_self]
          omega
        · rw [List.append_assoc]
          exact scan_blank (more ++ (crlf ++ rest)) _ _ _ _ 2 hword
            (part ((List.prefix_append _ _).isInfix.trans hproto))

def Supported (method : Bytes) : Prop := method = asciiBytes "GET" ∨ method = asciiBytes "POST"

instance (method : Bytes) : Decidable (Supported method) := inferInstanceAs (Decidable (_ ∨ _))

lemma methodBuffer_data {method : Bytes} (some_method : method ≠ []) :
    (appended bufferInit method).data = method ++ [0] := by
  have hlength : ¬ method.length = 0 := fun h => some_method (List.length_eq_zero_iff.mp h)
  have hempty : bufferStringLength (bufferAppendPrepareSizes bufferInit (u32 (method.length + 1))) =
      0 := by
    rw [bufferAppendPrepareSizes]
    split <;> rfl
  rw [appended, if_neg hlength]
  simp only [if_pos hempty]

/-- Where the method can be compared at all, it is GET or POST. -/
lemma method_key {method : Bytes} (some_method : method ≠ []) (nulFree : ∀ c ∈ method, c ≠ 0)
    {key : HttpMethod}
    (h : httpGetRequestMethod (appended bufferInit method) = .ok key) :
    key = .get ∨ key = .post ↔ Supported method := by
  have table : ∀ e ∈ httpMethods, (e.1 = .get ∨ e.1 = .post ↔ Supported (asciiBytes e.2)) := by
    decide +kernel
  have listed : ∀ m, Supported m → ∃ e ∈ httpMethods, asciiBytes e.2 = m := by
    rintro m (rfl | rfl)
    · exact ⟨(.get, "GET"), by decide, rfl⟩
    · exact ⟨(.post, "POST"), by decide, rfl⟩
  rw [httpGetRequestMethod, methodBuffer_data some_method, cString_terminated nulFree] at h
  split at h
  · cases h
  · split at h
    · rename_i e hfound
      cases h
      have hsame : asciiBytes e.2 = method := by
        have hfits := List.find?_some hfound
        rwa [beq_iff_eq] at hfits
      rw [← hsame]
      exact table e (List.mem_of_find?_eq_some hfound)
    · rename_i hnone
      cases h
      refine iff_of_false (by rintro (h | h) <;> cases h) fun hsupported => ?_
      obtain ⟨e, he, hsame⟩ := listed method hsupported
      have hdiffers := List.find?_eq_none.mp hnone e he
      rw [hsame] at hdiffers
      exact hdiffers (beq_self_eq_true _)

lemma supported_append {method : Bytes} (h : Supported method) :
    bufferAppendString bufferInit method = .ok (appended bufferInit method) := by
  rcases h with rfl | rfl <;> rfl

lemma supported_key {method : Bytes} (h : Supported method) :
    ∃ key, httpGetRequestMethod (appended bufferInit method) = .ok key ∧
      (key = .get ∨ key = .post) := by
  rcases h with rfl | rfl
  · exact ⟨.get, by decide +kernel, Or.inl rfl⟩
  · exact ⟨.post, by decide +kernel, Or.inr rfl⟩

lemma supported_copy {method : Bytes} (h : Supported method) (des : Buffer) :
    ∃ b, bufferCopyBuffer des (appended bufferInit method) = .ok b ∧
      bufferString b = method := by
  have hcopy : (appended bufferInit method).isNull = false ∧
      bufferString (appended bufferInit method) = method ∧ method.length < 4294967295 := by
    rcases h with rfl | rfl <;> exact ⟨by decide, by decide, by decide⟩
  obtain ⟨hmemory, hstring, hshort⟩ := hcopy
  rw [bufferCopyBuffer, hmemory, hstring]
  exact ⟨_, rfl, (bufferCopyStringLength_terminated des hshort).take_stringLength.trans
    (bufferCopyStringLength_str des method)⟩

/-- The protocol word HTTP/M.N as `strtol` reads it into two `int`s. -/
structure ReadsAs (proto M N : Bytes) (minor : Int) : Prop where
  split : proto = asciiBytes "HTTP/" ++ (M ++ 46 :: N)
  undotted : (46 : UInt8) ∉ M
  some_major : M ≠ []
  some_minor : N ≠ []
  major : ∃ v, strtol M = (v, []) ∧ toInt32 v = 1
  minor : ∃ v, strtol N = (v, []) ∧ toInt32 v = minor

lemma ReadsAs.unique {proto M N M' N' : Bytes} {minor minor' : Int} (h : ReadsAs proto M N minor)
    (h' : ReadsAs proto M' N' minor') : M = M' ∧ N = N' :=
  split_unique h.undotted h'.undotted
    (List.append_cancel_left (h.split.symm.trans h'.split))

def versionOf (support11 : Bool) (minor : Int) : HttpVersion :=
  if minor = 1 ∧ support11 = true then .http11 else .http10

lemma findIdx_dot {M N : Bytes} (undotted : (46 : UInt8) ∉ M) :
    (M ++ 46 :: N).findIdx? (fun c => c == 46) = some M.length := by
  induction M with
  | nil => rfl
  | cons c M ih =>
    have hc : (c == 46) = false := beq_eq_false_iff_ne.mpr fun h => undotted (h ▸ List.mem_cons_self)
    rw [List.cons_append, List.findIdx?_cons, hc, ih (fun h => undotted (List.mem_cons_of_mem _ h))]
    rfl

lemma cut_dot (s : Bytes) : (46 : UInt8) ∉ s ∨ ∃ M N, s = M ++ 46 :: N ∧ (46 : UInt8) ∉ M := by
  by_cases hmem : (46 : UInt8) ∈ s
  · obtain ⟨M, N, hsplit, hM⟩ := List.eq_append_cons_of_mem hmem
    exact Or.inr ⟨M, N, hsplit, hM⟩
  · exact Or.inl hmem

theorem parseHttpVersion_iff (support11 : Bool) (proto : Bytes) (version : HttpVersion) :
    parseHttpVersion support11 proto = some version ↔
      ∃ M N minor, ReadsAs proto M N minor ∧ (minor = 0 ∨ minor = 1) ∧
        version = versionOf support11 minor := by
  rw [parseHttpVersion]
  by_cases hprefix : proto.take 5 = asciiBytes "HTTP/"
  · have hproto : proto = asciiBytes "HTTP/" ++ proto.drop 5 := by
      rw [← hprefix, List.take_append_drop]
    rw [if_pos hprefix]
    generalize proto.drop 5 = word at hproto
    dsimp only
    rcases cut_dot word with hnone | ⟨M, N, rfl, hM⟩
    · have hfind : word.findIdx? (fun c => c == 46) = none := by
        rw [List.findIdx?_eq_none_iff]
        exact fun c hc => beq_eq_false_iff_ne.mpr fun h => hnone (h ▸ hc)
      rw [hfind]
      refine iff_of_false (fun h => by cases h) ?_
      rintro ⟨M, N, minor, hreads, _⟩
      apply hnone
      have hword := List.append_cancel_left (hproto.symm.trans hreads.split)
      rw [hword]
      exact List.mem_append_right M List.mem_cons_self
    · have hsplits : ∀ M' N' minor, ReadsAs proto M' N' minor → M' = M ∧ N' = N := by
        intro M' N' minor hreads
        have hword := List.append_cancel_left (hproto.symm.trans hreads.split)
        exact split_unique hreads.undotted hM hword.symm
      have hminor : (M ++ 46 :: N).drop (M.length + 1) = N := by
        rw [← List.drop_drop, List.drop_left]
        rfl
      have hmajor : (M ++ 46 :: N).take M.length = M := List.take_left
      rw [findIdx_dot hM]
      cases M with
      | nil =>
        refine iff_of_false (fun h => by cases h) ?_
        rintro ⟨M', N', minor, hreads, _⟩
        exact hreads.some_major (hsplits M' N' minor hreads).1
      | cons c M =>
        rw [List.length_cons] at hminor hmajor ⊢
        simp only [hminor, hmajor]
        constructor
        · intro h
          split at h
          · cases h
          · rename_i hN
            split at h
            · cases h
            · rename_i hread
              rw [not_or, not_not, not_not] at hread
              obtain ⟨hM', hN'⟩ := hread
              have reads : ∀ minor, toInt32 (strtol (c :: M)).1 = 1 →
                  toInt32 (strtol N).1 = minor → ReadsAs proto (c :: M) N minor :=
                fun minor hone hvalue => ⟨hproto, hM, List.cons_ne_nil c M, hN,
                  ⟨_, Prod.ext rfl hM', hone⟩, ⟨_, Prod.ext rfl hN', hvalue⟩⟩
              split at h
              · rename_i hboth
                cases h
                refine ⟨c :: M, N, 1, reads 1 hboth.1 hboth.2, Or.inr rfl, ?_⟩
                cases support11 <;> rfl
              · split at h
                · rename_i hboth
                  cases h
                  exact ⟨c :: M, N, 0, reads 0 hboth.1 hboth.2, Or.inl rfl, rfl⟩
                · cases h
        · rintro ⟨M', N', minor, hreads, hvalue, rfl⟩
          obtain ⟨rfl, rfl⟩ := hsplits M' N' minor hreads
          obtain ⟨v, hv, hone⟩ := hreads.major
          obtain ⟨w, hw, hminor'⟩ := hreads.minor
          rw [if_neg hreads.some_minor]
          simp only [hv, hw, ne_eq, not_true_eq_false, or_self, if_false, hone, hminor', true_and]
          rcases hvalue with rfl | rfl
          · rfl
          · cases support11 <;> rfl
  · rw [if_neg hprefix]
    refine iff_of_false (fun h => by cases h) ?_
    rintro ⟨M, N, minor, hreads, _⟩
    apply hprefix
    rw [hreads.split]
    rfl

/-- The head once the words of its first line are C strings. -/
def cutHead (method url proto rest : Bytes) : Bytes :=
  method ++ 0 :: (url ++ 0 :: (proto ++ 0 :: 0 :: rest))

/-- The cut first line stands in front of the rest of the head. -/
lemma cutHead_front {line method url proto : Bytes} (rest : Bytes)
    (words : ThreeWords line method url proto) :
    ∃ front, cutHead method url proto rest = front ++ rest ∧ line.length + 2 = front.length := by
  refine ⟨method ++ 0 :: (url ++ 0 :: (proto ++ [0, 0])), ?_, ?_⟩
  · rw [cutHead]
    simp only [List.append_assoc, List.cons_append, List.nil_append]
  · rw [words.split]
    simp only [List.length_append, List.length_cons, List.length_nil]
    omega

lemma set_behind (a b : Bytes) (x y : UInt8) {i : Nat} (at_end : i = a.length) :
    (a ++ x :: b).set i y = a ++ y :: b := by
  rw [at_end, List.set_append_right _ _ (Nat.le_refl _), Nat.sub_self]
  rfl

lemma cut_line {line method url proto : Bytes} (rest : Bytes)
    (words : ThreeWords line method url proto) :
    (((((line ++ (crlf ++ rest)).set line.length 0).set (line.length + 1) 0).set
      (method.length + 1 - 1) 0).set (method.length + 1 + url.length + 1 - 1) 0) =
      cutHead method url proto rest := by
  have hfirst : (line ++ (crlf ++ rest)).set line.length 0 = (line ++ [0]) ++ 10 :: rest := by
    rw [List.append_assoc]
    exact set_behind line (10 :: rest) 13 0 rfl
  have hsecond : ((line ++ [0]) ++ 10 :: rest).set (line.length + 1) 0 =
      method ++ 32 :: (url ++ 32 :: (proto ++ 0 :: 0 :: rest)) := by
    rw [set_behind (line ++ [0]) rest 10 0 (by rw [List.length_append]; rfl), words.split]
    simp only [List.append_assoc, List.cons_append, List.nil_append]
  have hthird : (method ++ 32 :: (url ++ 32 :: (proto ++ 0 :: 0 :: rest))).set
      (method.length + 1 - 1) 0 = (method ++ 0 :: url) ++ 32 :: (proto ++ 0 :: 0 :: rest) := by
    rw [set_behind method _ 32 0 (Nat.add_sub_cancel _ _)]
    simp only [List.append_assoc, List.cons_append]
  rw [hfirst, hsecond, hthird, set_behind (method ++ 0 :: url) _ 32 0 (by
    rw [List.length_append, List.length_cons]
    omega), cutHead]
  simp only [List.append_assoc, List.cons_append]

/-- The connection in front of the option loop. -/
def withLine (conn : Connection) (content : Bytes) (httpMethod : Buffer) (url : Bytes)
    (version : HttpVersion) : Connection :=
  let conn := Connection.withContent conn content
  { conn with connectionRequest := { conn.connectionRequest with
      httpMethod := httpMethod
      requestUrl := bufferCopyString conn.connectionRequest.requestUrl url
      httpVersion := version } }

section Line
variable {config : ServerConfig} {conn : Connection} {line method url proto rest : Bytes}

lemma cutHead_strings (nulMethod : ∀ c ∈ method, c ≠ 0) (nulUrl : ∀ c ∈ url, c ≠ 0)
    (nulProto : ∀ c ∈ proto, c ≠ 0) :
    cString ((cutHead method url proto rest).drop 0) = method ∧
      cString ((cutHead method url proto rest).drop (method.length + 1)) = url ∧
      cString ((cutHead method url proto rest).drop (method.length + 1 + url.length + 1)) = proto := by
  have hdrop : ∀ s t : Bytes, (s ++ 0 :: t).drop (s.length + 1) = t := by
    intro s t
    rw [← List.drop_drop, List.drop_left]
    rfl
  refine ⟨cString_before nulMethod _, ?_, ?_⟩
  · rw [cutHead, hdrop]
    exact cString_before nulUrl _
  · have hsum : method.length + 1 + url.length + 1 = method.length + 1 + (url.length + 1) := by omega
    rw [cutHead, hsum, ← List.drop_drop, hdrop, hdrop]
    exact cString_before nulProto _

/-- Which three words lead to the option loop, and what they leave behind. -/
lemma linePart_reaches (words : ThreeWords line method url proto) (some_method : method ≠ [])
    (nulFree : ∀ c ∈ line, c ≠ 0) (short : line.length < 4294967295)
    (reached : Connection × Bytes × Nat) :
    linePart config conn (line ++ (crlf ++ rest)) 0 (method.length + 1)
        (method.length + 1 + url.length + 1) line.length = .ok (.inr reached) ↔
      Supported method ∧ ∃ version httpMethod,
        parseHttpVersion config.supportHttp11 proto = some version ∧
        bufferCopyBuffer conn.connectionRequest.httpMethod (appended bufferInit method) =
          .ok httpMethod ∧
        reached = (withLine conn (cutHead method url proto rest) httpMethod url version,
          cutHead method url proto rest, line.length + 2) := by
  have hmember : ∀ c, c ∈ method ∨ c ∈ url ∨ c ∈ proto → c ∈ line := by
    intro c hc
    rw [words.split]
    simp only [List.mem_append, List.mem_cons]
    tauto
  have nulMethod : ∀ c ∈ method, c ≠ 0 := fun c hc => nulFree c (hmember c (Or.inl hc))
  obtain ⟨hmethod, hurl, hproto⟩ := @cutHead_strings method url proto rest nulMethod
    (fun c hc => nulFree c (hmember c (Or.inr (Or.inl hc))))
    (fun c hc => nulFree c (hmember c (Or.inr (Or.inr hc))))
  have hlong : url.length ≤ line.length := by
    rw [words.split]
    simp only [List.length_append, List.length_cons]
    omega
  simp only [linePart, cut_line rest words, hmethod, hurl, hproto]
  constructor
  · intro h
    obtain ⟨methodB, happend, h⟩ := bind_eq_ok.mp h
    cases bufferAppendString_ok happend
    obtain ⟨key, hkey, h⟩ := bind_eq_ok.mp h
    have hsupported := method_key some_method nulMethod hkey
    split at h
    · cases h
    · rename_i hlisted
      obtain ⟨httpMethod, hcopy, h⟩ := bind_eq_ok.mp h
      refine ⟨hsupported.mp (by tauto), ?_⟩
      split at h
      · cases h
      · rename_i version hversion
        rw [checkUrl] at h
        split at h
        · cases h
        · cases h
          exact ⟨version, httpMethod, hversion, hcopy, rfl⟩
  · rintro ⟨hsupported, version, httpMethod, hversion, hcopy, rfl⟩
    obtain ⟨key, hkey, hlisted⟩ := supported_key hsupported
    have hnot : ¬ (key ≠ .get ∧ key ≠ .post) := by tauto
    have hcopy' : bufferCopyBuffer (Connection.withContent conn (cutHead method url proto rest)
        ).connectionRequest.httpMethod (appended bufferInit method) = .ok httpMethod := hcopy
    have hused : bufferIsEmpty (bufferCopyString conn.connectionRequest.requestUrl url) = false := by
      have hterminated := bufferCopyStringLength_terminated conn.connectionRequest.requestUrl
        (show url.length < 4294967295 by omega)
      rw [bufferIsEmpty, bufferCopyString, hterminated.usedBytes_eq, beq_eq_false_iff_ne]
      rw [bufferCopyStringLength]
      simp
    rw [supported_append hsupported]
    simp only [Except.bind, bind, hkey, if_neg hnot, hcopy', hversion]
    have hchecked : bufferIsEmpty (withLine conn (cutHead method url proto rest) httpMethod url
        version).connectionRequest.requestUrl = false := hused
    change (Except.ok (checkUrl (withLine conn (cutHead method url proto rest) httpMethod url version)
      _ _) : Except Fault LineResult) = _
    rw [checkUrl, hchecked]
    rfl

/-- The lines that lead to the option loop, as the parser reads them. -/
theorem reaches_iff (content : conn.connectionRequest.requestContent.str = line ++ (crlf ++ rest))
    (whole : ¬ crlf <:+: line) (nulFree : ∀ c ∈ line, c ≠ 0) (first : line.headD 0 ≠ 32)
    (short : line.length < 4294967295) (reached : Connection × Bytes × Nat) :
    requestLinePart config conn = .ok (.inr reached) ↔
      ∃ method url proto version httpMethod, ThreeWords line method url proto ∧
        Supported method ∧ parseHttpVersion config.supportHttp11 proto = some version ∧
        bufferCopyBuffer conn.connectionRequest.httpMethod (appended bufferInit method) =
          .ok httpMethod ∧
        reached = (withLine conn (cutHead method url proto rest) httpMethod url version,
          cutHead method url proto rest, line.length + 2) := by
  rw [requestLinePart, content]
  rcases scan_first_line rest whole with ⟨method, url, proto, hwords, hscan⟩ | ⟨hnone, hfails⟩
  · have hsome : method ≠ [] := by
      rintro rfl
      rw [hwords.split] at first
      exact first rfl
    rw [hscan]
    simp only [linePart_reaches hwords hsome nulFree short]
    constructor
    · rintro ⟨hsupported, version, httpMethod, hrest⟩
      exact ⟨method, url, proto, version, httpMethod, hwords, hsupported, hrest⟩
    · rintro ⟨method', url', proto', version, httpMethod, hwords', hrest⟩
      obtain ⟨rfl, rfl, rfl⟩ := hwords.unique hwords'
      exact ⟨hrest.1, version, httpMethod, hrest.2⟩
  · refine iff_of_false (fun h => ?_) ?_
    · rcases hfails with hfail | hfail <;>
      · rw [hfail] at h
        cases h
    · rintro ⟨method, url, proto, _, _, hwords, _⟩
      exact hnone ⟨method, url, proto, hwords⟩

end Line

/-- A nonempty string of decimal digits of this value. -/
structure Decimal (s : Bytes) (value : Nat) : Prop where
  some_digit : s ≠ []
  digits : ∀ c ∈ s, isDigit c = true
  value : decimalValue s = value

/-- GET or POST, a URL and HTTP/1.0 or HTTP/1.1, with single blanks between them. -/
structure Grammar (line method url M N : Bytes) (minor : Nat) : Prop where
  words : ThreeWords line method url (asciiBytes "HTTP/" ++ (M ++ 46 :: N))
  method : Supported method
  some_url : url ≠ []
  one : Decimal M 1
  digits : Decimal N minor
  known : minor = 0 ∨ minor = 1

/-- Words that the parser takes for such a line: the URL is empty, or `strtol`
and `int` make a known version of what is not written as one. -/
structure Lax (line method url M N : Bytes) (minor : Int) : Prop where
  words : ThreeWords line method url (asciiBytes "HTTP/" ++ (M ++ 46 :: N))
  method : Supported method
  reads : ReadsAs (asciiBytes "HTTP/" ++ (M ++ 46 :: N)) M N minor
  known : minor = 0 ∨ minor = 1
  odd : url = [] ∨ ¬ Decimal M 1 ∨ ¬ Decimal N minor.toNat

/-- The first line leads to the option loop if and only if it is of the grammar,
and its words and its version are taken over. -/
structure LineExact (config : ServerConfig) (conn : Connection) (line : Bytes) : Prop where
  accepts : (∃ reached, requestLinePart config conn = .ok (.inr reached)) ↔
    ∃ method url M N minor, Grammar line method url M N minor
  fields : ∀ method url M N minor, Grammar line method url M N minor →
    ∃ reached, requestLinePart config conn = .ok (.inr reached) ∧
      bufferString reached.1.connectionRequest.httpMethod = method ∧
      bufferString reached.1.connectionRequest.requestUrl = url ∧
      reached.1.connectionRequest.httpVersion =
        if minor = 1 ∧ config.supportHttp11 = true then .http11 else .http10

lemma strtol_decimal {s : Bytes} {value : Nat} (h : Decimal s value) (small : value < 2147483648) :
    strtol s = ((value : Int), []) ∧ toInt32 value = value := by
  obtain ⟨c, rest, rfl⟩ := List.exists_cons_of_ne_nil h.some_digit
  have hc := h.digits c List.mem_cons_self
  have hplain : isSpace c = false ∧ c ≠ 45 ∧ c ≠ 43 := by
    rw [isDigit] at hc
    rw [isSpace]
    grind
  have hdrop : (c :: rest).dropWhile isSpace = c :: rest := by
    rw [List.dropWhile_cons, hplain.1]
    rfl
  have htake : (c :: rest).takeWhile isDigit = c :: rest :=
    List.takeWhile_eq_self_iff.mpr h.digits
  have hend : (c :: rest).dropWhile isDigit = [] := List.dropWhile_eq_nil_iff.mpr h.digits
  constructor
  · rw [strtol, hdrop]
    split
    rename_i negative t hsign
    split at hsign
    · rename_i heq
      exact absurd (List.cons.inj heq).1 hplain.2.1
    · rename_i heq
      exact absurd (List.cons.inj heq).1 hplain.2.2
    · cases hsign
      simp only [htake, hend, h.value, List.isEmpty_cons, Bool.false_eq_true, if_false]
      congr 1
      omega
  · rw [toInt32]
    omega

lemma Grammar.readsAs {line method url M N : Bytes} {minor : Nat}
    (h : Grammar line method url M N minor) :
    ReadsAs (asciiBytes "HTTP/" ++ (M ++ 46 :: N)) M N minor := by
  have hundotted : (46 : UInt8) ∉ M := fun hdot => absurd (h.one.digits 46 hdot) (by decide)
  have hsmall : minor < 2147483648 := by
    rcases h.known with hminor | hminor <;> omega
  exact ⟨rfl, hundotted, h.one.some_digit, h.digits.some_digit,
    ⟨_, (strtol_decimal h.one (by decide)).1, rfl⟩,
    ⟨_, strtol_decimal h.digits hsmall⟩⟩

section Line
variable {config : ServerConfig} {conn : Connection} {line rest : Bytes}

lemma Grammar.reaches {method url M N : Bytes} {minor : Nat}
    (h : Grammar line method url M N minor)
    (reaches : ∀ reached, requestLinePart config conn = .ok (.inr reached) ↔
      ∃ method url proto version httpMethod, ThreeWords line method url proto ∧
        Supported method ∧ parseHttpVersion config.supportHttp11 proto = some version ∧
        bufferCopyBuffer conn.connectionRequest.httpMethod (appended bufferInit method) =
          .ok httpMethod ∧
        reached = (withLine conn (cutHead method url proto rest) httpMethod url version,
          cutHead method url proto rest, line.length + 2)) :
    ∃ b, bufferString b = method ∧ requestLinePart config conn = .ok (.inr
      (withLine conn (cutHead method url (asciiBytes "HTTP/" ++ (M ++ 46 :: N)) rest) b url
        (versionOf config.supportHttp11 minor),
        cutHead method url (asciiBytes "HTTP/" ++ (M ++ 46 :: N)) rest, line.length + 2)) := by
  obtain ⟨b, hcopy, hstring⟩ := supported_copy h.method conn.connectionRequest.httpMethod
  have hknown : (minor : Int) = 0 ∨ (minor : Int) = 1 := by
    rcases h.known with h | h <;> omega
  have hversion := (parseHttpVersion_iff config.supportHttp11
    (asciiBytes "HTTP/" ++ (M ++ 46 :: N)) _).mpr ⟨M, N, minor, h.readsAs, hknown, rfl⟩
  exact ⟨b, hstring, (reaches _).mpr ⟨method, url, _, _, b, h.words, h.method, hversion, hcopy,
    rfl⟩⟩

lemma versionOf_minor (support11 : Bool) (minor : Nat) :
    versionOf support11 minor = if minor = 1 ∧ support11 = true then .http11 else .http10 := by
  have hone : (minor : Int) = 1 ↔ minor = 1 := by omega
  simp only [versionOf, hone]

/-- Nothing that is of the grammar is lax. -/
lemma Lax.not_grammar {method url M N m u M' N' : Bytes} {minor : Int} {k : Nat}
    (h : Lax line method url M N minor) : ¬ Grammar line m u M' N' k := by
  intro hgrammar
  obtain ⟨rfl, rfl, hproto⟩ := h.words.unique hgrammar.words
  have hreads := hgrammar.readsAs
  rw [← hproto] at hreads
  obtain ⟨rfl, rfl⟩ := h.reads.unique hreads
  obtain ⟨v, hv, hminor⟩ := h.reads.minor
  have hsmall : k < 2147483648 := by
    rcases hgrammar.known with h | h <;> omega
  obtain ⟨hk, hint⟩ := strtol_decimal hgrammar.digits hsmall
  obtain rfl := (Prod.mk.inj (hv.symm.trans hk)).1
  rw [hint] at hminor
  subst hminor
  rcases h.odd with hurl | hmajor | hdigits
  · exact hgrammar.some_url hurl
  · exact hmajor hgrammar.one
  · exact hdigits hgrammar.digits

lemma line_short (terminated : conn.connectionRequest.requestContent.Terminated)
    (content : conn.connectionRequest.requestContent.str = line ++ (crlf ++ rest)) :
    line.length + rest.length + 2 < 4294967296 := by
  have hlength := congrArg List.length content
  have hheld := terminated.short
  have hcrlf : crlf.length = 2 := rfl
  rw [Buffer.str, List.length_dropLast, List.length_append, List.length_append, hcrlf] at hlength
  omega

/-- A first line is treated exactly as the grammar says if and only if it is not
one of those that pass for a request line without being one. -/
theorem request_line_iff (terminated : conn.connectionRequest.requestContent.Terminated)
    (content : conn.connectionRequest.requestContent.str = line ++ (crlf ++ rest))
    (whole : ¬ crlf <:+: line) (nulFree : ∀ c ∈ line, c ≠ 0) (first : line.headD 0 ≠ 32) :
    LineExact config conn line ↔ ¬ ∃ method url M N minor, Lax line method url M N minor := by
  have hshort := line_short terminated content
  have short : line.length < 4294967295 := by omega
  have hreaches := fun reached => @reaches_iff config conn line rest content whole nulFree first
    short reached
  constructor
  · rintro hexact ⟨method, url, M, N, minor, hlax⟩
    obtain ⟨b, hcopy, _⟩ := supported_copy hlax.method conn.connectionRequest.httpMethod
    have hversion := (parseHttpVersion_iff config.supportHttp11
      (asciiBytes "HTTP/" ++ (M ++ 46 :: N)) _).mpr ⟨M, N, minor, hlax.reads, hlax.known, rfl⟩
    obtain ⟨m, u, M', N', k, hgrammar⟩ := hexact.accepts.mp ⟨_, (hreaches _).mpr
      ⟨method, url, _, _, b, hlax.words, hlax.method, hversion, hcopy, rfl⟩⟩
    exact hlax.not_grammar hgrammar
  · intro hstrict
    constructor
    · constructor
      · rintro ⟨reached, hreached⟩
        obtain ⟨method, url, proto, version, _, hwords, hsupported, hversion, _⟩ :=
          (hreaches reached).mp hreached
        obtain ⟨M, N, minor, hreads, hknown, _⟩ := (parseHttpVersion_iff _ _ _).mp hversion
        obtain rfl := hreads.split
        have hodd : ¬ (url = [] ∨ ¬ Decimal M 1 ∨ ¬ Decimal N minor.toNat) :=
          fun hodd => hstrict ⟨method, url, M, N, minor, hwords, hsupported, hreads, hknown, hodd⟩
        rw [not_or, not_or, not_not, not_not] at hodd
        refine ⟨method, url, M, N, minor.toNat, hwords, hsupported, hodd.1, hodd.2.1, hodd.2.2, ?_⟩
        rcases hknown with rfl | rfl
        · exact Or.inl rfl
        · exact Or.inr rfl
      · rintro ⟨method, url, M, N, minor, hgrammar⟩
        obtain ⟨b, _, hreached⟩ := hgrammar.reaches hreaches
        exact ⟨_, hreached⟩
    · intro method url M N minor hgrammar
      obtain ⟨b, hstring, hreached⟩ := hgrammar.reaches hreaches
      refine ⟨_, hreached, hstring, ?_, versionOf_minor config.supportHttp11 minor⟩
      have hlong : url.length ≤ line.length := by
        rw [hgrammar.words.split]
        simp only [List.length_append, List.length_cons]
        omega
      exact (bufferCopyStringLength_terminated conn.connectionRequest.requestUrl
        (show url.length < 4294967295 by omega)).take_stringLength.trans
        (bufferCopyStringLength_str _ url)

end Line

/-- A connection whose head is this. -/
def holdingHead (head : Bytes) : Connection :=
  { connectionSetDefault with
    connectionRequest := { requestInitialize with
      requestContent := bufferCopyString bufferInit head } }

theorem request_line_plain :
    LineExact setConfigDefault (holdingHead (asciiBytes "GET /a HTTP/1.1\r\nHost: x\r\n\r\n"))
      (asciiBytes "GET /a HTTP/1.1") :=
  (@request_line_iff setConfigDefault (holdingHead (asciiBytes "GET /a HTTP/1.1\r\nHost: x\r\n\r\n"))
    (asciiBytes "GET /a HTTP/1.1") (asciiBytes "Host: x\r\n\r\n") ⟨by decide, by decide⟩
    (by decide) (by decide) (by decide +kernel) (by decide +kernel)).mpr (by
      rintro ⟨method, url, M, N, minor, hlax⟩
      apply hlax.not_grammar
      exact @Grammar.mk _ (asciiBytes "GET") (asciiBytes "/a") (asciiBytes "1") (asciiBytes "1") 1
        ⟨by decide, by decide, by decide, by decide⟩ (by decide) (by decide)
        ⟨by decide, by decide +kernel, by decide⟩ ⟨by decide, by decide +kernel, by decide⟩
        (Or.inr rfl))

/-- Two blanks behind GET pass for an empty URL. -/
theorem request_line_no_url :
    (∃ reached, requestLinePart setConfigDefault
      (holdingHead (asciiBytes "GET  HTTP/1.0\r\n\r\n")) = .ok (.inr reached)) ∧
    ¬ ∃ method url M N minor, Grammar (asciiBytes "GET  HTTP/1.0") method url M N minor := by
  constructor
  · have hpasses : (requestLinePart setConfigDefault
        (holdingHead (asciiBytes "GET  HTTP/1.0\r\n\r\n"))).toOption.any
          (fun result => result.isRight) = true := by
      decide +kernel
    obtain ⟨result, hok, hright⟩ := (Option.any_eq_true _ _).mp hpasses
    cases result with
    | inl => cases hright
    | inr reached => exact ⟨reached, toOption_eq_some hok⟩
  · rintro ⟨method, url, M, N, minor, hgrammar⟩
    have hwords : ThreeWords (asciiBytes "GET  HTTP/1.0") (asciiBytes "GET") []
        (asciiBytes "HTTP/1.0") := ⟨by decide, by decide, by decide, by decide⟩
    exact hgrammar.some_url (hgrammar.words.unique hwords).2.1

end RequestGrammar
