import Minihttpd.RequestGrammar

/-!
# The options of a request

The option loop over the lines behind the first one, against what each field
says by its own name. The loop compares only the first bytes of a name.
-/
namespace HeaderFields

open ByteBuffer ConnectionTypes HttpRequest RequestUrl RequestGrammar Framing FailingRun

structure Header where
  name : Bytes
  /-- what stands behind the colon -/
  text : Bytes
  deriving DecidableEq, Repr

def isBlank (c : UInt8) : Bool := c == 32 || c == 9

def lower (s : Bytes) : Bytes := s.map toLower

def Header.line (h : Header) : Bytes := h.name ++ 58 :: h.text

/-- The text without the blanks in front of it. -/
def Header.value (h : Header) : Bytes := h.text.dropWhile isBlank

/-- A name that is a token, and a text of one line. -/
structure Header.Plain (h : Header) : Prop where
  some_name : h.name ≠ []
  name : ∀ c ∈ h.name, c ∉ [58, 32, 9, 13, 10, 0]
  text : ∀ c ∈ h.text, c ∉ [13, 10, 0]

section Scan
variable {s : OptionScan} {t : Bytes}

/-- A byte of a name, or of a value that is no CR. -/
lemma scanOptions_cons {c : UInt8} (plain : s.isKey = true ∨ c ≠ 13) :
    scanOptions (c :: t) s =
      if s.isKey then
        if c = 58 then
          scanOptions t { s with index := s.index + 1, optionBuf := s.index + 1, isKey := false }
        else scanOptions t { s with index := s.index + 1 }
      else if (c = 32 ∨ c = 9) ∧ s.optionBuf = s.index then
        scanOptions t { s with index := s.index + 1, optionBuf := s.index + 1 }
      else scanOptions t { s with index := s.index + 1 } := by
  rw [scanOptions.eq_def]
  dsimp only
  by_cases hkey : s.isKey = true
  · rw [if_pos hkey, if_pos hkey]
  · rw [if_neg hkey, if_neg hkey, if_neg (plain.resolve_left hkey)]

lemma options_name {name : Bytes} (key : s.isKey = true) (name_plain : (58 : UInt8) ∉ name) :
    scanOptions (name ++ 58 :: t) s = scanOptions t { s with
      index := s.index + name.length + 1, optionBuf := s.index + name.length + 1,
      isKey := false } := by
  induction name generalizing s with
  | nil =>
    rw [List.nil_append, scanOptions_cons (Or.inl key), if_pos key, if_pos rfl]
    rfl
  | cons c name ih =>
    have hc : ¬ c = 58 := fun h => name_plain (h ▸ List.mem_cons_self)
    have hrest := @ih { s with index := s.index + 1 } key
      (fun h => name_plain (List.mem_cons_of_mem _ h))
    have hindex : s.index + 1 + name.length + 1 = s.index + (c :: name).length + 1 := by
      rw [List.length_cons]
      omega
    rw [List.cons_append, scanOptions_cons (Or.inl key), if_pos key, if_neg hc, hrest]
    dsimp only
    rw [hindex]

/-- The blanks in front of a value move its beginning. -/
lemma options_blanks {pad : Bytes} (key : s.isKey = false) (starts : s.optionBuf = s.index)
    (blanks : ∀ c ∈ pad, isBlank c = true) :
    scanOptions (pad ++ t) s = scanOptions t { s with
      index := s.index + pad.length, optionBuf := s.index + pad.length } := by
  induction pad generalizing s with
  | nil =>
    obtain ⟨index, offset, optionBuf, isKey, content, request⟩ := s
    obtain rfl : optionBuf = index := starts
    rfl
  | cons c pad ih =>
    have hc := blanks c List.mem_cons_self
    have hplain : c ≠ 13 ∧ (c = 32 ∨ c = 9) := by
      rw [isBlank] at hc
      grind
    have hkey : ¬ s.isKey = true := by
      rw [key]
      exact Bool.noConfusion
    have hrest := @ih { s with index := s.index + 1, optionBuf := s.index + 1 } key rfl
      (fun d hd => blanks d (List.mem_cons_of_mem _ hd))
    have hindex : s.index + 1 + pad.length = s.index + (c :: pad).length := by
      rw [List.length_cons]
      omega
    rw [List.cons_append, scanOptions_cons (Or.inr hplain.1), if_neg hkey,
      if_pos ⟨hplain.2, starts⟩, hrest]
    dsimp only
    rw [hindex]

/-- Behind its beginning, blanks belong to the value. -/
lemma options_value {value : Bytes} (key : s.isKey = false) (behind : s.optionBuf ≤ s.index)
    (trimmed : s.optionBuf = s.index → isBlank (value.headD 0) = false)
    (value_plain : (13 : UInt8) ∉ value) :
    scanOptions (value ++ t) s = scanOptions t { s with index := s.index + value.length } := by
  induction value generalizing s with
  | nil => rfl
  | cons c value ih =>
    have hc : c ≠ 13 := fun h => value_plain (h ▸ List.mem_cons_self)
    have hkey : ¬ s.isKey = true := by
      rw [key]
      exact Bool.noConfusion
    have hstays : ¬ ((c = 32 ∨ c = 9) ∧ s.optionBuf = s.index) := by
      rintro ⟨hblank, hsame⟩
      have hfirst := trimmed hsame
      rw [List.headD_cons, isBlank] at hfirst
      grind
    have hrest := @ih { s with index := s.index + 1 } key (Nat.le_succ_of_le behind)
      (fun hsame => by
        have hsame : s.optionBuf = s.index + 1 := hsame
        omega)
      (fun h => value_plain (List.mem_cons_of_mem _ h))
    have hindex : s.index + 1 + value.length = s.index + (c :: value).length := by
      rw [List.length_cons]
      omega
    rw [List.cons_append, scanOptions_cons (Or.inr hc), if_neg hkey, if_neg hstays, hrest]
    dsimp only
    rw [hindex]

lemma options_end (key : s.isKey = false) : scanOptions (crlf ++ t) s = scanOptions t s.endLine := by
  have hkey : ¬ s.isKey = true := by
    rw [key]
    exact Bool.noConfusion
  change scanOptions (13 :: 10 :: t) s = _
  rw [scanOptions.eq_def]
  dsimp only
  rw [if_neg hkey, if_pos rfl]
  rfl

end Scan

/-- What a line makes of the request. -/
def applyHeader (r : Request) (h : Header) : Request :=
  if h.value = [] then r else applyOption r h.line h.value

/-- The options behind `front`, with the lines up to there cut into C strings. -/
def optionsAt (front rest : Bytes) (optionBuf : Nat) (r : Request) : OptionScan :=
  ⟨front.length, front.length, optionBuf, true, front ++ rest, r⟩

/-- The blanks that `text` begins with. -/
def Header.blanks (h : Header) : Bytes := h.text.takeWhile isBlank

lemma Header.line_split (h : Header) : h.line = h.name ++ 58 :: (h.blanks ++ h.value) := by
  rw [Header.line, Header.blanks, Header.value, List.takeWhile_append_dropWhile]

lemma Header.line_length (h : Header) :
    h.line.length = h.name.length + 1 + h.blanks.length + h.value.length := by
  rw [h.line_split]
  simp only [List.length_append, List.length_cons]
  omega

lemma Header.value_trimmed (h : Header) : isBlank (h.value.headD 0) = false := by
  cases hvalue : h.value with
  | nil => rfl
  | cons c value =>
    have hfirst := List.head?_dropWhile_not isBlank h.text
    rw [← Header.value, hvalue] at hfirst
    simpa using hfirst

lemma Header.Plain.line_nulFree {h : Header} (plain : h.Plain) : ∀ c ∈ h.line, c ≠ 0 := by
  intro c hc hzero
  subst hzero
  rcases List.mem_append.mp hc with hc | hc
  · exact plain.name 0 hc (by decide)
  · rcases List.mem_cons.mp hc with hc | hc
    · cases hc
    · exact plain.text 0 hc (by decide)

lemma Header.value_mem (h : Header) : ∀ c ∈ h.value, c ∈ h.text := fun _ hc =>
  (List.dropWhile_suffix isBlank).subset hc

lemma Header.Plain.value_nulFree {h : Header} (plain : h.Plain) : ∀ c ∈ h.value, c ≠ 0 :=
  fun c hc hzero => plain.text c (h.value_mem c hc) (by rw [hzero]; decide)

section Line
variable {h : Header}

/-- The scan from the beginning of a line to its CR. -/
lemma options_line (plain : h.Plain) (front t : Bytes) (optionBuf : Nat) (r : Request) :
    scanOptions (h.line ++ (crlf ++ t)) (optionsAt front (h.line ++ (crlf ++ t)) optionBuf r) =
      scanOptions t (OptionScan.endLine ⟨front.length + h.line.length, front.length,
        front.length + h.name.length + 1 + h.blanks.length, false,
        front ++ (h.line ++ (crlf ++ t)), r⟩) := by
  have hname : (58 : UInt8) ∉ h.name := fun hc => plain.name 58 hc (by decide)
  have hcr : (13 : UInt8) ∉ h.value := fun hc => plain.text 13 (h.value_mem 13 hc) (by decide)
  have hblanks : ∀ c ∈ h.blanks, isBlank c = true := fun c hc => List.mem_takeWhile_imp hc
  have hsplit : h.line ++ (crlf ++ t) =
      h.name ++ 58 :: (h.blanks ++ (h.value ++ (crlf ++ t))) := by
    rw [h.line_split]
    simp only [List.append_assoc, List.cons_append]
  rw [optionsAt]
  generalize front ++ (h.line ++ (crlf ++ t)) = content
  rw [hsplit, options_name rfl hname, options_blanks rfl rfl hblanks,
    options_value rfl (Nat.le_refl _) (fun _ => h.value_trimmed) hcr, options_end rfl]
  dsimp only
  rw [h.line_length]
  congr 3
  omega

/-- CR and LF make way for the ends of two C strings. -/
lemma line_cut (front t : Bytes) :
    ((front ++ (h.line ++ (crlf ++ t))).set (front.length + h.line.length) 0).set
      (front.length + h.line.length + 1) 0 = front ++ h.line ++ [0, 0] ++ t := by
  have hfirst : front ++ (h.line ++ (crlf ++ t)) = (front ++ h.line) ++ 13 :: 10 :: t := by
    rw [List.append_assoc]
    rfl
  have hsecond : (front ++ h.line) ++ 0 :: 10 :: t = (front ++ h.line ++ [0]) ++ 10 :: t := by
    simp only [List.append_assoc, List.cons_append, List.nil_append]
  rw [hfirst, set_behind _ _ 13 0 (List.length_append.symm), hsecond, set_behind _ _ 10 0 (by
    rw [List.length_append, List.length_append]
    rfl)]
  simp only [List.append_assoc, List.cons_append, List.nil_append]

lemma cut_key (plain : h.Plain) (front t : Bytes) :
    cString ((front ++ h.line ++ [0, 0] ++ t).drop front.length) = h.line := by
  rw [List.append_assoc, List.append_assoc, List.drop_left]
  exact cString_before plain.line_nulFree _

lemma cut_value (plain : h.Plain) (front t : Bytes) : cString ((front ++ h.line ++ [0, 0] ++ t).drop
    (front.length + h.name.length + 1 + h.blanks.length)) = h.value := by
  have hfront : front ++ h.line ++ [0, 0] ++ t =
      (front ++ h.name ++ 58 :: h.blanks) ++ (h.value ++ 0 :: 0 :: t) := by
    rw [h.line_split]
    simp only [List.append_assoc, List.cons_append, List.nil_append]
  have hlength : front.length + h.name.length + 1 + h.blanks.length =
      (front ++ h.name ++ 58 :: h.blanks).length := by
    simp only [List.length_append, List.length_cons]
    omega
  rw [hfront, hlength, List.drop_left]
  exact cString_before plain.value_nulFree _

/-- One line: the scan goes on behind it. -/
lemma options_header (plain : h.Plain) (front t : Bytes) (optionBuf : Nat) (r : Request) :
    ∃ position,
    scanOptions (h.line ++ (crlf ++ t)) (optionsAt front (h.line ++ (crlf ++ t)) optionBuf r) =
      scanOptions t (optionsAt (front ++ h.line ++ [0, 0]) t position (applyHeader r h)) := by
  refine ⟨front.length + h.name.length + 1 + h.blanks.length, ?_⟩
  have hbehind : front.length + h.line.length + 2 = (front ++ h.line ++ [0, 0]).length := by
    simp only [List.length_append, List.length_cons, List.length_nil]
  have hlong : front.length + h.line.length - (front.length + h.name.length + 1 + h.blanks.length)
      > 0 ↔ h.value ≠ [] := by
    have hlength := h.line_length
    rw [← List.length_pos_iff]
    omega
  rw [options_line plain, OptionScan.endLine]
  dsimp only
  rw [line_cut, cut_key plain, cut_value plain, optionsAt, hbehind]
  congr 2
  rw [applyHeader]
  by_cases hempty : h.value = []
  · rw [if_neg (fun h' => (hlong.mp h') hempty), if_pos hempty]
  · rw [if_pos (hlong.mpr hempty), if_neg hempty]

end Line

/-- All lines and the empty one behind them. -/
theorem options_headers {headers : List Header} (plain : ∀ h ∈ headers, h.Plain) (front : Bytes)
    (optionBuf : Nat) (r : Request) :
    ∃ s, scanOptions (joinLines (headers.map Header.line) ++ crlf)
        (optionsAt front (joinLines (headers.map Header.line) ++ crlf) optionBuf r) = (true, s) ∧
      s.request = headers.foldl applyHeader r := by
  induction headers generalizing front optionBuf r with
  | nil => exact ⟨_, rfl, rfl⟩
  | cons h headers ih =>
    obtain ⟨position, hstep⟩ := options_header (plain h List.mem_cons_self) front
      (joinLines (headers.map Header.line) ++ crlf) optionBuf r
    obtain ⟨s, hrest, hrequest⟩ := ih (fun h' hh => plain h' (List.mem_cons_of_mem _ hh))
      (front ++ h.line ++ [0, 0]) position (applyHeader r h)
    refine ⟨s, ?_, hrequest⟩
    rw [List.map_cons, joinLines_cons, hstep, hrest]

/-- The name begins with these bytes, in either case. -/
def Header.Begins (h : Header) (key : Bytes) : Prop := key <+: lower h.name

instance (h : Header) (key : Bytes) : Decidable (h.Begins key) :=
  inferInstanceAs (Decidable (_ <+: _))

/-- Bytes in front of a separator. -/
lemma prefix_before {key a b : Bytes} {sep : UInt8} (h : sep ∉ key) :
    key <+: a ++ sep :: b ↔ key <+: a := by
  refine ⟨fun hstarts => ?_, fun hstarts => hstarts.trans (List.prefix_append a _)⟩
  rcases List.prefix_or_prefix_of_prefix hstarts (List.prefix_append a (sep :: b)) with hle | hle
  · exact hle
  · obtain ⟨behind, rfl⟩ := hle
    rw [List.prefix_append_right_inj] at hstarts
    cases behind with
    | nil => rw [List.append_nil]
    | cons c behind =>
      have hsep := (List.cons_prefix_cons.mp hstarts).1
      exact absurd (List.mem_append_right a (hsep ▸ List.mem_cons_self)) h

lemma strncasecmp_starts {s key : Bytes} {n : Nat} (le : n ≤ key.length) :
    strncasecmpEq s key n = true ↔ lower (key.take n) <+: lower s := by
  have hlength : (lower (key.take n)).length = n := by
    rw [lower, List.length_map, List.length_take, Nat.min_eq_left le]
  rw [strncasecmpEq, beq_iff_eq]
  constructor
  · intro h
    rw [lower, ← h, List.map_take]
    exact List.take_prefix n _
  · intro h
    have htake := List.prefix_iff_eq_take.mp h
    rw [hlength, lower, lower, ← List.map_take] at htake
    exact htake.symm

/-- The comparison of a line with the name of a field sees the name only. -/
lemma line_begins (h : Header) {key : Bytes} {n : Nat} (le : n ≤ key.length)
    (noColon : (58 : UInt8) ∉ lower (key.take n)) :
    strncasecmpEq h.line key n = true ↔ h.Begins (lower (key.take n)) := by
  have hline : lower h.line = lower h.name ++ 58 :: lower h.text := by
    rw [Header.line, lower, List.map_append, List.map_cons]
    rfl
  rw [strncasecmp_starts le, hline, prefix_before noColon]
  rfl

def connectionKey : Bytes := asciiBytes "connecti"
def hostKey : Bytes := asciiBytes "host"
def rangeKey : Bytes := asciiBytes "range"

/-- The option that a value begins with. -/
def optionOf (value : Bytes) : Option HttpConnectionOption :=
  if asciiBytes "keep-alive" <+: lower value then some .keepAlive
  else if asciiBytes "close" <+: lower value then some .close
  else none

lemma applyHeader_cases (r : Request) (h : Header) :
    applyHeader r h =
      if h.value = [] then r
      else if h.Begins connectionKey then
        match optionOf h.value with
        | some option => { r with keepAlive := option }
        | none => r
      else if h.Begins hostKey then { r with hostname := bufferCopyString r.hostname h.value }
      else if h.Begins rangeKey then { r with httpRange := bufferCopyString r.httpRange h.value }
      else r := by
  have hconnection := @line_begins h (asciiBytes "Connection") 8 (by decide) (by decide)
  have hhost := @line_begins h (asciiBytes "Host") 4 (by decide) (by decide)
  have hrange := @line_begins h (asciiBytes "Range") 5 (by decide) (by decide)
  have hkeep := @strncasecmp_starts h.value (asciiBytes "keep-alive") 10 (by decide)
  have hclose := @strncasecmp_starts h.value (asciiBytes "close") 5 (by decide)
  have hkeys : lower ((asciiBytes "Connection").take 8) = connectionKey ∧
      lower ((asciiBytes "Host").take 4) = hostKey ∧
      lower ((asciiBytes "Range").take 5) = rangeKey ∧
      lower ((asciiBytes "keep-alive").take 10) = asciiBytes "keep-alive" ∧
      lower ((asciiBytes "close").take 5) = asciiBytes "close" := by decide
  obtain ⟨h1, h2, h3, h4, h5⟩ := hkeys
  rw [h1] at hconnection
  rw [h2] at hhost
  rw [h3] at hrange
  rw [h4] at hkeep
  rw [h5] at hclose
  rw [applyHeader, applyOption, optionOf]
  simp only [hconnection, hhost, hrange, hkeep, hclose]
  split
  · rfl
  · split
    · split
      · rfl
      · split <;> rfl
    · rfl

section Last
variable {α : Type*} {read said : Header → Option α}

/-- What the last of the lines says that says anything. -/
def lastOf (read : Header → Option α) (headers : List Header) : Option α :=
  (headers.filterMap read).getLast?

lemma lastOf_concat (headers : List Header) (h : Header) :
    lastOf read (headers ++ [h]) = (read h).or (lastOf read headers) := by
  rw [lastOf, lastOf, List.filterMap_append]
  cases hread : read h with
  | none =>
    rw [List.filterMap_cons_none hread]
    simp
  | some v =>
    rw [List.filterMap_cons_some hread]
    simp

lemma lastOf_silent {headers : List Header} (more : List Header)
    (silent : ∀ h ∈ more, read h = none) : lastOf read (headers ++ more) = lastOf read headers := by
  rw [lastOf, lastOf, List.filterMap_append, List.filterMap_eq_nil_iff.mpr silent, List.append_nil]

lemma lastOf_none {headers : List Header} :
    lastOf read headers = none ↔ ∀ h ∈ headers, read h = none := by
  rw [lastOf, List.getLast?_eq_none_iff, List.filterMap_eq_nil_iff]

/-- The line that decides stands in front of lines that say nothing. -/
lemma lastOf_some {headers : List Header} {v : α} (h : lastOf read headers = some v) :
    ∃ before line after, headers = before ++ line :: after ∧ read line = some v ∧
      ∀ g ∈ after, read g = none := by
  induction headers using List.reverseRecOn with
  | nil => cases h
  | append_singleton headers last ih =>
    rw [lastOf_concat] at h
    cases hread : read last with
    | some w =>
      rw [hread] at h
      cases h
      exact ⟨headers, last, [], rfl, hread, fun g hg => by cases hg⟩
    | none =>
      rw [hread, Option.none_or] at h
      obtain ⟨before, line, after, rfl, hline, hafter⟩ := ih h
      refine ⟨before, line, after ++ [last], ?_, hline, ?_⟩
      · rw [List.append_assoc]
        rfl
      · intro g hg
        rcases List.mem_append.mp hg with hg | hg
        · exact hafter g hg
        · rw [List.mem_singleton.mp hg]
          exact hread

/-- The last line that is read says what the last line says that counts. -/
def Undisturbed (read said : Header → Option α) (headers : List Header) : Prop :=
  ∀ before line after v, headers = before ++ line :: after → read line = some v →
    (∀ g ∈ after, read g = none) → lastOf said (before ++ [line]) = some v

theorem lastOf_eq_iff {headers : List Header}
    (sound : ∀ h ∈ headers, ∀ v, said h = some v → read h = some v) :
    lastOf read headers = lastOf said headers ↔ Undisturbed read said headers := by
  have hsilent : ∀ h ∈ headers, read h = none → said h = none := by
    intro h hh hnone
    cases hsaid : said h with
    | none => rfl
    | some v =>
      rw [sound h hh v hsaid] at hnone
      cases hnone
  have hdecides : ∀ before line after, headers = before ++ line :: after →
      (∀ g ∈ after, read g = none) →
      lastOf said headers = lastOf said (before ++ [line]) := by
    intro before line after hsplit hafter
    have hjoin : headers = (before ++ [line]) ++ after := by
      rw [hsplit, List.append_assoc]
      rfl
    rw [hjoin]
    refine lastOf_silent after fun g hg => hsilent g ?_ (hafter g hg)
    rw [hjoin]
    exact List.mem_append_right _ hg
  constructor
  · intro hsame before line after v hsplit hline hafter
    rw [← hdecides before line after hsplit hafter, ← hsame]
    have hjoin : headers = (before ++ [line]) ++ after := by
      rw [hsplit, List.append_assoc]
      rfl
    rw [hjoin, lastOf_silent after hafter, lastOf_concat, hline]
    rfl
  · intro hundisturbed
    cases hread : lastOf read headers with
    | none =>
      rw [lastOf_none] at hread
      exact (lastOf_none.mpr fun h hh => hsilent h hh (hread h hh)).symm
    | some v =>
      obtain ⟨before, line, after, hsplit, hline, hafter⟩ := lastOf_some hread
      rw [hdecides before line after hsplit hafter]
      exact (hundisturbed before line after v hsplit hline hafter).symm

end Last

/-- What the loop reads from a line. -/
def readConnection (h : Header) : Option HttpConnectionOption :=
  if h.Begins connectionKey then optionOf h.value else none

def readText (key : Bytes) (h : Header) : Option Bytes :=
  if h.Begins key ∧ h.value ≠ [] then some h.value else none

/-- What a line says by its own name. -/
def saidConnection (h : Header) : Option HttpConnectionOption :=
  if lower h.name = asciiBytes "connection" then
    if lower h.value = asciiBytes "keep-alive" then some .keepAlive
    else if lower h.value = asciiBytes "close" then some .close
    else none
  else none

def saidText (name : Bytes) (h : Header) : Option Bytes :=
  if lower h.name = name ∧ h.value ≠ [] then some h.value else none

/-- The contents of a buffer that was empty before it was copied into. -/
def copied : Option Bytes → Bytes
  | none => []
  | some value => value ++ [0]

/-- A request that says nothing yet. -/
structure Fresh (r : Request) : Prop where
  hostname : r.hostname.data = []
  httpRange : r.httpRange.data = []
  keepAlive : r.keepAlive = .unset

/-- What the lines leave in a fresh request. -/
structure Reads (headers : List Header) (start r : Request) : Prop where
  hostname : r.hostname.data = copied (lastOf (readText hostKey) headers)
  httpRange : r.httpRange.data = copied (lastOf (readText rangeKey) headers)
  keepAlive : r.keepAlive = (lastOf readConnection headers).getD .unset
  others : r = { start with
    hostname := r.hostname, httpRange := r.httpRange, keepAlive := r.keepAlive }

lemma begins_head {h : Header} {c : UInt8} {key : Bytes} (begins : h.Begins (c :: key)) :
    (lower h.name).head? = some c := by
  obtain ⟨rest, hname⟩ := begins
  rw [← hname]
  rfl

/-- The three keys begin with different bytes. -/
lemma one_key (h : Header) : (h.Begins connectionKey → ¬ h.Begins hostKey ∧ ¬ h.Begins rangeKey) ∧
    (h.Begins hostKey → ¬ h.Begins connectionKey ∧ ¬ h.Begins rangeKey) ∧
    (h.Begins rangeKey → ¬ h.Begins connectionKey ∧ ¬ h.Begins hostKey) := by
  have hconnection : h.Begins connectionKey → (lower h.name).head? = some 99 := begins_head
  have hhost : h.Begins hostKey → (lower h.name).head? = some 104 := begins_head
  have hrange : h.Begins rangeKey → (lower h.name).head? = some 114 := begins_head
  have differ : ∀ {a b : UInt8}, a ≠ b → (lower h.name).head? = some a →
      (lower h.name).head? = some b → False :=
    fun hne ha hb => hne (Option.some.inj (ha.symm.trans hb))
  refine ⟨fun h' => ⟨fun h'' => ?_, fun h'' => ?_⟩, fun h' => ⟨fun h'' => ?_, fun h'' => ?_⟩,
    fun h' => ⟨fun h'' => ?_, fun h'' => ?_⟩⟩
  · exact differ (by decide) (hconnection h') (hhost h'')
  · exact differ (by decide) (hconnection h') (hrange h'')
  · exact differ (by decide) (hhost h') (hconnection h'')
  · exact differ (by decide) (hhost h') (hrange h'')
  · exact differ (by decide) (hrange h') (hconnection h'')
  · exact differ (by decide) (hrange h') (hhost h'')

lemma readText_none {key : Bytes} {h : Header} (other : ¬ h.Begins key) : readText key h = none :=
  if_neg fun hboth => other hboth.1

lemma readText_some {key : Bytes} {h : Header} (begins : h.Begins key) (some_value : h.value ≠ []) :
    readText key h = some h.value := if_pos ⟨begins, some_value⟩

/-- One more line. -/
lemma Reads.step {start r : Request} {headers : List Header} (reads : Reads headers start r)
    (h : Header) : Reads (headers ++ [h]) start (applyHeader r h) := by
  obtain ⟨hconnectionOnly, hhostOnly, hrangeOnly⟩ := one_key h
  have unread : readConnection h = none → readText hostKey h = none → readText rangeKey h = none →
      Reads (headers ++ [h]) start r := by
    intro h1 h2 h3
    constructor
    · rw [lastOf_concat, h2]
      exact reads.hostname
    · rw [lastOf_concat, h3]
      exact reads.httpRange
    · rw [lastOf_concat, h1]
      exact reads.keepAlive
    · exact reads.others
  rw [applyHeader_cases]
  by_cases hempty : h.value = []
  · rw [if_pos hempty]
    refine unread ?_ (if_neg fun h => h.2 hempty) (if_neg fun h => h.2 hempty)
    rw [readConnection, hempty]
    split
    · decide
    · rfl
  · rw [if_neg hempty]
    by_cases hconnection : h.Begins connectionKey
    · have hhost := readText_none (hconnectionOnly hconnection).1
      have hrange := readText_none (hconnectionOnly hconnection).2
      have hread : readConnection h = optionOf h.value := if_pos hconnection
      rw [if_pos hconnection]
      cases hoption : optionOf h.value with
      | none => exact unread (hread.trans hoption) hhost hrange
      | some option =>
        constructor
        · rw [lastOf_concat, hhost]
          exact reads.hostname
        · rw [lastOf_concat, hrange]
          exact reads.httpRange
        · rw [lastOf_concat, hread, hoption]
          rfl
        · rw [reads.others]
    · have hread : readConnection h = none := if_neg hconnection
      rw [if_neg hconnection]
      by_cases hhost : h.Begins hostKey
      · have hrange := readText_none (hhostOnly hhost).2
        rw [if_pos hhost]
        constructor
        · rw [lastOf_concat, readText_some hhost hempty]
          rfl
        · rw [lastOf_concat, hrange]
          exact reads.httpRange
        · rw [lastOf_concat, hread]
          exact reads.keepAlive
        · rw [reads.others]
      · rw [if_neg hhost]
        by_cases hrange : h.Begins rangeKey
        · rw [if_pos hrange]
          constructor
          · rw [lastOf_concat, readText_none hhost]
            exact reads.hostname
          · rw [lastOf_concat, readText_some hrange hempty]
            rfl
          · rw [lastOf_concat, hread]
            exact reads.keepAlive
          · rw [reads.others]
        · rw [if_neg hrange]
          exact unread hread (readText_none hhost) (readText_none hrange)

theorem foldl_reads {r : Request} (fresh : Fresh r) (headers : List Header) :
    Reads headers r (headers.foldl applyHeader r) := by
  induction headers using List.reverseRecOn with
  | nil => exact ⟨fresh.hostname, fresh.httpRange, fresh.keepAlive, rfl⟩
  | append_singleton headers h ih =>
    rw [List.foldl_append, List.foldl_cons, List.foldl_nil]
    exact ih.step h

/-- The result, the status and `keep_alive` that follow from the fields. -/
def answer (version : HttpVersion) (status : Nat) (host : Option Bytes)
    (option : HttpConnectionOption) : Int × Nat × Bool :=
  if version = .http11 then
    if host = none then (-1, 400, false) else (0, status, option != .close)
  else (0, status, option == .keepAlive)

lemma finish_answer {conn : Connection} {host : Option Bytes}
    (hostname : conn.connectionRequest.hostname.data = copied host)
    (short : ∀ v, host = some v → v.length + 1 < 4294967296) :
    ∃ code after, finishRequest conn = (code, after) ∧
      (code, after.httpStatus, after.keepAlive) =
        answer conn.connectionRequest.httpVersion conn.httpStatus host
          conn.connectionRequest.keepAlive ∧
      after.connectionRequest = conn.connectionRequest := by
  have hempty : bufferIsEmpty conn.connectionRequest.hostname = true ↔ host = none := by
    rw [bufferIsEmpty, Buffer.usedBytes, hostname, beq_iff_eq]
    cases host with
    | none => exact iff_of_true rfl rfl
    | some v =>
      refine iff_of_false (fun h => ?_) (Option.some_ne_none v)
      rw [copied, List.length_append, List.length_singleton, u32_of_lt (short v rfl)] at h
      exact Nat.succ_ne_zero _ h
  rw [finishRequest, answer]
  by_cases hversion : conn.connectionRequest.httpVersion = .http11
  · rw [if_pos hversion, if_pos hversion]
    dsimp only
    by_cases hhost : host = none
    · rw [if_pos (hempty.mpr hhost), if_pos hhost]
      exact ⟨_, _, rfl, rfl, rfl⟩
    · rw [if_neg (fun h => hhost (hempty.mp h)), if_neg hhost]
      exact ⟨_, _, rfl, rfl, rfl⟩
  · rw [if_neg hversion, if_neg hversion]
    exact ⟨_, _, rfl, rfl, rfl⟩

/-- The lines of a head, each with its CRLF, and the empty line. -/
def headerBlock (headers : List Header) : Bytes := joinLines (headers.map Header.line) ++ crlf

lemma value_short {headers : List Header} {h : Header} (mem : h ∈ headers) :
    h.value.length ≤ (headerBlock headers).length := by
  have hvalue : h.value.length ≤ h.text.length := (List.dropWhile_suffix isBlank).length_le
  have hline : h.text.length ≤ (h.line ++ crlf).length := by
    simp only [Header.line, List.length_append, List.length_cons]
    omega
  have hjoined : (h.line ++ crlf).length ≤ (joinLines (headers.map Header.line)).length := by
    refine (List.sublist_flatten_of_mem ?_).length_le
    exact List.mem_map_of_mem (List.mem_map_of_mem mem)
  rw [headerBlock, List.length_append]
  omega

/-- The option loop of a fresh request. -/
lemma optionLoop_answer {conn : Connection} {headers : List Header} {front : Bytes}
    (plain : ∀ h ∈ headers, h.Plain) (fresh : Fresh conn.connectionRequest)
    (short : (headerBlock headers).length + 1 < 4294967296) :
    ∃ code after, optionLoop conn (front ++ headerBlock headers) front.length = (code, after) ∧
      after.connectionRequest.hostname.data = copied (lastOf (readText hostKey) headers) ∧
      after.connectionRequest.httpRange.data = copied (lastOf (readText rangeKey) headers) ∧
      after.connectionRequest.keepAlive = (lastOf readConnection headers).getD .unset ∧
      (code, after.httpStatus, after.keepAlive) = answer conn.connectionRequest.httpVersion
        conn.httpStatus (lastOf (readText hostKey) headers)
        ((lastOf readConnection headers).getD .unset) := by
  obtain ⟨s, hscan, hrequest⟩ := options_headers plain front 0 conn.connectionRequest
  have hreads := foldl_reads fresh headers
  rw [← hrequest] at hreads
  have hversion : s.request.httpVersion = conn.connectionRequest.httpVersion := by
    rw [hreads.others]
  have hstart : scanOptions ((front ++ headerBlock headers).drop front.length)
      ⟨front.length, front.length, 0, true, front ++ headerBlock headers, conn.connectionRequest⟩ =
      (true, s) := by
    rw [List.drop_left]
    exact hscan
  rw [optionLoop, hstart]
  dsimp only
  obtain ⟨code, after, hfinish, hanswer, hkept⟩ := @finish_answer
    (Connection.withContent { conn with connectionRequest := s.request } s.content)
    (lastOf (readText hostKey) headers) hreads.hostname (by
      intro v hv
      obtain ⟨before, line, later, hsplit, hline, _⟩ := lastOf_some hv
      have hmem : line ∈ headers := by
        rw [hsplit]
        exact List.mem_append_right _ List.mem_cons_self
      rw [readText] at hline
      split at hline
      · cases hline
        have hvalue := value_short hmem
        omega
      · cases hline)
  refine ⟨code, after, hfinish, ?_, ?_, ?_, ?_⟩
  · rw [hkept]
    exact hreads.hostname
  · rw [hkept]
    exact hreads.httpRange
  · rw [hkept]
    exact hreads.keepAlive
  · rw [hanswer, ← hreads.keepAlive, ← hversion]
    rfl

/-- The fields say what the last line of their own name says, and the answer
follows from them. -/
structure Interpreted (headers : List Header) (version : HttpVersion) (status : Nat) (code : Int)
    (after : Connection) : Prop where
  hostname : after.connectionRequest.hostname.data =
    copied (lastOf (saidText (asciiBytes "host")) headers)
  httpRange : after.connectionRequest.httpRange.data =
    copied (lastOf (saidText (asciiBytes "range")) headers)
  keepAlive : after.connectionRequest.keepAlive = (lastOf saidConnection headers).getD .unset
  answer : (code, after.httpStatus, after.keepAlive) =
    answer version status (lastOf (saidText (asciiBytes "host")) headers)
      ((lastOf saidConnection headers).getD .unset)

/-- The lines of these three names. -/
def named (headers : List Header) : List Header :=
  headers.filter fun h => lower h.name ∈ [asciiBytes "connection", asciiBytes "host",
    asciiBytes "range"]

lemma saidText_read {key name : Bytes} (key_name : key <+: name) (h : Header) (v : Bytes)
    (said : saidText name h = some v) : readText key h = some v := by
  rw [saidText] at said
  split at said
  · rename_i hboth
    cases said
    refine readText_some ?_ hboth.2
    rw [Header.Begins, hboth.1]
    exact key_name
  · cases said

lemma saidConnection_read (h : Header) (v : HttpConnectionOption)
    (said : saidConnection h = some v) : readConnection h = some v := by
  rw [saidConnection] at said
  split at said
  · rename_i hname
    have hbegins : h.Begins connectionKey := by
      rw [Header.Begins, hname]
      decide
    rw [readConnection, if_pos hbegins, optionOf]
    split at said
    · rename_i hvalue
      cases said
      rw [hvalue, if_pos List.prefix_rfl]
    · split at said
      · rename_i hvalue
        cases said
        rw [hvalue, if_neg (by decide), if_pos List.prefix_rfl]
      · cases said
  · cases said

/-- Lines of other names say nothing. -/
lemma lastOf_named {α : Type*} {said : Header → Option α} (headers : List Header)
    (silent : ∀ h, lower h.name ∉ [asciiBytes "connection", asciiBytes "host",
      asciiBytes "range"] → said h = none) : lastOf said (named headers) = lastOf said headers := by
  induction headers using List.reverseRecOn with
  | nil => rfl
  | append_singleton headers h ih =>
    rw [named, List.filter_append]
    change lastOf said (named headers ++ [h].filter _) = _
    by_cases hname : lower h.name ∈ [asciiBytes "connection", asciiBytes "host", asciiBytes "range"]
    · rw [List.filter_cons_of_pos (by exact decide_eq_true hname), List.filter_nil, lastOf_concat,
        lastOf_concat, ih]
    · rw [List.filter_cons_of_neg (by simpa using hname), List.filter_nil, List.append_nil,
        lastOf_concat, silent h hname, Option.none_or, ih]

/-- An option is never read as unset. -/
lemma lastOf_set {read : Header → Option HttpConnectionOption} {headers : List Header}
    (set : ∀ h, read h ≠ some .unset) : lastOf read headers ≠ some .unset := by
  intro h
  obtain ⟨_, line, _, _, hline, _⟩ := lastOf_some h
  exact set line hline

lemma getD_unset {a b : Option HttpConnectionOption} (ha : a ≠ some .unset) (hb : b ≠ some .unset)
    (same : a.getD .unset = b.getD .unset) : a = b := by
  cases a with
  | none =>
    cases b with
    | none => rfl
    | some v =>
      rw [Option.getD_none, Option.getD_some] at same
      exact absurd (congrArg some same.symm) hb
  | some v =>
    cases b with
    | none =>
      rw [Option.getD_none, Option.getD_some] at same
      exact absurd (congrArg some same) ha
    | some w => exact congrArg some same

lemma copied_inj {a b : Option Bytes} (same : copied a = copied b) : a = b := by
  cases a with
  | none =>
    cases b with
    | none => rfl
    | some v => simp [copied] at same
  | some v =>
    cases b with
    | none => simp [copied] at same
    | some w => exact congrArg some (List.append_cancel_right same)

lemma readConnection_set (h : Header) : readConnection h ≠ some .unset := by
  rw [readConnection]
  split
  · rw [optionOf]
    split
    · exact fun h => by cases h
    · split <;> exact fun h => by cases h
  · exact fun h => by cases h

lemma saidConnection_set (h : Header) : saidConnection h ≠ some .unset :=
  fun said => readConnection_set h (saidConnection_read h _ said)

/-- The last line of a field that the loop reads repeats what the last line of
the field's own name says. -/
structure FieldsUndisturbed (headers : List Header) : Prop where
  connection : Undisturbed readConnection saidConnection headers
  host : Undisturbed (readText hostKey) (saidText (asciiBytes "host")) headers
  range : Undisturbed (readText rangeKey) (saidText (asciiBytes "range")) headers

/-- Only the lines of the three names count, each the last one that says
something, if and only if no other line disturbs them. -/
theorem header_fields_iff {config : ServerConfig} {conn : Connection}
    {line method url M N : Bytes} {minor : Nat} {headers : List Header}
    (grammar : Grammar line method url M N minor) (whole : ¬ crlf <:+: line)
    (nulFree : ∀ c ∈ line, c ≠ 0) (plain : ∀ h ∈ headers, h.Plain)
    (terminated : conn.connectionRequest.requestContent.Terminated)
    (content : conn.connectionRequest.requestContent.str = line ++ (crlf ++ headerBlock headers))
    (fresh : Fresh conn.connectionRequest) :
    ∃ code after, httpReuqestParse config conn = .ok (code, after) ∧
      (Interpreted (named headers) (versionOf config.supportHttp11 minor) conn.httpStatus code
        after ↔ FieldsUndisturbed headers) := by
  have hshort := line_short terminated content
  have hfirst : line.headD 0 ≠ 32 := by
    rw [grammar.words.split]
    rcases grammar.method with rfl | rfl
    · exact show (71 : UInt8) ≠ 32 by decide
    · exact show (80 : UInt8) ≠ 32 by decide
  obtain ⟨b, _, hreached⟩ := grammar.reaches fun reached => @reaches_iff config conn line
    (headerBlock headers) content whole nulFree hfirst (by omega) reached
  obtain ⟨front, hfront, hlength⟩ := cutHead_front (headerBlock headers) grammar.words
  generalize asciiBytes "HTTP/" ++ (M ++ 46 :: N) = proto at hreached hfront
  obtain ⟨code, after, hloop, hhost, hrange, hkeep, hanswer⟩ := @optionLoop_answer
    (withLine conn (cutHead method url proto (headerBlock headers)) b url
      (versionOf config.supportHttp11 minor)) headers front plain
    ⟨fresh.hostname, fresh.httpRange, fresh.keepAlive⟩ (by omega)
  refine ⟨code, after, ?_, ?_⟩
  · rw [parse_eq, hreached, ← hloop]
    rw [hlength]
    conv_rhs => rw [← hfront]
    rfl
  have hnamedHost := @lastOf_named _ (saidText (asciiBytes "host")) headers fun h hname =>
    if_neg fun hboth => hname (by rw [hboth.1]; decide)
  have hnamedRange := @lastOf_named _ (saidText (asciiBytes "range")) headers fun h hname =>
    if_neg fun hboth => hname (by rw [hboth.1]; decide)
  have hnamedConnection := @lastOf_named _ saidConnection headers fun h hname =>
    if_neg fun hsame => hname (by rw [hsame]; decide)
  have hostIff := @lastOf_eq_iff _ (readText hostKey) (saidText (asciiBytes "host")) headers
    fun h _ v => saidText_read List.prefix_rfl h v
  have rangeIff := @lastOf_eq_iff _ (readText rangeKey) (saidText (asciiBytes "range")) headers
    fun h _ v => saidText_read List.prefix_rfl h v
  have connectionIff := @lastOf_eq_iff _ readConnection saidConnection headers
    fun h _ v => saidConnection_read h v
  constructor
  · intro h
    refine ⟨connectionIff.mp ?_, hostIff.mp ?_, rangeIff.mp ?_⟩
    · apply getD_unset (lastOf_set readConnection_set) (lastOf_set saidConnection_set)
      rw [← hkeep, ← hnamedConnection, h.keepAlive]
    · apply copied_inj
      rw [← hhost, ← hnamedHost, h.hostname]
    · apply copied_inj
      rw [← hrange, ← hnamedRange, h.httpRange]
  · intro h
    have hconnection := connectionIff.mpr h.connection
    have hhost' := hostIff.mpr h.host
    have hrange' := rangeIff.mpr h.range
    rw [hconnection] at hkeep hanswer
    rw [hhost'] at hhost hanswer
    rw [hrange'] at hrange
    constructor
    · rw [hhost, hnamedHost]
    · rw [hrange, hnamedRange]
    · rw [hkeep, hnamedConnection]
    · rw [hanswer, hnamedHost, hnamedConnection]
      rfl

def plainHeaders : List Header :=
  [⟨asciiBytes "Hostess", asciiBytes " y"⟩, ⟨asciiBytes "Accept", asciiBytes " close"⟩,
   ⟨asciiBytes "hOst", asciiBytes "\t x"⟩, ⟨asciiBytes "Connection", asciiBytes " Close"⟩]

/-- The head with these lines behind "GET / HTTP/1.1". -/
def headWith (headers : List Header) : Bytes :=
  asciiBytes "GET / HTTP/1.1" ++ (crlf ++ headerBlock headers)

lemma plainHeaders_undisturbed : FieldsUndisturbed plainHeaders where
  connection := (lastOf_eq_iff fun h _ => saidConnection_read h).mp (by decide +kernel)
  host := (lastOf_eq_iff fun h _ => saidText_read List.prefix_rfl h).mp (by decide +kernel)
  range := (lastOf_eq_iff fun h _ => saidText_read List.prefix_rfl h).mp (by decide +kernel)

/-- The host is "x", the connection is to be closed, and no range is asked for. -/
theorem header_fields_plain : ∃ after,
    httpReuqestParse setConfigDefault (holdingHead (headWith plainHeaders)) = .ok (0, after) ∧
    after.connectionRequest.hostname.data = asciiBytes "x" ++ [0] ∧
    after.connectionRequest.httpRange.data = [] ∧
    after.connectionRequest.keepAlive = .close ∧ after.keepAlive = false := by
  obtain ⟨code, after, hparse, hiff⟩ := @header_fields_iff setConfigDefault
    (holdingHead (headWith plainHeaders))
    (asciiBytes "GET / HTTP/1.1") (asciiBytes "GET") (asciiBytes "/") (asciiBytes "1")
    (asciiBytes "1") 1 plainHeaders
    ⟨⟨by decide, by decide, by decide, by decide⟩, by decide, by decide,
      ⟨by decide, by decide +kernel, by decide⟩, ⟨by decide, by decide +kernel, by decide⟩,
      Or.inr rfl⟩ (by decide) (by decide +kernel) (fun h hh => by
      have hplain : ∀ h ∈ plainHeaders, h.name ≠ [] ∧
          (∀ c ∈ h.name, c ∉ [58, 32, 9, 13, 10, 0]) ∧ ∀ c ∈ h.text, c ∉ [13, 10, 0] := by
        decide +kernel
      obtain ⟨hsome, hname, htext⟩ := hplain h hh
      exact ⟨hsome, hname, htext⟩)
    ⟨by decide +kernel, by decide +kernel⟩ (by decide +kernel) ⟨rfl, rfl, rfl⟩
  obtain ⟨hhost, hrange, hkeep, hanswer⟩ := hiff.mpr plainHeaders_undisturbed
  have hsaid : lastOf (saidText (asciiBytes "host")) (named plainHeaders) = some (asciiBytes "x") ∧
      lastOf (saidText (asciiBytes "range")) (named plainHeaders) = none ∧
      lastOf saidConnection (named plainHeaders) = some .close := by decide +kernel
  rw [hsaid.1] at hhost hanswer
  rw [hsaid.2.1] at hrange
  rw [hsaid.2.2] at hkeep hanswer
  obtain ⟨rfl, hclose⟩ := Prod.mk.inj hanswer
  exact ⟨after, hparse, hhost, hrange, hkeep, (Prod.mk.inj hclose).2⟩

/-- A line of another name that begins with Host stands in for the missing one. -/
theorem header_fields_hostess : ∃ after,
    httpReuqestParse setConfigDefault
      (holdingHead (headWith [⟨asciiBytes "Hostess", asciiBytes " y"⟩])) = .ok (0, after) ∧
    bufferString after.connectionRequest.hostname = asciiBytes "y" ∧
    named [⟨asciiBytes "Hostess", asciiBytes " y"⟩] = [] := by
  have hparse : (httpReuqestParse setConfigDefault
      (holdingHead (headWith [⟨asciiBytes "Hostess", asciiBytes " y"⟩]))).toOption.any
        (fun result => decide (result.1 = 0 ∧
          bufferString result.2.connectionRequest.hostname = asciiBytes "y")) = true := by
    decide +kernel
  obtain ⟨⟨code, after⟩, hok, hfacts⟩ := (Option.any_eq_true _ _).mp hparse
  obtain ⟨rfl, hhost⟩ := of_decide_eq_true hfacts
  exact ⟨after, toOption_eq_some hok, hhost, by decide +kernel⟩

end HeaderFields
