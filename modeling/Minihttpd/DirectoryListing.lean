import Minihttpd.BufferAppends
import Minihttpd.Confinement

/-!
# The page of a directory

`http_handle_directory_parse` puts a page together in a growing buffer. The
lines of its entries pass through an array of 1024 bytes on their way there.
-/
namespace DirectoryListing

open ByteBuffer SystemCalls ChunkQueue ConnectionTypes HttpResponse HttpConnection Confinement
open FailingRun RequestUrl

/-- The URL with a slash at its end. -/
def withSlash (url : Bytes) : Bytes := if url.getLast? = some 47 then url else url ++ [47]

/-- The complete line of an entry. -/
def entryLine (url name date : Bytes) (s : Stat) : Bytes :=
  asciiBytes "<a href=\"" ++ (withSlash url ++ name) ++ asciiBytes "\">" ++ name ++
    asciiBytes "</a>" ++ List.replicate (64 - name.length) 32 ++
    padLeft32 date ++ (padLeft32 (formatDecimal s.size) ++ asciiBytes "\r\n")

/-- A short name is filled up to 64 bytes, the two columns have 32 each. -/
lemma entryLine_length {url name date : Bytes} {s : Stat} (short : name.length ≤ 64)
    (time_fits : date.length ≤ 32) (size_fits : (formatDecimal s.size).length ≤ 32) :
    (entryLine url name date s).length = (withSlash url).length + name.length + 145 := by
  have hconstants : (asciiBytes "<a href=\"").length = 9 ∧ (asciiBytes "\">").length = 2 ∧
      (asciiBytes "</a>").length = 4 ∧ (asciiBytes "\r\n").length = 2 := by decide
  obtain ⟨hanchor, hquote, hclose, hend⟩ := hconstants
  have hcolumn : ∀ text : Bytes, text.length ≤ 32 → (padLeft32 text).length = 32 := by
    intro text htext
    rw [padLeft32, List.length_append, List.length_replicate]
    omega
  simp only [entryLine, List.length_append, List.length_replicate, hanchor, hquote, hclose, hend,
    hcolumn date time_fits, hcolumn _ size_fits]
  omega

/-- The time of a modification as text, where there is one. -/
def dateText (ans : SysAnswers) (s : Stat) : Bytes :=
  match ans.localtime s.mtime with
  | none => []
  | some date => date.text

def listedLine (ans : SysAnswers) (url : Bytes) (entry : Dirent) : Option Bytes :=
  if entry.name = asciiBytes "." then none
  else
    match entry.stat with
    | .fail _ => none
    | .found s => some (entryLine url entry.name (dateText ans s) s)

/-- One line for each entry that is listed, in the order of `readdir`. -/
def listedLines (ans : SysAnswers) (url : Bytes) (entries : List Dirent) : List Bytes :=
  entries.filterMap (listedLine ans url)

def prologue (url : Bytes) : Bytes :=
  asciiBytes "<html>\r\n<head><title>Index of " ++ withSlash url ++
    asciiBytes "</title></head>\r\n<body bgcolor=\"white\">\r\n<h1>Index of " ++ withSlash url ++
    asciiBytes "</h1><hr><pre>\r\n"

def epilogue : Bytes := asciiBytes "</pre><hr></body>\r\n</html>\r\n"

/-- The page of a directory with these lines. -/
def page (url : Bytes) (lines : List Bytes) : Bytes := prologue url ++ lines.flatten ++ epilogue

/-- Every listed entry was modified at a time that `localtime` can express. -/
def Dated (ans : SysAnswers) (entries : List Dirent) : Prop :=
  ∀ entry ∈ entries, entry.name ≠ asciiBytes "." →
    ∀ s, entry.stat = .found s → (ans.localtime s.mtime).isSome

/-- The path of an entry can be put together: nothing is appended, or it stays
below 2^32 - 65 bytes. -/
def PathFits (path name : Bytes) : Prop :=
  path.getLast? = some 47 ∧ name = [] ∨ (withSlash path ++ name).length ≤ 4294967230

def PathsFit (path : Bytes) (entries : List Dirent) : Prop :=
  ∀ entry ∈ entries, entry.name ≠ asciiBytes "." → PathFits path entry.name

structure Holds (b : Buffer) (text : Bytes) : Prop where
  terminated : b.Terminated
  str : b.str = text

lemma Holds.data {b : Buffer} {text : Bytes} (h : Holds b text) (some_text : text ≠ []) :
    b.data = text ++ [0] := by
  rcases h.terminated.ending with hnil | hdata
  · have hstr := h.str
    rw [Buffer.str, hnil] at hstr
    exact absurd hstr.symm some_text
  · rw [hdata, h.str]

lemma Holds.cString {b : Buffer} {text : Bytes} (h : Holds b text) (plain : ∀ c ∈ text, c ≠ 0) :
    cString b.data = text := by
  by_cases hnil : text = []
  · have hstr := h.str
    rcases h.terminated.ending with hdata | hdata
    · rw [hdata, hnil]
      rfl
    · rw [hdata, hstr, hnil]
      rfl
  · rw [h.data hnil, cString_terminated plain]

lemma lastCharacter_text {b : Buffer} {text : Bytes} (h : Holds b text) (some_text : text ≠ []) :
    ∃ last, lastCharacter b = .ok last ∧ text.getLast? = some last := by
  have hlength : bufferStringLength b = text.length := by rw [h.terminated.stringLength_eq, h.str]
  have hpos : 0 < text.length := List.length_pos_iff.mpr some_text
  have hlast : text.length - 1 < text.length := by omega
  rw [lastCharacter, hlength, if_neg (by omega), h.data some_text, List.getLast?_eq_getElem?]
  refine ⟨text[text.length - 1], ?_, List.getElem?_eq_getElem hlast⟩
  rw [List.getD_eq_getElem?_getD, List.getElem?_append_left hlast, List.getElem?_eq_getElem hlast]
  rfl

lemma lastCharacter_held {b : Buffer} {text : Bytes} (h : b.Held text) (some_text : text ≠ []) :
    ∃ last, lastCharacter b = .ok last ∧ text.getLast? = some last :=
  lastCharacter_text ⟨h.stored.terminated, h.str⟩ some_text

lemma withSlash_length (url : Bytes) :
    url.length ≤ (withSlash url).length ∧ (withSlash url).length ≤ url.length + 1 := by
  rw [withSlash]
  split
  · omega
  · rw [List.length_append]
    exact ⟨Nat.le_add_right _ _, Nat.le_refl _⟩

lemma withSlash_nulFree {url : Bytes} (h : ∀ c ∈ url, c ≠ 0) : ∀ c ∈ withSlash url, c ≠ 0 := by
  rw [withSlash]
  split
  · exact h
  · intro c hc
    rcases List.mem_append.mp hc with hc | hc
    · exact h c hc
    · rw [List.mem_singleton.mp hc]
      decide

/-- A string formatted into the line at its end is cut at 1023 bytes in all. -/
lemma snprintfLine_take (text s : Bytes) :
    snprintfLine (text.take 1023) s = (text ++ s).take 1023 := by
  rw [snprintfLine, List.take_append, List.length_take]
  congr 2
  omega

/-- A string is closed with a slash. -/
lemma held_slash {b : Buffer} {text url : Bytes} {last : UInt8} (h : b.Held (text ++ url))
    (ends : url.getLast? = some last) (fits : text.length + url.length + 3 ≤ 4294967232) :
    ∃ after, closeWithSlash b last = .ok after ∧ after.Held (text ++ withSlash url) := by
  rw [closeWithSlash, withSlash, ends]
  by_cases hslash : last = 47
  · rw [if_neg (not_not_intro hslash), if_pos (congrArg some hslash)]
    exact ⟨b, rfl, h⟩
  · have hother : ¬ some last = some 47 := fun heq => hslash (Option.some.inj heq)
    rw [if_pos hslash, if_neg hother, ← List.append_assoc]
    apply h.append
    rw [List.length_append]
    exact fits

lemma held_slash_ok {b after : Buffer} {text url : Bytes} {last : UInt8}
    (h : b.Held (text ++ url)) (ends : url.getLast? = some last)
    (ok : closeWithSlash b last = .ok after) : after.Held (text ++ withSlash url) := by
  rw [closeWithSlash] at ok
  rw [withSlash, ends]
  by_cases hslash : last = 47
  · rw [if_neg (not_not_intro hslash)] at ok
    cases ok
    rw [if_pos (congrArg some hslash)]
    exact h
  · have hother : ¬ some last = some 47 := fun heq => hslash (Option.some.inj heq)
    rw [if_pos hslash] at ok
    rw [if_neg hother, ← List.append_assoc]
    exact (h.append_ok ok).1

/-- The tags around a name, and the blanks behind it. -/
lemma tags_flatten (name : Bytes) :
    ([asciiBytes "\">", name, asciiBytes "</a>"] ++
      List.replicate (64 - name.length) (asciiBytes " ")).flatten =
      asciiBytes "\">" ++ name ++ asciiBytes "</a>" ++ List.replicate (64 - name.length) 32 := by
  have hspaces : (List.replicate (64 - name.length) (asciiBytes " ")).flatten =
      List.replicate (64 - name.length) 32 := by
    generalize 64 - name.length = n
    induction n with
    | zero => rfl
    | succ n ih =>
      rw [List.replicate_succ, List.flatten_cons, ih]
      rfl
  rw [List.flatten_append, hspaces]
  simp

lemma anchor_nulFree {url name : Bytes} (plain : ∀ c ∈ url, c ≠ 0) (plain_name : ∀ c ∈ name, c ≠ 0) :
    ∀ c ∈ asciiBytes "<a href=\"" ++ (withSlash url ++ name) ++ (asciiBytes "\">" ++ name ++
      asciiBytes "</a>" ++ List.replicate (64 - name.length) 32), c ≠ 0 := by
  have htags : (∀ c ∈ asciiBytes "<a href=\"", c ≠ 0) ∧ (∀ c ∈ asciiBytes "\">", c ≠ 0) ∧
      ∀ c ∈ asciiBytes "</a>", c ≠ 0 := by decide +kernel
  intro c hc
  simp only [List.mem_append] at hc
  rcases hc with (hc | hc | hc) | ((hc | hc) | hc) | hc
  · exact htags.1 c hc
  · exact withSlash_nulFree plain c hc
  · exact plain_name c hc
  · exact htags.2.1 c hc
  · exact plain_name c hc
  · exact htags.2.2 c hc
  · rw [List.eq_of_mem_replicate hc]
    decide

/-- A line goes through the array if its entry has a date. -/
lemma directoryLine_eq (ans : SysAnswers) {requestUrl : Buffer} {url name : Bytes} (s : Stat)
    (request : Holds requestUrl url) (memory : requestUrl.isNull = false) (some_url : url ≠ [])
    (plain : ∀ c ∈ url, c ≠ 0) (plain_name : ∀ c ∈ name, c ≠ 0)
    (fits : url.length + 2 * name.length + 100 ≤ 4294967232) :
    directoryLine ans requestUrl name s = (lastModifiedTime ans s).map fun date =>
      (entryLine url name date s).take 1023 := by
  have hcopy : bufferCopyBuffer bufferInit requestUrl =
      .ok (bufferCopyStringLength bufferInit url) := by
    rw [bufferCopyBuffer, memory, request.terminated.take_stringLength, request.str]
    rfl
  have hcopied : (bufferCopyStringLength bufferInit url).Held ([] ++ url) :=
    bufferCopy_held (by omega)
  have hbounds := withSlash_length url
  have hjoined : withSlash url ++ name ≠ [] := by
    intro hnil
    have hlength := congrArg List.length (List.append_eq_nil_iff.mp hnil).1
    rw [List.length_nil] at hlength
    exact some_url (List.length_eq_zero_iff.mp (by omega))
  obtain ⟨last, hlast, hends⟩ := lastCharacter_held hcopied some_url
  obtain ⟨closed, hclosed, hslash⟩ := held_slash hcopied hends (by rw [List.length_nil]; omega)
  obtain ⟨rel, hrel, hpath⟩ := hslash.append name (by rw [List.nil_append]; omega)
  rw [List.nil_append] at hpath
  obtain ⟨anchor, hanchor, hstart⟩ := bufferInit_held.append (asciiBytes "<a href=\"") (by decide)
  have hnine : (asciiBytes "<a href=\"").length = 9 := by decide
  obtain ⟨opened, hopened, hhref⟩ := hstart.appendBuffer
    (Holds.data ⟨hpath.stored.terminated, hpath.str⟩ hjoined)
    (by rw [List.nil_append, hnine, List.length_append]; omega)
  have htags : (asciiBytes "\">").length = 2 ∧ (asciiBytes "</a>").length = 4 := by decide
  obtain ⟨html, hhtml, hwhole⟩ := hhref.appends ([asciiBytes "\">", name, asciiBytes "</a>"] ++
    List.replicate (64 - name.length) (asciiBytes " ")) (by
      rw [tags_flatten]
      simp only [List.length_append, List.length_replicate, List.length_nil, hnine, htags.1, htags.2]
      omega)
  rw [tags_flatten, List.nil_append] at hwhole
  have hstring : cString html.data = _ :=
    Holds.cString ⟨hwhole.stored.terminated, hwhole.str⟩ (anchor_nulFree plain plain_name)
  have hfirst : ∀ s : Bytes, snprintfLine [] s = s.take 1023 := fun _ => rfl
  simp only [directoryLine, hcopy, hlast, hclosed, hrel, hanchor, hopened, hhtml, ok_bind]
  cases lastModifiedTime ans s with
  | error e => rfl
  | ok date =>
    simp only [ok_bind, hstring, hfirst, snprintfLine_take, Except.map, entryLine,
      List.append_assoc]
    rfl

/-- What is put into the page for an entry: the first 1023 bytes of its line. -/
def writtenLines (lines : List Bytes) : List Bytes := lines.map (List.take 1023)

/-- Cutting the lines shortens the page, but for lines that are short enough. -/
lemma writtenLines_flatten (lines : List Bytes) :
    (writtenLines lines).flatten.length ≤ lines.flatten.length ∧
    ((writtenLines lines).flatten = lines.flatten ↔ ∀ line ∈ lines, line.length ≤ 1023) := by
  induction lines with
  | nil => exact ⟨Nat.le_refl _, iff_of_true rfl (fun line h => by cases h)⟩
  | cons line rest ih =>
    have htake : (line.take 1023).length = min 1023 line.length := List.length_take
    have hcons : (writtenLines (line :: rest)).flatten =
        line.take 1023 ++ (writtenLines rest).flatten := rfl
    rw [hcons, List.flatten_cons, List.length_append, List.length_append]
    refine ⟨by omega, ?_⟩
    constructor
    · intro h
      have hlength := congrArg List.length h
      rw [List.length_append, List.length_append] at hlength
      have hshort : line.length ≤ 1023 := by omega
      rw [List.take_of_length_le hshort] at h
      have hrest := ih.2.mp (List.append_cancel_left h)
      intro l hl
      rcases List.mem_cons.mp hl with rfl | hl
      · exact hshort
      · exact hrest l hl
    · intro h
      rw [List.take_of_length_le (h line List.mem_cons_self),
        ih.2.mpr fun l hl => h l (List.mem_cons_of_mem _ hl)]

section Page
variable {ans : SysAnswers} {requestUrl directoryPath : Buffer} {url path : Bytes}

/-- A name that `readdir` returns. -/
structure PlainName (name : Bytes) : Prop where
  short : name.length ≤ 255
  plain : ∀ c ∈ name, c ≠ 0

/-- What an entry adds to the page. -/
def shownLine (ans : SysAnswers) (url : Bytes) (entry : Dirent) : Bytes :=
  ((listedLine ans url entry).getD []).take 1023

lemma writtenLines_cons (entry : Dirent) (rest : List Dirent) :
    (writtenLines (listedLines ans url (entry :: rest))).flatten =
      shownLine ans url entry ++ (writtenLines (listedLines ans url rest)).flatten := by
  rw [shownLine, listedLines, List.filterMap_cons]
  cases listedLine ans url entry <;> rfl

lemma path_not_empty {b : Buffer} (holds : HoldsPath b path) : bufferIsEmpty b = false := by
  rw [bufferIsEmpty, holds.terminated.usedBytes_eq, holds.data, List.length_append,
    List.length_singleton]
  exact beq_eq_false_iff_ne.mpr (Nat.succ_ne_zero _)

/-- The path of an entry is put together in a copy of the directory's. -/
lemma entryPath_iff (holds : HoldsPath directoryPath path) (some_path : path ≠ [])
    (memory : directoryPath.isNull = false) (name : Bytes) :
    (∃ p, entryPath directoryPath name = .ok p) ↔ PathFits path name := by
  have hcopy : bufferCopyBuffer bufferInit directoryPath =
      .ok (bufferCopyStringLength bufferInit path) := by
    rw [bufferCopyBuffer, memory, holds.terminated.take_stringLength, holds.str]
    rfl
  have hlength : (bufferCopyStringLength bufferInit path).data.length = path.length + 1 := by
    rw [bufferCopyStringLength_data, List.length_append, List.length_singleton]
  have hshort : path.length + 1 < 4294967296 := by
    have hheld := holds.terminated.short
    rwa [holds.data, List.length_append, List.length_singleton] at hheld
  have hterminated : (bufferCopyStringLength bufferInit path).Terminated :=
    bufferCopyStringLength_terminated _ (by omega)
  have hinside : (bufferCopyStringLength bufferInit path).data.length ≤
      (bufferCopyStringLength bufferInit path).size ∨
      4294967232 < (bufferCopyStringLength bufferInit path).data.length := by
    by_cases hfits : path.length + 1 ≤ 4294967232
    · exact Or.inl (bufferCopy_held hfits).stored.inside
    · exact Or.inr (by omega)
  obtain ⟨last, hlast, hends⟩ := lastCharacter_text
    ⟨hterminated, bufferCopyStringLength_str bufferInit path⟩ some_path
  have happend := append_iff hterminated (copied_sized path) hinside
  rw [hlength] at happend
  simp only [entryPath, hcopy, hlast, ok_bind, PathFits, List.length_append]
  by_cases hslash : last = 47
  · have hclosed : path.getLast? = some 47 := hslash ▸ hends
    have hkept : withSlash path = path := if_pos hclosed
    rw [closeWithSlash, if_neg (not_not_intro hslash), ok_bind, happend, hkept]
    rw [and_iff_right hclosed]
    exact or_congr_right (by omega)
  · have hopen : ¬ path.getLast? = some 47 := fun h => hslash (Option.some.inj (hends.symm.trans h))
    have hgrown : withSlash path = path ++ [47] := if_neg hopen
    have hone : asciiBytes "/" = [47] := by decide
    rw [closeWithSlash, if_pos hslash, hone, hgrown, List.length_append, List.length_singleton]
    constructor
    · rintro ⟨p, hp⟩
      obtain ⟨closed, hfirst, hsecond⟩ := bind_eq_ok.mp hp
      have hbound := ((happend [47]).mp ⟨_, hfirst⟩).resolve_left (List.cons_ne_nil _ _)
      rw [List.length_singleton] at hbound
      have hheld := ((bufferCopy_held (show path.length + 1 ≤ 4294967232 by omega)).append_ok
        hfirst).1
      by_cases hname : name = []
      · subst hname
        exact Or.inr (by rw [List.length_nil]; omega)
      · have hwhole := (hheld.append_ok hsecond).2 (by simp) hname
        rw [List.length_append, List.length_singleton] at hwhole
        exact Or.inr (by omega)
    · intro h
      have hbound := h.resolve_left fun h => hopen h.1
      obtain ⟨closed, hfirst, hheld⟩ := (bufferCopy_held
        (show path.length + 1 ≤ 4294967232 by omega)).append [47] (by
          rw [List.length_singleton]
          omega)
      obtain ⟨p, hp, _⟩ := hheld.append name (by
        rw [List.length_append, List.length_singleton]
        omega)
      exact ⟨p, bind_eq_ok.mpr ⟨closed, hfirst, hp⟩⟩

lemma lastModifiedTime_isSome (ans : SysAnswers) (s : Stat) :
    lastModifiedTime ans s = .ok (dateText ans s) ∧ (ans.localtime s.mtime).isSome ∨
      lastModifiedTime ans s = .error .nullPointer ∧ ¬ (ans.localtime s.mtime).isSome := by
  rw [lastModifiedTime, dateText]
  cases ans.localtime s.mtime with
  | none => exact Or.inr ⟨rfl, Bool.false_ne_true⟩
  | some date => exact Or.inl ⟨rfl, rfl⟩

/-- `localtime` has a date for this entry, if it is listed. -/
def DatedEntry (ans : SysAnswers) (entry : Dirent) : Prop :=
  ∀ s, entry.stat = .found s → (ans.localtime s.mtime).isSome

/-- An entry other than "." adds its line where it has a date and the page has room. -/
lemma listEntry_iff (request : Holds requestUrl url) (memory : requestUrl.isNull = false)
    (some_url : url ≠ []) (plain : ∀ c ∈ url, c ≠ 0) (url_fits : url.length + 700 ≤ 4294967232)
    {entry : Dirent} (other : entry.name ≠ asciiBytes ".") (name : PlainName entry.name)
    {b : Buffer} {text : Bytes} (h : b.Held text) (some_text : text ≠ [])
    (fits : text.length + 2 ≤ 4294967232) :
    (∀ after, listEntry ans requestUrl entry b = .ok after →
      after.Held (text ++ shownLine ans url entry) ∧ DatedEntry ans entry ∧
        text.length + (shownLine ans url entry).length + 2 ≤ 4294967232) ∧
    (DatedEntry ans entry → text.length + (shownLine ans url entry).length + 2 ≤ 4294967232 →
      ∃ after, listEntry ans requestUrl entry b = .ok after) := by
  have hshort := name.short
  rw [listEntry, DatedEntry, shownLine, listedLine, if_neg other]
  cases hstat : entry.stat with
  | fail errno =>
    refine ⟨?_, fun _ _ => ⟨b, rfl⟩⟩
    rintro _ ⟨⟩
    refine ⟨?_, fun _ hfound => (by cases hfound), fits⟩
    rw [Option.getD_none, List.take_nil, List.append_nil]
    exact h
  | found s =>
    have hline := directoryLine_eq ans s request memory some_url plain name.plain
      (show url.length + 2 * entry.name.length + 100 ≤ 4294967232 by omega)
    have hsome : (entryLine url entry.name (dateText ans s) s).take 1023 ≠ [] := by
      rw [entryLine]
      simp only [List.append_assoc]
      exact List.cons_ne_nil _ _
    dsimp only
    rw [hline, Option.getD_some]
    rcases lastModifiedTime_isSome ans s with ⟨hdate, hdated⟩ | ⟨hnull, hundated⟩
    · simp only [hdate, Except.map, ok_bind]
      generalize (entryLine url entry.name (dateText ans s) s).take 1023 = line at hsome ⊢
      constructor
      · intro after hafter
        obtain ⟨hheld, hbound⟩ := h.append_ok hafter
        refine ⟨hheld, fun _ hsame => ?_, hbound some_text hsome⟩
        cases hsame
        exact hdated
      · intro _ hroom
        obtain ⟨after, hafter, _⟩ := h.append line hroom
        exact ⟨after, hafter⟩
    · simp only [hnull, Except.map]
      refine ⟨fun _ hafter => ?_, fun hall => absurd (hall s rfl) hundated⟩
      cases hafter

/-- The entries of a directory, in the order of `readdir`. -/
lemma listEntries_iff (request : Holds requestUrl url) (memory : requestUrl.isNull = false)
    (some_url : url ≠ []) (plain : ∀ c ∈ url, c ≠ 0) (url_fits : url.length + 700 ≤ 4294967232)
    (holds : HoldsPath directoryPath path) (some_path : path ≠ [])
    (directory : directoryPath.isNull = false) (entries : List Dirent)
    (names : ∀ entry ∈ entries, PlainName entry.name) {b : Buffer} {text : Bytes}
    (h : b.Held text) (some_text : text ≠ []) (fits : text.length + 2 ≤ 4294967232) :
    (∀ r events, listEntries ans requestUrl directoryPath entries b = .ok (r, events) →
      r.Held (text ++ (writtenLines (listedLines ans url entries)).flatten) ∧
        Dated ans entries ∧ PathsFit path entries) ∧
    (Dated ans entries → PathsFit path entries →
      text.length + (writtenLines (listedLines ans url entries)).flatten.length + 2 ≤ 4294967232 →
      ∃ r events, listEntries ans requestUrl directoryPath entries b = .ok (r, events)) := by
  induction entries generalizing b text with
  | nil =>
    refine ⟨?_, fun _ _ _ => ⟨b, [], rfl⟩⟩
    rintro _ _ ⟨⟩
    refine ⟨?_, fun _ hentry => (by cases hentry), fun _ hentry => (by cases hentry)⟩
    change b.Held (text ++ [])
    rw [List.append_nil]
    exact h
  | cons entry rest ih =>
    have hrest := fun e he => names e (List.mem_cons_of_mem _ he)
    rw [listEntries, writtenLines_cons, List.length_append]
    by_cases hdot : entry.name = asciiBytes "."
    · have hnothing : shownLine ans url entry = [] := by
        rw [shownLine, listedLine, if_pos hdot]
        rfl
      obtain ⟨hsound, hreturns⟩ := ih hrest h some_text fits
      rw [if_pos hdot, hnothing, List.nil_append, List.length_nil, Nat.zero_add]
      constructor
      · intro r events hr
        obtain ⟨hheld, hdated, hpaths⟩ := hsound r events hr
        exact ⟨hheld, List.forall_mem_cons.mpr ⟨fun hother => absurd hdot hother, hdated⟩,
          List.forall_mem_cons.mpr ⟨fun hother => absurd hdot hother, hpaths⟩⟩
      · intro hdated hpaths hroom
        exact hreturns (List.forall_mem_cons.mp hdated).2 (List.forall_mem_cons.mp hpaths).2 hroom
    · rw [if_neg hdot]
      have hpath := entryPath_iff holds some_path directory entry.name
      obtain ⟨hlisted, hlists⟩ := @listEntry_iff ans _ _ request memory some_url plain
        url_fits _ hdot (names entry List.mem_cons_self) _ _ h some_text fits
      have hmore : text ++ shownLine ans url entry ≠ [] :=
        List.append_ne_nil_of_left_ne_nil some_text _
      constructor
      · intro r events hr
        obtain ⟨p, hp, hr⟩ := bind_eq_ok.mp hr
        obtain ⟨mid, hmid, hr⟩ := bind_eq_ok.mp hr
        obtain ⟨⟨_, more⟩, hlast, heq⟩ := bind_eq_ok.mp hr
        cases heq
        obtain ⟨hheld, hdated, hroom⟩ := hlisted mid hmid
        obtain ⟨hall, hdatedRest, hpaths⟩ := (ih hrest hheld hmore
          (by rw [List.length_append]; exact hroom)).1 _ more hlast
        rw [← List.append_assoc]
        exact ⟨hall, List.forall_mem_cons.mpr ⟨fun _ => hdated, hdatedRest⟩,
          List.forall_mem_cons.mpr ⟨fun _ => hpath.mp ⟨p, hp⟩, hpaths⟩⟩
      · intro hdated hpaths hroom
        obtain ⟨hdatedFirst, hdatedRest⟩ := List.forall_mem_cons.mp hdated
        obtain ⟨hpathFirst, hpathsRest⟩ := List.forall_mem_cons.mp hpaths
        obtain ⟨p, hp⟩ := hpath.mpr (hpathFirst hdot)
        obtain ⟨mid, hmid⟩ := hlists (hdatedFirst hdot) (by omega)
        obtain ⟨hheld, _, hsmall⟩ := hlisted mid hmid
        obtain ⟨r, events, hr⟩ := (ih hrest hheld hmore (by rw [List.length_append]; exact hsmall)).2
          hdatedRest hpathsRest (by rw [List.length_append]; omega)
        rw [hp, ok_bind, hmid, ok_bind, hr]
        exact ⟨r, _, rfl⟩

lemma prologue_length (url : Bytes) :
    (prologue url).length = 2 * (withSlash url).length + 100 := by
  have hconstants : (asciiBytes "<html>\r\n<head><title>Index of ").length = 30 ∧
      (asciiBytes "</title></head>\r\n<body bgcolor=\"white\">\r\n<h1>Index of ").length = 54 ∧
      (asciiBytes "</h1><hr><pre>\r\n").length = 16 := by decide
  rw [prologue]
  simp only [List.length_append, hconstants.1, hconstants.2.1, hconstants.2.2]
  omega

lemma page_length (lines : List Bytes) :
    (page url lines).length = 2 * (withSlash url).length + lines.flatten.length + 128 := by
  have hepilogue : epilogue.length = 28 := by decide
  rw [page, List.length_append, List.length_append, prologue_length, hepilogue]
  omega

/-- The page in front of its list. -/
def pageStart (requestUrl : Buffer) : Except Fault Buffer := do
  let b ← bufferAppendStrings bufferInit
    [asciiBytes "<html>\r\n", asciiBytes "<head><title>", asciiBytes "Index of "]
  let b ← bufferAppendBuffer b requestUrl
  let last ← lastCharacter requestUrl
  let b ← closeWithSlash b last
  let b ← bufferAppendStrings b
    [asciiBytes "</title></head>\r\n", asciiBytes "<body bgcolor=\"white\">\r\n",
     asciiBytes "<h1>Index of ", cString requestUrl.data]
  let b ← closeWithSlash b last
  bufferAppendString b (asciiBytes "</h1><hr><pre>\r\n")

/-- A page is its start, its list and its end. -/
lemma directoryParse_ok_iff {conn : Connection} (holds : HoldsPath directoryPath path) (b : Buffer) :
    (∃ events, httpHandleDirectoryParse ans conn directoryPath = .ok (b, events)) ↔
      ∃ start listed more, pageStart conn.connectionRequest.requestUrl = .ok start ∧
        listEntries ans conn.connectionRequest.requestUrl directoryPath (ans.opendir.getD []) start =
          .ok (listed, more) ∧
        bufferAppendStrings listed
          [asciiBytes "</pre><hr></body>\r\n", asciiBytes "</html>\r\n"] = .ok b := by
  have hlist : ∀ start, readDirectory ans conn.connectionRequest.requestUrl directoryPath start =
      listEntries ans conn.connectionRequest.requestUrl directoryPath (ans.opendir.getD []) start := by
    intro start
    rw [readDirectory]
    cases ans.opendir <;> rfl
  rw [httpHandleDirectoryParse, path_not_empty holds, pageStart]
  simp only [Bool.false_eq_true, if_false, hlist]
  constructor
  · rintro ⟨events, h⟩
    obtain ⟨b₁, h₁, h⟩ := bind_eq_ok.mp h
    obtain ⟨b₂, h₂, h⟩ := bind_eq_ok.mp h
    obtain ⟨last, hlast, h⟩ := bind_eq_ok.mp h
    obtain ⟨b₃, h₃, h⟩ := bind_eq_ok.mp h
    obtain ⟨b₄, h₄, h⟩ := bind_eq_ok.mp h
    obtain ⟨b₅, h₅, h⟩ := bind_eq_ok.mp h
    obtain ⟨start, hstart, h⟩ := bind_eq_ok.mp h
    obtain ⟨⟨listed, more⟩, hlisted, h⟩ := bind_eq_ok.mp h
    obtain ⟨closed, hclosed, h⟩ := bind_eq_ok.mp h
    cases h
    refine ⟨start, listed, more, ?_, hlisted, hclosed⟩
    simp only [h₁, h₂, hlast, h₃, h₄, h₅, ok_bind]
    exact hstart
  · rintro ⟨start, listed, more, hstart, hlisted, hclosed⟩
    obtain ⟨b₁, h₁, hstart⟩ := bind_eq_ok.mp hstart
    obtain ⟨b₂, h₂, hstart⟩ := bind_eq_ok.mp hstart
    obtain ⟨last, hlast, hstart⟩ := bind_eq_ok.mp hstart
    obtain ⟨b₃, h₃, hstart⟩ := bind_eq_ok.mp hstart
    obtain ⟨b₄, h₄, hstart⟩ := bind_eq_ok.mp hstart
    obtain ⟨b₅, h₅, hstart⟩ := bind_eq_ok.mp hstart
    simp only [h₁, h₂, hlast, h₃, h₄, h₅, hstart, hlisted, hclosed, ok_bind]
    exact ⟨_, rfl⟩

lemma titles_flatten {requestUrl : Buffer} (request : Holds requestUrl url)
    (plain : ∀ c ∈ url, c ≠ 0) :
    [asciiBytes "<html>\r\n", asciiBytes "<head><title>", asciiBytes "Index of "].flatten =
      asciiBytes "<html>\r\n<head><title>Index of " ∧
    [asciiBytes "</title></head>\r\n", asciiBytes "<body bgcolor=\"white\">\r\n",
      asciiBytes "<h1>Index of ", cString requestUrl.data].flatten =
      asciiBytes "</title></head>\r\n<body bgcolor=\"white\">\r\n<h1>Index of " ++ url := by
  have hjoin : asciiBytes "</title></head>\r\n" ++ (asciiBytes "<body bgcolor=\"white\">\r\n" ++
      asciiBytes "<h1>Index of ") =
      asciiBytes "</title></head>\r\n<body bgcolor=\"white\">\r\n<h1>Index of " := by decide
  rw [request.cString plain, ← hjoin]
  exact ⟨by decide, by simp⟩

/-- The URL is written twice, each time with a slash at its end. -/
lemma pageStart_iff {requestUrl : Buffer} (request : Holds requestUrl url) (some_url : url ≠ [])
    (plain : ∀ c ∈ url, c ≠ 0) :
    (∀ b, pageStart requestUrl = .ok b →
      b.Held (prologue url) ∧ (prologue url).length + 2 ≤ 4294967232) ∧
    ((prologue url).length + 2 ≤ 4294967232 → ∃ b, pageStart requestUrl = .ok b) := by
  have hlength := prologue_length url
  have hbounds := withSlash_length url
  have hparts : (asciiBytes "<html>\r\n<head><title>Index of ").length = 30 ∧
      (asciiBytes "</title></head>\r\n<body bgcolor=\"white\">\r\n<h1>Index of ").length = 54 ∧
      (asciiBytes "</h1><hr><pre>\r\n").length = 16 := by decide
  obtain ⟨hfirst, hsecond⟩ := titles_flatten request plain
  obtain ⟨last, hlast, hends⟩ := lastCharacter_text request some_url
  constructor
  · intro b hb
    obtain ⟨b₁, h₁, hb⟩ := bind_eq_ok.mp hb
    obtain ⟨b₂, h₂, hb⟩ := bind_eq_ok.mp hb
    obtain ⟨_, hlast', hb⟩ := bind_eq_ok.mp hb
    cases hlast.symm.trans hlast'
    obtain ⟨b₃, h₃, hb⟩ := bind_eq_ok.mp hb
    obtain ⟨b₄, h₄, hb⟩ := bind_eq_ok.mp hb
    obtain ⟨b₅, h₅, hb⟩ := bind_eq_ok.mp hb
    have held₁ := (bufferInit_held.appends_ok h₁).1
    rw [hfirst, List.nil_append] at held₁
    have held₂ := (held₁.appendBuffer_ok (List.cons_ne_nil _ _) (request.data some_url)
      request.terminated h₂).1
    have held₄ := ((held_slash_ok held₂ hends h₃).appends_ok h₄).1
    rw [hsecond, ← List.append_assoc] at held₄
    obtain ⟨hheld, hbound⟩ := (held_slash_ok held₄ hends h₅).append_ok hb
    refine ⟨hheld, ?_⟩
    have hroom := hbound (by simp [asciiBytes]) (List.cons_ne_nil _ _)
    rw [hlength]
    simp only [List.length_append, hparts.1, hparts.2.1, hparts.2.2] at hroom
    omega
  · intro hfits
    obtain ⟨b₁, h₁, held₁⟩ := bufferInit_held.appends
      [asciiBytes "<html>\r\n", asciiBytes "<head><title>", asciiBytes "Index of "] (by decide)
    rw [hfirst, List.nil_append] at held₁
    obtain ⟨b₂, h₂, held₂⟩ := held₁.appendBuffer (request.data some_url) (by omega)
    obtain ⟨b₃, h₃, held₃⟩ := held_slash held₂ hends (by omega)
    obtain ⟨b₄, h₄, held₄⟩ := held₃.appends [asciiBytes "</title></head>\r\n",
      asciiBytes "<body bgcolor=\"white\">\r\n", asciiBytes "<h1>Index of ",
      cString requestUrl.data] (by
        rw [hsecond]
        simp only [List.length_append]
        omega)
    rw [hsecond, ← List.append_assoc] at held₄
    obtain ⟨b₅, h₅, held₅⟩ := held_slash held₄ hends (by
      simp only [List.length_append]
      omega)
    obtain ⟨b, hb, _⟩ := held₅.append (asciiBytes "</h1><hr><pre>\r\n") (by
      simp only [List.length_append]
      omega)
    refine ⟨b, ?_⟩
    simp only [pageStart, h₁, h₂, hlast, h₃, h₄, h₅, ok_bind]
    exact hb

/-- A page is put together if its entries are dated and nothing of it outgrows a
buffer, and it then has the written lines. -/
theorem directoryParse_iff {conn : Connection}
    (request : Holds conn.connectionRequest.requestUrl url)
    (memory : conn.connectionRequest.requestUrl.isNull = false) (some_url : url ≠ [])
    (plain : ∀ c ∈ url, c ≠ 0) (holds : HoldsPath directoryPath path) (some_path : path ≠ [])
    (directory : directoryPath.isNull = false)
    (names : ∀ entry ∈ ans.opendir.getD [], PlainName entry.name) :
    (∀ b events, httpHandleDirectoryParse ans conn directoryPath = .ok (b, events) →
      b.Held (page url (writtenLines (listedLines ans url (ans.opendir.getD []))))) ∧
    ((∃ b events, httpHandleDirectoryParse ans conn directoryPath = .ok (b, events)) ↔
      Dated ans (ans.opendir.getD []) ∧ PathsFit path (ans.opendir.getD []) ∧
        (page url (writtenLines (listedLines ans url (ans.opendir.getD [])))).length ≤
          4294967230) := by
  have hepilogue : [asciiBytes "</pre><hr></body>\r\n", asciiBytes "</html>\r\n"].flatten =
      epilogue := by decide
  have htail : epilogue.length = 28 := by decide
  have hlength := prologue_length url
  have hbounds := withSlash_length url
  have hsome : prologue url ≠ [] := List.ne_nil_of_length_pos (by omega)
  have hpage : page url (writtenLines (listedLines ans url (ans.opendir.getD []))) =
      prologue url ++ (writtenLines (listedLines ans url (ans.opendir.getD []))).flatten ++
        epilogue := rfl
  obtain ⟨hstarts, hstart⟩ := pageStart_iff request some_url plain
  -- what has been put together when a page comes out
  have sound : ∀ b events, httpHandleDirectoryParse ans conn directoryPath = .ok (b, events) →
      b.Held (page url (writtenLines (listedLines ans url (ans.opendir.getD [])))) ∧
        Dated ans (ans.opendir.getD []) ∧ PathsFit path (ans.opendir.getD []) ∧
        (page url (writtenLines (listedLines ans url (ans.opendir.getD [])))).length ≤
          4294967230 := by
    intro b events hb
    obtain ⟨start, listed, more, hs, hl, hc⟩ := (directoryParse_ok_iff holds b).mp ⟨events, hb⟩
    obtain ⟨hheld, hroom⟩ := hstarts start hs
    obtain ⟨hlines, hdated, hpaths⟩ := (listEntries_iff request memory some_url plain (by omega)
      holds some_path directory _ names hheld hsome hroom).1 listed more hl
    obtain ⟨hwhole, hbound⟩ := hlines.appends_ok hc
    rw [hepilogue] at hwhole hbound
    refine ⟨hwhole, hdated, hpaths, ?_⟩
    have htotal := hbound (List.append_ne_nil_of_left_ne_nil hsome _) (by decide)
    rw [hpage, List.length_append]
    omega
  refine ⟨fun b events hb => (sound b events hb).1, ?_⟩
  constructor
  · rintro ⟨b, events, hb⟩
    exact (sound b events hb).2
  · rintro ⟨hdated, hpaths, hfits⟩
    rw [hpage, List.length_append, List.length_append, htail] at hfits
    obtain ⟨start, hs⟩ := hstart (by omega)
    obtain ⟨hheld, hroom⟩ := hstarts start hs
    obtain ⟨hlines, hlists⟩ := listEntries_iff request memory some_url plain (by omega) holds
      some_path directory _ names hheld hsome hroom
    obtain ⟨listed, more, hl⟩ := hlists hdated hpaths (by omega)
    obtain ⟨b, hc, _⟩ := (hlines listed more hl).1.appends
      [asciiBytes "</pre><hr></body>\r\n", asciiBytes "</html>\r\n"] (by
        rw [hepilogue, htail, List.length_append]
        omega)
    obtain ⟨events, hb⟩ := (directoryParse_ok_iff holds b).mpr ⟨start, listed, more, hs, hl, hc⟩
    exact ⟨b, events, hb⟩

lemma page_written_iff (lines : List Bytes) :
    page url (writtenLines lines) = page url lines ↔ ∀ line ∈ lines, line.length ≤ 1023 := by
  rw [page, page, List.append_left_inj, List.append_right_inj]
  exact (writtenLines_flatten lines).2

/-- The page is complete, each listed entry with its whole line, if and only if
every line fits the array, every listed entry has a date, and neither a path nor
the page outgrows a buffer. -/
theorem listing_complete_iff {conn : Connection} {entries : List Dirent}
    (request : Holds conn.connectionRequest.requestUrl url)
    (memory : conn.connectionRequest.requestUrl.isNull = false) (some_url : url ≠ [])
    (plain : ∀ c ∈ url, c ≠ 0) (holds : HoldsPath directoryPath path) (some_path : path ≠ [])
    (directory : directoryPath.isNull = false) (opened : ans.opendir = some entries)
    (names : ∀ entry ∈ entries, PlainName entry.name) :
    (∃ b events, httpHandleDirectoryParse ans conn directoryPath = .ok (b, events) ∧
      bufferString b = page url (listedLines ans url entries)) ↔
    (∀ line ∈ listedLines ans url entries, line.length ≤ 1023) ∧ Dated ans entries ∧
      PathsFit path entries ∧ (page url (listedLines ans url entries)).length ≤ 4294967230 := by
  have hopen : ans.opendir.getD [] = entries := by rw [opened, Option.getD_some]
  obtain ⟨hholds, hreturns⟩ := @directoryParse_iff ans _ _ _ _ request memory some_url plain holds
    some_path directory (by rw [hopen]; exact names)
  rw [hopen] at hholds hreturns
  have hstring : ∀ b events, httpHandleDirectoryParse ans conn directoryPath = .ok (b, events) →
      bufferString b = page url (writtenLines (listedLines ans url entries)) := by
    intro b events hb
    have hheld := hholds b events hb
    rw [hheld.stored.terminated.take_stringLength, hheld.str]
  rw [← page_written_iff]
  constructor
  · rintro ⟨b, events, hb, hcomplete⟩
    have hsame := (hstring b events hb).symm.trans hcomplete
    have hfits := hreturns.mp ⟨b, events, hb⟩
    rw [hsame] at hfits
    exact ⟨hsame, hfits⟩
  · rintro ⟨hsame, hfits⟩
    rw [← hsame] at hfits ⊢
    obtain ⟨b, events, hb⟩ := hreturns.mpr hfits
    exact ⟨b, events, hb, hstring b events hb⟩

end Page

/-- The entry "a", a file of three bytes. -/
def sampleEntry : Dirent := ⟨asciiBytes "a", .found ⟨.regular, 3, 0⟩⟩

def sampleAnswers : SysAnswers :=
  { SysAnswers.failing with
    opendir := some [sampleEntry]
    localtime := fun _ => some SysAnswers.failing.date }

/-- A connection whose request is for `url`. -/
def requesting (url : Bytes) : Connection :=
  { connectionSetDefault with
    connectionRequest := { requestInitialize with
      requestUrl := bufferCopyString bufferInit url } }

def sampleDirectory : Buffer := bufferCopyString bufferInit (asciiBytes "/srv")

lemma sampleDirectory_holds : HoldsPath sampleDirectory (asciiBytes "/srv") :=
  ⟨⟨by decide, by decide⟩, by decide, by decide, by decide +kernel⟩

lemma requesting_holds {url : Bytes} (h : url.length < 4294967295) :
    Holds (requesting url).connectionRequest.requestUrl url :=
  ⟨bufferCopyStringLength_terminated _ h, bufferCopyStringLength_str _ _⟩

lemma sample_dated : Dated sampleAnswers [sampleEntry] := fun _ _ _ _ _ => rfl

lemma sample_paths : PathsFit (asciiBytes "/srv") [sampleEntry] := by
  intro entry h _
  rw [List.mem_singleton.mp h]
  exact Or.inr (by decide)

lemma sample_names : ∀ entry ∈ [sampleEntry], PlainName entry.name := by
  intro entry h
  rw [List.mem_singleton.mp h]
  exact ⟨by decide, by decide +kernel⟩

theorem listing_complete_one_file : ∃ b events,
    httpHandleDirectoryParse sampleAnswers (requesting (asciiBytes "/")) sampleDirectory =
      .ok (b, events) ∧
    bufferString b = page (asciiBytes "/") (listedLines sampleAnswers (asciiBytes "/") [sampleEntry]) :=
  (@listing_complete_iff sampleAnswers sampleDirectory (asciiBytes "/") (asciiBytes "/srv")
    (requesting (asciiBytes "/")) [sampleEntry] ⟨⟨by decide, by decide⟩, rfl⟩ (by decide)
    (by decide) (by decide +kernel) sampleDirectory_holds (by decide) (by decide +kernel) rfl
    sample_names).mpr ⟨by decide +kernel, sample_dated, sample_paths, by decide +kernel⟩

/-- A URL of 901 bytes makes the line of "a" too long for the array. -/
theorem listing_not_complete : ∃ b events,
    httpHandleDirectoryParse sampleAnswers (requesting (47 :: List.replicate 900 97))
      sampleDirectory = .ok (b, events) ∧
    bufferString b ≠ page (47 :: List.replicate 900 97)
      (listedLines sampleAnswers (47 :: List.replicate 900 97) [sampleEntry]) := by
  generalize hurl : (47 :: List.replicate 900 97 : Bytes) = url
  have hlength : url.length = 901 := by
    rw [← hurl, List.length_cons, List.length_replicate]
  have hplain : ∀ c ∈ url, c ≠ 0 := by
    rw [← hurl]
    exact List.forall_mem_cons.mpr
      ⟨by decide, fun c hc => by rw [List.eq_of_mem_replicate hc]; decide⟩
  have hlines : listedLines sampleAnswers url [sampleEntry] =
      [entryLine url (asciiBytes "a") (dateText sampleAnswers ⟨.regular, 3, 0⟩)
        ⟨.regular, 3, 0⟩] := rfl
  have hline := @entryLine_length url (asciiBytes "a")
    (dateText sampleAnswers ⟨.regular, 3, 0⟩) ⟨.regular, 3, 0⟩ (by decide) (by decide) (by decide)
  have hname : (asciiBytes "a").length = 1 := by decide
  have hslash := withSlash_length url
  have hsome : url ≠ [] := List.ne_nil_of_length_pos (by omega)
  obtain ⟨hholds, hreturns⟩ := @directoryParse_iff sampleAnswers sampleDirectory url
    (asciiBytes "/srv") (requesting url) (requesting_holds (by omega))
    ((bufferCopyStringLength_stored bufferInit (by omega)).1.not_null (by
      rw [bufferCopyStringLength_str]
      exact hsome)) hsome hplain sampleDirectory_holds (by decide) (by decide +kernel) sample_names
  obtain ⟨b, events, hparse⟩ := hreturns.mpr ⟨sample_dated, sample_paths, by
    have hshort := (writtenLines_flatten (listedLines sampleAnswers url [sampleEntry])).1
    change (page url (writtenLines (listedLines sampleAnswers url [sampleEntry]))).length ≤ _
    rw [page_length]
    rw [hlines, List.flatten_singleton] at hshort
    rw [hlines]
    omega⟩
  have hheld := hholds b events hparse
  refine ⟨b, events, hparse, ?_⟩
  change b.Held (page url (writtenLines (listedLines sampleAnswers url [sampleEntry]))) at hheld
  rw [hheld.stored.terminated.take_stringLength, hheld.str, ne_eq, page_written_iff, hlines]
  intro hfits
  have hcut := hfits _ (List.mem_singleton_self _)
  omega

end DirectoryListing
