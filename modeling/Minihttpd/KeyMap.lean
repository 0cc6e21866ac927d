import Minihttpd.HttpRequest
import Minihttpd.Library.LineScan
import Minihttpd.Library.FailingRun
import Mathlib.Data.List.TakeWhile

/-!
# The MIME configuration

`mime_table_initialize` of `key_map.cpp`: the file is read in lines of at most
1023 bytes, a line that names a type adds an entry, and any other is left out.
-/
namespace KeyMap

open ByteBuffer ConnectionTypes HttpRequest LineScan FailingRun

/-- `mime_table`; `entry` holds the entries filled in, of `entrySizes` places. -/
structure MimeTable where
  entry : List MimeTypeEntry
  usedEntry : Nat
  entrySizes : Nat

/-- `strstr`. -/
def strstr (s needle : Bytes) : Option Nat := occurrence needle s

/-- `fgets` into `mime_buf`, and the rest of the file. -/
def fgets (file : Bytes) : Bytes × Bytes := readLine 10 1023 file

/-- The word in quotes behind leading white space. Both of a line's words are
scanned so, the extension up to the arrow and the type up to the terminator. -/
def quotedWord (s : Bytes) : Option Bytes :=
  match s.dropWhile isSpace with
  | 34 :: rest =>
    let word := rest.takeWhile (fun c => c != 34)
    if word.length = rest.length then none
    else if word.length = 0 then none
    else some word
  | _ => none

/-- One line: extension => mime-type. -/
def parseMimeLine (mimeBuf : Bytes) : Option MimeTypeEntry :=
  if mimeBuf.length ≤ 0 ∨ mimeBuf.headD 0 = 35 then none
  else
    match strstr mimeBuf (asciiBytes "=>") with
    | none => none
    | some extensionEnd =>
      if extensionEnd = 0 then none
      else
        match quotedWord (mimeBuf.take extensionEnd), quotedWord (mimeBuf.drop (extensionEnd + 2)) with
        | some extension, some mimeType => some ⟨extension, mimeType⟩
        | _, _ => none

/-- A full table is made larger, in 32 bits, before the entry is written. -/
def addEntry (table : MimeTable) (e : MimeTypeEntry) : Except Fault MimeTable :=
  let entrySizes :=
    if table.usedEntry = table.entrySizes then u32 (table.entrySizes + 1024) else table.entrySizes
  if table.usedEntry < entrySizes then
    .ok ⟨table.entry ++ [e], u32 (table.usedEntry + 1), entrySizes⟩
  else .error .outOfBounds

/-- The loop over the lines of the file. -/
def readMimeLines (file : Bytes) (table : MimeTable) : Except Fault MimeTable :=
  if file = [] then .ok table
  else
    match parseMimeLine (cString (fgets file).1) with
    | none => readMimeLines (fgets file).2 table
    | some e => do
      let table ← addEntry table e
      readMimeLines (fgets file).2 table
termination_by file.length
decreasing_by all_goals exact readLine_shorter 1022 (by assumption)

def emptyTable : MimeTable := ⟨[], 0, 1024⟩

/-- `mime_table_initialize`; `fopen` answers with what is in the file. -/
def mimeTableInitialize (filename : Bytes) (fopen : Option Bytes) :
    Except Fault (Option MimeTable) :=
  if filename.length ≤ 0 then return none
  else
    match fopen with
    | none => return none
    | some file => do
      let table ← readMimeLines file emptyTable
      return some table

lemma quotedWord_some {s word : Bytes} (h : quotedWord s = some word) :
    ∃ blanks behind, s = blanks ++ 34 :: (word ++ 34 :: behind) ∧
      (∀ c ∈ blanks, isSpace c = true) ∧ word ≠ [] ∧ (34 : UInt8) ∉ word := by
  rw [quotedWord] at h
  split at h
  · rename_i rest hrest
    dsimp only at h
    split at h
    · cases h
    · rename_i hend
      split at h
      · cases h
      · rename_i hsome
        have hword := Option.some.inj h
        subst hword
        have hquoted : (34 : UInt8) ∉ rest.takeWhile (fun c => c != 34) := by
          intro hmem
          have := List.mem_takeWhile_imp hmem
          simp at this
        have hsplit := List.takeWhile_append_dropWhile (p := fun c : UInt8 => c != 34) (l := rest)
        cases hdrop : rest.dropWhile (fun c => c != 34) with
        | nil =>
          rw [hdrop, List.append_nil] at hsplit
          exact absurd (congrArg List.length hsplit) hend
        | cons c behind =>
          have hc : c = 34 := by
            have := List.head?_dropWhile_not (fun c : UInt8 => c != 34) rest
            rw [hdrop] at this
            simpa using this
          refine ⟨s.takeWhile isSpace, behind, ?_, fun c hmem => List.mem_takeWhile_imp hmem,
            fun hnil => hsome (congrArg List.length hnil), hquoted⟩
          rw [hdrop, hc] at hsplit
          have hs := List.takeWhile_append_dropWhile (p := isSpace) (l := s)
          rw [hrest, ← hsplit] at hs
          exact hs.symm
  · cases h

/-- Whatever the file holds, its types are parts of one line each. -/
lemma parseMimeLine_type {mimeBuf : Bytes} {e : MimeTypeEntry}
    (h : parseMimeLine mimeBuf = some e) :
    ∃ before behind, mimeBuf = before ++ e.mimeType ++ 34 :: behind := by
  rw [parseMimeLine] at h
  split at h
  · cases h
  split at h
  · cases h
  rename_i extensionEnd _
  split at h
  · cases h
  split at h
  · rename_i extension mimeType _ hmime
    cases h
    obtain ⟨blanks, behind, hsplit, _⟩ := quotedWord_some hmime
    refine ⟨mimeBuf.take (extensionEnd + 2) ++ (blanks ++ [34]), behind, ?_⟩
    have hdrop : mimeBuf.drop (extensionEnd + 2) = blanks ++ [34] ++ mimeType ++ 34 :: behind := by
      rw [hsplit]
      simp
    rw [List.append_assoc, List.append_assoc, ← List.append_assoc (blanks ++ [34]), ← hdrop,
      List.take_append_drop]
  · cases h

lemma addEntry_entry {table after : MimeTable} {e : MimeTypeEntry}
    (h : addEntry table e = .ok after) : after.entry = table.entry ++ [e] := by
  rw [addEntry] at h
  generalize (if table.usedEntry = table.entrySizes then u32 (table.entrySizes + 1024)
    else table.entrySizes) = entrySizes at h
  split at h
  · cases h
    rfl
  · cases h

/-- What every line can add, the file adds. -/
theorem readMimeLines_keeps {P : MimeTypeEntry → Prop}
    (each : ∀ file e, parseMimeLine (cString (fgets file).1) = some e → P e) {file : Bytes}
    {table after : MimeTable} (before : ∀ e ∈ table.entry, P e)
    (h : readMimeLines file table = .ok after) : ∀ e ∈ after.entry, P e := by
  induction file, table using readMimeLines.induct with
  | case1 table =>
    rw [readMimeLines, if_pos rfl] at h
    cases h
    exact before
  | case2 file table hfile hnone ih =>
    rw [readMimeLines, if_neg hfile] at h
    simp only [hnone] at h
    exact ih before h
  | case3 file table hfile e hsome ih =>
    rw [readMimeLines, if_neg hfile] at h
    simp only [hsome] at h
    obtain ⟨added, hadd, h⟩ := bind_eq_ok.mp h
    refine ih added ?_ h
    rw [addEntry_entry hadd]
    intro d hd
    rcases List.mem_append.mp hd with hd | hd
    · exact before d hd
    · rw [List.mem_singleton.mp hd]
      exact each file e hsome

/-- Every table meets what the server's configuration asks of one. -/
theorem mimeTable_types {filename : Bytes} {fopen : Option Bytes} {table : MimeTable}
    (h : mimeTableInitialize filename fopen = .ok (some table)) :
    ∀ e ∈ table.entry, e.mimeType.length < 1024 ∧ (10 : UInt8) ∉ e.mimeType := by
  have each : ∀ file e, parseMimeLine (cString (fgets file).1) = some e →
      e.mimeType.length < 1024 ∧ (10 : UInt8) ∉ e.mimeType := by
    intro file e hparse
    obtain ⟨before, behind, hline⟩ := parseMimeLine_type hparse
    obtain ⟨beyond, hread⟩ : cString (fgets file).1 <+: (fgets file).1 :=
      List.takeWhile_prefix _
    constructor
    · have hlength := (List.takeWhile_prefix (p := fun c => c != 0) (l := (fgets file).1)).length_le
      have hroom : (fgets file).1.length ≤ 1023 := readLine_length 1023 file
      change (cString (fgets file).1).length ≤ _ at hlength
      rw [hline] at hlength
      simp only [List.length_append, List.length_cons] at hlength
      omega
    · intro hmem
      obtain ⟨start, rest, htype⟩ := List.append_of_mem hmem
      -- a newline would end the line, and the closing quote stands behind it
      have hempty := @readLine_newline _ _ 10 1023 file (before ++ start)
        (rest ++ 34 :: behind ++ beyond) (by
          change (fgets file).1 = _
          rw [← hread, hline, htype]
          simp)
      simp at hempty
  rw [mimeTableInitialize.eq_def] at h
  split at h
  · cases h
  split at h
  · cases h
  obtain ⟨made, hmade, heq⟩ := bind_eq_ok.mp h
  cases heq
  exact readMimeLines_keeps each (fun e he => absurd he List.not_mem_nil) hmade

/-- A line of a MIME file, without its newline. -/
inductive MimeLine where
  | comment (text : Bytes)
  | pair (blanks extension mimeType : Bytes)

namespace MimeLine

def text : MimeLine → Bytes
  | .comment text => 35 :: text
  | .pair blanks extension mimeType =>
    blanks ++ 34 :: (extension ++ asciiBytes "\" => \"" ++ mimeType ++ asciiBytes "\",")

def entry : MimeLine → Option MimeTypeEntry
  | .comment _ => none
  | .pair _ extension mimeType => some ⟨extension, mimeType⟩

/-- What may stand in the places of a pair. -/
def Legible : MimeLine → Prop
  | .comment _ => True
  | .pair blanks extension mimeType =>
    (∀ c ∈ blanks, isSpace c = true) ∧
      (extension ≠ [] ∧ (34 : UInt8) ∉ extension ∧ (0 : UInt8) ∉ extension ∧
        ¬ asciiBytes "=>" <:+: extension) ∧
      mimeType ≠ [] ∧ (34 : UInt8) ∉ mimeType ∧ (0 : UInt8) ∉ mimeType

/-- A legible line that fits `mime_buf` with its newline and a terminator. -/
structure Plain (line : MimeLine) : Prop where
  legible : line.Legible
  one : (10 : UInt8) ∉ line.text
  fits : line.text.length + 1 + 1 ≤ 1024

end MimeLine

/-- A MIME file of the given lines. -/
def mimeFile (lines : List MimeLine) : Bytes := (lines.map (fun line => line.text ++ [10])).flatten

/-- The pairs of a file, in order. -/
def pairsOf (lines : List MimeLine) : List MimeTypeEntry := lines.filterMap MimeLine.entry

lemma quotedWord_text {blanks word : Bytes} (rest : Bytes) (blank : ∀ c ∈ blanks, isSpace c = true)
    (some_word : word ≠ []) (unquoted : (34 : UInt8) ∉ word) :
    quotedWord (blanks ++ 34 :: (word ++ 34 :: rest)) = some word := by
  have hskip : (blanks ++ 34 :: (word ++ 34 :: rest)).dropWhile isSpace =
      34 :: (word ++ 34 :: rest) := by
    rw [List.dropWhile_append_of_pos blank, List.dropWhile_cons_of_neg (by decide)]
  have hword : (word ++ 34 :: rest).takeWhile (fun c => c != 34) = word := by
    have hall : ∀ c ∈ word, (c != 34) = true :=
      fun c hc => bne_iff_ne.mpr fun h => unquoted (h ▸ hc)
    rw [List.takeWhile_append_of_pos hall, List.takeWhile_cons_of_neg (by decide), List.append_nil]
  have hbehind : ¬ word.length = (word ++ 34 :: rest).length := by
    rw [List.length_append, List.length_cons]
    omega
  rw [quotedWord, hskip]
  simp only []
  rw [hword, if_neg hbehind, if_neg (fun h => some_word (List.length_eq_zero_iff.mp h))]

lemma parse_comment (text : Bytes) : parseMimeLine (cString (35 :: text)) = none := by
  have hhead : (cString (35 :: text)).headD 0 = 35 := by
    rw [cString, List.takeWhile_cons_of_pos (by decide)]
    rfl
  rw [parseMimeLine, if_pos (Or.inr hhead)]

/-- In front of the arrow of a pair there is no other. -/
lemma pair_front {blanks extension : Bytes} (blank : ∀ c ∈ blanks, isSpace c = true)
    (absent : ¬ [61, 62] <:+: extension) :
    ¬ [61, 62] <:+: blanks ++ 34 :: (extension ++ 34 :: [32]) := by
  intro h
  rcases pair_infix_split (by decide) (by decide) h with h | h
  · exact pair_not_infix (fun hmem => absurd (blank 61 hmem) (by decide)) h
  · rcases pair_infix_split (by decide) (by decide) h with h | h
    · exact absent h
    · exact absurd h (by decide)

/-- The words of a pair come back from its line. -/
lemma parse_pair {blanks extension mimeType : Bytes} (rest : Bytes)
    (legible : (MimeLine.pair blanks extension mimeType).Legible) :
    parseMimeLine ((MimeLine.pair blanks extension mimeType).text ++ rest) =
      some ⟨extension, mimeType⟩ := by
  obtain ⟨blank, ⟨some_extension, unquoted, _, absent⟩, some_type, unquotedType, _⟩ := legible
  have hline : (MimeLine.pair blanks extension mimeType).text ++ rest =
      (blanks ++ 34 :: (extension ++ [34, 32])) ++ 61 :: 62 ::
        ([32] ++ 34 :: (mimeType ++ 34 :: (44 :: rest))) := by
    have hmiddle : asciiBytes "\" => \"" = [34, 32, 61, 62, 32, 34] := by decide
    have hend : asciiBytes "\"," = [34, 44] := by decide
    rw [MimeLine.text, hmiddle, hend]
    simp
  have harrow : asciiBytes "=>" = [61, 62] := by decide
  have blank_space : ∀ c ∈ ([32] : Bytes), isSpace c = true := by decide +kernel
  rw [harrow] at absent
  have hfree := pair_front blank absent
  have hfound := occurrence_pair (by decide)
    ([32] ++ 34 :: (mimeType ++ 34 :: (44 :: rest))) hfree
  rw [hline, parseMimeLine, if_neg, harrow, strstr, hfound]
  · have hlength : ¬ (blanks ++ 34 :: (extension ++ 34 :: [32])).length = 0 := by simp
    have hbehind : ((blanks ++ 34 :: (extension ++ [34, 32])) ++ 61 :: 62 ::
        ([32] ++ 34 :: (mimeType ++ 34 :: (44 :: rest)))).drop
          ((blanks ++ 34 :: (extension ++ 34 :: [32])).length + 2) =
        [32] ++ 34 :: (mimeType ++ 34 :: (44 :: rest)) := by
      rw [← List.drop_drop, List.drop_left]
      rfl
    dsimp only
    rw [if_neg hlength, List.take_left, hbehind, quotedWord_text _ blank some_extension unquoted,
      quotedWord_text _ blank_space some_type unquotedType]
  · rintro (h | h)
    · simp at h
    · cases blanks with
      | nil => exact absurd h (by simp)
      | cons c blanks =>
        have hc : c = 35 := h
        exact absurd (blank c List.mem_cons_self) (by rw [hc]; decide)

lemma legible_nulFree {blanks extension mimeType : Bytes}
    (legible : (MimeLine.pair blanks extension mimeType).Legible) :
    ∀ c ∈ (MimeLine.pair blanks extension mimeType).text ++ [10], c ≠ 0 := by
  obtain ⟨blank, ⟨_, _, nulFree, _⟩, _, _, nulFreeType⟩ := legible
  have hmiddle : ∀ c ∈ asciiBytes "\" => \"", c ≠ 0 := by decide +kernel
  have hend : ∀ c ∈ asciiBytes "\",", c ≠ 0 := by decide +kernel
  intro c hc
  simp only [MimeLine.text, List.mem_append, List.mem_cons, List.not_mem_nil, or_false] at hc
  rcases hc with (hc | rfl | ((hc | hc) | hc) | hc) | rfl
  · exact fun h => absurd (blank c hc) (by rw [h]; decide)
  · decide
  · exact fun h => nulFree (h ▸ hc)
  · exact hmiddle c hc
  · exact fun h => nulFreeType (h ▸ hc)
  · exact hend c hc
  · decide

/-- A plain line is read as what was written. -/
lemma plain_read {line : MimeLine} (plain : line.Plain) (rest : Bytes) :
    fgets (line.text ++ 10 :: rest) = (line.text ++ [10], rest) ∧
      parseMimeLine (cString (line.text ++ [10])) = line.entry := by
  have hfits := plain.fits
  refine ⟨readLine_line rest plain.one (by omega), ?_⟩
  cases line with
  | comment text => exact parse_comment (text ++ [10])
  | pair blanks extension mimeType =>
    rw [cString, List.takeWhile_eq_self_iff.mpr
      fun c hc => bne_iff_ne.mpr (legible_nulFree plain.legible c hc)]
    exact parse_pair [10] plain.legible

/-- Reading a file back adds its pairs one by one. -/
theorem readMimeLines_file {lines : List MimeLine} (plain : ∀ line ∈ lines, line.Plain)
    (table : MimeTable) :
    readMimeLines (mimeFile lines) table = (pairsOf lines).foldlM addEntry table := by
  induction lines generalizing table with
  | nil =>
    have hnil : mimeFile [] = [] := rfl
    rw [hnil, readMimeLines, if_pos rfl]
    rfl
  | cons line lines ih =>
    have hplain : ∀ l ∈ lines, l.Plain := fun l hl => plain l (List.mem_cons_of_mem line hl)
    have hfile : mimeFile (line :: lines) = line.text ++ 10 :: mimeFile lines := by
      rw [mimeFile, List.map_cons, List.flatten_cons, List.append_assoc]
      rfl
    have hsome : ¬ line.text ++ 10 :: mimeFile lines = [] := by simp
    obtain ⟨hread, hparse⟩ := plain_read (plain line List.mem_cons_self) (mimeFile lines)
    rw [hfile, readMimeLines, if_neg hsome, hread]
    dsimp only
    rw [hparse]
    cases hentry : line.entry with
    | none =>
      rw [pairsOf, List.filterMap_cons_none hentry]
      exact ih hplain table
    | some e =>
      rw [pairsOf, List.filterMap_cons_some hentry, List.foldlM_cons]
      exact bind_congr_ok fun added _ => ih hplain added

/-- The places of a table are whole thousands, and few enough to be counted. -/
structure Sound (table : MimeTable) : Prop where
  used : table.usedEntry = table.entry.length
  fits : table.usedEntry ≤ table.entrySizes
  whole : 1024 ∣ table.entrySizes
  counted : table.entrySizes ≤ 4294966272

lemma emptyTable_sound : Sound emptyTable := ⟨rfl, by decide, by decide, by decide⟩

/-- A table takes one more entry as long as its places can be counted in 32 bits. -/
lemma addEntry_sound {table : MimeTable} (h : Sound table) (e : MimeTypeEntry) :
    if table.entry.length < 4294966272 then
      ∃ after, addEntry table e = .ok after ∧ after.entry = table.entry ++ [e] ∧ Sound after
    else addEntry table e = .error .outOfBounds := by
  obtain ⟨hused, hfits, hwhole, hcounted⟩ := h
  obtain ⟨k, hk⟩ := hwhole
  rw [addEntry]
  by_cases hfull : table.usedEntry = table.entrySizes
  · rw [if_pos hfull]
    by_cases hlast : table.entrySizes = 4294966272
    · have hwrapped : u32 (table.entrySizes + 1024) = 0 := by
        rw [hlast]
        decide
      rw [if_neg (by omega), hwrapped]
      rfl
    · have hlarger : u32 (table.entrySizes + 1024) = table.entrySizes + 1024 :=
        u32_of_lt (by omega)
      have hnext : u32 (table.usedEntry + 1) = table.usedEntry + 1 := u32_of_lt (by omega)
      rw [if_pos (by omega), hlarger, if_pos (by omega), hnext]
      exact ⟨_, rfl, rfl, by simp [hused], by dsimp only; omega,
        ⟨k + 1, by dsimp only; omega⟩, by dsimp only; omega⟩
  · have hnext : u32 (table.usedEntry + 1) = table.usedEntry + 1 := u32_of_lt (by omega)
    rw [if_neg hfull, if_pos (by omega), if_pos (by omega), hnext]
    exact ⟨_, rfl, rfl, by simp [hused], by dsimp only; omega, ⟨k, hk⟩, hcounted⟩

/-- A table takes a list of entries just in case all of them can be counted. -/
theorem addEntries {table : MimeTable} (h : Sound table) (entries : List MimeTypeEntry) :
    if table.entry.length + entries.length ≤ 4294966272 then
      ∃ after, entries.foldlM addEntry table = .ok after ∧
        after.entry = table.entry ++ entries ∧ Sound after
    else entries.foldlM addEntry table = .error .outOfBounds := by
  induction entries generalizing table with
  | nil =>
    have hbound : table.entry.length ≤ 4294966272 := h.used ▸ Nat.le_trans h.fits h.counted
    rw [if_pos (by simpa using hbound)]
    exact ⟨table, rfl, (List.append_nil _).symm, h⟩
  | cons e entries ih =>
    have hstep := addEntry_sound h e
    rw [List.foldlM_cons, List.length_cons]
    split at hstep
    · obtain ⟨after, hadd, hentry, hsound⟩ := hstep
      have hrest := ih hsound
      have hcount : after.entry.length + entries.length =
          table.entry.length + (entries.length + 1) := by
        rw [hentry, List.length_append, List.length_singleton]
        omega
      rw [hcount, hentry, List.append_assoc, List.singleton_append] at hrest
      rw [hadd]
      exact hrest
    · rw [if_neg (by omega), hstep]
      rfl

/-- What the lines of a file add is in the table, if and only if the places for
it can be counted in 32 bits. -/
theorem mimeTable_entries {filename file : Bytes} {entries : List MimeTypeEntry}
    (named : filename ≠ [])
    (read : ∀ table, readMimeLines file table = entries.foldlM addEntry table) :
    if entries.length ≤ 4294966272 then
      ∃ table, mimeTableInitialize filename (some file) = .ok (some table) ∧
        table.entry = entries ∧ table.usedEntry = entries.length
    else mimeTableInitialize filename (some file) = .error .outOfBounds := by
  have hname : ¬ filename.length ≤ 0 :=
    fun h => named (List.length_eq_zero_iff.mp (Nat.le_zero.mp h))
  have hadded := addEntries emptyTable_sound entries
  rw [show emptyTable.entry.length + entries.length = entries.length from
    Nat.zero_add _] at hadded
  rw [mimeTableInitialize, if_neg hname, read]
  split at hadded
  · rename_i hfew
    obtain ⟨table, hrun, hentry, hsound⟩ := hadded
    have hentries : table.entry = entries := hentry
    rw [if_pos hfew, hrun]
    exact ⟨table, rfl, hentries, hsound.used.trans (congrArg List.length hentries)⟩
  · rename_i hmany
    rw [if_neg hmany, hadded]
    rfl

/-- A MIME file is read back as the list it was written from, if and only if the
places for its pairs can be counted in 32 bits. -/
theorem mimeTable_read {filename : Bytes} {lines : List MimeLine} (named : filename ≠ [])
    (plain : ∀ line ∈ lines, line.Plain) :
    if (pairsOf lines).length ≤ 4294966272 then
      ∃ table, mimeTableInitialize filename (some (mimeFile lines)) = .ok (some table) ∧
        table.entry = pairsOf lines ∧ table.usedEntry = (pairsOf lines).length
    else mimeTableInitialize filename (some (mimeFile lines)) = .error .outOfBounds :=
  mimeTable_entries named (readMimeLines_file plain)

end KeyMap
