import Minihttpd.KeyMap
import Mathlib.Data.List.Flatten

/-!
# The lines of a MIME file

`mime_buf` has room for 1023 bytes, and each piece that `fgets` puts there is
taken for a line. A line that is cut gives what its pieces give: entries out of
comments, several entries, or none where the cut goes through a pair.
-/
namespace MimeLines

open ByteBuffer ConnectionTypes HttpRequest KeyMap LineScan FailingRun

/-- The lines of a file with their newlines. The last one may have none. -/
def logicalLines (file : Bytes) : List Bytes := linesOf 10 file

/-- A line whose trimmed text is a pair, and anything behind it. -/
def PairLine (line extension mimeType : Bytes) : Prop :=
  ∃ blanks rest,
    line = blanks ++ 34 :: (extension ++ asciiBytes "\" => \"" ++ mimeType ++ 34 :: rest) ∧
    (∀ c ∈ blanks, isSpace c = true) ∧
    (extension ≠ [] ∧ (34 : UInt8) ∉ extension ∧ ¬ asciiBytes "=>" <:+: extension) ∧
    mimeType ≠ [] ∧ (34 : UInt8) ∉ mimeType

/-- What the table of a file is to be: each line gives what `entryOf` says, the
same that a file of this line alone gives. -/
structure ReadsLines (filename file : Bytes) (entryOf : Bytes → Option MimeTypeEntry) : Prop where
  table : ∃ table, mimeTableInitialize filename (some file) = .ok (some table) ∧
    table.entry = (logicalLines file).filterMap entryOf ∧ table.usedEntry = table.entry.length
  alone : ∀ line ∈ logicalLines file, ∃ table,
    mimeTableInitialize filename (some line) = .ok (some table) ∧
      table.entry = (entryOf line).toList
  comment : ∀ line ∈ logicalLines file, line.head? = some 35 → entryOf line = none
  pair : ∀ line ∈ logicalLines file, ∀ extension mimeType, PairLine line extension mimeType →
    entryOf line = some ⟨extension, mimeType⟩

/-- The table is the concatenation over the lines of at most one entry each. -/
def OneEntryALine (filename file : Bytes) : Prop := ∃ entryOf, ReadsLines filename file entryOf

/-- The bytes of a line that `fgets` puts into `mime_buf` at once. -/
def piece (line : Bytes) (k : Nat) : Bytes := (line.drop (1023 * k)).take 1023

/-- A piece that names an extension and a type: two words in quotes behind
blanks, on either side of its first arrow. -/
structure NamesEntry (s : Bytes) (e : MimeTypeEntry) : Prop where
  words : ∃ blanks between blanks' rest,
    s = (blanks ++ 34 :: (e.extension ++ 34 :: between)) ++
      61 :: 62 :: (blanks' ++ 34 :: (e.mimeType ++ 34 :: rest)) ∧
    (∀ c ∈ blanks, isSpace c = true) ∧ (∀ c ∈ blanks', isSpace c = true) ∧
    ¬ [61, 62] <:+: blanks ++ 34 :: (e.extension ++ 34 :: between)
  extension : e.extension ≠ [] ∧ (34 : UInt8) ∉ e.extension
  mimeType : e.mimeType ≠ [] ∧ (34 : UInt8) ∉ e.mimeType

/-- The cuts of a line do no harm: no piece of a comment names an entry, at most
one piece of any line does, and of a pair one piece names it. -/
structure Unharmed (line : Bytes) : Prop where
  comment : line.head? = some 35 → ∀ k e, ¬ NamesEntry (piece line k) e
  single : ∀ j k d e, NamesEntry (piece line j) d → NamesEntry (piece line k) e → j = k
  pair : ∀ extension mimeType, PairLine line extension mimeType →
    ∃ k, NamesEntry (piece line k) ⟨extension, mimeType⟩

/-- No line is harmed, and no more lines name entries than have room in a table. -/
structure Readable (file : Bytes) : Prop where
  lines : ∀ line ∈ logicalLines file, Unharmed line
  few : ∀ named : List Bytes, named.Sublist (logicalLines file) →
    (∀ line ∈ named, ∃ k e, NamesEntry (piece line k) e) → named.length ≤ 4294966272

lemma arrow_bytes : asciiBytes "=>" = [61, 62] := by decide

/-- What the body of the loop takes for an entry. -/
theorem parse_iff {s : Bytes} {e : MimeTypeEntry} : parseMimeLine s = some e ↔ NamesEntry s e := by
  constructor
  · intro h
    rw [parseMimeLine] at h
    split at h
    · cases h
    split at h
    · cases h
    rename_i extensionEnd hfound
    split at h
    · cases h
    split at h
    · rename_i extension mimeType hextension hmime
      cases h
      rw [arrow_bytes] at hfound
      obtain ⟨before, after, rfl, rfl, habsent⟩ := occurrence_some (by decide) hfound
      have hbehind : (before ++ ([61, 62] ++ after)).drop (before.length + 2) = after := by
        rw [← List.drop_drop, List.drop_left]
        rfl
      rw [List.take_left] at hextension
      rw [hbehind] at hmime
      obtain ⟨blanks, between, rfl, hblank, hextension, hunquoted⟩ := quotedWord_some hextension
      obtain ⟨blanks', rest, rfl, hblank', hmime, hunquoted'⟩ := quotedWord_some hmime
      exact ⟨⟨blanks, between, blanks', rest, rfl, hblank, hblank', habsent⟩,
        ⟨hextension, hunquoted⟩, ⟨hmime, hunquoted'⟩⟩
    · cases h
  · rintro ⟨⟨blanks, between, blanks', rest, hs, hblank, hblank', habsent⟩,
      ⟨hextension, hunquoted⟩, ⟨hmime, hunquoted'⟩⟩
    generalize hbefore : blanks ++ 34 :: (e.extension ++ 34 :: between) = before at hs habsent
    have hfound := occurrence_pair (by decide)
      (blanks' ++ 34 :: (e.mimeType ++ 34 :: rest)) habsent
    have hlength : ¬ before.length = 0 := by
      rw [← hbefore]
      simp
    have hbehind : (before ++ 61 :: 62 :: (blanks' ++ 34 :: (e.mimeType ++ 34 :: rest))).drop
        (before.length + 2) = blanks' ++ 34 :: (e.mimeType ++ 34 :: rest) := by
      rw [← List.drop_drop, List.drop_left]
      rfl
    rw [hs, parseMimeLine, if_neg, arrow_bytes, strstr, hfound]
    · dsimp only
      rw [if_neg hlength, List.take_left, hbehind, ← hbefore,
        quotedWord_text _ hblank hextension hunquoted, quotedWord_text _ hblank' hmime hunquoted']
    · rintro (h | h)
      · simp at h
      · rw [← hbefore] at h
        cases blanks with
        | nil => exact absurd h (by simp)
        | cons c blanks =>
          have hc : c = 35 := h
          exact absurd (hblank c List.mem_cons_self) (by rw [hc]; decide)

lemma NamesEntry.unique {s : Bytes} {d e : MimeTypeEntry} (hd : NamesEntry s d)
    (he : NamesEntry s e) : d = e :=
  Option.some.inj ((parse_iff.mpr hd).symm.trans (parse_iff.mpr he))

lemma NamesEntry.some {s : Bytes} {e : MimeTypeEntry} (h : NamesEntry s e) : s ≠ [] := by
  obtain ⟨blanks, between, blanks', rest, hs, _⟩ := h.words
  rw [hs]
  simp

lemma NamesEntry.notComment {s : Bytes} {e : MimeTypeEntry} (h : NamesEntry s e) :
    s.head? ≠ Option.some 35 := by
  obtain ⟨blanks, between, blanks', rest, rfl, hblank, _⟩ := h.words
  cases blanks with
  | nil => simp
  | cons c blanks =>
    intro hhead
    have hc : c = 35 := Option.some.inj hhead
    exact absurd (hblank c List.mem_cons_self) (by rw [hc]; decide)

/-- What is read off one piece, up to a NUL. -/
def pieceEntry (s : Bytes) : Option MimeTypeEntry := parseMimeLine (cString s)

def lineEntries (line : Bytes) : List MimeTypeEntry := (pieces 1022 line).filterMap pieceEntry

def entriesOf (file : Bytes) : List MimeTypeEntry := (logicalLines file).flatMap lineEntries

/-- The reader adds what the pieces of the lines name. -/
theorem readMimeLines_entries (file : Bytes) (table : MimeTable) :
    readMimeLines file table = (entriesOf file).foldlM addEntry table := by
  have hpieces : entriesOf file = (readAll 10 1022 file).filterMap pieceEntry := by
    rw [readAll_pieces, List.filterMap_flatMap]
    rfl
  rw [hpieces]
  clear hpieces
  induction file, table using readMimeLines.induct with
  | case1 table =>
    rw [readMimeLines, if_pos rfl, readAll, dif_pos rfl]
    rfl
  | case2 file table hfile hnone ih =>
    have hnone' : pieceEntry (readLine 10 (1022 + 1) file).1 = none := hnone
    rw [readMimeLines, if_neg hfile, readAll, dif_neg hfile, List.filterMap_cons_none hnone']
    simp only [hnone]
    exact ih
  | case3 file table hfile e hsome ih =>
    have hsome' : pieceEntry (readLine 10 (1022 + 1) file).1 = some e := hsome
    rw [readMimeLines, if_neg hfile, readAll, dif_neg hfile, List.filterMap_cons_some hsome',
      List.foldlM_cons]
    simp only [hsome]
    exact bind_congr_ok fun added _ => ih added

lemma pieces_piece (line : Bytes) (k : Nat) :
    (pieces 1022 line)[k]? = if 1023 * k < line.length then some (piece line k) else none :=
  pieces_getElem 1022 line k

section

variable {line : Bytes}

lemma piece_cString (nulFree : (0 : UInt8) ∉ line) (k : Nat) :
    cString (piece line k) = piece line k := by
  refine List.takeWhile_eq_self_iff.mpr fun c hc => bne_iff_ne.mpr fun hzero => nulFree ?_
  exact hzero ▸ List.mem_of_mem_drop (List.mem_of_mem_take hc)

/-- The entries of a line, by the numbers of the pieces that name them. -/
lemma piece_entry (nulFree : (0 : UInt8) ∉ line) {k : Nat} {e : MimeTypeEntry} :
    (∃ s, (pieces 1022 line)[k]? = some s ∧ pieceEntry s = some e) ↔
      NamesEntry (piece line k) e := by
  rw [pieces_piece]
  constructor
  · rintro ⟨s, hs, hparse⟩
    split at hs
    · cases hs
      rw [pieceEntry, piece_cString nulFree] at hparse
      exact parse_iff.mp hparse
    · cases hs
  · intro h
    have hlt : 1023 * k < line.length := by
      by_contra hge
      refine h.some ?_
      rw [piece, List.drop_eq_nil_of_le (Nat.le_of_not_lt hge), List.take_nil]
    refine ⟨piece line k, if_pos hlt, ?_⟩
    rw [pieceEntry, piece_cString nulFree]
    exact parse_iff.mpr h

lemma mem_lineEntries (nulFree : (0 : UInt8) ∉ line) {e : MimeTypeEntry} :
    e ∈ lineEntries line ↔ ∃ k, NamesEntry (piece line k) e := by
  rw [lineEntries, List.mem_filterMap]
  constructor
  · rintro ⟨s, hs, hparse⟩
    obtain ⟨k, hk⟩ := List.mem_iff_getElem?.mp hs
    exact ⟨k, (piece_entry nulFree).mp ⟨s, hk, hparse⟩⟩
  · rintro ⟨k, h⟩
    obtain ⟨s, hs, hparse⟩ := (piece_entry nulFree).mpr h
    exact ⟨s, List.mem_of_getElem? hs, hparse⟩

end

/-- At most one element has an image, said of the list of the images. -/
lemma filterMap_length_le_one {α β : Type*} (f : α → Option β) (l : List α) :
    (l.filterMap f).length ≤ 1 ↔
      ∀ (i j : Nat) (x y : α) (b c : β), l[i]? = some x → f x = some b → l[j]? = some y → f y = some c → i = j := by
  induction l with
  | nil => simp
  | cons a l ih =>
    cases ha : f a with
    | none =>
      rw [List.filterMap_cons_none ha, ih]
      constructor
      · rintro h (_ | i) (_ | j) x y b c hx hb hy hc
        · rfl
        · cases hx
          rw [ha] at hb
          cases hb
        · cases hy
          rw [ha] at hc
          cases hc
        · exact congrArg Nat.succ (h i j x y b c hx hb hy hc)
      · intro h i j x y b c hx hb hy hc
        exact Nat.succ.inj (h (i + 1) (j + 1) x y b c hx hb hy hc)
    | some d =>
      rw [List.filterMap_cons_some ha, List.length_cons]
      constructor
      · intro h
        have hnil : l.filterMap f = [] := List.length_eq_zero_iff.mp (by omega)
        have hnone : ∀ (i : Nat) (x : α) (b : β), l[i]? = some x → f x ≠ some b := by
          intro i x b hx hb
          have hmem : b ∈ l.filterMap f := List.mem_filterMap.mpr ⟨x, List.mem_of_getElem? hx, hb⟩
          rw [hnil] at hmem
          cases hmem
        rintro (_ | i) (_ | j) x y b c hx hb hy hc
        · rfl
        · exact absurd hc (hnone j y c hy)
        · exact absurd hb (hnone i x b hx)
        · exact absurd hb (hnone i x b hx)
      · intro h
        have hnil : l.filterMap f = [] := by
          refine List.eq_nil_iff_forall_not_mem.mpr fun b hb => ?_
          obtain ⟨x, hx, hfx⟩ := List.mem_filterMap.mp hb
          obtain ⟨i, hi⟩ := List.mem_iff_getElem?.mp hx
          exact absurd (h 0 (i + 1) a x d b rfl ha hi hfx) (Nat.succ_ne_zero i).symm
        rw [hnil]
        exact Nat.le_refl 1

lemma lineEntries_single {line : Bytes} (nulFree : (0 : UInt8) ∉ line) :
    (lineEntries line).length ≤ 1 ↔
      ∀ j k d e, NamesEntry (piece line j) d → NamesEntry (piece line k) e → j = k := by
  rw [lineEntries, filterMap_length_le_one]
  constructor
  · intro h j k d e hd he
    obtain ⟨s, hs, hparse⟩ := (piece_entry nulFree).mpr hd
    obtain ⟨s', hs', hparse'⟩ := (piece_entry nulFree).mpr he
    exact h j k s s' d e hs hparse hs' hparse'
  · intro h j k s s' d e hs hparse hs' hparse'
    exact h j k d e ((piece_entry nulFree).mp ⟨s, hs, hparse⟩)
      ((piece_entry nulFree).mp ⟨s', hs', hparse'⟩)

lemma nulFree_line {file line : Bytes} (nulFree : (0 : UInt8) ∉ file)
    (h : line ∈ logicalLines file) : (0 : UInt8) ∉ line := by
  intro hmem
  have hflat : (0 : UInt8) ∈ (logicalLines file).flatten := List.mem_flatten.mpr ⟨line, h, hmem⟩
  rw [logicalLines, linesOf_flatten] at hflat
  exact nulFree hflat

lemma entriesOf_line {file line : Bytes} (h : line ∈ logicalLines file) :
    entriesOf line = lineEntries line := by
  rw [entriesOf, logicalLines, linesOf_mem h, List.flatMap_cons, List.flatMap_nil, List.append_nil]

/-- A list of at most one element is the list of its head. -/
lemma toList_head {α : Type*} {l : List α} (one : l.length ≤ 1) : l.head?.toList = l := by
  cases l with
  | nil => rfl
  | cons a behind =>
    rw [List.length_cons] at one
    rw [List.length_eq_zero_iff.mp (by omega : behind.length = 0)]
    rfl

/-- Lines that give at most one entry each make up the table in their order. -/
lemma entriesOf_head {lines : List Bytes}
    (one : ∀ line ∈ lines, (lineEntries line).length ≤ 1) :
    lines.flatMap lineEntries = lines.filterMap fun line => (lineEntries line).head? := by
  rw [List.filterMap_eq_flatMap_toList]
  exact List.flatMap_congr fun line hline => (toList_head (one line hline)).symm

/-- Each line counts that gives an entry. -/
lemma named_le_entries {lines : List Bytes} (some_entry : ∀ line ∈ lines, lineEntries line ≠ []) :
    lines.length ≤ (lines.flatMap lineEntries).length := by
  induction lines with
  | nil => exact Nat.le_refl 0
  | cons line lines ih =>
    have hrest := ih fun l hl => some_entry l (List.mem_cons_of_mem line hl)
    have hpos := List.length_pos_iff.mpr (some_entry line List.mem_cons_self)
    rw [List.flatMap_cons, List.length_append, List.length_cons]
    omega

lemma entries_le_named {lines : List Bytes}
    (one : ∀ line ∈ lines, (lineEntries line).length ≤ 1) :
    (lines.flatMap lineEntries).length = (lines.filter fun line => !(lineEntries line).isEmpty).length := by
  induction lines with
  | nil => rfl
  | cons line lines ih =>
    have hrest := ih fun l hl => one l (List.mem_cons_of_mem line hl)
    have hone := one line List.mem_cons_self
    rw [List.flatMap_cons, List.length_append, hrest]
    cases hentries : lineEntries line with
    | nil =>
      rw [List.filter_cons_of_neg (by rw [hentries]; simp), List.length_nil, Nat.zero_add]
    | cons e behind =>
      rw [hentries, List.length_cons] at hone
      rw [List.filter_cons_of_pos (by rw [hentries]; rfl), List.length_cons, List.length_cons]
      omega

lemma loaded_entries {filename file : Bytes} (named : filename ≠ [])
    (few : (entriesOf file).length ≤ 4294966272) :
    ∃ table, mimeTableInitialize filename (some file) = .ok (some table) ∧
      table.entry = entriesOf file ∧ table.usedEntry = (entriesOf file).length := by
  have hloaded := mimeTable_entries named (readMimeLines_entries file)
  rwa [if_pos few] at hloaded

/-- A table that has been loaded holds what the pieces name. -/
lemma loaded_inv {filename file : Bytes} {table : MimeTable} (named : filename ≠ [])
    (h : mimeTableInitialize filename (some file) = .ok (some table)) :
    table.entry = entriesOf file ∧ (entriesOf file).length ≤ 4294966272 := by
  have hloaded := mimeTable_entries named (readMimeLines_entries file)
  by_cases hfew : (entriesOf file).length ≤ 4294966272
  · rw [if_pos hfew] at hloaded
    obtain ⟨made, hmade, hentry, _⟩ := hloaded
    rw [h] at hmade
    cases hmade
    exact ⟨hentry, hfew⟩
  · rw [if_neg hfew, h] at hloaded
    cases hloaded

/-- Every line of a file gives at most one entry, as it says, if and only if its
cuts do no harm and the entries can be counted. -/
theorem mime_lines_iff {filename file : Bytes} (named : filename ≠ [])
    (nulFree : (0 : UInt8) ∉ file) : OneEntryALine filename file ↔ Readable file := by
  constructor
  · rintro ⟨entryOf, h⟩
    have halone : ∀ line ∈ logicalLines file, lineEntries line = (entryOf line).toList := by
      intro line hline
      obtain ⟨table, hloaded, hentry⟩ := h.alone line hline
      rw [← entriesOf_line hline, ← (loaded_inv named hloaded).1, hentry]
    refine ⟨fun line hline => ⟨?_, ?_, ?_⟩, ?_⟩
    · intro hcomment k e hnames
      have hmem := (mem_lineEntries (nulFree_line nulFree hline)).mpr ⟨k, hnames⟩
      rw [halone line hline, h.comment line hline hcomment] at hmem
      cases hmem
    · refine (lineEntries_single (nulFree_line nulFree hline)).mp ?_
      rw [halone line hline]
      cases entryOf line with
      | none => exact Nat.zero_le 1
      | some e => exact Nat.le_refl 1
    · intro extension mimeType hpair
      refine (mem_lineEntries (nulFree_line nulFree hline)).mp ?_
      rw [halone line hline, h.pair line hline extension mimeType hpair]
      exact List.mem_singleton_self _
    · intro lines hsub hnames
      obtain ⟨table, hloaded, _⟩ := h.table
      have hfew := (loaded_inv named hloaded).2
      have hsome : ∀ line ∈ lines, lineEntries line ≠ [] := by
        intro line hline
        obtain ⟨k, e, hnamed⟩ := hnames line hline
        exact List.ne_nil_of_mem
          ((mem_lineEntries (nulFree_line nulFree (hsub.subset hline))).mpr ⟨k, hnamed⟩)
      have hle := named_le_entries hsome
      have hpart := (hsub.flatMap lineEntries).length_le
      exact Nat.le_trans hle (Nat.le_trans hpart hfew)
  · intro h
    have hone : ∀ line ∈ logicalLines file, (lineEntries line).length ≤ 1 := fun line hline =>
      (lineEntries_single (nulFree_line nulFree hline)).mpr (h.lines line hline).single
    have hfew : (entriesOf file).length ≤ 4294966272 := by
      rw [entriesOf, entries_le_named hone]
      refine h.few _ List.filter_sublist fun line hline => ?_
      obtain ⟨hmem, hsome⟩ := List.mem_filter.mp hline
      obtain ⟨e, behind, hentries⟩ := List.exists_cons_of_ne_nil
        (l := lineEntries line) (fun hnil => by rw [hnil] at hsome; cases hsome)
      obtain ⟨k, hk⟩ := (mem_lineEntries (nulFree_line nulFree hmem)).mp
        (hentries ▸ List.mem_cons_self)
      exact ⟨k, e, hk⟩
    refine ⟨fun line => (lineEntries line).head?, ?_, ?_, ?_, ?_⟩
    · obtain ⟨table, hloaded, hentry, hused⟩ := loaded_entries named hfew
      exact ⟨table, hloaded, hentry.trans (entriesOf_head hone),
        hused.trans (congrArg List.length hentry.symm)⟩
    · intro line hline
      have hline' := entriesOf_line hline
      obtain ⟨table, hloaded, hentry, _⟩ := @loaded_entries filename line named
        (by rw [hline']; exact Nat.le_trans (hone line hline) (by decide))
      refine ⟨table, hloaded, ?_⟩
      rw [hentry, hline']
      exact (toList_head (hone line hline)).symm
    · intro line hline hcomment
      refine List.head?_eq_none_iff.mpr (List.eq_nil_iff_forall_not_mem.mpr fun e he => ?_)
      obtain ⟨k, hk⟩ := (mem_lineEntries (nulFree_line nulFree hline)).mp he
      exact (h.lines line hline).comment hcomment k e hk
    · intro line hline extension mimeType hpair
      have hmem := (mem_lineEntries (nulFree_line nulFree hline)).mpr
        ((h.lines line hline).pair extension mimeType hpair)
      rw [← toList_head (hone line hline)] at hmem
      exact Option.mem_toList.mp hmem

lemma piece_zero {line : Bytes} (fits : line.length ≤ 1023) : piece line 0 = line := by
  rw [piece, Nat.mul_zero, List.drop_zero, List.take_of_length_le fits]

lemma piece_short {line : Bytes} (fits : line.length ≤ 1023) {k : Nat} {e : MimeTypeEntry}
    (h : NamesEntry (piece line k) e) : k = 0 := by
  by_contra hk
  refine h.some ?_
  rw [piece, List.drop_eq_nil_of_le (by omega), List.take_nil]

lemma pairLine_names {line extension mimeType : Bytes} (h : PairLine line extension mimeType) :
    NamesEntry line ⟨extension, mimeType⟩ := by
  obtain ⟨blanks, rest, rfl, hblank, ⟨hextension, hunquoted, habsent⟩, hmime, hunquoted'⟩ := h
  rw [arrow_bytes] at habsent
  refine ⟨⟨blanks, [32], [32], rest, ?_, hblank, by decide +kernel, pair_front hblank habsent⟩,
    ⟨hextension, hunquoted⟩, ⟨hmime, hunquoted'⟩⟩
  have hmiddle : asciiBytes "\" => \"" = [34, 32, 61, 62, 32, 34] := by decide
  rw [hmiddle]
  simp

/-- A line that fits with its newline is not cut. -/
theorem unharmed_of_short {line : Bytes} (fits : line.length ≤ 1023) : Unharmed line := by
  refine ⟨fun hcomment k e h => ?_, fun j k d e hd he => ?_, fun extension mimeType h => ⟨0, ?_⟩⟩
  · have hk := piece_short fits h
    rw [hk, piece_zero fits] at h
    exact h.notComment hcomment
  · rw [piece_short fits hd, piece_short fits he]
  · rw [piece_zero fits]
    exact pairLine_names h

def mimeName : Bytes := asciiBytes "mime.conf"

/-- A comment, a pair with something behind it, and a pair without a newline. -/
def shortFile : Bytes :=
  asciiBytes "# types\n\t\".c\" => \"text/x-c\", 1\n\".h\"=>\"text/x-h\""

theorem mime_lines_short : OneEntryALine mimeName shortFile := by
  have hlines : ∀ line ∈ logicalLines shortFile, line.length ≤ 1023 := by decide +kernel
  refine (mime_lines_iff (by decide) (by decide +kernel)).mpr
    ⟨fun line hline => unharmed_of_short (hlines line hline), fun lines hsub _ => ?_⟩
  exact Nat.le_trans hsub.length_le (by decide +kernel)

/-- A comment of 1023 bytes that goes on with a pair. -/
def longComment : Bytes := (35 :: List.replicate 1022 120) ++ asciiBytes "\"a\" => \"b\"\n"

lemma mem_longComment {c : UInt8} {behind : Bytes}
    (h : c ∈ (35 :: List.replicate 1022 120) ++ behind) : c = 35 ∨ c = 120 ∨ c ∈ behind := by
  rw [List.mem_append, List.mem_cons, List.mem_replicate] at h
  rcases h with (h | h) | h
  · exact Or.inl h
  · exact Or.inr (Or.inl h.2)
  · exact Or.inr (Or.inr h)

lemma longComment_nulFree : (0 : UInt8) ∉ longComment := by
  intro h
  rcases mem_longComment h with h | h | h
  · cases h
  · cases h
  · revert h
    decide +kernel

lemma longComment_line : logicalLines longComment = [longComment] := by
  have hfront : (10 : UInt8) ∉ (35 :: List.replicate 1022 120) ++ asciiBytes "\"a\" => \"b\"" := by
    intro h
    rcases mem_longComment h with h | h | h
    · cases h
    · cases h
    · revert h
      decide +kernel
  have hends : longComment =
      ((35 :: List.replicate 1022 120) ++ asciiBytes "\"a\" => \"b\"") ++ [10] := by
    rw [longComment, List.append_assoc]
    congr 1
  rw [logicalLines, hends]
  exact linesOf_line hfront []

/-- The second piece is the pair. -/
lemma longComment_names :
    NamesEntry (piece longComment 1) ⟨asciiBytes "a", asciiBytes "b"⟩ := by
  have hlength : (35 :: List.replicate 1022 (120 : UInt8)).length = 1023 * 1 := by
    rw [List.length_cons, List.length_replicate]
  have hpiece : piece longComment 1 = asciiBytes "\"a\" => \"b\"\n" := by
    rw [piece, longComment, ← hlength, List.drop_left]
    exact List.take_of_length_le (by decide)
  have hpair : PairLine (asciiBytes "\"a\" => \"b\"\n") (asciiBytes "a") (asciiBytes "b") :=
    ⟨[], [10], by decide, fun c hc => absurd hc List.not_mem_nil, ⟨by decide, by decide, by decide⟩,
      by decide, by decide⟩
  rw [hpiece]
  exact pairLine_names hpair

/-- The entry of a table, read out of a comment. -/
theorem long_comment_read : (0 : UInt8) ∉ longComment ∧ logicalLines longComment = [longComment] ∧
    longComment.head? = some 35 ∧ ¬ OneEntryALine mimeName longComment := by
  refine ⟨longComment_nulFree, longComment_line, rfl, ?_⟩
  rintro ⟨entryOf, h⟩
  have hmem : longComment ∈ logicalLines longComment := by
    rw [longComment_line]
    exact List.mem_singleton_self _
  obtain ⟨table, hloaded, hentry⟩ := h.alone longComment hmem
  rw [h.comment longComment hmem rfl, (loaded_inv (by decide) hloaded).1, entriesOf_line hmem]
    at hentry
  have hread := (mem_lineEntries longComment_nulFree).mpr ⟨1, longComment_names⟩
  rw [hentry] at hread
  cases hread

end MimeLines
