import Minihttpd.WriteQueue

/-!
# The window of a file chunk

`connection_send_file_chunk` writes through a mapped window of 64 pages, cut
off at the end of the file part. The sums behind it are 32-bit sums. They stay
exact as long as a window that begins in the page in hand ends below 2^32.
-/
namespace SendWindow

open ByteBuffer SystemCalls ChunkQueue HttpConnection WriteQueue FailingRun

def windowPage (offset : Nat) : Nat := offset - offset % 4096

/-- `mmap_len` of a new window. -/
def windowLen (page fileEnd : Nat) : Nat :=
  if u32 (page + 262144) > fileEnd then u32Sub fileEnd page else 262144

/-- The position in the file at which a chunk goes on. -/
def sendOffset (c : Chunk) : Nat := u32 (c.fileOffset + c.chunkOffset)

/-- The chunk with its window moved, if need be. -/
def windowedChunk (ans : SysAnswers) (turn : Nat) (c : Chunk) : Chunk × List KernelCall :=
  if needsRemap c (sendOffset c) then
    remapFileChunk c (sendOffset c) (u32 (c.fileOffset + c.fileLength)) (ans.mmap turn)
  else (c, [])

/-- The chunk as `write` finds it, with the calls made on the way, or none where
`open` or `mmap` has failed. -/
def mappedChunk (ans : SysAnswers) (turn : Nat) (c : Chunk) : Option (Chunk × List KernelCall) :=
  match openFileChunk c (ans.openFile turn) with
  | none => none
  | some (c, opened) =>
    let window := windowedChunk ans turn c
    if window.1.mmapStart.isSome then some (window.1, opened ++ window.2) else none

/-- `send_len` at `write`, for a chunk and the same chunk with its window. -/
def sendLength (c d : Chunk) : Nat :=
  min (u32Sub c.fileLength c.chunkOffset) (u32Sub d.mmapLen (sendOffset c - d.mmapOffset))

/-- A window that an earlier call has opened, at position `o` of the file part. -/
structure OpenedAt (c : Chunk) (o : Nat) : Prop where
  inside : o < c.fileLength
  mapped : c.mmapStart.isSome = true
  offset : c.mmapOffset = windowPage o
  len : c.mmapLen = windowLen (windowPage o) c.fileLength

/-- What the chunk records of its window: none, or that of an earlier call. -/
def Recorded (c : Chunk) : Prop := c.mmapStart = none ∨ ∃ o, OpenedAt c o

/-- The recorded window shows the next byte to be sent. -/
def Covers (c : Chunk) : Prop :=
  c.mmapStart.isSome = true ∧ c.mmapOffset ≤ c.chunkOffset ∧
    c.chunkOffset < c.mmapOffset + c.mmapLen

instance (c : Chunk) : Decidable (Covers c) := inferInstanceAs (Decidable (_ ∧ _ ∧ _))

/-- The page in which the window begins that `write` should go through. -/
def pageInHand (c : Chunk) : Nat :=
  if Covers c then c.mmapOffset else windowPage c.chunkOffset

/-- The recorded window that can be reused begins in front of the last 64 pages
of 32-bit offsets, or else the offset lies there itself. -/
def FarFromWrap (c : Chunk) : Prop :=
  if Covers c then c.mmapOffset < 4294705152 else c.chunkOffset < 4294705152

/-- The window `d` of `c` at `write`, in exact arithmetic. -/
structure ExactWindow (c d : Chunk) (calls : List KernelCall) : Prop where
  aligned : d.mmapOffset % 4096 = 0
  starts : d.mmapOffset ≤ c.chunkOffset
  reaches : c.chunkOffset < d.mmapOffset + d.mmapLen
  inside : d.mmapOffset + d.mmapLen ≤ c.fileLength
  tested : c.mmapStart.isSome = true → c.mmapOffset ≤ c.chunkOffset →
    c.mmapOffset + c.mmapLen < 4294967296
  sums : needsRemap c c.chunkOffset = true → d.mmapOffset + 262144 < 4294967296
  length : sendLength c d =
    min (c.fileLength - c.chunkOffset) (d.mmapOffset + d.mmapLen - c.chunkOffset)
  positive : 0 < sendLength c d
  reused : Covers c → d = { c with fileFd := d.fileFd } ∧ ∀ call ∈ calls, ∃ fd, call = .openFile fd

lemma windowPage_bounds (o : Nat) :
    windowPage o % 4096 = 0 ∧ windowPage o ≤ o ∧ o < windowPage o + 4096 := by
  unfold windowPage
  omega

/-- A window that ends below 2^32 is cut at the end of the file part. -/
lemma windowLen_exact {o len : Nat} (inside : o < len) (short : len < 4294967296)
    (low : windowPage o + 262144 < 4294967296) :
    windowLen (windowPage o) len = min 262144 (len - windowPage o) := by
  obtain ⟨_, hle, _⟩ := windowPage_bounds o
  rw [windowLen, u32_of_lt low]
  by_cases hover : windowPage o + 262144 > len
  · rw [if_pos hover, u32Sub_of_le (Nat.le_trans hle (Nat.le_of_lt inside)) short]
    omega
  · rw [if_neg hover]
    omega

/-- A window that would end past 2^32 is not cut: its end wraps to a small number. -/
lemma windowLen_wrapped {o len : Nat} (inside : o < len) (short : len < 4294967296)
    (high : ¬ windowPage o + 262144 < 4294967296) : windowLen (windowPage o) len = 262144 := by
  obtain ⟨_, hle, _⟩ := windowPage_bounds o
  rw [windowLen, if_neg]
  unfold u32
  omega

lemma openFileChunk_calls {c d : Chunk} {calls : List KernelCall} {answer : Option Nat}
    (h : openFileChunk c answer = some (d, calls)) : ∀ call ∈ calls, ∃ fd, call = .openFile fd := by
  rw [openFileChunk] at h
  cases hfd : c.fileFd with
  | some fd =>
    simp only [hfd] at h
    cases h
    intro call hcall
    cases hcall
  | none =>
    simp only [hfd, Option.map_eq_some_iff] at h
    obtain ⟨fd, _, heq⟩ := h
    cases heq
    intro call hcall
    exact ⟨fd, List.mem_singleton.mp hcall⟩

lemma remapFileChunk_some (c : Chunk) (offset fileEnd addr : Nat) :
    (remapFileChunk c offset fileEnd (some addr)).1 = { c with
      mmapStart := some ⟨addr, cString c.filename.data, windowPage offset,
        windowLen (windowPage offset) fileEnd⟩
      mmapOffset := windowPage offset
      mmapLen := windowLen (windowPage offset) fileEnd } := by
  obtain ⟨len, hlen⟩ : ∃ len, windowLen (windowPage offset) fileEnd = len := ⟨_, rfl⟩
  simp only [hlen]
  unfold windowLen windowPage at hlen
  simp only [remapFileChunk, windowPage, hlen]

lemma windowedChunk_part (ans : SysAnswers) (turn : Nat) (c : Chunk) :
    (windowedChunk ans turn c).1.fileLength = c.fileLength ∧
    (windowedChunk ans turn c).1.fileOffset = c.fileOffset := by
  unfold windowedChunk
  by_cases hremap : needsRemap c (sendOffset c) = true
  · rw [if_pos hremap]
    cases ans.mmap turn with
    | none => exact ⟨rfl, rfl⟩
    | some addr =>
      rw [remapFileChunk_some]
      exact ⟨rfl, rfl⟩
  · rw [if_neg hremap]
    exact ⟨rfl, rfl⟩

/-- What has changed of the chunk when `write` is reached. -/
inductive MappedOutcome (c : Chunk) (calls : List KernelCall) : Chunk → Prop where
  | kept (fd : Option Nat) : needsRemap c (sendOffset c) = false →
      (∀ call ∈ calls, ∃ n, call = .openFile n) → MappedOutcome c calls { c with fileFd := fd }
  | moved (d : Chunk) : needsRemap c (sendOffset c) = true → Rewindowed c d →
      d.mmapStart.isSome = true → d.mmapOffset = windowPage (sendOffset c) →
      d.mmapLen = windowLen (windowPage (sendOffset c)) (u32 (c.fileOffset + c.fileLength)) →
      MappedOutcome c calls d

theorem mappedChunk_outcome {ans : SysAnswers} {turn : Nat} {c d : Chunk}
    {calls : List KernelCall} (h : mappedChunk ans turn c = some (d, calls)) :
    MappedOutcome c calls d := by
  rw [mappedChunk] at h
  cases hopen : openFileChunk c (ans.openFile turn) with
  | none =>
    simp only [hopen] at h
    cases h
  | some opened =>
    obtain ⟨o, opens⟩ := opened
    obtain ⟨fd, rfl⟩ := openFileChunk_spec hopen
    simp only [hopen] at h
    by_cases hremap : needsRemap c (sendOffset c) = true
    · have hwindow : windowedChunk ans turn { c with fileFd := fd } =
          remapFileChunk { c with fileFd := fd } (sendOffset c) (u32 (c.fileOffset + c.fileLength))
            (ans.mmap turn) := if_pos hremap
      rw [hwindow] at h
      cases hmap : ans.mmap turn with
      | none =>
        simp only [hmap, remapFileChunk, Option.isSome_none, Bool.false_eq_true, if_false] at h
        cases h
      | some addr =>
        simp only [hmap, remapFileChunk_some, Option.isSome_some, if_true, Option.some.injEq,
          Prod.mk.injEq] at h
        obtain ⟨rfl, _⟩ := h
        obtain ⟨len, hlen⟩ : ∃ len, windowLen (windowPage (sendOffset c))
          (u32 (c.fileOffset + c.fileLength)) = len := ⟨_, rfl⟩
        simp only [hlen]
        exact .moved _ hremap ⟨rfl⟩ rfl rfl hlen.symm
    · have hwindow : windowedChunk ans turn { c with fileFd := fd } = ({ c with fileFd := fd }, []) :=
        if_neg hremap
      rw [hwindow] at h
      simp only at h
      split at h
      · cases h
        refine .kept fd (Bool.eq_false_iff.mpr hremap) ?_
        rw [List.append_nil]
        exact openFileChunk_calls hopen
      · cases h

/-- The function goes on to `write` just where the chunk is mapped. -/
theorem sendFileChunk_mapped (ans : SysAnswers) (turn : Nat) {q : Chunkqueue} {c : Chunk}
    (rest : List Chunk) (pending : c.chunkOffset < c.fileLength) (short : c.fileLength < 4294967296) :
    (mappedChunk ans turn c = none ∧ ∃ p,
      (p.active = q.active ∨ ∃ d, p.active = d :: rest ∧ d.mmapStart = none ∧
        d.fileLength = c.fileLength ∧ d.fileOffset = c.fileOffset) ∧
      connectionSendFileChunk ans turn q c rest = .ok ⟨-1, p, []⟩) ∨
    ∃ d calls m, mappedChunk ans turn c = some (d, calls) ∧ d.mmapStart = some m ∧
      connectionSendFileChunk ans turn q c rest = sendMapped ans.file
        { q with active := d :: rest, calls := q.calls ++ calls } d m (sendOffset c)
        (u32Sub c.fileLength c.chunkOffset) (ans.write turn) := by
  have hsend : ¬ u32Sub c.fileLength c.chunkOffset = 0 := by
    rw [u32Sub_of_le (Nat.le_of_lt pending) short]
    omega
  simp only [connectionSendFileChunk, mappedChunk, if_pos (Nat.le_of_lt pending), if_neg hsend]
  cases hopen : openFileChunk c (ans.openFile turn) with
  | none => exact Or.inl ⟨rfl, q, Or.inl rfl, rfl⟩
  | some opened =>
    obtain ⟨o, opens⟩ := opened
    obtain ⟨fd, rfl⟩ := openFileChunk_spec hopen
    have hwindow : (if needsRemap { c with fileFd := fd } (u32 (c.fileOffset + c.chunkOffset)) = true
        then remapFileChunk { c with fileFd := fd } (u32 (c.fileOffset + c.chunkOffset))
          (u32 (c.fileOffset + c.fileLength)) (ans.mmap turn)
        else ({ c with fileFd := fd }, [])) = windowedChunk ans turn { c with fileFd := fd } := rfl
    obtain ⟨hlength, hbase⟩ := windowedChunk_part ans turn { c with fileFd := fd }
    simp only [hwindow]
    generalize windowedChunk ans turn { c with fileFd := fd } = window at hlength hbase
    obtain ⟨d, moved⟩ := window
    cases hmap : d.mmapStart with
    | none =>
      exact Or.inl ⟨rfl, _, Or.inr ⟨d, rfl, hmap, hlength, hbase⟩, rfl⟩
    | some m =>
      refine Or.inr ⟨d, opens ++ moved, m, rfl, hmap, ?_⟩
      rw [List.append_assoc]
      rfl

/-- The window of an earlier call, as its chunk records it. -/
lemma OpenedAt.bounds {c : Chunk} {o : Nat} (h : OpenedAt c o) (short : c.fileLength < 4294967296) :
    c.mmapOffset % 4096 = 0 ∧
    (c.mmapOffset + 262144 < 4294967296 → c.mmapOffset + c.mmapLen ≤ c.fileLength) ∧
    (¬ c.mmapOffset + 262144 < 4294967296 → c.mmapLen = 262144) := by
  have hpage := windowPage_bounds o
  have hinside := h.inside
  rw [h.offset, h.len]
  refine ⟨hpage.1, fun low => ?_, fun high => windowLen_wrapped hinside short high⟩
  rw [windowLen_exact hinside short low]
  omega

/-- A recorded window that ends below 2^32 is kept just where it covers the offset. -/
lemma needsRemap_iff {c : Chunk} (recorded : Recorded c) (short : c.fileLength < 4294967296)
    (low : c.mmapOffset + 262144 < 4294967296) :
    needsRemap c c.chunkOffset = true ↔ ¬ Covers c := by
  rcases recorded with hnone | ⟨o, hopened⟩
  · simp [needsRemap, Covers, hnone]
  · have hend := (hopened.bounds short).2.1 low
    obtain ⟨m, hm⟩ := Option.isSome_iff_exists.mp hopened.mapped
    simp only [needsRemap, Covers, hm, Option.isNone_some, Option.isSome_some, Bool.false_or,
      Bool.or_eq_true, decide_eq_true_eq, true_and, u32_of_lt (show c.mmapOffset + c.mmapLen <
        4294967296 by omega)]
    omega

/-- The sum in the test of a recorded window, made where the window begins at or
below the offset. -/
lemma tested_exact {c : Chunk} (recorded : Recorded c) (short : c.fileLength < 4294967296)
    (pending : c.chunkOffset < c.fileLength) (low : pageInHand c + 262144 < 4294967296)
    (mapped : c.mmapStart.isSome = true) (starts : c.mmapOffset ≤ c.chunkOffset) :
    c.mmapOffset + c.mmapLen < 4294967296 := by
  rcases recorded with hnone | ⟨o, hopened⟩
  · rw [hnone] at mapped
    cases mapped
  · obtain ⟨_, hinside, hlen⟩ := hopened.bounds short
    by_cases hlow : c.mmapOffset + 262144 < 4294967296
    · exact Nat.lt_of_le_of_lt (hinside hlow) short
    · -- such a window reaches past every offset, so that it is the one in hand
      have hcovers : Covers c := ⟨mapped, starts, by rw [hlen hlow]; omega⟩
      rw [pageInHand, if_pos hcovers] at low
      exact absurd low hlow

lemma sendLength_exact {c d : Chunk} (start : c.fileOffset = 0)
    (pending : c.chunkOffset < c.fileLength) (short : c.fileLength < 4294967296)
    (starts : d.mmapOffset ≤ c.chunkOffset) (reaches : c.chunkOffset < d.mmapOffset + d.mmapLen)
    (inside : d.mmapOffset + d.mmapLen ≤ c.fileLength) :
    sendLength c d =
      min (c.fileLength - c.chunkOffset) (d.mmapOffset + d.mmapLen - c.chunkOffset) ∧
    0 < sendLength c d := by
  have hlength : sendLength c d =
      min (c.fileLength - c.chunkOffset) (d.mmapOffset + d.mmapLen - c.chunkOffset) := by
    rw [sendLength, sendOffset, start, Nat.zero_add, u32_of_lt (Nat.lt_trans pending short),
      u32Sub_of_le (Nat.le_of_lt pending) short, u32Sub_of_le (by omega) (by omega)]
    omega
  exact ⟨hlength, by omega⟩

lemma exactWindow_iff {c d : Chunk} {ans : SysAnswers} {turn : Nat} {calls : List KernelCall}
    (start : c.fileOffset = 0) (short : c.fileLength < 4294967296)
    (pending : c.chunkOffset < c.fileLength) (recorded : Recorded c)
    (reached : mappedChunk ans turn c = some (d, calls)) :
    ExactWindow c d calls ↔ pageInHand c + 262144 < 4294967296 := by
  have hoffset : sendOffset c = c.chunkOffset := by
    rw [sendOffset, start, Nat.zero_add, u32_of_lt (Nat.lt_trans pending short)]
  have hend : u32 (c.fileOffset + c.fileLength) = c.fileLength := by
    rw [start, Nat.zero_add, u32_of_lt short]
  have houtcome := mappedChunk_outcome reached
  constructor
  · intro h
    by_cases hcovers : Covers c
    · rw [pageInHand, if_pos hcovers]
      obtain ⟨hsame, _⟩ := h.reused hcovers
      by_contra high
      rcases recorded with hnone | ⟨o, hopened⟩
      · rw [Covers, hnone] at hcovers
        exact Bool.false_ne_true hcovers.1
      · have hlen := (hopened.bounds short).2.2 high
        have hinside := h.inside
        rw [hsame] at hinside
        change c.mmapOffset + c.mmapLen ≤ c.fileLength at hinside
        omega
    · rw [pageInHand, if_neg hcovers]
      have hinside := h.inside
      have hstarts := h.starts
      have hreaches := h.reaches
      cases houtcome with
      | kept fd hkept _ =>
        have hmapped : c.mmapStart.isSome = true := by
          rw [hoffset] at hkept
          simp only [needsRemap, Bool.or_eq_false_iff] at hkept
          rw [Option.isSome_iff_ne_none]
          intro hnone
          rw [hnone] at hkept
          exact Bool.noConfusion hkept.1.1
        exact absurd ⟨hmapped, hstarts, hreaches⟩ hcovers
      | moved d hremap _ _ hpage _ =>
        rw [hoffset] at hremap hpage
        have hsums := h.sums hremap
        rw [hpage] at hsums
        exact hsums
  · intro low
    have hpage := windowPage_bounds c.chunkOffset
    have htested := tested_exact recorded short pending low
    cases houtcome with
    | kept fd hkept hcalls =>
      rw [hoffset] at hkept
      rcases recorded with hnone | ⟨o, hopened⟩
      · simp [needsRemap, hnone] at hkept
      · have hcovers : Covers c := by
          by_contra hnot
          rw [pageInHand, if_neg hnot] at low
          have hle := u32_le (c.mmapOffset + c.mmapLen)
          simp only [needsRemap, Bool.or_eq_false_iff, decide_eq_false_iff_not] at hkept
          exact hnot ⟨hopened.mapped, by omega, by omega⟩
        rw [pageInHand, if_pos hcovers] at low
        obtain ⟨haligned, hinside, _⟩ := hopened.bounds short
        obtain ⟨_, hstarts, hreaches⟩ := hcovers
        obtain ⟨hlength, hpositive⟩ := sendLength_exact (d := { c with fileFd := fd }) start pending
          short hstarts hreaches (hinside low)
        exact ⟨haligned, hstarts, hreaches, hinside low, htested, fun _ => low, hlength, hpositive,
          fun _ => ⟨rfl, hcalls⟩⟩
    | moved d hremap _ _ hmoved hlen =>
      rw [hoffset] at hremap hmoved hlen
      rw [hend] at hlen
      have hnot : ¬ Covers c := by
        intro hcovers
        rw [pageInHand, if_pos hcovers] at low
        exact (needsRemap_iff recorded short low).mp hremap hcovers
      rw [pageInHand, if_neg hnot] at low
      rw [windowLen_exact pending short low] at hlen
      have hstarts : d.mmapOffset ≤ c.chunkOffset := by omega
      have hreaches : c.chunkOffset < d.mmapOffset + d.mmapLen := by omega
      have hinside : d.mmapOffset + d.mmapLen ≤ c.fileLength := by omega
      obtain ⟨hlength, hpositive⟩ := sendLength_exact start pending short hstarts hreaches hinside
      exact ⟨by omega, hstarts, hreaches, hinside, htested, fun _ => by omega, hlength, hpositive,
        fun hcovers => absurd hcovers hnot⟩

lemma farFromWrap_iff (c : Chunk) : FarFromWrap c ↔ pageInHand c + 262144 < 4294967296 := by
  obtain ⟨haligned, _, _⟩ := windowPage_bounds c.chunkOffset
  unfold FarFromWrap pageInHand
  by_cases hcovers : Covers c
  · rw [if_pos hcovers, if_pos hcovers]
    omega
  · rw [if_neg hcovers, if_neg hcovers]
    omega

/-- What `connection_writev_mem_chunk` does to the queue. -/
lemma writevMemChunk_queue {q : Chunkqueue} {answer : WriteAnswer} {t : WriteTurn}
    (h : connectionWritevMemChunk q answer = .ok t) :
    t.queue = q ∨ (∃ n, t.queue = (chunkqueueMarkWritten q n).2) ∨
      t.queue = chunkqueueRemoveFinishedChunk q := by
  obtain ⟨pieces, _, hrest⟩ := bind_eq_ok.mp h
  by_cases hnil : pieces = []
  · rw [if_pos hnil] at hrest
    cases hrest
    exact Or.inr (Or.inr rfl)
  · rw [if_neg hnil] at hrest
    cases answer with
    | fail errno =>
      cases hrest
      exact Or.inl rfl
    | accept bytes =>
      simp only at hrest
      split at hrest
      · split at hrest
        · cases hrest
        · cases hrest
          exact Or.inr (Or.inl ⟨_, rfl⟩)
      · cases hrest
        exact Or.inl rfl

/-- The file chunks of a queue, with what they record of their windows. -/
def WindowsRecorded (active : List Chunk) : Prop :=
  ∀ c ∈ active, c.chunkType = .file →
    c.fileOffset = 0 ∧ c.fileLength < 4294967296 ∧ Recorded c

/-- Marking bytes as written moves offsets and drops chunks. -/
lemma markWrittenLoop_chunks (active : List Chunk) (q : Chunkqueue) (len : Nat) :
    ∀ d ∈ (markWrittenLoop q active len).2.active, ∃ c ∈ active, ∃ o,
      d = { c with chunkOffset := o } := by
  induction active generalizing q len with
  | nil =>
    intro d hd
    cases hd
  | cons c rest ih =>
    have later : ∀ d, (∃ e ∈ rest, ∃ o, d = { e with chunkOffset := o }) →
        ∃ e ∈ c :: rest, ∃ o, d = { e with chunkOffset := o } := by
      rintro d ⟨e, he, o, rfl⟩
      exact ⟨e, List.mem_cons_of_mem _ he, o, rfl⟩
    intro d hd
    rw [markWrittenLoop] at hd
    by_cases h0 : len = 0 ∧ chunkRemainingLen c > 0
    · rw [if_pos h0] at hd
      exact ⟨d, hd, d.chunkOffset, rfl⟩
    · rw [if_neg h0] at hd
      by_cases h1 : len ≥ chunkRemainingLen c
      · rw [if_pos h1] at hd
        exact later d (ih _ _ d hd)
      · rw [if_neg h1] at hd
        rcases List.mem_cons.mp hd with rfl | hd
        · exact ⟨c, List.mem_cons_self, _, rfl⟩
        · exact later d ⟨d, hd, d.chunkOffset, rfl⟩

lemma removeFinishedLoop_chunks (active : List Chunk) (q : Chunkqueue) :
    ∀ d ∈ (removeFinishedLoop q active).active, d ∈ active := by
  induction active generalizing q with
  | nil => exact fun d hd => hd
  | cons c rest ih =>
    intro d hd
    rw [removeFinishedLoop] at hd
    by_cases hpos : chunkRemainingLen c > 0
    · rw [if_pos hpos] at hd
      exact hd
    · rw [if_neg hpos] at hd
      exact List.mem_cons_of_mem _ (ih _ d hd)

/-- `Recorded` looks at the length and the window only. -/
lemma Recorded.congr {c d : Chunk} (h : Recorded c) (length : d.fileLength = c.fileLength)
    (mapped : d.mmapStart = c.mmapStart) (offset : d.mmapOffset = c.mmapOffset)
    (len : d.mmapLen = c.mmapLen) : Recorded d := by
  rcases h with hnone | ⟨o, hopened⟩
  · exact Or.inl (by rw [mapped, hnone])
  · refine Or.inr ⟨o, ?_, ?_, ?_, ?_⟩
    · rw [length]
      exact hopened.inside
    · rw [mapped]
      exact hopened.mapped
    · rw [offset]
      exact hopened.offset
    · rw [len, length]
      exact hopened.len

lemma markWritten_recorded {q : Chunkqueue} (h : WindowsRecorded q.active) (len : Nat) :
    WindowsRecorded (chunkqueueMarkWritten q len).2.active := by
  intro d hd
  obtain ⟨c, hc, o, rfl⟩ := markWrittenLoop_chunks q.active q len d hd
  intro hfile
  obtain ⟨hstart, hshort, hrecorded⟩ := h c hc hfile
  exact ⟨hstart, hshort, hrecorded.congr rfl rfl rfl rfl⟩

/-- The window of a new mapping is one that this call has opened. -/
lemma mappedOutcome_recorded {c d : Chunk} {calls : List KernelCall} (start : c.fileOffset = 0)
    (short : c.fileLength < 4294967296) (pending : c.chunkOffset < c.fileLength)
    (recorded : Recorded c) (h : MappedOutcome c calls d) :
    d.fileOffset = 0 ∧ d.fileLength < 4294967296 ∧ Recorded d := by
  cases h with
  | kept fd _ _ =>
    exact ⟨start, short, recorded.congr rfl rfl rfl rfl⟩
  | moved d _ hsame hmapped hpage hlen =>
    have hlength : d.fileLength = c.fileLength := by rw [hsame.eq]
    have hbase : d.fileOffset = c.fileOffset := by rw [hsame.eq]
    refine ⟨hbase.trans start, by rw [hlength]; exact short, Or.inr ⟨c.chunkOffset, ?_, hmapped, ?_, ?_⟩⟩
    · rw [hlength]
      exact pending
    · rw [hpage, sendOffset, start, Nat.zero_add, u32_of_lt (Nat.lt_trans pending short)]
    · rw [hlen, hlength, sendOffset, start, Nat.zero_add, Nat.zero_add, u32_of_lt short,
        u32_of_lt (Nat.lt_trans pending short)]

lemma sendMapped_recorded {file : Bytes → Nat → UInt8} {q : Chunkqueue} {c : Chunk} {m : Mapping}
    {offset len : Nat} {answer : WriteAnswer} {t : WriteTurn} (h : WindowsRecorded q.active)
    (hsend : sendMapped file q c m offset len answer = .ok t) :
    WindowsRecorded t.queue.active := by
  unfold sendMapped at hsend
  by_cases hreach : c.mmapOffset ≤ offset
  · rw [if_pos hreach] at hsend
    cases answer with
    | fail errno =>
      cases errno <;>
      · cases hsend
        exact h
    | accept bytes =>
      cases hsend
      by_cases hn : min bytes (min len (u32Sub c.mmapLen (offset - c.mmapOffset))) > 0
      · simp only [if_pos hn]
        exact markWritten_recorded h _
      · simp only [if_neg hn]
        exact h
  · rw [if_neg hreach] at hsend
    cases hsend

theorem sendFileChunk_recorded {ans : SysAnswers} {turn : Nat} {q : Chunkqueue} {c : Chunk}
    {rest : List Chunk} {t : WriteTurn} (h : WindowsRecorded q.active)
    (head : q.active = c :: rest) (hfile : c.chunkType = .file)
    (hsend : connectionSendFileChunk ans turn q c rest = .ok t) :
    WindowsRecorded t.queue.active := by
  obtain ⟨hstart, hshort, hrecorded⟩ := h c (by rw [head]; exact List.mem_cons_self) hfile
  have hrest : ∀ d, (d.chunkType = .file → d.fileOffset = 0 ∧ d.fileLength < 4294967296 ∧
      Recorded d) → WindowsRecorded (d :: rest) := by
    intro d hd e he
    rcases List.mem_cons.mp he with rfl | he
    · exact hd
    · exact h e (by rw [head]; exact List.mem_cons_of_mem _ he)
  by_cases hpending : c.chunkOffset < c.fileLength
  · rcases sendFileChunk_mapped ans turn (q := q) rest hpending hshort with
      ⟨_, p, hp, hunsent⟩ | ⟨d, calls, m, hmapped, _, hsent⟩
    · rw [hunsent] at hsend
      cases hsend
      rcases hp with hp | ⟨d, hd, hunmapped, hlength, hbase⟩
      · rw [hp]
        exact h
      · rw [hd]
        refine hrest d fun _ => ⟨hbase.trans hstart, ?_, Or.inl hunmapped⟩
        rw [hlength]
        exact hshort
    · rw [hsent] at hsend
      exact sendMapped_recorded (hrest d fun _ => mappedOutcome_recorded hstart hshort hpending
        hrecorded (mappedChunk_outcome hmapped)) hsend
  · -- a finished file chunk, or one past its end: no turn comes back from it
    unfold connectionSendFileChunk at hsend
    by_cases hle : c.chunkOffset ≤ c.fileLength
    · have hzero : u32Sub c.fileLength c.chunkOffset = 0 := by
        rw [u32Sub_of_le hle hshort]
        omega
      simp only [if_pos hle, if_pos hzero] at hsend
      cases hsend
    · rw [if_neg hle] at hsend
      cases hsend

theorem handleWriteTurn_recorded {ans : SysAnswers} {turn : Nat} {q : Chunkqueue} {t : WriteTurn}
    (h : WindowsRecorded q.active) (hturn : connectionHandleWriteTurn ans turn q = .ok t) :
    WindowsRecorded t.queue.active := by
  unfold connectionHandleWriteTurn at hturn
  cases hactive : q.active with
  | nil =>
    rw [hactive] at hturn
    cases hturn
    exact h
  | cons c rest =>
    cases htype : c.chunkType with
    | mem =>
      simp only [hactive, htype] at hturn
      rcases writevMemChunk_queue hturn with hq | ⟨n, hq⟩ | hq
      · rw [hq]
        exact h
      · rw [hq]
        exact markWritten_recorded h n
      · rw [hq]
        exact fun d hd => h d (removeFinishedLoop_chunks q.active q d hd)
    | file =>
      simp only [hactive, htype] at hturn
      exact sendFileChunk_recorded h hactive htype hturn

/-- A call of `connection_handle_write` that finds recorded windows only, as
the first one for a response does, leaves recorded windows only. -/
theorem handleWriteLoop_recorded {ans : SysAnswers} {fuel turn : Nat} {q : Chunkqueue}
    {sent : Bytes} {t : WriteTurn} (h : WindowsRecorded q.active)
    (hloop : handleWriteLoop ans fuel turn q sent = .ok t) : WindowsRecorded t.queue.active := by
  induction fuel generalizing turn q sent with
  | zero => cases hloop
  | succ fuel ih =>
    rw [handleWriteLoop] at hloop
    by_cases hnil : q.active = []
    · rw [if_pos hnil] at hloop
      cases hloop
      exact h
    · rw [if_neg hnil] at hloop
      obtain ⟨u, hu, hrest⟩ := bind_eq_ok.mp hloop
      have hnext := handleWriteTurn_recorded h hu
      by_cases hcode : u.code ≠ 0
      · rw [if_pos hcode] at hrest
        cases hrest
        exact hnext
      · rw [if_neg hcode] at hrest
        exact ih hnext hrest

/-- A file chunk that reaches `write` does so through the window of
`mappedChunk`. That window is exact if and only if it begins in front of the
last 64 pages of 32-bit offsets. -/
theorem window_exact_iff {c d : Chunk} {ans : SysAnswers} {turn : Nat} {calls : List KernelCall}
    (q : Chunkqueue) (rest : List Chunk) (start : c.fileOffset = 0)
    (short : c.fileLength < 4294967296) (pending : c.chunkOffset < c.fileLength)
    (recorded : Recorded c) (reached : mappedChunk ans turn c = some (d, calls)) :
    (∃ m, d.mmapStart = some m ∧
      connectionSendFileChunk ans turn q c rest = sendMapped ans.file
        { q with active := d :: rest, calls := q.calls ++ calls } d m (sendOffset c)
        (u32Sub c.fileLength c.chunkOffset) (ans.write turn)) ∧
    (ExactWindow c d calls ↔ FarFromWrap c) := by
  constructor
  · rcases sendFileChunk_mapped ans turn (q := q) rest pending short with ⟨hnone, _⟩ | hsome
    · rw [reached] at hnone
      cases hnone
    · obtain ⟨e, moved, m, hmapped, hm, hsend⟩ := hsome
      rw [reached] at hmapped
      cases hmapped
      exact ⟨m, hm, hsend⟩
  · rw [exactWindow_iff start short pending recorded reached, farFromWrap_iff]

/-- A chunk of a file of 4294967295 bytes, sent up to `offset`. -/
def largeChunk (offset : Nat) : Chunk :=
  { chunkInitialize with
    chunkType := .file, fileFd := some 7, fileLength := 4294967295, chunkOffset := offset }

def mappingAnswers : SysAnswers :=
  { SysAnswers.failing with mmap := fun _ => some 4096, write := fun _ => .accept 262144 }

/-- A window is opened for the first page, and used again for the bytes that a
short write has left of it. -/
theorem window_exact_reused : ∃ t c d calls,
    handleWriteLoop { mappingAnswers with write := fun _ => .accept 100 } 1 0
      ⟨[largeChunk 0], [], []⟩ [] = .ok t ∧
    t.queue.active = [c] ∧ c.chunkOffset = 100 ∧ Covers c ∧
    mappedChunk mappingAnswers 0 c = some (d, calls) ∧ ExactWindow c d calls := by
  have hrun : (handleWriteLoop { mappingAnswers with write := fun _ => .accept 100 } 1 0
      ⟨[largeChunk 0], [], []⟩ []).toOption.any (fun t =>
        decide (t.queue.active.length = 1) && t.queue.active.all (fun c =>
          decide (c.chunkType = .file ∧ c.chunkOffset = 100 ∧ c.fileLength = 4294967295 ∧
            Covers c ∧ c.mmapOffset = 0) && (mappedChunk mappingAnswers 0 c).isSome)) = true := by
    decide +kernel
  obtain ⟨t, hloop, ht⟩ := (Option.any_eq_true _ _).mp hrun
  obtain ⟨hone, hall⟩ := Bool.and_eq_true_iff.mp ht
  obtain ⟨c, hactive⟩ := List.length_eq_one_iff.mp (of_decide_eq_true hone)
  rw [hactive, List.all_cons, List.all_nil, Bool.and_true] at hall
  obtain ⟨hchunk, hmapped⟩ := Bool.and_eq_true_iff.mp hall
  obtain ⟨hfile, hoffset, hlength, hcovers, hpage⟩ := of_decide_eq_true hchunk
  obtain ⟨⟨d, calls⟩, hd⟩ := Option.isSome_iff_exists.mp hmapped
  have hfresh : WindowsRecorded [largeChunk 0] := by
    intro e he _
    rw [List.mem_singleton.mp he]
    exact ⟨rfl, by decide, Or.inl rfl⟩
  obtain ⟨hstart, hshort, hrecorded⟩ := handleWriteLoop_recorded hfresh (toOption_eq_some hloop) c
    (by rw [hactive]; exact List.mem_cons_self) hfile
  obtain ⟨_, hexact⟩ := window_exact_iff chunkqueueInit [] hstart hshort
    (by rw [hoffset, hlength]; decide) hrecorded hd
  refine ⟨t, c, d, calls, toOption_eq_some hloop, hactive, hoffset, hcovers, hd, hexact.mpr ?_⟩
  rw [FarFromWrap, if_pos hcovers, hpage]
  decide

/-- The window at byte 4294705152 of 4294967295 is mapped with its full 64
pages, one byte more than the file has. -/
theorem window_past_the_end : ∃ d calls,
    mappedChunk mappingAnswers 0 (largeChunk 4294705152) = some (d, calls) ∧
    Recorded (largeChunk 4294705152) ∧ d.mmapOffset + d.mmapLen = d.fileLength + 1 ∧
    ¬ ExactWindow (largeChunk 4294705152) d calls := by
  have hmapped : (mappedChunk mappingAnswers 0 (largeChunk 4294705152)).any (fun window =>
      decide (window.1.mmapOffset + window.1.mmapLen = window.1.fileLength + 1)) = true := by
    decide +kernel
  obtain ⟨⟨d, calls⟩, hd, hwindow⟩ := (Option.any_eq_true _ _).mp hmapped
  refine ⟨d, calls, hd, Or.inl rfl, of_decide_eq_true hwindow, fun hexact => ?_⟩
  have hlow := (exactWindow_iff rfl (by decide) (by decide) (Or.inl rfl) hd).mp hexact
  exact absurd hlow (by decide)

end SendWindow
