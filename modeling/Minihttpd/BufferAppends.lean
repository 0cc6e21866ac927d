import Minihttpd.ByteBuffer

/-!
# Texts put together in a buffer

An append makes room, in 32 bits and rounded up to 64 bytes, before it copies. It
goes through up to 2^32 - 66 bytes in all; beyond them the room comes out too small.
-/
namespace ByteBuffer

/-- What the functions leave of a buffer: its bytes are inside the allocation. -/
structure Buffer.Stored (b : Buffer) : Prop where
  terminated : b.Terminated
  inside : b.data.length ≤ b.size

lemma bufferInit_stored : bufferInit.Stored := ⟨bufferInit_terminated, by decide⟩

lemma Buffer.Stored.not_null {b : Buffer} (h : b.Stored) (some_text : b.str ≠ []) :
    b.isNull = false := by
  have hinside := h.inside
  have hdata : b.data.length ≠ 0 := by
    intro hnone
    rw [Buffer.str, List.length_eq_zero_iff.mp hnone] at some_text
    exact some_text rfl
  exact beq_eq_false_iff_ne.mpr (by omega)

lemma bufferCopyStringLength_stored (b : Buffer) {src : Bytes}
    (fits : src.length + 1 ≤ 4294967232) :
    (bufferCopyStringLength b src).Stored ∧ (bufferCopyStringLength b src).size ≠ 0 := by
  have hroom : src.length + 1 ≤ (bufferAllocSize b (src.length + 1)).size := by
    rw [bufferAllocSize, if_neg (Nat.succ_ne_zero _)]
    split
    · assumption
    · exact (le_bufferAlignSize fits).1
  have hsize : (bufferCopyStringLength b src).size = (bufferAllocSize b (src.length + 1)).size := by
    rw [bufferCopyStringLength, u32_of_lt (by omega)]
  refine ⟨⟨bufferCopyStringLength_terminated b (by omega), ?_⟩, by omega⟩
  rw [hsize, bufferCopyStringLength_data, List.length_append, List.length_singleton]
  exact hroom

lemma stored_text {b : Buffer} {text : Bytes} (room : text.length < b.size)
    (short : text.length < 4294967295) : Buffer.Stored { b with data := text ++ [0] } := by
  refine ⟨⟨?_, Or.inr ?_⟩, ?_⟩
  · rw [List.length_append, List.length_singleton]
    omega
  · rw [Buffer.str, List.dropLast_concat]
  · rw [List.length_append, List.length_singleton]
    exact room

/-- The room that is asked for is there, as long as its rounding does not wrap. -/
lemma prepare_room {b : Buffer} (h : b.Stored) {sizes : Nat}
    (fits : b.data.length + sizes ≤ 4294967232) :
    (bufferAppendPrepareSizes b sizes).data = b.data ∧
      b.data.length + sizes ≤ (bufferAppendPrepareSizes b sizes).size := by
  have hinside := h.inside
  have hused := h.terminated.usedBytes_eq
  rw [bufferAppendPrepareSizes]
  by_cases hroom : bufferRemainingBytes b < sizes
  · have hgrow := (le_bufferAlignSize fits).1
    rw [if_pos hroom, hused, u32_of_lt (by omega)]
    exact ⟨rfl, hgrow⟩
  · rw [if_neg hroom]
    refine ⟨rfl, ?_⟩
    rw [bufferRemainingBytes, hused] at hroom
    split at hroom
    · rw [u32Sub] at hroom
      omega
    · omega

/-- An append goes through as long as its rounding does not wrap. -/
theorem bufferAppendString_stored {b : Buffer} (h : b.Stored) (s : Bytes)
    (fits : b.data.length + s.length + 1 ≤ 4294967232) :
    bufferAppendString b s = .ok (appended b s) ∧ (appended b s).Stored := by
  rw [bufferAppendString, bufferAppendStringLength, appended]
  by_cases hs : s.length = 0
  · rw [if_pos hs, if_pos hs]
    exact ⟨rfl, h⟩
  · have hneed : u32 (s.length + 1) = s.length + 1 := u32_of_lt (by omega)
    obtain ⟨hdata, hroom⟩ := prepare_room h (show b.data.length + (s.length + 1) ≤ _ by omega)
    rw [if_neg hs, if_neg hs, hneed]
    generalize bufferAppendPrepareSizes b (s.length + 1) = p at hdata hroom
    have hused : p.usedBytes = b.data.length := by
      rw [Buffer.usedBytes, hdata]
      exact h.terminated.usedBytes_eq
    have hstore : ∀ text : Bytes, text.length ≤ b.data.length + s.length →
        storeString p text = .ok { p with data := text ++ [0] } ∧
          Buffer.Stored { p with data := text ++ [0] } := by
      intro text hlength
      exact ⟨storeString_fits (by omega), stored_text (by omega) (by omega)⟩
    dsimp only
    split
    · exact hstore s (Nat.le_add_left _ _)
    · refine hstore _ ?_
      rw [List.length_append, List.length_take, hused, hdata]
      omega

lemma bufferAlignSize_le (sizes : Nat) : bufferAlignSize sizes ≤ 4294967232 := by
  have hrequest := u32_lt (sizes + 63)
  rw [bufferAlignSize]
  omega

lemma bufferAlignSize_wraps {sizes : Nat} (last : 4294967233 ≤ sizes) (short : sizes < 4294967296) :
    bufferAlignSize sizes = 0 := by
  rw [bufferAlignSize, u32]
  omega

lemma prepare_sized {b : Buffer} (sized : b.size ≤ 4294967232) (sizes : Nat) :
    (bufferAppendPrepareSizes b sizes).size ≤ 4294967232 := by
  rw [bufferAppendPrepareSizes]
  split
  · exact bufferAlignSize_le _
  · exact sized

lemma appended_sized {b : Buffer} (sized : b.size ≤ 4294967232) (s : Bytes) :
    (appended b s).size ≤ 4294967232 := by
  rw [appended]
  split
  · exact sized
  · dsimp only
    split <;> exact prepare_sized sized _

/-- An append into too little room. -/
lemma append_short {b : Buffer} (terminated : b.Terminated) {s : Bytes} (some_bytes : s ≠ [])
    (short : (bufferAppendPrepareSizes b (u32 (s.length + 1))).size ≤
      b.data.length - 1 + s.length) : bufferAppendString b s = .error .overrun := by
  have hsome : ¬ s.length = 0 := fun hnone => some_bytes (List.length_eq_zero_iff.mp hnone)
  have hdata : ∀ n, (bufferAppendPrepareSizes b n).data = b.data := by
    intro n
    rw [bufferAppendPrepareSizes]
    split <;> rfl
  have hused : ∀ n, (bufferAppendPrepareSizes b n).usedBytes = b.data.length := by
    intro n
    rw [Buffer.usedBytes, hdata]
    exact terminated.usedBytes_eq
  rw [bufferAppendString, bufferAppendStringLength, if_neg hsome]
  simp only [bufferStringLength_eq, hused, hdata]
  split
  · rw [storeString, if_neg (by omega)]
  · rw [storeString, if_neg (by rw [List.length_append, List.length_take]; omega)]

lemma append_beyond {b : Buffer} (terminated : b.Terminated) (sized : b.size ≤ 4294967232)
    {s : Bytes} (some_bytes : s ≠ []) (large : 4294967232 ≤ b.data.length - 1 + s.length) :
    bufferAppendString b s = .error .overrun :=
  append_short terminated some_bytes (Nat.le_trans (prepare_sized sized _) large)

/-- Too much is asked for: the rounding of the room wraps to 0, or the sum does. -/
lemma prepare_short {b : Buffer} (h : b.Stored) (sized : b.size ≤ 4294967232) {n : Nat}
    (large : 4294967232 < b.data.length + n + 1) :
    (bufferAppendPrepareSizes b (u32 (n + 1))).size ≤ b.data.length - 1 + n := by
  by_cases hbeyond : 4294967232 ≤ b.data.length - 1 + n
  · exact Nat.le_trans (prepare_sized sized _) hbeyond
  · -- what is left is the one text of 2^32 - 65 bytes
    have hinside := h.inside
    have hused := h.terminated.usedBytes_eq
    have hroom : bufferRemainingBytes b < n + 1 := by
      rw [bufferRemainingBytes, hused]
      split
      · rw [u32Sub_of_le hinside (by omega)]
        omega
      · omega
    rw [bufferAppendPrepareSizes, u32_of_lt (by omega), if_pos hroom, hused, u32_of_lt (by omega)]
    change bufferAlignSize _ ≤ _
    rw [bufferAlignSize_wraps (by omega) (by omega)]
    exact Nat.zero_le _

/-- Beyond 2^32 - 65 bytes an append does not go through. -/
theorem bufferAppendString_overrun {b : Buffer} (h : b.Stored) (sized : b.size ≤ 4294967232)
    {s : Bytes} (some_bytes : s ≠ []) (large : 4294967232 < b.data.length + s.length + 1) :
    bufferAppendString b s = .error .overrun :=
  append_short h.terminated some_bytes (prepare_short h sized large)

/-- Which appends go through, for the bytes of an allocation and for more bytes
than one can have. -/
theorem append_iff {b : Buffer} (terminated : b.Terminated) (sized : b.size ≤ 4294967232)
    (inside : b.data.length ≤ b.size ∨ 4294967232 < b.data.length) (s : Bytes) :
    (∃ after, bufferAppendString b s = .ok after) ↔
      s = [] ∨ b.data.length + s.length + 1 ≤ 4294967232 := by
  by_cases hnone : s = []
  · subst hnone
    exact iff_of_true ⟨b, rfl⟩ (Or.inl rfl)
  · by_cases hfits : b.data.length + s.length + 1 ≤ 4294967232
    · have hstored : b.Stored := ⟨terminated, by omega⟩
      exact iff_of_true ⟨_, (bufferAppendString_stored hstored s hfits).1⟩ (Or.inr hfits)
    · have hoverrun : bufferAppendString b s = .error .overrun := by
        rcases inside with hinside | hbeyond
        · exact bufferAppendString_overrun ⟨terminated, hinside⟩ sized hnone
            (Nat.lt_of_not_le hfits)
        · exact append_beyond terminated sized hnone (by omega)
      rw [hoverrun]
      refine iff_of_false ?_ (fun h => h.elim hnone hfits)
      rintro ⟨_, h⟩
      cases h

/-- A text that is put together in a buffer, within four gigabytes. -/
theorem bufferAppendStrings_stored {b : Buffer} (h : b.Stored) (parts : List Bytes)
    (fits : b.str.length + parts.flatten.length + 2 ≤ 4294967232) :
    bufferAppendStrings b parts = .ok (appendedAll b parts) ∧ (appendedAll b parts).Stored := by
  induction parts generalizing b with
  | nil => exact ⟨rfl, h⟩
  | cons s rest ih =>
    rw [List.flatten_cons, List.length_append] at fits
    have hdata := b.length_le
    obtain ⟨happend, hstored⟩ := bufferAppendString_stored h s (by omega)
    obtain ⟨hstr, _⟩ := appended_str h.terminated s (by omega)
    obtain ⟨hrest, hlast⟩ := ih hstored (by rw [hstr, List.length_append]; omega)
    refine ⟨?_, hlast⟩
    rw [bufferAppendStrings, List.foldlM_cons, happend]
    exact hrest

/-- A string is appended as a buffer. -/
theorem bufferAppendBuffer_stored {b src : Buffer} {text : Bytes} (h : b.Stored)
    (data : src.data = text ++ [0]) (fits : b.data.length + text.length + 1 ≤ 4294967232) :
    ∃ after, bufferAppendBuffer b src = .ok after ∧ after.Stored ∧
      after.data = b.str ++ text ++ [0] := by
  have hsource : src.usedBytes = text.length + 1 := by
    rw [Buffer.usedBytes, data, List.length_append, List.length_singleton, u32_of_lt (by omega)]
  have htake : src.data.take (text.length + 1 - 1) = text := by
    rw [data, Nat.add_sub_cancel, List.take_left]
  obtain ⟨hdata, hroom⟩ := prepare_room h (show b.data.length + (text.length + 1) ≤ _ by omega)
  rw [bufferAppendBuffer, hsource, if_neg (Nat.succ_ne_zero _), htake]
  generalize bufferAppendPrepareSizes b (text.length + 1) = p at hdata hroom
  have hused : p.usedBytes = b.data.length := by
    rw [Buffer.usedBytes, hdata]
    exact h.terminated.usedBytes_eq
  have hfront : p.data.take (p.usedBytes - 1) = b.str := by
    rw [hused, hdata, Buffer.str, List.dropLast_eq_take]
  rw [hfront]
  have hstr : b.str.length = b.data.length - 1 := by
    rw [Buffer.str, List.length_dropLast]
  have hstore : ∀ whole : Bytes, whole.length ≤ b.data.length + text.length →
      storeString p whole = .ok { p with data := whole ++ [0] } ∧
        Buffer.Stored { p with data := whole ++ [0] } := by
    intro whole hlength
    exact ⟨storeString_fits (by omega), stored_text (by omega) (by omega)⟩
  split
  · rename_i hempty
    have hnone : b.str = [] := by
      rw [bufferIsEmpty, hused, beq_iff_eq] at hempty
      exact List.length_eq_zero_iff.mp (by omega)
    obtain ⟨hok, hstored⟩ := hstore text (Nat.le_add_left _ _)
    rw [hnone, List.nil_append]
    exact ⟨_, hok, hstored, rfl⟩
  · obtain ⟨hok, hstored⟩ := hstore (b.str ++ text) (by rw [List.length_append]; omega)
    exact ⟨_, hok, hstored, rfl⟩

lemma bufferAppendBuffer_overrun {b src : Buffer} {text : Bytes} (h : b.Stored)
    (sized : b.size ≤ 4294967232) (data : src.data = text ++ [0]) (terminated : src.Terminated)
    (large : 4294967232 < b.data.length + text.length + 1) :
    bufferAppendBuffer b src = .error .overrun := by
  have hlength : src.data.length = text.length + 1 := by
    rw [data, List.length_append, List.length_singleton]
  have hsource : src.usedBytes = text.length + 1 := terminated.usedBytes_eq.trans hlength
  have hneed : u32 (text.length + 1) = text.length + 1 := by
    rw [← hlength]
    exact u32_of_lt terminated.short
  have htake : src.data.take (text.length + 1 - 1) = text := by
    rw [data, Nat.add_sub_cancel, List.take_left]
  have hshort := prepare_short h sized large
  have hdata : (bufferAppendPrepareSizes b (text.length + 1)).data = b.data := by
    rw [bufferAppendPrepareSizes]
    split <;> rfl
  rw [hneed] at hshort
  rw [bufferAppendBuffer, hsource, if_neg (Nat.succ_ne_zero _), htake]
  generalize bufferAppendPrepareSizes b (text.length + 1) = p at hdata hshort
  have hused : p.usedBytes = b.data.length := by
    rw [Buffer.usedBytes, hdata]
    exact h.terminated.usedBytes_eq
  split
  · rename_i hempty
    rw [bufferIsEmpty, hused, beq_iff_eq] at hempty
    rw [storeString, if_neg (by omega)]
  · rw [storeString, if_neg (by rw [List.length_append, List.length_take, hused, hdata]; omega)]

/-- A buffer that a text was put together in. -/
structure Buffer.Held (b : Buffer) (text : Bytes) : Prop where
  stored : b.Stored
  sized : b.size ≤ 4294967232
  str : b.str = text

lemma bufferInit_held : bufferInit.Held [] := ⟨bufferInit_stored, by decide, rfl⟩

lemma copied_sized (src : Bytes) : (bufferCopyStringLength bufferInit src).size ≤ 4294967232 := by
  have hsize : ∀ sizes, (bufferAllocSize bufferInit sizes).size ≤ 4294967232 := by
    intro sizes
    rw [bufferAllocSize]
    generalize (if sizes = 0 then 1 else sizes) = request
    split
    · decide
    · exact bufferAlignSize_le request
  exact hsize _

lemma bufferCopy_held {src : Bytes} (fits : src.length + 1 ≤ 4294967232) :
    (bufferCopyStringLength bufferInit src).Held src :=
  ⟨(bufferCopyStringLength_stored bufferInit fits).1, copied_sized src,
    bufferCopyStringLength_str _ _⟩

lemma appendBuffer_size {b src after : Buffer} (h : bufferAppendBuffer b src = .ok after) :
    after.size = (bufferAppendPrepareSizes b src.usedBytes).size := by
  simp only [bufferAppendBuffer] at h
  split at h
  · cases h
  · split at h <;> rw [storeString_ok h]

section Held
variable {b after : Buffer} {text : Bytes}

lemma Buffer.Held.length (h : b.Held text) :
    b.data.length ≤ text.length + 1 ∧ (text ≠ [] → b.data.length = text.length + 1) := by
  have hlength := congrArg List.length h.str
  rw [Buffer.str, List.length_dropLast] at hlength
  refine ⟨by omega, fun hsome => ?_⟩
  have hpos := List.length_pos_iff.mpr hsome
  omega

lemma Buffer.Held.append (h : b.Held text) (s : Bytes)
    (fits : text.length + s.length + 2 ≤ 4294967232) :
    ∃ after, bufferAppendString b s = .ok after ∧ after.Held (text ++ s) := by
  have hlength := h.length.1
  obtain ⟨hok, hstored⟩ := bufferAppendString_stored h.stored s (by omega)
  obtain ⟨hstr, _⟩ := appended_str h.stored.terminated s (by rw [h.str]; omega)
  exact ⟨_, hok, hstored, appended_sized h.sized s, by rw [hstr, h.str]⟩

/-- Nothing but a text below 2^32 - 65 bytes comes of an append to some bytes. -/
lemma Buffer.Held.append_ok (h : b.Held text) {s : Bytes}
    (ok : bufferAppendString b s = .ok after) : after.Held (text ++ s) ∧
      (text ≠ [] → s ≠ [] → text.length + s.length + 2 ≤ 4294967232) := by
  by_cases hnone : s = []
  · subst hnone
    cases ok
    rw [List.append_nil]
    exact ⟨h, fun _ hsome => absurd rfl hsome⟩
  · have hlength := h.length
    have hfits : b.data.length + s.length + 1 ≤ 4294967232 := by
      by_contra hlarge
      rw [bufferAppendString_overrun h.stored h.sized hnone (Nat.lt_of_not_le hlarge)] at ok
      cases ok
    obtain ⟨hok, hstored⟩ := bufferAppendString_stored h.stored s hfits
    obtain ⟨hstr, _⟩ := appended_str h.stored.terminated s (by
      rw [Buffer.str, List.length_dropLast]
      omega)
    cases hok.symm.trans ok
    refine ⟨⟨hstored, appended_sized h.sized s, by rw [hstr, h.str]⟩, fun hsome _ => ?_⟩
    have := hlength.2 hsome
    omega

lemma Buffer.Held.appends (h : b.Held text) (parts : List Bytes)
    (fits : text.length + parts.flatten.length + 2 ≤ 4294967232) :
    ∃ after, bufferAppendStrings b parts = .ok after ∧ after.Held (text ++ parts.flatten) := by
  induction parts generalizing b text with
  | nil => exact ⟨b, rfl, by rw [List.flatten_nil, List.append_nil]; exact h⟩
  | cons s rest ih =>
    rw [List.flatten_cons, List.length_append] at fits
    obtain ⟨mid, hmid, hheld⟩ := h.append s (by omega)
    obtain ⟨after, hafter, hlast⟩ := ih hheld (by rw [List.length_append]; omega)
    refine ⟨after, ?_, by rw [List.flatten_cons, ← List.append_assoc]; exact hlast⟩
    rw [bufferAppendStrings, List.foldlM_cons, hmid]
    exact hafter

lemma Buffer.Held.appends_ok (h : b.Held text) {parts : List Bytes}
    (ok : bufferAppendStrings b parts = .ok after) : after.Held (text ++ parts.flatten) ∧
      (text ≠ [] → parts.flatten ≠ [] →
        text.length + parts.flatten.length + 2 ≤ 4294967232) := by
  induction parts generalizing b text with
  | nil =>
    cases ok
    rw [List.flatten_nil, List.append_nil]
    exact ⟨h, fun _ hsome => absurd rfl hsome⟩
  | cons s rest ih =>
    rw [bufferAppendStrings, List.foldlM_cons] at ok
    cases hmid : bufferAppendString b s with
    | error e =>
      rw [hmid] at ok
      cases ok
    | ok mid =>
      rw [hmid] at ok
      obtain ⟨hheld, hfirst⟩ := h.append_ok hmid
      obtain ⟨hlast, hrest⟩ := ih hheld ok
      rw [List.flatten_cons, ← List.append_assoc]
      refine ⟨hlast, fun hsome hparts => ?_⟩
      by_cases hnone : rest.flatten = []
      · rw [hnone, List.append_nil] at hparts ⊢
        exact hfirst hsome hparts
      · have hbound := hrest (List.append_ne_nil_of_left_ne_nil hsome s) hnone
        rw [List.length_append] at hbound ⊢
        omega

lemma Buffer.Held.appendBuffer (h : b.Held text) {src : Buffer} {s : Bytes}
    (data : src.data = s ++ [0]) (fits : text.length + s.length + 2 ≤ 4294967232) :
    ∃ after, bufferAppendBuffer b src = .ok after ∧ after.Held (text ++ s) := by
  have hlength := h.length.1
  obtain ⟨after, hok, hstored, hdata⟩ := bufferAppendBuffer_stored h.stored data (by omega)
  refine ⟨after, hok, hstored, ?_, by rw [Buffer.str, hdata, List.dropLast_concat, h.str]⟩
  rw [appendBuffer_size hok]
  exact prepare_sized h.sized _

lemma Buffer.Held.appendBuffer_ok (h : b.Held text) (some_text : text ≠ []) {src : Buffer}
    {s : Bytes} (data : src.data = s ++ [0]) (terminated : src.Terminated)
    (ok : bufferAppendBuffer b src = .ok after) :
    after.Held (text ++ s) ∧ text.length + s.length + 2 ≤ 4294967232 := by
  have hlength := h.length.2 some_text
  have hfits : b.data.length + s.length + 1 ≤ 4294967232 := by
    by_contra hlarge
    rw [bufferAppendBuffer_overrun h.stored h.sized data terminated
      (Nat.lt_of_not_le hlarge)] at ok
    cases ok
  obtain ⟨made, hok, hheld⟩ := h.appendBuffer data (show text.length + s.length + 2 ≤ _ by omega)
  cases hok.symm.trans ok
  exact ⟨hheld, by omega⟩

end Held

/-- A text is put together in a new buffer, which can be copied then. -/
theorem bufferAppendStrings_init (des : Buffer) {parts : List Bytes}
    (some_text : parts.flatten ≠ [])
    (fits : parts.flatten.length + 2 ≤ 4294967232) :
    bufferAppendStrings bufferInit parts = .ok (appendedAll bufferInit parts) ∧
      ∃ b, bufferCopyBuffer des (appendedAll bufferInit parts) = .ok b := by
  have hempty : bufferInit.str.length = 0 := rfl
  obtain ⟨happends, hstored⟩ := bufferAppendStrings_stored bufferInit_stored parts (by omega)
  obtain ⟨hstr, _⟩ := appendedAll_str bufferInit_terminated parts (by omega)
  rw [bufferInit_str, List.nil_append] at hstr
  refine ⟨happends, ?_⟩
  rw [bufferCopyBuffer, hstored.not_null (hstr ▸ some_text)]
  exact ⟨_, rfl⟩

end ByteBuffer
