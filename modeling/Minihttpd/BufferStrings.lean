import Minihttpd.BufferMemory

/-!
# Buffers stand for byte strings

Any number of buffers, and any sequence of calls on them. The calls act on the
byte strings the buffers stand for as long as no buffer is read that has not
been written to: an empty string has two representations, and of one of them
the copy and the append do not know.
-/
namespace BufferStrings

open ByteBuffer MemoryBlocks FailingRun BufferMemory

/-- A call, by the numbers of its buffers. A `char*` argument points to the
given bytes, and its length is theirs. -/
inductive BufferCall where
  | copyStringLength (b : Nat) (src : Bytes)
  | copyBuffer (des src : Nat)
  | appendStringLength (b : Nat) (string : Bytes)
  | appendBuffer (b src : Nat)
  | reset (b : Nat)
  | stringSetLength (b len : Nat)
  deriving DecidableEq, Repr

namespace BufferCall

/-- The buffer that a call changes. -/
def target : BufferCall → Nat
  | .copyStringLength b _ => b
  | .copyBuffer des _ => des
  | .appendStringLength b _ => b
  | .appendBuffer b _ => b
  | .reset b => b
  | .stringSetLength b _ => b

/-- The buffer that a call reads. -/
def source : BufferCall → Option Nat
  | .copyBuffer _ src => some src
  | .appendBuffer _ src => some src
  | _ => none

/-- What a call makes of its target. -/
def result (s : Nat → MemBuffer) : BufferCall → Except Fault MemBuffer
  | .copyStringLength b src => bufferCopyStringLength (s b) (some (src.map some)) src.length
  | .copyBuffer des src => bufferCopyBuffer (s des) (s src)
  | .appendStringLength b string =>
    bufferAppendStringLength (s b) (some (string.map some)) string.length
  | .appendBuffer b src => bufferAppendBuffer (s b) (s src)
  | .reset b => .ok (bufferReset (s b))
  | .stringSetLength b len => bufferStringSetLength (s b) len

/-- What a call means for the string of its target. -/
def meaning (t : Nat → Bytes) : BufferCall → Bytes
  | .copyStringLength _ src => src
  | .copyBuffer _ src => t src
  | .appendStringLength b string => t b ++ string
  | .appendBuffer b src => t b ++ t src
  | .reset _ => []
  | .stringSetLength b len => (t b).take len

/-- Whether the target has been written to, once it is known of all buffers. -/
def writes (w : Nat → Bool) : BufferCall → Bool
  | .appendStringLength b string => w b || !string.isEmpty
  | .reset _ => false
  | _ => true

/-- Source and destination are distinct, a length only cuts, and no string grows
to 2^32 - 64 bytes with its terminator. -/
structure Allowed (t : Nat → Bytes) (call : BufferCall) : Prop where
  distinct : call.source ≠ some call.target
  shorter : ∀ b len, call = .stringSetLength b len → len ≤ (t b).length
  fits : (call.meaning t).length + 1 < 4294967232

end BufferCall

def bufferCall (s : Nat → MemBuffer) (call : BufferCall) : Except Fault (Nat → MemBuffer) := do
  let after ← call.result s
  return Function.update s call.target after

def stringCall (t : Nat → Bytes) (call : BufferCall) : Nat → Bytes :=
  Function.update t call.target (call.meaning t)

def writtenCall (w : Nat → Bool) (call : BufferCall) : Nat → Bool :=
  Function.update w call.target (call.writes w)

/-- Every call of a sequence is allowed on the strings that stand there then. -/
def Allowed : (Nat → Bytes) → List BufferCall → Prop
  | _, [] => True
  | t, call :: rest => call.Allowed t ∧ Allowed (stringCall t call) rest

/-- Every buffer that is read has been written to. -/
def SourcesWritten : (Nat → Bool) → List BufferCall → Prop
  | _, [] => True
  | w, call :: rest =>
    (∀ src, call.source = some src → w src = true) ∧ SourcesWritten (writtenCall w call) rest

/-- Every call completes and does to the strings what it means. -/
def Refines (s : Nat → MemBuffer) (t : Nat → Bytes) (calls : List BufferCall) : Prop :=
  ∀ done rest, calls = done ++ rest →
    ∃ after, done.foldlM bufferCall s = .ok after ∧
      ∀ i, Denotes (after i) (done.foldl stringCall t i)

/-- A buffer with its string, and whether it has been written to. -/
def Related (b : MemBuffer) (text : Bytes) (written : Bool) : Prop :=
  ∃ m, Stores b m ∧ Kept m ∧ m.str = text ∧ (written = true ↔ m.data ≠ [])

lemma init_related : Related bufferInit [] false :=
  ⟨ByteBuffer.bufferInit, init_stores, init_kept, rfl,
    fun h => absurd h Bool.false_ne_true, fun h => absurd rfl h⟩

lemma Related.denotes {b : MemBuffer} {text : Bytes} {written : Bool}
    (h : Related b text written) : Denotes b text := by
  obtain ⟨m, hstores, hkept, rfl, _⟩ := h
  exact hstores.denotes hkept

lemma related_text {b : MemBuffer} {m : Buffer} {text : Bytes} (hstores : Stores b m)
    (hkept : Kept m) (hdata : m.data = text ++ [0]) : Related b text true := by
  refine ⟨m, hstores, hkept, ?_, fun _ => ?_, fun _ => rfl⟩
  · rw [Buffer.str, hdata, List.dropLast_concat]
  · rw [hdata]
    simp

section

variable {s : Nat → MemBuffer} {t : Nat → Bytes} {w : Nat → Bool}

/-- A call whose source has been written to does what it means. -/
theorem result_related (h : ∀ i, Related (s i) (t i) (w i)) {call : BufferCall}
    (allowed : call.Allowed t) (written : ∀ src, call.source = some src → w src = true) :
    ∃ after, call.result s = .ok after ∧ Related after (call.meaning t) (call.writes w) := by
  have hfits := allowed.fits
  cases call with
  | copyStringLength b src =>
    obtain ⟨m, hstores, hkept, _⟩ := h b
    have hshort : src.length + 1 < 4294967232 := hfits
    obtain ⟨after, hcopy, hcopied, hkept'⟩ :=
      copyStringLength_stores hstores hkept (holds_map src) (Nat.le_of_lt hshort)
    exact ⟨after, hcopy, related_text hcopied hkept' rfl⟩
  | copyBuffer des src =>
    obtain ⟨m, hstores, hkept, _⟩ := h des
    obtain ⟨n, hstoresS, hkeptS, hstr, hsome⟩ := h src
    obtain ⟨after, k, hcopy, _, hcopied, hkept', hdata⟩ :=
      copyBuffer_stores hstores hkept hstoresS hkeptS (hsome.mp (written src rfl))
    rw [hstr] at hdata
    exact ⟨after, hcopy, related_text hcopied hkept' hdata⟩
  | appendStringLength b string =>
    obtain ⟨m, hstores, hkept, hstr, hwritten⟩ := h b
    have hshort : (t b ++ string).length + 1 < 4294967232 := hfits
    rw [← hstr, List.length_append] at hshort
    have hused := m.length_le
    obtain ⟨after, k, happend, hmodel, happended, hkept'⟩ :=
      appendStringLength_stores hstores hkept (holds_map string) (by omega)
    cases bufferAppendString_ok hmodel
    obtain ⟨hstr', _⟩ := appended_str hkept.terminated string (by omega)
    refine ⟨after, happend, _, happended, hkept', hstr'.trans (congrArg (· ++ string) hstr), ?_⟩
    rw [BufferCall.writes, Bool.or_eq_true, hwritten]
    cases string with
    | nil =>
      rw [appended, if_pos List.length_nil]
      simp
    | cons c rest =>
      refine ⟨fun _ hnil => ?_, fun _ => Or.inr rfl⟩
      have hempty : (appended m (c :: rest)).str = [] := by
        rw [Buffer.str]
        exact congrArg List.dropLast hnil
      rw [hempty] at hstr'
      simp at hstr'
  | appendBuffer b src =>
    obtain ⟨m, hstores, hkept, hstr, _⟩ := h b
    obtain ⟨n, hstoresS, hkeptS, hstrS, hsome⟩ := h src
    have hshort : (t b ++ t src).length + 1 < 4294967232 := hfits
    rw [← hstr, ← hstrS, List.length_append] at hshort
    have hused := m.length_le
    obtain ⟨after, k, happend, _, happended, hkept', hdata⟩ :=
      appendBuffer_stores hstores hkept hstoresS hkeptS (hsome.mp (written src rfl)) (by omega)
    rw [hstr, hstrS] at hdata
    exact ⟨after, happend, related_text happended hkept' hdata⟩
  | reset b => exact ⟨bufferReset (s b), rfl, init_related⟩
  | stringSetLength b len =>
    obtain ⟨m, hstores, hkept, hstr, _⟩ := h b
    have hshorter := allowed.shorter b len rfl
    rw [← hstr] at hshorter
    obtain ⟨after, hset, hcut, hkept', hdata⟩ := stringSetLength_stores hstores hkept hshorter
    rw [hstr] at hdata
    exact ⟨after, hset, related_text hcut hkept' hdata⟩

/-- A call whose source has not been written to does not complete. -/
theorem result_unwritten (h : ∀ i, Related (s i) (t i) (w i)) {call : BufferCall} {src : Nat}
    (reads : call.source = some src) (unwritten : w src = false) :
    ∃ e, call.result s = .error e := by
  obtain ⟨n, hstoresS, hkeptS, _, hsome⟩ := h src
  have hnone : n.data = [] := by
    by_contra hne
    rw [hsome.mpr hne] at unwritten
    cases unwritten
  cases call with
  | copyBuffer des src' =>
    cases reads
    exact ⟨_, copyBuffer_unwritten hstoresS hkeptS hnone (s des)⟩
  | appendBuffer b src' =>
    cases reads
    exact appendBuffer_unwritten hstoresS hkeptS hnone (s b)
  | copyStringLength => cases reads
  | appendStringLength => cases reads
  | reset => cases reads
  | stringSetLength => cases reads

lemma call_related (h : ∀ i, Related (s i) (t i) (w i)) {call : BufferCall} {after : MemBuffer}
    (result : Related after (call.meaning t) (call.writes w)) :
    ∀ i, Related (Function.update s call.target after i) (stringCall t call i)
      (writtenCall w call i) := by
  intro i
  rw [stringCall, writtenCall]
  rcases eq_or_ne i call.target with rfl | hne
  · rw [Function.update_self, Function.update_self, Function.update_self]
    exact result
  · rw [Function.update_of_ne hne, Function.update_of_ne hne, Function.update_of_ne hne]
    exact h i

/-- From related buffers on, the calls do what they mean just in case every
buffer that is read has been written to. -/
theorem refines_from (calls : List BufferCall) (h : ∀ i, Related (s i) (t i) (w i))
    (allowed : Allowed t calls) : Refines s t calls ↔ SourcesWritten w calls := by
  induction calls generalizing s t w with
  | nil =>
    refine ⟨fun _ => trivial, fun _ done rest hsplit => ?_⟩
    obtain ⟨rfl, rfl⟩ := List.append_eq_nil_iff.mp hsplit.symm
    exact ⟨s, rfl, fun i => (h i).denotes⟩
  | cons call rest ih =>
    obtain ⟨hallowed, hrest⟩ := allowed
    constructor
    · intro hrefines
      have hwritten : ∀ src, call.source = some src → w src = true := by
        intro src hsource
        by_contra hunwritten
        obtain ⟨e, he⟩ := result_unwritten h hsource (eq_false_of_ne_true hunwritten)
        obtain ⟨after, hrun, _⟩ := hrefines [call] rest rfl
        rw [List.foldlM_cons, bufferCall, he] at hrun
        cases hrun
      obtain ⟨after, hresult, hrelated⟩ := result_related h hallowed hwritten
      refine ⟨hwritten, (ih (call_related h hrelated) hrest).mp fun done rest' hsplit => ?_⟩
      obtain ⟨final, hrun, hfinal⟩ := hrefines (call :: done) rest' (congrArg (call :: ·) hsplit)
      rw [List.foldlM_cons, bufferCall, hresult] at hrun
      exact ⟨final, hrun, hfinal⟩
    · rintro ⟨hwritten, hsources⟩
      obtain ⟨after, hresult, hrelated⟩ := result_related h hallowed hwritten
      have hlater := (ih (call_related h hrelated) hrest).mpr hsources
      rintro (_ | ⟨first, done⟩) rest' hsplit
      · exact ⟨s, rfl, fun i => (h i).denotes⟩
      · obtain ⟨rfl, hsplit'⟩ := List.cons.inj hsplit
        obtain ⟨final, hrun, hfinal⟩ := hlater done rest' hsplit'
        refine ⟨final, ?_, hfinal⟩
        rw [List.foldlM_cons, bufferCall, hresult]
        exact hrun

end

/-- Buffers from `buffer_init` refine byte strings under a sequence of calls if
and only if each buffer that is copied or appended has been written to before,
since it was initialised or reset last. -/
theorem buffers_refine_iff {calls : List BufferCall} (allowed : Allowed (fun _ => []) calls) :
    Refines (fun _ => bufferInit) (fun _ => []) calls ↔ SourcesWritten (fun _ => false) calls :=
  refines_from calls (fun _ => init_related) allowed

/-- Both representations of the empty string, appended and appended to. -/
def sampleCalls : List BufferCall :=
  [.copyStringLength 0 [71, 69, 84], .copyStringLength 1 [], .appendBuffer 1 0,
    .stringSetLength 0 2, .reset 1, .appendBuffer 1 0]

lemma sampleCalls_allowed : Allowed (fun _ => []) sampleCalls := by
  have none_cut : ∀ {call : BufferCall} {t : Nat → Bytes},
      (∀ b len, call ≠ .stringSetLength b len) →
        ∀ b len, call = .stringSetLength b len → len ≤ (t b).length :=
    fun hno b len h => absurd h (hno b len)
  refine ⟨⟨by decide, none_cut (by simp), by decide⟩,
    ⟨by decide, none_cut (by simp), by decide⟩, ⟨by decide, none_cut (by simp), by decide⟩,
    ⟨by decide, ?_, by decide⟩, ⟨by decide, none_cut (by simp), by decide⟩,
    ⟨by decide, none_cut (by simp), by decide⟩, trivial⟩
  intro b len h
  cases h
  decide

theorem buffers_refine_sample :
    Refines (fun _ => bufferInit) (fun _ => []) sampleCalls := by
  refine (buffers_refine_iff sampleCalls_allowed).mpr ?_
  simp [SourcesWritten, sampleCalls, BufferCall.source, writtenCall, BufferCall.target,
    BufferCall.writes]

/-- A buffer that nothing was written to is not the empty string for its readers:
the append runs through four gigabytes from NULL, the copy fails its assertion. -/
theorem unwritten_source_fails :
    (Allowed (fun _ => []) [.appendBuffer 0 1] ∧
      ¬ Refines (fun _ => bufferInit) (fun _ => []) [.appendBuffer 0 1]) ∧
    Allowed (fun _ => []) [.copyBuffer 0 1] ∧
      ¬ Refines (fun _ => bufferInit) (fun _ => []) [.copyBuffer 0 1] := by
  have stops : ∀ {call : BufferCall} {e : Fault}, call.result (fun _ => bufferInit) = .error e →
      ¬ Refines (fun _ => bufferInit) (fun _ => []) [call] := by
    intro call e he hrefines
    obtain ⟨after, hrun, _⟩ := hrefines [call] [] rfl
    rw [List.foldlM_cons, bufferCall, he] at hrun
    cases hrun
  have allowed : ∀ {call : BufferCall}, call.source ≠ some call.target →
      (∀ b len, call ≠ .stringSetLength b len) → (call.meaning fun _ => []).length = 0 →
        Allowed (fun _ => []) [call] :=
    fun hdistinct hno hempty => ⟨⟨hdistinct, fun b len h => absurd h (hno b len), by omega⟩, trivial⟩
  refine ⟨⟨allowed (by decide) (by simp) rfl, ?_⟩, allowed (by decide) (by simp) rfl, ?_⟩
  · exact @stops (.appendBuffer 0 1) .nullPointer rfl
  · exact @stops (.copyBuffer 0 1) .assertion rfl

end BufferStrings
