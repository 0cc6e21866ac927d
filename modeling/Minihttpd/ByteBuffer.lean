import Mathlib.Data.List.Basic
import Mathlib.Tactic.Lemma

/-!
# Byte buffers

`buffer.cpp`. A buffer keeps the first `used_bytes` bytes found at `ptr`, the
terminating NUL included, and the size of the allocation. Sizes are computed
in 32 bits, as the source does. Bytes past `used_bytes` are not represented.
Appended bytes have to fit the allocation they are copied into. The other
operations keep every byte they are given, and `usedBytes ≤ size` is the property
that tells whether those fit.
-/
namespace ByteBuffer

abbrev Bytes := List UInt8

/-- The ways in which the program stops instead of returning: a failed
`assert`, one of the table of connections or of the event array apart, a NULL or
wild pointer, an access outside an object, a copy that does not fit the
allocation it is made into, a chunk pushed to the idle list while it is still
linked, and a loop cut by its fuel. -/
inductive Fault where
  | assertion
  | registration
  | nullPointer
  | outOfBounds
  | overrun
  | danglingChunk
  | outOfFuel
  deriving DecidableEq, Repr

def u32 (n : Nat) : Nat := n % 4294967296

def u32Sub (a b : Nat) : Nat := (a + 4294967296 - b) % 4294967296

/-- The bytes of a string literal of the source. -/
def asciiBytes (s : String) : Bytes := s.toList.map (fun c => c.toNat.toUInt8)

/-- The string a `char*` denotes: the bytes in front of the first NUL. -/
def cString (memory : Bytes) : Bytes := memory.takeWhile (fun c => c != 0)

structure Buffer where
  data : Bytes
  size : Nat
  deriving DecidableEq, Repr

namespace Buffer

/-- `ptr` is NULL exactly until something has been allocated. -/
def isNull (b : Buffer) : Bool := b.size == 0

def usedBytes (b : Buffer) : Nat := u32 b.data.length

/-- The byte string a buffer stands for, its terminator dropped. -/
def str (b : Buffer) : Bytes := b.data.dropLast

/-- What every operation on a buffer of fewer than 2^32 bytes leaves behind. -/
structure Terminated (b : Buffer) : Prop where
  short : b.data.length < 4294967296
  ending : b.data = [] ∨ b.data = b.str ++ [0]

end Buffer

def bufferInit : Buffer := ⟨[], 0⟩

def bufferReset (_ : Buffer) : Buffer := ⟨[], 0⟩

def bufferStringLength (b : Buffer) : Nat :=
  if b.usedBytes > 0 then b.usedBytes - 1 else 0

/-- The `buffer_string_length` bytes of a buffer. -/
def bufferString (b : Buffer) : Bytes := b.data.take (bufferStringLength b)

def bufferRemainingBytes (b : Buffer) : Nat :=
  if b.usedBytes > 0 then u32Sub b.size b.usedBytes else b.size

def bufferAlignSize (sizes : Nat) : Nat := u32 (sizes + 63) / 64 * 64

def bufferAllocSize (b : Buffer) (sizes : Nat) : Buffer :=
  let sizes := if sizes = 0 then 1 else sizes
  if b.size ≥ sizes then b else ⟨[], bufferAlignSize sizes⟩

def bufferCopyStringLength (b : Buffer) (src : Bytes) : Buffer :=
  let b := bufferAllocSize b (u32 (src.length + 1))
  { b with data := src ++ [0] }

/-- `src` is the string in front of the NUL, so `strlen(src)` is its length. -/
def bufferCopyString (b : Buffer) (src : Bytes) : Buffer := bufferCopyStringLength b src

def bufferIsEmpty (b : Buffer) : Bool := b.usedBytes == 0

def bufferAppendPrepareSizes (b : Buffer) (sizes : Nat) : Buffer :=
  if bufferRemainingBytes b < sizes then
    { b with size := bufferAlignSize (u32 (b.usedBytes + sizes)) }
  else b

/-- `memcpy` of the text and the NUL behind it into the `size` bytes at `ptr`. A
size that was rounded to 0 leaves none: `realloc(ptr, 0)` frees the memory. -/
def storeString (b : Buffer) (text : Bytes) : Except Fault Buffer :=
  if text.length < b.size then .ok { b with data := text ++ [0] } else .error .overrun

def bufferAppendStringLength (b : Buffer) (string : Bytes) : Except Fault Buffer :=
  if string.length = 0 then .ok b
  else
    let b := bufferAppendPrepareSizes b (u32 (string.length + 1))
    if bufferStringLength b = 0 then storeString b string
    else storeString b (b.data.take (b.usedBytes - 1) ++ string)

def bufferAppendString (b : Buffer) (string : Bytes) : Except Fault Buffer :=
  bufferAppendStringLength b string

/-- Consecutive `buffer_append_string` calls on one buffer. -/
def bufferAppendStrings (b : Buffer) (strings : List Bytes) : Except Fault Buffer :=
  strings.foldlM bufferAppendString b

/-- An empty source makes `src->used_bytes - 1` wrap: memcpy then runs through
four gigabytes. -/
def bufferAppendBuffer (b src : Buffer) : Except Fault Buffer :=
  let b := bufferAppendPrepareSizes b src.usedBytes
  if src.usedBytes = 0 then .error .outOfBounds
  else if bufferIsEmpty b then storeString b (src.data.take (src.usedBytes - 1))
  else storeString b (b.data.take (b.usedBytes - 1) ++ src.data.take (src.usedBytes - 1))

/-- `buffer_copy_string_length` asserts that the source pointer is not NULL. -/
def bufferCopyBuffer (des src : Buffer) : Except Fault Buffer :=
  if src.isNull then .error .assertion
  else .ok (bufferCopyStringLength des (bufferString src))

/-- The callers only shorten: where `len` is past the string, the bytes in
between are indeterminate and stand here as NULs. -/
def bufferStringSetLength (b : Buffer) (len : Nat) : Buffer :=
  let size := if b.size < u32 (len + 1) then bufferAlignSize (u32 (len + 1)) else b.size
  ⟨(b.data ++ List.replicate (len - b.data.length) 0).take len ++ [0], size⟩

lemma Buffer.take_str (b : Buffer) : b.data.take b.str.length = b.str := by
  rw [Buffer.str, List.length_dropLast, ← List.dropLast_eq_take]

lemma Buffer.length_le (b : Buffer) : b.data.length ≤ b.str.length + 1 := by
  rw [Buffer.str, List.length_dropLast]
  omega

lemma u32_lt (n : Nat) : u32 n < 4294967296 := Nat.mod_lt _ (by decide)

lemma u32_of_lt {n : Nat} (h : n < 4294967296) : u32 n = n := Nat.mod_eq_of_lt h

lemma u32Sub_of_le {a b : Nat} (hb : b ≤ a) (ha : a < 4294967296) : u32Sub a b = a - b := by
  unfold u32Sub
  omega

lemma usedBytes_lt (b : Buffer) : b.usedBytes < 4294967296 := u32_lt _

lemma bufferStringLength_eq (b : Buffer) : bufferStringLength b = b.usedBytes - 1 := by
  unfold bufferStringLength
  split <;> omega

lemma bufferStringLength_lt (b : Buffer) : bufferStringLength b < 4294967295 := by
  have h := usedBytes_lt b
  rw [bufferStringLength_eq]
  omega

/-- The rounding reaches at least the request, up to the last 64 sizes. -/
lemma le_bufferAlignSize {sizes : Nat} (h : sizes ≤ 4294967232) :
    sizes ≤ bufferAlignSize sizes ∧ bufferAlignSize sizes < sizes + 64 := by
  unfold bufferAlignSize
  rw [u32_of_lt (by omega)]
  omega

@[simp] lemma bufferInit_str : bufferInit.str = [] := rfl

lemma bufferInit_terminated : bufferInit.Terminated := ⟨by decide, Or.inl rfl⟩

@[simp] lemma bufferCopyStringLength_data (b : Buffer) (src : Bytes) :
    (bufferCopyStringLength b src).data = src ++ [0] := rfl

@[simp] lemma bufferCopyStringLength_str (b : Buffer) (src : Bytes) :
    (bufferCopyStringLength b src).str = src := by
  simp [Buffer.str]

lemma bufferCopyStringLength_terminated (b : Buffer) {src : Bytes}
    (h : src.length < 4294967295) : (bufferCopyStringLength b src).Terminated :=
  ⟨by simp; omega, Or.inr (by simp)⟩

lemma Buffer.Terminated.usedBytes_eq {b : Buffer} (h : b.Terminated) :
    b.usedBytes = b.data.length := u32_of_lt h.short

lemma Buffer.Terminated.stringLength_eq {b : Buffer} (h : b.Terminated) :
    bufferStringLength b = b.str.length := by
  rw [bufferStringLength_eq, h.usedBytes_eq, Buffer.str, List.length_dropLast]

lemma Buffer.Terminated.take_stringLength {b : Buffer} (h : b.Terminated) :
    bufferString b = b.str := by
  rw [bufferString, bufferStringLength_eq, h.usedBytes_eq, Buffer.str, List.dropLast_eq_take]

/-- What an append that fits leaves behind. -/
def appended (b : Buffer) (string : Bytes) : Buffer :=
  if string.length = 0 then b
  else
    let b := bufferAppendPrepareSizes b (u32 (string.length + 1))
    if bufferStringLength b = 0 then { b with data := string ++ [0] }
    else { b with data := b.data.take (b.usedBytes - 1) ++ string ++ [0] }

def appendedAll (b : Buffer) (strings : List Bytes) : Buffer := strings.foldl appended b

lemma storeString_fits {b : Buffer} {text : Bytes} (room : text.length < b.size) :
    storeString b text = .ok { b with data := text ++ [0] } := if_pos room

lemma storeString_ok {b after : Buffer} {text : Bytes} (h : storeString b text = .ok after) :
    after = { b with data := text ++ [0] } := by
  rw [storeString] at h
  split at h <;> cases h
  rfl

lemma bufferAppendString_ok {b after : Buffer} {string : Bytes}
    (h : bufferAppendString b string = .ok after) : after = appended b string := by
  rw [bufferAppendString, bufferAppendStringLength] at h
  rw [appended]
  by_cases hnone : string.length = 0
  · rw [if_pos hnone] at h ⊢
    cases h
    rfl
  · rw [if_neg hnone] at h ⊢
    dsimp only at h ⊢
    split at h
    · rename_i hempty
      rw [if_pos hempty, storeString_ok h]
    · rename_i hsome
      rw [if_neg hsome, storeString_ok h]

lemma bufferAppendStrings_ok {b after : Buffer} {strings : List Bytes}
    (h : bufferAppendStrings b strings = .ok after) : after = appendedAll b strings := by
  induction strings generalizing b with
  | nil =>
    cases h
    rfl
  | cons s rest ih =>
    rw [bufferAppendStrings, List.foldlM_cons] at h
    cases happend : bufferAppendString b s with
    | error e =>
      rw [happend] at h
      cases h
    | ok mid =>
      rw [happend] at h
      cases bufferAppendString_ok happend
      exact ih h

/-- Appending acts on the string as concatenation while the total fits 32 bits. -/
lemma appended_str {b : Buffer} (h : b.Terminated) (s : Bytes)
    (fits : b.str.length + s.length + 1 < 4294967296) :
    (appended b s).str = b.str ++ s ∧ (appended b s).Terminated := by
  unfold appended
  by_cases hs : s.length = 0
  · have he : s = [] := List.length_eq_zero_iff.mp hs
    subst he
    simpa using h
  · have hprep : ∀ n, (bufferAppendPrepareSizes b n).data = b.data := by
      intro n
      unfold bufferAppendPrepareSizes
      split <;> rfl
    have hlen : ∀ n, bufferStringLength (bufferAppendPrepareSizes b n) = b.str.length := by
      intro n
      rw [← h.stringLength_eq, bufferStringLength_eq, bufferStringLength_eq]
      simp only [Buffer.usedBytes, hprep]
    have htake : ∀ n, b.data.take ((bufferAppendPrepareSizes b n).usedBytes - 1) = b.str := by
      intro n
      rw [← bufferStringLength_eq, hlen, ← h.stringLength_eq]
      exact h.take_stringLength
    simp only [if_neg hs]
    by_cases hz : b.str.length = 0
    · have hnil : b.str = [] := List.length_eq_zero_iff.mp hz
      rw [if_pos (by rw [hlen]; exact hz), hnil]
      exact ⟨by simp [Buffer.str], ⟨by simp; omega, Or.inr (by simp [Buffer.str])⟩⟩
    · rw [if_neg (by rw [hlen]; exact hz)]
      simp only [hprep, htake]
      refine ⟨by simp [Buffer.str], ⟨by simp; omega, Or.inr (by simp [Buffer.str])⟩⟩

/-- The string built by consecutive appends. -/
theorem appendedAll_str {b : Buffer} (h : b.Terminated) (parts : List Bytes)
    (fits : b.str.length + parts.flatten.length + 1 < 4294967296) :
    (appendedAll b parts).str = b.str ++ parts.flatten ∧
      (appendedAll b parts).Terminated := by
  induction parts generalizing b with
  | nil => exact ⟨by simp [appendedAll], h⟩
  | cons s rest ih =>
    simp only [List.flatten_cons, List.length_append] at fits
    obtain ⟨hstr, hterm⟩ := appended_str h s (by omega)
    have hrest := ih hterm (by rw [hstr, List.length_append]; omega)
    rw [hstr] at hrest
    simpa [appendedAll] using hrest

/-- A successful copy holds a string that a 32-bit length can measure. -/
lemma bufferCopyBuffer_ok {des src b : Buffer} (h : bufferCopyBuffer des src = .ok b) :
    b.Terminated ∧ b.str = bufferString src := by
  unfold bufferCopyBuffer at h
  split at h
  · cases h
  · cases h
    have hlt := bufferStringLength_lt src
    exact ⟨bufferCopyStringLength_terminated _ (by rw [bufferString, List.length_take]; omega),
      by simp⟩

end ByteBuffer
