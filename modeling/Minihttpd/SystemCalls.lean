import Minihttpd.ByteBuffer

/-!
# Answers of the system calls

The source runs against Linux. Every call it makes is answered by a value of
these types, chosen freely by the environment. A transfer is answered by what
is on offer, and the model cuts it down to what was asked for, so that no
answer has to be ruled out by a hypothesis.
-/
namespace SystemCalls

open ByteBuffer

inductive Errno where
  | eintr
  | eagain
  | epipe
  | econnreset
  | eacces
  | enoent
  | other
  deriving DecidableEq, Repr

/-- `epoll` event bits, and the bits of `EPOLLRDHUP` and the like as one. -/
structure EventMask where
  epollin : Bool
  epollout : Bool
  epollerr : Bool
  epollhup : Bool
  other : Bool
  deriving DecidableEq, Repr

namespace EventMask

def none : EventMask := ⟨false, false, false, false, false⟩
def input : EventMask := ⟨true, false, false, false, false⟩
def output : EventMask := ⟨false, true, false, false, false⟩

/-- `events | EPOLLERR | EPOLLHUP`, what the source hands to `epoll_ctl`. -/
def withErrors (m : EventMask) : EventMask := { m with epollerr := true, epollhup := true }

end EventMask

/-- `read()`: the bytes the socket has to give, none at the end of file. -/
inductive ReadAnswer where
  | fail (errno : Errno)
  | data (available : Bytes)
  deriving DecidableEq, Repr

/-- `write()` and `writev()`: how many bytes the socket is willing to take. -/
inductive WriteAnswer where
  | fail (errno : Errno)
  | accept (bytes : Nat)
  deriving DecidableEq, Repr

/-- One transfer moves at most this many bytes (the documented `0x7ffff000`). -/
def maxTransfer : Nat := 2147479552

inductive FileKind where
  | regular
  | directory
  | other
  deriving DecidableEq, Repr

/-- The fields of `struct stat` the source reads. -/
structure Stat where
  kind : FileKind
  size : Nat
  mtime : Int
  deriving DecidableEq, Repr

inductive StatAnswer where
  | fail (errno : Errno)
  | found (s : Stat)
  deriving DecidableEq, Repr

/-- One `readdir()` entry together with what `stat()` says of its path. -/
structure Dirent where
  name : Bytes
  stat : StatAnswer
  deriving DecidableEq, Repr

def isDateByte (c : UInt8) : Bool :=
  (48 ≤ c && c ≤ 57) || c == 45 || c == 58 || c == 32

/-- What `strftime` writes for "%Y-%m-%d %H:%M:%S" into a buffer of 128 bytes. -/
structure DateText where
  text : Bytes
  plain : ∀ c ∈ text, isDateByte c = true
  short : text.length < 128

/-- The answers to the calls made while one state of a connection is handled.
Each call site is passed at most once there, except for those of the write
loop, whose answers are numbered by the loop's turns. -/
structure SysAnswers where
  time : Int
  fionread : Option (Fin 2147483648)
  read : ReadAnswer
  shutdown : Bool
  stat : StatAnswer
  opendir : Option (List Dirent)
  /-- the current time, as the head of a response shows it -/
  date : DateText
  /-- a time of modification as text, none where `localtime` gives NULL -/
  localtime : Int → Option DateText
  write : Nat → WriteAnswer
  openFile : Nat → Option Nat
  mmap : Nat → Option Nat
  /-- the contents of the files, by path and position -/
  file : Bytes → Nat → UInt8

/-- An environment in which every call fails, to replace single answers of. -/
def SysAnswers.failing : SysAnswers where
  time := 0
  fionread := none
  read := .fail .eagain
  shutdown := false
  stat := .fail .enoent
  opendir := none
  date := ⟨asciiBytes "1970-01-01 00:00:00", by decide +kernel, by decide +kernel⟩
  localtime := fun _ => none
  write := fun _ => .fail .eagain
  openFile := fun _ => none
  mmap := fun _ => none
  file := fun _ _ => 0

/-- `need_read_bytes` after the FIONREAD block. -/
def SysAnswers.needReadBytes (ans : SysAnswers) : Nat :=
  match ans.fionread with
  | none => 1024
  | some n => if n.val = 0 ∨ n.val < 1024 then 1024 else n.val

lemma needReadBytes_bounds (ans : SysAnswers) :
    1024 ≤ ans.needReadBytes ∧ ans.needReadBytes < 2147483648 := by
  unfold SysAnswers.needReadBytes
  cases ans.fionread with
  | none => exact ⟨by decide, by decide⟩
  | some n =>
    have hn := n.isLt
    by_cases h : n.val = 0 ∨ n.val < 1024
    · simp only [if_pos h]
      omega
    · simp only [if_neg h]
      omega

end SystemCalls
