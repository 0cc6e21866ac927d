import Mathlib.Logic.Function.Basic
import Minihttpd.SystemCalls

/-!
# Event registration

`fdevents.cpp`, with the kernel's interest set beside the array it mirrors. A
handler and its context are one value; a connection is known by its address.
`epoll_ctl` refuses to add a present descriptor and to modify an absent one, and
may fail besides (ENOMEM, ENOSPC): `epollCtl fd n` says whether the n-th call
that adds or modifies `fd` succeeds otherwise. The source ignores its result.
-/
namespace FdEvents

open ByteBuffer SystemCalls

inductive HandlerCtx where
  | unixDomainSocket
  | timer
  | connection (address : Nat)
  deriving DecidableEq, Repr

structure Fdnode where
  ctx : HandlerCtx
  events : EventMask
  deriving DecidableEq, Repr

/-- The answers of `epoll_ctl`, by descriptor and number of the call. -/
abbrev CtlAnswers := Nat → Nat → Bool

/-- No `epoll_ctl` runs out of memory or of watches. -/
def ctlSucceeds : CtlAnswers := fun _ _ => true

structure Fdevents where
  maxFd : Nat
  handlerArray : Nat → Option Fdnode
  interest : Nat → Option EventMask
  epollCtl : CtlAnswers
  ctlCalls : Nat → Nat

namespace Fdevents

def InRange (ev : Fdevents) (fd : Int) : Prop := 0 ≤ fd ∧ fd < ev.maxFd

instance (ev : Fdevents) (fd : Int) : Decidable (ev.InRange fd) :=
  inferInstanceAs (Decidable (_ ∧ _))

/-- The node of a descriptor, as every access after the range check sees it. -/
def node (ev : Fdevents) (fd : Int) : Option Fdnode := ev.handlerArray fd.toNat

def setNode (ev : Fdevents) (fd : Int) (n : Option Fdnode) : Fdevents :=
  { ev with handlerArray := Function.update ev.handlerArray fd.toNat n }

def setInterest (ev : Fdevents) (fd : Int) (m : Option EventMask) : Fdevents :=
  { ev with interest := Function.update ev.interest fd.toNat m }

/-- The answer to the next `epoll_ctl` for the descriptor. -/
def ctlTaken (ev : Fdevents) (fd : Int) : Bool := ev.epollCtl fd.toNat (ev.ctlCalls fd.toNat)

def countCtl (ev : Fdevents) (fd : Int) : Fdevents :=
  { ev with ctlCalls := Function.update ev.ctlCalls fd.toNat (ev.ctlCalls fd.toNat + 1) }

/-- `EPOLL_CTL_ADD` fails with EEXIST on a present descriptor. -/
def epollAdd (ev : Fdevents) (fd : Int) (m : EventMask) : Fdevents :=
  if ev.ctlTaken fd ∧ ev.interest fd.toNat = none then (ev.countCtl fd).setInterest fd (some m)
  else ev.countCtl fd

/-- `EPOLL_CTL_MOD` fails with ENOENT on an absent descriptor. -/
def epollMod (ev : Fdevents) (fd : Int) (m : EventMask) : Fdevents :=
  if ev.ctlTaken fd ∧ ev.interest fd.toNat ≠ none then (ev.countCtl fd).setInterest fd (some m)
  else ev.countCtl fd

end Fdevents

/-- `epoll_create` and an array of NULLs. -/
def fdeventInitialize (maxFd : Nat) (epollCtl : CtlAnswers) : Fdevents :=
  ⟨maxFd, fun _ => none, fun _ => none, epollCtl, fun _ => 0⟩

def fdeventsRegisterFd (ev : Fdevents) (fd : Int) (ctx : HandlerCtx) : Except Fault Fdevents :=
  if ev.InRange fd ∧ ev.node fd = none then .ok (ev.setNode fd (some ⟨ctx, EventMask.none⟩))
  else .error .registration

def fdeventsUnregisterFd (ev : Fdevents) (fd : Int) : Except Fault Fdevents :=
  if ev.InRange fd ∧ ev.node fd ≠ none then .ok (ev.setNode fd none)
  else .error .registration

def fdeventsSetEvents (ev : Fdevents) (fd : Int) (events : EventMask) : Except Fault Fdevents :=
  if ev.InRange fd then
    match ev.node fd with
    | none => .error .registration
    | some n =>
      let ev := if n.events = EventMask.none then ev.epollAdd fd events.withErrors
        else ev.epollMod fd events.withErrors
      .ok (ev.setNode fd (some { n with events := events }))
  else .error .registration

/-- `EPOLL_CTL_DEL` needs no memory, and fails only on an absent descriptor. -/
def fdeventsUnsetEvent (ev : Fdevents) (fd : Int) : Except Fault Fdevents :=
  if ev.InRange fd then
    match ev.node fd with
    | none => .error .registration
    | some n =>
      let ev := if n.events ≠ EventMask.none then ev.setInterest fd none else ev
      .ok (ev.setNode fd (some { n with events := EventMask.none }))
  else .error .registration

/-- `fdevents_get_handle` and `fdevents_get_context`. -/
def fdeventsGetHandle (ev : Fdevents) (fd : Int) : Except Fault HandlerCtx :=
  if ev.InRange fd then
    match ev.node fd with
    | none => .error .registration
    | some n => .ok n.ctx
  else .error .registration

end FdEvents
