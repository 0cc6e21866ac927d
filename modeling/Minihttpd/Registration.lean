import Minihttpd.FdEvents

/-!
# Registered descriptors

What the calls of `fdevents.cpp` do to the one descriptor they are about, and
that they leave every other one alone. A descriptor mirrors its node when the
kernel does not watch it where no events are recorded, and watches it for the
recorded ones as long as no `epoll_ctl` for it has failed.
-/
namespace Registration

open ByteBuffer SystemCalls FdEvents

/-- The interest recorded for a node, as `epoll_ctl` was told it. -/
def recorded : Option Fdnode → Option EventMask
  | none => none
  | some n => if n.events = EventMask.none then none else some n.events.withErrors

/-- Every `epoll_ctl` made so far for the descriptor has succeeded. -/
def Took (ev : Fdevents) (fd : Nat) : Prop := ∀ n, n < ev.ctlCalls fd → ev.epollCtl fd n = true

structure Mirrors (ev : Fdevents) (fd : Nat) : Prop where
  unwatched : recorded (ev.handlerArray fd) = none → ev.interest fd = none
  watched : Took ev fd → ev.interest fd = recorded (ev.handlerArray fd)

/-- The two agree except about one descriptor. -/
structure OnlyAt (fd : Int) (ev ev' : Fdevents) : Prop where
  maxFd : ev'.maxFd = ev.maxFd
  epollCtl : ev'.epollCtl = ev.epollCtl
  nodes : ∀ k, k ≠ fd.toNat → ev'.handlerArray k = ev.handlerArray k
  interest : ∀ k, k ≠ fd.toNat → ev'.interest k = ev.interest k
  calls : ∀ k, k ≠ fd.toNat → ev'.ctlCalls k = ev.ctlCalls k

/-- `fd` has the node of `ctx` with these events, and the kernel knows them. -/
structure Watched (ev : Fdevents) (fd : Int) (ctx : HandlerCtx) (events : EventMask) : Prop where
  range : ev.InRange fd
  node : ev.handlerArray fd.toNat = some ⟨ctx, events⟩
  mirrors : Mirrors ev fd.toNat

lemma initialize_mirrors (maxFd : Nat) (epollCtl : CtlAnswers) (k : Nat) :
    Mirrors (fdeventInitialize maxFd epollCtl) k := ⟨fun _ => rfl, fun _ => rfl⟩

lemma onlyAt_refl (fd : Int) (ev : Fdevents) : OnlyAt fd ev ev :=
  ⟨rfl, rfl, fun _ _ => rfl, fun _ _ => rfl, fun _ _ => rfl⟩

lemma OnlyAt.trans {fd : Int} {a b c : Fdevents} (hab : OnlyAt fd a b) (hbc : OnlyAt fd b c) :
    OnlyAt fd a c :=
  ⟨hbc.maxFd.trans hab.maxFd, hbc.epollCtl.trans hab.epollCtl,
    fun k hk => (hbc.nodes k hk).trans (hab.nodes k hk),
    fun k hk => (hbc.interest k hk).trans (hab.interest k hk),
    fun k hk => (hbc.calls k hk).trans (hab.calls k hk)⟩

/-- What is known of the other descriptors stays so. -/
lemma OnlyAt.mirrors {fd : Int} {ev ev' : Fdevents} (h : OnlyAt fd ev ev') {k : Nat}
    (apart : k ≠ fd.toNat) (before : Mirrors ev k) : Mirrors ev' k := by
  have htook : Took ev' k → Took ev k := by
    intro htook n hn
    have hanswer := htook n (by rw [h.calls k apart]; exact hn)
    rwa [h.epollCtl] at hanswer
  constructor
  · rw [h.nodes k apart, h.interest k apart]
    exact before.unwatched
  · intro hafter
    rw [h.nodes k apart, h.interest k apart]
    exact before.watched (htook hafter)

lemma OnlyAt.inRange {fd other : Int} {ev ev' : Fdevents} (h : OnlyAt fd ev ev') :
    ev'.InRange other ↔ ev.InRange other := by
  rw [Fdevents.InRange, Fdevents.InRange, h.maxFd]

lemma setNode_onlyAt (ev : Fdevents) (fd : Int) (n : Option Fdnode) :
    OnlyAt fd ev (ev.setNode fd n) :=
  ⟨rfl, rfl, fun _ hk => Function.update_of_ne hk _ _, fun _ _ => rfl, fun _ _ => rfl⟩

lemma setInterest_onlyAt (ev : Fdevents) (fd : Int) (m : Option EventMask) :
    OnlyAt fd ev (ev.setInterest fd m) :=
  ⟨rfl, rfl, fun _ _ => rfl, fun _ hk => Function.update_of_ne hk _ _, fun _ _ => rfl⟩

lemma countCtl_onlyAt (ev : Fdevents) (fd : Int) : OnlyAt fd ev (ev.countCtl fd) :=
  ⟨rfl, rfl, fun _ _ => rfl, fun _ _ => rfl, fun _ hk => Function.update_of_ne hk _ _⟩

@[simp] lemma setNode_self (ev : Fdevents) (fd : Int) (n : Option Fdnode) :
    (ev.setNode fd n).handlerArray fd.toNat = n := Function.update_self _ _ _

@[simp] lemma setNode_interest (ev : Fdevents) (fd : Int) (n : Option Fdnode) :
    (ev.setNode fd n).interest = ev.interest := rfl

@[simp] lemma setInterest_self (ev : Fdevents) (fd : Int) (m : Option EventMask) :
    (ev.setInterest fd m).interest fd.toNat = m := Function.update_self _ _ _

lemma watched_ctx {ev : Fdevents} {fd : Int} {ctx ctx' : HandlerCtx} {events events' : EventMask}
    (h : Watched ev fd ctx events) (h' : Watched ev fd ctx' events') : ctx = ctx' := by
  have hnode := h.node
  rw [h'.node] at hnode
  cases hnode
  rfl

/-- Where a call of `epoll_ctl` has been made since, the one before has
succeeded as well. -/
lemma took_countCtl {ev : Fdevents} {fd : Int} (h : Took (ev.countCtl fd) fd.toNat) :
    ev.ctlTaken fd = true ∧ Took ev fd.toNat := by
  have hcalls : (ev.countCtl fd).ctlCalls fd.toNat = ev.ctlCalls fd.toNat + 1 :=
    Function.update_self _ _ _
  have hnext : ∀ n, n < ev.ctlCalls fd.toNat + 1 → ev.epollCtl fd.toNat n = true := by
    intro n hn
    exact h n (by rw [hcalls]; exact hn)
  exact ⟨hnext _ (Nat.lt_succ_self _), fun n hn => hnext n (Nat.lt_succ_of_lt hn)⟩

section Ctl
variable {ev : Fdevents} {fd : Int} {accepts : Prop} [Decidable accepts] {m : Option EventMask}

lemma ctl_onlyAt : OnlyAt fd ev
    (if ev.ctlTaken fd ∧ accepts then (ev.countCtl fd).setInterest fd m else ev.countCtl fd) := by
  split
  · exact (countCtl_onlyAt ev fd).trans (setInterest_onlyAt _ _ _)
  · exact countCtl_onlyAt ev fd

/-- A call that succeeds, and that the kernel has no other reason to refuse. -/
lemma ctl_interest (accept : Took ev fd.toNat → accepts)
    (h : Took (if ev.ctlTaken fd ∧ accepts then (ev.countCtl fd).setInterest fd m
      else ev.countCtl fd) fd.toNat) :
    (if ev.ctlTaken fd ∧ accepts then (ev.countCtl fd).setInterest fd m
      else ev.countCtl fd).interest fd.toNat = m := by
  by_cases hdone : ev.ctlTaken fd ∧ accepts
  · rw [if_pos hdone]
    exact setInterest_self _ _ _
  · rw [if_neg hdone] at h
    obtain ⟨htaken, htook⟩ := took_countCtl h
    exact absurd ⟨htaken, accept htook⟩ hdone

end Ctl

/-- A new node is not watched yet. -/
theorem registerFd_spec {ev : Fdevents} {fd : Int} (ctx : HandlerCtx) (range : ev.InRange fd)
    (free : ev.handlerArray fd.toNat = none) (mirrors : Mirrors ev fd.toNat) :
    ∃ ev', fdeventsRegisterFd ev fd ctx = .ok ev' ∧ OnlyAt fd ev ev' ∧
      Watched ev' fd ctx EventMask.none := by
  have habsent : ev.interest fd.toNat = none := mirrors.unwatched (by rw [free]; rfl)
  refine ⟨ev.setNode fd (some ⟨ctx, EventMask.none⟩), if_pos ⟨range, free⟩,
    setNode_onlyAt _ _ _, range, setNode_self _ _ _, fun _ => habsent, fun _ => ?_⟩
  rw [setNode_self, setNode_interest, habsent]
  rfl

/-- The kernel's set after the `epoll_ctl` of `fdevents_set_events`, ADD or MOD. -/
lemma ctl_spec {ev : Fdevents} {fd : Int} {ctx : HandlerCtx} {events : EventMask} (mask : EventMask)
    (watched : Watched ev fd ctx events) :
    ∃ ev₁, (if events = EventMask.none then ev.epollAdd fd mask else ev.epollMod fd mask) = ev₁ ∧
      OnlyAt fd ev ev₁ ∧ (Took ev₁ fd.toNat → ev₁.interest fd.toNat = some mask) := by
  obtain ⟨_, node, unwatched, hwatched⟩ := watched
  rw [node, recorded] at unwatched hwatched
  by_cases hzero : events = EventMask.none
  · rw [if_pos hzero] at unwatched
    exact ⟨_, if_pos hzero, ctl_onlyAt, ctl_interest fun _ => unwatched rfl⟩
  · rw [if_neg hzero] at hwatched
    refine ⟨_, if_neg hzero, ctl_onlyAt, ctl_interest fun htook => ?_⟩
    rw [hwatched htook]
    exact Option.some_ne_none _

theorem setEvents_spec {ev : Fdevents} {fd : Int} {ctx : HandlerCtx} {events : EventMask}
    (watched : Watched ev fd ctx events) {mask : EventMask} (some_events : mask ≠ EventMask.none) :
    ∃ ev', fdeventsSetEvents ev fd mask = .ok ev' ∧ OnlyAt fd ev ev' ∧
      Watched ev' fd ctx mask := by
  obtain ⟨ev₁, hev₁, honly, hinterest⟩ := ctl_spec mask.withErrors watched
  obtain ⟨range, node, mirrors⟩ := watched
  have hnode : ev.node fd = some ⟨ctx, events⟩ := node
  have hrecorded : recorded (some ⟨ctx, mask⟩) = some mask.withErrors := if_neg some_events
  refine ⟨ev₁.setNode fd (some ⟨ctx, mask⟩), ?_, honly.trans (setNode_onlyAt _ _ _),
    honly.inRange.mpr range, setNode_self _ _ _, ?_, ?_⟩
  · simp only [fdeventsSetEvents, if_pos range, hnode, hev₁]
  · rw [setNode_self, hrecorded]
    intro hnone
    cases hnone
  · intro htook
    rw [setNode_self, setNode_interest, hrecorded]
    exact hinterest htook

theorem unsetEvent_spec {ev : Fdevents} {fd : Int} {ctx : HandlerCtx} {events : EventMask}
    (watched : Watched ev fd ctx events) :
    ∃ ev', fdeventsUnsetEvent ev fd = .ok ev' ∧ OnlyAt fd ev ev' ∧
      Watched ev' fd ctx EventMask.none := by
  obtain ⟨range, node, mirrors⟩ := watched
  have hnode : ev.node fd = some ⟨ctx, events⟩ := node
  have hctl : ∃ ev₁, (if events ≠ EventMask.none then ev.setInterest fd none else ev) = ev₁ ∧
      OnlyAt fd ev ev₁ ∧ ev₁.interest fd.toNat = none := by
    by_cases hzero : events = EventMask.none
    · refine ⟨ev, if_neg (not_not_intro hzero), onlyAt_refl _ _, mirrors.unwatched ?_⟩
      rw [node, recorded, if_pos hzero]
    · exact ⟨_, if_pos hzero, setInterest_onlyAt _ _ _, setInterest_self _ _ _⟩
  obtain ⟨ev₁, hev₁, honly, hinterest⟩ := hctl
  refine ⟨ev₁.setNode fd (some ⟨ctx, EventMask.none⟩), ?_, honly.trans (setNode_onlyAt _ _ _),
    honly.inRange.mpr range, setNode_self _ _ _, fun _ => hinterest, fun _ => ?_⟩
  · simp only [fdeventsUnsetEvent, if_pos range, hnode, hev₁]
  · rw [setNode_self, setNode_interest, hinterest]
    rfl

/-- A node without events is dropped, and the kernel does not watch it. -/
theorem unregisterFd_spec {ev : Fdevents} {fd : Int} {ctx : HandlerCtx}
    (watched : Watched ev fd ctx EventMask.none) :
    ∃ ev', fdeventsUnregisterFd ev fd = .ok ev' ∧ OnlyAt fd ev ev' ∧
      ev'.handlerArray fd.toNat = none ∧ ev'.interest fd.toNat = none := by
  obtain ⟨range, node, mirrors⟩ := watched
  have hnode : ev.node fd ≠ none := by
    change ev.handlerArray fd.toNat ≠ none
    rw [node]
    exact Option.some_ne_none _
  refine ⟨ev.setNode fd none, if_pos ⟨range, hnode⟩, setNode_onlyAt _ _ _,
    setNode_self _ _ _, ?_⟩
  rw [setNode_interest]
  exact mirrors.unwatched (by rw [node]; rfl)

/-- The end of a connection's registration: it is unset, then dropped. -/
theorem unsetUnregister_spec {ev : Fdevents} {fd : Int} {ctx : HandlerCtx} {events : EventMask}
    (watched : Watched ev fd ctx events) :
    ∃ ev₁ ev', fdeventsUnsetEvent ev fd = .ok ev₁ ∧ fdeventsUnregisterFd ev₁ fd = .ok ev' ∧
      OnlyAt fd ev ev' ∧ ev'.handlerArray fd.toNat = none ∧ ev'.interest fd.toNat = none := by
  obtain ⟨ev₁, h₁, only₁, watched₁⟩ := unsetEvent_spec watched
  obtain ⟨ev', h', only', hnode, hinterest⟩ := unregisterFd_spec watched₁
  exact ⟨ev₁, ev', h₁, h', only₁.trans only', hnode, hinterest⟩

end Registration
