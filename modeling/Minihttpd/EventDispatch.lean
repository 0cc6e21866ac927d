import Minihttpd.TimerSweep

/-!
# The dispatch of a batch of events

`epoll_wait` reports a batch, and each of its events is handled by what is
registered for its descriptor when its turn comes. Only the sweep of the timer
can change that while the event waits.
-/
namespace EventDispatch

open ByteBuffer SystemCalls FdEvents ChunkQueue ConnectionTypes HttpConnection StateMachine
open HttpWorker ConnectionInvariant ConnectionRuns Registration WorkerTable TimerSweep FailingRun
open Slots

/-- What is registered for a descriptor. -/
def registeredCtx (w : Worker) (fd : Int) : Option HandlerCtx := (w.ev.node fd).map Fdnode.ctx

/-- A batch that `epoll_wait` can report: of each watched descriptor at most one
event. A descriptor that is received in the meantime is new to the worker. -/
structure Reported (config : ServerConfig) (w : Worker) (batch : List BatchEvent) : Prop where
  distinct : (batch.map BatchEvent.fd).Nodup
  watched : ∀ e ∈ batch, 0 ≤ e.fd ∧ ∃ mask, w.ev.interest e.fd.toNat = some mask
  fresh : ∀ done e rest m, batch = done ++ e :: rest → dispatchBatch config w done = .ok m →
    e.fd = w.unixDomainSocketFd → FreshDescriptor m e.recv

/-- Each event whose turn comes finds what was registered for its descriptor
when `epoll_wait` returned: no lookup asserts, and no event goes astray. A
connection is registered by its address, which is never given out again. -/
def Faithful (config : ServerConfig) (w : Worker) (batch : List BatchEvent) : Prop :=
  ∀ done e rest m, batch = done ++ e :: rest → dispatchBatch config w done = .ok m →
    ∃ ctx, fdeventsGetHandle m.ev e.fd = .ok ctx ∧ registeredCtx w e.fd = some ctx

/-- The timer event `t` closes the connection of the descriptor `fd`: it is
overdue then, and it is closing already, or its peer is found to be gone. -/
def SweptBy (config : ServerConfig) (w : Worker) (t : BatchEvent) (fd : Int) : Prop :=
  t.fd = w.timerFd ∧ t.mask.epollin = true ∧ t.now ≠ w.curTs ∧
    ∃ i a conn, slotConn w i = some (a, conn) ∧ conn.connSocketFd = fd ∧
      (∃ after, timerExpire config t.now conn = some after) ∧ SweptOff (t.answers i) conn

/-- Handling an event on `fd` leaves the other connections alone, and no
connection comes back. -/
structure Quiet (m next : Worker) (fd : Int) : Prop where
  unixSocket : next.unixDomainSocketFd = m.unixDomainSocketFd
  timer : next.timerFd = m.timerFd
  addresses : m.nextAddress ≤ next.nextAddress
  older : ∀ j a, a < m.nextAddress → InSlot next j a → InSlot m j a
  curTs : next.curTs = m.curTs
  others : ∀ i a conn, slotConn m i = some (a, conn) → conn.connSocketFd ≠ fd →
    slotConn next i = some (a, conn)

lemma Quiet.same {m next : Worker} (fd : Int) (conn : next.conn = m.conn) (heap : next.heap = m.heap)
    (unixSocket : next.unixDomainSocketFd = m.unixDomainSocketFd)
    (timer : next.timerFd = m.timerFd) (addresses : next.nextAddress = m.nextAddress)
    (curTs : next.curTs = m.curTs) : Quiet m next fd := by
  refine ⟨unixSocket, timer, Nat.le_of_eq addresses.symm, ?_, curTs, ?_⟩
  · intro j a _ slot
    rw [InSlot, conn] at slot
    exact slot
  · intro i a c hslot _
    rw [slotConn, conn, heap]
    exact hslot

lemma CallEnd.slots {config : ServerConfig} {answers : Nat → SysAnswers} {w next : Worker}
    {i a : Nat} {conn : Connection} (h : CallEnd config answers w i a conn next) {j b : Nat}
    (slot : InSlot next j b) : InSlot w j b := by
  cases h with
  | kept => exact slot
  | released => exact (getElem?_set_none slot).1

/-- A call on the connection in slot `i`, whose descriptor is `fd`. -/
lemma CallEnd.quiet {config : ServerConfig} {answers : Nat → SysAnswers} {w next : Worker}
    {i a : Nat} {conn : Connection} {fd : Int} (inv : TableInv config w) (slot : InSlot w i a)
    (hconn : w.heap a = some conn) (hfd : conn.connSocketFd = fd)
    (h : CallEnd config answers w i a conn next) : Quiet w next fd := by
  have honly := h.onlySlot
  refine ⟨honly.unixSocket, honly.timer, Nat.le_of_eq honly.nextAddress.symm,
    fun j b _ => CallEnd.slots h, honly.curTs, ?_⟩
  intro j b other hother hne
  have hj : j ≠ i := by
    rintro rfl
    rw [slotConn_eq_some.mpr ⟨slot, hconn⟩] at hother
    cases hother
    exact hne hfd
  rw [honly.others inv slot hj]
  exact hother

lemma Quiet.trans {a b c : Worker} {fd : Int} (hab : Quiet a b fd) (hbc : Quiet b c fd) :
    Quiet a c fd := by
  refine ⟨hbc.unixSocket.trans hab.unixSocket, hbc.timer.trans hab.timer,
    Nat.le_trans hab.addresses hbc.addresses, ?_, hbc.curTs.trans hab.curTs, ?_⟩
  · intro j x hx slot
    exact hab.older j x hx (hbc.older j x (Nat.lt_of_lt_of_le hx hab.addresses) slot)
  · intro i x conn hslot hne
    exact hbc.others i x conn (hab.others i x conn hslot hne) hne

/-- The flags of the connection of `fd` are set before its call. -/
lemma setHeap_quiet {w : Worker} {a : Nat} {conn after : Connection} {fd : Int}
    (hconn : w.heap a = some conn) (hfd : conn.connSocketFd = fd) : Quiet w (w.setHeap a (some after)) fd := by
  refine ⟨rfl, rfl, Nat.le_refl _, fun _ _ _ h => h, rfl, ?_⟩
  intro j b other hother hne
  obtain ⟨hslot, hheap⟩ := slotConn_eq_some.mp hother
  have hb : b ≠ a := by
    rintro rfl
    rw [hconn] at hheap
    cases hheap
    exact hne hfd
  refine slotConn_eq_some.mpr ⟨hslot, ?_⟩
  exact (Function.update_of_ne hb _ _).trans hheap

lemma connectionEvent_quiet {config : ServerConfig} {mask : EventMask} {now : Int}
    {answers : Nat → SysAnswers} {m next : Worker} {i a : Nat} {conn : Connection}
    (inv : TableInv config m) (slot : InSlot m i a) (hconn : m.heap a = some conn)
    (h : connectionEventHandle config mask now answers m a = .ok next) :
    Quiet m next conn.connSocketFd := by
  have hslot := table_slot inv slot hconn
  have hsocket := noteEvents_socket mask now conn
  have hset := tableInv_setHeap inv slot hconn (noteEvents_conn hslot.inv mask now)
    (noteEvents_open mask now hslot.open_still) hsocket
  rw [connectionEventHandle, hconn] at h
  have hself : (m.setHeap a (some (noteEvents mask now conn))).heap a =
      some (noteEvents mask now conn) := Function.update_self _ _ _
  exact (setHeap_quiet hconn rfl).trans
    (CallEnd.quiet hset slot hself hsocket.fd (workerStateMachine_cases hset slot hself h))

lemma addConnection_quiet {config : ServerConfig} {m : Worker} {index : Nat} {f : Int}
    {ev : Fdevents} (inv : TableInv config m) (empty : m.conn[index]? = some none) (fd : Int) :
    Quiet m (addConnection m index f ev) fd := by
  refine ⟨rfl, rfl, Nat.le_succ _, ?_, rfl, ?_⟩
  · intro j a ha slot
    rcases getElem?_set_some slot with ⟨_, rfl⟩ | ⟨_, hold⟩
    · exact absurd ha (Nat.lt_irrefl _)
    · exact hold
  · intro i a conn hslot _
    obtain ⟨hin, hheap⟩ := slotConn_eq_some.mp hslot
    have hi : index ≠ i := by
      rintro rfl
      rw [InSlot, empty] at hin
      cases hin
    refine slotConn_eq_some.mpr ⟨?_, ?_⟩
    · change (m.conn.set index (some m.nextAddress))[i]? = _
      rw [List.getElem?_set_ne hi]
      exact hin
    · exact (Function.update_of_ne (Nat.ne_of_lt (inv.addresses i a hin)) _ _).trans hheap

lemma notOpen_apart {m : Worker} {f : Int} (h : NotOpen m f) {i a : Nat} {conn : Connection}
    (hslot : slotConn m i = some (a, conn)) : conn.connSocketFd ≠ f := by
  rintro rfl
  obtain ⟨slot, hheap⟩ := slotConn_eq_some.mp hslot
  refine h.held (mem_held slot ?_)
  rw [socketOf, hheap]
  rfl

/-- The ways in which `unix_domain_socket_handle` comes back. -/
inductive UnixOutcome (config : ServerConfig) (answers : Nat → SysAnswers) (m : Worker) :
    Worker → Prop where
  | kept (ev : Fdevents) : UnixOutcome config answers m { m with ev := ev }
  | full (f : Int) : UnixOutcome config answers m
      { m with received := m.received ++ [f], closed := m.closed ++ [f] }
  | added (index : Nat) (f : Int) (ev : Fdevents) (next : Worker) : NotOpen m f →
      m.conn[index]? = some none → TableInv config (addConnection m index f ev) →
      workerStateMachine config answers (addConnection m index f ev) m.nextAddress = .ok next →
      UnixOutcome config answers m next

theorem unixDomainSocketHandle_cases {config : ServerConfig} {mask : EventMask} {recv : RecvAnswer}
    {answers : Nat → SysAnswers} {m next : Worker} (inv : TableInv config m)
    (fresh : FreshDescriptor m recv)
    (h : unixDomainSocketHandle config mask recv answers m = .ok next) :
    UnixOutcome config answers m next := by
  rcases handle_cases config answers recv with hsame | hunset | ⟨hhup, herr, fd, unset, rfl⟩
  · rw [hsame] at h
    cases h
    exact .kept m.ev
  · rw [hunset] at h
    obtain ⟨ev, _, h⟩ := bind_eq_ok.mp h
    cases h
    exact .kept ev
  · obtain ⟨f, rfl, hf⟩ := fresh
    rcases handle_message config answers (some f) unset inv.count hhup herr with
      hfull | ⟨index, hempty, hadd⟩
    · rw [hfull] at h
      cases h
      exact .full f
    · have hfree := hf.free inv
      obtain ⟨ev, hregister, honly, hwatched⟩ :=
        registerFd_spec (.connection m.nextAddress) hf.range hfree (inv.mirrors _)
      rw [hadd, Option.getD_some, hregister] at h
      exact .added index f ev next hf hempty
        (tableInv_addConnection inv hempty hfree honly hwatched) h

/-- Whichever descriptor it is asked about, the unix socket leaves it alone. -/
lemma UnixOutcome.quiet {config : ServerConfig} {answers : Nat → SysAnswers} {m next : Worker}
    (inv : TableInv config m) (h : UnixOutcome config answers m next) (fd : Int) :
    Quiet m next fd := by
  cases h with
  | kept ev => exact .same fd rfl rfl rfl rfl rfl rfl
  | full f => exact .same fd rfl rfl rfl rfl rfl rfl
  | added index f ev next hf hempty hadded hcall =>
    have hslot := addConnection_slot f ev hempty
    have hcases := workerStateMachine_cases hadded hslot (Function.update_self _ _ _) hcall
    have hquiet := CallEnd.quiet hadded hslot (Function.update_self _ _ _) rfl hcases
    have hadd := @addConnection_quiet config m index f ev inv hempty fd
    refine ⟨hquiet.unixSocket, hquiet.timer, Nat.le_trans hadd.addresses hquiet.addresses, ?_,
      hquiet.curTs, ?_⟩
    · intro j a ha slot
      exact hadd.older j a ha (hquiet.older j a (Nat.lt_of_lt_of_le ha hadd.addresses) slot)
    · intro i a conn hold hne
      exact hquiet.others i a conn (hadd.others i a conn hold hne) (notOpen_apart hf hold)

/-- What one event of a batch does to the connections of the others. -/
inductive DispatchOutcome (config : ServerConfig) (m : Worker) (e : BatchEvent) (next : Worker) :
    Prop where
  | quiet : Quiet m next e.fd → (e.fd = m.timerFd → e.mask.epollin = false ∨ e.now = m.curTs) →
      DispatchOutcome config m e next
  | swept : e.fd = m.timerFd → e.mask.epollin = true → e.now ≠ m.curTs →
      Sweeping config e.now m next →
      (∀ i, SweptTo config e.now (e.answers i) (slotConn m i) (slotConn next i)) →
      DispatchOutcome config m e next

lemma getHandle_ok {ev : Fdevents} {fd : Int} {ctx : HandlerCtx}
    (h : fdeventsGetHandle ev fd = .ok ctx) : ev.InRange fd ∧ (ev.node fd).map Fdnode.ctx = some ctx := by
  rw [fdeventsGetHandle] at h
  split at h
  · rename_i hrange
    refine ⟨hrange, ?_⟩
    split at h
    · cases h
    · rename_i n hn
      rw [hn]
      exact congrArg some (Except.ok.inj h)
  · cases h

/-- An event that is handled at all is handled by one of the handlers. -/
theorem dispatchEvent_cases {config : ServerConfig} {m next : Worker} {e : BatchEvent}
    (inv : TableInv config m) (fresh : e.fd = m.unixDomainSocketFd → FreshDescriptor m e.recv)
    (h : dispatchEvent config m e = .ok next) :
    TableInv config next ∧ DispatchOutcome config m e next := by
  rw [dispatchEvent] at h
  obtain ⟨ctx, hctx, h⟩ := bind_eq_ok.mp h
  obtain ⟨hrange, hnode⟩ := getHandle_ok hctx
  obtain ⟨n, hn, rfl⟩ := Option.map_eq_some_iff.mp hnode
  have hentry := inv.entries _ n hn
  have hkeeps : ∀ {result : Except Fault Worker}, KeepsTable config result → result = .ok next →
      TableInv config next := by
    rintro result (⟨_, hok, hinv⟩ | ⟨_, herror, _⟩) hresult
    · rw [hresult] at hok
      cases hok
      exact hinv
    · rw [hresult] at herror
      cases herror
  obtain ⟨_, hunix⟩ := inv.unixSocket
  obtain ⟨_, htimer⟩ := inv.timer
  have not_timer : n.ctx ≠ .timer → e.fd ≠ m.timerFd := by
    intro hkind htime
    have hsame := htimer.node
    have hn' : m.ev.handlerArray e.fd.toNat = some n := hn
    rw [← htime, hn', Option.some.injEq] at hsame
    rw [hsame] at hkind
    exact hkind rfl
  cases hkind : n.ctx with
  | unixDomainSocket =>
    have hother := not_timer (by rw [hkind]; exact HandlerCtx.noConfusion)
    rw [hkind] at h hentry
    have hfd : e.fd = m.unixDomainSocketFd := toNat_inj hrange.1 hunix.range.1 hentry
    have hcases := unixDomainSocketHandle_cases inv (fresh hfd) h
    refine ⟨hkeeps (unixDomainSocketHandle_keeps _ _ inv (fresh hfd)) h,
      .quiet (hcases.quiet inv e.fd) (fun h => absurd h hother)⟩
  | timer =>
    rw [hkind] at h hentry
    replace h : workerTimerExpireHandler config e.mask e.now e.answers m = .ok next := h
    have hfd : e.fd = m.timerFd := toNat_inj hrange.1 htimer.range.1 hentry
    refine ⟨hkeeps (timerHandler_keeps _ _ _ inv) h, ?_⟩
    by_cases hfires : e.mask.epollin = true
    · by_cases hnow : e.now = m.curTs
      · rw [workerTimerExpireHandler, if_neg (by rw [hfires]; decide), if_pos hnow] at h
        cases h
        exact .quiet (.same e.fd rfl rfl rfl rfl rfl rfl) (fun _ => Or.inr hnow)
      · obtain ⟨next', hok, hsweeping, hswept⟩ := timer_sweeps e.answers inv hfires hnow
        rw [h] at hok
        cases hok
        exact .swept hfd hfires hnow hsweeping hswept
    · have hquiet : e.mask.epollin = false := Bool.eq_false_iff.mpr hfires
      rw [workerTimerExpireHandler, if_pos hquiet] at h
      cases h
      exact .quiet (.same e.fd rfl rfl rfl rfl rfl rfl) (fun _ => Or.inl hquiet)
  | connection a =>
    have hother := not_timer (by rw [hkind]; exact HandlerCtx.noConfusion)
    rw [hkind] at h hentry
    obtain ⟨i, conn, slot, hconn, hk⟩ := hentry
    obtain ⟨_, hwatched⟩ := (table_slot inv slot hconn).watched
    have hfd : conn.connSocketFd = e.fd := toNat_inj hwatched.range.1 hrange.1 hk
    have hquiet := connectionEvent_quiet inv slot hconn h
    rw [hfd] at hquiet
    exact ⟨hkeeps (connectionEventHandle_keeps _ _ _ inv slot) h,
      .quiet hquiet (fun h => absurd h hother)⟩

/-- What has become of a connection whose own event is still to come, when the
events `done` have been handled. -/
inductive Fate (config : ServerConfig) (w : Worker) (done : List BatchEvent) (m : Worker)
    (i a : Nat) (conn : Connection) : Prop where
  | there (now : Connection) : slotConn m i = some (a, now) →
      now.connSocketFd = conn.connSocketFd → ((∀ t ∈ done, t.fd ≠ w.timerFd) → now = conn) →
      (∀ t ∈ done, ¬ SweptBy config w t conn.connSocketFd) → Fate config w done m i a conn
  | gone (t : BatchEvent) : t ∈ done → SweptBy config w t conn.connSocketFd →
      (∀ j, ¬ InSlot m j a) → Fate config w done m i a conn

/-- How far a batch has come that was reported for `w`. -/
structure Progress (config : ServerConfig) (w : Worker) (done : List BatchEvent) (m : Worker) :
    Prop where
  inv : TableInv config m
  unixSocket : m.unixDomainSocketFd = w.unixDomainSocketFd
  timer : m.timerFd = w.timerFd
  addresses : w.nextAddress ≤ m.nextAddress
  clock : (∀ t ∈ done, t.fd ≠ w.timerFd) → m.curTs = w.curTs
  fate : ∀ i a conn, slotConn w i = some (a, conn) →
    (∀ t ∈ done, t.fd ≠ conn.connSocketFd) → Fate config w done m i a conn

lemma Progress.start {config : ServerConfig} {w : Worker} (inv : TableInv config w) :
    Progress config w [] w where
  inv := inv
  unixSocket := rfl
  timer := rfl
  addresses := Nat.le_refl _
  clock := fun _ => rfl
  fate := fun _ _ conn hslot _ =>
    .there conn hslot rfl (fun _ => rfl) (fun _ h => absurd h List.not_mem_nil)

lemma forall_snoc {P : BatchEvent → Prop} {done : List BatchEvent} {e : BatchEvent} :
    (∀ t ∈ done ++ [e], P t) ↔ (∀ t ∈ done, P t) ∧ P e := by
  constructor
  · intro h
    exact ⟨fun t ht => h t (List.mem_append_left _ ht),
      h e (List.mem_append_right _ (List.mem_singleton_self e))⟩
  · rintro ⟨hdone, he⟩ t ht
    rcases List.mem_append.mp ht with ht | ht
    · exact hdone t ht
    · rw [List.mem_singleton.mp ht]
      exact he

/-- Which connection a timer event sweeps is told by the descriptor. -/
lemma sweptBy_iff {config : ServerConfig} {w : Worker} {t : BatchEvent} {i a : Nat}
    {conn : Connection} (inv : TableInv config w) (hslot : slotConn w i = some (a, conn))
    (fires : t.fd = w.timerFd ∧ t.mask.epollin = true ∧ t.now ≠ w.curTs) :
    SweptBy config w t conn.connSocketFd ↔
      (∃ after, timerExpire config t.now conn = some after) ∧ SweptOff (t.answers i) conn := by
  constructor
  · rintro ⟨_, _, _, j, b, other, hother, hfd, hexpire, hoff⟩
    obtain ⟨hi, hheap⟩ := slotConn_eq_some.mp hslot
    obtain ⟨hj, hheap'⟩ := slotConn_eq_some.mp hother
    obtain ⟨rfl, rfl⟩ := inv.fd_unique hj hi hheap' hheap (congrArg Int.toNat hfd)
    rw [hheap] at hheap'
    cases hheap'
    exact ⟨hexpire, hoff⟩
  · rintro ⟨hexpire, hoff⟩
    exact ⟨fires.1, fires.2.1, fires.2.2, i, a, conn, hslot, rfl, hexpire, hoff⟩

/-- The sweep brings no connection into a slot. -/
lemma swept_older {config : ServerConfig} {t : Int} {answers : Nat → Nat → SysAnswers}
    {w next : Worker} {j a : Nat} (inv : TableInv config next)
    (swept : ∀ i, SweptTo config t (answers i) (slotConn w i) (slotConn next i))
    (slot : InSlot next j a) : InSlot w j a := by
  obtain ⟨conn, hconn, _⟩ := inv.slots j a slot
  have hj := swept j
  rw [slotConn_eq_some.mpr ⟨slot, hconn⟩] at hj
  generalize hbefore : slotConn w j = before at hj
  cases hj with
  | spared => exact (slotConn_eq_some.mp hbefore).1
  | lingering => exact (slotConn_eq_some.mp hbefore).1

/-- Before the timer event of a batch the clock stands still. -/
lemma Progress.clock_stands {config : ServerConfig} {w m : Worker} {done : List BatchEvent}
    {e : BatchEvent} (h : Progress config w done m) (apart : ∀ t ∈ done, t.fd ≠ e.fd)
    (timer : e.fd = w.timerFd) : m.curTs = w.curTs :=
  h.clock (fun t ht => timer ▸ apart t ht)

lemma Progress.quiet {config : ServerConfig} {w m next : Worker} {done : List BatchEvent}
    {e : BatchEvent} (h : Progress config w done m) (start : TableInv config w)
    (apart : ∀ t ∈ done, t.fd ≠ e.fd) (inv : TableInv config next) (quiet : Quiet m next e.fd)
    (idle : e.fd = m.timerFd → e.mask.epollin = false ∨ e.now = m.curTs) :
    Progress config w (done ++ [e]) next := by
  refine ⟨inv, quiet.unixSocket.trans h.unixSocket, quiet.timer.trans h.timer,
    Nat.le_trans h.addresses quiet.addresses,
    fun hall => quiet.curTs.trans (h.clock (forall_snoc.mp hall).1), ?_⟩
  intro i a conn hslot hne
  obtain ⟨hdone, he⟩ := forall_snoc.mp hne
  cases h.fate i a conn hslot hdone with
  | there now hnow hfd hsame hnot =>
    refine .there now (quiet.others i a now hnow ?_) hfd
      (fun hall => hsame (forall_snoc.mp hall).1) (forall_snoc.mpr ⟨hnot, ?_⟩)
    · rw [hfd]
      exact he.symm
    · rintro ⟨htimer, hfires, hadvances, _⟩
      rcases idle (htimer.trans h.timer.symm) with hmask | hnow
      · rw [hfires] at hmask
        cases hmask
      · exact hadvances (hnow.trans (h.clock_stands apart htimer))
  | gone t ht hswept hno =>
    refine .gone t (List.mem_append_left _ ht) hswept (fun j slot => hno j ?_)
    have hold : a < w.nextAddress := start.addresses i a (slotConn_eq_some.mp hslot).1
    exact quiet.older j a (Nat.lt_of_lt_of_le hold h.addresses) slot

lemma Progress.swept {config : ServerConfig} {w m next : Worker} {done : List BatchEvent}
    {e : BatchEvent} (h : Progress config w done m) (start : TableInv config w)
    (apart : ∀ t ∈ done, t.fd ≠ e.fd) (timer : e.fd = m.timerFd)
    (fires : e.mask.epollin = true) (advances : e.now ≠ m.curTs)
    (sweeping : Sweeping config e.now m next)
    (swept : ∀ i, SweptTo config e.now (e.answers i) (slotConn m i) (slotConn next i)) :
    Progress config w (done ++ [e]) next := by
  have htimer : e.fd = w.timerFd := timer.trans h.timer
  have first : ∀ t ∈ done, t.fd ≠ w.timerFd := fun t ht => htimer ▸ apart t ht
  rw [h.clock first] at advances
  have last : ¬ ∀ t ∈ done ++ [e], t.fd ≠ w.timerFd :=
    fun hall => (forall_snoc.mp hall).2 htimer
  refine ⟨sweeping.inv, sweeping.unixSocket.trans h.unixSocket, sweeping.timer.trans h.timer,
    Nat.le_trans h.addresses (Nat.le_of_eq sweeping.nextAddress.symm),
    fun hall => absurd hall last, ?_⟩
  intro i a conn hslot hne
  obtain ⟨hdone, _⟩ := forall_snoc.mp hne
  have hiff := sweptBy_iff start hslot ⟨htimer, fires, advances⟩
  cases h.fate i a conn hslot hdone with
  | there now hnow hfd hsame hnot =>
    cases hsame first
    have hi := swept i
    rw [hnow] at hi
    generalize hafter : slotConn next i = after at hi
    cases hi with
    | spared _ _ hnone =>
      refine .there conn hafter rfl (fun hall => absurd hall last) (forall_snoc.mpr ⟨hnot, ?_⟩)
      intro hswept
      obtain ⟨⟨_, hexpire⟩, _⟩ := hiff.mp hswept
      rw [hnone] at hexpire
      cases hexpire
    | released _ _ after hexpire hoff =>
      refine .gone e (List.mem_append_right _ (List.mem_singleton_self e))
        (hiff.mpr ⟨⟨after, hexpire⟩, hoff⟩) ?_
      intro j slot
      have hold := swept_older sweeping.inv swept slot
      have hj : j = i := h.inv.slot_unique hold (slotConn_eq_some.mp hnow).1
      subst hj
      obtain ⟨c, hc, _⟩ := sweeping.inv.slots j a slot
      rw [slotConn_eq_some.mpr ⟨slot, hc⟩] at hafter
      cases hafter
    | lingering _ _ _ closing hexpire hoff hlingering hsocket =>
      refine .there closing hafter hsocket (fun hall => absurd hall last)
        (forall_snoc.mpr ⟨hnot, ?_⟩)
      intro hswept
      exact hoff (hiff.mp hswept).2
  | gone t ht hswept hno =>
    exact .gone t (List.mem_append_left _ ht) hswept
      (fun j slot => hno j (swept_older sweeping.inv swept slot))

/-- The events in front of an event have other descriptors. -/
lemma Reported.apart {config : ServerConfig} {w : Worker} {batch done rest : List BatchEvent}
    {e : BatchEvent} (h : Reported config w batch) (split : batch = done ++ e :: rest) :
    ∀ t ∈ done, t.fd ≠ e.fd := by
  intro t ht hsame
  have hdistinct := h.distinct
  rw [split, List.map_append, List.map_cons] at hdistinct
  obtain ⟨_, _, hdisjoint⟩ := List.nodup_append.mp hdistinct
  exact hdisjoint t.fd (List.mem_map_of_mem ht) e.fd List.mem_cons_self hsame

theorem progress {config : ServerConfig} {w : Worker} {batch : List BatchEvent}
    (start : TableInv config w) (reported : Reported config w batch) (done : List BatchEvent) :
    ∀ rest m, batch = done ++ rest → dispatchBatch config w done = .ok m →
      Progress config w done m := by
  induction done using List.reverseRecOn with
  | nil =>
    intro _ m _ run
    cases run
    exact .start start
  | append_singleton done e ih =>
    intro rest m split run
    rw [List.append_assoc, List.singleton_append] at split
    obtain ⟨before, hbefore, hlast⟩ := foldlM_append_eq_ok.mp run
    have hprogress := ih _ before split hbefore
    have hstep : dispatchEvent config before e = .ok m := by
      rw [List.foldlM_cons] at hlast
      obtain ⟨next, hok, hpure⟩ := bind_eq_ok.mp hlast
      cases (show Except.ok next = Except.ok m from hpure)
      exact hok
    have hfresh : e.fd = before.unixDomainSocketFd → FreshDescriptor before e.recv :=
      fun hfd => reported.fresh done e rest before split hbefore (hfd.trans hprogress.unixSocket)
    have hapart := reported.apart split
    obtain ⟨hinv, houtcome⟩ := dispatchEvent_cases hprogress.inv hfresh hstep
    cases houtcome with
    | quiet hquiet hidle => exact hprogress.quiet start hapart hinv hquiet hidle
    | swept htimer hfires hadvances hsweeping hswept =>
      exact hprogress.swept start hapart htimer hfires hadvances hsweeping hswept

lemma watched_lookup {ev : Fdevents} {fd : Int} {ctx : HandlerCtx} {events : EventMask}
    (h : Watched ev fd ctx events) : fdeventsGetHandle ev fd = .ok ctx := by
  have hnode : ev.node fd = some ⟨ctx, events⟩ := h.node
  rw [fdeventsGetHandle, if_pos h.range, hnode]

/-- A lookup succeeds exactly where the connection has not been swept away. -/
lemma lookup_iff {config : ServerConfig} {w m : Worker} {done : List BatchEvent} {e : BatchEvent}
    (start : TableInv config w) (progress : Progress config w done m)
    (watched : 0 ≤ e.fd ∧ ∃ mask, w.ev.interest e.fd.toNat = some mask)
    (apart : ∀ t ∈ done, t.fd ≠ e.fd) :
    (∃ ctx, fdeventsGetHandle m.ev e.fd = .ok ctx ∧ registeredCtx w e.fd = some ctx) ↔
      ∀ t ∈ done, ¬ SweptBy config w t e.fd := by
  obtain ⟨hnonneg, mask, hmask⟩ := watched
  obtain ⟨n, hn, _⟩ := mirrors_node (start.mirrors e.fd.toNat) hmask
  have hregistered : registeredCtx w e.fd = some n.ctx := by
    rw [registeredCtx, Fdevents.node, hn]
    rfl
  have hentry := start.entries _ n hn
  -- the descriptor of a connection is registered for that connection
  have own : ∀ i a conn, slotConn w i = some (a, conn) → conn.connSocketFd = e.fd →
      n.ctx = .connection a := by
    intro i a conn hslot hfd
    obtain ⟨slot, hheap⟩ := slotConn_eq_some.mp hslot
    obtain ⟨_, hwatched⟩ := (table_slot start slot hheap).watched
    have hnode := hwatched.node
    rw [hfd, hn] at hnode
    cases hnode
    rfl
  have others : (∀ a, n.ctx ≠ .connection a) → ∀ t ∈ done, ¬ SweptBy config w t e.fd := by
    rintro hkind t _ ⟨_, _, _, i, a, conn, hslot, hfd, _⟩
    exact hkind a (own i a conn hslot hfd)
  cases hkind : n.ctx with
  | unixDomainSocket =>
    rw [hkind] at hentry hregistered
    obtain ⟨_, hw⟩ := start.unixSocket
    obtain ⟨_, hwatched⟩ := progress.inv.unixSocket
    have hfd : e.fd = m.unixDomainSocketFd :=
      (toNat_inj hnonneg hw.range.1 hentry).trans progress.unixSocket.symm
    have hlookup := watched_lookup hwatched
    rw [← hfd] at hlookup
    exact ⟨fun _ => others (fun a => by rw [hkind]; exact HandlerCtx.noConfusion),
      fun _ => ⟨_, hlookup, hregistered⟩⟩
  | timer =>
    rw [hkind] at hentry hregistered
    obtain ⟨_, hw⟩ := start.timer
    obtain ⟨_, hwatched⟩ := progress.inv.timer
    have hfd : e.fd = m.timerFd :=
      (toNat_inj hnonneg hw.range.1 hentry).trans progress.timer.symm
    have hlookup := watched_lookup hwatched
    rw [← hfd] at hlookup
    exact ⟨fun _ => others (fun a => by rw [hkind]; exact HandlerCtx.noConfusion),
      fun _ => ⟨_, hlookup, hregistered⟩⟩
  | connection a =>
    rw [hkind] at hentry hregistered
    obtain ⟨i, conn, slot, hconn, hk⟩ := hentry
    obtain ⟨_, hw⟩ := (table_slot start slot hconn).watched
    have hfd : conn.connSocketFd = e.fd := toNat_inj hw.range.1 hnonneg hk
    have hslot := slotConn_eq_some.mpr ⟨slot, hconn⟩
    cases progress.fate i a conn hslot (fun t ht => hfd ▸ apart t ht) with
    | there now hnow hsocket _ hnot =>
      obtain ⟨hin, hheap⟩ := slotConn_eq_some.mp hnow
      obtain ⟨_, hwatched⟩ := (table_slot progress.inv hin hheap).watched
      rw [hsocket, hfd] at hwatched
      rw [hfd] at hnot
      exact ⟨fun _ => hnot, fun _ => ⟨_, watched_lookup hwatched, hregistered⟩⟩
    | gone t ht hswept hno =>
      rw [hfd] at hswept
      refine ⟨?_, fun hnone => absurd hswept (hnone t ht)⟩
      rintro ⟨ctx, hlookup, hctx⟩
      rw [hregistered] at hctx
      cases hctx
      obtain ⟨_, hnode⟩ := getHandle_ok hlookup
      obtain ⟨n', hn', hctx'⟩ := Option.map_eq_some_iff.mp hnode
      have hstill := progress.inv.entries _ n' hn'
      rw [hctx'] at hstill
      obtain ⟨j, _, hslot', _⟩ := hstill
      exact absurd hslot' (hno j)

/-- The dispatch of a batch is faithful if and only if no event of a connection
comes up behind a timer event that closes the connection. This is so for every
worker after any run, and every batch that may be reported for it. -/
theorem dispatch_faithful_iff {config : ServerConfig} {maxFd sizes : Nat} {epollCtl : CtlAnswers}
    {unixFd timerFd now : Int} {start w : Worker} {batch : List BatchEvent}
    (started : workerStart maxFd epollCtl sizes unixFd timerFd now = .ok start)
    (run : WorkerRun config start w) (reported : Reported config w batch) :
    Faithful config w batch ↔
      ∀ done e rest m, batch = done ++ e :: rest → dispatchBatch config w done = .ok m →
        ∀ t ∈ done, ¬ SweptBy config w t e.fd := by
  have inv := run_inv (workerStart_inv config started) run
  have each : ∀ done e rest m, batch = done ++ e :: rest → dispatchBatch config w done = .ok m →
      ((∃ ctx, fdeventsGetHandle m.ev e.fd = .ok ctx ∧ registeredCtx w e.fd = some ctx) ↔
        ∀ t ∈ done, ¬ SweptBy config w t e.fd) := by
    intro done e rest m split hrun
    have he : e ∈ batch := by
      rw [split]
      exact List.mem_append_right _ List.mem_cons_self
    exact lookup_iff inv (progress inv reported done _ m split hrun) (reported.watched e he)
      (reported.apart split)
  constructor
  · intro faithful done e rest m split hrun
    exact (each done e rest m split hrun).mp (faithful done e rest m split hrun)
  · intro unswept done e rest m split hrun
    exact (each done e rest m split hrun).mpr (unswept done e rest m split hrun)

/-- The timer fires when the connection has been idle too long; the peer has
closed its side, so that `read` finds the end of the stream. -/
def timerEvent : BatchEvent where
  fd := 4
  mask := EventMask.input
  now := 1000
  recv := .endOfFile
  answers := fun _ _ => { SysAnswers.failing with shutdown := true, read := .data [] }

/-- The end of the stream is reported for the connection itself, too. -/
def streamEndEvent : BatchEvent := { timerEvent with fd := 5 }

/-- A worker with one connection, on descriptor 5, that has sent nothing. -/
lemma idle_worker : ∃ start w, workerStart 16 ctlSucceeds 4 3 4 0 = .ok start ∧
    WorkerRun setConfigDefault start w ∧
    (w.unixDomainSocketFd = 3 ∧ w.timerFd = 4 ∧ w.ev.interest 4 = some EventMask.input.withErrors ∧
      w.ev.interest 5 = some EventMask.input.withErrors) ∧
    ∃ m, dispatchBatch setConfigDefault w [timerEvent] = .ok m ∧ m.ev.node 5 = none := by
  obtain ⟨start, w, hstart, hcall, hrange, hunix, htimer, hheld, hfds, hswept⟩ : ∃ start w,
      workerStart 16 ctlSucceeds 4 3 4 0 = .ok start ∧
      handlerCall setConfigDefault start (.unixDomainSocket EventMask.input
        (.message (some 5) 0) fun _ => SysAnswers.failing) = .ok w ∧
      start.ev.InRange 5 ∧ (5 : Int) ≠ start.unixDomainSocketFd ∧ (5 : Int) ≠ start.timerFd ∧
      (5 : Int) ∉ heldFds start ∧
      (w.unixDomainSocketFd = 3 ∧ w.timerFd = 4 ∧
        w.ev.interest 4 = some EventMask.input.withErrors ∧
        w.ev.interest 5 = some EventMask.input.withErrors) ∧
      (dispatchBatch setConfigDefault w [timerEvent]).toOption.any
        (fun m => decide (m.ev.node 5 = none)) = true :=
    ⟨_, _, rfl, rfl, ⟨by decide, by decide⟩, by decide, by decide, by decide,
      ⟨rfl, rfl, by decide +kernel, by decide +kernel⟩, by decide +kernel⟩
  obtain ⟨m, hm, hnone⟩ := (Option.any_eq_true _ _).mp hswept
  have permitted : Permitted start (.unixDomainSocket EventMask.input (.message (some 5) 0)
      fun _ => SysAnswers.failing) := ⟨5, rfl, hrange, hunix, htimer, hheld⟩
  exact ⟨start, w, hstart, .call .start permitted hcall, hfds, m, toOption_eq_some hm,
    of_decide_eq_true hnone⟩

lemma reported_here {w : Worker} {batch : List BatchEvent} (distinct : (batch.map BatchEvent.fd).Nodup)
    (fds : ∀ e ∈ batch, e.fd = 4 ∨ e.fd = 5) (unixSocket : w.unixDomainSocketFd = 3)
    (four : w.ev.interest 4 = some EventMask.input.withErrors)
    (five : w.ev.interest 5 = some EventMask.input.withErrors) :
    Reported setConfigDefault w batch := by
  refine ⟨distinct, ?_, ?_⟩
  · intro e he
    rcases fds e he with h | h <;> rw [h]
    · exact ⟨by decide, _, four⟩
    · exact ⟨by decide, _, five⟩
  · intro done e rest m split _ hfd
    have he : e ∈ batch := by
      rw [split]
      exact List.mem_append_right _ List.mem_cons_self
    rw [unixSocket] at hfd
    have := fds e he
    omega

/-- The event of the connection in front of that of the timer finds its connection. -/
theorem dispatch_faithful_before : ∃ start w, workerStart 16 ctlSucceeds 4 3 4 0 = .ok start ∧
    WorkerRun setConfigDefault start w ∧
    Faithful setConfigDefault w [streamEndEvent, timerEvent] := by
  obtain ⟨start, w, hstart, run, ⟨hunix, htimer, hfour, hfive⟩, _⟩ := idle_worker
  have reported : Reported setConfigDefault w [streamEndEvent, timerEvent] :=
    reported_here (by decide) (by decide) hunix hfour hfive
  refine ⟨start, w, hstart, run, (dispatch_faithful_iff hstart run reported).mpr ?_⟩
  rintro done e rest m split _ t ht ⟨hfd, _⟩
  rw [htimer] at hfd
  rcases done with _ | ⟨x, _ | ⟨y, done⟩⟩
  · cases ht
  · cases split
    cases List.mem_singleton.mp ht
    exact absurd hfd (by decide)
  · have hlength := congrArg List.length split
    simp at hlength

/-- Behind the event of the timer it finds an empty entry: the assertion fires. -/
theorem dispatch_not_faithful : ¬ ∀ (config : ServerConfig) (maxFd sizes : Nat)
    (epollCtl : CtlAnswers) (unixFd timerFd now : Int) (start w : Worker) (batch : List BatchEvent),
    workerStart maxFd epollCtl sizes unixFd timerFd now = .ok start → WorkerRun config start w →
    Reported config w batch → Faithful config w batch := by
  intro faithful
  obtain ⟨start, w, hstart, run, ⟨hunix, htimer, hfour, hfive⟩, m, hm, hnone⟩ := idle_worker
  have reported : Reported setConfigDefault w [timerEvent, streamEndEvent] :=
    reported_here (by decide) (by decide) hunix hfour hfive
  obtain ⟨ctx, hlookup, _⟩ := faithful setConfigDefault 16 4 ctlSucceeds 3 4 0 start w _ hstart run
    reported [timerEvent] streamEndEvent [] m rfl hm
  obtain ⟨_, hnode⟩ := getHandle_ok hlookup
  rw [show streamEndEvent.fd = 5 from rfl, hnone] at hnode
  cases hnode

end EventDispatch
