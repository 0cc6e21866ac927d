import Minihttpd.ConnectionRuns
import Minihttpd.RegistrationFaults
import Minihttpd.HttpWorker
import Minihttpd.Library.Slots

/-!
# The table of a worker

Slots, counter, event array, interest set and open descriptors agree after
every handler, whichever way a connection comes or goes.
-/
namespace WorkerTable

open ByteBuffer SystemCalls FdEvents ChunkQueue ConnectionTypes HttpConnection StateMachine
open HttpWorker ConnectionInvariant ConnectionRuns Registration RegistrationFaults FailingRun Slots

/-- Slot `i` of `conn[]` points to the connection at address `a`. -/
def InSlot (w : Worker) (i a : Nat) : Prop := w.conn[i]? = some (some a)

def socketOf (w : Worker) (a : Nat) : Option Int := (w.heap a).map Connection.connSocketFd

/-- The descriptors of the connections in the table. -/
def heldFds (w : Worker) : List Int := held (socketOf w) w.conn

/-- The connection that slot `i` points to. -/
structure SlotInv (config : ServerConfig) (ev : Fdevents) (i a : Nat) (conn : Connection) :
    Prop where
  inv : ConnInv config conn
  index : conn.connectionIndex = i
  open_still : conn.state ≠ .connect
  watched : ∃ events, Watched ev conn.connSocketFd (.connection a) events

/-- Whom the entry of descriptor `k` belongs to. -/
def EntryOf (w : Worker) (k : Nat) : HandlerCtx → Prop
  | .unixDomainSocket => k = w.unixDomainSocketFd.toNat
  | .timer => k = w.timerFd.toNat
  | .connection a =>
    ∃ i conn, InSlot w i a ∧ w.heap a = some conn ∧ conn.connSocketFd.toNat = k

structure TableInv (config : ServerConfig) (w : Worker) : Prop where
  count : w.curConnectionNumber = occupied w.conn
  slots : ∀ i a, InSlot w i a → ∃ conn, w.heap a = some conn ∧ SlotInv config w.ev i a conn
  entries : ∀ k n, w.ev.handlerArray k = some n → EntryOf w k n.ctx
  mirrors : ∀ k, Mirrors w.ev k
  addresses : ∀ i a, InSlot w i a → a < w.nextAddress
  unixSocket : ∃ events, Watched w.ev w.unixDomainSocketFd .unixDomainSocket events
  timer : ∃ events, Watched w.ev w.timerFd .timer events
  descriptors : w.received.Perm (w.closed ++ heldFds w)

lemma TableInv.slot_unique {config : ServerConfig} {w : Worker} (inv : TableInv config w)
    {i j a : Nat} (hi : InSlot w i a) (hj : InSlot w j a) : i = j := by
  obtain ⟨conn, hconn, hslot⟩ := inv.slots i a hi
  obtain ⟨conn', hconn', hslot'⟩ := inv.slots j a hj
  rw [hconn] at hconn'
  cases hconn'
  exact hslot.index.symm.trans hslot'.index

lemma toNat_inj {a b : Int} (ha : 0 ≤ a) (hb : 0 ≤ b) (h : a.toNat = b.toNat) : a = b := by
  omega

/-- Two slots with one descriptor are one slot. -/
lemma TableInv.fd_unique {config : ServerConfig} {w : Worker} (inv : TableInv config w)
    {i j a b : Nat} {conn conn' : Connection} (hi : InSlot w i a) (hj : InSlot w j b)
    (hconn : w.heap a = some conn) (hconn' : w.heap b = some conn')
    (same : conn.connSocketFd.toNat = conn'.connSocketFd.toNat) : i = j ∧ a = b := by
  obtain ⟨c, hc, hslot⟩ := inv.slots i a hi
  obtain ⟨c', hc', hslot'⟩ := inv.slots j b hj
  rw [hconn] at hc
  rw [hconn'] at hc'
  cases hc
  cases hc'
  obtain ⟨events, hwatched⟩ := hslot.watched
  obtain ⟨events', hwatched'⟩ := hslot'.watched
  have hnode := hwatched.node
  rw [same, hwatched'.node] at hnode
  cases hnode
  exact ⟨inv.slot_unique hi hj, rfl⟩

lemma watched_onlyAt {fd other : Int} {ev ev' : Fdevents} {ctx : HandlerCtx} {events : EventMask}
    (only : OnlyAt fd ev ev') (ne : other.toNat ≠ fd.toNat) (h : Watched ev other ctx events) :
    Watched ev' other ctx events := by
  refine ⟨only.inRange.mpr h.range, ?_, only.mirrors ne h.mirrors⟩
  rw [only.nodes _ ne]
  exact h.node

lemma mirrors_onlyAt {fd : Int} {ev ev' : Fdevents} (only : OnlyAt fd ev ev')
    (here : Mirrors ev' fd.toNat) (before : ∀ k, Mirrors ev k) (k : Nat) : Mirrors ev' k := by
  by_cases hk : k = fd.toNat
  · rw [hk]
    exact here
  · exact only.mirrors hk (before k)

/-- An entry keeps its owner as long as the connections do. -/
lemma EntryOf.carry {w w' : Worker} {k : Nat} {ctx : HandlerCtx} (h : EntryOf w k ctx)
    (unixSocket : w'.unixDomainSocketFd = w.unixDomainSocketFd) (timer : w'.timerFd = w.timerFd)
    (connections : ∀ a i conn, InSlot w i a → w.heap a = some conn →
      conn.connSocketFd.toNat = k →
      ∃ j after, InSlot w' j a ∧ w'.heap a = some after ∧ after.connSocketFd.toNat = k) :
    EntryOf w' k ctx := by
  cases ctx with
  | unixDomainSocket =>
    rw [EntryOf, unixSocket]
    exact h
  | timer =>
    rw [EntryOf, timer]
    exact h
  | connection a =>
    obtain ⟨i, conn, slot, hconn, hk⟩ := h
    exact connections a i conn slot hconn hk

/-- Replacing a connection by one on the same socket keeps the table. -/
lemma tableInv_setHeap {config : ServerConfig} {w : Worker} (inv : TableInv config w) {i a : Nat}
    {conn after : Connection} (slot : InSlot w i a) (hconn : w.heap a = some conn)
    (hafter : ConnInv config after) (open_still : after.state ≠ .connect)
    (socket : SameSocket conn after) : TableInv config (w.setHeap a (some after)) := by
  have hself : (w.setHeap a (some after)).heap a = some after := Function.update_self _ _ _
  have hother : ∀ b, b ≠ a → (w.setHeap a (some after)).heap b = w.heap b :=
    fun b hb => Function.update_of_ne hb _ _
  have hsocket : ∀ b, socketOf (w.setHeap a (some after)) b = socketOf w b := by
    intro b
    by_cases hb : b = a
    · rw [hb, socketOf, socketOf, hself, hconn, Option.map_some, Option.map_some, socket.fd]
    · rw [socketOf, socketOf, hother b hb]
  refine ⟨inv.count, ?_, ?_, inv.mirrors, inv.addresses, inv.unixSocket, inv.timer, ?_⟩
  · intro j b hslot
    obtain ⟨old, hold, hinv⟩ := inv.slots j b hslot
    by_cases hb : b = a
    · subst hb
      rw [hconn] at hold
      cases hold
      refine ⟨after, hself, hafter, socket.index.trans hinv.index, open_still, ?_⟩
      rw [socket.fd]
      exact hinv.watched
    · exact ⟨old, (hother b hb).trans hold, hinv.inv, hinv.index, hinv.open_still, hinv.watched⟩
  · intro k n hn
    refine EntryOf.carry (inv.entries k n hn) (by rfl) (by rfl) ?_
    intro b j old hslot hold hk
    by_cases hb : b = a
    · subst hb
      rw [hconn] at hold
      cases hold
      exact ⟨j, after, hslot, hself, by rw [socket.fd]; exact hk⟩
    · exact ⟨j, old, hslot, (hother b hb).trans hold, hk⟩
  · have hheld : heldFds (w.setHeap a (some after)) = heldFds w := by
      rw [heldFds, heldFds]
      exact held_congr (fun _ b _ => hsocket b)
    rw [hheld]
    exact inv.descriptors

/-- Touching one entry, the owner of which stays, leaves every owner its entry. -/
lemma watched_kept {fd other : Int} {ev ev' : Fdevents} {ctx ctx' : HandlerCtx}
    {old new events : EventMask} (only : OnlyAt fd ev ev') (before : Watched ev fd ctx old)
    (after : Watched ev' fd ctx new) (h : Watched ev other ctx' events) :
    ∃ events', Watched ev' other ctx' events' := by
  by_cases heq : other.toNat = fd.toNat
  · have hfd : other = fd := toNat_inj h.range.1 before.range.1 heq
    subst hfd
    rw [watched_ctx h before]
    exact ⟨new, after⟩
  · exact ⟨events, watched_onlyAt only heq h⟩

/-- Only one entry has been touched, and its owner stays. -/
lemma tableInv_setEv {config : ServerConfig} {w : Worker} (inv : TableInv config w) {fd : Int}
    {ctx : HandlerCtx} {ev : Fdevents} {old new : EventMask} (before : Watched w.ev fd ctx old)
    (only : OnlyAt fd w.ev ev) (after : Watched ev fd ctx new) :
    TableInv config { w with ev := ev } := by
  refine ⟨inv.count, ?_, ?_, ?_, inv.addresses, ?_, ?_, inv.descriptors⟩
  · intro j b hj
    obtain ⟨conn, hconn, hinv⟩ := inv.slots j b hj
    obtain ⟨events, hwatched⟩ := hinv.watched
    exact ⟨conn, hconn, hinv.inv, hinv.index, hinv.open_still,
      watched_kept only before after hwatched⟩
  · intro k n hn
    change ev.handlerArray k = some n at hn
    by_cases hk : k = fd.toNat
    · rw [hk, after.node] at hn
      cases hn
      rw [hk]
      exact inv.entries _ ⟨ctx, old⟩ before.node
    · rw [only.nodes k hk] at hn
      exact inv.entries k n hn
  · exact mirrors_onlyAt only after.mirrors inv.mirrors
  · obtain ⟨events, hwatched⟩ := inv.unixSocket
    exact watched_kept only before after hwatched
  · obtain ⟨events, hwatched⟩ := inv.timer
    exact watched_kept only before after hwatched

/-- The slot, the entry and the descriptor of a closed connection go together. -/
lemma tableInv_release {config : ServerConfig} {w : Worker} (inv : TableInv config w) {i a : Nat}
    {conn : Connection} {ev : Fdevents} (slot : InSlot w i a) (hconn : w.heap a = some conn)
    (only : OnlyAt conn.connSocketFd w.ev ev)
    (node : ev.handlerArray conn.connSocketFd.toNat = none)
    (interest : ev.interest conn.connSocketFd.toNat = none) :
    TableInv config (releaseConnection
      { w with ev := ev, closed := w.closed ++ [conn.connSocketFd] } a i) := by
  have hother : ∀ b, b ≠ a → Function.update w.heap a none b = w.heap b :=
    fun b hb => Function.update_of_ne hb _ _
  -- the slots that are left hold other connections, on other descriptors
  have left_over : ∀ j b, (w.conn.set i none)[j]? = some (some b) → InSlot w j b ∧ b ≠ a := by
    intro j b hj
    obtain ⟨hold, hji⟩ := getElem?_set_none hj
    refine ⟨hold, fun hb => hji ?_⟩
    rw [hb] at hold
    exact inv.slot_unique hold slot
  obtain ⟨c, hc, hslot⟩ := inv.slots i a slot
  rw [hconn] at hc
  cases hc
  obtain ⟨old, hold⟩ := hslot.watched
  have apart : ∀ (fd : Int) ctx m, Watched w.ev fd ctx m → ctx ≠ .connection a →
      fd.toNat ≠ conn.connSocketFd.toNat := by
    intro fd ctx m hw hne heq
    have hnode := hw.node
    rw [heq, hold.node] at hnode
    cases hnode
    exact hne rfl
  have hcount := occupied_clear slot
  refine ⟨?_, ?_, ?_, ?_, ?_, ?_, ?_, ?_⟩
  · change w.curConnectionNumber - 1 = occupied (w.conn.set i none)
    rw [inv.count]
    omega
  · intro j b hj
    obtain ⟨hin, hb⟩ := left_over j b hj
    obtain ⟨other, hheap, hinv⟩ := inv.slots j b hin
    obtain ⟨m, hm⟩ := hinv.watched
    have hne : HandlerCtx.connection b ≠ .connection a := by
      intro h
      cases h
      exact hb rfl
    exact ⟨other, (hother b hb).trans hheap, hinv.inv, hinv.index, hinv.open_still, m,
      watched_onlyAt only (apart _ _ _ hm hne) hm⟩
  · intro k n hn
    change ev.handlerArray k = some n at hn
    by_cases hk : k = conn.connSocketFd.toNat
    · rw [hk, node] at hn
      cases hn
    · rw [only.nodes k hk] at hn
      refine EntryOf.carry (inv.entries k n hn) (by rfl) (by rfl) ?_
      intro b j other hj hheap hfd
      have hb : b ≠ a := by
        rintro rfl
        rw [hconn] at hheap
        cases hheap
        exact hk hfd.symm
      have hji : i ≠ j := by
        rintro rfl
        rw [InSlot, slot] at hj
        cases hj
        exact hb rfl
      refine ⟨j, other, ?_, (hother b hb).trans hheap, hfd⟩
      change (w.conn.set i none)[j]? = some (some b)
      rw [List.getElem?_set_ne hji]
      exact hj
  · apply mirrors_onlyAt only ⟨fun _ => interest, fun _ => ?_⟩ inv.mirrors
    rw [node, interest]
    rfl
  · intro j b hj
    exact inv.addresses j b (left_over j b hj).1
  · obtain ⟨m, hm⟩ := inv.unixSocket
    exact ⟨m, watched_onlyAt only (apart _ _ _ hm HandlerCtx.noConfusion) hm⟩
  · obtain ⟨m, hm⟩ := inv.timer
    exact ⟨m, watched_onlyAt only (apart _ _ _ hm HandlerCtx.noConfusion) hm⟩
  · have hmeans : socketOf w a = some conn.connSocketFd := by
      rw [socketOf, hconn]
      rfl
    have hclear := held_clear slot hmeans
    have hrest : heldFds (releaseConnection
        { w with ev := ev, closed := w.closed ++ [conn.connSocketFd] } a i) =
        held (socketOf w) (w.conn.set i none) := by
      apply held_congr
      intro j b hj
      have hb := (left_over j b hj).2
      exact congrArg (Option.map Connection.connSocketFd) (hother b hb)
    change w.received.Perm (w.closed ++ [conn.connSocketFd] ++ _)
    rw [hrest, List.append_assoc]
    exact inv.descriptors.trans (hclear.append_left w.closed)

/-- What a handler makes of the table: it keeps it, or a call of the state
machine in it faults. -/
def KeepsTable (config : ServerConfig) (result : Except Fault Worker) : Prop :=
  (∃ w, result = .ok w ∧ TableInv config w) ∨ ∃ e, result = .error e ∧ CallFault config e

/-- One call of `connection_state_machine` on a connection of the table. -/
theorem workerStateMachine_spec {config : ServerConfig} (answers : Nat → SysAnswers) {w : Worker}
    (inv : TableInv config w) {i a : Nat} (slot : InSlot w i a) :
    KeepsTable config (workerStateMachine config answers w a) := by
  obtain ⟨conn, hconn, hslot⟩ := inv.slots i a slot
  obtain ⟨events, hwatched⟩ := hslot.watched
  have hinv : MachineInv config ⟨w.curTs, conn, w.ev, []⟩ := ⟨hslot.inv, fun _ => ⟨_, _, hwatched⟩⟩
  simp only [workerStateMachine, hconn]
  rcases stateMachine_spec answers hinv hslot.open_still with ⟨r, hr, hend⟩ | ⟨e, he, hfault⟩
  · left
    rw [hr]
    change ∃ w', (if r.conn.state = .connect then _ else _) = _ ∧ _
    rcases hend with hopen | hclosed
    · refine ⟨_, if_neg hopen.rests.open_still, ?_⟩
      have hcloses : socketCloses r.trace = [] := hopen.closes
      obtain ⟨events', hwatched'⟩ := hopen.watched _ _ hwatched
      have hev := tableInv_setEv inv hwatched hopen.only hwatched'
      have hset := tableInv_setHeap hev slot hconn hopen.inv.conn hopen.rests.open_still hopen.socket
      rw [hcloses, List.append_nil]
      exact hset
    · refine ⟨_, if_pos hclosed.state, ?_⟩
      have hcloses : socketCloses r.trace = [conn.connSocketFd] := hclosed.closes
      have hindex : r.conn.connectionIndex = i := hclosed.index.trans hslot.index
      rw [hcloses, hindex]
      exact tableInv_release inv slot hconn hclosed.only hclosed.node hclosed.interest
  · exact Or.inr ⟨e, by rw [he]; rfl, hfault⟩

lemma noteEvents_open {conn : Connection} (mask : EventMask) (now : Int)
    (open_still : conn.state ≠ .connect) : (noteEvents mask now conn).state ≠ .connect := by
  obtain ⟨readable, writeable, heq | heq | ⟨_, heq⟩⟩ := noteEvents_cases mask now conn
  · rw [heq]
    exact open_still
  · rw [heq]
    exact ConnectionState.noConfusion
  · rw [heq]
    exact open_still

lemma timerExpire_open {config : ServerConfig} {now : Int} {conn after : Connection}
    (h : timerExpire config now conn = some after) : after.state ≠ .connect := by
  rcases timerExpire_cases h with rfl | ⟨hclose, rfl⟩
  · exact ConnectionState.noConfusion
  · rw [hclose]
    exact ConnectionState.noConfusion

theorem connectionEventHandle_keeps {config : ServerConfig} (mask : EventMask) (now : Int)
    (answers : Nat → SysAnswers) {w : Worker} (inv : TableInv config w) {i a : Nat}
    (slot : InSlot w i a) :
    KeepsTable config (connectionEventHandle config mask now answers w a) := by
  obtain ⟨conn, hconn, hslot⟩ := inv.slots i a slot
  simp only [connectionEventHandle, hconn]
  exact workerStateMachine_spec answers (tableInv_setHeap inv slot hconn
    (noteEvents_conn hslot.inv mask now) (noteEvents_open mask now hslot.open_still)
    (noteEvents_socket mask now conn)) slot

theorem sweepSlot_keeps {config : ServerConfig} (answers : Nat → Nat → SysAnswers) {w : Worker}
    (inv : TableInv config w) (i : Nat) : KeepsTable config (sweepSlot config answers w i) := by
  rw [sweepSlot]
  cases hkey : w.conn.getD i none with
  | none => exact Or.inl ⟨w, rfl, inv⟩
  | some a =>
    have slot : InSlot w i a := by
      rw [List.getD_eq_getElem?_getD] at hkey
      rw [InSlot]
      cases hget : w.conn[i]? with
      | none =>
        rw [hget] at hkey
        cases hkey
      | some key =>
        rw [hget] at hkey
        exact congrArg some hkey
    obtain ⟨conn, hconn, hslot⟩ := inv.slots i a slot
    simp only [hconn]
    cases hexpire : timerExpire config w.curTs conn with
    | none => exact Or.inl ⟨w, rfl, inv⟩
    | some after =>
      obtain ⟨hafter, hsocket⟩ := timerExpire_conn hslot.inv hexpire
      exact workerStateMachine_spec (answers i) (tableInv_setHeap inv slot hconn hafter
        (timerExpire_open hexpire) hsocket) slot

/-- The slots are swept one after the other, and each call may release one. -/
theorem timerHandler_keeps {config : ServerConfig} (mask : EventMask) (now : Int)
    (answers : Nat → Nat → SysAnswers) {w : Worker} (inv : TableInv config w) :
    KeepsTable config (workerTimerExpireHandler config mask now answers w) := by
  rw [workerTimerExpireHandler]
  split
  · exact Or.inl ⟨w, rfl, inv⟩
  · split
    · exact Or.inl ⟨w, rfl, inv⟩
    · have later : TableInv config { w with curTs := now } :=
        ⟨inv.count, inv.slots, inv.entries, inv.mirrors, inv.addresses, inv.unixSocket, inv.timer,
          inv.descriptors⟩
      exact foldlM_total (List.range w.connMaxSize)
        (fun w i _ hw => sweepSlot_keeps answers hw i) later

/-- A descriptor that is not open in the worker. -/
structure NotOpen (w : Worker) (fd : Int) : Prop where
  range : w.ev.InRange fd
  unixSocket : fd ≠ w.unixDomainSocketFd
  timer : fd ≠ w.timerFd
  held : fd ∉ heldFds w

lemma NotOpen.free {config : ServerConfig} {w : Worker} {fd : Int} (h : NotOpen w fd)
    (inv : TableInv config w) : w.ev.handlerArray fd.toNat = none := by
  cases hnode : w.ev.handlerArray fd.toNat with
  | none => rfl
  | some n =>
    exfalso
    have hentry := inv.entries _ n hnode
    cases hctx : n.ctx with
    | unixDomainSocket =>
      rw [hctx] at hentry
      obtain ⟨_, hwatched⟩ := inv.unixSocket
      exact h.unixSocket (toNat_inj h.range.1 hwatched.range.1 hentry)
    | timer =>
      rw [hctx] at hentry
      obtain ⟨_, hwatched⟩ := inv.timer
      exact h.timer (toNat_inj h.range.1 hwatched.range.1 hentry)
    | connection a =>
      rw [hctx] at hentry
      obtain ⟨i, conn, slot, hconn, hfd⟩ := hentry
      obtain ⟨c, hc, hslot⟩ := inv.slots i a slot
      rw [hconn] at hc
      cases hc
      obtain ⟨_, hwatched⟩ := hslot.watched
      have hmeans : socketOf w a = some conn.connSocketFd := by
        rw [socketOf, hconn]
        rfl
      have hheld : conn.connSocketFd ∈ heldFds w := mem_held slot hmeans
      rw [toNat_inj hwatched.range.1 h.range.1 hfd] at hheld
      exact h.held hheld

/-- The worker in which slot `index` has been given to a new connection. -/
def addConnection (w : Worker) (index : Nat) (fd : Int) (ev : Fdevents) : Worker :=
  { w with
    conn := w.conn.set index (some w.nextAddress)
    curConnectionNumber := w.curConnectionNumber + 1
    heap := Function.update w.heap w.nextAddress
      (some { connectionSetDefault with connectionIndex := index, connSocketFd := fd })
    nextAddress := w.nextAddress + 1
    ev := ev
    received := w.received ++ [fd] }

lemma TableInv.received {config : ServerConfig} {w : Worker} (inv : TableInv config w) (fd : Int) :
    (w.received ++ [fd]).Perm (w.closed ++ (fd :: heldFds w)) := by
  have happend := inv.descriptors.append_right [fd]
  rw [List.append_assoc] at happend
  exact happend.trans ((List.perm_append_singleton fd (heldFds w)).append_left w.closed)

lemma addConnection_slot {w : Worker} {index : Nat} (fd : Int) (ev : Fdevents)
    (empty : w.conn[index]? = some none) : InSlot (addConnection w index fd ev) index w.nextAddress := by
  change (w.conn.set index (some w.nextAddress))[index]? = _
  rw [List.getElem?_set_self', empty]
  rfl

/-- The slot, the entry and the descriptor of a new connection come together. -/
lemma tableInv_addConnection {config : ServerConfig} {w : Worker} (inv : TableInv config w) {index : Nat}
    {fd : Int} {ev : Fdevents} (empty : w.conn[index]? = some none)
    (free : w.ev.handlerArray fd.toNat = none) (only : OnlyAt fd w.ev ev)
    (after : Watched ev fd (.connection w.nextAddress) EventMask.none) :
    TableInv config (addConnection w index fd ev) := by
  have hself := addConnection_slot fd ev empty
  have hother : ∀ a, a ≠ w.nextAddress → (addConnection w index fd ev).heap a = w.heap a :=
    fun a ha => Function.update_of_ne ha _ _
  have hnew : (addConnection w index fd ev).heap w.nextAddress =
      some { connectionSetDefault with connectionIndex := index, connSocketFd := fd } :=
    Function.update_self _ _ _
  -- a connection of the table is older than the new one
  have older : ∀ i a, InSlot w i a → a ≠ w.nextAddress :=
    fun i a h => Nat.ne_of_lt (inv.addresses i a h)
  have apart : ∀ (other : Int) ctx m, Watched w.ev other ctx m → other.toNat ≠ fd.toNat := by
    intro other ctx m hw heq
    have hnode := hw.node
    rw [heq, free] at hnode
    cases hnode
  refine ⟨?_, ?_, ?_, ?_, ?_, ?_, ?_, ?_⟩
  · change w.curConnectionNumber + 1 = occupied (w.conn.set index (some w.nextAddress))
    rw [occupied_fill w.nextAddress empty, inv.count]
  · intro j b hj
    rcases getElem?_set_some hj with ⟨rfl, rfl⟩ | ⟨_, hj⟩
    · exact ⟨_, hnew, setDefault_inv config j fd, rfl, ConnectionState.noConfusion, _, after⟩
    · obtain ⟨conn, hconn, hinv⟩ := inv.slots j b hj
      obtain ⟨events, hwatched⟩ := hinv.watched
      exact ⟨conn, (hother b (older j b hj)).trans hconn, hinv.inv, hinv.index, hinv.open_still,
        events, watched_onlyAt only (apart _ _ _ hwatched) hwatched⟩
  · intro k n hn
    change ev.handlerArray k = some n at hn
    by_cases hk : k = fd.toNat
    · rw [hk, after.node] at hn
      cases hn
      exact ⟨index, _, hself, hnew, hk.symm⟩
    · rw [only.nodes k hk] at hn
      refine EntryOf.carry (inv.entries k n hn) (by rfl) (by rfl) ?_
      intro b j conn hj hconn hfd
      have hij : index ≠ j := by
        rintro rfl
        rw [InSlot, empty] at hj
        cases hj
      refine ⟨j, conn, ?_, (hother b (older j b hj)).trans hconn, hfd⟩
      change (w.conn.set index (some w.nextAddress))[j]? = some (some b)
      rw [List.getElem?_set_ne hij]
      exact hj
  · exact mirrors_onlyAt only after.mirrors inv.mirrors
  · intro j b hj
    change b < w.nextAddress + 1
    rcases getElem?_set_some hj with ⟨_, rfl⟩ | ⟨_, hj⟩
    · exact Nat.lt_succ_self _
    · exact Nat.lt_succ_of_lt (inv.addresses j b hj)
  · obtain ⟨m, hm⟩ := inv.unixSocket
    exact ⟨m, watched_onlyAt only (apart _ _ _ hm) hm⟩
  · obtain ⟨m, hm⟩ := inv.timer
    exact ⟨m, watched_onlyAt only (apart _ _ _ hm) hm⟩
  · have hmeans : socketOf (addConnection w index fd ev) w.nextAddress = some fd := by
      rw [socketOf, hnew]
      rfl
    have hfill := held_fill empty hmeans
    have hrest : held (socketOf (addConnection w index fd ev)) w.conn = heldFds w :=
      held_congr (fun i a h => congrArg (Option.map Connection.connSocketFd)
        (hother a (older i a h)))
    rw [hrest] at hfill
    change (w.received ++ [fd]).Perm (w.closed ++ _)
    exact (inv.received fd).trans (hfill.symm.append_left w.closed)

/-- A table with room gives away an empty slot. -/
lemma getNewConnection_room {w : Worker} (count : w.curConnectionNumber = occupied w.conn)
    (room : w.curConnectionNumber < w.connMaxSize) :
    ∃ index, w.conn[index]? = some none ∧ workerGetNewConnection w =
      .ok (some (w.nextAddress, { w with
        conn := w.conn.set index (some w.nextAddress)
        curConnectionNumber := w.curConnectionNumber + 1
        heap := Function.update w.heap w.nextAddress
          (some { connectionSetDefault with connectionIndex := index })
        nextAddress := w.nextAddress + 1 })) := by
  have hroom : occupied w.conn < w.conn.length := by
    rw [← count]
    exact room
  obtain ⟨index, hfind, hempty⟩ := exists_empty hroom
  refine ⟨index, hempty, ?_⟩
  rw [workerGetNewConnection, if_neg (Nat.not_le.mpr room)]
  simp only [hfind]

/-- The worker stops listening to the acceptor. -/
def withoutUnixSocket (w : Worker) : Except Fault Worker := do
  let ev ← fdeventsUnsetEvent w.ev w.unixDomainSocketFd
  return { w with ev := ev }

lemma withoutUnixSocket_keeps {config : ServerConfig} {w : Worker} (inv : TableInv config w) :
    KeepsTable config (withoutUnixSocket w) := by
  obtain ⟨events, hwatched⟩ := inv.unixSocket
  obtain ⟨ev, hunset, honly, hafter⟩ := unsetEvent_spec hwatched
  refine Or.inl ⟨{ w with ev := ev }, ?_, tableInv_setEv inv hwatched honly hafter⟩
  rw [withoutUnixSocket, hunset]
  rfl

section UnixSocket
variable (config : ServerConfig) {mask : EventMask} (answers : Nat → SysAnswers) {w : Worker}

/-- A received descriptor is closed at once where the table is full, and is given
to a new connection otherwise. -/
theorem handle_message (fd : Option Int) (unset : Int)
    (count : w.curConnectionNumber = occupied w.conn) (hup : mask.epollhup = false)
    (err : mask.epollerr = false) :
    unixDomainSocketHandle config mask (.message fd unset) answers w =
      .ok { w with
        received := w.received ++ [fd.getD unset], closed := w.closed ++ [fd.getD unset] } ∨
    ∃ index, w.conn[index]? = some none ∧
      unixDomainSocketHandle config mask (.message fd unset) answers w =
        (fdeventsRegisterFd w.ev (fd.getD unset) (.connection w.nextAddress) >>= fun ev =>
          workerStateMachine config answers (addConnection w index (fd.getD unset) ev)
            w.nextAddress) := by
  simp only [unixDomainSocketHandle, hup, err, Bool.false_eq_true, if_false]
  generalize fd.getD unset = f
  by_cases hroom : w.curConnectionNumber < w.connMaxSize
  · right
    obtain ⟨index, hempty, hnew⟩ :=
      getNewConnection_room (w := { w with received := w.received ++ [f] }) count hroom
    refine ⟨index, hempty, ?_⟩
    rw [hnew]
    change (fdeventsRegisterFd w.ev f (.connection w.nextAddress) >>= _) = _
    refine bind_congr_ok fun ev _ => ?_
    have hset : ∀ conn : Option Connection,
        Function.update (Function.update w.heap w.nextAddress
          (some { connectionSetDefault with connectionIndex := index })) w.nextAddress conn =
        Function.update w.heap w.nextAddress conn := fun _ => Function.update_idem _ _ _
    simp only [Worker.setHeap, Function.update_self, hset, Option.map_some]
    rfl
  · left
    have hfull : workerGetNewConnection { w with received := w.received ++ [f] } = .ok none :=
      if_pos (Nat.le_of_not_lt hroom)
    rw [hfull]
    rfl

/-- Without a message the worker stays, or loses its unix socket. -/
theorem handle_cases (recv : RecvAnswer) :
    unixDomainSocketHandle config mask recv answers w = .ok w ∨
    unixDomainSocketHandle config mask recv answers w = withoutUnixSocket w ∨
    mask.epollhup = false ∧ mask.epollerr = false ∧ ∃ fd unset, recv = .message fd unset := by
  unfold unixDomainSocketHandle
  by_cases hhup : mask.epollhup = true
  · rw [if_pos hhup]
    exact Or.inr (Or.inl rfl)
  by_cases herr : mask.epollerr = true
  · rw [if_neg hhup, if_pos herr]
    exact Or.inl rfl
  rw [if_neg hhup, if_neg herr]
  cases recv with
  | fail errno logged =>
    dsimp only
    cases logged.getD errno with
    | eintr => exact Or.inl rfl
    | eagain => exact Or.inl rfl
    | _ => exact Or.inr (Or.inl rfl)
  | endOfFile => exact Or.inr (Or.inl rfl)
  | message fd unset =>
    exact Or.inr (Or.inr ⟨eq_false_of_ne_true hhup, eq_false_of_ne_true herr, fd, unset, rfl⟩)

end UnixSocket

lemma TableInv.refuse {config : ServerConfig} {w : Worker} (inv : TableInv config w) (f : Int) :
    TableInv config { w with received := w.received ++ [f], closed := w.closed ++ [f] } := by
  refine ⟨inv.count, inv.slots, inv.entries, inv.mirrors, inv.addresses, inv.unixSocket, inv.timer,
    ?_⟩
  -- the descriptor is closed at once
  change (w.received ++ [f]).Perm (w.closed ++ [f] ++ heldFds w)
  rw [List.append_assoc]
  exact inv.received f

/-- What `recvmsg` may answer: a message carries a descriptor that is new to
the worker. -/
def FreshDescriptor (w : Worker) : RecvAnswer → Prop
  | .message fd _ => ∃ f, fd = some f ∧ NotOpen w f
  | _ => True

theorem unixDomainSocketHandle_keeps {config : ServerConfig} (mask : EventMask) {recv : RecvAnswer}
    (answers : Nat → SysAnswers) {w : Worker} (inv : TableInv config w)
    (fresh : FreshDescriptor w recv) :
    KeepsTable config (unixDomainSocketHandle config mask recv answers w) := by
  rcases handle_cases config answers recv with hsame | hunset | ⟨hhup, herr, fd, unset, rfl⟩
  · exact Or.inl ⟨w, hsame, inv⟩
  · rw [hunset]
    exact withoutUnixSocket_keeps inv
  · obtain ⟨f, rfl, hf⟩ := fresh
    rcases handle_message config answers (some f) unset inv.count hhup herr with
      hfull | ⟨index, hempty, hadd⟩
    · exact Or.inl ⟨_, hfull, inv.refuse f⟩
    · have hfree := hf.free inv
      obtain ⟨ev, hregister, honly, hwatched⟩ :=
        registerFd_spec (.connection w.nextAddress) hf.range hfree (inv.mirrors _)
      rw [hadd, Option.getD_some, hregister]
      exact workerStateMachine_spec answers (tableInv_addConnection inv hempty hfree honly hwatched)
        (addConnection_slot f ev hempty)

lemma registerFd_ok {ev ev' : Fdevents} {fd : Int} {ctx : HandlerCtx}
    (h : fdeventsRegisterFd ev fd ctx = .ok ev') :
    ev.InRange fd ∧ ev.handlerArray fd.toNat = none := by
  rw [fdeventsRegisterFd] at h
  split at h
  · rename_i hfree
    exact hfree
  · cases h

theorem workerStart_inv (config : ServerConfig) {maxFd sizes : Nat} {epollCtl : CtlAnswers}
    {unixFd timerFd now : Int} {w : Worker}
    (h : workerStart maxFd epollCtl sizes unixFd timerFd now = .ok w) : TableInv config w := by
  rw [workerStart] at h
  obtain ⟨ev₁, h₁, h⟩ := bind_eq_ok.mp h
  obtain ⟨ev₂, h₂, h⟩ := bind_eq_ok.mp h
  obtain ⟨ev₃, h₃, h⟩ := bind_eq_ok.mp h
  obtain ⟨ev₄, h₄, h⟩ := bind_eq_ok.mp h
  have hinput : EventMask.input ≠ EventMask.none := by decide
  obtain ⟨hrangeU, hfreeU⟩ := registerFd_ok h₁
  obtain ⟨_, hok₁, honly₁, hwatched₁⟩ := 
    registerFd_spec .unixDomainSocket hrangeU hfreeU (initialize_mirrors _ _ _)
  rw [h₁] at hok₁
  cases hok₁
  obtain ⟨_, hok₂, honly₂, hwatched₂⟩ := setEvents_spec hwatched₁ hinput
  rw [h₂] at hok₂
  cases hok₂
  have honlyU := honly₁.trans honly₂
  obtain ⟨hrangeT, hfreeT⟩ := registerFd_ok h₃
  have hapart : timerFd.toNat ≠ unixFd.toNat := by
    intro heq
    rw [heq, hwatched₂.node] at hfreeT
    cases hfreeT
  have hmirrors₂ := mirrors_onlyAt honlyU hwatched₂.mirrors (initialize_mirrors _ _)
  obtain ⟨_, hok₃, honly₃, hwatched₃⟩ := registerFd_spec .timer hrangeT hfreeT (hmirrors₂ _)
  rw [h₃] at hok₃
  cases hok₃
  obtain ⟨_, hok₄, honly₄, hwatched₄⟩ := setEvents_spec hwatched₃ hinput
  rw [h₄] at hok₄
  cases hok₄
  have honlyT := honly₃.trans honly₄
  cases h
  have hnone : ∀ i a : Nat, (List.replicate sizes (none : Option Nat))[i]? ≠ some (some a) := by
    intro i a hslot
    have := List.eq_of_mem_replicate (List.mem_of_getElem? hslot)
    cases this
  refine ⟨(occupied_replicate sizes).symm, fun i a h => absurd h (hnone i a), ?_, ?_,
    fun i a h => absurd h (hnone i a), ?_, ⟨_, hwatched₄⟩, ?_⟩
  · intro k n hn
    change ev₄.handlerArray k = some n at hn
    by_cases hkT : k = timerFd.toNat
    · rw [hkT, hwatched₄.node] at hn
      cases hn
      exact hkT
    · rw [honlyT.nodes k hkT] at hn
      by_cases hkU : k = unixFd.toNat
      · rw [hkU, hwatched₂.node] at hn
        cases hn
        exact hkU
      · rw [honlyU.nodes k hkU] at hn
        cases hn
  · exact mirrors_onlyAt honlyT hwatched₄.mirrors hmirrors₂
  · exact ⟨_, watched_onlyAt honlyT (Ne.symm hapart) hwatched₂⟩
  · change ([] : List Int).Perm ([] ++ held _ (List.replicate sizes none))
    rw [held_replicate]
    rfl

/-- A call the loop of a worker makes, with the answers it meets. -/
inductive HandlerCall where
  | unixDomainSocket (mask : EventMask) (recv : RecvAnswer) (answers : Nat → SysAnswers)
  | connection (address : Nat) (mask : EventMask) (now : Int) (answers : Nat → SysAnswers)
  | timer (mask : EventMask) (now : Int) (answers : Nat → Nat → SysAnswers)

def handlerCall (config : ServerConfig) (w : Worker) : HandlerCall → Except Fault Worker
  | .unixDomainSocket mask recv answers => unixDomainSocketHandle config mask recv answers w
  | .connection address mask now answers =>
    connectionEventHandle config mask now answers w address
  | .timer mask now answers => workerTimerExpireHandler config mask now answers w

/-- A received descriptor is new to the worker, and a connection is registered. -/
def Permitted (w : Worker) : HandlerCall → Prop
  | .unixDomainSocket _ recv _ => FreshDescriptor w recv
  | .connection address _ _ _ =>
    ∃ k n, w.ev.handlerArray k = some n ∧ n.ctx = .connection address
  | .timer _ _ _ => True

inductive WorkerRun (config : ServerConfig) (start : Worker) : Worker → Prop where
  | start : WorkerRun config start start
  | call {w next : Worker} {c : HandlerCall} : WorkerRun config start w → Permitted w c →
      handlerCall config w c = .ok next → WorkerRun config start next

/-- Slot table, counter, event array, interest set and descriptors agree. The
interest set has no descriptor without recorded events, and has what is recorded
of every descriptor for which no `epoll_ctl` has failed. -/
structure TableOk (w : Worker) : Prop where
  counter : w.curConnectionNumber = occupied w.conn ∧ w.curConnectionNumber ≤ w.connMaxSize
  slots : ∀ i a, InSlot w i a → ∃ conn events, w.heap a = some conn ∧ conn.connectionIndex = i ∧
    0 ≤ conn.connSocketFd ∧ w.ev.node conn.connSocketFd = some ⟨.connection a, events⟩
  distinct : ∀ i j a b conn conn', InSlot w i a → InSlot w j b → w.heap a = some conn →
    w.heap b = some conn' → conn.connSocketFd = conn'.connSocketFd → i = j
  entries : ∀ k n a, w.ev.handlerArray k = some n → n.ctx = .connection a →
    ∃! i, InSlot w i a ∧ ∃ conn, w.heap a = some conn ∧ conn.connSocketFd = k
  watched : ∀ k events, w.ev.interest k = some events →
    ∃ n, w.ev.handlerArray k = some n ∧ n.events ≠ EventMask.none
  interest : ∀ k, Took w.ev k → ∀ events, w.ev.interest k = some events ↔
    ∃ n, w.ev.handlerArray k = some n ∧ n.events ≠ EventMask.none ∧ events = n.events.withErrors
  closed : w.received.Perm (w.closed ++ heldFds w)

lemma recorded_eq_some {node : Option Fdnode} {events : EventMask} :
    recorded node = some events ↔
      ∃ n, node = some n ∧ n.events ≠ EventMask.none ∧ events = n.events.withErrors := by
  cases node with
  | none =>
    constructor
    · intro h
      cases h
    · rintro ⟨_, h, _⟩
      cases h
  | some n =>
    rw [recorded]
    constructor
    · intro h
      split at h
      · cases h
      · rename_i hevents
        exact ⟨n, rfl, hevents, (Option.some.inj h).symm⟩
    · rintro ⟨_, hn, hevents, rfl⟩
      cases hn
      exact if_neg hevents

/-- Whatever `epoll_ctl` answers, only descriptors with recorded events are watched. -/
lemma mirrors_node {ev : Fdevents} {k : Nat} (h : Mirrors ev k) {events : EventMask}
    (watched : ev.interest k = some events) :
    ∃ n, ev.handlerArray k = some n ∧ n.events ≠ EventMask.none := by
  cases hrecorded : recorded (ev.handlerArray k) with
  | none =>
    rw [h.unwatched hrecorded] at watched
    cases watched
  | some _ =>
    obtain ⟨n, hn, hevents, _⟩ := recorded_eq_some.mp hrecorded
    exact ⟨n, hn, hevents⟩

lemma TableInv.ok {config : ServerConfig} {w : Worker} (inv : TableInv config w) : TableOk w where
  counter := ⟨inv.count, inv.count ▸ occupied_le w.conn⟩
  slots := by
    intro i a slot
    obtain ⟨conn, hconn, hslot⟩ := inv.slots i a slot
    obtain ⟨events, hwatched⟩ := hslot.watched
    exact ⟨conn, events, hconn, hslot.index, hwatched.range.1, hwatched.node⟩
  distinct := by
    intro i j a b conn conn' hi hj hconn hconn' same
    exact (inv.fd_unique hi hj hconn hconn' (congrArg Int.toNat same)).1
  entries := by
    intro k n a hn hctx
    have hentry := inv.entries k n hn
    rw [hctx] at hentry
    obtain ⟨i, conn, slot, hconn, hfd⟩ := hentry
    obtain ⟨c, hc, hslot⟩ := inv.slots i a slot
    rw [hconn] at hc
    cases hc
    obtain ⟨_, hwatched⟩ := hslot.watched
    have hk : conn.connSocketFd = k := by
      rw [← hfd]
      exact (Int.toNat_of_nonneg hwatched.range.1).symm
    exact ⟨i, ⟨slot, conn, hconn, hk⟩, fun j hj => inv.slot_unique hj.1 slot⟩
  watched := fun k _ hwatched => mirrors_node (inv.mirrors k) hwatched
  interest := by
    intro k took events
    rw [(inv.mirrors k).watched took]
    exact recorded_eq_some
  closed := inv.descriptors

theorem handlerCall_keeps {config : ServerConfig} {w : Worker} (inv : TableInv config w)
    {c : HandlerCall} (permitted : Permitted w c) : KeepsTable config (handlerCall config w c) := by
  cases c with
  | unixDomainSocket mask recv answers =>
    exact unixDomainSocketHandle_keeps mask answers inv permitted
  | connection address mask now answers =>
    obtain ⟨k, n, hn, hctx⟩ := permitted
    have hentry := inv.entries k n hn
    rw [hctx] at hentry
    obtain ⟨_, _, slot, _⟩ := hentry
    exact connectionEventHandle_keeps mask now answers inv slot
  | timer mask now answers => exact timerHandler_keeps mask now answers inv

theorem run_inv {config : ServerConfig} {start w : Worker} (inv : TableInv config start)
    (run : WorkerRun config start w) : TableInv config w := by
  induction run with
  | start => exact inv
  | call _ permitted h ih =>
    rcases handlerCall_keeps ih permitted with ⟨_, hok, hnext⟩ | ⟨_, herror, _⟩
    · rw [h] at hok
      cases hok
      exact hnext
    · rw [h] at herror
      cases herror

lemma callFault_spares {config : ServerConfig} {e : Fault} (h : CallFault config e) :
    e ≠ .registration := by
  obtain ⟨p, ans, _, hstate, herror⟩ := h
  rintro rfl
  exact iteration_spares hstate herror

/-- The table of a worker after any sequence of handlers. The next handler
comes back with such a table again, or a state of one connection has faulted:
no assertion about the table or about the event array fails. -/
theorem table_invariant {config : ServerConfig} {maxFd sizes : Nat} {epollCtl : CtlAnswers}
    {unixFd timerFd now : Int} {start w : Worker}
    (started : workerStart maxFd epollCtl sizes unixFd timerFd now = .ok start)
    (run : WorkerRun config start w) :
    TableOk w ∧ ∀ c, Permitted w c →
      (∃ next, handlerCall config w c = .ok next ∧ TableOk next) ∨
        ∃ e, handlerCall config w c = .error e ∧ CallFault config e ∧ e ≠ .registration := by
  have inv := run_inv (workerStart_inv config started) run
  refine ⟨inv.ok, fun c permitted => ?_⟩
  rcases handlerCall_keeps inv permitted with ⟨next, hnext, hinv⟩ | ⟨e, he, hfault⟩
  · exact Or.inl ⟨next, hnext, hinv.ok⟩
  · exact Or.inr ⟨e, he, hfault, callFault_spares hfault⟩

/-- The first connection a worker is handed. -/
theorem table_invariant_first : ∃ start w,
    workerStart 16 ctlSucceeds 4 3 4 0 = .ok start ∧
    handlerCall setConfigDefault start (.unixDomainSocket EventMask.input (.message (some 5) 0)
      fun _ => SysAnswers.failing) = .ok w ∧ w.curConnectionNumber = 1 ∧ TableOk w := by
  obtain ⟨start, w, hstart, hcall, hone, hrange, hunix, htimer, hheld⟩ : ∃ start w,
      workerStart 16 ctlSucceeds 4 3 4 0 = .ok start ∧
      handlerCall setConfigDefault start (.unixDomainSocket EventMask.input
        (.message (some 5) 0) fun _ => SysAnswers.failing) = .ok w ∧ w.curConnectionNumber = 1 ∧
      start.ev.InRange 5 ∧ (5 : Int) ≠ start.unixDomainSocketFd ∧ (5 : Int) ≠ start.timerFd ∧
      (5 : Int) ∉ heldFds start :=
    ⟨_, _, rfl, rfl, rfl, ⟨by decide, by decide⟩, by decide, by decide, by decide⟩
  have permitted : Permitted start (.unixDomainSocket EventMask.input (.message (some 5) 0)
      fun _ => SysAnswers.failing) := ⟨5, rfl, hrange, hunix, htimer, hheld⟩
  exact ⟨start, w, hstart, hcall, hone,
    (table_invariant hstart (.call .start permitted hcall)).1⟩

end WorkerTable
