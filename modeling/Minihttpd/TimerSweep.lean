import Minihttpd.WorkerTable

/-!
# The sweep of the timer

What `worker_timer_expire_handler` makes of each slot. A call on one connection
leaves every other slot alone, and a connection that the sweep has found
overdue ends released, or lingers in `CON_STATE_CLOSE` with time left.
-/
namespace TimerSweep

open ByteBuffer SystemCalls FdEvents ChunkQueue ConnectionTypes HttpConnection StateMachine
open HttpWorker ConnectionInvariant Turns ConnectionRuns Registration WorkerTable FailingRun Slots

/-- The machine that `connection_state_machine` runs on the connection `conn` of the worker. -/
def machineOf (w : Worker) (conn : Connection) : Machine := ⟨w.curTs, conn, w.ev, []⟩

/-- The worker after a call on the connection `conn`, which slot `i` points to. -/
inductive CallEnd (config : ServerConfig) (answers : Nat → SysAnswers) (w : Worker) (i a : Nat)
    (conn : Connection) : Worker → Prop where
  | kept (r : Machine) : connectionStateMachine config answers (machineOf w conn) = .ok r →
      LeftOpen config (machineOf w conn) r →
      CallEnd config answers w i a conn ({ w with ev := r.ev }.setHeap a (some r.conn))
  | released (r : Machine) : connectionStateMachine config answers (machineOf w conn) = .ok r →
      Closed (machineOf w conn) r →
      CallEnd config answers w i a conn (releaseConnection
        { w with ev := r.ev, closed := w.closed ++ [conn.connSocketFd] } a i)

lemma slot_machineInv {config : ServerConfig} {w : Worker} {i a : Nat} {conn : Connection}
    (h : SlotInv config w.ev i a conn) : MachineInv config (machineOf w conn) := by
  obtain ⟨events, hwatched⟩ := h.watched
  exact ⟨h.inv, fun _ => ⟨_, events, hwatched⟩⟩

lemma table_slot {config : ServerConfig} {w : Worker} (inv : TableInv config w) {i a : Nat}
    {conn : Connection} (slot : InSlot w i a) (hconn : w.heap a = some conn) :
    SlotInv config w.ev i a conn := by
  obtain ⟨c, hc, hslot⟩ := inv.slots i a slot
  rw [hconn] at hc
  cases hc
  exact hslot

theorem workerStateMachine_cases {config : ServerConfig} {answers : Nat → SysAnswers}
    {w next : Worker} (inv : TableInv config w) {i a : Nat} {conn : Connection}
    (slot : InSlot w i a) (hconn : w.heap a = some conn)
    (h : workerStateMachine config answers w a = .ok next) :
    CallEnd config answers w i a conn next := by
  have hslot := table_slot inv slot hconn
  simp only [workerStateMachine, hconn] at h
  obtain ⟨r, hr, h⟩ := bind_eq_ok.mp h
  rcases stateMachine_spec answers (slot_machineInv hslot) hslot.open_still with
    ⟨r', hr', hend⟩ | ⟨e, he, _⟩
  · have hsame : r' = r := Except.ok.inj (hr'.symm.trans hr)
    subst hsame
    rcases hend with hopen | hclosed
    · rw [if_neg hopen.rests.open_still] at h
      have hcloses : socketCloses r'.trace = [] := hopen.closes
      rw [hcloses, List.append_nil] at h
      cases h
      exact .kept r' hr hopen
    · rw [if_pos hclosed.state] at h
      have hcloses : socketCloses r'.trace = [conn.connSocketFd] := hclosed.closes
      have hindex : r'.conn.connectionIndex = i := hclosed.index.trans hslot.index
      rw [hcloses, hindex] at h
      cases h
      exact .released r' hr hclosed
  · have hr' : connectionStateMachine config answers (machineOf w conn) = .ok r := hr
    rw [he] at hr'
    cases hr'

/-- What is the same in both workers but for slot `i` and address `a`. -/
structure OnlySlot (w next : Worker) (i a : Nat) : Prop where
  slots : ∀ j, j ≠ i → next.conn[j]? = w.conn[j]?
  heap : ∀ b, b ≠ a → next.heap b = w.heap b
  curTs : next.curTs = w.curTs
  nextAddress : next.nextAddress = w.nextAddress
  unixSocket : next.unixDomainSocketFd = w.unixDomainSocketFd
  timer : next.timerFd = w.timerFd

lemma CallEnd.onlySlot {config : ServerConfig} {answers : Nat → SysAnswers} {w next : Worker}
    {i a : Nat} {conn : Connection} (h : CallEnd config answers w i a conn next) :
    OnlySlot w next i a := by
  cases h with
  | kept r _ _ =>
    exact ⟨fun _ _ => rfl, fun b hb => Function.update_of_ne hb _ _, rfl, rfl, rfl, rfl⟩
  | released r _ _ =>
    refine ⟨fun j hj => ?_, fun b hb => Function.update_of_ne hb _ _, rfl, rfl, rfl, rfl⟩
    exact List.getElem?_set_ne (Ne.symm hj)

/-- In `CON_STATE_CLOSE` before its timeout. -/
def Lingering (curTs : Int) (conn : Connection) : Prop :=
  conn.state = .close ∧ ¬ curTs - conn.closeTimeoutTs > minihttpdCloseTimeout

/-- Whether a turn in `CON_STATE_CLOSE` closes the connection. -/
def ClosesNow (curTs : Int) (ans : SysAnswers) (closeTimeoutTs : Int) : Prop :=
  peerGone ans.read = true ∨ curTs - closeTimeoutTs > minihttpdCloseTimeout

/-- Whether a call that finds the connection in `CON_STATE_ERROR` or
`CON_STATE_CLOSE` closes it. -/
def Expelled (answers : Nat → SysAnswers) (m : Machine) : Prop :=
  m.conn.state = .error ∧
      ClosesNow m.curTs (answers 1) (closeTimeout m.curTs (answers 0).shutdown) ∨
    m.conn.state = .close ∧ ClosesNow m.curTs (answers 0) m.conn.closeTimeoutTs

/-- How such a call ends, by `closed`. -/
def ClosingEnd (closed : Prop) (curTs : Int) (conn : Connection) : Prop :=
  conn.state = .connect ∧ closed ∨ Lingering curTs conn ∧ ¬ closed

lemma ClosingEnd.congr {closed closed' : Prop} {curTs : Int} {conn : Connection}
    (h : ClosingEnd closed curTs conn) (same : closed ↔ closed') : ClosingEnd closed' curTs conn :=
  h.imp (And.imp_right same.mp) (And.imp_right (mt same.mpr))

lemma iteration_close {config : ServerConfig} {ans : SysAnswers} {m : Machine}
    (hstate : m.conn.state = .close) :
    connectionIteration config ans m = handleClose ans (m.emit [.state .close]) := by
  simp only [connectionIteration, Machine.emit, hstate]

lemma closesNow_iff (curTs : Int) (ans : SysAnswers) (ts : Int) :
    curTs - (if peerGone ans.read = true then curTs - (minihttpdCloseTimeout + 1) else ts) >
      minihttpdCloseTimeout ↔ ClosesNow curTs ans ts := by
  rw [ClosesNow]
  by_cases hgone : peerGone ans.read = true
  · rw [if_pos hgone]
    constructor
    · intro _
      exact Or.inl hgone
    · intro _
      omega
  · rw [if_neg hgone]
    exact ⟨Or.inr, fun h => h.resolve_left hgone⟩

lemma close_iteration {config : ServerConfig} {m : Machine} (ans : SysAnswers)
    (inv : MachineInv config m) (hstate : m.conn.state = .close) :
    ∃ next, connectionIteration config ans m = .ok next ∧
      ClosingEnd (ClosesNow m.curTs ans m.conn.closeTimeoutTs) m.curTs next.conn := by
  obtain ⟨ctx, events, hwatched⟩ := inv.watched (by rw [hstate]; exact ConnectionState.noConfusion)
  rw [iteration_close hstate, handleClose]
  generalize hts : (if peerGone ans.read = true then _ else _) = ts
  have hcloses : m.curTs - ts > minihttpdCloseTimeout ↔
      ClosesNow m.curTs ans m.conn.closeTimeoutTs := by
    rw [← hts]
    exact closesNow_iff _ _ _
  by_cases hlate : m.curTs - ts > minihttpdCloseTimeout
  · obtain ⟨ev, hclose, _⟩ := @connectionClose_spec
      ((m.emit [.state .close]).advance { m.conn with closeTimeoutTs := ts } []) ctx events hwatched
    exact ⟨_, (if_pos hlate).trans hclose, Or.inl ⟨rfl, hcloses.mp hlate⟩⟩
  · exact ⟨_, if_neg hlate, Or.inr ⟨⟨hstate, hlate⟩, mt hcloses.mpr hlate⟩⟩

lemma close_loop {config : ServerConfig} (answers : Nat → SysAnswers) (fuel turn : Nat) {m : Machine}
    (inv : MachineInv config m) (hstate : m.conn.state = .close) :
    ∃ r, stateLoop config answers (fuel + 2) turn m = .ok r ∧
      ClosingEnd (ClosesNow m.curTs (answers turn) m.conn.closeTimeoutTs) m.curTs r.conn := by
  obtain ⟨next, hnext, hend⟩ := close_iteration (answers turn) inv hstate
  rw [stateLoop, hnext]
  change ∃ r, (if next.conn.state = m.conn.state then _ else _) = _ ∧ _
  rcases hend with ⟨hconnect, hcloses⟩ | hlingering
  · have hmoves : next.conn.state ≠ m.conn.state := by
      rw [hconnect, hstate]
      exact ConnectionState.noConfusion
    -- one more turn in `CON_STATE_CONNECT` ends the loop
    have hlast : connectionIteration config (answers (turn + 1)) next =
        .ok (next.emit [.state .connect]) := by
      simp only [connectionIteration, Machine.emit, hconnect]
    refine ⟨next.emit [.state .connect], ?_, Or.inl ⟨hconnect, hcloses⟩⟩
    rw [if_neg hmoves, stateLoop, hlast]
    exact if_pos rfl
  · refine ⟨next, ?_, Or.inr hlingering⟩
    rw [hlingering.1.1, hstate]
    exact if_pos rfl

/-- From `CON_STATE_ERROR` and from `CON_STATE_CLOSE` a call cannot fault, and
a connection that it leaves has time left. -/
theorem closing_loop {config : ServerConfig} (answers : Nat → SysAnswers) {m : Machine}
    (inv : MachineInv config m) (closing : m.conn.state = .error ∨ m.conn.state = .close) :
    ∃ r, stateLoop config answers 16 0 m = .ok r ∧
      ClosingEnd (Expelled answers m) m.curTs r.conn := by
  rcases closing with herror | hclose
  · have hturn : connectionIteration config (answers 0) m =
        .ok (handleError (answers 0) (m.emit [.state .error])) := by
      simp only [connectionIteration, Machine.emit, herror]
    have hnext := turn_machineInv inv hturn
    obtain ⟨r, hr, hend⟩ := close_loop answers 13 1 hnext rfl
    refine ⟨r, ?_, hend.congr ?_⟩
    · have hmoves :
          (handleError (answers 0) (m.emit [.state .error])).conn.state ≠ m.conn.state := by
        rw [herror]
        exact ConnectionState.noConfusion
      rw [stateLoop, hturn]
      exact (if_neg hmoves).trans hr
    · constructor
      · intro h
        exact Or.inl ⟨herror, h⟩
      · rintro (⟨_, h⟩ | ⟨hclose, _⟩)
        · exact h
        · rw [herror] at hclose
          cases hclose
  · obtain ⟨r, hr, hend⟩ := close_loop answers 14 0 inv hclose
    refine ⟨r, hr, hend.congr ?_⟩
    constructor
    · intro h
      exact Or.inr ⟨hclose, h⟩
    · rintro (⟨herror, _⟩ | ⟨_, h⟩)
      · rw [hclose] at herror
        cases herror
      · exact h

theorem closing_call {config : ServerConfig} (answers : Nat → SysAnswers) {m : Machine}
    (inv : MachineInv config m) (closing : m.conn.state = .error ∨ m.conn.state = .close) :
    ∃ r, connectionStateMachine config answers m = .ok r ∧
      ClosingEnd (Expelled answers m) m.curTs r.conn := by
  have open_still : m.conn.state ≠ .connect := by
    rcases closing with h | h <;> rw [h] <;> exact ConnectionState.noConfusion
  obtain ⟨next, hloop, hend⟩ := closing_loop answers inv closing
  rw [connectionStateMachine, hloop]
  change ∃ r, (if next.conn.state = .connect then _ else _) = _ ∧ _
  rcases hend with ⟨hconnect, hexpelled⟩ | hlingering
  · exact ⟨next, if_pos hconnect, Or.inl ⟨hconnect, hexpelled⟩⟩
  · have hopen : next.conn.state ≠ .connect := by
      rw [hlingering.1.1]
      exact ConnectionState.noConfusion
    rw [if_neg hopen]
    rcases stateLoop_spec 16 0 inv open_still (rank_lt m.conn) with
      ⟨next', hloop', hend'⟩ | ⟨e, he, _⟩
    · rw [hloop] at hloop'
      cases hloop'
      rcases hend' with ⟨_, _, p, ans, hp, hturn, hsame⟩ | hclosed
      · obtain ⟨rest, hrest, _, _, hconn, _⟩ := settled_rests hp hturn hsame hopen
        exact ⟨rest, hrest, Or.inr (by rw [hconn]; exact hlingering)⟩
      · exact absurd hclosed.state hopen
    · rw [he] at hloop
      cases hloop

/-- Whether the sweep closes an overdue connection at once. The answers are
those of its own call. -/
def SweptOff (answers : Nat → SysAnswers) (conn : Connection) : Prop :=
  conn.state = .close ∨ (answers 0).shutdown = false ∨ peerGone (answers 1).read = true

/-- An overdue connection is turned to `CON_STATE_ERROR` unless it is closing. -/
lemma timerExpire_some {config : ServerConfig} {t : Int} {conn after : Connection}
    (h : timerExpire config t conn = some after) :
    conn.state ≠ .close ∧ after = { conn with state := .error } ∨
      conn.state = .close ∧ t - conn.closeTimeoutTs > minihttpdCloseTimeout ∧ after = conn := by
  rw [timerExpire] at h
  split at h
  · rename_i hread
    refine Or.inl ⟨?_, (Option.some.inj h).symm⟩
    rw [hread.1]
    exact ConnectionState.noConfusion
  · split at h
    · rename_i hwrite
      refine Or.inl ⟨?_, (Option.some.inj h).symm⟩
      rw [hwrite.1]
      exact ConnectionState.noConfusion
    · split at h
      · rename_i hclose
        exact Or.inr ⟨hclose.1, hclose.2, (Option.some.inj h).symm⟩
      · cases h

/-- The call of the sweep on an overdue connection closes it exactly if it is
closing already, its `shutdown` fails or its peer is gone. -/
lemma expelled_iff {config : ServerConfig} {answers : Nat → SysAnswers} {w : Worker}
    {conn after : Connection} (h : timerExpire config w.curTs conn = some after) :
    Expelled answers (machineOf w after) ↔ SweptOff answers conn := by
  rcases timerExpire_some h with ⟨hopen, rfl⟩ | ⟨hclose, hlate, rfl⟩
  · have hcloses : ClosesNow w.curTs (answers 1) (closeTimeout w.curTs (answers 0).shutdown) ↔
        (answers 0).shutdown = false ∨ peerGone (answers 1).read = true := by
      rw [ClosesNow, closeTimeout]
      cases hshutdown : (answers 0).shutdown with
      | true =>
        constructor
        · rintro (hgone | hlate)
          · exact Or.inr hgone
          · rw [if_pos rfl, Int.sub_self] at hlate
            exact absurd hlate (by decide)
        · rintro (h | hgone)
          · cases h
          · exact Or.inl hgone
      | false =>
        constructor
        · intro _
          exact Or.inl rfl
        · intro _
          right
          rw [if_neg Bool.false_ne_true]
          omega
    rw [SweptOff, ← hcloses]
    constructor
    · rintro (⟨_, h⟩ | ⟨h, _⟩)
      · exact Or.inr h
      · cases h
    · intro h
      exact Or.inl ⟨rfl, h.resolve_left hopen⟩
  · constructor
    · intro _
      exact Or.inl hclose
    · intro _
      exact Or.inr ⟨hclose, Or.inr hlate⟩

/-- The connection that slot `i` points to, with its address. -/
def slotConn (w : Worker) (i : Nat) : Option (Nat × Connection) :=
  (w.conn.getD i none).bind (fun a => (w.heap a).map (fun conn => (a, conn)))

/-- What the sweep at `t` makes of a slot, with the answers of its own call. -/
inductive SweptTo (config : ServerConfig) (t : Int) (answers : Nat → SysAnswers) :
    Option (Nat × Connection) → Option (Nat × Connection) → Prop where
  | empty : SweptTo config t answers none none
  | spared (a : Nat) (conn : Connection) : timerExpire config t conn = none →
      SweptTo config t answers (some (a, conn)) (some (a, conn))
  | released (a : Nat) (conn after : Connection) : timerExpire config t conn = some after →
      SweptOff answers conn → SweptTo config t answers (some (a, conn)) none
  | lingering (a : Nat) (conn after closing : Connection) :
      timerExpire config t conn = some after → ¬ SweptOff answers conn → Lingering t closing →
      closing.connSocketFd = conn.connSocketFd →
      SweptTo config t answers (some (a, conn)) (some (a, closing))

lemma getD_inSlot {w : Worker} {i a : Nat} : w.conn.getD i none = some a ↔ InSlot w i a := by
  rw [List.getD_eq_getElem?_getD, InSlot]
  cases w.conn[i]? with
  | none =>
    constructor <;> intro h <;> cases h
  | some key => exact ⟨congrArg some, Option.some.inj⟩

lemma slotConn_eq_some {w : Worker} {i a : Nat} {conn : Connection} :
    slotConn w i = some (a, conn) ↔ InSlot w i a ∧ w.heap a = some conn := by
  rw [slotConn, ← getD_inSlot]
  constructor
  · intro h
    obtain ⟨b, hb, hmap⟩ := Option.bind_eq_some_iff.mp h
    obtain ⟨c, hc, hpair⟩ := Option.map_eq_some_iff.mp hmap
    cases hpair
    exact ⟨hb, hc⟩
  · rintro ⟨hslot, hconn⟩
    rw [hslot, Option.bind_some, hconn, Option.map_some]

lemma slotConn_eq_none {w : Worker} {i : Nat} (h : w.conn[i]? = some none) : slotConn w i = none := by
  rw [slotConn, List.getD_eq_getElem?_getD, h]
  rfl

/-- A call on the connection of one slot leaves the other slots alone. -/
lemma OnlySlot.others {config : ServerConfig} {w next : Worker} {i a : Nat}
    (only : OnlySlot w next i a) (inv : TableInv config w) (slot : InSlot w i a) {j : Nat}
    (hj : j ≠ i) : slotConn next j = slotConn w j := by
  have hslots : next.conn.getD j none = w.conn.getD j none := by
    rw [List.getD_eq_getElem?_getD, List.getD_eq_getElem?_getD, only.slots j hj]
  rw [slotConn, slotConn, hslots]
  cases hkey : w.conn.getD j none with
  | none => rfl
  | some b =>
    have hb : b ≠ a := by
      rintro rfl
      exact hj (inv.slot_unique (getD_inSlot.mp hkey) slot)
    rw [Option.bind_some, Option.bind_some, only.heap b hb]

/-- One turn of the loop over the slots: it comes back whatever the slot holds. -/
structure SweepStep (config : ServerConfig) (answers : Nat → SysAnswers) (w : Worker) (i : Nat)
    (next : Worker) : Prop where
  inv : TableInv config next
  curTs : next.curTs = w.curTs
  nextAddress : next.nextAddress = w.nextAddress
  unixSocket : next.unixDomainSocketFd = w.unixDomainSocketFd
  timer : next.timerFd = w.timerFd
  swept : SweptTo config w.curTs answers (slotConn w i) (slotConn next i)
  others : ∀ j, j ≠ i → slotConn next j = slotConn w j

/-- The call that the sweep makes on an overdue connection. -/
lemma overdue_call {config : ServerConfig} (answers : Nat → SysAnswers) {w : Worker} {i a : Nat}
    {conn after : Connection} (inv : TableInv config w) (slot : InSlot w i a)
    (hconn : w.heap a = some conn) (hexpire : timerExpire config w.curTs conn = some after) :
    ∃ next, workerStateMachine config answers (w.setHeap a (some after)) a = .ok next ∧
      SweepStep config answers w i next := by
  have hslot := table_slot inv slot hconn
  obtain ⟨hafter, hsocket⟩ := timerExpire_conn hslot.inv hexpire
  have hset := tableInv_setHeap inv slot hconn hafter (timerExpire_open hexpire) hsocket
  have hself : (w.setHeap a (some after)).heap a = some after := Function.update_self _ _ _
  have hclosing : after.state = .error ∨ after.state = .close := by
    rcases timerExpire_cases hexpire with rfl | ⟨hclose, rfl⟩
    · exact Or.inl rfl
    · exact Or.inr hclose
  obtain ⟨r, hr, hend⟩ :=
    closing_call answers (slot_machineInv (table_slot hset slot hself)) hclosing
  have hoff := @expelled_iff config answers w conn after hexpire
  have hbefore : slotConn w i = some (a, conn) := slotConn_eq_some.mpr ⟨slot, hconn⟩
  rcases workerStateMachine_spec answers hset slot with ⟨next, hnext, hinv⟩ | ⟨e, he, _⟩
  · have hcases := workerStateMachine_cases hset slot hself hnext
    have honly : OnlySlot w next i a := by
      obtain ⟨hslots, hheap, hts, haddress, hunix, htimer⟩ := hcases.onlySlot
      exact ⟨hslots, fun b hb => (hheap b hb).trans (Function.update_of_ne hb _ _), hts, haddress,
        hunix, htimer⟩
    refine ⟨next, hnext, hinv, honly.curTs, honly.nextAddress, honly.unixSocket, honly.timer, ?_,
      fun j hj => honly.others inv slot hj⟩
    rw [hbefore]
    cases hcases with
    | kept r' hr' hopen =>
      rw [hr] at hr'
      cases hr'
      rcases hend with ⟨hconnect, _⟩ | ⟨hlingering, hnot⟩
      · exact absurd hconnect hopen.rests.open_still
      · have hkept : slotConn ({ w.setHeap a (some after) with ev := r.ev }.setHeap a
            (some r.conn)) i = some (a, r.conn) :=
          slotConn_eq_some.mpr ⟨slot, Function.update_self _ _ _⟩
        rw [hkept]
        exact .lingering a conn after r.conn hexpire (mt hoff.mpr hnot) hlingering
          (hopen.socket.fd.trans hsocket.fd)
    | released r' hr' hclosed =>
      rw [hr] at hr'
      cases hr'
      have hcleared : (w.conn.set i none)[i]? = some none := by
        rw [List.getElem?_set_self', show w.conn[i]? = _ from slot]
        rfl
      rw [slotConn_eq_none hcleared]
      rcases hend with ⟨_, hexpelled⟩ | ⟨hlingering, _⟩
      · exact .released a conn after hexpire (hoff.mp hexpelled)
      · have hclose := hlingering.1
        rw [hclosed.state] at hclose
        cases hclose
  · exfalso
    have hm : connectionStateMachine config answers
        ⟨(w.setHeap a (some after)).curTs, after, (w.setHeap a (some after)).ev, []⟩ = .ok r := hr
    simp only [workerStateMachine, hself, hm] at he
    change (if r.conn.state = .connect then _ else _) = _ at he
    split at he <;> cases he

lemma sweepStep_same {config : ServerConfig} {answers : Nat → SysAnswers} {w : Worker} {i : Nat}
    (inv : TableInv config w)
    (swept : SweptTo config w.curTs answers (slotConn w i) (slotConn w i)) :
    SweepStep config answers w i w :=
  ⟨inv, rfl, rfl, rfl, rfl, swept, fun _ _ => rfl⟩

theorem sweepSlot_step {config : ServerConfig} (answers : Nat → Nat → SysAnswers) {w : Worker}
    (inv : TableInv config w) (i : Nat) :
    ∃ next, sweepSlot config answers w i = .ok next ∧ SweepStep config (answers i) w i next := by
  rw [sweepSlot]
  cases hkey : w.conn.getD i none with
  | none =>
    have hempty : slotConn w i = none := by
      rw [slotConn, hkey]
      rfl
    exact ⟨w, rfl, sweepStep_same inv (hempty ▸ .empty)⟩
  | some a =>
    have slot : InSlot w i a := getD_inSlot.mp hkey
    obtain ⟨conn, hconn, _⟩ := inv.slots i a slot
    simp only [hconn]
    cases hexpire : timerExpire config w.curTs conn with
    | none =>
      have hbefore : slotConn w i = some (a, conn) := slotConn_eq_some.mpr ⟨slot, hconn⟩
      exact ⟨w, rfl, sweepStep_same inv (hbefore ▸ .spared a conn hexpire)⟩
    | some after => exact overdue_call (answers i) inv slot hconn hexpire

lemma slotConn_beyond {w : Worker} {i : Nat} (h : w.connMaxSize ≤ i) : slotConn w i = none := by
  rw [slotConn, List.getD_eq_getElem?_getD, List.getElem?_eq_none h]
  rfl

lemma tableInv_clock {config : ServerConfig} {w : Worker} (inv : TableInv config w) (now : Int) :
    TableInv config { w with curTs := now } :=
  ⟨inv.count, inv.slots, inv.entries, inv.mirrors, inv.addresses, inv.unixSocket, inv.timer,
    inv.descriptors⟩

/-- A worker in the middle of a sweep at `now` of the worker `w`. -/
structure Sweeping (config : ServerConfig) (now : Int) (w s : Worker) : Prop where
  inv : TableInv config s
  curTs : s.curTs = now
  nextAddress : s.nextAddress = w.nextAddress
  unixSocket : s.unixDomainSocketFd = w.unixDomainSocketFd
  timer : s.timerFd = w.timerFd

lemma Sweeping.step {config : ServerConfig} {now : Int} {answers : Nat → SysAnswers}
    {w s next : Worker} {i : Nat} (h : Sweeping config now w s)
    (step : SweepStep config answers s i next) : Sweeping config now w next :=
  ⟨step.inv, step.curTs.trans h.curTs, step.nextAddress.trans h.nextAddress,
    step.unixSocket.trans h.unixSocket, step.timer.trans h.timer⟩

/-- The handler of the timer comes back, with every slot swept at the new time. -/
theorem timer_sweeps {config : ServerConfig} {mask : EventMask} {now : Int}
    (answers : Nat → Nat → SysAnswers) {w : Worker} (inv : TableInv config w)
    (fires : mask.epollin = true) (advances : now ≠ w.curTs) :
    ∃ next, workerTimerExpireHandler config mask now answers w = .ok next ∧
      Sweeping config now w next ∧
      ∀ i, SweptTo config now (answers i) (slotConn w i) (slotConn next i) := by
  obtain ⟨next, hnext, hend, hswept, hsame⟩ := @foldlM_each _ _ _
    (sweepSlot config answers) _ slotConn (fun i => SweptTo config now (answers i))
    (Sweeping config now w) (List.range w.connMaxSize) List.nodup_range
    (by
      intro s i hs
      obtain ⟨t, ht, hstep⟩ := sweepSlot_step answers hs.inv i
      exact ⟨t, ht, hs.step hstep, hs.curTs ▸ hstep.swept, hstep.others⟩)
    { w with curTs := now } ⟨tableInv_clock inv now, rfl, rfl, rfl, rfl⟩
  have hfires : mask.epollin ≠ false := by
    rw [fires]
    decide
  refine ⟨next, ?_, hend, fun i => ?_⟩
  · rw [workerTimerExpireHandler, if_neg hfires, if_neg advances]
    exact hnext
  · by_cases hi : i < w.connMaxSize
    · exact hswept i (List.mem_range.mpr hi)
    · have hbeyond : slotConn w i = none := slotConn_beyond (Nat.le_of_not_lt hi)
      rw [hsame i (fun h => hi (List.mem_range.mp h))]
      change SweptTo config now (answers i) (slotConn w i) (slotConn w i)
      rw [hbeyond]
      exact .empty

end TimerSweep
