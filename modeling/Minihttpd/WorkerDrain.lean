import Minihttpd.ServerShutdown
import Minihttpd.TimerSweep

/-!
# A worker whose clients are silent

When nothing comes from its clients any more, two sweeps of a worker are
enough: the first turns every connection that is late to `CON_STATE_CLOSE`,
and the second closes it. What is left are the connections that write with
`active_write_ts` unset.
-/
namespace WorkerDrain

open ByteBuffer SystemCalls FdEvents ConnectionTypes HttpConnection StateMachine HttpWorker
open Turns ConnectionRuns Registration WorkerTable TimerSweep AnsweredRuns HandlerActs Slots
open ServerSystem OpenTable ConnectionLedger WorkerConnections SystemParts ServerShutdown FailingRun

/-- On its way from `CON_STATE_ERROR`, with no stamp behind the clock. -/
structure Leaving (t : Int) (m : Machine) : Prop where
  clock : m.curTs = t
  state : m.conn.state = .error ∨ m.conn.state = .close ∧ m.conn.closeTimeoutTs ≤ t ∨
    m.conn.state = .connect

section Calls
variable {config : ServerConfig} {ans : SysAnswers} {t : Int} {m next : Machine}

lemma closeTimeout_le (curTs : Int) (shutdownOk : Bool) :
    closeTimeout curTs shutdownOk ≤ curTs := by
  rw [closeTimeout, minihttpdCloseTimeout]
  split
  · exact Int.le_refl _
  · omega

lemma Leaving.stamp (leaving : Leaving t m) (state : m.conn.state = .close) :
    m.conn.closeTimeoutTs ≤ t := by
  rcases leaving.state with herror | ⟨_, hstamp⟩ | hconnect
  · rw [state] at herror
    cases herror
  · exact hstamp
  · rw [state] at hconnect
    cases hconnect

lemma leaving_turn (inv : MachineInv config m) (leaving : Leaving t m)
    (h : connectionIteration config ans m = .ok next) : Leaving t next := by
  have hclock : m.curTs = t := leaving.clock
  have hmember : m.conn.state ∈ [ConnectionState.error, .close, .connect] := by
    rcases leaving.state with h | ⟨h, _⟩ | h <;> simp [h]
  cases turn_cases inv.conn h with
  | failed => exact ⟨hclock, Or.inr (Or.inl ⟨rfl, hclock ▸ closeTimeout_le _ _⟩)⟩
  | lingers ts hstate _ hts =>
    refine ⟨hclock, Or.inr (Or.inl ⟨hstate, ?_⟩)⟩
    rcases hts with rfl | rfl
    · exact leaving.stamp hstate
    · change m.curTs - (minihttpdCloseTimeout + 1) ≤ t
      rw [hclock, minihttpdCloseTimeout]
      omega
  | closed ts ev hstate => exact ⟨hclock, Or.inr (Or.inr rfl)⟩
  | gone => exact ⟨hclock, leaving.state⟩
  | started hstate | parsed _ hstate | handled _ _ hstate | prepared _ _ _ hstate
  | read _ _ hstate | wrote _ _ hstate | finished hstate | ended hstate =>
    have hother : m.conn.state = _ := hstate
    rw [hother] at hmember
    exact absurd hmember (by decide)

lemma leaving_loop (answers : Nat → SysAnswers) (fuel turn : Nat) (inv : MachineInv config m)
    (leaving : Leaving t m) (h : stateLoop config answers fuel turn m = .ok next) :
    Leaving t next := by
  induction fuel generalizing turn m with
  | zero => cases h
  | succ fuel ih =>
    rw [stateLoop] at h
    obtain ⟨middle, hmiddle, h⟩ := bind_eq_ok.mp h
    have hleaving := leaving_turn inv leaving hmiddle
    split at h
    · cases h
      exact hleaving
    · exact ih (turn + 1) (turn_machineInv inv hmiddle) hleaving h

theorem leaving_call {answers : Nat → SysAnswers} (inv : MachineInv config m)
    (leaving : Leaving t m) (h : connectionStateMachine config answers m = .ok next) :
    Leaving t next := by
  rw [connectionStateMachine] at h
  obtain ⟨last, hlast, h⟩ := bind_eq_ok.mp h
  have hleaving := leaving_loop answers 16 0 inv leaving hlast
  split at h
  · cases h
    exact hleaving
  · obtain ⟨hconn, hclock, _⟩ := updateInterest_same h
    exact ⟨hclock.trans hleaving.clock, hconn ▸ hleaving.state⟩

end Calls

/-- A response is written, and `active_write_ts` has not been set yet. -/
def Stuck (conn : Connection) : Prop := conn.state = .write ∧ conn.activeWriteTs = 0

instance (conn : Connection) : Decidable (Stuck conn) := inferInstanceAs (Decidable (_ ∧ _))

/-- The stamp of the connection is older than its state allows. -/
def Late (config : ServerConfig) (t : Int) (conn : Connection) : Prop :=
  match conn.state with
  | .read => t - conn.activeReadTs > config.maxReadIdleTs
  | .write => t - conn.activeWriteTs > config.maxWriteIdleTs
  | _ => t - conn.closeTimeoutTs > minihttpdCloseTimeout

/-- The states in which a connection waits between two calls. -/
def waitingStates : List ConnectionState := [.read, .write, .close]

lemma rests_waiting {m : Machine} (h : Rests m) : m.conn.state ∈ waitingStates := by
  obtain ⟨_, ⟨hread | hclose, _⟩ | ⟨hwrite, _⟩⟩ := h
  · simp [waitingStates, hread]
  · simp [waitingStates, hclose]
  · simp [waitingStates, hwrite]

lemma leaving_rests {t : Int} {m : Machine} (leaving : Leaving t m) (rests : Rests m) :
    m.conn.state = .close := by
  have hwaiting := rests_waiting rests
  rcases leaving.state with herror | ⟨hclose, _⟩ | hconnect
  · rw [herror] at hwaiting
    exact absurd hwaiting (by decide)
  · exact hclose
  · rw [hconnect] at hwaiting
    exact absurd hwaiting (by decide)

section Sweeps
variable {config : ServerConfig} {t : Int} {w next : Worker}

lemma timerExpire_stuck {conn : Connection} (stuck : Stuck conn) :
    timerExpire config t conn = none := by
  obtain ⟨hstate, hzero⟩ := stuck
  simp [timerExpire, hstate, hzero]

/-- Of the late connections the stuck ones are passed over. -/
lemma timerExpire_late {conn : Connection} (waits : conn.state ∈ waitingStates)
    (late : Late config t conn) : timerExpire config t conn = none ↔ Stuck conn := by
  refine ⟨fun hnone => ?_, timerExpire_stuck⟩
  rw [Late] at late
  cases hstate : conn.state with
  | read =>
    simp only [hstate] at late
    simp [timerExpire, hstate, late] at hnone
  | write =>
    simp only [hstate] at late
    refine ⟨hstate, ?_⟩
    by_contra hnonzero
    simp [timerExpire, hstate, late, hnonzero] at hnone
  | close =>
    simp only [hstate] at late
    simp [timerExpire, hstate, late] at hnone
  | _ =>
    rw [hstate] at waits
    exact absurd waits (by decide)

/-- What the sweep leaves of an overdue connection is closing, with a stamp that
is not behind the clock. -/
lemma sweepSlot_leaves {answers : Nat → Nat → SysAnswers} {i a b : Nat} {conn left : Connection}
    (inv : TableInv config w) (h : sweepSlot config answers w i = .ok next)
    (before : slotConn w i = some (a, conn)) (after : slotConn next i = some (b, left)) :
    timerExpire config w.curTs conn = none ∧ b = a ∧ left = conn ∨
      left.state = .close ∧ left.closeTimeoutTs ≤ w.curTs := by
  obtain ⟨slot, hconn⟩ := slotConn_eq_some.mp before
  rw [sweepSlot, getD_inSlot.mpr slot] at h
  simp only [hconn] at h
  cases hexpire : timerExpire config w.curTs conn with
  | none =>
    simp only [hexpire] at h
    cases h
    rw [before] at after
    cases after
    exact Or.inl ⟨rfl, rfl, rfl⟩
  | some due =>
    right
    simp only [hexpire] at h
    have hslot := table_slot inv slot hconn
    obtain ⟨hdue, hsocket⟩ := timerExpire_conn hslot.inv hexpire
    have hset := tableInv_setHeap inv slot hconn hdue (timerExpire_open hexpire) hsocket
    have hself : (w.setHeap a (some due)).heap a = some due := Function.update_self _ _ _
    have hleaving : Leaving w.curTs (machineOf (w.setHeap a (some due)) due) := by
      refine ⟨rfl, ?_⟩
      rcases timerExpire_some hexpire with ⟨_, rfl⟩ | ⟨hclose, hlate, rfl⟩
      · exact Or.inl rfl
      · right
        left
        refine ⟨hclose, ?_⟩
        change due.closeTimeoutTs ≤ w.curTs
        rw [minihttpdCloseTimeout] at hlate
        omega
    cases workerStateMachine_cases hset slot hself h with
    | kept r hr hopen =>
      have hkept : slotConn ({ w.setHeap a (some due) with ev := r.ev }.setHeap a
          (some r.conn)) i = some (a, r.conn) :=
        slotConn_eq_some.mpr ⟨slot, Function.update_self _ _ _⟩
      rw [hkept] at after
      cases after
      have hend := leaving_call (slot_machineInv (table_slot hset slot hself)) hleaving hr
      have hclose := leaving_rests hend hopen.rests
      exact ⟨hclose, hend.stamp hclose⟩
    | released r hr hclosed =>
      have hcleared : (w.conn.set i none)[i]? = some none := by
        rw [List.getElem?_set_self', show w.conn[i]? = _ from slot]
        rfl
      rw [slotConn_eq_none hcleared] at after
      cases after

/-- What a sweep at `t` of late connections makes of a slot. -/
def Drained (t : Int) (before after : Option (Nat × Connection)) : Prop :=
  match after with
  | none => ∀ x, before = some x → ¬ Stuck x.2
  | some (a, left) => before = some (a, left) ∧ Stuck left ∨
      (∃ x, before = some x ∧ ¬ Stuck x.2 ∧ x.2.state ≠ .close) ∧
        left.state = .close ∧ left.closeTimeoutTs ≤ t

lemma sweepSlot_drains {answers : Nat → Nat → SysAnswers} {i : Nat} (inv : TableInv config w)
    (late : ∀ x, slotConn w i = some x → x.2.state ∈ waitingStates ∧ Late config w.curTs x.2)
    (h : sweepSlot config answers w i = .ok next)
    (swept : SweptTo config w.curTs (answers i) (slotConn w i) (slotConn next i)) :
    Drained w.curTs (slotConn w i) (slotConn next i) := by
  have hstuck : ∀ x, slotConn w i = some x →
      (timerExpire config w.curTs x.2 = none ↔ Stuck x.2) :=
    fun x hx => timerExpire_late (late x hx).1 (late x hx).2
  cases hafter : slotConn next i with
  | none =>
    intro x hx hnow
    have hexpire := (hstuck x hx).mpr hnow
    rw [hx, hafter] at swept
    cases swept with
    | released a conn after hsome =>
      rw [hexpire] at hsome
      cases hsome
  | some left =>
    obtain ⟨b, left⟩ := left
    cases hbefore : slotConn w i with
    | none =>
      rw [hbefore, hafter] at swept
      cases swept
    | some x =>
      obtain ⟨a, conn⟩ := x
      have hiff := hstuck (a, conn) hbefore
      rcases sweepSlot_leaves inv h hbefore hafter with ⟨hnone, rfl, rfl⟩ | hclosing
      · exact Or.inl ⟨rfl, hiff.mp hnone⟩
      · rw [hbefore, hafter] at swept
        refine Or.inr ⟨⟨(a, conn), rfl, ?_⟩, hclosing⟩
        cases swept with
        | spared _ _ hexpire =>
          have hwrite := (hiff.mp hexpire).1
          rw [hclosing.1] at hwrite
          cases hwrite
        | lingering _ _ _ _ hsome hkept =>
          constructor
          · intro hnow
            rw [hiff.mpr hnow] at hsome
            cases hsome
          · exact fun hclose => hkept (Or.inl hclose)

/-- The sweep of a worker all of whose connections are late. -/
theorem timer_drains {mask : EventMask} (answers : Nat → Nat → SysAnswers)
    (inv : TableInv config w) (fires : mask.epollin = true) (advances : t ≠ w.curTs)
    (late : ∀ i x, slotConn w i = some x → x.2.state ∈ waitingStates ∧ Late config t x.2) :
    ∃ next, workerTimerExpireHandler config mask t answers w = .ok next ∧
      Sweeping config t w next ∧ ∀ i, Drained t (slotConn w i) (slotConn next i) := by
  obtain ⟨next, hnext, hend, hdrained, hsame⟩ := @foldlM_each _ _ _
    (sweepSlot config answers) _ slotConn
    (fun _ before after => (∀ x, before = some x → x.2.state ∈ waitingStates ∧ Late config t x.2) →
      Drained t before after)
    (Sweeping config t w) (List.range w.connMaxSize) List.nodup_range
    (by
      intro s i hs
      obtain ⟨u, hu, hstep⟩ := sweepSlot_step answers hs.inv i
      refine ⟨u, hu, hs.step hstep, fun hlate => ?_, hstep.others⟩
      rw [← hs.curTs] at hlate ⊢
      exact sweepSlot_drains hs.inv hlate hu hstep.swept)
    { w with curTs := t } ⟨tableInv_clock inv t, rfl, rfl, rfl, rfl⟩
  have hfires : mask.epollin ≠ false := by
    rw [fires]
    decide
  refine ⟨next, ?_, hend, fun i => ?_⟩
  · rw [workerTimerExpireHandler, if_neg hfires, if_neg advances]
    exact hnext
  · by_cases hi : i < w.connMaxSize
    · exact hdrained i (List.mem_range.mpr hi) (late i)
    · have hbeyond : slotConn w i = none := slotConn_beyond (Nat.le_of_not_lt hi)
      rw [hsame i (fun h => hi (List.mem_range.mp h))]
      change Drained t (slotConn w i) (slotConn w i)
      rw [hbeyond]
      exact fun _ hx => absurd hx.symm (Option.some_ne_none _)

/-- Two late sweeps in a row. -/
lemma Drained.twice {t₁ t₂ : Int} {before middle after : Option (Nat × Connection)}
    (first : Drained t₁ before middle) (second : Drained t₂ middle after) :
    after = before.filter fun x => decide (Stuck x.2) := by
  have hfirst : ∀ x, middle = some x → before = some x ∧ Stuck x.2 ∨
      (∃ y, before = some y ∧ ¬ Stuck y.2) ∧ x.2.state = .close := by
    rintro x rfl
    rcases first with hsame | ⟨⟨y, hy, hnot, _⟩, hclose, _⟩
    · exact Or.inl hsame
    · exact Or.inr ⟨⟨y, hy, hnot⟩, hclose⟩
  cases after with
  | none =>
    cases before with
    | none => rfl
    | some x =>
      have hnot : ¬ Stuck x.2 := by
        intro hstuck
        cases middle with
        | none => exact first x rfl hstuck
        | some y =>
          rcases hfirst y rfl with ⟨hsame, hnow⟩ | ⟨⟨z, hz, hother⟩, _⟩
          · exact second y rfl hnow
          · cases hz
            exact hother hstuck
      simp [Option.filter, hnot]
  | some left =>
    obtain ⟨a, left⟩ := left
    rcases second with ⟨hmiddle, hstuck⟩ | ⟨⟨x, hx, hnot, hopen⟩, _⟩
    · rcases hfirst _ hmiddle with ⟨hbefore, _⟩ | ⟨_, hclose⟩
      · rw [hbefore]
        simp [Option.filter, hstuck]
      · rw [hstuck.1] at hclose
        cases hclose
    · rcases hfirst x hx with ⟨_, hstuck⟩ | ⟨_, hclose⟩
      · exact absurd hstuck hnot
      · exact absurd hclose hopen

/-- What is left between the two sweeps is late for the second one. -/
lemma Drained.late {t₁ t₂ : Int} {before middle : Option (Nat × Connection)}
    (first : Drained t₁ before middle)
    (late : ∀ x, before = some x → x.2.state ∈ waitingStates ∧ Late config t₁ x.2)
    (later : t₂ - t₁ > minihttpdCloseTimeout) :
    ∀ x, middle = some x → x.2.state ∈ waitingStates ∧ Late config t₂ x.2 := by
  rintro ⟨a, left⟩ rfl
  rw [minihttpdCloseTimeout] at later
  rcases first with ⟨hbefore, hstuck⟩ | ⟨_, hclose, hstamp⟩
  · obtain ⟨hwaits, hlate⟩ := late _ hbefore
    refine ⟨hwaits, ?_⟩
    simp only [Late, hstuck.1] at hlate ⊢
    omega
  · refine ⟨by simp [waitingStates, hclose], ?_⟩
    simp only [Late, hclose, minihttpdCloseTimeout]
    omega

/-- Behind two late sweeps only the stuck connections are left in the slots. -/
theorem two_sweeps {mask₁ mask₂ : EventMask} {t₁ t₂ : Int}
    (answers₁ answers₂ : Nat → Nat → SysAnswers) (inv : TableInv config w)
    (fires₁ : mask₁.epollin = true) (fires₂ : mask₂.epollin = true) (advances : t₁ ≠ w.curTs)
    (later : t₂ - t₁ > minihttpdCloseTimeout)
    (late : ∀ i x, slotConn w i = some x → x.2.state ∈ waitingStates ∧ Late config t₁ x.2) :
    ∃ middle next, workerTimerExpireHandler config mask₁ t₁ answers₁ w = .ok middle ∧
      workerTimerExpireHandler config mask₂ t₂ answers₂ middle = .ok next ∧
      TableInv config next ∧
      ∀ i, slotConn next i = (slotConn w i).filter fun x => decide (Stuck x.2) := by
  obtain ⟨middle, hmiddle, hsweeping, hfirst⟩ := timer_drains answers₁ inv fires₁ advances late
  have hadvances : t₂ ≠ middle.curTs := by
    rw [hsweeping.curTs]
    rw [minihttpdCloseTimeout] at later
    omega
  obtain ⟨next, hnext, hend, hsecond⟩ := timer_drains answers₂ hsweeping.inv fires₂ hadvances
    fun i => (hfirst i).late (late i) later
  exact ⟨middle, next, hmiddle, hnext, hend.inv, fun i => (hfirst i).twice (hsecond i)⟩

end Sweeps

section Ends
variable {admits : SysAnswers → Prop} {config : ServerConfig} {start s : System}

lemma slotConn_slot {w : Worker} {i a : Nat} (inv : TableInv config w) (slot : InSlot w i a) :
    ∃ conn, slotConn w i = some (a, conn) ∧ w.heap a = some conn := by
  obtain ⟨conn, hconn, _⟩ := inv.slots i a slot
  exact ⟨conn, slotConn_eq_some.mpr ⟨slot, hconn⟩, hconn⟩

lemma opened_none {p : WorkerProcess} (inv : ProcessInv config p) :
    p.opened = [] ↔ ∀ i, slotConn p.worker i = none := by
  constructor
  · intro hnone i
    by_contra hsome
    obtain ⟨⟨a, conn⟩, hslot⟩ := Option.ne_none_iff_exists'.mp hsome
    have hcounted := slot_counted inv.table (slotConn_eq_some.mp hslot).1
    rw [← opened_length inv, hnone] at hcounted
    exact Nat.lt_irrefl 0 hcounted
  · intro hnone
    by_contra hsome
    obtain ⟨c, hc⟩ := List.exists_mem_of_ne_nil _ hsome
    obtain ⟨fd, hfd, _⟩ := List.mem_filterMap.mp hc
    obtain ⟨i, a, slot, _⟩ := exists_slot hfd
    obtain ⟨conn, hslot, _⟩ := slotConn_slot inv.table slot
    rw [hnone i] at hslot
    cases hslot

/-- The timer of worker `i` fires at `t`. -/
def TimerFires (config : ServerConfig) (admits : SysAnswers → Prop) (i : Nat) (t : Int)
    (answers : Nat → Nat → SysAnswers) (s u : System) : Prop :=
  ∃ mask next, mask.epollin = true ∧
    handlerCall config (s.worker i).worker (.timer mask t answers) = .ok next ∧
    u = s.setWorker i ((s.worker i).handled config (.timer mask t answers) next) ∧
    Step config admits s u

/-- A worker whose clients are silent comes to its end. Behind two sweeps that
find all its connections late, whatever the calls of the sweeps are answered,
each slot of the worker still has its connection where that one is in
`CON_STATE_WRITE` with `active_write_ts` unset, and is empty otherwise; if all
are empty and the worker has been told to shut down, it can end. -/
theorem silent_worker_ends (begun : Begun start) (runs : Runs config admits start s) {i : Nat}
    (alive : s.Alive i) (batch : (s.worker i).inBatch = true) (t₁ t₂ : Int)
    (answers₁ answers₂ : Nat → Nat → SysAnswers) (advances : t₁ ≠ (s.worker i).worker.curTs)
    (later : t₂ - t₁ > minihttpdCloseTimeout)
    (late : ∀ a conn, (s.worker i).worker.heap a = some conn → Late config t₁ conn)
    (admitted₁ : ∀ j k, admits (answers₁ j k)) (admitted₂ : ∀ j k, admits (answers₂ j k)) :
    ∃ u v, TimerFires config admits i t₁ answers₁ s u ∧
      TimerFires config admits i t₂ answers₂ u v ∧
      (∀ j, slotConn (v.worker i).worker j =
        (slotConn (s.worker i).worker j).filter fun x => decide (Stuck x.2)) ∧
      ((v.worker i).opened = [] ↔
        ∀ a conn, (s.worker i).worker.heap a = some conn → ¬ Stuck conn) ∧
      ((v.worker i).opened = [] → (s.worker i).flags.serverShutdown = true →
        ∃ last, Runs config admits v last ∧ (last.worker i).exited = true) := by
  have hside := runs_workerSide begun runs
  obtain ⟨hrunning, hinv⟩ := hside.alive_inv alive
  obtain ⟨hviews, htable⟩ := running_views begun runs (alive_lt alive) hrunning
  have hlate : ∀ j x, slotConn (s.worker i).worker j = some x →
      x.2.state ∈ waitingStates ∧ Late config t₁ x.2 := by
    rintro j ⟨a, conn⟩ hx
    have hconn := (slotConn_eq_some.mp hx).2
    obtain ⟨_, hawaits, _⟩ := hviews.lives htable hconn
    refine ⟨?_, late a conn hconn⟩
    rcases hawaits.1 with h | h | h <;> simp [waitingStates, show conn.state = _ from h]
  have hfires : EventMask.input.epollin = true := rfl
  obtain ⟨middle, next, hmiddle, hnext, _, hslots⟩ :=
    two_sweeps answers₁ answers₂ htable hfires hfires advances later hlate
  let c₁ : HandlerCall := .timer EventMask.input t₁ answers₁
  let c₂ : HandlerCall := .timer EventMask.input t₂ answers₂
  let u := s.setWorker i ((s.worker i).handled config c₁ middle)
  let v := u.setWorker i ((u.worker i).handled config c₂ next)
  have hu : u.worker i = (s.worker i).handled config c₁ middle := System.setWorker_self _ _ _
  have hv : v.worker i = (u.worker i).handled config c₂ next := System.setWorker_self _ _ _
  have hfirst : Step config admits s u :=
    .handles i c₁ middle alive batch rfl trivial admitted₁ hmiddle
  have hbatch : (u.worker i).inBatch = true := by
    rw [hu]
    exact batch
  have hcall : handlerCall config (u.worker i).worker c₂ = .ok next := by
    rw [hu]
    exact hnext
  have hsecond : Step config admits u v :=
    .handles i c₂ next alive hbatch rfl trivial admitted₂ hcall
  have hrun : Runs config admits start v := (runs.step hfirst).step hsecond
  have hprocess := ((runs_workerSide begun hrun).alive_inv alive).2
  have hworker : (v.worker i).worker = next := by rw [hv]; rfl
  refine ⟨u, v, ⟨_, middle, rfl, hmiddle, rfl, hfirst⟩, ⟨_, next, rfl, hcall, rfl, hsecond⟩,
    fun j => by rw [hworker]; exact hslots j, ?_, ?_⟩
  · rw [opened_none hprocess, hworker]
    constructor
    · intro hnone a conn hconn hstuck
      obtain ⟨⟨j, slot⟩, _⟩ := hviews.lives htable hconn
      have hslot := hslots j
      rw [hnone j, slotConn_eq_some.mpr ⟨slot, hconn⟩] at hslot
      simp [Option.filter, hstuck] at hslot
    · intro hfree j
      rw [hslots j]
      cases hslot : slotConn (s.worker i).worker j with
      | none => rfl
      | some x =>
        have hnot := hfree x.1 x.2 (slotConn_eq_some.mp hslot).2
        simp [Option.filter, hnot]
  · intro hidle shut
    have hshut : (v.worker i).flags.serverShutdown = true := by
      rw [hv, hu]
      exact shut
    have hinBatch : (v.worker i).inBatch = true := by
      rw [hv]
      exact hbatch
    have hends : Step config admits v (v.setWorker i { v.worker i with inBatch := false }) :=
      .batchEnds i alive hinBatch
    obtain ⟨last, hlast, hexited, _⟩ := can_end begun (hrun.step hends) alive
      (by rw [System.setWorker_self]) (by rw [System.setWorker_self]; exact hshut)
      (by rw [System.setWorker_self]; exact hidle)
    exact ⟨last, (Runs.start.step hends).step hlast, hexited⟩

end Ends

/-- The first connection, when no request comes on it. -/
theorem silent_worker_ends_first : ∃ s v : System, (s.worker 0).opened = [0] ∧
    (v.worker 0).opened = [] := by
  obtain ⟨w, next, s, hw, hnext, hrun, hfirst, _⟩ := @first_connection (fun _ => True) trivial
  have hcheck : (workerStart 16 ctlSucceeds 4 3 4 0).toOption.any (fun w =>
      (handlerCall setConfigDefault w firstCall).toOption.any fun next =>
        decide (next.nextAddress = 1 ∧ next.curTs = 0 ∧
          (next.heap 0).map (fun conn => (conn.state, conn.activeReadTs)) =
            some (.read, 0))) = true := by
    decide +kernel
  rw [hw] at hcheck
  simp only [Except.toOption, Option.any_some, hnext] at hcheck
  obtain ⟨haddress, hclock, hconn⟩ := of_decide_eq_true hcheck
  obtain ⟨conn, hconn, hpair⟩ := Option.map_eq_some_iff.mp hconn
  obtain ⟨hstate, hstamp⟩ := Prod.mk.inj hpair
  have hviews := (running_views (serverOf_begun hw) hrun
    (by rw [hfirst.workers]; exact Nat.zero_lt_two) hfirst.running).1
  rw [hfirst.worker] at hviews
  have honly : ∀ a other, (s.worker 0).worker.heap a = some other → other = conn := by
    intro a other hother
    rw [hfirst.worker] at hother
    have hold : a < 1 := by
      by_contra hnew
      rw [(hviews.unknown a (haddress ▸ Nat.le_of_not_lt hnew)).1] at hother
      cases hother
    rw [Nat.lt_one_iff.mp hold, hconn] at hother
    exact (Option.some.inj hother).symm
  have hlate : ∀ a other, (s.worker 0).worker.heap a = some other →
      Late setConfigDefault 61 other := by
    intro a other hother
    rw [honly a other hother]
    simp only [Late, hstate, hstamp]
    decide
  obtain ⟨_, v, _, _, _, hends, _⟩ := silent_worker_ends (serverOf_begun hw) hrun hfirst.alive
    hfirst.inBatch 61 100 (fun _ _ => SysAnswers.failing) (fun _ _ => SysAnswers.failing)
    (by rw [hfirst.worker, hclock]; decide) (by decide) hlate (fun _ _ => trivial)
    fun _ _ => trivial
  refine ⟨s, v, hfirst.opened, hends.mpr fun a other hother hstuck => ?_⟩
  rw [honly a other hother, Stuck, hstate] at hstuck
  cases hstuck.1

end WorkerDrain
