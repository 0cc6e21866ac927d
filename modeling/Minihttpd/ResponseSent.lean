import Mathlib.Algebra.Order.BigOperators.Group.List
import Mathlib.Algebra.Order.Ring.Nat
import Minihttpd.ConnectionRuns

/-!
# When a response counts as sent

`CON_STATE_WRITE` takes a queue for empty when `chunkqueue_length` is 0. That
is a sum in 32 bits, and it is 0 for a response of exactly 2^32 bytes as well.
-/
namespace ResponseSent

open ByteBuffer SystemCalls ChunkQueue ConnectionTypes HttpConnection StateMachine WriteQueue
open ConnectionInvariant ConnectionRuns FailingRun

/-- The lengths of the queued chunks, added up without a wrap. -/
def queuedTotal (active : List Chunk) : Nat := (active.map chunkLength).sum

lemma chunkqueueLength_total (q : Chunkqueue) : chunkqueueLength q = u32 (queuedTotal q.active) := by
  have fold : ∀ (active : List Chunk) (len : Nat),
      active.foldl (fun len c => u32 (len + chunkLength c)) (u32 len) =
        u32 (len + queuedTotal active) := by
    intro active
    induction active with
    | nil => exact fun _ => rfl
    | cons c rest ih =>
      intro len
      have hstep : u32 (u32 len + chunkLength c) = u32 (len + chunkLength c) := by
        rw [u32, u32, u32, Nat.mod_add_mod]
      rw [List.foldl_cons, hstep, ih, queuedTotal, queuedTotal, List.map_cons, List.sum_cons,
        Nat.add_assoc]
  have h := fold q.active 0
  rw [Nat.zero_add] at h
  exact h

lemma remaining_le_total {active : List Chunk} (chunks : ∀ c ∈ active, ChunkOk c) :
    remainingTotal active ≤ queuedTotal active := by
  rw [remainingTotal, queuedTotal]
  exact List.sum_le_sum (fun c hc => remaining_le (chunks c hc))

/-- A response has two chunks at most, so its length wraps at most once. -/
lemma total_of_length_zero {q : Chunkqueue} (ok : QueueOk q) (two : q.active.length ≤ 2)
    (zero : chunkqueueLength q = 0) :
    queuedTotal q.active = 0 ∨ queuedTotal q.active = 4294967296 := by
  have hlt : queuedTotal q.active < 8589934592 := by
    have hbound : ∀ active : List Chunk, (∀ c ∈ active, ChunkOk c) →
        queuedTotal active ≤ active.length * 4294967295 := by
      intro active
      induction active with
      | nil => exact fun _ => Nat.le_refl 0
      | cons c rest ih =>
        intro chunks
        have hc := chunkLength_lt (chunks c List.mem_cons_self)
        have hrest := ih (fun d hd => chunks d (List.mem_cons_of_mem _ hd))
        rw [queuedTotal] at hrest ⊢
        rw [List.map_cons, List.sum_cons, List.length_cons]
        omega
    have := hbound q.active ok.chunks
    omega
  rw [chunkqueueLength_total, u32] at zero
  omega

/-- Every way out of `CON_STATE_WRITE` that counts the response as sent. -/
def FinishesSent (config : ServerConfig) (m : Machine) : Prop :=
  (chunkqueueLength m.conn.writequeue = 0 → remainingTotal m.conn.writequeue.active = 0) ∧
  ∀ ans next, connectionIteration config ans m = .ok next → next.conn.state = .responseEnd →
    remainingTotal next.conn.writequeue.active = 0

lemma done_sent {file : Bytes → Nat → UInt8} {q : Chunkqueue} {t : WriteTurn}
    (h : WriteOk file q t) (code : t.code = 0) : remainingTotal t.queue.active = 0 := by
  rw [h.finished code]
  rfl

/-- `CON_STATE_WRITE` ends with a write that has sent everything, or with a queue
that is empty by its length. -/
lemma write_finishes {config : ServerConfig} {ans : SysAnswers} {m next : Machine}
    (inv : ConnInv config m.conn) (state : m.conn.state = .write)
    (h : handleWrite ans m = .ok next) (hend : next.conn.state = .responseEnd) :
    remainingTotal next.conn.writequeue.active = 0 ∨
      chunkqueueLength m.conn.writequeue = 0 ∧ next.conn.writequeue = m.conn.writequeue := by
  have hphase := inv.phase
  rw [StateInv, state] at hphase
  rw [handleWrite] at h
  by_cases hlength : chunkqueueLength m.conn.writequeue ≠ 0
  · rw [if_pos hlength] at h
    obtain ⟨⟨after, bytes⟩, hwrite, heq⟩ := bind_eq_ok.mp h
    cases heq
    left
    cases handleWriteState_outcome inv.writequeue hwrite with
    | skipped => exact absurd (hend.symm.trans state) ConnectionState.noConfusion
    | done t hok hcode => exact done_sent hok hcode
    | waiting t ts => exact absurd (hend.symm.trans state) ConnectionState.noConfusion
    | failed => cases hend
  · rw [if_neg hlength, if_pos hphase.finished] at h
    cases h
    exact Or.inr ⟨not_not.mp hlength, rfl⟩

/-- An untouched or unfinished response of 2^32 bytes has bytes to send. -/
lemma pending_of_total {config : ServerConfig} {conn : Connection} (inv : ConnInv config conn)
    (state : conn.state = .write) (total : queuedTotal conn.writequeue.active = 4294967296) :
    remainingTotal conn.writequeue.active ≠ 0 := by
  have hphase := inv.phase
  rw [StateInv, state] at hphase
  rcases hphase.pending with hwhole | hpending
  · have hsame : remainingTotal conn.writequeue.active = queuedTotal conn.writequeue.active := by
      rw [remainingTotal, queuedTotal]
      congr 1
      exact List.map_congr_left
        (fun c hc => remaining_of_zero (inv.writequeue.chunks c hc) (hwhole c hc))
    rw [hsame, total]
    decide
  · exact hpending

/-- Nothing is left unsent behind a finished response, unless the chunks in the
queue are 2^32 bytes long together. -/
theorem finishes_sent_iff {config : ServerConfig} {m : Machine}
    (reached : Reached config .running m) (state : m.conn.state = .write) :
    FinishesSent config m ↔ queuedTotal m.conn.writequeue.active ≠ 4294967296 := by
  have inv := (reached_inv reached).1.conn
  have hphase := inv.phase
  rw [StateInv, state] at hphase
  constructor
  · intro h htotal
    refine pending_of_total inv state htotal (h.1 ?_)
    rw [chunkqueueLength_total, htotal]
    rfl
  · intro hne
    have hempty : chunkqueueLength m.conn.writequeue = 0 →
        remainingTotal m.conn.writequeue.active = 0 := by
      intro hzero
      have htotal :=
        (total_of_length_zero inv.writequeue hphase.chunks hzero).resolve_right hne
      have hle := remaining_le_total inv.writequeue.chunks
      omega
    refine ⟨hempty, ?_⟩
    intro ans next hturn hend
    rw [iteration_write state] at hturn
    have emitted : ConnInv config (m.emit [.state .write]).conn := inv
    rcases write_finishes emitted state hturn hend with hsent | ⟨hzero, hsame⟩
    · exact hsent
    · rw [hsame]
      exact hempty hzero

/-- A page of an error is sent before it counts as sent. -/
theorem finishes_sent_page : ∃ m : Machine, m.conn.state = .write ∧
    m.conn.writequeue.active.length = 2 ∧ FinishesSent setConfigDefault m := by
  have hrun : (turns setConfigDefault readableMachine
      (requestAnswers sampleRequest (.fail .enoent) ++ [SysAnswers.failing])).any (fun m =>
        decide (m.conn.state = .write ∧ m.conn.writequeue.active.length = 2 ∧
          queuedTotal m.conn.writequeue.active ≠ 4294967296)) = true := by
    decide +kernel
  obtain ⟨m, hturns, hm⟩ := (Option.any_eq_true _ _).mp hrun
  obtain ⟨state, htwo, htotal⟩ := of_decide_eq_true hm
  have reached := reached_turns _ readableMachine_reached hturns
  exact ⟨m, state, htwo, (finishes_sent_iff reached state).mpr htotal⟩

/-- The answers up to the head of a file so long that the sum wraps to 0. -/
def wrappingAnswers : List SysAnswers :=
  requestAnswers sampleRequest (.found ⟨.regular, 4294967296 - 127, 0⟩) ++ [SysAnswers.failing]

/-- A head of 127 bytes and a file of 2^32 - 127: not a byte is sent. -/
theorem finishes_sent_not_wrapped : ∃ m next : Machine, Reached setConfigDefault .running m ∧
    m.conn.state = .write ∧
    connectionIteration setConfigDefault SysAnswers.failing m = .ok next ∧
    next.conn.state = .responseEnd ∧
    remainingTotal next.conn.writequeue.active = 4294967296 ∧
    ¬ FinishesSent setConfigDefault m := by
  have hrun : (turns setConfigDefault readableMachine wrappingAnswers).any (fun m =>
      decide (m.conn.state = .write) &&
        (turns setConfigDefault m [SysAnswers.failing]).any (fun next =>
          decide (next.conn.state = .responseEnd ∧
            remainingTotal next.conn.writequeue.active = 4294967296))) = true := by
    decide +kernel
  obtain ⟨m, hturns, hm⟩ := (Option.any_eq_true _ _).mp hrun
  obtain ⟨hstate, hnext⟩ := Bool.and_eq_true_iff.mp hm
  obtain ⟨next, hturn, hlast⟩ := (Option.any_eq_true _ _).mp hnext
  obtain ⟨hend, hunsent⟩ := of_decide_eq_true hlast
  have reached := reached_turns _ readableMachine_reached hturns
  have hiteration := turns_single hturn
  refine ⟨m, next, reached, of_decide_eq_true hstate, hiteration, hend, hunsent, ?_⟩
  intro h
  have hzero := h.2 _ _ hiteration hend
  rw [hunsent] at hzero
  exact absurd hzero (by decide)

end ResponseSent
