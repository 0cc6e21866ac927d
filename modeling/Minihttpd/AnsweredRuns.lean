import Minihttpd.WorkerTable

/-!
# Runs under an assumption about the system

The runs of a connection in which every answer of the system meets a condition,
such as files that do not change while they are sent. Without a condition they
are all its runs.
-/
namespace AnsweredRuns

open ByteBuffer SystemCalls FdEvents ConnectionTypes HttpConnection StateMachine HttpWorker
open ConnectionRuns WorkerTable FailingRun

/-- The machines of the runs of one connection in which all answers are admitted. -/
inductive ReachedIn (config : ServerConfig) (admits : SysAnswers → Prop) :
    Phase → Machine → Prop where
  | accepted {m : Machine} : Accepted m → ReachedIn config admits .running m
  | turn {m next : Machine} {ans : SysAnswers} : ReachedIn config admits .running m → admits ans →
      connectionIteration config ans m = .ok next → next.conn.state ≠ m.conn.state →
      ReachedIn config admits .running next
  | settled {m next rest : Machine} {ans : SysAnswers} : ReachedIn config admits .running m →
      admits ans → connectionIteration config ans m = .ok next →
      next.conn.state = m.conn.state → next.conn.state ≠ .connect →
      updateInterest next = .ok rest → ReachedIn config admits .resting rest
  | event {m : Machine} (mask : EventMask) (now : Int) : ReachedIn config admits .resting m →
      ReachedIn config admits .running { m with conn := noteEvents mask now m.conn }
  | clock {m : Machine} (now : Int) : ReachedIn config admits .resting m →
      ReachedIn config admits .resting { m with curTs := now }
  | expired {m : Machine} {conn : Connection} : ReachedIn config admits .resting m →
      timerExpire config m.curTs m.conn = some conn →
      ReachedIn config admits .running { m with conn := conn }

section Runs
variable {config : ServerConfig} {admits : SysAnswers → Prop} {phase : Phase} {m next : Machine}

lemma ReachedIn.reached (h : ReachedIn config admits phase m) : Reached config phase m := by
  induction h with
  | accepted haccepted => exact .accepted haccepted
  | turn _ _ hturn moves ih => exact .turn ih hturn moves
  | settled _ _ hturn same open_still hupdate ih => exact .settled ih hturn same open_still hupdate
  | event mask now _ ih => exact .event mask now ih
  | clock now _ ih => exact .clock now ih
  | expired _ hexpire ih => exact .expired ih hexpire

/-- A loop that ends has ended with a turn that stayed in its state. -/
lemma loop_ends_in {answers : Nat → SysAnswers} (admitted : ∀ k, admits (answers k))
    (fuel turn : Nat) (reached : ReachedIn config admits .running m)
    (h : stateLoop config answers fuel turn m = .ok next) :
    ∃ p ans, ReachedIn config admits .running p ∧ admits ans ∧
      connectionIteration config ans p = .ok next ∧ next.conn.state = p.conn.state := by
  induction fuel generalizing turn m with
  | zero => cases h
  | succ fuel ih =>
    rw [stateLoop] at h
    obtain ⟨mid, hmid, h⟩ := bind_eq_ok.mp h
    by_cases hsame : mid.conn.state = m.conn.state
    · rw [if_pos hsame] at h
      cases h
      exact ⟨m, answers turn, reached, admitted turn, hmid, hsame⟩
    · rw [if_neg hsame] at h
      exact ih (turn + 1) (.turn reached (admitted turn) hmid hsame) h

/-- The end of a call only changes what a connection waits for. -/
lemma call_ends_in {answers : Nat → SysAnswers} (admitted : ∀ k, admits (answers k))
    (reached : ReachedIn config admits .running m)
    (loop : stateLoop config answers 16 0 m = .ok next) (open_still : next.conn.state ≠ .connect) :
    ∃ rest, ReachedIn config admits .resting rest ∧ rest.conn = next.conn ∧
      rest.curTs = next.curTs ∧ rest.trace = next.trace := by
  obtain ⟨p, ans, hp, hans, hturn, hsame⟩ := loop_ends_in admitted 16 0 reached loop
  obtain ⟨rest, hrest, _, _, hconn, hclock, htrace, _⟩ :=
    settled_rests (reached_inv hp.reached).1 hturn hsame open_still
  exact ⟨rest, .settled hp hans hturn hsame open_still hrest, hconn, hclock, htrace⟩

/-- The start of the runs that are looked at, when its two calls are admitted to fail. -/
lemma readableMachine_in (failing : admits SysAnswers.failing) :
    ReachedIn config admits .running readableMachine := by
  have first : connectionIteration config SysAnswers.failing (newMachine 5) =
      .ok { newMachine 5 with
        conn := { connectionSetDefault with connSocketFd := 5, state := .read }
        trace := [.state .requestStart] } := rfl
  have running := ReachedIn.turn (.accepted (newMachine_accepted 5)) failing first
    ConnectionState.noConfusion
  exact .event _ 0 (@ReachedIn.settled _ _ _ _ restingMachine SysAnswers.failing
    running failing rfl rfl ConnectionState.noConfusion rfl)

lemma turns_in {r : Machine} (answers : List SysAnswers)
    (admitted : ∀ ans ∈ answers, admits ans) (reached : ReachedIn config admits .running m)
    (h : turns config m answers = some r) : ReachedIn config admits .running r := by
  induction answers generalizing m with
  | nil =>
    cases h
    exact reached
  | cons ans rest ih =>
    rw [turns] at h
    cases hturn : connectionIteration config ans m with
    | error e =>
      simp only [hturn] at h
      cases h
    | ok next =>
      simp only [hturn] at h
      split at h
      · cases h
      · rename_i hmoves
        apply ih (fun other hmem => admitted other (List.mem_cons_of_mem _ hmem)) _ h
        exact .turn reached (admitted ans List.mem_cons_self) hturn hmoves

/-- Answers from a list, and failing calls behind them. -/
lemma admitted_getD {answers : List SysAnswers} (listed : ∀ ans ∈ answers, admits ans)
    (failing : admits SysAnswers.failing) (k : Nat) :
    admits (answers.getD k SysAnswers.failing) := by
  rw [List.getD_eq_getElem?_getD]
  cases hget : answers[k]? with
  | none => exact failing
  | some ans => exact listed ans (List.mem_of_getElem? hget)

end Runs

/-- A call of a handler in which all answers are admitted. -/
def Admitted (admits : SysAnswers → Prop) : HandlerCall → Prop
  | .unixDomainSocket _ _ answers => ∀ k, admits (answers k)
  | .connection _ _ _ answers => ∀ k, admits (answers k)
  | .timer _ _ answers => ∀ i k, admits (answers i k)

end AnsweredRuns
