import Nazh.Connections.Exclusive
import Nazh.Connections.Timed
import Nazh.Lib.Breaker

/-!
# The circuit breaker of a connection

The failures in a row and the deadline of the circuit are all that `acquire` asks of a record
before it refuses a connection that fails. They are a breaker: ten operations change the
record, and each of them is one event of the breaker.
-/

namespace Nazh

open Lib

/-- The breaker in a record. -/
def ConnectionRecord.breaker (record : ConnectionRecord) : Breaker ℤ :=
  ⟨record.health.consecutiveFailures, record.health.circuitOpenUntil⟩

namespace RecordAction

/-- The action calls `apply_runtime_failure`. -/
def fails (record : ConnectionRecord) (now : ℤ) : RecordAction → Bool
  | health (.recordConnectFailure _) | health (.recordTimeout _) => true
  | release borrowedAt outcome =>
      decide (record.policy.operationTimeoutMs < elapsedMs borrowedAt now) ||
        match outcome with
        | .failure _ => !failureRecordedDuringLease record borrowedAt
        | _ => false
  | _ => false

/-- The action is a success or a reset. -/
def relieves (record : ConnectionRecord) (now : ℤ) : RecordAction → Bool
  | health (.recordConnectSuccess _ _) | health .resetCircuitBreaker => true
  | release borrowedAt .success =>
      decide (elapsedMs borrowedAt now ≤ record.policy.operationTimeoutMs)
  | _ => false

/-- The event of the breaker that an action is. -/
def breakerEvent (record : ConnectionRecord) (now : ℤ) (action : RecordAction) :
    BreakerEvent ℤ :=
  if action.fails record now then .failed (now + durationMs record.policy.circuitOpenMs)
  else if action.relieves record now then .relieved
  else match action with
    | acquire _ _ | health .get | sweep .list => .observed now
    | _ => .idle

end RecordAction

section Events

variable {parseUrl : UrlParser} {now borrowedAt : ℤ} {r : ConnectionRecord}

theorem breaker_applyRuntimeFailure (policy : ConnectionGovernancePolicy) (reason : String)
    (isTimeout : Bool) :
    (applyRuntimeFailure r policy now reason isTimeout).1.breaker =
      r.breaker.after saturatingSucc policy.circuitFailureThreshold
        (.failed (now + durationMs policy.circuitOpenMs)) := by
  rw [Breaker.after]
  by_cases h : policy.circuitFailureThreshold ≤ saturatingSucc r.breaker.failures
  · have hopen : applyRuntimeFailure r policy now reason isTimeout = _ := if_pos h
    rw [hopen, if_pos h]
    rfl
  · have hclosed : applyRuntimeFailure r policy now reason isTimeout = _ := if_neg h
    rw [hclosed, if_neg h]
    rfl

/-- The passing of time is a look at the breaker. -/
theorem breaker_reconcileTimedState (policy : ConnectionGovernancePolicy) (count : ℕ → ℕ)
    (threshold : ℕ) :
    (reconcileTimedState r policy now).breaker =
      r.breaker.after count threshold (.observed now) := by
  obtain ⟨phase, diagnosis, recommendedAction, since, retry, hrec⟩ :=
    reconcileTimedState_eq r policy now
  rw [hrec]
  rfl

theorem breaker_acquireRecord (connectionId : String) (windows : AttemptWindows) (count : ℕ → ℕ)
    (threshold : ℕ) :
    (acquireRecord parseUrl connectionId r windows now).1.breaker =
      r.breaker.after count threshold (.observed now) := by
  have hrec := @breaker_reconcileTimedState now r (.fromMetadata r.metadata) count threshold
  simp only [acquireRecord]
  split
  · exact hrec
  · split
    · exact hrec
    · split
      · exact hrec
      · split
        · exact hrec
        · split
          · exact hrec
          · exact hrec

theorem breaker_healthOp (op : HealthOp) :
    (op.apply now r).breaker = r.breaker.after saturatingSucc r.policy.circuitFailureThreshold
      ((RecordAction.health op).breakerEvent r now) := by
  cases op with
  | recordConnectSuccess diagnosis latencyMs => rfl
  | recordHeartbeat diagnosis =>
      simp only [HealthOp.apply, recordHeartbeat]
      split
      · rfl
      · rfl
  | recordConnectFailure reason => exact breaker_applyRuntimeFailure r.policy reason false
  | recordTimeout reason => exact breaker_applyRuntimeFailure r.policy reason true
  | markInvalidConfiguration reason => rfl
  | markDisconnected diagnosis => rfl
  | resetCircuitBreaker => rfl
  | get => exact breaker_reconcileTimedState r.policy saturatingSucc _

theorem breaker_sweepOp (op : SweepOp) :
    (op.apply now r).breaker = r.breaker.after saturatingSucc r.policy.circuitFailureThreshold
      ((RecordAction.sweep op).breakerEvent r now) := by
  cases op with
  | list => exact breaker_reconcileTimedState r.policy saturatingSucc _
  | markAllIdle diagnosis startedAt =>
      simp only [SweepOp.apply, markIdle]
      split
      · rfl
      · split
        · rfl
        · rfl

theorem breaker_finalizeRelease (outcome : ConnectionOutcome) :
    (finalizeRelease r borrowedAt outcome now).breaker =
      r.breaker.after saturatingSucc r.policy.circuitFailureThreshold
        ((RecordAction.release borrowedAt outcome).breakerEvent r now) := by
  have hout := finalizeRelease_outcome r borrowedAt outcome now
  generalize finalizeRelease r borrowedAt outcome now = r' at hout ⊢
  cases hout with
  | overTime outcome reason hover =>
      have hevent : (RecordAction.release borrowedAt outcome).breakerEvent r now =
          .failed (now + durationMs r.policy.circuitOpenMs) := by
        simp [RecordAction.breakerEvent, RecordAction.fails, hover]
      rw [hevent]
      exact breaker_applyRuntimeFailure r.policy reason true
  | success diagnosis hle =>
      have hevent : (RecordAction.release borrowedAt .success).breakerEvent r now =
          .relieved := by
        simp [RecordAction.breakerEvent, RecordAction.fails, RecordAction.relieves, hle]
      rw [hevent]
      rfl
  | recorded reason hle hrecorded =>
      have hevent : (RecordAction.release borrowedAt (.failure reason)).breakerEvent r now =
          .idle := by
        simp [RecordAction.breakerEvent, RecordAction.fails, RecordAction.relieves, hle, hrecorded]
      rw [hevent]
      rfl
  | failure reason text hle hrecorded =>
      have hevent : (RecordAction.release borrowedAt (.failure reason)).breakerEvent r now =
          .failed (now + durationMs r.policy.circuitOpenMs) := by
        simp [RecordAction.breakerEvent, RecordAction.fails, hrecorded]
      rw [hevent]
      exact breaker_applyRuntimeFailure r.policy text false
  | pending diagnosis recommendedAction hle =>
      have hevent : (RecordAction.release borrowedAt .pending).breakerEvent r now = .idle := by
        simp [RecordAction.breakerEvent, RecordAction.fails, RecordAction.relieves, hle]
      rw [hevent]
      rfl

/-- An action on a record is its event on the breaker. -/
theorem breaker_apply (action : RecordAction) :
    (action.apply parseUrl now r).breaker =
      r.breaker.after saturatingSucc r.policy.circuitFailureThreshold
        (action.breakerEvent r now) := by
  cases action with
  | acquire connectionId windows => exact breaker_acquireRecord connectionId windows _ _
  | health op => exact breaker_healthOp op
  | sweep op => exact breaker_sweepOp op
  | release borrowedAt outcome => exact breaker_finalizeRelease outcome

end Events

/-- A record with an open circuit is not lent. -/
theorem acquireRecord_of_heldUntil {parseUrl : UrlParser} {connectionId : String}
    {r : ConnectionRecord} {windows : AttemptWindows} {threshold : ℕ} {T now : ℤ}
    (hheld : r.breaker.HeldUntil threshold T) (hnow : now < T) :
    ∃ e, (acquireRecord parseUrl connectionId r windows now).2.2 = .error e := by
  have hopen : (reconcileTimedState r (.fromMetadata r.metadata) now).health.circuitOpenUntil.any
      (fun until' => now < until') = true := by
    obtain ⟨-, deadline, hdeadline, hT⟩ := hheld
    obtain ⟨phase, diagnosis, recommendedAction, since, retry, hrec⟩ :=
      reconcileTimedState_eq r (.fromMetadata r.metadata) now
    have hlater : now < deadline := Int.lt_of_lt_of_le hnow hT
    have hcircuit : r.health.circuitOpenUntil = some deadline := hdeadline
    rw [hrec]
    simp [hcircuit, unexpired_of_lt hlater, hlater]
  simp only [acquireRecord]
  split
  · exact ⟨_, rfl⟩
  · split
    · exact ⟨_, rfl⟩
    · exact ⟨_, rfl⟩

namespace Pool

/-- The action calls `apply_runtime_failure` on the record `h`. -/
def fails (pool : Pool) (a : PoolAction) (h : ℕ) : Bool :=
  (pool.recordAction h a).any fun (action, now) =>
    (pool.heap[h]?).any fun record => action.fails record now

/-- The action is a success of the record `h`, or resets it. -/
def relieves (pool : Pool) (a : PoolAction) (h : ℕ) : Bool :=
  (pool.recordAction h a).any fun (action, now) =>
    (pool.heap[h]?).any fun record => action.relieves record now

end Pool

section Runs

variable {parseUrl : UrlParser} {t₀ t t' u : TimedPool} {h : ℕ} {r r' : ConnectionRecord}
  {T : ℤ} {id : String}

/-- What a step that counts a failure does to the breaker. -/
theorem breaker_of_fails {a : PoolAction} (hstep : t.step parseUrl a = some t')
    (hr : t.pool.heap[h]? = some r) (hr' : t'.pool.heap[h]? = some r')
    (hfails : t.pool.fails a h = true) :
    r'.definition = r.definition ∧
      r'.breaker = r.breaker.after saturatingSucc r.policy.circuitFailureThreshold
        (.failed (t'.clock + durationMs r.policy.circuitOpenMs)) := by
  obtain ⟨hpool, hclock, -⟩ := TimedPool.step_eq_some.mp hstep
  have hafter := Option.some.inj (hr'.symm.trans (Pool.heap_step hpool hr))
  obtain ⟨⟨action, now⟩, haction, hany⟩ := (Option.any_eq_true _ _).mp hfails
  have hcounts : action.fails r now = true := by simpa [hr] using hany
  rw [Pool.reading_of_recordAction haction] at hclock
  rw [hafter, Pool.recordAfter, haction, hclock]
  refine ⟨action.definition_apply, ?_⟩
  have hevent : action.breakerEvent r now = _ := if_pos hcounts
  exact (breaker_apply action).trans (congrArg _ hevent)

end Runs

end Nazh
