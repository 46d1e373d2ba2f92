import Nazh.Connections.Effect

/-!
# The pool and its clock

The operations of the pool read the clock. A timed pool remembers the last reading, and no
reading is before it. Whatever happens to a record is one of four things: an acquire, an
operation on its health, a sweep over all records, or the release of a guard.

Sums of times are not bounded here, although a reading is.
-/

namespace Nazh

open Lib

/-! ## The clock -/

/-- Nanoseconds from the epoch to beyond the first and the last year of a `DateTime<Utc>`. -/
def dateTimeLimit : ℤ := 262144 * 366 * 86400 * 1000000000

/-- A time that a reading of the clock may be. -/
def isDateTime (t : ℤ) : Bool := -dateTimeLimit ≤ t && t ≤ dateTimeLimit

/-- The clock that an action reads. `mark_all_idle` reads it once, when it begins. -/
def PoolAction.reading : PoolAction → Option ℤ
  | .resume _ now | .dropGuard _ now | .sweep (.markAllIdle _ now) => some now
  | _ => none

/-- A pool with the last reading of its clock. -/
structure TimedPool where
  pool : Pool
  clock : ℤ

namespace TimedPool

variable (parseUrl : UrlParser)

/-- A step of the pool, if its reading is not before the last one. -/
def step (t : TimedPool) (a : PoolAction) : Option TimedPool :=
  if a.reading.all fun now => t.clock ≤ now && isDateTime now then
    (t.pool.step parseUrl a).map fun pool => ⟨pool, a.reading.getD t.clock⟩
  else none

end TimedPool

/-- The runs of a pool with its clock. -/
def Pool.timed (parseUrl : UrlParser) : Machine TimedPool PoolAction :=
  ⟨fun t => AtRest t.pool, TimedPool.step parseUrl⟩

section Clock

variable {parseUrl : UrlParser} {t t' : TimedPool} {a : PoolAction}

/-- What a step of a timed pool is. -/
theorem TimedPool.step_eq_some : t.step parseUrl a = some t' ↔
    t.pool.step parseUrl a = some t'.pool ∧ t'.clock = a.reading.getD t.clock ∧
      ∀ now, a.reading = some now → t.clock ≤ now ∧ isDateTime now = true := by
  rw [TimedPool.step]
  have hall : (a.reading.all fun now => t.clock ≤ now && isDateTime now) = true ↔
      ∀ now, a.reading = some now → t.clock ≤ now ∧ isDateTime now = true := by
    cases a.reading with
    | none => simp
    | some now => simp
  obtain ⟨pool', clock'⟩ := t'
  by_cases h : (a.reading.all fun now => t.clock ≤ now && isDateTime now) = true
  · rw [if_pos h, Option.map_eq_some_iff]
    constructor
    · intro hs
      obtain ⟨pool, hpool, heq⟩ := hs
      cases heq
      exact ⟨hpool, rfl, hall.mp h⟩
    · intro hs
      obtain ⟨hpool, hclock, -⟩ := hs
      exact ⟨pool', hpool, by rw [← hclock]⟩
  · rw [if_neg h]
    constructor
    · intro hs
      cases hs
    · intro hs
      exact absurd (hall.mpr hs.2.2) h

/-- The clock does not go back. -/
theorem TimedPool.clock_le (h : t.step parseUrl a = some t') : t.clock ≤ t'.clock := by
  obtain ⟨-, hclock, hreading⟩ := TimedPool.step_eq_some.mp h
  rw [hclock]
  cases hr : a.reading with
  | none => exact Int.le_refl _
  | some now => exact (hreading now hr).1

end Clock

/-! ## One record -/

/-- The limits of the connection. -/
def ConnectionRecord.policy (record : ConnectionRecord) : ConnectionGovernancePolicy :=
  .fromMetadata record.metadata

/-- The definition that a record was made from. -/
def ConnectionRecord.definition (record : ConnectionRecord) : ConnectionDefinition :=
  ⟨record.id, record.kind, record.metadata⟩

/-- The limits are part of the definition. -/
theorem policy_of_definition {r r' : ConnectionRecord} (h : r'.definition = r.definition) :
    r'.policy = r.policy := by
  have hmetadata : r'.metadata = r.metadata := congrArg ConnectionDefinition.metadata h
  rw [ConnectionRecord.policy, hmetadata, ConnectionRecord.policy]

theorem HealthOnly.definition {r r' : ConnectionRecord} (h : HealthOnly r r') :
    r'.definition = r.definition := by
  obtain ⟨health, rfl⟩ := h
  rfl

/-- What an acquire does to a record: what time did to it, and one of six answers. -/
inductive AcquireOutcome (parseUrl : UrlParser) (connectionId : String)
    (record reconciled : ConnectionRecord) (windows : AttemptWindows) (now : ℤ) :
    ConnectionRecord × AttemptWindows × Except EngineError ConnectionLease → Prop
  | busy : reconciled.inUse = true →
      AcquireOutcome parseUrl connectionId record reconciled windows now
        (reconciled, windows, .error (.connectionBusy connectionId))
  | invalid (reason : String) : reconciled.inUse = false →
      AcquireOutcome parseUrl connectionId record reconciled windows now
        (markInvalid reconciled reason now, windows,
          .error (.connectionInvalidConfiguration connectionId reason))
  | circuitOpen (reason : String) : reconciled.inUse = false →
      (reconciled.health.circuitOpenUntil.any fun until' => now < until') = true →
      AcquireOutcome parseUrl connectionId record reconciled windows now
        (reconciled, windows, .error (.connectionCircuitOpen connectionId
          (remainingMs (reconciled.health.circuitOpenUntil.getD now) now) reason))
  | limited (deadline : ℤ) : reconciled.inUse = false →
      reconciled.health.rateLimitedUntil = some deadline → now < deadline →
      AcquireOutcome parseUrl connectionId record reconciled windows now
        (reconciled, windows, .error (.connectionRateLimited connectionId
          (remainingMs deadline now)))
  | refused (windows' : AttemptWindows) (retryAfterMs : ℕ) : reconciled.inUse = false →
      (∀ deadline, reconciled.health.rateLimitedUntil = some deadline → deadline ≤ now) →
      registerAttempt windows connectionId record.policy now =
        (windows', .error retryAfterMs) →
      AcquireOutcome parseUrl connectionId record reconciled windows now
        (limitRate reconciled retryAfterMs now, windows',
          .error (.connectionRateLimited connectionId retryAfterMs))
  | lent (windows' : AttemptWindows) : reconciled.inUse = false →
      (∀ deadline, reconciled.health.circuitOpenUntil = some deadline → deadline ≤ now) →
      (∀ deadline, reconciled.health.rateLimitedUntil = some deadline → deadline ≤ now) →
      registerAttempt windows connectionId record.policy now =
        (windows', .ok ()) →
      AcquireOutcome parseUrl connectionId record reconciled windows now
        (lend reconciled now, windows',
          .ok ⟨reconciled.id, reconciled.kind, reconciled.metadata, now⟩)

theorem acquireRecord_outcome (parseUrl : UrlParser) (connectionId : String)
    (record : ConnectionRecord) (windows : AttemptWindows) (now : ℤ) :
    AcquireOutcome parseUrl connectionId record
      (reconcileTimedState record (.fromMetadata record.metadata) now) windows now
      (acquireRecord parseUrl connectionId record windows now) := by
  simp only [acquireRecord]
  generalize reconcileTimedState record (.fromMetadata record.metadata) now = reconciled
  split
  · rename_i huse
    exact .busy huse
  · rename_i hfree
    have hfree : reconciled.inUse = false := by simpa using hfree
    split
    · rename_i reason hinvalid
      exact .invalid reason hfree
    · split
      · rename_i hopen
        exact .circuitOpen _ hfree hopen
      · rename_i hclosed
        split
        · rename_i hlimited
          obtain ⟨deadline, hdeadline, hlater⟩ := (Option.any_eq_true _ _).mp hlimited
          rw [hdeadline]
          exact .limited deadline hfree hdeadline (of_decide_eq_true hlater)
        · rename_i hlimited
          have hover : ∀ deadline, reconciled.health.rateLimitedUntil = some deadline →
              deadline ≤ now := by
            intro deadline hdeadline
            simpa [hdeadline] using hlimited
          split
          · rename_i windows' retryAfterMs hregister
            exact .refused windows' retryAfterMs hfree hover hregister
          · rename_i windows' hregister
            refine .lent windows' hfree ?_ hover hregister
            intro deadline hdeadline
            simpa [hdeadline] using hclosed

/-- The record of a guard that is dropped, before it is looked at how the guard was marked. -/
def released (record : ConnectionRecord) (borrowedAt now : ℤ) : ConnectionRecord :=
  { record with inUse := false }.withHealth fun health =>
    { health with
      lastReleasedAt := some now
      lastCheckedAt := some now
      lastLatencyMs := some (elapsedMs borrowedAt now) }

/-- What dropping a guard does to its record: one of five ends. -/
inductive ReleaseOutcome (record : ConnectionRecord) (borrowedAt now : ℤ) :
    ConnectionOutcome → ConnectionRecord → Prop
  | overTime (outcome : ConnectionOutcome) (reason : String) :
      record.policy.operationTimeoutMs < elapsedMs borrowedAt now →
      ReleaseOutcome record borrowedAt now outcome
        (applyRuntimeFailure (released record borrowedAt now) record.policy now reason true).1
  | success (diagnosis : String) :
      elapsedMs borrowedAt now ≤ record.policy.operationTimeoutMs →
      ReleaseOutcome record borrowedAt now .success
        (((released record borrowedAt now).withHealth fun health =>
          { health with
            phase := .healthy
            lastStateChangedAt := some now
            lastConnectedAt := some now
            lastHeartbeatAt := some now
            consecutiveFailures := 0
            reconnectAttempts := 0
            nextRetryAt := none
            rateLimitedUntil := none
            circuitOpenUntil := none }).diagnose diagnosis "连接空闲，可继续被节点复用")
  | recorded (reason : String) :
      elapsedMs borrowedAt now ≤ record.policy.operationTimeoutMs →
      failureRecordedDuringLease record borrowedAt = true →
      ReleaseOutcome record borrowedAt now (.failure reason) (released record borrowedAt now)
  | failure (reason text : String) :
      elapsedMs borrowedAt now ≤ record.policy.operationTimeoutMs →
      failureRecordedDuringLease record borrowedAt = false →
      ReleaseOutcome record borrowedAt now (.failure reason)
        (applyRuntimeFailure (released record borrowedAt now) record.policy now text false).1
  | pending (diagnosis recommendedAction : String) :
      elapsedMs borrowedAt now ≤ record.policy.operationTimeoutMs →
      ReleaseOutcome record borrowedAt now .pending
        (((released record borrowedAt now).withHealth fun health =>
          { health with phase := .degraded, lastStateChangedAt := some now }).diagnose
          diagnosis recommendedAction)

theorem finalizeRelease_outcome (record : ConnectionRecord) (borrowedAt : ℤ)
    (outcome : ConnectionOutcome) (now : ℤ) :
    ReleaseOutcome record borrowedAt now outcome
      (finalizeRelease record borrowedAt outcome now) := by
  by_cases hover : record.policy.operationTimeoutMs < elapsedMs borrowedAt now
  · have hrelease : finalizeRelease record borrowedAt outcome now = _ := if_pos hover
    rw [hrelease]
    exact .overTime outcome _ hover
  · have hle := Nat.le_of_not_lt hover
    cases outcome with
    | pending =>
        have hrelease : finalizeRelease record borrowedAt .pending now = _ := if_neg hover
        rw [hrelease]
        exact .pending _ _ hle
    | success =>
        have hrelease : finalizeRelease record borrowedAt .success now = _ := if_neg hover
        rw [hrelease]
        exact .success _ hle
    | failure reason =>
        cases hrecorded : failureRecordedDuringLease record borrowedAt with
        | true =>
            have hrelease : finalizeRelease record borrowedAt (.failure reason) now = _ :=
              (if_neg hover).trans (if_pos hrecorded)
            rw [hrelease]
            exact .recorded reason hle hrecorded
        | false =>
            have hnot : ¬ failureRecordedDuringLease record borrowedAt = true := by
              simp [hrecorded]
            have hrelease : finalizeRelease record borrowedAt (.failure reason) now = _ :=
              (if_neg hover).trans (if_neg hnot)
            rw [hrelease]
            exact .failure reason _ hle hrecorded

/-- What an action does to one record. -/
inductive RecordAction
  | acquire (connectionId : String) (windows : AttemptWindows)
  | health (op : HealthOp)
  | sweep (op : SweepOp)
  | release (borrowedAt : ℤ) (outcome : ConnectionOutcome)

/-- The record after the action. -/
def RecordAction.apply (parseUrl : UrlParser) (now : ℤ) (record : ConnectionRecord) :
    RecordAction → ConnectionRecord
  | acquire connectionId windows => (acquireRecord parseUrl connectionId record windows now).1
  | health op => op.apply now record
  | sweep op => op.apply now record
  | release borrowedAt outcome => finalizeRelease record borrowedAt outcome now

section Definition

variable {parseUrl : UrlParser} {now : ℤ} {r : ConnectionRecord}

theorem definition_acquireRecord (connectionId : String) (windows : AttemptWindows) :
    (acquireRecord parseUrl connectionId r windows now).1.definition = r.definition := by
  have hrec := healthOnly_reconcileTimedState r (.fromMetadata r.metadata) now
  simp only [acquireRecord]
  generalize reconcileTimedState r (.fromMetadata r.metadata) now = reconciled at hrec
  split
  · exact hrec.definition
  · split
    · exact (healthOnly_markInvalid reconciled now _).definition.trans hrec.definition
    · split
      · exact hrec.definition
      · split
        · exact hrec.definition
        · split
          · exact hrec.definition
          · exact hrec.definition

theorem definition_healthOp (op : HealthOp) : (op.apply now r).definition = r.definition := by
  cases op with
  | recordConnectSuccess diagnosis latencyMs => rfl
  | recordHeartbeat diagnosis => exact (healthOnly_recordHeartbeat r now diagnosis).definition
  | recordConnectFailure reason => exact (healthOnly_applyRuntimeFailure r _ now reason _).definition
  | recordTimeout reason => exact (healthOnly_applyRuntimeFailure r _ now reason _).definition
  | markInvalidConfiguration reason => rfl
  | markDisconnected diagnosis => rfl
  | resetCircuitBreaker => rfl
  | get => exact (healthOnly_reconcileTimedState r _ now).definition

theorem definition_sweepOp (op : SweepOp) : (op.apply now r).definition = r.definition := by
  cases op with
  | list => exact (healthOnly_reconcileTimedState r _ now).definition
  | markAllIdle diagnosis startedAt => exact (healthOnly_markIdle r startedAt diagnosis).definition

/-- No action gives a record another definition. -/
theorem RecordAction.definition_apply (action : RecordAction) :
    (action.apply parseUrl now r).definition = r.definition := by
  cases action with
  | acquire connectionId windows => exact definition_acquireRecord connectionId windows
  | health op => exact definition_healthOp op
  | sweep op => exact definition_sweepOp op
  | release borrowedAt outcome =>
      exact (healthOnly_finalizeRelease r now borrowedAt outcome).definition

end Definition

namespace Pool

variable (pool : Pool)

/-- What a call does to the record `h` at its next lock. -/
def callAction (h : ℕ) : Call → Option RecordAction
  | .acquire connectionId k => if k = h then some (.acquire connectionId pool.attemptWindows) else none
  | .health op k => if k = h then some (.health op) else none
  | .sweep op (k :: _) => if k = h then some (.sweep op) else none
  | _ => none

/-- What an action does to the record `h`, and when. -/
def recordAction (h : ℕ) : PoolAction → Option (RecordAction × ℤ)
  | .resume i now => (pool.calls[i]?).bind fun call => (pool.callAction h call).map (·, now)
  | .dropGuard i now => (pool.guards[i]?).bind fun guard =>
      if guard.record = h then some (.release guard.lease.borrowedAt guard.outcome, now) else none
  | _ => none

/-- A record after an action of the pool. -/
def recordAfter (parseUrl : UrlParser) (a : PoolAction) (h : ℕ) (record : ConnectionRecord) :
    ConnectionRecord :=
  match pool.recordAction h a with
  | some (action, now) => action.apply parseUrl now record
  | none => record

/-- The answer of the acquire that the call `i` is, if it is one. -/
def acquireResult (parseUrl : UrlParser) (i : ℕ) (now : ℤ) :
    Option (Except EngineError ConnectionLease) :=
  match pool.calls[i]? with
  | some (.acquire connectionId h) => (pool.heap[h]?).map fun record =>
      (acquireRecord parseUrl connectionId record pool.attemptWindows now).2.2
  | _ => none

variable {pool} {pool' : Pool} {parseUrl : UrlParser} {a : PoolAction} {h : ℕ}
  {r : ConnectionRecord}

theorem reading_of_recordAction {action : RecordAction} {now : ℤ}
    (h' : pool.recordAction h a = some (action, now)) : a.reading = some now := by
  cases a with
  | resume i now' =>
      obtain ⟨call, -, hcall⟩ := Option.bind_eq_some_iff.mp h'
      obtain ⟨action', -, heq⟩ := Option.map_eq_some_iff.mp hcall
      cases heq
      rfl
  | dropGuard i now' =>
      obtain ⟨guard, -, hguard⟩ := Option.bind_eq_some_iff.mp h'
      split at hguard
      · cases hguard
        rfl
      · cases hguard
  | _ => cases h'

theorem acquireResult_of_call {i : ℕ} {now : ℤ} {id : String}
    (hcall : pool.calls[i]? = some (.acquire id h)) (hr : pool.heap[h]? = some r) :
    pool.acquireResult parseUrl i now =
      some (acquireRecord parseUrl id r pool.attemptWindows now).2.2 := by
  simp [acquireResult, hcall, hr]

theorem getElem?_setRecord {k : ℕ} {r' : ConnectionRecord} (hk : k < pool.heap.length) :
    (pool.setRecord k r').heap[h]? = if k = h then some r' else pool.heap[h]? := by
  rw [setRecord, List.getElem?_set]
  by_cases hkh : k = h
  · rw [if_pos hkh, if_pos hkh, if_pos hk]
  · rw [if_neg hkh, if_neg hkh]

theorem lt_of_getElem?_eq_some {k : ℕ} {r' : ConnectionRecord} (hk : pool.heap[k]? = some r') :
    k < pool.heap.length := (List.getElem?_eq_some_iff.mp hk).1

theorem recordAfter_of_not_locks (ha : a.locks = false) : pool.recordAfter parseUrl a h r = r := by
  cases a with
  | resume i now => cases ha
  | dropGuard i now => cases ha
  | _ => rfl

theorem recordAction_of_call {i : ℕ} {now : ℤ} {call : Call} (hcall : pool.calls[i]? = some call) :
    pool.recordAction h (.resume i now) = (pool.callAction h call).map (·, now) := by
  rw [recordAction, hcall, Option.bind_some]

theorem recordAfter_of_ends {i : ℕ} {now : ℤ} {call : Call} (hcall : pool.calls[i]? = some call)
    (hends : call.ends = true) : pool.recordAfter parseUrl (.resume i now) h r = r := by
  rw [recordAfter, recordAction_of_call hcall]
  cases call with
  | acquire id k => cases hends
  | health op k => cases hends
  | sweep op records =>
      cases records with
      | nil => rfl
      | cons k rest => cases hends
  | _ => rfl

/-- An action changes the record that it locks, and no other. -/
theorem getElem?_set_recordAfter {k : ℕ} {now : ℤ} {record : ConnectionRecord}
    (action : RecordAction) (hrecord : pool.heap[k]? = some record)
    (haction : pool.recordAction h a = if k = h then some (action, now) else none)
    (hr : pool.heap[h]? = some r) :
    (pool.setRecord k (action.apply parseUrl now record)).heap[h]? =
      some (pool.recordAfter parseUrl a h r) := by
  rw [getElem?_setRecord (lt_of_getElem?_eq_some hrecord), recordAfter, haction]
  by_cases hk : k = h
  · subst hk
    obtain rfl := Option.some.inj (hr.symm.trans hrecord)
    rw [if_pos rfl, if_pos rfl]
  · rw [if_neg hk, if_neg hk]
    exact hr

/-- A step changes each record as its action on this record does. -/
theorem heap_step (hs : pool.step parseUrl a = some pool') (hr : pool.heap[h]? = some r) :
    pool'.heap[h]? = some (pool.recordAfter parseUrl a h r) := by
  have hlocked : ∀ {i : ℕ} {now : ℤ} {call : Call} {k : ℕ} {action : RecordAction},
      pool.calls[i]? = some call → (pool.callAction h call = if k = h then some action else none) →
        pool.recordAction h (.resume i now) = if k = h then some (action, now) else none := by
    intro i now call k action hcall haction
    rw [recordAction_of_call hcall, haction]
    split <;> rfl
  cases step_move hs with
  | idle _ ha =>
      rw [recordAfter_of_not_locks ha]
      exact hr
  | begins ha hfresh hkind hvalid =>
      rw [recordAfter_of_not_locks ha]
      exact hr
  | marks outcome ha hguard =>
      rw [recordAfter_of_not_locks ha]
      exact hr
  | @drops i now guard record hguard hrecord =>
      refine getElem?_set_recordAfter (.release guard.lease.borrowedAt guard.outcome) hrecord ?_ hr
      rw [recordAction, hguard, Option.bind_some]
  | registers hnew hvalid => exact (adds_insertRecord pool _).getElem? hr
  | @acquires i now id k record hcall hrecord =>
      exact getElem?_set_recordAfter (.acquire id pool.attemptWindows) hrecord
        (hlocked hcall rfl) hr
  | @checks i now op k record hcall hrecord =>
      exact getElem?_set_recordAfter (.health op) hrecord (hlocked hcall rfl) hr
  | @visits i now op k rest record hcall hrecord =>
      exact getElem?_set_recordAfter (.sweep op) hrecord (hlocked hcall rfl) hr
  | declares hcall hdecl hadds hdeclares hreset =>
      rw [recordAfter_of_ends hcall (Call.ends_of_declares hdecl).1]
      exact hadds.getElem? hr
  | ends windows hcall hends hkept =>
      rw [recordAfter_of_ends hcall hends]
      exact hr

end Pool

/-! ## Runs -/

section Runs

variable {parseUrl : UrlParser} {G : TimedPool → PoolAction → Prop} {h : ℕ}
  {I : ℤ → ConnectionRecord → Prop} {t₀ t : TimedPool} {r₀ : ConnectionRecord}

end Runs

end Nazh
