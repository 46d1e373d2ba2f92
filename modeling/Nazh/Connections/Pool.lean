import Mathlib.Data.List.AList
import Nazh.Connections.Health
import Nazh.Core.Error
import Nazh.Lib.Machine

/-!
# The connection pool

The pool maps connection ids to records behind shared pointers. Every operation on a
record takes two locks, one after the other: it looks the pointer up under the lock of
the map, and then locks the record. Between the two it is a call in flight, and any
other operation may take its turn. The operations that declare connections check under
the lock of the map whether a record is lent, and put a new record in its place.

Records live on a heap and a pointer is a position on it, so that a record that was
replaced in the map is still there for whoever holds its pointer.
-/

namespace Nazh

open Lib

/-- The recent attempts to connect, oldest first, for each connection. -/
abbrev AttemptWindows := AList fun _ : String => List ℤ

/-- `register_attempt`: count an attempt, or refuse it with the wait in milliseconds. -/
def registerAttempt (windows : AttemptWindows) (connectionId : String)
    (policy : ConnectionGovernancePolicy) (now : ℤ) : AttemptWindows × Except ℕ Unit :=
  let cutoff := now - durationMs policy.rateLimitWindowMs
  let attempts := ((windows.lookup connectionId).getD []).dropWhile fun at' => at' < cutoff
  if policy.rateLimitMaxAttempts ≤ attempts.length then
    (windows.insert connectionId attempts, .error policy.rateLimitCooldownMs)
  else (windows.insert connectionId (attempts ++ [now]), .ok ())

/-- The record of a connection that has hit its rate limit. -/
def limitRate (record : ConnectionRecord) (retryAfterMs : ℕ) (now : ℤ) : ConnectionRecord :=
  (record.withHealth fun health =>
    { health with
      rateLimitHits := saturatingSucc health.rateLimitHits
      rateLimitedUntil := some (now + durationMs retryAfterMs)
      phase := .rateLimited
      lastStateChangedAt := some now
      lastCheckedAt := some now }).diagnose
    "短时间内建连次数过多，已进入限流保护" "等待冷却结束后重试，或降低节点触发频率"

/-- The record of a connection that is lent out. -/
def lend (record : ConnectionRecord) (now : ℤ) : ConnectionRecord :=
  let reconnects := 0 < record.health.consecutiveFailures
  ({ record with inUse := true, lastBorrowedAt := some now }.withHealth fun health =>
    { health with
      phase := if reconnects then .reconnecting else .connecting
      lastStateChangedAt := some now
      lastCheckedAt := some now }).diagnose
    (if reconnects then "正在重建连接会话" else "正在建立连接会话")
    "连接已被运行态占用，完成后会自动释放"

/-- `acquire`, from the lock of the record on. -/
def acquireRecord (parseUrl : UrlParser) (connectionId : String) (record : ConnectionRecord)
    (windows : AttemptWindows) (now : ℤ) :
    ConnectionRecord × AttemptWindows × Except EngineError ConnectionLease :=
  let policy := ConnectionGovernancePolicy.fromMetadata record.metadata
  let record := reconcileTimedState record policy now
  if record.inUse then (record, windows, .error (.connectionBusy connectionId))
  else match validateConnectionDefinition parseUrl record.kind record.metadata with
    | .error reason =>
        (markInvalid record reason now, windows,
          .error (.connectionInvalidConfiguration connectionId reason))
    | .ok () =>
        if record.health.circuitOpenUntil.any fun until' => now < until' then
          (record, windows, .error (.connectionCircuitOpen connectionId
            (remainingMs (record.health.circuitOpenUntil.getD now) now)
            (record.health.lastFailureReason.getD "连接仍处于熔断冷却期")))
        else if record.health.rateLimitedUntil.any fun until' => now < until' then
          (record, windows, .error (.connectionRateLimited connectionId
            (remainingMs (record.health.rateLimitedUntil.getD now) now)))
        else match registerAttempt windows connectionId policy now with
          | (windows, .error retryAfterMs) =>
              (limitRate record retryAfterMs now, windows,
                .error (.connectionRateLimited connectionId retryAfterMs))
          | (windows, .ok ()) =>
              (lend record now, windows, .ok ⟨record.id, record.kind, record.metadata, now⟩)

/-- The operations that look one record up and then change it. -/
inductive HealthOp
  | recordConnectSuccess (diagnosis : String) (latencyMs : Option ℕ)
  | recordHeartbeat (diagnosis : String)
  | recordConnectFailure (reason : String)
  | recordTimeout (reason : String)
  | markInvalidConfiguration (reason : String)
  | markDisconnected (diagnosis : String)
  | resetCircuitBreaker
  | get
  deriving DecidableEq, Repr

/-- What an operation does to the record it locked. -/
def HealthOp.apply (now : ℤ) (record : ConnectionRecord) : HealthOp → ConnectionRecord
  | recordConnectSuccess diagnosis latencyMs =>
      Nazh.recordConnectSuccess record diagnosis latencyMs now
  | recordHeartbeat diagnosis => Nazh.recordHeartbeat record diagnosis now
  | recordConnectFailure reason => (Nazh.recordConnectFailure record reason now).1
  | recordTimeout reason => (Nazh.recordTimeout record reason now).1
  | markInvalidConfiguration reason => markInvalid record reason now
  | markDisconnected diagnosis => Nazh.markDisconnected record diagnosis now
  | resetCircuitBreaker => Nazh.resetCircuitBreaker record now
  | get => reconcileTimedState record (.fromMetadata record.metadata) now

/-- The operations that write `inUse := false` without knowing of a guard. -/
def HealthOp.clears : HealthOp → Bool
  | markInvalidConfiguration _ | markDisconnected _ => true
  | _ => false

/-- The operations that visit every record, one lock after the other. -/
inductive SweepOp
  | list
  /-- The clock is read once, before the first record. -/
  | markAllIdle (diagnosis : String) (startedAt : ℤ)
  deriving DecidableEq, Repr

def SweepOp.apply (now : ℤ) (record : ConnectionRecord) : SweepOp → ConnectionRecord
  | list => reconcileTimedState record (.fromMetadata record.metadata) now
  | markAllIdle diagnosis startedAt => markIdle record diagnosis startedAt

def SweepOp.clears : SweepOp → Bool
  | list => false
  | markAllIdle _ _ => true

/-- A call between two of its locks. A pointer to a record is its position on the heap. -/
inductive Call
  | acquire (connectionId : String) (record : ℕ)
  | health (op : HealthOp) (record : ℕ)
  | sweep (op : SweepOp) (records : List ℕ)
  /-- `upsert_connection` after it saw no shared session. -/
  | upsert (definition : ConnectionDefinition)
  /-- `upsert_connections` with the sessions it saw. -/
  | upsertMany (definitions : List ConnectionDefinition) (activeSessionIds : List String)
  /-- `replace_connections` after it saw no shared session. -/
  | replaceAll (definitions : List ConnectionDefinition)
  | resetAttemptWindow (connectionId : String)
  | resetAttemptWindows (connectionIds : List String)
  deriving DecidableEq

/-- A live guard: the lease, the pointer to the record and the mark so far. -/
structure ConnectionGuard where
  lease : ConnectionLease
  record : ℕ
  outcome : ConnectionOutcome

/-- The pool, with the guards alive and the calls in flight. -/
structure Pool where
  /-- Every record ever made. -/
  heap : List ConnectionRecord
  connections : AList fun _ : String => ℕ
  attemptWindows : AttemptWindows
  sharedSessions : List String
  guards : List ConnectionGuard
  calls : List Call

/-- What can happen to a pool. -/
inductive PoolAction
  /-- `acquire` looks the record up. -/
  | acquire (connectionId : String)
  | health (connectionId : String) (op : HealthOp)
  | sweep (op : SweepOp)
  /-- The call `i` takes its next lock. -/
  | resume (i : ℕ) (now : ℤ)
  | markSuccess (guard : ℕ)
  | markFailure (guard : ℕ) (reason : String)
  | dropGuard (guard : ℕ) (now : ℤ)
  | register (definition : ConnectionDefinition)
  | upsert (definition : ConnectionDefinition)
  | upsertMany (definitions : List ConnectionDefinition)
  | replaceAll (definitions : List ConnectionDefinition)
  /-- A shared session of the connection is opened, or closed. -/
  | session (connectionId : String) (opened : Bool)

namespace PoolAction

/-- The operations that change the map, and those that hold them off. -/
def declares : PoolAction → Bool
  | register _ | upsert _ | upsertMany _ | replaceAll _ | session _ _ => true
  | _ => false

end PoolAction

namespace Pool

variable (parseUrl : UrlParser)

/-- `connection_record_in_use` on the record the map has for an id. -/
def lent (pool : Pool) (connectionId : String) : Bool :=
  ((pool.connections.lookup connectionId).bind fun h => pool.heap[h]?).any ConnectionRecord.inUse

def setRecord (pool : Pool) (h : ℕ) (record : ConnectionRecord) : Pool :=
  { pool with heap := pool.heap.set h record }

def beginCall (pool : Pool) (call : Call) : Pool := { pool with calls := pool.calls ++ [call] }

def endCall (pool : Pool) (i : ℕ) : Pool := { pool with calls := pool.calls.eraseIdx i }

def setCall (pool : Pool) (i : ℕ) (call : Call) : Pool :=
  { pool with calls := pool.calls.set i call }

/-- `entry`: look a record up and go on to its lock. -/
def lookUp (pool : Pool) (connectionId : String) (call : ℕ → Call) : Pool :=
  match pool.connections.lookup connectionId with
  | none => pool
  | some h => pool.beginCall (call h)

/-- A new record in the place of whatever the map had. -/
def insertRecord (pool : Pool) (definition : ConnectionDefinition) : Pool :=
  { pool with
    heap := pool.heap ++ [buildRecord parseUrl definition]
    connections := pool.connections.insert definition.id pool.heap.length }

/-- The loop of `upsert_connections`, under the lock of the map. -/
def insertUnlent (activeSessionIds : List String) (pool : Pool) :
    List ConnectionDefinition → Pool
  | [] => pool
  | definition :: rest =>
      if pool.lent definition.id || activeSessionIds.contains definition.id then
        insertUnlent activeSessionIds pool rest
      else insertUnlent activeSessionIds (pool.insertRecord parseUrl definition) rest

def valid (definition : ConnectionDefinition) : Bool :=
  match validateConnectionDefinition parseUrl definition.kind definition.metadata with
  | .ok () => true
  | .error _ => false

/-- Take the next lock of the call `i`. -/
def resume (pool : Pool) (i : ℕ) (now : ℤ) : Option Pool :=
  match pool.calls[i]? with
  | none => none
  | some (.acquire connectionId h) => match pool.heap[h]? with
    | none => none
    | some record =>
        let (record, attemptWindows, result) :=
          acquireRecord parseUrl connectionId record pool.attemptWindows now
        let pool := { (pool.setRecord h record).endCall i with attemptWindows }
        match result with
        | .ok lease => some { pool with guards := pool.guards ++ [⟨lease, h, .pending⟩] }
        | .error _ => some pool
  | some (.health op h) => match pool.heap[h]? with
    | none => none
    | some record => some ((pool.setRecord h (op.apply now record)).endCall i)
  | some (.sweep _ []) => some (pool.endCall i)
  | some (.sweep op (h :: rest)) => match pool.heap[h]? with
    | none => none
    | some record => some ((pool.setRecord h (op.apply now record)).setCall i (.sweep op rest))
  | some (.upsert definition) =>
      if pool.lent definition.id then some (pool.endCall i)
      else some ((pool.insertRecord parseUrl definition).setCall i
        (.resetAttemptWindow definition.id))
  | some (.upsertMany definitions activeSessionIds) =>
      some ((pool.insertUnlent parseUrl activeSessionIds definitions).setCall i
        (.resetAttemptWindows (definitions.map ConnectionDefinition.id)))
  | some (.replaceAll definitions) =>
      if pool.connections.keys.any pool.lent then some (pool.endCall i)
      else some ((definitions.foldl (insertRecord parseUrl)
        { pool with connections := ∅ }).setCall i
        (.resetAttemptWindows (definitions.map ConnectionDefinition.id)))
  | some (.resetAttemptWindow connectionId) =>
      some ({ pool with attemptWindows := pool.attemptWindows.insert connectionId [] }.endCall i)
  | some (.resetAttemptWindows connectionIds) =>
      some ({ pool with attemptWindows :=
        connectionIds.foldl (fun windows id => windows.insert id []) ∅ }.endCall i)

/-- One step of the pool. -/
def step (pool : Pool) : PoolAction → Option Pool
  | .acquire connectionId => some (pool.lookUp connectionId (.acquire connectionId))
  | .health connectionId op => some (pool.lookUp connectionId (.health op))
  | .sweep op => some (pool.beginCall (.sweep op (pool.connections.entries.map Sigma.snd)))
  | .resume i now => pool.resume parseUrl i now
  | .markSuccess i => (pool.guards[i]?).map fun guard =>
      { pool with guards := pool.guards.set i { guard with outcome := .success } }
  | .markFailure i reason => (pool.guards[i]?).map fun guard =>
      { pool with guards := pool.guards.set i { guard with outcome := .failure reason } }
  | .dropGuard i now => (pool.guards[i]?).bind fun guard =>
      (pool.heap[guard.record]?).map fun record =>
        { pool.setRecord guard.record
            (finalizeRelease record guard.lease.borrowedAt guard.outcome now) with
          guards := pool.guards.eraseIdx i }
  | .register definition =>
      if (pool.connections.lookup definition.id).isSome || !valid parseUrl definition then some pool
      else some ((pool.insertRecord parseUrl definition).beginCall
        (.resetAttemptWindow definition.id))
  | .upsert definition =>
      if !valid parseUrl definition || pool.sharedSessions.contains definition.id then some pool
      else some (pool.beginCall (.upsert definition))
  | .upsertMany definitions =>
      if definitions.all (valid parseUrl) then
        some (pool.beginCall (.upsertMany definitions pool.sharedSessions))
      else some pool
  | .replaceAll definitions =>
      if pool.sharedSessions.isEmpty && definitions.all (valid parseUrl) then
        some (pool.beginCall (.replaceAll definitions))
      else some pool
  | .session connectionId opened =>
      some { pool with sharedSessions :=
        if opened then connectionId :: pool.sharedSessions
        else pool.sharedSessions.filter (· ≠ connectionId) }

/-- A pool at rest: nothing is lent, and the map has each record under its own id. -/
structure AtRest (pool : Pool) : Prop where
  guards_none : pool.guards = []
  calls_none : pool.calls = []
  unlent : ∀ record ∈ pool.heap, record.inUse = false
  named : ∀ id h, pool.connections.lookup id = some h →
    ∃ record, pool.heap[h]? = some record ∧ record.id = id

/-- The runs of a pool. -/
def machine : Machine Pool PoolAction := ⟨AtRest, step parseUrl⟩

/-- The runs in which no connection is declared. -/
def borrowing : Machine Pool PoolAction :=
  ⟨AtRest, fun pool a => if a.declares then none else pool.step parseUrl a⟩

end Pool
end Nazh
