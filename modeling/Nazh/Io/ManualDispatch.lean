import Nazh.Core.Node
import Nazh.Io.Subscriptions

/-!
# Dispatching to a node that subscribes

A subscribing MQTT node gets its messages from a task, which holds the lease of the connection for
as long as it listens. The node may be called by hand too, and should then do with a message what
the task would do. But it borrows the connection only to name it in its metadata, and drops the
guard without a mark: while the task listens it is refused, and otherwise the connection is shown
as degraded.
-/

namespace Nazh

open Lib

/-! ## Messages -/

/-- What the node uses of other code. -/
structure MqttReader where
  /-- `serde_json::from_str`. -/
  fromStr : String → Option Value
  fromUtf8Lossy : List UInt8 → String
  toRfc3339 : ℤ → String

structure MqttMessage where
  topic : String
  body : List UInt8
  qos : UInt8
  retain : Bool

/-- What is said of a message beside its payload. -/
def withMessageFields (payloadMap msgObj : Fields) : Fields :=
  (payloadMap.insert "mqtt_topic" ((msgObj.lookup "topic").getD .null)).insert "mqtt_received_at"
    ((msgObj.lookup "received_at").getD .null)

/-- The payload of a message: its members if it is an object. -/
def withParsedPayload (reader : MqttReader) (payloadMap msgObj : Fields) : Fields :=
  match (msgObj.lookup "payload").bind Value.asStr with
  | none => payloadMap
  | some text => match reader.fromStr text with
    | some (.object parsedMap) =>
        parsedMap.foldl (fun map field => map.insert field.1 field.2) payloadMap
    | some parsed => payloadMap.insert "mqtt_payload" parsed
    | none => payloadMap.insert "mqtt_payload" (.string text)

def normalizeSubscribedPayload (reader : MqttReader) (payload : Value) : Value :=
  let payloadMap := intoPayloadMap payload
  match payloadMap.lookup "_mqtt_message" with
  | none => .object payloadMap
  | some mqttMsg =>
      let payloadMap := payloadMap.filter fun field => field.1 ≠ "_mqtt_message"
      let msgObj := match mqttMsg with
        | .object map => map
        | other => [("raw", other)]
      .object (withMessageFields (withParsedPayload reader payloadMap msgObj) msgObj)

/-- `envelope` in `build_message_payload`. -/
def messageEnvelope (reader : MqttReader) (message : MqttMessage) (receivedAt : ℤ) : Value :=
  .object [("_mqtt_message", .object [
    ("payload", .string (reader.fromUtf8Lossy message.body)),
    ("qos", .number (.ofNat message.qos.toNat)),
    ("received_at", .string (reader.toRfc3339 receivedAt)),
    ("retain", .bool message.retain),
    ("topic", .string message.topic)])]

def buildMessagePayload (reader : MqttReader) (message : MqttMessage) (receivedAt : ℤ) : Value :=
  normalizeSubscribedPayload reader (messageEnvelope reader message receivedAt)

/-! ## The node -/

/-- `mqttClient` that subscribes, bound to a connection. -/
structure MqttSubscribingNode where
  id : String
  connectionId : String
  topic : String

/-- The metadata that the task emits with each message. -/
def subscribeMetadata (reader : MqttReader) (node : MqttSubscribingNode) (processedAt : ℤ) :
    Fields :=
  [("mqtt", .object [
    ("mode", .string "subscribe"),
    ("processed_at", .string (reader.toRfc3339 processedAt)),
    ("topic", .string node.topic)])]

/-- `connection_metadata`. -/
def connectionMetadata (reader : MqttReader) (lease : ConnectionLease) : String × Value :=
  ("connection", .object [
    ("borrowed_at", .string (reader.toRfc3339 lease.borrowedAt)),
    ("id", .string lease.id),
    ("kind", .string lease.kind),
    ("metadata", lease.metadata)])

/-- When the clock is read: for the metadata, by `acquire`, and when the guard is dropped. -/
structure DispatchTimes where
  processedAt : ℤ
  acquiredAt : ℤ
  droppedAt : ℤ

/-- `transform` of a node that subscribes, with the pool after it. The guard is dropped without a
mark. -/
def MqttSubscribingNode.transform (node : MqttSubscribingNode) (parseUrl : UrlParser)
    (reader : MqttReader) (pool : Pool) (payload : Value) (times : DispatchTimes) :
    Pool × Except EngineError NodeExecution :=
  let result := normalizeSubscribedPayload reader payload
  match (pool.connections.lookup node.connectionId).bind fun h =>
      (pool.heap[h]?).map fun record => (h, record) with
  | none => (pool, .error (.connectionNotFound node.connectionId))
  | some (h, record) =>
      let (record, attemptWindows, answer) :=
        acquireRecord parseUrl node.connectionId record pool.attemptWindows times.acquiredAt
      let pool := { pool.setRecord h record with attemptWindows }
      match answer with
      | .error error => (pool, .error error)
      | .ok lease =>
          let (key, value) := connectionMetadata reader lease
          let metadata := (subscribeMetadata reader node times.processedAt).insert key value
          (pool.setRecord h (finalizeRelease record lease.borrowedAt .pending times.droppedAt),
            .ok ((NodeExecution.broadcast result).withMetadata (some metadata)))

/-! ## What a dispatch should do -/

/-- The counters of failures and the phase. -/
def ConnectionHealthSnapshot.standing (health : ConnectionHealthSnapshot) :
    (ℕ × ℕ × ℕ × ℕ) × ConnectionHealthState :=
  ((health.consecutiveFailures, health.totalFailures, health.timeoutCount,
    health.reconnectAttempts), health.phase)

/-- The node gives what the task would emit, and the connection is left as it was. -/
structure Pool.Dispatches (parseUrl : UrlParser) (reader : MqttReader) (node : MqttSubscribingNode)
    (pool : Pool) (payload : Value) (times : DispatchTimes) : Prop where
  answered : ∃ output, (node.transform parseUrl reader pool payload times).2 = .ok ⟨[output]⟩ ∧
    output.payload = normalizeSubscribedPayload reader payload ∧
    (∀ message receivedAt, payload = messageEnvelope reader message receivedAt →
      output.payload = buildMessagePayload reader message receivedAt) ∧
    (output.metadata.bind fun metadata => metadata.lookup "mqtt") =
      (subscribeMetadata reader node times.processedAt).lookup "mqtt"
  unchanged : ∀ h record record', pool.connections.lookup node.connectionId = some h →
    pool.heap[h]? = some record →
    (node.transform parseUrl reader pool payload times).1.heap[h]? = some record' →
    record'.health.standing = record.health.standing

/-- The record is free, and the limits let it be lent. -/
structure ConnectionRecord.Lendable (parseUrl : UrlParser) (connectionId : String)
    (windows : AttemptWindows) (now : ℤ) (record : ConnectionRecord) : Prop where
  free : record.inUse = false
  valid : validateConnectionDefinition parseUrl record.kind record.metadata = .ok ()
  closed : ∀ deadline, record.health.circuitOpenUntil = some deadline → deadline ≤ now
  unlimited : ∀ deadline, record.health.rateLimitedUntil = some deadline → deadline ≤ now
  attempts : (registerAttempt windows connectionId record.policy now).2 = .ok ()

/-- The record is shown as degraded, and its guard is dropped in time; or it is dropped too late,
and the record stands as a timeout makes it stand, all counters being full. -/
def ConnectionRecord.Stays (times : DispatchTimes) (record : ConnectionRecord) : Prop :=
  if elapsedMs times.acquiredAt times.droppedAt ≤ record.policy.operationTimeoutMs then
    record.health.phase = .degraded
  else record.health.standing = ((counterLimit, counterLimit, counterLimit, counterLimit),
    if record.policy.circuitFailureThreshold ≤ counterLimit then .circuitOpen else .timeout)

/-- The connection is there, can be lent, and stays as it is. -/
def Pool.Takes (parseUrl : UrlParser) (node : MqttSubscribingNode) (pool : Pool)
    (times : DispatchTimes) : Prop :=
  ∃ h record, pool.connections.lookup node.connectionId = some h ∧ pool.heap[h]? = some record ∧
    record.Lendable parseUrl node.connectionId pool.attemptWindows times.acquiredAt ∧
    record.Stays times

section

variable {parseUrl : UrlParser} {reader : MqttReader} {node : MqttSubscribingNode} {pool : Pool}
  {payload : Value} {times : DispatchTimes} {record : ConnectionRecord}
  {connectionId : String} {windows : AttemptWindows} {now : ℤ} {h : ℕ}

/-! ## Lending and releasing -/

/-- What time does to a record leaves its counters and what lending asks for. -/
theorem standing_reconcileTimedState (record : ConnectionRecord) (now : ℤ) :
    (reconcileTimedState record (.fromMetadata record.metadata) now).health.standing.1 =
      record.health.standing.1 := by
  obtain ⟨_, _, _, _, _, hrec⟩ :=
    reconcileTimedState_eq record (.fromMetadata record.metadata) now
  rw [hrec]
  rfl

/-- A deadline that is over is none. -/
theorem unexpired_of_over {deadline : Option ℤ} (hover : ∀ at', deadline = some at' → at' ≤ now) :
    unexpired now deadline = none := by
  cases deadline with
  | none => rfl
  | some at' => exact unexpired_of_le (hover at' rfl)

/-- A record that can be lent is. -/
theorem acquireRecord_of_lendable (hrecord : record.Lendable parseUrl connectionId windows now) :
    acquireRecord parseUrl connectionId record windows now =
      (lend (reconcileTimedState record (.fromMetadata record.metadata) now) now,
        (registerAttempt windows connectionId record.policy now).1,
        .ok ⟨record.id, record.kind, record.metadata, now⟩) := by
  obtain ⟨_, _, _, _, _, hrec⟩ :=
    reconcileTimedState_eq record (.fromMetadata record.metadata) now
  have hregister : registerAttempt windows connectionId (.fromMetadata record.metadata) now =
      ((registerAttempt windows connectionId record.policy now).1, .ok ()) :=
    Prod.ext rfl hrecord.attempts
  simp only [acquireRecord, hrec, hrecord.free, hrecord.valid, unexpired_of_over hrecord.closed,
    unexpired_of_over hrecord.unlimited, Option.any_none, Bool.false_eq_true, if_false, hregister]

/-- A record that is lent could be. -/
theorem lendable_of_acquireRecord {lease : ConnectionLease}
    (hok : (acquireRecord parseUrl connectionId record windows now).2.2 = .ok lease) :
    record.Lendable parseUrl connectionId windows now := by
  obtain ⟨_, _, _, _, _, hrec⟩ :=
    reconcileTimedState_eq record (.fromMetadata record.metadata) now
  have hvalid : validateConnectionDefinition parseUrl record.kind record.metadata = .ok () := by
    cases hvalidate : validateConnectionDefinition parseUrl record.kind record.metadata with
    | ok _ => rfl
    | error reason =>
        simp only [acquireRecord, hrec, hvalidate] at hok
        split at hok
        · cases hok
        · cases hok
  have hout := acquireRecord_outcome parseUrl connectionId record windows now
  generalize acquireRecord parseUrl connectionId record windows now = answer at hout hok
  rw [hrec] at hout
  have hover : ∀ {until' : Option ℤ}, (∀ deadline, unexpired now until' = some deadline →
      deadline ≤ now) → ∀ deadline, until' = some deadline → deadline ≤ now := by
    intro until' hnone deadline hdeadline
    have hexpired := unexpired_eq_none hnone
    rw [hdeadline] at hexpired
    by_contra hlater
    rw [unexpired_of_lt (by omega)] at hexpired
    cases hexpired
  cases hout with
  | lent windows' hfree hclosed hunlimited hregister =>
      exact ⟨hfree, hvalid, hover hclosed, hover hunlimited, congrArg Prod.snd hregister⟩
  | _ => cases hok

/-- A guard without a mark that is dropped in time leaves the counters and degrades the phase. -/
theorem standing_release_of_le {borrowedAt : ℤ}
    (hle : elapsedMs borrowedAt now ≤ record.policy.operationTimeoutMs) :
    (finalizeRelease record borrowedAt .pending now).health.standing =
      (record.health.standing.1, .degraded) := by
  have hout := finalizeRelease_outcome record borrowedAt .pending now
  generalize finalizeRelease record borrowedAt .pending now = after at hout
  cases hout with
  | overTime _ _ hover => omega
  | pending _ _ _ => rfl

/-- A guard that is dropped too late counts a timeout, and a failure of every kind. -/
theorem standing_release_of_lt {borrowedAt : ℤ}
    (hlt : record.policy.operationTimeoutMs < elapsedMs borrowedAt now) :
    (finalizeRelease record borrowedAt .pending now).health.standing =
      ((saturatingSucc record.health.consecutiveFailures,
          saturatingSucc record.health.totalFailures, saturatingSucc record.health.timeoutCount,
          saturatingSucc record.health.reconnectAttempts),
        if record.policy.circuitFailureThreshold ≤
            saturatingSucc record.health.consecutiveFailures then .circuitOpen else .timeout) := by
  have hout := finalizeRelease_outcome record borrowedAt .pending now
  generalize finalizeRelease record borrowedAt .pending now = after at hout
  cases hout with
  | overTime _ text _ =>
      by_cases hopen : record.policy.circuitFailureThreshold ≤
          saturatingSucc record.health.consecutiveFailures
      · have hfailure : applyRuntimeFailure (released record borrowedAt now) record.policy now text
            true = _ := if_pos hopen
        rw [hfailure, if_pos hopen]
        rfl
      · have hfailure : applyRuntimeFailure (released record borrowedAt now) record.policy now text
            true = _ := if_neg hopen
        rw [hfailure, if_neg hopen]
        rfl
  | pending _ _ hle => omega

/-- A counter that is not counted up is full. -/
theorem saturatingSucc_eq_self {n : ℕ} : saturatingSucc n = n ↔ n = counterLimit := by
  rw [saturatingSucc, counterLimit]
  omega

/-- What a dispatch makes of a record that it is lent. -/
def ConnectionRecord.dispatched (record : ConnectionRecord) (times : DispatchTimes) :
    ConnectionRecord :=
  finalizeRelease
    (lend (reconcileTimedState record (.fromMetadata record.metadata) times.acquiredAt)
      times.acquiredAt)
    times.acquiredAt .pending times.droppedAt

/-- Counting a timeout leaves a record as it was just if there is nothing left to count. -/
theorem standing_counted {health : ConnectionHealthSnapshot} {threshold : ℕ} :
    ((saturatingSucc health.consecutiveFailures, saturatingSucc health.totalFailures,
          saturatingSucc health.timeoutCount, saturatingSucc health.reconnectAttempts),
        if threshold ≤ saturatingSucc health.consecutiveFailures then .circuitOpen else .timeout) =
      health.standing ↔
    health.standing = ((counterLimit, counterLimit, counterLimit, counterLimit),
      if threshold ≤ counterLimit then ConnectionHealthState.circuitOpen else .timeout) := by
  simp only [ConnectionHealthSnapshot.standing, Prod.mk.injEq]
  constructor
  · intro h
    obtain ⟨⟨hconsecutive, htotal, htimeouts, hattempts⟩, hphase⟩ := h
    have hfull := saturatingSucc_eq_self.mp hconsecutive
    refine ⟨⟨hfull, saturatingSucc_eq_self.mp htotal, saturatingSucc_eq_self.mp htimeouts,
      saturatingSucc_eq_self.mp hattempts⟩, ?_⟩
    rw [← hphase, hconsecutive, hfull]
  · intro h
    obtain ⟨⟨hconsecutive, htotal, htimeouts, hattempts⟩, hphase⟩ := h
    refine ⟨⟨saturatingSucc_eq_self.mpr hconsecutive, saturatingSucc_eq_self.mpr htotal,
      saturatingSucc_eq_self.mpr htimeouts, saturatingSucc_eq_self.mpr hattempts⟩, ?_⟩
    rw [hphase, saturatingSucc_eq_self.mpr hconsecutive, hconsecutive]

/-- A dispatch leaves a record as it was just if it stays. -/
theorem standing_dispatched :
    (record.dispatched times).health.standing = record.health.standing ↔ record.Stays times := by
  have hcounters := standing_reconcileTimedState record times.acquiredAt
  have hpolicy := policy_of_definition
    (healthOnly_reconcileTimedState record (.fromMetadata record.metadata)
      times.acquiredAt).definition
  rw [ConnectionRecord.dispatched, ConnectionRecord.Stays]
  generalize reconcileTimedState record (.fromMetadata record.metadata) times.acquiredAt =
    reconciled at hcounters hpolicy
  have hcounters' : (lend reconciled times.acquiredAt).health.standing.1 =
      record.health.standing.1 := hcounters
  have hpolicy' : (lend reconciled times.acquiredAt).policy = record.policy := hpolicy
  generalize lend reconciled times.acquiredAt = lent at hcounters' hpolicy'
  simp only [ConnectionHealthSnapshot.standing, Prod.mk.injEq] at hcounters'
  obtain ⟨hconsecutive, htotal, htimeouts, hattempts⟩ := hcounters'
  rw [← hpolicy']
  by_cases hle : elapsedMs times.acquiredAt times.droppedAt ≤ lent.policy.operationTimeoutMs
  · rw [standing_release_of_le hle, if_pos hle, Prod.ext_iff]
    simp only [ConnectionHealthSnapshot.standing, hconsecutive, htotal, htimeouts, hattempts,
      true_and]
    exact eq_comm
  · rw [standing_release_of_lt (Nat.lt_of_not_le hle), if_neg hle, hconsecutive, htotal, htimeouts,
      hattempts]
    exact standing_counted

/-! ## A dispatch -/

/-- The node is refused if its connection is. -/
theorem transform_of_error {error : EngineError}
    (hconnection : pool.connections.lookup node.connectionId = some h)
    (hrecord : pool.heap[h]? = some record)
    (hanswer : (acquireRecord parseUrl node.connectionId record pool.attemptWindows
      times.acquiredAt).2.2 = .error error) :
    (node.transform parseUrl reader pool payload times).2 = .error error := by
  rw [MqttSubscribingNode.transform, hconnection, Option.bind_some, hrecord]
  simp only [Option.map_some, hanswer]

/-- The node answers with the message as it is normalized, and its record has been lent and
released. -/
theorem transform_of_lendable
    (hconnection : pool.connections.lookup node.connectionId = some h)
    (hrecord : pool.heap[h]? = some record)
    (hlendable : record.Lendable parseUrl node.connectionId pool.attemptWindows
      times.acquiredAt) :
    (node.transform parseUrl reader pool payload times).1.heap[h]? =
        some (record.dispatched times) ∧
      (node.transform parseUrl reader pool payload times).2 =
        .ok ((NodeExecution.broadcast (normalizeSubscribedPayload reader payload)).withMetadata
          (some ((subscribeMetadata reader node times.processedAt).insert "connection"
            (connectionMetadata reader
              ⟨record.id, record.kind, record.metadata, times.acquiredAt⟩).2))) := by
  have hlt : h < pool.heap.length := (List.getElem?_eq_some_iff.mp hrecord).1
  rw [MqttSubscribingNode.transform, hconnection, Option.bind_some, hrecord]
  simp only [Option.map_some, acquireRecord_of_lendable hlendable]
  refine ⟨?_, rfl⟩
  simp only [Pool.setRecord, List.set_set, List.getElem?_set_self hlt]
  rfl

/-- The node gives what the task would and leaves the connection as it was, exactly if it takes. -/
theorem dispatches_iff_takes : pool.Dispatches parseUrl reader node payload times ↔
    pool.Takes parseUrl node times := by
  constructor
  · intro hdispatches
    obtain ⟨output, houtput, -⟩ := hdispatches.answered
    cases hfound : (pool.connections.lookup node.connectionId).bind fun h =>
        (pool.heap[h]?).map fun record => (h, record) with
    | none =>
        rw [MqttSubscribingNode.transform, hfound] at houtput
        cases houtput
    | some found =>
        obtain ⟨h, hconnection, hmap⟩ := Option.bind_eq_some_iff.mp hfound
        obtain ⟨record, hrecord, -⟩ := Option.map_eq_some_iff.mp hmap
        have hlendable : record.Lendable parseUrl node.connectionId pool.attemptWindows
            times.acquiredAt := by
          cases hanswer : (acquireRecord parseUrl node.connectionId record pool.attemptWindows
              times.acquiredAt).2.2 with
          | ok lease => exact lendable_of_acquireRecord hanswer
          | error error =>
              rw [transform_of_error hconnection hrecord hanswer] at houtput
              cases houtput
        refine ⟨h, record, hconnection, hrecord, hlendable, standing_dispatched.mp ?_⟩
        exact hdispatches.unchanged h record _ hconnection hrecord
          (transform_of_lendable hconnection hrecord hlendable).1
  · intro htakes
    obtain ⟨h, record, hconnection, hrecord, hlendable, hstays⟩ := htakes
    obtain ⟨hheap, hanswer⟩ := transform_of_lendable hconnection hrecord hlendable
    constructor
    · refine ⟨_, hanswer, rfl, ?_, rfl⟩
      intro message receivedAt hpayload
      rw [hpayload]
      rfl
    · intro h' record' after hconnection' hrecord' hafter
      obtain rfl := Option.some.inj (hconnection.symm.trans hconnection')
      obtain rfl := Option.some.inj (hrecord.symm.trans hrecord')
      obtain rfl := Option.some.inj (hheap.symm.trans hafter)
      exact standing_dispatched.mpr hstays

end

/-! ## While the task listens -/

section Held

variable {Phase Event : Type} {parseUrl : UrlParser} {loop : ListenLoop Phase Event}
  {s s' : Listening Phase} {a : ListenAction Event}

/-- What is still to be done before the guard is dropped clears no flag. -/
def KeepsFlag (todo : List ListenCommand) : Prop :=
  ∀ op, .record op ∈ todo.takeWhile (· ≠ .dropGuard) → op.clears = false

/-- What the task holds is lent, and stays so until it drops its guard. -/
structure Listening.HoldsLent (s : Listening Phase) : Prop where
  lent : ∀ h, s.pc.holds = some h → ∃ record, s.timed.pool.heap[h]? = some record ∧
    record.inUse = true
  keeps : ∀ turn guard todo found changes, s.pc = .running turn (some guard) todo found changes →
    KeepsFlag todo

/-- No step of anything else clears the flag of what the task holds. -/
def Listening.SparesHeld (parseUrl : UrlParser) (s : Listening Phase) :
    ListenAction Event → Prop
  | .others a => ∀ timed h, s.timed.step parseUrl a = some timed → s.pc.holds = some h →
      ∃ record, timed.pool.heap[h]? = some record ∧ record.inUse = true
  | _ => True

/-- A step of the task itself. -/
def ListenAction.isOwn : ListenAction Event → Bool
  | .others _ => false
  | _ => true

theorem ListenAction.sparesHeld_of_isOwn (h : a.isOwn = true) : s.SparesHeld parseUrl a := by
  cases a with
  | others a => cases h
  | _ => trivial

/-- An errand that goes on with the guard goes on with what is lent. -/
theorem Listening.HoldsLent.goOn {turn : ListenTurn} {held : Option (ConnectionGuard × Phase)}
    {todo : List ListenCommand} {changes : List RecordChange}
    (hlent : ∀ guard, held = some guard → ∃ record,
      s.timed.pool.heap[guard.1.record]? = some record ∧ record.inUse = true)
    (hkeeps : ∀ guard, held = some guard → KeepsFlag todo) :
    (s.goOn turn held todo changes).HoldsLent where
  lent h hholds := by
    rw [Listening.holds_goOn] at hholds
    obtain ⟨guard, hheld, rfl⟩ := Option.map_eq_some_iff.mp hholds
    rw [Listening.pool_goOn]
    exact hlent guard hheld
  keeps turn' guard todo' found changes' hpc := by
    rw [Listening.goOn.eq_def] at hpc
    split at hpc
    · split at hpc
      · cases hpc
      · split at hpc
        · cases hpc
        · cases hpc
    · cases hpc
      exact hkeeps guard rfl

/-- A run of the task goes on with what is lent, if others spare it. -/
theorem Listening.HoldsLent.step (hs : s.HoldsLent)
    (hmeet : ∀ cancelled lease phase event errand phase',
      loop.meet cancelled lease phase event = some (errand, phase') → KeepsFlag errand.todo)
    (hspares : s.SparesHeld parseUrl a) (h : s.step parseUrl loop a = some s') :
    s'.HoldsLent := by
  -- the flag of what is held, once the task stands in the middle of an errand
  have hrunning : ∀ {turn held todo found changes}, s.pc = .running turn held todo found changes →
      ∀ guard, held = some guard → ∃ record,
        s.timed.pool.heap[guard.1.record]? = some record ∧ record.inUse = true := by
    intro turn held todo found changes hpc guard hheld
    apply hs.lent
    rw [hpc, hheld]
    rfl
  cases step_moves h with
  | others htimed => exact ⟨fun k hk => hspares _ k htimed hk, hs.keeps⟩
  | cancel => exact ⟨hs.lent, hs.keeps⟩
  | leave _ => exact ⟨fun _ hk => (by cases hk), fun _ _ _ _ _ hpc => (by cases hpc)⟩
  | asks _ _ => exact ⟨fun _ hk => (by cases hk), fun _ _ _ _ _ hpc => (by cases hpc)⟩
  | unknown _ _ => exact .goOn (fun _ hheld => (by cases hheld)) fun _ hheld => (by cases hheld)
  | finds hpc _ =>
      constructor
      · intro k hk
        apply hs.lent
        rw [hpc]
        exact hk
      · intro turn guard todo found changes hpc'
        cases hpc'
        exact hs.keeps _ _ _ _ _ hpc
  | misses hpc _ =>
      refine .goOn (hrunning hpc) fun guard hheld op hop => ?_
      rw [hheld] at hpc
      exact hs.keeps _ _ _ _ _ hpc op (List.mem_cons_of_mem _ hop)
  | acquires hpc hrecord _ =>
      obtain ⟨s₁, -, -, hheap, -, -, hcases⟩ := acquireAt_cases parseUrl loop s _ _ _
      rcases hcases with ⟨lease, hlease, hafter⟩ | ⟨error, -, hafter⟩
      · rw [hafter]
        refine ⟨fun k hk => ?_, fun _ _ _ _ _ hpc' => (by cases hpc')⟩
        cases hk
        refine ⟨_, ?_, (justLent_of_acquire hlease).1.lent⟩
        rw [hheap]
        exact List.getElem?_set_self (List.getElem?_eq_some_iff.mp hrecord).1
      · rw [hafter]
        exact .goOn (fun _ hheld => (by cases hheld)) fun _ hheld => (by cases hheld)
  | records hpc hrecord _ =>
      refine .goOn (fun guard hheld => ?_) fun guard hheld op hop => ?_
      · obtain ⟨record, hlent, huse⟩ := hrunning hpc guard hheld
        rw [hheld] at hpc
        rw [heap_write, List.getElem?_set]
        split
        · rename_i hsame
          have hlt := (List.getElem?_eq_some_iff.mp hrecord).1
          rw [hsame] at hrecord
          obtain rfl := Option.some.inj (hrecord.symm.trans hlent)
          refine ⟨_, if_pos hlt, ?_⟩
          rw [(HealthOp.frame _ _ _).2, hs.keeps _ _ _ _ _ hpc _ List.mem_cons_self]
          exact huse
        · exact ⟨record, hlent, huse⟩
      · rw [hheld] at hpc
        exact hs.keeps _ _ _ _ _ hpc op (List.mem_cons_of_mem _ hop)
  | meets hpc hevent =>
      refine .goOn (fun guard hheld => ?_) fun _ _ => hmeet _ _ _ _ _ _ hevent
      cases hheld
      apply hs.lent
      rw [hpc]
      rfl
  | drops _ _ _ => exact .goOn (fun _ hheld => (by cases hheld)) fun _ hheld => (by cases hheld)

/-- What the task holds is lent in each run in which others spare it. -/
theorem Listening.holdsLent_of_reaches
    (hmeet : ∀ cancelled lease phase event errand phase',
      loop.meet cancelled lease phase event = some (errand, phase') → KeepsFlag errand.todo)
    (h : (loop.machine parseUrl).ReachesUnder (fun s a => s.SparesHeld parseUrl a) s) :
    s.HoldsLent := by
  refine h.invariant ?_ fun s a s' hs hspares hstep => hs.step hmeet hspares hstep
  intro s hs
  constructor
  · intro k hk
    rw [hs.pc] at hk
    cases hk
  · intro turn guard todo found changes hpc
    rw [hs.pc] at hpc
    cases hpc

end Held

theorem keepsFlag_failed (reason : String) : KeepsFlag (Subscription.failed reason).todo := by
  intro op hop
  obtain rfl : op = .recordConnectFailure reason := by
    simpa [Subscription.failed, List.takeWhile] using hop
  rfl

theorem keepsFlag_stopped (reason : String) : KeepsFlag (Subscription.stopped reason).todo := by
  intro op hop
  simp [Subscription.stopped] at hop

theorem keepsFlag_wentOn {op : HealthOp} (hop : op.clears = false) :
    KeepsFlag (Subscription.wentOn [.record op]).todo := by
  intro op' hop'
  obtain rfl : op' = op := by simpa [Subscription.wentOn, List.takeWhile] using hop'
  exact hop

/-- The task of a node clears no flag before it drops its guard. -/
theorem keepsFlag_mqttSubscribe {host topic connectionId : String} {port : UInt16}
    {cancelled : Bool} {lease : ConnectionLease} {phase phase' : SubscriptionPhase}
    {event : SubscriptionEvent} {errand : Errand}
    (h : ((Subscription.mqttSubscribe host port topic).loop connectionId).meet cancelled lease phase
      event = some (errand, phase')) : KeepsFlag errand.todo := by
  simp only [Subscription.loop, Subscription.meetMqttSubscribe.eq_def] at h
  split at h
  · cases h
    exact keepsFlag_failed _
  · split at h
    · cases h
    · cases h
      exact keepsFlag_wentOn rfl
  · cases h
    exact keepsFlag_failed _
  · cases h
    exact fun _ hop => absurd hop (by simp [Subscription.wentOn])
  · cases h
    exact keepsFlag_wentOn rfl
  · obtain ⟨errand', hending, heq⟩ := Option.map_eq_some_iff.mp h
    cases heq
    rw [Subscription.ending] at hending
    split at hending
    · cases hending
      exact keepsFlag_stopped _
    · obtain ⟨reason, -, rfl⟩ := Option.map_eq_some_iff.mp hending
      exact keepsFlag_failed reason
  · cases h

/-- In each state of a run of its task, the node does with a message what the task would, and
leaves the connection as it was, exactly if the connection takes it. While the task holds its guard
and others spare what it holds, the node is refused. -/
theorem dispatches_iff (parseUrl : UrlParser) (reader : MqttReader) (node : MqttSubscribingNode)
    (host : String) (port : UInt16) :
    (∀ s, (((Subscription.mqttSubscribe host port node.topic).loop
          node.connectionId).machine parseUrl).Reaches s →
      ∀ payload times, s.timed.pool.Dispatches parseUrl reader node payload times ↔
        s.timed.pool.Takes parseUrl node times) ∧
    ∀ s, (((Subscription.mqttSubscribe host port node.topic).loop
          node.connectionId).machine parseUrl).ReachesUnder
        (fun s a => s.SparesHeld parseUrl a) s →
      ∀ h, s.pc.holds = some h → s.timed.pool.connections.lookup node.connectionId = some h →
      ∀ payload times, (node.transform parseUrl reader s.timed.pool payload times).2 =
        .error (.connectionBusy node.connectionId) := by
  refine ⟨fun s _ payload times => dispatches_iff_takes, ?_⟩
  intro s hs h hholds hconnection payload times
  have hlent := Listening.holdsLent_of_reaches
    (fun _ _ _ _ _ _ hmeet => keepsFlag_mqttSubscribe hmeet) hs
  obtain ⟨record, hrecord, huse⟩ := hlent.lent h hholds
  exact transform_of_error hconnection hrecord (acquireRecord_busy huse)

/-! ## A press that is listened to -/

namespace MqttSubscribingNode

def press : MqttSubscribingNode := ⟨"press", "broker", "press/1"⟩

/-- The press says that it runs, one second after the epoch. -/
def pressReader : MqttReader :=
  ⟨fun _ => none, fun _ => "runs", fun _ => "1970-01-01T00:00:01+00:00"⟩

def pressRuns : Value :=
  messageEnvelope pressReader ⟨"press/1", [114, 117, 110, 115], 0, false⟩ 1000000000

def afterOneSecond : DispatchTimes := ⟨1000000000, 1000000000, 1000000000⟩

/-- The task has not begun, and the connection is shown as degraded. -/
def degradedBroker : Listening SubscriptionPhase where
  timed := ⟨{ Pool.plcPool with
    heap := [(buildRecord Pool.refuseUrls Subscription.broker).withHealth fun health =>
      { health with phase := .degraded }]
    connections := AList.singleton "broker" 0 }, 0⟩
  cancelled := false
  pc := .resting
  turns := []

theorem degradedBroker_begins : degradedBroker.Begins := ⟨Pool.atRest_singleton rfl, rfl, rfl⟩

theorem degradedBroker_takes :
    degradedBroker.timed.pool.Takes Pool.refuseUrls press afterOneSecond := by
  refine ⟨0, _, rfl, rfl, ⟨rfl, rfl, ?_, ?_, by decide⟩, ?_⟩
  · intro deadline hdeadline
    cases hdeadline
  · intro deadline hdeadline
    cases hdeadline
  · rw [ConnectionRecord.Stays, if_pos (by decide)]
    rfl

/-- The task listens, with the lease of the first record. -/
def isListening (s : Listening SubscriptionPhase) : Bool :=
  match s.pc with
  | .leased guard .listening _ => guard.record == 0
  | _ => false

theorem exists_guard_of_isListening {s : Listening SubscriptionPhase} (h : isListening s = true) :
    ∃ guard changes, s.pc = .leased guard .listening changes ∧ guard.record = 0 := by
  rw [isListening] at h
  split at h
  · exact ⟨_, _, ‹_›, eq_of_beq h⟩
  · cases h

end MqttSubscribingNode

open MqttSubscribingNode

/-- A press whose connection is degraded already is dispatched to, until it is listened to. -/
theorem dispatches_degraded :
    degradedBroker.timed.pool.Dispatches Pool.refuseUrls pressReader press pressRuns
      afterOneSecond ∧
    ∃ s : Listening SubscriptionPhase, (∃ lease changes, s.pc = .leased lease .listening changes) ∧
      (press.transform Pool.refuseUrls pressReader s.timed.pool pressRuns afterOneSecond).2 =
        .error (.connectionBusy "broker") := by
  obtain ⟨hiff, hbusy⟩ := dispatches_iff Pool.refuseUrls pressReader press "10.0.0.9" 1883
  constructor
  · exact (hiff _ (.start degradedBroker_begins) _ _).mpr degradedBroker_takes
  · have hrun : ((Subscription.pressTopic.machine Pool.refuseUrls).replay (fun _ a => a.isOwn)
        degradedBroker Subscription.listens).any (fun s => isListening s &&
          s.timed.pool.connections.lookup "broker" == some 0) = true := by decide
    obtain ⟨s, hreached, hs⟩ := Machine.exists_reachesUnder_of_replay degradedBroker_begins hrun
    rw [Bool.and_eq_true, beq_iff_eq] at hs
    obtain ⟨guard, changes, hpc, hguard⟩ := exists_guard_of_isListening hs.1
    have hholds : s.pc.holds = some 0 := by
      rw [hpc, ← hguard]
      rfl
    refine ⟨s, ⟨guard, changes, hpc⟩, ?_⟩
    exact hbusy s (hreached.mono fun _ _ => ListenAction.sparesHeld_of_isOwn) 0 hholds hs.2 _ _

/-- A press that is listened to cannot be dispatched to, and one that is not is degraded by it. -/
theorem dispatch_refused :
    (∃ s, (Subscription.pressTopic.machine Pool.refuseUrls).Reaches s ∧
      isListening s = true ∧ ¬ s.timed.pool.Dispatches Pool.refuseUrls pressReader press pressRuns
        afterOneSecond) ∧
    ∃ s, (Subscription.pressTopic.machine Pool.refuseUrls).Reaches s ∧
      s.pc = .resting ∧ ¬ s.timed.pool.Dispatches Pool.refuseUrls pressReader press pressRuns
        afterOneSecond := by
  constructor
  · have hrun : ((Subscription.pressTopic.machine Pool.refuseUrls).replay (fun _ _ => true)
        Subscription.begun Subscription.listens).any (fun s => isListening s &&
          !(press.transform Pool.refuseUrls pressReader s.timed.pool pressRuns
            afterOneSecond).2.isOk) = true := by decide
    obtain ⟨s, hreached, hs⟩ := Machine.exists_reaches_of_replay Subscription.begun_begins hrun
    rw [Bool.and_eq_true, Bool.not_eq_true'] at hs
    refine ⟨s, hreached, hs.1, ?_⟩
    intro hdispatches
    obtain ⟨output, houtput, -⟩ := hdispatches.answered
    rw [houtput] at hs
    cases hs.2
  · refine ⟨Subscription.begun, .start Subscription.begun_begins, rfl, ?_⟩
    intro hdispatches
    have hstanding := hdispatches.unchanged 0 _ _ rfl rfl rfl
    exact absurd (congrArg Prod.snd hstanding) (by decide)

end Nazh
