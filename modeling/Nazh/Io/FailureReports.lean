import Nazh.Connections.Breaker
import Nazh.Connections.Lease
import Nazh.Io.Borrowers

/-!
# Which failures of a device the breaker counts

A guard that is dropped without a mark counts nothing, unless it was held too long. Capability
calls and requests mark each failure of their device, other transforms mark none; opening a shared
session is recorded apart from the guard.
-/

namespace Nazh

open Lib

/-! ## How a failure is told -/

/-- What the guard and the record are told of a failure. -/
inductive FaultReport
  | told
  | untold
  /-- A shared session could not be opened, and that was recorded. -/
  | refused (openedAt : ℤ)
  /-- A shared session was opened, and that was recorded; then something failed. -/
  | opened (openedAt : ℤ)
  deriving DecidableEq

/-- What a transform did that told of a failure in this way. -/
def FaultReport.Shows (report : FaultReport) (log : AccessLog) : Prop :=
  match report with
  | told => (∃ reason, log.outcome = .failure reason) ∧ log.recorded = []
  | untold => log.outcome = .pending ∧ log.recorded = []
  | refused openedAt => log.outcome = .pending ∧
      ∃ reason, log.recorded =
        [(.health .get, openedAt), (.health (.recordConnectFailure reason), openedAt)]
  | opened openedAt => log.outcome = .pending ∧
      ∃ text, log.recorded =
        [(.health .get, openedAt), (.health (.recordConnectSuccess text none), openedAt)]

/-- The connection was looked up, to open a session. -/
structure AccessLog.Looked (log : AccessLog) (openedAt : ℤ) : Prop where
  outcome : log.outcome = .pending
  recorded : log.recorded = [(.health .get, openedAt)]

/-- A session that is not in the cache is opened first. -/
def SharedBus.report {β : Type} (bus : SharedBus β) (openedAt : ℤ) : FaultReport :=
  match bus.cached, bus.create with
  | some _, _ => .untold
  | none, .error _ => .refused openedAt
  | none, .ok () => .opened openedAt

/-- How a failure of the device is told. -/
def BorrowingNode.report (w : Surroundings) : BorrowingNode → FaultReport
  | .capabilityCall _ _ | .httpClient _ => .told
  | .modbusRead _ | .mqttClient _ => .untold
  | .deviceSignalRead node => match node.source with
    | .canFrame _ _ _ _ _ _ => w.canBus.report w.openedAt
    | .ethercatPdo _ => w.ethercatBus.report w.openedAt
    | .register _ _ _ | .topic _ | .serialCommand _ => .untold

/-- Nothing has failed yet. -/
def Calm (report : FaultReport) (log : AccessLog) : Prop :=
  log.faulted = false ∧ report.Shows log

/-- A failure of the device was told as said. -/
def Explained (report : FaultReport) (_ : EngineError) (log : AccessLog) : Prop :=
  log.faulted = true → report.Shows log

/-- The guard is marked as a success. -/
def Succeeded (log : AccessLog) : Prop := log.faulted = false ∧ log.outcome = .success

/-- Turning errors of a device into errors of a node tells of them in this way. -/
def Reports (before after : FaultReport) (mapErr : String → Access EngineError) : Prop :=
  ∀ error, Ends before.Shows (mapErr error) (fun _ => after.Shows) (fun _ => after.Shows)

/-- As long as nothing fails the program leaves the guard alone. -/
def Tame (before after : FaultReport) {α : Type} (x : Access α) : Prop :=
  Ends (Calm before) x (fun _ => Calm before) (Explained after)

section Rules

variable {α β : Type} {before after report : FaultReport} {w : Surroundings}
  {mapErr : String → Access EngineError}

theorem calm_fresh : Calm .untold .fresh := ⟨rfl, rfl, rfl⟩

theorem reports_untold (nodeId : String) (traceId : ℕ) (text : String → String) :
    Reports report report (untold nodeId traceId text) :=
  fun _ => Ends.pure fun _ hlog => hlog

theorem reports_told (nodeId : String) (traceId : ℕ) (text : String → String) :
    Reports .untold .told (told nodeId traceId text) := by
  intro error
  refine Ends.bind (Ends.modify (Q := fun _ => FaultReport.told.Shows) ?_) fun _ => ?_
  · intro log hlog
    exact ⟨⟨text error, rfl⟩, hlog.2⟩
  · exact Ends.pure fun _ hlog => hlog

theorem Tame.pure (a : α) : Tame before after (pure a : Access α) := Ends.pure fun _ hlog => hlog

/-- What fails apart from a device tells nothing, whatever it does to the guard. -/
theorem Tame.ofExcept (r : Except EngineError α) : Tame before after (ofExcept r) := by
  refine Ends.ofExcept (fun _ _ _ hlog => hlog) ?_
  intro _ _ log hlog hfaulted
  rw [hlog.1] at hfaulted
  cases hfaulted

/-- An error of a device. -/
theorem ends_access_error (h : Reports before after mapErr) (error : String) :
    Ends (Calm before) (access (.error error) mapErr : Access α) (fun _ _ => False)
      (Explained after) := by
  refine Ends.bind (Ends.modify (Q := fun _ => before.Shows) ?_) fun _ => ?_
  · intro log hlog
    cases before with
    | _ => exact hlog.2
  · refine Ends.bind ((h error).mono (fun _ hlog => hlog) (fun _ _ hlog => hlog) ?_) ?_
    · intro _ log hlog _
      exact hlog
    · intro e
      exact Ends.throw fun log hlog _ => hlog

/-- An answer of a device. -/
theorem Tame.access (h : Reports before after mapErr) (answer : Except String α) :
    Tame before after (access answer mapErr) := by
  cases answer with
  | ok a => exact Tame.pure a
  | error error =>
      exact (ends_access_error h error).mono (fun _ hlog => hlog)
        (fun _ _ hfalse => absurd hfalse id) (fun _ _ hlog => hlog)

theorem Tame.bind {x : Access α} {f : α → Access β} (hx : Tame before after x)
    (hf : ∀ a, Tame before after (f a)) : Tame before after (x >>= f) := Ends.bind hx hf

/-- A program that ends with a mark. -/
def Marks (before after : FaultReport) {α : Type} (x : Access α) : Prop :=
  Ends (Calm before) x (fun _ => Succeeded) (Explained after)

theorem Marks.bind {x : Access α} {f : α → Access β} (hx : Tame before after x)
    (hf : ∀ a, Marks before after (f a)) : Marks before after (x >>= f) := Ends.bind hx hf

theorem Marks.markSuccess (a : α) :
    Marks before after (do Nazh.markSuccess; Pure.pure a : Access α) := by
  refine Ends.bind (Ends.modify (Q := fun _ => Succeeded) ?_) fun _ => ?_
  · intro log hlog
    exact ⟨hlog.1, rfl⟩
  · exact Ends.pure fun _ hlog => hlog

/-- After the mark something may still fail, apart from a device. -/
theorem Marks.then_ofExcept {x : Access α} {r : α → Except EngineError β}
    (hx : Marks before after x) :
    Marks before after (do let a ← x; MonadExcept.ofExcept (r a) : Access β) := by
  refine Ends.bind hx fun a => Ends.ofExcept (fun _ _ _ hlog => hlog) ?_
  intro _ _ log hlog hfaulted
  rw [hlog.1] at hfaulted
  cases hfaulted

theorem Marks.finish {x : Access α} (hx : Marks before after x) :
    Marks before after (Nazh.finish x) :=
  Ends.bind hx fun _ => Ends.pure fun _ hlog => hlog

end Rules

/-! ## The parts that executors share -/

section Parts

variable {α β : Type} {before after : FaultReport} {w : Surroundings}
  {mapErr : (String → String) → String → Access EngineError}

theorem tame_modbusAnswer (h : ∀ text, Reports before after (mapErr text)) (failed : String)
    (answer : Except String (Except String α)) :
    Tame before after (modbusAnswer mapErr failed answer) :=
  Tame.bind (Tame.access (h _) answer) fun response => Tame.access (h _) response

theorem tame_connectModbus (h : ∀ text, Reports before after (mapErr text)) (nodeId : String)
    (traceId : ℕ) (host : String) (port : UInt16) (unitId : UInt8) :
    Tame before after (connectModbus w nodeId traceId mapErr host port unitId) :=
  Tame.bind (Tame.ofExcept _) fun _ => Tame.access (h _) _

theorem tame_writeWords (h : ∀ text, Reports before after (mapErr text)) (ctx : ModbusContext)
    (register : UInt16) (words : List UInt16) :
    Tame before after (CapabilityCallNode.writeWords ctx mapErr register words) := by
  match words with
  | [] => exact tame_modbusAnswer h _ _
  | [word] => exact tame_modbusAnswer h _ _
  | _ :: _ :: _ => exact tame_modbusAnswer h _ _

/-- What keeps a program from its device tells nothing. -/
theorem ends_throw (e : EngineError) : Ends (Calm before) (throw e : Access α) (fun _ => Calm before)
    (Explained after) := by
  refine Ends.throw ?_
  intro log hlog hfaulted
  rw [hlog.1] at hfaulted
  cases hfaulted

/-- The guard is marked as failed, but no device has failed. -/
theorem tame_refuse (nodeId reason : String) :
    Tame .untold .told (refuse nodeId reason) := by
  refine Ends.bind (Ends.modify (Q := fun _ log => log.faulted = false) ?_) fun _ => Ends.throw ?_
  · intro log hlog
    exact hlog.1
  · intro log hcalm hfaulted
    rw [hcalm] at hfaulted
    cases hfaulted

/-- A shared session is opened, and that is recorded. -/
theorem ends_openSharedSession {bus : SharedBus β} (hcached : bus.cached = none) (nodeId : String)
    (traceId : ℕ) (openedAt : ℤ) (opened refused : String) :
    Ends (Calm .untold) (openSharedSession bus nodeId traceId openedAt opened refused)
      (fun _ => Calm (bus.report openedAt)) (Explained (bus.report openedAt)) := by
  refine Ends.bind (Ends.modify (Q := fun _ log => log.faulted = false ∧ log.Looked openedAt) ?_)
    fun _ => Ends.bind (Ends.ofExcept (fun _ _ _ hlog => hlog) ?_) fun _ => ?_
  · intro log hlog
    obtain ⟨hfaulted, houtcome, hrecorded⟩ := hlog
    refine ⟨hfaulted, houtcome, ?_⟩
    rw [hrecorded]
    rfl
  · intro _ _ log hlog hfaulted
    rw [hlog.1] at hfaulted
    cases hfaulted
  · cases hcreate : bus.create with
    | error reason =>
        have hreport : bus.report openedAt = .refused openedAt := by
          rw [SharedBus.report, hcached, hcreate]
        rw [hreport]
        refine Ends.bind (Q := fun _ _ => False) ?_ fun _ => Ends.absurd fun _ => id
        refine Ends.bind (Ends.modify (Q := fun _ log => log.Looked openedAt)
          fun _ hlog => ⟨hlog.2.outcome, hlog.2.recorded⟩) fun _ => Ends.bind (Ends.bind
            (Ends.modify (Q := fun _ => (FaultReport.refused openedAt).Shows) ?_) fun _ =>
              Ends.pure fun _ hlog => hlog) fun e => Ends.throw fun _ hlog _ => hlog
        intro log hlog
        refine ⟨hlog.outcome, reason, ?_⟩
        rw [hlog.recorded]
        rfl
    | ok u =>
        have hreport : bus.report openedAt = .opened openedAt := by
          rw [SharedBus.report, hcached, hcreate]
        rw [hreport]
        refine Ends.bind (Q := fun _ log => log.faulted = false ∧ log.Looked openedAt)
          (Ends.pure fun _ hlog => hlog) fun _ => Ends.modify ?_
        intro log hlog
        refine ⟨hlog.1, hlog.2.outcome, opened, ?_⟩
        rw [hlog.2.recorded]
        rfl

/-- A shared session is in the cache, or it is opened. -/
theorem ends_ensureBus (bus : SharedBus β) (connectionId nodeId : String) (traceId : ℕ)
    (openedAt : ℤ) (opened refused gone : String) :
    Ends (Calm .untold)
      (ensureBus bus connectionId nodeId traceId openedAt opened refused gone)
      (fun _ => Calm (bus.report openedAt)) (Explained (bus.report openedAt)) := by
  refine Ends.bind (Q := fun _ => Calm (bus.report openedAt)) ?_ fun _ =>
    Tame.access (reports_untold _ _ _) _
  rw [ensureSession]
  cases hcached : bus.cached with
  | some typed =>
      have hreport : bus.report openedAt = .untold := by rw [SharedBus.report, hcached]
      rw [hreport]
      cases typed with
      | true => exact Tame.pure ()
      | false => exact ends_throw _
  | none => exact ends_openSharedSession hcached nodeId traceId openedAt opened refused

end Parts

/-! ## The executors -/

section Executors

variable (w : Surroundings) (traceId : ℕ) (lease : ConnectionLease)

theorem ModbusReadNode.marks_transform (node : ModbusReadNode) :
    Marks .untold .untold (node.transform w traceId lease) := by
  have huntold := @reports_untold .untold node.id traceId
  refine Marks.bind (Tame.ofExcept _) fun port => Marks.bind ?_ fun values => Marks.markSuccess _
  refine Tame.bind (tame_connectModbus huntold _ _ _ _ _) fun ctx => ?_
  cases parseRegisterType node.registerType with
  | holding => exact Tame.bind (tame_modbusAnswer huntold _ _) fun _ => Tame.pure _
  | input => exact Tame.bind (tame_modbusAnswer huntold _ _) fun _ => Tame.pure _
  | coil => exact Tame.bind (tame_modbusAnswer huntold _ _) fun _ => Tame.pure _
  | discrete => exact Tame.bind (tame_modbusAnswer huntold _ _) fun _ => Tame.pure _

namespace DeviceSignalReadNode

variable (node : DeviceSignalReadNode)

theorem marks_readRegister (metadata : Value) (register : UInt16) (dataType : DataType)
    (bit : Option UInt8) :
    Marks .untold .untold (node.readRegister w traceId metadata register dataType bit) := by
  have huntold := @reports_untold .untold node.id traceId
  refine Marks.bind (Tame.ofExcept _) fun port => ?_
  refine Marks.bind (tame_connectModbus huntold _ _ _ _ _) fun ctx => ?_
  refine Marks.bind (tame_modbusAnswer huntold _ _) fun words => ?_
  exact Marks.bind (Tame.ofExcept _) fun val => Marks.markSuccess _

theorem marks_readTopic (metadata : Value) (topic : String) :
    Marks .untold .untold (node.readTopic w traceId metadata topic) := by
  have huntold := @reports_untold .untold node.id traceId
  refine Marks.bind (Tame.ofExcept _) fun _ => ?_
  refine Marks.bind (Tame.access (huntold _) _) fun connected => ?_
  refine Marks.bind (Tame.access (huntold _) _) fun _ => ?_
  exact Marks.bind (Tame.access (huntold _) _) fun message => Marks.markSuccess _

theorem marks_readSerialCommand (metadata : Value) (command : String) :
    Marks .untold .untold (node.readSerialCommand w traceId metadata command) := by
  have hnil := @reports_untold .untold node.id 0
  refine Marks.bind (Tame.ofExcept _) fun _ => ?_
  refine Marks.bind (Tame.access (reports_untold _ _ _) _) fun _ => Marks.bind ?_ fun rawBytes => ?_
  · refine Tame.bind (Tame.access (hnil _) _) fun port => ?_
    refine Tame.bind (Tame.access (hnil _) _) fun _ => ?_
    refine Tame.bind (Tame.access (hnil _) _) fun buffer => ?_
    exact Tame.bind (Tame.access (hnil _) _) fun _ => Tame.pure _
  · exact Marks.bind (Tame.ofExcept _) fun val => Marks.markSuccess _

theorem marks_readCanFrame (canId : UInt32) (isExtended : Bool) (byteOffset byteLength : UInt8)
    (dataType : DataType) (byteOrder : ByteOrder) :
    Marks .untold (w.canBus.report w.openedAt) (node.readCanFrame w traceId canId isExtended
      byteOffset byteLength dataType byteOrder) := by
  refine Ends.bind (ends_ensureBus _ _ _ _ _ _ _ _) fun answers => ?_
  refine Ends.bind (Tame.access (reports_untold _ _ _) _) fun frame => ?_
  exact Ends.bind (Tame.ofExcept _) fun val => Marks.markSuccess _

theorem marks_readEthercatPdo (source : EthercatPdoSnapshot) :
    Marks .untold (w.ethercatBus.report w.openedAt) (node.readEthercatPdo w traceId source) := by
  refine Ends.bind (ends_ensureBus _ _ _ _ _ _ _ _) fun readInputs => ?_
  refine Ends.bind (Tame.access (reports_untold _ _ _) _) fun inputs => ?_
  exact Ends.bind (Tame.ofExcept _) fun val => Marks.markSuccess _

theorem marks_transform :
    Marks .untold ((BorrowingNode.deviceSignalRead node).report w)
      (node.transform w traceId lease) := by
  refine Marks.then_ofExcept ?_
  rw [readAndDecode, BorrowingNode.report]
  cases node.source with
  | register register dataType bit => exact node.marks_readRegister w traceId _ _ _ _
  | canFrame canId isExtended byteOffset byteLength dataType byteOrder =>
      exact node.marks_readCanFrame w traceId _ _ _ _ _ _
  | topic topic => exact node.marks_readTopic w traceId _ _
  | serialCommand command => exact node.marks_readSerialCommand w traceId _ _
  | ethercatPdo source => exact node.marks_readEthercatPdo w traceId _

end DeviceSignalReadNode

theorem MqttClientNode.marks_publishPayload (node : MqttClientNode) (payload : Value) :
    Marks .untold .untold (node.publishPayload w traceId payload lease) := by
  refine Marks.bind (Tame.ofExcept _) fun addr => Marks.bind (Tame.ofExcept _) fun _ => ?_
  refine Marks.bind (Tame.access (reports_untold _ _ _) _) fun _ => ?_
  exact Marks.bind (Tame.access (reports_untold _ _ _) _) fun _ => Marks.markSuccess _

namespace CapabilityCallNode

variable (node : CapabilityCallNode)

theorem tame_acquireForProtocol (protocol : String) (allowedKinds : List String) :
    Tame .untold .told (node.acquireForProtocol lease protocol allowedKinds) :=
  Ends.ite (fun _ => Tame.pure ()) fun _ => tame_refuse _ _

theorem marks_executeModbusWrite (register : UInt16) (resolvedValue dataType : String)
    (bit : Option UInt8) (byteOrder : String) : Marks .untold .told
      (node.executeModbusWrite w traceId lease register resolvedValue dataType bit byteOrder) := by
  rw [executeModbusWrite]
  have htold := reports_told node.id traceId
  refine Marks.bind (node.tame_acquireForProtocol lease _ _) fun _ => ?_
  refine Marks.bind (Tame.ofExcept _) fun host => Marks.bind (Tame.ofExcept _) fun port => ?_
  refine Marks.bind (Tame.ofExcept _) fun unitId => Marks.bind (Tame.ofExcept _) fun words => ?_
  refine Marks.bind (tame_connectModbus htold _ _ _ _ _) fun ctx => ?_
  exact Marks.bind (tame_writeWords htold _ _ _) fun _ => Marks.markSuccess _

theorem marks_executeMqttPublish (topic resolvedPayload : String) : Marks .untold .told
    (node.executeMqttPublish w traceId lease topic resolvedPayload) := by
  rw [executeMqttPublish]
  have htold := reports_told node.id traceId
  refine Marks.bind (node.tame_acquireForProtocol lease _ _) fun _ => ?_
  refine Marks.bind (Tame.ofExcept _) fun host => Marks.bind (Tame.ofExcept _) fun port => ?_
  refine Marks.bind (Tame.ofExcept _) fun qos => Marks.bind (Tame.ofExcept _) fun topic' => ?_
  refine Marks.bind (Tame.access (htold _) _) fun _ => ?_
  exact Marks.bind (Tame.access (htold _) _) fun _ => Marks.markSuccess _

theorem marks_executeSerialCommand (command : String) : Marks .untold .told
    (node.executeSerialCommand w traceId lease command) := by
  rw [executeSerialCommand]
  have htold := reports_told node.id traceId
  refine Marks.bind (node.tame_acquireForProtocol lease _ _) fun _ => ?_
  refine Marks.bind (Tame.ofExcept _) fun portPath => Marks.bind (Tame.ofExcept _) fun baud => ?_
  refine Marks.bind (Tame.access (htold _) _) fun _ => ?_
  refine Marks.bind (Tame.access (htold _) _) fun port => ?_
  refine Marks.bind (Tame.access (htold _) _) fun _ => ?_
  exact Marks.bind (Tame.access (htold _) _) fun _ => Marks.markSuccess _

end CapabilityCallNode

theorem tame_requireUrl (nodeId url : String) : Tame .untold .told (requireUrl nodeId url) :=
  Ends.ite (fun _ => tame_refuse _ _) fun _ => Tame.pure ()

theorem HttpClientNode.marks_transform (node : HttpClientNode) :
    Marks .untold .told (node.transform w traceId lease) := by
  have htold := reports_told node.id traceId
  refine Marks.bind (Tame.ofExcept _) fun config => ?_
  refine Marks.bind (tame_requireUrl _ _) fun _ => ?_
  refine Marks.bind (Tame.ofExcept _) fun _ => ?_
  refine Marks.bind (Tame.access (htold _) _) fun answer => ?_
  exact Marks.bind (Tame.access (htold _) _) fun _ => Marks.markSuccess _

/-- A transform marks its guard in the end, and tells of a failure before as its report says. -/
theorem BorrowingNode.marks_body (node : BorrowingNode) (payload : Value) :
    Marks .untold (node.report w) (node.body w traceId payload lease) := by
  cases node with
  | modbusRead node => exact (node.marks_transform w traceId lease).finish
  | deviceSignalRead node => exact (node.marks_transform w traceId lease).finish
  | capabilityCall node call =>
      cases call with
      | modbusWrite register resolvedValue dataType bit byteOrder =>
          exact (node.marks_executeModbusWrite w traceId lease _ _ _ _ _).finish
      | mqttPublish topic resolvedPayload =>
          exact (node.marks_executeMqttPublish w traceId lease _ _).finish
      | serialCommand command => exact (node.marks_executeSerialCommand w traceId lease _).finish
  | mqttClient node => exact (node.marks_publishPayload w traceId lease payload).finish
  | httpClient node => exact (node.marks_transform w traceId lease).finish

end Executors

/-! ## The record after a transform -/

/-- The breaker of a record that was lent, before its guard is dropped. -/
def FaultReport.breaker (r : ConnectionRecord) : FaultReport → Breaker ℤ
  | told | untold => ⟨r.health.consecutiveFailures, none⟩
  | refused openedAt => (⟨r.health.consecutiveFailures, none⟩ : Breaker ℤ).after saturatingSucc
      r.policy.circuitFailureThreshold (.failed (openedAt + durationMs r.policy.circuitOpenMs))
  | opened _ => ⟨0, none⟩

/-- One transform that asks for a connection. -/
structure Borrowing where
  node : BorrowingNode
  traceId : ℕ
  payload : Value
  surroundings : Surroundings
  connectionId : String
  windows : AttemptWindows
  borrowedAt : ℤ
  droppedAt : ℤ

namespace Borrowing

variable (parseUrl : UrlParser) (b : Borrowing) (r : ConnectionRecord)

/-- `acquire`. -/
def acquire : ConnectionRecord × AttemptWindows × Except EngineError ConnectionLease :=
  acquireRecord parseUrl b.connectionId r b.windows b.borrowedAt

/-- What the transform answers, and what it did, with a fresh guard. -/
def run (lease : ConnectionLease) : Except EngineError Unit × AccessLog :=
  (b.node.body b.surroundings b.traceId b.payload lease).run.run .fresh

/-- `transform` of the node: what it answers, and the record when its guard is dropped. -/
def transform : Except EngineError Unit × ConnectionRecord :=
  match b.acquire parseUrl r with
  | (record, _, .error e) => (.error e, record)
  | (record, _, .ok lease) =>
      let (answer, log) := b.run lease
      (answer, finalizeRelease (RecordAction.applyAll parseUrl record log.recorded)
        lease.borrowedAt log.outcome b.droppedAt)

/-- The connection is lent, and the transform answers an error because the device failed. -/
def failsAccess : Bool :=
  match b.acquire parseUrl r with
  | (_, _, .error _) => false
  | (_, _, .ok lease) => match b.run lease with
    | (.ok (), _) => false
    | (.error _, log) => log.faulted

/-- The guard is dropped too late. -/
def isOverTime : Bool := decide (r.policy.operationTimeoutMs < elapsedMs b.borrowedAt b.droppedAt)

/-- Dropping the guard counts a failure: it is too late, or the guard was marked, and no failure
seems to be recorded since it was lent. -/
def dropCounts : Bool :=
  match b.node.report b.surroundings with
  | .told => b.isOverTime r || r.health.consecutiveFailures == 0 ||
      r.health.lastFailureAt.all fun lastFailureAt => decide (lastFailureAt < b.borrowedAt)
  | .untold | .refused _ | .opened _ => b.isOverTime r

/-- A failure of the device counts one. The count has room for it, and dropping the guard counts
it; a session that could not be opened is counted at once, and should not be counted again; one
that was opened has cleared the count. -/
def countsFault : Bool :=
  match b.node.report b.surroundings with
  | .told | .untold => decide (r.health.consecutiveFailures < 2 ^ 32 - 1) && b.dropCounts r
  | .refused _ =>
      if b.isOverTime r then r.health.consecutiveFailures + 1 == 2 ^ 32 - 1
      else decide (r.health.consecutiveFailures < 2 ^ 32 - 1)
  | .opened _ => r.health.consecutiveFailures == 0 && b.isOverTime r

/-- The circuit is open: for the time that the policy says after a failure of this transform, the
connection is not lent. -/
def Opened (r' : ConnectionRecord) : Prop :=
  ∃ failedAt, (failedAt = b.droppedAt ∨ failedAt = b.surroundings.openedAt) ∧
    r'.health.circuitOpenUntil = some (failedAt + durationMs r'.policy.circuitOpenMs) ∧
    ∀ connectionId windows now, now < failedAt + durationMs r'.policy.circuitOpenMs →
      ∃ e, (acquireRecord parseUrl connectionId r' windows now).2.2 = .error e

end Borrowing

section Released

variable {parseUrl : UrlParser} {b : Borrowing} {r r₁ : ConnectionRecord} {borrowedAt droppedAt : ℤ}

/-- Dropping a guard without a mark is a failure if it is too late. -/
theorem breaker_released_pending (r : ConnectionRecord) (borrowedAt droppedAt : ℤ) :
    (finalizeRelease r borrowedAt .pending droppedAt).breaker =
      if r.policy.operationTimeoutMs < elapsedMs borrowedAt droppedAt then
        r.breaker.after saturatingSucc r.policy.circuitFailureThreshold
          (.failed (droppedAt + durationMs r.policy.circuitOpenMs))
      else r.breaker := by
  rw [breaker_finalizeRelease]
  by_cases hover : r.policy.operationTimeoutMs < elapsedMs borrowedAt droppedAt
  · simp [RecordAction.breakerEvent, RecordAction.fails, hover]
  · simp [RecordAction.breakerEvent, RecordAction.fails, RecordAction.relieves, hover]

/-- Dropping a guard that was marked as failed is a failure if it is too late, or if none seems to
be recorded yet. -/
theorem breaker_released_failure (r : ConnectionRecord) (borrowedAt droppedAt : ℤ)
    (reason : String) :
    (finalizeRelease r borrowedAt (.failure reason) droppedAt).breaker =
      if r.policy.operationTimeoutMs < elapsedMs borrowedAt droppedAt ∨
          failureRecordedDuringLease r borrowedAt = false then
        r.breaker.after saturatingSucc r.policy.circuitFailureThreshold
          (.failed (droppedAt + durationMs r.policy.circuitOpenMs))
      else r.breaker := by
  rw [breaker_finalizeRelease]
  by_cases hover : r.policy.operationTimeoutMs < elapsedMs borrowedAt droppedAt
  · simp [RecordAction.breakerEvent, RecordAction.fails, hover]
  · cases hrecorded : failureRecordedDuringLease r borrowedAt with
    | true =>
        simp [RecordAction.breakerEvent, RecordAction.fails, RecordAction.relieves, hover,
          hrecorded]
    | false => simp [RecordAction.breakerEvent, RecordAction.fails, hrecorded]

/-- Dropping a guard in time that was marked as a success clears the count. -/
theorem consecutive_released_success
    (hle : elapsedMs borrowedAt droppedAt ≤ r.policy.operationTimeoutMs) :
    (finalizeRelease r borrowedAt .success droppedAt).health.consecutiveFailures = 0 := by
  have hbreaker : (finalizeRelease r borrowedAt .success droppedAt).breaker = _ :=
    breaker_finalizeRelease .success
  have hevent : (RecordAction.release borrowedAt .success).breakerEvent r droppedAt =
      .relieved := by
    simp [RecordAction.breakerEvent, RecordAction.fails, RecordAction.relieves, hle]
  rw [hevent] at hbreaker
  exact congrArg Breaker.failures hbreaker

/-- A record that was just lent has the count of before and a closed circuit. -/
theorem JustLent.breaker (h : JustLent r r₁) :
    r₁.breaker = ⟨r.health.consecutiveFailures, none⟩ := by
  rw [ConnectionRecord.breaker, h.consecutive, h.closed]

/-- To look a record up that was just lent leaves it as it is. -/
theorem JustLent.applyAll_looked (h : JustLent r r₁) (openedAt : ℤ)
    (log : List (RecordAction × ℤ)) :
    RecordAction.applyAll parseUrl r₁ ((.health .get, openedAt) :: log) =
      RecordAction.applyAll parseUrl r₁ log := by
  have hlooked : (RecordAction.health .get).apply parseUrl openedAt r₁ = r₁ :=
    (apply_of_polls h.toLeased rfl).trans (reconcileCircuit_of_closed h.closed)
  rw [RecordAction.applyAll, List.foldl_cons, hlooked]
  rfl

/-- Whatever is recorded, the definition of a connection stays. -/
theorem definition_applyAll (log : List (RecordAction × ℤ)) :
    (RecordAction.applyAll parseUrl r log).definition = r.definition := by
  induction log generalizing r with
  | nil => rfl
  | cons entry log ih => exact ih.trans entry.1.definition_apply

/-- What a guard that recorded no failure takes for one: an earlier failure, as late as its loan. -/
theorem failureRecorded_of_justLent (h : JustLent r r₁) (borrowedAt : ℤ) :
    failureRecordedDuringLease r₁ borrowedAt = !(r.health.consecutiveFailures == 0 ||
      r.health.lastFailureAt.all fun lastFailureAt => decide (lastFailureAt < borrowedAt)) := by
  have hquiet : Quiet [] := by simp [Quiet]
  have hseen := seen_of_quiet (fun _ => .error "") borrowedAt h hquiet
  rw [RecordAction.applyAll, List.foldl_nil] at hseen
  rw [Bool.eq_iff_iff, hseen]
  cases r.health.lastFailureAt with
  | none => simp
  | some lastFailureAt => simp

end Released

namespace Borrowing

variable {parseUrl : UrlParser} {b : Borrowing} {r r' : ConnectionRecord}

/-- A transform that fails at its device has told of it as its report says. -/
theorem transform_of_fails (h : b.failsAccess parseUrl r = true) : ∃ r₁ log,
    JustLent r r₁ ∧ (b.node.report b.surroundings).Shows log ∧
      (b.transform parseUrl r).2 = finalizeRelease (RecordAction.applyAll parseUrl r₁ log.recorded)
        b.borrowedAt log.outcome b.droppedAt := by
  rw [failsAccess] at h
  rw [transform]
  have hlent := @justLent_of_acquire parseUrl r b.connectionId b.windows b.borrowedAt
  rw [acquire] at h ⊢
  generalize acquireRecord parseUrl b.connectionId r b.windows b.borrowedAt = answer at h hlent ⊢
  obtain ⟨r₁, windows, lease | lease⟩ := answer
  · cases h
  · obtain ⟨hlent, hborrowed⟩ := hlent rfl
    have hmarks := (b.node.marks_body b.surroundings b.traceId lease b.payload).ended .fresh
      calm_fresh
    simp only [run, hborrowed] at h ⊢
    generalize (b.node.body b.surroundings b.traceId b.payload lease).run.run .fresh = ended at *
    obtain ⟨answer | answer, log⟩ := ended
    · exact ⟨r₁, log, hlent, hmarks h, rfl⟩
    · cases h

theorem policy_transform : (b.transform parseUrl r).2.policy = r.policy := by
  apply policy_of_definition
  rw [transform]
  have hdef : (b.acquire parseUrl r).1.definition = r.definition := definition_acquireRecord _ _
  generalize b.acquire parseUrl r = answer at hdef ⊢
  obtain ⟨r₁, windows, lease | lease⟩ := answer
  · exact hdef
  · exact (healthOnly_finalizeRelease _ _ _ _).definition.trans
      ((definition_applyAll _).trans hdef)

/-- A transform that answers in time has marked its guard as a success. -/
theorem consecutive_of_ok (h : (b.transform parseUrl r).1 = .ok ())
    (hle : b.isOverTime r = false) : (b.transform parseUrl r).2.health.consecutiveFailures = 0 := by
  rw [transform] at h ⊢
  have hlent := @justLent_of_acquire parseUrl r b.connectionId b.windows b.borrowedAt
  rw [acquire] at h ⊢
  generalize acquireRecord parseUrl b.connectionId r b.windows b.borrowedAt = answer at h hlent ⊢
  obtain ⟨r₁, windows, lease | lease⟩ := answer
  · cases h
  · obtain ⟨hlent, hborrowed⟩ := hlent rfl
    have hmarks := (b.node.marks_body b.surroundings b.traceId lease b.payload).ended .fresh
      calm_fresh
    simp only [run, hborrowed] at h ⊢
    generalize (b.node.body b.surroundings b.traceId b.payload lease).run.run .fresh = ended at *
    obtain ⟨answer, log⟩ := ended
    obtain rfl : answer = .ok () := h
    have hsuccess : log.outcome = .success := hmarks.2
    rw [hsuccess]
    apply consecutive_released_success
    rw [policy_of_definition ((definition_applyAll log.recorded).trans hlent.definition)]
    simpa [isOverTime] using hle

/-- The release of a guard, as its report has it. -/
theorem breaker_of_shows {report : FaultReport} {r₁ : ConnectionRecord} {log : AccessLog}
    {borrowedAt droppedAt : ℤ} (hlent : JustLent r r₁) (hshows : report.Shows log) :
    (finalizeRelease (RecordAction.applyAll parseUrl r₁ log.recorded) borrowedAt log.outcome
        droppedAt).breaker =
      if r.policy.operationTimeoutMs < elapsedMs borrowedAt droppedAt ∨
          (report = .told ∧ failureRecordedDuringLease r₁ borrowedAt = false) then
        (report.breaker r).after saturatingSucc r.policy.circuitFailureThreshold
          (.failed (droppedAt + durationMs r.policy.circuitOpenMs))
      else report.breaker r := by
  have hpolicy := policy_of_definition
    ((@definition_applyAll parseUrl r₁ log.recorded).trans hlent.definition)
  cases report with
  | told =>
      obtain ⟨⟨reason, houtcome⟩, hrecorded⟩ := hshows
      rw [hrecorded] at hpolicy ⊢
      have hlog : RecordAction.applyAll parseUrl r₁ [] = r₁ := rfl
      rw [hlog] at hpolicy ⊢
      rw [houtcome, breaker_released_failure, hpolicy, hlent.breaker]
      simp [FaultReport.breaker]
  | untold =>
      obtain ⟨houtcome, hrecorded⟩ := hshows
      rw [hrecorded] at hpolicy ⊢
      have hlog : RecordAction.applyAll parseUrl r₁ [] = r₁ := rfl
      rw [hlog] at hpolicy ⊢
      rw [houtcome, breaker_released_pending, hpolicy, hlent.breaker]
      simp [FaultReport.breaker]
  | refused openedAt =>
      obtain ⟨houtcome, reason, hrecorded⟩ := hshows
      have hbreaker : (RecordAction.applyAll parseUrl r₁ log.recorded).breaker =
          (FaultReport.refused openedAt).breaker r := by
        rw [hrecorded, hlent.applyAll_looked, FaultReport.breaker, ← hlent.breaker,
          ← policy_of_definition hlent.definition]
        exact breaker_healthOp (.recordConnectFailure reason)
      rw [houtcome, breaker_released_pending, hpolicy, hbreaker]
      simp
  | opened openedAt =>
      obtain ⟨houtcome, text, hrecorded⟩ := hshows
      have hbreaker : (RecordAction.applyAll parseUrl r₁ log.recorded).breaker =
          (FaultReport.opened openedAt).breaker r := by
        rw [hrecorded, hlent.applyAll_looked]
        rfl
      rw [houtcome, breaker_released_pending, hpolicy, hbreaker]
      simp

/-- Dropping the guard of a transform that failed at its device counts a failure, or nothing. -/
theorem breaker_of_fails (h : b.failsAccess parseUrl r = true) :
    (b.transform parseUrl r).2.breaker =
      if b.dropCounts r = true then
        ((b.node.report b.surroundings).breaker r).after saturatingSucc
          r.policy.circuitFailureThreshold
          (.failed (b.droppedAt + durationMs r.policy.circuitOpenMs))
      else (b.node.report b.surroundings).breaker r := by
  obtain ⟨r₁, log, hlent, hshows, hafter⟩ := transform_of_fails h
  rw [hafter, breaker_of_shows hlent hshows, failureRecorded_of_justLent hlent, dropCounts]
  cases b.node.report b.surroundings with
  | told =>
      refine if_congr ?_ rfl rfl
      simp only [Bool.not_eq_false', Bool.or_eq_true, true_and, isOverTime, decide_eq_true_eq,
        or_assoc]
  | _ => simp [isOverTime]

/-- A failure counts one if and only if the report and the drop make it so. -/
theorem counts_iff (h : b.failsAccess parseUrl r = true) :
    (b.transform parseUrl r).2.health.consecutiveFailures = r.health.consecutiveFailures + 1 ↔
      b.countsFault r = true := by
  have hfailures : (b.transform parseUrl r).2.health.consecutiveFailures = _ :=
    congrArg Breaker.failures (breaker_of_fails h)
  rw [hfailures, countsFault]
  cases hreport : b.node.report b.surroundings with
  | told =>
      cases b.dropCounts r with
      | true =>
          simp only [FaultReport.breaker, Breaker.after, saturatingSucc, if_true, Bool.and_true,
            decide_eq_true_eq]
          omega
      | false => simp [FaultReport.breaker]
  | untold =>
      cases b.dropCounts r with
      | true =>
          simp only [FaultReport.breaker, Breaker.after, saturatingSucc, if_true, Bool.and_true,
            decide_eq_true_eq]
          omega
      | false => simp [FaultReport.breaker]
  | refused openedAt =>
      have hdrop : b.dropCounts r = b.isOverTime r := by rw [dropCounts, hreport]
      rw [hdrop]
      cases b.isOverTime r with
      | true =>
          simp only [FaultReport.breaker, Breaker.after, saturatingSucc, if_true, beq_iff_eq]
          omega
      | false =>
          simp only [FaultReport.breaker, Breaker.after, saturatingSucc, Bool.false_eq_true,
            if_false, decide_eq_true_eq]
          omega
  | opened openedAt =>
      have hdrop : b.dropCounts r = b.isOverTime r := by rw [dropCounts, hreport]
      rw [hdrop]
      cases b.isOverTime r with
      | true =>
          simp only [FaultReport.breaker, Breaker.after, saturatingSucc, if_true, Bool.and_true,
            beq_iff_eq]
          omega
      | false => simp [FaultReport.breaker]

/-- What is refused was refused when the session was opened. -/
theorem report_eq_refused {node : BorrowingNode} {w : Surroundings} {openedAt : ℤ}
    (h : node.report w = .refused openedAt) : openedAt = w.openedAt := by
  have hbus : ∀ {β : Type} (bus : SharedBus β), bus.report w.openedAt = .refused openedAt →
      openedAt = w.openedAt := by
    intro β bus hbus
    rw [SharedBus.report] at hbus
    split at hbus
    · cases hbus
    · exact (FaultReport.refused.inj hbus).symm
    · cases hbus
  cases node with
  | deviceSignalRead node =>
      rw [BorrowingNode.report] at h
      split at h
      · exact hbus _ h
      · exact hbus _ h
      · cases h
      · cases h
      · cases h
  | _ => cases h

/-- The last thing that a transform whose failure counts does to the breaker is to count it. -/
theorem last_failure_of_counts (h : b.failsAccess parseUrl r = true)
    (hcounts : b.countsFault r = true) : ∃ failedAt, ∃ before : Breaker ℤ,
      (failedAt = b.droppedAt ∨ failedAt = b.surroundings.openedAt) ∧
        (b.transform parseUrl r).2.breaker = before.after saturatingSucc
          r.policy.circuitFailureThreshold
            (.failed (failedAt + durationMs r.policy.circuitOpenMs)) := by
  have hbreaker := breaker_of_fails h
  cases hdrop : b.dropCounts r with
  | true =>
      rw [hdrop, if_pos rfl] at hbreaker
      exact ⟨b.droppedAt, _, .inl rfl, hbreaker⟩
  | false =>
      simp only [hdrop, Bool.false_eq_true, if_false] at hbreaker
      cases hreport : b.node.report b.surroundings with
      | refused openedAt =>
          rw [hreport] at hbreaker
          exact ⟨openedAt, _, .inr (report_eq_refused hreport), hbreaker⟩
      | opened openedAt =>
          simp only [countsFault, dropCounts, hreport] at hcounts hdrop
          simp [hdrop] at hcounts
      | told => simp [countsFault, hreport, hdrop] at hcounts
      | untold => simp [countsFault, hreport, hdrop] at hcounts

/-- The last failure that is counted opens the circuit, if the count has reached the threshold. -/
theorem opened_of_counts (h : b.failsAccess parseUrl r = true) (hcounts : b.countsFault r = true)
    (hreached : r.policy.circuitFailureThreshold ≤ r.health.consecutiveFailures + 1) :
    b.Opened parseUrl (b.transform parseUrl r).2 := by
  have hcount := (counts_iff h).mpr hcounts
  obtain ⟨failedAt, before, hwhen, hlast⟩ := last_failure_of_counts h hcounts
  have hopen : (b.transform parseUrl r).2.breaker.openUntil =
      some (failedAt + durationMs r.policy.circuitOpenMs) := by
    rw [hlast]
    refine if_pos ?_
    have hfailures : (b.transform parseUrl r).2.breaker.failures =
        r.health.consecutiveFailures + 1 := hcount
    rw [← hfailures, hlast] at hreached
    exact hreached
  refine ⟨failedAt, hwhen, ?_, ?_⟩
  · rw [policy_transform]
    exact hopen
  · intro connectionId windows now hnow
    rw [policy_transform] at hnow
    rw [hlast] at hopen
    have hheld := Breaker.heldUntil_failed hopen
    rw [← hlast] at hheld
    exact acquireRecord_of_heldUntil hheld hnow

end Borrowing

/-! ## Failures one after the other -/

theorem circuitFailureThreshold_pos (metadata : Value) :
    0 < (ConnectionGovernancePolicy.fromMetadata metadata).circuitFailureThreshold := by
  simp only [ConnectionGovernancePolicy.fromMetadata]
  omega

/-- Transforms on one record that fail at their devices, one after the other. -/
def failingRun (parseUrl : UrlParser) : Machine ConnectionRecord Borrowing where
  init _ := True
  step r b := if b.failsAccess parseUrl r then some (b.transform parseUrl r).2 else none

/-- Such a run with the transforms that it has made. -/
def failingLog (parseUrl : UrlParser) (r : ConnectionRecord) :
    Machine (ConnectionRecord × List Borrowing) Borrowing :=
  ((failingRun parseUrl).startingAt r).logged fun _ b _ => [b]

section Runs

variable {parseUrl : UrlParser} {r r' : ConnectionRecord} {bs : List Borrowing}

/-- Failures that are all counted add up, and the last opens the circuit if they reach the
threshold. -/
theorem counted_of_run
    (h : (failingLog parseUrl r).ReachesUnder (fun s b => b.countsFault s.1 = true) (r', bs)) :
    r'.policy = r.policy ∧
      r'.health.consecutiveFailures = r.health.consecutiveFailures + bs.length ∧
      ∀ b, bs.getLast? = some b → r.policy.circuitFailureThreshold ≤ r'.health.consecutiveFailures →
        b.Opened parseUrl r' := by
  refine h.invariant (I := fun s => s.1.policy = r.policy ∧
    s.1.health.consecutiveFailures = r.health.consecutiveFailures + s.2.length ∧
    ∀ b, s.2.getLast? = some b → r.policy.circuitFailureThreshold ≤
      s.1.health.consecutiveFailures → b.Opened parseUrl s.1) ?_ ?_
  · intro s hs
    obtain ⟨hr, hlog⟩ := hs
    obtain rfl : s.1 = r := hr
    simp [hlog]
  · intro s b s' hs hcounts hstep
    obtain ⟨hpolicy, hcount, -⟩ := hs
    obtain ⟨htransform, hlog⟩ := Machine.logged_step.mp hstep
    have hfails : b.failsAccess parseUrl s.1 = true := by
      by_contra hnot
      have hnone : (failingRun parseUrl).step s.1 b = none := if_neg hnot
      exact absurd (hnone.symm.trans htransform) (by simp)
    have hafter : (b.transform parseUrl s.1).2 = s'.1 := by
      have hsome : (failingRun parseUrl).step s.1 b = some (b.transform parseUrl s.1).2 :=
        if_pos hfails
      exact Option.some.inj (hsome.symm.trans htransform)
    have hone := (Borrowing.counts_iff hfails).mpr hcounts
    rw [hafter] at hone
    refine ⟨?_, ?_, ?_⟩
    · rw [← hafter, Borrowing.policy_transform, hpolicy]
    · rw [hone, hcount, hlog, List.length_append, List.length_singleton, Nat.add_assoc]
    · intro last hlast hreached
      rw [hlog, List.getLast?_concat] at hlast
      obtain rfl := Option.some.inj hlast
      rw [← hafter]
      apply Borrowing.opened_of_counts hfails hcounts
      rw [hpolicy, ← hone]
      exact hreached

/-- A failure at the device counts one if and only if it is told or late, a success in time clears
the count, and failures that are all counted open the circuit once they reach the threshold. -/
theorem failed_access_counted_iff (parseUrl : UrlParser) :
    (∀ (b : Borrowing) (r : ConnectionRecord), b.failsAccess parseUrl r = true →
      ((b.transform parseUrl r).2.health.consecutiveFailures =
        r.health.consecutiveFailures + 1 ↔ b.countsFault r = true)) ∧
    (∀ (b : Borrowing) (r : ConnectionRecord), (b.transform parseUrl r).1 = .ok () →
      b.isOverTime r = false → (b.transform parseUrl r).2.health.consecutiveFailures = 0) ∧
    ∀ (r r' : ConnectionRecord) (bs : List Borrowing),
      (failingLog parseUrl r).ReachesUnder (fun s b => b.countsFault s.1 = true) (r', bs) →
        r.policy.circuitFailureThreshold ≤ bs.length →
          ∃ b, bs.getLast? = some b ∧ b.Opened parseUrl r' := by
  refine ⟨fun b r => Borrowing.counts_iff, fun b r => Borrowing.consecutive_of_ok, ?_⟩
  intro r r' bs hrun hreached
  obtain ⟨-, hcount, hopens⟩ := counted_of_run hrun
  have hpos : 0 < r.policy.circuitFailureThreshold := circuitFailureThreshold_pos r.metadata
  cases hlast : bs.getLast? with
  | none =>
      rw [List.getLast?_eq_none_iff] at hlast
      rw [hlast, List.length_nil] at hreached
      omega
  | some b => exact ⟨b, rfl, hopens b hlast (by omega)⟩

end Runs

/-! ## A device that is switched off -/

/-- No device answers. -/
def switchedOff : Surroundings where
  parseIp _ := .ok ()
  connectSlave _ _ _ := .error "connection refused"
  mqttClient _ _ _ := ⟨[], [], fun _ _ _ => .error "connection refused"⟩
  openSerial _ _ := .error "No such device"
  join := .ok ()
  canBus := ⟨none, .ok (), .error "No such device", none⟩
  ethercatBus := ⟨none, .ok (), .error "No such device", none⟩
  send _ _ _ := .error "connection refused"
  toUppercase s := s
  parseMethod _ := .ok ()
  parseJson _ := none
  serdeError _ := ""
  showF64 _ := ""
  texts := plainTexts
  evalScale _ v := .ok v
  openedAt := 0

/-- A PLC with the number of its unit. -/
def numberedPlc : ConnectionRecord := buildRecord Pool.refuseUrls ⟨"plc", "modbus", .object
  [("host", .string "10.0.0.7"), ("port", .number (.posInt 502)), ("unit_id", .number (.posInt 1))]⟩

def plcReader : BorrowingNode := .modbusRead ⟨"read", 1, 40001, 1, "holding"⟩

def plcWriter : BorrowingNode := .capabilityCall
  ⟨"write", ⟨some "plc", "axis.move_to", "press_1",
    .modbusWrite 40010 "u16" none "big_endian" none "50", ∅⟩, none⟩
  (.modbusWrite 40010 "50" "u16" none "big_endian")

/-- A transform of a node at a time, in vain. -/
def inVain (node : BorrowingNode) (at' : ℤ) : Borrowing :=
  ⟨node, 1, .null, switchedOff, "plc", ∅, at', at' + 1⟩

/-- Three writes in vain count three failures and open the circuit. -/
theorem failed_writes_counted :
    ((inVain plcWriter 0).transform Pool.refuseUrls numberedPlc).2.health.consecutiveFailures = 1 ∧
      ∃ r' b, Borrowing.Opened Pool.refuseUrls b r' := by
  have hcounted := failed_access_counted_iff Pool.refuseUrls
  constructor
  · exact (hcounted.1 (inVain plcWriter 0) numberedPlc (by decide)).mpr (by decide)
  · have hrun : ((failingLog Pool.refuseUrls numberedPlc).replay (fun s b => b.countsFault s.1)
        (numberedPlc, []) [inVain plcWriter 0, inVain plcWriter 2, inVain plcWriter 4]).any
          (fun s => s.2.length == 3) = true := by decide
    obtain ⟨⟨r', bs⟩, hreached, hlength⟩ :=
      Machine.exists_reachesUnder_of_replay (by exact ⟨rfl, rfl⟩) hrun
    have hthree : numberedPlc.policy.circuitFailureThreshold ≤ bs.length := by
      rw [eq_of_beq hlength]
      decide
    obtain ⟨b, -, hopened⟩ := hcounted.2.2 numberedPlc r' bs hreached hthree
    exact ⟨r', b, hopened⟩

/-- However often a read fails in vain, it counts nothing. -/
theorem failed_reads_not_counted :
    (inVain plcReader 0).failsAccess Pool.refuseUrls numberedPlc = true ∧
      ((inVain plcReader 0).transform Pool.refuseUrls numberedPlc).2.health.consecutiveFailures ≠
        numberedPlc.health.consecutiveFailures + 1 ∧
      ((failingRun Pool.refuseUrls).replay (fun _ _ => true) numberedPlc
        [inVain plcReader 0, inVain plcReader 2, inVain plcReader 4]).any
          (fun r => r.health.consecutiveFailures == 0 && r.health.circuitOpenUntil.isNone) =
            true := by
  decide

end Nazh
