import Nazh.Io.Borrowers

/-!
# Tasks that listen to a device

A task that was started by `on_deploy` borrows its connection over and over. What it does with a
lease differs from task to task, but all of it is a handful of operations on the guard and on the
record of the connection, each under its own locks, with anything else in between.

Timers and the waits between two tries are left out: a task may go on whenever it is enabled.
-/

namespace Nazh

open Lib

/-! ## Tasks -/

/-- One thing that a task does to its connection. -/
inductive ListenCommand
  /-- An operation of the connection manager. -/
  | record (op : HealthOp)
  | dropGuard
  deriving DecidableEq, Repr

/-- What a task has met. -/
inductive ListenTurn
  /-- `acquire` failed. -/
  | refused (error : EngineError)
  /-- What was done with the lease failed. -/
  | failed
  /-- The task found its token cancelled, and returns. -/
  | stopped
  | wentOn
  deriving DecidableEq

/-- What a task does about it: the guard is marked, then the rest is done. -/
structure Errand where
  turn : ListenTurn
  mark : Option ConnectionOutcome
  todo : List ListenCommand
  deriving DecidableEq

/-- The code of a task. `phase` is where it stands within a lease. -/
structure ListenLoop (Phase Event : Type) where
  connectionId : String
  start : Phase
  /-- What is done about an `acquire` that failed. -/
  refused : EngineError → List ListenCommand
  /-- What is done about an event, by whether the token is cancelled. -/
  meet : Bool → ConnectionLease → Phase → Event → Option (Errand × Phase)

/-- A record before and after the task has locked it. -/
structure RecordChange where
  before : ConnectionRecord
  after : ConnectionRecord
  at' : ℤ

/-- A turn, with everything that the task did to records. The code does not keep this. -/
structure FiledTurn where
  turn : ListenTurn
  changes : List RecordChange

/-- Where a task stands. -/
inductive ListenPc (Phase : Type)
  /-- At the head of its loop, or asleep. -/
  | resting
  /-- `acquire` has looked the record up. -/
  | asking (record : ℕ)
  | leased (guard : ConnectionGuard) (phase : Phase) (changes : List RecordChange)
  /-- In the middle of an errand. An operation has looked the record up, or not yet. -/
  | running (turn : ListenTurn) (held : Option (ConnectionGuard × Phase))
      (todo : List ListenCommand) (found : Option ℕ) (changes : List RecordChange)
  | returned

/-- A task beside the pool. -/
structure Listening (Phase : Type) where
  timed : TimedPool
  cancelled : Bool
  pc : ListenPc Phase
  turns : List FiledTurn

/-- What can happen. -/
inductive ListenAction (Event : Type)
  /-- A step of anything else. -/
  | others (a : PoolAction)
  | cancel
  /-- The task looks the connection up. -/
  | look
  /-- The task locks the record that it has looked up. -/
  | lock (now : ℤ)
  | meet (event : Event)
  | dropGuard (now : ℤ)
  /-- The task returns from the head of its loop. -/
  | leave

namespace Listening

variable {Phase Event : Type} (parseUrl : UrlParser) (loop : ListenLoop Phase Event)

/-- The next command of an errand, or the end of it. -/
def goOn (s : Listening Phase) (turn : ListenTurn) (held : Option (ConnectionGuard × Phase))
    (todo : List ListenCommand) (changes : List RecordChange) : Listening Phase :=
  match todo with
  | [] => { s with
      turns := s.turns ++ [⟨turn, changes⟩]
      pc := match held with
        | some (guard, phase) => .leased guard phase []
        | none => if turn = .stopped then .returned else .resting }
  | command :: rest => { s with pc := .running turn held (command :: rest) none changes }

/-- A record is written, and the clock has been read. -/
def write (s : Listening Phase) (h : ℕ) (record : ConnectionRecord) (now : ℤ) :
    Listening Phase :=
  { s with timed := ⟨s.timed.pool.setRecord h record, now⟩ }

/-- `entry`. -/
def look (s : Listening Phase) : Option (Listening Phase) :=
  match s.pc with
  | .resting =>
      if s.cancelled then none
      else match s.timed.pool.connections.lookup loop.connectionId with
        | some h => some { s with pc := .asking h }
        | none =>
            let error := .connectionNotFound loop.connectionId
            some (s.goOn (.refused error) none (loop.refused error) [])
  | .running turn held (.record op :: rest) none changes =>
      match s.timed.pool.connections.lookup loop.connectionId with
      | some h => some { s with pc := .running turn held (.record op :: rest) (some h) changes }
      | none => some (s.goOn turn held rest changes)
  | _ => none

/-- `acquire`, from the lock of the record on. -/
def acquireAt (s : Listening Phase) (h : ℕ) (record : ConnectionRecord) (now : ℤ) :
    Listening Phase :=
  let (record', attemptWindows, result) :=
    acquireRecord parseUrl loop.connectionId record s.timed.pool.attemptWindows now
  let s := s.write h record' now
  let s := { s with timed.pool.attemptWindows := attemptWindows }
  let change : RecordChange := ⟨record, record', now⟩
  match result with
  | .ok lease => { s with pc := .leased ⟨lease, h, .pending⟩ loop.start [change] }
  | .error error => s.goOn (.refused error) none (loop.refused error) [change]

/-- The record that was looked up is locked. -/
def lock (s : Listening Phase) (now : ℤ) : Option (Listening Phase) :=
  match s.pc with
  | .asking h => (s.timed.pool.heap[h]?).map fun record => s.acquireAt parseUrl loop h record now
  | .running turn held (.record op :: rest) (some h) changes =>
      (s.timed.pool.heap[h]?).map fun record =>
        (s.write h (op.apply now record) now).goOn turn held rest
          (changes ++ [⟨record, op.apply now record, now⟩])
  | _ => none

/-- The guard, as it is marked by an errand. -/
def marked (guard : ConnectionGuard) (errand : Errand) : ConnectionGuard :=
  { guard with outcome := errand.mark.getD guard.outcome }

def meet (s : Listening Phase) (event : Event) : Option (Listening Phase) :=
  match s.pc with
  | .leased guard phase changes =>
      (loop.meet s.cancelled guard.lease phase event).map fun (errand, phase) =>
        s.goOn errand.turn (some (marked guard errand, phase)) errand.todo changes
  | _ => none

def dropGuard (s : Listening Phase) (now : ℤ) : Option (Listening Phase) :=
  match s.pc with
  | .running turn (some (guard, _)) (.dropGuard :: rest) none changes =>
      (s.timed.pool.heap[guard.record]?).map fun record =>
        let record' := finalizeRelease record guard.lease.borrowedAt guard.outcome now
        (s.write guard.record record' now).goOn turn none rest (changes ++ [⟨record, record', now⟩])
  | _ => none

/-- A reading of the clock is not before the last one. -/
def reads (s : Listening Phase) (now : ℤ) : Bool := s.timed.clock ≤ now && isDateTime now

/-- One step of the task, or of anything else. -/
def step (s : Listening Phase) : ListenAction Event → Option (Listening Phase)
  | .others a => (s.timed.step parseUrl a).map fun timed => { s with timed }
  | .cancel => some { s with cancelled := true }
  | .look => s.look loop
  | .lock now => if s.reads now then s.lock parseUrl loop now else none
  | .meet event => s.meet loop event
  | .dropGuard now => if s.reads now then s.dropGuard now else none
  | .leave => match s.pc with
    | .resting => if s.cancelled then some { s with pc := .returned } else none
    | _ => none

/-- The task has not begun. -/
structure Begins (s : Listening Phase) : Prop where
  atRest : s.timed.pool.AtRest
  pc : s.pc = .resting
  turns : s.turns = []

end Listening

/-- The runs of a task. -/
def ListenLoop.machine {Phase Event : Type} (loop : ListenLoop Phase Event) (parseUrl : UrlParser) :
    Machine (Listening Phase) (ListenAction Event) :=
  ⟨Listening.Begins, Listening.step parseUrl loop⟩

/-! ## What a step is -/

namespace Listening

variable {Phase Event : Type} {parseUrl : UrlParser} {loop : ListenLoop Phase Event}
  {s s' : Listening Phase} {a : ListenAction Event}

/-- What a step of the task, or of anything else, is. -/
inductive Moves (parseUrl : UrlParser) (loop : ListenLoop Phase Event) (s : Listening Phase) :
    ListenAction Event → Listening Phase → Prop
  | others {a : PoolAction} {timed : TimedPool} : s.timed.step parseUrl a = some timed →
      Moves parseUrl loop s (.others a) { s with timed }
  | cancel : Moves parseUrl loop s .cancel { s with cancelled := true }
  | leave : s.pc = .resting → Moves parseUrl loop s .leave { s with pc := .returned }
  | asks {h : ℕ} : s.pc = .resting →
      s.timed.pool.connections.lookup loop.connectionId = some h →
      Moves parseUrl loop s .look { s with pc := .asking h }
  | unknown : s.pc = .resting → s.timed.pool.connections.lookup loop.connectionId = none →
      Moves parseUrl loop s .look (s.goOn (.refused (.connectionNotFound loop.connectionId)) none
        (loop.refused (.connectionNotFound loop.connectionId)) [])
  | finds {turn : ListenTurn} {held : Option (ConnectionGuard × Phase)} {op : HealthOp}
      {rest : List ListenCommand} {changes : List RecordChange} {h : ℕ} :
      s.pc = .running turn held (.record op :: rest) none changes →
      s.timed.pool.connections.lookup loop.connectionId = some h →
      Moves parseUrl loop s .look
        { s with pc := .running turn held (.record op :: rest) (some h) changes }
  | misses {turn : ListenTurn} {held : Option (ConnectionGuard × Phase)} {op : HealthOp}
      {rest : List ListenCommand} {changes : List RecordChange} :
      s.pc = .running turn held (.record op :: rest) none changes →
      s.timed.pool.connections.lookup loop.connectionId = none →
      Moves parseUrl loop s .look (s.goOn turn held rest changes)
  | acquires {h : ℕ} {record : ConnectionRecord} {now : ℤ} : s.pc = .asking h →
      s.timed.pool.heap[h]? = some record → s.reads now = true →
      Moves parseUrl loop s (.lock now) (s.acquireAt parseUrl loop h record now)
  | records {turn : ListenTurn} {held : Option (ConnectionGuard × Phase)} {op : HealthOp}
      {rest : List ListenCommand} {changes : List RecordChange} {h : ℕ}
      {record : ConnectionRecord} {now : ℤ} :
      s.pc = .running turn held (.record op :: rest) (some h) changes →
      s.timed.pool.heap[h]? = some record → s.reads now = true →
      Moves parseUrl loop s (.lock now) ((s.write h (op.apply now record) now).goOn turn held rest
        (changes ++ [⟨record, op.apply now record, now⟩]))
  | meets {guard : ConnectionGuard} {phase phase' : Phase} {changes : List RecordChange}
      {event : Event} {errand : Errand} : s.pc = .leased guard phase changes →
      loop.meet s.cancelled guard.lease phase event = some (errand, phase') →
      Moves parseUrl loop s (.meet event)
        (s.goOn errand.turn (some (marked guard errand, phase')) errand.todo changes)
  | drops {turn : ListenTurn} {guard : ConnectionGuard} {phase : Phase}
      {rest : List ListenCommand} {changes : List RecordChange} {record : ConnectionRecord}
      {now : ℤ} :
      s.pc = .running turn (some (guard, phase)) (.dropGuard :: rest) none changes →
      s.timed.pool.heap[guard.record]? = some record → s.reads now = true →
      Moves parseUrl loop s (.dropGuard now)
        ((s.write guard.record
          (finalizeRelease record guard.lease.borrowedAt guard.outcome now) now).goOn turn none rest
          (changes ++ [⟨record, finalizeRelease record guard.lease.borrowedAt guard.outcome now,
            now⟩]))

theorem look_moves (h : s.look loop = some s') : s.Moves parseUrl loop .look s' := by
  rw [look] at h
  split at h
  · rename_i hpc
    split at h
    · cases h
    · split at h
      · rename_i hlookup
        cases h
        exact .asks hpc hlookup
      · rename_i hlookup
        cases h
        exact .unknown hpc hlookup
  · rename_i hpc
    split at h
    · rename_i hlookup
      cases h
      exact .finds hpc hlookup
    · rename_i hlookup
      cases h
      exact .misses hpc hlookup
  · cases h

theorem lock_moves {now : ℤ} (hreads : s.reads now = true)
    (h : s.lock parseUrl loop now = some s') : s.Moves parseUrl loop (.lock now) s' := by
  rw [lock] at h
  split at h
  · rename_i hpc
    obtain ⟨record, hrecord, rfl⟩ := Option.map_eq_some_iff.mp h
    exact .acquires hpc hrecord hreads
  · rename_i hpc
    obtain ⟨record, hrecord, rfl⟩ := Option.map_eq_some_iff.mp h
    exact .records hpc hrecord hreads
  · cases h

theorem meet_moves {event : Event} (h : s.meet loop event = some s') :
    s.Moves parseUrl loop (.meet event) s' := by
  rw [meet] at h
  split at h
  · rename_i hpc
    obtain ⟨⟨errand, phase'⟩, hmeet, rfl⟩ := Option.map_eq_some_iff.mp h
    exact .meets hpc hmeet
  · cases h

theorem dropGuard_moves {now : ℤ} (hreads : s.reads now = true)
    (h : s.dropGuard now = some s') : s.Moves parseUrl loop (.dropGuard now) s' := by
  rw [dropGuard] at h
  split at h
  · rename_i hpc
    obtain ⟨record, hrecord, rfl⟩ := Option.map_eq_some_iff.mp h
    exact .drops hpc hrecord hreads
  · cases h

/-- Every step is one of these. -/
theorem step_moves (h : s.step parseUrl loop a = some s') : s.Moves parseUrl loop a s' := by
  cases a with
  | others a =>
      obtain ⟨timed, htimed, rfl⟩ := Option.map_eq_some_iff.mp h
      exact .others htimed
  | cancel =>
      cases h
      exact .cancel
  | look => exact look_moves h
  | lock now =>
      rw [step] at h
      split at h
      · exact lock_moves ‹_› h
      · cases h
  | meet event => exact meet_moves h
  | dropGuard now =>
      rw [step] at h
      split at h
      · exact dropGuard_moves ‹_› h
      · cases h
  | leave =>
      rw [step] at h
      split at h
      · rename_i hpc
        split at h
        · cases h
          exact .leave hpc
        · cases h
      · cases h

/-- An acquire is answered with a lease, or it is refused. -/
theorem acquireAt_cases (parseUrl : UrlParser) (loop : ListenLoop Phase Event)
    (s : Listening Phase) (h : ℕ) (record : ConnectionRecord) (now : ℤ) :
    ∃ s₁ : Listening Phase, s₁.turns = s.turns ∧ s₁.cancelled = s.cancelled ∧
      s₁.timed.pool.heap = s.timed.pool.heap.set h
        (acquireRecord parseUrl loop.connectionId record s.timed.pool.attemptWindows now).1 ∧
      s₁.timed.pool.guards = s.timed.pool.guards ∧
      s₁.timed.pool.connections = s.timed.pool.connections ∧
      ((∃ lease, (acquireRecord parseUrl loop.connectionId record
            s.timed.pool.attemptWindows now).2.2 = .ok lease ∧
          s.acquireAt parseUrl loop h record now =
            { s₁ with
              pc := .leased (ConnectionGuard.mk lease h .pending) loop.start
                [⟨record, (acquireRecord parseUrl loop.connectionId record
                  s.timed.pool.attemptWindows now).1, now⟩] }) ∨
        ∃ error, (acquireRecord parseUrl loop.connectionId record
            s.timed.pool.attemptWindows now).2.2 = .error error ∧
          s.acquireAt parseUrl loop h record now = s₁.goOn (.refused error) none
            (loop.refused error) [⟨record, (acquireRecord parseUrl loop.connectionId record
              s.timed.pool.attemptWindows now).1, now⟩]) := by
  simp only [acquireAt]
  generalize acquireRecord parseUrl loop.connectionId record s.timed.pool.attemptWindows now = out
  obtain ⟨record', windows, result⟩ := out
  refine ⟨{ s.write h record' now with timed.pool.attemptWindows := windows }, rfl, rfl, rfl, rfl,
    rfl, ?_⟩
  cases result with
  | ok lease => exact .inl ⟨lease, rfl, rfl⟩
  | error error => exact .inr ⟨error, rfl, rfl⟩

end Listening

/-! ## Polling registers -/

/-- `SignalListenerSnapshot`, as far as it is polled. A scale that is empty is none. -/
structure CompiledSignal where
  signalId : String
  source : SignalSourceSnapshot
  scale : Option String

namespace ModbusPoll

/-- `extract_unit_id`. -/
def extractUnitId (metadata : Value) : Except String UInt8 :=
  okOr (((metadata.get "unit").bind Value.toU8).filter (0 < ·)) "Modbus 连接元数据缺少有效的 unit"

/-- `read_register_once`. -/
def readRegisterOnce (w : Surroundings) (host : String) (port : UInt16) (unitId : UInt8)
    (register quantity : UInt16) : Except String (List UInt8) := do
  (w.parseIp host).mapError fun e => s!"Modbus TCP 地址解析失败 ({host}): {e}"
  let ctx ← (w.connectSlave host port unitId).mapError fun e =>
    s!"Modbus TCP 连接失败 ({host}:{port}): {e}"
  let response ← (ctx.readHoldingRegisters register quantity).mapError fun e =>
    s!"Modbus 读保持寄存器失败: {e}"
  let words ← response.mapError fun e => s!"Modbus 协议错误: {e}"
  .ok (registerBytes words)

/-- The value of a signal that was read. -/
def signalValue (w : Surroundings) (cs : CompiledSignal) (dataType : DataType)
    (bit : Option UInt8) (rawBytes : List UInt8) : Except String Value := do
  let value ← (decodeRawBytes rawBytes .bigEndian dataType bit).mapError DecodeError.message
  match cs.scale with
  | none | some "" => .ok value
  | some expr => w.evalScale expr value

/-- The loop over the signals, with the device as the `k`-th of them finds it: whether any of them
failed. -/
def pollSignals (w : ℕ → Surroundings) (metadata : Value) (host : String) (port : UInt16) (k : ℕ)
    (anyError : Bool) : List CompiledSignal → Except String Bool
  | [] => .ok anyError
  | cs :: rest => match cs.source with
    | .register register dataType bit =>
        match extractUnitId metadata with
        | .error e => .error e
        | .ok unitId =>
            let value := do
              let rawBytes ← readRegisterOnce (w k) host port unitId register
                (.ofNat dataType.modbusRegisterCount)
              signalValue (w k) cs dataType bit rawBytes
            match value with
            | .ok _ => pollSignals w metadata host port (k + 1) anyError rest
            | .error _ => pollSignals w metadata host port (k + 1) true rest
    | _ => pollSignals w metadata host port (k + 1) anyError rest

/-- What `poll_all_signals` does once it has the lease, and what the loop does about an error. -/
def pollAllSignals (w : ℕ → Surroundings) (cancelled : Bool) (signals : List CompiledSignal)
    (metadata : Value) : Errand :=
  let host := ((metadata.get "host").bind Value.asStr).getD ""
  let failed (mark : Option ConnectionOutcome) (error : String) : Errand :=
    ⟨.failed, mark, [.dropGuard, .record (.recordConnectFailure error)]⟩
  match (metadata.get "port").bind Value.toU16 with
  | none => failed none "Modbus 连接元数据缺少有效的 port"
  | some port =>
      if cancelled then ⟨.wentOn, some .success, [.dropGuard]⟩
      else match pollSignals w metadata host port 0 false signals with
        | .error e => failed none e
        | .ok true => failed (some (.failure "Modbus 事件轮询部分信号失败")) "Modbus 事件轮询部分信号失败"
        | .ok false => ⟨.wentOn, some .success,
            [.record (.recordHeartbeat s!"Modbus 事件轮询 {host}:{port} 正常"), .dropGuard]⟩

end ModbusPoll

/-- `run_modbus_poll_loop`. -/
def modbusPollLoop (connectionId : String) (signals : List CompiledSignal) :
    ListenLoop Unit (ℕ → Surroundings) where
  connectionId
  start := ()
  refused error :=
    [.record (.recordConnectFailure s!"Modbus 事件轮询连接借出失败: {error.message}")]
  meet cancelled lease _ w :=
    some (ModbusPoll.pollAllSignals w cancelled signals lease.metadata, ())

/-! ## Subscriptions -/

/-- Where a task stands that keeps its lease for as long as it listens. -/
inductive SubscriptionPhase
  | connecting
  | subscribing
  | listening
  deriving DecidableEq, Repr

/-- What such a task meets. -/
inductive SubscriptionEvent
  /-- The end of `wait_connack`. -/
  | connAck (connected : Bool)
  | subscribed (result : Except String Unit)
  /-- A message, and it is time for a heartbeat. -/
  | message
  /-- The end of `run_message_loop`; `none` if the token is cancelled. -/
  | ended (disconnected : Option String)
  /-- The end of the blocking task that reads from a serial port. -/
  | joined (result : Except String (Except String Unit))
  deriving DecidableEq

/-- The tasks that keep their lease for as long as they listen. -/
inductive Subscription
  /-- `mqtt_subscribe_loop`. -/
  | mqttSubscribe (host : String) (port : UInt16) (topic : String)
  /-- `run_mqtt_listener_loop`, with the topics of its signals. -/
  | mqttListener (host : String) (port : UInt16) (topics : List String)
  /-- `run_serial_listen_loop`. -/
  | serialListen
  deriving DecidableEq, Repr

namespace Subscription

/-- A session that failed: it is recorded before the guard is dropped. -/
def failed (reason : String) : Errand :=
  ⟨.failed, some (.failure reason), [.record (.recordConnectFailure reason), .dropGuard]⟩

/-- The task finds its token cancelled. -/
def stopped (reason : String) : Errand :=
  ⟨.stopped, some .success, [.dropGuard, .record (.markDisconnected reason)]⟩

/-- The session goes on, and that may be recorded. -/
def wentOn (todo : List ListenCommand) : Errand := ⟨.wentOn, none, todo⟩

/-- The end of a message loop: a token that is cancelled comes first. -/
def ending (cancelled : Bool) (halted : String) : Option String → Option Errand
  | disconnected => if cancelled then some (stopped halted) else disconnected.map failed

/-- `mqtt_subscribe_loop` with a lease. -/
def meetMqttSubscribe (host : String) (port : UInt16) (topic : String) (cancelled : Bool) :
    SubscriptionPhase → SubscriptionEvent → Option (Errand × SubscriptionPhase)
  | .connecting, .connAck false => some (failed s!"MQTT {host}:{port} 连接失败", .connecting)
  | .connecting, .connAck true =>
      if cancelled then none
      else some (wentOn [.record
        (.recordConnectSuccess s!"MQTT {host}:{port} 已连接，订阅主题 {topic}" none)], .subscribing)
  | .subscribing, .subscribed (.error error) =>
      some (failed s!"MQTT 订阅主题 `{topic}` 失败: {error}", .subscribing)
  | .subscribing, .subscribed (.ok ()) => some (wentOn [], .listening)
  | .listening, .message => some (wentOn [.record
      (.recordHeartbeat s!"MQTT {host}:{port} 收到主题 {topic} 消息")], .listening)
  | .listening, .ended disconnected =>
      (ending cancelled s!"MQTT {host}:{port} 订阅已停止" disconnected).map (·, .listening)
  | _, _ => none

/-- `run_mqtt_listener_loop` with a lease. -/
def meetMqttListener (host : String) (port : UInt16) (topics : List String) (cancelled : Bool) :
    SubscriptionPhase → SubscriptionEvent → Option (Errand × SubscriptionPhase)
  | .connecting, .connAck false =>
      some (failed s!"MQTT 事件监听 {host}:{port} 连接失败", .connecting)
  | .connecting, .connAck true => if cancelled then none else some (wentOn [], .subscribing)
  | .subscribing, .subscribed (.error reason) => some (failed reason, .subscribing)
  | .subscribing, .subscribed (.ok ()) =>
      let summary := ", ".intercalate topics
      some (wentOn [.record
        (.recordConnectSuccess s!"MQTT 事件监听已连接，订阅主题: {summary}" none)], .listening)
  | .listening, .message => some (wentOn [.record
      (.recordHeartbeat s!"MQTT 事件监听 {host}:{port} 收到消息")], .listening)
  | .listening, .ended disconnected =>
      (ending cancelled s!"MQTT 事件监听 {host}:{port} 已停止" disconnected).map (·, .listening)
  | _, _ => none

/-- `parse_serial_metadata`: the path of the port, the baud rate and the delimiter. -/
def parseSerialMetadata (metadata : Value) : Except String (String × UInt32 × String) := do
  let portPath ← okOr (((((metadata.get "port_path").or (metadata.get "port")).bind
    Value.asStr).map Text.trim).filter (· ≠ "")) "串口连接元数据缺少 port_path"
  let baudRate ← okOr (((metadata.get "baud_rate").bind Value.toU32).filter (0 < ·))
    "串口连接元数据缺少有效的 baud_rate"
  let delimiter ← okOr (((metadata.get "delimiter").bind Value.asStr).filter (· ≠ ""))
    "串口连接元数据缺少 delimiter"
  .ok (portPath, baudRate, delimiter)

/-- `run_serial_listen_loop` with a lease. -/
def meetSerialListen (cancelled : Bool) (metadata : Value) :
    SubscriptionPhase → SubscriptionEvent → Option (Errand × SubscriptionPhase)
  | .connecting, .joined result => match parseSerialMetadata metadata with
    | .error reason => some (failed reason, .connecting)
    | .ok (portPath, _, _) =>
        if portPath = "" then some (failed "串口连接元数据缺少 port_path", .connecting)
        else match result with
          | .ok (.ok ()) =>
              if cancelled then some (stopped s!"串口事件监听 {portPath} 已停止", .connecting)
              else none
          | .ok (.error reason) => some (failed reason, .connecting)
          | .error joinError => some (failed s!"串口事件监听任务异常: {joinError}", .connecting)
  | _, _ => none

/-- The code of such a task. A failed `acquire` is not recorded. -/
def loop (connectionId : String) (sub : Subscription) :
    ListenLoop SubscriptionPhase SubscriptionEvent where
  connectionId
  start := .connecting
  refused _ := []
  meet cancelled lease := match sub with
    | .mqttSubscribe host port topic => meetMqttSubscribe host port topic cancelled
    | .mqttListener host port topics => meetMqttListener host port topics cancelled
    | .serialListen => meetSerialListen cancelled lease.metadata

end Subscription

/-! ## What a turn adds to the counters -/

/-- A counter of failures is full. -/
def counterLimit : ℕ := 2 ^ 32 - 1

namespace RecordChange

/-- What a change adds to a counter. -/
def adds (counter : ConnectionHealthSnapshot → ℕ) (c : RecordChange) : ℤ :=
  counter c.after.health - counter c.before.health

/-- What changes add to a counter. -/
def added (counter : ConnectionHealthSnapshot → ℕ) (changes : List RecordChange) : ℤ :=
  (changes.map (adds counter)).sum

variable {counter : ConnectionHealthSnapshot → ℕ} {changes : List RecordChange} {c : RecordChange}

theorem added_singleton : added counter [c] = c.adds counter := by simp [added]

theorem added_concat : added counter (changes ++ [c]) = added counter changes + c.adds counter := by
  simp [added]

theorem adds_eq_zero (h : counter c.after.health = counter c.before.health) :
    c.adds counter = 0 := by
  rw [adds, h, sub_self]

theorem added_eq_zero (h : ∀ c ∈ changes, counter c.after.health = counter c.before.health) :
    added counter changes = 0 := by
  induction changes with
  | nil => rfl
  | cons c rest ih =>
      have hrest := ih fun c' hc' => h c' (List.mem_cons_of_mem _ hc')
      rw [added] at hrest
      rw [added, List.map_cons, List.sum_cons, adds_eq_zero (h c List.mem_cons_self), hrest, zero_add]

theorem added_nonpos (h : ∀ c ∈ changes, counter c.after.health ≤ counter c.before.health) :
    added counter changes ≤ 0 := by
  induction changes with
  | nil => exact Int.le_refl _
  | cons c rest ih =>
      have hrest := ih fun c' hc' => h c' (List.mem_cons_of_mem _ hc')
      have hhead : c.adds counter ≤ 0 := by
        have hle := h c List.mem_cons_self
        rw [adds]
        omega
      rw [added] at hrest
      rw [added, List.map_cons, List.sum_cons]
      omega

theorem adds_eq_one (counter : ConnectionHealthSnapshot → ℕ)
    (h : counter c.after.health = saturatingSucc (counter c.before.health))
    (hroom : counter c.before.health < counterLimit) : c.adds counter = 1 := by
  rw [counterLimit] at hroom
  rw [adds, h, saturatingSucc]
  omega

end RecordChange

end Nazh
