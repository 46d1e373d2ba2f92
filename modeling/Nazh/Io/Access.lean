import Nazh.Connections.Timed
import Nazh.Io.Can
import Nazh.Io.Modbus
import Nazh.Lib.Hoare

/-!
# Access to a device over a borrowed connection

A transform that has borrowed a connection talks to a device and marks its guard. The guard counts
nothing until it is dropped; a shared session that the transform opens is recorded at once. What a
device answers is a parameter.
-/

namespace Nazh

open Lib

/-! ## What is seen of a guard -/

/-- What a transform did with its guard, and what it recorded of the connection. -/
structure AccessLog where
  outcome : ConnectionOutcome
  recorded : List (RecordAction × ℤ)
  /-- Connecting to, reading from or writing to the device failed. The code does not keep this. -/
  faulted : Bool

/-- The guard is fresh. -/
def AccessLog.fresh : AccessLog := ⟨.pending, [], false⟩

/-- What a transform does between `acquire` and the drop of its guard. -/
abbrev Access (α : Type) := Stateful EngineError AccessLog α

/-- `ConnectionGuard::mark_success`. -/
def markSuccess : Access Unit := modify fun log => { log with outcome := .success }

/-- `ConnectionGuard::mark_failure`. -/
def markFailure (reason : String) : Access Unit :=
  modify fun log => { log with outcome := .failure reason }

/-- An operation of the connection manager on the connection. -/
def recordHealth (op : HealthOp) (now : ℤ) : Access Unit :=
  modify fun log => { log with recorded := log.recorded ++ [(.health op, now)] }

/-- A device answers. Its error becomes an error of the node, by `map_err`. -/
def access {α : Type} (answer : Except String α) (mapErr : String → Access EngineError) :
    Access α :=
  match answer with
  | .ok a => pure a
  | .error reason => do
      modify fun log => { log with faulted := true }
      throw (← mapErr reason)

/-- The text of an error is that of the device. -/
def verbatim (error : String) : String := error

/-- The guard is not told of the error. -/
def untold (nodeId : String) (traceId : ℕ) (text : String → String) (error : String) :
    Access EngineError :=
  pure (.stageExecution nodeId traceId (text error))

/-- The guard is marked with the text of the error. -/
def told (nodeId : String) (traceId : ℕ) (text : String → String) (error : String) :
    Access EngineError := do
  let reason := text error
  markFailure reason
  pure (.stageExecution nodeId traceId reason)

/-- The guard is marked, and the node is said to be misconfigured. -/
def refuse (nodeId reason : String) : Access Unit := do
  markFailure reason
  throw (.nodeConfig nodeId reason)

/-! ## Devices -/

/-- A Modbus device that was connected to. A request fails, or it is answered by an exception of
the protocol or by data. -/
structure ModbusContext where
  readHoldingRegisters : UInt16 → UInt16 → Except String (Except String (List UInt16))
  readInputRegisters : UInt16 → UInt16 → Except String (Except String (List UInt16))
  readCoils : UInt16 → UInt16 → Except String (Except String (List Bool))
  readDiscreteInputs : UInt16 → UInt16 → Except String (Except String (List Bool))
  writeSingleRegister : UInt16 → UInt16 → Except String (Except String Unit)
  writeMultipleRegisters : UInt16 → List UInt16 → Except String (Except String Unit)

/-- The code of a `ConnAck`. -/
inductive ConnectReturnCode
  | success
  | refused (name : String)

inductive MqttEvent
  | connAck (code : ConnectReturnCode)
  | disconnect
  | publish (topic : String) (payload : List UInt8)
  | other

/-- What polls of an event loop give, until time runs out. -/
abbrev MqttPolls := List (Except String MqttEvent)

/-- The two sides of a client of a broker. -/
structure MqttClient where
  connecting : MqttPolls
  listening : MqttPolls
  /-- A message with a topic, a quality of service and a payload. -/
  publish : String → UInt8 → String → Except String Unit

/-- What one read of a byte from a serial port gives. -/
inductive SerialRead
  | byte (b : UInt8)
  | nothing
  | timedOut
  | failed (error : String)

/-- A serial port that was opened. -/
structure SerialPort where
  writeAll : String → Except String Unit
  flush : Except String Unit
  /-- The reads that begin before time runs out. -/
  reads : List SerialRead

/-- The cache of shared sessions, and what opening one finds. -/
structure SharedBus (β : Type) where
  /-- A session in the cache, and whether it has the type that is asked for. -/
  cached : Option Bool
  /-- The definition of the connection as a configuration of the bus. -/
  config : Except String Unit
  /-- Creating the bus. -/
  create : Except String Unit
  /-- The bus of the session, unless it was shut down. -/
  handle : Option β

structure HttpResponse where
  status : ℕ
  text : Except String String

/-- The devices that a transform meets, and the code that is not modelled. -/
structure Surroundings where
  parseIp : String → Except String Unit
  connectSlave : String → UInt16 → UInt8 → Except String ModbusContext
  /-- `AsyncClient::new`, by identifier, host and port. -/
  mqttClient : String → String → UInt16 → MqttClient
  openSerial : String → UInt32 → Except String SerialPort
  /-- The end of the blocking task that has the port. -/
  join : Except String Unit
  /-- The answers of `recv`; there is silence after them. -/
  canBus : SharedBus (List (Except String (Option CanFrame)))
  ethercatBus : SharedBus (UInt16 → Except String (List UInt8))
  /-- `reqwest`, by method, address and time limit. -/
  send : String → String → ℕ → Except String HttpResponse
  toUppercase : String → String
  parseMethod : String → Except String Unit
  /-- `serde_json::from_slice`. -/
  parseJson : List UInt8 → Option Value
  /-- What `serde_json` says of fields that are no configuration. -/
  serdeError : Fields → String
  showF64 : UInt64 → String
  texts : TextLibrary
  /-- A scale expression, applied to a value. -/
  evalScale : String → Value → Except String Value
  /-- When a session is opened. -/
  openedAt : ℤ

/-! ## Modbus -/

/-- The two errors of a Modbus request. -/
def modbusAnswer {α : Type} (mapErr : (String → String) → String → Access EngineError)
    (failed : String) (answer : Except String (Except String α)) : Access α := do
  let response ← access answer (mapErr fun error => s!"{failed}: {error}")
  access response (mapErr fun error => s!"Modbus 协议错误: {error}")

/-- The context of a slave: the address is parsed, and only then is the device asked. -/
def connectModbus (w : Surroundings) (nodeId : String) (traceId : ℕ)
    (mapErr : (String → String) → String → Access EngineError) (host : String) (port : UInt16)
    (unitId : UInt8) : Access ModbusContext := do
  ofExcept ((w.parseIp host).mapError fun error =>
    .stageExecution nodeId traceId s!"Modbus TCP 地址解析失败 ({host}): {error}")
  access (w.connectSlave host port unitId)
    (mapErr fun error => s!"Modbus TCP 连接失败 ({host}:{port}): {error}")

/-! ## MQTT -/

/-- The loop that waits ten seconds for a `ConnAck`. -/
def awaitConnAck : MqttPolls → Except String Unit
  | [] => .error "MQTT 连接超时（10 秒）"
  | .ok (.connAck .success) :: _ => .ok ()
  | .ok (.connAck (.refused name)) :: _ => .error s!"MQTT broker 拒绝连接: {name}"
  | .ok .disconnect :: _ => .error "MQTT broker 断开连接"
  | .error error :: _ => .error s!"MQTT 连接错误: {error}"
  | .ok _ :: polls => awaitConnAck polls

/-- The loop of `read_topic` that waits five seconds for each event. -/
def awaitConnected : MqttPolls → Except String Bool
  | [] => .error "MQTT 连接超时（5 秒）"
  | .ok (.connAck .success) :: _ => .ok true
  | .ok (.connAck (.refused _)) :: _ | .ok .disconnect :: _ | .error _ :: _ => .ok false
  | .ok _ :: polls => awaitConnected polls

/-- The loop that waits for a message of a topic. -/
def awaitPublish (topic : String) : MqttPolls → Except String (List UInt8)
  | [] => .error s!"MQTT Topic \x60{topic}\x60 等待消息超时"
  | .ok (.publish name payload) :: polls =>
      if name = topic then .ok payload else awaitPublish topic polls
  | .ok _ :: polls => awaitPublish topic polls
  | .error error :: _ => .error s!"MQTT 事件循环错误: {error}"

/-! ## Serial ports -/

/-- The bytes that a delimiter stands for. -/
def delimiterBytes (delimiter : String) : List UInt8 :=
  if delimiter = "\\n" then [0x0A]
  else if delimiter = "\\r\\n" then [0x0D, 0x0A]
  else delimiter.toUTF8.toList

/-- The loop of `serial_read_command`: it ends at a delimiter, at a timeout or at an error. -/
def readResponse (delimiter : List UInt8) (buffer : List UInt8) :
    List SerialRead → Except String (List UInt8)
  | [] | .timedOut :: _ => .ok buffer
  | .nothing :: reads => readResponse delimiter buffer reads
  | .byte b :: reads =>
      let buffer := buffer ++ [b]
      if delimiter ≠ [] ∧ delimiter <:+ buffer then
        .ok (buffer.take (buffer.length - delimiter.length))
      else readResponse delimiter buffer reads
  | .failed error :: _ => .error s!"串口读取失败: {error}"

/-! ## Shared buses -/

/-- `open_shared_session`: the definition of the connection is looked up, the bus is created, and
that is recorded. `opened` and `refused` are the texts of the protocol. -/
def openSharedSession {β : Type} (bus : SharedBus β) (nodeId : String) (traceId : ℕ)
    (openedAt : ℤ) (opened refused : String) : Access Unit := do
  recordHealth .get openedAt
  ofExcept (bus.config.mapError fun error => .stageExecution nodeId traceId
    (EngineError.nodeConfig nodeId error).message)
  access bus.create fun reason => do
    recordHealth (.recordConnectFailure reason) openedAt
    pure (.stageExecution nodeId traceId
      (EngineError.nodeConfig nodeId s!"{refused}: {reason}").message)
  recordHealth (.recordConnectSuccess opened none) openedAt

/-- `ensure_session`. -/
def ensureSession {β : Type} (bus : SharedBus β) (connectionId nodeId : String) (traceId : ℕ)
    (openedAt : ℤ) (opened refused : String) : Access Unit :=
  match bus.cached with
  | some true => pure ()
  | some false => throw (.stageExecution nodeId traceId
      (EngineError.nodeConfig connectionId "共享会话类型不匹配").message)
  | none => openSharedSession bus nodeId traceId openedAt opened refused

/-- `ensure_session` and then the bus of the session. -/
def ensureBus {β : Type} (bus : SharedBus β) (connectionId nodeId : String) (traceId : ℕ)
    (openedAt : ℤ) (opened refused gone : String) : Access β := do
  ensureSession bus connectionId nodeId traceId openedAt opened refused
  access (okOr bus.handle gone)
    (untold nodeId traceId fun reason => (EngineError.nodeConfig nodeId reason).message)

/-- The loop of `read_can_frame` that waits for a frame. -/
def awaitFrame (canId : UInt32) (isExtended : Bool) :
    List (Except String (Option CanFrame)) → Except String CanFrame
  | [] | .ok none :: _ => .error "CAN 接收超时"
  | .ok (some frame) :: answers =>
      if frame.id = canId ∧ frame.isExtended = isExtended then .ok frame
      else awaitFrame canId isExtended answers
  | .error error :: _ => .error s!"CAN 接收错误: {error}"

end Nazh
