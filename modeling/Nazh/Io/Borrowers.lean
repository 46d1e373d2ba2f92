import Nazh.Io.Access
import Nazh.Io.CanSignal
import Nazh.Io.CapabilityNode
import Nazh.Io.Ethercat
import Nazh.Json.Read

/-!
# The nodes that borrow a connection

Five kinds of nodes borrow a connection for one transform. Each is given from its lease on, up to
the payload and the metadata that go out.
-/

namespace Nazh

open Lib

/-! ## Reading registers -/

inductive ModbusRegisterType
  | holding
  | input
  | coil
  | discrete
  deriving DecidableEq, Repr

def parseRegisterType (value : String) : ModbusRegisterType :=
  match Text.toAsciiLowercase (Text.trim value) with
  | "input" | "input_register" | "inputregister" => .input
  | "coil" | "coils" => .coil
  | "discrete" | "discrete_input" | "discreteinput" => .discrete
  | _ => .holding

/-- `word_values_to_json`. -/
def wordValuesToJson (words : List UInt16) : List Value :=
  words.map fun w => .number (.ofNat w.toNat)

/-- `coil_values_to_json`. -/
def coilValuesToJson (coils : List Bool) : List Value := coils.map .bool

structure ModbusReadNode where
  id : String
  unitId : UInt16
  register : UInt16
  quantity : UInt16
  registerType : String

/-- The port of a Modbus connection. -/
def modbusPort (nodeId : String) (metadata : Value) : Except EngineError UInt16 :=
  okOr ((metadata.get "port").bind Value.toU16)
    (.nodeConfig nodeId "Modbus 连接元数据缺少有效的 host 或 port")

namespace ModbusReadNode

variable (node : ModbusReadNode) (w : Surroundings) (traceId : ℕ)

/-- `read_modbus_tcp`. -/
def readModbusTcp (host : String) (port : UInt16) : Access (List Value) := do
  let registerType := parseRegisterType node.registerType
  let quantity := max 1 (min node.quantity 125)
  let slave := if node.unitId.toNat < 256 then node.unitId.toUInt8 else 1
  let ctx ← connectModbus w node.id traceId (untold node.id traceId) host port slave
  match registerType with
  | .holding => do
      let words ← modbusAnswer (untold node.id traceId) "Modbus 读保持寄存器失败"
        (ctx.readHoldingRegisters node.register quantity)
      pure (wordValuesToJson words)
  | .input => do
      let words ← modbusAnswer (untold node.id traceId) "Modbus 读输入寄存器失败"
        (ctx.readInputRegisters node.register quantity)
      pure (wordValuesToJson words)
  | .coil => do
      let coils ← modbusAnswer (untold node.id traceId) "Modbus 读线圈失败"
        (ctx.readCoils node.register quantity)
      pure (coilValuesToJson coils)
  | .discrete => do
      let coils ← modbusAnswer (untold node.id traceId) "Modbus 读离散输入失败"
        (ctx.readDiscreteInputs node.register quantity)
      pure (coilValuesToJson coils)

/-- `transform` with a connection, up to the values. -/
def transform (lease : ConnectionLease) : Access (List Value) := do
  let host := ((lease.metadata.get "host").bind Value.asStr).getD ""
  let port ← ofExcept (modbusPort node.id lease.metadata)
  let values ← node.readModbusTcp w traceId host port
  markSuccess
  pure values

end ModbusReadNode

/-! ## Reading signals -/

inductive SignalSourceSnapshot
  | register (register : UInt16) (dataType : DataType) (bit : Option UInt8)
  | canFrame (canId : UInt32) (isExtended : Bool) (byteOffset byteLength : UInt8)
      (dataType : DataType) (byteOrder : ByteOrder)
  | topic (topic : String)
  | serialCommand (command : String)
  | ethercatPdo (source : EthercatPdoSnapshot)

/-- Two upper-case digits. -/
def upperHexByte (b : UInt8) : List Char :=
  [b.toNat / 16, b.toNat % 16].map fun n =>
    if n < 10 then Char.ofNat (48 + n) else Char.ofNat (55 + n)

/-- A text that may be a number. -/
def numberOrText (texts : TextLibrary) (s : String) : Value :=
  match (texts.parseF64 s).map Value.ofF64 with
  | .ok (.number n) => .number n
  | _ => .string s

/-- `decode_topic_payload`. -/
def decodeTopicPayload (w : Surroundings) (payload : List UInt8) : Value :=
  match w.parseJson payload with
  | some (.string s) => numberOrText w.texts s
  | some v => v
  | none => match String.fromUTF8? ⟨payload.toArray⟩ with
    | some s => numberOrText w.texts s
    | none => .string (String.ofList (payload.flatMap upperHexByte))

structure DeviceSignalReadNode where
  id : String
  connectionId : String
  source : SignalSourceSnapshot
  scale : Option String

namespace DeviceSignalReadNode

variable (node : DeviceSignalReadNode) (w : Surroundings) (traceId : ℕ) (metadata : Value)

/-- What decodes may fail, but that is no failure of a device. -/
def decoded (text : String) (r : Except DecodeError Value) : Except EngineError Value :=
  r.mapError fun e => .stageExecution node.id traceId s!"{text}: {e.message}"

/-- `read_register`. -/
def readRegister (register : UInt16) (dataType : DataType) (bit : Option UInt8) :
    Access Value := do
  let host := ((metadata.get "host").bind Value.asStr).getD ""
  let port ← ofExcept (modbusPort node.id metadata)
  let unitId := ((metadata.get "unit").bind Value.toU8).getD 1
  let ctx ← connectModbus w node.id traceId (untold node.id traceId) host port unitId
  let words ← modbusAnswer (untold node.id traceId) "Modbus 读保持寄存器失败"
    (ctx.readHoldingRegisters register (.ofNat dataType.modbusRegisterCount))
  let val ← ofExcept (node.decoded traceId "信号解码失败"
    (decodeRawBytes (registerBytes words) .bigEndian dataType bit))
  markSuccess
  pure val

/-- `read_can_frame`. -/
def readCanFrame (canId : UInt32) (isExtended : Bool) (byteOffset byteLength : UInt8)
    (dataType : DataType) (byteOrder : ByteOrder) : Access Value := do
  let answers ← ensureBus w.canBus node.connectionId node.id traceId w.openedAt
    "CAN 总线共享会话已建立" "CAN 总线初始化失败" "CAN 总线会话已被清理"
  let frame ← access (awaitFrame canId isExtended answers) (untold node.id traceId verbatim)
  let val ← ofExcept (Nazh.readCanFrame frame.data byteOffset byteLength dataType byteOrder
    node.id traceId)
  markSuccess
  pure val

/-- `read_topic`. -/
def readTopic (topic : String) : Access Value := do
  let host := ((metadata.get "host").bind Value.asStr).getD ""
  let port := ((metadata.get "port").bind Value.toU16).getD 1883
  ofExcept (ensure (host ≠ "") (.nodeConfig node.id "MQTT 连接元数据缺少 host"))
  let clientId := s!"nazh-dsr-{String.ofList (node.id.toList.take 12)}"
  let client := w.mqttClient clientId host port
  let connected ← access (awaitConnected client.connecting) (untold node.id traceId verbatim)
  access (ensure connected s!"MQTT {host}:{port} 连接失败") (untold node.id traceId verbatim)
  let message ← access (awaitPublish topic client.listening) (untold node.id traceId verbatim)
  markSuccess
  pure (decodeTopicPayload w message)

/-- `read_ethercat_pdo`. -/
def readEthercatPdo (source : EthercatPdoSnapshot) : Access Value := do
  let readInputs ← ensureBus w.ethercatBus node.connectionId node.id traceId w.openedAt
    "EtherCAT 主站共享会话已建立" "EtherCAT 主站初始化失败" "EtherCAT 总线会话已释放"
  let inputs ← access (readInputs source.span.slave)
    (untold node.id traceId fun error => s!"EtherCAT PDO 读取失败: {error}")
  let val ← ofExcept (Nazh.readEthercatPdo source (fun _ => .ok inputs) node.id traceId)
  markSuccess
  pure val

/-- `serial_read_command`, which has the trace identifier zero. -/
def serialReadCommand (portPath : String) (baudRate : UInt32) (command delimiter : String) :
    Access (List UInt8) := do
  let port ← access (w.openSerial portPath (max baudRate 1))
    (untold node.id 0 fun error => s!"串口打开失败 ({portPath}): {error}")
  access (port.writeAll command) (untold node.id 0 fun error => s!"串口写入失败: {error}")
  let buffer ← access (readResponse (delimiterBytes delimiter) [] port.reads)
    (untold node.id 0 verbatim)
  access (ensure (buffer ≠ []) "串口未收到响应数据") (untold node.id 0 verbatim)
  pure buffer

/-- `read_serial_command`. -/
def readSerialCommand (command : String) : Access Value := do
  let portPath :=
    (((metadata.get "port_path").or (metadata.get "port")).bind Value.asStr).getD ""
  let baudRate := ((metadata.get "baud_rate").bind Value.toU32).getD 9600
  ofExcept (ensure (portPath ≠ "") (.nodeConfig node.id "串口连接元数据缺少 port_path"))
  let delimiter := ((metadata.get "delimiter").bind Value.asStr).getD "\n"
  access w.join (untold node.id traceId fun e => s!"串口任务失败: {e}")
  let rawBytes ← node.serialReadCommand w portPath baudRate command delimiter
  let val ← ofExcept (node.decoded traceId "串口数据解码失败"
    (decodeRawBytes rawBytes .bigEndian .float32 none))
  markSuccess
  pure val

/-- `read_and_decode` with a connection. -/
def readAndDecode (lease : ConnectionLease) : Access Value :=
  match node.source with
  | .register register dataType bit =>
      node.readRegister w traceId lease.metadata register dataType bit
  | .canFrame canId isExtended byteOffset byteLength dataType byteOrder =>
      node.readCanFrame w traceId canId isExtended byteOffset byteLength dataType byteOrder
  | .topic topic => node.readTopic w traceId lease.metadata topic
  | .ethercatPdo source => node.readEthercatPdo w traceId source
  | .serialCommand command => node.readSerialCommand w traceId lease.metadata command

/-- `apply_scale_with_engine`. -/
def applyScale (value : Value) : Except EngineError Value :=
  match node.scale with
  | none | some "" => .ok value
  | some expr => (w.evalScale expr value).mapError fun e =>
      .stageExecution node.id traceId s!"scale 求值失败: {e}"

/-- `transform` with a connection, up to the value. The guard is marked before the value is
scaled. -/
def transform (lease : ConnectionLease) : Access Value := do
  let decodedValue ← node.readAndDecode w traceId lease
  ofExcept (node.applyScale w traceId decodedValue)

end DeviceSignalReadNode

/-! ## Publishing -/

/-- `extract_broker_addr`. -/
def extractBrokerAddr (metadata : Value) : Except EngineError (String × UInt16) :=
  let host := ((metadata.get "host").bind Value.asStr).getD ""
  if host = "" then .error (.nodeConfig "" "MQTT 连接元数据缺少 host")
  else .ok (host, ((metadata.get "port").bind Value.toU16).getD 1883)

/-- `normalize_mqtt_qos` and `mqtt_qos`, with the value of the level. -/
def mqttQos (value : UInt8) : UInt8 := if value = 1 ∨ value = 2 then value else 0

structure MqttClientNode where
  id : String
  topic : String
  qos : UInt8

/-- `publish_payload` and what `transform` does after it. -/
def MqttClientNode.publishPayload (node : MqttClientNode) (w : Surroundings) (traceId : ℕ)
    (payload : Value) (lease : ConnectionLease) : Access String := do
  let (host, port) ← ofExcept (extractBrokerAddr lease.metadata)
  let topic := if node.topic = "" then ((lease.metadata.get "topic").bind Value.asStr).getD ""
    else node.topic
  ofExcept (ensure (topic ≠ "") (.nodeConfig node.id "MQTT 主题不能为空"))
  let clientId := s!"nazh-{String.ofList (node.id.toList.take 20)}"
  let client := w.mqttClient clientId host port
  access (awaitConnAck client.connecting) (untold node.id traceId verbatim)
  access (client.publish topic (mqttQos node.qos) (payload.toText w.showF64))
    (untold node.id traceId fun error => s!"MQTT 发布失败: {error}")
  markSuccess
  pure topic

/-! ## Calling a capability -/

/-- `connection_kind_matches`. -/
def connectionKindMatches (kind : String) (allowedKinds : List String) : Bool :=
  let dashed (s : String) : String := String.ofList (s.toList.map fun c => if c = '_' then '-' else c)
  allowedKinds.any fun allowed => dashed allowed == dashed (Text.toAsciiLowercase (Text.trim kind))

section Metadata

variable (metadata : Value) (key nodeId protocol : String)

/-- `required_metadata_str`. -/
def requiredMetadataStr : Except EngineError String :=
  okOr ((((metadata.get key).bind Value.asStr).map Text.trim).filter (· ≠ ""))
    (.nodeConfig nodeId s!"{protocol} 连接元数据缺少 \x60{key}\x60")

/-- A number of the metadata: there may be another value for it, but it may not be too large. -/
def metadataUnsigned {α : Type} (typeName : String) (read : Value → Option α)
    (fallback : Option α) : Except EngineError α :=
  match (metadata.get key).bind fun v => v.asU64.map fun _ => v with
  | some v => okOr (read v)
      (.nodeConfig nodeId s!"{protocol} 连接元数据 \x60{key}\x60 超过 {typeName} 上限")
  | none => okOr fallback (.nodeConfig nodeId s!"{protocol} 连接元数据缺少 \x60{key}\x60")

def requiredMetadataU16 : Except EngineError UInt16 :=
  metadataUnsigned metadata key nodeId protocol "u16" Value.toU16 none

def requiredMetadataU8 : Except EngineError UInt8 :=
  metadataUnsigned metadata key nodeId protocol "u8" Value.toU8 none

def metadataU16Or (fallback : UInt16) : Except EngineError UInt16 :=
  metadataUnsigned metadata key nodeId protocol "u16" Value.toU16 (some fallback)

def metadataU32Or (fallback : UInt32) : Except EngineError UInt32 :=
  metadataUnsigned metadata key nodeId protocol "u32" Value.toU32 (some fallback)

def metadataU8Or (fallback : UInt8) : Except EngineError UInt8 :=
  metadataUnsigned metadata key nodeId protocol "u8" Value.toU8 (some fallback)

end Metadata

namespace CapabilityCallNode

variable (node : CapabilityCallNode) (w : Surroundings) (traceId : ℕ) (lease : ConnectionLease)

/-- `acquire_for_protocol`, after the acquire. -/
def acquireForProtocol (protocol : String) (allowedKinds : List String) : Access Unit :=
  if connectionKindMatches lease.kind allowedKinds then pure ()
  else refuse node.id s!"capabilityCall \x60{node.config.capabilityId}\x60 需要 {protocol} 连接，实际连接 \x60{lease.id}\x60 类型为 \x60{lease.kind}\x60"

/-- One word is written by the request for one register. -/
def writeWords (ctx : ModbusContext) (mapErr : (String → String) → String → Access EngineError)
    (register : UInt16) : List UInt16 → Access Unit
  | [word] => modbusAnswer mapErr "Modbus 写保持寄存器失败" (ctx.writeSingleRegister register word)
  | words => modbusAnswer mapErr "Modbus 写多个保持寄存器失败"
      (ctx.writeMultipleRegisters register words)

/-- `execute_modbus_write`. -/
def executeModbusWrite (register : UInt16) (resolvedValue dataType : String) (bit : Option UInt8)
    (byteOrder : String) : Access (List UInt16) := do
  node.acquireForProtocol lease "Modbus" ["modbus", "modbus_tcp", "modbus-tcp"]
  let host ← ofExcept (requiredMetadataStr lease.metadata "host" node.id "Modbus")
  let port ← ofExcept (requiredMetadataU16 lease.metadata "port" node.id "Modbus")
  let unitId ← ofExcept (requiredMetadataU8 lease.metadata "unit_id" node.id "Modbus")
  let words ← ofExcept (encodeModbusWords w.texts resolvedValue dataType byteOrder bit node.id)
  let ctx ← connectModbus w node.id traceId (told node.id traceId) host port unitId
  writeWords ctx (told node.id traceId) register words
  markSuccess
  pure words

/-- `execute_mqtt_publish`. -/
def executeMqttPublish (topic resolvedPayload : String) : Access String := do
  node.acquireForProtocol lease "MQTT" ["mqtt"]
  let host ← ofExcept (requiredMetadataStr lease.metadata "host" node.id "MQTT")
  let port ← ofExcept (metadataU16Or lease.metadata "port" node.id "MQTT" 1883)
  let qos ← ofExcept (metadataU8Or lease.metadata "qos" node.id "MQTT" 0)
  let resolvedTopic ← ofExcept (if Text.trim topic = ""
    then requiredMetadataStr lease.metadata "topic" node.id "MQTT" else .ok topic)
  let clientId := s!"nazh-cap-{String.ofList (node.id.toList.take 20)}"
  let client := w.mqttClient clientId host port
  access (awaitConnAck client.connecting) (told node.id traceId verbatim)
  access (client.publish resolvedTopic (mqttQos qos) resolvedPayload)
    (told node.id traceId fun error => s!"MQTT 发布失败: {error}")
  markSuccess
  pure resolvedTopic

/-- `execute_serial_command`. -/
def executeSerialCommand (command : String) : Access String := do
  node.acquireForProtocol lease "串口"
    ["serial", "serialport", "serial_port", "uart", "rs232", "rs485"]
  let portPath ← ofExcept (requiredMetadataStr lease.metadata "port_path" node.id "串口")
  let baudRate ← ofExcept (metadataU32Or lease.metadata "baud_rate" node.id "串口" 9600)
  access w.join (told node.id traceId fun error => s!"串口写入任务 join 失败: {error}")
  let port ← access (w.openSerial portPath baudRate)
    (told node.id traceId fun error => s!"串口打开失败: {error}")
  access (port.writeAll command) (told node.id traceId fun error => s!"串口写入失败: {error}")
  access port.flush (told node.id traceId fun error => s!"串口刷新失败: {error}")
  markSuccess
  pure portPath

end CapabilityCallNode

/-- The protocol actions that borrow their connection. The others use a shared session. -/
inductive BorrowedCall
  | modbusWrite (register : UInt16) (resolvedValue dataType : String) (bit : Option UInt8)
      (byteOrder : String)
  | mqttPublish (topic resolvedPayload : String)
  | serialCommand (command : String)

/-! ## Sending a request -/

structure HttpClientNodeConfig where
  url : String
  method : String
  headers : Fields
  webhookKind : String
  bodyMode : String
  contentType : String
  requestTimeoutMs : UInt64
  bodyTemplate : String
  titleTemplate : String
  atMobiles : List String
  atAll : Bool

namespace HttpClientNodeConfig

def toJson (config : HttpClientNodeConfig) : Fields := jsonObject
  [("url", .string config.url), ("method", .string config.method),
    ("headers", .object config.headers), ("webhook_kind", .string config.webhookKind),
    ("body_mode", .string config.bodyMode), ("content_type", .string config.contentType),
    ("request_timeout_ms", .number (.posInt config.requestTimeoutMs)),
    ("body_template", .string config.bodyTemplate),
    ("title_template", .string config.titleTemplate),
    ("at_mobiles", .array (config.atMobiles.map .string)), ("at_all", .bool config.atAll)]

/-- The derived deserialization. -/
def fromJson (fields : Fields) : Option HttpClientNodeConfig := do
  let url ← required fields "url" Value.asStr
  let method ← defaulted fields "method" Value.asStr "POST"
  let headers ← defaulted fields "headers" Value.asObject []
  let webhookKind ← defaulted fields "webhook_kind" Value.asStr "generic"
  let bodyMode ← defaulted fields "body_mode" Value.asStr "json"
  let contentType ← defaulted fields "content_type" Value.asStr "application/json"
  let requestTimeoutMs ← defaulted fields "request_timeout_ms" Value.asU64 4000
  let bodyTemplate ← defaulted fields "body_template" Value.asStr ""
  let titleTemplate ← defaulted fields "title_template" Value.asStr ""
  let atMobiles ← defaulted fields "at_mobiles" (Value.toList Value.asStr) []
  let atAll ← defaulted fields "at_all" Value.asBool false
  some ⟨url, method, headers, webhookKind, bodyMode, contentType, requestTimeoutMs, bodyTemplate,
    titleTemplate, atMobiles, atAll⟩

end HttpClientNodeConfig

structure HttpClientNode where
  id : String
  config : HttpClientNodeConfig

/-- `resolve_config`: the metadata of the connection comes before the configuration. -/
def HttpClientNode.resolveConfig (node : HttpClientNode) (w : Surroundings) (metadata : Value) :
    Except EngineError HttpClientNodeConfig :=
  let keys := ["url", "method", "headers", "webhook_kind", "content_type", "request_timeout_ms",
    "at_mobiles", "at_all"]
  let fields := keys.foldl (fun fields key => fields.insertSome key (metadata.get key))
    node.config.toJson
  okOr (HttpClientNodeConfig.fromJson fields) (.nodeConfig node.id (w.serdeError fields))

/-- `value_to_display_string`. -/
def valueToDisplayString (showF64 : UInt64 → String) : Value → String
  | .null => ""
  | .string text => text
  | other => other.toText showF64

/-- `template::truncate`. -/
def truncateText (text : String) (limit : ℕ) : String :=
  let kept := String.ofList (text.toList.take limit)
  if limit < text.toList.length then kept.push '…' else kept

/-- `parse_json_or_string`. -/
def parseJsonOrString (w : Surroundings) (raw : String) : Value :=
  let trimmed := Text.trim raw
  if trimmed = "" then .null else (w.parseJson trimmed.toUTF8.toList).getD (.string trimmed)

/-- `send_http_request`. -/
def sendHttpRequest (w : Surroundings) (method url : String) (requestTimeoutMs : ℕ) :
    Except String (ℕ × Value) := do
  let response ← (w.send method url requestTimeoutMs).mapError fun error => s!"HTTP 请求失败: {error}"
  let body ← response.text.mapError fun error => s!"读取 HTTP 响应体失败: {error}"
  pure (response.status, parseJsonOrString w body)

/-- The status of a response from 400 on is an error. -/
def checkStatus (w : Surroundings) (statusCode : ℕ) (response : Value) : Except String Unit :=
  ensure (statusCode < 400)
    s!"HTTP 请求返回错误状态码 {statusCode}: {truncateText (valueToDisplayString w.showF64 response) 240}"

/-- A request without an address is marked as a failure. -/
def requireUrl (nodeId url : String) : Access Unit :=
  if url = "" then refuse nodeId "HTTP Client 节点需要配置 URL" else pure ()

/-- `transform`, up to the response. The body of the request is rendered without a failure. -/
def HttpClientNode.transform (node : HttpClientNode) (w : Surroundings) (traceId : ℕ)
    (lease : ConnectionLease) : Access Value := do
  let config ← ofExcept (node.resolveConfig w lease.metadata)
  let method := w.toUppercase (Text.trim config.method)
  let url := Text.trim config.url
  requireUrl node.id url
  let requestTimeoutMs := max config.requestTimeoutMs.toNat 500
  ofExcept ((w.parseMethod method).mapError fun error =>
    .nodeConfig node.id s!"无效的 HTTP 方法: {error}")
  let (statusCode, response) ← access (sendHttpRequest w method url requestTimeoutMs)
    (told node.id traceId verbatim)
  access (checkStatus w statusCode response) (told node.id traceId verbatim)
  markSuccess
  pure response

/-! ## Any of them -/

inductive BorrowingNode
  | modbusRead (node : ModbusReadNode)
  | deviceSignalRead (node : DeviceSignalReadNode)
  | capabilityCall (node : CapabilityCallNode) (call : BorrowedCall)
  | mqttClient (node : MqttClientNode)
  | httpClient (node : HttpClientNode)

/-- A transform whose output is left out. -/
def finish {α : Type} (x : Access α) : Access Unit := do
  let _ ← x
  pure ()

/-- A transform between its acquire and the drop of its guard. -/
def BorrowingNode.body (node : BorrowingNode) (w : Surroundings) (traceId : ℕ) (payload : Value)
    (lease : ConnectionLease) : Access Unit :=
  match node with
  | .modbusRead node => finish (node.transform w traceId lease)
  | .deviceSignalRead node => finish (node.transform w traceId lease)
  | .capabilityCall node (.modbusWrite register resolvedValue dataType bit byteOrder) => finish
      (node.executeModbusWrite w traceId lease register resolvedValue dataType bit byteOrder)
  | .capabilityCall node (.mqttPublish topic resolvedPayload) =>
      finish (node.executeMqttPublish w traceId lease topic resolvedPayload)
  | .capabilityCall node (.serialCommand command) =>
      finish (node.executeSerialCommand w traceId lease command)
  | .mqttClient node => finish (node.publishPayload w traceId payload lease)
  | .httpClient node => finish (node.transform w traceId lease)

end Nazh
