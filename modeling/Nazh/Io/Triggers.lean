import Nazh.Connections.Pool

/-!
# Trigger nodes

The nodes that keep something of a connection while they are deployed. `on_deploy` of the
listeners borrows the connection, looks at its kind and metadata, gives it back and starts a task;
that of `canRead` and `canWrite` obtains the shared session of the connection.

`portPath` stands for what serde makes of the metadata as a `SerialTriggerNodeConfig`, as far as it
is looked at: its `port_path`.
-/

namespace Nazh

inductive ListenerProtocol
  | mqtt
  | can
  | modbus
  | serial
  deriving DecidableEq, Repr

/-- A node whose `on_deploy` uses a connection. -/
inductive TriggerNode
  | serialTrigger (id connectionId : String)
  /-- `mqttClient` that subscribes. -/
  | mqttClient (id connectionId topic : String)
  /-- With the protocol of its signals, and the ids and topics of those that have a topic. -/
  | deviceEventTrigger (id connectionId : String) (protocol : ListenerProtocol)
      (topics : List (String × String))
  /-- `canRead` or `canWrite`. -/
  | canNode (id connectionId : String)
  deriving DecidableEq, Repr

/-- How the task of a listener uses its connection. -/
inductive ListenerKind
  /-- One lease for as long as it listens. -/
  | keeps
  /-- A lease for each poll. -/
  | polls
  /-- The shared CAN session. -/
  | shares
  deriving DecidableEq, Repr

/-- What `on_deploy` makes of a lease: how it marks the guard, whether it goes on to
`mark_invalid_configuration`, and what it returns. -/
structure LeaseLook where
  outcome : ConnectionOutcome
  invalid : Option String
  result : Except EngineError Unit

def ensureConnectionKind (connectionId actual : String) (allowed : List String) :
    Except EngineError Unit :=
  let actual := normalizeConnectionKind actual
  let expected := ", ".intercalate allowed
  if allowed.contains actual then .ok ()
  else .error (.connectionInvalidConfiguration connectionId
    s!"deviceEventTrigger 监听协议与连接类型不匹配，当前 type=\x60{actual}\x60，期望: {expected}")

def requiredStr (connectionId : String) (metadata : Value) (key label : String) :
    Except EngineError String :=
  let value := metadataText metadata key
  if value = "" then
    .error (.connectionInvalidConfiguration connectionId s!"{label} 连接需要配置 {key}")
  else .ok value

def requiredU64 (connectionId : String) (metadata : Value) (key label : String) :
    Except EngineError ℕ :=
  let value := metadataNumber metadata key
  if value = 0 then
    .error (.connectionInvalidConfiguration connectionId s!"{label} 连接需要配置有效的 {key}")
  else .ok value

/-- `required_u16` and `required_u8`, with the largest number allowed. -/
def requiredUpTo (bound : ℕ) (connectionId : String) (metadata : Value) (key label : String) :
    Except EngineError ℕ := do
  let value ← requiredU64 connectionId metadata key label
  if bound < value then
    .error (.connectionInvalidConfiguration connectionId s!"{label} 连接 {key} 必须在 1-{bound} 之间")
  else .ok value

namespace TriggerNode

def connectionId : TriggerNode → String
  | serialTrigger _ connectionId | mqttClient _ connectionId _
  | deviceEventTrigger _ connectionId _ _ | canNode _ connectionId => connectionId

/-- The kind of the task that a listener starts. -/
def listener : TriggerNode → Option ListenerKind
  | serialTrigger _ _ | mqttClient _ _ _ => some .keeps
  | deviceEventTrigger _ _ .mqtt _ | deviceEventTrigger _ _ .serial _ => some .keeps
  | deviceEventTrigger _ _ .modbus _ => some .polls
  | deviceEventTrigger _ _ .can _ => some .shares
  | canNode _ _ => none

/-- What `on_deploy` returns if `acquire` fails. -/
def acquireError (node : TriggerNode) (error : EngineError) : EngineError :=
  match node with
  | serialTrigger id connectionId =>
      .nodeConfig id s!"串口连接资源 \x60{connectionId}\x60 借出失败: {error.message}"
  | mqttClient id connectionId _ =>
      .nodeConfig id s!"MQTT 连接资源 \x60{connectionId}\x60 借出失败: {error.message}"
  | deviceEventTrigger _ _ _ _ | canNode _ _ => error

/-- `validate_listener_connection`, from the lease on. -/
def validateListenerConnection (id connectionId : String) (protocol : ListenerProtocol)
    (topics : List (String × String)) (lease : ConnectionLease) : Except EngineError Unit :=
  match protocol with
  | .mqtt => do
      ensureConnectionKind connectionId lease.kind ["mqtt"]
      let _ ← requiredStr connectionId lease.metadata "host" "MQTT"
      let _ ← requiredUpTo 65535 connectionId lease.metadata "port" "MQTT"
      match topics.find? fun (_, topic) => Text.trim topic == "" with
      | some (signalId, _) => .error (.nodeConfig id s!"signal \x60{signalId}\x60 MQTT topic 不能为空")
      | none => .ok ()
  | .can => do
      ensureConnectionKind connectionId lease.kind ["can", "can-slcan", "slcan"]
      let _ ← requiredStr connectionId lease.metadata "interface" "CAN"
      let _ ← requiredStr connectionId lease.metadata "channel" "CAN"
      let _ ← requiredU64 connectionId lease.metadata "baud_rate" "CAN"
      let _ ← requiredU64 connectionId lease.metadata "bitrate" "CAN"
      .ok ()
  | .modbus => do
      ensureConnectionKind connectionId lease.kind ["modbus", "modbus_tcp"]
      let _ ← requiredStr connectionId lease.metadata "host" "Modbus"
      let _ ← requiredUpTo 65535 connectionId lease.metadata "port" "Modbus"
      let _ ← requiredUpTo 255 connectionId lease.metadata "unit" "Modbus"
      .ok ()
  | .serial => do
      ensureConnectionKind connectionId lease.kind
        ["serial", "serialport", "serial_port", "uart", "rs232", "rs485"]
      let _ ← requiredStr connectionId lease.metadata "port_path" "串口"
      let _ ← requiredU64 connectionId lease.metadata "baud_rate" "串口"
      let _ ← requiredStr connectionId lease.metadata "delimiter" "串口"
      .ok ()

def isSerialConnectionKind (kind : String) : Bool :=
  ["serial", "serialport", "serial_port", "uart", "rs232", "rs485"].contains
    (normalizeConnectionKind kind)

/-- `on_deploy` of a node with a lease. -/
def look (portPath : Value → Except String String) (node : TriggerNode)
    (lease : ConnectionLease) : LeaseLook :=
  match node with
  | serialTrigger id connectionId =>
      if !isSerialConnectionKind lease.kind then
        let reason := s!"连接资源 \x60{connectionId}\x60 不是串口类型"
        ⟨.failure reason, some reason, .error (.nodeConfig id reason)⟩
      else match portPath lease.metadata with
        -- the guard is dropped without a mark
        | .error e => ⟨.pending, none, .error (.nodeConfig id e)⟩
        | .ok path =>
            if Text.trim path = "" then
              let reason := s!"串口连接资源 \x60{connectionId}\x60 需要配置 port_path"
              ⟨.failure reason, some reason, .error (.nodeConfig id reason)⟩
            else ⟨.success, none, .ok ()⟩
  | mqttClient id connectionId topic =>
      let text key := ((lease.metadata.get key).bind Value.asStr).getD ""
      if topic = "" ∧ text "topic" = "" then
        let reason := s!"MQTT 订阅节点 \x60{id}\x60 的主题不能为空"
        ⟨.failure reason, none, .error (.nodeConfig id reason)⟩
      else if text "host" = "" then
        let reason := s!"MQTT 连接资源 \x60{connectionId}\x60 缺少 host 配置"
        ⟨.failure reason, none, .error (.nodeConfig id reason)⟩
      else ⟨.success, none, .ok ()⟩
  | deviceEventTrigger id connectionId protocol topics =>
      -- marked before it is looked at
      ⟨.success, none, validateListenerConnection id connectionId protocol topics lease⟩
  | canNode _ _ => ⟨.success, none, .ok ()⟩

end TriggerNode
end Nazh
