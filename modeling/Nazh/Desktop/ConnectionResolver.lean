import Nazh.Dsl.Connection

/-!
# From a connection asset to a runtime definition

Before a deployment, the fields of an asset are written into the metadata that the connection
manager reads, then its governance, and then every secret under its own name. A secret takes the
place of a field of the same name.

`SecretStore` stands for the store of the machine.
-/

namespace Nazh

open Lib

/-- `load_connection_secret`: the value for a connection and a key, if there is one. -/
abbrev SecretStore := String → String → Except String (Option String)

def resolveSecretRef (connectionId secretRef : String) (store : Option SecretStore) :
    Except String String := do
  let key ← okOr (secretKey secretRef) s!"连接 \x60{connectionId}\x60 的密钥引用必须使用 secret:// 前缀"
  match store with
  | none => .error s!"连接 \x60{connectionId}\x60 需要密钥 \x60{key}\x60，但 Store 未就绪"
  | some load => do
      let secret ← (load connectionId key).mapError fun error =>
        s!"读取连接密钥失败 \x60{connectionId}/{key}\x60: {error}"
      okOr secret s!"连接 \x60{connectionId}\x60 缺少本机密钥 \x60{key}\x60"

def resolveHeaderValue (connectionId : String) (store : Option SecretStore) :
    HeaderValueSpec → Except String String
  | .literal value => .ok value
  | .secretRef id => resolveSecretRef connectionId id store

def jsonU64 (n : UInt64) : Value := .number (.posInt n)

/-- A number of a narrower type. -/
def jsonNat (n : ℕ) : Value := .number (.ofNat n)

def resolveConnectionKind : ConnectionProtocol → String
  | .modbusTcp .. => "modbus"
  | .serial .. => "serial"
  | .mqtt .. => "mqtt"
  | .http .. => "http"
  | .bark .. => "bark"
  | .canSlcan .. => "can-slcan"
  | .ethercat .. => "ethercat"

/-- The headers with their values. -/
def headerMap (connectionId : String) (store : Option SecretStore) (headers : List HeaderSpec) :
    Except String Fields :=
  headers.foldlM (fun map header => do
    let value ← resolveHeaderValue connectionId store header.value
    .ok (Fields.insert map header.name (.string value))) []

/-- The arms of `protocol_to_runtime_metadata`. -/
def protocolFields (connectionId : String) (store : Option SecretStore) :
    ConnectionProtocol → Except String Fields
  | .modbusTcp host port unitId =>
      let m := Fields.insert [] "host" (.string host)
      let m := m.insert "port" (jsonNat port.toNat)
      .ok (m.insertSome "unit_id" (unitId.map fun u => jsonNat u.toNat))
  | .serial portPath baudRate dataBits parity stopBits flowControl encoding delimiter
      readTimeoutMs idleGapMs maxFrameBytes trim =>
      let m := Fields.insert [] "port_path" (.string portPath)
      let m := m.insert "baud_rate" (jsonNat baudRate.toNat)
      let m := m.insert "data_bits" (jsonNat dataBits.toNat)
      let m := m.insert "parity" (.string parity.name)
      let m := m.insert "stop_bits" (jsonNat stopBits.toNat)
      let m := m.insert "flow_control" (.string flowControl.name)
      let m := m.insertSome "encoding" (encoding.map .string)
      let m := m.insertSome "delimiter" (delimiter.map .string)
      let m := m.insertSome "read_timeout_ms" (readTimeoutMs.map jsonU64)
      let m := m.insertSome "idle_gap_ms" (idleGapMs.map jsonU64)
      let m := m.insertSome "max_frame_bytes" (maxFrameBytes.map jsonU64)
      .ok (m.insertSome "trim" (trim.map .bool))
  | .mqtt host port topic clientId =>
      let m := Fields.insert [] "host" (.string host)
      let m := m.insert "port" (jsonNat port.toNat)
      let m := m.insert "topic" (.string topic)
      .ok (m.insertSome "client_id" (clientId.map .string))
  | .http url method headers => do
      let m := Fields.insert [] "url" (.string url)
      let m := m.insert "method" (.string method.name)
      let headerMap ← headerMap connectionId store headers
      .ok (if headerMap.isEmpty then m else m.insert "headers" (.object headerMap))
  | .bark serverUrl requestTimeoutMs =>
      let m := Fields.insert [] "server_url" (.string serverUrl)
      .ok (m.insertSome "request_timeout_ms" (requestTimeoutMs.map jsonU64))
  | .canSlcan channel baudRate bitrate =>
      let m := Fields.insert [] "interface" (.string "slcan")
      let m := m.insert "channel" (.string channel)
      let m := m.insert "baud_rate" (jsonNat baudRate.toNat)
      .ok (m.insert "bitrate" (jsonNat bitrate.toNat))
  | .ethercat backend interface cycleTimeMs cycleTimeUs dcSync0PeriodUs dcSync0ShiftUs
      dcStartDelayUs opTimeoutMs =>
      let m := Fields.insert [] "backend" (.string backend.name)
      let m := m.insert "interface" (.string interface)
      let m := m.insert "cycle_time_ms" (jsonU64 cycleTimeMs)
      let m := m.insertSome "cycle_time_us" (cycleTimeUs.map jsonU64)
      let m := m.insertSome "dc_sync0_period_us" (dcSync0PeriodUs.map jsonU64)
      let m := m.insertSome "dc_sync0_shift_us" (dcSync0ShiftUs.map jsonU64)
      let m := m.insertSome "dc_start_delay_us" (dcStartDelayUs.map jsonU64)
      .ok (m.insert "op_timeout_ms" (jsonU64 opTimeoutMs))

/-- `protocol_to_runtime_metadata`. -/
def protocolToRuntimeMetadata (connectionId : String) (protocol : ConnectionProtocol)
    (store : Option SecretStore) : Except String (String × Fields) := do
  let metadata ← protocolFields connectionId store protocol
  .ok (resolveConnectionKind protocol, metadata)

/-- How the governance of an asset is serialized. -/
def ConnectionGovernanceSpec.toJson (g : ConnectionGovernanceSpec) : Value :=
  let m := Fields.insert [] "connect_timeout_ms" (jsonU64 g.connectTimeoutMs)
  let m := m.insert "operation_timeout_ms" (jsonU64 g.operationTimeoutMs)
  let m := m.insert "heartbeat_interval_ms" (jsonU64 g.heartbeatIntervalMs)
  let m := m.insert "heartbeat_timeout_ms" (jsonU64 g.heartbeatTimeoutMs)
  let m := m.insert "rate_limit_max_attempts" (jsonNat g.rateLimitMaxAttempts.toNat)
  let m := m.insert "rate_limit_window_ms" (jsonU64 g.rateLimitWindowMs)
  let m := m.insert "rate_limit_cooldown_ms" (jsonU64 g.rateLimitCooldownMs)
  let m := m.insert "circuit_failure_threshold" (jsonNat g.circuitFailureThreshold.toNat)
  let m := m.insert "circuit_open_ms" (jsonU64 g.circuitOpenMs)
  let m := m.insert "reconnect_base_ms" (jsonU64 g.reconnectBaseMs)
  .object (m.insert "reconnect_max_ms" (jsonU64 g.reconnectMaxMs))

def insertGovernanceMetadata (metadata : Fields) (governance : ConnectionGovernanceSpec) : Fields :=
  metadata.insert "governance" governance.toJson

def insertSecretMetadata (connectionId : String) (store : Option SecretStore)
    (entries : List (String × String)) (metadata : Fields) : Except String Fields :=
  entries.foldlM (fun metadata (key, secretRef) => do
    let value ← resolveSecretRef connectionId secretRef store
    .ok (metadata.insert key (.string value))) metadata

/-- The kind and the metadata of an asset, without what is overridden on the machine. -/
def ConnectionSpec.runtimeDefinition (spec : ConnectionSpec) (store : Option SecretStore) :
    Except String (String × Fields) := do
  let (kind, metadata) ← protocolToRuntimeMetadata spec.id spec.protocol store
  let metadata ← insertSecretMetadata spec.id store spec.secrets.entries
    (insertGovernanceMetadata metadata spec.governance)
  .ok (kind, metadata)

/-! ## What the metadata has -/

/-- The value of the secret of a name, if the asset has one that resolves. -/
def ConnectionSpec.secretValue (spec : ConnectionSpec) (store : Option SecretStore)
    (key : String) : Option String :=
  (spec.secrets.entries.lookup key).bind fun secretRef =>
    (resolveSecretRef spec.id secretRef store).toOption

/-- Under the name of a secret the metadata has its value. -/
theorem lookup_insertSecretMetadata {connectionId : String} {store : Option SecretStore}
    {entries : List (String × String)} {metadata metadata' : Fields}
    (hnodup : (entries.map Prod.fst).Nodup)
    (h : insertSecretMetadata connectionId store entries metadata = .ok metadata') (key : String) :
    metadata'.lookup key = (((entries.lookup key).bind fun secretRef =>
      (resolveSecretRef connectionId secretRef store).toOption).map Value.string).or
        (metadata.lookup key) := by
  induction entries generalizing metadata with
  | nil =>
      obtain rfl := Except.ok.inj h
      rfl
  | cons entry rest ih =>
      obtain ⟨name, secretRef⟩ := entry
      rw [List.map_cons, List.nodup_cons] at hnodup
      rw [insertSecretMetadata, List.foldlM_cons] at h
      obtain ⟨inserted, hstep, hrest⟩ := bind_eq_ok.mp h
      obtain ⟨value, hvalue, hinsert⟩ := bind_eq_ok.mp hstep
      obtain rfl := Except.ok.inj hinsert
      rw [ih hnodup.2 hrest, List.lookup_cons]
      by_cases hkey : key = name
      · subst hkey
        have hnone : rest.lookup key = none := by
          rw [List.lookup_eq_none_iff]
          intro entry hentry
          rw [bne_iff_ne]
          intro heq
          exact hnodup.1 (List.mem_map.mpr ⟨entry, hentry, heq.symm⟩)
        simp [hnone, hvalue, Except.toOption]
      · rw [Fields.lookup_insert_of_ne _ _ hkey, beq_eq_false_iff_ne.mpr hkey]

/-- The metadata of an asset: its secrets, before its governance and its protocol. -/
theorem lookup_runtimeDefinition {spec : ConnectionSpec} {store : Option SecretStore}
    {kind : String} {metadata : Fields} (h : spec.runtimeDefinition store = .ok (kind, metadata)) :
    ∃ base, protocolToRuntimeMetadata spec.id spec.protocol store = .ok (kind, base) ∧
      ∀ key, metadata.lookup key = ((spec.secretValue store key).map Value.string).or
        ((insertGovernanceMetadata base spec.governance).lookup key) := by
  rw [ConnectionSpec.runtimeDefinition] at h
  obtain ⟨⟨kind', base⟩, hbase, hrest⟩ := bind_eq_ok.mp h
  obtain ⟨metadata', hsecrets, hresult⟩ := bind_eq_ok.mp hrest
  obtain ⟨rfl, rfl⟩ := Prod.mk.inj (Except.ok.inj hresult)
  exact ⟨base, hbase, lookup_insertSecretMetadata spec.secrets.nodup hsecrets⟩

end Nazh
