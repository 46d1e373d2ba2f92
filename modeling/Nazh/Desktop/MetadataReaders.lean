import Nazh.Desktop.ConnectionResolver
import Nazh.Io.Listeners

/-!
# Who reads the metadata of a Modbus connection

The resolver writes the unit of an asset under `unit_id`. A `capabilityCall` reads it there; a
`deviceSignalRead` and the poll loop of a `deviceEventTrigger` look under `unit`. The governance is
read back under its own names, but no setting is read as less than its least value.
-/

namespace Nazh

open Lib

/-! ## Readers -/

/-- Where `deviceSignalRead` finds a register. -/
structure RegisterParams where
  host : String
  port : UInt16
  unitId : UInt8
  deriving DecidableEq, Repr

namespace DeviceSignalReadNode

/-- `extract_register_params`, of the metadata. -/
def extractRegisterParams (node : DeviceSignalReadNode) (metadata : Value) :
    Except EngineError RegisterParams := do
  let host := ((metadata.get "host").bind Value.asStr).getD ""
  let port ← modbusPort node.id metadata
  let unitId := ((metadata.get "unit").bind Value.toU8).getD 1
  .ok ⟨host, port, unitId⟩

end DeviceSignalReadNode

/-- Two settings of the policy that nothing in the pool reads. -/
def connectTimeoutMs (metadata : Value) : ℕ :=
  max (governanceU64 metadata "connect_timeout_ms" 3000) 200

def heartbeatIntervalMs (metadata : Value) : ℕ :=
  max (governanceU64 metadata "heartbeat_interval_ms" 3000) 250

/-! ## What they should see -/

/-- All readers of a unit see `u`. -/
structure UnitReaches (u : UInt8) (metadata : Value) : Prop where
  signalRead : ∀ node : DeviceSignalReadNode,
    (node.extractRegisterParams metadata).map RegisterParams.unitId = .ok u
  poll : ModbusPoll.extractUnitId metadata = .ok u
  capability : ∀ nodeId, requiredMetadataU8 metadata "unit_id" nodeId "Modbus" = .ok u

/-- The policy read from the metadata has the settings of the asset. -/
structure GovernanceReadBack (g : ConnectionGovernanceSpec) (metadata : Value) : Prop where
  connect : connectTimeoutMs metadata = g.connectTimeoutMs.toNat
  heartbeat : heartbeatIntervalMs metadata = g.heartbeatIntervalMs.toNat
  policy : ConnectionGovernancePolicy.fromMetadata metadata =
    ⟨g.operationTimeoutMs.toNat, g.heartbeatTimeoutMs.toNat, g.rateLimitMaxAttempts.toNat,
      g.rateLimitWindowMs.toNat, g.rateLimitCooldownMs.toNat, g.circuitFailureThreshold.toNat,
      g.circuitOpenMs.toNat, g.reconnectBaseMs.toNat, g.reconnectMaxMs.toNat⟩

/-- Every setting is at least what is read at least. -/
structure ConnectionGovernanceSpec.InRange (g : ConnectionGovernanceSpec) : Prop where
  connect : 200 ≤ g.connectTimeoutMs.toNat
  operation : 200 ≤ g.operationTimeoutMs.toNat
  heartbeatInterval : 250 ≤ g.heartbeatIntervalMs.toNat
  heartbeatTimeout : 500 ≤ g.heartbeatTimeoutMs.toNat
  maxAttempts : 1 ≤ g.rateLimitMaxAttempts.toNat
  window : 500 ≤ g.rateLimitWindowMs.toNat
  cooldown : 500 ≤ g.rateLimitCooldownMs.toNat
  threshold : 1 ≤ g.circuitFailureThreshold.toNat
  circuit : 1000 ≤ g.circuitOpenMs.toNat
  base : 200 ≤ g.reconnectBaseMs.toNat
  reconnect : 500 ≤ g.reconnectMaxMs.toNat

/-! ## What they see -/

section

variable (metadata : Fields) (g : ConnectionGovernanceSpec) (key : String) (fallback : ℕ)

/-- A setting is looked for in the governance of the asset. -/
theorem governanceValue_insert : governanceValue (.object (insertGovernanceMetadata metadata g)) key =
    g.toJson.get key := by
  rw [governanceValue, insertGovernanceMetadata, Value.asObject, Option.bind_some,
    Fields.lookup_insert_self, Option.bind_some, Value.get]

variable {metadata g key fallback}

theorem governanceU64_insert {n : UInt64} (h : g.toJson.get key = some (jsonU64 n)) :
    governanceU64 (.object (insertGovernanceMetadata metadata g)) key fallback = n.toNat := by
  rw [governanceU64, governanceValue_insert, h]
  rfl

theorem governanceU32_insert {n : UInt32} (h : g.toJson.get key = some (jsonNat n.toNat)) :
    governanceU32 (.object (insertGovernanceMetadata metadata g)) key fallback = n.toNat := by
  rw [governanceU32, governanceValue_insert, h, Option.bind_some, jsonNat, Value.toU32_posInt]
  rfl

/-- A governance is read back if and only if its settings are in range. -/
theorem governanceReadBack_iff :
    GovernanceReadBack g (.object (insertGovernanceMetadata metadata g)) ↔ g.InRange := by
  have hconnect : connectTimeoutMs (.object (insertGovernanceMetadata metadata g)) =
      max g.connectTimeoutMs.toNat 200 := by
    rw [connectTimeoutMs, governanceU64_insert]
    simp [ConnectionGovernanceSpec.toJson, Value.get, Value.asObject, Fields.lookup_insert_of_ne]
  have hheartbeat : heartbeatIntervalMs (.object (insertGovernanceMetadata metadata g)) =
      max g.heartbeatIntervalMs.toNat 250 := by
    rw [heartbeatIntervalMs, governanceU64_insert]
    simp [ConnectionGovernanceSpec.toJson, Value.get, Value.asObject, Fields.lookup_insert_of_ne]
  have hpolicy : ConnectionGovernancePolicy.fromMetadata
      (.object (insertGovernanceMetadata metadata g)) =
      ⟨max g.operationTimeoutMs.toNat 200, max g.heartbeatTimeoutMs.toNat 500,
        max g.rateLimitMaxAttempts.toNat 1, max g.rateLimitWindowMs.toNat 500,
        max g.rateLimitCooldownMs.toNat 500, max g.circuitFailureThreshold.toNat 1,
        max g.circuitOpenMs.toNat 1000, max g.reconnectBaseMs.toNat 200,
        max g.reconnectMaxMs.toNat 500⟩ := by
    rw [ConnectionGovernancePolicy.fromMetadata, governanceU64_insert (n := g.operationTimeoutMs),
      governanceU64_insert (n := g.heartbeatTimeoutMs),
      governanceU32_insert (n := g.rateLimitMaxAttempts),
      governanceU64_insert (n := g.rateLimitWindowMs),
      governanceU64_insert (n := g.rateLimitCooldownMs),
      governanceU32_insert (n := g.circuitFailureThreshold),
      governanceU64_insert (n := g.circuitOpenMs), governanceU64_insert (n := g.reconnectBaseMs),
      governanceU64_insert (n := g.reconnectMaxMs)]
    all_goals
      simp [ConnectionGovernanceSpec.toJson, Value.get, Value.asObject, Fields.lookup_insert_of_ne]
  constructor
  · rintro ⟨h₁, h₂, h₃⟩
    rw [hconnect] at h₁
    rw [hheartbeat] at h₂
    rw [hpolicy, ConnectionGovernancePolicy.mk.injEq] at h₃
    simp only [max_eq_left_iff] at h₁ h₂ h₃
    obtain ⟨hop, htimeout, hmax, hwindow, hcooldown, hthreshold, hopen, hbase, hreconnect⟩ := h₃
    exact ⟨h₁, hop, h₂, htimeout, hmax, hwindow, hcooldown, hthreshold, hopen, hbase, hreconnect⟩
  · intro h
    refine ⟨?_, ?_, ?_⟩
    · rw [hconnect, max_eq_left h.connect]
    · rw [hheartbeat, max_eq_left h.heartbeatInterval]
    · rw [hpolicy, max_eq_left h.operation, max_eq_left h.heartbeatTimeout,
        max_eq_left h.maxAttempts, max_eq_left h.window, max_eq_left h.cooldown,
        max_eq_left h.threshold, max_eq_left h.circuit, max_eq_left h.base,
        max_eq_left h.reconnect]

end

/-! ## Modbus assets -/

/-- The metadata of a Modbus asset with a unit. -/
def modbusMetadata (host : String) (port : UInt16) (u : UInt8) (g : ConnectionGovernanceSpec) :
    Value :=
  .object (insertGovernanceMetadata
    (((Fields.insert [] "host" (.string host)).insert "port" (jsonNat port.toNat)).insert
      "unit_id" (jsonNat u.toNat)) g)

section

variable {host : String} {port : UInt16} {u : UInt8} {g : ConnectionGovernanceSpec}

theorem get_modbusMetadata {key : String} (hkey : key ≠ "governance") :
    (modbusMetadata host port u g).get key =
      (((Fields.insert [] "host" (.string host)).insert "port" (jsonNat port.toNat)).insert
        "unit_id" (jsonNat u.toNat)).lookup key :=
  Fields.lookup_insert_of_ne _ _ hkey

/-- Nothing is there under the name that two of the readers look for. -/
theorem get_unit : (modbusMetadata host port u g).get "unit" = none := by
  rw [get_modbusMetadata (by decide)]
  simp [Fields.lookup_insert_of_ne]

theorem modbusPort_modbusMetadata (nodeId : String) :
    modbusPort nodeId (modbusMetadata host port u g) = .ok port := by
  have hport : (modbusMetadata host port u g).get "port" = some (jsonNat port.toNat) := by
    rw [get_modbusMetadata (by decide)]
    simp [Fields.lookup_insert_of_ne]
  rw [modbusPort, hport, Option.bind_some, jsonNat, Value.toU16_posInt]
  rfl

/-- `deviceSignalRead` falls back to the first slave. -/
theorem extractRegisterParams_modbusMetadata (node : DeviceSignalReadNode) :
    node.extractRegisterParams (modbusMetadata host port u g) = .ok ⟨host, port, 1⟩ := by
  have hhost : (modbusMetadata host port u g).get "host" = some (.string host) := by
    rw [get_modbusMetadata (by decide)]
    simp [Fields.lookup_insert_of_ne]
  rw [DeviceSignalReadNode.extractRegisterParams, hhost, modbusPort_modbusMetadata, get_unit]
  rfl

/-- The poll loop refuses the metadata. -/
theorem extractUnitId_modbusMetadata : ModbusPoll.extractUnitId (modbusMetadata host port u g) =
    .error "Modbus 连接元数据缺少有效的 unit" := by
  rw [ModbusPoll.extractUnitId, get_unit]
  rfl

/-- A `capabilityCall` finds the unit. -/
theorem requiredMetadataU8_modbusMetadata (nodeId : String) :
    requiredMetadataU8 (modbusMetadata host port u g) "unit_id" nodeId "Modbus" = .ok u := by
  have hunit : (modbusMetadata host port u g).get "unit_id" = some (jsonNat u.toNat) := by
    rw [get_modbusMetadata (by decide)]
    exact Fields.lookup_insert_self _ _ _
  rw [requiredMetadataU8, metadataUnsigned, hunit]
  exact okOr_eq_ok.mpr (Value.toU8_posInt u)

end

/-- The unit of an asset reaches one of its three readers: `deviceSignalRead` asks slave 1, and the
poll loop refuses the metadata. Its governance is read back if it is in range. -/
theorem unit_never_reaches (connectionId host : String) (port : UInt16) (u : UInt8)
    (g : ConnectionGovernanceSpec) (store : Option SecretStore) :
    ∃ base, protocolToRuntimeMetadata connectionId (.modbusTcp host port (some u)) store =
        .ok ("modbus", base) ∧
      ¬ (UnitReaches u (.object (insertGovernanceMetadata base g)) ∧
        GovernanceReadBack g (.object (insertGovernanceMetadata base g))) ∧
      (∀ node : DeviceSignalReadNode,
        node.extractRegisterParams (.object (insertGovernanceMetadata base g)) =
          .ok ⟨host, port, 1⟩) ∧
      ModbusPoll.extractUnitId (.object (insertGovernanceMetadata base g)) =
        .error "Modbus 连接元数据缺少有效的 unit" ∧
      (∀ nodeId, requiredMetadataU8 (.object (insertGovernanceMetadata base g)) "unit_id" nodeId
        "Modbus" = .ok u) ∧
      (GovernanceReadBack g (.object (insertGovernanceMetadata base g)) ↔ g.InRange) := by
  refine ⟨_, rfl, ?_, extractRegisterParams_modbusMetadata, extractUnitId_modbusMetadata,
    requiredMetadataU8_modbusMetadata, governanceReadBack_iff⟩
  rintro ⟨hreaches, -⟩
  cases extractUnitId_modbusMetadata.symm.trans hreaches.poll

/-- The slave of an asset is the third one, and its connect timeout 100 ms. A signal is read from
the first slave, nothing is polled, and the timeout is read as 200 ms. -/
theorem slave_three_lost : ∃ base, protocolToRuntimeMetadata "plc"
      (.modbusTcp "10.0.0.5" 502 (some 3)) none = .ok ("modbus", base) ∧
    ((⟨"read", "plc", .register 40 .u16 none, none⟩ : DeviceSignalReadNode).extractRegisterParams
      (.object (insertGovernanceMetadata base
        ⟨100, 5000, 3000, 12000, 8, 10000, 4000, 3, 15000, 800, 8000⟩))).map
        RegisterParams.unitId = .ok 1 ∧
    (ModbusPoll.extractUnitId (.object (insertGovernanceMetadata base
      ⟨100, 5000, 3000, 12000, 8, 10000, 4000, 3, 15000, 800, 8000⟩))).isOk = false ∧
    connectTimeoutMs (.object (insertGovernanceMetadata base
      ⟨100, 5000, 3000, 12000, 8, 10000, 4000, 3, 15000, 800, 8000⟩)) = 200 :=
  ⟨_, rfl, by decide, by decide, by decide⟩

end Nazh
