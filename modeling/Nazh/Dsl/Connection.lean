import Nazh.Core.Text
import Nazh.Json.Value
import Nazh.Lib.Except

/-!
# Connection assets

A connection asset says how a device is reached, how the connection is governed and which secrets
it needs. The numbers have the widths of the source.
-/

namespace Nazh

open Lib

/-! ## Assets -/

inductive SerialParity
  | none
  | odd
  | even
  deriving DecidableEq, Repr

inductive SerialFlowControl
  | none
  | software
  | hardware
  deriving DecidableEq, Repr

inductive HttpMethod
  | get
  | post
  | put
  | patch
  | delete
  deriving DecidableEq, Repr

inductive EthercatBackend
  | ethercrab
  | mock
  deriving DecidableEq, Repr

/-- How the enumerations are serialized. -/
def SerialParity.name : SerialParity → String
  | none => "none"
  | odd => "odd"
  | even => "even"

def SerialFlowControl.name : SerialFlowControl → String
  | none => "none"
  | software => "software"
  | hardware => "hardware"

def HttpMethod.name : HttpMethod → String
  | get => "GET"
  | post => "POST"
  | put => "PUT"
  | patch => "PATCH"
  | delete => "DELETE"

def EthercatBackend.name : EthercatBackend → String
  | ethercrab => "ethercrab"
  | mock => "mock"

/-- Where the value of a header comes from. -/
inductive HeaderValueSpec
  | literal (value : String)
  | secretRef (id : String)
  deriving DecidableEq, Repr

structure HeaderSpec where
  name : String
  value : HeaderValueSpec
  deriving DecidableEq, Repr

/-- How a device is reached. -/
inductive ConnectionProtocol
  | modbusTcp (host : String) (port : UInt16) (unitId : Option UInt8)
  | serial (portPath : String) (baudRate : UInt32) (dataBits : UInt8) (parity : SerialParity)
      (stopBits : UInt8) (flowControl : SerialFlowControl) (encoding delimiter : Option String)
      (readTimeoutMs idleGapMs maxFrameBytes : Option UInt64) (trim : Option Bool)
  | mqtt (host : String) (port : UInt16) (topic : String) (clientId : Option String)
  | http (url : String) (method : HttpMethod) (headers : List HeaderSpec)
  | bark (serverUrl : String) (requestTimeoutMs : Option UInt64)
  | canSlcan (channel : String) (baudRate bitrate : UInt32)
  | ethercat (backend : EthercatBackend) (interface : String) (cycleTimeMs : UInt64)
      (cycleTimeUs dcSync0PeriodUs dcSync0ShiftUs dcStartDelayUs : Option UInt64)
      (opTimeoutMs : UInt64)
  deriving DecidableEq, Repr

structure ConnectionGovernanceSpec where
  connectTimeoutMs : UInt64
  operationTimeoutMs : UInt64
  heartbeatIntervalMs : UInt64
  heartbeatTimeoutMs : UInt64
  rateLimitMaxAttempts : UInt32
  rateLimitWindowMs : UInt64
  rateLimitCooldownMs : UInt64
  circuitFailureThreshold : UInt32
  circuitOpenMs : UInt64
  reconnectBaseMs : UInt64
  reconnectMaxMs : UInt64
  deriving DecidableEq, Repr

/-- The secrets of a connection: what each is for, in order, and its reference. -/
structure ConnectionSecretRefs where
  entries : List (String × String)
  ordered : entries.Pairwise fun a b => a.1 < b.1

/-- No two secrets are for the same. -/
theorem ConnectionSecretRefs.nodup (secrets : ConnectionSecretRefs) :
    (secrets.entries.map Prod.fst).Nodup := by
  rw [List.Nodup, List.pairwise_map]
  refine secrets.ordered.imp ?_
  intro a b hlt heq
  exact String.lt_irrefl _ (heq ▸ hlt)

/-- An asset, without its labels and description. -/
structure ConnectionSpec where
  id : String
  protocol : ConnectionProtocol
  governance : ConnectionGovernanceSpec
  secrets : ConnectionSecretRefs

/-! ## The checks of a field -/

/-- `DslError::Validation`. -/
structure DslError where
  context : String
  detail : String
  deriving DecidableEq, Repr

def validationError (context detail : String) : Except DslError Unit :=
  .error ⟨s!"connection \x60{context}\x60", detail⟩

def validateNonEmpty (context field value : String) : Except DslError Unit :=
  if Text.trim value == "" then validationError context s!"{field} 不能为空" else .ok ()

def validatePort (connectionId field : String) (value : UInt16) : Except DslError Unit :=
  if value == 0 then validationError connectionId s!"{field} 必须在 1-65535 之间" else .ok ()

def validatePositiveU32 (connectionId field : String) (value : UInt32) : Except DslError Unit :=
  if value == 0 then validationError connectionId s!"{field} 必须大于 0" else .ok ()

def validatePositiveU64 (connectionId field : String) (value : UInt64) : Except DslError Unit :=
  if value == 0 then validationError connectionId s!"{field} 必须大于 0" else .ok ()

/-- `validate_positive_u64` of a field that is there. -/
def validateOptional (connectionId field : String) : Option UInt64 → Except DslError Unit
  | some value => validatePositiveU64 connectionId field value
  | none => .ok ()

def canBitrates : List UInt32 :=
  [10000, 20000, 50000, 100000, 125000, 250000, 500000, 800000, 1000000]

def validateCanBitrate (connectionId : String) (bitrate : UInt32) : Except DslError Unit :=
  if canBitrates.contains bitrate then .ok ()
  else validationError connectionId "protocol.bitrate 不在支持的 CAN 速率列表中"

def validateSerialFrameParams (connectionId : String) (dataBits stopBits : UInt8) :
    Except DslError Unit :=
  if !(5 ≤ dataBits && dataBits ≤ 8) then
    validationError connectionId "protocol.data_bits 必须在 5-8 之间"
  else if !(stopBits == 1 || stopBits == 2) then
    validationError connectionId "protocol.stop_bits 只能是 1 或 2"
  else .ok ()

def validateEthercatParams (connectionId interface : String) (cycleTimeMs : UInt64)
    (cycleTimeUs dcSync0PeriodUs dcStartDelayUs : Option UInt64) (opTimeoutMs : UInt64)
    (backend : EthercatBackend) (dcSync0ShiftUs : Option UInt64) : Except DslError Unit := do
  validateNonEmpty connectionId "protocol.interface" interface
  validatePositiveU64 connectionId "protocol.cycle_time_ms" cycleTimeMs
  validateOptional connectionId "protocol.cycle_time_us" cycleTimeUs
  validateOptional connectionId "protocol.dc_sync0_period_us" dcSync0PeriodUs
  validateOptional connectionId "protocol.dc_start_delay_us" dcStartDelayUs
  validatePositiveU64 connectionId "protocol.op_timeout_ms" opTimeoutMs
  match backend with
  | .ethercrab =>
      if dcSync0PeriodUs.isNone then
        validationError connectionId "protocol.dc_sync0_period_us（ethercrab 后端必填）"
      else if dcSync0ShiftUs.isNone then
        validationError connectionId "protocol.dc_sync0_shift_us（ethercrab 后端必填）"
      else if dcStartDelayUs.isNone then
        validationError connectionId "protocol.dc_start_delay_us（ethercrab 后端必填）"
      else .ok ()
  | .mock => .ok ()

def isSensitiveHeader (name : String) : Bool :=
  ["authorization", "proxy-authorization", "cookie", "x-api-key", "api-key"].contains
    (Text.toAsciiLowercase (Text.trim name))

/-- The text after `secret://`, if a reference starts so. -/
def secretKey (secretRef : String) : Option String :=
  if "secret://".toList <+: secretRef.toList then some (String.ofList (secretRef.toList.drop 9))
  else none

def validateSecretRef (connectionId value : String) : Except DslError Unit := do
  validateNonEmpty connectionId "secret-ref" value
  if (secretKey value).isNone then
    validationError connectionId "密钥引用必须使用 secret:// 前缀"
  else .ok ()

/-- `validate_headers` of one header. -/
def validateHeader (connectionId : String) (header : HeaderSpec) : Except DslError Unit := do
  validateNonEmpty connectionId "protocol.headers.name" header.name
  match header.value with
  | .literal value =>
      validateNonEmpty connectionId "protocol.headers.value" value
      if isSensitiveHeader header.name then
        validationError connectionId "敏感 HTTP Header 必须使用 secret-ref，不能写明文 literal"
      else .ok ()
  | .secretRef id => validateSecretRef connectionId id

/-! ## The check of an asset -/

def ConnectionProtocol.validate (connectionId : String) :
    ConnectionProtocol → Except DslError Unit
  | modbusTcp host port _ => do
      validateNonEmpty connectionId "protocol.host" host
      validatePort connectionId "protocol.port" port
  | serial portPath baudRate dataBits _ stopBits _ _ _ readTimeoutMs idleGapMs maxFrameBytes _ => do
      validateNonEmpty connectionId "protocol.port_path" portPath
      validatePositiveU32 connectionId "protocol.baud_rate" baudRate
      validateSerialFrameParams connectionId dataBits stopBits
      validateOptional connectionId "protocol.read_timeout_ms" readTimeoutMs
      validateOptional connectionId "protocol.idle_gap_ms" idleGapMs
      validateOptional connectionId "protocol.max_frame_bytes" maxFrameBytes
  | mqtt host port topic _ => do
      validateNonEmpty connectionId "protocol.host" host
      validatePort connectionId "protocol.port" port
      validateNonEmpty connectionId "protocol.topic" topic
  | http url _ headers => do
      validateNonEmpty connectionId "protocol.url" url
      headers.forM (validateHeader connectionId)
  | bark serverUrl requestTimeoutMs => do
      validateNonEmpty connectionId "protocol.server_url" serverUrl
      validateOptional connectionId "protocol.request_timeout_ms" requestTimeoutMs
  | canSlcan channel baudRate bitrate => do
      validateNonEmpty connectionId "protocol.channel" channel
      validatePositiveU32 connectionId "protocol.baud_rate" baudRate
      validateCanBitrate connectionId bitrate
  | ethercat backend interface cycleTimeMs cycleTimeUs dcSync0PeriodUs dcSync0ShiftUs
      dcStartDelayUs opTimeoutMs =>
      validateEthercatParams connectionId interface cycleTimeMs cycleTimeUs dcSync0PeriodUs
        dcStartDelayUs opTimeoutMs backend dcSync0ShiftUs

def ConnectionGovernanceSpec.validate (connectionId : String) (g : ConnectionGovernanceSpec) :
    Except DslError Unit := do
  validatePositiveU64 connectionId "governance.connect_timeout_ms" g.connectTimeoutMs
  validatePositiveU64 connectionId "governance.operation_timeout_ms" g.operationTimeoutMs
  validatePositiveU64 connectionId "governance.heartbeat_interval_ms" g.heartbeatIntervalMs
  validatePositiveU64 connectionId "governance.heartbeat_timeout_ms" g.heartbeatTimeoutMs
  validatePositiveU32 connectionId "governance.rate_limit_max_attempts" g.rateLimitMaxAttempts
  validatePositiveU64 connectionId "governance.rate_limit_window_ms" g.rateLimitWindowMs
  validatePositiveU64 connectionId "governance.rate_limit_cooldown_ms" g.rateLimitCooldownMs
  validatePositiveU32 connectionId "governance.circuit_failure_threshold" g.circuitFailureThreshold
  validatePositiveU64 connectionId "governance.circuit_open_ms" g.circuitOpenMs
  validatePositiveU64 connectionId "governance.reconnect_base_ms" g.reconnectBaseMs
  validatePositiveU64 connectionId "governance.reconnect_max_ms" g.reconnectMaxMs
  if g.heartbeatTimeoutMs ≤ g.heartbeatIntervalMs then
    validationError connectionId "governance.heartbeat_timeout_ms 必须大于 heartbeat_interval_ms"
  else if g.reconnectMaxMs < g.reconnectBaseMs then
    validationError connectionId "governance.reconnect_max_ms 必须大于等于 reconnect_base_ms"
  else .ok ()

def validateSecretRefs (connectionId : String) (secrets : ConnectionSecretRefs) :
    Except DslError Unit :=
  secrets.entries.forM fun (key, value) => do
    validateNonEmpty connectionId "secrets.key" key
    validateSecretRef connectionId value

/-- The check of an asset. -/
def ConnectionSpec.validate (spec : ConnectionSpec) : Except DslError Unit := do
  validateNonEmpty "connection" "id" spec.id
  spec.protocol.validate spec.id
  spec.governance.validate spec.id
  validateSecretRefs spec.id spec.secrets

/-! ## What passes -/

section

variable {context field value : String}

theorem validateNonEmpty_eq_ok :
    validateNonEmpty context field value = .ok () ↔ Text.trim value ≠ "" := by
  rw [validateNonEmpty]
  by_cases h : Text.trim value = ""
  · simp [h, validationError]
  · simp [h]

theorem validatePort_eq_ok {port : UInt16} :
    validatePort context field port = .ok () ↔ port ≠ 0 := by
  rw [validatePort]
  by_cases h : port = 0
  · simp [h, validationError]
  · simp [h]

theorem validatePositiveU32_eq_ok {n : UInt32} :
    validatePositiveU32 context field n = .ok () ↔ n ≠ 0 := by
  rw [validatePositiveU32]
  by_cases h : n = 0
  · simp [h, validationError]
  · simp [h]

theorem validatePositiveU64_eq_ok {n : UInt64} :
    validatePositiveU64 context field n = .ok () ↔ n ≠ 0 := by
  rw [validatePositiveU64]
  by_cases h : n = 0
  · simp [h, validationError]
  · simp [h]

theorem validateOptional_eq_ok {n : Option UInt64} :
    validateOptional context field n = .ok () ↔ n ≠ some 0 := by
  cases n with
  | none => simp [validateOptional]
  | some n => simp [validateOptional, validatePositiveU64_eq_ok]

theorem validateCanBitrate_eq_ok {bitrate : UInt32} :
    validateCanBitrate context bitrate = .ok () ↔ bitrate ∈ canBitrates := by
  rw [validateCanBitrate]
  by_cases h : bitrate ∈ canBitrates
  · simp [h]
  · simp [h, validationError]

/-- What a validated asset has to say for itself. -/
theorem ConnectionSpec.validate_eq_ok {spec : ConnectionSpec} : spec.validate = .ok () ↔
    Text.trim spec.id ≠ "" ∧ spec.protocol.validate spec.id = .ok () ∧
      spec.governance.validate spec.id = .ok () ∧
      validateSecretRefs spec.id spec.secrets = .ok () := by
  rw [validate, check_bind_eq_ok, check_bind_eq_ok, check_bind_eq_ok, validateNonEmpty_eq_ok]

end

end Nazh
