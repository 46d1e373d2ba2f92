import Nazh.Core.Text
import Nazh.Json.Value

/-!
# Validation of connection definitions

A definition is checked by the protocol its kind names, spelled in any of several
ways. A missing field and an empty or zero one are refused with the same text.

`parseUrl` stands for the URL parser.
-/

namespace Nazh

/-- `Url::parse`, as far as it is used: an error, or nothing. -/
abbrev UrlParser := String → Except String Unit

/-- A text field of the metadata, trimmed, empty where it is missing. -/
def metadataText (metadata : Value) (key : String) : String :=
  (((metadata.get key).bind Value.asStr).map Text.trim).getD ""

/-- A numeric field of the metadata, zero where it is missing. -/
def metadataNumber (metadata : Value) (key : String) : ℕ :=
  (((metadata.get key).bind Value.asU64).map UInt64.toNat).getD 0

/-- Refuse a definition for which `bad` holds. -/
def reject (bad : Bool) (reason : String) : Except String Unit :=
  if bad then .error reason else .ok ()

def supportedConnectionTypes : List String :=
  ["serial", "modbus", "mqtt", "http", "bark", "can", "ethercat"]

def validateSerial (metadata : Value) : Except String Unit := do
  reject (metadataText metadata "port_path" == "") "串口连接需要配置 port_path"
  reject (metadataNumber metadata "baud_rate" == 0) "串口连接需要配置有效的 baud_rate"

def validateModbus (metadata : Value) : Except String Unit := do
  reject (metadataText metadata "host" == "") "Modbus 连接需要配置 host"
  let port := metadataNumber metadata "port"
  reject (port == 0 || 65535 < port) "Modbus 连接需要配置 1-65535 之间的 port"

def validateMqtt (metadata : Value) : Except String Unit := do
  reject (metadataText metadata "host" == "") "MQTT 连接需要配置 host"
  reject (metadataText metadata "topic" == "") "MQTT 连接需要配置 topic"

def validateHttp (parseUrl : UrlParser) (metadata : Value) : Except String Unit := do
  let url := metadataText metadata "url"
  reject (url == "") "HTTP 连接需要配置 URL"
  match parseUrl url with
  | .ok () => .ok ()
  | .error e => .error s!"HTTP URL 无效: {e}"

def validateBark (parseUrl : UrlParser) (metadata : Value) : Except String Unit := do
  reject (metadataText metadata "device_key" == "") "Bark 连接需要配置 device_key 或完整推送 URL"
  let serverUrl := metadataText metadata "server_url"
  if serverUrl == "" then .ok ()
  else match parseUrl serverUrl with
    | .ok () => .ok ()
    | .error e => .error s!"Bark server_url 无效: {e}"

def validateCan (metadata : Value) : Except String Unit := do
  let interface := metadataText metadata "interface"
  reject (interface == "") "CAN-SLCAN 连接需要配置 interface（slcan/mock/virtual）"
  reject (!(["slcan", "mock", "virtual"].contains interface)) s!"CAN 连接 interface 不支持: {interface}"
  reject (metadataText metadata "channel" == "") "CAN-SLCAN 连接需要配置 channel（串口设备路径）"
  reject (metadataNumber metadata "baud_rate" == 0) "CAN-SLCAN 连接需要配置有效的 baud_rate"
  let bitrate := metadataNumber metadata "bitrate"
  reject (bitrate == 0) "CAN-SLCAN 连接需要配置 CAN 总线 bitrate"
  reject (!([10000, 20000, 50000, 100000, 125000, 250000, 500000, 800000, 1000000].contains bitrate))
    s!"CAN-SLCAN 连接不支持 bitrate: {bitrate}"

def validateEthercat (metadata : Value) : Except String Unit := do
  let backend := Text.toAsciiLowercase (metadataText metadata "backend")
  reject (backend == "") "EtherCAT 连接需要配置 backend（ethercrab/mock）"
  reject (!(["ethercrab", "mock"].contains backend)) s!"EtherCAT 连接不支持 backend: {backend}"
  reject (metadataText metadata "interface" == "") "EtherCAT 连接需要配置 interface（网络接口名）"
  reject (metadataNumber metadata "cycle_time_ms" == 0) "EtherCAT 连接 cycle_time_ms 必须大于 0"
  let isZero key := (metadata.get key).any fun v => v.asU64 == some 0
  reject (isZero "cycle_time_us") "EtherCAT 连接 cycle_time_us 必须大于 0"
  reject (isZero "dc_sync0_period_us") "EtherCAT 连接 dc_sync0_period_us 必须大于 0"
  reject (isZero "dc_start_delay_us") "EtherCAT 连接 dc_start_delay_us 必须大于 0"
  reject (metadataNumber metadata "op_timeout_ms" == 0) "EtherCAT 连接 op_timeout_ms 必须大于 0"

def normalizeConnectionKind (kind : String) : String := Text.toAsciiLowercase (Text.trim kind)

/-- `validate_connection_definition`. -/
def validateConnectionDefinition (parseUrl : UrlParser) (kind : String) (metadata : Value) :
    Except String Unit :=
  let normalized := normalizeConnectionKind kind
  let supported := ", ".intercalate supportedConnectionTypes
  if ["serial", "serialport", "serial_port", "uart", "rs232", "rs485"].contains normalized then
    validateSerial metadata
  else if ["modbus", "modbus_tcp"].contains normalized then validateModbus metadata
  else if normalized == "mqtt" then validateMqtt metadata
  else if ["http", "http_sink"].contains normalized then validateHttp parseUrl metadata
  else if ["bark", "bark_push"].contains normalized then validateBark parseUrl metadata
  else if ["can", "can-slcan", "slcan"].contains normalized then validateCan metadata
  else if ["ethercat", "ethercat-ethercrab", "ecat"].contains normalized then
    validateEthercat metadata
  else .error s!"不支持的连接类型 \x60{kind}\x60；支持类型: {supported}"

end Nazh
