import Mathlib.Data.List.Infix
import Nazh.Dsl.Generate

/-!
# Devices imported from EtherCAT files

A file that describes a slave (ESI) gives one device, and one that describes a network (ENI) gives
a device for each slave of which entries are exchanged. The signals of a device are the entries of
its process data objects. An entry without an index, or with the index zero, is no signal.

The files are taken as they were parsed.
-/

namespace Nazh.Esi

/-! ## What was parsed -/

inductive PdoDirection
  | tx
  | rx
  deriving DecidableEq, Repr

structure EsiPdoEntry where
  index : Option UInt16
  subIndex : Option UInt8
  bitLen : Option UInt16
  name : Option String
  dataType : Option String
  deriving DecidableEq, Repr

structure EsiPdo where
  direction : PdoDirection
  index : Option UInt16
  name : Option String
  slaveAddress : Option UInt16
  signalPrefix : Option String
  entries : List EsiPdoEntry
  deriving DecidableEq, Repr

structure EsiDevice where
  deviceType : Option String
  vendorId : Option UInt32
  vendorName : Option String
  name : Option String
  typeName : Option String
  productCode : Option UInt32
  revisionNo : Option UInt32
  networkGroup : Option String
  txPdos : List EsiPdo
  rxPdos : List EsiPdo
  deriving DecidableEq, Repr

structure EniPreviousPort where
  port : Option String
  physAddr : Option UInt16
  deriving DecidableEq, Repr

structure EniSlave where
  name : Option String
  productRevision : Option String
  productCode : Option UInt32
  revisionNo : Option UInt32
  physAddr : Option UInt16
  previousPort : Option EniPreviousPort
  txPdos : List EsiPdo
  rxPdos : List EsiPdo
  activeRxPdos : List UInt16
  activeTxPdos : List UInt16
  deriving DecidableEq, Repr

/-- A file with one of the two roots. -/
inductive EsiDocument
  | esi (devices : List EsiDevice)
  | eni (xml : String) (slaves : List EniSlave)

/-! ## Names -/

/-- `format!("{:0width}", n)` and `format!("{:0width$x}", n)`. -/
def padded (base width n : ℕ) : List Char :=
  List.replicate (width - (Nat.toDigits base n).length) '0' ++ Nat.toDigits base n

/-- `{:04X}`. -/
def index4 (n : UInt16) : String := String.ofList ((padded 16 4 n.toNat).map Char.toUpper)

/-- `deterministic_hash`. -/
def deterministicHash (data : List UInt8) : UInt64 :=
  data.foldl (fun h byte => (h ^^^ byte.toUInt64) * 0x100000001b3) 0xcbf29ce484222325

/-- Six digits that a label is hashed to. -/
def labelId (label : String) : String :=
  String.ofList (padded 10 6
    ((deterministicHash (Text.asBytes label.toList)).toNat % 1000000))

/-- `default_device_id`. -/
def defaultDeviceId (device : EsiDevice) : String :=
  match device.productCode with
  | some productCode =>
      let vendor := device.vendorId.getD 0
      let combined := vendor.toNat * 31 + productCode.toNat
      String.ofList (padded 10 6 (combined % 1000000))
  | none => labelId ((device.typeName.or device.name).getD "ethercat_device")

/-- `model_label`. -/
def modelLabel (device : EsiDevice) : Option String := device.typeName.or device.name

/-- The loop of `sanitize_identifier`. -/
def sanitizeChars : Bool → List Char → List Char
  | _, [] => []
  | lastWasSep, ch :: chars =>
      if ch.isAlphanum then ch.toLower :: sanitizeChars false chars
      else if lastWasSep then sanitizeChars true chars
      else '_' :: sanitizeChars true chars

/-- `trim_matches('_')`. -/
def trimUnderscores (s : List Char) : List Char :=
  ((s.dropWhile (· = '_')).reverse.dropWhile (· = '_')).reverse

/-- `sanitize_identifier`. -/
def sanitizeIdentifier (value : String) : String :=
  String.ofList (trimUnderscores (sanitizeChars false value.toList))

/-- What an entry is called: its name, or its place if that has neither letters nor digits. -/
def entryBase (direction : PdoDirection) (entry : EsiPdoEntry) (entryIndex : UInt16)
    (subIndex : UInt8) : String :=
  let direction := match direction with
    | .tx => "tx"
    | .rx => "rx"
  ((entry.name.map sanitizeIdentifier).filter (· ≠ "")).getD
    s!"{direction}_{String.ofList (padded 16 4 entryIndex.toNat)}_{subIndex.toNat}"

/-- What is the id of a signal unless another one has it. -/
def signalBase (pdo : EsiPdo) (entry : EsiPdoEntry) (entryIndex : UInt16) (subIndex : UInt8) :
    String :=
  let base := entryBase pdo.direction entry entryIndex subIndex
  match pdo.signalPrefix with
  | none => base
  | some signalPrefix => if signalPrefix = "" then base else s!"{signalPrefix}_{base}"

/-- The loop of `unique_signal_id`, for so many turns. -/
def nextFreeId (existing : List String) (base : String) : ℕ → ℕ → Option String
  | 0, _ => none
  | fuel + 1, seq =>
      let candidate := s!"{base}_{seq}"
      if candidate ∉ existing then some candidate else nextFreeId existing base fuel (seq + 1)

/-- `unique_signal_id`, if its loop ends after so many turns. -/
def uniqueSignalId (fuel : ℕ) (existing : List Dsl.SignalSpec) (pdo : EsiPdo) (entry : EsiPdoEntry)
    (entryIndex : UInt16) (subIndex : UInt8) : Option String :=
  let base := signalBase pdo entry entryIndex subIndex
  let ids := existing.map fun signal => signal.id
  if base ∉ ids then some base else nextFreeId ids base fuel 2

/-! ## Signals -/

/-- `signal_type_for`. -/
def signalTypeFor (direction : PdoDirection) (bitLen : UInt16) (dataType : Option String) :
    SignalType :=
  let digital := bitLen == 1 ||
    dataType.any fun value => decide ("BOOL".toList <:+: value.toList.map Char.toUpper)
  match direction, digital with
  | .tx, true => .digitalInput
  | .tx, false => .analogInput
  | .rx, true => .digitalOutput
  | .rx, false => .analogOutput

/-- A sum of a build that checks for overflows, or does not. A panic is `none`. -/
def addU16 (overflowChecks : Bool) (a b : UInt16) : Option UInt16 :=
  if overflowChecks && decide (2 ^ 16 ≤ a.toNat + b.toNat) then none else some (a + b)

/-- One warning more before those of the rest. -/
def warn (text : String) (result : List Dsl.SignalSpec × List String) :
    List Dsl.SignalSpec × List String :=
  (result.1, text :: result.2)

/-- The signal of an entry. -/
def entrySignal (pdo : EsiPdo) (entry : EsiPdoEntry) (pdoIndex entryIndex : UInt16)
    (subIndex : UInt8) (bitLen bitOffset : UInt16) (id : String) : Dsl.SignalSpec where
  id := id
  signalType := signalTypeFor pdo.direction bitLen entry.dataType
  unit := none
  range := none
  source := .ethercatPdo {
    slaveAddress := pdo.slaveAddress
    pdoIndex := pdoIndex
    entryIndex := entryIndex
    subIndex := subIndex
    bitLen := bitLen
    byteOffset := some (bitOffset / 8)
    dataType := entry.dataType
    pdoName := pdo.name
    entryName := entry.name }
  scale := none

section Build

variable (overflowChecks : Bool)

/-- The loop over the entries of a PDO: `i` are done. -/
def buildEntries (pdo : EsiPdo) (pdoIndex : UInt16) :
    ℕ → UInt16 → List Dsl.SignalSpec → List EsiPdoEntry → Option (List Dsl.SignalSpec × List String)
  | _, _, signals, [] => some (signals, [])
  | i, bitOffset, signals, entry :: rest =>
      if entry.index = some 0 then buildEntries pdo pdoIndex (i + 1) bitOffset signals rest
      else match entry.index, entry.subIndex with
      | none, _ => (buildEntries pdo pdoIndex (i + 1) bitOffset signals rest).map
          (warn s!"PDO 0x{index4 pdoIndex} 的第 {i + 1} 个 Entry 缺少 Index，已跳过")
      | some entryIndex, none => (buildEntries pdo pdoIndex (i + 1) bitOffset signals rest).map
          (warn s!"PDO 0x{index4 pdoIndex} Entry 0x{index4 entryIndex} 缺少 SubIndex，已跳过")
      | some entryIndex, some subIndex =>
          let bitLen := entry.bitLen.getD 1
          (uniqueSignalId (signals.length + 1) signals pdo entry entryIndex subIndex).bind fun id =>
          let signal := entrySignal pdo entry pdoIndex entryIndex subIndex bitLen bitOffset id
          (addU16 overflowChecks bitOffset bitLen).bind fun bitOffset =>
          (buildEntries pdo pdoIndex (i + 1) bitOffset (signals ++ [signal]) rest).map fun result =>
            (result.1, (if entry.bitLen.isNone then [s!"PDO 0x{index4 pdoIndex} Entry " ++
              s!"0x{index4 entryIndex}:{subIndex.toNat} 缺少 BitLen，默认按 1 bit 导入"] else []) ++
                result.2)

/-- The loop over the PDOs. -/
def buildPdos : List Dsl.SignalSpec → List EsiPdo → Option (List Dsl.SignalSpec × List String)
  | signals, [] => some (signals, [])
  | signals, pdo :: rest => match pdo.index with
    | none => (buildPdos signals rest).map
        (warn (pdo.name.getD "未命名 PDO" ++ s!" 缺少 PDO Index，已跳过其中 {pdo.entries.length} " ++
          "个 Entry"))
    | some pdoIndex => (buildEntries overflowChecks pdo pdoIndex 0 0 signals pdo.entries).bind
        fun built => (buildPdos built.1 rest).map fun result => (result.1, built.2 ++ result.2)

/-- `build_signals`, with the warnings that it adds. -/
def buildSignals (device : EsiDevice) : Option (List Dsl.SignalSpec × List String) :=
  buildPdos overflowChecks [] (device.txPdos ++ device.rxPdos)

/-! ## Devices -/

structure EthercatIdentity where
  productCode : Option UInt32
  revisionNo : Option UInt32
  slaveAddress : Option UInt16
  deriving DecidableEq, Repr

/-- A device with what the check of it does not read. -/
structure DeviceSpec extends Dsl.DeviceSpec where
  deviceType : String
  manufacturer : Option String
  model : Option String
  networkGroup : Option String
  ethercatIdentity : Option EthercatIdentity
  deriving DecidableEq, Repr

/-- `serde_yaml` for devices. -/
structure DeviceYaml where
  toString : DeviceSpec → Except String String
  fromStr : String → Except String DeviceSpec

structure EsiImportResult where
  deviceYamls : List String
  warnings : List String
  deriving DecidableEq, Repr

variable (yaml : DeviceYaml)

/-- `serde_yaml::to_string(&spec)` with the text of its error. -/
def specYaml (reason : String) (spec : DeviceSpec) : Except String String :=
  (yaml.toString spec).mapError fun error => s!"{reason}: {error}"

/-- The device of a slave description. -/
def esiSpec (device : EsiDevice) (signals : List Dsl.SignalSpec) : DeviceSpec where
  id := defaultDeviceId device
  deviceType := device.deviceType.getD "ethercat_slave"
  manufacturer := device.vendorName
  model := modelLabel device
  connection := none
  networkGroup := device.networkGroup
  ethercatIdentity := some ⟨device.productCode, device.revisionNo, none⟩
  signals := signals
  alarms := []

/-- `build_device_yaml`, behind the warnings that there are. -/
def buildDeviceYaml (device : EsiDevice) (warnings : List String) :
    Option (Except String EsiImportResult) :=
  (buildSignals overflowChecks device).map fun built =>
    let warnings := warnings ++ built.2 ++ if built.1.isEmpty then
      ["未从 ESI 中解析到 PDO Entry，设备 YAML 只包含基本型号信息"] else []
    (specYaml yaml "DeviceSpec YAML 序列化失败" (esiSpec device built.1)).map fun text =>
      ⟨[text], warnings⟩

/-! ## Networks -/

/-- `eni_group_id`. -/
def eniGroupId (xml : String) : String :=
  let hash := deterministicHash (Text.asBytes xml.toList)
  s!"eni_{String.ofList (padded 16 6 (hash.toNat % 0x00FFFFFF))}"

/-- `eni_slave_device_id`. -/
def eniSlaveDeviceId (slave : EniSlave) : String :=
  match slave.productCode, slave.physAddr with
  | some productCode, some addr =>
      s!"{String.ofList (padded 16 6 (productCode.toNat % 1000000))}_{addr.toNat}"
  | some productCode, none => String.ofList (padded 10 6 (productCode.toNat % 1000000))
  | none, _ => labelId (slave.name.getD "ethercat_slave")

/-- What a slave is called in warnings. -/
def slaveLabel (slave : EniSlave) : String := slave.name.getD "未命名从站"

/-- `append_active_eni_pdos` for one direction: the active PDOs that are defined, the last
definition of each, and a warning for each that is not. -/
def activeEniPdos (slave : EniSlave) (slaveAddress : UInt16) (active : List UInt16)
    (pdos : List EsiPdo) : List EsiPdo × List String :=
  let byIndex (index : UInt16) := pdos.reverse.find? fun pdo => pdo.index = some index
  (active.filterMap fun index => (byIndex index).map fun pdo =>
      { pdo with slaveAddress := some slaveAddress, signalPrefix := none },
    (active.filter fun index => (byIndex index).isNone).map fun index =>
      s!"{slaveLabel slave} 激活了 PDO 0x{index4 index}，但 ProcessData 中缺少定义")

/-- `eni_slave_to_device`, with its warnings. -/
def eniSlaveToDevice (slave : EniSlave) (groupId : String) : EsiDevice × List String :=
  let device : EsiDevice := {
    deviceType := some "ethercat_slave"
    vendorId := none
    vendorName := none
    name := slave.name
    typeName := slave.name
    productCode := slave.productCode
    revisionNo := slave.revisionNo
    networkGroup := some groupId
    txPdos := []
    rxPdos := [] }
  match slave.physAddr with
  | none => (device, [s!"{slaveLabel slave} 缺少 PhysAddr，无法关联激活 PDO"])
  | some slaveAddress =>
      let tx := activeEniPdos slave slaveAddress slave.activeTxPdos slave.txPdos
      let rx := activeEniPdos slave slaveAddress slave.activeRxPdos slave.rxPdos
      ({ device with txPdos := tx.1, rxPdos := rx.1 }, tx.2 ++ rx.2)

/-- The device of a slave in a network. -/
def eniSpec (slave : EniSlave) (groupId : String) (signals : List Dsl.SignalSpec) : DeviceSpec where
  id := eniSlaveDeviceId slave
  deviceType := "ethercat_slave"
  manufacturer := slave.productRevision
  model := slave.name
  connection := slave.physAddr.map fun _ => ⟨"ethercat", "ethercat_master", none⟩
  networkGroup := some groupId
  ethercatIdentity := some ⟨slave.productCode, slave.revisionNo, slave.physAddr⟩
  signals := signals
  alarms := []

/-- `eni_topology_summary`. -/
def eniTopologySummary (slaves : List EniSlave) : List String :=
  let nameAt (addr : UInt16) := (slaves.reverse.find? fun slave => slave.physAddr = some addr).map
    slaveLabel
  slaves.filterMap fun slave => slave.physAddr.bind fun addr => match slave.previousPort with
    | none => some s!"{addr.toNat} {slaveLabel slave} 直接挂主站"
    | some previous => previous.physAddr.map fun parent =>
        s!"{addr.toNat} {slaveLabel slave} <- {parent.toNat} " ++
          (nameAt parent).getD "未知从站" ++ " / Port " ++ previous.port.getD "未知端口"

/-- The loop over the slaves. A slave without signals gives no device. -/
def importSlaves (groupId : String) :
    List EniSlave → Option (Except String (List String × List String))
  | [] => some (.ok ([], []))
  | slave :: rest =>
      let device := eniSlaveToDevice slave groupId
      (buildSignals overflowChecks device.1).bind fun built =>
      let warnings := device.2 ++ built.2
      if built.1.isEmpty then
        (importSlaves groupId rest).map (Except.map fun later =>
          (later.1, warnings ++ s!"{slaveLabel slave} 没有激活的 PDO Entry，跳过" :: later.2))
      else match specYaml yaml "从站 DeviceSpec YAML 序列化失败" (eniSpec slave groupId built.1) with
        | .error error => some (.error error)
        | .ok text => (importSlaves groupId rest).map (Except.map fun later =>
            (text :: later.1, warnings ++ later.2))

/-- `import_eni_to_device_yaml`. -/
def importEniToDeviceYaml (xml : String) (slaves : List EniSlave) :
    Option (Except String EsiImportResult) :=
  if slaves.isEmpty then some (.error "ENI 文件中没有找到 Config/Slave")
  else
    let topology := eniTopologySummary slaves
    let warnings := "检测到 EtherCATConfig/ENI 网络配置，已按激活 SM PDO 导入" ::
      if topology.isEmpty then [] else ["ENI 拓扑: " ++ "；".intercalate topology]
    (importSlaves overflowChecks yaml (eniGroupId xml) slaves).map (Except.map fun later =>
      ⟨later.1, warnings ++ later.2 ++ if later.1.isEmpty then
        ["ENI 中没有找到任何激活的 Sm2/Sm3 PDO"] else []⟩)

/-- `import_esi_to_device_yaml`, behind its reading of the file. Of several devices in a slave
description, the first one is imported. -/
def importEsiToDeviceYaml : EsiDocument → Option (Except String EsiImportResult)
  | .eni xml slaves => importEniToDeviceYaml overflowChecks yaml xml slaves
  | .esi [] => some (.error "ESI 文件中没有找到 Descriptions/Devices/Device")
  | .esi (device :: others) => buildDeviceYaml overflowChecks yaml device
      (if others.isEmpty then [] else [s!"ESI 文件包含 {others.length + 1} 个 Device，" ++
        "本次导入第一个设备；如需其它型号请拆分 ESI 后再导入"])

end Build

end Nazh.Esi
