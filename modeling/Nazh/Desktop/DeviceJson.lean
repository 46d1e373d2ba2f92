import Nazh.Desktop.EthercatImport
import Nazh.Json.Derive

/-!
# Devices as JSON

A device with everything that is stored of it, and the JSON that the derive attributes make of it:
an `Option` that is none is left out, a source is told by its tag, and a range is a pair that is in
order.
-/

namespace Nazh

namespace DeviceAsset

/-! ## The device -/

inductive AlarmSeverity
  | info
  | warning
  | critical
  deriving DecidableEq, Repr

structure AlarmSpec extends Dsl.AlarmSpec where
  severity : AlarmSeverity
  action : Option String
  deriving DecidableEq, Repr

structure DeviceSpec where
  id : String
  deviceType : String
  manufacturer : Option String
  model : Option String
  connection : Option ConnectionRef
  networkGroup : Option String
  ethercatIdentity : Option Esi.EthercatIdentity
  signals : List Dsl.SignalSpec
  alarms : List AlarmSpec
  deriving DecidableEq, Repr

/-! ## Enumerations -/

def signalTypeName : SignalType → String
  | .analogInput => "analog_input"
  | .analogOutput => "analog_output"
  | .digitalInput => "digital_input"
  | .digitalOutput => "digital_output"

def signalTypeCodec : Codec SignalType :=
  .names signalTypeName [.analogInput, .analogOutput, .digitalInput, .digitalOutput]
    (by intro t; cases t <;> decide) (by decide)

def accessModeName : AccessMode → String
  | .read => "read"
  | .write => "write"
  | .readWrite => "readwrite"

def accessModeCodec : Codec AccessMode :=
  .names accessModeName [.read, .write, .readWrite] (by intro a; cases a <;> decide) (by decide)

def byteOrderCodec : Codec ByteOrder :=
  .names ByteOrder.name [.bigEndian, .littleEndian] (by intro o; cases o <;> decide) (by decide)

def dataTypeCodec : Codec DataType :=
  .names DataType.name [.bool, .u16, .i16, .u32, .i32, .float32, .float64, .string]
    (by intro t; cases t <;> decide) (by decide)

def severityName : AlarmSeverity → String
  | .info => "info"
  | .warning => "warning"
  | .critical => "critical"

def severityCodec : Codec AlarmSeverity :=
  .names severityName [.info, .warning, .critical] (by intro s; cases s <;> decide) (by decide)

/-! ## Parts of a device -/

/-- `arr.0[0] > arr.0[1]` is an error. -/
def rangeIsOrdered (range : Range) : Bool :=
  !(Lib.le64 range.max range.min && !Lib.le64 range.min range.max)

def rangeCodec : Codec Range :=
  ((Codec.f64.pair .f64).iso (fun (min, max) => ⟨min, max⟩) (fun range => (range.min, range.max))
    (fun _ => rfl) fun _ => rfl).refine rangeIsOrdered

theorem rangeCodec_solid : rangeCodec.Solid := ⟨fun _ => nofun, rfl⟩

def connectionShape : Shape ConnectionRef :=
  ((Shape.required "type" .text).and ((Shape.required "id" .text).and
    (.optional "unit" .u8 Codec.u8_solid) (by decide)) (by decide)).iso
    (fun (connectionType, id, unit) => ⟨connectionType, id, unit⟩)
    (fun c => (c.connectionType, c.id, c.unit)) (fun _ => rfl) fun _ => rfl

def connectionCodec : Codec ConnectionRef := .record connectionShape

theorem connectionCodec_solid : connectionCodec.Solid := Codec.record_solid _

def identityShape : Shape Esi.EthercatIdentity :=
  ((Shape.optional "product_code" .u32 Codec.u32_solid).and
    ((Shape.optional "revision_no" .u32 Codec.u32_solid).and
      (.optional "slave_address" .u16 Codec.u16_solid) (by decide)) (by decide)).iso
    (fun (productCode, revisionNo, slaveAddress) => ⟨productCode, revisionNo, slaveAddress⟩)
    (fun i => (i.productCode, i.revisionNo, i.slaveAddress)) (fun _ => rfl) fun _ => rfl

def identityCodec : Codec Esi.EthercatIdentity := .record identityShape

theorem identityCodec_solid : identityCodec.Solid := Codec.record_solid _

/-! ## Sources -/

theorem access_default : accessModeCodec.decode (accessModeCodec.encode .read) = some .read := rfl

theorem isExtended_default : Codec.bool.decode (Codec.bool.encode false) = some false := rfl

theorem byteOrder_default :
    byteOrderCodec.decode (byteOrderCodec.encode .bigEndian) = some .bigEndian := rfl

def registerShape : Shape (Unit × UInt16 × AccessMode × DataType × Option UInt8) :=
  (Shape.constant "type" "register").and ((Shape.required "register" .u16).and
    ((Shape.defaulted "access" accessModeCodec .read access_default).and
      ((Shape.required "data_type" dataTypeCodec).and (.optional "bit" .u8 Codec.u8_solid)
        (by decide)) (by decide)) (by decide)) (by decide)

def topicShape : Shape (Unit × String) :=
  (Shape.constant "type" "topic").and (.required "topic" .text) (by decide)

def serialCommandShape : Shape (Unit × String) :=
  (Shape.constant "type" "serial_command").and (.required "command" .text) (by decide)

def canFrameShape : Shape (Unit × UInt32 × Bool × UInt8 × UInt8 × DataType × ByteOrder) :=
  (Shape.constant "type" "can_frame").and ((Shape.required "can_id" .u32).and
    ((Shape.defaulted "is_extended" .bool false isExtended_default).and
      ((Shape.required "byte_offset" .u8).and ((Shape.required "byte_length" .u8).and
        ((Shape.required "data_type" dataTypeCodec).and
          (.defaulted "byte_order" byteOrderCodec .bigEndian byteOrder_default)
            (by decide)) (by decide)) (by decide)) (by decide)) (by decide)) (by decide)

def ethercatPdoShape : Shape (Unit × EthercatPdo) :=
  (Shape.constant "type" "ethercat_pdo").and
    (((Shape.optional "slave_address" .u16 Codec.u16_solid).and
      ((Shape.required "pdo_index" .u16).and ((Shape.required "entry_index" .u16).and
        ((Shape.required "sub_index" .u8).and ((Shape.required "bit_len" .u16).and
          ((Shape.optional "byte_offset" .u16 Codec.u16_solid).and
            ((Shape.optional "data_type" .text Codec.text_solid).and
              ((Shape.optional "pdo_name" .text Codec.text_solid).and
                (.optional "entry_name" .text Codec.text_solid)
                  (by decide)) (by decide)) (by decide)) (by decide)) (by decide)) (by decide))
                    (by decide)) (by decide)).iso
      (fun (slaveAddress, pdoIndex, entryIndex, subIndex, bitLen, byteOffset, dataType, pdoName,
        entryName) => ⟨slaveAddress, pdoIndex, entryIndex, subIndex, bitLen, byteOffset, dataType,
          pdoName, entryName⟩)
      (fun p => (p.slaveAddress, p.pdoIndex, p.entryIndex, p.subIndex, p.bitLen, p.byteOffset,
        p.dataType, p.pdoName, p.entryName)) (fun _ => rfl) fun _ => rfl) (by decide)

theorem tag_ne {a b : String} (h : a ≠ b) : some (Value.string a) ≠ some (.string b) :=
  fun heq => h (Value.string.inj (Option.some.inj heq))

/-- `#[serde(tag = "type")]`. -/
def sourceShape : Shape SignalSource :=
  (Shape.either "type" "register" registerShape
    (.either "type" "topic" topicShape
      (.either "type" "serial_command" serialCommandShape
        (.either "type" "can_frame" canFrameShape ethercatPdoShape
          ⟨by decide, by decide, fun _ => rfl, fun _ => tag_ne (by decide)⟩)
        ⟨by decide, by decide, fun _ => rfl, fun source => by
          rcases source with _ | _ <;> exact tag_ne (by decide)⟩)
      ⟨by decide, by decide, fun _ => rfl, fun source => by
        rcases source with _ | _ | _ <;> exact tag_ne (by decide)⟩)
    ⟨by decide, by decide, fun _ => rfl, fun source => by
      rcases source with _ | _ | _ | _ <;> exact tag_ne (by decide)⟩).iso
    (fun
      | .inl (_, register, access, dataType, bit) => .register register access dataType bit
      | .inr (.inl (_, topic)) => .topic topic
      | .inr (.inr (.inl (_, command))) => .serialCommand command
      | .inr (.inr (.inr (.inl (_, canId, isExtended, byteOffset, byteLength, dataType,
          byteOrder)))) =>
          .canFrame canId isExtended byteOffset byteLength dataType byteOrder
      | .inr (.inr (.inr (.inr (_, pdo)))) => .ethercatPdo pdo)
    (fun
      | .register register access dataType bit => .inl ((), register, access, dataType, bit)
      | .topic topic => .inr (.inl ((), topic))
      | .serialCommand command => .inr (.inr (.inl ((), command)))
      | .canFrame canId isExtended byteOffset byteLength dataType byteOrder =>
          .inr (.inr (.inr (.inl ((), canId, isExtended, byteOffset, byteLength, dataType,
            byteOrder))))
      | .ethercatPdo pdo => .inr (.inr (.inr (.inr ((), pdo)))))
    (fun source => by cases source <;> rfl)
    (fun source => by rcases source with _ | _ | _ | _ | _ <;> rfl)

def sourceCodec : Codec SignalSource := .record sourceShape

/-! ## Signals, alarms and the device -/

def signalShape : Shape Dsl.SignalSpec :=
  ((Shape.required "id" .text).and ((Shape.required "signal_type" signalTypeCodec).and
    ((Shape.optional "unit" .text Codec.text_solid).and
      ((Shape.optional "range" rangeCodec rangeCodec_solid).and
        ((Shape.required "source" sourceCodec).and (.optional "scale" .text Codec.text_solid)
          (by decide)) (by decide)) (by decide)) (by decide)) (by decide)).iso
    (fun (id, signalType, unit, range, source, scale) =>
      ⟨⟨id, signalType, source⟩, unit, range, scale⟩)
    (fun s => (s.id, s.signalType, s.unit, s.range, s.source, s.scale)) (fun _ => rfl) fun _ => rfl

def signalCodec : Codec Dsl.SignalSpec := .record signalShape

def alarmShape : Shape AlarmSpec :=
  ((Shape.required "id" .text).and ((Shape.required "condition" .text).and
    ((Shape.required "severity" severityCodec).and (.optional "action" .text Codec.text_solid)
      (by decide)) (by decide)) (by decide)).iso
    (fun (id, condition, severity, action) => ⟨⟨id, condition⟩, severity, action⟩)
    (fun a => (a.id, a.condition, a.severity, a.action)) (fun _ => rfl) fun _ => rfl

def alarmCodec : Codec AlarmSpec := .record alarmShape

def deviceShape : Shape DeviceSpec :=
  ((Shape.required "id" .text).and ((Shape.required "type" .text).and
    ((Shape.optional "manufacturer" .text Codec.text_solid).and
      ((Shape.optional "model" .text Codec.text_solid).and
        ((Shape.optional "connection" connectionCodec connectionCodec_solid).and
          ((Shape.optional "network_group" .text Codec.text_solid).and
            ((Shape.optional "ethercat_identity" identityCodec identityCodec_solid).and
              ((Shape.defaulted "signals" signalCodec.list [] signalCodec.default_nil).and
                (.defaulted "alarms" alarmCodec.list [] alarmCodec.default_nil)
                  (by decide)) (by decide)) (by decide)) (by decide)) (by decide)) (by decide))
                    (by decide)) (by decide)).iso
    (fun (id, deviceType, manufacturer, model, connection, networkGroup, ethercatIdentity, signals,
      alarms) => ⟨id, deviceType, manufacturer, model, connection, networkGroup, ethercatIdentity,
        signals, alarms⟩)
    (fun d => (d.id, d.deviceType, d.manufacturer, d.model, d.connection, d.networkGroup,
      d.ethercatIdentity, d.signals, d.alarms)) (fun _ => rfl) fun _ => rfl

def deviceCodec : Codec DeviceSpec := .record deviceShape

/-- No range of the device is lost on the way: its ends are finite and in order. -/
def rangesKept (d : DeviceSpec) : Bool :=
  d.signals.all fun signal => signal.range.all fun range =>
    Lib.isFinite64 range.min && Lib.isFinite64 range.max && rangeIsOrdered range

theorem kept_range (range : Range) : rangeCodec.kept range =
    (Lib.isFinite64 range.min && Lib.isFinite64 range.max && rangeIsOrdered range) := by
  simp only [rangeCodec, kept_refine, kept_codecIso, kept_pair, kept_f64]

theorem kept_source (source : SignalSource) : sourceCodec.kept source = true := by
  cases source <;> simp [sourceCodec, sourceShape, registerShape, topicShape, serialCommandShape,
    canFrameShape, ethercatPdoShape, accessModeCodec, dataTypeCodec, byteOrderCodec,
    Option.all_eq_true]

/-- A device is read from what was written of it exactly if its ranges are kept. -/
theorem kept_device (d : DeviceSpec) : deviceCodec.kept d = rangesKept d := by
  have hall : ∀ {α : Type} {c : Codec α}, (∀ a, c.kept a = true) → ∀ a : Option α,
      a.all c.kept = true := by
    intro α c hc a
    cases a with
    | none => rfl
    | some a => exact hc a
  have hconnection : ∀ c, connectionCodec.kept c = true := fun c => by
    simp [connectionCodec, connectionShape, hall kept_u8]
  have hidentity : ∀ i, identityCodec.kept i = true := fun i => by
    simp [identityCodec, identityShape, hall kept_u32, hall kept_u16]
  have halarm : ∀ a, alarmCodec.kept a = true := fun a => by
    simp [alarmCodec, alarmShape, severityCodec, hall kept_text]
  have hsignal : signalCodec.kept = fun signal => signal.range.all fun range =>
      Lib.isFinite64 range.min && Lib.isFinite64 range.max && rangeIsOrdered range := by
    funext signal
    have hranges : rangeCodec.kept = fun range => Lib.isFinite64 range.min &&
      Lib.isFinite64 range.max && rangeIsOrdered range := funext kept_range
    simp [signalCodec, signalShape, signalTypeCodec, kept_source, hall kept_text, hranges]
  have halarms : d.alarms.all alarmCodec.kept = true :=
    List.all_eq_true.mpr fun a _ => halarm a
  simp only [deviceCodec, deviceShape, kept_record, kept_iso, kept_and, kept_required, kept_text,
    kept_optional, kept_defaulted, kept_list, hall kept_text, hall hconnection, hall hidentity,
    halarms, Bool.true_and, Bool.and_true, hsignal, rangesKept]

end DeviceAsset

end Nazh
