import Nazh.Dsl.Capability
import Nazh.Io.Encode

/-!
# What a compiled capability writes

The node that calls a capability reads its snapshot from what the compiler wrote, and
fields that are missing take their defaults. So a capability is carried out as declared
just if what the compiler leaves out is at its default; a template without a default is
never left out without harm.
-/

namespace Nazh

open Lib

/-- The runtime's form of a `CapabilityImpl`. Data types and byte orders are texts. -/
inductive CapabilityImplSnapshot
  | modbusWrite (register : UInt16) (dataType : String) (bit : Option UInt8)
      (byteOrder : String) (scale : Option String) (valueTemplate : String)
  | mqttPublish (topic payloadTemplate : String)
  | serialCommand (commandTemplate : String)
  | canWrite (canId : UInt32) (isExtended : Bool) (byteOffset byteLength : UInt8)
      (dataType byteOrder : String) (scale : Option String) (dataTemplate : String)
  | ethercatPdoWrite (slaveAddress : Option UInt16) (pdoIndex entryIndex : UInt16)
      (subIndex : UInt8) (bitLen byteOffset : UInt16) (dataType : Option String)
      (byteOrder : String) (scale : Option String) (valueTemplate : String)
  | script (content : String)
  deriving DecidableEq, Repr

namespace CapabilityImplSnapshot

/-- The derived deserialization, with the variant named by the field `type`. -/
def fromJson (v : Value) : Option CapabilityImplSnapshot := do
  let fields ← v.asObject
  match ← required fields "type" Value.asStr with
  | "modbus-write" =>
      let register ← required fields "register" Value.toU16
      let dataType ← defaulted fields "data_type" Value.asStr ""
      let bit ← optional fields "bit" Value.toU8
      let byteOrder ← defaulted fields "byte_order" Value.asStr ""
      let scale ← optional fields "scale" Value.asStr
      let valueTemplate ← required fields "value_template" Value.asStr
      some (modbusWrite register dataType bit byteOrder scale valueTemplate)
  | "mqtt-publish" =>
      let topic ← required fields "topic" Value.asStr
      let payloadTemplate ← required fields "payload_template" Value.asStr
      some (mqttPublish topic payloadTemplate)
  | "serial-command" =>
      let commandTemplate ← required fields "command_template" Value.asStr
      some (serialCommand commandTemplate)
  | "can-write" =>
      let canId ← required fields "can_id" Value.toU32
      let isExtended ← required fields "is_extended" Value.asBool
      let byteOffset ← defaulted fields "byte_offset" Value.toU8 0
      let byteLength ← defaulted fields "byte_length" Value.toU8 0
      let dataType ← defaulted fields "data_type" Value.asStr ""
      let byteOrder ← defaulted fields "byte_order" Value.asStr ""
      let scale ← optional fields "scale" Value.asStr
      let dataTemplate ← required fields "data_template" Value.asStr
      some (canWrite canId isExtended byteOffset byteLength dataType byteOrder scale dataTemplate)
  | "ethercat-pdo-write" =>
      let slaveAddress ← optional fields "slave_address" Value.toU16
      let pdoIndex ← required fields "pdo_index" Value.toU16
      let entryIndex ← required fields "entry_index" Value.toU16
      let subIndex ← required fields "sub_index" Value.toU8
      let bitLen ← required fields "bit_len" Value.toU16
      let byteOffset ← defaulted fields "byte_offset" Value.toU16 0
      let dataType ← optional fields "data_type" Value.asStr
      let byteOrder ← defaulted fields "byte_order" Value.asStr ""
      let scale ← optional fields "scale" Value.asStr
      let valueTemplate ← required fields "value_template" Value.asStr
      some (ethercatPdoWrite slaveAddress pdoIndex entryIndex subIndex bitLen byteOffset dataType
        byteOrder scale valueTemplate)
  | "script" =>
      let content ← required fields "content" Value.asStr
      some (script content)
  | _ => none

end CapabilityImplSnapshot

/-- The data type that an encoder takes a text for. -/
def DataType.ofText : String → Option DataType
  | "u16" | "" => some .u16
  | "i16" => some .i16
  | "bool" => some .bool
  | "u32" => some .u32
  | "i32" => some .i32
  | "float32" => some .float32
  | "float64" => some .float64
  | "string" => some .string
  | _ => none

/-- Variant by variant, the snapshot says what the capability says. -/
def CapabilityImpl.SameFields : CapabilityImpl → CapabilityImplSnapshot → Prop
  | .modbusWrite register dataType bit byteOrder scale value,
    .modbusWrite register' dataType' bit' byteOrder' scale' value' =>
      register' = register ∧ DataType.ofText dataType' = some dataType ∧ bit' = bit ∧
        ByteOrder.ofText byteOrder' = byteOrder ∧ scale' = scale ∧ value' = value
  | .mqttPublish topic payload, .mqttPublish topic' payload' => topic' = topic ∧ payload' = payload
  | .serialCommand command, .serialCommand command' => command' = command
  | .canWrite canId isExtended byteOffset byteLength dataType byteOrder scale data,
    .canWrite canId' isExtended' byteOffset' byteLength' dataType' byteOrder' scale' data' =>
      canId' = canId ∧ isExtended' = isExtended ∧ byteOffset' = byteOffset ∧
        byteLength' = byteLength ∧ DataType.ofText dataType' = some dataType ∧
        ByteOrder.ofText byteOrder' = byteOrder ∧ scale' = scale ∧ data' = data
  | .ethercatPdoWrite slave pdo entry sub bitLen byteOffset dataType byteOrder scale value,
    .ethercatPdoWrite slave' pdo' entry' sub' bitLen' byteOffset' dataType' byteOrder' scale'
      value' =>
      slave' = slave ∧ pdo' = pdo ∧ entry' = entry ∧ sub' = sub ∧ bitLen' = bitLen ∧
        byteOffset' = byteOffset ∧ dataType' = dataType ∧ ByteOrder.ofText byteOrder' = byteOrder ∧
        scale' = scale ∧ value' = value
  | .script content, .script content' => content' = content
  | _, _ => False

/-- The bytes of a value in a byte order. -/
def Scalar.bytes (order : ByteOrder) (s : Scalar) : List UInt8 :=
  order.arrange (leBytes s.byteWidth s.pattern)

/-- The CAN frame that a capability denotes: hexadecimal digits, or a value in its place. -/
def denotedFrame (texts : TextLibrary) (dataType : DataType) (byteOrder : ByteOrder)
    (byteOffset byteLength : ℕ) (valueStr : String) : Option (List UInt8) :=
  if byteLength = 0 then (parseHexBytes valueStr).toOption
  else if 8 < byteOffset + byteLength then none
  else (dataType.scalar texts valueStr).bind fun s =>
    let bytes := s.bytes byteOrder
    let placed := bytes.drop (bytes.length - byteLength)
    if placed.length = byteLength then
      some (List.replicate byteOffset 0 ++ placed ++ List.replicate (8 - byteOffset - byteLength) 0)
    else none

/-- Every resolved value is encoded as the data type and the byte order denote. -/
def CapabilityImpl.SameEncoding (texts : TextLibrary) :
    CapabilityImpl → CapabilityImplSnapshot → Prop
  | .modbusWrite _ dataType _ byteOrder _ _, .modbusWrite _ dataType' bit' byteOrder' _ _ =>
      ∀ valueStr nodeId,
        (encodeModbusWords texts valueStr dataType' byteOrder' bit' nodeId).toOption.map
            (List.map UInt16.toNat) =
          (dataType.scalar texts valueStr).map (Scalar.words byteOrder)
  | .canWrite _ _ byteOffset byteLength dataType byteOrder _ _,
    .canWrite _ _ byteOffset' byteLength' dataType' byteOrder' scale' _ =>
      ∀ valueStr nodeId,
        (encodeCanFrameData texts valueStr dataType' byteOrder' byteOffset' byteLength' scale'
            nodeId).toOption =
          denotedFrame texts dataType byteOrder byteOffset.toNat byteLength.toNat valueStr
  | .ethercatPdoWrite _ _ _ _ _ _ dataType byteOrder _ _,
    .ethercatPdoWrite _ _ _ _ _ _ dataType' byteOrder' _ _ =>
      ∀ valueStr nodeId,
        (encodeValueToBytes texts valueStr (dataType'.getD "u16") byteOrder' nodeId).toOption =
          (DataType.ofText (dataType.getD "u16")).bind fun dt =>
            (dt.scalar texts valueStr).map (Scalar.bytes byteOrder)
  | _, _ => True

/-- The compiled node has the fields of the capability and writes what it denotes. -/
def CapabilityImpl.Preserved (texts : TextLibrary) (impl : CapabilityImpl) : Prop :=
  ∃ snapshot, CapabilityImplSnapshot.fromJson (capabilityImplToJson impl) = some snapshot ∧
    impl.SameFields snapshot ∧ impl.SameEncoding texts snapshot

/-- Everything the compiler leaves out is at its default. -/
def CapabilityImpl.Plain : CapabilityImpl → Prop
  | .modbusWrite _ dataType bit byteOrder scale _ =>
      dataType = .u16 ∧ bit = none ∧ byteOrder = .bigEndian ∧ scale = none
  | .canWrite _ _ byteOffset byteLength dataType byteOrder scale _ =>
      byteOffset = 0 ∧ byteLength = 0 ∧ dataType = .u16 ∧ byteOrder = .bigEndian ∧ scale = none
  | .ethercatPdoWrite _ _ _ _ _ _ _ _ _ _ => False
  | .mqttPublish _ _ | .serialCommand _ | .script _ => True

instance (impl : CapabilityImpl) : Decidable impl.Plain := by
  cases impl <;> unfold CapabilityImpl.Plain <;> infer_instance

/-! ## The way through JSON -/

section Json

open CapabilityImplSnapshot

theorem required_type {kind : String} {fields : List (String × Value)}
    (hkeys : ((("type", .string kind) :: fields).map Prod.fst).Nodup) :
    required (jsonObject (("type", .string kind) :: fields)) "type" Value.asStr = some kind := by
  rw [required, lookup_jsonObject hkeys, List.lookup_cons_self]
  rfl

-- The variant is looked up first, so that only its own fields are left to be read.

theorem fromJson_modbusWrite (register : UInt16) (dataType : DataType) (bit : Option UInt8)
    (byteOrder : ByteOrder) (scale : Option String) (value : String) :
    CapabilityImplSnapshot.fromJson
        (capabilityImplToJson (.modbusWrite register dataType bit byteOrder scale value)) =
      some (.modbusWrite register "" none "" none value) := by
  rw [capabilityImplToJson, fromJson, Value.asObject, Option.bind_eq_bind, Option.bind_some,
    required_type (by simp), Option.bind_eq_bind, Option.bind_some]
  simp [jsonObject, required, defaulted, optional, Fields.lookup_insert_of_ne, Value.asStr]

theorem fromJson_canWrite (canId : UInt32) (isExtended : Bool) (byteOffset byteLength : UInt8)
    (dataType : DataType) (byteOrder : ByteOrder) (scale : Option String) (data : String) :
    CapabilityImplSnapshot.fromJson (capabilityImplToJson
        (.canWrite canId isExtended byteOffset byteLength dataType byteOrder scale data)) =
      some (.canWrite canId isExtended 0 0 "" "" none data) := by
  rw [capabilityImplToJson, fromJson, Value.asObject, Option.bind_eq_bind, Option.bind_some,
    required_type (by simp), Option.bind_eq_bind, Option.bind_some]
  simp [jsonObject, required, defaulted, optional, Fields.lookup_insert_of_ne, Value.asStr,
    Value.asBool]

theorem fromJson_mqttPublish (topic payload : String) :
    CapabilityImplSnapshot.fromJson (capabilityImplToJson (.mqttPublish topic payload)) =
      some (.mqttPublish topic payload) := by
  rw [capabilityImplToJson, fromJson, Value.asObject, Option.bind_eq_bind, Option.bind_some,
    required_type (by simp), Option.bind_eq_bind, Option.bind_some]
  simp [jsonObject, required, Fields.lookup_insert_of_ne, Value.asStr]

theorem fromJson_serialCommand (command : String) :
    CapabilityImplSnapshot.fromJson (capabilityImplToJson (.serialCommand command)) =
      some (.serialCommand command) := by
  rw [capabilityImplToJson, fromJson, Value.asObject, Option.bind_eq_bind, Option.bind_some,
    required_type (by simp), Option.bind_eq_bind, Option.bind_some]
  simp [jsonObject, required, Value.asStr]

theorem fromJson_script (content : String) :
    CapabilityImplSnapshot.fromJson (capabilityImplToJson (.script content)) =
      some (.script content) := by
  rw [capabilityImplToJson, fromJson, Value.asObject, Option.bind_eq_bind, Option.bind_some,
    required_type (by simp), Option.bind_eq_bind, Option.bind_some]
  simp [jsonObject, required, Value.asStr]

/-- The template of an EtherCAT write is left out, and there is no default for it. -/
theorem fromJson_ethercatPdoWrite (slaveAddress : Option UInt16) (pdoIndex entryIndex : UInt16)
    (subIndex : UInt8) (bitLen byteOffset : UInt16) (dataType : Option String)
    (byteOrder : ByteOrder) (scale : Option String) (value : String) :
    CapabilityImplSnapshot.fromJson (capabilityImplToJson (.ethercatPdoWrite slaveAddress pdoIndex
      entryIndex subIndex bitLen byteOffset dataType byteOrder scale value)) = none := by
  rw [capabilityImplToJson, fromJson, Value.asObject, Option.bind_eq_bind, Option.bind_some]
  rw [required, Fields.lookup_insertSome_of_ne _ _ (by decide),
    Fields.lookup_insert_of_ne _ _ (by decide), Fields.lookup_insert_of_ne _ _ (by decide),
    Fields.lookup_insertSome_of_ne _ _ (by decide), Fields.lookup_insertSome_of_ne _ _ (by decide),
    ← required, required_type (by simp), Option.bind_eq_bind, Option.bind_some]
  simp [jsonObject, required, defaulted, optional, Fields.lookup_insert_of_ne,
    Fields.lookup_insertSome_of_ne, Value.asStr]

end Json

/-! ## The missing fields -/

/-- A missing data type is taken for `u16`. -/
theorem toOption_parseScalar_empty (texts : TextLibrary) (label valueStr nodeId : String) :
    (parseScalar texts label valueStr nodeId "").toOption = DataType.u16.scalar texts valueStr := by
  rw [← toOption_parseScalar texts label valueStr nodeId .u16]
  rfl

/-- Without a data type and a byte order, a register gets the unsigned number. -/
theorem encodeModbusWords_empty (texts : TextLibrary) (valueStr nodeId : String) :
    (encodeModbusWords texts valueStr "" "" none nodeId).toOption.map (List.map UInt16.toNat) =
      (DataType.u16.scalar texts valueStr).map (Scalar.words .bigEndian) := by
  rw [encodeModbusWords, toOption_map, toOption_parseScalar_empty, Option.map_map]
  congr 1
  funext s
  exact s.map_registers ""

/-- Without a length, a frame is its hexadecimal digits. -/
theorem encodeCanFrameData_empty (texts : TextLibrary) (valueStr dataType byteOrder nodeId : String)
    (scale : Option String) :
    (encodeCanFrameData texts valueStr dataType byteOrder 0 0 scale nodeId).toOption =
      (parseHexBytes valueStr).toOption := by
  rw [encodeCanFrameData, if_pos rfl]
  cases parseHexBytes valueStr <;> rfl

theorem DataType.ofText_empty : DataType.ofText "" = some .u16 := by rfl

theorem ByteOrder.ofText_empty : ByteOrder.ofText "" = .bigEndian := by rfl

/-- A capability is carried out as declared just if all that is left out is at its default. -/
theorem preserved_iff_plain (texts : TextLibrary) (impl : CapabilityImpl) :
    impl.Preserved texts ↔ impl.Plain := by
  cases impl with
  | modbusWrite register dataType bit byteOrder scale value =>
      constructor
      · rintro ⟨snapshot, hread, hfields, -⟩
        rw [fromJson_modbusWrite] at hread
        obtain rfl := Option.some.inj hread
        obtain ⟨-, hdt, hbit, hbo, hscale, -⟩ := hfields
        have hdt' : dataType = .u16 := (Option.some.inj hdt).symm
        have hbo' : byteOrder = .bigEndian := hbo.symm
        exact ⟨hdt', hbit.symm, hbo', hscale.symm⟩
      · rintro ⟨rfl, rfl, rfl, rfl⟩
        refine ⟨_, fromJson_modbusWrite .., ?_, ?_⟩
        · exact ⟨rfl, DataType.ofText_empty, rfl, ByteOrder.ofText_empty, rfl, rfl⟩
        · intro valueStr nodeId
          exact encodeModbusWords_empty texts valueStr nodeId
  | canWrite canId isExtended byteOffset byteLength dataType byteOrder scale data =>
      constructor
      · rintro ⟨snapshot, hread, hfields, -⟩
        rw [fromJson_canWrite] at hread
        obtain rfl := Option.some.inj hread
        obtain ⟨-, -, hoffset, hlength, hdt, hbo, hscale, -⟩ := hfields
        have hdt' : dataType = .u16 := (Option.some.inj hdt).symm
        have hbo' : byteOrder = .bigEndian := hbo.symm
        exact ⟨hoffset.symm, hlength.symm, hdt', hbo', hscale.symm⟩
      · rintro ⟨rfl, rfl, rfl, rfl, rfl⟩
        refine ⟨_, fromJson_canWrite .., ?_, ?_⟩
        · exact ⟨rfl, rfl, rfl, rfl, DataType.ofText_empty, ByteOrder.ofText_empty, rfl, rfl⟩
        · intro valueStr nodeId
          rw [encodeCanFrameData_empty, denotedFrame]
          rfl
  | ethercatPdoWrite slaveAddress pdoIndex entryIndex subIndex bitLen byteOffset dataType
      byteOrder scale value =>
      constructor
      · rintro ⟨snapshot, hread, -⟩
        rw [fromJson_ethercatPdoWrite] at hread
        cases hread
      · intro hplain
        exact hplain.elim
  | mqttPublish topic payload =>
      constructor
      · intro _
        trivial
      · intro _
        exact ⟨_, fromJson_mqttPublish topic payload, ⟨rfl, rfl⟩, trivial⟩
  | serialCommand command =>
      constructor
      · intro _
        trivial
      · intro _
        exact ⟨_, fromJson_serialCommand command, rfl, trivial⟩
  | script content =>
      constructor
      · intro _
        trivial
      · intro _
        exact ⟨_, fromJson_script content, rfl, trivial⟩

/-- The data type of a setpoint of two registers is lost on the way. -/
theorem setpoint_not_preserved :
    ¬ CapabilityImpl.Preserved plainTexts
      (.modbusWrite 40 .u32 none .bigEndian none "$\x7bvalue\x7d") := by
  rintro ⟨snapshot, hread, hfields, -⟩
  rw [fromJson_modbusWrite] at hread
  obtain rfl := Option.some.inj hread
  exact absurd hfields.2.1 (by decide)

end Nazh
