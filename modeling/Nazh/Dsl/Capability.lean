import Nazh.Dsl.Device

/-!
# Capabilities and their compiled form

A capability says how it is carried out on the device. The compiler writes this into the
configuration of the node that will call the capability.
-/

namespace Nazh

/-- How a capability is carried out. -/
inductive CapabilityImpl
  | modbusWrite (register : UInt16) (dataType : DataType) (bit : Option UInt8)
      (byteOrder : ByteOrder) (scale : Option String) (value : String)
  | mqttPublish (topic payload : String)
  | serialCommand (command : String)
  | canWrite (canId : UInt32) (isExtended : Bool) (byteOffset byteLength : UInt8)
      (dataType : DataType) (byteOrder : ByteOrder) (scale : Option String) (data : String)
  | ethercatPdoWrite (slaveAddress : Option UInt16) (pdoIndex entryIndex : UInt16)
      (subIndex : UInt8) (bitLen byteOffset : UInt16) (dataType : Option String)
      (byteOrder : ByteOrder) (scale : Option String) (value : String)
  | script (content : String)
  deriving DecidableEq, Repr

/-- The object `json!` makes of its fields. -/
def jsonObject (fields : List (String × Value)) : Fields :=
  fields.foldl (fun m field => m.insert field.1 field.2) []

theorem lookup_jsonObject {fields : List (String × Value)} (hkeys : (fields.map Prod.fst).Nodup)
    (key : String) : (jsonObject fields).lookup key = fields.lookup key := by
  rw [jsonObject, Fields.lookup_foldl_insert _ _ _ hkeys]
  simp

/-- `capability_impl_to_json`. -/
def capabilityImplToJson : CapabilityImpl → Value
  | .modbusWrite register _ _ _ _ value => .object (jsonObject
      [("type", .string "modbus-write"),
        ("register", .number (.ofNat register.toNat)),
        ("value_template", .string value)])
  | .mqttPublish topic payload => .object (jsonObject
      [("type", .string "mqtt-publish"),
        ("topic", .string topic),
        ("payload_template", .string payload)])
  | .serialCommand command => .object (jsonObject
      [("type", .string "serial-command"),
        ("command_template", .string command)])
  | .canWrite canId isExtended _ _ _ _ _ data => .object (jsonObject
      [("type", .string "can-write"),
        ("can_id", .number (.ofNat canId.toNat)),
        ("data_template", .string data),
        ("is_extended", .bool isExtended)])
  | .script content => .object (jsonObject
      [("type", .string "script"),
        ("content", .string content)])
  | .ethercatPdoWrite slaveAddress pdoIndex entryIndex subIndex bitLen byteOffset dataType
      byteOrder scale _ =>
      let obj := jsonObject
        [("type", .string "ethercat-pdo-write"),
          ("pdo_index", .number (.ofNat pdoIndex.toNat)),
          ("entry_index", .number (.ofNat entryIndex.toNat)),
          ("sub_index", .number (.ofNat subIndex.toNat)),
          ("bit_len", .number (.ofNat bitLen.toNat))]
      let obj := obj.insertSome "slave_address"
        (slaveAddress.map fun addr => .number (.ofNat addr.toNat))
      let obj := obj.insertSome "data_type" (dataType.map .string)
      let obj := Fields.insert obj "byte_order" (.string byteOrder.name)
      let obj := Fields.insert obj "byte_offset" (.number (.ofNat byteOffset.toNat))
      let obj := Fields.insertSome obj "scale" (scale.map .string)
      .object obj

/-- An input of a capability. -/
structure CapabilityParam where
  id : String
  unit : Option String
  range : Option Range
  deriving DecidableEq, Repr

inductive SafetyLevel
  | high
  | medium
  | low
  deriving DecidableEq, Repr

structure SafetyConstraints where
  level : SafetyLevel
  requiresApproval : Bool
  deriving DecidableEq, Repr

structure CapabilitySpec where
  id : String
  deviceId : String
  inputs : List CapabilityParam
  preconditions : List String
  implementation : CapabilityImpl
  safety : SafetyConstraints
  deriving DecidableEq, Repr

end Nazh
