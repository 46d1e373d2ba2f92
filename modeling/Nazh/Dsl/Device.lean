import Nazh.Json.Value

/-!
# Device specifications

The parts of a device specification that say how a signal is encoded and where it is.
The runtime has types of its own with the same members, which are not kept apart here.
-/

namespace Nazh

/-- The type of a value on a device. -/
inductive DataType
  | bool
  | u16
  | i16
  | u32
  | i32
  | float32
  | float64
  | string
  deriving DecidableEq, Repr

namespace DataType

/-- How a data type is serialized. -/
def name : DataType → String
  | bool => "bool"
  | u16 => "u16"
  | i16 => "i16"
  | u32 => "u32"
  | i32 => "i32"
  | float32 => "float32"
  | float64 => "float64"
  | string => "string"

instance : Inhabited DataType := ⟨u16⟩

end DataType

/-- The order of the bytes, or words, of a value. The first is the default. -/
inductive ByteOrder
  | bigEndian
  | littleEndian
  deriving DecidableEq, Repr, Inhabited

/-- How a byte order is serialized by a specification. -/
def ByteOrder.name : ByteOrder → String
  | bigEndian => "bigendian"
  | littleEndian => "littleendian"

/-- The variant `EthercatPdo` of `SignalSource`. -/
structure EthercatPdo where
  slaveAddress : Option UInt16
  pdoIndex : UInt16
  entryIndex : UInt16
  subIndex : UInt8
  bitLen : UInt16
  byteOffset : Option UInt16
  dataType : Option String
  pdoName : Option String
  entryName : Option String
  deriving DecidableEq, Repr

namespace EthercatPdo

/-- The source as it is serialized. -/
def toJson (s : EthercatPdo) : Value :=
  let m := Fields.insert [] "type" (.string "ethercat_pdo")
  let m := m.insertSome "slave_address" (s.slaveAddress.map fun n => .number (.ofNat n.toNat))
  let m := m.insert "pdo_index" (.number (.ofNat s.pdoIndex.toNat))
  let m := m.insert "entry_index" (.number (.ofNat s.entryIndex.toNat))
  let m := m.insert "sub_index" (.number (.ofNat s.subIndex.toNat))
  let m := m.insert "bit_len" (.number (.ofNat s.bitLen.toNat))
  let m := m.insertSome "byte_offset" (s.byteOffset.map fun n => .number (.ofNat n.toNat))
  let m := m.insertSome "data_type" (s.dataType.map .string)
  let m := m.insertSome "pdo_name" (s.pdoName.map .string)
  let m := m.insertSome "entry_name" (s.entryName.map .string)
  .object m

end EthercatPdo

/-- A closed interval of binary64. -/
structure Range where
  min : UInt64
  max : UInt64
  deriving DecidableEq, Repr

/-- `Range::contains`. -/
def Range.contains (range : Range) (value : UInt64) : Bool :=
  Lib.le64 range.min value && Lib.le64 value range.max

inductive SignalType
  | analogInput
  | analogOutput
  | digitalInput
  | digitalOutput
  deriving DecidableEq, Repr

/-- What `{:?}` shows of a signal type. -/
def SignalType.debug : SignalType → String
  | analogInput => "AnalogInput"
  | analogOutput => "AnalogOutput"
  | digitalInput => "DigitalInput"
  | digitalOutput => "DigitalOutput"

/-- How a register may be accessed. The first is the default. -/
inductive AccessMode
  | read
  | write
  | readWrite
  deriving DecidableEq, Repr, Inhabited

/-- Where a signal comes from. -/
inductive SignalSource
  | register (register : UInt16) (access : AccessMode) (dataType : DataType) (bit : Option UInt8)
  | topic (topic : String)
  | serialCommand (command : String)
  | canFrame (canId : UInt32) (isExtended : Bool) (byteOffset byteLength : UInt8)
      (dataType : DataType) (byteOrder : ByteOrder)
  | ethercatPdo (pdo : EthercatPdo)
  deriving DecidableEq, Repr

structure SignalSpec where
  id : String
  signalType : SignalType
  source : SignalSource
  deriving DecidableEq, Repr

/-- `is_signal_readable`. -/
def SignalSpec.isReadable (signal : SignalSpec) : Bool :=
  match signal.signalType, signal.source with
  | .analogInput, _ | .digitalInput, _ => true
  | _, .register _ access _ _ => access = .read || access = .readWrite
  | _, _ => false

/-- The connection a device is reached by. -/
structure ConnectionRef where
  connectionType : String
  id : String
  unit : Option UInt8
  deriving DecidableEq, Repr

structure DeviceSpec where
  id : String
  connection : Option ConnectionRef
  signals : List SignalSpec
  deriving DecidableEq, Repr

end Nazh
