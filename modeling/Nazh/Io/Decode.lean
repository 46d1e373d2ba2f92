import Nazh.Dsl.Device
import Nazh.Lib.Digits

/-!
# Decoding bytes from a device

The bytes that were read are decoded by the data type and the byte order. A bit is taken
out of one register only.
-/

namespace Nazh

open Lib

/-- Why bytes do not decode. The description of what is wrong with a text is left out. -/
inductive DecodeError
  | bufferTooShort (needed actual : ℕ)
  | bitExtractionUnsupported (dataType : DataType)
  | bitOutOfRange (index width : UInt8)
  | invalidUtf8
  deriving DecidableEq, Repr

/-- The name of a data type in the code. -/
def DataType.debugName : DataType → String
  | bool => "Bool"
  | u16 => "U16"
  | i16 => "I16"
  | u32 => "U32"
  | i32 => "I32"
  | float32 => "Float32"
  | float64 => "Float64"
  | string => "String"

/-- What an error displays. -/
def DecodeError.message : DecodeError → String
  | bufferTooShort needed actual => s!"buffer too short: need {needed} bytes, got {actual}"
  | bitExtractionUnsupported dataType =>
      s!"unsupported data type for bit extraction: {dataType.debugName}"
  | bitOutOfRange index width => s!"bit index {index} out of range for {width}-bit value"
  | invalidUtf8 => "invalid UTF-8 in string decode: "

/-- `modbus_register_count`: a register has two bytes. -/
def DataType.modbusRegisterCount : DataType → ℕ
  | u32 | i32 | float32 => 2
  | float64 => 4
  | bool | u16 | i16 | string => 1

/-- `float_to_value`. -/
def floatToValue (bits : UInt64) : Value := .ofF64 bits

/-- `read_bytes`: the first `n` bytes. -/
def readBytes (n : ℕ) (raw : List UInt8) : Except DecodeError (List UInt8) :=
  if raw.length < n then .error (.bufferTooShort n raw.length) else .ok (raw.take n)

/-- `from_be_bytes` or `from_le_bytes` on the first `n` bytes. -/
def decodeNumber (n : ℕ) (raw : List UInt8) (byteOrder : ByteOrder) : Except DecodeError ℕ :=
  (readBytes n raw).map fun bytes => match byteOrder with
    | .bigEndian => fromBeBytes bytes
    | .littleEndian => fromLeBytes bytes

def checkBitIndex (index width : UInt8) : Except DecodeError Unit :=
  if width ≤ index then .error (.bitOutOfRange index width) else .ok ()

/-- A bit of a register, or else the whole. -/
def bitOr (whole : ℕ → Value) (val : ℕ) : Option UInt8 → Except DecodeError Value
  | some index => (checkBitIndex index 16).map fun _ => .bool (val.testBit index.toNat)
  | none => .ok (whole val)

section Decode

variable (raw : List UInt8) (byteOrder : ByteOrder)

def decodeBool (bit : Option UInt8) : Except DecodeError Value :=
  (decodeNumber 2 raw byteOrder).bind fun val => bitOr (fun val => .bool (val != 0)) val bit

def decodeU16Value (bit : Option UInt8) : Except DecodeError Value :=
  (decodeNumber 2 raw byteOrder).bind fun val => bitOr (fun val => .number (.ofNat val)) val bit

def decodeI16Value (bit : Option UInt8) : Except DecodeError Value :=
  (decodeNumber 2 raw byteOrder).bind fun val =>
    bitOr (fun val => .number (.ofInt (UInt16.ofNat val).toInt16.toInt)) val bit

def decodeU32Value : Except DecodeError Value :=
  (decodeNumber 4 raw byteOrder).map fun val => .number (.ofNat val)

def decodeI32Value : Except DecodeError Value :=
  (decodeNumber 4 raw byteOrder).map fun val => .number (.ofInt (UInt32.ofNat val).toInt32.toInt)

def decodeFloat32Value : Except DecodeError Value :=
  (decodeNumber 4 raw byteOrder).map fun val => floatToValue (widen (UInt32.ofNat val))

def decodeFloat64Value : Except DecodeError Value :=
  (decodeNumber 8 raw byteOrder).map fun val => floatToValue (UInt64.ofNat val)

/-- `decode_raw_bytes`. -/
def decodeRawBytes (dataType : DataType) (bit : Option UInt8) : Except DecodeError Value :=
  if bit.isSome && !([DataType.bool, .u16, .i16].contains dataType) then
    .error (.bitExtractionUnsupported dataType)
  else match dataType with
    | .bool => decodeBool raw byteOrder bit
    | .u16 => decodeU16Value raw byteOrder bit
    | .i16 => decodeI16Value raw byteOrder bit
    | .u32 => decodeU32Value raw byteOrder
    | .i32 => decodeI32Value raw byteOrder
    | .float32 => decodeFloat32Value raw byteOrder
    | .float64 => decodeFloat64Value raw byteOrder
    | .string => match String.fromUTF8? ⟨raw.toArray⟩ with
        | some s => .ok (.string s)
        | none => .error .invalidUtf8

end Decode

/-- `extract_pdo_bytes`. -/
def extractPdoBytes (pdoData : List UInt8) (byteOffset byteLen : ℕ) :
    Except DecodeError (List UInt8) :=
  if pdoData.length < byteOffset + byteLen then
    .error (.bufferTooShort (byteOffset + byteLen) pdoData.length)
  else .ok ((pdoData.drop byteOffset).take byteLen)

/-- The number that bytes are in a byte order. -/
def ByteOrder.number (order : ByteOrder) (bytes : List UInt8) : ℕ :=
  match order with
  | .bigEndian => fromBeBytes bytes
  | .littleEndian => fromLeBytes bytes

/-- A number decodes if there are enough bytes. -/
theorem decodeNumber_of_length {n : ℕ} {raw : List UInt8} (h : raw.length = n)
    (byteOrder : ByteOrder) : decodeNumber n raw byteOrder = .ok (byteOrder.number raw) := by
  rw [decodeNumber, readBytes, if_neg (by omega)]
  cases byteOrder <;> simp [Except.map, ← h, ByteOrder.number]

theorem decodeNumber_of_lt {n : ℕ} {raw : List UInt8} (h : raw.length < n)
    (byteOrder : ByteOrder) :
    decodeNumber n raw byteOrder = .error (.bufferTooShort n raw.length) := by
  rw [decodeNumber, readBytes, if_pos h]
  rfl

end Nazh
