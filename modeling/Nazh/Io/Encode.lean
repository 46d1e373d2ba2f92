import Nazh.Core.Error
import Nazh.Core.Text
import Nazh.Dsl.Device
import Nazh.Lib.Digits

/-!
# Encoding values for a device

A capability call writes a value that is given as a text. The text is parsed by the
data type, and the value is split into 16-bit registers or into bytes. The data type
and the byte order are texts, and what is not recognized as little-endian is big-endian.

The parsers of floats and the lower case are parameters. A float is its bits.
-/

namespace Nazh

open Lib

/-- Operations on texts that the language's library provides. -/
structure TextLibrary where
  /-- `to_lowercase`. -/
  toLowercase : String → String
  /-- `parse::<f32>`, by bits. -/
  parseF32 : String → Except String UInt32
  /-- `parse::<f64>`, by bits. -/
  parseF64 : String → Except String UInt64

/-- A library that parses no floats. -/
def plainTexts : TextLibrary where
  toLowercase := Text.toAsciiLowercase
  parseF32 _ := .error "invalid float literal"
  parseF64 _ := .error "invalid float literal"

/-- A value of a data type. -/
inductive Scalar
  | u16 (v : UInt16)
  | i16 (v : Int16)
  | bool (b : Bool)
  | u32 (v : UInt32)
  | i32 (v : Int32)
  | float32 (bits : UInt32)
  | float64 (bits : UInt64)
  deriving DecidableEq

/-! ## Parsing -/

section Parse

variable (texts : TextLibrary) (label valueStr nodeId : String)

/-- `parse_bool_value`. -/
def parseBoolValue (value nodeId : String) : Except EngineError Bool :=
  match texts.toLowercase (Text.trim value) with
  | "true" | "1" => .ok true
  | "false" | "0" => .ok false
  | other => .error (.nodeConfig nodeId s!"布尔值 \x60{other}\x60 无效，期望 true/false/1/0")

/-- The error of a value that does not parse. -/
def orNotValid {α : Type} (typeName : String) : Except String α → Except EngineError α
  | .ok v => .ok v
  | .error e =>
      .error (.nodeConfig nodeId s!"{label} 写入值 \x60{valueStr}\x60 不是有效 {typeName}: {e}")

/-- The match on the data type that the encoders share, up to what they call themselves. -/
def parseScalar (dataType : String) : Except EngineError Scalar :=
  let text := Text.trim valueStr
  match dataType with
  | "u16" | "" =>
      (orNotValid label valueStr nodeId "u16"
        ((Text.parseUnsigned 16 text).mapError Text.IntErrorKind.message)).map fun n =>
          .u16 (UInt16.ofNat n)
  | "i16" =>
      (orNotValid label valueStr nodeId "i16"
        ((Text.parseSigned 16 text).mapError Text.IntErrorKind.message)).map fun i =>
          .i16 (Int16.ofInt i)
  | "bool" => (parseBoolValue texts valueStr nodeId).map .bool
  | "u32" =>
      (orNotValid label valueStr nodeId "u32"
        ((Text.parseUnsigned 32 text).mapError Text.IntErrorKind.message)).map fun n =>
          .u32 (UInt32.ofNat n)
  | "i32" =>
      (orNotValid label valueStr nodeId "i32"
        ((Text.parseSigned 32 text).mapError Text.IntErrorKind.message)).map fun i =>
          .i32 (Int32.ofInt i)
  | "float32" => (orNotValid label valueStr nodeId "float32" (texts.parseF32 text)).map .float32
  | "float64" => (orNotValid label valueStr nodeId "float64" (texts.parseF64 text)).map .float64
  | other => .error (.nodeConfig nodeId s!"{label} capabilityCall 不支持的 data_type: {other}")

end Parse

/-! ## Registers and bytes -/

/-- `matches!(byte_order, "little_endian" | "little")`. -/
def isLittle (byteOrder : String) : Bool :=
  match byteOrder with
  | "little_endian" | "little" => true
  | _ => false

/-- `u32_to_registers`: the low word first, or the high word. -/
def u32ToRegisters (v : UInt32) (byteOrder : String) : List UInt16 :=
  if isLittle byteOrder then [(v &&& 0xFFFF).toUInt16, ((v >>> 16) &&& 0xFFFF).toUInt16]
  else [((v >>> 16) &&& 0xFFFF).toUInt16, (v &&& 0xFFFF).toUInt16]

/-- `u64_to_registers`. -/
def u64ToRegisters (v : UInt64) (byteOrder : String) : List UInt16 :=
  if isLittle byteOrder then
    [(v &&& 0xFFFF).toUInt16, ((v >>> 16) &&& 0xFFFF).toUInt16,
      ((v >>> 32) &&& 0xFFFF).toUInt16, ((v >>> 48) &&& 0xFFFF).toUInt16]
  else
    [((v >>> 48) &&& 0xFFFF).toUInt16, ((v >>> 32) &&& 0xFFFF).toUInt16,
      ((v >>> 16) &&& 0xFFFF).toUInt16, (v &&& 0xFFFF).toUInt16]

/-- The order that an encoder takes a text for. -/
def ByteOrder.ofText (byteOrder : String) : ByteOrder :=
  if isLittle byteOrder then .littleEndian else .bigEndian

/-- Digits, given lowest first, in a byte order. -/
def ByteOrder.arrange {α : Type} (order : ByteOrder) (digits : List α) : List α :=
  match order with
  | .littleEndian => digits
  | .bigEndian => digits.reverse

@[simp] theorem ByteOrder.length_arrange {α : Type} (order : ByteOrder) (digits : List α) :
    (order.arrange digits).length = digits.length := by
  cases order with
  | littleEndian => rfl
  | bigEndian => exact List.length_reverse

namespace Scalar

/-- The registers of a value. -/
def registers (byteOrder : String) : Scalar → List UInt16
  | u16 v => [v]
  | i16 v => [v.toUInt16]
  | bool b => [if b then 1 else 0]
  | u32 v => u32ToRegisters v byteOrder
  | i32 v => u32ToRegisters v.toUInt32 byteOrder
  | float32 bits => u32ToRegisters bits byteOrder
  | float64 bits => u64ToRegisters bits byteOrder

/-- The count of registers a value takes. -/
def width : Scalar → ℕ
  | u16 _ | i16 _ | bool _ => 1
  | u32 _ | i32 _ | float32 _ => 2
  | float64 _ => 4

/-- The count of bytes a value takes outside registers. -/
def byteWidth : Scalar → ℕ
  | bool _ => 1
  | s => 2 * s.width

/-- The bit pattern of a value. -/
def pattern : Scalar → ℕ
  | u16 v => v.toNat
  | i16 v => v.toUInt16.toNat
  | bool b => b.toNat
  | u32 v => v.toNat
  | i32 v => v.toUInt32.toNat
  | float32 bits => bits.toNat
  | float64 bits => bits.toNat

/-- `to_le_bytes` or `to_be_bytes`; a Boolean is one byte. -/
def bytesIn (isLe : Bool) (s : Scalar) : List UInt8 :=
  if isLe then leBytes s.byteWidth s.pattern else beBytes s.byteWidth s.pattern

theorem pattern_lt (s : Scalar) : s.pattern < (2 ^ 16) ^ s.width := by
  cases s with
  | u16 v => exact v.toNat_lt
  | i16 v => exact v.toUInt16.toNat_lt
  | bool b =>
      have hb : b.toNat ≤ 1 := Bool.toNat_le b
      simp only [pattern, width]
      omega
  | u32 v => exact v.toNat_lt
  | i32 v => exact v.toUInt32.toNat_lt
  | float32 bits => exact bits.toNat_lt
  | float64 bits => exact bits.toNat_lt

/-- The words of a value. -/
def words (order : ByteOrder) (s : Scalar) : List ℕ :=
  order.arrange (lowDigits (2 ^ 16) s.width s.pattern)

end Scalar

/-- Masking sixteen bits is taking the remainder. -/
theorem and_mask (n : ℕ) : n % 2 ^ 16 &&& 0xFFFF = n % 2 ^ 16 := by
  have h := Nat.and_two_pow_sub_one_eq_mod (n % 2 ^ 16) 16
  rw [Nat.mod_mod] at h
  exact h

theorem toNat_word32 (v : UInt32) : (v &&& 0xFFFF).toUInt16.toNat = v.toNat % 2 ^ 16 := by
  simpa using and_mask v.toNat

theorem toNat_word64 (v : UInt64) : (v &&& 0xFFFF).toUInt16.toNat = v.toNat % 2 ^ 16 := by
  simpa using and_mask v.toNat

theorem map_u32ToRegisters (v : UInt32) (byteOrder : String) :
    (u32ToRegisters v byteOrder).map UInt16.toNat =
      (ByteOrder.ofText byteOrder).arrange (lowDigits (2 ^ 16) 2 v.toNat) := by
  have hshift : (v >>> 16).toNat = v.toNat / 2 ^ 16 := by
    simp [UInt32.toNat_shiftRight, Nat.shiftRight_eq_div_pow]
  rw [u32ToRegisters, ByteOrder.ofText]
  split
  · simp only [List.map_cons, List.map_nil, toNat_word32, hshift, lowDigits, ByteOrder.arrange]
  · simp only [List.map_cons, List.map_nil, toNat_word32, hshift, lowDigits, ByteOrder.arrange,
      List.reverse_cons, List.reverse_nil, List.nil_append, List.cons_append]

theorem map_u64ToRegisters (v : UInt64) (byteOrder : String) :
    (u64ToRegisters v byteOrder).map UInt16.toNat =
      (ByteOrder.ofText byteOrder).arrange (lowDigits (2 ^ 16) 4 v.toNat) := by
  have hshift : ∀ k : ℕ, k < 4 → (v >>> UInt64.ofNat (16 * k)).toNat = v.toNat / (2 ^ 16) ^ k := by
    intro k hk
    rw [UInt64.toNat_shiftRight, Nat.shiftRight_eq_div_pow, ← Nat.pow_mul, UInt64.toNat_ofNat']
    congr 2
    omega
  have h1 : (v >>> 16).toNat = v.toNat / 2 ^ 16 := hshift 1 (by decide)
  have h2 : (v >>> 32).toNat = v.toNat / 2 ^ 16 / 2 ^ 16 := by
    rw [Nat.div_div_eq_div_mul]
    exact hshift 2 (by decide)
  have h3 : (v >>> 48).toNat = v.toNat / 2 ^ 16 / 2 ^ 16 / 2 ^ 16 := by
    rw [Nat.div_div_eq_div_mul, Nat.div_div_eq_div_mul]
    exact hshift 3 (by decide)
  rw [u64ToRegisters, ByteOrder.ofText]
  split
  · simp only [List.map_cons, List.map_nil, toNat_word64, h1, h2, h3, lowDigits,
      ByteOrder.arrange]
  · simp only [List.map_cons, List.map_nil, toNat_word64, h1, h2, h3, lowDigits,
      ByteOrder.arrange, List.reverse_cons, List.reverse_nil, List.nil_append, List.cons_append]

theorem ByteOrder.arrange_singleton {α : Type} (order : ByteOrder) (a : α) :
    order.arrange [a] = [a] := by
  cases order <;> rfl

/-- The registers of a value are its words in the order the text is taken for. -/
theorem Scalar.map_registers (s : Scalar) (byteOrder : String) :
    (s.registers byteOrder).map UInt16.toNat = s.words (.ofText byteOrder) := by
  have single : ∀ v : UInt16,
      [v.toNat] = (ByteOrder.ofText byteOrder).arrange (lowDigits (2 ^ 16) 1 v.toNat) := by
    intro v
    have hv : v.toNat < 2 ^ 16 := v.toNat_lt
    rw [lowDigits, lowDigits, Nat.mod_eq_of_lt hv, ByteOrder.arrange_singleton]
  cases s with
  | u16 v => exact single v
  | i16 v => exact single v.toUInt16
  | bool b =>
      cases b with
      | false => exact single 0
      | true => exact single 1
  | u32 v => exact map_u32ToRegisters v byteOrder
  | i32 v => exact map_u32ToRegisters v.toUInt32 byteOrder
  | float32 bits => exact map_u32ToRegisters bits byteOrder
  | float64 bits => exact map_u64ToRegisters bits byteOrder

/-! ## The encoders -/

section Encoders

variable (texts : TextLibrary) (valueStr dataType byteOrder : String)

/-- `encode_modbus_words`. The position of a bit is read by nobody. -/
def encodeModbusWords (_bit : Option UInt8) (nodeId : String) : Except EngineError (List UInt16) :=
  (parseScalar texts "Modbus" valueStr nodeId dataType).map (Scalar.registers byteOrder)

/-- `encode_value_to_bytes`. -/
def encodeValueToBytes (nodeId : String) : Except EngineError (List UInt8) :=
  (parseScalar texts "CAN" valueStr nodeId dataType).map (Scalar.bytesIn (isLittle byteOrder))

/-- `replace` of the text `0` and then `x` by nothing. -/
def dropPrefixes (x : Char) : List Char → List Char
  | '0' :: c :: rest => if c = x then dropPrefixes x rest else '0' :: dropPrefixes x (c :: rest)
  | c :: rest => c :: dropPrefixes x rest
  | [] => []

/-- The value of a hexadecimal digit. -/
def hexDigit (c : Char) : Option ℕ :=
  if '0'.toNat ≤ c.toNat ∧ c.toNat ≤ '9'.toNat then some (c.toNat - '0'.toNat)
  else if 'a'.toNat ≤ c.toNat ∧ c.toNat ≤ 'f'.toNat then some (c.toNat - 'a'.toNat + 10)
  else if 'A'.toNat ≤ c.toNat ∧ c.toNat ≤ 'F'.toNat then some (c.toNat - 'A'.toNat + 10)
  else none

/-- The characters between hexadecimal digits that are dropped. -/
def isHexSeparator (c : Char) : Bool :=
  [' ', '\t', '\n', '\r', Char.ofNat 0xC, '_', '-', ':', ','].contains c

/-- The digits of a text, or the first character that has no place in it. -/
def cleanHex : List Char → Except String (List ℕ)
  | [] => .ok []
  | c :: rest => match hexDigit c with
    | some d => (cleanHex rest).map (d :: ·)
    | none => if isHexSeparator c then cleanHex rest else .error s!"非法十六进制字符: {c}"

/-- `hex::decode` on digits. -/
def hexBytes : List ℕ → Except String (List UInt8)
  | [] => .ok []
  | [_] => .error "Odd number of digits"
  | hi :: lo :: rest => (hexBytes rest).map (UInt8.ofNat (16 * hi + lo) :: ·)

/-- `parse_hex_bytes`. -/
def parseHexBytes (value : String) : Except String (List UInt8) :=
  (cleanHex (dropPrefixes 'X' (dropPrefixes 'x' value.toList))).bind hexBytes

/-- `encode_can_frame_data`. The scale is read by nobody. -/
def encodeCanFrameData (byteOffset byteLength : UInt8) (_scale : Option String) (nodeId : String) :
    Except EngineError (List UInt8) :=
  if byteLength = 0 then
    match parseHexBytes valueStr with
    | .ok bytes => .ok bytes
    | .error e => .error (.nodeConfig nodeId s!"CAN 十六进制数据解析失败: {e}")
  else if 8 < byteOffset.toNat + byteLength.toNat then
    .error (.nodeConfig nodeId s!"CAN 帧编码区域越界：byte_offset={byteOffset} + byte_length={byteLength} > 8")
  else match encodeValueToBytes texts valueStr dataType byteOrder nodeId with
    | .error e => .error e
    | .ok encodedBytes =>
        let srcSlice := encodedBytes.drop (encodedBytes.length - byteLength.toNat)
        if srcSlice.length ≠ byteLength.toNat then
          .error (.nodeConfig nodeId s!"CAN 帧编码长度不匹配：data_type={dataType} 编码为 {srcSlice.length} 字节，但 byte_length={byteLength}")
        else .ok (List.replicate byteOffset.toNat 0 ++ srcSlice ++
          List.replicate (8 - byteOffset.toNat - byteLength.toNat) 0)

end Encoders

/-! ## Parsing by a data type -/

/-- The value that a text is parsed to. -/
def DataType.scalar (texts : TextLibrary) (valueStr : String) : DataType → Option Scalar
  | u16 => (Text.parseUnsigned 16 (Text.trim valueStr)).toOption.map fun n => .u16 (.ofNat n)
  | i16 => (Text.parseSigned 16 (Text.trim valueStr)).toOption.map fun i => .i16 (.ofInt i)
  | bool => (parseBoolValue texts valueStr "").toOption.map .bool
  | u32 => (Text.parseUnsigned 32 (Text.trim valueStr)).toOption.map fun n => .u32 (.ofNat n)
  | i32 => (Text.parseSigned 32 (Text.trim valueStr)).toOption.map fun i => .i32 (.ofInt i)
  | float32 => (texts.parseF32 (Text.trim valueStr)).toOption.map .float32
  | float64 => (texts.parseF64 (Text.trim valueStr)).toOption.map .float64
  | string => none

theorem toOption_orNotValid {α β : Type} (label valueStr nodeId typeName : String)
    (f : α → β) (r : Except String α) :
    ((orNotValid label valueStr nodeId typeName r).map f).toOption = r.toOption.map f := by
  cases r <;> rfl

theorem toOption_mapError {α ε ε' : Type} (f : ε → ε') (r : Except ε α) :
    (r.mapError f).toOption = r.toOption := by
  cases r <;> rfl

theorem toOption_parseBoolValue (texts : TextLibrary) (value nodeId nodeId' : String) :
    (parseBoolValue texts value nodeId).toOption = (parseBoolValue texts value nodeId').toOption := by
  rw [parseBoolValue, parseBoolValue]
  split <;> rfl

theorem toOption_map {α β ε : Type} (f : α → β) (r : Except ε α) :
    (r.map f).toOption = r.toOption.map f := by
  cases r <;> rfl

/-- The encoders parse a text by the name of a data type as that type. -/
theorem toOption_parseScalar (texts : TextLibrary) (label valueStr nodeId : String)
    (dt : DataType) :
    (parseScalar texts label valueStr nodeId dt.name).toOption = dt.scalar texts valueStr := by
  cases dt with
  | bool =>
      simp only [DataType.name, parseScalar, DataType.scalar, toOption_map]
      rw [toOption_parseBoolValue texts valueStr nodeId ""]
  | string => rfl
  | _ =>
      simp only [DataType.name, parseScalar, DataType.scalar, toOption_orNotValid,
        toOption_mapError]

end Nazh
