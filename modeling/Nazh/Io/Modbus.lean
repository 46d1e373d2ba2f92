import Nazh.Io.Decode
import Nazh.Io.Encode

/-!
# Writing to Modbus registers and reading back

A capability call writes the words of a value to holding registers, and a signal read
takes them as two bytes each, highest first, and decodes them as big-endian. For a value
of several words this is the value again if the words were written highest first, or if
they read the same the other way round. A bit is written as the whole register.
-/

namespace Nazh

open Lib

/-- The holding registers of a device, by address. -/
abbrev HoldingRegisters := ℕ → UInt16

namespace HoldingRegisters

/-- `write_multiple_registers`, or `write_single_register` of one word. -/
def write (bank : HoldingRegisters) (register : ℕ) (words : List UInt16) : HoldingRegisters :=
  fun address =>
    if register ≤ address then (words[address - register]?).getD (bank address) else bank address

/-- `read_holding_registers`. -/
def read (bank : HoldingRegisters) (register quantity : ℕ) : List UInt16 :=
  (List.range quantity).map fun i => bank (register + i)

/-- What was written is read. -/
theorem read_write (bank : HoldingRegisters) (register : ℕ) (words : List UInt16) :
    (bank.write register words).read register words.length = words := by
  apply List.ext_getElem
  · simp [read]
  · intro i hi hi'
    simp [read, write, hi']

end HoldingRegisters

/-- The bytes of registers: each word has its highest byte first. -/
def registerBytes (words : List UInt16) : List UInt8 :=
  words.flatMap fun word => beBytes 2 word.toNat

/-- `read_register`, from what the device answers on. -/
def readRegister (bank : HoldingRegisters) (register : ℕ) (dataType : DataType)
    (bit : Option UInt8) (nodeId : String) (traceId : ℕ) : Except EngineError Value :=
  let rawBytes := registerBytes (bank.read register dataType.modbusRegisterCount)
  match decodeRawBytes rawBytes .bigEndian dataType bit with
  | .ok val => .ok val
  | .error e => .error (.stageExecution nodeId traceId s!"信号解码失败: {e.message}")

namespace DataType

/-- The value of a data type with the given bit pattern, as it is decoded. -/
def valueOf (pattern : ℕ) : DataType → Value
  | bool => .bool (pattern != 0)
  | u16 => .number (.ofNat pattern)
  | i16 => .number (.ofInt (UInt16.ofNat pattern).toInt16.toInt)
  | u32 => .number (.ofNat pattern)
  | i32 => .number (.ofInt (UInt32.ofNat pattern).toInt32.toInt)
  | float32 => floatToValue (widen (UInt32.ofNat pattern))
  | float64 => floatToValue (UInt64.ofNat pattern)
  | string => .null

variable (texts : TextLibrary) (valueStr : String)

/-- The value that is meant by a text, as JSON. A float that is not finite has none. -/
def written : DataType → Option Value
  | u16 => (Text.parseUnsigned 16 (Text.trim valueStr)).toOption.map fun n => .number (.ofNat n)
  | i16 => (Text.parseSigned 16 (Text.trim valueStr)).toOption.map fun i => .number (.ofInt i)
  | bool => (parseBoolValue texts valueStr "").toOption.map .bool
  | u32 => (Text.parseUnsigned 32 (Text.trim valueStr)).toOption.map fun n => .number (.ofNat n)
  | i32 => (Text.parseSigned 32 (Text.trim valueStr)).toOption.map fun i => .number (.ofInt i)
  | float32 => (texts.parseF32 (Text.trim valueStr)).toOption.map fun bits =>
      floatToValue (widen bits)
  | float64 => (texts.parseF64 (Text.trim valueStr)).toOption.map floatToValue
  | string => none

end DataType

/-! ## What is written -/

section Written

variable {texts : TextLibrary} {valueStr : String}

/-- What is accepted has a value, and the words are its registers. -/
theorem scalar_of_encodeModbusWords {dt : DataType} {byteOrder nodeId : String}
    {bit : Option UInt8} {words : List UInt16}
    (h : encodeModbusWords texts valueStr dt.name byteOrder bit nodeId = .ok words) :
    ∃ s, dt.scalar texts valueStr = some s ∧ words = s.registers byteOrder := by
  rw [encodeModbusWords] at h
  cases hparse : parseScalar texts "Modbus" valueStr nodeId dt.name with
  | error e =>
      rw [hparse] at h
      cases h
  | ok s =>
      rw [hparse] at h
      refine ⟨s, ?_, (Except.ok.inj h).symm⟩
      rw [← toOption_parseScalar texts "Modbus" valueStr nodeId dt, hparse]
      rfl

/-- A parsed value takes as many registers as its data type. -/
theorem width_of_scalar {dt : DataType} {s : Scalar} (h : dt.scalar texts valueStr = some s) :
    s.width = dt.modbusRegisterCount := by
  cases dt with
  | string => cases h
  | _ =>
      rw [DataType.scalar] at h
      obtain ⟨v, -, rfl⟩ := Option.map_eq_some_iff.mp h
      rfl

theorem eq_ok_of_toOption {α ε : Type} {r : Except ε α} {a : α} (h : r.toOption = some a) :
    r = .ok a := by
  cases r with
  | error e => cases h
  | ok a' =>
      obtain rfl := Option.some.inj h
      rfl

/-- A parsed value is the one that is meant. -/
theorem written_of_scalar {dt : DataType} {s : Scalar} (h : dt.scalar texts valueStr = some s) :
    dt.written texts valueStr = some (dt.valueOf s.pattern) := by
  cases dt with
  | string => cases h
  | u16 =>
      rw [DataType.scalar] at h
      obtain ⟨n, hn, rfl⟩ := Option.map_eq_some_iff.mp h
      have hlt := Text.parseUnsigned_lt (eq_ok_of_toOption hn)
      simp only [DataType.written, hn, Option.map_some, DataType.valueOf, Scalar.pattern,
        UInt16.toNat_ofNat', Nat.mod_eq_of_lt hlt]
  | i16 =>
      rw [DataType.scalar] at h
      obtain ⟨i, hi, rfl⟩ := Option.map_eq_some_iff.mp h
      have hrange := Text.parseSigned_range (eq_ok_of_toOption hi)
      simp only [DataType.written, hi, Option.map_some, DataType.valueOf, Scalar.pattern,
        UInt16.ofNat_toNat, Int16.toInt16_toUInt16,
        Int16.toInt_ofInt_of_le hrange.1 hrange.2]
  | u32 =>
      rw [DataType.scalar] at h
      obtain ⟨n, hn, rfl⟩ := Option.map_eq_some_iff.mp h
      have hlt := Text.parseUnsigned_lt (eq_ok_of_toOption hn)
      simp only [DataType.written, hn, Option.map_some, DataType.valueOf, Scalar.pattern,
        UInt32.toNat_ofNat', Nat.mod_eq_of_lt hlt]
  | i32 =>
      rw [DataType.scalar] at h
      obtain ⟨i, hi, rfl⟩ := Option.map_eq_some_iff.mp h
      have hrange := Text.parseSigned_range (eq_ok_of_toOption hi)
      simp only [DataType.written, hi, Option.map_some, DataType.valueOf, Scalar.pattern,
        UInt32.ofNat_toNat, Int32.toInt32_toUInt32,
        Int32.toInt_ofInt_of_le hrange.1 hrange.2]
  | bool =>
      rw [DataType.scalar] at h
      obtain ⟨b, hb, rfl⟩ := Option.map_eq_some_iff.mp h
      simp only [DataType.written, hb, Option.map_some, DataType.valueOf, Scalar.pattern]
      cases b <;> rfl
  | float32 =>
      rw [DataType.scalar] at h
      obtain ⟨bits, hbits, rfl⟩ := Option.map_eq_some_iff.mp h
      simp only [DataType.written, hbits, Option.map_some, DataType.valueOf, Scalar.pattern,
        UInt32.ofNat_toNat]
  | float64 =>
      rw [DataType.scalar] at h
      obtain ⟨bits, hbits, rfl⟩ := Option.map_eq_some_iff.mp h
      simp only [DataType.written, hbits, Option.map_some, DataType.valueOf, Scalar.pattern,
        UInt64.ofNat_toNat]

end Written

/-! ## Decoding -/

section Decoding

variable {dt : DataType} {raw : List UInt8} {order : ByteOrder}

/-- A type that is not a text decodes as the number of its bytes. -/
theorem decodeRawBytes_eq_map (hdt : dt ≠ .string) : decodeRawBytes raw order dt none =
    (decodeNumber (2 * dt.modbusRegisterCount) raw order).map dt.valueOf := by
  cases dt with
  | string => exact absurd rfl hdt
  | bool =>
      change (decodeNumber 2 raw order).bind _ = (decodeNumber 2 raw order).map _
      cases decodeNumber 2 raw order <;> rfl
  | u16 =>
      change (decodeNumber 2 raw order).bind _ = (decodeNumber 2 raw order).map _
      cases decodeNumber 2 raw order <;> rfl
  | i16 =>
      change (decodeNumber 2 raw order).bind _ = (decodeNumber 2 raw order).map _
      cases decodeNumber 2 raw order <;> rfl
  | u32 => rfl
  | i32 => rfl
  | float32 => rfl
  | float64 => rfl

/-- It decodes from as many bytes as its registers have. -/
theorem decodeRawBytes_of_length (hdt : dt ≠ .string)
    (hlen : raw.length = 2 * dt.modbusRegisterCount) :
    decodeRawBytes raw order dt none = .ok (dt.valueOf (order.number raw)) := by
  rw [decodeRawBytes_eq_map hdt, decodeNumber_of_length hlen]
  rfl

/-- It does not decode from fewer. -/
theorem decodeRawBytes_of_lt (hdt : dt ≠ .string)
    (hlen : raw.length < 2 * dt.modbusRegisterCount) :
    decodeRawBytes raw order dt none =
      .error (.bufferTooShort (2 * dt.modbusRegisterCount) raw.length) := by
  rw [decodeRawBytes_eq_map hdt, decodeNumber_of_lt hlen]
  rfl

end Decoding

/-- A float that has a JSON number is finite. -/
theorem isFinite64_of_floatToValue {bits : UInt64} (h : floatToValue bits ≠ .null) :
    isFinite64 bits = true := by
  by_contra hne
  exact h (by simp [floatToValue, Value.ofF64, hne])

/-- Patterns of several registers that mean the same are the same, unless they mean nothing. -/
theorem DataType.valueOf_injective {dt : DataType} {p q : ℕ} (hdt : 1 < dt.modbusRegisterCount)
    (hp : p < (2 ^ 16) ^ dt.modbusRegisterCount) (hq : q < (2 ^ 16) ^ dt.modbusRegisterCount)
    (hnull : dt.valueOf q ≠ .null) (h : dt.valueOf p = dt.valueOf q) : p = q := by
  have same32 : p < 2 ^ 32 → q < 2 ^ 32 → UInt32.ofNat p = UInt32.ofNat q → p = q := by
    intro hp hq hpq
    have hnat := congrArg UInt32.toNat hpq
    rwa [UInt32.toNat_ofNat', UInt32.toNat_ofNat', Nat.mod_eq_of_lt hp, Nat.mod_eq_of_lt hq] at hnat
  have hnull' : dt.valueOf p ≠ .null := by
    rw [h]
    exact hnull
  cases dt with
  | bool => exact absurd hdt (by decide)
  | u16 => exact absurd hdt (by decide)
  | i16 => exact absurd hdt (by decide)
  | string => exact absurd hdt (by decide)
  | u32 =>
      simp only [modbusRegisterCount] at hp hq
      exact Number.ofNat_injective (by omega) (by omega) (Value.number.inj h)
  | i32 =>
      have hrange : ∀ v : Int32, -2 ^ 63 ≤ v.toInt ∧ v.toInt < 2 ^ 63 := by
        intro v
        have hlo := v.le_toInt
        have hhi := v.toInt_lt
        omega
      have hint := Number.ofInt_injective (hrange _) (hrange _) (Value.number.inj h)
      have hbits := congrArg Int32.toUInt32 (Int32.toInt_inj.mp hint)
      rw [UInt32.toUInt32_toInt32, UInt32.toUInt32_toInt32] at hbits
      exact same32 (by simpa [modbusRegisterCount] using hp)
        (by simpa [modbusRegisterCount] using hq) hbits
  | float32 =>
      have hfinite := isFinite64_of_floatToValue hnull
      have hfinite' := isFinite64_of_floatToValue hnull'
      simp only [valueOf, floatToValue, Value.ofF64, hfinite, hfinite', if_true] at h
      rw [isFinite64_widen] at hfinite hfinite'
      have hwide := Number.float.inj (Value.number.inj h)
      exact same32 (by simpa [modbusRegisterCount] using hp)
        (by simpa [modbusRegisterCount] using hq) (widen_injective hfinite' hfinite hwide)
  | float64 =>
      have hfinite := isFinite64_of_floatToValue hnull
      have hfinite' := isFinite64_of_floatToValue hnull'
      simp only [valueOf, floatToValue, Value.ofF64, hfinite, hfinite', if_true] at h
      have hnat := congrArg UInt64.toNat (Number.float.inj (Value.number.inj h))
      have hp64 : p < 2 ^ 64 := by simpa [modbusRegisterCount] using hp
      have hq64 : q < 2 ^ 64 := by simpa [modbusRegisterCount] using hq
      rwa [UInt64.toNat_ofNat', UInt64.toNat_ofNat', Nat.mod_eq_of_lt hp64,
        Nat.mod_eq_of_lt hq64] at hnat

/-! ## Writing and reading back -/

/-- Read as big-endian, words that are lowest first make the number the other way round. -/
theorem fromBeBytes_registers (s : Scalar) (byteOrder : String) :
    fromBeBytes (registerBytes (s.registers byteOrder)) =
      if isLittle byteOrder then reverseDigits (2 ^ 16) s.width s.pattern else s.pattern := by
  rw [registerBytes, fromBeBytes_flatMap, Scalar.map_registers, Scalar.words, ByteOrder.ofText]
  split
  · rfl
  · simp only [ByteOrder.arrange, List.reverse_reverse]
    exact ofDigits_lowDigits s.pattern_lt

theorem length_registers (s : Scalar) (byteOrder : String) :
    (s.registers byteOrder).length = s.width := by
  have h := congrArg List.length (s.map_registers byteOrder)
  simpa [Scalar.words] using h

theorem length_registerBytes (words : List UInt16) :
    (registerBytes words).length = 2 * words.length := by
  simp [registerBytes, List.length_flatMap, List.map_const', Nat.mul_comm]

/-- What a signal read makes of the registers of a value. -/
theorem readRegister_write {texts : TextLibrary} {valueStr : String} {dt : DataType} {s : Scalar}
    (hs : dt.scalar texts valueStr = some s) (byteOrder nodeId : String) (bank : HoldingRegisters)
    (register traceId : ℕ) :
    readRegister (bank.write register (s.registers byteOrder)) register dt none nodeId traceId =
      .ok (dt.valueOf
        (if isLittle byteOrder then reverseDigits (2 ^ 16) s.width s.pattern else s.pattern)) := by
  have hdt : dt ≠ .string := by
    rintro rfl
    cases hs
  have hcount : dt.modbusRegisterCount = (s.registers byteOrder).length := by
    rw [length_registers, width_of_scalar hs]
  have hlen : (registerBytes (s.registers byteOrder)).length = 2 * dt.modbusRegisterCount := by
    rw [length_registerBytes, hcount]
  simp only [readRegister]
  rw [hcount, HoldingRegisters.read_write, decodeRawBytes_of_length hdt hlen, ByteOrder.number,
    fromBeBytes_registers]

/-- The bit pattern of the value is the same when its 16-bit words are read backwards. -/
def DataType.SameBackwards (texts : TextLibrary) (valueStr : String) (dt : DataType) : Prop :=
  ∀ s, dt.scalar texts valueStr = some s → reverseDigits (2 ^ 16) s.width s.pattern = s.pattern

/-- A value that is accepted, and is finite if it is a float, is read back just if it has
one register, or its words are highest first, or they are the same backwards. -/
theorem reads_back_iff {texts : TextLibrary} {valueStr byteOrder nodeId : String} {dt : DataType}
    {words : List UInt16}
    (hw : encodeModbusWords texts valueStr dt.name byteOrder none nodeId = .ok words)
    (bank : HoldingRegisters) (register traceId : ℕ) :
    ∃ v, dt.written texts valueStr = some v ∧ (v ≠ .null →
      (readRegister (bank.write register words) register dt none nodeId traceId = .ok v ↔
        dt.modbusRegisterCount = 1 ∨ isLittle byteOrder = false ∨
          dt.SameBackwards texts valueStr)) := by
  obtain ⟨s, hs, rfl⟩ := scalar_of_encodeModbusWords hw
  refine ⟨dt.valueOf s.pattern, written_of_scalar hs, ?_⟩
  intro hnull
  have hwidth := width_of_scalar hs
  have hpattern : s.pattern < (2 ^ 16) ^ s.width := s.pattern_lt
  rw [readRegister_write hs, Except.ok.injEq]
  constructor
  · intro hread
    by_cases hone : dt.modbusRegisterCount = 1
    · exact .inl hone
    · by_cases hlittle : isLittle byteOrder = true
      · refine .inr (.inr ?_)
        intro s' hs'
        obtain rfl : s = s' := Option.some.inj (hs.symm.trans hs')
        rw [if_pos hlittle] at hread
        have hpos : 1 < dt.modbusRegisterCount := by
          cases dt <;> simp [DataType.modbusRegisterCount] at hone ⊢
        apply DataType.valueOf_injective hpos _ _ hnull hread
        · rw [← hwidth]
          exact reverseDigits_lt (by norm_num) _ _
        · rw [← hwidth]
          exact hpattern
      · exact .inr (.inl (by simpa using hlittle))
  · rintro (hone | hbig | hsame)
    · have hrev : reverseDigits (2 ^ 16) s.width s.pattern = s.pattern := by
        rw [hwidth, hone] at hpattern ⊢
        rw [reverseDigits_one, Nat.mod_eq_of_lt (by simpa using hpattern)]
      rw [hrev, ite_self]
    · rw [hbig]
      rfl
    · rw [hsame s hs, ite_self]

/-- A signed value of two registers, highest first, is read back. -/
theorem minus_two_read_back :
    readRegister (HoldingRegisters.write (fun _ => 0) 40 [0xFFFF, 0xFFFE]) 40 .i32 none "n" 1 =
      .ok (.number (.negInt (-2))) := by
  have hw : encodeModbusWords plainTexts " -2" DataType.i32.name "big_endian" none "n" =
      .ok [0xFFFF, 0xFFFE] := by decide
  obtain ⟨v, hv, hiff⟩ := reads_back_iff hw (fun _ => 0) 40 1
  have hwritten : DataType.i32.written plainTexts " -2" = some (.number (.negInt (-2))) := by decide
  obtain rfl := Option.some.inj (hwritten.symm.trans hv)
  exact (hiff (by decide)).mpr (.inr (.inl (by decide)))

/-- One, written lowest first, is read back as 65536. -/
theorem one_not_read_back : ∃ words,
    encodeModbusWords plainTexts "1" DataType.u32.name "little_endian" none "n" = .ok words ∧
      DataType.u32.written plainTexts "1" = some (.number (.posInt 1)) ∧
      readRegister (HoldingRegisters.write (fun _ => 0) 40 words) 40 .u32 none "n" 1 =
        .ok (.number (.posInt 65536)) := by
  exact ⟨[1, 0], by decide, by decide, by decide⟩

/-! ## Writing a bit -/

/-- `execute_modbus_write`, as far as the device is concerned. -/
def executeModbusWrite (texts : TextLibrary) (bank : HoldingRegisters) (register : ℕ)
    (valueStr dataType byteOrder : String) (bit : Option UInt8) (nodeId : String) :
    Except EngineError HoldingRegisters :=
  (encodeModbusWords texts valueStr dataType byteOrder bit nodeId).map (bank.write register)

/-- A text stands for a Boolean in a data type: it is parsed to zero or to one. -/
def DataType.IsBoolean (texts : TextLibrary) (valueStr : String) (dt : DataType) (v : Bool) : Prop :=
  ∃ s, dt.scalar texts valueStr = some s ∧ s.pattern = v.toNat

instance (texts : TextLibrary) (valueStr : String) (dt : DataType) (v : Bool) :
    Decidable (dt.IsBoolean texts valueStr v) :=
  decidable_of_iff ((dt.scalar texts valueStr).map Scalar.pattern = some v.toNat) (by
    rw [Option.map_eq_some_iff]
    rfl)

/-- One bit of a register has been written: it is read, and the others are as before. -/
structure BitWritten (bank bank' : HoldingRegisters) (register : ℕ) (dt : DataType) (bit : UInt8)
    (v : Bool) (nodeId : String) (traceId : ℕ) : Prop where
  others : ∀ i < 16, i ≠ bit.toNat →
    (bank' register).toNat.testBit i = (bank register).toNat.testBit i
  read_eq : readRegister bank' register dt (some bit) nodeId traceId = .ok (.bool v)

/-- The other bits of a register are zero. -/
def OthersClear (content : UInt16) (bit : UInt8) : Prop :=
  ∀ i < 16, i ≠ bit.toNat → content.toNat.testBit i = false

section WriteBit

variable {texts : TextLibrary} {valueStr byteOrder nodeId : String} {dt : DataType}
  {bank bank' : HoldingRegisters} {register traceId : ℕ} {bit : UInt8} {v : Bool}

theorem write_singleton (bank : HoldingRegisters) (register : ℕ) (word : UInt16) :
    bank.write register [word] register = word := by
  simp [HoldingRegisters.write]

/-- A bit of one register is read from the register. -/
theorem readRegister_bit (hone : dt.modbusRegisterCount = 1) (hdt : dt ≠ .string)
    (hbit : bit.toNat < 16) :
    readRegister bank register dt (some bit) nodeId traceId =
      .ok (.bool ((bank register).toNat.testBit bit.toNat)) := by
  have hraw : registerBytes (bank.read register 1) = beBytes 2 (bank register).toNat := by
    simp [registerBytes, HoldingRegisters.read]
  have hnumber : decodeNumber 2 (beBytes 2 (bank register).toNat) .bigEndian =
      .ok (bank register).toNat := by
    rw [decodeNumber_of_length (length_beBytes _ _), ByteOrder.number,
      fromBeBytes_beBytes (bank register).toNat_lt]
  have hindex : checkBitIndex bit 16 = .ok () := by
    have hlt : ¬ (16 : UInt8) ≤ bit := by
      rw [UInt8.le_iff_toNat_le]
      have h16 : (16 : UInt8).toNat = 16 := rfl
      omega
    rw [checkBitIndex, if_neg hlt]
  cases dt with
  | string => exact absurd rfl hdt
  | bool =>
      simp only [readRegister, DataType.modbusRegisterCount, hraw, decodeRawBytes, decodeBool, hnumber,
        Except.bind, bitOr, hindex, Except.map]
      rfl
  | u16 =>
      simp only [readRegister, DataType.modbusRegisterCount, hraw, decodeRawBytes, decodeU16Value,
        hnumber, Except.bind, bitOr, hindex, Except.map]
      rfl
  | i16 =>
      simp only [readRegister, DataType.modbusRegisterCount, hraw, decodeRawBytes, decodeI16Value,
        hnumber, Except.bind, bitOr, hindex, Except.map]
      rfl
  | u32 => exact absurd hone (by decide)
  | i32 => exact absurd hone (by decide)
  | float32 => exact absurd hone (by decide)
  | float64 => exact absurd hone (by decide)

/-- Of a value of several registers no bit is read. -/
theorem readRegister_bit_of_wide (hwide : dt.modbusRegisterCount ≠ 1) (value : Value) :
    readRegister bank register dt (some bit) nodeId traceId ≠ .ok value := by
  cases dt with
  | u32 => simp [readRegister, decodeRawBytes]
  | i32 => simp [readRegister, decodeRawBytes]
  | float32 => simp [readRegister, decodeRawBytes]
  | float64 => simp [readRegister, decodeRawBytes]
  | _ => exact absurd rfl hwide

/-- A Boolean of one register is written as the register zero or one. -/
theorem register_of_execute (hv : dt.IsBoolean texts valueStr v) (hone : dt.modbusRegisterCount = 1)
    (h : executeModbusWrite texts bank register valueStr dt.name byteOrder (some bit) nodeId =
      .ok bank') : (bank' register).toNat = v.toNat := by
  rw [executeModbusWrite] at h
  cases hw : encodeModbusWords texts valueStr dt.name byteOrder (some bit) nodeId with
  | error e =>
      rw [hw] at h
      cases h
  | ok words =>
      rw [hw] at h
      cases h
      obtain ⟨s, hs, rfl⟩ := scalar_of_encodeModbusWords hw
      obtain ⟨s', hs', hpattern⟩ := hv
      obtain rfl := Option.some.inj (hs.symm.trans hs')
      have hlen : (s.registers byteOrder).length = 1 := by
        rw [length_registers, width_of_scalar hs, hone]
      obtain ⟨word, hword⟩ := List.length_eq_one_iff.mp hlen
      have hmap := s.map_registers byteOrder
      rw [hword, Scalar.words, width_of_scalar hs, hone, hpattern] at hmap
      rw [hword, write_singleton]
      rw [lowDigits, lowDigits, ByteOrder.arrange_singleton] at hmap
      rw [List.singleton_inj.mp hmap]
      cases v <;> rfl

theorem testBit_toNat (v : Bool) (i : ℕ) : v.toNat.testBit i = (v && decide (i = 0)) := by
  cases v with
  | false => simp
  | true =>
      cases i with
      | zero => rfl
      | succ i => simp [Nat.testBit_succ]

/-- A bit of a register is written, and the others kept, just if the data type has one register,
the others are zero already, and the value is false or the bit the lowest. -/
theorem bitWritten_iff (hbit : bit.toNat < 16) (hv : dt.IsBoolean texts valueStr v)
    (h : executeModbusWrite texts bank register valueStr dt.name byteOrder (some bit) nodeId =
      .ok bank') (traceId : ℕ) :
    BitWritten bank bank' register dt bit v nodeId traceId ↔
      dt.modbusRegisterCount = 1 ∧ OthersClear (bank register) bit ∧ (v = true → bit = 0) := by
  have hdt : dt ≠ .string := by
    intro heq
    obtain ⟨s, hs, -⟩ := hv
    rw [heq] at hs
    cases hs
  by_cases hone : dt.modbusRegisterCount = 1
  · have hregister := register_of_execute hv hone h
    constructor
    · intro hwritten
      have hread := hwritten.read_eq
      rw [readRegister_bit hone hdt hbit, hregister, testBit_toNat] at hread
      have hlow : v = true → bit = 0 := by
        intro htrue
        have hb : (v && decide (bit.toNat = 0)) = v := Value.bool.inj (Except.ok.inj hread)
        rw [htrue] at hb
        apply UInt8.toNat_inj.mp
        exact of_decide_eq_true (by simpa using hb)
      refine ⟨hone, ?_, hlow⟩
      intro i hi hne
      rw [← hwritten.others i hi hne, hregister, testBit_toNat]
      cases v with
      | false => rfl
      | true =>
          have hzero : i ≠ 0 := by
            intro heq
            rw [hlow rfl] at hne
            exact hne heq
          simp [hzero]
    · intro hcond
      obtain ⟨-, hclear, hlow⟩ := hcond
      constructor
      · intro i hi hne
        rw [hclear i hi hne, hregister, testBit_toNat]
        cases v with
        | false => rfl
        | true =>
            have hzero : i ≠ 0 := by
              intro heq
              rw [hlow rfl] at hne
              exact hne heq
            simp [hzero]
      · rw [readRegister_bit hone hdt hbit, hregister, testBit_toNat]
        cases v with
        | false => rfl
        | true =>
            have hbit0 := hlow rfl
            simp [hbit0]
  · constructor
    · intro hwritten
      exact absurd hwritten.read_eq (readRegister_bit_of_wide hone _)
    · intro hcond
      exact absurd hcond.1 hone

/-- The lowest bit of a register that holds nothing else is written. -/
theorem lowest_bit_written : ∃ bank',
    executeModbusWrite plainTexts (fun _ => 0) 40 "true" "bool" "big_endian" (some 0) "n" = .ok bank' ∧
      BitWritten (fun _ => 0) bank' 40 .bool 0 true "n" 1 := by
  have hv : DataType.bool.IsBoolean plainTexts "true" true := by decide
  refine ⟨_, rfl, (bitWritten_iff (by decide) hv rfl 1).mpr ⟨rfl, ?_, fun _ => rfl⟩⟩
  intro i _ _
  exact Nat.zero_testBit i

/-- Bit 3 is written as the register one: it is read as false, and bit 4 is gone. -/
theorem bit_not_written : ∃ bank',
    executeModbusWrite plainTexts (fun _ => 16) 40 "true" "bool" "big_endian" (some 3) "n" =
      .ok bank' ∧
    DataType.bool.IsBoolean plainTexts "true" true ∧ bank' 40 = 1 ∧
    readRegister bank' 40 .bool (some 3) "n" 1 = .ok (.bool false) ∧
    ¬ BitWritten (fun _ => 16) bank' 40 .bool 3 true "n" 1 := by
  refine ⟨_, rfl, by decide, by decide, by decide, ?_⟩
  intro hwritten
  have hfour := hwritten.others 4 (by decide) (by decide)
  exact absurd hfour (by decide)

end WriteBit

end Nazh
