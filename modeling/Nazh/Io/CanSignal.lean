import Nazh.Io.Modbus

/-!
# Writing a signal to a CAN frame and reading it back

A capability call puts the bytes of a value at a place in a frame of eight bytes. Two nodes take
a signal out of a received frame: a signal read that waits for it, and the listener of a trigger.
They decode the bytes at this place.

The encoder takes the last bytes of the value if the place is too short for it, and the decoder
takes two bytes for a Boolean, which is written as one.
-/

namespace Nazh

open Lib

/-! ## Reading a signal -/

/-- The bytes at a place of a frame, if the frame has them. -/
def canSlice (data : List UInt8) (byteOffset byteLength : UInt8) : Option (List UInt8) :=
  let start := byteOffset.toNat
  let stop := start + byteLength.toNat
  if data.length < stop then none else some ((data.drop start).take byteLength.toNat)

/-- `read_can_frame`, from the frame it has waited for on. -/
def readCanFrame (data : List UInt8) (byteOffset byteLength : UInt8) (dataType : DataType)
    (byteOrder : ByteOrder) (nodeId : String) (traceId : ℕ) : Except EngineError Value :=
  match canSlice data byteOffset byteLength with
  | none => .error (.stageExecution nodeId traceId
      s!"CAN 帧 payload 越界: offset={byteOffset}, length={byteLength}, frame_len={data.length}")
  | some raw => match decodeRawBytes raw byteOrder dataType none with
    | .ok val => .ok val
    | .error e => .error (.stageExecution nodeId traceId s!"CAN 帧解码失败: {e.message}")

/-- `process_can_frame` for one signal, up to its scale. A frame that does not decode is passed
over with a warning. -/
def processCanSignal (data : List UInt8) (byteOffset byteLength : UInt8) (dataType : DataType)
    (byteOrder : ByteOrder) : Option Value :=
  (canSlice data byteOffset byteLength).bind fun raw =>
    (decodeRawBytes raw byteOrder dataType none).toOption

/-- A frame of eight bytes has a value at a place, for both readers, and is zero elsewhere. -/
structure CarriesSignal (data : List UInt8) (byteOffset byteLength : UInt8) (dataType : DataType)
    (byteOrder : ByteOrder) (v : Value) : Prop where
  length_eq : data.length = 8
  read : ∀ nodeId traceId,
    readCanFrame data byteOffset byteLength dataType byteOrder nodeId traceId = .ok v
  processed : processCanSignal data byteOffset byteLength dataType byteOrder = some v
  outside : ∀ i < 8, i < byteOffset.toNat ∨ byteOffset.toNat + byteLength.toNat ≤ i →
    data[i]? = some 0

/-! ## What is written -/

section Written

variable {texts : TextLibrary} {valueStr byteOrder nodeId : String} {dt : DataType}
  {byteOffset byteLength : UInt8} {scale : Option String} {data : List UInt8}

/-- A parsed value has at most the bytes that are decoded, and all of them unless it is a Boolean. -/
theorem byteWidth_of_scalar {s : Scalar} (hs : dt.scalar texts valueStr = some s) :
    s.byteWidth ≤ 2 * dt.modbusRegisterCount ∧
      (s.byteWidth = 2 * dt.modbusRegisterCount ∨ s.byteWidth = 1) := by
  cases dt with
  | string => cases hs
  | bool =>
      rw [DataType.scalar] at hs
      obtain ⟨b, -, rfl⟩ := Option.map_eq_some_iff.mp hs
      exact ⟨Nat.le_succ 1, .inr rfl⟩
  | _ =>
      rw [DataType.scalar] at hs
      obtain ⟨v, -, rfl⟩ := Option.map_eq_some_iff.mp hs
      exact ⟨Nat.le_refl _, .inl rfl⟩

/-- The frame that is written: the last bytes of the value at their place. -/
theorem frame_of_encode (hlen : byteLength ≠ 0)
    (h : encodeCanFrameData texts valueStr dt.name byteOrder byteOffset byteLength scale nodeId =
      .ok data) :
    ∃ s, dt.scalar texts valueStr = some s ∧ byteLength.toNat ≤ s.byteWidth ∧
      byteOffset.toNat + byteLength.toNat ≤ 8 ∧
      data = List.replicate byteOffset.toNat 0 ++
        (s.bytesIn (isLittle byteOrder)).drop (s.byteWidth - byteLength.toNat) ++
        List.replicate (8 - byteOffset.toNat - byteLength.toNat) 0 := by
  rw [encodeCanFrameData, if_neg hlen] at h
  split at h
  · cases h
  · rename_i hfits
    rw [encodeValueToBytes] at h
    cases hparse : parseScalar texts "CAN" valueStr nodeId dt.name with
    | error e =>
        rw [hparse] at h
        cases h
    | ok s =>
        rw [hparse] at h
        have hs : dt.scalar texts valueStr = some s := by
          rw [← toOption_parseScalar texts "CAN" valueStr nodeId dt, hparse]
          rfl
        have hwidth : (s.bytesIn (isLittle byteOrder)).length = s.byteWidth := by
          rw [Scalar.bytesIn]
          split
          · exact length_leBytes _ _
          · exact length_beBytes _ _
        dsimp only [Except.map] at h
        rw [hwidth] at h
        split at h
        · cases h
        · rename_i hslice
          rw [List.length_drop, hwidth] at hslice
          exact ⟨s, hs, by omega, by omega, (Except.ok.inj h).symm⟩

/-- The bytes at the place are those that were put there. -/
theorem canSlice_frame (byteOffset : UInt8) {bytes : List UInt8} (after : ℕ)
    (hbytes : bytes.length = byteLength.toNat) :
    canSlice (List.replicate byteOffset.toNat 0 ++ bytes ++ List.replicate after 0)
      byteOffset byteLength = some bytes := by
  rw [canSlice, if_neg (by simp; omega), List.append_assoc, List.drop_left' (by simp),
    List.take_left' hbytes]

/-- Outside of the place there are zeros. -/
theorem getElem?_frame {bytes : List UInt8} (hbytes : bytes.length = byteLength.toNat)
    (hfits : byteOffset.toNat + byteLength.toNat ≤ 8) {i : ℕ} (hi : i < 8)
    (hout : i < byteOffset.toNat ∨ byteOffset.toNat + byteLength.toNat ≤ i) :
    (List.replicate byteOffset.toNat 0 ++ bytes ++
      List.replicate (8 - byteOffset.toNat - byteLength.toNat) 0)[i]? = some (0 : UInt8) := by
  rcases hout with hbefore | hafter
  · rw [List.append_assoc, List.getElem?_append_left (by simpa using hbefore),
      List.getElem?_replicate, if_pos hbefore]
  · have hlen : (List.replicate byteOffset.toNat (0 : UInt8) ++ bytes).length =
        byteOffset.toNat + byteLength.toNat := by simp [hbytes]
    rw [List.getElem?_append_right (by omega), hlen, List.getElem?_replicate, if_pos (by omega)]

/-- All bytes of a value, in an order, are its pattern. -/
theorem number_bytesIn {s : Scalar} (h : s.pattern < 256 ^ s.byteWidth) :
    (ByteOrder.ofText byteOrder).number (s.bytesIn (isLittle byteOrder)) = s.pattern := by
  rw [ByteOrder.ofText, Scalar.bytesIn]
  cases isLittle byteOrder with
  | true => exact fromLeBytes_leBytes h
  | false => exact fromBeBytes_beBytes h

/-- A frame that is written carries its value just if its place has the bytes that are decoded. -/
theorem canSignal_round_trip_iff (hlen : byteLength ≠ 0)
    (h : encodeCanFrameData texts valueStr dt.name byteOrder byteOffset byteLength scale nodeId =
      .ok data) :
    ∃ v, dt.written texts valueStr = some v ∧
      (CarriesSignal data byteOffset byteLength dt (.ofText byteOrder) v ↔
        byteLength.toNat = 2 * dt.modbusRegisterCount) := by
  obtain ⟨s, hs, hle, hfits, rfl⟩ := frame_of_encode hlen h
  refine ⟨_, written_of_scalar hs, ?_⟩
  have hdt : dt ≠ .string := by
    intro heq
    rw [heq] at hs
    cases hs
  have hwidth : (s.bytesIn (isLittle byteOrder)).length = s.byteWidth := by
    rw [Scalar.bytesIn]
    split
    · exact length_leBytes _ _
    · exact length_beBytes _ _
  let bytes := (s.bytesIn (isLittle byteOrder)).drop (s.byteWidth - byteLength.toNat)
  have hbytes : bytes.length = byteLength.toNat := by
    rw [List.length_drop, hwidth]
    omega
  have hslice := canSlice_frame byteOffset (8 - byteOffset.toNat - byteLength.toNat) hbytes
  obtain ⟨hmax, hkind⟩ := byteWidth_of_scalar hs
  constructor
  · intro hcarries
    by_contra hne
    have hshort : bytes.length < 2 * dt.modbusRegisterCount := by omega
    have hnone := hcarries.processed
    rw [processCanSignal, hslice, Option.bind_some, decodeRawBytes_of_lt hdt hshort] at hnone
    cases hnone
  · intro hexact
    have hall : s.byteWidth = byteLength.toNat := by omega
    have hdecode : decodeRawBytes bytes (.ofText byteOrder) dt none = .ok (dt.valueOf s.pattern) := by
      have hpattern : s.pattern < 256 ^ s.byteWidth := by
        have hlt := s.pattern_lt
        rw [width_of_scalar hs] at hlt
        rw [hall, hexact, Nat.pow_mul]
        exact hlt
      have hbytesEq : bytes = s.bytesIn (isLittle byteOrder) := by
        change (s.bytesIn (isLittle byteOrder)).drop (s.byteWidth - byteLength.toNat) = _
        rw [hall, Nat.sub_self, List.drop_zero]
      rw [decodeRawBytes_of_length hdt (by omega), hbytesEq, number_bytesIn hpattern]
    refine ⟨?_, ?_, ?_, ?_⟩
    · rw [List.length_append, List.length_append, List.length_replicate, List.length_replicate,
        hbytes]
      omega
    · intro nodeId traceId
      rw [readCanFrame, hslice]
      dsimp only
      rw [hdecode]
    · rw [processCanSignal, hslice, Option.bind_some, hdecode]
      rfl
    · intro i hi hout
      exact getElem?_frame hbytes hfits hi hout

end Written

/-- A value of two bytes at a place of two bytes is carried. -/
theorem u16_carried : ∃ data v,
    encodeCanFrameData plainTexts "258" "u16" "little_endian" 2 2 none "n" = .ok data ∧
      DataType.u16.written plainTexts "258" = some v ∧
      CarriesSignal data 2 2 .u16 .littleEndian v := by
  have h : encodeCanFrameData plainTexts "258" DataType.u16.name "little_endian" 2 2 none "n" =
      .ok [0, 0, 2, 1, 0, 0, 0, 0] := by decide
  obtain ⟨v, hv, hiff⟩ := canSignal_round_trip_iff (by decide) h
  exact ⟨_, v, h, hv, hiff.mpr (by decide)⟩

/-- At a place of one byte the encoder drops a byte of the value, and nothing is read. -/
theorem u16_truncated : ∃ data v,
    encodeCanFrameData plainTexts "258" "u16" "little_endian" 2 1 none "n" = .ok data ∧
      data = [0, 0, 1, 0, 0, 0, 0, 0] ∧ DataType.u16.written plainTexts "258" = some v ∧
      ¬ CarriesSignal data 2 1 .u16 .littleEndian v := by
  refine ⟨_, .number (.posInt 258), rfl, by decide, by decide, ?_⟩
  intro hcarries
  have hnone : processCanSignal [0, 0, 1, 0, 0, 0, 0, 0] 2 1 .u16 .littleEndian = none := by decide
  exact absurd (hcarries.processed.symm.trans hnone) (by decide)

end Nazh
