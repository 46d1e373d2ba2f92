import Nazh.Io.Decode
import Nazh.Io.Encode

/-!
# Entries of an EtherCAT process image

The process image of a slave is a list of bytes, and a signal is an entry in it. A
capability call writes the entry at the byte offset that the device specification has. A
signal read takes its place from the indices of the entry instead, and always decodes an
unsigned number of two bytes. So a signal is read where it is written just if its offset
is the one made of the indices, and as what it is just if it is such a number.
-/

namespace Nazh

open Lib

/-! ## The process image -/

/-- Some bytes of a slave's process image. -/
structure ImageSpan where
  slave : UInt16
  start : ℕ
  length : ℕ
  deriving DecidableEq

namespace ImageSpan

/-- The span is inside of an image. -/
def Fits (span : ImageSpan) (image : List UInt8) : Prop := span.start + span.length ≤ image.length

/-- The bytes of a span. -/
def bytes (span : ImageSpan) (image : List UInt8) : List UInt8 :=
  (image.drop span.start).take span.length

/-- Two spans have no byte in common. -/
def Disjoint (a b : ImageSpan) : Prop :=
  a.slave ≠ b.slave ∨ a.start + a.length ≤ b.start ∨ b.start + b.length ≤ a.start

theorem length_bytes {span : ImageSpan} {image : List UInt8} (h : span.Fits image) :
    (span.bytes image).length = span.length := by
  have hfits : span.start + span.length ≤ image.length := h
  rw [bytes, List.length_take, List.length_drop]
  omega

/-- What `extract_pdo_bytes` gives. -/
theorem extractPdoBytes_bytes {span : ImageSpan} {image : List UInt8} (h : span.Fits image) :
    extractPdoBytes image span.start span.length = .ok (span.bytes image) := by
  have hfits : span.start + span.length ≤ image.length := h
  rw [extractPdoBytes, if_neg (by omega)]
  rfl

/-- Images that agree on a span have the same bytes there. -/
theorem bytes_congr {span : ImageSpan} {image image' : List UInt8}
    (h : ∀ i, span.start ≤ i → i < span.start + span.length → image[i]? = image'[i]?) :
    span.bytes image = span.bytes image' := by
  apply List.ext_getElem?
  intro i
  rw [bytes, bytes, List.getElem?_take, List.getElem?_take, List.getElem?_drop, List.getElem?_drop]
  by_cases hi : i < span.length
  · rw [if_pos hi, if_pos hi]
    apply h
    · omega
    · omega
  · rw [if_neg hi, if_neg hi]

end ImageSpan

/-- Put some bytes in the place of others. -/
def splice (image : List UInt8) (start : ℕ) (bytes : List UInt8) : List UInt8 :=
  image.take start ++ bytes ++ image.drop (start + bytes.length)

theorem length_splice {image : List UInt8} {start : ℕ} {bytes : List UInt8}
    (h : start + bytes.length ≤ image.length) : (splice image start bytes).length = image.length := by
  simp only [splice, List.length_append, List.length_take, List.length_drop]
  omega

/-- The rest of an image is left as it was. -/
theorem getElem?_splice {image : List UInt8} {start : ℕ} {bytes : List UInt8}
    (h : start + bytes.length ≤ image.length) {i : ℕ} (hi : i < start ∨ start + bytes.length ≤ i) :
    (splice image start bytes)[i]? = image[i]? := by
  have hstart : (image.take start).length = start := by
    rw [List.length_take]
    omega
  rcases hi with hbefore | hafter
  · rw [splice, List.append_assoc, List.getElem?_append_left (by omega),
      List.getElem?_take_of_lt hbefore]
  · rw [splice, List.getElem?_append_right, List.getElem?_drop]
    · congr 1
      rw [List.length_append]
      omega
    · rw [List.length_append]
      omega

/-! ## The reader -/

/-- The variant `EthercatPdo` of `SignalSourceSnapshot`. -/
structure EthercatPdoSnapshot where
  slaveAddress : Option UInt16
  pdoIndex : UInt16
  entryIndex : UInt16
  subIndex : UInt8
  bitLen : UInt16
  deriving DecidableEq, Repr

namespace EthercatPdoSnapshot

/-- The derived deserialization of this variant. -/
def fromJson (v : Value) : Option EthercatPdoSnapshot := do
  let fields ← v.asObject
  match ← required fields "type" Value.asStr with
  | "ethercat_pdo" =>
      let slaveAddress ← optional fields "slave_address" Value.toU16
      let pdoIndex ← required fields "pdo_index" Value.toU16
      let entryIndex ← required fields "entry_index" Value.toU16
      let subIndex ← required fields "sub_index" Value.toU8
      let bitLen ← required fields "bit_len" Value.toU16
      some ⟨slaveAddress, pdoIndex, entryIndex, subIndex, bitLen⟩
  | _ => none

/-- Where the reader looks. -/
def span (s : EthercatPdoSnapshot) : ImageSpan where
  slave := s.slaveAddress.getD 1
  start := s.pdoIndex.toNat * 2 + s.entryIndex.toNat
  length := (s.bitLen.toNat + 7) / 8

end EthercatPdoSnapshot

/-- `read_ethercat_pdo`, from the bus on. -/
def readEthercatPdo (source : EthercatPdoSnapshot)
    (readInputs : UInt16 → Except String (List UInt8)) (nodeId : String) (traceId : ℕ) :
    Except EngineError Value :=
  match readInputs source.span.slave with
  | .error e => .error (.stageExecution nodeId traceId s!"EtherCAT PDO 读取失败: {e}")
  | .ok inputs =>
      match extractPdoBytes inputs source.span.start source.span.length with
      | .error e => .error (.stageExecution nodeId traceId s!"EtherCAT PDO 字节提取失败: {e.message}")
      | .ok raw =>
          match decodeRawBytes raw .littleEndian .u16 none with
          | .error e => .error (.stageExecution nodeId traceId s!"EtherCAT PDO 解码失败: {e.message}")
          | .ok val => .ok val

/-- The snapshot of a signal: what says where the entry is and what it is called is ignored. -/
def EthercatPdo.snapshot (s : EthercatPdo) : EthercatPdoSnapshot where
  slaveAddress := s.slaveAddress
  pdoIndex := s.pdoIndex
  entryIndex := s.entryIndex
  subIndex := s.subIndex
  bitLen := s.bitLen

theorem EthercatPdo.fromJson_toJson (s : EthercatPdo) :
    EthercatPdoSnapshot.fromJson s.toJson = some s.snapshot := by
  cases hslave : s.slaveAddress <;>
    simp [EthercatPdoSnapshot.fromJson, EthercatPdo.toJson, EthercatPdo.snapshot, required,
      optional, Fields.lookup_insert_of_ne, Fields.lookup_insertSome_of_ne, Value.asObject,
      Value.asStr, hslave]

/-! ## The writer -/

/-- Where the writer of an entry writes. -/
def entrySpan (slaveAddress : Option UInt16) (bitLen byteOffset : UInt16) : ImageSpan where
  slave := slaveAddress.getD 1
  start := byteOffset.toNat
  length := (bitLen.toNat + 7) / 8

section Writer

variable (texts : TextLibrary) (slaveAddress : Option UInt16) (bitLen byteOffset : UInt16)
  (dataType : Option String) (byteOrder resolvedValue nodeId : String) (traceId : ℕ)

/-- `execute_ethercat_pdo_write`, from the encoding to what is given to `write_outputs`. -/
def executeEthercatPdoWrite (readOutputs : UInt16 → Except String (List UInt8)) :
    Except EngineError (List UInt8) :=
  let span := entrySpan slaveAddress bitLen byteOffset
  match encodeValueToBytes texts resolvedValue (dataType.getD "u16") byteOrder nodeId with
  | .error e => .error e
  | .ok encoded =>
      match readOutputs span.slave with
      | .error e => .error (.stageExecution nodeId traceId s!"EtherCAT 读取输出 PDO 失败: {e}")
      | .ok currentOutputs =>
          if currentOutputs.length < span.start + span.length then
            .error (.nodeConfig nodeId s!"EtherCAT PDO 写入偏移越界：byte_offset={byteOffset} + byte_len={span.length} > output_len={currentOutputs.length}")
          else .ok (splice currentOutputs span.start (encoded.take span.length))

variable {texts slaveAddress bitLen byteOffset dataType byteOrder resolvedValue nodeId traceId}

/-- The writer changes nothing outside of its span. -/
theorem executeEthercatPdoWrite_frame {readOutputs : UInt16 → Except String (List UInt8)}
    {outputs written : List UInt8}
    (hread : readOutputs (entrySpan slaveAddress bitLen byteOffset).slave = .ok outputs)
    (hwrite : executeEthercatPdoWrite texts slaveAddress bitLen byteOffset dataType byteOrder
      resolvedValue nodeId traceId readOutputs = .ok written) :
    written.length = outputs.length ∧
      ∀ other : ImageSpan, other.slave = (entrySpan slaveAddress bitLen byteOffset).slave →
        other.Disjoint (entrySpan slaveAddress bitLen byteOffset) →
          other.bytes written = other.bytes outputs := by
  simp only [executeEthercatPdoWrite] at hwrite
  cases hencode : encodeValueToBytes texts resolvedValue (dataType.getD "u16") byteOrder nodeId with
  | error e =>
      rw [hencode] at hwrite
      cases hwrite
  | ok encoded =>
      rw [hencode, hread] at hwrite
      simp only at hwrite
      split at hwrite
      · cases hwrite
      · rename_i hfits
        obtain rfl := Except.ok.inj hwrite
        have htake : (encoded.take (entrySpan slaveAddress bitLen byteOffset).length).length ≤
            (entrySpan slaveAddress bitLen byteOffset).length := List.length_take_le _ _
        constructor
        · exact length_splice (by omega)
        · intro other hslave hdisjoint
          apply ImageSpan.bytes_congr
          intro i hlo hhi
          apply getElem?_splice (by omega)
          rcases hdisjoint with hother | hbefore | hafter
          · exact absurd hslave hother
          · left
            omega
          · right
            omega

/-- Seven is written to the second of three bytes. -/
theorem second_byte_frame :
    ImageSpan.bytes ⟨1, 2, 1⟩ [1, 7, 3] = ImageSpan.bytes ⟨1, 2, 1⟩ [1, 2, 3] :=
  (@executeEthercatPdoWrite_frame plainTexts none 8 1 none "little_endian" "7" "out" 0
    (fun _ => .ok [1, 2, 3]) _ _ rfl (by decide)).2 ⟨1, 2, 1⟩ rfl (.inr (.inr (by decide)))

end Writer

/-! ## What an entry is -/

/-- The types of numbers that an entry can have. -/
inductive EntryType
  | unsigned
  | signed
  | bool
  | float32
  | float64
  deriving DecidableEq, Repr

/-- The number that some bits are, as JSON. -/
def EntryType.value (bitLen bits : ℕ) : EntryType → Option Value
  | unsigned => if bitLen ≤ 64 then some (.number (.ofNat bits)) else none
  | signed =>
      if bitLen ≤ 64 then
        some (.number (.ofInt (if 2 * bits < 2 ^ bitLen then bits else bits - 2 ^ bitLen)))
      else none
  | bool => some (.bool (bits != 0))
  | float32 => if bitLen = 32 then some (floatToValue (widen (.ofNat bits))) else none
  | float64 => if bitLen = 64 then some (floatToValue (.ofNat bits)) else none

namespace EthercatPdo

variable (s : EthercatPdo)

/-- Where the entry is declared to be: a capability made from a signal is written there. -/
def span : ImageSpan := entrySpan s.slaveAddress s.bitLen (s.byteOffset.getD 0)

/-- The bits of the entry. The lowest byte is the first, as everywhere on the bus. -/
def entryBits (image : List UInt8) : ℕ := fromLeBytes (s.span.bytes image) % 2 ^ s.bitLen.toNat

variable (typeNamed : Option String → Option EntryType)

/-- The value of the entry, by what the names of types mean. -/
def entryValue (image : List UInt8) : Option Value :=
  (typeNamed s.dataType).bind fun ty => ty.value s.bitLen.toNat (s.entryBits image)

/-- From every image that has the entry, its value is read. -/
def ReadsEntry (source : EthercatPdoSnapshot) : Prop :=
  ∀ readInputs image, readInputs s.span.slave = .ok image → s.span.Fits image →
    ∀ nodeId traceId, ∃ v, s.entryValue typeNamed image = some v ∧
      readEthercatPdo source readInputs nodeId traceId = .ok v

/-- The bits of two entries do not overlap. -/
def BitsApart (t : EthercatPdo) : Prop :=
  s.span.slave ≠ t.span.slave ∨ 8 * s.span.start + s.bitLen.toNat ≤ 8 * t.span.start ∨
    8 * t.span.start + t.bitLen.toNat ≤ 8 * s.span.start

/-- The offset is the one made of the indices, and the entry is an unsigned word. -/
def Aligned : Prop :=
  (s.byteOffset.getD 0).toNat = s.pdoIndex.toNat * 2 + s.entryIndex.toNat ∧
    s.bitLen = 16 ∧ typeNamed s.dataType = some .unsigned

end EthercatPdo

/-- Every signal of a device is read as its entry, where it is written, and apart from the
others. -/
def ReadsSignals (typeNamed : Option String → Option EntryType) (signals : List EthercatPdo) :
    Prop :=
  (∀ s ∈ signals, ∃ source, EthercatPdoSnapshot.fromJson s.toJson = some source ∧
    s.ReadsEntry typeNamed source ∧ source.span = s.span) ∧
  ∀ s ∈ signals, ∀ t ∈ signals, s.byteOffset.getD 0 ≠ t.byteOffset.getD 0 → s.BitsApart t →
    ∀ source source', EthercatPdoSnapshot.fromJson s.toJson = some source →
      EthercatPdoSnapshot.fromJson t.toJson = some source' → source.span.Disjoint source'.span

/-! ## Reading an entry -/

/-- The reader decodes the first two bytes, if there are two. -/
theorem decodeRawBytes_word (raw : List UInt8) :
    decodeRawBytes raw .littleEndian .u16 none =
      if raw.length < 2 then .error (.bufferTooShort 2 raw.length)
      else .ok (.number (.ofNat (fromLeBytes (raw.take 2)))) := by
  rw [decodeRawBytes, if_neg (by simp), decodeU16Value, decodeNumber, readBytes]
  split
  · rfl
  · rfl

/-- What the reader makes of an image that has the bytes it looks for. -/
theorem readEthercatPdo_of_fits {source : EthercatPdoSnapshot}
    {readInputs : UInt16 → Except String (List UInt8)} {image : List UInt8}
    (hread : readInputs source.span.slave = .ok image) (hfits : source.span.Fits image)
    (nodeId : String) (traceId : ℕ) :
    readEthercatPdo source readInputs nodeId traceId =
      if source.span.length < 2 then
        .error (.stageExecution nodeId traceId
          s!"EtherCAT PDO 解码失败: {(DecodeError.bufferTooShort 2 source.span.length).message}")
      else .ok (.number (.ofNat (fromLeBytes ((source.span.bytes image).take 2)))) := by
  simp only [readEthercatPdo, hread, ImageSpan.extractPdoBytes_bytes hfits, decodeRawBytes_word,
    ImageSpan.length_bytes hfits]
  by_cases hlen : source.span.length < 2
  · simp only [if_pos hlen]
  · simp only [if_neg hlen]

/-! ## The signals of a device -/

/-- Of the numbers that are all ones, only the unsigned word is 65535. -/
theorem EntryType.unsigned_of_ones {ty : EntryType} {bitLen : ℕ} (hpos : 0 < bitLen)
    (h : ty.value bitLen (2 ^ bitLen - 1) = some (.number (.ofNat 65535))) :
    ty = .unsigned ∧ bitLen = 16 := by
  have hfloat : ∀ bits, some (floatToValue bits) ≠ some (Value.number (.ofNat 65535)) := by
    intro bits heq
    have hvalue := Option.some.inj heq
    rw [floatToValue, Value.ofF64] at hvalue
    split at hvalue
    · cases Value.number.inj hvalue
    · cases hvalue
  cases ty with
  | unsigned =>
      refine ⟨rfl, ?_⟩
      rw [value] at h
      split at h
      · rename_i hsmall
        have hpow : 2 ^ bitLen ≤ 2 ^ 64 := Nat.pow_le_pow_right (by norm_num) hsmall
        have hone : 0 < 2 ^ bitLen := Nat.pow_pos (by norm_num)
        have heq := Number.ofNat_injective (by omega) (by norm_num)
          (Value.number.inj (Option.some.inj h))
        apply Nat.pow_right_injective (le_refl 2)
        simp only
        omega
      · cases h
  | signed =>
      rw [value] at h
      split at h
      · have htwo : 2 ^ 1 ≤ 2 ^ bitLen := Nat.pow_le_pow_right (by norm_num) hpos
        have hneg : ((2 ^ bitLen - 1 : ℕ) : ℤ) - 2 ^ bitLen = -1 := by
          rw [Nat.cast_sub (by omega)]
          push_cast
          ring
        rw [if_neg (by omega), hneg] at h
        cases Value.number.inj (Option.some.inj h)
      · cases h
  | bool => cases Option.some.inj h
  | float32 =>
      rw [value] at h
      split at h
      · exact absurd h (hfloat _)
      · cases h
  | float64 =>
      rw [value] at h
      split at h
      · exact absurd h (hfloat _)
      · cases h

section Signals

variable {typeNamed : Option String → Option EntryType} {s : EthercatPdo}

/-- What is read from its own place, even if all bits are ones, is an unsigned word. -/
theorem EthercatPdo.unsigned_of_readsEntry (hspan : s.snapshot.span = s.span)
    (h : s.ReadsEntry typeNamed s.snapshot) :
    s.bitLen.toNat = 16 ∧ typeNamed s.dataType = some .unsigned := by
  let image := List.replicate (s.span.start + s.span.length) (0xFF : UInt8)
  have hfits : s.span.Fits image := by
    simp [ImageSpan.Fits, image]
  have hbytes : s.span.bytes image = List.replicate s.span.length 0xFF := by
    simp [ImageSpan.bytes, image]
  obtain ⟨v, hvalue, hread⟩ := h (fun _ => .ok image) image rfl hfits "" 0
  have hfits' : s.snapshot.span.Fits image := by
    rw [hspan]
    exact hfits
  rw [readEthercatPdo_of_fits rfl hfits', hspan, hbytes] at hread
  split at hread
  · cases hread
  · rename_i hlen
    have hlength : s.span.length = (s.bitLen.toNat + 7) / 8 := rfl
    have htwo : (List.replicate s.span.length (0xFF : UInt8)).take 2 = List.replicate 2 0xFF := by
      rw [List.take_replicate, Nat.min_eq_left (by omega)]
    rw [htwo, fromLeBytes_ones] at hread
    obtain rfl := Except.ok.inj hread
    rw [entryValue, entryBits, hbytes, fromLeBytes_ones, ones_mod (by omega)] at hvalue
    obtain ⟨ty, hty, hones⟩ := Option.bind_eq_some_iff.mp hvalue
    obtain ⟨rfl, hsixteen⟩ := EntryType.unsigned_of_ones (by omega) hones
    exact ⟨hsixteen, hty⟩

/-- An aligned signal is looked for where it is. -/
theorem EthercatPdo.span_of_aligned (h : s.Aligned typeNamed) : s.snapshot.span = s.span := by
  obtain ⟨hoffset, -, -⟩ := h
  rw [EthercatPdo.span, entrySpan, hoffset]
  rfl

/-- An aligned signal is read. -/
theorem EthercatPdo.readsEntry_of_aligned (h : s.Aligned typeNamed) :
    s.ReadsEntry typeNamed s.snapshot := by
  have hspan := span_of_aligned h
  obtain ⟨-, hbits, hty⟩ := h
  intro readInputs image hinputs hfits nodeId traceId
  have hlength : s.span.length = 2 := by
    rw [span, entrySpan, hbits]
    rfl
  have hbytes : (s.span.bytes image).length = 2 := by
    rw [ImageSpan.length_bytes hfits, hlength]
  have hlt : fromLeBytes (s.span.bytes image) < 2 ^ 16 := by
    have hlt' := fromLeBytes_lt (s.span.bytes image)
    rw [hbytes] at hlt'
    exact hlt'
  refine ⟨.number (.ofNat (fromLeBytes (s.span.bytes image))), ?_, ?_⟩
  · rw [entryValue, hty, entryBits, hbits]
    simp only [Option.bind_some]
    have hmod : fromLeBytes (s.span.bytes image) % 2 ^ (16 : UInt16).toNat =
        fromLeBytes (s.span.bytes image) := Nat.mod_eq_of_lt hlt
    rw [hmod]
    rfl
  · rw [← hspan] at hinputs
    rw [readEthercatPdo_of_fits hinputs (by rwa [hspan]), hspan, if_neg (by omega)]
    rw [List.take_of_length_le (by omega)]

/-- Exactly the devices whose signals are all aligned words are read as declared. -/
theorem reads_signals_iff (typeNamed : Option String → Option EntryType)
    (signals : List EthercatPdo) :
    ReadsSignals typeNamed signals ↔ ∀ s ∈ signals, s.Aligned typeNamed := by
  constructor
  · rintro ⟨hread, -⟩ s hs
    obtain ⟨source, hjson, hentry, hspan⟩ := hread s hs
    rw [EthercatPdo.fromJson_toJson] at hjson
    obtain rfl := Option.some.inj hjson
    obtain ⟨hbits, hty⟩ := EthercatPdo.unsigned_of_readsEntry hspan hentry
    have hstart : s.snapshot.span.start = s.span.start := congrArg ImageSpan.start hspan
    exact ⟨hstart.symm, UInt16.toNat_inj.mp hbits, hty⟩
  · intro h
    constructor
    · intro s hs
      exact ⟨s.snapshot, s.fromJson_toJson, EthercatPdo.readsEntry_of_aligned (h s hs),
        EthercatPdo.span_of_aligned (h s hs)⟩
    · intro s hs t ht _ hapart source source' hsource hsource'
      rw [EthercatPdo.fromJson_toJson] at hsource hsource'
      obtain rfl := Option.some.inj hsource
      obtain rfl := Option.some.inj hsource'
      rw [EthercatPdo.span_of_aligned (h s hs), EthercatPdo.span_of_aligned (h t ht)]
      have hs16 : s.span.length = (s.bitLen.toNat + 7) / 8 := rfl
      have ht16 : t.span.length = (t.bitLen.toNat + 7) / 8 := rfl
      rcases hapart with hslave | hbefore | hafter
      · exact .inl hslave
      · refine .inr (.inl ?_)
        omega
      · refine .inr (.inr ?_)
        omega

end Signals

/-- A status word as an ESI file has it: the first entry of the first PDO. -/
def statusword : EthercatPdo where
  slaveAddress := none
  pdoIndex := 0x1A00
  entryIndex := 0x6041
  subIndex := 0
  bitLen := 16
  byteOffset := some 0
  dataType := some "UINT"
  pdoName := none
  entryName := none

/-- The status word is looked for far behind where it is. -/
theorem statusword_not_read :
    ¬ ReadsSignals (fun name => if name = some "UINT" then some .unsigned else none)
      [statusword] := by
  rintro ⟨hread, -⟩
  obtain ⟨source, hjson, -, hspan⟩ := hread statusword List.mem_cons_self
  rw [EthercatPdo.fromJson_toJson] at hjson
  obtain rfl := Option.some.inj hjson
  exact absurd hspan (by decide)

end Nazh
