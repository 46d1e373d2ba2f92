import Nazh.Io.Ethercat

/-!
# Writing one entry of an image

An entry of a process image is so many bits from a byte on. The writer reads the image, puts the bytes
of the value in the place of the entry, and writes the image back. It writes whole bytes, as many as
the value has, and cuts the value from the front where the entry is shorter.
-/

namespace Nazh

open Lib

/-! ## Bits -/

/-- A bit of an image. The first bit of a byte is its lowest. -/
def bitAt (image : List UInt8) (p : ℕ) : Bool := (image[p / 8]?.getD 0).toNat.testBit (p % 8)

variable {image bytes : List UInt8} {start : ℕ}

theorem getElem?_splice_inside (h : start + bytes.length ≤ image.length) {i : ℕ}
    (hi : i < bytes.length) : (splice image start bytes)[start + i]? = bytes[i]? := by
  have hstart : (image.take start).length = start := by
    rw [List.length_take]
    omega
  rw [splice, List.append_assoc, List.getElem?_append_right (by omega), hstart,
    Nat.add_sub_cancel_left, List.getElem?_append_left hi]

theorem bitAt_splice_outside (h : start + bytes.length ≤ image.length) {p : ℕ}
    (hp : p < 8 * start ∨ 8 * (start + bytes.length) ≤ p) :
    bitAt (splice image start bytes) p = bitAt image p := by
  rw [bitAt, getElem?_splice h (by omega)]
  rfl

theorem bitAt_splice (h : start + bytes.length ≤ image.length) {p : ℕ}
    (hp : p < 8 * bytes.length) :
    bitAt (splice image start bytes) (8 * start + p) = bitAt bytes p := by
  have hdiv : (8 * start + p) / 8 = start + p / 8 := by omega
  have hmod : (8 * start + p) % 8 = p % 8 := by omega
  rw [bitAt, hdiv, hmod, getElem?_splice_inside h (by omega)]
  rfl

/-- Bytes with the same bits are the same. -/
theorem eq_of_bitAt {xs ys : List UInt8} (hlen : xs.length = ys.length)
    (h : ∀ p < 8 * xs.length, bitAt xs p = bitAt ys p) : xs = ys := by
  refine List.ext_getElem hlen fun i hx hy => UInt8.toNat_inj.mp (Nat.eq_of_testBit_eq fun j => ?_)
  by_cases hj : j < 8
  · have hbit := h (8 * i + j) (by omega)
    have hdiv : (8 * i + j) / 8 = i := by omega
    have hmod : (8 * i + j) % 8 = j := by omega
    rwa [bitAt, bitAt, hdiv, hmod, List.getElem?_eq_getElem hx, List.getElem?_eq_getElem hy] at hbit
  · have hlarge : ∀ byte : UInt8, byte.toNat.testBit j = false := fun byte =>
      Nat.testBit_lt_two_pow (byte.toNat_lt.trans_le (Nat.pow_le_pow_right (by decide) (by omega)))
    rw [hlarge, hlarge]

/-! ## The entry -/

/-- The bytes of an entry that holds the low bits of a value. The order of bytes says nothing of an
entry that is not made of whole bytes. -/
def entryBytes (bitLen : ℕ) (byteOrder : String) (s : Scalar) : List UInt8 :=
  (ByteOrder.ofText byteOrder).arrange (leBytes ((bitLen + 7) / 8) (s.pattern % 2 ^ bitLen))

/-- The entry is made of whole bytes, no more than the value has. In big-endian order, the value is
not longer than the entry, or its high bytes are the same as its low bytes. -/
def EntryFits (bitLen : ℕ) (byteOrder : String) (s : Scalar) : Prop :=
  bitLen % 8 = 0 ∧ bitLen / 8 ≤ s.byteWidth ∧ (isLittle byteOrder = true ∨
    s.pattern / 256 ^ (s.byteWidth - bitLen / 8) = s.pattern % 2 ^ bitLen)

section Writes

variable (texts : TextLibrary) (slaveAddress : Option UInt16) (bitLen byteOffset : UInt16)
  (dataType : Option String) (byteOrder resolvedValue nodeId : String) (traceId : ℕ)

/-- The image that the writer reads, and the one it goes on to write. -/
def WritesImage (image written : List UInt8) : Prop :=
  ∃ readOutputs, readOutputs (entrySpan slaveAddress bitLen byteOffset).slave = .ok image ∧
    executeEthercatPdoWrite texts slaveAddress bitLen byteOffset dataType byteOrder resolvedValue
      nodeId traceId readOutputs = .ok written

/-- Whatever image is read, in the image that is written only the bits of the entry are others, and
they hold the low bits of the value. -/
structure WritesEntry : Prop where
  outside : ∀ image written, WritesImage texts slaveAddress bitLen byteOffset dataType byteOrder
    resolvedValue nodeId traceId image written → written.length = image.length ∧
      ∀ p, p < 8 * byteOffset.toNat ∨ 8 * byteOffset.toNat + bitLen.toNat ≤ p →
        bitAt written p = bitAt image p
  inside : ∀ image written, WritesImage texts slaveAddress bitLen byteOffset dataType byteOrder
    resolvedValue nodeId traceId image written →
      ∀ s, parseScalar texts "CAN" resolvedValue nodeId (dataType.getD "u16") = .ok s →
        ∀ p < bitLen.toNat, bitAt written (8 * byteOffset.toNat + p) =
          bitAt (entryBytes bitLen.toNat byteOrder s) p

variable {texts slaveAddress bitLen byteOffset dataType byteOrder resolvedValue nodeId traceId}
  {written : List UInt8} {s : Scalar}

/-- The bytes that the writer puts in the place of the entry. -/
def cutBytes (bitLen : ℕ) (byteOrder : String) (s : Scalar) : List UInt8 :=
  (s.bytesIn (isLittle byteOrder)).take ((bitLen + 7) / 8)

theorem length_bytesIn (isLe : Bool) (s : Scalar) : (s.bytesIn isLe).length = s.byteWidth := by
  cases isLe <;> simp [Scalar.bytesIn]

theorem length_cutBytes (bitLen : ℕ) (byteOrder : String) (s : Scalar) :
    (cutBytes bitLen byteOrder s).length = min ((bitLen + 7) / 8) s.byteWidth := by
  rw [cutBytes, List.length_take, length_bytesIn]

/-- What is written is the image with the bytes of the value in it. -/
theorem writesImage_iff
    (hparse : parseScalar texts "CAN" resolvedValue nodeId (dataType.getD "u16") = .ok s) :
    WritesImage texts slaveAddress bitLen byteOffset dataType byteOrder resolvedValue nodeId traceId
        image written ↔
      byteOffset.toNat + (bitLen.toNat + 7) / 8 ≤ image.length ∧
        written = splice image byteOffset.toNat (cutBytes bitLen.toNat byteOrder s) := by
  have hencode : encodeValueToBytes texts resolvedValue (dataType.getD "u16") byteOrder nodeId =
      .ok (s.bytesIn (isLittle byteOrder)) := by
    rw [encodeValueToBytes, hparse]
    rfl
  have hexecute : ∀ readOutputs,
      readOutputs (entrySpan slaveAddress bitLen byteOffset).slave = .ok image →
      (executeEthercatPdoWrite texts slaveAddress bitLen byteOffset dataType byteOrder resolvedValue
        nodeId traceId readOutputs = .ok written ↔
      byteOffset.toNat + (bitLen.toNat + 7) / 8 ≤ image.length ∧
        written = splice image byteOffset.toNat (cutBytes bitLen.toNat byteOrder s)) := by
    intro readOutputs hread
    simp only [executeEthercatPdoWrite, hencode, hread]
    split
    · rename_i hshort
      have hlt : image.length < byteOffset.toNat + (bitLen.toNat + 7) / 8 := hshort
      constructor
      · intro h
        cases h
      · intro h
        omega
    · rename_i hlong
      have hle : ¬ image.length < byteOffset.toNat + (bitLen.toNat + 7) / 8 := hlong
      rw [Except.ok.injEq, eq_comm]
      exact (and_iff_right (by omega)).symm
  constructor
  · rintro ⟨readOutputs, hread, h⟩
    exact (hexecute readOutputs hread).mp h
  · intro h
    exact ⟨fun _ => .ok image, rfl, (hexecute _ rfl).mpr h⟩

end Writes

/-! ## Bytes of a value -/

theorem Scalar.pattern_lt_bytes (s : Scalar) : s.pattern < 256 ^ s.byteWidth := by
  have hwords : (2 ^ 16) ^ s.width = 256 ^ (2 * s.width) := by
    rw [Nat.pow_mul]
    norm_num
  cases s with
  | bool b =>
      have hb : b.toNat ≤ 1 := Bool.toNat_le b
      simp only [pattern, byteWidth]
      omega
  | _ => exact hwords ▸ Scalar.pattern_lt _

/-- The first bytes of a value: in little-endian order the low ones, in big-endian order the high
ones. -/
theorem cutBytes_eq {k : ℕ} {byteOrder : String} {s : Scalar} (hk : k ≤ s.byteWidth) :
    cutBytes (8 * k) byteOrder s = (ByteOrder.ofText byteOrder).arrange (leBytes k
      (if isLittle byteOrder then s.pattern else s.pattern / 256 ^ (s.byteWidth - k))) := by
  have hceil : (8 * k + 7) / 8 = k := by omega
  rw [cutBytes, hceil, Scalar.bytesIn, ByteOrder.ofText]
  split
  · obtain ⟨j, hj⟩ := Nat.exists_eq_add_of_le hk
    rw [hj, leBytes_add, List.take_left' (length_leBytes k _)]
    rfl
  · obtain ⟨j, hj⟩ := Nat.exists_eq_add_of_le' hk
    rw [beBytes, hj, Nat.add_sub_cancel, leBytes_add, List.reverse_append,
      List.take_left' (by rw [List.length_reverse, length_leBytes])]
    rfl

theorem ByteOrder.arrange_inj {α : Type} {order : ByteOrder} {xs ys : List α} :
    order.arrange xs = order.arrange ys ↔ xs = ys := by
  cases order with
  | littleEndian => rfl
  | bigEndian => exact List.reverse_inj

/-- Whole bytes hold the value exactly if the entry takes it. -/
theorem cutBytes_eq_entryBytes_iff {k : ℕ} {byteOrder : String} {s : Scalar}
    (hk : k ≤ s.byteWidth) : cutBytes (8 * k) byteOrder s = entryBytes (8 * k) byteOrder s ↔
      (isLittle byteOrder = true ∨
        s.pattern / 256 ^ (s.byteWidth - k) = s.pattern % 2 ^ (8 * k)) := by
  have hceil : (8 * k + 7) / 8 = k := by omega
  have hpow : 2 ^ (8 * k) = 256 ^ k := by
    rw [Nat.pow_mul]
  rw [cutBytes_eq hk, entryBytes, hceil, hpow, ByteOrder.arrange_inj]
  by_cases hle : isLittle byteOrder = true
  · simp only [hle, if_true, true_or, iff_true]
    exact (leBytes_mod k s.pattern).symm
  · have hlt : s.pattern / 256 ^ (s.byteWidth - k) < 256 ^ k := by
      apply Nat.div_lt_of_lt_mul
      rw [← Nat.pow_add, Nat.sub_add_cancel hk]
      exact s.pattern_lt_bytes
    rw [if_neg hle, leBytes_inj hlt (Nat.mod_lt _ (Nat.pow_pos (by decide)))]
    simp [hle]

/-! ## What is written -/

variable {texts : TextLibrary} {slaveAddress : Option UInt16} {bitLen byteOffset : UInt16}
  {dataType : Option String} {byteOrder resolvedValue nodeId : String} {traceId : ℕ} {s : Scalar}

theorem bitAt_replicate {n p : ℕ} (h : p < 8 * n) (byte : UInt8) :
    bitAt (List.replicate n byte) p = byte.toNat.testBit (p % 8) := by
  rw [bitAt, List.getElem?_replicate_of_lt (by omega)]
  rfl

/-- An image whose bits in the place of the entry are all the same. -/
theorem exists_image
    (hparse : parseScalar texts "CAN" resolvedValue nodeId (dataType.getD "u16") = .ok s) (b : Bool) :
    ∃ image : List UInt8, byteOffset.toNat + (bitLen.toNat + 7) / 8 ≤ image.length ∧
      WritesImage texts slaveAddress bitLen byteOffset dataType byteOrder resolvedValue nodeId traceId
        image (splice image byteOffset.toNat (cutBytes bitLen.toNat byteOrder s)) ∧
      ∀ p < 8 * ((bitLen.toNat + 7) / 8), bitAt image (8 * byteOffset.toNat + p) = b := by
  let image : List UInt8 :=
    List.replicate (byteOffset.toNat + (bitLen.toNat + 7) / 8) (if b then 0xFF else 0)
  have hlen : byteOffset.toNat + (bitLen.toNat + 7) / 8 ≤ image.length := by
    rw [List.length_replicate]
  refine ⟨image, hlen, (writesImage_iff hparse).mpr ⟨hlen, rfl⟩, fun p hp => ?_⟩
  rw [bitAt_replicate (by omega)]
  have hones : ∀ j < 8, (0xFF : UInt8).toNat.testBit j = true := by decide
  cases b with
  | true => exact hones _ (Nat.mod_lt _ (by decide))
  | false => exact Nat.zero_testBit _

/-- What is written holds a value that was parsed. -/
theorem exists_parsed {image written : List UInt8} (h : WritesImage texts slaveAddress bitLen
    byteOffset dataType byteOrder resolvedValue nodeId traceId image written) :
    ∃ s, parseScalar texts "CAN" resolvedValue nodeId (dataType.getD "u16") = .ok s := by
  obtain ⟨readOutputs, -, hwrite⟩ := h
  cases hparse : parseScalar texts "CAN" resolvedValue nodeId (dataType.getD "u16") with
  | ok s => exact ⟨s, rfl⟩
  | error e =>
      rw [executeEthercatPdoWrite, encodeValueToBytes, hparse] at hwrite
      cases hwrite

/-- An entry that is written as it should takes the value: a bit that is not written, or one that is
written beside the entry, would have to be as it was, whatever it was. -/
theorem WritesEntry.fits (h : WritesEntry texts slaveAddress bitLen byteOffset dataType byteOrder
    resolvedValue nodeId traceId)
    (hparse : parseScalar texts "CAN" resolvedValue nodeId (dataType.getD "u16") = .ok s) :
    EntryFits bitLen.toNat byteOrder s := by
  have hcut := length_cutBytes bitLen.toNat byteOrder s
  have hwidth : (bitLen.toNat + 7) / 8 ≤ s.byteWidth := by
    by_contra hlong
    have hstale : ∀ b, bitAt (entryBytes bitLen.toNat byteOrder s)
        (8 * ((bitLen.toNat + 7) / 8 - 1)) = b := by
      intro b
      obtain ⟨image, hlen, hwrites, hbits⟩ := @exists_image texts slaveAddress bitLen byteOffset
        dataType byteOrder resolvedValue nodeId traceId s hparse b
      rw [← h.inside image _ hwrites s hparse _ (by omega),
        bitAt_splice_outside (by omega) (by omega)]
      exact hbits _ (by omega)
    exact absurd ((hstale true).symm.trans (hstale false)) (by decide)
  have hwhole : bitLen.toNat % 8 = 0 := by
    by_contra hpart
    have hbeside : ∀ b, bitAt (cutBytes bitLen.toNat byteOrder s) bitLen.toNat = b := by
      intro b
      obtain ⟨image, hlen, hwrites, hbits⟩ := @exists_image texts slaveAddress bitLen byteOffset
        dataType byteOrder resolvedValue nodeId traceId s hparse b
      rw [← hbits bitLen.toNat (by omega),
        ← (h.outside image _ hwrites).2 _ (.inr (Nat.le_refl _))]
      exact (bitAt_splice (by omega) (by omega)).symm
    exact absurd ((hbeside true).symm.trans (hbeside false)) (by decide)
  obtain ⟨k, hk⟩ := Nat.dvd_of_mod_eq_zero hwhole
  have hceil : (8 * k + 7) / 8 = k := by omega
  have hdiv : 8 * k / 8 = k := by omega
  rw [hk] at hcut hwidth
  rw [hceil] at hcut hwidth
  obtain ⟨image, hlen, hwrites, -⟩ := @exists_image texts slaveAddress bitLen byteOffset dataType
    byteOrder resolvedValue nodeId traceId s hparse true
  have hsame : cutBytes (8 * k) byteOrder s = entryBytes (8 * k) byteOrder s := by
    refine eq_of_bitAt (by simp [hcut, hwidth, entryBytes, hceil]) fun p hp => ?_
    rw [hcut] at hp
    rw [← hk, ← h.inside image _ hwrites s hparse p (by omega), bitAt_splice]
    · rw [hk, hcut]
      omega
    · rw [hk, hcut]
      omega
  rw [hk, EntryFits, hdiv]
  exact ⟨by omega, hwidth, (cutBytes_eq_entryBytes_iff hwidth).mp hsame⟩

/-- The entry is written exactly if it takes the value: it is made of whole bytes, no more than the
value has, and no big-endian value is cut to other bytes than its low ones. -/
theorem writesEntry_iff : WritesEntry texts slaveAddress bitLen byteOffset dataType byteOrder
    resolvedValue nodeId traceId ↔
      ∀ s, parseScalar texts "CAN" resolvedValue nodeId (dataType.getD "u16") = .ok s →
        EntryFits bitLen.toNat byteOrder s := by
  refine ⟨fun h s hparse => h.fits hparse, fun h => ?_⟩
  have hwritten : ∀ image written, WritesImage texts slaveAddress bitLen byteOffset dataType byteOrder
      resolvedValue nodeId traceId image written → ∃ k s, bitLen.toNat = 8 * k ∧
        parseScalar texts "CAN" resolvedValue nodeId (dataType.getD "u16") = .ok s ∧
        byteOffset.toNat + (entryBytes bitLen.toNat byteOrder s).length ≤ image.length ∧
        (entryBytes bitLen.toNat byteOrder s).length = k ∧
        written = splice image byteOffset.toNat (entryBytes bitLen.toNat byteOrder s) := by
    intro image written hwrites
    obtain ⟨s, hparse⟩ := exists_parsed hwrites
    obtain ⟨hlen, rfl⟩ := (writesImage_iff hparse).mp hwrites
    obtain ⟨hwhole, hwidth, horder⟩ := h s hparse
    obtain ⟨k, hk⟩ := Nat.dvd_of_mod_eq_zero hwhole
    have hceil : (8 * k + 7) / 8 = k := by omega
    have hdiv : 8 * k / 8 = k := by omega
    rw [hk, hdiv] at hwidth horder
    rw [hk, hceil] at hlen
    have hentry : (entryBytes (8 * k) byteOrder s).length = k := by
      simp [entryBytes, hceil]
    exact ⟨k, s, hk, hparse, by rw [hk, hentry]; exact hlen, by rw [hk, hentry],
      by rw [hk, (cutBytes_eq_entryBytes_iff hwidth).mpr horder]⟩
  constructor
  · intro image written hwrites
    obtain ⟨k, s, hk, -, hlen, hentry, rfl⟩ := hwritten image written hwrites
    refine ⟨length_splice hlen, fun p hp => bitAt_splice_outside hlen ?_⟩
    omega
  · intro image written hwrites s hparse p hp
    obtain ⟨k, s', hk, hparse', hlen, hentry, rfl⟩ := hwritten image written hwrites
    obtain rfl := Except.ok.inj (hparse.symm.trans hparse')
    exact bitAt_splice hlen (by omega)

/-- A valve is one bit of a byte. When it is closed, the other seven are closed with it. -/
theorem valve_not_alone : ¬ WritesEntry plainTexts none 1 0 (some "bool") "little_endian" "false"
    "valve" 0 := by
  intro h
  have hwrites : WritesImage plainTexts none 1 0 (some "bool") "little_endian" "false" "valve" 0
      [0xFF] [0x00] := ⟨fun _ => .ok [0xFF], rfl, by decide⟩
  exact absurd ((h.outside _ _ hwrites).2 1 (.inr (by decide))) (by decide)

end Nazh
