import Nazh.Core.Text
import Nazh.Lib.Digits
import Nazh.Lib.Except

/-!
# CAN frames

A frame has an identifier of 11 or of 29 bits, and up to eight bytes, or none if it asks for
data. Nodes pick frames with filters. Frames travel as hexadecimal text.

Texts of frames are lists of ASCII characters, so that a position in a text is that of a byte.
-/

namespace Nazh

open Lib

/-- A frame on the bus. Times are nanoseconds. -/
structure CanFrame where
  id : UInt32
  data : List UInt8
  dlc : UInt8
  isExtended : Bool
  isFd : Bool
  isRemote : Bool
  timestamp : Option ℤ
  deriving DecidableEq, Repr

/-- The frame without the time at which it came. -/
def CanFrame.untimed (frame : CanFrame) : CanFrame := { frame with timestamp := none }

/-- The state of a bus. -/
inductive BusState
  | active
  | passive
  | error
  deriving DecidableEq, Repr

/-- The errors that the modelled functions give. -/
inductive CanError
  | openFailed (reason : String)
  | sendFailed (reason : String)
  | encodeFailed (reason : String)
  | serial (reason : String)
  | lockPoisoned
  deriving DecidableEq, Repr

/-- What an error displays. -/
def CanError.message : CanError → String
  | openFailed reason => s!"打开 CAN 总线失败: {reason}"
  | sendFailed reason => s!"发送失败: {reason}"
  | encodeFailed reason => s!"帧编码错误: {reason}"
  | serial reason => s!"串口错误: {reason}"
  | lockPoisoned => "锁已被污染"

/-! ## Filters -/

/-- Which frames are taken: those whose identifier agrees with `canId` under a mask. -/
structure CanFilter where
  canId : UInt32
  canMask : UInt32
  extended : Bool
  deriving DecidableEq, Repr

namespace CanFilter

def standard (canId canMask : UInt32) : CanFilter := ⟨canId &&& 0x7FF, canMask &&& 0x7FF, false⟩

/-- `CanFilter::extended`. -/
def extendedFrames (canId canMask : UInt32) : CanFilter :=
  ⟨canId &&& 0x1FFFFFFF, canMask &&& 0x1FFFFFFF, true⟩

/-- `CanFilter::matches`. A filter for standard frames does not ask which kind a frame has. -/
def matchesFrame (filter : CanFilter) (frameId : UInt32) (frameIsExtended : Bool) : Bool :=
  if filter.extended && !frameIsExtended then false
  else (frameId &&& filter.canMask) == (filter.canId &&& filter.canMask)

end CanFilter

/-! ## Hexadecimal text -/

/-- `HEX_CHARS`. -/
def hexChars : List Char :=
  ['0', '1', '2', '3', '4', '5', '6', '7', '8', '9', 'A', 'B', 'C', 'D', 'E', 'F']

/-- The digit of a number below 16. -/
def hexChar (n : ℕ) : Char := (hexChars[n]?).getD '0'

/-- `hex::encode`. -/
def hexEncode (data : List UInt8) : List Char :=
  data.flatMap fun byte => [hexChar (byte.toNat / 16), hexChar (byte.toNat % 16)]

/-- `decode_hex_digit`. -/
def decodeHexDigit (c : Char) : Except String UInt8 :=
  if '0'.toNat ≤ c.toNat ∧ c.toNat ≤ '9'.toNat then .ok (.ofNat (c.toNat - '0'.toNat))
  else if 'a'.toNat ≤ c.toNat ∧ c.toNat ≤ 'f'.toNat then .ok (.ofNat (c.toNat - 'a'.toNat + 10))
  else if 'A'.toNat ≤ c.toNat ∧ c.toNat ≤ 'F'.toNat then .ok (.ofNat (c.toNat - 'A'.toNat + 10))
  else .error s!"非法十六进制字符: {c.toNat}"

/-- The loop of `hex::decode`. -/
def hexPairs : List Char → Except String (List UInt8)
  | hi :: lo :: rest => do
      let hi ← decodeHexDigit hi
      let lo ← decodeHexDigit lo
      let bytes ← hexPairs rest
      return ((hi <<< 4) ||| lo) :: bytes
  | _ => .ok []

/-- `hex::decode`. -/
def hexDecode (hex : List Char) : Except String (List UInt8) :=
  if hex.length % 2 = 0 then hexPairs hex else .error "十六进制字符串长度必须是偶数"

/-- A hexadecimal digit, in either case. -/
def isHex (c : Char) : Bool := (decodeHexDigit c).toOption.isSome

/-- The number that a digit stands for. -/
def hexValue (c : Char) : ℕ := ((decodeHexDigit c).toOption.map UInt8.toNat).getD 0

/-- The number that digits stand for, behind others. -/
def hexNumber (acc : ℕ) (digits : List Char) : ℕ :=
  digits.foldl (fun acc c => acc * 16 + hexValue c) acc

/-- The bytes that digits stand for. -/
def bytesOfHex : List Char → List UInt8
  | hi :: lo :: rest => .ofNat (hexValue hi * 16 + hexValue lo) :: bytesOfHex rest
  | _ => []

/-- The loop of `u32::from_str_radix(_, 16)`, which takes the digits that `decode_hex_digit`
takes. -/
def accumulateHex (acc : ℕ) : List Char → Option ℕ
  | [] => some acc
  | c :: cs => if isHex c && acc * 16 + hexValue c < 2 ^ 32 then
      accumulateHex (acc * 16 + hexValue c) cs else none

/-- `u32::from_str_radix(_, 16)`, without the reason of a failure. -/
def fromStrRadix16 : List Char → Option UInt32
  | [] | ['+'] | ['-'] => none
  | '+' :: cs => (accumulateHex 0 cs).map UInt32.ofNat
  | cs => (accumulateHex 0 cs).map UInt32.ofNat

/-- `format!("{:0width$X}", n)` for a number of 32 bits. -/
def paddedHex (width : ℕ) (n : UInt32) : List Char :=
  let digits := (lowDigits 16 8 n.toNat).reverse
  (digits.drop (min (8 - width) (digits.takeWhile (· = 0)).length)).map hexChar

section Hex

variable {c : Char} {digits : List Char}

/-- What reading a digit gives. -/
theorem decodeHexDigit_of_isHex (h : isHex c = true) :
    decodeHexDigit c = .ok (.ofNat (hexValue c)) ∧ hexValue c < 16 := by
  obtain ⟨v, hv⟩ := Option.isSome_iff_exists.mp h
  have hdecode : decodeHexDigit c = .ok v := by
    cases hc : decodeHexDigit c with
    | error e =>
        rw [hc] at hv
        cases hv
    | ok v' =>
        rw [hc] at hv
        cases hv
        rfl
  have hvalue : hexValue c = v.toNat := by
    rw [hexValue, hdecode]
    rfl
  rw [hvalue, hdecode, UInt8.ofNat_toNat]
  refine ⟨rfl, ?_⟩
  rw [decodeHexDigit] at hdecode
  have hbound {n : ℕ} (hn : n < 16) (heq : UInt8.ofNat n = v) : v.toNat < 16 := by
    rw [← heq, UInt8.toNat_ofNat']
    omega
  have hzero : '0'.toNat = 48 ∧ '9'.toNat = 57 := ⟨rfl, rfl⟩
  have hlower : 'a'.toNat = 97 ∧ 'f'.toNat = 102 := ⟨rfl, rfl⟩
  have hupper : 'A'.toNat = 65 ∧ 'F'.toNat = 70 := ⟨rfl, rfl⟩
  split at hdecode
  · exact hbound (by omega) (Except.ok.inj hdecode)
  · split at hdecode
    · exact hbound (by omega) (Except.ok.inj hdecode)
    · split at hdecode
      · exact hbound (by omega) (Except.ok.inj hdecode)
      · cases hdecode

/-- Which characters are digits. -/
theorem isHex_iff : isHex c = true ↔ 48 ≤ c.toNat ∧ c.toNat ≤ 57 ∨ 97 ≤ c.toNat ∧ c.toNat ≤ 102 ∨
    65 ≤ c.toNat ∧ c.toNat ≤ 70 := by
  have hzero : '0'.toNat = 48 ∧ '9'.toNat = 57 := ⟨rfl, rfl⟩
  have hlower : 'a'.toNat = 97 ∧ 'f'.toNat = 102 := ⟨rfl, rfl⟩
  have hupper : 'A'.toNat = 65 ∧ 'F'.toNat = 70 := ⟨rfl, rfl⟩
  rw [isHex, decodeHexDigit]
  split
  · exact iff_of_true rfl (by omega)
  · split
    · exact iff_of_true rfl (by omega)
    · split
      · exact iff_of_true rfl (by omega)
      · exact iff_of_false Bool.false_ne_true (by omega)

/-- Two digits make a byte. -/
theorem shift_or_digits : ∀ hi lo : Fin 16,
    (UInt8.ofNat hi <<< 4) ||| UInt8.ofNat lo = UInt8.ofNat (hi * 16 + lo) := by decide

theorem hexPairs_eq (hdigits : ∀ c ∈ digits, isHex c = true) :
    hexPairs digits = .ok (bytesOfHex digits) := by
  induction digits using bytesOfHex.induct with
  | case1 hi lo rest ih =>
      obtain ⟨hhi, hhi'⟩ := decodeHexDigit_of_isHex (hdigits hi (by simp))
      obtain ⟨hlo, hlo'⟩ := decodeHexDigit_of_isHex (hdigits lo (by simp))
      have hrest := ih fun c hc => hdigits c (by simp [hc])
      have hbyte : (UInt8.ofNat (hexValue hi) <<< 4) ||| UInt8.ofNat (hexValue lo) =
          UInt8.ofNat (hexValue hi * 16 + hexValue lo) :=
        shift_or_digits ⟨hexValue hi, hhi'⟩ ⟨hexValue lo, hlo'⟩
      simp only [hexPairs, bytesOfHex, hhi, hlo, hrest]
      exact congrArg (fun byte => Except.ok (byte :: bytesOfHex rest)) hbyte
  | case2 digits hshort =>
      rw [bytesOfHex]
      · rw [hexPairs]
        exact hshort
      · exact hshort

/-- Only digits are read. -/
theorem hexDecode_eq_ok {bytes : List UInt8} : hexDecode digits = .ok bytes ↔
    digits.length % 2 = 0 ∧ (∀ c ∈ digits, isHex c = true) ∧ bytes = bytesOfHex digits := by
  have hread (h : hexPairs digits = .ok bytes) (heven : digits.length % 2 = 0) :
      ∀ c ∈ digits, isHex c = true := by
    induction digits using bytesOfHex.induct generalizing bytes with
    | case1 hi lo rest ih =>
        rw [hexPairs] at h
        obtain ⟨high, hhigh, h⟩ := bind_eq_ok.mp h
        obtain ⟨low, hlow, h⟩ := bind_eq_ok.mp h
        obtain ⟨more, hmore, -⟩ := bind_eq_ok.mp h
        rw [List.length_cons, List.length_cons] at heven
        have hrest := ih hmore (by omega)
        intro c hc
        rcases List.mem_cons.mp hc with rfl | hc
        · rw [isHex, hhigh]
          rfl
        · rcases List.mem_cons.mp hc with rfl | hc
          · rw [isHex, hlow]
            rfl
          · exact hrest c hc
    | case2 digits hshort =>
        cases digits with
        | nil => exact fun c hc => absurd hc List.not_mem_nil
        | cons c digits =>
            cases digits with
            | nil => cases heven
            | cons lo rest => exact absurd rfl (hshort c lo rest)
  rw [hexDecode]
  constructor
  · intro h
    split at h
    · rename_i heven
      have hhex := hread h heven
      rw [hexPairs_eq hhex] at h
      exact ⟨heven, hhex, (Except.ok.inj h).symm⟩
    · cases h
  · rintro ⟨heven, hhex, rfl⟩
    rw [if_pos heven, hexPairs_eq hhex]

/-- Digits that fit into 32 bits are read. -/
theorem accumulateHex_eq {acc : ℕ} (hdigits : ∀ c ∈ digits, isHex c = true)
    (hfits : (acc + 1) * 16 ^ digits.length ≤ 2 ^ 32) :
    accumulateHex acc digits = some (hexNumber acc digits) := by
  induction digits generalizing acc with
  | nil => rfl
  | cons c cs ih =>
      have hc := hdigits c List.mem_cons_self
      have hlt := (decodeHexDigit_of_isHex hc).2
      have hnext : (acc * 16 + hexValue c + 1) * 16 ^ cs.length ≤ 2 ^ 32 := by
        calc (acc * 16 + hexValue c + 1) * 16 ^ cs.length
            ≤ ((acc + 1) * 16) * 16 ^ cs.length := Nat.mul_le_mul_right _ (by omega)
          _ = (acc + 1) * 16 ^ (c :: cs).length := by
              rw [List.length_cons, Nat.pow_succ']
              ring
          _ ≤ 2 ^ 32 := hfits
      have hbound : acc * 16 + hexValue c < 2 ^ 32 := by
        have hpos : 1 ≤ 16 ^ cs.length := Nat.one_le_pow _ _ (by norm_num)
        nlinarith
      rw [accumulateHex, hc, Bool.true_and, if_pos (by simpa using hbound),
        ih (fun d hd => hdigits d (List.mem_cons_of_mem c hd)) hnext]
      rfl

/-- What digits can stand for. -/
theorem hexNumber_lt {acc : ℕ} (hdigits : ∀ c ∈ digits, isHex c = true) :
    hexNumber acc digits < (acc + 1) * 16 ^ digits.length := by
  induction digits generalizing acc with
  | nil => exact Nat.lt_of_lt_of_eq acc.lt_succ_self (Nat.mul_one _).symm
  | cons c cs ih =>
      have hlt := (decodeHexDigit_of_isHex (hdigits c List.mem_cons_self)).2
      calc hexNumber acc (c :: cs)
          < (acc * 16 + hexValue c + 1) * 16 ^ cs.length :=
            ih fun d hd => hdigits d (List.mem_cons_of_mem c hd)
        _ ≤ ((acc + 1) * 16) * 16 ^ cs.length := Nat.mul_le_mul_right _ (by omega)
        _ = (acc + 1) * 16 ^ (c :: cs).length := by
            rw [List.length_cons, Nat.pow_succ']
            ring

/-- Up to eight digits are read. -/
theorem fromStrRadix16_eq (hne : digits ≠ []) (hdigits : ∀ c ∈ digits, isHex c = true)
    (hlen : digits.length ≤ 8) : fromStrRadix16 digits = some (.ofNat (hexNumber 0 digits)) := by
  have hfits : (0 + 1) * 16 ^ digits.length ≤ 2 ^ 32 := by
    calc (0 + 1) * 16 ^ digits.length = 16 ^ digits.length := by omega
      _ ≤ 16 ^ 8 := Nat.pow_le_pow_right (by norm_num) hlen
      _ = 2 ^ 32 := by norm_num
  have hread := accumulateHex_eq hdigits hfits
  have hsign : isHex '+' = false ∧ isHex '-' = false := by decide
  rw [fromStrRadix16.eq_def]
  split
  · exact absurd rfl hne
  · have hplus := hdigits '+' List.mem_cons_self
    rw [hsign.1] at hplus
    cases hplus
  · have hminus := hdigits '-' List.mem_cons_self
    rw [hsign.2] at hminus
    cases hminus
  · have hplus := hdigits '+' List.mem_cons_self
    rw [hsign.1] at hplus
    cases hplus
  · rw [hread]
    rfl

/-! ### Writing digits -/

theorem hexChar_digit : ∀ d : Fin 16, isHex (hexChar d) = true ∧ hexValue (hexChar d) = d := by
  decide

theorem isHex_of_mem_map {ds : List ℕ} (hds : ∀ d ∈ ds, d < 16) {c : Char}
    (hc : c ∈ ds.map hexChar) : isHex c = true := by
  obtain ⟨d, hd, rfl⟩ := List.mem_map.mp hc
  exact (hexChar_digit ⟨d, hds d hd⟩).1

/-- Digits that were written, highest first, stand for their number. -/
theorem hexNumber_reverse {ds : List ℕ} (hds : ∀ d ∈ ds, d < 16) :
    hexNumber 0 (ds.reverse.map hexChar) = Nat.ofDigits 16 ds := by
  induction ds with
  | nil => rfl
  | cons d ds ih =>
      have hd : hexValue (hexChar d) = d := (hexChar_digit ⟨d, hds d List.mem_cons_self⟩).2
      have hrest := ih fun d' hd' => hds d' (List.mem_cons_of_mem d hd')
      rw [hexNumber] at hrest ⊢
      rw [List.reverse_cons, List.map_append, List.foldl_append, hrest, Nat.ofDigits_cons]
      simp only [List.map_cons, List.map_nil, List.foldl_cons, List.foldl_nil]
      rw [hd]
      omega

/-- A number that fits into the width is written with as many digits. -/
theorem paddedHex_eq {width : ℕ} {n : UInt32} (hwidth : width ≤ 8) (hn : n.toNat < 16 ^ width) :
    paddedHex width n = (lowDigits 16 width n.toNat).reverse.map hexChar := by
  obtain ⟨zeros, height⟩ := Nat.exists_eq_add_of_le hwidth
  have hzeros : 8 - width = zeros := by omega
  have hdigits : (lowDigits 16 8 n.toNat).reverse =
      List.replicate zeros 0 ++ (lowDigits 16 width n.toNat).reverse := by
    rw [height, lowDigits_add, Nat.div_eq_of_lt hn, lowDigits_zero, List.reverse_append,
      List.reverse_replicate]
  have hleading : zeros ≤ ((List.replicate zeros 0 ++
      (lowDigits 16 width n.toNat).reverse).takeWhile (· = 0)).length := by
    rw [List.takeWhile_append_of_pos (by simp), List.length_append, List.length_replicate]
    omega
  simp only [paddedHex, hdigits, hzeros, Nat.min_eq_left hleading]
  rw [List.drop_left' List.length_replicate]

/-- What is written of a number that fits. -/
theorem paddedHex_spec {width : ℕ} {n : UInt32} (hwidth : width ≤ 8)
    (hn : n.toNat < 16 ^ width) :
    (paddedHex width n).length = width ∧ (∀ c ∈ paddedHex width n, isHex c = true) ∧
      hexNumber 0 (paddedHex width n) = n.toNat := by
  have hlt : ∀ d ∈ lowDigits 16 width n.toNat, d < 16 :=
    fun d hd => lt_of_mem_lowDigits (by norm_num) hd
  rw [paddedHex_eq hwidth hn]
  refine ⟨by simp, fun c hc => ?_, by rw [hexNumber_reverse hlt, ofDigits_lowDigits hn]⟩
  exact isHex_of_mem_map (fun d hd => hlt d (List.mem_reverse.mp hd)) hc

/-- What is written of bytes stands for them. -/
theorem hexEncode_spec (data : List UInt8) :
    (hexEncode data).length = 2 * data.length ∧ (∀ c ∈ hexEncode data, isHex c = true) ∧
      bytesOfHex (hexEncode data) = data := by
  induction data with
  | nil => exact ⟨rfl, by simp [hexEncode], rfl⟩
  | cons byte rest ih =>
      obtain ⟨hlength, hhex, hbytes⟩ := ih
      have hlt := byte.toNat_lt
      obtain ⟨hhigh, hhigh'⟩ := hexChar_digit ⟨byte.toNat / 16, by omega⟩
      obtain ⟨hlow, hlow'⟩ := hexChar_digit ⟨byte.toNat % 16, by omega⟩
      have hcons : hexEncode (byte :: rest) =
          hexChar (byte.toNat / 16) :: hexChar (byte.toNat % 16) :: hexEncode rest := rfl
      have hjoin : byte.toNat / 16 * 16 + byte.toNat % 16 = byte.toNat := by omega
      rw [hcons]
      refine ⟨?_, fun c hc => ?_, ?_⟩
      · simp only [List.length_cons, hlength]
        omega
      · rcases List.mem_cons.mp hc with rfl | hc
        · exact hhigh
        · rcases List.mem_cons.mp hc with rfl | hc
          · exact hlow
          · exact hhex c hc
      · rw [bytesOfHex, hbytes, hhigh', hlow', hjoin, UInt8.ofNat_toNat]

end Hex
end Nazh
