import Nazh.Io.Slcan
import Nazh.Lib.Slices

/-!
# Lines of text from a CAN adapter

The decoder of frames takes its pieces of a line by the positions of bytes. A line may have any
characters, and the decoder panics when it cuts one. What it takes is more than the adapter writes:
an identifier may begin with a plus sign or be too large, and a frame may have nine bytes.
-/

namespace Nazh.SlcanLine

open Lib

/-! ## The decoder -/

/-- `str::len`. -/
def len (s : List Char) : ℕ := weight Char.utf8Size s

/-- The bytes of a text, each as the character with its number. -/
def byteChars (s : List Char) : List Char := (Text.asBytes s).map fun b => Char.ofNat b.toNat

/-- One kind of frame in `decode_slcan_frame`, or nothing where a slice panics. -/
def decodeKind (now : ℤ) (atLeast idWidth : ℕ) (isExtended isRemote : Bool) (line : List Char) :
    Option (Option CanFrame) :=
  if len line < atLeast then some none
  else (slice Char.utf8Size line 1 (1 + idWidth)).bind fun idText =>
    match fromStrRadix16 idText with
    | none => some none
    | some id => (slice Char.utf8Size line (1 + idWidth) (2 + idWidth)).bind fun dlcText =>
      match (Text.parseUnsigned 8 (String.ofList dlcText)).toOption with
      | none => some none
      | some dlc =>
          if isRemote then some (some ⟨id, [], .ofNat dlc, isExtended, false, true, some now⟩)
          else
            let dataLen := dlc * 2
            if len line < 2 + idWidth + dataLen then some none
            else
              (slice Char.utf8Size line (2 + idWidth) (2 + idWidth + dataLen)).map fun dataText =>
                (hexDecode (byteChars dataText)).toOption.map fun data =>
                  ⟨id, data, .ofNat dlc, isExtended, false, false, some now⟩

/-- `decode_slcan_frame`, or nothing where it panics. -/
def decodeSlcanFrame (now : ℤ) (line : List Char) : Option (Option CanFrame) :=
  let line := Text.trimList line
  match line.head? with
  | some 't' => decodeKind now 5 3 false false line
  | some 'T' => decodeKind now 11 8 true false line
  | some 'r' => decodeKind now 5 3 false true line
  | some 'R' => decodeKind now 10 8 true true line
  | _ => some none

/-! ## Kinds of frames -/

structure FrameKind where
  isExtended : Bool
  isRemote : Bool
  deriving DecidableEq, Repr

namespace FrameKind

variable (kind : FrameKind)

def tag : Char :=
  if kind.isRemote then if kind.isExtended then 'R' else 'r'
  else if kind.isExtended then 'T' else 't'

/-- So many bytes the decoder asks for. An extended frame without data has fewer. -/
def atLeast : ℕ :=
  if kind.isExtended then if kind.isRemote then 10 else 11 else 5

def idWidth : ℕ := if kind.isExtended then 8 else 3

def maxId : ℕ := if kind.isExtended then 0x1FFFFFFF else 0x7FF

/-- What is read as an identifier. -/
structure IsId (id : List Char) : Prop where
  width : id.length = kind.idWidth
  reads : (fromStrRadix16 id).isSome

/-- A line is taken apart, behind its letter: the identifier, the digit for the length, the digits
of the data, and what is ignored. -/
structure Parts (body id : List Char) (d : Fin 10) (data rest : List Char) : Prop where
  eq : body = id ++ Nat.digitChar d :: (data ++ rest)
  isId : kind.IsId id
  data_length : data.length = if kind.isRemote then 0 else 2 * d.val
  data_hex : ∀ c ∈ data, isHex c = true

/-- The end of the identifier, of the digit for the length, or of the data is inside of a character,
and what comes before is read. -/
inductive CutsInside : List Char → Prop
  | id {body : List Char} (h : Inside Char.utf8Size body kind.idWidth) : CutsInside body
  | dlc {id rest : List Char} (hid : kind.IsId id) (h : Inside Char.utf8Size rest 1) :
      CutsInside (id ++ rest)
  | data {id rest : List Char} {d : Fin 10} (hid : kind.IsId id) (hremote : kind.isRemote = false)
      (h : Inside Char.utf8Size rest (2 * d.val)) : CutsInside (id ++ Nat.digitChar d :: rest)

/-- The identifier has a sign or is too large, or there are nine bytes. -/
def Overruns (body : List Char) : Prop :=
  ∃ id d data rest, kind.Parts body id d data rest ∧
    (id.head? = some '+' ∨ (∃ n, fromStrRadix16 id = some n ∧ kind.maxId < n.toNat) ∨ d.val = 9)

end FrameKind

/-- The decoder does not panic, and what it takes begins with a frame that it gives. -/
def SafelyDecoded (now : ℤ) (line : List Char) : Prop :=
  ∃ result, decodeSlcanFrame now line = some result ∧ ∀ frame, result = some frame →
    ∃ (f : SlcanText) (rest : List Char), Text.trimList line = f.text ++ rest ∧
      frame = { f.frame with timestamp := some now }

/-- A line of a kind that is long enough for it is not cut inside of a character, and begins with a
frame if it is taken apart. -/
def Regular (line : List Char) : Prop :=
  ∀ (kind : FrameKind) (body : List Char), Text.trimList line = kind.tag :: body →
    kind.atLeast ≤ len (kind.tag :: body) → ¬ kind.CutsInside body ∧ ¬ kind.Overruns body

/-! ## Characters and bytes -/

/-- The size of a character is one exactly if it is ASCII. -/
theorem utf8Size_eq_one_iff {c : Char} : c.utf8Size = 1 ↔ c.toNat < 128 := by
  rw [Char.utf8Size_eq_one_iff, UInt32.le_iff_toNat_le]
  exact Nat.lt_succ_iff.symm

theorem len_of_ascii {s : List Char} (h : ∀ c ∈ s, c.toNat < 128) : len s = s.length :=
  weight_eq_length fun c hc => utf8Size_eq_one_iff.mpr (h c hc)

/-- The bytes of a character beyond ASCII are all from 128 on. -/
theorem le_toNat_of_mem_utf8EncodeChar {c : Char} {b : UInt8} (hc : 128 ≤ c.toNat)
    (hb : b ∈ String.utf8EncodeChar c) : 128 ≤ b.toNat := by
  have hval : c.val.toNat = c.toNat := rfl
  rw [String.utf8EncodeChar, if_neg (by omega)] at hb
  split at hb
  · simp only [List.mem_cons, List.not_mem_nil, or_false] at hb
    rcases hb with rfl | rfl <;> rw [UInt8.toNat_ofNat'] <;> omega
  · split at hb
    · simp only [List.mem_cons, List.not_mem_nil, or_false] at hb
      rcases hb with rfl | rfl | rfl <;> rw [UInt8.toNat_ofNat'] <;> omega
    · simp only [List.mem_cons, List.not_mem_nil, or_false] at hb
      rcases hb with rfl | rfl | rfl | rfl <;> rw [UInt8.toNat_ofNat'] <;> omega

theorem byteChars_cons (c : Char) (s : List Char) : byteChars (c :: s) =
    (String.utf8EncodeChar c).map (fun b => Char.ofNat b.toNat) ++ byteChars s := by
  rw [byteChars, Text.asBytes, List.flatMap_cons, List.map_append]
  rfl

/-- ASCII characters are their bytes. -/
theorem byteChars_of_ascii {s : List Char} (h : ∀ c ∈ s, c.toNat < 128) : byteChars s = s := by
  induction s with
  | nil => rfl
  | cons c s ih =>
      have hc := h c List.mem_cons_self
      have hval : c.val.toNat = c.toNat := rfl
      have hbyte : c.val.toUInt8.toNat = c.toNat := by
        rw [UInt32.toNat_toUInt8, hval]
        exact Nat.mod_eq_of_lt (by omega)
      rw [byteChars_cons, String.utf8EncodeChar_eq_singleton (utf8Size_eq_one_iff.mpr hc),
        List.map_singleton, hbyte, Char.ofNat_toNat, ih fun d hd => h d (List.mem_cons_of_mem c hd)]
      rfl

theorem ascii_of_isHex {c : Char} (h : isHex c = true) : c.toNat < 128 := by
  have hrange := isHex_iff.mp h
  omega

/-- Only ASCII texts have bytes that are all digits. -/
theorem ascii_of_byteChars {s : List Char} (h : ∀ b ∈ byteChars s, isHex b = true) :
    ∀ c ∈ s, c.toNat < 128 := by
  induction s with
  | nil => exact fun c hc => absurd hc List.not_mem_nil
  | cons c s ih =>
      rw [byteChars_cons] at h
      intro d hd
      rcases List.mem_cons.mp hd with rfl | hd
      · by_contra hlarge
        obtain ⟨b, hb⟩ := List.exists_mem_of_ne_nil _ (@String.utf8EncodeChar_ne_nil d)
        have hbyte := le_toNat_of_mem_utf8EncodeChar (Nat.not_lt.mp hlarge) hb
        have hhex := h _ (List.mem_append_left _ (List.mem_map_of_mem hb))
        have hsmall := b.toNat_lt
        have hchar : (Char.ofNat b.toNat).toNat = b.toNat := by
          rw [Char.ofNat, dif_pos (.inl (by omega))]
          rfl
        have hlow := ascii_of_isHex hhex
        omega
      · exact ih (fun b hb => h b (List.mem_append_right _ hb)) d hd

/-- What is decoded of the bytes of a text is what its digits stand for. -/
theorem hexDecode_byteChars {s : List Char} {data : List UInt8} :
    (hexDecode (byteChars s)).toOption = some data ↔
      s.length % 2 = 0 ∧ (∀ c ∈ s, isHex c = true) ∧ data = bytesOfHex s := by
  rw [toOption_eq_some, hexDecode_eq_ok]
  constructor
  · rintro ⟨heven, hhex, hdata⟩
    have hbytes := byteChars_of_ascii (ascii_of_byteChars hhex)
    rw [hbytes] at heven hhex hdata
    exact ⟨heven, hhex, hdata⟩
  · rintro ⟨heven, hhex, hdata⟩
    rw [byteChars_of_ascii fun c hc => ascii_of_isHex (hhex c hc)]
    exact ⟨heven, hhex, hdata⟩

/-! ## Numbers -/

theorem isHex_of_accumulateHex {digits : List Char} {acc n : ℕ}
    (h : accumulateHex acc digits = some n) : ∀ c ∈ digits, isHex c = true := by
  induction digits generalizing acc with
  | nil => exact fun c hc => absurd hc List.not_mem_nil
  | cons c cs ih =>
      rw [accumulateHex] at h
      split at h
      · rename_i hcond
        intro d hd
        rcases List.mem_cons.mp hd with rfl | hd
        · exact (Bool.and_eq_true_iff.mp hcond).1
        · exact ih h d hd
      · cases h

/-- A text that is read as a number has digits behind at most one plus sign. -/
theorem of_fromStrRadix16 {id : List Char} (h : (fromStrRadix16 id).isSome) : id ≠ [] ∧
    (∀ c ∈ id, c.toNat < 128) ∧ (id.head? = some '+' ∨ ∀ c ∈ id, isHex c = true) := by
  have hread {cs : List Char} (hcs : ((accumulateHex 0 cs).map UInt32.ofNat).isSome) :
      ∀ c ∈ cs, isHex c = true := by
    obtain ⟨n, hn⟩ := Option.isSome_iff_exists.mp (Option.isSome_map.symm.trans hcs)
    exact isHex_of_accumulateHex hn
  rw [fromStrRadix16.eq_def] at h
  split at h
  · cases h
  · cases h
  · cases h
  · refine ⟨List.cons_ne_nil _ _, fun c hc => ?_, .inl rfl⟩
    rcases List.mem_cons.mp hc with rfl | hc
    · decide
    · exact ascii_of_isHex (hread h c hc)
  · rename_i hne _ _ _
    exact ⟨hne, fun c hc => ascii_of_isHex (hread h c hc), .inr (hread h)⟩

/-- A length is one digit. -/
theorem parseUnsigned_singleton {c : Char} {n : ℕ} :
    (Text.parseUnsigned 8 (String.ofList [c])).toOption = some n ↔
      ∃ d : Fin 10, c = Nat.digitChar d ∧ n = d := by
  have hdigit : ∀ k < 10, Nat.ofDigitChars 10 [Nat.digitChar k] 0 = k ∧
      (Nat.digitChar k).isDigit = true := by decide
  have hback {c : Char} (hc : c.isDigit = true) : ∃ d : Fin 10, c = Nat.digitChar d := by
    have hrange : 48 ≤ c.toNat ∧ c.toNat ≤ 57 := by
      simpa [Char.isDigit, UInt32.le_iff_toNat_le] using hc
    refine ⟨⟨c.toNat - 48, by omega⟩, Char.toNat_inj.mp ?_⟩
    rw [Nat.toNat_digitChar_of_lt_ten (by omega)]
    dsimp only
    omega
  rw [toOption_eq_some, Text.parseUnsigned_eq_ok]
  constructor
  · rintro ⟨⟨ds, hne, hall, hvalue, hlist⟩, -⟩
    rw [String.toList_ofList] at hlist
    rcases hlist with rfl | hlist
    · obtain ⟨d, rfl⟩ := hback (hall c (List.mem_singleton.mpr rfl))
      exact ⟨d, rfl, hvalue.symm.trans (hdigit d d.isLt).1⟩
    · obtain ⟨-, rfl⟩ := List.cons.inj hlist
      exact absurd rfl hne
  · rintro ⟨d, rfl, rfl⟩
    obtain ⟨hvalue, hisDigit⟩ := hdigit d d.isLt
    refine ⟨⟨[Nat.digitChar d], List.cons_ne_nil _ _, fun c hc => ?_, hvalue, .inl ?_⟩, ?_⟩
    · rwa [List.mem_singleton.mp hc]
    · exact String.toList_ofList
    · have hlt := d.isLt
      omega

namespace FrameKind

variable {kind : FrameKind} {now : ℤ} {body id data rest : List Char} {d : Fin 10}

/-! ## Slices of a line -/

theorem tag_size : kind.tag.utf8Size = 1 := by
  rw [tag]
  split <;> split <;> rfl

theorem isId_weight (h : kind.IsId id) : weight Char.utf8Size id = kind.idWidth :=
  (len_of_ascii (of_fromStrRadix16 h.reads).2.1).trans h.width

theorem slice_id : slice Char.utf8Size (kind.tag :: body) 1 (1 + kind.idWidth) =
    (cutAt Char.utf8Size body kind.idWidth).map Prod.fst := by
  have hfront : weight Char.utf8Size [kind.tag] = 1 := tag_size
  have hcut := @slice_append _ _ Char.utf8Size_pos [kind.tag] body 1 (1 + kind.idWidth) hfront
  rwa [Nat.add_sub_cancel_left] at hcut

theorem slice_dlc (hid : weight Char.utf8Size id = kind.idWidth) :
    slice Char.utf8Size (kind.tag :: (id ++ rest)) (1 + kind.idWidth) (2 + kind.idWidth) =
      (cutAt Char.utf8Size rest 1).map Prod.fst := by
  have hfront : weight Char.utf8Size (kind.tag :: id) = 1 + kind.idWidth := by
    rw [weight_cons, tag_size, hid]
  have hcut := @slice_append _ _ Char.utf8Size_pos (kind.tag :: id) rest _ (2 + kind.idWidth) hfront
  rwa [show 2 + kind.idWidth - (1 + kind.idWidth) = 1 by omega] at hcut

theorem slice_data {c : Char} {n : ℕ} (hid : weight Char.utf8Size id = kind.idWidth)
    (hc : c.utf8Size = 1) :
    slice Char.utf8Size (kind.tag :: (id ++ c :: rest)) (2 + kind.idWidth)
      (2 + kind.idWidth + n) = (cutAt Char.utf8Size rest n).map Prod.fst := by
  have hfront : weight Char.utf8Size (kind.tag :: (id ++ [c])) = 2 + kind.idWidth := by
    rw [weight_cons, weight_append, tag_size, hid, weight_cons, hc, weight_nil]
    omega
  have hcut := @slice_append _ _ Char.utf8Size_pos (kind.tag :: (id ++ [c])) rest _
    (2 + kind.idWidth + n) hfront
  rw [Nat.add_sub_cancel_left, List.cons_append, List.append_assoc] at hcut
  exact hcut

/-! ## What the decoder does -/

/-- A kind of frame is decoded with its own numbers. -/
def decode (kind : FrameKind) (now : ℤ) (body : List Char) : Option (Option CanFrame) :=
  decodeKind now kind.atLeast kind.idWidth kind.isExtended kind.isRemote (kind.tag :: body)

/-- The frame that is given for such parts. -/
def frame (kind : FrameKind) (now : ℤ) (id : List Char) (d : Fin 10) (data : List Char) :
    CanFrame where
  id := (fromStrRadix16 id).getD 0
  data := bytesOfHex data
  dlc := .ofNat d
  isExtended := kind.isExtended
  isFd := false
  isRemote := kind.isRemote
  timestamp := some now

theorem idWidth_lt_atLeast : 2 + kind.idWidth ≤ kind.atLeast := by
  rw [idWidth, atLeast]
  split
  · split <;> decide
  · decide

theorem digitChar_inj : ∀ (d : Fin 10) (k : Fin 9),
    Nat.digitChar d = Nat.digitChar k → d.val = k.val := by decide

theorem digitChar_size : ∀ d : Fin 10, (Nat.digitChar d).utf8Size = 1 := by decide

/-- Once the identifier is read, the digit for the length is cut off. -/
theorem decode_of_id {n : UInt32} (hlen : kind.atLeast ≤ len (kind.tag :: (id ++ rest)))
    (hid : weight Char.utf8Size id = kind.idWidth) (hn : fromStrRadix16 id = some n) :
    kind.decode now (id ++ rest) =
      (slice Char.utf8Size (kind.tag :: (id ++ rest)) (1 + kind.idWidth) (2 + kind.idWidth)).bind
        fun dlcText => match (Text.parseUnsigned 8 (String.ofList dlcText)).toOption with
        | none => some none
        | some dlc =>
            if kind.isRemote then
              some (some ⟨n, [], .ofNat dlc, kind.isExtended, false, true, some now⟩)
            else if len (kind.tag :: (id ++ rest)) < 2 + kind.idWidth + dlc * 2 then some none
            else (slice Char.utf8Size (kind.tag :: (id ++ rest)) (2 + kind.idWidth)
              (2 + kind.idWidth + dlc * 2)).map fun dataText =>
                (hexDecode (byteChars dataText)).toOption.map fun data =>
                  ⟨n, data, .ofNat dlc, kind.isExtended, false, false, some now⟩ := by
  rw [decode, decodeKind, if_neg (Nat.not_lt.mpr hlen), slice_id,
    (cutAt_eq_some Char.utf8Size_pos).mpr ⟨rfl, hid⟩]
  simp only [Option.map_some, Option.bind_some, hn]

/-- Once the digit is read, the data are cut off. -/
theorem decode_of_dlc {n : UInt32}
    (hlen : kind.atLeast ≤ len (kind.tag :: (id ++ Nat.digitChar d :: rest)))
    (hid : weight Char.utf8Size id = kind.idWidth) (hn : fromStrRadix16 id = some n) :
    kind.decode now (id ++ Nat.digitChar d :: rest) =
      if kind.isRemote then
        some (some ⟨n, [], .ofNat d, kind.isExtended, false, true, some now⟩)
      else if len rest < 2 * d.val then some none
      else ((cutAt Char.utf8Size rest (2 * d.val)).map Prod.fst).map fun dataText =>
        (hexDecode (byteChars dataText)).toOption.map fun data =>
          ⟨n, data, .ofNat d, kind.isExtended, false, false, some now⟩ := by
  have hcut : cutAt Char.utf8Size (Nat.digitChar d :: rest) 1 = some ([Nat.digitChar d], rest) :=
    (cutAt_eq_some Char.utf8Size_pos).mpr ⟨rfl, digitChar_size d⟩
  have htotal :
      len (kind.tag :: (id ++ Nat.digitChar d :: rest)) = 2 + kind.idWidth + len rest := by
    rw [len, weight_cons, weight_append, weight_cons, hid, tag_size, digitChar_size, len]
    omega
  rw [decode_of_id hlen hid hn, slice_dlc hid, hcut]
  simp only [Option.map_some, Option.bind_some, parseUnsigned_singleton.mpr ⟨d, rfl, rfl⟩]
  rw [slice_data hid (digitChar_size d), htotal, Nat.mul_comm d.val 2]
  simp only [Nat.add_lt_add_iff_left]

/-- Where the decoder cuts a character, it panics. -/
theorem decode_of_cutsInside (hlen : kind.atLeast ≤ len (kind.tag :: body))
    (h : kind.CutsInside body) : kind.decode now body = none := by
  cases h with
  | id h =>
      rw [decode, decodeKind, if_neg (Nat.not_lt.mpr hlen), slice_id, cutAt_eq_none.mpr (.inr h)]
      rfl
  | dlc hid h =>
      obtain ⟨n, hn⟩ := Option.isSome_iff_exists.mp hid.reads
      rw [decode_of_id hlen (isId_weight hid) hn, slice_dlc (isId_weight hid),
        cutAt_eq_none.mpr (.inr h)]
      rfl
  | data hid hremote h =>
      obtain ⟨n, hn⟩ := Option.isSome_iff_exists.mp hid.reads
      have hlong := h
      obtain ⟨front, c, back, heq, -, hlt⟩ := hlong
      rw [decode_of_dlc hlen (isId_weight hid) hn, hremote, if_neg Bool.false_ne_true,
        cutAt_eq_none.mpr (.inr h), if_neg]
      · rfl
      · rw [len, heq, weight_append, weight_cons]
        omega

/-- Where a line is taken apart, its frame is given. -/
theorem decode_of_parts (hlen : kind.atLeast ≤ len (kind.tag :: body))
    (h : kind.Parts body id d data rest) :
    kind.decode now body = some (some (kind.frame now id d data)) := by
  obtain ⟨rfl, hid, hlength, hhex⟩ := h
  obtain ⟨n, hn⟩ := Option.isSome_iff_exists.mp hid.reads
  rw [decode_of_dlc hlen (isId_weight hid) hn, frame, hn]
  cases hremote : kind.isRemote with
  | true =>
      rw [hremote, if_pos rfl] at hlength
      rw [if_pos rfl, List.eq_nil_of_length_eq_zero hlength]
      rfl
  | false =>
      rw [hremote, if_neg Bool.false_ne_true] at hlength
      have hweight : weight Char.utf8Size data = 2 * d.val :=
        (len_of_ascii fun c hc => ascii_of_isHex (hhex c hc)).trans hlength
      have hread := hexDecode_byteChars.mpr ⟨(by omega : data.length % 2 = 0), hhex, rfl⟩
      rw [if_neg Bool.false_ne_true, (cutAt_eq_some Char.utf8Size_pos).mpr ⟨rfl, hweight⟩, if_neg]
      · simp only [Option.map_some, hread]
        rfl
      · rw [len, weight_append, hweight]
        omega

/-- One byte is one character. -/
theorem eq_singleton_of_weight {s : List Char} (h : weight Char.utf8Size s = 1) :
    ∃ c, s = [c] ∧ c.utf8Size = 1 := by
  cases s with
  | nil => cases h
  | cons c s =>
      have hc := c.utf8Size_pos
      rw [weight_cons] at h
      cases s with
      | nil => exact ⟨c, rfl, by rwa [weight_nil] at h⟩
      | cons c' s =>
          have hc' := c'.utf8Size_pos
          rw [weight_cons] at h
          omega

/-- The decoder gives nothing, or it cuts a character, or it takes the line apart. -/
theorem decode_cases (kind : FrameKind) (now : ℤ) (body : List Char) :
    kind.decode now body = some none ∨ kind.atLeast ≤ len (kind.tag :: body) ∧
      (kind.CutsInside body ∨ ∃ id d data rest, kind.Parts body id d data rest) := by
  by_cases hlen : len (kind.tag :: body) < kind.atLeast
  · left
    rw [decode, decodeKind, if_pos hlen]
  have hlen := Nat.not_lt.mp hlen
  have hwidth := @idWidth_lt_atLeast kind
  cases hcut : cutAt Char.utf8Size body kind.idWidth with
  | none =>
      right
      refine ⟨hlen, .inl (.id ?_)⟩
      refine (cutAt_eq_none.mp hcut).resolve_left fun hshort => ?_
      rw [len, weight_cons, tag_size] at hlen
      omega
  | some parts =>
      obtain ⟨id, rest⟩ := parts
      obtain ⟨rfl, hid⟩ := (cutAt_eq_some Char.utf8Size_pos).mp hcut
      cases hn : fromStrRadix16 id with
      | none =>
          left
          rw [decode, decodeKind, if_neg (Nat.not_lt.mpr hlen), slice_id, hcut]
          simp only [Option.map_some, Option.bind_some, hn]
      | some n =>
          have hreads : (fromStrRadix16 id).isSome := by rw [hn]; rfl
          have hisId : kind.IsId id :=
            ⟨(len_of_ascii (of_fromStrRadix16 hreads).2.1).symm.trans hid, hreads⟩
          cases hcut' : cutAt Char.utf8Size rest 1 with
          | none =>
              right
              refine ⟨hlen, .inl (.dlc hisId ?_)⟩
              refine (cutAt_eq_none.mp hcut').resolve_left fun hshort => ?_
              rw [len, weight_cons, weight_append, tag_size, hid] at hlen
              omega
          | some parts =>
              obtain ⟨one, rest⟩ := parts
              obtain ⟨rfl, hone⟩ := (cutAt_eq_some Char.utf8Size_pos).mp hcut'
              obtain ⟨c, rfl, hc⟩ := eq_singleton_of_weight hone
              cases hdlc : (Text.parseUnsigned 8 (String.ofList [c])).toOption with
              | none =>
                  left
                  rw [decode_of_id hlen hid hn, slice_dlc hid, hcut']
                  simp only [Option.map_some, Option.bind_some, hdlc]
              | some dlc =>
                  obtain ⟨d, rfl, rfl⟩ := parseUnsigned_singleton.mp hdlc
                  have hread := @decode_of_dlc kind now id rest d n hlen hid hn
                  cases hremote : kind.isRemote with
                  | true =>
                      right
                      exact ⟨hlen, .inr ⟨id, d, [], rest, rfl, hisId, by rw [hremote]; rfl,
                        fun c hc => absurd hc List.not_mem_nil⟩⟩
                  | false =>
                      rw [hremote, if_neg Bool.false_ne_true] at hread
                      by_cases hshort : len rest < 2 * d.val
                      · left
                        rw [if_pos hshort] at hread
                        exact hread
                      · rw [if_neg hshort] at hread
                        cases hcutData : cutAt Char.utf8Size rest (2 * d.val) with
                        | none =>
                            right
                            exact ⟨hlen, .inl (.data hisId hremote
                              ((cutAt_eq_none.mp hcutData).resolve_left hshort))⟩
                        | some parts =>
                            obtain ⟨data, rest⟩ := parts
                            obtain ⟨rfl, hdata⟩ := (cutAt_eq_some Char.utf8Size_pos).mp hcutData
                            rw [hcutData] at hread
                            cases hbytes : (hexDecode (byteChars data)).toOption with
                            | none =>
                                left
                                simp only [Option.map_some, hbytes] at hread
                                exact hread
                            | some bytes =>
                                right
                                obtain ⟨-, hhex, -⟩ := hexDecode_byteChars.mp hbytes
                                refine ⟨hlen, .inr ⟨id, d, data, rest, rfl, hisId, ?_, hhex⟩⟩
                                rw [hremote, if_neg Bool.false_ne_true, ← hdata]
                                exact (len_of_ascii fun c hc => ascii_of_isHex (hhex c hc)).symm

/-- The decoder panics exactly where it cuts a character. -/
theorem decode_eq_none_iff : kind.decode now body = none ↔
    kind.atLeast ≤ len (kind.tag :: body) ∧ kind.CutsInside body := by
  refine ⟨fun h => ?_, fun h => decode_of_cutsInside h.1 h.2⟩
  rcases decode_cases kind now body with hnone | ⟨hlen, hcuts | ⟨id, d, data, rest, hparts⟩⟩
  · rw [h] at hnone
    cases hnone
  · exact ⟨hlen, hcuts⟩
  · rw [decode_of_parts hlen hparts] at h
    cases h

/-- A frame is given exactly for the parts of a line. -/
theorem decode_eq_some_iff {given : CanFrame} : kind.decode now body = some (some given) ↔
    kind.atLeast ≤ len (kind.tag :: body) ∧ ∃ id d data rest, kind.Parts body id d data rest ∧
      given = kind.frame now id d data := by
  constructor
  · intro h
    rcases decode_cases kind now body with hnone | ⟨hlen, hcuts | ⟨id, d, data, rest, hparts⟩⟩
    · rw [h] at hnone
      cases hnone
    · rw [decode_of_cutsInside hlen hcuts] at h
      cases h
    · rw [decode_of_parts hlen hparts] at h
      exact ⟨hlen, id, d, data, rest, hparts, (Option.some.inj (Option.some.inj h)).symm⟩
  · rintro ⟨hlen, id, d, data, rest, hparts, rfl⟩
    exact decode_of_parts hlen hparts

theorem tag_injective : Function.Injective tag := by
  have hall : ∀ e r e' r' : Bool, (⟨e, r⟩ : FrameKind).tag = (⟨e', r'⟩ : FrameKind).tag →
      e = e' ∧ r = r' := by decide
  rintro ⟨e, r⟩ ⟨e', r'⟩ h
  obtain ⟨rfl, rfl⟩ := hall e r e' r' h
  rfl

end FrameKind

/-! ## Lines -/

section Lines

variable {now : ℤ} {line : List Char}

/-- A line is decoded as its letter says. -/
theorem decode_of_tag {kind : FrameKind} {body : List Char}
    (h : Text.trimList line = kind.tag :: body) :
    decodeSlcanFrame now line = kind.decode now body := by
  rw [decodeSlcanFrame, h]
  obtain ⟨isExtended, isRemote⟩ := kind
  cases isExtended <;> cases isRemote <;> rfl

theorem decode_of_no_tag (h : ∀ (kind : FrameKind) body, Text.trimList line ≠ kind.tag :: body) :
    decodeSlcanFrame now line = some none := by
  have hno (kind : FrameKind) : (Text.trimList line).head? ≠ some kind.tag := by
    intro hhead
    obtain ⟨body, heq⟩ := List.head?_eq_some_iff.mp hhead
    exact h kind body heq
  rw [decodeSlcanFrame]
  split
  · exact absurd ‹_› (hno ⟨false, false⟩)
  · exact absurd ‹_› (hno ⟨true, false⟩)
  · exact absurd ‹_› (hno ⟨false, true⟩)
  · exact absurd ‹_› (hno ⟨true, true⟩)
  · rfl

/-- The kind of a text. -/
def kindOf (f : SlcanText) : FrameKind := ⟨f.isExtended, f.isRemote⟩

theorem text_eq (f : SlcanText) : f.text =
    (kindOf f).tag :: (f.idDigits ++ Nat.digitChar f.dlc :: f.dataDigits) := by
  rw [SlcanText.text, List.append_assoc]
  rfl

theorem fromStrRadix16_idDigits (f : SlcanText) :
    fromStrRadix16 f.idDigits = some (.ofNat (hexNumber 0 f.idDigits)) := by
  refine fromStrRadix16_eq ?_ f.id_hex ?_
  · rw [← List.length_pos_iff, f.id_length]
    split <;> decide
  · rw [f.id_length]
    split <;> decide

/-- The parts of a text are the ones that are meant. -/
theorem parts_text (f : SlcanText) (rest : List Char) : (kindOf f).Parts
    (f.idDigits ++ Nat.digitChar f.dlc :: (f.dataDigits ++ rest)) f.idDigits f.dlc.castSucc
    f.dataDigits rest where
  eq := rfl
  isId := ⟨f.id_length, by rw [fromStrRadix16_idDigits]; rfl⟩
  data_length := f.data_length
  data_hex := f.data_hex

theorem frame_text (f : SlcanText) : (kindOf f).frame now f.idDigits f.dlc.castSucc f.dataDigits =
    { f.frame with timestamp := some now } := by
  rw [FrameKind.frame, fromStrRadix16_idDigits]
  rfl

/-- What digits are read as. -/
theorem toNat_fromStrRadix16 {id : List Char} {n : UInt32} (hn : fromStrRadix16 id = some n)
    (hhex : ∀ c ∈ id, isHex c = true) (hwidth : id.length ≤ 8) : n.toNat = hexNumber 0 id := by
  have hne := (of_fromStrRadix16 (Option.isSome_iff_exists.mpr ⟨n, hn⟩)).1
  have hlt : hexNumber 0 id < 2 ^ 32 := by
    calc hexNumber 0 id < (0 + 1) * 16 ^ id.length := hexNumber_lt hhex
      _ = 16 ^ id.length := by omega
      _ ≤ 16 ^ 8 := Nat.pow_le_pow_right (by norm_num) hwidth
      _ = 2 ^ 32 := by norm_num
  rw [fromStrRadix16_eq hne hhex hwidth] at hn
  rw [← Option.some.inj hn, UInt32.toNat_ofNat', Nat.mod_eq_of_lt hlt]

/-- Parts that do not overrun are those of a text. -/
theorem exists_text_of_parts {kind : FrameKind} {body id data rest : List Char} {d : Fin 10}
    (h : kind.Parts body id d data rest) (hruns : ¬ kind.Overruns body) :
    ∃ f : SlcanText, kindOf f = kind ∧ f.idDigits = id ∧ f.dlc.castSucc = d ∧
      f.dataDigits = data := by
  obtain ⟨n, hn⟩ := Option.isSome_iff_exists.mp h.isId.reads
  have hhex : ∀ c ∈ id, isHex c = true := (of_fromStrRadix16 h.isId.reads).2.2.resolve_left
    fun hsign => hruns ⟨id, d, data, rest, h, .inl hsign⟩
  have hwidth : id.length ≤ 8 := by
    rw [h.isId.width, FrameKind.idWidth]
    split <;> decide
  have hmax : hexNumber 0 id ≤ kind.maxId := by
    rw [← toNat_fromStrRadix16 hn hhex hwidth]
    exact Nat.not_lt.mp fun hlt => hruns ⟨id, d, data, rest, h, .inr (.inl ⟨n, hn, hlt⟩)⟩
  have hdlc : d.val < 9 := by
    have hne : d.val ≠ 9 := fun hnine => hruns ⟨id, d, data, rest, h, .inr (.inr hnine)⟩
    omega
  exact ⟨⟨kind.isExtended, kind.isRemote, id, ⟨d, hdlc⟩, data, h.isId.width, hhex, hmax,
    h.data_length, h.data_hex⟩, rfl, rfl, rfl, rfl⟩

/-- What the decoder makes of a line that begins with a text. -/
theorem decode_text {f : SlcanText} {rest : List Char}
    (h : Text.trimList line = f.text ++ rest) :
    decodeSlcanFrame now line =
      some (if f.isTaken = true ∨ rest ≠ [] then some { f.frame with timestamp := some now }
        else none) := by
  have htrim : Text.trimList line = (kindOf f).tag ::
      (f.idDigits ++ Nat.digitChar f.dlc :: (f.dataDigits ++ rest)) := by
    rw [h, text_eq, List.cons_append, List.append_assoc]
    rfl
  have hone : (Nat.digitChar f.dlc).utf8Size = 1 := FrameKind.digitChar_size f.dlc.castSucc
  have hascii : weight Char.utf8Size f.dataDigits = f.dataDigits.length :=
    len_of_ascii fun c hc => ascii_of_isHex (f.data_hex c hc)
  have hlen : len (Text.trimList line) =
      2 + (kindOf f).idWidth + f.dataDigits.length + len rest := by
    rw [htrim, len, weight_cons, weight_append, weight_cons, weight_append, hascii,
      FrameKind.tag_size, FrameKind.isId_weight (parts_text f rest).isId, hone, len]
    omega
  have hrest : len rest = 0 ↔ rest = [] := by
    cases rest with
    | nil => exact iff_of_true rfl rfl
    | cons c rest =>
        have hc := c.utf8Size_pos
        rw [len, weight_cons]
        exact iff_of_false (by omega) (List.cons_ne_nil c rest)
  have hdata := f.data_length
  have htaken : (kindOf f).atLeast ≤ len (Text.trimList line) ↔ f.isTaken = true ∨ rest ≠ [] := by
    rw [hlen, ne_eq, ← hrest, FrameKind.atLeast, FrameKind.idWidth, SlcanText.isTaken,
      kindOf]
    cases hextended : f.isExtended with
    | false =>
        simp
        omega
    | true =>
        cases hremote : f.isRemote with
        | true =>
            simp
            omega
        | false =>
            rw [hremote, if_neg Bool.false_ne_true] at hdata
            simp
            omega
  rw [htrim] at htaken
  by_cases hgiven : f.isTaken = true ∨ rest ≠ []
  · rw [decode_of_tag htrim, FrameKind.decode_of_parts (htaken.mpr hgiven) (parts_text f rest),
      frame_text, if_pos hgiven]
  · rw [decode_of_tag htrim, FrameKind.decode, decodeKind,
      if_pos (Nat.not_le.mp fun hle => hgiven (htaken.mp hle)), if_neg hgiven]

/-- The decoder does not panic, and takes frames only, exactly on regular lines. Of the lines that
begin with a frame it takes all, but for those that are an extended frame without bytes. -/
theorem safelyDecoded_iff (now : ℤ) (line : List Char) :
    (SafelyDecoded now line ↔ Regular line) ∧
    ∀ (f : SlcanText) (rest : List Char), Text.trimList line = f.text ++ rest →
      decodeSlcanFrame now line = some (if f.isTaken = true ∨ rest ≠ [] then
        some { f.frame with timestamp := some now } else none) := by
  refine ⟨⟨?_, ?_⟩, fun f rest h => decode_text h⟩
  · rintro ⟨result, hdecode, hframes⟩ kind body htrim hlen
    rw [decode_of_tag htrim] at hdecode
    refine ⟨fun hcuts => ?_, ?_⟩
    · rw [kind.decode_of_cutsInside hlen hcuts] at hdecode
      cases hdecode
    · rintro ⟨id, d, data, rest, hparts, hruns⟩
      rw [kind.decode_of_parts hlen hparts] at hdecode
      obtain ⟨f, rest', heq, -⟩ := hframes _ (Option.some.inj hdecode).symm
      -- the same line begins with a frame
      rw [htrim, text_eq, List.cons_append, hparts.eq, List.append_assoc] at heq
      obtain ⟨htag, hbody⟩ := List.cons.inj heq
      obtain rfl := FrameKind.tag_injective htag
      have hwidth : id.length = f.idDigits.length := hparts.isId.width.trans f.id_length.symm
      obtain ⟨rfl, hrest⟩ := List.append_inj hbody hwidth
      have hsame : d.val = f.dlc.val := FrameKind.digitChar_inj d f.dlc (List.cons.inj hrest).1
      rcases hruns with hsign | ⟨n, hn, hlarge⟩ | hnine
      · have hplus := f.id_hex '+' (List.mem_of_mem_head? hsign)
        exact absurd hplus (by decide)
      · have hid : f.idDigits.length ≤ 8 := by
          rw [f.id_length]
          split <;> decide
        have hmax : hexNumber 0 f.idDigits ≤ (kindOf f).maxId := f.id_le
        rw [toNat_fromStrRadix16 hn f.id_hex hid] at hlarge
        omega
      · have hlt := f.dlc.isLt
        omega
  · intro hregular
    by_cases htag : ∃ (kind : FrameKind) (body : List Char), Text.trimList line = kind.tag :: body
    · obtain ⟨kind, body, htrim⟩ := htag
      rw [SafelyDecoded, decode_of_tag htrim]
      rcases hresult : kind.decode now body with - | result
      · obtain ⟨hlen, hcuts⟩ := FrameKind.decode_eq_none_iff.mp hresult
        exact absurd hcuts (hregular kind body htrim hlen).1
      · refine ⟨result, rfl, fun frame hframe => ?_⟩
        subst hframe
        obtain ⟨hlen, id, d, data, rest, hparts, rfl⟩ := FrameKind.decode_eq_some_iff.mp hresult
        obtain ⟨f, rfl, rfl, rfl, rfl⟩ :=
          exists_text_of_parts hparts (hregular kind body htrim hlen).2
        refine ⟨f, rest, ?_, frame_text f⟩
        rw [htrim, text_eq, hparts.eq, List.cons_append, List.append_assoc]
        rfl
    · refine ⟨none, decode_of_no_tag fun kind body heq => htag ⟨kind, body, heq⟩, nofun⟩

/-- The identifier of this line ends inside of a character. -/
theorem cut_character_panics : ¬ SafelyDecoded 0 "t12é".toList := by
  rintro ⟨result, hdecode, -⟩
  have hpanic : decodeSlcanFrame 0 "t12é".toList = none := rfl
  rw [hpanic] at hdecode
  cases hdecode

/-! ## ASCII lines -/

theorem slice_of_ascii {s : List Char} {start stop : ℕ} (h : ∀ c ∈ s, c.toNat < 128)
    (hstart : start ≤ stop) (hstop : stop ≤ s.length) :
    slice Char.utf8Size s start stop = some ((s.drop start).take (stop - start)) := by
  have hcut {s : List Char} {n : ℕ} (h : ∀ c ∈ s, c.toNat < 128) (hn : n ≤ s.length) :
      cutAt Char.utf8Size s n = some (s.take n, s.drop n) := by
    refine (cutAt_eq_some Char.utf8Size_pos).mpr ⟨(List.take_append_drop n s).symm, ?_⟩
    exact (len_of_ascii fun c hc => h c (List.mem_of_mem_take hc)).trans (List.length_take_of_le hn)
  rw [slice, hcut h (Nat.le_trans hstart hstop), Option.bind_some, hcut]
  · rfl
  · exact fun c hc => h c (List.mem_of_mem_drop hc)
  · rw [List.length_drop]
    omega

theorem decodeKind_of_ascii {s : List Char} {atLeast idWidth : ℕ} {isExtended isRemote : Bool}
    (h : ∀ c ∈ s, c.toNat < 128) (hwidth : 2 + idWidth ≤ atLeast) :
    decodeKind now atLeast idWidth isExtended isRemote s =
      some (Nazh.decodeKind now atLeast idWidth isExtended isRemote s) := by
  rw [decodeKind, Nazh.decodeKind, len_of_ascii h]
  by_cases hshort : s.length < atLeast
  · rw [if_pos hshort, if_pos hshort]
  · rw [if_neg hshort, if_neg hshort, slice_of_ascii h (by omega) (by omega),
      slice_of_ascii h (by omega) (by omega), Nat.add_sub_cancel_left,
      show 2 + idWidth - (1 + idWidth) = 1 by omega]
    simp only [Option.bind_eq_bind, Option.bind_some]
    cases fromStrRadix16 ((s.drop 1).take idWidth) with
    | none => rfl
    | some id =>
        simp only [Option.bind_some]
        cases (Text.parseUnsigned 8
            (String.ofList ((s.drop (1 + idWidth)).take 1))).toOption with
        | none => rfl
        | some dlc =>
            simp only [Option.bind_some]
            cases isRemote with
            | true => rfl
            | false =>
                rw [if_neg Bool.false_ne_true, if_neg Bool.false_ne_true]
                by_cases hdata : s.length < 2 + idWidth + dlc * 2
                · rw [if_pos hdata, if_pos hdata]
                · rw [if_neg hdata, if_neg hdata, slice_of_ascii h (by omega) (by omega),
                    Nat.add_sub_cancel_left, Option.map_some, byteChars_of_ascii fun c hc =>
                      h c (List.mem_of_mem_drop (List.mem_of_mem_take hc))]
                  cases hexDecode ((s.drop (2 + idWidth)).take (dlc * 2)) with
                  | error e => rfl
                  | ok data => rfl

/-- On ASCII lines the decoder never panics. -/
theorem decode_of_ascii (h : ∀ c ∈ line, c.toNat < 128) :
    decodeSlcanFrame now line = some (Nazh.decodeSlcanFrame now line) := by
  have htrim : ∀ c ∈ Text.trimList line, c.toNat < 128 :=
    fun c hc => h c ((Text.trimList_sublist line).mem hc)
  rw [decodeSlcanFrame, Nazh.decodeSlcanFrame]
  simp only [decodeKind_of_ascii htrim (show 2 + 3 ≤ 5 by decide),
    decodeKind_of_ascii htrim (show 2 + 8 ≤ 11 by decide),
    decodeKind_of_ascii htrim (show 2 + 8 ≤ 10 by decide)]
  cases (Text.trimList line).head? with
  | none => rfl
  | some c =>
      by_cases ht : c = 't'
      · subst ht
        rfl
      by_cases hT : c = 'T'
      · subst hT
        rfl
      by_cases hr : c = 'r'
      · subst hr
        rfl
      by_cases hR : c = 'R'
      · subst hR
        rfl
      · simp [ht, hT, hr, hR]

/-- A standard frame without data is such a line. -/
theorem empty_frame_decoded : decodeSlcanFrame 0 ['t', '1', '2', '3', '0', '\r'] =
    some (Nazh.decodeSlcanFrame 0 ['t', '1', '2', '3', '0', '\r']) :=
  decode_of_ascii (by simp)

end Lines

end Nazh.SlcanLine
