import Nazh.Io.SlcanLines

/-!
# Frames and texts, back and forth

A frame that is encoded should be decoded as the same frame, and a line with one frame should be
encoded to the same text. The encoder writes every frame as one with data, also those that ask for
data. The decoder does not take an extended frame without data.
-/

namespace Nazh.SlcanLine

open Lib

/-! ## What is expected -/

/-- A frame that fits on the bus: a frame with data has as many bytes as it says. -/
structure Valid (frame : CanFrame) : Prop where
  id_le : frame.id.toNat ≤ if frame.isExtended then 0x1FFFFFFF else 0x7FF
  dlc_le : frame.dlc ≤ 8
  data_length : frame.isRemote = false → frame.data.length = frame.dlc.toNat

/-- A frame is encoded, and what is decoded of the text agrees with it. -/
def RoundTrips (now : ℤ) (frame : CanFrame) : Prop :=
  ∃ text frame', encodeSlcanFrame frame = some (.ok text) ∧
    decodeSlcanFrame now text = some (some frame') ∧ frame'.id = frame.id ∧
      frame'.data = frame.data ∧ frame'.dlc = frame.dlc ∧
        frame'.isExtended = frame.isExtended ∧ frame'.isRemote = frame.isRemote

/-- Two texts differ in the case of digits only. -/
def SameUpToCase : List Char → List Char → Prop :=
  List.Forall₂ fun c d => c = d ∨ isHex c = true ∧ isHex d = true ∧ c.toUpper = d.toUpper

/-- All of a line is its frame. -/
def OneFrame (line : List Char) (frame : CanFrame) : Prop :=
  len (Text.trimList line) =
    2 + (if frame.isExtended then 8 else 3) + if frame.isRemote then 0 else 2 * frame.dlc.toNat

instance (line : List Char) (frame : CanFrame) : Decidable (OneFrame line frame) :=
  inferInstanceAs (Decidable (_ = _))

/-- A frame is encoded to a line, with the carriage return that ends it. -/
def ReEncodes (line : List Char) (frame : CanFrame) : Prop :=
  ∃ text, encodeSlcanFrame frame = some (.ok text) ∧
    SameUpToCase text (Text.trimList line ++ ['\r'])

/-! ## The case of digits -/

/-- Digits differ in their case only exactly if they have the same value. -/
theorem toUpper_eq_iff {c d : Char} (hc : isHex c = true) (hd : isHex d = true) :
    c.toUpper = d.toUpper ↔ hexValue c = hexValue d := by
  have hall : ∀ n < 103, isHex (Char.ofNat n) = true →
      (Char.ofNat n).toUpper = hexChar (hexValue (Char.ofNat n)) := by decide
  have hupper {c : Char} (hc : isHex c = true) : c.toUpper = hexChar (hexValue c) := by
    have hrange := isHex_iff.mp hc
    have hdigit := hall c.toNat (by omega)
    rw [Char.ofNat_toNat] at hdigit
    exact hdigit hc
  have hvalue {c : Char} (hc : isHex c = true) : hexValue (hexChar (hexValue c)) = hexValue c :=
    (hexChar_digit ⟨hexValue c, (decodeHexDigit_of_isHex hc).2⟩).2
  rw [hupper hc, hupper hd]
  constructor
  · intro heq
    rw [← hvalue hc, heq, hvalue hd]
  · exact fun heq => congrArg hexChar heq

section Digits

variable {a b : List Char}

/-- Digits with the same values are the same up to case. -/
theorem sameUpToCase_of_hexValue (ha : ∀ c ∈ a, isHex c = true) (hb : ∀ c ∈ b, isHex c = true)
    (h : a.map hexValue = b.map hexValue) : SameUpToCase a b := by
  induction a generalizing b with
  | nil =>
      rw [List.map_nil, eq_comm, List.map_eq_nil_iff] at h
      rw [h]
      exact .nil
  | cons c a ih =>
      cases b with
      | nil => cases h
      | cons d b =>
          obtain ⟨hvalue, hrest⟩ := List.cons.inj h
          have hc := ha c List.mem_cons_self
          have hd := hb d List.mem_cons_self
          exact .cons (.inr ⟨hc, hd, (toUpper_eq_iff hc hd).mpr hvalue⟩)
            (ih (fun c hc => ha c (List.mem_cons_of_mem _ hc))
              (fun d hd => hb d (List.mem_cons_of_mem _ hd)) hrest)

/-- What is the same as digits up to case has digits with the same values. -/
theorem SameUpToCase.digits (h : SameUpToCase a b) (ha : ∀ c ∈ a, isHex c = true) :
    (∀ c ∈ b, isHex c = true) ∧ b.map hexValue = a.map hexValue := by
  induction h with
  | nil => exact ⟨fun c hc => absurd hc List.not_mem_nil, rfl⟩
  | @cons c d a b hcd _ ih =>
      obtain ⟨hrest, hvalues⟩ := ih fun c hc => ha c (List.mem_cons_of_mem _ hc)
      have hc := ha c List.mem_cons_self
      have hd : isHex d = true ∧ hexValue d = hexValue c := by
        rcases hcd with rfl | ⟨-, hd, hupper⟩
        · exact ⟨hc, rfl⟩
        · exact ⟨hd, ((toUpper_eq_iff hc hd).mp hupper).symm⟩
      refine ⟨fun e he => ?_, ?_⟩
      · rcases List.mem_cons.mp he with rfl | he
        · exact hd.1
        · exact hrest e he
      · rw [List.map_cons, List.map_cons, hd.2, hvalues]

/-- Of equally many digits, the values tell the number, and the number tells the values. -/
theorem hexNumber_eq_iff {acc acc' : ℕ} (ha : ∀ c ∈ a, isHex c = true)
    (hb : ∀ c ∈ b, isHex c = true) (hlength : a.length = b.length) :
    hexNumber acc a = hexNumber acc' b ↔ acc = acc' ∧ a.map hexValue = b.map hexValue := by
  induction a generalizing b acc acc' with
  | nil =>
      rw [List.length_nil, eq_comm, List.length_eq_zero_iff] at hlength
      rw [hlength]
      exact (and_iff_left rfl).symm
  | cons c a ih =>
      cases b with
      | nil => cases hlength
      | cons d b =>
          have hc := (decodeHexDigit_of_isHex (ha c List.mem_cons_self)).2
          have hd := (decodeHexDigit_of_isHex (hb d List.mem_cons_self)).2
          have hrest := @ih b (acc * 16 + hexValue c) (acc' * 16 + hexValue d)
            (fun c hc => ha c (List.mem_cons_of_mem _ hc))
            (fun d hd => hb d (List.mem_cons_of_mem _ hd)) (Nat.succ.inj hlength)
          rw [List.map_cons, List.map_cons, List.cons.injEq, ← and_assoc]
          refine hrest.trans (and_congr_left' ?_)
          omega

theorem length_bytesOfHex (a : List Char) : (bytesOfHex a).length = a.length / 2 := by
  induction a using bytesOfHex.induct with
  | case1 hi lo rest ih =>
      rw [bytesOfHex, List.length_cons, ih, List.length_cons, List.length_cons]
      omega
  | case2 digits hshort =>
      cases digits with
      | nil => rfl
      | cons c digits =>
          cases digits with
          | nil => simp [bytesOfHex]
          | cons lo rest => exact absurd rfl (hshort c lo rest)

/-- Bytes tell the values of their digits. -/
theorem hexValue_of_bytesOfHex (ha : ∀ c ∈ a, isHex c = true) (hb : ∀ c ∈ b, isHex c = true)
    (hlength : a.length = b.length) (heven : a.length % 2 = 0)
    (h : bytesOfHex a = bytesOfHex b) : a.map hexValue = b.map hexValue := by
  induction a using bytesOfHex.induct generalizing b with
  | case1 hi lo rest ih =>
      rw [List.length_cons, List.length_cons] at hlength heven
      obtain ⟨hi', lo', rest', rfl⟩ : ∃ hi' lo' rest', b = hi' :: lo' :: rest' := by
        cases b with
        | nil => cases hlength
        | cons hi' b =>
            cases b with
            | nil => cases Nat.succ.inj hlength
            | cons lo' rest' => exact ⟨hi', lo', rest', rfl⟩
      rw [List.length_cons, List.length_cons] at hlength
      have hbound {c : Char} (hc : isHex c = true) := (decodeHexDigit_of_isHex hc).2
      have hhi := hbound (ha hi (by simp))
      have hlo := hbound (ha lo (by simp))
      have hhi' := hbound (hb hi' (by simp))
      have hlo' := hbound (hb lo' (by simp))
      obtain ⟨hbyte, hbytes⟩ := List.cons.inj h
      have hnumber := congrArg UInt8.toNat hbyte
      rw [UInt8.toNat_ofNat', UInt8.toNat_ofNat'] at hnumber
      have hrest := ih (fun c hc => ha c (by simp [hc])) (fun c hc => hb c (by simp [hc]))
        (by omega) (by omega) hbytes
      simp only [List.map_cons, List.cons.injEq]
      exact ⟨by omega, by omega, hrest⟩
  | case2 digits hshort =>
      have hnone : digits = [] := by
        cases digits with
        | nil => rfl
        | cons c digits =>
            cases digits with
            | nil => cases heven
            | cons lo rest => exact absurd rfl (hshort c lo rest)
      rw [hnone, List.length_nil, eq_comm, List.length_eq_zero_iff] at hlength
      rw [hnone, hlength]

end Digits

/-! ## Texts -/

section Texts

variable {f g : SlcanText}

theorem idDigits_length_le (f : SlcanText) : f.idDigits.length ≤ 8 := by
  rw [f.id_length]
  split <;> decide

/-- The number of the frame is that of the digits. -/
theorem toNat_frame_id (f : SlcanText) : f.frame.id.toNat = hexNumber 0 f.idDigits :=
  toNat_fromStrRadix16 (fromStrRadix16_idDigits f) f.id_hex (idDigits_length_le f)

theorem toNat_frame_dlc (f : SlcanText) : f.frame.dlc.toNat = f.dlc.val := by
  have hlt := f.dlc.isLt
  have hbyte : f.frame.dlc.toNat = f.dlc.val % 2 ^ 8 := UInt8.toNat_ofNat'
  omega

/-- Texts of one frame are the same up to case. -/
theorem sameUpToCase_of_frame (h : g.frame = f.frame) : SameUpToCase g.text f.text := by
  have hextended : g.isExtended = f.isExtended := congrArg CanFrame.isExtended h
  have hremote : g.isRemote = f.isRemote := congrArg CanFrame.isRemote h
  have hdlc : g.dlc = f.dlc := by
    have hbyte := congrArg (fun frame => frame.dlc.toNat) h
    exact Fin.ext ((toNat_frame_dlc g).symm.trans (hbyte.trans (toNat_frame_dlc f)))
  have hid : SameUpToCase g.idDigits f.idDigits := by
    have hlength : g.idDigits.length = f.idDigits.length := by
      rw [g.id_length, f.id_length, hextended]
    have hnumber : hexNumber 0 g.idDigits = hexNumber 0 f.idDigits := by
      rw [← toNat_frame_id, ← toNat_frame_id, h]
    exact sameUpToCase_of_hexValue g.id_hex f.id_hex
      ((hexNumber_eq_iff g.id_hex f.id_hex hlength).mp hnumber).2
  have hdata : SameUpToCase g.dataDigits f.dataDigits := by
    have hlength : g.dataDigits.length = f.dataDigits.length := by
      rw [g.data_length, f.data_length, hremote, hdlc]
    have heven : g.dataDigits.length % 2 = 0 := by
      rw [g.data_length]
      split <;> omega
    exact sameUpToCase_of_hexValue g.data_hex f.data_hex
      (hexValue_of_bytesOfHex g.data_hex f.data_hex hlength heven (congrArg CanFrame.data h))
  have htag : (kindOf g).tag = (kindOf f).tag := by
    rw [kindOf, kindOf, hextended, hremote]
  rw [text_eq, text_eq, htag, hdlc]
  exact .cons (.inl rfl) (List.rel_append hid (.cons (.inl rfl) hdata))

theorem SameUpToCase.symm {a b : List Char} (h : SameUpToCase a b) : SameUpToCase b a := by
  refine List.Forall₂.flip (h.imp fun c d hcd => ?_)
  rcases hcd with rfl | ⟨hc, hd, hupper⟩
  · exact .inl rfl
  · exact .inr ⟨hd, hc, hupper.symm⟩

/-- A digit for a length has no case. -/
theorem eq_digitChar {c : Char} {d : Fin 9} (h : SameUpToCase [Nat.digitChar d] [c]) :
    c = Nat.digitChar d := by
  have hall : ∀ n < 103, ∀ d : Fin 9, isHex (Char.ofNat n) = true →
      hexValue (Char.ofNat n) = hexValue (Nat.digitChar d) → Char.ofNat n = Nat.digitChar d := by
    decide
  obtain ⟨hhex, hvalue⟩ := h.digits fun e he =>
    List.mem_singleton.mp he ▸ (SlcanText.digit_dlc d).1
  have hc := hhex c (List.mem_singleton.mpr rfl)
  have hrange := isHex_iff.mp hc
  have hsame := hall c.toNat (by omega) d
  rw [Char.ofNat_toNat] at hsame
  exact hsame hc (List.cons.inj hvalue).1

/-- What is the same as a text up to case is a text of the same kind. -/
theorem exists_text_of_sameUpToCase {s : List Char} (h : SameUpToCase g.text s) :
    ∃ f : SlcanText, f.isRemote = g.isRemote ∧ s = f.text := by
  rw [text_eq] at h
  obtain ⟨c, body, htag, hbody, rfl⟩ := List.forall₂_cons_left_iff.mp h
  have hbody : SameUpToCase body (g.idDigits ++ Nat.digitChar g.dlc :: g.dataDigits) :=
    SameUpToCase.symm hbody
  have hid : SameUpToCase (body.take g.idDigits.length) g.idDigits :=
    List.forall₂_take_append _ _ _ hbody
  obtain ⟨d, data, hdigit, hdata, hrest⟩ :=
    List.forall₂_cons_right_iff.mp (List.forall₂_drop_append _ _ _ hbody)
  obtain rfl := eq_digitChar (SameUpToCase.symm (.cons hdigit .nil))
  obtain ⟨hidHex, hidValues⟩ := hid.symm.digits g.id_hex
  obtain ⟨hdataHex, -⟩ := (SameUpToCase.symm hdata).digits g.data_hex
  have hidLength := List.Forall₂.length_eq hid
  have hnumber :=
    ((hexNumber_eq_iff hidHex g.id_hex hidLength).mpr ⟨rfl, hidValues⟩).trans_le g.id_le
  refine ⟨⟨g.isExtended, g.isRemote, body.take g.idDigits.length, g.dlc, data,
    hidLength.trans g.id_length, hidHex, hnumber,
    (List.Forall₂.length_eq hdata).trans g.data_length, hdataHex⟩, rfl, ?_⟩
  -- the letter is no digit
  have hletter : c = (kindOf g).tag := by
    rcases htag with heq | ⟨hhex, -⟩
    · exact heq.symm
    · exact absurd hhex (by rw [show (kindOf g).tag = g.tag from rfl, g.tag_not_space.2]; decide)
  rw [text_eq, hletter]
  dsimp only
  rw [← hrest, List.take_append_drop]
  rfl

end Texts

/-! ## Back and forth -/

section RoundTrip

variable {now : ℤ} {frame : CanFrame} {line text : List Char}

/-- Frames with enough data and an identifier that fits are encoded. -/
theorem exists_encode (henough : min frame.dlc.toNat 8 ≤ frame.data.length)
    (hid : frame.id.toNat ≤ if frame.isExtended then 0x1FFFFFFF else 0x7FF) :
    ∃ text, encodeSlcanFrame frame = some (.ok text) := by
  rw [encodeSlcanFrame]
  dsimp only
  rw [if_neg (Nat.not_lt.mpr henough)]
  cases hextended : frame.isExtended with
  | true =>
      rw [hextended, if_pos rfl] at hid
      rw [if_pos rfl, if_neg (UInt32.not_lt.mpr (UInt32.le_iff_toNat_le.mpr hid))]
      exact ⟨_, rfl⟩
  | false =>
      rw [hextended, if_neg Bool.false_ne_true] at hid
      rw [if_neg Bool.false_ne_true,
        if_neg (UInt32.not_lt.mpr (UInt32.le_iff_toNat_le.mpr hid))]
      exact ⟨_, rfl⟩

/-- What is decoded of a text and its carriage return. -/
theorem decode_text_return (f : SlcanText) :
    decodeSlcanFrame now (f.text ++ ['\r']) =
      some (if f.isTaken = true then some { f.frame with timestamp := some now } else none) := by
  have hline : Text.trimList (f.text ++ ['\r']) = f.text ++ [] := by
    rw [f.trimList_line, List.append_nil]
  rw [decode_text hline]
  simp

/-- Frames with data come back, but for extended ones without bytes. -/
theorem roundTrips_iff (h : Valid frame) : RoundTrips now frame ↔
    frame.isRemote = false ∧ (frame.isExtended = true → frame.dlc ≠ 0) := by
  have hdlc : min frame.dlc.toNat 8 = frame.dlc.toNat :=
    Nat.min_eq_left (UInt8.le_iff_toNat_le.mp h.dlc_le)
  -- what is written of the frame
  have hwritten {text : List Char} (hencode : encodeSlcanFrame frame = some (.ok text)) :
      ∃ g : SlcanText, text = g.text ++ ['\r'] ∧ g.frame.id = frame.id ∧
        g.frame.data = frame.data.take frame.dlc.toNat ∧ g.frame.dlc = frame.dlc ∧
        g.frame.isExtended = frame.isExtended ∧ g.frame.isRemote = false ∧
        (g.isTaken = true ↔ (frame.isExtended = true → frame.dlc ≠ 0)) := by
    obtain ⟨g, rfl, hg⟩ := SlcanText.encode_text hencode
    rw [hdlc, UInt8.ofNat_toNat] at hg
    have hextended : g.isExtended = frame.isExtended := congrArg CanFrame.isExtended hg
    have hremote : g.isRemote = false := congrArg CanFrame.isRemote hg
    have hsame : g.frame.dlc = frame.dlc := by rw [hg]
    refine ⟨g, rfl, by rw [hg], by rw [hg], hsame, hextended, hremote, ?_⟩
    have hzero : frame.dlc = 0 ↔ g.dlc.val = 0 := by
      rw [← UInt8.toNat_inj, ← hsame, toNat_frame_dlc]
      rfl
    rw [SlcanText.isTaken, hremote, hextended, ne_eq, hzero]
    cases frame.isExtended <;> simp
  constructor
  · rintro ⟨text, frame', hencode, hdecode, -, -, -, -, hsame⟩
    obtain ⟨g, rfl, -, -, -, -, hremote, htaken⟩ := hwritten hencode
    rw [decode_text_return] at hdecode
    by_cases hgiven : g.isTaken = true
    · rw [if_pos hgiven] at hdecode
      have hframe := Option.some.inj (Option.some.inj hdecode)
      rw [← hframe] at hsame
      exact ⟨hsame.symm.trans hremote, htaken.mp hgiven⟩
    · rw [if_neg hgiven] at hdecode
      cases hdecode
  · rintro ⟨hdata, hfilled⟩
    have hlength := h.data_length hdata
    obtain ⟨text, hencode⟩ := @exists_encode frame (by omega) h.id_le
    obtain ⟨g, rfl, hid, hbytes, hsame, hextended, hremote, htaken⟩ := hwritten hencode
    refine ⟨_, { g.frame with timestamp := some now }, hencode, ?_, hid, hbytes.trans ?_, hsame,
      hextended, hremote.trans hdata.symm⟩
    · rw [decode_text_return, if_pos (htaken.mpr hfilled)]
    · rw [← hlength, List.take_length]

/-- A line with one frame is written again exactly if it is the text of a frame with data. -/
theorem reEncodes_iff (hdecode : decodeSlcanFrame now line = some (some frame)) :
    ReEncodes line frame ↔ ∃ f : SlcanText, f.isRemote = false ∧ Text.trimList line = f.text := by
  constructor
  · rintro ⟨text, hencode, hsame⟩
    obtain ⟨g, rfl, hg⟩ := SlcanText.encode_text hencode
    have htext : SameUpToCase g.text (Text.trimList line) := by
      have hlength := List.Forall₂.length_eq hsame
      rw [List.length_append, List.length_append, List.length_singleton] at hlength
      have htake := List.forall₂_take g.text.length hsame
      rwa [List.take_left, List.take_left' (Nat.add_right_cancel hlength).symm] at htake
    obtain ⟨f, hremote, heq⟩ := exists_text_of_sameUpToCase htext
    exact ⟨f, hremote.trans (congrArg CanFrame.isRemote hg), heq⟩
  · rintro ⟨f, hremote, htrim⟩
    rw [decode_text (htrim.trans (List.append_nil _).symm)] at hdecode
    by_cases hgiven : f.isTaken = true ∨ ([] : List Char) ≠ []
    · rw [if_pos hgiven] at hdecode
      have hframe := Option.some.inj (Option.some.inj hdecode)
      have hlength : f.frame.data.length = f.dlc.val := by
        have hdigits := f.data_length
        rw [hremote, if_neg Bool.false_ne_true] at hdigits
        have hbytes := length_bytesOfHex f.dataDigits
        rw [SlcanText.frame]
        dsimp only
        omega
      have hdlc : min f.frame.dlc.toNat 8 = f.dlc.val := by
        have hlt := f.dlc.isLt
        rw [toNat_frame_dlc]
        omega
      have henough : min frame.dlc.toNat 8 ≤ frame.data.length := by
        rw [← hframe]
        exact Nat.le_of_eq (hdlc.trans hlength.symm)
      have hid : frame.id.toNat ≤ if frame.isExtended then 0x1FFFFFFF else 0x7FF := by
        rw [← hframe]
        exact (toNat_frame_id f).trans_le f.id_le
      obtain ⟨text, hencode⟩ := exists_encode henough hid
      obtain ⟨g, rfl, hg⟩ := SlcanText.encode_text hencode
      have hsame : g.frame = f.frame := by
        rw [hg, ← hframe]
        dsimp only
        rw [hdlc, ← hlength, List.take_length, hlength]
        exact congrArg (fun r => { f.frame with isRemote := r }) hremote.symm
      refine ⟨_, hencode, ?_⟩
      rw [htrim]
      exact List.rel_append (sameUpToCase_of_frame hsame) (.cons (.inl rfl) .nil)
    · rw [if_neg hgiven] at hdecode
      cases hdecode

/-- Frames that fit on the bus come back but for remote frames, and extended ones without bytes.
Lines with one frame come back that are texts of frames with data. -/
theorem roundTrip_iff (now : ℤ) :
    (∀ frame, Valid frame → (RoundTrips now frame ↔
      frame.isRemote = false ∧ (frame.isExtended = true → frame.dlc ≠ 0))) ∧
    ∀ line frame, decodeSlcanFrame now line = some (some frame) → OneFrame line frame →
      (ReEncodes line frame ↔
        ∃ f : SlcanText, f.isRemote = false ∧ Text.trimList line = f.text) :=
  ⟨fun _ h => roundTrips_iff h, fun _ _ hdecode _ => reEncodes_iff hdecode⟩

end RoundTrip

/-- A frame with one byte comes back, and so does its line. -/
theorem one_byte_comes_back : RoundTrips 0 ⟨0x123, [0x1F], 1, false, false, false, none⟩ ∧
    ReEncodes "t12311f\r\n".toList ⟨0x123, [0x1F], 1, false, false, false, some 0⟩ := by
  have hvalid : Valid ⟨0x123, [0x1F], 1, false, false, false, none⟩ :=
    ⟨by decide, by decide, fun _ => rfl⟩
  have hline : ∃ f : SlcanText, f.isRemote = false ∧
      Text.trimList "t12311f\r\n".toList = f.text :=
    ⟨⟨false, false, ['1', '2', '3'], 1, ['1', 'f'], rfl, List.all_eq_true.mp rfl, by decide, rfl,
      List.all_eq_true.mp rfl⟩, rfl, by decide⟩
  exact ⟨((roundTrip_iff 0).1 _ hvalid).mpr ⟨rfl, nofun⟩,
    ((roundTrip_iff 0).2 _ _ (by decide) (by decide)).mpr hline⟩

/-- A frame that asks for data is sent as one with data. Its line is not written again. -/
theorem remote_frame_lost :
    (Valid ⟨0x123, [], 0, false, false, true, none⟩ ∧
      ¬ RoundTrips 0 ⟨0x123, [], 0, false, false, true, none⟩) ∧
    decodeSlcanFrame 0 "r1230".toList = some (some ⟨0x123, [], 0, false, false, true, some 0⟩) ∧
      OneFrame "r1230".toList ⟨0x123, [], 0, false, false, true, some 0⟩ ∧
      ¬ ReEncodes "r1230".toList ⟨0x123, [], 0, false, false, true, some 0⟩ := by
  have hencode (now : Option ℤ) : encodeSlcanFrame ⟨0x123, [], 0, false, false, true, now⟩ =
      encodeSlcanFrame ⟨0x123, [], 0, false, false, true, none⟩ := rfl
  have hwritten : encodeSlcanFrame ⟨0x123, [], 0, false, false, true, none⟩ =
      some (.ok "t1230\r".toList) := by decide
  refine ⟨⟨⟨by decide, by decide, nofun⟩, ?_⟩, by decide, by decide, ?_⟩
  · rintro ⟨text, frame', htext, hdecode, -, -, -, -, hremote⟩
    obtain rfl := Except.ok.inj (Option.some.inj (hwritten.symm.trans htext))
    have hdata : decodeSlcanFrame 0 "t1230\r".toList =
        some (some ⟨0x123, [], 0, false, false, false, some 0⟩) := by decide
    rw [← Option.some.inj (Option.some.inj (hdata.symm.trans hdecode))] at hremote
    cases hremote
  · rintro ⟨text, htext, hsame⟩
    obtain rfl := Except.ok.inj (Option.some.inj 
      (((hencode (some 0)).trans hwritten).symm.trans htext))
    have hletter : ¬ ('t' = 'r' ∨ isHex 't' = true ∧ isHex 'r' = true ∧
        Char.toUpper 't' = Char.toUpper 'r') := by decide
    cases hsame with
    | cons hfirst _ => exact hletter hfirst

end Nazh.SlcanLine
