import Nazh.Io.Can
import Nazh.Lib.LineReader

/-!
# CAN over a serial line

The adapter sends each frame as a text that ends in a carriage return. A thread reads the port
and hands frames to the backend. It waits for a line feed, takes the first frame of what it has,
and throws away what it has when the port says that nothing came in time.

Bytes from 128 on are not modelled.
-/

namespace Nazh

open Lib

/-! ## The texts of frames -/

/-- `encode_slcan_frame`, or nothing where it panics since there are fewer bytes than it sends. -/
def encodeSlcanFrame (frame : CanFrame) : Option (Except CanError (List Char)) :=
  let dlc := min frame.dlc.toNat 8
  if frame.data.length < dlc then none
  else
    let dataHex := hexEncode (frame.data.take dlc)
    if frame.isExtended then
      if 0x1FFFFFFF < frame.id then some (.error (.encodeFailed
        s!"扩展帧 ID 0x{String.ofList (paddedHex 8 frame.id)} 超过 29-bit 上限"))
      else some (.ok ('T' :: paddedHex 8 frame.id ++ [Nat.digitChar dlc] ++ dataHex ++ ['\r']))
    else
      if 0x7FF < frame.id then some (.error (.encodeFailed
        s!"标准帧 ID 0x{String.ofList (paddedHex 3 frame.id)} 超过 11-bit 上限"))
      else some (.ok ('t' :: paddedHex 3 frame.id ++ [Nat.digitChar dlc] ++ dataHex ++ ['\r']))

/-- One kind of frame in `decode_slcan_frame`: the text must have `atLeast` characters, and the
identifier has `idWidth` digits. -/
def decodeKind (now : ℤ) (atLeast idWidth : ℕ) (isExtended isRemote : Bool) (line : List Char) :
    Option CanFrame :=
  if line.length < atLeast then none
  else do
    let id ← fromStrRadix16 ((line.drop 1).take idWidth)
    let dlc ← (Text.parseUnsigned 8 (String.ofList ((line.drop (1 + idWidth)).take 1))).toOption
    if isRemote then some ⟨id, [], .ofNat dlc, isExtended, false, true, some now⟩
    else
      let dataLen := dlc * 2
      if line.length < 2 + idWidth + dataLen then none
      else do
        let data ← (hexDecode ((line.drop (2 + idWidth)).take dataLen)).toOption
        some ⟨id, data, .ofNat dlc, isExtended, false, false, some now⟩

/-- `decode_slcan_frame`: the first frame of a line. -/
def decodeSlcanFrame (now : ℤ) (line : List Char) : Option CanFrame :=
  let line := Text.trimList line
  match line.head? with
  | some 't' => decodeKind now 5 3 false false line
  -- an extended frame without bytes has ten characters
  | some 'T' => decodeKind now 11 8 true false line
  | some 'r' => decodeKind now 5 3 false true line
  | some 'R' => decodeKind now 10 8 true true line
  | _ => none

/-- A frame as the adapter writes it, without the carriage return: the kind, the identifier, the
count of bytes and the bytes, none of them in a remote frame. -/
structure SlcanText where
  isExtended : Bool
  isRemote : Bool
  idDigits : List Char
  dlc : Fin 9
  dataDigits : List Char
  id_length : idDigits.length = if isExtended then 8 else 3
  id_hex : ∀ c ∈ idDigits, isHex c = true
  id_le : hexNumber 0 idDigits ≤ if isExtended then 0x1FFFFFFF else 0x7FF
  data_length : dataDigits.length = if isRemote then 0 else 2 * dlc.val
  data_hex : ∀ c ∈ dataDigits, isHex c = true

namespace SlcanText

/-- The letter of the kind. -/
def tag (f : SlcanText) : Char :=
  if f.isRemote then if f.isExtended then 'R' else 'r' else if f.isExtended then 'T' else 't'

def text (f : SlcanText) : List Char :=
  f.tag :: (f.idDigits ++ [Nat.digitChar f.dlc] ++ f.dataDigits)

/-- The frame that is meant. -/
def frame (f : SlcanText) : CanFrame where
  id := .ofNat (hexNumber 0 f.idDigits)
  data := bytesOfHex f.dataDigits
  dlc := .ofNat f.dlc
  isExtended := f.isExtended
  isFd := false
  isRemote := f.isRemote
  timestamp := none

/-- The decoder does not take extended data frames without bytes. -/
def isTaken (f : SlcanText) : Bool := !f.isExtended || f.isRemote || f.dlc.val != 0

/-- What the adapter writes for some frames. -/
def stream (frames : List SlcanText) : List Char := frames.flatMap fun f => f.text ++ ['\r']

variable (f : SlcanText)

theorem digit_dlc : ∀ dlc : Fin 9, isHex (Nat.digitChar dlc) = true ∧
    Text.parseUnsigned 8 (String.ofList [Nat.digitChar dlc]) = .ok dlc.val := by decide

/-- The characters of a text after its letter are digits. -/
theorem isHex_of_mem_tail {c : Char} (hc : c ∈ f.text.tail) : isHex c = true := by
  rw [text, List.tail_cons, List.mem_append, List.mem_append, List.mem_singleton] at hc
  rcases hc with (hid | rfl) | hdata
  · exact f.id_hex c hid
  · exact (digit_dlc f.dlc).1
  · exact f.data_hex c hdata

/-- A digit is neither white space nor a letter of a kind. -/
theorem not_special_of_isHex {c : Char} (h : isHex c = true) :
    Text.isWhitespace c = false ∧ c ≠ '\n' ∧ c ≠ 't' ∧ c ≠ 'T' ∧ c ≠ 'r' ∧ c ≠ 'R' := by
  have hrange := isHex_iff.mp h
  have hne (d : Char) (hd : d.toNat = 10 ∨ d.toNat = 116 ∨ d.toNat = 84 ∨ d.toNat = 114 ∨
      d.toNat = 82) : c ≠ d := by
    intro heq
    rw [heq] at hrange
    omega
  refine ⟨?_, hne _ (by decide), hne _ (by decide), hne _ (by decide), hne _ (by decide),
    hne _ (by decide)⟩
  simp [Text.isWhitespace]
  omega

theorem tag_not_space : Text.isWhitespace f.tag = false ∧ isHex f.tag = false := by
  rw [tag]
  cases f.isRemote <;> cases f.isExtended <;> decide

/-- A text ends in a digit. -/
theorem text_concat : ∃ init last, f.text = init ++ [last] ∧ isHex last = true := by
  rcases List.eq_nil_or_concat f.dataDigits with hdata | ⟨digits, last, hdata⟩
  · refine ⟨f.tag :: f.idDigits, Nat.digitChar f.dlc, ?_, (digit_dlc f.dlc).1⟩
    rw [text, hdata, List.append_nil, List.cons_append]
  · refine ⟨f.tag :: (f.idDigits ++ [Nat.digitChar f.dlc] ++ digits), last, ?_, ?_⟩
    · simp [text, hdata]
    · apply f.data_hex
      rw [hdata, List.concat_eq_append]
      exact List.mem_append_right _ (List.mem_singleton.mpr rfl)

/-- Trimming a line takes the carriage return off. -/
theorem trimList_line : Text.trimList (f.text ++ ['\r']) = f.text := by
  have hreturn : Text.isWhitespace '\r' = true := by decide
  have hfront : (f.text ++ ['\r']).dropWhile Text.isWhitespace = f.text ++ ['\r'] := by
    rw [text, List.cons_append, List.dropWhile_cons_of_neg (by simp [f.tag_not_space.1])]
  have hback : f.text.reverse.dropWhile Text.isWhitespace = f.text.reverse := by
    obtain ⟨init, last, heq, hlast⟩ := f.text_concat
    rw [heq, List.reverse_append, List.reverse_singleton, List.singleton_append,
      List.dropWhile_cons_of_neg (by simp [(not_special_of_isHex hlast).1])]
  rw [Text.trimList, hfront, List.reverse_append, List.reverse_singleton, List.singleton_append,
    List.dropWhile_cons_of_pos hreturn, hback, List.reverse_reverse]

/-- Trimming adds nothing. -/
theorem mem_of_mem_trimList {c : Char} {line : List Char} (hc : c ∈ Text.trimList line) :
    c ∈ line := by
  rw [Text.trimList, List.mem_reverse] at hc
  have hfront := List.mem_reverse.mp ((List.dropWhile_sublist _).mem hc)
  exact (List.dropWhile_sublist _).mem hfront

/-- Digits alone are no frame. -/
theorem decode_of_digits {line : List Char} (now : ℤ)
    (hline : ∀ c ∈ line, isHex c = true ∨ c = '\r') : decodeSlcanFrame now line = none := by
  have hhead : ∀ c, (Text.trimList line).head? = some c → c ≠ 't' ∧ c ≠ 'T' ∧ c ≠ 'r' ∧ c ≠ 'R' := by
    intro c hc
    rcases hline c (mem_of_mem_trimList (List.mem_of_mem_head? hc)) with hhex | rfl
    · exact (not_special_of_isHex hhex).2.2
    · decide
  rw [decodeSlcanFrame]
  split
  · rename_i hc
    exact absurd rfl (hhead _ hc).1
  · rename_i hc
    exact absurd rfl (hhead _ hc).2.1
  · rename_i hc
    exact absurd rfl (hhead _ hc).2.2.1
  · rename_i hc
    exact absurd rfl (hhead _ hc).2.2.2
  · rfl

/-- The digits of a text are read, if it has as many characters as the kind asks for. -/
theorem decodeKind_text (now : ℤ) {atLeast : ℕ} (hlen : atLeast ≤ f.text.length) :
    decodeKind now atLeast f.idDigits.length f.isExtended f.isRemote f.text =
      some { f.frame with timestamp := some now } := by
  have hid : (f.text.drop 1).take f.idDigits.length = f.idDigits := by
    rw [text, List.drop_succ_cons, List.drop_zero, List.append_assoc, List.take_left]
  have hdlc : (f.text.drop (1 + f.idDigits.length)).take 1 = [Nat.digitChar f.dlc] := by
    rw [text, Nat.add_comm, List.drop_succ_cons, List.append_assoc, List.drop_left]
    rfl
  have hdata : f.text.drop (2 + f.idDigits.length) = f.dataDigits := by
    have hplace : 2 + f.idDigits.length = (f.idDigits ++ [Nat.digitChar f.dlc]).length + 1 := by
      rw [List.length_append, List.length_singleton]
      omega
    rw [text, hplace, List.drop_succ_cons, List.drop_left]
  have hne : f.idDigits ≠ [] := by
    rw [← List.length_pos_iff, f.id_length]
    split <;> decide
  have hwidth : f.idDigits.length ≤ 8 := by
    rw [f.id_length]
    split <;> decide
  rw [decodeKind, if_neg (Nat.not_lt.mpr hlen), hid, fromStrRadix16_eq hne f.id_hex hwidth, hdlc,
    (digit_dlc f.dlc).2]
  simp only [Option.bind_eq_bind, Option.bind_some, Except.toOption]
  cases hremote : f.isRemote with
  | true =>
      have hnone : f.dataDigits = [] := by
        have hlength := f.data_length
        rw [hremote, if_pos rfl] at hlength
        exact List.eq_nil_of_length_eq_zero hlength
      simp [frame, hremote, hnone, bytesOfHex]
  | false =>
      have hlength : f.dataDigits.length = 2 * f.dlc.val := by
        have hlength := f.data_length
        rwa [hremote, if_neg Bool.false_ne_true] at hlength
      have htotal : ¬ f.text.length < 2 + f.idDigits.length + f.dlc.val * 2 := by
        rw [text]
        simp only [List.length_cons, List.length_append, List.length_nil]
        omega
      have heven : hexDecode f.dataDigits = .ok (bytesOfHex f.dataDigits) := by
        rw [hexDecode, if_pos (by omega), hexPairs_eq f.data_hex]
      rw [if_neg Bool.false_ne_true, if_neg htotal, hdata, List.take_of_length_le (by omega), heven]
      simp [frame, hremote]

/-- What the decoder makes of a text and its carriage return. -/
theorem decode_line (now : ℤ) : decodeSlcanFrame now (f.text ++ ['\r']) =
    if f.isTaken then some { f.frame with timestamp := some now } else none := by
  have hlength : f.text.length = 2 + f.idDigits.length + f.dataDigits.length := by
    rw [text]
    simp only [List.length_cons, List.length_append, List.length_nil]
    omega
  have hid := f.id_length
  have hdata := f.data_length
  rw [decodeSlcanFrame, f.trimList_line]
  have hhead : f.text.head? = some f.tag := rfl
  cases hremote : f.isRemote with
  | true =>
      cases hextended : f.isExtended with
      | true =>
          have htag : f.tag = 'R' := by simp [tag, hremote, hextended]
          rw [hextended, if_pos rfl] at hid
          have hread := f.decodeKind_text now (show 10 ≤ f.text.length by omega)
          rw [hremote, hextended, hid] at hread
          simp [hhead, htag, hread, isTaken, hremote, hextended]
      | false =>
          have htag : f.tag = 'r' := by simp [tag, hremote, hextended]
          rw [hextended, if_neg Bool.false_ne_true] at hid
          have hread := f.decodeKind_text now (show 5 ≤ f.text.length by omega)
          rw [hremote, hextended, hid] at hread
          simp [hhead, htag, hread, isTaken, hremote, hextended]
  | false =>
      rw [hremote, if_neg Bool.false_ne_true] at hdata
      cases hextended : f.isExtended with
      | true =>
          have htag : f.tag = 'T' := by simp [tag, hremote, hextended]
          rw [hextended, if_pos rfl] at hid
          by_cases hdlc : f.dlc.val = 0
          · have hshort : decodeKind now 11 8 true false f.text = none := if_pos (by omega)
            simp [hhead, htag, hshort, isTaken, hremote, hextended, hdlc]
          · have hread := f.decodeKind_text now (show 11 ≤ f.text.length by omega)
            rw [hremote, hextended, hid] at hread
            simp [hhead, htag, hread, isTaken, hremote, hextended, hdlc]
      | false =>
          have htag : f.tag = 't' := by simp [tag, hremote, hextended]
          rw [hextended, if_neg Bool.false_ne_true] at hid
          have hread := f.decodeKind_text now (show 5 ≤ f.text.length by omega)
          rw [hremote, hextended, hid] at hread
          simp [hhead, htag, hread, isTaken, hremote, hextended]

/-- A frame with an identifier that fits has a text. -/
theorem exists_text {frame : CanFrame} (henough : min frame.dlc.toNat 8 ≤ frame.data.length)
    (hid : frame.id.toNat ≤ if frame.isExtended then 0x1FFFFFFF else 0x7FF) :
    ∃ f : SlcanText, f.text = (if frame.isExtended then 'T' else 't') ::
        (paddedHex (if frame.isExtended then 8 else 3) frame.id ++
          [Nat.digitChar (min frame.dlc.toNat 8)] ++
          hexEncode (frame.data.take (min frame.dlc.toNat 8))) ∧
      f.frame = { frame with
        data := frame.data.take (min frame.dlc.toNat 8)
        dlc := .ofNat (min frame.dlc.toNat 8)
        isFd := false, isRemote := false, timestamp := none } := by
  obtain ⟨hlength, hhex, hbytes⟩ := hexEncode_spec (frame.data.take (min frame.dlc.toNat 8))
  have htake : (frame.data.take (min frame.dlc.toNat 8)).length = min frame.dlc.toNat 8 := by
    rw [List.length_take]
    omega
  have hfits : (if frame.isExtended then 8 else 3) ≤ 8 ∧
      frame.id.toNat < 16 ^ (if frame.isExtended then 8 else 3) := by
    split at hid
    · rename_i hextended
      rw [if_pos hextended]
      omega
    · rename_i hstandard
      rw [if_neg hstandard]
      omega
  obtain ⟨hwidth, hdigits, hnumber⟩ := paddedHex_spec hfits.1 hfits.2
  refine ⟨⟨frame.isExtended, false, _, ⟨min frame.dlc.toNat 8, by omega⟩, _, hwidth, hdigits,
    hnumber ▸ hid, hlength.trans (by rw [htake]; rfl), hhex⟩, rfl, ?_⟩
  simp [SlcanText.frame, hnumber, hbytes]

/-- What the encoder writes is a text of the frame, and a carriage return. -/
theorem encode_text {frame : CanFrame} {line : List Char}
    (h : encodeSlcanFrame frame = some (.ok line)) : ∃ f : SlcanText, line = f.text ++ ['\r'] ∧
      f.frame = { frame with
        data := frame.data.take (min frame.dlc.toNat 8)
        dlc := .ofNat (min frame.dlc.toNat 8)
        isFd := false, isRemote := false, timestamp := none } := by
  rw [encodeSlcanFrame] at h
  simp only at h
  split at h
  · cases h
  · rename_i henough
    have hexists := @exists_text frame (Nat.not_lt.mp henough)
    cases hextended : frame.isExtended with
    | true =>
        rw [hextended, if_pos rfl] at h
        split at h
        · cases h
        · rename_i hid
          rw [hextended] at hexists
          obtain ⟨f, htext, hframe⟩ :=
            hexists (UInt32.le_iff_toNat_le.mp (UInt32.not_lt.mp hid))
          cases h
          exact ⟨f, by simp [htext], hframe⟩
    | false =>
        rw [hextended, if_neg Bool.false_ne_true] at h
        split at h
        · cases h
        · rename_i hid
          rw [hextended] at hexists
          obtain ⟨f, htext, hframe⟩ :=
            hexists (UInt32.le_iff_toNat_le.mp (UInt32.not_lt.mp hid))
          cases h
          exact ⟨f, by simp [htext], hframe⟩

end SlcanText

/-! ## The reader thread -/

/-- What a turn of the loop finds: the time, whether it was told to stop, and whether the receiver
of the frames is still there. -/
structure ReaderTurn where
  now : ℤ
  shutdown : Bool
  receiverOpen : Bool

/-- The thread that reads the port. -/
structure SlcanReader where
  /-- What the port is going to give. -/
  port : List (Arrival Char)
  line : List Char
  sent : List CanFrame
  state : BusState
  stopped : Bool

namespace SlcanReader

/-- The thread, before it reads the port. -/
def start (port : List (Arrival Char)) : SlcanReader := ⟨port, [], [], .active, false⟩

/-- One turn of the loop, if the thread runs and does not wait for the port. -/
def iterate (reader : SlcanReader) (turn : ReaderTurn) : Option SlcanReader :=
  if reader.stopped then none
  else if turn.shutdown then some { reader with stopped := true }
  else
    let line : List Char := []
    match readUntil '\n' line reader.port with
    | none => none
    | some (.timedOut, line, port) => some { reader with port, line }
    | some (.failed, line, port) => some { reader with port, line, state := .error, stopped := true }
    -- a line, or what there is of it at the end of the file
    | some (.delimiter, line, port) | some (.closed, line, port) =>
        if line = [] then some { reader with port, line, stopped := true }
        else match decodeSlcanFrame turn.now line with
          | none => some { reader with port, line }
          | some frame =>
              if turn.receiverOpen then
                some { reader with port, line, sent := reader.sent ++ [frame] }
              else some { reader with port, line, stopped := true }

/-- The thread after some turns, or where it waits for the port or has stopped. -/
def run (reader : SlcanReader) : List ReaderTurn → SlcanReader
  | [] => reader
  | turn :: turns => match reader.iterate turn with
    | none => reader
    | some reader' => run reader' turns

end SlcanReader

/-! ## What is handed on -/

section Forwarded

variable {arrivals : List (Arrival Char)} {turns : List ReaderTurn} {reader : SlcanReader}

/-- The thread was not told to stop, and its frames are received. -/
def Steady (turns : List ReaderTurn) : Prop :=
  ∀ turn ∈ turns, turn.shutdown = false ∧ turn.receiverOpen = true

theorem Steady.tail {turn : ReaderTurn} (h : Steady (turn :: turns)) : Steady turns :=
  fun other hother => h other (List.mem_cons_of_mem turn hother)

theorem untimed_decodeKind (now now' : ℤ) (atLeast idWidth : ℕ) (isExtended isRemote : Bool)
    (line : List Char) :
    (decodeKind now atLeast idWidth isExtended isRemote line).map CanFrame.untimed =
      (decodeKind now' atLeast idWidth isExtended isRemote line).map CanFrame.untimed := by
  rw [decodeKind, decodeKind]
  split
  · rfl
  · cases fromStrRadix16 ((line.drop 1).take idWidth) with
    | none => rfl
    | some id =>
        simp only [Option.bind_eq_bind, Option.bind_some]
        cases (Text.parseUnsigned 8
            (String.ofList ((line.drop (1 + idWidth)).take 1))).toOption with
        | none => rfl
        | some dlc =>
            simp only [Option.bind_some]
            split
            · rfl
            · split
              · rfl
              · cases (hexDecode ((line.drop (2 + idWidth)).take (dlc * 2))).toOption with
                | none => rfl
                | some data => rfl

/-- The time of a frame is the only thing that depends on the clock. -/
theorem untimed_decode (now now' : ℤ) (line : List Char) :
    (decodeSlcanFrame now line).map CanFrame.untimed =
      (decodeSlcanFrame now' line).map CanFrame.untimed := by
  rw [decodeSlcanFrame, decodeSlcanFrame]
  split
  · exact untimed_decodeKind now now' _ _ _ _ _
  · exact untimed_decodeKind now now' _ _ _ _ _
  · exact untimed_decodeKind now now' _ _ _ _ _
  · exact untimed_decodeKind now now' _ _ _ _ _
  · rfl

/-- Without bytes to come the thread sends nothing. -/
theorem sent_run_of_waits (hport : reader.stopped = true ∨ reader.port = [])
    (hsteady : Steady turns) : (reader.run turns).sent = reader.sent := by
  cases turns with
  | nil => rfl
  | cons turn turns =>
      have hwaits : reader.iterate turn = none := by
        rcases hport with hstopped | hport
        · exact if_pos hstopped
        · by_cases hstopped : reader.stopped = true
          · exact if_pos hstopped
          · have hshutdown := (hsteady turn List.mem_cons_self).1
            rw [SlcanReader.iterate, if_neg hstopped, hshutdown, if_neg Bool.false_ne_true]
            simp [hport, readUntil]
      rw [SlcanReader.run, hwaits]

/-- A timeout throws the begun line away at the next turn. -/
theorem iterate_of_timedOut {turn : ReaderTurn} {line : List Char} {port : List (Arrival Char)}
    (hruns : reader.stopped = false) (hshutdown : turn.shutdown = false)
    (hread : readUntil '\n' [] reader.port = some (.timedOut, line, port)) :
    reader.iterate turn = some { reader with port, line } := by
  rw [SlcanReader.iterate, hruns, hshutdown, if_neg Bool.false_ne_true, if_neg Bool.false_ne_true]
  simp only [hread]

/-- When the port closes the thread sends the frame that its line begins with. -/
theorem iterate_of_closed {turn : ReaderTurn} {line : List Char} (hruns : reader.stopped = false)
    (hsteady : turn.shutdown = false ∧ turn.receiverOpen = true)
    (hread : readUntil '\n' [] reader.port = some (.closed, line, [])) :
    ∃ reader', reader.iterate turn = some reader' ∧
      (reader'.stopped = true ∨ reader'.port = []) ∧
      reader'.sent = reader.sent ++ (decodeSlcanFrame turn.now line).toList := by
  obtain ⟨hshutdown, hopen⟩ := hsteady
  rw [SlcanReader.iterate, hruns, hshutdown, if_neg Bool.false_ne_true, if_neg Bool.false_ne_true]
  simp only [hread, hopen, if_true]
  by_cases hline : line = []
  · subst hline
    have hnone : decodeSlcanFrame turn.now [] = none := rfl
    exact ⟨_, if_pos rfl, .inl rfl, by simp [hnone]⟩
  · rw [if_neg hline]
    cases hdecode : decodeSlcanFrame turn.now line with
    | none => exact ⟨_, rfl, .inr rfl, by simp⟩
    | some frame => exact ⟨_, rfl, .inr rfl, rfl⟩

/-- What the thread has sent once it has taken bytes without a line feed: nothing, or what is
decoded of the bytes after the last timeout when the port closes. -/
theorem sent_run (h : Unended '\n' arrivals) (closes : Bool)
    (hport : reader.port = arrivals ++ if closes then [.closed] else [])
    (hruns : reader.stopped = false) (hsteady : Steady turns)
    (hturns : arrivals.length < turns.length) :
    (reader.run turns).sent.map CanFrame.untimed = reader.sent.map CanFrame.untimed ++
      if closes then ((decodeSlcanFrame 0 (sinceTimeout [] arrivals)).map CanFrame.untimed).toList
      else [] := by
  induction hn : arrivals.length using Nat.strong_induction_on generalizing arrivals turns reader with
  | _ n ih =>
      cases turns with
      | nil => exact absurd hturns (Nat.not_lt_zero _)
      | cons turn turns =>
          have hfirst := hsteady turn List.mem_cons_self
          rcases readUntil_of_unended h [] (if closes then [.closed] else []) with
            hread | ⟨line, rest, hread, hlt, hrest, hsince⟩
          · rw [← hport] at hread
            cases closes with
            | true =>
                obtain ⟨reader', hturn, hwaits, hsent⟩ := iterate_of_closed hruns hfirst hread
                rw [SlcanReader.run, hturn]
                change (reader'.run turns).sent.map CanFrame.untimed = _
                rw [sent_run_of_waits hwaits hsteady.tail, hsent, List.map_append, if_pos rfl,
                  untimed_decode 0 turn.now]
                cases decodeSlcanFrame turn.now (sinceTimeout [] arrivals) with
                | none => rfl
                | some frame => rfl
            | false =>
                have hturn : reader.iterate turn = none := by
                  rw [SlcanReader.iterate, hruns, hfirst.1, if_neg Bool.false_ne_true,
                    if_neg Bool.false_ne_true]
                  simp only [hread]
                  rfl
                rw [SlcanReader.run, hturn, if_neg Bool.false_ne_true, List.append_nil]
          · rw [← hport] at hread
            rw [SlcanReader.run, iterate_of_timedOut hruns hfirst.1 hread, hsince]
            have hlength : rest.length < turns.length := by
              rw [List.length_cons] at hturns
              omega
            exact ih rest.length (hn ▸ hlt) hrest rfl hruns hsteady.tail hlength rfl

/-- The bytes that the thread has not thrown away are all there are, or digits and a carriage
return. -/
theorem sinceTimeout_cases {f : SlcanText} (h : Delivers (SlcanText.stream [f]) arrivals) :
    sinceTimeout [] arrivals = SlcanText.stream [f] ∨
      ∀ c ∈ sinceTimeout [] arrivals, isHex c = true ∨ c = '\r' := by
  have hsuffix := sinceTimeout_suffix [] arrivals
  rw [List.nil_append, h.1] at hsuffix
  have hstream : SlcanText.stream [f] = f.tag :: (f.text.tail ++ ['\r']) := by
    simp [SlcanText.stream, SlcanText.text]
  rw [hstream] at hsuffix ⊢
  rcases List.suffix_cons_iff.mp hsuffix with hwhole | hrest
  · exact .inl hwhole
  · refine .inr fun c hc => ?_
    rcases List.mem_append.mp (hrest.mem hc) with hdigit | hreturn
    · exact .inl (f.isHex_of_mem_tail hdigit)
    · exact .inr (List.mem_singleton.mp hreturn)

theorem ne_newline_of_mem_stream {frames : List SlcanText} {c : Char}
    (hc : c ∈ SlcanText.stream frames) : c ≠ '\n' := by
  obtain ⟨f, -, hf⟩ := List.mem_flatMap.mp hc
  rcases List.mem_append.mp hf with htext | hreturn
  · rw [SlcanText.text, List.mem_cons] at htext
    rcases htext with rfl | hdigit
    · rw [SlcanText.tag]
      cases f.isRemote <;> cases f.isExtended <;> decide
    · exact (SlcanText.not_special_of_isHex (f.isHex_of_mem_tail hdigit)).2.1
  · rw [List.mem_singleton.mp hreturn]
    decide

/-- The thread hands on the frames of a stream if and only if there are none, or there is one that
the decoder takes, it comes without a timeout, and then the port closes. -/
theorem frames_forwarded_iff (frames : List SlcanText) (closes : Bool)
    (h : Delivers (SlcanText.stream frames) arrivals) (hsteady : Steady turns)
    (hturns : arrivals.length < turns.length) :
    ((SlcanReader.start (arrivals ++ if closes then [.closed] else [])).run turns).sent.map
        CanFrame.untimed = frames.map SlcanText.frame ↔
      frames = [] ∨ closes = true ∧ sinceTimeout [] arrivals = SlcanText.stream frames ∧
        ∃ f, frames = [f] ∧ f.isTaken = true := by
  have hunended : Unended '\n' arrivals := h.unended fun c hc => ne_newline_of_mem_stream hc
  rw [sent_run hunended closes rfl rfl hsteady hturns]
  simp only [SlcanReader.start, List.map_nil, List.nil_append]
  constructor
  · intro hsent
    cases frames with
    | nil => exact .inl rfl
    | cons f rest =>
        right
        cases closes with
        | false => cases hsent
        | true =>
            rw [if_pos rfl] at hsent
            cases hdecode : decodeSlcanFrame 0 (sinceTimeout [] arrivals) with
            | none =>
                rw [hdecode] at hsent
                cases hsent
            | some frame =>
                rw [hdecode] at hsent
                have hrest : rest = [] := by
                  have hlength := congrArg List.length hsent
                  simpa using hlength
                subst hrest
                rcases sinceTimeout_cases h with hwhole | hdigits
                · refine ⟨rfl, hwhole, f, rfl, ?_⟩
                  have hline : SlcanText.stream [f] = f.text ++ ['\r'] := by
                    simp [SlcanText.stream]
                  rw [hwhole, hline, f.decode_line] at hdecode
                  by_cases htaken : f.isTaken = true
                  · exact htaken
                  · rw [if_neg htaken] at hdecode
                    cases hdecode
                · rw [SlcanText.decode_of_digits 0 hdigits] at hdecode
                  cases hdecode
  · rintro (rfl | ⟨rfl, hwhole, f, rfl, htaken⟩)
    · have hnothing : sinceTimeout [] arrivals = [] := by
        have hsuffix := sinceTimeout_suffix [] arrivals
        rw [List.nil_append, h.1] at hsuffix
        exact List.eq_nil_of_suffix_nil hsuffix
      rw [hnothing]
      cases closes with
      | true => rfl
      | false => rfl
    · have hline : SlcanText.stream [f] = f.text ++ ['\r'] := by simp [SlcanText.stream]
      rw [if_pos rfl, hwhole, hline, f.decode_line, if_pos htaken]
      rfl

end Forwarded

/-- `t12311F\r`: a frame with one byte. -/
def oneByte : SlcanText where
  isExtended := false
  isRemote := false
  idDigits := ['1', '2', '3']
  dlc := 1
  dataDigits := ['1', 'F']
  id_length := rfl
  id_hex := List.all_eq_true.mp rfl
  id_le := by decide
  data_length := rfl
  data_hex := List.all_eq_true.mp rfl

/-- Turns at which nothing happens. -/
def quietTurns (n : ℕ) : List ReaderTurn := List.replicate n ⟨0, false, true⟩

theorem steady_quietTurns (n : ℕ) : Steady (quietTurns n) := by
  intro turn hturn
  rw [List.eq_of_mem_replicate hturn]
  exact ⟨rfl, rfl⟩

/-- The frame comes at once, and the port closes. -/
theorem one_frame_forwarded :
    ((SlcanReader.start ((SlcanText.stream [oneByte]).map .item ++ [.closed])).run
      (quietTurns 20)).sent.map CanFrame.untimed = [oneByte.frame] := by
  have hdelivers : Delivers (SlcanText.stream [oneByte])
      ((SlcanText.stream [oneByte]).map Arrival.item) := by
    constructor
    · decide
    · intro arrival harrival
      obtain ⟨c, -, rfl⟩ := List.mem_map.mp harrival
      exact .inr ⟨c, rfl⟩
  exact (frames_forwarded_iff [oneByte] true hdelivers (steady_quietTurns 20) (by decide)).mpr
    (.inr ⟨rfl, by decide, oneByte, rfl, by decide⟩)

/-- The frame comes at once, and then nothing in time: it is lost. Of two frames before the end of
the port the second is lost. -/
theorem frames_lost :
    ((SlcanReader.start ((SlcanText.stream [oneByte]).map .item ++ [.timedOut])).run
        (quietTurns 20)).sent = [] ∧
      ((SlcanReader.start ((SlcanText.stream [oneByte, oneByte]).map .item ++ [.closed])).run
        (quietTurns 20)).sent.length = 1 := by decide

end Nazh
