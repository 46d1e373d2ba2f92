import Mathlib.Data.List.Flatten
import Nazh.Core.Text
import Nazh.Io.SerialFraming

/-!
# Two readers of a delimiter

A `serialTrigger` and a listener for events frame the same port. The first one reads escapes and
hexadecimal digits in the text of a delimiter, and looks for it in all that it has; the second one
knows the escapes of two texts only, and looks at the end of what it has after each byte. Both ways
of looking find the same frames, and the delimiters are the same if there is nothing else to read
in the text.
-/

namespace Nazh

open Lib

/-! ## The text of a delimiter -/

/-- `hex_nibble`. -/
def hexNibble (value : UInt8) : Option UInt8 :=
  if 0x30 ≤ value ∧ value ≤ 0x39 then some (value - 0x30)
  else if 0x61 ≤ value ∧ value ≤ 0x66 then some (value - 0x61 + 10)
  else if 0x41 ≤ value ∧ value ≤ 0x46 then some (value - 0x41 + 10)
  else none

/-- The pairs of `nibbles.chunks(2)`; one that is left over is dropped. -/
def bytesOfNibbles : List UInt8 → List UInt8
  | high :: low :: nibbles => (high <<< 4 ||| low) :: bytesOfNibbles nibbles
  | _ => []

/-- `parse_hex_bytes`. -/
def SerialTrigger.parseHexBytes (value : List Char) : List UInt8 :=
  bytesOfNibbles ((Text.asBytes value).filterMap hexNibble)

/-- The hexadecimal digits after one of the two prefixes. -/
def hexPart (trimmed : List Char) : Option (List Char) :=
  if ['h', 'e', 'x', ':'].isPrefixOf trimmed then some (trimmed.drop 4)
  else if ['0', 'x'].isPrefixOf trimmed then some (trimmed.drop 2)
  else none

/-- What a character stands for behind a backslash. -/
def escaped (ch : Char) : List UInt8 :=
  if ch = 'n' then [0x0A]
  else if ch = 'r' then [0x0D]
  else if ch = 't' then [0x09]
  else if ch = '\\' then [0x5C]
  else String.utf8EncodeChar ch

/-- The loop of `decode_serial_delimiter` over the characters. -/
def unescape : List Char → List UInt8
  | [] => []
  | ch :: chars =>
      if ch ≠ '\\' then String.utf8EncodeChar ch ++ unescape chars
      else match chars with
        | [] => [0x5C]
        | other :: chars => escaped other ++ unescape chars

/-- `decode_serial_delimiter`. -/
def decodeSerialDelimiter (value : String) : List UInt8 :=
  if value = "" then []
  else match hexPart (Text.trimList value.toList) with
    | some hex => SerialTrigger.parseHexBytes hex
    | none => unescape value.toList

/-- `parse_delimiter`. -/
def parseDelimiter (delimiter : String) : List UInt8 :=
  if delimiter = "\\n" then [0x0A]
  else if delimiter = "\\r\\n" then [0x0D, 0x0A]
  else Text.asBytes delimiter.toList

/-! ## The two loops -/

/-- The settings of a `serialTrigger`, as its loop takes them. -/
def SerialFraming.ofConfig (delimiter : String) (maxFrameBytes : ℕ) : SerialFraming where
  delimiter := decodeSerialDelimiter delimiter
  maxFrameBytes := min (max maxFrameBytes 1) 8192
  pos := by omega
  le := by omega

/-- What `run_serial_read_loop_sync` does with a byte: the frame that it ends, and the buffer. -/
def readByte (delimBytes buffer : List UInt8) (single : UInt8) :
    Option (List UInt8) × List UInt8 :=
  let buffer := buffer ++ [single]
  if delimBytes ≠ [] ∧ delimBytes.length ≤ buffer.length then
    let tail := buffer.drop (buffer.length - delimBytes.length)
    if tail = delimBytes then (some (buffer.take (buffer.length - delimBytes.length)), [])
    else (none, buffer)
  else (none, buffer)

/-- The frames that `run_serial_read_loop_sync` processes. -/
def serialReadLoop (delimBytes : List UInt8) : List UInt8 → List UInt8 → List (List UInt8)
  | _, [] => []
  | buffer, single :: stream =>
      let (frame, buffer) := readByte delimBytes buffer single
      frame.toList ++ serialReadLoop delimBytes buffer stream

/-- Every part of a stream is shorter than a bound, delimiters included. -/
def ShortSegments (delimiter : List UInt8) (bound : ℕ) (stream : List UInt8) : Prop :=
  ∀ frames rest, Segmented delimiter stream frames rest →
    (∀ frame ∈ frames, (frame ++ delimiter).length < bound) ∧ rest.length < bound

/-- However a stream is read, if all its parts are shorter than a frame may be, then the frames
with bytes in them are the same. -/
def FramersAgree (delimiter : String) (maxFrameBytes : ℕ) : Prop :=
  let c := SerialFraming.ofConfig delimiter maxFrameBytes
  ∀ reads s, c.machine.replay (fun _ _ => true) .start reads = some s →
    ShortSegments c.delimiter c.maxFrameBytes reads.flatten →
    ShortSegments (parseDelimiter delimiter) c.maxFrameBytes reads.flatten →
    (serialReadLoop (parseDelimiter delimiter) [] reads.flatten).filter (· ≠ []) = s.submitted

/-- The text is one of those that the listener reads, or it has neither a prefix of hexadecimal
digits nor a backslash before another character. -/
def PlainDelimiter (delimiter : String) : Prop :=
  delimiter = "\\n" ∨ delimiter = "\\r\\n" ∨
    hexPart (Text.trimList delimiter.toList) = none ∧ '\\' ∉ delimiter.toList.dropLast

/-- No byte has room before the shorter of the two delimiters that is one. -/
def NoRoom (delimiter : String) (maxFrameBytes : ℕ) : Prop :=
  (SerialFraming.ofConfig delimiter maxFrameBytes).maxFrameBytes ≤
    (if decodeSerialDelimiter delimiter = [] then parseDelimiter delimiter
      else decodeSerialDelimiter delimiter).length + 1

/-! ## What texts stand for -/

theorem length_asBytes_le_of_sublist {s t : List Char} (h : s.Sublist t) :
    (Text.asBytes s).length ≤ (Text.asBytes t).length :=
  (h.flatMap String.utf8EncodeChar).length_le

theorem length_bytesOfNibbles_le (nibbles : List UInt8) :
    (bytesOfNibbles nibbles).length ≤ nibbles.length := by
  fun_induction bytesOfNibbles nibbles with
  | case1 high low nibbles ih =>
      simp only [List.length_cons]
      omega
  | case2 => exact Nat.zero_le _

/-- What is behind a prefix is shorter. -/
theorem length_parseHexBytes_lt {trimmed hex : List Char} (h : hexPart trimmed = some hex) :
    (SerialTrigger.parseHexBytes hex).length < (Text.asBytes trimmed).length := by
  have hle : (SerialTrigger.parseHexBytes hex).length ≤ (Text.asBytes hex).length :=
    (length_bytesOfNibbles_le _).trans (List.length_filterMap_le _ _)
  have hcut : ∃ c rest, trimmed = c :: rest ∧ hex.Sublist rest := by
    rw [hexPart] at h
    split at h
    · rename_i hbegins
      obtain ⟨rest, rfl⟩ := List.isPrefixOf_iff_prefix.mp hbegins
      obtain rfl := Option.some.inj h
      exact ⟨_, _, rfl, (List.drop_sublist 3 _)⟩
    · split at h
      · rename_i hbegins
        obtain ⟨rest, rfl⟩ := List.isPrefixOf_iff_prefix.mp hbegins
        obtain rfl := Option.some.inj h
        exact ⟨_, _, rfl, (List.drop_sublist 1 _)⟩
      · cases h
  obtain ⟨c, rest, rfl, hsub⟩ := hcut
  have hrest := length_asBytes_le_of_sublist hsub
  have hpos := c.utf8Size_pos
  have hwhole : (Text.asBytes (c :: rest)).length = c.utf8Size + (Text.asBytes rest).length := by
    rw [Text.asBytes, List.flatMap_cons, List.length_append, String.length_utf8EncodeChar]
    rfl
  omega

theorem length_escaped_le (ch : Char) :
    (escaped ch).length ≤ (String.utf8EncodeChar ch).length := by
  have hpos := ch.utf8Size_pos
  rw [String.length_utf8EncodeChar, escaped]
  split
  · exact hpos
  · split
    · exact hpos
    · split
      · exact hpos
      · split
        · exact hpos
        · rw [String.length_utf8EncodeChar]

/-- A backslash before a character makes a text stand for less. -/
theorem unescape_cases (chars : List Char) :
    unescape chars = Text.asBytes chars ∧ '\\' ∉ chars.dropLast ∨
      (unescape chars).length < (Text.asBytes chars).length ∧ '\\' ∈ chars.dropLast := by
  have hcons (c : Char) (rest : List Char) :
      (Text.asBytes (c :: rest)).length = c.utf8Size + (Text.asBytes rest).length := by
    rw [Text.asBytes, List.flatMap_cons, List.length_append, String.length_utf8EncodeChar]
    rfl
  fun_induction unescape chars with
  | case1 => exact .inl ⟨rfl, List.not_mem_nil⟩
  | case2 ch chars hch ih =>
      rcases ih with ⟨heq, hplain⟩ | ⟨hlt, hmem⟩
      · refine .inl ⟨by rw [heq]; rfl, fun hmem => ?_⟩
        cases chars with
        | nil => exact List.not_mem_nil hmem
        | cons other chars =>
            rw [List.dropLast_cons_cons] at hmem
            rcases List.mem_cons.mp hmem with hfirst | hlater
            · exact hch hfirst.symm
            · exact hplain hlater
      · refine .inr ⟨?_, ?_⟩
        · rw [hcons, List.length_append, String.length_utf8EncodeChar]
          omega
        · cases chars with
          | nil => exact absurd hmem List.not_mem_nil
          | cons other chars =>
              rw [List.dropLast_cons_cons]
              exact List.mem_cons_of_mem ch hmem
  | case3 ch hch =>
      obtain rfl := Decidable.not_not.mp hch
      exact .inl ⟨by decide, List.not_mem_nil⟩
  | case4 ch hch other chars ih =>
      obtain rfl := Decidable.not_not.mp hch
      have hle := length_escaped_le other
      have hpos := '\\'.utf8Size_pos
      have hrest : (unescape chars).length ≤ (Text.asBytes chars).length := by
        rcases ih with ⟨heq, -⟩ | ⟨hlt, -⟩
        · rw [heq]
        · exact hlt.le
      refine .inr ⟨?_, ?_⟩
      · rw [String.length_utf8EncodeChar] at hle
        rw [hcons, hcons, List.length_append]
        omega
      · rw [List.dropLast_cons_cons]
        exact List.mem_cons_self

/-- Either both read the same, or the text is not plain and stands for fewer bytes in the trigger
than in the listener. -/
theorem delimiter_cases {delimiter : String} (hne : delimiter ≠ "") :
    decodeSerialDelimiter delimiter = parseDelimiter delimiter ∧ PlainDelimiter delimiter ∨
      (decodeSerialDelimiter delimiter).length < (parseDelimiter delimiter).length ∧
        ¬ PlainDelimiter delimiter := by
  by_cases hnewline : delimiter = "\\n"
  · subst hnewline
    exact .inl ⟨by decide, .inl rfl⟩
  by_cases hreturn : delimiter = "\\r\\n"
  · subst hreturn
    exact .inl ⟨by decide, .inr (.inl rfl)⟩
  have hparse : parseDelimiter delimiter = Text.asBytes delimiter.toList := by
    rw [parseDelimiter, if_neg hnewline, if_neg hreturn]
  rw [hparse, decodeSerialDelimiter, if_neg hne]
  cases hhex : hexPart (Text.trimList delimiter.toList) with
  | some hex =>
      have hlt := length_parseHexBytes_lt hhex
      have hle := length_asBytes_le_of_sublist (Text.trimList_sublist delimiter.toList)
      refine .inr ⟨hlt.trans_le hle, ?_⟩
      rintro (h | h | ⟨h, -⟩)
      · exact hnewline h
      · exact hreturn h
      · rw [h] at hhex
        cases hhex
  | none =>
      rcases unescape_cases delimiter.toList with ⟨heq, hplain⟩ | ⟨hlt, hmem⟩
      · exact .inl ⟨heq, .inr (.inr ⟨hhex, hplain⟩)⟩
      · refine .inr ⟨hlt, ?_⟩
        rintro (h | h | ⟨-, h⟩)
        · exact hnewline h
        · exact hreturn h
        · exact h hmem

/-! ## What the loops recognise -/

/-- The listener looks after each byte. -/
theorem readByte_eq_push (delimBytes buffer : List UInt8) (single : UInt8) :
    readByte delimBytes buffer single = push delimBytes buffer single := by
  have hends (whole : List UInt8) : delimBytes <:+ whole ↔ delimBytes.length ≤ whole.length ∧
      whole.drop (whole.length - delimBytes.length) = delimBytes := by
    constructor
    · exact fun h => ⟨h.length_le, (List.suffix_iff_eq_drop.mp h).symm⟩
    · exact fun h => List.suffix_iff_eq_drop.mpr h.2.symm
  simp only [readByte, push, hends]
  split
  · rename_i hlong
    split
    · rename_i htail
      rw [if_pos ⟨hlong.1, hlong.2, htail⟩]
    · rename_i htail
      rw [if_neg fun h => htail h.2.2]
  · rename_i hshort
    rw [if_neg fun h => hshort ⟨h.1, h.2.1⟩]

theorem serialReadLoop_eq (delimBytes buffer stream : List UInt8) :
    serialReadLoop delimBytes buffer stream = (feed delimBytes buffer stream).1 := by
  induction stream generalizing buffer with
  | nil => rfl
  | cons single stream ih =>
      rw [serialReadLoop, feed, ← readByte_eq_push]
      exact congrArg _ (ih _)

theorem shortSegments_iff {delimiter stream : List UInt8} {bound : ℕ} :
    ShortSegments delimiter bound stream ↔
      (∀ frame ∈ (feed delimiter [] stream).1, (frame ++ delimiter).length < bound) ∧
        (feed delimiter [] stream).2.length < bound := by
  have hnil : delimiter ≠ [] → ¬ delimiter <:+: [] := fun hne h => hne (List.infix_nil.mp h)
  constructor
  · exact fun h => h _ _ (feed_segmented stream hnil)
  · intro h frames rest hsegmented
    rwa [hsegmented.feed_eq] at h

/-- What there is of a stream has short parts if the stream has. -/
theorem ShortSegments.of_append {delimiter xs ys : List UInt8} {bound : ℕ}
    (h : ShortSegments delimiter bound (xs ++ ys)) : ShortSegments delimiter bound xs := by
  have hnil : delimiter ≠ [] → ¬ delimiter <:+: [] := fun hne h => hne (List.infix_nil.mp h)
  rw [shortSegments_iff, feed_append] at h
  refine shortSegments_iff.mpr ⟨fun frame hmem => h.1 frame (List.mem_append_left _ hmem), ?_⟩
  rcases feed_cases ys (feed_segmented xs hnil).unended with ⟨hnone, -⟩ |
      ⟨frame, came, rest, -, -, hwhole, hfeed⟩
  · have hrest := h.2
    simp only [hnone, List.length_append] at hrest
    omega
  · have hframe := h.1 frame (List.mem_append_right _ (by rw [hfeed]; exact List.mem_cons_self))
    rw [← hwhole, List.length_append] at hframe
    omega

namespace SerialFraming

variable {c : SerialFraming} {s s' : SerialLoop} {reads : List (List UInt8)}

/-- Where all parts are short, the loop cuts nothing. -/
def Whole (c : SerialFraming) (s : SerialLoop) : Prop :=
  ShortSegments c.delimiter c.maxFrameBytes s.received →
    s = ⟨(feed c.delimiter [] s.received).2,
      (feed c.delimiter [] s.received).1.map fun frame => ⟨frame, true⟩, s.received⟩

theorem Whole.iterate (h : Whole c s) (bytes : List UInt8)
    (hreceived : (c.iterate s bytes).received = s.received ++ bytes) :
    Whole c (c.iterate s bytes) := by
  intro hshort
  rw [hreceived] at hshort ⊢
  have hs := h hshort.of_append
  have hbuffer : s.buffer = (feed c.delimiter [] s.received).2 := congrArg SerialLoop.buffer hs
  have hframes := congrArg SerialLoop.frames hs
  have hclean : Clean c s.buffer := hbuffer ▸ (feed_segmented s.received Clean.nil).unended
  have hrest := (shortSegments_iff.mp hshort).2
  rw [feed_append, ← hbuffer] at hrest ⊢
  rw [iterate_of_lt hclean hrest, hframes, List.map_append]

/-- In every run the frames are those of the stream. -/
theorem whole_of_replay (h : Whole c s) (hknown : Known c s)
    (hrun : c.machine.replay (fun _ _ => true) s reads = some s') :
    Whole c s' ∧ s'.received = s.received ++ reads.flatten := by
  induction reads generalizing s with
  | nil =>
      obtain rfl := Option.some.inj hrun
      exact ⟨h, (List.append_nil _).symm⟩
  | cons bytes reads ih =>
      rw [Machine.replay, if_pos rfl] at hrun
      obtain ⟨next, hnext, hrest⟩ := Option.bind_eq_some_iff.mp hrun
      obtain rfl := step_eq_some hnext
      have hreceived : (c.iterate s bytes).received = s.received ++ bytes := by
        rw [iterate_eq hknown.clean]
        exact (cutLong_spec ..).1
      obtain ⟨hwhole, hall⟩ := ih (h.iterate bytes hreceived) (known_iterate hknown bytes) hrest
      exact ⟨hwhole, by rw [hall, hreceived, List.flatten_cons, List.append_assoc]⟩

/-- A stream may come byte by byte. -/
theorem exists_replay (c : SerialFraming) (s : SerialLoop) (stream : List UInt8) :
    ∃ s', c.machine.replay (fun _ _ => true) s (stream.map fun b => [b]) = some s' := by
  induction stream generalizing s with
  | nil => exact ⟨s, rfl⟩
  | cons b stream ih => exact ih (c.iterate s [b])

/-- The framers agree if and only if the frames with bytes in them are the same for both
delimiters, in each stream whose parts are short for both. -/
theorem framersAgree_iff_feed {delimiter : String} {maxFrameBytes : ℕ} :
    FramersAgree delimiter maxFrameBytes ↔
      ∀ stream, ShortSegments (ofConfig delimiter maxFrameBytes).delimiter
          (ofConfig delimiter maxFrameBytes).maxFrameBytes stream →
        ShortSegments (parseDelimiter delimiter) (ofConfig delimiter maxFrameBytes).maxFrameBytes
          stream →
        (feed (parseDelimiter delimiter) [] stream).1.filter (· ≠ []) =
          (feed (decodeSerialDelimiter delimiter) [] stream).1.filter (· ≠ []) := by
  generalize hc : ofConfig delimiter maxFrameBytes = c
  have hdelimiter : decodeSerialDelimiter delimiter = c.delimiter := by rw [← hc]; rfl
  -- what the trigger submits
  have hsubmitted {reads s} (hrun : c.machine.replay (fun _ _ => true) .start reads = some s)
      (hshort : ShortSegments c.delimiter c.maxFrameBytes reads.flatten) :
      s.submitted = (feed c.delimiter [] reads.flatten).1.filter (· ≠ []) := by
    obtain ⟨hwhole, hall⟩ := whole_of_replay (fun _ => rfl) known_start hrun
    have hall : s.received = reads.flatten := hall
    rw [← hall] at hshort ⊢
    rw [SerialLoop.submitted, congrArg SerialLoop.frames (hwhole hshort), List.map_map]
    congr 1
    exact List.map_id _
  simp only [FramersAgree, hc, hdelimiter, serialReadLoop_eq]
  constructor
  · intro h stream hshort hshort'
    have hflat : (stream.map fun b => [b]).flatten = stream := by
      rw [← List.flatMap_def, List.flatMap_singleton']
    obtain ⟨s, hrun⟩ := exists_replay c .start stream
    have hsame := h _ s hrun (hflat.symm ▸ hshort) (hflat.symm ▸ hshort')
    rw [hsubmitted hrun (hflat.symm ▸ hshort), hflat] at hsame
    exact hsame
  · intro h reads s hrun hshort hshort'
    rw [hsubmitted hrun hshort]
    exact h _ hshort hshort'

end SerialFraming

/-! ## Where the framers agree -/

/-- One byte before a delimiter is a frame, if the delimiter does not begin with it. -/
theorem feed_one {delimiter : List UInt8} {b : UInt8} (hb : delimiter.head? ≠ some b)
    (hne : delimiter ≠ []) : feed delimiter [] (b :: delimiter) = ([[b]], []) := by
  refine feed_of_first hne (fun hinside => ?_) rfl (List.cons_ne_nil b delimiter)
  have hpos := List.length_pos_iff.mpr hne
  have heq : delimiter = (b :: delimiter).dropLast :=
    hinside.eq_of_length (by simp)
  obtain ⟨first, rest, rfl⟩ := List.exists_cons_of_ne_nil hne
  rw [List.dropLast_cons_cons] at heq
  exact hb (congrArg List.head? heq)

/-- Some byte is not the first one of a delimiter. -/
theorem exists_other_byte (delimiter : List UInt8) : ∃ b, delimiter.head? ≠ some b := by
  by_cases h : delimiter.head? = some 0
  · exact ⟨1, by simp [h]⟩
  · exact ⟨0, h⟩

/-- Where no byte has room before a delimiter, no frame has bytes in it. -/
theorem filter_feed_eq_nil {delimiter stream : List UInt8} {bound : ℕ}
    (hshort : ShortSegments delimiter bound stream) (hroom : bound ≤ delimiter.length + 1) :
    (feed delimiter [] stream).1.filter (· ≠ []) = [] := by
  refine List.filter_eq_nil_iff.mpr fun frame hmem hframe => ?_
  have hlt := (shortSegments_iff.mp hshort).1 frame hmem
  rw [List.length_append] at hlt
  have hpos := List.length_pos_iff.mpr (of_decide_eq_true hframe)
  omega

/-- Without a delimiter there are no frames. -/
theorem feed_nil (stream : List UInt8) : feed [] [] stream = ([], stream) :=
  feed_of_absent fun h => absurd rfl h

/-- A stream that is shorter than a frame may be has short parts. -/
theorem shortSegments_of_length {delimiter stream : List UInt8} {bound : ℕ}
    (hlength : stream.length < bound) : ShortSegments delimiter bound stream := by
  rintro frames rest ⟨rfl, -, -⟩
  rw [List.length_append] at hlength
  refine ⟨fun frame hmem => ?_, by omega⟩
  have hpart : (frame ++ delimiter).Sublist (frames.flatMap (· ++ delimiter)) := by
    rw [List.flatMap_def]
    exact List.sublist_flatten_of_mem (List.mem_map_of_mem (f := (· ++ delimiter)) hmem)
  have hle := hpart.length_le
  omega

/-- The two framers agree on a delimiter if and only if its text is plain, or no stream of short
parts has a frame with bytes in it. -/
theorem framersAgree_iff (delimiter : String) (hne : delimiter ≠ "") (maxFrameBytes : ℕ) :
    FramersAgree delimiter maxFrameBytes ↔
      PlainDelimiter delimiter ∨ NoRoom delimiter maxFrameBytes := by
  rw [SerialFraming.framersAgree_iff_feed, NoRoom]
  generalize hc : SerialFraming.ofConfig delimiter maxFrameBytes = c
  have hdelimiter : c.delimiter = decodeSerialDelimiter delimiter := by rw [← hc]; rfl
  rw [hdelimiter]
  rcases delimiter_cases hne with ⟨hsame, hplain⟩ | ⟨hshorter, hplain⟩
  · exact iff_of_true (fun stream _ _ => by rw [hsame]) (.inl hplain)
  rw [or_iff_right hplain]
  constructor
  · intro h
    by_contra hroom
    have hroom := Nat.not_le.mp hroom
    split at hroom
    · -- the trigger has no delimiter
      rename_i hnone
      have hparse : parseDelimiter delimiter ≠ [] := by
        rintro heq
        rw [heq] at hshorter
        exact Nat.not_lt_zero _ hshorter
      obtain ⟨b, hb⟩ := exists_other_byte (parseDelimiter delimiter)
      have hdiffer := h (b :: parseDelimiter delimiter) (shortSegments_of_length hroom)
        (shortSegments_of_length hroom)
      rw [feed_one hb hparse, hnone, feed_nil] at hdiffer
      simp at hdiffer
    · -- a stream that has room for the delimiter of the trigger only
      rename_i hsome
      obtain ⟨b, hb⟩ := exists_other_byte (decodeSerialDelimiter delimiter)
      have hshort {d : List UInt8} : ShortSegments d c.maxFrameBytes
          (b :: decodeSerialDelimiter delimiter) := shortSegments_of_length hroom
      have hdiffer := h _ hshort hshort
      rw [feed_one hb hsome, filter_feed_eq_nil (shortSegments_of_length (Nat.lt_succ_self _))
        (by rw [List.length_cons]; omega)] at hdiffer
      simp at hdiffer
  · intro hroom stream hshort hshort'
    split at hroom
    · rename_i hnone
      rw [filter_feed_eq_nil hshort' hroom, hnone, feed_nil]
      rfl
    · rw [filter_feed_eq_nil hshort hroom, filter_feed_eq_nil hshort' (by omega)]

/-- A line feed is read alike. -/
theorem line_feed_agrees : "\n" ≠ "" ∧ FramersAgree "\n" 512 :=
  ⟨by decide, (framersAgree_iff "\n" (by decide) 512).mpr (.inl (.inr (.inr (by decide))))⟩

/-- A delimiter in hexadecimal digits ends a frame of the trigger, and none of the listener. -/
theorem hex_delimiter_disagrees : ¬ FramersAgree "hex:0d0a" 512 := by
  intro h
  have hsubmitted : ((SerialFraming.ofConfig "hex:0d0a" 512).machine.replay (fun _ _ => true) .start
      [[0x31, 0x0D, 0x0A]]).map SerialLoop.submitted = some [[0x31]] := by decide
  have hlistener : (serialReadLoop (parseDelimiter "hex:0d0a") [] [0x31, 0x0D, 0x0A]) = [] := by
    decide
  obtain ⟨s, hrun, hframes⟩ := Option.map_eq_some_iff.mp hsubmitted
  have hsame := h _ s hrun (shortSegments_of_length (by decide))
    (shortSegments_of_length (by decide))
  rw [hframes] at hsame
  exact absurd (hlistener ▸ hsame) (by decide)

end Nazh
