import Nazh.Lib.Framing
import Nazh.Lib.Machine

/-!
# Frames from a serial port

The loop of a `serialTrigger` collects what it reads. After each read it takes off the frames that
a delimiter ends. If what is left is as long as a frame may be, it cuts one frame of that length
off, and only one. The length of a frame that a delimiter ends is not looked at.

Reads come without an idle gap between them.
-/

namespace Nazh

open Lib

/-- A frame that the loop takes off its buffer, and whether a delimiter ended it. -/
structure SerialFrame where
  bytes : List UInt8
  delimited : Bool
  deriving DecidableEq

/-- The loop at an open port, with what it has received. -/
structure SerialLoop where
  buffer : List UInt8
  frames : List SerialFrame
  received : List UInt8
  deriving DecidableEq

namespace SerialLoop

/-- The loop before it reads. -/
def start : SerialLoop := ⟨[], [], []⟩

/-- The frames that are submitted: `submit_frame` ignores empty ones. -/
def submitted (s : SerialLoop) : List (List UInt8) :=
  (s.frames.map SerialFrame.bytes).filter (· ≠ [])

end SerialLoop

/-- The settings that frame a stream. The loop clamps the length to this range. -/
structure SerialFraming where
  delimiter : List UInt8
  maxFrameBytes : ℕ
  pos : 1 ≤ maxFrameBytes
  le : maxFrameBytes ≤ 8192

namespace SerialFraming

variable (c : SerialFraming)

/-- What the loop does with the bytes that a read has given. -/
def iterate (s : SerialLoop) (bytes : List UInt8) : SerialLoop :=
  let buffer := s.buffer ++ bytes
  -- `drain_delimited_frame` as long as it finds a frame
  let (drained, buffer) := drainAll c.delimiter buffer.length buffer
  let frames := s.frames ++ drained.map fun frame => ⟨frame, true⟩
  if c.maxFrameBytes ≤ buffer.length then
    { buffer := buffer.drop c.maxFrameBytes
      frames := frames ++ [⟨buffer.take c.maxFrameBytes, false⟩]
      received := s.received ++ bytes }
  else { buffer, frames, received := s.received ++ bytes }

/-- A turn of the loop whose read gives something. `scratch` has 64 bytes. -/
def step (s : SerialLoop) (bytes : List UInt8) : Option SerialLoop :=
  if 1 ≤ bytes.length ∧ bytes.length ≤ 64 then some (c.iterate s bytes) else none

def machine : Machine SerialLoop (List UInt8) := ⟨(· = .start), c.step⟩

/-- The loop when each byte comes alone. -/
def bytewise (stream : List UInt8) : SerialLoop :=
  (stream.map fun b => [b]).foldl c.iterate .start

/-- What a frame has taken from the stream. -/
def taken (frame : SerialFrame) : List UInt8 :=
  if frame.delimited then frame.bytes ++ c.delimiter else frame.bytes

/-- Each part of the stream up to a delimiter fits into a frame, delimiter included. -/
def SegmentsFit (stream : List UInt8) : Prop :=
  ∀ frames rest, Segmented c.delimiter stream frames rest →
    ∀ frame ∈ frames, (frame ++ c.delimiter).length ≤ c.maxFrameBytes

/-- What the loop should have done with what it has received. -/
structure Framed (s : SerialLoop) : Prop where
  conserved : s.frames.flatMap c.taken ++ s.buffer = s.received
  frames_le : ∀ frame ∈ s.frames, frame.bytes.length ≤ c.maxFrameBytes
  buffer_lt : s.buffer.length < c.maxFrameBytes
  uncut : c.SegmentsFit s.received → s.frames = (c.bytewise s.received).frames

/-- No delimiter comes later than it may, and what follows the last one is not enough for two
frames. -/
def FitsRead (s : SerialLoop) (bytes : List UInt8) : Prop :=
  ∀ frames rest, Segmented c.delimiter (s.buffer ++ bytes) frames rest →
    (∀ frame ∈ frames, frame.length ≤ c.maxFrameBytes) ∧ rest.length < 2 * c.maxFrameBytes

/-! ## One read -/

/-- Cut one frame off what is left, if it is long enough. -/
def cutLong (frames : List SerialFrame) (buffer received : List UInt8) : SerialLoop :=
  if c.maxFrameBytes ≤ buffer.length then
    ⟨buffer.drop c.maxFrameBytes, frames ++ [⟨buffer.take c.maxFrameBytes, false⟩], received⟩
  else ⟨buffer, frames, received⟩

variable {c} {s s' : SerialLoop} {bytes : List UInt8}

/-- There is no delimiter in the buffer. -/
def Clean (c : SerialFraming) (buffer : List UInt8) : Prop :=
  c.delimiter ≠ [] → ¬ c.delimiter <:+: buffer

theorem Clean.nil : Clean c [] := fun hne hinside => hne (List.infix_nil.mp hinside)

/-- A read takes the frames off as if the bytes came one by one, and then cuts. -/
theorem iterate_eq (hclean : Clean c s.buffer) (bytes : List UInt8) :
    c.iterate s bytes = c.cutLong
      (s.frames ++ (feed c.delimiter s.buffer bytes).1.map fun frame => ⟨frame, true⟩)
      (feed c.delimiter s.buffer bytes).2 (s.received ++ bytes) := by
  simp only [iterate, drainAll_eq_feed hclean le_rfl, cutLong]

theorem clean_feed (hclean : Clean c s.buffer) (bytes : List UInt8) :
    Clean c (feed c.delimiter s.buffer bytes).2 :=
  (feed_segmented bytes hclean).unended

/-- A part of a buffer without delimiter has none. -/
theorem Clean.of_part {buffer other : List UInt8} (h : Clean c buffer)
    (hpart : other <:+: buffer) :
    Clean c other := fun hne hinside => h hne (hinside.trans hpart)

/-! ## What every run keeps -/

/-- Whether each part of a stream fits is told by the framer. -/
theorem segmentsFit_iff {stream : List UInt8} : c.SegmentsFit stream ↔
    ∀ frame ∈ (feed c.delimiter [] stream).1, (frame ++ c.delimiter).length ≤ c.maxFrameBytes := by
  constructor
  · exact fun h => h _ _ (feed_segmented stream Clean.nil)
  · intro h frames rest hsegmented
    rwa [hsegmented.feed_eq] at h

theorem fitsRead_iff (hclean : Clean c s.buffer) : c.FitsRead s bytes ↔
    (∀ frame ∈ (feed c.delimiter s.buffer bytes).1, frame.length ≤ c.maxFrameBytes) ∧
      (feed c.delimiter s.buffer bytes).2.length < 2 * c.maxFrameBytes := by
  constructor
  · exact fun h => h _ _ (feed_segmented bytes hclean)
  · intro h frames rest hsegmented
    have hfeed := hsegmented.feed_eq
    rw [feed_nil_append bytes hclean] at hfeed
    rwa [hfeed] at h

/-- Nothing is lost. If the parts of the stream fit, then the buffer is what is left of the stream,
but for frames of the greatest length. -/
structure Known (c : SerialFraming) (s : SerialLoop) : Prop where
  conserved : s.frames.flatMap c.taken ++ s.buffer = s.received
  clean : Clean c s.buffer
  aligned : c.SegmentsFit s.received → ∃ cut,
    (feed c.delimiter [] s.received).2 = cut ++ s.buffer ∧
      (cut = [] ∨ c.maxFrameBytes ≤ cut.length)

theorem known_start : Known c .start :=
  ⟨rfl, Clean.nil, fun _ => ⟨[], rfl, .inl rfl⟩⟩

/-- What fits when more has come has fitted before. -/
theorem SegmentsFit.of_append {xs ys : List UInt8} (h : c.SegmentsFit (xs ++ ys)) :
    c.SegmentsFit xs := by
  rw [segmentsFit_iff, feed_append] at h
  exact segmentsFit_iff.mpr fun frame hmem => h frame (List.mem_append_left _ hmem)

/-- If the parts of the stream fit, then the frames that end in a read are those of the stream. -/
theorem Known.feed_eq (h : Known c s) (hfit : c.SegmentsFit (s.received ++ bytes)) :
    (feed c.delimiter [] (s.received ++ bytes)).1 =
        (feed c.delimiter [] s.received).1 ++ (feed c.delimiter s.buffer bytes).1 ∧
      ∃ cut, (feed c.delimiter [] (s.received ++ bytes)).2 =
          cut ++ (feed c.delimiter s.buffer bytes).2 ∧
        (cut = [] ∨ c.maxFrameBytes ≤ cut.length) := by
  obtain ⟨cut, hcut, hlong⟩ := h.aligned hfit.of_append
  have hclean : Clean c (feed c.delimiter [] s.received).2 :=
    (feed_segmented s.received Clean.nil).unended
  rw [segmentsFit_iff, feed_append] at hfit
  rw [feed_append]
  rcases feed_cases bytes hclean with ⟨hnone, hquiet⟩ |
      ⟨frame, came, rest, hcame, -, hwhole, hfeed⟩
  · rw [hcut, List.append_assoc] at hquiet
    have hown : feed c.delimiter s.buffer bytes = ([], s.buffer ++ bytes) :=
      feed_of_absent fun hne hinside =>
        hquiet hne (hinside.trans (List.suffix_append cut _).isInfix)
    rw [hnone, hown, hcut]
    exact ⟨rfl, cut, List.append_assoc .., hlong⟩
  · -- a frame that ends now has fitted, so that nothing of it was cut off
    have hbound := hfit frame (List.mem_append_right _ (by rw [hfeed]; exact List.mem_cons_self))
    have hpos := List.length_pos_iff.mpr hcame
    have hlength := congrArg List.length hcut
    rw [← hwhole, List.length_append] at hbound
    rw [List.length_append] at hlength
    obtain rfl : cut = [] := hlong.resolve_right (by omega)
    rw [hcut]
    exact ⟨rfl, [], rfl, .inl rfl⟩

/-- Cutting a frame off neither loses anything nor puts a delimiter into the buffer. -/
theorem cutLong_spec (frames : List SerialFrame) (buffer received : List UInt8) :
    let s := c.cutLong frames buffer received
    s.received = received ∧
      s.frames.flatMap c.taken ++ s.buffer = frames.flatMap c.taken ++ buffer ∧
      ∃ cut, buffer = cut ++ s.buffer ∧ (cut = [] ∨ c.maxFrameBytes ≤ cut.length) := by
  simp only [cutLong]
  split
  · rename_i hlong
    refine ⟨rfl, ?_, buffer.take c.maxFrameBytes, (List.take_append_drop _ _).symm, .inr ?_⟩
    · simp [taken]
    · rw [List.length_take]
      omega
  · exact ⟨rfl, rfl, [], rfl, .inl rfl⟩

/-- Each read keeps what is known. -/
theorem known_iterate (h : Known c s) (bytes : List UInt8) : Known c (c.iterate s bytes) := by
  obtain ⟨hreceived, hwhole, cut, hbuffer, hlong⟩ := @cutLong_spec c
    (s.frames ++ (feed c.delimiter s.buffer bytes).1.map fun frame => ⟨frame, true⟩)
    (feed c.delimiter s.buffer bytes).2 (s.received ++ bytes)
  rw [← iterate_eq h.clean bytes] at hreceived hwhole hbuffer
  refine ⟨?_, ?_, fun hfit => ?_⟩
  · have htaken : (((feed c.delimiter s.buffer bytes).1.map fun frame =>
        (⟨frame, true⟩ : SerialFrame)).flatMap c.taken) =
        (feed c.delimiter s.buffer bytes).1.flatMap (· ++ c.delimiter) := by
      rw [List.flatMap_map]
      rfl
    rw [hwhole, hreceived, List.flatMap_append, htaken, List.append_assoc,
      ← (feed_segmented bytes h.clean).whole, ← List.append_assoc, h.conserved]
  · exact (clean_feed h.clean bytes).of_part ⟨cut, [], by rw [List.append_nil, ← hbuffer]⟩
  · rw [hreceived] at hfit ⊢
    obtain ⟨-, before, hrest, hbefore⟩ := h.feed_eq hfit
    refine ⟨before ++ cut, by rw [hrest, List.append_assoc, ← hbuffer], ?_⟩
    rw [List.length_append]
    rcases hlong with rfl | hlong
    · rcases hbefore with rfl | hbefore
      · exact .inl rfl
      · exact .inr (by omega)
    · exact .inr (by omega)

/-! ## A read and its bytes -/

/-- A read brings no part that does not fit, and not enough for two cuts. -/
structure Small (c : SerialFraming) (buffer bytes : List UInt8) : Prop where
  fit : ∀ frame ∈ (feed c.delimiter buffer bytes).1,
    (frame ++ c.delimiter).length ≤ c.maxFrameBytes
  rest_lt : (feed c.delimiter buffer bytes).2.length < 2 * c.maxFrameBytes

theorem iterate_of_lt (hclean : Clean c s.buffer)
    (hlt : (feed c.delimiter s.buffer bytes).2.length < c.maxFrameBytes) :
    c.iterate s bytes =
      ⟨(feed c.delimiter s.buffer bytes).2,
        s.frames ++ (feed c.delimiter s.buffer bytes).1.map fun frame => ⟨frame, true⟩,
        s.received ++ bytes⟩ := by
  rw [iterate_eq hclean, cutLong, if_neg (Nat.not_le.mpr hlt)]

/-- The first byte of a small read may come alone. -/
theorem iterate_cons {b : UInt8} (hclean : Clean c s.buffer)
    (hlt : s.buffer.length < c.maxFrameBytes) (hsmall : Small c s.buffer (b :: bytes)) :
    c.iterate s (b :: bytes) = c.iterate (c.iterate s [b]) bytes ∧
      Clean c (c.iterate s [b]).buffer ∧
      (c.iterate s [b]).buffer.length < c.maxFrameBytes ∧
      Small c (c.iterate s [b]).buffer bytes := by
  have hpos := c.pos
  rcases push_spec b hclean with ⟨frame, hpush, -, -, -⟩ | ⟨hpush, hquiet⟩
  · -- the byte ends a frame
    have hone : feed c.delimiter s.buffer [b] = ([frame], []) := by
      rw [feed, hpush]
      rfl
    have hall : feed c.delimiter s.buffer (b :: bytes) =
        (frame :: (feed c.delimiter [] bytes).1, (feed c.delimiter [] bytes).2) := by
      rw [feed, hpush]
      rfl
    have hfirst : c.iterate s [b] =
        ⟨[], s.frames ++ [⟨frame, true⟩], s.received ++ [b]⟩ := by
      rw [iterate_of_lt hclean (by rw [hone]; exact hpos), hone]
      rfl
    rw [hfirst]
    refine ⟨?_, Clean.nil, hpos, ?_, ?_⟩
    · rw [iterate_eq hclean, hall, iterate_eq Clean.nil]
      simp
    · intro other hmem
      exact hsmall.fit other (by rw [hall]; exact List.mem_cons_of_mem _ hmem)
    · simpa only [hall] using hsmall.rest_lt
  · have hone : feed c.delimiter s.buffer [b] = ([], s.buffer ++ [b]) := by
      rw [feed, hpush]
      rfl
    have hall : feed c.delimiter s.buffer (b :: bytes) =
        feed c.delimiter (s.buffer ++ [b]) bytes := by
      rw [feed, hpush]
      rfl
    have hlength : (s.buffer ++ [b]).length = s.buffer.length + 1 := List.length_append
    by_cases hfull : (s.buffer ++ [b]).length < c.maxFrameBytes
    · -- the byte leaves room for more
      have hfirst : c.iterate s [b] = ⟨s.buffer ++ [b], s.frames, s.received ++ [b]⟩ := by
        rw [iterate_of_lt hclean (by rw [hone]; exact hfull), hone]
        simp
      rw [hfirst]
      refine ⟨?_, hquiet, hfull, ⟨hall ▸ hsmall.fit, hall ▸ hsmall.rest_lt⟩⟩
      rw [iterate_eq hclean, hall,
        iterate_eq (s := ⟨s.buffer ++ [b], s.frames, s.received ++ [b]⟩) hquiet]
      simp
    · -- the byte fills a frame, and no delimiter can end a part that fits
      have hfirst : c.iterate s [b] =
          ⟨[], s.frames ++ [⟨s.buffer ++ [b], false⟩], s.received ++ [b]⟩ := by
        have hexact : (s.buffer ++ [b]).length ≤ c.maxFrameBytes := by omega
        rw [iterate_eq hclean, hone, cutLong, if_pos (Nat.not_lt.mp hfull),
          List.take_of_length_le hexact, List.drop_of_length_le hexact]
        simp
      have hnone : feed c.delimiter (s.buffer ++ [b]) bytes = ([], s.buffer ++ [b] ++ bytes) ∧
          Clean c (s.buffer ++ [b] ++ bytes) := by
        rcases feed_cases bytes hquiet with hnone | ⟨frame, came, rest, hcame, -, hwhole, hfeed⟩
        · exact hnone
        · have hbound := hsmall.fit frame (by rw [hall, hfeed]; exact List.mem_cons_self)
          have hcame := List.length_pos_iff.mpr hcame
          rw [← hwhole, List.length_append] at hbound
          omega
      have hrest := hsmall.rest_lt
      rw [hall, hnone.1, List.length_append] at hrest
      have hclean' : Clean c bytes := hnone.2.of_part (List.suffix_append _ bytes).isInfix
      have hlater : feed c.delimiter [] bytes = ([], bytes) := feed_of_absent hclean'
      rw [hfirst]
      have hsecond : (feed c.delimiter [] bytes).2.length < c.maxFrameBytes := by
        simp only [hlater]
        omega
      refine ⟨?_, Clean.nil, hpos, ⟨by simp [hlater],
        hsecond.trans (by omega)⟩⟩
      have hwhole : c.maxFrameBytes ≤ (s.buffer ++ [b] ++ bytes).length := by
        rw [List.length_append]
        omega
      rw [iterate_of_lt (s := ⟨[], _, _⟩) Clean.nil hsecond, hlater, iterate_eq hclean, hall,
        hnone.1,
        cutLong, if_pos hwhole, List.take_append_of_le_length (by omega),
        List.take_of_length_le (by omega), List.drop_append_of_le_length (by omega),
        List.drop_of_length_le (by omega)]
      simp

/-- A small read does what its bytes do one by one. -/
theorem iterate_eq_bytewise (hclean : Clean c s.buffer) (hlt : s.buffer.length < c.maxFrameBytes)
    (hsmall : Small c s.buffer bytes) :
    c.iterate s bytes = (bytes.map fun b => [b]).foldl c.iterate s := by
  induction bytes generalizing s with
  | nil =>
      have hsame := @iterate_of_lt c s [] hclean hlt
      rw [hsame]
      simp [feed]
  | cons b bytes ih =>
      obtain ⟨hsplit, hclean', hlt', hsmall'⟩ := iterate_cons hclean hlt hsmall
      rw [hsplit, ih hclean' hlt' hsmall']
      rfl

/-! ## Runs -/

/-- The lengths are kept by the reads that fit, and by no others. -/
theorem lengths_iterate_iff (hclean : Clean c s.buffer)
    (hframes : ∀ frame ∈ s.frames, frame.bytes.length ≤ c.maxFrameBytes) :
    ((∀ frame ∈ (c.iterate s bytes).frames, frame.bytes.length ≤ c.maxFrameBytes) ∧
        (c.iterate s bytes).buffer.length < c.maxFrameBytes) ↔ c.FitsRead s bytes := by
  have hpos := c.pos
  rw [fitsRead_iff hclean, iterate_eq hclean, cutLong]
  split
  · rename_i hlong
    simp only [List.mem_append, List.mem_map, List.mem_singleton, List.length_drop]
    constructor
    · intro h
      exact ⟨fun frame hmem => h.1 ⟨frame, true⟩ (.inl (.inr ⟨frame, hmem, rfl⟩)), by omega⟩
    · rintro ⟨hnew, hrest⟩
      refine ⟨?_, by omega⟩
      rintro frame ((hold | ⟨bytes, hmem, rfl⟩) | rfl)
      · exact hframes frame hold
      · exact hnew bytes hmem
      · rw [List.length_take]
        omega
  · rename_i hshort
    simp only [List.mem_append, List.mem_map]
    constructor
    · intro h
      exact ⟨fun frame hmem => h.1 ⟨frame, true⟩ (.inr ⟨frame, hmem, rfl⟩), by omega⟩
    · rintro ⟨hnew, hrest⟩
      refine ⟨?_, by omega⟩
      rintro frame (hold | ⟨bytes, hmem, rfl⟩)
      · exact hframes frame hold
      · exact hnew bytes hmem

theorem bytewise_append (c : SerialFraming) (xs ys : List UInt8) :
    c.bytewise (xs ++ ys) = (ys.map fun b => [b]).foldl c.iterate (c.bytewise xs) := by
  rw [bytewise, List.map_append, List.foldl_append]
  rfl

/-- Where the parts of the stream fit, so do those that a read ends. -/
theorem Known.small (h : Known c s) (hfit : c.SegmentsFit (s.received ++ bytes))
    (hread : c.FitsRead s bytes) : Small c s.buffer bytes := by
  refine ⟨fun frame hmem => ?_, ((fitsRead_iff h.clean).mp hread).2⟩
  refine segmentsFit_iff.mp hfit frame ?_
  rw [(h.feed_eq hfit).1]
  exact List.mem_append_right _ hmem

/-- The state that the bytes of the stream lead to one by one, where the parts of the stream fit. -/
def Uncut (c : SerialFraming) (s : SerialLoop) : Prop :=
  c.SegmentsFit s.received → s = c.bytewise s.received

theorem Uncut.iterate (h : Uncut c s) (hknown : Known c s)
    (hlt : s.buffer.length < c.maxFrameBytes) (hread : c.FitsRead s bytes) :
    Uncut c (c.iterate s bytes) := by
  have hreceived : (c.iterate s bytes).received = s.received ++ bytes := by
    rw [iterate_eq hknown.clean]
    exact (cutLong_spec ..).1
  intro hfit
  rw [hreceived] at hfit ⊢
  calc c.iterate s bytes
      _ = (bytes.map fun b => [b]).foldl c.iterate s :=
        iterate_eq_bytewise hknown.clean hlt (hknown.small hfit hread)
      _ = (bytes.map fun b => [b]).foldl c.iterate (c.bytewise s.received) := by
        rw [← h hfit.of_append]
      _ = c.bytewise (s.received ++ bytes) := (bytewise_append c s.received bytes).symm

/-- With the frames, the buffer is the same too. -/
theorem Framed.uncut_state (h : c.Framed s) (hknown : Known c (c.bytewise s.received))
    (hreceived : (c.bytewise s.received).received = s.received) : Uncut c s := by
  intro hfit
  have hframes := h.uncut hfit
  have hbuffer : s.buffer = (c.bytewise s.received).buffer := by
    have hwhole := h.conserved.trans (hreceived.symm.trans hknown.conserved.symm)
    rw [hframes] at hwhole
    exact List.append_cancel_left hwhole
  generalize c.bytewise s.received = other at hframes hbuffer hreceived
  cases s
  cases other
  simp only [SerialLoop.mk.injEq]
  exact ⟨hbuffer, hframes, hreceived.symm⟩

/-- What is known of the loop when each byte comes alone. -/
theorem known_bytewise (c : SerialFraming) (stream : List UInt8) :
    Known c (c.bytewise stream) ∧ (c.bytewise stream).received = stream := by
  induction stream using List.reverseRecOn with
  | nil => exact ⟨known_start, rfl⟩
  | append_singleton stream b ih =>
      have hlast : c.bytewise (stream ++ [b]) = c.iterate (c.bytewise stream) [b] :=
        bytewise_append c stream [b]
      rw [hlast]
      refine ⟨known_iterate ih.1 [b], ?_⟩
      rw [iterate_eq ih.1.clean, (cutLong_spec ..).1, ih.2]

theorem step_eq_some (hs : c.step s bytes = some s') : s' = c.iterate s bytes := by
  rw [step] at hs
  split at hs
  · exact (Option.some.inj hs).symm
  · cases hs

/-- In every run the stream is framed as it should be in each state if and only if each read fits:
no frame that a delimiter ends in it is longer than a frame may be, and less than two frames
are left. -/
theorem framed_iff_fits (c : SerialFraming) (reads : List (List UInt8)) :
    c.machine.Along c.Framed .start reads ↔ c.machine.Meets c.FitsRead .start reads := by
  refine Machine.along_iff_meets (J := Known c) ?_ ?_ known_start ?_
  · intro s bytes s' hknown hs
    obtain rfl := step_eq_some hs
    exact known_iterate hknown bytes
  · intro s bytes s' hknown hframed hs
    obtain rfl := step_eq_some hs
    have hlengths := @lengths_iterate_iff c s bytes hknown.clean hframed.frames_le
    constructor
    · exact fun h => hlengths.mp ⟨h.frames_le, h.buffer_lt⟩
    · intro hread
      obtain ⟨hframes, hbuffer⟩ := hlengths.mpr hread
      have huncut := (hframed.uncut_state (known_bytewise c _).1 (known_bytewise c _).2).iterate
        hknown hframed.buffer_lt hread
      exact ⟨(known_iterate hknown bytes).conserved, hframes, hbuffer,
        fun hfit => congrArg SerialLoop.frames (huncut hfit)⟩
  · exact ⟨rfl, fun frame hmem => absurd hmem List.not_mem_nil, c.pos, fun _ => rfl⟩

/-- Frames of four bytes, each line of text one. -/
def shortLines : SerialFraming := ⟨[0x0A], 4, by decide, by decide⟩

/-- A line of six bytes is one frame. -/
theorem long_line_framed : ¬ shortLines.machine.Along shortLines.Framed .start
    [[0x31, 0x32, 0x33, 0x34, 0x35, 0x36, 0x0A]] := by
  rintro ⟨-, s, hs, hframed⟩
  obtain rfl := Option.some.inj hs
  exact absurd (hframed.frames_le ⟨[0x31, 0x32, 0x33, 0x34, 0x35, 0x36], true⟩ (by decide))
    (by decide)

end SerialFraming

end Nazh
