import Mathlib.Data.List.Infix
import Mathlib.Tactic.Common

/-!
# Framing by a delimiter

A stream is cut at each place where a delimiter ends for the first time since the last cut. A
framer may look at what it has after each item, and cut when the delimiter is the end of it; or it
may collect items, and then cut at the first window that is the delimiter as long as there is one.
Both give the same frames, and it does not matter how the stream arrives.

## Main definitions

* `Segmented` — the frames of a stream and what is left of it.
* `feed` — the framer that looks after each item.
* `drainFirst`, `drainAll` — the framer that looks for the first window.

## Main results

* `feed_segmented`, `Segmented.feed_eq` — the first framer finds the frames of a stream.
* `drainAll_eq_feed` — the second framer does what the first one does.
-/

namespace Nazh.Lib

variable {α : Type} {delimiter : List α}

/-- The frames of a stream, each up to the first place where the delimiter ends, and the rest.
Without a delimiter all is rest. -/
structure Segmented (delimiter stream : List α) (frames : List (List α)) (rest : List α) :
    Prop where
  whole : stream = frames.flatMap (· ++ delimiter) ++ rest
  first : ∀ frame ∈ frames, delimiter ≠ [] ∧ ¬ delimiter <:+: (frame ++ delimiter).dropLast
  unended : delimiter ≠ [] → ¬ delimiter <:+: rest

/-- The windows of a size. -/
def windows (size : ℕ) (buffer : List α) : List (List α) :=
  (List.range (buffer.length + 1 - size)).map fun i => (buffer.drop i).take size

theorem getElem_windows {size i : ℕ} {buffer : List α} (hi : i < (windows size buffer).length) :
    (windows size buffer)[i] = (buffer.drop i).take size := by
  simp [windows]

variable [DecidableEq α]

/-! ## Looking after each item -/

/-- Add an item to what there is, and cut if that ends in the delimiter. -/
def push (delimiter buffer : List α) (a : α) : Option (List α) × List α :=
  let buffer := buffer ++ [a]
  if delimiter ≠ [] ∧ delimiter <:+ buffer then
    (some (buffer.take (buffer.length - delimiter.length)), [])
  else (none, buffer)

/-- The frames that end in a stream, and what is left. -/
def feed (delimiter : List α) : List α → List α → List (List α) × List α
  | buffer, [] => ([], buffer)
  | buffer, a :: stream =>
      let cut := push delimiter buffer a
      let rest := feed delimiter cut.2 stream
      (cut.1.toList ++ rest.1, rest.2)

/-- A stream that arrives in two parts has the same frames. -/
theorem feed_append (delimiter buffer xs ys : List α) :
    feed delimiter buffer (xs ++ ys) =
      ((feed delimiter buffer xs).1 ++ (feed delimiter (feed delimiter buffer xs).2 ys).1,
        (feed delimiter (feed delimiter buffer xs).2 ys).2) := by
  induction xs generalizing buffer with
  | nil => rfl
  | cons a xs ih => simp only [List.cons_append, feed, ih, List.append_assoc]

/-- Nothing is cut where the delimiter does not occur. -/
theorem feed_of_absent {buffer xs : List α}
    (h : delimiter ≠ [] → ¬ delimiter <:+: buffer ++ xs) :
    feed delimiter buffer xs = ([], buffer ++ xs) := by
  induction xs generalizing buffer with
  | nil => rw [feed, List.append_nil]
  | cons a xs ih =>
      rw [List.append_cons] at h
      have hpush : push delimiter buffer a = (none, buffer ++ [a]) :=
        if_neg fun hcut => h hcut.1
          (hcut.2.isInfix.trans (List.prefix_append _ xs).isInfix)
      rw [feed, hpush, ih h, ← List.append_cons]
      rfl

/-- A frame is cut where the delimiter ends for the first time. -/
theorem feed_of_first {buffer xs frame : List α} (hne : delimiter ≠ [])
    (hfirst : ¬ delimiter <:+: (frame ++ delimiter).dropLast)
    (hwhole : buffer ++ xs = frame ++ delimiter) (hxs : xs ≠ []) :
    feed delimiter buffer xs = ([frame], []) := by
  obtain ⟨init, last, rfl⟩ := List.eq_nil_or_concat xs |>.resolve_left hxs
  rw [List.concat_eq_append] at hwhole ⊢
  have hquiet : feed delimiter buffer init = ([], buffer ++ init) := by
    refine feed_of_absent fun _ hinside => hfirst ?_
    rwa [← hwhole, ← List.append_assoc, List.dropLast_concat]
  have hpush : push delimiter (buffer ++ init) last = (some frame, []) := by
    rw [push, List.append_assoc, hwhole, if_pos ⟨hne, List.suffix_append frame delimiter⟩,
      List.length_append, Nat.add_sub_cancel, List.take_left]
  rw [feed_append, hquiet]
  simp only [feed, hpush, Option.toList_some, List.nil_append, List.append_nil]

/-- What there is of a frame, when an item was added and the delimiter does not end there. -/
theorem push_spec {buffer : List α} (a : α)
    (hbuffer : delimiter ≠ [] → ¬ delimiter <:+: buffer) :
    (∃ frame, push delimiter buffer a = (some frame, []) ∧ delimiter ≠ [] ∧
        buffer ++ [a] = frame ++ delimiter ∧ ¬ delimiter <:+: (frame ++ delimiter).dropLast) ∨
      push delimiter buffer a = (none, buffer ++ [a]) ∧
        (delimiter ≠ [] → ¬ delimiter <:+: buffer ++ [a]) := by
  by_cases hcut : delimiter ≠ [] ∧ delimiter <:+ buffer ++ [a]
  · obtain ⟨hne, frame, hwhole⟩ := hcut
    refine .inl ⟨frame, ?_, hne, hwhole.symm, ?_⟩
    · rw [push, ← hwhole, if_pos ⟨hne, List.suffix_append frame delimiter⟩, List.length_append,
        Nat.add_sub_cancel, List.take_left]
    · rw [hwhole, List.dropLast_concat]
      exact hbuffer hne
  · refine .inr ⟨if_neg hcut, fun hne hinside => ?_⟩
    rcases List.infix_concat_iff.mp hinside with hend | hold
    · exact hcut ⟨hne, hend⟩
    · exact hbuffer hne hold

/-- Either no frame ends in what comes, or one does that what there is begins. -/
theorem feed_cases {buffer : List α} (xs : List α)
    (hbuffer : delimiter ≠ [] → ¬ delimiter <:+: buffer) :
    (feed delimiter buffer xs = ([], buffer ++ xs) ∧
        (delimiter ≠ [] → ¬ delimiter <:+: buffer ++ xs)) ∨
      ∃ frame came rest, came ≠ [] ∧ xs = came ++ rest ∧ buffer ++ came = frame ++ delimiter ∧
        feed delimiter buffer xs =
          (frame :: (feed delimiter [] rest).1, (feed delimiter [] rest).2) := by
  induction xs generalizing buffer with
  | nil => exact .inl ⟨by rw [feed, List.append_nil], by rwa [List.append_nil]⟩
  | cons a xs ih =>
      rcases push_spec a hbuffer with ⟨frame, hpush, -, hwhole, -⟩ | ⟨hpush, hquiet⟩
      · refine .inr ⟨frame, [a], xs, List.cons_ne_nil a [], rfl, hwhole, ?_⟩
        rw [feed, hpush]
        rfl
      · have hfeed : feed delimiter buffer (a :: xs) = feed delimiter (buffer ++ [a]) xs := by
          rw [feed, hpush]
          rfl
        rw [hfeed, List.append_cons buffer a xs]
        rcases ih hquiet with hnone | ⟨frame, came, rest, -, rfl, hwhole, hcut⟩
        · exact .inl hnone
        · exact .inr ⟨frame, a :: came, rest, List.cons_ne_nil a came, rfl,
            by rwa [List.append_cons buffer a came], hcut⟩

/-- The framer finds the frames of what it has and what comes. -/
theorem feed_segmented {buffer : List α} (xs : List α)
    (hbuffer : delimiter ≠ [] → ¬ delimiter <:+: buffer) :
    Segmented delimiter (buffer ++ xs) (feed delimiter buffer xs).1
      (feed delimiter buffer xs).2 := by
  induction xs generalizing buffer with
  | nil => exact ⟨rfl.trans (by simp [feed]), by simp [feed], by simpa [feed] using hbuffer⟩
  | cons a xs ih =>
      rw [List.append_cons]
      rcases push_spec a hbuffer with ⟨frame, hpush, hne, hwhole, hfirst⟩ | ⟨hpush, hquiet⟩
      · have hrest := @ih [] fun hne hinside => hne (List.infix_nil.mp hinside)
        rw [List.nil_append] at hrest
        rw [feed, hpush, hwhole]
        refine ⟨?_, ?_, hrest.unended⟩
        · calc frame ++ delimiter ++ xs
            _ = frame ++ delimiter ++ ((feed delimiter [] xs).1.flatMap (· ++ delimiter) ++
                  (feed delimiter [] xs).2) := by rw [← hrest.whole]
            _ = _ := by simp
        · intro other hmem
          rcases List.mem_cons.mp hmem with rfl | hmem
          · exact ⟨hne, hfirst⟩
          · exact hrest.first other hmem
      · rw [feed, hpush]
        exact ih hquiet

/-- What there is can be taken for a part of what comes. -/
theorem feed_nil_append {buffer : List α} (xs : List α)
    (hbuffer : delimiter ≠ [] → ¬ delimiter <:+: buffer) :
    feed delimiter [] (buffer ++ xs) = feed delimiter buffer xs := by
  rw [feed_append, feed_of_absent hbuffer]
  rfl

/-- The frames of a stream are what the framer finds. -/
theorem Segmented.feed_eq {stream rest : List α} {frames : List (List α)}
    (h : Segmented delimiter stream frames rest) :
    feed delimiter [] stream = (frames, rest) := by
  obtain ⟨rfl, hfirst, hrest⟩ := h
  induction frames with
  | nil => exact feed_of_absent hrest
  | cons frame frames ih =>
      obtain ⟨hne, hframe⟩ := hfirst frame List.mem_cons_self
      rw [List.flatMap_cons, List.append_assoc, feed_append,
        feed_of_first hne hframe (List.nil_append _) (List.append_ne_nil_of_right_ne_nil _ hne),
        ih fun other hmem => hfirst other (List.mem_cons_of_mem frame hmem)]
      rfl

/-! ## Looking for the first window -/

/-- Take the first frame off what there is, if a delimiter ends it. -/
def drainFirst (delimiter buffer : List α) : Option (List α × List α) :=
  if delimiter = [] ∨ buffer.length < delimiter.length then none
  else ((windows delimiter.length buffer).findIdx? (· = delimiter)).map fun i =>
    (buffer.take i, (buffer.drop i).drop delimiter.length)

/-- Take frames off as long as there are any. -/
def drainAll (delimiter : List α) : ℕ → List α → List (List α) × List α
  | 0, buffer => ([], buffer)
  | fuel + 1, buffer => match drainFirst delimiter buffer with
    | none => ([], buffer)
    | some (frame, buffer) =>
        let rest := drainAll delimiter fuel buffer
        (frame :: rest.1, rest.2)

/-- The frame that is taken off is the first of the buffer. -/
theorem drainFirst_eq_some {buffer frame rest : List α}
    (h : drainFirst delimiter buffer = some (frame, rest)) :
    delimiter ≠ [] ∧ buffer = frame ++ delimiter ++ rest ∧
      ¬ delimiter <:+: (frame ++ delimiter).dropLast := by
  rw [drainFirst] at h
  split at h
  · cases h
  · rename_i hroom
    obtain ⟨hne, hroom⟩ := not_or.mp hroom
    obtain ⟨i, hi, hcut⟩ := Option.map_eq_some_iff.mp h
    obtain ⟨rfl, rfl⟩ := Prod.mk.inj hcut
    obtain ⟨hlt, hwindow, hbefore⟩ := List.findIdx?_eq_some_iff_getElem.mp hi
    rw [decide_eq_true_eq, getElem_windows] at hwindow
    have hwhole : buffer = buffer.take i ++ delimiter ++ (buffer.drop i).drop delimiter.length := by
      calc buffer
          _ = buffer.take i ++ buffer.drop i := (List.take_append_drop i buffer).symm
          _ = buffer.take i ++ ((buffer.drop i).take delimiter.length ++
                (buffer.drop i).drop delimiter.length) := by
            rw [List.take_append_drop delimiter.length]
          _ = _ := by rw [hwindow, List.append_assoc]
    refine ⟨hne, hwhole, ?_⟩
    -- an earlier occurrence would be an earlier window
    rintro ⟨front, back, hearlier⟩
    have hlength := congrArg List.length hearlier
    have hpos := List.length_pos_iff.mpr hne
    simp only [List.length_append, List.length_dropLast, List.length_take] at hlength
    have hbuffer : buffer = front ++ (delimiter ++ (back ++
        ((buffer.take i ++ delimiter).getLast (by simp [hne]) ::
          (buffer.drop i).drop delimiter.length))) := by
      calc buffer
          _ = (buffer.take i ++ delimiter).dropLast ++
                [(buffer.take i ++ delimiter).getLast (by simp [hne])] ++
                (buffer.drop i).drop delimiter.length := by
            rw [List.dropLast_append_getLast, ← hwhole]
          _ = _ := by rw [← hearlier]; simp
    have hfront : (buffer.drop front.length).take delimiter.length = delimiter := by
      rw [hbuffer, List.drop_left, List.take_left]
    have hno := hbefore front.length (by omega)
    rw [decide_eq_true_eq, getElem_windows] at hno
    exact hno hfront

/-- Nothing is taken off where the delimiter does not occur. -/
theorem drainFirst_eq_none {buffer : List α} (h : drainFirst delimiter buffer = none)
    (hne : delimiter ≠ []) : ¬ delimiter <:+: buffer := by
  rintro ⟨front, back, hbuffer⟩
  have hlength := congrArg List.length hbuffer
  simp only [List.length_append] at hlength
  rw [drainFirst, if_neg (not_or.mpr ⟨hne, by omega⟩), Option.map_eq_none_iff,
    List.findIdx?_eq_none_iff] at h
  have hmem : (buffer.drop front.length).take delimiter.length ∈
      windows delimiter.length buffer := by
    refine List.mem_map.mpr ⟨front.length, List.mem_range.mpr (by omega), rfl⟩
  have hno := h _ hmem
  rw [← hbuffer, List.append_assoc, List.drop_left, List.take_left] at hno
  simp at hno

/-- Taking frames off what there is gives what looking after each item gives. -/
theorem drainAll_eq_feed {fuel : ℕ} {buffer xs : List α}
    (hbuffer : delimiter ≠ [] → ¬ delimiter <:+: buffer)
    (hfuel : (buffer ++ xs).length ≤ fuel) :
    drainAll delimiter fuel (buffer ++ xs) = feed delimiter buffer xs := by
  induction fuel generalizing buffer xs with
  | zero =>
      obtain ⟨rfl, rfl⟩ : buffer = [] ∧ xs = [] := by
        simpa [List.length_eq_zero_iff] using Nat.le_zero.mp hfuel
      rfl
  | succ fuel ih =>
      rw [drainAll]
      cases hdrain : drainFirst delimiter (buffer ++ xs) with
      | none => rw [feed_of_absent (drainFirst_eq_none hdrain)]
      | some cut =>
          obtain ⟨frame, rest⟩ := cut
          obtain ⟨hne, hwhole, hfirst⟩ := drainFirst_eq_some hdrain
          -- the buffer has no delimiter, so the frame ends among the items that came
          have hlonger : buffer.length < (frame ++ delimiter).length := by
            by_contra hle
            have hfront : frame ++ delimiter <+: buffer :=
              List.prefix_of_prefix_length_le ⟨rest, hwhole.symm⟩ (List.prefix_append _ _)
                (Nat.not_lt.mp hle)
            exact hbuffer hne ((List.suffix_append frame delimiter).isInfix.trans hfront.isInfix)
          have hbegins : buffer <+: frame ++ delimiter :=
            List.prefix_of_prefix_length_le (List.prefix_append _ _) ⟨rest, hwhole.symm⟩
              (Nat.le_of_lt hlonger)
          obtain ⟨came, hcame⟩ := hbegins
          obtain rfl : xs = came ++ rest := by
            rw [← hcame, List.append_assoc] at hwhole
            exact List.append_cancel_left hwhole
          have hne' : came ≠ [] := by
            rintro rfl
            rw [List.append_nil] at hcame
            rw [hcame] at hlonger
            exact Nat.lt_irrefl _ hlonger
          have hlength := congrArg List.length hcame
          simp only [List.length_append] at hlength hfuel
          have hpos := List.length_pos_iff.mpr hne
          have hrest := @ih [] rest (fun hne hinside => hne (List.infix_nil.mp hinside))
            (by rw [List.nil_append]; omega)
          rw [List.nil_append] at hrest
          rw [feed_append, feed_of_first hne hfirst hcame hne', ← hrest]
          rfl

end Nazh.Lib
