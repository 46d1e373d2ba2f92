import Mathlib.Algebra.Order.Field.Rat
import Mathlib.Algebra.BigOperators.Group.List.Basic
import Nazh.Graph.Dispatch
import Nazh.Lib.Machine

/-!
# The window of an edge

The runner counts what it sends along an edge in a window of time. When the queue of the target is
nearly full it reports backpressure, once in a window, together with the number of messages that
were dropped. When the window is over it reports what was sent, and counts anew.

The drops are counted from the beginning of the window, so that a report tells of all drops since
the last report only if the window did not end between a drop and the report.

Times are in nanoseconds. The average of the queue depths is not rounded.
-/

namespace Nazh

open Lib

/-- `EDGE_WINDOW_DURATION`. -/
def edgeWindowDuration : ℕ := 100000000

structure EdgeTransmitSummary where
  fromNode : String
  fromPin : String
  toNode : String
  toPin : String
  edgeKind : PinKind
  transmitCount : ℕ
  maxQueueDepth : UInt64
  avgQueueDepth : ℚ
  totalPayloadBytes : UInt64
  windowStartedAt : ℕ
  windowEndedAt : ℕ

structure BackpressureDetected where
  atNode : String
  incomingPin : String
  channelCapacity : UInt64
  channelDepth : UInt64
  policy : BackpressurePolicy
  droppedSinceLastReport : ℕ
  detectedAt : ℕ

/-- The events of a window. -/
inductive EdgeEvent
  | edgeTransmitSummary (e : EdgeTransmitSummary)
  | backpressureDetected (e : BackpressureDetected)

namespace EdgeEvent

/-- The drops that an event tells of. -/
def dropped : EdgeEvent → ℕ
  | backpressureDetected e => e.droppedSinceLastReport
  | edgeTransmitSummary _ => 0

/-- The messages that an event tells of. -/
def transmitted : EdgeEvent → ℕ
  | backpressureDetected _ => 0
  | edgeTransmitSummary e => e.transmitCount

end EdgeEvent

structure EdgeWindow where
  fromPin : String
  toNode : String
  toPin : String
  edgeKind : PinKind
  channelCapacity : UInt64
  transmitCount : ℕ
  maxQueueDepth : UInt64
  queueDepthSum : UInt64
  totalPayloadBytes : UInt64
  windowStart : ℕ
  backpressureReported : Bool
  policy : BackpressurePolicy
  droppedInWindow : ℕ

/-- The calls on a window, with the clock readings in them. -/
inductive WindowCall
  | record (queueDepth payloadBytes : UInt64) (now : ℕ)
  | recordDrop (payloadBytes : UInt64)
  | flushIfReady (checked now : ℕ)
  | forceFlush (now : ℕ)

namespace WindowCall

def isRecord : WindowCall → Bool
  | record _ _ _ => true
  | _ => false

def isDrop : WindowCall → Bool
  | recordDrop _ => true
  | _ => false

end WindowCall

namespace EdgeWindow

def new (fromPin toNode toPin : String) (edgeKind : PinKind) (channelCapacity : UInt64)
    (policy : BackpressurePolicy) (now : ℕ) : EdgeWindow :=
  ⟨fromPin, toNode, toPin, edgeKind, channelCapacity, 0, 0, 0, 0, now, false, policy, 0⟩

variable (w : EdgeWindow) (fromNode : String)

/-- The condition of `record` for a report. -/
def detects (queueDepth : UInt64) : Bool :=
  !w.backpressureReported && decide (0 < w.channelCapacity) &&
    decide (w.channelCapacity * 8 ≤ queueDepth * 10)

def record (queueDepth payloadBytes : UInt64) (now : ℕ) : EdgeWindow × List EdgeEvent :=
  let counted := { w with
    transmitCount := w.transmitCount + 1
    maxQueueDepth := max w.maxQueueDepth queueDepth
    queueDepthSum := w.queueDepthSum + queueDepth
    totalPayloadBytes := w.totalPayloadBytes + payloadBytes }
  if w.detects queueDepth then
    ({ counted with backpressureReported := true },
      [.backpressureDetected ⟨w.toNode, w.toPin, w.channelCapacity, queueDepth, w.policy,
        w.droppedInWindow, now⟩])
  else (counted, [])

def recordDrop : EdgeWindow := { w with droppedInWindow := w.droppedInWindow + 1 }

def doFlush (now : ℕ) : EdgeWindow × List EdgeEvent :=
  let avgQueueDepth : ℚ :=
    if 0 < w.transmitCount then w.queueDepthSum.toNat / w.transmitCount else 0
  ({ w with
      transmitCount := 0
      maxQueueDepth := 0
      queueDepthSum := 0
      totalPayloadBytes := 0
      backpressureReported := false
      droppedInWindow := 0
      windowStart := now },
    [.edgeTransmitSummary ⟨fromNode, w.fromPin, w.toNode, w.toPin, w.edgeKind, w.transmitCount,
      w.maxQueueDepth, avgQueueDepth, w.totalPayloadBytes, w.windowStart, now⟩])

def flushIfReady (checked now : ℕ) : EdgeWindow × List EdgeEvent :=
  if w.transmitCount = 0 ∨ checked - w.windowStart < edgeWindowDuration then (w, [])
  else w.doFlush fromNode now

def forceFlush (now : ℕ) : EdgeWindow × List EdgeEvent :=
  if w.transmitCount = 0 then (w, []) else w.doFlush fromNode now

/-- A call: the window after it, and the events it emits. -/
def call : WindowCall → EdgeWindow × List EdgeEvent
  | .record queueDepth payloadBytes now => w.record queueDepth payloadBytes now
  | .recordDrop _ => (w.recordDrop, [])
  | .flushIfReady checked now => w.flushIfReady fromNode checked now
  | .forceFlush now => w.forceFlush fromNode now

/-! ## Sequences of calls -/

/-- The windows before each of some calls, with the calls. -/
def steps : EdgeWindow → List WindowCall → List (EdgeWindow × WindowCall)
  | _, [] => []
  | w, c :: rest => (w, c) :: steps (w.call fromNode c).1 rest

/-- The window after some calls. -/
def after (calls : List WindowCall) : EdgeWindow :=
  calls.foldl (fun w c => (w.call fromNode c).1) w

/-- The events of some calls. -/
def events (calls : List WindowCall) : List EdgeEvent :=
  (w.steps fromNode calls).flatMap fun s => (s.1.call fromNode s.2).2

/-- The call reports backpressure. -/
def reports : WindowCall → Bool
  | .record queueDepth _ _ => w.detects queueDepth
  | _ => false

/-- The call ends the window. -/
def flushes : WindowCall → Bool
  | .flushIfReady checked _ =>
      !(decide (w.transmitCount = 0) || decide (checked - w.windowStart < edgeWindowDuration))
  | .forceFlush _ => !decide (w.transmitCount = 0)
  | _ => false

/-- The drops since the last of the steps of a kind. -/
def dropsSince (kind : EdgeWindow → WindowCall → Bool) (steps : List (EdgeWindow × WindowCall)) : ℕ :=
  steps.foldl (fun n s => if kind s.1 s.2 then 0 else if s.2.isDrop then n + 1 else n) 0

/-- The drops that were reported and those since the last report are all drops, and so are the
messages that were reported and those that are pending all that were recorded. -/
structure Conserves (calls : List WindowCall) : Prop where
  dropped : ((w.events fromNode calls).map EdgeEvent.dropped).sum +
    dropsSince reports (w.steps fromNode calls) = calls.countP WindowCall.isDrop
  transmitted : ((w.events fromNode calls).map EdgeEvent.transmitted).sum +
    (w.after fromNode calls).transmitCount = calls.countP WindowCall.isRecord

/-- Whenever backpressure is reported, the drops since the last report are those since the window
began. -/
def Timely (calls : List WindowCall) : Prop :=
  Historical (fun pre s => s.1.reports s.2 = true → dropsSince reports pre = dropsSince flushes pre)
    (w.steps fromNode calls)

variable {w fromNode} {calls : List WindowCall} {c : WindowCall}

theorem steps_concat (calls : List WindowCall) (c : WindowCall) :
    w.steps fromNode (calls ++ [c]) = w.steps fromNode calls ++ [(w.after fromNode calls, c)] := by
  induction calls generalizing w with
  | nil => rfl
  | cons d calls ih =>
      rw [List.cons_append, steps, ih]
      rfl

theorem after_concat (calls : List WindowCall) (c : WindowCall) :
    w.after fromNode (calls ++ [c]) = ((w.after fromNode calls).call fromNode c).1 := by
  rw [after, List.foldl_concat]
  rfl

theorem events_concat (calls : List WindowCall) (c : WindowCall) :
    w.events fromNode (calls ++ [c]) =
      w.events fromNode calls ++ ((w.after fromNode calls).call fromNode c).2 := by
  simp [events, steps_concat]

theorem dropsSince_concat (kind : EdgeWindow → WindowCall → Bool)
    (steps : List (EdgeWindow × WindowCall)) (s : EdgeWindow × WindowCall) :
    dropsSince kind (steps ++ [s]) = if kind s.1 s.2 then 0
      else if s.2.isDrop then dropsSince kind steps + 1 else dropsSince kind steps := by
  rw [dropsSince, List.foldl_concat]
  rfl

/-! ## What a call counts -/

theorem flushIfReady_eq (checked now : ℕ) : w.flushIfReady fromNode checked now =
    if w.flushes (.flushIfReady checked now) then w.doFlush fromNode now else (w, []) := by
  rw [flushIfReady, flushes]
  by_cases hcount : w.transmitCount = 0
  · simp [hcount]
  · by_cases htime : checked - w.windowStart < edgeWindowDuration
    · simp [htime]
    · simp [hcount, htime]

theorem forceFlush_eq (now : ℕ) : w.forceFlush fromNode now =
    if w.flushes (.forceFlush now) then w.doFlush fromNode now else (w, []) := by
  rw [forceFlush, flushes]
  by_cases hcount : w.transmitCount = 0 <;> simp [hcount]

/-- What a call does to the counts, and what it emits of them. -/
theorem call_counts (w : EdgeWindow) (fromNode : String) (c : WindowCall) :
    (w.call fromNode c).1.droppedInWindow = (if w.flushes c then 0
      else if c.isDrop then w.droppedInWindow + 1 else w.droppedInWindow) ∧
    (w.call fromNode c).1.transmitCount = (if w.flushes c then 0
      else if c.isRecord then w.transmitCount + 1 else w.transmitCount) ∧
    (w.call fromNode c).1.backpressureReported =
      (!w.flushes c && (w.reports c || w.backpressureReported)) ∧
    ((w.call fromNode c).2.map EdgeEvent.dropped).sum =
      (if w.reports c then w.droppedInWindow else 0) ∧
    ((w.call fromNode c).2.map EdgeEvent.transmitted).sum =
      (if w.flushes c then w.transmitCount else 0) := by
  cases c with
  | record queueDepth payloadBytes now =>
      rw [call, record]
      by_cases hdetects : w.detects queueDepth = true
      · simp [hdetects, flushes, reports, WindowCall.isDrop, WindowCall.isRecord, EdgeEvent.dropped,
          EdgeEvent.transmitted]
      · simp [hdetects, flushes, reports, WindowCall.isDrop, WindowCall.isRecord]
  | recordDrop payloadBytes =>
      simp [call, recordDrop, flushes, reports, WindowCall.isDrop, WindowCall.isRecord]
  | flushIfReady checked now =>
      rw [call, flushIfReady_eq]
      by_cases hflush : w.flushes (.flushIfReady checked now) = true
      · simp [hflush, doFlush, reports, EdgeEvent.dropped, EdgeEvent.transmitted]
      · simp [hflush, reports, WindowCall.isDrop, WindowCall.isRecord]
  | forceFlush now =>
      rw [call, forceFlush_eq]
      by_cases hflush : w.flushes (.forceFlush now) = true
      · simp [hflush, doFlush, reports, EdgeEvent.dropped, EdgeEvent.transmitted]
      · simp [hflush, reports, WindowCall.isDrop, WindowCall.isRecord]

/-- Only a record reports, once in a window. -/
theorem spec_of_reports (h : w.reports c = true) :
    c.isDrop = false ∧ w.flushes c = false ∧ w.backpressureReported = false := by
  cases c with
  | record queueDepth payloadBytes now =>
      rw [reports, detects, Bool.and_eq_true, Bool.and_eq_true, Bool.not_eq_true'] at h
      exact ⟨rfl, rfl, h.1.1⟩
  | recordDrop payloadBytes => cases h
  | flushIfReady checked now => cases h
  | forceFlush now => cases h

/-! ## Conservation -/

/-- Nothing has been counted yet. -/
def Fresh (w : EdgeWindow) : Prop :=
  w.transmitCount = 0 ∧ w.droppedInWindow = 0 ∧ w.backpressureReported = false

/-- The drops in the window are those since it began. As long as none were reported, they are no
more than those since the last report. -/
theorem droppedInWindow_after (hfresh : w.Fresh) (calls : List WindowCall) :
    (w.after fromNode calls).droppedInWindow = dropsSince flushes (w.steps fromNode calls) ∧
      ((w.after fromNode calls).backpressureReported = false →
        (w.after fromNode calls).droppedInWindow ≤ dropsSince reports (w.steps fromNode calls)) := by
  induction calls using List.reverseRecOn with
  | nil =>
      have hzero : (w.after fromNode []).droppedInWindow = 0 := hfresh.2.1
      exact ⟨hzero, fun _ => hzero.le⟩
  | append_singleton calls c ih =>
      obtain ⟨hsince, hle⟩ := ih
      obtain ⟨hdropped, -, hreported, -⟩ := call_counts (w.after fromNode calls) fromNode c
      rw [after_concat, steps_concat, dropsSince_concat, dropsSince_concat, hdropped, hreported,
        ← hsince]
      refine ⟨rfl, fun h => ?_⟩
      by_cases hflush : (w.after fromNode calls).flushes c = true
      · simp [hflush]
      · have hnot : (w.after fromNode calls).reports c = false ∧
            (w.after fromNode calls).backpressureReported = false := by
          simpa [hflush] using h
        have hold := hle hnot.2
        simp only [hflush, hnot.1, Bool.false_eq_true, if_false]
        split <;> omega

/-- All messages are reported or pending. -/
theorem transmitted_add_pending (hfresh : w.Fresh) (calls : List WindowCall) :
    ((w.events fromNode calls).map EdgeEvent.transmitted).sum +
      (w.after fromNode calls).transmitCount = calls.countP WindowCall.isRecord := by
  induction calls using List.reverseRecOn with
  | nil => simpa [events, steps, after] using hfresh.1
  | append_singleton calls c ih =>
      obtain ⟨-, hcount, -, -, htransmitted⟩ := call_counts (w.after fromNode calls) fromNode c
      rw [events_concat, after_concat, List.map_append, List.sum_append, htransmitted, hcount,
        List.countP_append, List.countP_singleton, ← ih]
      by_cases hflush : (w.after fromNode calls).flushes c = true
      · have hnot : c.isRecord = false := by
          cases c with
          | record queueDepth payloadBytes now => cases hflush
          | recordDrop payloadBytes => rfl
          | flushIfReady checked now => rfl
          | forceFlush now => rfl
        simp [hflush, hnot]
      · simp only [hflush, Bool.false_eq_true, if_false]
        split <;> omega

/-- No drop is reported twice, and all are reported exactly if each report comes in time. -/
theorem dropped_add_since (hfresh : w.Fresh) (calls : List WindowCall) :
    ((w.events fromNode calls).map EdgeEvent.dropped).sum +
        dropsSince reports (w.steps fromNode calls) ≤ calls.countP WindowCall.isDrop ∧
      (((w.events fromNode calls).map EdgeEvent.dropped).sum +
        dropsSince reports (w.steps fromNode calls) = calls.countP WindowCall.isDrop ↔
          w.Timely fromNode calls) := by
  induction calls using List.reverseRecOn with
  | nil => exact ⟨le_refl _, fun _ => historical_nil, fun _ => rfl⟩
  | append_singleton calls c ih =>
      obtain ⟨hle, hiff⟩ := ih
      obtain ⟨hsince, hbound⟩ := @droppedInWindow_after w fromNode hfresh calls
      obtain ⟨-, -, -, hdropped, -⟩ := call_counts (w.after fromNode calls) fromNode c
      rw [Timely, events_concat, steps_concat, dropsSince_concat, List.map_append, List.sum_append,
        hdropped, List.countP_append, List.countP_singleton, historical_append_singleton, ← Timely,
        ← hiff]
      by_cases hreports : (w.after fromNode calls).reports c = true
      · obtain ⟨hdrop, -, hunreported⟩ := spec_of_reports hreports
        have hwindow := hbound hunreported
        simp only [hreports, hdrop, if_true, Bool.false_eq_true, if_false, forall_const, ← hsince]
        constructor
        · omega
        · omega
      · simp only [hreports, Bool.false_eq_true, if_false, false_implies, and_true]
        constructor
        · split <;> omega
        · split <;> omega

end EdgeWindow

open EdgeWindow

/-- For every window and all calls on it, nothing is lost exactly if whenever backpressure is
reported the drops since the last report are those since the window began. -/
theorem conserves_iff_timely (fromPin toNode toPin : String) (edgeKind : PinKind)
    (channelCapacity : UInt64) (policy : BackpressurePolicy) (now : ℕ) (fromNode : String)
    (calls : List WindowCall) :
    (EdgeWindow.new fromPin toNode toPin edgeKind channelCapacity policy now).Conserves fromNode
        calls ↔
      (EdgeWindow.new fromPin toNode toPin edgeKind channelCapacity policy now).Timely fromNode
        calls := by
  have hfresh : (EdgeWindow.new fromPin toNode toPin edgeKind channelCapacity policy now).Fresh :=
    ⟨rfl, rfl, rfl⟩
  constructor
  · intro h
    exact (dropped_add_since hfresh calls).2.mp h.dropped
  · intro h
    exact ⟨(dropped_add_since hfresh calls).2.mpr h, transmitted_add_pending hfresh calls⟩

/-- A message is dropped, the window ends, and in the next one the queue is full. -/
theorem drop_not_reported :
    ¬ (EdgeWindow.new "out" "sink" "in" .exec 10 .dropNewest 0).Conserves "source"
      [.record 1 5 0, .recordDrop 5, .flushIfReady 100000000 100000000, .record 9 5 100000001] := by
  intro h
  exact absurd h.dropped (by decide)

end Nazh
