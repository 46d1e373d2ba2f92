import Mathlib.Tactic.Common
import Nazh.Lib.Machine

/-!
# The batch writer

`enqueue` puts a record into a bounded channel and returns. A background task takes the records
out into a buffer and hands the buffer over when it is full or a tick comes; a batch that cannot
be written is counted as dropped, and so is a record that found the channel full. Closing the
channel lets the task hand over what is left and return. Dropping the writer closes the channel
too, but aborts the task.

Each receive, tick and `enqueue` is one step. After the drop the task may take further steps before
the abort finds it at an await.
-/

namespace Nazh

open Lib

/-- Where the background task stands. -/
inductive FlushPc
  /-- Before its first poll. -/
  | starting
  /-- In the `select!`. -/
  | receiving
  /-- In the tick after a flush that the capacity caused. -/
  | resetting
  | returned
  /-- Aborted, or panicked. -/
  | gone
  deriving DecidableEq

variable {O : Type}

structure BatchWriter (O : Type) where
  channelCapacity : ℕ
  flushCapacity : ℕ
  flushIntervalMs : ℕ
  /-- What is in the channel, and whether its sender is there. -/
  queue : List O
  hasSender : Bool
  /-- `guard.abort()` was called. -/
  aborting : Bool
  pc : FlushPc
  buffer : List O
  droppedCount : ℕ
  /-- The calls of `enqueue`, and whether the channel took the record. -/
  calls : List (O × Bool)
  /-- The calls of `flush_fn`, and whether they returned `Ok`. -/
  flushed : List (List O × Bool)

/-- What can happen. -/
inductive BatchAction (O : Type)
  | enqueue (item : O)
  /-- `shutdown` closes the channel. -/
  | shutdown
  | drop
  /-- The task makes its interval. -/
  | start
  /-- The task takes a record, or finds the channel closed; `ok` is how a flush ends. -/
  | recv (ok : Bool)
  | tick (ok : Bool)
  /-- The abort finds the task at an await. -/
  | abort

namespace BatchWriter

/-- `do_flush`. -/
def doFlush (s : BatchWriter O) (ok : Bool) : BatchWriter O :=
  { s with
    buffer := []
    flushed := s.flushed ++ [(s.buffer, ok)]
    droppedCount := if ok then s.droppedCount else s.droppedCount + s.buffer.length }

/-- Whether the receiver of the channel is there. -/
def hasReceiver (s : BatchWriter O) : Bool :=
  match s.pc with
  | .returned | .gone => false
  | .starting | .receiving | .resetting => true

/-- The task ends before it has received everything. -/
def giveUp (s : BatchWriter O) : BatchWriter O := { s with pc := .gone, queue := [], buffer := [] }

def enqueue (s : BatchWriter O) (item : O) : BatchWriter O :=
  if s.hasReceiver && decide (s.queue.length < s.channelCapacity) then
    { s with queue := s.queue ++ [item], calls := s.calls ++ [(item, true)] }
  else { s with droppedCount := s.droppedCount + 1, calls := s.calls ++ [(item, false)] }

/-- The branch of the `select!` that receives. -/
def recv (s : BatchWriter O) (ok : Bool) : Option (BatchWriter O) :=
  match s.queue with
  | item :: queue =>
      let s := { s with queue, buffer := s.buffer ++ [item] }
      if s.flushCapacity ≤ s.buffer.length then some { s.doFlush ok with pc := .resetting }
      else some s
  | [] =>
      if s.hasSender then none
      else if s.buffer.isEmpty then some { s with pc := .returned }
      else some { s.doFlush ok with pc := .returned }

/-- One step. -/
def step (s : BatchWriter O) : BatchAction O → Option (BatchWriter O)
  | .enqueue item => if s.hasSender then some (s.enqueue item) else none
  | .shutdown => if s.hasSender then some { s with hasSender := false } else none
  | .drop => if s.hasSender then some { s with hasSender := false, aborting := true } else none
  | .start => match s.pc with
    | .starting =>
        -- an interval of zero panics
        if s.flushIntervalMs = 0 then some s.giveUp else some { s with pc := .receiving }
    | _ => none
  | .recv ok => match s.pc with
    | .receiving => s.recv ok
    | _ => none
  | .tick ok => match s.pc with
    | .receiving =>
        -- the receive comes first, so that the channel is empty and open here
        if s.queue.isEmpty && s.hasSender then
          if s.buffer.isEmpty then some s else some (s.doFlush ok)
        else none
    | .resetting => some { s with pc := .receiving }
    | _ => none
  | .abort => if s.aborting && s.hasReceiver then some s.giveUp else none

/-- A writer that was just made. -/
structure Fresh (s : BatchWriter O) : Prop where
  queue_none : s.queue = []
  sender_there : s.hasSender = true
  not_aborting : s.aborting = false
  pc_starting : s.pc = .starting
  buffer_none : s.buffer = []
  dropped_none : s.droppedCount = 0
  calls_none : s.calls = []
  flushed_none : s.flushed = []

def machine : Machine (BatchWriter O) (BatchAction O) := ⟨Fresh, step⟩

/-! ## Where the records are -/

/-- The records that the channel took, in order. -/
def accepted (s : BatchWriter O) : List O := (s.calls.filter Prod.snd).map Prod.fst

/-- The records that `flush_fn` was given, in order. -/
def handed (s : BatchWriter O) : List O := s.flushed.flatMap Prod.fst

/-- How many records were written. -/
def written (s : BatchWriter O) : ℕ := ((s.flushed.filter Prod.snd).flatMap Prod.fst).length

/-- How many records were handed over in vain. -/
def failed (s : BatchWriter O) : ℕ :=
  ((s.flushed.filter fun batch => !batch.2).flatMap Prod.fst).length

/-- How many records found no room. -/
def refused (s : BatchWriter O) : ℕ := (s.calls.filter fun call => !call.2).length

/-- Every record that the channel took was handed over once and in order, or is on its way; the
others are counted, and so are those that were handed over in vain. Once the task is gone, the
records that were written and the dropped ones are all. -/
structure Kept (s : BatchWriter O) : Prop where
  handed_once : s.accepted = s.handed ++ s.buffer ++ s.queue
  counted : s.droppedCount = s.refused + s.failed
  complete : s.hasReceiver = false → s.written + s.droppedCount = s.calls.length

/-- The task ends early only with an empty channel and an empty buffer. -/
def keepsAll (s : BatchWriter O) : BatchAction O → Bool
  | .abort => s.queue.isEmpty && s.buffer.isEmpty
  | .start => s.flushIntervalMs != 0 || s.queue.isEmpty && s.buffer.isEmpty
  | _ => true

variable {s s' : BatchWriter O} {a : BatchAction O} {ok : Bool}

/-- What holds in every run: the count is right, and a task that is gone has nothing. -/
structure Counted (s : BatchWriter O) : Prop where
  counted : s.droppedCount = s.refused + s.failed
  gone : s.hasReceiver = false → s.buffer = [] ∧ s.queue = []

theorem calls_length (s : BatchWriter O) : s.calls.length = s.accepted.length + s.refused := by
  rw [accepted, refused, List.length_map]
  induction s.calls with
  | nil => rfl
  | cons call calls ih =>
      cases h : call.2 with
      | true => simp [h, ih, Nat.add_right_comm]
      | false => simp [h, ih, Nat.add_assoc]

theorem handed_length (s : BatchWriter O) : s.handed.length = s.written + s.failed := by
  rw [handed, written, failed]
  induction s.flushed with
  | nil => rfl
  | cons batch flushed ih =>
      cases h : batch.2 with
      | true =>
          simp only [List.flatMap_cons, List.length_append, List.filter_cons, h, if_true,
            Bool.not_true, Bool.false_eq_true, if_false, ih]
          omega
      | false =>
          simp only [List.flatMap_cons, List.length_append, List.filter_cons, h, if_true,
            Bool.not_false, Bool.false_eq_true, if_false, ih]
          omega

/-- Where the count is right, all are kept if the channel's records are. -/
theorem Counted.kept_iff (hs : s.Counted) :
    s.Kept ↔ s.accepted = s.handed ++ s.buffer ++ s.queue := by
  constructor
  · intro h
    exact h.handed_once
  · intro h
    refine ⟨h, hs.counted, fun hgone => ?_⟩
    obtain ⟨hbuffer, hqueue⟩ := hs.gone hgone
    have hlength := congrArg List.length h
    rw [hbuffer, hqueue, List.append_nil, List.append_nil, handed_length] at hlength
    rw [calls_length, hs.counted, hlength]
    omega

/-! ## What a flush does -/

@[simp] theorem accepted_doFlush : (s.doFlush ok).accepted = s.accepted := rfl

@[simp] theorem handed_doFlush : (s.doFlush ok).handed = s.handed ++ s.buffer := by
  rw [handed, doFlush, List.flatMap_append, List.flatMap_singleton]
  rfl

/-- A flush keeps the count right. -/
theorem counted_doFlush (h : s.droppedCount = s.refused + s.failed) :
    (s.doFlush ok).droppedCount = (s.doFlush ok).refused + (s.doFlush ok).failed := by
  have hrefused : (s.doFlush ok).refused = s.refused := rfl
  cases ok with
  | true =>
      have hfailed : (s.doFlush true).failed = s.failed := by
        simp [failed, doFlush, List.filter_append]
      rw [hrefused, hfailed]
      exact h
  | false =>
      have hfailed : (s.doFlush false).failed = s.failed + s.buffer.length := by
        simp [failed, doFlush, List.filter_append]
      have hcount : (s.doFlush false).droppedCount = s.droppedCount + s.buffer.length := rfl
      rw [hrefused, hfailed, hcount, h]
      omega

/-! ## Steps -/

/-- The records that a step loses. -/
def losesSome (s : BatchWriter O) : BatchAction O → Bool
  | .abort => true
  | .start => s.flushIntervalMs == 0
  | _ => false

/-- What a step does: records go from one place to the next, or the task gives up. -/
inductive Effect (s : BatchWriter O) (a : BatchAction O) (s' : BatchWriter O) : Prop
  /-- A record goes into the channel, or is refused. -/
  | took (item : O) : s.losesSome a = false →
      s'.accepted = s.accepted ++ [item] → s'.handed = s.handed → s'.buffer = s.buffer →
      s'.queue = s.queue ++ [item] → s'.Counted → Effect s a s'
  /-- The records stay in their order, and none is lost. -/
  | moved : s.losesSome a = false → s'.accepted = s.accepted →
      s'.handed ++ s'.buffer ++ s'.queue = s.handed ++ s.buffer ++ s.queue → s'.Counted →
      Effect s a s'
  | gaveUp : s.losesSome a = true → s' = s.giveUp → Effect s a s'

theorem Counted.of_same (hs : s.Counted) (hcount : s'.droppedCount = s.droppedCount)
    (hcalls : s'.calls = s.calls) (hflushed : s'.flushed = s.flushed)
    (hgone : s'.hasReceiver = false → s'.buffer = [] ∧ s'.queue = []) : s'.Counted := by
  refine ⟨?_, hgone⟩
  rw [hcount, hs.counted, refused, refused, failed, failed, hcalls, hflushed]

theorem enqueue_effect (hs : s.Counted) (item : O) :
    s.Effect (.enqueue item) (s.enqueue item) := by
  rw [enqueue]
  split
  · rename_i hroom
    refine .took item rfl ?_ rfl rfl rfl ⟨?_, fun hgone => ?_⟩
    · simp [accepted, List.filter_append]
    · have hrefused : refused { s with
          queue := s.queue ++ [item], calls := s.calls ++ [(item, true)] } = s.refused := by
        simp [refused, List.filter_append]
      rw [hrefused]
      exact hs.counted
    · have hhas : s.hasReceiver = false := hgone
      rw [hhas] at hroom
      cases hroom
  · refine .moved rfl ?_ rfl ⟨?_, hs.gone⟩
    · simp [accepted, List.filter_append]
    · have hrefused : refused { s with
          droppedCount := s.droppedCount + 1, calls := s.calls ++ [(item, false)] } =
          s.refused + 1 := by
        simp [refused, List.filter_append]
      have hcounted := hs.counted
      rw [hrefused]
      show s.droppedCount + 1 = s.refused + 1 + s.failed
      omega

/-- A flush keeps the order, wherever the task goes on. -/
theorem order_flush (s : BatchWriter O) (ok : Bool) (pc : FlushPc) :
    { s.doFlush ok with pc }.handed ++ { s.doFlush ok with pc }.buffer ++
      { s.doFlush ok with pc }.queue = s.handed ++ s.buffer ++ s.queue := by
  show (s.doFlush ok).handed ++ [] ++ s.queue = _
  rw [handed_doFlush, List.append_nil]

theorem counted_flush (hcounted : s.droppedCount = s.refused + s.failed) (pc : FlushPc)
    (hgone : { s.doFlush ok with pc }.hasReceiver = false → s.queue = []) :
    { s.doFlush ok with pc }.Counted :=
  ⟨counted_doFlush hcounted, fun hafter => ⟨rfl, hgone hafter⟩⟩

theorem recv_effect (hs : s.Counted) (hpc : s.pc = .receiving) (h : s.recv ok = some s') :
    s.Effect (.recv ok) s' := by
  have hthere : s.hasReceiver = true := by rw [hasReceiver, hpc]
  rw [recv] at h
  split at h
  · rename_i item queue hqueue
    have horder : s.handed ++ (s.buffer ++ [item]) ++ queue = s.handed ++ s.buffer ++ s.queue := by
      rw [hqueue]
      simp
    dsimp only at h
    split at h
    · cases h
      refine .moved rfl rfl ((order_flush _ ok .resetting).trans horder)
        (counted_flush (s := { s with queue, buffer := s.buffer ++ [item] }) hs.counted _ ?_)
      intro hgone
      cases hgone
    · cases h
      refine .moved rfl rfl horder ⟨hs.counted, fun hgone => ?_⟩
      have hgone : s.hasReceiver = false := hgone
      rw [hthere] at hgone
      cases hgone
  · rename_i hqueue
    split at h
    · cases h
    · split at h
      · rename_i hempty
        cases h
        refine .moved rfl rfl rfl (hs.of_same rfl rfl rfl fun _ => ?_)
        exact ⟨List.isEmpty_iff.mp hempty, hqueue⟩
      · cases h
        exact .moved rfl rfl (order_flush s ok _) (counted_flush hs.counted _ fun _ => hqueue)

theorem effect_of_step (hs : s.Counted) (h : s.step a = some s') : s.Effect a s' := by
  cases a with
  | enqueue item =>
      rw [step] at h
      split at h
      · cases h
        exact enqueue_effect hs item
      · cases h
  | shutdown =>
      rw [step] at h
      split at h
      · cases h
        exact .moved rfl rfl rfl (hs.of_same rfl rfl rfl hs.gone)
      · cases h
  | drop =>
      rw [step] at h
      split at h
      · cases h
        exact .moved rfl rfl rfl (hs.of_same rfl rfl rfl hs.gone)
      · cases h
  | start =>
      rw [step] at h
      split at h
      · rename_i hpc
        split at h
        · rename_i hzero
          cases h
          exact .gaveUp (by rw [losesSome, hzero]; rfl) rfl
        · rename_i hpos
          cases h
          refine .moved (by rw [losesSome, beq_false_of_ne hpos]) rfl rfl
            (hs.of_same rfl rfl rfl fun hgone => ?_)
          cases hgone
      · cases h
  | recv ok =>
      rw [step] at h
      split at h
      · rename_i hpc
        exact recv_effect hs hpc h
      · cases h
  | tick ok =>
      rw [step] at h
      split at h
      · rename_i hpc
        split at h
        · rename_i hopen
          split at h
          · cases h
            exact .moved rfl rfl rfl hs
          · cases h
            refine .moved rfl rfl (order_flush s ok s.pc) (counted_flush hs.counted s.pc fun _ => ?_)
            exact List.isEmpty_iff.mp (Bool.and_eq_true_iff.mp hopen).1
        · cases h
      · cases h
        refine .moved rfl rfl rfl (hs.of_same rfl rfl rfl fun hgone => ?_)
        cases hgone
      · cases h
  | abort =>
      rw [step] at h
      split at h
      · cases h
        exact .gaveUp rfl rfl
      · cases h

theorem Counted.step (hs : s.Counted) (h : s.step a = some s') : s'.Counted := by
  cases effect_of_step hs h with
  | took item ha hacc hhanded hbuffer hqueue hcounted => exact hcounted
  | moved ha hacc horder hcounted => exact hcounted
  | gaveUp ha hs' =>
      subst hs'
      exact hs.of_same rfl rfl rfl fun _ => ⟨rfl, rfl⟩

theorem keepsAll_of_losesSome (h : s.losesSome a = false) : s.keepsAll a = true := by
  cases a with
  | start =>
      have hzero : (s.flushIntervalMs == 0) = false := h
      have hpos : (s.flushIntervalMs != 0) = true := by
        rw [bne, hzero]
        rfl
      rw [keepsAll, hpos, Bool.true_or]
  | abort => cases h
  | _ => rfl

/-- Who gives up keeps all if there is nothing to keep. -/
theorem keepsAll_iff_of_losesSome (h : s.losesSome a = true) :
    s.keepsAll a = true ↔ s.queue = [] ∧ s.buffer = [] := by
  cases a with
  | start =>
      have hzero : (s.flushIntervalMs == 0) = true := h
      have hneg : (s.flushIntervalMs != 0) = false := by
        rw [bne, hzero]
        rfl
      rw [keepsAll, hneg, Bool.false_or, Bool.and_eq_true, List.isEmpty_iff, List.isEmpty_iff]
  | abort => rw [keepsAll, Bool.and_eq_true, List.isEmpty_iff, List.isEmpty_iff]
  | _ => cases h

/-- A step keeps all records if and only if it meets the guard. -/
theorem kept_step_iff (hs : s.Counted) (hkept : s.Kept) (h : s.step a = some s') :
    s'.Kept ↔ s.keepsAll a = true := by
  rw [(hs.step h).kept_iff]
  have hbefore := hkept.handed_once
  cases effect_of_step hs h with
  | took item ha hacc hhanded hbuffer hqueue hcounted =>
      refine iff_of_true ?_ (keepsAll_of_losesSome ha)
      rw [hacc, hhanded, hbuffer, hqueue, hbefore, List.append_assoc _ s.queue]
  | moved ha hacc horder hcounted =>
      refine iff_of_true ?_ (keepsAll_of_losesSome ha)
      rw [hacc, horder]
      exact hbefore
  | gaveUp ha hs' =>
      subst hs'
      rw [keepsAll_iff_of_losesSome ha]
      have haccepted : s.giveUp.accepted = s.handed ++ s.buffer ++ s.queue := hbefore
      have hplaces : s.giveUp.handed ++ s.giveUp.buffer ++ s.giveUp.queue = s.handed := by
        show s.handed ++ [] ++ [] = s.handed
        rw [List.append_nil, List.append_nil]
      rw [haccepted, hplaces, List.append_assoc, List.append_right_eq_self, List.append_eq_nil_iff]
      exact and_comm

/-! ## Every run -/

theorem Fresh.counted (hs : s.Fresh) : s.Counted := by
  refine ⟨?_, fun _ => ⟨hs.buffer_none, hs.queue_none⟩⟩
  rw [hs.dropped_none, refused, failed, hs.calls_none, hs.flushed_none]
  rfl

/-- In every run, all records are kept in all states if and only if every step meets the guard. -/
theorem batch_kept_iff (hs : s.Fresh) (acts : List (BatchAction O)) :
    machine.Along Kept s acts ↔ machine.Meets (fun t a => t.keepsAll a = true) s acts := by
  apply Machine.along_iff_meets (J := Counted)
  · intro t a t' hcounted h
    exact hcounted.step h
  · intro t a t' hcounted hkept h
    exact kept_step_iff hcounted hkept h
  · exact hs.counted
  · rw [hs.counted.kept_iff, accepted, handed, hs.calls_none, hs.flushed_none, hs.buffer_none,
      hs.queue_none]
    rfl

/-- A writer for two records in the channel and three in the buffer. -/
def writer : BatchWriter ℕ := ⟨2, 3, 5000, [], true, false, .starting, [], 0, [], []⟩

theorem writer_fresh : writer.Fresh := ⟨rfl, rfl, rfl, rfl, rfl, rfl, rfl, rfl⟩

/-- The third record finds the channel full, and `shutdown` hands over the others. -/
theorem shutdown_keeps_all : machine.Along Kept writer
    [.start, .enqueue 1, .enqueue 2, .enqueue 3, .shutdown, .recv true, .recv true, .recv true] :=
  (batch_kept_iff writer_fresh _).mpr (.of_replay (by decide))

/-- The writer is dropped with a record in the channel, which is neither handed over nor counted. -/
theorem drop_loses_record :
    ((machine.replay (fun _ _ => true) writer [.start, .enqueue 1, .drop, .abort]).any fun s =>
      !s.hasReceiver && (s.written + s.droppedCount == 0) && s.calls.length == 1) = true := by
  decide

end BatchWriter

end Nazh
