import Nazh.Io.Can
import Nazh.Lib.Lists
import Nazh.Lib.Machine

/-!
# Nodes that share a CAN session

The reader thread puts frames into a channel. Every read of every node of the connection takes
from this channel, one at a time since a read keeps the lock of the receiver until it returns, and
the node drops what it has no use for.

Frames are named by their place among all that came. A frame is promised to a node that wants it
and has a read pending when it comes. The promise is kept if the node gets the frame before this
read ends.
-/

namespace Nazh

open Lib

/-! ## Nodes -/

/-- What a node that reads frames is after. -/
inductive CanInterest
  | canRead (canId : Option UInt32) (isExtended : Bool)
  | signalRead (canId : UInt32) (isExtended : Bool)
  | listener (signals : List (UInt32 × Bool))
  deriving DecidableEq, Repr

/-- `node_filter` of a `canRead`. -/
def nodeFilter (canId : Option UInt32) (isExtended : Bool) : Option CanFilter :=
  canId.map fun canId =>
    if isExtended then .extendedFrames canId 0x1FFFFFFF else .standard canId 0x7FF

/-- `matches_filter` of a `canRead`. -/
def matchesFilter (canId : Option UInt32) (isExtended : Bool) (frame : CanFrame) : Bool :=
  match nodeFilter canId isExtended with
  | some filter => filter.matchesFrame frame.id frame.isExtended
  | none => true

namespace CanInterest

/-- Whether the node uses a frame that `recv` has given it. -/
def takes (interest : CanInterest) (frame : CanFrame) : Bool :=
  match interest with
  | canRead canId isExtended => matchesFilter canId isExtended frame
  | signalRead canId isExtended => frame.id == canId && frame.isExtended == isExtended
  | listener signals => signals.any fun (canId, isExtended) =>
      frame.id == canId && frame.isExtended == isExtended

/-- Whether the frame is of the identifier and the kind that the node is set up for. -/
def wants (interest : CanInterest) (frame : CanFrame) : Bool :=
  match interest with
  | canRead canId isExtended => canId.all fun canId =>
      frame.id == canId && frame.isExtended == isExtended
  | signalRead canId isExtended => frame.id == canId && frame.isExtended == isExtended
  | listener signals => signals.any fun (canId, isExtended) =>
      frame.id == canId && frame.isExtended == isExtended

/-- Whether the node calls `recv` again after what it gave. -/
def goesOn (interest : CanInterest) (result : Option CanFrame) : Bool :=
  match interest with
  | canRead _ _ => false
  | signalRead _ _ => result.any fun frame => !interest.takes frame
  | listener _ => true

end CanInterest

/-! ## The channel -/

/-- Where a call of `recv` stands. -/
inductive RecvPc
  /-- The node is about to call it. -/
  | calling
  /-- In `rx_receiver.lock().await`. -/
  | waiting (deadline : ℤ)
  /-- In `rx.recv().await`, with the lock. -/
  | receiving (deadline : ℤ)
  deriving DecidableEq, Repr

/-- A read of a node, or its loop: how many frames had come when it began. -/
structure PendingRead where
  since : ℕ
  pc : RecvPc
  deriving DecidableEq, Repr

/-- A node that reads the bus. -/
structure CanReader where
  interest : CanInterest
  /-- The timeout of a `recv` in nanoseconds. -/
  timeout : ℕ
  read : Option PendingRead
  /-- The frames that the node has used. -/
  delivered : List ℕ

/-- How many frames had come when the pending read of a node began, if there is one. -/
def CanReader.since (reader : CanReader) : Option ℕ := reader.read.map PendingRead.since

/-- What a node does with what `recv` gives it. -/
def CanReader.receive (reader : CanReader) (result : Option (ℕ × CanFrame)) : CanReader :=
  { reader with
    read := if reader.interest.goesOn (result.map Prod.snd) then
      reader.read.map fun read => { read with pc := .calling } else none
    delivered := match result with
      | some (k, frame) =>
          if reader.interest.takes frame then reader.delivered ++ [k] else reader.delivered
      | none => reader.delivered }

/-- The session of a connection, as far as its frames are concerned. -/
structure CanShared where
  /-- Every frame that came. -/
  frames : List CanFrame
  /-- The frames in the channel, by their places in `frames`. -/
  queue : List ℕ
  filters : List CanFilter
  senderOpen : Bool
  state : BusState
  /-- The calls that wait for the lock of the receiver, in their order, and the one that has it. -/
  waiters : List ℕ
  holder : Option ℕ
  clock : ℤ
  readers : List CanReader

/-- What can happen to a session. -/
inductive CanAction
  /-- The reader thread sends a frame. -/
  | arrive (frame : CanFrame)
  /-- The reader thread ends. -/
  | closeSender
  /-- A node begins to read, or a listener its loop. -/
  | begin (i : ℕ)
  /-- A node calls `recv`. -/
  | call (i : ℕ) (now : ℤ)
  /-- A call gets the lock. -/
  | lock (i : ℕ) (now : ℤ)
  /-- The call that has the lock is polled. -/
  | poll (i : ℕ) (now : ℤ)
  /-- A read is dropped, or a listener finds that it was cancelled. -/
  | stop (i : ℕ)

namespace CanShared

def setReader (s : CanShared) (i : ℕ) (reader : CanReader) : CanShared :=
  { s with readers := s.readers.set i reader }

/-- A call returns, and the lock is free again. -/
def returns (s : CanShared) (i : ℕ) (reader : CanReader) (result : Option (ℕ × CanFrame)) :
    CanShared :=
  { s.setReader i (reader.receive result) with holder := none }

/-- Whether the filters of the bus let a frame through. -/
def passes (s : CanShared) (frame : CanFrame) : Bool :=
  s.filters.isEmpty || s.filters.any fun filter => filter.matchesFrame frame.id frame.isExtended

/-- A turn of the loop in `recv`. -/
def poll (s : CanShared) (i : ℕ) (reader : CanReader) (deadline now : ℤ) : Option CanShared :=
  match s.queue with
  | k :: rest => (s.frames[k]?).map fun frame =>
      let s := { s with queue := rest }
      if s.passes frame then s.returns i reader (some (k, frame))
      else if deadline ≤ now then s.returns i reader none
      else s
  | [] =>
      if !s.senderOpen then some ({ s with state := .error }.returns i reader none)
      else if deadline ≤ now then some (s.returns i reader none)
      else none

/-- One step of the session. -/
def step (s : CanShared) : CanAction → Option CanShared
  | .arrive frame =>
      if s.senderOpen then
        some { s with frames := s.frames ++ [frame], queue := s.queue ++ [s.frames.length] }
      else none
  | .closeSender => some { s with senderOpen := false }
  | .begin i => (s.readers[i]?).bind fun reader => match reader.read with
      | none => some (s.setReader i { reader with read := some ⟨s.frames.length, .calling⟩ })
      | some _ => none
  | .call i now => (s.readers[i]?).bind fun reader => match reader.read with
      | some ⟨since, .calling⟩ => if s.clock ≤ now then
          some { s.setReader i { reader with read := some ⟨since, .waiting (now + reader.timeout)⟩ }
            with waiters := s.waiters ++ [i], clock := now }
        else none
      | _ => none
  | .lock i now => (s.readers[i]?).bind fun reader => match reader.read with
      | some ⟨since, .waiting deadline⟩ =>
          if s.clock ≤ now ∧ s.holder = none ∧ s.waiters.head? = some i then
            let s := { s with waiters := s.waiters.tail, clock := now }
            if deadline ≤ now then some (s.returns i reader none)
            else some { s.setReader i { reader with read := some ⟨since, .receiving deadline⟩ }
              with holder := some i }
          else none
      | _ => none
  | .poll i now => (s.readers[i]?).bind fun reader => match reader.read with
      | some ⟨_, .receiving deadline⟩ =>
          if s.clock ≤ now then { s with clock := now }.poll i reader deadline now else none
      | _ => none
  | .stop i => (s.readers[i]?).bind fun reader => match reader.read, reader.interest with
      | some ⟨_, .calling⟩, _ => some (s.setReader i { reader with read := none })
      -- a listener looks at its token between two calls
      | _, .listener _ => none
      | some ⟨_, .waiting _⟩, _ =>
          some { s.setReader i { reader with read := none } with waiters := s.waiters.erase i }
      | some ⟨_, .receiving _⟩, _ =>
          some { s.setReader i { reader with read := none } with holder := none }
      | none, _ => none

/-- Nobody has read the session, and no frame has come. -/
structure AtRest (s : CanShared) : Prop where
  frames_none : s.frames = []
  queue_none : s.queue = []
  waiters_none : s.waiters = []
  holder_none : s.holder = none
  readers_idle : ∀ reader ∈ s.readers, reader.read = none ∧ reader.delivered = []

def machine : Machine CanShared CanAction := ⟨AtRest, step⟩

/-! ## Promises -/

/-- A node that has a read pending wants the frame. -/
def expects (s : CanShared) (i : ℕ) (frame : CanFrame) : Bool :=
  (s.readers[i]?).any fun reader => reader.read.isSome && reader.interest.wants frame

/-- The promises of a step: the frame that comes, and the nodes that wait for it. -/
def promises (s : CanShared) : CanAction → CanShared → List (ℕ × ℕ)
  | .arrive frame, _ => ((List.range s.readers.length).filter (s.expects · frame)).map
      (s.frames.length, ·)
  | _, _ => []

/-- The pending read of a node began before a frame that it wants. -/
def awaits (s : CanShared) (i k : ℕ) : Bool :=
  (s.readers[i]?).any fun reader => (reader.read.any fun read => read.since ≤ k) &&
    (s.frames[k]?).any reader.interest.wants

/-- The node has used the frame. -/
def hasDelivered (s : CanShared) (i k : ℕ) : Prop :=
  ∃ reader, s.readers[i]? = some reader ∧ k ∈ reader.delivered

/-- No frame that is left in the channel was promised to the node. -/
def owesNothing (s : CanShared) (i : ℕ) (queue : List ℕ) : Bool := queue.all fun k => !s.awaits i k

/-- A call takes a frame that nobody else waits for, and no read ends while a frame that came for
it is in the channel. -/
def keepsFrames (s : CanShared) : CanAction → Bool
  | .lock i now => (s.readers[i]?).all fun reader => match reader.read with
      | some ⟨_, .waiting deadline⟩ =>
          now < deadline || reader.interest.goesOn none || s.owesNothing i s.queue
      | _ => true
  | .poll i now => match s.queue with
      | [] => true
      | k :: rest => (s.readers[i]?).all fun reader => (s.frames[k]?).all fun frame =>
          match reader.read with
          | some ⟨_, .receiving deadline⟩ =>
              ((List.range s.readers.length).all fun j =>
                !s.awaits j k || (j == i && s.passes frame)) &&
              ((if s.passes frame then reader.interest.goesOn (some frame)
                else now < deadline || reader.interest.goesOn none) || s.owesNothing i rest)
          | _ => true
  | .stop i => s.owesNothing i s.queue
  | _ => true

/-! ## What a step does -/

/-- What a step does to frames, channel and nodes, with what the guard asks of it. -/
inductive Effect (s : CanShared) (a : CanAction) (s' : CanShared) : Prop
  /-- A frame comes. -/
  | arrived {frame : CanFrame} : a = .arrive frame → s'.frames = s.frames ++ [frame] →
      s'.queue = s.queue ++ [s.frames.length] → s'.readers = s.readers →
      s.keepsFrames a = true → Effect s a s'
  /-- Nothing of it changes. -/
  | kept : s'.frames = s.frames → s'.queue = s.queue → s'.readers = s.readers →
      s.keepsFrames a = true → Effect s a s'
  /-- A read begins. -/
  | began {i : ℕ} {reader reader' : CanReader} : s.readers[i]? = some reader →
      s'.readers = s.readers.set i reader' → s'.frames = s.frames → s'.queue = s.queue →
      reader.since = none → reader'.since = some s.frames.length →
      reader'.interest = reader.interest → reader'.delivered = reader.delivered →
      s.keepsFrames a = true → Effect s a s'
  /-- A read goes on, or ends. -/
  | changed {i : ℕ} {reader reader' : CanReader} (goes : Bool) : s.readers[i]? = some reader →
      s'.readers = s.readers.set i reader' → s'.frames = s.frames → s'.queue = s.queue →
      reader'.since = (if goes then reader.since else none) →
      reader'.interest = reader.interest → reader'.delivered = reader.delivered →
      s.keepsFrames a = (goes || s.owesNothing i s.queue) → Effect s a s'
  /-- A frame leaves the channel, and the node gets it or the bus does not let it through. -/
  | took {i k : ℕ} {rest : List ℕ} {frame : CanFrame} {reader reader' : CanReader}
      (gets goes : Bool) : s.readers[i]? = some reader → s.queue = k :: rest →
      s.frames[k]? = some frame → s'.readers = s.readers.set i reader' →
      s'.frames = s.frames → s'.queue = rest →
      reader'.since = (if goes then reader.since else none) →
      reader'.interest = reader.interest →
      reader'.delivered = (if gets && reader.interest.takes frame then reader.delivered ++ [k]
        else reader.delivered) →
      s.keepsFrames a = (((List.range s.readers.length).all fun j =>
        !s.awaits j k || (j == i && gets)) && (goes || s.owesNothing i rest)) → Effect s a s'

variable {s s' : CanShared} {a : CanAction} {i j k : ℕ}

theorem since_receive (reader : CanReader) (result : Option (ℕ × CanFrame)) :
    (reader.receive result).since =
      if reader.interest.goesOn (result.map Prod.snd) then reader.since else none := by
  cases hgoes : reader.interest.goesOn (result.map Prod.snd) with
  | true => simp [CanReader.since, CanReader.receive, hgoes, Function.comp_def]
  | false => simp [CanReader.since, CanReader.receive, hgoes]

theorem set_self {readers : List CanReader} {reader : CanReader} (h : readers[i]? = some reader) :
    readers.set i reader = readers := by
  obtain ⟨hlt, rfl⟩ := List.getElem?_eq_some_iff.mp h
  exact List.set_getElem_self hlt

theorem poll_effect {now deadline : ℤ} {reader : CanReader} {since : ℕ}
    (hreader : s.readers[i]? = some reader)
    (hread : reader.read = some ⟨since, .receiving deadline⟩)
    (h : { s with clock := now }.poll i reader deadline now = some s') :
    s.Effect (.poll i now) s' := by
  rw [poll] at h
  simp only at h
  split at h
  · rename_i k rest hqueue
    obtain ⟨frame, hframe, h⟩ := Option.map_eq_some_iff.mp h
    have hpasses : passes { s with queue := rest, clock := now } frame = s.passes frame := rfl
    have hguard : s.keepsFrames (.poll i now) = (((List.range s.readers.length).all fun j =>
        !s.awaits j k || (j == i && s.passes frame)) &&
        ((if s.passes frame then reader.interest.goesOn (some frame)
          else decide (now < deadline) || reader.interest.goesOn none) || s.owesNothing i rest)) := by
      simp [keepsFrames, hqueue, hreader, hframe, hread]
    rw [hpasses] at h
    split at h
    · rename_i hpass
      rw [hpass] at hguard
      cases h
      refine .took true (reader.interest.goesOn (some frame)) hreader hqueue hframe rfl rfl rfl
        (since_receive reader _) rfl ?_ hguard
      rw [Bool.true_and]
      rfl
    · rename_i hpass
      rw [Bool.not_eq_true] at hpass
      rw [hpass] at hguard
      split at h
      · rename_i hlate
        have hnow : decide (now < deadline) = false := by simpa using hlate
        rw [hnow] at hguard
        cases h
        exact .took false (reader.interest.goesOn none) hreader hqueue hframe rfl rfl rfl
          (since_receive reader _) rfl rfl hguard
      · rename_i hearly
        have hnow : decide (now < deadline) = true := by simpa using hearly
        rw [hnow] at hguard
        cases h
        exact .took false true hreader hqueue hframe (set_self hreader).symm rfl rfl rfl rfl rfl
          hguard
  · rename_i hqueue
    have hguard (goes : Bool) :
        s.keepsFrames (.poll i now) = (goes || s.owesNothing i s.queue) := by
      simp [keepsFrames, hqueue, owesNothing]
    split at h
    · cases h
      exact .changed _ hreader rfl rfl rfl (since_receive reader _) rfl rfl (hguard _)
    · split at h
      · cases h
        exact .changed _ hreader rfl rfl rfl (since_receive reader _) rfl rfl (hguard _)
      · cases h

theorem lock_effect {now deadline : ℤ} {reader : CanReader} {since : ℕ}
    (hreader : s.readers[i]? = some reader)
    (hread : reader.read = some ⟨since, .waiting deadline⟩) (h : s.step (.lock i now) = some s') :
    s.Effect (.lock i now) s' := by
  have hguard : s.keepsFrames (.lock i now) =
      (decide (now < deadline) || reader.interest.goesOn none || s.owesNothing i s.queue) := by
    simp [keepsFrames, hreader, hread]
  simp only [step, hreader, hread, Option.bind_some] at h
  split at h
  · split at h
    · rename_i hlate
      have hnow : decide (now < deadline) = false := by simpa using hlate
      rw [hnow, Bool.false_or] at hguard
      cases h
      exact .changed _ hreader rfl rfl rfl (since_receive reader _) rfl rfl hguard
    · rename_i hearly
      have hnow : decide (now < deadline) = true := by simpa using hearly
      rw [hnow, Bool.true_or] at hguard
      cases h
      refine .changed true hreader rfl rfl rfl ?_ rfl rfl hguard
      rw [CanReader.since, CanReader.since, hread]
      rfl
  · cases h

theorem stop_effect (h : s.step (.stop i) = some s') : s.Effect (.stop i) s' := by
  obtain ⟨reader, hreader, h⟩ := Option.bind_eq_some_iff.mp h
  split at h
  · cases h
    exact .changed false hreader rfl rfl rfl rfl rfl rfl rfl
  · cases h
  · cases h
    exact .changed false hreader rfl rfl rfl rfl rfl rfl rfl
  · cases h
    exact .changed false hreader rfl rfl rfl rfl rfl rfl rfl
  · cases h

/-- Every step has one of the effects. -/
theorem step_effect (h : s.step a = some s') : s.Effect a s' := by
  cases a with
  | arrive frame =>
      rw [step] at h
      split at h
      · cases h
        exact .arrived rfl rfl rfl rfl rfl
      · cases h
  | closeSender =>
      cases h
      exact .kept rfl rfl rfl rfl
  | begin i =>
      obtain ⟨reader, hreader, h⟩ := Option.bind_eq_some_iff.mp h
      split at h
      · rename_i hread
        cases h
        exact .began hreader rfl rfl rfl (by rw [CanReader.since, hread]; rfl) rfl rfl rfl rfl
      · cases h
  | call i now =>
      obtain ⟨reader, hreader, h⟩ := Option.bind_eq_some_iff.mp h
      split at h
      · rename_i since hread
        split at h
        · cases h
          refine .changed true hreader rfl rfl rfl ?_ rfl rfl rfl
          rw [CanReader.since, CanReader.since, hread]
          rfl
        · cases h
      · cases h
  | lock i now =>
      obtain ⟨reader, hreader, hlock⟩ := Option.bind_eq_some_iff.mp h
      split at hlock
      · rename_i since deadline hread
        exact lock_effect hreader hread h
      · cases hlock
  | poll i now =>
      obtain ⟨reader, hreader, h⟩ := Option.bind_eq_some_iff.mp h
      split at h
      · rename_i since deadline hread
        split at h
        · exact poll_effect hreader hread h
        · cases h
      · cases h
  | stop i => exact stop_effect h

/-! ## Which steps break no promise -/

section Readers

variable {reader reader' : CanReader}

theorem readers_self (hreader : s.readers[i]? = some reader)
    (hset : s'.readers = s.readers.set i reader') : s'.readers[i]? = some reader' := by
  obtain ⟨hlt, -⟩ := List.getElem?_eq_some_iff.mp hreader
  rw [hset, List.getElem?_set_self hlt]

theorem readers_ne (hset : s'.readers = s.readers.set i reader') (hj : j ≠ i) :
    s'.readers[j]? = s.readers[j]? := by
  rw [hset, List.getElem?_set_ne (Ne.symm hj)]

theorem awaits_eq (hreader : s.readers[i]? = some reader) (k : ℕ) :
    s.awaits i k = ((reader.since.any fun since => since ≤ k) &&
      (s.frames[k]?).any reader.interest.wants) := by
  rw [awaits, hreader, Option.any_some, CanReader.since, Option.any_map]

theorem awaits_congr (hreaders : s'.readers[j]? = s.readers[j]?)
    (hframes : s'.frames[k]? = s.frames[k]?) : s'.awaits j k = s.awaits j k := by
  rw [awaits, awaits, hreaders, hframes]

theorem hasDelivered_congr (hreaders : s'.readers[j]? = s.readers[j]?) :
    s'.hasDelivered j k ↔ s.hasDelivered j k := by
  rw [hasDelivered, hasDelivered, hreaders]

theorem hasDelivered_iff (hreader : s.readers[i]? = some reader) :
    s.hasDelivered i k ↔ k ∈ reader.delivered := by
  constructor
  · intro h
    obtain ⟨reader₁, hreader₁, hk⟩ := h
    obtain rfl := Option.some.inj (hreader.symm.trans hreader₁)
    exact hk
  · intro hk
    exact ⟨reader, hreader, hk⟩

/-- A read that goes on waits for what it waited for, and one that ended for nothing. -/
theorem awaits_of_goes {goes : Bool} (hreader : s.readers[i]? = some reader)
    (hreader' : s'.readers[i]? = some reader') (hframes : s'.frames = s.frames)
    (hsince : reader'.since = if goes then reader.since else none)
    (hinterest : reader'.interest = reader.interest) (k : ℕ) :
    s'.awaits i k = (goes && s.awaits i k) := by
  rw [awaits_eq hreader, awaits_eq hreader', hframes, hinterest, hsince]
  cases goes with
  | true => rfl
  | false => rfl

end Readers

/-- What holds of a session and the promises so far in every run. -/
structure Sound (s : CanShared) (log : List (ℕ × ℕ)) : Prop where
  since_le : ∀ (i : ℕ) (reader : CanReader) since, s.readers[i]? = some reader →
    reader.since = some since → since ≤ s.frames.length
  queue_lt : ∀ k ∈ s.queue, k < s.frames.length
  queue_nodup : s.queue.Nodup
  delivered_lt : ∀ i k, s.hasDelivered i k → k < s.frames.length
  undelivered : ∀ k ∈ s.queue, ∀ i, ¬ s.hasDelivered i k
  /-- What a node waits for was promised to it. -/
  promised : ∀ k ∈ s.queue, ∀ i, s.awaits i k = true → (k, i) ∈ log

/-- A node to which a coming frame is promised has a pending read, and wants the frame. -/
theorem mem_promises {frame : CanFrame} {promise : ℕ × ℕ} :
    promise ∈ s.promises (.arrive frame) s' ↔ promise.1 = s.frames.length ∧
      ∃ reader since, s.readers[promise.2]? = some reader ∧ reader.since = some since ∧
        reader.interest.wants frame = true := by
  obtain ⟨k, i⟩ := promise
  rw [promises, List.mem_map]
  constructor
  · intro hnew
    obtain ⟨j, hj, heq⟩ := hnew
    cases heq
    obtain ⟨reader, hreader, hexpects⟩ := (Option.any_eq_true _ _).mp (List.mem_filter.mp hj).2
    rw [Bool.and_eq_true, Option.isSome_iff_exists] at hexpects
    obtain ⟨⟨read, hread⟩, hwants⟩ := hexpects
    exact ⟨rfl, reader, read.since, hreader, by rw [CanReader.since, hread]; rfl, hwants⟩
  · intro hnew
    obtain ⟨rfl, reader, since, hreader, hsince, hwants⟩ := hnew
    obtain ⟨read, hread, -⟩ := Option.map_eq_some_iff.mp hsince
    refine ⟨i, List.mem_filter.mpr ⟨?_, ?_⟩, rfl⟩
    · exact List.mem_range.mpr (List.getElem?_eq_some_iff.mp hreader).1
    · rw [expects, Option.any_eq_true]
      exact ⟨reader, hreader, by rw [hread, hwants]; rfl⟩

/-- A session stays sound if no frame comes, and none that is left is given to a node or awaited
anew. -/
theorem Sound.of_le {log log' : List (ℕ × ℕ)} (hsound : s.Sound log) (hlog : log ⊆ log')
    (hframes : s'.frames = s.frames) (hqueue : s'.queue.Sublist s.queue)
    (hsince : ∀ (i : ℕ) (reader : CanReader) since, s'.readers[i]? = some reader →
      reader.since = some since → since ≤ s.frames.length)
    (hgot : ∀ i k, s'.hasDelivered i k → s.hasDelivered i k ∨ k ∈ s.queue ∧ k ∉ s'.queue)
    (hawaits : ∀ k ∈ s.queue, ∀ i, s'.awaits i k = true → s.awaits i k = true) :
    s'.Sound log' where
  since_le i reader since hreader h := by
    rw [hframes]
    exact hsince i reader since hreader h
  queue_lt k hk := by
    rw [hframes]
    exact hsound.queue_lt k (hqueue.subset hk)
  queue_nodup := hsound.queue_nodup.sublist hqueue
  delivered_lt i k h := by
    rw [hframes]
    rcases hgot i k h with hold | hnew
    · exact hsound.delivered_lt i k hold
    · exact hsound.queue_lt k hnew.1
  undelivered k hk i h := by
    rcases hgot i k h with hold | hnew
    · exact hsound.undelivered k (hqueue.subset hk) i hold
    · exact hnew.2 hk
  promised k hk i h :=
    hlog (hsound.promised k (hqueue.subset hk) i (hawaits k (hqueue.subset hk) i h))

/-- A read that goes on began when it began. -/
theorem since_le_of_goes {log : List (ℕ × ℕ)} {goes : Bool} {reader reader' : CanReader}
    (hsound : s.Sound log) (hreader : s.readers[i]? = some reader)
    (hset : s'.readers = s.readers.set i reader')
    (hsince : reader'.since = if goes then reader.since else none) :
    ∀ (j : ℕ) (reader : CanReader) since, s'.readers[j]? = some reader →
      reader.since = some since → since ≤ s.frames.length := by
  intro j reader₁ since hreader₁ hsince₁
  by_cases hj : j = i
  · subst hj
    obtain rfl := Option.some.inj ((readers_self hreader hset).symm.trans hreader₁)
    rw [hsince] at hsince₁
    split at hsince₁
    · exact hsound.since_le j reader since hreader hsince₁
    · cases hsince₁
  · exact hsound.since_le j reader₁ since (readers_ne hset hj ▸ hreader₁) hsince₁

/-- What is awaited after a read went on or ended was awaited before. -/
theorem awaits_of_goes_or {goes : Bool} {reader reader' : CanReader}
    (hreader : s.readers[i]? = some reader) (hset : s'.readers = s.readers.set i reader')
    (hframes : s'.frames = s.frames)
    (hsince : reader'.since = if goes then reader.since else none)
    (hinterest : reader'.interest = reader.interest) :
    ∀ k ∈ s.queue, ∀ j, s'.awaits j k = true → s.awaits j k = true := by
  intro k _ j hawaits
  by_cases hj : j = i
  · subst hj
    rw [awaits_of_goes hreader (readers_self hreader hset) hframes hsince hinterest,
      Bool.and_eq_true] at hawaits
    exact hawaits.2
  · have hsame : s'.awaits j k = s.awaits j k :=
      awaits_congr (readers_ne hset hj) (by rw [hframes])
    exact hsame ▸ hawaits

/-- A step keeps the session sound. -/
theorem Sound.step {log : List (ℕ × ℕ)} (hsound : s.Sound log) (h : s.Effect a s') :
    s'.Sound (log ++ s.promises a s') := by
  have hlog : log ⊆ log ++ s.promises a s' := List.subset_append_left _ _
  cases h with
  | arrived ha hframes hqueue hreaders hguard =>
      rename_i frame
      subst ha
      have hlength : s'.frames.length = s.frames.length + 1 := by rw [hframes]; simp
      have hgot (i k : ℕ) : s'.hasDelivered i k ↔ s.hasDelivered i k :=
        hasDelivered_congr (by rw [hreaders])
      refine ⟨fun i reader since hreader hsince => ?_, fun k hk => ?_, ?_, fun i k hk => ?_,
        fun k hk i => ?_, fun k hk i hawaits => ?_⟩
      · rw [hreaders] at hreader
        have hle := hsound.since_le i reader since hreader hsince
        omega
      · rw [hqueue, List.mem_append, List.mem_singleton] at hk
        rcases hk with hk | rfl
        · have hlt := hsound.queue_lt k hk
          omega
        · omega
      · rw [hqueue, List.nodup_append]
        refine ⟨hsound.queue_nodup, List.nodup_cons.mpr ⟨List.not_mem_nil, List.nodup_nil⟩,
          fun k hk k' hk' => ?_⟩
        rw [List.mem_singleton] at hk'
        have hlt := hsound.queue_lt k hk
        omega
      · have hlt := hsound.delivered_lt i k ((hgot i k).mp hk)
        omega
      · rw [hgot]
        rw [hqueue, List.mem_append, List.mem_singleton] at hk
        rcases hk with hk | rfl
        · exact hsound.undelivered k hk i
        · intro hmem
          exact absurd (hsound.delivered_lt i _ hmem) (Nat.lt_irrefl _)
      · rw [hqueue, List.mem_append, List.mem_singleton] at hk
        rcases hk with hk | rfl
        · have hsame : s'.awaits i k = s.awaits i k := awaits_congr (by rw [hreaders])
            (by rw [hframes, List.getElem?_append_left (hsound.queue_lt k hk)])
          exact hlog (hsound.promised k hk i (hsame ▸ hawaits))
        · obtain ⟨reader, hreader, hboth⟩ := (Option.any_eq_true _ _).mp hawaits
          rw [hframes, List.getElem?_concat_length, Bool.and_eq_true, Option.any_eq_true] at hboth
          obtain ⟨⟨read, hread, -⟩, hwants⟩ := hboth
          rw [hreaders] at hreader
          refine List.mem_append_right _ (mem_promises.mpr ⟨rfl, reader, read.since, hreader, ?_, ?_⟩)
          · rw [CanReader.since, hread]
            rfl
          · exact hwants
  | kept hframes hqueue hreaders hguard =>
      refine hsound.of_le hlog hframes (hqueue ▸ List.Sublist.refl _) ?_ ?_ ?_
      · intro i reader since hreader
        exact hsound.since_le i reader since (hreaders ▸ hreader)
      · intro i k hgot
        exact .inl ((hasDelivered_congr (by rw [hreaders])).mp hgot)
      · intro k _ i hawaits
        have hsame : s'.awaits i k = s.awaits i k :=
          awaits_congr (by rw [hreaders]) (by rw [hframes])
        exact hsame ▸ hawaits
  | began hreader hset hframes hqueue hnone hsince hinterest hdelivered hguard =>
      rename_i i reader reader'
      have hreader' := readers_self hreader hset
      refine hsound.of_le hlog hframes (hqueue ▸ List.Sublist.refl _) ?_ ?_ ?_
      · intro j reader₁ since hreader₁ hsince₁
        by_cases hj : j = i
        · subst hj
          obtain rfl := Option.some.inj (hreader'.symm.trans hreader₁)
          obtain rfl := Option.some.inj (hsince.symm.trans hsince₁)
          exact Nat.le_refl _
        · exact hsound.since_le j reader₁ since (readers_ne hset hj ▸ hreader₁) hsince₁
      · intro j k hgot
        by_cases hj : j = i
        · subst hj
          rw [hasDelivered_iff hreader', hdelivered] at hgot
          exact .inl ((hasDelivered_iff hreader).mpr hgot)
        · exact .inl ((hasDelivered_congr (readers_ne hset hj)).mp hgot)
      · intro k hk j hawaits
        by_cases hj : j = i
        · subst hj
          have hlt := hsound.queue_lt k hk
          rw [awaits_eq hreader', hsince, Option.any_some, Bool.and_eq_true, decide_eq_true_eq]
            at hawaits
          omega
        · have hsame : s'.awaits j k = s.awaits j k :=
            awaits_congr (readers_ne hset hj) (by rw [hframes])
          exact hsame ▸ hawaits
  | changed goes hreader hset hframes hqueue hsince hinterest hdelivered hguard =>
      rename_i i reader reader'
      have hreader' := readers_self hreader hset
      refine hsound.of_le hlog hframes (hqueue ▸ List.Sublist.refl _)
        (since_le_of_goes hsound hreader hset hsince) ?_
        (awaits_of_goes_or hreader hset hframes hsince hinterest)
      intro j k hgot
      by_cases hj : j = i
      · subst hj
        rw [hasDelivered_iff hreader', hdelivered] at hgot
        exact .inl ((hasDelivered_iff hreader).mpr hgot)
      · exact .inl ((hasDelivered_congr (readers_ne hset hj)).mp hgot)
  | took gets goes hreader hqueue hframe hset hframes hqueue' hsince hinterest hdelivered hguard =>
      rename_i i k₀ rest frame reader reader'
      have hreader' := readers_self hreader hset
      have hnodup := hsound.queue_nodup
      rw [hqueue, List.nodup_cons] at hnodup
      refine hsound.of_le hlog hframes (hqueue' ▸ hqueue ▸ List.sublist_cons_self k₀ rest)
        (since_le_of_goes hsound hreader hset hsince) ?_
        (awaits_of_goes_or hreader hset hframes hsince hinterest)
      intro j k hgot
      by_cases hj : j = i
      · subst hj
        rw [hasDelivered_iff hreader', hdelivered] at hgot
        split at hgot
        · rcases List.mem_append.mp hgot with hold | hnew
          · exact .inl ((hasDelivered_iff hreader).mpr hold)
          · obtain rfl := List.mem_singleton.mp hnew
            exact .inr ⟨hqueue ▸ List.mem_cons_self, hqueue' ▸ hnodup.1⟩
        · exact .inl ((hasDelivered_iff hreader).mpr hgot)
      · exact .inl ((hasDelivered_congr (readers_ne hset hj)).mp hgot)

theorem AtRest.sound (h : s.AtRest) : s.Sound [] where
  since_le i reader since hreader hsince := by
    have hidle := (h.readers_idle reader (List.mem_of_getElem? hreader)).1
    rw [CanReader.since, hidle] at hsince
    cases hsince
  queue_lt k hk := by
    rw [h.queue_none] at hk
    cases hk
  queue_nodup := by
    rw [h.queue_none]
    exact List.nodup_nil
  delivered_lt i k hgot := by
    obtain ⟨reader, hreader, hk⟩ := hgot
    rw [(h.readers_idle reader (List.mem_of_getElem? hreader)).2] at hk
    cases hk
  undelivered k hk := by
    rw [h.queue_none] at hk
    cases hk
  promised k hk := by
    rw [h.queue_none] at hk
    cases hk

end CanShared

/-! ## Which runs lose no frame -/

section Sharing

open CanShared

/-- A session whose nodes have not read yet. -/
def idleSession (interests : List CanInterest) : CanShared where
  frames := []
  queue := []
  filters := []
  senderOpen := true
  state := .active
  waiters := []
  holder := none
  clock := 0
  readers := interests.map fun interest => ⟨interest, 100, none, []⟩

theorem idleSession_atRest (interests : List CanInterest) : (idleSession interests).AtRest where
  frames_none := rfl
  queue_none := rfl
  waiters_none := rfl
  holder_none := rfl
  readers_idle := by
    intro reader hreader
    obtain ⟨interest, -, rfl⟩ := List.mem_map.mp hreader
    exact ⟨rfl, rfl⟩

/-- A frame with no data. -/
def emptyFrame (id : UInt32) : CanFrame := ⟨id, [], 0, false, false, false, none⟩

end Sharing

/-! ## At most once -/

namespace CanShared

variable {s s' : CanShared} {a : CanAction}

/-- The frame `k` is the `n`th that a node has used. -/
def Used (s : CanShared) (i n k : ℕ) : Prop :=
  ∃ reader, s.readers[i]? = some reader ∧ reader.delivered[n]? = some k

/-- A step uses one frame at most, which was in the channel. -/
theorem used_cases (h : s.Effect a s') : ∃ i₀ n₀, ∀ i n k, s'.Used i n k →
    s.Used i n k ∨ (i = i₀ ∧ n = n₀) ∧ k ∈ s.queue := by
  have hset {i₀ : ℕ} {reader reader' : CanReader} (hreader : s.readers[i₀]? = some reader)
      (hset : s'.readers = s.readers.set i₀ reader')
      (hnew : ∀ n k, reader'.delivered[n]? = some k → reader.delivered[n]? = some k ∨
        n = reader.delivered.length ∧ k ∈ s.queue) :
      ∃ i₀ n₀, ∀ i n k, s'.Used i n k → s.Used i n k ∨ (i = i₀ ∧ n = n₀) ∧ k ∈ s.queue := by
    refine ⟨i₀, reader.delivered.length, fun i n k ⟨r, hr, hk⟩ => ?_⟩
    rw [hset] at hr
    rcases getElem?_set_cases hr with ⟨rfl, rfl⟩ | ⟨-, hold⟩
    · exact (hnew n k hk).imp (fun hk => ⟨reader, hreader, hk⟩) fun ⟨hn, hq⟩ => ⟨⟨rfl, hn⟩, hq⟩
    · exact .inl ⟨r, hold, hk⟩
  cases h with
  | arrived _ _ _ hreaders _ | kept _ _ hreaders _ =>
      exact ⟨0, 0, fun i n k hk => .inl (by rwa [Used, ← hreaders])⟩
  | began hreader hs _ _ _ _ _ hdelivered _ | changed _ hreader hs _ _ _ _ hdelivered _ =>
      exact hset hreader hs fun n k hk => .inl (hdelivered ▸ hk)
  | took _ _ hreader hqueue _ hs _ _ _ _ hdelivered _ =>
      refine hset hreader hs fun n k hk => ?_
      rw [hdelivered] at hk
      split at hk
      · rcases getElem?_concat_cases hk with ⟨hn, rfl⟩ | ⟨-, hold⟩
        · exact .inr ⟨hn, hqueue ▸ List.mem_cons_self⟩
        · exact .inl hold
      · exact .inl hk

/-- In every run, a frame is used by one node at most, and once. -/
theorem used_once (h : machine.Reaches s) : ∀ i j n m k,
    s.Used i n k → s.Used j m k → i = j ∧ n = m := by
  refine (Machine.ReachesUnder.invariant (I := fun s => (∃ log, s.Sound log) ∧
    ∀ i j n m k, s.Used i n k → s.Used j m k → i = j ∧ n = m) ?_ ?_ h).2
  · intro s hs
    have hs : s.AtRest := hs
    refine ⟨⟨[], hs.sound⟩, fun i j n m k ⟨reader, hreader, hk⟩ => ?_⟩
    rw [(hs.readers_idle reader (List.mem_of_getElem? hreader)).2] at hk
    cases hk
  · rintro s a s' ⟨⟨log, hs⟩, hu⟩ - hstep
    have heffect := step_effect hstep
    refine ⟨⟨_, hs.step heffect⟩, fun i j n m k hi hj => ?_⟩
    obtain ⟨i₀, n₀, hcases⟩ := used_cases heffect
    have hunused : k ∈ s.queue → ∀ i n, ¬ s.Used i n k := fun hk i n ⟨reader, hreader, hused⟩ =>
      hs.undelivered k hk i ⟨reader, hreader, List.mem_of_getElem? hused⟩
    rcases hcases i n k hi with hi | ⟨⟨rfl, rfl⟩, hk⟩
    · rcases hcases j m k hj with hj | ⟨-, hk⟩
      · exact hu i j n m k hi hj
      · exact absurd hi (hunused hk i n)
    · rcases hcases j m k hj with hj | ⟨⟨rfl, rfl⟩, -⟩
      · exact absurd hj (hunused hk j m)
      · exact ⟨rfl, rfl⟩

/-- Of two listeners for a frame, the first uses it. -/
theorem one_listener_uses : ∃ s : CanShared,
    s.Used 0 0 0 ∧ ∀ j m, s.Used j m 0 → 0 = j ∧ 0 = m := by
  have hrun : (machine.replay (fun _ _ => true)
      (idleSession [.listener [(0x123, false)], .listener [(0x123, false)]])
      [.begin 0, .begin 1, .call 0 0, .call 1 0, .lock 0 1, .arrive (emptyFrame 0x123),
        .poll 0 2]).any fun s =>
      (s.readers[0]?).any fun reader => reader.delivered[0]? == some 0 := by decide
  obtain ⟨s, hs, hend⟩ := Machine.exists_reaches_of_replay (idleSession_atRest _) hrun
  obtain ⟨reader, hreader, hk⟩ := (Option.any_eq_true _ _).mp hend
  have hused : s.Used 0 0 0 := ⟨reader, hreader, beq_iff_eq.mp hk⟩
  exact ⟨s, hused, fun j m => used_once hs 0 j 0 m 0 hused⟩

end CanShared

end Nazh
