import Nazh.Graph.Pull
import Nazh.Lib.Machine
import Nazh.Lib.Watch

/-!
# Waiting for a slot

A pull that finds no value in a slot, or one that is too old, may wait for the next one. The
slot is a watch channel together with a receiver; who wants to wait takes a clone of this
receiver. Nobody ever waits on the receiver of the slot itself, so that it has seen nothing,
and a clone of it takes every value that was ever written for a new one.

The pull goes from one look at the slot to the next while other tasks write to it. Time passes
only while nothing can go on: while the pull waits and neither a value nor the end of its
timer is there, and after the pull.
-/

namespace Nazh

open Lib

/-! ## The slot -/

/-- A watch channel and the receiver that subscribers clone. -/
structure Slot where
  tx : Watch (Option CachedOutput)
  rx : Watch.Receiver

namespace Slot

/-- The slot that `prepare_slot` makes. -/
def new : Slot := ⟨(Watch.channel none).1, (Watch.channel (none : Option CachedOutput)).2⟩

def write (slot : Slot) (output : CachedOutput) : Slot := { slot with tx := slot.tx.send (some output) }

/-- The value of the slot, if it is not too old. -/
def read (slot : Slot) (ttlMs : Option ℕ) (now : ℤ) : Option CachedOutput :=
  slot.tx.value.bind fun cached => if cached.isExpired now ttlMs then none else some cached

/-- A clone of the receiver. -/
def subscribe (slot : Slot) : Watch.Receiver := slot.rx

/-- The slot after a series of writes. -/
def after (history : List CachedOutput) : Slot := history.foldl write new

variable {slot : Slot} {ttlMs : Option ℕ} {now : ℤ} {cached output : CachedOutput}

theorem read_eq_some :
    slot.read ttlMs now = some cached ↔
      slot.tx.value = some cached ∧ cached.isExpired now ttlMs = false := by
  simp only [read, Option.bind_eq_some_iff, Option.ite_none_left_eq_some, Option.some.injEq,
    Bool.not_eq_true]
  constructor
  · rintro ⟨c, hvalue, hfresh, rfl⟩
    exact ⟨hvalue, hfresh⟩
  · rintro ⟨hvalue, hfresh⟩
    exact ⟨cached, hvalue, hfresh, rfl⟩

theorem tx_after (history : List CachedOutput) :
    (after history).tx = (history.map some).foldl Watch.send (Watch.channel none).1 := by
  have h : ∀ s : Slot, (history.foldl write s).tx = (history.map some).foldl Watch.send s.tx := by
    induction history with
    | nil => exact fun s => rfl
    | cons output history ih => exact fun s => ih (s.write output)
  exact h new

@[simp] theorem value_after (history : List CachedOutput) :
    (after history).tx.value = history.getLast? := by
  rw [tx_after, Watch.value_foldl_send]
  cases h : history.getLast? <;> simp [h, Watch.channel]

@[simp] theorem version_after (history : List CachedOutput) :
    (after history).tx.version = history.length := by
  simp [tx_after, Watch.version_foldl_send, Watch.channel]

@[simp] theorem seen_after (history : List CachedOutput) : (after history).rx.seen = 0 := by
  have h : ∀ s : Slot, (history.foldl write s).rx = s.rx := by
    induction history with
    | nil => exact fun s => rfl
    | cons output history ih => exact fun s => ih (s.write output)
  exact congrArg Watch.Receiver.seen (h new)

end Slot

/-! ## The pull -/

/-- A pull of an output that is not pure-form, with `BlockUntilReady`. -/
structure BlockingPull where
  upstreamNodeId : String
  upstreamOutputPinId : String
  ttlMs : Option ℕ
  blockTimeoutMs : Option ℕ
  /-- When it is called, in nanoseconds. -/
  calledAt : ℤ

namespace BlockingPull

/-- Where a pull is. -/
inductive Phase
  /-- About to read the slot. -/
  | reading
  /-- About to clone the receiver. -/
  | subscribing
  /-- About to look at the value of the channel. -/
  | borrowing (rx : Watch.Receiver)
  /-- In the `select!`, with the end of the timer. -/
  | waiting (rx : Watch.Receiver) (deadline : ℤ)
  /-- `changed` has completed. -/
  | woken
  /-- The timer has ended. -/
  | elapsed
  | returned (answer : Except EngineError Value) (returnedAt : ℤ)

/-- A pull, its slot, and what was written to it between call and return. -/
structure State where
  now : ℤ
  slot : Slot
  phase : Phase
  writes : List (ℤ × CachedOutput)

inductive Action
  /-- Somebody writes to the slot. -/
  | write (output : CachedOutput)
  | tick (δ : ℕ)
  /-- The pull goes on outside of the `select!`. -/
  | proceed
  /-- The `select!` takes the branch of `changed`. -/
  | wake
  /-- The `select!` takes the branch of the timer. -/
  | timeUp

variable (pull : BlockingPull)

def timeoutMs : ℕ := pull.blockTimeoutMs.getD defaultBlockTimeoutMs

/-- When the timer ends that starts at a time. -/
def deadline (start : ℤ) : ℤ := start + pull.timeoutMs * 1000000

def empty : EngineError := .dataPinCacheEmpty pull.upstreamNodeId pull.upstreamOutputPinId

def timedOut : EngineError :=
  .dataPinPullTimeout pull.upstreamNodeId pull.upstreamOutputPinId pull.timeoutMs

/-- The answer that is made of a value taken after `changed`. -/
def answerChanged (snapshot : Option CachedOutput) (now : ℤ) : Except EngineError Value :=
  match snapshot with
  | none => .error pull.empty
  | some cached => if cached.isExpired now pull.ttlMs then .error pull.timedOut else .ok cached.value

/-- What the pull does next outside of the `select!`. -/
def proceed (s : State) : Option Phase :=
  match s.phase with
  | .reading =>
      match s.slot.read pull.ttlMs s.now with
      | some cached => some (.returned (.ok cached.value) s.now)
      | none => some .subscribing
  | .subscribing => some (.borrowing s.slot.subscribe)
  | .borrowing rx =>
      match s.slot.read pull.ttlMs s.now with
      | some cached => some (.returned (.ok cached.value) s.now)
      | none => some (.waiting rx (pull.deadline s.now))
  | .woken => some (.returned (pull.answerChanged s.slot.tx.value s.now) s.now)
  | .elapsed =>
      let last := (s.slot.read pull.ttlMs s.now).map CachedOutput.value
      some (.returned (okOr last pull.timedOut) s.now)
  | .waiting _ _ => none
  | .returned _ _ => none

def Phase.isReturned : Phase → Bool
  | .returned _ _ => true
  | _ => false

/-- Whether nothing can go on for so long. -/
def State.isIdle (s : State) (δ : ℕ) : Bool :=
  match s.phase with
  | .waiting rx deadline => !s.slot.tx.hasChanged rx && decide (s.now + δ ≤ deadline)
  | .returned _ _ => true
  | _ => false

def step (s : State) : Action → Option State
  | .write output =>
      let writes := if s.phase.isReturned then s.writes else s.writes ++ [(s.now, output)]
      some { s with slot := s.slot.write output, writes }
  | .tick δ => if s.isIdle δ then some { s with now := s.now + δ } else none
  | .proceed => (pull.proceed s).map fun phase => { s with phase }
  | .wake =>
      match s.phase with
      | .waiting rx _ => (s.slot.tx.changed rx).map fun _ => { s with phase := .woken }
      | _ => none
  | .timeUp =>
      match s.phase with
      | .waiting _ deadline => if deadline ≤ s.now then some { s with phase := .elapsed } else none
      | _ => none

/-- The call, after a history of writes. -/
def start (history : List CachedOutput) : State :=
  ⟨pull.calledAt, .after history, .reading, []⟩

def machine (history : List CachedOutput) : Machine State Action where
  init s := s = pull.start history
  step := pull.step

/-! ## The pull goes on -/

variable {pull} {history : List CachedOutput} {s s' : State} {a : Action}

/-- How many steps of its own a pull may still make. -/
def Phase.rank : Phase → ℕ
  | .reading => 5
  | .subscribing => 4
  | .borrowing _ => 3
  | .waiting _ _ => 2
  | .woken => 1
  | .elapsed => 1
  | .returned _ _ => 0

/-- The steps of the pull itself. -/
def Action.isOwn : Action → Bool
  | .write _ => false
  | .tick _ => false
  | _ => true

/-- Every step of its own brings a pull nearer to its return. -/
theorem rank_lt (hown : a.isOwn = true) (hs : pull.step s a = some s') :
    s'.phase.rank < s.phase.rank := by
  cases a with
  | write output => cases hown
  | tick δ => cases hown
  | proceed =>
      obtain ⟨next, hnext, rfl⟩ := Option.map_eq_some_iff.mp hs
      unfold BlockingPull.proceed at hnext
      split at hnext
      all_goals rename_i hp
      · split at hnext <;> cases hnext <;> simp [hp, Phase.rank]
      · cases hnext
        simp [hp, Phase.rank]
      · split at hnext <;> cases hnext <;> simp [hp, Phase.rank]
      · cases hnext
        simp [hp, Phase.rank]
      · cases hnext
        simp [hp, Phase.rank]
      · cases hnext
      · cases hnext
  | wake =>
      simp only [BlockingPull.step] at hs
      split at hs
      · rename_i rx deadline hp
        obtain ⟨rx', hrx, rfl⟩ := Option.map_eq_some_iff.mp hs
        simp [hp, Phase.rank]
      · cases hs
  | timeUp =>
      simp only [BlockingPull.step] at hs
      split at hs
      · rename_i rx deadline hp
        simp only [Option.ite_none_right_eq_some, Option.some.injEq] at hs
        obtain ⟨hle, rfl⟩ := hs
        simp [hp, Phase.rank]
      · cases hs

variable (pull) in
/-- A step of its own is there, at once or when the timer ends. -/
def GoesOn (s : State) : Prop :=
  (∃ a s', a.isOwn = true ∧ pull.step s a = some s') ∨
    ∃ δ s' s'', pull.step s (.tick δ) = some s' ∧ pull.step s' .timeUp = some s''

/-- A pull that has not returned takes a step. -/
theorem goes_on (hpending : s.phase.isReturned = false) : pull.GoesOn s := by
  cases hp : s.phase with
  | waiting rx deadline =>
      by_cases hchanged : s.slot.tx.hasChanged rx = true
      · exact .inl ⟨.wake, { s with phase := .woken }, rfl, by
          simp [BlockingPull.step, hp, Watch.changed, hchanged]⟩
      · by_cases hle : deadline ≤ s.now
        · exact .inl ⟨.timeUp, { s with phase := .elapsed }, rfl, by simp [BlockingPull.step, hp, hle]⟩
        · have hidle : s.isIdle (deadline - s.now).toNat = true := by
            simp only [State.isIdle, hp, Bool.and_eq_true, Bool.not_eq_true', decide_eq_true_iff]
            refine ⟨eq_false_of_ne_true hchanged, ?_⟩
            omega
          have hreached : deadline ≤ s.now + (deadline - s.now).toNat := by omega
          refine .inr ⟨(deadline - s.now).toNat, { s with now := s.now + (deadline - s.now).toNat },
            { s with now := s.now + (deadline - s.now).toNat, phase := .elapsed }, ?_, ?_⟩
          · rw [BlockingPull.step, if_pos hidle]
          · simp only [BlockingPull.step, hp]
            rw [if_pos hreached]
  | returned answer t => simp [hp, Phase.isReturned] at hpending
  | _ =>
      left
      refine ⟨.proceed, ?_⟩
      simp only [Action.isOwn, BlockingPull.step, BlockingPull.proceed, hp, true_and]
      first
        | exact ⟨_, rfl⟩
        | split <;> exact ⟨_, rfl⟩

/-- Writes and time leave the pull where it is. -/
theorem phase_eq_of_not_own (hown : a.isOwn = false) (hs : pull.step s a = some s') :
    s'.phase = s.phase := by
  cases a with
  | write output =>
      cases hs
      rfl
  | tick δ =>
      simp only [step, Option.ite_none_right_eq_some, Option.some.injEq] at hs
      obtain ⟨-, rfl⟩ := hs
      rfl
  | _ => cases hown

/-- Every run brings a pull nearer to its return, by a step of its own each. -/
theorem countP_isOwn_le {acts : List Action}
    (h : (pull.machine history).replay (fun _ _ => true) s acts = some s') :
    acts.countP Action.isOwn + s'.phase.rank ≤ s.phase.rank := by
  induction acts generalizing s with
  | nil =>
      obtain rfl := Option.some.inj h
      simp
  | cons a acts ih =>
      obtain ⟨s₁, hstep, hrest⟩ := Option.bind_eq_some_iff.mp h
      have hle := ih hrest
      cases hown : a.isOwn with
      | true =>
          have hlt := rank_lt hown hstep
          rw [List.countP_cons_of_pos hown]
          omega
      | false =>
          rw [List.countP_cons_of_neg (by simp [hown]), ← phase_eq_of_not_own hown hstep]
          exact hle

/-- Whatever is written meanwhile, a pull makes five steps at most, and goes on until it returns. -/
theorem returns_within_five {acts : List Action}
    (h : (pull.machine history).replay (fun _ _ => true) (pull.start history) acts = some s) :
    acts.countP Action.isOwn + s.phase.rank ≤ 5 ∧ (s.phase.isReturned = false → pull.GoesOn s) :=
  ⟨countP_isOwn_le h, goes_on⟩

/-- Nobody writes, and there is no time to wait. -/
theorem unwritten_returns_within_five :
    let pull : BlockingPull := ⟨"sensor", "out", none, some 0, 0⟩
    let acts : List Action := [.proceed, .proceed, .proceed, .timeUp, .proceed]
    ∃ s, (pull.machine []).replay (fun _ _ => true) (pull.start []) acts = some s ∧
      acts.countP Action.isOwn + s.phase.rank ≤ 5 := by
  intro pull acts
  have hrun : ((pull.machine []).replay (fun _ _ => true) (pull.start []) acts).isSome = true := by
    decide +kernel
  obtain ⟨s, hs⟩ := Option.isSome_iff_exists.mp hrun
  exact ⟨s, hs, (returns_within_five hs).1⟩

/-! ## What is owed -/

variable (pull) in
/-- What is written is not too old while the pull waits for it. -/
def Fresh (s : State) : Action → Prop
  | .write output => s.phase.isReturned = false → output.isExpired s.now pull.ttlMs = false
  | _ => True

variable (pull) in
/-- The slot holds no value that is too old, or there is no time to wait. -/
def Supplied (history : List CachedOutput) : Prop :=
  pull.timeoutMs = 0 ∨
    ∀ cached ∈ history.getLast?, cached.isExpired pull.calledAt pull.ttlMs = false

variable (pull) in
/-- A value that was written and is not too old; or an error once the time is over and nothing
was written that would have done. -/
structure Fulfilled (history : List CachedOutput) (s : State) : Prop where
  ok : ∀ v t, s.phase = .returned (.ok v) t →
    ∃ cached ∈ history ++ s.writes.map Prod.snd,
      cached.value = v ∧ cached.isExpired t pull.ttlMs = false
  error : ∀ e t, s.phase = .returned (.error e) t →
    e = pull.timedOut ∧ pull.deadline pull.calledAt ≤ t ∧
      ∀ w ∈ s.writes, w.2.isExpired w.1 pull.ttlMs = true
  pending : s.phase.isReturned = false → s.now ≤ pull.deadline pull.calledAt ∧ pull.GoesOn s

/-! ## The pull keeps its word -/

variable (pull) in
/-- What each phase knows. Of the waiting pull: its receiver has seen nothing. -/
def AtPhase (history : List CachedOutput) (s : State) : Phase → Prop
  | .reading => s.now = pull.calledAt
  | .subscribing => s.now = pull.calledAt
  | .borrowing rx => s.now = pull.calledAt ∧ rx.seen = 0
  | .waiting rx deadline =>
      deadline = pull.deadline pull.calledAt ∧ s.now ≤ deadline ∧ rx.seen = 0
  | .woken => s.now ≤ pull.deadline pull.calledAt ∧ s.slot.tx.version ≠ 0
  | .elapsed => s.now = pull.deadline pull.calledAt
  | .returned (.ok v) t =>
      ∃ cached ∈ history ++ s.writes.map Prod.snd,
        cached.value = v ∧ cached.isExpired t pull.ttlMs = false
  | .returned (.error e) t => e = pull.timedOut ∧ pull.deadline pull.calledAt ≤ t ∧ s.writes = []

variable (pull) in
/-- What holds while the pull waits: a slot that was written to holds a value that is not too old,
unless there is no time to wait and nothing was written since the call. -/
structure Waiting (history : List CachedOutput) (s : State) : Prop where
  seen : s.slot.rx.seen = 0
  blank : s.slot.tx.version = 0 ↔ s.slot.tx.value = none
  unwritten : s.slot.tx.version = 0 → s.writes = []
  held : ∀ cached ∈ s.slot.tx.value, cached ∈ history ++ s.writes.map Prod.snd
  called : pull.calledAt ≤ s.now
  supplied : pull.timeoutMs = 0 ∨ s.slot.tx.version = 0 ∨
    (s.slot.read pull.ttlMs s.now).isSome
  fresh : s.writes ≠ [] → (s.slot.read pull.ttlMs s.now).isSome

variable (pull) in
/-- The invariant. -/
structure Waits (history : List CachedOutput) (s : State) : Prop where
  waiting : s.phase.isReturned = false → pull.Waiting history s
  phase : pull.AtPhase history s s.phase

theorem le_deadline (t : ℤ) : t ≤ pull.deadline t := by
  unfold deadline
  omega

theorem deadline_of_zero (h : pull.timeoutMs = 0) (t : ℤ) : pull.deadline t = t := by
  simp [deadline, h]

theorem lt_deadline (h : pull.timeoutMs ≠ 0) (t : ℤ) : t < pull.deadline t := by
  unfold deadline
  omega

theorem Waiting.start (h : pull.Supplied history) : pull.Waiting history (pull.start history) where
  seen := Slot.seen_after history
  blank := by simp [BlockingPull.start]
  unwritten _ := rfl
  held cached hcached := by
    simp only [BlockingPull.start, Slot.value_after] at hcached
    exact List.mem_append_left _ (List.mem_of_getLast? hcached)
  called := le_refl _
  supplied := by
    refine h.imp id fun hfresh => ?_
    cases hlast : history.getLast? with
    | none =>
        left
        simp [BlockingPull.start, List.getLast?_eq_none_iff.mp hlast]
    | some cached =>
        right
        have hread : (Slot.after history).read pull.ttlMs pull.calledAt = some cached :=
          Slot.read_eq_some.mpr ⟨by rw [Slot.value_after, hlast], hfresh cached hlast⟩
        exact Option.isSome_of_eq_some hread
  fresh hwrites := absurd rfl hwrites

/-- The value that is read is one that was written. -/
theorem Waiting.held_of_read {cached : CachedOutput} (h : pull.Waiting history s)
    (hread : s.slot.read pull.ttlMs s.now = some cached) :
    ∃ c ∈ history ++ s.writes.map Prod.snd,
      c.value = cached.value ∧ c.isExpired s.now pull.ttlMs = false := by
  obtain ⟨hvalue, hfresh⟩ := Slot.read_eq_some.mp hread
  exact ⟨cached, h.held cached hvalue, rfl, hfresh⟩

/-- Nothing was written during the wait to a slot without such a value. -/
theorem Waiting.writes_eq_nil (h : pull.Waiting history s)
    (hread : s.slot.read pull.ttlMs s.now = none) : s.writes = [] := by
  by_contra hwrites
  simpa [hread] using h.fresh hwrites

/-- The facts about the slot do not depend on the phase. -/
theorem Waiting.withPhase (h : pull.Waiting history s) (phase : Phase) :
    pull.Waiting history { s with phase } :=
  ⟨h.seen, h.blank, h.unwritten, h.held, h.called, h.supplied, h.fresh⟩

/-- A write of a value that is not too old supplies the slot. -/
theorem Waiting.write {output : CachedOutput} (h : pull.Waiting history s)
    (hfresh : output.isExpired s.now pull.ttlMs = false) :
    pull.Waiting history
      { s with slot := s.slot.write output, writes := s.writes ++ [(s.now, output)] } := by
  have hread : ((s.slot.write output).read pull.ttlMs s.now).isSome :=
    Option.isSome_of_eq_some (Slot.read_eq_some.mpr ⟨rfl, hfresh⟩)
  refine ⟨h.seen, ?_, ?_, ?_, h.called, .inr (.inr hread), fun _ => hread⟩
  · simp [Slot.write]
  · simp [Slot.write]
  · intro cached hcached
    obtain rfl : output = cached := Option.some.inj hcached
    simp

/-- Time passes only over a slot that was never written to. -/
theorem Waiting.tick {rx : Watch.Receiver} (h : pull.Waiting history s) (hseen : rx.seen = 0)
    (hunchanged : s.slot.tx.hasChanged rx = false) (δ : ℕ) :
    pull.Waiting history { s with now := s.now + δ } := by
  have hversion := Watch.version_eq_zero_of_unchanged hseen hunchanged
  have hcalled := h.called
  refine ⟨h.seen, h.blank, h.unwritten, h.held, ?_, .inr (.inl hversion), fun hwrites => ?_⟩
  · simp only
    omega
  · exact absurd (h.unwritten hversion) hwrites

/-- A write leaves the phase as it is. -/
theorem AtPhase.write {output : CachedOutput} {phase : Phase}
    (h : pull.AtPhase history s phase) (hpending : phase.isReturned = false)
    (writes : List (ℤ × CachedOutput)) :
    pull.AtPhase history { s with slot := s.slot.write output, writes } phase := by
  cases phase with
  | woken => exact ⟨h.1, Nat.succ_ne_zero _⟩
  | returned => cases hpending
  | _ => exact h

theorem Waits.write {output : CachedOutput} (h : pull.Waits history s)
    (hfresh : pull.Fresh s (.write output)) (hs : pull.step s (.write output) = some s') :
    pull.Waits history s' := by
  obtain rfl := Option.some.inj hs
  cases hpending : s.phase.isReturned with
  | false =>
      refine ⟨fun _ => ?_, ?_⟩
      · simpa [hpending] using (h.waiting hpending).write (hfresh hpending)
      · exact h.phase.write hpending _
  | true =>
      refine ⟨fun hp => absurd hp (by simp [hpending]), ?_⟩
      have hphase := h.phase
      cases heq : s.phase with
      | returned answer t =>
          rw [heq] at hphase
          cases answer <;> simpa [heq, AtPhase, Phase.isReturned] using hphase
      | _ => simp [heq, Phase.isReturned] at hpending

theorem Waits.tick {δ : ℕ} (h : pull.Waits history s) (hs : pull.step s (.tick δ) = some s') :
    pull.Waits history s' := by
  simp only [step, Option.ite_none_right_eq_some, Option.some.injEq] at hs
  obtain ⟨hidle, rfl⟩ := hs
  obtain ⟨now, slot, phase, writes⟩ := s
  have hphase := h.phase
  cases phase with
  | waiting rx deadline =>
      simp only [State.isIdle, Bool.and_eq_true, Bool.not_eq_true', decide_eq_true_iff] at hidle
      refine ⟨fun _ => (h.waiting rfl).tick hphase.2.2 hidle.1 δ, ?_⟩
      exact ⟨hphase.1, hidle.2, hphase.2.2⟩
  | returned answer t =>
      refine ⟨fun hp => absurd hp Bool.true_eq_false.mp, ?_⟩
      cases answer <;> exact hphase
  | _ => simp [State.isIdle] at hidle

/-- The answer after `changed` is a value, or an error when there is no time to wait. -/
theorem Waiting.answerChanged (h : pull.Waiting history s)
    (hphase : pull.AtPhase history s .woken) :
    pull.AtPhase history s (.returned (pull.answerChanged s.slot.tx.value s.now) s.now) := by
  cases hvalue : s.slot.tx.value with
  | none => exact absurd (h.blank.mpr hvalue) hphase.2
  | some cached =>
      simp only [BlockingPull.answerChanged]
      split
      · rename_i hexpired
        have hread : s.slot.read pull.ttlMs s.now = none := by
          simp [Slot.read, hvalue, hexpired]
        have hzero : pull.timeoutMs = 0 := by
          simpa [hread, hphase.2] using h.supplied
        refine ⟨rfl, ?_, h.writes_eq_nil hread⟩
        rw [deadline_of_zero hzero]
        exact h.called
      · rename_i hfresh
        exact h.held_of_read (Slot.read_eq_some.mpr ⟨hvalue, eq_false_of_ne_true hfresh⟩)

/-- Of a value that is not too old the pull may return. -/
theorem Waiting.returnRead {cached : CachedOutput} (h : pull.Waiting history s)
    (hread : s.slot.read pull.ttlMs s.now = some cached) :
    pull.AtPhase history s (.returned (.ok cached.value) s.now) :=
  h.held_of_read hread

theorem Waits.proceed (h : pull.Waits history s) (hs : pull.step s .proceed = some s') :
    pull.Waits history s' := by
  obtain ⟨next, hnext, rfl⟩ := Option.map_eq_some_iff.mp hs
  have hpending : s.phase.isReturned = false := by
    cases hp : s.phase <;> simp_all [BlockingPull.proceed, Phase.isReturned]
  have hwaiting := h.waiting hpending
  refine ⟨fun _ => hwaiting.withPhase next, ?_⟩
  suffices hnextAt : pull.AtPhase history s next by
    cases next with
    | returned answer t => cases answer <;> exact hnextAt
    | _ => exact hnextAt
  have hphase := h.phase
  unfold BlockingPull.proceed at hnext
  split at hnext
  · rename_i hp
    rw [hp] at hphase
    split at hnext <;> cases hnext
    · rename_i cached hread
      exact hwaiting.returnRead hread
    · exact hphase
  · rename_i hp
    rw [hp] at hphase
    cases hnext
    exact ⟨hphase, hwaiting.seen⟩
  · rename_i rx hp
    rw [hp] at hphase
    split at hnext <;> cases hnext
    · rename_i cached hread
      exact hwaiting.returnRead hread
    · refine ⟨by rw [hphase.1], le_deadline s.now, hphase.2⟩
  · rename_i hp
    rw [hp] at hphase
    cases hnext
    exact hwaiting.answerChanged hphase
  · rename_i hp
    rw [hp] at hphase
    cases hnext
    cases hread : s.slot.read pull.ttlMs s.now with
    | none => exact ⟨rfl, hphase.ge, hwaiting.writes_eq_nil hread⟩
    | some cached => exact hwaiting.returnRead hread
  · cases hnext
  · cases hnext

theorem Waits.wake (h : pull.Waits history s) (hs : pull.step s .wake = some s') :
    pull.Waits history s' := by
  simp only [step] at hs
  split at hs
  · rename_i rx deadline hp
    obtain ⟨rx', hrx, rfl⟩ := Option.map_eq_some_iff.mp hs
    have hphase := h.phase
    rw [hp] at hphase
    have hne := Watch.hasChanged_iff.mp (Watch.changed_eq_some hrx).1
    refine ⟨fun _ => (h.waiting (by rw [hp]; rfl)).withPhase .woken, ?_, ?_⟩
    · exact hphase.1 ▸ hphase.2.1
    · exact hphase.2.2 ▸ hne.symm
  · cases hs

theorem Waits.timeUp (h : pull.Waits history s) (hs : pull.step s .timeUp = some s') :
    pull.Waits history s' := by
  simp only [step] at hs
  split at hs
  · rename_i rx deadline hp
    simp only [Option.ite_none_right_eq_some, Option.some.injEq] at hs
    obtain ⟨hle, rfl⟩ := hs
    have hphase := h.phase
    rw [hp] at hphase
    refine ⟨fun _ => (h.waiting (by rw [hp]; rfl)).withPhase .elapsed, ?_⟩
    exact le_antisymm (hphase.1 ▸ hphase.2.1) (hphase.1 ▸ hle)
  · cases hs

/-- Every step keeps the invariant. -/
theorem Waits.step (h : pull.Waits history s) (hfresh : pull.Fresh s a)
    (hs : pull.step s a = some s') : pull.Waits history s' := by
  cases a with
  | write output => exact h.write hfresh hs
  | tick δ => exact h.tick hs
  | proceed => exact h.proceed hs
  | wake => exact h.wake hs
  | timeUp => exact h.timeUp hs

/-- What the invariant says of a pull that waits or has returned. -/
theorem Waits.fulfilled (h : pull.Waits history s) : pull.Fulfilled history s := by
  have hphase := h.phase
  refine ⟨fun v t hp => ?_, fun e t hp => ?_, fun hpending => ?_⟩
  · rw [hp] at hphase
    exact hphase
  · rw [hp] at hphase
    refine ⟨hphase.1, hphase.2.1, ?_⟩
    rw [hphase.2.2]
    exact List.forall_mem_nil _
  · refine ⟨?_, goes_on hpending⟩
    have hstart : pull.calledAt ≤ pull.deadline pull.calledAt := le_deadline _
    cases hp : s.phase with
    | reading =>
        rw [hp] at hphase
        exact hphase.trans_le hstart
    | subscribing =>
        rw [hp] at hphase
        exact hphase.trans_le hstart
    | borrowing rx =>
        rw [hp] at hphase
        exact hphase.1.trans_le hstart
    | waiting rx deadline =>
        rw [hp] at hphase
        exact hphase.1 ▸ hphase.2.1
    | woken =>
        rw [hp] at hphase
        exact hphase.1
    | elapsed =>
        rw [hp] at hphase
        exact hphase.le
    | returned answer t => simp [hp, Phase.isReturned] at hpending

/-! ## A value that is too old -/

/-- A pull that finds a value that is too old returns an error at once, however long it was to
wait. -/
theorem exists_returned_at_once (h : ¬ pull.Supplied history) :
    ∃ s, (pull.machine history).ReachesUnder pull.Fresh s ∧
      s.phase = .returned (.error pull.timedOut) pull.calledAt := by
  have hstale := (not_or.mp h).2
  push Not at hstale
  obtain ⟨cached, hlast, hexpired⟩ := hstale
  replace hexpired := eq_true_of_ne_false hexpired
  replace hlast : history.getLast? = some cached := hlast
  have hvalue : (Slot.after history).tx.value = some cached := by rw [Slot.value_after, hlast]
  have hread : (Slot.after history).read pull.ttlMs pull.calledAt = none := by
    simp only [Slot.read, hvalue, Option.bind_some, hexpired, if_true]
  have hlength : history.length ≠ 0 := by
    rintro hzero
    simp [List.length_eq_zero_iff.mp hzero] at hlast
  -- nobody has marked the value as seen
  have hchanged : (Slot.after history).tx.hasChanged (Slot.after history).rx = true := by
    rw [Watch.hasChanged_iff, Slot.seen_after, Slot.version_after]
    exact hlength.symm
  let at_ (phase : Phase) : State := ⟨pull.calledAt, .after history, phase, []⟩
  have hgo {phase : Phase} (next : Phase) (a : Action) (hown : a.isOwn = true)
      (hr : (pull.machine history).ReachesUnder pull.Fresh (at_ phase))
      (hs : pull.step (at_ phase) a = some (at_ next)) :
      (pull.machine history).ReachesUnder pull.Fresh (at_ next) := by
    refine .next hr ?_ hs
    cases a with
    | write output => cases hown
    | _ => trivial
  have hreading : (pull.machine history).ReachesUnder pull.Fresh (at_ .reading) := .start rfl
  have hsubscribing := hgo .subscribing .proceed rfl hreading (by
    simp [BlockingPull.step, BlockingPull.proceed, at_, hread])
  have hborrowing := hgo (.borrowing (Slot.after history).rx) .proceed rfl hsubscribing rfl
  have hwaiting := hgo (.waiting (Slot.after history).rx (pull.deadline pull.calledAt))
    .proceed rfl hborrowing (by simp [BlockingPull.step, BlockingPull.proceed, at_, hread])
  have hwoken := hgo .woken .wake rfl hwaiting (by
    simp [BlockingPull.step, at_, Watch.changed, hchanged])
  refine ⟨_, hgo (.returned (.error pull.timedOut) pull.calledAt) .proceed rfl hwoken ?_, rfl⟩
  simp [BlockingPull.step, BlockingPull.proceed, at_, answerChanged, hlast, hexpired]

/-- What the pull owes is paid exactly when the slot holds no value that is too old, or there is
no time to wait. -/
theorem fulfilled_iff (pull : BlockingPull) (history : List CachedOutput) :
    (∀ s, (pull.machine history).ReachesUnder pull.Fresh s → pull.Fulfilled history s) ↔
      pull.Supplied history := by
  constructor
  · intro hall
    by_contra h
    obtain ⟨s, hs, hp⟩ := exists_returned_at_once h
    have hlate := ((hall s hs).error _ _ hp).2.1
    have hearly : pull.calledAt < pull.deadline pull.calledAt :=
      lt_deadline (fun hzero => h (.inl hzero)) _
    omega
  · intro h s hs
    refine (hs.invariant (I := pull.Waits history) ?_ ?_).fulfilled
    · rintro s rfl
      exact ⟨fun _ => .start h, rfl⟩
    · intro s a s' hwaits hfresh hstep
      exact hwaits.step hfresh hstep

/-- A value that was produced two seconds before the call may be ten milliseconds old: the pull
gives up at once, and does not wait the five seconds it has. -/
theorem gives_up_at_once :
    let pull : BlockingPull := ⟨"sensor", "out", some 10, some 5000, 2000000000⟩
    ∃ s, (pull.machine [⟨.null, 0, 0⟩]).ReachesUnder pull.Fresh s ∧
      s.phase = .returned (.error (.dataPinPullTimeout "sensor" "out" 5000)) 2000000000 ∧
      ¬ pull.Fulfilled [⟨.null, 0, 0⟩] s := by
  intro pull
  have hstale : ¬ pull.Supplied [⟨.null, 0, 0⟩] := by
    rintro (hzero | hfresh)
    · exact absurd hzero (by decide)
    · exact absurd (hfresh _ rfl) (by decide)
  obtain ⟨s, hs, hp⟩ := exists_returned_at_once hstale
  refine ⟨s, hs, hp, fun h => ?_⟩
  exact absurd (h.error _ _ hp).2.1 (by decide)

end BlockingPull
end Nazh
