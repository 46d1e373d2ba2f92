import Nazh.Connections.Flags
import Nazh.Connections.Lease
import Nazh.Io.Listeners
import Nazh.Lib.Lists

/-!
# How a subscription ends

A subscription keeps its lease for as long as it listens, and the guard is released by the same
rules as any other: a lease that was longer than an operation may be is a timeout, however it was
marked, and a failure that was recorded is counted again if the record no longer shows it.

The flag of the record is another matter. It is set only while some guard is alive.
-/

namespace Nazh

open Lib RecordChange

/-! ## What is lent -/

section Flags

variable {Phase Event : Type} {parseUrl : UrlParser} {loop : ListenLoop Phase Event}
  {s s' : Listening Phase} {a : ListenAction Event}

/-- The record that a task holds. -/
def ListenPc.holds : ListenPc Phase → Option ℕ
  | .leased guard _ _ => some guard.record
  | .running _ held _ _ _ => held.map fun (guard, _) => guard.record
  | .resting | .asking _ | .returned => none

/-- Every record that is lent is held, by the task or by a guard of somebody else. -/
def Listening.FlagsHeld (s : Listening Phase) : Prop :=
  ∀ h r, s.timed.pool.heap[h]? = some r → r.inUse = true →
    s.timed.pool.Guarded h ∨ s.pc.holds = some h

namespace Listening

theorem holds_goOn (s : Listening Phase) (turn : ListenTurn)
    (held : Option (ConnectionGuard × Phase)) (todo : List ListenCommand)
    (changes : List RecordChange) :
    (s.goOn turn held todo changes).pc.holds = held.map fun (guard, _) => guard.record := by
  rw [goOn.eq_def]
  split
  · split
    · rfl
    · split <;> rfl
  · rfl

theorem pool_goOn (s : Listening Phase) (turn : ListenTurn)
    (held : Option (ConnectionGuard × Phase)) (todo : List ListenCommand)
    (changes : List RecordChange) : (s.goOn turn held todo changes).timed = s.timed := by
  cases todo with
  | nil => rfl
  | cons command rest => rfl

theorem heap_write (s : Listening Phase) (h : ℕ) (record : ConnectionRecord) (now : ℤ) :
    (s.write h record now).timed.pool.heap = s.timed.pool.heap.set h record := rfl

/-- What is lent is held for as long as the pool and the task hold the same. -/
theorem FlagsHeld.of_eq (hs : s.FlagsHeld) (htimed : s'.timed = s.timed)
    (hholds : s'.pc.holds = s.pc.holds) : s'.FlagsHeld := by
  rw [FlagsHeld, htimed, hholds]
  exact hs

/-- A record is written: it is not lent unless it was, or the task holds it now. -/
theorem FlagsHeld.set {h : ℕ} {record : ConnectionRecord} (hs : s.FlagsHeld)
    (hheap : s'.timed.pool.heap = s.timed.pool.heap.set h record)
    (hguards : s'.timed.pool.guards = s.timed.pool.guards)
    (hother : ∀ k, k ≠ h → s.pc.holds = some k → s'.pc.holds = some k)
    (hrecord : record.inUse = true → s.timed.pool.Guarded h ∨ s'.pc.holds = some h) :
    s'.FlagsHeld := by
  intro k r hr huse
  have hsame : s'.timed.pool.Guarded k ↔ s.timed.pool.Guarded k := by
    rw [Pool.Guarded, Pool.Guarded, hguards]
  rw [hheap] at hr
  rw [hsame]
  rcases getElem?_set_cases hr with ⟨hk, rfl⟩ | ⟨hk, hold⟩
  · subst hk
    exact hrecord huse
  · rcases hs k r hold huse with hguarded | hholds
    · exact .inl hguarded
    · exact .inr (hother k hk hholds)

/-- A step lends nothing without a guard, and gives up no guard without clearing the flag. -/
theorem FlagsHeld.step (hs : s.FlagsHeld) (h : s.step parseUrl loop a = some s') :
    s'.FlagsHeld := by
  cases step_moves h with
  | others htimed =>
      obtain ⟨hpool, -⟩ := TimedPool.step_eq_some.mp htimed
      intro h r hr huse
      rcases Pool.guarded_of_step hpool hr huse with hguarded | ⟨hguards, r₀, hr₀, huse₀⟩
      · exact .inl hguarded
      · rcases hs h r₀ hr₀ huse₀ with hguarded | hholds
        · exact .inl (hguards hguarded)
        · exact .inr hholds
  | cancel => exact hs.of_eq rfl rfl
  | leave hpc => exact hs.of_eq rfl (by rw [hpc]; rfl)
  | asks hpc _ => exact hs.of_eq rfl (by rw [hpc]; rfl)
  | unknown hpc _ =>
      refine hs.of_eq (pool_goOn _ _ _ _ _) ?_
      rw [holds_goOn, hpc]
      rfl
  | finds hpc _ => exact hs.of_eq rfl (by rw [hpc]; rfl)
  | misses hpc _ =>
      refine hs.of_eq (pool_goOn _ _ _ _ _) ?_
      rw [holds_goOn, hpc]
      rfl
  | acquires hpc hrecord _ =>
      obtain ⟨s₁, -, -, hheap, hguards, -, hcases⟩ := acquireAt_cases parseUrl loop s _ _ _
      rcases hcases with ⟨lease, hlease, hafter⟩ | ⟨error, herror, hafter⟩
      · rw [hafter]
        refine hs.set hheap hguards ?_ fun _ => .inr rfl
        intro k _ hk
        rw [hpc] at hk
        cases hk
      · rw [hafter]
        refine hs.set (.trans (by rw [pool_goOn]) hheap) (.trans (by rw [pool_goOn]) hguards) ?_ ?_
        · intro k _ hk
          rw [hpc] at hk
          cases hk
        · intro huse
          rcases acquireRecord_cases parseUrl loop.connectionId _ s.timed.pool.attemptWindows _ with
            ⟨-, -, hhealth⟩ | ⟨-, -, -, lease, hlease, -⟩
          · rcases hs _ _ hrecord (hhealth.inUse.symm.trans huse) with hguarded | hholds
            · exact .inl hguarded
            · rw [hpc] at hholds
              cases hholds
          · rw [hlease] at herror
            cases herror
  | records hpc hrecord _ =>
      refine hs.set (.trans (by rw [pool_goOn]) (heap_write _ _ _ _)) (by rw [pool_goOn]; rfl) ?_ ?_
      · intro k _ hk
        rw [hpc] at hk
        rw [holds_goOn]
        exact hk
      · intro huse
        have hlent := Pool.inUse_of_cleared (HealthOp.frame _ _ _).2 huse
        rcases hs _ _ hrecord hlent with hguarded | hholds
        · exact .inl hguarded
        · rw [hpc] at hholds
          rw [holds_goOn]
          exact .inr hholds
  | meets hpc _ =>
      refine hs.of_eq (pool_goOn _ _ _ _ _) ?_
      rw [holds_goOn, hpc]
      rfl
  | drops hpc hrecord _ =>
      refine hs.set (.trans (by rw [pool_goOn]) (heap_write _ _ _ _)) (by rw [pool_goOn]; rfl) ?_ ?_
      · intro k hk hholds
        rw [hpc] at hholds
        exact absurd (Option.some.inj hholds).symm hk
      · intro huse
        rw [(healthOnly_finalizeRelease _ _ _ _).inUse] at huse
        cases huse

theorem flagsHeld_of_reaches {G : Listening Phase → ListenAction Event → Prop}
    (h : (loop.machine parseUrl).ReachesUnder G s) : s.FlagsHeld := by
  refine h.invariant ?_ fun s a s' hs _ hstep => hs.step hstep
  intro s hs k r hr huse
  rw [hs.atRest.unlent r (List.mem_of_getElem? hr)] at huse
  cases huse

end Listening
end Flags

/-! ## What the end of a session counts -/

/-- The change counts no failure. -/
structure RecordChange.CountsNothing (c : RecordChange) : Prop where
  total : c.after.health.totalFailures ≤ c.before.health.totalFailures
  timeouts : c.after.health.timeoutCount ≤ c.before.health.timeoutCount
  consecutive : c.after.health.consecutiveFailures ≤ c.before.health.consecutiveFailures

/-- A task that is stopped counts no failure, and a session that fails counts one. -/
def FiledTurn.EndsCleanly (t : FiledTurn) : Prop :=
  match t.turn with
  | .stopped => ∀ c ∈ t.changes, c.CountsNothing
  | .failed => added (·.totalFailures) t.changes = 1
  | .refused _ | .wentOn => True

/-- The guard was held no longer than an operation may last. -/
def ConnectionGuard.isInTime (guard : ConnectionGuard) (r : ConnectionRecord) (now : ℤ) : Bool :=
  elapsedMs guard.lease.borrowedAt now ≤ r.policy.operationTimeoutMs

/-- The steps with which sessions end cleanly: the guard is dropped in time, and what was recorded
of a failure is there, has counted and is still seen when the guard is dropped. -/
def Subscription.endsInTime (connectionId : String) (s : Listening SubscriptionPhase) :
    ListenAction SubscriptionEvent → Bool
  | .look => match s.pc with
    | .running .failed _ (.record _ :: _) none _ =>
        (s.timed.pool.connections.lookup connectionId).isSome
    | _ => true
  | .lock _ => match s.pc with
    | .running .failed _ _ (some h) _ =>
        (s.timed.pool.heap[h]?).all fun r => r.health.totalFailures < counterLimit
    | _ => true
  | .dropGuard now => match s.pc with
    | .running .stopped (some (guard, _)) _ _ _ =>
        (s.timed.pool.heap[guard.record]?).all fun r => guard.isInTime r now
    | .running .failed (some (guard, _)) _ _ _ =>
        (s.timed.pool.heap[guard.record]?).all fun r => guard.isInTime r now &&
          failureRecordedDuringLease r guard.lease.borrowedAt
    | _ => true
  | _ => true

section Changes

variable {parseUrl : UrlParser} {id : String} {r : ConnectionRecord} {windows : AttemptWindows}
  {now : ℤ}

theorem countsNothing_of_acquired {lease : ConnectionLease}
    (h : (acquireRecord parseUrl id r windows now).2.2 = .ok lease) :
    CountsNothing ⟨r, (acquireRecord parseUrl id r windows now).1, now⟩ ∧
      adds (·.totalFailures) ⟨r, (acquireRecord parseUrl id r windows now).1, now⟩ = 0 := by
  have hout := acquireRecord_outcome parseUrl id r windows now
  generalize acquireRecord parseUrl id r windows now = answer at hout h ⊢
  obtain ⟨phase, diagnosis, recommendedAction, since, retry, hrec⟩ :=
    reconcileTimedState_eq r (.fromMetadata r.metadata) now
  rw [hrec] at hout
  cases hout with
  | lent _ _ _ _ _ => exact ⟨⟨Nat.le_refl _, Nat.le_refl _, Nat.le_refl _⟩, adds_eq_zero rfl⟩
  | _ => cases h

/-- A guard that is marked as a success and dropped in time counts nothing. -/
theorem countsNothing_of_released {guard : ConnectionGuard} (hmark : guard.outcome = .success)
    (hintime : guard.isInTime r now = true) :
    CountsNothing ⟨r, finalizeRelease r guard.lease.borrowedAt guard.outcome now, now⟩ := by
  have hout := finalizeRelease_outcome r guard.lease.borrowedAt guard.outcome now
  rw [hmark] at hout ⊢
  rw [ConnectionGuard.isInTime, decide_eq_true_eq] at hintime
  generalize finalizeRelease r guard.lease.borrowedAt .success now = r' at hout ⊢
  cases hout with
  | overTime _ _ hover => omega
  | success _ _ => exact ⟨Nat.le_refl _, Nat.le_refl _, Nat.zero_le _⟩

/-- A guard that is marked as failed counts nothing, if it takes its failure for recorded. -/
theorem adds_of_recorded_release {guard : ConnectionGuard} {reason : String}
    (hmark : guard.outcome = .failure reason) (hintime : guard.isInTime r now = true)
    (hseen : failureRecordedDuringLease r guard.lease.borrowedAt = true) :
    adds (·.totalFailures)
      ⟨r, finalizeRelease r guard.lease.borrowedAt guard.outcome now, now⟩ = 0 := by
  have hends := finalizeRelease_failure r guard.lease.borrowedAt now reason
  rw [ConnectionGuard.isInTime, decide_eq_true_eq] at hintime
  rw [hmark]
  rcases hends with ⟨-, -, htotal, -⟩ | ⟨hover | hunseen, -, -⟩
  · exact adds_eq_zero htotal
  · omega
  · rw [hseen] at hunseen
    cases hunseen

theorem countsNothing_markDisconnected (reason : String) :
    CountsNothing ⟨r, (HealthOp.markDisconnected reason).apply now r, now⟩ :=
  ⟨Nat.le_refl _, Nat.le_refl _, Nat.le_refl _⟩

theorem total_of_recorded (reason : String) (hroom : r.health.totalFailures < counterLimit) :
    adds (·.totalFailures) ⟨r, (HealthOp.recordConnectFailure reason).apply now r, now⟩ = 1 := by
  obtain ⟨-, htotal, -⟩ := applyRuntimeFailure_spec r r.policy now reason false
  exact adds_eq_one (·.totalFailures) htotal hroom

end Changes

namespace Subscription

/-- Where a subscription may stand, and what it has counted so far. -/
inductive Sound : ListenPc SubscriptionPhase → Prop
  | resting : Sound .resting
  | returned : Sound .returned
  | asking (h : ℕ) : Sound (.asking h)
  | leased {guard : ConnectionGuard} {phase : SubscriptionPhase} {changes : List RecordChange} :
      (∀ c ∈ changes, c.CountsNothing) → added (·.totalFailures) changes = 0 →
      Sound (.leased guard phase changes)
  | goesOn {guard : ConnectionGuard} {phase : SubscriptionPhase} {op : HealthOp}
      {found : Option ℕ} {changes : List RecordChange} :
      Sound (.running .wentOn (some (guard, phase)) [.record op] found changes)
  | stopping {guard : ConnectionGuard} {phase : SubscriptionPhase} {reason : String}
      {changes : List RecordChange} :
      guard.outcome = .success → (∀ c ∈ changes, c.CountsNothing) →
      Sound (.running .stopped (some (guard, phase))
        [.dropGuard, .record (.markDisconnected reason)] none changes)
  | leaving {reason : String} {found : Option ℕ} {changes : List RecordChange} :
      (∀ c ∈ changes, c.CountsNothing) →
      Sound (.running .stopped none [.record (.markDisconnected reason)] found changes)
  | failing {guard : ConnectionGuard} {phase : SubscriptionPhase} {reason text : String}
      {found : Option ℕ} {changes : List RecordChange} :
      guard.outcome = .failure reason → added (·.totalFailures) changes = 0 →
      Sound (.running .failed (some (guard, phase))
        [.record (.recordConnectFailure text), .dropGuard] found changes)
  | recorded {guard : ConnectionGuard} {phase : SubscriptionPhase} {reason : String}
      {changes : List RecordChange} :
      guard.outcome = .failure reason → added (·.totalFailures) changes = 1 →
      Sound (.running .failed (some (guard, phase)) [.dropGuard] none changes)

/-- A run in which every session so far has ended cleanly. -/
structure AllClean (s : Listening SubscriptionPhase) : Prop where
  sound : Sound s.pc
  turns : ∀ t ∈ s.turns, t.EndsCleanly

/-- What a subscription does with an event. -/
inductive Reacts : Errand → Prop
  | failed (reason : String) : Reacts (failed reason)
  | stopped (reason : String) : Reacts (stopped reason)
  | wentOn : Reacts (wentOn [])
  | records (op : HealthOp) : Reacts (wentOn [.record op])

section Reactions

variable {cancelled : Bool} {phase phase' : SubscriptionPhase} {event : SubscriptionEvent}
  {errand : Errand}

theorem reacts_ending {halted : String} {disconnected : Option String}
    (h : ending cancelled halted disconnected = some errand) : Reacts errand := by
  rw [ending] at h
  split at h
  · cases h
    exact .stopped _
  · obtain ⟨reason, -, rfl⟩ := Option.map_eq_some_iff.mp h
    exact .failed _

theorem reacts_mqttSubscribe {host topic : String} {port : UInt16}
    (h : meetMqttSubscribe host port topic cancelled phase event = some (errand, phase')) :
    Reacts errand := by
  rw [meetMqttSubscribe.eq_def] at h
  split at h
  · cases h
    exact .failed _
  · split at h
    · cases h
    · cases h
      exact .records _
  · cases h
    exact .failed _
  · cases h
    exact .wentOn
  · cases h
    exact .records _
  · obtain ⟨errand', hending, heq⟩ := Option.map_eq_some_iff.mp h
    cases heq
    exact reacts_ending hending
  · cases h

theorem reacts_mqttListener {host : String} {topics : List String} {port : UInt16}
    (h : meetMqttListener host port topics cancelled phase event = some (errand, phase')) :
    Reacts errand := by
  rw [meetMqttListener.eq_def] at h
  split at h
  · cases h
    exact .failed _
  · split at h
    · cases h
    · cases h
      exact .wentOn
  · cases h
    exact .failed _
  · cases h
    exact .records _
  · cases h
    exact .records _
  · obtain ⟨errand', hending, heq⟩ := Option.map_eq_some_iff.mp h
    cases heq
    exact reacts_ending hending
  · cases h

theorem reacts_serialListen {metadata : Value}
    (h : meetSerialListen cancelled metadata phase event = some (errand, phase')) :
    Reacts errand := by
  rw [meetSerialListen.eq_def] at h
  split at h
  · split at h
    · cases h
      exact .failed _
    · split at h
      · cases h
        exact .failed _
      · split at h
        · split at h
          · cases h
            exact .stopped _
          · cases h
        · cases h
          exact .failed _
        · cases h
          exact .failed _
  · cases h

theorem reacts_loop {connectionId : String} {sub : Subscription} {lease : ConnectionLease}
    (h : (sub.loop connectionId).meet cancelled lease phase event = some (errand, phase')) :
    Reacts errand := by
  cases sub with
  | mqttSubscribe host port topic => exact reacts_mqttSubscribe h
  | mqttListener host port topics => exact reacts_mqttListener h
  | serialListen => exact reacts_serialListen h

end Reactions

section Runs

variable {parseUrl : UrlParser} {connectionId : String} {sub : Subscription}
  {s s' : Listening SubscriptionPhase} {a : ListenAction SubscriptionEvent}

theorem AllClean.goTo {pc : ListenPc SubscriptionPhase} (hs : AllClean s) (hpc : s'.pc = pc)
    (hturns : s'.turns = s.turns) (hsound : Sound pc) : AllClean s' where
  sound := hpc ▸ hsound
  turns := hturns ▸ hs.turns

/-- A turn that ends is filed. -/
theorem AllClean.file {turn : ListenTurn} {held : Option (ConnectionGuard × SubscriptionPhase)}
    {changes : List RecordChange} (hs : ∀ t ∈ s.turns, t.EndsCleanly)
    (ht : FiledTurn.EndsCleanly ⟨turn, changes⟩) : AllClean (s.goOn turn held [] changes) where
  sound := by
    simp only [Listening.goOn]
    split
    · exact .leased (by simp) rfl
    · split
      · exact .returned
      · exact .resting
  turns t hmem := by
    rcases List.mem_append.mp hmem with hold | hnew
    · exact hs t hold
    · obtain rfl := List.mem_singleton.mp hnew
      exact ht

theorem countsNothing_concat {changes : List RecordChange} {c : RecordChange}
    (h : ∀ c ∈ changes, c.CountsNothing) (hc : c.CountsNothing) :
    ∀ c' ∈ changes ++ [c], c'.CountsNothing := by
  intro c' hmem
  rcases List.mem_append.mp hmem with hold | hnew
  · exact h c' hold
  · obtain rfl := List.mem_singleton.mp hnew
    exact hc

/-- A session goes on, or it begins to end. -/
theorem AllClean.meet {guard : ConnectionGuard} {phase phase' : SubscriptionPhase}
    {changes : List RecordChange} {errand : Errand} (hs : AllClean s)
    (hpc : s.pc = .leased guard phase changes) (hreacts : Reacts errand) :
    AllClean (s.goOn errand.turn (some (Listening.marked guard errand, phase')) errand.todo
      changes) := by
  have hsound := hs.sound
  rw [hpc] at hsound
  cases hsound with
  | leased hnothing hadded =>
      cases hreacts with
      | failed reason => exact hs.goTo rfl rfl (.failing rfl hadded)
      | stopped reason => exact hs.goTo rfl rfl (.stopping rfl hnothing)
      | wentOn => exact .file hs.turns trivial
      | records op => exact hs.goTo rfl rfl .goesOn

/-- A step that is in time keeps all ends clean. -/
theorem AllClean.step (hs : AllClean s) (hguard : endsInTime connectionId s a = true)
    (h : s.step parseUrl (sub.loop connectionId) a = some s') : AllClean s' := by
  have hsound := hs.sound
  cases Listening.step_moves h with
  | others _ => exact hs.goTo rfl rfl hs.sound
  | cancel => exact hs.goTo rfl rfl hs.sound
  | leave _ => exact hs.goTo rfl rfl .returned
  | asks _ _ => exact hs.goTo rfl rfl (.asking _)
  | unknown _ _ => exact .file hs.turns trivial
  | finds hpc _ =>
      rw [hpc] at hsound
      cases hsound with
      | goesOn => exact hs.goTo rfl rfl .goesOn
      | leaving hnothing => exact hs.goTo rfl rfl (.leaving hnothing)
      | failing hmark hadded => exact hs.goTo rfl rfl (.failing hmark hadded)
  | misses hpc hlookup =>
      rw [hpc] at hsound
      rw [endsInTime, hpc] at hguard
      cases hsound with
      | goesOn => exact .file hs.turns trivial
      | leaving hnothing => exact .file hs.turns hnothing
      | failing _ _ =>
          have hids : s.timed.pool.connections.lookup connectionId = none := hlookup
          simp [hids] at hguard
  | acquires hpc _ _ =>
      obtain ⟨s₁, hturns, -, -, -, -, hcases⟩ := Listening.acquireAt_cases parseUrl
        (sub.loop connectionId) s _ _ _
      rcases hcases with ⟨lease, hlease, hafter⟩ | ⟨error, -, hafter⟩
      · rw [hafter]
        obtain ⟨hnothing, hadds⟩ := countsNothing_of_acquired hlease
        refine hs.goTo rfl hturns (.leased ?_ ?_)
        · intro c hmem
          obtain rfl := List.mem_singleton.mp hmem
          exact hnothing
        · rw [added_singleton]
          exact hadds
      · rw [hafter]
        exact .file (hturns ▸ hs.turns) trivial
  | records hpc hrecord _ =>
      rw [hpc] at hsound
      rw [endsInTime, hpc] at hguard
      cases hsound with
      | goesOn => exact .file hs.turns trivial
      | leaving hnothing =>
          exact .file hs.turns (countsNothing_concat hnothing (countsNothing_markDisconnected _))
      | failing hmark hadded =>
          simp only [hrecord, Option.all_some, decide_eq_true_eq] at hguard
          refine hs.goTo rfl rfl (.recorded hmark ?_)
          rw [added_concat, hadded, total_of_recorded _ hguard, zero_add]
  | meets hpc hmeet => exact hs.meet hpc (reacts_loop hmeet)
  | drops hpc hrecord _ =>
      rw [hpc] at hsound
      rw [endsInTime, hpc] at hguard
      cases hsound with
      | stopping hmark hnothing =>
          simp only [hrecord, Option.all_some] at hguard
          exact hs.goTo rfl rfl
            (.leaving (countsNothing_concat hnothing (countsNothing_of_released hmark hguard)))
      | recorded hmark hadded =>
          simp only [hrecord, Option.all_some, Bool.and_eq_true] at hguard
          refine .file hs.turns ?_
          rw [FiledTurn.EndsCleanly, added_concat, hadded,
            adds_of_recorded_release hmark hguard.1 hguard.2, add_zero]

/-- In a run whose steps are all in time, every session ends cleanly. -/
theorem allClean_of_reaches (h : ((sub.loop connectionId).machine parseUrl).ReachesUnder
    (fun s a => endsInTime connectionId s a = true) s) : AllClean s := by
  refine h.invariant ?_ fun s a s' hs hguard hstep => hs.step hguard hstep
  intro s hs
  constructor
  · rw [hs.pc]
    exact .resting
  · rw [hs.turns]
    simp

/-- A guard that is dropped late, or without the failure being seen, counts one more. -/
theorem counted_of_late {turn : ListenTurn} {guard : ConnectionGuard} {phase : SubscriptionPhase}
    {rest : List ListenCommand} {changes : List RecordChange} {r : ConnectionRecord} {now : ℤ}
    (hreads : s.reads now = true)
    (hpc : s.pc = .running turn (some (guard, phase)) (.dropGuard :: rest) none changes)
    (hr : s.timed.pool.heap[guard.record]? = some r)
    (hroom : r.health.totalFailures < counterLimit)
    (hlate : guard.isInTime r now = false ∨ (∃ reason, guard.outcome = .failure reason) ∧
      failureRecordedDuringLease r guard.lease.borrowedAt = false) :
    ∃ s' r', s.step parseUrl (sub.loop connectionId) (.dropGuard now) = some s' ∧
      s'.timed.pool.heap[guard.record]? = some r' ∧
      r'.health.totalFailures = r.health.totalFailures + 1 := by
  have hcounts : (finalizeRelease r guard.lease.borrowedAt guard.outcome now).health.totalFailures =
      saturatingSucc r.health.totalFailures := by
    have hout := finalizeRelease_outcome r guard.lease.borrowedAt guard.outcome now
    have hspec := fun text isTimeout => (applyRuntimeFailure_spec
      (released r guard.lease.borrowedAt now) r.policy now text isTimeout).2.1
    rw [ConnectionGuard.isInTime, decide_eq_false_iff_not] at hlate
    generalize finalizeRelease r guard.lease.borrowedAt guard.outcome now = r' at hout ⊢
    generalize guard.outcome = mark at hlate hout
    cases hout with
    | overTime _ text _ => exact hspec text true
    | failure _ text _ _ => exact hspec text false
    | success _ hle =>
        rcases hlate with hnot | ⟨⟨reason, hmark⟩, -⟩
        · exact absurd hle hnot
        · cases hmark
    | pending _ _ hle =>
        rcases hlate with hnot | ⟨⟨reason, hmark⟩, -⟩
        · exact absurd hle hnot
        · cases hmark
    | recorded _ hle hseen =>
        rcases hlate with hnot | ⟨-, hunseen⟩
        · exact absurd hle hnot
        · rw [hseen] at hunseen
          cases hunseen
  generalize hafter : finalizeRelease r guard.lease.borrowedAt guard.outcome now = r' at hcounts
  refine ⟨(s.write guard.record r' now).goOn turn none rest (changes ++ [⟨r, r', now⟩]), r',
    ?_, ?_, ?_⟩
  · rw [Listening.step, if_pos hreads, Listening.dropGuard, hpc]
    simp only [hr, Option.map_some, hafter]
  · rw [Listening.pool_goOn, Listening.heap_write, List.getElem?_set_self]
    exact (List.getElem?_eq_some_iff.mp hr).1
  · rw [counterLimit] at hroom
    rw [hcounts, saturatingSucc]
    omega

end Runs
end Subscription

/-- Sessions end cleanly for as long as guards are dropped in time and failures that were recorded
are still seen then; a guard that is dropped otherwise counts one more. However the runs are, what
is lent when the task has returned is held by somebody else. -/
theorem subscriptions_end_cleanly (parseUrl : UrlParser) (connectionId : String)
    (sub : Subscription) :
    (∀ s, ((sub.loop connectionId).machine parseUrl).ReachesUnder
        (fun s a => Subscription.endsInTime connectionId s a = true) s →
      ∀ t ∈ s.turns, t.EndsCleanly) ∧
    (∀ s, ((sub.loop connectionId).machine parseUrl).Reaches s → s.pc = .returned →
      ∀ h r, s.timed.pool.heap[h]? = some r → r.inUse = true → s.timed.pool.Guarded h) ∧
    ∀ (s : Listening SubscriptionPhase) (turn : ListenTurn) (guard : ConnectionGuard)
      (phase : SubscriptionPhase) (rest : List ListenCommand) (changes : List RecordChange)
      (r : ConnectionRecord) (now : ℤ), s.reads now = true →
      s.pc = .running turn (some (guard, phase)) (.dropGuard :: rest) none changes →
      s.timed.pool.heap[guard.record]? = some r → r.health.totalFailures < counterLimit →
      (guard.isInTime r now = false ∨ (∃ reason, guard.outcome = .failure reason) ∧
        failureRecordedDuringLease r guard.lease.borrowedAt = false) →
      ∃ s' r', s.step parseUrl (sub.loop connectionId) (.dropGuard now) = some s' ∧
        s'.timed.pool.heap[guard.record]? = some r' ∧
        r'.health.totalFailures = r.health.totalFailures + 1 := by
  refine ⟨fun _ h => (Subscription.allClean_of_reaches h).turns, ?_,
    fun _ _ _ _ _ _ _ _ => Subscription.counted_of_late⟩
  intro s h hpc k r hr huse
  rcases Listening.flagsHeld_of_reaches h k r hr huse with hguarded | hholds
  · exact hguarded
  · rw [hpc] at hholds
    cases hholds

/-! ## A broker that is subscribed to -/

namespace Subscription

def broker : ConnectionDefinition := ⟨"broker", "mqtt", .object
  [("host", .string "10.0.0.9"), ("port", .number (.posInt 1883)), ("topic", .string "press/1")]⟩

/-- The task of a subscription has not begun. -/
def begun : Listening SubscriptionPhase where
  timed := ⟨{ Pool.plcPool with
    heap := [buildRecord Pool.refuseUrls broker]
    connections := AList.singleton "broker" 0 }, 0⟩
  cancelled := false
  pc := .resting
  turns := []

theorem begun_begins : begun.Begins := ⟨Pool.atRest_singleton rfl, rfl, rfl⟩

def pressTopic : ListenLoop SubscriptionPhase SubscriptionEvent :=
  (mqttSubscribe "10.0.0.9" 1883 "press/1").loop "broker"

/-- The task listens. -/
def listens : List (ListenAction SubscriptionEvent) :=
  [.look, .lock 0, .meet (.connAck true), .look, .lock 1, .meet (.subscribed (.ok ()))]

/-- It is stopped at this time. -/
def stoppedAt (now : ℤ) : List (ListenAction SubscriptionEvent) :=
  listens ++ [.cancel, .meet (.ended none), .dropGuard now, .look, .lock now]

/-- It loses its connection at this time. -/
def lostAt (now : ℤ) : List (ListenAction SubscriptionEvent) :=
  listens ++ [.meet (.ended (some "connection reset")), .look, .lock now, .dropGuard now]

/-- A run has a turn of this kind that has added so much. -/
def addsTo (actions : List (ListenAction SubscriptionEvent)) (turn : ListenTurn) (n : ℤ) : Bool :=
  ((pressTopic.machine Pool.refuseUrls).replay (fun _ _ => true) begun actions).any fun s =>
    s.turns.any fun t => t.turn == turn && added (·.totalFailures) t.changes == n

end Subscription

/-- A subscription that is stopped within five seconds. -/
theorem subscriptions_end_cleanly_soon : ∃ s : Listening SubscriptionPhase,
    (s.turns.any fun t => t.turn == .stopped) = true ∧ ∀ t ∈ s.turns, t.EndsCleanly := by
  have hrun : ((Subscription.pressTopic.machine Pool.refuseUrls).replay
      (Subscription.endsInTime "broker") Subscription.begun
        (Subscription.stoppedAt 1000000000)).any
          (fun s => s.turns.any fun t => t.turn == .stopped) = true := by decide
  obtain ⟨s, hreached, hturns⟩ :=
    Machine.exists_reachesUnder_of_replay Subscription.begun_begins hrun
  exact ⟨s, hturns, (subscriptions_end_cleanly _ _ _).1 s hreached⟩

/-- A subscription that is stopped after an hour counts a failure, and one that loses its
connection after an hour counts two. -/
theorem subscriptions_overcounted :
    (∃ s, (Subscription.pressTopic.machine Pool.refuseUrls).Reaches s ∧
      ∃ t ∈ s.turns, t.turn = .stopped ∧ ¬ t.EndsCleanly) ∧
    ∃ s, (Subscription.pressTopic.machine Pool.refuseUrls).Reaches s ∧
      ∃ t ∈ s.turns, t.turn = .failed ∧ added (·.totalFailures) t.changes = 2 := by
  have hruns : Subscription.addsTo (Subscription.stoppedAt 3600000000000) .stopped 1 = true ∧
      Subscription.addsTo (Subscription.lostAt 3600000000000) .failed 2 = true := by decide
  obtain ⟨hstopped, hlost⟩ := hruns
  constructor
  · obtain ⟨s, hreached, hturns⟩ :=
      Machine.exists_reaches_of_replay Subscription.begun_begins hstopped
    simp only [List.any_eq_true, Bool.and_eq_true, beq_iff_eq] at hturns
    obtain ⟨t, hmem, hturn, hone⟩ := hturns
    refine ⟨s, hreached, t, hmem, hturn, ?_⟩
    rw [FiledTurn.EndsCleanly, hturn]
    intro hnothing
    have hle : added (·.totalFailures) t.changes ≤ 0 :=
      added_nonpos fun c hc => (hnothing c hc).total
    omega
  · obtain ⟨s, hreached, hturns⟩ :=
      Machine.exists_reaches_of_replay Subscription.begun_begins hlost
    simp only [List.any_eq_true, Bool.and_eq_true, beq_iff_eq] at hturns
    obtain ⟨t, hmem, hturn, htwo⟩ := hturns
    exact ⟨s, hreached, t, hmem, hturn, htwo⟩

end Nazh
