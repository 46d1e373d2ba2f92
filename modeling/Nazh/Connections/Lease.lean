import Nazh.Connections.Exclusive
import Nazh.Connections.Timed

/-!
# Failures of a lease

A lease that ends in a failure counts one failure, and so does a failure that is recorded while
the connection is lent. Whether the first was the second is not written down: dropping the guard
guesses it from the phase of the record, which others change, and does not ask at all when the
lease took too long.
-/

namespace Nazh

open Lib

/-- The phases that show a recorded failure. -/
def ConnectionHealthState.recorded : ConnectionHealthState → Bool
  | reconnecting | circuitOpen | timeout => true
  | _ => false

theorem failureRecordedDuringLease_eq (record : ConnectionRecord) (borrowedAt : ℤ) :
    failureRecordedDuringLease record borrowedAt = (record.health.phase.recorded &&
      record.health.lastFailureAt.any fun lastFailureAt => borrowedAt ≤ lastFailureAt) := by
  rw [failureRecordedDuringLease]
  cases record.health.phase with
  | _ => rfl

namespace RecordAction

/-- A look at the record, by `get`, by `list` or by an acquire that finds it lent. -/
def polls : RecordAction → Bool
  | acquire _ _ | health .get | sweep .list => true
  | _ => false

def beats : RecordAction → Bool
  | health (.recordHeartbeat _) => true
  | _ => false

def records : RecordAction → Bool
  | health (.recordConnectFailure _) | health (.recordTimeout _) => true
  | _ => false

/-- What may happen to a record while it is lent. -/
def inLease (action : RecordAction) : Bool := action.polls || action.beats || action.records

/-- One action after the other. -/
def applyAll (parseUrl : UrlParser) (r : ConnectionRecord) (log : List (RecordAction × ℤ)) :
    ConnectionRecord :=
  log.foldl (fun r entry => entry.1.apply parseUrl entry.2 r) r

end RecordAction

/-! ## What happens to a lent record -/

/-- A record that is lent and not rate limited. -/
structure Leased (r : ConnectionRecord) : Prop where
  lent : r.inUse = true
  unlimited : r.health.rateLimitedUntil = none

/-- The records agree in their definition and in the failures they count. -/
structure SameFailures (r r' : ConnectionRecord) : Prop where
  definition : r'.definition = r.definition
  total : r'.health.totalFailures = r.health.totalFailures
  consecutive : r'.health.consecutiveFailures = r.health.consecutiveFailures
  last : r'.health.lastFailureAt = r.health.lastFailureAt

theorem SameFailures.refl (r : ConnectionRecord) : SameFailures r r := ⟨rfl, rfl, rfl, rfl⟩

theorem SameFailures.trans {r r' r'' : ConnectionRecord} (h : SameFailures r r')
    (h' : SameFailures r' r'') : SameFailures r r'' where
  definition := h'.definition.trans h.definition
  total := h'.total.trans h.total
  consecutive := h'.consecutive.trans h.consecutive
  last := h'.last.trans h.last

section Lent

variable {parseUrl : UrlParser} {r : ConnectionRecord} {now : ℤ} {action : RecordAction}

/-- Time does to a lent record no more than to end the pause of its circuit. -/
theorem reconcileTimedState_of_leased (h : Leased r) (policy : ConnectionGovernancePolicy) :
    reconcileTimedState r policy now = reconcileCircuit r now := by
  have hrate : reconcileRateLimit r now = r := by simp [reconcileRateLimit, h.unlimited]
  have hlent : (reconcileCircuit r now).inUse = true :=
    (healthOnly_reconcileCircuit r now).inUse.trans h.lent
  have hretry : reconcileRetry (reconcileCircuit r now) now = reconcileCircuit r now := by
    simp [reconcileRetry, hlent]
  rw [reconcileTimedState, hrate, hretry]
  exact if_pos hlent

theorem apply_of_polls (h : Leased r) (hpolls : action.polls = true) :
    action.apply parseUrl now r = reconcileCircuit r now := by
  cases action with
  | acquire connectionId windows =>
      have hout := acquireRecord_outcome parseUrl connectionId r windows now
      have hlent : (reconcileCircuit r now).inUse ≠ false := by
        rw [(healthOnly_reconcileCircuit r now).inUse, h.lent]
        exact Bool.noConfusion
      rw [reconcileTimedState_of_leased h] at hout
      rw [RecordAction.apply]
      generalize acquireRecord parseUrl connectionId r windows now = answer at hout ⊢
      cases hout with
      | busy huse => rfl
      | invalid reason hfree => exact absurd hfree hlent
      | circuitOpen reason hfree hopen => exact absurd hfree hlent
      | limited deadline hfree hdeadline hlater => exact absurd hfree hlent
      | refused windows' retry hfree hover hregister => exact absurd hfree hlent
      | lent windows' hfree hclosed hover hregister => exact absurd hfree hlent
  | health op =>
      cases op with
      | get => exact reconcileTimedState_of_leased h _
      | _ => cases hpolls
  | sweep op =>
      cases op with
      | list => exact reconcileTimedState_of_leased h _
      | markAllIdle diagnosis startedAt => cases hpolls
  | release borrowedAt outcome => cases hpolls

/-- The pause of a circuit that has none does not end. -/
theorem reconcileCircuit_of_closed (h : r.health.circuitOpenUntil = none) :
    reconcileCircuit r now = r := by
  simp [reconcileCircuit, h]

theorem reconcileCircuit_of_lt {deadline : ℤ} (h : r.health.circuitOpenUntil = some deadline)
    (hlt : now < deadline) : reconcileCircuit r now = r := by
  have hnot : ¬ deadline ≤ now := by omega
  simp [reconcileCircuit, h, hnot]

theorem reconcileCircuit_of_le {deadline : ℤ} (h : r.health.circuitOpenUntil = some deadline)
    (hle : deadline ≤ now) (hphase : r.health.phase = .circuitOpen) :
    (reconcileCircuit r now).health.phase = .idle ∧
      (reconcileCircuit r now).health.circuitOpenUntil = none := by
  simp [reconcileCircuit, h, hle, hphase, ConnectionRecord.withHealth, ConnectionRecord.diagnose]

theorem sameFailures_reconcileCircuit : SameFailures r (reconcileCircuit r now) := by
  obtain ⟨phase, diagnosis, recommendedAction, since, hrec⟩ := reconcileCircuit_eq r now
  rw [hrec]
  exact ⟨rfl, rfl, rfl, rfl⟩

theorem leased_reconcileCircuit (h : Leased r) : Leased (reconcileCircuit r now) := by
  obtain ⟨phase, diagnosis, recommendedAction, since, hrec⟩ := reconcileCircuit_eq r now
  rw [hrec]
  exact ⟨h.lent, h.unlimited⟩

/-- A heartbeat of a lent record: it is healthy, unless its phase says more. -/
theorem apply_of_beats (parseUrl : UrlParser) (now : ℤ) (h : Leased r)
    (hbeats : action.beats = true) :
    Leased (action.apply parseUrl now r) ∧ SameFailures r (action.apply parseUrl now r) ∧
      (action.apply parseUrl now r).health.circuitOpenUntil = r.health.circuitOpenUntil ∧
      (action.apply parseUrl now r).health.phase =
        if r.health.phase = .invalid ∨ r.health.phase = .circuitOpen ∨
          r.health.phase = .rateLimited then r.health.phase else .healthy := by
  cases action with
  | health op =>
      cases op with
      | recordHeartbeat diagnosis =>
          rw [RecordAction.apply, HealthOp.apply]
          by_cases hphase : r.health.phase = .invalid ∨ r.health.phase = .circuitOpen ∨
              r.health.phase = .rateLimited
          · have hbeat : recordHeartbeat r diagnosis now = _ := if_pos hphase
            rw [hbeat, if_pos hphase]
            exact ⟨⟨h.lent, h.unlimited⟩, ⟨rfl, rfl, rfl, rfl⟩, rfl, rfl⟩
          · have hbeat : recordHeartbeat r diagnosis now = _ := if_neg hphase
            rw [hbeat, if_neg hphase]
            exact ⟨⟨h.lent, h.unlimited⟩, ⟨rfl, rfl, rfl, rfl⟩, rfl, if_pos h.lent⟩
      | _ => cases hbeats
  | _ => cases hbeats

/-- A failure of a lent record. -/
theorem applyRuntimeFailure_spec (r : ConnectionRecord) (policy : ConnectionGovernancePolicy)
    (now : ℤ) (reason : String) (isTimeout : Bool) :
    (applyRuntimeFailure r policy now reason isTimeout).1.definition = r.definition ∧
      (applyRuntimeFailure r policy now reason isTimeout).1.health.totalFailures =
        saturatingSucc r.health.totalFailures ∧
      (applyRuntimeFailure r policy now reason isTimeout).1.health.consecutiveFailures =
        saturatingSucc r.health.consecutiveFailures ∧
      (applyRuntimeFailure r policy now reason isTimeout).1.health.lastFailureAt = some now ∧
      (applyRuntimeFailure r policy now reason isTimeout).1.inUse = r.inUse ∧
      (applyRuntimeFailure r policy now reason isTimeout).1.health.rateLimitedUntil =
        r.health.rateLimitedUntil := by
  by_cases hopen : policy.circuitFailureThreshold ≤ saturatingSucc r.health.consecutiveFailures
  · have hfailure : applyRuntimeFailure r policy now reason isTimeout = _ := if_pos hopen
    rw [hfailure]
    exact ⟨rfl, rfl, rfl, rfl, rfl, rfl⟩
  · have hfailure : applyRuntimeFailure r policy now reason isTimeout = _ := if_neg hopen
    rw [hfailure]
    exact ⟨rfl, rfl, rfl, rfl, rfl, rfl⟩

theorem phase_of_opened {policy : ConnectionGovernancePolicy} (now : ℤ) (reason : String)
    (isTimeout : Bool)
    (hopen : policy.circuitFailureThreshold ≤ saturatingSucc r.health.consecutiveFailures) :
    (applyRuntimeFailure r policy now reason isTimeout).1.health.phase = .circuitOpen ∧
      (applyRuntimeFailure r policy now reason isTimeout).1.health.circuitOpenUntil =
        some (now + durationMs policy.circuitOpenMs) := by
  have hfailure : applyRuntimeFailure r policy now reason isTimeout = _ := if_pos hopen
  rw [hfailure]
  exact ⟨rfl, rfl⟩

theorem phase_of_backedOff {policy : ConnectionGovernancePolicy} (now : ℤ) (reason : String)
    (isTimeout : Bool)
    (hopen : ¬ policy.circuitFailureThreshold ≤ saturatingSucc r.health.consecutiveFailures) :
    (applyRuntimeFailure r policy now reason isTimeout).1.health.phase =
        (if isTimeout then .timeout else .reconnecting) ∧
      (applyRuntimeFailure r policy now reason isTimeout).1.health.circuitOpenUntil = none := by
  have hfailure : applyRuntimeFailure r policy now reason isTimeout = _ := if_neg hopen
  rw [hfailure]
  exact ⟨rfl, rfl⟩

theorem apply_of_records (parseUrl : UrlParser) (r : ConnectionRecord) (now : ℤ)
    (hrecords : action.records = true) : ∃ reason isTimeout,
    action.apply parseUrl now r = (applyRuntimeFailure r r.policy now reason isTimeout).1 := by
  cases action with
  | health op =>
      cases op with
      | recordConnectFailure reason => exact ⟨reason, false, rfl⟩
      | recordTimeout reason => exact ⟨reason, true, rfl⟩
      | _ => cases hrecords
  | _ => cases hrecords

end Lent

/-! ## Before and after the failure is recorded -/

section Quiet

variable {parseUrl : UrlParser} {r : ConnectionRecord} {now : ℤ} {action : RecordAction}
  {log : List (RecordAction × ℤ)}

/-- The actions that record nothing. -/
def Quiet (log : List (RecordAction × ℤ)) : Prop :=
  ∀ entry ∈ log, entry.1.polls = true ∨ entry.1.beats = true

theorem Quiet.cons {entry : RecordAction × ℤ} (h : Quiet (entry :: log)) :
    (entry.1.polls = true ∨ entry.1.beats = true) ∧ Quiet log :=
  ⟨h entry List.mem_cons_self, fun e he => h e (List.mem_cons_of_mem _ he)⟩

theorem quiet_apply (parseUrl : UrlParser) (now : ℤ) (h : Leased r)
    (hquiet : action.polls = true ∨ action.beats = true) :
    Leased (action.apply parseUrl now r) ∧ SameFailures r (action.apply parseUrl now r) := by
  rcases hquiet with hpolls | hbeats
  · rw [apply_of_polls h hpolls]
    exact ⟨leased_reconcileCircuit h, sameFailures_reconcileCircuit⟩
  · obtain ⟨hleased, hsame, -, -⟩ := apply_of_beats parseUrl now h hbeats
    exact ⟨hleased, hsame⟩

/-- Polls and heartbeats count nothing. -/
theorem quiet_applyAll (parseUrl : UrlParser) (h : Leased r) (hquiet : Quiet log) :
    Leased (RecordAction.applyAll parseUrl r log) ∧
      SameFailures r (RecordAction.applyAll parseUrl r log) := by
  induction log generalizing r with
  | nil => exact ⟨h, .refl r⟩
  | cons entry log ih =>
      obtain ⟨hentry, hlog⟩ := hquiet.cons
      obtain ⟨hleased, hsame⟩ := quiet_apply parseUrl entry.2 h hentry
      obtain ⟨hleased', hsame'⟩ := ih hleased hlog
      exact ⟨hleased', hsame.trans hsame'⟩

/-- The phase shows no failure, and the circuit is closed. -/
structure Unmarked (r : ConnectionRecord) : Prop where
  phase : r.health.phase.recorded = false
  closed : r.health.circuitOpenUntil = none

theorem unmarked_apply (h : Leased r) (hr : Unmarked r)
    (hquiet : action.polls = true ∨ action.beats = true) :
    Unmarked (action.apply parseUrl now r) := by
  rcases hquiet with hpolls | hbeats
  · rw [apply_of_polls h hpolls, reconcileCircuit_of_closed hr.closed]
    exact hr
  · obtain ⟨-, -, hcircuit, hphase⟩ := apply_of_beats parseUrl now h hbeats
    refine ⟨?_, hcircuit.trans hr.closed⟩
    rw [hphase]
    split
    · exact hr.phase
    · rfl

/-- A failure that the phase does not show is not shown later. -/
theorem unmarked_applyAll (parseUrl : UrlParser) (h : Leased r) (hr : Unmarked r) (hquiet : Quiet log) :
    Unmarked (RecordAction.applyAll parseUrl r log) := by
  induction log generalizing r with
  | nil => exact hr
  | cons entry log ih =>
      obtain ⟨hentry, hlog⟩ := hquiet.cons
      exact ih (quiet_apply _ _ h hentry).1 (unmarked_apply h hr hentry) hlog

/-- The rule for phases that show a failure: it is shown until an entry that hides it. -/
theorem recorded_applyAll_iff (Shows : ConnectionRecord → Prop) (hides : RecordAction × ℤ → Prop)
    (hshows : ∀ r, Shows r → r.health.phase.recorded = true)
    (hkeeps : ∀ r entry, Leased r → Shows r →
      (entry.1.polls = true ∨ entry.1.beats = true) → ¬ hides entry →
        Shows (entry.1.apply parseUrl entry.2 r))
    (hhides : ∀ r entry, Leased r → Shows r →
      (entry.1.polls = true ∨ entry.1.beats = true) → hides entry →
        Unmarked (entry.1.apply parseUrl entry.2 r))
    (h : Leased r) (hr : Shows r) (hquiet : Quiet log) :
    (RecordAction.applyAll parseUrl r log).health.phase.recorded = true ↔
      ∀ entry ∈ log, ¬ hides entry := by
  induction log generalizing r with
  | nil => simpa [RecordAction.applyAll] using hshows r hr
  | cons entry log ih =>
      obtain ⟨hentry, hlog⟩ := hquiet.cons
      have hleased := (quiet_apply parseUrl entry.2 h hentry).1
      have hfold : RecordAction.applyAll parseUrl r (entry :: log) =
          RecordAction.applyAll parseUrl (entry.1.apply parseUrl entry.2 r) log := rfl
      rw [hfold, List.forall_mem_cons]
      by_cases hhide : hides entry
      · have hnever := (unmarked_applyAll parseUrl hleased
          (hhides r entry h hr hentry hhide) hlog).phase
        constructor
        · intro hrecorded
          rw [hnever] at hrecorded
          cases hrecorded
        · intro hall
          exact absurd hhide hall.1
      · rw [ih hleased (hkeeps r entry h hr hentry hhide) hlog]
        constructor
        · intro hrest
          exact ⟨hhide, hrest⟩
        · intro hall
          exact hall.2

/-- A phase that waits for a retry shows the failure until a heartbeat. -/
theorem backedOff_applyAll (h : Leased r)
    (hphase : r.health.phase = .reconnecting ∨ r.health.phase = .timeout)
    (hclosed : r.health.circuitOpenUntil = none) (hquiet : Quiet log) :
    (RecordAction.applyAll parseUrl r log).health.phase.recorded = true ↔
      ∀ entry ∈ log, ¬ entry.1.beats = true := by
  refine recorded_applyAll_iff (fun r => (r.health.phase = .reconnecting ∨
      r.health.phase = .timeout) ∧ r.health.circuitOpenUntil = none)
    (fun entry => entry.1.beats = true) ?_ ?_ ?_ h ⟨hphase, hclosed⟩ hquiet
  · intro r hr
    rcases hr.1 with hphase | hphase
    · rw [hphase]
      rfl
    · rw [hphase]
      rfl
  · intro r entry hleased hr hentry hbeats
    have hpolls := hentry.resolve_right hbeats
    rw [apply_of_polls hleased hpolls, reconcileCircuit_of_closed hr.2]
    exact hr
  · intro r entry hleased hr hentry hbeats
    obtain ⟨-, -, hcircuit, hnext⟩ := apply_of_beats parseUrl entry.2 hleased hbeats
    refine ⟨?_, hcircuit.trans hr.2⟩
    rw [hnext]
    rcases hr.1 with hphase | hphase
    · rw [hphase]
      rfl
    · rw [hphase]
      rfl

/-- An open circuit shows the failure until a poll after its deadline. -/
theorem opened_applyAll {deadline : ℤ} (h : Leased r) (hphase : r.health.phase = .circuitOpen)
    (hopen : r.health.circuitOpenUntil = some deadline) (hquiet : Quiet log) :
    (RecordAction.applyAll parseUrl r log).health.phase.recorded = true ↔
      ∀ entry ∈ log, ¬ (entry.1.polls = true ∧ deadline ≤ entry.2) := by
  refine recorded_applyAll_iff
    (fun r => r.health.phase = .circuitOpen ∧ r.health.circuitOpenUntil = some deadline)
    (fun entry => entry.1.polls = true ∧ deadline ≤ entry.2) ?_ ?_ ?_ h ⟨hphase, hopen⟩ hquiet
  · intro r hr
    rw [hr.1]
    rfl
  · intro r entry hleased hr hentry hearly
    rcases hentry with hpolls | hbeats
    · have hlt : entry.2 < deadline := by
        by_contra hle
        exact hearly ⟨hpolls, by omega⟩
      rw [apply_of_polls hleased hpolls, reconcileCircuit_of_lt hr.2 hlt]
      exact hr
    · obtain ⟨-, -, hcircuit, hnext⟩ := apply_of_beats parseUrl entry.2 hleased hbeats
      refine ⟨?_, hcircuit.trans hr.2⟩
      rw [hnext, hr.1]
      rfl
  · intro r entry hleased hr hentry hlate
    obtain ⟨hpolls, hle⟩ := hlate
    obtain ⟨hidle, hclosed⟩ := reconcileCircuit_of_le hr.2 hle hr.1
    rw [apply_of_polls hleased hpolls]
    refine ⟨?_, hclosed⟩
    rw [hidle]
    rfl

end Quiet

/-! ## When a lease counts one failure -/

/-- Both counters grow by one. -/
def GrowsByOne (r r' : ConnectionRecord) : Prop :=
  r'.health.totalFailures = r.health.totalFailures + 1 ∧
    r'.health.consecutiveFailures = r.health.consecutiveFailures + 1

/-- The phase still shows the failure that was recorded. A circuit that the failure opened must
not be polled after its pause, and a record that waits for a retry must have no heartbeat. -/
def StillMarked (r : ConnectionRecord) (recordedAt : ℤ) (later : List (RecordAction × ℤ)) :
    Prop :=
  if r.policy.circuitFailureThreshold ≤ r.health.consecutiveFailures + 1 then
    ∀ entry ∈ later, entry.1.polls = true → entry.2 < recordedAt + durationMs r.policy.circuitOpenMs
  else ∀ entry ∈ later, entry.1.beats = false

/-- A lease that recorded a failure counts it once: it is dropped in time while the phase shows
the failure, or the counters have no room for a second one. -/
def CountsRecorded (r : ConnectionRecord) (borrowedAt recordedAt droppedAt : ℤ)
    (later : List (RecordAction × ℤ)) : Prop :=
  r.health.totalFailures < 2 ^ 32 - 1 ∧ r.health.consecutiveFailures < 2 ^ 32 - 1 ∧
    (elapsedMs borrowedAt droppedAt ≤ r.policy.operationTimeoutMs ∧
        StillMarked r recordedAt later ∨
      r.health.totalFailures + 1 = 2 ^ 32 - 1 ∧ r.health.consecutiveFailures + 1 = 2 ^ 32 - 1)

/-- A lease that recorded no failure counts one: it is dropped too late, or nothing looks like a
failure that it recorded. -/
def CountsUnrecorded (r : ConnectionRecord) (borrowedAt droppedAt : ℤ)
    (log : List (RecordAction × ℤ)) : Prop :=
  r.health.totalFailures < 2 ^ 32 - 1 ∧ r.health.consecutiveFailures < 2 ^ 32 - 1 ∧
    (r.policy.operationTimeoutMs < elapsedMs borrowedAt droppedAt ∨
      r.health.consecutiveFailures = 0 ∨ (∃ entry ∈ log, entry.1.beats = true) ∨
        ∀ lastFailureAt, r.health.lastFailureAt = some lastFailureAt → lastFailureAt < borrowedAt)

section Counting

variable {parseUrl : UrlParser} {r r₁ : ConnectionRecord} {borrowedAt recordedAt droppedAt : ℤ}
  {log pre later : List (RecordAction × ℤ)} {action : RecordAction} {reason : String}

/-- A record just after it was lent. -/
structure JustLent (r r₁ : ConnectionRecord) : Prop extends Leased r₁, SameFailures r r₁ where
  closed : r₁.health.circuitOpenUntil = none
  phase : r₁.health.phase =
    if 0 < r.health.consecutiveFailures then .reconnecting else .connecting

theorem unexpired_eq_none {now : ℤ} {until' : Option ℤ}
    (h : ∀ deadline, unexpired now until' = some deadline → deadline ≤ now) :
    unexpired now until' = none := by
  cases until' with
  | none => rfl
  | some deadline =>
      by_cases hle : deadline ≤ now
      · exact unexpired_of_le hle
      · have hlt : now < deadline := by omega
        have hover := h deadline (unexpired_of_lt hlt)
        omega

/-- A successful acquire has just lent the record. -/
theorem justLent_of_acquire {id : String} {windows : AttemptWindows} {now : ℤ}
    {lease : ConnectionLease} (hok : (acquireRecord parseUrl id r windows now).2.2 = .ok lease) :
    JustLent r (acquireRecord parseUrl id r windows now).1 ∧ lease.borrowedAt = now := by
  have hout := acquireRecord_outcome parseUrl id r windows now
  generalize acquireRecord parseUrl id r windows now = answer at hout hok ⊢
  obtain ⟨phase, diagnosis, recommendedAction, since, retry, hrec⟩ :=
    reconcileTimedState_eq r (.fromMetadata r.metadata) now
  rw [hrec] at hout
  cases hout with
  | lent windows' hfree hclosed hover hregister =>
      cases hok
      refine ⟨?_, rfl⟩
      exact
        { lent := rfl
          unlimited := unexpired_eq_none hover
          definition := rfl
          total := rfl
          consecutive := rfl
          last := rfl
          closed := unexpired_eq_none hclosed
          phase := rfl }
  | _ => cases hok

/-- Dropping a guard marked as failed counts a failure, or it takes it for one that was
recorded. -/
theorem finalizeRelease_failure (r : ConnectionRecord) (borrowedAt droppedAt : ℤ)
    (reason : String) :
    (elapsedMs borrowedAt droppedAt ≤ r.policy.operationTimeoutMs ∧
      failureRecordedDuringLease r borrowedAt = true ∧
      (finalizeRelease r borrowedAt (.failure reason) droppedAt).health.totalFailures =
        r.health.totalFailures ∧
      (finalizeRelease r borrowedAt (.failure reason) droppedAt).health.consecutiveFailures =
        r.health.consecutiveFailures) ∨
    ((r.policy.operationTimeoutMs < elapsedMs borrowedAt droppedAt ∨
        failureRecordedDuringLease r borrowedAt = false) ∧
      (finalizeRelease r borrowedAt (.failure reason) droppedAt).health.totalFailures =
        saturatingSucc r.health.totalFailures ∧
      (finalizeRelease r borrowedAt (.failure reason) droppedAt).health.consecutiveFailures =
        saturatingSucc r.health.consecutiveFailures) := by
  have hout := finalizeRelease_outcome r borrowedAt (.failure reason) droppedAt
  generalize finalizeRelease r borrowedAt (.failure reason) droppedAt = r' at hout ⊢
  cases hout with
  | overTime outcome reason hover =>
      obtain ⟨-, htotal, hconsecutive, -⟩ := applyRuntimeFailure_spec (released r borrowedAt droppedAt)
        r.policy droppedAt reason true
      exact .inr ⟨.inl hover, htotal, hconsecutive⟩
  | recorded reason hle hrecorded => exact .inl ⟨hle, hrecorded, rfl, rfl⟩
  | failure reason text hle hrecorded =>
      obtain ⟨-, htotal, hconsecutive, -⟩ := applyRuntimeFailure_spec (released r borrowedAt droppedAt)
        r.policy droppedAt text false
      exact .inr ⟨.inr hrecorded, htotal, hconsecutive⟩

/-- The counters grow by one if a failure is counted and there is room for it. -/
theorem growsByOne_saturatingSucc {n m : ℕ} :
    saturatingSucc n = n + 1 ∧ saturatingSucc m = m + 1 ↔ n < 2 ^ 32 - 1 ∧ m < 2 ^ 32 - 1 := by
  simp only [saturatingSucc]
  omega

/-- With a failure counted twice they grow by one if there is room for one alone. -/
theorem growsByOne_saturatingSucc_twice {n m : ℕ} :
    saturatingSucc (saturatingSucc n) = n + 1 ∧ saturatingSucc (saturatingSucc m) = m + 1 ↔
      n + 1 = 2 ^ 32 - 1 ∧ m + 1 = 2 ^ 32 - 1 := by
  simp only [saturatingSucc]
  omega

/-- Where no failure was recorded, one is seen in the phase and the time of an earlier one. -/
theorem seen_of_quiet (parseUrl : UrlParser) (borrowedAt : ℤ) (h : JustLent r r₁) (hquiet : Quiet log) :
    failureRecordedDuringLease (RecordAction.applyAll parseUrl r₁ log) borrowedAt = true ↔
      ¬ (r.health.consecutiveFailures = 0 ∨ (∃ entry ∈ log, entry.1.beats = true) ∨
        ∀ lastFailureAt, r.health.lastFailureAt = some lastFailureAt →
          lastFailureAt < borrowedAt) := by
  have hsame := h.toSameFailures.trans (quiet_applyAll parseUrl h.toLeased hquiet).2
  rw [failureRecordedDuringLease_eq, hsame.last, Bool.and_eq_true, Option.any_eq_true]
  by_cases hzero : r.health.consecutiveFailures = 0
  · have hphase : r₁.health.phase = .connecting := by simp [h.phase, hzero]
    have hunmarked : Unmarked r₁ := ⟨by rw [hphase]; rfl, h.closed⟩
    have hnever := (unmarked_applyAll parseUrl h.toLeased hunmarked hquiet).phase
    simp [hnever, hzero]
  · have hphase : r₁.health.phase = .reconnecting := by
      simp [h.phase, Nat.pos_of_ne_zero hzero]
    rw [backedOff_applyAll h.toLeased (.inl hphase) h.closed hquiet]
    simp only [hzero, false_or, not_or, not_exists, not_and, not_forall, not_lt, decide_eq_true_eq]
    constructor
    · intro hseen
      obtain ⟨hbeats, lastFailureAt, hlast, hle⟩ := hseen
      exact ⟨hbeats, lastFailureAt, hlast, hle⟩
    · intro hseen
      obtain ⟨hbeats, lastFailureAt, hlast, hle⟩ := hseen
      exact ⟨hbeats, lastFailureAt, hlast, hle⟩

/-- When a lease that recorded no failure counts one. -/
theorem growsByOne_unrecorded (h : JustLent r r₁) (hquiet : Quiet log) :
    GrowsByOne r (finalizeRelease (RecordAction.applyAll parseUrl r₁ log) borrowedAt
        (.failure reason) droppedAt) ↔ CountsUnrecorded r borrowedAt droppedAt log := by
  have hsame := h.toSameFailures.trans (quiet_applyAll parseUrl h.toLeased hquiet).2
  have hpolicy := policy_of_definition hsame.definition
  have hseen := seen_of_quiet parseUrl borrowedAt h hquiet
  have hends := finalizeRelease_failure (RecordAction.applyAll parseUrl r₁ log) borrowedAt droppedAt
    reason
  rw [hpolicy, hsame.total, hsame.consecutive] at hends
  rw [GrowsByOne, CountsUnrecorded]
  rcases hends with ⟨hle, hrecorded, htotal, hconsecutive⟩ | ⟨hcounts, htotal, hconsecutive⟩
  · rw [htotal, hconsecutive]
    have hnot := hseen.mp hrecorded
    constructor
    · intro hgrows
      omega
    · intro hcond
      obtain ⟨-, -, hover | hother⟩ := hcond
      · omega
      · exact absurd hother hnot
  · rw [htotal, hconsecutive, growsByOne_saturatingSucc]
    have hother : r.policy.operationTimeoutMs < elapsedMs borrowedAt droppedAt ∨
        (r.health.consecutiveFailures = 0 ∨ (∃ entry ∈ log, entry.1.beats = true) ∨
          ∀ lastFailureAt, r.health.lastFailureAt = some lastFailureAt →
            lastFailureAt < borrowedAt) := by
      rcases hcounts with hover | hunseen
      · exact .inl hover
      · rw [← Bool.not_eq_true, hseen, not_not] at hunseen
        exact .inr hunseen
    constructor
    · intro hroom
      exact ⟨hroom.1, hroom.2, hother⟩
    · intro hcond
      exact ⟨hcond.1, hcond.2.1⟩

theorem applyAll_split (r : ConnectionRecord) (entry : RecordAction × ℤ) :
    RecordAction.applyAll parseUrl r (pre ++ entry :: later) =
      RecordAction.applyAll parseUrl
        (entry.1.apply parseUrl entry.2 (RecordAction.applyAll parseUrl r pre)) later := by
  rw [RecordAction.applyAll, List.foldl_append, List.foldl_cons]
  rfl

/-- A failure of a lent record. -/
theorem failed_of_records (parseUrl : UrlParser) (recordedAt : ℤ) (h : Leased r)
    (hrecords : action.records = true) :
    Leased (action.apply parseUrl recordedAt r) ∧
      (action.apply parseUrl recordedAt r).definition = r.definition ∧
      (action.apply parseUrl recordedAt r).health.totalFailures =
        saturatingSucc r.health.totalFailures ∧
      (action.apply parseUrl recordedAt r).health.consecutiveFailures =
        saturatingSucc r.health.consecutiveFailures ∧
      (action.apply parseUrl recordedAt r).health.lastFailureAt = some recordedAt := by
  obtain ⟨text, isTimeout, happly⟩ := apply_of_records parseUrl r recordedAt hrecords
  obtain ⟨hdef, htotal, hconsecutive, hlast, huse, hrate⟩ :=
    applyRuntimeFailure_spec r r.policy recordedAt text isTimeout
  rw [happly]
  exact ⟨⟨huse.trans h.lent, hrate.trans h.unlimited⟩, hdef, htotal, hconsecutive, hlast⟩

/-- Where a failure was recorded, it is seen as long as the phase shows it. -/
theorem seen_of_records (parseUrl : UrlParser) (h : Leased r) (hrecords : action.records = true)
    (hquiet : Quiet later) (hle : borrowedAt ≤ recordedAt)
    (hroom : r.health.consecutiveFailures < 2 ^ 32 - 1) :
    failureRecordedDuringLease (RecordAction.applyAll parseUrl
        (action.apply parseUrl recordedAt r) later) borrowedAt = true ↔
      StillMarked r recordedAt later := by
  obtain ⟨hleased, hdef, htotal, hconsecutive, hlast⟩ :=
    failed_of_records parseUrl recordedAt h hrecords
  have hsame := (quiet_applyAll parseUrl hleased hquiet).2
  have hafter : (RecordAction.applyAll parseUrl (action.apply parseUrl recordedAt r)
      later).health.lastFailureAt = some recordedAt := hsame.last.trans hlast
  obtain ⟨text, isTimeout, happly⟩ := apply_of_records parseUrl r recordedAt hrecords
  have hcount : saturatingSucc r.health.consecutiveFailures =
      r.health.consecutiveFailures + 1 := by
    rw [saturatingSucc]
    omega
  rw [failureRecordedDuringLease_eq, hafter, StillMarked]
  simp only [Option.any_some, hle, decide_true, Bool.and_true]
  by_cases hopen : r.policy.circuitFailureThreshold ≤ r.health.consecutiveFailures + 1
  · have hreached : r.policy.circuitFailureThreshold ≤
        saturatingSucc r.health.consecutiveFailures := by
      rw [hcount]
      exact hopen
    obtain ⟨hphase, hcircuit⟩ := phase_of_opened recordedAt text isTimeout hreached
    rw [← happly] at hphase hcircuit
    rw [if_pos hopen, opened_applyAll hleased hphase hcircuit hquiet]
    simp only [not_and, not_le]
  · have hreached : ¬ r.policy.circuitFailureThreshold ≤
        saturatingSucc r.health.consecutiveFailures := by
      rw [hcount]
      exact hopen
    obtain ⟨hphase, hcircuit⟩ := phase_of_backedOff recordedAt text isTimeout hreached
    rw [← happly] at hphase hcircuit
    have hwaits : (action.apply parseUrl recordedAt r).health.phase = .reconnecting ∨
        (action.apply parseUrl recordedAt r).health.phase = .timeout := by
      rw [hphase]
      cases isTimeout with
      | true => exact .inr rfl
      | false => exact .inl rfl
    rw [if_neg hopen, backedOff_applyAll hleased hwaits hcircuit hquiet]
    simp only [Bool.not_eq_true]

/-- When a lease that recorded one failure counts it once. -/
theorem growsByOne_recorded (h : JustLent r r₁) (hpre : Quiet pre) (hlater : Quiet later)
    (hrecords : action.records = true) (hle : borrowedAt ≤ recordedAt) :
    GrowsByOne r (finalizeRelease
        (RecordAction.applyAll parseUrl r₁ (pre ++ (action, recordedAt) :: later)) borrowedAt
        (.failure reason) droppedAt) ↔
      CountsRecorded r borrowedAt recordedAt droppedAt later := by
  obtain ⟨hleased, hsame⟩ := quiet_applyAll parseUrl h.toLeased hpre
  have hsame := h.toSameFailures.trans hsame
  rw [applyAll_split]
  generalize RecordAction.applyAll parseUrl r₁ pre = r₂ at hleased hsame
  obtain ⟨hleased', hdef, htotal, hconsecutive, -⟩ :=
    failed_of_records parseUrl recordedAt hleased hrecords
  have hsame' := (quiet_applyAll parseUrl hleased' hlater).2
  have hpolicy := policy_of_definition (hsame'.definition.trans (hdef.trans hsame.definition))
  have hends := finalizeRelease_failure (RecordAction.applyAll parseUrl
    (action.apply parseUrl recordedAt r₂) later) borrowedAt droppedAt reason
  rw [hpolicy, hsame'.total, hsame'.consecutive, htotal, hconsecutive, hsame.total,
    hsame.consecutive] at hends
  have hstill : StillMarked r₂ recordedAt later ↔ StillMarked r recordedAt later := by
    rw [StillMarked, StillMarked, policy_of_definition hsame.definition, hsame.consecutive]
  have hseen : r.health.consecutiveFailures < 2 ^ 32 - 1 →
      (failureRecordedDuringLease (RecordAction.applyAll parseUrl
          (action.apply parseUrl recordedAt r₂) later) borrowedAt = true ↔
        StillMarked r recordedAt later) := by
    intro hroom
    rw [← hsame.consecutive] at hroom
    rw [← hstill]
    exact seen_of_records parseUrl hleased hrecords hlater hle hroom
  rw [GrowsByOne, CountsRecorded]
  rcases hends with ⟨hintime, hrecorded, htotal, hconsecutive⟩ | ⟨hcounts, htotal, hconsecutive⟩
  · rw [htotal, hconsecutive, growsByOne_saturatingSucc]
    constructor
    · intro hroom
      exact ⟨hroom.1, hroom.2, .inl ⟨hintime, (hseen hroom.2).mp hrecorded⟩⟩
    · intro hcond
      exact ⟨hcond.1, hcond.2.1⟩
  · rw [htotal, hconsecutive, growsByOne_saturatingSucc_twice]
    constructor
    · intro hlast
      exact ⟨by omega, by omega, .inr hlast⟩
    · intro hcond
      obtain ⟨-, hroom, ⟨hintime, hmarked⟩ | hlast⟩ := hcond
      · rcases hcounts with hover | hunseen
        · omega
        · rw [(hseen hroom).mpr hmarked] at hunseen
          cases hunseen
      · exact hlast

end Counting

/-! ## Leases in a run -/

/-- What the step does to the record `h`, if anything, may happen while it is lent. -/
def Pool.sparesLease (pool : Pool) (h : ℕ) (a : PoolAction) : Bool :=
  (pool.recordAction h a).all fun (action, _) => action.inLease

section Runs

variable {parseUrl : UrlParser} {t₀ t₁ t₂ t₃ : TimedPool} {h : ℕ} {r r₁ r₃ : ConnectionRecord}

/-- The log of a record says all that happened to it. -/
theorem record_of_log {s : TimedPool × List (RecordAction × ℤ)}
    (hr₁ : t₁.pool.heap[h]? = some r₁)
    (hs : (((Pool.timed parseUrl).startingAt t₁).logged fun t a _ =>
      (t.pool.recordAction h a).toList).ReachesUnder
        (fun s a => s.1.pool.sparesLease h a = true) s) :
    s.1.pool.heap[h]? = some (RecordAction.applyAll parseUrl r₁ s.2) ∧ t₁.clock ≤ s.1.clock ∧
      ∀ entry ∈ s.2, entry.1.inLease = true ∧ t₁.clock ≤ entry.2 := by
  refine hs.invariant (I := fun s => s.1.pool.heap[h]? =
    some (RecordAction.applyAll parseUrl r₁ s.2) ∧ t₁.clock ≤ s.1.clock ∧
      ∀ entry ∈ s.2, entry.1.inLease = true ∧ t₁.clock ≤ entry.2) ?_ ?_
  · intro s hs
    obtain ⟨hstart, hlog⟩ := hs
    obtain rfl : s.1 = t₁ := hstart
    rw [hlog]
    exact ⟨hr₁, Int.le_refl _, by simp⟩
  · intro s a s' hs hspares hstep
    obtain ⟨hr, hclock, hentries⟩ := hs
    obtain ⟨htimed, hlog⟩ := Machine.logged_step.mp hstep
    have hle := TimedPool.clock_le htimed
    obtain ⟨hpool, -, hreading⟩ := TimedPool.step_eq_some.mp htimed
    have hafter := Pool.heap_step hpool hr
    rw [Pool.recordAfter] at hafter
    rw [hlog]
    cases haction : s.1.pool.recordAction h a with
    | none =>
        rw [haction] at hafter
        rw [Option.toList_none, List.append_nil]
        exact ⟨hafter, by omega, hentries⟩
    | some actionAt =>
        obtain ⟨action, now⟩ := actionAt
        rw [haction] at hafter
        have hnow := (hreading now (Pool.reading_of_recordAction haction)).1
        rw [Option.toList_some]
        refine ⟨?_, by omega, ?_⟩
        · rw [applyAll_split]
          exact hafter
        · intro entry hmem
          rcases List.mem_append.mp hmem with hold | hnew
          · exact hentries entry hold
          · obtain rfl := List.mem_singleton.mp hnew
            exact ⟨by simpa [Pool.sparesLease, haction] using hspares, by omega⟩

/-- A lease that fails counts one failure, if and only if it recorded none and nothing looks as
if it had, or it recorded one that the phase still shows when it is dropped in time. -/
theorem failure_counted_once_iff {i k : ℕ} {now droppedAt : ℤ} {id reason : String}
    {lease : ConnectionLease} {log : List (RecordAction × ℤ)}
    (hacquire : t₀.step parseUrl (.resume i now) = some t₁)
    (hcall : t₀.pool.calls[i]? = some (.acquire id h))
    (hlease : t₀.pool.acquireResult parseUrl i now = some (.ok lease))
    (hrun : (((Pool.timed parseUrl).startingAt t₁).logged fun t a _ =>
      (t.pool.recordAction h a).toList).ReachesUnder
        (fun s a => s.1.pool.sparesLease h a = true) (t₂, log))
    (hguard : t₂.pool.guards[k]? = some ⟨lease, h, .failure reason⟩)
    (hdrop : t₂.step parseUrl (.dropGuard k droppedAt) = some t₃)
    (hr : t₀.pool.heap[h]? = some r) (hr₃ : t₃.pool.heap[h]? = some r₃) :
    ((∀ entry ∈ log, entry.1.records = false) →
      (GrowsByOne r r₃ ↔ CountsUnrecorded r now droppedAt log)) ∧
    ∀ pre action recordedAt later, log = pre ++ (action, recordedAt) :: later →
      action.records = true → (∀ entry ∈ pre ++ later, entry.1.records = false) →
        (GrowsByOne r r₃ ↔ CountsRecorded r now recordedAt droppedAt later) := by
  obtain ⟨hpool, hclock, -⟩ := TimedPool.step_eq_some.mp hacquire
  have hr₁ := Pool.heap_step hpool hr
  rw [Pool.recordAfter, Pool.recordAction, hcall] at hr₁
  simp only [Option.bind_some, Pool.callAction, if_pos, Option.map_some] at hr₁
  rw [Pool.acquireResult_of_call hcall hr] at hlease
  obtain ⟨hlent, hborrowed⟩ := justLent_of_acquire (Option.some.inj hlease)
  obtain ⟨hr₂, -, hentries⟩ := record_of_log hr₁ hrun
  have hafter := Pool.heap_step (TimedPool.step_eq_some.mp hdrop).1 hr₂
  rw [Pool.recordAfter, Pool.recordAction, hguard] at hafter
  simp only [Option.bind_some, if_pos, RecordAction.apply, hborrowed] at hafter
  have hend := Option.some.inj (hr₃.symm.trans hafter)
  have hquiet : ∀ part : List (RecordAction × ℤ), (∀ entry ∈ part, entry ∈ log) →
      (∀ entry ∈ part, entry.1.records = false) → Quiet part := by
    intro part hsub hnone entry hmem
    have hin := (hentries entry (hsub entry hmem)).1
    simpa [RecordAction.inLease, hnone entry hmem] using hin
  rw [hend]
  constructor
  · intro hnone
    exact growsByOne_unrecorded hlent (hquiet log (fun _ hmem => hmem) hnone)
  · intro pre action recordedAt later hsplit hrecords hnone
    subst hsplit
    have hpre : Quiet pre := by
      apply hquiet pre
      · intro entry hmem
        exact List.mem_append_left _ hmem
      · intro entry hmem
        exact hnone entry (List.mem_append_left _ hmem)
    have hlater : Quiet later := by
      apply hquiet later
      · intro entry hmem
        exact List.mem_append_right _ (List.mem_cons_of_mem _ hmem)
      · intro entry hmem
        exact hnone entry (List.mem_append_right _ hmem)
    have hle : now ≤ recordedAt := by
      have hlate := (hentries (action, recordedAt) (by simp)).2
      rw [hclock] at hlate
      exact hlate
    exact growsByOne_recorded hlent hpre hlater hrecords hle

end Runs

/-- The connection is lent, and a failure of it is recorded. -/
def plcAsked : TimedPool := ⟨{ Pool.plcPool with calls := [.acquire "plc" 0] }, 0⟩

def plcLease : ConnectionLease := ⟨"plc", "modbus", Pool.plc.metadata, 0⟩

def plcFails : List PoolAction :=
  [.health "plc" (.recordConnectFailure "连接被对端拒绝"), .resume 0 1, .markFailure 0 "连接被对端拒绝"]

/-- The guard is dropped in time, and the failure is counted once. -/
theorem failure_counted_once_plc : ∃ t₃ : TimedPool, ∃ r₃, t₃.pool.heap[0]? = some r₃ ∧
    GrowsByOne (buildRecord Pool.refuseUrls Pool.plc) r₃ := by
  have hrun : (plcAsked.step Pool.refuseUrls (.resume 0 0)).any (fun t₁ =>
      ((((Pool.timed Pool.refuseUrls).startingAt t₁).logged fun t a _ =>
        (t.pool.recordAction 0 a).toList).replay (fun s a => s.1.pool.sparesLease 0 a) (t₁, [])
        plcFails).any fun s =>
          s.2.length == 1 && (s.2.all fun entry => entry.1.records && entry.2 == 1) &&
            (s.1.pool.guards[0]?.any fun guard => guard.lease == plcLease && guard.record == 0 &&
              guard.outcome == .failure "连接被对端拒绝") &&
            (s.1.step Pool.refuseUrls (.dropGuard 0 2)).any fun t₃ =>
              t₃.pool.heap[0]?.isSome) = true := by decide
  obtain ⟨t₁, ht₁, hrest⟩ := (Option.any_eq_true _ _).mp hrun
  obtain ⟨⟨t₂, log⟩, hreached, hend⟩ :=
    Machine.exists_reachesUnder_of_replay (by exact ⟨rfl, rfl⟩) hrest
  simp only [Bool.and_eq_true, beq_iff_eq, Option.any_eq_true] at hend
  obtain ⟨⟨⟨hlength, hall⟩, ⟨lease, record, outcome⟩, hguard, ⟨rfl, rfl⟩, rfl⟩, t₃, ht₃, hsome⟩ :=
    hend
  obtain ⟨⟨action, recordedAt⟩, hlog⟩ := List.length_eq_one_iff.mp hlength
  obtain ⟨r₃, hr₃⟩ := Option.isSome_iff_exists.mp hsome
  refine ⟨t₃, r₃, hr₃, ?_⟩
  subst hlog
  simp only [List.all_cons, List.all_nil, Bool.and_true, Bool.and_eq_true, beq_iff_eq] at hall
  obtain ⟨hrecords, rfl⟩ := hall
  have hcounts := (failure_counted_once_iff ht₁ rfl (by decide) hreached hguard ht₃ rfl hr₃).2
    [] action 1 [] rfl hrecords (by simp)
  apply hcounts.mpr
  refine ⟨by decide, by decide, .inl ⟨by decide, ?_⟩⟩
  rw [StillMarked]
  split
  · simp
  · simp

/-- The lease lasts longer than an operation may, and its one failure is recorded as a timeout. -/
def overTimeLease : List PoolAction :=
  [.acquire "plc", .resume 0 0, .health "plc" (.recordTimeout "读取超时"), .resume 0 6000000000,
    .markFailure 0 "读取超时", .dropGuard 0 6000000001]

/-- A heartbeat comes after the failure was recorded. -/
def beatenLease : List PoolAction :=
  [.acquire "plc", .resume 0 0, .health "plc" (.recordConnectFailure "连接被对端拒绝"), .resume 0 1,
    .health "plc" (.recordHeartbeat "心跳"), .resume 0 2, .markFailure 0 "连接被对端拒绝",
    .dropGuard 0 3]

/-- After the actions a failure has been counted twice. -/
def countsTwice (actions : List PoolAction) : Bool :=
  ((Pool.timed Pool.refuseUrls).replay (fun _ _ => true) ⟨Pool.plcPool, 0⟩ actions).any fun t =>
    t.pool.heap[0]?.any fun r =>
      r.health.totalFailures == 2 && r.health.consecutiveFailures == 2

/-- Both leases count their one failure twice. -/
theorem failure_counted_twice :
    countsTwice overTimeLease = true ∧ countsTwice beatenLease = true := by
  decide

end Nazh
