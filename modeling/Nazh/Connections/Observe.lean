import Nazh.Connections.Breaker
import Nazh.Connections.Lease

/-!
# Looking at a record

`get` and `list` are not read-only: they do to a record what the passing of time does to it.
Two records are alike at some time if only what no operation will ask for makes a difference
between them: deadlines that are over, the times of a retry that nobody waits for, and the
phase, unless a live guard may take it for the trace of a failure of its own.
-/

namespace Nazh

open Lib

/-! ## What a look does to the phase -/

/-- The circuit is open in the phase alone. -/
def pauseOver (r : ConnectionRecord) (now : ℤ) : Bool :=
  (r.health.circuitOpenUntil.any fun until' => until' ≤ now) && r.health.phase == .circuitOpen

/-- The record waits for a retry in the phase alone. -/
def retryDue (r : ConnectionRecord) (now : ℤ) : Bool :=
  (r.health.nextRetryAt.any fun at' => at' ≤ now) &&
    (r.health.phase == .reconnecting || r.health.phase == .timeout) && !r.inUse

/-- The phases are the same, or neither shows a failure. -/
def Soft (phase phase' : ConnectionHealthState) : Prop :=
  phase' = phase ∨ phase.recorded = false ∧ phase'.recorded = false

/-- What is asked of a phase cannot tell such phases apart. -/
theorem Soft.tests {phase phase' : ConnectionHealthState} (h : Soft phase phase') :
    phase'.recorded = phase.recorded ∧ (phase' == .circuitOpen) = (phase == .circuitOpen) ∧
      (phase' == .reconnecting || phase' == .timeout) =
        (phase == .reconnecting || phase == .timeout) := by
  rcases h with rfl | ⟨hquiet, hquiet'⟩
  · exact ⟨rfl, rfl, rfl⟩
  · revert hquiet hquiet'
    cases phase <;> cases phase' <;> decide

theorem Soft.trans {phase phase' phase'' : ConnectionHealthState} (h : Soft phase phase')
    (h' : Soft phase' phase'') : Soft phase phase'' := by
  rcases h' with rfl | ⟨hquiet', hquiet''⟩
  · exact h
  · exact .inr ⟨h.tests.1.symm.trans hquiet', hquiet''⟩

theorem Soft.eq {phase phase' : ConnectionHealthState} (h : Soft phase phase')
    (hrecorded : phase'.recorded = true) : phase' = phase := by
  rcases h with heq | ⟨-, hquiet⟩
  · exact heq
  · rw [hquiet] at hrecorded
    cases hrecorded

section Phases

variable (r : ConnectionRecord) (policy : ConnectionGovernancePolicy) (now : ℤ)

theorem phase_reconcileRateLimit :
    Soft r.health.phase (reconcileRateLimit r now).health.phase := by
  by_cases hover : r.health.rateLimitedUntil.any (fun until' => until' ≤ now) = true
  · by_cases hphase : r.health.phase = .rateLimited
    · have hrate : reconcileRateLimit r now = _ := (if_pos hover).trans (if_pos hphase)
      rw [hrate]
      exact .inr ⟨by rw [hphase]; rfl, rfl⟩
    · have hrate : reconcileRateLimit r now = _ := (if_pos hover).trans (if_neg hphase)
      rw [hrate]
      exact .inl rfl
  · have hrate : reconcileRateLimit r now = _ := if_neg hover
    rw [hrate]
    exact .inl rfl

theorem phase_reconcileCircuit :
    (reconcileCircuit r now).health.phase =
      if pauseOver r now then .idle else r.health.phase := by
  by_cases hover : r.health.circuitOpenUntil.any (fun until' => until' ≤ now) = true
  · by_cases hphase : r.health.phase = .circuitOpen
    · have hcircuit : reconcileCircuit r now = _ := (if_pos hover).trans (if_pos hphase)
      have hpause : pauseOver r now = true := by simp [pauseOver, hover, hphase]
      rw [hcircuit, if_pos hpause]
      rfl
    · have hcircuit : reconcileCircuit r now = _ := (if_pos hover).trans (if_neg hphase)
      have hpause : ¬ pauseOver r now = true := by simp [pauseOver, hphase]
      rw [hcircuit, if_neg hpause]
      rfl
  · have hcircuit : reconcileCircuit r now = _ := if_neg hover
    have hpause : ¬ pauseOver r now = true := by simp [pauseOver, hover]
    rw [hcircuit, if_neg hpause]

theorem phase_reconcileRetry :
    (reconcileRetry r now).health.phase = (if retryDue r now then .idle else r.health.phase) ∧
      (reconcileRetry r now).health.nextRetryAt =
        if retryDue r now then none else r.health.nextRetryAt := by
  by_cases hdue : retryDue r now = true
  · have hretry : reconcileRetry r now = _ := if_pos hdue
    rw [hretry, if_pos hdue, if_pos hdue]
    exact ⟨rfl, rfl⟩
  · have hretry : reconcileRetry r now = _ := if_neg hdue
    rw [hretry, if_neg hdue, if_neg hdue]
    exact ⟨rfl, rfl⟩

theorem phase_reconcileIdle :
    Soft r.health.phase (reconcileIdle r policy now).health.phase := by
  by_cases huse : r.inUse = true
  · have hidle : reconcileIdle r policy now = _ := if_pos huse
    rw [hidle]
    exact .inl rfl
  · have hidle : reconcileIdle r policy now = _ := if_neg huse
    rw [hidle]
    by_cases hconnecting : r.health.phase = .connecting
    · have hquiet : r.health.phase.recorded = false := by
        rw [hconnecting]
        rfl
      simp only [if_pos hconnecting]
      split
      · exact .inr ⟨hquiet, rfl⟩
      · split
        · exact .inr ⟨hquiet, rfl⟩
        · exact .inr ⟨hquiet, rfl⟩
    · simp only [if_neg hconnecting]
      split
      · exact .inl rfl
      · split
        · rename_i hsilent
          have hquiet : r.health.phase.recorded = false := by
            rw [hsilent.2]
            rfl
          exact .inr ⟨hquiet, rfl⟩
        · exact .inl rfl

/-- What a look does to a phase that shows a failure, and to the time of the retry. -/
theorem recorded_reconcileTimedState :
    (reconcileTimedState r policy now).health.phase.recorded =
        (r.health.phase.recorded && !pauseOver r now && !retryDue r now) ∧
      ((reconcileTimedState r policy now).health.phase.recorded = true →
        (reconcileTimedState r policy now).health.phase = r.health.phase) ∧
      (reconcileTimedState r policy now).health.nextRetryAt =
        if retryDue r now then none else r.health.nextRetryAt := by
  have hsoft₁ := phase_reconcileRateLimit r now
  have hrate : (reconcileRateLimit r now).health.circuitOpenUntil = r.health.circuitOpenUntil ∧
      (reconcileRateLimit r now).health.nextRetryAt = r.health.nextRetryAt ∧
      (reconcileRateLimit r now).inUse = r.inUse := by
    obtain ⟨phase, diagnosis, recommendedAction, since, heq⟩ := reconcileRateLimit_eq r now
    rw [heq]
    exact ⟨rfl, rfl, rfl⟩
  rw [reconcileTimedState]
  generalize reconcileRateLimit r now = r₁ at hsoft₁ hrate ⊢
  have hphase₂ := phase_reconcileCircuit r₁ now
  have hcircuit : (reconcileCircuit r₁ now).health.nextRetryAt = r₁.health.nextRetryAt ∧
      (reconcileCircuit r₁ now).inUse = r₁.inUse := by
    obtain ⟨phase, diagnosis, recommendedAction, since, heq⟩ := reconcileCircuit_eq r₁ now
    rw [heq]
    exact ⟨rfl, rfl⟩
  have hpause : pauseOver r₁ now = pauseOver r now := by
    rw [pauseOver, pauseOver, hrate.1, hsoft₁.tests.2.1]
  rw [hpause] at hphase₂
  generalize reconcileCircuit r₁ now = r₂ at hphase₂ hcircuit ⊢
  obtain ⟨hphase₃, hnext₃⟩ := phase_reconcileRetry r₂ now
  generalize reconcileRetry r₂ now = r₃ at hphase₃ hnext₃ ⊢
  have hsoft₄ := phase_reconcileIdle r₃ policy now
  have hidle : (reconcileIdle r₃ policy now).health.nextRetryAt = r₃.health.nextRetryAt := by
    obtain ⟨phase, diagnosis, recommendedAction, since, heq⟩ := reconcileIdle_eq r₃ policy now
    rw [heq]
  have hnext : r₂.health.nextRetryAt = r.health.nextRetryAt := hcircuit.1.trans hrate.2.1
  rw [hidle, hnext₃, hnext, hsoft₄.tests.1]
  by_cases hover : pauseOver r now = true
  · -- the circuit is open in the phase alone, and the record is not waiting for a retry
    rw [if_pos hover] at hphase₂
    have hphase : r.health.phase = .circuitOpen := by
      simp only [pauseOver, Bool.and_eq_true, beq_iff_eq] at hover
      exact hover.2
    have hdue₂ : retryDue r₂ now = false := by simp [retryDue, hphase₂]
    have hdue : retryDue r now = false := by simp [retryDue, hphase]
    rw [hdue₂, if_neg Bool.false_ne_true, hphase₂] at hphase₃
    have hquiet : r₃.health.phase.recorded = false := by
      rw [hphase₃]
      rfl
    refine ⟨by simp [hquiet, hover], fun hrecorded => ?_, by rw [hdue₂, hdue]⟩
    rw [hquiet] at hrecorded
    cases hrecorded
  · rw [if_neg hover] at hphase₂
    have hdue : retryDue r₂ now = retryDue r now := by
      rw [retryDue, retryDue, hnext, hphase₂, hsoft₁.tests.2.2, hcircuit.2, hrate.2.2]
    rw [hdue] at hphase₃ ⊢
    by_cases hwaits : retryDue r now = true
    · rw [if_pos hwaits] at hphase₃
      have hquiet : r₃.health.phase.recorded = false := by
        rw [hphase₃]
        rfl
      refine ⟨by simp [hquiet, hwaits], fun hrecorded => ?_, rfl⟩
      rw [hquiet] at hrecorded
      cases hrecorded
    · rw [if_neg hwaits, hphase₂] at hphase₃
      rw [hphase₃] at hsoft₄ ⊢
      refine ⟨by simp [hsoft₁.tests.1, hover, hwaits], fun hrecorded => ?_, rfl⟩
      exact (hsoft₁.trans hsoft₄).eq (by rw [hsoft₄.tests.1]; exact hrecorded)

end Phases

/-! ## Records that are alike -/

/-- What the operations of the pool ask of a record, apart from its phase and its deadlines. -/
structure RecordCore where
  definition : ConnectionDefinition
  inUse : Bool
  totalFailures : ℕ
  consecutiveFailures : ℕ
  reconnectAttempts : ℕ
  timeoutCount : ℕ
  lastFailureAt : Option ℤ
  lastFailureReason : Option String

def ConnectionRecord.core (r : ConnectionRecord) : RecordCore where
  definition := r.definition
  inUse := r.inUse
  totalFailures := r.health.totalFailures
  consecutiveFailures := r.health.consecutiveFailures
  reconnectAttempts := r.health.reconnectAttempts
  timeoutCount := r.health.timeoutCount
  lastFailureAt := r.health.lastFailureAt
  lastFailureReason := r.health.lastFailureReason

/-- A guard that was borrowed at one of these times may take the last failure for its own. -/
def Watched (borrowed : List ℤ) (r : ConnectionRecord) : Prop :=
  ∃ borrowedAt ∈ borrowed, ∃ lastFailureAt, r.health.lastFailureAt = some lastFailureAt ∧
    borrowedAt ≤ lastFailureAt

/-- If the phase of one record shows a failure then so does that of the other, and for as
long. -/
def SameMark (r r' : ConnectionRecord) : Prop :=
  r.health.phase.recorded = true ∨ r'.health.phase.recorded = true →
    r'.health.phase = r.health.phase ∧ (r.health.phase = .circuitOpen →
      r'.health.circuitOpenUntil = r.health.circuitOpenUntil)

/-- No operation from `clock` on can tell the records apart, if their guards were borrowed at
these times. -/
structure Akin (clock : ℤ) (borrowed : List ℤ) (r r' : ConnectionRecord) : Prop where
  core : r'.core = r.core
  circuit : unexpired clock r'.health.circuitOpenUntil = unexpired clock r.health.circuitOpenUntil
  limited : unexpired clock r'.health.rateLimitedUntil = unexpired clock r.health.rateLimitedUntil
  marked : Watched borrowed r → SameMark r r'

/-- A deadline that was looked at before is over now if it would have been then. -/
theorem unexpired_unexpired {clock now : ℤ} (hle : clock ≤ now) (until' : Option ℤ) :
    unexpired now (unexpired clock until') = unexpired now until' := by
  cases until' with
  | none => rfl
  | some deadline =>
      by_cases hover : deadline ≤ clock
      · rw [unexpired_of_le hover, unexpired_of_le (Int.le_trans hover hle)]
        rfl
      · rw [unexpired_of_lt (Int.lt_of_not_ge hover)]

theorem unexpired_congr {clock now : ℤ} (hle : clock ≤ now) {until' until'' : Option ℤ}
    (h : unexpired clock until'' = unexpired clock until') :
    unexpired now until'' = unexpired now until' := by
  rw [← unexpired_unexpired hle until'', h, unexpired_unexpired hle]

section Akin

variable {clock now : ℤ} {borrowed borrowed' : List ℤ} {r r' : ConnectionRecord}

theorem Akin.refl (clock : ℤ) (borrowed : List ℤ) (r : ConnectionRecord) :
    Akin clock borrowed r r := ⟨rfl, rfl, rfl, fun _ _ => ⟨rfl, fun _ => rfl⟩⟩

theorem Akin.mono (h : Akin clock borrowed r r') (hle : clock ≤ now) : Akin now borrowed r r' :=
  ⟨h.core, unexpired_congr hle h.circuit, unexpired_congr hle h.limited, h.marked⟩

theorem Akin.subset (h : Akin clock borrowed r r') (hsub : ∀ b ∈ borrowed', b ∈ borrowed) :
    Akin clock borrowed' r r' := by
  refine ⟨h.core, h.circuit, h.limited, fun hwatched => h.marked ?_⟩
  obtain ⟨b, hb, f, hf, hle⟩ := hwatched
  exact ⟨b, hsub b hb, f, hf, hle⟩

theorem Akin.definition (h : Akin clock borrowed r r') : r'.definition = r.definition :=
  congrArg RecordCore.definition h.core

theorem Akin.policy (h : Akin clock borrowed r r') : r'.policy = r.policy :=
  policy_of_definition h.definition

theorem Akin.inUse (h : Akin clock borrowed r r') : r'.inUse = r.inUse :=
  congrArg RecordCore.inUse h.core

theorem Akin.lastFailureAt (h : Akin clock borrowed r r') :
    r'.health.lastFailureAt = r.health.lastFailureAt :=
  congrArg RecordCore.lastFailureAt h.core

/-- A guard sees a failure in both records or in none. -/
theorem Akin.seen (h : Akin clock borrowed r r') {borrowedAt : ℤ} (hb : borrowedAt ∈ borrowed) :
    failureRecordedDuringLease r' borrowedAt = failureRecordedDuringLease r borrowedAt := by
  rw [failureRecordedDuringLease_eq, failureRecordedDuringLease_eq, h.lastFailureAt]
  by_cases hlast : (r.health.lastFailureAt.any fun lastFailureAt => borrowedAt ≤ lastFailureAt) = true
  · obtain ⟨f, hf, hle⟩ := (Option.any_eq_true _ _).mp hlast
    have hmark := h.marked ⟨borrowedAt, hb, f, hf, of_decide_eq_true hle⟩
    by_cases hshown : r.health.phase.recorded = true ∨ r'.health.phase.recorded = true
    · rw [(hmark hshown).1]
    · rw [not_or, Bool.not_eq_true, Bool.not_eq_true] at hshown
      rw [hshown.1, hshown.2]
  · rw [Bool.not_eq_true] at hlast
    rw [hlast, Bool.and_false, Bool.and_false]

theorem reconcileTimedState_spec (r : ConnectionRecord) (policy : ConnectionGovernancePolicy)
    (now : ℤ) :
    (reconcileTimedState r policy now).core = r.core ∧
      (reconcileTimedState r policy now).health.circuitOpenUntil =
        unexpired now r.health.circuitOpenUntil ∧
      (reconcileTimedState r policy now).health.rateLimitedUntil =
        unexpired now r.health.rateLimitedUntil := by
  obtain ⟨phase, diagnosis, recommendedAction, since, retry, hrec⟩ :=
    reconcileTimedState_eq r policy now
  rw [hrec]
  exact ⟨rfl, rfl, rfl⟩

theorem Watched.congr (hlast : r'.health.lastFailureAt = r.health.lastFailureAt)
    (h : Watched borrowed r) : Watched borrowed r' := by
  obtain ⟨b, hb, f, hf, hle⟩ := h
  exact ⟨b, hb, f, hlast.trans hf, hle⟩

/-- An extra look that hides no failure from a guard leaves the records alike. -/
theorem Akin.observe (h : Akin clock borrowed r r') (hle : clock ≤ now)
    (policy : ConnectionGovernancePolicy)
    (hkeep : Watched borrowed r' → pauseOver r' now = false ∧ retryDue r' now = false) :
    Akin now borrowed r (reconcileTimedState r' policy now) := by
  obtain ⟨hcore, hcircuit, hlimited⟩ := reconcileTimedState_spec r' policy now
  refine ⟨hcore.trans h.core, ?_, ?_, ?_⟩
  · rw [hcircuit, unexpired_unexpired (Int.le_refl now), unexpired_congr hle h.circuit]
  · rw [hlimited, unexpired_unexpired (Int.le_refl now), unexpired_congr hle h.limited]
  · intro hwatched hshown
    obtain ⟨hpause, hdue⟩ := hkeep (hwatched.congr h.lastFailureAt)
    obtain ⟨hrecorded, hsame, -⟩ := recorded_reconcileTimedState r' policy now
    rw [hpause, hdue, Bool.not_false, Bool.and_true, Bool.and_true] at hrecorded
    rw [hrecorded] at hshown
    obtain ⟨hphase, hopen⟩ := h.marked hwatched hshown
    have hboth : r'.health.phase.recorded = true := by
      rcases hshown with hr | hr'
      · rw [hphase]
        exact hr
      · exact hr'
    refine ⟨(hsame (hrecorded.trans hboth)).trans hphase, fun hphase' => ?_⟩
    have hopen' : (r'.health.circuitOpenUntil.any fun until' => until' ≤ now) = false := by
      rw [← hphase] at hphase'
      simpa [pauseOver, hphase'] using hpause
    rw [hcircuit, unexpired, hopen', if_neg Bool.false_ne_true]
    exact hopen hphase'

/-- A look at both records leaves them alike, if it does not find the wait for a retry over in
one of them alone. -/
theorem Akin.look (h : Akin clock borrowed r r') (hle : clock ≤ now)
    (policy : ConnectionGovernancePolicy)
    (hdue : Watched borrowed r → retryDue r' now = retryDue r now) :
    Akin now borrowed (reconcileTimedState r policy now) (reconcileTimedState r' policy now) := by
  obtain ⟨hcore, hcircuit, hlimited⟩ := reconcileTimedState_spec r policy now
  obtain ⟨hcore', hcircuit', hlimited'⟩ := reconcileTimedState_spec r' policy now
  have hraw := unexpired_congr hle h.circuit
  refine ⟨hcore'.trans (h.core.trans hcore.symm), ?_, ?_, ?_⟩
  · rw [hcircuit, hcircuit', hraw]
  · rw [hlimited, hlimited', unexpired_congr hle h.limited]
  · intro hwatched hshown
    have hwatched' : Watched borrowed r :=
      hwatched.congr (congrArg RecordCore.lastFailureAt hcore).symm
    obtain ⟨hrecorded, hsame, -⟩ := recorded_reconcileTimedState r policy now
    obtain ⟨hrecorded', hsame', -⟩ := recorded_reconcileTimedState r' policy now
    have hbefore : r.health.phase.recorded = true ∨ r'.health.phase.recorded = true := by
      rw [hrecorded, hrecorded'] at hshown
      simp only [Bool.and_eq_true] at hshown
      exact hshown.imp (fun hr => hr.1.1) (fun hr' => hr'.1.1)
    obtain ⟨hphase, hopen⟩ := h.marked hwatched' hbefore
    have hpause : pauseOver r' now = pauseOver r now := by
      by_cases hcircuitOpen : r.health.phase = .circuitOpen
      · rw [pauseOver, pauseOver, hphase, hopen hcircuitOpen]
      · have hno : (r.health.phase == .circuitOpen) = false := by simp [hcircuitOpen]
        rw [pauseOver, pauseOver, hphase, hno, Bool.and_false, Bool.and_false]
    have hboth : (reconcileTimedState r' policy now).health.phase.recorded =
        (reconcileTimedState r policy now).health.phase.recorded := by
      rw [hrecorded, hrecorded', hphase, hpause, hdue hwatched']
    rw [hboth, or_self] at hshown
    refine ⟨?_, fun _ => by rw [hcircuit, hcircuit', hraw]⟩
    rw [hsame hshown, hsame' (hboth.trans hshown), hphase]

/-- What a failure does to what is asked of a record. -/
def RecordCore.fail (core : RecordCore) (now : ℤ) (reason : String) (isTimeout : Bool) :
    RecordCore :=
  { core with
    totalFailures := saturatingSucc core.totalFailures
    consecutiveFailures := saturatingSucc core.consecutiveFailures
    reconnectAttempts := saturatingSucc core.reconnectAttempts
    timeoutCount := if isTimeout then saturatingSucc core.timeoutCount else core.timeoutCount
    lastFailureAt := some now
    lastFailureReason := some reason }

theorem core_applyRuntimeFailure (r : ConnectionRecord) (policy : ConnectionGovernancePolicy)
    (now : ℤ) (reason : String) (isTimeout : Bool) :
    (applyRuntimeFailure r policy now reason isTimeout).1.core =
      r.core.fail now reason isTimeout := by
  by_cases hopen : policy.circuitFailureThreshold ≤ saturatingSucc r.health.consecutiveFailures
  · have hfailure : applyRuntimeFailure r policy now reason isTimeout = _ := if_pos hopen
    rw [hfailure]
    rfl
  · have hfailure : applyRuntimeFailure r policy now reason isTimeout = _ := if_neg hopen
    rw [hfailure]
    rfl

/-- A failure of both records leaves them alike. -/
theorem Akin.fail (h : Akin clock borrowed r r') (hle : clock ≤ now)
    (policy : ConnectionGovernancePolicy) (reason : String) (isTimeout : Bool) :
    Akin now borrowed (applyRuntimeFailure r policy now reason isTimeout).1
      (applyRuntimeFailure r' policy now reason isTimeout).1 := by
  have hcount : r'.health.consecutiveFailures = r.health.consecutiveFailures :=
    congrArg RecordCore.consecutiveFailures h.core
  have hcore : (applyRuntimeFailure r' policy now reason isTimeout).1.core =
      (applyRuntimeFailure r policy now reason isTimeout).1.core := by
    rw [core_applyRuntimeFailure, core_applyRuntimeFailure, h.core]
  have hlimited : unexpired now
        (applyRuntimeFailure r' policy now reason isTimeout).1.health.rateLimitedUntil =
      unexpired now
        (applyRuntimeFailure r policy now reason isTimeout).1.health.rateLimitedUntil := by
    have hr := (applyRuntimeFailure_spec r policy now reason isTimeout).2.2.2.2.2
    have hr' := (applyRuntimeFailure_spec r' policy now reason isTimeout).2.2.2.2.2
    rw [hr, hr', unexpired_congr hle h.limited]
  have hends : (applyRuntimeFailure r' policy now reason isTimeout).1.health.phase =
        (applyRuntimeFailure r policy now reason isTimeout).1.health.phase ∧
      (applyRuntimeFailure r' policy now reason isTimeout).1.health.circuitOpenUntil =
        (applyRuntimeFailure r policy now reason isTimeout).1.health.circuitOpenUntil := by
    by_cases hopen : policy.circuitFailureThreshold ≤ saturatingSucc r.health.consecutiveFailures
    · obtain ⟨hphase, hcircuit⟩ := phase_of_opened now reason isTimeout hopen
      rw [← hcount] at hopen
      obtain ⟨hphase', hcircuit'⟩ := phase_of_opened now reason isTimeout hopen
      rw [hphase, hphase', hcircuit, hcircuit']
      exact ⟨rfl, rfl⟩
    · obtain ⟨hphase, hcircuit⟩ := phase_of_backedOff now reason isTimeout hopen
      rw [← hcount] at hopen
      obtain ⟨hphase', hcircuit'⟩ := phase_of_backedOff now reason isTimeout hopen
      rw [hphase, hphase', hcircuit, hcircuit']
      exact ⟨rfl, rfl⟩
  exact ⟨hcore, by rw [hends.2], hlimited, fun _ _ => ⟨hends.1, fun _ => hends.2⟩⟩

/-- Changes that set the phase of both records to one that shows no failure. -/
theorem Akin.soften {s s' : ConnectionRecord} (h : Akin clock borrowed r r') (hle : clock ≤ now)
    (hcore : s'.core = s.core)
    (hcircuit : s'.health.circuitOpenUntil = s.health.circuitOpenUntil ∨
      s'.health.circuitOpenUntil = r'.health.circuitOpenUntil ∧
        s.health.circuitOpenUntil = r.health.circuitOpenUntil)
    (hlimited : s'.health.rateLimitedUntil = s.health.rateLimitedUntil ∨
      s'.health.rateLimitedUntil = r'.health.rateLimitedUntil ∧
        s.health.rateLimitedUntil = r.health.rateLimitedUntil)
    (hquiet : s.health.phase.recorded = false ∧ s'.health.phase.recorded = false ∨
      s'.health.phase = s.health.phase ∧ s.health.phase ≠ .circuitOpen) :
    Akin now borrowed' s s' := by
  refine ⟨hcore, ?_, ?_, fun _ hshown => ?_⟩
  · rcases hcircuit with hsame | ⟨hs', hs⟩
    · rw [hsame]
    · rw [hs, hs', unexpired_congr hle h.circuit]
  · rcases hlimited with hsame | ⟨hs', hs⟩
    · rw [hsame]
    · rw [hs, hs', unexpired_congr hle h.limited]
  · rcases hquiet with ⟨hs, hs'⟩ | ⟨hphase, hclosed⟩
    · rw [hs, hs'] at hshown
      simp at hshown
    · exact ⟨hphase, fun hopen => absurd hopen hclosed⟩

variable {parseUrl : UrlParser}

theorem phase_lend (r : ConnectionRecord) (now : ℤ) : (lend r now).health.phase =
    if 0 < r.health.consecutiveFailures then .reconnecting else .connecting := rfl

/-- Acquires of records that are alike have the same answer, and the records stay alike. -/
theorem Akin.acquire (parseUrl : UrlParser) (borrowed' : List ℤ)
    (h : Akin clock borrowed r r') (hle : clock ≤ now) (id : String) (windows : AttemptWindows)
    (hdue : Watched borrowed r → retryDue r' now = retryDue r now) :
    (acquireRecord parseUrl id r' windows now).2 = (acquireRecord parseUrl id r windows now).2 ∧
      (∀ e, (acquireRecord parseUrl id r windows now).2.2 = .error e →
        Akin now borrowed (acquireRecord parseUrl id r windows now).1
          (acquireRecord parseUrl id r' windows now).1) ∧
      ∀ lease, (acquireRecord parseUrl id r windows now).2.2 = .ok lease →
        Akin now borrowed' (acquireRecord parseUrl id r windows now).1
          (acquireRecord parseUrl id r' windows now).1 := by
  have hmetadata : r'.metadata = r.metadata :=
    congrArg ConnectionDefinition.metadata h.definition
  have hlook := h.look hle (.fromMetadata r.metadata) hdue
  obtain ⟨-, hcircuit, hlimited⟩ := reconcileTimedState_spec r (.fromMetadata r.metadata) now
  obtain ⟨-, hcircuit', hlimited'⟩ := reconcileTimedState_spec r' (.fromMetadata r.metadata) now
  have hopen := hcircuit'.trans ((unexpired_congr hle h.circuit).trans hcircuit.symm)
  have hrate := hlimited'.trans ((unexpired_congr hle h.limited).trans hlimited.symm)
  simp only [acquireRecord, hmetadata]
  generalize reconcileTimedState r (.fromMetadata r.metadata) now = q at hlook hopen hrate
  generalize reconcileTimedState r' (.fromMetadata r.metadata) now = q' at hlook hopen hrate
  have hid : q'.id = q.id := congrArg ConnectionDefinition.id hlook.definition
  have hkind : q'.kind = q.kind := congrArg ConnectionDefinition.kind hlook.definition
  have hmeta : q'.metadata = q.metadata := congrArg ConnectionDefinition.metadata hlook.definition
  have hreason : q'.health.lastFailureReason = q.health.lastFailureReason :=
    congrArg RecordCore.lastFailureReason hlook.core
  rw [hlook.inUse, hkind, hmeta, hopen, hrate, hreason, hid]
  have hno : ∀ {e : EngineError} {lease : ConnectionLease},
      (Except.error e : Except EngineError ConnectionLease) ≠ .ok lease := by
    intro e lease heq
    cases heq
  by_cases huse : q.inUse = true
  · simp only [if_pos huse]
    exact ⟨trivial, fun _ _ => hlook, fun _ hok => absurd hok hno⟩
  · simp only [if_neg huse]
    cases hvalid : validateConnectionDefinition parseUrl q.kind q.metadata with
    | error reason =>
        refine ⟨rfl, fun _ _ => ?_, fun _ hok => absurd hok hno⟩
        apply hlook.soften (Int.le_refl now)
        · exact congrArg (fun core : RecordCore => { core with
            inUse := false
            lastFailureAt := some now
            lastFailureReason := some reason }) hlook.core
        · exact .inr ⟨rfl, rfl⟩
        · exact .inr ⟨rfl, rfl⟩
        · exact .inl ⟨rfl, rfl⟩
    | ok _ =>
        by_cases hpause : (q.health.circuitOpenUntil.any fun until' => now < until') = true
        · simp only [if_pos hpause]
          exact ⟨trivial, fun _ _ => hlook, fun _ hok => absurd hok hno⟩
        · simp only [if_neg hpause]
          by_cases hlimit : (q.health.rateLimitedUntil.any fun until' => now < until') = true
          · simp only [if_pos hlimit]
            exact ⟨trivial, fun _ _ => hlook, fun _ hok => absurd hok hno⟩
          · simp only [if_neg hlimit]
            cases registerAttempt windows id (.fromMetadata r.metadata) now with
            | mk windows' answer =>
                cases answer with
                | error retryAfterMs =>
                    refine ⟨rfl, fun _ _ => ?_, fun _ hok => absurd hok hno⟩
                    apply hlook.soften (Int.le_refl now)
                    · exact hlook.core
                    · exact .inr ⟨rfl, rfl⟩
                    · exact .inl rfl
                    · exact .inl ⟨rfl, rfl⟩
                | ok _ =>
                    refine ⟨rfl, fun _ herror => absurd herror.symm hno, fun _ _ => ?_⟩
                    have hcount : q'.health.consecutiveFailures = q.health.consecutiveFailures :=
                      congrArg RecordCore.consecutiveFailures hlook.core
                    apply hlook.soften (Int.le_refl now)
                    · exact congrArg (fun core : RecordCore => { core with inUse := true })
                        hlook.core
                    · exact .inr ⟨rfl, rfl⟩
                    · exact .inr ⟨rfl, rfl⟩
                    · refine .inr ⟨?_, ?_⟩
                      · rw [phase_lend, phase_lend, hcount]
                      · rw [phase_lend]
                        split
                        · exact ConnectionHealthState.noConfusion
                        · exact ConnectionHealthState.noConfusion

/-- What a heartbeat leaves: of the phases that show a failure, an open circuit alone. -/
theorem recordHeartbeat_spec (r : ConnectionRecord) (diagnosis : String) (now : ℤ) :
    (recordHeartbeat r diagnosis now).core = r.core ∧
      (recordHeartbeat r diagnosis now).health.circuitOpenUntil = r.health.circuitOpenUntil ∧
      (recordHeartbeat r diagnosis now).health.rateLimitedUntil = r.health.rateLimitedUntil ∧
      ((recordHeartbeat r diagnosis now).health.phase.recorded = true →
        r.health.phase = .circuitOpen) ∧
      (r.health.phase = .circuitOpen →
        (recordHeartbeat r diagnosis now).health.phase = .circuitOpen) := by
  by_cases hphase : r.health.phase = .invalid ∨ r.health.phase = .circuitOpen ∨
      r.health.phase = .rateLimited
  · have hbeat : recordHeartbeat r diagnosis now = _ := if_pos hphase
    rw [hbeat]
    refine ⟨rfl, rfl, rfl, fun hrecorded => ?_, fun hopen => hopen⟩
    have hrecorded : r.health.phase.recorded = true := hrecorded
    rcases hphase with hinvalid | hopen | hlimited
    · rw [hinvalid] at hrecorded
      cases hrecorded
    · exact hopen
    · rw [hlimited] at hrecorded
      cases hrecorded
  · have hbeat : recordHeartbeat r diagnosis now = _ := if_neg hphase
    rw [hbeat]
    refine ⟨rfl, rfl, rfl, fun hrecorded => ?_, fun hopen => absurd (.inr (.inl hopen)) hphase⟩
    have hrecorded : (if r.inUse then ConnectionHealthState.healthy
      else .degraded).recorded = true := hrecorded
    split at hrecorded
    · cases hrecorded
    · cases hrecorded

theorem Akin.beat (h : Akin clock borrowed r r') (hle : clock ≤ now) (diagnosis : String) :
    Akin now borrowed (recordHeartbeat r diagnosis now) (recordHeartbeat r' diagnosis now) := by
  obtain ⟨hcore, hcircuit, hlimited, hshows, hstays⟩ := recordHeartbeat_spec r diagnosis now
  obtain ⟨hcore', hcircuit', hlimited', hshows', hstays'⟩ := recordHeartbeat_spec r' diagnosis now
  refine ⟨by rw [hcore, hcore', h.core], ?_, ?_, fun hwatched hshown => ?_⟩
  · rw [hcircuit, hcircuit', unexpired_congr hle h.circuit]
  · rw [hlimited, hlimited', unexpired_congr hle h.limited]
  · have hwatched' : Watched borrowed r :=
      hwatched.congr (congrArg RecordCore.lastFailureAt hcore).symm
    have hbefore : r.health.phase.recorded = true ∨ r'.health.phase.recorded = true := by
      rcases hshown with hr | hr'
      · rw [hshows hr]
        exact .inl rfl
      · rw [hshows' hr']
        exact .inr rfl
    obtain ⟨hphase, hopen⟩ := h.marked hwatched' hbefore
    have hopened : r.health.phase = .circuitOpen := by
      rcases hshown with hr | hr'
      · exact hshows hr
      · rw [← hphase]
        exact hshows' hr'
    refine ⟨?_, fun _ => by rw [hcircuit, hcircuit', hopen hopened]⟩
    rw [hstays hopened, hstays' (hphase.trans hopened)]

theorem Akin.health (h : Akin clock borrowed r r') (hle : clock ≤ now) (op : HealthOp)
    (hdue : (RecordAction.health op).polls = true → Watched borrowed r →
      retryDue r' now = retryDue r now) :
    Akin now borrowed (op.apply now r) (op.apply now r') := by
  have hmetadata : r'.metadata = r.metadata :=
    congrArg ConnectionDefinition.metadata h.definition
  cases op with
  | recordConnectSuccess diagnosis latencyMs =>
      apply h.soften hle
      · exact congrArg (fun core : RecordCore => { core with
          consecutiveFailures := 0
          reconnectAttempts := 0 }) h.core
      · exact .inl rfl
      · exact .inl rfl
      · exact .inl ⟨rfl, rfl⟩
  | recordHeartbeat diagnosis => exact h.beat hle diagnosis
  | recordConnectFailure reason =>
      rw [HealthOp.apply, HealthOp.apply, Nazh.recordConnectFailure, Nazh.recordConnectFailure,
        hmetadata]
      exact h.fail hle _ reason false
  | recordTimeout reason =>
      rw [HealthOp.apply, HealthOp.apply, Nazh.recordTimeout, Nazh.recordTimeout, hmetadata]
      exact h.fail hle _ reason true
  | markInvalidConfiguration reason =>
      apply h.soften hle
      · exact congrArg (fun core : RecordCore => { core with
          inUse := false
          lastFailureAt := some now
          lastFailureReason := some reason }) h.core
      · exact .inr ⟨rfl, rfl⟩
      · exact .inr ⟨rfl, rfl⟩
      · exact .inl ⟨rfl, rfl⟩
  | markDisconnected diagnosis =>
      apply h.soften hle
      · exact congrArg (fun core : RecordCore => { core with inUse := false }) h.core
      · exact .inr ⟨rfl, rfl⟩
      · exact .inr ⟨rfl, rfl⟩
      · exact .inl ⟨rfl, rfl⟩
  | resetCircuitBreaker =>
      apply h.soften hle
      · exact congrArg (fun core : RecordCore => { core with
          consecutiveFailures := 0
          reconnectAttempts := 0 }) h.core
      · exact .inl rfl
      · exact .inl rfl
      · exact .inl ⟨rfl, rfl⟩
  | get =>
      rw [HealthOp.apply, HealthOp.apply, hmetadata]
      exact h.look hle (.fromMetadata r.metadata) (hdue rfl)

/-- A record that was marked as idle shows no failure. -/
theorem markIdle_spec (r : ConnectionRecord) (diagnosis : String) (now : ℤ) :
    (markIdle r diagnosis now).core = { r.core with inUse := false } ∧
      (markIdle r diagnosis now).health.circuitOpenUntil = r.health.circuitOpenUntil ∧
      (markIdle r diagnosis now).health.rateLimitedUntil = r.health.rateLimitedUntil ∧
      (markIdle r diagnosis now).health.phase.recorded = false := by
  by_cases hinvalid : r.health.phase = .invalid
  · have hidle : markIdle r diagnosis now = _ := if_pos hinvalid
    rw [hidle]
    refine ⟨rfl, rfl, rfl, ?_⟩
    have hphase : r.health.phase.recorded = false := by
      rw [hinvalid]
      rfl
    exact hphase
  · by_cases hfailed : r.health.lastFailureReason.isSome ∧
        (r.health.phase = .circuitOpen ∨ r.health.phase = .disconnected ∨
          r.health.phase = .rateLimited ∨ r.health.phase = .reconnecting ∨
          r.health.phase = .timeout)
    · have hidle : markIdle r diagnosis now = _ := (if_neg hinvalid).trans (if_pos hfailed)
      rw [hidle]
      exact ⟨rfl, rfl, rfl, rfl⟩
    · have hidle : markIdle r diagnosis now = _ := (if_neg hinvalid).trans (if_neg hfailed)
      rw [hidle]
      exact ⟨rfl, rfl, rfl, rfl⟩

theorem Akin.sweep (h : Akin clock borrowed r r') (hle : clock ≤ now) (op : SweepOp)
    (hdue : (RecordAction.sweep op).polls = true → Watched borrowed r →
      retryDue r' now = retryDue r now) :
    Akin now borrowed (op.apply now r) (op.apply now r') := by
  cases op with
  | list =>
      have hmetadata : r'.metadata = r.metadata :=
        congrArg ConnectionDefinition.metadata h.definition
      rw [SweepOp.apply, SweepOp.apply, hmetadata]
      exact h.look hle (.fromMetadata r.metadata) (hdue rfl)
  | markAllIdle diagnosis startedAt =>
      obtain ⟨hcore, hcircuit, hlimited, hquiet⟩ := markIdle_spec r diagnosis startedAt
      obtain ⟨hcore', hcircuit', hlimited', hquiet'⟩ := markIdle_spec r' diagnosis startedAt
      apply h.soften hle
      · rw [SweepOp.apply, SweepOp.apply, hcore, hcore', h.core]
      · exact .inr ⟨hcircuit', hcircuit⟩
      · exact .inr ⟨hlimited', hlimited⟩
      · exact .inl ⟨hquiet, hquiet'⟩

theorem Akin.released (h : Akin clock borrowed r r') (hle : clock ≤ now) (borrowedAt : ℤ) :
    Akin now borrowed (released r borrowedAt now) (released r' borrowedAt now) where
  core := congrArg (fun core : RecordCore => { core with inUse := false }) h.core
  circuit := unexpired_congr hle h.circuit
  limited := unexpired_congr hle h.limited
  marked := h.marked

/-- Dropping a guard of both records: the guard sees a failure in both or in none. -/
theorem Akin.release (h : Akin clock borrowed r r') (hle : clock ≤ now) {borrowedAt : ℤ}
    (hb : borrowedAt ∈ borrowed) (outcome : ConnectionOutcome) :
    Akin now borrowed (finalizeRelease r borrowedAt outcome now)
      (finalizeRelease r' borrowedAt outcome now) := by
  have hreleased := h.released hle borrowedAt
  have hpolicy : ConnectionGovernancePolicy.fromMetadata r'.metadata =
    ConnectionGovernancePolicy.fromMetadata r.metadata := h.policy
  by_cases hover : r.policy.operationTimeoutMs < elapsedMs borrowedAt now
  · have hrelease : finalizeRelease r borrowedAt outcome now = _ := if_pos hover
    rw [← h.policy] at hover
    have hrelease' : finalizeRelease r' borrowedAt outcome now = _ := if_pos hover
    rw [hrelease, hrelease', hpolicy]
    exact hreleased.fail (Int.le_refl now) _ _ true
  · have hover' : ¬ r'.policy.operationTimeoutMs < elapsedMs borrowedAt now := by
      rw [h.policy]
      exact hover
    cases outcome with
    | pending =>
        have hrelease : finalizeRelease r borrowedAt .pending now = _ := if_neg hover
        have hrelease' : finalizeRelease r' borrowedAt .pending now = _ := if_neg hover'
        rw [hrelease, hrelease']
        apply h.soften hle
        · exact hreleased.core
        · exact .inr ⟨rfl, rfl⟩
        · exact .inr ⟨rfl, rfl⟩
        · exact .inl ⟨rfl, rfl⟩
    | success =>
        have hrelease : finalizeRelease r borrowedAt .success now = _ := if_neg hover
        have hrelease' : finalizeRelease r' borrowedAt .success now = _ := if_neg hover'
        rw [hrelease, hrelease']
        apply h.soften hle
        · exact congrArg (fun core : RecordCore => { core with
            consecutiveFailures := 0
            reconnectAttempts := 0 }) hreleased.core
        · exact .inl rfl
        · exact .inl rfl
        · exact .inl ⟨rfl, rfl⟩
    | failure reason =>
        have hseen := h.seen hb
        cases hrecorded : failureRecordedDuringLease r borrowedAt with
        | true =>
            rw [hrecorded] at hseen
            have hrelease : finalizeRelease r borrowedAt (.failure reason) now = _ :=
              (if_neg hover).trans (if_pos hrecorded)
            have hrelease' : finalizeRelease r' borrowedAt (.failure reason) now = _ :=
              (if_neg hover').trans (if_pos hseen)
            rw [hrelease, hrelease']
            exact hreleased
        | false =>
            rw [hrecorded] at hseen
            have hnot : ¬ failureRecordedDuringLease r borrowedAt = true := by simp [hrecorded]
            have hnot' : ¬ failureRecordedDuringLease r' borrowedAt = true := by simp [hseen]
            have hrelease : finalizeRelease r borrowedAt (.failure reason) now = _ :=
              (if_neg hover).trans (if_neg hnot)
            have hrelease' : finalizeRelease r' borrowedAt (.failure reason) now = _ :=
              (if_neg hover').trans (if_neg hnot')
            rw [hrelease, hrelease', hpolicy]
            exact hreleased.fail (Int.le_refl now) _ _ false

/-- An action keeps records alike. A guard may be new if the action lends the record, and a
guard that is dropped was one of them. -/
theorem Akin.apply {action : RecordAction} (h : Akin clock borrowed r r') (hle : clock ≤ now)
    (hdue : action.polls = true → Watched borrowed r → retryDue r' now = retryDue r now)
    (hdropped : ∀ borrowedAt outcome, action = .release borrowedAt outcome →
      borrowedAt ∈ borrowed)
    (hborrowed : ∀ b ∈ borrowed', b ∈ borrowed ∨ ∃ id windows lease,
      action = .acquire id windows ∧
        (acquireRecord parseUrl id r windows now).2.2 = .ok lease) :
    Akin now borrowed' (action.apply parseUrl now r) (action.apply parseUrl now r') := by
  cases action with
  | acquire id windows =>
      obtain ⟨-, herror, hok⟩ := h.acquire parseUrl borrowed' hle id windows (hdue rfl)
      cases hanswer : (acquireRecord parseUrl id r windows now).2.2 with
      | error e =>
          apply (herror e hanswer).subset
          intro b hb
          rcases hborrowed b hb with hold | ⟨id', windows', lease, heq, hlent⟩
          · exact hold
          · cases heq
            rw [hanswer] at hlent
            cases hlent
      | ok lease => exact hok lease hanswer
  | health op =>
      apply (h.health hle op hdue).subset
      intro b hb
      rcases hborrowed b hb with hold | ⟨id', windows', lease, heq, -⟩
      · exact hold
      · cases heq
  | sweep op =>
      apply (h.sweep hle op hdue).subset
      intro b hb
      rcases hborrowed b hb with hold | ⟨id', windows', lease, heq, -⟩
      · exact hold
      · cases heq
  | release borrowedAt outcome =>
      apply (h.release hle (hdropped borrowedAt outcome rfl) outcome).subset
      intro b hb
      rcases hborrowed b hb with hold | ⟨id', windows', lease, heq, -⟩
      · exact hold
      · cases heq

end Akin

end Nazh
