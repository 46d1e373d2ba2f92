import Nazh.Connections.RateLimit

/-!
# Dates that cannot be represented

The limits of a connection are added to and taken from the current time, and a `DateTime<Utc>` that
leaves its range is a panic: in `acquire`, in the recording of a failure, or in the `Drop` of a
guard. A limit is bounded from below but not from above. These are the dates that each operation
computes, for readings of the clock within a given interval.
-/

namespace Nazh

open Lib

/-! ## Dates -/

/-- `DateTime::<Utc>::MIN_UTC`. -/
def minUtc : ℤ := -8334601228800 * 1000000000

/-- `DateTime::<Utc>::MAX_UTC`. -/
def maxUtc : ℤ := 8210266876800 * 1000000000 - 1

/-- The readings of the clock. -/
structure WallClock where
  first : ℤ
  last : ℤ
  ordered : first ≤ last
  minUtc_le_first : minUtc ≤ first
  last_le_maxUtc : last ≤ maxUtc

def WallClock.reads (clock : WallClock) (now : ℤ) : Bool := clock.first ≤ now && now ≤ clock.last

/-- The date that `apply_runtime_failure` computes: the end of the circuit's pause, or of the wait
before a retry. -/
def failureDate (record : ConnectionRecord) (now : ℤ) : ℤ :=
  if record.policy.circuitFailureThreshold ≤ saturatingSucc record.health.consecutiveFailures then
    now + durationMs record.policy.circuitOpenMs
  else
    now + durationMs
      (record.policy.reconnectDelayMs (saturatingSucc record.health.reconnectAttempts))

/-- The dates that `acquire` computes: the start of the window, and the end of the cooldown if the
window is full. -/
def acquireDates (parseUrl : UrlParser) (connectionId : String) (record : ConnectionRecord)
    (windows : AttemptWindows) (now : ℤ) : List ℤ :=
  let policy := record.policy
  let record := reconcileTimedState record policy now
  if record.inUse then []
  else match validateConnectionDefinition parseUrl record.kind record.metadata with
    | .error _ => []
    | .ok () =>
        if record.health.circuitOpenUntil.any fun until' => now < until' then []
        else if record.health.rateLimitedUntil.any fun until' => now < until' then []
        else (now - durationMs policy.rateLimitWindowMs) ::
          match (registerAttempt windows connectionId policy now).2 with
          | .error retryAfterMs => [now + durationMs retryAfterMs]
          | .ok () => []

/-- The dates that an action on a record computes. -/
def RecordAction.dates (parseUrl : UrlParser) (record : ConnectionRecord) (now : ℤ)
    (action : RecordAction) : List ℤ :=
  match action with
  | acquire connectionId windows => acquireDates parseUrl connectionId record windows now
  | action => if action.fails record now then [failureDate record now] else []

/-- Limits with which all dates are in the range. The longest wait before a retry is the one after
the last failure that leaves the circuit closed. -/
structure Representable (clock : WallClock) (policy : ConnectionGovernancePolicy) : Prop where
  window : minUtc ≤ clock.first - durationMs policy.rateLimitWindowMs
  cooldown : clock.last + durationMs policy.rateLimitCooldownMs ≤ maxUtc
  circuit : clock.last + durationMs policy.circuitOpenMs ≤ maxUtc
  retry : 1 < policy.circuitFailureThreshold →
    clock.last + durationMs (policy.reconnectDelayMs (policy.circuitFailureThreshold - 1)) ≤ maxUtc

section Dates

variable {parseUrl : UrlParser} {clock : WallClock} {record : ConnectionRecord} {now : ℤ}

theorem durationMs_nonneg (value : ℕ) : 0 ≤ durationMs value := by
  rw [durationMs]
  omega

theorem durationMs_mono {m n : ℕ} (h : m ≤ n) : durationMs m ≤ durationMs n := by
  rw [durationMs, durationMs]
  omega

/-- A later retry does not wait for less. -/
theorem reconnectDelayMs_mono (policy : ConnectionGovernancePolicy) {m n : ℕ} (h : m ≤ n) :
    policy.reconnectDelayMs m ≤ policy.reconnectDelayMs n := by
  unfold ConnectionGovernancePolicy.reconnectDelayMs
  gcongr
  omega

/-- As many retries were counted as failures in a row. -/
def ConnectionRecord.Even (record : ConnectionRecord) : Prop :=
  record.health.reconnectAttempts = record.health.consecutiveFailures

theorem failureDate_range (h : Representable clock record.policy) (heven : record.Even)
    (hnow : clock.reads now = true) :
    minUtc ≤ failureDate record now ∧ failureDate record now ≤ maxUtc := by
  simp only [WallClock.reads, Bool.and_eq_true, decide_eq_true_eq] at hnow
  have hfirst := clock.minUtc_le_first
  rw [failureDate]
  split
  · have hcircuit := h.circuit
    have hspan := durationMs_nonneg record.policy.circuitOpenMs
    omega
  · rename_i hclosed
    rw [heven]
    have hcount : 1 ≤ saturatingSucc record.health.consecutiveFailures := by
      rw [saturatingSucc]
      omega
    have hretry := h.retry (by omega)
    have hdelay := durationMs_mono (reconnectDelayMs_mono record.policy
      (show saturatingSucc record.health.consecutiveFailures ≤
        record.policy.circuitFailureThreshold - 1 by omega))
    have hspan := durationMs_nonneg (record.policy.reconnectDelayMs
      (saturatingSucc record.health.consecutiveFailures))
    omega

theorem retryAfterMs_of_registerAttempt {windows : AttemptWindows} {id : String}
    {policy : ConnectionGovernancePolicy} {retryAfterMs : ℕ}
    (h : (registerAttempt windows id policy now).2 = .error retryAfterMs) :
    retryAfterMs = policy.rateLimitCooldownMs := by
  rw [registerAttempt_eq] at h
  split at h
  · cases h
  · exact (Except.error.inj h).symm

theorem acquireDates_range {windows : AttemptWindows} {id : String}
    (h : Representable clock record.policy) (hnow : clock.reads now = true) {date : ℤ}
    (hdate : date ∈ acquireDates parseUrl id record windows now) : minUtc ≤ date ∧ date ≤ maxUtc := by
  simp only [WallClock.reads, Bool.and_eq_true, decide_eq_true_eq] at hnow
  have hfirst := clock.minUtc_le_first
  have hlast := clock.last_le_maxUtc
  have hwindow := h.window
  have hspan := durationMs_nonneg record.policy.rateLimitWindowMs
  simp only [acquireDates] at hdate
  split at hdate
  · cases hdate
  · split at hdate
    · cases hdate
    · split at hdate
      · cases hdate
      · split at hdate
        · cases hdate
        · rcases List.mem_cons.mp hdate with rfl | hdate
          · omega
          · split at hdate
            · rename_i retryAfterMs hregister
              obtain rfl := List.mem_singleton.mp hdate
              have hcooldown := h.cooldown
              rw [retryAfterMs_of_registerAttempt hregister]
              have hwait := durationMs_nonneg record.policy.rateLimitCooldownMs
              omega
            · cases hdate

/-- With representable limits, an action on a record computes dates in the range. -/
theorem RecordAction.dates_range {action : RecordAction} (h : Representable clock record.policy)
    (heven : record.Even) (hnow : clock.reads now = true) {date : ℤ}
    (hdate : date ∈ action.dates parseUrl record now) : minUtc ≤ date ∧ date ≤ maxUtc := by
  have hfailure : date ∈ (if action.fails record now then [failureDate record now] else []) →
      minUtc ≤ date ∧ date ≤ maxUtc := by
    intro hmem
    split at hmem
    · obtain rfl := List.mem_singleton.mp hmem
      exact failureDate_range h heven hnow
    · cases hmem
  cases action with
  | acquire id windows =>
      change date ∈ acquireDates parseUrl id record windows now at hdate
      exact acquireDates_range h hnow hdate
  | health op => exact hfailure hdate
  | sweep op => exact hfailure hdate
  | release borrowedAt outcome => exact hfailure hdate

end Dates

/-! ## The counts of a record -/

section Even

variable {parseUrl : UrlParser} {record : ConnectionRecord} {now : ℤ}

theorem even_buildRecord (definition : ConnectionDefinition) :
    (buildRecord parseUrl definition).Even := by
  unfold buildRecord refreshDefinitionDiagnosis
  split
  · exact rfl
  · exact rfl

theorem even_reconcileTimedState (h : record.Even) (policy : ConnectionGovernancePolicy) :
    (reconcileTimedState record policy now).Even := by
  obtain ⟨phase, diagnosis, recommendedAction, since, retry, hrec⟩ :=
    reconcileTimedState_eq record policy now
  rw [hrec]
  exact h

theorem even_applyRuntimeFailure (h : record.Even) (policy : ConnectionGovernancePolicy)
    (reason : String) (isTimeout : Bool) :
    (applyRuntimeFailure record policy now reason isTimeout).1.Even := by
  have hcounts : saturatingSucc record.health.reconnectAttempts =
      saturatingSucc record.health.consecutiveFailures := congrArg saturatingSucc h
  by_cases hthreshold : policy.circuitFailureThreshold ≤
      saturatingSucc record.health.consecutiveFailures
  · have hopen : applyRuntimeFailure record policy now reason isTimeout = _ := if_pos hthreshold
    rw [hopen]
    exact hcounts
  · have hclosed : applyRuntimeFailure record policy now reason isTimeout = _ := if_neg hthreshold
    rw [hclosed]
    exact hcounts

theorem even_healthOp (h : record.Even) (op : HealthOp) : (op.apply now record).Even := by
  cases op with
  | recordConnectSuccess diagnosis latencyMs => exact rfl
  | recordHeartbeat diagnosis =>
      simp only [HealthOp.apply, recordHeartbeat]
      split
      · exact h
      · exact h
  | recordConnectFailure reason => exact even_applyRuntimeFailure h _ _ _
  | recordTimeout reason => exact even_applyRuntimeFailure h _ _ _
  | markInvalidConfiguration reason => exact h
  | markDisconnected diagnosis => exact h
  | resetCircuitBreaker => exact rfl
  | get => exact even_reconcileTimedState h _

theorem even_sweepOp (h : record.Even) (op : SweepOp) : (op.apply now record).Even := by
  cases op with
  | list => exact even_reconcileTimedState h _
  | markAllIdle diagnosis startedAt =>
      simp only [SweepOp.apply, markIdle]
      split
      · exact h
      · split
        · exact h
        · exact h

/-- No action counts a retry without a failure, or forgets one without the other. -/
theorem RecordAction.even_apply (h : record.Even) (action : RecordAction) :
    (action.apply parseUrl now record).Even := by
  cases action with
  | acquire id windows =>
      have hrec : (reconcileTimedState record (.fromMetadata record.metadata) now).Even :=
        even_reconcileTimedState h _
      have hout := acquireRecord_outcome parseUrl id record windows now
      rw [RecordAction.apply]
      generalize acquireRecord parseUrl id record windows now = answer at hout
      cases hout with
      | busy => exact hrec
      | invalid reason => exact hrec
      | circuitOpen reason => exact hrec
      | limited deadline => exact hrec
      | refused windows' retryAfterMs => exact hrec
      | lent windows' => exact hrec
  | health op => exact even_healthOp h op
  | sweep op => exact even_sweepOp h op
  | release borrowedAt outcome =>
      have hreleased : (released record borrowedAt now).Even := h
      have hout := finalizeRelease_outcome record borrowedAt outcome now
      rw [RecordAction.apply]
      generalize finalizeRelease record borrowedAt outcome now = answer at hout
      cases hout with
      | overTime outcome reason => exact even_applyRuntimeFailure hreleased _ _ _
      | success diagnosis => exact rfl
      | recorded reason => exact h
      | failure reason text => exact even_applyRuntimeFailure hreleased _ _ _
      | pending diagnosis recommendedAction => exact h

end Even

/-! ## All records of a pool -/

namespace Pool

/-- Every record satisfies `I`, and every definition that a call waits to declare is good. -/
structure Everywhere (good : ConnectionDefinition → Prop) (I : ConnectionRecord → Prop)
    (pool : Pool) : Prop where
  record : ∀ r ∈ pool.heap, I r
  waiting : ∀ call ∈ pool.calls, ∀ definition ∈ call.definitions, good definition

section Everywhere

variable {parseUrl : UrlParser} {good : ConnectionDefinition → Prop} {I : ConnectionRecord → Prop}
  {pool pool' : Pool} {a : PoolAction}

/-- The rule for what holds of all records: it holds of those that are built, and actions keep it. -/
theorem Everywhere.step (hbuild : ∀ d, good d → I (buildRecord parseUrl d))
    (hkeep : ∀ (action : RecordAction) r now, I r → I (action.apply parseUrl now r))
    (hgood : ∀ d ∈ a.definitions, valid parseUrl d = true → good d)
    (h : Everywhere good I pool) (hs : pool.step parseUrl a = some pool') :
    Everywhere good I pool' := by
  have hset : ∀ {k k' : ℕ} {r : ConnectionRecord} (action : RecordAction) (now : ℤ),
      pool.heap[k]? = some r → ∀ other ∈ pool.heap.set k' (action.apply parseUrl now r), I other := by
    intro k k' r action now hr other hother
    rcases List.mem_or_eq_of_mem_set hother with hold | rfl
    · exact h.record _ hold
    · exact hkeep action r now (h.record _ (List.mem_of_getElem? hr))
  have hadd : ∀ {definitions : List ConnectionDefinition} {added : Pool},
      pool.Adds parseUrl definitions added → (∀ d ∈ definitions, good d) → ∀ r ∈ added.heap, I r := by
    intro definitions pool' hadds hall r hr
    obtain ⟨added, hsub, hheap⟩ := hadds.heap
    rw [hheap] at hr
    rcases List.mem_append.mp hr with hold | hnew
    · exact h.record r hold
    · obtain ⟨d, hd, rfl⟩ := List.mem_map.mp hnew
      exact hbuild d (hall d (hsub hd))
  have hnil : ∀ {call : Call}, (call.ends && !call.declares) = true → ∀ d ∈ call.definitions, good d := by
    intro call hcall d hd
    cases call with
    | upsert definition => cases hcall
    | upsertMany definitions active => cases hcall
    | replaceAll definitions => cases hcall
    | _ => cases hd
  have herase : ∀ i, ∀ call ∈ pool.calls.eraseIdx i, ∀ d ∈ call.definitions, good d :=
    fun i call hcall => h.waiting call (List.mem_of_mem_eraseIdx hcall)
  cases step_move hs with
  | idle _ ha => exact ⟨h.record, h.waiting⟩
  | begins ha hfresh hkind hvalid =>
      refine ⟨h.record, List.forall_mem_append.mpr ⟨h.waiting, ?_⟩⟩
      exact List.forall_mem_singleton.mpr fun d hd => hgood d (hvalid d hd).1 (hvalid d hd).2
  | marks outcome ha hguard => exact ⟨h.record, h.waiting⟩
  | @drops i now guard r hguard hr =>
      exact ⟨hset (.release guard.lease.borrowedAt guard.outcome) now hr, h.waiting⟩
  | @registers definition hnew hvalid =>
      have hd := hgood definition (List.mem_singleton_self _) hvalid
      have hrecord := hadd (adds_insertRecord pool definition) (List.forall_mem_singleton.mpr hd)
      exact ⟨hrecord,
        List.forall_mem_append.mpr ⟨h.waiting, List.forall_mem_singleton.mpr (hnil rfl)⟩⟩
  | @acquires i now id k r hcall hr =>
      exact ⟨hset (.acquire id pool.attemptWindows) now hr, herase i⟩
  | @checks i now op k r hcall hr => exact ⟨hset (.health op) now hr, herase i⟩
  | @visits i now op k rest r hcall hr =>
      refine ⟨hset (.sweep op) now hr, fun call hmem => ?_⟩
      rcases List.mem_or_eq_of_mem_set hmem with hold | rfl
      · exact h.waiting call hold
      · exact List.forall_mem_nil _
  | @declares i now call reset _ hcall hdecl hadds hdeclares hreset =>
      have hrecord := hadd hadds (h.waiting call (List.mem_of_getElem? hcall))
      refine ⟨hrecord, fun other hmem => ?_⟩
      rw [setCall, hadds.calls] at hmem
      rcases List.mem_or_eq_of_mem_set hmem with hold | rfl
      · exact h.waiting other hold
      · exact hnil hreset
  | ends windows hcall hends hkept => exact ⟨h.record, herase _⟩

end Everywhere

/-! ## Runs -/

/-- A step computes no date out of range. -/
def DatesInRange (parseUrl : UrlParser) (pool : Pool) (a : PoolAction) : Prop :=
  ∀ (h : ℕ) r action now, pool.heap[h]? = some r → pool.recordAction h a = some (action, now) →
    ∀ date ∈ action.dates parseUrl r now, minUtc ≤ date ∧ date ≤ maxUtc

/-- The runs of a pool without connections in which the clock reads what it may and only some
connections are declared. -/
def governed (parseUrl : UrlParser) (clock : WallClock) (declared : ConnectionDefinition → Bool) :
    Machine Pool PoolAction where
  init pool := pool = ⟨[], ∅, ∅, [], [], []⟩
  step pool a :=
    if a.reading.all clock.reads && a.definitions.all declared then pool.step parseUrl a else none

section Governed

variable {parseUrl : UrlParser} {clock : WallClock} {declared : ConnectionDefinition → Bool}
  {pool pool' : Pool} {a : PoolAction}

theorem governed_step_eq_some : (governed parseUrl clock declared).step pool a = some pool' ↔
    pool.step parseUrl a = some pool' ∧ (∀ now, a.reading = some now → clock.reads now = true) ∧
      ∀ d ∈ a.definitions, declared d = true := by
  rw [governed]
  dsimp only
  split
  · rename_i hguard
    rw [Bool.and_eq_true, Option.all_eq_true, List.all_eq_true] at hguard
    exact ⟨fun hs => ⟨hs, hguard.1, hguard.2⟩, fun hs => hs.1⟩
  · rename_i hguard
    rw [Bool.and_eq_true, Option.all_eq_true, List.all_eq_true] at hguard
    exact ⟨nofun, fun hs => absurd hs.2 hguard⟩

/-- With representable limits no run computes a date out of range. -/
theorem datesInRange_of_reaches (hdeclared : ∀ d, declared d = true → valid parseUrl d = true →
      Representable clock (.fromMetadata d.metadata))
    (h : (governed parseUrl clock declared).Reaches pool)
    (hs : (governed parseUrl clock declared).step pool a = some pool') :
    pool.DatesInRange parseUrl a := by
  have hall : Everywhere (fun d => declared d = true ∧ valid parseUrl d = true)
      (fun r => r.Even ∧ Representable clock r.policy) pool := by
    refine h.invariant ?_ ?_
    · rintro _ rfl
      exact ⟨fun r hr => absurd hr List.not_mem_nil, fun c hc => absurd hc List.not_mem_nil⟩
    · intro s b s' hall _ hs
      obtain ⟨hstep, -, hb⟩ := governed_step_eq_some.mp hs
      refine hall.step ?_ ?_ (fun d hd hvalid => ⟨hb d hd, hvalid⟩) hstep
      · intro d hd
        have hpolicy : (buildRecord parseUrl d).policy = .fromMetadata d.metadata :=
          policy_of_definition (healthOnly_buildRecord parseUrl d).definition
        rw [hpolicy]
        exact ⟨even_buildRecord d, hdeclared d hd.1 hd.2⟩
      · rintro action r now ⟨heven, hlimits⟩
        refine ⟨action.even_apply heven, ?_⟩
        rwa [policy_of_definition action.definition_apply]
  intro k r action now hr haction
  obtain ⟨heven, hlimits⟩ := hall.record r (List.mem_of_getElem? hr)
  have hnow := (governed_step_eq_some.mp hs).2.1 now (reading_of_recordAction haction)
  intro date hdate
  exact action.dates_range hlimits heven hnow hdate

/-! ## Runs that reach each date -/

/-- A pool with one record. -/
def single (r : ConnectionRecord) (windows : AttemptWindows) : Pool :=
  ⟨[r], AList.singleton r.id 0, windows, [], [], []⟩

/-- Reaching a pool with one record. -/
abbrev ReachesSingle (parseUrl : UrlParser) (clock : WallClock)
    (declared : ConnectionDefinition → Bool) (r : ConnectionRecord) (windows : AttemptWindows) :
    Prop := (governed parseUrl clock declared).Reaches (single r windows)

variable {d : ConnectionDefinition} {r : ConnectionRecord} {windows : AttemptWindows} {now : ℤ}

theorem lookup_singleton (id : String) (k : ℕ) :
    (AList.singleton id k : AList fun _ : String => ℕ).lookup id = some k :=
  AList.mem_lookup_iff.mpr (List.mem_singleton.mpr rfl)

theorem reaches_next (h : (governed parseUrl clock declared).Reaches pool)
    (hs : pool.step parseUrl a = some pool') (hread : ∀ now, a.reading = some now →
      clock.reads now = true) (hdeclared : ∀ d ∈ a.definitions, declared d = true) :
    (governed parseUrl clock declared).Reaches pool' :=
  .next h True.intro (governed_step_eq_some.mpr ⟨hs, hread, hdeclared⟩)

theorem reads_resume {i : ℕ} (hnow : clock.reads now = true) :
    ∀ now', (PoolAction.resume i now).reading = some now' → clock.reads now' = true := by
  intro now' hnow'
  rw [← Option.some.inj hnow']
  exact hnow

theorem governed_resume {i : ℕ} (hs : pool.step parseUrl (.resume i now) = some pool')
    (hnow : clock.reads now = true) :
    (governed parseUrl clock declared).step pool (.resume i now) = some pool' :=
  governed_step_eq_some.mpr ⟨hs, reads_resume hnow, List.forall_mem_nil _⟩

/-- A declared connection is registered. -/
theorem reaches_registered (hd : declared d = true) (hvalid : valid parseUrl d = true) :
    ReachesSingle parseUrl clock declared (buildRecord parseUrl d)
      ((∅ : AttemptWindows).insert d.id []) := by
  have hstart : (governed parseUrl clock declared).Reaches ⟨[], ∅, ∅, [], [], []⟩ := .start rfl
  have hid : (buildRecord parseUrl d).id = d.id := (healthOnly_buildRecord parseUrl d).id
  have hread : ∀ now, (PoolAction.register d).reading = some now → clock.reads now = true := by
    intro now hnow
    exact absurd hnow.symm (Option.some_ne_none now)
  have hdefinitions : ∀ e ∈ (PoolAction.register d).definitions, declared e = true := by
    intro e he
    rw [List.mem_singleton.mp he]
    exact hd
  have hfirst : clock.reads clock.first = true := by simpa [WallClock.reads] using clock.ordered
  have hstep : step parseUrl ⟨[], ∅, ∅, [], [], []⟩ (.register d) = some ⟨[buildRecord parseUrl d],
      AList.singleton d.id 0, ∅, [], [], [.resetAttemptWindow d.id]⟩ := by
    simp [step, hvalid, insertRecord, beginCall]
  generalize buildRecord parseUrl d = r at hid hstep ⊢
  have hregistered := reaches_next hstart hstep hread hdefinitions
  rw [ReachesSingle, single, hid]
  exact hregistered.next True.intro (governed_resume (i := 0) rfl hfirst)

/-- No run computes a date out of range. -/
def NeverOutOfRange (parseUrl : UrlParser) (clock : WallClock)
    (declared : ConnectionDefinition → Bool) : Prop :=
  ∀ pool a pool', (governed parseUrl clock declared).Reaches pool →
    (governed parseUrl clock declared).step pool a = some pool' → pool.DatesInRange parseUrl a

/-- The failure that is about to be recorded. -/
def failing (r : ConnectionRecord) (windows : AttemptWindows) : Pool :=
  { single r windows with calls := [.health (.recordConnectFailure "") 0] }

theorem reaches_failing (h : ReachesSingle parseUrl clock declared r windows) :
    (governed parseUrl clock declared).Reaches (failing r windows) := by
  have hstep : step parseUrl (single r windows) (.health r.id (.recordConnectFailure "")) =
      some (failing r windows) := by
    rw [step, lookUp, single, lookup_singleton]
    rfl
  exact reaches_next h hstep (fun now hnow => absurd hnow.symm (Option.some_ne_none now))
    (List.forall_mem_nil _)

theorem step_failing : step parseUrl (failing r windows) (.resume 0 now) =
    some (single (recordConnectFailure r "" now).1 windows) := by
  have hid : (recordConnectFailure r "" now).1.id = r.id :=
    (healthOnly_applyRuntimeFailure r _ now "" false).id
  rw [single, hid]
  rfl

theorem failureDate_in_range (hall : NeverOutOfRange parseUrl clock declared)
    (h : ReachesSingle parseUrl clock declared r windows) (hnow : clock.reads now = true) :
    failureDate r now ≤ maxUtc := by
  have hrange := hall _ _ _ (reaches_failing h) (governed_resume step_failing hnow) 0 r
    (.health (.recordConnectFailure "")) now rfl rfl
  exact (hrange (failureDate r now) (List.mem_singleton.mpr rfl)).2

/-- After any number of failures in a row the record has counted them. -/
theorem reaches_failures (clock : WallClock) (hd : declared d = true)
    (hvalid : valid parseUrl d = true) (count : ℕ) (hcount : count < 2 ^ 32) : ∃ r windows, ReachesSingle parseUrl clock declared r windows ∧
      r.definition = d ∧ r.health.consecutiveFailures = count ∧ r.Even := by
  induction count with
  | zero =>
      refine ⟨_, _, reaches_registered hd hvalid, ?_, ?_, even_buildRecord d⟩
      · exact (healthOnly_buildRecord parseUrl d).definition
      · unfold buildRecord refreshDefinitionDiagnosis
        split
        · exact rfl
        · exact rfl
  | succ count ih =>
      obtain ⟨r, windows, hreach, hdefinition, hfailures, heven⟩ := ih (by omega)
      have hlast : clock.reads clock.last = true := by simpa [WallClock.reads] using clock.ordered
      have hnext := (reaches_failing hreach).next True.intro (governed_resume step_failing hlast)
      refine ⟨_, _, hnext, ?_, ?_, even_applyRuntimeFailure heven _ _ _⟩
      · exact (healthOnly_applyRuntimeFailure r _ _ "" false).definition.trans hdefinition
      · have hcounted : (recordConnectFailure r "" clock.last).1.health.consecutiveFailures =
            saturatingSucc r.health.consecutiveFailures :=
          congrArg Breaker.failures (breaker_applyRuntimeFailure (.fromMetadata r.metadata) "" false)
        rw [hcounted, hfailures, saturatingSucc]
        omega

/-! ### Borrowing until the window is full -/

/-- A record of the definition that nothing keeps from being lent. -/
structure Ready (d : ConnectionDefinition) (r : ConnectionRecord) : Prop where
  definition : r.definition = d
  free : r.inUse = false
  closed : r.health.circuitOpenUntil = none
  unlimited : r.health.rateLimitedUntil = none

theorem Ready.policy (h : Ready d r) : r.policy = .fromMetadata d.metadata := by
  rw [← h.definition]
  rfl

theorem Ready.reconcile (h : Ready d r) (policy : ConnectionGovernancePolicy) :
    Ready d (reconcileTimedState r policy now) := by
  obtain ⟨phase, diagnosis, recommendedAction, since, retry, hrec⟩ :=
    reconcileTimedState_eq r policy now
  rw [hrec]
  refine ⟨h.definition, h.free, ?_, ?_⟩
  · simp only [h.closed]
    rfl
  · simp only [h.unlimited]
    rfl

theorem ready_buildRecord (d : ConnectionDefinition) : Ready d (buildRecord parseUrl d) := by
  unfold buildRecord refreshDefinitionDiagnosis
  split
  · exact ⟨rfl, rfl, rfl, rfl⟩
  · exact ⟨rfl, rfl, rfl, rfl⟩

theorem validate_of_valid (hvalid : valid parseUrl d = true) :
    validateConnectionDefinition parseUrl d.kind d.metadata = .ok () := by
  delta valid at hvalid
  generalize validateConnectionDefinition parseUrl d.kind d.metadata = answer at hvalid ⊢
  cases answer with
  | ok u => rfl
  | error reason => cases hvalid

theorem Ready.validate (h : Ready d r) (hvalid : valid parseUrl d = true) :
    validateConnectionDefinition parseUrl r.kind r.metadata = .ok () := by
  have hkind : r.kind = d.kind := congrArg ConnectionDefinition.kind h.definition
  have hmetadata : r.metadata = d.metadata := congrArg ConnectionDefinition.metadata h.definition
  rw [hkind, hmetadata]
  exact validate_of_valid hvalid

/-- A record that is ready is asked for one more attempt. -/
theorem Ready.acquireDates_eq (h : Ready d r) (hvalid : valid parseUrl d = true) (id : String) :
    acquireDates parseUrl id r windows now = (now - durationMs r.policy.rateLimitWindowMs) ::
      match (registerAttempt windows id r.policy now).2 with
      | .error retryAfterMs => [now + durationMs retryAfterMs]
      | .ok () => [] := by
  have hrec : Ready d (reconcileTimedState r r.policy now) := h.reconcile r.policy
  have hanswer := hrec.validate hvalid
  simp only [acquireDates, hrec.free, hanswer, hrec.closed, hrec.unlimited]
  rfl

theorem Ready.acquireRecord_eq (h : Ready d r) (hvalid : valid parseUrl d = true) {id : String}
    {windows' : AttemptWindows} (hroom : registerAttempt windows id r.policy now = (windows', .ok ())) :
    acquireRecord parseUrl id r windows now =
      (lend (reconcileTimedState r r.policy now) now, windows', .ok ⟨r.id, r.kind, r.metadata, now⟩) := by
  have hrec : Ready d (reconcileTimedState r r.policy now) := h.reconcile r.policy
  have hanswer := h.validate hvalid
  have hsame : (reconcileTimedState r r.policy now).definition = r.definition :=
    hrec.definition.trans h.definition.symm
  have hid : (reconcileTimedState r r.policy now).id = r.id :=
    congrArg ConnectionDefinition.id hsame
  have hkind : (reconcileTimedState r r.policy now).kind = r.kind :=
    congrArg ConnectionDefinition.kind hsame
  have hmetadata : (reconcileTimedState r r.policy now).metadata = r.metadata :=
    congrArg ConnectionDefinition.metadata hsame
  have hpolicy : ConnectionGovernancePolicy.fromMetadata r.metadata = r.policy := rfl
  simp only [acquireRecord, hpolicy, hrec.free, hanswer, hrec.closed, hrec.unlimited, hroom, hid,
    hkind, hmetadata]
  rfl

/-- A lease that was marked as a success and released at once leaves the record ready. -/
theorem Ready.release (h : Ready d r) :
    Ready d (finalizeRelease (lend r now) now .success now) := by
  have hout := finalizeRelease_outcome (lend r now) now .success now
  have helapsed : elapsedMs now now = 0 := by simp [elapsedMs]
  generalize finalizeRelease (lend r now) now .success now = answer at hout
  cases hout with
  | overTime outcome reason hlate =>
      rw [helapsed] at hlate
      exact absurd hlate (Nat.not_lt_zero _)
  | success diagnosis => exact ⟨h.definition, rfl, rfl, rfl⟩

/-- The acquire that is about to lock the record. -/
def acquiring (r : ConnectionRecord) (windows : AttemptWindows) : Pool :=
  { single r windows with calls := [.acquire r.id 0] }

theorem reaches_acquiring (h : ReachesSingle parseUrl clock declared r windows) :
    (governed parseUrl clock declared).Reaches (acquiring r windows) := by
  have hstep : step parseUrl (single r windows) (.acquire r.id) = some (acquiring r windows) := by
    rw [step, lookUp, single, lookup_singleton]
    rfl
  exact reaches_next h hstep (fun now hnow => absurd hnow.symm (Option.some_ne_none now))
    (List.forall_mem_nil _)

/-- The lock of an acquire can be taken, whatever it answers. -/
theorem exists_step_acquiring (parseUrl : UrlParser) (r : ConnectionRecord)
    (windows : AttemptWindows) (now : ℤ) :
    ∃ pool', step parseUrl (acquiring r windows) (.resume 0 now) = some pool' := by
  simp only [step, resume, acquiring, single, List.getElem?_cons_zero]
  split
  · exact ⟨_, rfl⟩
  · exact ⟨_, rfl⟩

/-- An acquire computes no date out of range. -/
theorem acquireDates_in_range (hall : NeverOutOfRange parseUrl clock declared)
    (h : ReachesSingle parseUrl clock declared r windows) (hnow : clock.reads now = true) :
    ∀ date ∈ acquireDates parseUrl r.id r windows now, minUtc ≤ date ∧ date ≤ maxUtc := by
  obtain ⟨pool', hstep⟩ := exists_step_acquiring parseUrl r windows now
  exact hall _ _ _ (reaches_acquiring h) (governed_resume hstep hnow) 0 r (.acquire r.id windows) now
    rfl rfl

/-- The connection is lent and released at once. -/
theorem reaches_borrowed (hvalid : valid parseUrl d = true)
    (h : ReachesSingle parseUrl clock declared r windows) (hready : Ready d r)
    (hnow : clock.reads now = true) {windows' : AttemptWindows}
    (hroom : registerAttempt windows r.id r.policy now = (windows', .ok ())) :
    ∃ r', ReachesSingle parseUrl clock declared r' windows' ∧ Ready d r' := by
  have hanswer := hready.acquireRecord_eq hvalid hroom
  have hready' : Ready d (finalizeRelease (lend (reconcileTimedState r r.policy now) now) now .success
      now) := (hready.reconcile r.policy).release
  have hid : (finalizeRelease (lend (reconcileTimedState r r.policy now) now) now .success now).id =
      r.id := congrArg ConnectionDefinition.id (hready'.definition.trans hready.definition.symm)
  let lent := lend (reconcileTimedState r r.policy now) now
  let lease : ConnectionLease := ⟨r.id, r.kind, r.metadata, now⟩
  have hacquired : step parseUrl (acquiring r windows) (.resume 0 now) = some
      ⟨[lent], AList.singleton r.id 0, windows', [], [⟨lease, 0, .pending⟩], []⟩ := by
    simp only [step, resume, acquiring, single, List.getElem?_cons_zero, hanswer]
    rfl
  have hlent := (reaches_acquiring h).next True.intro (governed_resume hacquired hnow)
  have hmarked := reaches_next (a := .markSuccess 0) hlent rfl
    (fun now hnow => absurd hnow.symm (Option.some_ne_none now)) (List.forall_mem_nil _)
  have hdropped := reaches_next (a := .dropGuard 0 now) hmarked rfl
    (fun now' hnow' => Option.some.inj hnow' ▸ hnow) (List.forall_mem_nil _)
  refine ⟨_, ?_, hready'⟩
  rw [ReachesSingle, single, hid]
  exact hdropped

/-- Attempts of one moment are all in the window. -/
theorem registerAttempt_replicate (policy : ConnectionGovernancePolicy) {id : String} {count : ℕ}
    (hattempts : attempts windows id = List.replicate count now) :
    registerAttempt windows id policy now =
      if policy.rateLimitMaxAttempts ≤ count then
        (windows.insert id (List.replicate count now), .error policy.rateLimitCooldownMs)
      else (windows.insert id (List.replicate (count + 1) now), .ok ()) := by
  have hspan := durationMs_nonneg policy.rateLimitWindowMs
  have hkept : (List.replicate count now).dropWhile
      (fun at' => at' < now - durationMs policy.rateLimitWindowMs) = List.replicate count now := by
    rw [List.dropWhile_replicate, if_neg]
    rw [decide_eq_true_iff]
    omega
  rw [attempts] at hattempts
  simp only [registerAttempt, hattempts, hkept, List.length_replicate, List.replicate_succ']

/-- As many borrowings as the window has room for. -/
theorem reaches_borrowings (clock : WallClock) (hd : declared d = true)
    (hvalid : valid parseUrl d = true) (count : ℕ)
    (hcount : count ≤ (ConnectionGovernancePolicy.fromMetadata d.metadata).rateLimitMaxAttempts) :
    ∃ r windows, ReachesSingle parseUrl clock declared r windows ∧ Ready d r ∧
      attempts windows d.id = List.replicate count clock.last := by
  have hlast : clock.reads clock.last = true := by simpa [WallClock.reads] using clock.ordered
  induction count with
  | zero =>
      refine ⟨_, _, reaches_registered hd hvalid, ready_buildRecord d, ?_⟩
      rw [attempts_insert]
      rfl
  | succ count ih =>
      obtain ⟨r, windows, hreach, hready, hattempts⟩ := ih (Nat.le_of_succ_le hcount)
      have hid : r.id = d.id := congrArg ConnectionDefinition.id hready.definition
      have hroom := registerAttempt_replicate r.policy hattempts
      rw [hready.policy, if_neg (Nat.not_le_of_lt hcount), ← hready.policy, ← hid] at hroom
      obtain ⟨r', hreach', hready'⟩ := reaches_borrowed hvalid hreach hready hlast hroom
      refine ⟨r', _, hreach', hready', ?_⟩
      rw [hid, attempts_insert]

theorem circuitFailureThreshold_lt (metadata : Value) :
    (ConnectionGovernancePolicy.fromMetadata metadata).circuitFailureThreshold < 2 ^ 32 := by
  have hread : governanceU32 metadata "circuit_failure_threshold" 3 < 2 ^ 32 := by
    rw [governanceU32]
    cases (governanceValue metadata "circuit_failure_threshold").bind Value.toU32 with
    | none => decide
    | some n => exact n.toNat_lt
  simp only [ConnectionGovernancePolicy.fromMetadata]
  omega

/-- If no run computes a date out of range, the limits of a declared connection are representable. -/
theorem representable_of_runs (hall : NeverOutOfRange parseUrl clock declared)
    (hd : declared d = true) (hvalid : valid parseUrl d = true) :
    Representable clock (.fromMetadata d.metadata) := by
  have hfirst : clock.reads clock.first = true := by simpa [WallClock.reads] using clock.ordered
  have hlast : clock.reads clock.last = true := by simpa [WallClock.reads] using clock.ordered
  have hpolicy : ∀ {r : ConnectionRecord}, r.definition = d →
      r.policy = .fromMetadata d.metadata := by
    rintro r rfl
    rfl
  have hthreshold := circuitFailureThreshold_lt d.metadata
  generalize hp : ConnectionGovernancePolicy.fromMetadata d.metadata = policy at hpolicy hthreshold ⊢
  constructor
  · have hready : Ready d (buildRecord parseUrl d) := ready_buildRecord d
    have hdates := acquireDates_in_range hall (reaches_registered hd hvalid) hfirst
    rw [hready.acquireDates_eq hvalid, hpolicy hready.definition] at hdates
    exact (hdates _ List.mem_cons_self).1
  · obtain ⟨r, windows, hreach, hready, hattempts⟩ := reaches_borrowings clock hd hvalid
      policy.rateLimitMaxAttempts (hp ▸ Nat.le_refl _)
    have hid : r.id = d.id := congrArg ConnectionDefinition.id hready.definition
    have hfull := registerAttempt_replicate r.policy hattempts
    have hdates := acquireDates_in_range hall hreach hlast
    rw [hpolicy hready.definition, if_pos (Nat.le_refl _), ← hpolicy hready.definition, ← hid] at hfull
    rw [hready.acquireDates_eq hvalid, hfull, hpolicy hready.definition] at hdates
    exact (hdates _ (List.mem_cons_of_mem _ (List.mem_singleton.mpr rfl))).2
  · obtain ⟨r, windows, hreach, hdefinition, hfailures, heven⟩ := reaches_failures clock hd
      hvalid (policy.circuitFailureThreshold - 1) (by omega)
    have hdate := failureDate_in_range hall hreach hlast
    rw [failureDate, hpolicy hdefinition, hfailures, if_pos] at hdate
    · exact hdate
    · rw [saturatingSucc]
      omega
  · intro hmany
    obtain ⟨r, windows, hreach, hdefinition, hfailures, heven⟩ := reaches_failures clock hd
      hvalid (policy.circuitFailureThreshold - 2) (by omega)
    have hdate := failureDate_in_range hall hreach hlast
    have hcount : saturatingSucc (policy.circuitFailureThreshold - 2) =
        policy.circuitFailureThreshold - 1 := by
      rw [saturatingSucc]
      omega
    rw [failureDate, hpolicy hdefinition, heven, hfailures, hcount, if_neg (by omega)] at hdate
    exact hdate

end Governed

/-- No run computes a date out of range exactly if the limits of all declared connections are
representable for the readings of the clock. -/
theorem dates_representable_iff (parseUrl : UrlParser) (clock : WallClock)
    (declared : ConnectionDefinition → Bool) :
    NeverOutOfRange parseUrl clock declared ↔
      ∀ d, declared d = true → valid parseUrl d = true →
        Representable clock (.fromMetadata d.metadata) := by
  constructor
  · intro hall d hd hvalid
    exact representable_of_runs hall hd hvalid
  · intro hdeclared pool a pool' hreach hs
    exact datesInRange_of_reaches hdeclared hreach hs

/-- A clock that reads the first second of 2026. -/
def newYear : WallClock :=
  ⟨1767225600 * 1000000000, 1767225601 * 1000000000, by decide, by decide, by decide⟩

/-- A PLC whose circuit is to stay open for ever. -/
def foreverOpen : ConnectionDefinition :=
  ⟨"plc", "modbus", .object [("host", .string "10.0.0.7"), ("port", .number (.posInt 502)),
    ("governance", .object [("circuit_open_ms", .number (.posInt 18446744073709551615))])]⟩

/-- Some run of it panics. -/
theorem forever_out_of_range : ¬ NeverOutOfRange refuseUrls newYear fun d => d = foreverOpen := by
  intro hall
  have hlimits := representable_of_runs hall (d := foreverOpen) (by decide) (by decide)
  exact absurd hlimits.circuit (by decide)

end Pool
end Nazh
