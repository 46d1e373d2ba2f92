import Nazh.Connections.Policy
import Nazh.Connections.Validation

/-!
# The health of a connection

What the operations of the pool do to a record once they hold its lock. The flag
`inUse` is the only trace of a live guard; the frame lemmas say which of these
operations write it.
-/

namespace Nazh

/-- How a guard was marked before it was dropped. -/
inductive ConnectionOutcome
  | pending
  | success
  | failure (reason : String)
  deriving DecidableEq, Repr

/-- A span of milliseconds. -/
def durationMs (value : ℕ) : ℤ := (min value (2 ^ 63 - 1) : ℕ) * 1000000

/-- The whole milliseconds from `start` to `stop`, zero if there are none. -/
def elapsedMs (start stop : ℤ) : ℕ := ((stop - start).tdiv 1000000).toNat

/-- `remaining_ms`. -/
def remainingMs (target now : ℤ) : ℕ := elapsedMs now target

namespace ConnectionRecord

/-- Replace the health of a record. -/
def withHealth (record : ConnectionRecord)
    (f : ConnectionHealthSnapshot → ConnectionHealthSnapshot) : ConnectionRecord :=
  { record with health := f record.health }

/-- The texts that go with a change of phase. -/
def diagnose (record : ConnectionRecord) (diagnosis recommendedAction : String) :
    ConnectionRecord :=
  record.withHealth fun health =>
    { health with diagnosis := some diagnosis, recommendedAction := some recommendedAction }

end ConnectionRecord

open ConnectionRecord

/-- `refresh_definition_diagnosis`: the health of a record that was just built. -/
def refreshDefinitionDiagnosis (parseUrl : UrlParser) (record : ConnectionRecord) :
    ConnectionRecord :=
  match validateConnectionDefinition parseUrl record.kind record.metadata with
  | .ok () =>
      (record.withHealth fun health => { health with phase := .idle }).diagnose
        "连接配置已就绪，等待建连" "可部署工作流、触发节点或执行测试连接"
  | .error reason =>
      (record.withHealth fun health =>
        { health with phase := .invalid, lastFailureReason := some reason }).diagnose
        "连接配置缺失或格式无效" "请在连接设置中补齐必填参数后再运行"

/-- `build_record`. -/
def buildRecord (parseUrl : UrlParser) (definition : ConnectionDefinition) : ConnectionRecord :=
  refreshDefinitionDiagnosis parseUrl
    ⟨definition.id, definition.kind, definition.metadata, false, none, .initial⟩

/-- `mark_invalid`. -/
def markInvalid (record : ConnectionRecord) (reason : String) (now : ℤ) : ConnectionRecord :=
  ({ record with inUse := false }.withHealth fun health =>
    { health with
      phase := .invalid
      lastStateChangedAt := some now
      lastCheckedAt := some now
      lastFailureAt := some now
      lastFailureReason := some reason }).diagnose
    "连接配置无效，已拒绝本次建连" "请先修正连接资源配置再重新部署"

/-- `apply_runtime_failure`: count a failure, and open the circuit or back off. Answers
the wait until the next try. -/
def applyRuntimeFailure (record : ConnectionRecord) (policy : ConnectionGovernancePolicy)
    (now : ℤ) (reason : String) (isTimeout : Bool) : ConnectionRecord × ℕ :=
  let record := record.withHealth fun health =>
    { health with
      totalFailures := saturatingSucc health.totalFailures
      consecutiveFailures := saturatingSucc health.consecutiveFailures
      reconnectAttempts := saturatingSucc health.reconnectAttempts
      timeoutCount := if isTimeout then saturatingSucc health.timeoutCount else health.timeoutCount
      lastFailureAt := some now
      lastCheckedAt := some now
      lastStateChangedAt := some now
      lastFailureReason := some reason }
  if policy.circuitFailureThreshold ≤ record.health.consecutiveFailures then
    let openUntil := now + durationMs policy.circuitOpenMs
    ((record.withHealth fun health =>
        { health with
          phase := .circuitOpen
          circuitOpenUntil := some openUntil
          nextRetryAt := some openUntil }).diagnose
        "连接连续失败，已进入熔断保护"
        "请检查目标端可达性、串口占用或参数配置，冷却结束后会再次允许建连",
      policy.circuitOpenMs)
  else
    let retryAfterMs := policy.reconnectDelayMs record.health.reconnectAttempts
    ((record.withHealth fun health =>
        { health with
          phase := if isTimeout then .timeout else .reconnecting
          nextRetryAt := some (now + durationMs retryAfterMs)
          circuitOpenUntil := none }).diagnose
        (if isTimeout then "连接心跳或操作超时，准备重连" else "连接失败，准备按退避策略重连")
        "如持续失败，请检查设备在线状态、网络链路或端口占用",
      retryAfterMs)

/-- `connection_failure_recorded_during_lease`. -/
def failureRecordedDuringLease (record : ConnectionRecord) (borrowedAt : ℤ) : Bool :=
  (record.health.phase == .reconnecting || record.health.phase == .circuitOpen ||
      record.health.phase == .timeout) &&
    record.health.lastFailureAt.any fun lastFailureAt => borrowedAt ≤ lastFailureAt

/-- `finalize_release`: a guard is dropped. -/
def finalizeRelease (record : ConnectionRecord) (borrowedAt : ℤ) (outcome : ConnectionOutcome)
    (now : ℤ) : ConnectionRecord :=
  let policy := ConnectionGovernancePolicy.fromMetadata record.metadata
  let elapsed := elapsedMs borrowedAt now
  let record := { record with inUse := false }.withHealth fun health =>
    { health with
      lastReleasedAt := some now
      lastCheckedAt := some now
      lastLatencyMs := some elapsed }
  if policy.operationTimeoutMs < elapsed then
    (applyRuntimeFailure record policy now
      s!"连接占用 {elapsed} ms，超过治理超时 {policy.operationTimeoutMs} ms" true).1
  else match outcome with
    | .success =>
        (record.withHealth fun health =>
          { health with
            phase := .healthy
            lastStateChangedAt := some now
            lastConnectedAt := some now
            lastHeartbeatAt := some now
            consecutiveFailures := 0
            reconnectAttempts := 0
            nextRetryAt := none
            rateLimitedUntil := none
            circuitOpenUntil := none }).diagnose
          s!"最近一次连接操作完成，用时 {elapsed} ms" "连接空闲，可继续被节点复用"
    | .failure reason =>
        if failureRecordedDuringLease record borrowedAt then record
        else (applyRuntimeFailure record policy now
          (if reason == "" then "连接操作失败，节点未提供具体原因" else reason) false).1
    | .pending =>
        (record.withHealth fun health =>
          { health with phase := .degraded, lastStateChangedAt := some now }).diagnose
          "连接 Guard 未标记结果即被丢弃（可能为 panic 退出）"
          "检查节点执行路径是否在所有分支都调用了 mark_success/mark_failure"

/-- The end of the rate limit. -/
def reconcileRateLimit (record : ConnectionRecord) (now : ℤ) : ConnectionRecord :=
  if record.health.rateLimitedUntil.any fun until' => until' ≤ now then
    let record := record.withHealth fun health => { health with rateLimitedUntil := none }
    if record.health.phase = .rateLimited then
      (record.withHealth fun health =>
        { health with phase := .idle, lastStateChangedAt := some now }).diagnose
        "限流窗口已结束，可再次尝试建连" "如仍然频繁触发，请调整节点节流策略"
    else record
  else record

/-- The end of the circuit breaker's pause. -/
def reconcileCircuit (record : ConnectionRecord) (now : ℤ) : ConnectionRecord :=
  if record.health.circuitOpenUntil.any fun until' => until' ≤ now then
    let record := record.withHealth fun health => { health with circuitOpenUntil := none }
    if record.health.phase = .circuitOpen then
      (record.withHealth fun health =>
        { health with phase := .idle, lastStateChangedAt := some now }).diagnose
        "熔断冷却结束，可重新尝试建连" "建议优先检查最近一次失败原因后再重试"
    else record
  else record

/-- The end of the wait before a retry. -/
def reconcileRetry (record : ConnectionRecord) (now : ℤ) : ConnectionRecord :=
  if (record.health.nextRetryAt.any fun at' => at' ≤ now) &&
      (record.health.phase == .reconnecting || record.health.phase == .timeout) &&
      !record.inUse then
    (record.withHealth fun health =>
      { health with nextRetryAt := none, phase := .idle, lastStateChangedAt := some now }).diagnose
      "已结束退避等待，可再次尝试建连" "若仍失败，请检查目标端是否可达"
  else record

/-- A record that is not lent out is not connecting, and is healthy only while its
heartbeat is young. -/
def reconcileIdle (record : ConnectionRecord) (policy : ConnectionGovernancePolicy) (now : ℤ) :
    ConnectionRecord :=
  if record.inUse then record
  else
    let record := if record.health.phase = .connecting then
        record.withHealth fun health =>
          { health with phase := .idle, lastStateChangedAt := some now }
      else record
    match record.health.lastHeartbeatAt with
    | none => record
    | some lastHeartbeatAt =>
        let age := elapsedMs lastHeartbeatAt now
        if policy.heartbeatTimeoutMs < age ∧ record.health.phase = .healthy then
          (record.withHealth fun health =>
            { health with phase := .degraded, lastStateChangedAt := some now }).diagnose
            s!"连接心跳已静默 {age} ms，超过治理阈值 {policy.heartbeatTimeoutMs} ms"
            "可尝试重连或检查对端设备在线状态"
        else record

/-- `reconcile_timed_state`: what the passing of time did to a record. -/
def reconcileTimedState (record : ConnectionRecord) (policy : ConnectionGovernancePolicy)
    (now : ℤ) : ConnectionRecord :=
  reconcileIdle (reconcileRetry (reconcileCircuit (reconcileRateLimit record now) now) now)
    policy now

/-! ## Operations on one record -/

def recordConnectSuccess (record : ConnectionRecord) (diagnosis : String) (latencyMs : Option ℕ)
    (now : ℤ) : ConnectionRecord :=
  (record.withHealth fun health =>
    { health with
      phase := .healthy
      lastStateChangedAt := some now
      lastConnectedAt := some now
      lastHeartbeatAt := some now
      lastCheckedAt := some now
      consecutiveFailures := 0
      reconnectAttempts := 0
      nextRetryAt := none
      circuitOpenUntil := none
      rateLimitedUntil := none
      lastLatencyMs := latencyMs.or health.lastLatencyMs }).diagnose
    diagnosis "连接运行中，正在等待下一次数据或调度"

def recordHeartbeat (record : ConnectionRecord) (diagnosis : String) (now : ℤ) :
    ConnectionRecord :=
  let record := record.withHealth fun health =>
    { health with
      lastHeartbeatAt := some now
      lastCheckedAt := some now
      diagnosis := some diagnosis }
  if record.health.phase = .invalid ∨ record.health.phase = .circuitOpen ∨
      record.health.phase = .rateLimited then record
  else record.withHealth fun health =>
    { health with
      phase := if record.inUse then .healthy else .degraded
      lastStateChangedAt := some now }

def recordConnectFailure (record : ConnectionRecord) (reason : String) (now : ℤ) :
    ConnectionRecord × ℕ :=
  applyRuntimeFailure record (.fromMetadata record.metadata) now reason false

def recordTimeout (record : ConnectionRecord) (reason : String) (now : ℤ) :
    ConnectionRecord × ℕ :=
  applyRuntimeFailure record (.fromMetadata record.metadata) now reason true

def markDisconnected (record : ConnectionRecord) (diagnosis : String) (now : ℤ) :
    ConnectionRecord :=
  ({ record with inUse := false }.withHealth fun health =>
    { health with
      phase := .disconnected
      lastStateChangedAt := some now
      lastCheckedAt := some now
      lastReleasedAt := some now }).diagnose
    diagnosis "如需恢复，请检查设备在线状态并等待重连"

def resetCircuitBreaker (record : ConnectionRecord) (now : ℤ) : ConnectionRecord :=
  (record.withHealth fun health =>
    { health with
      circuitOpenUntil := none
      rateLimitedUntil := none
      nextRetryAt := none
      consecutiveFailures := 0
      reconnectAttempts := 0
      phase := .idle
      lastStateChangedAt := some now
      lastCheckedAt := some now }).diagnose
    "熔断器已被手动重置，连接恢复空闲态" "可重新部署工作流或手动测试连接"

/-- What `mark_all_idle` does to each record. -/
def markIdle (record : ConnectionRecord) (diagnosis : String) (now : ℤ) : ConnectionRecord :=
  let record := { record with inUse := false }.withHealth fun health =>
    { health with
      lastCheckedAt := some now
      lastReleasedAt := some now
      nextRetryAt := none }
  if record.health.phase = .invalid then
    (record.withHealth fun health => { health with lastStateChangedAt := some now }).diagnose
      "连接配置仍无效，运行停止后保留当前诊断" "请先修正连接配置，再重新部署或测试"
  else if record.health.lastFailureReason.isSome ∧
      (record.health.phase = .circuitOpen ∨ record.health.phase = .disconnected ∨
        record.health.phase = .rateLimited ∨ record.health.phase = .reconnecting ∨
        record.health.phase = .timeout) then
    (record.withHealth fun health =>
      { health with phase := .degraded, lastStateChangedAt := some now }).diagnose
      "运行已停止，已保留最近一次故障诊断" "可查看失败原因后重新部署，或先执行手动测试连接"
  else
    (record.withHealth fun health =>
      { health with phase := .idle, lastStateChangedAt := some now }).diagnose
      diagnosis "等待下一次部署或手动测试连接"

/-! ## The passing of time

What time does to a record is to end its deadlines and to change its phase. -/

/-- A deadline, unless it is over. -/
def unexpired (now : ℤ) (until' : Option ℤ) : Option ℤ :=
  if until'.any fun at' => at' ≤ now then none else until'

theorem unexpired_of_lt {now deadline : ℤ} (h : now < deadline) :
    unexpired now (some deadline) = some deadline := by
  have hnot : ¬ deadline ≤ now := by omega
  simp [unexpired, hnot]

theorem unexpired_of_le {now deadline : ℤ} (h : deadline ≤ now) :
    unexpired now (some deadline) = none := by
  simp [unexpired, h]

section Aging

variable (record : ConnectionRecord) (policy : ConnectionGovernancePolicy) (now : ℤ)

theorem reconcileRateLimit_eq : ∃ phase diagnosis recommendedAction lastStateChangedAt,
    reconcileRateLimit record now = { record with health := { record.health with
      phase, diagnosis, recommendedAction, lastStateChangedAt
      rateLimitedUntil := unexpired now record.health.rateLimitedUntil } } := by
  rw [unexpired]
  by_cases h : record.health.rateLimitedUntil.any (fun until' => until' ≤ now) = true
  · have hover : reconcileRateLimit record now = _ := if_pos h
    rw [hover, if_pos h]
    by_cases hphase : record.health.phase = .rateLimited
    · exact ⟨_, _, _, _, if_pos hphase⟩
    · exact ⟨_, _, _, _, if_neg hphase⟩
  · rw [if_neg h]
    exact ⟨_, _, _, _, if_neg h⟩

theorem reconcileCircuit_eq : ∃ phase diagnosis recommendedAction lastStateChangedAt,
    reconcileCircuit record now = { record with health := { record.health with
      phase, diagnosis, recommendedAction, lastStateChangedAt
      circuitOpenUntil := unexpired now record.health.circuitOpenUntil } } := by
  rw [unexpired]
  by_cases h : record.health.circuitOpenUntil.any (fun until' => until' ≤ now) = true
  · have hover : reconcileCircuit record now = _ := if_pos h
    rw [hover, if_pos h]
    by_cases hphase : record.health.phase = .circuitOpen
    · exact ⟨_, _, _, _, if_pos hphase⟩
    · exact ⟨_, _, _, _, if_neg hphase⟩
  · rw [if_neg h]
    exact ⟨_, _, _, _, if_neg h⟩

theorem reconcileRetry_eq : ∃ phase diagnosis recommendedAction lastStateChangedAt nextRetryAt,
    reconcileRetry record now = { record with health := { record.health with
      phase, diagnosis, recommendedAction, lastStateChangedAt, nextRetryAt } } := by
  simp only [reconcileRetry]
  split
  · exact ⟨_, _, _, _, _, rfl⟩
  · exact ⟨_, _, _, _, _, rfl⟩

theorem reconcileIdle_eq : ∃ phase diagnosis recommendedAction lastStateChangedAt,
    reconcileIdle record policy now = { record with health := { record.health with
      phase, diagnosis, recommendedAction, lastStateChangedAt } } := by
  by_cases huse : record.inUse = true
  · exact ⟨_, _, _, _, if_pos huse⟩
  · have hidle : reconcileIdle record policy now = _ := if_neg huse
    rw [hidle]
    simp only []
    split
    · split
      · exact ⟨_, _, _, _, rfl⟩
      · exact ⟨_, _, _, _, rfl⟩
    · split
      · split
        · exact ⟨_, _, _, _, rfl⟩
        · exact ⟨_, _, _, _, rfl⟩
      · split
        · exact ⟨_, _, _, _, rfl⟩
        · exact ⟨_, _, _, _, rfl⟩

/-- What the passing of time does to a record. -/
theorem reconcileTimedState_eq :
    ∃ phase diagnosis recommendedAction lastStateChangedAt nextRetryAt,
      reconcileTimedState record policy now = { record with health := { record.health with
        phase, diagnosis, recommendedAction, lastStateChangedAt, nextRetryAt
        rateLimitedUntil := unexpired now record.health.rateLimitedUntil
        circuitOpenUntil := unexpired now record.health.circuitOpenUntil } } := by
  rw [reconcileTimedState]
  obtain ⟨phase₁, diagnosis₁, action₁, since₁, hrate⟩ := reconcileRateLimit_eq record now
  rw [hrate]
  obtain ⟨phase₂, diagnosis₂, action₂, since₂, hcircuit⟩ := reconcileCircuit_eq _ now
  rw [hcircuit]
  obtain ⟨phase₃, diagnosis₃, action₃, since₃, retry₃, hretry⟩ := reconcileRetry_eq _ now
  rw [hretry]
  obtain ⟨phase₄, diagnosis₄, action₄, since₄, hidle⟩ := reconcileIdle_eq _ policy now
  rw [hidle]
  exact ⟨phase₄, diagnosis₄, action₄, since₄, retry₃, rfl⟩

end Aging

/-! ## Frames

Most operations change the health of a record and nothing else. -/

/-- The two records differ in their health alone. -/
def HealthOnly (record record' : ConnectionRecord) : Prop :=
  ∃ health, record' = { record with health }

namespace HealthOnly

variable {r r' r'' : ConnectionRecord}

theorem refl (r : ConnectionRecord) : HealthOnly r r := ⟨_, rfl⟩

theorem trans (h : HealthOnly r r') (h' : HealthOnly r' r'') : HealthOnly r r'' := by
  obtain ⟨health, rfl⟩ := h
  obtain ⟨health', rfl⟩ := h'
  exact ⟨health', rfl⟩

theorem inUse (h : HealthOnly r r') : r'.inUse = r.inUse := by
  obtain ⟨health, rfl⟩ := h
  rfl

theorem id (h : HealthOnly r r') : r'.id = r.id := by
  obtain ⟨health, rfl⟩ := h
  rfl

end HealthOnly

section Frames

variable (record : ConnectionRecord) (policy : ConnectionGovernancePolicy) (now borrowedAt : ℤ)
  (text : String)

theorem healthOnly_buildRecord (parseUrl : UrlParser) (definition : ConnectionDefinition) :
    HealthOnly ⟨definition.id, definition.kind, definition.metadata, false, none, .initial⟩
      (buildRecord parseUrl definition) := by
  delta buildRecord refreshDefinitionDiagnosis
  dsimp only
  split <;> exact ⟨_, rfl⟩

/-- A record that was just built is not lent. -/
theorem inUse_buildRecord (parseUrl : UrlParser) (definition : ConnectionDefinition) :
    (buildRecord parseUrl definition).inUse = false :=
  (healthOnly_buildRecord parseUrl definition).inUse

theorem healthOnly_applyRuntimeFailure (isTimeout : Bool) :
    HealthOnly record (applyRuntimeFailure record policy now text isTimeout).1 := by
  simp only [applyRuntimeFailure]
  split
  all_goals split <;> exact ⟨_, rfl⟩

theorem healthOnly_markInvalid :
    HealthOnly { record with inUse := false } (markInvalid record text now) := ⟨_, rfl⟩

theorem healthOnly_finalizeRelease (outcome : ConnectionOutcome) :
    HealthOnly { record with inUse := false } (finalizeRelease record borrowedAt outcome now) := by
  simp only [finalizeRelease]
  split
  · exact .trans ⟨_, rfl⟩ (healthOnly_applyRuntimeFailure _ _ _ _ _)
  · split
    · exact ⟨_, rfl⟩
    · split
      · exact ⟨_, rfl⟩
      · exact .trans ⟨_, rfl⟩ (healthOnly_applyRuntimeFailure _ _ _ _ _)
    · exact ⟨_, rfl⟩

theorem healthOnly_reconcileRateLimit : HealthOnly record (reconcileRateLimit record now) := by
  simp only [reconcileRateLimit]
  split
  · split <;> exact ⟨_, rfl⟩
  · exact .refl _

theorem healthOnly_reconcileCircuit : HealthOnly record (reconcileCircuit record now) := by
  simp only [reconcileCircuit]
  split
  · split <;> exact ⟨_, rfl⟩
  · exact .refl _

theorem healthOnly_reconcileRetry : HealthOnly record (reconcileRetry record now) := by
  simp only [reconcileRetry]
  split
  · exact ⟨_, rfl⟩
  · exact .refl _

theorem healthOnly_reconcileIdle : HealthOnly record (reconcileIdle record policy now) := by
  simp only [reconcileIdle]
  split
  · exact .refl _
  · split <;> split <;> first | exact ⟨_, rfl⟩ | (split <;> exact ⟨_, rfl⟩)

/-- The passing of time changes the health of a record alone. -/
theorem healthOnly_reconcileTimedState :
    HealthOnly record (reconcileTimedState record policy now) :=
  (((healthOnly_reconcileRateLimit record now).trans (healthOnly_reconcileCircuit _ now)).trans
    (healthOnly_reconcileRetry _ now)).trans (healthOnly_reconcileIdle _ policy now)

theorem healthOnly_recordConnectSuccess (latencyMs : Option ℕ) :
    HealthOnly record (recordConnectSuccess record text latencyMs now) := ⟨_, rfl⟩

theorem healthOnly_recordHeartbeat : HealthOnly record (recordHeartbeat record text now) := by
  simp only [recordHeartbeat]
  split <;> exact ⟨_, rfl⟩

theorem healthOnly_resetCircuitBreaker : HealthOnly record (resetCircuitBreaker record now) :=
  ⟨_, rfl⟩

theorem healthOnly_markDisconnected :
    HealthOnly { record with inUse := false } (markDisconnected record text now) := ⟨_, rfl⟩

theorem healthOnly_markIdle :
    HealthOnly { record with inUse := false } (markIdle record text now) := by
  simp only [markIdle]
  split
  · exact ⟨_, rfl⟩
  · split <;> exact ⟨_, rfl⟩

end Frames

end Nazh
