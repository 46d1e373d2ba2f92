import Nazh.Json.Value

/-!
# Connection records

A connection has a definition, which says what it connects to, and a record, which
says whether it is lent out and how healthy it is. Times are counted in nanoseconds.
-/

namespace Nazh

/-- The declaration of a connection. -/
structure ConnectionDefinition where
  id : String
  kind : String
  metadata : Value
  deriving DecidableEq

/-- What a borrower is told of the connection. -/
structure ConnectionLease where
  id : String
  kind : String
  metadata : Value
  borrowedAt : ℤ
  deriving DecidableEq

/-- The phase of a connection's health. -/
inductive ConnectionHealthState
  | idle
  | connecting
  | healthy
  | degraded
  | invalid
  | reconnecting
  | rateLimited
  | circuitOpen
  | timeout
  | disconnected
  deriving DecidableEq, Repr

/-- What is known of a connection's health. -/
structure ConnectionHealthSnapshot where
  phase : ConnectionHealthState
  diagnosis : Option String
  recommendedAction : Option String
  lastStateChangedAt : Option ℤ
  lastConnectedAt : Option ℤ
  lastHeartbeatAt : Option ℤ
  lastCheckedAt : Option ℤ
  lastReleasedAt : Option ℤ
  lastFailureAt : Option ℤ
  lastFailureReason : Option String
  nextRetryAt : Option ℤ
  circuitOpenUntil : Option ℤ
  rateLimitedUntil : Option ℤ
  consecutiveFailures : ℕ
  totalFailures : ℕ
  timeoutCount : ℕ
  rateLimitHits : ℕ
  reconnectAttempts : ℕ
  lastLatencyMs : Option ℕ
  deriving DecidableEq, Repr

/-- The health of a connection that was just loaded. -/
def ConnectionHealthSnapshot.initial : ConnectionHealthSnapshot where
  phase := .idle
  diagnosis := some "连接配置已加载，等待建连"
  recommendedAction := some "可部署工作流或触发测试连接以建立会话"
  lastStateChangedAt := none
  lastConnectedAt := none
  lastHeartbeatAt := none
  lastCheckedAt := none
  lastReleasedAt := none
  lastFailureAt := none
  lastFailureReason := none
  nextRetryAt := none
  circuitOpenUntil := none
  rateLimitedUntil := none
  consecutiveFailures := 0
  totalFailures := 0
  timeoutCount := 0
  rateLimitHits := 0
  reconnectAttempts := 0
  lastLatencyMs := none

/-- A registered connection. -/
structure ConnectionRecord where
  id : String
  kind : String
  metadata : Value
  inUse : Bool
  lastBorrowedAt : Option ℤ
  health : ConnectionHealthSnapshot
  deriving DecidableEq

/-- `saturating_add(1)` on a 32-bit counter. -/
def saturatingSucc (n : ℕ) : ℕ := min (n + 1) (2 ^ 32 - 1)

end Nazh
