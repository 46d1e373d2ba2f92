import Nazh.Connections.Types

/-!
# Governance of a connection

The limits that govern a connection are read from its metadata. Each has a default
and a least value.
-/

namespace Nazh

/-- The limits that govern a connection, in milliseconds and counts. -/
structure ConnectionGovernancePolicy where
  operationTimeoutMs : ℕ
  heartbeatTimeoutMs : ℕ
  rateLimitMaxAttempts : ℕ
  rateLimitWindowMs : ℕ
  rateLimitCooldownMs : ℕ
  circuitFailureThreshold : ℕ
  circuitOpenMs : ℕ
  reconnectBaseMs : ℕ
  reconnectMaxMs : ℕ
  deriving DecidableEq, Repr

/-- One entry of the `governance` object of the metadata. -/
def governanceValue (metadata : Value) (key : String) : Option Value :=
  (metadata.asObject.bind fun fields => fields.lookup "governance").bind fun governance =>
    governance.asObject.bind fun fields => fields.lookup key

def governanceU64 (metadata : Value) (key : String) (fallback : ℕ) : ℕ :=
  (((governanceValue metadata key).bind Value.asU64).map UInt64.toNat).getD fallback

def governanceU32 (metadata : Value) (key : String) (fallback : ℕ) : ℕ :=
  (((governanceValue metadata key).bind Value.toU32).map UInt32.toNat).getD fallback

namespace ConnectionGovernancePolicy

/-- The limits of a connection. The connect timeout and the heartbeat interval are left
out: nothing in the pool reads them. -/
def fromMetadata (metadata : Value) : ConnectionGovernancePolicy where
  operationTimeoutMs := max (governanceU64 metadata "operation_timeout_ms" 5000) 200
  heartbeatTimeoutMs := max (governanceU64 metadata "heartbeat_timeout_ms" 12000) 500
  rateLimitMaxAttempts := max (governanceU32 metadata "rate_limit_max_attempts" 8) 1
  rateLimitWindowMs := max (governanceU64 metadata "rate_limit_window_ms" 10000) 500
  rateLimitCooldownMs := max (governanceU64 metadata "rate_limit_cooldown_ms" 4000) 500
  circuitFailureThreshold := max (governanceU32 metadata "circuit_failure_threshold" 3) 1
  circuitOpenMs := max (governanceU64 metadata "circuit_open_ms" 15000) 1000
  reconnectBaseMs := max (governanceU64 metadata "reconnect_base_ms" 800) 200
  reconnectMaxMs := max (governanceU64 metadata "reconnect_max_ms" 8000) 500

/-- The wait before the given attempt: doubled each time, up to a limit. -/
def reconnectDelayMs (policy : ConnectionGovernancePolicy) (attempt : ℕ) : ℕ :=
  min (min (policy.reconnectBaseMs * 2 ^ min (attempt - 1) 6) (2 ^ 64 - 1)) policy.reconnectMaxMs

end ConnectionGovernancePolicy
end Nazh
