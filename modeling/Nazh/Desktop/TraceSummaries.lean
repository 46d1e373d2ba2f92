import Mathlib.Data.Prod.Lex
import Mathlib.Order.WithBot
import Mathlib.Data.String.Basic
import Mathlib.Data.Finset.Card
import Nazh.Lib.Grouping

/-!
# Summaries of traces

What was observed is gathered by traces. The store delivers the newest records first. Counts, times
and failures of a trace do not depend on the order of the records. Some of what a summary tells is
taken from the first record or from the last.
-/

namespace Nazh.Observability

open Lib

/-! ## Records -/

structure ObservabilityEntry where
  id : String
  timestamp : String
  level : String
  traceId : Option String
  nodeId : Option String
  durationMs : Option UInt64
  projectName : Option String
  environmentName : Option String
  eventKind : Option String
  deriving DecidableEq, Repr

structure AlertDeliveryRecord where
  timestamp : String
  traceId : String
  projectName : String
  environmentName : String
  deriving DecidableEq, Repr

structure ObservabilityTraceSummary where
  traceId : String
  status : String
  startedAt : Option String
  lastSeenAt : Option String
  totalEvents : ℕ
  nodeCount : ℕ
  outputCount : ℕ
  failureCount : ℕ
  totalDurationMs : Option ℕ
  lastNodeId : Option String
  projectName : Option String
  environmentName : Option String
  deriving DecidableEq, Repr

/-! ## Gathering -/

/-- What is gathered of a trace. The sum of the durations stays below 2^64. -/
structure TraceAccumulator where
  status : String := ""
  startedAt : Option String := none
  lastSeenAt : Option String := none
  totalEvents : ℕ := 0
  nodeIds : Finset String := ∅
  outputCount : ℕ := 0
  failureCount : ℕ := 0
  totalDurationMs : ℕ := 0
  hasDuration : Bool := false
  lastNodeId : Option String := none
  projectName : Option String := none
  environmentName : Option String := none
  deriving DecidableEq

namespace TraceAccumulator

def finish (acc : TraceAccumulator) (traceId : String) : ObservabilityTraceSummary where
  traceId := traceId
  status := if acc.status = "" then "observed" else acc.status
  startedAt := acc.startedAt
  lastSeenAt := acc.lastSeenAt
  totalEvents := acc.totalEvents
  nodeCount := acc.nodeIds.card
  outputCount := acc.outputCount
  failureCount := acc.failureCount
  totalDurationMs := if acc.hasDuration then some acc.totalDurationMs else none
  lastNodeId := acc.lastNodeId
  projectName := acc.projectName
  environmentName := acc.environmentName

end TraceAccumulator

/-- What a summary tells of its entries and alerts. -/
structure Tells (summary : ObservabilityTraceSummary) (entries : List ObservabilityEntry)
    (alerts : List AlertDeliveryRecord) : Prop where
  failed : summary.status = "failed" ↔ ∃ e ∈ entries, e.level = "error"
  observed : summary.status = "observed" ↔ entries = []
  status_mem : summary.status ∈ ["failed", "observed", "completed", "running"]
  /-- Without errors, the first entry tells the status. -/
  first : ∀ e ∈ entries.head?, (∀ e' ∈ entries, e'.level ≠ "error") →
    (e.eventKind = some "completed" → summary.status = "completed") ∧
    (e.eventKind ∉ [some "completed", some "output", some "finished"] →
      summary.status = "running")
  lastNodeId_mem : ∀ node ∈ summary.lastNodeId, ∃ e ∈ entries, e.nodeId = some node
  lastNodeId_none : summary.lastNodeId = none ↔ ∀ e ∈ entries, e.nodeId = none
  projectName : summary.projectName = (alerts.getLast?.map AlertDeliveryRecord.projectName).or
    (entries.findSome? ObservabilityEntry.projectName)
  environmentName : summary.environmentName =
    (alerts.getLast?.map AlertDeliveryRecord.environmentName).or
      (entries.findSome? ObservabilityEntry.environmentName)

/-- A status that does not tell whether a trace is completed. -/
def plainStatus (status : String) : String := if status = "completed" then "running" else status

/-- The place of an entry in time: the store orders records of one time by their ids. -/
def place (entry : ObservabilityEntry) : String ×ₗ String := toLex (entry.timestamp, entry.id)

/-- A summary without what depends on the order of the records. -/
def ObservabilityTraceSummary.plain (summary : ObservabilityTraceSummary) :
    ObservabilityTraceSummary :=
  { summary with
    status := plainStatus summary.status
    lastNodeId := none, projectName := none, environmentName := none }

/-! ## The order of the records -/

namespace TraceAccumulator

/-- An accumulator without what depends on the order. -/
def plain (acc : TraceAccumulator) : TraceAccumulator :=
  { acc with
    status := plainStatus acc.status
    lastNodeId := none, projectName := none, environmentName := none }

end TraceAccumulator

section Summaries

variable {events events' : List ObservabilityEntry} {alerts alerts' : List AlertDeliveryRecord}
  {traceFilter : Option String} {traceId : String}

variable {iterate iterate' : List (Σ _ : String, TraceAccumulator) →
  List (Σ _ : String, TraceAccumulator)} {limit : ℕ}

end Summaries

/-! ## Two records and an alert -/

end Nazh.Observability
