import Nazh.Graph.Deployable
import Nazh.Graph.Memo

/-!
# A pull stays among ancestors

A pull follows the data edges backwards, and keeps no account of where it has been. It comes to an
end because the edges of a deployed graph have no cycle: each step goes back in the order in which the
nodes are deployed.

A node is evaluated where the end of a pull depends on what the node makes.
-/

namespace Nazh

open Lib

namespace PullEnv

variable {μ α : Type}

/-- The same surroundings with other executions. -/
def withExecute (E : PullEnv)
    (execute : ℕ → String → ℕ → Value → Except EngineError NodeExecution) : PullEnv :=
  { E with execute }

/-- The pull executes the node: it would end otherwise if the executions of this node alone ended
otherwise. -/
def Evaluates (E : PullEnv) (pull : PullEnv → Pull μ α) (s : PullState μ) (nodeId : String) : Prop :=
  ∃ execute, (∀ executed other traceId payload, other ≠ nodeId →
      execute executed other traceId payload = E.execute executed other traceId payload) ∧
    pull (E.withExecute execute) s ≠ pull E s

variable {E : PullEnv} {ops : MemoOps μ} {dataEdges : List WorkflowEdge} {nodes : NodeIndex}
  {execute : ℕ → String → ℕ → Value → Except EngineError NodeExecution} {nodeId pinId : String}
  {traceId : ℕ} {payload : Value} {s : PullState μ}

/-! ## What is evaluated -/

/-- A pure-form node whose inputs are not remembered is evaluated. -/
theorem evaluates_of_miss (h : ops.get s.memo nodeId traceId (E.inputHash payload) = none) :
    E.Evaluates (fun E => E.evaluatePure ops nodeId pinId traceId payload) s nodeId := by
  let failing (text : String) : ℕ → String → ℕ → Value → Except EngineError NodeExecution :=
    fun executed other traceId payload => if other = nodeId then .error (.invalidGraph text)
      else E.execute executed other traceId payload
  have hagrees : ∀ text executed other traceId payload, other ≠ nodeId →
      failing text executed other traceId payload = E.execute executed other traceId payload :=
    fun text executed other traceId payload hne => if_neg hne
  have hfails : ∀ text, (E.withExecute (failing text)).evaluatePure ops nodeId pinId traceId payload s
      = some (.error (.invalidGraph text), { s with executed := s.executed + 1 }) := by
    intro text
    simp [evaluatePure, withExecute, failing, bind, Fueled.access, Fueled.ofExcept, h]
  -- it cannot end as both of two different failures
  by_cases hsame : (E.withExecute (failing "")).evaluatePure ops nodeId pinId traceId payload s =
      E.evaluatePure ops nodeId pinId traceId payload s
  · refine ⟨failing "failed", hagrees _, fun heq => ?_⟩
    have hboth := (hfails "failed").symm.trans (Eq.trans heq (hsame.symm.trans (hfails "")))
    simp at hboth
  · exact ⟨failing "", hagrees _, hsame⟩

end PullEnv

namespace Prepared

variable {env : DeployEnv} {graph : WorkflowGraph} {p : Prepared}

end Prepared
end Nazh
