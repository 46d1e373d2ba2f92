import Nazh.Core.Error

/-!
# Nodes, their outputs and the references between them

A node returns one or more outputs; each is broadcast to every downstream or
routed to the named ports. Between nodes travels a `ContextRef`, which names the
payload in the data plane and does not hold it.
-/

namespace Nazh

/-- How an output is dispatched. -/
inductive NodeDispatch
  | broadcast
  | route (ports : List String)
  deriving DecidableEq, Repr

/-- One output of a node. -/
structure NodeOutput where
  payload : Value
  metadata : Option Fields
  dispatch : NodeDispatch
  deriving DecidableEq

/-- What a node returns. -/
structure NodeExecution where
  outputs : List NodeOutput
  deriving DecidableEq

namespace NodeExecution

def broadcast (payload : Value) : NodeExecution := ⟨[⟨payload, none, .broadcast⟩]⟩

def route (payload : Value) (ports : List String) : NodeExecution :=
  ⟨[⟨payload, none, .route ports⟩]⟩

def fromOutputs (outputs : List NodeOutput) : NodeExecution := ⟨outputs⟩

/-- Attach metadata to every output; `none` leaves them as they are. -/
def withMetadata (execution : NodeExecution) : Option Fields → NodeExecution
  | none => execution
  | some metadata => ⟨execution.outputs.map fun output => { output with metadata := some metadata }⟩

end NodeExecution

/-- `into_payload_map`. -/
def intoPayloadMap : Value → Fields
  | .object map => map
  | other => [("value", other)]

/-- A reference to a datum, as channels carry it. -/
structure ContextRef where
  traceId : ℕ
  timestamp : ℤ
  dataId : ℕ
  sourceNode : Option String
  deriving DecidableEq, Repr

/-- A full context, as callers outside the graph see it. -/
structure WorkflowContext where
  traceId : ℕ
  timestamp : ℤ
  payload : Value
  deriving DecidableEq

/-- A node, as the graph sees it: its name for itself and its pins. -/
structure NodeTrait where
  id : String
  inputPins : List PinDefinition
  outputPins : List PinDefinition
  deriving DecidableEq

/-- Whether a node takes no part in the push: neither an execution pin nor a reactive one. -/
def isPureForm (node : NodeTrait) : Bool :=
  let noExecInput := node.inputPins.all fun p => p.kind ≠ .exec && p.kind ≠ .reactive
  let noExecOutput := node.outputPins.all fun p => p.kind ≠ .exec && p.kind ≠ .reactive
  noExecInput && noExecOutput

/-- The pins of a pure-form node are data pins. -/
theorem kind_of_isPureForm {node : NodeTrait} (h : isPureForm node = true) :
    ∀ p, p ∈ node.inputPins ∨ p ∈ node.outputPins → p.kind = .data := by
  have hdata : ∀ p : PinDefinition, (p.kind ≠ .exec && p.kind ≠ .reactive) = true →
      p.kind = .data := by
    intro p hp
    cases hk : p.kind with
    | data => rfl
    | exec => simp [hk] at hp
    | reactive => simp [hk] at hp
  rw [isPureForm, Bool.and_eq_true, List.all_eq_true, List.all_eq_true] at h
  intro p hp
  rcases hp with hin | hout
  · exact hdata p (h.1 p hin)
  · exact hdata p (h.2 p hout)

end Nazh
