import Nazh.Core.Node

/-!
# Where an output goes

Each edge out of a node is a `DownstreamTarget`: the output port it starts from,
the sender of the node it leads to, and what happens when that node's channel is
full. An output is broadcast to every edge that does not start from a data pin, or
routed to the edges whose port it names.
-/

namespace Nazh

/-- What a sender does when the channel of an edge is full. -/
inductive BackpressurePolicy
  | block
  | dropNewest
  deriving DecidableEq, Repr

/-- An edge out of a node, as the runner holds it. -/
structure DownstreamTarget where
  sourcePortId : Option String
  /-- The channel of the node the edge leads to. -/
  sender : ℕ
  targetNodeId : String
  backpressurePolicy : BackpressurePolicy
  deriving DecidableEq, Repr

/-- The output pins of one kind. -/
def outputPinIds (kind : PinKind) (outputPins : List PinDefinition) : List String :=
  (outputPins.filter fun pin => pin.kind = kind).map PinDefinition.id

def dataOutputPinIds (outputPins : List PinDefinition) : List String :=
  outputPinIds .data outputPins

def reactiveOutputPinIds (outputPins : List PinDefinition) : List String :=
  outputPinIds .reactive outputPins

def hasNonDataOutputPin (outputPins : List PinDefinition) : Bool :=
  outputPins.any fun pin => pin.kind ≠ .data

/-- Whether a dispatch pushes along an edge. -/
def NodeDispatch.pushes (dispatch : NodeDispatch) (dataPins : List String)
    (target : DownstreamTarget) : Bool :=
  match dispatch with
  | .broadcast => match target.sourcePortId with
    | none => true
    | some port => !dataPins.contains port
  | .route portIds => match target.sourcePortId with
    | none => false
    | some portId => !dataPins.contains portId && portIds.any fun candidate => candidate == portId

/-- The edges an output is pushed along. -/
def matchingTargets (dispatch : NodeDispatch) (downstreamSenders : List DownstreamTarget)
    (dataPins : List String) : List DownstreamTarget :=
  downstreamSenders.filter (dispatch.pushes dataPins)

/-- Whether an output is for the output cache alone. -/
def outputIsDataOnly (dispatch : NodeDispatch) (targets : List DownstreamTarget)
    (dataPins reactivePins : List String) (nonDataPin : Bool) : Bool :=
  if !targets.isEmpty then false
  else match dispatch with
    | .broadcast => !dataPins.isEmpty && reactivePins.isEmpty && !nonDataPin
    | .route portIds => !portIds.isEmpty && portIds.all fun portId => dataPins.contains portId

/-- A node with no data pin has no data-only output. -/
theorem outputIsDataOnly_nil (dispatch : NodeDispatch) (targets : List DownstreamTarget)
    (reactivePins : List String) (nonDataPin : Bool) :
    outputIsDataOnly dispatch targets [] reactivePins nonDataPin = false := by
  cases dispatch with
  | broadcast => simp [outputIsDataOnly]
  | route portIds => cases portIds <;> simp [outputIsDataOnly]

/-- With no data pin, a broadcast goes along every edge. -/
@[simp] theorem matchingTargets_broadcast_nil (targets : List DownstreamTarget) :
    matchingTargets .broadcast targets [] = targets := by
  apply List.filter_eq_self.mpr
  intro target _
  cases h : target.sourcePortId <;> simp [NodeDispatch.pushes, h]

/-- With no data pin, a route goes along the edges whose port it names. -/
theorem mem_matchingTargets_route_nil {ports : List String} {targets : List DownstreamTarget}
    {target : DownstreamTarget} :
    target ∈ matchingTargets (.route ports) targets [] ↔
      target ∈ targets ∧ ∃ port ∈ ports, target.sourcePortId = some port := by
  rw [matchingTargets, List.mem_filter]
  refine and_congr_right ?_
  intro _
  cases h : target.sourcePortId with
  | none => simp [NodeDispatch.pushes, h]
  | some port => simp [NodeDispatch.pushes, h]

end Nazh
