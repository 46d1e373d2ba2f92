import Nazh.Core.Cache
import Nazh.Graph.Topology
import Nazh.Lib.Fueled

/-!
# Pulling data inputs

Before a node is executed, the values of its data inputs are pulled along the data edges
into it. The value of a pure-form node is computed: its own inputs are pulled, and what it
made of the same inputs in the same trace is remembered in a memo. The value of any other
node is read from its cache, and an input says what to do while there is none.

Caches are written while a pull is under way. Each look at the caches has a time of its own,
and what is there is a function of the time; so is what an execution of a node ends with a
function of the number of executions before it.
-/

namespace Nazh

open Lib

/-! ## The index -/

/-- A data edge into a node. -/
structure DataInEdge where
  consumerInputPinId : String
  upstreamNodeId : String
  upstreamOutputPinId : String
  deriving DecidableEq, Repr

/-- The data edges into each node, in the order of the graph. -/
structure EdgesByConsumer where
  byConsumer : List (String × DataInEdge)

def EdgesByConsumer.forConsumer (index : EdgesByConsumer) (consumerNodeId : String) :
    List DataInEdge :=
  (index.byConsumer.filter fun e => e.1 = consumerNodeId).map Prod.snd

/-- An edge as its consumer has it. -/
def WorkflowEdge.dataInEdge (edge : WorkflowEdge) : DataInEdge :=
  ⟨edge.targetPin, edge.source, edge.sourcePin⟩

def buildEdgesByConsumer (dataEdges : List WorkflowEdge) : EdgesByConsumer :=
  ⟨dataEdges.map fun edge => (edge.target, edge.dataInEdge)⟩

/-! ## The memo -/

/-- What pure-form nodes made, by node, trace and hash of the input. -/
structure PureMemo where
  inner : String → ℕ → UInt64 → Option Value

/-- What a pull does with a memo `μ`. -/
structure MemoOps (μ : Type) where
  get : μ → String → ℕ → UInt64 → Option Value
  insert : μ → String → ℕ → UInt64 → Value → μ

namespace PureMemo

def new : PureMemo := ⟨fun _ _ _ => none⟩

def insert (memo : PureMemo) (nodeId : String) (traceId : ℕ) (inputHash : UInt64)
    (payload : Value) : PureMemo :=
  ⟨fun n t h => if n = nodeId ∧ t = traceId ∧ h = inputHash then some payload
    else memo.inner n t h⟩

/-- Forget a trace. -/
def clearTrace (memo : PureMemo) (traceId : ℕ) : PureMemo :=
  ⟨fun n t h => if t = traceId then none else memo.inner n t h⟩

/-- The memo as the pull uses it. -/
def ops : MemoOps PureMemo := ⟨inner, insert⟩

end PureMemo

/-- A memo that keeps nothing. -/
def noMemo : MemoOps Unit := ⟨fun _ _ _ _ => none, fun _ _ _ _ _ => ()⟩

/-! ## The surroundings -/

/-- How waiting for a slot ends. -/
inductive WaitOutcome
  | changed
  | closed
  | timedOut
  deriving DecidableEq, Repr

/-- What a pull asks. -/
structure PullEnv where
  nodesIndex : NodeIndex
  edgesByConsumer : EdgesByConsumer
  outputCaches : ℕ → String → Option OutputCache
  now : ℕ → ℤ
  wait : ℕ → WaitOutcome
  /-- What `guarded_execute` of a node's `transform` ends with, after so many executions. -/
  execute : ℕ → String → ℕ → Value → Except EngineError NodeExecution
  inputHash : Value → UInt64

/-- The state of a pull: how often it looked at the caches, how often it executed a node, and
the memo. -/
structure PullState (μ : Type) where
  clock : ℕ
  executed : ℕ
  memo : μ

/-- What an input says about a value that is not there. -/
structure InputPolicy where
  emptyPolicy : EmptyPolicy
  blockTimeoutMs : Option ℕ
  ttlMs : Option ℕ
  deriving DecidableEq, Repr

/-- The policy of an input; of two pins with one id the last counts. -/
def inputPolicy (consumer : NodeTrait) (pinId : String) : InputPolicy :=
  match findPin consumer.inputPins.reverse pinId with
  | some pin => ⟨pin.emptyPolicy, pin.blockTimeoutMs, pin.ttlMs⟩
  | none => ⟨.blockUntilReady, none, none⟩

abbrev Pull (μ α : Type) := Fueled (PullState μ) EngineError α

variable {μ : Type}

/-- One look at the caches. -/
def look {α : Type} (f : ℕ → α) : Pull μ α :=
  Fueled.access fun s => (f s.clock, { s with clock := s.clock + 1 })

/-! ## Payloads -/

/-- The pulled values join the payload; a payload that is not an object becomes the field
`in`. -/
def mergePayload (execPayload : Value) (dataValues : Fields) : Value :=
  match execPayload with
  | .object map => .object (dataValues.foldr (fun field acc => Fields.insert acc field.1 field.2) map)
  | other => .object (Fields.insert dataValues "in" other)

/-- The pulled values by the pin they are for; of two for one pin the last stays. -/
def collectDataValues (entries : List DataInEdge) (values : List Value) : Fields :=
  (entries.zip values).foldl (fun acc e => Fields.insert acc e.1.consumerInputPinId e.2) []

/-- The value of a pin in what a pure-form node made. -/
def extractPinFromPayload (payload : Value) (pinId : String) : Option Value := payload.get pinId

/-- The value of a pin in the outputs of a pure-form node: the first output with a field of
its name, or else the whole first output. -/
def pinFromOutputs (outputs : List NodeOutput) (nodeId pinId : String) : Except EngineError Value :=
  match outputs.findSome? fun output => extractPinFromPayload output.payload pinId with
  | some v => .ok v
  | none => okOr (outputs.head?.map NodeOutput.payload) (.dataPinCacheEmpty nodeId pinId)

/-! ## The pull -/

namespace PullEnv

variable (E : PullEnv) (ops : MemoOps μ)

/-- `BlockUntilReady`: look again, and then wait for the slot to change. -/
def awaitSlot (nodeId pinId : String) (cache : OutputCache) (policy : InputPolicy) :
    Pull μ Value := do
  let timeoutMs := policy.blockTimeoutMs.getD defaultBlockTimeoutMs
  let empty : EngineError := .dataPinCacheEmpty nodeId pinId
  let timeout : EngineError := .dataPinPullTimeout nodeId pinId timeoutMs
  if pinId ∉ cache.slots then Fueled.fail empty
  else
    let present ← look fun t => (E.outputCaches t nodeId).bind fun c =>
      c.read pinId policy.ttlMs (E.now t)
    match present with
    | some cached => return cached.value
    | none =>
        match ← look E.wait with
        | .closed => Fueled.fail empty
        | .changed =>
            let snapshot ← look fun t => ((E.outputCaches t nodeId).bind fun c =>
              c.borrow pinId).map fun cached => (cached, E.now t)
            match snapshot with
            | none => Fueled.fail empty
            | some (cached, now) =>
                if cached.isExpired now policy.ttlMs then Fueled.fail timeout
                else return cached.value
        | .timedOut =>
            let last ← look fun t => (E.outputCaches t nodeId).bind fun c =>
              c.read pinId policy.ttlMs (E.now t)
            Fueled.ofExcept (okOr (last.map CachedOutput.value) timeout)

/-- The value of a node that is not pure-form. -/
def readSlot (nodeId pinId : String) (policy : InputPolicy) : Pull μ Value := do
  let seen ← look fun t => (E.outputCaches t nodeId).map fun c =>
    (c, c.read pinId policy.ttlMs (E.now t))
  match seen with
  | none => Fueled.fail (.invalidGraph
      s!"上游 Exec 节点 \x60{nodeId}\x60 在 output_caches_index 缺失")
  | some (_, some cached) => return cached.value
  | some (cache, none) =>
      match policy.emptyPolicy with
      | .blockUntilReady => E.awaitSlot nodeId pinId cache policy
      | .defaultValue v => return v
      | .skip => return .null

/-- The value of a pure-form node whose inputs have been pulled. -/
def evaluatePure (nodeId pinId : String) (traceId : ℕ) (payload : Value) : Pull μ Value := do
  let ih := E.inputHash payload
  let hit ← Fueled.access fun s => (ops.get s.memo nodeId traceId ih, s)
  match hit with
  | some cachedPayload =>
      Fueled.ofExcept
        (okOr (extractPinFromPayload cachedPayload pinId) (.dataPinCacheEmpty nodeId pinId))
  | none =>
      let answer ← Fueled.access fun s =>
        (E.execute s.executed nodeId traceId payload, { s with executed := s.executed + 1 })
      let result ← Fueled.ofExcept answer
      match result.outputs with
      | [] => Fueled.ofExcept (pinFromOutputs [] nodeId pinId)
      | first :: rest =>
          Fueled.access fun s =>
            ((), { s with memo := ops.insert s.memo nodeId traceId ih first.payload })
          Fueled.ofExcept (pinFromOutputs (first :: rest) nodeId pinId)

/-- The values along the edges into a node. -/
def pullEntries (pull : String → String → InputPolicy → Pull μ Value) (consumer : NodeTrait)
    (entries : List DataInEdge) : Pull μ (List Value) :=
  Fueled.collect (fun entry => pull entry.upstreamNodeId entry.upstreamOutputPinId
    (inputPolicy consumer entry.consumerInputPinId)) entries

/-- The payload a node is executed with. -/
def pullDataInputs (pull : String → String → InputPolicy → Pull μ Value) (consumerId : String)
    (consumer : NodeTrait) (execPayload : Value) : Pull μ Value := do
  let entries := E.edgesByConsumer.forConsumer consumerId
  if entries.isEmpty then return execPayload
  else
    let values ← pullEntries pull consumer entries
    return mergePayload execPayload (collectDataValues entries values)

/-- One value, with fuel for `fuel` nodes below one another. -/
def pullOne (traceId : ℕ) : ℕ → String → String → InputPolicy → Pull μ Value
  | 0, _, _, _ => Fueled.exhausted
  | fuel + 1, nodeId, pinId, policy =>
      match E.nodesIndex.lookup nodeId with
      | none => Fueled.fail (.invalidGraph
          s!"拉路径上游节点 \x60{nodeId}\x60 在 nodes_index 缺失")
      | some upstream =>
          if isPureForm upstream then do
            let payload ←
              E.pullDataInputs (pullOne traceId fuel) nodeId upstream (.object [])
            E.evaluatePure ops nodeId pinId traceId payload
          else E.readSlot nodeId pinId policy

/-! ## Enough fuel -/

/-- A rank that grows along the data edges. -/
def Ranked (rank : String → ℕ) : Prop :=
  ∀ consumerId, ∀ entry ∈ E.edgesByConsumer.forConsumer consumerId,
    rank entry.upstreamNodeId < rank consumerId

variable {E ops}

theorem returns_look {α : Type} (f : ℕ → α) : (look f : Pull μ α).Returns := Fueled.Returns.access _

theorem returns_awaitSlot (nodeId pinId : String) (cache : OutputCache) (policy : InputPolicy) :
    (E.awaitSlot nodeId pinId cache policy : Pull μ Value).Returns := by
  unfold awaitSlot
  split
  · exact Fueled.Returns.fail _
  · refine Fueled.Returns.bind (returns_look _) fun present => ?_
    cases present with
    | some cached => exact Fueled.Returns.pure _
    | none =>
        refine Fueled.Returns.bind (returns_look _) fun outcome => ?_
        cases outcome with
        | closed => exact Fueled.Returns.fail _
        | timedOut =>
            exact Fueled.Returns.bind (returns_look _) fun _ => Fueled.Returns.ofExcept _
        | changed =>
            refine Fueled.Returns.bind (returns_look _) fun snapshot => ?_
            cases snapshot with
            | none => exact Fueled.Returns.fail _
            | some cached =>
                dsimp only
                split
                · exact Fueled.Returns.fail _
                · exact Fueled.Returns.pure _

theorem returns_readSlot (nodeId pinId : String) (policy : InputPolicy) :
    (E.readSlot nodeId pinId policy : Pull μ Value).Returns := by
  refine Fueled.Returns.bind (returns_look _) fun seen => ?_
  match seen with
  | none => exact Fueled.Returns.fail _
  | some (_, some cached) => exact Fueled.Returns.pure _
  | some (cache, none) =>
      dsimp only
      cases policy.emptyPolicy with
      | blockUntilReady => exact returns_awaitSlot nodeId pinId cache policy
      | defaultValue v => exact Fueled.Returns.pure _
      | skip => exact Fueled.Returns.pure _

theorem returns_evaluatePure (nodeId pinId : String) (traceId : ℕ) (payload : Value) :
    (E.evaluatePure ops nodeId pinId traceId payload).Returns := by
  refine Fueled.Returns.bind (Fueled.Returns.access _) fun hit => ?_
  cases hit with
  | some cachedPayload => exact Fueled.Returns.ofExcept _
  | none =>
      refine Fueled.Returns.bind (Fueled.Returns.access _) fun answer => ?_
      refine Fueled.Returns.bind (Fueled.Returns.ofExcept _) fun result => ?_
      cases result.outputs with
      | nil => exact Fueled.Returns.ofExcept _
      | cons first rest =>
          exact Fueled.Returns.bind (Fueled.Returns.access _) fun _ => Fueled.Returns.ofExcept _

/-- The inputs of a node are pulled if each of them is. -/
theorem returns_pullDataInputs {pull : String → String → InputPolicy → Pull μ Value}
    {consumerId : String} {consumer : NodeTrait} {execPayload : Value}
    (h : ∀ entry ∈ E.edgesByConsumer.forConsumer consumerId, ∀ policy,
      (pull entry.upstreamNodeId entry.upstreamOutputPinId policy).Returns) :
    (E.pullDataInputs pull consumerId consumer execPayload).Returns := by
  unfold pullDataInputs
  dsimp only
  split
  · exact Fueled.Returns.pure _
  · refine Fueled.Returns.bind (Fueled.Returns.collect fun entry hentry => ?_) fun values => ?_
    · exact h entry hentry _
    · exact Fueled.Returns.pure _

/-- With as much fuel as there are nodes above one another, a pull comes to an end. -/
theorem returns_pullOne {rank : String → ℕ} (hrank : E.Ranked rank) (traceId : ℕ) {fuel : ℕ}
    {nodeId : String} (hfuel : rank nodeId < fuel) (pinId : String) (policy : InputPolicy) :
    (E.pullOne ops traceId fuel nodeId pinId policy).Returns := by
  induction fuel generalizing nodeId pinId policy with
  | zero => omega
  | succ fuel ih =>
      rw [pullOne]
      split
      · exact Fueled.Returns.fail _
      · split
        · refine Fueled.Returns.bind (returns_pullDataInputs fun entry hentry policy => ?_)
            fun payload => returns_evaluatePure _ _ _ _
          have hlt := hrank nodeId entry hentry
          exact ih (by omega) _ _
        · exact returns_readSlot _ _ _

end PullEnv
end Nazh
