import Nazh.Core.Text
import Nazh.Flow.StateMachine
import Nazh.Graph.Bridges

/-!
# Nodes that branch by a script

The nodes `if`, `switch`, `tryCatch` and `loop` run a script on the payload and route what it leaves by
what it gives. Each declares an output pin for every branch, and an edge is for one branch: the one
whose pin it starts from.

The script engine is a parameter.
-/

namespace Nazh

open Lib

/-! ## Nodes with a script -/

/-- The script engine, as far as `ScriptNodeBase` uses it. What a script does to the variables of the
workflow belongs to its scope. -/
structure RhaiEngine where
  Ast : Type
  Scope : Type
  Dynamic : Type
  compile : (maxOperations : ℕ) → String → Except String Ast
  /-- A scope that holds the payload and the variables. -/
  payloadScope : Value → Except String Scope
  evalAst : (maxOperations : ℕ) → Ast → Scope → Except String Dynamic × Scope
  /-- The variable `payload`. -/
  payloadOf : Scope → Option Dynamic
  toValue : Dynamic → Except String Value
  toBool : Dynamic → Except String Bool
  isUnit : Dynamic → Bool
  display : Dynamic → String
  asI64 : Dynamic → Option ℤ
  asU64 : Dynamic → Option ℕ
  asArray : Dynamic → Option (List Dynamic)

structure ScriptNodeBase (R : RhaiEngine) where
  id : String
  maxOperations : ℕ
  ast : R.Ast

variable {R : RhaiEngine}

namespace ScriptNodeBase

def new (R : RhaiEngine) (id script : String) (maxOperations : ℕ) :
    Except EngineError (ScriptNodeBase R) := do
  let ast ← (R.compile maxOperations script).mapError (.scriptCompile id)
  .ok ⟨id, maxOperations, ast⟩

variable (base : ScriptNodeBase R)

/-- A script that fails is no failure of its own. -/
def evaluateCatching (payload : Value) : Except EngineError (R.Scope × Except String R.Dynamic) := do
  let scope ← (R.payloadScope payload).mapError (.payloadConversion base.id)
  let (result, scope) := R.evalAst base.maxOperations base.ast scope
  .ok (scope, result)

def evaluate (payload : Value) : Except EngineError (R.Scope × R.Dynamic) := do
  let (scope, result) ← base.evaluateCatching payload
  let result ← result.mapError (.scriptRuntime base.id)
  .ok (scope, result)

def dynamicToValue (result : R.Dynamic) : Except EngineError Value :=
  (R.toValue result).mapError (.payloadConversion base.id)

def payloadFromScope (scope : R.Scope) : Except EngineError Value := do
  let payload ← okOr (R.payloadOf scope)
    (.payloadConversion base.id "脚本执行后作用域中未保留 \x60payload\x60 变量")
  base.dynamicToValue payload

/-- What a script gives, or what it leaves of the payload if it gives nothing. -/
def resultOrPayload (scope : R.Scope) (result : R.Dynamic) : Except EngineError Value :=
  if R.isUnit result then base.payloadFromScope scope else base.dynamicToValue result

end ScriptNodeBase

/-- An output pin for a branch. -/
def branchPin (id label : String) : PinDefinition :=
  { PinDefinition.defaultOutput with id := id, label := label }

/-! ## The nodes -/

/-- `transform` of a `code` node, which has no branches. -/
def CodeNode.transform (base : ScriptNodeBase R) (payload : Value) :
    Except EngineError NodeExecution := do
  let (scope, result) ← base.evaluate payload
  let newPayload ← base.resultOrPayload scope result
  .ok (.broadcast newPayload)

namespace IfNode

def outputPins : List PinDefinition := [branchPin "true" "真", branchPin "false" "假"]

def transform (base : ScriptNodeBase R) (payload : Value) : Except EngineError NodeExecution := do
  let (scope, result) ← base.evaluate payload
  let branch ← (R.toBool result).mapError fun e =>
    .payloadConversion base.id s!"If 节点脚本必须返回布尔值: {e}"
  let newPayload ← base.payloadFromScope scope
  .ok (.route newPayload [if branch then "true" else "false"])

end IfNode

structure SwitchBranchConfig where
  key : String
  label : Option String

def SwitchBranchConfig.fromJson (v : Value) : Option SwitchBranchConfig := do
  let fields ← v.asObject
  let key ← required fields "key" Value.asStr
  let label ← optional fields "label" Value.asStr
  some ⟨key, label⟩

structure SwitchNode (R : RhaiEngine) where
  base : ScriptNodeBase R
  branches : List SwitchBranchConfig
  defaultBranch : String

namespace SwitchNode

/-- `SwitchNode::new`, with a script that compiles. -/
def new (base : ScriptNodeBase R) (branches : List SwitchBranchConfig) (defaultBranch : String) :
    SwitchNode R :=
  ⟨base, branches, if Text.trim defaultBranch = "" then "default" else defaultBranch⟩

variable (node : SwitchNode R)

def outputPins : List PinDefinition :=
  let pins := node.branches.map fun branch => branchPin branch.key (branch.label.getD branch.key)
  if pins.any fun pin => pin.id == node.defaultBranch then pins
  else pins ++ [branchPin node.defaultBranch (node.defaultBranch ++ "（默认）")]

/-- The branch for what the script displays, or for a unit. -/
def nextBranch : Option String → String
  | none => node.defaultBranch
  | some branch =>
      let normalized := Text.trim branch
      if normalized = "" ∨ normalized = "()" then node.defaultBranch
      else if normalized = node.defaultBranch ∨
          node.branches.any (fun branch => branch.key == normalized) = true then normalized
      else node.defaultBranch

def transform (payload : Value) : Except EngineError NodeExecution := do
  let (scope, result) ← node.base.evaluate payload
  let newPayload ← node.base.payloadFromScope scope
  .ok (.route newPayload
    [node.nextBranch (if R.isUnit result then none else some (R.display result))])

end SwitchNode

namespace TryCatchNode

def outputPins : List PinDefinition := [branchPin "try" "try", branchPin "catch" "catch"]

def transform (base : ScriptNodeBase R) (inputPayload : Value) : Except EngineError NodeExecution := do
  let (scope, scriptResult) ← base.evaluateCatching inputPayload
  match scriptResult with
  | .ok result => do
      let payload ← base.resultOrPayload scope result
      .ok (.route payload ["try"])
  | .error message =>
      let basePayload := (base.payloadFromScope scope).toOption.getD inputPayload
      .ok (.route (.object ((intoPayloadMap basePayload).insert "_error" (.string message))) ["catch"])

/-- The payload is tried exactly if a `code` node with the script broadcasts it. -/
theorem transform_try_iff {base : ScriptNodeBase R} {payload v : Value} :
    transform base payload = .ok (.route v ["try"]) ↔
      CodeNode.transform base payload = .ok (.broadcast v) := by
  simp only [transform, CodeNode.transform, ScriptNodeBase.evaluate, bind_eq_ok]
  constructor
  · rintro ⟨⟨scope, result⟩, hcaught, h⟩
    cases result with
    | error message => simp [NodeExecution.route] at h
    | ok result =>
        obtain ⟨w, hw, h⟩ := bind_eq_ok.mp h
        obtain rfl : w = v := by simpa [NodeExecution.route] using h
        exact ⟨(scope, result), ⟨_, hcaught, result, rfl, rfl⟩, w, hw, rfl⟩
  · rintro ⟨⟨scope, result⟩, ⟨⟨_, caught⟩, hcaught, _, hresult, ⟨⟩⟩, w, hw, h⟩
    obtain rfl : w = v := by simpa [NodeExecution.broadcast] using h
    cases caught with
    | error message => cases hresult
    | ok result =>
        cases hresult
        exact ⟨_, hcaught, bind_eq_ok.mpr ⟨w, hw, rfl⟩⟩

end TryCatchNode

namespace LoopNode

def maxLoopIterations : ℕ := 10000

def outputPins : List PinDefinition := [branchPin "body" "body", branchPin "done" "done"]

def withLoopState (payload : Value) (phase : String) (index : Option ℕ) (count : ℕ)
    (item : Option Value) : Value :=
  let loopMap := (Fields.insert [] "phase" (.string phase)).insert "count" (.number (.ofNat count))
  let loopMap := loopMap.insertSome "index" (index.map fun i => .number (.ofNat i))
  .object ((intoPayloadMap payload).insert "_loop" (.object (loopMap.insertSome "item" item)))

/-- So many iterations without an item. -/
def repeated (nodeId : String) (n : ℕ) : Except EngineError (List (Option Value)) :=
  if maxLoopIterations < n then
    .error (.payloadConversion nodeId s!"Loop 迭代次数 {n} 超过上限 {maxLoopIterations}")
  else .ok (List.replicate n none)

def collectLoopItems (nodeId : String) (result : R.Dynamic) :
    Except EngineError (List (Option Value)) :=
  match R.asI64 result, R.asU64 result, R.asArray result with
  | some count, _, _ =>
      if count < 0 then .error (.payloadConversion nodeId "Loop 节点脚本必须返回非负整数或数组")
      else repeated nodeId count.toNat
  | none, some count, _ => repeated nodeId count
  | none, none, some items =>
      if maxLoopIterations < items.length then
        .error (.payloadConversion nodeId s!"Loop 数组长度 {items.length} 超过上限 {maxLoopIterations}")
      else items.mapM fun item => match R.toValue item with
        | .ok v => .ok (some v)
        | .error e => .error (.payloadConversion nodeId s!"Loop 节点迭代项无法转换为 JSON: {e}")
  | none, none, none => .error (.payloadConversion nodeId "Loop 节点脚本必须返回非负整数或数组")

/-- An output for every item, and one after them. -/
def outputs (payload : Value) (items : List (Option Value)) : List NodeOutput :=
  (items.zipIdx.map fun item => ⟨withLoopState payload "body" (some item.2) items.length item.1, none,
    .route ["body"]⟩) ++ [⟨withLoopState payload "done" none items.length none, none, .route ["done"]⟩]

def transform (base : ScriptNodeBase R) (inputPayload : Value) : Except EngineError NodeExecution := do
  let (scope, result) ← base.evaluate inputPayload
  let payload ← base.payloadFromScope scope
  let items ← collectLoopItems base.id result
  .ok (.fromOutputs (outputs payload items))

theorem length_repeated_le {nodeId : String} {n : ℕ} {items : List (Option Value)}
    (h : repeated nodeId n = .ok items) : items.length ≤ maxLoopIterations := by
  rw [repeated] at h
  split_ifs at h with hn
  cases h
  rw [List.length_replicate]
  exact Nat.le_of_not_lt hn

/-- There are never more iterations than the limit. -/
theorem length_collectLoopItems_le {nodeId : String} {result : R.Dynamic}
    {items : List (Option Value)} (h : collectLoopItems nodeId result = .ok items) :
    items.length ≤ maxLoopIterations := by
  rw [collectLoopItems] at h
  split at h
  · split_ifs at h
    exact length_repeated_le h
  · exact length_repeated_le h
  · split_ifs at h with hn
    rw [← (forall₂_of_mapM h).length_eq]
    exact Nat.le_of_not_lt hn
  · cases h

end LoopNode

/-- A node with a pin for every branch. -/
inductive BranchingNode (R : RhaiEngine)
  | ifNode (base : ScriptNodeBase R)
  | switchNode (node : SwitchNode R)
  | tryCatchNode (base : ScriptNodeBase R)
  | loopNode (base : ScriptNodeBase R)

namespace BranchingNode

def outputPins : BranchingNode R → List PinDefinition
  | ifNode _ => IfNode.outputPins
  | switchNode node => node.outputPins
  | tryCatchNode _ => TryCatchNode.outputPins
  | loopNode _ => LoopNode.outputPins

def transform : BranchingNode R → Value → Except EngineError NodeExecution
  | ifNode base => IfNode.transform base
  | switchNode node => node.transform
  | tryCatchNode base => TryCatchNode.transform base
  | loopNode base => LoopNode.transform base

/-- The configuration of a script: its text and its limit. -/
def scriptConfig (fields : Fields) : Option (String × ℕ) := do
  let script ← required fields "script" Value.asStr
  let maxOperations ← defaulted fields "max_operations" (Value.toUnsigned UInt64.size)
    defaultMaxOperations
  some (script, maxOperations)

/-- The configuration of the branches of a `switch`. -/
def switchConfig (fields : Fields) : Option (List SwitchBranchConfig × String) := do
  let branches ← defaulted fields "branches" (Value.toList SwitchBranchConfig.fromJson) []
  let defaultBranch ← defaulted fields "default_branch" Value.asStr "default"
  some (branches, defaultBranch)

/-- The factories of these nodes; `serdeError` is what is said of a configuration that cannot be
read. -/
def create (R : RhaiEngine) (serdeError : Value → String) (definition : WorkflowNodeDefinition) :
    Option (Except EngineError (BranchingNode R)) :=
  let parsed {α : Type} (read : Fields → Option α) : Except EngineError α :=
    okOr (definition.config.asObject.bind read)
      (.nodeConfig definition.id (serdeError definition.config))
  let base : Except EngineError (ScriptNodeBase R) := do
    let (script, maxOperations) ← parsed scriptConfig
    ScriptNodeBase.new R definition.id script maxOperations
  match definition.nodeType with
  | "if" => some (base.map ifNode)
  | "switch" => some do
      let (branches, defaultBranch) ← parsed switchConfig
      let base ← base
      .ok (switchNode (.new base branches defaultBranch))
  | "tryCatch" => some (base.map tryCatchNode)
  | "loop" => some (base.map loopNode)
  | _ => none

end BranchingNode

/-- The registry with the factories of these nodes. -/
def DeployEnv.withBranching (env : DeployEnv) (R : RhaiEngine) (serdeError : Value → String) :
    DeployEnv :=
  { env with create := fun definition => match BranchingNode.create R serdeError definition with
      | some made => made.map fun node => ⟨definition.id, [.defaultInput], node.outputPins⟩
      | none => env.create definition }

/-- The edges that start from a pin of a node, in the order of the deployment. -/
def Prepared.branch (p : Prepared) (nodeId pinId : String) : List WorkflowEdge :=
  (p.topology.downstream nodeId).filter fun e => e.sourcePortId = some pinId

/-! ## Pins and routes -/

/-- The outputs that route a payload to a pin each. -/
def routed (taken : List (String × Value)) : List NodeOutput :=
  taken.map fun t => ⟨t.2, none, .route [t.1]⟩

/-- The pins and payloads of a loop. -/
def LoopNode.taken (v : Value) (items : List (Option Value)) : List (String × Value) :=
  (items.zipIdx.map fun item => ("body", withLoopState v "body" (some item.2) items.length item.1)) ++
    [("done", withLoopState v "done" none items.length none)]

theorem LoopNode.outputs_eq (v : Value) (items : List (Option Value)) :
    outputs v items = routed (taken v items) := by
  simp [routed, outputs, taken]

section

variable {node : BranchingNode R} {payload : Value} {execution : NodeExecution}

theorem SwitchNode.mem_outputPins {node : SwitchNode R} {port : String} :
    port ∈ node.outputPins.map PinDefinition.id ↔
      port = node.defaultBranch ∨ ∃ branch ∈ node.branches, branch.key = port := by
  rw [outputPins]
  by_cases hdefault : ∃ branch ∈ node.branches, branch.key = node.defaultBranch
  · rw [if_pos (by simpa [branchPin] using hdefault)]
    simp only [List.map_map, List.mem_map, Function.comp_apply, branchPin]
    exact ⟨.inr, fun h => h.elim (fun heq => heq ▸ hdefault) id⟩
  · rw [if_neg (by simpa [branchPin] using hdefault)]
    simp [branchPin, or_comm]

theorem SwitchNode.nextBranch_mem (node : SwitchNode R) (result : Option String) :
    node.nextBranch result ∈ node.outputPins.map PinDefinition.id := by
  rw [mem_outputPins]
  cases result with
  | none => exact .inl rfl
  | some text =>
      rw [nextBranch]
      split_ifs with hblank hknown
      · exact .inl rfl
      · simpa using hknown
      · exact .inl rfl

/-- What a node gives is routed to pins it declares. -/
theorem BranchingNode.exists_routed (h : node.transform payload = .ok execution) :
    ∃ taken, (∀ t ∈ taken, t.1 ∈ node.outputPins.map PinDefinition.id) ∧
      execution.outputs = routed taken := by
  cases node with
  | ifNode base =>
      simp only [transform, IfNode.transform, bind_eq_ok] at h
      obtain ⟨-, -, branch, -, v, -, ⟨⟩⟩ := h
      refine ⟨[(if branch then "true" else "false", v)], ?_, rfl⟩
      cases branch <;> simp [outputPins, IfNode.outputPins, branchPin]
  | switchNode node =>
      simp only [transform, SwitchNode.transform, bind_eq_ok] at h
      obtain ⟨⟨-, result⟩, -, v, -, ⟨⟩⟩ := h
      exact ⟨[(_, v)], List.forall_mem_singleton.mpr (node.nextBranch_mem _), rfl⟩
  | tryCatchNode base =>
      simp only [transform, TryCatchNode.transform, bind_eq_ok] at h
      obtain ⟨⟨scope, result⟩, -, h⟩ := h
      cases result with
      | ok result =>
          obtain ⟨v, -, ⟨⟩⟩ := bind_eq_ok.mp h
          exact ⟨[("try", v)], by simp [outputPins, TryCatchNode.outputPins, branchPin], rfl⟩
      | error message =>
          cases h
          exact ⟨[("catch", _)], by simp [outputPins, TryCatchNode.outputPins, branchPin], rfl⟩
  | loopNode base =>
      simp only [transform, LoopNode.transform, bind_eq_ok] at h
      obtain ⟨-, -, v, -, items, -, ⟨⟩⟩ := h
      refine ⟨LoopNode.taken v items, ?_, LoopNode.outputs_eq v items⟩
      intro t ht
      rcases List.mem_append.mp ht with ht | ht
      · obtain ⟨item, -, rfl⟩ := List.mem_map.mp ht
        simp [outputPins, LoopNode.outputPins, branchPin]
      · rw [List.mem_singleton.mp ht]
        simp [outputPins, LoopNode.outputPins, branchPin]

end

/-! ## A node in a deployment -/

/-- An engine whose scripts give the payload back. -/
def echoEngine : RhaiEngine where
  Ast := Unit
  Scope := Value
  Dynamic := Value
  compile _ _ := .ok ()
  payloadScope := .ok
  evalAst _ _ scope := (.ok scope, scope)
  payloadOf := some
  toValue := .ok
  toBool v := okOr v.asBool "invalid type"
  isUnit v := v = .null
  display v := v.asStr.getD ""
  asI64 _ := none
  asU64 _ := none
  asArray
    | .array vs => some vs
    | _ => none

def echoEnv : DeployEnv := (typedEnv .any).withBranching echoEngine fun _ => ""

/-- A switch one of whose keys begins with a blank. -/
def sorterDefinition : WorkflowNodeDefinition :=
  ⟨"u", "switch", none, .object [("branches", .array [.object [("key", .string "hot")],
    .object [("key", .string " cold")]]), ("script", .string "payload")], none, 4⟩

def sorter : SwitchNode echoEngine :=
  .new ⟨"u", defaultMaxOperations, ()⟩ [⟨"hot", none⟩, ⟨" cold", none⟩] "default"

def looperDefinition : WorkflowNodeDefinition :=
  ⟨"u", "loop", none, .object [("script", .string "payload")], none, 4⟩

/-- A node, and an edge from one of its pins. -/
def branchGraph (definition : WorkflowNodeDefinition) (pinId : String) : WorkflowGraph :=
  ⟨[], pairNodes.replace "u" definition, [⟨"u", "v", some pinId, none, none⟩], none⟩

/-! ## Where the payloads go -/

section

variable {env : DeployEnv} {serdeError : Value → String} {graph : WorkflowGraph} {p : Prepared}
  {nodeId : String} {definition : WorkflowNodeDefinition} {node : BranchingNode R}
  {execution : NodeExecution}

theorem SwitchNode.kind_eq {node : SwitchNode R} {pin : PinDefinition} (hpin : pin ∈ node.outputPins) :
    pin.kind = .exec := by
  have hkeys : ∀ pin ∈ node.branches.map fun branch =>
      branchPin branch.key (branch.label.getD branch.key), pin.kind = .exec := by
    intro pin hpin
    obtain ⟨branch, -, rfl⟩ := List.mem_map.mp hpin
    rfl
  rw [outputPins] at hpin
  split at hpin
  · exact hkeys pin hpin
  · rcases List.mem_append.mp hpin with hpin | hpin
    · exact hkeys pin hpin
    · rw [List.mem_singleton.mp hpin]
      rfl

/-- A branching node has nothing but execution pins. -/
theorem BranchingNode.kind_eq {pin : PinDefinition} (hpin : pin ∈ node.outputPins) :
    pin.kind = .exec := by
  have hpair : ∀ {a b c d : String}, pin ∈ [branchPin a b, branchPin c d] → pin.kind = .exec := by
    intro a b c d hmem
    rcases List.mem_pair.mp hmem with rfl | rfl <;> rfl
  cases node with
  | ifNode base => exact hpair hpin
  | switchNode node => exact SwitchNode.kind_eq hpin
  | tryCatchNode base => exact hpair hpin
  | loopNode base => exact hpair hpin

theorem outputPinsOf_branching (hprepare : prepare (env.withBranching R serdeError) graph = .ok p)
    (hdefinition : graph.nodes.lookup nodeId = some definition)
    (hnode : BranchingNode.create R serdeError definition = some (.ok node)) :
    outputPinsOf p.nodes nodeId = node.outputPins := by
  rw [outputPinsOf, (of_prepare hprepare).nodes, madeOf, hdefinition]
  simp [DeployEnv.withBranching, hnode, Except.map, Except.toOption]

/-- Routed payloads go along the edges from their pins. -/
theorem messages_routed (hprepare : prepare (env.withBranching R serdeError) graph = .ok p)
    (hdefinition : graph.nodes.lookup nodeId = some definition)
    (hnode : BranchingNode.create R serdeError definition = some (.ok node))
    {taken : List (String × Value)} (houtputs : execution.outputs = routed taken) :
    p.messages graph nodeId execution = taken.flatMap fun t =>
      (p.branch nodeId t.1).map fun e => (e.target, t.2) := by
  have hdata : dataOutputPinIds (outputPinsOf p.nodes nodeId) = [] := by
    rw [outputPinsOf_branching hprepare hdefinition hnode]
    simp only [dataOutputPinIds, outputPinIds, List.map_eq_nil_iff, List.filter_eq_nil_iff]
    intro pin hpin
    simp [BranchingNode.kind_eq hpin]
  have hpushes : ∀ (port : String) (e : WorkflowEdge),
      (NodeDispatch.route [port]).pushesFrom [] e.sourcePortId =
        decide (e.sourcePortId = some port) := by
    intro port e
    cases hport : e.sourcePortId with
    | none => simp [NodeDispatch.pushesFrom, NodeDispatch.pushes]
    | some id => simp [NodeDispatch.pushesFrom, NodeDispatch.pushes, beq_eq_decide, eq_comm]
  rw [(of_prepare hprepare).messages_eq, houtputs, routed, List.flatMap_map, hdata]
  simp only [hpushes, Prepared.branch]

/-- In a deployment every output of a branching node goes along the edges from one pin that the node
declares, and along no others. -/
theorem branching_messages (hprepare : prepare (env.withBranching R serdeError) graph = .ok p)
    (hdefinition : graph.nodes.lookup nodeId = some definition)
    (hnode : BranchingNode.create R serdeError definition = some (.ok node))
    {payload : Value} (h : node.transform payload = .ok execution) :
    ∃ taken : List (String × Value), (∀ t ∈ taken, t.1 ∈ node.outputPins.map PinDefinition.id) ∧
      execution.outputs.map NodeOutput.payload = taken.map Prod.snd ∧
      p.messages graph nodeId execution = taken.flatMap fun t =>
        (p.branch nodeId t.1).map fun e => (e.target, t.2) := by
  obtain ⟨taken, hdeclared, houtputs⟩ := BranchingNode.exists_routed h
  refine ⟨taken, hdeclared, ?_, messages_routed hprepare hdefinition hnode houtputs⟩
  rw [houtputs, routed, List.map_map]
  rfl

/-- A hot payload is for the first key. -/
theorem hot_sorted : ∃ p, prepare echoEnv (branchGraph sorterDefinition "hot") = .ok p ∧
    ∃ taken : List (String × Value), (∀ t ∈ taken, t.1 ∈ sorter.outputPins.map PinDefinition.id) ∧
      [.string "hot"] = taken.map Prod.snd ∧
      p.messages (branchGraph sorterDefinition "hot") "u" (.route (.string "hot") ["hot"]) =
        taken.flatMap fun t => (p.branch "u" t.1).map fun e => (e.target, t.2) := by
  have hok : (prepare echoEnv (branchGraph sorterDefinition "hot")).toOption.isSome = true := by decide
  exact ⟨_, eq_ok_of_get hok, @branching_messages echoEngine _ _ _ _ "u" sorterDefinition
    (.switchNode sorter) _ (eq_ok_of_get hok) rfl rfl (.string "hot") rfl⟩

/-- What is pushed by a `loop` in a deployment: along the edges from `body` every item, in order, with
its place and their number, and then along those from `done` their number. -/
theorem loop_messages (hprepare : prepare (env.withBranching R serdeError) graph = .ok p)
    (hdefinition : graph.nodes.lookup nodeId = some definition) {base : ScriptNodeBase R}
    (hnode : BranchingNode.create R serdeError definition = some (.ok (.loopNode base)))
    {payload : Value} (h : LoopNode.transform base payload = .ok execution) :
    ∃ scope result v items, base.evaluate payload = .ok (scope, result) ∧
      base.payloadFromScope scope = .ok v ∧
      LoopNode.collectLoopItems base.id result = .ok items ∧
      items.length ≤ LoopNode.maxLoopIterations ∧
      p.messages graph nodeId execution =
        (items.zipIdx.flatMap fun item => (p.branch nodeId "body").map fun e =>
          (e.target, LoopNode.withLoopState v "body" (some item.2) items.length item.1)) ++
        (p.branch nodeId "done").map fun e =>
          (e.target, LoopNode.withLoopState v "done" none items.length none) := by
  simp only [LoopNode.transform, bind_eq_ok] at h
  obtain ⟨⟨scope, result⟩, hevaluate, v, hpayload, items, hitems, ⟨⟩⟩ := h
  refine ⟨scope, result, v, items, hevaluate, hpayload, hitems,
    LoopNode.length_collectLoopItems_le hitems, ?_⟩
  have houtputs : (NodeExecution.fromOutputs (LoopNode.outputs v items)).outputs =
      routed (LoopNode.taken v items) := LoopNode.outputs_eq v items
  rw [messages_routed hprepare hdefinition hnode houtputs]
  simp [LoopNode.taken, List.flatMap_append, List.flatMap_map]

/-- A loop over two items. -/
theorem two_looped : ∃ (p : Prepared) (v : Value) (items : List (Option Value)),
    prepare echoEnv (branchGraph looperDefinition "body") = .ok p ∧
    p.messages (branchGraph looperDefinition "body") "u"
        (.fromOutputs (LoopNode.outputs (.array [.bool true, .null]) [some (.bool true), some .null])) =
      (items.zipIdx.flatMap fun item => (p.branch "u" "body").map fun e =>
        (e.target, LoopNode.withLoopState v "body" (some item.2) items.length item.1)) ++
      (p.branch "u" "done").map fun e =>
        (e.target, LoopNode.withLoopState v "done" none items.length none) := by
  have hok : (prepare echoEnv (branchGraph looperDefinition "body")).toOption.isSome = true := by decide
  obtain ⟨-, -, v, items, -, -, -, -, h⟩ := @loop_messages echoEngine _ _ _ _ "u" looperDefinition _
    (eq_ok_of_get hok) rfl ⟨"u", defaultMaxOperations, ()⟩ rfl (.array [.bool true, .null]) rfl
  exact ⟨_, v, items, eq_ok_of_get hok, h⟩

/-- An edge of a `switch` in a deployment is taken for some result of the script exactly if it names its
pin, and this is the default branch or a key without white space at its ends that is neither empty
nor that of a unit. -/
theorem switch_edge_taken_iff {switch : SwitchNode R} {edge : WorkflowEdge}
    (hprepare : prepare (env.withBranching R serdeError) graph = .ok p) (hedge : edge ∈ graph.edges)
    (hdefinition : graph.nodes.lookup edge.source = some definition)
    (hnode : BranchingNode.create R serdeError definition = some (.ok (.switchNode switch))) :
    (∃ result, edge ∈ p.branch edge.source (switch.nextBranch result)) ↔
      ∃ port, edge.sourcePortId = some port ∧
        (port = switch.defaultBranch ∨ Text.trim port = port ∧ port ≠ "" ∧ port ≠ "()") := by
  have hof := of_prepare hprepare
  obtain ⟨source, hsource, -, -, pin, hpin, -⟩ := hof.compatible.joined edge hedge
  have hpins := outputPinsOf_branching hprepare hdefinition hnode
  rw [outputPinsOf, hsource, Option.map_some, Option.getD_some] at hpins
  rw [hpins] at hpin
  have hdownstream : edge ∈ p.topology.downstream edge.source := by
    rw [hof.downstream, List.mem_filter, (pushed_perm hof.classified).mem_iff, List.mem_filter]
    have hkind := SwitchNode.kind_eq (mem_of_findPin hpin).1
    simp [hedge, kindOf, Option.mem_def.mp hsource, hpins, Option.mem_def.mp hpin, hkind]
  simp only [Prepared.branch, List.mem_filter, hdownstream, true_and, decide_eq_true_eq]
  constructor
  · rintro ⟨result, hport⟩
    refine ⟨_, hport, ?_⟩
    cases result with
    | none => exact .inl rfl
    | some text =>
        rw [SwitchNode.nextBranch]
        split_ifs with hblank hknown
        · exact .inl rfl
        · exact .inr ⟨Text.trim_trim text, not_or.mp hblank⟩
        · exact .inl rfl
  · rintro ⟨port, hport, rfl | ⟨htrim, hempty, hunit⟩⟩
    · exact ⟨none, hport⟩
    · have hdeclared : port ∈ switch.outputPins.map PinDefinition.id := by
        obtain ⟨hmem, hid⟩ := mem_of_findPin hpin
        rw [WorkflowEdge.sourcePin, hport, Option.getD_some] at hid
        exact hid ▸ List.mem_map_of_mem hmem
      refine ⟨some port, ?_⟩
      rw [SwitchNode.nextBranch, htrim, if_neg (by simp [hempty, hunit]), if_pos, hport]
      simpa using SwitchNode.mem_outputPins.mp hdeclared

/-- The key with a blank is never taken. -/
theorem cold_never_taken : ∃ p, prepare echoEnv (branchGraph sorterDefinition " cold") = .ok p ∧
    ¬ ∃ result, ⟨"u", "v", some " cold", none, none⟩ ∈ p.branch "u" (sorter.nextBranch result) := by
  have hok : (prepare echoEnv (branchGraph sorterDefinition " cold")).toOption.isSome = true := by
    decide
  refine ⟨_, eq_ok_of_get hok, ?_⟩
  rw [@switch_edge_taken_iff echoEngine _ _ _ _ sorterDefinition sorter
    ⟨"u", "v", some " cold", none, none⟩ (eq_ok_of_get hok) List.mem_cons_self rfl rfl]
  decide

end

end Nazh
