import Mathlib.Data.List.Sort
import Nazh.Core.Variables
import Nazh.Graph.Runtime
import Nazh.Json.Read

/-!
# The state machine node

The node keeps its state in a workflow variable. On each payload it takes the first
transition, by falling priority, that starts in the present state and whose condition
holds. It then routes the payload to the exit actions of the state it leaves, the
action of the transition and the entry actions of the state it enters. When no
transition matches it broadcasts the payload.

Each action port is an output pin. Downstream of these pins stand the nodes that act on
devices, so what matters is which of them the runner pushes the payload to.

The script engine that evaluates the conditions is a parameter.
-/

namespace Nazh

/-- The script engine, as far as the node uses it. -/
structure ScriptEngine where
  Ast : Type
  Scope : Type
  /-- Compile a script, or report an error. -/
  compile : (maxOperations : ℕ) → String → Except String Ast
  /-- A scope that holds the payload. -/
  payloadScope : Value → Except String Scope
  /-- Evaluate a condition; the script may change its scope. -/
  evalBool : (maxOperations : ℕ) → Ast → Scope → Except String Bool × Scope
  /-- How a value shows in an error. -/
  debug : Value → String

structure StateConfig where
  name : String
  entryActions : List String
  exitActions : List String
  deriving DecidableEq, Repr

structure TransitionConfig where
  source : String
  target : String
  condition : String
  priority : ℕ
  actionPort : Option String
  deriving DecidableEq, Repr

structure StateMachineConfig where
  initialState : String
  states : List StateConfig
  transitions : List TransitionConfig
  maxOperations : ℕ
  deriving DecidableEq, Repr

def StateConfig.fromJson (v : Value) : Option StateConfig := do
  let fields ← v.asObject
  let name ← required fields "name" Value.asStr
  let entryActions ← defaulted fields "entry_actions" (Value.toList Value.asStr) []
  let exitActions ← defaulted fields "exit_actions" (Value.toList Value.asStr) []
  some ⟨name, entryActions, exitActions⟩

def TransitionConfig.fromJson (v : Value) : Option TransitionConfig := do
  let fields ← v.asObject
  let source ← required fields "from" Value.asStr
  let target ← required fields "to" Value.asStr
  let condition ← required fields "when" Value.asStr
  let priority ← defaulted fields "priority" Value.toU32 0
  let actionPort ← optional fields "action_port" Value.asStr
  some ⟨source, target, condition, priority.toNat, actionPort⟩

/-- A timeout of a state, which the node has no use for. -/
structure TimeoutRule where
  state : String
  timeoutMs : UInt64
  deriving DecidableEq, Repr

def TimeoutRule.fromJson (v : Value) : Option TimeoutRule := do
  let fields ← v.asObject
  let state ← required fields "state" Value.asStr
  let timeoutMs ← required fields "timeout_ms" Value.asU64
  some ⟨state, timeoutMs⟩

/-- `default_max_operations`. -/
def defaultMaxOperations : ℕ := 50000

/-- The derived deserialization. -/
def StateMachineConfig.fromJson (v : Value) : Option StateMachineConfig := do
  let fields ← v.asObject
  let initialState ← required fields "initial_state" Value.asStr
  let states ← required fields "states" (Value.toList StateConfig.fromJson)
  let transitions ← required fields "transitions" (Value.toList TransitionConfig.fromJson)
  let _ ← defaulted fields "timeout_rules" (Value.toList TimeoutRule.fromJson) []
  let _ ← optional fields "on_timeout_target" Value.asStr
  let maxOperations ← defaulted fields "max_operations" (Value.toUnsigned UInt64.size)
    defaultMaxOperations
  some ⟨initialState, states, transitions, maxOperations⟩

/-- A configured node, its conditions compiled. -/
structure StateMachineNode (E : ScriptEngine) where
  id : String
  config : StateMachineConfig
  /-- The action ports, each once. -/
  actionPorts : List String
  /-- The transitions with their compiled conditions, in the order of the config. -/
  transitions : List (TransitionConfig × E.Ast)

namespace StateMachineNode

variable {E : ScriptEngine}

/-- The action ports of a config: of the states, then of the transitions, each once. -/
def collectActionPorts (config : StateMachineConfig) : List String :=
  ((config.states.flatMap fun state => state.entryActions ++ state.exitActions) ++
    config.transitions.filterMap TransitionConfig.actionPort).foldl
      (fun seen port => if seen.contains port then seen else seen ++ [port]) []

/-- `StateMachineNode::new`. -/
def new (E : ScriptEngine) (id : String) (config : StateMachineConfig) :
    Except EngineError (StateMachineNode E) :=
  if config.maxOperations = 0 then
    .error (.nodeConfig id "stateMachine max_operations 必须大于 0")
  else do
    let transitions ← config.transitions.mapM fun transition =>
      match E.compile config.maxOperations transition.condition with
      | .ok ast => .ok (transition, ast)
      | .error e => .error (.scriptCompile id
          s!"transition \x60{transition.source} → {transition.target}\x60 条件编译失败: {e}")
    return ⟨id, config, collectActionPorts config, transitions⟩

variable (node : StateMachineNode E)

def stateVariableKey : String := s!"_sm.{node.id}.current_state"

def readCurrentState (vars : Option WorkflowVariables) : Except EngineError String :=
  match vars with
  | none => .error (.invalidGraph
      s!"状态机节点 \x60{node.id}\x60 需要 WorkflowVariables 来读取当前状态")
  | some vars => match vars.getValue node.stateVariableKey with
    | none => .error (.invalidGraph
        s!"状态机节点 \x60{node.id}\x60 的状态变量 \x60{node.stateVariableKey}\x60 未初始化")
    | some val => match val.asStr with
      | none => .error (.payloadConversion node.id s!"状态变量值不是字符串: {E.debug val}")
      | some state => .ok state

def writeCurrentState (vars : Option WorkflowVariables) (newState : String) (now : ℤ) :
    Except EngineError WorkflowVariables :=
  match vars with
  | none => .error (.invalidGraph
      s!"状态机节点 \x60{node.id}\x60 需要 WorkflowVariables 来写入状态")
  | some vars => match vars.set node.stateVariableKey (.string newState) none now with
    | .ok vars => .ok vars
    | .error e => .error (.payloadConversion node.id s!"写入状态变量失败: {e.message}")

/-- The first state of a name. -/
def findState (name : String) : Option StateConfig :=
  node.config.states.find? fun state => state.name == name

/-- The first transition, in the given order, that starts in the state and holds. The
scope is passed from one condition to the next. -/
def firstMatch (currentState : String) :
    List (TransitionConfig × E.Ast) → E.Scope → Except EngineError (Option TransitionConfig)
  | [], _ => .ok none
  | (transition, ast) :: rest, scope =>
      if transition.source ≠ "*" ∧ transition.source ≠ currentState then
        firstMatch currentState rest scope
      else match E.evalBool node.config.maxOperations ast scope with
        | (.error e, _) => .error (.scriptRuntime node.id s!"transition 条件求值失败: {e}")
        | (.ok true, _) => .ok (some transition)
        | (.ok false, scope) => firstMatch currentState rest scope

/-- The transitions by falling priority, in the order of the config among equals. -/
def sortedTransitions : List (TransitionConfig × E.Ast) :=
  node.transitions.insertionSort fun a b => b.1.priority ≤ a.1.priority

def evaluateTransitions (currentState : String) (payload : Value) :
    Except EngineError (Option TransitionConfig) :=
  match E.payloadScope payload with
  | .error e => .error (.payloadConversion node.id s!"payload 转 Rhai Dynamic 失败: {e}")
  | .ok scope => node.firstMatch currentState node.sortedTransitions scope

/-- One `Exec` pin for each action port. -/
def outputPins : List PinDefinition :=
  node.actionPorts.map fun port => { PinDefinition.defaultOutput with id := port, label := port }

/-- The ports of a transition out of `fromState`: exit, transition and entry actions. -/
def portsOf (fromState : String) (transition : TransitionConfig) : List String :=
  ((node.findState fromState).map StateConfig.exitActions).getD [] ++
    transition.actionPort.toList ++
    ((node.findState transition.target).map StateConfig.entryActions).getD []

/-- The metadata of a transition. -/
def transitionMetadata (fromState : String) (transition : TransitionConfig) (ports : List String) :
    Fields :=
  let common := (Fields.insert [] "from_state" (.string fromState)).insert "to_state"
    (.string transition.target)
  Fields.insert [] "state_machine" (.object (if ports.isEmpty then common
    else common.insert "matched_transition" (.string transition.condition)))

/-- `transform`, with the variables after it. -/
def transform (vars : Option WorkflowVariables) (now : ℤ) (payload : Value) :
    Except EngineError NodeExecution × Option WorkflowVariables :=
  match node.readCurrentState vars with
  | .error e => (.error e, vars)
  | .ok currentState => match node.evaluateTransitions currentState payload with
    | .error e => (.error e, vars)
    | .ok none => (.ok (.broadcast payload), vars)
    | .ok (some transition) => match node.writeCurrentState vars transition.target now with
      | .error e => (.error e, vars)
      | .ok vars =>
          let ports := node.portsOf currentState transition
          (.ok (.fromOutputs [⟨payload, some (transitionMetadata currentState transition ports),
            .route ports⟩]), some vars)

end StateMachineNode

/-! ## What the runner pushes -/

namespace RunNode

/-- The payloads the loop over the outputs of an execution sends, and where. -/
def pushes (cfg : RunNode) (execution : NodeExecution) : List (DownstreamTarget × Value) :=
  execution.outputs.flatMap fun output =>
    if cfg.isDataOnly output then []
    else (cfg.targets output.dispatch).map fun target => (target, output.payload)

end RunNode

namespace StateMachineNode

variable {E : ScriptEngine} (node : StateMachineNode E)

/-- What the runner pushes downstream when the node takes a payload. A failed `transform`
pushes nothing. -/
def delivered (vars : Option WorkflowVariables) (now : ℤ) (payload : Value)
    (downstream : List DownstreamTarget) : List (DownstreamTarget × Value) :=
  match (node.transform vars now payload).1 with
  | .error _ => []
  | .ok execution => RunNode.pushes ⟨node.id, node.outputPins, 0, downstream, 0⟩ execution

/-- No transition matches in the present state. -/
def NoMatch (vars : Option WorkflowVariables) (payload : Value) : Prop :=
  ∃ state, node.readCurrentState vars = .ok state ∧
    node.evaluateTransitions state payload = .ok none

/-- A transition was taken, and `port` is among its exit, transition and entry actions. -/
def Fired (vars : Option WorkflowVariables) (now : ℤ) (payload : Value) (port : String) : Prop :=
  ∃ state transition vars', node.readCurrentState vars = .ok state ∧
    node.evaluateTransitions state payload = .ok (some transition) ∧
    node.writeCurrentState vars transition.target now = .ok vars' ∧
    port ∈ node.portsOf state transition

/-- An edge that starts from an action port. -/
def IsActionEdge (target : DownstreamTarget) : Prop :=
  ∃ port ∈ node.actionPorts, target.sourcePortId = some port

/-- The downstream of an action port gets the payload exactly when the port fired; with no
match it gets nothing and the state stays. -/
structure FiresAsTaken (vars : Option WorkflowVariables) (now : ℤ) (payload : Value)
    (downstream : List DownstreamTarget) : Prop where
  receives_iff : ∀ target ∈ downstream, ∀ port ∈ node.actionPorts,
    target.sourcePortId = some port →
    ((target, payload) ∈ node.delivered vars now payload downstream ↔
      node.Fired vars now payload port)
  quiet : node.NoMatch vars payload →
    (∀ target ∈ downstream, node.IsActionEdge target →
      ∀ v, (target, v) ∉ node.delivered vars now payload downstream) ∧
    (node.transform vars now payload).2 = vars

variable {node : StateMachineNode E} {vars : Option WorkflowVariables} {now : ℤ}
  {payload v : Value} {downstream : List DownstreamTarget} {target : DownstreamTarget}
  {port : String}

@[simp] theorem dataOutputPinIds_outputPins (node : StateMachineNode E) :
    dataOutputPinIds node.outputPins = [] := by
  simp [dataOutputPinIds, outputPinIds, outputPins, PinDefinition.defaultOutput]

/-- The three ways a payload goes through the node: it fails, no transition matches, or one
is taken. -/
theorem transform_cases (node : StateMachineNode E) (vars : Option WorkflowVariables) (now : ℤ)
    (payload : Value) :
    (¬ node.NoMatch vars payload ∧ (∀ port, ¬ node.Fired vars now payload port) ∧
      ∃ e, node.transform vars now payload = (.error e, vars)) ∨
    (node.NoMatch vars payload ∧
      node.transform vars now payload = (.ok (.broadcast payload), vars)) ∨
    ∃ ports metadata vars', ¬ node.NoMatch vars payload ∧
      (∀ port, node.Fired vars now payload port ↔ port ∈ ports) ∧
      node.transform vars now payload =
        (.ok (.fromOutputs [⟨payload, some metadata, .route ports⟩]), some vars') := by
  cases hread : node.readCurrentState vars with
  | error e => exact .inl (by simp [NoMatch, Fired, transform, hread])
  | ok state =>
      cases heval : node.evaluateTransitions state payload with
      | error e => exact .inl (by simp [NoMatch, Fired, transform, hread, heval])
      | ok found =>
          cases found with
          | none => exact .inr (.inl (by simp [NoMatch, transform, hread, heval]))
          | some transition =>
              cases hwrite : node.writeCurrentState vars transition.target now with
              | error e =>
                  exact .inl (by simp [NoMatch, Fired, transform, hread, heval, hwrite])
              | ok vars' =>
                  refine .inr (.inr ⟨node.portsOf state transition,
                    transitionMetadata state transition (node.portsOf state transition), vars',
                    ?_, fun port => ?_, by simp [transform, hread, heval, hwrite]⟩)
                  · simp [NoMatch, hread, heval]
                  · simp [Fired, hread, heval, hwrite]

/-- With no match every edge gets the payload. -/
theorem mem_delivered_of_noMatch (h : node.NoMatch vars payload) :
    (target, v) ∈ node.delivered vars now payload downstream ↔
      target ∈ downstream ∧ v = payload := by
  rcases transform_cases node vars now payload with ⟨hno, -, -⟩ | ⟨-, ht⟩ | ⟨_, _, _, hno, -, -⟩
  · exact absurd h hno
  · simp [delivered, ht, RunNode.pushes, NodeExecution.broadcast, RunNode.isDataOnly,
      RunNode.targets, outputIsDataOnly_nil, eq_comm]
  · exact absurd h hno

/-- Else an edge gets the payload exactly when its port fired. -/
theorem mem_delivered_of_match (h : ¬ node.NoMatch vars payload) :
    (target, v) ∈ node.delivered vars now payload downstream ↔
      target ∈ downstream ∧ v = payload ∧
        ∃ port, node.Fired vars now payload port ∧ target.sourcePortId = some port := by
  rcases transform_cases node vars now payload with ⟨-, hfired, e, ht⟩ | ⟨hno, -⟩ |
    ⟨ports, metadata, vars', -, hfired, ht⟩
  · simp [delivered, ht, hfired]
  · exact absurd hno h
  · have hmem : target ∈ matchingTargets (.route ports) downstream [] ↔ _ :=
      mem_matchingTargets_route_nil
    simp only [delivered, ht, RunNode.pushes, NodeExecution.fromOutputs, RunNode.isDataOnly,
      RunNode.targets, dataOutputPinIds_outputPins, outputIsDataOnly_nil, List.flatMap_cons,
      List.flatMap_nil, List.append_nil, Bool.false_eq_true, if_false, List.mem_map,
      Prod.mk.injEq, hfired]
    constructor
    · rintro ⟨t, ht, rfl, rfl⟩
      obtain ⟨hdown, port, hport, hsource⟩ := hmem.mp ht
      exact ⟨hdown, rfl, port, hport, hsource⟩
    · rintro ⟨hdown, rfl, port, hport, hsource⟩
      exact ⟨target, hmem.mpr ⟨hdown, port, hport, hsource⟩, rfl, rfl⟩

/-- No transition fires a port when none matches. -/
theorem not_fired_of_noMatch (h : node.NoMatch vars payload) :
    ¬ node.Fired vars now payload port := by
  rintro ⟨state, transition, vars', hread, heval, -⟩
  obtain ⟨state', hread', heval'⟩ := h
  rw [hread, Except.ok.injEq] at hread'
  subst hread'
  simp [heval] at heval'

/-- The actions fire exactly as the transition says, unless no transition matches while
some edge starts from an action port: the broadcast then reaches it. -/
theorem fires_as_taken_iff (node : StateMachineNode E) (vars : Option WorkflowVariables)
    (now : ℤ) (payload : Value) (downstream : List DownstreamTarget) :
    node.FiresAsTaken vars now payload downstream ↔
      ¬ node.NoMatch vars payload ∨ ∀ target ∈ downstream, ¬ node.IsActionEdge target := by
  constructor
  · intro h
    by_contra hne
    push Not at hne
    obtain ⟨hno, target, hdown, haction⟩ := hne
    exact (h.quiet hno).1 target hdown haction payload
      ((mem_delivered_of_noMatch hno).mpr ⟨hdown, rfl⟩)
  · intro h
    by_cases hno : node.NoMatch vars payload
    · have hnone := h.resolve_left (not_not_intro hno)
      refine ⟨fun target hdown port hport hsource => ?_, fun _ => ⟨fun target hdown ha => ?_, ?_⟩⟩
      · exact absurd ⟨port, hport, hsource⟩ (hnone target hdown)
      · exact absurd ha (hnone target hdown)
      · rcases transform_cases node vars now payload with ⟨hn, -⟩ | ⟨-, ht⟩ | ⟨_, _, _, hn, -⟩
        · exact absurd hno hn
        · rw [ht]
        · exact absurd hno hn
    · refine ⟨?_, fun hno' => absurd hno' hno⟩
      intro target hdown port hport hsource
      rw [mem_delivered_of_match hno]
      constructor
      · rintro ⟨-, -, port', hfired, hsource'⟩
        rw [hsource, Option.some.injEq] at hsource'
        exact hsource' ▸ hfired
      · intro hfired
        exact ⟨hdown, rfl, port, hfired, hsource⟩

/-! ## A payload that matches nothing -/

/-- An engine for scripts that are the words `true` and `false`. -/
def wordEngine : ScriptEngine where
  Ast := String
  Scope := Unit
  compile _ script := .ok script
  payloadScope _ := .ok ()
  evalBool _ script scope :=
    (if script = "true" then .ok true else if script = "false" then .ok false
      else .error "Variable not found", scope)
  debug _ := ""

/-- Entering `running` acts on the device. -/
def idleConfig : StateMachineConfig where
  initialState := "idle"
  states := [⟨"idle", [], []⟩, ⟨"running", ["entry_running_0"], []⟩]
  transitions := [⟨"idle", "running", "false", 0, none⟩]
  maxOperations := 50000

/-- The variables of a machine `sm` in the state `idle`. -/
def idleVars : WorkflowVariables :=
  ⟨(∅ : AList fun _ : String => TypedVariable).insert "_sm.sm.current_state"
    ⟨.string "idle", .string, .string "idle", 0, none⟩⟩

/-- The edge from the entry action of `running` to the node that writes to the device. -/
def deviceEdge : DownstreamTarget := ⟨some "entry_running_0", 1, "cap_device", .block⟩

/-- A payload that matches no transition is delivered to the device node. -/
theorem idle_payload_reaches_device :
    ∃ node, StateMachineNode.new wordEngine "sm" idleConfig = .ok node ∧
      "entry_running_0" ∈ node.actionPorts ∧
      (deviceEdge, Value.null) ∈ node.delivered (some idleVars) 0 .null [deviceEdge] ∧
      ¬ node.Fired (some idleVars) 0 .null "entry_running_0" ∧
      ¬ node.FiresAsTaken (some idleVars) 0 .null [deviceEdge] := by
  have hno : NoMatch (E := wordEngine) ⟨"sm", idleConfig, ["entry_running_0"],
      [(⟨"idle", "running", "false", 0, none⟩, "false")]⟩ (some idleVars) .null :=
    ⟨"idle", by decide, by decide⟩
  refine ⟨_, rfl, by decide, (mem_delivered_of_noMatch hno).mpr ⟨by decide, rfl⟩,
    not_fired_of_noMatch hno, fun h => ?_⟩
  exact (h.quiet hno).1 deviceEdge (by decide) ⟨"entry_running_0", by decide, rfl⟩ .null
    ((mem_delivered_of_noMatch hno).mpr ⟨by decide, rfl⟩)

end StateMachineNode
end Nazh
