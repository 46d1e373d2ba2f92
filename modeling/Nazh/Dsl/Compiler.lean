import Nazh.Dsl.Guards
import Nazh.Dsl.Safety
import Nazh.Io.CapabilityNode

/-!
# The compiler

A specification becomes a graph: one node that runs the state machine, one node for every
action, and an edge from the port of the action to its node. The node of an action holds the
capability with its implementation, and the arguments of this action.
-/

namespace Nazh

open Lib

/-! ## Parts of the graph -/

/-- `infer_pin_type_json`. -/
def inferPinTypeJson (value : Value) : Value :=
  let kind := match value with
    | .bool _ => "bool"
    | .number n => if n.isI64 || n.isU64 then "integer" else "float"
    | .string _ => "string"
    | _ => "any"
  .object (jsonObject [("kind", .string kind)])

/-- `map_to_json_map`. -/
def mapToJsonMap (map : AList fun _ : String => Value) : Fields :=
  jsonObject (map.entries.map fun entry => (entry.1, entry.2))

/-- An action with its port and its own arguments. -/
structure ActionInstance where
  portId : String
  targetId : String
  isCapability : Bool
  args : Fields

def ActionOccurrence.toInstance (o : ActionOccurrence) : ActionInstance where
  portId := o.portId
  targetId := o.action.target.id
  isCapability := match o.action.target with
    | .capability _ => true
    | .action _ => false
  args := mapToJsonMap o.action.args

/-- `collect_actions`. -/
def collectActions (spec : WorkflowSpec) : List ActionInstance :=
  spec.occurrences.map ActionOccurrence.toInstance

/-- The id of the node that runs the state machine. -/
def smNodeId (spec : WorkflowSpec) : String := sanitizeNodeId s!"sm_{spec.id}"

/-- `build_state_machine_node`. -/
def buildStateMachineNode (spec : WorkflowSpec) (initialState : String) : Value :=
  let ports (port : String → ℕ → String) (name : String) (actions : List ActionSpec) : Value :=
    .array (actions.zipIdx.map fun action => .string (port name action.2))
  let states := spec.states.entries.map fun state => Value.object (jsonObject
    [("name", .string state.1),
      ("entry_actions", ports entryPort state.1 state.2.entry),
      ("exit_actions", ports exitPort state.1 state.2.exit)])
  let transitions := spec.transitions.zipIdx.map fun trans => Value.object (jsonObject
    [("from", .string trans.1.source),
      ("to", .string trans.1.target),
      ("when", .string trans.1.condition),
      ("priority", .number (.ofNat (trans.1.priority.getD 0).toNat)),
      ("action_port", match trans.1.action with
        | some _ => .string (transitionPort trans.1 trans.2)
        | none => .null)])
  let timeoutRules := spec.timeout.entries.map fun rule => Value.object (jsonObject
    [("state", .string rule.1), ("timeout_ms", .number (.posInt rule.2))])
  let config := Value.object (jsonObject
    [("initial_state", .string initialState),
      ("states", .array states),
      ("transitions", .array transitions),
      ("timeout_rules", .array timeoutRules),
      ("on_timeout_target", match spec.onTimeout with
        | some name => .string name
        | none => .null)])
  .object (jsonObject [("id", .string (smNodeId spec)), ("type", .string "stateMachine"),
    ("config", config), ("buffer", .number (.posInt 32))])

namespace ActionInstance

def nodeId (a : ActionInstance) : String := sanitizeNodeId s!"cap_{a.targetId}_{a.portId}"

/-- The configuration of the node of an action. -/
def config (a : ActionInstance) (cap : CapabilitySpec) : Value :=
  .object (jsonObject
    [("capability_id", .string a.targetId),
      ("device_id", .string cap.deviceId),
      ("implementation", capabilityImplToJson cap.implementation),
      ("args", .object a.args)])

/-- The node of an action, with the connection of its device. -/
def node (a : ActionInstance) (cap : CapabilitySpec) (connectionId : Option String) : Fields :=
  (jsonObject [("id", .string a.nodeId), ("type", .string "capabilityCall"),
    ("config", a.config cap), ("buffer", .number (.posInt 32))]).insertSome "connection_id"
      (connectionId.map .string)

variable (ctx : CompilerContext)

/-- The body of `build_capability_call_nodes`: the node of an action. -/
def toNode (a : ActionInstance) : Except CompileError Value :=
  if a.isCapability then do
    let cap ← okOr (ctx.capabilities.lookup a.targetId)
      (.capabilityCall s!"能力 \x60{a.targetId}\x60 在编译上下文中未找到（引用校验应已捕获）")
    .ok (.object (a.node cap (ctx.connectionIdForDevice cap.deviceId)))
  else .error (.capabilityCall s!"系统动作 \x60{a.targetId}\x60 尚未实现，不能生成可执行节点")

end ActionInstance

/-- `build_capability_call_nodes`. -/
def buildCapabilityCallNodes (ctx : CompilerContext) :
    List ActionInstance → Fields → Except CompileError Fields
  | [], nodes => .ok nodes
  | a :: rest, nodes => do
      let node ← a.toNode ctx
      buildCapabilityCallNodes ctx rest (nodes.insert a.nodeId node)

/-- `build_edges`. -/
def buildEdges (spec : WorkflowSpec) : List Value :=
  (collectActions spec).map fun a => .object (jsonObject
    [("from", .string (smNodeId spec)), ("to", .string a.nodeId),
      ("source_port_id", .string a.portId)])

/-- `build_variables`: those of the user, and the state. -/
def buildVariables (spec : WorkflowSpec) (initialState : String) : Fields :=
  let declared := spec.vars.entries.foldl (fun acc entry => Fields.insert acc entry.1
    (.object (jsonObject [("type", inferPinTypeJson entry.2), ("initial", entry.2)]))) []
  Fields.insert declared s!"_sm.{smNodeId spec}.current_state" (.object (jsonObject
    [("type", .object (jsonObject [("kind", .string "string")])), ("initial", .string initialState)]))

/-- `build_output`. -/
def buildOutput (spec : WorkflowSpec) (initialState : String) (nodes : Fields) : Value :=
  .object (jsonObject
    [("name", .string spec.id),
      ("connections", .array []),
      ("nodes", .object nodes),
      ("edges", .array (buildEdges spec)),
      ("variables", .object (buildVariables spec initialState))])

/-! ## Compilation -/

section Compile

variable (ctx : CompilerContext) (texts : SpecTexts) (spec : WorkflowSpec)

/-- The checks with which both kinds of compilation begin. The initial state is what they give. -/
def validateAll : Except CompileError String := do
  ctx.validateReferences spec
  validateWorkflowSpec spec
  validateSupportedRuntimeFeatures texts spec
  validateSanitizedIds spec
  determineInitialState spec

/-- What the builder makes after the checks. -/
def build (initialState : String) : Except CompileError Value := do
  let nodes ← buildCapabilityCallNodes ctx (collectActions spec)
    (Fields.insert [] (smNodeId spec) (buildStateMachineNode spec initialState))
  return buildOutput spec initialState nodes

/-- `compile`. -/
def compile : Except CompileError Value := do
  let initialState ← validateAll ctx texts spec
  build ctx spec initialState

/-- `compile_with_safety`. -/
def compileWithSafety : Except CompileError (Value × SafetyReport) := do
  let initialState ← validateAll ctx texts spec
  let report := spec.runSafetyChecks ctx texts initialState
  ensure (!report.hasErrors) (.safety report)
  let output ← build ctx spec initialState
  return (output, report)

end Compile

/-! ## What the graph holds -/

@[simp] theorem lookup_mapToJsonMap (map : AList fun _ : String => Value) (key : String) :
    (mapToJsonMap map).lookup key = map.lookup key := by
  have hkeys : ((map.entries.map fun entry => (entry.1, entry.2)).map Prod.fst).Nodup := by
    rw [List.map_map]
    exact map.nodupKeys
  rw [mapToJsonMap, lookup_jsonObject hkeys]
  have htoMap := Fields.lookup_toMap (map.entries.map fun entry => (entry.1, entry.2)) key
  rw [← htoMap, Fields.toMap, List.map_map, AList.lookup_to_alist]
  have hid : map.entries.map ((fun field : String × Value =>
      (⟨field.1, field.2⟩ : Sigma fun _ : String => Value)) ∘ fun entry => (entry.1, entry.2)) =
        map.entries := List.map_id _
  rw [hid]
  rfl

namespace ActionInstance

variable {ctx : CompilerContext} {a : ActionInstance} {cap : CapabilitySpec}

theorem toNode_eq_ok {v : Value} : a.toNode ctx = .ok v ↔ a.isCapability = true ∧
    ∃ cap, ctx.capabilities.lookup a.targetId = some cap ∧
      v = .object (a.node cap (ctx.connectionIdForDevice cap.deviceId)) := by
  rw [toNode]
  split
  · rename_i hcap
    rw [bind_eq_ok]
    simp [hcap, eq_comm (b := v)]
  · rename_i hcap
    simp [hcap]

theorem lookup_node_config (connectionId : Option String) :
    (a.node cap connectionId).lookup "config" = some (a.config cap) := by
  rw [node, Fields.lookup_insertSome_of_ne _ _ (by decide), lookup_jsonObject (by simp)]
  simp [List.lookup_cons]

/-- A configuration that is read has the arguments of its action. -/
theorem args_of_fromJson {config : CapabilityCallConfig}
    (h : CapabilityCallConfig.fromJson (a.config cap) = some config) :
    config.args = a.args.toMap := by
  have hargs : (jsonObject [("capability_id", .string a.targetId), ("device_id", .string cap.deviceId),
      ("implementation", capabilityImplToJson cap.implementation),
      ("args", .object a.args)]).lookup "args" = some (.object a.args) := by
    rw [lookup_jsonObject (by simp)]
    simp [List.lookup_cons]
  simp only [CapabilityCallConfig.fromJson, ActionInstance.config, Value.asObject,
    Option.bind_eq_bind, Option.bind_some, defaulted, hargs, Option.map_some] at h
  obtain ⟨connectionId, -, h⟩ := Option.bind_eq_some_iff.mp h
  obtain ⟨capabilityId, -, h⟩ := Option.bind_eq_some_iff.mp h
  obtain ⟨deviceId, -, h⟩ := Option.bind_eq_some_iff.mp h
  obtain ⟨implementation, -, h⟩ := Option.bind_eq_some_iff.mp h
  cases h
  rfl

end ActionInstance

/-- The nodes that are built: each action has its own under its id, and the others stay. -/
theorem buildCapabilityCallNodes_spec {ctx : CompilerContext} {actions : List ActionInstance}
    {nodes nodes' : Fields} (hids : (actions.map ActionInstance.nodeId).Nodup)
    (h : buildCapabilityCallNodes ctx actions nodes = .ok nodes') :
    (∀ a ∈ actions, ∃ v, a.toNode ctx = .ok v ∧ nodes'.lookup a.nodeId = some v) ∧
      ∀ key, key ∉ actions.map ActionInstance.nodeId → nodes'.lookup key = nodes.lookup key := by
  induction actions generalizing nodes with
  | nil =>
      cases h
      simp
  | cons a rest ih =>
      rw [List.map_cons, List.nodup_cons] at hids
      rw [buildCapabilityCallNodes, bind_eq_ok] at h
      obtain ⟨v, hv, h⟩ := h
      obtain ⟨hrest, hother⟩ := ih hids.2 h
      constructor
      · intro b hb
        rcases List.mem_cons.mp hb with rfl | hb
        · exact ⟨v, hv, by rw [hother _ hids.1, Fields.lookup_insert_self]⟩
        · exact hrest b hb
      · intro key hkey
        rw [List.map_cons, List.mem_cons, not_or] at hkey
        rw [hother key hkey.2, Fields.lookup_insert_of_ne _ _ hkey.1]

section Compiled

variable {ctx : CompilerContext} {texts : SpecTexts} {spec : WorkflowSpec} {initialState : String}
  {output : Value}

theorem validateAll_eq_ok : validateAll ctx texts spec = .ok initialState ↔
    ctx.validateReferences spec = .ok () ∧ validateWorkflowSpec spec = .ok () ∧
      validateSupportedRuntimeFeatures texts spec = .ok () ∧ validateSanitizedIds spec = .ok () ∧
      determineInitialState spec = .ok initialState := by
  simp only [validateAll, check_bind_eq_ok]

/-- What is built has a node for each action under its id, and otherwise the one of the state
machine. -/
theorem build_spec (hids : validateSanitizedIds spec = .ok ())
    (h : build ctx spec initialState = .ok output) :
    ∃ nodes, output = buildOutput spec initialState nodes ∧
      (∀ o ∈ spec.occurrences, ∃ v, o.toInstance.toNode ctx = .ok v ∧
        nodes.lookup o.nodeId = some v) ∧
      ∀ key, key ∉ spec.occurrences.map ActionOccurrence.nodeId → nodes.lookup key =
        (Fields.insert [] (smNodeId spec) (buildStateMachineNode spec initialState)).lookup key := by
  rw [build, bind_eq_ok] at h
  obtain ⟨nodes, hnodes, h⟩ := h
  have hmap : (collectActions spec).map ActionInstance.nodeId =
      spec.occurrences.map ActionOccurrence.nodeId := by
    rw [collectActions, List.map_map]
    rfl
  have hnodup := (validateSanitizedIds_eq_ok.mp hids).2
  rw [← hmap] at hnodup
  obtain ⟨hactions, hother⟩ := buildCapabilityCallNodes_spec hnodup hnodes
  refine ⟨nodes, (pure_eq_ok.mp h).symm, ?_, ?_⟩
  · intro o ho
    exact hactions o.toInstance (List.mem_map_of_mem ho)
  · intro key hkey
    exact hother key (hmap ▸ hkey)

theorem get_nodes (nodes : Fields) :
    (buildOutput spec initialState nodes).get "nodes" = some (.object nodes) := by
  rw [buildOutput, Value.get, Value.asObject, Option.bind_some, lookup_jsonObject (by simp)]
  simp [List.lookup_cons]

/-! ## Numbers as arguments -/

/-- The rules on actions come to every action that the compiler comes to. -/
theorem mem_eachAction_of_occurrence {o : ActionOccurrence} (ho : o ∈ spec.occurrences)
    (check : ActionSpec → Option String → Option ℕ → ℕ → List SafetyDiagnostic) :
    ∃ stateName transitionIndex actionIndex,
      ∀ d ∈ check o.action stateName transitionIndex actionIndex, d ∈ spec.eachAction check := by
  rcases List.mem_append.mp ho with ho | ho
  · obtain ⟨state, hstate, ho⟩ := List.mem_flatMap.mp ho
    rcases List.mem_append.mp ho with ho | ho
    · obtain ⟨action, haction, rfl⟩ := List.mem_map.mp ho
      refine ⟨some state.1, none, action.2, fun d hd => ?_⟩
      refine List.mem_append_left _ (List.mem_flatMap.mpr ⟨state, hstate, ?_⟩)
      exact List.mem_append_left _ (List.mem_flatMap.mpr ⟨action, haction, hd⟩)
    · obtain ⟨action, haction, rfl⟩ := List.mem_map.mp ho
      refine ⟨some state.1, none, action.2, fun d hd => ?_⟩
      refine List.mem_append_left _ (List.mem_flatMap.mpr ⟨state, hstate, ?_⟩)
      exact List.mem_append_right _ (List.mem_flatMap.mpr ⟨action, haction, hd⟩)
  · obtain ⟨trans, htrans, ho⟩ := List.mem_flatMap.mp ho
    obtain ⟨action, haction, rfl⟩ := List.mem_map.mp ho
    refine ⟨none, some trans.2, 0, fun d hd => ?_⟩
    refine List.mem_append_right _ (List.mem_flatMap.mpr ⟨trans, htrans, ?_⟩)
    exact List.mem_flatMap.mpr ⟨action, haction, hd⟩

variable {o : ActionOccurrence} {capId key : String} {cap : CapabilitySpec}
  {param : CapabilityParam} {range : Range} {n : Number}

/-- A number out of the range of the input it is for is an error. -/
theorem error_of_not_contains (spec : WorkflowSpec) (texts : SpecTexts)
    (htarget : o.action.target = .capability capId)
    (hcap : ctx.capabilities.lookup capId = some cap)
    (harg : o.action.args.lookup key = some (.number n))
    (hparam : cap.inputs.find? (·.id = key) = some param) (hrange : param.range = some range)
    (hout : range.contains n.asF64 = false) (stateName : Option String) (transitionIndex : Option ℕ)
    (actionIndex : ℕ) : ∃ d ∈ spec.checkActionRange ctx texts o.action stateName transitionIndex
      actionIndex, d.level = .error := by
  have hentry : (⟨key, .number n⟩ : Sigma fun _ : String => Value) ∈ o.action.args.entries :=
    AList.mem_lookup_iff.mp harg
  refine ⟨⟨.error, "range_boundary", s!"参数 \x60{key}\x60 的值 {texts.displayF64 n.asF64} 超出能力输入量程 {WorkflowSpec.showRange texts range}",
    stateName, transitionIndex, some capId, some actionIndex⟩, ?_, rfl⟩
  refine WorkflowSpec.mem_eachArgument.mpr ⟨capId, cap, htarget, hcap, _, hentry, param, hparam, ?_⟩
  simp [hrange, classifyTemplate, hout]

/-- Without errors in the report, a number is in the range of the input it is for. -/
theorem contains_of_noErrors
    (hsafe : (spec.runSafetyChecks ctx texts initialState).hasErrors = false)
    (ho : o ∈ spec.occurrences) (htarget : o.action.target = .capability capId)
    (hcap : ctx.capabilities.lookup capId = some cap)
    (harg : o.action.args.lookup key = some (.number n))
    (hparam : cap.inputs.find? (·.id = key) = some param) (hrange : param.range = some range) :
    range.contains n.asF64 = true := by
  by_contra hout
  rw [Bool.not_eq_true] at hout
  obtain ⟨stateName, transitionIndex, actionIndex, hmem⟩ :=
    mem_eachAction_of_occurrence ho (spec.checkActionRange ctx texts)
  obtain ⟨d, hd, hlevel⟩ := error_of_not_contains spec texts htarget hcap harg
    hparam hrange hout stateName transitionIndex actionIndex
  have hin : d ∈ (spec.runSafetyChecks ctx texts initialState).diagnostics := by
    have hrule : d ∈ spec.checkRangeBoundary ctx texts := hmem d hd
    simp only [WorkflowSpec.runSafetyChecks, List.mem_append]
    exact .inl (.inl (.inl (.inl (.inr hrule))))
  rw [SafetyReport.hasErrors, List.any_eq_false] at hsafe
  exact hsafe d hin (by simpa using hlevel)

/-- A number as the argument for an input with a range is in that range in every specification
that is compiled; the node puts in the field of the payload that has the name of the input, or
else the variable, and only else the number. -/
theorem compiled_literal_in_range {report : SafetyReport}
    (h : compileWithSafety ctx texts spec = .ok (output, report)) (ho : o ∈ spec.occurrences)
    (htarget : o.action.target = .capability capId)
    (hcap : ctx.capabilities.lookup capId = some cap)
    (harg : o.action.args.lookup key = some (.number n))
    (hparam : cap.inputs.find? (·.id = key) = some param) (hrange : param.range = some range) :
    range.contains n.asF64 = true ∧
      ∃ definition config,
        ((output.get "nodes").bind fun nodes => nodes.get o.nodeId) = some definition ∧
        definition.get "config" = some config ∧
        ∀ showF64 id connectionId vars node payload,
          CapabilityCallNode.ofDefinition id connectionId config vars = some node →
          node.resolveVariable showF64 payload key = valueToString showF64
            (((payload.get key).or (node.variableValue key)).getD (.number n)) := by
  rw [compileWithSafety, bind_eq_ok] at h
  obtain ⟨initialState, hvalid, h⟩ := h
  rw [check_bind_eq_ok, ensure_eq_ok, bind_eq_ok] at h
  obtain ⟨hsafe, output', hbuild, h⟩ := h
  obtain ⟨rfl, rfl⟩ := Prod.mk.inj (pure_eq_ok.mp h)
  obtain ⟨-, -, -, hids, -⟩ := validateAll_eq_ok.mp hvalid
  refine ⟨contains_of_noErrors (by simpa using hsafe) ho htarget hcap harg hparam hrange, ?_⟩
  obtain ⟨nodes, rfl, hnodes, -⟩ := build_spec hids hbuild
  obtain ⟨v, hnode, hlookup⟩ := hnodes o ho
  obtain ⟨-, cap', -, rfl⟩ := ActionInstance.toNode_eq_ok.mp hnode
  refine ⟨.object (o.toInstance.node cap' (ctx.connectionIdForDevice cap'.deviceId)),
    o.toInstance.config cap', ?_, ActionInstance.lookup_node_config _, ?_⟩
  · rw [get_nodes, Option.bind_some]
    exact hlookup
  · intro showF64 id connectionId vars node payload hread
    obtain ⟨config, hconfig, heq⟩ := Option.bind_eq_some_iff.mp hread
    cases heq
    have hnodeArg : config.args.lookup key = some (.number n) := by
      rw [ActionInstance.args_of_fromJson hconfig, Fields.lookup_toMap]
      exact (lookup_mapToJsonMap _ _).trans harg
    rw [CapabilityCallNode.resolveVariable]
    cases hfield : payload.get key with
    | some val => rfl
    | none =>
        dsimp only
        cases hvar : CapabilityCallNode.variableValue _ key with
        | some val => rfl
        | none => simp [hnodeArg]

end Compiled

/-! ## A field of the payload with the name of an input -/

/-- A capability that moves an axis to a position from 0 to 100. -/
def moveCapability : CapabilitySpec where
  id := "axis.move_to"
  deviceId := "press_1"
  inputs := [⟨"position", none, some ⟨0, 0x4059000000000000⟩⟩]
  preconditions := []
  implementation := .modbusWrite 40010 .u16 none .bigEndian none "$\x7bposition\x7d"
  safety := ⟨.low, false⟩

def pressContext : CompilerContext :=
  .new [⟨"press_1", some ⟨"modbus-tcp", "conn1", none⟩, []⟩] [moveCapability]

/-- On entry the axis is moved to position 50. -/
def moveAction : ActionSpec where
  target := .capability "axis.move_to"
  args := (∅ : AList fun _ : String => Value).insert "position" (.number (.posInt 50))

def pressSpec : WorkflowSpec where
  id := "press"
  devices := ["press_1"]
  vars := ∅
  states := (∅ : AList fun _ : String => StateSpec).insert "idle" ⟨[moveAction], []⟩
  transitions := []
  timeout := ∅
  onTimeout := none

/-- The action in its place. -/
def moveOccurrence : ActionOccurrence :=
  ⟨"entry_idle_0", "state \x60idle\x60 entry action 0", moveAction⟩

theorem pressSpec_compiled :
    (compileWithSafety pressContext WorkflowSpec.asciiTexts pressSpec).toOption.isSome = true := by
  decide +kernel

theorem moveOccurrence_mem : moveOccurrence ∈ pressSpec.occurrences := .head _

/-- The position of the specification is in its range. -/
theorem pressSpec_literal_in_range :
    ∃ output report,
      compileWithSafety pressContext WorkflowSpec.asciiTexts pressSpec = .ok (output, report) ∧
      Range.contains ⟨0, 0x4059000000000000⟩ (Number.posInt 50).asF64 = true ∧
      ∃ definition config,
        ((output.get "nodes").bind fun nodes => nodes.get moveOccurrence.nodeId) = some definition ∧
        definition.get "config" = some config ∧
        ∀ showF64 id connectionId vars node payload,
          CapabilityCallNode.ofDefinition id connectionId config vars = some node →
          node.resolveVariable showF64 payload "position" = valueToString showF64
            (((payload.get "position").or (node.variableValue "position")).getD
              (.number (.posInt 50))) := by
  have h := eq_ok_of_get pressSpec_compiled
  have hcap : pressContext.capabilities.lookup "axis.move_to" = some moveCapability := by decide
  have hparam : moveCapability.inputs.find? (·.id = "position") =
      some ⟨"position", none, some ⟨0, 0x4059000000000000⟩⟩ := by decide
  exact ⟨_, _, h, compiled_literal_in_range h moveOccurrence_mem rfl hcap (by decide) hparam rfl⟩

/-- The node of the action, as the registry makes it from the graph. -/
def pressNode : Option CapabilityCallNode := do
  let (output, _) ← (compileWithSafety pressContext WorkflowSpec.asciiTexts pressSpec).toOption
  let nodes ← output.get "nodes"
  let definition ← nodes.get moveOccurrence.nodeId
  let config ← definition.get "config"
  CapabilityCallNode.ofDefinition moveOccurrence.nodeId none config none

/-- A field of the payload is put in for a number that was checked. -/
theorem payload_overrides_literal :
    (compileWithSafety pressContext WorkflowSpec.asciiTexts pressSpec).toOption.isSome = true ∧
      moveOccurrence ∈ pressSpec.occurrences ∧
      moveOccurrence.action.target = .capability moveCapability.id ∧
      pressContext.capabilities.lookup moveCapability.id = some moveCapability ∧
      moveOccurrence.action.args.lookup "position" = some (.number (.posInt 50)) ∧
      moveCapability.inputs.find? (·.id = "position") =
        some ⟨"position", none, some ⟨0, 0x4059000000000000⟩⟩ ∧
      (pressNode.map fun node => node.resolveVariable (fun _ => "")
        (.object [("position", .number (.posInt 500))]) "position") = some "500" ∧
      Range.contains ⟨0, 0x4059000000000000⟩ (Number.posInt 500).asF64 = false := by
  refine ⟨pressSpec_compiled, moveOccurrence_mem, rfl, by decide, by decide, by decide, by decide +kernel,
    by decide⟩

end Nazh
