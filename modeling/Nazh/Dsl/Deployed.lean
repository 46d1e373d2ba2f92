import Nazh.Core.TypedCalls
import Nazh.Dsl.Mirror
import Nazh.Graph.Deployable

/-!
# What is compiled can be deployed

A graph that was compiled goes through the checks of a deployment, which it was not made for: the
registry reads the configurations of the nodes, compiles the conditions, and asks the nodes for
their pins. It does so just if the registry supports the specification.
-/

namespace Nazh

open Lib

/-! ## The registry -/

/-- The factories of the nodes, with the script engine that they share. -/
structure Registry where
  engine : ScriptEngine
  /-- What is said of a configuration that cannot be read. -/
  serdeError : Value → String
  /-- The factories of the other nodes. -/
  other : WorkflowNodeDefinition → Except EngineError NodeTrait

namespace Registry

variable (registry : Registry)

/-- `parse_config`. -/
def parseConfig {α : Type} (read : Value → Option α) (definition : WorkflowNodeDefinition) :
    Except EngineError α :=
  okOr (read definition.config)
    (.nodeConfig definition.id (registry.serdeError definition.config))

/-- `create`. A node that declares no pins has the default ones. -/
def create (definition : WorkflowNodeDefinition) : Except EngineError NodeTrait :=
  if definition.nodeType = "stateMachine" then do
    let config ← registry.parseConfig StateMachineConfig.fromJson definition
    let node ← StateMachineNode.new registry.engine definition.id config
    return ⟨node.id, [.defaultInput], node.outputPins⟩
  else if definition.nodeType = "capabilityCall" then do
    let _ ← registry.parseConfig CapabilityCallConfig.fromJson definition
    return ⟨definition.id, [.defaultInput], [.defaultOutput]⟩
  else registry.other definition

end Registry

/-- Whether a capability writes to EtherCAT. -/
def CapabilityImpl.isEthercatPdoWrite : CapabilityImpl → Bool
  | .ethercatPdoWrite _ _ _ _ _ _ _ _ _ _ => true
  | _ => false

/-- All conditions are scripts, and no action writes to EtherCAT. -/
structure Registry.Supports (registry : Registry) (ctx : CompilerContext) (spec : WorkflowSpec) :
    Prop where
  scripts : ∀ trans ∈ spec.transitions,
    ∃ ast, registry.engine.compile defaultMaxOperations trans.condition = .ok ast
  readable : ∀ o ∈ spec.occurrences, ∀ cap ∈ ctx.capabilities.lookup o.action.target.id,
    cap.implementation.isEthercatPdoWrite = false

/-! ## The graph as it is read -/

/-- What a deployment finds in the graph of a specification. -/
structure CompiledGraph (ctx : CompilerContext) (spec : WorkflowSpec) (initialState : String)
    (graph : WorkflowGraph) : Prop where
  mem_nodes : ∀ id, id ∈ graph.nodes ↔ id = smNodeId spec ∨ ∃ o ∈ spec.occurrences, id = o.nodeId
  machine : ∃ definition, graph.nodes.lookup (smNodeId spec) = some definition ∧
    definition.id = smNodeId spec ∧ definition.nodeType = "stateMachine" ∧
    StateMachineConfig.fromJson definition.config = some (compiledConfig spec initialState)
  called : ∀ o ∈ spec.occurrences, ∃ cap definition,
    ctx.capabilities.lookup o.action.target.id = some cap ∧
    graph.nodes.lookup o.nodeId = some definition ∧ definition.nodeType = "capabilityCall" ∧
    definition.config = o.toInstance.config cap
  edges_eq : graph.edges = spec.occurrences.map fun o => compiledEdge spec o.portId o.nodeId
  connections_eq : graph.connections = []
  declarations : ∃ declarations, graph.declarations = some declarations ∧ ∀ key,
    declarations.lookup key =
      ((buildVariables spec initialState).lookup key).bind VariableDeclaration.fromJson

/-- A deployment finds what the compiler wrote. -/
theorem compile_graph {ctx : CompilerContext} {texts : SpecTexts} {spec : WorkflowSpec}
    {output : Value} (h : compile ctx texts spec = .ok output) :
    ∃ initialState graph, determineInitialState spec = .ok initialState ∧
      validateWorkflowSpec spec = .ok () ∧ validateSanitizedIds spec = .ok () ∧
      WorkflowGraph.fromJson output = some (.ok graph) ∧
      CompiledGraph ctx spec initialState graph := by
  rw [compile, bind_eq_ok] at h
  obtain ⟨initialState, hvalid, hbuild⟩ := h
  obtain ⟨-, hworkflow, -, hids, hinitial⟩ := validateAll_eq_ok.mp hvalid
  obtain ⟨graph, hread, hback⟩ := deserialize_build hids hbuild
  obtain ⟨config, hmachine, hconfig⟩ := hback.lookup_machine
  obtain ⟨fields, hfields, hout⟩ := bind_eq_ok.mp hbuild
  obtain rfl := pure_eq_ok.mp hout
  have hsome : ∀ field ∈ fields, (WorkflowNodeDefinition.fromJson field.2).isSome := by
    intro field hfield
    rcases mem_buildCapabilityCallNodes hfields hfield with ⟨a, -, ha⟩ | hfield
    · obtain ⟨-, cap, connectionId, heq⟩ := fromJson_toNode ha
      rw [heq, Option.isSome_some]
    · obtain ⟨config, heq, -⟩ := fromJson_stateMachineNode spec initialState
      rw [List.mem_singleton.mp hfield, heq, Option.isSome_some]
  obtain ⟨nodes, hnodes, hlookup⟩ := Value.toMap_object hsome
  obtain ⟨declarations, hdeclarations, hdeclared⟩ := Value.toMap_object fun field hfield =>
    @isSome_variable spec initialState field hfield
  have hgraph := Option.some.inj (hread.symm.trans (deserialize_output hnodes hdeclarations))
  refine ⟨initialState, graph.normalize, hinitial, hworkflow, hids, ?_,
    fun id => WorkflowGraph.mem_normalize.trans hback.mem_nodes, ?_, ?_, hback.edges_eq,
    congrArg WorkflowGraph.connections hgraph, declarations,
    congrArg WorkflowGraph.declarations hgraph, hdeclared⟩
  · rw [WorkflowGraph.fromJson, hread, Option.map_some, hback.validate_normalize]
    rfl
  · rw [WorkflowGraph.lookup_normalize, hmachine]
    refine ⟨_, rfl, ?_, rfl, hconfig⟩
    simp [WorkflowNodeDefinition.normalize]
  · intro o ho
    have hids : ((collectActions spec).map ActionInstance.nodeId).Nodup := by
      rw [collectActions, List.map_map]
      exact (validateSanitizedIds_eq_ok.mp hids).2
    obtain ⟨v, hv, hfield⟩ :=
      (buildCapabilityCallNodes_spec hids hfields).1 o.toInstance (List.mem_map_of_mem ho)
    obtain ⟨-, cap, hcapability, rfl⟩ := ActionInstance.toNode_eq_ok.mp hv
    have hnode := WorkflowGraph.lookup_normalize graph o.nodeId
    rw [congrArg WorkflowGraph.nodes hgraph, hlookup, show fields.lookup o.nodeId = _ from hfield,
      Option.bind_some, ActionInstance.node, ← compiledNode, fromJson_compiledNode] at hnode
    exact ⟨cap, _, hcapability, hnode, rfl, rfl⟩

/-! ## The nodes are made -/

theorem isSome_capabilityCallConfig (a : ActionInstance) (cap : CapabilitySpec) :
    (CapabilityCallConfig.fromJson (a.config cap)).isSome = true ↔
      cap.implementation.isEthercatPdoWrite = false := by
  have hread : CapabilityCallConfig.fromJson (a.config cap) =
      (CapabilityImplSnapshot.fromJson (capabilityImplToJson cap.implementation)).map
        fun implementation => ⟨none, a.targetId, cap.deviceId, implementation, a.args.toMap⟩ := by
    simp only [CapabilityCallConfig.fromJson, ActionInstance.config, Value.asObject,
      Option.bind_eq_bind, Option.bind_some, required, defaulted, optional]
    rw [lookup_jsonObject (by simp), lookup_jsonObject (by simp), lookup_jsonObject (by simp),
      lookup_jsonObject (by simp), lookup_jsonObject (by simp)]
    simp [List.lookup_cons, Value.asStr, Option.map_eq_bind]
  rw [hread, Option.isSome_map]
  cases cap.implementation <;>
    simp [fromJson_modbusWrite, fromJson_mqttPublish, fromJson_serialCommand, fromJson_canWrite,
      fromJson_ethercatPdoWrite, fromJson_script, CapabilityImpl.isEthercatPdoWrite]

namespace StateMachineNode

variable {E : ScriptEngine} {id : String} {config : StateMachineConfig}

theorem nodup_collectActionPorts (config : StateMachineConfig) :
    (collectActionPorts config).Nodup := by
  refine List.foldlRecOn _ _ List.nodup_nil fun seen hseen port _ => ?_
  split
  · exact hseen
  · rename_i hnew
    rw [← List.concat_eq_append]
    exact hseen.concat fun hmem => hnew (List.contains_iff_mem.mpr hmem)

theorem mem_collect {port : String} {ports seen : List String} (h : port ∈ seen ∨ port ∈ ports) :
    port ∈ ports.foldl (fun seen port => if seen.contains port then seen else seen ++ [port])
      seen := by
  induction ports generalizing seen with
  | nil => simpa using h
  | cons first ports ih =>
      rw [List.foldl_cons]
      apply ih
      split
      · rename_i hfirst
        rcases h with h | h
        · exact .inl h
        · rcases List.mem_cons.mp h with rfl | h
          · exact .inl (List.contains_iff_mem.mp hfirst)
          · exact .inr h
      · rw [List.mem_append, List.mem_singleton, or_assoc, ← List.mem_cons]
        exact h

/-- A transition with its condition. -/
structure Compiles (E : ScriptEngine) (maxOperations : ℕ) (transition : TransitionConfig)
    (compiled : TransitionConfig × E.Ast) : Prop where
  fst_eq : compiled.1 = transition
  compile_eq : E.compile maxOperations transition.condition = .ok compiled.2

/-- A node is made just if its conditions are scripts, and then it has them compiled. -/
theorem exists_new (hmax : config.maxOperations ≠ 0) :
    (∃ node, new E id config = .ok node) ↔ ∀ transition ∈ config.transitions,
      ∃ ast, E.compile config.maxOperations transition.condition = .ok ast := by
  rw [new, if_neg hmax]
  constructor
  · rintro ⟨node, h⟩ transition htransition
    obtain ⟨transitions, hmap, -⟩ := bind_eq_ok.mp h
    obtain ⟨compiled, hcompiled⟩ := exists_of_mapM hmap htransition
    cases hast : E.compile config.maxOperations transition.condition with
    | error e => simp [hast] at hcompiled
    | ok ast => exact ⟨ast, rfl⟩
  · intro h
    refine (mapM_isOk fun transition htransition => ?_).elim fun transitions hmap =>
      ⟨_, bind_eq_ok.mpr ⟨transitions, hmap, rfl⟩⟩
    obtain ⟨ast, hast⟩ := h transition htransition
    exact ⟨(transition, ast), by rw [hast]⟩

theorem of_new {node : StateMachineNode E} (h : new E id config = .ok node) :
    node.id = id ∧ node.config = config ∧ node.actionPorts = collectActionPorts config ∧
      List.Forall₂ (Compiles E config.maxOperations) config.transitions node.transitions := by
  rw [new] at h
  split at h
  · cases h
  · obtain ⟨transitions, hmap, h⟩ := bind_eq_ok.mp h
    cases h
    refine ⟨rfl, rfl, rfl, (forall₂_of_mapM hmap).imp fun transition compiled hcompiled => ?_⟩
    cases hast : E.compile config.maxOperations transition.condition with
    | error e => simp [hast] at hcompiled
    | ok ast =>
        rw [hast] at hcompiled
        cases hcompiled
        exact ⟨rfl, hast⟩

theorem findPin_outputPins {node : StateMachineNode E} {port : String}
    (hport : port ∈ node.actionPorts) : findPin node.outputPins port =
      some { PinDefinition.defaultOutput with id := port, label := port } := by
  have hfind : node.actionPorts.find? (fun other => decide (other = port)) = some port := by
    cases h : node.actionPorts.find? fun other => decide (other = port) with
    | none => simpa using List.find?_eq_none.mp h port hport
    | some other =>
        have heq : other = port := by simpa using List.find?_some h
        rw [heq]
  rw [findPin, outputPins, List.find?_map]
  exact congrArg (Option.map _) hfind

end StateMachineNode

/-- The port of each action is collected. -/
theorem portId_mem_collectActionPorts {spec : WorkflowSpec} {o : ActionOccurrence}
    (ho : o ∈ spec.occurrences) (initialState : String) :
    o.portId ∈ StateMachineNode.collectActionPorts (compiledConfig spec initialState) := by
  obtain ⟨p, hat, hport, -⟩ := WorkflowSpec.exists_place ho
  have hlists : (compiledConfig spec initialState).Lists p o.portId :=
    (lists_compiledConfig p).mpr ⟨Option.isSome_iff_exists.mpr ⟨_, hat⟩, hport⟩
  refine StateMachineNode.mem_collect (.inr (List.mem_append.mpr ?_))
  cases p with
  | entry state i =>
      obtain ⟨c, hc, -, hi⟩ := hlists
      exact .inl (List.mem_flatMap.mpr ⟨c, hc, List.mem_append_left _ (List.mem_of_getElem? hi)⟩)
  | exit state i =>
      obtain ⟨c, hc, -, hi⟩ := hlists
      exact .inl (List.mem_flatMap.mpr ⟨c, hc, List.mem_append_right _ (List.mem_of_getElem? hi)⟩)
  | transition i =>
      obtain ⟨c, hc, hport⟩ := hlists
      exact .inr (List.mem_filterMap.mpr ⟨c, List.mem_of_getElem? hc, hport⟩)

namespace CompiledGraph

variable {env : DeployEnv} {registry : Registry} {ctx : CompilerContext} {spec : WorkflowSpec}
  {initialState : String} {graph : WorkflowGraph}

/-- The node of the state machine has an output for each of the ports. -/
theorem madeOf_machine (h : CompiledGraph ctx spec initialState graph)
    (hcreate : env.create = registry.create) :
    madeOf env graph (smNodeId spec) = (StateMachineNode.new registry.engine (smNodeId spec)
      (compiledConfig spec initialState)).toOption.map
        fun node => ⟨node.id, [.defaultInput], node.outputPins⟩ := by
  obtain ⟨definition, hlookup, hid, htype, hconfig⟩ := h.machine
  rw [madeOf, hlookup, Option.bind_some, hcreate, Registry.create, if_pos htype,
    Registry.parseConfig, hconfig, hid]
  change (StateMachineNode.new registry.engine (smNodeId spec) (compiledConfig spec initialState) >>=
    fun node => pure _).toOption = _
  cases StateMachineNode.new registry.engine (smNodeId spec) (compiledConfig spec initialState) with
  | error e => rfl
  | ok node => rfl

/-- The node of an action is made if its implementation can be read, with the default pins. -/
theorem madeOf_called (h : CompiledGraph ctx spec initialState graph)
    (hcreate : env.create = registry.create) {o : ActionOccurrence} (ho : o ∈ spec.occurrences) :
    ∃ cap id, ctx.capabilities.lookup o.action.target.id = some cap ∧
      madeOf env graph o.nodeId = if cap.implementation.isEthercatPdoWrite then none
        else some ⟨id, [.defaultInput], [.defaultOutput]⟩ := by
  obtain ⟨cap, definition, hcap, hlookup, htype, hconfig⟩ := h.called o ho
  refine ⟨cap, definition.id, hcap, ?_⟩
  have hread := isSome_capabilityCallConfig o.toInstance cap
  rw [madeOf, hlookup, Option.bind_some, hcreate, Registry.create, htype, if_neg (by decide),
    if_pos rfl, Registry.parseConfig, hconfig]
  cases hsome : CapabilityCallConfig.fromJson (o.toInstance.config cap) with
  | none =>
      rw [hsome, Option.isSome_none] at hread
      rw [if_pos (by simpa using hread)]
      rfl
  | some config =>
      rw [hsome, Option.isSome_some] at hread
      rw [if_neg (by simpa using hread)]
      rfl

theorem forall_transitions {initialState : String} (P : String → Prop) :
    (∀ transition ∈ (compiledConfig spec initialState).transitions, P transition.condition) ↔
      ∀ trans ∈ spec.transitions, P trans.condition := by
  constructor
  · intro h trans htrans
    obtain ⟨i, hi⟩ := List.getElem?_of_mem htrans
    have hmem : (trans, i) ∈ spec.transitions.zipIdx := List.mem_zipIdx_iff_getElem?.mpr hi
    exact h _ (List.mem_map_of_mem hmem)
  · intro h transition htransition
    obtain ⟨trans, htrans, rfl⟩ := List.mem_map.mp htransition
    exact h trans.1 (List.mem_of_getElem? (List.mem_zipIdx_iff_getElem?.mp htrans))

/-- All nodes are made if the registry supports the specification. -/
theorem made_iff (h : CompiledGraph ctx spec initialState graph)
    (hcreate : env.create = registry.create) :
    (∀ key ∈ graph.nodes, (madeOf env graph key).isSome = true) ↔ registry.Supports ctx spec := by
  have hmachine : (madeOf env graph (smNodeId spec)).isSome = true ↔ ∀ trans ∈ spec.transitions,
      ∃ ast, registry.engine.compile defaultMaxOperations trans.condition = .ok ast := by
    rw [h.madeOf_machine hcreate, Option.isSome_map, Option.isSome_iff_exists]
    simp only [toOption_eq_some]
    rw [StateMachineNode.exists_new (Nat.succ_ne_zero _)]
    exact forall_transitions fun condition =>
      ∃ ast, registry.engine.compile defaultMaxOperations condition = .ok ast
  have hcalled : ∀ o ∈ spec.occurrences, ((madeOf env graph o.nodeId).isSome = true ↔
      ∀ cap ∈ ctx.capabilities.lookup o.action.target.id,
        cap.implementation.isEthercatPdoWrite = false) := by
    intro o ho
    obtain ⟨cap, id, hcap, hmade⟩ := h.madeOf_called hcreate ho
    rw [hmade, hcap]
    cases hwrite : cap.implementation.isEthercatPdoWrite <;> simp [hwrite]
  constructor
  · intro hmade
    refine ⟨hmachine.mp (hmade _ ((h.mem_nodes _).mpr (.inl rfl))), fun o ho => ?_⟩
    exact (hcalled o ho).mp (hmade _ ((h.mem_nodes _).mpr (.inr ⟨o, ho, rfl⟩)))
  · rintro ⟨hscripts, hsupported⟩ key hkey
    rcases (h.mem_nodes key).mp hkey with rfl | ⟨o, ho, rfl⟩
    · exact hmachine.mpr hscripts
    · exact (hcalled o ho).mpr (hsupported o ho)

/-- The pins of the nodes go together with the edges. -/
theorem compatible (h : CompiledGraph ctx spec initialState graph)
    (hcreate : env.create = registry.create)
    (hmade : ∀ key ∈ graph.nodes, (madeOf env graph key).isSome = true) :
    ∃ nodes : NodeIndex, (∀ key, nodes.lookup key = madeOf env graph key) ∧
      PinsCompatible nodes graph.edges := by
  obtain ⟨nodes, hnodes⟩ := exists_nodes hmade
  obtain ⟨machine, hmachine, hnew⟩ := Option.map_eq_some_iff.mp <|
    (h.madeOf_machine hcreate).symm.trans
      (Option.some_get (hmade _ ((h.mem_nodes _).mpr (.inl rfl)))).symm
  obtain ⟨-, -, hports, -⟩ := StateMachineNode.of_new (toOption_eq_some.mp hmachine)
  have hroot : nodes.lookup (smNodeId spec) =
      some ⟨machine.id, [.defaultInput], machine.outputPins⟩ := by
    rw [hnodes, h.madeOf_machine hcreate, hmachine, Option.map_some]
  have haction : ∀ o ∈ spec.occurrences, ∃ id,
      nodes.lookup o.nodeId = some ⟨id, [.defaultInput], [.defaultOutput]⟩ := by
    intro o ho
    obtain ⟨cap, id, -, hcalled⟩ := h.madeOf_called hcreate ho
    have hsome := hmade _ ((h.mem_nodes _).mpr (.inr ⟨o, ho, rfl⟩))
    rw [hcalled] at hsome
    refine ⟨id, ?_⟩
    rw [hnodes, hcalled, if_neg]
    intro hwrite
    rw [if_pos hwrite] at hsome
    cases hsome
  have hpins : ∀ key, ∀ node ∈ nodes.lookup key,
      node.inputPins = [.defaultInput] ∧ (node.outputPins.map PinDefinition.id).Nodup := by
    intro key node hnode
    rcases (h.mem_nodes key).mp (mem_of_madeOf ((hnodes key).symm.trans hnode)) with
      rfl | ⟨o, ho, rfl⟩
    · obtain rfl := Option.mem_unique hnode hroot
      refine ⟨rfl, ?_⟩
      have hids : machine.outputPins.map PinDefinition.id = machine.actionPorts := by
        simp [StateMachineNode.outputPins, Function.comp_def]
      rw [hids, hports]
      exact StateMachineNode.nodup_collectActionPorts _
    · obtain ⟨id, hid⟩ := haction o ho
      obtain rfl := Option.mem_unique hnode hid
      exact ⟨rfl, List.nodup_singleton _⟩
  refine ⟨nodes, hnodes, ?_, ?_, ?_, ?_⟩
  · intro key node hnode
    obtain ⟨hinput, houtput⟩ := hpins key node hnode
    exact ⟨hinput ▸ List.nodup_singleton _, houtput⟩
  · intro edge hedge
    rw [h.edges_eq] at hedge
    obtain ⟨o, ho, rfl⟩ := List.mem_map.mp hedge
    obtain ⟨id, hid⟩ := haction o ho
    have hport : o.portId ∈ machine.actionPorts :=
      hports ▸ portId_mem_collectActionPorts ho initialState
    exact ⟨_, hroot, _, hid, _, StateMachineNode.findPin_outputPins hport, .defaultInput, rfl, rfl,
      rfl⟩
  · intro key node hnode pin hpin _ hid
    rw [(hpins key node hnode).1, List.mem_singleton] at hpin
    exact absurd (hpin ▸ rfl) hid
  · intro key node hnode pin hpin _
    rw [(hpins key node hnode).1, List.mem_singleton] at hpin
    rw [hpin]
    rfl

/-- The type that is inferred for a value is one that it has. -/
theorem matches_inferPinTypeJson (v : Value) :
    ∃ type, PinType.fromJson (inferPinTypeJson v) = some type ∧ type.matchesValue v = true := by
  cases v with
  | number n =>
      rw [inferPinTypeJson]
      by_cases hint : (n.isI64 || n.isU64) = true
      · exact ⟨.integer, by simp only [hint, if_true]; rfl, hint⟩
      · exact ⟨.float, by simp only [hint]; rfl, rfl⟩
  | null => exact ⟨.any, rfl, rfl⟩
  | bool b => exact ⟨.bool, rfl, rfl⟩
  | string s => exact ⟨.string, rfl, rfl⟩
  | array items => exact ⟨.any, rfl, rfl⟩
  | object fields => exact ⟨.any, rfl, rfl⟩

theorem fromJson_declaration {json initial : Value} {type : PinType}
    (h : PinType.fromJson json = some type) : VariableDeclaration.fromJson
      (.object (jsonObject [("type", json), ("initial", initial)])) = some ⟨type, initial⟩ := by
  simp only [VariableDeclaration.fromJson, Value.asObject, Option.bind_eq_bind, Option.bind_some,
    required]
  rw [lookup_jsonObject (by simp), lookup_jsonObject (by simp)]
  simp [List.lookup_cons, h]

/-- The variables start with values of their types, the state with the initial one. -/
theorem exists_variables (h : CompiledGraph ctx spec initialState graph) (now : ℤ) :
    ∃ vars, buildWorkflowVariables graph.declarations now = .ok vars ∧
      vars.inner.lookup s!"_sm.{smNodeId spec}.current_state" =
        some ⟨.string initialState, .string, .string initialState, now, none⟩ := by
  obtain ⟨declarations, hdeclared, hlookup⟩ := h.declarations
  have htyped : ∀ key declared, declarations.lookup key = some declared →
      declared.variableType.matchesValue declared.initial = true := by
    intro key declared hkey
    rw [hlookup] at hkey
    obtain ⟨v, hv, hread⟩ := Option.bind_eq_some_iff.mp hkey
    obtain ⟨before, after, hfields, -⟩ := List.lookup_eq_some_iff.mp hv
    have hmem : (key, v) ∈ buildVariables spec initialState := by rw [hfields]; simp
    rcases Fields.mem_insert hmem with heq | hmem
    · rw [(Prod.mk.inj heq).2, fromJson_declaration rfl] at hread
      cases hread
      rfl
    · rcases Fields.mem_foldl_insert hmem with ⟨entry, -, heq⟩ | hmem
      · obtain ⟨type, htype, hmatches⟩ := matches_inferPinTypeJson entry.2
        rw [(Prod.mk.inj heq).2, fromJson_declaration htype] at hread
        cases hread
        exact hmatches
      · cases hmem
  have hbuild : ∃ vars, buildWorkflowVariables graph.declarations now = .ok vars := by
    rw [hdeclared]
    refine ⟨_, bind_eq_ok.mpr ⟨(), ?_, rfl⟩⟩
    refine forM_eq_ok.mpr fun entry hentry => ensure_eq_ok.mpr ?_
    exact htyped entry.1 entry.2 (AList.mem_lookup_iff.mpr hentry)
  obtain ⟨vars, hvars⟩ := hbuild
  refine ⟨vars, hvars, ?_⟩
  rw [hdeclared] at hvars
  rw [WorkflowVariables.lookup_fromDeclarations hvars, hlookup, buildVariables,
    Fields.lookup_insert_self, Option.bind_some, fromJson_declaration rfl]
  rfl

/-- What the checks of a deployment come to. -/
theorem deployable_iff (h : CompiledGraph ctx spec initialState graph)
    (hcreate : env.create = registry.create) (hruntime : env.hasRuntime = true)
    (hupsert : env.upsertConnections [] = .ok ()) :
    Deployable env graph ↔ registry.Supports ctx spec := by
  rw [← h.made_iff hcreate]
  refine ⟨Deployable.made, fun hmade => ?_⟩
  obtain ⟨vars, hvars, -⟩ := h.exists_variables env.now
  refine ⟨⟨vars, hvars⟩, hruntime, hmade, h.compatible hcreate hmade,
    ⟨fun id => if id = smNodeId spec then 0 else 1, ?_⟩, h.connections_eq ▸ hupsert⟩
  intro edge hedge
  rw [h.edges_eq] at hedge
  obtain ⟨o, -, rfl⟩ := List.mem_map.mp hedge
  have hne := nodeId_ne_smNodeId spec o
  simp [compiledEdge, hne]

end CompiledGraph

/-- A graph that was compiled passes the checks of a deployment just if the registry supports its
specification: all conditions are scripts, and no action writes to EtherCAT. -/
theorem compile_deployable_iff {env : DeployEnv} {registry : Registry} {ctx : CompilerContext}
    {texts : SpecTexts} {spec : WorkflowSpec} {output : Value}
    (h : compile ctx texts spec = .ok output)
    (hcreate : env.create = registry.create) (hruntime : env.hasRuntime = true)
    (hupsert : env.upsertConnections [] = .ok ()) :
    ∃ graph, WorkflowGraph.fromJson output = some (.ok graph) ∧
      ((∃ p, prepare env graph = .ok p) ↔ registry.Supports ctx spec) := by
  obtain ⟨initialState, graph, -, -, -, hread, hgraph⟩ := compile_graph h
  exact ⟨graph, hread, prepare_isOk.trans (hgraph.deployable_iff hcreate hruntime hupsert)⟩

/-! ## A press -/

/-- The press goes to and fro. -/
def pressCycle : WorkflowSpec :=
  { pressSpec with
    states := pressSpec.states.insert "running" ⟨[], []⟩
    transitions := [⟨"idle", "running", "true", none, none⟩, ⟨"running", "idle", "true", none, none⟩] }

theorem pressCycle_compile :
    (compile pressContext WorkflowSpec.asciiTexts pressCycle).toOption.isSome = true := by
  decide

def pressRegistry : Registry where
  engine := StateMachineNode.wordEngine
  serdeError _ := "invalid config"
  other definition := .error (.invalidGraph definition.nodeType)

/-- Surroundings in which nothing else fails. -/
def pressEnv : DeployEnv where
  now := 0
  hasRuntime := true
  create := pressRegistry.create
  upsertConnections _ := .ok ()
  onDeploy _ := .ok ()

theorem pressCycle_supported : pressRegistry.Supports pressContext pressCycle where
  scripts _ _ := ⟨_, rfl⟩
  readable := by decide

theorem pressCycle_deployable : ∃ output graph,
    compile pressContext WorkflowSpec.asciiTexts pressCycle = .ok output ∧
      WorkflowGraph.fromJson output = some (.ok graph) ∧ ∃ p, prepare pressEnv graph = .ok p := by
  have h := eq_ok_of_get pressCycle_compile
  obtain ⟨graph, hread, hiff⟩ := @compile_deployable_iff pressEnv pressRegistry _ _ _ _ h rfl rfl rfl
  exact ⟨_, graph, h, hread, hiff.mpr pressCycle_supported⟩

end Nazh
