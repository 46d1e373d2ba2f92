import Mathlib.Data.Set.Function
import Nazh.Dsl.Compiler
import Nazh.Flow.StateMachine
import Nazh.Graph.FromJson

/-!
# The graph mirrors the specification

Three passes of the compiler write the ids of ports and nodes: the configuration of the state
machine lists ports, the nodes have ids, and the edges join the one to the other. They are read
here as the runtime reads them. Each place of the specification where an action stands has one
port and one node, and the edge from the port leads to the node.
-/

namespace Nazh

open Lib

/-- A place for an action. -/
inductive ActionPlace
  | entry (state : String) (i : ℕ)
  | exit (state : String) (i : ℕ)
  | transition (i : ℕ)
  deriving DecidableEq

namespace WorkflowSpec

variable (spec : WorkflowSpec)

/-- The action at a place. -/
def actionAt : ActionPlace → Option ActionSpec
  | .entry state i => (spec.states.lookup state).bind fun s => s.entry[i]?
  | .exit state i => (spec.states.lookup state).bind fun s => s.exit[i]?
  | .transition i => spec.transitions[i]?.bind TransitionSpec.action

/-- The port of a place. -/
def portAt : ActionPlace → String
  | .entry state i => entryPort state i
  | .exit state i => exitPort state i
  | .transition i => (spec.transitions[i]?.map fun trans => transitionPort trans i).getD ""

/-- The node of a place. -/
def nodeAt (p : ActionPlace) : String :=
  ((spec.actionAt p).map fun action =>
    sanitizeNodeId s!"cap_{action.target.id}_{spec.portAt p}").getD ""

/-- The places with their actions, in the order in which the compiler comes to them. -/
def places : List (ActionPlace × ActionSpec) :=
  (spec.states.entries.flatMap fun state =>
    (state.2.entry.zipIdx.map fun action => (.entry state.1 action.2, action.1)) ++
    state.2.exit.zipIdx.map fun action => (.exit state.1 action.2, action.1)) ++
  spec.transitions.zipIdx.flatMap fun trans =>
    trans.1.action.toList.map fun action => (.transition trans.2, action)

end WorkflowSpec

/-- The ports that a configuration lists for a place. -/
def StateMachineConfig.Lists (config : StateMachineConfig) : ActionPlace → String → Prop
  | .entry state i, port => ∃ c ∈ config.states, c.name = state ∧ c.entryActions[i]? = some port
  | .exit state i, port => ∃ c ∈ config.states, c.name = state ∧ c.exitActions[i]? = some port
  | .transition i, port => ∃ c, config.transitions[i]? = some c ∧ c.actionPort = some port

/-- A node of the graph has a type. -/
def WorkflowGraph.HasType (graph : WorkflowGraph) (id nodeType : String) : Prop :=
  ∃ definition ∈ graph.nodes.lookup id, definition.nodeType = nodeType

/-- A graph does what a specification says: one node runs the state machine, every place of an
action has its own port and its own node, and an edge joins them. -/
structure Mirrors (spec : WorkflowSpec) (graph : WorkflowGraph) (machine : String)
    (config : StateMachineConfig) (port node : ActionPlace → String) : Prop where
  machine_iff : ∀ id, graph.HasType id "stateMachine" ↔ id = machine
  config_eq : (graph.nodes.lookup machine).bind
    (fun definition => StateMachineConfig.fromJson definition.config) = some config
  bijOn : Set.BijOn node {p | (spec.actionAt p).isSome} {id | graph.HasType id "capabilityCall"}
  carries : ∀ p action, spec.actionAt p = some action →
    ∃ definition ∈ graph.nodes.lookup (node p), ∃ capId args,
      action.target = .capability capId ∧
      definition.config.get "capability_id" = some (.string capId) ∧
      definition.config.get "args" = some (.object args) ∧
      ∀ key, args.lookup key = action.args.lookup key
  injOn : Set.InjOn port {p | (spec.actionAt p).isSome}
  lists_iff : ∀ p x, config.Lists p x ↔ (spec.actionAt p).isSome ∧ x = port p
  edge_of_port : ∀ p, (spec.actionAt p).isSome →
    graph.edges.filter (fun edge => edge.sourcePortId = some (port p)) =
      [⟨machine, node p, some (port p), none, none⟩]
  port_of_edge : ∀ edge ∈ graph.edges, ∃ p, (spec.actionAt p).isSome ∧
    edge.sourcePortId = some (port p)
  valid : graph.validate = .ok ()

/-! ## The places of a specification -/

namespace WorkflowSpec

variable {spec : WorkflowSpec} {p : ActionPlace} {action : ActionSpec}

theorem mem_zipIdx_map {place : ℕ → ActionPlace} (hplace : Function.Injective place)
    {actions : List ActionSpec} {i : ℕ} :
    (place i, action) ∈ actions.zipIdx.map (fun a => (place a.2, a.1)) ↔
      actions[i]? = some action := by
  rw [List.mem_map]
  constructor
  · intro h
    obtain ⟨⟨a, j⟩, hmem, heq⟩ := h
    obtain ⟨hij, rfl⟩ := Prod.mk.inj heq
    rw [← hplace hij]
    simpa using List.mem_zipIdx_iff_getElem?.mp hmem
  · intro h
    exact ⟨(action, i), List.mem_zipIdx_iff_getElem?.mpr h, rfl⟩

/-- The list of the places has every place with an action. -/
theorem mem_places : (p, action) ∈ spec.places ↔ spec.actionAt p = some action := by
  rw [places, List.mem_append, List.mem_flatMap, List.mem_flatMap]
  cases p with
  | entry state i =>
      have hinj : Function.Injective (ActionPlace.entry state) := fun _ _ h => by cases h; rfl
      rw [actionAt, Option.bind_eq_some_iff]
      constructor
      · intro h
        rcases h with ⟨⟨name, s⟩, hs, h⟩ | ⟨trans, -, h⟩
        · rcases List.mem_append.mp h with h | h
          · have hname : name = state := by
              obtain ⟨a, -, ha⟩ := List.mem_map.mp h
              cases ha
              rfl
            subst hname
            exact ⟨s, AList.mem_lookup_iff.mpr hs, (mem_zipIdx_map hinj).mp h⟩
          · simp at h
        · simp at h
      · intro h
        obtain ⟨s, hs, h⟩ := h
        refine .inl ⟨⟨state, s⟩, AList.mem_lookup_iff.mp hs, List.mem_append_left _ ?_⟩
        exact (mem_zipIdx_map hinj).mpr h
  | exit state i =>
      have hinj : Function.Injective (ActionPlace.exit state) := fun _ _ h => by cases h; rfl
      rw [actionAt, Option.bind_eq_some_iff]
      constructor
      · intro h
        rcases h with ⟨⟨name, s⟩, hs, h⟩ | ⟨trans, -, h⟩
        · rcases List.mem_append.mp h with h | h
          · simp at h
          · have hname : name = state := by
              obtain ⟨a, -, ha⟩ := List.mem_map.mp h
              cases ha
              rfl
            subst hname
            exact ⟨s, AList.mem_lookup_iff.mpr hs, (mem_zipIdx_map hinj).mp h⟩
        · simp at h
      · intro h
        obtain ⟨s, hs, h⟩ := h
        refine .inl ⟨⟨state, s⟩, AList.mem_lookup_iff.mp hs, List.mem_append_right _ ?_⟩
        exact (mem_zipIdx_map hinj).mpr h
  | transition i =>
      rw [actionAt, Option.bind_eq_some_iff]
      constructor
      · intro h
        rcases h with ⟨state, -, h⟩ | ⟨⟨trans, j⟩, htrans, h⟩
        · simp at h
        · obtain ⟨a, ha, heq⟩ := List.mem_map.mp h
          obtain ⟨hij, rfl⟩ := Prod.mk.inj heq
          cases hij
          exact ⟨trans, List.mem_zipIdx_iff_getElem?.mp htrans, Option.mem_toList.mp ha⟩
      · intro h
        obtain ⟨trans, htrans, h⟩ := h
        refine .inr ⟨(trans, i), List.mem_zipIdx_iff_getElem?.mpr htrans, ?_⟩
        exact List.mem_map.mpr ⟨action, Option.mem_toList.mpr h, rfl⟩

/-- The compiler comes to the places in their order, each with its port. -/
theorem occurrences_map : spec.occurrences.map (fun o => (o.portId, o.action)) =
    spec.places.map fun a => (spec.portAt a.1, a.2) := by
  rw [occurrences, places, List.map_append, List.map_append, List.map_flatMap, List.map_flatMap,
    List.map_flatMap, List.map_flatMap]
  congr 1
  · refine List.flatMap_congr fun state _ => ?_
    simp only [List.map_append, List.map_map]
    rfl
  · refine List.flatMap_congr fun trans htrans => ?_
    have hat : spec.transitions[trans.2]? = some trans.1 := List.mem_zipIdx_iff_getElem?.mp htrans
    cases trans.1.action with
    | none => rfl
    | some action => simp [portAt, hat]

/-- Every place is one of the occurrences. -/
theorem exists_occurrence (h : spec.actionAt p = some action) :
    ∃ o ∈ spec.occurrences, o.portId = spec.portAt p ∧ o.action = action ∧
      o.nodeId = spec.nodeAt p := by
  have hmem : (spec.portAt p, action) ∈ spec.places.map fun a => (spec.portAt a.1, a.2) :=
    List.mem_map.mpr ⟨(p, action), mem_places.mpr h, rfl⟩
  rw [← occurrences_map] at hmem
  obtain ⟨o, ho, heq⟩ := List.mem_map.mp hmem
  obtain ⟨hport, haction⟩ := Prod.mk.inj heq
  refine ⟨o, ho, hport, haction, ?_⟩
  rw [ActionOccurrence.nodeId, nodeAt, h, hport, haction]
  rfl

/-- Every occurrence has its place. -/
theorem exists_place {o : ActionOccurrence} (ho : o ∈ spec.occurrences) :
    ∃ p, spec.actionAt p = some o.action ∧ o.portId = spec.portAt p ∧ o.nodeId = spec.nodeAt p := by
  have hmem : (o.portId, o.action) ∈ spec.occurrences.map fun o => (o.portId, o.action) :=
    List.mem_map.mpr ⟨o, ho, rfl⟩
  rw [occurrences_map] at hmem
  obtain ⟨⟨p, action⟩, hp, heq⟩ := List.mem_map.mp hmem
  obtain ⟨hport, haction⟩ := Prod.mk.inj heq
  have hat : spec.actionAt p = some o.action := haction ▸ mem_places.mp hp
  refine ⟨p, hat, hport.symm, ?_⟩
  rw [ActionOccurrence.nodeId, nodeAt, hat, ← hport]
  rfl

/-- A function of port and action that is different for all occurrences is so for all places. -/
theorem injOn_of_nodup {α : Type} {f : String × ActionSpec → α}
    (h : (spec.occurrences.map fun o => f (o.portId, o.action)).Nodup) {p q : ActionPlace}
    {a b : ActionSpec} (hp : spec.actionAt p = some a) (hq : spec.actionAt q = some b)
    (heq : f (spec.portAt p, a) = f (spec.portAt q, b)) : p = q := by
  have hmap : spec.occurrences.map (fun o => f (o.portId, o.action)) =
      spec.places.map fun a => f (spec.portAt a.1, a.2) := by
    have hpairs : spec.occurrences.map (fun o => (o.portId, o.action)) = _ := occurrences_map
    simpa [List.map_map, Function.comp_def] using congrArg (List.map f) hpairs
  rw [hmap] at h
  have hpair := List.inj_on_of_nodup_map h (mem_places.mpr hp) (mem_places.mpr hq) heq
  exact congrArg Prod.fst hpair

end WorkflowSpec

/-! ## What the runtime reads -/

section Node

variable (id nodeType : String) (config : Value) (connectionId : Option String)

/-- A node as the compiler writes it. -/
def compiledNode : Fields :=
  (jsonObject [("id", .string id), ("type", .string nodeType), ("config", config),
    ("buffer", .number (.posInt 32))]).insertSome "connection_id" (connectionId.map .string)

theorem lookup_compiledNode {key : String} (hkey : key ≠ "connection_id") :
    (compiledNode id nodeType config connectionId).lookup key =
      [("id", .string id), ("type", .string nodeType), ("config", config),
        ("buffer", .number (.posInt 32))].lookup key := by
  rw [compiledNode, Fields.lookup_insertSome_of_ne _ _ hkey, lookup_jsonObject (by simp)]

/-- A node is read as it was written. -/
theorem fromJson_compiledNode :
    WorkflowNodeDefinition.fromJson (.object (compiledNode id nodeType config connectionId)) =
      some ⟨id, nodeType, connectionId, config, none, 32⟩ := by
  have hconnection : optional (compiledNode id nodeType config connectionId) "connection_id"
      Value.asStr = some connectionId := by
    rw [optional, compiledNode, Fields.lookup_insertSome_self]
    · cases connectionId with
      | none => rfl
      | some id => rfl
    · rw [lookup_jsonObject (by simp)]
      simp [List.lookup_cons]
  have htimeout : optional (compiledNode id nodeType config connectionId) "timeout_ms"
      (Value.toUnsigned UInt64.size) = some none := by
    rw [optional, lookup_compiledNode _ _ _ _ (by decide)]
    simp [List.lookup_cons]
  have hbuffer : (Value.number (.posInt 32)).toUnsigned UInt64.size = some 32 := rfl
  rw [WorkflowNodeDefinition.fromJson]
  simp only [Value.asObject, Option.bind_eq_bind, Option.bind_some, hconnection, htimeout, defaulted,
    aliased]
  rw [lookup_compiledNode _ _ _ _ (by decide), lookup_compiledNode _ _ _ _ (by decide),
    lookup_compiledNode _ _ _ _ (by decide), lookup_compiledNode _ _ _ _ (by decide),
    lookup_compiledNode _ _ _ _ (by decide)]
  simp [List.lookup_cons, Value.asStr, hbuffer]

end Node

section StateMachine

variable (spec : WorkflowSpec) (initialState : String)

/-- The ports of the actions of a state. -/
def actionPorts (port : String → ℕ → String) (name : String) (actions : List ActionSpec) :
    List String :=
  actions.zipIdx.map fun action => port name action.2

/-- The configuration of the state machine, as it is read. -/
def compiledConfig : StateMachineConfig where
  initialState := initialState
  states := spec.states.entries.map fun state => ⟨state.1,
    actionPorts entryPort state.1 state.2.entry, actionPorts exitPort state.1 state.2.exit⟩
  transitions := spec.transitions.zipIdx.map fun trans => ⟨trans.1.source, trans.1.target,
    trans.1.condition, (trans.1.priority.getD 0).toNat,
    trans.1.action.map fun _ => transitionPort trans.1 trans.2⟩
  maxOperations := defaultMaxOperations

theorem toList_ports (port : String → ℕ → String) (name : String) (actions : List ActionSpec) :
    (Value.array (actions.zipIdx.map fun action => .string (port name action.2))).toList
      Value.asStr = some (actionPorts port name actions) :=
  Value.toList_map fun _ _ => rfl

theorem fromJson_state (name : String) (state : StateSpec) :
    StateConfig.fromJson (.object (jsonObject [("name", .string name),
      ("entry_actions", .array (state.entry.zipIdx.map fun a => .string (entryPort name a.2))),
      ("exit_actions", .array (state.exit.zipIdx.map fun a => .string (exitPort name a.2)))])) =
    some ⟨name, actionPorts entryPort name state.entry, actionPorts exitPort name state.exit⟩ := by
  simp only [StateConfig.fromJson, Value.asObject, Option.bind_eq_bind, Option.bind_some, required,
    defaulted]
  rw [lookup_jsonObject (by simp), lookup_jsonObject (by simp), lookup_jsonObject (by simp)]
  simp [List.lookup_cons, Value.asStr, toList_ports]

theorem fromJson_transition (trans : TransitionSpec) (action : Option String) (port : Value)
    (hport : port = (action.map Value.string).getD .null) :
    TransitionConfig.fromJson (.object (jsonObject [("from", .string trans.source),
      ("to", .string trans.target), ("when", .string trans.condition),
      ("priority", .number (.ofNat (trans.priority.getD 0).toNat)), ("action_port", port)])) =
    some ⟨trans.source, trans.target, trans.condition, (trans.priority.getD 0).toNat, action⟩ := by
  subst hport
  simp only [TransitionConfig.fromJson, Value.asObject, Option.bind_eq_bind, Option.bind_some,
    required, defaulted, optional]
  rw [lookup_jsonObject (by simp), lookup_jsonObject (by simp), lookup_jsonObject (by simp),
    lookup_jsonObject (by simp), lookup_jsonObject (by simp)]
  cases action with
  | none => simp [List.lookup_cons, Value.asStr]
  | some port => simp [List.lookup_cons, Value.asStr]

theorem fromJson_timeoutRule (state : String) (timeoutMs : UInt64) :
    TimeoutRule.fromJson (.object (jsonObject [("state", .string state),
      ("timeout_ms", .number (.posInt timeoutMs))])) = some ⟨state, timeoutMs⟩ := by
  simp only [TimeoutRule.fromJson, Value.asObject, Option.bind_eq_bind, Option.bind_some, required]
  rw [lookup_jsonObject (by simp), lookup_jsonObject (by simp)]
  simp [List.lookup_cons, Value.asStr, Value.asU64]

theorem fromJson_config (onTimeout : Option String) {states transitions rules target : Value}
    {stateConfigs : List StateConfig} {transitionConfigs : List TransitionConfig}
    {timeoutRules : List TimeoutRule}
    (hstates : states.toList StateConfig.fromJson = some stateConfigs)
    (htransitions : transitions.toList TransitionConfig.fromJson = some transitionConfigs)
    (hrules : rules.toList TimeoutRule.fromJson = some timeoutRules)
    (htarget : target = (onTimeout.map Value.string).getD .null) :
    StateMachineConfig.fromJson (.object (jsonObject [("initial_state", .string initialState),
      ("states", states), ("transitions", transitions), ("timeout_rules", rules),
      ("on_timeout_target", target)])) =
    some ⟨initialState, stateConfigs, transitionConfigs, defaultMaxOperations⟩ := by
  simp only [StateMachineConfig.fromJson, Value.asObject, Option.bind_eq_bind, Option.bind_some,
    required, defaulted, optional]
  rw [lookup_jsonObject (by simp), lookup_jsonObject (by simp), lookup_jsonObject (by simp),
    lookup_jsonObject (by simp), lookup_jsonObject (by simp), lookup_jsonObject (by simp)]
  subst htarget
  cases onTimeout with
  | none => simp [List.lookup_cons, Value.asStr, hstates, htransitions, hrules]
  | some name => simp [List.lookup_cons, Value.asStr, hstates, htransitions, hrules]

/-- The node that runs the state machine is read with its configuration. -/
theorem fromJson_stateMachineNode : ∃ config,
    WorkflowNodeDefinition.fromJson (buildStateMachineNode spec initialState) =
      some ⟨smNodeId spec, "stateMachine", none, config, none, 32⟩ ∧
    StateMachineConfig.fromJson config = some (compiledConfig spec initialState) := by
  refine ⟨_, fromJson_compiledNode (smNodeId spec) "stateMachine" _ none, ?_⟩
  refine fromJson_config initialState spec.onTimeout
    (Value.toList_map fun state _ => fromJson_state state.1 state.2)
    (Value.toList_map fun trans _ => fromJson_transition trans.1
      (trans.1.action.map fun _ => transitionPort trans.1 trans.2) _ ?_)
    (Value.toList_map fun rule _ => fromJson_timeoutRule rule.1 rule.2) ?_
  · cases trans.1.action with
    | none => rfl
    | some action => rfl
  · cases spec.onTimeout with
    | none => rfl
    | some name => rfl

end StateMachine

/-! ## The graph that is read -/

theorem isSome_inferPinTypeJson (v : Value) : (PinType.fromJson (inferPinTypeJson v)).isSome := by
  cases v with
  | number n =>
      rw [inferPinTypeJson]
      split
      · rfl
      · rfl
  | null => rfl
  | bool b => rfl
  | string s => rfl
  | array items => rfl
  | object fields => rfl

theorem isSome_declaration {type : Value} (initial : Value) (h : (PinType.fromJson type).isSome) :
    (VariableDeclaration.fromJson
      (.object (jsonObject [("type", type), ("initial", initial)]))).isSome := by
  obtain ⟨t, ht⟩ := Option.isSome_iff_exists.mp h
  simp only [VariableDeclaration.fromJson, Value.asObject, Option.bind_eq_bind, Option.bind_some,
    required]
  rw [lookup_jsonObject (by simp), lookup_jsonObject (by simp)]
  simp [List.lookup_cons, ht]

/-- Every variable has a type that can be read. -/
theorem isSome_variable {spec : WorkflowSpec} {initialState : String} {field : String × Value}
    (h : field ∈ buildVariables spec initialState) :
    (VariableDeclaration.fromJson field.2).isSome := by
  rcases Fields.mem_insert h with rfl | h
  · exact isSome_declaration _ rfl
  · rcases Fields.mem_foldl_insert h with ⟨entry, -, rfl⟩ | h
    · exact isSome_declaration _ (isSome_inferPinTypeJson entry.2)
    · cases h

/-- The edge of an action. -/
def compiledEdge (spec : WorkflowSpec) (portId nodeId : String) : WorkflowEdge :=
  ⟨smNodeId spec, nodeId, some portId, none, none⟩

theorem fromJson_edge (source target portId : String) :
    WorkflowEdge.fromJson (.object (jsonObject [("from", .string source), ("to", .string target),
      ("source_port_id", .string portId)])) = some ⟨source, target, some portId, none, none⟩ := by
  simp only [WorkflowEdge.fromJson, Value.asObject, Option.bind_eq_bind, Option.bind_some, aliased,
    optionalAliased, optional]
  rw [lookup_jsonObject (by simp), lookup_jsonObject (by simp), lookup_jsonObject (by simp),
    lookup_jsonObject (by simp), lookup_jsonObject (by simp), lookup_jsonObject (by simp),
    lookup_jsonObject (by simp), lookup_jsonObject (by simp), lookup_jsonObject (by simp)]
  simp [List.lookup_cons, Value.asStr]

theorem toList_buildEdges (spec : WorkflowSpec) :
    (Value.array (buildEdges spec)).toList WorkflowEdge.fromJson =
      some (spec.occurrences.map fun o => compiledEdge spec o.portId o.nodeId) := by
  rw [buildEdges, Value.toList_map fun a _ => fromJson_edge (smNodeId spec) a.nodeId a.portId,
    collectActions, List.map_map]
  rfl

/-- What is among the nodes was there or is the node of an action. -/
theorem mem_buildCapabilityCallNodes {ctx : CompilerContext} {actions : List ActionInstance}
    {nodes nodes' : Fields} {field : String × Value}
    (h : buildCapabilityCallNodes ctx actions nodes = .ok nodes') (hfield : field ∈ nodes') :
    (∃ a ∈ actions, a.toNode ctx = .ok field.2) ∨ field ∈ nodes := by
  induction actions generalizing nodes with
  | nil =>
      cases h
      exact .inr hfield
  | cons a rest ih =>
      rw [buildCapabilityCallNodes, bind_eq_ok] at h
      obtain ⟨v, hv, h⟩ := h
      rcases ih h with ⟨b, hb, heq⟩ | hmem
      · exact .inl ⟨b, List.mem_cons_of_mem _ hb, heq⟩
      · rcases Fields.mem_insert hmem with rfl | hmem
        · exact .inl ⟨a, List.mem_cons_self, hv⟩
        · exact .inr hmem

/-- The node of an action is read with its configuration. -/
theorem fromJson_toNode {ctx : CompilerContext} {a : ActionInstance} {v : Value}
    (h : a.toNode ctx = .ok v) : a.isCapability = true ∧ ∃ cap connectionId,
      WorkflowNodeDefinition.fromJson v =
        some ⟨a.nodeId, "capabilityCall", connectionId, a.config cap, none, 32⟩ := by
  obtain ⟨hcap, cap, -, rfl⟩ := ActionInstance.toNode_eq_ok.mp h
  exact ⟨hcap, cap, _, fromJson_compiledNode a.nodeId "capabilityCall" (a.config cap) _⟩

/-- A text without its unsafe characters begins as the text does. -/
theorem head?_replaceUnsafe {s : String} {c : Char} (h : s.toList.head? = some c)
    (hsafe : ['.', '-', ' '].contains c = false) : (replaceUnsafe s).toList.head? = some c := by
  rw [replaceUnsafe, String.toList_ofList, List.head?_map, h, Option.map_some, hsafe]
  rfl

theorem head?_append {s : String} {c : Char} (h : s.toList.head? = some c) (t : String) :
    (s ++ t).toList.head? = some c := by
  rw [String.toList_append, List.head?_append, h]
  rfl

/-- No action has the node of the state machine. -/
theorem nodeId_ne_smNodeId (spec : WorkflowSpec) (o : ActionOccurrence) :
    o.nodeId ≠ smNodeId spec := by
  intro heq
  have hcap : o.nodeId.toList.head? = some 'c' :=
    head?_replaceUnsafe (head?_append (head?_append (head?_append (by decide) _) _) _) (by decide)
  have hsm : (smNodeId spec).toList.head? = some 's' :=
    head?_replaceUnsafe (head?_append (by decide) _) (by decide)
  rw [heq, hsm] at hcap
  exact absurd hcap (by decide)

section Read

variable {ctx : CompilerContext} {spec : WorkflowSpec} {initialState : String} {output : Value}

/-- What is read from the graph of a specification. -/
structure ReadBack (spec : WorkflowSpec) (initialState : String) (graph : WorkflowGraph) :
    Prop where
  edges_eq : graph.edges = spec.occurrences.map fun o => compiledEdge spec o.portId o.nodeId
  lookup_action : ∀ o ∈ spec.occurrences, o.toInstance.isCapability = true ∧
    ∃ cap connectionId, graph.nodes.lookup o.nodeId =
      some ⟨o.nodeId, "capabilityCall", connectionId, o.toInstance.config cap, none, 32⟩
  lookup_machine : ∃ config, graph.nodes.lookup (smNodeId spec) =
      some ⟨smNodeId spec, "stateMachine", none, config, none, 32⟩ ∧
    StateMachineConfig.fromJson config = some (compiledConfig spec initialState)
  lookup_other : ∀ id, id ∉ spec.occurrences.map ActionOccurrence.nodeId → id ≠ smNodeId spec →
    graph.nodes.lookup id = none

theorem deserialize_output {fields : Fields} {nodes : AList fun _ : String => WorkflowNodeDefinition}
    {declarations : AList fun _ : String => VariableDeclaration}
    (hnodes : (Value.object fields).toMap WorkflowNodeDefinition.fromJson = some nodes)
    (hdeclarations : (Value.object (buildVariables spec initialState)).toMap
      VariableDeclaration.fromJson = some declarations) :
    WorkflowGraph.deserialize (buildOutput spec initialState fields) =
      some ⟨[], nodes, spec.occurrences.map fun o => compiledEdge spec o.portId o.nodeId,
        some declarations⟩ := by
  have hconnections : (Value.array []).toList ConnectionDefinition.fromJson = some [] := rfl
  simp only [WorkflowGraph.deserialize, buildOutput, Value.asObject, Option.bind_eq_bind,
    Option.bind_some, defaulted, optional]
  rw [lookup_jsonObject (by simp), lookup_jsonObject (by simp), lookup_jsonObject (by simp),
    lookup_jsonObject (by simp), lookup_jsonObject (by simp)]
  simp [List.lookup_cons, Value.asStr, hconnections, hnodes, toList_buildEdges, hdeclarations]

theorem deserialize_build (hids : validateSanitizedIds spec = .ok ())
    (h : build ctx spec initialState = .ok output) :
    ∃ graph, WorkflowGraph.deserialize output = some graph ∧ ReadBack spec initialState graph := by
  rw [build, bind_eq_ok] at h
  obtain ⟨fields, hfields, h⟩ := h
  obtain rfl := pure_eq_ok.mp h
  have hmap : (collectActions spec).map ActionInstance.nodeId =
      spec.occurrences.map ActionOccurrence.nodeId := by
    rw [collectActions, List.map_map]
    rfl
  have hnodup := (validateSanitizedIds_eq_ok.mp hids).2
  rw [← hmap] at hnodup
  obtain ⟨hactions, hothers⟩ := buildCapabilityCallNodes_spec hnodup hfields
  rw [hmap] at hothers
  obtain ⟨config, hmachine, hconfig⟩ := fromJson_stateMachineNode spec initialState
  have hread : ∀ field ∈ fields, (WorkflowNodeDefinition.fromJson field.2).isSome := by
    intro field hfield
    rcases mem_buildCapabilityCallNodes hfields hfield with ⟨a, -, ha⟩ | hfield
    · obtain ⟨-, cap, connectionId, heq⟩ := fromJson_toNode ha
      rw [heq, Option.isSome_some]
    · obtain rfl := List.mem_singleton.mp hfield
      rw [hmachine, Option.isSome_some]
  obtain ⟨nodes, hnodes, hlookup⟩ := Value.toMap_object hread
  have hvariables : ∀ field ∈ buildVariables spec initialState,
      (VariableDeclaration.fromJson field.2).isSome := fun field hfield => isSome_variable hfield
  obtain ⟨declarations, hdeclarations, -⟩ := Value.toMap_object hvariables
  refine ⟨_, deserialize_output hnodes hdeclarations, rfl, ?_, ?_, ?_⟩
  · intro o ho
    obtain ⟨v, hv, hnode⟩ := hactions o.toInstance (List.mem_map_of_mem ho)
    obtain ⟨hcap, cap, connectionId, heq⟩ := fromJson_toNode hv
    refine ⟨hcap, cap, connectionId, ?_⟩
    have hat : fields.lookup o.nodeId = some v := hnode
    rw [hlookup, hat]
    exact heq
  · refine ⟨config, ?_, hconfig⟩
    have hnot : smNodeId spec ∉ spec.occurrences.map ActionOccurrence.nodeId := by
      intro hmem
      obtain ⟨o, -, heq⟩ := List.mem_map.mp hmem
      exact nodeId_ne_smNodeId spec o heq
    rw [hlookup, hothers _ hnot, Fields.lookup_insert_self]
    exact hmachine
  · intro id hid hne
    rw [hlookup, hothers _ hid, Fields.lookup_insert_of_ne _ _ hne]
    rfl

end Read

/-! ## The ports of the configuration -/

section Ports

variable {spec : WorkflowSpec} {initialState : String} {x : String}

theorem getElem?_actionPorts (port : String → ℕ → String) (name : String)
    (actions : List ActionSpec) (i : ℕ) :
    (actionPorts port name actions)[i]? = actions[i]?.map fun _ => port name i := by
  rw [actionPorts, List.getElem?_map, List.getElem?_zipIdx, Option.map_map]
  simp [Function.comp_def]

/-- The ports of a kind of action that are listed for a state. -/
theorem exists_state_iff (ports : StateConfig → List String) (actions : StateSpec → List ActionSpec)
    (port : String → ℕ → String) (state : String) (i : ℕ)
    (hports : ∀ name s, ports ⟨name, actionPorts entryPort name s.entry,
      actionPorts exitPort name s.exit⟩ = actionPorts port name (actions s)) :
    (∃ c ∈ (compiledConfig spec initialState).states, c.name = state ∧ (ports c)[i]? = some x) ↔
      ((spec.states.lookup state).bind fun s => (actions s)[i]?).isSome ∧ x = port state i := by
  rw [Option.isSome_bind, Option.any_eq_true]
  constructor
  · intro h
    obtain ⟨c, hc, rfl, hx⟩ := h
    obtain ⟨⟨name, s⟩, hs, rfl⟩ := List.mem_map.mp hc
    rw [hports, getElem?_actionPorts, Option.map_eq_some_iff] at hx
    obtain ⟨action, haction, rfl⟩ := hx
    exact ⟨⟨s, AList.mem_lookup_iff.mpr hs, by rw [haction, Option.isSome_some]⟩, rfl⟩
  · intro h
    obtain ⟨⟨s, hs, haction⟩, rfl⟩ := h
    obtain ⟨action, haction⟩ := Option.isSome_iff_exists.mp haction
    refine ⟨_, List.mem_map_of_mem (AList.mem_lookup_iff.mp hs), rfl, ?_⟩
    rw [hports, getElem?_actionPorts, haction, Option.map_some]

/-- The configuration lists the port of each place with an action, and no others. -/
theorem lists_compiledConfig (p : ActionPlace) :
    (compiledConfig spec initialState).Lists p x ↔
      (spec.actionAt p).isSome ∧ x = spec.portAt p := by
  cases p with
  | entry state i =>
      exact exists_state_iff StateConfig.entryActions StateSpec.entry entryPort state i
        fun _ _ => rfl
  | exit state i =>
      exact exists_state_iff StateConfig.exitActions StateSpec.exit exitPort state i fun _ _ => rfl
  | transition i =>
      rw [StateMachineConfig.Lists, compiledConfig, List.getElem?_map, List.getElem?_zipIdx,
        WorkflowSpec.actionAt, WorkflowSpec.portAt]
      cases htrans : spec.transitions[i]? with
      | none => simp
      | some trans =>
          cases htarget : trans.action with
          | none => simp [htarget]
          | some action => simp [htarget, eq_comm (b := x)]

end Ports

/-! ## The graph of a specification -/

theorem filter_eq_singleton {α β : Type} [DecidableEq β] {f : α → β} {xs : List α} {a : α}
    (h : (xs.map f).Nodup) (ha : a ∈ xs) : xs.filter (fun b => f b = f a) = [a] := by
  induction xs with
  | nil => cases ha
  | cons x xs ih =>
      rw [List.map_cons, List.nodup_cons] at h
      rcases List.mem_cons.mp ha with rfl | ha
      · have hrest : xs.filter (fun b => f b = f a) = [] := by
          rw [List.filter_eq_nil_iff]
          intro b hb heq
          exact h.1 (List.mem_map.mpr ⟨b, hb, of_decide_eq_true heq⟩)
        rw [List.filter_cons_of_pos (by simp), hrest]
      · have hx : f x ≠ f a := fun heq => h.1 (List.mem_map.mpr ⟨a, ha, heq.symm⟩)
        rw [List.filter_cons_of_neg (by simpa using hx), ih h.2 ha]

section Mirror

variable {ctx : CompilerContext} {texts : SpecTexts} {spec : WorkflowSpec} {initialState : String}
  {graph : WorkflowGraph} {output : Value}

theorem hasType_normalize {id nodeType : String} :
    graph.normalize.HasType id nodeType ↔ graph.HasType id nodeType := by
  rw [WorkflowGraph.HasType, WorkflowGraph.HasType, WorkflowGraph.lookup_normalize]
  cases graph.nodes.lookup id with
  | none => simp
  | some definition => simp [WorkflowNodeDefinition.normalize]

namespace ReadBack

/-- The nodes of the graph and their types. -/
theorem hasType_iff (h : ReadBack spec initialState graph) {id nodeType : String} :
    graph.HasType id nodeType ↔ (id = smNodeId spec ∧ nodeType = "stateMachine") ∨
      ∃ o ∈ spec.occurrences, id = o.nodeId ∧ nodeType = "capabilityCall" := by
  obtain ⟨config, hmachine, -⟩ := h.lookup_machine
  constructor
  · intro htype
    obtain ⟨definition, hlookup, rfl⟩ := htype
    by_cases hid : id ∈ spec.occurrences.map ActionOccurrence.nodeId
    · obtain ⟨o, ho, rfl⟩ := List.mem_map.mp hid
      obtain ⟨-, cap, connectionId, heq⟩ := h.lookup_action o ho
      obtain rfl := Option.mem_unique hlookup heq
      exact .inr ⟨o, ho, rfl, rfl⟩
    · by_cases hsm : id = smNodeId spec
      · subst hsm
        obtain rfl := Option.mem_unique hlookup hmachine
        exact .inl ⟨rfl, rfl⟩
      · rw [h.lookup_other id hid hsm] at hlookup
        cases hlookup
  · intro hcases
    rcases hcases with ⟨rfl, rfl⟩ | ⟨o, ho, rfl, rfl⟩
    · exact ⟨_, hmachine, rfl⟩
    · obtain ⟨-, cap, connectionId, heq⟩ := h.lookup_action o ho
      exact ⟨_, heq, rfl⟩

theorem mem_nodes (h : ReadBack spec initialState graph) {id : String} :
    id ∈ graph.nodes ↔ id = smNodeId spec ∨ ∃ o ∈ spec.occurrences, id = o.nodeId := by
  have hmem : id ∈ graph.nodes ↔ ∃ nodeType, graph.HasType id nodeType := by
    rw [← AList.lookup_isSome, Option.isSome_iff_exists]
    constructor
    · intro hsome
      obtain ⟨definition, hlookup⟩ := hsome
      exact ⟨definition.nodeType, definition, hlookup, rfl⟩
    · intro htype
      obtain ⟨nodeType, definition, hlookup, -⟩ := htype
      exact ⟨definition, hlookup⟩
  rw [hmem]
  constructor
  · intro htype
    obtain ⟨nodeType, htype⟩ := htype
    rcases h.hasType_iff.mp htype with ⟨hid, -⟩ | ⟨o, ho, hid, -⟩
    · exact .inl hid
    · exact .inr ⟨o, ho, hid⟩
  · intro hcases
    rcases hcases with hid | ⟨o, ho, hid⟩
    · exact ⟨_, h.hasType_iff.mpr (.inl ⟨hid, rfl⟩)⟩
    · exact ⟨_, h.hasType_iff.mpr (.inr ⟨o, ho, hid, rfl⟩)⟩

/-- Every edge leads from the node of the state machine to a node of an action. -/
theorem mem_edges (h : ReadBack spec initialState graph) {edge : WorkflowEdge} :
    edge ∈ graph.edges ↔ ∃ o ∈ spec.occurrences, compiledEdge spec o.portId o.nodeId = edge := by
  rw [h.edges_eq, List.mem_map]

theorem validate_normalize (h : ReadBack spec initialState graph) :
    graph.normalize.validate = .ok () := by
  have hroot : smNodeId spec ∈ graph.nodes := h.mem_nodes.mpr (.inl rfl)
  apply WorkflowGraph.validate_eq_ok (fun id => if id = smNodeId spec then 0 else 1)
    (WorkflowGraph.mem_normalize.mpr hroot)
  · intro edge hedge
    obtain ⟨o, ho, rfl⟩ := h.mem_edges.mp hedge
    exact nodeId_ne_smNodeId spec o
  · intro edge hedge
    obtain ⟨o, ho, rfl⟩ := h.mem_edges.mp hedge
    refine ⟨WorkflowGraph.mem_normalize.mpr hroot, WorkflowGraph.mem_normalize.mpr ?_⟩
    exact h.mem_nodes.mpr (.inr ⟨o, ho, rfl⟩)
  · intro edge hedge
    obtain ⟨o, ho, rfl⟩ := h.mem_edges.mp hedge
    have hne := nodeId_ne_smNodeId spec o
    simp [compiledEdge, hne]

/-- The place of each action has its own node. -/
theorem bijOn_nodeAt (h : ReadBack spec initialState graph)
    (hnodup : (spec.occurrences.map ActionOccurrence.nodeId).Nodup) :
    Set.BijOn spec.nodeAt {p | (spec.actionAt p).isSome}
      {id | graph.HasType id "capabilityCall"} := by
  refine ⟨?_, ?_, ?_⟩
  · intro p hp
    obtain ⟨action, hat⟩ := Option.isSome_iff_exists.mp hp
    obtain ⟨o, ho, -, -, hnode⟩ := WorkflowSpec.exists_occurrence hat
    exact h.hasType_iff.mpr (.inr ⟨o, ho, hnode.symm, rfl⟩)
  · intro p hp q hq heq
    obtain ⟨a, ha⟩ := Option.isSome_iff_exists.mp hp
    obtain ⟨b, hb⟩ := Option.isSome_iff_exists.mp hq
    let f : String × ActionSpec → String := fun x => sanitizeNodeId s!"cap_{x.2.target.id}_{x.1}"
    apply WorkflowSpec.injOn_of_nodup (f := f) hnodup ha hb
    have hp' : spec.nodeAt p = f (spec.portAt p, a) := by rw [WorkflowSpec.nodeAt, ha]; rfl
    have hq' : spec.nodeAt q = f (spec.portAt q, b) := by rw [WorkflowSpec.nodeAt, hb]; rfl
    rw [← hp', ← hq', heq]
  · intro id hid
    rcases h.hasType_iff.mp hid with ⟨-, htype⟩ | ⟨o, ho, rfl, -⟩
    · exact absurd htype (by decide)
    · obtain ⟨p, hat, -, hnode⟩ := WorkflowSpec.exists_place ho
      exact ⟨p, Option.isSome_iff_exists.mpr ⟨_, hat⟩, hnode.symm⟩

/-- The node of a place has the capability and the arguments of its action. -/
theorem exists_definition (h : ReadBack spec initialState graph) {p : ActionPlace}
    {action : ActionSpec} (hat : spec.actionAt p = some action) :
    ∃ definition ∈ graph.nodes.lookup (spec.nodeAt p), ∃ capId args,
      action.target = .capability capId ∧
      definition.config.get "capability_id" = some (.string capId) ∧
      definition.config.get "args" = some (.object args) ∧
      ∀ key, args.lookup key = action.args.lookup key := by
  obtain ⟨o, ho, -, rfl, hnode⟩ := WorkflowSpec.exists_occurrence hat
  obtain ⟨hcap, cap, connectionId, hlookup⟩ := h.lookup_action o ho
  rw [← hnode]
  refine ⟨_, hlookup, o.action.target.id, o.toInstance.args, ?_, ?_, ?_, ?_⟩
  · cases htarget : o.action.target with
    | capability id => rfl
    | action id => simp [ActionOccurrence.toInstance, htarget] at hcap
  · rw [ActionInstance.config, Value.get, Value.asObject, Option.bind_some,
      lookup_jsonObject (by simp)]
    simp [ActionOccurrence.toInstance]
  · rw [ActionInstance.config, Value.get, Value.asObject, Option.bind_some,
      lookup_jsonObject (by simp)]
    simp [List.lookup_cons]
  · intro key
    exact lookup_mapToJsonMap _ _

/-- From the port of a place there is one edge, to the node of the place. -/
theorem filter_edges (h : ReadBack spec initialState graph)
    (hnodup : (spec.occurrences.map ActionOccurrence.portId).Nodup) {p : ActionPlace}
    (hp : (spec.actionAt p).isSome) :
    graph.edges.filter (fun edge => edge.sourcePortId = some (spec.portAt p)) =
      [⟨smNodeId spec, spec.nodeAt p, some (spec.portAt p), none, none⟩] := by
  obtain ⟨action, hat⟩ := Option.isSome_iff_exists.mp hp
  obtain ⟨o, ho, hport, -, hnode⟩ := WorkflowSpec.exists_occurrence hat
  rw [h.edges_eq, List.filter_map, ← hport, ← hnode]
  have hfilter : spec.occurrences.filter ((fun edge : WorkflowEdge =>
      decide (edge.sourcePortId = some o.portId)) ∘ fun o => compiledEdge spec o.portId o.nodeId) =
        [o] := by
    rw [← filter_eq_singleton hnodup ho]
    apply List.filter_congr
    intro o' _
    simp [compiledEdge]
  rw [hfilter]
  rfl

theorem mirrors (h : ReadBack spec initialState graph) (hids : validateSanitizedIds spec = .ok ()) :
    Mirrors spec graph.normalize (smNodeId spec) (compiledConfig spec initialState) spec.portAt
      spec.nodeAt := by
  obtain ⟨hports, hnodes⟩ := validateSanitizedIds_eq_ok.mp hids
  obtain ⟨config, hmachine, hconfig⟩ := h.lookup_machine
  refine ⟨?_, ?_, ?_, ?_, ?_, fun p x => lists_compiledConfig p, ?_, ?_, h.validate_normalize⟩
  · intro id
    rw [hasType_normalize, h.hasType_iff]
    simp
  · rw [WorkflowGraph.lookup_normalize, hmachine]
    exact hconfig
  · simpa only [hasType_normalize] using h.bijOn_nodeAt hnodes
  · intro p action hat
    obtain ⟨definition, hlookup, hrest⟩ := h.exists_definition hat
    refine ⟨definition.normalize (spec.nodeAt p) definition.fallbackConnectionId, ?_, hrest⟩
    rw [WorkflowGraph.lookup_normalize, hlookup]
    rfl
  · intro p hp q hq heq
    obtain ⟨a, ha⟩ := Option.isSome_iff_exists.mp hp
    obtain ⟨b, hb⟩ := Option.isSome_iff_exists.mp hq
    exact WorkflowSpec.injOn_of_nodup (f := Prod.fst) hports ha hb heq
  · intro p hp
    exact h.filter_edges hports hp
  · intro edge hedge
    obtain ⟨o, ho, rfl⟩ := h.mem_edges.mp hedge
    obtain ⟨p, hat, hport, -⟩ := WorkflowSpec.exists_place ho
    exact ⟨p, Option.isSome_iff_exists.mpr ⟨_, hat⟩, congrArg some hport⟩

end ReadBack

/-- The graph of every specification that is compiled is accepted and mirrors it. -/
theorem compile_mirrors (h : compile ctx texts spec = .ok output) :
    ∃ graph machine config port node, WorkflowGraph.fromJson output = some (.ok graph) ∧
      Mirrors spec graph machine config port node := by
  rw [compile, bind_eq_ok] at h
  obtain ⟨initialState, hvalid, hbuild⟩ := h
  obtain ⟨-, -, -, hids, -⟩ := validateAll_eq_ok.mp hvalid
  obtain ⟨graph, hread, hback⟩ := deserialize_build hids hbuild
  refine ⟨graph.normalize, _, _, _, _, ?_, hback.mirrors hids⟩
  rw [WorkflowGraph.fromJson, hread, Option.map_some, hback.validate_normalize]
  rfl

end Mirror

theorem pressSpec_compile :
    (compile pressContext WorkflowSpec.asciiTexts pressSpec).toOption.isSome = true := by
  decide

/-- The graph of the press. -/
theorem pressSpec_mirrors : ∃ output graph machine config port node,
    compile pressContext WorkflowSpec.asciiTexts pressSpec = .ok output ∧
      WorkflowGraph.fromJson output = some (.ok graph) ∧
      Mirrors pressSpec graph machine config port node := by
  have h := eq_ok_of_get pressSpec_compile
  obtain ⟨graph, machine, config, port, node, hread, hmirrors⟩ := compile_mirrors h
  exact ⟨_, graph, machine, config, port, node, h, hread, hmirrors⟩

end Nazh
