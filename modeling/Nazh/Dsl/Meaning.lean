import Nazh.Dsl.Deployed
import Nazh.Graph.Bridges
import Nazh.Lib.Choice

/-!
# What is compiled means what is written

A specification says what a payload does: of the transitions that start in the state the first by
priority whose condition holds is taken, and the actions of the exit, of the transition and of the
entry are due. The graph that is compiled does the same, by other means: ports, routes and a
variable.
-/

namespace Nazh

open Lib

/-! ## What a specification means -/

namespace WorkflowSpec

variable (spec : WorkflowSpec) (E : ScriptEngine)

/-- The priority of a transition with its place. -/
def rank (t : TransitionSpec × ℕ) : ℕ := (t.1.priority.getD 0).toNat

/-- The transition starts in the state, or in any. -/
def startsIn (state : String) (t : TransitionSpec × ℕ) : Bool :=
  t.1.isWildcard || t.1.source == state

/-- The condition of a transition. -/
def ask (t : TransitionSpec × ℕ) (scope : E.Scope) : Except String Bool × E.Scope :=
  match E.compile defaultMaxOperations t.1.condition with
  | .ok ast => E.evalBool defaultMaxOperations ast scope
  | .error e => (.error e, scope)

/-- The transitions in the order in which they are asked: by falling priority, and as they are written
among equals. -/
def asked (state : String) : List (TransitionSpec × ℕ) :=
  (spec.transitions.zipIdx.insertionSort fun t u => rank u ≤ rank t).filter (startsIn state)

/-- The transition that is taken in a state: the first whose condition holds, if none before it
fails. -/
def chosen (state : String) (payload : Value) : Except String (Option (TransitionSpec × ℕ)) :=
  match E.payloadScope payload with
  | .error e => .error e
  | .ok scope => match firstAnswer (ask E) (spec.asked state) scope with
    | none => .ok none
    | some (_, .error e) => .error e
    | some (t, .ok _) => .ok (some t)

/-- The actions that are due when a transition is taken: those of the exit, its own, and those of the
entry. -/
def isDue (state : String) (t : TransitionSpec × ℕ) : ActionPlace → Bool
  | .exit name _ => name == state
  | .transition i => i == t.2
  | .entry name _ => name == t.1.target

/-- The state after a payload, and the nodes that get it. Without a transition it is broadcast. -/
def react (state : String) (payload : Value) : String × List String :=
  match spec.chosen E state payload with
  | .error _ => (state, [])
  | .ok none => (state, spec.places.map fun a => spec.nodeAt a.1)
  | .ok (some t) => (t.1.target, (spec.places.filter fun a => isDue state t a.1).map fun a =>
      spec.nodeAt a.1)

/-- The same for payloads that come one after another. -/
def run : String → List Value → List (Except EngineError String × List (String × Value))
  | _, [] => []
  | state, payload :: rest =>
      (.ok (spec.react E state payload).1, (spec.react E state payload).2.map fun id =>
        (id, payload)) :: run (spec.react E state payload).1 rest

end WorkflowSpec

namespace StateMachineNode

variable {E : ScriptEngine} (node : StateMachineNode E)

/-- What is seen of payloads that come one after another: the state after each, and to which nodes
it is pushed. -/
def runAlong (downstream : List DownstreamTarget) :
    Option WorkflowVariables → List (ℤ × Value) →
      List (Except EngineError String × List (String × Value))
  | _, [] => []
  | vars, (now, payload) :: rest =>
      let vars' := (node.transform vars now payload).2
      (node.readCurrentState vars', (node.delivered vars now payload downstream).map fun push =>
        (push.1.targetNodeId, push.2)) :: runAlong downstream vars' rest

end StateMachineNode

/-! ## The transition is the one that is meant -/

/-- A transition as the state machine has it. -/
def configOf (t : TransitionSpec × ℕ) : TransitionConfig :=
  ⟨t.1.source, t.1.target, t.1.condition, WorkflowSpec.rank t,
    t.1.action.map fun _ => transitionPort t.1 t.2⟩

theorem mem_of_firstAnswer {α σ ε : Type*} {ask : α → σ → Except ε Bool × σ} {xs : List α} {s : σ}
    {a : α} {answer : Except ε Bool} (h : firstAnswer ask xs s = some (a, answer)) : a ∈ xs := by
  have hmem : ∀ given ∈ answers ask xs s, given.1 ∈ xs := by
    clear h
    induction xs generalizing s with
    | nil => simp [answers]
    | cons x xs ih =>
        rw [answers]
        split
        · refine List.forall_mem_cons.mpr ⟨List.mem_cons_self, fun given hgiven => ?_⟩
          exact List.mem_cons_of_mem x (ih given hgiven)
        · simp
  exact hmem _ (List.mem_of_find?_eq_some h)

section Node

variable {E : ScriptEngine} {spec : WorkflowSpec} {initialState state : String}
  {node : StateMachineNode E} {payload : Value}

/-- The loop over compiled transitions asks their conditions. -/
theorem firstMatch_eq_firstAnswer (hmax : node.config.maxOperations = defaultMaxOperations)
    {pairs : List ((TransitionSpec × ℕ) × (TransitionConfig × E.Ast))}
    (hpairs : ∀ x ∈ pairs, StateMachineNode.Compiles E defaultMaxOperations (configOf x.1) x.2)
    (scope : E.Scope) :
    (node.firstMatch state (pairs.map Prod.snd) scope).toOption =
      match firstAnswer (WorkflowSpec.ask E)
        ((pairs.map Prod.fst).filter (WorkflowSpec.startsIn state)) scope with
      | none => some none
      | some (_, .error _) => none
      | some (t, .ok _) => some (some (configOf t)) := by
  induction pairs generalizing scope with
  | nil => rfl
  | cons x pairs ih =>
      obtain ⟨⟨trans, i⟩, ⟨transition, ast⟩⟩ := x
      obtain ⟨⟨htransition, hcompile⟩, hrest⟩ := List.forall_mem_cons.mp hpairs
      obtain rfl : transition = configOf (trans, i) := htransition
      have hask : WorkflowSpec.ask E (trans, i) = E.evalBool defaultMaxOperations ast := by
        funext scope
        rw [WorkflowSpec.ask]
        exact hcompile ▸ rfl
      have hsource : (configOf (trans, i)).source = trans.source := rfl
      simp only [List.map_cons, StateMachineNode.firstMatch, hmax, hsource]
      by_cases hstarts : trans.source ≠ "*" ∧ trans.source ≠ state
      · have hskip : ¬ WorkflowSpec.startsIn state (trans, i) = true := by
          simp [WorkflowSpec.startsIn, TransitionSpec.isWildcard, hstarts.1, hstarts.2]
        rw [if_pos hstarts, List.filter_cons_of_neg hskip, ih hrest]
      · have htake : WorkflowSpec.startsIn state (trans, i) = true := by
          simp only [WorkflowSpec.startsIn, TransitionSpec.isWildcard, Bool.or_eq_true,
            decide_eq_true_eq, beq_iff_eq]
          tauto
        rw [if_neg hstarts, List.filter_cons_of_pos htake, firstAnswer, answers, hask]
        rcases E.evalBool defaultMaxOperations ast scope with ⟨_ | _ | _, scope'⟩
        · rfl
        · exact ih hrest scope'
        · rfl

/-- The node takes the transition that is meant. -/
theorem toOption_evaluateTransitions
    (hnode : List.Forall₂ (StateMachineNode.Compiles E defaultMaxOperations)
      (spec.transitions.zipIdx.map configOf) node.transitions)
    (hmax : node.config.maxOperations = defaultMaxOperations) (state : String) (payload : Value) :
    (node.evaluateTransitions state payload).toOption =
      (spec.chosen E state payload).toOption.map (Option.map configOf) := by
  rw [List.forall₂_map_left_iff] at hnode
  have hlength := hnode.length_eq
  let pairs := spec.transitions.zipIdx.zip node.transitions
  have hpairs : ∀ x ∈ pairs, StateMachineNode.Compiles E defaultMaxOperations (configOf x.1) x.2 :=
    fun _ hx => (List.forall₂_iff_zip.mp hnode).2 hx
  have hfst : pairs.map Prod.fst = spec.transitions.zipIdx := List.map_fst_zip hlength.le
  have hsnd : pairs.map Prod.snd = node.transitions := List.map_snd_zip hlength.ge
  let sorted := pairs.insertionSort fun x y => WorkflowSpec.rank y.1 ≤ WorkflowSpec.rank x.1
  have hsorted : ∀ x ∈ sorted,
      StateMachineNode.Compiles E defaultMaxOperations (configOf x.1) x.2 := fun x hx =>
    hpairs x ((List.mem_insertionSort _).mp hx)
  have hcompiled : sorted.map Prod.snd = node.sortedTransitions := by
    rw [StateMachineNode.sortedTransitions, ← hsnd]
    refine List.map_insertionSort _ _ _ _ fun x hx y hy => ?_
    rw [(hpairs x hx).fst_eq, (hpairs y hy).fst_eq]
    rfl
  have hmeant : sorted.map Prod.fst =
      spec.transitions.zipIdx.insertionSort fun t u => WorkflowSpec.rank u ≤ WorkflowSpec.rank t := by
    rw [← hfst]
    exact List.map_insertionSort _ _ _ _ fun _ _ _ _ => Iff.rfl
  rw [StateMachineNode.evaluateTransitions, WorkflowSpec.chosen]
  cases hscope : E.payloadScope payload with
  | error e => rfl
  | ok scope =>
      dsimp only
      rw [← hcompiled, firstMatch_eq_firstAnswer hmax hsorted, hmeant, ← WorkflowSpec.asked]
      rcases firstAnswer (WorkflowSpec.ask E) (spec.asked state) scope with _ | ⟨t, _ | b⟩
      · rfl
      · rfl
      · rfl

/-- What is taken is one of the transitions. -/
theorem getElem?_of_chosen {t : TransitionSpec × ℕ}
    (h : spec.chosen E state payload = .ok (some t)) : spec.transitions[t.2]? = some t.1 := by
  rw [WorkflowSpec.chosen] at h
  split at h
  · cases h
  · split at h
    · cases h
    · cases h
    · rename_i hfirst
      cases h
      have hmem := List.mem_of_mem_filter (mem_of_firstAnswer hfirst)
      exact List.mem_zipIdx_iff_getElem?.mp ((List.mem_insertionSort _).mp hmem)

/-! ## The ports are those of the actions that are due -/

/-- The states of a configuration have different names. -/
theorem findState_eq_some (hconfig : node.config = compiledConfig spec initialState) {name : String}
    {c : StateConfig} : node.findState name = some c ↔ c ∈ node.config.states ∧ c.name = name := by
  have hnames : (node.config.states.map StateConfig.name).Nodup := by
    rw [hconfig, compiledConfig, List.map_map]
    exact spec.states.nodupKeys
  constructor
  · intro h
    exact ⟨List.mem_of_find?_eq_some h, by simpa using List.find?_some h⟩
  · rintro ⟨hc, hname⟩
    cases hfind : node.findState name with
    | none => simpa [hname] using List.find?_eq_none.mp hfind c hc
    | some c' =>
        have hname' : c'.name = name := by simpa using List.find?_some hfind
        rw [List.inj_on_of_nodup_map hnames (List.mem_of_find?_eq_some hfind) hc
          (hname'.trans hname.symm)]

theorem mem_portsOf {t : TransitionSpec × ℕ} {port : String}
    (hconfig : node.config = compiledConfig spec initialState)
    (ht : spec.transitions[t.2]? = some t.1) :
    port ∈ node.portsOf state (configOf t) ↔ ∃ p, WorkflowSpec.isDue state t p = true ∧
      (spec.actionAt p).isSome = true ∧ port = spec.portAt p := by
  have hstate (ports : StateConfig → List String) (name : String) :
      port ∈ ((node.findState name).map ports).getD [] ↔
        ∃ i : ℕ, ∃ c ∈ node.config.states, c.name = name ∧ (ports c)[i]? = some port := by
    cases hfind : node.findState name with
    | none =>
        refine iff_of_false (by simp) ?_
        rintro ⟨i, c, hc, hname, -⟩
        simpa [hfind] using (findState_eq_some hconfig).mpr ⟨hc, hname⟩
    | some c =>
        obtain ⟨hc, hname⟩ := (findState_eq_some hconfig).mp hfind
        rw [Option.map_some, Option.getD_some, List.mem_iff_getElem?]
        refine exists_congr fun i => ⟨fun hi => ⟨c, hc, hname, hi⟩, ?_⟩
        rintro ⟨c', hc', hname', hi⟩
        obtain rfl := Option.some.inj (hfind.symm.trans ((findState_eq_some hconfig).mpr
          ⟨hc', hname'⟩))
        exact hi
  have htransition : port ∈ (configOf t).actionPort.toList ↔
      (compiledConfig spec initialState).Lists (.transition t.2) port := by
    rw [Option.mem_toList, StateMachineConfig.Lists, compiledConfig,
      List.getElem?_map, List.getElem?_zipIdx, ht]
    simp [configOf]
  simp only [StateMachineNode.portsOf, List.mem_append, hstate, htransition]
  rw [hconfig]
  constructor
  · rintro ((⟨i, hexit⟩ | htransition) | ⟨i, hentry⟩)
    · exact ⟨.exit state i, by simp [WorkflowSpec.isDue], (lists_compiledConfig _).mp hexit⟩
    · exact ⟨.transition t.2, by simp [WorkflowSpec.isDue], (lists_compiledConfig _).mp htransition⟩
    · exact ⟨.entry t.1.target i, by simp [WorkflowSpec.isDue], (lists_compiledConfig _).mp hentry⟩
  · rintro ⟨p, hdue, hp⟩
    have hlists : (compiledConfig spec initialState).Lists p port := (lists_compiledConfig p).mpr hp
    cases p with
    | exit name i =>
        obtain rfl : name = state := by simpa [WorkflowSpec.isDue] using hdue
        exact .inl (.inl ⟨i, hlists⟩)
    | transition i =>
        obtain rfl : i = t.2 := by simpa [WorkflowSpec.isDue] using hdue
        exact .inl (.inr hlists)
    | entry name i =>
        obtain rfl : name = t.1.target := by simpa [WorkflowSpec.isDue] using hdue
        exact .inr ⟨i, hlists⟩

/-! ## A payload does what is meant -/

/-- The state variable has the type of a text and holds a state. -/
def StateMachineNode.InState (node : StateMachineNode E) (vars : WorkflowVariables)
    (state : String) : Prop :=
  ∃ entry, vars.inner.lookup node.stateVariableKey = some entry ∧
    entry.variableType = .string ∧ entry.value = .string state

theorem readCurrentState_eq {vars : WorkflowVariables} (h : node.InState vars state) :
    node.readCurrentState (some vars) = .ok state := by
  obtain ⟨entry, hentry, -, hvalue⟩ := h
  simp [StateMachineNode.readCurrentState, WorkflowVariables.getValue, hentry, hvalue, Value.asStr]

theorem exists_writeCurrentState {vars : WorkflowVariables} (h : node.InState vars state)
    (target : String) (now : ℤ) : ∃ vars',
      node.writeCurrentState (some vars) target now = .ok vars' ∧ node.InState vars' target := by
  obtain ⟨entry, hentry, htype, -⟩ := h
  refine ⟨⟨vars.inner.insert node.stateVariableKey
    { entry with value := .string target, updatedAt := now, updatedBy := none }⟩, ?_, ?_⟩
  · simp [StateMachineNode.writeCurrentState, WorkflowVariables.set, hentry, htype,
      PinType.matchesValue]
  · exact ⟨_, AList.lookup_insert _, htype, rfl⟩

/-- A node and its edges, as they are compiled from a specification. -/
structure Compiled (spec : WorkflowSpec) (initialState : String) (node : StateMachineNode E)
    (downstream : List DownstreamTarget) : Prop where
  config_eq : node.config = compiledConfig spec initialState
  transitions : List.Forall₂ (StateMachineNode.Compiles E defaultMaxOperations)
    (spec.transitions.zipIdx.map configOf) node.transitions
  downstream : downstream.map (fun target => (target.sourcePortId, target.targetNodeId)) =
    spec.places.map fun a => (some (spec.portAt a.1), spec.nodeAt a.1)
  ports_inj : ∀ a ∈ spec.places, ∀ b, (spec.actionAt b).isSome = true →
    spec.portAt a.1 = spec.portAt b → a.1 = b

variable {downstream : List DownstreamTarget}

/-- A route reaches the nodes of the actions that are due. -/
theorem Compiled.route (h : Compiled spec initialState node downstream) (state : String)
    {t : TransitionSpec × ℕ}    (ht : spec.transitions[t.2]? = some t.1) :
    (matchingTargets (.route (node.portsOf state (configOf t))) downstream []).map
        DownstreamTarget.targetNodeId =
      (spec.places.filter fun a => WorkflowSpec.isDue state t a.1).map fun a =>
        spec.nodeAt a.1 := by
  let routed : Option String × String → Bool := fun edge =>
    edge.1.any fun port => (node.portsOf state (configOf t)).any fun other => other == port
  have hmatching : matchingTargets (.route (node.portsOf state (configOf t))) downstream [] =
      downstream.filter (routed ∘ fun target => (target.sourcePortId, target.targetNodeId)) := by
    refine List.filter_congr fun target _ => ?_
    cases hport : target.sourcePortId <;> simp [NodeDispatch.pushes, routed, hport]
  have hdue : ∀ a ∈ spec.places, routed (some (spec.portAt a.1), spec.nodeAt a.1) =
      WorkflowSpec.isDue state t a.1 := by
    intro a ha
    have hat : (spec.actionAt a.1).isSome = true :=
      Option.isSome_iff_exists.mpr ⟨a.2, WorkflowSpec.mem_places.mp ha⟩
    rw [Bool.eq_iff_iff]
    simp only [routed, Option.any_some, List.any_eq_true, beq_iff_eq, exists_eq_right,
      mem_portsOf h.config_eq ht]
    constructor
    · rintro ⟨p, hp, hsome, hport⟩
      rwa [h.ports_inj a ha p hsome hport]
    · exact fun hp => ⟨a.1, hp, hat, rfl⟩
  calc (matchingTargets (.route (node.portsOf state (configOf t))) downstream []).map
        DownstreamTarget.targetNodeId
      = ((downstream.map fun target => (target.sourcePortId, target.targetNodeId)).filter
          routed).map Prod.snd := by rw [hmatching, List.filter_map, List.map_map]; rfl
    _ = _ := by
        rw [h.downstream, List.filter_map, List.map_map]
        exact congrArg (List.map _) (List.filter_congr hdue)

/-- One payload: the state and the pushes are as they are meant. -/
theorem Compiled.step (h : Compiled spec initialState node downstream) {vars : WorkflowVariables}
    (hstate : node.InState vars state) (now : ℤ) (payload : Value) :
    ∃ vars', (node.transform (some vars) now payload).2 = some vars' ∧
      node.InState vars' (spec.react E state payload).1 ∧
      (node.delivered (some vars) now payload downstream).map
          (fun push => (push.1.targetNodeId, push.2)) =
        (spec.react E state payload).2.map fun id => (id, payload) := by
  have hmax : node.config.maxOperations = defaultMaxOperations := by rw [h.config_eq]; rfl
  have hevaluate := toOption_evaluateTransitions h.transitions hmax state payload
  have hnodes : downstream.map DownstreamTarget.targetNodeId =
      spec.places.map fun a => spec.nodeAt a.1 := by
    simpa [Function.comp_def] using congrArg (List.map Prod.snd) h.downstream
  rw [StateMachineNode.delivered, StateMachineNode.transform, readCurrentState_eq hstate,
    WorkflowSpec.react]
  dsimp only
  cases hchosen : spec.chosen E state payload with
  | error e =>
      rw [hchosen] at hevaluate
      cases hresult : node.evaluateTransitions state payload with
      | ok found => simp [hresult, Except.toOption] at hevaluate
      | error e => exact ⟨vars, rfl, hstate, rfl⟩
  | ok found =>
      rw [hchosen] at hevaluate
      rw [toOption_eq_some.mp hevaluate]
      cases found with
      | none =>
          refine ⟨vars, rfl, hstate, ?_⟩
          simp [RunNode.pushes, NodeExecution.broadcast, RunNode.isDataOnly, RunNode.targets,
            outputIsDataOnly_nil, ← hnodes, Function.comp_def]
      | some t =>
          obtain ⟨vars', hwrite, hstate'⟩ := exists_writeCurrentState hstate t.1.target now
          have hroute := h.route state (getElem?_of_chosen hchosen)
          have htarget : (configOf t).target = t.1.target := rfl
          simp only [Option.map_some, htarget, hwrite]
          refine ⟨vars', rfl, hstate', ?_⟩
          simp [RunNode.pushes, NodeExecution.fromOutputs, RunNode.isDataOnly, RunNode.targets,
            outputIsDataOnly_nil, ← hroute, Function.comp_def]

/-- The same for a run of payloads. -/
theorem Compiled.runAlong (h : Compiled spec initialState node downstream)
    {vars : WorkflowVariables} (hstate : node.InState vars state) (payloads : List (ℤ × Value)) :
    node.runAlong downstream (some vars) payloads =
      spec.run E state (payloads.map Prod.snd) := by
  induction payloads generalizing vars state with
  | nil => rfl
  | cons first rest ih =>
      obtain ⟨now, payload⟩ := first
      obtain ⟨vars', htransform, hstate', hpushed⟩ := h.step hstate now payload
      rw [StateMachineNode.runAlong, List.map_cons, WorkflowSpec.run]
      simp only [htransform, readCurrentState_eq hstate', hpushed, ih hstate']

end Node

/-! ## The graph that was compiled -/

section Graph

variable {env : DeployEnv} {registry : Registry} {ctx : CompilerContext} {texts : SpecTexts}
  {spec : WorkflowSpec} {initialState : String} {output : Value} {graph : WorkflowGraph}
  {p : Prepared} {vars : WorkflowVariables}

theorem map_occurrences (spec : WorkflowSpec) :
    spec.occurrences.map (fun o => (some o.portId, o.nodeId)) =
      spec.places.map fun a => (some (spec.portAt a.1), spec.nodeAt a.1) := by
  let ends : String × ActionSpec → Option String × String := fun x =>
    (some x.1, sanitizeNodeId s!"cap_{x.2.target.id}_{x.1}")
  have hends := congrArg (List.map ends) (@WorkflowSpec.occurrences_map spec)
  rw [List.map_map, List.map_map] at hends
  refine Eq.trans hends (List.map_congr_left fun a ha => ?_)
  simp [ends, WorkflowSpec.nodeAt, WorkflowSpec.mem_places.mp ha]

/-- The loop of the state machine. -/
abbrev machineLoop (p : Prepared) (graph : WorkflowGraph) (spec : WorkflowSpec) : RunNode :=
  p.loop graph (smNodeId spec)

/-- All edges push, and each leads to a node with a channel. -/
theorem CompiledGraph.downstream (h : CompiledGraph ctx spec initialState graph)
    (hcreate : env.create = registry.create) (hp : p.Of env graph)
    {node : StateMachineNode registry.engine}
    (hnew : StateMachineNode.new registry.engine (smNodeId spec)
      (compiledConfig spec initialState) = .ok node) :
    (machineLoop p graph spec).downstreamSenders.map
        (fun target => (target.sourcePortId, target.targetNodeId)) =
      spec.places.map fun a => (some (spec.portAt a.1), spec.nodeAt a.1) := by
  obtain ⟨-, -, hports, -⟩ := StateMachineNode.of_new hnew
  have hroot : p.nodes.lookup (smNodeId spec) =
      some ⟨node.id, [.defaultInput], node.outputPins⟩ := by
    rw [hp.nodes, h.madeOf_machine hcreate, hnew]
    rfl
  have hkind : ∀ edge ∈ graph.edges, kindOf p.nodes edge = some .exec ∧
      edge.source = smNodeId spec := by
    intro edge hedge
    rw [h.edges_eq] at hedge
    obtain ⟨o, ho, rfl⟩ := List.mem_map.mp hedge
    have hport : o.portId ∈ node.actionPorts :=
      hports ▸ portId_mem_collectActionPorts ho initialState
    refine ⟨?_, rfl⟩
    rw [kindOf, show (compiledEdge spec o.portId o.nodeId).source = smNodeId spec from rfl, hroot,
      Option.bind_some]
    exact congrArg (Option.map _) (StateMachineNode.findPin_outputPins hport)
  have hexec : p.classified.execEdges = graph.edges := by
    rw [show p.classified.execEdges = p.classified.ofKind .exec from rfl,
      ofKind_eq_filter hp.classified]
    exact List.filter_eq_self.mpr fun edge hedge => by simp [(hkind edge hedge).1]
  have hreactive : p.classified.reactiveEdges = [] := by
    rw [show p.classified.reactiveEdges = p.classified.ofKind .reactive from rfl,
      ofKind_eq_filter hp.classified]
    exact List.filter_eq_nil_iff.mpr fun edge hedge => by simp [(hkind edge hedge).1]
  have hdownstream : p.topology.downstream (smNodeId spec) = graph.edges := by
    rw [hp.downstream, ClassifiedEdges.pushed, hexec, hreactive, List.append_nil]
    exact List.filter_eq_self.mpr fun edge hedge => by simp [(hkind edge hedge).2]
  have htargets : ∀ o ∈ spec.occurrences, (downstreamTarget graph.channelOf ∘ fun o =>
      compiledEdge spec o.portId o.nodeId) o =
        some ⟨some o.portId, (graph.channelOf o.nodeId).getD 0, o.nodeId, .block⟩ := by
    intro o ho
    obtain ⟨ch, hch⟩ := WorkflowGraph.exists_channelOf ((h.mem_nodes _).mpr (.inr ⟨o, ho, rfl⟩))
    simp [downstreamTarget, compiledEdge, hch]
  simp only [machineLoop, Prepared.loop]
  rw [hdownstream, h.edges_eq, List.filterMap_map, List.filterMap_congr htargets,
    List.filterMap_eq_map', List.map_map]
  exact map_occurrences spec

/-- The graph of a specification does what the specification means: after every payload the state
machine is in the state that is meant, and the payload goes to the nodes of the actions that are due.
If no transition is taken, it goes to all of them. -/
theorem compile_runs (h : compile ctx texts spec = .ok output)
    (hread : WorkflowGraph.fromJson output = some (.ok graph))
    (hcreate : env.create = registry.create) (hp : prepare env graph = .ok p)
    (hvars : buildWorkflowVariables graph.declarations env.now = .ok vars) :
    ∃ initialState node, determineInitialState spec = .ok initialState ∧
      ((graph.nodes.lookup (smNodeId spec)).bind fun definition =>
        StateMachineConfig.fromJson definition.config) = some node.config ∧
      StateMachineNode.new registry.engine (smNodeId spec) node.config = .ok node ∧
      ∀ payloads, node.runAlong (machineLoop p graph spec).downstreamSenders (some vars) payloads =
        spec.run registry.engine initialState (payloads.map Prod.snd) := by
  obtain ⟨initialState, graph', hinitial, -, hids, hread', hgraph⟩ := compile_graph h
  obtain rfl : graph = graph' := Except.ok.inj (Option.some.inj (hread.symm.trans hread'))
  have hmade := (prepare_isOk.mp ⟨p, hp⟩).made
  obtain ⟨node, hnew⟩ : ∃ node, StateMachineNode.new registry.engine (smNodeId spec)
      (compiledConfig spec initialState) = .ok node :=
    (StateMachineNode.exists_new (Nat.succ_ne_zero _)).mpr
      ((CompiledGraph.forall_transitions fun condition =>
        ∃ ast, registry.engine.compile defaultMaxOperations condition = .ok ast).mpr
          ((hgraph.made_iff hcreate).mp hmade).scripts)
  obtain ⟨hid, hconfig, -, htransitions⟩ := StateMachineNode.of_new hnew
  obtain ⟨definition, hlookup, -, -, hdefinition⟩ := hgraph.machine
  obtain ⟨vars', hvars', hstate⟩ := hgraph.exists_variables env.now
  obtain rfl := Except.ok.inj (hvars.symm.trans hvars')
  have hcompiled : Compiled spec initialState node (machineLoop p graph spec).downstreamSenders := by
    refine ⟨hconfig, htransitions, hgraph.downstream hcreate (of_prepare hp) hnew, ?_⟩
    intro a ha b hb hport
    obtain ⟨action, haction⟩ := Option.isSome_iff_exists.mp hb
    exact WorkflowSpec.injOn_of_nodup (f := Prod.fst) (validateSanitizedIds_eq_ok.mp hids).1
      (WorkflowSpec.mem_places.mp ha) haction hport
  have hin : node.InState vars initialState :=
    ⟨_, by rw [StateMachineNode.stateVariableKey, hid]; exact hstate, rfl, rfl⟩
  refine ⟨initialState, node, hinitial, ?_, hconfig ▸ hnew, fun payloads =>
    hcompiled.runAlong hin payloads⟩
  rw [hlookup, Option.bind_some, hdefinition, hconfig]

end Graph

/-- The press does what is written. -/
theorem pressCycle_runs : ∃ graph p vars initialState,
    ∃ node : StateMachineNode StateMachineNode.wordEngine,
      prepare pressEnv graph = .ok p ∧ determineInitialState pressCycle = .ok initialState ∧
      ∀ payloads, node.runAlong (machineLoop p graph pressCycle).downstreamSenders (some vars)
          payloads = pressCycle.run StateMachineNode.wordEngine initialState (payloads.map Prod.snd) := by
  have h := eq_ok_of_get pressCycle_compile
  obtain ⟨_, graph, -, -, -, hread, hgraph⟩ := compile_graph h
  obtain ⟨p, hp⟩ := prepare_isOk.mpr
    ((@CompiledGraph.deployable_iff pressEnv pressRegistry _ _ _ _ hgraph rfl rfl rfl).mpr
      pressCycle_supported)
  obtain ⟨vars, hvars, -⟩ := hgraph.exists_variables pressEnv.now
  obtain ⟨initialState, node, hinitial, -, -, hruns⟩ :=
    @compile_runs pressEnv pressRegistry _ _ _ _ _ _ _ h hread rfl hp hvars
  exact ⟨graph, p, vars, initialState, node, hp, hinitial, hruns⟩

end Nazh
