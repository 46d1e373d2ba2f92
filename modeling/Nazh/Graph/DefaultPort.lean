import Nazh.Graph.Emit
import Nazh.Graph.Pull

/-!
# Ports that are not given

An edge that does not say from which port it starts starts from `out`, and one that does not
say where it ends ends at `in`. A graph with these ports written out is prepared and deployed
like the graph itself: the ports are read with the default by the check on pins, the
classification, the lookup of kinds and the index of the pull.

The loop of a node reads them without it. An edge that does not say `out` is not among those an
output is routed to.
-/

namespace Nazh

open Lib

/-! ## Ports written out -/

namespace WorkflowEdge

/-- The edge with both ports. -/
def normal (edge : WorkflowEdge) : WorkflowEdge :=
  { edge with sourcePortId := some edge.sourcePin, targetPortId := some edge.targetPin }

/-- Some ports that were not given are the default ones. -/
structure Fills (edge edge' : WorkflowEdge) : Prop where
  source : edge'.source = edge.source
  target : edge'.target = edge.target
  policy : edge'.backpressurePolicy = edge.backpressurePolicy
  sourcePort : edge'.sourcePortId = edge.sourcePortId ∨
    edge.sourcePortId = none ∧ edge'.sourcePortId = some defaultOutputPinId
  targetPort : edge'.targetPortId = edge.targetPortId ∨
    edge.targetPortId = none ∧ edge'.targetPortId = some defaultInputPinId

variable (edge : WorkflowEdge)

@[simp] theorem source_normal : edge.normal.source = edge.source := rfl
@[simp] theorem target_normal : edge.normal.target = edge.target := rfl
@[simp] theorem ends_normal : edge.normal.ends = edge.ends := rfl
@[simp] theorem sourcePin_normal : edge.normal.sourcePin = edge.sourcePin := rfl
@[simp] theorem targetPin_normal : edge.normal.targetPin = edge.targetPin := rfl
@[simp] theorem dataInEdge_normal : edge.normal.dataInEdge = edge.dataInEdge := rfl

theorem fills_normal : edge.Fills edge.normal where
  source := rfl
  target := rfl
  policy := rfl
  sourcePort := by cases h : edge.sourcePortId <;> simp [normal, sourcePin, h]
  targetPort := by cases h : edge.targetPortId <;> simp [normal, targetPin, h]

variable {edge}

/-- An edge with some ports filled in is the same edge when all of them are. -/
theorem Fills.normal_eq {edge' : WorkflowEdge} (h : edge.Fills edge') : edge'.normal = edge.normal := by
  have hsource : edge'.sourcePin = edge.sourcePin := by
    rcases h.sourcePort with heq | ⟨hnone, hsome⟩
    · rw [sourcePin, sourcePin, heq]
    · rw [sourcePin, sourcePin, hnone, hsome]
      rfl
  have htarget : edge'.targetPin = edge.targetPin := by
    rcases h.targetPort with heq | ⟨hnone, hsome⟩
    · rw [targetPin, targetPin, heq]
    · rw [targetPin, targetPin, hnone, hsome]
      rfl
  rw [normal, normal, hsource, htarget, h.source, h.target, h.policy]

end WorkflowEdge

/-- The edges with all ports. -/
def ClassifiedEdges.normal (classified : ClassifiedEdges) : ClassifiedEdges where
  execEdges := classified.execEdges.map WorkflowEdge.normal
  dataEdges := classified.dataEdges.map WorkflowEdge.normal
  reactiveEdges := classified.reactiveEdges.map WorkflowEdge.normal

def WorkflowTopology.normal (t : WorkflowTopology) : WorkflowTopology :=
  { t with downstream := fun n => (t.downstream n).map WorkflowEdge.normal }

def Prepared.normal (p : Prepared) : Prepared := ⟨p.nodes, p.classified.normal, p.topology.normal⟩

/-- The same graph with other edges. -/
def WorkflowGraph.withEdges (graph : WorkflowGraph) (edges : List WorkflowEdge) : WorkflowGraph :=
  { graph with edges }

/-! ## The checks -/

variable {nodes : NodeIndex} {edges edges' : List WorkflowEdge} {graph : WorkflowGraph}

theorem pushed_normal (classified : ClassifiedEdges) :
    classified.normal.pushed = classified.pushed.map WorkflowEdge.normal := by
  rw [ClassifiedEdges.pushed, ClassifiedEdges.pushed, List.map_append]
  rfl

/-- The topology does not see the ports. -/
theorem topologyForEdges_normal (graph : WorkflowGraph) (es edges : List WorkflowEdge) :
    (graph.withEdges es).topologyForEdges (edges.map WorkflowEdge.normal) =
      (graph.topologyForEdges edges).map WorkflowTopology.normal := by
  have hends : (edges.map WorkflowEdge.normal).map WorkflowEdge.ends = edges.map WorkflowEdge.ends := by
    rw [List.map_map]
    rfl
  have hchecked : (edges.map WorkflowEdge.normal).forM (graph.withEdges es).checkEndpoints =
      edges.forM graph.checkEndpoints := forM_map (fun _ => rfl) edges
  rw [WorkflowGraph.topologyForEdges, WorkflowGraph.topologyForEdges, hends, hchecked]
  refine bind_eq_map_self rfl fun _ => bind_eq_map_self rfl fun _ => ?_
  have hdownstream : (fun n => (edges.map WorkflowEdge.normal).filter fun edge => edge.source = n) =
      fun n => (edges.filter fun edge => edge.source = n).map WorkflowEdge.normal := by
    funext n
    rw [List.filter_map]
    rfl
  rw [hdownstream]
  rfl

theorem createNodes_withEdges (env : DeployEnv) (es : List WorkflowEdge) (ids : List String)
    (index : NodeIndex) :
    createNodes env (graph.withEdges es) ids index = createNodes env graph ids index := by
  induction ids generalizing index with
  | nil => rfl
  | cons id rest ih =>
      simp only [createNodes, ih]
      rfl

/-- The check on pins reads the ports with the default. -/
theorem validatePinCompatibility_normal (nodes : NodeIndex) (edges : List WorkflowEdge) :
    validatePinCompatibility nodes (edges.map WorkflowEdge.normal) =
      validatePinCompatibility nodes edges := by
  have hpins : (edges.map WorkflowEdge.normal).forM (checkEdgePins nodes) =
      edges.forM (checkEdgePins nodes) := forM_map (fun _ => rfl) edges
  have hcovered : checkCovered (edges.map WorkflowEdge.normal) = checkCovered edges := by
    funext nodeId pin
    rw [checkCovered, checkCovered, List.any_map]
    rfl
  rw [validatePinCompatibility, validatePinCompatibility, hpins, hcovered]

/-- So does the classification. -/
theorem classifyEdges_normal (nodes : NodeIndex) (edges : List WorkflowEdge) :
    classifyEdges nodes (edges.map WorkflowEdge.normal) =
      (classifyEdges nodes edges).map ClassifiedEdges.normal := by
  induction edges with
  | nil => rfl
  | cons edge rest ih =>
      rw [List.map_cons, classifyEdges, classifyEdges]
      refine bind_eq_map_self rfl fun pin => bind_eq_map ih fun classified => ?_
      cases pin.kind <;> rfl

theorem detectNonExecEdgeCycle_normal (classified : ClassifiedEdges) :
    detectNonExecEdgeCycle classified.normal = detectNonExecEdgeCycle classified := by
  have hcombined : classified.normal.combined = classified.combined.map WorkflowEdge.normal := by
    rw [ClassifiedEdges.combined, ClassifiedEdges.combined, List.map_append]
    rfl
  have hends : (classified.combined.map WorkflowEdge.normal).map WorkflowEdge.ends =
      classified.combined.map WorkflowEdge.ends := by
    rw [List.map_map]
    rfl
  have hnodes : involvedNodes (classified.combined.map WorkflowEdge.normal) =
      involvedNodes classified.combined := by
    rw [involvedNodes, involvedNodes, List.flatMap_map]
    rfl
  rw [detectNonExecEdgeCycle, detectNonExecEdgeCycle, hcombined, hends, hnodes, List.isEmpty_map]

/-- The kinds that are looked up for the edges. -/
def edgeKinds (nodes : NodeIndex) (edges : List WorkflowEdge) : Except EngineError (List PinKind) :=
  (edges.mapM (edgeKindLookup nodes)).map (List.map Prod.snd)

/-- A kind is looked up under the port with the default. -/
theorem edgeKindLookup_normal (nodes : NodeIndex) (edges : List WorkflowEdge) :
    (edges.map WorkflowEdge.normal).mapM (edgeKindLookup nodes) =
      (edges.mapM (edgeKindLookup nodes)).map (List.map fun r =>
        ((r.1.1, some (r.1.2.getD defaultOutputPinId)), r.2)) := by
  apply mapM_map
  intro edge
  exact bind_eq_map_self rfl fun _ => rfl

theorem edgeKinds_normal (nodes : NodeIndex) (edges : List WorkflowEdge) :
    edgeKinds nodes (edges.map WorkflowEdge.normal) = edgeKinds nodes edges := by
  rw [edgeKinds, edgeKinds, edgeKindLookup_normal]
  cases edges.mapM (edgeKindLookup nodes) with
  | error e => rfl
  | ok kinds => simp [Except.map, Function.comp_def]

/-- A graph with its ports written out is prepared like the graph. -/
theorem prepare_normal (env : DeployEnv) (graph : WorkflowGraph) :
    prepare env (graph.withEdges (graph.edges.map WorkflowEdge.normal)) =
      (prepare env graph).map Prepared.normal := by
  rw [prepare, prepare]
  refine bind_eq_map (topologyForEdges_normal graph _ graph.edges) fun structural => ?_
  refine bind_eq_map_self rfl fun _ => bind_eq_map_self rfl fun _ => ?_
  refine bind_eq_map_self (createNodes_withEdges ..) fun nodes => ?_
  refine bind_eq_map_self (validatePinCompatibility_normal nodes graph.edges) fun _ => ?_
  refine bind_eq_map (classifyEdges_normal nodes graph.edges) fun classified => ?_
  refine bind_eq_map_self (detectNonExecEdgeCycle_normal classified) fun _ => ?_
  have htopology := topologyForEdges_normal graph (graph.edges.map WorkflowEdge.normal)
    classified.pushed
  rw [← pushed_normal] at htopology
  refine bind_eq_map htopology fun topology => bind_eq_map_self rfl fun _ => ?_
  exact bind_eq_map (edgeKindLookup_normal nodes graph.edges) fun _ => rfl

/-! ## The loops -/

/-- The target with its port. -/
def DownstreamTarget.normal (target : DownstreamTarget) : DownstreamTarget :=
  { target with sourcePortId := some (target.sourcePortId.getD defaultOutputPinId) }

/-- The loop with the ports of all its edges. -/
def RunNode.normal (cfg : RunNode) : RunNode :=
  { cfg with downstreamSenders := cfg.downstreamSenders.map DownstreamTarget.normal }

def Task.normal : Task → Task
  | .node cfg pc => .node cfg.normal pc
  | t => t

def Deployment.normal (d : Deployment) : Deployment := { d with tasks := d.tasks.map Task.normal }

namespace Prepared

variable {p : Prepared} {env : DeployEnv}

def Spawned.normal (s : Spawned) : Spawned := { s with tasks := s.tasks.map Task.normal }

/-- The handles do not see the ports. -/
theorem startNodes_normal (es : List WorkflowEdge) (ids : List String) :
    p.normal.startNodes env (graph.withEdges es) ids = p.startNodes env graph ids := by
  induction ids with
  | nil => rfl
  | cons nodeId rest ih =>
      have htargets : (p.normal.topology.downstream nodeId).filterMap
          (emitTarget (graph.withEdges es).channelOf) =
          (p.topology.downstream nodeId).filterMap (emitTarget graph.channelOf) := by
        rw [show p.normal.topology.downstream nodeId =
          (p.topology.downstream nodeId).map WorkflowEdge.normal from rfl, List.filterMap_map]
        rfl
      rw [startNodes, startNodes, htargets, ih]
      rfl

theorem downstreamTarget_normal (senders : String → Option ℕ) (edges : List WorkflowEdge) :
    (edges.map WorkflowEdge.normal).filterMap (downstreamTarget senders) =
      (edges.filterMap (downstreamTarget senders)).map DownstreamTarget.normal := by
  rw [List.filterMap_map, List.map_filterMap]
  apply List.filterMap_congr
  intro edge _
  simp only [downstreamTarget, Function.comp_apply, Option.map_map]
  rfl

/-- The loops see the ports and nothing else of the change. -/
theorem spawnNodes_normal (p : Prepared) (graph : WorkflowGraph) (es : List WorkflowEdge)
    (ids : List String) (s : Spawned) :
    p.normal.spawnNodes (graph.withEdges es) ids s.normal =
      (p.spawnNodes graph ids s).map Spawned.normal := by
  induction ids generalizing s with
  | nil => rfl
  | cons nodeId rest ih =>
      rw [spawnNodes, spawnNodes]
      refine bind_eq_map_self rfl fun node => ?_
      by_cases hform : isPureForm node = true
      · rw [if_pos hform, if_pos hform]
        exact ih (s.retire nodeId)
      · rw [if_neg hform, if_neg hform]
        refine bind_eq_map_self rfl fun definition => bind_eq_map_self rfl fun inputRx => ?_
        have hspawn : ∀ cfg : RunNode, (s.spawn cfg nodeId).normal = s.normal.spawn cfg.normal nodeId := by
          intro cfg
          simp [Spawned.normal, Spawned.spawn, Task.normal]
        rw [← ih, hspawn]
        have htargets := downstreamTarget_normal s.senders (p.topology.downstream nodeId)
        rw [RunNode.normal, ← htargets]
        rfl

theorem deploy_normal (es : List WorkflowEdge) :
    p.normal.deploy env (graph.withEdges es) = (p.deploy env graph).map Deployment.normal := by
  rw [deploy, deploy]
  refine bind_eq_map_self (startNodes_normal es _) fun handles => ?_
  have hspawned := spawnNodes_normal p graph es p.topology.deploymentOrder
    ⟨graph.channelOf, graph.channelOf, graph.channels, []⟩
  refine bind_eq_map hspawned fun spawned => ?_
  have htasks : (spawned.tasks ++ [Task.collector graph.resultChannel .idle]).map Task.normal =
      spawned.tasks.map Task.normal ++ [Task.collector graph.resultChannel .idle] := List.map_append
  simp only [running, pure, Except.pure, Except.map, Deployment.normal, htasks]
  rfl

/-- An edge that pushes does not start from a data pin. -/
theorem sourcePort_notMem_data (hacc : p.Accepted graph) {nodeId : String} {cfg : RunNode}
    (hcfg : LoopOf p graph nodeId cfg) {target : DownstreamTarget}
    (htarget : target ∈ cfg.downstreamSenders) :
    target.sourcePortId.getD defaultOutputPinId ∉ dataOutputPinIds cfg.outputPins := by
  rw [hcfg.downstream] at htarget
  obtain ⟨edge, hedge, htarget⟩ := List.mem_filterMap.mp htarget
  obtain ⟨sender, -, rfl⟩ := Option.map_eq_some_iff.mp htarget
  obtain ⟨⟨-, hkind⟩, hsource⟩ := hacc.mem_downstream.mp hedge
  obtain ⟨node, hnode, -, hpins⟩ := hcfg.node
  have hnot : ¬ StartsFrom p.nodes edge .data := by
    intro hdata
    rcases hkind with hexec | hreactive
    · cases hdata.unique hexec
    · cases hdata.unique hreactive
  intro hmem
  apply hnot
  obtain ⟨pin, hpin, hid⟩ := List.mem_map.mp hmem
  obtain ⟨hpin, hdata⟩ := List.mem_filter.mp hpin
  rw [hpins] at hpin
  have hfind : findPin node.outputPins edge.sourcePin = some pin := by
    obtain ⟨kind, node', hnode', pin', hpin', -⟩ : ∃ kind, StartsFrom p.nodes edge kind := by
      rcases hkind with hexec | hreactive
      · exact ⟨_, hexec⟩
      · exact ⟨_, hreactive⟩
    rw [hsource] at hnode'
    obtain rfl := Option.mem_unique hnode' hnode
    obtain ⟨hmem', hid'⟩ := mem_of_findPin hpin'
    have hnodup := (hacc.compatible.nodup nodeId node' hnode).2
    rw [← List.inj_on_of_nodup_map hnodup hmem' hpin (hid'.trans hid.symm)]
    exact hpin'
  exact ⟨node, by rw [hsource]; exact hnode, pin, hfind, of_decide_eq_true hdata⟩

end Prepared

/-! ## Where an output goes -/

namespace RunNode

/-- For each edge whether the output is pushed along it, and whether it is a result. -/
def destinations (cfg : RunNode) (output : NodeOutput) : List Bool × Bool :=
  (cfg.downstreamSenders.map (output.dispatch.pushes (dataOutputPinIds cfg.outputPins)),
    (cfg.targets output.dispatch).isEmpty && !cfg.isDataOnly output)

/-- An output is routed to `out`, and an edge does not say that it starts there. -/
def RoutesPast (cfg : RunNode) (outputs : List NodeOutput) : Prop :=
  ∃ output ∈ outputs, ∃ ports, output.dispatch = .route ports ∧ defaultOutputPinId ∈ ports ∧
    ∃ target ∈ cfg.downstreamSenders, target.sourcePortId = none

variable {cfg : RunNode}

/-- An edge with its port is taken like the edge without, but by a route to `out`. -/
theorem pushes_normal_iff {dataPins : List String} {target : DownstreamTarget}
    (hport : target.sourcePortId.getD defaultOutputPinId ∉ dataPins) (dispatch : NodeDispatch) :
    dispatch.pushes dataPins target.normal = dispatch.pushes dataPins target ↔
      ¬ (target.sourcePortId = none ∧ ∃ ports, dispatch = .route ports ∧ defaultOutputPinId ∈ ports) := by
  cases hsource : target.sourcePortId with
  | some port =>
      have hsame : target.normal = target := by
        rw [DownstreamTarget.normal, hsource, Option.getD_some, ← hsource]
      simp [hsame]
  | none =>
      rw [hsource, Option.getD_none] at hport
      cases dispatch with
      | broadcast => simp [NodeDispatch.pushes, DownstreamTarget.normal, hsource, hport]
      | route ports =>
          have hany : (∀ port ∈ ports, ¬ port = defaultOutputPinId) ↔ defaultOutputPinId ∉ ports :=
            ⟨fun h hmem => h _ hmem rfl, fun h port hmem heq => h (heq ▸ hmem)⟩
          simpa [NodeDispatch.pushes, DownstreamTarget.normal, hsource, hport] using hany

/-- Where an output goes is told by the edges it is pushed along. -/
theorem destinations_congr {cfg' : RunNode} {output : NodeOutput}
    (hpins : cfg'.outputPins = cfg.outputPins)
    (h : (cfg'.destinations output).1 = (cfg.destinations output).1) :
    cfg'.destinations output = cfg.destinations output := by
  have hempty : ∀ c : RunNode, (c.targets output.dispatch).isEmpty =
      (c.destinations output).1.all (! ·) := by
    intro c
    rw [targets, matchingTargets, destinations, List.all_map]
    induction c.downstreamSenders with
    | nil => rfl
    | cons target rest ih =>
        rw [List.filter_cons, List.all_cons]
        cases hp : output.dispatch.pushes (dataOutputPinIds c.outputPins) target with
        | true => simp [hp]
        | false => simpa [hp] using ih
  have htargets : (cfg'.targets output.dispatch).isEmpty = (cfg.targets output.dispatch).isEmpty := by
    rw [hempty, hempty, h]
  have honly : cfg'.isDataOnly output = cfg.isDataOnly output := by
    simp only [isDataOnly, outputIsDataOnly, htargets, hpins]
  exact Prod.ext h (by rw [destinations, destinations, htargets, honly])

/-- With all ports an output goes where it went, unless it is routed past an edge. -/
theorem destinations_normal (hports : ∀ target ∈ cfg.downstreamSenders,
      target.sourcePortId.getD defaultOutputPinId ∉ dataOutputPinIds cfg.outputPins)
    (outputs : List NodeOutput) :
    outputs.map cfg.normal.destinations = outputs.map cfg.destinations ↔
      ¬ cfg.RoutesPast outputs := by
  have hfirst : ∀ output, cfg.normal.destinations output = cfg.destinations output ↔
      ∀ target ∈ cfg.downstreamSenders, output.dispatch.pushes (dataOutputPinIds cfg.outputPins)
        target.normal = output.dispatch.pushes (dataOutputPinIds cfg.outputPins) target := by
    intro output
    have hmap : (cfg.normal.destinations output).1 = cfg.downstreamSenders.map fun target =>
        output.dispatch.pushes (dataOutputPinIds cfg.outputPins) target.normal := by
      rw [destinations, normal, List.map_map]
      rfl
    constructor
    · intro h
      have hpushes := congrArg Prod.fst h
      rw [hmap] at hpushes
      exact List.map_inj_left.mp hpushes
    · intro h
      have hpins : cfg.normal.outputPins = cfg.outputPins := rfl
      apply destinations_congr hpins
      rw [hmap]
      exact List.map_inj_left.mpr h
  rw [List.map_inj_left]
  simp only [hfirst]
  constructor
  · rintro h ⟨output, houtput, ports, hdispatch, hout, target, htarget, hnone⟩
    exact (pushes_normal_iff (hports target htarget) output.dispatch).mp (h output houtput target htarget)
      ⟨hnone, ports, hdispatch, hout⟩
  · intro h output houtput target htarget
    rw [pushes_normal_iff (hports target htarget)]
    rintro ⟨hnone, ports, hdispatch, hout⟩
    exact h ⟨output, houtput, ports, hdispatch, hout, target, htarget, hnone⟩

end RunNode

/-! ## The graph with other ports -/

/-- The checks, the channels and the loops. -/
def deployWorkflow (env : DeployEnv) (graph : WorkflowGraph) :
    Except EngineError (Prepared × Deployment) := do
  let p ← prepare env graph
  let d ← p.deploy env graph
  return (p, d)

/-- Where the outputs go that the loop at a place among the tasks is given. -/
def Deployment.destinations (d : Deployment) (i : ℕ) (outputs : List NodeOutput) :
    Option (List (List Bool × Bool)) :=
  match d.tasks[i]? with
  | some (.node cfg _) => some (outputs.map cfg.destinations)
  | _ => none

/-- Edges are classified alike, the same pulls are made, and the outputs of a loop go along the
same edges or to the results. Edges are compared by their ports with the default. -/
structure SameUse (edges edges' : List WorkflowEdge) (i : ℕ) (outputs : List NodeOutput)
    (r r' : Prepared × Deployment) : Prop where
  classified : r'.1.classified.normal = r.1.classified.normal
  kinds : edgeKinds r'.1.nodes edges' = edgeKinds r.1.nodes edges
  nodes : r'.1.nodes = r.1.nodes
  index : buildEdgesByConsumer r'.1.classified.dataEdges = buildEdgesByConsumer r.1.classified.dataEdges
  destinations : r'.2.destinations i outputs = r.2.destinations i outputs

/-- Two attempts fail alike, or both succeed with what is related. -/
def Agree {α : Type} (R : α → α → Prop) : Except EngineError α → Except EngineError α → Prop
  | .ok a, .ok a' => R a a'
  | .error e, .error e' => e = e'
  | _, _ => False

variable {env : DeployEnv}

/-- A deployment and its preparation with all ports. -/
def withPorts (r : Prepared × Deployment) : Prepared × Deployment := (r.1.normal, r.2.normal)

theorem deployWorkflow_normal (env : DeployEnv) (graph : WorkflowGraph) :
    deployWorkflow env (graph.withEdges (graph.edges.map WorkflowEdge.normal)) =
      (deployWorkflow env graph).map withPorts := by
  refine bind_eq_map (prepare_normal env graph) fun p => ?_
  exact bind_eq_map (p.deploy_normal (graph.edges.map WorkflowEdge.normal)) fun d => rfl

theorem map_normal_of_fills (h : List.Forall₂ WorkflowEdge.Fills edges edges') :
    edges'.map WorkflowEdge.normal = edges.map WorkflowEdge.normal := by
  induction h with
  | nil => rfl
  | cons hedge _ ih => rw [List.map_cons, List.map_cons, ih, hedge.normal_eq]

theorem fills_map_normal (edges : List WorkflowEdge) :
    List.Forall₂ WorkflowEdge.Fills edges (edges.map WorkflowEdge.normal) := by
  rw [List.forall₂_map_right_iff]
  exact List.forall₂_same.mpr fun edge _ => edge.fills_normal

/-- With some ports written out a deployment is the same up to its ports. -/
theorem deployWorkflow_fills (env : DeployEnv)
    (h : List.Forall₂ WorkflowEdge.Fills graph.edges edges') :
    (deployWorkflow env (graph.withEdges edges')).map withPorts =
      (deployWorkflow env graph).map withPorts := by
  rw [← deployWorkflow_normal, ← deployWorkflow_normal, ← map_normal_of_fills h]
  rfl

/-- The index of the pull does not see the ports. -/
theorem buildEdgesByConsumer_normal (dataEdges : List WorkflowEdge) :
    buildEdgesByConsumer (dataEdges.map WorkflowEdge.normal) = buildEdgesByConsumer dataEdges := by
  rw [buildEdgesByConsumer, buildEdgesByConsumer, List.map_map]
  rfl

/-- What is the same of two deployments that are the same up to their ports. -/
theorem sameUse_of_withPorts (h : edges'.map WorkflowEdge.normal = edges.map WorkflowEdge.normal)
    {i : ℕ} {outputs : List NodeOutput} {r r' : Prepared × Deployment}
    (hports : withPorts r' = withPorts r)
    (hdestinations : r'.2.destinations i outputs = r.2.destinations i outputs) :
    SameUse edges edges' i outputs r r' := by
  have hp : r'.1.normal = r.1.normal := congrArg Prod.fst hports
  have hnodes : r'.1.normal.nodes = r.1.normal.nodes := congrArg Prepared.nodes hp
  have hclassified : r'.1.normal.classified = r.1.normal.classified := congrArg Prepared.classified hp
  refine ⟨hclassified, ?_, hnodes, ?_, hdestinations⟩
  · rw [show r'.1.nodes = r.1.nodes from hnodes, ← edgeKinds_normal, h, edgeKinds_normal]
  · have hdata : r'.1.classified.dataEdges.map WorkflowEdge.normal =
        r.1.classified.dataEdges.map WorkflowEdge.normal :=
      congrArg ClassifiedEdges.dataEdges hclassified
    rw [← buildEdgesByConsumer_normal, hdata, buildEdgesByConsumer_normal]

/-- A deployed loop is the loop of a node, and none of its edges starts from a data pin. -/
theorem loopOf_deployWorkflow {p : Prepared} {d : Deployment}
    (h : deployWorkflow env graph = .ok (p, d)) {cfg : RunNode} {pc : RunNode.Pc}
    (hcfg : Task.node cfg pc ∈ d.tasks) :
    p.Accepted graph ∧ ∃ nodeId, Prepared.LoopOf p graph nodeId cfg := by
  simp only [deployWorkflow, bind_eq_ok, pure_eq_ok, Prod.mk.injEq] at h
  obtain ⟨p, hprepare, d, hdeploy, rfl, rfl⟩ := h
  have hacc := Prepared.accepted_of_prepare hprepare
  obtain ⟨s, hs, rfl⟩ := hacc.deploy hdeploy
  rcases List.mem_append.mp hcfg with hcfg | hcfg
  · obtain ⟨nodeId, -, cfg', heq, hloop⟩ := hs.loops _ hcfg
    obtain ⟨rfl, -⟩ := Task.node.inj heq
    exact ⟨hacc, nodeId, hloop⟩
  · cases List.mem_singleton.mp hcfg

/-- An edge without a port that a deployed loop has is an edge of its node in the graph. -/
theorem exists_none_iff {p : Prepared} (hacc : p.Accepted graph) {nodeId : String} {cfg : RunNode}
    (hcfg : Prepared.LoopOf p graph nodeId cfg) :
    (∃ target ∈ cfg.downstreamSenders, target.sourcePortId = none) ↔
      ∃ edge ∈ graph.edges, edge.source = nodeId ∧ edge.sourcePortId = none ∧
        (StartsFrom p.nodes edge .exec ∨ StartsFrom p.nodes edge .reactive) := by
  rw [hcfg.downstream]
  constructor
  · rintro ⟨target, htarget, hnone⟩
    obtain ⟨edge, hedge, htarget⟩ := List.mem_filterMap.mp htarget
    obtain ⟨sender, -, rfl⟩ := Option.map_eq_some_iff.mp htarget
    obtain ⟨⟨hmem, hkind⟩, hsource⟩ := hacc.mem_downstream.mp hedge
    exact ⟨edge, hmem, hsource, hnone, hkind⟩
  · rintro ⟨edge, hmem, hsource, hnone, hkind⟩
    have hpushed : edge ∈ p.classified.pushed := hacc.mem_pushed.mpr ⟨hmem, hkind⟩
    obtain ⟨ch, hch⟩ := WorkflowGraph.exists_channelOf (hacc.ordered.ends_mem edge hpushed).2
    have hedge := hacc.mem_downstream.mpr ⟨⟨hmem, hkind⟩, hsource⟩
    refine ⟨⟨edge.sourcePortId, ch, edge.target, edge.backpressurePolicy.getD .block⟩,
      List.mem_filterMap.mpr ⟨edge, hedge, ?_⟩, hnone⟩
    rw [downstreamTarget, hch]
    rfl

/-- An edge that is not given a port by a filling was not given one before. -/
theorem exists_none_of_fills (h : List.Forall₂ WorkflowEdge.Fills edges edges')
    {nodeId : String} (hnone : ∃ edge ∈ edges', edge.source = nodeId ∧ edge.sourcePortId = none ∧
      (StartsFrom nodes edge .exec ∨ StartsFrom nodes edge .reactive)) :
    ∃ edge ∈ edges, edge.source = nodeId ∧ edge.sourcePortId = none ∧
      (StartsFrom nodes edge .exec ∨ StartsFrom nodes edge .reactive) := by
  obtain ⟨edge', hmem, rfl, hport, hkind⟩ := hnone
  obtain ⟨edge, hedge, hfills⟩ : ∃ edge ∈ edges, edge.Fills edge' := by
    induction h with
    | nil => cases hmem
    | cons hfills _ ih =>
        rcases List.mem_cons.mp hmem with rfl | hmem
        · exact ⟨_, List.mem_cons_self, hfills⟩
        · obtain ⟨edge, hedge, hfills⟩ := ih hmem
          exact ⟨edge, List.mem_cons_of_mem _ hedge, hfills⟩
  have hnone : edge.sourcePortId = none := by
    rcases hfills.sourcePort with heq | ⟨heq, -⟩
    · rw [← heq, hport]
    · exact heq
  have hstarts : ∀ kind, StartsFrom nodes edge' kind → StartsFrom nodes edge kind := by
    intro kind hstart
    have hpin : edge'.sourcePin = edge.sourcePin := by
      rw [← edge'.sourcePin_normal, hfills.normal_eq, edge.sourcePin_normal]
    rw [StartsFrom, hfills.source, hpin] at hstart
    exact hstart
  exact ⟨edge, hedge, hfills.source.symm, hnone, hkind.imp (hstarts _) (hstarts _)⟩

/-- The outputs of a loop go where they went, if they were not routed past an edge. -/
theorem destinations_of_fills (h : List.Forall₂ WorkflowEdge.Fills graph.edges edges')
    {r r' : Prepared × Deployment} (hr : deployWorkflow env graph = .ok r)
    (hr' : deployWorkflow env (graph.withEdges edges') = .ok r') (hports : withPorts r' = withPorts r)
    {i : ℕ} {outputs : List NodeOutput}
    (hpast : ∀ cfg pc, r.2.tasks[i]? = some (.node cfg pc) → ¬ cfg.RoutesPast outputs) :
    r'.2.destinations i outputs = r.2.destinations i outputs := by
  have htasks : (r'.2.tasks[i]?).map Task.normal = (r.2.tasks[i]?).map Task.normal := by
    rw [← List.getElem?_map, ← List.getElem?_map]
    exact congrArg (fun d : Prepared × Deployment => d.2.tasks[i]?) hports
  rw [Deployment.destinations, Deployment.destinations]
  cases hi : r.2.tasks[i]? with
  | none =>
      rw [hi, Option.map_none, Option.map_eq_none_iff] at htasks
      rw [htasks]
  | some t =>
      rw [hi, Option.map_some] at htasks
      obtain ⟨t', ht', hnormal⟩ := Option.map_eq_some_iff.mp htasks
      rw [ht']
      cases t with
      | node cfg pc =>
          cases t' with
          | node cfg' pc' =>
              obtain ⟨hcfg, -⟩ := Task.node.inj hnormal
              obtain ⟨hacc, nodeId, hloop⟩ := loopOf_deployWorkflow hr (List.mem_of_getElem? hi)
              obtain ⟨hacc', nodeId', hloop'⟩ := loopOf_deployWorkflow hr' (List.mem_of_getElem? ht')
              have hpast' : ¬ cfg'.RoutesPast outputs := by
                rintro ⟨output, houtput, ports, hdispatch, hout, hnone⟩
                have hrx : cfg'.normal.inputRx = cfg.normal.inputRx := congrArg RunNode.inputRx hcfg
                have hinput : graph.channelOf nodeId' = some cfg.normal.inputRx := by
                  rw [← hrx]
                  exact hloop'.input
                obtain rfl := WorkflowGraph.channelOf_injective hinput hloop.input
                have hp : r'.1.normal = r.1.normal := congrArg Prod.fst hports
                have hnodes : r'.1.nodes = r.1.nodes := by
                  rw [show r'.1.nodes = r'.1.normal.nodes from rfl, hp]
                  rfl
                have hedge := (exists_none_iff hacc' hloop').mp hnone
                rw [hnodes] at hedge
                have hgiven := (exists_none_iff hacc hloop).mpr (exists_none_of_fills h hedge)
                exact hpast cfg pc hi ⟨output, houtput, ports, hdispatch, hout, hgiven⟩
              have hmap := (RunNode.destinations_normal (fun _ =>
                Prepared.sourcePort_notMem_data hacc hloop) outputs).mpr (hpast cfg pc hi)
              have hmap' := (RunNode.destinations_normal (fun _ =>
                Prepared.sourcePort_notMem_data hacc' hloop') outputs).mpr hpast'
              change some (outputs.map cfg'.destinations) = some (outputs.map cfg.destinations)
              rw [← hmap, ← hmap', hcfg]
          | _ => cases hnormal
      | _ =>
          cases t' with
          | node cfg' pc' => cases hnormal
          | _ => rfl

/-- For every graph and every filling of ports that are not given: the graph is accepted, its
edges are classified and its data pulled as before, and the outputs of a loop go where they went,
if and only if none of them is routed to `out` past an edge without a port. -/
theorem default_port_iff (env : DeployEnv) (graph : WorkflowGraph) (i : ℕ)
    (outputs : List NodeOutput) :
    (∀ edges', List.Forall₂ WorkflowEdge.Fills graph.edges edges' →
      Agree (SameUse graph.edges edges' i outputs) (deployWorkflow env graph)
        (deployWorkflow env (graph.withEdges edges'))) ↔
    ∀ p d cfg pc, deployWorkflow env graph = .ok (p, d) → d.tasks[i]? = some (.node cfg pc) →
      ¬ cfg.RoutesPast outputs := by
  constructor
  · intro h p d cfg pc hok hcfg
    have hagree := h _ (fills_map_normal graph.edges)
    rw [deployWorkflow_normal, hok] at hagree
    have hsame : SameUse graph.edges (graph.edges.map WorkflowEdge.normal) i outputs (p, d)
      (withPorts (p, d)) := hagree
    obtain ⟨hacc, nodeId, hloop⟩ := loopOf_deployWorkflow hok (List.mem_of_getElem? hcfg)
    apply (RunNode.destinations_normal (fun _ => Prepared.sourcePort_notMem_data hacc hloop)
      outputs).mp
    have hcfg' : (withPorts (p, d)).2.tasks[i]? = some (.node cfg.normal pc) := by
      rw [show (withPorts (p, d)).2.tasks = d.tasks.map Task.normal from rfl, List.getElem?_map, hcfg]
      rfl
    have hdestinations := hsame.destinations
    rw [Deployment.destinations, Deployment.destinations, hcfg', hcfg] at hdestinations
    exact Option.some.inj hdestinations
  · intro h edges' hfills
    have hmap := deployWorkflow_fills env hfills
    cases hr : deployWorkflow env graph with
    | error e =>
        cases hr' : deployWorkflow env (graph.withEdges edges') with
        | error e' =>
            rw [hr, hr'] at hmap
            exact (Except.error.inj hmap).symm
        | ok r' =>
            rw [hr, hr'] at hmap
            cases hmap
    | ok r =>
        cases hr' : deployWorkflow env (graph.withEdges edges') with
        | error e' =>
            rw [hr, hr'] at hmap
            cases hmap
        | ok r' =>
            rw [hr, hr'] at hmap
            have hports : withPorts r' = withPorts r := Except.ok.inj hmap
            refine sameUse_of_withPorts (map_normal_of_fills hfills) hports ?_
            exact destinations_of_fills hfills hr hr' hports fun cfg pc => h r.1 r.2 cfg pc hr

/-- What a deployment does with the outputs of one of its loops. -/
def destinationsOf (env : DeployEnv) (graph : WorkflowGraph) (i : ℕ) (outputs : List NodeOutput) :
    Option (List (List Bool × Bool)) :=
  (deployWorkflow env graph).toOption.bind fun r => r.2.destinations i outputs

/-- An output routed to `out` is a result of the first of two nodes when the edge to the second
does not say where it starts, and is pushed along the edge when it says `out`. -/
theorem relay_routes_past :
    destinationsOf Prepared.plantEnv Prepared.relayGraph 0 [⟨.null, none, .route ["out"]⟩] =
      some [([false], true)] ∧
    destinationsOf Prepared.plantEnv (Prepared.relayGraph.withEdges
        (Prepared.relayGraph.edges.map WorkflowEdge.normal)) 0 [⟨.null, none, .route ["out"]⟩] =
      some [([true], false)] ∧
    ¬ ∀ edges', List.Forall₂ WorkflowEdge.Fills Prepared.relayGraph.edges edges' →
      Agree (SameUse Prepared.relayGraph.edges edges' 0 [⟨.null, none, .route ["out"]⟩])
        (deployWorkflow Prepared.plantEnv Prepared.relayGraph)
        (deployWorkflow Prepared.plantEnv (Prepared.relayGraph.withEdges edges')) := by
  have hnone : destinationsOf Prepared.plantEnv Prepared.relayGraph 0
      [⟨.null, none, .route ["out"]⟩] = some [([false], true)] := by decide
  have hfilled : destinationsOf Prepared.plantEnv (Prepared.relayGraph.withEdges
      (Prepared.relayGraph.edges.map WorkflowEdge.normal)) 0 [⟨.null, none, .route ["out"]⟩] =
      some [([true], false)] := by decide
  refine ⟨hnone, hfilled, ?_⟩
  intro h
  have hagree := h _ (fills_map_normal Prepared.relayGraph.edges)
  rw [destinationsOf] at hnone hfilled
  cases hr : deployWorkflow Prepared.plantEnv Prepared.relayGraph with
  | error e =>
      rw [hr] at hnone
      cases hnone
  | ok r =>
      cases hr' : deployWorkflow Prepared.plantEnv (Prepared.relayGraph.withEdges
          (Prepared.relayGraph.edges.map WorkflowEdge.normal)) with
      | error e =>
          rw [hr'] at hfilled
          cases hfilled
      | ok r' =>
          rw [hr, hr'] at hagree
          have hsame : r'.2.destinations 0 _ = r.2.destinations 0 _ := SameUse.destinations hagree
          rw [hr] at hnone
          rw [hr'] at hfilled
          have heq := hnone.symm.trans (hsame.symm.trans hfilled)
          exact absurd heq (by decide)

end Nazh
