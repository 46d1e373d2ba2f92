import Nazh.Graph.PinValidator
import Nazh.Graph.References

/-!
# The deployment of a graph

A graph is checked, its nodes are made, and every node gets a channel. Then the nodes are
started in the order of the edges that push: first each gets a handle to push with, then
a loop is spawned for each node that takes part in the push. The channel of a pure-form
node is dropped.
-/

namespace Nazh

open Lib

/-- What the surroundings of a deployment answer. -/
structure DeployEnv where
  now : ℤ
  /-- Whether there is a runtime to spawn on. -/
  hasRuntime : Bool
  /-- `registry.create`. -/
  create : WorkflowNodeDefinition → Except EngineError NodeTrait
  upsertConnections : List ConnectionDefinition → Except EngineError Unit
  /-- What `on_deploy` of the node with a key ends with. -/
  onDeploy : String → Except EngineError Unit

/-- The nodes made in the given order. -/
def createNodes (env : DeployEnv) (graph : WorkflowGraph) :
    List String → NodeIndex → Except EngineError NodeIndex
  | [], nodesById => .ok nodesById
  | nodeId :: rest, nodesById => do
      let definition ← okOr (graph.nodes.lookup nodeId)
        (.invalidGraph s!"拓扑序中的节点 \x60{nodeId}\x60 在图中不存在")
      let node ← env.create definition
      createNodes env graph rest (nodesById.insert nodeId node)

/-- The kind of an edge, as the statistics of the edges look it up. -/
def edgeKindLookup (nodes : NodeIndex) (edge : WorkflowEdge) :
    Except EngineError ((String × Option String) × PinKind) := do
  let fromNode ← okOr (nodes.lookup edge.source)
    (.invalidGraph s!"edge_kind_lookup：源节点 \x60{edge.source}\x60 不存在")
  let kind := ((findPin fromNode.outputPins edge.sourcePin).map PinDefinition.kind).getD .exec
  return ((edge.source, edge.sourcePortId), kind)

/-- A checked graph with its nodes. -/
structure Prepared where
  nodes : NodeIndex
  classified : ClassifiedEdges
  topology : WorkflowTopology

/-- Everything before the first channel is used. -/
def prepare (env : DeployEnv) (graph : WorkflowGraph) : Except EngineError Prepared := do
  let structural ← graph.topology
  let _ ← buildWorkflowVariables graph.declarations env.now
  ensure env.hasRuntime (.invalidGraph "deploy_workflow 必须在 Tokio 运行时中调用")
  let nodes ← createNodes env graph structural.deploymentOrder ∅
  validatePinCompatibility nodes graph.edges
  let classified ← classifyEdges nodes graph.edges
  detectNonExecEdgeCycle classified
  let topology ← graph.topologyForEdges classified.pushed
  env.upsertConnections graph.connections
  let _ ← graph.edges.mapM (edgeKindLookup nodes)
  return ⟨nodes, classified, topology⟩

/-! ## Channels -/

namespace WorkflowGraph

variable (graph : WorkflowGraph)

/-- The channel of a node. -/
def channelOf (nodeId : String) : Option ℕ := graph.nodes.keys.idxOf? nodeId

/-- The channel of the results. -/
def resultChannel : ℕ := graph.nodes.keys.length

/-- A channel for every node, and one for the results. -/
def channels : List (Channel ContextRef) :=
  graph.nodes.entries.map (fun e => .live (max e.2.buffer 1) []) ++
    [.live (max graph.nodes.keys.length 1 * 16) []]

end WorkflowGraph

namespace WorkflowGraph

variable {graph : WorkflowGraph} {nodeId : String} {ch : ℕ}

theorem exists_channelOf (h : nodeId ∈ graph.nodes) : ∃ ch, graph.channelOf nodeId = some ch :=
  Option.isSome_iff_exists.mp (List.isSome_idxOf?.mpr (AList.mem_keys.mp h))

theorem getElem?_of_channelOf (h : graph.channelOf nodeId = some ch) :
    graph.nodes.keys[ch]? = some nodeId := by
  obtain ⟨hlt, heq, -⟩ := List.idxOf?_eq_some_iff.mp h
  rw [List.getElem?_eq_getElem hlt, heq]

/-- Different nodes have different channels. -/
theorem channelOf_injective {other : String} (h : graph.channelOf nodeId = some ch)
    (h' : graph.channelOf other = some ch) : nodeId = other :=
  Option.some.inj ((getElem?_of_channelOf h).symm.trans (getElem?_of_channelOf h'))

theorem channelOf_lt (h : graph.channelOf nodeId = some ch) : ch < graph.resultChannel :=
  (List.getElem?_eq_some_iff.mp (getElem?_of_channelOf h)).1

theorem length_channels : graph.channels.length = graph.resultChannel + 1 := by
  simp [channels, resultChannel, AList.keys, List.keys]

/-- Every channel is open and empty at first. -/
theorem queue_channels {c : Channel ContextRef} (hc : c ∈ graph.channels) :
    c.isClosed = false ∧ c.queue = [] := by
  rw [channels, List.mem_append, List.mem_map, List.mem_singleton] at hc
  rcases hc with ⟨e, -, rfl⟩ | rfl
  · exact ⟨rfl, rfl⟩
  · exact ⟨rfl, rfl⟩

end WorkflowGraph

/-- The edges of a node as its handle has them. -/
def emitTarget (senders : String → Option ℕ) (edge : WorkflowEdge) : Option EmitTarget :=
  (senders edge.target).map fun sender => ⟨sender, edge.target⟩

/-- The edges of a node as its loop has them. -/
def downstreamTarget (senders : String → Option ℕ) (edge : WorkflowEdge) :
    Option DownstreamTarget :=
  (senders edge.target).map fun sender =>
    ⟨edge.sourcePortId, sender, edge.target, edge.backpressurePolicy.getD .block⟩

/-! ## The two phases -/

namespace Prepared

variable (p : Prepared)

/-- Phase 1: the handles, while every node has its channel. -/
def startNodes (env : DeployEnv) (graph : WorkflowGraph) :
    List String → Except EngineError (List NodeHandle)
  | [] => .ok []
  | nodeId :: rest => do
      let _ ← okOr (p.nodes.lookup nodeId)
        (.invalidGraph s!"阶段 1：节点 \x60{nodeId}\x60 在阶段 0.5 缺失")
      env.onDeploy nodeId
      let handles ← startNodes env graph rest
      return ⟨nodeId, (p.topology.downstream nodeId).filterMap (emitTarget graph.channelOf)⟩ ::
        handles

/-- What is left of the channels while loops are spawned. -/
structure Spawned where
  senders : String → Option ℕ
  receivers : String → Option ℕ
  chans : List (Channel ContextRef)
  tasks : List Task

/-- A pure-form node gives its channel up. -/
def Spawned.retire (s : Spawned) (nodeId : String) : Spawned where
  senders := Function.update s.senders nodeId none
  receivers := Function.update s.receivers nodeId none
  chans := match s.receivers nodeId with
    | some ch => s.chans.set ch .gone
    | none => s.chans
  tasks := s.tasks

/-- The loop of a node takes its receiver. -/
def Spawned.spawn (s : Spawned) (cfg : RunNode) (nodeId : String) : Spawned :=
  { s with
    receivers := Function.update s.receivers nodeId none
    tasks := s.tasks ++ [.node cfg .idle] }

/-- Phase 2: the loops. -/
def spawnNodes (graph : WorkflowGraph) : List String → Spawned → Except EngineError Spawned
  | [], s => .ok s
  | nodeId :: rest, s => do
      let node ← okOr (p.nodes.lookup nodeId) (.invalidGraph s!"节点 \x60{nodeId}\x60 在阶段 2 缺失")
      if isPureForm node then
        spawnNodes graph rest (s.retire nodeId)
      else
        let _ ← okOr (graph.nodes.lookup nodeId) (.invalidGraph "节点定义在阶段 2 缺失")
        let inputRx ← okOr (s.receivers nodeId) (.invalidGraph "节点接收端缺失")
        let downstreamSenders :=
          (p.topology.downstream nodeId).filterMap (downstreamTarget s.senders)
        spawnNodes graph rest <| s.spawn
          ⟨node.id, node.outputPins, inputRx, downstreamSenders, graph.resultChannel⟩ nodeId

/-- The ingress, the tasks and the channels, with somebody who takes the results. -/
def running (graph : WorkflowGraph) (handles : List NodeHandle) (s : Spawned) : Deployment where
  plane := ⟨.withCapacity 0, s.chans⟩
  tasks := s.tasks ++ [.collector graph.resultChannel .idle]
  ingress := ⟨p.topology.rootNodes.filterMap fun nodeId =>
    (s.senders nodeId).map fun sender => (nodeId, sender)⟩
  handles := handles

/-- The deployment that is running when `deploy_workflow` returns. -/
def deploy (env : DeployEnv) (graph : WorkflowGraph) : Except EngineError Deployment := do
  let handles ← p.startNodes env graph p.topology.deploymentOrder
  let spawned ← p.spawnNodes graph p.topology.deploymentOrder
    ⟨graph.channelOf, graph.channelOf, graph.channels, []⟩
  return p.running graph handles spawned

/-! ## What is prepared -/

/-- What the checks make sure of. -/
structure Accepted (graph : WorkflowGraph) : Prop where
  compatible : PinsCompatible p.nodes graph.edges
  classified : classifyEdges p.nodes graph.edges = .ok p.classified
  acyclic : detectNonExecEdgeCycle p.classified = .ok ()
  ordered : graph.Ordered p.classified.pushed p.topology

variable {p} {env : DeployEnv} {graph : WorkflowGraph}

theorem accepted_of_prepare (h : prepare env graph = .ok p) : p.Accepted graph := by
  simp only [prepare, bind_eq_ok, pure_eq_ok, ensure_eq_ok, exists_const] at h
  obtain ⟨structural, -, vars, -, -, nodes, -, ⟨⟩, hpins, classified, hclassified, ⟨⟩, hcycle,
    topology, htopology, ⟨⟩, -, kinds, -, rfl⟩ := h
  exact ⟨validatePinCompatibility_eq_ok.mp hpins, hclassified, hcycle,
    WorkflowGraph.topologyForEdges_ordered htopology⟩

/-- The edges that push are the edges of the graph from execution and reactive pins. -/
theorem Accepted.mem_pushed (h : p.Accepted graph) {edge : WorkflowEdge} :
    edge ∈ p.classified.pushed ↔ edge ∈ graph.edges ∧
      (StartsFrom p.nodes edge .exec ∨ StartsFrom p.nodes edge .reactive) := by
  have hexec : edge ∈ p.classified.execEdges ↔ _ := mem_ofKind h.classified .exec
  have hreactive : edge ∈ p.classified.reactiveEdges ↔ _ := mem_ofKind h.classified .reactive
  rw [ClassifiedEdges.pushed, List.mem_append, hexec, hreactive]
  constructor
  · rintro (⟨hmem, hkind⟩ | ⟨hmem, hkind⟩)
    · exact ⟨hmem, .inl hkind⟩
    · exact ⟨hmem, .inr hkind⟩
  · rintro ⟨hmem, hkind | hkind⟩
    · exact .inl ⟨hmem, hkind⟩
    · exact .inr ⟨hmem, hkind⟩

/-- So are the edges out of one node. -/
theorem Accepted.mem_downstream (h : p.Accepted graph) {nodeId : String} {edge : WorkflowEdge} :
    edge ∈ p.topology.downstream nodeId ↔ (edge ∈ graph.edges ∧
      (StartsFrom p.nodes edge .exec ∨ StartsFrom p.nodes edge .reactive)) ∧
        edge.source = nodeId := by
  rw [h.ordered.mem_downstream, h.mem_pushed]

/-- Whether the node with a key is pure-form. -/
def isPure (p : Prepared) (nodeId : String) : Bool := (p.nodes.lookup nodeId).any isPureForm

/-! ## What is spawned -/

/-- The loop of the node with a key. -/
structure LoopOf (p : Prepared) (graph : WorkflowGraph) (nodeId : String) (cfg : RunNode) :
    Prop where
  node : ∃ node, p.nodes.lookup nodeId = some node ∧ cfg.nodeId = node.id ∧
    cfg.outputPins = node.outputPins
  mixed : p.isPure nodeId = false
  input : graph.channelOf nodeId = some cfg.inputRx
  downstream : cfg.downstreamSenders =
    (p.topology.downstream nodeId).filterMap (downstreamTarget graph.channelOf)
  result : cfg.resultTx = graph.resultChannel

/-- What the spawn loop has made of the nodes in `done`. -/
structure Spawning (p : Prepared) (graph : WorkflowGraph) (done : List String) (s : Spawned) :
    Prop where
  senders : ∀ id, s.senders id = if id ∈ done ∧ p.isPure id then none else graph.channelOf id
  receivers : ∀ id, id ∉ done → s.receivers id = graph.channelOf id
  loops : ∀ t ∈ s.tasks, ∃ id ∈ done, ∃ cfg, t = .node cfg .idle ∧ LoopOf p graph id cfg
  spawned : ∀ id ∈ done, p.isPure id = false → ∃ cfg, Task.node cfg .idle ∈ s.tasks ∧
    LoopOf p graph id cfg
  chans : ∀ ch, (∀ id ∈ done, p.isPure id → graph.channelOf id ≠ some ch) →
    s.chans[ch]? = graph.channels[ch]?
  queues : ∀ c ∈ s.chans, c.queue = []

variable {done : List String} {s s' : Spawned} {nodeId : String}

theorem spawning_start :
    Spawning p graph [] ⟨graph.channelOf, graph.channelOf, graph.channels, []⟩ where
  senders id := by simp
  receivers id _ := rfl
  loops t ht := by cases ht
  spawned id hid := by cases hid
  chans ch _ := rfl
  queues c hc := (WorkflowGraph.queue_channels hc).2

/-- A pure-form node is passed over. -/
theorem Spawning.retire (h : Spawning p graph done s) (hnew : nodeId ∉ done)
    (hpure : p.isPure nodeId = true) : Spawning p graph (done ++ [nodeId]) (s.retire nodeId) where
  senders id := by
    by_cases hid : id = nodeId
    · subst hid
      simp [Spawned.retire, hpure]
    · simp [Spawned.retire, hid, h.senders id]
  receivers id hid := by
    rw [List.mem_append, not_or, List.mem_singleton] at hid
    simp [Spawned.retire, hid.2, h.receivers id hid.1]
  loops t ht := by
    obtain ⟨id, hid, cfg, rfl, hcfg⟩ := h.loops t ht
    exact ⟨id, List.mem_append_left _ hid, cfg, rfl, hcfg⟩
  spawned id hid hmixed := by
    rcases List.mem_append.mp hid with hid | hid
    · exact h.spawned id hid hmixed
    · rw [List.mem_singleton.mp hid, hpure] at hmixed
      cases hmixed
  chans ch hch := by
    have hold := h.chans ch fun id hid => hch id (List.mem_append_left _ hid)
    have hne := hch nodeId (by simp) hpure
    simp only [Spawned.retire, h.receivers nodeId hnew]
    cases hchan : graph.channelOf nodeId with
    | none => exact hold
    | some ch' =>
        have hother : ch' ≠ ch := by
          rintro rfl
          exact hne hchan
        rw [List.getElem?_set_ne hother, hold]
  queues c hc := by
    simp only [Spawned.retire, h.receivers nodeId hnew] at hc
    cases hchan : graph.channelOf nodeId with
    | none =>
        rw [hchan] at hc
        exact h.queues c hc
    | some ch =>
        rw [hchan] at hc
        rcases List.mem_or_eq_of_mem_set hc with hc | rfl
        · exact h.queues c hc
        · rfl

/-- The loop of a node is spawned. -/
theorem Spawning.spawn (h : Spawning p graph done s) {cfg : RunNode}
    (hcfg : LoopOf p graph nodeId cfg) :
    Spawning p graph (done ++ [nodeId]) (s.spawn cfg nodeId) where
  senders id := by
    rw [show (s.spawn cfg nodeId).senders = s.senders from rfl, h.senders id]
    by_cases hid : id = nodeId
    · subst hid
      simp [hcfg.mixed]
    · simp [hid]
  receivers id hid := by
    rw [List.mem_append, not_or, List.mem_singleton] at hid
    simp [Spawned.spawn, hid.2, h.receivers id hid.1]
  loops t ht := by
    rcases List.mem_append.mp ht with ht | ht
    · obtain ⟨id, hid, cfg', rfl, hcfg'⟩ := h.loops t ht
      exact ⟨id, List.mem_append_left _ hid, cfg', rfl, hcfg'⟩
    · exact ⟨nodeId, by simp, cfg, List.mem_singleton.mp ht, hcfg⟩
  spawned id hid hmixed := by
    rcases List.mem_append.mp hid with hid | hid
    · obtain ⟨cfg', hmem, hcfg'⟩ := h.spawned id hid hmixed
      exact ⟨cfg', List.mem_append_left _ hmem, hcfg'⟩
    · obtain rfl := List.mem_singleton.mp hid
      exact ⟨cfg, by simp [Spawned.spawn], hcfg⟩
  chans ch hch := h.chans ch fun id hid => hch id (List.mem_append_left _ hid)
  queues c hc := h.queues c hc

/-- The loop over the order makes a loop for every node that is not pure-form. The targets of
a node come after it in the order, so that it finds all their senders. -/
theorem Accepted.spawnNodes (hacc : p.Accepted graph) {rest : List String}
    (horder : p.topology.deploymentOrder = done ++ rest) (hs : Spawning p graph done s)
    (h : p.spawnNodes graph rest s = .ok s') :
    Spawning p graph p.topology.deploymentOrder s' := by
  induction rest generalizing done s with
  | nil =>
      cases h
      rw [horder, List.append_nil]
      exact hs
  | cons nodeId rest ih =>
      have htop := hacc.ordered.topological
      rw [horder] at htop
      have hnew : nodeId ∉ done := by
        intro hin
        have hnodup := htop.nodup
        rw [List.nodup_append] at hnodup
        exact hnodup.2.2 nodeId hin nodeId List.mem_cons_self rfl
      have hnext : p.topology.deploymentOrder = done ++ [nodeId] ++ rest := by
        rw [horder, List.append_assoc, List.singleton_append]
      rw [Prepared.spawnNodes, bind_eq_ok] at h
      obtain ⟨node, hnode, h⟩ := h
      rw [okOr_eq_ok] at hnode
      have hpure : p.isPure nodeId = isPureForm node := by simp [isPure, hnode]
      by_cases hform : isPureForm node = true
      · rw [if_pos hform] at h
        exact ih hnext (hs.retire hnew (hpure.trans hform)) h
      · rw [if_neg hform] at h
        simp only [bind_eq_ok, okOr_eq_ok] at h
        obtain ⟨definition, -, inputRx, hrx, h⟩ := h
        refine ih hnext (hs.spawn ⟨⟨node, hnode, rfl, rfl⟩, ?_, ?_, ?_, rfl⟩) h
        · rw [hpure, Bool.not_eq_true] at *
          exact hform
        · rw [← hs.receivers nodeId hnew]
          exact hrx
        · apply List.filterMap_congr
          intro edge hedge
          have hmem := (hacc.ordered.mem_downstream nodeId edge).mp hedge
          have hlater : edge.target ∉ done := by
            apply htop.target_notMem (m := nodeId)
            rw [← hmem.2]
            exact List.mem_map_of_mem hmem.1
          simp [downstreamTarget, hs.senders, hlater]

variable (p graph) in
/-- The handle of a node. -/
def handleOf (nodeId : String) : NodeHandle :=
  ⟨nodeId, (p.topology.downstream nodeId).filterMap (emitTarget graph.channelOf)⟩

theorem startNodes_eq {ids : List String} {handles : List NodeHandle}
    (h : p.startNodes env graph ids = .ok handles) : handles = ids.map (p.handleOf graph) := by
  induction ids generalizing handles with
  | nil =>
      cases h
      rfl
  | cons nodeId rest ih =>
      simp only [startNodes, bind_eq_ok, pure_eq_ok] at h
      obtain ⟨node, -, ⟨⟩, -, handles', hrest, rfl⟩ := h
      rw [ih hrest]
      rfl

variable {d : Deployment}

/-- What runs after a deployment: every node has its handle, and its loop if it has one. -/
theorem Accepted.deploy (hacc : p.Accepted graph) (h : p.deploy env graph = .ok d) :
    ∃ s, Spawning p graph p.topology.deploymentOrder s ∧
      d = p.running graph (p.topology.deploymentOrder.map (p.handleOf graph)) s := by
  simp only [Prepared.deploy, bind_eq_ok, pure_eq_ok] at h
  obtain ⟨handles, hstart, s, hspawn, rfl⟩ := h
  exact ⟨s, hacc.spawnNodes rfl spawning_start hspawn, by rw [startNodes_eq hstart]⟩

/-- It is a deployment before anything was submitted. -/
theorem Accepted.started (hacc : p.Accepted graph) (h : p.deploy env graph = .ok d) :
    d.Started := by
  obtain ⟨s, hs, rfl⟩ := hacc.deploy h
  refine ⟨⟨0, rfl⟩, hs.queues, ?_⟩
  intro t ht
  rcases List.mem_append.mp ht with ht | ht
  · obtain ⟨id, -, cfg, rfl, -⟩ := hs.loops t ht
    rfl
  · obtain rfl := List.mem_singleton.mp ht
    rfl

end Prepared
end Nazh
