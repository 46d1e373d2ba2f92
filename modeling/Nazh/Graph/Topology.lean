import Mathlib.Data.List.AList
import Mathlib.Data.List.Dedup
import Mathlib.Data.List.Sort
import Nazh.Connections.Types
import Nazh.Core.Variables
import Nazh.Graph.Dispatch
import Nazh.Lib.Kahn

/-!
# The graph and its order

A workflow is a set of named nodes and a list of edges between their pins. It is
deployed in a topological order of the edges that push, which are those that start from
an execution pin or a reactive pin; the edges from data pins are pulled. Edges that are
not execution edges must have no cycle among themselves.
-/

namespace Nazh

open Lib

/-- Where an edge starts if it does not say. -/
def defaultOutputPinId : String := "out"

/-- Where an edge ends if it does not say. -/
def defaultInputPinId : String := "in"

/-- A node as it is declared. -/
structure WorkflowNodeDefinition where
  id : String
  nodeType : String
  connectionId : Option String
  config : Value
  timeoutMs : Option ℕ
  buffer : ℕ
  deriving DecidableEq

/-- An edge from a pin of one node to a pin of another. -/
structure WorkflowEdge where
  source : String
  target : String
  sourcePortId : Option String
  targetPortId : Option String
  backpressurePolicy : Option BackpressurePolicy
  deriving DecidableEq, Repr

namespace WorkflowEdge

/-- The pin an edge starts from. -/
def sourcePin (edge : WorkflowEdge) : String := edge.sourcePortId.getD defaultOutputPinId

/-- The pin an edge ends at. -/
def targetPin (edge : WorkflowEdge) : String := edge.targetPortId.getD defaultInputPinId

/-- The nodes an edge joins. -/
def ends (edge : WorkflowEdge) : String × String := (edge.source, edge.target)

end WorkflowEdge

/-- A workflow as it is declared. -/
structure WorkflowGraph where
  connections : List ConnectionDefinition
  nodes : AList fun _ : String => WorkflowNodeDefinition
  edges : List WorkflowEdge
  declarations : Option (AList fun _ : String => VariableDeclaration)

/-- The roots of a graph, its edges by their source, and an order of its nodes. -/
structure WorkflowTopology where
  rootNodes : List String
  downstream : String → List WorkflowEdge
  deploymentOrder : List String

/-- The nodes that were made, by their key in the graph. -/
abbrev NodeIndex := AList fun _ : String => NodeTrait

/-! ## The order -/

namespace WorkflowGraph

variable (graph : WorkflowGraph)

/-- Both ends of an edge are nodes of the graph. -/
def checkEndpoints (edge : WorkflowEdge) : Except EngineError Unit := do
  ensure (edge.source ∈ graph.nodes) (.invalidGraph s!"边的源节点 \x60{edge.source}\x60 不存在")
  ensure (edge.target ∈ graph.nodes) (.invalidGraph s!"边的目标节点 \x60{edge.target}\x60 不存在")

/-- The topology of a graph with some of its edges. -/
def topologyForEdges (edges : List WorkflowEdge) : Except EngineError WorkflowTopology := do
  edges.forM graph.checkEndpoints
  let pairs := edges.map WorkflowEdge.ends
  let rootNodes :=
    (graph.nodes.keys.filter fun n => indegree pairs n = 0).insertionSort (· ≤ ·)
  let deploymentOrder := kahn graph.nodes.keys rootNodes pairs
  ensure (deploymentOrder.length = graph.nodes.keys.length)
    (.invalidGraph "工作流图必须是无环的有向图（DAG）")
  return ⟨rootNodes, fun n => edges.filter fun edge => edge.source = n, deploymentOrder⟩

/-- The topology of a graph with all its edges. -/
def topology : Except EngineError WorkflowTopology := graph.topologyForEdges graph.edges

/-- What a topology is for the edges it was made of. -/
structure Ordered (edges : List WorkflowEdge) (t : WorkflowTopology) : Prop where
  ends_mem : ∀ edge ∈ edges, edge.source ∈ graph.nodes ∧ edge.target ∈ graph.nodes
  mem_rootNodes : ∀ n, n ∈ t.rootNodes ↔ n ∈ graph.nodes ∧ ∀ edge ∈ edges, edge.target ≠ n
  mem_downstream : ∀ n edge, edge ∈ t.downstream n ↔ edge ∈ edges ∧ edge.source = n
  mem_order : ∀ n, n ∈ t.deploymentOrder ↔ n ∈ graph.nodes
  topological : Topological (edges.map WorkflowEdge.ends) t.deploymentOrder

variable {graph} {edges : List WorkflowEdge} {t : WorkflowTopology}

theorem checkEndpoints_eq_ok {edge : WorkflowEdge} : graph.checkEndpoints edge = .ok () ↔
    edge.source ∈ graph.nodes ∧ edge.target ∈ graph.nodes := by
  rw [checkEndpoints, check_bind_eq_ok, ensure_eq_ok, ensure_eq_ok]
  simp

theorem indegree_eq_zero {n : String} : indegree (edges.map WorkflowEdge.ends) n = 0 ↔
    ∀ edge ∈ edges, edge.target ≠ n := by
  simp [indegree, List.count_eq_zero, WorkflowEdge.ends]

/-- A topology that is made is one: roots without an edge into them, an order of all nodes. -/
theorem topologyForEdges_ordered (h : graph.topologyForEdges edges = .ok t) :
    graph.Ordered edges t := by
  rw [topologyForEdges, check_bind_eq_ok, check_bind_eq_ok, ensure_eq_ok, pure_eq_ok] at h
  obtain ⟨hchecked, hlen, rfl⟩ := h
  have hends : ∀ edge ∈ edges, edge.source ∈ graph.nodes ∧ edge.target ∈ graph.nodes := by
    intro edge hedge
    exact checkEndpoints_eq_ok.mp (forM_eq_ok.mp hchecked edge hedge)
  have hedges : ∀ e ∈ edges.map WorkflowEdge.ends, e.2 ∈ graph.nodes.keys := by
    intro e he
    obtain ⟨edge, hedge, rfl⟩ := List.mem_map.mp he
    exact AList.mem_keys.mp (hends edge hedge).2
  let roots := (graph.nodes.keys.filter fun n =>
    indegree (edges.map WorkflowEdge.ends) n = 0).insertionSort (· ≤ ·)
  have hnodup : roots.Nodup :=
    (List.perm_insertionSort _ _).nodup_iff.mpr (graph.nodes.keys_nodup.filter _)
  have hroots : ∀ n, n ∈ roots ↔
      n ∈ graph.nodes.keys ∧ indegree (edges.map WorkflowEdge.ends) n = 0 := by
    intro n
    rw [List.mem_insertionSort, List.mem_filter, decide_eq_true_iff]
  obtain ⟨htop, hsub⟩ := kahn_topological hnodup hroots hedges (graph.nodes.keys.length + 1)
  refine ⟨hends, ?_, ?_, ?_, htop⟩
  · intro n
    rw [hroots n, indegree_eq_zero, AList.mem_keys]
  · intro n edge
    rw [List.mem_filter, decide_eq_true_iff]
  · intro n
    constructor
    · intro hn
      exact AList.mem_keys.mpr (hsub n hn)
    · intro hn
      exact mem_kahn hnodup hroots hedges (of_decide_eq_true hlen) (AList.mem_keys.mp hn)

end WorkflowGraph

/-! ## The kinds of edges -/

/-- The pin with an id. -/
def findPin (pins : List PinDefinition) (id : String) : Option PinDefinition :=
  pins.find? fun pin => pin.id = id

theorem mem_of_findPin {pins : List PinDefinition} {id : String} {pin : PinDefinition}
    (h : findPin pins id = some pin) : pin ∈ pins ∧ pin.id = id :=
  ⟨List.mem_of_find?_eq_some h, by simpa using List.find?_some h⟩

/-- The edges of a graph by the kind of their source. -/
structure ClassifiedEdges where
  execEdges : List WorkflowEdge
  dataEdges : List WorkflowEdge
  reactiveEdges : List WorkflowEdge
  deriving DecidableEq

namespace ClassifiedEdges

/-- One more edge of a kind. -/
def push (classified : ClassifiedEdges) (edge : WorkflowEdge) : PinKind → ClassifiedEdges
  | .exec => { classified with execEdges := edge :: classified.execEdges }
  | .data => { classified with dataEdges := edge :: classified.dataEdges }
  | .reactive => { classified with reactiveEdges := edge :: classified.reactiveEdges }

/-- The edges of a kind. -/
def ofKind (classified : ClassifiedEdges) : PinKind → List WorkflowEdge
  | .exec => classified.execEdges
  | .data => classified.dataEdges
  | .reactive => classified.reactiveEdges

/-- The edges that push. -/
def pushed (classified : ClassifiedEdges) : List WorkflowEdge :=
  classified.execEdges ++ classified.reactiveEdges

/-- The edges that are not execution edges. -/
def combined (classified : ClassifiedEdges) : List WorkflowEdge :=
  classified.dataEdges ++ classified.reactiveEdges

theorem ofKind_push (classified : ClassifiedEdges) (edge : WorkflowEdge) (kind kind' : PinKind) :
    (classified.push edge kind).ofKind kind' =
      if kind = kind' then edge :: classified.ofKind kind' else classified.ofKind kind' := by
  cases kind <;> cases kind' <;> rfl

end ClassifiedEdges

/-- The pin an edge starts from. -/
def sourcePinOf (nodes : NodeIndex) (edge : WorkflowEdge) : Except EngineError PinDefinition := do
  let fromNode ← okOr (nodes.lookup edge.source)
    (.invalidGraph s!"classify_edges：边的源节点 \x60{edge.source}\x60 不存在")
  okOr (findPin fromNode.outputPins edge.sourcePin)
    (.unknownPin edge.source edge.sourcePin .output)

/-- The edges by the kind of the pin they start from. -/
def classifyEdges (nodes : NodeIndex) : List WorkflowEdge → Except EngineError ClassifiedEdges
  | [] => .ok ⟨[], [], []⟩
  | edge :: rest => do
      let fromPin ← sourcePinOf nodes edge
      let classified ← classifyEdges nodes rest
      return classified.push edge fromPin.kind

/-- An edge starts from a pin of a kind. -/
def StartsFrom (nodes : NodeIndex) (edge : WorkflowEdge) (kind : PinKind) : Prop :=
  ∃ node ∈ nodes.lookup edge.source, ∃ pin ∈ findPin node.outputPins edge.sourcePin,
    pin.kind = kind

variable {nodes : NodeIndex} {edges : List WorkflowEdge} {classified : ClassifiedEdges}

theorem sourcePinOf_eq_ok {edge : WorkflowEdge} {pin : PinDefinition} :
    sourcePinOf nodes edge = .ok pin ↔
      ∃ node, nodes.lookup edge.source = some node ∧
        findPin node.outputPins edge.sourcePin = some pin := by
  simp [sourcePinOf, bind_eq_ok]

/-- The edges of a kind are those that start from a pin of this kind, in their order. -/
theorem mem_ofKind (h : classifyEdges nodes edges = .ok classified) (kind : PinKind)
    {edge : WorkflowEdge} :
    edge ∈ classified.ofKind kind ↔ edge ∈ edges ∧ StartsFrom nodes edge kind := by
  induction edges generalizing classified with
  | nil =>
      cases h
      cases kind <;> simp [ClassifiedEdges.ofKind]
  | cons e rest ih =>
      simp only [classifyEdges, bind_eq_ok, pure_eq_ok] at h
      obtain ⟨pin, hpin, classified', hrest, rfl⟩ := h
      obtain ⟨node, hnode, hfind⟩ := sourcePinOf_eq_ok.mp hpin
      have hstarts : StartsFrom nodes e kind ↔ pin.kind = kind := by
        simp [StartsFrom, hnode, hfind]
      rw [ClassifiedEdges.ofKind_push]
      by_cases hk : pin.kind = kind
      · rw [if_pos hk, List.mem_cons, ih hrest, List.mem_cons]
        constructor
        · rintro (rfl | ⟨hmem, hs⟩)
          · exact ⟨.inl rfl, hstarts.mpr hk⟩
          · exact ⟨.inr hmem, hs⟩
        · rintro ⟨rfl | hmem, hs⟩
          · exact .inl rfl
          · exact .inr ⟨hmem, hs⟩
      · rw [if_neg hk, ih hrest, List.mem_cons]
        constructor
        · rintro ⟨hmem, hs⟩
          exact ⟨.inr hmem, hs⟩
        · rintro ⟨rfl | hmem, hs⟩
          · exact absurd (hstarts.mp hs) hk
          · exact ⟨hmem, hs⟩

/-- Every edge has a kind. -/
theorem exists_startsFrom (h : classifyEdges nodes edges = .ok classified) {edge : WorkflowEdge}
    (hmem : edge ∈ edges) : ∃ kind, StartsFrom nodes edge kind := by
  induction edges generalizing classified with
  | nil => cases hmem
  | cons e rest ih =>
      simp only [classifyEdges, bind_eq_ok, pure_eq_ok] at h
      obtain ⟨pin, hpin, classified', hrest, -⟩ := h
      obtain ⟨node, hnode, hfind⟩ := sourcePinOf_eq_ok.mp hpin
      rcases List.mem_cons.mp hmem with rfl | hmem
      · exact ⟨pin.kind, node, hnode, pin, hfind, rfl⟩
      · exact ih hrest hmem

/-- It has one kind only. -/
theorem StartsFrom.unique {edge : WorkflowEdge} {kind kind' : PinKind}
    (h : StartsFrom nodes edge kind) (h' : StartsFrom nodes edge kind') : kind = kind' := by
  obtain ⟨node, hnode, pin, hpin, rfl⟩ := h
  obtain ⟨node', hnode', pin', hpin', rfl⟩ := h'
  obtain rfl := Option.mem_unique hnode hnode'
  obtain rfl := Option.mem_unique hpin hpin'
  rfl

/-! ## Cycles of edges that are not execution edges -/

/-- The nodes of the edges, each once. -/
def involvedNodes (edges : List WorkflowEdge) : List String :=
  (edges.flatMap fun edge => [edge.source, edge.target]).dedup

/-- The data edges and the reactive edges together have no cycle. -/
def detectNonExecEdgeCycle (classified : ClassifiedEdges) : Except EngineError Unit :=
  let combined := classified.combined
  if combined.isEmpty then .ok ()
  else
    let pairs := combined.map WorkflowEdge.ends
    let nodes := involvedNodes combined
    let consumed := kahn nodes (nodes.filter fun n => indegree pairs n = 0) pairs
    ensure (consumed.length = nodes.length)
      (.invalidGraph "Data 或 Reactive 边构成环（ADR-0014 / ADR-0015）：下游 transform 时无法确定缓存读取顺序")

theorem mem_involvedNodes {n : String} :
    n ∈ involvedNodes edges ↔ ∃ edge ∈ edges, n = edge.source ∨ n = edge.target := by
  simp [involvedNodes]

/-- Without a cycle there is a rank that grows along every one of these edges. -/
theorem exists_rank (h : detectNonExecEdgeCycle classified = .ok ()) :
    ∃ rank : String → ℕ, ∀ edge ∈ classified.combined, rank edge.source < rank edge.target := by
  by_cases hempty : classified.combined = []
  · refine ⟨fun _ => 0, ?_⟩
    intro edge hedge
    rw [hempty] at hedge
    cases hedge
  · simp only [detectNonExecEdgeCycle, List.isEmpty_iff, if_neg hempty, ensure_eq_ok,
      decide_eq_true_iff] at h
    let pairs := classified.combined.map WorkflowEdge.ends
    let nodes := involvedNodes classified.combined
    let roots := nodes.filter fun n => indegree pairs n = 0
    have hnodup : roots.Nodup := (List.nodup_dedup _).filter _
    have hroots : ∀ n, n ∈ roots ↔ n ∈ nodes ∧ indegree pairs n = 0 := by
      intro n
      rw [List.mem_filter, decide_eq_true_iff]
    have hedges : ∀ e ∈ pairs, e.2 ∈ nodes := by
      intro e he
      obtain ⟨edge, hedge, rfl⟩ := List.mem_map.mp he
      exact mem_involvedNodes.mpr ⟨edge, hedge, .inr rfl⟩
    have htop : Topological pairs (kahn nodes roots pairs) :=
      (kahn_topological hnodup hroots hedges (nodes.length + 1)).1
    refine ⟨fun n => (kahn nodes roots pairs).idxOf n, ?_⟩
    intro edge hedge
    apply htop.idxOf_lt (List.mem_map_of_mem hedge)
    exact mem_kahn hnodup hroots hedges h (mem_involvedNodes.mpr ⟨edge, hedge, .inr rfl⟩)

end Nazh
