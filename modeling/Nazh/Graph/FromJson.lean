import Nazh.Graph.Topology
import Nazh.Json.Read

/-!
# Graphs that are read

A graph is read from JSON. Nodes that do not say their id get their key in the graph, nodes
without a connection that of their configuration, and the graph is accepted if its edges can be
ordered and some node has no edge into it.

The edges can be ordered just if their ends are nodes and a rank grows along each of them.
-/

namespace Nazh

open Lib

/-! ## Parts of a graph -/

namespace PinType

mutual

def fromJson : Value → Option PinType
  | .object fields => match fields.lookup "kind" with
    | some (.string "any") => some any
    | some (.string "bool") => some bool
    | some (.string "integer") => some integer
    | some (.string "float") => some float
    | some (.string "string") => some string
    | some (.string "json") => some json
    | some (.string "binary") => some binary
    | some (.string "array") => (innerFromJson fields).map array
    | some (.string "custom") => (required fields "name" Value.asStr).map custom
    | _ => none
  | _ => none

/-- The element type, under `inner`. -/
def innerFromJson : List (String × Value) → Option PinType
  | [] => none
  | (k, v) :: rest => if k = "inner" then fromJson v else innerFromJson rest

end

end PinType

def VariableDeclaration.fromJson (v : Value) : Option VariableDeclaration := do
  let fields ← v.asObject
  let variableType ← required fields "type" PinType.fromJson
  let initial ← required fields "initial" some
  some ⟨variableType, initial⟩

def ConnectionDefinition.fromJson (v : Value) : Option ConnectionDefinition := do
  let fields ← v.asObject
  let id ← required fields "id" Value.asStr
  let kind ← aliased fields "type" "kind" Value.asStr
  let metadata ← defaulted fields "metadata" some .null
  some ⟨id, kind, metadata⟩

def BackpressurePolicy.fromJson : Value → Option BackpressurePolicy
  | .string "block" => some .block
  | .string "dropNewest" | .string "sample" | .string "overflow" => some .dropNewest
  | _ => none

/-- `default_node_buffer`. -/
def defaultNodeBuffer : ℕ := 32

namespace WorkflowNodeDefinition

def fromJson (v : Value) : Option WorkflowNodeDefinition := do
  let fields ← v.asObject
  let id ← defaulted fields "id" Value.asStr ""
  let nodeType ← aliased fields "type" "kind" Value.asStr
  let connectionId ← optional fields "connection_id" Value.asStr
  let config ← defaulted fields "config" some .null
  let timeoutMs ← optional fields "timeout_ms" (Value.toUnsigned UInt64.size)
  let buffer ← defaulted fields "buffer" (Value.toUnsigned UInt64.size) defaultNodeBuffer
  some ⟨id, nodeType, connectionId, config, timeoutMs, buffer⟩

/-- `normalize`: what is missing is filled in. -/
def normalize (fallbackId : String) (fallbackConnectionId : Option String)
    (definition : WorkflowNodeDefinition) : WorkflowNodeDefinition :=
  { definition with
    id := if definition.id.isEmpty then fallbackId else definition.id
    connectionId := definition.connectionId.or fallbackConnectionId }

/-- The connection of the configuration, for a node without one. -/
def fallbackConnectionId (definition : WorkflowNodeDefinition) : Option String :=
  (definition.config.get "connection_id").bind Value.asStr

end WorkflowNodeDefinition

def WorkflowEdge.fromJson (v : Value) : Option WorkflowEdge := do
  let fields ← v.asObject
  let source ← aliased fields "from" "source" Value.asStr
  let target ← aliased fields "to" "target" Value.asStr
  let sourcePortId ← optionalAliased fields "source_port_id" "sourcePortID" Value.asStr
  let targetPortId ← optionalAliased fields "target_port_id" "targetPortID" Value.asStr
  let backpressurePolicy ← optional fields "backpressure_policy" BackpressurePolicy.fromJson
  some ⟨source, target, sourcePortId, targetPortId, backpressurePolicy⟩

/-! ## The graph -/

namespace WorkflowGraph

/-- The derived deserialization. -/
def deserialize (v : Value) : Option WorkflowGraph := do
  let fields ← v.asObject
  let _ ← optional fields "name" Value.asStr
  let connections ← defaulted fields "connections" (Value.toList ConnectionDefinition.fromJson) []
  let nodes ← defaulted fields "nodes" (Value.toMap WorkflowNodeDefinition.fromJson) ∅
  let edges ← defaulted fields "edges" (Value.toList WorkflowEdge.fromJson) []
  let declarations ← optional fields "variables" (Value.toMap VariableDeclaration.fromJson)
  some ⟨connections, nodes, edges, declarations⟩

/-- Every node with what is missing filled in. -/
def normalize (graph : WorkflowGraph) : WorkflowGraph :=
  { graph with nodes := (graph.nodes.entries.map (.map id fun key definition =>
      definition.normalize key definition.fallbackConnectionId)).toAList }

/-- `validate`: the edges can be ordered, and some node has no edge into it. -/
def validate (graph : WorkflowGraph) : Except EngineError Unit := do
  let topology ← graph.topology
  ensure (!topology.rootNodes.isEmpty) (.invalidGraph "工作流图必须包含至少一个根节点")

/-- `from_json`, with `none` for a text that is no graph. -/
def fromJson (v : Value) : Option (Except EngineError WorkflowGraph) :=
  (deserialize v).map fun graph => do
    graph.normalize.validate
    return graph.normalize

variable {graph : WorkflowGraph} {edges : List WorkflowEdge}

@[simp] theorem lookup_normalize (graph : WorkflowGraph) (key : String) :
    graph.normalize.nodes.lookup key = (graph.nodes.lookup key).map fun definition =>
      definition.normalize key definition.fallbackConnectionId := by
  rw [normalize, AList.lookup_to_alist, List.dlookup_map₂]
  rfl

theorem mem_normalize {key : String} : key ∈ graph.normalize.nodes ↔ key ∈ graph.nodes := by
  rw [← AList.lookup_isSome, lookup_normalize, Option.isSome_map, AList.lookup_isSome]

/-- The edges can be ordered just if their ends are nodes and they have no cycle. -/
theorem topologyForEdges_isOk : (∃ t, graph.topologyForEdges edges = .ok t) ↔
    (∀ edge ∈ edges, edge.source ∈ graph.nodes ∧ edge.target ∈ graph.nodes) ∧
      ∃ rank : String → ℕ, ∀ edge ∈ edges, rank edge.source < rank edge.target := by
  constructor
  · intro h
    obtain ⟨t, ht⟩ := h
    have hordered := topologyForEdges_ordered ht
    refine ⟨hordered.ends_mem, fun n => t.deploymentOrder.idxOf n, ?_⟩
    intro edge hedge
    apply hordered.topological.idxOf_lt (List.mem_map_of_mem hedge)
    exact (hordered.mem_order _).mpr (hordered.ends_mem edge hedge).2
  · intro h
    obtain ⟨hends, rank, hrank⟩ := h
    let pairs := edges.map WorkflowEdge.ends
    let roots := (graph.nodes.keys.filter fun n => indegree pairs n = 0).insertionSort (· ≤ ·)
    have hnodup : roots.Nodup :=
      (List.perm_insertionSort _ _).nodup_iff.mpr (graph.nodes.keys_nodup.filter _)
    have hroots : ∀ n, n ∈ roots ↔ n ∈ graph.nodes.keys ∧ indegree pairs n = 0 := by
      intro n
      rw [List.mem_insertionSort, List.mem_filter, decide_eq_true_iff]
    have hpairs : ∀ e ∈ pairs, e.1 ∈ graph.nodes.keys ∧ e.2 ∈ graph.nodes.keys ∧
        rank e.1 < rank e.2 := by
      intro e he
      obtain ⟨edge, hedge, rfl⟩ := List.mem_map.mp he
      have hmem := hends edge hedge
      exact ⟨AList.mem_keys.mp hmem.1, AList.mem_keys.mp hmem.2, hrank edge hedge⟩
    have hlen := length_kahn_of_rank hnodup hroots (fun e he => (hpairs e he).2.1)
      graph.nodes.keys_nodup (fun e he => (hpairs e he).1) fun e he => (hpairs e he).2.2
    refine ⟨⟨roots, fun n => edges.filter fun edge => edge.source = n,
      kahn graph.nodes.keys roots pairs⟩, ?_⟩
    rw [topologyForEdges, check_bind_eq_ok, check_bind_eq_ok, ensure_eq_ok, pure_eq_ok]
    refine ⟨?_, decide_eq_true hlen, rfl⟩
    exact forM_eq_ok.mpr fun edge hedge => checkEndpoints_eq_ok.mpr (hends edge hedge)

/-- A graph is accepted if its edges can be ordered and a node has no edge into it. -/
theorem validate_eq_ok (rank : String → ℕ) {root : String} (hroot : root ∈ graph.nodes)
    (hinto : ∀ edge ∈ graph.edges, edge.target ≠ root)
    (hends : ∀ edge ∈ graph.edges, edge.source ∈ graph.nodes ∧ edge.target ∈ graph.nodes)
    (hrank : ∀ edge ∈ graph.edges, rank edge.source < rank edge.target) :
    graph.validate = .ok () := by
  obtain ⟨t, ht⟩ := topologyForEdges_isOk.mpr ⟨hends, rank, hrank⟩
  rw [validate, bind_eq_ok]
  refine ⟨t, ht, ?_⟩
  have hmem := ((topologyForEdges_ordered ht).mem_rootNodes root).mpr ⟨hroot, hinto⟩
  cases hnodes : t.rootNodes with
  | nil => simp [hnodes] at hmem
  | cons n rest => simp

end WorkflowGraph

end Nazh
