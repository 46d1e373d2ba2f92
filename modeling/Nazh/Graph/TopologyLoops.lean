import Mathlib.Data.List.Perm.Lattice
import Mathlib.Data.String.Basic
import Nazh.Graph.FromJson
import Nazh.Lib.Lists

/-!
# The loops of the topology

The topology as the program computes it: a loop over the edges that counts them in one hash map and
sorts them by their source in another, and a loop over a queue that counts down. A hash map is a
partial function, and the order in which it gives its keys is any order of them. A counter that would
go below zero ends the computation without a result, and so does a queue that is not empty when the
fuel is used up.
-/

namespace Nazh

open Lib

/-- The maps that the first loop fills. -/
structure EdgeMaps where
  incoming : String → Option ℕ
  downstream : String → Option (List WorkflowEdge)

namespace EdgeMaps

/-- Every node has no edge yet. -/
def ofNodes (keys : List String) : EdgeMaps :=
  ⟨fun n => if n ∈ keys then some 0 else none, fun n => if n ∈ keys then some [] else none⟩

/-- One more edge: `entry(..).or_default().push(..)` and `*count += 1`. -/
def push (maps : EdgeMaps) (edge : WorkflowEdge) : EdgeMaps where
  downstream := Function.update maps.downstream edge.source
    (some ((maps.downstream edge.source).getD [] ++ [edge]))
  incoming := match maps.incoming edge.target with
    | none => maps.incoming
    | some count => Function.update maps.incoming edge.target (some (count + 1))

/-- The maps after the given edges. -/
def ofEdges (keys : List String) (edges : List WorkflowEdge) : EdgeMaps where
  incoming n := if n ∈ keys then some (indegree (edges.map WorkflowEdge.ends) n) else none
  downstream n := if n ∈ keys then some (edges.filter fun edge => edge.source = n) else none

variable {keys : List String}

theorem push_ofEdges (edges : List WorkflowEdge) {edge : WorkflowEdge} (hsource : edge.source ∈ keys)
    (htarget : edge.target ∈ keys) :
    (ofEdges keys edges).push edge = ofEdges keys (edges ++ [edge]) := by
  have hincoming : ((ofEdges keys edges).push edge).incoming =
      (ofEdges keys (edges ++ [edge])).incoming := by
    funext n
    simp only [push, ofEdges, if_pos htarget]
    by_cases hn : n = edge.target
    · subst hn
      simp [htarget, indegree, WorkflowEdge.ends]
    · have hother : ¬ edge.target = n := fun h => hn h.symm
      simp [Function.update_of_ne hn, indegree, WorkflowEdge.ends, hother]
  have hdownstream : ((ofEdges keys edges).push edge).downstream =
      (ofEdges keys (edges ++ [edge])).downstream := by
    funext n
    simp only [push, ofEdges, if_pos hsource]
    by_cases hn : n = edge.source
    · subst hn
      simp [hsource]
    · have hother : ¬ edge.source = n := fun h => hn h.symm
      simp [Function.update_of_ne hn, hother]
  calc (ofEdges keys edges).push edge
      = ⟨((ofEdges keys edges).push edge).incoming, ((ofEdges keys edges).push edge).downstream⟩ := rfl
    _ = ofEdges keys (edges ++ [edge]) := by rw [hincoming, hdownstream]

end EdgeMaps

/-- One neighbor of a node that was taken from the queue: count down, and queue it at zero. -/
def visitNeighbor (state : (String → Option ℕ) × List String) (neighbor : WorkflowEdge) :
    Option ((String → Option ℕ) × List String) :=
  match state.1 neighbor.target with
  | none => some state
  | some 0 => none
  | some (count + 1) =>
      some (Function.update state.1 neighbor.target (some count),
        if count = 0 then state.2 ++ [neighbor.target] else state.2)

/-- The loop over the queue. -/
def drainQueue (downstream : String → Option (List WorkflowEdge)) :
    ℕ → (String → Option ℕ) → List String → Option (List String)
  | 0, _, _ => none
  | _ + 1, _, [] => some []
  | fuel + 1, incoming, nodeId :: queue => do
      let state ← ((downstream nodeId).getD []).foldlM visitNeighbor (incoming, queue)
      let rest ← drainQueue downstream fuel state.1 state.2
      return nodeId :: rest

namespace WorkflowGraph

variable (graph : WorkflowGraph)

/-- The loop over the edges. -/
def collectEdges : EdgeMaps → List WorkflowEdge → Except EngineError EdgeMaps
  | maps, [] => .ok maps
  | maps, edge :: rest => do
      graph.checkEndpoints edge
      collectEdges (maps.push edge) rest

/-- `topology_for_edges`: `keys` are the keys of the nodes as the hash map of the counters gives
them. -/
def topologyLoops (keys : List String) (fuel : ℕ) (edges : List WorkflowEdge) :
    Option (Except EngineError WorkflowTopology) :=
  match graph.collectEdges (.ofNodes keys) edges with
  | .error e => some (.error e)
  | .ok maps =>
      let rootNodes := (keys.filter fun n => maps.incoming n = some 0).insertionSort (· ≤ ·)
      (drainQueue maps.downstream fuel maps.incoming rootNodes).map fun deploymentOrder =>
        if deploymentOrder.length = keys.length then
          .ok ⟨rootNodes, fun n => (maps.downstream n).getD [], deploymentOrder⟩
        else .error (.invalidGraph "工作流图必须是无环的有向图（DAG）")

/-- What a topology is to say of its edges. -/
structure Sorts (edges : List WorkflowEdge) (t : WorkflowTopology) : Prop where
  order_perm : t.deploymentOrder.Perm graph.nodes.keys
  source_first : ∀ edge ∈ edges,
    t.deploymentOrder.idxOf edge.source < t.deploymentOrder.idxOf edge.target
  roots_sorted : t.rootNodes.Pairwise (· < ·)
  mem_roots : ∀ n, n ∈ t.rootNodes ↔ n ∈ graph.nodes ∧ ∀ edge ∈ edges, edge.target ≠ n
  downstream_perm : (graph.nodes.keys.flatMap t.downstream).Perm edges
  downstream_eq : ∀ n, t.downstream n = edges.filter fun edge => edge.source = n

variable {graph} {keys : List String} {edges : List WorkflowEdge}

/-! ## The first loop -/

theorem collectEdges_ofEdges (hkeys : keys.Perm graph.nodes.keys) (done edges : List WorkflowEdge) :
    graph.collectEdges (.ofEdges keys done) edges =
      (edges.forM graph.checkEndpoints).map fun _ => .ofEdges keys (done ++ edges) := by
  induction edges generalizing done with
  | nil => simp [collectEdges, Except.map, pure, Except.pure]
  | cons edge rest ih =>
      rw [collectEdges, List.forM]
      cases hedge : graph.checkEndpoints edge with
      | error e => rfl
      | ok u =>
          have hends := checkEndpoints_eq_ok.mp hedge
          have hmem : ∀ {n : String}, n ∈ graph.nodes → n ∈ keys := fun hn =>
            hkeys.mem_iff.mpr (AList.mem_keys.mp hn)
          have hpush := EdgeMaps.push_ofEdges done (hmem hends.1) (hmem hends.2)
          show graph.collectEdges ((EdgeMaps.ofEdges keys done).push edge) rest =
            (rest.forM graph.checkEndpoints).map _
          rw [hpush, ih, List.append_assoc]
          rfl

/-! ## The second loop -/

/-- The counters of the nodes, as a hash map. -/
def counters (keys : List String) (count : String → ℕ) (n : String) : Option ℕ :=
  if n ∈ keys then some (count n) else none

/-- No counter is zero when an edge into its node is still to be counted down. -/
theorem foldlM_visitNeighbor (neighbors : List WorkflowEdge) (rest queue : List String)
    (hkeys : ∀ edge ∈ neighbors, edge.target ∈ keys) :
    neighbors.foldlM visitNeighbor
        (counters keys fun n => (neighbors.map WorkflowEdge.target ++ rest).count n, queue) =
      let state := (neighbors.map WorkflowEdge.target).foldl relax
        (fun n => (neighbors.map WorkflowEdge.target ++ rest).count n, queue)
      some (counters keys state.1, state.2) := by
  induction neighbors generalizing queue with
  | nil => rfl
  | cons edge neighbors ih =>
      let targets := neighbors.map WorkflowEdge.target ++ rest
      have hnext : Function.update (fun n => (edge.target :: targets).count n) edge.target
          (targets.count edge.target) = fun n => targets.count n := by
        funext n
        by_cases hn : n = edge.target
        · subst hn
          rw [Function.update_self]
        · rw [Function.update_of_ne hn, List.count_cons_of_ne (Ne.symm hn)]
      have hcounters : Function.update (counters keys fun n => (edge.target :: targets).count n)
          edge.target (some (targets.count edge.target)) =
            counters keys fun n => targets.count n := by
        funext n
        by_cases hn : n = edge.target
        · subst hn
          simp only [Function.update_self, counters, if_pos (hkeys edge List.mem_cons_self)]
        · simp only [Function.update_of_ne hn, counters, List.count_cons_of_ne (Ne.symm hn)]
      have hvisit : visitNeighbor (counters keys fun n => (edge.target :: targets).count n, queue)
          edge = some (counters keys fun n => targets.count n,
            if targets.count edge.target = 0 then queue ++ [edge.target] else queue) := by
        have hlookup : counters keys (fun n => (edge.target :: targets).count n) edge.target =
            some (targets.count edge.target + 1) := by
          simp only [counters, if_pos (hkeys edge List.mem_cons_self), List.count_cons_self]
        simp only [visitNeighbor, hlookup, hcounters]
      have hrelax : relax (fun n => (edge.target :: targets).count n, queue) edge.target =
          (fun n => targets.count n,
            if targets.count edge.target = 0 then queue ++ [edge.target] else queue) := by
        simp only [relax, List.count_cons_self, Nat.add_sub_cancel]
        rw [hnext]
      rw [List.map_cons, List.cons_append, List.foldlM_cons, List.foldl_cons, hvisit, hrelax]
      exact ih _ fun e he => hkeys e (List.mem_cons_of_mem _ he)

/-- The loop over the queue is that of the library, and no counter goes below zero. -/
theorem drainQueue_eq {fuel : ℕ} {done queue : List String} {count : String → ℕ}
    {nodes : List String} (hnodes : ∀ n, n ∈ nodes ↔ n ∈ keys)
    (hends : ∀ edge ∈ edges, edge.target ∈ keys)
    (h : Draining nodes (edges.map WorkflowEdge.ends) done count queue)
    (hfuel : (drain (edges.map WorkflowEdge.ends) fuel count queue).length < fuel) :
    drainQueue (EdgeMaps.ofEdges keys edges).downstream fuel (counters keys count) queue =
      some (drain (edges.map WorkflowEdge.ends) fuel count queue) := by
  have hedges : ∀ e ∈ edges.map WorkflowEdge.ends, e.2 ∈ nodes := by
    intro e he
    obtain ⟨edge, hedge, rfl⟩ := List.mem_map.mp he
    exact (hnodes _).mpr (hends edge hedge)
  induction fuel generalizing done queue count with
  | zero => exact absurd hfuel (Nat.not_lt_zero _)
  | succ fuel ih =>
      cases queue with
      | nil => rfl
      | cons n queue =>
          rw [drain, List.length_cons] at hfuel
          have hnext := ih (h.step hedges) (by omega)
          have hn : n ∈ keys := (hnodes n).mp (h.inside n (by simp))
          have hdone : n ∉ done := by
            intro hd
            have hnodup := h.nodup
            rw [List.nodup_append] at hnodup
            exact hnodup.2.2 n hd n List.mem_cons_self rfl
          have htargets : successors (edges.map WorkflowEdge.ends) n =
              (edges.filter fun edge => edge.source = n).map WorkflowEdge.target := by
            rw [successors, List.filter_map, List.map_map]
            rfl
          have hcount : count = fun k => (successors (edges.map WorkflowEdge.ends) n ++
              pending (edges.map WorkflowEdge.ends) (done ++ [n])).count k := by
            rw [h.count_eq]
            funext k
            exact (pending_perm _ hdone).count_eq k
          have hvisit := foldlM_visitNeighbor (edges.filter fun edge => edge.source = n)
            (pending (edges.map WorkflowEdge.ends) (done ++ [n])) queue
            fun edge hedge => hends edge (List.mem_filter.mp hedge).1
          rw [← htargets, ← hcount] at hvisit
          rw [drainQueue, drain]
          simp only [EdgeMaps.ofEdges, if_pos hn, Option.getD_some]
          rw [hvisit]
          simp only [Option.bind_eq_bind, Option.bind_some]
          rw [EdgeMaps.ofEdges] at hnext
          rw [hnext]
          rfl

/-- The loops come to an end with the topology of the graph, whatever order the hash map has. -/
theorem topologyLoops_eq (hkeys : keys.Perm graph.nodes.keys) {fuel : ℕ}
    (hfuel : graph.nodes.keys.length < fuel) :
    graph.topologyLoops keys fuel edges = some (graph.topologyForEdges edges) := by
  have hstart : EdgeMaps.ofNodes keys = EdgeMaps.ofEdges keys [] := rfl
  have hloop := collectEdges_ofEdges hkeys [] edges
  rw [List.nil_append] at hloop
  rw [topologyLoops, topologyForEdges, hstart, hloop]
  cases hchecked : edges.forM graph.checkEndpoints with
  | error e => rfl
  | ok u =>
      let pairs := edges.map WorkflowEdge.ends
      let rootNodes := (graph.nodes.keys.filter fun n => indegree pairs n = 0).insertionSort (· ≤ ·)
      have hends : ∀ edge ∈ edges, edge.source ∈ keys ∧ edge.target ∈ keys := by
        intro edge hedge
        obtain ⟨hsource, htarget⟩ := checkEndpoints_eq_ok.mp (forM_eq_ok.mp hchecked edge hedge)
        exact ⟨hkeys.mem_iff.mpr (AList.mem_keys.mp hsource),
          hkeys.mem_iff.mpr (AList.mem_keys.mp htarget)⟩
      have hcleared : (keys.filter fun n => (EdgeMaps.ofEdges keys edges).incoming n = some 0) =
          keys.filter fun n => indegree pairs n = 0 := by
        refine List.filter_congr fun n hn => ?_
        simp only [EdgeMaps.ofEdges, if_pos hn, Option.some.injEq]
        rfl
      -- two sorted lists with the same members are one
      have hroots : (keys.filter fun n => (EdgeMaps.ofEdges keys edges).incoming n = some 0
          ).insertionSort (· ≤ ·) = rootNodes := by
        rw [hcleared]
        refine List.Perm.eq_of_pairwise' (List.pairwise_insertionSort _ _)
          (List.pairwise_insertionSort _ _) ?_
        exact (List.perm_insertionSort _ _).trans
          ((hkeys.filter _).trans (List.perm_insertionSort _ _).symm)
      have hnodup : rootNodes.Nodup :=
        (List.perm_insertionSort _ _).nodup_iff.mpr (graph.nodes.keys_nodup.filter _)
      have hmem : ∀ n, n ∈ rootNodes ↔ n ∈ graph.nodes.keys ∧ indegree pairs n = 0 := by
        intro n
        rw [List.mem_insertionSort, List.mem_filter, decide_eq_true_iff]
      have hinside : ∀ e ∈ pairs, e.2 ∈ graph.nodes.keys := by
        intro e he
        obtain ⟨edge, hedge, rfl⟩ := List.mem_map.mp he
        exact hkeys.mem_iff.mp (hends edge hedge).2
      have hdrain : drain pairs fuel (indegree pairs) rootNodes =
          kahn graph.nodes.keys rootNodes pairs := drain_eq_kahn hnodup hmem hinside hfuel
      have hqueue : drainQueue (EdgeMaps.ofEdges keys edges).downstream fuel
          (counters keys (indegree pairs)) rootNodes =
            some (drain pairs fuel (indegree pairs) rootNodes) := drainQueue_eq
        (fun n => hkeys.mem_iff.symm) (fun edge hedge => (hends edge hedge).2)
        (draining_start hnodup hmem)
        (Nat.lt_of_le_of_lt (length_kahn_le hnodup hmem hinside fuel) hfuel)
      have hdownstream : (fun n => ((EdgeMaps.ofEdges keys edges).downstream n).getD []) =
          fun n => edges.filter fun edge => edge.source = n := by
        funext n
        by_cases hn : n ∈ keys
        · simp only [EdgeMaps.ofEdges, if_pos hn, Option.getD_some]
        · simp only [EdgeMaps.ofEdges, if_neg hn, Option.getD_none]
          refine (List.filter_eq_nil_iff.mpr fun edge hedge => ?_).symm
          rw [decide_eq_true_iff]
          rintro rfl
          exact hn (hends edge hedge).1
      show Option.map _ (drainQueue _ fuel (counters keys (indegree pairs)) _) =
        some ((ensure (decide ((kahn graph.nodes.keys rootNodes pairs).length =
          graph.nodes.keys.length)) _).bind fun _ => .ok _)
      rw [hroots, hqueue, hdrain, Option.map_some, hdownstream, hkeys.length_eq]
      by_cases hall : (kahn graph.nodes.keys rootNodes pairs).length = graph.nodes.keys.length
      · rw [if_pos hall, ensure, if_pos (decide_eq_true hall)]
        rfl
      · rw [if_neg hall, ensure, if_neg (by rwa [decide_eq_true_iff])]
        rfl

/-! ## What a topology says -/

/-- Some topology is made just if all ends are nodes and no way along the edges is a cycle. -/
theorem topologyForEdges_isOk_iff_acyclic : (∃ t, graph.topologyForEdges edges = .ok t) ↔
    (∀ edge ∈ edges, edge.source ∈ graph.nodes ∧ edge.target ∈ graph.nodes) ∧
      Acyclic (edges.map WorkflowEdge.ends) := by
  rw [topologyForEdges_isOk]
  refine and_congr_right fun _ => ⟨?_, ?_⟩
  · rintro ⟨rank, hrank⟩
    refine Acyclic.of_rank rank fun e he => ?_
    obtain ⟨edge, hedge, rfl⟩ := List.mem_map.mp he
    exact hrank edge hedge
  · intro hacyclic
    obtain ⟨rank, hrank⟩ := hacyclic.exists_rank
    exact ⟨rank, fun edge hedge => hrank _ (List.mem_map_of_mem hedge)⟩

theorem Sorts.of_topologyForEdges {t : WorkflowTopology} (h : graph.topologyForEdges edges = .ok t) :
    graph.Sorts edges t := by
  have hordered := topologyForEdges_ordered h
  rw [topologyForEdges, check_bind_eq_ok, check_bind_eq_ok, ensure_eq_ok, pure_eq_ok] at h
  obtain ⟨-, -, rfl⟩ := h
  refine ⟨?_, ?_, ?_, hordered.mem_rootNodes, ?_, fun n => rfl⟩
  · refine (List.perm_ext_iff_of_nodup hordered.topological.nodup graph.nodes.keys_nodup).mpr ?_
    intro n
    rw [hordered.mem_order, AList.mem_keys]
  · intro edge hedge
    refine hordered.topological.idxOf_lt (List.mem_map_of_mem hedge) ?_
    exact (hordered.mem_order _).mpr (hordered.ends_mem edge hedge).2
  · have hnodup := (List.perm_insertionSort (· ≤ ·) _).nodup_iff.mpr
      (graph.nodes.keys_nodup.filter fun n => indegree (edges.map WorkflowEdge.ends) n = 0)
    have hsorted := List.pairwise_insertionSort (· ≤ ·)
      (graph.nodes.keys.filter fun n => indegree (edges.map WorkflowEdge.ends) n = 0)
    exact (hsorted.and hnodup).imp fun h => lt_of_le_of_ne h.1 h.2
  · refine perm_flatMap_filter graph.nodes.keys_nodup fun edge hedge => ?_
    exact AList.mem_keys.mp (hordered.ends_mem edge hedge).1

/-- For every graph and every list of edges the loops come to an end, with one result for all orders
of the hash maps and without a counter below zero. The result is a topology exactly if all ends are
nodes and there is no cycle, and the topology sorts the nodes. -/
theorem topology_sorts (graph : WorkflowGraph) (edges : List WorkflowEdge) :
    ∃ result : Except EngineError WorkflowTopology,
      (∀ keys : List String, keys.Perm graph.nodes.keys → ∀ fuel, graph.nodes.keys.length < fuel →
        graph.topologyLoops keys fuel edges = some result) ∧
      ((∃ t, result = .ok t) ↔
        (∀ edge ∈ edges, edge.source ∈ graph.nodes ∧ edge.target ∈ graph.nodes) ∧
          Acyclic (edges.map WorkflowEdge.ends)) ∧
      ∀ t, result = .ok t → graph.Sorts edges t := by
  refine ⟨graph.topologyForEdges edges, ?_, topologyForEdges_isOk_iff_acyclic, ?_⟩
  · intro keys hkeys fuel hfuel
    exact topologyLoops_eq hkeys hfuel
  · intro t ht
    exact .of_topologyForEdges ht

end WorkflowGraph
end Nazh
