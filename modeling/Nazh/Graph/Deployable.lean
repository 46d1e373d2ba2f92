import Nazh.Graph.Deploy
import Nazh.Graph.FromJson

/-!
# Graphs that can be deployed

What the checks before a deployment ask for, as one statement about the graph: its variables and
connections are in order, every node can be made, the pins go together with the edges, and a rank
grows along the edges. The order in which the nodes are made makes no difference.
-/

namespace Nazh

open Lib

variable {env : DeployEnv} {graph : WorkflowGraph} {nodes : NodeIndex} {edges : List WorkflowEdge}

/-! ## The nodes -/

/-- The node that is made for a key. -/
def madeOf (env : DeployEnv) (graph : WorkflowGraph) (key : String) : Option NodeTrait :=
  (graph.nodes.lookup key).bind fun definition => (env.create definition).toOption

/-- The nodes that are made are found under their keys. -/
theorem lookup_createNodes {ids : List String} {index : NodeIndex}
    (h : createNodes env graph ids index = .ok nodes) (key : String) :
    nodes.lookup key = if key ∈ ids then madeOf env graph key else index.lookup key := by
  induction ids generalizing index with
  | nil =>
      cases h
      simp
  | cons id rest ih =>
      simp only [createNodes, bind_eq_ok, okOr_eq_ok] at h
      obtain ⟨definition, hdefinition, node, hnode, hrest⟩ := h
      have hmade : madeOf env graph id = some node := by
        simp [madeOf, hdefinition, hnode, Except.toOption]
      rw [ih hrest]
      by_cases hkey : key = id
      · subst hkey
        simp [hmade]
      · simp [hkey, AList.lookup_insert_ne hkey]

theorem createNodes_isOk {ids : List String} {index : NodeIndex} :
    (∃ nodes, createNodes env graph ids index = .ok nodes) ↔
      ∀ id ∈ ids, (madeOf env graph id).isSome = true := by
  induction ids generalizing index with
  | nil => simp [createNodes]
  | cons id rest ih =>
      rw [List.forall_mem_cons]
      constructor
      · rintro ⟨nodes, h⟩
        simp only [createNodes, bind_eq_ok, okOr_eq_ok] at h
        obtain ⟨definition, hdefinition, node, hnode, hrest⟩ := h
        refine ⟨?_, ih.mp ⟨nodes, hrest⟩⟩
        simp [madeOf, hdefinition, hnode, Except.toOption]
      · rintro ⟨hfirst, hrest⟩
        obtain ⟨node, hmade⟩ := Option.isSome_iff_exists.mp hfirst
        obtain ⟨definition, hdefinition, hcreate⟩ := Option.bind_eq_some_iff.mp hmade
        have hnode : env.create definition = .ok node := by
          cases hc : env.create definition with
          | error e =>
              rw [hc] at hcreate
              cases hcreate
          | ok made =>
              rw [hc] at hcreate
              rw [Option.some.inj hcreate]
        obtain ⟨nodes, hnodes⟩ := (@ih (index.insert id node)).mpr hrest
        refine ⟨nodes, ?_⟩
        simp only [createNodes, bind_eq_ok, okOr_eq_ok]
        exact ⟨definition, hdefinition, node, hnode, hnodes⟩

/-- If every node can be made, there is an index of them. -/
theorem exists_nodes (h : ∀ key ∈ graph.nodes, (madeOf env graph key).isSome = true) :
    ∃ nodes : NodeIndex, ∀ key, nodes.lookup key = madeOf env graph key := by
  obtain ⟨nodes, hnodes⟩ : ∃ nodes, createNodes env graph graph.nodes.keys ∅ = .ok nodes :=
    createNodes_isOk.mpr fun id hid => h id (AList.mem_keys.mpr hid)
  refine ⟨nodes, fun key => ?_⟩
  rw [lookup_createNodes hnodes, AList.lookup_empty]
  by_cases hkey : key ∈ graph.nodes
  · rw [if_pos (AList.mem_keys.mp hkey)]
  · have hnone : graph.nodes.lookup key = none := AList.lookup_eq_none.mpr hkey
    rw [if_neg fun hmem => hkey (AList.mem_keys.mpr hmem), madeOf, hnone]
    rfl

/-- The pins are looked up by key. -/
theorem PinsCompatible.congr {nodes' : NodeIndex} (h : PinsCompatible nodes edges)
    (hlookup : ∀ key, nodes'.lookup key = nodes.lookup key) : PinsCompatible nodes' edges where
  nodup key node hnode := h.nodup key node (hlookup key ▸ hnode)
  joined edge hedge := by
    have hjoined := h.joined edge hedge
    simp only [Joined, hlookup] at hjoined ⊢
    exact hjoined
  covered key node hnode := h.covered key node (hlookup key ▸ hnode)
  reserved key node hnode := h.reserved key node (hlookup key ▸ hnode)

/-! ## The kinds of the edges -/

/-- The kind of the pin an edge starts from. -/
def kindOf (nodes : NodeIndex) (edge : WorkflowEdge) : Option PinKind :=
  (nodes.lookup edge.source).bind fun node =>
    (findPin node.outputPins edge.sourcePin).map PinDefinition.kind

theorem Joined.kindOf_isSome {edge : WorkflowEdge} (h : Joined nodes edge) :
    (kindOf nodes edge).isSome = true := by
  obtain ⟨source, hsource, -, -, fromPin, hfrom, -⟩ := h
  simp [kindOf, Option.mem_def.mp hsource, Option.mem_def.mp hfrom]

theorem sourcePinOf_isOk {edge : WorkflowEdge} (h : (kindOf nodes edge).isSome = true) :
    ∃ pin, sourcePinOf nodes edge = .ok pin ∧ kindOf nodes edge = some pin.kind := by
  obtain ⟨kind, hkind⟩ := Option.isSome_iff_exists.mp h
  obtain ⟨node, hnode, hmap⟩ := Option.bind_eq_some_iff.mp hkind
  obtain ⟨pin, hpin, rfl⟩ := Option.map_eq_some_iff.mp hmap
  exact ⟨pin, sourcePinOf_eq_ok.mpr ⟨node, hnode, hpin⟩, hkind⟩

theorem classifyEdges_isOk (h : ∀ edge ∈ edges, (kindOf nodes edge).isSome = true) :
    ∃ classified, classifyEdges nodes edges = .ok classified := by
  induction edges with
  | nil => exact ⟨_, rfl⟩
  | cons edge rest ih =>
      obtain ⟨hedge, hrest⟩ := List.forall_mem_cons.mp h
      obtain ⟨pin, hpin, -⟩ := sourcePinOf_isOk hedge
      obtain ⟨classified, hclassified⟩ := ih hrest
      refine ⟨classified.push edge pin.kind, ?_⟩
      simp only [classifyEdges, bind_eq_ok, pure_eq_ok]
      exact ⟨pin, hpin, classified, hclassified, rfl⟩

/-- The edges of a kind, in the order of the graph. -/
theorem ofKind_eq_filter {classified : ClassifiedEdges}
    (h : classifyEdges nodes edges = .ok classified) (kind : PinKind) :
    classified.ofKind kind = edges.filter fun edge => kindOf nodes edge = some kind := by
  induction edges generalizing classified with
  | nil =>
      cases h
      cases kind <;> rfl
  | cons edge rest ih =>
      simp only [classifyEdges, bind_eq_ok, pure_eq_ok] at h
      obtain ⟨pin, hpin, classified', hrest, rfl⟩ := h
      obtain ⟨node, hnode, hfind⟩ := sourcePinOf_eq_ok.mp hpin
      have hkind : kindOf nodes edge = some pin.kind := by simp [kindOf, hnode, hfind]
      rw [ClassifiedEdges.ofKind_push, List.filter_cons, ih hrest, hkind]
      simp only [Option.some.injEq, decide_eq_true_eq]

/-- The edges that push are those that do not start from a data pin. -/
theorem pushed_perm {classified : ClassifiedEdges}
    (h : classifyEdges nodes edges = .ok classified) :
    classified.pushed.Perm (edges.filter fun edge => kindOf nodes edge ≠ some .data) := by
  have hexec : classified.execEdges = _ := ofKind_eq_filter h .exec
  have hreactive : classified.reactiveEdges = _ := ofKind_eq_filter h .reactive
  have hall : ∀ edge ∈ edges, (kindOf nodes edge).isSome = true := by
    intro edge hedge
    obtain ⟨kind, node, hnode, pin, hpin, -⟩ := exists_startsFrom h hedge
    simp [kindOf, Option.mem_def.mp hnode, Option.mem_def.mp hpin]
  rw [ClassifiedEdges.pushed, hexec, hreactive]
  refine List.Perm.trans ?_ (List.filter_append_perm (fun edge => kindOf nodes edge = some .exec) _)
  rw [List.filter_filter, List.filter_filter]
  refine List.Perm.of_eq (congrArg₂ _ ?_ ?_)
  · refine List.filter_congr fun edge _ => ?_
    cases kindOf nodes edge with
    | none => rfl
    | some kind => cases kind <;> rfl
  · refine List.filter_congr fun edge hedge => ?_
    have hsome := hall edge hedge
    cases hkind : kindOf nodes edge with
    | none => simp [hkind] at hsome
    | some kind => cases kind <;> rfl

/-- Where a rank grows along every edge there is no cycle to be found. -/
theorem detectNonExecEdgeCycle_of_rank {classified : ClassifiedEdges} {rank : String → ℕ}
    (hrank : ∀ edge ∈ classified.combined, rank edge.source < rank edge.target) :
    detectNonExecEdgeCycle classified = .ok () := by
  by_cases hempty : classified.combined = []
  · simp [detectNonExecEdgeCycle, hempty]
  · simp only [detectNonExecEdgeCycle, List.isEmpty_iff, if_neg hempty, ensure_eq_ok,
      decide_eq_true_iff]
    have hmem : ∀ e ∈ classified.combined.map WorkflowEdge.ends,
        e.1 ∈ involvedNodes classified.combined ∧ e.2 ∈ involvedNodes classified.combined ∧
          rank e.1 < rank e.2 := by
      intro e he
      obtain ⟨edge, hedge, rfl⟩ := List.mem_map.mp he
      exact ⟨mem_involvedNodes.mpr ⟨edge, hedge, .inl rfl⟩,
        mem_involvedNodes.mpr ⟨edge, hedge, .inr rfl⟩, hrank edge hedge⟩
    refine length_kahn_of_rank ((List.nodup_dedup _).filter _) ?_ (fun e he => (hmem e he).2.1)
      (List.nodup_dedup _) (fun e he => (hmem e he).1) fun e he => (hmem e he).2.2
    intro n
    rw [List.mem_filter, decide_eq_true_iff]

/-! ## The checks -/

/-- What the checks ask for. -/
structure Deployable (env : DeployEnv) (graph : WorkflowGraph) : Prop where
  declarations : ∃ vars, buildWorkflowVariables graph.declarations env.now = .ok vars
  runtime : env.hasRuntime = true
  made : ∀ key ∈ graph.nodes, (madeOf env graph key).isSome = true
  compatible : ∃ nodes : NodeIndex, (∀ key, nodes.lookup key = madeOf env graph key) ∧
    PinsCompatible nodes graph.edges
  ranked : ∃ rank : String → ℕ, ∀ edge ∈ graph.edges, rank edge.source < rank edge.target
  connections : env.upsertConnections graph.connections = .ok ()

theorem mem_of_madeOf {key : String} {node : NodeTrait} (h : madeOf env graph key = some node) :
    key ∈ graph.nodes := by
  obtain ⟨definition, hdefinition, -⟩ := Option.bind_eq_some_iff.mp h
  exact AList.lookup_isSome.mp (hdefinition ▸ rfl)

/-- What is prepared of a graph. -/
structure Prepared.Of (env : DeployEnv) (graph : WorkflowGraph) (p : Prepared) : Prop where
  nodes : ∀ key, p.nodes.lookup key = madeOf env graph key
  compatible : PinsCompatible p.nodes graph.edges
  classified : classifyEdges p.nodes graph.edges = .ok p.classified
  downstream : ∀ n, p.topology.downstream n =
    p.classified.pushed.filter fun edge => edge.source = n

/-- The nodes that are made in the order of the graph. -/
theorem lookup_nodes {structural : WorkflowTopology} (hstructural : graph.topology = .ok structural)
    (hnodes : createNodes env graph structural.deploymentOrder ∅ = .ok nodes) (key : String) :
    nodes.lookup key = madeOf env graph key := by
  have hordered := WorkflowGraph.topologyForEdges_ordered hstructural
  rw [lookup_createNodes hnodes, AList.lookup_empty]
  by_cases hkey : key ∈ graph.nodes
  · rw [if_pos ((hordered.mem_order key).mpr hkey)]
  · have hnone : graph.nodes.lookup key = none := AList.lookup_eq_none.mpr hkey
    rw [if_neg fun hmem => hkey ((hordered.mem_order key).mp hmem), madeOf, hnone]
    rfl

theorem edgeKindLookup_isOk {edge : WorkflowEdge} (h : Joined nodes edge) :
    ∃ kind, edgeKindLookup nodes edge = .ok kind := by
  obtain ⟨source, hsource, -⟩ := h
  simp only [edgeKindLookup, bind_eq_ok, okOr_eq_ok, pure_eq_ok]
  exact ⟨_, source, hsource, rfl⟩

theorem of_prepare {p : Prepared} (h : prepare env graph = .ok p) : p.Of env graph := by
  simp only [prepare, bind_eq_ok, pure_eq_ok, ensure_eq_ok, exists_const] at h
  obtain ⟨structural, hstructural, -, -, -, nodes, hnodes, ⟨⟩, hpins, classified, hclassified, ⟨⟩,
    -, topology, htopology, ⟨⟩, -, -, -, rfl⟩ := h
  refine ⟨lookup_nodes hstructural hnodes, validatePinCompatibility_eq_ok.mp hpins, hclassified,
    fun n => ?_⟩
  rw [WorkflowGraph.topologyForEdges, check_bind_eq_ok, check_bind_eq_ok, pure_eq_ok] at htopology
  rw [← htopology.2.2]

/-- The checks are passed exactly by the graphs that can be deployed. -/
theorem prepare_isOk : (∃ p, prepare env graph = .ok p) ↔ Deployable env graph := by
  constructor
  · rintro ⟨p, h⟩
    obtain ⟨hlookup, hcompatible, -, -⟩ := of_prepare h
    simp only [prepare, bind_eq_ok, pure_eq_ok, ensure_eq_ok, exists_const] at h
    obtain ⟨structural, hstructural, vars, hvars, hruntime, nodes, hnodes, ⟨⟩, -, -, -, ⟨⟩, -, -, -,
      ⟨⟩, hconnections, -⟩ := h
    obtain ⟨-, hrank⟩ := WorkflowGraph.topologyForEdges_isOk.mp ⟨_, hstructural⟩
    have hordered := WorkflowGraph.topologyForEdges_ordered hstructural
    exact ⟨⟨vars, hvars⟩, hruntime,
      fun key hkey => createNodes_isOk.mp ⟨nodes, hnodes⟩ key ((hordered.mem_order key).mpr hkey),
      ⟨p.nodes, hlookup, hcompatible⟩, hrank, hconnections⟩
  · intro h
    obtain ⟨vars, hvars⟩ := h.declarations
    obtain ⟨reference, hreference, hcompatible⟩ := h.compatible
    obtain ⟨rank, hrank⟩ := h.ranked
    have hends : ∀ edge ∈ graph.edges, edge.source ∈ graph.nodes ∧ edge.target ∈ graph.nodes := by
      intro edge hedge
      obtain ⟨source, hsource, target, htarget, -⟩ := hcompatible.joined edge hedge
      exact ⟨mem_of_madeOf ((hreference _).symm.trans hsource),
        mem_of_madeOf ((hreference _).symm.trans htarget)⟩
    obtain ⟨structural, hstructural⟩ := WorkflowGraph.topologyForEdges_isOk.mpr ⟨hends, rank, hrank⟩
    have hordered := WorkflowGraph.topologyForEdges_ordered hstructural
    obtain ⟨nodes, hnodes⟩ : ∃ nodes, createNodes env graph structural.deploymentOrder ∅ = .ok nodes :=
      createNodes_isOk.mpr fun id hid =>
      h.made id ((hordered.mem_order id).mp hid)
    have hlookup : ∀ key, nodes.lookup key = reference.lookup key := fun key => by
      rw [lookup_nodes hstructural hnodes, hreference]
    have hpins := hcompatible.congr hlookup
    obtain ⟨classified, hclassified⟩ := classifyEdges_isOk fun edge hedge =>
      (hpins.joined edge hedge).kindOf_isSome
    have hmem : ∀ kind, ∀ edge ∈ classified.ofKind kind, edge ∈ graph.edges := fun kind edge hedge =>
      ((mem_ofKind hclassified kind).mp hedge).1
    have hcycle := @detectNonExecEdgeCycle_of_rank classified rank
      fun edge hedge => hrank edge ((List.mem_append.mp hedge).elim (hmem .data edge)
        (hmem .reactive edge))
    have hpushed : ∀ edge ∈ classified.pushed, edge ∈ graph.edges := fun edge hedge =>
      (List.mem_append.mp hedge).elim (hmem .exec edge) (hmem .reactive edge)
    obtain ⟨topology, htopology⟩ := WorkflowGraph.topologyForEdges_isOk.mpr
      ⟨fun edge hedge => hends edge (hpushed edge hedge), rank,
        fun edge hedge => hrank edge (hpushed edge hedge)⟩
    obtain ⟨kinds, hkinds⟩ := mapM_isOk fun edge hedge => edgeKindLookup_isOk (hpins.joined edge hedge)
    refine ⟨⟨nodes, classified, topology⟩, ?_⟩
    simp only [prepare, bind_eq_ok, pure_eq_ok, ensure_eq_ok, exists_const]
    exact ⟨structural, hstructural, vars, hvars, h.runtime, nodes, hnodes, (),
      validatePinCompatibility_eq_ok.mpr hpins, classified, hclassified, (), hcycle, topology,
      htopology, (), h.connections, kinds, hkinds, rfl⟩

end Nazh
