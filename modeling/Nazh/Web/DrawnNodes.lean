import Nazh.Lib.Except
import Nazh.Lib.Lists
import Nazh.Web.Flowgram

/-!
# What is drawn and what is deployed

A drawn graph has levels: the graph itself, and what is drawn in a node of a level. The flattening
opens some of the levels, those that are in subgraphs only, and gives their nodes and edges ids that
begin with the ids of the nodes around them. Nothing that is drawn on another level is deployed.
-/

namespace Nazh.Web

open Lib

/-! ## Levels -/

/-- A graph that is drawn in nodes one in another. -/
inductive Level : EditorGraph → List EditorNode → EditorGraph → Prop
  | top (graph : EditorGraph) : Level graph [] graph
  | inside {graph level : EditorGraph} {container : EditorNode} {path : List EditorNode}
      (hmem : container ∈ graph.nodes) (h : Level container.inner path level) :
      Level graph (container :: path) level

/-- All of the nodes around a level are subgraphs. -/
def InSubgraphs (path : List EditorNode) : Prop := ∀ c ∈ path, c.isContainerNode = true

/-- On each level the ids are unique, and free of the separator. -/
structure IsDrawn (graph : EditorGraph) : Prop where
  nodup : ∀ path level, Level graph path level → (level.nodes.map EditorNode.id).Nodup
  free : ∀ path level, Level graph path level → ∀ node ∈ level.nodes, '/' ∉ node.id.toList

/-- The id of a node on a level. -/
def pathId (path : List EditorNode) (id : String) : String :=
  path.foldr (fun container id => prefixId container.id id) id

/-- The node that is deployed for one on a level. -/
def EditorNode.under (numberText : Number → String) (path : List EditorNode) (node : EditorNode) :
    EditorNode :=
  node.withIdData (pathId path node.id)
    (path.foldr (fun container data => container.bindData numberText data) node.data)

/-- An edge on a level. -/
def EditorEdge.under (path : List EditorNode) (edge : EditorEdge) : EditorEdge :=
  { edge with
    sourceNodeID := pathId path edge.sourceNodeID
    targetNodeID := pathId path edge.targetNodeID }

namespace EditorGraph

/-- A node that is not for the editor alone has the id. -/
def HasBusiness (level : EditorGraph) (id : String) : Prop :=
  ∃ node ∈ level.nodes, node.id = id ∧ node.isBusinessNode = true

/-- A node that is no subgraph has the id. -/
def HasPlain (level : EditorGraph) (id : String) : Prop :=
  ∃ node ∈ level.nodes, node.id = id ∧ node.isContainerNode = false

end EditorGraph

/-- An edge between two nodes of its level that are not for the editor alone. -/
def EditorEdge.IsBusiness (edge : EditorEdge) (level : EditorGraph) : Prop :=
  level.HasBusiness edge.sourceNodeID ∧ level.HasBusiness edge.targetNodeID

/-- An edge between two nodes of its level that are no subgraphs. -/
def EditorEdge.IsPlain (edge : EditorEdge) (level : EditorGraph) : Prop :=
  level.HasPlain edge.sourceNodeID ∧ level.HasPlain edge.targetNodeID

/-- What is drawn is deployed: each node under its id, and each edge as often as it is drawn. -/
structure DeploysAll (numberText : Number → String) (graph : EditorGraph)
    (previousGraph deployed : WorkflowGraph) : Prop where
  nodes : ∀ path level, Level graph path level → ∀ node ∈ level.nodes, node.isBusinessNode = true →
    deployed.nodes.lookup (pathId path node.id) =
      some (toNodeDefinition (previousGraph.nodes.lookup (pathId path node.id))
        (node.under numberText path))
  edges : ∀ path level, Level graph path level → ∀ edge ∈ level.edges, edge.IsBusiness level →
    deployed.edges.count (edge.under path).deployed =
      (level.edges.map EditorEdge.deployed).count edge.deployed

/-- A node is in subgraphs only and is none itself. With the parameters filled in it is not for the
editor alone, and can be a member of a record. -/
structure EditorNode.Stays (numberText : Number → String) (path : List EditorNode)
    (node : EditorNode) : Prop where
  opened : InSubgraphs path
  plain : node.isContainerNode = false
  business : (node.under numberText path).isBusinessNode = true
  member : isMemberKey (pathId path node.id) = true

/-- No edge that is led over a bridge, or is not between nodes of its level, comes to lie on this
edge. -/
def EditorEdge.Clear (graph : EditorGraph) (path : List EditorNode) (edge : EditorEdge) : Prop :=
  ∀ path' level', Level graph path' level' → InSubgraphs path' → ∀ edge' ∈ level'.edges,
    ¬ edge'.IsPlain level' →
      ((level'.reroute edge').under path').deployed ≠ (edge.under path).deployed

/-- Every node that is not for the editor alone stays, and nothing comes to lie on an edge between
two such nodes. -/
structure Opens (numberText : Number → String) (graph : EditorGraph) : Prop where
  nodes : ∀ path level, Level graph path level → ∀ node ∈ level.nodes, node.isBusinessNode = true →
    node.Stays numberText path
  edges : ∀ path level, Level graph path level → ∀ edge ∈ level.edges, edge.IsBusiness level →
    edge.Clear graph path

/-! ## Ids -/

section Ids

variable {graph level level' : EditorGraph} {path path' : List EditorNode}
  {container node : EditorNode} {id id' : String}

theorem toList_prefixId (containerId innerId : String) :
    (prefixId containerId innerId).toList = containerId.toList ++ '/' :: innerId.toList := by
  change (containerId ++ "/" ++ innerId).toList = _
  rw [String.toList_append, String.toList_append, List.append_assoc]
  rfl

/-- An id in a subgraph is told apart at its first separator. -/
theorem prefixId_inj {c d x y : String} (hc : '/' ∉ c.toList) (hd : '/' ∉ d.toList)
    (h : prefixId c x = prefixId d y) : c = d ∧ x = y := by
  have hlist := congrArg String.toList h
  rw [toList_prefixId, toList_prefixId] at hlist
  obtain ⟨hcd, hxy⟩ := append_cons_inj hc hd hlist
  exact ⟨String.toList_injective hcd, String.toList_injective hxy⟩

theorem separator_mem_prefixId (c x : String) : '/' ∈ (prefixId c x).toList := by
  rw [toList_prefixId]
  exact List.mem_append_right _ List.mem_cons_self

theorem IsDrawn.inner (h : IsDrawn graph) (hmem : container ∈ graph.nodes) : IsDrawn container.inner where
  nodup _ _ hlevel := h.nodup _ _ (.inside hmem hlevel)
  free _ _ hlevel := h.free _ _ (.inside hmem hlevel)

theorem IsDrawn.free_of_mem (h : IsDrawn graph) (hmem : node ∈ graph.nodes) : '/' ∉ node.id.toList :=
  h.free [] graph (.top graph) node hmem

/-- On a level a node is told by its id. -/
theorem IsDrawn.eq_of_id (h : IsDrawn graph) (hmem : node ∈ graph.nodes)
    (hcontainer : container ∈ graph.nodes) (hid : node.id = container.id) : node = container :=
  List.inj_on_of_nodup_map (h.nodup [] graph (.top graph)) hmem hcontainer hid

/-- The id of a node that is no deeper than its level says where it is, for any id below a level. -/
theorem exists_rest_of_pathId (hdrawn : IsDrawn graph) (hlevel : Level graph path level)
    (hid : '/' ∉ id.toList) (hlevel' : Level graph path' level')
    (h : pathId path' id' = pathId path id) :
    ∃ rest, path = path' ++ rest ∧ Level level' rest level ∧ id' = pathId rest id := by
  induction hlevel' generalizing path with
  | top graph => exact ⟨path, rfl, hlevel, h⟩
  | @inside graph level' c path' hmem hlevel' ih =>
      cases hlevel with
      | top =>
          have hsep : '/' ∈ id.toList := by
            have heq : prefixId c.id (pathId path' id') = id := h
            rw [← heq]
            exact separator_mem_prefixId _ _
          exact absurd hsep hid
      | @inside _ _ d path hmem' hlevel =>
          have heq : prefixId c.id (pathId path' id') = prefixId d.id (pathId path id) := h
          obtain ⟨hcd, hrest⟩ :=
            prefixId_inj (hdrawn.free_of_mem hmem) (hdrawn.free_of_mem hmem') heq
          obtain rfl := hdrawn.eq_of_id hmem hmem' hcd
          obtain ⟨rest, rfl, hlevel, hid'⟩ := ih (hdrawn.inner hmem) hlevel hrest
          exact ⟨rest, rfl, hlevel, hid'⟩

theorem Level.isDrawn (h : Level graph path level) (hdrawn : IsDrawn graph) : IsDrawn level := by
  induction h with
  | top => exact hdrawn
  | inside hmem h ih => exact ih (hdrawn.inner hmem)

/-- Ids free of the separator are the ids of one level. -/
theorem pathId_inj (hdrawn : IsDrawn graph) (hlevel : Level graph path level)
    (hlevel' : Level graph path' level') (hid : '/' ∉ id.toList) (hid' : '/' ∉ id'.toList)
    (h : pathId path' id' = pathId path id) : path' = path ∧ level' = level ∧ id' = id := by
  obtain ⟨rest, rfl, hrest, heq⟩ := exists_rest_of_pathId hdrawn hlevel hid hlevel' h
  cases hrest with
  | top => exact ⟨(List.append_nil _).symm, rfl, heq⟩
  | @inside _ _ c path hmem hrest =>
      have hsep : '/' ∈ id'.toList := by
        have hconcat : id' = prefixId c.id (pathId path id) := heq
        rw [hconcat]
        exact separator_mem_prefixId _ _
      exact absurd hsep hid'

end Ids

/-! ## What the flattening makes of the levels -/

/-- A level that is opened, and how many levels may be opened from it on. -/
structure OpenedLevel where
  levels : ℕ
  path : List EditorNode
  graph : EditorGraph

/-- The levels that are opened. -/
def openedLevels : ℕ → EditorGraph → List OpenedLevel
  | 0, _ => []
  | levels + 1, graph => ⟨levels + 1, [], graph⟩ ::
      (graph.nodes.filter EditorNode.isContainerNode).flatMap fun container =>
        (openedLevels levels container.inner).map fun o => { o with path := container :: o.path }

/-- The nodes of a level that are no subgraphs. -/
def EditorGraph.plainNodes (graph : EditorGraph) : List EditorNode :=
  graph.nodes.filter fun node => !node.isContainerNode

/-- The ids that the flattening gives. -/
def flatIds (levels : ℕ) (graph : EditorGraph) : List String :=
  (openedLevels levels graph).flatMap fun o =>
    o.graph.plainNodes.map fun node => pathId o.path node.id

namespace OpenedLevel

def flatNodes (numberText : Number → String) (o : OpenedLevel) : List EditorNode :=
  o.graph.plainNodes.map (EditorNode.under numberText o.path)

/-- The edges of a level that are kept. -/
def kept (o : OpenedLevel) : List EditorEdge :=
  (o.graph.edges.map o.graph.reroute).filter fun edge => edge.within (flatIds o.levels o.graph)

def flatEdges (o : OpenedLevel) : List EditorEdge := o.kept.map (EditorEdge.under o.path)

end OpenedLevel

section Flattening

variable {numberText : Number → String} {levels : ℕ} {ancestorIds : List String}
  {graph flat : EditorGraph} {nodes : List EditorNode} {parts : List EditorGraph}

/-- A node in a subgraph as the flattening has it. -/
def EditorNode.inContainer (numberText : Number → String) (container node : EditorNode) : EditorNode :=
  node.withIdData (prefixId container.id node.id) (container.bindData numberText node.data)

theorem under_cons (container : EditorNode) (path : List EditorNode) (node : EditorNode) :
    node.under numberText (container :: path) =
      EditorNode.inContainer numberText container (node.under numberText path) := by
  simp [EditorNode.under, EditorNode.inContainer, pathId]

theorem under_nil (node : EditorNode) : node.under numberText [] = node := by
  cases node; rfl

theorem flatNodes_cons (container : EditorNode) (o : OpenedLevel) :
    OpenedLevel.flatNodes numberText { o with path := container :: o.path } =
      (o.flatNodes numberText).map (EditorNode.inContainer numberText container) := by
  simp [OpenedLevel.flatNodes, under_cons]

theorem flatEdges_cons (container : EditorNode) (o : OpenedLevel) :
    OpenedLevel.flatEdges { o with path := container :: o.path } =
      o.flatEdges.map (EditorEdge.prefixed container.id) := by
  simp only [OpenedLevel.flatEdges, List.map_map]
  rfl

/-- What the loop over the nodes gives, if the same is known of what is in them. -/
theorem parts_perm
    (hrecurse : ∀ ancestorIds graph flat, flattenSubgraphs numberText levels ancestorIds graph = .ok flat →
      flat.nodes.Perm ((openedLevels levels graph).flatMap (OpenedLevel.flatNodes numberText)) ∧
        flat.edges.Perm ((openedLevels levels graph).flatMap OpenedLevel.flatEdges))
    (h : List.Forall₂ (fun node part => flattenNode numberText
      (flattenSubgraphs numberText levels) ancestorIds node = .ok part) nodes parts) :
    (parts.flatMap EditorGraph.nodes).Perm
        ((nodes.filter fun node => !node.isContainerNode) ++
          (nodes.filter EditorNode.isContainerNode).flatMap fun container =>
            ((openedLevels levels container.inner).flatMap (OpenedLevel.flatNodes numberText)).map
              (EditorNode.inContainer numberText container)) ∧
      (parts.flatMap EditorGraph.edges).Perm
        ((nodes.filter EditorNode.isContainerNode).flatMap fun container =>
          ((openedLevels levels container.inner).flatMap OpenedLevel.flatEdges).map
            (EditorEdge.prefixed container.id)) := by
  induction h with
  | nil => exact ⟨.refl _, .refl _⟩
  | @cons node part nodes parts hnode hrest ih =>
      obtain ⟨ihNodes, ihEdges⟩ := ih
      unfold flattenNode at hnode
      by_cases hcontainer : node.isContainerNode = true
      · rw [if_pos hcontainer] at hnode
        by_cases hcycle : node.id ∈ ancestorIds
        · rw [if_pos hcycle] at hnode
          cases hnode
        · rw [if_neg hcycle, bind_eq_ok] at hnode
          obtain ⟨inner, hinner, hnode⟩ := hnode
          cases hnode
          obtain ⟨hnodes, hedges⟩ := hrecurse _ _ _ hinner
          simp only [List.flatMap_cons, List.filter_cons, hcontainer, Bool.not_true, if_true,
            Bool.false_eq_true, if_false]
          constructor
          · refine ((hnodes.map _).append ihNodes).trans ?_
            rw [← List.append_assoc, ← List.append_assoc]
            exact List.Perm.append_right _ List.perm_append_comm
          · exact (hedges.map _).append ihEdges
      · rw [if_neg hcontainer] at hnode
        cases hnode
        have hplain : node.isContainerNode = false := by simpa using hcontainer
        simp only [List.flatMap_cons, List.filter_cons, hplain, Bool.not_false, if_true,
          Bool.false_eq_true, if_false, List.nil_append]
        exact ⟨ihNodes.cons _, ihEdges⟩

theorem flatMap_openedLevels {β : Type} (f : OpenedLevel → List β) :
    (openedLevels (levels + 1) graph).flatMap f = f ⟨levels + 1, [], graph⟩ ++
      (graph.nodes.filter EditorNode.isContainerNode).flatMap fun container =>
        (openedLevels levels container.inner).flatMap
          fun o => f { o with path := container :: o.path } := by
  rw [openedLevels, List.flatMap_cons, List.flatMap_assoc]
  simp only [List.flatMap_map]

theorem flatIds_eq (numberText : Number → String) : flatIds levels graph =
    ((openedLevels levels graph).flatMap (OpenedLevel.flatNodes numberText)).map EditorNode.id := by
  rw [List.map_flatMap, flatIds]
  simp [OpenedLevel.flatNodes, EditorNode.under, Function.comp_def]

/-- The flattened graph has what the opened levels have. -/
theorem flatten_perm (h : flattenSubgraphs numberText levels ancestorIds graph = .ok flat) :
    flat.nodes.Perm ((openedLevels levels graph).flatMap (OpenedLevel.flatNodes numberText)) ∧
      flat.edges.Perm ((openedLevels levels graph).flatMap OpenedLevel.flatEdges) := by
  induction levels generalizing ancestorIds graph flat with
  | zero => cases h
  | succ levels ih =>
      simp only [flattenSubgraphs, bind_eq_ok] at h
      obtain ⟨parts, hparts, h⟩ := h
      cases h
      obtain ⟨hnodes, hedges⟩ := parts_perm (fun _ _ _ => ih) (forall₂_of_mapM hparts)
      have hflat : (parts.flatMap EditorGraph.nodes).Perm
          ((openedLevels (levels + 1) graph).flatMap (OpenedLevel.flatNodes numberText)) := by
        have htop : OpenedLevel.flatNodes numberText ⟨levels + 1, [], graph⟩ = graph.plainNodes := by
          rw [OpenedLevel.flatNodes, show EditorNode.under numberText [] = id from funext under_nil,
            List.map_id]
        rw [flatMap_openedLevels, htop]
        simp only [flatNodes_cons, ← List.map_flatMap]
        exact hnodes
      refine ⟨hflat, ?_⟩
      rw [flatMap_openedLevels]
      simp only [flatEdges_cons, ← List.map_flatMap]
      refine (List.perm_append_comm).trans (List.Perm.append (List.Perm.of_eq ?_) hedges)
      have hwithin : ∀ edge : EditorEdge, edge.within
          ((parts.flatMap EditorGraph.nodes).map EditorNode.id) =
          edge.within (flatIds (levels + 1) graph) := by
        intro edge
        have hmem : ∀ id, id ∈ (parts.flatMap EditorGraph.nodes).map EditorNode.id ↔
            id ∈ flatIds (levels + 1) graph := by
          intro id
          rw [flatIds_eq numberText]
          exact (hflat.map _).mem_iff
        simp only [EditorEdge.within, List.contains_eq_mem, hmem]
      simp only [OpenedLevel.flatEdges, OpenedLevel.kept, hwithin]
      exact (List.map_id _).symm

/-! ## Which levels are opened -/

theorem level_of_mem_openedLevels {o : OpenedLevel} (h : o ∈ openedLevels levels graph) :
    Level graph o.path o.graph ∧ InSubgraphs o.path ∧ 0 < o.levels := by
  induction levels generalizing graph o with
  | zero => cases h
  | succ levels ih =>
      rcases List.mem_cons.mp h with rfl | h
      · exact ⟨.top graph, fun c hc => absurd hc List.not_mem_nil, Nat.succ_pos levels⟩
      · obtain ⟨container, hcontainer, h⟩ := List.mem_flatMap.mp h
        obtain ⟨hmem, hopen⟩ := List.mem_filter.mp hcontainer
        obtain ⟨o, ho, rfl⟩ := List.mem_map.mp h
        obtain ⟨hlevel, hin, hpos⟩ := ih ho
        exact ⟨.inside hmem hlevel, List.forall_mem_cons.mpr ⟨hopen, hin⟩, hpos⟩

/-- If the flattening succeeds, it opens every level that is in subgraphs only. -/
theorem exists_mem_openedLevels {path : List EditorNode} {level : EditorGraph}
    (hlevel : Level graph path level) (hin : InSubgraphs path)
    (h : flattenSubgraphs numberText levels ancestorIds graph = .ok flat) :
    ∃ o ∈ openedLevels levels graph, o.path = path ∧ o.graph = level ∧
      ∃ ancestorIds flat, flattenSubgraphs numberText o.levels ancestorIds level = .ok flat := by
  induction hlevel generalizing levels ancestorIds flat with
  | top graph =>
      cases levels with
      | zero => cases h
      | succ levels => exact ⟨_, List.mem_cons_self, rfl, rfl, ancestorIds, flat, h⟩
  | @inside graph level container path hmem hlevel ih =>
      obtain ⟨hopen, hin⟩ := List.forall_mem_cons.mp hin
      cases levels with
      | zero => cases h
      | succ levels =>
          simp only [flattenSubgraphs, bind_eq_ok] at h
          obtain ⟨parts, hparts, -⟩ := h
          obtain ⟨part, hpart⟩ := exists_of_mapM hparts hmem
          rw [flattenNode, if_pos hopen] at hpart
          by_cases hcycle : container.id ∈ ancestorIds
          · rw [if_pos hcycle] at hpart
            cases hpart
          · rw [if_neg hcycle, bind_eq_ok] at hpart
            obtain ⟨inner, hinner, -⟩ := hpart
            obtain ⟨o, ho, rfl, rfl, hflat⟩ := ih hin hinner
            refine ⟨{ o with path := container :: o.path }, ?_, rfl, rfl, hflat⟩
            exact List.mem_cons_of_mem _ (List.mem_flatMap.mpr
              ⟨container, List.mem_filter.mpr ⟨hmem, hopen⟩, List.mem_map_of_mem ho⟩)

theorem openedLevels_nodup (hdrawn : IsDrawn graph) : (openedLevels levels graph).Nodup := by
  induction levels generalizing graph with
  | zero => exact List.nodup_nil
  | succ levels ih =>
      rw [openedLevels, List.nodup_cons]
      constructor
      · intro h
        obtain ⟨container, -, h⟩ := List.mem_flatMap.mp h
        obtain ⟨o, -, h⟩ := List.mem_map.mp h
        cases congrArg OpenedLevel.path h
      · refine List.nodup_flatMap.mpr ⟨fun container hcontainer => ?_, ?_⟩
        · refine (ih (hdrawn.inner (List.mem_of_mem_filter hcontainer))).map fun o o' h => ?_
          obtain ⟨hlevels, hpath, hgraph⟩ := OpenedLevel.mk.inj h
          cases o
          cases o'
          simp_all
        · have hnodup : graph.nodes.Nodup := (hdrawn.nodup [] graph (.top graph)).of_map
          refine (hnodup.filter _).imp fun {c d} hne => ?_
          refine List.disjoint_left.mpr fun o hc hd => ?_
          obtain ⟨a, -, rfl⟩ := List.mem_map.mp hc
          obtain ⟨b, -, h⟩ := List.mem_map.mp hd
          exact hne (List.cons.inj (congrArg OpenedLevel.path h)).1.symm

/-- A level that is opened is the graph itself, or in one of its subgraphs. -/
theorem mem_openedLevels_succ {o : OpenedLevel} (h : o ∈ openedLevels (levels + 1) graph) :
    o = ⟨levels + 1, [], graph⟩ ∨ ∃ container ∈ graph.nodes,
      ∃ inner ∈ openedLevels levels container.inner,
        o = { inner with path := container :: inner.path } := by
  rcases List.mem_cons.mp h with h | h
  · exact .inl h
  · obtain ⟨container, hcontainer, h⟩ := List.mem_flatMap.mp h
    obtain ⟨inner, hinner, rfl⟩ := List.mem_map.mp h
    exact .inr ⟨container, List.mem_of_mem_filter hcontainer, inner, hinner, rfl⟩

/-- Of the levels that are opened none has the path of another. -/
theorem eq_of_path_eq {o o' : OpenedLevel} (ho : o ∈ openedLevels levels graph)
    (ho' : o' ∈ openedLevels levels graph) (h : o.path = o'.path) : o = o' := by
  induction levels generalizing graph o o' with
  | zero => cases ho
  | succ levels ih =>
      rcases mem_openedLevels_succ ho with rfl | ⟨c, -, inner, hinner, rfl⟩
      · rcases mem_openedLevels_succ ho' with rfl | ⟨d, -, inner', -, rfl⟩
        · rfl
        · cases h
      · rcases mem_openedLevels_succ ho' with rfl | ⟨d, -, inner', hinner', rfl⟩
        · cases h
        · obtain ⟨rfl, hpath⟩ := List.cons.inj h
          rw [ih hinner hinner' hpath]

end Flattening

/-! ## Nodes -/

section Nodes

variable {numberText : Number → String} {levels : ℕ} {graph level : EditorGraph}
  {path : List EditorNode} {node : EditorNode} {o : OpenedLevel}

/-- The nodes that are there when the subgraphs are opened. -/
def openedNodes (numberText : Number → String) (levels : ℕ) (graph : EditorGraph) : List EditorNode :=
  (openedLevels levels graph).flatMap (OpenedLevel.flatNodes numberText)

theorem mem_openedNodes : node ∈ openedNodes numberText levels graph ↔
    ∃ o ∈ openedLevels levels graph, ∃ drawn ∈ o.graph.nodes,
      drawn.isContainerNode = false ∧ drawn.under numberText o.path = node := by
  simp only [openedNodes, List.mem_flatMap, OpenedLevel.flatNodes, List.mem_map,
    EditorGraph.plainNodes, List.mem_filter, Bool.not_eq_true', and_assoc]

@[simp] theorem id_under : (node.under numberText path).id = pathId path node.id :=
  EditorNode.id_withIdData _ _ _

/-- A node with the id of a drawn one is what the drawn one becomes. -/
theorem eq_under_of_mem (hdrawn : IsDrawn graph) (hlevel : Level graph path level)
    (hnode : node ∈ level.nodes) {flat : EditorNode}
    (hflat : flat ∈ openedNodes numberText levels graph) (hid : flat.id = pathId path node.id) :
    InSubgraphs path ∧ node.isContainerNode = false ∧ flat = node.under numberText path := by
  obtain ⟨o, ho, drawn, hmem, hplain, rfl⟩ := mem_openedNodes.mp hflat
  obtain ⟨hlevel', hin, -⟩ := level_of_mem_openedLevels ho
  rw [id_under] at hid
  obtain ⟨rfl, rfl, hidEq⟩ := pathId_inj hdrawn hlevel hlevel' (hdrawn.free _ _ hlevel _ hnode)
    (hdrawn.free _ _ hlevel' _ hmem) hid
  obtain rfl := (hlevel.isDrawn hdrawn).eq_of_id hmem hnode hidEq
  exact ⟨hin, hplain, rfl⟩

/-- A member of the record is one of the nodes. -/
theorem exists_of_lookup_nodeRecord {previousGraph : WorkflowGraph} {nodes : List EditorNode}
    {id : String} {definition : WorkflowNodeDefinition}
    (h : (nodeRecord previousGraph nodes).lookup id = some definition) :
    isMemberKey id = true ∧ ∃ node ∈ nodes, node.id = id := by
  induction nodes using List.reverseRecOn with
  | nil => cases h
  | append_singleton nodes node ih =>
      have hold : ∀ {r}, r = nodeRecord previousGraph nodes → AList.lookup id r = some definition →
          isMemberKey id = true ∧ ∃ n ∈ nodes ++ [node], n.id = id := by
        rintro _ rfl h
        obtain ⟨hkey, n, hn, hid⟩ := ih h
        exact ⟨hkey, n, List.mem_append_left _ hn, hid⟩
      rw [nodeRecord, List.foldl_concat] at h
      by_cases hkey : isMemberKey node.id = true
      · rw [if_pos hkey] at h
        by_cases hid : id = node.id
        · exact ⟨hid ▸ hkey, node, List.mem_append_right _ (List.mem_singleton_self _), hid.symm⟩
        · rw [AList.lookup_insert_ne hid] at h
          exact hold rfl h
      · rw [if_neg hkey] at h
        exact hold rfl h

/-- A node is in the record if it is the only one with its id. -/
theorem lookup_nodeRecord {previousGraph : WorkflowGraph} {nodes : List EditorNode}
    (hnode : node ∈ nodes) (hkey : isMemberKey node.id = true)
    (hunique : ∀ other ∈ nodes, other.id = node.id → other = node) :
    (nodeRecord previousGraph nodes).lookup node.id =
      some (toNodeDefinition (previousGraph.nodes.lookup node.id) node) := by
  induction nodes using List.reverseRecOn with
  | nil => cases hnode
  | append_singleton nodes last ih =>
      rw [nodeRecord, List.foldl_concat]
      by_cases hid : last.id = node.id
      · obtain rfl := hunique last (List.mem_append_right _ (List.mem_singleton_self _)) hid
        rw [if_pos hkey, AList.lookup_insert]
      · have hmem : node ∈ nodes := by
          rcases List.mem_append.mp hnode with h | h
          · exact h
          · exact absurd (congrArg EditorNode.id (List.mem_singleton.mp h)).symm hid
        have hold := ih hmem fun other hother => hunique other (List.mem_append_left _ hother)
        by_cases hlast : isMemberKey last.id = true
        · rw [if_pos hlast, AList.lookup_insert_ne (Ne.symm hid)]
          exact hold
        · rw [if_neg hlast]
          exact hold

end Nodes

/-! ## Edges -/

/-- The edge is between two nodes of the level that are no subgraphs. -/
def EditorEdge.isPlain (level : EditorGraph) (edge : EditorEdge) : Bool :=
  edge.within (level.plainNodes.map EditorNode.id)

/-- What becomes of the other edges of a level. -/
def OpenedLevel.strays (o : OpenedLevel) : List EditorEdge :=
  (((o.graph.edges.filter fun edge => !edge.isPlain o.graph).map o.graph.reroute).filter
    fun edge => edge.within (flatIds o.levels o.graph)).map (EditorEdge.under o.path)

section Edges

variable {numberText : Number → String} {levels : ℕ} {graph level : EditorGraph}
  {path : List EditorNode} {edge edge' : EditorEdge} {o o' : OpenedLevel} {id : String}

theorem mem_plainIds : id ∈ level.plainNodes.map EditorNode.id ↔ level.HasPlain id := by
  simp only [List.mem_map, EditorGraph.plainNodes, List.mem_filter, Bool.not_eq_true',
    EditorGraph.HasPlain]
  constructor
  · rintro ⟨node, ⟨hmem, hplain⟩, hid⟩
    exact ⟨node, hmem, hid, hplain⟩
  · rintro ⟨node, hmem, hid, hplain⟩
    exact ⟨node, ⟨hmem, hplain⟩, hid⟩

theorem within_iff {ids : List String} :
    edge.within ids = true ↔ edge.sourceNodeID ∈ ids ∧ edge.targetNodeID ∈ ids := by
  simp [EditorEdge.within]

theorem isPlain_iff : edge.isPlain level = true ↔ edge.IsPlain level := by
  rw [EditorEdge.isPlain, within_iff, mem_plainIds, mem_plainIds, EditorEdge.IsPlain]

/-- Where no subgraph has an id, an end with the id is not led over a bridge. -/
theorem containerBridgeMap_eq_none (hdrawn : IsDrawn level) (h : level.HasPlain id) :
    level.containerBridgeMap id = none := by
  obtain ⟨node, hnode, rfl, hplain⟩ := h
  rw [EditorGraph.containerBridgeMap, Option.map_eq_none_iff, List.find?_eq_none]
  intro c hc
  rw [Bool.and_eq_true, decide_eq_true_eq]
  rintro ⟨hcontainer, hid⟩
  obtain rfl := hdrawn.eq_of_id (List.mem_reverse.mp hc) hnode hid
  rw [hplain] at hcontainer
  cases hcontainer

theorem reroute_of_isPlain (hdrawn : IsDrawn level) (h : edge.IsPlain level) :
    level.reroute edge = edge := by
  rw [EditorGraph.reroute, containerBridgeMap_eq_none hdrawn h.1,
    containerBridgeMap_eq_none hdrawn h.2]
  rfl

/-- The ids of the nodes in subgraphs are among those that the flattening gives. -/
theorem mem_flatIds (ho : o ∈ openedLevels levels graph) (h : o.graph.HasPlain id) :
    pathId o.path id ∈ flatIds levels graph := by
  obtain ⟨node, hnode, hid⟩ := List.mem_map.mp (mem_plainIds.mpr h)
  refine List.mem_flatMap.mpr ⟨o, ho, List.mem_map.mpr ⟨node, hnode, ?_⟩⟩
  rw [hid]

theorem within_of_isPlain (hlevels : 0 < levels) (h : edge.IsPlain level) :
    edge.within (flatIds levels level) = true := by
  obtain ⟨levels, rfl⟩ := Nat.exists_eq_succ_of_ne_zero (Nat.ne_of_gt hlevels)
  have htop : ⟨levels + 1, [], level⟩ ∈ openedLevels (levels + 1) level := List.mem_cons_self
  have hmem : ∀ id, level.HasPlain id → pathId [] id ∈ flatIds (levels + 1) level := fun id hid =>
    mem_flatIds htop hid
  exact within_iff.mpr ⟨hmem _ h.1, hmem _ h.2⟩

/-- Of the edges of a level those between nodes that are no subgraphs stay as they are. -/
theorem flatEdges_perm (hdrawn : IsDrawn o.graph) (hlevels : 0 < o.levels) :
    o.flatEdges.Perm
      ((o.graph.edges.filter (EditorEdge.isPlain o.graph)).map (EditorEdge.under o.path) ++
        o.strays) := by
  have hreroute : (o.graph.edges.filter (EditorEdge.isPlain o.graph)).map o.graph.reroute =
      o.graph.edges.filter (EditorEdge.isPlain o.graph) := by
    refine (List.map_congr_left fun edge hedge => ?_).trans (List.map_id _)
    exact reroute_of_isPlain hdrawn (isPlain_iff.mp (List.mem_filter.mp hedge).2)
  have hkept : (o.graph.edges.filter (EditorEdge.isPlain o.graph)).filter
      (fun edge => edge.within (flatIds o.levels o.graph)) =
      o.graph.edges.filter (EditorEdge.isPlain o.graph) := by
    refine List.filter_eq_self.mpr fun edge hedge => ?_
    exact within_of_isPlain hlevels (isPlain_iff.mp (List.mem_filter.mp hedge).2)
  have hperm := (List.filter_append_perm (EditorEdge.isPlain o.graph) o.graph.edges).symm
  have hmapped := (hperm.map o.graph.reroute).filter
    fun edge => edge.within (flatIds o.levels o.graph)
  rw [List.map_append, List.filter_append, hreroute, hkept] at hmapped
  have hunder := hmapped.map (EditorEdge.under o.path)
  rw [List.map_append] at hunder
  exact hunder

/-- Two edges between nodes of levels become one edge only if they are the same there. -/
theorem eq_of_deployed_under (hdrawn : IsDrawn graph) (hlevel : Level graph o.path o.graph)
    (hlevel' : Level graph o'.path o'.graph) (h : edge.IsPlain o.graph) (h' : edge'.IsPlain o'.graph)
    (heq : (edge'.under o'.path).deployed = (edge.under o.path).deployed) :
    o'.path = o.path ∧ edge'.deployed = edge.deployed := by
  have hfree : ∀ {o : OpenedLevel} {id : String}, Level graph o.path o.graph → o.graph.HasPlain id →
      '/' ∉ id.toList := by
    rintro o _ hlevel ⟨node, hnode, rfl, -⟩
    exact hdrawn.free _ _ hlevel _ hnode
  obtain ⟨hsource, htarget, hsourcePort, htargetPort, -⟩ := WorkflowEdge.mk.inj heq
  obtain ⟨hpath, -, hsource⟩ :=
    pathId_inj hdrawn hlevel hlevel' (hfree hlevel h.1) (hfree hlevel' h'.1) hsource
  obtain ⟨-, -, htarget⟩ :=
    pathId_inj hdrawn hlevel hlevel' (hfree hlevel h.2) (hfree hlevel' h'.2) htarget
  refine ⟨hpath, ?_⟩
  rw [EditorEdge.deployed, EditorEdge.deployed, hsource, htarget]
  exact congrArg₂ (fun p q => (⟨_, _, p, q, none⟩ : WorkflowEdge)) hsourcePort htargetPort

theorem deployed_under_congr (h : edge'.deployed = edge.deployed) :
    (edge'.under path).deployed = (edge.under path).deployed := by
  obtain ⟨hsource, htarget, hsourcePort, htargetPort, -⟩ := WorkflowEdge.mk.inj h
  rw [EditorEdge.deployed, EditorEdge.deployed, EditorEdge.under, EditorEdge.under]
  simp only [hsource, htarget, hsourcePort, htargetPort]

theorem isPlain_congr (h : edge'.deployed = edge.deployed) (hplain : edge.IsPlain level) :
    edge'.IsPlain level := by
  obtain ⟨hsource, htarget, -⟩ := WorkflowEdge.mk.inj h
  exact ⟨hsource ▸ hplain.1, htarget ▸ hplain.2⟩

/-- An edge between nodes that are no subgraphs is there as often as it is drawn, and as often as
another edge becomes the same. -/
theorem count_flatEdges (hdrawn : IsDrawn graph) (ho : o ∈ openedLevels levels graph)
    (hedge : edge.IsPlain o.graph) :
    (((openedLevels levels graph).flatMap OpenedLevel.flatEdges).map EditorEdge.deployed).count
        (edge.under o.path).deployed =
      (o.graph.edges.map EditorEdge.deployed).count edge.deployed +
        (((openedLevels levels graph).flatMap OpenedLevel.strays).map EditorEdge.deployed).count
          (edge.under o.path).deployed := by
  have hsplit : ((openedLevels levels graph).flatMap OpenedLevel.flatEdges).Perm
      ((openedLevels levels graph).flatMap (fun o => (o.graph.edges.filter
          (EditorEdge.isPlain o.graph)).map (EditorEdge.under o.path)) ++
        (openedLevels levels graph).flatMap OpenedLevel.strays) := by
    refine List.Perm.trans (List.Perm.flatMap_left _ fun o ho => ?_)
      (List.flatMap_append_perm _ _ _).symm
    obtain ⟨hlevel, -, hpos⟩ := level_of_mem_openedLevels ho
    exact flatEdges_perm (hlevel.isDrawn hdrawn) hpos
  rw [(hsplit.map _).count_eq, List.map_append, List.count_append]
  congr 1
  obtain ⟨hlevel, -, -⟩ := level_of_mem_openedLevels ho
  rw [List.map_flatMap, count_flatMap_eq (openedLevels_nodup hdrawn) ho]
  · rw [List.map_map, List.count_eq_countP, List.count_eq_countP, List.countP_map, List.countP_map,
      List.countP_filter]
    refine List.countP_congr fun e _ => ?_
    simp only [Function.comp_apply, beq_iff_eq, Bool.and_eq_true, isPlain_iff]
    constructor
    · rintro ⟨heq, he⟩
      exact (eq_of_deployed_under hdrawn hlevel hlevel hedge he heq).2
    · intro heq
      exact ⟨deployed_under_congr heq, isPlain_congr heq hedge⟩
  · intro o' ho' hne hmem
    simp only [List.mem_map, List.mem_filter] at hmem
    obtain ⟨_, ⟨e, ⟨-, he⟩, rfl⟩, heq⟩ := hmem
    obtain ⟨hlevel', -, -⟩ := level_of_mem_openedLevels ho'
    obtain ⟨hpath, -⟩ := eq_of_deployed_under hdrawn hlevel hlevel' hedge (isPlain_iff.mp he) heq
    exact hne (eq_of_path_eq ho' ho hpath)

/-- An edge that comes to lie on one between nodes that are no subgraphs is kept. -/
theorem within_of_deployed_eq (hdrawn : IsDrawn graph) (hlevel : Level graph path level)
    (hin : InSubgraphs path) (hedge : edge.IsPlain level) (ho : o' ∈ openedLevels levels graph)
    {ancestorIds : List String} {flat : EditorGraph}
    (hflat : flattenSubgraphs numberText o'.levels ancestorIds o'.graph = .ok flat)
    (heq : (edge'.under o'.path).deployed = (edge.under path).deployed) :
    edge'.within (flatIds o'.levels o'.graph) = true := by
  obtain ⟨hlevel', -, -⟩ := level_of_mem_openedLevels ho
  have hmem : ∀ {id id' : String}, level.HasPlain id → pathId o'.path id' = pathId path id →
      id' ∈ flatIds o'.levels o'.graph := by
    rintro _ id' ⟨node, hnode, rfl, hplain⟩ hid
    obtain ⟨rest, rfl, hrest, rfl⟩ := exists_rest_of_pathId hdrawn hlevel
      (hdrawn.free _ _ hlevel _ hnode) hlevel' hid
    obtain ⟨o, ho, rfl, rfl, -⟩ := exists_mem_openedLevels hrest
      (fun c hc => hin c (List.mem_append_right _ hc)) hflat
    exact mem_flatIds ho ⟨node, hnode, rfl, hplain⟩
  obtain ⟨hsource, htarget, -⟩ := WorkflowEdge.mk.inj heq
  exact within_iff.mpr ⟨hmem hedge.1 hsource, hmem hedge.2 htarget⟩

/-- The strays that lie on an edge are those edges of the levels that come to lie on it. -/
theorem stray_iff (hdrawn : IsDrawn graph) {ancestorIds : List String} {flat : EditorGraph}
    (hflat : flattenSubgraphs numberText levels ancestorIds graph = .ok flat)
    (hlevel : Level graph path level) (hin : InSubgraphs path) (hedge : edge.IsPlain level) :
    (edge.under path).deployed ∈
        ((openedLevels levels graph).flatMap OpenedLevel.strays).map EditorEdge.deployed ↔
      ∃ path' level', Level graph path' level' ∧ InSubgraphs path' ∧ ∃ edge' ∈ level'.edges,
        ¬ edge'.IsPlain level' ∧
          ((level'.reroute edge').under path').deployed = (edge.under path).deployed := by
  constructor
  · intro h
    simp only [List.mem_map, List.mem_flatMap, OpenedLevel.strays, List.mem_filter,
      Bool.not_eq_true'] at h
    obtain ⟨_, ⟨o', ho', _, ⟨⟨edge', ⟨hedge', hplain⟩, rfl⟩, -⟩, rfl⟩, heq⟩ := h
    obtain ⟨hlevel', hin', -⟩ := level_of_mem_openedLevels ho'
    refine ⟨o'.path, o'.graph, hlevel', hin', edge', hedge', fun h => ?_, heq⟩
    rw [isPlain_iff.mpr h] at hplain
    cases hplain
  · rintro ⟨path', level', hlevel', hin', edge', hedge', hplain, heq⟩
    obtain ⟨o', ho', rfl, rfl, _, _, hflat'⟩ := exists_mem_openedLevels hlevel' hin' hflat
    have hkept := within_of_deployed_eq hdrawn hlevel hin hedge ho' hflat' heq
    simp only [List.mem_map, List.mem_flatMap, OpenedLevel.strays, List.mem_filter,
      Bool.not_eq_true']
    refine ⟨_, ⟨o', ho', _, ⟨⟨edge', ⟨hedge', ?_⟩, rfl⟩, hkept⟩, rfl⟩, heq⟩
    exact Bool.eq_false_iff.mpr fun h => hplain (isPlain_iff.mp h)

end Edges

/-! ## Deployment -/

section Deployment

variable {numberText : Number → String} {graph level : EditorGraph}
  {previousGraph deployed : WorkflowGraph} {path : List EditorNode} {node : EditorNode}
  {edge : EditorEdge}

/-- What the deployed graph is made of. -/
theorem exists_flat (h : toNazhWorkflowGraph numberText graph previousGraph = .ok deployed) :
    ∃ flat, flattenSubgraphs numberText (maxSubgraphDepth + 1) [] graph = .ok flat ∧
      deployed.nodes = nodeRecord previousGraph (flat.nodes.filter EditorNode.isBusinessNode) ∧
      deployed.edges = (flat.edges.filter fun edge => edge.within
        ((flat.nodes.filter EditorNode.isBusinessNode).map EditorNode.id)).map
          EditorEdge.deployed := by
  simp only [toNazhWorkflowGraph, bind_eq_ok] at h
  obtain ⟨flat, hflat, h⟩ := h
  cases h
  exact ⟨flat, hflat, rfl, rfl⟩

/-- A drawn node is deployed exactly if it stays. -/
theorem lookup_deployed_iff (hdrawn : IsDrawn graph)
    (h : toNazhWorkflowGraph numberText graph previousGraph = .ok deployed)
    (hlevel : Level graph path level) (hnode : node ∈ level.nodes) :
    deployed.nodes.lookup (pathId path node.id) =
        some (toNodeDefinition (previousGraph.nodes.lookup (pathId path node.id))
          (node.under numberText path)) ↔ node.Stays numberText path := by
  obtain ⟨flat, hflat, hnodes, -⟩ := exists_flat h
  have hmem : ∀ n, n ∈ flat.nodes ↔ n ∈ openedNodes numberText (maxSubgraphDepth + 1) graph :=
    fun n => (flatten_perm hflat).1.mem_iff
  rw [hnodes]
  constructor
  · intro hlookup
    obtain ⟨hkey, n, hn, hid⟩ := exists_of_lookup_nodeRecord hlookup
    obtain ⟨hn, hbusiness⟩ := List.mem_filter.mp hn
    obtain ⟨hin, hplain, rfl⟩ := eq_under_of_mem hdrawn hlevel hnode ((hmem n).mp hn) hid
    exact ⟨hin, hplain, hbusiness, hkey⟩
  · rintro ⟨hin, hplain, hbusiness, hkey⟩
    obtain ⟨o, ho, rfl, rfl, -⟩ := exists_mem_openedLevels hlevel hin hflat
    have hopened : node.under numberText o.path ∈
        openedNodes numberText (maxSubgraphDepth + 1) graph :=
      mem_openedNodes.mpr ⟨o, ho, node, hnode, hplain, rfl⟩
    have hid : (node.under numberText o.path).id = pathId o.path node.id := id_under
    rw [← hid] at hkey ⊢
    refine lookup_nodeRecord (List.mem_filter.mpr ⟨(hmem _).mpr hopened, hbusiness⟩) hkey ?_
    intro other hother hsame
    have hother := (hmem other).mp (List.mem_filter.mp hother).1
    exact (eq_under_of_mem hdrawn hlevel hnode hother (hsame.trans hid)).2.2

/-- Where the nodes stay, an edge between two of them is there as often as it is drawn exactly if
nothing comes to lie on it. -/
theorem count_deployed_iff (hdrawn : IsDrawn graph)
    (h : toNazhWorkflowGraph numberText graph previousGraph = .ok deployed)
    (hlevel : Level graph path level) (hedge : edge.IsBusiness level)
    (hstays : ∀ node ∈ level.nodes, node.isBusinessNode = true → node.Stays numberText path) :
    deployed.edges.count (edge.under path).deployed =
        (level.edges.map EditorEdge.deployed).count edge.deployed ↔ edge.Clear graph path := by
  obtain ⟨flat, hflat, -, hedges⟩ := exists_flat h
  obtain ⟨hflatNodes, hflatEdges⟩ := flatten_perm hflat
  have hin : InSubgraphs path := by
    obtain ⟨⟨node, hnode, -, hbusiness⟩, -⟩ := hedge
    exact (hstays node hnode hbusiness).opened
  obtain ⟨o, ho, rfl, rfl, -⟩ := exists_mem_openedLevels hlevel hin hflat
  have hplain : ∀ {id}, o.graph.HasBusiness id → o.graph.HasPlain id := by
    rintro _ ⟨node, hnode, rfl, hbusiness⟩
    exact ⟨node, hnode, rfl, (hstays node hnode hbusiness).plain⟩
  -- both ends are among the nodes that are deployed, so the edge is not left out
  have hkept : ∀ {id}, o.graph.HasBusiness id →
      pathId o.path id ∈ (flat.nodes.filter EditorNode.isBusinessNode).map EditorNode.id := by
    rintro _ ⟨node, hnode, rfl, hbusiness⟩
    have hstay := hstays node hnode hbusiness
    have hopened := hflatNodes.mem_iff.mpr
      (mem_openedNodes.mpr ⟨o, ho, node, hnode, hstay.plain, rfl⟩)
    exact List.mem_map.mpr ⟨_, List.mem_filter.mpr ⟨hopened, hstay.business⟩, id_under⟩
  have hcount : deployed.edges.count (edge.under o.path).deployed =
      (o.graph.edges.map EditorEdge.deployed).count edge.deployed +
        (((openedLevels (maxSubgraphDepth + 1) graph).flatMap OpenedLevel.strays).map
          EditorEdge.deployed).count (edge.under o.path).deployed := by
    rw [hedges, count_map_filter, (hflatEdges.map _).count_eq,
      count_flatEdges hdrawn ho ⟨hplain hedge.1, hplain hedge.2⟩]
    intro e _ heq
    obtain ⟨hsource, htarget, -⟩ := WorkflowEdge.mk.inj heq
    exact within_iff.mpr ⟨hsource ▸ hkept hedge.1, htarget ▸ hkept hedge.2⟩
  have hstray := stray_iff hdrawn hflat hlevel hin ⟨hplain hedge.1, hplain hedge.2⟩
  rw [hcount, Nat.add_eq_left, List.count_eq_zero, hstray]
  constructor
  · intro hnone path' level' hlevel' hin' edge' hedge' hplain' heq
    exact hnone ⟨path', level', hlevel', hin', edge', hedge', hplain', heq⟩
  · rintro hclear ⟨path', level', hlevel', hin', edge', hedge', hplain', heq⟩
    exact hclear path' level' hlevel' hin' edge' hedge' hplain' heq

/-- What is drawn is deployed exactly if every node that is not for the editor alone stays, and
nothing comes to lie on an edge between two of them. -/
theorem deploysAll_iff (hdrawn : IsDrawn graph)
    (h : toNazhWorkflowGraph numberText graph previousGraph = .ok deployed) :
    DeploysAll numberText graph previousGraph deployed ↔ Opens numberText graph := by
  constructor
  · intro hdeploys
    have hstays : ∀ path level, Level graph path level → ∀ node ∈ level.nodes,
        node.isBusinessNode = true → node.Stays numberText path := by
      intro path level hlevel node hnode hbusiness
      exact (lookup_deployed_iff hdrawn h hlevel hnode).mp
        (hdeploys.nodes path level hlevel node hnode hbusiness)
    refine ⟨hstays, fun path level hlevel edge hedge hbusiness => ?_⟩
    exact (count_deployed_iff hdrawn h hlevel hbusiness (hstays path level hlevel)).mp
      (hdeploys.edges path level hlevel edge hedge hbusiness)
  · intro hopens
    constructor
    · intro path level hlevel node hnode hbusiness
      exact (lookup_deployed_iff hdrawn h hlevel hnode).mpr
        (hopens.nodes path level hlevel node hnode hbusiness)
    · intro path level hlevel edge hedge hbusiness
      exact (count_deployed_iff hdrawn h hlevel hbusiness (hopens.nodes path level hlevel)).mpr
        (hopens.edges path level hlevel edge hedge hbusiness)

end Deployment

/-! ## A subgraph and a loop -/

section Containers

variable {graph level : EditorGraph} {path : List EditorNode}

theorem level_iff : Level graph path level ↔ path = [] ∧ level = graph ∨
    ∃ c ∈ graph.nodes, ∃ rest, path = c :: rest ∧ Level c.inner rest level := by
  constructor
  · intro h
    cases h with
    | top => exact .inl ⟨rfl, rfl⟩
    | inside hmem h => exact .inr ⟨_, hmem, _, rfl, h⟩
  · rintro (⟨rfl, rfl⟩ | ⟨c, hmem, rest, rfl, h⟩)
    · exact .top _
    · exact .inside hmem h

theorem isDrawn_of (hnodup : (graph.nodes.map EditorNode.id).Nodup)
    (hfree : ∀ node ∈ graph.nodes, '/' ∉ node.id.toList)
    (hinner : ∀ c ∈ graph.nodes, IsDrawn c.inner) : IsDrawn graph where
  nodup path level h := by
    cases h with
    | top => exact hnodup
    | inside hmem h => exact (hinner _ hmem).nodup _ _ h
  free path level h := by
    cases h with
    | top => exact hfree
    | inside hmem h => exact (hinner _ hmem).free _ _ h

/-- A node as it is drawn from the library, without settings. -/
def drawnNode (id type : String) (blocks : List EditorNode) (edges : List EditorEdge) : EditorNode :=
  ⟨id, type, none, .object [("nodeType", .string type), ("config", .object [])], blocks, edges⟩

def drawnEdge (source target : String) : EditorEdge := ⟨source, target, none, none⟩

/-- A container as the library makes it, with its two bridges joined. -/
def drawnContainer (type input output : String) : EditorGraph :=
  ⟨[drawnNode type type
    [drawnNode input "subgraphInput" [] [], drawnNode output "subgraphOutput" [] []]
    [drawnEdge input output]], []⟩

theorem isDrawn_drawnContainer {type input output : String} (htype : '/' ∉ type.toList)
    (hinput : '/' ∉ input.toList) (houtput : '/' ∉ output.toList) (hne : input ≠ output) :
    IsDrawn (drawnContainer type input output) := by
  have hempty : IsDrawn ⟨[], []⟩ :=
    isDrawn_of List.nodup_nil (fun _ h => absurd h List.not_mem_nil)
      fun _ h => absurd h List.not_mem_nil
  refine isDrawn_of (List.nodup_singleton _) (List.forall_mem_singleton.mpr htype) ?_
  refine List.forall_mem_singleton.mpr (isDrawn_of ?_ ?_ ?_)
  · exact List.nodup_cons.mpr ⟨fun h => hne (List.mem_singleton.mp h), List.nodup_singleton _⟩
  · exact List.forall_mem_cons.mpr ⟨hinput, List.forall_mem_singleton.mpr houtput⟩
  · exact List.forall_mem_cons.mpr ⟨hempty, List.forall_mem_singleton.mpr hempty⟩

/-- The levels of a container are three. -/
theorem level_drawnContainer {type input output : String}
    (h : Level (drawnContainer type input output) path level) :
    level = drawnContainer type input output ∨
      (∃ c ∈ (drawnContainer type input output).nodes, path = [c] ∧ level = c.inner) ∨
        level = ⟨[], []⟩ := by
  rcases level_iff.mp h with ⟨-, rfl⟩ | ⟨c, hc, rest, rfl, hrest⟩
  · exact .inl rfl
  · rcases level_iff.mp hrest with ⟨rfl, rfl⟩ | ⟨bridge, hbridge, rest, rfl, hbelow⟩
    · exact .inr (.inl ⟨c, hc, rfl, rfl⟩)
    · obtain rfl := List.mem_singleton.mp hc
      have hempty : bridge.inner = ⟨[], []⟩ := by
        rcases List.mem_cons.mp hbridge with rfl | hbridge
        · rfl
        · rw [List.mem_singleton.mp hbridge]
          rfl
      rw [hempty, level_iff] at hbelow
      rcases hbelow with ⟨-, rfl⟩ | ⟨_, hmem, -⟩
      · exact .inr (.inr rfl)
      · exact absurd hmem List.not_mem_nil

/-- What is in a subgraph is deployed. -/
theorem subgraph_deploysAll : ∃ deployed,
    toNazhWorkflowGraph (fun _ => "") (drawnContainer "subgraph" "sg-in" "sg-out") .empty =
        .ok deployed ∧
      DeploysAll (fun _ => "") (drawnContainer "subgraph" "sg-in" "sg-out") .empty deployed := by
  refine ⟨_, rfl, (deploysAll_iff (isDrawn_drawnContainer (by decide) (by decide)
    (by decide) (by decide)) rfl).mpr ⟨?_, ?_⟩⟩
  · intro path level hlevel node hnode hbusiness
    rcases level_drawnContainer hlevel with rfl | ⟨c, hc, rfl, rfl⟩ | rfl
    · obtain rfl := List.mem_singleton.mp hnode
      have hnot : (drawnNode "subgraph" "subgraph"
          [drawnNode "sg-in" "subgraphInput" [] [], drawnNode "sg-out" "subgraphOutput" [] []]
          [drawnEdge "sg-in" "sg-out"]).isBusinessNode = false := by decide
      rw [hnot] at hbusiness
      cases hbusiness
    · obtain rfl := List.mem_singleton.mp hc
      have hin : InSubgraphs [drawnNode "subgraph" "subgraph"
          [drawnNode "sg-in" "subgraphInput" [] [], drawnNode "sg-out" "subgraphOutput" [] []]
          [drawnEdge "sg-in" "sg-out"]] := List.forall_mem_singleton.mpr (by decide)
      rcases List.mem_cons.mp hnode with rfl | hnode
      · exact ⟨hin, by decide, by decide, by decide⟩
      · obtain rfl := List.mem_singleton.mp hnode
        exact ⟨hin, by decide, by decide, by decide⟩
    · cases hnode
  · intro path level hlevel edge hedge hbusiness path' level' hlevel' hin' edge' hedge' hplain
    rcases level_drawnContainer hlevel' with rfl | ⟨c, hc, rfl, rfl⟩ | rfl
    · cases hedge'
    · obtain rfl := List.mem_singleton.mp hc
      obtain rfl := List.mem_singleton.mp hedge'
      exact absurd (isPlain_iff.mp (by decide)) hplain
    · cases hedge'

/-- What is in a loop is not. -/
theorem loop_not_deployed : ∃ deployed,
    IsDrawn (drawnContainer "loop" "loop-iterate" "loop-emit") ∧
      toNazhWorkflowGraph (fun _ => "") (drawnContainer "loop" "loop-iterate" "loop-emit") .empty =
        .ok deployed ∧
      ¬ DeploysAll (fun _ => "") (drawnContainer "loop" "loop-iterate" "loop-emit") .empty
        deployed := by
  have hdrawn : IsDrawn (drawnContainer "loop" "loop-iterate" "loop-emit") :=
    isDrawn_drawnContainer (by decide) (by decide) (by decide)
      (by decide)
  refine ⟨_, hdrawn, rfl, fun hdeploys => ?_⟩
  have hlevel : Level (drawnContainer "loop" "loop-iterate" "loop-emit") [_] _ :=
    .inside (List.mem_singleton_self _) (.top _)
  have hlookup := hdeploys.nodes _ _ hlevel _ List.mem_cons_self (by decide)
  have hopened := ((lookup_deployed_iff hdrawn rfl hlevel List.mem_cons_self).mp hlookup).opened
  exact absurd (hopened _ List.mem_cons_self) (by decide)

end Containers

end Nazh.Web
