import Mathlib.Logic.Relation
import Nazh.Web.DrawnNodes

/-!
# A nested graph and the flattened one

Subgraphs are drawn one in another. An edge that ends at a subgraph is read as one that ends at the
bridge in it. The flattening makes of this one graph: its nodes are those that are no subgraphs, each
under an id that tells where it is, and its edges are those of all levels, so that there is a way
between two nodes exactly if there was one through the bridges.
-/

namespace Nazh.Web

open Lib Relation

/-! ## Nested graphs -/

/-- A level that is drawn in subgraphs only. -/
def Inside (graph : EditorGraph) (path : List EditorNode) (level : EditorGraph) : Prop :=
  Level graph path level ∧ InSubgraphs path

/-- On each level the ids are unique, and free of the separator. -/
structure HasIds (graph : EditorGraph) : Prop where
  nodup : ∀ path level, Inside graph path level → (level.nodes.map EditorNode.id).Nodup
  free : ∀ path level, Inside graph path level → ∀ node ∈ level.nodes, '/' ∉ node.id.toList

/-- A nesting of subgraphs up to the limit. -/
structure IsNested (graph : EditorGraph) : Prop extends HasIds graph where
  depth : ∀ path level, Inside graph path level → path.length ≤ maxSubgraphDepth

/-- No subgraph has the id of one around it. -/
def Acyclic (graph : EditorGraph) : Prop :=
  ∀ path level, Inside graph path level → (path.map EditorNode.id).Nodup

/-- Every edge joins nodes of its level. -/
def Joined (graph : EditorGraph) : Prop :=
  ∀ path level, Inside graph path level → ∀ edge ∈ level.edges,
    edge.sourceNodeID ∈ level.nodes.map EditorNode.id ∧
      edge.targetNodeID ∈ level.nodes.map EditorNode.id

/-- The bridges of a type that are drawn in a subgraph. -/
def EditorNode.bridges (type : String) (container : EditorNode) : List EditorNode :=
  container.inner.nodes.filter fun node => node.type = type

/-- A subgraph that an edge leads to has one input bridge, and one that an edge leads from has one
output bridge. -/
def Bridged (graph : EditorGraph) : Prop :=
  ∀ path level, Inside graph path level → ∀ edge ∈ level.edges, ∀ container ∈ level.nodes,
    container.isContainerNode = true →
      (container.id = edge.sourceNodeID → (container.bridges "subgraphOutput").length = 1) ∧
        (container.id = edge.targetNodeID → (container.bridges "subgraphInput").length = 1)

/-- A node, and the nodes around it. -/
structure Place where
  path : List EditorNode
  node : EditorNode

namespace Place

/-- The ids along the path and that of the node, joined by the separator. -/
def id (p : Place) : String := pathId p.path p.node.id

/-- The node is drawn there, and it is no subgraph. -/
def IsIn (p : Place) (graph : EditorGraph) : Prop :=
  ∃ level, Inside graph p.path level ∧ p.node ∈ level.nodes ∧ p.node.isContainerNode = false

end Place

/-- Where an end of an edge of a level is, and its port: at the node itself, or at a bridge in a
subgraph, without a port. -/
inductive EndAt (bridgeType : String) (path : List EditorNode) (level : EditorGraph) (id : String)
    (port : Option PortId) : Place → Option PortId → Prop
  | node {node : EditorNode} (hmem : node ∈ level.nodes) (hid : node.id = id)
      (hplain : node.isContainerNode = false) : EndAt bridgeType path level id port ⟨path, node⟩ port
  | bridge {container bridge : EditorNode} (hmem : container ∈ level.nodes)
      (hid : container.id = id) (hcontainer : container.isContainerNode = true)
      (hbridge : bridge ∈ container.bridges bridgeType) :
      EndAt bridgeType path level id port ⟨path ++ [container], bridge⟩ none

/-- An edge of the flattened graph is one of a level: its ends are where that one's are read to be. -/
structure Carries (path : List EditorNode) (level : EditorGraph) (edge carried : EditorEdge) :
    Prop where
  source : ∃ p : Place, carried.sourceNodeID = p.id ∧
    EndAt "subgraphOutput" path level edge.sourceNodeID edge.sourcePortID p carried.sourcePortID
  target : ∃ p : Place, carried.targetNodeID = p.id ∧
    EndAt "subgraphInput" path level edge.targetNodeID edge.targetPortID p carried.targetPortID

/-- The edges of all levels. -/
def drawnEdges (graph : EditorGraph) : List (OpenedLevel × EditorEdge) :=
  (openedLevels (maxSubgraphDepth + 1) graph).flatMap fun o => o.graph.edges.map (o, ·)

/-- The nodes are those that are no subgraphs, with ids that tell them apart. -/
structure FlattensNodes (numberText : Number → String) (graph flat : EditorGraph) : Prop where
  distinct : (flat.nodes.map EditorNode.id).Nodup
  nodes : ∀ n, n ∈ flat.nodes ↔
    ∃ p : Place, p.IsIn graph ∧ n = p.node.under numberText p.path
  apart : ∀ p q : Place, p.IsIn graph → q.IsIn graph → p.id = q.id → p = q

/-- The edges are those of all levels, each of which is counted once. -/
structure FlattensEdges (graph flat : EditorGraph) : Prop where
  levels : ∀ path level, Inside graph path level ↔
    ∃ o ∈ openedLevels (maxSubgraphDepth + 1) graph, o.path = path ∧ o.graph = level
  once : ((openedLevels (maxSubgraphDepth + 1) graph).map OpenedLevel.path).Nodup
  edges : ∃ carried, flat.edges.Perm carried ∧
    List.Forall₂ (fun drawn edge => Carries drawn.1.path drawn.1.graph drawn.2 edge)
      (drawnEdges graph) carried

/-- An edge of a level leads from one place to another. -/
def NestedStep (graph : EditorGraph) (p q : Place) : Prop :=
  ∃ path level edge, Inside graph path level ∧ edge ∈ level.edges ∧
    (∃ port, EndAt "subgraphOutput" path level edge.sourceNodeID edge.sourcePortID p port) ∧
    ∃ port, EndAt "subgraphInput" path level edge.targetNodeID edge.targetPortID q port

/-- An edge of the flattened graph leads from one id to another. -/
def FlatStep (flat : EditorGraph) (x y : String) : Prop :=
  ∃ edge ∈ flat.edges, edge.sourceNodeID = x ∧ edge.targetNodeID = y

/-! ## Levels in subgraphs -/

section Inside

variable {graph level : EditorGraph} {path rest : List EditorNode} {container : EditorNode}
  {levels : ℕ} {p q : Place}

theorem Inside.top (graph : EditorGraph) : Inside graph [] graph :=
  ⟨.top graph, fun _ h => absurd h List.not_mem_nil⟩

theorem Inside.inside (hmem : container ∈ graph.nodes) (hopen : container.isContainerNode = true)
    (h : Inside container.inner path level) : Inside graph (container :: path) level :=
  ⟨.inside hmem h.1, List.forall_mem_cons.mpr ⟨hopen, h.2⟩⟩

/-- A level is the graph itself, or in one of its subgraphs. -/
theorem inside_iff : Inside graph path level ↔ path = [] ∧ level = graph ∨
    ∃ c ∈ graph.nodes, c.isContainerNode = true ∧
      ∃ rest, path = c :: rest ∧ Inside c.inner rest level := by
  constructor
  · rintro ⟨hlevel, hin⟩
    cases hlevel with
    | top => exact .inl ⟨rfl, rfl⟩
    | inside hmem hlevel =>
        obtain ⟨hopen, hin⟩ := List.forall_mem_cons.mp hin
        exact .inr ⟨_, hmem, hopen, _, rfl, hlevel, hin⟩
  · rintro (⟨rfl, rfl⟩ | ⟨c, hmem, hopen, rest, rfl, h⟩)
    · exact .top _
    · exact h.inside hmem hopen

/-- What is in a subgraph of a level is a level. -/
theorem Inside.snoc (h : Inside graph path level) (hmem : container ∈ level.nodes)
    (hopen : container.isContainerNode = true) : Inside graph (path ++ [container]) container.inner := by
  obtain ⟨hlevel, hin⟩ := h
  induction hlevel with
  | top graph => exact (Inside.top _).inside hmem hopen
  | inside hmem' hlevel ih =>
      obtain ⟨hopen', hin⟩ := List.forall_mem_cons.mp hin
      exact (ih hmem hin).inside hmem' hopen'

theorem HasIds.inner (h : HasIds graph) (hmem : container ∈ graph.nodes)
    (hopen : container.isContainerNode = true) : HasIds container.inner where
  nodup _ _ hinside := h.nodup _ _ (hinside.inside hmem hopen)
  free _ _ hinside := h.free _ _ (hinside.inside hmem hopen)

theorem HasIds.free_of_mem (h : HasIds graph) (hmem : container ∈ graph.nodes) :
    '/' ∉ container.id.toList :=
  h.free [] graph (.top graph) container hmem

/-- An id of the graph itself is not that of a node in a subgraph. -/
theorem HasIds.ne_prefixId {containerId id : String} (h : HasIds graph)
    (hmem : container ∈ graph.nodes) : container.id ≠ prefixId containerId id :=
  fun heq => h.free_of_mem hmem (heq ▸ separator_mem_prefixId containerId id)

theorem HasIds.eq_of_id {node : EditorNode} (h : HasIds graph) (hmem : node ∈ graph.nodes)
    (hmem' : container ∈ graph.nodes) (hid : node.id = container.id) : node = container :=
  List.inj_on_of_nodup_map (h.nodup [] graph (.top graph)) hmem hmem' hid

theorem pathId_append (path rest : List EditorNode) (id : String) :
    pathId (path ++ rest) id = pathId path (pathId rest id) :=
  List.foldr_append

/-- A place is told by its id. -/
theorem HasIds.eq_of_place_id (h : HasIds graph) (hp : p.IsIn graph) (hq : q.IsIn graph)
    (hid : p.id = q.id) : p = q := by
  obtain ⟨path, node⟩ := p
  obtain ⟨path', node'⟩ := q
  obtain ⟨level, hinside, hnode, -⟩ := hp
  obtain ⟨level', hinside', hnode', -⟩ := hq
  dsimp only [Place.id] at *
  obtain ⟨hlevel, hin⟩ := hinside
  induction hlevel generalizing path' with
  | top graph =>
      rcases inside_iff.mp hinside' with ⟨rfl, rfl⟩ | ⟨c, -, -, rest, rfl, -⟩
      · rw [h.eq_of_id hnode hnode' hid]
      · exact absurd hid (h.ne_prefixId hnode)
  | @inside graph level c path hmem hlevel ih =>
      obtain ⟨hopen, hin⟩ := List.forall_mem_cons.mp hin
      rcases inside_iff.mp hinside' with ⟨rfl, rfl⟩ | ⟨d, hmem', -, rest, rfl, hrest⟩
      · exact absurd hid.symm (h.ne_prefixId hnode')
      · obtain ⟨hcd, hrestId⟩ := prefixId_inj (h.free_of_mem hmem) (h.free_of_mem hmem') hid
        obtain rfl := h.eq_of_id hmem hmem' hcd
        have heq := ih (h.inner hmem hopen) rest hrestId hnode hrest hin
        obtain ⟨rfl, rfl⟩ := Place.mk.inj heq
        rfl

end Inside

/-! ## The levels that are opened -/

section Opened

variable {numberText : Number → String} {graph flat level : EditorGraph} {path : List EditorNode}
  {ancestorIds : List String} {levels : ℕ}

variable (numberText) in
/-- The flattening does not fail on a nesting that is not too deep and in which no subgraph has the id
of one around it. -/
theorem exists_flatten_eq_ok
    (hdepth : ∀ path level, Inside graph path level → path.length < levels)
    (hacyclic : Acyclic graph)
    (hapart : ∀ path level, Inside graph path level → ∀ c ∈ path, c.id ∉ ancestorIds) :
    ∃ flat, flattenSubgraphs numberText levels ancestorIds graph = .ok flat := by
  induction levels generalizing ancestorIds graph with
  | zero => exact absurd (hdepth [] graph (.top graph)) (Nat.not_lt_zero _)
  | succ levels ih =>
      have hnodes : ∀ node ∈ graph.nodes, ∃ part, flattenNode numberText
          (flattenSubgraphs numberText levels) ancestorIds node = .ok part := by
        intro node hnode
        rw [flattenNode]
        by_cases hopen : node.isContainerNode = true
        · have hinside : ∀ {path level}, Inside node.inner path level →
              Inside graph (node :: path) level := fun h => h.inside hnode hopen
          rw [if_pos hopen, if_neg (hapart _ _ (hinside (.top _)) node List.mem_cons_self)]
          have hrest : ∀ path level, Inside node.inner path level →
              ∀ c ∈ path, c.id ∉ node.id :: ancestorIds := by
            intro path level h c hc
            have hnot := (List.nodup_cons.mp (hacyclic _ _ (hinside h))).1
            rw [List.mem_cons, not_or]
            exact ⟨fun hid => hnot (hid ▸ List.mem_map_of_mem hc),
              hapart _ _ (hinside h) c (List.mem_cons_of_mem _ hc)⟩
          obtain ⟨inner, hinner⟩ := ih
            (fun path level h => Nat.lt_of_succ_lt_succ (hdepth _ _ (hinside h)))
            (fun path level h => (List.nodup_cons.mp (hacyclic _ _ (hinside h))).2) hrest
          exact ⟨_, by rw [hinner]; rfl⟩
        · rw [if_neg hopen]
          exact ⟨_, rfl⟩
      obtain ⟨parts, hparts⟩ := mapM_isOk hnodes
      rw [flattenSubgraphs, hparts]
      exact ⟨_, rfl⟩

theorem inside_iff_mem_openedLevels
    (hflat : flattenSubgraphs numberText levels ancestorIds graph = .ok flat) :
    Inside graph path level ↔ ∃ o ∈ openedLevels levels graph, o.path = path ∧ o.graph = level := by
  constructor
  · rintro ⟨hlevel, hin⟩
    obtain ⟨o, ho, hpath, hgraph, -⟩ := exists_mem_openedLevels hlevel hin hflat
    exact ⟨o, ho, hpath, hgraph⟩
  · rintro ⟨o, ho, rfl, rfl⟩
    obtain ⟨hlevel, hin, -⟩ := level_of_mem_openedLevels ho
    exact ⟨hlevel, hin⟩

/-- What is the case on all levels of a graph that can be flattened. -/
theorem forall_inside_iff {P : List EditorNode → EditorGraph → Prop}
    (hflat : flattenSubgraphs numberText levels ancestorIds graph = .ok flat) :
    (∀ path level, Inside graph path level → P path level) ↔
      ∀ o ∈ openedLevels levels graph, P o.path o.graph := by
  constructor
  · exact fun h o ho => h _ _ ((inside_iff_mem_openedLevels hflat).mpr ⟨o, ho, rfl, rfl⟩)
  · intro h path level hinside
    obtain ⟨o, ho, rfl, rfl⟩ := (inside_iff_mem_openedLevels hflat).mp hinside
    exact h o ho

/-- No two levels that are opened have one path. -/
theorem paths_nodup (h : HasIds graph) : ((openedLevels levels graph).map OpenedLevel.path).Nodup := by
  induction levels generalizing graph with
  | zero => exact List.nodup_nil
  | succ levels ih =>
      have hnodup : graph.nodes.Nodup := (h.nodup [] graph (.top graph)).of_map
      rw [openedLevels, List.map_cons, List.nodup_cons, List.map_flatMap]
      constructor
      · intro hmem
        obtain ⟨c, -, hmem⟩ := List.mem_flatMap.mp hmem
        obtain ⟨o, ho, hpath⟩ := List.mem_map.mp hmem
        obtain ⟨inner, -, rfl⟩ := List.mem_map.mp ho
        cases hpath
      · refine List.nodup_flatMap.mpr ⟨fun c hc => ?_, ?_⟩
        · obtain ⟨hmem, hopen⟩ := List.mem_filter.mp hc
          have hinner := (ih (h.inner hmem hopen)).map (List.cons_injective (a := c))
          rw [List.map_map] at hinner ⊢
          exact hinner
        · refine (hnodup.filter _).imp fun {c d} hne => List.disjoint_left.mpr fun path hc hd => ?_
          obtain ⟨o, ho, rfl⟩ := List.mem_map.mp hc
          obtain ⟨a, -, rfl⟩ := List.mem_map.mp ho
          obtain ⟨o', ho', heq⟩ := List.mem_map.mp hd
          obtain ⟨b, -, rfl⟩ := List.mem_map.mp ho'
          exact hne (List.cons.inj heq).1.symm

theorem pathId_injective (path : List EditorNode) : Function.Injective (pathId path) := by
  induction path with
  | nil => exact Function.injective_id
  | cons container path ih =>
      intro x y h
      have hprefix : prefixId container.id (pathId path x) = prefixId container.id (pathId path y) := h
      have hlist := congrArg String.toList hprefix
      rw [toList_prefixId, toList_prefixId] at hlist
      exact ih (String.toList_injective (List.cons.inj (List.append_cancel_left hlist)).2)

theorem isIn_of_mem {o : OpenedLevel} (ho : o ∈ openedLevels levels graph) {node : EditorNode}
    (hnode : node ∈ o.graph.plainNodes) : Place.IsIn ⟨o.path, node⟩ graph := by
  obtain ⟨hlevel, hin, -⟩ := level_of_mem_openedLevels ho
  obtain ⟨hmem, hplain⟩ := List.mem_filter.mp hnode
  exact ⟨o.graph, ⟨hlevel, hin⟩, hmem, by simpa using hplain⟩

/-- The ids that the flattening gives tell the nodes apart. -/
theorem flatIds_nodup (h : HasIds graph) : (flatIds levels graph).Nodup := by
  refine List.nodup_flatMap.mpr ⟨fun o ho => ?_, ?_⟩
  · obtain ⟨hlevel, hin, -⟩ := level_of_mem_openedLevels ho
    have hids := (h.nodup _ _ ⟨hlevel, hin⟩).sublist
      ((List.filter_sublist (p := fun node => !node.isContainerNode)).map EditorNode.id)
    have hmapped := hids.map (pathId_injective o.path)
    rw [List.map_map] at hmapped
    exact hmapped
  · have hnodup : ((openedLevels levels graph).map OpenedLevel.path).Nodup := paths_nodup h
    have hpaths := List.pairwise_map.mp hnodup
    refine hpaths.imp_of_mem fun {o o'} ho ho' hne => List.disjoint_left.mpr fun id hid hid' => ?_
    obtain ⟨node, hnode, rfl⟩ := List.mem_map.mp hid
    obtain ⟨node', hnode', heq⟩ := List.mem_map.mp hid'
    have hsame := h.eq_of_place_id (isIn_of_mem ho hnode) (isIn_of_mem ho' hnode') heq.symm
    exact hne (Place.mk.inj hsame).1

theorem flattensNodes (h : HasIds graph)
    (hflat : flattenSubgraphs numberText levels ancestorIds graph = .ok flat) :
    FlattensNodes numberText graph flat := by
  have hperm := (flatten_perm hflat).1
  refine ⟨?_, fun n => ?_, fun p q hp hq => h.eq_of_place_id hp hq⟩
  · rw [(hperm.map EditorNode.id).nodup_iff, ← flatIds_eq]
    exact flatIds_nodup h
  · rw [hperm.mem_iff, ← openedNodes, mem_openedNodes]
    constructor
    · rintro ⟨o, ho, drawn, hmem, hplain, rfl⟩
      exact ⟨⟨o.path, drawn⟩, isIn_of_mem ho (List.mem_filter.mpr ⟨hmem, by simpa using hplain⟩), rfl⟩
    · rintro ⟨⟨path, node⟩, ⟨level, hinside, hmem, hplain⟩, rfl⟩
      obtain ⟨o, ho, rfl, rfl⟩ := (inside_iff_mem_openedLevels hflat).mp hinside
      exact ⟨o, ho, node, hmem, hplain, rfl⟩

end Opened

/-! ## Edges -/

section Edges

variable {graph level : EditorGraph} {path : List EditorNode} {bridgeType id : String}
  {port port' : Option PortId} {p p' : Place}

/-- Where an end of an edge is is a place. -/
theorem EndAt.isIn (htype : bridgeType ≠ "subgraph") (hinside : Inside graph path level)
    (h : EndAt bridgeType path level id port p port') : p.IsIn graph := by
  cases h with
  | node hmem hid hplain => exact ⟨level, hinside, hmem, hplain⟩
  | @bridge container bridge hmem hid hcontainer hbridge =>
      obtain ⟨hbridge, hbridgeType⟩ := List.mem_filter.mp hbridge
      refine ⟨container.inner, hinside.snoc hmem hcontainer, hbridge, ?_⟩
      rw [EditorNode.isContainerNode, of_decide_eq_true hbridgeType]
      exact decide_eq_false htype

/-- It is at one place. -/
theorem EndAt.unique (hids : (level.nodes.map EditorNode.id).Nodup)
    (hbridged : ∀ c ∈ level.nodes, c.isContainerNode = true → c.id = id →
      (c.bridges bridgeType).length = 1)
    {port₁ port₂ : Option PortId} (h : EndAt bridgeType path level id port p port₁)
    (h' : EndAt bridgeType path level id port p' port₂) : p = p' := by
  have hsame : ∀ {n n' : EditorNode}, n ∈ level.nodes → n' ∈ level.nodes → n.id = id →
      n'.id = id → n = n' := fun hn hn' hid hid' =>
    List.inj_on_of_nodup_map hids hn hn' (hid.trans hid'.symm)
  cases h with
  | node hmem hid hplain =>
      cases h' with
      | node hmem' hid' hplain' => rw [hsame hmem hmem' hid hid']
      | bridge hmem' hid' hcontainer' hbridge' =>
          rw [hsame hmem hmem' hid hid', hcontainer'] at hplain
          cases hplain
  | bridge hmem hid hcontainer hbridge =>
      cases h' with
      | node hmem' hid' hplain' =>
          rw [hsame hmem hmem' hid hid', hplain'] at hcontainer
          cases hcontainer
      | bridge hmem' hid' hcontainer' hbridge' =>
          obtain rfl := hsame hmem hmem' hid hid'
          obtain ⟨bridge, hone⟩ := List.length_eq_one_iff.mp (hbridged _ hmem hcontainer hid)
          rw [hone] at hbridge hbridge'
          rw [List.mem_singleton.mp hbridge, List.mem_singleton.mp hbridge']

/-- The end that the flattening makes of one is where it is read to be. -/
theorem endAt_rerouteEnd (hids : (level.nodes.map EditorNode.id).Nodup)
    (hmem : id ∈ level.nodes.map EditorNode.id)
    (hbridged : ∀ c ∈ level.nodes, c.isContainerNode = true → c.id = id →
      (c.bridges bridgeType).length = 1)
    {ends : BridgeIds → List String}
    (hends : ∀ c : EditorNode, ends c.bridgeIds =
      (c.bridges bridgeType).map fun bridge => prefixId c.id bridge.id) (path : List EditorNode) :
    ∃ p : Place, pathId path (rerouteEnd ((level.containerBridgeMap id).map ends) id port).1 =
        p.id ∧
      EndAt bridgeType path level id port p
        (rerouteEnd ((level.containerBridgeMap id).map ends) id port).2 := by
  obtain ⟨node, hnode, rfl⟩ := List.mem_map.mp hmem
  have hfind : level.nodes.reverse.find? (fun n => n.isContainerNode && n.id = node.id) =
      if node.isContainerNode then some node else none := by
    cases hfound : level.nodes.reverse.find? (fun n => n.isContainerNode && n.id = node.id) with
    | none =>
        have hnone := List.find?_eq_none.mp hfound node (List.mem_reverse.mpr hnode)
        rw [decide_eq_true rfl, Bool.and_true] at hnone
        rw [if_neg hnone]
    | some found =>
        obtain ⟨hcontainer, hid⟩ := Bool.and_eq_true _ _ ▸ List.find?_some hfound
        obtain rfl := List.inj_on_of_nodup_map hids
          (List.mem_reverse.mp (List.mem_of_find?_eq_some hfound)) hnode (of_decide_eq_true hid)
        rw [if_pos hcontainer]
  rw [EditorGraph.containerBridgeMap, hfind]
  by_cases hcontainer : node.isContainerNode = true
  · obtain ⟨bridge, hone⟩ := List.length_eq_one_iff.mp (hbridged node hnode hcontainer rfl)
    rw [if_pos hcontainer, Option.map_some, Option.map_some, hends, hone]
    refine ⟨⟨path ++ [node], bridge⟩, ?_, .bridge hnode rfl hcontainer ?_⟩
    · exact (pathId_append path [node] bridge.id).symm
    · rw [hone]
      exact List.mem_singleton_self bridge
  · rw [if_neg hcontainer]
    exact ⟨⟨path, node⟩, rfl, .node hnode rfl (Bool.eq_false_iff.mpr hcontainer)⟩

variable {numberText : Number → String} {flat : EditorGraph} {ancestorIds : List String} {levels : ℕ}
  {o : OpenedLevel} {edge : EditorEdge}

/-- The edge that the flattening makes of one is that edge. -/
theorem carries_reroute (h : HasIds graph) (hjoined : Joined graph) (hbridged : Bridged graph)
    (hinside : Inside graph path level) (hedge : edge ∈ level.edges) (path' : List EditorNode) :
    Carries path' level edge ((level.reroute edge).under path') := by
  have hids := h.nodup _ _ hinside
  obtain ⟨hsource, htarget⟩ := hjoined _ _ hinside edge hedge
  have hbridges := hbridged _ _ hinside edge hedge
  constructor
  · exact endAt_rerouteEnd hids hsource (fun c hc hopen => (hbridges c hc hopen).1)
      (fun _ => rfl) path'
  · exact endAt_rerouteEnd hids htarget (fun c hc hopen => (hbridges c hc hopen).2)
      (fun _ => rfl) path'

theorem mem_flatIds_of_isIn (hflat : flattenSubgraphs numberText levels ancestorIds graph = .ok flat)
    (hp : p.IsIn graph) : p.id ∈ flatIds levels graph := by
  obtain ⟨path, node⟩ := p
  obtain ⟨level, hinside, hmem, hplain⟩ := hp
  obtain ⟨o, ho, rfl, rfl⟩ := (inside_iff_mem_openedLevels hflat).mp hinside
  exact mem_flatIds ho ⟨node, hmem, rfl, hplain⟩

/-- No edge of a level that is opened is left out. -/
theorem kept_eq (h : HasIds graph) (hjoined : Joined graph) (hbridged : Bridged graph)
    (hflat : flattenSubgraphs numberText levels ancestorIds graph = .ok flat)
    (ho : o ∈ openedLevels levels graph) : o.kept = o.graph.edges.map o.graph.reroute := by
  have hinside : Inside graph o.path o.graph :=
    (inside_iff_mem_openedLevels hflat).mpr ⟨o, ho, rfl, rfl⟩
  obtain ⟨o', ho', hpath, -, _, flat', hflat'⟩ :=
    exists_mem_openedLevels hinside.1 hinside.2 hflat
  obtain rfl := eq_of_path_eq ho' ho hpath
  refine List.filter_eq_self.mpr fun carried hcarried => ?_
  obtain ⟨edge, hedge, rfl⟩ := List.mem_map.mp hcarried
  obtain ⟨⟨p, hp, hpAt⟩, q, hq, hqAt⟩ := carries_reroute h hjoined hbridged hinside hedge []
  have hsource := mem_flatIds_of_isIn hflat' (hpAt.isIn (by decide) (.top _))
  have htarget := mem_flatIds_of_isIn hflat' (hqAt.isIn (by decide) (.top _))
  rw [← hp] at hsource
  rw [← hq] at htarget
  exact within_iff.mpr ⟨hsource, htarget⟩

theorem flattensEdges (h : HasIds graph) (hjoined : Joined graph) (hbridged : Bridged graph)
    (hflat : flattenSubgraphs numberText (maxSubgraphDepth + 1) ancestorIds graph = .ok flat) :
    FlattensEdges graph flat := by
  refine ⟨fun path level => inside_iff_mem_openedLevels hflat, paths_nodup h, ?_⟩
  refine ⟨(drawnEdges graph).map fun drawn => (drawn.1.graph.reroute drawn.2).under drawn.1.path,
    ?_, ?_⟩
  · refine (flatten_perm hflat).2.trans (.of_eq ?_)
    rw [drawnEdges, List.map_flatMap]
    refine List.flatMap_congr fun o ho => ?_
    rw [OpenedLevel.flatEdges, kept_eq h hjoined hbridged hflat ho, List.map_map, List.map_map]
    rfl
  · rw [List.forall₂_map_right_iff, List.forall₂_same]
    rintro ⟨o, edge⟩ hdrawn
    obtain ⟨o, ho, hmem⟩ := List.mem_flatMap.mp hdrawn
    obtain ⟨edge, hedge, heq⟩ := List.mem_map.mp hmem
    cases heq
    exact carries_reroute h hjoined hbridged
      ((inside_iff_mem_openedLevels hflat).mpr ⟨o, ho, rfl, rfl⟩) hedge o.path

end Edges

/-! ## Ways -/

/-- Where the steps from a renamed state are the renamed steps, ways are kept. -/
theorem transGen_iff_of_rename {α β : Type} {r : α → α → Prop} {s : β → β → Prop} {f : α → β}
    {P : α → Prop} (hinj : ∀ a b, P a → P b → f a = f b → a = b)
    (hstep : ∀ a, P a → ∀ y, s (f a) y ↔ ∃ b, P b ∧ r a b ∧ f b = y)
    (hkeep : ∀ a b, P a → r a b → P b) {a b : α} (ha : P a) (hb : P b) :
    TransGen s (f a) (f b) ↔ TransGen r a b := by
  constructor
  · intro h
    have hway : ∀ y, TransGen s (f a) y → ∃ c, P c ∧ TransGen r a c ∧ f c = y := by
      intro y hy
      induction hy with
      | single hy =>
          obtain ⟨c, hc, hac, heq⟩ := (hstep a ha _).mp hy
          exact ⟨c, hc, .single hac, heq⟩
      | tail _ hy ih =>
          obtain ⟨c, hc, hac, rfl⟩ := ih
          obtain ⟨d, hd, hcd, heq⟩ := (hstep c hc _).mp hy
          exact ⟨d, hd, hac.tail hcd, heq⟩
    obtain ⟨c, hc, hac, heq⟩ := hway _ h
    exact hinj c b hc hb heq ▸ hac
  · intro h
    have hway : TransGen s (f a) (f b) ∧ P b := by
      clear hb
      induction h with
      | single hab =>
          have hb := hkeep _ _ ha hab
          exact ⟨.single ((hstep a ha _).mpr ⟨_, hb, hab, rfl⟩), hb⟩
      | tail _ hbc ih =>
          have hc := hkeep _ _ ih.2 hbc
          exact ⟨ih.1.tail ((hstep _ ih.2 _).mpr ⟨_, hc, hbc, rfl⟩), hc⟩
    exact hway.1

section Ways

variable {graph flat : EditorGraph} {p q : Place}

theorem NestedStep.isIn (h : NestedStep graph p q) : p.IsIn graph ∧ q.IsIn graph := by
  obtain ⟨path, level, edge, hinside, -, ⟨_, hp⟩, _, hq⟩ := h
  exact ⟨hp.isIn (by decide) hinside, hq.isIn (by decide) hinside⟩

/-- An edge of the flattened graph from a place is an edge of a level from it. -/
theorem flatStep_iff (h : HasIds graph) (hbridged : Bridged graph) (hedges : FlattensEdges graph flat)
    (hp : p.IsIn graph) (y : String) :
    FlatStep flat p.id y ↔ ∃ q : Place, q.IsIn graph ∧ NestedStep graph p q ∧ q.id = y := by
  obtain ⟨carried, hperm, hall⟩ := hedges.edges
  have hinside : ∀ {d : OpenedLevel × EditorEdge}, d ∈ drawnEdges graph →
      Inside graph d.1.path d.1.graph ∧ d.2 ∈ d.1.graph.edges := by
    intro d hd
    obtain ⟨o, ho, hd⟩ := List.mem_flatMap.mp hd
    obtain ⟨edge, hedge, rfl⟩ := List.mem_map.mp hd
    exact ⟨(hedges.levels _ _).mpr ⟨o, ho, rfl, rfl⟩, hedge⟩
  constructor
  · rintro ⟨edge, hedge, hsource, rfl⟩
    obtain ⟨drawn, hdrawn, hcarries⟩ := exists_left_of_forall₂ hall (hperm.mem_iff.mp hedge)
    obtain ⟨hlevel, hmem⟩ := hinside hdrawn
    obtain ⟨⟨p', hp', hpAt⟩, q, hq, hqAt⟩ := hcarries
    obtain rfl := h.eq_of_place_id hp (hpAt.isIn (by decide) hlevel) (hsource.symm.trans hp')
    exact ⟨q, hqAt.isIn (by decide) hlevel,
      ⟨_, _, _, hlevel, hmem, ⟨_, hpAt⟩, _, hqAt⟩, hq.symm⟩
  · rintro ⟨q, -, ⟨path, level, edge, hlevel, hmem, ⟨_, hpAt⟩, _, hqAt⟩, rfl⟩
    obtain ⟨o, ho, rfl, rfl⟩ := (hedges.levels _ _).mp hlevel
    have hdrawn : (o, edge) ∈ drawnEdges graph :=
      List.mem_flatMap.mpr ⟨o, ho, List.mem_map_of_mem hmem⟩
    obtain ⟨carried, hcarried, ⟨p', hp', hpAt'⟩, q', hq', hqAt'⟩ := exists_right_of_forall₂ hall hdrawn
    have hids := h.nodup _ _ hlevel
    have hbridges := hbridged _ _ hlevel edge hmem
    obtain rfl := hpAt.unique hids (fun c hc hopen => (hbridges c hc hopen).1) hpAt'
    obtain rfl := hqAt.unique hids (fun c hc hopen => (hbridges c hc hopen).2) hqAt'
    exact ⟨carried, hperm.mem_iff.mpr hcarried, hp', hq'⟩

end Ways

/-- The flattening of a nesting keeps its nodes; where every edge joins nodes of its level and every
subgraph that it touches has one bridge for it, it keeps the edges, and the ways. -/
theorem flatten_refines (numberText : Number → String) {graph : EditorGraph} (h : IsNested graph)
    (hacyclic : Acyclic graph) :
    ∃ flat, flattenSubgraphs numberText (maxSubgraphDepth + 1) [] graph = .ok flat ∧
      FlattensNodes numberText graph flat ∧
      (Joined graph → Bridged graph → FlattensEdges graph flat ∧
        ∀ p q : Place, p.IsIn graph → q.IsIn graph →
          (TransGen (FlatStep flat) p.id q.id ↔ TransGen (NestedStep graph) p q)) := by
  obtain ⟨flat, hflat⟩ := exists_flatten_eq_ok numberText
    (fun path level hinside => Nat.lt_succ_of_le (h.depth path level hinside)) hacyclic
    fun _ _ _ _ _ => List.not_mem_nil
  refine ⟨flat, hflat, flattensNodes h.toHasIds hflat, fun hjoined hbridged => ?_⟩
  have hedges := flattensEdges h.toHasIds hjoined hbridged hflat
  refine ⟨hedges, fun p q hp hq => ?_⟩
  refine transGen_iff_of_rename (f := Place.id) (P := fun p => p.IsIn graph) ?_ ?_ ?_ hp hq
  · exact fun a b => h.toHasIds.eq_of_place_id
  · exact fun a ha y => flatStep_iff h.toHasIds hbridged hedges ha y
  · exact fun a b _ hstep => hstep.isIn.2

/-! ## Drawings -/

/-- A subgraph between two nodes. -/
def bridgedGraph : EditorGraph :=
  ⟨[drawnNode "timer" "timer" [] [],
    drawnNode "sub" "subgraph"
      [drawnNode "in" "subgraphInput" [] [], drawnNode "code" "code" [] [],
        drawnNode "out" "subgraphOutput" [] []]
      [drawnEdge "in" "code", drawnEdge "code" "out"],
    drawnNode "sql" "sqlWriter" [] []],
    [drawnEdge "timer" "sub", drawnEdge "sub" "sql"]⟩

/-- There is a way through the subgraph. -/
theorem bridgedGraph_refines :
    ∃ flat, flattenSubgraphs (fun _ => "") (maxSubgraphDepth + 1) [] bridgedGraph = .ok flat ∧
      FlattensNodes (fun _ => "") bridgedGraph flat ∧ FlattensEdges bridgedGraph flat := by
  have hflat : flattenSubgraphs (fun _ => "") (maxSubgraphDepth + 1) [] bridgedGraph = .ok _ := rfl
  have hnested : IsNested bridgedGraph := by
    refine ⟨⟨(forall_inside_iff hflat).mpr ?_, (forall_inside_iff hflat).mpr ?_⟩,
      (forall_inside_iff hflat).mpr ?_⟩ <;> decide
  obtain ⟨flat, heq, hnodes, hedges⟩ := flatten_refines (fun _ => "") hnested
    ((forall_inside_iff hflat).mpr (by decide))
  refine ⟨flat, heq, hnodes, (hedges ((forall_inside_iff hflat).mpr ?_)
    ((forall_inside_iff hflat).mpr ?_)).1⟩ <;> decide

/-- A subgraph with a subgraph in it that has the same id. -/
def sameIdGraph : EditorGraph :=
  ⟨[drawnNode "a" "subgraph" [drawnNode "a" "subgraph" [] []] []], []⟩

theorem isNested_sameIdGraph : IsNested sameIdGraph := by
  have hlevels : ∀ path level, Inside sameIdGraph path level →
      path.length ≤ 2 ∧ (level = sameIdGraph ∨ level.nodes = [drawnNode "a" "subgraph" [] []] ∨
        level.nodes = []) := by
    intro path level hinside
    rcases inside_iff.mp hinside with ⟨rfl, rfl⟩ | ⟨c, hc, -, rest, rfl, hinner⟩
    · exact ⟨by decide, .inl rfl⟩
    obtain rfl := List.mem_singleton.mp hc
    rcases inside_iff.mp hinner with ⟨rfl, rfl⟩ | ⟨c, hc, -, rest, rfl, hinnermost⟩
    · exact ⟨by decide, .inr (.inl rfl)⟩
    obtain rfl := List.mem_singleton.mp hc
    rcases inside_iff.mp hinnermost with ⟨rfl, rfl⟩ | ⟨c, hc, -⟩
    · exact ⟨by decide, .inr (.inr rfl)⟩
    · cases hc
  refine ⟨⟨fun path level hinside => ?_, fun path level hinside => ?_⟩, fun path level hinside => ?_⟩
  · rcases (hlevels path level hinside).2 with rfl | hnodes | hnodes
    · decide
    · rw [hnodes]
      decide
    · rw [hnodes]
      decide
  · rcases (hlevels path level hinside).2 with rfl | hnodes | hnodes
    · decide
    · rw [hnodes]
      decide
    · rw [hnodes]
      decide
  · exact (hlevels path level hinside).1.trans (by decide)

/-- An edge to a node that is not there. -/
def danglingGraph : EditorGraph := ⟨[drawnNode "a" "code" [] []], [drawnEdge "a" "b"]⟩

/-- The first one is a nesting, and it is refused. The second one loses its edge. -/
theorem sameId_refused :
    (IsNested sameIdGraph ∧
      flattenSubgraphs (fun _ => "") (maxSubgraphDepth + 1) [] sameIdGraph = .error "子图循环引用：a") ∧
    (IsNested danglingGraph ∧ Bridged danglingGraph ∧
      ∃ flat, flattenSubgraphs (fun _ => "") (maxSubgraphDepth + 1) [] danglingGraph = .ok flat ∧
        flat.edges = [] ∧ ¬ FlattensEdges danglingGraph flat) := by
  have hflat : flattenSubgraphs (fun _ => "") (maxSubgraphDepth + 1) [] danglingGraph = .ok _ := rfl
  refine ⟨⟨isNested_sameIdGraph, rfl⟩, ⟨⟨⟨?_, ?_⟩, ?_⟩, ?_, _, hflat, rfl, ?_⟩⟩
  · exact (forall_inside_iff hflat).mpr (by decide)
  · exact (forall_inside_iff hflat).mpr (by decide)
  · exact (forall_inside_iff hflat).mpr (by decide)
  · exact (forall_inside_iff hflat).mpr (by decide)
  · intro hedges
    obtain ⟨carried, hperm, hall⟩ := hedges.edges
    have hlength := hall.length_eq.trans hperm.length_eq.symm
    exact absurd hlength (by decide)

end Nazh.Web
