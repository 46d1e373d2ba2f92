import Nazh.Graph.Deployable

/-!
# Edges over bridges

When a node is moved into a subgraph, an edge of it is led over the bridge of the subgraph, and over
one bridge more for each subgraph around it. A bridge passes on what it is given. Its pins are
execution pins for JSON, and the check on pins holds for the ways to it and from it as for any other
edge.
-/

namespace Nazh

open Lib

/-! ## Bridges -/

namespace PinDefinition

/-- The input of a node with one input. -/
def requiredInput (pinType : PinType) : PinDefinition := { defaultInput with pinType }

/-- The output of a node with one output. -/
def output (pinType : PinType) : PinDefinition := { defaultOutput with pinType }

end PinDefinition

structure PassthroughNode where
  id : String

namespace PassthroughNode

def fromDefinition (definition : WorkflowNodeDefinition) : PassthroughNode := ⟨definition.id⟩

def inputPins : List PinDefinition := [.requiredInput .json]

def outputPins : List PinDefinition := [.output .json]

/-- A bridge, as the graph sees it. -/
def node (bridge : PassthroughNode) : NodeTrait := ⟨bridge.id, inputPins, outputPins⟩

def transform (payload : Value) : NodeExecution := .broadcast payload

end PassthroughNode

/-- The types of nodes that are bridges. -/
def WorkflowNodeDefinition.isBridge (definition : WorkflowNodeDefinition) : Bool :=
  definition.nodeType = "subgraphInput" || definition.nodeType = "subgraphOutput"

/-- The registry with its entries for bridges. -/
def DeployEnv.withBridges (env : DeployEnv) : DeployEnv :=
  { env with create := fun definition =>
      if definition.isBridge then .ok (PassthroughNode.fromDefinition definition).node
      else env.create definition }

/-! ## Ways over bridges -/

/-- An edge led over bridges: it keeps its ports at its ends, and has none at a bridge. -/
def WorkflowEdge.ledOver (edge : WorkflowEdge) : List String → List WorkflowEdge
  | [] => [edge]
  | bridge :: rest =>
      ⟨edge.source, bridge, edge.sourcePortId, none, none⟩ ::
        ledOver ⟨bridge, edge.target, none, edge.targetPortId, none⟩ rest

/-- One edge of a graph is led over bridges that are new. -/
structure Routed (graph graph' : WorkflowGraph) (edge : WorkflowEdge)
    (bridges : List (String × WorkflowNodeDefinition)) : Prop where
  nonempty : bridges ≠ []
  nodup : (bridges.map Prod.fst).Nodup
  apart : ∀ b ∈ bridges, b.1 ∉ graph.nodes
  kinds : ∀ b ∈ bridges, b.2.isBridge = true
  added : ∀ b ∈ bridges, graph'.nodes.lookup b.1 = some b.2
  others : ∀ key ∉ bridges.map Prod.fst, graph'.nodes.lookup key = graph.nodes.lookup key
  edges : graph'.edges.Perm (edge.ledOver (bridges.map Prod.fst) ++ graph.edges.erase edge)
  connections : graph'.connections = graph.connections
  declarations : graph'.declarations = graph.declarations

/-- A type that goes together with JSON. -/
def TakesJson (pinType : PinType) : Prop := pinType = .any ∨ pinType = .json

/-- An edge may lead from its pin to a bridge. -/
def CanStart (nodes : NodeIndex) (edge : WorkflowEdge) : Prop :=
  ∃ source ∈ nodes.lookup edge.source, ∃ pin ∈ findPin source.outputPins edge.sourcePin,
    TakesJson pin.pinType ∧ pin.kind ≠ .data

/-- An edge may lead from a bridge to its pin. -/
def CanEnd (nodes : NodeIndex) (edge : WorkflowEdge) : Prop :=
  ∃ target ∈ nodes.lookup edge.target, ∃ pin ∈ findPin target.inputPins edge.targetPin,
    TakesJson pin.pinType ∧ pin.kind = .exec

/-- The pins of an edge go together with those of a bridge. -/
def Passes (nodes : NodeIndex) (edge : WorkflowEdge) : Prop := CanStart nodes edge ∧ CanEnd nodes edge

section Ways

variable {edge e : WorkflowEdge} {bridges : List String} {b : String}

theorem ends_over : (edge.ledOver bridges).map WorkflowEdge.ends =
    trail edge.source edge.target bridges := by
  induction bridges generalizing edge with
  | nil => rfl
  | cons bridge rest ih =>
      rw [WorkflowEdge.ledOver, List.map_cons, ih]
      rfl

theorem source_mem_over (h : e ∈ edge.ledOver bridges) : e.source = edge.source ∨ e.source ∈ bridges := by
  induction bridges generalizing edge with
  | nil =>
      rw [List.mem_singleton.mp h]
      exact .inl rfl
  | cons bridge rest ih =>
      rcases List.mem_cons.mp h with rfl | h
      · exact .inl rfl
      · rcases ih h with hsource | hsource
        · exact .inr (hsource ▸ List.mem_cons_self)
        · exact .inr (List.mem_cons_of_mem _ hsource)

/-- The way goes once from where it starts. -/
theorem filter_source_over (h : edge.source ∉ bridges) :
    ∃ hop : WorkflowEdge, (edge.ledOver bridges).filter (fun e => e.source = edge.source) = [hop] ∧
      hop.source = edge.source ∧ hop.sourcePortId = edge.sourcePortId ∧
      hop.target = (bridges ++ [edge.target]).head (by simp) := by
  cases bridges with
  | nil => exact ⟨edge, by simp [WorkflowEdge.ledOver], rfl, rfl, rfl⟩
  | cons bridge rest =>
      refine ⟨⟨edge.source, bridge, edge.sourcePortId, none, none⟩, ?_, rfl, rfl, rfl⟩
      rw [WorkflowEdge.ledOver, List.filter_cons_of_pos (by simp), List.filter_eq_nil_iff.mpr]
      intro e he
      rw [decide_eq_true_eq]
      intro heq
      rcases source_mem_over he with hsource | hsource
      · exact h (List.mem_cons.mpr (.inl (heq.symm.trans hsource)))
      · exact h (List.mem_cons_of_mem _ (heq ▸ hsource))

/-- It goes once from each bridge, without a port. -/
theorem filter_bridge_over {pre rest : List String} (hsplit : bridges = pre ++ b :: rest)
    (hnodup : bridges.Nodup) (hsource : edge.source ≠ b) :
    ∃ hop : WorkflowEdge, (edge.ledOver bridges).filter (fun e => e.source = b) = [hop] ∧
      hop.source = b ∧ hop.sourcePortId = none ∧
      hop.target = (rest ++ [edge.target]).head (by simp) := by
  subst hsplit
  induction pre generalizing edge with
  | nil =>
      have hb : b ∉ rest := (List.nodup_cons.mp hnodup).1
      obtain ⟨hop, hfilter, hhop⟩ :=
        @filter_source_over ⟨b, edge.target, none, edge.targetPortId, none⟩ rest hb
      refine ⟨hop, ?_, hhop⟩
      rw [List.nil_append, WorkflowEdge.ledOver, List.filter_cons_of_neg (by simpa using hsource)]
      exact hfilter
  | cons a pre ih =>
      obtain ⟨ha, hrest⟩ := List.nodup_cons.mp hnodup
      have hab : a ≠ b := fun h => ha (by simp [h])
      obtain ⟨hop, hfilter, hhop⟩ :=
        @ih ⟨a, edge.target, none, edge.targetPortId, none⟩ hab hrest
      refine ⟨hop, ?_, hhop⟩
      rw [List.cons_append, WorkflowEdge.ledOver, List.filter_cons_of_neg (by simpa using hsource)]
      exact hfilter

/-- The way ends where the edge does. -/
theorem exists_last_over : ∃ last ∈ edge.ledOver bridges,
    last.target = edge.target ∧ last.targetPin = edge.targetPin := by
  induction bridges generalizing edge with
  | nil => exact ⟨edge, List.mem_singleton_self _, rfl, rfl⟩
  | cons bridge rest ih =>
      obtain ⟨last, hlast, htarget, hpin⟩ :=
        @ih ⟨bridge, edge.target, none, edge.targetPortId, none⟩
      exact ⟨last, List.mem_cons_of_mem _ hlast, htarget, hpin⟩

end Ways

/-! ## Pins -/

section Pins

variable {nodes : NodeIndex} {edge e : WorkflowEdge} {bridges : List String}

theorem isCompatibleWith_json {pinType : PinType} :
    pinType.isCompatibleWith .json = true ↔ TakesJson pinType := by
  cases pinType <;> simp [PinType.isCompatibleWith, TakesJson]

theorem json_isCompatibleWith {pinType : PinType} :
    PinType.json.isCompatibleWith pinType = true ↔ TakesJson pinType := by
  cases pinType <;> simp [PinType.isCompatibleWith, TakesJson]

theorem isCompatibleWith_exec {kind : PinKind} :
    kind.isCompatibleWith .exec = true ↔ kind ≠ .data := by
  cases kind <;> simp [PinKind.isCompatibleWith]

theorem exec_isCompatibleWith {kind : PinKind} :
    PinKind.exec.isCompatibleWith kind = true ↔ kind = .exec := by
  cases kind <;> simp [PinKind.isCompatibleWith]

/-- The edges that pass are accepted. -/
theorem Passes.joined (h : Passes nodes edge) : Joined nodes edge := by
  obtain ⟨⟨source, hsource, fromPin, hfrom, hfromType, hfromKind⟩,
    ⟨target, htarget, toPin, hto, htoType, htoKind⟩⟩ := h
  refine ⟨source, hsource, target, htarget, fromPin, hfrom, toPin, hto, ?_, ?_⟩
  · rcases hfromType with hfromType | hfromType <;> rcases htoType with htoType | htoType <;>
      rw [hfromType, htoType] <;> rfl
  · rw [htoKind, isCompatibleWith_exec]
    exact hfromKind

/-- What can be said of a bridge in an index. -/
def IsBridgeIn (nodes : NodeIndex) (key : String) : Prop :=
  ∃ bridge : PassthroughNode, nodes.lookup key = some bridge.node

theorem IsBridgeIn.starts (h : IsBridgeIn nodes e.source) (hport : e.sourcePortId = none) :
    CanStart nodes e := by
  obtain ⟨bridge, hbridge⟩ := h
  refine ⟨bridge.node, hbridge, .output .json, ?_, .inr rfl, PinKind.noConfusion⟩
  simp only [WorkflowEdge.sourcePin, hport]
  rfl

theorem IsBridgeIn.ends (h : IsBridgeIn nodes e.target) (hport : e.targetPortId = none) :
    CanEnd nodes e := by
  obtain ⟨bridge, hbridge⟩ := h
  refine ⟨bridge.node, hbridge, .requiredInput .json, ?_, .inr rfl, rfl⟩
  simp only [WorkflowEdge.targetPin, hport]
  rfl

theorem IsBridgeIn.kindOf_eq (h : IsBridgeIn nodes e.source) (hport : e.sourcePortId = none) :
    kindOf nodes e = some .exec := by
  obtain ⟨bridge, hbridge⟩ := h
  rw [kindOf, hbridge, WorkflowEdge.sourcePin, hport]
  rfl

theorem CanStart.kindOf_ne (h : CanStart nodes e) : kindOf nodes e ≠ some .data := by
  obtain ⟨source, hsource, pin, hpin, -, hkind⟩ := h
  simp [kindOf, Option.mem_def.mp hsource, Option.mem_def.mp hpin, hkind]

/-- If an edge passes, so does every part of its way. -/
theorem passes_over (hbridges : ∀ b ∈ bridges, IsBridgeIn nodes b) (h : Passes nodes edge) :
    ∀ e ∈ edge.ledOver bridges, Passes nodes e := by
  induction bridges generalizing edge with
  | nil =>
      intro e he
      exact List.mem_singleton.mp he ▸ h
  | cons bridge rest ih =>
      obtain ⟨hbridge, hrest⟩ := List.forall_mem_cons.mp hbridges
      intro e he
      rcases List.mem_cons.mp he with rfl | he
      · exact ⟨h.1, hbridge.ends rfl⟩
      · refine @ih ⟨bridge, edge.target, none, edge.targetPortId, none⟩ hrest ?_ e he
        exact ⟨hbridge.starts rfl, h.2⟩

/-- If the way to a bridge is accepted, the edge may lead to one. -/
theorem starts_of_joined (hbridge : IsBridgeIn nodes e.target) (hport : e.targetPortId = none)
    (h : Joined nodes e) : CanStart nodes e := by
  obtain ⟨source, hsource, target, htarget, fromPin, hfrom, toPin, hto, htype, hkind⟩ := h
  obtain ⟨bridge, hlookup⟩ := hbridge
  obtain rfl := Option.mem_unique htarget hlookup
  simp only [WorkflowEdge.targetPin, hport] at hto
  obtain rfl : PinDefinition.requiredInput .json = toPin := Option.some.inj hto
  exact ⟨source, hsource, fromPin, hfrom, isCompatibleWith_json.mp htype,
    isCompatibleWith_exec.mp hkind⟩

/-- If the way from a bridge is accepted, the edge may lead from one. -/
theorem ends_of_joined (hbridge : IsBridgeIn nodes e.source) (hport : e.sourcePortId = none)
    (h : Joined nodes e) : CanEnd nodes e := by
  obtain ⟨source, hsource, target, htarget, fromPin, hfrom, toPin, hto, htype, hkind⟩ := h
  obtain ⟨bridge, hlookup⟩ := hbridge
  obtain rfl := Option.mem_unique hsource hlookup
  simp only [WorkflowEdge.sourcePin, hport] at hfrom
  obtain rfl : PinDefinition.output .json = fromPin := Option.some.inj hfrom
  exact ⟨target, htarget, toPin, hto, json_isCompatibleWith.mp htype,
    exec_isCompatibleWith.mp hkind⟩

/-- If all of the way from a bridge is accepted, the edge may lead from one. -/
theorem ends_of_over (hbridges : ∀ b ∈ bridges, IsBridgeIn nodes b)
    (hbridge : IsBridgeIn nodes edge.source) (hport : edge.sourcePortId = none)
    (h : ∀ e ∈ edge.ledOver bridges, Joined nodes e) : CanEnd nodes edge := by
  induction bridges generalizing edge with
  | nil => exact ends_of_joined hbridge hport (h edge (List.mem_singleton_self _))
  | cons bridge rest ih =>
      obtain ⟨hfirst, hrest⟩ := List.forall_mem_cons.mp hbridges
      exact @ih ⟨bridge, edge.target, none, edge.targetPortId, none⟩ hrest hfirst rfl
        fun e he => h e (List.mem_cons_of_mem _ he)

end Pins

/-! ## The checks -/

/-- An index of nodes to which bridges are added. -/
structure Bridged (ids : List String) (nodes nodes' : NodeIndex) : Prop where
  others : ∀ key ∉ ids, nodes'.lookup key = nodes.lookup key
  bridges : ∀ b ∈ ids, IsBridgeIn nodes' b
  new : ∀ b ∈ ids, nodes.lookup b = none

section Checks

variable {ids : List String} {nodes nodes' : NodeIndex} {e edge : WorkflowEdge}
  {edges edges' : List WorkflowEdge}

theorem Bridged.notMem_of_lookup {key : String} {node : NodeTrait} (h : Bridged ids nodes nodes')
    (hnode : nodes.lookup key = some node) : key ∉ ids := by
  intro hmem
  rw [h.new key hmem] at hnode
  cases hnode

/-- No edge that was there leads to a bridge, or from one. -/
theorem Bridged.ends_notMem (h : Bridged ids nodes nodes') (he : Joined nodes e) :
    e.source ∉ ids ∧ e.target ∉ ids := by
  obtain ⟨source, hsource, target, htarget, -⟩ := he
  exact ⟨h.notMem_of_lookup hsource, h.notMem_of_lookup htarget⟩

theorem Bridged.joined (h : Bridged ids nodes nodes') (he : Joined nodes e) : Joined nodes' e := by
  obtain ⟨hsource, htarget⟩ := h.ends_notMem he
  simp only [Joined, h.others _ hsource, h.others _ htarget] at he ⊢
  exact he

theorem Bridged.passes_iff (h : Bridged ids nodes nodes') (he : Joined nodes e) :
    Passes nodes' e ↔ Passes nodes e := by
  obtain ⟨hsource, htarget⟩ := h.ends_notMem he
  simp only [Passes, CanStart, CanEnd, h.others _ hsource, h.others _ htarget]

/-- The pins go together with the edges when one of them that passes is led over bridges. -/
theorem Bridged.pinsCompatible (h : Bridged ids nodes nodes') (hpins : PinsCompatible nodes edges)
    (hedge : edge ∈ edges) (hpass : Passes nodes edge)
    (hperm : edges'.Perm (edge.ledOver ids ++ edges.erase edge)) : PinsCompatible nodes' edges' where
  nodup key node hnode := by
    by_cases hkey : key ∈ ids
    · obtain ⟨bridge, hbridge⟩ := h.bridges key hkey
      obtain rfl := Option.mem_unique hnode hbridge
      exact ⟨List.nodup_singleton _, List.nodup_singleton _⟩
    · exact hpins.nodup key node (h.others key hkey ▸ hnode)
  joined e he := by
    rcases List.mem_append.mp (hperm.mem_iff.mp he) with he | he
    · have hpass' := (h.passes_iff (hpins.joined edge hedge)).mpr hpass
      exact (passes_over h.bridges hpass' e he).joined
    · exact h.joined (hpins.joined e (List.mem_of_mem_erase he))
  covered key node hnode pin hpin hrequired hid := by
    by_cases hkey : key ∈ ids
    · obtain ⟨bridge, hbridge⟩ := h.bridges key hkey
      obtain rfl := Option.mem_unique hnode hbridge
      obtain rfl := List.mem_singleton.mp hpin
      exact absurd rfl hid
    · obtain ⟨e, he, htarget, htargetPin⟩ :=
        hpins.covered key node (h.others key hkey ▸ hnode) pin hpin hrequired hid
      by_cases heq : e = edge
      · obtain ⟨last, hlast, hlastTarget, hlastPin⟩ := @exists_last_over edge ids
        refine ⟨last, hperm.mem_iff.mpr (List.mem_append_left _ hlast), ?_, ?_⟩
        · rw [hlastTarget, ← heq, htarget]
        · rw [hlastPin, ← heq, htargetPin]
      · refine ⟨e, hperm.mem_iff.mpr (List.mem_append_right _ ?_), htarget, htargetPin⟩
        exact (List.mem_erase_of_ne heq).mpr he
  reserved key node hnode pin hpin hid := by
    by_cases hkey : key ∈ ids
    · obtain ⟨bridge, hbridge⟩ := h.bridges key hkey
      obtain rfl := Option.mem_unique hnode hbridge
      obtain rfl := List.mem_singleton.mp hpin
      rfl
    · exact hpins.reserved key node (h.others key hkey ▸ hnode) pin hpin hid

/-- An edge led over bridges is accepted only if it passes. -/
theorem Bridged.passes_of_joined (h : Bridged ids nodes nodes') (hids : ids ≠ [])
    (he : Joined nodes e) (hover : ∀ hop ∈ e.ledOver ids, Joined nodes' hop) : Passes nodes e := by
  rw [← h.passes_iff he]
  obtain ⟨first, rest, rfl⟩ := List.exists_cons_of_ne_nil hids
  obtain ⟨hfirst, hrest⟩ := List.forall_mem_cons.mp hover
  obtain ⟨hbridge, hbridges⟩ := List.forall_mem_cons.mp h.bridges
  have hstarts : CanStart nodes' ⟨e.source, first, e.sourcePortId, none, none⟩ :=
    starts_of_joined hbridge rfl hfirst
  have hends : CanEnd nodes' ⟨first, e.target, none, e.targetPortId, none⟩ :=
    ends_of_over hbridges hbridge rfl hrest
  exact ⟨hstarts, hends⟩

end Checks

section Routes

variable {env : DeployEnv} {graph graph' : WorkflowGraph} {edge : WorkflowEdge}
  {bridges : List (String × WorkflowNodeDefinition)} {nodes nodes' : NodeIndex}

theorem Routed.madeOf_bridge (h : Routed graph graph' edge bridges)
    {b : String × WorkflowNodeDefinition} (hb : b ∈ bridges) :
    madeOf env.withBridges graph' b.1 = some (PassthroughNode.fromDefinition b.2).node := by
  simp [madeOf, h.added b hb, DeployEnv.withBridges, h.kinds b hb, Except.toOption]

theorem Routed.madeOf_other (h : Routed graph graph' edge bridges) {key : String}
    (hkey : key ∉ bridges.map Prod.fst) :
    madeOf env.withBridges graph' key = madeOf env.withBridges graph key := by
  rw [madeOf, madeOf, h.others key hkey]

theorem Routed.bridged (h : Routed graph graph' edge bridges)
    (hnodes : ∀ key, nodes.lookup key = madeOf env.withBridges graph key)
    (hnodes' : ∀ key, nodes'.lookup key = madeOf env.withBridges graph' key) :
    Bridged (bridges.map Prod.fst) nodes nodes' where
  others key hkey := by rw [hnodes, hnodes', h.madeOf_other hkey]
  bridges b hb := by
    obtain ⟨entry, hentry, rfl⟩ := List.mem_map.mp hb
    exact ⟨.fromDefinition entry.2, (hnodes' _).trans (h.madeOf_bridge hentry)⟩
  new b hb := by
    obtain ⟨entry, hentry, rfl⟩ := List.mem_map.mp hb
    have hnone : graph.nodes.lookup entry.1 = none := AList.lookup_eq_none.mpr (h.apart entry hentry)
    rw [hnodes, madeOf, hnone]
    rfl

/-- A rank that grows along the edges can be had with the way over the bridges, too. -/
theorem Routed.ranked (h : Routed graph graph' edge bridges) (hedge : edge ∈ graph.edges)
    (hends : ∀ e ∈ graph.edges, e.source ∉ bridges.map Prod.fst ∧ e.target ∉ bridges.map Prod.fst)
    {rank : String → ℕ} (hrank : ∀ e ∈ graph.edges, rank e.source < rank e.target) :
    ∃ rank' : String → ℕ, ∀ e ∈ graph'.edges, rank' e.source < rank' e.target := by
  have hpairs : ∀ e ∈ graph.edges.map WorkflowEdge.ends, rank e.1 < rank e.2 := by
    intro pair hpair
    obtain ⟨e, he, rfl⟩ := List.mem_map.mp hpair
    exact hrank e he
  have hapart : ∀ b ∈ bridges.map Prod.fst, Detached (graph.edges.map WorkflowEdge.ends) b := by
    intro b hb pair hpair
    obtain ⟨e, he, rfl⟩ := List.mem_map.mp hpair
    constructor
    · rintro rfl
      exact (hends e he).1 hb
    · rintro rfl
      exact (hends e he).2 hb
  obtain ⟨rank', hrank'⟩ := exists_rank_trail hpairs (List.mem_map_of_mem hedge) h.nodup hapart
  refine ⟨rank', fun e he => hrank' e.ends (List.mem_append.mpr ?_)⟩
  rcases List.mem_append.mp (h.edges.mem_iff.mp he) with he | he
  · exact .inr (ends_over ▸ List.mem_map_of_mem he)
  · exact .inl (List.mem_map_of_mem (List.mem_of_mem_erase he))

/-- The graph is accepted if the edge passes. -/
theorem Routed.deployable (h : Routed graph graph' edge bridges) (hedge : edge ∈ graph.edges)
    (hnodes : ∀ key, nodes.lookup key = madeOf env.withBridges graph key)
    (hpass : Passes nodes edge) (hgraph : Deployable env.withBridges graph) :
    Deployable env.withBridges graph' := by
  obtain ⟨reference, hreference, hcompatible⟩ := hgraph.compatible
  have hpins : PinsCompatible nodes graph.edges := hcompatible.congr fun key => by
    rw [hnodes, hreference]
  have hmade : ∀ key ∈ graph'.nodes, (madeOf env.withBridges graph' key).isSome = true := by
    intro key hkey
    by_cases hbridge : key ∈ bridges.map Prod.fst
    · obtain ⟨entry, hentry, rfl⟩ := List.mem_map.mp hbridge
      rw [h.madeOf_bridge hentry]
      rfl
    · rw [h.madeOf_other hbridge]
      refine hgraph.made key ?_
      rw [← AList.lookup_isSome, ← h.others key hbridge, AList.lookup_isSome]
      exact hkey
  obtain ⟨nodes', hnodes'⟩ := exists_nodes hmade
  have hbridged := h.bridged hnodes hnodes'
  obtain ⟨rank, hrank⟩ := hgraph.ranked
  exact ⟨h.declarations ▸ hgraph.declarations, hgraph.runtime, hmade,
    ⟨nodes', hnodes', hbridged.pinsCompatible hpins hedge hpass h.edges⟩,
    h.ranked hedge (fun e he => hbridged.ends_notMem (hpins.joined e he)) hrank,
    h.connections ▸ hgraph.connections⟩

end Routes

/-! ## What is delivered -/

/-- What a loop sends for what `transform` returned: to which node, and with which payload. -/
def RunNode.messages (cfg : RunNode) (execution : NodeExecution) : List (String × Value) :=
  execution.outputs.flatMap fun output =>
    (cfg.targets output.dispatch).map fun target => (target.targetNodeId, output.payload)

/-- The output pins of the node with a key. -/
def outputPinsOf (nodes : NodeIndex) (nodeId : String) : List PinDefinition :=
  ((nodes.lookup nodeId).map NodeTrait.outputPins).getD []

namespace Prepared

variable (p : Prepared) (graph : WorkflowGraph)

/-- The loop of a node, as it is spawned. -/
def loop (nodeId : String) : RunNode where
  nodeId := ((p.nodes.lookup nodeId).map NodeTrait.id).getD nodeId
  outputPins := outputPinsOf p.nodes nodeId
  inputRx := (graph.channelOf nodeId).getD graph.resultChannel
  downstreamSenders := (p.topology.downstream nodeId).filterMap (downstreamTarget graph.channelOf)
  resultTx := graph.resultChannel

def messages (nodeId : String) (execution : NodeExecution) : List (String × Value) :=
  (p.loop graph nodeId).messages execution

/-- What becomes of a message once bridges have passed it on. -/
def passOn (bridges : List String) : ℕ → String × Value → List (String × Value)
  | 0, message => [message]
  | fuel + 1, (nodeId, payload) =>
      if nodeId ∈ bridges then
        (p.messages graph nodeId (PassthroughNode.transform payload)).flatMap (passOn bridges fuel)
      else [(nodeId, payload)]

end Prepared

/-- The same comes to the same nodes: what a node pushes, once it is past the bridges, and along
which edges data is pulled. -/
structure SameDeliveries (graph graph' : WorkflowGraph) (bridges : List String) (p p' : Prepared) :
    Prop where
  pushed : ∀ nodeId ∈ graph.nodes, ∀ execution,
    ((p'.messages graph' nodeId execution).flatMap
      (p'.passOn graph' bridges bridges.length)).Perm (p.messages graph nodeId execution)
  pulled : p'.classified.dataEdges.Perm p.classified.dataEdges

section Deliveries

variable {env : DeployEnv} {graph : WorkflowGraph} {p : Prepared} {nodes nodes' : NodeIndex}
  {edges edges' : List WorkflowEdge} {edge : WorkflowEdge} {nodeId : String} {output : NodeOutput}

/-- The loops of a deployment are these. -/
theorem Prepared.LoopOf.eq_loop {cfg : RunNode} (h : Prepared.LoopOf p graph nodeId cfg) :
    cfg = p.loop graph nodeId := by
  obtain ⟨⟨node, hnode, hid, hpins⟩, -, hinput, hdownstream, hresult⟩ := h
  obtain ⟨id, outputPins, inputRx, downstreamSenders, resultTx⟩ := cfg
  simp only at hid hpins hinput hdownstream hresult
  subst hid hpins hdownstream hresult
  simp [Prepared.loop, outputPinsOf, hnode, hinput]

/-- Whether a dispatch pushes along the edges from a port. -/
def NodeDispatch.pushesFrom (dispatch : NodeDispatch) (dataPins : List String)
    (port : Option String) : Bool :=
  dispatch.pushes dataPins ⟨port, 0, "", .block⟩

/-- What is sent along given edges. -/
def sentAlong (nodes : NodeIndex) (nodeId : String) (output : NodeOutput)
    (edges : List WorkflowEdge) : List (String × Value) :=
  (((edges.filter fun e => e.source = nodeId).filter fun e => kindOf nodes e ≠ some .data).filter
    fun e => output.dispatch.pushesFrom (dataOutputPinIds (outputPinsOf nodes nodeId))
      e.sourcePortId).map fun e => (e.target, output.payload)

theorem sentAlong_append : sentAlong nodes nodeId output (edges ++ edges') =
    sentAlong nodes nodeId output edges ++ sentAlong nodes nodeId output edges' := by
  simp [sentAlong]

theorem sentAlong_perm (h : edges.Perm edges') :
    (sentAlong nodes nodeId output edges).Perm (sentAlong nodes nodeId output edges') :=
  ((((h.filter _).filter _).filter _).map _)

/-- The targets of a loop are the edges that have a channel at their end. -/
theorem map_matchingTargets {channelOf : String → Option ℕ} (dataPins : List String)
    (h : ∀ e ∈ edges, (channelOf e.target).isSome = true) :
    (matchingTargets output.dispatch (edges.filterMap (downstreamTarget channelOf)) dataPins).map
        (fun target => (target.targetNodeId, output.payload)) =
      (edges.filter fun e => output.dispatch.pushesFrom dataPins e.sourcePortId).map
        fun e => (e.target, output.payload) := by
  have hports (target : DownstreamTarget) : output.dispatch.pushes dataPins target =
      output.dispatch.pushesFrom dataPins target.sourcePortId := by
    cases output.dispatch <;> rfl
  induction edges with
  | nil => rfl
  | cons e rest ih =>
      obtain ⟨hfirst, hrest⟩ := List.forall_mem_cons.mp h
      obtain ⟨sender, hsender⟩ := Option.isSome_iff_exists.mp hfirst
      have htail := ih hrest
      unfold matchingTargets at htail ⊢
      rw [List.filterMap_cons, downstreamTarget, hsender]
      simp only [Option.map_some, List.filter_cons, hports]
      split
      · rw [List.map_cons, List.map_cons, htail]
      · exact htail

/-- What a node sends, output by output, is sent along its edges as the deployment orders them. -/
theorem Prepared.Of.messages_eq (h : p.Of env graph) (nodeId : String) (execution : NodeExecution) :
    p.messages graph nodeId execution = execution.outputs.flatMap fun output =>
      ((p.topology.downstream nodeId).filter fun e => output.dispatch.pushesFrom
        (dataOutputPinIds (outputPinsOf p.nodes nodeId)) e.sourcePortId).map
          fun e => (e.target, output.payload) := by
  have hchannels : ∀ e ∈ p.topology.downstream nodeId, (graph.channelOf e.target).isSome = true := by
    intro e he
    rw [h.downstream, List.mem_filter] at he
    have hmem := (List.mem_filter.mp ((pushed_perm h.classified).mem_iff.mp he.1)).1
    obtain ⟨-, -, target, htarget, -⟩ := h.compatible.joined e hmem
    have hnode := mem_of_madeOf ((h.nodes _).symm.trans htarget)
    obtain ⟨ch, hch⟩ := WorkflowGraph.exists_channelOf hnode
    simp [hch]
  exact List.flatMap_congr fun output _ => map_matchingTargets _ hchannels

/-- What a node sends is sent along the edges of the graph. -/
theorem Prepared.Of.messages_perm (h : p.Of env graph) (nodeId : String) (execution : NodeExecution) :
    (p.messages graph nodeId execution).Perm
      (execution.outputs.flatMap fun output => sentAlong p.nodes nodeId output graph.edges) := by
  have hperm := pushed_perm h.classified
  rw [h.messages_eq]
  refine List.Perm.flatMap_left _ fun output _ => ?_
  rw [h.downstream]
  exact ((((hperm.filter _).trans (List.Perm.of_eq (List.filter_comm ..))).filter _).map _)

end Deliveries

section Delivered

variable {env : DeployEnv} {graph graph' : WorkflowGraph} {edge : WorkflowEdge}
  {bridges : List (String × WorkflowNodeDefinition)} {ids : List String} {p p' : Prepared}
  {nodes nodes' : NodeIndex} {nodeId : String} {output : NodeOutput}

theorem Bridged.sentAlong_others (h : Bridged ids nodes nodes') {edges : List WorkflowEdge}
    (hjoined : ∀ e ∈ edges, Joined nodes e) (hnode : nodeId ∉ ids) :
    sentAlong nodes' nodeId output edges = sentAlong nodes nodeId output edges := by
  have hpins : outputPinsOf nodes' nodeId = outputPinsOf nodes nodeId := by
    rw [outputPinsOf, outputPinsOf, h.others nodeId hnode]
  have hkinds : ∀ e ∈ edges.filter fun e => e.source = nodeId, kindOf nodes' e = kindOf nodes e := by
    intro e he
    rw [kindOf, kindOf, h.others _ (h.ends_notMem (hjoined e (List.mem_filter.mp he).1)).1]
  have hfilter : ((edges.filter fun e => e.source = nodeId).filter
      fun e => kindOf nodes' e ≠ some .data) =
      (edges.filter fun e => e.source = nodeId).filter fun e => kindOf nodes e ≠ some .data :=
    List.filter_congr fun e he => by rw [hkinds e he]
  rw [sentAlong, sentAlong, hpins, hfilter]

/-- A graph one edge of which passes, and the graph in which it is led over bridges. -/
structure RoutedTo (env : DeployEnv) (graph graph' : WorkflowGraph) (edge : WorkflowEdge)
    (ids : List String) (p p' : Prepared) : Prop where
  before : p.Of env graph
  after : p'.Of env graph'
  bridged : Bridged ids p.nodes p'.nodes
  nodup : ids.Nodup
  apart : ∀ b ∈ ids, b ∉ graph.nodes
  mem : edge ∈ graph.edges
  perm : graph'.edges.Perm (edge.ledOver ids ++ graph.edges.erase edge)
  passes : Passes p.nodes edge

namespace RoutedTo

theorem joined (h : RoutedTo env graph graph' edge ids p p') {e : WorkflowEdge}
    (he : e ∈ graph.edges) : Joined p.nodes e := h.before.compatible.joined e he

theorem ends_notMem (h : RoutedTo env graph graph' edge ids p p') {e : WorkflowEdge}
    (he : e ∈ graph.edges) : e.source ∉ ids ∧ e.target ∉ ids := h.bridged.ends_notMem (h.joined he)

/-- From a bridge one message goes on, to where the way goes on to. -/
theorem messages_bridge (h : RoutedTo env graph graph' edge ids p p') {pre rest : List String}
    {b : String} (hsplit : ids = pre ++ b :: rest) (payload : Value) :
    p'.messages graph' b (PassthroughNode.transform payload) =
      [((rest ++ [edge.target]).head (by simp), payload)] := by
  have hb : b ∈ ids := by simp [hsplit]
  have hsource : edge.source ≠ b := fun heq => (h.ends_notMem h.mem).1 (heq ▸ hb)
  obtain ⟨hop, hfilter, hhop, hport, htarget⟩ := filter_bridge_over hsplit h.nodup hsource
  have hold : (graph.edges.erase edge).filter (fun e => e.source = b) = [] := by
    refine List.filter_eq_nil_iff.mpr fun e he => ?_
    rw [decide_eq_true_eq]
    rintro rfl
    exact (h.ends_notMem (List.mem_of_mem_erase he)).1 hb
  have hkind : kindOf p'.nodes hop = some .exec :=
    IsBridgeIn.kindOf_eq (hhop ▸ h.bridged.bridges b hb) hport
  have hsent : sentAlong p'.nodes b ⟨payload, none, .broadcast⟩
      (edge.ledOver ids ++ graph.edges.erase edge) =
      [((rest ++ [edge.target]).head (by simp), payload)] := by
    rw [sentAlong, List.filter_append, hfilter, hold]
    simp [hkind, hport, NodeDispatch.pushesFrom, NodeDispatch.pushes, htarget]
  have hmessages := h.after.messages_perm b (PassthroughNode.transform payload)
  refine List.perm_singleton.mp (hmessages.trans ?_)
  rw [← hsent]
  simpa [PassthroughNode.transform, NodeExecution.broadcast] using sentAlong_perm h.perm

theorem passOn_other {bridges : List String} {fuel : ℕ} {message : String × Value}
    (hmessage : message.1 ∉ bridges) : p'.passOn graph' bridges fuel message = [message] := by
  cases fuel with
  | zero => rfl
  | succ fuel => rw [Prepared.passOn, if_neg hmessage]

/-- A message to a bridge comes to the end of the way. -/
theorem passOn_bridge (h : RoutedTo env graph graph' edge ids p p') {pre rest : List String}
    {b : String} (hsplit : ids = pre ++ b :: rest) (payload : Value) {fuel : ℕ}
    (hfuel : rest.length < fuel) : p'.passOn graph' ids fuel (b, payload) = [(edge.target, payload)] := by
  induction rest generalizing pre b fuel with
  | nil =>
      obtain ⟨fuel, rfl⟩ := Nat.exists_eq_succ_of_ne_zero (Nat.ne_of_gt hfuel)
      have hb : b ∈ ids := by simp [hsplit]
      rw [Prepared.passOn, if_pos hb, h.messages_bridge hsplit]
      simpa using passOn_other (h.ends_notMem h.mem).2
  | cons c rest ih =>
      obtain ⟨fuel, rfl⟩ := Nat.exists_eq_succ_of_ne_zero (Nat.ne_of_gt (Nat.zero_lt_of_lt hfuel))
      have hb : b ∈ ids := by simp [hsplit]
      have hnext : ids = (pre ++ [b]) ++ c :: rest := by simp [hsplit]
      rw [Prepared.passOn, if_pos hb, h.messages_bridge hsplit]
      simpa using ih hnext (Nat.lt_of_succ_lt_succ hfuel)

/-- The first message of the way comes to its end. -/
theorem passOn_first (h : RoutedTo env graph graph' edge ids p p') (payload : Value) :
    p'.passOn graph' ids ids.length ((ids ++ [edge.target]).head (by simp), payload) =
      [(edge.target, payload)] := by
  cases hids : ids with
  | nil => rfl
  | cons b rest =>
      subst hids
      exact h.passOn_bridge (List.nil_append _).symm payload (Nat.lt_succ_self _)

/-- What is sent along the way comes to where it came along the edge. -/
theorem sentAlong_over (h : RoutedTo env graph graph' edge ids p p') (hnode : nodeId ∉ ids) :
    (sentAlong p'.nodes nodeId output (edge.ledOver ids)).flatMap (p'.passOn graph' ids ids.length) =
      sentAlong p.nodes nodeId output [edge] := by
  obtain ⟨hsource, -⟩ := h.ends_notMem h.mem
  have hpins : outputPinsOf p'.nodes nodeId = outputPinsOf p.nodes nodeId := by
    rw [outputPinsOf, outputPinsOf, h.bridged.others nodeId hnode]
  by_cases heq : edge.source = nodeId
  · subst heq
    obtain ⟨hop, hfilter, hhop, hport, htarget⟩ := filter_source_over hsource
    have hkind : kindOf p'.nodes hop = kindOf p.nodes edge := by
      rw [kindOf, kindOf, WorkflowEdge.sourcePin, WorkflowEdge.sourcePin, hhop, hport,
        h.bridged.others _ hsource]
    have hpushed : kindOf p.nodes edge ≠ some .data := h.passes.1.kindOf_ne
    rw [sentAlong, sentAlong, hfilter, hpins]
    by_cases hpush : output.dispatch.pushesFrom
        (dataOutputPinIds (outputPinsOf p.nodes edge.source)) edge.sourcePortId = true
    · simp [hkind, hpushed, hport, hpush, htarget, h.passOn_first]
    · simp [hkind, hpushed, hport, hpush]
  · have hnone : (edge.ledOver ids).filter (fun e => e.source = nodeId) = [] := by
      refine List.filter_eq_nil_iff.mpr fun e he => ?_
      rw [decide_eq_true_eq]
      rintro rfl
      exact (source_mem_over he).elim (fun hedge => heq hedge.symm) hnode
    rw [sentAlong, sentAlong, hnone, List.filter_cons_of_neg (by simpa using heq)]
    rfl

/-- What is sent along any other edge is not for a bridge. -/
theorem sentAlong_erase (h : RoutedTo env graph graph' edge ids p p') (hnode : nodeId ∉ ids) :
    (sentAlong p'.nodes nodeId output (graph.edges.erase edge)).flatMap
        (p'.passOn graph' ids ids.length) =
      sentAlong p.nodes nodeId output (graph.edges.erase edge) := by
  have hmem : ∀ e ∈ graph.edges.erase edge, e ∈ graph.edges := fun e he => List.mem_of_mem_erase he
  rw [h.bridged.sentAlong_others (fun e he => h.joined (hmem e he)) hnode]
  have hmessages : ∀ message ∈ sentAlong p.nodes nodeId output (graph.edges.erase edge),
      p'.passOn graph' ids ids.length message = [message] := by
    intro message hmessage
    obtain ⟨e, he, rfl⟩ := List.mem_map.mp hmessage
    have hedge := (List.mem_filter.mp (List.mem_filter.mp (List.mem_filter.mp he).1).1).1
    exact passOn_other (h.ends_notMem (hmem e hedge)).2
  rw [List.flatMap_congr hmessages, List.flatMap_singleton']

/-- The same comes to the same nodes. -/
theorem sameDeliveries (h : RoutedTo env graph graph' edge ids p p') :
    SameDeliveries graph graph' ids p p' where
  pushed nodeId hnodeId execution := by
    have hnode : nodeId ∉ ids := fun hmem => h.apart nodeId hmem hnodeId
    have hafter := h.after.messages_perm nodeId execution
    have hbefore := h.before.messages_perm nodeId execution
    refine (hafter.flatMap_right _).trans (List.Perm.trans ?_ hbefore.symm)
    rw [List.flatMap_assoc]
    refine List.Perm.flatMap_left _ fun output _ => ?_
    refine ((sentAlong_perm h.perm).flatMap_right _).trans ?_
    rw [sentAlong_append, List.flatMap_append, h.sentAlong_over hnode, h.sentAlong_erase hnode,
      ← sentAlong_append]
    exact sentAlong_perm (List.perm_cons_erase h.mem).symm
  pulled := by
    have hbefore : p.classified.dataEdges = _ := ofKind_eq_filter h.before.classified .data
    have hafter : p'.classified.dataEdges = _ := ofKind_eq_filter h.after.classified .data
    have hpass := (h.bridged.passes_iff (h.joined h.mem)).mpr h.passes
    have hover : (edge.ledOver ids).filter (fun e => kindOf p'.nodes e = some .data) = [] := by
      refine List.filter_eq_nil_iff.mpr fun e he => ?_
      simpa using (passes_over h.bridged.bridges hpass e he).1.kindOf_ne
    have hold : (graph.edges.erase edge).filter (fun e => kindOf p'.nodes e = some .data) =
        (graph.edges.erase edge).filter fun e => kindOf p.nodes e = some .data := by
      refine List.filter_congr fun e he => ?_
      rw [kindOf, kindOf, h.bridged.others _ (h.ends_notMem (List.mem_of_mem_erase he)).1]
    rw [hbefore, hafter]
    refine (h.perm.filter _).trans ?_
    rw [List.filter_append, hover, hold, List.nil_append]
    refine List.Perm.trans ?_ ((List.perm_cons_erase h.mem).filter _).symm
    rw [List.filter_cons_of_neg (by simpa using h.passes.1.kindOf_ne)]

end RoutedTo

end Delivered

/-! ## Graphs with bridges -/

/-- A graph one edge of which is led over bridges is accepted, and delivers the same, exactly if the
pins of the edge go together with those of a bridge. -/
theorem prepare_routed_iff {env : DeployEnv} {graph graph' : WorkflowGraph} {edge : WorkflowEdge}
    {bridges : List (String × WorkflowNodeDefinition)} {p : Prepared}
    (hprepare : prepare env.withBridges graph = .ok p) (hedge : edge ∈ graph.edges)
    (hrouted : Routed graph graph' edge bridges) :
    (∃ p', prepare env.withBridges graph' = .ok p' ∧
      SameDeliveries graph graph' (bridges.map Prod.fst) p p') ↔ Passes p.nodes edge := by
  have hbefore := of_prepare hprepare
  constructor
  · rintro ⟨p', hprepare', -⟩
    have hafter := of_prepare hprepare'
    have hbridged := hrouted.bridged hbefore.nodes hafter.nodes
    refine hbridged.passes_of_joined (by simpa using hrouted.nonempty)
      (hbefore.compatible.joined edge hedge) fun hop hhop => ?_
    exact hafter.compatible.joined hop (hrouted.edges.mem_iff.mpr (List.mem_append_left _ hhop))
  · intro hpass
    have hgraph := prepare_isOk.mp ⟨p, hprepare⟩
    obtain ⟨p', hprepare'⟩ :=
      prepare_isOk.mpr (hrouted.deployable hedge hbefore.nodes hpass hgraph)
    have hafter := of_prepare hprepare'
    have hapart : ∀ b ∈ bridges.map Prod.fst, b ∉ graph.nodes := by
      intro b hb
      obtain ⟨entry, hentry, rfl⟩ := List.mem_map.mp hb
      exact hrouted.apart entry hentry
    have hto : RoutedTo env.withBridges graph graph' edge (bridges.map Prod.fst) p p' :=
      ⟨hbefore, hafter, hrouted.bridged hbefore.nodes hafter.nodes, hrouted.nodup, hapart, hedge,
        hrouted.edges, hpass⟩
    exact ⟨p', hprepare', hto.sameDeliveries⟩

/-- A node that takes and gives one type. -/
def typedNode (pinType : PinType) (definition : WorkflowNodeDefinition) : NodeTrait :=
  ⟨definition.id, [.requiredInput pinType], [.output pinType]⟩

/-- An environment whose nodes all take and give one type. -/
def typedEnv (pinType : PinType) : DeployEnv where
  now := 0
  hasRuntime := true
  create definition := .ok (typedNode pinType definition)
  upsertConnections _ := .ok ()
  onDeploy _ := .ok ()

def pairNodes : AList fun _ : String => WorkflowNodeDefinition :=
  ((∅ : AList fun _ : String => WorkflowNodeDefinition).insert "u"
    ⟨"u", "code", none, .null, none, 4⟩).insert "v" ⟨"v", "code", none, .null, none, 4⟩

def pairEdge : WorkflowEdge := ⟨"u", "v", none, none, none⟩

/-- Two nodes and an edge. -/
def pairGraph : WorkflowGraph := ⟨[], pairNodes, [pairEdge], none⟩

def pairBridge : String × WorkflowNodeDefinition :=
  ("sub/in", ⟨"sub/in", "subgraphInput", none, .null, none, 4⟩)

/-- The second node is in a subgraph. -/
def wrappedGraph : WorkflowGraph :=
  ⟨[], pairNodes.insert pairBridge.1 pairBridge.2, pairEdge.ledOver [pairBridge.1], none⟩

theorem routed_pair : Routed pairGraph wrappedGraph pairEdge [pairBridge] where
  nonempty := List.cons_ne_nil _ _
  nodup := List.nodup_singleton _
  apart b hb := by
    obtain rfl := List.mem_singleton.mp hb
    decide
  kinds b hb := by
    obtain rfl := List.mem_singleton.mp hb
    rfl
  added b hb := by
    obtain rfl := List.mem_singleton.mp hb
    exact AList.lookup_insert _
  others key hkey := AList.lookup_insert_ne (by simpa using hkey)
  edges := by
    rw [pairGraph, List.erase_cons_head, List.append_nil]
    rfl
  connections := rfl
  declarations := rfl

/-- JSON is led over a bridge. -/
theorem json_pair_wrapped : ∃ p p', prepare (typedEnv .json).withBridges pairGraph = .ok p ∧
    prepare (typedEnv .json).withBridges wrappedGraph = .ok p' ∧
      SameDeliveries pairGraph wrappedGraph ["sub/in"] p p' := by
  have hok : (prepare (typedEnv .json).withBridges pairGraph).toOption.isSome = true := by decide
  have hprepare := eq_ok_of_get hok
  have hpass : Passes ((prepare (typedEnv .json).withBridges pairGraph).toOption.get hok).nodes pairEdge :=
    ⟨⟨_, rfl, _, rfl, .inr rfl, by decide⟩, ⟨_, rfl, _, rfl, .inr rfl, rfl⟩⟩
  obtain ⟨p', hprepare', hsame⟩ :=
    (prepare_routed_iff hprepare List.mem_cons_self routed_pair).mpr hpass
  exact ⟨_, p', hprepare, hprepare', hsame⟩

/-- A Boolean is not. -/
theorem bool_pair_refused : ∃ p, prepare (typedEnv .bool).withBridges pairGraph = .ok p ∧
    pairEdge ∈ pairGraph.edges ∧ Routed pairGraph wrappedGraph pairEdge [pairBridge] ∧
    prepare (typedEnv .bool).withBridges wrappedGraph =
      .error (.incompatiblePinTypes "u.out" "sub/in.in" "Bool" "Json") := by
  have hok : (prepare (typedEnv .bool).withBridges pairGraph).toOption.isSome = true := by decide
  exact ⟨_, eq_ok_of_get hok, List.mem_cons_self, routed_pair, rfl⟩

end Nazh
