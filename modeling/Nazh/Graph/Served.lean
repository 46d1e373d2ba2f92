import Nazh.Graph.Consumers
import Nazh.Graph.Pull

/-!
# Which edges serve a data input

An edge may lead to a data input from a data output or from a reactive one. A data input has
what was pulled along the last data edge into it; an edge from a reactive output is not in the
index of the pull, and neither are the edges of a node that is executed under another id than
its key.

That an edge is served is said of what is pulled and merged, in any surroundings. Where it is
not, there are surroundings that tell the outputs apart: every output has its own value.
-/

namespace Nazh

open Lib

/-- The id under which the inputs of a node are pulled: a pull names a pure-form node by its
key, and `run_node` a node by the name it has for itself. -/
def executedAs (key : String) (node : NodeTrait) : String := if isPureForm node then key else node.id

/-- The last data edge into an input. -/
def lastEdgeInto (dataEdges : List WorkflowEdge) (consumerId pinId : String) :
    Option WorkflowEdge :=
  dataEdges.reverse.find? fun e => e.target = consumerId && e.targetPin = pinId

/-- An edge starts at the output that the last data edge into its input starts at. -/
def FedBy (dataEdges : List WorkflowEdge) (consumerId : String) (edge : WorkflowEdge) : Prop :=
  ∃ last, lastEdgeInto dataEdges consumerId edge.targetPin = some last ∧
    last.source = edge.source ∧ last.sourcePin = edge.sourcePin

/-! ## What is merged -/

/-- The value of a pin is the last one collected for it. -/
theorem lookup_collectDataValues (entries : List DataInEdge) (values : List Value)
    (pinId : String) :
    (collectDataValues entries values).lookup pinId =
      ((entries.zip values).reverse.find? fun e => e.1.consumerInputPinId = pinId).map Prod.snd := by
  rw [collectDataValues, ← List.foldr_reverse]
  induction (entries.zip values).reverse with
  | nil => rfl
  | cons e rest ih =>
      obtain ⟨entry, v⟩ := e
      by_cases h : entry.consumerInputPinId = pinId
      · subst h
        simp
      · have hne : pinId ≠ entry.consumerInputPinId := fun heq => h heq.symm
        rw [List.foldr_cons, Fields.lookup_insert_of_ne _ _ hne, ih]
        simp [h]

/-- The entry it was collected for is the last one for the pin. -/
theorem find?_zip {entries : List DataInEdge} {values : List Value}
    (hlen : values.length = entries.length) (pinId : String) :
    ((entries.zip values).reverse.find? fun e => e.1.consumerInputPinId = pinId).map Prod.fst =
      entries.reverse.find? fun entry => entry.consumerInputPinId = pinId := by
  have hfst : (entries.zip values).reverse.map Prod.fst = entries.reverse := by
    rw [List.map_reverse, List.map_fst_zip (Nat.le_of_eq hlen.symm)]
  rw [← hfst, List.find?_map]
  rfl

/-- The last entry of the index for a pin is that of the last edge. -/
theorem find?_forConsumer (dataEdges : List WorkflowEdge) (consumerId pinId : String) :
    (((buildEdgesByConsumer dataEdges).forConsumer consumerId).reverse.find? fun entry =>
      entry.consumerInputPinId = pinId) =
      (lastEdgeInto dataEdges consumerId pinId).map WorkflowEdge.dataInEdge := by
  have hentries : (buildEdgesByConsumer dataEdges).forConsumer consumerId =
      (dataEdges.filter fun e => e.target = consumerId).map WorkflowEdge.dataInEdge := by
    rw [EdgesByConsumer.forConsumer, buildEdgesByConsumer, List.filter_map, List.map_map]
    rfl
  have hpin : ((fun entry => decide (entry.consumerInputPinId = pinId)) ∘ WorkflowEdge.dataInEdge)
      = fun e : WorkflowEdge => decide (e.targetPin = pinId) := rfl
  rw [hentries, ← List.map_reverse, ← List.filter_reverse, List.find?_map, List.find?_filter,
    lastEdgeInto, hpin]
  simp

/-- A pulled value is in the payload, under any pin other than `in`. -/
theorem get_mergePayload {pinId : String} (hne : pinId ≠ "in") {dataValues : Fields} {v : Value}
    (h : dataValues.lookup pinId = some v) (execPayload : Value) :
    (mergePayload execPayload dataValues).get pinId = some v := by
  have hfold : ∀ map : Fields,
      (dataValues.foldr (fun field acc => Fields.insert acc field.1 field.2) map).lookup pinId =
        some v := by
    intro map
    induction dataValues with
    | nil => cases h
    | cons field rest ih =>
        obtain ⟨k, w⟩ := field
        by_cases hk : pinId = k
        · subst hk
          rw [List.lookup_cons_self] at h
          rw [List.foldr_cons, Fields.lookup_insert_self, h]
        · rw [List.lookup_cons, beq_eq_false_iff_ne.mpr hk] at h
          rw [List.foldr_cons, Fields.lookup_insert_of_ne _ _ hk, ih h]
  cases execPayload with
  | object map => exact hfold map
  | _ =>
      change (Fields.insert dataValues "in" _).lookup pinId = some v
      rw [Fields.lookup_insert_of_ne _ _ hne, h]

/-- Where there is an entry for an input there is a last edge into it. -/
theorem exists_lastEdgeInto {dataEdges : List WorkflowEdge} {consumerId : String}
    {entry : DataInEdge} (h : entry ∈ (buildEdgesByConsumer dataEdges).forConsumer consumerId) :
    ∃ last, lastEdgeInto dataEdges consumerId entry.consumerInputPinId = some last := by
  have hfind := find?_forConsumer dataEdges consumerId entry.consumerInputPinId
  cases hlast : lastEdgeInto dataEdges consumerId entry.consumerInputPinId with
  | some last => exact ⟨last, rfl⟩
  | none =>
      rw [hlast, Option.map_none, List.find?_eq_none] at hfind
      exact absurd (decide_eq_true rfl) (hfind entry (List.mem_reverse.mpr h))

/-- An input has the value that was pulled along the last data edge into it. -/
theorem exists_pulled {dataEdges : List WorkflowEdge} {consumerId pinId : String}
    {last : WorkflowEdge} (hlast : lastEdgeInto dataEdges consumerId pinId = some last)
    (hne : pinId ≠ "in") {values : List Value}
    (hlen : values.length = ((buildEdgesByConsumer dataEdges).forConsumer consumerId).length) :
    ∃ (i : ℕ) (v : Value),
      ((buildEdgesByConsumer dataEdges).forConsumer consumerId)[i]? = some last.dataInEdge ∧
      values[i]? = some v ∧ ∀ execPayload, (mergePayload execPayload (collectDataValues
        ((buildEdgesByConsumer dataEdges).forConsumer consumerId) values)).get pinId = some v := by
  have hfind := find?_forConsumer dataEdges consumerId pinId
  rw [hlast, Option.map_some, ← find?_zip hlen] at hfind
  obtain ⟨⟨entry, v⟩, hzip, hentry⟩ := Option.map_eq_some_iff.mp hfind
  subst hentry
  obtain ⟨i, hi⟩ := List.mem_iff_getElem?.mp (List.mem_reverse.mp (List.mem_of_find?_eq_some hzip))
  obtain ⟨hentry, hv⟩ := List.getElem?_zip_eq_some.mp hi
  refine ⟨i, v, hentry, hv, fun execPayload => get_mergePayload hne ?_ execPayload⟩
  rw [lookup_collectDataValues, hzip]
  rfl

/-! ## Supplied inputs -/

namespace PullEnv

/-- The surroundings of a graph. -/
structure Over (E : PullEnv) (nodes : NodeIndex) (dataEdges : List WorkflowEdge) : Prop where
  nodesIndex : E.nodesIndex = nodes
  edgesByConsumer : E.edgesByConsumer = buildEdgesByConsumer dataEdges

/-- Whatever the pull of the inputs of a node ends with, if it is a payload, then the input of
the edge has in it the value that was pulled along the edge. -/
def Supplies (E : PullEnv) (fuel traceId : ℕ) (consumerId : String) (consumer : NodeTrait)
    (edge : WorkflowEdge) : Prop :=
  ∀ execPayload s merged s',
    E.pullDataInputs (E.pullOne PureMemo.ops traceId fuel) consumerId consumer execPayload s =
      some (.ok merged, s') →
    ∃ values, pullEntries (E.pullOne PureMemo.ops traceId fuel) consumer
        (E.edgesByConsumer.forConsumer consumerId) s = some (.ok values, s') ∧
      ∃ (i : ℕ) (v : Value),
        (E.edgesByConsumer.forConsumer consumerId)[i]? = some edge.dataInEdge ∧
        values[i]? = some v ∧ merged.get edge.targetPin = some v

variable {E : PullEnv} {μ : Type} {dataEdges : List WorkflowEdge} {nodes : NodeIndex}

/-- What a pull of inputs ends with, if there are any. -/
theorem pullDataInputs_eq_ok {pull : String → String → InputPolicy → Pull μ Value}
    {consumerId : String} {consumer : NodeTrait} {execPayload merged : Value}
    {s s' : PullState μ} (hentries : E.edgesByConsumer.forConsumer consumerId ≠ []) :
    E.pullDataInputs pull consumerId consumer execPayload s = some (.ok merged, s') ↔
      ∃ values, pullEntries pull consumer (E.edgesByConsumer.forConsumer consumerId) s =
          some (.ok values, s') ∧
        merged = mergePayload execPayload
          (collectDataValues (E.edgesByConsumer.forConsumer consumerId) values) := by
  have hfalse : (E.edgesByConsumer.forConsumer consumerId).isEmpty = false := by simpa using hentries
  rw [pullDataInputs]
  simp only [hfalse, Bool.false_eq_true, if_false, Fueled.bind_eq_ok, Fueled.pure_eq_ok]
  constructor
  · rintro ⟨values, s₁, hvalues, rfl, rfl⟩
    exact ⟨values, hvalues, rfl⟩
  · rintro ⟨values, hvalues, rfl⟩
    exact ⟨values, s', hvalues, rfl, rfl⟩

/-- An input is supplied from the output the last data edge into it starts at. -/
theorem supplies_of_fedBy (hE : E.Over nodes dataEdges) {consumerId : String}
    {edge : WorkflowEdge} (hne : edge.targetPin ≠ "in") (h : FedBy dataEdges consumerId edge)
    (fuel traceId : ℕ) (consumer : NodeTrait) :
    E.Supplies fuel traceId consumerId consumer edge := by
  obtain ⟨last, hlast, hsource, hpin⟩ := h
  have hlastEntry : last.dataInEdge = edge.dataInEdge := by
    have htarget := List.find?_some hlast
    simp only [Bool.and_eq_true, decide_eq_true_eq] at htarget
    simp [WorkflowEdge.dataInEdge, htarget.2, hsource, hpin]
  have hentries : E.edgesByConsumer.forConsumer consumerId ≠ [] := by
    intro hnil
    have hfind := find?_forConsumer dataEdges consumerId edge.targetPin
    rw [← hE.edgesByConsumer, hnil, hlast] at hfind
    cases hfind
  intro execPayload s merged s' hmerged
  obtain ⟨values, hvalues, rfl⟩ := (pullDataInputs_eq_ok hentries).mp hmerged
  refine ⟨values, hvalues, ?_⟩
  have hlen := Fueled.length_of_collect hvalues
  rw [hE.edgesByConsumer] at hlen ⊢
  obtain ⟨i, v, hentry, hv, hget⟩ := exists_pulled hlast hne hlen
  rw [hlastEntry] at hentry
  exact ⟨i, v, hentry, hv, hget execPayload⟩

/-- The entries of the index are the data edges. -/
theorem mem_forConsumer {consumerId : String} {entry : DataInEdge} :
    entry ∈ (buildEdgesByConsumer dataEdges).forConsumer consumerId ↔
      ∃ edge ∈ dataEdges, edge.target = consumerId ∧ edge.dataInEdge = entry := by
  simp only [EdgesByConsumer.forConsumer, buildEdgesByConsumer, List.mem_map, List.mem_filter,
    decide_eq_true_eq]
  constructor
  · rintro ⟨-, ⟨⟨edge, hedge, rfl⟩, rfl⟩, rfl⟩
    exact ⟨edge, hedge, rfl, rfl⟩
  · rintro ⟨edge, hedge, rfl, rfl⟩
    exact ⟨_, ⟨⟨edge, hedge, rfl⟩, rfl⟩, rfl⟩

theorem Over.ranked (hE : E.Over nodes dataEdges) {rank : String → ℕ}
    (hrank : ∀ edge ∈ dataEdges, rank edge.source < rank edge.target) : E.Ranked rank := by
  intro consumerId entry hentry
  rw [hE.edgesByConsumer] at hentry
  obtain ⟨edge, hedge, rfl, rfl⟩ := mem_forConsumer.mp hentry
  exact hrank edge hedge

/-! ## Surroundings that tell outputs apart -/

/-- The value of an output is its own name. -/
def outputName (nodeId pinId : String) : Value := .array [.string nodeId, .string pinId]

theorem outputName_inj {n n' p p' : String} (h : outputName n p = outputName n' p') :
    n = n' ∧ p = p' := by
  simpa [outputName] using h

/-- An object with the outputs of a node. -/
def outputsOf (nodeId : String) (node : NodeTrait) : Value :=
  .object ((node.outputPins.map PinDefinition.id).map fun pinId => (pinId, outputName nodeId pinId))

/-- A cache with the outputs of a node, which has a slot for each of the pins. -/
def filled (nodeId : String) : List PinDefinition → OutputCache
  | [] => .new
  | pin :: rest => ⟨(filled nodeId rest).slots.insert pin.id (some ⟨outputName nodeId pin.id, 0, 0⟩)⟩

/-- Every output is there, and is its own name. -/
def probe (nodes : NodeIndex) (dataEdges : List WorkflowEdge) : PullEnv where
  nodesIndex := nodes
  edgesByConsumer := buildEdgesByConsumer dataEdges
  outputCaches _ nodeId := (nodes.lookup nodeId).map fun node => filled nodeId node.outputPins
  now _ := 0
  wait _ := .timedOut
  execute _ nodeId _ _ :=
    .ok (.broadcast ((nodes.lookup nodeId).elim .null fun node => outputsOf nodeId node))
  inputHash _ := 0

theorem probe_over : (probe nodes dataEdges).Over nodes dataEdges := ⟨rfl, rfl⟩

theorem read_filled (nodeId : String) {pins : List PinDefinition} {pinId : String}
    (h : pinId ∈ pins.map PinDefinition.id) (ttlMs : Option ℕ) :
    (filled nodeId pins).read pinId ttlMs 0 = some ⟨outputName nodeId pinId, 0, 0⟩ := by
  have hborrow : (filled nodeId pins).borrow pinId = some ⟨outputName nodeId pinId, 0, 0⟩ := by
    induction pins with
    | nil => cases h
    | cons pin rest ih =>
        by_cases hpin : pinId = pin.id
        · subst hpin
          simp [filled, OutputCache.borrow, AList.lookup_insert]
        · have hrest : pinId ∈ rest.map PinDefinition.id := by
            rw [List.map_cons, List.mem_cons] at h
            exact h.resolve_left hpin
          rw [OutputCache.borrow, filled, AList.lookup_insert_ne hpin]
          exact ih hrest
  have hfresh : CachedOutput.isExpired ⟨outputName nodeId pinId, 0, 0⟩ 0 ttlMs = false := by
    cases ttlMs <;> simp [CachedOutput.isExpired, CachedOutput.ageMs]
  rw [OutputCache.read, hborrow, Option.bind_some, hfresh]
  rfl

theorem get_outputsOf {nodeId : String} {node : NodeTrait} {pinId : String}
    (h : pinId ∈ node.outputPins.map PinDefinition.id) :
    (outputsOf nodeId node).get pinId = some (outputName nodeId pinId) :=
  List.lookup_graph _ h

/-- What is remembered is what the node made. -/
def Remembers (nodes : NodeIndex) (s : PullState PureMemo) : Prop :=
  ∀ nodeId traceId inputHash payload, s.memo.inner nodeId traceId inputHash = some payload →
    ∀ node, nodes.lookup nodeId = some node → payload = outputsOf nodeId node

/-- Every data edge starts at a declared output. -/
def Declared (nodes : NodeIndex) (dataEdges : List WorkflowEdge) : Prop :=
  ∀ edge ∈ dataEdges, ∃ node, nodes.lookup edge.source = some node ∧
    edge.sourcePin ∈ node.outputPins.map PinDefinition.id

variable {nodeId pinId : String} {node : NodeTrait}

theorem yields_readSlot (hnode : nodes.lookup nodeId = some node)
    (hpin : pinId ∈ node.outputPins.map PinDefinition.id) (policy : InputPolicy) :
    Fueled.Yields (Remembers nodes) ((probe nodes dataEdges).readSlot nodeId pinId policy)
      (outputName nodeId pinId) := by
  intro s hs
  refine ⟨{ s with clock := s.clock + 1 }, hs, ?_⟩
  have hseen : ((probe nodes dataEdges).outputCaches s.clock nodeId).map (fun c =>
      (c, c.read pinId policy.ttlMs ((probe nodes dataEdges).now s.clock))) =
      some (filled nodeId node.outputPins, some ⟨outputName nodeId pinId, 0, 0⟩) := by
    simp [probe, hnode, read_filled nodeId hpin]
  rw [readSlot, Fueled.bind_eq_ok]
  refine ⟨some (filled nodeId node.outputPins, some ⟨outputName nodeId pinId, 0, 0⟩), _, ?_, rfl⟩
  rw [← hseen]
  rfl

theorem yields_evaluatePure (hnode : nodes.lookup nodeId = some node)
    (hpin : pinId ∈ node.outputPins.map PinDefinition.id) (traceId : ℕ) (payload : Value) :
    Fueled.Yields (Remembers nodes)
      ((probe nodes dataEdges).evaluatePure PureMemo.ops nodeId pinId traceId payload)
      (outputName nodeId pinId) := by
  have hget : extractPinFromPayload (outputsOf nodeId node) pinId = some (outputName nodeId pinId) :=
    get_outputsOf hpin
  intro s hs
  cases hhit : s.memo.inner nodeId traceId 0 with
  | some cachedPayload =>
      refine ⟨s, hs, ?_⟩
      obtain rfl := hs _ _ _ _ hhit node hnode
      rw [evaluatePure, Fueled.bind_eq_ok]
      refine ⟨some (outputsOf nodeId node), s, ?_, ?_⟩
      · simp [Fueled.access, PureMemo.ops, probe, hhit]
      · simp [Fueled.ofExcept, hget, okOr]
  | none =>
      refine ⟨⟨s.clock, s.executed + 1,
        s.memo.insert nodeId traceId 0 (outputsOf nodeId node)⟩, ?_, ?_⟩
      · intro n t h v hv node' hnode'
        simp only [PureMemo.insert] at hv
        split at hv
        · rename_i heq
          obtain ⟨rfl, -, -⟩ := heq
          obtain rfl := Option.some.inj (hnode.symm.trans hnode')
          exact (Option.some.inj hv).symm
        · exact hs n t h v hv node' hnode'
      · rw [evaluatePure, Fueled.bind_eq_ok]
        refine ⟨none, s, ?_, ?_⟩
        · simp [Fueled.access, PureMemo.ops, probe, hhit]
        · simp [Fueled.access, Fueled.ofExcept, Fueled.bind_eq_ok, probe, hnode,
            NodeExecution.broadcast, pinFromOutputs, hget, PureMemo.ops]

/-- The payload of a node whose inputs are known. -/
theorem yields_pullDataInputs {P : PullState μ → Prop}
    {pull : String → String → InputPolicy → Pull μ Value} {g : DataInEdge → Value}
    {consumerId : String} (consumer : NodeTrait) (execPayload : Value)
    (h : ∀ entry ∈ E.edgesByConsumer.forConsumer consumerId, ∀ policy,
      Fueled.Yields P (pull entry.upstreamNodeId entry.upstreamOutputPinId policy) (g entry)) :
    ∃ payload, Fueled.Yields P (E.pullDataInputs pull consumerId consumer execPayload) payload := by
  have hvalues : Fueled.Yields P
      (pullEntries pull consumer (E.edgesByConsumer.forConsumer consumerId))
      ((E.edgesByConsumer.forConsumer consumerId).map g) :=
    Fueled.Yields.collect fun entry hentry => h entry hentry _
  unfold pullDataInputs
  dsimp only
  split
  · exact ⟨_, Fueled.Yields.pure _⟩
  · exact ⟨_, hvalues.bind (Fueled.Yields.pure _)⟩

/-- Every output that is pulled is its own name. -/
theorem yields_pullOne (hdeclared : Declared nodes dataEdges) {rank : String → ℕ}
    (hrank : (probe nodes dataEdges).Ranked rank) (traceId : ℕ) {fuel : ℕ}
    (hfuel : rank nodeId < fuel) (hnode : nodes.lookup nodeId = some node)
    (hpin : pinId ∈ node.outputPins.map PinDefinition.id) (policy : InputPolicy) :
    Fueled.Yields (Remembers nodes)
      ((probe nodes dataEdges).pullOne PureMemo.ops traceId fuel nodeId pinId policy)
      (outputName nodeId pinId) := by
  induction fuel generalizing nodeId pinId node policy with
  | zero => omega
  | succ fuel ih =>
      have hlookup : (probe nodes dataEdges).nodesIndex.lookup nodeId = some node := hnode
      simp only [pullOne, hlookup]
      by_cases hform : isPureForm node = true
      · rw [if_pos hform]
        have hentries : ∀ entry ∈ (probe nodes dataEdges).edgesByConsumer.forConsumer nodeId,
            ∀ policy, Fueled.Yields (Remembers nodes)
              ((probe nodes dataEdges).pullOne PureMemo.ops traceId fuel entry.upstreamNodeId
                entry.upstreamOutputPinId policy)
              (outputName entry.upstreamNodeId entry.upstreamOutputPinId) := by
          intro entry hentry policy
          have hlt := hrank nodeId entry hentry
          obtain ⟨edge, hedge, -, rfl⟩ := mem_forConsumer.mp hentry
          obtain ⟨source, hsource, hout⟩ := hdeclared edge hedge
          exact ih (Nat.lt_of_lt_of_le hlt (Nat.le_of_lt_succ hfuel)) hsource hout policy
        obtain ⟨payload, hpayload⟩ := yields_pullDataInputs node (.object []) hentries
        exact hpayload.bind (yields_evaluatePure hnode hpin traceId payload)
      · rw [if_neg hform]
        exact yields_readSlot hnode hpin policy

/-- What is supplied in the probe tells which output it was pulled from. -/
theorem fedBy_of_supplies (hdeclared : Declared nodes dataEdges) {rank : String → ℕ}
    (hrank : ∀ edge ∈ dataEdges, rank edge.source < rank edge.target) {consumerId : String}
    {fuel : ℕ} (hfuel : rank consumerId ≤ fuel) {consumer : NodeTrait} {edge : WorkflowEdge}
    (hne : edge.targetPin ≠ "in")
    (h : (probe nodes dataEdges).Supplies fuel 0 consumerId consumer edge) :
    FedBy dataEdges consumerId edge := by
  let E := probe nodes dataEdges
  let g : DataInEdge → Value := fun entry =>
    outputName entry.upstreamNodeId entry.upstreamOutputPinId
  have hentries : ∀ entry ∈ E.edgesByConsumer.forConsumer consumerId, ∀ policy,
      Fueled.Yields (Remembers nodes)
        (E.pullOne PureMemo.ops 0 fuel entry.upstreamNodeId entry.upstreamOutputPinId policy)
        (g entry) := by
    intro entry hentry policy
    have hlt := probe_over.ranked hrank consumerId entry hentry
    obtain ⟨e, he, -, rfl⟩ := mem_forConsumer.mp hentry
    obtain ⟨source, hsource, hout⟩ := hdeclared e he
    exact yields_pullOne hdeclared (probe_over.ranked hrank) 0 (Nat.lt_of_lt_of_le hlt hfuel) hsource
      hout policy
  obtain ⟨s', -, hvalues⟩ := Fueled.Yields.collect (P := Remembers nodes) (g := g)
    (fun entry hentry => hentries entry hentry (inputPolicy consumer entry.consumerInputPinId))
    ⟨0, 0, .new⟩ (fun _ _ _ _ hnone => nomatch hnone)
  by_cases hnil : E.edgesByConsumer.forConsumer consumerId = []
  · have hnothing : E.pullDataInputs (E.pullOne PureMemo.ops 0 fuel) consumerId consumer
        (.object []) ⟨0, 0, .new⟩ = some (.ok (.object []), ⟨0, 0, .new⟩) := by
      simp [pullDataInputs, hnil]
    obtain ⟨-, -, i, v, hentry, -⟩ := h _ _ _ _ hnothing
    rw [hnil] at hentry
    cases hentry
  · obtain ⟨values, hvalues', i, v, hentry, hv, hget⟩ := h (.object []) _ _ _
      ((pullDataInputs_eq_ok hnil).mpr ⟨_, hvalues, rfl⟩)
    rw [pullEntries, hvalues] at hvalues'
    cases hvalues'
    have hfrom : v = outputName edge.source edge.sourcePin := by
      rw [List.getElem?_map, hentry, Option.map_some] at hv
      exact (Option.some.inj hv).symm
    obtain ⟨last, hlast⟩ := exists_lastEdgeInto (List.mem_of_getElem? hentry)
    obtain ⟨j, w, hlastEntry, hw, hmerged⟩ := exists_pulled hlast hne (List.length_map g)
    have hlastFrom : w = outputName last.source last.sourcePin := by
      rw [List.getElem?_map, hlastEntry, Option.map_some] at hw
      exact (Option.some.inj hw).symm
    have hsame := Option.some.inj ((hmerged (.object [])).symm.trans hget)
    rw [hfrom, hlastFrom] at hsame
    exact ⟨last, hlast, outputName_inj hsame⟩

end PullEnv

/-! ## Accepted graphs -/

section

variable {nodes : NodeIndex} {edges : List WorkflowEdge} {classified : ClassifiedEdges}
  {edge : WorkflowEdge} {consumer : NodeTrait}

/-- The data edges of an accepted graph start at declared outputs. -/
theorem PinsCompatible.declared (h : PinsCompatible nodes edges)
    (hclassified : classifyEdges nodes edges = .ok classified) :
    PullEnv.Declared nodes classified.dataEdges := by
  intro edge hedge
  have hmem := ((mem_ofKind hclassified .data).mp hedge).1
  obtain ⟨source, hsource, -, -, fromPin, hfrom, -⟩ := h.joined edge hmem
  refine ⟨source, hsource, ?_⟩
  obtain ⟨hpin, hid⟩ := mem_of_findPin hfrom
  exact List.mem_map.mpr ⟨fromPin, hpin, hid⟩

/-- A data input does not have the id of the main input. -/
theorem PinsCompatible.targetPin_ne (h : PinsCompatible nodes edges)
    (hconsumer : nodes.lookup edge.target = some consumer) {pin : PinDefinition}
    (hpin : findPin consumer.inputPins edge.targetPin = some pin) (hkind : pin.kind = .data) :
    edge.targetPin ≠ "in" := by
  intro hin
  obtain ⟨hmem, hid⟩ := mem_of_findPin hpin
  have hexec := h.reserved edge.target consumer hconsumer pin hmem (hid.trans hin)
  rw [hkind] at hexec
  cases hexec

open PullEnv in
/-- A data input that an edge leads to is served, in all surroundings and for all payloads, if
and only if the data edge it is pulled along starts at the output the edge starts at. -/
theorem served_iff (haccepted : validatePinCompatibility nodes edges = .ok ())
    (hclassified : classifyEdges nodes edges = .ok classified)
    (hacyclic : detectNonExecEdgeCycle classified = .ok ()) (_hedge : edge ∈ edges)
    (hconsumer : nodes.lookup edge.target = some consumer) {pin : PinDefinition}
    (hpin : findPin consumer.inputPins edge.targetPin = some pin) (hkind : pin.kind = .data) :
    (∃ bound, ∀ fuel ≥ bound, ∀ E : PullEnv, E.Over nodes classified.dataEdges → ∀ traceId,
      (∀ execPayload, (E.pullDataInputs (E.pullOne PureMemo.ops traceId fuel)
        (executedAs edge.target consumer) consumer execPayload).Returns) ∧
      E.Supplies fuel traceId (executedAs edge.target consumer) consumer edge) ↔
    FedBy classified.dataEdges (executedAs edge.target consumer) edge := by
  have hpins := validatePinCompatibility_eq_ok.mp haccepted
  have hne := hpins.targetPin_ne hconsumer hpin hkind
  obtain ⟨rank, hcombined⟩ := exists_rank hacyclic
  have hrank : ∀ edge ∈ classified.dataEdges, rank edge.source < rank edge.target :=
    fun edge hmem => hcombined edge (List.mem_append_left _ hmem)
  let consumerId := executedAs edge.target consumer
  constructor
  · rintro ⟨bound, h⟩
    have hsupplies := (h (max bound (rank consumerId)) (Nat.le_max_left ..)
      (probe nodes classified.dataEdges) probe_over 0).2
    exact fedBy_of_supplies (hpins.declared hclassified) hrank (Nat.le_max_right ..) hne hsupplies
  · intro h
    refine ⟨rank consumerId, ?_⟩
    intro fuel hfuel E hE traceId
    refine ⟨?_, supplies_of_fedBy hE hne h fuel traceId consumer⟩
    intro execPayload
    refine returns_pullDataInputs fun entry hentry policy => ?_
    have hlt := hE.ranked hrank consumerId entry hentry
    exact returns_pullOne (hE.ranked hrank) traceId (lt_of_lt_of_le hlt hfuel) _ policy

/-! ## Two graphs -/

/-- A source with one output. -/
def gaugeNode (kind : PinKind) : NodeTrait :=
  ⟨"gauge", [.defaultInput], [Prepared.pinOf "level" .output kind]⟩

/-- A node with a data input. -/
def alarmNode : NodeTrait :=
  ⟨"alarm", [.defaultInput, Prepared.pinOf "level" .input .data], [.defaultOutput]⟩

def gaugeNodes (kind : PinKind) : NodeIndex :=
  ((∅ : NodeIndex).insert "gauge" (gaugeNode kind)).insert "alarm" alarmNode

def gaugeEdge : WorkflowEdge := ⟨"gauge", "alarm", some "level", some "level", none⟩

/-- A data input is served from the data output the edge starts at. -/
theorem gauge_served : FedBy [gaugeEdge] "alarm" gaugeEdge ∧ ∃ bound, ∀ fuel ≥ bound,
    ∀ E : PullEnv, E.Over (gaugeNodes .data) [gaugeEdge] → ∀ traceId,
      E.Supplies fuel traceId "alarm" alarmNode gaugeEdge := by
  have hfed : FedBy [gaugeEdge] "alarm" gaugeEdge := ⟨gaugeEdge, by decide, rfl, rfl⟩
  have haccepted : validatePinCompatibility (gaugeNodes .data) [gaugeEdge] = .ok () := by decide
  have hclassified : classifyEdges (gaugeNodes .data) [gaugeEdge] = .ok ⟨[], [gaugeEdge], []⟩ := by
    decide
  have hconsumer : (gaugeNodes .data).lookup gaugeEdge.target = some alarmNode := by decide
  have hpin : findPin alarmNode.inputPins gaugeEdge.targetPin =
      some (Prepared.pinOf "level" .input .data) := by decide
  obtain ⟨bound, h⟩ := (served_iff haccepted hclassified (by decide) List.mem_cons_self hconsumer
    hpin rfl).mpr hfed
  exact ⟨hfed, bound, fun fuel hfuel E hE traceId => (h fuel hfuel E hE traceId).2⟩

/-- The edge from a reactive output is accepted, and the input has nothing of it: the pull ends
at once with the payload as it was, whatever there is to pull. -/
theorem reactive_unserved : validatePinCompatibility (gaugeNodes .reactive) [gaugeEdge] = .ok () ∧
    classifyEdges (gaugeNodes .reactive) [gaugeEdge] = .ok ⟨[], [], [gaugeEdge]⟩ ∧
    findPin alarmNode.inputPins gaugeEdge.targetPin = some (Prepared.pinOf "level" .input .data) ∧
    ∀ E : PullEnv, E.Over (gaugeNodes .reactive) [] → ∀ fuel traceId,
      (∀ execPayload s, E.pullDataInputs (E.pullOne PureMemo.ops traceId fuel) "alarm" alarmNode
        execPayload s = some (.ok execPayload, s)) ∧
      ¬ E.Supplies fuel traceId "alarm" alarmNode gaugeEdge := by
  refine ⟨by decide, by decide, by decide, ?_⟩
  intro E hE fuel traceId
  have hempty : E.edgesByConsumer.forConsumer "alarm" = [] := by
    rw [hE.edgesByConsumer]
    rfl
  have hpull : ∀ execPayload s, E.pullDataInputs (E.pullOne PureMemo.ops traceId fuel) "alarm"
      alarmNode execPayload s = some (.ok execPayload, s) := by
    intro execPayload s
    simp [PullEnv.pullDataInputs, hempty]
  refine ⟨hpull, fun hsupplies => ?_⟩
  obtain ⟨-, -, i, v, hentry, -⟩ := hsupplies _ _ _ _ (hpull .null ⟨0, 0, .new⟩)
  rw [hempty] at hentry
  cases hentry

end

end Nazh
