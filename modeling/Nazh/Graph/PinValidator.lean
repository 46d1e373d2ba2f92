import Nazh.Graph.Topology

/-!
# The check on pins

Before any node is started the pins are checked: no id is declared twice on one side of a
node, every edge joins two declared pins that are compatible in type and in kind, every
required input other than the main one has an edge, and the id of the main input is not
used for a data or a reactive one.
-/

namespace Nazh

open Lib

/-- No id is declared twice; `seen` are the ids before these pins. -/
def checkPinIds (nodeId : String) (direction : PinDirection) :
    List String → List PinDefinition → Except EngineError Unit
  | _, [] => .ok ()
  | seen, pin :: rest => do
      ensure (!(seen.contains pin.id)) (.duplicatePinId nodeId pin.id direction)
      checkPinIds nodeId direction (pin.id :: seen) rest

/-- The ids of a node, first those of its inputs. -/
def buildPinIndex (nodeId : String) (node : NodeTrait) : Except EngineError Unit := do
  checkPinIds nodeId .input [] node.inputPins
  checkPinIds nodeId .output [] node.outputPins

/-- The two pins of an edge. -/
def checkEdgePins (nodes : NodeIndex) (edge : WorkflowEdge) : Except EngineError Unit := do
  let fromIndex ← okOr (nodes.lookup edge.source)
    (.invalidGraph s!"边的源节点 \x60{edge.source}\x60 在节点表中不存在")
  let toIndex ← okOr (nodes.lookup edge.target)
    (.invalidGraph s!"边的目标节点 \x60{edge.target}\x60 在节点表中不存在")
  let fromPin ← okOr (findPin fromIndex.outputPins edge.sourcePin)
    (.unknownPin edge.source edge.sourcePin .output)
  let toPin ← okOr (findPin toIndex.inputPins edge.targetPin)
    (.unknownPin edge.target edge.targetPin .input)
  ensure (fromPin.pinType.isCompatibleWith toPin.pinType)
    (.incompatiblePinTypes s!"{edge.source}.{fromPin.id}" s!"{edge.target}.{toPin.id}"
      fromPin.pinType.debug toPin.pinType.debug)
  ensure (fromPin.kind.isCompatibleWith toPin.kind)
    (.incompatiblePinKinds s!"{edge.source}.{fromPin.id}" s!"{edge.target}.{toPin.id}"
      fromPin.kind toPin.kind)

/-- A required input has an edge. The main input of a root is fed by the ingress. -/
def checkCovered (edges : List WorkflowEdge) (nodeId : String) (pin : PinDefinition) :
    Except EngineError Unit :=
  ensure (!pin.required || pin.id == defaultInputPinId ||
      edges.any fun edge => edge.target == nodeId && edge.targetPin == pin.id)
    (.invalidGraph s!"节点 \x60{nodeId}\x60 的必需输入引脚 \x60{pin.id}\x60 没有任何上游入边")

/-- The id of the main input stands for an execution input. -/
def checkReserved (nodeId : String) (pin : PinDefinition) : Except EngineError Unit :=
  ensure (!((pin.kind == .data || pin.kind == .reactive) && pin.id == defaultInputPinId))
    (.reservedPinId nodeId pin.id
      "Data / Reactive 输入 pin id 不得为 \"in\"——保留给混合输入 payload 合并的 Exec 主输入键")

def validatePinCompatibility (nodes : NodeIndex) (edges : List WorkflowEdge) :
    Except EngineError Unit := do
  nodes.entries.forM fun entry => buildPinIndex entry.1 entry.2
  edges.forM (checkEdgePins nodes)
  nodes.entries.forM fun entry => entry.2.inputPins.forM (checkCovered edges entry.1)
  nodes.entries.forM fun entry => entry.2.inputPins.forM (checkReserved entry.1)

/-! ## What it makes sure of -/

/-- The two pins of an edge are there and compatible. -/
def Joined (nodes : NodeIndex) (edge : WorkflowEdge) : Prop :=
  ∃ source ∈ nodes.lookup edge.source, ∃ target ∈ nodes.lookup edge.target,
    ∃ fromPin ∈ findPin source.outputPins edge.sourcePin,
    ∃ toPin ∈ findPin target.inputPins edge.targetPin,
      fromPin.pinType.isCompatibleWith toPin.pinType = true ∧
        fromPin.kind.isCompatibleWith toPin.kind = true

/-- The pins of the nodes go together with the edges. -/
structure PinsCompatible (nodes : NodeIndex) (edges : List WorkflowEdge) : Prop where
  nodup : ∀ key, ∀ node ∈ nodes.lookup key,
    (node.inputPins.map PinDefinition.id).Nodup ∧ (node.outputPins.map PinDefinition.id).Nodup
  joined : ∀ edge ∈ edges, Joined nodes edge
  covered : ∀ key, ∀ node ∈ nodes.lookup key, ∀ pin ∈ node.inputPins, pin.required = true →
    pin.id ≠ defaultInputPinId → ∃ edge ∈ edges, edge.target = key ∧ edge.targetPin = pin.id
  reserved : ∀ key, ∀ node ∈ nodes.lookup key, ∀ pin ∈ node.inputPins,
    pin.id = defaultInputPinId → pin.kind = .exec

variable {nodes : NodeIndex} {edges : List WorkflowEdge}

theorem checkPinIds_eq_ok {nodeId : String} {direction : PinDirection} {seen : List String}
    {pins : List PinDefinition} : checkPinIds nodeId direction seen pins = .ok () ↔
      (pins.map PinDefinition.id).Nodup ∧ ∀ pin ∈ pins, pin.id ∉ seen := by
  induction pins generalizing seen with
  | nil => simp [checkPinIds]
  | cons pin rest ih =>
      rw [checkPinIds, check_bind_eq_ok, ensure_eq_ok, ih, List.map_cons, List.nodup_cons]
      have hfirst : (!seen.contains pin.id) = true ↔ pin.id ∉ seen := by simp
      have hid : pin.id ∉ rest.map PinDefinition.id ↔ ∀ p ∈ rest, p.id ≠ pin.id := by simp
      rw [hfirst, hid]
      constructor
      · rintro ⟨hseen, hnodup, hrest⟩
        refine ⟨⟨fun p hp heq => hrest p hp (heq ▸ List.mem_cons_self), hnodup⟩, ?_⟩
        intro p hp
        rcases List.mem_cons.mp hp with rfl | hp
        · exact hseen
        · exact fun hin => hrest p hp (List.mem_cons_of_mem _ hin)
      · rintro ⟨⟨hne, hnodup⟩, hall⟩
        refine ⟨hall pin List.mem_cons_self, hnodup, ?_⟩
        intro p hp hin
        rcases List.mem_cons.mp hin with heq | hin
        · exact hne p hp heq
        · exact hall p (List.mem_cons_of_mem _ hp) hin

theorem buildPinIndex_eq_ok {key : String} {node : NodeTrait} :
    buildPinIndex key node = .ok () ↔
      (node.inputPins.map PinDefinition.id).Nodup ∧
        (node.outputPins.map PinDefinition.id).Nodup := by
  rw [buildPinIndex, check_bind_eq_ok, checkPinIds_eq_ok, checkPinIds_eq_ok]
  simp

theorem checkEdgePins_eq_ok {edge : WorkflowEdge} :
    checkEdgePins nodes edge = .ok () ↔ Joined nodes edge := by
  simp only [checkEdgePins, bind_eq_ok, okOr_eq_ok, ensure_eq_ok, exists_const, Joined,
    Option.mem_def]

theorem checkCovered_eq_ok {key : String} {pin : PinDefinition} :
    checkCovered edges key pin = .ok () ↔ (pin.required = true → pin.id ≠ defaultInputPinId →
      ∃ edge ∈ edges, edge.target = key ∧ edge.targetPin = pin.id) := by
  rw [checkCovered, ensure_eq_ok]
  by_cases hreq : pin.required = true
  · by_cases hid : pin.id = defaultInputPinId
    · simp [hid]
    · simp [hreq, hid]
  · simp [hreq]

theorem checkReserved_eq_ok {key : String} {pin : PinDefinition} :
    checkReserved key pin = .ok () ↔ (pin.id = defaultInputPinId → pin.kind = .exec) := by
  rw [checkReserved, ensure_eq_ok]
  by_cases hid : pin.id = defaultInputPinId
  · cases pin.kind <;> simp [hid]
  · simp [hid]

/-- A loop over the nodes of an index. -/
theorem forM_entries_eq_ok (check : String → NodeTrait → Except EngineError Unit) :
    (nodes.entries.forM fun entry => check entry.1 entry.2) = .ok () ↔
      ∀ key, ∀ node ∈ nodes.lookup key, check key node = .ok () := by
  rw [forM_eq_ok]
  constructor
  · intro h key node hnode
    exact h ⟨key, node⟩ (AList.mem_lookup_iff.mp hnode)
  · intro h entry hentry
    exact h entry.1 entry.2 (AList.mem_lookup_iff.mpr hentry)

/-- The check accepts exactly the compatible pins. -/
theorem validatePinCompatibility_eq_ok :
    validatePinCompatibility nodes edges = .ok () ↔ PinsCompatible nodes edges := by
  rw [validatePinCompatibility, check_bind_eq_ok, check_bind_eq_ok, check_bind_eq_ok,
    forM_entries_eq_ok buildPinIndex, forM_eq_ok,
    forM_entries_eq_ok fun key node => node.inputPins.forM (checkCovered edges key),
    forM_entries_eq_ok fun key node => node.inputPins.forM (checkReserved key)]
  simp only [buildPinIndex_eq_ok, checkEdgePins_eq_ok, forM_eq_ok, checkCovered_eq_ok,
    checkReserved_eq_ok]
  constructor
  · rintro ⟨hnodup, hjoined, hcovered, hreserved⟩
    exact ⟨hnodup, hjoined, hcovered, hreserved⟩
  · intro h
    exact ⟨h.nodup, h.joined, h.covered, h.reserved⟩

end Nazh
