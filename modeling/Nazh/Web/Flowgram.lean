import Mathlib.Data.List.AList
import Nazh.Json.Value
import Nazh.Web.Slug

/-!
# The drawn graph and the graph that is deployed

In the editor a workflow is drawn as nodes and edges, and some nodes contain a graph of their own.
To be deployed it is flattened: a subgraph gives way to what is in it, under ids that begin with the
id of the subgraph, and an edge that leads to a subgraph is led to its first input bridge, one that
leads from it starts at its first output bridge. Of what is then there, the nodes that are for the
editor alone are left out, and the edges that lead to them or from them.
-/

namespace Nazh.Web

/-! ## The graphs -/

/-- A port of a drawn edge. -/
inductive PortId
  | text (s : String)
  | number (n : Number)
  deriving DecidableEq

structure EditorEdge where
  sourceNodeID : String
  targetNodeID : String
  sourcePortID : Option PortId
  targetPortID : Option PortId
  deriving DecidableEq

structure Position where
  x : Number
  y : Number
  deriving DecidableEq

/-- A drawn node with its blocks and their edges. Data that are not there are `null`. -/
inductive EditorNode
  | mk (id type : String) (position : Option Position) (data : Value) (blocks : List EditorNode)
      (edges : List EditorEdge)

structure EditorGraph where
  nodes : List EditorNode
  edges : List EditorEdge

namespace EditorNode

def id : EditorNode → String
  | mk id _ _ _ _ _ => id

def type : EditorNode → String
  | mk _ type _ _ _ _ => type

/-- `meta?.position`. -/
def position : EditorNode → Option Position
  | mk _ _ position _ _ _ => position

def data : EditorNode → Value
  | mk _ _ _ data _ _ => data

/-- What is drawn in a node. -/
def inner : EditorNode → EditorGraph
  | mk _ _ _ _ blocks edges => ⟨blocks, edges⟩

/-- A node with another id and other data. -/
def withIdData (id : String) (data : Value) : EditorNode → EditorNode
  | mk _ type position _ blocks edges => mk id type position data blocks edges

@[simp] theorem id_withIdData (id : String) (data : Value) (node : EditorNode) :
    (node.withIdData id data).id = id := by cases node; rfl

@[simp] theorem data_withIdData (id : String) (data : Value) (node : EditorNode) :
    (node.withIdData id data).data = data := by cases node; rfl

@[simp] theorem withIdData_withIdData (id id' : String) (data data' : Value) (node : EditorNode) :
    (node.withIdData id data).withIdData id' data' = node.withIdData id' data' := by
  cases node; rfl

/-- The members of the data, if they are a record. -/
def fields (node : EditorNode) : Fields := (node.data.asObject).getD []

end EditorNode

/-- A node of the graph that is deployed. -/
structure WorkflowNodeDefinition where
  id : String
  type : String
  connectionId : Option Value
  config : Value
  timeoutMs : Option Value
  buffer : Option Value
  position : Option Position
  deriving DecidableEq

structure WorkflowEdge where
  source : String
  target : String
  sourcePortId : Option String
  targetPortId : Option String
  backpressurePolicy : Option String
  deriving DecidableEq

/-- A workflow; `declarations` are its `variables`. -/
structure WorkflowGraph where
  name : Option String
  connections : List Value
  editorGraph : Option EditorGraph
  nodes : AList fun _ : String => WorkflowNodeDefinition
  declarations : Option Value
  edges : List WorkflowEdge

/-- The graph without anything in it. -/
def WorkflowGraph.empty : WorkflowGraph := ⟨none, [], none, ∅, none, []⟩

/-! ## Types of nodes -/

/-- The node types of the library. -/
def knownNodeTypes : List String :=
  ["native", "code", "timer", "serialTrigger", "modbusRead", "mqttClient", "canRead", "canWrite",
    "ethercatPdoRead", "ethercatPdoWrite", "ethercatStatus", "capabilityCall", "if", "switch",
    "tryCatch", "loop", "httpClient", "barkPush", "sqlWriter", "debugConsole", "subgraph",
    "subgraphInput", "subgraphOutput", "c2f", "minutesSince", "lookup", "humanLoop",
    "deviceSignalRead", "deviceEventTrigger"]

def isKnownEditorNodeType (type : String) : Bool := knownNodeTypes.contains type

/-- Of the types of the library one is for the editor alone. -/
def isEditorOnlyNodeType (type : String) : Bool := type = "subgraph"

/-- A text that is not blank. -/
def readRuntimeNodeType : Option Value → Option String
  | some (.string s) => if trim s = "" then none else some s
  | _ => none

def EditorNode.isBusinessNode (node : EditorNode) : Bool :=
  match readRuntimeNodeType (node.fields.lookup "nodeType") with
  | some explicitNodeType => !isEditorOnlyNodeType explicitNodeType
  | none => isKnownEditorNodeType node.type && !isEditorOnlyNodeType node.type

def EditorNode.isContainerNode (node : EditorNode) : Bool := node.type = "subgraph"

/-! ## Parameters -/

/-- `\w`. -/
def isWordChar (c : Char) : Bool := c.isAlphanum || c = '_'

/-- The name in a placeholder at the beginning of a text: `\{\{(\w+)\}\}`. -/
def placeholder : List Char → Option (List Char)
  | '{' :: '{' :: rest =>
      let key := rest.takeWhile isWordChar
      if key ≠ [] ∧ (rest.drop key.length).take 2 = ['}', '}'] then some key else none
  | _ => none

/-- `replace` with the placeholders, after as many characters of the last one as are left. -/
def replacePlaceholders (fill : String → Option String) : ℕ → List Char → List Char
  | _, [] => []
  | skip + 1, _ :: rest => replacePlaceholders fill skip rest
  | 0, c :: rest =>
      match placeholder (c :: rest) with
      | none => c :: replacePlaceholders fill 0 rest
      | some key =>
          let text := String.ofList key
          ((fill text).getD s!"\x7b\x7b{text}\x7d\x7d").toList ++
            replacePlaceholders fill (key.length + 3) rest

/-- The methods that every object inherits. -/
def inheritedMethods : List String :=
  ["toString", "toLocaleString", "valueOf", "hasOwnProperty", "isPrototypeOf",
    "propertyIsEnumerable", "__defineGetter__", "__defineSetter__", "__lookupGetter__",
    "__lookupSetter__"]

/-- The text of what an object inherits under a name. -/
def inheritedText (key : String) : Option String :=
  if key = "constructor" then some "function Object() \x7b [native code] \x7d"
  else if key = "__proto__" then some "[object Object]"
  else if key ∈ inheritedMethods then some s!"function {key}() \x7b [native code] \x7d"
  else none

/-- A value that can be bound to a parameter, as `String` writes it. -/
def bindingText (numberText : Number → String) : Value → Option String
  | .string s => some s
  | .number n => some (numberText n)
  | .bool b => some (if b then "true" else "false")
  | _ => none

/-- An assignment to `__proto__` makes no member. -/
def isMemberKey (key : String) : Bool := key ≠ "__proto__"

/-- `extractSubgraphParameterBindings`, with the texts of the values. -/
def EditorNode.parameterBindings (numberText : Number → String) (node : EditorNode) :
    List (String × String) :=
  let config := ((node.fields.lookup "config").bind Value.asObject).getD []
  let bindings := ((config.lookup "parameterBindings").bind Value.asObject).getD []
  (bindings.filter fun field => isMemberKey field.1).filterMap fun field =>
    (bindingText numberText field.2).map fun text => (field.1, text)

mutual

def applyParameterBindings (fill : String → Option String) : Value → Value
  | .string s => .string (String.ofList (replacePlaceholders fill 0 s.toList))
  | .array items => .array (applyToItems fill items)
  | .object fields => .object (applyToFields fill fields)
  | v => v

def applyToItems (fill : String → Option String) : List Value → List Value
  | [] => []
  | v :: rest => applyParameterBindings fill v :: applyToItems fill rest

def applyToFields (fill : String → Option String) : Fields → Fields
  | [] => []
  | (key, v) :: rest =>
      if isMemberKey key then (key, applyParameterBindings fill v) :: applyToFields fill rest
      else applyToFields fill rest

end

/-- The data of a node in a subgraph, with its parameters filled in, if it has any. -/
def EditorNode.bindData (numberText : Number → String) (container : EditorNode) (data : Value) :
    Value :=
  let params := container.parameterBindings numberText
  if params.isEmpty then data
  else applyParameterBindings (fun key => (params.lookup key).or (inheritedText key)) data

/-! ## Flattening -/

def maxSubgraphDepth : ℕ := 8

/-- An id in a subgraph. -/
def prefixId (containerId innerId : String) : String := s!"{containerId}/{innerId}"

/-- An edge in a subgraph. -/
def EditorEdge.prefixed (containerId : String) (edge : EditorEdge) : EditorEdge :=
  { edge with
    sourceNodeID := prefixId containerId edge.sourceNodeID
    targetNodeID := prefixId containerId edge.targetNodeID }

/-- The bridges of a subgraph. -/
structure BridgeIds where
  inputNodeIds : List String
  outputNodeIds : List String

def EditorNode.bridgeIds (container : EditorNode) : BridgeIds :=
  let ofType (type : String) := (container.inner.nodes.filter fun node => node.type = type).map
    fun node => prefixId container.id node.id
  ⟨ofType "subgraphInput", ofType "subgraphOutput"⟩

/-- `containerBridgeMap`: of two subgraphs with one id the last counts. -/
def EditorGraph.containerBridgeMap (graph : EditorGraph) (id : String) : Option BridgeIds :=
  (graph.nodes.reverse.find? fun node => node.isContainerNode && node.id = id).map
    EditorNode.bridgeIds

/-- An end of an edge: of a subgraph with such bridges it is at the first of them, without a port. -/
def rerouteEnd (bridges : Option (List String)) (nodeID : String) (portID : Option PortId) :
    String × Option PortId :=
  match bridges with
  | some (bridge :: _) => (bridge, none)
  | _ => (nodeID, portID)

/-- An edge of a graph, led over the bridges. -/
def EditorGraph.reroute (graph : EditorGraph) (edge : EditorEdge) : EditorEdge :=
  let source := rerouteEnd ((graph.containerBridgeMap edge.sourceNodeID).map BridgeIds.outputNodeIds)
    edge.sourceNodeID edge.sourcePortID
  let target := rerouteEnd ((graph.containerBridgeMap edge.targetNodeID).map BridgeIds.inputNodeIds)
    edge.targetNodeID edge.targetPortID
  ⟨source.1, target.1, source.2, target.2⟩

/-- One node of the loop over the nodes, with `recurse` for what is in a subgraph. -/
def flattenNode (numberText : Number → String)
    (recurse : List String → EditorGraph → Except String EditorGraph) (ancestorIds : List String)
    (node : EditorNode) : Except String EditorGraph :=
  if node.isContainerNode then
    if node.id ∈ ancestorIds then .error s!"子图循环引用：{node.id}"
    else do
      let inner ← recurse (node.id :: ancestorIds) node.inner
      return ⟨inner.nodes.map fun innerNode => innerNode.withIdData (prefixId node.id innerNode.id)
          (node.bindData numberText innerNode.data),
        inner.edges.map (EditorEdge.prefixed node.id)⟩
  else return ⟨[node], []⟩

/-- The ends of an edge are among the given nodes. -/
def EditorEdge.within (edge : EditorEdge) (ids : List String) : Bool :=
  ids.contains edge.sourceNodeID && ids.contains edge.targetNodeID

/-- `flattenSubgraphs`, with the number of levels that may still be opened. -/
def flattenSubgraphs (numberText : Number → String) :
    ℕ → List String → EditorGraph → Except String EditorGraph
  | 0, _, _ => .error s!"子图嵌套超过 {maxSubgraphDepth} 层上限"
  | levels + 1, ancestorIds, graph => do
      let parts ← graph.nodes.mapM
        (flattenNode numberText (flattenSubgraphs numberText levels) ancestorIds)
      let flatNodes := parts.flatMap EditorGraph.nodes
      let outerEdges := (graph.edges.map graph.reroute).filter fun edge =>
        edge.within (flatNodes.map EditorNode.id)
      return ⟨flatNodes, parts.flatMap EditorGraph.edges ++ outerEdges⟩

/-! ## The graph that is deployed -/

/-- A value that is neither missing nor `null`. -/
def nonNull : Option Value → Option Value
  | some .null => none
  | v => v

/-- The settings of the AI at a script node are not deployed. -/
def stripNodeLocalAiConfig (nodeType : String) (config : Value) : Value :=
  match config with
  | .object fields =>
      if nodeType = "code" then .object (fields.filter fun field => field.1 ≠ "ai") else config
  | _ => config

/-- The node that is deployed for a drawn one, with what it was before. -/
def toNodeDefinition (previousNode : Option WorkflowNodeDefinition) (node : EditorNode) :
    WorkflowNodeDefinition :=
  let nodeType := (((readRuntimeNodeType (node.fields.lookup "nodeType")).or
    (readRuntimeNodeType (previousNode.map fun previous => .string previous.type))).or
    (readRuntimeNodeType (some (.string node.type)))).getD "unknown"
  let nextConfig := match node.fields.lookup "config" with
    | some config => (nonNull (some config)).getD (.object [])
    | none => (nonNull (previousNode.map WorkflowNodeDefinition.config)).getD (.object [])
  { id := node.id
    type := nodeType
    connectionId := match node.fields.lookup "connectionId" with
      | some connectionId => nonNull (some connectionId)
      | none => previousNode.bind WorkflowNodeDefinition.connectionId
    config := stripNodeLocalAiConfig nodeType nextConfig
    timeoutMs := match node.fields.lookup "timeoutMs" with
      | some timeoutMs => nonNull (some timeoutMs)
      | none => previousNode.bind WorkflowNodeDefinition.timeoutMs
    buffer := previousNode.bind WorkflowNodeDefinition.buffer
    position := node.position.or (previousNode.bind WorkflowNodeDefinition.position) }

/-- The record of the nodes. -/
def nodeRecord (previousGraph : WorkflowGraph) (nodes : List EditorNode) :
    AList fun _ : String => WorkflowNodeDefinition :=
  nodes.foldl (fun acc node =>
    if isMemberKey node.id then
      acc.insert node.id (toNodeDefinition (previousGraph.nodes.lookup node.id) node)
    else acc) ∅

/-- A port is deployed if it is a text. -/
def PortId.deployed : Option PortId → Option String
  | some (.text s) => some s
  | _ => none

def EditorEdge.deployed (edge : EditorEdge) : WorkflowEdge :=
  ⟨edge.sourceNodeID, edge.targetNodeID, PortId.deployed edge.sourcePortID,
    PortId.deployed edge.targetPortID, none⟩

def toNazhWorkflowGraph (numberText : Number → String) (flowgramGraph : EditorGraph)
    (previousGraph : WorkflowGraph) : Except String WorkflowGraph := do
  let flat ← flattenSubgraphs numberText (maxSubgraphDepth + 1) [] flowgramGraph
  let businessNodes := flat.nodes.filter EditorNode.isBusinessNode
  let businessEdges := flat.edges.filter fun edge =>
    edge.within (businessNodes.map EditorNode.id)
  return { name := previousGraph.name
           connections := []
           editorGraph := some flowgramGraph
           nodes := nodeRecord previousGraph businessNodes
           declarations := previousGraph.declarations
           edges := businessEdges.map EditorEdge.deployed }

end Nazh.Web
