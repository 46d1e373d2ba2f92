import Nazh.Core.Variables
import Nazh.Io.CapabilityCall
import Nazh.Json.Print
import Nazh.Lib.Template

/-!
# The node that calls a capability

The node fills the templates of its implementation from the payload, the variables of the
workflow and its own arguments, in this order, and hands the texts on to the protocol. It
fills the arguments too, but only to report them: a template is filled with an argument as it
is configured. So an argument is handed on as it is reported just if filling leaves it alone.
-/

namespace Nazh

open Lib

/-! ## Placeholders -/

/-- The marks of a placeholder. -/
def placeholder : Delimiters Char := ⟨['$', '\x7b'], ['\x7d'], by simp⟩

/-- The names in a template. -/
def placeholders (template : String) : List String :=
  (placeholder.holes template.toList).map String.ofList

/-- A template with a text for every name. -/
def fill (text : String → String) (template : String) : String :=
  String.ofList (placeholder.render (fun name => (text (String.ofList name)).toList) template.toList)

section Fill

variable {f g : String → String} {template name : String}

theorem fill_congr (h : ∀ name ∈ placeholders template, f name = g name) :
    fill f template = fill g template := by
  refine congrArg String.ofList (Delimiters.render_congr fun name hname => ?_)
  rw [h _ (List.mem_map_of_mem hname)]

/-- A placeholder tells two texts for its name apart. -/
theorem fill_eq_iff (hname : name ∈ placeholders template)
    (hsame : ∀ other ∈ placeholders template, other ≠ name → f other = g other) :
    fill f template = fill g template ↔ f name = g name := by
  obtain ⟨chars, hchars, rfl⟩ := List.mem_map.mp hname
  have hrender := Delimiters.render_eq_iff (f := fun name => (f (String.ofList name)).toList)
    (g := fun name => (g (String.ofList name)).toList) hchars (by
      intro other hother hne
      rw [hsame _ (List.mem_map_of_mem hother)]
      intro heq
      exact hne (String.ofList_injective heq))
  constructor
  · intro h
    exact String.toList_injective (hrender.mp (String.ofList_injective h))
  · intro h
    exact congrArg String.ofList (hrender.mpr (congrArg String.toList h))

end Fill

/-! ## The node -/

/-- The fields of an object as a map. -/
def Fields.toMap (fields : Fields) : AList fun _ : String => Value :=
  (fields.map fun field => (⟨field.1, field.2⟩ : Sigma fun _ : String => Value)).toAList

@[simp] theorem Fields.lookup_toMap (fields : Fields) (key : String) :
    fields.toMap.lookup key = List.lookup key fields := by
  rw [Fields.toMap, AList.lookup_to_alist]
  induction fields with
  | nil => rfl
  | cons field fields ih =>
      obtain ⟨k, v⟩ := field
      rw [List.map_cons, List.lookup_cons]
      by_cases hkey : key = k
      · subst hkey
        simp
      · rw [List.dlookup_cons_ne _ _ hkey, ih, beq_eq_false_iff_ne.mpr hkey]

/-- A map with every value changed. -/
def mapArgs (f : Value → Value) (args : AList fun _ : String => Value) :
    AList fun _ : String => Value :=
  (args.entries.map (.map id fun _ val => f val)).toAList

structure CapabilityCallConfig where
  connectionId : Option String
  capabilityId : String
  deviceId : String
  implementation : CapabilityImplSnapshot
  /-- Values in which a text may have placeholders. -/
  args : AList fun _ : String => Value

/-- The derived deserialization. -/
def CapabilityCallConfig.fromJson (v : Value) : Option CapabilityCallConfig := do
  let fields ← v.asObject
  let connectionId ← optional fields "connection_id" Value.asStr
  let capabilityId ← required fields "capability_id" Value.asStr
  let deviceId ← required fields "device_id" Value.asStr
  let implementation ← required fields "implementation" CapabilityImplSnapshot.fromJson
  let args ← defaulted fields "args" (fun v => v.asObject.map Fields.toMap) ∅
  some ⟨connectionId, capabilityId, deviceId, implementation, args⟩

structure CapabilityCallNode where
  id : String
  config : CapabilityCallConfig
  vars : Option WorkflowVariables

/-- What a node asks the protocol to do: the texts are filled, the arguments are reported. -/
inductive ProtocolAction
  | modbusWrite (register : UInt16) (resolvedValue dataType : String) (bit : Option UInt8)
      (byteOrder : String) (scale : Option String) (resolvedArgs : AList fun _ : String => Value)
  | mqttPublish (topic resolvedPayload : String) (resolvedArgs : AList fun _ : String => Value)
  | serialCommand (command : String) (resolvedArgs : AList fun _ : String => Value)
  | canWrite (canId : UInt32) (resolvedData : String) (isExtended : Bool)
      (byteOffset byteLength : UInt8) (dataType byteOrder : String) (scale : Option String)
      (resolvedArgs : AList fun _ : String => Value)
  | ethercatPdoWrite (slaveAddress : Option UInt16) (pdoIndex entryIndex : UInt16)
      (subIndex : UInt8) (bitLen byteOffset : UInt16) (dataType : Option String)
      (byteOrder : String) (scale : Option String) (resolvedValue : String)
      (resolvedArgs : AList fun _ : String => Value)

namespace ProtocolAction

/-- The texts that are encoded or sent. -/
def handed : ProtocolAction → List String
  | modbusWrite _ resolvedValue _ _ _ _ _ => [resolvedValue]
  | mqttPublish topic resolvedPayload _ => [topic, resolvedPayload]
  | serialCommand command _ => [command]
  | canWrite _ resolvedData _ _ _ _ _ _ _ => [resolvedData]
  | ethercatPdoWrite _ _ _ _ _ _ _ _ _ resolvedValue _ => [resolvedValue]

def resolvedArgs : ProtocolAction → AList fun _ : String => Value
  | modbusWrite _ _ _ _ _ _ args => args
  | mqttPublish _ _ args => args
  | serialCommand _ args => args
  | canWrite _ _ _ _ _ _ _ _ args => args
  | ethercatPdoWrite _ _ _ _ _ _ _ _ _ _ args => args

end ProtocolAction

/-- `value_to_string`. -/
def valueToString (showF64 : UInt64 → String) : Value → String
  | .string s => s
  | .number n => n.toText showF64
  | .bool b => toString b
  | other => other.toText showF64

/-- The loop of `resolve_template`. `done` is what is before `start`, and `rest` what is after:
the loop never comes back to what it put in. -/
def resolveFrom (resolve : List Char → List Char) : ℕ → (done rest : List Char) → List Char
  | 0, done, rest => done ++ rest
  | fuel + 1, done, rest => match cut placeholder.opening rest with
    | none => done ++ rest
    | some (before, opened) => match cut placeholder.closing opened with
      | none => done ++ rest
      | some (varName, after) => resolveFrom resolve fuel (done ++ before ++ resolve varName) after

namespace CapabilityCallNode

variable (showF64 : UInt64 → String) (node : CapabilityCallNode) (payload : Value)

/-- The value of a workflow variable, if the node has any variables. -/
def variableValue (name : String) : Option Value :=
  node.vars.bind fun vars => vars.getValue name

/-- `resolve_variable`: the field of the payload, the variable or the argument of the name. -/
def resolveVariable (varName : String) : String :=
  match payload.get varName with
  | some val => valueToString showF64 val
  | none => match node.variableValue varName with
    | some val => valueToString showF64 val
    | none => match node.config.args.lookup varName with
      | some val => valueToString showF64 val
      | none => s!"$\x7b{varName}\x7d"

/-- `resolve_template`. Every round takes a placeholder, so the length of the text is fuel
enough. -/
def resolveTemplate (template : String) : String :=
  String.ofList (resolveFrom
    (fun varName => (node.resolveVariable showF64 payload (String.ofList varName)).toList)
    template.toList.length [] template.toList)

/-- What is reported of an argument. -/
def resolveArg (val : Value) : Value :=
  match val.asStr with
  | some s => .string (node.resolveTemplate showF64 payload s)
  | none => val

/-- `resolved_args`. -/
def resolvedArgs : AList fun _ : String => Value :=
  mapArgs (node.resolveArg showF64 payload) node.config.args

/-- `transform`, up to what is handed to the protocol. -/
def transform : Except EngineError ProtocolAction :=
  let resolve := node.resolveTemplate showF64 payload
  let args := node.resolvedArgs showF64 payload
  match node.config.implementation with
  | .modbusWrite register dataType bit byteOrder scale valueTemplate =>
      .ok (.modbusWrite register (resolve valueTemplate) dataType bit byteOrder scale args)
  | .mqttPublish topic payloadTemplate =>
      .ok (.mqttPublish (resolve topic) (resolve payloadTemplate) args)
  | .serialCommand commandTemplate => .ok (.serialCommand (resolve commandTemplate) args)
  | .canWrite canId isExtended byteOffset byteLength dataType byteOrder scale dataTemplate =>
      .ok (.canWrite canId (resolve dataTemplate) isExtended byteOffset byteLength dataType byteOrder
        scale args)
  | .ethercatPdoWrite slaveAddress pdoIndex entryIndex subIndex bitLen byteOffset dataType byteOrder
      scale valueTemplate =>
      .ok (.ethercatPdoWrite slaveAddress pdoIndex entryIndex subIndex bitLen byteOffset dataType
        byteOrder scale (resolve valueTemplate) args)
  | .script _ => .error (.nodeConfig node.id
      "capabilityCall 的 script implementation 尚未接入实际执行器，不能返回意图成功")

/-- Filling leaves the text alone: what its placeholders stand for spells it again. -/
def Settled (s : String) : Prop := fill (node.resolveVariable showF64 payload) s = s

instance (s : String) : Decidable (node.Settled showF64 payload s) := instDecidableEqString _ _

/-- How the registry makes a node: a missing connection is that of the definition. -/
def ofDefinition (id : String) (connectionId : Option String) (config : Value)
    (vars : Option WorkflowVariables) : Option CapabilityCallNode := do
  let config ← CapabilityCallConfig.fromJson config
  some ⟨id, { config with connectionId := config.connectionId.or connectionId }, vars⟩

end CapabilityCallNode

/-! ## What is filled -/

/-- The loop fills each part of what is left. -/
theorem resolveFrom_eq (resolve : List Char → List Char) (fuel : ℕ) (done rest : List Char) :
    resolveFrom resolve fuel done rest =
      done ++ (placeholder.piecesWithin fuel rest).flatMap (Piece.fill resolve) := by
  induction fuel generalizing done rest with
  | zero => simp [resolveFrom, Delimiters.piecesWithin, Piece.fill]
  | succ fuel ih =>
      rw [resolveFrom, Delimiters.piecesWithin, Delimiters.first]
      cases hopen : cut placeholder.opening rest with
      | none => simp [Piece.fill]
      | some opened =>
          cases hclose : cut placeholder.closing opened.2 with
          | none => simp [hclose, Piece.fill]
          | some closed => simp [hclose, Piece.fill, ih]

namespace CapabilityCallNode

variable {showF64 : UInt64 → String} {node : CapabilityCallNode} {payload : Value}

/-- A template is filled in one pass. -/
theorem resolveTemplate_eq (template : String) : node.resolveTemplate showF64 payload template =
    fill (node.resolveVariable showF64 payload) template := by
  rw [resolveTemplate, resolveFrom_eq, List.nil_append]
  rfl

end CapabilityCallNode

end Nazh
