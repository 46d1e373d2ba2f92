import Mathlib.Data.List.AList
import Nazh.Dsl.Capability
import Nazh.Lib.Except

/-!
# Workflow specifications

A specification describes a workflow as a state machine: states with actions on entry and exit,
and transitions with conditions and actions. A map of the specification is the list of its
entries in the order in which the program goes through them.

Before it is compiled a specification is checked against the devices and capabilities that are
known, and for transitions between states it does not have.
-/

namespace Nazh

open Lib

/-! ## Specifications -/

/-- What an action does: a capability of a device, or something of the system. -/
inductive ActionTarget
  | capability (id : String)
  | action (id : String)
  deriving DecidableEq

structure ActionSpec where
  target : ActionTarget
  args : AList fun _ : String => Value

structure StateSpec where
  entry : List ActionSpec
  exit : List ActionSpec

/-- A transition, with its `from`, `to` and `when`. -/
structure TransitionSpec where
  source : String
  target : String
  condition : String
  priority : Option UInt32
  action : Option ActionSpec

/-- A workflow; a timeout is in milliseconds. -/
structure WorkflowSpec where
  id : String
  devices : List String
  vars : AList fun _ : String => Value
  states : AList fun _ : String => StateSpec
  transitions : List TransitionSpec
  timeout : AList fun _ : String => UInt64
  onTimeout : Option String

/-- Whether a transition may be taken from every state. -/
def TransitionSpec.isWildcard (transition : TransitionSpec) : Bool := transition.source = "*"

/-! ## Diagnostics and errors -/

inductive DiagnosticLevel
  | error
  | warning
  deriving DecidableEq, Repr

/-- Operations on texts that the language's library provides. -/
structure SpecTexts where
  /-- `to_lowercase`. -/
  toLowercase : String → String
  /-- `char::is_alphanumeric`. -/
  isAlphanumeric : Char → Bool
  /-- Whether `parse::<f64>` succeeds. -/
  parsesF64 : String → Bool
  /-- How a binary64 is displayed. -/
  displayF64 : UInt64 → String

/-- What a rule of the safety checks has found, and where. -/
structure SafetyDiagnostic where
  level : DiagnosticLevel
  rule : String
  message : String
  stateName : Option String
  transitionIndex : Option ℕ
  capabilityId : Option String
  actionIndex : Option ℕ
  deriving DecidableEq, Repr

/-- `diag_error`. -/
def diagError (rule message : String) : SafetyDiagnostic :=
  ⟨.error, rule, message, none, none, none, none⟩

/-- `diag_warning`. -/
def diagWarning (rule message : String) : SafetyDiagnostic :=
  ⟨.warning, rule, message, none, none, none, none⟩

structure SafetyReport where
  diagnostics : List SafetyDiagnostic
  deriving DecidableEq, Repr

def SafetyReport.hasErrors (report : SafetyReport) : Bool :=
  report.diagnostics.any (·.level = .error)

inductive CompileError
  | reference (detail : String)
  | stateMachine (detail : String)
  | capabilityCall (detail : String)
  | safety (report : SafetyReport)
  | outputBuild (detail : String)
  deriving DecidableEq, Repr

/-- `if errors.is_empty()`. -/
def okIfEmpty (errors : List String) (error : String → CompileError) : Except CompileError Unit :=
  if errors.isEmpty then .ok () else .error (error ("；".intercalate errors))

/-! ## References -/

/-- The devices and capabilities that are known. -/
structure CompilerContext where
  devices : AList fun _ : String => DeviceSpec
  capabilities : AList fun _ : String => CapabilitySpec
  duplicateAssetErrors : List String

namespace CompilerContext

/-- Put assets into a map under their ids, and report those that are there already. -/
def collect {α : Type} (id : α → String) (what : String) (assets : List α) :
    (AList fun _ : String => α) × List String :=
  assets.foldl (fun acc asset => (acc.1.insert (id asset) asset,
    if (acc.1.lookup (id asset)).isSome then acc.2 ++ [s!"重复{what} id \x60{id asset}\x60"]
    else acc.2)) (∅, [])

def new (devices : List DeviceSpec) (capabilities : List CapabilitySpec) : CompilerContext :=
  let (deviceMap, duplicateDevices) := collect DeviceSpec.id "设备" devices
  let (capabilityMap, duplicateCapabilities) := collect CapabilitySpec.id "能力" capabilities
  ⟨deviceMap, capabilityMap, duplicateDevices ++ duplicateCapabilities⟩

/-- `collect_capability_refs`. -/
def collectCapabilityRefs (actions : List ActionSpec) : List String :=
  actions.filterMap fun action => match action.target with
    | .capability id => some id
    | .action _ => none

/-- All capabilities that a specification refers to. -/
def capabilityRefs (spec : WorkflowSpec) : List String :=
  (spec.states.entries.flatMap fun state =>
    collectCapabilityRefs state.2.entry ++ collectCapabilityRefs state.2.exit) ++
  collectCapabilityRefs (spec.transitions.filterMap TransitionSpec.action)

variable (ctx : CompilerContext)

/-- What is missing for one reference to a capability. -/
def missingForCapability (capId : String) : List String :=
  match ctx.capabilities.lookup capId with
  | some cap =>
      if (ctx.devices.lookup cap.deviceId).isSome then []
      else [s!"能力 \x60{capId}\x60 引用的设备 \x60{cap.deviceId}\x60 未在资产快照中找到"]
  | none => [s!"能力 \x60{capId}\x60 未在资产快照中找到"]

/-- `validate_references`: all that is missing is reported at once. -/
def validateReferences (spec : WorkflowSpec) : Except CompileError Unit :=
  let missingDevices := spec.devices.filterMap fun deviceId =>
    if (ctx.devices.lookup deviceId).isSome then none
    else some s!"设备 \x60{deviceId}\x60 未在资产快照中找到"
  let missing := ctx.duplicateAssetErrors ++ missingDevices ++
    (capabilityRefs spec).flatMap ctx.missingForCapability
  okIfEmpty missing fun detail => .reference detail

/-- `connection_id_for_device`. -/
def connectionIdForDevice (deviceId : String) : Option String :=
  (ctx.devices.lookup deviceId).bind fun device => device.connection.map ConnectionRef.id

end CompilerContext

/-! ## The state machine -/

namespace WorkflowSpec

variable (spec : WorkflowSpec)

def hasState (name : String) : Bool := (spec.states.lookup name).isSome

/-- What is wrong with one transition, `before` being those before it. -/
def transitionErrors (before : List TransitionSpec) (i : ℕ) (trans : TransitionSpec) :
    List String :=
  (if trans.source ≠ "*" ∧ spec.hasState trans.source = false then
    [s!"transition[{i}] 的 from 状态 \x60{trans.source}\x60 不存在"] else []) ++
  (if spec.hasState trans.target = false then
    [s!"transition[{i}] 的 to 状态 \x60{trans.target}\x60 不存在"] else []) ++
  (if trans.source = "*" ∧ trans.priority = none then
    [s!"transition[{i}] 使用通配符 from=\"*\"，必须声明 priority"] else []) ++
  (if before.any fun other =>
      other.source = trans.source && other.target = trans.target && other.condition = trans.condition then
    [s!"transition[{i}] 与已有 transition 重复 (from={trans.source}, to={trans.target}, when={trans.condition})"]
  else [])

/-- The same for all of them. -/
def allTransitionErrors : List String :=
  spec.transitions.zipIdx.flatMap fun trans =>
    spec.transitionErrors (spec.transitions.take trans.2) trans.2 trans.1

end WorkflowSpec

/-- `validate_workflow_spec`. -/
def validateWorkflowSpec (spec : WorkflowSpec) : Except CompileError Unit :=
  let errors :=
    (if spec.states.entries.isEmpty then ["工作流必须定义至少一个状态"] else []) ++
    spec.allTransitionErrors ++
    (spec.timeout.keys.filterMap fun name =>
      if spec.hasState name then none else some s!"timeout 中引用的状态 \x60{name}\x60 不存在") ++
    (spec.onTimeout.toList.filterMap fun name =>
      if spec.hasState name then none else some s!"on_timeout 引用的状态 \x60{name}\x60 不存在")
  okIfEmpty errors fun detail => .stateMachine detail

/-- The least of the names, in the order of strings. -/
def leastName : List String → Option String
  | [] => none
  | name :: rest => match leastName rest with
    | none => some name
    | some least => some (if least < name then least else name)

/-- `determine_initial_state`: the state `idle`, or the first by name. -/
def determineInitialState (spec : WorkflowSpec) : Except CompileError String :=
  if spec.hasState "idle" then .ok "idle"
  else okOr (leastName spec.states.keys) (.stateMachine "工作流没有定义任何状态")

end Nazh
