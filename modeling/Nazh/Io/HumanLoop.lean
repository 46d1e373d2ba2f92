import Nazh.Core.Node
import Nazh.Lib.Machine

/-!
# The human loop

A human loop node opens a slot in the registry of approvals and waits on a one-shot
channel. The slot holds the sender: whoever responds takes the slot out of the registry
and sends, and whoever cleans a workflow up takes its slots out and lets the senders
drop. A waiting node may also be given up, which drops the receiver.

An approval id is a number never used before: the position of the execution that
opened the slot. `uuidText` is how it is written. Time is counted in nanoseconds.
-/

namespace Nazh

open Lib

/-- What is done when an approval times out. -/
inductive DefaultAction
  | autoApprove
  | autoReject
  | fallbackNode (target : String)
  deriving DecidableEq, Repr

/-- A field of a form, with its name and its default. -/
inductive FormSchemaField
  | boolean (name : String) (default : Option Bool)
  /-- The default is a binary64, by its bits. -/
  | number (name : String) (default : Option UInt64)
  | stringField (name : String) (default : Option String)
  | select (name : String) (default : Option String)
  deriving DecidableEq, Repr

/-- `default_value`. -/
def FormSchemaField.defaultValue : FormSchemaField → Option (String × Value)
  | boolean name default => default.map fun v => (name, .bool v)
  | number name default => default.map fun v => (name, .ofF64 v)
  | stringField name default => default.map fun v => (name, .string v)
  | select name default => default.map fun v => (name, .string v)

/-- The configuration of a human loop node. -/
structure HumanLoopNodeConfig where
  formSchema : List FormSchemaField
  /-- `none` waits for ever. -/
  approvalTimeoutMs : Option ℕ
  defaultAction : DefaultAction
  deriving DecidableEq, Repr

inductive ResponseAction
  | approved
  | rejected
  deriving DecidableEq, Repr

/-- What a human answers. -/
structure HumanLoopResponse where
  action : ResponseAction
  formData : Value
  comment : Option String
  respondedBy : Option String
  deriving DecidableEq

/-- A human loop node. -/
structure HumanLoopNode where
  id : String
  config : HumanLoopNodeConfig
  workflowId : String
  deriving DecidableEq

/-- What the wait of a node may end with. -/
inductive WaitResult
  | answered (response : HumanLoopResponse)
  /-- The sender was dropped. -/
  | closed
  | elapsed
  deriving DecidableEq

namespace HumanLoopNode

/-- The field of a response that is there only when it is given. -/
def insertText (fields : Fields) (key : String) : Option String → Fields
  | some text => fields.insert key (.string text)
  | none => fields

def metadata (approvalId : String) (response : HumanLoopResponse) : Fields :=
  let m := Fields.insert [] "approval_id" (.string approvalId)
  let m := m.insert "action" (.string (match response.action with
    | .approved => "approved"
    | .rejected => "rejected"))
  let m := m.insert "form_data" response.formData
  let m := insertText m "comment" response.comment
  let m := insertText m "responded_by" response.respondedBy
  [("human_loop", .object m)]

def timeoutMetadata (approvalId action : String) (formDefaults : Option Value) : Fields :=
  let m := Fields.insert [] "approval_id" (.string approvalId)
  let m := m.insert "action" (.string action)
  let m := m.insert "timed_out" (.bool true)
  let m := match formDefaults with
    | some defaults => m.insert "form_defaults" defaults
    | none => m
  [("human_loop", .object m)]

def handleResponse (approvalId : String) (payload : Value) (response : HumanLoopResponse) :
    Except EngineError NodeExecution :=
  let routeTarget := match response.action with
    | .approved => "approve"
    | .rejected => "reject"
  .ok ((NodeExecution.route payload [routeTarget]).withMetadata
    (some (metadata approvalId response)))

/-- The defaults of a form, under their names. -/
def formDefaults (formSchema : List FormSchemaField) : Fields :=
  formSchema.foldl (fun fields field => match field.defaultValue with
    | some (name, default) => fields.insert name default
    | none => fields) []

def handleTimeout (node : HumanLoopNode) (approvalId : String) (payload : Value) :
    Except EngineError NodeExecution :=
  match node.config.defaultAction with
  | .autoApprove =>
      .ok ((NodeExecution.route payload ["approve"]).withMetadata (some (timeoutMetadata approvalId
        "autoApprove" (some (.object (formDefaults node.config.formSchema))))))
  | .autoReject => .error (.invalidGraph s!"审批 \x60{approvalId}\x60 超时，默认拒绝")
  | .fallbackNode target =>
      .error (.invalidGraph s!"审批 \x60{approvalId}\x60 超时，fallback 到 \x60{target}\x60 尚未实现")

/-- The end of `transform`: a dropped sender is handled as a timeout. -/
def conclude (node : HumanLoopNode) (approvalId : String) (payload : Value) :
    WaitResult → Except EngineError NodeExecution
  | .answered response => handleResponse approvalId payload response
  | .closed => node.handleTimeout approvalId payload
  | .elapsed => node.handleTimeout approvalId payload

end HumanLoopNode

/-- The one-shot channel of an execution that still has the receiver. -/
inductive Responder
  /-- The sender is in the slot. -/
  | held
  | sent (response : HumanLoopResponse)
  | dropped
  deriving DecidableEq

/-- Where an execution of `transform` is. -/
inductive HumanLoopState
  | waiting (responder : Responder)
  | finished (at' : ℕ) (result : Except EngineError NodeExecution)
  /-- The future was dropped, and the receiver with it. -/
  | abandoned
  deriving DecidableEq

/-- An execution of `transform`. -/
structure HumanLoopExecution where
  node : HumanLoopNode
  payload : Value
  startedAt : ℕ
  state : HumanLoopState
  deriving DecidableEq

namespace HumanLoopExecution

/-- The execution has not ended yet. -/
def isWaiting (e : HumanLoopExecution) : Bool :=
  match e.state with
  | .waiting _ => true
  | _ => false

/-- The time from which on the timer has elapsed. -/
def deadline (e : HumanLoopExecution) : Option ℕ :=
  e.node.config.approvalTimeoutMs.map fun timeoutMs => e.startedAt + timeoutMs * 10 ^ 6

/-- The sender of the slot is dropped. -/
def dropSender (e : HumanLoopExecution) : HumanLoopExecution :=
  match e.state with
  | .waiting .held => { e with state := .waiting .dropped }
  | _ => e

/-- Poll the wait: the channel first, and then the timer if there is one. -/
def poll (e : HumanLoopExecution) (now : ℕ) : Option WaitResult :=
  match e.state with
  | .waiting (.sent response) => some (.answered response)
  | .waiting .dropped => some .closed
  | .waiting .held => match e.deadline with
    | none => none
    | some deadline => if deadline ≤ now then some .elapsed else none
  | _ => none

end HumanLoopExecution

/-- A slot of the registry. Its sender is that of the execution with its id. -/
structure ApprovalSlot where
  workflowId : String
  nodeId : String
  approvalTimeoutMs : Option ℕ
  defaultAction : DefaultAction
  deriving DecidableEq, Repr

/-- The registry with the executions of all nodes. -/
structure Approvals where
  slots : List (ℕ × ApprovalSlot)
  executions : List HumanLoopExecution
  now : ℕ

/-- What can happen to the registry and the executions. -/
inductive ApprovalAction
  /-- A node starts to wait. -/
  | transform (node : HumanLoopNode) (payload : Value)
  /-- An execution is polled and ends. -/
  | resume (i : ℕ)
  /-- An execution is given up. -/
  | abandon (i : ℕ)
  | respond (approvalId : ℕ) (response : HumanLoopResponse)
  | cleanupWorkflow (workflowId : String)
  | elapse (nanoseconds : ℕ)

namespace Approvals

variable (uuidText : ℕ → String)

/-- `transform` up to its wait, with `create_slot`. -/
def createSlot (s : Approvals) (node : HumanLoopNode) (payload : Value) : Approvals :=
  let slot : ApprovalSlot :=
    ⟨node.workflowId, node.id, node.config.approvalTimeoutMs, node.config.defaultAction⟩
  { s with
    slots := s.slots ++ [(s.executions.length, slot)]
    executions := s.executions ++ [⟨node, payload, s.now, .waiting .held⟩] }

def setExecution (s : Approvals) (i : ℕ) (e : HumanLoopExecution) : Approvals :=
  { s with executions := s.executions.set i e }

/-- `respond`: the slot is taken out before the response is sent. -/
def respond (s : Approvals) (approvalId : ℕ) (response : HumanLoopResponse) :
    Approvals × Except EngineError Unit :=
  match s.slots.lookup approvalId with
  | none => (s, .error (.invalidGraph s!"审批 \x60{uuidText approvalId}\x60 不存在或已响应"))
  | some _ =>
      let s := { s with slots := s.slots.filter fun slot => slot.1 != approvalId }
      match s.executions[approvalId]? with
      | some e => match e.state with
        | .waiting .held =>
            (s.setExecution approvalId { e with state := .waiting (.sent response) }, .ok ())
        | _ => (s, .error (.invalidGraph "审批响应发送失败（receiver 已被 drop）"))
      | none => (s, .error (.invalidGraph "审批响应发送失败（receiver 已被 drop）"))

/-- The slot of the execution `i` is one of the workflow's. -/
def hasSlot (s : Approvals) (workflowId : String) (i : ℕ) : Bool :=
  s.slots.any fun slot => slot.1 == i && slot.2.workflowId == workflowId

/-- `cleanup_workflow`: the slots go, and their senders with them. -/
def cleanupWorkflow (s : Approvals) (workflowId : String) : Approvals :=
  { s with
    slots := s.slots.filter fun slot => slot.2.workflowId != workflowId
    executions := s.executions.mapIdx fun i e =>
      if s.hasSlot workflowId i then e.dropSender else e }

/-- One step of the registry and the executions. -/
def step (s : Approvals) : ApprovalAction → Option Approvals
  | .transform node payload => some (s.createSlot node payload)
  | .resume i => (s.executions[i]?).bind fun e => (e.poll s.now).map fun result =>
      s.setExecution i { e with
        state := .finished s.now (e.node.conclude (uuidText i) e.payload result) }
  | .abandon i => (s.executions[i]?).bind fun e =>
      if e.isWaiting then some (s.setExecution i { e with state := .abandoned }) else none
  | .respond approvalId response => some (s.respond uuidText approvalId response).1
  | .cleanupWorkflow workflowId => some (s.cleanupWorkflow workflowId)
  | .elapse nanoseconds => some { s with now := s.now + nanoseconds }

/-- The runs that start from an empty registry. -/
def machine : Machine Approvals ApprovalAction :=
  ⟨fun s => s.slots = [] ∧ s.executions = [], step uuidText⟩

/-- The calls of `respond` in a run. -/
def responses (_ : Approvals) (a : ApprovalAction) (_ : Approvals) :
    List (ℕ × HumanLoopResponse) :=
  match a with
  | .respond approvalId response => [(approvalId, response)]
  | _ => []

end Approvals
end Nazh
