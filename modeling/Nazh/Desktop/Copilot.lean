import Nazh.Json.Value
import Nazh.Lib.Machine

/-!
# Write tools of the copilot

A tool that writes is run in two phases. The first call of it leaves a pending action
under a new token and answers with a summary; the action is run when the token is
confirmed, and thrown away when it is cancelled.

A token is a number never used before. Clock readings are in nanoseconds, and each call
has its own. Texts are parsed and printed, and specifications read, by parameters.
-/

namespace Nazh

open Lib

/-- What a summary tells of a device specification. -/
structure DeviceOutline where
  model : Option String
  signals : ℕ
  alarms : ℕ
  deriving DecidableEq, Repr

/-- What a summary tells of a capability specification. -/
structure CapabilityOutline where
  deviceId : String
  inputs : ℕ
  outputs : ℕ
  deriving DecidableEq, Repr

/-- The parsers and the printer the commands use. -/
structure CopilotCodec where
  /-- `serde_json::from_str`. -/
  parseJson : String → Except String Value
  /-- `serde_json::to_string`. -/
  printJson : Value → String
  parseDeviceYaml : String → Except String DeviceOutline
  parseCapabilityYaml : String → Except String CapabilityOutline

/-- `WRITE_TOOLS`. -/
def writeTools : List String :=
  ["save_device_asset", "delete_device_asset", "save_capability_asset", "add_device_signal",
    "remove_device_signal", "bind_device_connection", "patch_device_field"]

/-- A text argument without which there is no summary. -/
def textArgument (args : Value) (key : String) : Except String String :=
  match (args.get key).bind Value.asStr with
  | some text => .ok text
  | none => .error s!"缺少 {key} 参数"

/-- `generate_write_summary`. -/
def generateWriteSummary (codec : CopilotCodec) (toolName : String) (args : Value) :
    Except String String :=
  match toolName with
  | "save_device_asset" => do
      let id ← textArgument args "id"
      let specYaml ← textArgument args "spec_yaml"
      match codec.parseDeviceYaml specYaml with
      | .error e => .error s!"设备 YAML 解析失败: {e}"
      | .ok spec =>
          let name := spec.model.getD id
          .ok s!"保存设备 \x60{id}\x60（{name}，{spec.signals} 个信号，{spec.alarms} 个告警）"
  | "delete_device_asset" => do
      let assetId ← textArgument args "asset_id"
      .ok s!"删除设备 \x60{assetId}\x60（此操作不可撤销）"
  | "save_capability_asset" => do
      let id ← textArgument args "id"
      let specYaml ← textArgument args "spec_yaml"
      match codec.parseCapabilityYaml specYaml with
      | .error e => .error s!"能力 YAML 解析失败: {e}"
      | .ok spec =>
          .ok s!"保存能力 \x60{id}\x60（设备: {spec.deviceId}，{spec.inputs} 个输入，{spec.outputs} 个输出）"
  | "add_device_signal" => do
      let assetId ← textArgument args "asset_id"
      .ok s!"为设备 \x60{assetId}\x60 添加信号"
  | "remove_device_signal" => do
      let assetId ← textArgument args "asset_id"
      match (args.get "signal_index").bind Value.asU64 with
      | none => .error "缺少 signal_index 参数"
      | some signalIndex => .ok s!"从设备 \x60{assetId}\x60 删除信号索引 {signalIndex}"
  | "bind_device_connection" => do
      let assetId ← textArgument args "asset_id"
      let connectionId := ((args.get "connection_id").bind Value.asStr).getD "无"
      .ok s!"更新设备 \x60{assetId}\x60 的连接绑定（连接: {connectionId}）"
  | "patch_device_field" => do
      let assetId ← textArgument args "asset_id"
      let path ← textArgument args "path"
      let value ← textArgument args "value"
      .ok s!"修改设备 \x60{assetId}\x60 的字段 \x60{path}\x60 为 \x60{value}\x60"
  | _ => .error s!"未知写入工具: {toolName}"

/-- A call of `dispatch_query_tool`: the tool is run. -/
structure ToolCall where
  toolName : String
  argumentsJson : String
  workspacePath : Option String
  deriving DecidableEq, Repr

/-- The call runs a tool that writes. -/
def ToolCall.writes (call : ToolCall) : Bool := writeTools.contains call.toolName

/-- `PendingCopilotAction`. -/
structure PendingCopilotAction where
  toolName : String
  argumentsJson : String
  summary : String
  createdAt : ℤ
  deriving DecidableEq, Repr

/-- The table of pending actions. -/
structure Copilot where
  pending : List (ℕ × PendingCopilotAction)
  nextToken : ℕ
  deriving DecidableEq, Repr

/-- What a command answers. -/
inductive CopilotReply
  | pendingConfirmation (summary : String) (token : ℕ)
  /-- The answer is that of the tool. -/
  | ran (call : ToolCall)
  /-- The answer of the tool with the summary. -/
  | confirmed (summary : String) (call : ToolCall)
  | cancelled (summary : String)
  deriving DecidableEq, Repr

namespace CopilotReply

/-- The call of a tool that an answer was made by. -/
def call : CopilotReply → Option ToolCall
  | ran call => some call
  | confirmed _ call => some call
  | _ => none

end CopilotReply

/-- The flag by which the arguments say that they are confirmed. -/
def isConfirmed (args : Value) : Bool := ((args.get "confirmed").bind Value.asBool).getD false

/-- Arguments with the flag set, if they are an object. -/
def markConfirmed : Value → Value
  | .object fields => .object (Fields.insert fields "confirmed" (.bool true))
  | args => args

namespace Copilot

variable (codec : CopilotCodec)

/-- The pending action of a token is taken out. -/
def remove (s : Copilot) (token : ℕ) : Copilot :=
  { s with pending := s.pending.filter fun entry => entry.1 != token }

/-- `copilot_dispatch_tool`. -/
def copilotDispatchTool (s : Copilot) (toolName argumentsJson : String)
    (workspacePath : Option String) (now : ℤ) : Copilot × Except String CopilotReply :=
  if writeTools.contains toolName then
    match codec.parseJson argumentsJson with
    | .error e => (s, .error s!"参数解析失败: {e}")
    | .ok args =>
        if isConfirmed args then (s, .ok (.ran ⟨toolName, argumentsJson, workspacePath⟩))
        else match generateWriteSummary codec toolName args with
          | .error e => (s, .error e)
          | .ok summary =>
              (⟨s.pending ++ [(s.nextToken, ⟨toolName, argumentsJson, summary, now⟩)],
                s.nextToken + 1⟩, .ok (.pendingConfirmation summary s.nextToken))
  else (s, .ok (.ran ⟨toolName, argumentsJson, workspacePath⟩))

/-- `num_seconds` of the time since an action was created, cut off. -/
def elapsedSeconds (action : PendingCopilotAction) (now : ℤ) : ℤ :=
  (now - action.createdAt).tdiv (10 ^ 9)

/-- `copilot_confirm_action`: the token is used up first. -/
def copilotConfirmAction (s : Copilot) (token : ℕ) (now : ℤ) :
    Copilot × Except String CopilotReply :=
  match s.pending.lookup token with
  | none => (s, .error "确认令牌无效或已过期")
  | some action =>
      if 300 < elapsedSeconds action now then
        (s.remove token, .error "确认令牌已过期（超过 5 分钟），请重新发起操作")
      else match codec.parseJson action.argumentsJson with
        | .error e => (s.remove token, .error s!"pending action 参数解析失败: {e}")
        | .ok args =>
            let call : ToolCall := ⟨action.toolName, codec.printJson (markConfirmed args), none⟩
            (s.remove token, .ok (.confirmed action.summary call))

/-- `copilot_cancel_action`. -/
def copilotCancelAction (s : Copilot) (token : ℕ) : Copilot × Except String CopilotReply :=
  match s.pending.lookup token with
  | none => (s, .error "令牌无效或已过期")
  | some action => (s.remove token, .ok (.cancelled action.summary))

end Copilot

/-- A command with its arguments and, where it reads the clock, the reading. -/
inductive CopilotAction
  | dispatchTool (toolName argumentsJson : String) (workspacePath : Option String) (now : ℤ)
  | confirmAction (token : ℕ) (now : ℤ)
  | cancelAction (token : ℕ)
  deriving DecidableEq, Repr

/-- A command with its answer. -/
structure CopilotEvent where
  action : CopilotAction
  reply : Except String CopilotReply
  deriving DecidableEq

namespace Copilot

variable (codec : CopilotCodec)

/-- Carry a command out. -/
def perform (s : Copilot) : CopilotAction → Copilot × Except String CopilotReply
  | .dispatchTool toolName argumentsJson workspacePath now =>
      s.copilotDispatchTool codec toolName argumentsJson workspacePath now
  | .confirmAction token now => s.copilotConfirmAction codec token now
  | .cancelAction token => s.copilotCancelAction token

/-- The sequences of commands from an empty table. Each command reads or writes the table
once, so that the order of these accesses is the order of the commands. -/
def machine : Machine Copilot CopilotAction :=
  ⟨fun s => s = ⟨[], 0⟩, fun s a => some (s.perform codec a).1⟩

/-- Every command is logged with its answer. -/
def events (s : Copilot) (a : CopilotAction) (_ : Copilot) : List CopilotEvent :=
  [⟨a, (s.perform codec a).2⟩]

end Copilot
end Nazh
