import Nazh.Core.Pin

/-!
# Engine errors

The variants of `EngineError` that the modelled functions build, and the text each
one displays.
-/

namespace Nazh

/-- A structured engine error. Identifiers of data and of traces are numbers. -/
inductive EngineError
  | invalidGraph (message : String)
  | stageExecution (stage : String) (traceId : ℕ) (message : String)
  | stageTimeout (stage : String) (traceId : ℕ) (timeoutMs : ℕ)
  | stagePanicked (stage : String) (traceId : ℕ)
  | channelClosed (stage : String)
  | nodeConfig (nodeId message : String)
  | scriptCompile (nodeId message : String)
  | scriptRuntime (nodeId message : String)
  | payloadConversion (nodeId message : String)
  | connectionAlreadyExists (id : String)
  | connectionNotFound (id : String)
  | connectionBusy (id : String)
  | connectionInvalidConfiguration (connectionId reason : String)
  | connectionRateLimited (connectionId : String) (retryAfterMs : ℕ)
  | connectionCircuitOpen (connectionId : String) (retryAfterMs : ℕ) (reason : String)
  | dataNotFound (id : ℕ)
  | dataStoreCapacityExceeded (capacity : ℕ)
  | incompatiblePinTypes (source target fromType toType : String)
  | incompatiblePinKinds (source target : String) (fromKind toKind : PinKind)
  | unknownPin (node pin : String) (direction : PinDirection)
  | duplicatePinId (node pin : String) (direction : PinDirection)
  | unknownVariable (name : String)
  | variableTypeMismatch (name declared actual : String)
  | variableInitialMismatch (name declared actual : String)
  | dataPinCacheEmpty (upstream pin : String)
  | dataPinPullTimeout (upstream pin : String) (timeoutMs : ℕ)
  | reservedPinId (node pin reason : String)
  deriving DecidableEq, Repr

namespace EngineError

/-- What an error displays. -/
def message : EngineError → String
  | invalidGraph m => s!"工作流图无效: {m}"
  | stageExecution stage traceId m => s!"阶段 \x60{stage}\x60 在 trace \x60{traceId}\x60 中执行失败: {m}"
  | stageTimeout stage traceId ms =>
      s!"阶段 \x60{stage}\x60 在 trace \x60{traceId}\x60 中超时（{ms} ms）"
  | stagePanicked stage traceId =>
      s!"阶段 \x60{stage}\x60 在 trace \x60{traceId}\x60 中发生 panic"
  | channelClosed stage => s!"阶段 \x60{stage}\x60 的通道已关闭"
  | nodeConfig nodeId m => s!"节点 \x60{nodeId}\x60 配置无效: {m}"
  | scriptCompile nodeId m => s!"节点 \x60{nodeId}\x60 的脚本编译失败: {m}"
  | scriptRuntime nodeId m => s!"节点 \x60{nodeId}\x60 的脚本运行时错误: {m}"
  | payloadConversion nodeId m => s!"节点 \x60{nodeId}\x60 的 payload 转换失败: {m}"
  | connectionAlreadyExists id => s!"连接 \x60{id}\x60 已存在"
  | connectionNotFound id => s!"连接 \x60{id}\x60 不存在"
  | connectionBusy id => s!"连接 \x60{id}\x60 已被借出"
  | connectionInvalidConfiguration id reason => s!"连接 \x60{id}\x60 配置无效: {reason}"
  | connectionRateLimited id ms => s!"连接 \x60{id}\x60 已被限流，请在 {ms} ms 后重试"
  | connectionCircuitOpen id ms reason =>
      s!"连接 \x60{id}\x60 已熔断，请在 {ms} ms 后重试: {reason}"
  | dataNotFound id => s!"数据 \x60{id}\x60 在 DataStore 中不存在"
  | dataStoreCapacityExceeded capacity => s!"DataStore 已达容量上限（{capacity} 条）"
  | incompatiblePinTypes source target fromType toType =>
      s!"边 \x60{source}\x60 → \x60{target}\x60 类型不兼容：上游 \x60{fromType}\x60，下游期望 \x60{toType}\x60"
  | incompatiblePinKinds source target fromKind toKind =>
      s!"边 \x60{source}\x60 → \x60{target}\x60 求值语义不匹配：上游 \x60{fromKind.label}\x60，下游 \x60{toKind.label}\x60（ADR-0014：引脚二分要求 Kind 一致）"
  | unknownPin node pin direction => s!"节点 \x60{node}\x60 不存在 {direction.label} 引脚 \x60{pin}\x60"
  | duplicatePinId node pin direction =>
      s!"节点 \x60{node}\x60 声明了重复的 {direction.label} 引脚 \x60{pin}\x60"
  | unknownVariable name => s!"工作流变量 \x60{name}\x60 不存在"
  | variableTypeMismatch name declared actual =>
      s!"写入工作流变量 \x60{name}\x60 失败：声明类型 \x60{declared}\x60 与实际值类型 \x60{actual}\x60 不匹配"
  | variableInitialMismatch name declared actual =>
      s!"工作流变量 \x60{name}\x60 初值类型不匹配：声明 \x60{declared}\x60 / 初值实际 \x60{actual}\x60"
  | dataPinCacheEmpty upstream pin =>
      s!"上游节点 \x60{upstream}\x60 的 Data 输出引脚 \x60{pin}\x60 缓存为空（尚未执行）"
  | dataPinPullTimeout upstream pin ms =>
      s!"拉取上游 \x60{upstream}\x60 引脚 \x60{pin}\x60 超时（{ms} ms）——上游可能未执行"
  | reservedPinId node pin reason => s!"节点 \x60{node}\x60 的引脚 \x60{pin}\x60 使用了保留 id：{reason}"

end EngineError
end Nazh
