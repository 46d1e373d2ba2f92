import Nazh.Dsl.StateGraph

/-!
# Safety checks

Six rules look at a specification before it is compiled, each at its own part of it. What they
find makes a report, and a report with an error keeps the specification from being compiled.
-/

namespace Nazh

open Lib

/-! ## Templates -/

/-- What an argument is. -/
inductive TemplateValue
  | variableRef (name : String)
  | numeric (bits : UInt64)
  | other
  deriving DecidableEq

/-- `extract_variable_ref`: the name in a text that is one placeholder. -/
def extractVariableRef (s : String) : Option String :=
  match (Text.trim s).toList with
  | '$' :: '{' :: rest =>
      if rest.getLast? = some '}' ∧ rest.dropLast ≠ [] then some (String.ofList rest.dropLast)
      else none
  | _ => none

/-- `classify_template`. -/
def classifyTemplate : Value → TemplateValue
  | .number n => .numeric n.asF64
  | .string s => match extractVariableRef s with
    | some name => .variableRef name
    | none => .other
  | _ => .other

namespace WorkflowSpec

variable (spec : WorkflowSpec) (ctx : CompilerContext) (texts : SpecTexts)

/-- The loop that the rules on actions share: what a check says of every action and its place. -/
def eachAction (check : ActionSpec → (stateName : Option String) → (transitionIndex : Option ℕ) →
    (actionIndex : ℕ) → List SafetyDiagnostic) : List SafetyDiagnostic :=
  (spec.states.entries.flatMap fun state =>
    (state.2.entry.zipIdx.flatMap fun action => check action.1 (some state.1) none action.2) ++
    state.2.exit.zipIdx.flatMap fun action => check action.1 (some state.1) none action.2) ++
  spec.transitions.zipIdx.flatMap fun trans =>
    trans.1.action.toList.flatMap fun action => check action none (some trans.2) 0

section Actions

variable (action : ActionSpec) (stateName : Option String) (transitionIndex : Option ℕ)
  (actionIndex : ℕ)

/-- What a check says of every argument of an action that an input of its capability has the name
of. The capability is named as the action names it. -/
def eachArgument (check : (capId argKey : String) → Value → CapabilityParam →
    List SafetyDiagnostic) : List SafetyDiagnostic :=
  match action.target with
  | .action _ => []
  | .capability capId => match ctx.capabilities.lookup capId with
    | none => []
    | some cap => action.args.entries.flatMap fun arg =>
        match cap.inputs.find? (·.id = arg.1) with
        | none => []
        | some param => check capId arg.1 arg.2 param

/-- `check_action_unit`. -/
def checkActionUnit : List SafetyDiagnostic :=
  eachArgument ctx action fun capId argKey argValue param =>
    let warning message : List SafetyDiagnostic := [⟨.warning, "unit_consistency", message,
      stateName, transitionIndex, some capId, some actionIndex⟩]
    match param.unit with
    | none => []
    | some paramUnit => match classifyTemplate argValue with
      | .numeric _ => warning
          s!"参数 \x60{argKey}\x60 传入数值字面量，无法静态校验单位，请确认与能力输入单位 \x60{paramUnit}\x60 一致"
      | .variableRef varName => warning
          s!"参数 \x60{argKey}\x60 使用变量 \x60$\x7b{varName}\x7d\x60 的单位无法静态校验，请确认与能力输入单位 \x60{paramUnit}\x60 一致"
      | .other => []

/-- How a range is shown. -/
def showRange (range : Range) : String :=
  s!"[{texts.displayF64 range.min}, {texts.displayF64 range.max}]"

/-- `check_action_range`. -/
def checkActionRange : List SafetyDiagnostic :=
  eachArgument ctx action fun capId argKey argValue param =>
    let diagnostic level message : List SafetyDiagnostic := [⟨level, "range_boundary", message,
      stateName, transitionIndex, some capId, some actionIndex⟩]
    match param.range with
    | none => []
    | some range => match classifyTemplate argValue with
      | .numeric num =>
          if range.contains num then []
          else diagnostic .error
            s!"参数 \x60{argKey}\x60 的值 {texts.displayF64 num} 超出能力输入量程 {showRange texts range}"
      | .variableRef varName => match spec.vars.lookup varName with
        | some initial => match initial.asF64 with
          | some num =>
              if range.contains num then []
              else diagnostic .error
                s!"变量 \x60$\x7b{varName}\x7d\x60 的初始值 {texts.displayF64 num} 超出能力输入参数 \x60{argKey}\x60 量程 {showRange texts range}"
          | none => diagnostic .warning
              s!"变量 \x60$\x7b{varName}\x7d\x60 的初始值非数值，无法静态校验参数 \x60{argKey}\x60 的量程 {showRange texts range}"
        | none => diagnostic .warning
            s!"变量 \x60$\x7b{varName}\x7d\x60 未在 variables 中声明初始值，无法静态校验参数 \x60{argKey}\x60 的量程 {showRange texts range}"
      | .other => []

/-- `check_action_approval`. -/
def checkActionApproval : List SafetyDiagnostic :=
  match action.target with
  | .action _ => []
  | .capability capId => match ctx.capabilities.lookup capId with
    | none => []
    | some cap =>
        if cap.safety.level = .high ∧ cap.safety.requiresApproval = true then
          let loc := stateName.getD "transition"
          [⟨.warning, "dangerous_action_approval",
            s!"能力 \x60{capId}\x60 安全等级为 High 且需人工审批，在状态 \x60{loc}\x60 中被使用",
            stateName, transitionIndex, some capId, some actionIndex⟩]
        else []

end Actions

/-- `check_unit_consistency`. -/
def checkUnitConsistency : List SafetyDiagnostic := spec.eachAction (checkActionUnit ctx)

/-- `check_range_boundary`. -/
def checkRangeBoundary : List SafetyDiagnostic := spec.eachAction (spec.checkActionRange ctx texts)

/-- `check_dangerous_action_approval`. -/
def checkDangerousActionApproval : List SafetyDiagnostic :=
  spec.eachAction (checkActionApproval ctx)

/-! ## Capabilities -/

/-- `cap_ids`: each capability that is referred to, once. -/
def capIds : List String := (CompilerContext.capabilityRefs spec).eraseDups

/-- `is_reserved_word` of the preconditions. -/
def isReservedWord (s : String) : Bool :=
  ["true", "false", "let", "if", "else", "and", "or", "not", "while", "loop", "for", "in", "return",
    "fn", "import", "export"].contains s

/-- `extract_identifiers`. -/
def extractIdentifiers (expr : String) : List String :=
  ((expr.toList.splitOnP fun c => !texts.isAlphanumeric c && c ≠ '_').filter (· ≠ [])).map
    String.ofList |>.filter fun t => !isReservedWord t && !texts.parsesF64 t

/-- What is wrong with an identifier of a precondition. -/
def checkIdentifier (capId cond : String) (device : DeviceSpec) (ident : String) :
    List SafetyDiagnostic :=
  let diagnostic level message : List SafetyDiagnostic :=
    [⟨level, "precondition_reachability", message, none, none, some capId, none⟩]
  if isReservedWord ident || texts.parsesF64 ident then []
  else match device.signals.find? (·.id = ident) with
    | some signal =>
        if signal.isReadable then []
        else diagnostic .error
          s!"能力 \x60{capId}\x60 的前置条件 \x60{cond}\x60 引用了信号 \x60{ident}\x60，但该信号不可读（类型为 {signal.signalType.debug}）"
    | none => diagnostic .warning
        s!"能力 \x60{capId}\x60 的前置条件 \x60{cond}\x60 引用了标识符 \x60{ident}\x60，该标识符不在设备 \x60{device.id}\x60 的信号列表中，可能是运行时变量"

/-- `check_precondition_reachability`. -/
def checkPreconditionReachability : List SafetyDiagnostic :=
  spec.capIds.flatMap fun capId => match ctx.capabilities.lookup capId with
    | none => []
    | some cap => match ctx.devices.lookup cap.deviceId with
      | none => []
      | some device => cap.preconditions.flatMap fun cond =>
          (extractIdentifiers texts cond).flatMap (checkIdentifier texts capId cond device)

/-- `find_register_conflicts`: the pairs that write one register. -/
def findRegisterConflicts : List CapabilitySpec → List (String × String × UInt16)
  | [] => []
  | cap :: rest =>
      rest.filterMap (fun other => match cap.implementation, other.implementation with
        | .modbusWrite r₁ _ _ _ _ _, .modbusWrite r₂ _ _ _ _ _ =>
            if r₁ = r₂ then some (cap.id, other.id, r₁) else none
        | _, _ => none) ++
      findRegisterConflicts rest

/-- `check_mechanical_interlock`. -/
def checkMechanicalInterlock : List SafetyDiagnostic :=
  let caps := spec.capIds.filterMap fun capId => ctx.capabilities.lookup capId
  (caps.map CapabilitySpec.deviceId).eraseDups.flatMap fun deviceId =>
    (findRegisterConflicts (caps.filter (·.deviceId = deviceId))).map fun conflict =>
      diagWarning "mechanical_interlock"
        s!"设备 \x60{deviceId}\x60 上的能力 \x60{conflict.1}\x60 和 \x60{conflict.2.1}\x60 均写入寄存器 {conflict.2.2.toNat}，可能存在并发冲突"

/-! ## The report -/

/-- `run_safety_checks`. -/
def runSafetyChecks (initialState : String) : SafetyReport :=
  ⟨spec.checkUnitConsistency ctx ++ spec.checkRangeBoundary ctx texts ++
    spec.checkPreconditionReachability ctx texts ++
    spec.checkStateMachineCompleteness texts initialState ++
    spec.checkDangerousActionApproval ctx ++ spec.checkMechanicalInterlock ctx⟩

/-- The report has an error of the rule on the graph of states. -/
def ReportsLoop (initialState : String) : Prop :=
  ∃ d ∈ (spec.runSafetyChecks ctx texts initialState).diagnostics,
    d.level = .error ∧ d.rule = "state_machine_completeness"

/-! ## Rules have names of their own -/

variable {spec ctx texts} {d : SafetyDiagnostic} {rule : String}

theorem rule_of_mem_eachAction {check : ActionSpec → Option String → Option ℕ → ℕ →
    List SafetyDiagnostic} (hcheck : ∀ a s t i, ∀ d ∈ check a s t i, d.rule = rule)
    (h : d ∈ spec.eachAction check) : d.rule = rule := by
  rcases List.mem_append.mp h with h | h
  · obtain ⟨state, -, h⟩ := List.mem_flatMap.mp h
    rcases List.mem_append.mp h with h | h
    · obtain ⟨action, -, h⟩ := List.mem_flatMap.mp h
      exact hcheck _ _ _ _ d h
    · obtain ⟨action, -, h⟩ := List.mem_flatMap.mp h
      exact hcheck _ _ _ _ d h
  · obtain ⟨trans, -, h⟩ := List.mem_flatMap.mp h
    obtain ⟨action, -, h⟩ := List.mem_flatMap.mp h
    exact hcheck _ _ _ _ d h

/-- What is said of an argument is said by the check of arguments. -/
theorem mem_eachArgument {action : ActionSpec} {check : String → String → Value → CapabilityParam →
    List SafetyDiagnostic} : d ∈ eachArgument ctx action check ↔
      ∃ capId cap, action.target = .capability capId ∧ ctx.capabilities.lookup capId = some cap ∧
        ∃ arg ∈ action.args.entries, ∃ param, cap.inputs.find? (·.id = arg.1) = some param ∧
          d ∈ check capId arg.1 arg.2 param := by
  unfold eachArgument
  cases htarget : action.target with
  | action id => simp
  | capability capId =>
      cases hcap : ctx.capabilities.lookup capId with
      | none => simp [hcap]
      | some cap =>
          simp only [hcap, List.mem_flatMap]
          constructor
          · intro h
            obtain ⟨arg, harg, h⟩ := h
            split at h
            · cases h
            · rename_i param hparam
              exact ⟨capId, cap, rfl, hcap, arg, harg, param, hparam, h⟩
          · intro h
            obtain ⟨capId', cap', hid, hcap', arg, harg, param, hparam, h⟩ := h
            obtain rfl := ActionTarget.capability.inj hid
            obtain rfl := Option.some.inj (hcap.symm.trans hcap')
            refine ⟨arg, harg, ?_⟩
            rw [hparam]
            exact h

theorem rule_of_mem_unit (h : d ∈ spec.checkUnitConsistency ctx) : d.rule = "unit_consistency" := by
  refine rule_of_mem_eachAction ?_ h
  intro a s t i d hd
  obtain ⟨capId, cap, -, -, arg, -, param, -, hd⟩ := mem_eachArgument.mp hd
  dsimp only at hd
  split at hd
  · cases hd
  · split at hd
    · rw [List.mem_singleton.mp hd]
    · rw [List.mem_singleton.mp hd]
    · cases hd

theorem rule_of_mem_range (h : d ∈ spec.checkRangeBoundary ctx texts) : d.rule = "range_boundary" := by
  refine rule_of_mem_eachAction ?_ h
  intro a s t i d hd
  obtain ⟨capId, cap, -, -, arg, -, param, -, hd⟩ := mem_eachArgument.mp hd
  dsimp only at hd
  split at hd
  · cases hd
  · split at hd
    · split at hd
      · cases hd
      · rw [List.mem_singleton.mp hd]
    · split at hd
      · split at hd
        · split at hd
          · cases hd
          · rw [List.mem_singleton.mp hd]
        · rw [List.mem_singleton.mp hd]
      · rw [List.mem_singleton.mp hd]
    · cases hd

theorem rule_of_mem_approval (h : d ∈ spec.checkDangerousActionApproval ctx) :
    d.rule = "dangerous_action_approval" := by
  refine rule_of_mem_eachAction ?_ h
  intro a s t i d hd
  unfold checkActionApproval at hd
  split at hd
  · cases hd
  · split at hd
    · cases hd
    · split at hd
      · rw [List.mem_singleton.mp hd]
      · cases hd

theorem rule_of_mem_precondition (h : d ∈ spec.checkPreconditionReachability ctx texts) :
    d.rule = "precondition_reachability" := by
  obtain ⟨capId, -, h⟩ := List.mem_flatMap.mp h
  split at h
  · cases h
  · split at h
    · cases h
    · obtain ⟨cond, -, h⟩ := List.mem_flatMap.mp h
      obtain ⟨ident, -, h⟩ := List.mem_flatMap.mp h
      unfold checkIdentifier at h
      dsimp only at h
      split at h
      · cases h
      · split at h
        · split at h
          · cases h
          · rw [List.mem_singleton.mp h]
        · rw [List.mem_singleton.mp h]

theorem rule_of_mem_interlock (h : d ∈ spec.checkMechanicalInterlock ctx) :
    d.rule = "mechanical_interlock" := by
  obtain ⟨deviceId, -, h⟩ := List.mem_flatMap.mp h
  obtain ⟨conflict, -, rfl⟩ := List.mem_map.mp h
  rfl

/-- Errors of the rule on the graph of states are those the rule finds. -/
theorem reportsLoop_iff (initialState : String) :
    spec.ReportsLoop ctx texts initialState ↔ spec.ClosesFirstPath := by
  rw [← exists_error_iff texts initialState]
  constructor
  · intro h
    obtain ⟨d, hd, hlevel, hrule⟩ := h
    simp only [runSafetyChecks, List.mem_append] at hd
    have hother : ∀ {rule : String}, rule ≠ "state_machine_completeness" → d.rule ≠ rule := by
      intro rule hne heq
      exact hne (heq.symm.trans hrule)
    rcases hd with ((((hd | hd) | hd) | hd) | hd) | hd
    · exact absurd (rule_of_mem_unit hd) (hother (by decide))
    · exact absurd (rule_of_mem_range hd) (hother (by decide))
    · exact absurd (rule_of_mem_precondition hd) (hother (by decide))
    · exact ⟨d, hd, hlevel⟩
    · exact absurd (rule_of_mem_approval hd) (hother (by decide))
    · exact absurd (rule_of_mem_interlock hd) (hother (by decide))
  · intro h
    obtain ⟨d, hd, hlevel⟩ := h
    refine ⟨d, ?_, hlevel, rule_of_mem hd⟩
    simp only [runSafetyChecks, List.mem_append]
    exact .inl (.inl (.inr hd))

/-- For every specification and every order of its states: an error of the rule on the graph of
states is reported exactly where there is an unconditional cycle, if and only if there is none or
one closes a first path. -/
theorem reports_loops_iff (spec : WorkflowSpec) (ctx : CompilerContext) (texts : SpecTexts)
    (initialState : String) :
    (spec.ReportsLoop ctx texts initialState ↔ spec.HasUnconditionalCycle) ↔
      (¬ spec.HasUnconditionalCycle ∨ spec.ClosesFirstPath) := by
  rw [reportsLoop_iff]
  constructor
  · intro h
    by_cases hcycle : spec.HasUnconditionalCycle
    · exact .inr (h.mpr hcycle)
    · exact .inl hcycle
  · intro h
    constructor
    · exact ClosesFirstPath.hasUnconditionalCycle
    · intro hcycle
      exact h.resolve_left fun hnone => hnone hcycle

/-! ## A loop beside a first path -/

/-- A machine that runs on when it is told to, and otherwise cools down, and starts again. The
states are in a given order. -/
def coolingSpec (order : List String) : WorkflowSpec where
  id := "cooling"
  devices := []
  vars := ∅
  states := order.foldr (fun name states => states.insert name ⟨[], []⟩) ∅
  transitions := [⟨"idle", "running", "payload.go", none, none⟩, ⟨"idle", "cooling", "true", none, none⟩,
    ⟨"cooling", "running", "true", none, none⟩, ⟨"running", "idle", "", none, none⟩]
  timeout := ∅
  onTimeout := none

/-- Nothing is known. -/
def emptyContext : CompilerContext := .new [] []

def asciiTexts : SpecTexts := ⟨Text.toAsciiLowercase, Char.isAlphanum, fun _ => false, fun _ => ""⟩

instance (initialState : String) : Decidable (spec.ReportsLoop ctx texts initialState) :=
  inferInstanceAs (Decidable (∃ d ∈ _, _))

theorem coolingSpec_loops (order : List String) : (coolingSpec order).HasUnconditionalCycle := by
  refine ⟨"idle", ?_⟩
  have hcool : (coolingSpec order).UnconditionalEdge "idle" "cooling" :=
    ⟨_, .tail _ (.head _), by decide, rfl, rfl, by decide⟩
  have hrun : (coolingSpec order).UnconditionalEdge "cooling" "running" :=
    ⟨_, .tail _ (.tail _ (.head _)), by decide, rfl, rfl, by decide⟩
  have hidle : (coolingSpec order).UnconditionalEdge "running" "idle" :=
    ⟨_, .tail _ (.tail _ (.tail _ (.head _))), by decide, rfl, rfl, by decide⟩
  exact .head hcool (.head hrun (.single hidle))

/-- A valid specification has an unconditional loop. It is reported if the program comes to
`running` first, and not if it comes to `idle` first. -/
theorem loop_reported_by_order :
    emptyContext.validateReferences (coolingSpec ["idle", "running", "cooling"]) = .ok () ∧
      validateWorkflowSpec (coolingSpec ["idle", "running", "cooling"]) = .ok () ∧
      (coolingSpec ["idle", "running", "cooling"]).HasUnconditionalCycle ∧
      ¬ (coolingSpec ["idle", "running", "cooling"]).ReportsLoop emptyContext asciiTexts "idle" ∧
      ((coolingSpec ["idle", "running", "cooling"]).runSafetyChecks emptyContext asciiTexts
        "idle").hasErrors = false ∧
      (coolingSpec ["running", "idle", "cooling"]).ReportsLoop emptyContext asciiTexts "idle" := by
  refine ⟨by decide, by decide, coolingSpec_loops _, by decide, by decide, by decide⟩

end WorkflowSpec
end Nazh
