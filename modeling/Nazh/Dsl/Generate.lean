import Mathlib.Data.List.Forall2
import Mathlib.Data.List.Nodup
import Nazh.Dsl.CapabilityCheck

/-!
# Capabilities generated from a device

A device is checked, which gives diagnostics. From a device, a capability is generated for each of its
signals that can be written. Which signals these are, what is generated and what the check of a
capability asks for was written at three times.
-/

namespace Nazh.Dsl

open Lib

/-! ## The device -/

structure SignalSpec extends Nazh.SignalSpec where
  unit : Option String
  range : Option Range
  scale : Option String
  deriving DecidableEq, Repr

structure AlarmSpec where
  id : String
  condition : String
  deriving DecidableEq, Repr

structure DeviceSpec where
  id : String
  connection : Option ConnectionRef
  signals : List SignalSpec
  alarms : List AlarmSpec
  deriving DecidableEq, Repr

inductive ValidationLevel
  | error
  | warning
  deriving DecidableEq, Repr

structure ValidationDiagnostic where
  level : ValidationLevel
  path : String
  message : String
  deriving DecidableEq, Repr

/-! ## Its diagnostics -/

/-- A diagnostic, if there is reason for it. -/
def diagnose (level : ValidationLevel) (reason : Bool) (path message : String) :
    List ValidationDiagnostic :=
  if reason then [⟨level, path, message⟩] else []

/-- `^[a-zA-Z_][a-zA-Z0-9_]*$`, for a text that is not empty. -/
def isSignalId (id : String) : Bool :=
  match id.toList with
  | [] => true
  | c :: cs => (c.isAlpha || c == '_') && cs.all fun c => c.isAlphanum || c == '_'

/-- `matches!(signal_type, AnalogOutput | DigitalOutput)`. -/
def isOutput : SignalType → Bool
  | .analogOutput | .digitalOutput => true
  | .analogInput | .digitalInput => false

/-- The kind of connection that a source needs. -/
def expectedProtocol : SignalSource → String
  | .register _ _ _ _ => "modbus-tcp"
  | .topic _ => "mqtt"
  | .serialCommand _ => "serial"
  | .canFrame _ _ _ _ _ _ => "can"
  | .ethercatPdo _ => "ethercat"

def isRegister : SignalSource → Bool
  | .register _ _ _ _ => true
  | _ => false

section Validate

variable (showF64 : UInt64 → String)

/-- What is said of the id of a signal. -/
def signalIdDiagnostics (path : String) (seen : List String) (id : String) :
    List ValidationDiagnostic :=
  if Text.trim id == "" then [⟨.error, s!"{path}.id", "信号 ID 不能为空"⟩]
  else
    diagnose .error (!isSignalId id) s!"{path}.id"
      s!"信号 ID \x60{id}\x60 不符合格式要求（须匹配 ^[a-zA-Z_][a-zA-Z0-9_]*$）" ++
    diagnose .error (seen.contains id) s!"{path}.id" s!"重复信号 ID \x60{id}\x60"

def rangeDiagnostics (path : String) : Option Range → List ValidationDiagnostic
  | none => []
  | some range => diagnose .error (le64 range.max range.min) s!"{path}.range"
      s!"量程 min({showF64 range.min}) 必须小于 max({showF64 range.max})"

/-- An analog signal should have a unit and a range. -/
def analogDiagnostics (path : String) (signal : SignalSpec) : List ValidationDiagnostic :=
  if signal.signalType = .analogInput ∨ signal.signalType = .analogOutput then
    diagnose .warning signal.unit.isNone s!"{path}.unit" s!"模拟信号 \x60{signal.id}\x60 建议声明 unit" ++
    diagnose .warning signal.range.isNone s!"{path}.range"
      s!"模拟信号 \x60{signal.id}\x60 建议声明 range"
  else []

def sourceDiagnostics (path : String) (signal : SignalSpec) :
    Option ConnectionRef → List ValidationDiagnostic
  | none => []
  | some conn =>
      diagnose .warning (conn.connectionType != expectedProtocol signal.source &&
          !(conn.connectionType == "modbus-rtu" && isRegister signal.source)) s!"{path}.source"
        s!"信号 source 类型为 \x60{expectedProtocol signal.source}\x60，但设备连接类型为 \x60{conn.connectionType}\x60"

def scaleDiagnostics (path : String) : Option String → List ValidationDiagnostic
  | none => []
  | some scale =>
      diagnose .error (!decide (Bracketed '(' ')' scale.toList)) s!"{path}.scale"
        s!"scale 表达式括号不匹配: \x60{scale}\x60" ++
      diagnose .warning (scale.toList.contains '/') s!"{path}.scale"
        s!"scale 表达式含除法运算，存在除零风险: \x60{scale}\x60"

/-- The loop over the signals: `i` are done, with the ids that were `seen`. -/
def signalsDiagnostics (connection : Option ConnectionRef) :
    ℕ → List String → List SignalSpec → List ValidationDiagnostic
  | _, _, [] => []
  | i, seen, signal :: rest =>
      let path := s!"signals[{i}]"
      signalIdDiagnostics path seen signal.id ++ rangeDiagnostics showF64 path signal.range ++
        analogDiagnostics path signal ++ sourceDiagnostics path signal connection ++
        scaleDiagnostics path signal.scale ++
        signalsDiagnostics connection (i + 1)
          (if Text.trim signal.id == "" then seen else signal.id :: seen) rest

def alarmDiagnostics (path : String) (seen : List String) (alarm : AlarmSpec) :
    List ValidationDiagnostic :=
  (if Text.trim alarm.id == "" then [⟨.error, s!"{path}.id", "告警 ID 不能为空"⟩]
    else diagnose .error (seen.contains alarm.id) s!"{path}.id" s!"重复告警 ID \x60{alarm.id}\x60") ++
  (if Text.trim alarm.condition == "" then [⟨.error, s!"{path}.condition", "告警条件不能为空"⟩]
    else diagnose .error (!decide (Bracketed '(' ')' (Text.trim alarm.condition).toList))
      s!"{path}.condition" s!"告警条件括号不匹配: \x60{alarm.condition}\x60")

/-- The loop over the alarms. -/
def alarmsDiagnostics : ℕ → List String → List AlarmSpec → List ValidationDiagnostic
  | _, _, [] => []
  | i, seen, alarm :: rest =>
      alarmDiagnostics s!"alarms[{i}]" seen alarm ++
        alarmsDiagnostics (i + 1) (if Text.trim alarm.id == "" then seen else alarm.id :: seen) rest

namespace DeviceSpec

variable (device : DeviceSpec)

/-- `DeviceSpec::validate`. -/
def validate : List ValidationDiagnostic :=
  signalsDiagnostics showF64 device.connection 0 [] device.signals ++
    diagnose .warning ((device.signals.any fun s => isOutput s.signalType) && device.alarms.isEmpty)
      "alarms" "设备包含写信号但未声明任何告警，建议为写操作配套安全告警" ++
    alarmsDiagnostics 0 [] device.alarms

/-- `is_valid`: no diagnostic is an error. -/
def isValid : Bool := (device.validate showF64).all fun d => d.level != .error

end DeviceSpec
end Validate

/-! ## Generation -/

/-- `is_writable_signal`. -/
def isWritableSignal (signalType : SignalType) : SignalSource → Bool
  | .register _ access _ _ => isOutput signalType || access = .write || access = .readWrite
  | .topic _ | .serialCommand _ | .canFrame _ _ _ _ _ _ => isOutput signalType
  | .ethercatPdo _ => false

/-- How a signal is written. -/
def implementationOf (signal : SignalSpec) : CapabilityImpl :=
  match signal.source with
  | .register register _ dataType bit =>
      .modbusWrite register dataType bit .bigEndian signal.scale "$\x7bvalue\x7d"
  | .topic topic => .mqttPublish topic "$\x7bvalue\x7d"
  | .serialCommand command => .serialCommand s!"{command} $\x7bvalue\x7d"
  | .canFrame canId isExtended byteOffset byteLength dataType byteOrder =>
      .canWrite canId isExtended byteOffset byteLength dataType byteOrder signal.scale
        "$\x7bvalue\x7d"
  | .ethercatPdo pdo =>
      .ethercatPdoWrite pdo.slaveAddress pdo.pdoIndex pdo.entryIndex pdo.subIndex pdo.bitLen
        (pdo.byteOffset.getD 0) pdo.dataType .littleEndian signal.scale "$\x7bvalue\x7d"

/-- The id of the capability that writes a signal. -/
def capabilityId (deviceId signalId : String) : String := s!"{deviceId}.write_{signalId}"

def buildCapabilityFromSignal (device : DeviceSpec) (signal : SignalSpec) : CapabilitySpec where
  id := capabilityId device.id signal.id
  deviceId := device.id
  description := s!"自动生成：写入 {signal.id}"
  inputs := [{ id := "value", unit := signal.unit, range := signal.range, required := true }]
  outputs := []
  preconditions := []
  effects := [s!"{signal.id} 被修改"]
  implementation := implementationOf signal
  fallback := []
  safety := { level := .low, requiresApproval := false, maxExecutionTime := none }

def generateCapabilitiesFromDevice (device : DeviceSpec) : List CapabilitySpec :=
  (device.signals.filter fun s => isWritableSignal s.signalType s.source).map
    (buildCapabilityFromSignal device)

/-! ## What is to be generated -/

/-- The signal is an output, or its register can be written. -/
def isWritten (signal : SignalSpec) : Bool :=
  isOutput signal.signalType || match signal.source with
    | .register _ access _ _ => access = .write || access = .readWrite
    | _ => false

/-- There is one capability for each signal that is written, with an id of its own, and all are
valid. -/
structure GeneratesAll (device : DeviceSpec) : Prop where
  complete : List.Forall₂ (fun signal capability => capability.id = capabilityId device.id signal.id ∧
      capability.deviceId = device.id) (device.signals.filter fun s => isWritten s)
    (generateCapabilitiesFromDevice device)
  apart : ((generateCapabilitiesFromDevice device).map CapabilitySpec.id).Nodup
  valid : ∀ capability ∈ generateCapabilitiesFromDevice device, capability.validate = .ok ()

/-- The signal is no entry of a process image and has a range, and the braces of its command match and
name the value only. -/
structure Generable (signal : SignalSpec) : Prop where
  notEthercat : ∀ pdo, signal.source ≠ .ethercatPdo pdo
  ranged : signal.range.isSome = true
  command : ∀ command, signal.source = .serialCommand command →
    Bracketed '\x7b' '\x7d' command.toList ∧
      ∀ name ∈ extractTemplateVariables command, name = "value"

/-! ## The ids of a valid device -/

variable {showF64 : UInt64 → String} {device : DeviceSpec} {signal : SignalSpec}

/-- No diagnostic is an error. -/
def Faultless (diagnostics : List ValidationDiagnostic) : Prop :=
  ∀ d ∈ diagnostics, d.level ≠ .error

theorem isValid_iff : device.isValid showF64 = true ↔ Faultless (device.validate showF64) := by
  simp [DeviceSpec.isValid, Faultless]

@[simp] theorem faultless_append {xs ys : List ValidationDiagnostic} :
    Faultless (xs ++ ys) ↔ Faultless xs ∧ Faultless ys := by
  simp [Faultless, or_imp, forall_and]

@[simp] theorem faultless_diagnose {reason : Bool} {path message : String} :
    Faultless (diagnose .error reason path message) ↔ reason = false := by
  cases reason <;> simp [Faultless, diagnose]

/-- An id that is not complained about. -/
theorem of_signalIdDiagnostics {path id : String} {seen : List String}
    (h : Faultless (signalIdDiagnostics path seen id)) :
    Text.trim id ≠ "" ∧ isSignalId id = true ∧ id ∉ seen := by
  rw [signalIdDiagnostics] at h
  split at h
  · exact absurd rfl (h _ List.mem_cons_self)
  · rename_i hblank
    rw [faultless_append, faultless_diagnose, faultless_diagnose] at h
    exact ⟨by simpa using hblank, by simpa using h.1, by simpa using h.2⟩

theorem of_signalsDiagnostics {connection : Option ConnectionRef} {i : ℕ} {seen : List String}
    {signals : List SignalSpec} (h : Faultless (signalsDiagnostics showF64 connection i seen signals)) :
    (∀ s ∈ signals, Text.trim s.id ≠ "" ∧ isSignalId s.id = true ∧ s.id ∉ seen) ∧
      (signals.map fun s => s.id).Nodup := by
  induction signals generalizing i seen with
  | nil => simp
  | cons signal rest ih =>
      rw [signalsDiagnostics] at h
      simp only [faultless_append] at h
      obtain ⟨⟨⟨⟨⟨hid, -⟩, -⟩, -⟩, -⟩, hrest⟩ := h
      have hself := of_signalIdDiagnostics hid
      rw [if_neg (by simpa using hself.1)] at hrest
      obtain ⟨hall, hnodup⟩ := ih hrest
      refine ⟨List.forall_mem_cons.mpr ⟨hself, fun s hs => ?_⟩, ?_⟩
      · obtain ⟨hblank, hformat, hnew⟩ := hall s hs
        exact ⟨hblank, hformat, fun hmem => hnew (List.mem_cons_of_mem _ hmem)⟩
      · rw [List.map_cons, List.nodup_cons]
        refine ⟨fun hmem => ?_, hnodup⟩
        obtain ⟨s, hs, heq⟩ := List.mem_map.mp hmem
        exact (hall s hs).2.2 (heq ▸ List.mem_cons_self)

/-! ## What is generated is valid -/

theorem mem_of_mem_trim {s : String} {c : Char} (h : c ∈ (Text.trim s).toList) : c ∈ s.toList := by
  rw [Text.trim, String.toList_ofList, Text.trimList, List.mem_reverse] at h
  have hmem := (List.dropWhile_sublist Text.isWhitespace).mem h
  exact (List.dropWhile_sublist Text.isWhitespace).mem (List.mem_reverse.mp hmem)

theorem plain_of_isSignalId {id : String} (h : isSignalId id = true) :
    ∀ c ∈ id.toList, c ∉ ['(', ')', '[', ']'] := by
  have hplain : ∀ c : Char, (c.isAlpha || c == '_') = true ∨ (c.isAlphanum || c == '_') = true →
      c ∉ ['(', ')', '[', ']'] := by
    rintro c hc hmem
    simp only [List.mem_cons, List.not_mem_nil, or_false] at hmem
    rcases hmem with rfl | rfl | rfl | rfl <;> exact absurd hc (by decide)
  rw [isSignalId] at h
  split at h
  · rename_i hnil
    simp [hnil]
  · rename_i c cs hcons
    rw [Bool.and_eq_true, List.all_eq_true] at h
    rw [hcons]
    exact List.forall_mem_cons.mpr ⟨hplain c (.inl h.1), fun d hd => hplain d (.inr (h.2 d hd))⟩

/-- What a capability says it changes is taken for an expression. -/
theorem effect_valid {id : String} (h : isSignalId id = true) :
    validateRhaiLikeExpr s!"{id} 被修改" = .ok () := by
  have hlist : (s!"{id} 被修改").toList = (id.toList ++ [' ', '被', '修']) ++ ['改'] := by
    simp [toString]
  apply validateRhaiLikeExpr_of_plain
  · obtain ⟨cs, hcs⟩ := Text.trim_of_concat hlist (by decide)
    intro hempty
    rw [hempty] at hcs
    simp at hcs
  · intro c hc
    have hmem := mem_of_mem_trim hc
    rw [hlist, List.append_assoc, List.mem_append] at hmem
    rcases hmem with hid | hrest
    · exact plain_of_isSignalId h c hid
    · simp only [List.cons_append, List.nil_append, List.mem_cons, List.not_mem_nil, or_false] at hrest
      rcases hrest with rfl | rfl | rfl | rfl <;> decide

theorem value_fits : TemplateFits ["value"] "$\x7bvalue\x7d" := by
  refine ⟨by decide, ?_⟩
  have hnames : extractTemplateVariables "$\x7bvalue\x7d" = ["value"] := by decide
  rw [hnames]
  exact fun name hname => hname

/-- A command with the value after it fits exactly if its own braces match and name the value only. -/
theorem command_fits {command : String} : TemplateFits ["value"] s!"{command} $\x7bvalue\x7d" ↔
    Bracketed '\x7b' '\x7d' command.toList ∧
      ∀ name ∈ extractTemplateVariables command, name = "value" := by
  have hsplit : s!"{command} $\x7bvalue\x7d" = command ++ " $\x7bvalue\x7d" := rfl
  have hdepth : ∀ d, depthAfter '\x7b' '\x7d' d " $\x7bvalue\x7d".toList = some d := by
    intro d
    simp [depthAfter]
  have hbalanced : Bracketed '\x7b' '\x7d' (command ++ " $\x7bvalue\x7d").toList ↔
      Bracketed '\x7b' '\x7d' command.toList := by
    rw [Bracketed, String.toList_append, depthAfter_append, Bracketed]
    cases depthAfter '\x7b' '\x7d' 0 command.toList with
    | none => rfl
    | some d => rw [Option.bind_some, hdepth]
  have hnames : extractTemplateVariables " $\x7bvalue\x7d" = ["value"] := by decide
  rw [hsplit]
  constructor
  · rintro ⟨h, hdeclared⟩
    have hcommand := hbalanced.mp h
    rw [extractTemplateVariables_append hcommand (by decide), hnames] at hdeclared
    exact ⟨hcommand, fun name hname =>
      List.mem_singleton.mp (hdeclared name (List.mem_append_left _ hname))⟩
  · rintro ⟨hcommand, hdeclared⟩
    refine ⟨hbalanced.mpr hcommand, fun name hname => ?_⟩
    rw [extractTemplateVariables_append hcommand (by decide), hnames] at hname
    rcases List.mem_append.mp hname with hname | hname
    · exact List.mem_singleton.mpr (hdeclared name hname)
    · exact hname

/-- What is generated of a signal is valid exactly if the signal has a range and a command that fits. -/
theorem validate_build (hid : isSignalId signal.id = true) :
    (buildCapabilityFromSignal device signal).validate = .ok () ↔ signal.range.isSome = true ∧
      ∀ command, signal.source = .serialCommand command →
        Bracketed '\x7b' '\x7d' command.toList ∧
          ∀ name ∈ extractTemplateVariables command, name = "value" := by
  have htemplate : (∀ fieldPath expr, checkedTemplate (implementationOf signal) =
      some (fieldPath, expr) → TemplateFits ["value"] expr) ↔
      ∀ command, signal.source = .serialCommand command →
        TemplateFits ["value"] s!"{command} $\x7bvalue\x7d" := by
    rw [implementationOf]
    cases signal.source with
    | serialCommand command =>
        constructor
        · rintro h _ ⟨⟩
          exact h _ _ rfl
        · rintro h fieldPath expr ⟨⟩
          exact h command rfl
    | ethercatPdo pdo =>
        constructor
        · rintro h _ ⟨⟩
        · rintro h _ _ ⟨⟩
    | _ =>
        constructor
        · rintro h _ ⟨⟩
        · rintro - _ _ ⟨⟩
          exact value_fits
  simp only [command_fits] at htemplate
  rw [CapabilitySpec.validate_eq_ok, ← htemplate]
  constructor
  · intro h
    exact ⟨h.ranges _ List.mem_cons_self rfl, h.template⟩
  · rintro ⟨hrange, hfits⟩
    refine ⟨⟨?_, List.nodup_singleton _⟩, ⟨?_, .nil⟩, ?_, hfits, ?_, ?_, ⟨?_, .nil⟩, ?_⟩
    · exact fun id hmem => List.mem_singleton.mp hmem ▸ (by decide : Text.trim "value" ≠ "")
    · exact fun id hmem => absurd hmem List.not_mem_nil
    · intro input hmem _
      obtain rfl := List.mem_singleton.mp hmem
      exact hrange
    · exact fun expr hmem => absurd hmem List.not_mem_nil
    · intro expr hmem
      obtain rfl := List.mem_singleton.mp hmem
      exact effect_valid hid
    · exact fun id hmem => absurd hmem List.not_mem_nil
    · exact List.not_mem_nil

/-! ## What is generated is all -/

/-- The signals that are written are the ones that can be, and entries of process images. -/
theorem isWritableSignal_iff : isWritableSignal signal.signalType signal.source = true ↔
    isWritten signal = true ∧ ∀ pdo, signal.source ≠ .ethercatPdo pdo := by
  rw [isWritten]
  cases signal.source with
  | ethercatPdo pdo => simp [isWritableSignal]
  | register register access dataType bit =>
      cases access <;> cases signal.signalType <;> simp [isWritableSignal, isOutput]
  | _ => simp [isWritableSignal]

theorem capabilityId_inj {deviceId a b : String} :
    capabilityId deviceId a = capabilityId deviceId b ↔ a = b := by
  simp [capabilityId, toString]

theorem apart_of_nodup (h : (device.signals.map fun s => s.id).Nodup) :
    ((generateCapabilitiesFromDevice device).map CapabilitySpec.id).Nodup := by
  rw [generateCapabilitiesFromDevice, List.map_map]
  have hfilter : ((device.signals.filter fun s => isWritableSignal s.signalType s.source).map
      fun s => s.id).Sublist (device.signals.map fun s => s.id) :=
    List.filter_sublist.map _
  have hids : (((device.signals.filter fun s => isWritableSignal s.signalType s.source).map
      fun s => s.id).map (capabilityId device.id)).Nodup :=
    List.Nodup.map (fun _ _ => capabilityId_inj.mp) (h.sublist hfilter)
  rwa [List.map_map] at hids

/-- For every signal that is written there is one capability exactly if none is an entry of a process
image. -/
theorem complete_iff : List.Forall₂ (fun (signal : SignalSpec) (capability : CapabilitySpec) =>
      capability.id = capabilityId device.id signal.id ∧ capability.deviceId = device.id)
    (device.signals.filter fun s => isWritten s) (generateCapabilitiesFromDevice device) ↔
      ∀ s ∈ device.signals, isWritten s = true → ∀ pdo, s.source ≠ .ethercatPdo pdo := by
  have hfilter : (device.signals.filter fun s => isWritableSignal s.signalType s.source) =
      (device.signals.filter fun s => isWritten s).filter fun s =>
        isWritableSignal s.signalType s.source := by
    rw [List.filter_filter]
    refine List.filter_congr fun s _ => ?_
    cases hwritable : isWritableSignal s.signalType s.source with
    | false => rfl
    | true => simp [(isWritableSignal_iff.mp hwritable).1]
  rw [generateCapabilitiesFromDevice, hfilter]
  constructor
  · intro h s hs hwritten
    have hlen := h.length_eq
    rw [List.length_map, eq_comm, List.length_filter_eq_length_iff] at hlen
    exact (isWritableSignal_iff.mp (hlen s (List.mem_filter.mpr ⟨hs, hwritten⟩))).2
  · intro h
    have hall : ∀ s ∈ device.signals.filter fun s => isWritten s,
        isWritableSignal s.signalType s.source = true := by
      intro s hs
      obtain ⟨hmem, hwritten⟩ := List.mem_filter.mp hs
      exact isWritableSignal_iff.mpr ⟨hwritten, h s hmem hwritten⟩
    rw [List.filter_eq_self.mpr hall, List.forall₂_map_right_iff, List.forall₂_same]
    exact fun s _ => ⟨rfl, rfl⟩

/-- For every device without errors, a valid capability of its own is generated for each signal that is
written exactly if these signals are no entries of process images and have ranges, and the braces of
their commands match and name the value only. -/
theorem generatesAll_iff (hvalid : device.isValid showF64 = true) :
    GeneratesAll device ↔ ∀ s ∈ device.signals, isWritten s = true → Generable s := by
  have hfaultless := isValid_iff.mp hvalid
  rw [DeviceSpec.validate, faultless_append, faultless_append] at hfaultless
  obtain ⟨hids, hnodup⟩ := of_signalsDiagnostics hfaultless.1.1
  have hbuild : ∀ s ∈ device.signals, isWritableSignal s.signalType s.source = true →
      buildCapabilityFromSignal device s ∈ generateCapabilitiesFromDevice device :=
    fun s hs hwritable => List.mem_map_of_mem (List.mem_filter.mpr ⟨hs, hwritable⟩)
  constructor
  · intro h s hs hwritten
    have hsource := complete_iff.mp h.complete s hs hwritten
    have hvalid := h.valid _ (hbuild s hs (isWritableSignal_iff.mpr ⟨hwritten, hsource⟩))
    obtain ⟨hranged, hcommand⟩ := (validate_build (hids s hs).2.1).mp hvalid
    exact ⟨hsource, hranged, hcommand⟩
  · intro h
    refine ⟨complete_iff.mpr fun s hs hwritten => (h s hs hwritten).notEthercat,
      apart_of_nodup hnodup, fun capability hcapability => ?_⟩
    obtain ⟨s, hs, rfl⟩ := List.mem_map.mp hcapability
    obtain ⟨hmem, hwritable⟩ := List.mem_filter.mp hs
    have hgenerable := h s hmem (isWritableSignal_iff.mp hwritable).1
    exact (validate_build (hids s hmem).2.1).mpr ⟨hgenerable.ranged, hgenerable.command⟩

/-! ## Two devices -/

/-- A drive with one signal. -/
def driveWith (source : SignalSource) (range : Option Range) : DeviceSpec where
  id := "drive"
  connection := none
  signals := [{ id := "speed", signalType := .analogOutput, source, unit := none, range, scale := none }]
  alarms := []

/-- The range from 0 to 1. -/
def unitRange : Range := ⟨0, 0x3FF0000000000000⟩

/-- A topic can be written. -/
theorem topic_generated : GeneratesAll (driveWith (.topic "speed") (some unitRange)) := by
  refine (@generatesAll_iff (fun _ => "") _ (by decide)).mpr fun s hs _ => ?_
  obtain rfl := List.mem_singleton.mp hs
  refine ⟨?_, rfl, ?_⟩
  · rintro pdo ⟨⟩
  · rintro command ⟨⟩

/-- An entry of a process image is not generated. -/
theorem entry_not_generated :
    (driveWith (.ethercatPdo ⟨none, 0, 0, 0, 16, none, none, none, none⟩) (some unitRange)).isValid
      (fun _ => "") = true ∧
    ¬ GeneratesAll
      (driveWith (.ethercatPdo ⟨none, 0, 0, 0, 16, none, none, none, none⟩) (some unitRange)) := by
  refine ⟨by decide, fun h => ?_⟩
  exact absurd h.complete.length_eq (by decide)

end Nazh.Dsl
