import Nazh.Dsl.Workflow

/-!
# Guards of the compiler

Before anything is written the compiler refuses what the runtime cannot do yet, and
specifications in which two ids become one when they are made safe for the graph.
-/

namespace Nazh

open Lib

/-- Unsafe characters become `_`. -/
def replaceUnsafe (s : String) : String :=
  String.ofList (s.toList.map fun c => if ['.', '-', ' '].contains c then '_' else c)

/-- `sanitize_node_id`. -/
def sanitizeNodeId (s : String) : String := replaceUnsafe s

/-- `sanitize_id`. -/
def sanitizeId (s : String) : String := replaceUnsafe s

/-- `action_target_id`. -/
def ActionTarget.id : ActionTarget → String
  | capability id => id
  | action id => id

/-! ## Conditions -/

def isIdentifierStart (c : Char) : Bool := c = '_' || c.isAlpha

def isIdentifierContinue (c : Char) : Bool := c = '_' || c.isAlphanum

/-- The loop of `strip_string_literals`, with the quote that is open. -/
def stripQuoted : Option Char → (escaped : Bool) → List Char → List Char
  | _, _, [] => []
  | some q, escaped, c :: rest =>
      ' ' :: (if escaped then stripQuoted (some q) false rest
        else if c = '\x5c' then stripQuoted (some q) true rest
        else if c = q then stripQuoted none escaped rest
        else stripQuoted (some q) escaped rest)
  | none, escaped, c :: rest =>
      if c = '\x22' ∨ c = '\x27' then ' ' :: stripQuoted (some c) escaped rest
      else c :: stripQuoted none escaped rest

/-- `strip_string_literals`: the quotes and what is between them become spaces. -/
def stripStringLiterals (expr : List Char) : List Char := stripQuoted none false expr

/-- `starts_payload_path`, for the characters from a place on and the one before them. -/
def startsPayloadPath (before : Option Char) (chars : List Char) : Bool :=
  !before.any isIdentifierContinue && "payload".toList.isPrefixOf chars &&
    (chars.drop "payload".length).head? = some '.'

/-- `payload_path_end`: what is left behind a path. A member takes at least two characters. -/
def payloadPathEnd : ℕ → List Char → List Char
  | fuel + 1, '.' :: c :: rest =>
      if isIdentifierStart c then payloadPathEnd fuel (rest.dropWhile isIdentifierContinue)
      else '.' :: c :: rest
  | _, chars => chars

/-- The loop of `strip_payload_paths`. Every round takes at least one character. -/
def stripPaths : ℕ → (before : Option Char) → List Char → List Char
  | fuel + 1, before, c :: rest =>
      if startsPayloadPath before (c :: rest) then
        let after := payloadPathEnd rest.length ((c :: rest).drop "payload".length)
        let path := (c :: rest).take (rest.length + 1 - after.length)
        path.map (fun _ => ' ') ++ stripPaths fuel path.getLast? after
      else c :: stripPaths fuel (some c) rest
  | _, _, chars => chars

/-- `strip_payload_paths`. -/
def stripPayloadPaths (expr : List Char) : List Char := stripPaths expr.length none expr

/-- `is_condition_reserved_word`. -/
def isConditionReservedWord (s : String) : Bool :=
  ["true", "false", "payload", "let", "if", "else", "and", "or", "not", "while", "loop", "for", "in",
    "return", "fn", "import", "export"].contains s

section Conditions

variable (texts : SpecTexts)

/-- The loop of `extract_bare_identifiers`. Every round takes at least one character. -/
def bareIdentifiers : ℕ → List Char → List String
  | fuel + 1, c :: rest =>
      if isIdentifierStart c then
        let ident := String.ofList (c :: rest.takeWhile isIdentifierContinue)
        let more := bareIdentifiers fuel (rest.dropWhile isIdentifierContinue)
        if !isConditionReservedWord ident && !texts.parsesF64 ident then ident :: more else more
      else bareIdentifiers fuel rest
  | _, _ => []

/-- `extract_bare_identifiers`. -/
def extractBareIdentifiers (expr : List Char) : List String :=
  bareIdentifiers texts expr.length expr

/-- `validate_transition_condition_supported`. -/
def validateTransitionConditionSupported (trans : TransitionSpec) : Except CompileError Unit :=
  match extractBareIdentifiers texts
      (stripPayloadPaths (stripStringLiterals trans.condition.toList)) with
  | [] => .ok ()
  | ident :: _ => .error (.stateMachine
      s!"transition \x60{trans.source} -> {trans.target}\x60 的条件 \x60{trans.condition}\x60 引用了裸变量 \x60{ident}\x60；stateMachine 运行时只注入 \x60payload\x60，请改用 \x60payload.{ident}\x60")

end Conditions

/-! ## What the runtime can do -/

/-- `validate_action_supported`. -/
def validateActionSupported (action : ActionSpec) : Except CompileError Unit :=
  match action.target with
  | .action id => .error (.capabilityCall s!"系统动作 \x60{id}\x60 尚未实现，不能生成可执行节点")
  | .capability _ => .ok ()

/-- `validate_supported_runtime_features`. -/
def validateSupportedRuntimeFeatures (texts : SpecTexts) (spec : WorkflowSpec) :
    Except CompileError Unit := do
  ensure (spec.timeout.entries.isEmpty && spec.onTimeout.isNone)
    (.stateMachine "timeout/on_timeout 已建模但 stateMachine 运行时尚未实现超时触发")
  spec.states.entries.forM fun state => do
    state.2.entry.forM validateActionSupported
    state.2.exit.forM validateActionSupported
  spec.transitions.forM fun trans => do
    validateTransitionConditionSupported texts trans
    trans.action.toList.forM validateActionSupported

/-! ## Ports and nodes -/

/-- An action in its place. -/
structure ActionOccurrence where
  portId : String
  /-- How the place is reported. -/
  origin : String
  action : ActionSpec

/-- The node for an action. -/
def ActionOccurrence.nodeId (occurrence : ActionOccurrence) : String :=
  sanitizeNodeId s!"cap_{occurrence.action.target.id}_{occurrence.portId}"

def entryPort (stateName : String) (i : ℕ) : String := s!"entry_{sanitizeId stateName}_{i}"

def exitPort (stateName : String) (i : ℕ) : String := s!"exit_{sanitizeId stateName}_{i}"

def transitionPort (trans : TransitionSpec) (i : ℕ) : String :=
  s!"trans_{sanitizeId trans.source}_{sanitizeId trans.target}_{i}"

/-- All actions, in the order in which the compiler comes to them. -/
def WorkflowSpec.occurrences (spec : WorkflowSpec) : List ActionOccurrence :=
  (spec.states.entries.flatMap fun state =>
    (state.2.entry.zipIdx.map fun action => ⟨entryPort state.1 action.2,
      s!"state \x60{state.1}\x60 entry action {action.2}", action.1⟩) ++
    state.2.exit.zipIdx.map fun action => ⟨exitPort state.1 action.2,
      s!"state \x60{state.1}\x60 exit action {action.2}", action.1⟩) ++
  spec.transitions.zipIdx.flatMap fun trans =>
    trans.1.action.toList.map fun action => ⟨transitionPort trans.1 trans.2,
      s!"transition \x60{trans.1.source}\x60 -> \x60{trans.1.target}\x60 action {trans.2}", action⟩

/-- `insert_unique_sanitized_id`: an id and where it comes from. -/
def insertUniqueSanitizedId (origins : AList fun _ : String => String)
    (sanitized origin : String) : Except CompileError (AList fun _ : String => String) :=
  match origins.lookup sanitized with
  | some existing => .error (.outputBuild
      s!"sanitize 后 ID \x60{sanitized}\x60 发生碰撞：{existing} 与 {origin}")
  | none => .ok (origins.insert sanitized origin)

/-- The loops of `validate_sanitized_ids`. -/
def insertOrigins : List ActionOccurrence → (portOrigins nodeOrigins : AList fun _ : String => String) →
    Except CompileError Unit
  | [], _, _ => .ok ()
  | o :: rest, portOrigins, nodeOrigins => do
      let portOrigins ← insertUniqueSanitizedId portOrigins o.portId o.origin
      let nodeOrigins ← insertUniqueSanitizedId nodeOrigins o.nodeId
        s!"{o.origin}, target \x60{o.action.target.id}\x60"
      insertOrigins rest portOrigins nodeOrigins

/-- `validate_sanitized_ids`. -/
def validateSanitizedIds (spec : WorkflowSpec) : Except CompileError Unit :=
  insertOrigins spec.occurrences ∅ ∅

theorem insertUniqueSanitizedId_eq_ok {origins origins' : AList fun _ : String => String}
    {sanitized origin : String} : insertUniqueSanitizedId origins sanitized origin = .ok origins' ↔
      sanitized ∉ origins ∧ origins' = origins.insert sanitized origin := by
  rw [insertUniqueSanitizedId, ← AList.lookup_eq_none]
  cases origins.lookup sanitized with
  | some existing => simp
  | none => simp [eq_comm]

/-- The ids are different, and none is there already. -/
def FreshIds (ids : List String) (origins : AList fun _ : String => String) : Prop :=
  ids.Nodup ∧ ∀ id ∈ ids, id ∉ origins

theorem freshIds_cons (origin : String) {id : String} {ids : List String}
    {origins : AList fun _ : String => String} :
    FreshIds (id :: ids) origins ↔ id ∉ origins ∧ FreshIds ids (origins.insert id origin) := by
  simp only [FreshIds, List.nodup_cons, List.forall_mem_cons, AList.mem_insert, not_or]
  constructor
  · intro h
    obtain ⟨⟨hid, hids⟩, hnew, hrest⟩ := h
    refine ⟨hnew, hids, ?_⟩
    intro other hother
    exact ⟨fun heq => hid (heq ▸ hother), hrest other hother⟩
  · intro h
    obtain ⟨hnew, hids, hrest⟩ := h
    exact ⟨⟨fun hmem => (hrest id hmem).1 rfl, hids⟩, hnew, fun other hother => (hrest other hother).2⟩

theorem insertOrigins_eq_ok {occurrences : List ActionOccurrence}
    {portOrigins nodeOrigins : AList fun _ : String => String} :
    insertOrigins occurrences portOrigins nodeOrigins = .ok () ↔
      FreshIds (occurrences.map ActionOccurrence.portId) portOrigins ∧
        FreshIds (occurrences.map ActionOccurrence.nodeId) nodeOrigins := by
  induction occurrences generalizing portOrigins nodeOrigins with
  | nil => simp [insertOrigins, FreshIds]
  | cons o rest ih =>
      rw [List.map_cons, List.map_cons, freshIds_cons o.origin,
        freshIds_cons s!"{o.origin}, target \x60{o.action.target.id}\x60"]
      simp only [insertOrigins, bind_eq_ok, insertUniqueSanitizedId_eq_ok, ih]
      constructor
      · intro h
        obtain ⟨ports, ⟨hport, rfl⟩, nodes, ⟨hnode, rfl⟩, hports, hnodes⟩ := h
        exact ⟨⟨hport, hports⟩, hnode, hnodes⟩
      · intro h
        obtain ⟨⟨hport, hports⟩, hnode, hnodes⟩ := h
        exact ⟨_, ⟨hport, rfl⟩, _, ⟨hnode, rfl⟩, hports, hnodes⟩

/-- The ids are accepted just if no two actions share one. -/
theorem validateSanitizedIds_eq_ok {spec : WorkflowSpec} : validateSanitizedIds spec = .ok () ↔
    (spec.occurrences.map ActionOccurrence.portId).Nodup ∧
      (spec.occurrences.map ActionOccurrence.nodeId).Nodup := by
  rw [validateSanitizedIds, insertOrigins_eq_ok]
  simp [FreshIds]

end Nazh
