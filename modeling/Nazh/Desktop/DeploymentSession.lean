import Mathlib.Data.List.Sort
import Nazh.Core.Text
import Nazh.Json.Read
import Nazh.Lib.Async

/-!
# Deployment sessions

The sessions that are deployed in a workspace stand in one file, so that they can be restored
after a start. A command reads the file, changes the state that it holds, and writes the file
anew; the last session takes the file with it. No command waits for another.
-/

namespace Nazh

open Lib

/-! ## Sessions -/

structure PersistedDeploymentSession where
  version : UInt8
  projectId : String
  projectName : String
  environmentId : String
  environmentName : String
  deployedAt : String
  runtimeAstText : String
  deriving DecidableEq

/-- The file. -/
structure PersistedDeploymentSessionCollection where
  version : UInt8
  activeProjectId : Option String
  sessions : List PersistedDeploymentSession
  deriving DecidableEq

structure PersistedDeploymentSessionState where
  version : UInt8
  activeProjectId : Option String
  sessions : List PersistedDeploymentSession
  deriving DecidableEq

/-- The fields of a structure, which may also be written as an array of their values. -/
def structFields (names : List String) : Value → Option Fields
  | .object fields => some fields
  | .array items => if items.length = names.length then some (names.zip items) else none
  | _ => none

namespace PersistedDeploymentSession

def names : List String :=
  ["version", "projectId", "projectName", "environmentId", "environmentName", "deployedAt",
    "runtimeAstText"]

def ofValue (v : Value) : Option PersistedDeploymentSession := do
  let fields ← structFields names v
  let text (key : String) := required fields key Value.asStr
  some ⟨← required fields "version" Value.toU8, ← text "projectId", ← text "projectName",
    ← text "environmentId", ← text "environmentName", ← text "deployedAt",
    ← text "runtimeAstText"⟩

def toValue (session : PersistedDeploymentSession) : Value :=
  .object [("deployedAt", .string session.deployedAt),
    ("environmentId", .string session.environmentId),
    ("environmentName", .string session.environmentName),
    ("projectId", .string session.projectId), ("projectName", .string session.projectName),
    ("runtimeAstText", .string session.runtimeAstText),
    ("version", .number (.ofNat session.version.toNat))]

@[simp] theorem ofValue_toValue (session : PersistedDeploymentSession) :
    ofValue session.toValue = some session := by
  simp [ofValue, toValue, structFields, required, List.lookup_cons, Value.asStr]

end PersistedDeploymentSession

namespace PersistedDeploymentSessionCollection

def ofValue (v : Value) : Option PersistedDeploymentSessionCollection := do
  let fields ← v.asObject
  some ⟨← required fields "version" Value.toU8, ← optional fields "activeProjectId" Value.asStr,
    ← required fields "sessions" (Value.toList PersistedDeploymentSession.ofValue)⟩

def toValue (collection : PersistedDeploymentSessionCollection) : Value :=
  .object [("activeProjectId", (collection.activeProjectId.map Value.string).getD .null),
    ("sessions", .array (collection.sessions.map PersistedDeploymentSession.toValue)),
    ("version", .number (.ofNat collection.version.toNat))]

@[simp] theorem ofValue_toValue (collection : PersistedDeploymentSessionCollection) :
    ofValue collection.toValue = some collection := by
  obtain ⟨version, active, sessions⟩ := collection
  have hsessions : (Value.array (sessions.map PersistedDeploymentSession.toValue)).toList
      PersistedDeploymentSession.ofValue = some sessions := by
    rw [Value.toList_map (g := id) fun session _ => session.ofValue_toValue, List.map_id]
  cases active <;> simp [ofValue, toValue, Value.asObject, required, optional, List.lookup_cons,
    Value.asStr, hsessions]

end PersistedDeploymentSessionCollection

/-! ## Normal states -/

def sortDeploymentSessionsByFreshness (sessions : List PersistedDeploymentSession) :
    List PersistedDeploymentSession :=
  sessions.insertionSort fun left right => right.deployedAt ≤ left.deployedAt

/-- The loop of `normalize_deployment_sessions`: the first session of each project. -/
def firstOfProjects (seen : List String) :
    List PersistedDeploymentSession → List PersistedDeploymentSession
  | [] => []
  | session :: sessions =>
      if session.projectId ∈ seen then firstOfProjects seen sessions
      else session :: firstOfProjects (session.projectId :: seen) sessions

def normalizeDeploymentSessions (sessions : List PersistedDeploymentSession) :
    List PersistedDeploymentSession :=
  firstOfProjects [] (sortDeploymentSessionsByFreshness sessions)

/-- A text without the white space around it, if something is left. -/
def trimmed (text : Option String) : Option String :=
  (text.map Text.trim).filter fun value => !value.isEmpty

def normalizeDeploymentSessionState (state : PersistedDeploymentSessionState) :
    PersistedDeploymentSessionState :=
  let sessions := normalizeDeploymentSessions state.sessions
  { version := 3
    activeProjectId := (trimmed state.activeProjectId).filter fun value =>
      sessions.any fun session => session.projectId = value
    sessions }

/-! ## The file -/

/-- The text of the file, as a JSON parser sees it. -/
inductive SessionText
  | json (value : Value)
  | malformed
  deriving DecidableEq

/-- The error of a command, by what failed: `读取`, `解析` or `删除` of `deployment-session.json`. -/
inductive SessionFileError
  | read
  | parse
  | delete
  deriving DecidableEq

/-- The file; `none` while there is none. -/
abbrev SessionFile := Option SessionText

abbrev SessionTask := Async SessionFile

def noSessions : PersistedDeploymentSessionState := ⟨3, none, []⟩

/-- `value.get("sessions").is_some_and(Value::is_array)`. -/
def hasSessions (value : Value) : Bool :=
  match value.get "sessions" with
  | some (.array _) => true
  | _ => false

/-- What the text of the file says. -/
def parseDeploymentSessionState :
    SessionText → Except SessionFileError PersistedDeploymentSessionState
  | .malformed => .error .parse
  | .json value =>
      if hasSessions value then
        match PersistedDeploymentSessionCollection.ofValue value with
        | none => .error .parse
        | some c => .ok (normalizeDeploymentSessionState ⟨c.version, c.activeProjectId, c.sessions⟩)
      else
        match PersistedDeploymentSession.ofValue value with
        | none => .error .parse
        | some session => .ok (normalizeDeploymentSessionState ⟨1, none, [session]⟩)

namespace SessionTask

def pathExists : SessionTask Bool := Async.look Option.isSome

/-- `fs::read_to_string`, after the path was seen to exist. -/
def readToString : SessionTask SessionFile := Async.act Option.isSome id id

/-- `fs::create_dir_all`, which does nothing to the file. -/
def createDirAll : SessionTask Unit := Async.look fun _ => ()

/-- `fs::remove_file`. -/
def removeFile (believes : SessionFile → Bool) : SessionTask (Except SessionFileError Unit) :=
  Async.act believes (fun _ => none) fun file => if file.isSome then .ok () else .error .delete

/-- `fs::write`. -/
def writeFile (believes : SessionFile → Bool) (text : SessionText) : SessionTask Unit :=
  Async.act believes (fun _ => some text) fun _ => ()

end SessionTask

open SessionTask

/-- What a command has read: the file, which it believes in, and the state that the code has. -/
structure SessionsRead where
  seen : SessionFile
  state : PersistedDeploymentSessionState

def readDeploymentSessionState : SessionTask (Except SessionFileError SessionsRead) := do
  if !(← pathExists) then return .ok ⟨none, noSessions⟩
  match ← readToString with
  | none => return .error .read
  | some text => return (parseDeploymentSessionState text).map (⟨some text, ·⟩)

/-- A file is written over only as it was read, and removed only then or when it is gone. -/
def writeDeploymentSessionState (seen : SessionFile) (state : PersistedDeploymentSessionState) :
    SessionTask (Except SessionFileError Unit) := do
  let normalized := normalizeDeploymentSessionState state
  if normalized.sessions.isEmpty then
    if ← pathExists then removeFile fun file => file = seen ∨ file = none
    else return .ok ()
  else
    createDirAll
    let payload : PersistedDeploymentSessionCollection :=
      ⟨3, normalized.activeProjectId, normalized.sessions⟩
    writeFile (fun file => file = seen) (.json payload.toValue)
    return .ok ()

/-! ## The commands -/

/-- Read the state, change it, and write it. -/
def updateSessionState
    (change : PersistedDeploymentSessionState → PersistedDeploymentSessionState) :
    SessionTask (Except SessionFileError Unit) := do
  match ← readDeploymentSessionState with
  | .error e => return .error e
  | .ok read => writeDeploymentSessionState read.seen (change read.state)

inductive DeploymentSessionCommand
  | save (session : PersistedDeploymentSession) (activeProjectId : Option String)
  | setActive (projectId : Option String)
  | remove (projectId : String)
  | clear
  deriving DecidableEq

namespace DeploymentSessionCommand

/-- `save_deployment_session_file`. -/
def saved (session : PersistedDeploymentSession) (activeProjectId : Option String)
    (state : PersistedDeploymentSessionState) : PersistedDeploymentSessionState :=
  { state with
    sessions := state.sessions.filter (fun current => current.projectId ≠ session.projectId) ++
      [session]
    activeProjectId := match activeProjectId with
      | none => state.activeProjectId
      | some id => trimmed (some id) }

/-- `set_deployment_session_active_project_file`. -/
def activated (projectId : Option String) (state : PersistedDeploymentSessionState) :
    PersistedDeploymentSessionState :=
  { state with activeProjectId := trimmed projectId }

/-- `remove_deployment_session_file`. -/
def removed (targetProjectId : String) (state : PersistedDeploymentSessionState) :
    PersistedDeploymentSessionState :=
  { state with
    sessions := state.sessions.filter fun session => session.projectId ≠ targetProjectId
    activeProjectId :=
      if state.activeProjectId = some targetProjectId then none else state.activeProjectId }

/-- What a command does with the file. -/
def program : DeploymentSessionCommand → SessionTask (Except SessionFileError Unit)
  | .save session activeProjectId => updateSessionState (saved session activeProjectId)
  | .setActive projectId => updateSessionState (activated projectId)
  | .remove projectId =>
      let targetProjectId := Text.trim projectId
      if targetProjectId.isEmpty then return .ok ()
      else updateSessionState (removed targetProjectId)
  | .clear => do
      if !(← pathExists) then return .ok ()
      removeFile fun _ => true

/-- What a command alone makes of the file. -/
def alone (command : DeploymentSessionCommand) (file : SessionFile) : SessionFile :=
  (command.program.run file).2

end DeploymentSessionCommand

/-! ## A command acts at once -/

section Commits

variable {seen : SessionFile} {state : PersistedDeploymentSessionState}

/-- What is left of a file after a state was written. -/
def fileOf (state : PersistedDeploymentSessionState) : SessionFile :=
  let normalized := normalizeDeploymentSessionState state
  if normalized.sessions.isEmpty then none
  else some (.json (PersistedDeploymentSessionCollection.toValue
    ⟨3, normalized.activeProjectId, normalized.sessions⟩))

/-- To write a state is to act at once on the file that was read. -/
theorem commits_write {alone : SessionFile → SessionFile} (hseen : alone seen = fileOf state)
    (hnone : (normalizeDeploymentSessionState state).sessions = [] → alone none = none) :
    (writeDeploymentSessionState seen state).Commits alone := by
  unfold writeDeploymentSessionState
  by_cases hempty : (normalizeDeploymentSessionState state).sessions.isEmpty = true
  · have halone := hnone (List.isEmpty_iff.mp hempty)
    have hgone : alone seen = none := by simp [hseen, fileOf, hempty]
    simp only [hempty, if_true]
    intro file _
    cases file with
    | none => exact .inr ⟨halone.symm, True.intro⟩
    | some text =>
        refine .inl ⟨rfl, fun file hbelieves => .inr ⟨?_, True.intro⟩⟩
        rcases of_decide_eq_true hbelieves with rfl | rfl
        · exact hgone.symm
        · exact halone.symm
  · simp only [hempty]
    intro file _
    refine .inl ⟨rfl, fun file hbelieves => .inr ⟨?_, True.intro⟩⟩
    obtain rfl := of_decide_eq_true hbelieves
    simp [hseen, fileOf, hempty]

/-- Whatever the file is, afterwards it holds the state. -/
theorem run_write (file : SessionFile) :
    ((writeDeploymentSessionState seen state).run file).2 = fileOf state := by
  by_cases hempty : (normalizeDeploymentSessionState state).sessions.isEmpty = true
  · cases file <;>
      simp [writeDeploymentSessionState, fileOf, hempty, pathExists, removeFile, Async.look,
        Async.act]
  · simp [writeDeploymentSessionState, fileOf, hempty, createDirAll, writeFile, Async.look,
      Async.act]

/-- What a file says; no file says that there are no sessions. -/
def stateOf : SessionFile → Except SessionFileError PersistedDeploymentSessionState
  | none => .ok noSessions
  | some text => parseDeploymentSessionState text

/-- Alone, a command changes what the file says, if that can be read. -/
theorem run_update (change : PersistedDeploymentSessionState → PersistedDeploymentSessionState)
    (file : SessionFile) :
    ((updateSessionState change).run file).2 =
      match stateOf file with
      | .error _ => file
      | .ok state => fileOf (change state) := by
  cases file with
  | none =>
      simp [updateSessionState, readDeploymentSessionState, pathExists, Async.look, run_write,
        stateOf]
  | some text =>
      cases hparse : parseDeploymentSessionState text <;>
        simp [updateSessionState, readDeploymentSessionState, pathExists, readToString, Async.look,
          Async.act, run_write, stateOf, hparse, Except.map]

/-- To change a state is to act at once, if no change leaves nothing but one that would make
nothing of nothing. -/
theorem commits_update (change : PersistedDeploymentSessionState → PersistedDeploymentSessionState)
    (hnone : ∀ state, (normalizeDeploymentSessionState (change state)).sessions = [] →
      (normalizeDeploymentSessionState (change noSessions)).sessions = []) :
    (updateSessionState change).Commits fun file => ((updateSessionState change).run file).2 := by
  have hgone (state : PersistedDeploymentSessionState)
      (hempty : (normalizeDeploymentSessionState (change state)).sessions = []) :
      ((updateSessionState change).run none).2 = none := by
    rw [run_update]
    simp [stateOf, fileOf, hnone state hempty]
  intro file _
  refine .inl ⟨rfl, ?_⟩
  cases file with
  | none => exact commits_write (run_update change none) (hgone noSessions)
  | some text =>
      intro file hexists
      obtain ⟨text, rfl⟩ := Option.isSome_iff_exists.mp hexists
      have hrun := run_update change (some text)
      simp only [stateOf] at hrun
      cases hparse : parseDeploymentSessionState text with
      | error e =>
          rw [hparse] at hrun
          refine .inr ⟨hrun.symm, ?_⟩
          simp only [id, Async.bind, pure, hparse, Except.map, Async.Silent]
      | ok state =>
          rw [hparse] at hrun
          refine .inl ⟨rfl, ?_⟩
          simp only [id, Async.bind, pure, hparse, Except.map]
          exact commits_write hrun (hgone state)

end Commits

/-! ## Sessions of a normal state -/

section Normal

variable {seen : List String} {sessions : List PersistedDeploymentSession}
  {session : PersistedDeploymentSession}

theorem mem_of_mem_firstOfProjects (h : session ∈ firstOfProjects seen sessions) :
    session ∈ sessions ∧ session.projectId ∉ seen := by
  induction sessions generalizing seen with
  | nil => exact absurd h List.not_mem_nil
  | cons first rest ih =>
      by_cases hseen : first.projectId ∈ seen
      · rw [firstOfProjects, if_pos hseen] at h
        exact (ih h).imp_left (List.mem_cons_of_mem _)
      · rw [firstOfProjects, if_neg hseen] at h
        rcases List.mem_cons.mp h with rfl | hrest
        · exact ⟨List.mem_cons_self, hseen⟩
        · exact (ih hrest).imp (List.mem_cons_of_mem _) fun hnot hmem =>
            hnot (List.mem_cons_of_mem _ hmem)

theorem nodup_firstOfProjects :
    ((firstOfProjects seen sessions).map PersistedDeploymentSession.projectId).Nodup := by
  induction sessions generalizing seen with
  | nil => exact List.nodup_nil
  | cons first rest ih =>
      by_cases hseen : first.projectId ∈ seen
      · rw [firstOfProjects, if_pos hseen]
        exact ih
      · rw [firstOfProjects, if_neg hseen, List.map_cons, List.nodup_cons]
        refine ⟨fun hmem => ?_, ih⟩
        obtain ⟨other, hother, heq⟩ := List.mem_map.mp hmem
        exact (mem_of_mem_firstOfProjects hother).2 (heq ▸ List.mem_cons_self)

/-- Of sessions of different projects none is left out. -/
theorem firstOfProjects_eq_self
    (hnodup : (sessions.map PersistedDeploymentSession.projectId).Nodup)
    (hseen : ∀ session ∈ sessions, session.projectId ∉ seen) :
    firstOfProjects seen sessions = sessions := by
  induction sessions generalizing seen with
  | nil => rfl
  | cons first rest ih =>
      rw [List.map_cons, List.nodup_cons] at hnodup
      obtain ⟨hfirst, hrest⟩ := List.forall_mem_cons.mp hseen
      rw [firstOfProjects, if_neg hfirst, ih hnodup.2]
      intro other hother hmem
      rcases List.mem_cons.mp hmem with heq | hmem
      · exact hnodup.1 (heq ▸ List.mem_map_of_mem hother)
      · exact hrest other hother hmem

theorem nodup_normalize :
    ((normalizeDeploymentSessions sessions).map PersistedDeploymentSession.projectId).Nodup :=
  nodup_firstOfProjects

/-- A normal state has the sessions of the state, if they are of different projects. -/
theorem mem_normalize (hnodup : (sessions.map PersistedDeploymentSession.projectId).Nodup) :
    session ∈ normalizeDeploymentSessions sessions ↔ session ∈ sessions := by
  have hperm := List.perm_insertionSort
    (fun left right : PersistedDeploymentSession => right.deployedAt ≤ left.deployedAt) sessions
  rw [normalizeDeploymentSessions, sortDeploymentSessionsByFreshness, firstOfProjects_eq_self]
  · exact hperm.mem_iff
  · exact (hperm.map _).nodup_iff.mpr hnodup
  · exact fun _ _ => List.not_mem_nil

/-- No state becomes empty. -/
theorem normalize_eq_nil (h : normalizeDeploymentSessions sessions = []) : sessions = [] := by
  have hperm := List.perm_insertionSort
    (fun left right : PersistedDeploymentSession => right.deployedAt ≤ left.deployedAt) sessions
  unfold normalizeDeploymentSessions sortDeploymentSessionsByFreshness at h
  cases hsorted : sessions.insertionSort fun left right => right.deployedAt ≤ left.deployedAt with
  | nil => exact List.Perm.nil_eq (hsorted ▸ hperm) |>.symm
  | cons first rest =>
      rw [hsorted] at h
      simp [firstOfProjects] at h

end Normal

/-! ## Commands on what the file says -/

/-- The sessions in a file. -/
def sessionsIn (file : SessionFile) : List PersistedDeploymentSession :=
  match stateOf file with
  | .ok state => state.sessions
  | .error _ => []

section Effects

variable {file : SessionFile} {state : PersistedDeploymentSessionState}
  {session : PersistedDeploymentSession}

theorem normalizeState_of_parse {text : SessionText} (h : parseDeploymentSessionState text = .ok state) :
    ∃ before, state = normalizeDeploymentSessionState before := by
  unfold parseDeploymentSessionState at h
  split at h
  · cases h
  · rename_i value
    split at h <;> split at h <;> cases h <;> exact ⟨_, rfl⟩

/-- The sessions in a file are of different projects. -/
theorem nodup_of_stateOf (h : stateOf file = .ok state) :
    (state.sessions.map PersistedDeploymentSession.projectId).Nodup := by
  cases file with
  | none =>
      cases h
      exact List.nodup_nil
  | some text =>
      obtain ⟨before, rfl⟩ := normalizeState_of_parse h
      exact nodup_normalize

theorem parse_toValue (collection : PersistedDeploymentSessionCollection) :
    parseDeploymentSessionState (.json collection.toValue) =
      .ok (normalizeDeploymentSessionState
        ⟨collection.version, collection.activeProjectId, collection.sessions⟩) := by
  have hsessions : hasSessions collection.toValue = true := by
    simp [hasSessions, PersistedDeploymentSessionCollection.toValue, Value.get, Value.asObject,
      List.lookup_cons]
  simp [parseDeploymentSessionState, hsessions]

/-- What was written can be read. -/
theorem stateOf_fileOf (hnodup : (state.sessions.map PersistedDeploymentSession.projectId).Nodup) :
    ∃ after, stateOf (fileOf state) = .ok after ∧
      ∀ session, session ∈ after.sessions ↔ session ∈ state.sessions := by
  by_cases hempty : (normalizeDeploymentSessionState state).sessions.isEmpty = true
  · have hnil := normalize_eq_nil (List.isEmpty_iff.mp hempty)
    refine ⟨noSessions, by simp [fileOf, hempty, stateOf], fun session => ?_⟩
    simp [hnil, noSessions]
  · refine ⟨normalizeDeploymentSessionState ⟨3, (normalizeDeploymentSessionState state).activeProjectId,
      (normalizeDeploymentSessionState state).sessions⟩, ?_, fun session => ?_⟩
    · simp only [fileOf, hempty]
      exact parse_toValue _
    · exact (mem_normalize nodup_normalize).trans (mem_normalize hnodup)

/-- Which sessions a command leaves that changes what the file says. -/
theorem stateOf_update (change : PersistedDeploymentSessionState → PersistedDeploymentSessionState)
    (h : stateOf file = .ok state)
    (hnodup : ((change state).sessions.map PersistedDeploymentSession.projectId).Nodup) :
    ∃ after, stateOf ((updateSessionState change).run file).2 = .ok after ∧
      ∀ session, session ∈ after.sessions ↔ session ∈ (change state).sessions := by
  rw [run_update, h]
  exact stateOf_fileOf hnodup

end Effects

namespace DeploymentSessionCommand

variable {file start : SessionFile} {state : PersistedDeploymentSessionState}
  {session : PersistedDeploymentSession} {command : DeploymentSessionCommand}
  {commands order : List DeploymentSessionCommand}

/-- A command acts at once, if the file it changes is the one it has read. -/
theorem commits (command : DeploymentSessionCommand) : command.program.Commits command.alone := by
  have hnothing : (normalizeDeploymentSessions []) = [] := rfl
  cases command with
  | save session active =>
      refine commits_update (saved session active) fun state hempty => ?_
      have hnil : (saved session active state).sessions = [] := normalize_eq_nil hempty
      simp [saved] at hnil
  | setActive id => exact commits_update _ fun state _ => hnothing
  | remove id =>
      unfold alone program
      simp only
      generalize Text.trim id = target
      by_cases hblank : target.isEmpty = true
      · simp only [hblank, if_true]
        exact fun file => rfl
      · simp only [hblank]
        exact commits_update _ fun state _ => hnothing
  | clear =>
      intro file _
      cases file with
      | none => exact .inr ⟨rfl, True.intro⟩
      | some text =>
          refine .inl ⟨rfl, fun file _ => .inr ⟨?_, True.intro⟩⟩
          cases file with
          | none => rfl
          | some text => rfl

/-- Which sessions a command leaves. -/
def leaves (session : PersistedDeploymentSession) (before : Prop) : DeploymentSessionCommand → Prop
  | .save new _ => session = new ∨ before ∧ session.projectId ≠ new.projectId
  | .setActive _ => before
  | .remove id => before ∧ ((Text.trim id).isEmpty = true ∨ session.projectId ≠ Text.trim id)
  | .clear => False

/-- Alone, a command on a file that can be read leaves one that can be read. -/
theorem stateOf_alone (h : stateOf file = .ok state) (command : DeploymentSessionCommand) :
    ∃ after, stateOf (command.alone file) = .ok after ∧
      ∀ session, session ∈ after.sessions ↔ command.leaves session (session ∈ state.sessions) := by
  have hnodup := nodup_of_stateOf h
  have hfilter (p : PersistedDeploymentSession → Bool) :
      ((state.sessions.filter p).map PersistedDeploymentSession.projectId).Nodup :=
    hnodup.sublist (List.filter_sublist.map _)
  cases command with
  | save new active =>
      obtain ⟨after, hafter, hmem⟩ := stateOf_update (saved new active) h (by
        simp only [saved, List.map_append, List.map_cons, List.map_nil]
        refine (hfilter _).append (List.nodup_singleton _) ?_
        simp [List.disjoint_singleton])
      refine ⟨after, hafter, fun session => (hmem session).trans ?_⟩
      simp [saved, leaves, or_comm]
  | setActive id =>
      obtain ⟨after, hafter, hmem⟩ := stateOf_update (activated id) h hnodup
      exact ⟨after, hafter, hmem⟩
  | remove id =>
      unfold alone program
      by_cases hblank : (Text.trim id).isEmpty = true
      · simp only [hblank, if_true]
        exact ⟨state, h, by simp [leaves, hblank]⟩
      · simp only [hblank]
        obtain ⟨after, hafter, hmem⟩ := stateOf_update (removed (Text.trim id)) h (hfilter _)
        refine ⟨after, hafter, fun session => (hmem session).trans ?_⟩
        simp [removed, leaves, hblank]
  | clear =>
      refine ⟨noSessions, ?_, fun session => ?_⟩
      · cases file <;> rfl
      · simp [noSessions, leaves]

/-- A file that cannot be read is left as it is, unless it is removed. -/
theorem alone_of_error {e : SessionFileError} (h : stateOf file = .error e)
    (command : DeploymentSessionCommand) :
    command.alone file = file ∨ command.alone file = none := by
  cases command with
  | remove id =>
      left
      unfold alone program
      by_cases hblank : (Text.trim id).isEmpty = true
      · simp [hblank]
      · simp [hblank, run_update, h]
  | clear =>
      right
      cases file <;> rfl
  | _ =>
      left
      simp [alone, program, run_update, h]

/-- What is found in a file after a command is what the command leaves. -/
theorem leaves_of_mem (h : session ∈ sessionsIn (command.alone file)) :
    command.leaves session (session ∈ sessionsIn file) := by
  cases hst : stateOf file with
  | ok state =>
      obtain ⟨after, hafter, hmem⟩ := stateOf_alone hst command
      simp only [sessionsIn, hst, hafter] at h ⊢
      exact (hmem session).mp h
  | error e =>
      rcases alone_of_error hst command with heq | heq
      · simp [heq, sessionsIn, hst] at h
      · simp [heq, sessionsIn, stateOf, noSessions] at h

/-- The file after commands one after another. -/
def afterAll (order : List DeploymentSessionCommand) (start : SessionFile) : SessionFile :=
  order.foldl (fun file command => command.alone file) start

theorem afterAll_cons (rest : List DeploymentSessionCommand) :
    afterAll (command :: rest) start = afterAll rest (command.alone start) :=
  List.foldl_cons ..

/-- Nobody saves a session of a project. -/
def NotSaved (projectId : String) (commands : List DeploymentSessionCommand) : Prop :=
  ∀ session active, save session active ∈ commands → session.projectId ≠ projectId

theorem absent_afterAll {projectId : String} (hsaves : NotSaved projectId order)
    (h : ∀ session ∈ sessionsIn start, session.projectId ≠ projectId) :
    ∀ session ∈ sessionsIn (afterAll order start), session.projectId ≠ projectId := by
  induction order generalizing start with
  | nil => exact h
  | cons command rest ih =>
      rw [afterAll_cons]
      refine ih (fun session active hmem => hsaves session active (List.mem_cons_of_mem _ hmem)) ?_
      intro session hmem
      have hleft := leaves_of_mem hmem
      cases command with
      | save new active =>
          rcases hleft with rfl | ⟨hbefore, -⟩
          · exact hsaves session active List.mem_cons_self
          · exact h session hbefore
      | setActive id => exact h session hleft
      | remove id => exact h session hleft.1
      | clear => exact hleft.elim

/-- A project that is removed, and not saved, is not in the file afterwards. -/
theorem removed_afterAll {id : String} (hid : (Text.trim id).isEmpty = false)
    (hremove : remove id ∈ order) (hsaves : NotSaved (Text.trim id) order) :
    ∀ session ∈ sessionsIn (afterAll order start), session.projectId ≠ Text.trim id := by
  induction order generalizing start with
  | nil => exact absurd hremove List.not_mem_nil
  | cons command rest ih =>
      have hrest : NotSaved (Text.trim id) rest := fun session active hmem =>
        hsaves session active (List.mem_cons_of_mem _ hmem)
      rcases List.mem_cons.mp hremove with rfl | hmem
      · rw [afterAll_cons]
        refine absent_afterAll hrest fun session hmem => ?_
        have hleft := leaves_of_mem hmem
        exact hleft.2.resolve_left (by simp [hid])
      · rw [afterAll_cons]
        exact ih hmem hrest

/-- Whether a command is about other sessions only. -/
def Spares (projectId : String) : DeploymentSessionCommand → Prop
  | .save session _ => session.projectId ≠ projectId
  | .setActive _ => True
  | .remove id => Text.trim id ≠ projectId
  | .clear => False

/-- A session that is saved is in the file afterwards, if all other commands spare its project. -/
theorem saved_afterAll {active : Option String} (hstart : stateOf start = .ok state)
    (hsave : save session active ∈ order ∨ session ∈ state.sessions)
    (hspares : ∀ c ∈ order, c = save session active ∨ c.Spares session.projectId) :
    session ∈ sessionsIn (afterAll order start) := by
  induction order generalizing start state with
  | nil =>
      simpa [afterAll, sessionsIn, hstart] using hsave
  | cons command rest ih =>
      obtain ⟨hcommand, hrest⟩ := List.forall_mem_cons.mp hspares
      obtain ⟨after, hafter, hmem⟩ := stateOf_alone hstart command
      rw [afterAll_cons]
      refine ih hafter ?_ hrest
      by_cases hnow : command = save session active
      · exact .inr ((hmem session).mpr (hnow ▸ .inl rfl))
      · refine hsave.imp (fun h => (List.mem_cons.mp h).resolve_left (Ne.symm hnow)) fun h => ?_
        have hspare := hcommand.resolve_left hnow
        rw [hmem session]
        cases command with
        | save new other => exact .inr ⟨h, hspare.symm⟩
        | setActive id => exact h
        | remove id => exact ⟨h, .inr hspare.symm⟩
        | clear => exact hspare.elim

/-- The commands of a workspace, started together. -/
def system (start : SessionFile) (commands : List DeploymentSessionCommand) :
    Machine (Async.Tasks SessionFile (Except SessionFileError Unit)) ℕ :=
  Async.system start (commands.map program)

/-- If every command writes over the file, or removes it, only as it has read it, the commands leave
what they leave one after another. -/
theorem sessions_serial (start : SessionFile) (commands : List DeploymentSessionCommand)
    (s : Async.Tasks SessionFile (Except SessionFileError Unit))
    (hs : (system start commands).ReachesUnder (fun s i => s.believes i = true) s)
    (hdone : ∀ t ∈ s.tasks, t.isDone = true) :
    (∃ order, order.Perm commands ∧ s.store = afterAll order start) ∧
      (∀ id, remove id ∈ commands → (Text.trim id).isEmpty = false →
        NotSaved (Text.trim id) commands →
        ∀ session ∈ sessionsIn s.store, session.projectId ≠ Text.trim id) ∧
      ∀ session active state, save session active ∈ commands → stateOf start = .ok state →
        (∀ c ∈ commands, c = save session active ∨ c.Spares session.projectId) →
        session ∈ sessionsIn s.store := by
  obtain ⟨order, hperm, hstore⟩ := Async.serializable (fun c _ => commits c) hs hdone
  replace hstore : s.store = afterAll order start := hstore
  refine ⟨⟨order, hperm, hstore⟩, ?_, ?_⟩
  · intro id hremove hid hsaves
    rw [hstore]
    exact removed_afterAll hid (hperm.mem_iff.mpr hremove) fun session active hmem =>
      hsaves session active (hperm.mem_iff.mp hmem)
  · intro session active state hsave hstart hspares
    rw [hstore]
    exact saved_afterAll hstart (.inl (hperm.mem_iff.mpr hsave)) fun c hc =>
      hspares c (hperm.mem_iff.mp hc)

/-- Sessions of two projects in a file. -/
def twoSessions : SessionFile :=
  fileOf ⟨3, none, [⟨3, "a", "", "", "", "", ""⟩, ⟨3, "b", "", "", "", "", ""⟩]⟩

/-- Whether all tasks are done and the file has sessions of some projects. -/
def endsWith (projects : List String) (s : Async.Tasks SessionFile (Except SessionFileError Unit)) :
    Bool :=
  s.tasks.all Async.isDone &&
    ((sessionsIn s.store).map PersistedDeploymentSession.projectId == projects)

theorem of_endsWith {projects : List String}
    {s : Async.Tasks SessionFile (Except SessionFileError Unit)} (h : endsWith projects s = true) :
    (∀ t ∈ s.tasks, t.isDone = true) ∧
      (sessionsIn s.store).map PersistedDeploymentSession.projectId = projects := by
  rw [endsWith, Bool.and_eq_true, List.all_eq_true, beq_iff_eq] at h
  exact h

/-- Two removals one after the other leave nothing. -/
theorem removals_serial : ∃ s, (system twoSessions [remove "a", remove "b"]).ReachesUnder
      (fun s i => s.believes i = true) s ∧
    ∃ order, order.Perm [remove "a", remove "b"] ∧ s.store = afterAll order twoSessions := by
  have hrun : ((system twoSessions [remove "a", remove "b"]).replay Async.Tasks.believes
      ⟨twoSessions, [remove "a", remove "b"].map program⟩ [0, 0, 0, 0, 1, 1, 1, 1]).any
        (endsWith []) = true := by
    decide
  obtain ⟨s, hs, hend⟩ := Machine.exists_reachesUnder_of_replay rfl hrun
  exact ⟨s, hs, (sessions_serial _ _ s hs (of_endsWith hend).1).1⟩

/-- Two removals that have both read the file before one of them writes it: the session of the first
project stays. -/
theorem removed_project_stays : ∃ s, (system twoSessions [remove "a", remove "b"]).Reaches s ∧
    (∀ t ∈ s.tasks, t.isDone = true) ∧
    (sessionsIn s.store).map PersistedDeploymentSession.projectId = ["a"] ∧
    ¬ ∃ order, order.Perm [remove "a", remove "b"] ∧ s.store = afterAll order twoSessions := by
  have hrun : ((system twoSessions [remove "a", remove "b"]).replay (fun _ _ => true)
      ⟨twoSessions, [remove "a", remove "b"].map program⟩ [0, 0, 1, 1, 0, 0, 1, 1]).any
        (endsWith ["a"]) = true := by
    decide
  obtain ⟨s, hs, hend⟩ := Machine.exists_reaches_of_replay rfl hrun
  obtain ⟨hdone, hprojects⟩ := of_endsWith hend
  refine ⟨s, hs, hdone, hprojects, ?_⟩
  rintro ⟨order, hperm, hstore⟩
  have hmem : "a" ∈ (sessionsIn s.store).map PersistedDeploymentSession.projectId := by
    simp [hprojects]
  obtain ⟨session, hsession, hproject⟩ := List.mem_map.mp hmem
  rw [hstore] at hsession
  have hid : (Text.trim "a").isEmpty = false := by decide
  refine removed_afterAll hid (hperm.mem_iff.mpr List.mem_cons_self) ?_ session
    hsession hproject
  intro session active hsave
  have hnot := hperm.mem_iff.mp hsave
  simp at hnot

end DeploymentSessionCommand

end Nazh
