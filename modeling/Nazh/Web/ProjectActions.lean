import Mathlib.Data.List.Sort
import Nazh.Json.Value
import Nazh.Web.Slug

/-!
# Actions on the project library

The library of projects is the state of a component. An action does not change it at once: it
queues an update, which is applied to what the updates before it have made. Between two renders
every action sees the library of the last render; some make of it the project that their update
puts into the library, others leave all to the update.
-/

namespace Nazh.Web

/-! ## Projects -/

structure ProjectEnvironment where
  id : String
  name : String
  description : String
  updatedAt : String
  diff : Value
  deriving DecidableEq

inductive ProjectSnapshotReason
  | seed
  | manual
  | import
  | migration
  | rollback
  deriving DecidableEq

structure ProjectSnapshot where
  id : String
  label : String
  description : String
  createdAt : String
  reason : ProjectSnapshotReason
  astText : String
  payloadText : String
  activeEnvironmentId : String
  environments : List ProjectEnvironment
  deriving DecidableEq

structure ProjectRecord where
  id : String
  name : String
  description : String
  createdAt : String
  updatedAt : String
  astText : String
  payloadText : String
  activeEnvironmentId : String
  environments : List ProjectEnvironment
  snapshots : List ProjectSnapshot
  migrationNotes : List String
  deriving DecidableEq

structure ProjectLibraryState where
  kind : String
  schemaVersion : ℕ
  projects : List ProjectRecord
  deriving DecidableEq

/-- A part of a project; a field that is not there is left as it is. -/
structure ProjectDraft where
  name : Option String
  description : Option String
  astText : Option String
  payloadText : Option String

/-- `UpdateEnvironmentPatch`. -/
structure UpdateEnvironmentPatch where
  name : Option String
  description : Option String
  diff : Option Value

/-- What the actions use of other code: the text of a workflow, normalized or made for a new project,
and the order of texts. -/
structure ProjectHost where
  normalizeProjectAstText : String → String
  /-- The text of the starter workflow of a name, or of an empty one. -/
  newAstText : String → Bool → String
  localeCompare : String → String → Ordering

/-- What an action draws: the times of `nowIso` and the digits of `createId`, in turn. -/
structure Draws where
  nowIso : ℕ → String
  digits : ℕ → String

inductive ProjectAction
  | createProject (name description : Option String) (empty : Bool)
  /-- With what `importProjectsFromText` makes of the text. -/
  | importProjects (importedProjects : List ProjectRecord)
  | deleteProject (projectId : String)
  | updateProjectDraft (projectId : String) (nextDraft : ProjectDraft)
  | saveProject (projectId : String) (astText payloadText : Option String)
  | createSnapshot (projectId : String) (label description : Option String)
  | deleteSnapshot (projectId snapshotId : String)
  | rollbackProject (projectId snapshotId : String)
  | setActiveEnvironment (projectId environmentId : String)
  | updateEnvironment (projectId environmentId : String) (patch : UpdateEnvironmentPatch)
  | duplicateEnvironment (projectId environmentId : String)
  | deleteEnvironment (projectId environmentId : String)

/-- An action and what it draws. -/
structure ProjectCall where
  action : ProjectAction
  draws : Draws

/-! ## Changes of one project -/

/-- A text, unless nothing is left of it without white space. -/
def trimOr (text : Option String) (fallback : String) : String :=
  match text.map trim with
  | some trimmed => if trimmed = "" then fallback else trimmed
  | none => fallback

def maxProjectSnapshots : ℕ := 20

def formatSnapshotReason : ProjectSnapshotReason → String
  | .seed => "模板初始化"
  | .manual => "手动快照"
  | .import => "导入"
  | .migration => "迁移"
  | .rollback => "回滚前保护"

namespace ProjectHost

variable (host : ProjectHost)

/-- Newest first. -/
def newestFirst {α : Type} (time : α → String) (items : List α) : List α :=
  items.insertionSort fun left right => host.localeCompare (time right) (time left) ≠ .gt

def ensureSnapshotLimit (snapshots : List ProjectSnapshot) : List ProjectSnapshot :=
  (host.newestFirst ProjectSnapshot.createdAt snapshots).take maxProjectSnapshots

/-- `createSnapshot` of `project-factories.ts`. -/
def snapshotOf (project : ProjectRecord) (reason : ProjectSnapshotReason)
    (label description : Option String) (createdAt digits : String) : ProjectSnapshot where
  id := "snapshot-" ++ digits
  label := label.getD s!"{formatSnapshotReason reason} · {project.name}"
  description := description.getD project.description
  createdAt
  reason
  astText := host.normalizeProjectAstText project.astText
  payloadText := project.payloadText
  activeEnvironmentId := project.activeEnvironmentId
  environments := project.environments

def createNewProjectRecord (name : String) (description : Option String) (empty : Bool)
    (draws : Draws) : ProjectRecord :=
  let projectName := trimOr (some name) "未命名工程"
  let environment : ProjectEnvironment :=
    ⟨"env-" ++ draws.digits 0, "生产环境", "默认环境。", draws.nowIso 1, .object []⟩
  let project : ProjectRecord :=
    { id := slugify projectName
      name := projectName
      description := trimOr description "新的工作流工程"
      createdAt := draws.nowIso 0
      updatedAt := draws.nowIso 0
      astText := host.newAstText projectName empty
      payloadText := "\x7b\n  \"manual\": true,\n  \"created_by\": \"ssxue\"\n\x7d"
      activeEnvironmentId := environment.id
      environments := [environment]
      snapshots := []
      migrationNotes := [] }
  { project with
    snapshots := [host.snapshotOf project .seed (some "初始版本") (some "创建工程时生成的首个版本。")
      (draws.nowIso 2) (draws.digits 1)] }

def renameProjectRecord (project : ProjectRecord) (patch : ProjectDraft) (now : String) :
    ProjectRecord :=
  { project with
    name := patch.name.getD project.name
    description := patch.description.getD project.description
    astText := (patch.astText.map host.normalizeProjectAstText).getD project.astText
    payloadText := patch.payloadText.getD project.payloadText
    updatedAt := now }

def createProjectSnapshot (project : ProjectRecord) (label description : Option String)
    (draws : Draws) : ProjectRecord :=
  { project with
    updatedAt := draws.nowIso 0
    snapshots := host.ensureSnapshotLimit
      (host.snapshotOf project .manual label description (draws.nowIso 1) (draws.digits 0) ::
        project.snapshots) }

def deleteProjectSnapshot (project : ProjectRecord) (snapshotId now : String) : ProjectRecord :=
  { project with
    updatedAt := now
    snapshots := project.snapshots.filter fun snapshot => snapshot.id ≠ snapshotId }

def rollbackProjectToSnapshot (project : ProjectRecord) (snapshotId : String) (draws : Draws) :
    ProjectRecord :=
  match project.snapshots.find? fun snapshot => snapshot.id = snapshotId with
  | none => project
  | some target =>
      let rollbackProtection := host.snapshotOf project .rollback
        (some s!"回滚前 · {project.name}") (some s!"回滚到 {target.label} 之前自动保留的版本。")
        (draws.nowIso 0) (draws.digits 0)
      { project with
        astText := target.astText
        payloadText := target.payloadText
        activeEnvironmentId := target.activeEnvironmentId
        environments := target.environments
        updatedAt := draws.nowIso 1
        snapshots := host.ensureSnapshotLimit (rollbackProtection :: project.snapshots) }

/-! ## Changes of the list -/

/-- Change the projects with an id. -/
def updateProject (projects : List ProjectRecord) (projectId : String)
    (updater : ProjectRecord → ProjectRecord) : List ProjectRecord :=
  projects.map fun project => if project.id = projectId then updater project else project

/-- `projects.find` by an id. -/
def findProject (library : ProjectLibraryState) (projectId : String) : Option ProjectRecord :=
  library.projects.find? fun project => project.id = projectId

/-- Whether a project has an id. -/
def isTaken (projects : List ProjectRecord) (projectId : String) : Bool :=
  projects.any fun project => project.id = projectId

/-- The first suffix from one on that is free, if it is among so many. -/
def freeSuffix (taken : ℕ → Bool) : ℕ → ℕ → ℕ
  | 0, suffix => suffix
  | fuel + 1, suffix => if taken suffix then freeSuffix taken fuel (suffix + 1) else suffix

/-- One of the suffixes that are one more than the projects is free. -/
def ensureUniqueProjectId (projects : List ProjectRecord) (preferredId : String) : String :=
  let normalizedId := slugify preferredId
  if isTaken projects normalizedId then
    let suffix := freeSuffix (fun n => isTaken projects s!"{normalizedId}-{n}")
      (projects.length + 1) 2
    s!"{normalizedId}-{suffix}"
  else normalizedId

def upsertProjectRecord (projects : List ProjectRecord) (project : ProjectRecord) :
    List ProjectRecord :=
  match projects.findIdx? fun item => item.id = project.id with
  | none => project :: projects
  | some i => projects.set i project

/-- `mergeImportedProjects` of one project, as the hook calls it. -/
def mergeImportedProject (existingProjects : List ProjectRecord) (project : ProjectRecord)
    (now : String) : List ProjectRecord :=
  let preferredId := if project.id = "" then project.name else project.id
  let nextId := ensureUniqueProjectId existingProjects preferredId
  host.newestFirst ProjectRecord.updatedAt
    (upsertProjectRecord existingProjects { project with id := nextId, updatedAt := now })

/-- The loop of `importProjects`, from the project with the number `index` on. -/
def importAll (draws : Draws) (nextProjects : List ProjectRecord) (index : ℕ) :
    List ProjectRecord → List ProjectRecord
  | [] => nextProjects
  | project :: rest =>
      let nextId := if isTaken nextProjects project.id then
        s!"{project.id}-{nextProjects.length + index + 1}" else project.id
      let nextProject := { project with id := nextId, updatedAt := draws.nowIso (2 * index) }
      importAll draws (host.mergeImportedProject nextProjects nextProject (draws.nowIso (2 * index + 1)))
        (index + 1) rest

/-! ## The actions -/

/-- The name of a project that is created, which is numbered if none is given. -/
def createdName (library : ProjectLibraryState) (name : Option String) : String :=
  trimOr name s!"未命名工程 {library.projects.length + 1}"

/-- The id of such a project, which is numbered if it is taken. -/
def createdId (library : ProjectLibraryState) (baseId : String) : String :=
  if isTaken library.projects baseId then s!"{baseId}-{library.projects.length + 1}" else baseId

/-- The project that `createProject` puts into the library. -/
def createdProject (library : ProjectLibraryState) (name description : Option String) (empty : Bool)
    (draws : Draws) : ProjectRecord :=
  let baseProject := host.createNewProjectRecord (createdName library name) description empty draws
  { baseProject with id := createdId library baseProject.id }

/-- What `duplicateEnvironment` reads of a library: the environment, and how many there are. -/
def environmentRead (library : ProjectLibraryState) (projectId environmentId : String) :
    Option (ℕ × ProjectEnvironment) :=
  (findProject library projectId).bind fun project =>
    (project.environments.find? fun environment => environment.id = environmentId).map
      fun target => (project.environments.length, target)

def patchEnvironment (patch : UpdateEnvironmentPatch) (environment : ProjectEnvironment)
    (now : String) : ProjectEnvironment :=
  { environment with
    name := patch.name.getD environment.name
    description := patch.description.getD environment.description
    updatedAt := now
    diff := patch.diff.getD environment.diff }

def removeEnvironment (project : ProjectRecord) (environmentId now : String) : ProjectRecord :=
  if project.environments.length ≤ 1 then project
  else
    let nextEnvironments := project.environments.filter fun environment =>
      environment.id ≠ environmentId
    { project with
      updatedAt := now
      activeEnvironmentId := if project.activeEnvironmentId = environmentId then
        (nextEnvironments.head?.map ProjectEnvironment.id).getD "" else project.activeEnvironmentId
      environments := nextEnvironments }

/-- `setLibrary` with other projects. -/
def withProjects (change : List ProjectRecord → List ProjectRecord) (current : ProjectLibraryState) :
    ProjectLibraryState :=
  { current with projects := change current.projects }

/-- The update of `saveProject` and its like: the project that is seen, changed, takes the place of
the one in the library. -/
def replaceProject (library : ProjectLibraryState) (projectId : String)
    (change : ProjectRecord → ProjectRecord) : ProjectLibraryState → ProjectLibraryState :=
  match findProject library projectId with
  | none => id
  | some target => withProjects fun projects => updateProject projects projectId fun _ => change target

/-- The update that an action queues when it sees `library`; without one, nothing changes. -/
def queue (library : ProjectLibraryState) (call : ProjectCall) :
    ProjectLibraryState → ProjectLibraryState :=
  let draws := call.draws
  match call.action with
  | .createProject name description empty =>
      withProjects (host.createdProject library name description empty draws :: ·)
  | .importProjects importedProjects =>
      let nextProjects := host.importAll draws library.projects 0 importedProjects
      withProjects fun _ => nextProjects
  | .deleteProject projectId =>
      match findProject library projectId with
      | none => id
      | some _ => withProjects fun projects => projects.filter fun project => project.id ≠ projectId
  | .updateProjectDraft projectId nextDraft =>
      withProjects fun projects => updateProject projects projectId fun project =>
        host.renameProjectRecord project nextDraft (draws.nowIso 0)
  | .saveProject projectId astText payloadText =>
      replaceProject library projectId fun target =>
        host.renameProjectRecord target ⟨none, none, astText, payloadText⟩ (draws.nowIso 0)
  | .createSnapshot projectId label description =>
      replaceProject library projectId fun target =>
        host.createProjectSnapshot target label description draws
  | .deleteSnapshot projectId snapshotId =>
      replaceProject library projectId fun target =>
        deleteProjectSnapshot target snapshotId (draws.nowIso 0)
  | .rollbackProject projectId snapshotId =>
      replaceProject library projectId fun target =>
        host.rollbackProjectToSnapshot target snapshotId draws
  | .setActiveEnvironment projectId environmentId =>
      withProjects fun projects => updateProject projects projectId fun project =>
        { project with activeEnvironmentId := environmentId, updatedAt := draws.nowIso 0 }
  | .updateEnvironment projectId environmentId patch =>
      withProjects fun projects => updateProject projects projectId fun project =>
        { project with
          updatedAt := draws.nowIso 0
          environments := project.environments.map fun environment =>
            if environment.id = environmentId then
              patchEnvironment patch environment (draws.nowIso 1) else environment }
  | .duplicateEnvironment projectId environmentId =>
      match environmentRead library projectId environmentId with
      | none => id
      | some (count, target) =>
          let duplicatedEnvironment : ProjectEnvironment :=
            ⟨s!"{target.id}-copy-{count + 1}", s!"{target.name} 副本", target.description,
              draws.nowIso 0, target.diff⟩
          withProjects fun projects => updateProject projects projectId fun currentProject =>
            { currentProject with
              updatedAt := draws.nowIso 1
              activeEnvironmentId := duplicatedEnvironment.id
              environments := currentProject.environments ++ [duplicatedEnvironment] }
  | .deleteEnvironment projectId environmentId =>
      withProjects fun projects => updateProject projects projectId fun project =>
        removeEnvironment project environmentId (draws.nowIso 0)

/-- Actions between two renders: all see the library of the last one. -/
def batch (library : ProjectLibraryState) (calls : List ProjectCall) : ProjectLibraryState :=
  calls.foldl (fun current call => host.queue library call current) library

/-- Actions one after another. -/
def oneByOne (library : ProjectLibraryState) (calls : List ProjectCall) : ProjectLibraryState :=
  calls.foldl (fun current call => host.queue current call current) library

/-! ## Fresh actions -/

/-- The id that a new project of a name has before others are looked at. -/
def baseIdOf (name : String) : String := slugify (trimOr (some name) "未命名工程")

/-- What `createProject` reads of a library: how many projects there are, where a name or an id is
numbered, and whether an id is taken. -/
structure SeesNames (library current : ProjectLibraryState) (name : Option String) : Prop where
  named : trimOr name "" = "" → library.projects.length = current.projects.length
  taken : isTaken library.projects (baseIdOf (createdName library name)) =
    isTaken current.projects (baseIdOf (createdName library name))
  numbered : isTaken library.projects (baseIdOf (createdName library name)) = true →
    library.projects.length = current.projects.length

/-- A project is seen as it is, or is gone. -/
def SeesProject (library current : ProjectLibraryState) (projectId : String) : Prop :=
  findProject current projectId = none ∨ findProject library projectId = findProject current projectId

/-- An action that sees `library` reads in it what there is in `current`, unless its project is gone
from there. -/
def Fresh (library current : ProjectLibraryState) (call : ProjectCall) : Prop :=
  match call.action with
  | .createProject name _ _ => SeesNames library current name
  | .importProjects _ => library.projects = current.projects
  | .deleteProject projectId =>
      findProject current projectId = none ∨ findProject library projectId ≠ none
  | .saveProject projectId _ _ => SeesProject library current projectId
  | .createSnapshot projectId _ _ => SeesProject library current projectId
  | .deleteSnapshot projectId _ => SeesProject library current projectId
  | .rollbackProject projectId _ => SeesProject library current projectId
  | .duplicateEnvironment projectId environmentId =>
      findProject current projectId = none ∨
        environmentRead library projectId environmentId =
          environmentRead current projectId environmentId
  | _ => True

/-- Actions every one of which is fresh in its turn. -/
def FreshAll (library : ProjectLibraryState) : ProjectLibraryState → List ProjectCall → Prop
  | _, [] => True
  | current, call :: calls =>
      Fresh library current call ∧ FreshAll library (host.queue library call current) calls

section

variable {host} {library current : ProjectLibraryState} {call : ProjectCall} {projectId : String}

/-- A text of which something is left needs nothing in its place. -/
theorem trimOr_of_ne {text : Option String} (h : trimOr text "" ≠ "") (fallback : String) :
    trimOr text fallback = trimOr text "" := by
  revert h
  unfold trimOr
  cases text.map trim with
  | none => exact fun h => absurd rfl h
  | some trimmed =>
      intro h
      by_cases hempty : trimmed = ""
      · exact absurd (if_pos hempty) h
      · simp only [hempty, if_false]

/-- Nothing changes where there is no project to change. -/
theorem updateProject_eq_self (h : findProject library projectId = none)
    (updater : ProjectRecord → ProjectRecord) :
    updateProject library.projects projectId updater = library.projects := by
  refine (List.map_congr_left fun project hproject => ?_).trans (List.map_id _)
  have hne := List.find?_eq_none.mp h project hproject
  simp_all

theorem withProjects_eq_self {change : List ProjectRecord → List ProjectRecord}
    (h : change current.projects = current.projects) : withProjects change current = current := by
  rw [withProjects, h]

theorem replaceProject_eq (h : SeesProject library current projectId)
    (change : ProjectRecord → ProjectRecord) :
    replaceProject library projectId change current =
      replaceProject current projectId change current := by
  rcases h with hgone | hsame
  · have hleft : replaceProject library projectId change current = current := by
      unfold replaceProject
      cases findProject library projectId with
      | none => rfl
      | some target => exact withProjects_eq_self (updateProject_eq_self hgone _)
    rw [hleft, replaceProject, hgone]
    rfl
  · simp only [replaceProject, hsame]

/-- The name that is made of what is seen is the one that is made of the library as it is. -/
theorem SeesNames.name_eq {name : Option String} (h : SeesNames library current name) :
    createdName library name = createdName current name := by
  unfold createdName
  by_cases hblank : trimOr name "" = ""
  · rw [h.named hblank]
  · exact (trimOr_of_ne hblank _).trans (trimOr_of_ne hblank _).symm

theorem SeesNames.id_eq {name : Option String} (h : SeesNames library current name) :
    createdId library (baseIdOf (createdName library name)) =
      createdId current (baseIdOf (createdName library name)) := by
  unfold createdId
  by_cases htaken : isTaken library.projects (baseIdOf (createdName library name)) = true
  · rw [if_pos htaken, if_pos (h.taken ▸ htaken), h.numbered htaken]
  · rw [if_neg htaken, if_neg (h.taken ▸ htaken)]

theorem createNewProjectRecord_id (name : String) (description : Option String) (empty : Bool)
    (draws : Draws) : (host.createNewProjectRecord name description empty draws).id = baseIdOf name := by
  simp only [createNewProjectRecord, baseIdOf]

/-- A fresh `createProject` makes the project that it would make of the library as it is. -/
theorem createdProject_eq {name : Option String} (h : SeesNames library current name)
    (description : Option String) (empty : Bool) (draws : Draws) :
    host.createdProject library name description empty draws =
      host.createdProject current name description empty draws := by
  simp only [createdProject, createNewProjectRecord_id, ← h.name_eq, h.id_eq]

/-- A project that is gone is not deleted again. -/
theorem filter_eq_self (h : findProject library projectId = none) :
    library.projects.filter (fun project => project.id ≠ projectId) = library.projects := by
  refine List.filter_eq_self.mpr fun project hproject => ?_
  simpa using List.find?_eq_none.mp h project hproject

/-- A fresh action queues an update that does what one that sees the library as it is would do. -/
theorem queue_eq (h : Fresh library current call) :
    host.queue library call current = host.queue current call current := by
  obtain ⟨action, draws⟩ := call
  cases action with
  | createProject name description empty =>
      simp only [queue, createdProject_eq h]
  | importProjects importedProjects =>
      have hsame : library.projects = current.projects := h
      simp only [queue, hsame]
  | deleteProject projectId =>
      simp only [queue]
      rcases h with hgone | hseen
      · rw [hgone]
        cases findProject library projectId with
        | none => rfl
        | some target => exact withProjects_eq_self (filter_eq_self hgone)
      · obtain ⟨target, htarget⟩ := Option.ne_none_iff_exists'.mp hseen
        rw [htarget]
        cases hcurrent : findProject current projectId with
        | none => exact withProjects_eq_self (filter_eq_self hcurrent)
        | some now => rfl
  | saveProject projectId astText payloadText => exact replaceProject_eq h _
  | createSnapshot projectId label description => exact replaceProject_eq h _
  | deleteSnapshot projectId snapshotId => exact replaceProject_eq h _
  | rollbackProject projectId snapshotId => exact replaceProject_eq h _
  | duplicateEnvironment projectId environmentId =>
      simp only [queue]
      rcases h with hgone | hsame
      · have hread : environmentRead current projectId environmentId = none := by
          rw [environmentRead, hgone, Option.bind_none]
        rw [hread]
        cases environmentRead library projectId environmentId with
        | none => rfl
        | some target => exact withProjects_eq_self (updateProject_eq_self hgone _)
      · rw [hsame]
  | _ => rfl

end

theorem freshAll_foldl {library current : ProjectLibraryState} {calls : List ProjectCall}
    (h : host.FreshAll library current calls) :
    calls.foldl (fun current call => host.queue library call current) current =
      calls.foldl (fun current call => host.queue current call current) current := by
  induction calls generalizing current with
  | nil => rw [List.foldl_nil, List.foldl_nil]
  | cons call calls ih =>
      obtain ⟨hfresh, hrest⟩ := h
      have hnext : host.queue library call current = host.queue current call current :=
        queue_eq hfresh
      simp only [List.foldl_cons, ← hnext]
      exact ih hrest

/-- Fresh actions compose. -/
theorem batch_eq_oneByOne {library : ProjectLibraryState} {calls : List ProjectCall}
    (h : host.FreshAll library library calls) : host.batch library calls = host.oneByOne library calls :=
  freshAll_foldl host h

/-! ## Runs -/

/-- A host that leaves texts as they are, as is done with a text that is no workflow. -/
def plain : ProjectHost := ⟨id, fun _ _ => "", compare⟩

def projectOf (id astText : String) : ProjectRecord :=
  ⟨id, id, "", "", "", astText, "", "", [], [], []⟩

/-- Two projects. -/
def twoProjects : ProjectLibraryState :=
  ⟨"nazh.project-library", 2, [projectOf "p" "old", projectOf "q" "old"]⟩

def noDraws : Draws := ⟨fun _ => "", fun _ => ""⟩

/-- Two projects are saved between two renders. -/
def savesOfTwo : List ProjectCall :=
  [⟨.saveProject "p" (some "new") none, noDraws⟩, ⟨.saveProject "q" (some "new") none, noDraws⟩]

/-- A project is saved and a snapshot of it is made, as `handleCreateSnapshot` does. -/
def saveAndSnapshot : List ProjectCall :=
  [⟨.saveProject "p" (some "new") none, noDraws⟩, ⟨.createSnapshot "p" none none, noDraws⟩]

/-- Saves of two projects compose. -/
theorem savesOfTwo_compose :
    plain.batch twoProjects savesOfTwo = plain.oneByOne twoProjects savesOfTwo := by
  refine plain.batch_eq_oneByOne ⟨.inr rfl, .inr ?_, True.intro⟩
  rfl

/-- The snapshot is made of the text before the save, and puts it back into the project. -/
theorem snapshot_undoes_save :
    (plain.batch twoProjects saveAndSnapshot).projects.map
        (fun project => (project.astText, project.snapshots.map ProjectSnapshot.astText)) =
      [("old", ["old"]), ("old", [])] ∧
    (plain.oneByOne twoProjects saveAndSnapshot).projects.map
        (fun project => (project.astText, project.snapshots.map ProjectSnapshot.astText)) =
      [("new", ["new"]), ("old", [])] ∧
    plain.batch twoProjects saveAndSnapshot ≠ plain.oneByOne twoProjects saveAndSnapshot := by
  refine ⟨by decide, by decide, by decide⟩

end ProjectHost

end Nazh.Web
