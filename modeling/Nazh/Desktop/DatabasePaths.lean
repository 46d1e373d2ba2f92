import Nazh.Core.Text
import Nazh.Graph.Topology
import Nazh.Lib.Lines
import Nazh.Lib.UnixPath

/-!
# Where the SQL writer writes

Before a graph is deployed the database path of each SQL writer is made a path in the workspace:
of a relative path the names are put behind the workspace, an absolute path has to begin with it.
The node looks at the path once more when it runs, and then as a text. Paths are texts with slashes
in between.
-/

namespace Nazh

open Lib Lib.PathText

/-! ## At deployment -/

/-- `SQL_WRITER_DEFAULT_DATABASE_PATH`. -/
def sqlWriterDefaultDatabasePath : String := "./nazh-local.sqlite3"

/-- The names of a path, one behind another. -/
def sanitizeRelativePath (rawPath : PathText) : PathText :=
  let sanitized := (components rawPath).foldl
    (fun path component =>
      match component with
      | .normal segment => push path segment
      | _ => path) []
  if sanitized = [] then push sanitized "nazh-local.sqlite3".toList else sanitized

def normalizeSqlWriterDatabasePath (rawPath : PathText) (workspaceDir : PathText)
    (nodeId : String) : Except EngineError PathText :=
  if isAbsolute rawPath then
    if .parentDir ∈ components rawPath then
      .error (.nodeConfig nodeId "database_path 不允许包含路径穿越（..）")
    else if ¬ components workspaceDir <+: components rawPath then
      .error (.nodeConfig nodeId "database_path 需要位于当前工作目录内")
    else .ok rawPath
  else .ok (push workspaceDir (sanitizeRelativePath rawPath))

/-- The path in a configuration, or the default one. -/
def rawDatabasePath (config : Fields) : String :=
  let configured := ((config.lookup "database_path").bind Value.asStr).map Text.trim
  (configured.filter fun value => value ≠ "").getD sqlWriterDefaultDatabasePath

/-- A turn of the loop of `normalize_sql_writer_paths`. -/
def normalizeSqlWriterNode (workspaceDir : PathText) (definition : WorkflowNodeDefinition) :
    Except EngineError WorkflowNodeDefinition :=
  if definition.nodeType ≠ "sqlWriter" ∧ definition.nodeType ≠ "sql/writer" then .ok definition
  else match definition.config with
    | .object config => do
        let resolvedPath ← normalizeSqlWriterDatabasePath (rawDatabasePath config).toList
          workspaceDir definition.id
        pure { definition with
          config := .object
            (Fields.insert config "database_path" (.string (String.ofList resolvedPath))) }
    | _ => .ok definition

/-! ## At run time -/

structure SqlWriterNodeConfig where
  databasePath : String
  table : String

def sanitizeSqliteIdentifier (identifier : String) : Option String :=
  match (Text.trim identifier).toList with
  | [] => none
  | first :: rest =>
      if first = '_' ∨ first.isAlpha = true then
        if rest.all (fun ch => ch = '_' || ch.isAlphanum) then some (Text.trim identifier) else none
      else none

/-- The error for a path that leads out of a directory. -/
def traversalError (id : String) : EngineError :=
  .nodeConfig id "database_path 不允许包含路径穿越（..）"

/-- The checks of the path when the node runs. -/
def checkedDatabasePath (id : String) (databasePath : String) : Except EngineError String :=
  let databasePath := Text.trim databasePath
  if databasePath = "" then
    .error (.nodeConfig id "database_path 必须显式配置，不能使用默认 SQLite 路径")
  else if dots <:+: databasePath.toList then .error (traversalError id)
  else .ok databasePath

/-- A run of the node. A row is written to the table of the database. -/
def SqlWriterNode.transform {α : Type} (id : String) (config : SqlWriterNodeConfig)
    (write : String → String → Except EngineError α) : Except EngineError α := do
  let databasePath ← checkedDatabasePath id config.databasePath
  let table ← okOr (sanitizeSqliteIdentifier config.table)
    (.nodeConfig id "SQL Writer 表名只能包含字母、数字和下划线，且不能以数字开头")
  write databasePath table

/-! ## Which paths stay in the workspace -/

/-- A workspace is given by an absolute path, which does not go up. -/
structure WorkspaceDir where
  path : PathText
  absolute : isAbsolute path = true
  no_parent : .parentDir ∉ components path

/-- What deployment makes sure of. -/
structure Within (workspace : WorkspaceDir) (path : PathText) : Prop where
  absolute : isAbsolute path = true
  no_parent : .parentDir ∉ components path
  begins : components workspace.path <+: components path

variable {workspace : WorkspaceDir} {nodeId : String} {rawPath path resolved : PathText}

theorem Within.normalize (h : Within workspace path) :
    normalizeSqlWriterDatabasePath path workspace.path nodeId = .ok path := by
  rw [normalizeSqlWriterDatabasePath, if_pos h.absolute, if_neg h.no_parent,
    if_neg (not_not.mpr h.begins)]

end Nazh
