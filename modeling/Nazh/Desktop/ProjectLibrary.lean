import Mathlib.Data.List.Perm.Subperm
import Nazh.Lib.Except
import Nazh.Web.Slug

/-!
# The board files of a project library

The library is saved as one file for each project, and every other board file is deleted. A project
survives unless its file is written over, or deleted for another one.
-/

namespace Nazh

open Lib

variable {β : Type}

/-! ## Projects and their files -/

/-- A `ProjectRecord`: `content` is what its board file has besides the id and the name. -/
structure ProjectRecord (β : Type) where
  id : String
  name : String
  content : β
  deriving DecidableEq

/-- The text of a file: one that `serializeProjectRecordToBoardFile` made, or another one with what
it is parsed to. -/
inductive BoardText (β : Type)
  | board (project : ProjectRecord β)
  | other (parsed : Except String (ProjectRecord β))

/-- The file of a project. -/
def ProjectRecord.fileName (project : ProjectRecord β) : String :=
  Web.buildProjectBoardFileName project.name project.id

/-- `MAX_IPC_INPUT_BYTES`. -/
def maxIpcInputBytes : ℕ := 10 * 1024 * 1024

section Disk

variable (fs : FileSystem) (bytes : BoardText β → ℕ) (display : String → String)

/-- `list_project_board_file_paths`. -/
def listProjectBoardFilePaths (dir : fs.Folder (BoardText β)) : List String :=
  (dir.names.filter (Text.endsWith · Web.projectBoardFileSuffix)).mergeSort fun a b => a ≤ b

/-- A text that `normalizeString` leaves as it is. -/
def IsNormal (value : String) : Prop := Web.trim value = value ∧ value ≠ ""

/-- What it takes to save the projects. -/
structure Storable (dir : fs.Folder (BoardText β)) (projects : List (ProjectRecord β)) :
    Prop where
  /-- No two projects have the same slugs. -/
  distinct : (projects.map fun p => (Web.slugify p.name, Web.slugify p.id)).Nodup
  /-- No other file of the directory is taken for the file of a project. -/
  unaliased : ∀ p ∈ projects, ∀ name ∈ dir.names, fs.key name = fs.key p.fileName →
    name = p.fileName
  accepted : ∀ p ∈ projects, fs.refuses p.fileName = none
  small : ∀ p ∈ projects, bytes (.board p) ≤ maxIpcInputBytes
  normal : ∀ p ∈ projects, IsNormal p.id ∧ IsNormal p.name

/-! ## Names -/

/-- Two projects have one file when they have one file name. -/
theorem key_fileName_inj {p q : ProjectRecord β} :
    fs.key p.fileName = fs.key q.fileName ↔ p.fileName = q.fileName := by
  have hkey : ∀ r : ProjectRecord β, fs.key r.fileName = r.fileName.toList :=
    fun r => fs.key_of_plain fun _ => Web.isPlain_boardFileName
  rw [hkey, hkey, String.toList_inj]

/-- The file names are distinct as the slugs are. -/
theorem nodup_fileNames_iff {projects : List (ProjectRecord β)} :
    (projects.map (·.fileName)).Nodup ↔
      (projects.map fun p => (Web.slugify p.name, Web.slugify p.id)).Nodup := by
  have hinj : ∀ p q : ProjectRecord β, p.fileName ≠ q.fileName ↔
      (Web.slugify p.name, Web.slugify p.id) ≠ (Web.slugify q.name, Web.slugify q.id) := by
    intro p q
    rw [ne_eq, ne_eq, Prod.mk.injEq]
    exact not_congr Web.boardFileName_inj
  rw [List.Nodup, List.Nodup, List.pairwise_map, List.pairwise_map]
  exact List.Pairwise.iff hinj

/-! ## Writing -/

/-- The directory after the files of the projects were written. -/
def writeProjects (dir : fs.Folder (BoardText β)) (projects : List (ProjectRecord β)) :
    fs.Folder (BoardText β) :=
  projects.foldl (fun dir p => dir.write p.fileName (.board p)) dir

variable {fs} {bytes} {display} {dir : fs.Folder (BoardText β)} {projects : List (ProjectRecord β)}

/-- A file is an old one, or one of a project. -/
theorem name_of_writeProjects {name : String} (h : name ∈ (writeProjects fs dir projects).names) :
    name ∈ dir.names ∨ ∃ p ∈ projects, name = p.fileName := by
  induction projects generalizing dir with
  | nil => exact .inl h
  | cons p projects ih =>
      rcases ih h with hold | ⟨q, hq, rfl⟩
      · rcases Directory.mem_names_write.mp hold with hold | ⟨rfl, -⟩
        · exact .inl hold
        · exact .inr ⟨p, List.mem_cons_self, rfl⟩
      · exact .inr ⟨q, List.mem_cons_of_mem p hq, rfl⟩

/-- The file of a project holds a project that has the same file. -/
theorem read_writeProjects {name : String} :
    (∃ p ∈ projects, fs.key name = fs.key p.fileName ∧
      (writeProjects fs dir projects).read name = some (.board p)) ∨
    (∀ p ∈ projects, fs.key name ≠ fs.key p.fileName) ∧
      (writeProjects fs dir projects).read name = dir.read name := by
  induction projects generalizing dir with
  | nil => exact .inr ⟨fun _ hp => (nomatch hp), rfl⟩
  | cons p projects ih =>
      rcases @ih (dir.write p.fileName (.board p)) with ⟨q, hq, hkey, hread⟩ | ⟨hne, hread⟩
      · exact .inl ⟨q, List.mem_cons_of_mem p hq, hkey, hread⟩
      · rw [Directory.read_write] at hread
        by_cases hkey : fs.key name = fs.key p.fileName
        · exact .inl ⟨p, List.mem_cons_self, hkey, by rwa [if_pos hkey] at hread⟩
        · refine .inr ⟨?_, by rwa [if_neg hkey] at hread⟩
          rintro q (_ | ⟨_, hq⟩)
          · exact hkey
          · exact hne q hq

/-! ## Deleting and loading -/

theorem mem_listProjectBoardFilePaths {name : String} :
    name ∈ listProjectBoardFilePaths fs dir ↔
      name ∈ dir.names ∧ Text.endsWith name Web.projectBoardFileSuffix = true := by
  rw [listProjectBoardFilePaths, List.mem_mergeSort, List.mem_filter]

/-- The directory after the save. -/
def savedProjects (fs : FileSystem) (dir : fs.Folder (BoardText β))
    (projects : List (ProjectRecord β)) : fs.Folder (BoardText β) :=
  ((listProjectBoardFilePaths fs (writeProjects fs dir projects)).filter fun path =>
    path ∉ projects.map (·.fileName)).foldl Directory.remove (writeProjects fs dir projects)

/-- The board files after the save are those that were written. -/
theorem mem_files_savedProjects {name : String} {text : BoardText β}
    (hboard : Text.endsWith name Web.projectBoardFileSuffix = true) :
    (name, text) ∈ (savedProjects fs dir projects).files ↔
      (name, text) ∈ (writeProjects fs dir projects).files ∧
        ∃ p ∈ projects, name = p.fileName := by
  rw [savedProjects, Directory.mem_foldl_remove fun name hname =>
    (mem_listProjectBoardFilePaths.mp (List.mem_filter.mp hname).1).1]
  refine and_congr_right fun hfile => ?_
  rw [List.mem_filter, mem_listProjectBoardFilePaths]
  have hname : name ∈ (writeProjects fs dir projects).names := Directory.mem_names_of_mem hfile
  simp only [hname, hboard, and_self, true_and, decide_eq_true_eq, not_not, List.mem_map]
  exact exists_congr fun p => and_congr_right fun _ => eq_comm

/-- What is listed after the save, and what is read there. -/
theorem mem_list_savedProjects {name : String} :
    name ∈ listProjectBoardFilePaths fs (savedProjects fs dir projects) ↔
      name ∈ (writeProjects fs dir projects).names ∧ ∃ p ∈ projects, name = p.fileName := by
  rw [mem_listProjectBoardFilePaths, Directory.mem_names, Directory.mem_names]
  constructor
  · rintro ⟨⟨text, hfile⟩, hboard⟩
    obtain ⟨hold, hp⟩ := (mem_files_savedProjects hboard).mp hfile
    exact ⟨⟨text, hold⟩, hp⟩
  · rintro ⟨⟨text, hold⟩, p, hp, rfl⟩
    have hboard : Text.endsWith p.fileName Web.projectBoardFileSuffix = true :=
      Text.endsWith_append _ _
    exact ⟨⟨text, (mem_files_savedProjects hboard).mpr ⟨hold, p, hp, rfl⟩⟩, hboard⟩

/-- Each listed file holds a project that has this file. -/
theorem read_savedProjects {name : String}
    (h : name ∈ listProjectBoardFilePaths fs (savedProjects fs dir projects)) :
    ∃ p ∈ projects, fs.key name = fs.key p.fileName ∧
      (savedProjects fs dir projects).read name = some (.board p) := by
  have hboard := (mem_listProjectBoardFilePaths.mp h).2
  obtain ⟨hname, q, hq, rfl⟩ := mem_list_savedProjects.mp h
  rcases @read_writeProjects _ fs dir projects q.fileName with ⟨p, hp, hkey, hread⟩ | ⟨hne, -⟩
  · have hfile := Directory.mem_files_iff.mpr ⟨hname, hread⟩
    have hsaved := (mem_files_savedProjects hboard).mpr ⟨hfile, q, hq, rfl⟩
    exact ⟨p, hp, hkey, (Directory.mem_files_iff.mp hsaved).2⟩
  · exact absurd rfl (hne q hq)

/-! ## Parsing -/

/-- Under these conditions the file of a project is there, and holds it. -/
theorem Storable.read (h : Storable fs bytes dir projects) {p : ProjectRecord β}
    (hp : p ∈ projects) :
    p.fileName ∈ listProjectBoardFilePaths fs (savedProjects fs dir projects) ∧
      (savedProjects fs dir projects).read p.fileName = some (.board p) := by
  have hsame : ∀ q ∈ projects, fs.key p.fileName = fs.key q.fileName → p = q := fun q hq hkey =>
    List.inj_on_of_nodup_map (nodup_fileNames_iff.mpr h.distinct) hp hq
      ((key_fileName_inj fs).mp hkey)
  have hlisted : p.fileName ∈ listProjectBoardFilePaths fs (savedProjects fs dir projects) := by
    refine mem_list_savedProjects.mpr ⟨?_, p, hp, rfl⟩
    rcases @read_writeProjects _ fs dir projects p.fileName with ⟨q, -, -, hread⟩ | ⟨hne, -⟩
    · obtain ⟨name, hfile, hkey⟩ := Directory.read_eq_some.mp hread
      have hname : name ∈ (writeProjects fs dir projects).names := Directory.mem_names_of_mem hfile
      rcases name_of_writeProjects hname with hold | ⟨r, hr, rfl⟩
      · exact h.unaliased p hp name hold hkey ▸ hname
      · obtain rfl := hsame r hr hkey.symm
        exact hname
    · exact absurd rfl (hne p hp)
  obtain ⟨q, hq, hkey, hread⟩ := read_savedProjects hlisted
  obtain rfl := hsame q hq hkey
  exact ⟨hlisted, hread⟩

end Disk

end Nazh
