import Mathlib.Data.List.DropRight
import Nazh.Core.Files

/-!
# The files of assets

An asset has a latest file and, in a directory beside it, a file for each of its versions. The names
of its files are made of a stem, which is its id with most characters replaced.
-/

namespace Nazh

open Lib

/-! ## Names -/

inductive AssetKind
  | connection | device | capability
  deriving DecidableEq, Repr

/-- The ending of the files of a kind. -/
def AssetKind.latestSuffix : AssetKind → String
  | .connection => ".connection.yaml"
  | .device => ".device.yaml"
  | .capability => ".capability.yaml"

/-- `SNAPSHOTS_SUFFIX`. -/
def snapshotsSuffix : String := ".snapshots.yaml"

/-- `char::is_ascii_alphanumeric`. -/
def isAsciiAlphanumeric (c : Char) : Bool :=
  ('a'.toNat ≤ c.toNat && c.toNat ≤ 'z'.toNat) || ('A'.toNat ≤ c.toNat && c.toNat ≤ 'Z'.toNat) ||
    ('0'.toNat ≤ c.toNat && c.toNat ≤ '9'.toNat)

/-- The characters beside letters and digits that a stem may have, but not at its ends. -/
def isStemMark (c : Char) : Bool := c == '_' || c == '-' || c == '.'

def sanitizeAssetFileStem (raw : String) : String :=
  let stem := (Text.trim raw).toList.map fun ch =>
    if isAsciiAlphanumeric ch || isStemMark ch then ch else '_'
  let stem := (stem.dropWhile isStemMark).rdropWhile isStemMark
  if stem = [] then "asset" else String.ofList stem

/-- The latest file of an asset. -/
def latestName (kind : AssetKind) (id : String) : String :=
  sanitizeAssetFileStem id ++ kind.latestSuffix

/-- How the version files of a stem begin. -/
def versionStart (stem : String) : String := stem ++ ".v"

/-- A version file of an asset. -/
def versionedName (kind : AssetKind) (id : String) (version : ℤ) : String :=
  versionStart (sanitizeAssetFileStem id) ++ toString version ++ kind.latestSuffix

/-- The file of the snapshots of a device. -/
def snapshotsName (id : String) : String := sanitizeAssetFileStem id ++ snapshotsSuffix

/-! ## Versions -/

/-- The test by which version files are chosen. -/
def isVersionFile (stem latestSuffix fileName : String) : Bool :=
  Text.startsWith fileName (versionStart stem) && Text.endsWith fileName latestSuffix

/-- What stands between the start and the ending of a name, or none if they overlap: to cut the
name there is a panic. Both are at boundaries of characters, so that these are counted here. -/
def versionText (stem latestSuffix fileName : String) : Option String :=
  let start := (versionStart stem).toList.length
  let stop := fileName.toList.length - latestSuffix.toList.length
  if start ≤ stop then some (String.ofList ((fileName.toList.take stop).drop start)) else none

/-- The version that a name of the directory tells, if it tells one. The outer option is none on a
panic. -/
def fileVersion (stem latestSuffix fileName : String) : Option (Option ℤ) :=
  if isVersionFile stem latestSuffix fileName then
    (versionText stem latestSuffix fileName).map fun text => (Text.parseSigned 64 text).toOption
  else some none

/-- `i64::saturating_add(1)`. -/
def saturatingAddOne (version : ℤ) : ℤ := min (version + 1) (2 ^ 63 - 1)

section Versions

variable {fs : FileSystem}

/-- `list_version_files`, newest first. -/
def listVersionFiles (versions : fs.Folder String) (stem latestSuffix : String) :
    Option (List ℤ) := do
  let found ← versions.names.mapM (fileVersion stem latestSuffix)
  pure ((found.filterMap id).mergeSort fun a b => b ≤ a)

/-- `next_asset_version`. -/
def nextAssetVersion (kind : AssetKind) (versions : fs.Folder String) (id : String) : Option ℤ :=
  (listVersionFiles versions (sanitizeAssetFileStem id) kind.latestSuffix).map fun found =>
    match found.head? with
    | some version => saturatingAddOne version
    | none => 1

end Versions

/-! ## Commands -/

/-- The directory of a kind of assets, and the one for the versions in it. -/
structure AssetFolder (fs : FileSystem) where
  latest : fs.Folder String
  versions : fs.Folder String

/-- One operation on a file. -/
inductive FileOperation
  | writeLatest (name text : String)
  | writeVersion (name text : String)
  | removeLatest (name : String)
  | removeVersion (name : String)
  deriving DecidableEq

def FileOperation.run {fs : FileSystem} (folder : AssetFolder fs) :
    FileOperation → AssetFolder fs
  | .writeLatest name text => { folder with latest := folder.latest.write name text }
  | .writeVersion name text => { folder with versions := folder.versions.write name text }
  | .removeLatest name => { folder with latest := folder.latest.remove name }
  | .removeVersion name => { folder with versions := folder.versions.remove name }

/-- What a command does with an asset. `snapshots` is the text of the snapshots of a device. -/
inductive AssetAction
  | save (yaml snapshots : String)
  | bind (yaml : String)
  | lookup
  | delete
  deriving DecidableEq

/-- A command on an asset. An error of the file system ends it after `done` operations. -/
structure AssetCommand where
  id : String
  action : AssetAction
  done : ℕ
  deriving DecidableEq

namespace AssetCommand

variable {fs : FileSystem}

/-- The operations on files of a command on the asset `id`: `write_yaml_mirror` with the next version
and `append_device_snapshot`, `write_device_asset_latest`, none, or `delete_asset_yaml_files` and
`delete_device_snapshot_file`. -/
def operations (kind : AssetKind) (folder : AssetFolder fs) (id : String) :
    AssetAction → List FileOperation
  | .save yaml snapshots => match nextAssetVersion kind folder.versions id with
    | none => []
    | some version =>
        .writeLatest (latestName kind id) (Text.trim yaml) ::
          .writeVersion (versionedName kind id version) (Text.trim yaml) ::
          if kind = .device then [.writeLatest (snapshotsName id) snapshots] else []
  | .bind yaml =>
      if kind = .device then [.writeLatest (latestName kind id) (Text.trim yaml)] else []
  | .lookup => []
  | .delete =>
      .removeLatest (latestName kind id) ::
        ((folder.versions.names.filter
            (isVersionFile (sanitizeAssetFileStem id) kind.latestSuffix)).map .removeVersion ++
          if kind = .device then [.removeLatest (snapshotsName id)] else [])

def run (kind : AssetKind) (folder : AssetFolder fs) (command : AssetCommand) : AssetFolder fs :=
  ((operations kind folder command.id command.action).take command.done).foldl
    FileOperation.run folder

end AssetCommand

/-! ## Where a name is cut -/

/-- No ending has a dot before a `v`, which is how the start of a version file ends. -/
theorem AssetKind.not_infix_latestSuffix (kind : AssetKind) :
    ¬ ['.', 'v'] <:+: kind.latestSuffix.toList := by
  cases kind <;> decide

theorem AssetKind.head_latestSuffix (kind : AssetKind) :
    kind.latestSuffix.toList.head? = some '.' := by
  cases kind <;> rfl

/-- A start and an ending of a name do not overlap. -/
theorem length_of_isVersionFile {kind : AssetKind} {stem fileName : String}
    (h : isVersionFile stem kind.latestSuffix fileName = true) :
    (versionStart stem).toList.length + kind.latestSuffix.toList.length ≤
      fileName.toList.length := by
  rw [isVersionFile, Bool.and_eq_true, Text.startsWith_iff, Text.endsWith_iff] at h
  obtain ⟨⟨rest, hrest⟩, before, hbefore⟩ := h
  by_contra hlt
  rw [← hbefore, List.length_append] at hlt
  -- Otherwise the start reaches into the ending.
  have heq : (versionStart stem).toList ++ rest = before ++ kind.latestSuffix.toList :=
    hrest.trans hbefore.symm
  obtain ⟨inside, hstart, hsuffix⟩ : ∃ inside, (versionStart stem).toList = before ++ inside ∧
      kind.latestSuffix.toList = inside ++ rest := by
    rcases List.append_eq_append_iff.mp heq with ⟨u, hbefore, -⟩ | ⟨u, hstart, hsuffix⟩
    · have hlength := congrArg List.length hbefore
      rw [List.length_append] at hlength
      omega
    · exact ⟨u, hstart, hsuffix⟩
  have hstem : stem.toList ++ ['.', 'v'] = before ++ inside := by
    rw [← hstart, versionStart, String.toList_append]
    rfl
  rcases List.append_eq_append_iff.mp hstem with ⟨u, -, hu⟩ | ⟨u, -, rfl⟩
  · match u, hu with
    | [], hu =>
        rw [List.nil_append] at hu
        exact kind.not_infix_latestSuffix ⟨[], rest, by rw [hsuffix, ← hu, List.nil_append]⟩
    | [c], hu =>
        obtain rfl : ['v'] = inside := (List.cons.inj hu).2
        have hhead := kind.head_latestSuffix
        rw [hsuffix] at hhead
        exact absurd hhead (by simp)
    | c :: d :: u, hu =>
        obtain rfl : inside = [] := (List.append_eq_nil_iff.mp
          (List.cons.inj (List.cons.inj hu).2).2.symm).2
        have hlength := congrArg List.length hstart
        rw [List.append_nil] at hlength
        omega
  · exact kind.not_infix_latestSuffix ⟨u, rest, hsuffix.symm⟩

theorem isSome_fileVersion (kind : AssetKind) (stem fileName : String) :
    (fileVersion stem kind.latestSuffix fileName).isSome = true := by
  unfold fileVersion
  split
  case isTrue h =>
    have hlength := length_of_isVersionFile h
    rw [Option.isSome_map, versionText, if_pos (by omega)]
    rfl
  case isFalse => rfl

end Nazh
