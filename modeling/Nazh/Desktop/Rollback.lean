import Nazh.Desktop.AssetsApart
import Nazh.Lib.Except
import Nazh.Lib.Lists

/-!
# Going back to a version of a device

A rollback keeps the latest text of a device as a new version, writes the text of the target as one
more, and notes both in the list of snapshots. It looks for the target only after it has kept the
latest text.
-/

namespace Nazh

open Lib

/-! ## Snapshots -/

inductive SnapshotReason
  | seed | manual | imported | edit | rollback
  deriving DecidableEq, Repr

structure DeviceSnapshotMeta where
  version : ℤ
  label : String
  description : String
  reason : SnapshotReason
  createdAt : String
  deriving DecidableEq, Repr

/-- `MAX_SNAPSHOTS`. -/
def maxSnapshots : ℕ := 20

/-- How lists of snapshots are printed as texts and parsed again, and what the file system says of a
file that is not there. -/
structure SnapshotHost where
  notFound : String
  print : List DeviceSnapshotMeta → String
  parse : String → Option (List DeviceSnapshotMeta)
  parse_print : ∀ snapshots, parse (print snapshots) = some snapshots

variable {fs : FileSystem}

/-- The list of the snapshots. It is empty if its file is not there or cannot be parsed. -/
def storedSnapshots (host : SnapshotHost) (folder : AssetFolder fs) (id : String) :
    List DeviceSnapshotMeta :=
  ((folder.latest.read (snapshotsName id)).bind host.parse).getD []

def appendDeviceSnapshot (host : SnapshotHost) (folder : AssetFolder fs) (id : String)
    (snapshot : DeviceSnapshotMeta) : AssetFolder fs :=
  let snapshots := (storedSnapshots host folder id).filter fun s => s.version ≠ snapshot.version
  let snapshots := (snapshot :: snapshots).take maxSnapshots
  { folder with latest := folder.latest.write (snapshotsName id) (host.print snapshots) }

/-- `next_device_asset_version`. No name makes the list panic, so that there is always a next
version. -/
def nextDeviceAssetVersion (folder : AssetFolder fs) (id : String) : ℤ :=
  (nextAssetVersion .device folder.versions id).getD 1

/-- `write_device_asset_yaml`: the text becomes the latest one and a version. -/
def writeDeviceAssetYaml (folder : AssetFolder fs) (id : String) (version : ℤ) (yaml : String) :
    AssetFolder fs where
  latest := folder.latest.write (latestName .device id) yaml
  versions := folder.versions.write (versionedName .device id version) yaml

/-- `load_device_asset_version_yaml`. -/
def loadDeviceAssetVersionYaml (folder : AssetFolder fs) (id : String) (version : ℤ) :
    Option String :=
  folder.versions.read (versionedName .device id version)

/-- Keep a text as the next version of a device, and note why. A rollback does this twice. -/
def keepVersion (host : SnapshotHost) (folder : AssetFolder fs)
    (id yaml label description createdAt : String) : AssetFolder fs :=
  let version := nextDeviceAssetVersion folder id
  appendDeviceSnapshot host (writeDeviceAssetYaml folder id version (Text.trim yaml)) id
    ⟨version, label, description, .rollback, createdAt⟩

/-- The error for a version that is not there. -/
def noSnapshot (version : ℤ) : String := s!"快照 v{version} 不存在"

/-- The latest text is kept before the target is looked for. -/
def keepCurrent (host : SnapshotHost) (folder : AssetFolder fs) (id currentYaml : String)
    (targetVersion : ℤ) (keptAt : String) : AssetFolder fs :=
  keepVersion host folder id currentYaml s!"回滚前保护（→ v{targetVersion}）"
    s!"回滚到 v{targetVersion} 前自动保留的快照。" keptAt

def restoreTarget (host : SnapshotHost) (kept : AssetFolder fs) (id targetYaml : String)
    (targetVersion : ℤ) (restoredAt : String) : AssetFolder fs :=
  keepVersion host kept id targetYaml s!"回滚到 v{targetVersion}" "" restoredAt

/-- The two calls of the clock give `keptAt` and `restoredAt`. -/
def rollbackDeviceSnapshot (host : SnapshotHost) (folder : AssetFolder fs) (id : String)
    (targetVersion : ℤ) (keptAt restoredAt : String) : AssetFolder fs × Except String Unit :=
  match folder.latest.read (latestName .device id) with
  | none => (folder, .error ("读取当前设备 DSL 失败: " ++ host.notFound))
  | some currentYaml =>
      let kept := keepCurrent host folder id currentYaml targetVersion keptAt
      match loadDeviceAssetVersionYaml kept id targetVersion with
      | none => (kept, .error (noSnapshot targetVersion))
      | some targetYaml =>
          (restoreTarget host kept id targetYaml targetVersion restoredAt, .ok ())

/-! ## What a rollback should do -/

/-- The latest text is that of the target, which was there, every version is as before, and the
former text is a new version, to which one may go back. -/
structure Restored (host : SnapshotHost) (before after : AssetFolder fs) (id currentYaml : String)
    (targetVersion : ℤ) : Prop where
  target : ∃ text, loadDeviceAssetVersionYaml before id targetVersion = some text ∧
    after.latest.read (latestName .device id) = some text
  earlier : ∀ name text, before.versions.read name = some text →
    after.versions.read name = some text
  kept : ∃ version, loadDeviceAssetVersionYaml before id version = none ∧
    loadDeviceAssetVersionYaml after id version = some currentYaml ∧
    version ∈ (storedSnapshots host after id).map DeviceSnapshotMeta.version ∧
    ∀ keptAt restoredAt,
      let again := rollbackDeviceSnapshot host after id version keptAt restoredAt
      again.2 = .ok () ∧ again.1.latest.read (latestName .device id) = some currentYaml

/-- Nothing is changed. -/
structure Unchanged (before after : AssetFolder fs) (id : String) : Prop where
  latest : after.latest.read (latestName .device id) = before.latest.read (latestName .device id)
  versions : ∀ name, after.versions.read name = before.versions.read name
  snapshots : after.latest.read (snapshotsName id) = before.latest.read (snapshotsName id)

/-- A rollback is atomic, and can be undone. -/
def RollsBack (host : SnapshotHost) (folder : AssetFolder fs) (id currentYaml : String)
    (targetVersion : ℤ) : Prop :=
  ∀ keptAt restoredAt,
    let after := rollbackDeviceSnapshot host folder id targetVersion keptAt restoredAt
    (after.2 = .ok () → Restored host folder after.1 id currentYaml targetVersion) ∧
      (after.2 = .error (noSnapshot targetVersion) → Unchanged folder after.1 id)

/-- The target is there with the text. No white space ends it or the latest text, and no other
text is where the two are kept. -/
structure Restorable (folder : AssetFolder fs) (id currentYaml : String) (targetVersion : ℤ)
    (text : String) : Prop where
  target : loadDeviceAssetVersionYaml folder id targetVersion = some text
  trim_text : Text.trim text = text
  trim_current : Text.trim currentYaml = currentYaml
  free : loadDeviceAssetVersionYaml folder id (nextDeviceAssetVersion folder id) = none
  next_free : ∀ other,
    let kept := writeDeviceAssetYaml folder id (nextDeviceAssetVersion folder id) currentYaml
    loadDeviceAssetVersionYaml kept id (nextDeviceAssetVersion kept id) = some other →
      other = text

/-! ## The names of versions -/

/-- A number that fits is read from its own text. -/
theorem parseSigned_toString {bits : ℕ} {version : ℤ} (hlow : -2 ^ bits ≤ version)
    (hhigh : version < 2 ^ bits) : Text.parseSigned (bits + 1) (toString version) = .ok version := by
  have hdigits : ∀ n : ℕ, ∀ c ∈ n.repr.toList, c.isDigit = true := by
    intro n c hc
    rw [Nat.toList_repr] at hc
    exact Nat.isDigit_of_mem_toDigits (by decide) (by decide) hc
  have hvalue : ∀ n : ℕ, Nat.ofDigitChars 10 n.repr.toList 0 = n := by
    intro n
    rw [Nat.toList_repr]
    exact Nat.ofDigitChars_ten_toDigits
  have hne : ∀ n : ℕ, n.repr.toList ≠ [] := by
    intro n
    rw [Nat.toList_repr]
    exact Nat.toDigits_ne_nil
  have hpos : 0 < 2 ^ bits := Nat.two_pow_pos bits
  have hcast : ((2 ^ bits : ℕ) : ℤ) = 2 ^ bits := by norm_cast
  rw [Int.toString_eq_repr, Int.repr_eq_if]
  by_cases hversion : 0 ≤ version
  · have hread : Text.accumulate (2 ^ bits - 1) .posOverflow 0 version.toNat.repr.toList =
        .ok version.toNat :=
      (Text.accumulate_eq_ok (Nat.zero_le _)).mpr ⟨hdigits _, hvalue _, by omega⟩
    have hsign : ∀ c cs, version.toNat.repr.toList = c :: cs → c ≠ '+' ∧ c ≠ '-' := by
      intro c cs hcs
      have hc := hdigits version.toNat c (hcs ▸ List.mem_cons_self)
      constructor <;> rintro rfl <;> exact absurd hc (by decide)
    rw [if_pos hversion, Text.parseSigned, Nat.add_sub_cancel]
    split
    case h_1 heq => exact absurd heq (hne _)
    case h_2 heq => exact absurd rfl (hsign _ _ heq).1
    case h_3 heq => exact absurd rfl (hsign _ _ heq).2
    case h_4 heq => exact absurd rfl (hsign _ _ heq).1
    case h_5 heq => exact absurd rfl (hsign _ _ heq).2
    case h_6 =>
      rw [hread, Except.map]
      exact congrArg Except.ok (Int.toNat_of_nonneg hversion)
  · have hread : Text.accumulate (2 ^ bits) .negOverflow 0 (-version).toNat.repr.toList =
        .ok (-version).toNat :=
      (Text.accumulate_eq_ok (Nat.zero_le _)).mpr ⟨hdigits _, hvalue _, by omega⟩
    have htext : ("-" ++ (-version).toNat.repr).toList = '-' :: (-version).toNat.repr.toList := by
      rw [String.toList_append]
      rfl
    rw [if_neg hversion, Text.parseSigned, Nat.add_sub_cancel, htext]
    split
    case h_1 heq => cases heq
    case h_2 heq => cases heq
    case h_3 heq => exact absurd (List.cons.inj heq).2 (hne _)
    case h_4 heq => cases heq
    case h_5 cs _ heq =>
      rw [← (List.cons.inj heq).2, hread, Except.map]
      refine congrArg Except.ok ?_
      show -((-version).toNat : ℤ) = version
      omega
    case h_6 hminus => exact absurd rfl (hminus _)

theorem toString_injective {v w : ℤ} (h : toString v = toString w) : v = w := by
  -- both fit in a type that is large enough
  have hfits : ∀ {u : ℤ}, u.natAbs ≤ max v.natAbs w.natAbs →
      Text.parseSigned (max v.natAbs w.natAbs + 1) (toString u) = .ok u := by
    intro u hu
    have hlt : max v.natAbs w.natAbs < 2 ^ max v.natAbs w.natAbs := Nat.lt_two_pow_self
    have hcast : ((2 ^ max v.natAbs w.natAbs : ℕ) : ℤ) = 2 ^ max v.natAbs w.natAbs := by norm_cast
    exact parseSigned_toString (by omega) (by omega)
  have hv := hfits (u := v) (Nat.le_max_left _ _)
  rw [h, hfits (Nat.le_max_right _ _)] at hv
  exact (Except.ok.inj hv).symm

theorem isPlain_of_mem_toString {version : ℤ} {c : Char} (h : c ∈ (toString version).toList) :
    isPlain c = true := by
  have hdigit : ∀ n : ℕ, c ∈ n.repr.toList → isPlain c = true := by
    intro n hc
    rw [Nat.toList_repr] at hc
    have hc := Nat.isDigit_of_mem_toDigits (by decide) (by decide) hc
    rw [Char.isDigit_iff_toNat] at hc
    simp only [Char.reduceToNat] at hc
    simp [isPlain, hc]
  rw [Int.toString_eq_repr, Int.repr_eq_if] at h
  split at h
  · exact hdigit _ h
  · rw [String.toList_append, List.mem_append] at h
    rcases h with hminus | hc
    · obtain rfl : c = '-' := List.mem_singleton.mp hminus
      decide
    · exact hdigit _ hc

/-- Two versions of an asset are not in one file. -/
theorem key_versionedName_inj {kind : AssetKind} {id : String} {v w : ℤ} :
    fs.key (versionedName kind id v) = fs.key (versionedName kind id w) ↔ v = w := by
  refine ⟨fun h => toString_injective (String.toList_inj.mp ?_), fun h => h ▸ rfl⟩
  rw [versionedName, versionedName, fs.key_append, fs.key_append, fs.key_append,
    fs.key_append] at h
  have hkeys := List.append_cancel_left (List.append_cancel_right h)
  rwa [fs.key_of_plain fun _ => isPlain_of_mem_toString,
    fs.key_of_plain fun _ => isPlain_of_mem_toString] at hkeys

/-- The file of a version tells the version. -/
theorem toldVersion_versionedName {kind : AssetKind} {id : String} {version : ℤ}
    (hlow : -2 ^ 63 ≤ version) (hhigh : version < 2 ^ 63) :
    toldVersion (sanitizeAssetFileStem id) kind.latestSuffix (versionedName kind id version) =
      some version := by
  have hfile : isVersionFile (sanitizeAssetFileStem id) kind.latestSuffix
      (versionedName kind id version) = true := by
    rw [isVersionFile, Bool.and_eq_true, Text.startsWith_iff]
    refine ⟨?_, Text.endsWith_append _ _⟩
    rw [versionedName, String.append_assoc, String.toList_append]
    exact List.prefix_append _ _
  obtain ⟨text, htext, hname⟩ := versionText_eq_some hfile
  have htoString : toString version = text := by
    have hlists := congrArg String.toList hname
    simp only [versionedName, String.toList_append] at hlists
    exact String.toList_inj.mp (List.append_cancel_left (List.append_cancel_right hlists))
  rw [toldVersion, fileVersion, if_pos hfile, htext, ← htoString, Option.map_some,
    parseSigned_toString hlow hhigh]
  rfl

/-- A version that is told is a number of the program. -/
theorem toldVersion_range {kind : AssetKind} {stem name : String} {version : ℤ}
    (h : toldVersion stem kind.latestSuffix name = some version) :
    -2 ^ 63 ≤ version ∧ version < 2 ^ 63 := by
  rw [toldVersion, Option.join_eq_some_iff, fileVersion] at h
  split at h
  case isFalse => cases h
  case isTrue =>
    obtain ⟨text, -, htext⟩ := Option.map_eq_some_iff.mp h
    exact Text.parseSigned_range (toOption_eq_some.mp htext)

/-! ## The next version -/

/-- The versions that the names in the directory tell. -/
def toldVersions (folder : AssetFolder fs) (id : String) : List ℤ :=
  folder.versions.names.filterMap
    (toldVersion (sanitizeAssetFileStem id) AssetKind.device.latestSuffix)

variable {folder : AssetFolder fs} {id : String}

/-- The next version is one more than the newest one, as long as there is such a number. -/
theorem nextDeviceAssetVersion_spec (folder : AssetFolder fs) (id : String) :
    toldVersions folder id = [] ∧ nextDeviceAssetVersion folder id = 1 ∨
      ∃ newest ∈ toldVersions folder id, (∀ version ∈ toldVersions folder id, version ≤ newest) ∧
        nextDeviceAssetVersion folder id = saturatingAddOne newest := by
  rw [nextDeviceAssetVersion, nextAssetVersion, listVersionFiles_eq, ← toldVersions]
  have hsorted : ((toldVersions folder id).mergeSort fun a b => decide (b ≤ a)).Pairwise
      fun a b => decide (b ≤ a) = true :=
    List.pairwise_mergeSort (fun a b c hab hbc => by simp only [decide_eq_true_eq] at *; omega)
      (fun a b => by simp only [Bool.or_eq_true, decide_eq_true_eq]; omega) (toldVersions folder id)
  have hperm := List.mergeSort_perm (toldVersions folder id) fun a b => decide (b ≤ a)
  cases hlist : (toldVersions folder id).mergeSort fun a b => decide (b ≤ a) with
  | nil =>
      refine .inl ⟨?_, rfl⟩
      rw [List.eq_nil_iff_forall_not_mem]
      intro version hversion
      rw [← hperm.mem_iff, hlist] at hversion
      cases hversion
  | cons newest rest =>
      rw [hlist, List.pairwise_cons] at hsorted
      have hmem : ∀ version, version ∈ toldVersions folder id ↔ version ∈ newest :: rest := by
        intro version
        rw [← hlist, hperm.mem_iff]
      refine .inr ⟨newest, (hmem newest).mpr List.mem_cons_self, fun version hversion => ?_, rfl⟩
      rcases List.mem_cons.mp ((hmem version).mp hversion) with rfl | hrest
      · exact le_rfl
      · exact of_decide_eq_true (hsorted.1 version hrest)

theorem nextDeviceAssetVersion_range (folder : AssetFolder fs) (id : String) :
    -2 ^ 63 ≤ nextDeviceAssetVersion folder id ∧ nextDeviceAssetVersion folder id < 2 ^ 63 := by
  rcases nextDeviceAssetVersion_spec folder id with ⟨-, hnext⟩ | ⟨newest, hmem, -, hnext⟩
  · rw [hnext]
    decide
  · obtain ⟨name, -, htold⟩ := List.mem_filterMap.mp hmem
    have hrange := toldVersion_range htold
    rw [hnext, saturatingAddOne]
    omega

/-- Behind each version that a file tells there is the next one. -/
theorem saturatingAddOne_le_next {name : String} {version : ℤ}
    (hname : name ∈ folder.versions.names)
    (htold : toldVersion (sanitizeAssetFileStem id) AssetKind.device.latestSuffix name =
      some version) : saturatingAddOne version ≤ nextDeviceAssetVersion folder id := by
  have hmem : version ∈ toldVersions folder id := List.mem_filterMap.mpr ⟨name, hname, htold⟩
  rcases nextDeviceAssetVersion_spec folder id with ⟨hnil, -⟩ | ⟨newest, -, hmax, hnext⟩
  · rw [hnil] at hmem
    cases hmem
  · have hle := hmax version hmem
    rw [hnext, saturatingAddOne, saturatingAddOne]
    omega

theorem next_of_told {newest : ℤ} (hmem : newest ∈ toldVersions folder id)
    (hmax : ∀ version ∈ toldVersions folder id, version ≤ newest) :
    nextDeviceAssetVersion folder id = saturatingAddOne newest := by
  rcases nextDeviceAssetVersion_spec folder id with ⟨hnil, -⟩ | ⟨other, hother, hle, hnext⟩
  · rw [hnil] at hmem
    cases hmem
  · rw [hnext, le_antisymm (hmax other hother) (hle newest hmem)]

theorem next_congr {folder' : AssetFolder fs} (h : folder'.versions.names = folder.versions.names) :
    nextDeviceAssetVersion folder' id = nextDeviceAssetVersion folder id := by
  rw [nextDeviceAssetVersion, nextDeviceAssetVersion, nextAssetVersion, nextAssetVersion,
    listVersionFiles_eq, listVersionFiles_eq, h]

/-! ## What is kept -/

section Keep

variable {host : SnapshotHost} {yaml label description createdAt : String}

theorem load_write (version other : ℤ) :
    loadDeviceAssetVersionYaml (writeDeviceAssetYaml folder id version yaml) id other =
      if other = version then some yaml else loadDeviceAssetVersionYaml folder id other := by
  refine (Directory.read_write ..).trans ?_
  simp only [key_versionedName_inj]
  rfl

/-- The text is a version now, and the others are as before. -/
theorem load_keepVersion (version : ℤ) :
    loadDeviceAssetVersionYaml (keepVersion host folder id yaml label description createdAt) id
        version =
      if version = nextDeviceAssetVersion folder id then some (Text.trim yaml)
      else loadDeviceAssetVersionYaml folder id version := by
  have hversions : (keepVersion host folder id yaml label description createdAt).versions =
      (writeDeviceAssetYaml folder id (nextDeviceAssetVersion folder id)
        (Text.trim yaml)).versions := rfl
  rw [loadDeviceAssetVersionYaml, hversions, ← loadDeviceAssetVersionYaml, load_write]

theorem latest_ne_snapshots (id : String) :
    fs.key (latestName .device id) ≠ fs.key (snapshotsName id) := by
  have hsnapshots : fs.key snapshotsSuffix = snapshotsSuffix.toList :=
    fs.key_of_plain (List.all_eq_true.mp (by decide))
  rw [latestName, snapshotsName, fs.key_append, fs.key_append, key_latestSuffix, hsnapshots]
  intro heq
  exact absurd (List.append_cancel_left heq) (by decide)

theorem latest_keepVersion :
    (keepVersion host folder id yaml label description createdAt).latest.read
      (latestName .device id) = some (Text.trim yaml) := by
  refine (Directory.read_write ..).trans ((if_neg (latest_ne_snapshots id)).trans ?_)
  exact (Directory.read_write ..).trans (if_pos rfl)

/-- What is noted of the version comes first. -/
theorem snapshots_keepVersion :
    (keepVersion host folder id yaml label description createdAt).latest.read (snapshotsName id) =
      some (host.print ((⟨nextDeviceAssetVersion folder id, label, description, .rollback,
        createdAt⟩ :: (storedSnapshots host folder id).filter fun s =>
          s.version ≠ nextDeviceAssetVersion folder id).take maxSnapshots)) := by
  have hother : storedSnapshots host (writeDeviceAssetYaml folder id
      (nextDeviceAssetVersion folder id) (Text.trim yaml)) id = storedSnapshots host folder id := by
    rw [storedSnapshots, writeDeviceAssetYaml, Directory.read_write,
      if_neg (latest_ne_snapshots id).symm, ← storedSnapshots]
  rw [keepVersion, appendDeviceSnapshot, hother]
  exact (Directory.read_write ..).trans (if_pos rfl)

theorem storedSnapshots_keepVersion :
    storedSnapshots host (keepVersion host folder id yaml label description createdAt) id =
      (⟨nextDeviceAssetVersion folder id, label, description, .rollback, createdAt⟩ ::
        (storedSnapshots host folder id).filter fun s =>
          s.version ≠ nextDeviceAssetVersion folder id).take maxSnapshots := by
  rw [storedSnapshots, snapshots_keepVersion, Option.bind_some, host.parse_print, Option.getD_some]

theorem names_keepVersion (host : SnapshotHost) (folder : AssetFolder fs)
    (id yaml label description createdAt : String) {name : String}
    (h : name ∈ folder.versions.names) :
    name ∈ (keepVersion host folder id yaml label description createdAt).versions.names :=
  Directory.mem_names_write.mpr (.inl h)

/-- If there was no file for the version, then there is one now, with its name. -/
theorem mem_names_keepVersion
    (h : loadDeviceAssetVersionYaml folder id (nextDeviceAssetVersion folder id) = none) :
    versionedName .device id (nextDeviceAssetVersion folder id) ∈
      (keepVersion host folder id yaml label description createdAt).versions.names := by
  refine Directory.mem_names_write.mpr (.inr ⟨rfl, fun name hname hkey => ?_⟩)
  obtain ⟨text, hfile⟩ := Directory.mem_names.mp hname
  have hread := Directory.read_eq_some.mpr ⟨name, hfile, hkey⟩
  rw [← loadDeviceAssetVersionYaml, h] at hread
  cases hread

/-- A version that was kept is still noted when one more is kept. -/
theorem mem_storedSnapshots {version : ℤ} {label' description' createdAt' yaml' : String}
    (h : version = nextDeviceAssetVersion folder id) :
    version ∈ (storedSnapshots host (keepVersion host
      (keepVersion host folder id yaml label description createdAt) id yaml' label' description'
        createdAt') id).map DeviceSnapshotMeta.version := by
  have hmax : maxSnapshots = 18 + 1 + 1 := rfl
  rw [storedSnapshots_keepVersion, storedSnapshots_keepVersion, hmax, List.take_succ_cons,
    List.take_succ_cons]
  by_cases hsame : version = nextDeviceAssetVersion
      (keepVersion host folder id yaml label description createdAt) id
  · exact List.mem_map.mpr ⟨_, List.mem_cons_self, hsame.symm⟩
  · rw [List.filter_cons_of_pos (by simpa [← h] using hsame), List.take_succ_cons]
    exact List.mem_map.mpr ⟨_, List.mem_cons_of_mem _ List.mem_cons_self, h.symm⟩

/-- If there was one, then it is written over, and the next version stays the same. -/
theorem next_keepVersion_of_isSome
    (h : loadDeviceAssetVersionYaml folder id (nextDeviceAssetVersion folder id) ≠ none) :
    nextDeviceAssetVersion (keepVersion host folder id yaml label description createdAt) id =
      nextDeviceAssetVersion folder id := by
  obtain ⟨text, htext⟩ := Option.ne_none_iff_exists'.mp h
  obtain ⟨name, hfile, hkey⟩ := Directory.read_eq_some.mp htext
  exact next_congr ((Directory.names_write ..).trans (if_pos ⟨_, hfile, hkey⟩))

/-- A new version is the next one again only if there are no more numbers. -/
theorem eq_next_of_mem_names {version : ℤ} (hlow : -2 ^ 63 ≤ version) (hhigh : version < 2 ^ 63)
    (hmem : versionedName .device id version ∈ folder.versions.names)
    (h : nextDeviceAssetVersion folder id = version) : version = 2 ^ 63 - 1 := by
  have hle := saturatingAddOne_le_next hmem (toldVersion_versionedName hlow hhigh)
  rw [h, saturatingAddOne] at hle
  omega

end Keep

/-! ## Rolling back -/

section Rollback

variable {host : SnapshotHost} {currentYaml text keptAt restoredAt : String} {targetVersion : ℤ}

theorem rollback_of_none (hcurrent : folder.latest.read (latestName .device id) = some currentYaml)
    (h : loadDeviceAssetVersionYaml (keepCurrent host folder id currentYaml targetVersion keptAt) id
      targetVersion = none) :
    rollbackDeviceSnapshot host folder id targetVersion keptAt restoredAt =
      (keepCurrent host folder id currentYaml targetVersion keptAt,
        .error (noSnapshot targetVersion)) := by
  rw [rollbackDeviceSnapshot, hcurrent]
  dsimp only
  rw [h]

theorem rollback_of_some (hcurrent : folder.latest.read (latestName .device id) = some currentYaml)
    (h : loadDeviceAssetVersionYaml (keepCurrent host folder id currentYaml targetVersion keptAt) id
      targetVersion = some text) :
    rollbackDeviceSnapshot host folder id targetVersion keptAt restoredAt =
      (restoreTarget host (keepCurrent host folder id currentYaml targetVersion keptAt) id text
        targetVersion restoredAt, .ok ()) := by
  rw [rollbackDeviceSnapshot, hcurrent]
  dsimp only
  rw [h]

/-- One may go back to a version that is there without white space at its ends, unless it is the
next version and other text is kept there. -/
theorem rollback_of_load
    (hcurrent : folder.latest.read (latestName .device id) = some currentYaml)
    (htext : loadDeviceAssetVersionYaml folder id targetVersion = some text)
    (htrim : Text.trim text = text)
    (hnext : targetVersion = nextDeviceAssetVersion folder id → Text.trim currentYaml = text) :
    (rollbackDeviceSnapshot host folder id targetVersion keptAt restoredAt).2 = .ok () ∧
      (rollbackDeviceSnapshot host folder id targetVersion keptAt restoredAt).1.latest.read
        (latestName .device id) = some text := by
  have hload : loadDeviceAssetVersionYaml
      (keepCurrent host folder id currentYaml targetVersion keptAt) id targetVersion =
        some text := by
    rw [keepCurrent, load_keepVersion]
    split
    · next heq => rw [hnext heq]
    · exact htext
  rw [rollback_of_some hcurrent hload]
  exact ⟨rfl, latest_keepVersion.trans (congrArg some htrim)⟩

variable (host folder id targetVersion keptAt) in
/-- What is where the target's text is going to be written. -/
theorem load_next_keepCurrent (htrim : Text.trim currentYaml = currentYaml) :
    loadDeviceAssetVersionYaml (keepCurrent host folder id currentYaml targetVersion keptAt) id
        (nextDeviceAssetVersion (keepCurrent host folder id currentYaml targetVersion keptAt) id) =
      loadDeviceAssetVersionYaml
        (writeDeviceAssetYaml folder id (nextDeviceAssetVersion folder id) currentYaml) id
        (nextDeviceAssetVersion (writeDeviceAssetYaml folder id (nextDeviceAssetVersion folder id)
          currentYaml) id) := by
  have hversions : (keepCurrent host folder id currentYaml targetVersion keptAt).versions =
      (writeDeviceAssetYaml folder id (nextDeviceAssetVersion folder id) currentYaml).versions :=
    congrArg (folder.versions.write _) htrim
  have hnext : nextDeviceAssetVersion (keepCurrent host folder id currentYaml targetVersion keptAt)
      id = nextDeviceAssetVersion (writeDeviceAssetYaml folder id
        (nextDeviceAssetVersion folder id) currentYaml) id :=
    next_congr (congrArg Directory.names hversions)
  rw [hnext, loadDeviceAssetVersionYaml, hversions, ← loadDeviceAssetVersionYaml]

/-- A text that is kept where there was none changes no version. -/
theorem read_keepVersion {label description createdAt yaml other name : String}
    (hnext : ∀ old, loadDeviceAssetVersionYaml folder id (nextDeviceAssetVersion folder id) =
      some old → old = Text.trim yaml)
    (h : folder.versions.read name = some other) :
    (keepVersion host folder id yaml label description createdAt).versions.read name =
      some other := by
  refine (Directory.read_write ..).trans ?_
  split
  case isTrue hkey =>
    have hsame : folder.versions.read name = loadDeviceAssetVersionYaml folder id
        (nextDeviceAssetVersion folder id) := by
      rw [loadDeviceAssetVersionYaml, Directory.read, Directory.read, hkey]
    rw [hnext other (hsame.symm.trans h)]
  case isFalse => exact h

/-- A rollback to such a target is atomic, and can be undone. -/
theorem Restorable.rollsBack
    (hcurrent : folder.latest.read (latestName .device id) = some currentYaml)
    (h : Restorable folder id currentYaml targetVersion text) :
    RollsBack host folder id currentYaml targetVersion := by
  intro keptAt restoredAt
  have hne : targetVersion ≠ nextDeviceAssetVersion folder id := by
    rintro rfl
    exact absurd (h.free.symm.trans h.target) (by simp)
  have hnext := load_next_keepCurrent folder id host keptAt targetVersion h.trim_current
  obtain ⟨kept, hkept⟩ : ∃ kept, kept =
    keepCurrent host folder id currentYaml targetVersion keptAt := ⟨_, rfl⟩
  rw [← hkept] at hnext
  have hload : ∀ version, loadDeviceAssetVersionYaml kept id version =
      if version = nextDeviceAssetVersion folder id then some currentYaml
      else loadDeviceAssetVersionYaml folder id version := fun version => by
    rw [hkept, keepCurrent, load_keepVersion, h.trim_current]
  have hfree : ∀ old, loadDeviceAssetVersionYaml kept id (nextDeviceAssetVersion kept id) =
      some old → old = Text.trim text := fun old hold => by
    rw [h.trim_text]
    exact h.next_free old (hnext.symm.trans hold)
  have htarget : loadDeviceAssetVersionYaml kept id targetVersion = some text := by
    rw [hload, if_neg hne, h.target]
  rw [rollback_of_some hcurrent (hkept ▸ htarget), ← hkept]
  obtain ⟨after, hafter⟩ : ∃ after, after =
    restoreTarget host kept id text targetVersion restoredAt := ⟨_, rfl⟩
  rw [← hafter]
  have hlatest : after.latest.read (latestName .device id) = some text := by
    rw [hafter, restoreTarget, latest_keepVersion, h.trim_text]
  have hkeptText : loadDeviceAssetVersionYaml after id (nextDeviceAssetVersion folder id) =
      some currentYaml := by
    have hbefore : loadDeviceAssetVersionYaml kept id (nextDeviceAssetVersion folder id) =
        some currentYaml := by rw [hload, if_pos rfl]
    rw [hafter]
    exact read_keepVersion hfree hbefore
  refine ⟨fun _ => ⟨⟨text, h.target, hlatest⟩, ?_, ?_⟩, fun herror => ?_⟩
  · intro name other hother
    rw [hafter]
    refine read_keepVersion hfree ?_
    rw [hkept]
    exact read_keepVersion (fun old hold => absurd (h.free.symm.trans hold) (by simp)) hother
  · refine ⟨nextDeviceAssetVersion folder id, h.free, hkeptText, ?_, fun keptAt' restoredAt' =>
      rollback_of_load hlatest hkeptText h.trim_current fun heq => ?_⟩
    · rw [hafter, restoreTarget, hkept, keepCurrent]
      exact mem_storedSnapshots rfl
    · -- there are no more numbers, so that the target's text was kept in the same place
      obtain ⟨hlow, hhigh⟩ := nextDeviceAssetVersion_range folder id
      have hmem : versionedName .device id (nextDeviceAssetVersion folder id) ∈
          kept.versions.names := by
        rw [hkept]
        exact mem_names_keepVersion h.free
      have hmemAfter : versionedName .device id (nextDeviceAssetVersion folder id) ∈
          after.versions.names := by
        rw [hafter]
        exact names_keepVersion _ _ _ _ _ _ _ hmem
      have hmax := eq_next_of_mem_names hlow hhigh hmemAfter heq.symm
      have hle := saturatingAddOne_le_next hmem (toldVersion_versionedName hlow hhigh)
      have hrange := nextDeviceAssetVersion_range kept id
      rw [saturatingAddOne] at hle
      have hsame : nextDeviceAssetVersion kept id = nextDeviceAssetVersion folder id := by omega
      refine (hfree currentYaml ?_).symm
      rw [hsame, hload, if_pos rfl]
  · cases herror

/-- The target of a rollback that is atomic, and can be undone, is restorable. -/
theorem exists_restorable
    (hcurrent : folder.latest.read (latestName .device id) = some currentYaml)
    (h : RollsBack host folder id currentYaml targetVersion) :
    ∃ text, Restorable folder id currentYaml targetVersion text := by
  have hload : ∀ keptAt version, loadDeviceAssetVersionYaml
      (keepCurrent host folder id currentYaml targetVersion keptAt) id version =
        if version = nextDeviceAssetVersion folder id then some (Text.trim currentYaml)
        else loadDeviceAssetVersionYaml folder id version :=
    fun keptAt version => load_keepVersion version
  cases htarget : loadDeviceAssetVersionYaml
      (keepCurrent host folder id currentYaml targetVersion "") id targetVersion with
  | none =>
      -- what is noted tells the time
      have hnoted : ∀ keptAt, (keepCurrent host folder id currentYaml targetVersion
          keptAt).latest.read (snapshotsName id) = folder.latest.read (snapshotsName id) := by
        intro keptAt
        have hnone : loadDeviceAssetVersionYaml (keepCurrent host folder id currentYaml
            targetVersion keptAt) id targetVersion = none := by rw [hload, ← hload "", htarget]
        have hunchanged := (h keptAt "").2
        rw [rollback_of_none hcurrent hnone] at hunchanged
        exact (hunchanged rfl).snapshots
      have hsame := (hnoted "").trans (hnoted "0").symm
      rw [keepCurrent, keepCurrent, snapshots_keepVersion, snapshots_keepVersion] at hsame
      have hlists := congrArg host.parse (Option.some.inj hsame)
      rw [host.parse_print, host.parse_print] at hlists
      have hmetas := (List.cons.inj (Option.some.inj hlists)).1
      exact absurd (DeviceSnapshotMeta.mk.inj hmetas).2.2.2.2 (by decide)
  | some targetYaml =>
      have hrestored := (h "" "").1
      rw [rollback_of_some hcurrent htarget] at hrestored
      obtain ⟨⟨text, htext, hlatest⟩, hearlier, version, hnew, hversion, -, -⟩ := hrestored rfl
      have hload := hload ""
      obtain ⟨kept, hkept⟩ : ∃ kept, kept =
        keepCurrent host folder id currentYaml targetVersion "" := ⟨_, rfl⟩
      rw [← hkept] at hload htarget hlatest hversion hearlier
      have htrim : Text.trim targetYaml = text :=
        Option.some.inj (latest_keepVersion.symm.trans hlatest)
      have hafter : ∀ version, loadDeviceAssetVersionYaml
          (restoreTarget host kept id targetYaml targetVersion "") id version =
            if version = nextDeviceAssetVersion kept id then some text
            else loadDeviceAssetVersionYaml kept id version := fun version => by
        rw [restoreTarget, load_keepVersion, htrim]
      -- the former text is where the target's text was written, or where it was kept before
      have hplace : version = nextDeviceAssetVersion kept id ∧ currentYaml = text ∨
          version ≠ nextDeviceAssetVersion kept id ∧ version = nextDeviceAssetVersion folder id ∧
            currentYaml = Text.trim currentYaml := by
        rw [hafter] at hversion
        by_cases hrestore : version = nextDeviceAssetVersion kept id
        · rw [if_pos hrestore] at hversion
          exact .inl ⟨hrestore, (Option.some.inj hversion).symm⟩
        · rw [if_neg hrestore, hload] at hversion
          by_cases hkeep : version = nextDeviceAssetVersion folder id
          · rw [if_pos hkeep] at hversion
            exact .inr ⟨hrestore, hkeep, (Option.some.inj hversion).symm⟩
          · rw [if_neg hkeep, hnew] at hversion
            cases hversion
      have hfree : loadDeviceAssetVersionYaml folder id (nextDeviceAssetVersion folder id) =
          none := by
        by_contra hsome
        have hsame : nextDeviceAssetVersion kept id = nextDeviceAssetVersion folder id := by
          rw [hkept]
          exact next_keepVersion_of_isSome hsome
        rcases hplace with ⟨rfl, -⟩ | ⟨-, rfl, -⟩
        · exact hsome (hsame ▸ hnew)
        · exact hsome hnew
      have hne : targetVersion ≠ nextDeviceAssetVersion folder id := by
        rintro rfl
        exact absurd (hfree.symm.trans htext) (by simp)
      rw [hload, if_neg hne] at htarget
      obtain rfl : targetYaml = text := Option.some.inj (htarget.symm.trans htext)
      have htrimCurrent : Text.trim currentYaml = currentYaml := by
        rcases hplace with ⟨-, rfl⟩ | ⟨-, -, heq⟩
        · exact htrim
        · exact heq.symm
      refine ⟨targetYaml, htext, htrim, htrimCurrent, hfree, fun other hother => ?_⟩
      rw [← load_next_keepCurrent folder id host "" targetVersion htrimCurrent, ← hkept,
        hload] at hother
      by_cases hsame : nextDeviceAssetVersion kept id = nextDeviceAssetVersion folder id
      · rw [if_pos hsame, htrimCurrent] at hother
        rcases hplace with ⟨-, heq⟩ | ⟨hother', hfolder, -⟩
        · exact (Option.some.inj hother).symm.trans heq
        · exact absurd (hfolder.trans hsame.symm) hother'
      · rw [if_neg hsame] at hother
        have hread := hearlier _ other hother
        rw [← loadDeviceAssetVersionYaml, hafter, if_pos rfl] at hread
        exact (Option.some.inj hread).symm

end Rollback

/-- A rollback is atomic, and can be undone, exactly if its target is there, no white space is at
the ends of it or of the latest text, and no other text is where they are kept. -/
theorem rollsBack_iff (host : SnapshotHost) (targetVersion : ℤ) {currentYaml : String}
    (hcurrent : folder.latest.read (latestName .device id) = some currentYaml) :
    RollsBack host folder id currentYaml targetVersion ↔
      ∃ text, Restorable folder id currentYaml targetVersion text :=
  ⟨exists_restorable hcurrent, fun ⟨_, h⟩ => h.rollsBack hcurrent⟩

/-! ## Two rollbacks -/

/-- A text on one line. -/
def escapedLine (text : List Char) : List Char :=
  text.flatMap fun c => if c = '\\' then ['\\', '\\'] else if c = '\n' then ['\\', 'n'] else [c]

def unescapedLine : List Char → List Char
  | '\\' :: 'n' :: rest => '\n' :: unescapedLine rest
  | '\\' :: c :: rest => c :: unescapedLine rest
  | c :: rest => c :: unescapedLine rest
  | [] => []

theorem unescapedLine_escapedLine (text : List Char) : unescapedLine (escapedLine text) = text := by
  induction text with
  | nil => rfl
  | cons c text ih =>
      rw [escapedLine, List.flatMap_cons, ← escapedLine]
      by_cases hslash : c = '\\'
      · rw [if_pos hslash, hslash]
        exact congrArg (List.cons '\\') ih
      · by_cases hline : c = '\n'
        · rw [if_neg hslash, if_pos hline, hline]
          exact congrArg (List.cons '\n') ih
        · rw [if_neg hslash, if_neg hline, List.singleton_append, unescapedLine.eq_3, ih]
          all_goals
            intros
            exact absurd ‹_› hslash

theorem newline_notMem_escapedLine (text : List Char) : '\n' ∉ escapedLine text := by
  intro h
  obtain ⟨c, -, hc⟩ := List.mem_flatMap.mp h
  split at hc
  · exact absurd hc (by decide)
  · split at hc
    · exact absurd hc (by decide)
    · next hne => exact hne (List.mem_singleton.mp hc).symm

/-- A line with a key and a text. -/
def metaLine (key text : String) : List Char := key.toList ++ escapedLine text.toList ++ ['\n']

theorem metaLine_inj {key s t : String} {rest rest' : List Char}
    (h : metaLine key s ++ rest = metaLine key t ++ rest') : s = t ∧ rest = rest' := by
  rw [metaLine, metaLine] at h
  simp only [List.append_assoc, List.singleton_append] at h
  obtain ⟨htext, hrest⟩ := append_cons_inj (newline_notMem_escapedLine _) (newline_notMem_escapedLine _)
    (List.append_cancel_left h)
  refine ⟨String.toList_inj.mp ?_, hrest⟩
  rw [← unescapedLine_escapedLine s.toList, htext, unescapedLine_escapedLine]

def SnapshotReason.text : SnapshotReason → String
  | seed => "seed"
  | manual => "manual"
  | imported => "import"
  | edit => "edit"
  | rollback => "rollback"

/-- The lines of a snapshot. -/
def metaLines (snapshot : DeviceSnapshotMeta) : List Char :=
  metaLine "- version: " (toString snapshot.version) ++
    (metaLine "  label: " snapshot.label ++ (metaLine "  description: " snapshot.description ++
      (metaLine "  reason: " snapshot.reason.text ++
        metaLine "  created_at: " snapshot.createdAt)))

theorem metaLines_inj {a b : DeviceSnapshotMeta} {rest rest' : List Char}
    (h : metaLines a ++ rest = metaLines b ++ rest') : a = b ∧ rest = rest' := by
  simp only [metaLines, List.append_assoc] at h
  obtain ⟨hversion, h⟩ := metaLine_inj h
  obtain ⟨hlabel, h⟩ := metaLine_inj h
  obtain ⟨hdescription, h⟩ := metaLine_inj h
  obtain ⟨hreason, h⟩ := metaLine_inj h
  obtain ⟨hcreated, hrest⟩ := metaLine_inj h
  have hreasons : a.reason = b.reason := by
    revert hreason
    cases a.reason <;> cases b.reason <;> decide
  cases a
  cases b
  cases toString_injective hversion
  cases hlabel
  cases hdescription
  cases hreasons
  cases hcreated
  exact ⟨rfl, hrest⟩

def printSnapshots (snapshots : List DeviceSnapshotMeta) : String :=
  String.ofList (snapshots.flatMap metaLines)

theorem printSnapshots_injective : Function.Injective printSnapshots := by
  intro l l' h
  have h := String.ofList_injective h
  have hne : ∀ (a : DeviceSnapshotMeta) rest, metaLines a ++ rest ≠ [] := fun a rest heq => by
    cases heq
  induction l generalizing l' with
  | nil =>
      cases l' with
      | nil => rfl
      | cons b l' => exact absurd h.symm (hne b _)
  | cons a l ih =>
      cases l' with
      | nil => exact absurd h (hne a _)
      | cons b l' =>
          rw [List.flatMap_cons, List.flatMap_cons] at h
          obtain ⟨rfl, hrest⟩ := metaLines_inj h
          rw [ih (congrArg String.ofList hrest) hrest]

/-- A host that parses what it prints, and nothing else. -/
noncomputable def plainHost : SnapshotHost where
  notFound := "No such file or directory (os error 2)"
  print := printSnapshots
  parse := Function.partialInv printSnapshots
  parse_print snapshots := (printSnapshots_injective.isPartialInv snapshots _).mpr rfl

/-- A device with the text `a` as its first version and `b` as its latest text. -/
def pumpFolder : AssetFolder FileSystem.caseSensitive where
  latest := Lib.Directory.empty.write (latestName .device "pump") "b"
  versions := Lib.Directory.empty.write (versionedName .device "pump" 1) "a"

theorem next_pumpFolder : nextDeviceAssetVersion pumpFolder "pump" = 2 := by
  have hmem : 1 ∈ toldVersions pumpFolder "pump" := by decide
  rw [next_of_told hmem (by decide)]
  decide

/-- Going back to the version that is there. -/
theorem pump_rollsBack : RollsBack plainHost pumpFolder "pump" "b" 1 := by
  refine (rollsBack_iff plainHost 1 rfl).mpr ⟨"a", ⟨rfl, by decide, by decide, ?_, ?_⟩⟩
  · rw [next_pumpFolder]
    decide
  · intro other
    have hmem : 2 ∈ toldVersions (writeDeviceAssetYaml pumpFolder "pump" 2 "b") "pump" := by decide
    have hnext := next_of_told hmem (by decide)
    rw [next_pumpFolder]
    dsimp only
    rw [hnext]
    intro hother
    cases hother

/-- Going back to a version that is not there leaves a new one behind. -/
theorem pump_version_left : ¬ RollsBack plainHost pumpFolder "pump" "b" 3 := by
  intro h
  have hcurrent : pumpFolder.latest.read (latestName .device "pump") = some "b" := rfl
  have hload : ∀ version, loadDeviceAssetVersionYaml
      (keepCurrent plainHost pumpFolder "pump" "b" 3 "") "pump" version =
        if version = 2 then some "b" else loadDeviceAssetVersionYaml pumpFolder "pump" version := by
    intro version
    rw [keepCurrent, load_keepVersion, next_pumpFolder]
    rfl
  have hunchanged := (h "" "").2
  rw [rollback_of_none hcurrent (hload 3)] at hunchanged
  have hversion := (hunchanged rfl).versions (versionedName .device "pump" 2)
  rw [← loadDeviceAssetVersionYaml, hload, if_pos rfl] at hversion
  cases hversion

end Nazh
