import Nazh.Desktop.AssetFiles

/-!
# Assets that share files

Two assets are apart when their stems are not taken for one, and neither goes on from the other with
the mark of a version.
-/

namespace Nazh

open Lib

variable {fs : FileSystem} {kind : AssetKind}

/-- What can be seen of an asset. -/
structure AssetView where
  latest : Option String
  versions : Option (List ℤ)
  nextVersion : Option ℤ
  /-- What `load_version_yaml` reads of each version. -/
  versionText : ℤ → Option String

def assetView (kind : AssetKind) (folder : AssetFolder fs) (id : String) : AssetView where
  latest := folder.latest.read (latestName kind id)
  versions := listVersionFiles folder.versions (sanitizeAssetFileStem id) kind.latestSuffix
  nextVersion := nextAssetVersion kind folder.versions id
  versionText version := folder.versions.read (versionedName kind id version)

/-- The folder after some commands. -/
def afterCommands (kind : AssetKind) (folder : AssetFolder fs) (commands : List AssetCommand) :
    AssetFolder fs :=
  commands.foldl (AssetCommand.run kind) folder

/-- However many commands on the two assets there were, one more on either changes nothing that can
be seen of the other. -/
def KeepsApart (fs : FileSystem) (kind : AssetKind) (a b : String) : Prop :=
  ∀ (folder : AssetFolder fs) (before : List AssetCommand) (command : AssetCommand),
    (∀ c ∈ before, c.id = a ∨ c.id = b) →
    (command.id = a → assetView kind (afterCommands kind folder (before ++ [command])) b =
      assetView kind (afterCommands kind folder before) b) ∧
    (command.id = b → assetView kind (afterCommands kind folder (before ++ [command])) a =
      assetView kind (afterCommands kind folder before) a)

/-- The stems of the two ids are not taken for one, and neither is the other with `.v` and more. -/
structure Apart (fs : FileSystem) (a b : String) : Prop where
  stems : fs.key (sanitizeAssetFileStem a) ≠ fs.key (sanitizeAssetFileStem b)
  left : ¬ fs.key (versionStart (sanitizeAssetFileStem a)) <+: fs.key (sanitizeAssetFileStem b)
  right : ¬ fs.key (versionStart (sanitizeAssetFileStem b)) <+: fs.key (sanitizeAssetFileStem a)

theorem Apart.symm {a b : String} (h : Apart fs a b) : Apart fs b a :=
  ⟨h.stems.symm, h.right, h.left⟩

/-! ## Names -/

theorem key_versionStart (stem : String) : fs.key (versionStart stem) = fs.key stem ++ ['.', 'v'] := by
  have hmark : fs.key ".v" = ['.', 'v'] := fs.key_of_plain (List.all_eq_true.mp (by decide))
  rw [versionStart, fs.key_append, hmark]

theorem key_latestSuffix (kind : AssetKind) :
    fs.key kind.latestSuffix = kind.latestSuffix.toList :=
  fs.key_of_plain (List.all_eq_true.mp (by cases kind <;> decide))

/-- A stem with `.v` at the start of the name of a version is that of the version, or of a stem that
the version's stem goes on from. -/
theorem prefix_version {x y t suffix : List Char} (hsuffix : ¬ ['.', 'v'] <:+: suffix)
    (ht : '.' ∉ t) (h : x ++ ['.', 'v'] <+: y ++ ['.', 'v'] ++ t ++ suffix) :
    x = y ∨ x ++ ['.', 'v'] <+: y := by
  obtain ⟨rest, hrest⟩ := h
  have hinside : ∀ u r : List Char, t ++ suffix ≠ u ++ ('.' :: 'v' :: r) := by
    intro u r heq
    rcases List.append_eq_append_iff.mp heq with ⟨w, -, hw⟩ | ⟨w, rfl, hw⟩
    · exact hsuffix ⟨w, r, by simp [hw]⟩
    · match w, hw with
      | [], hw =>
          rw [List.nil_append] at hw
          exact hsuffix ⟨[], r, by simp [← hw]⟩
      | c :: w, hw =>
          obtain rfl : '.' = c := (List.cons.inj hw).1
          exact ht (List.mem_append_right u List.mem_cons_self)
  simp only [List.append_assoc, List.cons_append, List.nil_append] at hrest
  rcases List.append_eq_append_iff.mp hrest with ⟨u, rfl, hu⟩ | ⟨u, rfl, hu⟩
  · match u, hu with
    | [], _ => exact .inl (List.append_nil x).symm
    | [c], hu =>
        obtain rfl : '.' = c := (List.cons.inj hu).1
        exact absurd (List.cons.inj (List.cons.inj hu).2).1 (by decide)
    | c :: d :: u, hu =>
        obtain rfl : '.' = c := (List.cons.inj hu).1
        obtain rfl : 'v' = d := (List.cons.inj (List.cons.inj hu).2).1
        exact .inr ⟨u, by simp⟩
  · match u, hu with
    | [], _ => exact .inl (List.append_nil y)
    | [c], hu =>
        obtain rfl : '.' = c := (List.cons.inj hu).1
        exact absurd (List.cons.inj (List.cons.inj hu).2).1 (by decide)
    | c :: d :: u, hu =>
        obtain ⟨-, hu⟩ := List.cons.inj hu
        obtain ⟨-, hu⟩ := List.cons.inj hu
        exact absurd hu (hinside u rest)

/-- A name that begins like a version file of one asset is not taken for a version of the other. -/
theorem Apart.key_ne {a b name text : String} (h : Apart fs a b)
    (hname : Text.startsWith name (versionStart (sanitizeAssetFileStem a)) = true)
    (htext : '.' ∉ text.toList) :
    fs.key name ≠
      fs.key (versionStart (sanitizeAssetFileStem b) ++ text ++ kind.latestSuffix) := by
  intro hkey
  obtain ⟨rest, hrest⟩ := Text.startsWith_iff.mp hname
  have hfolded : '.' ∉ fs.key text := by
    intro hdot
    obtain ⟨c, hc, hfold⟩ := List.mem_map.mp hdot
    exact htext (fs.fold_dot c hfold ▸ hc)
  have hprefix : fs.key (sanitizeAssetFileStem a) ++ ['.', 'v'] <+:
      fs.key (sanitizeAssetFileStem b) ++ ['.', 'v'] ++ fs.key text ++ kind.latestSuffix.toList := by
    refine ⟨rest.map fs.fold, ?_⟩
    rw [← key_versionStart, ← key_versionStart, ← key_latestSuffix, ← fs.key_append,
      ← fs.key_append, ← hkey, FileSystem.key, FileSystem.key, ← List.map_append, hrest]
  rcases prefix_version kind.not_infix_latestSuffix hfolded hprefix with heq | hstart
  · exact h.stems heq
  · exact h.left (by rwa [key_versionStart])

/-- The digits of a version have no dot. -/
theorem dot_notMem_toString (version : ℤ) : '.' ∉ (toString version).toList := by
  have hdigits : ∀ n : ℕ, '.' ∉ n.repr.toList := by
    intro n hdot
    rw [Nat.toList_repr] at hdot
    exact absurd (Nat.isDigit_of_mem_toDigits (by decide) (by decide) hdot) (by decide)
  rw [Int.toString_eq_repr, Int.repr_eq_if]
  split
  · exact hdigits _
  · rw [String.toList_append, List.mem_append, not_or]
    exact ⟨by decide, hdigits _⟩

theorem dot_notMem_of_accumulate {bound acc n : ℕ} {overflow : Text.IntErrorKind} {cs : List Char}
    (h : Text.accumulate bound overflow acc cs = .ok n) : '.' ∉ cs := by
  induction cs generalizing acc with
  | nil => exact List.not_mem_nil
  | cons c cs ih =>
      rw [Text.accumulate] at h
      split at h
      case h_1 => cases h
      case h_2 d hd =>
        split at h
        case isTrue =>
          rw [List.mem_cons, not_or]
          refine ⟨?_, ih h⟩
          rintro rfl
          cases hd
        case isFalse => cases h

/-- A text that is parsed has no dot. -/
theorem dot_notMem_of_parseSigned {bits : ℕ} {text : String} {version : ℤ}
    (h : Text.parseSigned bits text = .ok version) : '.' ∉ text.toList := by
  have hmap : ∀ {bound : ℕ} {overflow : Text.IntErrorKind} {cs : List Char} {f : ℕ → ℤ},
      (Text.accumulate bound overflow 0 cs).map f = .ok version → '.' ∉ cs := by
    intro bound overflow cs f hmap
    cases hacc : Text.accumulate bound overflow 0 cs with
    | error e =>
        rw [hacc] at hmap
        cases hmap
    | ok n => exact dot_notMem_of_accumulate hacc
  unfold Text.parseSigned at h
  split at h
  case h_1 => cases h
  case h_2 => cases h
  case h_3 => cases h
  case h_4 cs _ htext =>
    rw [htext, List.mem_cons, not_or]
    exact ⟨by decide, hmap h⟩
  case h_5 cs _ htext =>
    rw [htext, List.mem_cons, not_or]
    exact ⟨by decide, hmap h⟩
  case h_6 => exact hmap h

/-! ## What a listed name looks like -/

/-- A version file is called by what was cut out of its name. -/
theorem versionText_eq_some {stem fileName : String}
    (h : isVersionFile stem kind.latestSuffix fileName = true) :
    ∃ text, versionText stem kind.latestSuffix fileName = some text ∧
      fileName = versionStart stem ++ text ++ kind.latestSuffix := by
  have hlength := length_of_isVersionFile h
  rw [isVersionFile, Bool.and_eq_true, Text.startsWith_iff, Text.endsWith_iff] at h
  obtain ⟨hstart, before, hbefore⟩ := h
  have hstop : fileName.toList.length - kind.latestSuffix.toList.length = before.length := by
    rw [← hbefore, List.length_append]
    omega
  obtain ⟨text, rfl⟩ : (versionStart stem).toList <+: before := by
    refine List.prefix_of_prefix_length_le hstart (hbefore ▸ List.prefix_append _ _) ?_
    omega
  refine ⟨String.ofList text, ?_, ?_⟩
  · rw [versionText, hstop, if_pos (by simp), ← hbefore, List.take_left, List.drop_left]
  · refine String.toList_inj.mp ?_
    rw [← hbefore, String.toList_append, String.toList_append, String.toList_ofList]

/-- The version that a name tells, when the name is cut without a panic. -/
theorem fileVersion_eq_some {stem fileName : String} {version : ℤ}
    (h : fileVersion stem kind.latestSuffix fileName = some (some version)) :
    ∃ text, '.' ∉ text.toList ∧ fileName = versionStart stem ++ text ++ kind.latestSuffix := by
  unfold fileVersion at h
  split at h
  case isFalse => cases h
  case isTrue hfile =>
    obtain ⟨text, htext, hname⟩ := versionText_eq_some hfile
    rw [htext, Option.map_some, Option.some_inj] at h
    cases hparsed : Text.parseSigned 64 text with
    | error e =>
        rw [hparsed] at h
        cases h
    | ok n => exact ⟨text, dot_notMem_of_parseSigned hparsed, hname⟩

/-- The version that a name of the directory tells, if it tells one. -/
def toldVersion (stem latestSuffix fileName : String) : Option ℤ :=
  (fileVersion stem latestSuffix fileName).join

/-- No name makes the list panic. -/
theorem listVersionFiles_eq (versions : fs.Folder String) (kind : AssetKind) (stem : String) :
    listVersionFiles versions stem kind.latestSuffix =
      some ((versions.names.filterMap (toldVersion stem kind.latestSuffix)).mergeSort
        fun a b => b ≤ a) := by
  have htold : ∀ name, fileVersion stem kind.latestSuffix name =
      some (toldVersion stem kind.latestSuffix name) := by
    intro name
    obtain ⟨version, hversion⟩ := Option.isSome_iff_exists.mp (isSome_fileVersion kind stem name)
    rw [toldVersion, hversion, Option.join_some]
  have hmapM : ∀ names : List String, names.mapM (fileVersion stem kind.latestSuffix) =
      some (names.map (toldVersion stem kind.latestSuffix)) := by
    intro names
    induction names with
    | nil => rfl
    | cons name names ih =>
        rw [List.mapM_cons, htold, ih]
        rfl
  rw [listVersionFiles, hmapM]
  refine congrArg some ?_
  rw [List.filterMap_map]
  rfl

/-- The view is what the names and the texts of the files make of it. -/
theorem assetView_congr {folder folder' : AssetFolder fs} {id : String}
    (hlatest : folder'.latest.read (latestName kind id) = folder.latest.read (latestName kind id))
    (hnames : folder'.versions.names.filterMap
        (toldVersion (sanitizeAssetFileStem id) kind.latestSuffix) =
      folder.versions.names.filterMap
        (toldVersion (sanitizeAssetFileStem id) kind.latestSuffix))
    (htexts : ∀ version, folder'.versions.read (versionedName kind id version) =
      folder.versions.read (versionedName kind id version)) :
    assetView kind folder' id = assetView kind folder id := by
  have hlist : listVersionFiles folder'.versions (sanitizeAssetFileStem id) kind.latestSuffix =
      listVersionFiles folder.versions (sanitizeAssetFileStem id) kind.latestSuffix := by
    rw [listVersionFiles_eq, listVersionFiles_eq, hnames]
  simp only [assetView, nextAssetVersion, hlatest, hlist, htexts]

/-! ## One operation -/

/-- The operations that a command on an asset may do. -/
def FileOperation.IsOf (kind : AssetKind) (id : String) : FileOperation → Prop
  | .writeLatest name _ | .removeLatest name => name = latestName kind id ∨ name = snapshotsName id
  | .writeVersion name _ | .removeVersion name =>
      Text.startsWith name (versionStart (sanitizeAssetFileStem id)) = true

/-- The latest file of an asset is none of the files in its directory of another one. -/
theorem Apart.latest_ne {a b name : String} (h : Apart fs a b)
    (hname : name = latestName kind a ∨ name = snapshotsName a) :
    fs.key (latestName kind b) ≠ fs.key name := by
  have hsnapshots : fs.key snapshotsSuffix = snapshotsSuffix.toList :=
    fs.key_of_plain (List.all_eq_true.mp (by decide))
  intro hkey
  rcases hname with rfl | rfl
  · rw [latestName, latestName, fs.key_append, fs.key_append] at hkey
    exact h.stems (List.append_cancel_right hkey).symm
  · rw [latestName, snapshotsName, fs.key_append, fs.key_append, key_latestSuffix,
      hsnapshots] at hkey
    have hor := List.suffix_or_suffix_of_suffix (hkey ▸ List.suffix_append _ _)
      (List.suffix_append (fs.key (sanitizeAssetFileStem a)) snapshotsSuffix.toList)
    revert hor
    cases kind <;> decide

/-- A name that is taken for one of another asset tells no version. -/
theorem Apart.toldVersion_eq_none {a b name n : String} (h : Apart fs a b)
    (hname : Text.startsWith name (versionStart (sanitizeAssetFileStem a)) = true)
    (hkey : fs.key n = fs.key name) :
    toldVersion (sanitizeAssetFileStem b) kind.latestSuffix n = none := by
  cases htold : toldVersion (sanitizeAssetFileStem b) kind.latestSuffix n with
  | none => rfl
  | some version =>
      obtain ⟨text, htext, rfl⟩ := fileVersion_eq_some (Option.join_eq_some_iff.mp htold)
      exact absurd hkey.symm (h.key_ne hname htext)

/-- An operation for one asset leaves the other alone. -/
theorem FileOperation.IsOf.view_eq {a b : String} (h : Apart fs a b) {operation : FileOperation}
    (hop : operation.IsOf kind a) (folder : AssetFolder fs) :
    assetView kind (operation.run folder) b = assetView kind folder b := by
  cases operation with
  | writeLatest name text =>
      refine assetView_congr ?_ rfl fun _ => rfl
      exact (Directory.read_write ..).trans (if_neg (h.latest_ne hop))
  | removeLatest name =>
      refine assetView_congr ?_ rfl fun _ => rfl
      exact (Directory.read_remove ..).trans (if_neg (h.latest_ne hop))
  | writeVersion name text =>
      have hother : ∀ version, fs.key (versionedName kind b version) ≠ fs.key name :=
        fun version => (h.key_ne hop (dot_notMem_toString version)).symm
      refine assetView_congr rfl ?_ fun version =>
        (Directory.read_write ..).trans (if_neg (hother version))
      rw [run, Directory.names_write]
      split
      case isTrue => rfl
      case isFalse =>
        rw [List.filterMap_append, List.filterMap_cons, h.toldVersion_eq_none hop rfl]
        exact List.append_nil _
  | removeVersion name =>
      have hother : ∀ version, fs.key (versionedName kind b version) ≠ fs.key name :=
        fun version => (h.key_ne hop (dot_notMem_toString version)).symm
      refine assetView_congr rfl ?_ fun version =>
        (Directory.read_remove ..).trans (if_neg (hother version))
      rw [run, Directory.names_remove, List.filterMap_filter]
      refine List.filterMap_congr fun n _ => ?_
      split
      case isTrue => rfl
      case isFalse hkey => exact (h.toldVersion_eq_none hop (by simpa using hkey)).symm

/-! ## Commands -/

/-- A command works on the files of its asset. -/
theorem isOf_of_mem_operations {folder : AssetFolder fs} {id : String} {action : AssetAction}
    {operation : FileOperation} (h : operation ∈ AssetCommand.operations kind folder id action) :
    operation.IsOf kind id := by
  have hdevice : ∀ {operation other : FileOperation}, other.IsOf kind id →
      operation ∈ (if kind = .device then [other] else []) → operation.IsOf kind id := by
    intro operation other hother hmem
    split at hmem
    · exact List.mem_singleton.mp hmem ▸ hother
    · cases hmem
  cases action with
  | save yaml snapshots =>
      rw [AssetCommand.operations] at h
      split at h
      case h_1 => cases h
      case h_2 version _ =>
        rcases h with _ | ⟨_, _ | ⟨_, h⟩⟩
        · exact .inl rfl
        · rw [FileOperation.IsOf, Text.startsWith_iff, versionedName, String.append_assoc,
            String.toList_append]
          exact List.prefix_append _ _
        · have hof : (FileOperation.writeLatest (snapshotsName id) snapshots).IsOf kind id := .inr rfl
          exact hdevice hof h
  | bind yaml =>
      have hof : (FileOperation.writeLatest (latestName kind id) (Text.trim yaml)).IsOf kind id :=
        .inl rfl
      exact hdevice hof h
  | lookup => cases h
  | delete =>
      rcases h with _ | ⟨_, h⟩
      · exact .inl rfl
      · rcases List.mem_append.mp h with h | h
        · obtain ⟨name, hname, rfl⟩ := List.mem_map.mp h
          have hfile := (List.mem_filter.mp hname).2
          rw [isVersionFile, Bool.and_eq_true] at hfile
          exact hfile.1
        · have hof : (FileOperation.removeLatest (snapshotsName id)).IsOf kind id := .inr rfl
          exact hdevice hof h

/-- A command on one asset leaves the other alone, however far it gets. -/
theorem Apart.run_eq {a b : String} (h : Apart fs a b) (folder : AssetFolder fs)
    {command : AssetCommand} (ha : command.id = a) :
    assetView kind (command.run kind folder) b = assetView kind folder b := by
  have hall : ∀ (operations : List FileOperation) (folder : AssetFolder fs),
      (∀ operation ∈ operations, operation.IsOf kind a) →
      assetView kind (operations.foldl FileOperation.run folder) b = assetView kind folder b := by
    intro operations
    induction operations with
    | nil => exact fun _ _ => rfl
    | cons operation rest ih =>
        intro folder hops
        rw [List.foldl_cons, ih _ fun other hother => hops other (List.mem_cons_of_mem _ hother)]
        exact (hops operation List.mem_cons_self).view_eq h folder
  exact hall _ folder fun operation hop => ha ▸ isOf_of_mem_operations (List.mem_of_mem_take hop)

theorem Apart.keepsApart {a b : String} (h : Apart fs a b) : KeepsApart fs kind a b := by
  intro folder before command _
  rw [afterCommands, List.foldl_append]
  exact ⟨h.run_eq _, h.symm.run_eq _⟩

/-! ## Assets that are not apart -/

theorem KeepsApart.run_eq {a b : String} (h : KeepsApart fs kind a b) (folder : AssetFolder fs)
    {command : AssetCommand} (ha : command.id = a) :
    assetView kind (command.run kind folder) b = assetView kind folder b :=
  (h folder [] command fun _ hc => nomatch hc).1 ha

/-- Deleting an asset deletes the latest file of one with its stem. -/
theorem KeepsApart.stems {a b : String} (h : KeepsApart fs kind a b) :
    fs.key (sanitizeAssetFileStem a) ≠ fs.key (sanitizeAssetFileStem b) := by
  intro hkey
  have hname : fs.key (latestName kind b) = fs.key (latestName kind a) := by
    rw [latestName, latestName, fs.key_append, fs.key_append, hkey]
  obtain ⟨latest, hlatest⟩ : ∃ latest : fs.Folder String,
      latest.read (latestName kind b) = some "" :=
    ⟨Directory.empty.write (latestName kind b) "", (Directory.read_write ..).trans (if_pos rfl)⟩
  have hrun : AssetCommand.run kind ⟨latest, .empty⟩ ⟨a, .delete, 1⟩ =
      ⟨latest.remove (latestName kind a), .empty⟩ := rfl
  have hview := congrArg AssetView.latest (@KeepsApart.run_eq _ _ _ _ h ⟨latest, .empty⟩ ⟨a, .delete, 1⟩ rfl)
  rw [hrun, assetView, assetView] at hview
  dsimp only at hview
  rw [Directory.read_remove, if_pos hname, hlatest] at hview
  cases hview

/-- Deleting an asset deletes the versions of one whose stem goes on from its own with `.v`. -/
theorem KeepsApart.left {a b : String} (h : KeepsApart fs kind a b) :
    ¬ fs.key (versionStart (sanitizeAssetFileStem a)) <+: fs.key (sanitizeAssetFileStem b) := by
  rintro ⟨rest, hrest⟩
  -- The first version of `b`, written as a version file of `a`.
  obtain ⟨name, hfile, hkey⟩ : ∃ name,
      isVersionFile (sanitizeAssetFileStem a) kind.latestSuffix name = true ∧
        fs.key (versionedName kind b 1) = fs.key name := by
    have hdrop : fs.key (String.ofList ((sanitizeAssetFileStem b).toList.drop
        (versionStart (sanitizeAssetFileStem a)).toList.length)) = rest := by
      rw [FileSystem.key, String.toList_ofList, List.map_drop, ← FileSystem.key, ← hrest]
      exact List.drop_left' (List.length_map _)
    refine ⟨versionStart (sanitizeAssetFileStem a) ++ String.ofList
      ((sanitizeAssetFileStem b).toList.drop (versionStart (sanitizeAssetFileStem a)).toList.length) ++
        ".v" ++ toString (1 : ℤ) ++ kind.latestSuffix, ?_, ?_⟩
    · rw [isVersionFile, Text.endsWith_append, Bool.and_true, Text.startsWith_iff]
      simp only [String.append_assoc, String.toList_append]
      exact List.prefix_append _ _
    · rw [versionedName, versionStart]
      simp only [fs.key_append, hdrop, ← hrest, List.append_assoc]
  obtain ⟨versions, hnames, hread⟩ : ∃ versions : fs.Folder String,
      versions.names = [name] ∧ versions.read (versionedName kind b 1) = some "" :=
    ⟨Directory.empty.write name "", Directory.names_write .., (Directory.read_write ..).trans (if_pos hkey)⟩
  have hrun : AssetCommand.run kind ⟨.empty, versions⟩ ⟨a, .delete, 2⟩ =
      ⟨.remove .empty (latestName kind a), versions.remove name⟩ := by
    rw [AssetCommand.run, AssetCommand.operations, hnames, List.filter_cons_of_pos hfile]
    rfl
  have hview := congrArg AssetView.versionText
    (@KeepsApart.run_eq _ _ _ _ h ⟨.empty, versions⟩ ⟨a, .delete, 2⟩ rfl)
  rw [hrun, assetView, assetView] at hview
  have hone := congrFun hview 1
  dsimp only at hone
  rw [Directory.read_remove, if_pos hkey, hread] at hone
  cases hone

theorem KeepsApart.symm {a b : String} (h : KeepsApart fs kind a b) : KeepsApart fs kind b a :=
  fun folder before command hbefore =>
    (h folder before command fun c hc => (hbefore c hc).symm).symm

/-- **Two assets are kept apart exactly when their stems are**, and the list of versions is made
of any names without a panic. -/
theorem assets_kept_apart_iff (fs : FileSystem) (kind : AssetKind) (a b : String) :
    (KeepsApart fs kind a b ∧ ∀ (versions : fs.Folder String) (stem : String),
      (listVersionFiles versions stem kind.latestSuffix).isSome = true) ↔ Apart fs a b := by
  constructor
  · exact fun ⟨h, _⟩ => ⟨h.stems, h.left, h.symm.left⟩
  · exact fun h => ⟨h.keepsApart, fun versions stem => by rw [listVersionFiles_eq]; rfl⟩

/-- Two connections with ids of one ideograph each, and a device whose id goes on from another's
with `.v2`. -/
theorem files_shared :
    ¬ KeepsApart .caseSensitive .connection "泵" "阀" ∧
      ¬ KeepsApart .caseSensitive .device "press" "press.v2" := by
  constructor
  · intro h
    have hview := congrArg AssetView.latest ((h ⟨.empty, .empty⟩ [⟨"泵", .save "id: 泵" "", 2⟩]
      ⟨"阀", .save "id: 阀" "", 2⟩ (by decide)).2 rfl)
    exact absurd hview (by decide +kernel)
  · intro h
    have hview := congrArg AssetView.nextVersion ((h ⟨.empty, .empty⟩
      [⟨"press.v2", .save "id: press.v2" "[]", 3⟩] ⟨"press", .delete, 3⟩ (by decide)).1 rfl)
    exact absurd hview (by decide +kernel)

end Nazh
