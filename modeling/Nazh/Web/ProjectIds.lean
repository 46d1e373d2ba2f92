import Nazh.Lib.Lists
import Nazh.Web.ProjectActions

/-!
# Ids of projects and of their environments

A project that is imported gets an id that no project has: a slug, or that slug with the first
number behind it that is free. A project that is created and an environment that is duplicated get a
number that is one more than there are; after one was deleted, that number may be in use.
-/

namespace Nazh.Web

open Lib

/-- What a project has besides its id and the time of its last change. -/
def ProjectRecord.content (project : ProjectRecord) : ProjectRecord :=
  { project with id := "", updatedAt := "" }

namespace ProjectHost

variable (host : ProjectHost)

/-- The loop of `mergeImportedProjects`, from the project with the number `index` on. -/
def mergeLoop (nowIso : ℕ → String) (nextProjects : List ProjectRecord) (index : ℕ) :
    List ProjectRecord → List ProjectRecord
  | [] => nextProjects
  | project :: rest =>
      let preferredId := if project.id = "" then project.name else project.id
      let nextId := ensureUniqueProjectId nextProjects preferredId
      mergeLoop nowIso
        (upsertProjectRecord nextProjects { project with id := nextId, updatedAt := nowIso index })
        (index + 1) rest

/-- Newest first. -/
def mergeImportedProjects (existingProjects importedProjects : List ProjectRecord)
    (nowIso : ℕ → String) : List ProjectRecord :=
  host.newestFirst ProjectRecord.updatedAt (mergeLoop nowIso existingProjects 0 importedProjects)

/-! ## Free ids -/

/-- The first number from `start` on that is not taken. -/
structure FirstFree (taken : ℕ → Bool) (start n : ℕ) : Prop where
  start_le : start ≤ n
  free : taken n = false
  first : ∀ m, start ≤ m → m < n → taken m = true

/-- The loop finds the first free number, if one is near enough. -/
theorem freeSuffix_spec {taken : ℕ → Bool} {fuel start k : ℕ} (hk : k < fuel)
    (hfree : taken (start + k) = false) : FirstFree taken start (freeSuffix taken fuel start) := by
  induction fuel generalizing start k with
  | zero => exact absurd hk (Nat.not_lt_zero k)
  | succ fuel ih =>
      rw [freeSuffix]
      by_cases hstart : taken start = true
      · rw [if_pos hstart]
        cases k with
        | zero => exact absurd (hstart.symm.trans hfree) (by decide)
        | succ k =>
            have hrest : FirstFree taken (start + 1) (freeSuffix taken fuel (start + 1)) :=
              ih (Nat.lt_of_succ_lt_succ hk) (by rwa [Nat.succ_add_eq_add_succ])
            refine ⟨Nat.le_of_succ_le hrest.start_le, hrest.free, fun m hm hlt => ?_⟩
            rcases Nat.eq_or_lt_of_le hm with rfl | hgt
            · exact hstart
            · exact hrest.first m hgt hlt
      · rw [if_neg hstart]
        exact ⟨le_rfl, Bool.eq_false_iff.mpr hstart,
          fun m hm hlt => absurd hm (Nat.not_le_of_lt hlt)⟩

theorem numberedId_injective (base : String) : Function.Injective fun n : ℕ => s!"{base}-{n}" := by
  intro m n h
  have hlist := congrArg String.toList h
  simp only [String.toList_append] at hlist
  have hdigits := String.toList_injective (List.append_cancel_left hlist)
  have hm := Text.isDecimal_toString m
  rw [show toString m = toString n from hdigits] at hm
  exact hm.unique (Text.isDecimal_toString n)

theorem isTaken_eq_false_iff {projects : List ProjectRecord} {projectId : String} :
    isTaken projects projectId = false ↔ projectId ∉ projects.map ProjectRecord.id := by
  simp [isTaken]

/-- The loop of `ensureUniqueProjectId` ends. -/
theorem firstFree_suffix (projects : List ProjectRecord) (base : String) :
    FirstFree (fun n => isTaken projects s!"{base}-{n}") 2
      (freeSuffix (fun n => isTaken projects s!"{base}-{n}") (projects.length + 1) 2) := by
  obtain ⟨k, hk, hfree⟩ := exists_not_mem_of_injective (numberedId_injective base)
    (projects.map ProjectRecord.id) 2
  rw [List.length_map] at hk
  exact freeSuffix_spec (Nat.lt_succ_of_le hk) (isTaken_eq_false_iff.mpr hfree)

theorem ensureUniqueProjectId_free (projects : List ProjectRecord) (preferredId : String) :
    isTaken projects (ensureUniqueProjectId projects preferredId) = false := by
  rw [ensureUniqueProjectId]
  by_cases htaken : isTaken projects (slugify preferredId) = true
  · rw [if_pos htaken]
    exact (firstFree_suffix projects _).free
  · rw [if_neg htaken]
    exact Bool.eq_false_iff.mpr htaken

/-! ## Imports -/

/-- A list of projects to which the imported ones are added: the old ones are there as they are, and
one for each of the imported ones, under an id of its own. -/
structure Adds (before after importedProjects : List ProjectRecord) : Prop where
  distinct : (before.map ProjectRecord.id).Nodup → (after.map ProjectRecord.id).Nodup
  added : ∃ added : List ProjectRecord, after.Perm (added ++ before) ∧
    added.map ProjectRecord.content = importedProjects.map ProjectRecord.content

section

variable {host} {before middle after importedProjects rest : List ProjectRecord}
  {project : ProjectRecord}

theorem Adds.refl (before : List ProjectRecord) : Adds before before [] :=
  ⟨id, [], .refl _, rfl⟩

theorem Adds.cons (h : Adds before middle [project]) (hrest : Adds middle after rest) :
    Adds before after (project :: rest) := by
  obtain ⟨first, hfirst, hcontent⟩ := h.added
  obtain ⟨others, hothers, hcontents⟩ := hrest.added
  obtain ⟨one, rfl, hone⟩ := List.map_eq_singleton_iff.mp hcontent
  refine ⟨fun hnodup => hrest.distinct (h.distinct hnodup), one :: others, ?_, ?_⟩
  · calc after.Perm (others ++ middle) := hothers
      _ |>.Perm (others ++ (one :: before)) := hfirst.append_left others
      _ |>.Perm (one :: others ++ before) := List.perm_middle
  · rw [List.map_cons, List.map_cons, hone, hcontents]

theorem Adds.perm (h : Adds before middle importedProjects) (hperm : after.Perm middle) :
    Adds before after importedProjects := by
  obtain ⟨added, hadded, hcontent⟩ := h.added
  exact ⟨fun hnodup => ((hperm.map _).nodup_iff).mpr (h.distinct hnodup), added,
    hperm.trans hadded, hcontent⟩

/-- A project under a free id is put in front. -/
theorem adds_upsert (hfree : isTaken before project.id = false) :
    Adds before (upsertProjectRecord before project) [project] := by
  have hnot := isTaken_eq_false_iff.mp hfree
  have hnone : before.findIdx? (fun item => item.id = project.id) = none := by
    refine List.findIdx?_eq_none_iff.mpr fun item hitem => decide_eq_false fun hid => hnot ?_
    exact hid ▸ List.mem_map_of_mem hitem
  rw [upsertProjectRecord, hnone]
  exact ⟨fun hnodup => List.nodup_cons.mpr ⟨hnot, hnodup⟩, [project], .refl _, rfl⟩

theorem Adds.of_content {other : ProjectRecord} (h : Adds before after [other])
    (hcontent : other.content = project.content) : Adds before after [project] := by
  obtain ⟨added, hadded, hsame⟩ := h.added
  exact ⟨h.distinct, added, hadded, by rw [hsame, List.map_singleton, List.map_singleton, hcontent]⟩

theorem adds_mergeLoop (nowIso : ℕ → String) (before : List ProjectRecord) (index : ℕ)
    (importedProjects : List ProjectRecord) :
    Adds before (mergeLoop nowIso before index importedProjects) importedProjects := by
  induction importedProjects generalizing before index with
  | nil => exact .refl before
  | cons project rest ih =>
      rw [mergeLoop]
      refine Adds.cons (.of_content (adds_upsert ?_) ?_) (ih _ _)
      · exact ensureUniqueProjectId_free before _
      · rfl

theorem newestFirst_perm {α : Type} (time : α → String) (items : List α) :
    (host.newestFirst time items).Perm items :=
  List.perm_insertionSort _ items

theorem adds_merged (existingProjects importedProjects : List ProjectRecord)
    (nowIso : ℕ → String) :
    Adds existingProjects (host.mergeImportedProjects existingProjects importedProjects nowIso)
      importedProjects :=
  (adds_mergeLoop nowIso existingProjects 0 importedProjects).perm (newestFirst_perm _ _)

theorem adds_mergeImportedProject (existingProjects : List ProjectRecord) (project : ProjectRecord)
    (now : String) :
    Adds existingProjects (host.mergeImportedProject existingProjects project now) [project] :=
  adds_merged existingProjects [project] fun _ => now

end

/-- An import adds its projects and leaves the others as they are; the loop for an id ends. -/
theorem mergeImportedProjects_adds (existingProjects importedProjects : List ProjectRecord)
    (nowIso : ℕ → String) (h : (existingProjects.map ProjectRecord.id).Nodup) :
    let merged := host.mergeImportedProjects existingProjects importedProjects nowIso
    (merged.map ProjectRecord.id).Nodup ∧
      (∃ added : List ProjectRecord, merged.Perm (added ++ existingProjects) ∧
        added.map ProjectRecord.content = importedProjects.map ProjectRecord.content) ∧
      ∀ (projects : List ProjectRecord) (preferredId : String),
        ∃ suffix, FirstFree (fun n => isTaken projects s!"{slugify preferredId}-{n}") 2 suffix ∧
          ensureUniqueProjectId projects preferredId =
            if isTaken projects (slugify preferredId) then s!"{slugify preferredId}-{suffix}"
            else slugify preferredId := by
  have hadds : Adds existingProjects
      (host.mergeImportedProjects existingProjects importedProjects nowIso) importedProjects :=
    adds_merged existingProjects importedProjects nowIso
  exact ⟨hadds.distinct h, hadds.added, fun projects preferredId =>
    ⟨_, firstFree_suffix projects _, rfl⟩⟩

/-- Two imports of a project that is there already. -/
theorem mergeImportedProjects_adds_twice :
    let existing := [projectOf "p" "old"]
    let merged := plain.mergeImportedProjects existing [projectOf "p" "new", projectOf "" "new"]
      fun _ => ""
    (merged.map ProjectRecord.id).Nodup ∧
      ∃ added : List ProjectRecord, merged.Perm (added ++ existing) ∧
        added.map ProjectRecord.content = [projectOf "p" "new", projectOf "" "new"].map
          ProjectRecord.content := by
  have h := plain.mergeImportedProjects_adds [projectOf "p" "old"]
    [projectOf "p" "new", projectOf "" "new"] (fun _ => "") (List.nodup_singleton _)
  exact ⟨h.1, h.2.1⟩

/-- The loop of the hook renames each project before it is merged. -/
theorem adds_importAll (draws : Draws) (before : List ProjectRecord) (index : ℕ)
    (importedProjects : List ProjectRecord) :
    Adds before (host.importAll draws before index importedProjects) importedProjects := by
  induction importedProjects generalizing before index with
  | nil => exact .refl before
  | cons project rest ih =>
      rw [importAll]
      refine Adds.cons (.of_content (adds_mergeImportedProject before _ _) ?_) (ih _ _)
      rfl

end ProjectHost

/-! ## Libraries in order -/

/-- The ids of environments tell them apart, and one of them is the active one. -/
structure EnvironmentsInOrder (environments : List ProjectEnvironment)
    (activeEnvironmentId : String) : Prop where
  distinct : (environments.map ProjectEnvironment.id).Nodup
  nonempty : environments ≠ []
  active : activeEnvironmentId ∈ environments.map ProjectEnvironment.id

def ProjectRecord.InOrder (project : ProjectRecord) : Prop :=
  EnvironmentsInOrder project.environments project.activeEnvironmentId

instance (environments : List ProjectEnvironment) (activeEnvironmentId : String) :
    Decidable (EnvironmentsInOrder environments activeEnvironmentId) :=
  decidable_of_iff ((environments.map ProjectEnvironment.id).Nodup ∧ environments ≠ [] ∧
      activeEnvironmentId ∈ environments.map ProjectEnvironment.id)
    ⟨fun ⟨hdistinct, hnonempty, hactive⟩ => ⟨hdistinct, hnonempty, hactive⟩,
      fun h => ⟨h.distinct, h.nonempty, h.active⟩⟩

instance (project : ProjectRecord) : Decidable project.InOrder :=
  inferInstanceAs (Decidable (EnvironmentsInOrder _ _))

structure ProjectLibraryState.InOrder (library : ProjectLibraryState) : Prop where
  distinct : (library.projects.map ProjectRecord.id).Nodup
  projects : ∀ project ∈ library.projects, project.InOrder

/-- A library to start from: ids tell projects and environments apart, and every project has an
environment. -/
structure ProjectLibraryState.Distinct (library : ProjectLibraryState) : Prop where
  distinct : (library.projects.map ProjectRecord.id).Nodup
  environments : ∀ project ∈ library.projects,
    project.environments ≠ [] ∧ (project.environments.map ProjectEnvironment.id).Nodup

/-- The active environment of every project is one of its environments. -/
def ProjectLibraryState.ActiveNamed (library : ProjectLibraryState) : Prop :=
  ∀ project ∈ library.projects,
    project.activeEnvironmentId ∈ project.environments.map ProjectEnvironment.id

theorem ProjectLibraryState.Distinct.inOrder_iff {library : ProjectLibraryState}
    (h : library.Distinct) : library.InOrder ↔ library.ActiveNamed := by
  constructor
  · exact fun horder project hproject => (horder.projects project hproject).active
  · intro hnamed
    refine ⟨h.distinct, fun project hproject => ?_⟩
    obtain ⟨hnonempty, hdistinct⟩ := h.environments project hproject
    exact ⟨hdistinct, hnonempty, hnamed project hproject⟩

namespace ProjectHost

variable (host : ProjectHost)

/-- One environment of a project is replaced by others, or by none. -/
def ChangesOne (project changed : ProjectRecord) (environmentId : String)
    (effect : ProjectEnvironment → List ProjectEnvironment) : Prop :=
  ∃ earlier environment later, project.environments = earlier ++ environment :: later ∧
    environment.id = environmentId ∧
    changed.environments = earlier ++ (effect environment ++ later)

/-- This is done with one project of a library, and the others are as before. -/
def AffectsOne (library next : ProjectLibraryState) (projectId environmentId : String)
    (effect : ProjectEnvironment → List ProjectEnvironment) : Prop :=
  ∃ before project after changed, library.projects = before ++ project :: after ∧
    project.id = projectId ∧ next.projects = before ++ changed :: after ∧
    ChangesOne project changed environmentId effect

/-- An update changes one environment, and a deletion removes one. -/
def OneAffected (library : ProjectLibraryState) (call : ProjectCall) : Prop :=
  let next := host.queue library call library
  match call.action with
  | .updateEnvironment projectId environmentId patch =>
      AffectsOne library next projectId environmentId fun environment =>
        [patchEnvironment patch environment (call.draws.nowIso 1)]
  | .deleteEnvironment projectId environmentId =>
      AffectsOne library next projectId environmentId fun _ => []
  | _ => True

/-- The library is in order before, between and after actions, and each of them affects no more than
it should. -/
def KeptAlong (library : ProjectLibraryState) : List ProjectCall → Prop
  | [] => library.InOrder
  | call :: calls =>
      library.InOrder ∧ host.OneAffected library call ∧
        KeptAlong (host.queue library call library) calls

/-- A number that is put behind an id makes an id that is not there, what comes from outside is in
order, and environments are named that are there. -/
def Safe (library : ProjectLibraryState) (call : ProjectCall) : Prop :=
  match call.action with
  | .createProject name _ _ =>
      let baseId := baseIdOf (createdName library name)
      isTaken library.projects baseId = true →
        isTaken library.projects s!"{baseId}-{library.projects.length + 1}" = false
  | .importProjects importedProjects => ∀ project ∈ importedProjects, project.InOrder
  | .rollbackProject projectId snapshotId =>
      ∀ project ∈ library.projects, project.id = projectId →
        ∀ snapshot ∈ project.snapshots.find? (fun snapshot => snapshot.id = snapshotId),
          EnvironmentsInOrder snapshot.environments snapshot.activeEnvironmentId
  | .setActiveEnvironment projectId environmentId =>
      ∀ project ∈ library.projects, project.id = projectId →
        environmentId ∈ project.environments.map ProjectEnvironment.id
  | .updateEnvironment projectId environmentId _ =>
      ∃ project ∈ library.projects, project.id = projectId ∧
        environmentId ∈ project.environments.map ProjectEnvironment.id
  | .duplicateEnvironment projectId environmentId =>
      ∀ project ∈ library.projects, project.id = projectId →
        environmentId ∈ project.environments.map ProjectEnvironment.id →
        s!"{environmentId}-copy-{project.environments.length + 1}" ∉
          project.environments.map ProjectEnvironment.id
  | .deleteEnvironment projectId environmentId =>
      ∃ project ∈ library.projects, project.id = projectId ∧
        environmentId ∈ project.environments.map ProjectEnvironment.id ∧
        1 < project.environments.length
  | _ => True

/-- Actions every one of which is safe in its turn. -/
def SafeAll (library : ProjectLibraryState) : List ProjectCall → Prop
  | [] => True
  | call :: calls => Safe library call ∧ SafeAll (host.queue library call library) calls

instance (library : ProjectLibraryState) : (call : ProjectCall) → Decidable (Safe library call)
  | ⟨.createProject .., _⟩ => inferInstanceAs (Decidable (_ → _))
  | ⟨.importProjects _, _⟩ => inferInstanceAs (Decidable (∀ project ∈ _, _))
  | ⟨.rollbackProject .., _⟩ => inferInstanceAs (Decidable (∀ project ∈ _, _ → _))
  | ⟨.setActiveEnvironment .., _⟩ => inferInstanceAs (Decidable (∀ project ∈ _, _ → _))
  | ⟨.updateEnvironment .., _⟩ => inferInstanceAs (Decidable (∃ project ∈ _, _))
  | ⟨.duplicateEnvironment .., _⟩ => inferInstanceAs (Decidable (∀ project ∈ _, _ → _ → _))
  | ⟨.deleteEnvironment .., _⟩ => inferInstanceAs (Decidable (∃ project ∈ _, _))
  | ⟨.deleteProject _, _⟩ => inferInstanceAs (Decidable True)
  | ⟨.updateProjectDraft .., _⟩ => inferInstanceAs (Decidable True)
  | ⟨.saveProject .., _⟩ => inferInstanceAs (Decidable True)
  | ⟨.createSnapshot .., _⟩ => inferInstanceAs (Decidable True)
  | ⟨.deleteSnapshot .., _⟩ => inferInstanceAs (Decidable True)

instance decidableSafeAll (library : ProjectLibraryState) :
    (calls : List ProjectCall) → Decidable (host.SafeAll library calls)
  | [] => inferInstanceAs (Decidable True)
  | call :: calls =>
      have := decidableSafeAll (host.queue library call library) calls
      inferInstanceAs (Decidable (_ ∧ _))

/-! ## One action -/

section

variable {host} {library : ProjectLibraryState} {projectId environmentId : String}
  {updater : ProjectRecord → ProjectRecord}

theorem mem_map_id_iff {environments : List ProjectEnvironment} :
    environmentId ∈ environments.map ProjectEnvironment.id ↔
      ∃ before environment after, environments = before ++ environment :: after ∧
        environment.id = environmentId := by
  rw [List.mem_map]
  constructor
  · rintro ⟨environment, hmem, hid⟩
    obtain ⟨before, after, hsplit⟩ := List.append_of_mem hmem
    exact ⟨before, environment, after, hsplit, hid⟩
  · rintro ⟨before, environment, after, rfl, hid⟩
    exact ⟨environment, List.mem_append_right _ List.mem_cons_self, hid⟩

/-- An update of one project keeps the order if that project is in order afterwards. -/
theorem inOrder_updateProject_iff (h : library.InOrder) (hid : ∀ project, (updater project).id =
    project.id) :
    (withProjects (fun projects => updateProject projects projectId updater) library).InOrder ↔
      ∀ project ∈ library.projects, project.id = projectId → (updater project).InOrder := by
  have hids : (updateProject library.projects projectId updater).map ProjectRecord.id =
      library.projects.map ProjectRecord.id := by
    rw [updateProject, List.map_map]
    refine List.map_congr_left fun project _ => ?_
    rw [Function.comp_apply]
    split_ifs
    · exact hid project
    · rfl
  have hall : (∀ project ∈ updateProject library.projects projectId updater, project.InOrder) ↔
      ∀ project ∈ library.projects, project.id = projectId → (updater project).InOrder := by
    rw [updateProject, List.forall_mem_map]
    refine forall₂_congr fun project hproject => ?_
    by_cases hthis : project.id = projectId
    · rw [if_pos hthis, imp_iff_right hthis]
    · rw [if_neg hthis]
      exact iff_of_true (h.projects project hproject) fun hthis' => absurd hthis' hthis
  exact ⟨fun horder => hall.mp horder.projects, fun hproject =>
    ⟨hids.symm ▸ h.distinct, hall.mpr hproject⟩⟩

/-- The project that is seen is the only one with its id. -/
theorem replaceProject_eq_update (h : library.InOrder) (change : ProjectRecord → ProjectRecord) :
    replaceProject library projectId change library =
      withProjects (fun projects => updateProject projects projectId change) library := by
  rw [replaceProject]
  cases hfind : findProject library projectId with
  | none => exact (withProjects_eq_self (updateProject_eq_self hfind change)).symm
  | some target =>
      have htarget : target ∈ library.projects := List.mem_of_find?_eq_some hfind
      have hid : target.id = projectId := by simpa using List.find?_some hfind
      have hsame : updateProject library.projects projectId (fun _ => change target) =
          updateProject library.projects projectId change := by
        refine List.map_congr_left fun project hproject => ?_
        by_cases hthis : project.id = projectId
        · rw [if_pos hthis, if_pos hthis, List.inj_on_of_nodup_map h.distinct hproject htarget
            (hthis.trans hid.symm)]
        · rw [if_neg hthis, if_neg hthis]
      dsimp only
      rw [withProjects, withProjects, hsame]

/-- An update of a project that leaves its environments alone keeps the order. -/
theorem inOrder_keep (h : library.InOrder) (hid : ∀ project, (updater project).id = project.id)
    (hkeep : ∀ project : ProjectRecord, project.InOrder → (updater project).InOrder) :
    (withProjects (fun projects => updateProject projects projectId updater) library).InOrder :=
  (inOrder_updateProject_iff h hid).mpr fun project hproject _ =>
    hkeep project (h.projects project hproject)

/-- Where an update changes one environment of its project, it changes one of the library. -/
theorem affectsOne_iff (h : library.InOrder)
    (effect : ProjectEnvironment → List ProjectEnvironment) :
    AffectsOne library
        (withProjects (fun projects => updateProject projects projectId updater) library)
        projectId environmentId effect ↔
      ∃ project ∈ library.projects, project.id = projectId ∧
        ChangesOne project (updater project) environmentId effect := by
  have hnext : ∀ {before project after}, library.projects = before ++ project :: after →
      project.id = projectId →
      updateProject library.projects projectId updater = before ++ updater project :: after := by
    rintro before project after hsplit rfl
    rw [updateProject, hsplit]
    exact map_key_eq (hsplit ▸ h.distinct)
  constructor
  · rintro ⟨before, project, after, changed, hsplit, hid, hchanged, hone⟩
    have hcons := List.append_cancel_left (hchanged.symm.trans (hnext hsplit hid))
    rw [List.cons.injEq] at hcons
    exact ⟨project, hsplit ▸ List.mem_append_right _ List.mem_cons_self, hid, hcons.1 ▸ hone⟩
  · rintro ⟨project, hproject, hid, hone⟩
    obtain ⟨before, after, hsplit⟩ := List.append_of_mem hproject
    exact ⟨before, project, after, updater project, hsplit, hid, hnext hsplit hid, hone⟩

theorem changesOne_update_iff {project : ProjectRecord} (h : project.InOrder)
    (change : ProjectEnvironment → ProjectEnvironment) (now : String) :
    ChangesOne project
        { project with
          updatedAt := now
          environments := project.environments.map fun environment =>
            if environment.id = environmentId then change environment else environment }
        environmentId (fun environment => [change environment]) ↔
      environmentId ∈ project.environments.map ProjectEnvironment.id := by
  rw [mem_map_id_iff]
  constructor
  · rintro ⟨earlier, environment, later, hsplit, hid, -⟩
    exact ⟨earlier, environment, later, hsplit, hid⟩
  · rintro ⟨earlier, environment, later, hsplit, rfl⟩
    refine ⟨earlier, environment, later, hsplit, rfl, ?_⟩
    dsimp only
    rw [hsplit, map_key_eq (hsplit ▸ h.distinct)]
    rfl

theorem changesOne_remove_iff {project : ProjectRecord} (h : project.InOrder) (now : String) :
    ChangesOne project (removeEnvironment project environmentId now) environmentId (fun _ => []) ↔
      environmentId ∈ project.environments.map ProjectEnvironment.id ∧
        1 < project.environments.length := by
  rw [mem_map_id_iff]
  constructor
  · rintro ⟨earlier, environment, later, hsplit, hid, hremoved⟩
    refine ⟨⟨earlier, environment, later, hsplit, hid⟩, ?_⟩
    by_contra hone
    -- the last environment stays
    rw [removeEnvironment, if_pos (Nat.le_of_not_lt hone), hsplit] at hremoved
    have hlength := congrArg List.length (List.append_cancel_left hremoved)
    simp at hlength
  · rintro ⟨⟨earlier, environment, later, hsplit, rfl⟩, hmany⟩
    refine ⟨earlier, environment, later, hsplit, rfl, ?_⟩
    rw [removeEnvironment, if_neg (Nat.not_le_of_lt hmany)]
    dsimp only
    rw [hsplit, filter_key_eq (hsplit ▸ h.distinct)]
    rfl

/-- Environments that keep their ids keep their order. -/
theorem inOrder_map {project : ProjectRecord} (h : project.InOrder)
    {change : ProjectEnvironment → ProjectEnvironment}
    (hid : ∀ environment, (change environment).id = environment.id) :
    EnvironmentsInOrder (project.environments.map fun environment =>
        if environment.id = environmentId then change environment else environment)
      project.activeEnvironmentId := by
  have hids : (project.environments.map fun environment =>
      if environment.id = environmentId then change environment else environment).map
        ProjectEnvironment.id = project.environments.map ProjectEnvironment.id := by
    rw [List.map_map]
    refine List.map_congr_left fun environment _ => ?_
    rw [Function.comp_apply]
    split_ifs
    · exact hid environment
    · rfl
  exact ⟨hids.symm ▸ h.distinct, mt List.map_eq_nil_iff.mp h.nonempty, hids.symm ▸ h.active⟩

theorem removeEnvironment_id (environmentId now : String) (project : ProjectRecord) :
    (removeEnvironment project environmentId now).id = project.id := by
  rw [removeEnvironment]
  split_ifs <;> rfl

/-- The first environment that is left becomes active in the place of one that is removed. -/
theorem inOrder_remove {project : ProjectRecord} (h : project.InOrder) (now : String) :
    (removeEnvironment project environmentId now).InOrder := by
  rw [removeEnvironment]
  by_cases hone : project.environments.length ≤ 1
  · rwa [if_pos hone]
  rw [if_neg hone]
  have hnonempty : project.environments.filter (fun environment => environment.id ≠ environmentId) ≠
      [] := by
    by_cases hmem : environmentId ∈ project.environments.map ProjectEnvironment.id
    · obtain ⟨earlier, environment, later, hsplit, rfl⟩ := mem_map_id_iff.mp hmem
      rw [hsplit, filter_key_eq (hsplit ▸ h.distinct)]
      intro hnil
      rw [hsplit, List.length_append, List.length_cons, ← Nat.add_assoc, ← List.length_append,
        hnil] at hone
      exact hone le_rfl
    · have hkept : project.environments.filter (fun environment => environment.id ≠ environmentId) =
          project.environments := by
        refine List.filter_eq_self.mpr fun environment henvironment => decide_eq_true fun hid => ?_
        exact hmem (hid ▸ List.mem_map_of_mem henvironment)
      rw [hkept]
      exact h.nonempty
  refine ⟨h.distinct.sublist (List.filter_sublist.map _), hnonempty, ?_⟩
  dsimp only
  by_cases hactive : project.activeEnvironmentId = environmentId
  · rw [if_pos hactive]
    obtain ⟨first, rest, hnext⟩ := List.exists_cons_of_ne_nil hnonempty
    rw [hnext]
    exact List.mem_cons_self
  · rw [if_neg hactive]
    obtain ⟨environment, henvironment, hid⟩ := List.mem_map.mp h.active
    exact List.mem_map.mpr ⟨environment,
      List.mem_filter.mpr ⟨henvironment, decide_eq_true (hid ▸ hactive)⟩, hid⟩

/-- Another environment, which becomes the active one. -/
theorem inOrder_append_iff {project : ProjectRecord} (h : project.InOrder)
    (environment : ProjectEnvironment) :
    EnvironmentsInOrder (project.environments ++ [environment]) environment.id ↔
      environment.id ∉ project.environments.map ProjectEnvironment.id := by
  have hnodup : ((project.environments ++ [environment]).map ProjectEnvironment.id).Nodup ↔
      environment.id ∉ project.environments.map ProjectEnvironment.id := by
    rw [List.map_append, List.map_singleton, List.nodup_append_comm, List.singleton_append,
      List.nodup_cons]
    exact and_iff_left h.distinct
  refine ⟨fun horder => hnodup.mp horder.distinct, fun hnew => ⟨hnodup.mpr hnew, ?_, ?_⟩⟩
  · exact List.append_ne_nil_of_right_ne_nil _ (List.cons_ne_nil _ _)
  · exact List.mem_map_of_mem (List.mem_append_right _ List.mem_cons_self)

/-- The project with an id is the one that is found. -/
theorem forall_project_iff (h : library.InOrder) (p : ProjectRecord → Prop) :
    (∀ project ∈ library.projects, project.id = projectId → p project) ↔
      ∀ project ∈ findProject library projectId, p project := by
  cases hfind : findProject library projectId with
  | none =>
      refine iff_of_true (fun project hproject hid => ?_) fun _ hnone => absurd hnone (by simp)
      exact absurd hid (by simpa using List.find?_eq_none.mp hfind project hproject)
  | some target =>
      have htarget : target ∈ library.projects := List.mem_of_find?_eq_some hfind
      have hid : target.id = projectId := by simpa using List.find?_some hfind
      constructor
      · intro hall project hproject
        obtain rfl := Option.mem_some_iff.mp hproject
        exact hall _ htarget hid
      · intro hone project hproject hthis
        rw [List.inj_on_of_nodup_map h.distinct hproject htarget (hthis.trans hid.symm)]
        exact hone target rfl

theorem inOrder_create_iff (h : library.InOrder) (name description : Option String) (empty : Bool)
    (draws : Draws) :
    (withProjects (host.createdProject library name description empty draws :: ·) library).InOrder ↔
      Safe library ⟨.createProject name description empty, draws⟩ := by
  have hid : (host.createdProject library name description empty draws).id =
      createdId library (baseIdOf (createdName library name)) := by
    simp only [createdProject, createNewProjectRecord_id]
  have horder : (host.createdProject library name description empty draws).InOrder :=
    ⟨List.nodup_singleton _, List.cons_ne_nil _ _, List.mem_cons_self⟩
  have hfree : isTaken library.projects (createdId library (baseIdOf (createdName library name))) =
      false ↔ Safe library ⟨.createProject name description empty, draws⟩ := by
    rw [createdId]
    by_cases htaken : isTaken library.projects (baseIdOf (createdName library name)) = true
    · rw [if_pos htaken]
      exact (imp_iff_right htaken).symm
    · rw [if_neg htaken]
      exact iff_of_true (Bool.eq_false_iff.mpr htaken) fun htaken' => absurd htaken' htaken
  rw [← hfree, isTaken_eq_false_iff, ← hid]
  constructor
  · exact fun hnext => (List.nodup_cons.mp hnext.distinct).1
  · intro hnew
    exact ⟨List.nodup_cons.mpr ⟨hnew, h.distinct⟩,
      List.forall_mem_cons.mpr ⟨horder, h.projects⟩⟩

theorem inOrder_import_iff (h : library.InOrder) (importedProjects : List ProjectRecord)
    (draws : Draws) :
    (withProjects (fun _ => host.importAll draws library.projects 0 importedProjects)
        library).InOrder ↔ ∀ project ∈ importedProjects, project.InOrder := by
  have hadds := adds_importAll host draws library.projects 0 importedProjects
  obtain ⟨added, hadded, hcontent⟩ := hadds.added
  have hsame : (∀ project ∈ added, project.InOrder) ↔
      ∀ project ∈ importedProjects, project.InOrder := by
    have hleft := List.forall_mem_map (l := added) (f := ProjectRecord.content)
      (P := ProjectRecord.InOrder)
    have hright := List.forall_mem_map (l := importedProjects) (f := ProjectRecord.content)
      (P := ProjectRecord.InOrder)
    rw [hcontent] at hleft
    exact hleft.symm.trans hright
  have hall : (∀ project ∈ host.importAll draws library.projects 0 importedProjects,
      project.InOrder) ↔ ∀ project ∈ importedProjects, project.InOrder := by
    rw [← hsame]
    constructor
    · exact fun hnext project hproject =>
        hnext project (hadded.mem_iff.mpr (List.mem_append_left _ hproject))
    · intro hnew project hproject
      rcases List.mem_append.mp (hadded.mem_iff.mp hproject) with hfirst | hold
      · exact hnew project hfirst
      · exact h.projects project hold
  exact ⟨fun hnext => hall.mp hnext.projects, fun hnew =>
    ⟨hadds.distinct h.distinct, hall.mpr hnew⟩⟩

theorem inOrder_delete (h : library.InOrder) (p : ProjectRecord → Bool) :
    (withProjects (fun projects => projects.filter p) library).InOrder :=
  ⟨h.distinct.sublist (List.filter_sublist.map _),
    fun project hproject => h.projects project (List.mem_of_mem_filter hproject)⟩

theorem inOrder_rollback_iff (h : library.InOrder) (projectId snapshotId : String) (draws : Draws) :
    (withProjects (fun projects => updateProject projects projectId fun project =>
        host.rollbackProjectToSnapshot project snapshotId draws) library).InOrder ↔
      Safe library ⟨.rollbackProject projectId snapshotId, draws⟩ := by
  rw [inOrder_updateProject_iff h]
  · refine forall₃_congr fun project hproject _ => ?_
    rw [rollbackProjectToSnapshot]
    cases project.snapshots.find? fun snapshot => snapshot.id = snapshotId with
    | none => exact iff_of_true (h.projects project hproject) fun _ hnone => absurd hnone (by simp)
    | some snapshot => exact ⟨fun horder _ hsome => Option.mem_some_iff.mp hsome ▸ horder,
        fun hall => hall snapshot rfl⟩
  · intro project
    rw [rollbackProjectToSnapshot]
    cases project.snapshots.find? fun snapshot => snapshot.id = snapshotId <;> rfl

theorem inOrder_duplicate_iff (h : library.InOrder) (projectId environmentId : String)
    (draws : Draws) :
    (host.queue library ⟨.duplicateEnvironment projectId environmentId, draws⟩ library).InOrder ↔
      Safe library ⟨.duplicateEnvironment projectId environmentId, draws⟩ := by
  refine Iff.trans ?_ (forall_project_iff h _).symm
  simp only [queue, environmentRead]
  cases hfind : findProject library projectId with
  | none => exact iff_of_true h fun _ hnone => absurd hnone (by simp)
  | some project =>
      have hone : ∀ {p : ProjectRecord → Prop}, (∀ found ∈ some project, p found) ↔ p project :=
        ⟨fun hall => hall project rfl, fun hp _ hfound => Option.mem_some_iff.mp hfound ▸ hp⟩
      have hproject : project ∈ library.projects := List.mem_of_find?_eq_some hfind
      rw [hone, Option.bind_some]
      cases htarget : project.environments.find? fun environment => environment.id = environmentId with
      | none =>
          refine iff_of_true h fun hmem => ?_
          obtain ⟨environment, henvironment, hid⟩ := List.mem_map.mp hmem
          have hne := List.find?_eq_none.mp htarget environment henvironment
          exact absurd (decide_eq_true hid) hne
      | some target =>
          have hid : target.id = environmentId := by simpa using List.find?_some htarget
          have hmem : environmentId ∈ project.environments.map ProjectEnvironment.id :=
            hid ▸ List.mem_map_of_mem (List.mem_of_find?_eq_some htarget)
          rw [imp_iff_right hmem, Option.map_some, ← hid]
          dsimp only
          refine (inOrder_updateProject_iff h ?_).trans ?_
          · exact fun _ => rfl
          · rw [forall_project_iff h, hfind, hone]
            exact inOrder_append_iff (h.projects project hproject) _

/-- An action keeps the library in order, and affects what it should, if it is safe. -/
theorem step_iff (h : library.InOrder) (call : ProjectCall) :
    (host.queue library call library).InOrder ∧ host.OneAffected library call ↔
      Safe library call := by
  obtain ⟨action, draws⟩ := call
  cases action with
  | createProject name description empty =>
      exact (and_iff_left True.intro).trans (inOrder_create_iff h name description empty draws)
  | importProjects importedProjects =>
      exact (and_iff_left True.intro).trans (inOrder_import_iff h importedProjects draws)
  | deleteProject projectId =>
      refine iff_of_true ⟨?_, True.intro⟩ True.intro
      simp only [queue]
      cases findProject library projectId with
      | none => exact h
      | some _ => exact inOrder_delete h _
  | updateProjectDraft projectId nextDraft =>
      exact iff_of_true ⟨inOrder_keep h (fun _ => rfl) fun _ hp => hp, True.intro⟩ True.intro
  | saveProject projectId astText payloadText =>
      refine iff_of_true ⟨?_, True.intro⟩ True.intro
      simp only [queue, replaceProject_eq_update h]
      exact inOrder_keep h (fun _ => rfl) fun _ hp => hp
  | createSnapshot projectId label description =>
      refine iff_of_true ⟨?_, True.intro⟩ True.intro
      simp only [queue, replaceProject_eq_update h]
      exact inOrder_keep h (fun _ => rfl) fun _ hp => hp
  | deleteSnapshot projectId snapshotId =>
      refine iff_of_true ⟨?_, True.intro⟩ True.intro
      simp only [queue, replaceProject_eq_update h]
      exact inOrder_keep h (fun _ => rfl) fun _ hp => hp
  | rollbackProject projectId snapshotId =>
      refine (and_iff_left True.intro).trans ?_
      simp only [queue, replaceProject_eq_update h]
      exact inOrder_rollback_iff h projectId snapshotId draws
  | setActiveEnvironment projectId environmentId =>
      refine (and_iff_left True.intro).trans ((inOrder_updateProject_iff h ?_).trans ?_)
      · exact fun _ => rfl
      · refine forall₃_congr fun project hproject _ => ?_
        have horder := h.projects project hproject
        exact ⟨fun hnext => hnext.active, fun hmem => ⟨horder.distinct, horder.nonempty, hmem⟩⟩
  | updateEnvironment projectId environmentId patch =>
      refine (and_iff_right ?_).trans ((affectsOne_iff h _).trans ?_)
      · exact inOrder_keep h (fun _ => rfl) fun _ horder => inOrder_map horder fun _ => rfl
      · refine exists_congr fun project => and_congr_right fun hproject => and_congr_right fun _ => ?_
        exact changesOne_update_iff (h.projects project hproject) _ _
  | duplicateEnvironment projectId environmentId =>
      exact (and_iff_left True.intro).trans (inOrder_duplicate_iff h projectId environmentId draws)
  | deleteEnvironment projectId environmentId =>
      refine (and_iff_right ?_).trans ((affectsOne_iff h _).trans ?_)
      · exact inOrder_keep h (removeEnvironment_id environmentId _) fun _ horder =>
          inOrder_remove horder _
      · refine exists_congr fun project => and_congr_right fun hproject => and_congr_right fun _ => ?_
        exact changesOne_remove_iff (h.projects project hproject) _

end

/-! ## Runs -/

/-- A library stays in order, and actions affect what they should, exactly when it starts with active
environments that are there and no action of the run uses an id again. -/
theorem keptAlong_iff {library : ProjectLibraryState} (h : library.Distinct)
    (calls : List ProjectCall) :
    host.KeptAlong library calls ↔ library.ActiveNamed ∧ host.SafeAll library calls := by
  rw [← h.inOrder_iff]
  clear h
  induction calls generalizing library with
  | nil => exact (and_iff_left True.intro).symm
  | cons call calls ih =>
      rw [KeptAlong, SafeAll]
      refine and_congr_right fun horder => ?_
      rw [ih, ← step_iff horder call]
      exact ⟨fun ⟨hone, hnext, hrest⟩ => ⟨⟨hnext, hone⟩, hrest⟩,
        fun ⟨⟨hnext, hone⟩, hrest⟩ => ⟨hone, hnext, hrest⟩⟩

variable {host} in
theorem KeptAlong.inOrder {library : ProjectLibraryState} {calls : List ProjectCall}
    (h : host.KeptAlong library calls) : (host.oneByOne library calls).InOrder := by
  induction calls generalizing library with
  | nil => exact h
  | cons call calls ih => exact ih h.2.2

/-- A project with one environment. -/
def withOneEnvironment : ProjectLibraryState :=
  ⟨"nazh.project-library", 2, [{ projectOf "p" "" with
    activeEnvironmentId := "e"
    environments := [⟨"e", "", "", "", .object []⟩] }]⟩

theorem withOneEnvironment_distinct : withOneEnvironment.Distinct :=
  ⟨List.nodup_singleton _, List.forall_mem_singleton.mpr
    ⟨List.cons_ne_nil _ _, List.nodup_singleton _⟩⟩

/-- The environment is duplicated, and the copy is edited. -/
def duplicateAndEdit : List ProjectCall :=
  [⟨.duplicateEnvironment "p" "e", noDraws⟩,
    ⟨.updateEnvironment "p" "e-copy-2" ⟨some "copy", none, none⟩, noDraws⟩]

/-- The environment is duplicated twice, the first copy is deleted, and another one is made. -/
def duplicateAgain : List ProjectCall :=
  [⟨.duplicateEnvironment "p" "e", noDraws⟩, ⟨.duplicateEnvironment "p" "e", noDraws⟩,
    ⟨.deleteEnvironment "p" "e-copy-2", noDraws⟩, ⟨.duplicateEnvironment "p" "e", noDraws⟩]

theorem duplicateAndEdit_kept : plain.KeptAlong withOneEnvironment duplicateAndEdit :=
  (plain.keptAlong_iff withOneEnvironment_distinct duplicateAndEdit).mpr
    ⟨List.forall_mem_singleton.mpr List.mem_cons_self, by decide⟩

/-- Both copies that are left have the id that was made of three environments, and the deletion of one
of them removes both. -/
theorem duplicateAgain_twice :
    let idsOf := fun library : ProjectLibraryState =>
      library.projects.map fun project => project.environments.map ProjectEnvironment.id
    idsOf (plain.oneByOne withOneEnvironment duplicateAgain) = [["e", "e-copy-3", "e-copy-3"]] ∧
      idsOf (plain.oneByOne withOneEnvironment
        (duplicateAgain ++ [⟨.deleteEnvironment "p" "e-copy-3", noDraws⟩])) = [["e"]] ∧
      ¬ plain.KeptAlong withOneEnvironment duplicateAgain := by
  have hend : (plain.oneByOne withOneEnvironment duplicateAgain).projects.map
      (fun project => project.environments.map ProjectEnvironment.id) =
        [["e", "e-copy-3", "e-copy-3"]] := by decide
  refine ⟨hend, by decide, fun hkept => ?_⟩
  have hdistinct : ∀ ids ∈ (plain.oneByOne withOneEnvironment duplicateAgain).projects.map
      (fun project => project.environments.map ProjectEnvironment.id), ids.Nodup :=
    List.forall_mem_map.mpr fun project hproject => (hkept.inOrder.projects project hproject).distinct
  rw [hend] at hdistinct
  revert hdistinct
  decide

end ProjectHost

end Nazh.Web
