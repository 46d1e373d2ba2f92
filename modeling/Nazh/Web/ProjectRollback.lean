import Nazh.Lib.StableSort
import Nazh.Web.ProjectActions

/-!
# A rollback that can be taken back

Before a project is rolled back to a snapshot, what it is then is put into a snapshot of its own,
which is sorted among the others by its time. Only the twenty newest are left, and a snapshot is
looked up by its id. So the protecting snapshot is of use if less than twenty come before it, none
of them with its id.
-/

namespace Nazh.Web

open Lib

/-- What a rollback takes from a snapshot. -/
structure ProjectState where
  astText : String
  payloadText : String
  activeEnvironmentId : String
  environments : List ProjectEnvironment
  deriving DecidableEq

def ProjectSnapshot.state (snapshot : ProjectSnapshot) : ProjectState :=
  ⟨snapshot.astText, snapshot.payloadText, snapshot.activeEnvironmentId, snapshot.environments⟩

def ProjectRecord.state (project : ProjectRecord) : ProjectState :=
  ⟨project.astText, project.payloadText, project.activeEnvironmentId, project.environments⟩

namespace ProjectHost

variable (host : ProjectHost)

/-- The state of a project, with its text as it is or normalized. -/
def HasStateOf (project : ProjectRecord) (state : ProjectState) : Prop :=
  state = project.state ∨
    state = { project.state with
      astText := host.normalizeProjectAstText project.astText }

/-- A rollback to a snapshot has its state, can be taken back by a rollback to one of the
snapshots that are left, and leaves no more snapshots than there may be. -/
structure Reversible (project : ProjectRecord) (snapshot : ProjectSnapshot) (draws : Draws) :
    Prop where
  state_eq : (host.rollbackProjectToSnapshot project snapshot.id draws).state = snapshot.state
  taken_back : ∃ kept ∈ (host.rollbackProjectToSnapshot project snapshot.id draws).snapshots,
    host.HasStateOf project kept.state ∧
      ∀ again : Draws, host.HasStateOf project
        (host.rollbackProjectToSnapshot
          (host.rollbackProjectToSnapshot project snapshot.id draws) kept.id again).state
  limited : (host.rollbackProjectToSnapshot project snapshot.id draws).snapshots.length ≤
    maxProjectSnapshots

/-- A time that is not before another one. -/
def NoOlder (time other : String) : Prop := host.localeCompare other time ≠ .gt

instance : DecidableRel host.NoOlder :=
  fun time other => inferInstanceAs (Decidable (host.localeCompare other time ≠ .gt))

/-- The order of `ensureSnapshotLimit`. -/
def Precedes (left right : ProjectSnapshot) : Prop := host.NoOlder left.createdAt right.createdAt

instance : DecidableRel host.Precedes :=
  fun left right => inferInstanceAs (Decidable (host.NoOlder left.createdAt right.createdAt))

/-- A snapshot is left and found by its id behind snapshots with these ids. -/
def Findable (id : String) (idsBefore : List String) : Prop :=
  idsBefore.length < maxProjectSnapshots ∧ id ∉ idsBefore

/-- The id of the snapshot that is made. -/
def newId (draws : Draws) : String := "snapshot-" ++ draws.digits 0

/-- The ids of the snapshots that are newer than now. -/
def newerIds (project : ProjectRecord) (draws : Draws) : List String :=
  (project.snapshots.filter fun other =>
    ¬ host.NoOlder (draws.nowIso 0) other.createdAt).map ProjectSnapshot.id

/-- The ids of the snapshots before one of the project: the new one, unless it is older, and those
of the project. -/
def idsBefore (draws : Draws) (before : List ProjectSnapshot) (kept : ProjectSnapshot)
    (after : List ProjectSnapshot) : List String :=
  (if host.NoOlder (draws.nowIso 0) kept.createdAt then [newId draws] else []) ++
    (ahead host.Precedes before kept after).map ProjectSnapshot.id

/-- The snapshot that is found has the state, and behind the newer ones the new one can be found,
or one of the project that is the same. -/
structure Protected (project : ProjectRecord) (snapshot : ProjectSnapshot) (draws : Draws) :
    Prop where
  found : ∃ target, project.snapshots.find? (fun other => other.id = snapshot.id) = some target ∧
    target.state = snapshot.state
  findable : Findable (newId draws) (host.newerIds project draws) ∨
    ∃ before kept after, project.snapshots = before ++ kept :: after ∧
      host.HasStateOf project kept.state ∧
      Findable kept.id (host.idsBefore draws before kept after)

/-- The snapshot that `rollbackProjectToSnapshot` makes. -/
def protectionOf (project : ProjectRecord) (target : ProjectSnapshot) (draws : Draws) :
    ProjectSnapshot :=
  host.snapshotOf project .rollback (some s!"回滚前 · {project.name}")
    (some s!"回滚到 {target.label} 之前自动保留的版本。") (draws.nowIso 0) (draws.digits 0)

section

variable {host} {project : ProjectRecord} {snapshot target kept : ProjectSnapshot}
  {snapshots : List ProjectSnapshot} {draws : Draws}

/-! ## What a rollback makes -/

theorem rollback_state
    (h : project.snapshots.find? (fun other => other.id = snapshot.id) = some target) :
    (host.rollbackProjectToSnapshot project snapshot.id draws).state = target.state := by
  rw [rollbackProjectToSnapshot, h]
  rfl

theorem rollback_snapshots
    (h : project.snapshots.find? (fun other => other.id = snapshot.id) = some target) :
    (host.rollbackProjectToSnapshot project snapshot.id draws).snapshots =
      host.ensureSnapshotLimit (host.protectionOf project target draws :: project.snapshots) := by
  rw [rollbackProjectToSnapshot, h]
  rfl

variable (host) in
theorem length_ensureSnapshotLimit_le (snapshots : List ProjectSnapshot) :
    (host.ensureSnapshotLimit snapshots).length ≤ maxProjectSnapshots :=
  List.length_take_le ..

/-- The protecting snapshot has the state, normalized. -/
theorem hasStateOf_protectionOf :
    host.HasStateOf project (host.protectionOf project target draws).state :=
  .inr rfl

/-- Some snapshot is found by the id of one that there is. -/
theorem exists_find (h : snapshot ∈ snapshots) :
    ∃ target, snapshots.find? (fun other => other.id = snapshot.id) = some target ∧
      target.id = snapshot.id := by
  have hsome : (snapshots.find? fun other => other.id = snapshot.id).isSome :=
    List.find?_isSome.mpr ⟨snapshot, h, decide_eq_true rfl⟩
  obtain ⟨target, htarget⟩ := Option.isSome_iff_exists.mp hsome
  exact ⟨target, htarget, by simpa using List.find?_some htarget⟩

/-- The state comes back from a snapshot that is left if it does from the one that is found. -/
theorem taken_back_iff (rolledBack : ProjectRecord) :
    (∃ kept ∈ rolledBack.snapshots, host.HasStateOf project kept.state ∧
      ∀ again : Draws, host.HasStateOf project
        (host.rollbackProjectToSnapshot rolledBack kept.id again).state) ↔
    ∃ kept, rolledBack.snapshots.find? (fun other => other.id = kept.id) = some kept ∧
      host.HasStateOf project kept.state := by
  constructor
  · rintro ⟨kept, hkept, -, hback⟩
    obtain ⟨first, hfirst, hid⟩ := exists_find hkept
    have hstate := hback ⟨fun _ => "", fun _ => ""⟩
    rw [rollback_state hfirst] at hstate
    exact ⟨first, hid ▸ hfirst, hstate⟩
  · rintro ⟨kept, hkept, hstate⟩
    refine ⟨kept, List.mem_of_find?_eq_some hkept, hstate, fun again => ?_⟩
    rw [rollback_state hkept]
    exact hstate

/-! ## The protecting snapshot and the others -/

/-- The new snapshot comes first in the list, so that just the newer ones are before it. -/
theorem ahead_protectionOf :
    (ahead host.Precedes [] (host.protectionOf project target draws) project.snapshots).map
      ProjectSnapshot.id = host.newerIds project draws := rfl

theorem ahead_cons_protectionOf (before after : List ProjectSnapshot) :
    (ahead host.Precedes (host.protectionOf project target draws :: before) kept after).map
      ProjectSnapshot.id = host.idsBefore draws before kept after := by
  unfold ahead idsBefore
  by_cases hnow : host.NoOlder (draws.nowIso 0) kept.createdAt
  · have hfirst : host.Precedes (host.protectionOf project target draws) kept := hnow
    rw [List.filter_cons_of_pos (by simpa using hfirst), if_pos hnow, List.cons_append]
    rfl
  · have hfirst : ¬ host.Precedes (host.protectionOf project target draws) kept := hnow
    rw [List.filter_cons_of_neg (by simpa using hfirst), if_neg hnow, List.nil_append]
    rfl

/-- At a time that no snapshot is later than, the new snapshot comes first. -/
theorem newerIds_eq_nil
    (h : ∀ other ∈ project.snapshots, host.NoOlder (draws.nowIso 0) other.createdAt) :
    host.newerIds project draws = [] := by
  rw [newerIds, List.filter_eq_nil_iff.mpr fun other hother => by simpa using h other hother]
  rfl

/-- With snapshots of different ids, none of them from later than now, any rollback can be taken
back. -/
theorem protected_of_newest (hmem : snapshot ∈ project.snapshots)
    (hids : (project.snapshots.map ProjectSnapshot.id).Nodup)
    (h : ∀ other ∈ project.snapshots, host.NoOlder (draws.nowIso 0) other.createdAt) :
    host.Protected project snapshot draws := by
  obtain ⟨target, htarget, hid⟩ := exists_find hmem
  have hsame : target = snapshot :=
    List.inj_on_of_nodup_map hids (List.mem_of_find?_eq_some htarget) hmem hid
  refine ⟨⟨target, htarget, by rw [hsame]⟩, .inl ⟨?_, ?_⟩⟩
  · rw [newerIds_eq_nil h]
    decide
  · rw [newerIds_eq_nil h]
    exact List.not_mem_nil

/-- With twenty snapshots from later than now and none with the state, no rollback can. -/
theorem not_protected_of_newer
    (hnewer : maxProjectSnapshots ≤ (host.newerIds project draws).length)
    (hstate : ∀ other ∈ project.snapshots, ¬ host.HasStateOf project other.state) :
    ¬ host.Protected project snapshot draws := by
  rintro ⟨-, ⟨hlength, -⟩ | ⟨before, kept, after, hsnapshots, hkept, -⟩⟩
  · omega
  · refine hstate kept ?_ hkept
    rw [hsnapshots]
    exact List.mem_append_right before List.mem_cons_self

/-! ## The snapshots that are left -/

variable [Std.TransCmp host.localeCompare]

instance : Std.Total host.Precedes where
  total left right := by
    have hswap : host.localeCompare left.createdAt right.createdAt =
        (host.localeCompare right.createdAt left.createdAt).swap := Std.OrientedCmp.eq_swap
    unfold Precedes NoOlder
    rw [hswap]
    cases host.localeCompare right.createdAt left.createdAt <;> decide

instance : IsTrans ProjectSnapshot host.Precedes where
  trans left middle right hleft hright := by
    have hle := Std.TransCmp.isLE_trans (Ordering.isLE_iff_ne_gt.mpr hright)
      (Ordering.isLE_iff_ne_gt.mpr hleft)
    exact Ordering.isLE_iff_ne_gt.mp hle

theorem find_ensureSnapshotLimit_iff :
    (host.ensureSnapshotLimit snapshots).find? (fun other => other.id = kept.id) = some kept ↔
      ∃ before after, snapshots = before ++ kept :: after ∧
        Findable kept.id ((ahead host.Precedes before kept after).map ProjectSnapshot.id) := by
  rw [List.find?_eq_some_iff_append]
  constructor
  · rintro ⟨-, front, back, hcut, hids⟩
    have hsorted : snapshots.insertionSort host.Precedes = front ++ kept ::
        (back ++ (snapshots.insertionSort host.Precedes).drop maxProjectSnapshots) := by
      rw [← List.cons_append, ← List.append_assoc, ← hcut]
      exact (List.take_append_drop ..).symm
    have hids : kept.id ∉ front.map ProjectSnapshot.id := by
      rintro hmem
      obtain ⟨other, hother, hid⟩ := List.mem_map.mp hmem
      simpa [hid] using hids other hother
    have hlength : front.length < maxProjectSnapshots := by
      have hle := length_ensureSnapshotLimit_le host snapshots
      rw [hcut, List.length_append, List.length_cons] at hle
      omega
    obtain ⟨before, after, rfl, hperm⟩ := perm_ahead_of_insertionSort_eq hsorted
      fun hmem => hids (List.mem_map_of_mem hmem)
    refine ⟨before, after, rfl, ?_, ?_⟩
    · rwa [List.length_map, ← hperm.length_eq]
    · rwa [← (hperm.map ProjectSnapshot.id).mem_iff]
  · rintro ⟨before, after, rfl, hlength, hids⟩
    obtain ⟨front, back, hsorted, hperm⟩ :=
      exists_insertionSort_eq (r := host.Precedes) before kept after
    rw [List.length_map, ← hperm.length_eq] at hlength
    rw [← (hperm.map ProjectSnapshot.id).mem_iff] at hids
    refine ⟨decide_eq_true rfl, front, back.take (maxProjectSnapshots - front.length - 1), ?_, ?_⟩
    · have hpos : maxProjectSnapshots - front.length =
          maxProjectSnapshots - front.length - 1 + 1 := by omega
      have htake : (front ++ kept :: back).take maxProjectSnapshots =
          front ++ (kept :: back).take (maxProjectSnapshots - front.length) := by
        rw [List.take_append, List.take_of_length_le hlength.le]
      rw [hpos, List.take_succ_cons] at htake
      exact (congrArg (List.take maxProjectSnapshots) hsorted).trans htake
    · intro other hother
      have hne : other.id ≠ kept.id := fun heq => hids (heq ▸ List.mem_map_of_mem hother)
      simpa using hne

/-- What is left with the state and found is the new snapshot, or one of the project. -/
theorem exists_find_iff_findable :
    (∃ kept, (host.ensureSnapshotLimit
        (host.protectionOf project target draws :: project.snapshots)).find?
          (fun other => other.id = kept.id) = some kept ∧ host.HasStateOf project kept.state) ↔
      Findable (newId draws) (host.newerIds project draws) ∨
        ∃ before kept after, project.snapshots = before ++ kept :: after ∧
          host.HasStateOf project kept.state ∧
          Findable kept.id (host.idsBefore draws before kept after) := by
  constructor
  · rintro ⟨kept, hfind, hstate⟩
    obtain ⟨before, after, hlist, hfindable⟩ := find_ensureSnapshotLimit_iff.mp hfind
    cases before with
    | nil =>
        obtain ⟨rfl, rfl⟩ := List.cons.inj hlist
        rw [ahead_protectionOf] at hfindable
        exact .inl hfindable
    | cons first before =>
        obtain ⟨rfl, hsnapshots⟩ := List.cons.inj hlist
        rw [ahead_cons_protectionOf] at hfindable
        exact .inr ⟨before, kept, after, hsnapshots, hstate, hfindable⟩
  · rintro (hfindable | ⟨before, kept, after, hsnapshots, hstate, hfindable⟩)
    · refine ⟨host.protectionOf project target draws, find_ensureSnapshotLimit_iff.mpr
        ⟨[], project.snapshots, rfl, ?_⟩, hasStateOf_protectionOf⟩
      rw [ahead_protectionOf]
      exact hfindable
    · refine ⟨kept, find_ensureSnapshotLimit_iff.mpr
        ⟨host.protectionOf project target draws :: before, after, ?_, ?_⟩, hstate⟩
      · rw [hsnapshots, List.cons_append]
      · rw [ahead_cons_protectionOf]
        exact hfindable

theorem protected_of_reversible (hmem : snapshot ∈ project.snapshots)
    (h : host.Reversible project snapshot draws) : host.Protected project snapshot draws := by
  obtain ⟨target, htarget, -⟩ := exists_find hmem
  have hkept := (taken_back_iff _).mp h.taken_back
  rw [rollback_snapshots htarget] at hkept
  exact ⟨⟨target, htarget, (rollback_state htarget).symm.trans h.state_eq⟩,
    exists_find_iff_findable.mp hkept⟩

theorem reversible_of_protected (h : host.Protected project snapshot draws) :
    host.Reversible project snapshot draws := by
  obtain ⟨⟨target, htarget, hstate⟩, hfindable⟩ := h
  refine ⟨(rollback_state htarget).trans hstate, (taken_back_iff _).mpr ?_, ?_⟩
  · rw [rollback_snapshots htarget]
    exact exists_find_iff_findable.mpr hfindable
  · rw [rollback_snapshots htarget]
    exact length_ensureSnapshotLimit_le host _

/-- A rollback can be taken back if and only if the snapshot that is found has the state of the
one that is meant, and less than twenty snapshots come before the new one, none of them with its
id, or before one that the project has with the same state. -/
theorem reversible_iff (hmem : snapshot ∈ project.snapshots) :
    host.Reversible project snapshot draws ↔ host.Protected project snapshot draws :=
  ⟨protected_of_reversible hmem, reversible_of_protected⟩

end

/-! ## Rollbacks -/

instance : Std.TransCmp plain.localeCompare :=
  inferInstanceAs (Std.TransCmp (compare : String → String → Ordering))

/-- A project with snapshots from different times, and what is drawn in the year 2026. -/
def projectWith (snapshots : List ProjectSnapshot) : ProjectRecord :=
  { projectOf "pump" "new" with snapshots }

def snapshotFrom (createdAt : String) (number : ℕ) : ProjectSnapshot :=
  ⟨s!"snapshot-{number}", "", "", createdAt, .manual, "old", "", "", []⟩

def drawsOf2026 : Draws := ⟨fun _ => "2026-05-01T08:00:00.000Z", fun _ => "3f2a9c1d"⟩

/-- The rollback to a snapshot from last year can be taken back. -/
theorem lastYear_reversible :
    plain.Reversible (projectWith [snapshotFrom "2025-05-01T08:00:00.000Z" 1])
      (snapshotFrom "2025-05-01T08:00:00.000Z" 1) drawsOf2026 := by
  refine (reversible_iff (List.mem_singleton.mpr rfl)).mpr
    (protected_of_newest (List.mem_singleton.mpr rfl) (List.nodup_singleton _) ?_)
  intro other hother
  rw [List.mem_singleton.mp hother]
  decide

/-- Twenty snapshots from a machine whose clock is ahead. -/
def snapshotsOf2027 : List ProjectSnapshot :=
  (List.range 20).map (snapshotFrom "2027-05-01T08:00:00.000Z")

/-- With twenty snapshots whose times are still to come, the protecting one is cut. -/
theorem nextYear_lost :
    snapshotFrom "2027-05-01T08:00:00.000Z" 1 ∈ (projectWith snapshotsOf2027).snapshots ∧
      ¬ plain.Reversible (projectWith snapshotsOf2027)
        (snapshotFrom "2027-05-01T08:00:00.000Z" 1) drawsOf2026 := by
  have hmem : snapshotFrom "2027-05-01T08:00:00.000Z" 1 ∈ snapshotsOf2027 :=
    List.mem_map_of_mem (List.mem_range.mpr (by decide))
  have hnewer : ¬ plain.NoOlder "2026-05-01T08:00:00.000Z" "2027-05-01T08:00:00.000Z" := by decide
  refine ⟨hmem, fun h => not_protected_of_newer ?_ ?_ (protected_of_reversible hmem h)⟩
  · rw [newerIds, List.filter_eq_self.mpr, List.length_map]
    · exact (List.length_map _).trans (List.length_range ..) |>.ge
    · intro other hother
      obtain ⟨number, -, rfl⟩ := List.mem_map.mp hother
      exact decide_eq_true hnewer
  · intro other hother
    obtain ⟨number, -, rfl⟩ := List.mem_map.mp hother
    have hne : "old" ≠ "new" := by decide
    rintro (hstate | hstate)
    · exact hne (congrArg ProjectState.astText hstate)
    · exact hne (congrArg ProjectState.astText hstate)

end ProjectHost

end Nazh.Web
