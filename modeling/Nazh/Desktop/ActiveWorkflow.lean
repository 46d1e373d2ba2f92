import Nazh.Desktop.Commands

/-!
# Which workflow is active

The active id is written by a deploy after its insertion, by the undeploy of the workflow that it
read as the active one, and by the command that sets it. Between the point where one of them
settles what it is going to write and the write itself, other commands take workflows out of the
map.
-/

namespace Nazh

open Lib

/-- The command is going to write the active id, unless it fails. -/
def CommandPc.writes : CommandPc → Bool
  | stopping _ | inserting _ | storing _ | choosing => true
  | removing workflowId activeBefore | shuttingDown workflowId activeBefore
  | counting workflowId activeBefore => activeBefore == some workflowId
  | deploying _ _ | deployed _ | replacing _ | undeploying _ | checking _ | returned => false

namespace DesktopState

/-- What the active id may be. -/
def names (s : DesktopState) : Option String → Bool
  | none => s.workflows.entries.isEmpty
  | some workflowId => (s.workflows.lookup workflowId).isSome

/-- Whether another command than `k` is going to write the active id. -/
def othersWrite (s : DesktopState) (k : ℕ) : Bool :=
  s.commands.zipIdx.any fun entry => entry.2 != k && entry.1.writes

/-- A command is going to write the active id. -/
def Writes (s : DesktopState) : Prop := ∃ pc ∈ s.commands, pc.writes = true

/-- The active id names a workflow, or a command is going to write it; and once all commands have
returned, it names a workflow, or there is none. -/
structure Named (s : DesktopState) : Prop where
  named : s.names s.activeWorkflowId = true ∨ s.Writes
  settled : s.IsQuiet → s.names s.activeWorkflowId = true

/-- Unless another command is going to write the active id: what is written is the id of a workflow
in the map, or none if there is none; no workflow is taken out that has become the active one since
the undeploy has read the active id; and no deploy fails that took the active one out. -/
def keepsActive (s : DesktopState) : CommandAction → Bool
  | .proceed k => s.othersWrite k || match s.commands[k]? with
    | some (.storing activeWorkflowId) => s.names activeWorkflowId
    | some (.removing workflowId activeBefore) => activeBefore == some workflowId ||
        (s.workflows.lookup workflowId).isNone || s.activeWorkflowId != some workflowId
    | _ => true
  | .fail k => s.othersWrite k || match s.commands[k]? with
    | some (.stopping _) => s.names s.activeWorkflowId
    | _ => true
  | _ => true

variable {s s' t : DesktopState} {a : CommandAction} {d k : ℕ}

theorem named_iff : s.Named ↔ s.names s.activeWorkflowId = true ∨ s.Writes := by
  constructor
  · intro h
    exact h.named
  · intro h
    refine ⟨h, fun hquiet => ?_⟩
    rcases h with hnamed | ⟨pc, hpc, hwrites⟩
    · exact hnamed
    · rw [hquiet pc hpc] at hwrites
      cases hwrites

/-! ## Who is going to write -/

theorem othersWrite_iff : s.othersWrite k = true ↔
    ∃ (j : ℕ) (pc : CommandPc), j ≠ k ∧ s.commands[j]? = some pc ∧ pc.writes = true := by
  rw [othersWrite, List.any_eq_true]
  constructor
  · intro h
    obtain ⟨⟨pc, j⟩, hmem, hwrites⟩ := h
    rw [Bool.and_eq_true, bne_iff_ne] at hwrites
    exact ⟨j, pc, hwrites.1, List.mem_zipIdx_iff_getElem?.mp hmem, hwrites.2⟩
  · intro h
    obtain ⟨j, pc, hjk, hj, hwrites⟩ := h
    refine ⟨⟨pc, j⟩, List.mem_zipIdx_iff_getElem?.mpr hj, ?_⟩
    rw [Bool.and_eq_true, bne_iff_ne]
    exact ⟨hjk, hwrites⟩

theorem writes_iff_getElem? :
    s.Writes ↔ ∃ (j : ℕ) (pc : CommandPc), s.commands[j]? = some pc ∧ pc.writes = true := by
  constructor
  · intro h
    obtain ⟨pc, hpc, hwrites⟩ := h
    obtain ⟨j, hj⟩ := List.mem_iff_getElem?.mp hpc
    exact ⟨j, pc, hj, hwrites⟩
  · intro h
    obtain ⟨j, pc, hj, hwrites⟩ := h
    exact ⟨pc, List.mem_of_getElem? hj, hwrites⟩

/-- Who is going to write: the command `k`, or another one. -/
theorem writes_iff {pc : CommandPc} (hk : s.commands[k]? = some pc) :
    s.Writes ↔ pc.writes = true ∨ s.othersWrite k = true := by
  rw [writes_iff_getElem?, othersWrite_iff]
  constructor
  · intro h
    obtain ⟨j, pc₁, hj, hwrites⟩ := h
    by_cases hjk : j = k
    · subst hjk
      cases hk.symm.trans hj
      exact .inl hwrites
    · exact .inr ⟨j, pc₁, hjk, hj, hwrites⟩
  · intro h
    rcases h with hwrites | ⟨j, pc₁, -, hj, hwrites⟩
    · exact ⟨k, pc, hk, hwrites⟩
    · exact ⟨j, pc₁, hj, hwrites⟩

/-- The same after a step of the command `k`. -/
theorem writes_setPc_iff {pc pc' : CommandPc} (hcommands : t.commands = s.commands)
    (hk : s.commands[k]? = some pc) :
    (t.setPc k pc').Writes ↔ pc'.writes = true ∨ s.othersWrite k = true := by
  have hself : (t.setPc k pc').commands[k]? = some pc' :=
    getElem?_setPc_self (hcommands ▸ hk) pc'
  rw [writes_iff hself, othersWrite_iff, othersWrite_iff]
  refine or_congr_right (exists_congr fun j => exists_congr fun pc₁ => and_congr_right fun hjk => ?_)
  rw [getElem?_setPc_ne hjk, hcommands]

/-! ## Steps -/

/-- A command that goes on to write, or is no one who would, leaves a named id or a writer. -/
theorem named_setPc {pc pc' : CommandPc} (hnamed : s.Named) (hk : s.commands[k]? = some pc)
    (hcommands : t.commands = s.commands)
    (hnames : s.names s.activeWorkflowId = true → pc'.writes = false →
      t.names t.activeWorkflowId = true)
    (hwrites : pc.writes = true → pc'.writes = true) : (t.setPc k pc').Named := by
  rw [named_iff, writes_setPc_iff hcommands hk]
  rcases hnamed.named with hold | hold
  · cases hpc' : pc'.writes with
    | true => exact .inr (.inl rfl)
    | false => exact .inl (hnames hold hpc')
  · rw [writes_iff hk] at hold
    exact .inr (hold.imp hwrites id)

theorem Move.writes {pc pc' : CommandPc} (h : s.Move pc pc') (hpc : pc.writes = true) :
    pc'.writes = true := by
  cases h with
  | refused => cases hpc
  | read => cases hpc
  | missed hlookup => exact hpc
  | shut => exact hpc
  | vacant => rfl
  | other hother =>
      rw [CommandPc.writes, beq_iff_eq] at hpc
      exact absurd hpc hother
  | found => rfl
  | unknown => cases hpc
  | chosen => rfl

/-- Taking a workflow out leaves the active id named if it is the id of another one. -/
theorem names_erase_iff {workflowId : String} (hactive : s.names s.activeWorkflowId = true)
    (hlookup : s.workflows.lookup workflowId = some d) :
    (s.evict workflowId d).names s.activeWorkflowId = true ↔
      s.activeWorkflowId ≠ some workflowId := by
  cases hid : s.activeWorkflowId with
  | none =>
      rw [hid, names, List.isEmpty_iff] at hactive
      have hempty : s.workflows = ∅ := AList.ext hactive
      rw [hempty, AList.lookup_empty] at hlookup
      cases hlookup
  | some active =>
      rw [hid, names] at hactive
      rw [names, evict]
      by_cases heq : active = workflowId
      · subst heq
        rw [AList.lookup_erase]
        simp
      · rw [AList.lookup_erase_ne heq]
        exact iff_of_true hactive fun h => heq (Option.some.inj h)

theorem keepsActive_of_move {pc pc' : CommandPc}
    (ha : a = .proceed k ∨ a = .fail k ∨ ∃ fallback, a = .choose k fallback)
    (hk : s.commands[k]? = some pc) (hmove : s.Move pc pc') : s.keepsActive a = true := by
  rcases ha with rfl | rfl | ⟨fallback, rfl⟩
  · simp only [keepsActive, hk]
    cases hmove with
    | missed hlookup =>
        simp only [hlookup, Option.isNone_none, Bool.or_true, Bool.true_or]
    | _ => exact Bool.or_true _
  · simp only [keepsActive, hk]
    cases hmove with
    | _ => exact Bool.or_true _
  · rfl

/-- Where the command `k` neither writes nor is going to, and no other one is. -/
theorem named_setPc_iff (t : DesktopState) {pc pc' : CommandPc} (hk : s.commands[k]? = some pc)
    (hcommands : t.commands = s.commands) (hreads : pc'.writes = false) :
    (t.setPc k pc').Named ↔ s.othersWrite k = true ∨ t.names t.activeWorkflowId = true := by
  rw [named_iff, writes_setPc_iff hcommands hk, hreads]
  constructor
  · intro h
    rcases h with hnames | hfalse | hothers
    · exact .inr hnames
    · cases hfalse
    · exact .inl hothers
  · intro h
    rcases h with hothers | hnames
    · exact .inr (.inr hothers)
    · exact .inl hnames

/-- A workflow is taken out by a command that is not going to write. -/
theorem named_remove_iff (hnamed : s.Named) {workflowId : String} {activeBefore : Option String}
    (hk : s.commands[k]? = some (.removing workflowId activeBefore))
    (hlookup : s.workflows.lookup workflowId = some d) :
    ((s.evict workflowId d).setPc k (.shuttingDown workflowId activeBefore)).Named ↔
      s.keepsActive (.proceed k) = true := by
  have hguard : s.keepsActive (.proceed k) = (s.othersWrite k ||
      (activeBefore == some workflowId || s.activeWorkflowId != some workflowId)) := by
    simp only [keepsActive, hk, hlookup, Option.isNone_some, Bool.or_false]
  rw [hguard, Bool.or_eq_true, Bool.or_eq_true, bne_iff_ne]
  by_cases hbefore : (activeBefore == some workflowId) = true
  · refine iff_of_true ?_ (.inr (.inl hbefore))
    exact named_setPc hnamed hk rfl (fun _ hreads => by
      rw [CommandPc.writes, hbefore] at hreads
      cases hreads) (fun _ => hbefore)
  · have hreads : (CommandPc.shuttingDown workflowId activeBefore).writes = false :=
      Bool.eq_false_iff.mpr hbefore
    refine (named_setPc_iff (s.evict workflowId d) hk rfl hreads).trans ?_
    by_cases hothers : s.othersWrite k = true
    · exact iff_of_true (.inl hothers) (.inl hothers)
    · have hactive : s.names s.activeWorkflowId = true := by
        rcases hnamed.named with hactive | hwrites
        · exact hactive
        · rcases (writes_iff hk).mp hwrites with hmine | hother
          · exact absurd hmine hbefore
          · exact absurd hother hothers
      have hnames := names_erase_iff hactive hlookup
      constructor
      · intro h
        exact .inr (.inr (hnames.mp (h.resolve_left hothers)))
      · intro h
        exact .inr (hnames.mpr ((h.resolve_left hothers).resolve_left hbefore))

theorem named_insert {workflowId : String} (hk : s.commands[k]? = some (.inserting d)) :
    ((s.insert workflowId d).setPc k (.storing (some workflowId))).Named := by
  rw [named_iff, writes_setPc_iff (commands_insert _ _) hk]
  exact .inr (.inl rfl)

/-- A step keeps the active id named, or a command that is going to write it, if and only if it
meets the guard. -/
theorem named_step_iff (hnamed : s.Named) (h : s.step a = some s') :
    s'.Named ↔ s.keepsActive a = true := by
  cases turn_of_step h with
  | given pc hstart hs' =>
      subst hs'
      refine iff_of_true (named_iff.mpr (hnamed.named.imp id fun ⟨pc₁, hpc₁, hwrites⟩ =>
        ⟨pc₁, List.mem_append_left _ hpc₁, hwrites⟩)) ?_
      cases a <;> first | rfl | cases hstart
  | moved k ha hk hmove hs' =>
      subst hs'
      refine iff_of_true ?_ (keepsActive_of_move ha hk hmove)
      exact named_setPc hnamed hk rfl (fun hnames _ => hnames) hmove.writes
  | created k ha hk hs' =>
      subst hs' ha
      refine iff_of_true ?_ (by simp only [keepsActive, hk, Bool.or_true])
      exact named_setPc hnamed hk rfl (fun hnames _ => hnames) (fun hwrites => by cases hwrites)
  | laned k d ha hk hs' =>
      subst hs' ha
      refine iff_of_true ?_ (by simp only [keepsActive, hk, Bool.or_true])
      exact named_setPc hnamed hk rfl (fun hnames _ => hnames) (fun hwrites => by cases hwrites)
  | forwarded k d ha hk hpc hs' =>
      subst hs' ha
      refine iff_of_true ?_ ?_
      · exact named_setPc hnamed hk rfl (fun hnames _ => hnames) (fun _ => rfl)
      · rcases hpc with rfl | rfl
        · simp only [keepsActive, hk, Bool.or_true]
        · simp only [keepsActive, hk, Bool.or_true]
  | replaced k d existing workflowId ha hk hlookup hs' =>
      subst hs' ha
      refine iff_of_true ?_ (by simp only [keepsActive, hk, Bool.or_true])
      exact named_setPc hnamed hk rfl (fun _ hreads => by cases hreads) (fun _ => rfl)
  | removed k d ha hk hlookup hs' =>
      subst hs' ha
      exact named_remove_iff hnamed hk hlookup
  | inserted k d workflowId ha hk hid hs' =>
      subst hs' ha
      exact iff_of_true (named_insert hk) (by simp only [keepsActive, hk, Bool.or_true])
  | failed k d ha hk hs' =>
      subst hs' ha
      refine iff_of_true ?_ (by simp only [keepsActive, hk, Bool.or_true])
      exact named_setPc hnamed hk rfl (fun hnames _ => hnames) (fun hwrites => by cases hwrites)
  | leaked k d ha hk hpc hs' =>
      subst hs' ha
      rcases hpc with rfl | rfl
      · refine iff_of_true ?_ (by simp only [keepsActive, hk, Bool.or_true])
        exact named_setPc hnamed hk rfl (fun hnames _ => hnames) (fun hwrites => by cases hwrites)
      · refine (named_setPc_iff (s.modify d fun w => (w.spawn 1).dropped) hk rfl rfl).trans ?_
        simp only [keepsActive, hk, Bool.or_eq_true]
        exact Iff.rfl
  | stored k ha hk hs' =>
      rename_i activeWorkflowId
      subst hs' ha
      refine (named_setPc_iff { s with activeWorkflowId } hk rfl rfl).trans ?_
      simp only [keepsActive, hk, Bool.or_eq_true]
      exact Iff.rfl

/-! ## Every run -/

/-- In every run, the active id does not dangle in any state if and only if every step meets the
guard. -/
theorem active_named_iff (hs : s.Fresh) (acts : List CommandAction) :
    machine.Along Named s acts ↔ machine.Meets (fun t a => t.keepsActive a = true) s acts := by
  apply Machine.along_iff_meets (J := fun _ => True)
  · intro t a t' _ _
    trivial
  · intro t a t' _ hnamed h
    exact named_step_iff hnamed h
  · trivial
  · rw [named_iff, hs.active_none, names, hs.workflows_none]
    exact .inl rfl

/-- The active workflow is undeployed, and the other one takes its place. -/
theorem fallback_named :
    machine.Along Named ⟨∅, none, [], []⟩
      [.deploy "a" "1", .proceed 0, .proceed 0, .proceed 0, .proceed 0, .proceed 0,
        .deploy "b" "2", .proceed 1, .proceed 1, .proceed 1, .proceed 1, .proceed 1,
        .undeploy "b", .proceed 2, .proceed 2, .proceed 2, .proceed 2, .choose 2 (some "a"),
        .proceed 2] :=
  (active_named_iff ⟨rfl, rfl, rfl, rfl⟩ _).mpr (.of_replay (by decide))

/-- A workflow becomes the active one after its undeploy has read the active id. -/
theorem undeployed_stays_active :
    ((machine.replay (fun _ _ => true) ⟨∅, none, [], []⟩
      [.deploy "a" "1", .proceed 0, .proceed 0, .proceed 0, .proceed 0, .proceed 0,
        .deploy "b" "2", .proceed 1, .proceed 1, .proceed 1, .proceed 1, .proceed 1,
        .undeploy "a", .proceed 2, .setActive "a", .proceed 3, .proceed 3, .proceed 2, .proceed 2,
        .proceed 2]).any fun t =>
          decide t.IsQuiet && t.activeWorkflowId == some "a" &&
            (t.workflows.lookup "a").isNone) = true := by
  decide

end DesktopState

end Nazh
