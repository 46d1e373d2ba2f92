import Nazh.Desktop.Commands
import Nazh.Lib.Lists

/-!
# Who can stop a deployment

A deployment is in the hands of one command, then in the map under its id, and when it is taken
out of the map it is stopped. It is in neither place and not stopped when a deploy fails after the
tasks of the runtime were spawned, and when it is in the map and another one is inserted over it:
the guards then cancel their tokens, but the tasks are only detached.
-/

namespace Nazh

open Lib

namespace DesktopState

/-- The command `k` has the deployment `d` in its hands. -/
def Holds (s : DesktopState) (k d : ℕ) : Prop :=
  ∃ pc, s.commands[k]? = some pc ∧ pc.held = some d

variable {s s' : DesktopState} {a : CommandAction} {d k : ℕ}

/-- The tasks of a deployment in the map run. -/
def StoredAs (s : DesktopState) (workflowId : String) (d : ℕ) : Prop :=
  ∃ w, s.deployments[d]? = some w ∧ w.workflowId = workflowId ∧ 0 < w.running

/-- A deployment in the hands of a command is not in the map, and has no tasks at first. -/
def HeldAs (s : DesktopState) (pc : CommandPc) (d : ℕ) : Prop :=
  (∀ workflowId, s.workflows.lookup workflowId ≠ some d) ∧
    ∃ w, s.deployments[d]? = some w ∧ (w.running = 0 ↔ pc = .deployed d)

/-- What holds in every run: a deployment is in one place at most. -/
structure Kept (s : DesktopState) : Prop where
  stored : ∀ workflowId d, s.workflows.lookup workflowId = some d → s.StoredAs workflowId d
  held : ∀ (k : ℕ) (pc : CommandPc) (d : ℕ), s.commands[k]? = some pc → pc.held = some d →
    s.HeldAs pc d
  held_once : ∀ j k d, s.Holds j d → s.Holds k d → j = k

theorem Kept.not_stored (hs : s.Kept) (hheld : s.Holds k d) (workflowId : String) :
    s.workflows.lookup workflowId ≠ some d := by
  obtain ⟨pc, hk, hd⟩ := hheld
  exact (hs.held k pc d hk hd).1 workflowId

/-- A step of the command `k` leaves the hands of the others alone. -/
theorem Kept.next (hs : s.Kept) (k : ℕ)
    (hcommands : ∀ j, j ≠ k → s'.commands[j]? = s.commands[j]?)
    (hstored : ∀ workflowId d, s'.workflows.lookup workflowId = some d → s'.StoredAs workflowId d)
    (hothers : ∀ j d, j ≠ k → s.Holds j d → s'.deployments[d]? = s.deployments[d]? ∧
      ∀ workflowId, s'.workflows.lookup workflowId ≠ some d)
    (hself : ∀ (pc : CommandPc) (d : ℕ), s'.commands[k]? = some pc → pc.held = some d →
      s'.HeldAs pc d ∧ ∀ j, j ≠ k → ¬ s.Holds j d) : s'.Kept := by
  have hback {j d : ℕ} (hj : j ≠ k) (hheld : s'.Holds j d) : s.Holds j d := by
    obtain ⟨pc, hpc, hd⟩ := hheld
    rw [hcommands j hj] at hpc
    exact ⟨pc, hpc, hd⟩
  refine ⟨hstored, fun j pc d hj hd => ?_, fun i j d hi hj => ?_⟩
  · by_cases hjk : j = k
    · subst hjk
      exact (hself pc d hj hd).1
    · rw [hcommands j hjk] at hj
      obtain ⟨hdeployments, hmap⟩ := hothers j d hjk ⟨pc, hj, hd⟩
      obtain ⟨-, w, hw, hrunning⟩ := hs.held j pc d hj hd
      exact ⟨hmap, w, hdeployments.trans hw, hrunning⟩
  · by_cases hik : i = k
    · subst hik
      by_contra hne
      obtain ⟨pc, hpc, hd⟩ := hi
      exact (hself pc d hpc hd).2 j (Ne.symm hne) (hback (Ne.symm hne) hj)
    · by_cases hjk : j = k
      · subst hjk
        obtain ⟨pc, hpc, hd⟩ := hj
        exact absurd (hback hik hi) ((hself pc d hpc hd).2 i hik)
      · exact hs.held_once i j d (hback hik hi) (hback hjk hj)

/-! ## Deployments after a step -/

theorem getElem?_modify_self (f : DesktopWorkflow → DesktopWorkflow) :
    (s.modify d f).deployments[d]? = (s.deployments[d]?).map f := by
  rw [modify, List.getElem?_modify]
  simp

theorem getElem?_modify_ne {e : ℕ} (hed : e ≠ d) (f : DesktopWorkflow → DesktopWorkflow) :
    (s.modify d f).deployments[e]? = s.deployments[e]? := by
  rw [modify, List.getElem?_modify]
  simp [Ne.symm hed]

theorem deployments_insert_of_none {workflowId : String}
    (h : s.workflows.lookup workflowId = none) :
    (s.insert workflowId d).deployments = s.deployments := by
  rw [insert, h]

theorem deployments_insert_of_some {workflowId : String} {existing : ℕ}
    (h : s.workflows.lookup workflowId = some existing) :
    (s.insert workflowId d).deployments = (s.modify existing DesktopWorkflow.dropped).deployments := by
  rw [insert, h]
  rfl

/-- Dropping a deployment leaves its id and its tasks. -/
theorem getElem?_insert (workflowId : String) (d : ℕ) {e : ℕ} {w : DesktopWorkflow}
    (h : s.deployments[e]? = some w) :
    ∃ w', (s.insert workflowId d).deployments[e]? = some w' ∧ w'.workflowId = w.workflowId ∧
      w'.running = w.running := by
  cases hlookup : s.workflows.lookup workflowId with
  | none =>
      rw [deployments_insert_of_none hlookup]
      exact ⟨w, h, rfl, rfl⟩
  | some existing =>
      rw [deployments_insert_of_some hlookup]
      by_cases he : e = existing
      · subst he
        rw [getElem?_modify_self, h]
        exact ⟨_, rfl, rfl, rfl⟩
      · rw [getElem?_modify_ne he]
        exact ⟨w, h, rfl, rfl⟩

/-! ## Steps -/

/-- A command goes on with a deployment in its hands to which tasks are added. -/
theorem Kept.spawn (hs : s.Kept) {pc pc' : CommandPc} {n : ℕ} (hk : s.commands[k]? = some pc)
    (hheld : pc.held = some d) (hheld' : pc'.held = some d) (hne : pc' ≠ .deployed d)
    (hn : 0 < n) : ((s.modify d (·.spawn n)).setPc k pc').Kept := by
  have hmine : s.Holds k d := ⟨pc, hk, hheld⟩
  refine hs.next k (fun j hj => getElem?_setPc_ne hj pc') (fun workflowId e he => ?_)
    (fun j e hj he => ⟨?_, hs.not_stored he⟩) (fun pc₁ e hpc₁ he => ?_)
  · obtain ⟨w, hw, hid, hrunning⟩ := hs.stored workflowId e he
    refine ⟨w, ?_, hid, hrunning⟩
    have hed : e ≠ d := fun heq => hs.not_stored hmine workflowId (heq ▸ he)
    exact (getElem?_modify_ne hed _).trans hw
  · have hed : e ≠ d := fun heq => hj (hs.held_once j k d (heq ▸ he) hmine)
    exact getElem?_modify_ne hed _
  · rw [getElem?_setPc_self (s := s.modify d _) hk] at hpc₁
    cases hpc₁
    cases hheld'.symm.trans he
    obtain ⟨hmap, w, hw, -⟩ := hs.held k pc d hk hheld
    refine ⟨⟨hmap, w.spawn n, ?_, ?_⟩, fun j hj hheldj => hj (hs.held_once j k d hheldj hmine)⟩
    · refine (getElem?_modify_self _).trans ?_
      rw [hw]
      rfl
    · refine iff_of_false (fun hzero => ?_) hne
      have hzero : w.running + n = 0 := hzero
      omega

/-- A command drops the deployment in its hands. -/
theorem Kept.drop (hs : s.Kept) {pc : CommandPc} (f : DesktopWorkflow → DesktopWorkflow)
    (hk : s.commands[k]? = some pc) (hheld : pc.held = some d) :
    ((s.modify d f).setPc k .returned).Kept := by
  have hmine : s.Holds k d := ⟨pc, hk, hheld⟩
  refine hs.next k (fun j hj => getElem?_setPc_ne hj _) (fun workflowId e he => ?_)
    (fun j e hj he => ⟨?_, hs.not_stored he⟩) (fun pc₁ e hpc₁ he => ?_)
  · obtain ⟨w, hw, hid, hrunning⟩ := hs.stored workflowId e he
    refine ⟨w, ?_, hid, hrunning⟩
    have hed : e ≠ d := fun heq => hs.not_stored hmine workflowId (heq ▸ he)
    exact (getElem?_modify_ne hed _).trans hw
  · have hed : e ≠ d := fun heq => hj (hs.held_once j k d (heq ▸ he) hmine)
    exact getElem?_modify_ne hed _
  · rw [getElem?_setPc_self (s := s.modify d f) hk] at hpc₁
    cases hpc₁
    cases he

/-- A deployment is taken out of the map by a command that keeps what it has in its hands. -/
theorem Kept.evict (hs : s.Kept) {pc pc' : CommandPc} {workflowId : String} {existing : ℕ}
    (hk : s.commands[k]? = some pc) (hheld : pc'.held = pc.held)
    (hdeployed : ∀ e, pc = .deployed e ↔ pc' = .deployed e)
    (hlookup : s.workflows.lookup workflowId = some existing) :
    ((s.evict workflowId existing).setPc k pc').Kept := by
  have herase {other : String} {e : ℕ}
      (he : (s.workflows.erase workflowId).lookup other = some e) :
      s.workflows.lookup other = some e ∧ other ≠ workflowId := by
    by_cases hother : other = workflowId
    · subst hother
      rw [AList.lookup_erase] at he
      cases he
    · rw [AList.lookup_erase_ne hother] at he
      exact ⟨he, hother⟩
  have hstays {j e : ℕ} (he : s.Holds j e) :
      (s.evict workflowId existing).deployments[e]? = s.deployments[e]? := by
    have hne : e ≠ existing := fun heq => hs.not_stored he workflowId (heq ▸ hlookup)
    exact getElem?_modify_ne hne _
  refine hs.next k (fun j hj => getElem?_setPc_ne hj _) (fun other e he => ?_)
    (fun j e hj he => ⟨hstays he, fun other hother => ?_⟩) (fun pc₁ e hpc₁ he => ?_)
  · obtain ⟨hold, hother⟩ := herase he
    obtain ⟨w, hw, hid, hrunning⟩ := hs.stored other e hold
    have hne : e ≠ existing := by
      intro heq
      obtain ⟨w', hw', hid', -⟩ := hs.stored workflowId existing hlookup
      rw [← heq, hw] at hw'
      cases hw'
      exact hother (hid.symm.trans hid')
    exact ⟨w, (getElem?_modify_ne hne _).trans hw, hid, hrunning⟩
  · exact hs.not_stored he other (herase hother).1
  · rw [getElem?_setPc_self (s := s.evict workflowId existing) hk] at hpc₁
    cases hpc₁
    rw [hheld] at he
    obtain ⟨hmap, w, hw, hrunning⟩ := hs.held k pc e hk he
    refine ⟨⟨fun other hother => hmap other (herase hother).1, w,
      (hstays ⟨pc, hk, he⟩).trans hw, hrunning.trans (hdeployed e)⟩,
      fun j hj hheldj => hj (hs.held_once j k e hheldj ⟨pc, hk, he⟩)⟩

/-- A command that has nothing in its hands goes on. -/
theorem Kept.move (hs : s.Kept) {pc' : CommandPc} {activeWorkflowId : Option String}
    {pc : CommandPc} (hk : s.commands[k]? = some pc) (hheld : pc'.held = none) :
    ({ s with activeWorkflowId }.setPc k pc').Kept := by
  refine hs.next k (fun j hj => getElem?_setPc_ne hj _) hs.stored
    (fun j e hj he => ⟨rfl, hs.not_stored he⟩) (fun pc₁ e hpc₁ he => ?_)
  rw [getElem?_setPc_self (s := { s with activeWorkflowId }) hk] at hpc₁
  cases hpc₁
  rw [hheld] at he
  cases he

theorem Kept.give (hs : s.Kept) {pc : CommandPc} (hheld : pc.held = none) :
    { s with commands := s.commands ++ [pc] }.Kept := by
  refine hs.next s.commands.length (fun j hj => ?_) hs.stored
    (fun j e hj he => ⟨rfl, hs.not_stored he⟩) (fun pc₁ e hpc₁ he => ?_)
  · by_cases hlt : j < s.commands.length
    · exact List.getElem?_append_left hlt
    · have hlength : s.commands.length + 1 ≤ j := by omega
      rw [List.getElem?_eq_none (by simpa using hlength),
        List.getElem?_eq_none (Nat.le_of_not_lt hlt)]
  · have hlast : (s.commands ++ [pc])[s.commands.length]? = some pc := List.getElem?_concat_length
    cases hlast.symm.trans hpc₁
    rw [hheld] at he
    cases he

theorem Kept.create (hs : s.Kept) {pc : CommandPc} (hk : s.commands[k]? = some pc)
    {workflowId deployedAt : String} :
    ((s.create ⟨workflowId, deployedAt, false, 0⟩).setPc k
      (.deployed s.deployments.length)).Kept := by
  have hlt {e : ℕ} {w : DesktopWorkflow} (hw : s.deployments[e]? = some w) :
      e < s.deployments.length := (List.getElem?_eq_some_iff.mp hw).1
  have hstays {e : ℕ} (he : e < s.deployments.length) :
      (s.create ⟨workflowId, deployedAt, false, 0⟩).deployments[e]? = s.deployments[e]? :=
    List.getElem?_append_left he
  refine hs.next k (fun j hj => getElem?_setPc_ne hj _) (fun other e he => ?_)
    (fun j e hj he => ⟨?_, hs.not_stored he⟩) (fun pc₁ e hpc₁ he => ?_)
  · obtain ⟨w, hw, hid, hrunning⟩ := hs.stored other e he
    exact ⟨w, (hstays (hlt hw)).trans hw, hid, hrunning⟩
  · obtain ⟨pc₂, hpc₂, hheld⟩ := he
    obtain ⟨-, w, hw, -⟩ := hs.held j pc₂ e hpc₂ hheld
    exact hstays (hlt hw)
  · rw [getElem?_setPc_self (s := s.create _) hk] at hpc₁
    cases hpc₁
    cases he
    refine ⟨⟨fun other hother => ?_, _, List.getElem?_concat_length, iff_of_true rfl rfl⟩,
      fun j hj hheldj => ?_⟩
    · obtain ⟨w, hw, -⟩ := hs.stored other _ hother
      exact Nat.lt_irrefl _ (hlt hw)
    · obtain ⟨pc₂, hpc₂, hheld⟩ := hheldj
      obtain ⟨-, w, hw, -⟩ := hs.held j pc₂ _ hpc₂ hheld
      exact Nat.lt_irrefl _ (hlt hw)

/-- The deployment in the hands of a command goes into the map. -/
theorem Kept.insert (hs : s.Kept) {workflowId : String} (hk : s.commands[k]? = some (.inserting d))
    (hid : s.idOf d = some workflowId) {pc' : CommandPc} (hheld' : pc'.held = none) :
    ((s.insert workflowId d).setPc k pc').Kept := by
  have hmine : s.Holds k d := ⟨_, hk, rfl⟩
  refine hs.next k (fun j hj => ?_) (fun other e he => ?_) (fun j e hj he => ⟨?_, ?_⟩)
    (fun pc₁ e hpc₁ he => ?_)
  · rw [getElem?_setPc_ne hj, commands_insert]
  · have he : (s.insert workflowId d).workflows.lookup other = some e := he
    rw [workflows_insert] at he
    by_cases hother : other = workflowId
    · subst hother
      rw [AList.lookup_insert] at he
      cases he
      obtain ⟨-, w, hw, hrunning⟩ := hs.held k _ d hk rfl
      obtain ⟨w', hw', hid', hrunning'⟩ := getElem?_insert other d hw
      refine ⟨w', hw', ?_, ?_⟩
      · rw [idOf, hw, Option.map_some, Option.some_inj] at hid
        rw [hid', hid]
      · rw [hrunning']
        refine Nat.pos_of_ne_zero fun hzero => ?_
        cases hrunning.mp hzero
    · rw [AList.lookup_insert_ne hother] at he
      obtain ⟨w, hw, hid, hrunning⟩ := hs.stored other e he
      obtain ⟨w', hw', hid', hrunning'⟩ := getElem?_insert workflowId d hw
      exact ⟨w', hw', hid'.trans hid, hrunning' ▸ hrunning⟩
  · show (s.insert workflowId d).deployments[e]? = _
    cases hlookup : s.workflows.lookup workflowId with
    | none => rw [deployments_insert_of_none hlookup]
    | some existing =>
        rw [deployments_insert_of_some hlookup]
        have hne : e ≠ existing := fun heq => hs.not_stored he workflowId (heq ▸ hlookup)
        exact getElem?_modify_ne hne _
  · intro other hother
    have hother : (s.insert workflowId d).workflows.lookup other = some e := hother
    rw [workflows_insert] at hother
    by_cases heq : other = workflowId
    · subst heq
      rw [AList.lookup_insert] at hother
      cases hother
      exact hj (hs.held_once j k d he hmine)
    · rw [AList.lookup_insert_ne heq] at hother
      exact hs.not_stored he other hother
  · rw [getElem?_setPc_self (s := s.insert workflowId d) (by rw [commands_insert]; exact hk)] at hpc₁
    cases hpc₁
    rw [hheld'] at he
    cases he

theorem Move.held_none {pc pc' : CommandPc} (h : s.Move pc pc') : pc'.held = none := by
  cases h <;> rfl

theorem held_start {pc : CommandPc} (h : a.start = some pc) : pc.held = none := by
  cases a <;> cases h <;> rfl

theorem Kept.step (hs : s.Kept) (h : s.step a = some s') : s'.Kept := by
  cases turn_of_step h with
  | given pc hstart hs' =>
      subst hs'
      exact hs.give (held_start hstart)
  | moved k ha hk hmove hs' =>
      subst hs'
      exact hs.move hk hmove.held_none
  | created k ha hk hs' =>
      subst hs'
      exact hs.create hk
  | laned k d ha hk hs' =>
      subst hs'
      exact hs.spawn hk rfl rfl (fun heq => by cases heq) (by omega)
  | forwarded k d ha hk hpc hs' =>
      subst hs'
      rcases hpc with rfl | rfl
      · exact hs.spawn hk rfl rfl (fun heq => by cases heq) (by omega)
      · exact hs.spawn hk rfl rfl (fun heq => by cases heq) (by omega)
  | replaced k d existing workflowId ha hk hlookup hs' =>
      subst hs'
      refine hs.evict hk rfl (fun e => ?_) hlookup
      exact iff_of_false (fun heq => by cases heq) (fun heq => by cases heq)
  | removed k d ha hk hlookup hs' =>
      subst hs'
      refine hs.evict hk rfl (fun e => ?_) hlookup
      exact iff_of_false (fun heq => by cases heq) (fun heq => by cases heq)
  | inserted k d workflowId ha hk hid hs' =>
      subst hs'
      exact hs.insert hk hid rfl
  | failed k d ha hk hs' =>
      subst hs'
      exact hs.drop _ hk rfl
  | leaked k d ha hk hpc hs' =>
      subst hs'
      rcases hpc with rfl | rfl
      · exact hs.drop _ hk rfl
      · exact hs.drop _ hk rfl
  | stored k ha hk hs' =>
      subst hs'
      exact hs.move hk rfl

/-! ## Who owns what after a step -/

/-- What a command has in its hands after a step of the command `k`. -/
theorem holds_setPc {t : DesktopState} {j : ℕ} {pc pc' : CommandPc}
    (hcommands : t.commands = s.commands) (hk : s.commands[k]? = some pc)
    (hheld : pc.held = some d → pc'.held = some d) (h : s.Holds j d) :
    (t.setPc k pc').Holds j d := by
  obtain ⟨pc₁, hj, hd⟩ := h
  by_cases hjk : j = k
  · subst hjk
    cases hk.symm.trans hj
    exact ⟨pc', getElem?_setPc_self (hcommands ▸ hk) _, hheld hd⟩
  · refine ⟨pc₁, ?_, hd⟩
    rw [getElem?_setPc_ne hjk, hcommands]
    exact hj

/-- Every deployment can be reached or is stopped. -/
def IsOwned (s : DesktopState) : Prop :=
  ∀ (d : ℕ) (w : DesktopWorkflow), s.deployments[d]? = some w →
    s.workflows.lookup w.workflowId = some d ∨ (∃ k, s.Holds k d) ∨ w.isStopped = true

/-- A command without a deployment in its hands goes on. -/
theorem IsOwned.move (hown : s.IsOwned) {pc pc' : CommandPc} {activeWorkflowId : Option String}
    (hk : s.commands[k]? = some pc) (hheld : pc.held = none) :
    ({ s with activeWorkflowId }.setPc k pc').IsOwned := by
  intro e w he
  refine (hown e w he).imp id (Or.imp_left fun ⟨j, hj⟩ => ⟨j, holds_setPc rfl hk ?_ hj⟩)
  intro hsome
  rw [hheld] at hsome
  cases hsome

/-- The command `k` does something to the deployment it has in its hands and goes on. -/
theorem IsOwned.modify (hown : s.IsOwned) {pc pc' : CommandPc}
    (f : DesktopWorkflow → DesktopWorkflow) (hk : s.commands[k]? = some pc)
    (hheld : pc.held = some d)
    (hafter : pc'.held = some d ∨ ∀ w, s.deployments[d]? = some w → (f w).isStopped = true) :
    ((s.modify d f).setPc k pc').IsOwned := by
  intro e w he
  have he : (s.modify d f).deployments[e]? = some w := he
  by_cases hed : e = d
  · subst hed
    rw [getElem?_modify_self] at he
    obtain ⟨w₀, hw₀, rfl⟩ := Option.map_eq_some_iff.mp he
    rcases hafter with hkeeps | hstops
    · exact .inr (.inl ⟨k, holds_setPc rfl hk (fun _ => hkeeps) ⟨pc, hk, hheld⟩⟩)
    · exact .inr (.inr (hstops w₀ hw₀))
  · rw [getElem?_modify_ne hed] at he
    refine (hown e w he).imp id (Or.imp_left fun ⟨j, hj⟩ => ⟨j, holds_setPc rfl hk ?_ hj⟩)
    intro hsome
    rw [hheld] at hsome
    exact absurd (Option.some.inj hsome).symm hed

/-- A deployment that is taken out of the map is stopped. -/
theorem IsOwned.evict (hown : s.IsOwned) {pc pc' : CommandPc} {workflowId : String} {existing : ℕ}
    (hk : s.commands[k]? = some pc) (hheld : pc'.held = pc.held)
    (hlookup : s.workflows.lookup workflowId = some existing) :
    ((s.evict workflowId existing).setPc k pc').IsOwned := by
  intro e w he
  have he : (s.modify existing DesktopWorkflow.shutdownRuntime).deployments[e]? = some w := he
  by_cases hed : e = existing
  · subst hed
    rw [getElem?_modify_self] at he
    obtain ⟨w₀, -, rfl⟩ := Option.map_eq_some_iff.mp he
    exact .inr (.inr rfl)
  · rw [getElem?_modify_ne hed] at he
    refine (hown e w he).imp (fun hstored => ?_)
      (Or.imp_left fun ⟨j, hj⟩ => ⟨j, holds_setPc rfl hk (fun hsome => ?_) hj⟩)
    · have hid : w.workflowId ≠ workflowId := by
        intro heq
        rw [heq, hlookup] at hstored
        exact hed (Option.some.inj hstored).symm
      exact (AList.lookup_erase_ne hid).trans hstored
    · exact hheld.trans hsome

theorem IsOwned.create (hown : s.IsOwned) {pc : CommandPc} (hk : s.commands[k]? = some pc)
    (hheld : pc.held = none) (w₀ : DesktopWorkflow) :
    ((s.create w₀).setPc k (.deployed s.deployments.length)).IsOwned := by
  intro e w he
  rcases getElem?_concat_cases he with ⟨rfl, -⟩ | ⟨-, hold⟩
  · exact .inr (.inl ⟨k, _, getElem?_setPc_self (s := s.create w₀) hk _, rfl⟩)
  · refine (hown e w hold).imp id (Or.imp_left fun ⟨j, hj⟩ => ⟨j, holds_setPc rfl hk ?_ hj⟩)
    intro hsome
    rw [hheld] at hsome
    cases hsome

theorem IsOwned.give (hown : s.IsOwned) (pc : CommandPc) :
    { s with commands := s.commands ++ [pc] }.IsOwned := by
  intro e w he
  refine (hown e w he).imp id (Or.imp_left ?_)
  intro hheld
  obtain ⟨j, pc₁, hj, hd⟩ := hheld
  exact ⟨j, pc₁, (List.getElem?_append_left (List.getElem?_eq_some_iff.mp hj).1).trans hj, hd⟩

theorem Fresh.kept (hs : s.Fresh) : s.Kept := by
  refine ⟨fun workflowId d h => ?_, fun k pc d h _ => ?_, fun j k d h _ => ?_⟩
  · rw [hs.workflows_none, AList.lookup_empty] at h
    cases h
  · rw [hs.commands_none] at h
    cases h
  · obtain ⟨pc, h, -⟩ := h
    rw [hs.commands_none] at h
    cases h

/-- Before anything happened. -/
def fresh : DesktopState := ⟨∅, none, [], []⟩

end DesktopState

end Nazh
