import Mathlib.Data.List.AList
import Nazh.Lib.Machine

/-!
# Commands that deploy and undeploy

The workflows that run are in a map under one lock, the id of the active one is under another. A
command takes the locks one at a time, and between two of them any other command may go on. A
deployment is first in the hands of the command that made it, then in the map.

What the commands read and write under a lock is one step here, with what they do before their
next `await`. A fallible call either succeeds or the command fails there.
-/

namespace Nazh

open Lib

/-- A deployment with what can stop it. -/
structure DesktopWorkflow where
  workflowId : String
  deployedAt : String
  /-- The tokens that its lifecycle guards hold are cancelled. -/
  cancelled : Bool
  /-- The tasks of the runtime that were spawned for it and not aborted. -/
  running : ℕ
  deriving DecidableEq

namespace DesktopWorkflow

/-- `shutdown_runtime`: the tasks are aborted and the tokens cancelled. -/
def shutdownRuntime (w : DesktopWorkflow) : DesktopWorkflow :=
  { w with cancelled := true, running := 0 }

/-- The guards cancel their tokens when they are dropped; the tasks are detached. -/
def dropped (w : DesktopWorkflow) : DesktopWorkflow := { w with cancelled := true }

def spawn (w : DesktopWorkflow) (tasks : ℕ) : DesktopWorkflow :=
  { w with running := w.running + tasks }

/-- Whether its tokens are cancelled and its tasks aborted. -/
def isStopped (w : DesktopWorkflow) : Bool := w.cancelled && w.running == 0

end DesktopWorkflow

/-- Where a command stands. -/
inductive CommandPc
  /-- Before the end of `deploy_workflow_graph`. -/
  | deploying (workflowId deployedAt : String)
  /-- In `DeadLetterSink::new`, with the deployment `d`. -/
  | deployed (d : ℕ)
  /-- Before the deployment with the same id is taken out of the map. -/
  | replacing (d : ℕ)
  /-- In `existing.shutdown_runtime()`. -/
  | stopping (d : ℕ)
  /-- Before the insertion into the map. -/
  | inserting (d : ℕ)
  /-- Before the active id is written. -/
  | storing (activeWorkflowId : Option String)
  /-- Before `undeploy_workflow_by_id` reads the active id. -/
  | undeploying (workflowId : String)
  /-- Before the deployment is taken out of the map. -/
  | removing (workflowId : String) (activeBefore : Option String)
  /-- In `workflow.shutdown_runtime()`. -/
  | shuttingDown (workflowId : String) (activeBefore : Option String)
  /-- Before the workflows that are left are counted. -/
  | counting (workflowId : String) (activeBefore : Option String)
  /-- In `choose_fallback_active_workflow`. -/
  | choosing
  /-- Before `set_active_runtime_workflow` looks for the workflow. -/
  | checking (workflowId : String)
  | returned
  deriving DecidableEq

/-- The deployment that a command has in its hands. -/
def CommandPc.held : CommandPc → Option ℕ
  | deployed d | replacing d | stopping d | inserting d => some d
  | _ => none

structure DesktopState where
  workflows : AList fun _ : String => ℕ
  activeWorkflowId : Option String
  /-- All deployments that were made. -/
  deployments : List DesktopWorkflow
  commands : List CommandPc

/-- What can happen. -/
inductive CommandAction
  | deploy (workflowId deployedAt : String)
  | undeploy (workflowId : String)
  | setActive (workflowId : String)
  /-- The command `k` goes on. -/
  | proceed (k : ℕ)
  /-- What the command `k` does next fails. -/
  | fail (k : ℕ)
  /-- The command `k` finds a workflow that was deployed last. -/
  | choose (k : ℕ) (fallback : Option String)

/-- Where a command starts that was just given. -/
def CommandAction.start : CommandAction → Option CommandPc
  | deploy workflowId deployedAt => some (.deploying workflowId deployedAt)
  | undeploy workflowId => some (.undeploying workflowId)
  | setActive workflowId => some (.checking workflowId)
  | proceed _ | fail _ | choose _ _ => none

namespace DesktopState

def setPc (s : DesktopState) (k : ℕ) (pc : CommandPc) : DesktopState :=
  { s with commands := s.commands.set k pc }

/-- What happens to the deployment `d`. -/
def modify (s : DesktopState) (d : ℕ) (f : DesktopWorkflow → DesktopWorkflow) : DesktopState :=
  { s with deployments := s.deployments.modify d f }

def create (s : DesktopState) (w : DesktopWorkflow) : DesktopState :=
  { s with deployments := s.deployments ++ [w] }

/-- `workflows.remove`, and `shutdown_runtime` up to its first await. -/
def evict (s : DesktopState) (workflowId : String) (d : ℕ) : DesktopState :=
  { s.modify d DesktopWorkflow.shutdownRuntime with workflows := s.workflows.erase workflowId }

/-- `workflows.insert`, which drops the deployment that was there. -/
def insert (s : DesktopState) (workflowId : String) (d : ℕ) : DesktopState :=
  let s' := { s with workflows := s.workflows.insert workflowId d }
  match s.workflows.lookup workflowId with
  | some existing => s'.modify existing DesktopWorkflow.dropped
  | none => s'

/-- The id a deployment runs under. -/
def idOf (s : DesktopState) (d : ℕ) : Option String := (s.deployments[d]?).map (·.workflowId)

def deployedAt (s : DesktopState) (d : ℕ) : String :=
  ((s.deployments[d]?).map (·.deployedAt)).getD ""

/-- Whether the workflow was deployed last, or none is there. -/
def isFallback (s : DesktopState) : Option String → Bool
  | none => s.workflows.entries.isEmpty
  | some workflowId => (s.workflows.lookup workflowId).any fun d =>
      s.workflows.entries.all fun entry => !decide (s.deployedAt d < s.deployedAt entry.2)

/-- A command goes on. -/
def proceed (s : DesktopState) (k : ℕ) : CommandPc → Option DesktopState
  | .deploying workflowId deployedAt => some <|
      (s.create ⟨workflowId, deployedAt, false, 0⟩).setPc k (.deployed s.deployments.length)
  | .deployed d =>
      -- the two lanes
      some <| (s.modify d (·.spawn 2)).setPc k (.replacing d)
  | .replacing d => (s.idOf d).map fun workflowId => match s.workflows.lookup workflowId with
    | some existing => (s.evict workflowId existing).setPc k (.stopping d)
    | none => (s.modify d (·.spawn 3)).setPc k (.inserting d)
  | .stopping d =>
      -- the three forwarders
      some <| (s.modify d (·.spawn 3)).setPc k (.inserting d)
  | .inserting d => (s.idOf d).map fun workflowId =>
      (s.insert workflowId d).setPc k (.storing (some workflowId))
  | .storing activeWorkflowId => some <| { s with activeWorkflowId }.setPc k .returned
  | .undeploying workflowId => some <| s.setPc k (.removing workflowId s.activeWorkflowId)
  | .removing workflowId activeBefore => some <| match s.workflows.lookup workflowId with
    | some d => (s.evict workflowId d).setPc k (.shuttingDown workflowId activeBefore)
    | none => s.setPc k (.counting workflowId activeBefore)
  | .shuttingDown workflowId activeBefore => some <| s.setPc k (.counting workflowId activeBefore)
  | .counting workflowId activeBefore => some <|
      if activeBefore = some workflowId then s.setPc k .choosing else s.setPc k .returned
  | .checking workflowId => some <|
      if (s.workflows.lookup workflowId).isSome then s.setPc k (.storing (some workflowId))
      else s.setPc k .returned
  | .choosing | .returned => none

/-- A command fails and drops what it has in its hands. -/
def fail (s : DesktopState) (k : ℕ) : CommandPc → Option DesktopState
  | .deploying _ _ => some <| s.setPc k .returned
  | .deployed d => some <| (s.modify d DesktopWorkflow.dropped).setPc k .returned
  | .replacing d => (s.idOf d).bind fun workflowId => match s.workflows.lookup workflowId with
    | some _ => none
    | none => some <| (s.modify d fun w => (w.spawn 1).dropped).setPc k .returned
  | .stopping d =>
      -- `store_handle` is asked after the first forwarder was spawned
      some <| (s.modify d fun w => (w.spawn 1).dropped).setPc k .returned
  | _ => none

/-- One step. -/
def step (s : DesktopState) : CommandAction → Option DesktopState
  | .deploy workflowId deployedAt =>
      some { s with commands := s.commands ++ [.deploying workflowId deployedAt] }
  | .undeploy workflowId => some { s with commands := s.commands ++ [.undeploying workflowId] }
  | .setActive workflowId => some { s with commands := s.commands ++ [.checking workflowId] }
  | .proceed k => (s.commands[k]?).bind (s.proceed k)
  | .fail k => (s.commands[k]?).bind (s.fail k)
  | .choose k fallback => (s.commands[k]?).bind fun pc =>
      if pc = .choosing ∧ s.isFallback fallback then some (s.setPc k (.storing fallback)) else none

/-- Nothing was deployed and no command was given. -/
structure Fresh (s : DesktopState) : Prop where
  workflows_none : s.workflows = ∅
  active_none : s.activeWorkflowId = none
  deployments_none : s.deployments = []
  commands_none : s.commands = []

def machine : Machine DesktopState CommandAction := ⟨Fresh, step⟩

/-- All commands have returned. -/
def IsQuiet (s : DesktopState) : Prop := ∀ pc ∈ s.commands, pc = .returned

instance (s : DesktopState) : Decidable s.IsQuiet := inferInstanceAs (Decidable (∀ _ ∈ _, _))

/-! ## What a step does -/

variable {s s' : DesktopState} {a : CommandAction}

/-- The moves that change nothing but where the command stands. -/
inductive Move (s : DesktopState) : CommandPc → CommandPc → Prop
  | refused {workflowId deployedAt} : Move s (.deploying workflowId deployedAt) .returned
  | read {workflowId} : Move s (.undeploying workflowId) (.removing workflowId s.activeWorkflowId)
  | missed {workflowId activeBefore} : s.workflows.lookup workflowId = none →
      Move s (.removing workflowId activeBefore) (.counting workflowId activeBefore)
  | shut {workflowId activeBefore} :
      Move s (.shuttingDown workflowId activeBefore) (.counting workflowId activeBefore)
  | vacant {workflowId} : Move s (.counting workflowId (some workflowId)) .choosing
  | other {workflowId activeBefore} : activeBefore ≠ some workflowId →
      Move s (.counting workflowId activeBefore) .returned
  | found {workflowId} : Move s (.checking workflowId) (.storing (some workflowId))
  | unknown {workflowId} : Move s (.checking workflowId) .returned
  | chosen {fallback} : Move s .choosing (.storing fallback)

/-- What a step does, one case for each way it can end. -/
inductive Turn (s : DesktopState) (a : CommandAction) (s' : DesktopState) : Prop
  /-- A command is given. -/
  | given (pc : CommandPc) : a.start = some pc → s' = { s with commands := s.commands ++ [pc] } →
      Turn s a s'
  | moved (k : ℕ) {pc pc'} : a = .proceed k ∨ a = .fail k ∨ (∃ fallback, a = .choose k fallback) →
      s.commands[k]? = some pc → s.Move pc pc' → s' = s.setPc k pc' → Turn s a s'
  /-- A deployment is made. -/
  | created (k : ℕ) {workflowId deployedAt} : a = .proceed k →
      s.commands[k]? = some (.deploying workflowId deployedAt) →
      s' = (s.create ⟨workflowId, deployedAt, false, 0⟩).setPc k (.deployed s.deployments.length) →
      Turn s a s'
  /-- The lanes are spawned. -/
  | laned (k d : ℕ) : a = .proceed k → s.commands[k]? = some (.deployed d) →
      s' = (s.modify d (·.spawn 2)).setPc k (.replacing d) → Turn s a s'
  /-- The forwarders are spawned. -/
  | forwarded (k d : ℕ) {pc} : a = .proceed k → s.commands[k]? = some pc →
      pc = .replacing d ∨ pc = .stopping d →
      s' = (s.modify d (·.spawn 3)).setPc k (.inserting d) → Turn s a s'
  /-- A deployment is taken out of the map and stopped, for another one or for none. -/
  | replaced (k d existing : ℕ) (workflowId : String) : a = .proceed k →
      s.commands[k]? = some (.replacing d) → s.workflows.lookup workflowId = some existing →
      s' = (s.evict workflowId existing).setPc k (.stopping d) → Turn s a s'
  | removed (k d : ℕ) {workflowId activeBefore} : a = .proceed k →
      s.commands[k]? = some (.removing workflowId activeBefore) →
      s.workflows.lookup workflowId = some d →
      s' = (s.evict workflowId d).setPc k (.shuttingDown workflowId activeBefore) → Turn s a s'
  | inserted (k d : ℕ) (workflowId : String) : a = .proceed k →
      s.commands[k]? = some (.inserting d) → s.idOf d = some workflowId →
      s' = (s.insert workflowId d).setPc k (.storing (some workflowId)) → Turn s a s'
  /-- A deploy fails, before anything was spawned or after. -/
  | failed (k d : ℕ) : a = .fail k → s.commands[k]? = some (.deployed d) →
      s' = (s.modify d DesktopWorkflow.dropped).setPc k .returned → Turn s a s'
  | leaked (k d : ℕ) {pc} : a = .fail k → s.commands[k]? = some pc →
      pc = .replacing d ∨ pc = .stopping d →
      s' = (s.modify d fun w => (w.spawn 1).dropped).setPc k .returned → Turn s a s'
  /-- The active id is written. -/
  | stored (k : ℕ) {activeWorkflowId} : a = .proceed k →
      s.commands[k]? = some (.storing activeWorkflowId) →
      s' = { s with activeWorkflowId }.setPc k .returned → Turn s a s'

theorem proceed_turn {k : ℕ} {pc : CommandPc} (hk : s.commands[k]? = some pc)
    (h : s.proceed k pc = some s') : s.Turn (.proceed k) s' := by
  cases pc with
  | deploying workflowId deployedAt =>
      cases h
      exact .created k rfl hk rfl
  | deployed d =>
      cases h
      exact .laned k d rfl hk rfl
  | replacing d =>
      obtain ⟨workflowId, -, h⟩ := Option.map_eq_some_iff.mp h
      cases hlookup : s.workflows.lookup workflowId with
      | some existing =>
          simp only [hlookup] at h
          exact .replaced k d existing workflowId rfl hk hlookup h.symm
      | none =>
          simp only [hlookup] at h
          exact .forwarded k d rfl hk (.inl rfl) h.symm
  | stopping d =>
      cases h
      exact .forwarded k d rfl hk (.inr rfl) rfl
  | inserting d =>
      obtain ⟨workflowId, hid, h⟩ := Option.map_eq_some_iff.mp h
      exact .inserted k d workflowId rfl hk hid h.symm
  | storing activeWorkflowId =>
      cases h
      exact .stored k rfl hk rfl
  | undeploying workflowId =>
      cases h
      exact .moved k (.inl rfl) hk .read rfl
  | removing workflowId activeBefore =>
      rw [proceed, Option.some_inj] at h
      cases hlookup : s.workflows.lookup workflowId with
      | some d =>
          simp only [hlookup] at h
          exact .removed k d rfl hk hlookup h.symm
      | none =>
          simp only [hlookup] at h
          exact .moved k (.inl rfl) hk (.missed hlookup) h.symm
  | shuttingDown workflowId activeBefore =>
      cases h
      exact .moved k (.inl rfl) hk .shut rfl
  | counting workflowId activeBefore =>
      rw [proceed, Option.some_inj] at h
      by_cases hactive : activeBefore = some workflowId
      · rw [if_pos hactive] at h
        subst hactive
        exact .moved k (.inl rfl) hk .vacant h.symm
      · rw [if_neg hactive] at h
        exact .moved k (.inl rfl) hk (.other hactive) h.symm
  | choosing => cases h
  | checking workflowId =>
      rw [proceed, Option.some_inj] at h
      by_cases hfound : (s.workflows.lookup workflowId).isSome
      · rw [if_pos hfound] at h
        exact .moved k (.inl rfl) hk .found h.symm
      · rw [if_neg hfound] at h
        exact .moved k (.inl rfl) hk .unknown h.symm
  | returned => cases h

theorem fail_turn {k : ℕ} {pc : CommandPc} (hk : s.commands[k]? = some pc)
    (h : s.fail k pc = some s') : s.Turn (.fail k) s' := by
  cases pc with
  | deploying workflowId deployedAt =>
      cases h
      exact .moved k (.inr (.inl rfl)) hk .refused rfl
  | deployed d =>
      cases h
      exact .failed k d rfl hk rfl
  | replacing d =>
      obtain ⟨workflowId, -, h⟩ := Option.bind_eq_some_iff.mp h
      cases hlookup : s.workflows.lookup workflowId with
      | some existing =>
          simp only [hlookup] at h
          cases h
      | none =>
          simp only [hlookup, Option.some_inj] at h
          exact .leaked k d rfl hk (.inl rfl) h.symm
  | stopping d =>
      cases h
      exact .leaked k d rfl hk (.inr rfl) rfl
  | inserting d => cases h
  | storing activeWorkflowId => cases h
  | undeploying workflowId => cases h
  | removing workflowId activeBefore => cases h
  | shuttingDown workflowId activeBefore => cases h
  | counting workflowId activeBefore => cases h
  | choosing => cases h
  | checking workflowId => cases h
  | returned => cases h

theorem turn_of_step (h : s.step a = some s') : s.Turn a s' := by
  cases a with
  | deploy workflowId deployedAt =>
      cases h
      exact .given _ rfl rfl
  | undeploy workflowId =>
      cases h
      exact .given _ rfl rfl
  | setActive workflowId =>
      cases h
      exact .given _ rfl rfl
  | proceed k =>
      obtain ⟨pc, hk, h⟩ := Option.bind_eq_some_iff.mp h
      exact proceed_turn hk h
  | fail k =>
      obtain ⟨pc, hk, h⟩ := Option.bind_eq_some_iff.mp h
      exact fail_turn hk h
  | choose k fallback =>
      obtain ⟨pc, hk, h⟩ := Option.bind_eq_some_iff.mp h
      split at h
      · rename_i hchoice
        obtain ⟨rfl, -⟩ := hchoice
        cases h
        exact .moved k (.inr (.inr ⟨fallback, rfl⟩)) hk .chosen rfl
      · cases h

/-! ## Where the commands stand after a step -/

theorem getElem?_setPc_self {k : ℕ} {pc : CommandPc} (hk : s.commands[k]? = some pc)
    (pc' : CommandPc) : (s.setPc k pc').commands[k]? = some pc' := by
  obtain ⟨hlt, -⟩ := List.getElem?_eq_some_iff.mp hk
  exact List.getElem?_set_self hlt

theorem getElem?_setPc_ne {j k : ℕ} (hjk : j ≠ k) (pc' : CommandPc) :
    (s.setPc k pc').commands[j]? = s.commands[j]? := List.getElem?_set_ne (Ne.symm hjk)

@[simp] theorem commands_insert (workflowId : String) (d : ℕ) :
    (s.insert workflowId d).commands = s.commands := by
  rw [insert]
  split <;> rfl

@[simp] theorem workflows_insert (workflowId : String) (d : ℕ) :
    (s.insert workflowId d).workflows = s.workflows.insert workflowId d := by
  rw [insert]
  split <;> rfl

end DesktopState

end Nazh
