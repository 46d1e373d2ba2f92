import Nazh.Io.HumanLoop

/-!
# Who approved

A human loop node sends to its port `approve` when a response in its own slot approved,
or when its timer has elapsed and it approves by default. It also does so when its
sender is dropped and it approves by default: `keepsAutoApprove` says that no workflow
is cleaned up while such a node waits.
-/

namespace Nazh

open Lib

/-- An output of the execution is sent along the edges from `port`. -/
def NodeExecution.sendsTo (execution : NodeExecution) (port : String) : Bool :=
  execution.outputs.any fun output => match output.dispatch with
    | .broadcast => true
    | .route ports => ports.contains port

/-- The execution has ended and its output is sent along the edges from `port`. -/
def HumanLoopExecution.sentTo (e : HumanLoopExecution) (port : String) : Bool :=
  match e.state with
  | .finished _ (.ok execution) => execution.sendsTo port
  | _ => false

theorem HumanLoopExecution.sentTo_iff {e : HumanLoopExecution} {port : String} :
    e.sentTo port = true ↔
      ∃ at' execution, e.state = .finished at' (.ok execution) ∧ execution.sendsTo port = true := by
  rw [sentTo]
  constructor
  · intro h
    split at h
    · exact ⟨_, _, ‹_›, h⟩
    · cases h
  · rintro ⟨at', execution, hstate, hsend⟩
    rw [hstate]
    exact hsend

/-! ## What a wait may end with -/

/-- What it ended with has a cause: a response to the slot, or the timer. A dropped
sender is a cause only for a node that does not approve by default. -/
def WaitResult.Backed (log : List (ℕ × HumanLoopResponse)) (i : ℕ) (e : HumanLoopExecution)
    (now : ℕ) : WaitResult → Prop
  | .answered response => (i, response) ∈ log
  | .closed => e.node.config.defaultAction ≠ .autoApprove
  | .elapsed => ∃ deadline, e.deadline = some deadline ∧ deadline ≤ now

/-- A node that sends to `approve` was answered so, or approves by default. -/
theorem HumanLoopNode.conclude_approve {node : HumanLoopNode} {approvalId : String}
    {payload : Value} {result : WaitResult} {execution : NodeExecution}
    (h : node.conclude approvalId payload result = .ok execution)
    (hsend : execution.sendsTo "approve" = true) :
    (∃ response, result = .answered response ∧ response.action = .approved) ∨
      node.config.defaultAction = .autoApprove ∧ (result = .closed ∨ result = .elapsed) := by
  have of_timeout : node.handleTimeout approvalId payload = .ok execution →
      node.config.defaultAction = .autoApprove := by
    intro htimeout
    rw [handleTimeout] at htimeout
    split at htimeout
    · assumption
    · cases htimeout
    · cases htimeout
  cases result with
  | answered response =>
      refine .inl ⟨response, rfl, ?_⟩
      simp only [conclude, handleResponse, Except.ok.injEq] at h
      subst h
      cases haction : response.action with
      | approved => rfl
      | rejected =>
          simp [haction, NodeExecution.sendsTo, NodeExecution.withMetadata,
            NodeExecution.route] at hsend
  | closed => exact .inr ⟨of_timeout h, .inl rfl⟩
  | elapsed => exact .inr ⟨of_timeout h, .inr rfl⟩

namespace HumanLoopExecution

variable {uuidText : ℕ → String} {log log' : List (ℕ × HumanLoopResponse)} {i now : ℕ}
  {e : HumanLoopExecution}

/-- The state of the execution has a cause in the log or in the clock. -/
def Accounted (uuidText : ℕ → String) (log : List (ℕ × HumanLoopResponse)) (i : ℕ)
    (e : HumanLoopExecution) : Prop :=
  match e.state with
  | .waiting .held => True
  | .waiting (.sent response) => (i, response) ∈ log
  | .waiting .dropped => e.node.config.defaultAction ≠ .autoApprove
  | .finished at' result => ∃ end', end'.Backed log i e at' ∧
      result = e.node.conclude (uuidText i) e.payload end'
  | .abandoned => True

theorem Accounted.mono (h : e.Accounted uuidText log i) (hlog : log ⊆ log') :
    e.Accounted uuidText log' i := by
  unfold Accounted at h ⊢
  split
  · trivial
  · rename_i response hstate
    rw [hstate] at h
    exact hlog h
  · rename_i hstate
    rw [hstate] at h
    exact h
  · rename_i at' result hstate
    rw [hstate] at h
    obtain ⟨end', hbacked, hresult⟩ := h
    refine ⟨end', ?_, hresult⟩
    cases end' with
    | answered response => exact hlog hbacked
    | closed => exact hbacked
    | elapsed => exact hbacked
  · trivial

/-- What an accounted execution finds when it is polled has a cause. -/
theorem Accounted.backed (h : e.Accounted uuidText log i) {result : WaitResult}
    (hpoll : e.poll now = some result) : result.Backed log i e now := by
  rw [poll] at hpoll
  split at hpoll
  · rename_i response hstate
    obtain rfl := Option.some.inj hpoll
    simpa [Accounted, hstate, WaitResult.Backed] using h
  · rename_i hstate
    obtain rfl := Option.some.inj hpoll
    simpa [Accounted, hstate, WaitResult.Backed] using h
  · split at hpoll
    · cases hpoll
    · rename_i deadline hdeadline
      split at hpoll
      · obtain rfl := Option.some.inj hpoll
        exact ⟨deadline, hdeadline, ‹_›⟩
      · cases hpoll
  · cases hpoll

/-- The sender may drop unless the node waits and approves by default. -/
theorem Accounted.dropSender (h : e.Accounted uuidText log i)
    (hdefault : e.isWaiting = true → e.node.config.defaultAction ≠ .autoApprove) :
    e.dropSender.Accounted uuidText log i := by
  rw [HumanLoopExecution.dropSender]
  split
  · rename_i hstate
    exact hdefault (by simp [isWaiting, hstate])
  · exact h

end HumanLoopExecution

namespace Approvals

variable {uuidText : ℕ → String} {s s' : Approvals} {log : List (ℕ × HumanLoopResponse)}

/-- No slot is cleaned up under a node that waits and approves by default. -/
def keepsAutoApprove (s : Approvals) : ApprovalAction → Bool
  | .cleanupWorkflow workflowId => s.slots.all fun slot =>
      slot.2.workflowId != workflowId || !(s.executions[slot.1]?).any fun e =>
        e.isWaiting && e.node.config.defaultAction == .autoApprove
  | _ => true

/-- Every execution is accounted for. -/
def Accounted (uuidText : ℕ → String) (s : Approvals) (log : List (ℕ × HumanLoopResponse)) :
    Prop :=
  ∀ (i : ℕ) (e : HumanLoopExecution), s.executions[i]? = some e → e.Accounted uuidText log i

theorem Accounted.mono (h : s.Accounted uuidText log) {log' : List (ℕ × HumanLoopResponse)}
    (hlog : log ⊆ log') : s.Accounted uuidText log' :=
  fun i e he => (h i e he).mono hlog

/-- One execution changes to one that is accounted for. -/
theorem Accounted.set (h : s.Accounted uuidText log) {i : ℕ} {e : HumanLoopExecution}
    (he : e.Accounted uuidText log i) (hs : s'.executions = s.executions.set i e) :
    s'.Accounted uuidText log := by
  intro j e' he'
  rw [hs] at he'
  by_cases hij : i = j
  · subst hij
    obtain ⟨hlt, hget⟩ := List.getElem?_eq_some_iff.mp he'
    rw [List.getElem_set_self] at hget
    exact hget ▸ he
  · rw [List.getElem?_set_ne hij] at he'
    exact h j e' he'

theorem respond_executions (s : Approvals) (approvalId : ℕ) (response : HumanLoopResponse) :
    (s.respond uuidText approvalId response).1.executions = s.executions ∨
      ∃ e, s.executions[approvalId]? = some e ∧
        (s.respond uuidText approvalId response).1.executions =
          s.executions.set approvalId { e with state := .waiting (.sent response) } := by
  rw [respond]
  split
  · exact .inl rfl
  · simp only
    split
    · rename_i e he
      split
      · exact .inr ⟨e, he, rfl⟩
      · exact .inl rfl
    · exact .inl rfl

theorem Accounted.cleanupWorkflow (h : s.Accounted uuidText log) {workflowId : String}
    (hkeep : s.keepsAutoApprove (.cleanupWorkflow workflowId) = true) :
    (s.cleanupWorkflow workflowId).Accounted uuidText log := by
  intro i e' he'
  simp only [Approvals.cleanupWorkflow, List.getElem?_mapIdx, Option.map_eq_some_iff] at he'
  obtain ⟨e, he, rfl⟩ := he'
  split
  · rename_i hslot
    apply (h i e he).dropSender
    intro hwait hauto
    simp only [hasSlot, List.any_eq_true, Bool.and_eq_true, beq_iff_eq] at hslot
    obtain ⟨slot, hmem, hid, hworkflow⟩ := hslot
    have hspared := List.all_eq_true.mp hkeep slot hmem
    simp [hid, he, hworkflow, hwait, hauto] at hspared
  · exact h i e he

/-- A step that spares the nodes that approve by default keeps the account. -/
theorem Accounted.step {a : ApprovalAction} (h : s.Accounted uuidText log)
    (hkeep : s.keepsAutoApprove a = true) (hs : s.step uuidText a = some s') :
    s'.Accounted uuidText (log ++ s.responses a s') := by
  cases a with
  | transform node payload =>
      obtain rfl := Option.some.inj hs
      apply Accounted.mono _ (List.subset_append_left _ _)
      intro i e he
      simp only [createSlot, List.getElem?_append] at he
      split at he
      · exact h i e he
      · obtain rfl := List.mem_singleton.mp (List.mem_of_getElem? he)
        trivial
  | resume i =>
      obtain ⟨e, he, hmap⟩ := Option.bind_eq_some_iff.mp hs
      obtain ⟨result, hpoll, rfl⟩ := Option.map_eq_some_iff.mp hmap
      apply Accounted.mono _ (List.subset_append_left _ _)
      have hbacked := (h i e he).backed hpoll
      refine h.set (e := { e with state := .finished _ _ }) ?_ rfl
      exact ⟨result, hbacked, rfl⟩
  | abandon i =>
      obtain ⟨e, -, hif⟩ := Option.bind_eq_some_iff.mp hs
      split at hif
      · obtain rfl := Option.some.inj hif
        apply Accounted.mono _ (List.subset_append_left _ _)
        refine h.set (e := { e with state := .abandoned }) ?_ rfl
        trivial
      · cases hif
  | respond approvalId response =>
      obtain rfl := Option.some.inj hs
      have hlog := h.mono (List.subset_append_left log [(approvalId, response)])
      rcases s.respond_executions approvalId response with heq | ⟨e, -, heq⟩
      · intro i e he
        rw [heq] at he
        exact hlog i e he
      · apply hlog.set _ heq
        exact List.mem_append_right _ (List.mem_singleton.mpr rfl)
  | cleanupWorkflow workflowId =>
      obtain rfl := Option.some.inj hs
      exact (h.cleanupWorkflow hkeep).mono (List.subset_append_left _ _)
  | elapse nanoseconds =>
      obtain rfl := Option.some.inj hs
      exact Accounted.mono h (List.subset_append_left _ _)

/-- In runs that spare the nodes that approve by default every execution is accounted for. -/
theorem accounted_of_reaches {s : Approvals × List (ℕ × HumanLoopResponse)}
    (h : ((machine uuidText).logged responses).ReachesUnder (fun s a => s.1.keepsAutoApprove a) s) :
    s.1.Accounted uuidText s.2 := by
  apply h.invariant
  · rintro s ⟨⟨-, hnone⟩, -⟩ i e he
    simp [hnone] at he
  · intro s a s' hi hkeep hs
    obtain ⟨hstep, hlog⟩ := Machine.logged_step.mp hs
    rw [hlog]
    exact hi.step hkeep hstep

/-- In such runs what is sent to `approve` was approved by a response to the slot of the
execution, or its timer had elapsed and its node approves by default. -/
theorem approved_by_human_or_timeout {s : Approvals × List (ℕ × HumanLoopResponse)}
    (h : ((machine uuidText).logged responses).ReachesUnder (fun s a => s.1.keepsAutoApprove a) s)
    {i at' : ℕ} {e : HumanLoopExecution} {execution : NodeExecution}
    (he : s.1.executions[i]? = some e) (hend : e.state = .finished at' (.ok execution))
    (hsend : execution.sendsTo "approve" = true) :
    (∃ response, (i, response) ∈ s.2 ∧ response.action = .approved) ∨
      e.node.config.defaultAction = .autoApprove ∧
        ∃ deadline, e.deadline = some deadline ∧ deadline ≤ at' := by
  have haccounted := accounted_of_reaches h i e he
  rw [HumanLoopExecution.Accounted, hend] at haccounted
  obtain ⟨result, hbacked, hresult⟩ := haccounted
  rcases HumanLoopNode.conclude_approve hresult.symm hsend with
    ⟨response, rfl, haction⟩ | ⟨hauto, rfl | rfl⟩
  · exact .inl ⟨response, hbacked, haction⟩
  · exact absurd hauto hbacked
  · exact .inr ⟨hauto, hbacked⟩

/-- A valve that opens by default and has no timer. -/
def valve : HumanLoopNode := ⟨"valve", ⟨[], none, .autoApprove⟩, "plant"⟩

/-- A human approves. -/
def consent : HumanLoopResponse := ⟨.approved, .null, none, none⟩

/-- An empty registry, with an empty log. -/
def empty : Approvals × List (ℕ × HumanLoopResponse) := (⟨[], [], 0⟩, [])

theorem empty_started : ((machine toString).logged responses).init empty :=
  ⟨⟨rfl, rfl⟩, rfl⟩

/-- The approval of the valve was a human's. -/
theorem valve_approved : ∃ s : Approvals × List (ℕ × HumanLoopResponse),
    (∃ e, s.1.executions[0]? = some e ∧ e.sentTo "approve" = true) ∧
    ∃ response, (0, response) ∈ s.2 ∧ response.action = .approved := by
  have hrun : (((machine toString).logged responses).replay (fun s a => s.1.keepsAutoApprove a)
      empty [.transform valve .null, .respond 0 consent, .resume 0]).any fun s =>
        (s.1.executions[0]?).any fun e => e.sentTo "approve" && e.deadline.isNone := by decide
  obtain ⟨s, hreach, hend⟩ := Machine.exists_reachesUnder_of_replay empty_started hrun
  obtain ⟨e, he, hsent⟩ := (Option.any_eq_true _ _).mp hend
  simp only [Bool.and_eq_true, Option.isNone_iff_eq_none] at hsent
  obtain ⟨hsent, hnone⟩ := hsent
  obtain ⟨at', execution, hstate, hsend⟩ := HumanLoopExecution.sentTo_iff.mp hsent
  refine ⟨s, ⟨e, he, hsent⟩, ?_⟩
  rcases approved_by_human_or_timeout hreach he hstate hsend with hanswer | ⟨-, deadline, htimer, -⟩
  · exact hanswer
  · rw [hnone] at htimer
    cases htimer

/-- The workflow of the valve is undeployed, and the valve opens: nobody responded, and
there is no timer. -/
theorem undeployed_approved : ∃ s, ((machine toString).logged responses).Reaches s ∧ s.2 = [] ∧
    ∃ e, s.1.executions[0]? = some e ∧ e.sentTo "approve" = true ∧ e.deadline = none := by
  have hrun : (((machine toString).logged responses).replay (fun _ _ => true)
      empty [.transform valve .null, .cleanupWorkflow "plant", .resume 0]).any fun s =>
        decide (s.2 = []) &&
          (s.1.executions[0]?).any fun e => e.sentTo "approve" && e.deadline.isNone := by decide
  obtain ⟨s, hreach, hend⟩ := Machine.exists_reaches_of_replay empty_started hrun
  simp only [Bool.and_eq_true, decide_eq_true_eq, Option.any_eq_true,
    Option.isNone_iff_eq_none] at hend
  obtain ⟨hlog, e, he, hsent, hnone⟩ := hend
  exact ⟨s, hreach, hlog, e, he, hsent, hnone⟩

end Approvals
end Nazh
