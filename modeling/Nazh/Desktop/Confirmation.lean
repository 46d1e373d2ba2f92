import Nazh.Desktop.Copilot

/-!
# Writes as confirmed

A tool that writes is run as confirmed if a token was issued for the very call, and that
token is confirmed in time and for the first time. Three things stand in the way:

* a call whose arguments say that they are confirmed is run at once;
* the pending action does not keep the workspace, and the tool is run without one;
* the age of a token is cut off to whole seconds before it is compared.

`Copilot.faithful` says that none of them happens.
-/

namespace Nazh

open Lib

/-- The token that a command names. -/
def CopilotAction.token : CopilotAction → Option ℕ
  | confirmAction token _ => some token
  | cancelAction token => some token
  | dispatchTool _ _ _ _ => none

namespace CopilotEvent

/-- The call of a tool that the command made. -/
def call (event : CopilotEvent) : Option ToolCall :=
  match event.reply with
  | .ok reply => reply.call
  | .error _ => none

/-- The token that the command used or cancelled. -/
def spent (event : CopilotEvent) : Option ℕ :=
  match event.reply with
  | .ok _ => event.action.token
  | .error _ => none

/-- A token that the command issued has no workspace to go with it. -/
def issuesUnplaced (token : ℕ) (event : CopilotEvent) : Bool :=
  match event with
  | ⟨.dispatchTool _ _ workspacePath _, .ok (.pendingConfirmation _ issued)⟩ =>
      issued != token || workspacePath.isNone
  | _ => true

end CopilotEvent

namespace Copilot

/-- The token was issued for this request, new at the time, and nobody named it since. -/
def Standing (log : List CopilotEvent) (token : ℕ) (toolName argumentsJson : String)
    (workspacePath : Option String) (createdAt : ℤ) : Prop :=
  ∃ before after summary, log = before ++
      ⟨.dispatchTool toolName argumentsJson workspacePath createdAt,
        .ok (.pendingConfirmation summary token)⟩ :: after ∧
    (∀ event ∈ before, event.spent ≠ some token) ∧
    ∀ event ∈ after, event.action.token ≠ some token

/-- If the command runs a tool that writes, then it confirms a token that stands for the
same tool, arguments and workspace and that is at most 300 seconds old. The arguments are
the same but for the flag that says that they are confirmed. -/
def Authorised (codec : CopilotCodec) (log : List CopilotEvent) (event : CopilotEvent) : Prop :=
  ∀ call, event.call = some call → call.writes = true →
    ∃ token now argumentsJson args createdAt, event.action = .confirmAction token now ∧
      Standing log token call.toolName argumentsJson call.workspacePath createdAt ∧
      codec.parseJson argumentsJson = .ok args ∧
      call.argumentsJson = codec.printJson (markConfirmed args) ∧
      now - createdAt ≤ 300 * 10 ^ 9

/-- The command does not confirm itself, and a token it confirms was issued without a
workspace and is not between 300 and 301 seconds old. -/
def faithful (codec : CopilotCodec) (s : Copilot × List CopilotEvent) : CopilotAction → Bool
  | .dispatchTool toolName argumentsJson _ _ =>
      !(writeTools.contains toolName && match codec.parseJson argumentsJson with
        | .ok args => isConfirmed args
        | .error _ => false)
  | .confirmAction token now => match s.1.pending.lookup token with
    | none => true
    | some action => decide (300 < elapsedSeconds action now) ||
        (decide (now - action.createdAt ≤ 300 * 10 ^ 9) &&
          s.2.all (CopilotEvent.issuesUnplaced token))
  | .cancelAction _ => true

/-- Each pending action stands in the log, and the tokens to come are new. -/
structure Recorded (s : Copilot) (log : List CopilotEvent) : Prop where
  standing : ∀ token action, (token, action) ∈ s.pending → token < s.nextToken ∧
    ∃ workspacePath, Standing log token action.toolName action.argumentsJson workspacePath
      action.createdAt
  spent_lt : ∀ event ∈ log, ∀ token, event.spent = some token → token < s.nextToken

variable {codec : CopilotCodec} {s : Copilot} {log : List CopilotEvent}

/-! ## What each command does -/

/-- A dispatch fails, runs the tool, or issues a token. -/
theorem copilotDispatchTool_cases (codec : CopilotCodec) (s : Copilot)
    (toolName argumentsJson : String) (workspacePath : Option String) (now : ℤ) :
    (∃ e, s.copilotDispatchTool codec toolName argumentsJson workspacePath now = (s, .error e)) ∨
    (s.copilotDispatchTool codec toolName argumentsJson workspacePath now =
        (s, .ok (.ran ⟨toolName, argumentsJson, workspacePath⟩)) ∧
      (writeTools.contains toolName = true →
        ∃ args, codec.parseJson argumentsJson = .ok args ∧ isConfirmed args = true)) ∨
    ∃ summary, s.copilotDispatchTool codec toolName argumentsJson workspacePath now =
      (⟨s.pending ++ [(s.nextToken, ⟨toolName, argumentsJson, summary, now⟩)], s.nextToken + 1⟩,
        .ok (.pendingConfirmation summary s.nextToken)) := by
  rw [copilotDispatchTool]
  split
  · split
    · exact .inl ⟨_, rfl⟩
    · rename_i args hargs
      split
      · exact .inr (.inl ⟨rfl, fun _ => ⟨args, hargs, ‹_›⟩⟩)
      · split
        · exact .inl ⟨_, rfl⟩
        · exact .inr (.inr ⟨_, rfl⟩)
  · rename_i hreads
    exact .inr (.inl ⟨rfl, fun hwrites => absurd hwrites hreads⟩)

/-- A confirmation of a pending action takes it out, and runs the tool or fails. -/
theorem copilotConfirmAction_cases (codec : CopilotCodec) (s : Copilot) (token : ℕ) (now : ℤ) :
    (s.pending.lookup token = none ∧
      ∃ e, s.copilotConfirmAction codec token now = (s, .error e)) ∨
    ∃ action, s.pending.lookup token = some action ∧
      ((∃ e, s.copilotConfirmAction codec token now = (s.remove token, .error e)) ∨
        ∃ args, elapsedSeconds action now ≤ 300 ∧
          codec.parseJson action.argumentsJson = .ok args ∧
          s.copilotConfirmAction codec token now = (s.remove token, .ok (.confirmed action.summary
            ⟨action.toolName, codec.printJson (markConfirmed args), none⟩))) := by
  rw [copilotConfirmAction]
  split
  · exact .inl ⟨‹_›, _, rfl⟩
  · rename_i action haction
    refine .inr ⟨action, haction, ?_⟩
    split
    · exact .inl ⟨_, rfl⟩
    · rename_i hfresh
      split
      · exact .inl ⟨_, rfl⟩
      · rename_i args hargs
        exact .inr ⟨args, by omega, hargs, rfl⟩

theorem copilotCancelAction_cases (s : Copilot) (token : ℕ) :
    (s.pending.lookup token = none ∧ ∃ e, s.copilotCancelAction token = (s, .error e)) ∨
    ∃ action, s.pending.lookup token = some action ∧
      s.copilotCancelAction token = (s.remove token, .ok (.cancelled action.summary)) := by
  rw [copilotCancelAction]
  split
  · exact .inl ⟨‹_›, _, rfl⟩
  · exact .inr ⟨_, ‹_›, rfl⟩

/-! ## The record of pending actions -/

/-- A token stands over a command that does not name it. -/
theorem Standing.append {token : ℕ} {toolName argumentsJson : String}
    {workspacePath : Option String} {createdAt : ℤ} {event : CopilotEvent}
    (h : Standing log token toolName argumentsJson workspacePath createdAt)
    (hevent : event.action.token ≠ some token) :
    Standing (log ++ [event]) token toolName argumentsJson workspacePath createdAt := by
  obtain ⟨before, after, summary, rfl, hbefore, hafter⟩ := h
  refine ⟨before, after ++ [event], summary, by simp, hbefore, ?_⟩
  intro event' hmem
  rcases List.mem_append.mp hmem with hold | hnew
  · exact hafter event' hold
  · rw [List.mem_singleton.mp hnew]
    exact hevent

/-- A command that names no token, or whose token is taken out of the table. -/
theorem Recorded.of_remaining {s' : Copilot} {event : CopilotEvent} (h : s.Recorded log)
    (hnext : s'.nextToken = s.nextToken)
    (hpending : ∀ entry ∈ s'.pending, entry ∈ s.pending ∧ event.action.token ≠ some entry.1)
    (hspent : ∀ token, event.spent = some token → token < s.nextToken) :
    s'.Recorded (log ++ [event]) where
  standing token action hmem := by
    obtain ⟨hold, hname⟩ := hpending (token, action) hmem
    obtain ⟨hlt, workspacePath, hstanding⟩ := h.standing token action hold
    exact ⟨hnext ▸ hlt, workspacePath, hstanding.append hname⟩
  spent_lt event' hmem token htoken := by
    rw [hnext]
    rcases List.mem_append.mp hmem with hold | hnew
    · exact h.spent_lt event' hold token htoken
    · rw [List.mem_singleton.mp hnew] at htoken
      exact hspent token htoken

theorem mem_remove {token : ℕ} {entry : ℕ × PendingCopilotAction}
    (h : entry ∈ (s.remove token).pending) : entry ∈ s.pending ∧ entry.1 ≠ token := by
  simpa [remove] using h

theorem ne_of_lookup_none {token : ℕ} {entry : ℕ × PendingCopilotAction}
    (h : s.pending.lookup token = none) (hmem : entry ∈ s.pending) : token ≠ entry.1 := by
  have hne := List.lookup_eq_none_iff.mp h entry hmem
  simpa using hne

theorem mem_of_lookup {token : ℕ} {action : PendingCopilotAction}
    (h : s.pending.lookup token = some action) : (token, action) ∈ s.pending := by
  obtain ⟨front, rest, heq, -⟩ := List.lookup_eq_some_iff.mp h
  simp [heq]

/-- A command on a token that is not in the table changes nothing. -/
theorem Recorded.of_unknown {token : ℕ} {event : CopilotEvent} {e : String} (h : s.Recorded log)
    (hnone : s.pending.lookup token = none) (htoken : event.action.token = some token)
    (hreply : event.reply = .error e) : s.Recorded (log ++ [event]) := by
  apply h.of_remaining rfl
  · intro entry hmem
    refine ⟨hmem, ?_⟩
    rw [htoken]
    intro heq
    exact ne_of_lookup_none hnone hmem (Option.some.inj heq)
  · intro token' hspent
    simp [CopilotEvent.spent, hreply] at hspent

/-- A command takes the action of its token out of the table. -/
theorem Recorded.of_removed {token : ℕ} {action : PendingCopilotAction} {event : CopilotEvent}
    (h : s.Recorded log) (haction : s.pending.lookup token = some action)
    (htoken : event.action.token = some token) : (s.remove token).Recorded (log ++ [event]) := by
  refine Recorded.of_remaining h (rfl : (s.remove token).nextToken = s.nextToken) ?_ ?_
  · intro entry hmem
    obtain ⟨hold, hne⟩ := mem_remove hmem
    refine ⟨hold, ?_⟩
    rw [htoken]
    intro heq
    exact hne (Option.some.inj heq).symm
  · intro token' hspent
    have hsame : token' = token := by
      rw [CopilotEvent.spent] at hspent
      split at hspent
      · rw [htoken] at hspent
        exact (Option.some.inj hspent).symm
      · cases hspent
    rw [hsame]
    exact (h.standing token action (mem_of_lookup haction)).1

/-- A new token stands. -/
theorem Recorded.of_issued {toolName argumentsJson summary : String}
    {workspacePath : Option String} {now : ℤ} (h : s.Recorded log) :
    (⟨s.pending ++ [(s.nextToken, ⟨toolName, argumentsJson, summary, now⟩)], s.nextToken + 1⟩ :
      Copilot).Recorded (log ++ [⟨.dispatchTool toolName argumentsJson workspacePath now,
        .ok (.pendingConfirmation summary s.nextToken)⟩]) where
  standing token action hmem := by
    rcases List.mem_append.mp hmem with hold | hnew
    · obtain ⟨hlt, workspacePath', hstanding⟩ := h.standing token action hold
      exact ⟨Nat.lt_succ_of_lt hlt, workspacePath', hstanding.append (by simp [CopilotAction.token])⟩
    · obtain ⟨rfl, rfl⟩ := Prod.mk.inj (List.mem_singleton.mp hnew)
      refine ⟨Nat.lt_succ_self _, workspacePath, log, [], summary, rfl, ?_, by simp⟩
      intro event hevent hspent
      exact absurd (h.spent_lt event hevent _ hspent) (Nat.lt_irrefl _)
  spent_lt event hmem token hspent := by
    rcases List.mem_append.mp hmem with hold | hnew
    · exact Nat.lt_succ_of_lt (h.spent_lt event hold token hspent)
    · rw [List.mem_singleton.mp hnew] at hspent
      cases hspent

/-- Every command keeps the record. -/
theorem Recorded.perform (h : s.Recorded log) (a : CopilotAction) :
    (s.perform codec a).1.Recorded (log ++ [⟨a, (s.perform codec a).2⟩]) := by
  have unchanged : ∀ event : CopilotEvent, event.action.token = none →
      s.Recorded (log ++ [event]) := by
    intro event hnone
    apply h.of_remaining rfl
    · intro entry hmem
      exact ⟨hmem, by simp [hnone]⟩
    · intro token hspent
      rw [CopilotEvent.spent] at hspent
      split at hspent
      · rw [hnone] at hspent
        cases hspent
      · cases hspent
  cases a with
  | dispatchTool toolName argumentsJson workspacePath now =>
      rw [Copilot.perform]
      rcases copilotDispatchTool_cases codec s toolName argumentsJson workspacePath now with
        ⟨e, heq⟩ | ⟨heq, -⟩ | ⟨summary, heq⟩
      · rw [heq]
        exact unchanged _ rfl
      · rw [heq]
        exact unchanged _ rfl
      · rw [heq]
        exact h.of_issued
  | confirmAction token now =>
      rw [Copilot.perform]
      rcases copilotConfirmAction_cases codec s token now with
        ⟨hnone, e, heq⟩ | ⟨action, haction, ⟨e, heq⟩ | ⟨args, -, -, heq⟩⟩
      · rw [heq]
        exact h.of_unknown hnone rfl rfl
      · rw [heq]
        exact h.of_removed haction rfl
      · rw [heq]
        exact h.of_removed haction rfl
  | cancelAction token =>
      rw [Copilot.perform]
      rcases copilotCancelAction_cases s token with ⟨hnone, e, heq⟩ | ⟨action, haction, heq⟩
      · rw [heq]
        exact h.of_unknown hnone rfl rfl
      · rw [heq]
        exact h.of_removed haction rfl

/-! ## Authorised commands -/

/-- A token that is issued without a workspace stands for none. -/
theorem Standing.workspacePath_eq {token : ℕ} {toolName argumentsJson : String}
    {workspacePath : Option String} {createdAt : ℤ}
    (h : Standing log token toolName argumentsJson workspacePath createdAt)
    (hall : log.all (CopilotEvent.issuesUnplaced token) = true) : workspacePath = none := by
  obtain ⟨before, after, summary, rfl, -, -⟩ := h
  simp only [List.all_append, List.all_cons, Bool.and_eq_true] at hall
  simpa [CopilotEvent.issuesUnplaced] using hall.2.1

/-- A faithful command runs a tool that writes only as confirmed. -/
theorem Recorded.authorised (h : s.Recorded log) {a : CopilotAction}
    (hfaithful : faithful codec (s, log) a = true) :
    Authorised codec log ⟨a, (s.perform codec a).2⟩ := by
  intro call hcall hwrites
  cases a with
  | dispatchTool toolName argumentsJson workspacePath now =>
      exfalso
      simp only [Copilot.perform] at hcall
      rcases copilotDispatchTool_cases codec s toolName argumentsJson workspacePath now with
        ⟨e, heq⟩ | ⟨heq, hconfirmed⟩ | ⟨summary, heq⟩
      · rw [heq] at hcall
        cases hcall
      · rw [heq] at hcall
        obtain rfl := Option.some.inj hcall
        obtain ⟨args, hargs, hflag⟩ := hconfirmed hwrites
        have hcontains : writeTools.contains toolName = true := hwrites
        rw [faithful, hcontains, hargs] at hfaithful
        simp [hflag] at hfaithful
      · rw [heq] at hcall
        cases hcall
  | confirmAction token now =>
      simp only [Copilot.perform] at hcall
      rcases copilotConfirmAction_cases codec s token now with
        ⟨-, e, heq⟩ | ⟨action, haction, ⟨e, heq⟩ | ⟨args, hage, hargs, heq⟩⟩
      · rw [heq] at hcall
        cases hcall
      · rw [heq] at hcall
        cases hcall
      · rw [heq] at hcall
        obtain rfl := Option.some.inj hcall
        obtain ⟨-, workspacePath, hstanding⟩ := h.standing token action (mem_of_lookup haction)
        have hexpired : ¬ 300 < elapsedSeconds action now := by omega
        simp only [faithful, haction, hexpired, decide_false, Bool.false_or, Bool.and_eq_true,
          decide_eq_true_eq] at hfaithful
        obtain ⟨hyoung, hunplaced⟩ := hfaithful
        obtain rfl := hstanding.workspacePath_eq hunplaced
        exact ⟨token, now, action.argumentsJson, args, action.createdAt, rfl, hstanding, hargs, rfl,
          hyoung⟩
  | cancelAction token =>
      simp only [Copilot.perform] at hcall
      rcases copilotCancelAction_cases s token with ⟨-, e, heq⟩ | ⟨action, -, heq⟩
      · rw [heq] at hcall
        cases hcall
      · rw [heq] at hcall
        cases hcall

/-- In runs of faithful commands every command that runs a tool that writes does so as
confirmed. -/
theorem writes_as_confirmed {s : Copilot × List CopilotEvent}
    (h : ((machine codec).logged (events codec)).ReachesUnder (fun s a => faithful codec s a) s) :
    Historical (Authorised codec) s.2 := by
  have hboth : s.1.Recorded s.2 ∧ Historical (Authorised codec) s.2 := by
    apply h.invariant
    · rintro ⟨s, log⟩ ⟨rfl, rfl⟩
      refine ⟨⟨?_, ?_⟩, historical_nil⟩
      · intro token action hmem
        cases hmem
      · intro event hmem
        cases hmem
    · rintro ⟨s, log⟩ a ⟨s', log'⟩ ⟨hrecorded, hhistory⟩ hfaithful hs
      obtain ⟨hstep, hlog⟩ := Machine.logged_step.mp hs
      obtain rfl := Option.some.inj hstep
      rw [hlog]
      exact ⟨hrecorded.perform a,
        historical_append_singleton.mpr ⟨hhistory, hrecorded.authorised hfaithful⟩⟩
  exact hboth.2

/-- A codec that knows two texts. -/
def sampleCodec : CopilotCodec where
  parseJson text :=
    if text == "plain" then .ok (.object [("asset_id", .string "sht40")])
    else if text == "flagged" then
      .ok (.object [("asset_id", .string "sht40"), ("confirmed", .bool true)])
    else .error "expected value at line 1 column 1"
  printJson _ := "flagged"
  parseDeviceYaml _ := .error "missing field"
  parseCapabilityYaml _ := .error "missing field"

theorem empty_started : ((machine sampleCodec).logged (events sampleCodec)).init (⟨[], 0⟩, []) :=
  ⟨rfl, rfl⟩

/-- A device is deleted, as confirmed after ten seconds. -/
def deletion : List CopilotAction :=
  [.dispatchTool "delete_device_asset" "plain" none 0, .confirmAction 0 (10 * 10 ^ 9)]

/-- The deletion runs the tool, and as confirmed. -/
theorem deletion_as_confirmed : ∃ log : List CopilotEvent,
    (∃ event ∈ log, event.call = some ⟨"delete_device_asset", "flagged", none⟩) ∧
      Historical (Authorised sampleCodec) log := by
  have hrun : (((machine sampleCodec).logged (events sampleCodec)).replay (faithful sampleCodec)
      (⟨[], 0⟩, []) deletion).any fun s => decide
        (∃ event ∈ s.2, event.call = some ⟨"delete_device_asset", "flagged", none⟩) := by decide
  obtain ⟨s, hreach, hend⟩ := Machine.exists_reachesUnder_of_replay empty_started hrun
  exact ⟨s.2, of_decide_eq_true hend, writes_as_confirmed hreach⟩

/-- A call that says itself that it is confirmed deletes the device. -/
def selfConfirmed : CopilotEvent :=
  ⟨.dispatchTool "delete_device_asset" "flagged" none 0,
    .ok (.ran ⟨"delete_device_asset", "flagged", none⟩)⟩

/-- A tool that writes may run although nobody confirmed anything. -/
theorem self_confirmed_writes : ∃ s,
    ((machine sampleCodec).logged (events sampleCodec)).Reaches s ∧
      ¬ Historical (Authorised sampleCodec) s.2 := by
  have hrun : (((machine sampleCodec).logged (events sampleCodec)).replay (fun _ _ => true)
      (⟨[], 0⟩, []) [selfConfirmed.action]).any fun s => decide (s.2 = [selfConfirmed]) := by decide
  obtain ⟨s, hreach, hend⟩ := Machine.exists_reaches_of_replay empty_started hrun
  refine ⟨s, hreach, ?_⟩
  intro hhistory
  rw [of_decide_eq_true hend] at hhistory
  obtain ⟨token, now, -, -, -, hconfirm, -⟩ :=
    hhistory [] selfConfirmed (List.prefix_refl _) _ rfl (by decide)
  cases hconfirm

end Copilot
end Nazh
