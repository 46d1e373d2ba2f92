import Nazh.Graph.Runtime
import Nazh.Lib.Lists

/-!
# The lanes of the dispatch router

A caller puts an envelope into the bounded queue of a lane. The task of the lane takes one at a
time and submits it to the roots of the deployment, again and again with a sleep in between, until
that succeeds or no attempt is left; then it writes a dead letter. The two lanes of a router run
the same code and share the deployment only, whose other tasks take their steps as they please.

A submission sends to the roots one after the other. The task can be aborted at each of its
awaits. A dead letter is appended by a blocking task, which is not aborted with it.
-/

namespace Nazh

open Lib

inductive RuntimeBackpressureStrategy
  | block
  | rejectNewest
  deriving DecidableEq, Repr

/-- An envelope, with the number of the call that made it. -/
structure DispatchEnvelope where
  call : ℕ
  ctx : WorkflowContext
  source : String
  targetNodeId : Option String
  attempts : ℕ
  deriving DecidableEq

/-- A line for the file of dead letters. -/
structure DeadLetter where
  envelope : DispatchEnvelope
  reason : String
  deriving DecidableEq

/-- What a lane is made with. -/
structure LanePolicy where
  workflowId : String
  label : String
  strategy : RuntimeBackpressureStrategy
  queueCapacity : ℕ
  maxRetryAttempts : ℕ

/-- Where a call of `enqueue_async` stands. -/
inductive EnqueuePc
  /-- In `tx.send(envelope).await`. -/
  | blocked (envelope : DispatchEnvelope)
  /-- The queue was full, and the dead letter is being written. -/
  | rejecting
  | accepted
  /-- The queue was full, and the dead letter was written or not. -/
  | rejected (recorded : Except String Unit)
  | refused

/-- What a call returned. -/
def EnqueuePc.result (policy : LanePolicy) : EnqueuePc → Option (Except String Unit)
  | accepted => some (.ok ())
  | rejected (.ok ()) => some (.error
      s!"工作流 \x60{policy.workflowId}\x60 的 {policy.label} 调度队列已满，请稍后重试")
  | rejected (.error e) => some (.error e)
  | refused => some (.error
      s!"工作流 \x60{policy.workflowId}\x60 的 {policy.label} 调度通道已关闭")
  | blocked _ | rejecting => none

/-- Where the task of a lane stands. -/
inductive LanePc
  /-- In `rx.recv().await`. -/
  | receiving
  /-- In `ingress.submit`. `reached` if the payload of the envelope has reached a root before. -/
  | submitting (envelope : DispatchEnvelope) (sub : Submission.Pc) (reached : Bool)
  /-- In the sleep before the next attempt. -/
  | sleeping (envelope : DispatchEnvelope) (reached : Bool)
  /-- In `dead_letters.record`. -/
  | recording (envelope : DispatchEnvelope)
  /-- Aborted. -/
  | ended

/-- A lane of the router, its callers and the deployment it submits to. -/
structure DispatchLane where
  policy : LanePolicy
  deployment : Deployment
  queue : List DispatchEnvelope
  pc : LanePc
  calls : List EnqueuePc
  /-- The dead letters that are being appended, and those in the file. -/
  appending : List DeadLetter
  letters : List DeadLetter

/-- What can happen. -/
inductive DispatchAction
  /-- Somebody calls `submit_manual` or `submit_trigger_to`. -/
  | submit (ctx : WorkflowContext) (source : String) (targetNodeId : Option String)
  /-- The send of a blocked call finds room, or the lane gone. -/
  | enter (i : ℕ)
  /-- The task of the lane takes an envelope. -/
  | take
  /-- Its submission takes its next command. -/
  | run (env : Env)
  | wake
  /-- The blocking task `k` ends. -/
  | append (k : ℕ) (result : Except String Unit)
  /-- `shutdown_runtime` aborts the task. -/
  | abort
  /-- The deployment takes a step. -/
  | deployment (a : Action)

namespace DispatchLane

/-- The submission of an attempt. -/
def attempt (s : DispatchLane) (envelope : DispatchEnvelope) : Submission.Pc :=
  match envelope.targetNodeId with
  | some nodeId => Submission.submitTo s.deployment.ingress nodeId envelope.ctx
  | none => Submission.submit s.deployment.ingress envelope.ctx

/-- The loop of the task after a submission came to `sub`. -/
def goOn (s : DispatchLane) (envelope : DispatchEnvelope) (reached : Bool) :
    Submission.Pc → DispatchLane
  | .returned (.ok ()) => { s with pc := .receiving }
  | .returned (.error e) =>
      if envelope.attempts < s.policy.maxRetryAttempts then
        { s with pc := .sleeping { envelope with attempts := envelope.attempts + 1 } reached }
      else { s with
        pc := .recording envelope
        appending := s.appending ++ [⟨envelope, e.message⟩] }
  | sub => { s with pc := .submitting envelope sub reached }

/-- Whether the receiver of the queue is alive. -/
def isOpen (s : DispatchLane) : Bool :=
  match s.pc with
  | .ended => false
  | _ => true

/-- `enqueue_async` up to its first await. -/
def enqueue (s : DispatchLane) (envelope : DispatchEnvelope) : DispatchLane :=
  match s.policy.strategy with
  | .block => { s with calls := s.calls ++ [.blocked envelope] }
  | .rejectNewest =>
      if !s.isOpen then { s with calls := s.calls ++ [.refused] }
      else if s.queue.length < s.policy.queueCapacity then
        { s with calls := s.calls ++ [.accepted], queue := s.queue ++ [envelope] }
      else { s with
        calls := s.calls ++ [.rejecting]
        appending := s.appending ++ [⟨envelope,
          s!"工作流 \x60{s.policy.workflowId}\x60 的 {s.policy.label} 调度队列已满，触发背压拒绝"⟩] }

/-- The send of a blocked call. -/
def enter (s : DispatchLane) (i : ℕ) (envelope : DispatchEnvelope) : Option DispatchLane :=
  if !s.isOpen then some { s with calls := s.calls.set i .refused }
  else if s.queue.length < s.policy.queueCapacity then
    some { s with calls := s.calls.set i .accepted, queue := s.queue ++ [envelope] }
  else none

/-- Who waits for a dead letter goes on. -/
def appended (s : DispatchLane) (letter : DeadLetter) (result : Except String Unit) :
    DispatchLane :=
  match s.calls[letter.envelope.call]? with
  | some .rejecting => { s with calls := s.calls.set letter.envelope.call (.rejected result) }
  | _ => match s.pc with
    | .recording envelope => if envelope.call = letter.envelope.call then
        { s with pc := .receiving } else s
    | _ => s

/-- Whether the next command of a submission hands the payload to a root. -/
def delivers (s : DispatchLane) : Submission.Pc → Bool
  | .sending _ sender _ => !((s.deployment.plane.chans[sender]?).any Channel.isClosed)
  | _ => false

/-- One step. -/
def step (s : DispatchLane) : DispatchAction → Option DispatchLane
  | .submit ctx source targetNodeId =>
      some (s.enqueue ⟨s.calls.length, ctx, source, targetNodeId, 0⟩)
  | .enter i => match s.calls[i]? with
    | some (.blocked envelope) => s.enter i envelope
    | _ => none
  | .take => match s.pc, s.queue with
    | .receiving, envelope :: queue =>
        some ({ s with queue }.goOn envelope false (s.attempt envelope))
    | _, _ => none
  | .run env => match s.pc with
    | .submitting envelope sub reached => do
        let cmd ← Submission.code sub
        let (plane, sub') ← cmd.exec env s.deployment.plane
        return { s with deployment := { s.deployment with plane } }.goOn envelope
          (reached || s.delivers sub) sub'
    | _ => none
  | .wake => match s.pc with
    | .sleeping envelope reached => some (s.goOn envelope reached (s.attempt envelope))
    | _ => none
  | .append k result => (s.appending[k]?).map fun letter =>
      let s := { s with
        appending := s.appending.eraseIdx k
        letters := match result with
          | .ok () => s.letters ++ [letter]
          | .error _ => s.letters }
      s.appended letter result
  | .abort => match s.pc with
    | .receiving | .submitting _ (.sending _ _ _) _ | .sleeping _ _ | .recording _ =>
        some { s with pc := .ended, queue := [] }
    | _ => none
  | .deployment a => (s.deployment.step a).map fun deployment => { s with deployment }

/-- A lane nobody has called. The channels of the roots are different ones. -/
structure Idle (s : DispatchLane) : Prop where
  queue_none : s.queue = []
  pc_receiving : s.pc = .receiving
  calls_none : s.calls = []
  appending_none : s.appending = []
  letters_none : s.letters = []
  senders_nodup : (s.deployment.ingress.rootSenders.map Prod.snd).Nodup

def machine : Machine DispatchLane DispatchAction := ⟨Idle, step⟩

/-! ## What a command of a submission does -/

variable {s s' : DispatchLane} {a : DispatchAction}

def setPlane (s : DispatchLane) (plane : DataPlane) : DispatchLane :=
  { s with deployment := { s.deployment with plane } }

/-- What a command of a submission does, one case for each way it can end. -/
inductive RunEffect (s s' : DispatchLane) : Prop
  /-- The payload is in the store. -/
  | stored {envelope ctx sender todo reached} (plane : DataPlane) (ref : ContextRef) :
      s.pc = .submitting envelope (.writing ctx sender todo) reached →
      s' = (s.setPlane plane).goOn envelope reached (.sending ref sender todo) → RunEffect s s'
  | unstored {envelope ctx sender todo reached} (plane : DataPlane) (e : EngineError) :
      s.pc = .submitting envelope (.writing ctx sender todo) reached →
      s' = (s.setPlane plane).goOn envelope reached (.returned (.error e)) → RunEffect s s'
  /-- A root has the payload. -/
  | sent {envelope ref sender todo reached} (plane : DataPlane) :
      s.pc = .submitting envelope (.sending ref sender todo) reached →
      s.delivers (.sending ref sender todo) = true →
      s' = (s.setPlane plane).goOn envelope true (Submission.nextSender ref todo) → RunEffect s s'
  /-- A root is gone. -/
  | refused {envelope ref sender todo reached} (plane : DataPlane) :
      s.pc = .submitting envelope (.sending ref sender todo) reached →
      s.delivers (.sending ref sender todo) = false →
      s' = (s.setPlane plane).goOn envelope reached (.releaseRest ref todo.length) → RunEffect s s'
  | released {envelope ref more reached} (plane : DataPlane) :
      s.pc = .submitting envelope (.releaseRest ref more) reached →
      s' = (s.setPlane plane).goOn envelope reached (Submission.releaseAll ref more) →
      RunEffect s s'

theorem run_effect {env : Env} (h : s.step (.run env) = some s') : s.RunEffect s' := by
  rw [step] at h
  split at h
  · rename_i envelope sub reached hpc
    obtain ⟨cmd, hcode, h⟩ := Option.bind_eq_some_iff.mp h
    obtain ⟨⟨plane, sub'⟩, hexec, h⟩ := Option.bind_eq_some_iff.mp h
    have heffect := Cmd.exec_effect hexec
    cases h
    cases sub with
    | writing ctx sender todo =>
        cases hcode
        have hnone : s.delivers (.writing ctx sender todo) = false := rfl
        rw [hnone, Bool.or_false]
        cases heffect with
        | wrote hwrite => exact .stored _ _ hpc rfl
        | unwritten => exact .unstored _ _ hpc rfl
    | sending ref sender todo =>
        cases hcode
        cases heffect with
        | sent hchan hopen hqueue =>
            have hdelivers : s.delivers (.sending ref sender todo) = true := by
              rw [delivers, hchan, Option.any_some, hopen]
              rfl
            rw [hdelivers, Bool.or_true]
            exact .sent _ hpc hdelivers rfl
        | refused hgone =>
            have hdelivers : s.delivers (.sending ref sender todo) = false := by
              rw [delivers, hgone, Option.any_some]
              rfl
            rw [hdelivers, Bool.or_false]
            exact .refused _ hpc hdelivers rfl
    | releaseRest ref more =>
        cases hcode
        have hnone : s.delivers (.releaseRest ref more) = false := rfl
        rw [hnone, Bool.or_false]
        cases heffect with
        | released => exact .released _ hpc rfl
    | returned result => cases hcode
  · cases h

/-! ## What a step does -/

/-- After an attempt the task stands elsewhere, and a dead letter may be on its way. -/
theorem goOn_frame (envelope : DispatchEnvelope) (reached : Bool) (sub : Submission.Pc) :
    ∃ pc appending, s.goOn envelope reached sub = { s with pc, appending } := by
  cases sub with
  | returned result =>
      cases result with
      | ok u => exact ⟨_, _, rfl⟩
      | error e =>
          rw [goOn]
          split <;> exact ⟨_, _, rfl⟩
  | _ => exact ⟨_, _, rfl⟩

theorem RunEffect.frame (h : s.RunEffect s') :
    ∃ plane pc appending, s' = { s.setPlane plane with pc, appending } := by
  cases h with
  | stored plane _ _ hs' | unstored plane _ _ hs' | sent plane _ _ hs' | refused plane _ _ hs'
  | released plane _ hs' =>
      obtain ⟨pc, appending, hgoOn⟩ := goOn_frame (s := s.setPlane plane) _ _ _
      exact ⟨plane, pc, appending, hs'.trans hgoOn⟩

/-- Who waits for a dead letter is a call or the task. -/
theorem appended_frame (letter : DeadLetter) (result : Except String Unit) :
    s.appended letter result = s ∨
    (∃ envelope, s.pc = .recording envelope ∧
      s.appended letter result = { s with pc := .receiving }) ∨
    (s.calls[letter.envelope.call]? = some .rejecting ∧ s.appended letter result =
      { s with calls := s.calls.set letter.envelope.call (.rejected result) }) := by
  rw [appended]
  split
  · rename_i hrejecting
    exact .inr (.inr ⟨hrejecting, rfl⟩)
  · split
    · rename_i envelope hpc
      split
      · exact .inr (.inl ⟨envelope, hpc, rfl⟩)
      · exact .inl rfl
    · exact .inl rfl

/-- Where a call comes to, with what it puts into the queue and the dead letters. -/
inductive Called (envelope : DispatchEnvelope) :
    EnqueuePc → List DispatchEnvelope → List DeadLetter → Prop
  | refused : Called envelope .refused [] []
  | blocked : Called envelope (.blocked envelope) [] []
  | accepted : Called envelope .accepted [envelope] []
  | rejecting (reason : String) : Called envelope .rejecting [] [⟨envelope, reason⟩]

/-- What a step does, one case for each action. -/
inductive Turn (s : DispatchLane) : DispatchAction → DispatchLane → Prop
  | called {ctx source targetNodeId pc entered rejected queue appending} :
      Called ⟨s.calls.length, ctx, source, targetNodeId, 0⟩ pc entered rejected →
      queue = s.queue ++ entered → appending = s.appending ++ rejected →
      Turn s (.submit ctx source targetNodeId) { s with calls := s.calls ++ [pc], queue, appending }
  | entered {i envelope pc entered queue} : s.calls[i]? = some (.blocked envelope) →
      Called envelope pc entered [] → (∀ envelope, pc ≠ .blocked envelope) →
      queue = s.queue ++ entered → Turn s (.enter i) { s with calls := s.calls.set i pc, queue }
  | took {envelope queue} : s.pc = .receiving → s.queue = envelope :: queue →
      Turn s .take ({ s with queue }.goOn envelope false (s.attempt envelope))
  | ran {env s'} : s.RunEffect s' → Turn s (.run env) s'
  | woke {envelope reached} : s.pc = .sleeping envelope reached →
      Turn s .wake (s.goOn envelope reached (s.attempt envelope))
  | appended {k result letter letters} : s.appending[k]? = some letter →
      Turn s (.append k result)
        (appended { s with appending := s.appending.eraseIdx k, letters } letter result)
  | aborted : Turn s .abort { s with pc := .ended, queue := [] }
  | deployed {b deployment} : s.deployment.step b = some deployment →
      Turn s (.deployment b) { s with deployment }

theorem step_turn (h : s.step a = some s') : s.Turn a s' := by
  have hnil {α : Type} (xs : List α) : xs = xs ++ [] := (List.append_nil xs).symm
  cases a with
  | submit ctx source targetNodeId =>
      cases h
      rw [enqueue]
      split
      · exact .called .blocked (hnil _) (hnil _)
      · split
        · exact .called .refused (hnil _) (hnil _)
        · split
          · exact .called .accepted rfl (hnil _)
          · exact .called (.rejecting _) (hnil _) rfl
  | enter i =>
      rw [step] at h
      split at h
      · rename_i envelope hi
        rw [enter] at h
        split at h
        · cases h
          exact .entered hi .refused (fun _ => EnqueuePc.noConfusion) (hnil _)
        · split at h
          · cases h
            exact .entered hi .accepted (fun _ => EnqueuePc.noConfusion) rfl
          · cases h
      · cases h
  | take =>
      rw [step] at h
      split at h
      · rename_i envelope queue hpc hqueue
        cases h
        exact .took hpc hqueue
      · cases h
  | run env => exact .ran (run_effect h)
  | wake =>
      rw [step] at h
      split at h
      · rename_i envelope reached hpc
        cases h
        exact .woke hpc
      · cases h
  | append k result =>
      obtain ⟨letter, hk, rfl⟩ := Option.map_eq_some_iff.mp h
      exact .appended hk
  | abort =>
      rw [step] at h
      split at h <;> cases h <;> exact .aborted
  | deployment b =>
      obtain ⟨deployment, hb, rfl⟩ := Option.map_eq_some_iff.mp h
      exact .deployed hb

end DispatchLane

end Nazh
