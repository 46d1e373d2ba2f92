import Nazh.Store.Variables

/-!
# The forwarder of variable events

A deployment sends the events of its variables into a channel. A proxy hands them on into a
second channel, from which the forwarder takes them and stores them one by one. A store operation
runs on its own thread: it goes on when the forwarder that waits for it is aborted.

`shutdown_runtime` aborts the forwarder, and an abort takes effect where the task awaits. The
forwarder of the other events is aborted with it, on which the proxy ends. A redeploy reads the
stored values, deploys, shuts the old deployment down and then starts the new forwarder.
-/

namespace Nazh

open Lib

/-- Where a forwarder stands. -/
inductive ForwarderPc
  | unspawned
  | receiving
  /-- In `upsert_variable` or `delete_variable`. -/
  | storing
  /-- In the history and the audit. -/
  | recording
  | gone
  deriving DecidableEq

/-- The variables of a deployment, and its forwarder. -/
structure DeployedVariables where
  /-- The stored values that the deployment was given. -/
  overrides : AList fun _ : String => Value
  calls : VariableCalls
  proxyGone : Bool
  /-- The event that the proxy hands on. -/
  held : Option WorkflowVariableEvent
  /-- The channel between the proxy and the forwarder. -/
  forwarded : Channel WorkflowVariableEvent
  pc : ForwarderPc
  /-- The event of a store operation under way. -/
  storing : Option WorkflowVariableEvent
  /-- `shutdown_runtime` was called. -/
  stopping : Bool
  /-- The variables when it returned. -/
  returned : Option WorkflowVariables

/-- What can happen to a deployment. -/
inductive ForwardAction
  /-- A call for the variables takes its next step. -/
  | call (a : VariableAction)
  | proxyTake
  | proxySend
  /-- The proxy finds that the receiver of the other events is gone. -/
  | proxyBreak
  | spawn
  | take
  /-- The store operation is done. -/
  | stored
  | recorded
  | shutdown
  /-- The abort takes effect. -/
  | land
  | returned

variable (toRfc3339 : ℤ → String)

namespace DeployedVariables

/-- The proxy ends, and with it its receiver. -/
def breakProxy (d : DeployedVariables) : DeployedVariables :=
  { d with proxyGone := true, held := none, calls := d.calls.withSender .gone }

/-- One step. -/
def step (d : DeployedVariables) : ForwardAction → Option DeployedVariables
  | .call .recv | .call .dropReceiver => none
  | .call a => (d.calls.step toRfc3339 a).map fun calls => { d with calls }
  | .proxyTake =>
      if d.proxyGone || d.held.isSome then none
      else d.calls.sink.sender.recv.map fun taken =>
        { d with calls := d.calls.withSender taken.1, held := some taken.2 }
  | .proxySend => match d.held with
    | none => none
    | some event => match d.forwarded.send event with
      | none => none
      | some (forwarded, true) => some { d with forwarded, held := none }
      | some (_, false) => some d.breakProxy
  | .proxyBreak => if d.stopping && !d.proxyGone then some d.breakProxy else none
  | .spawn => if d.pc = .unspawned then some { d with pc := .receiving } else none
  | .take =>
      if d.pc = .receiving then
        d.forwarded.recv.map fun taken =>
          { d with forwarded := taken.1, storing := some taken.2, pc := .storing }
      else none
  | .stored => match d.storing with
    | none => none
    | some _ =>
        some { d with storing := none, pc := if d.pc = .storing then .recording else d.pc }
  | .recorded => if d.pc = .recording then some { d with pc := .receiving } else none
  | .shutdown => some { d with stopping := true }
  | .land =>
      if d.stopping && (d.pc != .unspawned && d.pc != .gone) then
        some { d with pc := .gone, forwarded := .gone }
      else none
  | .returned =>
      if d.stopping && d.returned.isNone then some { d with returned := some d.calls.vars } else none

end DeployedVariables

/-- A workflow: the declarations of its variables, its id and the room in its channels. -/
structure PersistedWorkflow where
  declarations : Option (AList fun _ : String => VariableDeclaration)
  workflowId : String
  capacity : ℕ

/-- The rows of the workflow in the store, and its deployments, the earliest first. -/
structure PersistedVariables where
  rows : VariableRows
  deployments : List DeployedVariables

/-- What can happen. -/
inductive PersistAction
  /-- A deploy that succeeds reads the stored values and builds the variables. -/
  | deploy (now : ℤ)
  /-- Something happens to the `i`-th deployment. -/
  | act (i : ℕ) (a : ForwardAction)

namespace PersistedVariables

/-- A command begins when the one before it has ended: nothing is deployed, or its forwarder was
started and nobody has called `shutdown_runtime`. -/
def mayDeploy (s : PersistedVariables) : Bool :=
  s.deployments.getLast?.all fun d => d.returned.isSome || (d.pc != .unspawned && !d.stopping)

/-- `undeploy` shuts the newest deployment down, and a redeploy the one before it. Then the
redeploy starts the new forwarder. -/
def inTurn (s : PersistedVariables) (i : ℕ) : ForwardAction → Bool
  | .shutdown => s.deployments[i]?.all fun d => d.pc != .unspawned && !d.stopping
  | .spawn => i + 1 == s.deployments.length &&
      s.deployments.dropLast.all fun d => d.returned.isSome
  | _ => true

/-- What the store does in a step. -/
def rowsAfter (s : PersistedVariables) (d : DeployedVariables) : ForwardAction → VariableRows
  | .stored => match d.storing with
    | none => s.rows
    | some event => s.rows.persist event
  | _ => s.rows

/-- The deployment that is built from the stored values. -/
def deployed (w : PersistedWorkflow) (s : PersistedVariables) (vars : WorkflowVariables)
    (now : ℤ) : DeployedVariables :=
  let overrides := s.rows.loadPersistedVariableOverrides
  { overrides
    calls := .start (vars.restore overrides now) w.workflowId w.capacity
    proxyGone := false
    held := none
    forwarded := .live w.capacity []
    pc := .unspawned
    storing := none
    stopping := false
    returned := none }

/-- One step. -/
def step (w : PersistedWorkflow) (s : PersistedVariables) :
    PersistAction → Option PersistedVariables
  | .deploy now => match buildWorkflowVariables w.declarations now with
    | .error _ => none
    | .ok vars =>
        if s.mayDeploy then
          some { s with deployments := s.deployments ++ [s.deployed w vars now] }
        else none
  | .act i a => match s.deployments[i]? with
    | none => none
    | some d =>
        if s.inTurn i a then
          (d.step toRfc3339 a).map fun d' =>
            { rows := s.rowsAfter d a, deployments := s.deployments.set i d' }
        else none

/-- The store may have any rows; nothing is deployed. -/
def machine (w : PersistedWorkflow) : Machine PersistedVariables PersistAction :=
  ⟨fun s => s.deployments = [], step toRfc3339 w⟩

end PersistedVariables

/-! ## What will be stored -/

/-- What a call will have to report: nothing unless it changes a variable. -/
def VariableCalls.reported (s : VariableCalls) : VariableAction → Option VariableReport
  | .set name value updatedBy now =>
      (s.vars.setLocked toRfc3339 name value updatedBy now).toOption.bind Prod.snd
  | .compareAndSwap name expected new updatedBy now =>
      (Prod.fst <$>
        s.vars.compareAndSwapLocked toRfc3339 name expected new updatedBy now).toOption.bind Prod.snd
  | .remove name => (s.vars.removeLocked name).1.2
  | .resetSet i now => s.resetting[i]?.bind fun call =>
      (s.vars.setLocked toRfc3339 call.1 call.2.1 call.2.2 now).toOption.bind Prod.snd
  | _ => none

namespace DeployedVariables

/-- Whether events get from the variables to the forwarder. -/
def forwards (d : DeployedVariables) : Bool := d.pc != .gone && !d.proxyGone

/-- The events on their way to the second channel, the earliest first. -/
def upstream (d : DeployedVariables) : List WorkflowVariableEvent :=
  d.held.toList ++ d.calls.sink.sender.queue ++ d.calls.emitting.map d.calls.sink.event

/-- The events that the forwarder has or will take. -/
def downstream (d : DeployedVariables) : List WorkflowVariableEvent :=
  d.storing.toList ++ d.forwarded.queue

/-- The events that will still be stored, the earliest first. -/
def pending (d : DeployedVariables) : List WorkflowVariableEvent :=
  d.downstream ++ if d.forwards then d.upstream else []

/-- The values that the next deployment should have. -/
def lastValues (d : DeployedVariables) : WorkflowVariables := d.returned.getD d.calls.vars

/-- Events of a variable are sent in the order of its changes. A variable changes only while its
deployment is the newest one and its events are forwarded, or after `shutdown_runtime` has
returned and none are. The abort finds nothing to store, and the proxy ends with nothing to hand
on. -/
def saves (d : DeployedVariables) (newest : Bool) : ForwardAction → Bool
  | .call a => (!d.forwards || d.calls.emitsInOrder a) &&
      ((d.calls.reported toRfc3339 a).isNone ||
        if d.returned.isSome then !d.forwards else d.forwards && newest)
  | .proxyBreak => d.upstream.isEmpty
  | .land => d.pending.isEmpty
  | _ => true

/-- An event is not sent into a full channel. -/
def findsRoom (d : DeployedVariables) : ForwardAction → Bool
  | .call (.emit _) => match d.calls.sink.sender with
    | .live capacity queue => decide (queue.length < capacity)
    | .gone => true
  | _ => true

end DeployedVariables

namespace PersistedVariables

/-- Every deployment saves its values, and a deploy reads the store when nothing is left to be
stored. -/
def saves (s : PersistedVariables) : PersistAction → Bool
  | .deploy _ => s.deployments.all fun d => d.pending.isEmpty
  | .act i a => s.deployments[i]?.all fun d =>
      d.saves toRfc3339 (i + 1 == s.deployments.length) a

/-- No event is dropped by a full channel. -/
def findsRoom (s : PersistedVariables) : PersistAction → Bool
  | .deploy _ => true
  | .act i a => s.deployments[i]?.all fun d => d.findsRoom a

end PersistedVariables

end Nazh
