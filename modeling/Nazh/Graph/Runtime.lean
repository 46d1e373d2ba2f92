import Nazh.Graph.Accounting
import Nazh.Graph.Dispatch

/-!
# The running deployment

The tasks that touch the data plane are the loops of the nodes (`run_node`), the
calls of the ingress (`submit`, `submit_to` and its blocking form), the calls of a
trigger node's handle (`emit`) and the consumers of the result channel. Each is a
program over the commands of the data plane: its states say where it stands, and
`code` what it asks for next.

The deployment takes one command of one task at a time, in any order. Calls may
come at any time, and any receiver may be dropped at any time.
-/

namespace Nazh

open Lib

/-! ## The loop of a node -/

/-- What `run_node` is given: a node, its receiver and its senders. -/
structure RunNode where
  nodeId : String
  outputPins : List PinDefinition
  inputRx : ℕ
  downstreamSenders : List DownstreamTarget
  resultTx : ℕ

namespace RunNode

/-- Where the loop of a node stands. -/
inductive Pc
  /-- Before `input_rx.recv()`. -/
  | idle
  /-- Before `store.read_mut`. -/
  | received (ref : ContextRef)
  /-- Before the release of the input. -/
  | readDone (ref : ContextRef) (payloadResult : Except EngineError Value)
  /-- In `pull_data_inputs`. -/
  | pulling (traceId : ℕ) (payload : Value)
  /-- In the guarded `transform`. -/
  | transforming (traceId : ℕ) (payload : Value)
  /-- Before `store.write` of an output. -/
  | writing (traceId : ℕ) (output : NodeOutput) (rest : List NodeOutput)
  /-- In the send to the result channel. -/
  | sendResult (ref : ContextRef) (rest : List NodeOutput)
  /-- Before the release of a result nobody takes. -/
  | releaseResult (ref : ContextRef)
  /-- Before the send to `target`; the targets after it are `todo`. -/
  | fanOut (ref : ContextRef) (target : DownstreamTarget) (todo : List DownstreamTarget)
      (rest : List NodeOutput)
  /-- Before the release of the unit of a full channel. -/
  | releaseDropped (ref : ContextRef) (target : DownstreamTarget) (todo : List DownstreamTarget)
      (rest : List NodeOutput)
  /-- Before `is_closed`; `dropped` if the channel was found full. -/
  | checkClosed (ref : ContextRef) (target : DownstreamTarget) (todo : List DownstreamTarget)
      (rest : List NodeOutput) (dropped : Bool)
  /-- Releasing the units from this target on; `more` are left after this one. -/
  | releaseRest (ref : ContextRef) (more : ℕ)
  /-- Out of the loop, `input_rx` about to be dropped. -/
  | leaving
  | done

variable (cfg : RunNode)

/-- The edges of a node an output is pushed along. -/
def targets (dispatch : NodeDispatch) : List DownstreamTarget :=
  matchingTargets dispatch cfg.downstreamSenders (dataOutputPinIds cfg.outputPins)

/-- Whether an output of the node is for its cache alone. -/
def isDataOnly (output : NodeOutput) : Bool :=
  outputIsDataOnly output.dispatch (cfg.targets output.dispatch) (dataOutputPinIds cfg.outputPins)
    (reactiveOutputPinIds cfg.outputPins) (hasNonDataOutputPin cfg.outputPins)

/-- The loop over the outputs of one `transform`. -/
def nextOutput (traceId : ℕ) : List NodeOutput → Pc
  | [] => .idle
  | output :: rest =>
      if cfg.isDataOnly output then nextOutput traceId rest else .writing traceId output rest

/-- The loop over the targets of one output. -/
def nextTarget (ref : ContextRef) (rest : List NodeOutput) : List DownstreamTarget → Pc
  | [] => cfg.nextOutput ref.traceId rest
  | target :: todo => .fanOut ref target todo rest

/-- `count` releases, then out of the loop. -/
def releaseAll (ref : ContextRef) : ℕ → Pc
  | 0 => .leaving
  | more + 1 => .releaseRest ref more

/-- What the loop asks for next. -/
def code : Pc → Option (Cmd Pc)
  | .idle => some <| .recv cfg.inputRx fun
      | some ref => .received ref
      | none => .leaving
  | .received ref => some <| .readMut ref.dataId (.readDone ref)
  | .readDone ref payloadResult => some <| .release ref.dataId <| match payloadResult with
      | .ok payload => .pulling ref.traceId payload
      | .error _ => .idle
  | .pulling traceId payload => some <| .pull payload fun
      | .ok merged => .transforming traceId merged
      | .error _ => .idle
  | .transforming traceId payload => some <| .transform traceId payload fun
      | .ok execution => cfg.nextOutput traceId execution.outputs
      | .error _ => .idle
  | .writing traceId output rest =>
      let targets := cfg.targets output.dispatch
      let consumerCount := if targets.isEmpty then 1 else targets.length
      some <| .write output.payload consumerCount fun result now => match result with
        | .ok dataId =>
            let newRef := ⟨traceId, now, dataId, some cfg.nodeId⟩
            if targets.isEmpty then .sendResult newRef rest
            else cfg.nextTarget newRef rest targets
        | .error _ => .leaving
  | .sendResult ref rest => some <| .send cfg.resultTx ref fun
      | true => cfg.nextOutput ref.traceId rest
      | false => .releaseResult ref
  | .releaseResult ref => some <| .release ref.dataId .leaving
  | .fanOut ref target todo rest => some <| match target.backpressurePolicy with
      | .block => .send target.sender ref fun
          | true => cfg.nextTarget ref rest todo
          | false => .checkClosed ref target todo rest false
      | .dropNewest => .trySend target.sender ref fun
          | .sent => cfg.nextTarget ref rest todo
          | .full => .releaseDropped ref target todo rest
          | .closed => .checkClosed ref target todo rest false
  | .releaseDropped ref target todo rest => some <|
      .release ref.dataId (.checkClosed ref target todo rest true)
  | .checkClosed ref target todo rest _ => some <| .isClosed target.sender fun
      | true => releaseAll ref (todo.length + 1)
      | false => cfg.nextTarget ref rest todo
  | .releaseRest ref more => some <| .release ref.dataId (releaseAll ref more)
  | .leaving => some <| .dropReceiver cfg.inputRx .done
  | .done => none

end RunNode

/-! ## Calls of the ingress -/

/-- The senders of the root nodes. -/
structure WorkflowIngress where
  rootSenders : List (String × ℕ)

namespace Submission

/-- Where a call of the ingress stands. -/
inductive Pc
  /-- Before `store.write`, for the senders `sender :: todo`. -/
  | writing (ctx : WorkflowContext) (sender : ℕ) (todo : List ℕ)
  | sending (ref : ContextRef) (sender : ℕ) (todo : List ℕ)
  | releaseRest (ref : ContextRef) (more : ℕ)
  | returned (result : Except EngineError Unit)

/-- `WorkflowIngress::submit`: to every root node. -/
def submit (ingress : WorkflowIngress) (ctx : WorkflowContext) : Pc :=
  match ingress.rootSenders with
  | [] => .returned (.error (.invalidGraph "已部署的工作流没有任何根节点发送端"))
  | root :: roots => .writing ctx root.2 (roots.map Prod.snd)

/-- `WorkflowIngress::submit_to` and `blocking_submit_to`: to one root node. -/
def submitTo (ingress : WorkflowIngress) (nodeId : String) (ctx : WorkflowContext) : Pc :=
  match ingress.rootSenders.lookup nodeId with
  | none => .returned (.error (.invalidGraph
      s!"根节点发送端 \x60{nodeId}\x60 在已部署的工作流中不可用"))
  | some sender => .writing ctx sender []

/-- The loop over the senders. -/
def nextSender (ref : ContextRef) : List ℕ → Pc
  | [] => .returned (.ok ())
  | sender :: todo => .sending ref sender todo

def releaseAll (ref : ContextRef) : ℕ → Pc
  | 0 => .returned (.error (.channelClosed "workflow-ingress"))
  | more + 1 => .releaseRest ref more

def code : Pc → Option (Cmd Pc)
  | .writing ctx sender todo =>
      some <| .write ctx.payload (todo.length + 1) fun result _ => match result with
        | .ok dataId => .sending ⟨ctx.traceId, ctx.timestamp, dataId, none⟩ sender todo
        | .error e => .returned (.error e)
  | .sending ref sender todo => some <| .send sender ref fun
      | true => nextSender ref todo
      | false => releaseAll ref (todo.length + 1)
  | .releaseRest ref more => some <| .release ref.dataId (releaseAll ref more)
  | .returned _ => none

end Submission

/-! ## Calls of a trigger node's handle -/

/-- An edge out of a trigger node. -/
structure EmitTarget where
  sender : ℕ
  toNode : String
  deriving DecidableEq, Repr

/-- What a trigger node pushes its data with. -/
structure NodeHandle where
  nodeId : String
  downstream : List EmitTarget

namespace Emission

/-- Where a call of `emit` stands. -/
inductive Pc
  | writing (traceId : ℕ) (payload : Value)
  | sending (ref : ContextRef) (target : EmitTarget) (todo : List EmitTarget)
  /-- Before the release of one unit; the targets in `todo` come after it. -/
  | releasing (ref : ContextRef) (todo : List EmitTarget)
  | returned (result : Except EngineError Unit)

/-- The loop over the targets. -/
def nextTarget (ref : ContextRef) : List EmitTarget → Pc
  | [] => .returned (.ok ())
  | target :: todo => .sending ref target todo

def code (handle : NodeHandle) : Pc → Option (Cmd Pc)
  | .writing traceId payload =>
      some <| .write payload (max handle.downstream.length 1) fun result now => match result with
        | .ok dataId =>
            let ctxRef := ⟨traceId, now, dataId, some handle.nodeId⟩
            if handle.downstream.isEmpty then .releasing ctxRef []
            else nextTarget ctxRef handle.downstream
        | .error e => .returned (.error e)
  | .sending ref target todo => some <| .send target.sender ref fun
      | true => nextTarget ref todo
      | false => .releasing ref todo
  | .releasing ref todo => some <| .release ref.dataId (nextTarget ref todo)
  | .returned _ => none

end Emission

/-! ## Consumers of the result channel -/

namespace Collector

/-- Where a consumer of the results stands. -/
inductive Pc
  | idle
  | received (ref : ContextRef)
  | releasing (ref : ContextRef)
  | done

/-- `WorkflowStreams::next_result`, and the loop that forwards results. -/
def code (resultRx : ℕ) : Pc → Option (Cmd Pc)
  | .idle => some <| .recv resultRx fun
      | some ref => .received ref
      | none => .done
  | .received ref => some <| .read ref.dataId fun
      | .ok _ => .releasing ref
      | .error _ => .idle
  | .releasing ref => some <| .release ref.dataId .idle
  | .done => none

end Collector

/-! ## The deployment -/

/-- A task over the data plane. -/
inductive Task
  | node (cfg : RunNode) (pc : RunNode.Pc)
  | submission (pc : Submission.Pc)
  | emission (handle : NodeHandle) (pc : Emission.Pc)
  | collector (resultRx : ℕ) (pc : Collector.Pc)

namespace Task

/-- What a task asks for next. -/
def code : Task → Option (Cmd Task)
  | node cfg pc => (cfg.code pc).map (Cmd.map (node cfg))
  | submission pc => (Submission.code pc).map (Cmd.map submission)
  | emission handle pc => (Emission.code handle pc).map (Cmd.map (emission handle))
  | collector resultRx pc => (Collector.code resultRx pc).map (Cmd.map (collector resultRx))

/-- The tasks a deployment starts with. -/
def IsIdle : Task → Prop
  | node _ pc => pc = .idle
  | collector _ pc => pc = .idle
  | _ => False

end Task

/-- All tasks of a deployment over one data plane. -/
structure Deployment where
  plane : DataPlane
  tasks : List Task
  ingress : WorkflowIngress
  handles : List NodeHandle

/-- What can happen in a deployment. -/
inductive Action
  /-- The task `i` takes its next command. -/
  | run (i : ℕ) (env : Env)
  /-- Somebody calls `submit`. -/
  | submit (ctx : WorkflowContext)
  | submitTo (nodeId : String) (ctx : WorkflowContext)
  /-- A trigger node calls `emit`. -/
  | emit (handle : ℕ) (traceId : ℕ) (payload : Value)
  /-- The receiver of the channel `ch` is dropped. -/
  | dropReceiver (ch : ℕ)

namespace Deployment

/-- A new task at the end of the list. -/
def spawn (s : Deployment) (t : Task) : Deployment := { s with tasks := s.tasks ++ [t] }

/-- One step of the deployment. -/
def step (s : Deployment) : Action → Option Deployment
  | .run i env => do
      let t ← s.tasks[i]?
      let cmd ← t.code
      let (plane, t') ← cmd.exec env s.plane
      return { s with plane, tasks := s.tasks.set i t' }
  | .submit ctx => some (s.spawn (.submission (Submission.submit s.ingress ctx)))
  | .submitTo nodeId ctx => some (s.spawn (.submission (Submission.submitTo s.ingress nodeId ctx)))
  | .emit handle traceId payload => do
      let h ← s.handles[handle]?
      return s.spawn (.emission h (.writing traceId payload))
  | .dropReceiver ch => some { s with plane := s.plane.setChan ch .gone }

/-- The roots of a deployment stay the same ones. -/
theorem ingress_step {s s' : Deployment} {a : Action} (h : s.step a = some s') :
    s'.ingress = s.ingress := by
  cases a with
  | run i env =>
      obtain ⟨t, -, h⟩ := Option.bind_eq_some_iff.mp h
      obtain ⟨cmd, -, h⟩ := Option.bind_eq_some_iff.mp h
      obtain ⟨⟨plane, t'⟩, -, h⟩ := Option.bind_eq_some_iff.mp h
      cases h
      rfl
  | submit ctx =>
      cases h
      rfl
  | submitTo nodeId ctx =>
      cases h
      rfl
  | emit handle traceId payload =>
      obtain ⟨h', -, h⟩ := Option.bind_eq_some_iff.mp h
      cases h
      rfl
  | dropReceiver ch =>
      cases h
      rfl

/-- A deployment before anything was submitted. -/
structure Started (s : Deployment) : Prop where
  store_empty : ∃ capacity, s.plane.store = ArenaDataStore.withCapacity capacity
  queues_empty : ∀ c ∈ s.plane.chans, c.queue = []
  tasks_idle : ∀ t ∈ s.tasks, t.IsIdle

/-- The runs of a deployment. -/
def machine : Machine Deployment Action := ⟨Started, step⟩

end Deployment
end Nazh
