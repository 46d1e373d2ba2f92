import Nazh.Graph.Consumers
import Nazh.Io.HumanLoop

/-!
# What goes on after a shutdown

`shutdown_runtime` aborts the lanes and the forwarders of a deployment and cancels the tokens of
its triggers. Nobody stops the loops of the nodes: each goes on until the senders of its channel
are gone and the channel is empty. A loop that is in a `transform` then still pushes the outputs
on, and a loop whose channel holds a reference still takes it.
-/

namespace Nazh

open Lib

/-! ## What a task may still push -/

namespace RunNode

variable (cfg : RunNode)

/-- The channels of a node's outputs. -/
def outputChannels : List ℕ := cfg.resultTx :: cfg.downstreamSenders.map DownstreamTarget.sender

/-- The channels the loop may still push to before it takes its next reference. -/
def mayPush : Pc → List ℕ
  | .idle | .leaving | .done | .releaseRest _ _ | .releaseResult _ => []
  | .received _ | .readDone _ _ | .pulling _ _ | .transforming _ _ | .writing _ _ _
  | .sendResult _ _ => cfg.outputChannels
  | .fanOut _ target todo _ | .releaseDropped _ target todo _ | .checkClosed _ target todo _ _ =>
      target.sender :: todo.map DownstreamTarget.sender ++ cfg.outputChannels

/-- Whether the loop has taken a reference and not called `transform` yet. -/
def Pc.mayStart : Pc → Bool
  | .received _ | .readDone _ _ | .pulling _ _ => true
  | _ => false

end RunNode

/-- The channels a call of a handle may still push to. -/
def Emission.mayPush (handle : NodeHandle) : Emission.Pc → List ℕ
  | .writing _ _ => handle.downstream.map EmitTarget.sender
  | .sending _ target todo => (target :: todo).map EmitTarget.sender
  | .releasing _ todo => todo.map EmitTarget.sender
  | .returned _ => []

namespace Task

def mayPush : Task → List ℕ
  | node cfg pc => cfg.mayPush pc
  | emission handle pc => Emission.mayPush handle pc
  | submission _ | collector _ _ => []

def mayStart : Task → Bool
  | node _ pc => pc.mayStart
  | _ => false

/-- The tasks that `shutdown_runtime` does not abort. -/
def outlives : Task → Bool
  | node _ _ | emission _ _ => true
  | submission _ | collector _ _ => false

/-- The task has nothing to start, it may push only to channels that are gone, and nothing waits
for it if it is a loop. -/
def isSpent (plane : DataPlane) (t : Task) : Bool :=
  t.outlives && !t.mayStart && t.mayPush.all (fun ch => decide (plane.Gone ch)) &&
    t.loop.all fun cfg => (plane.chans[cfg.inputRx]?).all fun c => c.queue.isEmpty

/-- The receiver that is dropped with the forwarder of the results. -/
def collects : Task → Option ℕ
  | collector resultRx _ => some resultRx
  | _ => none

end Task

namespace Deployment

def isSpent (s : Deployment) : Bool := s.tasks.all (Task.isSpent s.plane)

/-- `shutdown_runtime`: the lanes and the forwarders are aborted. -/
def shutdownRuntime (s : Deployment) : Deployment :=
  { s with
    tasks := s.tasks.filter Task.outlives
    plane := (s.tasks.filterMap Task.collects).foldl (fun plane ch => plane.setChan ch .gone)
      s.plane }

/-- The calls of the ingress, which is with the lanes. -/
def callsIngress : Action → Bool
  | .submit _ | .submitTo _ _ => true
  | .run _ _ | .emit _ _ _ | .dropReceiver _ => false

end Deployment

/-! ## A deployment with its shutdown -/

/-- A deployment, and whether `shutdown_runtime` has returned. -/
structure Undeployment where
  deployment : Deployment
  stopped : Bool

/-- What can happen. -/
inductive UndeployAction
  | task (a : Action)
  | shutdown

namespace Undeployment

/-- One step. After the shutdown nobody can call the ingress. -/
def step (s : Undeployment) : UndeployAction → Option Undeployment
  | .task a => if s.stopped && Deployment.callsIngress a then none
      else (s.deployment.step a).map fun deployment => { s with deployment }
  | .shutdown => if s.stopped then none else some ⟨s.deployment.shutdownRuntime, true⟩

def machine : Machine Undeployment UndeployAction where
  init s := s.deployment.Started ∧ s.stopped = false
  step := step

/-- The nodes whose `transform` is called after the shutdown. -/
def starts (s : Undeployment) (a : UndeployAction) (_ : Undeployment) : List String :=
  match a with
  | .task (.run i (.pulled (.ok _))) => match s.deployment.tasks[i]? with
    | some (.node cfg (.pulling _ _)) => if s.stopped then [cfg.nodeId] else []
    | _ => []
  | _ => []

/-- The shutdown leaves a deployment that is spent, and no trigger outlives its shutdown to call
`emit`. -/
def stopsAll (s : Undeployment) : UndeployAction → Bool
  | .shutdown => s.deployment.shutdownRuntime.isSpent
  | .task (.emit _ _ _) => !s.stopped
  | .task _ => true

end Undeployment

/-! ## Spent tasks -/

namespace RunNode

variable {cfg : RunNode}

theorem mayPush_nextOutput {ch traceId : ℕ} {outputs : List NodeOutput}
    (h : ch ∈ cfg.mayPush (cfg.nextOutput traceId outputs)) : ch ∈ cfg.outputChannels := by
  induction outputs with
  | nil => cases h
  | cons output rest ih =>
      rw [nextOutput] at h
      split at h
      · exact ih h
      · exact h

theorem mayStart_nextOutput (traceId : ℕ) (outputs : List NodeOutput) :
    (cfg.nextOutput traceId outputs).mayStart = false := by
  induction outputs with
  | nil => rfl
  | cons output rest ih =>
      rw [nextOutput]
      split
      · exact ih
      · rfl

theorem mayPush_nextTarget {ch : ℕ} {ref : ContextRef} {rest : List NodeOutput}
    {todo : List DownstreamTarget} (h : ch ∈ cfg.mayPush (cfg.nextTarget ref rest todo)) :
    ch ∈ todo.map DownstreamTarget.sender ++ cfg.outputChannels := by
  cases todo with
  | nil => exact mayPush_nextOutput h
  | cons target todo => exact h

theorem mayStart_nextTarget (ref : ContextRef) (rest : List NodeOutput)
    (todo : List DownstreamTarget) : (cfg.nextTarget ref rest todo).mayStart = false := by
  cases todo with
  | nil => exact mayStart_nextOutput _ _
  | cons target todo => rfl

theorem mayPush_releaseAll (ref : ContextRef) (count : ℕ) :
    cfg.mayPush (releaseAll ref count) = [] := by
  cases count <;> rfl

theorem mayStart_releaseAll (ref : ContextRef) (count : ℕ) :
    (releaseAll ref count).mayStart = false := by
  cases count <;> rfl

/-- What a command of a loop does that has nothing to start, may push only to channels that are
gone, and has an empty channel: it leaves the loop so, and at most drops its receiver. -/
theorem spent_effect {pc pc' : Pc} {c : Cmd Pc} {plane plane' : DataPlane}
    (hcode : cfg.code pc = some c) (h : c.Effect plane plane' pc') (hstart : pc.mayStart = false)
    (hgone : ∀ ch ∈ cfg.mayPush pc, plane.Gone ch)
    (hqueue : ∀ c, plane.chans[cfg.inputRx]? = some c → c.queue = []) :
    pc'.mayStart = false ∧ (∀ ch ∈ cfg.mayPush pc', plane.Gone ch) ∧
      (plane'.chans = plane.chans ∨ plane' = plane.setChan cfg.inputRx .gone) := by
  cases pc with
  | idle =>
      cases hcode
      cases h with
      | received hc hlive hcons =>
          rw [hqueue _ hc] at hcons
          cases hcons
      | hungUp => exact ⟨rfl, List.forall_mem_nil _, .inl rfl⟩
  | received ref => cases hstart
  | readDone ref payloadResult => cases hstart
  | pulling traceId payload => cases hstart
  | transforming traceId payload =>
      cases hcode
      cases h with
      | @transformed _ _ _ r =>
          cases r with
          | ok execution =>
              exact ⟨mayStart_nextOutput _ _, fun ch hch => hgone ch (mayPush_nextOutput hch), .inl rfl⟩
          | error e => exact ⟨rfl, List.forall_mem_nil _, .inl rfl⟩
  | writing traceId output rest =>
      cases hcode
      cases h with
      | wrote hwrite =>
          dsimp only
          split
          · exact ⟨rfl, hgone, .inl rfl⟩
          · refine ⟨mayStart_nextTarget _ _ _, fun ch hch => hgone ch ?_, .inl rfl⟩
            rcases List.mem_append.mp (mayPush_nextTarget hch) with htarget | hout
            · obtain ⟨target, ht, rfl⟩ := List.mem_map.mp htarget
              exact List.mem_cons_of_mem _ (List.mem_map.mpr ⟨target, (List.mem_filter.mp ht).1, rfl⟩)
            · exact hout
      | unwritten => exact ⟨rfl, List.forall_mem_nil _, .inl rfl⟩
  | sendResult ref rest =>
      cases hcode
      have hresult := hgone cfg.resultTx List.mem_cons_self
      cases h with
      | sent hc hlive hq =>
          rw [DataPlane.Gone, hc, Option.some_inj] at hresult
          rw [hresult] at hlive
          cases hlive
      | refused => exact ⟨rfl, List.forall_mem_nil _, .inl rfl⟩
  | fanOut ref target todo rest =>
      have htarget := hgone target.sender List.mem_cons_self
      have hlater : ∀ ch ∈ todo.map DownstreamTarget.sender ++ cfg.outputChannels,
          plane.Gone ch := fun ch hch => hgone ch (List.mem_cons_of_mem _ hch)
      simp only [code, Option.some.injEq] at hcode
      subst hcode
      cases hpolicy : target.backpressurePolicy with
      | block =>
          simp only [hpolicy] at h
          cases h with
          | sent hc hlive hq =>
              rw [DataPlane.Gone, hc, Option.some_inj] at htarget
              rw [htarget] at hlive
              cases hlive
          | refused => exact ⟨rfl, hgone, .inl rfl⟩
      | dropNewest =>
          simp only [hpolicy] at h
          cases h with
          | tried hc hlive hq =>
              rw [DataPlane.Gone, hc, Option.some_inj] at htarget
              rw [htarget] at hlive
              cases hlive
          | full => exact ⟨rfl, hgone, .inl rfl⟩
          | closed => exact ⟨rfl, hgone, .inl rfl⟩
  | releaseDropped ref target todo rest =>
      cases hcode
      cases h
      exact ⟨rfl, hgone, .inl rfl⟩
  | checkClosed ref target todo rest dropped =>
      cases hcode
      cases h with
      | @probed _ _ c hc =>
          cases c.isClosed with
          | true =>
              refine ⟨mayStart_releaseAll _ _, fun ch hch => ?_, .inl rfl⟩
              have hch : ch ∈ cfg.mayPush (releaseAll ref (todo.length + 1)) := hch
              rw [mayPush_releaseAll] at hch
              cases hch
          | false =>
              exact ⟨mayStart_nextTarget _ _ _, fun ch hch =>
                hgone ch (List.mem_cons_of_mem _ (mayPush_nextTarget hch)), .inl rfl⟩
  | releaseResult ref =>
      cases hcode
      cases h
      exact ⟨rfl, hgone, .inl rfl⟩
  | releaseRest ref more =>
      cases hcode
      cases h
      refine ⟨mayStart_releaseAll _ _, fun ch hch => ?_, .inl rfl⟩
      rw [mayPush_releaseAll] at hch
      cases hch
  | leaving =>
      cases hcode
      cases h
      exact ⟨rfl, hgone, .inr rfl⟩
  | done => cases hcode

end RunNode

/-- A call of a handle that may push only to channels that are gone pushes nothing. -/
theorem Emission.spent_effect {handle : NodeHandle} {pc pc' : Emission.Pc} {c : Cmd Emission.Pc}
    {plane plane' : DataPlane} (hcode : code handle pc = some c) (h : c.Effect plane plane' pc')
    (hgone : ∀ ch ∈ mayPush handle pc, plane.Gone ch) :
    (∀ ch ∈ mayPush handle pc', plane.Gone ch) ∧ plane'.chans = plane.chans := by
  have hnext {ref : ContextRef} {todo : List EmitTarget}
      (htodo : ∀ ch ∈ todo.map EmitTarget.sender, plane.Gone ch) :
      ∀ ch ∈ mayPush handle (nextTarget ref todo), plane.Gone ch := by
    cases todo with
    | nil =>
        intro ch hch
        cases hch
    | cons target todo => exact htodo
  cases pc with
  | writing traceId payload =>
      cases hcode
      cases h with
      | wrote hwrite =>
          dsimp only
          split
          · exact ⟨List.forall_mem_nil _, rfl⟩
          · exact ⟨hnext hgone, rfl⟩
      | unwritten => exact ⟨List.forall_mem_nil _, rfl⟩
  | sending ref target todo =>
      cases hcode
      have htarget := hgone target.sender List.mem_cons_self
      have hlater : ∀ ch ∈ todo.map EmitTarget.sender, plane.Gone ch :=
        fun ch hch => hgone ch (List.mem_cons_of_mem _ hch)
      cases h with
      | sent hc hlive hq =>
          rw [DataPlane.Gone, hc, Option.some_inj] at htarget
          rw [htarget] at hlive
          cases hlive
      | refused => exact ⟨hlater, rfl⟩
  | releasing ref todo =>
      cases hcode
      cases h
      exact ⟨hnext hgone, rfl⟩
  | returned result => cases hcode

/-! ## Spent deployments -/

namespace Task

variable {plane plane' : DataPlane} {t t' : Task}

theorem isSpent_iff : t.isSpent plane = true ↔ t.outlives = true ∧ t.mayStart = false ∧
    (∀ ch ∈ t.mayPush, plane.Gone ch) ∧
      ∀ cfg ∈ t.loop, ∀ c, plane.chans[cfg.inputRx]? = some c → c.queue = [] := by
  simp only [isSpent, Bool.and_eq_true, Bool.not_eq_true', List.all_eq_true, decide_eq_true_eq,
    Option.all_eq_true, List.isEmpty_iff, and_assoc]
  rfl

/-- A plane in which no channel has more than before. -/
structure Shrunk (plane plane' : DataPlane) : Prop where
  gone : ∀ ch, plane.Gone ch → plane'.Gone ch
  queue : ∀ (ch : ℕ) (c' : Channel ContextRef), plane'.chans[ch]? = some c' →
    (∀ c, plane.chans[ch]? = some c → c.queue = []) → c'.queue = []

theorem Shrunk.of_chans (h : plane'.chans = plane.chans) : Shrunk plane plane' := by
  refine ⟨fun ch hgone => ?_, fun ch c' hc' hbefore => ?_⟩
  · rw [DataPlane.Gone, h]
    exact hgone
  · rw [h] at hc'
    exact hbefore c' hc'

theorem Shrunk.drop (plane : DataPlane) (rx : ℕ) : Shrunk plane (plane.setChan rx .gone) := by
  refine ⟨fun ch hgone => ?_, fun ch c' hc' hbefore => ?_⟩
  · by_cases hch : ch = rx
    · subst hch
      exact List.getElem?_set_self (List.getElem?_eq_some_iff.mp hgone).1
    · exact (List.getElem?_set_ne (Ne.symm hch)).trans hgone
  · by_cases hch : ch = rx
    · subst hch
      have hlt : ch < plane.chans.length := by
        have hlt := (List.getElem?_eq_some_iff.mp hc').1
        rwa [DataPlane.setChan, List.length_set] at hlt
      cases (List.getElem?_set_self hlt).symm.trans hc'
      rfl
    · exact hbefore c' ((List.getElem?_set_ne (Ne.symm hch)).symm.trans hc')

/-- What holds of a task goes on to hold when the channels shrink. -/
theorem isSpent_mono (h : t.isSpent plane = true) (hplane : Shrunk plane plane') :
    t.isSpent plane' = true := by
  rw [isSpent_iff] at h ⊢
  obtain ⟨houtlives, hstart, hpush, hloop⟩ := h
  exact ⟨houtlives, hstart, fun ch hch => hplane.gone ch (hpush ch hch),
    fun cfg hcfg c hc => hplane.queue _ c hc (hloop cfg hcfg)⟩

/-- A command of a spent task leaves it spent, and the channels shrink. -/
theorem spent_exec {env : Env} {c : Cmd Task} (h : t.isSpent plane = true)
    (hcode : t.code = some c) (hexec : c.exec env plane = some (plane', t')) :
    t'.isSpent plane' = true ∧ Shrunk plane plane' := by
  obtain ⟨houtlives, hstart, hpush, hloop⟩ := isSpent_iff.mp h
  cases t with
  | node cfg pc =>
      obtain ⟨c₀, hc₀, rfl⟩ := Option.map_eq_some_iff.mp hcode
      rw [Cmd.exec_map] at hexec
      obtain ⟨⟨plane₁, pc'⟩, hstep, heq⟩ := Option.map_eq_some_iff.mp hexec
      cases heq
      obtain ⟨hstart', hpush', hchans⟩ := RunNode.spent_effect hc₀ (Cmd.exec_effect hstep) hstart
        hpush (hloop cfg rfl)
      have hplane : Shrunk plane plane₁ := by
        rcases hchans with hsame | hdrop
        · exact .of_chans hsame
        · rw [hdrop]
          exact .drop plane cfg.inputRx
      have hafter : (node cfg pc').isSpent plane = true :=
        isSpent_iff.mpr ⟨rfl, hstart', hpush', hloop⟩
      exact ⟨isSpent_mono hafter hplane, hplane⟩
  | emission handle pc =>
      obtain ⟨c₀, hc₀, rfl⟩ := Option.map_eq_some_iff.mp hcode
      rw [Cmd.exec_map] at hexec
      obtain ⟨⟨plane₁, pc'⟩, hstep, heq⟩ := Option.map_eq_some_iff.mp hexec
      cases heq
      obtain ⟨hpush', hchans⟩ := Emission.spent_effect hc₀ (Cmd.exec_effect hstep) hpush
      have hafter : (emission handle pc').isSpent plane = true :=
        isSpent_iff.mpr ⟨rfl, rfl, hpush', fun cfg hcfg => by cases hcfg⟩
      exact ⟨isSpent_mono hafter (.of_chans hchans), .of_chans hchans⟩
  | submission pc => cases houtlives
  | collector resultRx pc => cases houtlives

end Task

namespace Deployment

variable {s s' : Deployment}

theorem isSpent_run {i : ℕ} {env : Env} (hs : s.isSpent = true)
    (h : s.step (.run i env) = some s') : s'.isSpent = true := by
  rw [isSpent, List.all_eq_true] at hs ⊢
  obtain ⟨t, ht, h⟩ := Option.bind_eq_some_iff.mp h
  obtain ⟨c, hcode, h⟩ := Option.bind_eq_some_iff.mp h
  obtain ⟨⟨plane, t'⟩, hexec, h⟩ := Option.bind_eq_some_iff.mp h
  cases h
  obtain ⟨hspent, hplane⟩ := Task.spent_exec (hs t (List.mem_of_getElem? ht)) hcode hexec
  intro u hu
  rcases List.mem_or_eq_of_mem_set hu with hold | rfl
  · exact Task.isSpent_mono (hs u hold) hplane
  · exact hspent

theorem isSpent_dropReceiver {ch : ℕ} (hs : s.isSpent = true)
    (h : s.step (.dropReceiver ch) = some s') : s'.isSpent = true := by
  rw [isSpent, List.all_eq_true] at hs ⊢
  cases h
  intro u hu
  exact Task.isSpent_mono (hs u hu) (.drop s.plane ch)

/-- The loops of a spent deployment have nothing to start. -/
theorem not_pulling_of_isSpent (hs : s.isSpent = true) {i : ℕ} {cfg : RunNode} {traceId : ℕ}
    {payload : Value} : s.tasks[i]? ≠ some (.node cfg (.pulling traceId payload)) := by
  intro hi
  rw [isSpent, List.all_eq_true] at hs
  obtain ⟨-, hstart, -⟩ := Task.isSpent_iff.mp (hs _ (List.mem_of_getElem? hi))
  cases hstart

end Deployment

/-! ## Every run -/

namespace Undeployment

variable {s s' : Undeployment} {a : UndeployAction}

theorem step_task {b : Action} (h : s.step (.task b) = some s') :
    (s.stopped && Deployment.callsIngress b) = false ∧
      s.deployment.step b = some s'.deployment ∧ s'.stopped = s.stopped := by
  rw [step] at h
  split at h
  · cases h
  · rename_i hcalls
    obtain ⟨deployment, hd, rfl⟩ := Option.map_eq_some_iff.mp h
    exact ⟨Bool.eq_false_iff.mpr hcalls, hd, rfl⟩

/-- A shutdown that leaves a spent deployment, and then no call of a handle, keep it spent. -/
theorem spent_step (hs : s.stopped = true → s.deployment.isSpent = true)
    (hguard : s.stopsAll a = true) (h : s.step a = some s') (hstopped' : s'.stopped = true) :
    s'.deployment.isSpent = true := by
  cases a with
  | shutdown =>
      rw [step] at h
      split at h
      · cases h
      · cases h
        exact hguard
  | task b =>
      obtain ⟨hcalls, hd, hsame⟩ := step_task h
      have hstopped : s.stopped = true := hsame ▸ hstopped'
      rw [hstopped, Bool.true_and] at hcalls
      cases b with
      | run i env => exact Deployment.isSpent_run (hs hstopped) hd
      | submit ctx => cases hcalls
      | submitTo nodeId ctx => cases hcalls
      | emit handle traceId payload =>
          rw [stopsAll, hstopped] at hguard
          cases hguard
      | dropReceiver ch => exact Deployment.isSpent_dropReceiver (hs hstopped) hd

/-- Who is not stopped, or is spent, starts nothing. -/
theorem starts_eq_nil (hs : s.stopped = true → s.deployment.isSpent = true) :
    s.starts a s' = [] := by
  unfold starts
  split
  · split
    · rename_i i payload cfg traceId payload' hi
      split
      · rename_i hstopped
        exact absurd hi (Deployment.not_pulling_of_isSpent (hs hstopped))
      · rfl
    · rfl
  · rfl

/-- In every run in which the shutdown leaves a spent deployment and no trigger calls `emit` after
it, no node calls `transform` after it. -/
theorem undeployed_starts_nothing {t : Undeployment × List String}
    (h : (machine.logged starts).ReachesUnder (fun t a => t.1.stopsAll a = true) t) : t.2 = [] := by
  have hall : t.2 = [] ∧ (t.1.stopped = true → t.1.deployment.isSpent = true) := by
    induction h with
    | start hinit =>
        obtain ⟨⟨-, hrunning⟩, hlog⟩ := hinit
        refine ⟨hlog, fun hstopped => ?_⟩
        rw [hrunning] at hstopped
        cases hstopped
    | next hreach hguard hstep ih =>
        obtain ⟨hs, hlog⟩ := Machine.logged_step.mp hstep
        obtain ⟨hnil, hspent⟩ := ih
        refine ⟨?_, spent_step hspent hguard hs⟩
        rw [hlog, hnil, starts_eq_nil hspent]
        rfl
  exact hall.1

/-- A node `gate` that waits for a human, and behind its port `approve` a node `press`. -/
def gatedPress : Undeployment where
  deployment := {
    plane := ⟨.withCapacity 0, [.live 1 [], .live 1 [], .live 1 []]⟩
    tasks := [
      .node ⟨"gate", [.defaultOutput], 0, [⟨some "approve", 1, "press", .block⟩], 2⟩ .idle,
      .node ⟨"press", [.defaultOutput], 1, [], 2⟩ .idle, .collector 2 .idle]
    ingress := ⟨[("gate", 0)]⟩
    handles := [] }
  stopped := false

theorem gatedPress_init : (machine.logged starts).init (gatedPress, []) :=
  ⟨⟨⟨⟨0, rfl⟩, by decide, by simp [gatedPress, Task.IsIdle]⟩, rfl⟩, rfl⟩

/-- The task `i` takes a command that asks nothing of the environment. -/
def tick (i : ℕ) : UndeployAction := .task (.run i (.tick 0))

/-- A payload comes to `gate`, which waits. -/
def untilWaiting : List UndeployAction :=
  [.task (.submit ⟨1, 0, .null⟩), tick 3, tick 3, tick 0, tick 0, tick 0,
    .task (.run 0 (.pulled (.ok .null)))]

/-- The human answers before the shutdown, and `press` has done its work. -/
theorem answered_starts_nothing : ∃ t,
    (machine.logged starts).ReachesUnder (fun t a => t.1.stopsAll a = true) t ∧
      t.1.stopped = true ∧ t.2 = [] := by
  obtain ⟨t, ht, hstopped⟩ := Machine.exists_reachesUnder_of_replay (p := fun t => t.1.stopped)
    gatedPress_init (show (Machine.replay _ (fun t a => t.1.stopsAll a) (gatedPress, [])
      (untilWaiting ++ [.task (.run 0 (.transformed (.ok
        (NodeExecution.route .null ["approve"])))), tick 0, tick 0, tick 1, tick 1, tick 1,
        .task (.run 1 (.pulled (.ok .null))),
        .task (.run 1 (.transformed (.ok (NodeExecution.broadcast .null)))), tick 1, tick 1,
        .shutdown, .task (.run 0 .hangup), tick 0, .task (.run 1 .hangup), tick 1])).any
      (fun t => t.1.stopped) = true by decide)
  exact ⟨t, ht, hstopped, undeployed_starts_nothing ht⟩

/-- The workflow is undeployed while `gate` waits. Its slot is cleaned up, it takes its default, and
`press` is started. -/
theorem undeployed_starts_press : ∃ t, (machine.logged starts).Reaches t ∧
    (t.1.stopped && t.2 == ["press"]) = true :=
  Machine.exists_reaches_of_replay gatedPress_init (show (Machine.replay _ (fun _ _ => true)
    (gatedPress, []) (untilWaiting ++ [.shutdown,
      .task (.run 0 (.transformed (HumanLoopNode.conclude
        ⟨"gate", ⟨[], none, .autoApprove⟩, "plant"⟩ "0" .null .closed))),
      tick 0, tick 0, tick 1, tick 1, tick 1, .task (.run 1 (.pulled (.ok .null)))])).any
    (fun t => t.1.stopped && t.2 == ["press"]) = true by decide)

end Undeployment

end Nazh
