import Nazh.Graph.Deploy

/-!
# Who receives what is pushed

A deployment gives every node the senders of the nodes its edges lead to. A sender has a
consumer when its receiver is with a loop that was spawned. Where every sender has one, no
node leaves its loop: an open channel takes what is sent to it, the store has no limit, and
each loop is fed by the ingress or by another loop.

An edge may lead from a reactive output to a data input, and the node of the data input may
be pure-form. Such a node has no loop, and the sender of the edge has no consumer.
-/

namespace Nazh

open Lib

/-! ## Open channels -/

/-- The receiver of the channel `ch` is there. -/
def DataPlane.Open (plane : DataPlane) (ch : ℕ) : Prop :=
  ∃ c, plane.chans[ch]? = some c ∧ c.isClosed = false

namespace DataPlane

variable {plane : DataPlane} {ch : ℕ}

theorem Open.not_gone (h : plane.Open ch) : ¬ plane.Gone ch := by
  intro hgone
  obtain ⟨c, hc, hopen⟩ := h
  rw [Gone, hc, Option.some.injEq] at hgone
  simp [hgone] at hopen

/-- Putting an open channel in the place of another keeps channels open. -/
theorem Open.setChan (h : plane.Open ch) {ch' : ℕ} {c : Channel ContextRef}
    (hc : c.isClosed = false) : (plane.setChan ch' c).Open ch := by
  obtain ⟨c₀, hc₀, hopen⟩ := h
  by_cases hch : ch' = ch
  · subst hch
    obtain ⟨hlt, -⟩ := List.getElem?_eq_some_iff.mp hc₀
    exact ⟨c, by simp [DataPlane.setChan, hlt], hc⟩
  · exact ⟨c₀, by simpa [DataPlane.setChan, List.getElem?_set_ne hch] using hc₀, hopen⟩

end DataPlane

namespace Cmd

variable {κ : Type} {plane plane' : DataPlane} {k : κ} {env : Env}

/-- Whether a command drops a receiver. -/
def isDrop : Cmd κ → Bool
  | dropReceiver _ _ => true
  | _ => false

/-- Only a dropped receiver closes a channel. -/
theorem exec_open {c : Cmd κ} (h : c.exec env plane = some (plane', k)) (hdrop : c.isDrop = false)
    {ch : ℕ} (hopen : plane.Open ch) : plane'.Open ch := by
  cases c with
  | dropReceiver => cases hdrop
  | recv ch' next =>
      cases env <;> simp only [exec, reduceCtorEq] at h
      · split at h <;> cases h
        obtain ⟨c, -, hrecv⟩ := Option.bind_eq_some_iff.mp ‹_›
        exact hopen.setChan (Channel.recv_spec hrecv).2.1
      · split at h <;> cases h
        exact hopen
  | send ch' ref next =>
      cases env <;> simp only [exec, reduceCtorEq] at h
      split at h <;> cases h
      obtain ⟨c, hch, hsend⟩ := Option.bind_eq_some_iff.mp ‹_›
      rcases Channel.send_spec hsend with ⟨-, -, hlive, -⟩ | ⟨-, -, rfl⟩
      · exact hopen.setChan hlive
      · rwa [DataPlane.setChan_self hch]
  | trySend ch' ref next =>
      cases env <;> simp only [exec, reduceCtorEq] at h
      split at h <;> cases h
      obtain ⟨c, hch, hsend⟩ := Option.map_eq_some_iff.mp ‹_›
      rcases Channel.trySend_spec hsend with ⟨-, -, hlive, -⟩ | ⟨-, -, rfl⟩ | ⟨-, -, rfl⟩
      · exact hopen.setChan hlive
      · rwa [DataPlane.setChan_self hch]
      · rwa [DataPlane.setChan_self hch]
  | isClosed ch' next =>
      cases env <;> simp only [exec, reduceCtorEq] at h
      split at h <;> cases h
      exact hopen
  | write payload n next =>
      cases env <;> simp only [exec, reduceCtorEq] at h
      split at h <;> cases h
      · exact hopen
      · exact hopen
  | readMut => cases env <;> cases h; exact hopen
  | read => cases env <;> cases h; exact hopen
  | release => cases env <;> cases h; exact hopen
  | pull => cases env <;> cases h; exact hopen
  | transform => cases env <;> cases h; exact hopen

/-- A command leaves the limit of the store. -/
theorem Effect.capacity {c : Cmd κ} (h : c.Effect plane plane' k) :
    plane'.store.capacity = plane.store.capacity := by
  cases h with
  | wrote hw => exact ArenaDataStore.capacity_write hw
  | released => exact ArenaDataStore.capacity_release _ _
  | _ => rfl

/-- A receive that is not told that all senders are gone gets a reference. -/
theorem exec_recv {ch : ℕ} {next : Option ContextRef → κ} (henv : env ≠ .hangup)
    (h : (recv ch next).exec env plane = some (plane', k)) : ∃ ref, k = next (some ref) := by
  cases env <;> simp only [exec, reduceCtorEq] at h
  · split at h <;> cases h
    exact ⟨_, rfl⟩
  · exact absurd rfl henv

/-- A store without a limit takes every datum. -/
theorem exec_write {payload : Value} {n : ℕ} {next : Except EngineError ℕ → ℤ → κ}
    (hcap : plane.store.capacity = 0)
    (h : (write payload n next).exec env plane = some (plane', k)) :
    ∃ id now, k = next (.ok id) now := by
  cases env <;> simp only [exec, reduceCtorEq] at h
  split at h <;> cases h
  · exact ⟨_, _, rfl⟩
  · rename_i e hw
    simp [ArenaDataStore.write, hcap] at hw

end Cmd

/-! ## In the loop -/

namespace RunNode

variable (cfg : RunNode)

/-- A loop that found no channel closed and goes on; the targets it has yet to send to are
its own. -/
def InLoop : Pc → Prop
  | .fanOut _ target todo _ | .releaseDropped _ target todo _ =>
      ∀ t ∈ target :: todo, t ∈ cfg.downstreamSenders
  | .checkClosed _ target todo _ dropped =>
      dropped = true ∧ ∀ t ∈ target :: todo, t ∈ cfg.downstreamSenders
  | .releaseResult _ | .releaseRest _ _ | .leaving | .done => False
  | .idle | .received _ | .readDone _ _ | .pulling _ _ | .transforming _ _ | .writing _ _ _
  | .sendResult _ _ => True

variable {cfg}

theorem inLoop_nextOutput (traceId : ℕ) (outputs : List NodeOutput) :
    cfg.InLoop (cfg.nextOutput traceId outputs) := by
  induction outputs with
  | nil => trivial
  | cons output rest ih =>
      rw [nextOutput]
      split
      · exact ih
      · trivial

theorem inLoop_nextTarget (ref : ContextRef) (rest : List NodeOutput)
    {targets : List DownstreamTarget} (h : ∀ t ∈ targets, t ∈ cfg.downstreamSenders) :
    cfg.InLoop (cfg.nextTarget ref rest targets) := by
  cases targets with
  | nil => exact inLoop_nextOutput ref.traceId rest
  | cons target todo => exact h

/-- A command that is not a drop: the loop drops its receiver only when it leaves. -/
theorem isDrop_of_inLoop {pc : Pc} {c : Cmd Pc} (hloop : cfg.InLoop pc)
    (hcode : cfg.code pc = some c) : c.isDrop = false := by
  cases pc with
  | fanOut ref target todo rest =>
      simp only [code, Option.some.injEq] at hcode
      subst hcode
      cases target.backpressurePolicy <;> rfl
  | leaving => cases hloop
  | done => cases hloop
  | _ =>
      cases hcode
      rfl

/-- With a store that has no limit, channels that are open and somebody to receive from, a
loop stays in its loop. -/
theorem inLoop_exec {plane plane' : DataPlane} {env : Env} {pc pc' : Pc} {c : Cmd Pc}
    (hcap : plane.store.capacity = 0) (hresult : plane.Open cfg.resultTx)
    (hopen : ∀ t ∈ cfg.downstreamSenders, plane.Open t.sender)
    (hfed : pc = .idle → env ≠ .hangup) (hloop : cfg.InLoop pc) (hcode : cfg.code pc = some c)
    (h : c.exec env plane = some (plane', pc')) : cfg.InLoop pc' := by
  have heffect := Cmd.exec_effect h
  cases pc with
  | idle =>
      cases hcode
      obtain ⟨ref, rfl⟩ := Cmd.exec_recv (hfed rfl) h
      trivial
  | received ref =>
      cases hcode
      cases heffect
      trivial
  | readDone ref payloadResult =>
      cases hcode
      cases heffect
      cases payloadResult <;> trivial
  | pulling traceId payload =>
      cases hcode
      cases heffect with
      | @pulled _ _ r => cases r <;> trivial
  | transforming traceId payload =>
      cases hcode
      cases heffect with
      | @transformed _ _ _ r =>
          cases r with
          | ok execution => exact inLoop_nextOutput traceId execution.outputs
          | error e => trivial
  | writing traceId output rest =>
      cases hcode
      obtain ⟨id, now, rfl⟩ := Cmd.exec_write hcap h
      dsimp only
      split
      · trivial
      · apply inLoop_nextTarget
        intro t ht
        exact (List.mem_filter.mp ht).1
  | sendResult ref rest =>
      cases hcode
      cases heffect with
      | sent => exact inLoop_nextOutput ref.traceId rest
      | refused hgone => exact absurd hgone hresult.not_gone
  | fanOut ref target todo rest =>
      have htarget := hopen target (hloop target List.mem_cons_self)
      have htodo : ∀ t ∈ todo, t ∈ cfg.downstreamSenders :=
        fun t ht => hloop t (List.mem_cons_of_mem _ ht)
      simp only [code, Option.some.injEq] at hcode
      subst hcode
      cases hpolicy : target.backpressurePolicy with
      | block =>
          simp only [hpolicy] at heffect
          cases heffect with
          | sent => exact inLoop_nextTarget ref rest htodo
          | refused hgone => exact absurd hgone htarget.not_gone
      | dropNewest =>
          simp only [hpolicy] at heffect
          cases heffect with
          | tried => exact inLoop_nextTarget ref rest htodo
          | full => exact hloop
          | closed hgone => exact absurd hgone htarget.not_gone
  | releaseDropped ref target todo rest =>
      cases hcode
      cases heffect
      exact ⟨rfl, hloop⟩
  | checkClosed ref target todo rest dropped =>
      cases hcode
      obtain ⟨c, hc, hclosed⟩ := hopen target (hloop.2 target List.mem_cons_self)
      cases heffect with
      | probed hc' =>
          obtain rfl := Option.some.inj (hc.symm.trans hc')
          rw [hclosed]
          exact inLoop_nextTarget ref rest fun t ht => hloop.2 t (List.mem_cons_of_mem _ ht)
  | releaseResult ref => cases hloop
  | releaseRest ref more => cases hloop
  | leaving => cases hloop
  | done => cases hloop

end RunNode

/-! ## The tasks -/

namespace Task

/-- The loop a task is. -/
def loop : Task → Option RunNode
  | node cfg _ => some cfg
  | _ => none

/-- The channel a task waits at. -/
def receives : Task → Option ℕ
  | node cfg .idle => some cfg.inputRx
  | collector resultRx .idle => some resultRx
  | _ => none

variable {plane plane' : DataPlane} {env : Env} {t t' : Task} {c : Cmd Task}

/-- A task takes its commands as the program it is. -/
theorem exec_cases (hcode : t.code = some c) (h : c.exec env plane = some (plane', t')) :
    (∃ cfg pc pc' c₀, t = node cfg pc ∧ t' = node cfg pc' ∧ cfg.code pc = some c₀ ∧
      c₀.exec env plane = some (plane', pc') ∧ c.isDrop = c₀.isDrop) ∨
    (t.loop = none ∧ t'.loop = none ∧ c.isDrop = false) := by
  have hmap : ∀ {κ : Type} (f : κ → Task) (c₀ : Cmd κ),
      (c₀.map f).exec env plane = some (plane', t') →
        (∃ k, t' = f k ∧ c₀.exec env plane = some (plane', k)) ∧
          (c₀.map f).isDrop = c₀.isDrop := by
    intro κ f c₀ hexec
    rw [Cmd.exec_map] at hexec
    obtain ⟨⟨plane₁, k⟩, hk, heq⟩ := Option.map_eq_some_iff.mp hexec
    cases heq
    refine ⟨⟨k, rfl, hk⟩, ?_⟩
    cases c₀ <;> rfl
  cases t with
  | node cfg pc =>
      obtain ⟨c₀, hc₀, rfl⟩ := Option.map_eq_some_iff.mp hcode
      obtain ⟨⟨pc', rfl, hexec⟩, hdrop⟩ := hmap _ _ h
      exact .inl ⟨cfg, pc, pc', c₀, rfl, rfl, hc₀, hexec, hdrop⟩
  | submission pc =>
      obtain ⟨c₀, hc₀, rfl⟩ := Option.map_eq_some_iff.mp hcode
      obtain ⟨⟨pc', rfl, -⟩, hdrop⟩ := hmap _ _ h
      refine .inr ⟨rfl, rfl, hdrop.trans ?_⟩
      cases pc <;> cases hc₀ <;> rfl
  | emission handle pc =>
      obtain ⟨c₀, hc₀, rfl⟩ := Option.map_eq_some_iff.mp hcode
      obtain ⟨⟨pc', rfl, -⟩, hdrop⟩ := hmap _ _ h
      refine .inr ⟨rfl, rfl, hdrop.trans ?_⟩
      cases pc <;> cases hc₀ <;> rfl
  | collector resultRx pc =>
      obtain ⟨c₀, hc₀, rfl⟩ := Option.map_eq_some_iff.mp hcode
      obtain ⟨⟨pc', rfl, -⟩, hdrop⟩ := hmap _ _ h
      refine .inr ⟨rfl, rfl, hdrop.trans ?_⟩
      cases pc <;> cases hc₀ <;> rfl

end Task

namespace Deployment

/-- The loops that were spawned. -/
def loops (s : Deployment) : List RunNode := s.tasks.filterMap Task.loop

/-- A loop has the receiver of the channel `ch`. -/
def HasConsumer (s : Deployment) (ch : ℕ) : Prop := ∃ cfg ∈ s.loops, cfg.inputRx = ch

/-- Every sender a loop or a handle was given has a consumer. -/
structure Consumed (s : Deployment) : Prop where
  downstream : ∀ cfg ∈ s.loops, ∀ t ∈ cfg.downstreamSenders, s.HasConsumer t.sender
  handles : ∀ handle ∈ s.handles, ∀ t ∈ handle.downstream, s.HasConsumer t.sender

/-- The ingress, or a loop that is still there, can send to the channel `ch`. -/
def HasSender (s : Deployment) (ch : ℕ) : Prop :=
  (∃ root ∈ s.ingress.rootSenders, root.2 = ch) ∨
    ∃ cfg pc, Task.node cfg pc ∈ s.tasks ∧ pc ≠ .done ∧
      (cfg.resultTx = ch ∨ ∃ t ∈ cfg.downstreamSenders, t.sender = ch)

/-- Nobody takes a receiver away, and a task is told that all senders are gone only when
they are. -/
def NotShutDown (s : Deployment) : Action → Prop
  | .run i .hangup => ∀ t ∈ s.tasks[i]?, ∀ ch ∈ t.receives, ¬ s.HasSender ch
  | .dropReceiver _ => False
  | _ => True

/-- An action that shuts nothing down. -/
def staysUp : Action → Bool
  | .run _ .hangup | .dropReceiver _ => false
  | _ => true

/-- Every loop is in its loop, what it sends to is open, and somebody can send to it. -/
structure Fed (s : Deployment) : Prop where
  unlimited : s.plane.store.capacity = 0
  inLoop : ∀ cfg pc, Task.node cfg pc ∈ s.tasks → cfg.InLoop pc
  result : ∀ cfg ∈ s.loops, s.plane.Open cfg.resultTx
  downstream : ∀ cfg ∈ s.loops, ∀ t ∈ cfg.downstreamSenders, s.plane.Open t.sender
  senders : ∀ cfg ∈ s.loops, (∃ root ∈ s.ingress.rootSenders, root.2 = cfg.inputRx) ∨
    ∃ cfg' ∈ s.loops, ∃ t ∈ cfg'.downstreamSenders, t.sender = cfg.inputRx

variable {s s' : Deployment} {a : Action}

theorem notShutDown_of_staysUp (h : staysUp a = true) : s.NotShutDown a := by
  cases a with
  | run i env => cases env <;> trivial
  | dropReceiver ch => cases h
  | _ => trivial

theorem mem_loops {cfg : RunNode} : cfg ∈ s.loops ↔ ∃ pc, Task.node cfg pc ∈ s.tasks := by
  rw [loops, List.mem_filterMap]
  constructor
  · rintro ⟨t, ht, hloop⟩
    cases t with
    | node cfg' pc =>
        cases hloop
        exact ⟨pc, ht⟩
    | _ => cases hloop
  · rintro ⟨pc, ht⟩
    exact ⟨_, ht, rfl⟩

/-- A loop that is in its loop has somebody to receive from. -/
theorem Fed.hasSender (h : s.Fed) {cfg : RunNode} (hcfg : cfg ∈ s.loops) :
    s.HasSender cfg.inputRx := by
  rcases h.senders cfg hcfg with hroot | ⟨cfg', hcfg', ht⟩
  · exact .inl hroot
  · obtain ⟨pc, hpc⟩ := mem_loops.mp hcfg'
    refine .inr ⟨cfg', pc, hpc, ?_, .inr ht⟩
    rintro rfl
    exact h.inLoop cfg' .done hpc

/-- What keeps a deployment fed: its loops and its ingress stay, channels stay open. -/
theorem Fed.of_step (h : s.Fed) (hloops : s'.loops = s.loops) (hingress : s'.ingress = s.ingress)
    (hcap : s'.plane.store.capacity = s.plane.store.capacity)
    (hopen : ∀ ch, s.plane.Open ch → s'.plane.Open ch)
    (hinLoop : ∀ cfg pc, Task.node cfg pc ∈ s'.tasks → cfg.InLoop pc) : s'.Fed where
  unlimited := hcap.trans h.unlimited
  inLoop := hinLoop
  result cfg hcfg := hopen _ (h.result cfg (hloops ▸ hcfg))
  downstream cfg hcfg t ht := hopen _ (h.downstream cfg (hloops ▸ hcfg) t ht)
  senders cfg hcfg := by
    rw [hingress, hloops]
    exact h.senders cfg (hloops ▸ hcfg)

/-- A task that goes on stays the loop it is. -/
theorem filterMap_loop_set {tasks : List Task} {i : ℕ} {t t' : Task} (ht : tasks[i]? = some t)
    (h : t'.loop = t.loop) : (tasks.set i t').filterMap Task.loop = tasks.filterMap Task.loop := by
  have hid : ∀ l : List Task, l.filterMap Task.loop = (l.map Task.loop).filterMap id := by
    intro l
    rw [List.filterMap_map, Function.id_comp]
  obtain ⟨hlt, rfl⟩ := List.getElem?_eq_some_iff.mp ht
  have hself : (tasks.map Task.loop).set i tasks[i].loop = tasks.map Task.loop := by
    rw [← List.map_set, List.set_getElem_self]
  rw [hid, hid, List.map_set, h, hself]

/-- A step of a deployment that is not shut down keeps it fed. -/
theorem Fed.step (h : s.Fed) (hguard : s.NotShutDown a) (hstep : s.step a = some s') : s'.Fed := by
  have hspawn : ∀ t : Task, t.loop = none → (s.spawn t).Fed := by
    intro t ht
    refine h.of_step ?_ rfl rfl (fun _ => id) ?_
    · simp [loops, Deployment.spawn, ht]
    · intro cfg pc hmem
      rcases List.mem_append.mp hmem with hmem | hmem
      · exact h.inLoop cfg pc hmem
      · rw [← List.mem_singleton.mp hmem] at ht
        cases ht
  cases a with
  | run i env =>
      obtain ⟨t, ht, hstep⟩ := Option.bind_eq_some_iff.mp hstep
      obtain ⟨c, hcode, hstep⟩ := Option.bind_eq_some_iff.mp hstep
      obtain ⟨⟨plane, t'⟩, hexec, hstep⟩ := Option.bind_eq_some_iff.mp hstep
      cases hstep
      have hmem := List.mem_of_getElem? ht
      have hset : t'.loop = t.loop → (s.tasks.set i t').filterMap Task.loop = s.loops :=
        filterMap_loop_set ht
      rcases Task.exec_cases hcode hexec with
        ⟨cfg, pc, pc', c₀, rfl, rfl, hcode₀, hexec₀, hdrop⟩ | ⟨hloop, hloop', hdrop⟩
      · have hcfg : cfg ∈ s.loops := mem_loops.mpr ⟨pc, hmem⟩
        have hfed : pc = .idle → env ≠ .hangup := by
          rintro rfl rfl
          exact hguard _ ht _ rfl (h.hasSender hcfg)
        have hin := h.inLoop cfg pc hmem
        refine h.of_step (hset rfl) rfl (Cmd.exec_effect hexec).capacity ?_ ?_
        · intro ch
          exact Cmd.exec_open hexec (hdrop.trans (RunNode.isDrop_of_inLoop hin hcode₀))
        · intro cfg₁ pc₁ hmem₁
          rcases List.mem_or_eq_of_mem_set hmem₁ with hold | heq
          · exact h.inLoop cfg₁ pc₁ hold
          · cases heq
            exact RunNode.inLoop_exec h.unlimited (h.result cfg hcfg) (h.downstream cfg hcfg) hfed
              hin hcode₀ hexec₀
      · refine h.of_step (hset (hloop'.trans hloop.symm)) rfl (Cmd.exec_effect hexec).capacity ?_ ?_
        · intro ch
          exact Cmd.exec_open hexec hdrop
        · intro cfg₁ pc₁ hmem₁
          rcases List.mem_or_eq_of_mem_set hmem₁ with hold | heq
          · exact h.inLoop cfg₁ pc₁ hold
          · rw [← heq] at hloop'
            cases hloop'
  | submit ctx =>
      cases hstep
      exact hspawn _ rfl
  | submitTo nodeId ctx =>
      cases hstep
      exact hspawn _ rfl
  | emit handle traceId payload =>
      obtain ⟨hd, -, hstep⟩ := Option.bind_eq_some_iff.mp hstep
      cases hstep
      exact hspawn _ rfl
  | dropReceiver ch => cases hguard

/-- A run from a fed deployment that is not shut down ends in a fed one. -/
theorem Fed.of_reaches (h : s.Fed)
    (hrun : (machine.startingAt s).ReachesUnder NotShutDown s') : s'.Fed := by
  refine hrun.invariant (I := Fed) ?_ ?_
  · rintro _ rfl
    exact h
  · intro s₁ a s₂ hfed hguard hstep
    exact hfed.step hguard hstep

end Deployment

/-! ## Pure-form targets -/

namespace Prepared

variable {p : Prepared} {graph : WorkflowGraph} {env : DeployEnv} {d : Deployment}

/-- No reactive output feeds a pure-form node. -/
def ReactiveTargetsLoop (p : Prepared) (graph : WorkflowGraph) : Prop :=
  ∀ edge ∈ graph.edges, StartsFrom p.nodes edge .reactive → p.isPure edge.target = false

/-- A node with an execution output or a reactive one is not pure-form. -/
theorem isPure_source {edge : WorkflowEdge} {kind : PinKind}
    (h : StartsFrom p.nodes edge kind) (hkind : kind ≠ .data) : p.isPure edge.source = false := by
  obtain ⟨node, hnode, pin, hpin, rfl⟩ := h
  rw [isPure, Option.mem_def.mp hnode, Option.any_some, Bool.eq_false_iff]
  intro hpure
  exact hkind (kind_of_isPureForm hpure pin (.inr (mem_of_findPin hpin).1))

/-- A node with an execution input is not pure-form. -/
theorem Accepted.isPure_target (hacc : p.Accepted graph) {edge : WorkflowEdge}
    (hedge : edge ∈ graph.edges) (h : StartsFrom p.nodes edge .exec) :
    p.isPure edge.target = false := by
  obtain ⟨source, hsource, target, htarget, fromPin, hfrom, toPin, hto, -, hcompatible⟩ :=
    hacc.compatible.joined edge hedge
  rw [← h.unique ⟨source, hsource, fromPin, hfrom, rfl⟩] at hcompatible
  rw [isPure, Option.mem_def.mp htarget, Option.any_some, Bool.eq_false_iff]
  intro hpure
  have hdata := kind_of_isPureForm hpure toPin (.inl (mem_of_findPin hto).1)
  have hexec := PinKind.eq_exec_of_exec hcompatible
  rw [hdata] at hexec
  cases hexec

/-- The edges that push lead to nodes with a loop, if the reactive ones do. -/
theorem Accepted.isPure_of_pushed (hacc : p.Accepted graph) (h : p.ReactiveTargetsLoop graph)
    {nodeId : String} {edge : WorkflowEdge} (hedge : edge ∈ p.topology.downstream nodeId) :
    edge.target ∈ graph.nodes ∧ p.isPure edge.target = false := by
  refine ⟨(hacc.ordered.ends_mem edge ((hacc.ordered.mem_downstream nodeId edge).mp hedge).1).2, ?_⟩
  obtain ⟨⟨hmem, hexec | hreactive⟩, -⟩ := hacc.mem_downstream.mp hedge
  · exact hacc.isPure_target hmem hexec
  · exact h edge hmem hreactive

section Running

variable {s : Spawned} (hs : Spawning p graph p.topology.deploymentOrder s)
  (hacc : p.Accepted graph) {handles : List NodeHandle}
include hs

/-- The loops are those of the nodes that are not pure-form. -/
theorem mem_loops_running {cfg : RunNode} : cfg ∈ (p.running graph handles s).loops ↔
    ∃ nodeId ∈ p.topology.deploymentOrder, LoopOf p graph nodeId cfg ∧
      Task.node cfg .idle ∈ s.tasks := by
  rw [Deployment.mem_loops]
  constructor
  · rintro ⟨pc, hmem⟩
    rcases List.mem_append.mp hmem with hmem | hmem
    · obtain ⟨id, hid, cfg', heq, hloop⟩ := hs.loops _ hmem
      cases heq
      exact ⟨id, hid, hloop, hmem⟩
    · cases List.mem_singleton.mp hmem
  · rintro ⟨nodeId, -, -, hmem⟩
    exact ⟨.idle, List.mem_append_left _ hmem⟩

include hacc

/-- Each of them has its loop. -/
theorem exists_loop (handles : List NodeHandle) {nodeId : String} (hnode : nodeId ∈ graph.nodes)
    (hmixed : p.isPure nodeId = false) :
    ∃ cfg ∈ (p.running graph handles s).loops, LoopOf p graph nodeId cfg := by
  have horder := (hacc.ordered.mem_order nodeId).mpr hnode
  obtain ⟨cfg, hmem, hloop⟩ := hs.spawned nodeId horder hmixed
  exact ⟨cfg, (mem_loops_running hs).mpr ⟨nodeId, horder, hloop, hmem⟩, hloop⟩

/-- A loop has the receiver of a node exactly when the node is not pure-form. -/
theorem hasConsumer_iff {nodeId : String} {ch : ℕ} (hnode : nodeId ∈ graph.nodes)
    (hch : graph.channelOf nodeId = some ch) :
    (p.running graph handles s).HasConsumer ch ↔ p.isPure nodeId = false := by
  constructor
  · rintro ⟨cfg, hcfg, rfl⟩
    obtain ⟨id, -, hloop, -⟩ := (mem_loops_running hs).mp hcfg
    obtain rfl := WorkflowGraph.channelOf_injective hch hloop.input
    exact hloop.mixed
  · intro hmixed
    obtain ⟨cfg, hcfg, hloop⟩ := exists_loop hs hacc handles hnode hmixed
    exact ⟨cfg, hcfg, Option.some.inj (hloop.input.symm.trans hch)⟩

theorem consumed_running :
    (p.running graph (p.topology.deploymentOrder.map (p.handleOf graph)) s).Consumed ↔
      p.ReactiveTargetsLoop graph := by
  constructor
  · intro h edge hedge hreactive
    have hdown : edge ∈ p.topology.downstream edge.source :=
      hacc.mem_downstream.mpr ⟨⟨hedge, .inr hreactive⟩, rfl⟩
    have hends := hacc.ordered.ends_mem edge ((hacc.ordered.mem_downstream _ edge).mp hdown).1
    obtain ⟨ch, hch⟩ := WorkflowGraph.exists_channelOf hends.2
    have hhandle := List.mem_map_of_mem (f := p.handleOf graph)
      ((hacc.ordered.mem_order edge.source).mpr hends.1)
    have htarget : (⟨ch, edge.target⟩ : EmitTarget) ∈ (p.handleOf graph edge.source).downstream :=
      List.mem_filterMap.mpr ⟨edge, hdown, by simp [emitTarget, hch]⟩
    exact (hasConsumer_iff hs hacc hends.2 hch).mp (h.handles _ hhandle _ htarget)
  · intro h
    refine ⟨?_, ?_⟩
    · intro cfg hcfg t ht
      obtain ⟨nodeId, -, hloop, -⟩ := (mem_loops_running hs).mp hcfg
      rw [hloop.downstream] at ht
      obtain ⟨edge, hedge, heq⟩ := List.mem_filterMap.mp ht
      obtain ⟨ch, hch, rfl⟩ := Option.map_eq_some_iff.mp heq
      obtain ⟨hnode, hmixed⟩ := hacc.isPure_of_pushed h hedge
      exact (hasConsumer_iff hs hacc hnode hch).mpr hmixed
    · intro handle hhandle t ht
      obtain ⟨nodeId, -, rfl⟩ := List.mem_map.mp hhandle
      obtain ⟨edge, hedge, heq⟩ := List.mem_filterMap.mp ht
      obtain ⟨ch, hch, rfl⟩ := Option.map_eq_some_iff.mp heq
      obtain ⟨hnode, hmixed⟩ := hacc.isPure_of_pushed h hedge
      exact (hasConsumer_iff hs hacc hnode hch).mpr hmixed

omit hacc in
/-- The channels of nodes with a loop, and the channel of the results, are open. -/
theorem open_running {ch : ℕ} (hlt : ch ≤ graph.resultChannel)
    (hch : ∀ nodeId, graph.channelOf nodeId = some ch → p.isPure nodeId = false) :
    (p.running graph handles s).plane.Open ch := by
  have hget := hs.chans ch fun id _ hpure heq => by
    rw [hch id heq] at hpure
    cases hpure
  have hlen : ch < graph.channels.length := by
    rw [WorkflowGraph.length_channels]
    omega
  rw [List.getElem?_eq_getElem hlen] at hget
  exact ⟨_, hget, (WorkflowGraph.queue_channels (List.getElem_mem hlen)).1⟩

/-- Where no reactive output feeds a pure-form node, the deployment is fed. -/
theorem fed_running (h : p.ReactiveTargetsLoop graph) : (p.running graph handles s).Fed where
  unlimited := rfl
  inLoop cfg pc hmem := by
    rcases List.mem_append.mp hmem with hmem | hmem
    · obtain ⟨id, -, cfg', heq, -⟩ := hs.loops _ hmem
      cases heq
      trivial
    · cases List.mem_singleton.mp hmem
  result cfg hcfg := by
    obtain ⟨nodeId, -, hloop, -⟩ := (mem_loops_running hs).mp hcfg
    rw [hloop.result]
    refine open_running hs (Nat.le_refl _) fun id hid => ?_
    exact absurd (WorkflowGraph.channelOf_lt hid) (Nat.lt_irrefl _)
  downstream cfg hcfg t ht := by
    obtain ⟨nodeId, -, hloop, -⟩ := (mem_loops_running hs).mp hcfg
    rw [hloop.downstream] at ht
    obtain ⟨edge, hedge, heq⟩ := List.mem_filterMap.mp ht
    obtain ⟨ch, hch, rfl⟩ := Option.map_eq_some_iff.mp heq
    obtain ⟨-, hmixed⟩ := hacc.isPure_of_pushed h hedge
    refine open_running hs (Nat.le_of_lt (WorkflowGraph.channelOf_lt hch)) fun id hid => ?_
    rwa [WorkflowGraph.channelOf_injective hid hch]
  senders cfg hcfg := by
    obtain ⟨nodeId, hmem, hloop, -⟩ := (mem_loops_running hs).mp hcfg
    have hnode := (hacc.ordered.mem_order nodeId).mp hmem
    by_cases hroot : nodeId ∈ p.topology.rootNodes
    · refine .inl ⟨(nodeId, cfg.inputRx), List.mem_filterMap.mpr ⟨nodeId, hroot, ?_⟩, rfl⟩
      simp [hs.senders nodeId, hloop.mixed, hloop.input]
    · -- Some edge leads to the node, and its source has a loop that holds the sender.
      obtain ⟨edge, hedge, rfl⟩ :
          ∃ edge ∈ p.classified.pushed, edge.target = nodeId := by
        by_contra hno
        apply hroot
        rw [hacc.ordered.mem_rootNodes]
        exact ⟨hnode, fun edge hedge heq => hno ⟨edge, hedge, heq⟩⟩
      have hdown := (hacc.ordered.mem_downstream edge.source edge).mpr ⟨hedge, rfl⟩
      have hmixed : p.isPure edge.source = false := by
        rcases (hacc.mem_pushed.mp hedge).2 with hexec | hreactive
        · exact isPure_source hexec (by decide)
        · exact isPure_source hreactive (by decide)
      obtain ⟨cfg', hcfg', hloop'⟩ :=
        exists_loop hs hacc handles (hacc.ordered.ends_mem edge hedge).1 hmixed
      refine .inr ⟨cfg', hcfg', ⟨edge.sourcePortId, cfg.inputRx, edge.target,
        edge.backpressurePolicy.getD .block⟩, ?_, rfl⟩
      rw [hloop'.downstream]
      exact List.mem_filterMap.mpr ⟨edge, hdown, by simp [downstreamTarget, hloop.input]⟩

end Running

/-- Every sender has a consumer exactly when no reactive output feeds a pure-form node. -/
theorem Accepted.consumed (hacc : p.Accepted graph) (h : p.deploy env graph = .ok d) :
    d.Consumed ↔ p.ReactiveTargetsLoop graph := by
  obtain ⟨spawned, hs, rfl⟩ := hacc.deploy h
  exact consumed_running hs hacc

/-- In a deployment that is made, every sender has a consumer, and every run that is not shut
down keeps every node in its loop, exactly when no reactive output feeds a pure-form
node. -/
theorem consumed_iff (hprepare : prepare env graph = .ok p) (hdeploy : p.deploy env graph = .ok d) :
    (d.Consumed ∧ ∀ s, (Deployment.machine.startingAt d).ReachesUnder Deployment.NotShutDown s →
      ∀ cfg pc, Task.node cfg pc ∈ s.tasks → cfg.InLoop pc) ↔ p.ReactiveTargetsLoop graph := by
  have hacc := accepted_of_prepare hprepare
  constructor
  · rintro ⟨hconsumed, -⟩
    exact (hacc.consumed hdeploy).mp hconsumed
  · intro h
    refine ⟨(hacc.consumed hdeploy).mpr h, ?_⟩
    obtain ⟨spawned, hs, rfl⟩ := hacc.deploy hdeploy
    intro s hrun cfg pc hmem
    exact ((fed_running hs hacc h).of_reaches hrun).inLoop cfg pc hmem

/-! ## A sensor that feeds a pure-form node -/

/-- A pin that is not required. -/
def pinOf (id : String) (direction : PinDirection) (kind : PinKind) : PinDefinition :=
  { PinDefinition.defaultInput with id, label := id, direction, kind, required := false }

/-- A sensor with a reactive output, a conversion that is pure-form, and a display. -/
def plantNode (definition : WorkflowNodeDefinition) : NodeTrait :=
  if definition.nodeType = "sensor" then
    ⟨definition.id, [.defaultInput], [pinOf "latest" .output .reactive]⟩
  else if definition.nodeType = "c2f" then
    ⟨definition.id, [pinOf "x" .input .data], [pinOf "y" .output .data]⟩
  else ⟨definition.id, [.defaultInput], [.defaultOutput]⟩

/-- A runtime with these nodes. -/
def plantEnv : DeployEnv where
  now := 0
  hasRuntime := true
  create definition := .ok (plantNode definition)
  upsertConnections _ := .ok ()
  onDeploy _ := .ok ()

/-- The sensor and one node its reactive output feeds. -/
def plantGraph (nodeType : String) (port : Option String) : WorkflowGraph where
  connections := []
  nodes := ((∅ : AList fun _ : String => WorkflowNodeDefinition).insert "sensor"
    ⟨"sensor", "sensor", none, .null, none, 4⟩).insert "next" ⟨"next", nodeType, none, .null, none, 4⟩
  edges := [⟨"sensor", "next", some "latest", port, none⟩]
  declarations := none

/-- The sensor feeds the display. -/
def displayGraph : WorkflowGraph := plantGraph "display" none

/-- The sensor feeds the conversion. -/
def convertGraph : WorkflowGraph := plantGraph "c2f" (some "x")

def displayPrepared : Prepared := (prepare plantEnv displayGraph).toOption.get (by decide)
def convertPrepared : Prepared := (prepare plantEnv convertGraph).toOption.get (by decide)

def display : Deployment := (displayPrepared.deploy plantEnv displayGraph).toOption.get (by decide)
def convert : Deployment := (convertPrepared.deploy plantEnv convertGraph).toOption.get (by decide)

/-- The display receives what the sensor pushes. -/
theorem display_consumed : display.Consumed ∧ displayPrepared.ReactiveTargetsLoop displayGraph := by
  have hloop : displayPrepared.ReactiveTargetsLoop displayGraph := by
    intro edge hedge _
    obtain rfl := List.mem_singleton.mp hedge
    decide
  exact ⟨((consumed_iff (eq_ok_of_get _) (eq_ok_of_get _)).mpr hloop).1, hloop⟩

/-- Whether a task leaves its loop. -/
def isLeaving : Task → Bool
  | .node _ .leaving => true
  | _ => false

/-- A payload is submitted to the sensor, and the sensor passes it on. -/
def measure : List Action :=
  [.submit ⟨1, 0, .null⟩, .run 2 (.tick 0), .run 2 (.tick 0)] ++
    List.replicate 3 (.run 0 (.tick 0)) ++
    [.run 0 (.pulled (.ok .null)), .run 0 (.transformed (.ok (NodeExecution.broadcast .null)))] ++
    List.replicate 4 (.run 0 (.tick 0))

/-- No loop receives what the sensor pushes to the conversion, and the sensor leaves its loop
when it does. -/
theorem convert_unconsumed : prepare plantEnv convertGraph = .ok convertPrepared ∧
    convertPrepared.deploy plantEnv convertGraph = .ok convert ∧ ¬ convert.Consumed ∧
    ∃ s, (Deployment.machine.startingAt convert).ReachesUnder Deployment.NotShutDown s ∧
      ∃ cfg, Task.node cfg .leaving ∈ s.tasks := by
  refine ⟨eq_ok_of_get _, eq_ok_of_get _, ?_, ?_⟩
  · intro h
    have hloop := ((accepted_of_prepare (eq_ok_of_get _)).consumed (eq_ok_of_get _)).mp h
    have hpure := hloop ⟨"sensor", "next", some "latest", some "x", none⟩ (by decide)
      ⟨plantNode ⟨"sensor", "sensor", none, .null, none, 4⟩, by decide, pinOf "latest" .output .reactive,
        by decide, rfl⟩
    exact absurd hpure (by decide)
  · have hrun : (Deployment.machine.startingAt convert).replay (fun _ a => Deployment.staysUp a) convert
        measure |>.any fun s : Deployment => s.tasks.any isLeaving := by decide
    obtain ⟨s, hreach, hend⟩ := Machine.exists_reachesUnder_of_replay rfl hrun
    refine ⟨s, hreach.mono fun s a => Deployment.notShutDown_of_staysUp, ?_⟩
    obtain ⟨t, ht, hleaving⟩ := List.any_eq_true.mp hend
    cases t with
    | node cfg pc =>
        cases pc with
        | leaving => exact ⟨cfg, ht⟩
        | _ => cases hleaving
    | _ => cases hleaving

end Prepared
end Nazh
