import Nazh.Graph.Owed

/-!
# References and the data they name

The ledger of a deployment sets the units of the store against the references in
queues and what the tasks owe. One step can break it in two ways, and no other:

* a node finds a `DropNewest` channel full, releases the unit of that target, and
  then finds the channel closed, so that it releases the unit again (`rechecksDropped`);
* a receiver is dropped while its queue still holds references (`dropsQueue`), which
  a node does to its own queue when a send failed and it leaves its loop.

In runs without the first, every reference in a queue or in a task's hands names a
datum of the store. In runs without the second, a datum that nobody refers to is
gone. In runs with neither, the units of a datum are exactly the references to it.
-/

namespace Nazh

open Lib

/-! ## Checks after a failed send -/

namespace RunNode

variable {cfg : RunNode}

theorem checking_nextOutput (traceId : ℕ) (outputs : List NodeOutput) :
    (cfg.nextOutput traceId outputs).checking = none := by
  induction outputs with
  | nil => rfl
  | cons output rest ih =>
      rw [nextOutput]
      split
      · exact ih
      · rfl

theorem checking_nextTarget (ref : ContextRef) (rest : List NodeOutput)
    (targets : List DownstreamTarget) : (cfg.nextTarget ref rest targets).checking = none := by
  cases targets with
  | nil => exact checking_nextOutput _ _
  | cons target todo => rfl

theorem checking_releaseAll (ref : ContextRef) (count : ℕ) :
    (releaseAll ref count).checking = none := by
  cases count <;> rfl

/-- A node checks a channel that was not full only when its receiver is gone. -/
theorem gone_of_checking {plane plane' : DataPlane} {pc pc' : Pc} {c : Cmd Pc} {ch : ℕ}
    (hcode : cfg.code pc = some c) (h : c.Effect plane plane' pc')
    (hch : pc'.checking = some (false, ch)) : plane.Gone ch := by
  cases pc with
  | idle =>
      cases hcode
      cases h <;> simp [Pc.checking] at hch
  | received ref =>
      cases hcode
      cases h
      simp [Pc.checking] at hch
  | readDone ref payloadResult =>
      cases hcode
      cases h
      cases payloadResult <;> simp [Pc.checking] at hch
  | pulling traceId payload =>
      cases hcode
      cases h with
      | @pulled _ _ r => cases r <;> simp [Pc.checking] at hch
  | transforming traceId payload =>
      cases hcode
      cases h with
      | @transformed _ _ _ r =>
          cases r with
          | ok execution => simp [checking_nextOutput] at hch
          | error e => simp [Pc.checking] at hch
  | writing traceId output rest =>
      cases hcode
      cases h with
      | wrote hw =>
          dsimp only at hch
          split at hch
          · simp [Pc.checking] at hch
          · simp [checking_nextTarget] at hch
      | unwritten => simp [Pc.checking] at hch
  | sendResult ref rest =>
      cases hcode
      cases h with
      | sent => simp [checking_nextOutput] at hch
      | refused => simp [Pc.checking] at hch
  | releaseResult ref =>
      cases hcode
      cases h
      simp [Pc.checking] at hch
  | fanOut ref target todo rest =>
      simp only [code, Option.some.injEq] at hcode
      subst hcode
      cases hpolicy : target.backpressurePolicy with
      | block =>
          simp only [hpolicy] at h
          cases h with
          | sent => simp [checking_nextTarget] at hch
          | refused hgone =>
              simp only [Pc.checking, Option.some.injEq, Prod.mk.injEq, true_and] at hch
              exact hch ▸ hgone
      | dropNewest =>
          simp only [hpolicy] at h
          cases h with
          | tried => simp [checking_nextTarget] at hch
          | full => simp [Pc.checking] at hch
          | closed hgone =>
              simp only [Pc.checking, Option.some.injEq, Prod.mk.injEq, true_and] at hch
              exact hch ▸ hgone
  | releaseDropped ref target todo rest =>
      cases hcode
      cases h
      simp [Pc.checking] at hch
  | checkClosed ref target todo rest dropped =>
      cases hcode
      cases h with
      | @probed _ _ c hc =>
          cases hclosed : c.isClosed <;>
            simp [hclosed, checking_releaseAll, checking_nextTarget] at hch
  | releaseRest ref more =>
      cases hcode
      cases h
      simp [checking_releaseAll] at hch
  | leaving =>
      cases hcode
      cases h
      simp [Pc.checking] at hch
  | done => cases hcode

end RunNode

/-- The same for any task. -/
theorem Task.gone_of_checking {plane plane' : DataPlane} {t t' : Task} {c : Cmd Task} {ch : ℕ}
    (hcode : t.code = some c) (h : c.Effect plane plane' t')
    (hch : t'.checking = some (false, ch)) : plane.Gone ch := by
  cases t with
  | node cfg pc =>
      obtain ⟨c, hc, rfl⟩ := Option.map_eq_some_iff.mp hcode
      obtain ⟨pc', rfl, heff⟩ := Cmd.effect_of_map h
      exact RunNode.gone_of_checking hc heff hch
  | submission pc =>
      obtain ⟨c, hc, rfl⟩ := Option.map_eq_some_iff.mp hcode
      obtain ⟨pc', rfl, -⟩ := Cmd.effect_of_map h
      cases hch
  | emission handle pc =>
      obtain ⟨c, hc, rfl⟩ := Option.map_eq_some_iff.mp hcode
      obtain ⟨pc', rfl, -⟩ := Cmd.effect_of_map h
      cases hch
  | collector resultRx pc =>
      obtain ⟨c, hc, rfl⟩ := Option.map_eq_some_iff.mp hcode
      obtain ⟨pc', rfl, -⟩ := Cmd.effect_of_map h
      cases hch

namespace Deployment

/-! ## Steps -/

/-- What a step of a deployment does: a task takes a command, a call arrives, or a
receiver is dropped. -/
theorem step_cases {s s' : Deployment} {a : Action} (h : s.step a = some s') :
    (∃ i env t c t', a = .run i env ∧ s.tasks[i]? = some t ∧ t.code = some c ∧
      c.Effect s.plane s'.plane t' ∧ s'.tasks = s.tasks.set i t') ∨
    (∃ t : Task, (∀ i env, a ≠ .run i env) ∧ s'.plane = s.plane ∧ s'.tasks = s.tasks ++ [t] ∧
      t.ref = none ∧ t.checking = none) ∨
    ∃ ch, a = .dropReceiver ch ∧ s'.plane = s.plane.setChan ch .gone ∧ s'.tasks = s.tasks := by
  cases a with
  | run i env =>
      obtain ⟨t, ht, h⟩ := Option.bind_eq_some_iff.mp h
      obtain ⟨c, hc, h⟩ := Option.bind_eq_some_iff.mp h
      obtain ⟨⟨plane, t'⟩, hexec, h⟩ := Option.bind_eq_some_iff.mp h
      cases h
      exact .inl ⟨i, env, t, c, t', rfl, ht, hc, Cmd.exec_effect hexec, rfl⟩
  | submit ctx =>
      cases h
      refine .inr (.inl ⟨_, fun _ _ => Action.noConfusion, rfl, rfl, ?_, rfl⟩)
      simp only [Task.ref, Submission.submit]
      split <;> rfl
  | submitTo nodeId ctx =>
      cases h
      refine .inr (.inl ⟨_, fun _ _ => Action.noConfusion, rfl, rfl, ?_, rfl⟩)
      simp only [Task.ref, Submission.submitTo]
      split <;> rfl
  | emit handle traceId payload =>
      obtain ⟨h', hh, h⟩ := Option.bind_eq_some_iff.mp h
      cases h
      exact .inr (.inl ⟨_, fun _ _ => Action.noConfusion, rfl, rfl, rfl, rfl⟩)
  | dropReceiver ch =>
      cases h
      exact .inr (.inr ⟨ch, rfl, rfl, rfl⟩)

/-- A node releases the unit of a full channel and then finds the channel closed. -/
def rechecksDropped (s : Deployment) : Action → Bool
  | .run i _ => match (s.tasks[i]?).bind Task.checking with
    | some (true, ch) => decide (s.plane.Gone ch)
    | _ => false
  | _ => false

/-- A receiver is dropped while its queue still holds references. -/
def dropsQueue (s : Deployment) : Action → Bool
  | .run i _ => match (s.tasks[i]?).bind Task.code with
    | some c => c.discards s.plane
    | none => false
  | .dropReceiver ch => s.plane.holdsRefs ch
  | _ => false

/-- The units all tasks have yet to hand on or release. -/
def owed (s : Deployment) (d : ℕ) : ℕ := tally (fun t => t.owed d) s.tasks

/-- The references to a datum that were not released: in queues and with tasks. -/
def outstanding (s : Deployment) (d : ℕ) : ℕ := s.plane.queued d + s.owed d

/-- The units of the store against the outstanding references. -/
def ledger (s : Deployment) : Ledger ℕ := s.plane.ledger s.owed

/-! ## The invariant of every run -/

/-- References name data that were written, and a node that checks a channel after a
refused send finds it gone. -/
structure WellFormed (s : Deployment) : Prop where
  queues_known : s.plane.Known
  tasks_known : ∀ t ∈ s.tasks, ∀ r ∈ t.ref, r.dataId < s.plane.store.nextId
  checks_gone : ∀ t ∈ s.tasks, ∀ ch, t.checking = some (false, ch) → s.plane.Gone ch

theorem wellFormed_started {s : Deployment} (h : s.Started) : s.WellFormed where
  queues_known c hc r hr := by simp [h.queues_empty c hc] at hr
  tasks_known t ht r hr := by
    have := h.tasks_idle t ht
    cases t <;> simp_all [Task.IsIdle, Task.ref, RunNode.Pc.ref, Collector.Pc.ref]
  checks_gone t ht ch hch := by
    have := h.tasks_idle t ht
    cases t <;> simp_all [Task.IsIdle, Task.checking, RunNode.Pc.checking]

theorem wellFormed_step {s s' : Deployment} {a : Action} (hs : s.WellFormed)
    (h : s.step a = some s') : s'.WellFormed := by
  rcases step_cases h with ⟨i, env, t, c, t', -, ht, hc, heff, htasks⟩ |
    ⟨t, -, hplane, htasks, href, hcheck⟩ | ⟨ch, -, hplane, htasks⟩
  · have hmem := List.mem_of_getElem? ht
    obtain ⟨hknown, hknown'⟩ := Cmd.known_of_carries (Task.carries_code hc) hs.queues_known
      (hs.tasks_known t hmem) heff
    refine ⟨hknown, ?_, ?_⟩
    · intro u hu r hr
      rw [htasks] at hu
      rcases List.mem_or_eq_of_mem_set hu with hu | rfl
      · exact Nat.lt_of_lt_of_le (hs.tasks_known u hu r hr) heff.nextId_le
      · exact hknown' r hr
    · intro u hu ch hch
      rw [htasks] at hu
      rcases List.mem_or_eq_of_mem_set hu with hu | rfl
      · exact heff.gone (hs.checks_gone u hu ch hch)
      · exact heff.gone (Task.gone_of_checking hc heff hch)
  · refine ⟨hplane ▸ hs.queues_known, ?_, ?_⟩
    · intro u hu r hr
      rw [htasks, List.mem_append, List.mem_singleton] at hu
      rcases hu with hu | rfl
      · exact hplane ▸ hs.tasks_known u hu r hr
      · simp [href] at hr
    · intro u hu ch hch
      rw [htasks, List.mem_append, List.mem_singleton] at hu
      rcases hu with hu | rfl
      · exact hplane ▸ hs.checks_gone u hu ch hch
      · simp [hcheck] at hch
  · have heff : (Cmd.dropReceiver ch ()).Effect s.plane s'.plane () := hplane ▸ .dropped
    refine ⟨?_, ?_, ?_⟩
    · rw [hplane]
      exact hs.queues_known.setChan (by simp)
    · intro u hu r hr
      rw [hplane]
      exact hs.tasks_known u (htasks ▸ hu) r hr
    · intro u hu ch' hch
      exact heff.gone (hs.checks_gone u (htasks ▸ hu) ch' hch)

/-- Every reached deployment is well formed. -/
theorem wellFormed_of_reaches {G : Deployment → Action → Prop} {s : Deployment}
    (h : machine.ReachesUnder G s) : s.WellFormed :=
  h.invariant (fun _ => wellFormed_started) fun _ _ _ hs _ hstep => wellFormed_step hs hstep

/-- A datum yet to be written has no references. -/
theorem outstanding_eq_zero {s : Deployment} (hs : s.WellFormed) {d : ℕ}
    (hd : s.plane.store.nextId ≤ d) : s.outstanding d = 0 := by
  have hqueued : ¬ 0 < s.plane.queued d := fun h => by
    obtain ⟨c, hc, r, hr, rfl⟩ := DataPlane.exists_of_queued_pos h
    have := hs.queues_known c hc r hr
    omega
  have howed : s.owed d = 0 := by
    apply (tally_eq_zero_iff _).mpr
    intro t ht
    by_contra hne
    obtain ⟨r, hr, rfl⟩ := Task.ref_of_owed_pos (Nat.pos_of_ne_zero hne)
    have := hs.tasks_known t ht r hr
    omega
  simp only [outstanding]
  omega

/-! ## Moves of the ledger -/

/-- The rest of the tasks owes the same before and after a step of one of them. -/
theorem exists_rest {s s' : Deployment} {i : ℕ} {t : Task} (t' : Task)
    (ht : s.tasks[i]? = some t) (htasks : s'.tasks = s.tasks.set i t') :
    ∃ rest : ℕ → ℕ, s.owed = (fun d => t.owed d + rest d) ∧
      s'.owed = fun d => t'.owed d + rest d := by
  refine ⟨fun d => s.owed d - t.owed d, funext ?_, funext ?_⟩
  · intro d
    have := le_tally (fun t : Task => t.owed d) (List.mem_of_getElem? ht)
    simp only [owed]
    omega
  · intro d
    have := le_tally (fun t : Task => t.owed d) (List.mem_of_getElem? ht)
    have hset := tally_set (fun t : Task => t.owed d) t' ht
    simp only [owed, htasks]
    omega

/-- A new call owes nothing. -/
theorem ledger_spawn {s s' : Deployment} {t : Task} (hplane : s'.plane = s.plane)
    (htasks : s'.tasks = s.tasks ++ [t]) (href : t.ref = none) : s'.ledger = s.ledger := by
  have howed : ∀ d, t.owed d = 0 := fun d => by
    by_contra hne
    obtain ⟨r, hr, -⟩ := Task.ref_of_owed_pos (Nat.pos_of_ne_zero hne)
    simp [href] at hr
  have : s'.owed = s.owed := funext fun d => by simp [owed, htasks, howed]
  rw [ledger, ledger, hplane, this]

variable {s s' : Deployment} {a : Action}

/-- A command of a task is balanced, unless it checks a full channel that is gone. -/
theorem balanced_of_step {i : ℕ} {env : Env} {t : Task} {c : Cmd Task} (hs : s.WellFormed)
    (ht : s.tasks[i]? = some t) (hc : t.code = some c)
    (hrecheck : s.rechecksDropped (.run i env) = false) :
    c.Balanced s.plane Task.owed t.owed := by
  apply Task.balanced_code hc
  intro dropped ch hch
  cases dropped with
  | true => simpa [rechecksDropped, ht, hch] using hrecheck
  | false => simpa using hs.checks_gone t (List.mem_of_getElem? ht) ch hch

/-- Away from the two exceptions a step is an honest move. -/
theorem ledger_honest (hs : s.WellFormed) (h : s.step a = some s')
    (hrecheck : s.rechecksDropped a = false) (hdrop : s.dropsQueue a = false) :
    Ledger.Honest s.ledger s'.ledger := by
  rcases step_cases h with ⟨i, env, t, c, t', rfl, ht, hc, heff, htasks⟩ |
    ⟨t, -, hplane, htasks, href, -⟩ | ⟨ch, rfl, hplane, htasks⟩
  · obtain ⟨rest, howed, howed'⟩ := exists_rest t' ht htasks
    have hbal := balanced_of_step hs ht hc hrecheck
    have hfresh : ∀ d, s.plane.store.nextId ≤ d → s.plane.queued d + (t.owed d + rest d) = 0 :=
      fun d hd => by simpa [outstanding, howed] using outstanding_eq_zero hs hd
    rw [ledger, ledger, howed, howed']
    exact Cmd.honest_of_balanced hbal (by simpa [dropsQueue, ht, hc] using hdrop) hfresh heff
  · exact ledger_spawn hplane htasks href ▸ .keep
  · have howed : s'.owed = fun d => 0 + s.owed d := by simp [funext_iff, owed, htasks]
    have hbal : (Cmd.dropReceiver ch ()).Balanced s.plane (fun _ _ => 0) fun _ => 0 := rfl
    have heff : (Cmd.dropReceiver ch ()).Effect s.plane s'.plane () := hplane ▸ .dropped
    have hfresh : ∀ d, s.plane.store.nextId ≤ d → s.plane.queued d + (0 + s.owed d) = 0 :=
      fun d hd => by simpa [outstanding] using outstanding_eq_zero hs hd
    rw [ledger, ledger, howed]
    simpa using Cmd.honest_of_balanced hbal hdrop hfresh heff

/-- Dropping a queue sheds the references in it. -/
theorem ledger_shed (hs : s.WellFormed) (h : s.step a = some s')
    (hrecheck : s.rechecksDropped a = false) (hdrop : s.dropsQueue a = true) :
    Ledger.Shed s.ledger s'.ledger := by
  rcases step_cases h with ⟨i, env, t, c, t', rfl, ht, hc, heff, htasks⟩ |
    ⟨t, -, hplane, htasks, href, -⟩ | ⟨ch, rfl, hplane, htasks⟩
  · obtain ⟨rest, howed, howed'⟩ := exists_rest t' ht htasks
    have hbal := balanced_of_step hs ht hc hrecheck
    rw [ledger, ledger, howed, howed']
    exact Cmd.shed_of_discards hbal (by simpa [dropsQueue, ht, hc] using hdrop) heff
  · rw [ledger_spawn hplane htasks href]
    exact ⟨rfl, fun _ => Nat.le_refl _⟩
  · have howed : s'.owed = fun d => 0 + s.owed d := by simp [funext_iff, owed, htasks]
    have hbal : (Cmd.dropReceiver ch ()).Balanced s.plane (fun _ _ => 0) fun _ => 0 := rfl
    have heff : (Cmd.dropReceiver ch ()).Effect s.plane s'.plane () := hplane ▸ .dropped
    have hshed : Ledger.Shed (s.plane.ledger fun d => 0 + s.owed d)
        (s'.plane.ledger fun d => 0 + s.owed d) := Cmd.shed_of_discards hbal hdrop heff
    rw [ledger, ledger, howed]
    simpa using hshed

/-- What a check of a full channel does when the channel is gone. -/
theorem forge_of_checking {plane plane' : DataPlane} {t t' : Task} {c : Cmd Task} {ch : ℕ}
    (hcode : t.code = some c) (h : c.Effect plane plane' t')
    (hch : t.checking = some (true, ch)) (hgone : plane.Gone ch) :
    plane' = plane ∧ ∃ id, ∀ d, t'.owed d = t.owed d + if d = id then 1 else 0 := by
  cases t with
  | node cfg pc =>
      obtain ⟨c, hc, rfl⟩ := Option.map_eq_some_iff.mp hcode
      obtain ⟨pc', rfl, heff⟩ := Cmd.effect_of_map h
      cases pc with
      | checkClosed ref target todo rest dropped =>
          simp only [Task.checking, RunNode.Pc.checking, Option.some.injEq, Prod.mk.injEq] at hch
          obtain ⟨rfl, rfl⟩ := hch
          cases hc
          cases heff with
          | probed hprobed =>
              rw [DataPlane.Gone, hprobed, Option.some.injEq] at hgone
              subst hgone
              refine ⟨rfl, ref.dataId, ?_⟩
              intro d
              simp only [Task.owed, Channel.isClosed_gone, RunNode.owed_releaseAll]
              exact units_add ref.dataId todo.length 1 d
      | _ => cases hch
  | _ => cases hch

/-- A node that releases the unit of a full channel twice forges a ticket. -/
theorem ledger_forge (h : s.step a = some s') (hrecheck : s.rechecksDropped a = true) :
    ∃ d, s'.ledger = s.ledger.forge d := by
  rcases step_cases h with ⟨i, env, t, c, t', rfl, ht, hc, heff, htasks⟩ |
    ⟨t, hrun, -⟩ | ⟨ch, rfl, -, -⟩
  · obtain ⟨ch, hch, hgone⟩ : ∃ ch, t.checking = some (true, ch) ∧ s.plane.Gone ch := by
      simp only [rechecksDropped, ht, Option.bind_some] at hrecheck
      split at hrecheck
      · exact ⟨_, ‹_›, by simpa using hrecheck⟩
      · cases hrecheck
    obtain ⟨rest, howed, howed'⟩ := exists_rest t' ht htasks
    obtain ⟨hplane, id, hid⟩ := forge_of_checking hc heff hch hgone
    refine ⟨id, Ledger.eq_forge id (by rw [ledger, ledger, hplane]; rfl) ?_⟩
    intro d
    simp only [ledger, DataPlane.ledger, howed, howed', hplane, hid]
    omega
  · cases a with
    | run i env => exact absurd rfl (hrun i env)
    | _ => cases hrecheck
  · cases hrecheck

end Deployment
end Nazh
