import Nazh.Graph.References

/-!
# The data plane over whole runs

The two halves of the data plane's contract, each in the runs where it holds.
A reference in a channel or just received names a datum of the store, in every run
in which no node releases the unit of a full channel and then finds that channel
closed. A datum that only input channels referred to is gone once they are drained,
in every run in which no receiver is dropped over a queue that holds references.

Neither holds in every run, and a run of a small deployment shows each failure.
-/

namespace Nazh

open Lib

namespace Deployment

variable {s : Deployment}

/-- No unit is released twice in this step. -/
def releasesOnce (s : Deployment) (a : Action) : Bool := !s.rechecksDropped a

/-- No queue is dropped with references in it in this step. -/
def drainsQueues (s : Deployment) (a : Action) : Bool := !s.dropsQueue a

theorem ledger_started (h : s.Started) (d : ℕ) :
    s.plane.store.remaining d = 0 ∧ s.outstanding d = 0 := by
  obtain ⟨capacity, hstore⟩ := h.store_empty
  refine ⟨by simp [hstore], outstanding_eq_zero (wellFormed_started h) ?_⟩
  simp [hstore, ArenaDataStore.withCapacity]

/-- Outstanding references are backed by units of the store. -/
theorem outstanding_le_remaining (h : machine.ReachesUnder (fun s a => s.releasesOnce a) s)
    (d : ℕ) : s.outstanding d ≤ s.plane.store.remaining d := by
  have hsolvent : s.ledger.Solvent := by
    refine Machine.solvent_of_moves (fun s => wellFormed_of_reaches) (fun s hs d => ?_)
      (fun s a s' hwf hG hstep => ?_) h
    · obtain ⟨hr, ht⟩ := ledger_started hs d
      exact Nat.le_of_eq (ht.trans hr.symm)
    · have hrecheck : s.rechecksDropped a = false := by simpa [releasesOnce] using hG
      cases hdrop : s.dropsQueue a with
      | false => exact .inl (ledger_honest hwf hstep hrecheck hdrop)
      | true => exact .inr (ledger_shed hwf hstep hrecheck hdrop)
  exact hsolvent d

/-- Units of the store have references outstanding. -/
theorem remaining_le_outstanding (h : machine.ReachesUnder (fun s a => s.drainsQueues a) s)
    (d : ℕ) : s.plane.store.remaining d ≤ s.outstanding d := by
  have hcovered : s.ledger.Covered := by
    refine Machine.covered_of_moves (fun s => wellFormed_of_reaches) (fun s hs d => ?_)
      (fun s a s' hwf hG hstep => ?_) h
    · obtain ⟨hr, ht⟩ := ledger_started hs d
      exact Nat.le_of_eq (hr.trans ht.symm)
    · have hdrop : s.dropsQueue a = false := by simpa [drainsQueues] using hG
      cases hrecheck : s.rechecksDropped a with
      | false => exact .inl (ledger_honest hwf hstep hrecheck hdrop)
      | true => exact .inr (ledger_forge hstep hrecheck)
  exact hcovered d

/-! ## Delivered references -/

/-- A reference that is queued is outstanding. -/
theorem outstanding_pos_of_queued {c : Channel ContextRef} {r : ContextRef}
    (hc : c ∈ s.plane.chans) (hr : r ∈ c.queue) : 0 < s.outstanding r.dataId :=
  Nat.add_pos_left (DataPlane.queued_pos hc hr) _

/-- So is one a task owes a release for. -/
theorem outstanding_pos_of_owed {t : Task} {d : ℕ} (ht : t ∈ s.tasks) (hd : 0 < t.owed d) :
    0 < s.outstanding d :=
  Nat.add_pos_right _ (Nat.lt_of_lt_of_le hd (le_tally (fun t : Task => t.owed d) ht))

/-- In runs that release each unit once, what a channel delivers is in the store: the
references to a datum never outnumber its units, and a node that received a
reference reads its datum. -/
theorem delivered_data_found (h : machine.ReachesUnder (fun s a => s.releasesOnce a) s) :
    (∀ d, s.outstanding d ≤ s.plane.store.remaining d) ∧
      (∀ c ∈ s.plane.chans, ∀ r ∈ c.queue, ∃ v, s.plane.store.readMut r.dataId = .ok v) ∧
      (∀ cfg r, Task.node cfg (.received r) ∈ s.tasks →
        ∃ v, s.plane.store.readMut r.dataId = .ok v) ∧
      ∀ rx r, Task.collector rx (.received r) ∈ s.tasks →
        ∃ v, s.plane.store.read r.dataId = .ok v := by
  have hbacked : ∀ d, 0 < s.outstanding d → ∃ v, s.plane.store.readMut d = .ok v := fun d hd =>
    ArenaDataStore.readMut_isOk_iff.mpr (Nat.lt_of_lt_of_le hd (outstanding_le_remaining h d))
  refine ⟨outstanding_le_remaining h, ?_, ?_, ?_⟩
  · intro c hc r hr
    exact hbacked _ (outstanding_pos_of_queued hc hr)
  · intro cfg r ht
    exact hbacked _ (outstanding_pos_of_owed ht (by simp [Task.owed, RunNode.Pc.owed]))
  · intro rx r ht
    exact hbacked _ (outstanding_pos_of_owed ht (by simp [Task.owed, Collector.Pc.owed]))

/-- Two edges out of `a`: one that waits for `b`, one to `c` that drops what is new. -/
def fork : Deployment where
  plane := ⟨.withCapacity 0, [.live 2 [], .live 2 [], .live 1 [], .live 2 []]⟩
  tasks := [
    .node ⟨"a", [.defaultOutput], 0, [⟨none, 1, "b", .block⟩, ⟨none, 2, "c", .dropNewest⟩], 3⟩ .idle,
    .node ⟨"b", [.defaultOutput], 1, [], 3⟩ .idle]
  ingress := ⟨[("a", 0)]⟩
  handles := []

/-- The task `i` takes `n` commands that ask nothing of the environment. -/
def ticks (i n : ℕ) : List Action := List.replicate n (.run i (.tick 0))

/-- The node `i` takes a reference and passes the payload on. -/
def relay (i : ℕ) : List Action :=
  ticks i 3 ++ [.run i (.pulled (.ok .null)),
    .run i (.transformed (.ok (NodeExecution.broadcast .null)))]

/-- Two payloads are submitted, and `a` passes the first on to `b` and `c`. -/
def forward : List Action :=
  [.submit ⟨1, 0, .null⟩] ++ ticks 2 2 ++ [.submit ⟨2, 0, .null⟩] ++ ticks 3 2 ++ relay 0 ++
    ticks 0 3

theorem fork_started : fork.Started where
  store_empty := ⟨0, rfl⟩
  queues_empty := by decide
  tasks_idle := by simp [fork, Task.IsIdle]

/-- The fork after its first payload. -/
def forwarded : Deployment :=
  (machine.replay (fun s a => s.releasesOnce a && s.drainsQueues a) fork forward).get (by decide)

theorem reaches_forwarded :
    machine.ReachesUnder (fun s a => s.releasesOnce a && s.drainsQueues a) forwarded :=
  .replay (.start fork_started) (Option.some_get _).symm

/-- Three references wait in the fork, and each finds its datum. -/
theorem forwarded_data_found :
    (forwarded.plane.chans.map fun c => c.queue.map ContextRef.dataId) = [[1], [2], [2], []] ∧
      ∀ c ∈ forwarded.plane.chans, ∀ r ∈ c.queue,
        ∃ v, forwarded.plane.store.readMut r.dataId = .ok v :=
  ⟨by decide, (delivered_data_found <| reaches_forwarded.mono fun s a h => by
    simp only [Bool.and_eq_true] at h
    exact h.1).2.1⟩

/-- `a` passes both payloads on; the second finds the channel of `c` full, and the
receiver of `c` is dropped before the check. Then `b` takes both references. -/
def overload : List Action :=
  forward ++ relay 0 ++ ticks 0 4 ++ [.dropReceiver 2] ++ ticks 0 2 ++
    ticks 1 3 ++ [.run 1 (.pulled (.error (.stagePanicked "b" 1)))] ++ ticks 1 2

/-- Whether a node was just told that the datum of its reference is not there. -/
def readsNotFound : Task → Bool
  | .node _ (.readDone r (.error (.dataNotFound id))) => decide (r.dataId = id)
  | _ => false

theorem exists_of_readsNotFound {t : Task} (h : readsNotFound t = true) :
    ∃ cfg r, t = .node cfg (.readDone r (.error (.dataNotFound r.dataId))) := by
  unfold readsNotFound at h
  split at h
  · rename_i cfg r id
    obtain rfl := of_decide_eq_true h
    exact ⟨cfg, r, rfl⟩
  · cases h

/-- A node gets `DataNotFound` for a reference that was delivered to it. -/
theorem overload_data_not_found : ∃ s, machine.Reaches s ∧
    (∃ d, s.plane.store.remaining d < s.outstanding d) ∧
    ∃ cfg r, Task.node cfg (.readDone r (.error (.dataNotFound r.dataId))) ∈ s.tasks := by
  have hrun : (machine.replay (fun _ _ => true) fork overload).any fun s : Deployment =>
      decide (s.plane.store.remaining 3 < s.outstanding 3) && s.tasks.any readsNotFound := by decide
  obtain ⟨s, hreach, hend⟩ := Machine.exists_reaches_of_replay fork_started hrun
  simp only [Bool.and_eq_true, decide_eq_true_eq] at hend
  refine ⟨s, hreach, ⟨3, hend.1⟩, ?_⟩
  obtain ⟨t, ht, hread⟩ := List.any_eq_true.mp hend.2
  obtain ⟨cfg, r, rfl⟩ := exists_of_readsNotFound hread
  exact ⟨cfg, r, ht⟩

/-! ## Drained deployments -/

/-- Whether a node holds a reference it received. -/
def holdsReceived : Task → Bool
  | .node _ (.received _) | .node _ (.readDone _ _) => true
  | _ => false

/-- Every input channel is empty or its receiver gone, and no node holds a reference
it received. -/
structure Drained (s : Deployment) : Prop where
  inputs_empty : ∀ cfg pc, Task.node cfg pc ∈ s.tasks → ∀ c, s.plane.chans[cfg.inputRx]? = some c →
    c.queue = []
  none_held : ∀ t ∈ s.tasks, holdsReceived t = false

/-- A datum that something other than an input channel or a received reference refers
to: another channel, or a task that is about to hand it on. -/
def ReferencedElsewhere (s : Deployment) (d : ℕ) : Prop :=
  (∃ ch c, s.plane.chans[ch]? = some c ∧ (∀ cfg pc, Task.node cfg pc ∈ s.tasks → cfg.inputRx ≠ ch) ∧
    ∃ r ∈ c.queue, r.dataId = d) ∨
  ∃ t ∈ s.tasks, holdsReceived t = false ∧ 0 < t.owed d

/-- What a drained deployment has outstanding is referred to from elsewhere. -/
theorem Drained.referencedElsewhere (h : s.Drained) {d : ℕ} (hd : 0 < s.outstanding d) :
    s.ReferencedElsewhere d := by
  by_cases hqueued : 0 < s.plane.queued d
  · obtain ⟨c, hc, r, hr, hrd⟩ := DataPlane.exists_of_queued_pos hqueued
    obtain ⟨ch, hch⟩ := List.mem_iff_getElem?.mp hc
    refine .inl ⟨ch, c, hch, ?_, r, hr, hrd⟩
    intro cfg pc ht hrx
    subst hrx
    simp [h.inputs_empty cfg pc ht c hch] at hr
  · have howed : 0 < s.owed d := by
      simp only [outstanding] at hd
      omega
    by_contra hne
    have hzero : s.owed d = 0 := by
      apply (tally_eq_zero_iff _).mpr
      intro t ht
      by_contra hpos
      exact hne (.inr ⟨t, ht, h.none_held t ht, Nat.pos_of_ne_zero hpos⟩)
    omega

/-- In runs that drop no queue with references in it, a drained deployment stores only
what is referred to from elsewhere. In runs that moreover release each unit once, the
units of a datum are exactly the references outstanding. -/
theorem drained_store_released (h : machine.ReachesUnder (fun s a => s.drainsQueues a) s) :
    (s.Drained → ∀ d ∈ s.plane.store.entries, s.ReferencedElsewhere d) ∧
      (machine.ReachesUnder (fun s a => s.releasesOnce a && s.drainsQueues a) s →
        ∀ d, s.plane.store.remaining d = s.outstanding d) := by
  constructor
  · intro hdrained d hd
    have hpos := ArenaDataStore.remaining_pos_iff.mpr hd
    exact hdrained.referencedElsewhere (Nat.lt_of_lt_of_le hpos (remaining_le_outstanding h d))
  · intro hboth d
    have hle := remaining_le_outstanding h d
    have hge := outstanding_le_remaining (hboth.mono fun s a hg => by
      simp only [Bool.and_eq_true] at hg
      exact hg.1) d
    omega

/-- In the fork after its first payload the units are the references. -/
theorem forwarded_store_released :
    forwarded.plane.store.remaining 2 = 2 ∧
      ∀ d, forwarded.plane.store.remaining d = forwarded.outstanding d := by
  have hdrains := reaches_forwarded.mono fun s a h => by
    simp only [Bool.and_eq_true] at h
    exact h.2
  exact ⟨by decide, (drained_store_released hdrains).2 reaches_forwarded⟩

/-- The receiver of `b` is gone when `a` passes its first payload on: `a` leaves its
loop while the second payload waits in its channel. -/
def leave : List Action :=
  [.dropReceiver 1, .submit ⟨1, 0, .null⟩] ++ ticks 2 2 ++ [.submit ⟨2, 0, .null⟩] ++ ticks 3 2 ++
    relay 0 ++ ticks 0 6

/-- What nothing has outstanding is not referred to. -/
theorem not_referencedElsewhere {d : ℕ} (h : s.outstanding d = 0) : ¬ s.ReferencedElsewhere d := by
  rintro (⟨ch, c, hch, -, r, hr, rfl⟩ | ⟨t, ht, -, hd⟩)
  · exact absurd h (Nat.ne_of_gt (outstanding_pos_of_queued (List.mem_of_getElem? hch) hr))
  · exact absurd h (Nat.ne_of_gt (outstanding_pos_of_owed ht hd))

/-- A drained deployment keeps a datum that nothing refers to. -/
theorem leave_leaks : ∃ s, machine.Reaches s ∧ s.Drained ∧
    ∃ d ∈ s.plane.store.entries, ¬ s.ReferencedElsewhere d := by
  have hrun : (machine.replay (fun _ _ => true) fork leave).any fun s : Deployment =>
      decide ((∀ c ∈ s.plane.chans, c.queue = []) ∧ (∀ t ∈ s.tasks, holdsReceived t = false) ∧
        0 < s.plane.store.remaining 1 ∧ s.outstanding 1 = 0) := by decide
  obtain ⟨s, hreach, hend⟩ := Machine.exists_reaches_of_replay fork_started hrun
  obtain ⟨hempty, hheld, hleft, hout⟩ := of_decide_eq_true hend
  have hdrained : s.Drained := ⟨fun cfg pc _ c hc => hempty c (List.mem_of_getElem? hc), hheld⟩
  refine ⟨s, hreach, hdrained, 1, ?_, ?_⟩
  · exact ArenaDataStore.remaining_pos_iff.mp hleft
  · exact not_referencedElsewhere hout

end Deployment
end Nazh
