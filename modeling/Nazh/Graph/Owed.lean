import Nazh.Graph.Runtime

/-!
# What the tasks owe

For each program: the reference a state holds, and the units of the store it has
yet to hand on or release. Every command of every program is balanced for these
weights, with one exception. A node that finds a channel full releases the unit of
that target, and then asks whether the channel is closed; if it is, the node
releases the unit again with those of the targets after it.
-/

namespace Nazh

open Lib

namespace RunNode

/-- The reference a state of the loop holds. -/
def Pc.ref : Pc → Option ContextRef
  | .received ref | .readDone ref _ | .sendResult ref _ | .releaseResult ref
  | .fanOut ref _ _ _ | .releaseDropped ref _ _ _ | .checkClosed ref _ _ _ _
  | .releaseRest ref _ => some ref
  | _ => none

/-- The units a state of the loop has yet to hand on or release. -/
def Pc.owed : Pc → ℕ → ℕ
  | .received ref | .readDone ref _ | .sendResult ref _ | .releaseResult ref =>
      units ref.dataId 1
  | .fanOut ref _ todo _ | .releaseDropped ref _ todo _ => units ref.dataId (todo.length + 1)
  | .checkClosed ref _ todo _ dropped =>
      units ref.dataId (if dropped then todo.length else todo.length + 1)
  | .releaseRest ref more => units ref.dataId (more + 1)
  | _ => fun _ => 0

/-- A state between a failed send and the check of its channel: whether the channel
was found full, and which one it is. -/
def Pc.checking : Pc → Option (Bool × ℕ)
  | .checkClosed _ target _ _ dropped => some (dropped, target.sender)
  | _ => none

variable {cfg : RunNode} {plane : DataPlane}

@[simp] theorem owed_nextOutput (traceId : ℕ) (outputs : List NodeOutput) :
    (cfg.nextOutput traceId outputs).owed = fun _ => 0 := by
  induction outputs with
  | nil => rfl
  | cons output rest ih =>
      rw [nextOutput]
      split
      · exact ih
      · rfl

@[simp] theorem owed_nextTarget (ref : ContextRef) (rest : List NodeOutput)
    (targets : List DownstreamTarget) :
    (cfg.nextTarget ref rest targets).owed = units ref.dataId targets.length := by
  cases targets with
  | nil => simp [nextTarget, funext_iff]
  | cons target todo => rfl

@[simp] theorem owed_releaseAll (ref : ContextRef) (count : ℕ) :
    (releaseAll ref count).owed = units ref.dataId count := by
  cases count with
  | zero => simp [releaseAll, Pc.owed, funext_iff]
  | succ more => rfl

@[simp] theorem ref_nextOutput (traceId : ℕ) (outputs : List NodeOutput) :
    (cfg.nextOutput traceId outputs).ref = none := by
  induction outputs with
  | nil => rfl
  | cons output rest ih =>
      rw [nextOutput]
      split
      · exact ih
      · rfl

theorem ref_nextTarget {ref r : ContextRef} {rest : List NodeOutput}
    {targets : List DownstreamTarget} (h : r ∈ (cfg.nextTarget ref rest targets).ref) :
    r = ref := by
  cases targets with
  | nil => simp [nextTarget] at h
  | cons target todo => simpa [nextTarget, Pc.ref, eq_comm] using h

theorem ref_releaseAll {ref r : ContextRef} {count : ℕ} (h : r ∈ (releaseAll ref count).ref) :
    r = ref := by
  cases count with
  | zero => simp [releaseAll, Pc.ref] at h
  | succ more => simpa [releaseAll, Pc.ref, eq_comm] using h

/-- The commands of the loop are balanced, but for a check that finds a channel
gone which was full, or open which was gone. -/
theorem balanced_code {pc : Pc} {c : Cmd Pc} (h : cfg.code pc = some c)
    (hcheck : ∀ dropped ch, pc.checking = some (dropped, ch) →
      (plane.Gone ch ↔ dropped = false)) :
    c.Balanced plane Pc.owed pc.owed := by
  cases pc with
  | idle =>
      cases h
      exact ⟨fun r d => by simp [Pc.owed], rfl⟩
  | received ref =>
      cases h
      exact fun _ => rfl
  | readDone ref payloadResult =>
      cases h
      intro d
      cases payloadResult <;> simp [Pc.owed]
  | pulling traceId payload =>
      cases h
      intro r
      cases r <;> rfl
  | transforming traceId payload =>
      cases h
      intro r
      cases r with
      | ok execution => exact owed_nextOutput traceId execution.outputs
      | error e => rfl
  | writing traceId output rest =>
      cases h
      refine ⟨?_, fun e now => rfl⟩
      intro id now d
      cases hts : cfg.targets output.dispatch with
      | nil => simp [Pc.owed]
      | cons target todo => simp [nextTarget, Pc.owed]
  | sendResult ref rest =>
      cases h
      refine ⟨?_, rfl⟩
      intro d
      simp only [owed_nextOutput]
      simp [Pc.owed]
  | releaseResult ref =>
      cases h
      intro d
      simp [Pc.owed]
  | fanOut ref target todo rest =>
      cases h
      cases target.backpressurePolicy with
      | block =>
          refine ⟨?_, rfl⟩
          intro d
          simp only [owed_nextTarget]
          simp [Pc.owed, units_add]
      | dropNewest =>
          refine ⟨?_, rfl, rfl⟩
          intro d
          simp only [owed_nextTarget]
          simp [Pc.owed, units_add]
  | releaseDropped ref target todo rest =>
      cases h
      intro d
      simp [Pc.owed, units_add]
  | checkClosed ref target todo rest dropped =>
      cases h
      intro c hc
      have hgone := hcheck dropped target.sender rfl
      cases dropped with
      | true =>
          have hlive : c.isClosed = false := by
            by_contra hne
            obtain rfl : c = .gone := Channel.eq_gone (by simpa using hne)
            simpa using hgone.mp hc
          simp only [hlive, owed_nextTarget]
          simp [Pc.owed]
      | false =>
          obtain rfl : c = .gone := by
            have := hgone.mpr rfl
            rw [DataPlane.Gone, hc] at this
            exact Option.some.inj this
          simp only [Channel.isClosed_gone, owed_releaseAll]
          simp [Pc.owed]
  | releaseRest ref more =>
      cases h
      intro d
      simp only [owed_releaseAll]
      simp [Pc.owed, units_add]
  | leaving =>
      cases h
      rfl
  | done => cases h

/-- The loop makes up no reference. -/
theorem carries_code {pc : Pc} {c : Cmd Pc} (h : cfg.code pc = some c) :
    c.Carries Pc.ref pc.ref := by
  cases pc with
  | idle =>
      cases h
      exact ⟨fun m r hr => by simpa [Pc.ref, eq_comm] using hr, fun r hr => by simp [Pc.ref] at hr⟩
  | received ref =>
      cases h
      exact fun _ _ hr => hr
  | readDone ref payloadResult =>
      cases h
      intro r hr
      cases payloadResult <;> simp [Pc.ref] at hr
  | pulling traceId payload =>
      cases h
      intro a r hr
      cases a <;> simp [Pc.ref] at hr
  | transforming traceId payload =>
      cases h
      intro a r hr
      cases a with
      | ok execution => simp only [ref_nextOutput, Option.not_mem_none] at hr
      | error e => simp [Pc.ref] at hr
  | writing traceId output rest =>
      cases h
      refine ⟨?_, fun e now r hr => by simp [Pc.ref] at hr⟩
      intro id now r hr
      dsimp only at hr
      split at hr
      · rw [Pc.ref, Option.mem_some_iff] at hr
        rw [← hr]
      · rw [ref_nextTarget hr]
  | sendResult ref rest =>
      cases h
      refine ⟨rfl, ?_⟩
      intro ok r hr
      cases ok with
      | true => simp only [ref_nextOutput, Option.not_mem_none] at hr
      | false => exact hr
  | releaseResult ref =>
      cases h
      exact fun r hr => by simp [Pc.ref] at hr
  | fanOut ref target todo rest =>
      cases h
      cases target.backpressurePolicy with
      | block =>
          refine ⟨rfl, ?_⟩
          intro ok r hr
          cases ok with
          | true => exact ref_nextTarget hr ▸ rfl
          | false => exact hr
      | dropNewest =>
          refine ⟨rfl, ?_⟩
          intro a r hr
          cases a with
          | sent => exact ref_nextTarget hr ▸ rfl
          | full => exact hr
          | closed => exact hr
  | releaseDropped ref target todo rest =>
      cases h
      exact fun _ hr => hr
  | checkClosed ref target todo rest dropped =>
      cases h
      intro closed r hr
      cases closed with
      | true => exact ref_releaseAll hr ▸ rfl
      | false => exact ref_nextTarget hr ▸ rfl
  | releaseRest ref more =>
      cases h
      exact fun r hr => ref_releaseAll hr ▸ rfl
  | leaving =>
      cases h
      exact fun r hr => by simp [Pc.ref] at hr
  | done => cases h

end RunNode

namespace Submission

def Pc.ref : Pc → Option ContextRef
  | .sending ref _ _ | .releaseRest ref _ => some ref
  | _ => none

def Pc.owed : Pc → ℕ → ℕ
  | .sending ref _ todo => units ref.dataId (todo.length + 1)
  | .releaseRest ref more => units ref.dataId (more + 1)
  | _ => fun _ => 0

variable {plane : DataPlane}

theorem owed_nextSender (ref : ContextRef) (senders : List ℕ) :
    (nextSender ref senders).owed = units ref.dataId senders.length := by
  cases senders with
  | nil => simp [nextSender, Pc.owed, funext_iff]
  | cons sender todo => rfl

theorem owed_releaseAll (ref : ContextRef) (count : ℕ) :
    (releaseAll ref count).owed = units ref.dataId count := by
  cases count with
  | zero => simp [releaseAll, Pc.owed, funext_iff]
  | succ more => rfl

theorem ref_nextSender {ref r : ContextRef} {senders : List ℕ}
    (h : r ∈ (nextSender ref senders).ref) : r = ref := by
  cases senders with
  | nil => simp [nextSender, Pc.ref] at h
  | cons sender todo => simpa [nextSender, Pc.ref, eq_comm] using h

theorem ref_releaseAll {ref r : ContextRef} {count : ℕ} (h : r ∈ (releaseAll ref count).ref) :
    r = ref := by
  cases count with
  | zero => simp [releaseAll, Pc.ref] at h
  | succ more => simpa [releaseAll, Pc.ref, eq_comm] using h

/-- The commands of an ingress call are balanced. -/
theorem balanced_code {pc : Pc} {c : Cmd Pc} (h : code pc = some c) :
    c.Balanced plane Pc.owed pc.owed := by
  cases pc with
  | writing ctx sender todo =>
      cases h
      exact ⟨fun id now d => by simp [Pc.owed], fun _ _ => rfl⟩
  | sending ref sender todo =>
      cases h
      constructor
      · intro d
        simp only [owed_nextSender]
        simp [Pc.owed, units_add]
      · exact owed_releaseAll ref (todo.length + 1)
  | releaseRest ref more =>
      cases h
      intro d
      simp only [owed_releaseAll]
      simp [Pc.owed, units_add]
  | returned result => cases h

theorem carries_code {pc : Pc} {c : Cmd Pc} (h : code pc = some c) :
    c.Carries Pc.ref pc.ref := by
  cases pc with
  | writing ctx sender todo =>
      cases h
      refine ⟨?_, fun e now r hr => by simp [Pc.ref] at hr⟩
      intro id now r hr
      rw [Pc.ref, Option.mem_some_iff] at hr
      rw [← hr]
  | sending ref sender todo =>
      cases h
      refine ⟨rfl, ?_⟩
      intro ok r hr
      cases ok with
      | true => exact ref_nextSender hr ▸ rfl
      | false => exact ref_releaseAll hr ▸ rfl
  | releaseRest ref more =>
      cases h
      exact fun r hr => ref_releaseAll hr ▸ rfl
  | returned result => cases h

end Submission

namespace Emission

def Pc.ref : Pc → Option ContextRef
  | .sending ref _ _ | .releasing ref _ => some ref
  | _ => none

def Pc.owed : Pc → ℕ → ℕ
  | .sending ref _ todo | .releasing ref todo => units ref.dataId (todo.length + 1)
  | _ => fun _ => 0

variable {plane : DataPlane} {handle : NodeHandle}

theorem owed_nextTarget (ref : ContextRef) (targets : List EmitTarget) :
    (nextTarget ref targets).owed = units ref.dataId targets.length := by
  cases targets with
  | nil => simp [nextTarget, Pc.owed, funext_iff]
  | cons target todo => rfl

theorem ref_nextTarget {ref r : ContextRef} {targets : List EmitTarget}
    (h : r ∈ (nextTarget ref targets).ref) : r = ref := by
  cases targets with
  | nil => simp [nextTarget, Pc.ref] at h
  | cons target todo => simpa [nextTarget, Pc.ref, eq_comm] using h

/-- The commands of `emit` are balanced. -/
theorem balanced_code {pc : Pc} {c : Cmd Pc} (h : code handle pc = some c) :
    c.Balanced plane Pc.owed pc.owed := by
  cases pc with
  | writing traceId payload =>
      cases h
      refine ⟨?_, fun _ _ => rfl⟩
      intro id now d
      cases hd : handle.downstream with
      | nil => simp [Pc.owed]
      | cons target todo => simp [nextTarget, Pc.owed]
  | sending ref target todo =>
      cases h
      refine ⟨?_, rfl⟩
      intro d
      simp only [owed_nextTarget]
      simp [Pc.owed, units_add]
  | releasing ref todo =>
      cases h
      intro d
      simp only [owed_nextTarget]
      simp [Pc.owed, units_add]
  | returned result => cases h

theorem carries_code {pc : Pc} {c : Cmd Pc} (h : code handle pc = some c) :
    c.Carries Pc.ref pc.ref := by
  cases pc with
  | writing traceId payload =>
      cases h
      refine ⟨?_, fun e now r hr => by simp [Pc.ref] at hr⟩
      intro id now r hr
      dsimp only at hr
      split at hr
      · rw [Pc.ref, Option.mem_some_iff] at hr
        rw [← hr]
      · rw [ref_nextTarget hr]
  | sending ref target todo =>
      cases h
      refine ⟨rfl, ?_⟩
      intro ok r hr
      cases ok with
      | true => exact ref_nextTarget hr ▸ rfl
      | false => exact hr
  | releasing ref todo =>
      cases h
      exact fun r hr => ref_nextTarget hr ▸ rfl
  | returned result => cases h

end Emission

namespace Collector

def Pc.ref : Pc → Option ContextRef
  | .received ref | .releasing ref => some ref
  | _ => none

def Pc.owed : Pc → ℕ → ℕ
  | .received ref | .releasing ref => units ref.dataId 1
  | _ => fun _ => 0

variable {plane : DataPlane} {resultRx : ℕ}

/-- The commands of a consumer of the results are balanced. -/
theorem balanced_code {pc : Pc} {c : Cmd Pc} (h : code resultRx pc = some c) :
    c.Balanced plane Pc.owed pc.owed := by
  cases pc with
  | idle =>
      cases h
      exact ⟨fun r d => by simp [Pc.owed], rfl⟩
  | received ref =>
      cases h
      exact ⟨fun _ => rfl, fun e d => by simp [Pc.owed]⟩
  | releasing ref =>
      cases h
      intro d
      simp [Pc.owed]
  | done => cases h

theorem carries_code {pc : Pc} {c : Cmd Pc} (h : code resultRx pc = some c) :
    c.Carries Pc.ref pc.ref := by
  cases pc with
  | idle =>
      cases h
      exact ⟨fun m r hr => by simpa [Pc.ref, eq_comm] using hr, fun r hr => by simp [Pc.ref] at hr⟩
  | received ref =>
      cases h
      intro a r hr
      cases a with
      | ok payload => exact hr
      | error e => simp [Pc.ref] at hr
  | releasing ref =>
      cases h
      exact fun r hr => by simp [Pc.ref] at hr
  | done => cases h

end Collector

/-! ## Tasks -/

namespace Task

/-- The reference a task holds. -/
def ref : Task → Option ContextRef
  | node _ pc => pc.ref
  | submission pc => pc.ref
  | emission _ pc => pc.ref
  | collector _ pc => pc.ref

/-- The units a task has yet to hand on or release. -/
def owed : Task → ℕ → ℕ
  | node _ pc => pc.owed
  | submission pc => pc.owed
  | emission _ pc => pc.owed
  | collector _ pc => pc.owed

/-- A node about to check a channel after a send to it failed. -/
def checking : Task → Option (Bool × ℕ)
  | node _ pc => pc.checking
  | _ => none

variable {plane : DataPlane} {t : Task} {c : Cmd Task}

/-- The commands of a task are balanced, but for a check as in `RunNode.balanced_code`. -/
theorem balanced_code (h : t.code = some c)
    (hcheck : ∀ dropped ch, t.checking = some (dropped, ch) → (plane.Gone ch ↔ dropped = false)) :
    c.Balanced plane owed t.owed := by
  cases t with
  | node cfg pc =>
      obtain ⟨c', hc', rfl⟩ := Option.map_eq_some_iff.mp h
      exact Cmd.balanced_map.mpr (RunNode.balanced_code hc' hcheck)
  | submission pc =>
      obtain ⟨c', hc', rfl⟩ := Option.map_eq_some_iff.mp h
      exact Cmd.balanced_map.mpr (Submission.balanced_code hc')
  | emission handle pc =>
      obtain ⟨c', hc', rfl⟩ := Option.map_eq_some_iff.mp h
      exact Cmd.balanced_map.mpr (Emission.balanced_code hc')
  | collector resultRx pc =>
      obtain ⟨c', hc', rfl⟩ := Option.map_eq_some_iff.mp h
      exact Cmd.balanced_map.mpr (Collector.balanced_code hc')

/-- No task makes up a reference. -/
theorem carries_code (h : t.code = some c) : c.Carries ref t.ref := by
  cases t with
  | node cfg pc =>
      obtain ⟨c', hc', rfl⟩ := Option.map_eq_some_iff.mp h
      exact Cmd.carries_map.mpr (RunNode.carries_code hc')
  | submission pc =>
      obtain ⟨c', hc', rfl⟩ := Option.map_eq_some_iff.mp h
      exact Cmd.carries_map.mpr (Submission.carries_code hc')
  | emission handle pc =>
      obtain ⟨c', hc', rfl⟩ := Option.map_eq_some_iff.mp h
      exact Cmd.carries_map.mpr (Emission.carries_code hc')
  | collector resultRx pc =>
      obtain ⟨c', hc', rfl⟩ := Option.map_eq_some_iff.mp h
      exact Cmd.carries_map.mpr (Collector.carries_code hc')

/-- A task owes only the datum it refers to. -/
theorem ref_of_owed_pos {d : ℕ} (h : 0 < t.owed d) : ∃ r ∈ t.ref, r.dataId = d := by
  cases t with
  | node cfg pc =>
      cases pc <;> first
        | exact ⟨_, rfl, (eq_of_units_pos h).symm⟩
        | exact absurd h (Nat.lt_irrefl 0)
  | submission pc =>
      cases pc <;> first
        | exact ⟨_, rfl, (eq_of_units_pos h).symm⟩
        | exact absurd h (Nat.lt_irrefl 0)
  | emission handle pc =>
      cases pc <;> first
        | exact ⟨_, rfl, (eq_of_units_pos h).symm⟩
        | exact absurd h (Nat.lt_irrefl 0)
  | collector resultRx pc =>
      cases pc <;> first
        | exact ⟨_, rfl, (eq_of_units_pos h).symm⟩
        | exact absurd h (Nat.lt_irrefl 0)

end Task
end Nazh
