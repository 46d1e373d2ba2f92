import Nazh.Graph.Served

/-!
# Pulling with a memo

What a pure-form node made of an input is remembered, and another pull of the same trace finds
it. A pull that finds nothing looks for the pin in all outputs of the node, and takes the whole
first output where no output has it; a pull that finds something has the first output alone, and
takes the pin from it or fails.

So the memo makes no difference where the first output of a node has the pins that are pulled
from it. A pull with a memo follows the pull without one, and departs from it only at a pin that
the first output does not have.
-/

namespace Nazh

open Lib

namespace PullEnv

variable (E : PullEnv)

/-- A node makes the same of the same input, however often it is executed. -/
def Deterministic : Prop :=
  ∀ executed executed' nodeId traceId payload,
    E.execute executed nodeId traceId payload = E.execute executed' nodeId traceId payload

/-- A data edge starts at this pin. -/
def Requested (nodeId pinId : String) : Prop :=
  ∃ consumerId, ∃ entry ∈ E.edgesByConsumer.forConsumer consumerId,
    entry.upstreamNodeId = nodeId ∧ entry.upstreamOutputPinId = pinId

/-- What a pure-form node can be given in a trace, pulled without a memo. -/
def Input (nodeId : String) (traceId : ℕ) (payload : Value) : Prop :=
  ∃ node s s', E.nodesIndex.lookup nodeId = some node ∧ isPureForm node = true ∧
    Fueled.Ends (fun fuel => E.pullDataInputs (E.pullOne noMemo traceId fuel) nodeId node (.object []))
      s (.ok payload) s'

/-- Different inputs of a node in a trace have different hashes. -/
def NoCollision : Prop :=
  ∀ nodeId traceId payload payload', E.Input nodeId traceId payload →
    E.Input nodeId traceId payload' → E.inputHash payload = E.inputHash payload' → payload = payload'

/-- If there is an output then the first is an object with the pin. -/
def KeyedAt (nodeId pinId : String) : Prop :=
  ∀ traceId payload executed first rest, E.Input nodeId traceId payload →
    E.execute executed nodeId traceId payload = .ok ⟨first :: rest⟩ →
    (extractPinFromPayload first.payload pinId).isSome = true

/-- First outputs have the pins that are pulled. -/
def Keyed : Prop := ∀ nodeId pinId, E.Requested nodeId pinId → E.KeyedAt nodeId pinId

/-- The memos after any pulls and forgotten traces. -/
inductive ReachedMemo : PureMemo → Prop
  | new : ReachedMemo .new
  | pull {memo : PureMemo} {nodeId pinId : String} {policy : InputPolicy}
      {traceId clock executed : ℕ} {r : Except EngineError Value} {s' : PullState PureMemo} :
      ReachedMemo memo →
      Fueled.Ends (fun fuel => E.pullOne PureMemo.ops traceId fuel nodeId pinId policy)
        ⟨clock, executed, memo⟩ r s' → ReachedMemo s'.memo
  | clearTrace {memo : PureMemo} (traceId : ℕ) : ReachedMemo memo → ReachedMemo (memo.clearTrace traceId)

/-- After any pulls, a pull with the memo ends as a pull without. -/
def Transparent : Prop :=
  ∀ memo, E.ReachedMemo memo → ∀ nodeId pinId, E.Requested nodeId pinId →
    ∀ policy traceId clock executed executed', ∃ r s' t',
      Fueled.Ends (fun fuel => E.pullOne PureMemo.ops traceId fuel nodeId pinId policy)
        ⟨clock, executed, memo⟩ r s' ∧
      Fueled.Ends (fun fuel => E.pullOne noMemo traceId fuel nodeId pinId policy)
        ⟨clock, executed', ()⟩ r t'

/-! ## Fuel -/

variable {E} {μ : Type} {ops : MemoOps μ} {rank : String → ℕ}

theorem pullDataInputs_congr {pull pull' : String → String → InputPolicy → Pull μ Value}
    {consumerId : String} (consumer : NodeTrait) (execPayload : Value)
    (h : ∀ entry ∈ E.edgesByConsumer.forConsumer consumerId,
      pull entry.upstreamNodeId = pull' entry.upstreamNodeId) :
    E.pullDataInputs pull consumerId consumer execPayload =
      E.pullDataInputs pull' consumerId consumer execPayload := by
  have hentries : pullEntries pull consumer (E.edgesByConsumer.forConsumer consumerId) =
      pullEntries pull' consumer (E.edgesByConsumer.forConsumer consumerId) :=
    Fueled.collect_congr fun entry hentry => by rw [h entry hentry]
  rw [pullDataInputs, pullDataInputs, hentries]

/-- More fuel than there are nodes above one another makes no difference. -/
theorem pullOne_fuel (hrank : E.Ranked rank) (traceId : ℕ) {fuel fuel' : ℕ} {nodeId : String}
    (h : rank nodeId < fuel) (h' : rank nodeId < fuel') :
    E.pullOne ops traceId fuel nodeId = E.pullOne ops traceId fuel' nodeId := by
  induction fuel generalizing fuel' nodeId with
  | zero => omega
  | succ fuel ih =>
      cases fuel' with
      | zero => omega
      | succ fuel' =>
          funext pinId policy
          rw [pullOne, pullOne]
          have hinputs : ∀ node, E.pullDataInputs (E.pullOne ops traceId fuel) nodeId node (.object [])
              = E.pullDataInputs (E.pullOne ops traceId fuel') nodeId node (.object []) := by
            intro node
            apply pullDataInputs_congr
            intro entry hentry
            have hlt := hrank nodeId entry hentry
            exact ih (by omega) (by omega)
          simp only [hinputs]

/-- The same for the inputs of a node. -/
theorem inputs_fuel (hrank : E.Ranked rank) (traceId : ℕ) {nodeId : String} (node : NodeTrait)
    {fuel : ℕ} (h : rank nodeId ≤ fuel) :
    E.pullDataInputs (E.pullOne ops traceId fuel) nodeId node (.object []) =
      E.pullDataInputs (E.pullOne ops traceId (rank nodeId)) nodeId node (.object []) := by
  apply pullDataInputs_congr
  intro entry hentry
  have hlt := hrank nodeId entry hentry
  exact pullOne_fuel hrank traceId (by omega) hlt

theorem ends_inputs_iff (hrank : E.Ranked rank) {traceId : ℕ} {nodeId : String} {node : NodeTrait}
    {s s' : PullState μ} {r : Except EngineError Value} :
    Fueled.Ends (fun fuel => E.pullDataInputs (E.pullOne ops traceId fuel) nodeId node (.object []))
      s r s' ↔
    E.pullDataInputs (E.pullOne ops traceId (rank nodeId)) nodeId node (.object []) s =
      some (r, s') := by
  apply Fueled.ends_iff
  intro fuel hfuel
  exact inputs_fuel hrank traceId node hfuel

theorem ends_pullOne_iff (hrank : E.Ranked rank) {traceId : ℕ} {nodeId pinId : String}
    {policy : InputPolicy} {s s' : PullState μ} {r : Except EngineError Value} :
    Fueled.Ends (fun fuel => E.pullOne ops traceId fuel nodeId pinId policy) s r s' ↔
      E.pullOne ops traceId (rank nodeId + 1) nodeId pinId policy s = some (r, s') := by
  apply Fueled.ends_iff
  intro fuel hfuel
  rw [pullOne_fuel hrank traceId (Nat.lt_of_succ_le hfuel) (Nat.lt_succ_self _)]

/-! ## A pull with a memo and a pull without -/

/-- What is remembered is the first output for an input. -/
def Remembered (E : PullEnv) (memo : PureMemo) : Prop :=
  ∀ nodeId traceId hash cached, memo.inner nodeId traceId hash = some cached →
    ∃ payload first rest, E.Input nodeId traceId payload ∧ E.inputHash payload = hash ∧
      E.execute 0 nodeId traceId payload = .ok ⟨first :: rest⟩ ∧ cached = first.payload

/-- Everything remembered is still there. -/
def Keeps (memo memo' : PureMemo) : Prop :=
  ∀ nodeId traceId hash cached, memo.inner nodeId traceId hash = some cached →
    memo'.inner nodeId traceId hash = some cached

/-- The same time, and a memo that remembers. -/
structure Beside (E : PullEnv) (memo : PureMemo) (s : PullState PureMemo) (t : PullState Unit) :
    Prop where
  clock : s.clock = t.clock
  remembered : E.Remembered s.memo
  keeps : Keeps memo s.memo

/-- At a pin `P` of a node below `k` the first output does not have it. -/
def Departs (E : PullEnv) (P : String → String → Prop) (rank : String → ℕ) (k : ℕ)
    (_ : EngineError) : Prop :=
  ∃ nodeId pinId, P nodeId pinId ∧ rank nodeId < k ∧ ¬ E.KeyedAt nodeId pinId

/-! ### What is found and what is made -/

theorem evaluatePure_hit {nodeId : String} (pinId : String) {traceId : ℕ} {payload cached : Value}
    {s : PullState μ} (h : ops.get s.memo nodeId traceId (E.inputHash payload) = some cached) :
    E.evaluatePure ops nodeId pinId traceId payload s =
      some (okOr (extractPinFromPayload cached pinId) (.dataPinCacheEmpty nodeId pinId), s) := by
  simp [evaluatePure, bind, Fueled.access, Fueled.ofExcept, h]

/-- The memo after an execution. -/
def remember (ops : MemoOps μ) (memo : μ) (nodeId : String) (traceId : ℕ) (hash : UInt64) :
    List NodeOutput → μ
  | [] => memo
  | first :: _ => ops.insert memo nodeId traceId hash first.payload

theorem evaluatePure_miss (ops : MemoOps μ) {nodeId : String} (pinId : String) {traceId : ℕ}
    {payload : Value} {s : PullState μ} (h : ops.get s.memo nodeId traceId (E.inputHash payload) = none) :
    E.evaluatePure ops nodeId pinId traceId payload s =
      match E.execute s.executed nodeId traceId payload with
      | .error e => some (.error e, { s with executed := s.executed + 1 })
      | .ok result => some (pinFromOutputs result.outputs nodeId pinId, ⟨s.clock, s.executed + 1,
          remember ops s.memo nodeId traceId (E.inputHash payload) result.outputs⟩) := by
  rw [evaluatePure]
  cases hexecute : E.execute s.executed nodeId traceId payload with
  | error e => simp [bind, Fueled.access, Fueled.ofExcept, h, hexecute]
  | ok result =>
      obtain ⟨outputs⟩ := result
      cases outputs with
      | nil => simp [bind, Fueled.access, Fueled.ofExcept, h, hexecute, remember]
      | cons first rest => simp [bind, Fueled.access, Fueled.ofExcept, h, hexecute, remember]

/-- A first output with the pin is what a search finds. -/
theorem pinFromOutputs_of_first {nodeId pinId : String} {first : NodeOutput} {v : Value}
    (h : extractPinFromPayload first.payload pinId = some v) (rest : List NodeOutput) :
    pinFromOutputs (first :: rest) nodeId pinId = .ok v := by
  simp [pinFromOutputs, h]

/-- A search among outputs finds something. -/
theorem pinFromOutputs_cons (nodeId pinId : String) (first : NodeOutput) (rest : List NodeOutput) :
    ∃ v, pinFromOutputs (first :: rest) nodeId pinId = .ok v := by
  rw [pinFromOutputs]
  split
  · exact ⟨_, rfl⟩
  · exact ⟨_, rfl⟩

section Beside

variable {memo : PureMemo} {P : String → String → Prop} {k : ℕ} {nodeId pinId : String}
  {traceId : ℕ} {payload : Value}

theorem Keeps.refl (memo : PureMemo) : Keeps memo memo := fun _ _ _ _ h => h

/-- What was not there is inserted without taking anything away. -/
theorem Keeps.insert {memo' : PureMemo} (h : Keeps memo memo') {hash : UInt64}
    (hnone : memo'.inner nodeId traceId hash = none) :
    Keeps memo (memo'.insert nodeId traceId hash payload) := by
  intro n t i cached hcached
  have hold := h n t i cached hcached
  simp only [PureMemo.insert]
  split
  · rename_i heq
    obtain ⟨rfl, rfl, rfl⟩ := heq
    rw [hnone] at hold
    cases hold
  · exact hold

theorem Remembered.insert (h : E.Remembered memo) (hinput : E.Input nodeId traceId payload)
    {first : NodeOutput} {rest : List NodeOutput}
    (hexecute : E.execute 0 nodeId traceId payload = .ok ⟨first :: rest⟩) :
    E.Remembered (memo.insert nodeId traceId (E.inputHash payload) first.payload) := by
  intro n t i cached hcached
  simp only [PureMemo.insert] at hcached
  split at hcached
  · rename_i heq
    obtain ⟨rfl, rfl, rfl⟩ := heq
    exact ⟨payload, first, rest, hinput, rfl, hexecute, (Option.some.inj hcached).symm⟩
  · exact h n t i cached hcached

theorem Remembered.clearTrace (h : E.Remembered memo) (traceId : ℕ) :
    E.Remembered (memo.clearTrace traceId) := by
  intro n t i cached hcached
  simp only [PureMemo.clearTrace] at hcached
  split at hcached
  · cases hcached
  · exact h n t i cached hcached

/-- What is found for an input is the first output for it. -/
theorem Remembered.found (h : E.Remembered memo) (hcoll : E.NoCollision)
    (hinput : E.Input nodeId traceId payload) {cached : Value}
    (hcached : memo.inner nodeId traceId (E.inputHash payload) = some cached) :
    ∃ first rest, E.execute 0 nodeId traceId payload = .ok ⟨first :: rest⟩ ∧
      cached = first.payload := by
  obtain ⟨payload', first, rest, hinput', hhash, hexecute, rfl⟩ := h _ _ _ _ hcached
  obtain rfl := hcoll nodeId traceId payload' payload hinput' hinput hhash
  exact ⟨first, rest, hexecute, rfl⟩

theorem follows_look {α : Type} (f : ℕ → α) :
    Fueled.Follows (E.Beside memo) (E.Departs P rank k) (look f) (look f) := by
  apply Fueled.Follows.access
  intro s t h
  exact ⟨by rw [h.clock], by rw [h.clock], h.remembered, h.keeps⟩

/-- The evaluation of a node follows the one without a memo, or finds an output without the
pin. -/
theorem follows_evaluatePure (hdet : E.Deterministic) (hcoll : E.NoCollision)
    (hinput : E.Input nodeId traceId payload) (hP : P nodeId pinId) (hk : rank nodeId < k) :
    Fueled.Follows (E.Beside memo) (E.Departs P rank k)
      (E.evaluatePure PureMemo.ops nodeId pinId traceId payload)
      (E.evaluatePure noMemo nodeId pinId traceId payload) := by
  intro s t h
  have hexecuted : ∀ executed, E.execute executed nodeId traceId payload =
      E.execute 0 nodeId traceId payload := fun executed => hdet executed 0 nodeId traceId payload
  have hnone : noMemo.get t.memo nodeId traceId (E.inputHash payload) = none := rfl
  have hfresh := evaluatePure_miss noMemo pinId hnone
  rw [hexecuted] at hfresh
  cases hhit : s.memo.inner nodeId traceId (E.inputHash payload) with
  | some cached =>
      obtain ⟨first, rest, hexecute, rfl⟩ := h.remembered.found hcoll hinput hhit
      rw [hexecute] at hfresh
      have hfound : PureMemo.ops.get s.memo nodeId traceId (E.inputHash payload) =
        some first.payload := hhit
      rw [evaluatePure_hit pinId hfound, hfresh]
      cases hpin : extractPinFromPayload first.payload pinId with
      | some v =>
          refine .inr (.inl ⟨.ok v, s, ⟨t.clock, t.executed + 1, ()⟩, rfl, ?_, h.clock,
            h.remembered, h.keeps⟩)
          dsimp only
          rw [pinFromOutputs_of_first hpin]
      | none =>
          refine .inr (.inr ⟨_, s, ⟨s.clock, 0, ()⟩, rfl, ⟨nodeId, pinId, hP, hk, ?_⟩, rfl,
            h.remembered, h.keeps⟩)
          intro hkeyed
          have hsome := hkeyed traceId payload 0 first rest hinput hexecute
          rw [hpin] at hsome
          cases hsome
  | none =>
      rw [evaluatePure_miss PureMemo.ops pinId hhit, hfresh, hexecuted]
      cases hexecute : E.execute 0 nodeId traceId payload with
      | error e => exact .inr (.inl ⟨_, _, _, rfl, rfl, h.clock, h.remembered, h.keeps⟩)
      | ok result =>
          obtain ⟨outputs⟩ := result
          refine .inr (.inl ⟨_, _, _, rfl, rfl, h.clock, ?_, ?_⟩)
          · cases outputs with
            | nil => exact h.remembered
            | cons first rest => exact h.remembered.insert hinput hexecute
          · cases outputs with
            | nil => exact h.keeps
            | cons first rest => exact h.keeps.insert hhit

theorem follows_awaitSlot (nodeId pinId : String) (cache : OutputCache) (policy : InputPolicy) :
    Fueled.Follows (E.Beside memo) (E.Departs P rank k) (E.awaitSlot nodeId pinId cache policy)
      (E.awaitSlot nodeId pinId cache policy) := by
  unfold awaitSlot
  split
  · exact Fueled.Follows.fail _
  · refine Fueled.Follows.bind (follows_look _) fun present _ => ?_
    cases present with
    | some cached => exact Fueled.Follows.pure _
    | none =>
        refine Fueled.Follows.bind (follows_look _) fun outcome _ => ?_
        cases outcome with
        | closed => exact Fueled.Follows.fail _
        | timedOut =>
            exact Fueled.Follows.bind (follows_look _) fun _ _ => Fueled.Follows.ofExcept _
        | changed =>
            refine Fueled.Follows.bind (follows_look _) fun snapshot _ => ?_
            cases snapshot with
            | none => exact Fueled.Follows.fail _
            | some cached =>
                dsimp only
                split
                · exact Fueled.Follows.fail _
                · exact Fueled.Follows.pure _

theorem follows_readSlot (nodeId pinId : String) (policy : InputPolicy) :
    Fueled.Follows (E.Beside memo) (E.Departs P rank k) (E.readSlot nodeId pinId policy)
      (E.readSlot nodeId pinId policy) := by
  refine Fueled.Follows.bind (follows_look _) fun seen _ => ?_
  match seen with
  | none => exact Fueled.Follows.fail _
  | some (_, some cached) => exact Fueled.Follows.pure _
  | some (cache, none) =>
      dsimp only
      cases policy.emptyPolicy with
      | blockUntilReady => exact follows_awaitSlot nodeId pinId cache policy
      | defaultValue v => exact Fueled.Follows.pure _
      | skip => exact Fueled.Follows.pure _

/-- The pull of inputs follows if that of each of them does. -/
theorem follows_pullDataInputs {pull : String → String → InputPolicy → Pull PureMemo Value}
    {pull' : String → String → InputPolicy → Pull Unit Value} {consumerId : String}
    (consumer : NodeTrait) (execPayload : Value)
    (h : ∀ entry ∈ E.edgesByConsumer.forConsumer consumerId, ∀ policy,
      Fueled.Follows (E.Beside memo) (E.Departs P rank k)
        (pull entry.upstreamNodeId entry.upstreamOutputPinId policy)
        (pull' entry.upstreamNodeId entry.upstreamOutputPinId policy)) :
    Fueled.Follows (E.Beside memo) (E.Departs P rank k)
      (E.pullDataInputs pull consumerId consumer execPayload)
      (E.pullDataInputs pull' consumerId consumer execPayload) := by
  unfold pullDataInputs
  dsimp only
  split
  · exact Fueled.Follows.pure _
  · refine Fueled.Follows.bind (Fueled.Follows.collect fun entry hentry => ?_) fun values _ => ?_
    · exact h entry hentry _
    · exact Fueled.Follows.pure _

/-- A pull follows the pull without a memo, with fuel for both. -/
theorem follows_pullOne (hrank : E.Ranked rank) (hdet : E.Deterministic) (hcoll : E.NoCollision)
    (hrequested : ∀ nodeId pinId, E.Requested nodeId pinId → P nodeId pinId) {fuel : ℕ}
    (hfuel : rank nodeId < fuel) (hk : rank nodeId < k) (hP : P nodeId pinId) (policy : InputPolicy) :
    Fueled.Follows (E.Beside memo) (E.Departs P rank k)
      (E.pullOne PureMemo.ops traceId fuel nodeId pinId policy)
      (E.pullOne noMemo traceId fuel nodeId pinId policy) := by
  induction fuel generalizing nodeId pinId policy with
  | zero => omega
  | succ fuel ih =>
      rw [pullOne, pullOne]
      cases hnode : E.nodesIndex.lookup nodeId with
      | none => exact Fueled.Follows.fail _
      | some node =>
          by_cases hform : isPureForm node = true
          · simp only [if_pos hform]
            refine Fueled.Follows.bind (follows_pullDataInputs node _ ?_) fun payload hpayload => ?_
            · intro entry hentry policy
              have hlt := hrank nodeId entry hentry
              exact ih (by omega) (by omega) (hrequested _ _ ⟨nodeId, entry, hentry, rfl, rfl⟩) policy
            · obtain ⟨s, s', hs⟩ := hpayload
              have hinput : E.Input nodeId traceId payload := by
                refine ⟨node, s, s', hnode, hform, (ends_inputs_iff hrank).mpr ?_⟩
                rw [← inputs_fuel hrank traceId node (Nat.le_of_lt_succ hfuel)]
                exact hs
              exact follows_evaluatePure hdet hcoll hinput hP hk
          · simp only [if_neg hform]
            exact follows_readSlot nodeId pinId policy

end Beside

/-! ## What makes the memo transparent -/

/-- With enough fuel a pull with a memo that remembers ends as the pull without, or departs. -/
theorem beside_pullOne (hrank : E.Ranked rank) (hdet : E.Deterministic) (hcoll : E.NoCollision)
    {P : String → String → Prop} (hrequested : ∀ nodeId pinId, E.Requested nodeId pinId → P nodeId pinId)
    {memo : PureMemo} (hmemo : E.Remembered memo) {nodeId pinId : String} (hP : P nodeId pinId)
    (policy : InputPolicy) (traceId clock executed executed' : ℕ) :
    (∃ r s' t', E.pullOne PureMemo.ops traceId (rank nodeId + 1) nodeId pinId policy
        ⟨clock, executed, memo⟩ = some (r, s') ∧
      E.pullOne noMemo traceId (rank nodeId + 1) nodeId pinId policy ⟨clock, executed', ()⟩ =
        some (r, t') ∧ E.Remembered s'.memo) ∨
    ∃ e s', E.pullOne PureMemo.ops traceId (rank nodeId + 1) nodeId pinId policy
        ⟨clock, executed, memo⟩ = some (.error e, s') ∧ E.Departs P rank (rank nodeId + 1) e ∧
      E.Remembered s'.memo := by
  have hlt := Nat.lt_succ_self (rank nodeId)
  have hbeside : E.Beside memo ⟨clock, executed, memo⟩ ⟨clock, executed', ()⟩ :=
    ⟨rfl, hmemo, Keeps.refl memo⟩
  rcases follows_pullOne hrank hdet hcoll hrequested hlt hlt hP policy _ _ hbeside with
    ⟨hnone, -⟩ | ⟨r, s', t', hs, ht, h⟩ | ⟨e, s', t', hs, he, h⟩
  · exact absurd hnone (returns_pullOne hrank traceId hlt pinId policy _)
  · exact .inl ⟨r, s', t', hs, ht, h.remembered⟩
  · exact .inr ⟨e, s', hs, he, h.remembered⟩

/-- A memo that was reached remembers. -/
theorem remembered_of_reached (hrank : E.Ranked rank) (hdet : E.Deterministic)
    (hcoll : E.NoCollision) {memo : PureMemo} (h : E.ReachedMemo memo) : E.Remembered memo := by
  induction h with
  | new =>
      intro n t i cached hcached
      cases hcached
  | clearTrace traceId _ ih => exact ih.clearTrace traceId
  | @pull memo nodeId pinId policy traceId clock executed r s' _ hpull ih =>
      have hends := (ends_pullOne_iff hrank).mp hpull
      have htrue : ∀ n q, E.Requested n q → True := fun _ _ _ => trivial
      rcases beside_pullOne hrank hdet hcoll htrue ih trivial policy traceId clock executed 0 with
        ⟨r', s₁, t₁, hs, -, h⟩ | ⟨e, s₁, hs, -, h⟩
      · rw [hends] at hs
        cases hs
        exact h
      · rw [hends] at hs
        cases hs
        exact h

/-- If first outputs have the pins that are pulled, the memo makes no difference. -/
theorem transparent_of_keyed (hrank : E.Ranked rank) (hdet : E.Deterministic)
    (hcoll : E.NoCollision) (hkeyed : E.Keyed) : E.Transparent := by
  intro memo hmemo nodeId pinId hrequested policy traceId clock executed executed'
  have hremembered := remembered_of_reached hrank hdet hcoll hmemo
  rcases beside_pullOne hrank hdet hcoll (fun _ _ h => h) hremembered hrequested policy traceId clock
    executed executed' with ⟨r, s', t', hs, ht, -⟩ | ⟨e, s', -, ⟨m, q, hreq, -, hnot⟩, -⟩
  · exact ⟨r, s', t', (ends_pullOne_iff hrank).mpr hs, (ends_pullOne_iff hrank).mpr ht⟩
  · exact absurd (hkeyed m q hreq) hnot

/-- After an evaluation the first output for the input is remembered. -/
theorem evaluatePure_remembers (hdet : E.Deterministic) (hcoll : E.NoCollision) {nodeId : String}
    (pinId : String) {traceId : ℕ} {payload : Value} (hinput : E.Input nodeId traceId payload)
    {first : NodeOutput} {rest : List NodeOutput}
    (hexecute : E.execute 0 nodeId traceId payload = .ok ⟨first :: rest⟩) {s : PullState PureMemo}
    (hs : E.Remembered s.memo) :
    ∃ r s', E.evaluatePure PureMemo.ops nodeId pinId traceId payload s = some (r, s') ∧
      s'.memo.inner nodeId traceId (E.inputHash payload) = some first.payload := by
  cases hhit : s.memo.inner nodeId traceId (E.inputHash payload) with
  | some cached =>
      obtain ⟨first', rest', hexecute', rfl⟩ := hs.found hcoll hinput hhit
      rw [hexecute, Except.ok.injEq, NodeExecution.mk.injEq, List.cons.injEq] at hexecute'
      have hfound : PureMemo.ops.get s.memo nodeId traceId (E.inputHash payload) =
        some first'.payload := hhit
      exact ⟨_, s, evaluatePure_hit pinId hfound, by rw [hhit, hexecute'.1]⟩
  | none =>
      have hmiss : PureMemo.ops.get s.memo nodeId traceId (E.inputHash payload) = none := hhit
      have heval := evaluatePure_miss PureMemo.ops pinId hmiss
      rw [hdet s.executed 0, hexecute] at heval
      exact ⟨_, _, heval, by simp [remember, PureMemo.ops, PureMemo.insert]⟩

/-- If the memo makes no difference then first outputs have the pins that are pulled: otherwise a
second pull of the same trace finds the output that the first one could do without. -/
theorem keyed_of_transparent (hrank : E.Ranked rank) (hdet : E.Deterministic)
    (hcoll : E.NoCollision) (h : E.Transparent) : E.Keyed := by
  have hall : ∀ k nodeId pinId, rank nodeId = k → E.Requested nodeId pinId →
      E.KeyedAt nodeId pinId := by
    intro k
    induction k using Nat.strong_induction_on with
    | _ k ih =>
        intro nodeId pinId hk hrequested traceId payload executed first rest hinput hexecute
        by_contra hmissing
        rw [Bool.not_eq_true, Option.isSome_eq_false_iff, Option.isNone_iff_eq_none] at hmissing
        rw [hdet executed 0] at hexecute
        obtain ⟨node, s, s', hnode, hform, hends⟩ := id hinput
        have hfresh := (ends_inputs_iff hrank).mp hends
        -- the nodes above have their pins, so that the input is pulled as without a memo
        have hinputs : ∀ memo, E.Remembered memo → ∃ s₁,
            E.pullDataInputs (E.pullOne PureMemo.ops traceId (rank nodeId)) nodeId node (.object [])
              ⟨s.clock, 0, memo⟩ = some (.ok payload, s₁) ∧
            E.Remembered s₁.memo ∧ Keeps memo s₁.memo := by
          intro memo hmemo
          have hbeside : E.Beside memo ⟨s.clock, 0, memo⟩ s := ⟨rfl, hmemo, Keeps.refl memo⟩
          have hentries : ∀ entry ∈ E.edgesByConsumer.forConsumer nodeId, ∀ policy,
              Fueled.Follows (E.Beside memo) (E.Departs E.Requested rank (rank nodeId))
                (E.pullOne PureMemo.ops traceId (rank nodeId) entry.upstreamNodeId
                  entry.upstreamOutputPinId policy)
                (E.pullOne noMemo traceId (rank nodeId) entry.upstreamNodeId
                  entry.upstreamOutputPinId policy) := by
            intro entry hentry policy
            have hlt := hrank nodeId entry hentry
            exact follows_pullOne hrank hdet hcoll (fun _ _ h => h) hlt hlt
              ⟨nodeId, entry, hentry, rfl, rfl⟩ policy
          rcases follows_pullDataInputs node (.object []) hentries _ _ hbeside with
            ⟨-, hnone⟩ | ⟨r, s₁, t₁, hs, ht, hbeside'⟩ | ⟨e, s₁, t₁, -, ⟨m, q, hreq, hlt, hnot⟩, -⟩
          · rw [hfresh] at hnone
            cases hnone
          · rw [hfresh] at ht
            cases ht
            exact ⟨s₁, hs, hbeside'.remembered, hbeside'.keeps⟩
          · exact absurd (ih (rank m) (hk ▸ hlt) m q rfl hreq) hnot
        have hpull : ∀ {μ : Type} {ops : MemoOps μ} {s₀ s₁ : PullState μ},
            E.pullDataInputs (E.pullOne ops traceId (rank nodeId)) nodeId node (.object []) s₀ =
              some (.ok payload, s₁) →
            E.pullOne ops traceId (rank nodeId + 1) nodeId pinId ⟨.skip, none, none⟩ s₀ =
              E.evaluatePure ops nodeId pinId traceId payload s₁ := by
          intro μ ops s₀ s₁ hs
          simp [pullOne, hnode, hform, bind, hs]
        have hnew : E.Remembered .new := remembered_of_reached hrank hdet hcoll .new
        obtain ⟨s₁, hs₁, hremembered₁, -⟩ := hinputs .new hnew
        obtain ⟨r, s₂, hs₂, hfound⟩ :=
          evaluatePure_remembers hdet hcoll pinId hinput hexecute hremembered₁
        have hreached : E.ReachedMemo s₂.memo :=
          .pull .new ((ends_pullOne_iff hrank).mpr ((hpull hs₁).trans hs₂))
        obtain ⟨s₃, hs₃, -, hkeeps⟩ :=
          hinputs s₂.memo (remembered_of_reached hrank hdet hcoll hreached)
        have hhit : PureMemo.ops.get s₃.memo nodeId traceId (E.inputHash payload) =
          some first.payload := hkeeps _ _ _ _ hfound
        have hfails := (hpull hs₃).trans (evaluatePure_hit pinId hhit)
        have hgives := (hpull hfresh).trans (evaluatePure_miss noMemo pinId rfl)
        rw [hmissing] at hfails
        rw [hdet s'.executed 0, hexecute] at hgives
        obtain ⟨v, hv⟩ := pinFromOutputs_cons nodeId pinId first rest
        obtain ⟨r', s₄, t₄, hr, ht⟩ := h s₂.memo hreached nodeId pinId hrequested ⟨.skip, none, none⟩
          traceId s.clock 0 s.executed
        rw [ends_pullOne_iff hrank, hfails] at hr
        rw [ends_pullOne_iff hrank, hgives] at ht
        cases hr
        dsimp only at ht
        rw [hv] at ht
        cases ht
  intro nodeId pinId hrequested
  exact hall (rank nodeId) nodeId pinId rfl hrequested

/-- For every acyclic graph of data edges, deterministic nodes and a hash without collisions: after
any pulls and forgotten traces a pull with the memo ends as a pull without, if and only if first
outputs have the pins that are pulled from them. -/
theorem memo_transparent_iff {nodes : NodeIndex} {classified : ClassifiedEdges}
    (hE : E.Over nodes classified.dataEdges) (hacyclic : detectNonExecEdgeCycle classified = .ok ())
    (hdet : E.Deterministic) (hcoll : E.NoCollision) : E.Transparent ↔ E.Keyed := by
  obtain ⟨rank, hcombined⟩ := exists_rank hacyclic
  have hrank : E.Ranked rank :=
    hE.ranked fun edge hedge => hcombined edge (List.mem_append_left _ hedge)
  constructor
  · intro h
    exact keyed_of_transparent hrank hdet hcoll h
  · intro h
    exact transparent_of_keyed hrank hdet hcoll h

/-! ## Two meters -/

/-- A pure-form node with one output. -/
def meterNode : NodeTrait := ⟨"meter", [], [Prepared.pinOf "level" .output .data]⟩

def meterNodes : NodeIndex :=
  ((∅ : NodeIndex).insert "meter" meterNode).insert "alarm" alarmNode

def meterEdge : WorkflowEdge := ⟨"meter", "alarm", some "level", some "level", none⟩

/-- The meter gives a payload. -/
def meterEnv (payload : Value) : PullEnv where
  nodesIndex := meterNodes
  edgesByConsumer := buildEdgesByConsumer [meterEdge]
  outputCaches _ _ := none
  now _ := 0
  wait _ := .closed
  execute _ _ _ _ := .ok (.broadcast payload)
  inputHash _ := 0

theorem meterEnv_over (payload : Value) :
    (meterEnv payload).Over meterNodes (ClassifiedEdges.mk [] [meterEdge] []).dataEdges :=
  ⟨rfl, rfl⟩

/-- The meter has one input only. -/
theorem meterEnv_input {payload v : Value} {nodeId : String} {traceId : ℕ}
    (h : (meterEnv payload).Input nodeId traceId v) : nodeId = "meter" ∧ v = .object [] := by
  obtain ⟨node, s, s', hnode, hform, bound, hends⟩ := h
  change meterNodes.lookup nodeId = some node at hnode
  by_cases halarm : nodeId = "alarm"
  · subst halarm
    rw [meterNodes, AList.lookup_insert] at hnode
    obtain rfl := Option.some.inj hnode
    exact absurd hform (by decide)
  · rw [meterNodes, AList.lookup_insert_ne halarm] at hnode
    by_cases hmeter : nodeId = "meter"
    · subst hmeter
      have hpull := hends bound (Nat.le_refl _)
      have hnothing : (meterEnv payload).edgesByConsumer.forConsumer "meter" = [] := rfl
      have hgiven : (meterEnv payload).pullDataInputs
          ((meterEnv payload).pullOne noMemo traceId bound) "meter" node (.object []) s =
            some (.ok (.object []), s) := by
        simp [pullDataInputs, hnothing]
      have hsame := hgiven.symm.trans hpull
      exact ⟨rfl, (Except.ok.inj (Prod.mk.inj (Option.some.inj hsame)).1).symm⟩
    · rw [AList.lookup_insert_ne hmeter] at hnode
      cases hnode

theorem meterEnv_noCollision (payload : Value) : (meterEnv payload).NoCollision := by
  intro nodeId traceId v v' h h' _
  rw [(meterEnv_input h).2, (meterEnv_input h').2]

/-- What is pulled of the meter is its level. -/
theorem meterEnv_requested {payload : Value} {nodeId pinId : String}
    (h : (meterEnv payload).Requested nodeId pinId) : nodeId = "meter" ∧ pinId = "level" := by
  obtain ⟨consumerId, entry, hentry, rfl, rfl⟩ := h
  obtain ⟨edge, hedge, -, rfl⟩ := mem_forConsumer.mp hentry
  obtain rfl := List.mem_singleton.mp hedge
  exact ⟨rfl, rfl⟩

/-- A meter that gives an object with its level is read alike with the memo and without. -/
theorem meter_transparent : (meterEnv (.object [("level", .number (.posInt 7))])).Keyed ∧
    (meterEnv (.object [("level", .number (.posInt 7))])).Transparent := by
  have hkeyed : (meterEnv (.object [("level", .number (.posInt 7))])).Keyed := by
    intro nodeId pinId hrequested traceId v executed first rest _ hexecute
    obtain ⟨rfl, rfl⟩ := meterEnv_requested hrequested
    cases hexecute
    rfl
  exact ⟨hkeyed, (memo_transparent_iff (meterEnv_over _) (by decide) (fun _ _ _ _ _ => rfl)
    (meterEnv_noCollision _)).mpr hkeyed⟩

/-- A meter that gives a plain number is read the first time, and fails the second time. -/
theorem plain_meter_fails_again :
    (∃ s', (meterEnv (.number (.posInt 7))).pullOne PureMemo.ops 0 1 "meter" "level"
        ⟨.skip, none, none⟩ ⟨0, 0, .new⟩ = some (.ok (.number (.posInt 7)), s') ∧
      (meterEnv (.number (.posInt 7))).pullOne PureMemo.ops 0 1 "meter" "level"
        ⟨.skip, none, none⟩ s' = some (.error (.dataPinCacheEmpty "meter" "level"), s')) ∧
    ¬ (meterEnv (.number (.posInt 7))).Transparent := by
  refine ⟨⟨_, rfl, rfl⟩, ?_⟩
  intro h
  have hacyclic : detectNonExecEdgeCycle ⟨[], [meterEdge], []⟩ = .ok () := by decide
  obtain ⟨rank, hcombined⟩ := exists_rank hacyclic
  have hrank : (meterEnv (.number (.posInt 7))).Ranked rank :=
    (meterEnv_over _).ranked fun edge hedge => hcombined edge (List.mem_append_left _ hedge)
  have hkeyed := keyed_of_transparent hrank (fun _ _ _ _ _ => rfl) (meterEnv_noCollision _) h
  have hinput : (meterEnv (.number (.posInt 7))).Input "meter" 0 (.object []) :=
    ⟨meterNode, ⟨0, 0, ()⟩, ⟨0, 0, ()⟩, by decide, by decide, 0, fun fuel _ => rfl⟩
  have hrequested : (meterEnv (.number (.posInt 7))).Requested "meter" "level" :=
    ⟨"alarm", meterEdge.dataInEdge, by decide, rfl, rfl⟩
  exact absurd (hkeyed "meter" "level" hrequested 0 (.object []) 0 _ _ hinput rfl) (by decide)

end PullEnv
end Nazh
