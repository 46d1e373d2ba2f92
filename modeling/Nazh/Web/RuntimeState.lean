import Mathlib.Data.List.DropRight
import Mathlib.Data.List.Lattice
import Mathlib.Data.List.Nodup
import Nazh.Json.Value

/-!
# The state of the canvas

The canvas folds the events of a workflow into lists of nodes. The state belongs to one trace: an
event of another trace starts it anew. What the engine observes of its edges changes nothing.
-/

namespace Nazh.Web

/-! ## The reducer -/

/-- The `kind` of a `ParsedWorkflowEvent`. -/
inductive EventKind
  | started | completed | failed | output | finished | edgeTransmitSummary | backpressureDetected
  deriving DecidableEq, Repr

/-- What was parsed of the payload of an event. -/
structure ParsedWorkflowEvent where
  kind : EventKind
  nodeId : String
  traceId : String
  error : Option String := none
  metadata : Option Fields := none
  deriving DecidableEq

structure WorkflowRuntimeState where
  traceId : Option String
  lastEventType : Option EventKind
  lastNodeId : Option String
  lastError : Option String
  lastUpdatedAt : Option ℕ
  activeNodeIds : List String
  completedNodeIds : List String
  failedNodeIds : List String
  outputNodeIds : List String
  /-- The last payload rendered by each debug console. -/
  debugOutputs : Fields
  deriving DecidableEq

/-- `EMPTY_RUNTIME_STATE`. -/
def emptyRuntimeState : WorkflowRuntimeState where
  traceId := none
  lastEventType := none
  lastNodeId := none
  lastError := none
  lastUpdatedAt := none
  activeNodeIds := []
  completedNodeIds := []
  failedNodeIds := []
  outputNodeIds := []
  debugOutputs := []

def pushUnique (items : List String) (item : String) : List String :=
  if item ∈ items then items else items ++ [item]

def removeItem (items : List String) (item : String) : List String :=
  items.filter fun current => current ≠ item

@[simp] theorem mem_pushUnique {items : List String} {item x : String} :
    x ∈ pushUnique items item ↔ x ∈ items ∨ x = item := by
  unfold pushUnique
  split
  case isTrue hmem => exact ⟨.inl, fun h => h.elim id (· ▸ hmem)⟩
  case isFalse => simp

@[simp] theorem mem_removeItem {items : List String} {item x : String} :
    x ∈ removeItem items item ↔ x ∈ items ∧ x ≠ item := by
  simp [removeItem]

theorem nodup_pushUnique {items : List String} (item : String) (h : items.Nodup) :
    (pushUnique items item).Nodup := by
  unfold pushUnique
  split
  case isTrue => exact h
  case isFalse hmem =>
    refine List.nodup_append.mpr ⟨h, List.nodup_singleton item, ?_⟩
    rintro x hx _ hy rfl
    exact hmem (List.mem_singleton.mp hy ▸ hx)

theorem nodup_removeItem {items : List String} (item : String) (h : items.Nodup) :
    (removeItem items item).Nodup :=
  h.filter _

/-- The event is about an edge, not about the life of a node. -/
def ParsedWorkflowEvent.isObservation (event : ParsedWorkflowEvent) : Bool :=
  event.kind = .edgeTransmitSummary || event.kind = .backpressureDetected

/-- The text that a debug console rendered. -/
def ParsedWorkflowEvent.renderedPayload (event : ParsedWorkflowEvent) : Option String := do
  let metadata ← event.metadata
  let debugMeta ← metadata.lookup "debug_console"
  let rendered ← debugMeta.get "rendered_payload"
  rendered.asStr

/-- The state that an event of the trace `traceId` is folded into. -/
def WorkflowRuntimeState.baseFor (current : WorkflowRuntimeState) (traceId : String) :
    WorkflowRuntimeState :=
  if current.traceId = some traceId then current
  else { emptyRuntimeState with traceId := some traceId }

/-- `now` is what `Date.now()` says. -/
def reduceRuntimeState (now : ℕ) (current : WorkflowRuntimeState) (event : ParsedWorkflowEvent) :
    WorkflowRuntimeState :=
  if event.isObservation then current
  else
    let baseState := current.baseFor event.traceId
    let nextState := { baseState with
      traceId := some event.traceId
      lastEventType := some event.kind
      lastNodeId := some event.nodeId
      lastError := if event.kind = .failed then event.error else none
      lastUpdatedAt := some now }
    match event.kind with
    | .started => { nextState with
        activeNodeIds := pushUnique baseState.activeNodeIds event.nodeId
        completedNodeIds := removeItem baseState.completedNodeIds event.nodeId
        failedNodeIds := removeItem baseState.failedNodeIds event.nodeId
        outputNodeIds := removeItem baseState.outputNodeIds event.nodeId }
    | .completed => { nextState with
        activeNodeIds := removeItem baseState.activeNodeIds event.nodeId
        completedNodeIds := pushUnique baseState.completedNodeIds event.nodeId
        failedNodeIds := removeItem baseState.failedNodeIds event.nodeId
        outputNodeIds := baseState.outputNodeIds
        debugOutputs := match event.renderedPayload with
          | some rendered => baseState.debugOutputs.insert event.nodeId (.string rendered)
          | none => baseState.debugOutputs }
    | .failed => { nextState with
        activeNodeIds := removeItem baseState.activeNodeIds event.nodeId
        completedNodeIds := removeItem baseState.completedNodeIds event.nodeId
        failedNodeIds := pushUnique baseState.failedNodeIds event.nodeId
        outputNodeIds := removeItem baseState.outputNodeIds event.nodeId }
    | .output => { nextState with
        activeNodeIds := removeItem baseState.activeNodeIds event.nodeId
        completedNodeIds := pushUnique baseState.completedNodeIds event.nodeId
        failedNodeIds := removeItem baseState.failedNodeIds event.nodeId
        outputNodeIds := pushUnique baseState.outputNodeIds event.nodeId }
    | .finished => { nextState with
        activeNodeIds := []
        completedNodeIds := baseState.completedNodeIds
        failedNodeIds := baseState.failedNodeIds
        outputNodeIds := baseState.outputNodeIds }
    | .edgeTransmitSummary | .backpressureDetected => nextState

section Reduce

variable {now : ℕ} {current : WorkflowRuntimeState} {event : ParsedWorkflowEvent}

theorem reduce_observation (h : event.isObservation = true) :
    reduceRuntimeState now current event = current := by
  rw [reduceRuntimeState, if_pos h]

/-- The state is of the trace of the event. -/
theorem traceId_reduce (h : event.isObservation = false) :
    (reduceRuntimeState now current event).traceId = some event.traceId := by
  rw [reduceRuntimeState, if_neg (by simp [h])]
  cases event.kind <;> rfl

/-- What the state was of another trace is lost. -/
theorem reduce_of_ne (h : event.isObservation = false)
    (hne : current.traceId ≠ some event.traceId) :
    reduceRuntimeState now current event = reduceRuntimeState now emptyRuntimeState event := by
  have hbase : current.baseFor event.traceId = emptyRuntimeState.baseFor event.traceId := by
    rw [WorkflowRuntimeState.baseFor, if_neg hne, WorkflowRuntimeState.baseFor,
      if_neg (by simp [emptyRuntimeState])]
  have hneg : ¬ event.isObservation = true := by simp [h]
  rw [reduceRuntimeState, reduceRuntimeState, if_neg hneg, if_neg hneg, hbase]

end Reduce

/-! ## The lists of nodes -/

/-- A node is in one of three lists at most, once, and has an output only when it completed. -/
structure WorkflowRuntimeState.SetsKept (state : WorkflowRuntimeState) : Prop where
  active_nodup : state.activeNodeIds.Nodup
  completed_nodup : state.completedNodeIds.Nodup
  failed_nodup : state.failedNodeIds.Nodup
  active_completed : state.activeNodeIds.Disjoint state.completedNodeIds
  active_failed : state.activeNodeIds.Disjoint state.failedNodeIds
  completed_failed : state.completedNodeIds.Disjoint state.failedNodeIds
  output_completed : state.outputNodeIds ⊆ state.completedNodeIds

namespace WorkflowRuntimeState.SetsKept

theorem empty : emptyRuntimeState.SetsKept where
  active_nodup := List.nodup_nil
  completed_nodup := List.nodup_nil
  failed_nodup := List.nodup_nil
  active_completed := List.disjoint_nil_left _
  active_failed := List.disjoint_nil_left _
  completed_failed := List.disjoint_nil_left _
  output_completed := List.nil_subset _

theorem baseFor {state : WorkflowRuntimeState} (h : state.SetsKept) (traceId : String) :
    (state.baseFor traceId).SetsKept := by
  unfold WorkflowRuntimeState.baseFor
  split
  · exact h
  · exact ⟨empty.1, empty.2, empty.3, empty.4, empty.5, empty.6, empty.7⟩

/-- A list that lost the node is apart from one that may have got it. -/
theorem disjoint_moved {xs ys zs : List String} {item : String} (h : xs.Disjoint ys)
    (hzs : ∀ x ∈ zs, x ∈ ys ∨ x = item) : (removeItem xs item).Disjoint zs := by
  intro x hx hz
  obtain ⟨hxs, hne⟩ := mem_removeItem.mp hx
  exact (hzs x hz).elim (h hxs) hne

theorem disjoint_of_moved {xs ys zs : List String} {item : String} (h : xs.Disjoint ys)
    (hzs : ∀ x ∈ zs, x ∈ xs ∨ x = item) : zs.Disjoint (removeItem ys item) :=
  (disjoint_moved h.symm hzs).symm

theorem reduce {now : ℕ} {state : WorkflowRuntimeState} {event : ParsedWorkflowEvent}
    (h : state.SetsKept) : (reduceRuntimeState now state event).SetsKept := by
  have hb := h.baseFor event.traceId
  have hpush : ∀ ys : List String, ∀ x ∈ pushUnique ys event.nodeId, x ∈ ys ∨ x = event.nodeId :=
    fun ys x hx => mem_pushUnique.mp hx
  have hremove : ∀ ys : List String, ∀ x ∈ removeItem ys event.nodeId,
      x ∈ ys ∨ x = event.nodeId :=
    fun ys x hx => .inl (mem_removeItem.mp hx).1
  unfold reduceRuntimeState
  split
  · exact h
  · dsimp only
    generalize state.baseFor event.traceId = base at hb ⊢
    split
    case h_1 =>
      exact ⟨nodup_pushUnique _ hb.active_nodup, nodup_removeItem _ hb.completed_nodup,
        nodup_removeItem _ hb.failed_nodup,
        disjoint_of_moved hb.active_completed (hpush _),
        disjoint_of_moved hb.active_failed (hpush _),
        disjoint_moved hb.completed_failed (hremove _),
        fun x hx => by
          have hx := mem_removeItem.mp hx
          exact mem_removeItem.mpr ⟨hb.output_completed hx.1, hx.2⟩⟩
    case h_2 =>
      exact ⟨nodup_removeItem _ hb.active_nodup, nodup_pushUnique _ hb.completed_nodup,
        nodup_removeItem _ hb.failed_nodup,
        disjoint_moved hb.active_completed (hpush _),
        disjoint_moved hb.active_failed (hremove _),
        disjoint_of_moved hb.completed_failed (hpush _),
        fun x hx => mem_pushUnique.mpr (.inl (hb.output_completed hx))⟩
    case h_3 =>
      exact ⟨nodup_removeItem _ hb.active_nodup, nodup_removeItem _ hb.completed_nodup,
        nodup_pushUnique _ hb.failed_nodup,
        disjoint_moved hb.active_completed (hremove _),
        disjoint_moved hb.active_failed (hpush _),
        disjoint_moved hb.completed_failed (hpush _),
        fun x hx => by
          have hx := mem_removeItem.mp hx
          exact mem_removeItem.mpr ⟨hb.output_completed hx.1, hx.2⟩⟩
    case h_4 =>
      exact ⟨nodup_removeItem _ hb.active_nodup, nodup_pushUnique _ hb.completed_nodup,
        nodup_removeItem _ hb.failed_nodup,
        disjoint_moved hb.active_completed (hpush _),
        disjoint_moved hb.active_failed (hremove _),
        disjoint_of_moved hb.completed_failed (hpush _),
        fun x hx => mem_pushUnique.mpr ((mem_pushUnique.mp hx).imp_left fun h =>
          hb.output_completed h)⟩
    case h_5 =>
      exact ⟨List.nodup_nil, hb.completed_nodup, hb.failed_nodup, List.disjoint_nil_left _,
        List.disjoint_nil_left _, hb.completed_failed, hb.output_completed⟩
    all_goals exact ⟨hb.1, hb.2, hb.3, hb.4, hb.5, hb.6, hb.7⟩

end WorkflowRuntimeState.SetsKept

/-! ## Interleaved traces -/

/-- An event, and the time at which the reducer sees it. -/
structure Arrival where
  event : ParsedWorkflowEvent
  now : ℕ

namespace Arrival

/-- The event is one of the nodes of the trace. -/
def ofTrace (traceId : String) (a : Arrival) : Bool :=
  !a.event.isObservation && a.event.traceId = traceId

/-- The event is one of the nodes of another trace. -/
def ofOther (traceId : String) (a : Arrival) : Bool :=
  !a.event.isObservation && a.event.traceId ≠ traceId

end Arrival

/-- The state after the arrivals. -/
def canvas (arrivals : List Arrival) : WorkflowRuntimeState :=
  arrivals.foldl (fun state a => reduceRuntimeState a.now state a.event) emptyRuntimeState

/-- The events of a trace since the last event of another one. -/
def lastStretch (traceId : String) (arrivals : List Arrival) : List Arrival :=
  (arrivals.rtakeWhile fun a => !a.ofOther traceId).filter (·.ofTrace traceId)

/-- No event of another trace comes after one of this trace. -/
def Uninterrupted (traceId : String) (arrivals : List Arrival) : Prop :=
  arrivals.Pairwise fun a b => a.ofTrace traceId = true → b.ofOther traceId = false

instance (traceId : String) (arrivals : List Arrival) :
    Decidable (Uninterrupted traceId arrivals) := by
  unfold Uninterrupted
  infer_instance

@[simp] theorem canvas_concat (arrivals : List Arrival) (a : Arrival) :
    canvas (arrivals ++ [a]) = reduceRuntimeState a.now (canvas arrivals) a.event := by
  simp [canvas]

theorem setsKept_canvas (arrivals : List Arrival) : (canvas arrivals).SetsKept := by
  induction arrivals using List.reverseRecOn with
  | nil => exact .empty
  | append_singleton arrivals a ih =>
      rw [canvas_concat]
      exact ih.reduce

/-- A stretch goes on with an event of its trace, is over with one of another trace, and is not
touched by an observation. -/
theorem lastStretch_concat (traceId : String) (arrivals : List Arrival) (a : Arrival) :
    lastStretch traceId (arrivals ++ [a]) =
      if a.event.isObservation then lastStretch traceId arrivals
      else if a.event.traceId = traceId then lastStretch traceId arrivals ++ [a]
      else [] := by
  unfold lastStretch
  rw [List.rtakeWhile_concat]
  by_cases hobs : a.event.isObservation = true
  · simp [Arrival.ofOther, Arrival.ofTrace, hobs]
  · by_cases htrace : a.event.traceId = traceId
    · simp [Arrival.ofOther, Arrival.ofTrace, hobs, htrace]
    · simp [Arrival.ofOther, Arrival.ofTrace, hobs, htrace]

/-- The stretch of the trace of the state is all that the state is made of, and any other trace
has none. -/
theorem canvas_stretch (traceId : String) (arrivals : List Arrival) :
    ((canvas arrivals).traceId = some traceId →
        canvas arrivals = canvas (lastStretch traceId arrivals)) ∧
      ((canvas arrivals).traceId ≠ some traceId → lastStretch traceId arrivals = []) := by
  induction arrivals using List.reverseRecOn with
  | nil => exact ⟨fun h => by simp [canvas, emptyRuntimeState] at h, fun _ => rfl⟩
  | append_singleton arrivals a ih =>
      rw [canvas_concat, lastStretch_concat]
      cases hobs : a.event.isObservation with
      | true =>
          rw [reduce_observation hobs]
          exact ih
      | false =>
          rw [traceId_reduce hobs]
          by_cases htrace : a.event.traceId = traceId
          · refine ⟨fun _ => ?_, fun hne => absurd (congrArg some htrace) hne⟩
            rw [if_neg (by simp), if_pos htrace, canvas_concat]
            by_cases hsame : (canvas arrivals).traceId = some traceId
            · rw [← ih.1 hsame]
            · rw [ih.2 hsame, reduce_of_ne hobs (by rwa [htrace])]
              rfl
          · refine ⟨fun hsome => absurd (Option.some.inj hsome) htrace, fun _ => ?_⟩
            rw [if_neg (by simp), if_neg htrace]

theorem canvas_eq_lastStretch {traceId : String} {arrivals : List Arrival}
    (h : (canvas arrivals).traceId = some traceId) :
    canvas arrivals = canvas (lastStretch traceId arrivals) :=
  (canvas_stretch traceId arrivals).1 h

/-- The stretch of a trace that nothing interrupted is all of it. -/
theorem lastStretch_of_uninterrupted {traceId : String} {arrivals : List Arrival}
    (h : Uninterrupted traceId arrivals) :
    lastStretch traceId arrivals = arrivals.filter (·.ofTrace traceId) := by
  induction arrivals using List.reverseRecOn with
  | nil => rfl
  | append_singleton arrivals a ih =>
      obtain ⟨hbefore, -, hlast⟩ := List.pairwise_append.mp h
      rw [lastStretch_concat, List.filter_append]
      by_cases hobs : a.event.isObservation = true
      · rw [if_pos hobs, ih hbefore]
        simp [Arrival.ofTrace, hobs]
      · by_cases htrace : a.event.traceId = traceId
        · rw [if_neg hobs, if_pos htrace, ih hbefore]
          simp [Arrival.ofTrace, hobs, htrace]
        · -- The event is of another trace: this one has no event before it.
          have hother : a.ofOther traceId = true := by simp [Arrival.ofOther, hobs, htrace]
          have hnone : ∀ b ∈ arrivals, b.ofTrace traceId = false := by
            intro b hb
            by_contra hof
            have := hlast b hb a (List.mem_singleton_self a) (by simpa using hof)
            simp [hother] at this
          rw [if_neg hobs, if_neg htrace, List.filter_eq_nil_iff.mpr (by simpa using hnone)]
          simp [Arrival.ofTrace, htrace]

theorem canvas_of_trace {traceId : String} {arrivals : List Arrival}
    (h : (canvas arrivals).traceId = some traceId) (huninterrupted : Uninterrupted traceId arrivals) :
    canvas arrivals = canvas (arrivals.filter (·.ofTrace traceId)) := by
  rw [canvas_eq_lastStretch h, lastStretch_of_uninterrupted huninterrupted]

/-- **The canvas shows the last stretch of its trace**, which is the whole trace where nothing
interrupted it, and its lists of nodes are apart. -/
theorem canvas_folds_last_stretch (arrivals : List Arrival) :
    (∀ traceId, (canvas arrivals).traceId = some traceId →
      canvas arrivals = canvas (lastStretch traceId arrivals) ∧
      (Uninterrupted traceId arrivals →
        canvas arrivals = canvas (arrivals.filter (·.ofTrace traceId)))) ∧
    (canvas arrivals).SetsKept :=
  ⟨fun _ h => ⟨canvas_eq_lastStretch h, canvas_of_trace h⟩, setsKept_canvas arrivals⟩

/-- Two messages in flight: the event of the second hides the first node of the first. -/
theorem first_node_hidden :
    let arrivals := [("n1", "a"), ("n2", "b"), ("n3", "a")].map fun (nodeId, traceId) =>
      Arrival.mk { kind := .started, nodeId, traceId } 0
    (canvas arrivals).traceId = some "a" ∧ (canvas arrivals).activeNodeIds = ["n3"] ∧
      (canvas (arrivals.filter (·.ofTrace "a"))).activeNodeIds = ["n1", "n3"] := by
  decide

end Nazh.Web
