import Nazh.Graph.Consumers

/-!
# The two ways to push a payload

A trigger node pushes a payload with its handle, by `emit`. Any other node returns it from
`transform`, and the loop of the node applies the output: it writes the slots of the data and
reactive pins, pushes a reference along the edges, and tells with which metadata the stage
completed. The two are written apart, over two lists of targets made of the same edges.

What the store, the channels and the consumer of the results say while a payload is pushed is
given for each edge at its turn. A send that waits has the payload delivered once there is
room, so that it makes no difference to it whether the channel was full.
-/

namespace Nazh

open Lib

/-- What is told about a stage. -/
inductive ExecutionEvent
  | started (stage : String) (traceId : ℕ)
  | completed (stage : String) (traceId : ℕ) (metadata : Option Fields)
  | failed (stage : String) (traceId : ℕ) (error : String)
  | output (stage : String) (traceId : ℕ)
  deriving DecidableEq

/-- What can be seen of a push. -/
inductive Act
  | event (e : ExecutionEvent)
  | wrote (pinId : String) (value : Value)
  | delivered (target : EmitTarget)
  deriving DecidableEq

/-- What a push meets: the store, what the channel of each edge is at its turn, and whether
somebody takes the results. -/
structure Turns where
  store : ArenaDataStore
  edge : ℕ → TrySend
  resultOpen : Bool

/-! ## The handle of a trigger node -/

/-- The loop of `emit` over its targets. A target whose receiver is gone is passed over. -/
def emitTo (turns : Turns) : ℕ → List EmitTarget → List Act
  | _, [] => []
  | i, target :: rest => match turns.edge i with
      | .closed => emitTo turns (i + 1) rest
      | .sent | .full => .delivered target :: emitTo turns (i + 1) rest

/-- `emit`. Metadata without a field are none. -/
def NodeHandle.emit (handle : NodeHandle) (turns : Turns) (traceId : ℕ) (payload : Value)
    (metadata : Fields) : Except EngineError Unit × List Act :=
  match turns.store.write payload (max handle.downstream.length 1) with
  | .error e => (.error e, [])
  | .ok _ =>
      let metadataField := if metadata.isEmpty then none else some metadata
      (.ok (), .event (.started handle.nodeId traceId) :: emitTo turns 0 handle.downstream ++
        [.event (.completed handle.nodeId traceId metadataField)])

/-! ## The loop of a node -/

/-- The edge of a loop as a handle has it. -/
def DownstreamTarget.emitTarget (target : DownstreamTarget) : EmitTarget :=
  ⟨target.sender, target.targetNodeId⟩

/-- What a slot is given: the field of its name, or else the whole payload. -/
def dataCacheValueForPin (pinId : String) (payload : Value) : Value :=
  (payload.get pinId).getD payload

/-- The metadata of one more output. -/
def mergeMetadata (merged metadata : Option Fields) : Option Fields :=
  match metadata with
  | none => merged
  | some fields =>
      some (fields.foldl (fun acc field => Fields.insert acc field.1 field.2) (merged.getD []))

/-- The loop over the targets of one output. It ends at a target whose receiver is gone. -/
def fanOut (turns : Turns) : ℕ → List DownstreamTarget → List Act × Bool
  | _, [] => ([], true)
  | i, target :: rest => match turns.edge i, target.backpressurePolicy with
      | .closed, _ => ([], false)
      | .full, .dropNewest => fanOut turns (i + 1) rest
      | .sent, _ | .full, .block =>
          let r := fanOut turns (i + 1) rest
          (.delivered target.emitTarget :: r.1, r.2)

namespace RunNode

variable (cfg : RunNode)

/-- The slots an output is written to. -/
def cachePinsToWrite (dispatch : NodeDispatch) : List String :=
  let dataPins := dataOutputPinIds cfg.outputPins
  let reactivePins := reactiveOutputPinIds cfg.outputPins
  match dispatch with
  | .broadcast => dataPins ++ reactivePins
  | .route ports => ports.filter fun p => dataPins.contains p || reactivePins.contains p

def writeSlots (output : NodeOutput) : List Act :=
  (cfg.cachePinsToWrite output.dispatch).map fun pinId =>
    .wrote pinId (dataCacheValueForPin pinId output.payload)

/-- The push of an output, and whether it succeeded. -/
def pushOutput (turns : Turns) (traceId : ℕ) (output : NodeOutput) :
    List Act × Except EngineError Unit :=
  let closed := .error (.channelClosed cfg.nodeId)
  let targets := cfg.targets output.dispatch
  let consumerCount := if targets.isEmpty then 1 else targets.length
  match turns.store.write output.payload consumerCount with
  | .error e => ([], .error e)
  | .ok _ =>
      if targets.isEmpty then
        if turns.resultOpen then ([.event (.output cfg.nodeId traceId)], .ok ()) else ([], closed)
      else
        let r := fanOut turns 0 targets
        (r.1, if r.2 then .ok () else closed)

/-- The loop over the outputs, with the metadata so far. -/
def applyOutputs (traceId : ℕ) :
    List (NodeOutput × Turns) → Option Fields → List Act × Except EngineError (Option Fields)
  | [], merged => ([], .ok merged)
  | (output, turns) :: rest, merged =>
      let merged := mergeMetadata merged output.metadata
      let wrote := cfg.writeSlots output
      if cfg.isDataOnly output then
        let r := applyOutputs traceId rest merged
        (wrote ++ r.1, r.2)
      else
        let pushed := cfg.pushOutput turns traceId output
        match pushed.2 with
        | .error e => (wrote ++ pushed.1, .error e)
        | .ok () =>
            let r := applyOutputs traceId rest merged
            (wrote ++ pushed.1 ++ r.1, r.2)

/-- What is seen of a stage whose `transform` returned these outputs. -/
def handle (traceId : ℕ) (outputs : List (NodeOutput × Turns)) : List Act :=
  let r := cfg.applyOutputs traceId outputs none
  .event (.started cfg.nodeId traceId) :: r.1 ++ match r.2 with
    | .ok metadata => [.event (.completed cfg.nodeId traceId metadata)]
    | .error e => [.event (.failed cfg.nodeId traceId e.message)]

end RunNode

/-! ## What is compared -/

/-- The edges that got a reference. -/
def delivered (acts : List Act) : List EmitTarget :=
  acts.filterMap fun
    | .delivered target => some target
    | _ => none

/-- The slots that were written. -/
def written (acts : List Act) : List (String × Value) :=
  acts.filterMap fun
    | .wrote pinId value => some (pinId, value)
    | _ => none

/-- The events that a stage started and completed, with the metadata they carry. -/
def reported (acts : List Act) : List (String × Option Fields) :=
  acts.filterMap fun
    | .event (.started _ _) => some ("started", none)
    | .event (.completed _ _ metadata) => some ("completed", metadata)
    | _ => none

/-- The same edges, the same slots, and events with the same metadata. -/
structure SameEffect (acts acts' : List Act) : Prop where
  delivered : delivered acts = delivered acts'
  written : written acts = written acts'
  reported : reported acts = reported acts'

/-- An edge takes a reference at its turn, with the policy it has. -/
def Takes (look : TrySend) (policy : BackpressurePolicy) : Prop :=
  look = .sent ∨ look = .full ∧ policy = .block

/-- Nothing in a push is told apart by the two ways. -/
structure Alike (cfg : RunNode) (turns : Turns) (metadata : Fields) : Prop where
  room : turns.store.HasRoom
  taken : ∀ (i : ℕ) (target : DownstreamTarget), cfg.downstreamSenders[i]? = some target →
    Takes (turns.edge i) target.backpressurePolicy
  result : cfg.downstreamSenders = [] → turns.resultOpen = true
  noData : dataOutputPinIds cfg.outputPins = []
  noReactive : reactiveOutputPinIds cfg.outputPins = []
  metadata : metadata ≠ []

section

variable {acts acts' : List Act} {turns : Turns} {targets : List DownstreamTarget} {i : ℕ}

@[simp] theorem delivered_append :
    delivered (acts ++ acts') = delivered acts ++ delivered acts' := List.filterMap_append

@[simp] theorem written_append : written (acts ++ acts') = written acts ++ written acts' :=
  List.filterMap_append

@[simp] theorem reported_append : reported (acts ++ acts') = reported acts ++ reported acts' :=
  List.filterMap_append

@[simp] theorem delivered_nil : delivered [] = [] := rfl
@[simp] theorem written_nil : written [] = [] := rfl
@[simp] theorem reported_nil : reported [] = [] := rfl

@[simp] theorem delivered_event (e : ExecutionEvent) :
    delivered (.event e :: acts) = delivered acts := rfl

@[simp] theorem written_event (e : ExecutionEvent) : written (.event e :: acts) = written acts := rfl

@[simp] theorem delivered_delivered (target : EmitTarget) :
    delivered (.delivered target :: acts) = target :: delivered acts := rfl

@[simp] theorem written_delivered (target : EmitTarget) :
    written (.delivered target :: acts) = written acts := rfl

@[simp] theorem reported_delivered (target : EmitTarget) :
    reported (.delivered target :: acts) = reported acts := rfl

@[simp] theorem reported_started (stage : String) (traceId : ℕ) :
    reported (.event (.started stage traceId) :: acts) = ("started", none) :: reported acts := rfl

@[simp] theorem reported_completed (stage : String) (traceId : ℕ) (metadata : Option Fields) :
    reported (.event (.completed stage traceId metadata) :: acts) =
      ("completed", metadata) :: reported acts := rfl

@[simp] theorem reported_failed (stage : String) (traceId : ℕ) (error : String) :
    reported (.event (.failed stage traceId error) :: acts) = reported acts := rfl

@[simp] theorem reported_output (stage : String) (traceId : ℕ) :
    reported (.event (.output stage traceId) :: acts) = reported acts := rfl

/-! ## The two loops over the targets -/

/-- The loop of `emit` writes no slot and reports nothing. -/
theorem emitTo_silent (targets : List EmitTarget) :
    written (emitTo turns i targets) = [] ∧ reported (emitTo turns i targets) = [] := by
  induction targets generalizing i with
  | nil => exact ⟨rfl, rfl⟩
  | cons target rest ih =>
      rw [emitTo]
      cases turns.edge i with
      | closed => exact ih
      | sent => exact ih
      | full => exact ih

/-- It delivers to every target whose receiver is there. -/
theorem delivered_emitTo {targets : List EmitTarget}
    (h : ∀ j < targets.length, turns.edge (i + j) ≠ .closed) :
    delivered (emitTo turns i targets) = targets := by
  induction targets generalizing i with
  | nil => rfl
  | cons target rest ih =>
      have hrest : delivered (emitTo turns (i + 1) rest) = rest := by
        apply ih
        intro j hj
        have hnext := h (j + 1) (Nat.succ_lt_succ hj)
        rwa [show i + 1 + j = i + (j + 1) by omega]
      have hfirst := h 0 (Nat.zero_lt_succ _)
      rw [Nat.add_zero] at hfirst
      rw [emitTo]
      cases hlook : turns.edge i with
      | closed => exact absurd hlook hfirst
      | sent => rw [delivered_delivered, hrest]
      | full => rw [delivered_delivered, hrest]

/-- What the loop over the targets of an output does with the next one. -/
theorem fanOut_cases (turns : Turns) (i : ℕ) (target : DownstreamTarget)
    (rest : List DownstreamTarget) :
    (turns.edge i = .closed ∧ fanOut turns i (target :: rest) = ([], false)) ∨
    (Takes (turns.edge i) target.backpressurePolicy ∧ fanOut turns i (target :: rest) =
      (.delivered target.emitTarget :: (fanOut turns (i + 1) rest).1,
        (fanOut turns (i + 1) rest).2)) ∨
    (turns.edge i = .full ∧ target.backpressurePolicy = .dropNewest ∧
      fanOut turns i (target :: rest) = fanOut turns (i + 1) rest) := by
  cases hlook : turns.edge i with
  | closed => exact .inl ⟨rfl, by simp [fanOut, hlook]⟩
  | sent => exact .inr (.inl ⟨.inl rfl, by simp [fanOut, hlook]⟩)
  | full =>
      cases hpolicy : target.backpressurePolicy with
      | block => exact .inr (.inl ⟨.inr ⟨rfl, rfl⟩, by simp [fanOut, hlook, hpolicy]⟩)
      | dropNewest => exact .inr (.inr ⟨rfl, rfl, by simp [fanOut, hlook, hpolicy]⟩)

/-- So does the loop over the targets of an output write no slot and report nothing. -/
theorem fanOut_silent (targets : List DownstreamTarget) :
    written (fanOut turns i targets).1 = [] ∧ reported (fanOut turns i targets).1 = [] := by
  induction targets generalizing i with
  | nil => exact ⟨rfl, rfl⟩
  | cons target rest ih =>
      rcases fanOut_cases turns i target rest with ⟨-, h⟩ | ⟨-, h⟩ | ⟨-, -, h⟩
      · rw [h]
        exact ⟨rfl, rfl⟩
      · rw [h, written_delivered, reported_delivered]
        exact ih
      · rw [h]
        exact ih

theorem length_delivered_fanOut (turns : Turns) (i : ℕ) (targets : List DownstreamTarget) :
    (delivered (fanOut turns i targets).1).length ≤ targets.length := by
  induction targets generalizing i with
  | nil => exact Nat.le_refl 0
  | cons target rest ih =>
      have hrest := ih (i + 1)
      rcases fanOut_cases turns i target rest with ⟨-, h⟩ | ⟨-, h⟩ | ⟨-, -, h⟩
      · rw [h]
        exact Nat.zero_le _
      · rw [h, delivered_delivered, List.length_cons, List.length_cons]
        omega
      · rw [h, List.length_cons]
        omega

/-- If it comes to its end then every receiver is there. -/
theorem ne_closed_of_fanOut (h : (fanOut turns i targets).2 = true) :
    ∀ j < targets.length, turns.edge (i + j) ≠ .closed := by
  induction targets generalizing i with
  | nil =>
      intro j hj
      cases hj
  | cons target rest ih =>
      have hstep : turns.edge i ≠ .closed ∧ (fanOut turns (i + 1) rest).2 = true := by
        rcases fanOut_cases turns i target rest with ⟨-, hfan⟩ | ⟨htakes, hfan⟩ | ⟨hfull, -, hfan⟩
        · rw [hfan] at h
          cases h
        · rw [hfan] at h
          refine ⟨?_, h⟩
          intro hclosed
          rw [hclosed] at htakes
          rcases htakes with hsent | ⟨hfull, -⟩
          · cases hsent
          · cases hfull
        · rw [hfan] at h
          exact ⟨by rw [hfull]; exact nofun, h⟩
      intro j hj
      cases j with
      | zero => exact hstep.1
      | succ j =>
          rw [show i + (j + 1) = i + 1 + j by omega]
          exact ih hstep.2 j (Nat.lt_of_succ_lt_succ hj)

/-- It delivers to every target if and only if each takes the reference at its turn. -/
theorem fanOut_all_iff (targets : List DownstreamTarget) :
    ((fanOut turns i targets).2 = true ∧
      delivered (fanOut turns i targets).1 = targets.map DownstreamTarget.emitTarget) ↔
    ∀ (j : ℕ) (target : DownstreamTarget), targets[j]? = some target →
      Takes (turns.edge (i + j)) target.backpressurePolicy := by
  induction targets generalizing i with
  | nil => simp [fanOut]
  | cons target rest ih =>
      have hsplit : (∀ (j : ℕ) (t : DownstreamTarget), (target :: rest)[j]? = some t →
          Takes (turns.edge (i + j)) t.backpressurePolicy) ↔
          Takes (turns.edge i) target.backpressurePolicy ∧
          ∀ (j : ℕ) (t : DownstreamTarget), rest[j]? = some t →
            Takes (turns.edge (i + 1 + j)) t.backpressurePolicy := by
        constructor
        · intro h
          refine ⟨h 0 target rfl, ?_⟩
          intro j t ht
          rw [show i + 1 + j = i + (j + 1) by omega]
          exact h (j + 1) t ht
        · rintro ⟨hfirst, hrest⟩ j t ht
          cases j with
          | zero =>
              obtain rfl := Option.some.inj ht
              exact hfirst
          | succ j =>
              rw [show i + (j + 1) = i + 1 + j by omega]
              exact hrest j t ht
      rw [hsplit, ← ih]
      rcases fanOut_cases turns i target rest with ⟨hclosed, h⟩ | ⟨htakes, h⟩ | ⟨hfull, hdrop, h⟩
      · rw [h, hclosed]
        simp [Takes]
      · rw [h, delivered_delivered, List.map_cons, List.cons.injEq]
        simp [htakes]
      · rw [h, hfull, hdrop]
        have hlen := length_delivered_fanOut turns (i + 1) rest
        constructor
        · rintro ⟨-, hall⟩
          rw [hall, List.length_map, List.length_cons] at hlen
          omega
        · rintro ⟨htakes, -⟩
          simp [Takes] at htakes

/-! ## The loops as programs over the data plane -/

/-- What a program sends while each send meets the next turn; a channel is closed after a send
as it was found. -/
inductive Sends {κ : Type} (turns : Turns) (code : κ → Option (Cmd κ)) : ℕ → κ → List ℕ → κ → Prop
  | nil {i k} : Sends turns code i k [] k
  | sent {i k k' ch ref next chs} : code k = some (.send ch ref next) →
      turns.edge i ≠ .closed → Sends turns code (i + 1) (next true) chs k' →
      Sends turns code i k (ch :: chs) k'
  | refused {i k k' ch ref next chs} : code k = some (.send ch ref next) →
      turns.edge i = .closed → Sends turns code (i + 1) (next false) chs k' →
      Sends turns code i k chs k'
  | tried {i k k' ch ref next chs} : code k = some (.trySend ch ref next) →
      turns.edge i = .sent → Sends turns code (i + 1) (next .sent) chs k' →
      Sends turns code i k (ch :: chs) k'
  | notTaken {i k k' ch ref next chs} : code k = some (.trySend ch ref next) →
      turns.edge i ≠ .sent → Sends turns code (i + 1) (next (turns.edge i)) chs k' →
      Sends turns code i k chs k'
  | released {i k k' id next chs} : code k = some (.release id next) →
      Sends turns code i next chs k' → Sends turns code i k chs k'
  | probed {i k k' ch next chs} : code k = some (.isClosed ch next) →
      Sends turns code (i + 1) (next (turns.edge i = .closed)) chs k' →
      Sends turns code (i + 1) k chs k'

/-- The loop of `emit`, as the program of the call. -/
theorem emission_sends (handle : NodeHandle) (ref : ContextRef) (targets : List EmitTarget) :
    Sends turns (Emission.code handle) i (Emission.nextTarget ref targets)
      ((delivered (emitTo turns i targets)).map EmitTarget.sender) (.returned (.ok ())) := by
  induction targets generalizing i with
  | nil => exact .nil
  | cons target rest ih =>
      rw [emitTo]
      cases hlook : turns.edge i with
      | closed => exact .refused rfl hlook (.released rfl ih)
      | sent => exact .sent rfl (by simp [hlook]) ih
      | full => exact .sent rfl (by simp [hlook]) ih

theorem releaseAll_sends (cfg : RunNode) (ref : ContextRef) (count : ℕ) :
    Sends turns cfg.code i (RunNode.releaseAll ref count) [] .leaving := by
  induction count with
  | zero => exact .nil
  | succ more ih => exact .released rfl ih

/-- The loop over the targets of an output, as the program of the loop of a node: it goes on with
the next output, or leaves. -/
theorem runNode_sends (cfg : RunNode) (ref : ContextRef) (outputs : List NodeOutput)
    (targets : List DownstreamTarget) :
    Sends turns cfg.code i (cfg.nextTarget ref outputs targets)
      ((delivered (fanOut turns i targets).1).map EmitTarget.sender)
      (if (fanOut turns i targets).2 then cfg.nextOutput ref.traceId outputs else .leaving) := by
  induction targets generalizing i with
  | nil => exact .nil
  | cons target rest ih =>
      have hclosed : turns.edge i = .closed → ∀ dropped, Sends turns cfg.code (i + 1)
          (.checkClosed ref target rest outputs dropped) [] .leaving := by
        intro hlook dropped
        refine .probed rfl ?_
        rw [hlook]
        exact releaseAll_sends cfg ref _
      rw [fanOut]
      cases hpolicy : target.backpressurePolicy with
      | block =>
          obtain ⟨next, hcode, htrue, hfalse⟩ : ∃ next, cfg.code (.fanOut ref target rest outputs) =
              some (.send target.sender ref next) ∧ next true = cfg.nextTarget ref outputs rest ∧
                next false = .checkClosed ref target rest outputs false := by
            rw [RunNode.code, hpolicy]
            exact ⟨_, rfl, rfl, rfl⟩
          cases hlook : turns.edge i with
          | closed => exact .refused hcode hlook (hfalse ▸ hclosed hlook false)
          | sent => exact .sent hcode (by simp [hlook]) (htrue ▸ ih)
          | full => exact .sent hcode (by simp [hlook]) (htrue ▸ ih)
      | dropNewest =>
          obtain ⟨next, hcode, hsent, hfull, hgone⟩ : ∃ next,
              cfg.code (.fanOut ref target rest outputs) = some (.trySend target.sender ref next) ∧
                next .sent = cfg.nextTarget ref outputs rest ∧
                next .full = .releaseDropped ref target rest outputs ∧
                next .closed = .checkClosed ref target rest outputs false := by
            rw [RunNode.code, hpolicy]
            exact ⟨_, rfl, rfl, rfl, rfl⟩
          cases hlook : turns.edge i with
          | closed =>
              refine .notTaken hcode (by simp [hlook]) ?_
              rw [hlook, hgone]
              exact hclosed hlook false
          | sent => exact .tried hcode hlook (hsent ▸ ih)
          | full =>
              refine .notTaken hcode (by simp [hlook]) ?_
              rw [hlook, hfull]
              refine .released rfl (.probed rfl ?_)
              rw [hlook]
              exact ih

/-! ## The two ways -/

variable {cfg : RunNode} {handle : NodeHandle} {payload : Value}

theorem written_emit (turns : Turns) (traceId : ℕ) (payload : Value) (metadata : Fields) :
    written (handle.emit turns traceId payload metadata).2 = [] := by
  rw [NodeHandle.emit]
  split
  · rfl
  · simp [(emitTo_silent _).1]

theorem pushOutput_silent (cfg : RunNode) (turns : Turns) (traceId : ℕ) (output : NodeOutput) :
    written (cfg.pushOutput turns traceId output).1 = [] ∧
      reported (cfg.pushOutput turns traceId output).1 = [] := by
  rw [RunNode.pushOutput]
  dsimp only
  split
  · exact ⟨rfl, rfl⟩
  · split
    · split
      · exact ⟨rfl, rfl⟩
      · exact ⟨rfl, rfl⟩
    · exact fanOut_silent _

theorem written_writeSlots (output : NodeOutput) :
    written (cfg.writeSlots output) = (cfg.cachePinsToWrite output.dispatch).map fun pinId =>
      (pinId, dataCacheValueForPin pinId output.payload) := by
  rw [RunNode.writeSlots, written, List.filterMap_map]
  exact congrFun List.filterMap_eq_map' _

/-- A loop writes the slots of its pins, whatever the push meets. -/
theorem written_handle (traceId : ℕ) (output : NodeOutput) :
    written (cfg.handle traceId [(output, turns)]) =
      (cfg.cachePinsToWrite output.dispatch).map fun pinId =>
        (pinId, dataCacheValueForPin pinId output.payload) := by
  rw [← written_writeSlots, RunNode.handle]
  have hend : ∀ r : Except EngineError (Option Fields), written (match r with
      | .ok metadata => [.event (.completed cfg.nodeId traceId metadata)]
      | .error e => [.event (.failed cfg.nodeId traceId e.message)]) = [] := by
    intro r
    cases r <;> rfl
  rw [List.cons_append, written_event, written_append, hend, List.append_nil]
  simp only [RunNode.applyOutputs]
  split
  · simp
  · have hpushed := (pushOutput_silent cfg turns traceId output).1
    split
    · simp [hpushed]
    · simp [hpushed]

/-- The event after one push, with its metadata if it succeeded. -/
def RunNode.lastEvent (cfg : RunNode) (traceId : ℕ) (metadata : Fields) :
    Except EngineError Unit → List Act
  | .ok () => [.event (.completed cfg.nodeId traceId (some metadata))]
  | .error e => [.event (.failed cfg.nodeId traceId e.message)]

/-- What a loop without data and reactive pins does with a broadcast. -/
theorem handle_broadcast (hdata : dataOutputPinIds cfg.outputPins = [])
    (hreactive : reactiveOutputPinIds cfg.outputPins = []) (traceId : ℕ) {output : NodeOutput}
    (hdispatch : output.dispatch = .broadcast) {metadata : JsonMap}
    (hmetadata : output.metadata = some metadata.fields) :
    cfg.handle traceId [(output, turns)] = .event (.started cfg.nodeId traceId) ::
      (cfg.pushOutput turns traceId output).1 ++
        cfg.lastEvent traceId metadata.fields (cfg.pushOutput turns traceId output).2 := by
  have hslots : cfg.writeSlots output = [] := by
    simp [RunNode.writeSlots, RunNode.cachePinsToWrite, hdata, hreactive, hdispatch]
  have honly : cfg.isDataOnly output = false := by
    rw [RunNode.isDataOnly, hdata, outputIsDataOnly_nil]
  have hmerged : mergeMetadata none output.metadata = some metadata.fields := by
    simp [mergeMetadata, hmetadata, metadata.foldl_insert]
  rw [RunNode.handle, RunNode.applyOutputs, hslots, honly, hmerged]
  cases hpushed : (cfg.pushOutput turns traceId output).2 with
  | error e => simp [hpushed, RunNode.lastEvent]
  | ok => simp [hpushed, RunNode.applyOutputs, RunNode.lastEvent]

/-- The same metadata are reported if and only if the push of the loop succeeds and there are
metadata. -/
theorem reported_eq_iff {pushed : Except EngineError Unit} {metadata : Fields} (traceId : ℕ) :
    [("completed", if metadata.isEmpty then none else some metadata)] =
      reported (cfg.lastEvent traceId metadata pushed) ↔ pushed = .ok () ∧ metadata ≠ [] := by
  cases pushed with
  | error e => simp [RunNode.lastEvent]
  | ok => cases metadata <;> simp [RunNode.lastEvent]

/-- What the push of a loop comes to, if the store takes the payload. -/
theorem pushOutput_of_room {output : NodeOutput}
    (htargets : cfg.targets output.dispatch = cfg.downstreamSenders)
    (hroom : turns.store.HasRoom) (traceId : ℕ) :
    delivered (cfg.pushOutput turns traceId output).1 =
      delivered (fanOut turns 0 cfg.downstreamSenders).1 ∧
    ((cfg.pushOutput turns traceId output).2 = .ok () ↔
      (cfg.downstreamSenders = [] → turns.resultOpen = true) ∧
        (fanOut turns 0 cfg.downstreamSenders).2 = true) := by
  obtain ⟨stored, hstored⟩ := (ArenaDataStore.exists_write_iff output.payload
    (if cfg.downstreamSenders.isEmpty then 1 else cfg.downstreamSenders.length)).mpr hroom
  simp only [RunNode.pushOutput, htargets, hstored]
  by_cases hnil : cfg.downstreamSenders = []
  · rw [hnil]
    cases turns.resultOpen <;> simp [fanOut]
  · have hempty : cfg.downstreamSenders.isEmpty = false := by simpa using hnil
    simp [hempty, hnil]

/-- Between its first event and its last a push shows its deliveries alone. -/
theorem sameEffect_between {stage stage' : String} {traceId traceId' : ℕ} {fin : List Act}
    {metadata : Option Fields} (hacts : written acts = [] ∧ reported acts = [])
    (hacts' : written acts' = [] ∧ reported acts' = [])
    (hfin : delivered fin = [] ∧ written fin = []) :
    SameEffect
      (.event (.started stage traceId) :: acts ++ [.event (.completed stage traceId metadata)])
      (.event (.started stage' traceId') :: acts' ++ fin) ↔
    delivered acts = delivered acts' ∧ [("completed", metadata)] = reported fin := by
  constructor
  · intro h
    have hdelivered := h.delivered
    have hreported := h.reported
    simp [hacts.2, hacts'.2, hfin.1] at hdelivered hreported
    exact ⟨hdelivered, hreported⟩
  · rintro ⟨hdelivered, hreported⟩
    refine ⟨?_, ?_, ?_⟩
    · simp [hfin.1, hdelivered]
    · simp [hacts.1, hacts'.1, hfin.2]
    · simp [hacts.2, hacts'.2, hreported]

/-- A push is seen in the same way on both paths if and only if nothing in it is told apart. -/
theorem sameEffect_iff (hdownstream : handle.downstream =
      cfg.downstreamSenders.map DownstreamTarget.emitTarget) (traceId traceId' : ℕ)
    {output : NodeOutput} (hdispatch : output.dispatch = .broadcast) {metadata : JsonMap}
    (hmetadata : output.metadata = some metadata.fields) :
    SameEffect (handle.emit turns traceId output.payload metadata.fields).2
      (cfg.handle traceId' [(output, turns)]) ↔ Alike cfg turns metadata.fields := by
  by_cases hpins : dataOutputPinIds cfg.outputPins = [] ∧ reactiveOutputPinIds cfg.outputPins = []
  · obtain ⟨hdata, hreactive⟩ := hpins
    have htargets : cfg.targets output.dispatch = cfg.downstreamSenders := by
      rw [RunNode.targets, hdata, hdispatch, matchingTargets_broadcast_nil]
    have hconsumers : handle.downstream.length = cfg.downstreamSenders.length := by
      rw [hdownstream, List.length_map]
    rw [handle_broadcast hdata hreactive traceId' hdispatch hmetadata, NodeHandle.emit]
    by_cases hroom : turns.store.HasRoom
    · obtain ⟨stored, hstored⟩ := (ArenaDataStore.exists_write_iff output.payload
        (max handle.downstream.length 1)).mpr hroom
      obtain ⟨hdelivered, hok⟩ := pushOutput_of_room htargets hroom traceId'
      rw [hstored]
      have hfin : ∀ pushed : Except EngineError Unit,
          delivered (cfg.lastEvent traceId' metadata.fields pushed) = [] ∧
            written (cfg.lastEvent traceId' metadata.fields pushed) = [] := by
        intro pushed
        cases pushed <;> exact ⟨rfl, rfl⟩
      rw [sameEffect_between (emitTo_silent _) (pushOutput_silent _ _ _ _) (hfin _), reported_eq_iff,
        hok, hdelivered]
      constructor
      · rintro ⟨hedges, ⟨hresult, hfan⟩, hne⟩
        have hthere := ne_closed_of_fanOut hfan
        rw [← hconsumers] at hthere
        rw [delivered_emitTo hthere, hdownstream] at hedges
        have htaken := (fanOut_all_iff _).mp ⟨hfan, hedges.symm⟩
        refine ⟨hroom, ?_, hresult, hdata, hreactive, hne⟩
        intro i target htarget
        have hi := htaken i target htarget
        rwa [Nat.zero_add] at hi
      · intro h
        have htaken : ∀ (j : ℕ) (target : DownstreamTarget),
            cfg.downstreamSenders[j]? = some target →
              Takes (turns.edge (0 + j)) target.backpressurePolicy := by
          intro j target htarget
          rw [Nat.zero_add]
          exact h.taken j target htarget
        obtain ⟨hfan, hall⟩ := (fanOut_all_iff _).mpr htaken
        have hthere := ne_closed_of_fanOut hfan
        rw [← hconsumers] at hthere
        refine ⟨?_, ⟨h.result, hfan⟩, h.metadata⟩
        rw [delivered_emitTo hthere, hdownstream, hall]
    · have hfull : ∃ e, turns.store.write output.payload (max handle.downstream.length 1) =
          .error e := by
        cases hwrite : turns.store.write output.payload (max handle.downstream.length 1) with
        | error e => exact ⟨e, rfl⟩
        | ok r => exact absurd ((ArenaDataStore.exists_write_iff ..).mp ⟨r, hwrite⟩) hroom
      obtain ⟨e, he⟩ := hfull
      rw [he]
      constructor
      · intro h
        have hreported := h.reported
        simp at hreported
      · intro h
        exact absurd h.room hroom
  · have hwritten : written (cfg.handle traceId' [(output, turns)]) ≠ [] := by
      rw [written_handle, hdispatch]
      intro hnil
      rw [List.map_eq_nil_iff, RunNode.cachePinsToWrite] at hnil
      exact hpins (List.append_eq_nil_iff.mp hnil)
    constructor
    · intro h
      exact absurd (h.written.symm.trans (written_emit ..)) hwritten
    · intro h
      exact absurd ⟨h.noData, h.noReactive⟩ hpins

end

/-! ## The two ways of a deployed node -/

namespace Prepared

variable {p : Prepared} {env : DeployEnv} {graph : WorkflowGraph} {d : Deployment}

/-- The handle and the loop of a node have their targets from the same edges. -/
theorem downstream_handleOf {nodeId : String} {cfg : RunNode} (h : LoopOf p graph nodeId cfg) :
    (p.handleOf graph nodeId).downstream =
      cfg.downstreamSenders.map DownstreamTarget.emitTarget := by
  have hedge : ∀ edge, (downstreamTarget graph.channelOf edge).map DownstreamTarget.emitTarget =
      emitTarget graph.channelOf edge := by
    intro edge
    cases hsender : graph.channelOf edge.target <;>
      simp [downstreamTarget, emitTarget, hsender, DownstreamTarget.emitTarget]
  rw [h.downstream, List.map_filterMap]
  exact (List.filterMap_congr fun edge _ => hedge edge).symm

/-- For every node of a deployment that has a loop, and whatever a push meets, `emit` is seen as
a broadcast of its loop is if and only if nothing in it is told apart. -/
theorem emits_alike_iff (hprepare : prepare env graph = .ok p) (hdeploy : p.deploy env graph = .ok d)
    {handle : NodeHandle} (hhandle : handle ∈ d.handles) {cfg : RunNode}
    (hloop : Task.node cfg .idle ∈ d.tasks)
    (hsame : graph.channelOf handle.nodeId = some cfg.inputRx) (turns : Turns)
    (traceId traceId' : ℕ) (payload : Value) (metadata : JsonMap) :
    SameEffect (handle.emit turns traceId payload metadata.fields).2
      (cfg.handle traceId' [(⟨payload, some metadata.fields, .broadcast⟩, turns)]) ↔
    Alike cfg turns metadata.fields := by
  obtain ⟨s, hs, rfl⟩ := (accepted_of_prepare hprepare).deploy hdeploy
  obtain ⟨nodeId, -, rfl⟩ := List.mem_map.mp hhandle
  have hspawned : Task.node cfg .idle ∈ s.tasks := by
    rcases List.mem_append.mp hloop with h | h
    · exact h
    · cases List.mem_singleton.mp h
  obtain ⟨id, -, cfg', heq, hcfg⟩ := hs.loops _ hspawned
  obtain ⟨rfl, -⟩ := Task.node.inj heq
  obtain rfl := WorkflowGraph.channelOf_injective hsame hcfg.input
  have hmetadata : (⟨payload, some metadata.fields, .broadcast⟩ : NodeOutput).metadata =
      some metadata.fields := rfl
  exact sameEffect_iff (downstream_handleOf hcfg) traceId traceId' rfl hmetadata

/-! ## Two graphs -/

/-- One display feeds another, and drops what the other has no room for. -/
def relayGraph : WorkflowGraph where
  connections := []
  nodes := ((∅ : AList fun _ : String => WorkflowNodeDefinition).insert "first"
    ⟨"first", "display", none, .null, none, 4⟩).insert "next" ⟨"next", "display", none, .null, none, 4⟩
  edges := [⟨"first", "next", none, none, some .dropNewest⟩]
  declarations := none

def relayPrepared : Prepared := (prepare plantEnv relayGraph).toOption.get (by decide)
def relay : Deployment := (relayPrepared.deploy plantEnv relayGraph).toOption.get (by decide)

/-- Metadata with one field. -/
def sourceMetadata : JsonMap := ⟨[("source", .string "timer")], List.pairwise_singleton ..⟩

/-- A store without a limit, channels with room, and somebody who takes the results. -/
def roomy : Turns := ⟨.withCapacity 0, fun _ => .sent, true⟩

def relayHandle : NodeHandle := ⟨"first", [⟨0, "next"⟩]⟩
def relayLoop : RunNode := ⟨"first", [.defaultOutput], 1, [⟨none, 0, "next", .dropNewest⟩], 2⟩

theorem mem_relay : relayHandle ∈ relay.handles ∧ Task.node relayLoop .idle ∈ relay.tasks :=
  ⟨List.mem_of_getElem? (i := 0) rfl, List.mem_of_getElem? (i := 0) rfl⟩

/-- A payload with metadata is relayed in the same way, if there is room for it. -/
theorem relay_alike : Alike relayLoop roomy sourceMetadata.fields ∧
    SameEffect (relayHandle.emit roomy 0 .null sourceMetadata.fields).2
      (relayLoop.handle 1 [(⟨.null, some sourceMetadata.fields, .broadcast⟩, roomy)]) := by
  have halike : Alike relayLoop roomy sourceMetadata.fields := by
    refine ⟨.inl rfl, fun i target _ => .inl rfl, fun _ => rfl, rfl, rfl, ?_⟩
    exact List.cons_ne_nil _ _
  refine ⟨halike, ?_⟩
  exact (emits_alike_iff (eq_ok_of_get _) (eq_ok_of_get _) mem_relay.1 mem_relay.2 (by decide)
    roomy 0 1 .null sourceMetadata).mpr halike

/-- A store without a limit, and channels that are full at their turn. -/
def crowded : Turns := ⟨.withCapacity 0, fun _ => .full, true⟩

/-- With a channel that is full the handle delivers what the loop of the same node drops, and
with empty metadata the two report otherwise. -/
theorem relay_told_apart : prepare plantEnv relayGraph = .ok relayPrepared ∧
    relayPrepared.deploy plantEnv relayGraph = .ok relay ∧ relayHandle ∈ relay.handles ∧
    Task.node relayLoop .idle ∈ relay.tasks ∧
    delivered (relayHandle.emit crowded 0 .null sourceMetadata.fields).2 = [⟨0, "next"⟩] ∧
    delivered (relayLoop.handle 1 [(⟨.null, some sourceMetadata.fields, .broadcast⟩, crowded)]) = [] ∧
    reported (relayHandle.emit roomy 0 .null []).2 = [("started", none), ("completed", none)] ∧
    reported (relayLoop.handle 1 [(⟨.null, some [], .broadcast⟩, roomy)]) =
      [("started", none), ("completed", some [])] ∧
    ¬ SameEffect (relayHandle.emit crowded 0 .null sourceMetadata.fields).2
      (relayLoop.handle 1 [(⟨.null, some sourceMetadata.fields, .broadcast⟩, crowded)]) := by
  refine ⟨eq_ok_of_get _, eq_ok_of_get _, mem_relay.1, mem_relay.2, by decide, by decide, by decide,
    by decide, ?_⟩
  intro h
  exact absurd h.delivered (by decide)

end Prepared
end Nazh
