import Nazh.Desktop.DispatchLane

/-!
# The depth of a queue

A lane counts the envelopes in its queue beside it. A call that may wait raises the counter before
it sends; a call that rejects the newest envelope raises it once the envelope is in the queue. The
task of the lane lowers the counter when it has taken an envelope, but not below zero: an envelope
that it takes before its call has raised the counter is counted later, and for good.

Each step is one operation on an atomic or on the channel. The counters do not overflow.
-/

namespace Nazh

open Lib

/-- Where a call of `enqueue_async` stands. -/
inductive DepthPc
  /-- `Block`: before `depth.fetch_add`. -/
  | raising (envelope : DispatchEnvelope)
  /-- In `tx.send(envelope).await`. -/
  | sending (envelope : DispatchEnvelope)
  /-- The lane is gone: before `depth.fetch_sub`. -/
  | undoing
  /-- `RejectNewest`: before `tx.try_send`. -/
  | trying (envelope : DispatchEnvelope)
  /-- The envelope is in the queue: before `depth.fetch_add`. -/
  | raisingLate
  /-- Before `accepted.fetch_add`. -/
  | accepting
  /-- The queue was full: before `dead_lettered.fetch_add`. -/
  | rejecting
  /-- In `dead_letters.record`. -/
  | recording
  | returned

/-- Where the task of the lane stands. -/
inductive DepthTaskPc
  /-- In `rx.recv().await`. -/
  | receiving
  /-- Before the load of `decrement_queue_depth`. -/
  | loading
  /-- Before the exchange of `less + 1` for `less`. -/
  | exchanging (less : ℕ)
  /-- With an envelope that is no longer counted. -/
  | delivering
  deriving DecidableEq

/-- The loop of `decrement_queue_depth` with what it has seen of the counter. -/
def DepthTaskPc.afterSeeing : ℕ → DepthTaskPc
  | 0 => delivering
  | less + 1 => exchanging less

/-- A lane as far as its counters are concerned. -/
structure DepthLane where
  strategy : RuntimeBackpressureStrategy
  queueCapacity : ℕ
  /-- Whether the lane has a task. -/
  isOpen : Bool
  queue : List DispatchEnvelope
  depth : ℕ
  accepted : ℕ
  deadLettered : ℕ
  calls : List DepthPc
  task : DepthTaskPc
  /-- How many envelopes were put into the queue. -/
  entered : ℕ

/-- What can happen. An exchange may fail for no reason. -/
inductive DepthAction
  | call (envelope : DispatchEnvelope)
  | go (i : ℕ)
  | receive
  | load
  | exchange (spurious : Bool)
  | deliver

namespace DepthLane

/-- Put an envelope into the queue, which has room; the call goes on with `pc`. -/
def enter (s : DepthLane) (i : ℕ) (envelope : DispatchEnvelope) (pc : DepthPc) : DepthLane :=
  { s with
    queue := s.queue ++ [envelope]
    calls := s.calls.set i pc
    entered := s.entered + 1 }

/-- The next operation of a call. -/
def goCall (s : DepthLane) (i : ℕ) : DepthPc → Option DepthLane
  | .raising envelope => some { s with
      depth := s.depth + 1
      calls := s.calls.set i (.sending envelope) }
  | .sending envelope =>
      if !s.isOpen then some { s with calls := s.calls.set i .undoing }
      else if s.queue.length < s.queueCapacity then some (s.enter i envelope .accepting)
      else none
  | .undoing => some { s with depth := s.depth - 1, calls := s.calls.set i .returned }
  | .trying envelope =>
      if !s.isOpen then some { s with calls := s.calls.set i .returned }
      else if s.queue.length < s.queueCapacity then some (s.enter i envelope .raisingLate)
      else some { s with calls := s.calls.set i .rejecting }
  | .raisingLate => some { s with depth := s.depth + 1, calls := s.calls.set i .accepting }
  | .accepting => some { s with accepted := s.accepted + 1, calls := s.calls.set i .returned }
  | .rejecting => some { s with
      deadLettered := s.deadLettered + 1
      calls := s.calls.set i .recording }
  | .recording => some { s with calls := s.calls.set i .returned }
  | .returned => none

/-- One operation. -/
def step (s : DepthLane) : DepthAction → Option DepthLane
  | .call envelope => some { s with calls := s.calls ++ [match s.strategy with
      | .block => .raising envelope
      | .rejectNewest => .trying envelope] }
  | .go i => s.calls[i]?.bind (s.goCall i)
  | .receive => match s.task, s.queue with
    | .receiving, _ :: queue =>
        if s.isOpen then some { s with queue, task := .loading } else none
    | _, _ => none
  | .load => if s.task = .loading then some { s with task := .afterSeeing s.depth } else none
  | .exchange spurious => match s.task with
    | .exchanging less =>
        if s.depth = less + 1 ∧ spurious = false then
          some { s with depth := less, task := .delivering }
        else some { s with task := .afterSeeing s.depth }
    | _ => none
  | .deliver => if s.task = .delivering then some { s with task := .receiving } else none

/-- No call was made, and nothing is counted. -/
structure Fresh (s : DepthLane) : Prop where
  queue : s.queue = []
  depth : s.depth = 0
  accepted : s.accepted = 0
  calls : s.calls = []
  task : s.task = .receiving
  entered : s.entered = 0

def machine : Machine DepthLane DepthAction := ⟨Fresh, step⟩

/-- No call is in progress, and the task has no envelope that is still counted. -/
structure Quiescent (s : DepthLane) : Prop where
  calls : ∀ pc ∈ s.calls, pc = .returned
  task : s.task = .receiving ∨ s.task = .delivering

/-- The counters tell how many envelopes are in the queue, and how many were put into it. -/
structure Exact (s : DepthLane) : Prop where
  depth : s.depth = s.queue.length
  accepted : s.accepted = s.entered

/-- When the task looks at the counter it is not zero. -/
def Raised (s : DepthLane) : DepthAction → Prop
  | .load | .exchange _ => s.depth ≠ 0
  | _ => True

instance (s : DepthLane) (a : DepthAction) : Decidable (s.Raised a) := by
  cases a <;> unfold Raised <;> infer_instance

/-! ## The balance -/

/-- The counter was raised for an envelope that is not in the queue. -/
def ahead : DepthPc → ℕ
  | .sending _ | .undoing => 1
  | _ => 0

/-- The counter was not yet raised for an envelope that was put into the queue. -/
def behind : DepthPc → ℕ
  | .raisingLate => 1
  | _ => 0

/-- The envelope was put into the queue and is not yet accepted. -/
def unaccepted : DepthPc → ℕ
  | .raisingLate | .accepting => 1
  | _ => 0

/-- The task has an envelope for which it has not lowered the counter. -/
def taken : DepthTaskPc → ℕ
  | .loading | .exchanging _ => 1
  | _ => 0

/-- The strategy of a call that is there. -/
def strategyOf : DepthPc → Option RuntimeBackpressureStrategy
  | .raising _ | .sending _ | .undoing => some .block
  | .trying _ | .raisingLate => some .rejectNewest
  | _ => none

/-- The counter has `lost` more than the envelopes that it was raised for and not lowered. -/
structure BalancedBy (lost : ℕ) (s : DepthLane) : Prop where
  depth : s.depth + tally behind s.calls =
    s.queue.length + tally ahead s.calls + taken s.task + lost
  accepted : s.accepted + tally unaccepted s.calls = s.entered
  strategy : ∀ pc ∈ s.calls, ∀ strategy ∈ strategyOf pc, strategy = s.strategy

theorem Fresh.balancedBy {s : DepthLane} (h : s.Fresh) : BalancedBy 0 s := by
  refine ⟨?_, ?_, ?_⟩
  · simp [h.queue, h.depth, h.calls, h.task, taken]
  · simp [h.accepted, h.calls, h.entered]
  · simp [h.calls]

variable {lost : ℕ} {s s' : DepthLane} {i : ℕ} {pc pc' : DepthPc}

/-- In a lane that blocks, the counter is raised before an envelope is put into the queue. -/
theorem BalancedBy.behind_eq_zero (h : BalancedBy lost s) (hblock : s.strategy = .block) :
    tally behind s.calls = 0 := by
  refine (tally_eq_zero_iff behind).mpr fun pc hmem => ?_
  cases pc with
  | raisingLate =>
      have hreject := h.strategy _ hmem .rejectNewest rfl
      rw [hblock] at hreject
      cases hreject
  | _ => rfl

/-- One call goes on, and the counters with it. -/
theorem BalancedBy.of_set (h : BalancedBy lost s) (hpc : s.calls[i]? = some pc)
    (hcalls : s'.calls = s.calls.set i pc') (htask : s'.task = s.task)
    (hkept : s'.strategy = s.strategy)
    (hstrategy : ∀ strategy ∈ strategyOf pc', strategyOf pc = some strategy)
    (hdepth : s'.depth + behind pc' + s.queue.length + ahead pc =
      s.depth + behind pc + s'.queue.length + ahead pc')
    (haccepted : s'.accepted + unaccepted pc' + s.entered =
      s.accepted + unaccepted pc + s'.entered) : BalancedBy lost s' := by
  have hold := h.depth
  have hoff := h.accepted
  have hbehind := tally_set behind pc' hpc
  have hahead := tally_set ahead pc' hpc
  have hunaccepted := tally_set unaccepted pc' hpc
  refine ⟨?_, ?_, ?_⟩
  · rw [hcalls, htask]
    omega
  · rw [hcalls]
    omega
  · rw [hcalls, hkept]
    intro other hmem strategy hother
    rcases List.mem_or_eq_of_mem_set hmem with hmem | rfl
    · exact h.strategy other hmem strategy hother
    · exact h.strategy pc (List.mem_of_getElem? hpc) strategy (hstrategy strategy hother)

/-- An envelope that is put into the queue is counted before or after. -/
theorem BalancedBy.enter {envelope : DispatchEnvelope} (h : BalancedBy lost s)
    (hpc : s.calls[i]? = some pc)
    (hstrategy : ∀ strategy ∈ strategyOf pc', strategyOf pc = some strategy)
    (hdepth : behind pc' + ahead pc = behind pc + 1 + ahead pc')
    (haccepted : unaccepted pc' = unaccepted pc + 1) :
    BalancedBy lost (s.enter i envelope pc') := by
  refine h.of_set hpc rfl rfl rfl hstrategy ?_ ?_
  · simp only [DepthLane.enter, List.length_append, List.length_singleton]
    omega
  · simp only [DepthLane.enter]
    omega

/-- An operation of a call changes the counter and what it counts together. -/
theorem BalancedBy.goCall (h : BalancedBy lost s) (hpc : s.calls[i]? = some pc)
    (hgo : s.goCall i pc = some s') : BalancedBy lost s' := by
  cases pc with
  | raising envelope =>
      obtain rfl := Option.some.inj hgo
      refine h.of_set hpc rfl rfl rfl (fun _ hs => hs) ?_ rfl
      simp only [behind, ahead]
      omega
  | sending envelope =>
      rw [DepthLane.goCall] at hgo
      split at hgo
      · obtain rfl := Option.some.inj hgo
        exact h.of_set hpc rfl rfl rfl (fun _ hs => hs) rfl rfl
      · split at hgo
        · obtain rfl := Option.some.inj hgo
          exact h.enter hpc (fun _ hs => nomatch hs) rfl rfl
        · cases hgo
  | undoing =>
      obtain rfl := Option.some.inj hgo
      refine h.of_set hpc rfl rfl rfl (fun _ hs => nomatch hs) ?_ rfl
      -- the call itself has raised the counter
      have hblock := (h.strategy _ (List.mem_of_getElem? hpc) .block rfl).symm
      have hraised : ahead .undoing ≤ tally ahead s.calls :=
        le_tally ahead (List.mem_of_getElem? hpc)
      have hbehind := h.behind_eq_zero hblock
      have hdepth := h.depth
      simp only [behind, ahead] at hraised ⊢
      omega
  | trying envelope =>
      rw [DepthLane.goCall] at hgo
      split at hgo
      · obtain rfl := Option.some.inj hgo
        exact h.of_set hpc rfl rfl rfl (fun _ hs => nomatch hs) rfl rfl
      · split at hgo
        · obtain rfl := Option.some.inj hgo
          exact h.enter hpc (fun _ hs => hs) rfl rfl
        · obtain rfl := Option.some.inj hgo
          exact h.of_set hpc rfl rfl rfl (fun _ hs => nomatch hs) rfl rfl
  | raisingLate =>
      obtain rfl := Option.some.inj hgo
      refine h.of_set hpc rfl rfl rfl (fun _ hs => nomatch hs) ?_ rfl
      simp only [behind, ahead]
  | accepting =>
      obtain rfl := Option.some.inj hgo
      refine h.of_set hpc rfl rfl rfl (fun _ hs => nomatch hs) rfl ?_
      simp only [unaccepted]
  | rejecting =>
      obtain rfl := Option.some.inj hgo
      exact h.of_set hpc rfl rfl rfl (fun _ hs => nomatch hs) rfl rfl
  | recording =>
      obtain rfl := Option.some.inj hgo
      exact h.of_set hpc rfl rfl rfl (fun _ hs => nomatch hs) rfl rfl
  | returned => cases hgo

/-- The task has seen the counter, and has lost an envelope if that was zero. -/
theorem BalancedBy.afterSeeing (h : BalancedBy lost s) (htaken : taken s.task = 1) :
    BalancedBy (if s.depth = 0 then lost + 1 else lost)
      { s with task := .afterSeeing s.depth } := by
  have hdepth := h.depth
  refine ⟨?_, h.accepted, h.strategy⟩
  cases hseen : s.depth with
  | zero =>
      simp only [DepthTaskPc.afterSeeing, taken, if_true]
      omega
  | succ less =>
      simp only [DepthTaskPc.afterSeeing, taken, Nat.succ_ne_zero, if_false]
      omega

/-- Each time that the task finds the counter at zero, one envelope more is lost to it. -/
theorem balancedBy_step {a : DepthAction} (h : BalancedBy lost s) (hs : s.step a = some s') :
    BalancedBy (if s.Raised a then lost else lost + 1) s' := by
  have hdepth := h.depth
  cases a with
  | call envelope =>
      obtain rfl := Option.some.inj hs
      rw [if_pos (show s.Raised (.call envelope) from trivial)]
      refine ⟨?_, ?_, ?_⟩
      · cases hstrategy : s.strategy <;> simpa [behind, ahead] using hdepth
      · cases hstrategy : s.strategy <;> simpa [unaccepted] using h.accepted
      · intro pc hmem strategy hpc
        rcases List.mem_append.mp hmem with hmem | hmem
        · exact h.strategy pc hmem strategy hpc
        · obtain rfl := List.mem_singleton.mp hmem
          cases hstrategy : s.strategy <;> rw [hstrategy] at hpc <;>
            exact (Option.some.inj hpc).symm
  | go i =>
      obtain ⟨pc, hpc, hgo⟩ := Option.bind_eq_some_iff.mp hs
      exact h.goCall hpc hgo
  | receive =>
      rw [step] at hs
      split at hs
      · rename_i envelope queue htask hqueue
        split at hs
        · obtain rfl := Option.some.inj hs
          rw [if_pos (show s.Raised .receive from trivial)]
          refine ⟨?_, h.accepted, h.strategy⟩
          rw [hqueue, htask] at hdepth
          simp only [taken, List.length_cons] at hdepth ⊢
          omega
        · cases hs
      · cases hs
  | load =>
      rw [step] at hs
      split at hs
      case isTrue htask =>
        obtain rfl := Option.some.inj hs
        simpa [Raised] using h.afterSeeing (by rw [htask]; rfl)
      case isFalse => cases hs
  | exchange spurious =>
      rw [step] at hs
      split at hs
      · rename_i less htask
        have htaken : taken s.task = 1 := by rw [htask]; rfl
        split at hs
        case isTrue hseen =>
          obtain rfl := Option.some.inj hs
          have hraised : s.Raised (.exchange spurious) := by simp [Raised, hseen.1]
          rw [if_pos hraised]
          refine ⟨?_, h.accepted, h.strategy⟩
          simp only [taken]
          omega
        case isFalse =>
          obtain rfl := Option.some.inj hs
          simpa [Raised] using h.afterSeeing htaken
      · cases hs
  | deliver =>
      rw [step] at hs
      split at hs
      case isTrue htask =>
        obtain rfl := Option.some.inj hs
        rw [htask] at hdepth
        exact ⟨hdepth, h.accepted, h.strategy⟩
      case isFalse => cases hs

theorem strategy_goCall (hgo : s.goCall i pc = some s') : s'.strategy = s.strategy := by
  cases pc with
  | sending envelope | trying envelope =>
      rw [DepthLane.goCall] at hgo
      split at hgo
      · obtain rfl := Option.some.inj hgo
        rfl
      · split at hgo <;> cases hgo <;> rfl
  | returned => cases hgo
  | _ =>
      obtain rfl := Option.some.inj hgo
      rfl

/-- A lane keeps its strategy. -/
theorem strategy_step {a : DepthAction} (hs : s.step a = some s') : s'.strategy = s.strategy := by
  cases a with
  | call envelope =>
      obtain rfl := Option.some.inj hs
      rfl
  | go i =>
      obtain ⟨pc, -, hgo⟩ := Option.bind_eq_some_iff.mp hs
      exact strategy_goCall hgo
  | receive =>
      rw [step] at hs
      split at hs
      · split at hs <;> cases hs
        rfl
      · cases hs
  | load | deliver =>
      rw [step] at hs
      split at hs <;> cases hs
      rfl
  | exchange spurious =>
      rw [step] at hs
      split at hs
      · split at hs <;> cases hs <;> rfl
      · cases hs

/-! ## Runs -/

/-- In a lane that blocks the task never finds the counter at zero. -/
theorem BalancedBy.raised_of_block {a : DepthAction} (h : BalancedBy lost s)
    (hblock : s.strategy = .block) (hs : s.step a = some s') : s.Raised a := by
  have hdepth := h.depth
  have hbehind := h.behind_eq_zero hblock
  have hraised (htaken : taken s.task = 1) : s.depth ≠ 0 := by omega
  cases a with
  | load =>
      rw [step] at hs
      split at hs
      case isTrue htask => exact hraised (by rw [htask]; rfl)
      case isFalse => cases hs
  | exchange spurious =>
      rw [step] at hs
      split at hs
      · rename_i less htask
        exact hraised (by rw [htask]; rfl)
      · cases hs
  | _ => trivial

variable {actions : List DepthAction}

/-- What a run loses, it loses where the task finds the counter at zero. -/
theorem BalancedBy.replay (h : BalancedBy lost s)
    (hrun : machine.replay (fun _ _ => true) s actions = some s') :
    ∃ lost', BalancedBy lost' s' ∧ lost ≤ lost' ∧
      (lost' = lost ↔ machine.Meets Raised s actions) := by
  induction actions generalizing s lost with
  | nil =>
      obtain rfl := Option.some.inj hrun
      exact ⟨lost, h, le_rfl, iff_of_true rfl trivial⟩
  | cons a actions ih =>
      rw [Machine.replay, if_pos rfl] at hrun
      obtain ⟨next, hnext, hrest⟩ := Option.bind_eq_some_iff.mp hrun
      obtain ⟨lost', hfinal, hle, hmeets⟩ := ih (balancedBy_step h hnext) hrest
      refine ⟨lost', hfinal, ?_, ?_⟩
      · split at hle <;> omega
      · by_cases hraised : s.Raised a
        · rw [if_pos hraised] at hmeets
          rw [hmeets]
          refine ⟨fun hm => ⟨hraised, next, hnext, hm⟩, ?_⟩
          rintro ⟨-, t, ht, hm⟩
          obtain rfl := Option.some.inj (hnext.symm.trans ht)
          exact hm
        · rw [if_neg hraised] at hle
          exact iff_of_false (by omega) fun hm => hraised hm.1

/-- In a lane that blocks nothing is lost. -/
theorem meets_of_block (h : BalancedBy 0 s) (hblock : s.strategy = .block)
    (hrun : machine.replay (fun _ _ => true) s actions = some s') :
    machine.Meets Raised s actions := by
  induction actions generalizing s with
  | nil => trivial
  | cons a actions ih =>
      rw [Machine.replay, if_pos rfl] at hrun
      obtain ⟨next, hnext, hrest⟩ := Option.bind_eq_some_iff.mp hrun
      have hraised := h.raised_of_block hblock hnext
      have hbalanced := balancedBy_step h hnext
      rw [if_pos hraised] at hbalanced
      exact ⟨hraised, next, hnext, ih hbalanced ((strategy_step hnext).trans hblock) hrest⟩

/-- Where nothing is in progress, the counter has what was lost and what is in the queue. -/
theorem BalancedBy.exact_iff (h : BalancedBy lost s) (hquiet : s.Quiescent) :
    s.Exact ↔ lost = 0 := by
  have hbehind : tally behind s.calls = 0 :=
    (tally_eq_zero_iff behind).mpr fun pc hmem => hquiet.calls pc hmem ▸ rfl
  have hahead : tally ahead s.calls = 0 :=
    (tally_eq_zero_iff ahead).mpr fun pc hmem => hquiet.calls pc hmem ▸ rfl
  have hunaccepted : tally unaccepted s.calls = 0 :=
    (tally_eq_zero_iff unaccepted).mpr fun pc hmem => hquiet.calls pc hmem ▸ rfl
  have htaken : taken s.task = 0 := by
    rcases hquiet.task with htask | htask <;> rw [htask] <;> rfl
  have hdepth := h.depth
  have haccepted := h.accepted
  constructor
  · intro hexact
    have hlength := hexact.depth
    omega
  · exact fun hnone => ⟨by omega, by omega⟩

/-- At the end of a run, when no call and no receive is in progress, the counters are exact if and
only if the task never found the depth at zero; in a lane that blocks they always are. -/
theorem exact_iff_raised (start : DepthLane) (actions : List DepthAction) (s : DepthLane)
    (hstart : start.Fresh) (hrun : machine.replay (fun _ _ => true) start actions = some s)
    (hquiet : s.Quiescent) :
    (s.Exact ↔ machine.Meets Raised start actions) ∧ (start.strategy = .block → s.Exact) := by
  obtain ⟨lost, hbalanced, -, hmeets⟩ := hstart.balancedBy.replay hrun
  have hexact : s.Exact ↔ machine.Meets Raised start actions :=
    (hbalanced.exact_iff hquiet).trans hmeets
  exact ⟨hexact, fun hblock => hexact.mpr (meets_of_block hstart.balancedBy hblock hrun)⟩

/-- A lane with room for one envelope that rejects what does not fit. -/
def rejectingLane : DepthLane :=
  ⟨.rejectNewest, 1, true, [], 0, 0, 0, [], .receiving, 0⟩

/-- An envelope. -/
def oneEnvelope : DispatchEnvelope := ⟨0, ⟨0, 0, .null⟩, "manual", none, 0⟩

/-- Whether nothing is in progress. -/
def isQuiescent (s : DepthLane) : Bool :=
  s.calls.all (fun | .returned => true | _ => false) &&
    (s.task = .receiving || s.task = .delivering)

theorem quiescent_of_isQuiescent (h : s.isQuiescent = true) : s.Quiescent := by
  rw [isQuiescent, Bool.and_eq_true, List.all_eq_true, Bool.or_eq_true, decide_eq_true_eq,
    decide_eq_true_eq] at h
  refine ⟨fun pc hmem => ?_, h.2⟩
  have hpc := h.1 pc hmem
  cases pc with
  | returned => rfl
  | _ => cases hpc

/-- A call returns before the task takes its envelope. -/
def inTime : List DepthAction :=
  [.call oneEnvelope, .go 0, .go 0, .go 0, .receive, .load, .exchange false]

/-- Then the envelope is counted and counted off. -/
theorem counted_in_time : ∃ s, machine.replay (fun _ _ => true) rejectingLane inTime = some s ∧
    s.Exact := by
  refine ⟨_, rfl, (exact_iff_raised rejectingLane inTime _ ⟨rfl, rfl, rfl, rfl, rfl, rfl⟩ rfl
    (quiescent_of_isQuiescent rfl)).1.mpr ?_⟩
  exact ⟨trivial, _, rfl, trivial, _, rfl, trivial, _, rfl, trivial, _, rfl, trivial, _, rfl,
    Nat.one_ne_zero, _, rfl, Nat.one_ne_zero, _, rfl, trivial⟩

/-- The task takes the envelope before its call has raised the counter: the queue is empty, and its
depth is one. -/
theorem counted_too_late : ∃ s, machine.replay (fun _ _ => true) rejectingLane
    [.call oneEnvelope, .go 0, .receive, .load, .go 0, .go 0, .deliver] = some s ∧
      s.Quiescent ∧ s.queue = [] ∧ s.depth = 1 ∧ ¬ s.Exact := by
  refine ⟨_, rfl, quiescent_of_isQuiescent rfl, rfl, rfl, fun h => ?_⟩
  exact absurd h.depth (by decide)

end DepthLane

end Nazh
