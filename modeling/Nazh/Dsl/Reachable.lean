import Nazh.Dsl.StateGraph
import Nazh.Lib.Machine
import Nazh.Lib.Saturation

/-!
# States that are reached

The search for reachable states goes through the transitions again and again until one pass finds
nothing new. A pass finds a state at once if the transition to it comes after the one that leads to
its source, and one pass later otherwise; the order of the transitions decides when the search
ends, and not what it finds.
-/

namespace Nazh

open Lib

namespace WorkflowSpec

/-- The runs of the state machine from a state; an action is the place of a transition. -/
def runs (spec : WorkflowSpec) (initialState : String) : Machine String ℕ where
  init state := state = initialState
  step state i := spec.transitions[i]?.bind fun trans =>
    if trans.isWildcard || trans.source = state then some trans.target else none

variable {spec : WorkflowSpec} {initialState name : String} {reachable : Finset String}

/-! ## One pass -/

/-- What one transition adds. -/
def reachStep (reachable : Finset String) (trans : TransitionSpec) : Finset String :=
  if (trans.isWildcard || trans.source ∈ reachable) && trans.target ∉ reachable then
    insert trans.target reachable
  else reachable

theorem mem_reachStep {trans : TransitionSpec} : name ∈ reachStep reachable trans ↔
      name ∈ reachable ∨
        name = trans.target ∧ (trans.isWildcard = true ∨ trans.source ∈ reachable) := by
  unfold reachStep
  split
  case isTrue h =>
    simp only [Bool.and_eq_true, Bool.or_eq_true, decide_eq_true_eq] at h
    rw [Finset.mem_insert, or_comm]
    exact or_congr_right (and_iff_left h.1).symm
  case isFalse h =>
    refine ⟨.inl, fun hor => hor.elim (fun hold => hold) fun ⟨hname, havailable⟩ => ?_⟩
    by_contra hnew
    refine h ?_
    simp only [Bool.and_eq_true, Bool.or_eq_true, decide_eq_true_eq]
    exact ⟨havailable, hname ▸ hnew⟩

theorem subset_foldl_reachStep (transitions : List TransitionSpec) (reachable : Finset String) :
    reachable ⊆ transitions.foldl reachStep reachable := by
  induction transitions generalizing reachable with
  | nil => exact subset_rfl
  | cons trans rest ih => exact fun x hx => ih _ (mem_reachStep.mpr (.inl hx))

/-- A pass stays in every set that is closed under the transitions. -/
theorem foldl_reachStep_subset {closed : String → Prop} {transitions : List TransitionSpec}
    (hclosed : ∀ trans ∈ transitions, trans.isWildcard = true ∨ closed trans.source →
      closed trans.target)
    (h : ∀ state ∈ reachable, closed state) :
    ∀ state ∈ transitions.foldl reachStep reachable, closed state := by
  induction transitions generalizing reachable with
  | nil => exact h
  | cons trans rest ih =>
      obtain ⟨hfirst, hrest⟩ := List.forall_mem_cons.mp hclosed
      refine ih hrest fun state hstate => ?_
      rcases mem_reachStep.mp hstate with hold | ⟨rfl, havailable⟩
      · exact h state hold
      · exact hfirst (havailable.imp_right (h _))

/-- A pass leaves no target of a transition out that was available before. -/
theorem target_mem_foldl_reachStep {transitions : List TransitionSpec} {trans : TransitionSpec}
    (hmem : trans ∈ transitions) (havailable : trans.isWildcard = true ∨ trans.source ∈ reachable) :
    trans.target ∈ transitions.foldl reachStep reachable := by
  induction transitions generalizing reachable with
  | nil => exact absurd hmem List.not_mem_nil
  | cons first rest ih =>
      rcases List.mem_cons.mp hmem with rfl | hmem
      · exact subset_foldl_reachStep rest _ (mem_reachStep.mpr (.inr ⟨rfl, havailable⟩))
      · exact ih hmem (havailable.imp_right fun h => mem_reachStep.mpr (.inl h))

/-! ## The loop -/

theorem reachLoop_eq_of_fixed (h : spec.reachPass reachable = reachable) (fuel : ℕ) :
    spec.reachLoop fuel reachable = reachable := by
  cases fuel with
  | zero => rfl
  | succ fuel => rw [reachLoop, if_pos h]

/-- The loop ends at the first pass that changes nothing. -/
theorem reachLoop_eq_iterate {n fuel : ℕ} (hn : n ≤ fuel)
    (h : spec.reachPass (spec.reachPass^[n] reachable) = spec.reachPass^[n] reachable) :
    spec.reachLoop fuel reachable = spec.reachPass^[n] reachable := by
  induction n generalizing fuel reachable with
  | zero => exact reachLoop_eq_of_fixed h fuel
  | succ n ih =>
      cases fuel with
      | zero => exact absurd hn (Nat.not_succ_le_zero n)
      | succ fuel =>
          rw [Function.iterate_succ_apply] at h ⊢
          rw [reachLoop]
          split
          case isTrue hfixed =>
            rw [hfixed, Function.iterate_fixed hfixed]
          case isFalse => exact ih (Nat.le_of_succ_le_succ hn) h

/-- After at most as many passes as there are transitions nothing new is found. -/
theorem findReachableStates_fixed (spec : WorkflowSpec) (initialState : String) :
    ∃ n ≤ spec.transitions.length,
      spec.findReachableStates initialState = spec.reachPass^[n] {initialState} ∧
        spec.reachPass (spec.findReachableStates initialState) =
          spec.findReachableStates initialState := by
  let targets := (spec.transitions.map TransitionSpec.target).toFinset
  obtain ⟨n, hn, hfixed⟩ := exists_iterate_fixed (f := spec.reachPass) (S := {initialState})
    (U := insert initialState targets) (subset_foldl_reachStep spec.transitions)
    (fun T hT => foldl_reachStep_subset
      (fun trans hmem _ => Finset.mem_insert_of_mem
        (List.mem_toFinset.mpr (List.mem_map_of_mem hmem))) hT)
    (Finset.singleton_subset_iff.mpr (Finset.mem_insert_self _ _))
  have hcard : (insert initialState targets \ {initialState}).card ≤ spec.transitions.length := by
    have hsub : insert initialState targets \ {initialState} ⊆ targets := by
      intro x hx
      obtain ⟨hmem, hne⟩ := Finset.mem_sdiff.mp hx
      exact (Finset.mem_insert.mp hmem).resolve_left fun h => hne (Finset.mem_singleton.mpr h)
    refine (Finset.card_le_card hsub).trans ((List.toFinset_card_le _).trans ?_)
    rw [List.length_map]
  have hloop : spec.findReachableStates initialState = spec.reachPass^[n] {initialState} :=
    reachLoop_eq_iterate ((hn.trans hcard).trans (Nat.le_succ _)) hfixed
  exact ⟨n, hn.trans hcard, hloop, hloop ▸ hfixed⟩

/-! ## What is found -/

/-- A run goes on with a transition that is available. -/
theorem runs_next {trans : TransitionSpec} {state : String} (hmem : trans ∈ spec.transitions)
    (hstate : (spec.runs initialState).Reaches state)
    (havailable : trans.isWildcard = true ∨ trans.source = state) :
    (spec.runs initialState).Reaches trans.target := by
  obtain ⟨i, hi⟩ := List.getElem?_of_mem hmem
  refine .next (a := i) hstate trivial ?_
  rcases havailable with hwildcard | hsource
  · simp [runs, hi, hwildcard]
  · simp [runs, hi, hsource]

theorem runs_step {state state' : String} {i : ℕ}
    (h : (spec.runs initialState).step state i = some state') :
    ∃ trans ∈ spec.transitions, (trans.isWildcard = true ∨ trans.source = state) ∧
      trans.target = state' := by
  obtain ⟨trans, hi, htaken⟩ := Option.bind_eq_some_iff.mp h
  split at htaken
  case isTrue havailable =>
    refine ⟨trans, List.mem_of_getElem? hi, ?_, Option.some.inj htaken⟩
    simpa using havailable
  case isFalse => cases htaken

/-- The search finds the states that some run is in. -/
theorem mem_findReachableStates_iff :
    name ∈ spec.findReachableStates initialState ↔ (spec.runs initialState).Reaches name := by
  obtain ⟨n, -, hiterate, hfixed⟩ := findReachableStates_fixed spec initialState
  constructor
  · rw [hiterate]
    refine fun hname => forall_mem_iterate ?_ ?_ n name hname
    · exact fun state hstate => .start (Finset.mem_singleton.mp hstate)
    · intro reachable hreachable
      refine foldl_reachStep_subset (fun trans hmem havailable => ?_) hreachable
      rcases havailable with hwildcard | hsource
      · exact runs_next hmem (.start rfl) (.inl hwildcard)
      · exact runs_next hmem hsource (.inr rfl)
  · intro hreaches
    refine hreaches.invariant (I := (· ∈ spec.findReachableStates initialState)) ?_ ?_
    · rintro state rfl
      rw [hiterate]
      exact subset_iterate (subset_foldl_reachStep spec.transitions) n (Finset.mem_singleton_self _)
    · intro state i state' hstate _ hstep
      obtain ⟨trans, hmem, havailable, rfl⟩ := runs_step hstep
      rw [← hfixed]
      refine target_mem_foldl_reachStep hmem (havailable.imp_right ?_)
      rintro rfl
      exact hstate

/-- The order of the transitions decides nothing. -/
theorem runs_perm {spec' : WorkflowSpec} (h : spec'.transitions.Perm spec.transitions)
    (hreaches : (spec.runs initialState).Reaches name) :
    (spec'.runs initialState).Reaches name := by
  refine hreaches.invariant (I := (spec'.runs initialState).Reaches) ?_ ?_
  · exact fun state hstate => .start hstate
  · intro state i state' hstate _ hstep
    obtain ⟨trans, hmem, havailable, rfl⟩ := runs_step hstep
    exact runs_next (h.mem_iff.mpr hmem) hstate havailable

/-! ## The warnings -/

/-- The warning that a state is not reached. -/
def unreachableWarning (name : String) : SafetyDiagnostic :=
  ⟨.warning, "state_machine_completeness",
    s!"状态 \x60{name}\x60 不可达（无 incoming transition 且非初始状态）", some name, none, none, none⟩

theorem unreachableWarning_mem_iff (texts : SpecTexts) :
    unreachableWarning name ∈ spec.checkStateMachineCompleteness texts initialState ↔
      name ∈ spec.states.keys ∧ name ∉ spec.findReachableStates initialState := by
  rw [checkStateMachineCompleteness]
  simp only [List.mem_append, List.mem_map, List.mem_filter, decide_eq_true_eq]
  constructor
  · rintro ((⟨other, hother, heq⟩ | ⟨other, -, heq⟩) | ⟨cycle, -, heq⟩)
    · obtain rfl := Option.some.inj (congrArg SafetyDiagnostic.stateName heq)
      exact hother
    · -- the warning of a dead end has another message
      obtain rfl := Option.some.inj (congrArg SafetyDiagnostic.stateName heq)
      have hmessage := (String.append_right_inj _).mp (congrArg SafetyDiagnostic.message heq)
      exact absurd hmessage (by decide)
    · have hstate := congrArg SafetyDiagnostic.stateName heq
      split at hstate <;> cases hstate
  · exact fun h => .inl (.inl ⟨name, h, rfl⟩)

/-- The search ends, with the states that a run can be in, whatever the order of the transitions; a
state is warned of exactly if no run is ever in it. -/
theorem unreachable_warned_iff (spec : WorkflowSpec) (texts : SpecTexts) (initialState : String) :
    (∃ n ≤ spec.transitions.length,
      spec.findReachableStates initialState = spec.reachPass^[n] {initialState} ∧
        spec.reachPass (spec.findReachableStates initialState) =
          spec.findReachableStates initialState) ∧
      (∀ name, name ∈ spec.findReachableStates initialState ↔
        (spec.runs initialState).Reaches name) ∧
      (∀ name, unreachableWarning name ∈ spec.checkStateMachineCompleteness texts initialState ↔
        name ∈ spec.states.keys ∧ ¬ (spec.runs initialState).Reaches name) ∧
      ∀ transitions : List TransitionSpec, transitions.Perm spec.transitions →
        findReachableStates { spec with transitions } initialState =
          spec.findReachableStates initialState := by
  refine ⟨findReachableStates_fixed spec initialState, fun name => mem_findReachableStates_iff,
    fun name => ?_, fun transitions hperm => ?_⟩
  · rw [unreachableWarning_mem_iff, mem_findReachableStates_iff]
  · ext name
    rw [mem_findReachableStates_iff, mem_findReachableStates_iff]
    exact ⟨runs_perm hperm.symm, runs_perm hperm⟩

end WorkflowSpec

end Nazh
