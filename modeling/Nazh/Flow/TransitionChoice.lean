import Nazh.Flow.StateMachine
import Nazh.Lib.Choice

/-!
# Which transition is taken

The conditions of the transitions are evaluated by falling priority, and by the order of the config
among equals, until one is not false. They share the scope that holds the payload, and a script may
assign what it finds there. So a condition may come out otherwise than on the payload that came in.
-/

namespace Nazh.StateMachineNode

open Lib

variable {E : ScriptEngine} (node : StateMachineNode E)

/-! ## The choice on the payload -/

/-- The transitions with their conditions, each with its place in the config. -/
def numbered : List ((TransitionConfig × E.Ast) × ℕ) := node.transitions.zipIdx

/-- The priority of a numbered transition. -/
def rank (c : (TransitionConfig × E.Ast) × ℕ) : ℕ := c.1.1.priority

/-- The transition starts in the state, or in any. -/
def startsIn (currentState : String) (c : (TransitionConfig × E.Ast) × ℕ) : Bool :=
  c.1.1.source == "*" || c.1.1.source == currentState

/-- The condition of a numbered transition. -/
def evaluate (c : (TransitionConfig × E.Ast) × ℕ) (scope : E.Scope) : Except String Bool × E.Scope :=
  E.evalBool node.config.maxOperations c.1.2 scope

/-- The transitions that start in the state, in the order in which their conditions are evaluated. -/
def ordered (currentState : String) : List ((TransitionConfig × E.Ast) × ℕ) :=
  (node.numbered.insertionSort fun c d => rank d ≤ rank c).filter (startsIn currentState)

/-- The transition starts in the state, and all that come before it are false on the payload: those of
a higher priority, and those of the same that are earlier in the config. -/
structure FirstOn (currentState : String) (scope : E.Scope) (c : (TransitionConfig × E.Ast) × ℕ) :
    Prop where
  mem : c ∈ node.numbered
  starts : startsIn currentState c = true
  before : ∀ d ∈ node.numbered, startsIn currentState d = true → Precedes rank Prod.snd d c →
    (node.evaluate d scope).1 = .ok false

/-- The result of conditions that are all evaluated on the payload. -/
inductive ChosenOn (currentState : String) (scope : E.Scope) :
    Except EngineError (Option TransitionConfig) → Prop
  | none (h : ∀ c ∈ node.numbered, startsIn currentState c = true →
      (node.evaluate c scope).1 = .ok false) : ChosenOn currentState scope (.ok none)
  | first {c : (TransitionConfig × E.Ast) × ℕ} (h : node.FirstOn currentState scope c)
      (htrue : (node.evaluate c scope).1 = .ok true) : ChosenOn currentState scope (.ok (some c.1.1))
  | failed {c : (TransitionConfig × E.Ast) × ℕ} {e : String} (h : node.FirstOn currentState scope c)
      (herror : (node.evaluate c scope).1 = .error e) : ChosenOn currentState scope
        (.error (.scriptRuntime node.id s!"transition 条件求值失败: {e}"))

/-- The transition is chosen as on the payload, and every condition that is evaluated comes out as on
the payload. -/
structure ChoosesByPriority (currentState : String) (payload : Value) (scope : E.Scope) : Prop where
  chosen : node.ChosenOn currentState scope (node.evaluateTransitions currentState payload)
  independent : ∀ answer ∈ answers node.evaluate (node.ordered currentState) scope,
    answer.2 = (node.evaluate answer.1 scope).1

/-! ## The loop -/

/-- What the loop returns for the answer that ended it. -/
def conclude : Option (((TransitionConfig × E.Ast) × ℕ) × Except String Bool) →
    Except EngineError (Option TransitionConfig)
  | none => .ok none
  | some (c, .ok _) => .ok (some c.1.1)
  | some (_, .error e) => .error (.scriptRuntime node.id s!"transition 条件求值失败: {e}")

variable {node} {currentState : String} {payload : Value} {scope : E.Scope}

theorem firstMatch_eq (cs : List ((TransitionConfig × E.Ast) × ℕ)) (scope : E.Scope) :
    node.firstMatch currentState (cs.map Prod.fst) scope =
      node.conclude (firstAnswer node.evaluate (cs.filter (startsIn currentState)) scope) := by
  induction cs generalizing scope with
  | nil => rfl
  | cons c cs ih =>
      obtain ⟨⟨transition, ast⟩, i⟩ := c
      rw [List.map_cons, firstMatch]
      by_cases hstarts : transition.source ≠ "*" ∧ transition.source ≠ currentState
      · have hskip : startsIn currentState ((transition, ast), i) = false := by
          simp [startsIn, hstarts.1, hstarts.2]
        rw [if_pos hstarts, List.filter_cons_of_neg (by simp [hskip]), ih]
      · have htake : startsIn currentState ((transition, ast), i) = true := by
          simp only [startsIn, Bool.or_eq_true, beq_iff_eq]
          tauto
        rw [if_neg hstarts, List.filter_cons_of_pos htake, firstAnswer, answers, evaluate]
        rcases E.evalBool node.config.maxOperations ast scope with ⟨_ | _ | _, scope'⟩
        · rfl
        · exact ih scope'
        · rfl

/-- Sorting the transitions does not look at their places. -/
theorem map_fst_insertionSort (node : StateMachineNode E) :
    (node.numbered.insertionSort fun c d => rank d ≤ rank c).map Prod.fst = node.sortedTransitions := by
  rw [sortedTransitions, List.map_insertionSort (fun c d => rank d ≤ rank c)
    (fun a b => b.1.priority ≤ a.1.priority) Prod.fst _ fun _ _ _ _ => Iff.rfl, numbered,
    List.zipIdx_map_fst]

/-- The loop returns the first answer, in the order of the priorities, that is not false. -/
theorem evaluateTransitions_eq (hscope : E.payloadScope payload = .ok scope) :
    node.evaluateTransitions currentState payload =
      node.conclude (firstAnswer node.evaluate (node.ordered currentState) scope) := by
  rw [evaluateTransitions, hscope]
  dsimp only
  rw [← map_fst_insertionSort, firstMatch_eq, ordered]

/-! ## The order -/

theorem mem_ordered {c : (TransitionConfig × E.Ast) × ℕ} :
    c ∈ node.ordered currentState ↔ c ∈ node.numbered ∧ startsIn currentState c = true := by
  rw [ordered, List.mem_filter, List.mem_insertionSort]

/-- The conditions are evaluated by falling priority, and in the order of the config among equals. -/
theorem pairwise_ordered (node : StateMachineNode E) (currentState : String) :
    (node.ordered currentState).Pairwise (Precedes rank Prod.snd) := by
  refine List.Pairwise.filter _ (pairwise_insertionSort ?_)
  rw [numbered]
  refine List.pairwise_iff_getElem.mpr fun i j hi hj hij => ?_
  rw [List.getElem_zipIdx, List.getElem_zipIdx]
  simpa using hij

/-- What stands behind conditions that are false on the payload is the first that is not. -/
theorem firstOn_of_split {c : (TransitionConfig × E.Ast) × ℕ}
    {front back : List ((TransitionConfig × E.Ast) × ℕ)}
    (hsplit : node.ordered currentState = front ++ c :: back)
    (hfront : ∀ d ∈ front, (node.evaluate d scope).1 = .ok false) :
    node.FirstOn currentState scope c := by
  have hc : c ∈ node.ordered currentState := by rw [hsplit]; simp
  have hpairwise := node.pairwise_ordered currentState
  rw [hsplit] at hpairwise
  refine ⟨(mem_ordered.mp hc).1, (mem_ordered.mp hc).2, fun d hd hstarts hdc => ?_⟩
  have hmem : d ∈ front ++ c :: back := hsplit ▸ mem_ordered.mpr ⟨hd, hstarts⟩
  exact hfront d (mem_front_of_precedes hpairwise hmem hdc)

/-! ## When the choice is that of the payload -/

/-- Conditions that are not disturbed give the choice of the payload. -/
theorem chosenOn_of_undisturbed (hscope : E.payloadScope payload = .ok scope)
    (h : Undisturbed node.evaluate scope (node.ordered currentState) scope) :
    node.ChosenOn currentState scope (node.evaluateTransitions currentState payload) := by
  rw [evaluateTransitions_eq hscope]
  rcases firstAnswer_of_undisturbed h with ⟨hnone, hall⟩ | ⟨front, c, back, hsplit, hfront, hc, hfirst⟩
  · rw [hnone]
    exact .none fun c hc hstarts => hall c (mem_ordered.mpr ⟨hc, hstarts⟩)
  · rw [hfirst]
    have hon := firstOn_of_split hsplit hfront
    cases hanswer : (node.evaluate c scope).1 with
    | error e => exact .failed hon hanswer
    | ok b =>
        cases b with
        | false => exact absurd hanswer hc
        | true => exact .first hon hanswer

/-- The transition is chosen by priority alone just if no condition that is reached comes out otherwise
than on the payload, because of what those before it left in the scope. -/
theorem choosesByPriority_iff (hscope : E.payloadScope payload = .ok scope) :
    node.ChoosesByPriority currentState payload scope ↔
      Undisturbed node.evaluate scope (node.ordered currentState) scope :=
  ⟨fun h => undisturbed_iff.mpr h.independent, fun h =>
    ⟨chosenOn_of_undisturbed hscope h, undisturbed_iff.mp h⟩⟩

/-- Conditions that assign nothing are chosen by priority alone. -/
theorem choosesByPriority_of_keeps (hscope : E.payloadScope payload = .ok scope)
    (h : ∀ c ∈ node.numbered, (node.evaluate c scope).1 = .ok false →
      (node.evaluate c scope).2 = scope) : node.ChoosesByPriority currentState payload scope :=
  (choosesByPriority_iff hscope).mpr
    (undisturbed_of_keeps fun c hc => h c (mem_ordered.mp hc).1)

/-! ## A condition that assigns the payload -/

/-- An engine for one script that assigns the payload and one that compares it. -/
def assignEngine : ScriptEngine where
  Ast := String
  Scope := Value
  compile _ script := .ok script
  payloadScope := .ok
  evalBool _ script scope :=
    if script = "payload = 0; false" then (.ok false, .number (.posInt 0))
    else if script = "payload == 1" then (.ok (decide (scope = .number (.posInt 1))), scope)
    else (.error "Variable not found", scope)
  debug _ := ""

/-- The transition that starts the machine on the payload 1. -/
def startTransition : TransitionConfig := ⟨"idle", "running", "payload == 1", 1, none⟩

/-- A machine in which the condition of the fault comes before that of the start. -/
def assignConfig (faultCondition : String) : StateMachineConfig where
  initialState := "idle"
  states := [⟨"idle", [], []⟩, ⟨"running", [], []⟩, ⟨"fault", [], []⟩]
  transitions := [startTransition, ⟨"*", "fault", faultCondition, 2, none⟩]
  maxOperations := 50000

def assignNode (faultCondition : String) : StateMachineNode assignEngine where
  id := "sm"
  config := assignConfig faultCondition
  actionPorts := []
  transitions := [(startTransition, "payload == 1"),
    (⟨"*", "fault", faultCondition, 2, none⟩, faultCondition)]

/-- After the condition of the fault the payload is no longer 1, and no transition is taken. -/
theorem assigned_payload_is_compared :
    new assignEngine "sm" (assignConfig "payload = 0; false") =
        .ok (assignNode "payload = 0; false") ∧
      (assignNode "payload = 0; false").FirstOn "idle" (.number (.posInt 1))
        ((startTransition, "payload == 1"), 0) ∧
      ((assignNode "payload = 0; false").evaluate ((startTransition, "payload == 1"), 0)
        (.number (.posInt 1))).1 = .ok true ∧
      (assignNode "payload = 0; false").evaluateTransitions "idle" (.number (.posInt 1)) = .ok none ∧
      ¬ (assignNode "payload = 0; false").ChoosesByPriority "idle" (.number (.posInt 1))
        (.number (.posInt 1)) := by
  refine ⟨rfl, ⟨List.mem_cons_self, by decide, by decide⟩, by decide, by decide, fun h => ?_⟩
  have hstart := h.independent (((startTransition, "payload == 1"), 0), .ok false)
    (List.mem_cons_of_mem _ List.mem_cons_self)
  exact absurd hstart (by decide)

/-- A condition that only compares the payload leaves it to the others. -/
theorem compared_payload_is_kept :
    (assignNode "payload == 1").ChoosesByPriority "idle" Value.null Value.null ↔
      Undisturbed (assignNode "payload == 1").evaluate Value.null
        ((assignNode "payload == 1").ordered "idle") Value.null :=
  choosesByPriority_iff rfl

end Nazh.StateMachineNode
