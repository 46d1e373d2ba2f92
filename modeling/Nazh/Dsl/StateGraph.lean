import Mathlib.Data.Finset.Card
import Mathlib.Data.List.Rotate
import Mathlib.Data.List.Sort
import Nazh.Core.Text
import Nazh.Dsl.Workflow
import Nazh.Lib.DepthFirst

/-!
# The graph of states

The safety checks look for states that are not reached, for states that are not left, and for
loops. A depth-first search through the transitions finds a loop at each transition that leads
back into the path it is on; a loop is an error if it has an unconditional transition from each of
its states to the next.

The search enters a state once, along its first path. It does not see a loop that leads back into
another path, and whether it sees one depends on the order of the states and transitions
(`ClosesFirstPath`).
-/

namespace Nazh

open Lib

namespace WorkflowSpec

variable (spec : WorkflowSpec)

/-! ## States that are not reached or not left -/

/-- One pass over the transitions. -/
def reachPass (reachable : Finset String) : Finset String :=
  spec.transitions.foldl (fun reachable trans =>
    if (trans.isWildcard || trans.source ∈ reachable) && trans.target ∉ reachable then
      insert trans.target reachable
    else reachable) reachable

/-- Passes until one changes nothing. -/
def reachLoop : ℕ → Finset String → Finset String
  | 0, reachable => reachable
  | fuel + 1, reachable =>
      if spec.reachPass reachable = reachable then reachable
      else reachLoop fuel (spec.reachPass reachable)

/-- `find_reachable_states`. -/
def findReachableStates (initialState : String) : Finset String :=
  spec.reachLoop (spec.transitions.length + 1) {initialState}

/-- `is_terminal_state_hint`. -/
def isTerminalStateHint (texts : SpecTexts) (name : String) : Bool :=
  ["done", "complete", "end", "fault", "error", "finish"].any fun hint =>
    hint.toList <:+: (texts.toLowercase name).toList

/-- `find_dead_end_states`. -/
def findDeadEndStates (texts : SpecTexts) : List String :=
  spec.states.keys.filter fun name =>
    !(spec.transitions.any fun trans => !trans.isWildcard && trans.source = name) &&
    !(spec.transitions.any TransitionSpec.isWildcard) &&
    (spec.timeout.lookup name).isNone && !isTerminalStateHint texts name

/-! ## Loops -/

/-- `adj`: where the transitions of a state lead, in their order. -/
def successors (name : String) : List String :=
  (spec.transitions.filter fun trans => !trans.isWildcard && trans.source = name).map
    TransitionSpec.target

/-- What `dfs_find_cycles` goes on with. -/
structure CycleSearch where
  visited : Finset String
  inStack : Finset String
  path : List String
  cycles : List (List String)

/-- The nodes of a cycle in order. -/
def sorted (cycle : List String) : List String := cycle.insertionSort (· ≤ ·)

/-- A cycle at a node of the path, if no other has the same nodes. -/
def pushCycle (cycles : List (List String)) (path : List String) (node : String) :
    List (List String) :=
  match path.idxOf? node with
  | none => cycles
  | some start =>
      let cycle := path.drop start
      if cycles.any fun existing => sorted existing = sorted cycle then cycles
      else cycles ++ [cycle]

/-- `dfs_find_cycles`, with fuel for `fuel` nodes below one another. -/
def dfsFindCycles (adj : String → List String) : ℕ → CycleSearch → String → Option CycleSearch
  | 0, _, _ => none
  | fuel + 1, s, node =>
      if node ∈ s.inStack then some { s with cycles := pushCycle s.cycles s.path node }
      else if node ∈ s.visited then some s
      else do
        let entered : CycleSearch :=
          ⟨insert node s.visited, insert node s.inStack, s.path ++ [node], s.cycles⟩
        let left ← (adj node).foldlM (dfsFindCycles adj fuel) entered
        return { left with path := left.path.dropLast, inStack := left.inStack.erase node }

/-- Fuel for every state and every target of a transition. -/
def searchFuel : ℕ := spec.states.keys.length + spec.transitions.length + 1

/-- `find_trigger_cycles`. -/
def findTriggerCycles : Option (List (List String)) :=
  (spec.states.keys.foldlM (dfsFindCycles spec.successors spec.searchFuel) ⟨∅, ∅, [], []⟩).map
    CycleSearch.cycles

/-- `is_unconditional_when`. -/
def isUnconditionalWhen (expr : String) : Bool :=
  Text.trim expr = "" || Text.trim expr = "true"

/-- `has_unconditional_edge`. -/
def hasUnconditionalEdge (source target : String) : Bool :=
  spec.transitions.any fun trans =>
    trans.source = source && trans.target = target && isUnconditionalWhen trans.condition

/-- `is_unconditional_cycle`: every node and the next one, the last and the first. -/
def isUnconditionalCycle (cycle : List String) : Bool :=
  !cycle.isEmpty &&
    (cycle.zip (cycle.rotate 1)).all fun pair => spec.hasUnconditionalEdge pair.1 pair.2

/-! ## The rule -/

/-- `check_state_machine_completeness`. -/
def checkStateMachineCompleteness (texts : SpecTexts) (initialState : String) :
    List SafetyDiagnostic :=
  let rule := "state_machine_completeness"
  let reachable := spec.findReachableStates initialState
  (spec.states.keys.filter (· ∉ reachable)).map (fun name =>
    ⟨.warning, rule, s!"状态 \x60{name}\x60 不可达（无 incoming transition 且非初始状态）", some name,
      none, none, none⟩) ++
  (spec.findDeadEndStates texts).map (fun name =>
    ⟨.warning, rule, s!"状态 \x60{name}\x60 为死胡同（无 outgoing transition 且无 timeout）", some name,
      none, none, none⟩) ++
  (spec.findTriggerCycles.getD []).map fun cycle =>
    let path := " → ".intercalate cycle
    if spec.isUnconditionalCycle cycle then diagError rule s!"检测到无条件循环触发路径: {path}"
    else diagWarning rule s!"检测到有条件状态回路: {path}，请确认触发条件会等待外部输入或状态变化"

/-- A transition that is not a wildcard and needs no condition. -/
def UnconditionalEdge (source target : String) : Prop :=
  ∃ trans ∈ spec.transitions, trans.isWildcard = false ∧ trans.source = source ∧
    trans.target = target ∧ isUnconditionalWhen trans.condition = true

/-- The graph of these transitions has a cycle. -/
def HasUnconditionalCycle : Prop :=
  ∃ name, Relation.TransGen spec.UnconditionalEdge name name

/-- A loop of unconditional transitions closes the first path to its last state: the path that
takes at each point the first choice from which that state can still be reached without going
back. Choices are in the order of the states, and then in the order of the transitions. -/
def ClosesFirstPath : Prop :=
  ∃ before name rest last,
    DepthFirst.First spec.successors ∅ spec.states.keys (before ++ name :: rest) last ∧
      (name :: rest ++ [name]).IsChain spec.UnconditionalEdge

/-! ## The search is a depth-first search -/

open DepthFirst

/-- The cycles that a list of calls leads to. -/
def record (cycles : List (List String)) (calls : List (List String × String)) :
    List (List String) :=
  calls.foldl (fun cycles call => pushCycle cycles call.1 call.2) cycles

/-- The nodes on the stack are those of the path, and were visited. -/
structure CycleSearch.Valid (s : CycleSearch) : Prop where
  inStack : ∀ x, x ∈ s.inStack ↔ x ∈ s.path
  visited : ∀ x ∈ s.path, x ∈ s.visited

/-- What a search has found, for the state before it. -/
def CycleSearch.after (s : CycleSearch) (result : Finset String × List (List String × String)) :
    CycleSearch :=
  { s with visited := result.1, cycles := record s.cycles result.2 }

variable {spec} {adj : String → List String} {s : CycleSearch} {path before rest : List String}
  {node : String} {cycles : List (List String)}

theorem pushCycle_of_notMem (h : node ∉ path) : pushCycle cycles path node = cycles := by
  rw [pushCycle, List.idxOf?_eq_none_iff.mpr h]

theorem CycleSearch.Valid.after (h : s.Valid)
    {result : Finset String × List (List String × String)} (hsub : s.visited ⊆ result.1) :
    (s.after result).Valid :=
  ⟨h.inStack, fun x hx => hsub (h.visited x hx)⟩

/-- If each step is a search, all of them are. -/
theorem foldlM_eq_visitEach {step : CycleSearch → String → Option CycleSearch}
    {one : Finset String → String → Search String}
    (hstep : ∀ s : CycleSearch, s.Valid → s.path = path → ∀ node,
      step s node = (one s.visited node).map s.after)
    (hone : ∀ V node result, one V node = some result → V ⊆ result.1) (hs : s.Valid)
    (hpath : s.path = path) (choices : List String) :
    choices.foldlM step s = (visitEach one s.visited choices).map s.after := by
  induction choices generalizing s with
  | nil => rfl
  | cons node choices ih =>
      rw [List.foldlM_cons, hstep s hs hpath node, visitEach]
      cases hhere : one s.visited node with
      | none => rfl
      | some here =>
          have hvalid := hs.after (hone _ _ _ hhere)
          simp only [Option.map_some, Option.bind_eq_bind, Option.bind_some]
          rw [ih hvalid hpath]
          simp only [Option.map_map]
          congr 1
          funext there
          simp [CycleSearch.after, record]

theorem subset_of_visit {fuel : ℕ} {V : Finset String}
    {result : Finset String × List (List String × String)}
    (h : visit adj fuel path V node = some result) : V ⊆ result.1 :=
  fun x hx => ((explores_visit h).visited x).mpr (.inl hx)

/-- The search of a state is a depth-first search, with the cycles of its calls. -/
theorem dfsFindCycles_eq_visit (fuel : ℕ) (hs : s.Valid) :
    dfsFindCycles adj fuel s node = (visit adj fuel s.path s.visited node).map s.after := by
  induction fuel generalizing s node with
  | zero => rfl
  | succ fuel ih =>
      rw [dfsFindCycles, visit]
      by_cases hstack : node ∈ s.inStack
      · have hmem := hs.visited node ((hs.inStack node).mp hstack)
        rw [if_pos hstack, if_pos hmem]
        rfl
      · have hnot : node ∉ s.path := fun h => hstack ((hs.inStack node).mpr h)
        rw [if_neg hstack]
        by_cases hmem : node ∈ s.visited
        · rw [if_pos hmem, if_pos hmem]
          simp [CycleSearch.after, record, pushCycle_of_notMem hnot]
        · rw [if_neg hmem, if_neg hmem]
          have hvalid : CycleSearch.Valid
              ⟨insert node s.visited, insert node s.inStack, s.path ++ [node], s.cycles⟩ := by
            refine ⟨?_, ?_⟩
            · intro x
              simp only [Finset.mem_insert, List.mem_append, List.mem_singleton, hs.inStack x]
              exact or_comm
            · intro x hx
              rcases List.mem_append.mp hx with hx | hx
              · exact Finset.mem_insert_of_mem (hs.visited x hx)
              · exact List.mem_singleton.mp hx ▸ Finset.mem_insert_self _ _
          have hstep : ∀ s' : CycleSearch, s'.Valid → s'.path = s.path ++ [node] → ∀ n,
              dfsFindCycles adj fuel s' n =
                (visit adj fuel (s.path ++ [node]) s'.visited n).map s'.after := by
            intro s' hs' hpath n
            rw [ih hs', hpath]
          have hbelow := foldlM_eq_visitEach hstep (fun _ _ _ => subset_of_visit) hvalid rfl (adj node)
          simp only [hbelow, Option.bind_eq_bind, Option.map_map]
          cases visitEach (visit adj fuel (s.path ++ [node])) (insert node s.visited) (adj node) with
          | none => rfl
          | some below =>
              simp [CycleSearch.after, record, pushCycle_of_notMem hnot, Finset.erase_insert hstack]

/-! ## The cycles that are found -/

variable {calls : List (List String × String)} {cycle : List String}

/-- A node of the path, where it is first, closes a cycle. -/
theorem pushCycle_of_split (hpath : path = before ++ node :: rest) (hbefore : node ∉ before) :
    pushCycle cycles path node =
      if cycles.any fun existing => sorted existing = sorted (node :: rest) then cycles
      else cycles ++ [node :: rest] := by
  have hidx : path.idxOf? node = some before.length := by
    rw [List.idxOf?_eq_some_iff]
    subst hpath
    refine ⟨by simp, by simp, ?_⟩
    intro j hj heq
    rw [List.getElem_append_left hj] at heq
    exact hbefore (heq ▸ List.getElem_mem hj)
  rw [pushCycle, hidx, hpath]
  simp

theorem record_cons (cycles : List (List String)) (call : List String × String)
    (calls : List (List String × String)) :
    record cycles (call :: calls) = record (pushCycle cycles call.1 call.2) calls := rfl

/-- A cycle that is recorded was closed by a call. -/
theorem mem_record (h : cycle ∈ record cycles calls) :
    cycle ∈ cycles ∨ ∃ call ∈ calls, ∃ before rest, call.1 = before ++ call.2 :: rest ∧
      call.2 ∉ before ∧ cycle = call.2 :: rest := by
  induction calls generalizing cycles with
  | nil => exact .inl h
  | cons call calls ih =>
      rw [record_cons] at h
      rcases ih h with hpush | ⟨other, hother, hclosed⟩
      · by_cases hmem : call.2 ∈ call.1
        · obtain ⟨before, rest, hpath, hbefore⟩ := List.eq_append_cons_of_mem hmem
          rw [pushCycle_of_split hpath hbefore] at hpush
          split at hpush
          · exact .inl hpush
          · rcases List.mem_append.mp hpush with hold | hnew
            · exact .inl hold
            · exact .inr ⟨call, List.mem_cons_self, before, rest, hpath, hbefore,
                List.mem_singleton.mp hnew⟩
        · rw [pushCycle_of_notMem hmem] at hpush
          exact .inl hpush
      · exact .inr ⟨other, List.mem_cons_of_mem _ hother, hclosed⟩

/-- What was recorded stays. -/
theorem subset_record (cycles : List (List String)) (calls : List (List String × String)) :
    cycles ⊆ record cycles calls := by
  induction calls generalizing cycles with
  | nil => exact fun _ h => h
  | cons call calls ih =>
      intro cycle hcycle
      rw [record_cons]
      apply ih
      by_cases hmem : call.2 ∈ call.1
      · obtain ⟨before, rest, hpath, hbefore⟩ := List.eq_append_cons_of_mem hmem
        rw [pushCycle_of_split hpath hbefore]
        split
        · exact hcycle
        · exact List.mem_append_left _ hcycle
      · rw [pushCycle_of_notMem hmem]
        exact hcycle

/-- Of a cycle that a call closes, one with the same nodes is recorded. -/
theorem exists_mem_record (cycles : List (List String)) {call : List String × String}
    (hcall : call ∈ calls)
    (hpath : call.1 = before ++ call.2 :: rest) (hbefore : call.2 ∉ before) :
    ∃ cycle ∈ record cycles calls, cycle.Perm (call.2 :: rest) := by
  induction calls generalizing cycles with
  | nil => cases hcall
  | cons first calls ih =>
      rcases List.mem_cons.mp hcall with rfl | hrest
      · have hpush : ∃ cycle ∈ pushCycle cycles call.1 call.2, cycle.Perm (call.2 :: rest) := by
          rw [pushCycle_of_split hpath hbefore]
          split
          · rename_i hany
            obtain ⟨existing, hexisting, hsame⟩ := List.any_eq_true.mp hany
            refine ⟨existing, hexisting, ?_⟩
            have hsorted : sorted existing = sorted (call.2 :: rest) := by simpa using hsame
            have hback : (sorted (call.2 :: rest)).Perm (call.2 :: rest) := List.perm_insertionSort _ _
            rw [← hsorted] at hback
            exact (List.perm_insertionSort _ existing).symm.trans hback
          · exact ⟨_, by simp, .refl _⟩
        obtain ⟨cycle, hcycle, hperm⟩ := hpush
        exact ⟨cycle, subset_record _ calls hcycle, hperm⟩
      · exact ih _ hrest

/-- With the fuel there is the search ends. -/
theorem exists_visitEach (spec : WorkflowSpec) :
    ∃ result, visitEach (visit spec.successors spec.searchFuel []) ∅ spec.states.keys = some result := by
  let nodes : Finset String :=
    spec.states.keys.toFinset ∪ (spec.transitions.map TransitionSpec.target).toFinset
  have hadj : ∀ n ∈ nodes, ∀ m ∈ spec.successors n, m ∈ nodes := by
    intro n _ m hm
    obtain ⟨trans, htrans, rfl⟩ := List.mem_map.mp hm
    have hmem := List.mem_map_of_mem (f := TransitionSpec.target) (List.mem_filter.mp htrans).1
    exact Finset.mem_union_right _ (List.mem_toFinset.mpr hmem)
  have hcard : nodes.card < spec.searchFuel := by
    have hunion := Finset.card_union_le spec.states.keys.toFinset
      (spec.transitions.map TransitionSpec.target).toFinset
    have hstates := List.toFinset_card_le spec.states.keys
    have htargets := List.toFinset_card_le (spec.transitions.map TransitionSpec.target)
    rw [List.length_map] at htargets
    have hnodes : nodes.card ≤ spec.states.keys.toFinset.card +
      (spec.transitions.map TransitionSpec.target).toFinset.card := hunion
    rw [searchFuel]
    omega
  have hone : ∀ W n, ∅ ⊆ W → n ∈ nodes →
      ∃ result, visit spec.successors spec.searchFuel [] W n = some result ∧ W ⊆ result.1 := by
    intro W n _ hn
    have hless : (nodes \ W).card ≤ nodes.card := Finset.card_le_card Finset.sdiff_subset
    exact visit_isSome hadj (by omega) hn
  have hkeys : ∀ n ∈ spec.states.keys, n ∈ nodes := by
    intro n hn
    exact Finset.mem_union_left _ (List.mem_toFinset.mpr hn)
  obtain ⟨result, hresult, -⟩ := visitEach_isSome hkeys hone
  exact ⟨result, hresult⟩

/-- The search of all states gives the cycles of a depth-first search through them. -/
theorem findTriggerCycles_eq (spec : WorkflowSpec) : ∃ result,
    spec.findTriggerCycles = some (record [] result.2) ∧
      Explores spec.successors [] ∅ spec.states.keys result := by
  obtain ⟨result, hresult⟩ := exists_visitEach spec
  have hstart : CycleSearch.Valid ⟨∅, ∅, [], []⟩ := ⟨by simp, by simp⟩
  have hstep : ∀ s : CycleSearch, s.Valid → s.path = [] → ∀ n,
      dfsFindCycles spec.successors spec.searchFuel s n =
        (visit spec.successors spec.searchFuel [] s.visited n).map s.after := by
    intro s hs hpath n
    rw [dfsFindCycles_eq_visit _ hs, hpath]
  have hsearch := foldlM_eq_visitEach hstep (fun _ _ _ => subset_of_visit) hstart rfl spec.states.keys
  refine ⟨result, ?_, explores_visitEach (fun _ _ _ => explores_visit) hresult⟩
  rw [findTriggerCycles, hsearch, hresult]
  rfl

/-- The cycles that are found are those that close a first path. -/
theorem mem_findTriggerCycles {cycle : List String} :
    cycle ∈ spec.findTriggerCycles.getD [] ↔ ∃ before name rest last, cycle = name :: rest ∧
      First spec.successors ∅ spec.states.keys (before ++ name :: rest) last ∧
      name ∈ spec.successors last := by
  obtain ⟨result, hcycles, hexplores⟩ := findTriggerCycles_eq spec
  rw [hcycles, Option.getD_some]
  have hfound : ∀ {cycle}, cycle ∈ record [] result.2 → ∃ before name rest last,
      cycle = name :: rest ∧
      First spec.successors ∅ spec.states.keys (before ++ name :: rest) last ∧
      name ∈ spec.successors last := by
    intro cycle hcycle
    rcases mem_record hcycle with hnil | ⟨call, hcall, before, rest, hpath, -, rfl⟩
    · cases hnil
    · rcases (hexplores.calls call).mp hcall with ⟨hempty, -⟩ | ⟨r, last, hfirst, hr, hlast⟩
      · rw [hempty] at hpath
        simp at hpath
      · rw [List.nil_append] at hr
        exact ⟨before, call.2, rest, last, rfl, hpath ▸ hr ▸ hfirst, hlast⟩
  constructor
  · exact hfound
  · intro hclosed
    obtain ⟨before, name, rest, last, rfl, hfirst, hlast⟩ := hclosed
    have hcall : (before ++ name :: rest, name) ∈ result.2 :=
      (hexplores.calls _).mpr (.inr ⟨_, last, hfirst, rfl, hlast⟩)
    have hbefore : name ∉ before := by
      intro hmem
      have hnodup := hfirst.nodup.1
      rw [List.nodup_append] at hnodup
      exact hnodup.2.2 name hmem name List.mem_cons_self rfl
    obtain ⟨found, hmem, hperm⟩ := exists_mem_record [] hcall rfl hbefore
    obtain ⟨before', name', rest', last', rfl, hfirst', -⟩ := hfound hmem
    have heq := (hfirst'.eq_of_perm (by simp) hfirst hperm).1
    rw [← heq]
    exact hmem

/-! ## Unconditional cycles -/

variable {source target : String}

theorem mem_successors : target ∈ spec.successors source ↔
    ∃ trans ∈ spec.transitions, trans.isWildcard = false ∧ trans.source = source ∧
      trans.target = target := by
  simp [successors, and_assoc]

/-- A state that a transition leaves is not the wildcard. -/
theorem ne_wildcard_of_mem_successors (h : target ∈ spec.successors source) : source ≠ "*" := by
  obtain ⟨trans, -, hwild, rfl, -⟩ := mem_successors.mp h
  simpa [TransitionSpec.isWildcard] using hwild

theorem UnconditionalEdge.mem_successors (h : spec.UnconditionalEdge source target) :
    target ∈ spec.successors source := by
  obtain ⟨trans, htrans, hwild, hsource, htarget, -⟩ := h
  exact WorkflowSpec.mem_successors.mpr ⟨trans, htrans, hwild, hsource, htarget⟩

theorem unconditionalEdge_iff :
    spec.UnconditionalEdge source target ↔
      target ∈ spec.successors source ∧ spec.hasUnconditionalEdge source target = true := by
  constructor
  · intro h
    refine ⟨h.mem_successors, ?_⟩
    obtain ⟨trans, htrans, -, hsource, htarget, hwhen⟩ := h
    exact List.any_eq_true.mpr ⟨trans, htrans, by simp [hsource, htarget, hwhen]⟩
  · intro h
    obtain ⟨trans, htrans, hedge⟩ := List.any_eq_true.mp h.2
    simp only [Bool.and_eq_true, decide_eq_true_eq] at hedge
    obtain ⟨⟨hsource, htarget⟩, hwhen⟩ := hedge
    refine ⟨trans, htrans, ?_, hsource, htarget, hwhen⟩
    simpa [TransitionSpec.isWildcard, hsource] using ne_wildcard_of_mem_successors h.1

/-- The check of a cycle goes round it. -/
theorem isUnconditionalCycle_iff (name : String) (rest : List String) :
    spec.isUnconditionalCycle (name :: rest) = true ↔
      (name :: rest ++ [name]).IsChain fun a b => spec.hasUnconditionalEdge a b = true := by
  rw [List.isChain_cons_append_singleton_iff_forall₂, List.forall₂_iff_zip]
  simp [isUnconditionalCycle]

/-- The nodes of a first path follow transitions, and with one more back a cycle does. -/
theorem isChain_successors {last name : String} {before rest : List String}
    (hfirst : First spec.successors ∅ spec.states.keys (before ++ name :: rest) last)
    (hback : name ∈ spec.successors last) :
    (name :: rest ++ [name]).IsChain fun a b => b ∈ spec.successors a := by
  have hpath := hfirst.isChain.right_of_append
  have hlast := hfirst.getLast?
  rw [List.getLast?_append_of_ne_nil _ (List.cons_ne_nil name rest)] at hlast
  refine List.isChain_append.mpr ⟨hpath, List.isChain_singleton _, ?_⟩
  intro a ha b hb
  rw [Option.mem_def, hlast] at ha
  obtain rfl := Option.some.inj ha
  rw [List.head?_cons, Option.mem_def] at hb
  obtain rfl := Option.some.inj hb
  exact hback

/-- Two relations along a list are both along it. -/
theorem isChain_and {α : Type} {R S : α → α → Prop} {l : List α} (hR : l.IsChain R)
    (hS : l.IsChain S) : l.IsChain fun a b => R a b ∧ S a b := by
  rw [List.isChain_iff_forall_rel_of_append_cons_cons] at hR hS ⊢
  intro a b before after hl
  exact ⟨hR hl, hS hl⟩

/-- An unconditional cycle is found if and only if one closes a first path. -/
theorem exists_isUnconditionalCycle_iff :
    (∃ cycle ∈ spec.findTriggerCycles.getD [], spec.isUnconditionalCycle cycle = true) ↔
      spec.ClosesFirstPath := by
  constructor
  · intro h
    obtain ⟨cycle, hcycle, huncond⟩ := h
    obtain ⟨before, name, rest, last, rfl, hfirst, hback⟩ := mem_findTriggerCycles.mp hcycle
    refine ⟨before, name, rest, last, hfirst, ?_⟩
    have hboth := isChain_and (isChain_successors hfirst hback)
      ((isUnconditionalCycle_iff name rest).mp huncond)
    exact hboth.imp fun a b hab => unconditionalEdge_iff.mpr hab
  · intro h
    obtain ⟨before, name, rest, last, hfirst, hchain⟩ := h
    have hlast := hfirst.getLast?
    rw [List.getLast?_append_of_ne_nil _ (List.cons_ne_nil name rest)] at hlast
    have hback := (List.isChain_append.mp hchain).2.2 last hlast name rfl
    refine ⟨name :: rest, ?_, ?_⟩
    · exact mem_findTriggerCycles.mpr ⟨before, name, rest, last, rfl, hfirst, hback.mem_successors⟩
    · exact (isUnconditionalCycle_iff name rest).mpr
        (hchain.imp fun a b hab => (unconditionalEdge_iff.mp hab).2)

/-- A cycle that closes a first path is a cycle. -/
theorem ClosesFirstPath.hasUnconditionalCycle (h : spec.ClosesFirstPath) :
    spec.HasUnconditionalCycle := by
  obtain ⟨-, name, rest, -, -, hchain⟩ := h
  refine ⟨name, ?_⟩
  have hwalk : ∀ (rest : List String) (a : String),
      (a :: rest ++ [name]).IsChain spec.UnconditionalEdge →
        Relation.TransGen spec.UnconditionalEdge a name := by
    intro rest
    induction rest with
    | nil =>
        intro a hchain
        exact .single (List.isChain_pair.mp hchain)
    | cons b rest ih =>
        intro a hchain
        obtain ⟨hab, hrest⟩ := List.isChain_cons_cons.mp hchain
        exact .head hab (ih b hrest)
  exact hwalk rest name hchain

/-- The rule reports an error if and only if an unconditional cycle closes a first path. -/
theorem exists_error_iff (texts : SpecTexts) (initialState : String) :
    (∃ d ∈ spec.checkStateMachineCompleteness texts initialState, d.level = .error) ↔
      spec.ClosesFirstPath := by
  rw [← exists_isUnconditionalCycle_iff]
  constructor
  · intro h
    obtain ⟨d, hd, hlevel⟩ := h
    rcases List.mem_append.mp hd with hd | hd
    · rcases List.mem_append.mp hd with hd | hd
      · obtain ⟨name, -, rfl⟩ := List.mem_map.mp hd
        cases hlevel
      · obtain ⟨name, -, rfl⟩ := List.mem_map.mp hd
        cases hlevel
    · obtain ⟨cycle, hcycle, rfl⟩ := List.mem_map.mp hd
      refine ⟨cycle, hcycle, ?_⟩
      by_contra huncond
      simp only [if_neg huncond] at hlevel
      cases hlevel
  · intro h
    obtain ⟨cycle, hcycle, huncond⟩ := h
    refine ⟨_, List.mem_append_right _ (List.mem_map_of_mem hcycle), ?_⟩
    simp only [if_pos huncond]
    rfl

/-- All that the rule reports bears its name. -/
theorem rule_of_mem {texts : SpecTexts} {initialState : String} {d : SafetyDiagnostic}
    (h : d ∈ spec.checkStateMachineCompleteness texts initialState) :
    d.rule = "state_machine_completeness" := by
  rcases List.mem_append.mp h with hd | hd
  · rcases List.mem_append.mp hd with hd | hd
    · obtain ⟨name, -, rfl⟩ := List.mem_map.mp hd
      rfl
    · obtain ⟨name, -, rfl⟩ := List.mem_map.mp hd
      rfl
  · obtain ⟨cycle, -, rfl⟩ := List.mem_map.mp hd
    dsimp only
    split
    · rfl
    · rfl

end WorkflowSpec
end Nazh
