import Mathlib.Data.List.InsertIdx
import Mathlib.Data.List.Nodup
import Nazh.Io.HumanLoop
import Nazh.Lib.Lists

/-!
# Responses that race with timers

`respond` takes a slot out of the registry and then sends; the wait of a node finds its timer
elapsed and then drops its receiver. Here both take two steps, with any others in between. A
response that is sent after the timer was found elapsed and before the receiver is dropped reports
success, and is lost.

A timer that elapses, or an execution that is given up, leaves the slot where it is.
-/

namespace Nazh

open Lib

/-- The registry, with the responses that have a slot in hand and the timers that were found
elapsed. -/
structure ApprovalRaces where
  approvals : Approvals
  answering : List (ℕ × HumanLoopResponse)
  expired : List ℕ

/-- What can happen. -/
inductive RaceAction
  /-- A node starts to wait. -/
  | transform (node : HumanLoopNode) (payload : Value)
  /-- The wait of an execution ends with what the channel has. -/
  | receive (i : ℕ)
  /-- The wait of an execution finds nothing in the channel, and the timer elapsed. -/
  | expire (i : ℕ)
  /-- It drops the receiver, and the execution ends. -/
  | default (i : ℕ)
  | abandon (i : ℕ)
  /-- `respond` up to the send. -/
  | takeSlot (approvalId : ℕ) (response : HumanLoopResponse)
  /-- The send of the response `k` that has a slot. -/
  | send (k : ℕ)
  | cleanupWorkflow (workflowId : String)
  | elapse (nanoseconds : ℕ)

/-- The ids that `list_pending` gives, for one workflow or for all. -/
def Approvals.listPending (s : Approvals) (workflowId : Option String) : List ℕ :=
  (s.slots.filter fun slot => workflowId.all (· == slot.2.workflowId)).map Prod.fst

namespace ApprovalRaces

variable (uuidText : ℕ → String)

/-- The execution `i` ends. -/
def finish (s : ApprovalRaces) (i : ℕ) (e : HumanLoopExecution) (result : WaitResult) :
    ApprovalRaces :=
  { s with approvals := s.approvals.setExecution i { e with
      state := .finished s.approvals.now (e.node.conclude (uuidText i) e.payload result) } }

/-- One step. -/
def step (s : ApprovalRaces) : RaceAction → Option ApprovalRaces
  | .transform node payload => some { s with approvals := s.approvals.createSlot node payload }
  | .receive i => (s.approvals.executions[i]?).bind fun e =>
      if s.expired.contains i then none
      else match e.state with
        | .waiting (.sent response) => some (s.finish uuidText i e (.answered response))
        | .waiting .dropped => some (s.finish uuidText i e .closed)
        | _ => none
  | .expire i => (s.approvals.executions[i]?).bind fun e =>
      if s.expired.contains i then none
      else if e.poll s.approvals.now = some .elapsed then
        some { s with expired := i :: s.expired }
      else none
  | .default i => (s.approvals.executions[i]?).bind fun e =>
      if s.expired.contains i && e.isWaiting then some (s.finish uuidText i e .elapsed) else none
  | .abandon i => (s.approvals.executions[i]?).bind fun e =>
      if e.isWaiting then
        some { s with approvals := s.approvals.setExecution i { e with state := .abandoned } }
      else none
  | .takeSlot approvalId response => some <| match s.approvals.slots.lookup approvalId with
      | none => s
      | some _ => { s with
          approvals := { s.approvals with
            slots := s.approvals.slots.filter fun slot => slot.1 != approvalId }
          answering := s.answering ++ [(approvalId, response)] }
  | .send k => (s.answering[k]?).map fun (i, response) =>
      let s := { s with answering := s.answering.eraseIdx k }
      match s.approvals.executions[i]? with
      | some e => match e.state with
        | .waiting .held => { s with approvals := s.approvals.setExecution i { e with
            state := .waiting (.sent response) } }
        | _ => s
      | none => s
  | .cleanupWorkflow workflowId =>
      some { s with approvals := s.approvals.cleanupWorkflow workflowId }
  | .elapse nanoseconds => some { s with approvals := { s.approvals with
      now := s.approvals.now + nanoseconds } }

/-- The runs that start from an empty registry. -/
def machine : Machine ApprovalRaces RaceAction where
  init s := s.approvals.slots = [] ∧ s.approvals.executions = [] ∧ s.answering = [] ∧
    s.expired = []
  step := step uuidText

/-- Whether the receiver of the execution is alive and its channel empty, so that a send
succeeds. -/
def accepts (s : ApprovalRaces) (i : ℕ) : Bool :=
  (s.approvals.executions[i]?).any fun e => e.state == .waiting .held

/-- The calls of `respond` that return `Ok`, with the step in which they send. -/
def successes (s : ApprovalRaces) (a : RaceAction) (_ : ApprovalRaces) :
    List (ℕ × HumanLoopResponse) :=
  match a with
  | .send k => (s.answering[k]?).toList.filter fun answer => s.accepts answer.1
  | _ => []

/-- An execution waits for a human: its receiver is alive, its timer was not found elapsed, and
nobody has taken its slot. -/
def awaits (s : ApprovalRaces) (i : ℕ) : Bool :=
  s.accepts i && !s.expired.contains i && !(s.answering.map Prod.fst).contains i

/-- An execution does what the successful response to it says, and if there is none, it ends with
its default if it ends. -/
def Obeys (uuidText : ℕ → String) (s : ApprovalRaces) (log : List (ℕ × HumanLoopResponse)) (i : ℕ)
    (e : HumanLoopExecution) : Prop :=
  (∀ response, (i, response) ∈ log →
    (e.state = .waiting (.sent response) ∧ i ∉ s.expired) ∨
      ∃ at', e.state = .finished at' (e.node.conclude (uuidText i) e.payload (.answered response))) ∧
  ((∀ response, (i, response) ∉ log) →
    ∀ at' result, e.state = .finished at' result →
      result = e.node.handleTimeout (uuidText i) e.payload)

/-- The registry lists the executions that wait, and who responded with success is obeyed. -/
structure Mirrors (uuidText : ℕ → String) (s : ApprovalRaces)
    (log : List (ℕ × HumanLoopResponse)) : Prop where
  listed : ∀ i, i ∈ s.approvals.listPending none ↔ s.awaits i = true
  obeys : ∀ (i : ℕ) (e : HumanLoopExecution), s.approvals.executions[i]? = some e →
    Obeys uuidText s log i e
  once : (log.map Prod.fst).Nodup

variable {uuidText} {s s' : ApprovalRaces} {log : List (ℕ × HumanLoopResponse)} {a : RaceAction}
  {i : ℕ} {e : HumanLoopExecution}

/-! ## The invariant -/

/-- The ids of the slots that are in the registry or in the hands of a `respond`. -/
def slotIds (s : ApprovalRaces) : List ℕ :=
  s.approvals.slots.map Prod.fst ++ s.answering.map Prod.fst

theorem mem_listPending {approvals : Approvals} :
    i ∈ approvals.listPending none ↔ i ∈ approvals.slots.map Prod.fst := by
  simp [Approvals.listPending]

theorem mem_slotIds : i ∈ s.slotIds ↔
    i ∈ s.approvals.listPending none ∨ i ∈ s.answering.map Prod.fst := by
  rw [slotIds, List.mem_append, mem_listPending]

theorem accepts_iff : s.accepts i = true ↔
    ∃ e, s.approvals.executions[i]? = some e ∧ e.state = .waiting .held := by
  simp [accepts, Option.any_eq_true]

theorem awaits_iff : s.awaits i = true ↔
    s.accepts i = true ∧ i ∉ s.expired ∧ i ∉ s.answering.map Prod.fst := by
  simp [awaits, and_assoc]

/-- What holds in every run: a slot has its sender, and a sender that is neither used nor dropped
is in a slot. -/
structure Sound (s : ApprovalRaces) (log : List (ℕ × HumanLoopResponse)) : Prop where
  ids_nodup : s.slotIds.Nodup
  ids_lt : ∀ i ∈ s.slotIds, i < s.approvals.executions.length
  expired_lt : ∀ i ∈ s.expired, i < s.approvals.executions.length
  log_lt : ∀ answer ∈ log, answer.1 < s.approvals.executions.length
  log_nodup : (log.map Prod.fst).Nodup
  log_spent : ∀ answer ∈ log, answer.1 ∉ s.slotIds
  /-- The channel of an execution whose slot is there is empty and open. -/
  held_of_id : ∀ (i : ℕ) (e : HumanLoopExecution) responder, s.approvals.executions[i]? = some e →
    i ∈ s.slotIds → e.state = .waiting responder → responder = .held
  id_of_held : ∀ (i : ℕ) (e : HumanLoopExecution), s.approvals.executions[i]? = some e →
    e.state = .waiting .held → i ∈ s.slotIds
  logged_of_sent : ∀ (i : ℕ) (e : HumanLoopExecution) response,
    s.approvals.executions[i]? = some e → e.state = .waiting (.sent response) → (i, response) ∈ log

/-- Two successful responses to one execution are one. -/
theorem Sound.log_unique (hs : s.Sound log) {response response' : HumanLoopResponse}
    (h : (i, response) ∈ log) (h' : (i, response') ∈ log) : response = response' :=
  congrArg Prod.snd (List.inj_on_of_nodup_map hs.log_nodup h h' rfl)

/-- An execution changes to a state in which it has no open channel. -/
theorem Sound.setExecution (hs : s.Sound log) {state : HumanLoopState}
    (hstate : ∀ responder, state ≠ .waiting responder) :
    { s with approvals := s.approvals.setExecution i { e with state } }.Sound log := by
  have hlength : (s.approvals.executions.set i { e with state }).length =
      s.approvals.executions.length := List.length_set
  refine ⟨hs.ids_nodup, fun j hj => hlength ▸ hs.ids_lt j hj,
    fun j hj => hlength ▸ hs.expired_lt j hj, fun answer hanswer => hlength ▸ hs.log_lt answer hanswer,
    hs.log_nodup, hs.log_spent, fun j e' responder he' hid hwait => ?_, fun j e' he' hheld => ?_,
    fun j e' response he' hsent => ?_⟩
  · rcases getElem?_set_cases he' with ⟨-, rfl⟩ | ⟨-, hold⟩
    · exact absurd hwait (hstate responder)
    · exact hs.held_of_id j e' responder hold hid hwait
  · rcases getElem?_set_cases he' with ⟨-, rfl⟩ | ⟨-, hold⟩
    · exact absurd hheld (hstate _)
    · exact hs.id_of_held j e' hold hheld
  · rcases getElem?_set_cases he' with ⟨-, rfl⟩ | ⟨-, hold⟩
    · exact absurd hsent (hstate _)
    · exact hs.logged_of_sent j e' response hold hsent

/-- The slot of an execution is dropped or its sender used; what was logged stays so. -/
theorem successes_eq_nil (ha : ∀ k, a ≠ .send k) : s.successes a s' = [] := by
  cases a with
  | send k => exact absurd rfl (ha k)
  | _ => rfl

/-- A `respond` sends: what it finds, and what it leaves. -/
theorem step_send {k : ℕ} {response : HumanLoopResponse} (hk : s.answering[k]? = some (i, response))
    (h : s.step uuidText (.send k) = some s') :
    (∃ e, s.approvals.executions[i]? = some e ∧ e.state = .waiting .held ∧
      s' = { s with
        answering := s.answering.eraseIdx k
        approvals := s.approvals.setExecution i { e with state := .waiting (.sent response) } } ∧
      s.successes (.send k) s' = [(i, response)]) ∨
    s.accepts i = false ∧ s' = { s with answering := s.answering.eraseIdx k } ∧
      s.successes (.send k) s' = [] := by
  simp only [step, hk, Option.map_some, Option.some.injEq] at h
  have hlog : s.successes (.send k) s' = [(i, response)].filter fun answer => s.accepts answer.1 := by
    simp only [successes, hk, Option.toList_some]
  split at h
  · rename_i e he
    split at h
    · rename_i hheld
      have haccepts : s.accepts i = true := accepts_iff.mpr ⟨e, he, hheld⟩
      exact .inl ⟨e, he, hheld, h.symm, by rw [hlog]; simp [haccepts]⟩
    · rename_i hother
      have haccepts : s.accepts i = false := by
        rw [Bool.eq_false_iff]
        intro haccepts
        obtain ⟨e', he', hheld⟩ := accepts_iff.mp haccepts
        obtain rfl := Option.some.inj (he.symm.trans he')
        exact hother hheld
      exact .inr ⟨haccepts, h.symm, by rw [hlog]; simp [haccepts]⟩
  · rename_i hnone
    have haccepts : s.accepts i = false := by
      rw [accepts, hnone]
      rfl
    exact .inr ⟨haccepts, h.symm, by rw [hlog]; simp [haccepts]⟩

/-- Which ids have a slot when a response has been sent. -/
theorem mem_eraseIdx_iff {answering : List (ℕ × HumanLoopResponse)} {k : ℕ}
    {answer : ℕ × HumanLoopResponse} (hnodup : (answering.map Prod.fst).Nodup)
    (hk : answering[k]? = some answer) {j : ℕ} :
    j ∈ (answering.eraseIdx k).map Prod.fst ↔ j ∈ answering.map Prod.fst ∧ j ≠ answer.1 := by
  have herase : (answering.eraseIdx k).map Prod.fst = (answering.map Prod.fst).erase answer.1 := by
    have hk' : (answering.map Prod.fst)[k]? = some answer.1 := by rw [List.getElem?_map, hk]; rfl
    obtain ⟨hlt, hget⟩ := List.getElem?_eq_some_iff.mp hk'
    rw [← List.eraseIdx_map, ← hget, hnodup.erase_getElem]
  rw [herase, hnodup.mem_erase_iff, and_comm]

/-- A registry whose slots change hands stays sound. -/
theorem Sound.of_ids (hs : s.Sound log) (hexecutions : s'.approvals.executions =
      s.approvals.executions) (hexpired : s'.expired = s.expired) (hnodup : s'.slotIds.Nodup)
    (hids : ∀ j, j ∈ s'.slotIds ↔ j ∈ s.slotIds) : s'.Sound log := by
  refine ⟨hnodup, fun j hj => ?_, fun j hj => ?_, fun answer hanswer => ?_, hs.log_nodup,
    fun answer hanswer hid => ?_, fun j e responder he hid => ?_, fun j e he hheld => ?_,
    fun j e response he => ?_⟩
  · rw [hexecutions]
    exact hs.ids_lt j ((hids j).mp hj)
  · rw [hexecutions]
    exact hs.expired_lt j (hexpired ▸ hj)
  · rw [hexecutions]
    exact hs.log_lt answer hanswer
  · exact hs.log_spent answer hanswer ((hids _).mp hid)
  · rw [hexecutions] at he
    exact hs.held_of_id j e responder he ((hids j).mp hid)
  · rw [hexecutions] at he
    exact (hids j).mpr (hs.id_of_held j e he hheld)
  · rw [hexecutions] at he
    exact hs.logged_of_sent j e response he

/-- A new execution has a new slot. -/
theorem Sound.createSlot (hs : s.Sound log) (node : HumanLoopNode) (payload : Value) :
    { s with approvals := s.approvals.createSlot node payload }.Sound log := by
  have hnew : s.approvals.executions.length ∉ s.slotIds :=
    fun hmem => Nat.lt_irrefl _ (hs.ids_lt _ hmem)
  have hids (j : ℕ) : j ∈ slotIds { s with approvals := s.approvals.createSlot node payload } ↔
      j = s.approvals.executions.length ∨ j ∈ s.slotIds := by
    simp [slotIds, Approvals.createSlot, or_left_comm]
  have hnodup : (slotIds { s with approvals := s.approvals.createSlot node payload }).Nodup := by
    have hperm : (slotIds { s with approvals := s.approvals.createSlot node payload }).Perm
        (s.approvals.executions.length :: s.slotIds) := by
      simp only [slotIds, Approvals.createSlot, List.map_append, List.map_cons, List.map_nil,
        List.append_assoc, List.singleton_append]
      exact List.perm_middle
    exact hperm.nodup_iff.mpr (List.nodup_cons.mpr ⟨hnew, hs.ids_nodup⟩)
  have hlength : (s.approvals.createSlot node payload).executions.length =
      s.approvals.executions.length + 1 := by simp [Approvals.createSlot]
  refine ⟨hnodup, fun j hj => ?_, fun j hj => ?_, fun answer hanswer => ?_, hs.log_nodup,
    fun answer hanswer hid => ?_, fun j e responder he hid hwait => ?_, fun j e he hheld => ?_,
    fun j e response he hsent => ?_⟩
  · rw [hlength]
    rcases (hids j).mp hj with rfl | hold
    · omega
    · have hlt := hs.ids_lt j hold
      omega
  · rw [hlength]
    have hlt := hs.expired_lt j hj
    omega
  · rw [hlength]
    have hlt := hs.log_lt answer hanswer
    omega
  · rcases (hids _).mp hid with heq | hold
    · have hlt := hs.log_lt answer hanswer
      omega
    · exact hs.log_spent answer hanswer hold
  · rcases getElem?_concat_cases he with ⟨-, rfl⟩ | ⟨hlt, hold⟩
    · cases hwait
      rfl
    · rcases (hids j).mp hid with heq | hid
      · omega
      · exact hs.held_of_id j e responder hold hid hwait
  · rcases getElem?_concat_cases he with ⟨hj, -⟩ | ⟨-, hold⟩
    · exact (hids j).mpr (.inl hj)
    · exact (hids j).mpr (.inr (hs.id_of_held j e hold hheld))
  · rcases getElem?_concat_cases he with ⟨-, rfl⟩ | ⟨-, hold⟩
    · cases hsent
    · exact hs.logged_of_sent j e response hold hsent

/-- A `respond` that finds no slot changes nothing, and else the slot changes hands. -/
theorem step_takeSlot {approvalId : ℕ} {response : HumanLoopResponse}
    (h : s.step uuidText (.takeSlot approvalId response) = some s') : s' = s ∨
      approvalId ∈ s.approvals.listPending none ∧ s' = { s with
        approvals := { s.approvals with
          slots := s.approvals.slots.filter fun slot => slot.1 != approvalId }
        answering := s.answering ++ [(approvalId, response)] } := by
  simp only [step, Option.some.injEq] at h
  split at h
  · exact .inl h.symm
  · rename_i slot hslot
    obtain ⟨before, after, hslots, -⟩ := List.lookup_eq_some_iff.mp hslot
    refine .inr ⟨mem_listPending.mpr ?_, h.symm⟩
    rw [hslots, List.map_append]
    exact List.mem_append_right _ List.mem_cons_self

/-- Which slots are left when one was taken. -/
theorem mem_map_filter_ne {slots : List (ℕ × ApprovalSlot)} {approvalId j : ℕ} :
    j ∈ (slots.filter fun slot => slot.1 != approvalId).map Prod.fst ↔
      j ∈ slots.map Prod.fst ∧ j ≠ approvalId := by
  simp only [List.mem_map, List.mem_filter, bne_iff_ne]
  constructor
  · intro h
    obtain ⟨slot, ⟨hslot, hne⟩, rfl⟩ := h
    exact ⟨⟨slot, hslot, rfl⟩, hne⟩
  · intro h
    obtain ⟨⟨slot, hslot, rfl⟩, hne⟩ := h
    exact ⟨slot, ⟨hslot, hne⟩, rfl⟩

theorem Sound.takeSlot (hs : s.Sound log) {approvalId : ℕ} (response : HumanLoopResponse)
    (hlisted : approvalId ∈ s.approvals.listPending none) : Sound { s with
      approvals := { s.approvals with
        slots := s.approvals.slots.filter fun slot => slot.1 != approvalId }
      answering := s.answering ++ [(approvalId, response)] } log := by
  have hparts := List.nodup_append.mp hs.ids_nodup
  rw [mem_listPending] at hlisted
  refine hs.of_ids rfl rfl ?_ fun j => ?_
  · simp only [slotIds, List.map_append, List.map_cons, List.map_nil]
    refine List.nodup_append.mpr ⟨?_, ?_, ?_⟩
    · exact hparts.1.sublist (List.filter_sublist.map _)
    · refine List.nodup_append.mpr ⟨hparts.2.1, List.nodup_cons.mpr
        ⟨List.not_mem_nil, List.nodup_nil⟩, fun i hi j hj heq => ?_⟩
      rw [List.mem_singleton.mp hj] at heq
      exact hparts.2.2 approvalId hlisted i hi heq.symm
    · intro i hi j hj heq
      obtain ⟨hold, hne⟩ := mem_map_filter_ne.mp hi
      rcases List.mem_append.mp hj with htaken | hself
      · exact hparts.2.2 i hold j htaken heq
      · exact hne (heq.trans (List.mem_singleton.mp hself))
  · simp only [slotIds, List.map_append, List.map_cons, List.map_nil, List.mem_append,
      mem_map_filter_ne, List.mem_singleton]
    by_cases hj : j = approvalId
    · subst hj
      exact iff_of_true (.inr (.inr rfl)) (.inl hlisted)
    · constructor
      · intro h
        rcases h with ⟨hold, -⟩ | htaken | hself
        · exact .inl hold
        · exact .inr htaken
        · exact absurd hself hj
      · intro h
        rcases h with hold | htaken
        · exact .inl ⟨hold, hj⟩
        · exact .inr (.inl htaken)

/-- Which ids have a slot when the response `k` was sent. -/
theorem Sound.mem_slotIds_send (hs : s.Sound log) {k : ℕ} {response : HumanLoopResponse}
    (hk : s.answering[k]? = some (i, response)) {j : ℕ} :
    j ∈ slotIds { s with answering := s.answering.eraseIdx k } ↔ j ∈ s.slotIds ∧ j ≠ i := by
  have hparts := List.nodup_append.mp hs.ids_nodup
  have htaken : i ∈ s.answering.map Prod.fst :=
    List.mem_map.mpr ⟨_, List.mem_of_getElem? hk, rfl⟩
  simp only [slotIds, List.mem_append, mem_eraseIdx_iff hparts.2.1 hk]
  constructor
  · intro h
    rcases h with hlisted | ⟨hother, hne⟩
    · exact ⟨.inl hlisted, hparts.2.2 j hlisted i htaken⟩
    · exact ⟨.inr hother, hne⟩
  · intro h
    obtain ⟨hlisted | hother, hne⟩ := h
    · exact .inl hlisted
    · exact .inr ⟨hother, hne⟩

theorem Sound.send_nodup (hs : s.Sound log) (k : ℕ) :
    (slotIds { s with answering := s.answering.eraseIdx k }).Nodup := by
  refine hs.ids_nodup.sublist ?_
  exact List.Sublist.append (List.Sublist.refl _) ((List.eraseIdx_sublist _ _).map _)

theorem Sound.send (hs : s.Sound log) {k : ℕ} (h : s.step uuidText (.send k) = some s') :
    s'.Sound (log ++ s.successes (.send k) s') := by
  obtain ⟨⟨i, response⟩, hk, -⟩ := Option.map_eq_some_iff.mp h
  have hids (j : ℕ) := hs.mem_slotIds_send hk (j := j)
  have hown : i ∈ s.slotIds :=
    mem_slotIds.mpr (.inr (List.mem_map.mpr ⟨_, List.mem_of_getElem? hk, rfl⟩))
  rcases step_send hk h with ⟨e, he, hheld, rfl, hlog⟩ | ⟨haccepts, rfl, hlog⟩
  · rw [hlog]
    have hlength : (s.approvals.executions.set i { e with state := .waiting (.sent response) }).length =
        s.approvals.executions.length := List.length_set
    refine ⟨hs.send_nodup k, fun j hj => hlength ▸ hs.ids_lt j ((hids j).mp hj).1,
      fun j hj => hlength ▸ hs.expired_lt j hj, fun answer hanswer => ?_, ?_,
      fun answer hanswer hid => ?_, fun j e' responder he' hid hwait => ?_,
      fun j e' he' hheld' => ?_, fun j e' response' he' hsent => ?_⟩
    · rcases List.mem_append.mp hanswer with hold | hnew
      · exact hlength ▸ hs.log_lt answer hold
      · obtain rfl := List.mem_singleton.mp hnew
        exact hlength ▸ (List.getElem?_eq_some_iff.mp he).1
    · rw [List.map_append, List.nodup_append]
      refine ⟨hs.log_nodup, List.nodup_cons.mpr ⟨List.not_mem_nil, List.nodup_nil⟩, ?_⟩
      intro j hj i' hi' heq
      obtain ⟨answer, hanswer, rfl⟩ := List.mem_map.mp hj
      obtain rfl := List.mem_singleton.mp hi'
      exact hs.log_spent answer hanswer (heq ▸ hown)
    · rcases List.mem_append.mp hanswer with hold | hnew
      · exact hs.log_spent answer hold ((hids _).mp hid).1
      · obtain rfl := List.mem_singleton.mp hnew
        exact ((hids i).mp hid).2 rfl
    · rcases getElem?_set_cases he' with ⟨hj, -⟩ | ⟨-, hold⟩
      · exact absurd hj ((hids j).mp hid).2
      · exact hs.held_of_id j e' responder hold ((hids j).mp hid).1 hwait
    · rcases getElem?_set_cases he' with ⟨-, rfl⟩ | ⟨hj, hold⟩
      · cases hheld'
      · exact (hids j).mpr ⟨hs.id_of_held j e' hold hheld', hj⟩
    · rcases getElem?_set_cases he' with ⟨rfl, rfl⟩ | ⟨-, hold⟩
      · cases hsent
        exact List.mem_append_right _ (List.mem_singleton.mpr rfl)
      · exact List.mem_append_left _ (hs.logged_of_sent j e' response' hold hsent)
  · rw [hlog, List.append_nil]
    refine ⟨hs.send_nodup k, fun j hj => hs.ids_lt j ((hids j).mp hj).1, hs.expired_lt, hs.log_lt,
      hs.log_nodup, fun answer hanswer hid => hs.log_spent answer hanswer ((hids _).mp hid).1,
      fun j e responder he hid => hs.held_of_id j e responder he ((hids j).mp hid).1,
      fun j e he hheld => ?_, hs.logged_of_sent⟩
    refine (hids j).mpr ⟨hs.id_of_held j e he hheld, fun hj => ?_⟩
    have haccepts' : s.accepts i = true := accepts_iff.mpr ⟨e, hj ▸ he, hheld⟩
    rw [haccepts] at haccepts'
    cases haccepts'

/-- Whether a workflow's slots have the sender of an execution. -/
theorem hasSlot_iff {workflowId : String} : s.approvals.hasSlot workflowId i = true ↔
    ∃ slot, (i, slot) ∈ s.approvals.slots ∧ slot.workflowId = workflowId := by
  simp only [Approvals.hasSlot, List.any_eq_true, Bool.and_eq_true, beq_iff_eq]
  constructor
  · intro h
    obtain ⟨⟨j, slot⟩, hslot, rfl, hworkflow⟩ := h
    exact ⟨slot, hslot, hworkflow⟩
  · intro h
    obtain ⟨slot, hslot, hworkflow⟩ := h
    exact ⟨(i, slot), hslot, rfl, hworkflow⟩

/-- Which slots are left when a workflow was cleaned up. -/
theorem Sound.listed_cleanup (hs : s.Sound log) {workflowId : String} {j : ℕ} :
    j ∈ (s.approvals.cleanupWorkflow workflowId).listPending none ↔
      j ∈ s.approvals.listPending none ∧ s.approvals.hasSlot workflowId j = false := by
  have hparts := List.nodup_append.mp hs.ids_nodup
  rw [mem_listPending, mem_listPending, ← Bool.not_eq_true, hasSlot_iff]
  simp only [Approvals.cleanupWorkflow, List.mem_map, List.mem_filter, bne_iff_ne]
  constructor
  · intro h
    obtain ⟨⟨j, slot⟩, ⟨hslot, hworkflow⟩, rfl⟩ := h
    refine ⟨⟨_, hslot, rfl⟩, fun hmine => ?_⟩
    obtain ⟨slot', hslot', hworkflow'⟩ := hmine
    have hsame : (j, slot) = (j, slot') := List.inj_on_of_nodup_map hparts.1 hslot hslot' rfl
    exact hworkflow (congrArg Prod.snd hsame ▸ hworkflow')
  · intro h
    obtain ⟨⟨⟨j, slot⟩, hslot, rfl⟩, hother⟩ := h
    exact ⟨_, ⟨hslot, fun hworkflow => hother ⟨slot, hslot, hworkflow⟩⟩, rfl⟩

/-- A slot that somebody has in hand is not in the registry. -/
theorem Sound.hasSlot_of_taken (hs : s.Sound log) {workflowId : String} {j : ℕ}
    (htaken : j ∈ s.answering.map Prod.fst) : s.approvals.hasSlot workflowId j = false := by
  rw [← Bool.not_eq_true, hasSlot_iff]
  intro hmine
  obtain ⟨slot, hslot, -⟩ := hmine
  exact (List.nodup_append.mp hs.ids_nodup).2.2 j (List.mem_map.mpr ⟨_, hslot, rfl⟩) j htaken rfl

/-- Which ids have a slot when a workflow was cleaned up. -/
theorem Sound.mem_slotIds_cleanup (hs : s.Sound log) (workflowId : String) (j : ℕ) :
    j ∈ slotIds { s with approvals := s.approvals.cleanupWorkflow workflowId } ↔
      j ∈ s.slotIds ∧ s.approvals.hasSlot workflowId j = false := by
  rw [mem_slotIds, mem_slotIds, hs.listed_cleanup]
  constructor
  · intro h
    rcases h with ⟨hlisted, hother⟩ | htaken
    · exact ⟨.inl hlisted, hother⟩
    · exact ⟨.inr htaken, hs.hasSlot_of_taken htaken⟩
  · intro h
    obtain ⟨hlisted | htaken, hother⟩ := h
    · exact .inl ⟨hlisted, hother⟩
    · exact .inr htaken

/-- An execution after a workflow was cleaned up. -/
theorem getElem?_cleanup {workflowId : String} :
    (s.approvals.cleanupWorkflow workflowId).executions[i]? = some e ↔
      ∃ e₀, s.approvals.executions[i]? = some e₀ ∧
        e = if s.approvals.hasSlot workflowId i then e₀.dropSender else e₀ := by
  simp only [Approvals.cleanupWorkflow, List.getElem?_mapIdx, Option.map_eq_some_iff]
  exact exists_congr fun e₀ => and_congr_right fun _ => eq_comm

/-- A dropped sender was not used. -/
theorem dropSender_state (e : HumanLoopExecution) : e.dropSender.state =
    if e.state = .waiting .held then .waiting .dropped else e.state := by
  rw [HumanLoopExecution.dropSender]
  split
  · rename_i hheld
    rw [if_pos hheld]
  · rename_i hother
    rw [if_neg hother]

theorem Sound.cleanup (hs : s.Sound log) (workflowId : String) :
    { s with approvals := s.approvals.cleanupWorkflow workflowId }.Sound log := by
  have hids := hs.mem_slotIds_cleanup workflowId
  have hlength : (s.approvals.cleanupWorkflow workflowId).executions.length =
      s.approvals.executions.length := by simp [Approvals.cleanupWorkflow]
  refine ⟨?_, fun j hj => ?_, fun j hj => ?_, fun answer hanswer => ?_, hs.log_nodup,
    fun answer hanswer hid => hs.log_spent answer hanswer ((hids _).mp hid).1,
    fun j e responder he hid hwait => ?_, fun j e he hheld => ?_,
    fun j e response he hsent => ?_⟩
  · refine hs.ids_nodup.sublist ?_
    exact List.Sublist.append (List.filter_sublist.map _) (List.Sublist.refl _)
  · exact hlength ▸ hs.ids_lt j ((hids j).mp hj).1
  · exact hlength ▸ hs.expired_lt j hj
  · exact hlength ▸ hs.log_lt answer hanswer
  · obtain ⟨hold, hother⟩ := (hids j).mp hid
    obtain ⟨e₀, he₀, rfl⟩ := getElem?_cleanup.mp he
    rw [hother] at hwait
    exact hs.held_of_id j e₀ responder he₀ hold hwait
  · obtain ⟨e₀, he₀, rfl⟩ := getElem?_cleanup.mp he
    cases hslot : s.approvals.hasSlot workflowId j with
    | true =>
        rw [hslot, if_pos rfl, dropSender_state] at hheld
        split at hheld
        · cases hheld
        · rename_i hother
          exact absurd hheld hother
    | false =>
        rw [hslot] at hheld
        exact (hids j).mpr ⟨hs.id_of_held j e₀ he₀ hheld, hslot⟩
  · obtain ⟨e₀, he₀, rfl⟩ := getElem?_cleanup.mp he
    refine hs.logged_of_sent j e₀ response he₀ ?_
    split at hsent
    · rw [dropSender_state] at hsent
      split at hsent
      · cases hsent
      · exact hsent
    · exact hsent

theorem Sound.step (hs : s.Sound log) (h : s.step uuidText a = some s') :
    s'.Sound (log ++ s.successes a s') := by
  cases a with
  | transform node payload =>
      rw [successes_eq_nil (by intro k hk; cases hk), List.append_nil]
      cases h
      exact hs.createSlot node payload
  | receive i =>
      rw [successes_eq_nil (by intro k hk; cases hk), List.append_nil]
      obtain ⟨e, he, h⟩ := Option.bind_eq_some_iff.mp h
      split at h
      · cases h
      · split at h
        · cases h
          exact hs.setExecution fun responder hwait => by cases hwait
        · cases h
          exact hs.setExecution fun responder hwait => by cases hwait
        · cases h
  | expire i => 
      rw [successes_eq_nil (by intro k hk; cases hk), List.append_nil]
      obtain ⟨e, he, h⟩ := Option.bind_eq_some_iff.mp h
      split at h
      · cases h
      · split at h
        · cases h
          refine ⟨hs.ids_nodup, hs.ids_lt, fun j hj => ?_, hs.log_lt, hs.log_nodup, hs.log_spent,
            hs.held_of_id, hs.id_of_held, hs.logged_of_sent⟩
          rcases List.mem_cons.mp hj with rfl | hold
          · exact (List.getElem?_eq_some_iff.mp he).1
          · exact hs.expired_lt j hold
        · cases h
  | default i =>
      rw [successes_eq_nil (by intro k hk; cases hk), List.append_nil]
      obtain ⟨e, he, h⟩ := Option.bind_eq_some_iff.mp h
      split at h
      · cases h
        exact hs.setExecution fun responder hwait => by cases hwait
      · cases h
  | abandon i =>
      rw [successes_eq_nil (by intro k hk; cases hk), List.append_nil]
      obtain ⟨e, he, h⟩ := Option.bind_eq_some_iff.mp h
      split at h
      · cases h
        exact hs.setExecution fun responder hwait => by cases hwait
      · cases h
  | takeSlot approvalId response =>
      rw [successes_eq_nil (by intro k hk; cases hk), List.append_nil]
      rcases step_takeSlot h with rfl | ⟨hlisted, rfl⟩
      · exact hs
      · exact hs.takeSlot response hlisted
  | send k => exact hs.send h
  | cleanupWorkflow workflowId =>
      rw [successes_eq_nil (by intro k hk; cases hk), List.append_nil]
      cases h
      exact hs.cleanup workflowId
  | elapse nanoseconds =>
      rw [successes_eq_nil (by intro k hk; cases hk), List.append_nil]
      cases h
      exact ⟨hs.ids_nodup, hs.ids_lt, hs.expired_lt, hs.log_lt, hs.log_nodup, hs.log_spent,
        hs.held_of_id, hs.id_of_held, hs.logged_of_sent⟩

/-! ## Which steps keep the mirror -/

/-- What is asked of an execution depends on its own responses and its own timer. -/
theorem Obeys.congr {log' : List (ℕ × HumanLoopResponse)} (h : Obeys uuidText s log i e)
    (hexpired : i ∈ s'.expired ↔ i ∈ s.expired)
    (hlog : ∀ response, (i, response) ∈ log' ↔ (i, response) ∈ log) :
    Obeys uuidText s' log' i e := by
  refine ⟨fun response hresponse => ?_, fun hnone => ?_⟩
  · rw [hexpired]
    exact h.1 response ((hlog response).mp hresponse)
  · exact h.2 fun response => by rw [← hlog response]; exact hnone response

/-- An execution without a successful response obeys while it waits. -/
theorem obeys_of_silent (hlog : ∀ response, (i, response) ∉ log)
    (hend : ∀ at' result, e.state = .finished at' result →
      result = e.node.handleTimeout (uuidText i) e.payload) : Obeys uuidText s log i e :=
  ⟨fun response hresponse => absurd hresponse (hlog response), fun _ => hend⟩

/-- An execution that waits and obeys has a successful response if and only if one is in its
channel. -/
theorem Obeys.silent (h : Obeys uuidText s log i e)
    (hwait : ∀ response, e.state ≠ .waiting (.sent response) ∨ i ∈ s.expired)
    (hopen : e.isWaiting = true) : ∀ response, (i, response) ∉ log := by
  intro response hresponse
  rcases h.1 response hresponse with ⟨hsent, hexpired⟩ | ⟨at', hend⟩
  · rcases hwait response with hother | hexp
    · exact hother hsent
    · exact hexpired hexp
  · rw [HumanLoopExecution.isWaiting, hend] at hopen
    cases hopen

/-- Where an execution ends, the registry still mirrors the executions if it has no slot for it
and the execution obeys. -/
theorem mirrors_setExecution_iff (hs : s.Sound log) (hm : Mirrors uuidText s log)
    (he : s.approvals.executions[i]? = some e) {state : HumanLoopState}
    (hstate : ∀ responder, state ≠ .waiting responder) :
    Mirrors uuidText { s with approvals := s.approvals.setExecution i { e with state } } log ↔
      i ∉ s.approvals.listPending none ∧ Obeys uuidText s log i { e with state } := by
  obtain ⟨hlt, -⟩ := List.getElem?_eq_some_iff.mp he
  have haccepts (j : ℕ) : accepts
      { s with approvals := s.approvals.setExecution i { e with state } } j = true ↔
        j ≠ i ∧ s.accepts j = true := by
    rw [accepts_iff, accepts_iff]
    constructor
    · intro h
      obtain ⟨e', he', hheld⟩ := h
      rcases getElem?_set_cases he' with ⟨-, rfl⟩ | ⟨hj, hold⟩
      · exact absurd hheld (hstate _)
      · exact ⟨hj, e', hold, hheld⟩
    · intro h
      obtain ⟨hj, e', hold, hheld⟩ := h
      exact ⟨e', (List.getElem?_set_ne (Ne.symm hj)).trans hold, hheld⟩
  have hawaits (j : ℕ) : awaits
      { s with approvals := s.approvals.setExecution i { e with state } } j = true ↔
        j ≠ i ∧ s.awaits j = true := by
    rw [awaits_iff, awaits_iff, haccepts, and_assoc]
  constructor
  · intro h
    refine ⟨fun hlisted => ?_, ?_⟩
    · exact ((hawaits i).mp ((h.listed i).mp hlisted)).1 rfl
    · exact (h.obeys i _ (List.getElem?_set_self hlt)).congr Iff.rfl fun _ => Iff.rfl
  · intro h
    refine ⟨fun j => ?_, fun j e' he' => ?_, hs.log_nodup⟩
    · rw [hawaits, ← hm.listed]
      constructor
      · intro hlisted
        exact ⟨fun hj => h.1 (hj ▸ hlisted), hlisted⟩
      · intro hboth
        exact hboth.2
    · rcases getElem?_set_cases he' with ⟨rfl, rfl⟩ | ⟨-, hold⟩
      · exact h.2.congr Iff.rfl fun _ => Iff.rfl
      · exact (hm.obeys j e' hold).congr Iff.rfl fun _ => Iff.rfl

/-- The wait of an execution ends with what its channel has. -/
theorem Mirrors.receive {i : ℕ} (hs : s.Sound log) (hm : Mirrors uuidText s log)
    (h : s.step uuidText (.receive i) = some s') : Mirrors uuidText s' log := by
  obtain ⟨e, he, h⟩ := Option.bind_eq_some_iff.mp h
  have hunlisted (hother : ∀ hheld : e.state = .waiting .held, False) {responder : Responder}
      (hwait : e.state = .waiting responder) : i ∉ s.approvals.listPending none := by
    intro hlisted
    have hheld := hs.held_of_id i e responder he (mem_slotIds.mpr (.inl hlisted)) hwait
    exact hother (hheld ▸ hwait)
  split at h
  · cases h
  · split at h
    · rename_i response hsent
      cases h
      have hlogged := hs.logged_of_sent i e response he hsent
      refine (mirrors_setExecution_iff hs hm he fun responder hwait => by cases hwait).mpr
        ⟨hunlisted (fun hheld => by rw [hsent] at hheld; cases hheld) hsent, ?_⟩
      refine ⟨fun response' hresponse' => .inr ⟨s.approvals.now, ?_⟩, fun hnone => ?_⟩
      · rw [hs.log_unique hresponse' hlogged]
      · exact absurd hlogged (hnone response)
    · rename_i hdropped
      cases h
      have hsilent := (hm.obeys i e he).silent
        (fun response => .inl fun hsent => by rw [hdropped] at hsent; cases hsent)
        (by rw [HumanLoopExecution.isWaiting, hdropped])
      refine (mirrors_setExecution_iff hs hm he fun responder hwait => by cases hwait).mpr
        ⟨hunlisted (fun hheld => by rw [hdropped] at hheld; cases hheld) hdropped, ?_⟩
      refine obeys_of_silent hsilent fun at' result hend => ?_
      cases hend
      rfl
    · cases h

/-- A timer was found elapsed, and the execution ends. -/
theorem Mirrors.default {i : ℕ} (hs : s.Sound log) (hm : Mirrors uuidText s log)
    (h : s.step uuidText (.default i) = some s') : Mirrors uuidText s' log := by
  obtain ⟨e, he, h⟩ := Option.bind_eq_some_iff.mp h
  split at h
  · rename_i hboth
    rw [Bool.and_eq_true, List.contains_iff_mem] at hboth
    obtain ⟨hexpired, hwait⟩ := hboth
    cases h
    refine (mirrors_setExecution_iff hs hm he fun responder hwait => by cases hwait).mpr ⟨?_, ?_⟩
    · intro hlisted
      exact (awaits_iff.mp ((hm.listed i).mp hlisted)).2.1 hexpired
    · refine obeys_of_silent ((hm.obeys i e he).silent (fun _ => .inr hexpired) hwait)
        fun at' result hend => ?_
      cases hend
      rfl
  · cases h

theorem Mirrors.transform (hs : s.Sound log) (hm : Mirrors uuidText s log) (node : HumanLoopNode)
    (payload : Value) :
    Mirrors uuidText { s with approvals := s.approvals.createSlot node payload } log := by
  have hlisted (j : ℕ) : j ∈ (s.approvals.createSlot node payload).listPending none ↔
      j ∈ s.approvals.listPending none ∨ j = s.approvals.executions.length := by
    rw [mem_listPending, mem_listPending]
    simp [Approvals.createSlot]
  have haccepts (j : ℕ) : accepts { s with approvals := s.approvals.createSlot node payload } j = true ↔
      s.accepts j = true ∨ j = s.approvals.executions.length := by
    rw [accepts_iff, accepts_iff]
    constructor
    · intro h
      obtain ⟨e, he, hheld⟩ := h
      rcases getElem?_concat_cases he with ⟨hj, -⟩ | ⟨-, hold⟩
      · exact .inr hj
      · exact .inl ⟨e, hold, hheld⟩
    · intro h
      rcases h with ⟨e, hold, hheld⟩ | rfl
      · have hlt := (List.getElem?_eq_some_iff.mp hold).1
        exact ⟨e, (List.getElem?_append_left hlt).trans hold, hheld⟩
      · exact ⟨_, List.getElem?_concat_length, rfl⟩
  refine ⟨fun j => ?_, fun j e he => ?_, hs.log_nodup⟩
  · rw [hlisted, hm.listed, awaits_iff, awaits_iff, haccepts]
    by_cases hj : j = s.approvals.executions.length
    · refine iff_of_true (.inr hj) ⟨.inr hj, fun hexpired => ?_, fun htaken => ?_⟩
      · have hlt := hs.expired_lt j hexpired
        omega
      · have hlt := hs.ids_lt j (mem_slotIds.mpr (.inr htaken))
        omega
    · rw [or_iff_left hj, or_iff_left hj]
  · rcases getElem?_concat_cases he with ⟨hj, rfl⟩ | ⟨-, hold⟩
    · refine obeys_of_silent (fun response hresponse => ?_) fun at' result hend => by cases hend
      have hlt : j < s.approvals.executions.length := hs.log_lt _ hresponse
      omega
    · exact (hm.obeys j e hold).congr Iff.rfl fun _ => Iff.rfl

theorem Mirrors.takeSlot (hs : s.Sound log) (hm : Mirrors uuidText s log) {approvalId : ℕ}
    (response : HumanLoopResponse) : Mirrors uuidText { s with
      approvals := { s.approvals with
        slots := s.approvals.slots.filter fun slot => slot.1 != approvalId }
      answering := s.answering ++ [(approvalId, response)] } log := by
  refine ⟨fun j => ?_, fun j e he => (hm.obeys j e he).congr Iff.rfl fun _ => Iff.rfl, hs.log_nodup⟩
  have hold := hm.listed j
  rw [mem_listPending, awaits_iff] at hold
  rw [mem_listPending, mem_map_filter_ne, hold, awaits_iff, List.map_append, List.mem_append, not_or]
  constructor
  · intro h
    obtain ⟨⟨haccepts, hexpired, htaken⟩, hne⟩ := h
    exact ⟨haccepts, hexpired, htaken, fun hj => hne (List.mem_singleton.mp hj)⟩
  · intro h
    obtain ⟨haccepts, hexpired, htaken, hne⟩ := h
    exact ⟨⟨haccepts, hexpired, htaken⟩, fun hj => hne (List.mem_singleton.mpr hj)⟩

theorem Mirrors.cleanup (hs : s.Sound log) (hm : Mirrors uuidText s log) (workflowId : String) :
    Mirrors uuidText { s with approvals := s.approvals.cleanupWorkflow workflowId } log := by
  have haccepts (j : ℕ) : accepts { s with approvals := s.approvals.cleanupWorkflow workflowId } j =
      true ↔ s.accepts j = true ∧ s.approvals.hasSlot workflowId j = false := by
    rw [accepts_iff, accepts_iff]
    constructor
    · intro h
      obtain ⟨e, he, hheld⟩ := h
      obtain ⟨e₀, he₀, rfl⟩ := getElem?_cleanup.mp he
      cases hslot : s.approvals.hasSlot workflowId j with
      | true =>
          rw [hslot, if_pos rfl, dropSender_state] at hheld
          split at hheld
          · cases hheld
          · rename_i hother
            exact absurd hheld hother
      | false =>
          rw [hslot] at hheld
          exact ⟨⟨e₀, he₀, hheld⟩, rfl⟩
    · intro h
      obtain ⟨⟨e₀, he₀, hheld⟩, hother⟩ := h
      refine ⟨e₀, getElem?_cleanup.mpr ⟨e₀, he₀, ?_⟩, hheld⟩
      rw [hother]
      rfl
  refine ⟨fun j => ?_, fun j e he => ?_, hs.log_nodup⟩
  · rw [hs.listed_cleanup, hm.listed, awaits_iff, awaits_iff, haccepts]
    constructor
    · intro h
      exact ⟨⟨h.1.1, h.2⟩, h.1.2⟩
    · intro h
      exact ⟨⟨h.1.1, h.2⟩, h.1.2⟩
  · obtain ⟨e₀, he₀, rfl⟩ := getElem?_cleanup.mp he
    cases hslot : s.approvals.hasSlot workflowId j with
    | true =>
        obtain ⟨slot, hmem, -⟩ := hasSlot_iff.mp hslot
        have hid : j ∈ s.slotIds :=
          List.mem_append_left _ (List.mem_map.mpr ⟨_, hmem, rfl⟩)
        have hsilent : ∀ response, (j, response) ∉ log :=
          fun response hresponse => hs.log_spent _ hresponse hid
        refine obeys_of_silent hsilent fun at' result hend => ?_
        rw [if_pos rfl, dropSender_state] at hend
        split at hend
        · cases hend
        · rename_i hother
          have hsame : e₀.dropSender = e₀ := by
            rw [HumanLoopExecution.dropSender]
            split
            · rename_i hheld
              exact absurd hheld hother
            · rfl
          rw [if_pos rfl, hsame]
          exact (hm.obeys j e₀ he₀).2 hsilent at' result hend
    | false => exact (hm.obeys j e₀ he₀).congr Iff.rfl fun _ => Iff.rfl

/-- `respond` without anything in between is the `respond` of the registry. -/
theorem takeSlot_send (s : Approvals) (approvalId : ℕ) (response : HumanLoopResponse)
    (expired : List ℕ) (hlisted : (s.slots.lookup approvalId).isSome = true) :
    ((step uuidText ⟨s, [], expired⟩ (.takeSlot approvalId response)).bind fun t =>
      step uuidText t (.send 0)) =
        some ⟨(s.respond uuidText approvalId response).1, [], expired⟩ := by
  obtain ⟨slot, hslot⟩ := Option.isSome_iff_exists.mp hlisted
  simp only [step, hslot, Option.bind_some, List.nil_append, List.getElem?_cons_zero,
    Option.map_some, List.eraseIdx_zero, List.tail_cons, Approvals.respond]
  cases s.executions[approvalId]? with
  | none => rfl
  | some e =>
      obtain ⟨node, payload, startedAt, state⟩ := e
      cases state with
      | waiting responder => cases responder <;> rfl
      | finished at' result => rfl
      | abandoned => rfl

/-! ## Runs -/

/-- The registry before anybody waits. -/
def start : ApprovalRaces := ⟨⟨[], [], 0⟩, [], []⟩

theorem sound_of_init (h : (machine uuidText).init s) : s.Sound [] := by
  obtain ⟨hslots, hexecutions, hanswering, hexpired⟩ := h
  have hids : s.slotIds = [] := by rw [slotIds, hslots, hanswering]; rfl
  refine ⟨?_, fun i hi => ?_, fun i hi => ?_, fun answer hanswer => ?_, List.nodup_nil,
    fun answer hanswer => ?_, fun i e responder he => ?_, fun i e he => ?_,
    fun i e response he => ?_⟩
  · rw [hids]
    exact List.nodup_nil
  · rw [hids] at hi
    cases hi
  · rw [hexpired] at hi
    cases hi
  · cases hanswer
  · cases hanswer
  · rw [hexecutions] at he
    cases he
  · rw [hexecutions] at he
    cases he
  · rw [hexecutions] at he
    cases he

/-- A valve that a human has to open, within a second. -/
def gate : HumanLoopNode := ⟨"gate", ⟨[], some 1000, .autoApprove⟩, "plant"⟩

def yes : HumanLoopResponse := ⟨.approved, .null, none, none⟩

/-- In every run, an execution is answered with success once at most, its slot is gone then, and
what is in its channel is that answer. -/
theorem answered_once {t : ApprovalRaces × List (ℕ × HumanLoopResponse)}
    (h : ((machine uuidText).logged successes).Reaches t) :
    (t.2.map Prod.fst).Nodup ∧
      (∀ answer ∈ t.2, answer.1 ∉ t.1.approvals.listPending none) ∧
      ∀ (i : ℕ) (e : HumanLoopExecution) response, t.1.approvals.executions[i]? = some e →
        e.state = .waiting (.sent response) → (i, response) ∈ t.2 := by
  have hs : t.1.Sound t.2 :=
    h.invariant_logged (fun s => sound_of_init) fun s log a s' hs hstep => hs.step hstep
  refine ⟨hs.log_nodup, fun answer hanswer hlisted => ?_, hs.logged_of_sent⟩
  exact hs.log_spent answer hanswer (mem_slotIds.mpr (.inl hlisted))

/-- The second answer of two finds no slot. -/
theorem second_answer_late : ∃ t : ApprovalRaces × List (ℕ × HumanLoopResponse),
    t.2 = [(0, yes)] ∧ ∀ answer ∈ t.2, answer.1 ∉ t.1.approvals.listPending none := by
  have hrun : (((machine toString).logged successes).replay (fun _ _ => true) (start, [])
      [.transform gate .null, .takeSlot 0 yes, .takeSlot 0 yes, .send 0]).any
      fun t => decide (t.2 = [(0, yes)]) := by decide
  obtain ⟨t, ht, hend⟩ := Machine.exists_reaches_of_replay
    (M := (machine toString).logged successes) ⟨⟨rfl, rfl, rfl, rfl⟩, rfl⟩ hrun
  exact ⟨t, of_decide_eq_true hend, (answered_once ht).2.1⟩

end ApprovalRaces

end Nazh
