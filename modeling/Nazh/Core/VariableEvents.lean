import Mathlib.Data.List.InsertIdx
import Nazh.Core.Variables
import Nazh.Lib.Channel
import Nazh.Lib.Journal
import Nazh.Lib.Machine

/-!
# Events of variables

A call that changes a variable does so under the lock of its entry, lets go of the lock, and
sends an event. Between the two other calls run: they may change the variable again and send
their event first. Who reads the events then ends with a value that was overwritten.

`emitsInOrder` says that no event is sent while that of an earlier change of the same variable is
still to be sent. What was sent and what is still to be sent make one journal, which always tells
the present values.
-/

namespace Nazh

open Lib

/-! ## Events -/

inductive WorkflowVariableEvent
  | changed (workflowId name : String) (value : Value) (updatedAt : String)
      (updatedBy : Option String)
  | deleted (workflowId name : String)
  deriving DecidableEq

namespace WorkflowVariableEvent

def name : WorkflowVariableEvent → String
  | changed _ name _ _ _ => name
  | deleted _ name => name

/-- What the variable is after the event. -/
def present : WorkflowVariableEvent → Option Value
  | changed _ _ value _ _ => some value
  | deleted _ _ => none

end WorkflowVariableEvent

/-- What a call has to send when it has let go of the lock. -/
inductive VariableReport
  | changed (name : String) (value : Value) (updatedAt : String) (updatedBy : Option String)
  | deleted (name : String)
  deriving DecidableEq

def VariableReport.name : VariableReport → String
  | changed name _ _ _ => name
  | deleted name => name

/-- The channel of the events of a workflow. -/
structure EventSink where
  workflowId : String
  sender : Channel WorkflowVariableEvent
  droppedEvents : ℕ

namespace EventSink

/-- The event `try_emit_changed` and `remove` make. -/
def event (sink : EventSink) : VariableReport → WorkflowVariableEvent
  | .changed name value updatedAt updatedBy =>
      .changed sink.workflowId name value updatedAt updatedBy
  | .deleted name => .deleted sink.workflowId name

/-- `EventSink::emit`: an event that finds no room is dropped, and counted. -/
def emit (sink : EventSink) (event : WorkflowVariableEvent) : EventSink × TrySend :=
  match sink.sender.trySend event with
  | (sender, .sent) => ({ sink with sender }, .sent)
  | (sender, result) => ({ sink with sender, droppedEvents := sink.droppedEvents + 1 }, result)

@[simp] theorem event_name (sink : EventSink) (report : VariableReport) :
    (sink.event report).name = report.name := by
  cases report with
  | changed => rfl
  | deleted => rfl

/-- What a send leaves: the workflow, and the count unless the event was sent. -/
theorem emit_spec {sink sink' : EventSink} {event : WorkflowVariableEvent} {result : TrySend}
    (h : sink.emit event = (sink', result)) :
    sink'.workflowId = sink.workflowId ∧
      (result = .sent ∧ sink'.droppedEvents = sink.droppedEvents ∨
        result ≠ .sent ∧ sink'.droppedEvents = sink.droppedEvents + 1) := by
  unfold emit at h
  split at h
  · cases h
    exact ⟨rfl, .inl ⟨rfl, rfl⟩⟩
  · rename_i hnot _
    cases h
    refine ⟨rfl, .inr ⟨?_, rfl⟩⟩
    intro hsent
    exact hnot hsent

end EventSink

/-! ## Calls up to the end of the lock -/

variable (toRfc3339 : ℤ → String)

/-- A new value for an entry, and what is to be reported: nothing if it is the old one. -/
def TypedVariable.write (entry : TypedVariable) (name : String) (value : Value)
    (updatedBy : Option String) (now : ℤ) : TypedVariable × Option VariableReport :=
  ({ entry with value, updatedAt := now, updatedBy },
    if entry.value.Same value then none
    else some (.changed name value (toRfc3339 now) updatedBy))

namespace WorkflowVariables

/-- `set`, up to `drop(entry)`. -/
def setLocked (vars : WorkflowVariables) (name : String) (value : Value)
    (updatedBy : Option String) (now : ℤ) :
    Except EngineError (WorkflowVariables × Option VariableReport) :=
  match vars.inner.lookup name with
  | none => .error (.unknownVariable name)
  | some entry =>
      if entry.variableType.matchesValue value then
        let (entry, report) := entry.write toRfc3339 name value updatedBy now
        .ok (⟨vars.inner.insert name entry⟩, report)
      else
        .error (.variableTypeMismatch name entry.variableType.label (jsonValueLabel value))

/-- `compare_and_swap`, up to `drop(entry)`, and what it returns. -/
def compareAndSwapLocked (vars : WorkflowVariables) (name : String) (expected new : Value)
    (updatedBy : Option String) (now : ℤ) :
    Except EngineError ((WorkflowVariables × Option VariableReport) × Bool) :=
  match vars.inner.lookup name with
  | none => .error (.unknownVariable name)
  | some entry =>
      if entry.variableType.matchesValue new then
        if entry.value.Same expected then
          let (entry, report) := entry.write toRfc3339 name new updatedBy now
          .ok ((⟨vars.inner.insert name entry⟩, report), true)
        else .ok ((vars, none), false)
      else
        .error (.variableTypeMismatch name entry.variableType.label (jsonValueLabel new))

/-- `remove`, up to the event, and the variable it returns. -/
def removeLocked (vars : WorkflowVariables) (name : String) :
    (WorkflowVariables × Option VariableReport) × Option TypedVariable :=
  match vars.inner.lookup name with
  | none => ((vars, none), none)
  | some removed => ((⟨vars.inner.erase name⟩, some (.deleted name)), some removed)

end WorkflowVariables

/-! ## Calls and their events -/

/-- The variables, and the calls for them that have not returned. -/
structure VariableCalls where
  vars : WorkflowVariables
  sink : EventSink
  /-- Calls of `reset` that have read the initial value. -/
  resetting : List (String × Value × Option String)
  /-- Calls that have let go of the lock, the earliest change first. -/
  emitting : List VariableReport
  /-- The events that were queued, in the order of the channel. -/
  sent : List WorkflowVariableEvent

/-- What can happen. -/
inductive VariableAction
  | set (name : String) (value : Value) (updatedBy : Option String) (now : ℤ)
  | compareAndSwap (name : String) (expected new : Value) (updatedBy : Option String) (now : ℤ)
  | remove (name : String)
  /-- A call of `reset` reads the initial value. -/
  | reset (name : String) (updatedBy : Option String)
  /-- The `i`-th of the calls of `reset` goes on to `set`. -/
  | resetSet (i : ℕ) (now : ℤ)
  /-- The `i`-th of the calls that have let go of the lock sends its event. -/
  | emit (i : ℕ)
  /-- The receiver takes an event. -/
  | recv
  | dropReceiver

namespace VariableCalls

/-- What a call has done when it lets go of the lock. -/
def unlocked (s : VariableCalls) (done : WorkflowVariables × Option VariableReport) :
    VariableCalls :=
  { s with vars := done.1, emitting := s.emitting ++ done.2.toList }

/-- The same for a call that may fail. -/
def returned (s : VariableCalls)
    (result : Except EngineError (WorkflowVariables × Option VariableReport)) : VariableCalls :=
  match result with
  | .ok done => s.unlocked done
  | .error _ => s

/-- A call sends its event. -/
def emit (s : VariableCalls) (i : ℕ) (report : VariableReport) : VariableCalls :=
  let event := s.sink.event report
  match s.sink.emit event with
  | (sink, .sent) => { s with sink, emitting := s.emitting.eraseIdx i, sent := s.sent ++ [event] }
  | (sink, _) => { s with sink, emitting := s.emitting.eraseIdx i }

/-- The receiver takes an event or goes. -/
def withSender (s : VariableCalls) (sender : Channel WorkflowVariableEvent) : VariableCalls :=
  { s with sink := { s.sink with sender } }

/-- One step. -/
def step (s : VariableCalls) : VariableAction → Option VariableCalls
  | .set name value updatedBy now =>
      some (s.returned (s.vars.setLocked toRfc3339 name value updatedBy now))
  | .compareAndSwap name expected new updatedBy now =>
      some (s.returned
        (Prod.fst <$> s.vars.compareAndSwapLocked toRfc3339 name expected new updatedBy now))
  | .remove name => some (s.unlocked (s.vars.removeLocked name).1)
  | .reset name updatedBy => match s.vars.inner.lookup name with
    | none => some s
    | some entry => some { s with resetting := s.resetting ++ [(name, entry.initial, updatedBy)] }
  | .resetSet i now => match s.resetting[i]? with
    | none => none
    | some (name, initial, updatedBy) =>
        some ({ s with resetting := s.resetting.eraseIdx i }.returned
          (s.vars.setLocked toRfc3339 name initial updatedBy now))
  | .emit i => s.emitting[i]?.map (s.emit i)
  | .recv => s.sink.sender.recv.map fun taken => s.withSender taken.1
  | .dropReceiver => some (s.withSender .gone)

/-- Variables nobody has written, with a channel for their events. -/
def start (vars : WorkflowVariables) (workflowId : String) (capacity : ℕ) : VariableCalls :=
  ⟨vars, ⟨workflowId, .live capacity [], 0⟩, [], [], []⟩

def machine (vars : WorkflowVariables) (workflowId : String) (capacity : ℕ) :
    Machine VariableCalls VariableAction :=
  ⟨fun s => s = start vars workflowId capacity, step toRfc3339⟩

/-- No event is sent while that of an earlier change of the same variable is still to be sent. -/
def emitsInOrder (s : VariableCalls) : VariableAction → Bool
  | .emit i => match s.emitting[i]? with
    | none => true
    | some report => (s.emitting.take i).all (·.name ≠ report.name)
  | _ => true

/-- The last event of a variable. -/
def lastEvent (s : VariableCalls) (name : String) : Option WorkflowVariableEvent :=
  (ofKey WorkflowVariableEvent.name name s.sent).getLast?

/-- The events of a variable tell what it is. -/
structure Converged (s : VariableCalls) (vars : WorkflowVariables) (name : String) : Prop where
  /-- Replayed over what was there at the start, they end with what is there. -/
  replayed : (replay WorkflowVariableEvent.name WorkflowVariableEvent.present name
      (vars.getValue name) s.sent).map Value.canonical =
    (s.vars.getValue name).map Value.canonical
  /-- If the last one is of a change, it has the present value. -/
  changed : ∀ workflowId value updatedAt updatedBy,
    s.lastEvent name = some (.changed workflowId name value updatedAt updatedBy) →
    ∃ present, s.vars.getValue name = some present ∧ value.Same present
  /-- It is of the removal if and only if the variable is gone. -/
  deleted : (vars.getValue name).isSome = true →
    ((∃ workflowId, s.lastEvent name = some (.deleted workflowId name)) ↔
      s.vars.getValue name = none)

/-! ## The journal -/

/-- What is there, with one zero for two. -/
def seen (vars : WorkflowVariables) (name : String) : Option Value :=
  (vars.getValue name).map Value.canonical

/-- The same, as events tell it. -/
def told (name : String) (start : Option Value) (events : List WorkflowVariableEvent) :
    Option Value :=
  replay WorkflowVariableEvent.name (Option.map Value.canonical ∘ WorkflowVariableEvent.present) name
    start events

/-- What a call reports is what it has changed. -/
def Reports (sink : EventSink) (vars : WorkflowVariables)
    (done : WorkflowVariables × Option VariableReport) : Prop :=
  ∀ name, seen done.1 name = told name (seen vars name) (done.2.toList.map sink.event)

/-- The events that were sent, and those still to be sent. -/
def journal (s : VariableCalls) : List WorkflowVariableEvent :=
  s.sent ++ s.emitting.map s.sink.event

variable {toRfc3339} {sink : EventSink} {vars vars₀ : WorkflowVariables} {s s' : VariableCalls}

theorem told_append (name : String) (start : Option Value)
    (events later : List WorkflowVariableEvent) :
    told name start (events ++ later) = told name (told name start events) later :=
  replay_append

/-- A call that changes nothing has nothing to report. -/
theorem Reports.unchanged : Reports sink vars (vars, none) := fun _ => rfl

/-- An entry is written. -/
theorem Reports.write {name : String} {entry : TypedVariable}
    (hentry : vars.inner.lookup name = some entry) (value : Value) (updatedBy : Option String)
    (now : ℤ) :
    Reports sink vars (⟨vars.inner.insert name (entry.write toRfc3339 name value updatedBy now).1⟩,
      (entry.write toRfc3339 name value updatedBy now).2) := by
  intro other
  by_cases hother : other = name
  · subst hother
    have hold : seen vars other = some entry.value.canonical := by
      simp [seen, WorkflowVariables.getValue, hentry]
    have hnew : seen ⟨vars.inner.insert other (entry.write toRfc3339 other value updatedBy now).1⟩
        other = some value.canonical := by
      simp [seen, WorkflowVariables.getValue, AList.lookup_insert, TypedVariable.write]
    rw [hnew, hold]
    by_cases hsame : entry.value.Same value
    · simp only [TypedVariable.write, if_pos hsame]
      exact congrArg some hsame.symm
    · simp [TypedVariable.write, if_neg hsame, told, replay_singleton, EventSink.event,
        WorkflowVariableEvent.name, WorkflowVariableEvent.present]
  · have hkeep : seen ⟨vars.inner.insert name (entry.write toRfc3339 name value updatedBy now).1⟩
        other = seen vars other := by
      simp [seen, WorkflowVariables.getValue, AList.lookup_insert_ne hother]
    rw [hkeep]
    by_cases hsame : entry.value.Same value
    · simp only [TypedVariable.write, if_pos hsame]
      rfl
    · simp [TypedVariable.write, if_neg hsame, told, replay_singleton, EventSink.event,
        WorkflowVariableEvent.name, Ne.symm hother]

theorem Reports.setLocked {name : String} {value : Value} {updatedBy : Option String} {now : ℤ}
    {done : WorkflowVariables × Option VariableReport}
    (h : vars.setLocked toRfc3339 name value updatedBy now = .ok done) : Reports sink vars done := by
  unfold WorkflowVariables.setLocked at h
  split at h
  · cases h
  · rename_i entry hentry
    split at h
    · cases h
      exact Reports.write hentry value updatedBy now
    · cases h

theorem Reports.compareAndSwapLocked {name : String} {expected new : Value}
    {updatedBy : Option String} {now : ℤ} {done : WorkflowVariables × Option VariableReport}
    (h : Prod.fst <$> vars.compareAndSwapLocked toRfc3339 name expected new updatedBy now = .ok done) :
    Reports sink vars done := by
  unfold WorkflowVariables.compareAndSwapLocked at h
  split at h
  · cases h
  · rename_i entry hentry
    split at h
    · split at h
      · cases h
        exact Reports.write hentry new updatedBy now
      · cases h
        exact Reports.unchanged
    · cases h

theorem Reports.removeLocked (name : String) : Reports sink vars (vars.removeLocked name).1 := by
  unfold WorkflowVariables.removeLocked
  split
  · exact Reports.unchanged
  · intro other
    by_cases hother : other = name
    · subst hother
      simp [seen, WorkflowVariables.getValue, told, replay_singleton, EventSink.event,
        WorkflowVariableEvent.name, WorkflowVariableEvent.present]
    · simp [seen, WorkflowVariables.getValue, AList.lookup_erase_ne hother, told, replay_singleton,
        EventSink.event, WorkflowVariableEvent.name, Ne.symm hother]

/-! ## What a step does -/

/-- What a step does to the journal, one case for each way. -/
inductive Effect (s : VariableCalls) (a : VariableAction) (s' : VariableCalls) : Prop
  /-- A call lets go of the lock. -/
  | unlocked {done : WorkflowVariables × Option VariableReport} :
      (∀ sink, Reports sink s.vars done) → s'.vars = done.1 →
      s'.emitting = s.emitting ++ done.2.toList → s'.sent = s.sent → s'.sink = s.sink → Effect s a s'
  /-- The receiver does something, or a call fails. -/
  | kept : s'.vars = s.vars → s'.emitting = s.emitting → s'.sent = s.sent →
      s'.sink.event = s.sink.event → s'.sink.droppedEvents = s.sink.droppedEvents → Effect s a s'
  /-- A call sends its event. -/
  | sent {i : ℕ} {report : VariableReport} : a = .emit i → s.emitting[i]? = some report →
      s'.vars = s.vars → s'.emitting = s.emitting.eraseIdx i →
      s'.sent = s.sent ++ [s.sink.event report] → s'.sink.event = s.sink.event →
      s'.sink.droppedEvents = s.sink.droppedEvents → Effect s a s'
  /-- An event is dropped. -/
  | dropped : s'.sink.droppedEvents = s.sink.droppedEvents + 1 → Effect s a s'

theorem returned_effect {result : Except EngineError (WorkflowVariables × Option VariableReport)}
    (h : ∀ done, result = .ok done → ∀ sink, Reports sink s.vars done) (a : VariableAction) :
    s.Effect a (s.returned result) := by
  cases result with
  | ok done => exact .unlocked (h done rfl) rfl rfl rfl rfl
  | error e => exact .kept rfl rfl rfl rfl rfl

theorem emit_effect {i : ℕ} {report : VariableReport} (hreport : s.emitting[i]? = some report) :
    s.Effect (.emit i) (s.emit i report) := by
  obtain ⟨sink, result, hemit⟩ : ∃ sink result, s.sink.emit (s.sink.event report) = (sink, result) :=
    ⟨_, _, rfl⟩
  obtain ⟨hworkflow, hcount⟩ := EventSink.emit_spec hemit
  have hevent : sink.event = s.sink.event := by
    funext report
    cases report with
    | changed => simp [EventSink.event, hworkflow]
    | deleted => simp [EventSink.event, hworkflow]
  rcases hcount with ⟨rfl, hsame⟩ | ⟨hnot, hmore⟩
  · simp only [emit, hemit]
    exact .sent rfl hreport rfl rfl rfl hevent hsame
  · cases result with
    | sent => exact absurd rfl hnot
    | full =>
        simp only [emit, hemit]
        exact .dropped hmore
    | closed =>
        simp only [emit, hemit]
        exact .dropped hmore

theorem step_effect {a : VariableAction} (h : s.step toRfc3339 a = some s') : s.Effect a s' := by
  cases a with
  | set name value updatedBy now =>
      cases h
      exact returned_effect (fun done hdone sink => Reports.setLocked hdone) _
  | compareAndSwap name expected new updatedBy now =>
      cases h
      exact returned_effect (fun done hdone sink => Reports.compareAndSwapLocked hdone) _
  | remove name =>
      cases h
      exact .unlocked (fun sink => Reports.removeLocked name) rfl rfl rfl rfl
  | reset name updatedBy =>
      simp only [step] at h
      split at h
      · cases h
        exact .kept rfl rfl rfl rfl rfl
      · cases h
        exact .kept rfl rfl rfl rfl rfl
  | resetSet i now =>
      simp only [step] at h
      split at h
      · cases h
      · rename_i name initial updatedBy _
        cases h
        cases hdone : s.vars.setLocked toRfc3339 name initial updatedBy now with
        | ok done => exact .unlocked (fun sink => Reports.setLocked hdone) rfl rfl rfl rfl
        | error e => exact .kept rfl rfl rfl rfl rfl
  | emit i =>
      obtain ⟨report, hreport, rfl⟩ := Option.map_eq_some_iff.mp h
      exact emit_effect hreport
  | recv =>
      obtain ⟨taken, -, rfl⟩ := Option.map_eq_some_iff.mp h
      exact .kept rfl rfl rfl rfl rfl
  | dropReceiver =>
      cases h
      exact .kept rfl rfl rfl rfl rfl

/-! ## The journal tells what is there -/

/-- If no event was dropped, the journal tells what is there. -/
def Tells (vars₀ : WorkflowVariables) (s : VariableCalls) : Prop :=
  s.sink.droppedEvents = 0 → ∀ name, seen s.vars name = told name (seen vars₀ name) s.journal

theorem foremost_of_emitsInOrder {i : ℕ} {report : VariableReport}
    (hreport : s.emitting[i]? = some report) (h : s.emitsInOrder (.emit i) = true) :
    Foremost WorkflowVariableEvent.name (s.emitting.map s.sink.event) i := by
  simp only [emitsInOrder, hreport, List.all_eq_true, decide_eq_true_eq] at h
  intro event hevent event' hevent'
  rw [List.getElem?_map, hreport] at hevent
  obtain rfl := Option.some.inj hevent
  rw [← List.map_take] at hevent'
  obtain ⟨report', hmem, rfl⟩ := List.mem_map.mp hevent'
  simpa using h report' hmem

theorem Tells.step {a : VariableAction} (hi : s.Tells vars₀) (horder : s.emitsInOrder a = true)
    (h : s.step toRfc3339 a = some s') : s'.Tells vars₀ := by
  cases step_effect h with
  | @unlocked done hreports hvars hemitting hsent hsink =>
      intro hnone name
      rw [hsink] at hnone
      rw [hvars, hreports s.sink name, hi hnone name, ← told_append, journal, journal, hemitting, hsent,
        hsink, List.map_append, List.append_assoc]
  | kept hvars hemitting hsent hevent hcount =>
      intro hnone name
      rw [hcount] at hnone
      rw [hvars, hi hnone name, journal, journal, hemitting, hsent, hevent]
  | @sent i report ha hreport hvars hemitting hsent hevent hcount =>
      intro hnone name
      rw [hcount] at hnone
      subst ha
      have hforemost := foremost_of_emitsInOrder hreport horder
      have hevents : (s.emitting.map s.sink.event)[i]? = some (s.sink.event report) := by
        rw [List.getElem?_map, hreport]
        rfl
      have hjournal : s'.journal =
          s.sent ++ s.sink.event report :: (s.emitting.map s.sink.event).eraseIdx i := by
        rw [journal, hsent, hemitting, hevent, List.eraseIdx_map, List.append_assoc]
        rfl
      rw [hvars, hi hnone name, hjournal, journal, told_append, told_append]
      exact (replay_congr (ofKey_cons_eraseIdx hevents hforemost)).symm
  | dropped hcount =>
      intro hnone
      omega

theorem tells_of_reaches {workflowId : String} {capacity : ℕ}
    (h : (machine toRfc3339 vars₀ workflowId capacity).ReachesUnder
      (fun s a => s.emitsInOrder a = true) s) : s.Tells vars₀ := by
  refine Machine.ReachesUnder.invariant ?_ ?_ h
  · intro s hs _ name
    obtain rfl : s = start vars₀ workflowId capacity := hs
    rfl
  · intro s a s' hi horder hstep
    exact hi.step horder hstep

/-- With nothing more to be sent of a variable, its journal is what was sent. -/
theorem told_journal {name : String} (hdone : ∀ report ∈ s.emitting, report.name ≠ name)
    (start : Option Value) : told name start s.journal = told name start s.sent := by
  refine replay_congr ?_
  have hnone : ofKey WorkflowVariableEvent.name name (s.emitting.map s.sink.event) = [] := by
    rw [ofKey, List.filter_eq_nil_iff]
    intro event hevent
    obtain ⟨report, hreport, rfl⟩ := List.mem_map.mp hevent
    simpa using hdone report hreport
  rw [journal, ofKey_append, hnone, List.append_nil]

/-- Events that tell what is there converge. -/
theorem converged_of_told {name : String}
    (h : seen s.vars name = told name (seen vars₀ name) s.sent) : s.Converged vars₀ name := by
  have hlast := h.trans replay_eq_last
  refine ⟨(map_replay _).trans h.symm, ?_, ?_⟩
  · intro workflowId value updatedAt updatedBy hevent
    rw [lastEvent] at hevent
    rw [hevent] at hlast
    obtain ⟨present, hpresent, hcanonical⟩ := Option.map_eq_some_iff.mp hlast
    exact ⟨present, hpresent, hcanonical.symm⟩
  · intro hinitial
    constructor
    · intro hevent
      obtain ⟨workflowId, hevent⟩ := hevent
      rw [lastEvent] at hevent
      rw [hevent] at hlast
      exact Option.map_eq_none_iff.mp hlast
    · intro hgone
      have hnone : seen s.vars name = none := Option.map_eq_none_iff.mpr hgone
      rw [hnone] at hlast
      cases hevent : (ofKey WorkflowVariableEvent.name name s.sent).getLast? with
      | none =>
          rw [hevent] at hlast
          have hnever : vars₀.getValue name = none := Option.map_eq_none_iff.mp hlast.symm
          rw [hnever] at hinitial
          cases hinitial
      | some event =>
          have hname : event.name = name := by
            simpa using (List.mem_filter.mp (List.mem_of_getLast? hevent)).2
          rw [hevent] at hlast
          cases event with
          | changed workflowId name' value updatedAt updatedBy => cases hlast
          | deleted workflowId name' =>
              obtain rfl : name' = name := hname
              exact ⟨workflowId, hevent⟩

/-- In every run in which no event is sent while that of an earlier change of the same variable is
still to be sent: if no event was dropped and none of a variable is still to be sent, then the
events of that variable tell what it is. -/
theorem events_converge {workflowId : String} {capacity : ℕ} {name : String}
    (h : (machine toRfc3339 vars₀ workflowId capacity).ReachesUnder
      (fun s a => s.emitsInOrder a = true) s)
    (hdropped : s.sink.droppedEvents = 0) (hdone : ∀ report ∈ s.emitting, report.name ≠ name) :
    s.Converged vars₀ name := by
  have htells := tells_of_reaches h hdropped name
  rw [told_journal hdone] at htells
  exact converged_of_told htells

/-! ## Two writers -/

/-- A declared variable. -/
def modeVariables : WorkflowVariables :=
  ⟨(∅ : AList fun _ : String => TypedVariable).insert "mode" ⟨.number (.posInt 0), .integer,
    .number (.posInt 0), 0, none⟩⟩

/-- Two nodes write it, and the events are sent in the order of a list. -/
def twoWriters (order : List VariableAction) : List VariableAction :=
  [.set "mode" (.number (.posInt 1)) (some "first") 1,
    .set "mode" (.number (.posInt 2)) (some "second") 2] ++ order

/-- Whether nothing is left to do, and the value is 2. -/
def settledAtTwo (s : VariableCalls) : Bool :=
  s.emitting.isEmpty && s.sink.droppedEvents == 0 &&
    s.vars.getValue "mode" = some (.number (.posInt 2))

/-- Events sent in the order of the changes end with the present value. -/
theorem twoWriters_converge : ∃ s,
    (machine (fun _ => "") modeVariables "w" 16).ReachesUnder (fun s a => s.emitsInOrder a = true) s ∧
      s.vars.getValue "mode" = some (.number (.posInt 2)) ∧ s.Converged modeVariables "mode" := by
  have hrun : ((machine (fun _ => "") modeVariables "w" 16).replay emitsInOrder
      (start modeVariables "w" 16) (twoWriters [.emit 0, .emit 0])).any settledAtTwo = true := by
    decide
  obtain ⟨s, hs, hsettled⟩ := Machine.exists_reachesUnder_of_replay rfl hrun
  simp only [settledAtTwo, Bool.and_eq_true, List.isEmpty_iff, beq_iff_eq, decide_eq_true_eq] at hsettled
  refine ⟨s, hs, hsettled.2, events_converge hs hsettled.1.2 ?_⟩
  intro report hreport
  rw [hsettled.1.1] at hreport
  cases hreport

/-- The event of the second change is sent first: the last event tells a value that was
overwritten. -/
theorem swapped_events_diverge : ∃ s, (machine (fun _ => "") modeVariables "w" 16).Reaches s ∧
    s.emitting = [] ∧ s.sink.droppedEvents = 0 ∧ ¬ s.Converged modeVariables "mode" := by
  have hrun : ((machine (fun _ => "") modeVariables "w" 16).replay (fun _ _ => true)
      (start modeVariables "w" 16) (twoWriters [.emit 1, .emit 0])).any (fun s => settledAtTwo s &&
        s.lastEvent "mode" = some (.changed "w" "mode" (.number (.posInt 1)) "" (some "first"))) =
          true := by
    decide
  obtain ⟨s, hs, hlast⟩ := Machine.exists_reaches_of_replay rfl hrun
  simp only [settledAtTwo, Bool.and_eq_true, List.isEmpty_iff, beq_iff_eq, decide_eq_true_eq] at hlast
  obtain ⟨⟨⟨hemitting, hdropped⟩, hvalue⟩, hlast⟩ := hlast
  refine ⟨s, hs, hemitting, hdropped, ?_⟩
  intro h
  obtain ⟨present, hpresent, hsame⟩ := h.changed _ _ _ _ hlast
  rw [hvalue] at hpresent
  obtain rfl := Option.some.inj hpresent
  exact absurd hsame (by decide)

end VariableCalls
end Nazh
