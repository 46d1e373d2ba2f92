import Nazh.Desktop.VariableForwarder
import Nazh.Lib.Lists

/-!
# Persisted variables

The stored values and the events that will still be stored tell what the variables are. If the
next deployment reads the store when nothing is left to be stored, and the variables do not change
after that, then it is given their last values.
-/

namespace Nazh

open Lib

variable {toRfc3339 : ℤ → String} {declarations : Option (AList fun _ : String => VariableDeclaration)}

/-! ## What a call leaves -/

namespace VariableCalls

/-- A call leaves the types alone, and what it reports has the type. -/
structure Keeps (vars : WorkflowVariables) (done : WorkflowVariables × Option VariableReport) :
    Prop where
  held : ∀ name type value, done.1.holding name = some (type, value) →
    ∃ value', vars.holding name = some (type, value')
  fits : ∀ name value updatedAt updatedBy,
    done.2 = some (.changed name value updatedAt updatedBy) →
      ∃ type value', vars.holding name = some (type, value') ∧ type.matchesValue value = true

variable {s s' : VariableCalls} {vars : WorkflowVariables} {a : VariableAction}

theorem Keeps.unchanged : Keeps vars (vars, none) := by
  refine ⟨fun name type value h => ⟨value, h⟩, ?_⟩
  intro name value updatedAt updatedBy h
  cases h

theorem Keeps.write {name : String} {entry : TypedVariable}
    (hentry : vars.inner.lookup name = some entry) {value : Value}
    (htype : entry.variableType.matchesValue value = true) (updatedBy : Option String) (now : ℤ) :
    Keeps vars (⟨vars.inner.insert name (entry.write toRfc3339 name value updatedBy now).1⟩,
      (entry.write toRfc3339 name value updatedBy now).2) := by
  have hheld : vars.holding name = some (entry.variableType, entry.value) := by
    simp [WorkflowVariables.holding, hentry]
  constructor
  · intro other type value' h
    by_cases hother : other = name
    · subst hother
      simp only [WorkflowVariables.holding, AList.lookup_insert, Option.map_some, Option.some.injEq,
        Prod.mk.injEq] at h
      obtain ⟨rfl, -⟩ := h
      exact ⟨entry.value, hheld⟩
    · simp only [WorkflowVariables.holding, AList.lookup_insert_ne hother] at h
      exact ⟨value', h⟩
  · intro other value' updatedAt updatedBy' h
    simp only [TypedVariable.write] at h
    split at h
    · cases h
    · cases h
      exact ⟨entry.variableType, entry.value, hheld, htype⟩

theorem Keeps.setLocked {name : String} {value : Value} {updatedBy : Option String} {now : ℤ}
    {done : WorkflowVariables × Option VariableReport}
    (h : vars.setLocked toRfc3339 name value updatedBy now = .ok done) : Keeps vars done := by
  unfold WorkflowVariables.setLocked at h
  split at h
  · cases h
  · rename_i entry hentry
    split at h
    · rename_i htype
      cases h
      exact .write hentry htype updatedBy now
    · cases h

theorem Keeps.compareAndSwapLocked {name : String} {expected new : Value}
    {updatedBy : Option String} {now : ℤ} {done : WorkflowVariables × Option VariableReport}
    (h : Prod.fst <$> vars.compareAndSwapLocked toRfc3339 name expected new updatedBy now = .ok done) :
    Keeps vars done := by
  unfold WorkflowVariables.compareAndSwapLocked at h
  split at h
  · cases h
  · rename_i entry hentry
    split at h
    · rename_i htype
      split at h
      · cases h
        exact .write hentry htype updatedBy now
      · cases h
        exact .unchanged
    · cases h

theorem Keeps.removeLocked (vars : WorkflowVariables) (name : String) :
    Keeps vars (vars.removeLocked name).1 := by
  unfold WorkflowVariables.removeLocked
  split
  · exact .unchanged
  · constructor
    · intro other type value h
      by_cases hother : other = name
      · subst hother
        simp [WorkflowVariables.holding] at h
      · simp only [WorkflowVariables.holding, AList.lookup_erase_ne hother] at h
        exact ⟨value, h⟩
    · intro other value updatedAt updatedBy h
      cases h

/-- What a step of a call does, one case for each way. -/
inductive CallOutcome (toRfc3339 : ℤ → String) (s : VariableCalls) (a : VariableAction)
    (s' : VariableCalls) : Prop
  /-- A call lets go of the lock. -/
  | unlocked (done : WorkflowVariables × Option VariableReport) :
      (∀ sink, Reports sink s.vars done) → Keeps s.vars done → s.reported toRfc3339 a = done.2 →
      s'.vars = done.1 → s'.emitting = s.emitting ++ done.2.toList → s'.sink = s.sink →
      CallOutcome toRfc3339 s a s'
  /-- A call fails, or reads. -/
  | kept : s'.vars = s.vars → s'.emitting = s.emitting → s'.sink = s.sink →
      CallOutcome toRfc3339 s a s'
  /-- A call sends its event. -/
  | emitted (i : ℕ) (report : VariableReport) : a = .emit i → s.emitting[i]? = some report →
      s' = s.emit i report → CallOutcome toRfc3339 s a s'

theorem call_outcome (h : s.step toRfc3339 a = some s') (hrecv : a ≠ .recv)
    (hdrop : a ≠ .dropReceiver) : CallOutcome toRfc3339 s a s' := by
  cases a with
  | set name value updatedBy now =>
      cases h
      cases hdone : s.vars.setLocked toRfc3339 name value updatedBy now with
      | ok done =>
          refine .unlocked done (fun sink => .setLocked hdone) (.setLocked hdone) ?_ rfl rfl rfl
          simp only [reported, hdone]
          rfl
      | error e => exact .kept rfl rfl rfl
  | compareAndSwap name expected new updatedBy now =>
      cases h
      cases hdone : Prod.fst <$> s.vars.compareAndSwapLocked toRfc3339 name expected new updatedBy now with
      | ok done =>
          refine .unlocked done (fun sink => .compareAndSwapLocked hdone) (.compareAndSwapLocked hdone)
            ?_ rfl rfl rfl
          simp only [reported, hdone]
          rfl
      | error e => exact .kept rfl rfl rfl
  | remove name =>
      cases h
      exact .unlocked _ (fun sink => .removeLocked name) (.removeLocked s.vars name) rfl rfl rfl rfl
  | reset name updatedBy =>
      simp only [step] at h
      split at h
      · cases h
        exact .kept rfl rfl rfl
      · cases h
        exact .kept rfl rfl rfl
  | resetSet i now =>
      simp only [step] at h
      split at h
      · cases h
      · rename_i name initial updatedBy hcall
        cases h
        cases hdone : s.vars.setLocked toRfc3339 name initial updatedBy now with
        | ok done =>
            refine .unlocked done (fun sink => .setLocked hdone) (.setLocked hdone) ?_ rfl rfl rfl
            simp only [reported, hcall, Option.bind_some, hdone]
            rfl
        | error e => exact .kept rfl rfl rfl
  | emit i =>
      obtain ⟨report, hreport, rfl⟩ := Option.map_eq_some_iff.mp h
      exact .emitted i report rfl hreport rfl
  | recv => exact absurd rfl hrecv
  | dropReceiver => exact absurd rfl hdrop

/-- An event that finds room goes into the channel. -/
theorem emit_of_room {i : ℕ} {report : VariableReport} {capacity : ℕ}
    {queue : List WorkflowVariableEvent} (hlive : s.sink.sender = .live capacity queue)
    (hroom : queue.length < capacity) :
    s.emit i report = { s with
      sink := { s.sink with sender := .live capacity (queue ++ [s.sink.event report]) }
      emitting := s.emitting.eraseIdx i
      sent := s.sent ++ [s.sink.event report] } := by
  simp [emit, EventSink.emit, hlive, Channel.trySend, hroom]

/-- An event whose receiver is gone is lost. -/
theorem emit_of_gone {i : ℕ} {report : VariableReport} (hgone : s.sink.sender = .gone) :
    s.emit i report = { s with
      sink := { s.sink with sender := .gone, droppedEvents := s.sink.droppedEvents + 1 }
      emitting := s.emitting.eraseIdx i } := by
  simp [emit, EventSink.emit, hgone, Channel.trySend]

end VariableCalls

/-! ## What a step of a deployment does -/

namespace DeployedVariables

/-- The channels are as their tasks left them. -/
structure Wired (d : DeployedVariables) : Prop where
  gone : d.pc = .gone ↔ d.forwarded.isClosed = true
  broken : d.proxyGone = true → d.held = none
  cut : d.calls.sink.sender.isClosed = true → d.proxyGone = true
  busy : d.storing.isSome = true → d.pc = .storing ∨ d.pc = .gone

/-- The variables are the declared ones. -/
def HeldTyped (declarations : Option (AList fun _ : String => VariableDeclaration))
    (d : DeployedVariables) : Prop :=
  ∀ name type value, d.calls.vars.holding name = some (type, value) →
    ∃ declaration, declarationOf declarations name = some declaration ∧
      declaration.variableType = type

/-- What a step does to the pending events and to the last values. -/
inductive Moves (declarations : Option (AList fun _ : String => VariableDeclaration))
    (d : DeployedVariables) (newest : Bool) (a : ForwardAction) (d' : DeployedVariables) : Prop
  /-- No reader of the events sees a difference. -/
  | quiet : (∀ s : PersistedVariables, s.rowsAfter d a = s.rows) →
      (∀ name, ofKey WorkflowVariableEvent.name name d'.pending =
        ofKey WorkflowVariableEvent.name name d.pending) →
      (∀ name, VariableCalls.seen d'.lastValues name = VariableCalls.seen d.lastValues name) →
      Moves declarations d newest a d'
  /-- A variable of the newest deployment changes. -/
  | changed (event : WorkflowVariableEvent) :
      (∀ s : PersistedVariables, s.rowsAfter d a = s.rows) → newest = true →
      event.Fits declarations → d'.pending = d.pending ++ [event] →
      (∀ name, VariableCalls.seen d'.lastValues name =
        VariableCalls.told name (VariableCalls.seen d.lastValues name) [event]) →
      Moves declarations d newest a d'
  /-- An event is stored. -/
  | stored (event : WorkflowVariableEvent) :
      (∀ s : PersistedVariables, s.rowsAfter d a = { s with rows := s.rows.persist event }.rows) →
      d.pending = event :: d'.pending → d'.lastValues = d.lastValues →
      Moves declarations d newest a d'

/-- All that is kept of a deployment in a step. -/
structure Stepped (declarations : Option (AList fun _ : String => VariableDeclaration))
    (d : DeployedVariables) (newest : Bool) (a : ForwardAction) (d' : DeployedVariables) :
    Prop where
  overrides : d'.overrides = d.overrides
  wired : d'.Wired
  typed : d'.HeldTyped declarations
  moves : d.Moves declarations newest a d'

variable {d d' : DeployedVariables} {newest : Bool} {a : ForwardAction}

/-- Only a forwarder that waits for the store has an operation under way. -/
theorem Wired.not_storing (hw : d.Wired) (hpc : d.pc ≠ .storing) (halive : d.pc ≠ .gone) :
    d.storing = none := by
  cases hstoring : d.storing with
  | none => rfl
  | some event =>
      rcases hw.busy (by rw [hstoring]; rfl) with h | h
      · exact absurd h hpc
      · exact absurd h halive

/-- A step that moves no event and leaves the variables alone. -/
theorem Moves.of_eq (hrows : ∀ s : PersistedVariables, s.rowsAfter d a = s.rows)
    (hpending : d'.pending = d.pending) (hvalues : d'.lastValues = d.lastValues) :
    d.Moves declarations newest a d' := by
  refine .quiet hrows (fun name => ?_) (fun name => ?_)
  · rw [hpending]
  · rw [hvalues]

section Calls

variable {calls : VariableCalls} {events : List WorkflowVariableEvent}

/-- Calls matter to the pending events only while events are forwarded. -/
theorem pending_call_of_dead (h : d.forwards = false) :
    pending { d with calls } = d.pending := by
  show d.downstream ++ (if d.forwards then upstream { d with calls } else []) =
    d.downstream ++ if d.forwards then d.upstream else []
  rw [h]
  rfl

theorem pending_call (hup : upstream { d with calls } = d.upstream ++ events)
    (h : d.forwards = true ∨ events = []) : pending { d with calls } = d.pending ++ events := by
  show d.downstream ++ (if d.forwards then upstream { d with calls } else []) =
    (d.downstream ++ if d.forwards then d.upstream else []) ++ events
  rcases h with h | rfl
  · rw [h, if_pos rfl, if_pos rfl, hup, List.append_assoc]
  · rw [hup, List.append_nil, List.append_nil]

theorem ofKey_pending_call {name : String}
    (h : ofKey WorkflowVariableEvent.name name (upstream { d with calls }) =
      ofKey WorkflowVariableEvent.name name d.upstream) :
    ofKey WorkflowVariableEvent.name name (pending { d with calls }) =
      ofKey WorkflowVariableEvent.name name d.pending := by
  show ofKey _ _ (d.downstream ++ if d.forwards then upstream { d with calls } else []) =
    ofKey _ _ (d.downstream ++ if d.forwards then d.upstream else [])
  cases d.forwards with
  | true => rw [if_pos rfl, if_pos rfl, ofKey_append, ofKey_append, h]
  | false => rfl

/-- A call lets go of the lock. -/
theorem stepped_unlocked (hw : d.Wired) (ht : d.HeldTyped declarations) {a : VariableAction}
    {done : WorkflowVariables × Option VariableReport}
    (hchanges : done.2.isNone = true ∨
      (if d.returned.isSome then !d.forwards else d.forwards && newest) = true)
    (hreports : ∀ sink, VariableCalls.Reports sink d.calls.vars done)
    (hkeeps : VariableCalls.Keeps d.calls.vars done) (hvars : calls.vars = done.1)
    (hemitting : calls.emitting = d.calls.emitting ++ done.2.toList)
    (hsink : calls.sink = d.calls.sink) :
    d.Stepped declarations newest (.call a) { d with calls } := by
  have hwired : Wired { d with calls } := by
    refine ⟨hw.gone, hw.broken, ?_, hw.busy⟩
    rw [hsink]
    exact hw.cut
  have htyped : HeldTyped declarations { d with calls } := by
    intro name type value h
    rw [hvars] at h
    obtain ⟨value', h'⟩ := hkeeps.held name type value h
    exact ht name type value' h'
  refine ⟨rfl, hwired, htyped, ?_⟩
  have hseen : ∀ name, VariableCalls.seen calls.vars name =
      VariableCalls.told name (VariableCalls.seen d.calls.vars name)
        (done.2.toList.map d.calls.sink.event) := by
    intro name
    rw [hvars]
    exact hreports d.calls.sink name
  have hupstream : upstream { d with calls } =
      d.upstream ++ done.2.toList.map d.calls.sink.event := by
    simp only [upstream, hemitting, hsink, List.map_append, List.append_assoc]
  have hvalues : d.returned = none → lastValues { d with calls } = calls.vars := by
    intro hreturned
    simp only [lastValues, hreturned, Option.getD_none]
  have hbefore : d.returned = none → d.lastValues = d.calls.vars := by
    intro hreturned
    simp only [lastValues, hreturned, Option.getD_none]
  have hfixed : ∀ last, d.returned = some last → lastValues { d with calls } = d.lastValues := by
    intro last hreturned
    simp only [lastValues, hreturned, Option.getD_some]
  cases hdone : done.2 with
  | none =>
      rw [hdone] at hseen hupstream
      have hpending := pending_call hupstream (.inr rfl)
      refine .quiet (fun _ => rfl) (fun name => ?_) (fun name => ?_)
      · rw [hpending]
        exact congrArg _ (List.append_nil _)
      · rcases Option.eq_none_or_eq_some d.returned with hreturned | ⟨last, hreturned⟩
        · rw [hvalues hreturned, hbefore hreturned]
          exact hseen name
        · rw [hfixed last hreturned]
  | some report =>
      rw [hdone] at hchanges hseen hupstream
      have hguard := hchanges.resolve_left Bool.noConfusion
      rcases Option.eq_none_or_eq_some d.returned with hreturned | ⟨last, hreturned⟩
      · obtain ⟨hforwards, hnewest⟩ : d.forwards = true ∧ newest = true := by
          simpa [hreturned] using hguard
        refine .changed (d.calls.sink.event report) (fun _ => rfl) hnewest ?_
          (pending_call hupstream (.inl hforwards)) (fun name => ?_)
        · cases report with
          | deleted name => trivial
          | changed name value updatedAt updatedBy =>
              obtain ⟨type, value', hheld, htype⟩ := hkeeps.fits _ _ _ _ hdone
              obtain ⟨declaration, hdeclared, rfl⟩ := ht _ _ _ hheld
              exact ⟨declaration, hdeclared, htype⟩
        · rw [hvalues hreturned, hbefore hreturned]
          exact hseen name
      · have hdead : d.forwards = false := by simpa [hreturned] using hguard
        exact .of_eq (fun _ => rfl) (pending_call_of_dead hdead) (hfixed last hreturned)

/-- A call sends its event. -/
theorem stepped_emit (hw : d.Wired) (ht : d.HeldTyped declarations) {i : ℕ}
    {report : VariableReport} (hroom : d.findsRoom (.call (.emit i)) = true)
    (horder : d.forwards = false ∨ d.calls.emitsInOrder (.emit i) = true)
    (hreport : d.calls.emitting[i]? = some report) :
    d.Stepped declarations newest (.call (.emit i)) { d with calls := d.calls.emit i report } := by
  cases hsender : d.calls.sink.sender with
  | gone =>
      have hgone : d.proxyGone = true := hw.cut (by rw [hsender]; rfl)
      have hdead : d.forwards = false := by
        rw [forwards, hgone]
        exact Bool.and_false _
      rw [VariableCalls.emit_of_gone hsender]
      exact ⟨rfl, ⟨hw.gone, hw.broken, fun _ => hgone, hw.busy⟩, ht,
        .of_eq (fun _ => rfl) (pending_call_of_dead hdead) rfl⟩
  | live capacity queue =>
      have hless : queue.length < capacity := by
        simpa [findsRoom, hsender] using hroom
      rw [VariableCalls.emit_of_room hsender hless]
      refine ⟨rfl, ⟨hw.gone, hw.broken, fun h => (by cases h), hw.busy⟩, ht, ?_⟩
      rcases horder with hdead | horder
      · exact .of_eq (fun _ => rfl) (pending_call_of_dead hdead) rfl
      · refine .quiet (fun _ => rfl) (fun name => ofKey_pending_call ?_) (fun name => rfl)
        have hforemost := VariableCalls.foremost_of_emitsInOrder hreport horder
        have hevents : (d.calls.emitting.map d.calls.sink.event)[i]? =
            some (d.calls.sink.event report) := by
          rw [List.getElem?_map, hreport]
          rfl
        have hmoved : ∀ rest : List WorkflowVariableEvent,
            (queue ++ [d.calls.sink.event report]) ++ rest =
              queue ++ d.calls.sink.event report :: rest :=
          fun rest => by rw [List.append_assoc, List.singleton_append]
        show ofKey _ _ (_ ++ (queue ++ [_]) ++ (d.calls.emitting.eraseIdx i).map d.calls.sink.event) =
          ofKey _ _ d.upstream
        rw [upstream, hsender, Channel.queue_live, List.append_assoc, hmoved, ← List.eraseIdx_map,
          List.append_assoc, ofKey_append, ofKey_append, ofKey_append, ofKey_append,
          ofKey_cons_eraseIdx hevents hforemost]

/-- A call takes its next step. -/
theorem stepped_call (hw : d.Wired) (ht : d.HeldTyped declarations) {a : VariableAction}
    (hroom : d.findsRoom (.call a) = true) (hsaves : d.saves toRfc3339 newest (.call a) = true)
    (hout : VariableCalls.CallOutcome toRfc3339 d.calls a calls) :
    d.Stepped declarations newest (.call a) { d with calls } := by
  simp only [saves, Bool.and_eq_true, Bool.or_eq_true, Bool.not_eq_true'] at hsaves
  obtain ⟨horder, hchanges⟩ := hsaves
  cases hout with
  | kept hvars hemitting hsink =>
      have hunchanged : (d.calls.vars, (none : Option VariableReport)).2.isNone = true := rfl
      exact stepped_unlocked hw ht (.inl hunchanged) (fun sink => .unchanged) .unchanged hvars
        (hemitting.trans (List.append_nil _).symm) hsink
  | unlocked done hreports hkeeps hreported hvars hemitting hsink =>
      rw [hreported] at hchanges
      exact stepped_unlocked hw ht hchanges hreports hkeeps hvars hemitting hsink
  | emitted i report ha hreport hcalls =>
      subst ha hcalls
      exact stepped_emit hw ht hroom horder hreport

end Calls
/-- The proxy ends with nothing to hand on. -/
theorem stepped_breakProxy (hw : d.Wired) (ht : d.HeldTyped declarations)
    (hrows : ∀ s : PersistedVariables, s.rowsAfter d a = s.rows)
    (hnone : d.forwards = true → d.upstream = []) :
    d.Stepped declarations newest a d.breakProxy := by
  refine ⟨rfl, ⟨hw.gone, fun _ => rfl, fun _ => rfl, hw.busy⟩, ht, .of_eq hrows ?_ rfl⟩
  have hdead : d.breakProxy.forwards = false := Bool.and_false _
  rw [pending, hdead, pending]
  cases hforwards : d.forwards with
  | true => rw [if_pos rfl, hnone hforwards]; rfl
  | false => rfl

/-- The forwarder begins to receive. -/
theorem stepped_receives (hw : d.Wired) (ht : d.HeldTyped declarations)
    (hrows : ∀ s : PersistedVariables, s.rowsAfter d a = s.rows) (hpc : d.pc ≠ .storing)
    (halive : d.pc ≠ .gone) : d.Stepped declarations newest a { d with pc := .receiving } := by
  have hidle := hw.not_storing hpc halive
  refine ⟨rfl, ⟨⟨ForwarderPc.noConfusion, fun hclosed => absurd (hw.gone.mpr hclosed) halive⟩,
    hw.broken, hw.cut, fun hbusy => ?_⟩, ht, .of_eq hrows ?_ rfl⟩
  · have hbusy : d.storing.isSome = true := hbusy
    rw [hidle] at hbusy
    cases hbusy
  · have hforwards : forwards { d with pc := .receiving } = d.forwards := by
      have hbne : (d.pc != .gone) = true := bne_iff_ne.mpr halive
      rw [forwards, forwards, hbne]
      rfl
    rw [pending, pending, hforwards]
    rfl

/-- What every step of a deployment does, if it meets the guard. -/
theorem stepped (hw : d.Wired) (ht : d.HeldTyped declarations) (hroom : d.findsRoom a = true)
    (hsaves : d.saves toRfc3339 newest a = true) (h : d.step toRfc3339 a = some d') :
    d.Stepped declarations newest a d' := by
  cases a with
  | call a =>
      have hcall : a ≠ .recv ∧ a ≠ .dropReceiver ∧
          (d.calls.step toRfc3339 a).map (fun calls => { d with calls }) = some d' := by
        cases a with
        | recv => cases h
        | dropReceiver => cases h
        | _ => exact ⟨by simp, by simp, h⟩
      obtain ⟨hrecv, hdrop, hstep⟩ := hcall
      obtain ⟨calls, hcalls, rfl⟩ := Option.map_eq_some_iff.mp hstep
      exact stepped_call hw ht hroom hsaves (VariableCalls.call_outcome hcalls hrecv hdrop)
  | proxyTake =>
      rw [step] at h
      split at h
      · cases h
      · rename_i hfree
        have hheld : d.proxyGone = false ∧ d.held = none := by simpa using hfree
        obtain ⟨⟨sender, event⟩, htaken, rfl⟩ := Option.map_eq_some_iff.mp h
        obtain ⟨-, hopen, hqueue⟩ := Channel.recv_spec htaken
        refine ⟨rfl, ⟨hw.gone, fun hgone => ?_, fun hclosed => ?_, hw.busy⟩, ht, .of_eq (fun _ => rfl) ?_ rfl⟩
        · rw [hheld.1] at hgone
          cases hgone
        · have hclosed : sender.isClosed = true := hclosed
          rw [hopen] at hclosed
          cases hclosed
        · have hupstream : d.upstream =
              event :: sender.queue ++ d.calls.emitting.map d.calls.sink.event := by
            rw [upstream, hheld.2, hqueue]
            rfl
          rw [pending, pending, hupstream]
          rfl
  | proxySend =>
      rw [step] at h
      split at h
      · cases h
      · rename_i event hheld
        split at h
        · cases h
        · rename_i forwarded hsend
          cases h
          rcases Channel.send_spec hsend with ⟨-, hopen, hopen', hqueue⟩ | ⟨hnot, -⟩
          · have hpc : d.pc ≠ .gone := by
              intro hgone
              rw [hw.gone.mp hgone] at hopen
              cases hopen
            have hproxy : d.proxyGone = false := by
              by_contra hgone
              rw [hw.broken (by simpa using hgone)] at hheld
              cases hheld
            have hforwards : d.forwards = true := by simp [forwards, hpc, hproxy]
            refine ⟨rfl, ⟨⟨fun hgone => absurd hgone hpc, fun hclosed => ?_⟩, fun _ => rfl, hw.cut,
              hw.busy⟩, ht, .of_eq (fun _ => rfl) ?_ rfl⟩
            · have hclosed : forwarded.isClosed = true := hclosed
              rw [hopen'] at hclosed
              cases hclosed
            · have hupstream : d.upstream = event :: (d.calls.sink.sender.queue ++
                  d.calls.emitting.map d.calls.sink.event) := by
                rw [upstream, hheld]
                rfl
              show (d.storing.toList ++ forwarded.queue) ++ (if d.forwards then _ else []) = d.pending
              rw [pending, hforwards, if_pos rfl, if_pos rfl, hupstream, downstream, hqueue]
              simp [upstream]
          · cases hnot
        · rename_i forwarded hsend
          cases h
          have hdead : d.forwards = false := by
            rcases Channel.send_spec hsend with ⟨hnot, -⟩ | ⟨-, hclosed, -⟩
            · cases hnot
            · simp [forwards, hw.gone.mpr hclosed]
          refine stepped_breakProxy hw ht (fun _ => rfl) (fun hforwards => ?_)
          rw [hdead] at hforwards
          cases hforwards
  | proxyBreak =>
      rw [step] at h
      split at h
      · cases h
        exact stepped_breakProxy hw ht (fun _ => rfl) (fun _ => List.isEmpty_iff.mp hsaves)
      · cases h
  | spawn =>
      rw [step] at h
      split at h
      · rename_i hpc
        cases h
        exact stepped_receives hw ht (fun _ => rfl) (by rw [hpc]; exact ForwarderPc.noConfusion)
          (by rw [hpc]; exact ForwarderPc.noConfusion)
      · cases h
  | take =>
      rw [step] at h
      split at h
      · rename_i hpc
        obtain ⟨⟨forwarded, event⟩, htaken, rfl⟩ := Option.map_eq_some_iff.mp h
        obtain ⟨-, hopen, hqueue⟩ := Channel.recv_spec htaken
        have hidle := hw.not_storing (by rw [hpc]; exact ForwarderPc.noConfusion)
          (by rw [hpc]; exact ForwarderPc.noConfusion)
        refine ⟨rfl, ⟨⟨ForwarderPc.noConfusion, fun hclosed => ?_⟩, hw.broken, hw.cut,
          fun _ => .inl rfl⟩, ht, .of_eq (fun _ => rfl) ?_ rfl⟩
        · have hclosed : forwarded.isClosed = true := hclosed
          rw [hopen] at hclosed
          cases hclosed
        · simp only [pending, downstream, upstream, forwards, hpc, hidle, hqueue]
          rfl
      · cases h
  | stored =>
      rw [step] at h
      split at h
      · cases h
      · rename_i event hstoring
        cases h
        have hforwards : ((if d.pc = .storing then ForwarderPc.recording else d.pc) != .gone) =
            (d.pc != .gone) := by
          split
          · rename_i hpc
            rw [hpc]
            rfl
          · rfl
        refine ⟨rfl, ⟨?_, hw.broken, hw.cut, fun hbusy => by cases hbusy⟩, ht,
          .stored event (fun s => ?_) ?_ rfl⟩
        · rw [← hw.gone]
          show (if d.pc = .storing then ForwarderPc.recording else d.pc) = .gone ↔ d.pc = .gone
          split
          · rename_i hpc
            rw [hpc]
            exact ⟨ForwarderPc.noConfusion, ForwarderPc.noConfusion⟩
          · rfl
        · simp only [PersistedVariables.rowsAfter, hstoring]
        · simp only [pending, downstream, upstream, forwards, hstoring, hforwards]
          rfl
  | recorded =>
      rw [step] at h
      split at h
      · rename_i hpc
        cases h
        exact stepped_receives hw ht (fun _ => rfl) (by rw [hpc]; exact ForwarderPc.noConfusion)
          (by rw [hpc]; exact ForwarderPc.noConfusion)
      · cases h
  | shutdown =>
      cases h
      exact ⟨rfl, ⟨hw.gone, hw.broken, hw.cut, hw.busy⟩, ht, .of_eq (fun _ => rfl) rfl rfl⟩
  | land =>
      rw [step] at h
      split at h
      · cases h
        have hnone : d.pending = [] := List.isEmpty_iff.mp hsaves
        refine ⟨rfl, ⟨⟨fun _ => rfl, fun _ => rfl⟩, hw.broken, hw.cut, fun _ => .inr rfl⟩, ht,
          .of_eq (fun _ => rfl) ?_ rfl⟩
        have hidle : d.storing.toList = [] :=
          (List.append_eq_nil_iff.mp (List.append_eq_nil_iff.mp hnone).1).1
        rw [hnone, pending, downstream, hidle]
        rfl
      · cases h
  | returned =>
      rw [step] at h
      split at h
      · rename_i hstops
        have hreturned : d.returned = none := by simpa using (Bool.and_eq_true_iff.mp hstops).2
        cases h
        refine ⟨rfl, ⟨hw.gone, hw.broken, hw.cut, hw.busy⟩, ht, .of_eq (fun _ => rfl) rfl ?_⟩
        rw [lastValues, lastValues, hreturned]
        rfl
      · cases h

end DeployedVariables

/-! ## Deployments of a workflow -/

namespace PersistedVariables

variable {w : PersistedWorkflow} {s s' : PersistedVariables}

/-- Only the newest deployment has events to be stored, and with them the store tells its last
values. Every later deployment was given the last values of the one before it. -/
structure Survives (w : PersistedWorkflow) (s : PersistedVariables) : Prop where
  wired : ∀ d ∈ s.deployments, d.Wired ∧ d.HeldTyped w.declarations
  settled : ∀ i d, s.deployments[i]? = some d → i + 1 ≠ s.deployments.length → d.pending = []
  stored : ∀ i d name, s.deployments[i]? = some d → i + 1 = s.deployments.length →
    Restores (declarationOf w.declarations name)
      (replay WorkflowVariableEvent.name WorkflowVariableEvent.present name (s.rows.valueOf name)
        d.pending) (d.lastValues.getValue name)
  given : ∀ i d d' name, s.deployments[i]? = some d → s.deployments[i + 1]? = some d' →
    Restores (declarationOf w.declarations name) (d'.overrides.lookup name)
      (d.lastValues.getValue name)

/-- A new deployment reads the store when nothing is left to be stored. -/
theorem Survives.deploy (hs : s.Survives w) {now : ℤ} {vars : WorkflowVariables}
    (hvars : buildWorkflowVariables w.declarations now = .ok vars)
    (hsaves : s.saves toRfc3339 (.deploy now) = true) :
    Survives w { s with deployments := s.deployments ++ [s.deployed w vars now] } := by
  have hnone : ∀ d ∈ s.deployments, d.pending = [] := fun d hd =>
    List.isEmpty_iff.mp (List.all_eq_true.mp hsaves d hd)
  have hpending : (s.deployed w vars now).pending = [] := rfl
  have hlength : (s.deployments ++ [s.deployed w vars now]).length = s.deployments.length + 1 :=
    List.length_append
  constructor
  · intro d hd
    rcases List.mem_append.mp hd with hd | hd
    · exact hs.wired d hd
    · obtain rfl := List.mem_singleton.mp hd
      refine ⟨⟨⟨ForwarderPc.noConfusion, Bool.noConfusion⟩, fun _ => rfl, Bool.noConfusion,
        Bool.noConfusion⟩, ?_⟩
      intro name type value h
      have hheld : (vars.restore s.rows.loadPersistedVariableOverrides now).holding name =
          some (type, value) := h
      rw [holding_restored hvars] at hheld
      obtain ⟨declaration, hdeclared, hheld⟩ := Option.map_eq_some_iff.mp hheld
      cases hheld
      exact ⟨declaration, hdeclared, rfl⟩
  · intro i d hd hold
    rcases getElem?_concat_cases hd with ⟨-, rfl⟩ | ⟨-, hd⟩
    · exact hpending
    · exact hnone d (List.mem_of_getElem? hd)
  · intro i d name hd hnewest
    rcases getElem?_concat_cases hd with ⟨-, rfl⟩ | ⟨hlt, -⟩
    · rw [hpending, replay_nil, ← VariableRows.lookup_overrides]
      exact restores_restored hvars _ _
    · have hnewest : i + 1 = s.deployments.length + 1 := hnewest.trans hlength
      omega
  · intro i d d' name hd hd'
    rcases getElem?_concat_cases hd' with ⟨hi, rfl⟩ | ⟨hlt, hd'⟩
    · rcases getElem?_concat_cases hd with ⟨hi', -⟩ | ⟨-, hd⟩
      · omega
      · have hstored := hs.stored i d name hd hi
        rw [hnone d (List.mem_of_getElem? hd), replay_nil, ← VariableRows.lookup_overrides] at hstored
        exact hstored
    · rw [List.getElem?_append_left (by omega)] at hd
      exact hs.given i d d' name hd hd'

/-- The events of a reader who sees none are none. -/
theorem eq_nil_of_ofKey {events : List WorkflowVariableEvent}
    (h : ∀ name, ofKey WorkflowVariableEvent.name name events = []) : events = [] := by
  cases events with
  | nil => rfl
  | cons event events =>
      have hnone := h event.name
      rw [ofKey_cons, if_pos rfl] at hnone
      cases hnone

/-- Something happens to a deployment. -/
theorem Survives.act (hs : s.Survives w) {i : ℕ} {a : ForwardAction} {d d' : DeployedVariables}
    (hd : s.deployments[i]? = some d)
    (hstep : d.Stepped w.declarations (i + 1 == s.deployments.length) a d') :
    Survives w { rows := s.rowsAfter d a, deployments := s.deployments.set i d' } := by
  have hlength : (s.deployments.set i d').length = s.deployments.length := List.length_set
  -- what the step does to the pending events, to the store and to the last values
  have hsettled : i + 1 ≠ s.deployments.length → d'.pending = [] ∧ s.rowsAfter d a = s.rows := by
    intro hold
    have hnone := hs.settled i d hd hold
    cases hstep.moves with
    | quiet hrows hpending hvalues =>
        refine ⟨eq_nil_of_ofKey fun name => ?_, hrows s⟩
        rw [hpending name, hnone]
        rfl
    | changed event hrows hnewest => exact absurd (by simpa using hnewest) hold
    | stored event hrows hpending hvalues =>
        rw [hnone] at hpending
        cases hpending
  have hstored : ∀ name, i + 1 = s.deployments.length →
      Restores (declarationOf w.declarations name)
        (replay WorkflowVariableEvent.name WorkflowVariableEvent.present name
          ((s.rowsAfter d a).valueOf name) d'.pending) (d'.lastValues.getValue name) := by
    intro name hnewest
    have hbefore := hs.stored i d name hd hnewest
    cases hstep.moves with
    | quiet hrows hpending hvalues =>
        rw [hrows s, replay_congr (hpending name)]
        exact hbefore.congr (hvalues name).symm
    | changed event hrows hlast hfits hpending hvalues =>
        rw [hrows s, hpending, replay_append]
        exact hbefore.persist hfits (hvalues name)
    | stored event hrows hpending hvalues =>
        rw [hrows s, hvalues, VariableRows.valueOf_persist, ← replay_append, List.singleton_append,
          ← hpending]
        exact hbefore
  have hvalues : i + 1 ≠ s.deployments.length → ∀ name,
      VariableCalls.seen d'.lastValues name = VariableCalls.seen d.lastValues name := by
    intro hold name
    cases hstep.moves with
    | quiet hrows hpending hvalues => exact hvalues name
    | changed event hrows hnewest => exact absurd (by simpa using hnewest) hold
    | stored event hrows hpending hvalues => rw [hvalues]
  constructor
  · intro e he
    rcases List.mem_or_eq_of_mem_set he with he | rfl
    · exact hs.wired e he
    · exact ⟨hstep.wired, hstep.typed⟩
  · intro j e he hold
    rw [hlength] at hold
    rcases getElem?_set_cases he with ⟨rfl, rfl⟩ | ⟨-, he⟩
    · exact (hsettled hold).1
    · exact hs.settled j e he hold
  · intro j e name he hnewest
    rw [hlength] at hnewest
    rcases getElem?_set_cases he with ⟨rfl, rfl⟩ | ⟨hne, he⟩
    · exact hstored name hnewest
    · show Restores _ (replay _ _ name ((s.rowsAfter d a).valueOf name) e.pending) _
      rw [(hsettled (by omega)).2]
      exact hs.stored j e name he hnewest
  · intro j e e' name he he'
    have hgiven : ∀ e₀, s.deployments[j + 1]? = some e₀ → e'.overrides = e₀.overrides →
        Restores (declarationOf w.declarations name) (e'.overrides.lookup name)
          (e.lastValues.getValue name) := by
      intro e₀ he₀ hsame
      have hlt := (List.getElem?_eq_some_iff.mp he₀).1
      rw [hsame]
      rcases getElem?_set_cases he with ⟨rfl, rfl⟩ | ⟨-, he⟩
      · exact (hs.given j d e₀ name hd he₀).congr (hvalues (by omega) name).symm
      · exact hs.given j e e₀ name he he₀
    rcases getElem?_set_cases he' with ⟨hj, rfl⟩ | ⟨-, he'⟩
    · rw [← hj] at hd
      exact hgiven d hd hstep.overrides
    · exact hgiven e' he' rfl

theorem Survives.step (hs : s.Survives w) {a : PersistAction} (hroom : s.findsRoom a = true)
    (hsaves : s.saves toRfc3339 a = true) (h : s.step toRfc3339 w a = some s') :
    s'.Survives w := by
  cases a with
  | deploy now =>
      rw [PersistedVariables.step] at h
      split at h
      · cases h
      · rename_i vars hvars
        split at h
        · cases h
          exact hs.deploy hvars hsaves
        · cases h
  | act i a =>
      rw [PersistedVariables.step] at h
      split at h
      · cases h
      · rename_i d hd
        split at h
        · obtain ⟨d', hstep, rfl⟩ := Option.map_eq_some_iff.mp h
          obtain ⟨hwired, htyped⟩ := hs.wired d (List.mem_of_getElem? hd)
          rw [PersistedVariables.findsRoom, hd] at hroom
          rw [PersistedVariables.saves, hd] at hsaves
          exact hs.act hd (DeployedVariables.stepped hwired htyped hroom hsaves hstep)
        · cases h

theorem survives_of_reaches (h : (machine toRfc3339 w).ReachesUnder
    (fun s a => s.findsRoom a = true ∧ s.saves toRfc3339 a = true) s) : s.Survives w := by
  refine Machine.ReachesUnder.invariant ?_ ?_ h
  · intro s hs
    have hnone : s.deployments = [] := hs
    constructor
    · intro d hd
      rw [hnone] at hd
      cases hd
    · intro i d hd
      rw [hnone] at hd
      cases hd
    · intro i d name hd
      rw [hnone] at hd
      cases hd
    · intro i d d' name hd
      rw [hnone] at hd
      cases hd
  · intro s a s' hi hguard hstep
    exact hi.step hguard.1 hguard.2 hstep

/-- In every run that meets the guard and drops no event for want of room, the stored values that
a deployment is given restore those that the deployment before it had when its `shutdown_runtime`
returned. -/
theorem variables_survive {i : ℕ} {d d' : DeployedVariables} {last : WorkflowVariables}
    (h : (machine toRfc3339 w).ReachesUnder
      (fun s a => s.findsRoom a = true ∧ s.saves toRfc3339 a = true) s)
    (hd : s.deployments[i]? = some d) (hd' : s.deployments[i + 1]? = some d')
    (hlast : d.returned = some last) (name : String) :
    Restores (declarationOf w.declarations name) (d'.overrides.lookup name)
      (last.getValue name) := by
  have hgiven := (survives_of_reaches h).given i d d' name hd hd'
  rw [DeployedVariables.lastValues, hlast] at hgiven
  exact hgiven

/-! ## A variable that is written once -/

/-- A workflow with one variable. -/
def modeWorkflow : PersistedWorkflow :=
  ⟨some ((∅ : AList fun _ : String => VariableDeclaration).insert "mode"
    ⟨.integer, .number (.posInt 0)⟩), "w", 16⟩

/-- It is deployed, the variable is written, and it is undeployed and deployed again; in between the
events are handled by the actions of a list. -/
def writtenOnce (handled : List ForwardAction) : List PersistAction :=
  [.deploy 0, .act 0 .spawn, .act 0 (.call (.set "mode" (.number (.posInt 2)) (some "node") 1)),
    .act 0 (.call (.emit 0))] ++ handled.map (.act 0) ++
    [.act 0 .shutdown, .act 0 .land, .act 0 .returned, .deploy 2]

/-- Whether the value was 2 at the end of the first deployment, and what the second was given. -/
def givenAfterTwo (given : Option Value) (s : PersistedVariables) : Bool :=
  match s.deployments with
  | [d, d'] => d.returned.any (fun last => last.getValue "mode" = some (.number (.posInt 2))) &&
      d'.overrides.lookup "mode" = given
  | _ => false

theorem exists_of_givenAfterTwo {given : Option Value} (h : givenAfterTwo given s = true) :
    ∃ d d' last, s.deployments[0]? = some d ∧ s.deployments[1]? = some d' ∧
      d.returned = some last ∧ last.getValue "mode" = some (.number (.posInt 2)) ∧
      d'.overrides.lookup "mode" = given := by
  rw [givenAfterTwo] at h
  split at h
  · rename_i d d' hdeployments
    obtain ⟨hlast, hgiven⟩ := Bool.and_eq_true_iff.mp h
    obtain ⟨last, hreturned, hvalue⟩ := (Option.any_eq_true _ _).mp hlast
    refine ⟨d, d', last, ?_, ?_, hreturned, of_decide_eq_true hvalue, of_decide_eq_true hgiven⟩
    · rw [hdeployments]
      rfl
    · rw [hdeployments]
      rfl
  · cases h

/-- An event that is stored before the undeploy restores the value. -/
theorem stored_mode_survives : ∃ (s : PersistedVariables) (d d' : DeployedVariables)
    (last : WorkflowVariables),
    s.deployments[0]? = some d ∧ s.deployments[1]? = some d' ∧ d.returned = some last ∧
      last.getValue "mode" = some (.number (.posInt 2)) ∧
      Restores (declarationOf modeWorkflow.declarations "mode") (d'.overrides.lookup "mode")
        (last.getValue "mode") := by
  have hrun : ((machine (fun _ => "") modeWorkflow).replay
      (fun s a => s.findsRoom a && s.saves (fun _ => "") a) ⟨∅, []⟩
      (writtenOnce [.proxyTake, .proxySend, .take, .stored])).any
        (givenAfterTwo (some (.number (.posInt 2)))) = true := by
    decide
  obtain ⟨s, hs, hgiven⟩ := Machine.exists_reachesUnder_of_replay rfl hrun
  obtain ⟨d, d', last, hd, hd', hlast, hvalue, -⟩ := exists_of_givenAfterTwo hgiven
  exact ⟨s, d, d', last, hd, hd', hlast, hvalue, variables_survive
    (hs.mono fun s a h => Bool.and_eq_true_iff.mp h) hd hd' hlast "mode"⟩

/-- The abort finds the event in the channel: it is not stored, and the next deployment has the
declared value again. -/
theorem undeploy_loses_mode : ∃ (s : PersistedVariables) (d d' : DeployedVariables)
    (last : WorkflowVariables),
    (machine (fun _ => "") modeWorkflow).ReachesUnder (fun s a => s.findsRoom a = true) s ∧
      s.deployments[0]? = some d ∧ s.deployments[1]? = some d' ∧ d.returned = some last ∧
      ¬ Restores (declarationOf modeWorkflow.declarations "mode") (d'.overrides.lookup "mode")
        (last.getValue "mode") := by
  have hrun : ((machine (fun _ => "") modeWorkflow).replay (fun s a => s.findsRoom a) ⟨∅, []⟩
      (writtenOnce [])).any (givenAfterTwo none) = true := by
    decide
  obtain ⟨s, hs, hgiven⟩ := Machine.exists_reachesUnder_of_replay rfl hrun
  obtain ⟨d, d', last, hd, hd', hlast, hvalue, hnone⟩ := exists_of_givenAfterTwo hgiven
  refine ⟨s, d, d', last, hs, hd, hd', hlast, ?_⟩
  rw [hvalue, hnone]
  intro h
  obtain ⟨declaration, hdeclared, hsame⟩ := h
  cases hdeclared
  exact absurd hsame (by decide)

end PersistedVariables
end Nazh
