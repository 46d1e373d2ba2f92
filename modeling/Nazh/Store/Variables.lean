import Nazh.Core.VariableEvents

/-!
# Variables in the store

The forwarder of a deployment keeps the values of its variables in the store. The next deployment
of the workflow builds its variables from their declarations and writes the stored values over
them, where they have the declared type.
-/

namespace Nazh

open Lib

/-- A row of the table of variables, without the workflow's id and the key. -/
structure StoredVariable where
  value : Value
  varType : String
  initial : Value
  updatedAt : String
  updatedBy : Option String
  deriving DecidableEq

/-- The rows of one workflow. -/
abbrev VariableRows := AList fun _ : String => StoredVariable

namespace VariableRows

def upsertVariable (rows : VariableRows) (key : String) (value : Value) (varType : String)
    (initial : Value) (updatedAt : String) (updatedBy : Option String) : VariableRows :=
  rows.insert key ⟨value, varType, initial, updatedAt, updatedBy⟩

def deleteVariable (rows : VariableRows) (key : String) : VariableRows := rows.erase key

/-- `load_persisted_variable_overrides`: the values of `load_variables`, by key. -/
def loadPersistedVariableOverrides (rows : VariableRows) : AList fun _ : String => Value :=
  ⟨rows.entries.map fun row => ⟨row.1, row.2.value⟩, rows.nodupKeys.map₂ fun _ => StoredVariable.value⟩

/-- What the forwarder does to the rows with an event. -/
def persist (rows : VariableRows) : WorkflowVariableEvent → VariableRows
  | .changed _ name value updatedAt updatedBy =>
      rows.upsertVariable name value "Any" value updatedAt updatedBy
  | .deleted _ name => rows.deleteVariable name

/-- The stored value of a variable. -/
def valueOf (rows : VariableRows) (name : String) : Option Value :=
  (rows.lookup name).map StoredVariable.value

theorem lookup_overrides (rows : VariableRows) (name : String) :
    rows.loadPersistedVariableOverrides.lookup name = rows.valueOf name :=
  List.dlookup_map₂ (f := fun _ => StoredVariable.value) name

/-- An event is stored as it says. -/
theorem valueOf_persist (rows : VariableRows) (event : WorkflowVariableEvent) (name : String) :
    (rows.persist event).valueOf name =
      replay WorkflowVariableEvent.name WorkflowVariableEvent.present name (rows.valueOf name)
        [event] := by
  rw [replay_singleton]
  cases event with
  | changed workflowId key value updatedAt updatedBy =>
      by_cases hname : key = name
      · subst hname
        simp [persist, upsertVariable, valueOf, WorkflowVariableEvent.name,
          WorkflowVariableEvent.present]
      · simp [persist, upsertVariable, valueOf, WorkflowVariableEvent.name, hname,
          AList.lookup_insert_ne (Ne.symm hname)]
  | deleted workflowId key =>
      by_cases hname : key = name
      · subst hname
        simp [persist, deleteVariable, valueOf, WorkflowVariableEvent.name,
          WorkflowVariableEvent.present]
      · simp [persist, deleteVariable, valueOf, WorkflowVariableEvent.name, hname,
          AList.lookup_erase_ne (Ne.symm hname)]

end VariableRows

/-! ## What a deployment restores -/

/-- A stored value, if there is one and it has the type. -/
def PinType.admitted (variableType : PinType) (stored : Option Value) : Option Value :=
  stored.filter variableType.matchesValue

@[simp] theorem PinType.admitted_none (variableType : PinType) :
    variableType.admitted none = none := rfl

theorem PinType.admitted_some (variableType : PinType) (value : Value) :
    variableType.admitted (some value) =
      if variableType.matchesValue value then some value else none := rfl

namespace WorkflowVariables

/-- The type and the value of a variable. -/
def holding (vars : WorkflowVariables) (name : String) : Option (PinType × Value) :=
  (vars.inner.lookup name).map fun entry => (entry.variableType, entry.value)

/-- A stored value is written, unless the variable is not declared or the value has not its
type. -/
def restoreValue (vars : WorkflowVariables) (key : String) (value : Value) (now : ℤ) :
    WorkflowVariables :=
  if (vars.inner.lookup key).isSome then
    match vars.set key value (some "restore") now with
    | .ok vars => vars
    | .error _ => vars
  else vars

/-- The loop of `deploy_workflow_and_restore_variables` over the stored values. -/
def restore (vars : WorkflowVariables) (overrides : AList fun _ : String => Value) (now : ℤ) :
    WorkflowVariables :=
  overrides.entries.foldl (fun vars stored => vars.restoreValue stored.1 stored.2 now) vars

variable {vars vars' : WorkflowVariables} {name : String} {now : ℤ}

theorem getValue_eq_holding : vars.getValue name = (vars.holding name).map Prod.snd := by
  rw [getValue, holding, Option.map_map]
  rfl

/-- One stored value. -/
theorem holding_restoreValue (vars : WorkflowVariables) (key : String) (value : Value) (now : ℤ)
    (name : String) :
    (vars.restoreValue key value now).holding name = (vars.holding name).map fun held =>
      (held.1, (held.1.admitted (if key = name then some value else none)).getD held.2) := by
  cases hkey : vars.inner.lookup key with
  | none =>
      have hsame : vars.restoreValue key value now = vars := by simp [restoreValue, hkey]
      rw [hsame]
      by_cases hname : key = name
      · subst hname
        simp [holding, hkey]
      · simp [hname]
  | some entry =>
      by_cases htype : entry.variableType.matchesValue value = true
      · have hset : vars.restoreValue key value now = ⟨vars.inner.insert key
            { entry with value, updatedAt := now, updatedBy := some "restore" }⟩ := by
          simp [restoreValue, set, hkey, htype]
        rw [hset]
        by_cases hname : key = name
        · subst hname
          simp [holding, hkey, PinType.admitted_some, htype]
        · simp only [holding, AList.lookup_insert_ne (Ne.symm hname), if_neg hname,
            PinType.admitted_none, Option.getD_none, Option.map_id']
      · have hsame : vars.restoreValue key value now = vars := by
          simp [restoreValue, set, hkey, htype]
        rw [hsame]
        by_cases hname : key = name
        · subst hname
          simp [holding, hkey, PinType.admitted_some, htype]
        · simp [hname]

/-- All of them: each variable is written once at most. -/
theorem holding_restore (vars : WorkflowVariables) (overrides : AList fun _ : String => Value)
    (now : ℤ) (name : String) :
    (vars.restore overrides now).holding name = (vars.holding name).map fun held =>
      (held.1, (held.1.admitted (overrides.lookup name)).getD held.2) := by
  obtain ⟨entries, hnodup⟩ := overrides
  show (entries.foldl _ vars).holding name = (vars.holding name).map fun held =>
    (held.1, (held.1.admitted (entries.dlookup name)).getD held.2)
  induction entries generalizing vars with
  | nil => simp
  | cons stored entries ih =>
      obtain ⟨hfresh, hrest⟩ := List.nodupKeys_cons.mp hnodup
      rw [List.foldl_cons, ih _ hrest, holding_restoreValue, Option.map_map]
      congr 1
      funext held
      by_cases hname : stored.1 = name
      · subst hname
        have hnone : entries.dlookup stored.1 = none := List.dlookup_eq_none.mpr hfresh
        have hhead : (stored :: entries).dlookup stored.1 = some stored.2 :=
          List.dlookup_cons_eq _ _ _
        simp [hnone, hhead]
      · simp [hname, List.dlookup_cons_ne _ _ (Ne.symm hname)]

/-- What the declarations give. -/
theorem holding_fromDeclarations {declarations : AList fun _ : String => VariableDeclaration}
    (h : fromDeclarations declarations now = .ok vars) :
    vars.holding name =
      (declarations.lookup name).map fun declared => (declared.variableType, declared.initial) := by
  rw [holding, lookup_fromDeclarations h, Option.map_map]
  rfl

end WorkflowVariables

/-! ## What was stored gives back what was there -/

/-- The value a declared variable has after the restore. -/
def VariableDeclaration.restored (declared : VariableDeclaration) (stored : Option Value) : Value :=
  (declared.variableType.admitted stored).getD declared.initial

/-- The declaration of a variable. -/
def declarationOf (declarations : Option (AList fun _ : String => VariableDeclaration))
    (name : String) : Option VariableDeclaration :=
  declarations.bind fun map => map.lookup name

/-- The stored value gives back what was there: a variable has its value again, and nothing is
written over the declaration of one that was deleted. -/
def Restores (declared : Option VariableDeclaration) (stored : Option Value) :
    Option Value → Prop
  | none => declared.bind (fun declared => declared.variableType.admitted stored) = none
  | some value => ∃ declaration, declared = some declaration ∧
      (declaration.restored stored).Same value

/-- A changed variable is declared, and its value has the type. -/
def WorkflowVariableEvent.Fits (declarations : Option (AList fun _ : String => VariableDeclaration)) :
    WorkflowVariableEvent → Prop
  | .changed _ name value _ _ => ∃ declaration, declarationOf declarations name = some declaration ∧
      declaration.variableType.matchesValue value = true
  | .deleted _ _ => True

section Restoring

variable {declarations : Option (AList fun _ : String => VariableDeclaration)}
  {vars : WorkflowVariables} {name : String} {now : ℤ} {declared : Option VariableDeclaration}
  {stored present present' : Option Value} {event : WorkflowVariableEvent}

/-- The variables of a new deployment. -/
theorem holding_restored (h : buildWorkflowVariables declarations now = .ok vars)
    (overrides : AList fun _ : String => Value) (later : ℤ) :
    (vars.restore overrides later).holding name = (declarationOf declarations name).map
      fun declared => (declared.variableType, declared.restored (overrides.lookup name)) := by
  rw [WorkflowVariables.holding_restore]
  cases declarations with
  | none =>
      cases h
      rfl
  | some map =>
      rw [WorkflowVariables.holding_fromDeclarations h, Option.map_map]
      rfl

/-- A new deployment has what is restored. -/
theorem restores_restored (h : buildWorkflowVariables declarations now = .ok vars)
    (overrides : AList fun _ : String => Value) (later : ℤ) :
    Restores (declarationOf declarations name) (overrides.lookup name)
      ((vars.restore overrides later).getValue name) := by
  rw [WorkflowVariables.getValue_eq_holding, holding_restored h]
  cases declarationOf declarations name with
  | none => rfl
  | some declaration => exact ⟨declaration, rfl, rfl⟩

/-- It is about what a reader sees. -/
theorem Restores.congr (h : present.map Value.canonical = present'.map Value.canonical)
    (hr : Restores declared stored present) : Restores declared stored present' := by
  cases present with
  | none =>
      have hnone : present' = none := Option.map_eq_none_iff.mp h.symm
      subst hnone
      exact hr
  | some value =>
      obtain ⟨value', rfl, hsame⟩ := Option.map_eq_some_iff.mp h.symm
      obtain ⟨declaration, hdeclared, hrestored⟩ := hr
      exact ⟨declaration, hdeclared, hrestored.trans hsame.symm⟩

/-- The store and the variables stay together over an event. -/
theorem Restores.persist (hr : Restores (declarationOf declarations name) stored present)
    (hfits : event.Fits declarations)
    (hpresent : present'.map Value.canonical =
      VariableCalls.told name (present.map Value.canonical) [event]) :
    Restores (declarationOf declarations name)
      (replay WorkflowVariableEvent.name WorkflowVariableEvent.present name stored [event])
      present' := by
  rw [VariableCalls.told, replay_singleton] at hpresent
  rw [replay_singleton]
  by_cases hname : event.name = name
  · rw [if_pos hname] at hpresent ⊢
    subst hname
    refine Restores.congr hpresent.symm ?_
    cases event with
    | changed workflowId key value updatedAt updatedBy =>
        obtain ⟨declaration, hdeclared, htype⟩ := hfits
        refine ⟨declaration, hdeclared, ?_⟩
        simp [VariableDeclaration.restored, WorkflowVariableEvent.present, PinType.admitted_some, htype,
          Value.Same]
    | deleted workflowId key =>
        show (declarationOf declarations key).bind _ = none
        cases declarationOf declarations key with
        | none => rfl
        | some declaration => rfl
  · rw [if_neg hname] at hpresent ⊢
    exact hr.congr hpresent.symm

end Restoring

end Nazh
