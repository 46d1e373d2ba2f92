import Nazh.Core.VariableEvents

/-!
# Variables keep their types

The value of a variable can be set, set back to the initial value or swapped, and the variable can
be removed. Whatever is called, in whatever order, a variable that is there has the type it was
declared with, and so have its value and its initial value.
-/

namespace Nazh

open Lib

/-- The calls that write variables. -/
inductive VariableCall
  | set (name : String) (value : Value) (updatedBy : Option String) (now : ℤ)
  | reset (name : String) (updatedBy : Option String) (now : ℤ)
  | compareAndSwap (name : String) (expected new : Value) (updatedBy : Option String) (now : ℤ)
  | remove (name : String)

/-- What a call that does not fail returns. -/
inductive VariableAnswer
  | done
  | swapped (b : Bool)
  | removed (entry : Option TypedVariable)

namespace WorkflowVariables

variable (toRfc3339 : ℤ → String) (vars : WorkflowVariables)

/-- `reset`. -/
def reset (name : String) (updatedBy : Option String) (now : ℤ) :
    Except EngineError WorkflowVariables := do
  let initial ← okOr ((vars.inner.lookup name).map TypedVariable.initial) (.unknownVariable name)
  vars.set name initial updatedBy now

/-- A call, with its answer and the variables after it. -/
def call : VariableCall → Except EngineError VariableAnswer × WorkflowVariables
  | .set name value updatedBy now => match vars.set name value updatedBy now with
    | .ok vars' => (.ok .done, vars')
    | .error e => (.error e, vars)
  | .reset name updatedBy now => match vars.reset name updatedBy now with
    | .ok vars' => (.ok .done, vars')
    | .error e => (.error e, vars)
  | .compareAndSwap name expected new updatedBy now =>
      match vars.compareAndSwapLocked toRfc3339 name expected new updatedBy now with
      | .ok ((vars', _), b) => (.ok (.swapped b), vars')
      | .error e => (.error e, vars)
  | .remove name =>
      let ((vars', _), removed) := vars.removeLocked name
      (.ok (.removed removed), vars')

/-- The variables after some calls. -/
def afterCalls (calls : List VariableCall) : WorkflowVariables :=
  calls.foldl (fun vars c => (vars.call toRfc3339 c).2) vars

/-- Each variable is as it was declared, and its value and its initial value have its type. -/
structure TypedAs (declarations : AList fun _ : String => VariableDeclaration) : Prop where
  value : ∀ name entry, vars.inner.lookup name = some entry →
    entry.variableType.matchesValue entry.value = true
  initial : ∀ name entry, vars.inner.lookup name = some entry →
    entry.variableType.matchesValue entry.initial = true
  declared : ∀ name entry, vars.inner.lookup name = some entry →
    declarations.lookup name = some ⟨entry.variableType, entry.initial⟩

/-- The variables have their types. A call that fails changes nothing, a variable that is there is set
back by a reset, and no call makes a variable. -/
structure KeepsTypes (declarations : AList fun _ : String => VariableDeclaration) : Prop where
  typed : vars.TypedAs declarations
  failed : ∀ c e, (vars.call toRfc3339 c).1 = .error e → (vars.call toRfc3339 c).2 = vars
  reset : ∀ name entry updatedBy now, vars.inner.lookup name = some entry →
    (vars.call toRfc3339 (.reset name updatedBy now)).1 = .ok .done ∧
      (vars.call toRfc3339 (.reset name updatedBy now)).2.getValue name = some entry.initial
  made : ∀ c name, name ∈ (vars.call toRfc3339 c).2.inner → name ∈ vars.inner

/-- What one call does: it fails and changes nothing, or it writes one variable that is there a value
of its type, or it takes variables away. -/
inductive Effect (vars' : WorkflowVariables) : Prop
  | same (h : vars' = vars)
  | wrote (name : String) (entry entry' : TypedVariable) (hentry : vars.inner.lookup name = some entry)
      (htype : entry'.variableType = entry.variableType) (hinitial : entry'.initial = entry.initial)
      (hvalue : entry.variableType.matchesValue entry'.value = true)
      (h : vars' = ⟨vars.inner.insert name entry'⟩)
  | erased (name : String) (h : vars' = ⟨vars.inner.erase name⟩)

variable {toRfc3339 vars} {declarations : AList fun _ : String => VariableDeclaration}
  {vars' : WorkflowVariables} {name : String} {entry : TypedVariable} {now : ℤ}
  {updatedBy : Option String}

theorem set_effect {value : Value} (h : vars.set name value updatedBy now = .ok vars') :
    Effect vars vars' := by
  unfold set at h
  split at h
  · cases h
  · rename_i entry hentry
    split at h
    · rename_i hvalue
      cases h
      exact .wrote name entry { entry with value, updatedAt := now, updatedBy } hentry rfl rfl hvalue
        rfl
    · cases h

theorem call_effect (c : VariableCall) : Effect vars (vars.call toRfc3339 c).2 := by
  cases c with
  | set name value updatedBy now =>
      rw [call]
      cases h : vars.set name value updatedBy now with
      | ok vars' => exact set_effect h
      | error e => exact .same rfl
  | reset name updatedBy now =>
      rw [call]
      cases h : vars.reset name updatedBy now with
      | ok vars' =>
          obtain ⟨initial, -, hset⟩ := bind_eq_ok.mp h
          exact set_effect hset
      | error e => exact .same rfl
  | compareAndSwap name expected new updatedBy now =>
      rw [call, compareAndSwapLocked]
      split
      · rename_i h
        split at h
        · cases h
        · rename_i entry hentry
          split at h
          · rename_i hvalue
            split at h
            · cases h
              exact .wrote name entry (entry.write toRfc3339 name new updatedBy now).1 hentry rfl rfl
                hvalue rfl
            · cases h
              exact .same rfl
          · cases h
      · exact .same rfl
  | remove name =>
      cases hlookup : vars.inner.lookup name with
      | none =>
          simp only [call, removeLocked, hlookup]
          exact .same rfl
      | some removed =>
          simp only [call, removeLocked, hlookup]
          exact .erased name rfl

/-- A call that fails changes nothing. -/
theorem call_of_error {c : VariableCall} {e : EngineError}
    (h : (vars.call toRfc3339 c).1 = .error e) : (vars.call toRfc3339 c).2 = vars := by
  cases c with
  | set name value updatedBy now =>
      rw [call] at h ⊢
      split at h
      · cases h
      · rfl
  | reset name updatedBy now =>
      rw [call] at h ⊢
      split at h
      · cases h
      · rfl
  | compareAndSwap name expected new updatedBy now =>
      rw [call] at h ⊢
      split at h
      · cases h
      · rfl
  | remove name => cases h

theorem TypedAs.effect (h : vars.TypedAs declarations) (heffect : Effect vars vars') :
    vars'.TypedAs declarations := by
  cases heffect with
  | same heq => exact heq ▸ h
  | wrote written entry entry' hentry htype hinitial hvalue heq =>
      subst heq
      have hcases : ∀ name found, (vars.inner.insert written entry').lookup name = some found →
          name = written ∧ found = entry' ∨ vars.inner.lookup name = some found := by
        intro name found hfound
        by_cases hname : name = written
        · subst hname
          rw [AList.lookup_insert] at hfound
          exact .inl ⟨rfl, (Option.some.inj hfound).symm⟩
        · rw [AList.lookup_insert_ne hname] at hfound
          exact .inr hfound
      constructor
      · intro name found hfound
        rcases hcases name found hfound with ⟨-, rfl⟩ | hold
        · exact htype ▸ hvalue
        · exact h.value name found hold
      · intro name found hfound
        rcases hcases name found hfound with ⟨-, rfl⟩ | hold
        · rw [htype, hinitial]
          exact h.initial written entry hentry
        · exact h.initial name found hold
      · intro name found hfound
        rcases hcases name found hfound with ⟨rfl, rfl⟩ | hold
        · rw [htype, hinitial]
          exact h.declared name entry hentry
        · exact h.declared name found hold
  | erased removed heq =>
      subst heq
      have hold : ∀ name found, (vars.inner.erase removed).lookup name = some found →
          vars.inner.lookup name = some found := by
        intro name found hfound
        by_cases hname : name = removed
        · subst hname
          rw [AList.lookup_erase] at hfound
          cases hfound
        · rwa [AList.lookup_erase_ne hname] at hfound
      exact ⟨fun name found hfound => h.value name found (hold name found hfound),
        fun name found hfound => h.initial name found (hold name found hfound),
        fun name found hfound => h.declared name found (hold name found hfound)⟩

theorem TypedAs.of_fromDeclarations (h : fromDeclarations declarations now = .ok vars) :
    vars.TypedAs declarations := by
  have hentry : ∀ name entry, vars.inner.lookup name = some entry →
      ∃ declared, declarations.lookup name = some declared ∧
        entry = ⟨declared.initial, declared.variableType, declared.initial, now, none⟩ := by
    intro name entry hfound
    rw [lookup_fromDeclarations h] at hfound
    obtain ⟨declared, hdeclared, rfl⟩ := Option.map_eq_some_iff.mp hfound
    exact ⟨declared, hdeclared, rfl⟩
  constructor
  · intro name entry hfound
    obtain ⟨declared, hdeclared, rfl⟩ := hentry name entry hfound
    exact matchesValue_of_fromDeclarations h hdeclared
  · intro name entry hfound
    obtain ⟨declared, hdeclared, rfl⟩ := hentry name entry hfound
    exact matchesValue_of_fromDeclarations h hdeclared
  · intro name entry hfound
    obtain ⟨declared, hdeclared, rfl⟩ := hentry name entry hfound
    exact hdeclared

theorem TypedAs.afterCalls (h : vars.TypedAs declarations) (calls : List VariableCall) :
    (vars.afterCalls toRfc3339 calls).TypedAs declarations := by
  induction calls generalizing vars with
  | nil => exact h
  | cons c calls ih => exact ih (h.effect (call_effect c))

/-- A variable that is there is set back to its initial value. -/
theorem TypedAs.reset (h : vars.TypedAs declarations) (hentry : vars.inner.lookup name = some entry)
    (updatedBy : Option String) (now : ℤ) :
    (vars.call toRfc3339 (.reset name updatedBy now)).1 = .ok .done ∧
      (vars.call toRfc3339 (.reset name updatedBy now)).2.getValue name = some entry.initial := by
  have hset : vars.set name entry.initial updatedBy now = .ok ⟨vars.inner.insert name
      { entry with value := entry.initial, updatedAt := now, updatedBy }⟩ := by
    simp only [set, hentry, h.initial name entry hentry, if_true]
  have hreset : vars.reset name updatedBy now = .ok ⟨vars.inner.insert name
      { entry with value := entry.initial, updatedAt := now, updatedBy }⟩ := by
    rw [WorkflowVariables.reset, hentry]
    exact hset
  rw [call, hreset]
  refine ⟨rfl, ?_⟩
  rw [getValue, AList.lookup_insert]
  rfl

/-- No call makes a variable. -/
theorem mem_of_effect (heffect : Effect vars vars') (h : name ∈ vars'.inner) : name ∈ vars.inner := by
  cases heffect with
  | same heq => exact heq ▸ h
  | wrote written entry entry' hentry htype hinitial hvalue heq =>
      subst heq
      rcases (AList.mem_insert _).mp h with rfl | h
      · exact AList.lookup_isSome.mp (hentry ▸ rfl)
      · exact h
  | erased removed heq =>
      subst heq
      exact (AList.mem_erase.mp h).2

/-- After any calls the variables keep their types. -/
theorem keepsTypes_afterCalls (hstart : fromDeclarations declarations now = .ok vars)
    (calls : List VariableCall) :
    (vars.afterCalls toRfc3339 calls).KeepsTypes toRfc3339 declarations where
  typed := (TypedAs.of_fromDeclarations hstart).afterCalls calls
  failed _ _ := call_of_error
  reset _ _ updatedBy now hentry :=
    ((TypedAs.of_fromDeclarations hstart).afterCalls calls).reset hentry updatedBy now
  made _ _ := mem_of_effect (call_effect _)

/-- Two speeds, as a list of integers. -/
def speedDeclarations : AList fun _ : String => VariableDeclaration :=
  (∅ : AList _).insert "speeds"
    ⟨.array .integer, .array [.number (.ofNat 1), .number (.ofNat 2)]⟩

theorem speeds_keepTypes : ∃ vars, fromDeclarations speedDeclarations 0 = .ok vars ∧
    (vars.afterCalls toString [.set "speeds" (.array [.bool true]) none 1, .reset "speeds" none 2,
      .compareAndSwap "speeds" .null (.array []) none 3]).KeepsTypes toString speedDeclarations :=
  ⟨_, rfl, keepsTypes_afterCalls rfl _⟩

end WorkflowVariables
end Nazh
