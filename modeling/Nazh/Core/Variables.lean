import Mathlib.Data.List.AList
import Nazh.Core.Error
import Nazh.Lib.Except

/-!
# Workflow variables

A deployment shares variables between its nodes. Each has a declared type, and a
write is refused when the variable was not declared or the value has not its type.
-/

namespace Nazh

open Lib

namespace PinType

/-- `pin_type_matches_value`. A custom type matches nothing. -/
def matchesValue : PinType → Value → Bool
  | any, _ | bool, .bool _ | float, .number _ | string, .string _ | binary, .string _
  | json, .object _ | json, .array _ => true
  | integer, .number n => n.isI64 || n.isU64
  | binary, .array items => items.all fun v => v.asU64.any fun n => n.toNat < 256
  | array inner, .array items => items.all inner.matchesValue
  | _, _ => false

end PinType

/-- `json_value_label`. -/
def jsonValueLabel : Value → String
  | .null => "null"
  | .bool _ => "bool"
  | .number n => if n.isI64 || n.isU64 then "integer" else "float"
  | .string _ => "string"
  | .array _ => "array"
  | .object _ => "object"

/-- How a variable is declared. -/
structure VariableDeclaration where
  variableType : PinType
  initial : Value
  deriving DecidableEq

/-- A declared variable and its present value. -/
structure TypedVariable where
  value : Value
  variableType : PinType
  initial : Value
  updatedAt : ℤ
  updatedBy : Option String
  deriving DecidableEq

/-- The variables of a deployment. -/
structure WorkflowVariables where
  inner : AList fun _ : String => TypedVariable

namespace WorkflowVariables

def empty : WorkflowVariables := ⟨∅⟩

/-- The variables as they are declared, if every initial value has its type. -/
def fromDeclarations (declarations : AList fun _ : String => VariableDeclaration) (now : ℤ) :
    Except EngineError WorkflowVariables := do
  declarations.entries.forM fun e =>
    ensure (e.2.variableType.matchesValue e.2.initial)
      (.variableInitialMismatch e.1 e.2.variableType.label (jsonValueLabel e.2.initial))
  return ⟨declarations.entries.foldr (fun e inner =>
    inner.insert e.1 ⟨e.2.initial, e.2.variableType, e.2.initial, now, none⟩) ∅⟩

/-- Entries that are inserted one after the other are looked up where they were. -/
theorem lookup_foldr_insert {α β : Type} (f : α → β) (entries : List (Σ _ : String, α))
    (name : String) :
    (entries.foldr (fun entry (inner : AList fun _ : String => β) =>
      inner.insert entry.1 (f entry.2)) ∅).lookup name = (entries.dlookup name).map f := by
  induction entries with
  | nil => rfl
  | cons entry entries ih =>
      rw [List.foldr_cons]
      by_cases hname : entry.1 = name
      · subst hname
        rw [AList.lookup_insert, List.dlookup_cons_eq]
        rfl
      · rw [AList.lookup_insert_ne (Ne.symm hname), List.dlookup_cons_ne _ _ (Ne.symm hname)]
        exact ih

/-- The variables that are declared, with their initial values. -/
theorem lookup_fromDeclarations {declarations : AList fun _ : String => VariableDeclaration}
    {now : ℤ} {vars : WorkflowVariables} {name : String}
    (h : fromDeclarations declarations now = .ok vars) :
    vars.inner.lookup name = (declarations.lookup name).map fun declared =>
      ⟨declared.initial, declared.variableType, declared.initial, now, none⟩ := by
  obtain ⟨-, -, hvars⟩ := bind_eq_ok.mp h
  cases hvars
  exact lookup_foldr_insert (fun declared : VariableDeclaration =>
    (⟨declared.initial, declared.variableType, declared.initial, now, none⟩ : TypedVariable))
    declarations.entries name

/-- The initial values have their types. -/
theorem matchesValue_of_fromDeclarations
    {declarations : AList fun _ : String => VariableDeclaration} {now : ℤ}
    {vars : WorkflowVariables} (h : fromDeclarations declarations now = .ok vars) {name : String}
    {declared : VariableDeclaration} (hdeclared : declarations.lookup name = some declared) :
    declared.variableType.matchesValue declared.initial = true := by
  obtain ⟨⟨⟩, hchecked, -⟩ := bind_eq_ok.mp h
  exact ensure_eq_ok.mp (forM_eq_ok.mp hchecked ⟨name, declared⟩
    (AList.mem_lookup_iff.mp hdeclared))

def getValue (vars : WorkflowVariables) (name : String) : Option Value :=
  (vars.inner.lookup name).map TypedVariable.value

/-- Write a declared variable, if the value has its type. -/
def set (vars : WorkflowVariables) (name : String) (value : Value) (updatedBy : Option String)
    (now : ℤ) : Except EngineError WorkflowVariables :=
  match vars.inner.lookup name with
  | none => .error (.unknownVariable name)
  | some entry =>
      if entry.variableType.matchesValue value then
        .ok ⟨vars.inner.insert name { entry with value, updatedAt := now, updatedBy }⟩
      else
        .error (.variableTypeMismatch name entry.variableType.label (jsonValueLabel value))

variable {vars vars' : WorkflowVariables} {name : String} {value : Value}
  {updatedBy : Option String} {now : ℤ}

end WorkflowVariables

/-- `build_workflow_variables`: a graph may declare no variables at all. -/
def buildWorkflowVariables (declarations : Option (AList fun _ : String => VariableDeclaration))
    (now : ℤ) : Except EngineError WorkflowVariables :=
  match declarations with
  | none => .ok .empty
  | some map => WorkflowVariables.fromDeclarations map now

end Nazh
