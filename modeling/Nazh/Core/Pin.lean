import Nazh.Json.Value

/-!
# Pins

A node declares its input and output pins. A pin has a shape of data (`PinType`) and a
way of evaluation (`PinKind`): an execution pin is pushed, a data pin is pulled, and a
reactive pin is both. An edge is allowed where the two pins are compatible in both.
-/

namespace Nazh

inductive PinDirection
  | input
  | output
  deriving DecidableEq, Repr

/-- What a direction displays. -/
def PinDirection.label : PinDirection → String
  | input => "输入"
  | output => "输出"

/-- How a pin is evaluated: pushed, pulled, or both. -/
inductive PinKind
  | exec
  | data
  | reactive
  deriving DecidableEq, Repr

namespace PinKind

/-- What a kind displays. -/
def label : PinKind → String
  | exec => "exec"
  | data => "data"
  | reactive => "reactive"

/-- Whether an edge may lead from a pin of one kind to a pin of another. -/
def isCompatibleWith : PinKind → PinKind → Bool
  | exec, exec | data, data | reactive, reactive | reactive, exec | reactive, data => true
  | exec, reactive | data, reactive | exec, data | data, exec => false

/-- What an execution pin feeds is an execution pin. -/
theorem eq_exec_of_exec {kind : PinKind} (h : exec.isCompatibleWith kind = true) : kind = exec := by
  cases kind with
  | exec => rfl
  | data => cases h
  | reactive => cases h

end PinKind

/-- The shape of the data of a pin or a variable. -/
inductive PinType
  | any
  | bool
  | integer
  | float
  | string
  | json
  | binary
  | array (inner : PinType)
  | custom (name : String)
  deriving DecidableEq, Repr

/-- A text as `{:?}` writes it. -/
def debugString (s : String) : String :=
  let escaped := s.toList.map fun c =>
    if c = '"' then "\\\"" else if c = '\\' then "\\\\" else if c = '\n' then "\\n"
    else if c = '\r' then "\\r" else if c = '\t' then "\\t" else c.toString
  "\"" ++ String.join escaped ++ "\""

namespace PinType

/-- The label a type displays. -/
def label : PinType → String
  | any => "any"
  | bool => "bool"
  | integer => "integer"
  | float => "float"
  | string => "string"
  | json => "json"
  | binary => "binary"
  | array _ => "array"
  | custom _ => "custom"

/-- A type as `{:?}` writes it. -/
def debug : PinType → String
  | any => "Any"
  | bool => "Bool"
  | integer => "Integer"
  | float => "Float"
  | string => "String"
  | json => "Json"
  | binary => "Binary"
  | array inner => "Array \x7b inner: " ++ inner.debug ++ " \x7d"
  | custom name => "Custom \x7b name: " ++ debugString name ++ " \x7d"

/-- Whether an edge may lead from a pin of one type to a pin of another. -/
def isCompatibleWith : PinType → PinType → Bool
  | any, _ | _, any => true
  | bool, bool | integer, integer | float, float | string, string | json, json
  | binary, binary => true
  | array a, array b => a.isCompatibleWith b
  | custom a, custom b => a == b
  | _, _ => false

end PinType

/-- What a data input does while there is no value for it. -/
inductive EmptyPolicy
  | blockUntilReady
  | defaultValue (v : Value)
  | skip
  deriving DecidableEq, Repr

/-- How long a data input waits if it does not say. -/
def defaultBlockTimeoutMs : ℕ := 5000

/-- A declared pin. -/
structure PinDefinition where
  id : String
  label : String
  pinType : PinType
  direction : PinDirection
  required : Bool
  kind : PinKind
  emptyPolicy : EmptyPolicy
  blockTimeoutMs : Option ℕ
  ttlMs : Option ℕ
  deriving DecidableEq, Repr

namespace PinDefinition

def defaultInput : PinDefinition where
  id := "in"
  label := "in"
  pinType := .any
  direction := .input
  required := true
  kind := .exec
  emptyPolicy := .blockUntilReady
  blockTimeoutMs := none
  ttlMs := none

def defaultOutput : PinDefinition where
  id := "out"
  label := "out"
  pinType := .any
  direction := .output
  required := false
  kind := .exec
  emptyPolicy := .blockUntilReady
  blockTimeoutMs := none
  ttlMs := none

/-- A factory for further data outputs. -/
def outputNamedData (id label : String) (pinType : PinType) : PinDefinition where
  id := id
  label := label
  pinType := pinType
  direction := .output
  required := false
  kind := .data
  emptyPolicy := .blockUntilReady
  blockTimeoutMs := none
  ttlMs := none

end PinDefinition
end Nazh
