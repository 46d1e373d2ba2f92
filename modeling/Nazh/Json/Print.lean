import Nazh.Json.Value

/-!
# JSON as text

The compact text of a JSON value. How a binary64 is written is a parameter: the library
writes the shortest digits that read back as the number.
-/

namespace Nazh

/-- The digits of `{:x}` for one byte below 16. -/
def lowerHex (n : ℕ) : Char := if n < 10 then Char.ofNat (48 + n) else Char.ofNat (87 + n)

/-- A character of a string, escaped where it must be. -/
def escapeJsonChar (c : Char) : List Char :=
  match c.toNat with
  | 0x22 => ['\\', c]
  | 0x5C => ['\\', c]
  | 0x08 => ['\\', 'b']
  | 0x09 => ['\\', 't']
  | 0x0A => ['\\', 'n']
  | 0x0C => ['\\', 'f']
  | 0x0D => ['\\', 'r']
  | n => if n < 0x20 then ['\\', 'u', '0', '0', lowerHex (n / 16), lowerHex (n % 16)] else [c]

/-- A string in its quotes. -/
def jsonString (s : String) : String :=
  "\"" ++ String.ofList (s.toList.flatMap escapeJsonChar) ++ "\""

section Print

variable (showF64 : UInt64 → String)

/-- `Number::to_string`. -/
def Number.toText : Number → String
  | posInt n => toString n.toNat
  | negInt i => toString i
  | float bits => showF64 bits

namespace Value

mutual

/-- `Value::to_string`. -/
def toText : Value → String
  | .null => "null"
  | .bool b => toString b
  | .number n => n.toText showF64
  | .string s => jsonString s
  | .array items => "[" ++ ",".intercalate (itemTexts items) ++ "]"
  | .object fields => "\x7b" ++ ",".intercalate (fieldTexts fields) ++ "\x7d"

def itemTexts : List Value → List String
  | [] => []
  | v :: vs => toText v :: itemTexts vs

def fieldTexts : List (String × Value) → List String
  | [] => []
  | (k, v) :: fields => (jsonString k ++ ":" ++ toText v) :: fieldTexts fields

end

end Value
end Print

example : (Value.object [("a", .array [.null, .number (.posInt 7)]), ("b", .string "x\"\n")]).toText
    (fun _ => "") = "\x7b\"a\":[null,7],\"b\":\"x\\\"\\n\"\x7d" := by decide

end Nazh
