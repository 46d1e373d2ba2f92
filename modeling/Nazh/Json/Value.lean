import Mathlib.Data.Int.Notation
import Mathlib.Data.Nat.Notation
import Mathlib.Tactic.Common
import Nazh.Lib.Binary

/-!
# JSON values

The values of `serde_json`: a number is a nonnegative 64-bit integer, a negative
one, or a binary64 bit pattern; an object is its list of fields. `insert` keeps
the fields of an object in key order, as the map type of the library does, so
that objects built by insertion are equal exactly when their fields are.

Deserialization follows the derive attributes: a field is required, has a
default, or is an `Option`; fields the type does not declare are ignored.
-/

namespace Nazh

/-- A JSON number. -/
inductive Number
  /-- A nonnegative integer. -/
  | posInt (n : UInt64)
  /-- A negative integer. -/
  | negInt (i : ℤ)
  /-- A finite binary64, by its bits. -/
  | float (bits : UInt64)
  deriving DecidableEq, Repr

namespace Number

/-- `Number::from` on a signed integer. -/
def ofInt (i : ℤ) : Number := if i < 0 then negInt i else posInt (UInt64.ofNat i.toNat)

/-- `Number::from` on an unsigned integer. -/
def ofNat (n : ℕ) : Number := posInt (UInt64.ofNat n)

/-- Integers of 64 bits are different numbers. -/
theorem ofInt_injective {i j : ℤ} (hi : -2 ^ 63 ≤ i ∧ i < 2 ^ 63)
    (hj : -2 ^ 63 ≤ j ∧ j < 2 ^ 63) (h : ofInt i = ofInt j) : i = j := by
  rw [ofInt, ofInt] at h
  split at h
  · split at h
    · exact negInt.inj h
    · cases h
  · split at h
    · cases h
    · have hnat := congrArg UInt64.toNat (posInt.inj h)
      rw [UInt64.toNat_ofNat', UInt64.toNat_ofNat', Nat.mod_eq_of_lt, Nat.mod_eq_of_lt] at hnat
      · omega
      · omega
      · omega

theorem ofNat_injective {n m : ℕ} (hn : n < 2 ^ 64) (hm : m < 2 ^ 64)
    (h : ofNat n = ofNat m) : n = m := by
  have hnat := congrArg UInt64.toNat (posInt.inj h)
  rwa [UInt64.toNat_ofNat', UInt64.toNat_ofNat', Nat.mod_eq_of_lt hn, Nat.mod_eq_of_lt hm] at hnat

def isI64 : Number → Bool
  | posInt n => n.toNat < 2 ^ 63
  | negInt _ => true
  | float _ => false

def isU64 : Number → Bool
  | posInt _ => true
  | _ => false

/-- `as_f64`. -/
def asF64 : Number → UInt64
  | posInt n => Lib.roundNat64 n.toNat
  | negInt i => Lib.roundInt64 i
  | float bits => bits

end Number

/-- A JSON value. -/
inductive Value
  | null
  | bool (b : Bool)
  | number (n : Number)
  | string (s : String)
  | array (items : List Value)
  | object (fields : List (String × Value))
  deriving Repr, Inhabited

/-- The fields of an object. -/
abbrev Fields := List (String × Value)

namespace Value

mutual

/-- Equality of values is decided along their structure. -/
def decEq : (a b : Value) → Decidable (a = b)
  | .null, .null => isTrue rfl
  | .bool a, .bool b => decidable_of_iff (a = b) (by simp)
  | .number a, .number b => decidable_of_iff (a = b) (by simp)
  | .string a, .string b => decidable_of_iff (a = b) (by simp)
  | .array a, .array b => match decEqItems a b with
    | isTrue h => isTrue (by rw [h])
    | isFalse h => isFalse (by simpa using h)
  | .object a, .object b => match decEqFields a b with
    | isTrue h => isTrue (by rw [h])
    | isFalse h => isFalse (by simpa using h)
  | .null, .bool _ | .null, .number _ | .null, .string _ | .null, .array _ | .null, .object _
  | .bool _, .null | .bool _, .number _ | .bool _, .string _ | .bool _, .array _
  | .bool _, .object _
  | .number _, .null | .number _, .bool _ | .number _, .string _ | .number _, .array _
  | .number _, .object _
  | .string _, .null | .string _, .bool _ | .string _, .number _ | .string _, .array _
  | .string _, .object _
  | .array _, .null | .array _, .bool _ | .array _, .number _ | .array _, .string _
  | .array _, .object _
  | .object _, .null | .object _, .bool _ | .object _, .number _ | .object _, .string _
  | .object _, .array _ => isFalse (by simp)

def decEqItems : (a b : List Value) → Decidable (a = b)
  | [], [] => isTrue rfl
  | [], _ :: _ | _ :: _, [] => isFalse (by simp)
  | a :: as, b :: bs => match decEq a b, decEqItems as bs with
    | isTrue h, isTrue hs => isTrue (by rw [h, hs])
    | isFalse h, _ => isFalse (by simp [h])
    | _, isFalse h => isFalse (by simp [h])

def decEqFields : (a b : List (String × Value)) → Decidable (a = b)
  | [], [] => isTrue rfl
  | [], _ :: _ | _ :: _, [] => isFalse (by simp)
  | (k, a) :: as, (l, b) :: bs =>
    match instDecidableEqString k l, decEq a b, decEqFields as bs with
    | isTrue hk, isTrue h, isTrue hs => isTrue (by rw [hk, h, hs])
    | isFalse h, _, _ => isFalse (by simp [h])
    | _, isFalse h, _ => isFalse (by simp [h])
    | _, _, isFalse h => isFalse (by simp [h])

end

instance : DecidableEq Value := decEq

mutual

/-- The value with one zero for two: what `PartialEq` cannot tell apart. -/
def canonical : Value → Value
  | .number (.float bits) => .number (.float (if bits = 0x8000000000000000 then 0 else bits))
  | .array items => .array (canonicalItems items)
  | .object fields => .object (canonicalFields fields)
  | v => v

def canonicalItems : List Value → List Value
  | [] => []
  | v :: vs => canonical v :: canonicalItems vs

def canonicalFields : List (String × Value) → List (String × Value)
  | [] => []
  | (k, v) :: fields => (k, canonical v) :: canonicalFields fields

end

/-- `PartialEq`: numbers that are zeros are equal. -/
def Same (a b : Value) : Prop := a.canonical = b.canonical

instance (a b : Value) : Decidable (a.Same b) := decEq _ _

/-- `Number::from_f64` on a binary64: what is not finite has no JSON number. -/
def ofF64 (bits : UInt64) : Value :=
  if Lib.isFinite64 bits then .number (.float bits) else .null

/-- `Value::as_object`. -/
def asObject : Value → Option Fields
  | .object fields => some fields
  | _ => none

/-- `Value::get` with a string index. -/
def get (v : Value) (key : String) : Option Value := v.asObject.bind fun fields => fields.lookup key

def asU64 : Value → Option UInt64
  | .number (.posInt n) => some n
  | _ => none

def asF64 : Value → Option UInt64
  | .number n => some n.asF64
  | _ => none

def asStr : Value → Option String
  | .string s => some s
  | _ => none

def asBool : Value → Option Bool
  | .bool b => some b
  | _ => none

end Value

/-! ## Objects -/

namespace Fields

/-- `Map::insert`: replace the field under `key`, or add it in key order. -/
def insert (fields : Fields) (key : String) (v : Value) : Fields :=
  match fields with
  | [] => [(key, v)]
  | (k, w) :: rest =>
      if key = k then (key, v) :: rest
      else if key < k then (key, v) :: (k, w) :: rest
      else (k, w) :: insert rest key v

/-- A field is found under the key it was inserted with. -/
@[simp] theorem lookup_insert_self (fields : Fields) (key : String) (v : Value) :
    (fields.insert key v).lookup key = some v := by
  induction fields with
  | nil => simp [insert]
  | cons field rest ih =>
      obtain ⟨k, w⟩ := field
      by_cases hk : key = k
      · simp [insert, hk]
      · by_cases hlt : key < k
        · simp [insert, hk, hlt]
        · simp [insert, hk, hlt, List.lookup_cons, beq_eq_false_iff_ne.mpr hk, ih]

/-- Inserting a field leaves the others. -/
theorem lookup_insert_of_ne (fields : Fields) {key other : String} (v : Value)
    (h : other ≠ key) : (fields.insert key v).lookup other = fields.lookup other := by
  have hb : (other == key) = false := beq_eq_false_iff_ne.mpr h
  induction fields with
  | nil => simp [insert, List.lookup_cons, hb]
  | cons field rest ih =>
      obtain ⟨k, w⟩ := field
      by_cases hk : key = k
      · subst hk
        simp [insert, List.lookup_cons, hb]
      · by_cases hlt : key < k
        · simp [insert, hk, hlt, List.lookup_cons, hb]
        · cases hok : other == k <;> simp [insert, hk, hlt, List.lookup_cons, hok, ih]

/-- What a map is built from is found in it. -/
theorem lookup_foldl_insert (entries acc : Fields) (key : String)
    (hkeys : (entries.map Prod.fst).Nodup) :
    (entries.foldl (fun m field => m.insert field.1 field.2) acc).lookup key =
      (entries.lookup key).or (acc.lookup key) := by
  induction entries generalizing acc with
  | nil => simp
  | cons field rest ih =>
      obtain ⟨k, v⟩ := field
      rw [List.map_cons, List.nodup_cons] at hkeys
      rw [List.foldl_cons, ih _ hkeys.2, List.lookup_cons]
      by_cases hkey : key = k
      · subst hkey
        have hrest : rest.lookup key = none := by
          rw [List.lookup_eq_none_iff]
          intro field hfield
          rw [bne_iff_ne]
          intro heq
          exact hkeys.1 (List.mem_map.mpr ⟨field, hfield, heq.symm⟩)
        simp [hrest]
      · rw [lookup_insert_of_ne _ _ hkey, beq_eq_false_iff_ne.mpr hkey]

/-- A field after all others is added at the end. -/
theorem insert_eq_append {fields : Fields} {key : String} (h : ∀ field ∈ fields, field.1 < key)
    (v : Value) : fields.insert key v = fields ++ [(key, v)] := by
  induction fields with
  | nil => rfl
  | cons field rest ih =>
      have hlt : field.1 < key := h field List.mem_cons_self
      have hne : key ≠ field.1 := fun heq => String.lt_irrefl _ (heq ▸ hlt)
      have hnot : ¬ key < field.1 := fun hlt' => String.lt_irrefl _ (String.lt_trans hlt hlt')
      rw [insert, if_neg hne, if_neg hnot, ih fun f hf => h f (List.mem_cons_of_mem _ hf)]
      rfl

/-- A field that is left out when there is nothing in it. -/
def insertSome (fields : Fields) (key : String) : Option Value → Fields
  | some v => fields.insert key v
  | none => fields

@[simp] theorem lookup_insertSome_self (fields : Fields) (key : String)
    (v : Option Value) (h : fields.lookup key = none) :
    (fields.insertSome key v).lookup key = v := by
  cases v with
  | none => exact h
  | some v => exact lookup_insert_self fields key v

theorem lookup_insertSome_of_ne (fields : Fields) {key other : String}
    (v : Option Value) (h : other ≠ key) :
    (fields.insertSome key v).lookup other = fields.lookup other := by
  cases v with
  | none => rfl
  | some v => exact lookup_insert_of_ne fields v h

end Fields

/-- A map as the library keeps it: each key once, in order. -/
structure JsonMap where
  fields : Fields
  ordered : fields.Pairwise fun a b => a.1 < b.1

/-- A map is what inserting its fields makes. -/
theorem JsonMap.foldl_insert (map : JsonMap) :
    map.fields.foldl (fun acc field => Fields.insert acc field.1 field.2) [] = map.fields := by
  have hfold : ∀ fields acc : Fields, (acc ++ fields).Pairwise (fun a b => a.1 < b.1) →
      fields.foldl (fun acc field => Fields.insert acc field.1 field.2) acc = acc ++ fields := by
    intro fields
    induction fields with
    | nil => simp
    | cons field rest ih =>
        intro acc hacc
        have hlast : ∀ f ∈ acc, f.1 < field.1 := by
          intro f hf
          exact (List.pairwise_append.mp hacc).2.2 f hf field List.mem_cons_self
        have hstep : acc ++ field :: rest = acc ++ [field] ++ rest := by simp
        rw [List.foldl_cons, Fields.insert_eq_append hlast, ih _ (hstep ▸ hacc), hstep]
  simpa using hfold map.fields [] map.ordered

/-! ## Derived deserialization -/

/-- An unsigned integer of a type with `size` values. -/
def Value.toUnsigned (size : ℕ) (v : Value) : Option ℕ :=
  v.asU64.bind fun n => if n.toNat < size then some n.toNat else none

def Value.toU8 (v : Value) : Option UInt8 := (v.toUnsigned UInt8.size).map UInt8.ofNat
def Value.toU16 (v : Value) : Option UInt16 := (v.toUnsigned UInt16.size).map UInt16.ofNat
def Value.toU32 (v : Value) : Option UInt32 := (v.toUnsigned UInt32.size).map UInt32.ofNat

/-- A field without a default. -/
def required {α : Type} (fields : Fields) (key : String) (read : Value → Option α) : Option α :=
  (fields.lookup key).bind read

/-- A field with `#[serde(default)]`. -/
def defaulted {α : Type} (fields : Fields) (key : String) (read : Value → Option α)
    (default : α) : Option α :=
  match fields.lookup key with
  | none => some default
  | some v => read v

/-- An `Option` field with `#[serde(default)]`: absent and `null` both give `None`. -/
def optional {α : Type} (fields : Fields) (key : String) (read : Value → Option α) :
    Option (Option α) :=
  match fields.lookup key with
  | none => some none
  | some .null => some none
  | some v => (read v).map some

@[simp] theorem Value.toU8_posInt (n : UInt8) :
    (Value.number (.ofNat n.toNat)).toU8 = some n := by
  have h := n.toNat_lt
  simp only [Value.toU8, Value.toUnsigned, Number.ofNat, Value.asU64, Option.bind_some,
    UInt64.toNat_ofNat']
  rw [Nat.mod_eq_of_lt (by omega)]
  simp [UInt8.size, h]

@[simp] theorem Value.toU16_posInt (n : UInt16) :
    (Value.number (.ofNat n.toNat)).toU16 = some n := by
  have h := n.toNat_lt
  simp only [Value.toU16, Value.toUnsigned, Number.ofNat, Value.asU64, Option.bind_some,
    UInt64.toNat_ofNat']
  rw [Nat.mod_eq_of_lt (by omega)]
  simp [UInt16.size, h]

@[simp] theorem Value.toU32_posInt (n : UInt32) :
    (Value.number (.ofNat n.toNat)).toU32 = some n := by
  have h := n.toNat_lt
  simp only [Value.toU32, Value.toUnsigned, Number.ofNat, Value.asU64, Option.bind_some,
    UInt64.toNat_ofNat']
  rw [Nat.mod_eq_of_lt (by omega)]
  simp [UInt32.size, h]

end Nazh
