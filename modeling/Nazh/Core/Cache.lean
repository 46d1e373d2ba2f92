import Mathlib.Data.List.AList
import Nazh.Json.Value

/-!
# Output caches

A node keeps the last value of each of its data and reactive outputs in a slot. A value
has the trace that produced it and the time when it did, and a reader may ask for values
that are not too old.
-/

namespace Nazh

/-- A value in a slot. Times are counted in nanoseconds. -/
structure CachedOutput where
  value : Value
  producedAt : ℤ
  traceId : ℕ
  deriving DecidableEq

/-- `num_milliseconds` of the time since a value was produced, without its sign. -/
def CachedOutput.ageMs (cached : CachedOutput) (now : ℤ) : ℕ :=
  ((now - cached.producedAt).tdiv 1000000).natAbs

/-- Whether a value is too old. -/
def CachedOutput.isExpired (cached : CachedOutput) (now : ℤ) (ttlMs : Option ℕ) : Bool :=
  ttlMs.any fun ttl => cached.ageMs now > ttl

/-- The slots of a node. -/
structure OutputCache where
  slots : AList fun _ : String => Option CachedOutput

namespace OutputCache

def new : OutputCache := ⟨∅⟩

/-- A slot for a pin, if it has none. -/
def prepareSlot (cache : OutputCache) (pinId : String) : OutputCache :=
  if pinId ∈ cache.slots then cache else ⟨cache.slots.insert pinId none⟩

/-- Put a value into a slot. The answer says whether it is another value. -/
def write (cache : OutputCache) (pinId : String) (output : CachedOutput) : Bool × OutputCache :=
  match cache.slots.lookup pinId with
  | none => (false, cache)
  | some old => (old.all fun o => o.value ≠ output.value, ⟨cache.slots.insert pinId (some output)⟩)

/-- Put a value of now into a slot. -/
def writeNow (cache : OutputCache) (pinId : String) (value : Value) (traceId : ℕ) (now : ℤ) :
    Bool × OutputCache :=
  cache.write pinId ⟨value, now, traceId⟩

/-- What is in a slot, whatever its age. -/
def borrow (cache : OutputCache) (pinId : String) : Option CachedOutput :=
  (cache.slots.lookup pinId).join

/-- The value of a slot, if it is not too old. -/
def read (cache : OutputCache) (pinId : String) (ttlMs : Option ℕ) (now : ℤ) :
    Option CachedOutput :=
  (cache.borrow pinId).bind fun cached => if cached.isExpired now ttlMs then none else some cached

variable {cache : OutputCache} {pinId : String}

end OutputCache
end Nazh
