import Mathlib.Data.Nat.Notation
import Mathlib.Tactic.Common

/-!
# Watch channels

A channel that keeps the last value sent, and counts the values. A receiver remembers the count
it has seen; it waits for a value by waiting for another count. To look at the value does not
mark it as seen, and a clone of a receiver has seen what the receiver had.

## Main definitions

* `Watch.send` — put a value in place of the last one.
* `Watch.changed` — the wait of a receiver; `none` while it waits.
-/

namespace Nazh.Lib

universe u

/-- A channel that keeps the last value. -/
structure Watch (α : Type u) where
  /-- The last value. -/
  value : α
  /-- How many values were sent. -/
  version : ℕ
  deriving DecidableEq, Repr

namespace Watch

/-- A receiver: the version it has seen. -/
structure Receiver where
  seen : ℕ
  deriving DecidableEq, Repr

variable {α : Type u} {w : Watch α} {r r' : Receiver} {a : α}

/-- A channel that holds a value nobody sent, and its receiver. -/
def channel (a : α) : Watch α × Receiver := (⟨a, 0⟩, ⟨0⟩)

def send (w : Watch α) (a : α) : Watch α := ⟨a, w.version + 1⟩

/-- Whether a receiver has not seen the last value. -/
def hasChanged (w : Watch α) (r : Receiver) : Bool := r.seen ≠ w.version

/-- Wait for a value that was not seen, and mark it as seen. -/
def changed (w : Watch α) (r : Receiver) : Option Receiver :=
  if w.hasChanged r then some ⟨w.version⟩ else none

@[simp] theorem value_send (w : Watch α) (a : α) : (w.send a).value = a := rfl

@[simp] theorem version_send (w : Watch α) (a : α) : (w.send a).version = w.version + 1 := rfl

theorem hasChanged_iff : w.hasChanged r = true ↔ r.seen ≠ w.version := decide_eq_true_iff

theorem hasChanged_eq_false : w.hasChanged r = false ↔ r.seen = w.version := by
  simp [hasChanged]

/-- A receiver that has seen nothing waits for the first value only. -/
theorem version_eq_zero_of_unchanged (hseen : r.seen = 0) (h : w.hasChanged r = false) :
    w.version = 0 := by
  rw [← hasChanged_eq_false.mp h, hseen]

/-- The wait ends exactly when a value was not seen. -/
theorem changed_eq_some (h : w.changed r = some r') :
    w.hasChanged r = true ∧ r' = ⟨w.version⟩ := by
  unfold changed at h
  split at h
  · rename_i hchanged
    exact ⟨hchanged, (Option.some.inj h).symm⟩
  · cases h

/-- After a series of values the channel holds the last of them. -/
theorem value_foldl_send (w : Watch α) (l : List α) :
    (l.foldl send w).value = l.getLast?.getD w.value := by
  induction l generalizing w with
  | nil => rfl
  | cons a l ih => rw [List.foldl_cons, ih, value_send, List.getLast?_cons, Option.getD_some]

/-- A series of values counts as many. -/
theorem version_foldl_send (w : Watch α) (l : List α) :
    (l.foldl send w).version = w.version + l.length := by
  induction l generalizing w with
  | nil => rfl
  | cons a l ih =>
      rw [List.foldl_cons, ih, version_send, List.length_cons]
      omega

end Watch
end Nazh.Lib
