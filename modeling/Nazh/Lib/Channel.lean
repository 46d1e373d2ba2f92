import Mathlib.Data.Nat.Notation
import Mathlib.Tactic.Common

/-!
# Bounded channels with one receiver

A bounded queue with any number of senders and one receiver. While the receiver
lives the channel holds what was sent and not yet received; when it is dropped,
so is the queue, and every later send is refused. A gone channel never returns.

## Main definitions

* `Channel.send` — a send that waits for room; `none` while it waits.
* `Channel.trySend` — a send that does not wait.
* `Channel.recv` — the oldest message, if there is one.
-/

namespace Nazh.Lib

universe u

/-- A bounded channel. -/
inductive Channel (μ : Type u)
  /-- The receiver lives. -/
  | live (capacity : ℕ) (queue : List μ)
  /-- The receiver was dropped. -/
  | gone
  deriving DecidableEq, Repr

/-- How a send that does not wait ends. -/
inductive TrySend
  | sent
  | full
  | closed
  deriving DecidableEq, Repr

namespace Channel

variable {μ : Type u} {c c' : Channel μ} {m : μ}

/-- What was sent and not yet received. -/
def queue : Channel μ → List μ
  | live _ q => q
  | gone => []

def isClosed : Channel μ → Bool
  | live _ _ => false
  | gone => true

/-- Send once there is room. The answer is `false` when the receiver is gone. -/
def send (c : Channel μ) (m : μ) : Option (Channel μ × Bool) :=
  match c with
  | live capacity q => if q.length < capacity then some (live capacity (q ++ [m]), true) else none
  | gone => some (gone, false)

/-- Send if there is room now. -/
def trySend (c : Channel μ) (m : μ) : Channel μ × TrySend :=
  match c with
  | live capacity q =>
      if q.length < capacity then (live capacity (q ++ [m]), .sent) else (live capacity q, .full)
  | gone => (gone, .closed)

/-- Receive the oldest message. -/
def recv (c : Channel μ) : Option (Channel μ × μ) :=
  match c with
  | live capacity (m :: q) => some (live capacity q, m)
  | _ => none

@[simp] theorem queue_live (capacity : ℕ) (q : List μ) : (live capacity q).queue = q := rfl
@[simp] theorem queue_gone : (gone : Channel μ).queue = [] := rfl
@[simp] theorem isClosed_live (capacity : ℕ) (q : List μ) :
    (live capacity q).isClosed = false := rfl
@[simp] theorem isClosed_gone : (gone : Channel μ).isClosed = true := rfl

theorem eq_gone (h : c.isClosed = true) : c = gone := by
  cases c with
  | live => cases h
  | gone => rfl

/-- A send either queues the message on a live channel or is refused by a gone one. -/
theorem send_spec {ok : Bool} (h : c.send m = some (c', ok)) :
    (ok = true ∧ c.isClosed = false ∧ c'.isClosed = false ∧ c'.queue = c.queue ++ [m]) ∨
      (ok = false ∧ c.isClosed = true ∧ c' = c) := by
  cases c with
  | live capacity q =>
      simp only [send] at h
      split at h
      · cases h
        exact .inl ⟨rfl, rfl, rfl, rfl⟩
      · cases h
  | gone =>
      cases h
      exact .inr ⟨rfl, rfl, rfl⟩

/-- A send that does not wait queues the message or changes nothing. -/
theorem trySend_spec {r : TrySend} (h : c.trySend m = (c', r)) :
    (r = .sent ∧ c.isClosed = false ∧ c'.isClosed = false ∧ c'.queue = c.queue ++ [m]) ∨
      (r = .full ∧ c.isClosed = false ∧ c' = c) ∨
      (r = .closed ∧ c.isClosed = true ∧ c' = c) := by
  cases c with
  | live capacity q =>
      simp only [trySend] at h
      split at h
      · cases h
        exact .inl ⟨rfl, rfl, rfl, rfl⟩
      · cases h
        exact .inr (.inl ⟨rfl, rfl, rfl⟩)
  | gone =>
      cases h
      exact .inr (.inr ⟨rfl, rfl, rfl⟩)

/-- A receive takes the head of the queue of a live channel. -/
theorem recv_spec (h : c.recv = some (c', m)) :
    c.isClosed = false ∧ c'.isClosed = false ∧ c.queue = m :: c'.queue := by
  cases c with
  | live capacity q =>
      cases q with
      | nil => cases h
      | cons x q =>
          cases h
          exact ⟨rfl, rfl, rfl⟩
  | gone => cases h

end Channel
end Nazh.Lib
