import Mathlib.Order.Lattice

/-!
# Circuit breakers

A breaker counts failures in a row, and from some number on each failure opens it until a
deadline. A look at the breaker after the deadline closes it, and relief closes it at once.
The breaker stays open until a deadline once it has opened until then, however often it
fails again and is looked at before.

## Main definitions

* `Breaker`, `Breaker.after` — a breaker, and what an event makes of it.
* `Breaker.HeldUntil` — the circuit is open until a time at least.

## Main results

* `Breaker.HeldUntil.after` — every event but relief keeps a breaker open.
-/

namespace Nazh.Lib

universe u

/-- The failures in a row, and until when the circuit is open. -/
@[ext]
structure Breaker (τ : Type u) where
  failures : ℕ
  openUntil : Option τ

/-- What can happen to a breaker. -/
inductive BreakerEvent (τ : Type u)
  /-- A failure, with the deadline it would open the circuit until. -/
  | failed (deadline : τ)
  | relieved
  | observed (now : τ)
  | idle

namespace Breaker

variable {τ : Type u} [LinearOrder τ] {count : ℕ → ℕ} {threshold : ℕ} {b : Breaker τ}
  {e : BreakerEvent τ} {T deadline now : τ}

/-- The breaker after an event. Failures are counted by `count`. -/
def after (count : ℕ → ℕ) (threshold : ℕ) (b : Breaker τ) : BreakerEvent τ → Breaker τ
  | .failed deadline =>
      ⟨count b.failures, if threshold ≤ count b.failures then some deadline else none⟩
  | .relieved => ⟨0, none⟩
  | .observed now => ⟨b.failures, if b.openUntil.any (· ≤ now) then none else b.openUntil⟩
  | .idle => b

@[simp] theorem after_idle : b.after count threshold .idle = b := rfl

/-- A failure opens the circuit if and only if the count then reaches the threshold. -/
theorem isSome_openUntil_failed :
    (b.after count threshold (.failed deadline)).openUntil.isSome = true ↔
      threshold ≤ (b.after count threshold (.failed deadline)).failures := by
  by_cases h : threshold ≤ count b.failures
  · simp [after, h]
  · simp [after, h]

/-- The circuit is open until `T` at least, and a failure would open it again. -/
def HeldUntil (threshold : ℕ) (T : τ) (b : Breaker τ) : Prop :=
  threshold ≤ b.failures ∧ ∃ deadline, b.openUntil = some deadline ∧ T ≤ deadline

/-- An event before `T` that is no relief. -/
def Before (T : τ) : BreakerEvent τ → Prop
  | .failed deadline => T ≤ deadline
  | .relieved => False
  | .observed now => now < T
  | .idle => True

/-- The circuit is open until the deadline that a failure has set. -/
theorem heldUntil_failed (h : (b.after count threshold (.failed deadline)).openUntil = some T) :
    HeldUntil threshold T (b.after count threshold (.failed deadline)) := by
  refine ⟨isSome_openUntil_failed.mp ?_, T, h, le_refl T⟩
  rw [h]
  rfl

/-- Whatever happens before `T` keeps the circuit open until `T`, relief apart. -/
theorem HeldUntil.after (hcount : ∀ n, threshold ≤ n → threshold ≤ count n)
    (hb : HeldUntil threshold T b) (he : Before T e) :
    HeldUntil threshold T (b.after count threshold e) := by
  obtain ⟨hfailures, deadline, hopen, hT⟩ := hb
  cases e with
  | failed deadline' =>
      have hreached := hcount b.failures hfailures
      refine ⟨hreached, deadline', ?_, he⟩
      rw [Breaker.after, if_pos hreached]
  | relieved => exact absurd he id
  | observed now =>
      have hlater : ¬ deadline ≤ now := not_le_of_gt (lt_of_lt_of_le he hT)
      refine ⟨hfailures, deadline, ?_, hT⟩
      simp [Breaker.after, hopen, hlater]
  | idle => exact ⟨hfailures, deadline, hopen, hT⟩

end Breaker
end Nazh.Lib
