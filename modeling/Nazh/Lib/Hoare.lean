import Mathlib.Tactic.Common

/-!
# Pre- and postconditions of programs that can fail

A program reads and writes a state and can fail; what it did to the state before it failed stays
done. So a program has two postconditions, one for its value and one for its error.

## Main definitions

* `Stateful` — programs with a state that can fail.
* `Ends P x Q E` — from a state with `P` the program returns with `Q` or fails with `E`.

## Main results

* `Ends.bind`, `Ends.mono` — programs one after the other, and the rule of consequence.
-/

namespace Nazh.Lib

/-- Programs with a state that can fail. -/
abbrev Stateful (ε σ α : Type) := ExceptT ε (StateM σ) α

variable {ε σ α β : Type}

/-- The postcondition that holds of how a program ended. -/
def Ended (Q : α → σ → Prop) (E : ε → σ → Prop) : Except ε α × σ → Prop
  | (.ok a, s) => Q a s
  | (.error e, s) => E e s

/-- From a state with `P` the program returns with `Q` or fails with `E`. -/
structure Ends (P : σ → Prop) (x : Stateful ε σ α) (Q : α → σ → Prop) (E : ε → σ → Prop) :
    Prop where
  ended : ∀ s, P s → Ended Q E (x.run.run s)

section Rules

variable {P P' : σ → Prop} {Q Q' : α → σ → Prop} {R : β → σ → Prop} {E E' : ε → σ → Prop}
  {x : Stateful ε σ α} {f : α → Stateful ε σ β}

theorem Ends.pure {a : α} (h : ∀ s, P s → Q a s) : Ends P (pure a : Stateful ε σ α) Q E :=
  ⟨fun s hs => h s hs⟩

theorem Ends.throw {e : ε} (h : ∀ s, P s → E e s) :
    Ends P (throw e : Stateful ε σ α) Q E :=
  ⟨fun s hs => h s hs⟩

theorem Ends.modify {Q : Unit → σ → Prop} {g : σ → σ} (h : ∀ s, P s → Q () (g s)) :
    Ends P (modify g : Stateful ε σ Unit) Q E :=
  ⟨fun s hs => h s hs⟩

theorem Ends.ofExcept {r : Except ε α} (hok : ∀ a, r = .ok a → ∀ s, P s → Q a s)
    (herror : ∀ e, r = .error e → ∀ s, P s → E e s) : Ends P (ofExcept r) Q E := by
  refine ⟨fun s hs => ?_⟩
  cases r with
  | ok a => exact hok a rfl s hs
  | error e => exact herror e rfl s hs

/-- One program after the other. -/
theorem Ends.bind (hx : Ends P x Q E) (hf : ∀ a, Ends (Q a) (f a) R E) :
    Ends P (x >>= f) R E := by
  refine ⟨fun s hs => ?_⟩
  have hends := hx.ended s hs
  have hrun : (x >>= f).run.run s = match x.run.run s with
      | (.ok a, s') => (f a).run.run s'
      | (.error e, s') => (.error e, s') := by
    simp only [ExceptT.run_bind, StateT.run_bind]
    generalize x.run.run s = end'
    obtain ⟨answer, s'⟩ := end'
    cases answer with
    | ok a => rfl
    | error e => rfl
  rw [hrun]
  generalize x.run.run s = end' at hends
  obtain ⟨answer, s'⟩ := end'
  cases answer with
  | ok a => exact (hf a).ended s' hends
  | error e => exact hends

/-- The rule of consequence. -/
theorem Ends.mono (h : Ends P x Q E) (hpre : ∀ s, P' s → P s) (hpost : ∀ a s, Q a s → Q' a s)
    (herror : ∀ e s, E e s → E' e s) : Ends P' x Q' E' := by
  refine ⟨fun s hs => ?_⟩
  have hends := h.ended s (hpre s hs)
  generalize x.run.run s = end' at hends
  obtain ⟨answer, s'⟩ := end'
  cases answer with
  | ok a => exact hpost a s' hends
  | error e => exact herror e s' hends

/-- Nothing is done from a state that cannot be. -/
theorem Ends.absurd (h : ∀ s, ¬ P s) : Ends P x Q E := ⟨fun s hs => False.elim (h s hs)⟩

theorem Ends.ite {c : Prop} [Decidable c] {y : Stateful ε σ α} (hx : c → Ends P x Q E)
    (hy : ¬ c → Ends P y Q E) : Ends P (if c then x else y) Q E := by
  by_cases h : c
  · rw [if_pos h]
    exact hx h
  · rw [if_neg h]
    exact hy h

end Rules

end Nazh.Lib
