import Mathlib.Data.List.Basic
import Mathlib.Data.List.TakeWhile
import Mathlib.Tactic.Common

/-!
# Runs of a text

The runs of a text are its longest parts whose elements all have a property: the words of a line, the
digits of a number. Each is taken with what is around it.

## Main definitions

* `Run` — a run, with the text before it and the text after it.
* `runs` — the runs of a text, from the left.

## Main results

* `exists_run` — a text that begins with such an element begins with a run.
* `runs_cons_of_neg`, `runs_append` — what is between the runs is passed over, and a run is taken whole.
-/

namespace Nazh.Lib

variable {α : Type*}

/-- A part of a text. What is before it is kept with the nearest element first. -/
structure Run (α : Type*) where
  before : List α
  chars : List α
  after : List α
  deriving DecidableEq, Repr

section Runs

variable (p : α → Bool)

/-- The runs, as far as `fuel` elements. -/
def runsWithin : ℕ → List α → List α → List (Run α)
  | fuel + 1, before, x :: xs =>
      if p x then
        let chars := x :: xs.takeWhile p
        let after := xs.dropWhile p
        ⟨before, chars, after⟩ :: runsWithin fuel (chars.reverse ++ before) after
      else runsWithin fuel (x :: before) xs
  | _, _, _ => []

/-- The runs of a text, if `before` is what was read already. -/
def runs (before xs : List α) : List (Run α) := runsWithin p xs.length before xs

/-- No run goes on at the beginning of the text. -/
def Stops (xs : List α) : Prop := ∀ x ∈ xs.head?, p x = false

variable {p} {before run after xs : List α} {x : α}

@[simp] theorem stops_nil : Stops p [] := by
  intro x hx
  cases hx

@[simp] theorem stops_cons : Stops p (x :: xs) ↔ p x = false := by
  simp [Stops]

theorem Stops.any_head? (h : Stops p xs) : xs.head?.any p = false := by
  cases xs with
  | nil => rfl
  | cons x xs =>
      rw [stops_cons] at h
      exact h

theorem stops_dropWhile (xs : List α) : Stops p (xs.dropWhile p) := by
  intro x hx
  have h := List.head?_dropWhile_not p xs
  rw [Option.mem_def.mp hx] at h
  exact h

theorem takeWhile_eq_nil_of_stops (h : Stops p xs) : xs.takeWhile p = [] := by
  cases xs with
  | nil => rfl
  | cons x xs => rw [List.takeWhile_cons_of_neg (by simp [stops_cons.mp h])]

/-- A run is taken whole. -/
theorem takeWhile_append_of_stops (hrun : ∀ x ∈ run, p x = true) (hafter : Stops p after) :
    (run ++ after).takeWhile p = run := by
  rw [List.takeWhile_append_of_pos hrun, takeWhile_eq_nil_of_stops hafter, List.append_nil]

theorem dropWhile_append_of_stops (hrun : ∀ x ∈ run, p x = true) (hafter : Stops p after) :
    (run ++ after).dropWhile p = after := by
  have h := @List.takeWhile_append_dropWhile _ p (run ++ after)
  rw [takeWhile_append_of_stops hrun hafter] at h
  exact List.append_cancel_left h

/-- A text that begins with an element of a run begins with a run. -/
theorem exists_run (hx : p x = true) (xs : List α) : ∃ run after, xs = run ++ after ∧
    (∀ y ∈ x :: run, p y = true) ∧ Stops p after := by
  refine ⟨xs.takeWhile p, xs.dropWhile p, List.takeWhile_append_dropWhile.symm, ?_,
    stops_dropWhile xs⟩
  exact List.forall_mem_cons.mpr ⟨hx, fun y hy => List.mem_takeWhile_imp hy⟩

/-- Fuel for every element is enough. -/
theorem runsWithin_of_le {fuel more : ℕ} (hfuel : xs.length ≤ fuel) (hle : fuel ≤ more) :
    runsWithin p more before xs = runsWithin p fuel before xs := by
  induction fuel generalizing xs before more with
  | zero =>
      obtain rfl := List.length_eq_zero_iff.mp (Nat.le_zero.mp hfuel)
      cases more <;> rfl
  | succ fuel ih =>
      obtain ⟨more, rfl⟩ : ∃ m, more = m + 1 := ⟨more - 1, by omega⟩
      cases xs with
      | nil => rfl
      | cons x xs =>
          rw [List.length_cons] at hfuel
          have hlen := (List.dropWhile_suffix p (l := xs)).length_le
          have hskip := @ih (x :: before) xs more (by omega) (by omega)
          have htake := @ih ((x :: xs.takeWhile p).reverse ++ before) (xs.dropWhile p) more (by omega)
            (by omega)
          rw [runsWithin, runsWithin]
          simp only [hskip, htake]

@[simp] theorem runs_nil : runs p before [] = [] := rfl

theorem runs_cons_of_neg (hx : p x = false) : runs p before (x :: xs) = runs p (x :: before) xs := by
  rw [runs, List.length_cons, runsWithin, hx]
  rfl

/-- A run is taken whole, and the text is read on after it. -/
theorem runs_append (hrun : ∀ y ∈ x :: run, p y = true) (hafter : Stops p after) :
    runs p before (x :: run ++ after) =
      ⟨before, x :: run, after⟩ :: runs p ((x :: run).reverse ++ before) after := by
  obtain ⟨hx, hrun⟩ := List.forall_mem_cons.mp hrun
  rw [runs, List.cons_append, List.length_cons, runsWithin, if_pos hx,
    takeWhile_append_of_stops hrun hafter, dropWhile_append_of_stops hrun hafter, runs]
  simp only
  rw [runsWithin_of_le (Nat.le_refl after.length) (by rw [List.length_append]; omega)]

end Runs
end Nazh.Lib
