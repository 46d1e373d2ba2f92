import Mathlib.Data.List.Basic
import Mathlib.Tactic.Common

/-!
# Brackets

A text is read from the left, and the brackets that are open are counted. A closing bracket where none
is open ends the reading.

## Main definitions

* `depthAfter` — the count after a text.
* `Bracketed` — all brackets are closed, each after it was opened.
* `Closes` — a text in which all brackets are closed, those before it too.
-/

namespace Nazh.Lib

variable {α : Type*} [DecidableEq α]

/-- How many brackets are open after a text, if `depth` are before it. -/
def depthAfter (opening closing : α) : ℕ → List α → Option ℕ
  | depth, [] => some depth
  | depth, x :: xs =>
      if x = opening then depthAfter opening closing (depth + 1) xs
      else if x = closing then
        if depth = 0 then none else depthAfter opening closing (depth - 1) xs
      else depthAfter opening closing depth xs

/-- All brackets are closed, each after it was opened. -/
def Bracketed (opening closing : α) (xs : List α) : Prop := depthAfter opening closing 0 xs = some 0

instance (opening closing : α) (xs : List α) : Decidable (Bracketed opening closing xs) :=
  inferInstanceAs (Decidable (_ = _))

/-- After the text no bracket is open, if it begins with some open. -/
def Closes (opening closing : α) (xs : List α) : Prop :=
  ∃ depth, depthAfter opening closing depth xs = some 0

variable {opening closing : α} {depth : ℕ} {xs ys : List α}

/-- A text is read on from where the text before it ended. -/
theorem depthAfter_append : depthAfter opening closing depth (xs ++ ys) =
    (depthAfter opening closing depth xs).bind fun d => depthAfter opening closing d ys := by
  induction xs generalizing depth with
  | nil => rfl
  | cons x xs ih =>
      rw [List.cons_append, depthAfter, depthAfter]
      split
      · exact ih
      · split
        · split
          · rfl
          · exact ih
        · exact ih

/-- A text without closing brackets closes none. -/
theorem le_depthAfter {d : ℕ} (hclosing : closing ∉ xs)
    (h : depthAfter opening closing depth xs = some d) : depth ≤ d := by
  induction xs generalizing depth with
  | nil => exact Nat.le_of_eq (Option.some.inj h)
  | cons x xs ih =>
      rw [List.mem_cons, not_or] at hclosing
      have hx : x ≠ closing := fun heq => hclosing.1 heq.symm
      rw [depthAfter, if_neg hx] at h
      split at h
      · exact Nat.le_trans (Nat.le_succ depth) (ih hclosing.2 h)
      · exact ih hclosing.2 h

/-- A bracket that is open is closed in a text after which none is. -/
theorem closing_mem (h : depthAfter opening closing (depth + 1) xs = some 0) : closing ∈ xs := by
  by_contra hclosing
  exact absurd (le_depthAfter hclosing h) (by omega)

theorem Bracketed.closes (h : Bracketed opening closing xs) : Closes opening closing xs := ⟨0, h⟩

theorem Closes.of_append (h : Closes opening closing (xs ++ ys)) : Closes opening closing ys := by
  obtain ⟨depth, h⟩ := h
  rw [depthAfter_append] at h
  obtain ⟨d, -, hd⟩ := Option.bind_eq_some_iff.mp h
  exact ⟨d, hd⟩

/-- After an opening bracket there is a closing one. -/
theorem Closes.closing_mem (h : Closes opening closing (opening :: xs)) : closing ∈ xs := by
  obtain ⟨depth, h⟩ := h
  rw [depthAfter, if_pos rfl] at h
  exact Lib.closing_mem h

end Nazh.Lib
