import Mathlib.Data.List.Sort
import Mathlib.Tactic.Common

/-!
# The first answer

Candidates are asked one after another, by falling rank and by their place among equals, until one does
not answer `false`. They share a state, and an answer may change it. So a candidate may answer
otherwise than it would if it were asked first.

## Main definitions

* `Precedes` — the order in which candidates are asked.
* `firstAnswer`, `answers` — the answer that ends the asking, and all answers up to it.
* `Undisturbed` — each candidate that is asked answers as if it were asked first.

## Main results

* `pairwise_insertionSort` — a stable sort by rank puts the candidates in the order.
* `undisturbed_iff` — the candidates are undisturbed just if all answers are those of the candidates
  asked first.
* `undisturbed_of_keeps` — candidates that leave the state as it was are undisturbed.
* `firstAnswer_of_undisturbed` — the answer is then that of the first candidate that would not answer
  `false`.
-/

namespace Nazh.Lib

/-! ## The order of the candidates -/

section Order

variable {α : Type*} {rank pos : α → ℕ} {a b : α} {xs front back : List α}

/-- One candidate comes before another: it has a higher rank, or the same and an earlier place. -/
def Precedes (rank pos : α → ℕ) (a b : α) : Prop :=
  rank b < rank a ∨ rank a = rank b ∧ pos a < pos b

instance : Decidable (Precedes rank pos a b) := inferInstanceAs (Decidable (_ ∨ _))

theorem Precedes.asymm (h : Precedes rank pos a b) : ¬ Precedes rank pos b a := by
  rcases h with h | ⟨heq, h⟩ <;> rintro (h' | ⟨heq', h'⟩) <;> omega

theorem Precedes.irrefl : ¬ Precedes rank pos a a := fun h => h.asymm h

/-- A candidate with an earlier place is inserted before those of its rank. -/
theorem pairwise_orderedInsert (hpos : ∀ x ∈ xs, pos a < pos x)
    (h : xs.Pairwise (Precedes rank pos)) :
    (xs.orderedInsert (fun a b => rank b ≤ rank a) a).Pairwise (Precedes rank pos) := by
  induction xs with
  | nil => exact List.pairwise_singleton _ _
  | cons b xs ih =>
      obtain ⟨hb, hxs⟩ := List.pairwise_cons.mp h
      by_cases hle : rank b ≤ rank a
      · rw [List.orderedInsert_cons, if_pos hle]
        refine List.pairwise_cons.mpr ⟨fun x hx => ?_, h⟩
        have hrank : rank x ≤ rank b := by
          rcases List.mem_cons.mp hx with rfl | hx
          · exact le_refl _
          · rcases hb x hx with hlt | ⟨heq, -⟩ <;> omega
        have hplace := hpos x hx
        by_cases heq : rank a = rank x
        · exact .inr ⟨heq, hplace⟩
        · exact .inl (by omega)
      · rw [List.orderedInsert_cons, if_neg hle]
        refine List.pairwise_cons.mpr ⟨fun x hx => ?_,
          ih (fun x hx => hpos x (List.mem_cons_of_mem _ hx)) hxs⟩
        rcases (List.mem_orderedInsert _).mp hx with rfl | hx
        · exact .inl (by omega)
        · exact hb x hx

/-- The stable sort by falling rank puts the candidates in the order. -/
theorem pairwise_insertionSort (h : xs.Pairwise fun a b => pos a < pos b) :
    (xs.insertionSort fun a b => rank b ≤ rank a).Pairwise (Precedes rank pos) := by
  induction xs with
  | nil => exact .nil
  | cons a xs ih =>
      obtain ⟨ha, hxs⟩ := List.pairwise_cons.mp h
      rw [List.insertionSort_cons]
      exact pairwise_orderedInsert (fun x hx => ha x ((List.mem_insertionSort _).mp hx)) (ih hxs)

/-- In a list in the order, what comes before a candidate stands in front of it. -/
theorem mem_front_of_precedes (h : (front ++ a :: back).Pairwise (Precedes rank pos))
    (hb : b ∈ front ++ a :: back) (hba : Precedes rank pos b a) : b ∈ front := by
  obtain ⟨-, hback, -⟩ := List.pairwise_append.mp h
  rcases List.mem_append.mp hb with hb | hb
  · exact hb
  · rcases List.mem_cons.mp hb with rfl | hb
    · exact absurd hba Precedes.irrefl
    · exact absurd ((List.pairwise_cons.mp hback).1 b hb) hba.asymm

end Order

/-! ## Asking -/

section Asking

variable {α σ ε : Type*} (ask : α → σ → Except ε Bool × σ)

/-- The answers of the candidates, until one is not `false`. -/
def answers : List α → σ → List (α × Except ε Bool)
  | [], _ => []
  | a :: rest, s => match ask a s with
    | (.ok false, s) => (a, .ok false) :: answers rest s
    | (answer, _) => [(a, answer)]

/-- An answer for which the next candidate is asked. -/
def isFalse : Except ε Bool → Bool
  | .ok b => !b
  | .error _ => false

/-- The answer that ends the asking, with its candidate. -/
def firstAnswer (xs : List α) (s : σ) : Option (α × Except ε Bool) :=
  (answers ask xs s).find? fun answer => !isFalse answer.2

/-- The state after these candidates were asked. -/
def stateAfter (xs : List α) (s : σ) : σ := xs.foldl (fun s a => (ask a s).2) s

/-- Each candidate that only such come before as would answer `false` in the state `s₀` answers as it
would there. -/
def Undisturbed (s₀ : σ) (xs : List α) (s : σ) : Prop :=
  ∀ front a back, xs = front ++ a :: back → (∀ b ∈ front, (ask b s₀).1 = .ok false) →
    (ask a (stateAfter ask front s)).1 = (ask a s₀).1

variable {ask} {s₀ s : σ} {a : α} {xs rest : List α}

theorem isFalse_eq_true {answer : Except ε Bool} : isFalse answer = true ↔ answer = .ok false := by
  cases answer with
  | error e => simp [isFalse]
  | ok b => cases b <;> simp [isFalse]

theorem undisturbed_nil : Undisturbed ask s₀ [] s := by
  intro front a back h
  simp at h

theorem undisturbed_cons : Undisturbed ask s₀ (a :: rest) s ↔ (ask a s).1 = (ask a s₀).1 ∧
    ((ask a s₀).1 = .ok false → Undisturbed ask s₀ rest (ask a s).2) := by
  constructor
  · intro h
    refine ⟨h [] a rest rfl (by simp), fun hfalse front b back hrest hfront => ?_⟩
    refine h (a :: front) b back (by rw [hrest]; rfl) ?_
    exact List.forall_mem_cons.mpr ⟨hfalse, hfront⟩
  · rintro ⟨hhead, htail⟩ front b back hsplit hfront
    cases front with
    | nil =>
        obtain ⟨rfl, -⟩ := List.cons.inj hsplit
        exact hhead
    | cons c front =>
        obtain ⟨rfl, hrest⟩ := List.cons.inj hsplit
        obtain ⟨hfalse, hfront⟩ := List.forall_mem_cons.mp hfront
        exact htail hfalse front b back hrest hfront

/-- The candidates are undisturbed just if all answers are as in the state `s₀`. -/
theorem undisturbed_iff : Undisturbed ask s₀ xs s ↔
    ∀ answer ∈ answers ask xs s, answer.2 = (ask answer.1 s₀).1 := by
  induction xs generalizing s with
  | nil => exact ⟨fun _ answer h => absurd h List.not_mem_nil, fun _ => undisturbed_nil⟩
  | cons a rest ih =>
      rw [undisturbed_cons, answers]
      split
      case h_1 s' hask =>
        rw [hask, List.forall_mem_cons, ih]
        exact and_congr_right fun h => ⟨fun h' => h' h.symm, fun h' _ => h'⟩
      case h_2 answer s' hne hask =>
        rw [hask, List.forall_mem_singleton]
        refine and_iff_left_of_imp fun h hfalse => ?_
        exact absurd (h.trans hfalse) hne

/-- Undisturbed candidates give the answer of the first that would not answer `false`. -/
theorem firstAnswer_of_undisturbed (h : Undisturbed ask s₀ xs s) :
    (firstAnswer ask xs s = none ∧ ∀ a ∈ xs, (ask a s₀).1 = .ok false) ∨
      ∃ front a back, xs = front ++ a :: back ∧ (∀ b ∈ front, (ask b s₀).1 = .ok false) ∧
        (ask a s₀).1 ≠ .ok false ∧ firstAnswer ask xs s = some (a, (ask a s₀).1) := by
  induction xs generalizing s with
  | nil => exact .inl ⟨rfl, by simp⟩
  | cons a rest ih =>
      obtain ⟨hhead, htail⟩ := undisturbed_cons.mp h
      rw [firstAnswer, answers]
      split
      case h_1 s' hask =>
        rw [hask] at hhead htail
        rw [List.find?_cons_of_neg (by simp [isFalse])]
        rcases ih (htail hhead.symm) with ⟨hnone, hall⟩ | ⟨front, b, back, rfl, hfront, hb, hfirst⟩
        · exact .inl ⟨hnone, List.forall_mem_cons.mpr ⟨hhead.symm, hall⟩⟩
        · exact .inr ⟨a :: front, b, back, rfl, List.forall_mem_cons.mpr ⟨hhead.symm, hfront⟩, hb,
            hfirst⟩
      case h_2 answer s' hne hask =>
        rw [hask] at hhead
        have hstop : isFalse answer = false := by
          rw [Bool.eq_false_iff, ne_eq, isFalse_eq_true]
          exact hne
        refine .inr ⟨[], a, rest, rfl, by simp, hhead ▸ hne, ?_⟩
        rw [List.find?_cons_of_pos (by rw [hstop]; rfl), ← hhead]

/-- Candidates that leave the state as it was are undisturbed. -/
theorem undisturbed_of_keeps (h : ∀ a ∈ xs, (ask a s).1 = .ok false → (ask a s).2 = s) :
    Undisturbed ask s xs s := by
  induction xs with
  | nil => exact undisturbed_nil
  | cons a rest ih =>
      obtain ⟨ha, hrest⟩ := List.forall_mem_cons.mp h
      refine undisturbed_cons.mpr ⟨rfl, fun hfalse => ?_⟩
      rw [ha hfalse]
      exact ih hrest

end Asking
end Nazh.Lib
