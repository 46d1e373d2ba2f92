import Mathlib.Data.Finset.SDiff
import Mathlib.Data.Finset.Card
import Mathlib.Order.Iterate

/-!
# Sets that grow

A search that adds to a set until it comes to rest is given by what one round adds. A round that
takes nothing away and stays in a finite set comes to rest, and what it is then is inside
everything that the rounds do not leave.

## Main results

* `exists_iterate_fixed` — sets that grow inside a finite set come to rest.
* `forall_mem_iterate` — what the rounds keep holds of everything that is found.
-/

namespace Nazh.Lib

variable {α : Type*} {f : Finset α → Finset α} {S : Finset α}

/-- What was there at the start is there after any number of rounds. -/
theorem subset_iterate (hgrows : ∀ T, T ⊆ f T) (n : ℕ) : S ⊆ f^[n] S := by
  induction n generalizing S with
  | zero => exact subset_rfl
  | succ n ih => exact (hgrows S).trans ih

/-- What holds at the start and is kept by a round holds after any number of rounds. -/
theorem forall_mem_iterate {P : α → Prop} (hS : ∀ x ∈ S, P x)
    (hkeeps : ∀ T, (∀ x ∈ T, P x) → ∀ x ∈ f T, P x) (n : ℕ) : ∀ x ∈ f^[n] S, P x := by
  induction n generalizing S with
  | zero => exact hS
  | succ n ih => exact ih (hkeeps S hS)

/-- A set that never shrinks and stays in `U` is at rest after as many rounds as it lacks elements
of `U`. -/
theorem exists_iterate_fixed [DecidableEq α] {U : Finset α} (hgrows : ∀ T, T ⊆ f T)
    (hinside : ∀ T, T ⊆ U → f T ⊆ U) (hS : S ⊆ U) :
    ∃ n ≤ (U \ S).card, f (f^[n] S) = f^[n] S := by
  induction hcard : (U \ S).card using Nat.strong_induction_on generalizing S with
  | _ k ih =>
      by_cases hfixed : f S = S
      · exact ⟨0, Nat.zero_le _, hfixed⟩
      · have hless : U \ f S ⊂ U \ S := by
          refine ⟨Finset.sdiff_subset_sdiff subset_rfl (hgrows S), fun hback => hfixed ?_⟩
          refine Finset.Subset.antisymm (fun x hx => ?_) (hgrows S)
          by_contra hnew
          have hout := hback (Finset.mem_sdiff.mpr ⟨hinside S hS hx, hnew⟩)
          exact (Finset.mem_sdiff.mp hout).2 hx
        have hlt := Finset.card_lt_card hless
        obtain ⟨n, hn, hrest⟩ := ih _ (hcard ▸ hlt) (hinside S hS) rfl
        exact ⟨n + 1, by omega, by simpa [Function.iterate_succ_apply] using hrest⟩

end Nazh.Lib
