import Mathlib.Algebra.Order.Group.Defs
import Nazh.Lib.Machine

/-!
# Sliding windows

A limiter keeps the times of what it has admitted, drops those that are older than its window,
and admits while it keeps fewer than its bound. It looks at the windows that end now, and only
at what it has not dropped. The bound then holds for every window of that length, aligned or
not.

## Main definitions

* `attempt` — one attempt.
* `Kept` — the limiter keeps what it has admitted, except what is too old.
* `Spaced` — each admission has fewer than the bound before it in its window.

## Main results

* `Kept.admitted` — an attempt that is admitted has fewer than the bound before it.
* `Spaced.countP_le` — no window has more than the bound.
-/

namespace Nazh.Lib.Window

universe u

variable {τ : Type u} [AddCommGroup τ] [LinearOrder τ]

/-- The times that are in the window that ends now. -/
def prune (width now : τ) (times : List τ) : List τ := times.dropWhile fun at' => at' < now - width

/-- One attempt: the times kept after it, and whether it is admitted. -/
def attempt (width : τ) (bound : ℕ) (now : τ) (times : List τ) : List τ × Bool :=
  if bound ≤ (prune width now times).length then (prune width now times, false)
  else (prune width now times ++ [now], true)

/-- What was admitted, after `start`, is what was dropped and what is kept. All that was
dropped is too old. -/
def Kept (width clock : τ) (start log times : List τ) : Prop :=
  ∃ dropped, start ++ log = dropped ++ times ∧ ∀ at' ∈ dropped, at' < clock - width

/-- Each admission has fewer than `bound` others before it in the window that it ends. -/
def Spaced (width : τ) (bound : ℕ) : List τ → Prop :=
  Historical fun pre at' => (pre.countP fun earlier => at' - width ≤ earlier) < bound

variable {width clock now : τ} {bound : ℕ} {start log times : List τ}

/-- All that is young is kept. -/
theorem Kept.countP_le (h : Kept width now start log times) :
    (log.countP fun at' => now - width ≤ at') ≤ times.length := by
  obtain ⟨dropped, hlog, hold⟩ := h
  have hnone : (dropped.countP fun at' => now - width ≤ at') = 0 := by
    rw [List.countP_eq_zero]
    intro at' hmem hyoung
    exact absurd (of_decide_eq_true hyoung) (not_le_of_gt (hold at' hmem))
  calc (log.countP fun at' => now - width ≤ at')
      ≤ (start ++ log).countP fun at' => now - width ≤ at' := by
        rw [List.countP_append]
        exact Nat.le_add_left _ _
    _ = times.countP fun at' => now - width ≤ at' := by
        rw [hlog, List.countP_append, hnone, Nat.zero_add]
    _ ≤ times.length := List.countP_le_length

variable [IsOrderedAddMonoid τ]

theorem Kept.mono (h : Kept width clock start log times) (hle : clock ≤ now) :
    Kept width now start log times := by
  obtain ⟨dropped, hlog, hold⟩ := h
  refine ⟨dropped, hlog, fun at' hmem => ?_⟩
  have hlater : clock - width ≤ now - width := sub_le_sub_right hle width
  exact lt_of_lt_of_le (hold at' hmem) hlater

/-- What is dropped now is too old now. -/
theorem Kept.prune (h : Kept width clock start log times) (hle : clock ≤ now) :
    Kept width now start log (prune width now times) := by
  obtain ⟨dropped, hlog, hold⟩ := h.mono hle
  refine ⟨dropped ++ times.takeWhile fun at' => at' < now - width, ?_, ?_⟩
  · rw [Window.prune, List.append_assoc, List.takeWhile_append_dropWhile, hlog]
  · intro at' hmem
    rcases List.mem_append.mp hmem with hbefore | hnow
    · exact hold at' hbefore
    · exact of_decide_eq_true (List.all_eq_true.mp List.all_takeWhile at' hnow)

/-- An attempt that is admitted has fewer than the bound before it. -/
theorem Kept.admitted (h : Kept width clock start log times) (hle : clock ≤ now)
    (hadmitted : (attempt width bound now times).2 = true) :
    Kept width now start (log ++ [now]) (attempt width bound now times).1 ∧
      (log.countP fun at' => now - width ≤ at') < bound := by
  have hpruned := h.prune hle
  have hroom : ¬ bound ≤ (Window.prune width now times).length := by
    intro hfull
    rw [Window.attempt, if_pos hfull] at hadmitted
    cases hadmitted
  rw [Window.attempt, if_neg hroom]
  constructor
  · obtain ⟨dropped, hlog, hold⟩ := hpruned
    exact ⟨dropped, by rw [← List.append_assoc, hlog, List.append_assoc], hold⟩
  · exact Nat.lt_of_le_of_lt hpruned.countP_le (Nat.lt_of_not_le hroom)

/-- An attempt that is not admitted changes nothing but what is dropped. -/
theorem Kept.refuse (h : Kept width clock start log times) (hle : clock ≤ now)
    (hadmitted : (Window.attempt width bound now times).2 = false) :
    Kept width now start log (Window.attempt width bound now times).1 := by
  rw [Window.attempt] at hadmitted ⊢
  split at hadmitted
  · rename_i hfull
    rw [if_pos hfull]
    exact h.prune hle
  · cases hadmitted

/-- No window of the width has more than the bound. -/
theorem Spaced.countP_le (h : Spaced width bound log) (first : τ) :
    (log.countP fun at' => first ≤ at' ∧ at' ≤ first + width) ≤ bound := by
  induction log using List.reverseRecOn with
  | nil => simp
  | append_singleton log last ih =>
      obtain ⟨hlog, hlast⟩ := historical_append_singleton.mp h
      have hrest := ih hlog
      rw [List.countP_append, List.countP_singleton]
      by_cases hin : first ≤ last ∧ last ≤ first + width
      · have hmono : (log.countP fun at' => first ≤ at' ∧ at' ≤ first + width) ≤
            log.countP fun at' => last - width ≤ at' := by
          apply List.countP_mono_left
          intro at' _ hwindow
          have hwindow := of_decide_eq_true hwindow
          have hstart : last - width ≤ first := sub_le_iff_le_add.mpr hin.2
          exact decide_eq_true (le_trans hstart hwindow.1)
        rw [if_pos (decide_eq_true hin)]
        exact Nat.lt_of_le_of_lt hmono hlast
      · rw [if_neg (by simpa using hin)]
        exact hrest

end Nazh.Lib.Window
