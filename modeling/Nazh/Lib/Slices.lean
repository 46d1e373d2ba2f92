import Mathlib.Algebra.BigOperators.Group.List.Basic
import Mathlib.Algebra.GroupWithZero.Nat

/-!
# Slices of texts whose characters have sizes

Where positions are counted in smaller units than characters, a position may lie inside of a
character. A text cannot be cut there.

## Main definitions

* `weight`, `cutAt`, `slice` — the size of a text, and its pieces, if it can be cut.
* `Inside` — a position lies inside of a character.

## Main results

* `cutAt_eq_some`, `cutAt_eq_none` — where a text can be cut.
-/

namespace Nazh.Lib

variable {α : Type*} (size : α → ℕ)

/-- The size of a text. -/
def weight (s : List α) : ℕ := (s.map size).sum

/-- A text is cut at a position. -/
def cutAt : List α → ℕ → Option (List α × List α)
  | s, 0 => some ([], s)
  | [], _ + 1 => none
  | c :: cs, n + 1 =>
      if size c ≤ n + 1 then (cutAt cs (n + 1 - size c)).map fun parts => (c :: parts.1, parts.2)
      else none

/-- What stands between two positions. -/
def slice (s : List α) (start stop : ℕ) : Option (List α) :=
  (cutAt size s start).bind fun parts => (cutAt size parts.2 (stop - start)).map Prod.fst

/-- The position lies inside of a character. -/
def Inside (s : List α) (n : ℕ) : Prop :=
  ∃ front c back, s = front ++ c :: back ∧ weight size front < n ∧
    n < weight size front + size c

variable {size}

@[simp] theorem weight_nil : weight size ([] : List α) = 0 := rfl

@[simp] theorem weight_cons (c : α) (s : List α) : weight size (c :: s) = size c + weight size s :=
  List.sum_cons

@[simp] theorem weight_append (s t : List α) :
    weight size (s ++ t) = weight size s + weight size t := by
  rw [weight, List.map_append, List.sum_append, weight, weight]

/-- Of characters that all have size one there are as many as the size says. -/
theorem weight_eq_length {s : List α} (h : ∀ c ∈ s, size c = 1) : weight size s = s.length := by
  induction s with
  | nil => rfl
  | cons c s ih =>
      rw [weight_cons, List.length_cons, h c List.mem_cons_self,
        ih fun d hd => h d (List.mem_cons_of_mem c hd), Nat.add_comm]

theorem cutAt_cons (c : α) {s : List α} {n : ℕ} (hn : 0 < n) : cutAt size (c :: s) n =
    if size c ≤ n then (cutAt size s (n - size c)).map fun parts => (c :: parts.1, parts.2)
    else none := by
  obtain ⟨m, rfl⟩ := Nat.exists_eq_succ_of_ne_zero (Nat.ne_of_gt hn)
  rfl

/-- A text cannot be cut beyond its end, and inside of characters. -/
theorem cutAt_eq_none {s : List α} {n : ℕ} :
    cutAt size s n = none ↔ weight size s < n ∨ Inside size s n := by
  induction s generalizing n with
  | nil =>
      cases n with
      | zero => exact iff_of_false (by rintro ⟨⟩) (by simp [Inside])
      | succ n => exact iff_of_true rfl (.inl n.succ_pos)
  | cons c s ih =>
      have hinside (hn : 0 < n) : Inside size (c :: s) n ↔
          n < size c ∨ size c < n ∧ Inside size s (n - size c) := by
        constructor
        · rintro ⟨front, d, back, heq, hlt, hlt'⟩
          cases front with
          | nil =>
              obtain ⟨rfl, -⟩ := List.cons.inj heq
              rw [weight_nil] at hlt'
              exact .inl (by omega)
          | cons c' front =>
              obtain ⟨rfl, rfl⟩ := List.cons.inj heq
              rw [weight_cons] at hlt hlt'
              exact .inr ⟨by omega, front, d, back, rfl, by omega, by omega⟩
        · rintro (hlt | ⟨-, front, d, back, rfl, hlt, hlt'⟩)
          · exact ⟨[], c, s, rfl, hn, by rwa [weight_nil, Nat.zero_add]⟩
          · refine ⟨c :: front, d, back, rfl, ?_, ?_⟩ <;> rw [weight_cons] <;> omega
      rcases Nat.eq_zero_or_pos n with rfl | hn
      · refine iff_of_false (by rintro ⟨⟩) ?_
        rintro (hlt | ⟨_, _, _, -, hlt, -⟩)
        · exact absurd hlt (Nat.not_lt_zero _)
        · exact absurd hlt (Nat.not_lt_zero _)
      · rw [cutAt_cons c hn, hinside hn, weight_cons]
        split
        · rename_i hle
          rw [Option.map_eq_none_iff, ih]
          rcases Nat.eq_or_lt_of_le hle with rfl | hlt
          · -- the text is cut behind its first character
            have hno : ¬ Inside size s (size c - size c) := by
              rintro ⟨_, _, _, -, hlt, -⟩
              omega
            constructor
            · rintro (hlt | hin)
              · omega
              · exact absurd hin hno
            · rintro (hlt | hlt | ⟨hlt, -⟩) <;> omega
          · constructor
            · rintro (hshort | hin)
              · exact .inl (by omega)
              · exact .inr (.inr ⟨hlt, hin⟩)
            · rintro (hshort | hlong | ⟨-, hin⟩)
              · exact .inl (by omega)
              · omega
              · exact .inr hin
        · rename_i hlong
          exact iff_of_true rfl (.inr (.inl (Nat.not_le.mp hlong)))

section Cut

variable (hpos : ∀ c : α, 0 < size c)

include hpos

/-- A text can be cut behind its front. -/
theorem cutAt_front (front back : List α) :
    cutAt size (front ++ back) (weight size front) = some (front, back) := by
  induction front with
  | nil =>
      cases back with
      | nil => rfl
      | cons c back => rfl
  | cons c front ih =>
      have hfirst := hpos c
      have hrest : size c + weight size front - size c = weight size front := by omega
      rw [weight_cons, List.cons_append, cutAt_cons c (by omega), if_pos (by omega), hrest, ih]
      rfl

/-- The pieces are the front, which ends at the position, and what follows. -/
theorem cutAt_eq_some {s front back : List α} {n : ℕ} :
    cutAt size s n = some (front, back) ↔ s = front ++ back ∧ weight size front = n := by
  constructor
  · intro h
    induction s generalizing front n with
    | nil =>
        cases n with
        | zero =>
            cases h
            exact ⟨rfl, rfl⟩
        | succ n => cases h
    | cons c s ih =>
        cases n with
        | zero =>
            cases h
            exact ⟨rfl, rfl⟩
        | succ n =>
            rw [cutAt_cons c n.succ_pos] at h
            split at h
            · rename_i hle
              obtain ⟨⟨front', back'⟩, hcut, heq⟩ := Option.map_eq_some_iff.mp h
              cases heq
              obtain ⟨rfl, hweight⟩ := ih hcut
              refine ⟨rfl, ?_⟩
              rw [weight_cons, hweight]
              omega
            · cases h
  · rintro ⟨rfl, rfl⟩
    exact cutAt_front hpos front back

/-- What stands behind a front. -/
theorem slice_append (front : List α) {back : List α} {start stop : ℕ}
    (hstart : weight size front = start) :
    slice size (front ++ back) start stop = (cutAt size back (stop - start)).map Prod.fst := by
  rw [slice, (cutAt_eq_some hpos).mpr ⟨rfl, hstart⟩, Option.bind_some]

end Cut

end Nazh.Lib
