import Mathlib.Tactic.Common

/-!
# Computations with a state and a bound

A computation changes a state, fails or gives a value, and may use up the fuel it was given.
Recursive programs are computations for every fuel; what they do with enough of it is what
they do.

Two computations over different states are compared step by step: from related states both run
out or both end alike in related states, unless the first has departed from the second.

## Main definitions

* `Fueled σ ε α` — a computation; `collect` — one for each element of a list.
* `Fueled.Yields P x a` — from states with `P` it gives `a`, and `P` holds after it.
* `Fueled.Returns x` — it never runs out.
* `Fueled.Ends x s r s'` — with enough fuel it ends with `r`.
* `Fueled.Follows R Departs x y` — they end alike, from `R`-related states in `R`-related states,
  or `x` departs.
-/

namespace Nazh.Lib

/-- A computation over `σ` that gives an `α` or an error, or runs out of fuel. -/
def Fueled (σ ε α : Type) : Type := σ → Option (Except ε α × σ)

namespace Fueled

variable {σ τ ε α β : Type}

/-- Stop with an error. -/
def fail (e : ε) : Fueled σ ε α := fun s => some (.error e, s)

/-- There is no fuel left. -/
def exhausted : Fueled σ ε α := fun _ => none

/-- Go on with a value, or stop with an error. -/
def ofExcept (r : Except ε α) : Fueled σ ε α := fun s => some (r, s)

/-- Read the state and change it. -/
def access (f : σ → α × σ) : Fueled σ ε α := fun s => some (.ok (f s).1, (f s).2)

instance : Monad (Fueled σ ε) where
  pure a := fun s => some (.ok a, s)
  bind x f := fun s => match x s with
    | none => none
    | some (.error e, s') => some (.error e, s')
    | some (.ok a, s') => f a s'

/-- The values of one computation for each element, in their order. -/
def collect (f : α → Fueled σ ε β) : List α → Fueled σ ε (List β)
  | [] => pure []
  | x :: xs => do
      let y ← f x
      let ys ← collect f xs
      return y :: ys

variable {x : Fueled σ ε α} {f : α → Fueled σ ε β} {s s' : σ}

/-- What a sequence does, by how its first step ends. -/
theorem bind_cases (x : Fueled σ ε α) (f : α → Fueled σ ε β) (s : σ) :
    (x s = none ∧ (x >>= f) s = none) ∨
    (∃ e s₁, x s = some (.error e, s₁) ∧ (x >>= f) s = some (.error e, s₁)) ∨
    ∃ a s₁, x s = some (.ok a, s₁) ∧ (x >>= f) s = f a s₁ := by
  cases h : x s with
  | none => exact .inl ⟨rfl, by simp [bind, h]⟩
  | some r =>
      obtain ⟨r, s₁⟩ := r
      cases r with
      | error e => exact .inr (.inl ⟨e, s₁, rfl, by simp [bind, h]⟩)
      | ok a => exact .inr (.inr ⟨a, s₁, rfl, by simp [bind, h]⟩)

/-- A sequence gives a value when its steps do. -/
theorem bind_eq_ok {b : β} : (x >>= f) s = some (.ok b, s') ↔
    ∃ a s₁, x s = some (.ok a, s₁) ∧ f a s₁ = some (.ok b, s') := by
  rcases bind_cases x f s with ⟨hx, h⟩ | ⟨e, s₁, hx, h⟩ | ⟨a, s₁, hx, h⟩
  · simp [hx, h]
  · simp [hx, h]
  · rw [h]
    constructor
    · intro hf
      exact ⟨a, s₁, hx, hf⟩
    · rintro ⟨a', s₁', hx', hf⟩
      rw [hx] at hx'
      cases hx'
      exact hf

@[simp] theorem pure_eq_ok {a b : α} :
    (pure a : Fueled σ ε α) s = some (.ok b, s') ↔ a = b ∧ s = s' := by
  simp [pure]

/-- One value for each element. -/
theorem length_of_collect {f : α → Fueled σ ε β} {xs : List α} {ys : List β}
    (h : collect f xs s = some (.ok ys, s')) : ys.length = xs.length := by
  induction xs generalizing ys s s' with
  | nil =>
      rw [collect, pure_eq_ok] at h
      rw [← h.1]
      rfl
  | cons x xs ih =>
      simp only [collect, bind_eq_ok, pure_eq_ok] at h
      obtain ⟨y, s₁, -, ys', s₂, hys, rfl, -⟩ := h
      rw [List.length_cons, List.length_cons, ih hys]

/-! ## Values -/

/-- From every state with `P` the value is `a`, and `P` holds after it. -/
def Yields (P : σ → Prop) (x : Fueled σ ε α) (a : α) : Prop :=
  ∀ s, P s → ∃ s', P s' ∧ x s = some (.ok a, s')

section Yields

variable {P : σ → Prop} {a : α} {b : β}

theorem Yields.pure (a : α) : Yields P (pure a : Fueled σ ε α) a := fun s hs => ⟨s, hs, rfl⟩

theorem Yields.bind (hx : Yields P x a) (hf : Yields P (f a) b) : Yields P (x >>= f) b := by
  intro s hs
  obtain ⟨s₁, hs₁, hxs⟩ := hx s hs
  obtain ⟨s₂, hs₂, hfs⟩ := hf s₁ hs₁
  exact ⟨s₂, hs₂, bind_eq_ok.mpr ⟨a, s₁, hxs, hfs⟩⟩

theorem Yields.collect {f : α → Fueled σ ε β} {g : α → β} {xs : List α}
    (h : ∀ x ∈ xs, Yields P (f x) (g x)) : Yields P (collect f xs) (xs.map g) := by
  induction xs with
  | nil => exact Yields.pure []
  | cons x xs ih =>
      refine (h x List.mem_cons_self).bind ((ih fun y hy => ?_).bind (Yields.pure _))
      exact h y (List.mem_cons_of_mem _ hy)

end Yields

/-! ## Enough fuel -/

/-- It never runs out. -/
def Returns (x : Fueled σ ε α) : Prop := ∀ s, x s ≠ none

theorem Returns.pure (a : α) : Returns (pure a : Fueled σ ε α) := fun _ => nofun
theorem Returns.fail (e : ε) : Returns (fail e : Fueled σ ε α) := fun _ => nofun
theorem Returns.ofExcept (r : Except ε α) : Returns (ofExcept r : Fueled σ ε α) := fun _ => nofun
theorem Returns.access (f : σ → α × σ) : Returns (access f : Fueled σ ε α) := fun _ => nofun

theorem Returns.bind (hx : Returns x) (hf : ∀ a, Returns (f a)) : Returns (x >>= f) := by
  intro s hnone
  rcases bind_cases x f s with ⟨hxs, -⟩ | ⟨e, s₁, -, h⟩ | ⟨a, s₁, -, h⟩
  · exact hx s hxs
  · rw [h] at hnone
    cases hnone
  · rw [h] at hnone
    exact hf a s₁ hnone

theorem Returns.collect {f : α → Fueled σ ε β} {xs : List α} (h : ∀ x ∈ xs, Returns (f x)) :
    Returns (collect f xs) := by
  induction xs with
  | nil => exact Returns.pure []
  | cons x xs ih =>
      refine (h x List.mem_cons_self).bind fun y => Returns.bind (ih fun z hz => ?_) fun ys => ?_
      · exact h z (List.mem_cons_of_mem _ hz)
      · exact Returns.pure _

theorem collect_congr {f g : α → Fueled σ ε β} {xs : List α} (h : ∀ x ∈ xs, f x = g x) :
    collect f xs = collect g xs := by
  induction xs with
  | nil => rfl
  | cons x xs ih =>
      rw [collect, collect, h x List.mem_cons_self, ih fun y hy => h y (List.mem_cons_of_mem _ hy)]

/-- With enough fuel it ends in `s'`, with the result `r`. -/
def Ends (x : ℕ → Fueled σ ε α) (s : σ) (r : Except ε α) (s' : σ) : Prop :=
  ∃ bound, ∀ fuel ≥ bound, x fuel s = some (r, s')

/-- Where more fuel than `bound` makes no difference, it ends as it does with that much. -/
theorem ends_iff {x : ℕ → Fueled σ ε α} {bound : ℕ} (h : ∀ fuel ≥ bound, x fuel = x bound)
    {s s' : σ} {r : Except ε α} : Ends x s r s' ↔ x bound s = some (r, s') := by
  constructor
  · rintro ⟨bound', hends⟩
    rw [← h (max bound bound') (Nat.le_max_left ..)]
    exact hends _ (Nat.le_max_right ..)
  · intro hends
    refine ⟨bound, ?_⟩
    intro fuel hfuel
    rw [h fuel hfuel, hends]

/-! ## One computation after another -/

/-- From related states both run out, or both end alike in related states, or the first departs
from the second: it stops with an error that says so. -/
def Follows (R : σ → τ → Prop) (Departs : ε → Prop) (x : Fueled σ ε α) (y : Fueled τ ε α) : Prop :=
  ∀ s t, R s t → (x s = none ∧ y t = none) ∨
    (∃ r s' t', x s = some (r, s') ∧ y t = some (r, t') ∧ R s' t') ∨
    ∃ e s' t', x s = some (.error e, s') ∧ Departs e ∧ R s' t'

section Follows

variable {R : σ → τ → Prop} {Departs : ε → Prop} {y : Fueled τ ε α} {g : α → Fueled τ ε β}

theorem Follows.pure (a : α) :
    Follows R Departs (pure a : Fueled σ ε α) (pure a : Fueled τ ε α) :=
  fun s t h => .inr (.inl ⟨.ok a, s, t, rfl, rfl, h⟩)

theorem Follows.ofExcept (r : Except ε α) :
    Follows R Departs (ofExcept r : Fueled σ ε α) (ofExcept r : Fueled τ ε α) :=
  fun s t h => .inr (.inl ⟨r, s, t, rfl, rfl, h⟩)

theorem Follows.fail (e : ε) :
    Follows R Departs (fail e : Fueled σ ε α) (fail e : Fueled τ ε α) := Follows.ofExcept _

theorem Follows.access {f : σ → α × σ} {g : τ → α × τ}
    (h : ∀ s t, R s t → (f s).1 = (g t).1 ∧ R (f s).2 (g t).2) :
    Follows R Departs (access f : Fueled σ ε α) (access g : Fueled τ ε α) := by
  intro s t hR
  obtain ⟨heq, hR'⟩ := h s t hR
  exact .inr (.inl ⟨.ok (f s).1, (f s).2, (g t).2, rfl, by rw [heq, Fueled.access], hR'⟩)

/-- The rest is to follow for the values that the second computation can give. -/
theorem Follows.bind (hx : Follows R Departs x y)
    (hf : ∀ a, (∃ t t', y t = some (.ok a, t')) → Follows R Departs (f a) (g a)) :
    Follows R Departs (x >>= f) (y >>= g) := by
  intro s t hR
  rcases hx s t hR with ⟨hxs, hyt⟩ | ⟨r, s', t', hxs, hyt, hR'⟩ | ⟨e, s', t', hxs, he, hR'⟩
  · exact .inl ⟨by simp [Bind.bind, hxs], by simp [Bind.bind, hyt]⟩
  · cases r with
    | error e =>
        refine .inr (.inl ⟨.error e, s', t', ?_, ?_, hR'⟩)
        · simp [Bind.bind, hxs]
        · simp [Bind.bind, hyt]
    | ok a => simpa [Bind.bind, hxs, hyt] using hf a ⟨t, t', hyt⟩ s' t' hR'
  · exact .inr (.inr ⟨e, s', t', by simp [Bind.bind, hxs], he, hR'⟩)

theorem Follows.collect {f : α → Fueled σ ε β} {g : α → Fueled τ ε β} {xs : List α}
    (h : ∀ x ∈ xs, Follows R Departs (f x) (g x)) : Follows R Departs (collect f xs) (collect g xs) := by
  induction xs with
  | nil => exact Follows.pure []
  | cons x xs ih =>
      refine (h x List.mem_cons_self).bind fun y _ => Follows.bind (ih fun z hz => ?_) fun ys _ => ?_
      · exact h z (List.mem_cons_of_mem _ hz)
      · exact Follows.pure _

end Follows

end Fueled
end Nazh.Lib
