import Mathlib.Tactic.Common

/-!
# Computations that may fail

What it means that a check, a sequence of steps or a loop of checks succeeds.

## Main definitions

* `ensure` — a check; `okOr` — the value of an option, or an error.
-/

namespace Nazh.Lib

variable {ε α β : Type}

/-- Go on if the condition holds. -/
def ensure (condition : Bool) (e : ε) : Except ε Unit := if condition then .ok () else .error e

/-- The value that is there, or an error. -/
def okOr (o : Option α) (e : ε) : Except ε α :=
  match o with
  | some a => .ok a
  | none => .error e

@[simp] theorem ensure_eq_ok {condition : Bool} {e : ε} {u : Unit} :
    ensure condition e = .ok u ↔ condition = true := by
  cases condition with
  | false => simp [ensure]
  | true => simp [ensure]

@[simp] theorem okOr_eq_ok {o : Option α} {e : ε} {a : α} : okOr o e = .ok a ↔ o = some a := by
  cases o with
  | none => simp [okOr]
  | some b => simp [okOr]

@[simp] theorem pure_eq_ok {a b : α} : (pure a : Except ε α) = .ok b ↔ a = b := by
  simp [pure, Except.pure]

/-- A computation that succeeds has its value. -/
theorem eq_ok_of_get {x : Except ε α} (h : x.toOption.isSome = true) :
    x = .ok (x.toOption.get h) := by
  cases x with
  | error e => cases h
  | ok a => rfl

theorem toOption_eq_some {x : Except ε α} {a : α} : x.toOption = some a ↔ x = .ok a := by
  cases x with
  | error e => simp [Except.toOption]
  | ok b => simp [Except.toOption]

/-- A sequence succeeds when its first step does and the rest does after it. -/
theorem bind_eq_ok {x : Except ε α} {f : α → Except ε β} {b : β} :
    (x >>= f) = .ok b ↔ ∃ a, x = .ok a ∧ f a = .ok b := by
  cases x with
  | error e => simp [bind, Except.bind]
  | ok a => simp [bind, Except.bind]

/-- The same for a first step that is a check. -/
theorem check_bind_eq_ok {x : Except ε Unit} {f : Unit → Except ε β} {b : β} :
    (x >>= f) = .ok b ↔ x = .ok () ∧ f () = .ok b := by
  cases x with
  | error e => simp [bind, Except.bind]
  | ok a => simp [bind, Except.bind]

/-- A loop of checks succeeds when each of them does. -/
theorem forM_eq_ok {xs : List α} {check : α → Except ε Unit} :
    xs.forM check = .ok () ↔ ∀ x ∈ xs, check x = .ok () := by
  induction xs with
  | nil => simp [List.forM]
  | cons x xs ih =>
      rw [List.forM, check_bind_eq_ok, ih]
      simp

/-- A loop that gives a value for each element gives them one by one. -/
theorem forall₂_of_mapM {xs : List α} {f : α → Except ε β} {bs : List β}
    (h : xs.mapM f = .ok bs) : List.Forall₂ (fun x b => f x = .ok b) xs bs := by
  induction xs generalizing bs with
  | nil =>
      cases h
      exact .nil
  | cons x xs ih =>
      rw [List.mapM_cons, bind_eq_ok] at h
      obtain ⟨b, hb, h⟩ := h
      obtain ⟨rest, hrest, h⟩ := bind_eq_ok.mp h
      cases h
      exact .cons hb (ih hrest)

/-- A loop that succeeds gave a value for each of the elements. -/
theorem exists_of_mapM {xs : List α} {f : α → Except ε β} {bs : List β} (h : xs.mapM f = .ok bs)
    {x : α} (hx : x ∈ xs) : ∃ b, f x = .ok b := by
  induction xs generalizing bs with
  | nil => cases hx
  | cons y xs ih =>
      rw [List.mapM_cons, bind_eq_ok] at h
      obtain ⟨b, hb, h⟩ := h
      obtain ⟨rest, hrest, -⟩ := bind_eq_ok.mp h
      rcases List.mem_cons.mp hx with rfl | hx
      · exact ⟨b, hb⟩
      · exact ih hrest hx

/-- A loop that gives a value for each element succeeds if each of its steps does. -/
theorem mapM_isOk {xs : List α} {f : α → Except ε β} (h : ∀ x ∈ xs, ∃ b, f x = .ok b) :
    ∃ bs, xs.mapM f = .ok bs := by
  induction xs with
  | nil => exact ⟨[], rfl⟩
  | cons x xs ih =>
      obtain ⟨⟨b, hb⟩, hxs⟩ := List.forall_mem_cons.mp h
      obtain ⟨bs, hbs⟩ := ih hxs
      refine ⟨b :: bs, ?_⟩
      rw [List.mapM_cons, bind_eq_ok]
      refine ⟨b, hb, ?_⟩
      rw [bind_eq_ok]
      exact ⟨bs, hbs, rfl⟩

/-! ## Changes of representation -/

section

variable {α' β' : Type} {f : α → α'} {h : β → β'}

/-- A sequence keeps a change of representation that its steps keep. -/
theorem bind_eq_map {x : Except ε α} {x' : Except ε α'} {g : α → Except ε β}
    {g' : α' → Except ε β'} (hx : x' = x.map f) (hg : ∀ a, g' (f a) = (g a).map h) :
    (x' >>= g') = (x >>= g).map h := by
  subst hx
  cases x with
  | error e => rfl
  | ok a => exact hg a

/-- The same where the first step is not changed. -/
theorem bind_eq_map_self {x x' : Except ε α} {g : α → Except ε β} {g' : α → Except ε β'}
    (hx : x' = x) (hg : ∀ a, g' a = (g a).map h) : (x' >>= g') = (x >>= g).map h := by
  subst hx
  cases x' with
  | error e => rfl
  | ok a => exact hg a

/-- So does a loop of checks that do not see the change. -/
theorem forM_map {change : α → α'} {check : α → Except ε Unit} {check' : α' → Except ε Unit}
    (hcheck : ∀ a, check' (change a) = check a) (xs : List α) :
    (xs.map change).forM check' = xs.forM check := by
  induction xs with
  | nil => rfl
  | cons x xs ih => rw [List.map_cons, List.forM, List.forM, hcheck, ih]

/-- And a loop that gives a value for each element. -/
theorem mapM_map {change : α → α'} {g : α → Except ε β} {g' : α' → Except ε β'}
    (hg : ∀ a, g' (change a) = (g a).map h) (xs : List α) :
    (xs.map change).mapM g' = (xs.mapM g).map (List.map h) := by
  induction xs with
  | nil => rfl
  | cons x xs ih =>
      rw [List.map_cons, List.mapM_cons, List.mapM_cons]
      refine bind_eq_map (hg x) fun b => bind_eq_map ih fun bs => ?_
      rfl

end

end Nazh.Lib
