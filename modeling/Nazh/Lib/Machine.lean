import Mathlib.Data.List.Infix
import Mathlib.Logic.Basic

/-!
# Machines, guarded runs and logs

A machine is a set of start states with an executable step function: `step s a`
is `none` where the action `a` is not enabled in `s`. Runs are taken under a
guard, a condition on the state before a step and on its action. A statement
"in every run whose steps all meet `G`" is a statement about `ReachesUnder G`;
the unguarded runs are those of the guard that is always true.

A logged machine carries the list of events its steps have shown. The log never
influences a step, so that a property of logs is a property of the runs.

## Main definitions

* `Machine.ReachesUnder G` — the states reached by runs that meet the guard `G`.
* `Machine.replay` — the guarded run along a given list of actions.
* `Machine.Along`, `Machine.Meets` — what holds along such a run.
* `Machine.logged` — a machine with the log of its steps.
* `Historical P` — the logs each event of which satisfies `P` of the events before it.
-/

namespace Nazh.Lib

universe u v w

/-- The states a run may start in and a guarded, executable step. -/
structure Machine (σ : Type u) (α : Type v) where
  /-- Where a run may start. -/
  init : σ → Prop
  /-- The state after an action, if the action is enabled. -/
  step : σ → α → Option σ

namespace Machine

variable {σ : Type u} {α : Type v} {ε : Type w} (M : Machine σ α)

/-- The states reached by runs every step of which meets the guard `G`. -/
inductive ReachesUnder (G : σ → α → Prop) : σ → Prop
  | start {s : σ} : M.init s → ReachesUnder G s
  | next {s s' : σ} {a : α} :
      ReachesUnder G s → G s a → M.step s a = some s' → ReachesUnder G s'

/-- The states reached by any run. -/
def Reaches : σ → Prop := M.ReachesUnder fun _ _ => True

variable {M} {G G' : σ → α → Prop}

/-- The rule for inductive invariants under a guard. -/
theorem ReachesUnder.invariant {I : σ → Prop} {s : σ} (hinit : ∀ s, M.init s → I s)
    (hstep : ∀ s a s', I s → G s a → M.step s a = some s' → I s')
    (h : M.ReachesUnder G s) : I s := by
  induction h with
  | start h₀ => exact hinit _ h₀
  | next _ hg hs ih => exact hstep _ _ _ ih hg hs

/-- The rule for an invariant whose step lemma may use an invariant already known. -/
theorem ReachesUnder.invariant_of {J I : σ → Prop} {s : σ}
    (hknown : ∀ s, M.ReachesUnder G s → J s) (hinit : ∀ s, M.init s → I s)
    (hstep : ∀ s a s', J s → I s → G s a → M.step s a = some s' → I s')
    (h : M.ReachesUnder G s) : I s := by
  induction h with
  | start h₀ => exact hinit _ h₀
  | next hr hg hs ih => exact hstep _ _ _ (hknown _ hr) ih hg hs

/-- A run that meets a guard meets every weaker one. -/
theorem ReachesUnder.mono {s : σ} (hG : ∀ s a, G s a → G' s a)
    (h : M.ReachesUnder G s) : M.ReachesUnder G' s := by
  induction h with
  | start h₀ => exact .start h₀
  | next _ hg hs ih => exact .next ih (hG _ _ hg) hs

/-- A guarded run is a run. -/
theorem ReachesUnder.reaches {s : σ} (h : M.ReachesUnder G s) : M.Reaches s :=
  h.mono fun _ _ _ => trivial

variable (M) in
/-- The run along a list of actions, if each meets the guard `g` and is enabled in
its turn. -/
def replay (g : σ → α → Bool) (s : σ) : List α → Option σ
  | [] => some s
  | a :: acts => if g s a then (M.step s a).bind fun s' => replay g s' acts else none

/-- A replay from a reached state ends in a reached state. -/
theorem ReachesUnder.replay {g : σ → α → Bool} {s s' : σ} {acts : List α}
    (hs : M.ReachesUnder (fun s a => g s a) s) (h : M.replay g s acts = some s') :
    M.ReachesUnder (fun s a => g s a) s' := by
  induction acts generalizing s with
  | nil =>
      simp only [Machine.replay, Option.some.injEq] at h
      exact h ▸ hs
  | cons a acts ih =>
      rw [Machine.replay] at h
      split at h
      · obtain ⟨t, ht, hrest⟩ := Option.bind_eq_some_iff.mp h
        exact ih (.next hs ‹_› ht) hrest
      · cases h

/-- A replay from a start that ends in a state with a property shows one that is reached. -/
theorem exists_reachesUnder_of_replay {g : σ → α → Bool} {s : σ} {acts : List α} {p : σ → Bool}
    (hinit : M.init s) (h : (M.replay g s acts).any p = true) :
    ∃ s', M.ReachesUnder (fun s a => g s a) s' ∧ p s' = true := by
  obtain ⟨s', hs', hp⟩ := (Option.any_eq_true _ _).mp h
  exact ⟨s', .replay (.start hinit) hs', hp⟩

/-- The same for a replay without a guard. -/
theorem exists_reaches_of_replay {s : σ} {acts : List α} {p : σ → Bool} (hinit : M.init s)
    (h : (M.replay (fun _ _ => true) s acts).any p = true) : ∃ s', M.Reaches s' ∧ p s' = true := by
  obtain ⟨s', hs', hp⟩ := exists_reachesUnder_of_replay hinit h
  exact ⟨s', hs'.reaches, hp⟩

variable (M) in
/-- The runs that start in one state. -/
def startingAt (s₀ : σ) : Machine σ α := { M with init := (· = s₀) }

/-! ## Runs along a list of actions -/

variable (M) in
/-- `P` holds in every state of the run along a list of actions. -/
def Along (P : σ → Prop) : σ → List α → Prop
  | s, [] => P s
  | s, a :: acts => P s ∧ ∃ s', M.step s a = some s' ∧ Along P s' acts

variable (M) in
/-- Every step of the run along a list of actions meets the guard. -/
def Meets (G : σ → α → Prop) : σ → List α → Prop
  | _, [] => True
  | s, a :: acts => G s a ∧ ∃ s', M.step s a = some s' ∧ Meets G s' acts

/-- A replay that goes through meets its guard. -/
theorem Meets.of_replay {g : σ → α → Bool} {s : σ} {acts : List α}
    (h : (M.replay g s acts).isSome = true) : M.Meets (fun s a => g s a = true) s acts := by
  induction acts generalizing s with
  | nil => trivial
  | cons a acts ih =>
      rw [Machine.replay] at h
      split at h
      · rename_i hg
        cases hstep : M.step s a with
        | none =>
            rw [hstep] at h
            cases h
        | some s' =>
            rw [hstep] at h
            exact ⟨hg, s', hstep, ih h⟩
      · cases h

theorem Along.head {P : σ → Prop} {s : σ} {acts : List α} (h : M.Along P s acts) : P s := by
  cases acts with
  | nil => exact h
  | cons a acts => exact h.1

/-- If a guard says exactly which steps keep `P`, then `P` holds along exactly the runs that meet
it. -/
theorem along_iff_meets {J P : σ → Prop} {s : σ} {acts : List α}
    (hknown : ∀ s a s', J s → M.step s a = some s' → J s')
    (hexact : ∀ s a s', J s → P s → M.step s a = some s' → (P s' ↔ G s a))
    (hJ : J s) (hP : P s) : M.Along P s acts ↔ M.Meets G s acts := by
  induction acts generalizing s with
  | nil => exact iff_of_true hP trivial
  | cons a acts ih =>
      constructor
      · intro h
        obtain ⟨-, s', hs, hrest⟩ := h
        have hP' := hrest.head
        exact ⟨(hexact s a s' hJ hP hs).mp hP', s', hs, (ih (hknown s a s' hJ hs) hP').mp hrest⟩
      · intro h
        obtain ⟨hG, s', hs, hrest⟩ := h
        have hP' := (hexact s a s' hJ hP hs).mpr hG
        exact ⟨hP, s', hs, (ih (hknown s a s' hJ hs) hP').mpr hrest⟩

/-! ## Logs -/

variable (M) in
/-- The machine `M` with a log; `event s a s'` is what a step adds to it. -/
def logged (event : σ → α → σ → List ε) : Machine (σ × List ε) α where
  init s := M.init s.1 ∧ s.2 = []
  step s a := (M.step s.1 a).map fun s' => (s', s.2 ++ event s.1 a s')

/-- What a step of a logged machine is. -/
theorem logged_step {event : σ → α → σ → List ε} {s s' : σ × List ε} {a : α} :
    (M.logged event).step s a = some s' ↔
      M.step s.1 a = some s'.1 ∧ s'.2 = s.2 ++ event s.1 a s'.1 := by
  obtain ⟨t', l'⟩ := s'
  simp only [logged, Option.map_eq_some_iff, Prod.mk.injEq]
  constructor
  · rintro ⟨t, ht, rfl, rfl⟩
    exact ⟨ht, rfl⟩
  · rintro ⟨ht, rfl⟩
    exact ⟨t', ht, rfl, rfl⟩

/-- The rule for an invariant of the states and their logs. -/
theorem Reaches.invariant_logged {event : σ → α → σ → List ε} {I : σ → List ε → Prop}
    {s : σ × List ε} (hinit : ∀ s, M.init s → I s [])
    (hstep : ∀ s log a s', I s log → M.step s a = some s' → I s' (log ++ event s a s'))
    (h : (M.logged event).Reaches s) : I s.1 s.2 := by
  refine ReachesUnder.invariant (I := fun s => I s.1 s.2) ?_ ?_ h
  · rintro ⟨s, log⟩ ⟨hs, rfl⟩
    exact hinit s hs
  · intro s a s' hI _ hs
    obtain ⟨hs, hlog⟩ := logged_step.mp hs
    exact hlog ▸ hstep s.1 s.2 a s'.1 hI hs

end Machine

/-! ## Histories -/

section Histories

variable {ε : Type w} {P : List ε → ε → Prop} {log : List ε} {e : ε}

/-- Every event of the log satisfies `P` relative to the events before it. -/
def Historical (P : List ε → ε → Prop) (log : List ε) : Prop :=
  ∀ pre e, pre ++ [e] <+: log → P pre e

theorem historical_nil : Historical P [] := by
  intro pre e h
  simp at h

theorem historical_append_singleton :
    Historical P (log ++ [e]) ↔ Historical P log ∧ P log e := by
  constructor
  · intro h
    refine ⟨fun pre e' hpre => h pre e' (hpre.trans (List.prefix_append _ _)), ?_⟩
    exact h log e (List.prefix_refl _)
  · rintro ⟨hlog, he⟩ pre e' hpre
    rcases List.prefix_concat_iff.mp hpre with heq | hold
    · obtain ⟨rfl, rfl⟩ := List.append_inj' heq rfl |>.imp id List.singleton_inj.mp
      exact he
    · exact hlog pre e' hold

end Histories
end Nazh.Lib
