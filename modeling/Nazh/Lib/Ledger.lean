import Mathlib.Algebra.BigOperators.Group.List.Basic
import Mathlib.Algebra.Ring.Nat
import Mathlib.Logic.Function.Basic
import Nazh.Lib.Machine

/-!
# Reference-count ledgers

A reference-counted store counts, for each identifier, the units that remain to
be released. The parties that still owe a release hold tickets. The ledger puts
the two side by side: `remaining d` is what the store says, `tickets d` is what
the parties hold.

Two inequalities are the two halves of a correct protocol. A ledger is `Solvent`
when no identifier has more tickets than units, so that whoever holds a ticket
finds the entry. It is `Covered` when no identifier has more units than tickets,
so that an entry nobody holds a ticket for is gone.

Minting, spending and leaving the ledger alone preserve both. Shedding tickets
preserves the first and breaks the second; forging one preserves the second and
breaks the first.

## Main definitions

* `tally` — what a list of parties holds together.
* `Ledger`, `Ledger.Solvent`, `Ledger.Covered` — the two halves of a correct protocol.
* `Machine.solvent_of_moves`, `Machine.covered_of_moves` — the rules for machines
  that move their ledger step by step.
-/

namespace Nazh.Lib

universe u v

/-! ## Tallies over a list

The tickets of a system are counted party by party, and a step changes one
party at a time. -/

section Tally

variable {α : Type u} {β : Type v} (f : α → ℕ)

/-- The sum of `f` over a list. -/
def tally (l : List α) : ℕ := (l.map f).sum

@[simp] theorem tally_nil : tally f [] = 0 := rfl

@[simp] theorem tally_cons (a : α) (l : List α) : tally f (a :: l) = f a + tally f l := by
  simp [tally]

@[simp] theorem tally_append (l l' : List α) : tally f (l ++ l') = tally f l + tally f l' := by
  simp [tally]

/-- Replacing one member exchanges its share of the tally. -/
theorem tally_set {l : List α} {i : ℕ} {a : α} (b : α) (h : l[i]? = some a) :
    tally f (l.set i b) + f a = tally f l + f b := by
  induction l generalizing i with
  | nil => simp at h
  | cons x l ih =>
      cases i with
      | zero =>
          simp only [List.getElem?_cons_zero, Option.some.injEq] at h
          subst h
          simp only [List.set_cons_zero, tally_cons]
          omega
      | succ i =>
          have hset := ih (i := i) (by simpa using h)
          simp only [List.set_cons_succ, tally_cons]
          omega

/-- A member's share is part of the tally. -/
theorem le_tally {l : List α} {a : α} (h : a ∈ l) : f a ≤ tally f l := by
  induction l with
  | nil => simp at h
  | cons x l ih =>
      rw [tally_cons]
      rcases List.mem_cons.mp h with rfl | h
      · omega
      · have := ih h
        omega

/-- A tally vanishes exactly when every share does. -/
theorem tally_eq_zero_iff {l : List α} : tally f l = 0 ↔ ∀ a ∈ l, f a = 0 := by
  constructor
  · intro h a ha
    have := le_tally f ha
    omega
  · intro h
    induction l with
    | nil => rfl
    | cons x l ih => simp [h x, ih fun a ha => h a (List.mem_cons_of_mem _ ha)]

end Tally

/-! ## Ledgers -/

/-- What a store counts and what the parties hold, for each identifier. -/
@[ext] structure Ledger (ι : Type u) where
  /-- The units the store still counts. -/
  remaining : ι → ℕ
  /-- The tickets held. -/
  tickets : ι → ℕ

namespace Ledger

variable {ι : Type u} [DecidableEq ι] {L L' : Ledger ι}

/-- No identifier has more tickets than units. -/
def Solvent (L : Ledger ι) : Prop := ∀ d, L.tickets d ≤ L.remaining d

/-- No identifier has more units than tickets. -/
def Covered (L : Ledger ι) : Prop := ∀ d, L.remaining d ≤ L.tickets d

/-- Write `n` units of `d` and hand out as many tickets. -/
def mint (L : Ledger ι) (d : ι) (n : ℕ) : Ledger ι :=
  ⟨Function.update L.remaining d n, Function.update L.tickets d (L.tickets d + n)⟩

/-- Hand a ticket of `d` in and release one unit, or nothing where none is left. -/
def spend (L : Ledger ι) (d : ι) : Ledger ι :=
  ⟨Function.update L.remaining d (L.remaining d - 1),
    Function.update L.tickets d (L.tickets d - 1)⟩

/-- Hand out a ticket of `d` with no unit behind it. -/
def forge (L : Ledger ι) (d : ι) : Ledger ι :=
  ⟨L.remaining, Function.update L.tickets d (L.tickets d + 1)⟩

/-- The honest moves: nothing, a mint of an identifier nobody holds, a spend. -/
inductive Honest (L : Ledger ι) : Ledger ι → Prop
  | keep : Honest L L
  | mint (d : ι) (n : ℕ) : L.tickets d = 0 → Honest L (L.mint d n)
  | spend (d : ι) : Honest L (L.spend d)

theorem Honest.of_keep (hr : L'.remaining = L.remaining)
    (ht : ∀ e, L'.tickets e = L.tickets e) : Honest L L' := by
  have : L' = L := Ledger.ext hr (funext ht)
  exact this ▸ .keep

theorem Honest.of_mint (d : ι) (n : ℕ) (hd : L.tickets d = 0)
    (hr : L'.remaining = Function.update L.remaining d n)
    (ht : ∀ e, L'.tickets e = L.tickets e + if e = d then n else 0) : Honest L L' := by
  have : L' = L.mint d n := by
    refine Ledger.ext hr (funext ?_)
    intro e
    rw [ht]
    by_cases he : e = d
    · subst he
      simp [Ledger.mint]
    · simp [Ledger.mint, he]
  exact this ▸ .mint d n hd

theorem Honest.of_spend (d : ι) (hr : L'.remaining = Function.update L.remaining d (L.remaining d - 1))
    (ht : ∀ e, (L'.tickets e + if e = d then 1 else 0) = L.tickets e) : Honest L L' := by
  have : L' = L.spend d := by
    refine Ledger.ext hr (funext ?_)
    intro e
    by_cases he : e = d
    · subst he
      have := ht e
      simp only [if_true] at this
      simp only [Ledger.spend, Function.update_self]
      omega
    · have := ht e
      simp only [he, if_false, Nat.add_zero] at this
      simp [Ledger.spend, he, this]
  exact this ▸ .spend d

theorem eq_forge (d : ι) (hr : L'.remaining = L.remaining)
    (ht : ∀ e, L'.tickets e = L.tickets e + if e = d then 1 else 0) : L' = L.forge d := by
  refine Ledger.ext hr (funext ?_)
  intro e
  rw [ht]
  by_cases he : e = d
  · subst he
    simp [Ledger.forge]
  · simp [Ledger.forge, he]

/-- Tickets are thrown away; the store learns nothing of it. -/
def Shed (L L' : Ledger ι) : Prop :=
  L'.remaining = L.remaining ∧ ∀ d, L'.tickets d ≤ L.tickets d

/-- An honest move keeps every ticket backed. -/
theorem Solvent.honest (h : L.Solvent) (hm : Honest L L') : L'.Solvent := by
  intro e
  have he := h e
  cases hm with
  | keep => exact he
  | mint d n hd =>
      by_cases hed : e = d
      · subst hed
        simp [Ledger.mint, hd]
      · simpa [Ledger.mint, hed] using he
  | spend d =>
      by_cases hed : e = d
      · subst hed
        simp only [spend, Function.update_self]
        omega
      · simpa [spend, hed] using he

omit [DecidableEq ι] in
/-- So does throwing tickets away. -/
theorem Solvent.shed (h : L.Solvent) (hs : Shed L L') : L'.Solvent := by
  intro d
  rw [hs.1]
  exact Nat.le_trans (hs.2 d) (h d)

/-- An honest move leaves no unit without a ticket. -/
theorem Covered.honest (h : L.Covered) (hm : Honest L L') : L'.Covered := by
  intro e
  have he := h e
  cases hm with
  | keep => exact he
  | mint d n hd =>
      by_cases hed : e = d
      · subst hed
        simp [Ledger.mint]
      · simpa [Ledger.mint, hed] using he
  | spend d =>
      by_cases hed : e = d
      · subst hed
        simp only [spend, Function.update_self]
        omega
      · simpa [spend, hed] using he

/-- Neither does a forged ticket. -/
theorem Covered.forge (h : L.Covered) (d : ι) : (L.forge d).Covered := by
  intro e
  have he := h e
  by_cases hed : e = d
  · subst hed
    simp only [Ledger.forge, Function.update_self]
    omega
  · simpa [Ledger.forge, hed] using he

end Ledger

/-! ## Machines with a ledger -/

namespace Machine

variable {σ : Type u} {α : Type v} {ι : Type*} [DecidableEq ι] {M : Machine σ α}
  {ledger : σ → Ledger ι} {G : σ → α → Prop}

/-- A machine whose guarded steps are honest or shed tickets stays solvent. -/
theorem solvent_of_moves {J : σ → Prop} (hknown : ∀ s, M.ReachesUnder G s → J s)
    (hinit : ∀ s, M.init s → (ledger s).Solvent)
    (hstep : ∀ s a s', J s → G s a → M.step s a = some s' →
      Ledger.Honest (ledger s) (ledger s') ∨ Ledger.Shed (ledger s) (ledger s'))
    {s : σ} (h : M.ReachesUnder G s) : (ledger s).Solvent := by
  refine h.invariant_of (I := fun s => (ledger s).Solvent) hknown hinit
    fun s a s' hJ hI hG hs => ?_
  rcases hstep s a s' hJ hG hs with hm | hm
  · exact hI.honest hm
  · exact hI.shed hm

/-- A machine whose guarded steps are honest or forge a ticket stays covered. -/
theorem covered_of_moves {J : σ → Prop} (hknown : ∀ s, M.ReachesUnder G s → J s)
    (hinit : ∀ s, M.init s → (ledger s).Covered)
    (hstep : ∀ s a s', J s → G s a → M.step s a = some s' →
      Ledger.Honest (ledger s) (ledger s') ∨ ∃ d, ledger s' = (ledger s).forge d)
    {s : σ} (h : M.ReachesUnder G s) : (ledger s).Covered := by
  refine h.invariant_of (I := fun s => (ledger s).Covered) hknown hinit
    fun s a s' hJ hI hG hs => ?_
  rcases hstep s a s' hJ hG hs with hm | ⟨d, hd⟩
  · exact hI.honest hm
  · exact hd ▸ hI.forge d

end Machine
end Nazh.Lib
