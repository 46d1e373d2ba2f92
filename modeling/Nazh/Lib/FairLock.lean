import Mathlib.Data.List.Nodup

/-!
# A fair lock

Who has the lock stands first in a line, and who waits for it stands behind. Whoever leaves the
line, from its head or from its middle, lets the others move up, so that the lock is never free
while somebody waits.

## Main definitions

* `FairLock` — the line.
* `FairLock.lock`, `FairLock.tryLock`, `FairLock.leave` — its operations.

## Main results

* `mem_lock`, `mem_leave` — who stands in line after them.
* `holder_lock`, `holder_leave` — who has the lock keeps it.
-/

namespace Nazh.Lib

universe u

/-- A lock: nobody stands in its line twice. -/
structure FairLock (α : Type u) where
  line : List α
  nodup : line.Nodup

namespace FairLock

variable {α : Type u} {m m' : FairLock α} {a b : α}

/-- Nobody has it. -/
def free : FairLock α := ⟨[], List.nodup_nil⟩

/-- Who has it. -/
def holder (m : FairLock α) : Option α := m.line.head?

/-- To take it, or else to wait for it. -/
def lock [DecidableEq α] (m : FairLock α) (a : α) : FairLock α :=
  if h : a ∈ m.line then m
  else ⟨m.line ++ [a], m.nodup.append (List.nodup_singleton a) (List.disjoint_singleton.mpr h)⟩

/-- To take it, or else to give up. -/
def tryLock (m : FairLock α) (a : α) : Option (FairLock α) :=
  if m.line.isEmpty then some ⟨[a], List.nodup_singleton a⟩ else none

/-- To give it back, or to wait no longer. -/
def leave [DecidableEq α] (m : FairLock α) (a : α) : FairLock α :=
  ⟨m.line.erase a, m.nodup.erase a⟩

theorem mem_line_of_holder (h : m.holder = some a) : a ∈ m.line := List.mem_of_mem_head? h

/-- While somebody stands in line, somebody has the lock. -/
theorem exists_holder (h : a ∈ m.line) : ∃ b, m.holder = some b :=
  Option.isSome_iff_exists.mp (List.isSome_head?.mpr (List.ne_nil_of_mem h))

theorem mem_lock [DecidableEq α] : b ∈ (m.lock a).line ↔ b ∈ m.line ∨ b = a := by
  by_cases h : a ∈ m.line
  · rw [lock, dif_pos h]
    constructor
    · exact .inl
    · rintro (hb | rfl)
      · exact hb
      · exact h
  · rw [lock, dif_neg h]
    exact List.mem_append.trans (or_congr_right List.mem_singleton)

theorem mem_leave [DecidableEq α] : b ∈ (m.leave a).line ↔ b ≠ a ∧ b ∈ m.line :=
  m.nodup.mem_erase_iff

/-- Nobody gets past the one who has the lock. -/
theorem holder_lock [DecidableEq α] (h : m.holder = some b) : (m.lock a).holder = some b := by
  by_cases hmem : a ∈ m.line
  · rw [lock, dif_pos hmem]
    exact h
  · rw [lock, dif_neg hmem]
    exact List.head?_append.trans (Option.or_of_isSome (Option.isSome_of_eq_some h) |>.trans h)

/-- Others that leave do not take the lock along. -/
theorem holder_leave [DecidableEq α] (h : m.holder = some b) (hne : b ≠ a) :
    (m.leave a).holder = some b := by
  obtain ⟨line, hnodup⟩ := m
  cases line with
  | nil => cases h
  | cons c rest =>
      have hc : c = b := Option.some.inj h
      have hca : (c == a) = false := beq_false_of_ne (hc ▸ hne)
      change ((c :: rest).erase a).head? = some b
      rw [List.erase_cons, if_neg (by rw [hca]; decide), List.head?_cons, hc]

/-- `tryLock` succeeds on a lock that nobody has. -/
theorem tryLock_eq_some_iff :
    m.tryLock a = some m' ↔ m.line = [] ∧ m'.line = [a] := by
  rw [tryLock]
  cases hline : m.line with
  | nil =>
      constructor
      · intro h
        exact ⟨rfl, congrArg line (Option.some.inj h).symm⟩
      · rintro ⟨-, hm⟩
        obtain ⟨line', hnodup⟩ := m'
        obtain rfl : line' = [a] := hm
        rfl
  | cons b rest =>
      constructor
      · intro h
        cases h
      · rintro ⟨h, -⟩
        cases h

/-- It fails if somebody stands in line. -/
theorem tryLock_eq_none_iff : m.tryLock a = none ↔ ∃ b, b ∈ m.line := by
  rw [tryLock]
  cases hline : m.line with
  | nil =>
      constructor
      · intro h
        cases h
      · rintro ⟨b, hb⟩
        cases hb
  | cons b rest => exact iff_of_true rfl ⟨b, List.mem_cons_self⟩

end FairLock

end Nazh.Lib
