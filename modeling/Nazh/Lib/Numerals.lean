import Mathlib.Tactic.Common
import Mathlib.Tactic.Ring

/-!
# Numerals

Numbers are written in some base with digits that may be letters, of either case, and read with or
without a bound that may not be exceeded on the way.

## Main definitions

* `digitValue` — what a character stands for in a base.
* `readNumeral` — the number that digits stand for.
* `readBounded` — reading that stops at what is no digit, or beyond a bound.

## Main results

* `readNumeral_toDigits` — a number that was written is read back.
* `readBounded_eq_ok_iff` — what is read with a bound.
-/

namespace Nazh.Lib

/-- The value of a digit or a letter. -/
def characterValue (c : Char) : Option ℕ :=
  if '0'.toNat ≤ c.toNat ∧ c.toNat ≤ '9'.toNat then some (c.toNat - '0'.toNat)
  else if 'a'.toNat ≤ c.toNat ∧ c.toNat ≤ 'z'.toNat then some (c.toNat - 'a'.toNat + 10)
  else if 'A'.toNat ≤ c.toNat ∧ c.toNat ≤ 'Z'.toNat then some (c.toNat - 'A'.toNat + 10)
  else none

/-- `char::to_digit`. -/
def digitValue (base : ℕ) (c : Char) : Option ℕ :=
  (characterValue c).filter fun value => value < base

/-- The number that digits stand for behind one that was read, if all are digits. -/
def readNumeral (base : ℕ) : ℕ → List Char → Option ℕ
  | acc, [] => some acc
  | acc, c :: cs => (digitValue base c).bind fun d => readNumeral base (acc * base + d) cs

/-- Read digits on. The first that is none, or that exceeds the bound, ends it. -/
def readBounded {ε : Type} (base bound : ℕ) (invalid overflow : ε) :
    ℕ → List Char → Except ε ℕ
  | acc, [] => .ok acc
  | acc, c :: cs => match digitValue base c with
    | none => .error invalid
    | some d =>
        if acc * base + d ≤ bound then readBounded base bound invalid overflow (acc * base + d) cs
        else .error overflow

section

variable {ε : Type} {base bound acc n : ℕ} {invalid overflow : ε} {c : Char} {cs : List Char}

theorem characterValue_digitChar : ∀ d : Fin 16, characterValue (Nat.digitChar d) = some d.val := by
  decide

theorem digitValue_digitChar {d : ℕ} (hbase : base ≤ 16) (hd : d < base) :
    digitValue base (Nat.digitChar d) = some d := by
  have hvalue := characterValue_digitChar ⟨d, hd.trans_le hbase⟩
  rw [digitValue, hvalue, Option.filter_some, if_pos (decide_eq_true hd)]

theorem readNumeral_append (xs ys : List Char) :
    readNumeral base acc (xs ++ ys) =
      (readNumeral base acc xs).bind fun n => readNumeral base n ys := by
  induction xs generalizing acc with
  | nil => rfl
  | cons c xs ih =>
      rw [List.cons_append, readNumeral, readNumeral]
      cases digitValue base c with
      | none => rfl
      | some d => exact ih

/-- A number that was written is read back. -/
theorem readNumeral_toDigits (hone : 1 < base) (hbase : base ≤ 16) (n : ℕ) :
    readNumeral base 0 (Nat.toDigits base n) = some n := by
  induction n using Nat.base_induction base hone with
  | single d hd =>
      rw [Nat.toDigits_of_lt_base hd, readNumeral, digitValue_digitChar hbase hd, Option.bind_some,
        Nat.zero_mul, Nat.zero_add]
      rfl
  | digit m d hd hm ih =>
      rw [← Nat.toDigits_append_toDigits hone hm hd, readNumeral_append, ih, Option.bind_some,
        Nat.toDigits_of_lt_base hd, readNumeral, digitValue_digitChar hbase hd, Nat.mul_comm]
      rfl

theorem le_of_readNumeral (hbase : 0 < base) (h : readNumeral base acc cs = some n) : acc ≤ n := by
  induction cs generalizing acc with
  | nil => exact (Option.some.inj h).le
  | cons c cs ih =>
      obtain ⟨d, -, hrest⟩ := Option.bind_eq_some_iff.mp h
      have hacc : acc ≤ acc * base := Nat.le_mul_of_pos_right acc hbase
      have hle := ih hrest
      omega

/-- What is too large for the bound ends with that. -/
theorem readBounded_of_readNumeral (hbase : 0 < base) (hacc : acc ≤ bound)
    (h : readNumeral base acc cs = some n) : readBounded base bound invalid overflow acc cs =
      if n ≤ bound then .ok n else .error overflow := by
  induction cs generalizing acc with
  | nil =>
      obtain rfl := Option.some.inj h
      rw [if_pos hacc]
      rfl
  | cons c cs ih =>
      obtain ⟨d, hd, hrest⟩ := Option.bind_eq_some_iff.mp h
      rw [readBounded, hd]
      by_cases hle : acc * base + d ≤ bound
      · exact (if_pos hle).trans (ih hle hrest)
      · have hn : ¬ n ≤ bound := fun hn => hle ((le_of_readNumeral hbase hrest).trans hn)
        exact (if_neg hle).trans (if_neg hn).symm

/-- With a bound just the numbers up to it are read. -/
theorem readBounded_eq_ok_iff (hbase : 0 < base) (hacc : acc ≤ bound) :
    readBounded base bound invalid overflow acc cs = .ok n ↔
      readNumeral base acc cs = some n ∧ n ≤ bound := by
  induction cs generalizing acc with
  | nil =>
      constructor
      · intro h
        obtain rfl := Except.ok.inj h
        exact ⟨rfl, hacc⟩
      · rintro ⟨h, -⟩
        exact congrArg Except.ok (Option.some.inj h)
  | cons c cs ih =>
      rw [readBounded, readNumeral]
      cases hd : digitValue base c with
      | none => simp
      | some d =>
          rw [Option.bind_some]
          by_cases hle : acc * base + d ≤ bound
          · simp only [hle, if_true, ih hle]
          · simp only [hle, if_false]
            refine iff_of_false (by simp) ?_
            rintro ⟨hread, hn⟩
            exact hle ((le_of_readNumeral hbase hread).trans hn)

end

end Nazh.Lib
