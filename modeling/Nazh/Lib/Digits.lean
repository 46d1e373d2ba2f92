import Mathlib.Data.Nat.Digits.Defs
import Mathlib.Tactic.Ring

/-!
# Digits and bytes of fixed width

A number is written with a fixed count of digits in some base, lowest first, and read
back by `Nat.ofDigits`. Bytes are digits in base 256, in either order.

## Main definitions

* `lowDigits b k n` — the `k` lowest digits of `n` in base `b`.
* `reverseDigits b k n` — the number with these digits the other way round.
* `leBytes`, `beBytes`, `fromLeBytes`, `fromBeBytes` — bytes, lowest or highest first.
-/

namespace Nazh.Lib

/-- The `k` lowest digits of `n` in base `b`, lowest first. -/
def lowDigits (b : ℕ) : ℕ → ℕ → List ℕ
  | 0, _ => []
  | k + 1, n => n % b :: lowDigits b k (n / b)

section Digits

variable {b : ℕ}

@[simp] theorem length_lowDigits (k n : ℕ) : (lowDigits b k n).length = k := by
  induction k generalizing n with
  | zero => rfl
  | succ k ih => simp [lowDigits, ih]

theorem lt_of_mem_lowDigits (hb : 0 < b) {k n d : ℕ} (hd : d ∈ lowDigits b k n) : d < b := by
  induction k generalizing n with
  | zero => simp [lowDigits] at hd
  | succ k ih =>
      rcases List.mem_cons.mp hd with rfl | hrest
      · exact Nat.mod_lt n hb
      · exact ih hrest

/-- The lowest digits first, and then those of what is left. -/
theorem lowDigits_add (k j n : ℕ) :
    lowDigits b (k + j) n = lowDigits b k n ++ lowDigits b j (n / b ^ k) := by
  induction k generalizing n with
  | zero => simp [lowDigits]
  | succ k ih =>
      have hdiv : n / b / b ^ k = n / b ^ (k + 1) := by
        rw [Nat.div_div_eq_div_mul, ← Nat.pow_succ']
      rw [Nat.succ_add, lowDigits, ih, hdiv, lowDigits, List.cons_append]

theorem lowDigits_zero (k : ℕ) : lowDigits b k 0 = List.replicate k 0 := by
  induction k with
  | zero => rfl
  | succ k ih => rw [lowDigits, Nat.zero_mod, Nat.zero_div, ih, List.replicate_succ]

/-- The digits of a number that fits give the number back. -/
theorem ofDigits_lowDigits {k n : ℕ} (hn : n < b ^ k) : Nat.ofDigits b (lowDigits b k n) = n := by
  induction k generalizing n with
  | zero =>
      have hzero : n = 0 := by simpa using hn
      simp [lowDigits, hzero]
  | succ k ih =>
      have hdiv : n / b < b ^ k := by
        apply Nat.div_lt_of_lt_mul
        rw [← Nat.pow_succ']
        exact hn
      rw [lowDigits, Nat.ofDigits_cons, ih hdiv]
      exact Nat.mod_add_div n b

theorem ofDigits_lt {ds : List ℕ} (hds : ∀ d ∈ ds, d < b) :
    Nat.ofDigits b ds < b ^ ds.length := by
  induction ds with
  | nil => simp
  | cons d ds ih =>
      have hd : d < b := hds d List.mem_cons_self
      have hrest := ih fun d' hd' => hds d' (List.mem_cons_of_mem _ hd')
      rw [Nat.ofDigits_cons, List.length_cons, Nat.pow_succ']
      calc d + b * Nat.ofDigits b ds < b * (Nat.ofDigits b ds + 1) := by
            rw [Nat.mul_add]
            omega
        _ ≤ b * b ^ ds.length := Nat.mul_le_mul_left b hrest

/-- The number with the digits of `n` the other way round. -/
def reverseDigits (b k n : ℕ) : ℕ := Nat.ofDigits b (lowDigits b k n).reverse

@[simp] theorem reverseDigits_one (n : ℕ) : reverseDigits b 1 n = n % b := by
  simp [reverseDigits, lowDigits]

theorem reverseDigits_lt (hb : 0 < b) (k n : ℕ) : reverseDigits b k n < b ^ k := by
  have h : Nat.ofDigits b (lowDigits b k n).reverse < b ^ (lowDigits b k n).reverse.length := by
    apply ofDigits_lt
    intro d hd
    exact lt_of_mem_lowDigits hb (List.mem_reverse.mp hd)
  simpa [reverseDigits] using h

end Digits

/-! ## Bytes -/

/-- `to_le_bytes` of a number of `k` bytes. -/
def leBytes (k n : ℕ) : List UInt8 := (lowDigits 256 k n).map UInt8.ofNat

/-- `to_be_bytes`. -/
def beBytes (k n : ℕ) : List UInt8 := (leBytes k n).reverse

/-- `from_le_bytes`. -/
def fromLeBytes (bs : List UInt8) : ℕ := Nat.ofDigits 256 (bs.map UInt8.toNat)

/-- `from_be_bytes`. -/
def fromBeBytes (bs : List UInt8) : ℕ := fromLeBytes bs.reverse

@[simp] theorem length_leBytes (k n : ℕ) : (leBytes k n).length = k := by simp [leBytes]

@[simp] theorem length_beBytes (k n : ℕ) : (beBytes k n).length = k := by simp [beBytes]

theorem fromLeBytes_lt (bs : List UInt8) : fromLeBytes bs < 256 ^ bs.length := by
  have hlt : ∀ d ∈ bs.map UInt8.toNat, d < 256 := by
    intro d hd
    obtain ⟨byte, -, rfl⟩ := List.mem_map.mp hd
    exact byte.toNat_lt
  simpa [fromLeBytes] using ofDigits_lt hlt

theorem map_toNat_leBytes (k n : ℕ) : (leBytes k n).map UInt8.toNat = lowDigits 256 k n := by
  rw [leBytes, List.map_map]
  calc (lowDigits 256 k n).map (UInt8.toNat ∘ UInt8.ofNat)
      = (lowDigits 256 k n).map id := by
        apply List.map_congr_left
        intro d hd
        have hlt : d < 256 := lt_of_mem_lowDigits (by norm_num) hd
        exact UInt8.toNat_ofNat_of_lt hlt
    _ = lowDigits 256 k n := List.map_id _

theorem fromLeBytes_leBytes {k n : ℕ} (hn : n < 256 ^ k) : fromLeBytes (leBytes k n) = n := by
  rw [fromLeBytes, map_toNat_leBytes, ofDigits_lowDigits hn]

theorem fromBeBytes_beBytes {k n : ℕ} (hn : n < 256 ^ k) : fromBeBytes (beBytes k n) = n := by
  rw [fromBeBytes, beBytes, List.reverse_reverse, fromLeBytes_leBytes hn]

/-- The low bytes first, and then those of what is left. -/
theorem leBytes_add (k j n : ℕ) : leBytes (k + j) n = leBytes k n ++ leBytes j (n / 256 ^ k) := by
  rw [leBytes, lowDigits_add, List.map_append]
  rfl

theorem leBytes_inj {k m n : ℕ} (hm : m < 256 ^ k) (hn : n < 256 ^ k) :
    leBytes k m = leBytes k n ↔ m = n := by
  constructor
  · intro h
    rw [← fromLeBytes_leBytes hm, h, fromLeBytes_leBytes hn]
  · rintro rfl
    rfl

/-- The bytes of a number are those of its remainder. -/
theorem leBytes_mod (k n : ℕ) : leBytes k (n % 256 ^ k) = leBytes k n := by
  have hdigits : lowDigits 256 k (n % 256 ^ k) = lowDigits 256 k n := by
    induction k generalizing n with
    | zero => rfl
    | succ k ih =>
        have hmod : n % 256 ^ (k + 1) % 256 = n % 256 :=
          Nat.mod_mod_of_dvd n (Dvd.intro_left _ rfl)
        have hdiv : n % 256 ^ (k + 1) / 256 = n / 256 % 256 ^ k := by
          rw [Nat.pow_succ', Nat.mod_mul_right_div_self]
        rw [lowDigits, lowDigits, hmod, hdiv, ih]
  rw [leBytes, leBytes, hdigits]

/-- Bytes that are all ones. -/
theorem fromLeBytes_ones (k : ℕ) : fromLeBytes (List.replicate k 0xFF) = 256 ^ k - 1 := by
  induction k with
  | zero => rfl
  | succ k ih =>
      have hpos : 0 < 256 ^ k := Nat.pow_pos (by norm_num)
      have hcons : fromLeBytes (List.replicate (k + 1) 0xFF) =
          255 + 256 * fromLeBytes (List.replicate k 0xFF) := by
        simp [fromLeBytes, List.replicate_succ, Nat.ofDigits_cons]
      rw [hcons, ih, Nat.pow_succ]
      omega

/-- The lowest bits of a number that is all ones. -/
theorem ones_mod {n k : ℕ} (h : n ≤ 8 * k) : (256 ^ k - 1) % 2 ^ n = 2 ^ n - 1 := by
  have hpow : 256 ^ k = 2 ^ (8 * k) := by
    rw [Nat.pow_mul]
  apply Nat.eq_of_testBit_eq
  intro i
  rw [hpow, Nat.testBit_mod_two_pow, Nat.testBit_two_pow_sub_one, Nat.testBit_two_pow_sub_one]
  by_cases hi : i < n
  · have hik : i < 8 * k := by omega
    simp [hi, hik]
  · simp [hi]

theorem fromBeBytes_append (xs ys : List UInt8) :
    fromBeBytes (xs ++ ys) = fromBeBytes ys + 256 ^ ys.length * fromBeBytes xs := by
  simp [fromBeBytes, fromLeBytes, Nat.ofDigits_append]

/-- Words as two bytes each, highest first, are digits in base `2 ^ 16`. -/
theorem fromBeBytes_flatMap (words : List UInt16) :
    fromBeBytes (words.flatMap fun word => beBytes 2 word.toNat) =
      Nat.ofDigits (2 ^ 16) (words.map UInt16.toNat).reverse := by
  induction words with
  | nil => rfl
  | cons word words ih =>
      have hword : word.toNat < 256 ^ 2 := word.toNat_lt
      have hlen : (words.flatMap fun word => beBytes 2 word.toNat).length = 2 * words.length := by
        simp [List.length_flatMap, List.map_const', Nat.mul_comm]
      rw [List.flatMap_cons, fromBeBytes_append, ih, fromBeBytes_beBytes hword, hlen,
        List.map_cons, List.reverse_cons, Nat.ofDigits_append, Nat.ofDigits_singleton,
        List.length_reverse, List.length_map, Nat.pow_mul]
      norm_num

end Nazh.Lib
