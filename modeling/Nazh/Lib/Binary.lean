import Mathlib.Data.Int.Notation
import Mathlib.Data.Nat.Notation
import Mathlib.Tactic.Common
import Mathlib.Tactic.NormNum

/-!
# Binary floating point, by bits

A binary32 has a sign, 8 bits of exponent and 23 of fraction; a binary64 has 11 and 52.
Every binary32 is a binary64, and two finite ones have the same bits in the one format
if they have in the other.

## Main definitions

* `isFinite32`, `isFinite64` — neither infinite nor a NaN.
* `widen` — the conversion from binary32 to binary64.
* `le64` — the order of binary64; `roundNat64`, `roundInt64` — the nearest binary64.
-/

namespace Nazh.Lib

def isFinite32 (bits : UInt32) : Bool := bits.toNat / 2 ^ 23 % 2 ^ 8 != 2 ^ 8 - 1

def isFinite64 (bits : UInt64) : Bool := bits.toNat / 2 ^ 52 % 2 ^ 11 != 2 ^ 11 - 1

def isNaN64 (bits : UInt64) : Bool := bits.toNat % 2 ^ 63 > (2 ^ 11 - 1) * 2 ^ 52

/-- A number that is ordered as the binary64 is, with one zero for two. -/
def orderKey64 (bits : UInt64) : ℤ :=
  if bits.toNat < 2 ^ 63 then bits.toNat else -(bits.toNat - 2 ^ 63 : ℕ)

/-- `<=` on binary64: a NaN is not ordered. -/
def le64 (a b : UInt64) : Bool := !isNaN64 a && !isNaN64 b && orderKey64 a ≤ orderKey64 b

/-- The binary64 nearest to a number of at most 64 bits, in case of doubt the even one. -/
def roundNat64 (n : ℕ) : UInt64 :=
  if n = 0 then 0
  else if n.log2 ≤ 52 then
    UInt64.ofNat ((n.log2 + 1023) * 2 ^ 52 + (n * 2 ^ (52 - n.log2) - 2 ^ 52))
  else
    let shift := n.log2 - 52
    let quotient := n / 2 ^ shift
    let rest := n % 2 ^ shift
    let up := if 2 ^ shift < 2 * rest ∨ 2 ^ shift = 2 * rest ∧ quotient % 2 = 1 then 1 else 0
    UInt64.ofNat ((n.log2 + 1023) * 2 ^ 52 + (quotient + up - 2 ^ 52))

/-- The same for a signed number. -/
def roundInt64 (i : ℤ) : UInt64 :=
  if i < 0 then UInt64.ofNat ((roundNat64 i.natAbs).toNat + 2 ^ 63) else roundNat64 i.natAbs

/-- Exponent and fraction of a binary32 as those of a binary64. A subnormal number becomes
a normal one, and a NaN a quiet NaN. -/
def widenMagnitude (exponent fraction : ℕ) : ℕ :=
  if exponent = 2 ^ 8 - 1 then
    (2 ^ 11 - 1) * 2 ^ 52 + if fraction = 0 then 0 else fraction * 2 ^ 29 ||| 2 ^ 51
  else if exponent = 0 then
    if fraction = 0 then 0
    else (fraction.log2 + 874) * 2 ^ 52 +
      (fraction - 2 ^ fraction.log2) * 2 ^ (52 - fraction.log2)
  else (exponent + 896) * 2 ^ 52 + fraction * 2 ^ 29

/-- `f64::from` on a binary32. -/
def widen (bits : UInt32) : UInt64 :=
  UInt64.ofNat (bits.toNat / 2 ^ 31 * 2 ^ 63 +
    widenMagnitude (bits.toNat / 2 ^ 23 % 2 ^ 8) (bits.toNat % 2 ^ 23))

section Widen

variable {e e' f f' : ℕ}

/-- The highest bit of a subnormal number is dropped. -/
theorem subnormal_lt (hf : f ≠ 0) (hlt : f < 2 ^ 23) :
    f.log2 ≤ 22 ∧ (f - 2 ^ f.log2) * 2 ^ (52 - f.log2) < 2 ^ 52 := by
  have hlog : f.log2 < 23 := (Nat.log2_lt hf).mpr hlt
  have hself : 2 ^ f.log2 ≤ f := Nat.log2_self_le hf
  have htop : f < 2 ^ (f.log2 + 1) := Nat.lt_log2_self
  have hrest : f - 2 ^ f.log2 < 2 ^ f.log2 := by
    rw [Nat.pow_succ] at htop
    omega
  refine ⟨by omega, ?_⟩
  calc (f - 2 ^ f.log2) * 2 ^ (52 - f.log2) < 2 ^ f.log2 * 2 ^ (52 - f.log2) :=
        Nat.mul_lt_mul_of_pos_right hrest (Nat.two_pow_pos _)
    _ = 2 ^ 52 := by
        rw [← Nat.pow_add]
        congr 1
        omega

/-- The three kinds of finite magnitudes, by exponent and fraction. -/
theorem widenMagnitude_cases (he : e < 2 ^ 8 - 1) (hf : f < 2 ^ 23) :
    (e = 0 ∧ f = 0 ∧ widenMagnitude e f = 0) ∨
    (e = 0 ∧ f ≠ 0 ∧ f.log2 ≤ 22 ∧ ∃ rest < 2 ^ 52,
      rest = (f - 2 ^ f.log2) * 2 ^ (52 - f.log2) ∧
      widenMagnitude e f = (f.log2 + 874) * 2 ^ 52 + rest) ∨
    (0 < e ∧ widenMagnitude e f = (e + 896) * 2 ^ 52 + f * 2 ^ 29) := by
  have hne : e ≠ 2 ^ 8 - 1 := Nat.ne_of_lt he
  by_cases hzero : e = 0
  · by_cases hfzero : f = 0
    · refine .inl ⟨hzero, hfzero, ?_⟩
      simp [widenMagnitude, hzero, hfzero]
    · obtain ⟨hlog, hlt⟩ := subnormal_lt hfzero hf
      refine .inr (.inl ⟨hzero, hfzero, hlog, _, hlt, rfl, ?_⟩)
      simp [widenMagnitude, hzero, hfzero]
  · refine .inr (.inr ⟨Nat.pos_of_ne_zero hzero, ?_⟩)
    rw [widenMagnitude, if_neg hne, if_neg hzero]

/-- A finite magnitude has an exponent below that of infinity. -/
theorem widenMagnitude_lt (he : e < 2 ^ 8 - 1) (hf : f < 2 ^ 23) :
    widenMagnitude e f < (2 ^ 11 - 1) * 2 ^ 52 := by
  rcases widenMagnitude_cases he hf with ⟨-, -, h⟩ | ⟨-, -, hlog, rest, hrest, -, h⟩ | ⟨-, h⟩
  · omega
  · omega
  · omega

/-- Finite magnitudes that are the same in the wide format are the same. -/
theorem widenMagnitude_injective (he : e < 2 ^ 8 - 1) (hf : f < 2 ^ 23) (he' : e' < 2 ^ 8 - 1)
    (hf' : f' < 2 ^ 23) (h : widenMagnitude e f = widenMagnitude e' f') : e = e' ∧ f = f' := by
  rcases widenMagnitude_cases he hf with
    ⟨h0, hf0, hm⟩ | ⟨h0, hfne, hlog, rest, hrest, heq, hm⟩ | ⟨hpos, hm⟩ <;>
  rcases widenMagnitude_cases he' hf' with
    ⟨h0', hf0', hm'⟩ | ⟨h0', hfne', hlog', rest', hrest', heq', hm'⟩ | ⟨hpos', hm'⟩ <;>
  rw [hm, hm'] at h
  · omega
  · omega
  · omega
  · omega
  · -- both are subnormal: the highest bits agree, and then the others
    have hsame : f.log2 = f'.log2 := by omega
    have hrest : rest = rest' := by omega
    rw [heq, heq', hsame] at hrest
    have hdiff := Nat.eq_of_mul_eq_mul_right (Nat.two_pow_pos _) hrest
    have hself : 2 ^ f.log2 ≤ f := Nat.log2_self_le hfne
    have hself' : 2 ^ f'.log2 ≤ f' := Nat.log2_self_le hfne'
    rw [hsame] at hself
    omega
  · omega
  · omega
  · omega
  · omega

end Widen

variable {a b : UInt32} {f : ℕ}

/-- The sign, the exponent and the fraction make up a binary32. -/
theorem binary32_parts (bits : UInt32) :
    bits.toNat / 2 ^ 31 < 2 ∧ bits.toNat / 2 ^ 23 % 2 ^ 8 < 2 ^ 8 ∧ bits.toNat % 2 ^ 23 < 2 ^ 23 ∧
      bits.toNat = bits.toNat / 2 ^ 31 * 2 ^ 31 + bits.toNat / 2 ^ 23 % 2 ^ 8 * 2 ^ 23 +
        bits.toNat % 2 ^ 23 := by
  have hlt : bits.toNat < 2 ^ 32 := bits.toNat_lt
  omega

theorem exponent_lt_of_isFinite32 (h : isFinite32 a = true) :
    a.toNat / 2 ^ 23 % 2 ^ 8 < 2 ^ 8 - 1 := by
  have hne : a.toNat / 2 ^ 23 % 2 ^ 8 ≠ 2 ^ 8 - 1 := by simpa [isFinite32] using h
  omega

theorem toNat_widen (h : isFinite32 a = true) :
    (widen a).toNat = a.toNat / 2 ^ 31 * 2 ^ 63 +
      widenMagnitude (a.toNat / 2 ^ 23 % 2 ^ 8) (a.toNat % 2 ^ 23) := by
  obtain ⟨hsign, -, hf, -⟩ := binary32_parts a
  have hm := widenMagnitude_lt (exponent_lt_of_isFinite32 h) hf
  rw [widen, UInt64.toNat_ofNat', Nat.mod_eq_of_lt]
  omega

/-- An infinity is an infinity in the wide format, and a NaN a NaN. -/
theorem widenMagnitude_top (hf : f < 2 ^ 23) : ∃ rest < 2 ^ 52,
    widenMagnitude (2 ^ 8 - 1) f = (2 ^ 11 - 1) * 2 ^ 52 + rest := by
  rw [widenMagnitude, if_pos rfl]
  split
  · exact ⟨0, by norm_num, rfl⟩
  · refine ⟨_, ?_, rfl⟩
    apply Nat.or_lt_two_pow
    · omega
    · norm_num

/-- The conversion neither makes nor loses infinities and NaNs. -/
theorem isFinite64_widen (a : UInt32) : isFinite64 (widen a) = isFinite32 a := by
  obtain ⟨hsign, he, hf, -⟩ := binary32_parts a
  by_cases hfin : isFinite32 a = true
  · have hm := widenMagnitude_lt (exponent_lt_of_isFinite32 hfin) hf
    rw [hfin]
    simp only [isFinite64, toNat_widen hfin, bne_iff_ne]
    omega
  · have htop : a.toNat / 2 ^ 23 % 2 ^ 8 = 2 ^ 8 - 1 := by simpa [isFinite32] using hfin
    obtain ⟨rest, hrest, hm⟩ := widenMagnitude_top hf
    have hnat : (widen a).toNat = a.toNat / 2 ^ 31 * 2 ^ 63 + ((2 ^ 11 - 1) * 2 ^ 52 + rest) := by
      rw [widen, UInt64.toNat_ofNat', htop, hm, Nat.mod_eq_of_lt]
      omega
    have hfalse : isFinite32 a = false := by simpa using hfin
    rw [hfalse]
    simp only [isFinite64, hnat, bne_eq_false_iff_eq]
    omega

/-- Finite numbers that are the same in the wide format have the same bits. -/
theorem widen_injective (ha : isFinite32 a = true) (hb : isFinite32 b = true)
    (h : widen a = widen b) : a = b := by
  obtain ⟨hsa, -, hfa, hpa⟩ := binary32_parts a
  obtain ⟨hsb, -, hfb, hpb⟩ := binary32_parts b
  have hma := widenMagnitude_lt (exponent_lt_of_isFinite32 ha) hfa
  have hmb := widenMagnitude_lt (exponent_lt_of_isFinite32 hb) hfb
  have hbits := congrArg UInt64.toNat h
  rw [toNat_widen ha, toNat_widen hb] at hbits
  have hsign : a.toNat / 2 ^ 31 = b.toNat / 2 ^ 31 := by omega
  have hmag : widenMagnitude (a.toNat / 2 ^ 23 % 2 ^ 8) (a.toNat % 2 ^ 23) =
      widenMagnitude (b.toNat / 2 ^ 23 % 2 ^ 8) (b.toNat % 2 ^ 23) := by omega
  obtain ⟨he, hf⟩ := widenMagnitude_injective (exponent_lt_of_isFinite32 ha) hfa
    (exponent_lt_of_isFinite32 hb) hfb hmag
  apply UInt32.toNat_inj.mp
  rw [hpa, hpb, hsign, he, hf]

end Nazh.Lib
