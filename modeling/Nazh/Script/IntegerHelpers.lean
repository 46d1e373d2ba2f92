import Mathlib.Data.List.Basic
import Nazh.Core.Text
import Nazh.Lib.Numerals

/-!
# Integers in scripts

A script reads and sets single bits of an integer, and writes it with hexadecimal or binary digits.
It is written as the number that its 64 bits are, without a sign, and read as a number with one.

Texts are lists of characters.
-/

namespace Nazh.Script

open Lib

/-! ## The helpers -/

def bitGet (value : BitVec 64) (bit : ℤ) : Except String Bool :=
  if 0 ≤ bit ∧ bit ≤ 63 then .ok (value.sshiftRight bit.toNat &&& 1#64 == 1#64)
  else .error s!"bit_get(bit) 要求 0 <= bit <= 63，当前 bit={bit}"

def bitSet (value : BitVec 64) (bit : ℤ) (flag : Bool) : Except String (BitVec 64) :=
  if 0 ≤ bit ∧ bit ≤ 63 then
    if flag then .ok (value ||| (1#64 <<< bit.toNat))
    else .ok (value &&& ~~~(1#64 <<< bit.toNat))
  else .error s!"bit_set(bit) 要求 0 <= bit <= 63，当前 bit={bit}"

def toHex (value : BitVec 64) : List Char := Nat.toDigits 16 value.toNat

def toBin (value : BitVec 64) : List Char := Nat.toDigits 2 value.toNat

/-- `trim_start_matches` of a zero with a letter behind it. -/
def trimStartMatches (letter : Char) : List Char → List Char
  | '0' :: c :: cs => if c = letter then trimStartMatches letter cs else '0' :: c :: cs
  | cs => cs

/-- `i64::from_str_radix`. -/
def fromStrRadix (radix : ℕ) : List Char → Except Text.IntErrorKind ℤ
  | [] => .error .empty
  | ['+'] | ['-'] => .error .invalidDigit
  | '+' :: cs => (readBounded radix (2 ^ 63 - 1) .invalidDigit .posOverflow 0 cs).map Int.ofNat
  | '-' :: cs => (readBounded radix (2 ^ 63) .invalidDigit .negOverflow 0 cs).map
      fun n => -Int.ofNat n
  | cs => (readBounded radix (2 ^ 63 - 1) .invalidDigit .posOverflow 0 cs).map Int.ofNat

/-- `cleaned` in `from_hex`. -/
def cleaned (text : List Char) : List Char :=
  trimStartMatches 'X' (trimStartMatches 'x' (Text.trimList text))

def fromHex (text : List Char) : Except String (BitVec 64) :=
  match fromStrRadix 16 (cleaned text) with
  | .ok i => .ok (.ofInt 64 i)
  | .error e => .error s!"from_hex 解析失败: {e.message}"

/-! ## Texts of integers -/

def prefixes : List (List Char) := [[], ['0', 'x'], ['0', 'X']]

/-- Digits behind at most one prefix. -/
def HexNumeral (text : List Char) (n : ℕ) : Prop :=
  ∃ start ∈ prefixes, ∃ digits, digits ≠ [] ∧ text = start ++ digits ∧
    readNumeral 16 0 digits = some n

/-- No prefix stands at the start. -/
def Bare (text : List Char) : Prop := ¬ ['0', 'x'] <+: text ∧ ¬ ['0', 'X'] <+: text

/-- Behind a prefix or none there is a sign, or another prefix, or a number from 2 ^ 63 on that fits
into 64 bits. -/
def Doubtful (text : List Char) : Prop :=
  ∃ start ∈ prefixes, ∃ rest, text = start ++ rest ∧
    (rest.head? = some '+' ∨ rest.head? = some '-' ∨ start ≠ [] ∧ ¬ Bare rest ∨
      ∃ n, readNumeral 16 0 rest = some n ∧ 2 ^ 63 ≤ n ∧ n < 2 ^ 64)

section

variable {value v w : BitVec 64} {bit i j : ℤ} {flag : Bool} {text start rest digits : List Char}
  {c : Char} {acc n : ℕ}

/-! ## Bits -/

theorem bitGet_eq (hbit : 0 ≤ bit ∧ bit ≤ 63) :
    bitGet value bit = .ok (value.getLsbD bit.toNat) := by
  have hlt : bit.toNat < 64 := by omega
  have hand : ∀ x : BitVec 64, (x &&& 1#64 == 1#64) = x.getLsbD 0 := by
    intro x
    rw [BitVec.and_one_eq_setWidth_ofBool_getLsbD]
    cases x.getLsbD 0 <;> decide
  rw [bitGet, if_pos hbit, hand, BitVec.getLsbD_sshiftRight]
  simp [hlt]

variable (value) in
theorem getLsbD_bitSet (hbit : 0 ≤ bit ∧ bit ≤ 63) (flag : Bool) :
    ∃ w, bitSet value bit flag = .ok w ∧ ∀ k < 64,
      w.getLsbD k = if bit.toNat = k then flag else value.getLsbD k := by
  have hmask : ∀ k, (1#64 <<< bit.toNat).getLsbD k = decide (bit.toNat = k) := by
    intro k
    have hlt : bit.toNat < 64 := by omega
    refine (BitVec.getLsbD_twoPow bit.toNat k).trans ?_
    rw [decide_eq_true hlt, Bool.true_and]
  rw [bitSet, if_pos hbit]
  cases flag with
  | true =>
      refine ⟨_, rfl, fun k hk => ?_⟩
      rw [BitVec.getLsbD_or, hmask]
      by_cases hbitk : bit.toNat = k <;> simp [hbitk]
  | false =>
      refine ⟨_, rfl, fun k hk => ?_⟩
      rw [BitVec.getLsbD_and, BitVec.getLsbD_not, hmask]
      by_cases hbitk : bit.toNat = k <;> simp [hbitk, hk]

/-- What is set is what is read, and nothing else changes. -/
theorem bitGet_bitSet (value : BitVec 64) (hi : 0 ≤ i ∧ i ≤ 63) (hj : 0 ≤ j ∧ j ≤ 63)
    (flag : Bool) : (bitSet value i flag).bind (bitGet · j) =
      if i = j then .ok flag else bitGet value j := by
  obtain ⟨w, hset, hbits⟩ := getLsbD_bitSet value hi flag
  have heq : i.toNat = j.toNat ↔ i = j := by omega
  rw [hset]
  refine (bitGet_eq hj).trans ?_
  rw [hbits j.toNat (by omega), bitGet_eq hj]
  simp only [heq]
  split <;> rfl

/-! ## Digits and prefixes -/

theorem digitValue_sign : digitValue 16 '+' = none ∧ digitValue 16 '-' = none := by decide

theorem digitValue_letter : digitValue 16 'x' = none ∧ digitValue 16 'X' = none := by decide

/-- A numeral has only digits. -/
theorem digitValue_of_mem (h : readNumeral 16 acc digits = some n) (hc : c ∈ digits) :
    digitValue 16 c ≠ none := by
  induction digits generalizing acc with
  | nil => cases hc
  | cons d digits ih =>
      obtain ⟨m, hm, hrest⟩ := Option.bind_eq_some_iff.mp h
      rcases List.mem_cons.mp hc with rfl | hc
      · rw [hm]
        exact Option.some_ne_none m
      · exact ih hrest hc

theorem bare_of_readNumeral (h : readNumeral 16 acc digits = some n) : Bare digits := by
  constructor
  · rintro ⟨rest, rfl⟩
    exact digitValue_of_mem h (List.mem_cons_of_mem _ List.mem_cons_self) digitValue_letter.1
  · rintro ⟨rest, rfl⟩
    exact digitValue_of_mem h (List.mem_cons_of_mem _ List.mem_cons_self) digitValue_letter.2

/-- Without a prefix with this letter nothing is stripped. -/
theorem trimStartMatches_eq_self (h : ¬ ['0', c] <+: rest) : trimStartMatches c rest = rest := by
  unfold trimStartMatches
  split
  · rename_i d cs
    by_cases hd : d = c
    · exact absurd ⟨cs, by rw [hd]; rfl⟩ h
    · exact if_neg hd
  · rfl

theorem trimStartMatches_cons (c : Char) (rest : List Char) :
    trimStartMatches c ('0' :: c :: rest) = trimStartMatches c rest := by
  rw [trimStartMatches, if_pos rfl]

/-- One prefix is stripped if no other one stands behind it. -/
theorem cleaned_eq (htrim : Text.trimList text = start ++ rest) (hstart : start ∈ prefixes)
    (hrest : Bare rest) : cleaned text = rest := by
  rw [cleaned, htrim]
  rcases List.mem_cons.mp hstart with rfl | hstart
  · rw [List.nil_append, trimStartMatches_eq_self hrest.1, trimStartMatches_eq_self hrest.2]
  rcases List.mem_pair.mp hstart with rfl | rfl
  · rw [List.cons_append, List.singleton_append, trimStartMatches_cons,
      trimStartMatches_eq_self hrest.1, trimStartMatches_eq_self hrest.2]
  · have hother : ¬ ['0', 'x'] <+: '0' :: 'X' :: rest := by
      rintro ⟨_, heq⟩
      cases heq
    rw [List.cons_append, List.singleton_append, trimStartMatches_eq_self hother,
      trimStartMatches_cons, trimStartMatches_eq_self hrest.2]

/-- Any text has a prefix, or none. -/
theorem exists_start (text : List Char) :
    ∃ start ∈ prefixes, ∃ rest, text = start ++ rest ∧ (start = [] → Bare rest) := by
  by_cases hlower : ['0', 'x'] <+: text
  · obtain ⟨rest, rfl⟩ := hlower
    exact ⟨_, List.mem_cons_of_mem _ List.mem_cons_self, rest, rfl, nofun⟩
  by_cases hupper : ['0', 'X'] <+: text
  · obtain ⟨rest, rfl⟩ := hupper
    exact ⟨_, List.mem_cons_of_mem _ (List.mem_cons_of_mem _ List.mem_cons_self), rest, rfl, nofun⟩
  · exact ⟨[], List.mem_cons_self, text, rfl, fun _ => ⟨hlower, hupper⟩⟩

/-! ## Reading and writing -/

/-- Without a sign a number below 2 ^ 63 is read. -/
theorem fromStrRadix_eq (hne : rest ≠ []) (hplus : rest.head? ≠ some '+')
    (hminus : rest.head? ≠ some '-') : fromStrRadix 16 rest =
      (readBounded 16 (2 ^ 63 - 1) Text.IntErrorKind.invalidDigit .posOverflow 0 rest).map
        Int.ofNat := by
  rw [fromStrRadix.eq_def]
  split
  · exact absurd rfl hne
  · exact absurd rfl hplus
  · exact absurd rfl hminus
  · exact absurd rfl hplus
  · exact absurd rfl hminus
  · rfl

/-- Of digits behind a prefix or none, what they denote is read if it fits with a sign. -/
theorem fromHex_numeral (htrim : Text.trimList text = start ++ digits) (hstart : start ∈ prefixes)
    (hne : digits ≠ []) (hread : readNumeral 16 0 digits = some n) : fromHex text =
      if n < 2 ^ 63 then .ok (.ofNat 64 n)
      else .error "from_hex 解析失败: number too large to fit in target type" := by
  have hhead : ∀ c, digits.head? = some c → digitValue 16 c ≠ none :=
    fun c hc => digitValue_of_mem hread (List.mem_of_head? hc)
  have hlt : n < 2 ^ 63 ↔ n ≤ 2 ^ 63 - 1 := by omega
  rw [fromHex, cleaned_eq htrim hstart (bare_of_readNumeral hread),
    fromStrRadix_eq hne (fun h => hhead _ h digitValue_sign.1)
      (fun h => hhead _ h digitValue_sign.2),
    readBounded_of_readNumeral (by decide) (Nat.zero_le _) hread]
  simp only [hlt]
  by_cases hle : n ≤ 2 ^ 63 - 1
  · simp only [hle, if_true]
    rfl
  · simp only [hle, if_false]
    rfl

theorem isWhitespace_of_digitValue (h : digitValue 16 c ≠ none) : Text.isWhitespace c = false := by
  obtain ⟨d, hd⟩ := Option.ne_none_iff_exists'.mp h
  obtain ⟨hvalue, -⟩ := Option.filter_eq_some_iff.mp hd
  have hrange : 48 ≤ c.toNat ∧ c.toNat ≤ 122 := by
    rw [characterValue] at hvalue
    split at hvalue
    · simp_all; omega
    split at hvalue
    · simp_all; omega
    split at hvalue
    · simp_all; omega
    · cases hvalue
  simp [Text.isWhitespace]
  omega

theorem isWhitespace_of_start (hstart : start ∈ prefixes) (hc : c ∈ start) :
    Text.isWhitespace c = false := by
  rcases List.mem_cons.mp hstart with rfl | hstart
  · cases hc
  rcases List.mem_pair.mp hstart with rfl | rfl
  · rcases List.mem_pair.mp hc with rfl | rfl <;> rfl
  · rcases List.mem_pair.mp hc with rfl | rfl <;> rfl

theorem trimList_eq_self (h : ∀ c ∈ text, Text.isWhitespace c = false) :
    Text.trimList text = text := by
  have hdrop : ∀ cs : List Char, (∀ c ∈ cs, Text.isWhitespace c = false) →
      cs.dropWhile Text.isWhitespace = cs := by
    intro cs hcs
    cases cs with
    | nil => rfl
    | cons c cs => exact List.dropWhile_cons_of_neg (by simp [hcs c List.mem_cons_self])
  rw [Text.trimList, hdrop text h, hdrop _ fun c hc => h c (List.mem_reverse.mp hc),
    List.reverse_reverse]

theorem readNumeral_toHex (v : BitVec 64) : readNumeral 16 0 (toHex v) = some v.toNat :=
  readNumeral_toDigits (by decide) le_rfl v.toNat

theorem toInt_nonneg_iff : 0 ≤ v.toInt ↔ v.toNat < 2 ^ 63 := by
  have hlt := v.isLt
  rw [BitVec.toInt_eq_toNat_cond]
  split <;> omega

/-- What is written of an integer is read back, with or without a prefix, if it is not negative. -/
theorem fromHex_toHex (hstart : start ∈ prefixes) (v : BitVec 64) : fromHex (start ++ toHex v) =
    if 0 ≤ v.toInt then .ok v
    else .error "from_hex 解析失败: number too large to fit in target type" := by
  have htrim : Text.trimList (start ++ toHex v) = start ++ toHex v := by
    refine trimList_eq_self fun c hc => ?_
    rcases List.mem_append.mp hc with hc | hc
    · exact isWhitespace_of_start hstart hc
    · exact isWhitespace_of_digitValue (digitValue_of_mem (readNumeral_toHex v) hc)
  rw [fromHex_numeral htrim hstart Nat.toDigits_ne_nil (readNumeral_toHex v)]
  simp only [toInt_nonneg_iff, BitVec.ofNat_toNat, BitVec.setWidth_eq]

/-- What is read, leaving doubtful texts aside. -/
theorem fromHex_eq_ok_iff (h : ¬ Doubtful (Text.trimList text)) :
    fromHex text = .ok w ↔ HexNumeral (Text.trimList text) w.toNat := by
  constructor
  · intro hread
    obtain ⟨start, hstart, rest, htrim, hnil⟩ := exists_start (Text.trimList text)
    have hbare : Bare rest := by
      by_contra hbare
      by_cases hempty : start = []
      · exact hbare (hnil hempty)
      · exact h ⟨start, hstart, rest, htrim, .inr (.inr (.inl ⟨hempty, hbare⟩))⟩
    have hplus : rest.head? ≠ some '+' := fun hp => h ⟨start, hstart, rest, htrim, .inl hp⟩
    have hminus : rest.head? ≠ some '-' := fun hm => h ⟨start, hstart, rest, htrim, .inr (.inl hm)⟩
    rw [fromHex, cleaned_eq htrim hstart hbare] at hread
    by_cases hne : rest = []
    · rw [hne] at hread
      cases hread
    rw [fromStrRadix_eq hne hplus hminus] at hread
    cases hbounded : readBounded 16 (2 ^ 63 - 1) Text.IntErrorKind.invalidDigit .posOverflow 0
        rest with
    | error e =>
        rw [hbounded] at hread
        cases hread
    | ok n =>
        rw [hbounded] at hread
        obtain ⟨hnumeral, hle⟩ := (readBounded_eq_ok_iff (by decide) (Nat.zero_le _)).mp hbounded
        have hw : BitVec.ofNat 64 n = w := Except.ok.inj hread
        refine ⟨start, hstart, rest, hne, htrim, ?_⟩
        rw [hnumeral, ← hw, BitVec.toNat_ofNat, Nat.mod_eq_of_lt (by omega)]
  · rintro ⟨start, hstart, digits, hne, htrim, hnumeral⟩
    have hlt : w.toNat < 2 ^ 63 := by
      by_contra hle
      exact h ⟨start, hstart, digits, htrim,
        .inr (.inr (.inr ⟨w.toNat, hnumeral, by omega, w.isLt⟩))⟩
    rw [fromHex_numeral htrim hstart hne hnumeral, if_pos hlt, BitVec.ofNat_toNat,
      BitVec.setWidth_eq]

/-- The helpers are exact: on bits, on binary digits, on hexadecimal digits of what is not
negative, and on all texts that are not doubtful, apart from white space at their ends. -/
theorem integerHelpers_exact (v : BitVec 64) (hi : 0 ≤ i ∧ i ≤ 63) (hj : 0 ≤ j ∧ j ≤ 63)
    (flag : Bool) (htext : ¬ Doubtful (Text.trimList text)) :
    ((bitSet v i flag).bind (bitGet · j) = if i = j then .ok flag else bitGet v j) ∧
      (0 ≤ v.toInt → ∀ start ∈ prefixes, fromHex (start ++ toHex v) = .ok v) ∧
      ((toBin v).length ≤ 64 ∧
        (readNumeral 2 0 (toBin v)).map (fun n => (BitVec.ofNat 64 n).toInt) = some v.toInt) ∧
      ∀ w, fromHex text = .ok w ↔ HexNumeral (Text.trimList text) w.toNat := by
  refine ⟨bitGet_bitSet v hi hj flag, ?_, ⟨?_, ?_⟩, fun w => fromHex_eq_ok_iff htext⟩
  · intro hv start hstart
    rw [fromHex_toHex hstart, if_pos hv]
  · exact (Nat.length_toDigits_le_iff (by decide) (by decide)).mpr v.isLt
  · rw [toBin, readNumeral_toDigits (by decide) (by decide), Option.map_some, BitVec.ofNat_toNat,
      BitVec.setWidth_eq]

end

/-- The sign bit of 255 is set, and ` ff` is read. -/
theorem integerHelpers_exact_255 :
    ((bitSet 255 63 true).bind (bitGet · 63) = if (63 : ℤ) = 63 then .ok true else bitGet 255 63) ∧
      (0 ≤ (255 : BitVec 64).toInt → ∀ start ∈ prefixes, fromHex (start ++ toHex 255) = .ok 255) ∧
      ((toBin 255).length ≤ 64 ∧ (readNumeral 2 0 (toBin 255)).map
        (fun n => (BitVec.ofNat 64 n).toInt) = some (255 : BitVec 64).toInt) ∧
      ∀ w, fromHex [' ', 'f', 'f'] = .ok w ↔
        HexNumeral (Text.trimList [' ', 'f', 'f']) w.toNat := by
  refine integerHelpers_exact 255 ⟨by decide, by decide⟩ ⟨by decide, by decide⟩ true ?_
  have htrim : Text.trimList [' ', 'f', 'f'] = ['f', 'f'] := by decide
  rw [htrim]
  rintro ⟨start, hstart, rest, heq, hdoubt⟩
  rcases List.mem_cons.mp hstart with rfl | hstart
  · obtain rfl : ['f', 'f'] = rest := heq
    rcases hdoubt with hplus | hminus | ⟨hne, -⟩ | ⟨n, hn, hle, -⟩
    · exact absurd hplus (by decide)
    · exact absurd hminus (by decide)
    · exact hne rfl
    · obtain rfl : 255 = n := Option.some.inj hn
      omega
  · rcases List.mem_pair.mp hstart with rfl | rfl <;> cases heq

/-- White space is trimmed, so that more than numerals is taken; and minus one is not read back. -/
theorem space_taken :
    fromHex [' ', 'f', 'f'] = .ok 255 ∧ (¬ ∃ n, HexNumeral [' ', 'f', 'f'] n) ∧
      fromHex (toHex (-1)) =
        .error "from_hex 解析失败: number too large to fit in target type" := by
  have hminus : fromHex ([] ++ toHex (-1)) = _ := fromHex_toHex List.mem_cons_self (-1)
  rw [List.nil_append, if_neg (by decide)] at hminus
  refine ⟨by decide, ?_, hminus⟩
  rintro ⟨n, start, hstart, digits, -, heq, hread⟩
  rcases List.mem_cons.mp hstart with rfl | hstart
  · obtain rfl : [' ', 'f', 'f'] = digits := heq
    cases hread
  · rcases List.mem_pair.mp hstart with rfl | rfl <;> cases heq

end Nazh.Script
