import Mathlib.Data.Int.Notation
import Mathlib.Data.List.DropRight
import Mathlib.Data.Nat.Notation
import Mathlib.Tactic.Common
import Mathlib.Tactic.Ring

/-!
# Text

The operations on strings the program takes from its language's library: trimming
white space, ASCII lower case, and parsing decimal integers.
-/

namespace Nazh.Text

/-- The characters with the Unicode property `White_Space`. -/
def isWhitespace (c : Char) : Bool :=
  (0x9 ≤ c.toNat && c.toNat ≤ 0xD) || c.toNat == 0x20 || c.toNat == 0x85 || c.toNat == 0xA0 ||
    c.toNat == 0x1680 || (0x2000 ≤ c.toNat && c.toNat ≤ 0x200A) || c.toNat == 0x2028 ||
    c.toNat == 0x2029 || c.toNat == 0x202F || c.toNat == 0x205F || c.toNat == 0x3000

/-- Drop the white space at both ends. -/
def trimList (s : List Char) : List Char :=
  ((s.dropWhile isWhitespace).reverse.dropWhile isWhitespace).reverse

/-- `str::trim`. -/
def trim (s : String) : String := String.ofList (trimList s.toList)

/-- What trimming leaves is a part of the text. -/
theorem trimList_sublist (s : List Char) : (trimList s).Sublist s := by
  have hback : (trimList s).reverse.Sublist s.reverse := by
    rw [trimList, List.reverse_reverse]
    exact (List.dropWhile_sublist isWhitespace).trans
      (List.reverse_sublist.mpr (List.dropWhile_sublist isWhitespace))
  exact List.reverse_sublist.mp hback

/-- `str::as_bytes`. -/
def asBytes (s : List Char) : List UInt8 := s.flatMap String.utf8EncodeChar

/-- `str::to_ascii_lowercase`. -/
def toAsciiLowercase (s : String) : String := String.ofList (s.toList.map Char.toLower)

/-- `str::strip_suffix`. -/
def stripSuffix (s ending : String) : Option String :=
  if ending.toList.isSuffixOf s.toList then
    some (String.ofList (s.toList.take (s.toList.length - ending.toList.length)))
  else none

theorem stripSuffix_eq_some {s ending rest : String} :
    stripSuffix s ending = some rest ↔ s = rest ++ ending := by
  rw [stripSuffix]
  split
  · rename_i h
    obtain ⟨cs, hcs⟩ := List.isSuffixOf_iff_suffix.mp h
    have hs : s = String.ofList cs ++ ending := by
      apply String.toList_injective
      rw [String.toList_append, String.toList_ofList, hcs]
    rw [← hcs, List.length_append, Nat.add_sub_cancel, List.take_left, Option.some.injEq, hs]
    constructor
    · rintro rfl
      rfl
    · exact (String.append_left_inj ending).mp
  · rename_i h
    constructor
    · intro h'
      cases h'
    · rintro rfl
      refine absurd (List.isSuffixOf_iff_suffix.mpr ?_) h
      rw [String.toList_append]
      exact List.suffix_append _ _

/-- A text without white space is its own trim. -/
theorem trim_eq_self {s : String} (h : ∀ c ∈ s.toList, isWhitespace c = false) : trim s = s := by
  have hdrop : ∀ cs : List Char, (∀ c ∈ cs, isWhitespace c = false) →
      cs.dropWhile isWhitespace = cs := by
    intro cs hcs
    cases cs with
    | nil => rfl
    | cons c cs => rw [List.dropWhile_cons_of_neg (by simp [hcs c List.mem_cons_self])]
  rw [trim, trimList, hdrop _ h, hdrop _ fun c hc => h c (List.mem_reverse.mp hc),
    List.reverse_reverse, String.ofList_toList]

/-- A text that was trimmed has nothing left to trim. -/
@[simp] theorem trim_trim (s : String) : trim (trim s) = trim s := by
  have hlist : ∀ cs : List Char, trimList (trimList cs) = trimList cs := by
    intro cs
    have htrim : ∀ xs : List Char, trimList xs = (xs.dropWhile isWhitespace).rdropWhile isWhitespace :=
      fun _ => rfl
    have hdrop : (trimList cs).dropWhile isWhitespace = trimList cs := by
      cases hcs : trimList cs with
      | nil => rfl
      | cons c rest =>
          -- What is first after trimming was first before the end was trimmed.
          obtain ⟨more, hmore⟩ := List.rdropWhile_prefix isWhitespace (cs.dropWhile isWhitespace)
          rw [← htrim, hcs, List.cons_append] at hmore
          have hhead := List.head?_dropWhile_not isWhitespace cs
          rw [← hmore] at hhead
          exact List.dropWhile_cons_of_neg (by simpa using hhead)
    rw [htrim (trimList cs), hdrop, htrim, List.rdropWhile_idempotent]
  rw [trim, trim, String.toList_ofList, hlist]

/-! ## Integers -/

/-- Why a text is not an integer of the type. -/
inductive IntErrorKind
  | empty
  | invalidDigit
  | posOverflow
  | negOverflow
  deriving DecidableEq, Repr

/-- What a `ParseIntError` displays. -/
def IntErrorKind.message : IntErrorKind → String
  | empty => "cannot parse integer from empty string"
  | invalidDigit => "invalid digit found in string"
  | posOverflow => "number too large to fit in target type"
  | negOverflow => "number too small to fit in target type"

/-- `to_digit(10)`. -/
def digit (c : Char) : Option ℕ :=
  if '0'.toNat ≤ c.toNat ∧ c.toNat ≤ '9'.toNat then some (c.toNat - '0'.toNat) else none

/-- Read digits on. The first that is none, or that exceeds the bound, ends it. -/
def accumulate (bound : ℕ) (overflow : IntErrorKind) (acc : ℕ) :
    List Char → Except IntErrorKind ℕ
  | [] => .ok acc
  | c :: cs => match digit c with
    | none => .error .invalidDigit
    | some d =>
        if acc * 10 + d ≤ bound then accumulate bound overflow (acc * 10 + d) cs
        else .error overflow

/-- `parse` into an unsigned type of `bits` bits. -/
def parseUnsigned (bits : ℕ) (s : String) : Except IntErrorKind ℕ :=
  match s.toList with
  | [] => .error .empty
  | ['+'] | ['-'] => .error .invalidDigit
  | '+' :: cs => accumulate (2 ^ bits - 1) .posOverflow 0 cs
  | cs => accumulate (2 ^ bits - 1) .posOverflow 0 cs

/-- `parse` into a signed type of `bits` bits. -/
def parseSigned (bits : ℕ) (s : String) : Except IntErrorKind ℤ :=
  match s.toList with
  | [] => .error .empty
  | ['+'] | ['-'] => .error .invalidDigit
  | '+' :: cs => (accumulate (2 ^ (bits - 1) - 1) .posOverflow 0 cs).map Int.ofNat
  | '-' :: cs => (accumulate (2 ^ (bits - 1)) .negOverflow 0 cs).map fun n => -Int.ofNat n
  | cs => (accumulate (2 ^ (bits - 1) - 1) .posOverflow 0 cs).map Int.ofNat

theorem accumulate_le {bound acc n : ℕ} {overflow : IntErrorKind} {cs : List Char}
    (hacc : acc ≤ bound) (h : accumulate bound overflow acc cs = .ok n) : n ≤ bound := by
  induction cs generalizing acc with
  | nil =>
      obtain rfl := Except.ok.inj h
      exact hacc
  | cons c cs ih =>
      rw [accumulate] at h
      split at h
      · cases h
      · split at h
        · exact ih ‹_› h
        · cases h

/-- What is parsed fits the type. -/
theorem parseUnsigned_lt {bits n : ℕ} {s : String} (h : parseUnsigned bits s = .ok n) :
    n < 2 ^ bits := by
  have hpos : 0 < 2 ^ bits := Nat.two_pow_pos bits
  rw [parseUnsigned] at h
  split at h
  · cases h
  · cases h
  · cases h
  · have hle := accumulate_le (Nat.zero_le _) h
    omega
  · have hle := accumulate_le (Nat.zero_le _) h
    omega

/-- The text is the number in decimal digits, perhaps after a plus sign. -/
def IsDecimal (s : String) (n : ℕ) : Prop :=
  ∃ ds : List Char, ds ≠ [] ∧ (∀ c ∈ ds, c.isDigit = true) ∧ Nat.ofDigitChars 10 ds 0 = n ∧
    (s.toList = ds ∨ s.toList = '+' :: ds)

theorem le_ofDigitChars (cs : List Char) (acc : ℕ) : acc ≤ Nat.ofDigitChars 10 cs acc := by
  rw [Nat.ofDigitChars_eq_ofDigitChars_zero]
  exact (Nat.le_mul_of_pos_left acc (Nat.pow_pos (by decide))).trans (Nat.le_add_right _ _)

theorem digit_eq (c : Char) :
    digit c = if c.isDigit then some (c.toNat - '0'.toNat) else none := by
  have h : ('0'.toNat ≤ c.toNat ∧ c.toNat ≤ '9'.toNat) ↔ c.isDigit = true := by
    rw [Char.isDigit_iff_toNat]
  simp only [digit, h]

/-- Digits whose value is within the bound are read, and nothing else. -/
theorem accumulate_eq_ok {bound acc n : ℕ} {overflow : IntErrorKind} {cs : List Char}
    (hacc : acc ≤ bound) : accumulate bound overflow acc cs = .ok n ↔
      (∀ c ∈ cs, c.isDigit = true) ∧ Nat.ofDigitChars 10 cs acc = n ∧ n ≤ bound := by
  induction cs generalizing acc with
  | nil =>
      rw [accumulate, Nat.ofDigitChars_nil]
      constructor
      · intro h
        obtain rfl := Except.ok.inj h
        exact ⟨by simp, rfl, hacc⟩
      · rintro ⟨-, rfl, -⟩
        rfl
  | cons c cs ih =>
      rw [accumulate, digit_eq, Nat.ofDigitChars_cons, List.forall_mem_cons, Nat.mul_comm 10 acc]
      by_cases hc : c.isDigit = true
      · simp only [hc, if_true, true_and]
        split
        · rename_i h
          exact ih h
        · rename_i h
          constructor
          · intro h'
            cases h'
          · rintro ⟨-, rfl, hle⟩
            exact absurd ((le_ofDigitChars cs _).trans hle) h
      · simp [hc]

/-- A text is parsed exactly if it is a decimal number that fits the type. -/
theorem parseUnsigned_eq_ok {bits n : ℕ} {s : String} :
    parseUnsigned bits s = .ok n ↔ IsDecimal s n ∧ n < 2 ^ bits := by
  have hpos : 0 < 2 ^ bits := Nat.two_pow_pos bits
  have hle : n ≤ 2 ^ bits - 1 ↔ n < 2 ^ bits := by omega
  rw [parseUnsigned]
  have hsign : ∀ c : Char, c.isDigit = false → s.toList = [c] → ¬ IsDecimal s n := by
    rintro c hc h ⟨ds, hne, hdigits, -, hds | hds⟩
    · rw [h] at hds
      exact absurd (hdigits c (hds ▸ List.mem_cons_self)) (by simp [hc])
    · rw [h] at hds
      exact hne (List.cons.inj hds).2.symm
  split
  · rename_i h
    simp [IsDecimal, h]
  · rename_i h
    simp [hsign '+' (by decide) h]
  · rename_i h
    simp [hsign '-' (by decide) h]
  · rename_i cs hne h
    rw [accumulate_eq_ok (Nat.zero_le _), hle]
    constructor
    · rintro ⟨hdigits, hvalue, hlt⟩
      exact ⟨⟨cs, hne, hdigits, hvalue, .inr h⟩, hlt⟩
    · rintro ⟨⟨ds, -, hdigits, hvalue, hds | hds⟩, hlt⟩
      · rw [h] at hds
        exact absurd (hdigits '+' (hds ▸ List.mem_cons_self)) (by decide)
      · obtain rfl := (List.cons.inj (h.symm.trans hds)).2
        exact ⟨hdigits, hvalue, hlt⟩
  · rename_i hempty _ _ hplus
    rw [accumulate_eq_ok (Nat.zero_le _), hle]
    constructor
    · rintro ⟨hdigits, hvalue, hlt⟩
      exact ⟨⟨s.toList, hempty, hdigits, hvalue, .inl rfl⟩, hlt⟩
    · rintro ⟨⟨ds, -, hdigits, hvalue, rfl | hds⟩, hlt⟩
      · exact ⟨hdigits, hvalue, hlt⟩
      · exact absurd hds (hplus ds)

/-- A text is one number only. -/
theorem IsDecimal.unique {s : String} {m n : ℕ} (hm : IsDecimal s m) (hn : IsDecimal s n) :
    m = n := by
  have hlt : ∀ {k}, k ≤ m + n → k < 2 ^ (m + n) := fun h => h.trans_lt Nat.lt_two_pow_self
  have hparse := parseUnsigned_eq_ok.mpr ⟨hm, hlt (Nat.le_add_right m n)⟩
  rw [parseUnsigned_eq_ok.mpr ⟨hn, hlt (Nat.le_add_left n m)⟩] at hparse
  exact (Except.ok.inj hparse).symm

/-- Numbers are displayed as decimal numbers. -/
theorem isDecimal_toString (n : ℕ) : IsDecimal (toString n) n := by
  have hlist : (toString n).toList = Nat.toDigits 10 n := by
    rw [Nat.toString_eq_ofList_toDigits, String.toList_ofList]
  exact ⟨Nat.toDigits 10 n, Nat.toDigits_ne_nil, fun c h =>
    Nat.isDigit_of_mem_toDigits (by decide) (by decide) h, Nat.ofDigitChars_ten_toDigits, .inl hlist⟩

theorem parseSigned_range {bits : ℕ} {i : ℤ} {s : String} (h : parseSigned bits s = .ok i) :
    -2 ^ (bits - 1) ≤ i ∧ i < 2 ^ (bits - 1) := by
  have hpos : 0 < 2 ^ (bits - 1) := Nat.two_pow_pos (bits - 1)
  have hcast : ((2 ^ (bits - 1) : ℕ) : ℤ) = 2 ^ (bits - 1) := by norm_cast
  have positive : ∀ {cs : List Char}, (accumulate (2 ^ (bits - 1) - 1) .posOverflow 0 cs).map
      Int.ofNat = .ok i → -2 ^ (bits - 1) ≤ i ∧ i < 2 ^ (bits - 1) := by
    intro cs hmap
    cases hacc : accumulate (2 ^ (bits - 1) - 1) .posOverflow 0 cs with
    | error e =>
        rw [hacc] at hmap
        cases hmap
    | ok n =>
        rw [hacc] at hmap
        obtain rfl := Except.ok.inj hmap
        have hle := accumulate_le (Nat.zero_le _) hacc
        rw [← hcast]
        simp only [Int.ofNat_eq_natCast]
        omega
  rw [parseSigned] at h
  split at h
  · cases h
  · cases h
  · cases h
  · exact positive h
  · rename_i cs _ _
    cases hacc : accumulate (2 ^ (bits - 1)) .negOverflow 0 cs with
    | error e =>
        rw [hacc] at h
        cases h
    | ok n =>
        rw [hacc] at h
        obtain rfl := Except.ok.inj h
        have hle := accumulate_le (Nat.zero_le _) hacc
        rw [← hcast]
        simp only [Int.ofNat_eq_natCast]
        omega
  · exact positive h

end Nazh.Text
