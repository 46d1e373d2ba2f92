import Nazh.Core.Text

/-!
# Durations in words

A duration is written as a number and the suffix of a unit. It is kept in milliseconds, in 64 bits,
and written again in the largest unit that divides it.

A build either checks products for an overflow, and panics, or it wraps them.
-/

namespace Nazh

/-- The units with a suffix. -/
inductive TimeUnit
  | ms
  | h
  | m
  | s
  deriving DecidableEq, Repr

namespace TimeUnit

def suffix : TimeUnit → String
  | ms => "ms"
  | h => "h"
  | m => "m"
  | s => "s"

/-- The milliseconds of a unit. -/
def millis : TimeUnit → UInt64
  | ms => 1
  | h => 3600000
  | m => 60000
  | s => 1000

/-- The units in the order in which their suffixes are tried, `ms` before `s`. -/
def order : List TimeUnit := [ms, h, m, s]

end TimeUnit

/-- `DslError::YamlParse`. -/
structure YamlParse where
  text : String
  deriving DecidableEq, Repr

structure HumanDuration where
  millis : UInt64
  deriving DecidableEq, Repr

/-- A product of a build that checks for overflows, or does not. A panic is `none`. -/
def mulU64 (overflowChecks : Bool) (a b : UInt64) : Option UInt64 :=
  if overflowChecks && decide (2 ^ 64 ≤ a.toNat * b.toNat) then none else some (a * b)

namespace HumanDuration

variable (overflowChecks : Bool)

/-- The duration of a number of units. The number of milliseconds is not multiplied. -/
def ofNumber (s num : String) (u : TimeUnit) : Option (Except YamlParse HumanDuration) :=
  match Text.parseUnsigned 64 (Text.trim num) with
  | .error _ => some (.error ⟨s!"无法解析时长数值: {s}"⟩)
  | .ok n =>
      if u = .ms then some (.ok ⟨UInt64.ofNat n⟩)
      else (mulU64 overflowChecks (UInt64.ofNat n) u.millis).map fun millis => .ok ⟨millis⟩

/-- The first unit whose suffix the text ends in, with the text before it. -/
def splitUnit (s : String) : Option (TimeUnit × String) :=
  TimeUnit.order.findSome? fun u => (Text.stripSuffix s u.suffix).map fun num => (u, num)

/-- `HumanDuration::parse`. -/
def parse (s : String) : Option (Except YamlParse HumanDuration) :=
  match splitUnit (Text.trim s) with
  | some (u, num) => ofNumber overflowChecks (Text.trim s) num u
  | none => some (.error ⟨s!"无法识别时长后缀，支持 ms/s/m/h: {Text.trim s}"⟩)

/-- The text that `Serialize` writes. -/
def serialize (d : HumanDuration) : String :=
  if d.millis % 3600000 = 0 then s!"{d.millis / 3600000}h"
  else if d.millis % 60000 = 0 then s!"{d.millis / 60000}m"
  else if d.millis % 1000 = 0 then s!"{d.millis / 1000}s"
  else s!"{d.millis}ms"

end HumanDuration

/-- But for white space at its ends and before the suffix, the text is a decimal number and the suffix
of the unit. -/
def Reads (s : String) (u : TimeUnit) (n : ℕ) : Prop :=
  ∃ num, Text.trim s = num ++ u.suffix ∧ Text.IsDecimal (Text.trim num) n

/-- If a duration is returned, the text reads it, exactly. If the text reads more milliseconds than
there are, an error is returned. -/
structure HumanDuration.ExactOrRejected (overflowChecks : Bool) (s : String) : Prop where
  exact : ∀ d, parse overflowChecks s = some (.ok d) →
    ∃ u n, Reads s u n ∧ d.millis.toNat = n * u.millis.toNat
  rejected : ∀ u n, Reads s u n → 2 ^ 64 ≤ n * u.millis.toNat →
    ∃ e, parse overflowChecks s = some (.error e)

/-! ## Reading -/

/-- White space is taken from an end only up to the first other character. -/
theorem Text.trim_of_concat {s : String} {cs : List Char} {c : Char} (hs : s.toList = cs ++ [c])
    (hc : Text.isWhitespace c = false) : ∃ cs', (Text.trim s).toList = cs' ++ [c] := by
  obtain ⟨cs', hcs'⟩ : ∃ cs', (cs ++ [c]).dropWhile Text.isWhitespace = cs' ++ [c] := by
    rw [List.dropWhile_append]
    split
    · exact ⟨[], by simp [hc]⟩
    · exact ⟨_, rfl⟩
  refine ⟨cs', ?_⟩
  rw [Text.trim, String.toList_ofList, Text.trimList, hs, hcs', List.reverse_concat,
    List.dropWhile_cons_of_neg (by simp [hc]), List.reverse_cons, List.reverse_reverse]

/-- A decimal number ends in a digit. -/
theorem Text.IsDecimal.isDigit_of_concat {s : String} {n : ℕ} {cs : List Char} {c : Char}
    (h : Text.IsDecimal s n) (hs : s.toList = cs ++ [c]) : c.isDigit = true := by
  obtain ⟨ds, hne, hdigits, -, hds⟩ := h
  have hlast : ds.getLast? = some c := by
    rcases hds with hds | hds
    · rw [← hds, hs, List.getLast?_concat]
    · have hcons : ('+' :: ds).getLast? = some c := by rw [← hds, hs, List.getLast?_concat]
      rwa [List.getLast?_cons_of_ne_nil hne] at hcons
  exact hdigits c (List.mem_of_getLast? hlast)

namespace HumanDuration

variable {overflowChecks : Bool} {s num : String} {u : TimeUnit} {n : ℕ} {d : HumanDuration}

theorem of_splitUnit (h : splitUnit s = some (u, num)) : s = num ++ u.suffix := by
  obtain ⟨u', -, hstrip⟩ := List.exists_of_findSome?_eq_some h
  obtain ⟨num', hnum, heq⟩ := Option.map_eq_some_iff.mp hstrip
  cases heq
  exact Text.stripSuffix_eq_some.mp hnum

/-- A suffix is not stripped from a text that ends in another character. -/
theorem stripSuffix_of_last {e e' : String} (he : e.toList ≠ []) (he' : e'.toList ≠ [])
    (hne : e.toList.getLast he ≠ e'.toList.getLast he') :
    Text.stripSuffix (num ++ e) e' = none := by
  rw [Option.eq_none_iff_forall_ne_some]
  intro rest hrest
  have hlist := congrArg (fun t => t.toList.getLast?) (Text.stripSuffix_eq_some.mp hrest)
  simp only [String.toList_append, List.getLast?_append, List.getLast?_eq_some_getLast he,
    List.getLast?_eq_some_getLast he', Option.some_or, Option.some.injEq] at hlist
  exact hne hlist

/-- The unit of a decimal number is found. A number does not end in `m`, so that `ms` is not taken
for `s`. -/
theorem splitUnit_append (h : Text.IsDecimal (Text.trim num) n) (u : TimeUnit) :
    splitUnit (num ++ u.suffix) = some (u, num) := by
  have hself : Text.stripSuffix (num ++ u.suffix) u.suffix = some num :=
    Text.stripSuffix_eq_some.mpr rfl
  rw [splitUnit, TimeUnit.order]
  cases u with
  | ms => rw [List.findSome?_cons, hself]; rfl
  | h =>
      rw [List.findSome?_cons, stripSuffix_of_last (by decide) (by decide) (by decide),
        Option.map_none, List.findSome?_cons, hself]
      rfl
  | m =>
      rw [List.findSome?_cons, stripSuffix_of_last (by decide) (by decide) (by decide),
        Option.map_none, List.findSome?_cons, stripSuffix_of_last (by decide)
        (by decide) (by decide), Option.map_none, List.findSome?_cons, hself]
      rfl
  | s =>
      have hms : Text.stripSuffix (num ++ TimeUnit.s.suffix) TimeUnit.ms.suffix = none := by
        rw [Option.eq_none_iff_forall_ne_some]
        intro rest hrest
        have hend : num ++ "s" = (rest ++ "m") ++ "s" := by
          rw [String.append_assoc]
          exact Text.stripSuffix_eq_some.mp hrest
        have hnum : num.toList = rest.toList ++ ['m'] := by
          rw [(String.append_left_inj _).mp hend, String.toList_append]
          rfl
        obtain ⟨cs, hcs⟩ := Text.trim_of_concat hnum (by decide)
        exact absurd (h.isDigit_of_concat hcs) (by decide)
      rw [List.findSome?_cons, hms, Option.map_none, List.findSome?_cons,
        stripSuffix_of_last (by decide) (by decide) (by decide), Option.map_none,
        List.findSome?_cons, stripSuffix_of_last (by decide) (by decide) (by decide),
        Option.map_none, List.findSome?_cons, hself]
      rfl

/-- A text that reads a duration is parsed as a number and a unit. -/
theorem parse_of_reads (h : Reads s u n) :
    ∃ num, Text.IsDecimal (Text.trim num) n ∧
      parse overflowChecks s = ofNumber overflowChecks (Text.trim s) num u := by
  obtain ⟨num, htrim, hnum⟩ := h
  refine ⟨num, hnum, ?_⟩
  delta parse
  rw [htrim, splitUnit_append hnum]

theorem parse_of_large (h : Reads s u n) (hn : 2 ^ 64 ≤ n) :
    ∃ e, parse overflowChecks s = some (.error e) := by
  obtain ⟨num, hnum, hparse⟩ := @parse_of_reads overflowChecks s u n h
  rw [hparse, ofNumber]
  cases hnumber : Text.parseUnsigned 64 (Text.trim num) with
  | error e => exact ⟨_, rfl⟩
  | ok k =>
      obtain ⟨hk, hlt⟩ := Text.parseUnsigned_eq_ok.mp hnumber
      exact absurd (hnum.unique hk ▸ hn) (by omega)

theorem mulU64_of_lt {a b : UInt64} (h : a.toNat * b.toNat < 2 ^ 64) :
    mulU64 overflowChecks a b = some (a * b) := by
  rw [mulU64, decide_eq_false (Nat.not_le.mpr h), Bool.and_false]
  rfl

/-- A number of units that has no overflow is multiplied, and so is a number of milliseconds. -/
theorem parse_of_lt (h : Reads s u n) (hn : n < 2 ^ 64) : parse overflowChecks s =
    (mulU64 overflowChecks (UInt64.ofNat n) u.millis).map fun millis => .ok ⟨millis⟩ := by
  obtain ⟨num, hnum, hparse⟩ := @parse_of_reads overflowChecks s u n h
  rw [hparse, ofNumber, Text.parseUnsigned_eq_ok.mpr ⟨hnum, hn⟩]
  dsimp only
  split
  · rename_i hms
    subst hms
    rw [mulU64_of_lt (by rw [TimeUnit.millis]; simp [Nat.mod_lt]), TimeUnit.millis, UInt64.mul_one]
    rfl
  · rfl

/-- What is parsed was read. -/
theorem reads_of_parse (h : parse overflowChecks s = some (.ok d)) :
    ∃ u n, Reads s u n ∧ n < 2 ^ 64 := by
  delta parse at h
  split at h
  · rename_i u num hsplit
    rw [ofNumber] at h
    split at h
    · cases h
    · rename_i n hnumber
      obtain ⟨hnum, hn⟩ := Text.parseUnsigned_eq_ok.mp hnumber
      exact ⟨u, n, ⟨num, of_splitUnit hsplit, hnum⟩, hn⟩
  · cases h

theorem parse_eq_of_lt (h : Reads s u n) (hlt : n * u.millis.toNat < 2 ^ 64) :
    parse overflowChecks s = some (.ok ⟨UInt64.ofNat (n * u.millis.toNat)⟩) := by
  have hmillis : 0 < u.millis.toNat := by
    cases u <;> decide
  have hn : n < 2 ^ 64 := lt_of_le_of_lt (Nat.le_mul_of_pos_right n hmillis) hlt
  have htoNat : (UInt64.ofNat n).toNat = n := UInt64.toNat_ofNat_of_lt' hn
  rw [parse_of_lt h hn, mulU64_of_lt (by rwa [htoNat]), UInt64.ofNat_mul, UInt64.ofNat_toNat]
  rfl

end HumanDuration

open HumanDuration

/-- For every text, the duration is exact or rejected exactly if the text reads no number of units
that fits 64 bits while its milliseconds do not. -/
theorem exactOrRejected_iff (overflowChecks : Bool) (s : String) :
    ExactOrRejected overflowChecks s ↔
      ∀ u n, Reads s u n → n < 2 ^ 64 → n * u.millis.toNat < 2 ^ 64 := by
  constructor
  · intro h u n hreads hn
    by_contra hlt
    obtain ⟨e, he⟩ := h.rejected u n hreads (Nat.le_of_not_lt hlt)
    rw [parse_of_lt hreads hn] at he
    obtain ⟨millis, -, heq⟩ := Option.map_eq_some_iff.mp he
    cases heq
  · intro h
    constructor
    · intro d hparse
      obtain ⟨u, n, hreads, hn⟩ := reads_of_parse hparse
      have hlt := h u n hreads hn
      rw [parse_eq_of_lt hreads hlt] at hparse
      cases hparse
      exact ⟨u, n, hreads, UInt64.toNat_ofNat_of_lt' hlt⟩
    · intro u n hreads hlarge
      refine parse_of_large hreads ?_
      by_contra hn
      exact absurd (h u n hreads (Nat.lt_of_not_le hn)) (by omega)

/-- More hours than fit are read as half an hour, or the parser panics. -/
theorem hours_not_rejected : ¬ ExactOrRejected false "5124095576031h" ∧
    ¬ ExactOrRejected true "5124095576031h" := by
  have hnumber : Text.parseUnsigned 64 (Text.trim "5124095576031") = .ok 5124095576031 := by
    decide
  have hreads : Reads "5124095576031h" .h 5124095576031 :=
    ⟨"5124095576031", by decide, (Text.parseUnsigned_eq_ok.mp hnumber).1⟩
  have hnot : ∀ overflowChecks, ¬ ExactOrRejected overflowChecks "5124095576031h" := by
    intro overflowChecks h
    obtain ⟨e, he⟩ := h.rejected .h 5124095576031 hreads (by decide)
    rw [parse_of_lt hreads (by decide)] at he
    obtain ⟨millis, -, heq⟩ := Option.map_eq_some_iff.mp he
    cases heq
  exact ⟨hnot false, hnot true⟩

/-! ## Writing and reading again -/

theorem isWhitespace_of_isDigit {c : Char} (h : c.isDigit = true) :
    Text.isWhitespace c = false := by
  have hrange := Char.isDigit_iff_toNat.mp h
  have hlow : 48 ≤ c.toNat := hrange.1
  have hhigh : c.toNat ≤ 57 := hrange.2
  simp [Text.isWhitespace]
  omega

theorem reads_text (k : UInt64) (u : TimeUnit) : Reads (toString k ++ u.suffix) u k.toNat := by
  have hnumber : ∀ c ∈ (toString k).toList, Text.isWhitespace c = false := by
    intro c hc
    have hdigit : c ∈ Nat.toDigits 10 k.toNat := by
      rwa [← @String.toList_ofList (Nat.toDigits 10 k.toNat), ← Nat.toString_eq_ofList_toDigits]
    exact isWhitespace_of_isDigit (Nat.isDigit_of_mem_toDigits (by decide) (by decide) hdigit)
  have hsuffix : ∀ c ∈ u.suffix.toList, Text.isWhitespace c = false := by
    have hall : u.suffix.toList.all (fun c => !Text.isWhitespace c) = true := by
      cases u <;> decide
    simpa using hall
  refine ⟨toString k, Text.trim_eq_self fun c hc => ?_, ?_⟩
  · rw [String.toList_append] at hc
    exact (List.mem_append.mp hc).elim (hnumber c) (hsuffix c)
  · rw [Text.trim_eq_self hnumber]
    exact Text.isDecimal_toString k.toNat

/-- A duration is written as the number of a unit that divides it. -/
theorem serialize_eq (d : HumanDuration) : ∃ (u : TimeUnit) (k : UInt64),
    serialize d = toString k ++ u.suffix ∧ k.toNat * u.millis.toNat = d.millis.toNat := by
  have hdivides : ∀ unit : UInt64, d.millis % unit = 0 →
      (d.millis / unit).toNat * unit.toNat = d.millis.toNat := by
    intro unit h
    rw [UInt64.toNat_div]
    refine Nat.div_mul_cancel (Nat.dvd_of_mod_eq_zero ?_)
    rw [← UInt64.toNat_mod, h]
    rfl
  rw [serialize]
  split
  · rename_i h
    exact ⟨.h, _, rfl, hdivides _ h⟩
  · split
    · rename_i h
      exact ⟨.m, _, rfl, hdivides _ h⟩
    · split
      · rename_i h
        exact ⟨.s, _, rfl, hdivides _ h⟩
      · exact ⟨.ms, d.millis, rfl, Nat.mul_one _⟩

/-- Each duration is read as it was written, and a text and what is written of it read the same. -/
theorem parse_serialize (overflowChecks : Bool) :
    (∀ d, parse overflowChecks (serialize d) = some (.ok d)) ∧
      ∀ s d, parse overflowChecks s = some (.ok d) →
        parse overflowChecks (serialize d) = parse overflowChecks s := by
  have hself : ∀ d, parse overflowChecks (serialize d) = some (.ok d) := by
    intro d
    obtain ⟨u, k, hserialize, hmillis⟩ := serialize_eq d
    have hreads : Reads (serialize d) u k.toNat := hserialize ▸ reads_text k u
    rw [parse_eq_of_lt hreads (hmillis ▸ d.millis.toNat_lt), hmillis, UInt64.ofNat_toNat]
  refine ⟨hself, fun s d hs => ?_⟩
  rw [hself, hs]

end Nazh
