import Nazh.Core.Text
import Nazh.Dsl.Guards
import Nazh.Lib.Runs

/-!
# The words of a condition

A condition may name nothing but `payload`. The check blanks the strings and the paths that begin with
`payload`, and then looks at what is left of every word without its leading digits. It does not know the
numbers that are written with letters, nor a member of anything but such a path; and a name that reads as
a floating point number passes.
-/

namespace Nazh

open Lib

/-! ## Identifiers -/

/-- The words of a condition: the longest runs of letters, digits and `_` outside strings. -/
def conditionWords (condition : String) : List (Run Char) :=
  runs isIdentifierContinue [] (stripStringLiterals condition.toList)

/-- The identifier in a word: what is left without the leading digits. -/
def identifierOf (w : Run Char) : List Char := w.chars.dropWhile fun c => !isIdentifierStart c

/-- The word is directly after a dot, and the dot is not the second of a range. -/
def isMemberName (w : Run Char) : Bool :=
  w.chars.head?.any isIdentifierStart && w.before.head? == some '.' &&
    w.before.tail.head? != some '.'

/-- The digits of a number in hexadecimal, octal or binary form. -/
def isRadixDigit (radix c : Char) : Bool :=
  if radix = 'x' ∨ radix = 'X' then
    c.isDigit || ('a' ≤ c && c ≤ 'f') || ('A' ≤ c && c ≤ 'F')
  else if radix = 'o' ∨ radix = 'O' then '0' ≤ c && c ≤ '7'
  else if radix = 'b' ∨ radix = 'B' then c == '0' || c == '1'
  else false

/-- A number with a radix. What follows a decimal point is none. -/
def isRadixNumber (w : Run Char) : Bool :=
  match w.chars with
  | '0' :: radix :: digits =>
      digits.any (isRadixDigit radix) && digits.all (fun c => isRadixDigit radix c || c == '_') &&
        !(w.before.head? == some '.' && w.before.tail.head?.any Char.isDigit)
  | _ => false

/-- The exponent of a number after its letter: digits in the word, or a sign and digits after it. -/
def isExponent (digits after : List Char) : Bool :=
  match digits with
  | [] => (after.head? == some '+' || after.head? == some '-') && after.tail.head?.any Char.isDigit
  | d :: digits => d.isDigit && digits.all fun c => c.isDigit || c == '_'

/-- What follows the digits of a decimal number: nothing, or an exponent. -/
def isDecimalRest (rest after : List Char) : Bool :=
  match rest with
  | [] => true
  | e :: digits => (e == 'e' || e == 'E') && isExponent digits after

/-- A decimal number, or what follows its decimal point. -/
def isDecimalNumber (w : Run Char) : Bool :=
  w.chars.head?.any Char.isDigit &&
    isDecimalRest (w.chars.dropWhile fun c => c.isDigit || c == '_') w.after

/-- The word is part of a numeric literal. -/
def isNumber (w : Run Char) : Bool := isRadixNumber w || isDecimalNumber w

/-- The identifier of a word names a variable that is not `payload`. -/
def breaksRule (w : Run Char) : Bool :=
  identifierOf w != [] && !isMemberName w && !isNumber w &&
    !isConditionReservedWord (String.ofList (identifierOf w))

/-- Every identifier of a condition is `payload` or reserved, members and numbers apart. -/
def UsesOnlyPayload (condition : String) : Prop :=
  ∀ w ∈ conditionWords condition, breaksRule w = false

instance (condition : String) : Decidable (UsesOnlyPayload condition) :=
  inferInstanceAs (Decidable (∀ w ∈ conditionWords condition, breaksRule w = false))

/-! ## What the check does not know -/

/-- A text, read backwards, that ends with `payload` and names after dots. -/
inductive EndsPath : List Char → Prop
  | payload {before : List Char} (hbefore : Stops isIdentifierContinue before) :
      EndsPath ("payload".toList.reverse ++ before)
  | member {c : Char} {cs before : List Char} (hc : isIdentifierStart c = true)
      (hcs : ∀ d ∈ cs, isIdentifierContinue d = true) (h : EndsPath before) :
      EndsPath ((c :: cs).reverse ++ '.' :: before)

/-- The word is a member of a path that begins with `payload`. -/
def OnPath (w : Run Char) : Prop :=
  w.chars.head?.any isIdentifierStart = true ∧ ∃ before, w.before = '.' :: before ∧ EndsPath before

/-- A name that reads as a floating point number. -/
def isFloatName (s : String) : Bool :=
  ["inf", "infinity", "nan"].contains (Text.toAsciiLowercase s)

/-- The check refuses the word, although its identifier is a member or part of a number. -/
def Overlooked (w : Run Char) : Prop :=
  identifierOf w ≠ [] ∧ (isMemberName w = true ∨ isNumber w = true) ∧ ¬ OnPath w ∧
    isConditionReservedWord (String.ofList (identifierOf w)) = false ∧
    isFloatName (String.ofList (identifierOf w)) = false

/-- The check takes the identifier of a word for a bare one. -/
def IsBare (texts : SpecTexts) (w : Run Char) : Prop :=
  identifierOf w ≠ [] ∧ ¬ OnPath w ∧
    isConditionReservedWord (String.ofList (identifierOf w)) = false ∧
    texts.parsesF64 (String.ofList (identifierOf w)) = false

/-! ## Characters -/

section Characters

variable {c : Char}

theorem isIdentifierContinue_of_start (h : isIdentifierStart c = true) :
    isIdentifierContinue c = true := by
  simp only [isIdentifierStart, isIdentifierContinue, Char.isAlphanum, Bool.or_eq_true] at *
  tauto

theorem isIdentifierStart_eq_false (h : isIdentifierContinue c = false) :
    isIdentifierStart c = false :=
  Bool.eq_false_iff.mpr fun hc => absurd (isIdentifierContinue_of_start hc) (by simp [h])

theorem isIdentifierContinue_payload : ∀ c ∈ "payload".toList, isIdentifierContinue c = true :=
  List.all_eq_true.mp (by decide)

end Characters

/-! ## Paths -/

section Paths

variable {before w : List Char} {c : Char}

/-- What ends with a path ends with a name, and no dot. -/
theorem EndsPath.head_continue (h : EndsPath (c :: before)) : isIdentifierContinue c = true := by
  generalize htext : c :: before = text at h
  cases h with
  | payload hbefore =>
      obtain ⟨rfl, -⟩ := List.cons.inj htext
      decide
  | @member d ds before hd hds h =>
      have hmem : c ∈ (d :: ds).reverse := by
        cases hrev : (d :: ds).reverse with
        | nil => simp at hrev
        | cons e es =>
            rw [hrev, List.cons_append] at htext
            obtain ⟨rfl, -⟩ := List.cons.inj htext
            exact List.mem_cons_self
      rcases List.mem_cons.mp (List.mem_reverse.mp hmem) with rfl | hc
      · exact isIdentifierContinue_of_start hd
      · exact hds c hc

theorem EndsPath.ne_nil (h : EndsPath before) : before ≠ [] := by
  cases h with
  | payload hbefore => simp
  | member hc hcs h => simp

/-- The word at the end of a path is `payload`, or a member of a path. -/
theorem EndsPath.of_word (hw : ∀ c ∈ w, isIdentifierContinue c = true)
    (hbefore : Stops isIdentifierContinue before) (h : EndsPath (w.reverse ++ before)) :
    w = "payload".toList ∨ w.head?.any isIdentifierStart = true ∧
      ∃ rest, before = '.' :: rest ∧ EndsPath rest := by
  have hrev : ∀ c ∈ w.reverse, isIdentifierContinue c = true := fun c hc =>
    hw c (List.mem_reverse.mp hc)
  have htake := takeWhile_append_of_stops hrev hbefore
  have hdrop := dropWhile_append_of_stops hrev hbefore
  generalize w.reverse ++ before = text at h htake hdrop
  cases h with
  | @payload front hfront =>
      have hpayload : ∀ c ∈ "payload".toList.reverse, isIdentifierContinue c = true := fun c hc =>
        isIdentifierContinue_payload c (List.mem_reverse.mp hc)
      rw [takeWhile_append_of_stops hpayload hfront] at htake
      exact .inl (List.reverse_injective htake).symm
  | @member c cs front hc hcs h =>
      have hname : ∀ d ∈ (c :: cs).reverse, isIdentifierContinue d = true := by
        intro d hd
        rcases List.mem_cons.mp (List.mem_reverse.mp hd) with rfl | hd
        · exact isIdentifierContinue_of_start hc
        · exact hcs d hd
      have hdot : Stops isIdentifierContinue ('.' :: front) := stops_cons.mpr (by decide)
      rw [takeWhile_append_of_stops hname hdot] at htake
      rw [dropWhile_append_of_stops hname hdot] at hdrop
      obtain rfl := List.reverse_injective htake
      exact .inr ⟨by simpa using hc, front, hdrop.symm, h⟩

end Paths

/-! ## The scanners -/

section Scanners

variable {before s : List Char} {b : Option Char} {c : Char}

theorem startsPayloadPath_iff : startsPayloadPath b s = true ↔
    b.any isIdentifierContinue = false ∧ ∃ rest, s = "payload".toList ++ '.' :: rest := by
  rw [startsPayloadPath, Bool.and_eq_true, Bool.and_eq_true, Bool.not_eq_true', decide_eq_true_iff,
    List.isPrefixOf_iff_prefix, and_assoc]
  have hdrop : ∀ rest, ("payload".toList ++ rest).drop "payload".length = rest := fun rest =>
    List.drop_left' (by decide)
  refine and_congr_right fun _ => ⟨?_, ?_⟩
  · rintro ⟨⟨rest, rfl⟩, hdot⟩
    rw [hdrop] at hdot
    obtain ⟨rest, rfl⟩ := List.head?_eq_some_iff.mp hdot
    exact ⟨rest, rfl⟩
  · rintro ⟨rest, rfl⟩
    exact ⟨List.prefix_append _ _, by rw [hdrop]; rfl⟩

/-- Outside words no path begins. -/
theorem startsPayloadPath_of_stops (h : Stops isIdentifierContinue s) :
    startsPayloadPath b s = false := by
  rw [Bool.eq_false_iff, ne_eq, startsPayloadPath_iff]
  rintro ⟨-, rest, rfl⟩
  exact absurd (stops_cons.mp h) (by decide)

theorem stripPaths_cons_of_not {fuel : ℕ} (h : startsPayloadPath b (c :: s) = false) :
    stripPaths (fuel + 1) b (c :: s) = c :: stripPaths fuel (some c) s := by
  rw [stripPaths, h]
  rfl

/-- In a word no path begins after the first character. -/
theorem stripPaths_word {fuel : ℕ} {w after : List Char} (hw : ∀ d ∈ w, isIdentifierContinue d = true)
    (hbefore : before.head?.any isIdentifierContinue = true) (hfuel : (w ++ after).length ≤ fuel) :
    stripPaths fuel before.head? (w ++ after) =
      w ++ stripPaths (fuel - w.length) (w.reverse ++ before).head? after := by
  induction w generalizing before fuel with
  | nil => rfl
  | cons d w ih =>
      obtain ⟨hd, hw⟩ := List.forall_mem_cons.mp hw
      obtain ⟨fuel, rfl⟩ := Nat.exists_add_one_eq.mpr (Nat.lt_of_lt_of_le (Nat.succ_pos _) hfuel)
      have hnot : startsPayloadPath before.head? (d :: (w ++ after)) = false := by
        rw [Bool.eq_false_iff, ne_eq, startsPayloadPath_iff, hbefore]
        rintro ⟨h, -⟩
        cases h
      have hrest := @ih (d :: before) fuel hw (by simpa using hd) (by simpa using hfuel)
      rw [List.head?_cons] at hrest
      rw [List.cons_append, stripPaths_cons_of_not hnot, hrest, List.length_cons, List.reverse_cons,
        List.append_assoc, List.singleton_append, Nat.add_sub_add_right, List.cons_append]

theorem payloadPathEnd_of_not {fuel : ℕ}
    (h : ∀ c rest, s = '.' :: c :: rest → isIdentifierStart c = false) :
    payloadPathEnd fuel s = s := by
  rw [payloadPathEnd.eq_def]
  split
  · rw [h _ _ rfl]
    rfl
  · rfl

theorem length_payloadPathEnd_le {fuel : ℕ} : (payloadPathEnd fuel s).length ≤ s.length := by
  induction fuel generalizing s with
  | zero => exact Nat.le_refl _
  | succ fuel ih =>
      by_cases hshape : ∃ c rest, s = '.' :: c :: rest ∧ isIdentifierStart c = true
      · obtain ⟨c, rest, rfl, hc⟩ := hshape
        have hlen := (List.dropWhile_suffix isIdentifierContinue (l := rest)).length_le
        have hrest := @ih (rest.dropWhile isIdentifierContinue)
        rw [payloadPathEnd, if_pos hc, List.length_cons, List.length_cons]
        omega
      · rw [payloadPathEnd_of_not fun c rest heq => Bool.eq_false_iff.mpr fun hc =>
          hshape ⟨c, rest, heq, hc⟩]

/-- The check keeps the places of the characters. -/
theorem length_stripPaths {fuel : ℕ} : (stripPaths fuel b s).length = s.length := by
  induction fuel generalizing s b with
  | zero => rfl
  | succ fuel ih =>
      cases s with
      | nil => rfl
      | cons c rest =>
          rw [stripPaths]
          split
          · have hlen := @length_payloadPathEnd_le ((c :: rest).drop "payload".length) rest.length
            simp only [List.length_append, List.length_map, List.length_take, ih, List.length_cons,
              List.length_drop] at hlen ⊢
            omega
          · rw [List.length_cons, List.length_cons, ih]

/-- What was blanked does not begin a word. -/
theorem stops_stripPaths {fuel : ℕ} (h : Stops isIdentifierContinue s) :
    Stops isIdentifierContinue (stripPaths fuel b s) := by
  cases s with
  | nil => cases fuel <;> exact stops_nil
  | cons c s =>
      cases fuel with
      | zero => exact h
      | succ fuel =>
          rw [stripPaths_cons_of_not (startsPayloadPath_of_stops h)]
          exact stops_cons.mpr (stops_cons.mp h)

variable {texts : SpecTexts}

/-- Spaces hold no identifier. -/
theorem bareIdentifiers_blanks {fuel : ℕ} (path : List Char) (h : path.length ≤ fuel) :
    bareIdentifiers texts fuel (path.map (fun _ => ' ') ++ s) =
      bareIdentifiers texts (fuel - path.length) s := by
  induction path generalizing fuel with
  | nil => rfl
  | cons d path ih =>
      obtain ⟨fuel, rfl⟩ := Nat.exists_add_one_eq.mpr (Nat.lt_of_lt_of_le (Nat.succ_pos _) h)
      rw [List.map_cons, List.cons_append, bareIdentifiers, if_neg (by decide),
        ih (by simpa using h), List.length_cons, Nat.add_sub_add_right]

/-- The identifier of a word passes, or it is a bare one. -/
theorem bareIdentifiers_word {fuel : ℕ} {w : List Char} (hw : ∀ d ∈ w, isIdentifierContinue d = true)
    (hs : Stops isIdentifierContinue s) (hfuel : w.length ≤ fuel) :
    ∃ more, fuel - w.length ≤ more ∧ (bareIdentifiers texts fuel (w ++ s) = [] ↔
      (w.dropWhile (fun c => !isIdentifierStart c) ≠ [] →
        isConditionReservedWord (String.ofList (w.dropWhile fun c => !isIdentifierStart c)) = true ∨
        texts.parsesF64 (String.ofList (w.dropWhile fun c => !isIdentifierStart c)) = true) ∧
      bareIdentifiers texts more s = []) := by
  induction w generalizing fuel with
  | nil => exact ⟨fuel, Nat.sub_le _ _, by simp⟩
  | cons d w ih =>
      obtain ⟨hd, hw⟩ := List.forall_mem_cons.mp hw
      obtain ⟨fuel, rfl⟩ := Nat.exists_add_one_eq.mpr (Nat.lt_of_lt_of_le (Nat.succ_pos _) hfuel)
      rw [List.length_cons, Nat.add_sub_add_right]
      rw [List.cons_append, bareIdentifiers]
      by_cases hstart : isIdentifierStart d = true
      · refine ⟨fuel, Nat.sub_le _ _, ?_⟩
        rw [if_pos hstart, takeWhile_append_of_stops hw hs, dropWhile_append_of_stops hw hs,
          List.dropWhile_cons_of_neg (by simp [hstart])]
        simp only
        generalize String.ofList (d :: w) = ident
        cases hreserved : isConditionReservedWord ident with
        | true => simp
        | false =>
            cases hfloat : texts.parsesF64 ident with
            | true => simp
            | false => simp
      · rw [if_neg hstart, List.dropWhile_cons_of_pos (by simp [hstart])]
        exact ih hw (by simpa using hfuel)

end Scanners

/-! ## The check, word by word -/

section ByWord

variable {before s w after : List Char} {c : Char} {texts : SpecTexts}

/-- Neither the word that begins here nor the one after the dot here is on a path. -/
structure OffPath (before s : List Char) : Prop where
  name : ∀ front, before = '.' :: front → s.head?.any isIdentifierStart = true → ¬ EndsPath front
  dot : ∀ c rest, s = '.' :: c :: rest → isIdentifierStart c = true → ¬ EndsPath before

theorem offPath_nil : OffPath [] s where
  name _ h := by cases h
  dot _ _ _ _ hends := hends.ne_nil rfl

theorem OffPath.skip (hc : isIdentifierContinue c = false) (h : OffPath before (c :: s)) :
    OffPath (c :: before) s where
  name := by
    intro front heq hhead
    obtain ⟨rfl, rfl⟩ := List.cons.inj heq
    obtain ⟨d, hd, hstart⟩ := (Option.any_eq_true ..).mp hhead
    obtain ⟨rest, rfl⟩ := List.head?_eq_some_iff.mp hd
    exact h.dot d rest rfl hstart
  dot := by
    intro d rest _ _ hends
    exact absurd hends.head_continue (by simp [hc])

/-- What was read last of a word goes on a word. -/
theorem exists_reverse_append (c : Char) (w before : List Char) :
    ∃ d rest, (c :: w).reverse ++ before = d :: rest ∧ d ∈ c :: w := by
  cases hrev : (c :: w).reverse with
  | nil => simp at hrev
  | cons d rest =>
      exact ⟨d, rest ++ before, rfl, List.mem_reverse.mp (hrev ▸ List.mem_cons_self)⟩

/-- After a word that is not the beginning of a path. -/
theorem OffPath.word (hw : ∀ d ∈ c :: w, isIdentifierContinue d = true)
    (hbefore : Stops isIdentifierContinue before) (h : OffPath before (c :: w ++ after))
    (hnot : ¬ (c :: w = "payload".toList ∧ ∃ rest, after = '.' :: rest)) :
    OffPath ((c :: w).reverse ++ before) after where
  name := by
    intro front heq
    obtain ⟨d, rest, hd, hmem⟩ := exists_reverse_append c w before
    obtain ⟨rfl, -⟩ := List.cons.inj (hd.symm.trans heq)
    exact absurd (hw _ hmem) (by decide)
  dot := by
    intro d rest hafter _ hends
    rcases hends.of_word hw hbefore with hpayload | ⟨hhead, front, hfront, hends⟩
    · exact hnot ⟨hpayload, _, hafter⟩
    · exact h.name front hfront (by simpa using hhead) hends

/-- The members of a path are passed over, and then no path goes on. -/
theorem exists_path {fuel : ℕ} (hs : Stops isIdentifierContinue s) (hends : EndsPath before)
    (hfuel : s.length ≤ fuel) :
    ∃ path, s = path ++ payloadPathEnd fuel s ∧
      Stops isIdentifierContinue (payloadPathEnd fuel s) ∧
      OffPath (path.reverse ++ before) (payloadPathEnd fuel s) ∧
      ((∀ w ∈ runs isIdentifierContinue before s, ¬ IsBare texts w) ↔
        ∀ w ∈ runs isIdentifierContinue (path.reverse ++ before) (payloadPathEnd fuel s),
          ¬ IsBare texts w) := by
  induction fuel generalizing s before with
  | zero =>
      obtain rfl := List.length_eq_zero_iff.mp (Nat.le_zero.mp hfuel)
      refine ⟨[], rfl, hs, ⟨fun _ _ h => ?_, fun _ _ h => ?_⟩, Iff.rfl⟩ <;> cases h
  | succ fuel ih =>
      by_cases hshape : ∃ c rest, s = '.' :: c :: rest ∧ isIdentifierStart c = true
      · obtain ⟨c, rest, rfl, hc⟩ := hshape
        obtain ⟨w, after, rfl, hw, hafter⟩ := exists_run (isIdentifierContinue_of_start hc) rest
        obtain ⟨-, hcs⟩ := List.forall_mem_cons.mp hw
        have hlen : after.length ≤ fuel := by
          simp only [List.length_cons, List.length_append] at hfuel
          omega
        obtain ⟨path, hsplit, hstops, hoff, hiff⟩ := ih hafter (.member hc hcs hends) hlen
        have hend : payloadPathEnd (fuel + 1) ('.' :: c :: (w ++ after)) =
            payloadPathEnd fuel after := by
          rw [payloadPathEnd, if_pos hc, dropWhile_append_of_stops hcs hafter]
        have hbefore : ('.' :: c :: w ++ path).reverse ++ before =
            path.reverse ++ ((c :: w).reverse ++ '.' :: before) := by
          simp
        have hon : OnPath ⟨'.' :: before, c :: w, after⟩ := ⟨by simpa using hc, before, rfl, hends⟩
        rw [hend]
        refine ⟨'.' :: c :: w ++ path, ?_, hstops, hbefore ▸ hoff, ?_⟩
        · rw [List.append_assoc, ← hsplit]
          rfl
        · rw [hbefore, ← hiff, runs_cons_of_neg (by decide), ← List.cons_append, runs_append hw hafter,
            List.forall_mem_cons]
          exact and_iff_right fun hbare => hbare.2.1 hon
      · have hend : payloadPathEnd (fuel + 1) s = s :=
          payloadPathEnd_of_not fun c rest heq => Bool.eq_false_iff.mpr fun hc =>
            hshape ⟨c, rest, heq, hc⟩
        rw [hend]
        refine ⟨[], rfl, hs, ⟨?_, fun c rest heq hc => absurd ⟨c, rest, heq, hc⟩ hshape⟩, Iff.rfl⟩
        rintro front rfl
        exact absurd hends.head_continue (by decide)

/-- The word `payload` is never a bare one. -/
theorem not_isBare_payload : ¬ IsBare texts ⟨before, "payload".toList, after⟩ := by
  have hid : identifierOf (⟨before, "payload".toList, after⟩ : Run Char) = "payload".toList := by
    change "payload".toList.dropWhile (fun c => !isIdentifierStart c) = _
    decide
  rintro ⟨-, -, hreserved, -⟩
  rw [hid] at hreserved
  exact absurd hreserved (by decide)

/-- Off paths, a word is a bare one if its identifier does not pass. -/
theorem isBare_iff (hoff : ∀ front, before = '.' :: front → w.head?.any isIdentifierStart = true →
    ¬ EndsPath front) : ¬ IsBare texts ⟨before, w, after⟩ ↔
      (w.dropWhile (fun c => !isIdentifierStart c) ≠ [] →
        isConditionReservedWord (String.ofList (w.dropWhile fun c => !isIdentifierStart c)) = true ∨
        texts.parsesF64 (String.ofList (w.dropWhile fun c => !isIdentifierStart c)) = true) := by
  have hpath : ¬ OnPath ⟨before, w, after⟩ := by
    rintro ⟨hstart, front, hfront, hends⟩
    exact hoff front hfront hstart hends
  rw [IsBare, identifierOf]
  simp only [hpath, not_false_eq_true, true_and, not_and]
  refine forall_congr' fun _ => ?_
  generalize String.ofList (w.dropWhile fun c => !isIdentifierStart c) = ident
  cases isConditionReservedWord ident <;> cases texts.parsesF64 ident <;> simp

/-- A path is blanked whole, and the text is read on after it. -/
theorem stripPaths_of_starts {fuel : ℕ} {b : Option Char} {path tail : List Char}
    (h : startsPayloadPath b (c :: s) = true)
    (hend : payloadPathEnd s.length ((c :: s).drop "payload".length) = tail)
    (hsplit : c :: s = path ++ tail) : stripPaths (fuel + 1) b (c :: s) =
      path.map (fun _ => ' ') ++ stripPaths fuel path.getLast? tail := by
  have htake : (c :: s).take (s.length + 1 - tail.length) = path := by
    have hlen := congrArg List.length hsplit
    rw [List.length_cons, List.length_append] at hlen
    rw [hsplit]
    exact List.take_left' (by omega)
  rw [stripPaths, if_pos h]
  simp only [hend, htake]

/-- The check passes over a path, and none of its members is a bare word. -/
theorem bareIdentifiers_path {n m : ℕ} (hbefore : Stops isIdentifierContinue before)
    (hafter : ∃ tail, after = '.' :: tail) (hn : ("payload".toList ++ after).length ≤ n)
    (hm : ("payload".toList ++ after).length ≤ m) :
    ∃ front rest n' m', rest.length ≤ after.length ∧ rest.length ≤ n' ∧ rest.length ≤ m' ∧
      bareIdentifiers texts n (stripPaths m before.head? ("payload".toList ++ after)) =
        bareIdentifiers texts n' (stripPaths m' front.head? rest) ∧
      Stops isIdentifierContinue rest ∧ OffPath front rest ∧
      ((∀ w ∈ runs isIdentifierContinue ("payload".toList.reverse ++ before) after,
          ¬ IsBare texts w) ↔ ∀ w ∈ runs isIdentifierContinue front rest, ¬ IsBare texts w) := by
  have hseven : "payload".toList.length = 7 := by decide
  simp only [List.length_append, hseven] at hn hm
  obtain ⟨m, rfl⟩ : ∃ k, m = k + 1 := ⟨m - 1, by omega⟩
  have hstops : Stops isIdentifierContinue after := by
    obtain ⟨tail, rfl⟩ := hafter
    exact stops_cons.mpr (by decide)
  obtain ⟨path, hsplit, hrest, hoff, hiff⟩ := @exists_path _ _ texts
    (6 + after.length) hstops (.payload hbefore) (Nat.le_add_left _ _)
  have hstarts : startsPayloadPath before.head? ("payload".toList ++ after) = true := by
    obtain ⟨tail, rfl⟩ := hafter
    exact startsPayloadPath_iff.mpr ⟨hbefore.any_head?, tail, rfl⟩
  have hend : payloadPathEnd (['a', 'y', 'l', 'o', 'a', 'd'] ++ after).length
      (("payload".toList ++ after).drop "payload".length) =
        payloadPathEnd (6 + after.length) after := by
    rw [List.drop_left' (by decide), List.length_append]
    rfl
  generalize payloadPathEnd (6 + after.length) after = rest at hsplit hrest hoff hiff hend
  have hlast : ("payload".toList ++ path).getLast? =
      (path.reverse ++ ("payload".toList.reverse ++ before)).head? := by
    rw [← List.append_assoc, ← List.reverse_append, List.head?_append_of_ne_nil _ (by simp),
      List.head?_reverse]
  have hwhole : "payload".toList ++ after = ("payload".toList ++ path) ++ rest := by
    rw [List.append_assoc, ← hsplit]
  have hstrip := @stripPaths_of_starts _ _ m _ ("payload".toList ++ path) _ hstarts hend hwhole
  have hlen := congrArg List.length hsplit
  rw [List.length_append] at hlen
  refine ⟨_, rest, n - ("payload".toList ++ path).length, m, by omega, ?_, by omega, ?_, hrest, hoff,
    hiff⟩
  · rw [List.length_append]
    omega
  · rw [← hlast, ← bareIdentifiers_blanks]
    · exact congrArg _ hstrip
    · rw [List.length_append]
      omega

/-- Any other word stands for itself. -/
theorem bareIdentifiers_of_word {n m : ℕ} (hw : ∀ d ∈ c :: w, isIdentifierContinue d = true)
    (hafter : Stops isIdentifierContinue after) (hoff : OffPath before (c :: w ++ after))
    (hnot : ¬ (c :: w = "payload".toList ∧ ∃ rest, after = '.' :: rest))
    (hn : (c :: w ++ after).length ≤ n) (hm : (c :: w ++ after).length ≤ m) :
    ∃ n' m', after.length ≤ n' ∧ after.length ≤ m' ∧
      (bareIdentifiers texts n (stripPaths m before.head? (c :: w ++ after)) = [] ↔
        ¬ IsBare texts ⟨before, c :: w, after⟩ ∧
        bareIdentifiers texts n' (stripPaths m' ((c :: w).reverse ++ before).head? after) = []) := by
  obtain ⟨m, rfl⟩ := Nat.exists_add_one_eq.mpr (Nat.lt_of_lt_of_le (Nat.succ_pos _) hm)
  simp only [List.length_append, List.length_cons] at hn hm
  have hskip : startsPayloadPath before.head? (c :: (w ++ after)) = false := by
    rw [Bool.eq_false_iff, ne_eq, startsPayloadPath_iff]
    rintro ⟨-, tail, heq⟩
    rw [← List.cons_append] at heq
    have hdot : Stops isIdentifierContinue ('.' :: tail) := stops_cons.mpr (by decide)
    have hword := takeWhile_append_of_stops hw hafter
    have hrest := dropWhile_append_of_stops hw hafter
    rw [heq, takeWhile_append_of_stops isIdentifierContinue_payload hdot] at hword
    rw [heq, dropWhile_append_of_stops isIdentifierContinue_payload hdot] at hrest
    exact hnot ⟨hword.symm, tail, hrest.symm⟩
  obtain ⟨hc, hcs⟩ := List.forall_mem_cons.mp hw
  have hstrip := @stripPaths_word (c :: before) m w after hcs (by simpa using hc)
    (by rw [List.length_append]; omega)
  have hreverse : w.reverse ++ c :: before = (c :: w).reverse ++ before := by simp
  rw [List.head?_cons, hreverse] at hstrip
  obtain ⟨more, hmore, hiff⟩ := @bareIdentifiers_word
    (stripPaths (m - w.length) ((c :: w).reverse ++ before).head? after) texts n (c :: w) hw
    (stops_stripPaths hafter) (by rw [List.length_cons]; omega)
  rw [List.length_cons] at hmore
  refine ⟨more, m - w.length, by omega, by omega, ?_⟩
  rw [List.cons_append, stripPaths_cons_of_not hskip, hstrip, ← List.cons_append, hiff,
    isBare_iff fun front hfront hstart => hoff.name front hfront (by simpa using hstart)]

/-- What the check takes for bare identifiers, word by word. -/
theorem bareIdentifiers_eq_nil_iff {n m : ℕ} (hn : s.length ≤ n) (hm : s.length ≤ m)
    (hplace : Stops isIdentifierContinue before ∨ Stops isIdentifierContinue s)
    (hoff : OffPath before s) : bareIdentifiers texts n (stripPaths m before.head? s) = [] ↔
      ∀ w ∈ runs isIdentifierContinue before s, ¬ IsBare texts w := by
  induction hlen : s.length using Nat.strong_induction_on generalizing s before n m with
  | _ len ih =>
    subst hlen
    cases s with
    | nil =>
        have hstrip : stripPaths m before.head? [] = [] := by cases m <;> rfl
        have hbare : bareIdentifiers texts n [] = [] := by cases n <;> rfl
        simp [hstrip, hbare]
    | cons c rest =>
        cases hc : isIdentifierContinue c with
        | false =>
            obtain ⟨n, rfl⟩ := Nat.exists_add_one_eq.mpr (Nat.lt_of_lt_of_le (Nat.succ_pos _) hn)
            obtain ⟨m, rfl⟩ := Nat.exists_add_one_eq.mpr (Nat.lt_of_lt_of_le (Nat.succ_pos _) hm)
            have hstops : Stops isIdentifierContinue (c :: rest) := stops_cons.mpr hc
            rw [stripPaths_cons_of_not (startsPayloadPath_of_stops hstops), bareIdentifiers,
              if_neg (by simp [isIdentifierStart_eq_false hc]), runs_cons_of_neg hc]
            exact @ih rest.length (by simp) (c :: before) rest n m (by simpa using hn)
              (by simpa using hm) (.inl (stops_cons.mpr hc)) (hoff.skip hc) rfl
        | true =>
            have hbefore : Stops isIdentifierContinue before :=
              hplace.resolve_right fun h => absurd (stops_cons.mp h) (by simp [hc])
            obtain ⟨w, after, rfl, hw, hafter⟩ := exists_run hc rest
            rw [← List.cons_append, runs_append hw hafter, List.forall_mem_cons]
            by_cases hpath : c :: w = "payload".toList ∧ ∃ tail, after = '.' :: tail
            · obtain ⟨front, rest, n', m', hlt, hn', hm', hbare, hrest, hoff', hiff⟩ :=
                @bareIdentifiers_path before after texts n m hbefore hpath.2 (hpath.1 ▸ hn)
                  (hpath.1 ▸ hm)
              rw [hpath.1, hbare, hiff, and_iff_right not_isBare_payload]
              refine ih rest.length ?_ hn' hm' (.inr hrest) hoff' rfl
              simp only [List.length_append, List.length_cons]
              omega
            · obtain ⟨n', m', hn', hm', hiff⟩ :=
                @bareIdentifiers_of_word before w after c texts n m hw hafter hoff hpath hn hm
              have hlt : after.length < (c :: (w ++ after)).length := by
                simp only [List.length_append, List.length_cons]
                omega
              rw [hiff, ih after.length hlt hn' hm' (.inr hafter) (hoff.word hw hbefore hpath) rfl]

end ByWord

/-! ## What the check accepts -/

section Accepts

variable {texts : SpecTexts} {w : Run Char}

/-- The check accepts the conditions without bare words. -/
theorem validateTransitionConditionSupported_eq_ok {trans : TransitionSpec} :
    validateTransitionConditionSupported texts trans = .ok () ↔
      ∀ w ∈ conditionWords trans.condition, ¬ IsBare texts w := by
  have hbare : extractBareIdentifiers texts
      (stripPayloadPaths (stripStringLiterals trans.condition.toList)) = [] ↔
        ∀ w ∈ conditionWords trans.condition, ¬ IsBare texts w :=
    @bareIdentifiers_eq_nil_iff [] _ texts _ _ length_stripPaths.ge (Nat.le_refl _) (.inl stops_nil)
      offPath_nil
  rw [validateTransitionConditionSupported, ← hbare]
  cases extractBareIdentifiers texts
      (stripPayloadPaths (stripStringLiterals trans.condition.toList)) with
  | nil => simp
  | cons ident rest => simp

/-- A member of a path is a member. -/
theorem isMemberName_of_onPath (h : OnPath w) : isMemberName w = true := by
  obtain ⟨hstart, front, hbefore, hends⟩ := h
  have hdot : front.head? ≠ some '.' := by
    intro hhead
    obtain ⟨rest, rfl⟩ := List.head?_eq_some_iff.mp hhead
    exact absurd hends.head_continue (by decide)
  simp [isMemberName, hstart, hbefore, hdot]

/-- The bare words are those that break the rule and do not read as a number, and those overlooked. -/
theorem isBare_iff_breaks (hf64 : ∀ s : String, s.toList.head?.any isIdentifierStart = true →
    texts.parsesF64 s = isFloatName s) : IsBare texts w ↔
      (breaksRule w = true ∧ isFloatName (String.ofList (identifierOf w)) = false) ∨ Overlooked w := by
  by_cases hid : identifierOf w = []
  · simp [IsBare, breaksRule, Overlooked, hid]
  · have hfloat : texts.parsesF64 (String.ofList (identifierOf w)) =
        isFloatName (String.ofList (identifierOf w)) := by
      refine hf64 _ ?_
      rw [String.toList_ofList]
      have hhead := List.head?_dropWhile_not (fun c => !isIdentifierStart c) w.chars
      obtain ⟨c, rest, hcons⟩ := List.exists_cons_of_ne_nil hid
      rw [identifierOf] at hcons ⊢
      rw [hcons] at hhead ⊢
      simpa using hhead
    have hmember := @isMemberName_of_onPath w
    rw [IsBare, Overlooked, hfloat, breaksRule]
    simp only [ne_eq, hid, not_false_eq_true, true_and, Bool.and_eq_true, bne_iff_ne,
      Bool.not_eq_true']
    by_cases hon : OnPath w
    · simp [hon, hmember hon]
    · cases isMemberName w <;> cases isNumber w <;> simp [hon]

/-- The check accepts exactly the conditions that use only `payload`, unless only names that read as
floating point numbers break the rule, or words are overlooked: just one of both makes it go wrong. -/
theorem checksConditions_iff (hf64 : ∀ s : String, s.toList.head?.any isIdentifierStart = true →
    texts.parsesF64 s = isFloatName s) (trans : TransitionSpec) :
    (validateTransitionConditionSupported texts trans = .ok () ↔ UsesOnlyPayload trans.condition) ↔
      (∃ w ∈ conditionWords trans.condition, breaksRule w = true ∧
        isFloatName (String.ofList (identifierOf w)) = false) ∨
      ((∃ w ∈ conditionWords trans.condition, breaksRule w = true) ↔
        ∃ w ∈ conditionWords trans.condition, Overlooked w) := by
  have haccepts : validateTransitionConditionSupported texts trans = .ok () ↔
      (¬ ∃ w ∈ conditionWords trans.condition, breaksRule w = true ∧
        isFloatName (String.ofList (identifierOf w)) = false) ∧
      ¬ ∃ w ∈ conditionWords trans.condition, Overlooked w := by
    rw [validateTransitionConditionSupported_eq_ok]
    simp only [isBare_iff_breaks hf64, not_or, not_exists, not_and]
    exact ⟨fun h => ⟨fun w hw => (h w hw).1, fun w hw => (h w hw).2⟩, fun h w hw =>
      ⟨h.1 w hw, h.2 w hw⟩⟩
  have hrule : UsesOnlyPayload trans.condition ↔
      ¬ ∃ w ∈ conditionWords trans.condition, breaksRule w = true := by
    simp [UsesOnlyPayload]
  have hbreaks : (∃ w ∈ conditionWords trans.condition, breaksRule w = true ∧
      isFloatName (String.ofList (identifierOf w)) = false) →
      ∃ w ∈ conditionWords trans.condition, breaksRule w = true := fun ⟨w, hw, hbreak, _⟩ =>
    ⟨w, hw, hbreak⟩
  rw [haccepts, hrule]
  by_cases hother : ∃ w ∈ conditionWords trans.condition, breaksRule w = true ∧
      isFloatName (String.ofList (identifierOf w)) = false
  · exact iff_of_true (iff_of_false (fun h => h.1 hother) (fun h => h (hbreaks hother))) (.inl hother)
  · rw [or_iff_right hother, and_iff_right hother, not_iff_not]
    exact ⟨Iff.symm, Iff.symm⟩

end Accepts

/-- Texts that read a name as a number as the language does. -/
def conditionTexts : SpecTexts := ⟨Text.toAsciiLowercase, Char.isAlphanum, isFloatName, fun _ => ""⟩

/-- A transition with this condition. -/
def whenever (condition : String) : TransitionSpec := ⟨"idle", "running", condition, none, none⟩

/-- A number with an exponent is refused, and a variable that is called `inf` is accepted. -/
theorem exponent_refused :
    UsesOnlyPayload "payload.level > 1e5" ∧
      validateTransitionConditionSupported conditionTexts (whenever "payload.level > 1e5") ≠ .ok () ∧
      ¬ UsesOnlyPayload "inf > payload.level" ∧
      validateTransitionConditionSupported conditionTexts (whenever "inf > payload.level") = .ok () := by
  decide

theorem start_button_refused :
    (validateTransitionConditionSupported conditionTexts (whenever "start_button == true") = .ok () ↔
        UsesOnlyPayload "start_button == true") ↔
      (∃ w ∈ conditionWords "start_button == true", breaksRule w = true ∧
        isFloatName (String.ofList (identifierOf w)) = false) ∨
      ((∃ w ∈ conditionWords "start_button == true", breaksRule w = true) ↔
        ∃ w ∈ conditionWords "start_button == true", Overlooked w) :=
  checksConditions_iff (fun _ _ => rfl) (whenever "start_button == true")

end Nazh
