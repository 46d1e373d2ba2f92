import Mathlib.Data.List.DropRight
import Mathlib.Tactic.Common

/-!
# Lines of a text

A text is cut into lines at its line feeds, each with the carriage return that may stand before it.
Something is read from each line, and white items at the ends of a line do not matter for it. Then
they do not matter at the ends of a text, and a text may be read in parts that end in line feeds.

## Main definitions

* `newlineMatches` — where the line feeds are.
* `splitLines`, `readLines` — the lines of a text, and what is read from them.
* `IgnoresWhite` — a reader that white items at the ends of a line do not matter for.

## Main results

* `readLines_append` — what is before and behind a line feed is read apart.
* `IgnoresWhite.readLines_trimWhite` — the white items at the ends of a text do not matter.
-/

namespace Nazh.Lib

variable {α β : Type}

/-- What is between the white items at both ends. -/
def trimWhite (white : α → Bool) (text : List α) : List α :=
  (text.dropWhile white).rdropWhile white

section Trimmed

variable {white : α → Bool} {a : α} {text : List α}

theorem trimWhite_cons (ha : white a = true) (text : List α) :
    trimWhite white (a :: text) = trimWhite white text := by
  rw [trimWhite, List.dropWhile_cons_of_pos ha, ← trimWhite]

theorem trimWhite_concat (ha : white a = true) (text : List α) :
    trimWhite white (text ++ [a]) = trimWhite white text := by
  rw [trimWhite, List.dropWhile_append]
  by_cases hempty : (text.dropWhile white).isEmpty = true
  · rw [if_pos hempty, List.dropWhile_cons_of_pos ha, trimWhite, List.isEmpty_iff.mp hempty]
    rfl
  · rw [if_neg hempty, List.rdropWhile_concat_pos _ _ _ ha, ← trimWhite]

theorem trimWhite_trimWhite (white : α → Bool) (text : List α) :
    trimWhite white (trimWhite white text) = trimWhite white text := by
  have hfront : ((text.dropWhile white).rdropWhile white).dropWhile white =
      (text.dropWhile white).rdropWhile white := by
    cases hrest : (text.dropWhile white).rdropWhile white with
    | nil => rfl
    | cons a rest =>
        have hpre := List.rdropWhile_prefix white (text.dropWhile white)
        rw [hrest] at hpre
        obtain ⟨behind, hdrop⟩ := hpre
        have ha : white a ≠ true := by
          have hhead := List.head?_dropWhile_not white text
          rw [← hdrop] at hhead
          simpa using hhead
        rw [List.dropWhile_cons_of_neg ha]
  rw [trimWhite, trimWhite, hfront, List.rdropWhile_idempotent]

variable {read : List α → Option β}

/-- White items at the ends of a line do not matter to a reader, who reads nothing from an empty
line. -/
structure IgnoresWhite (white : α → Bool) (read : List α → Option β) : Prop where
  cons : ∀ a line, white a = true → read (a :: line) = read line
  concat : ∀ line a, white a = true → read (line ++ [a]) = read line
  nil : read [] = none

/-- A reader that looks at what is between the white items, and reads nothing there if that is
nothing. -/
theorem IgnoresWhite.of_trimWhite (h : ∀ line, read line = read (trimWhite white line))
    (hnil : read [] = none) : IgnoresWhite white read where
  cons a line ha := by rw [h, trimWhite_cons ha, ← h]
  concat line a ha := by rw [h, trimWhite_concat ha, ← h]
  nil := hnil

end Trimmed

section Lines

variable [DecidableEq α] (cr lf : α)

/-- The places of the line feeds and the sizes of what ends a line there. -/
def newlineMatches : ℕ → List α → List (ℕ × ℕ)
  | _, [] => []
  | index, [a] => if a = lf then [(index, 1)] else []
  | index, a :: b :: text =>
      if a = cr ∧ b = lf then (index, 2) :: newlineMatches (index + 2) text
      else if a = lf then (index, 1) :: newlineMatches (index + 1) (b :: text)
      else newlineMatches (index + 1) (b :: text)

/-- The lines of a text behind a line that was begun. -/
def splitLines : List α → List α → List (List α)
  | line, [] => [line]
  | line, [a] => if a = lf then [line, []] else [line ++ [a]]
  | line, a :: b :: text =>
      if a = cr ∧ b = lf then line :: splitLines [] text
      else if a = lf then line :: splitLines [] (b :: text)
      else splitLines (line ++ [a]) (b :: text)

/-- What is read from the lines of a text. -/
def readLines (read : List α → Option β) (line text : List α) : List β :=
  (splitLines cr lf line text).filterMap read

variable {cr lf} {index : ℕ} {line text : List α}

/-- Behind what ends the last line there is the rest of the text. -/
theorem of_getLast?_newlineMatches {place size : ℕ}
    (h : (newlineMatches cr lf index text).getLast? = some (place, size)) :
    ∃ before after, text = before ++ lf :: after ∧ place + size = index + before.length + 1 := by
  -- the last place is the first one of the last text that has any
  suffices hmem : ∀ index text, (place, size) ∈ newlineMatches cr lf index text →
      ∃ before after, text = before ++ lf :: after ∧ place + size = index + before.length + 1 from
    hmem index text (List.mem_of_getLast? h)
  intro index text
  induction index, text using newlineMatches.induct cr lf with
  | case1 index => simp [newlineMatches]
  | case2 index =>
      intro hplace
      simp only [newlineMatches, if_true, List.mem_singleton, Prod.mk.injEq] at hplace
      exact ⟨[], [], rfl, by simp [hplace]⟩
  | case3 index a ha => simp [newlineMatches, ha]
  | case4 index a b text hcrlf ih =>
      intro hplace
      rw [newlineMatches, if_pos hcrlf, List.mem_cons] at hplace
      rcases hplace with hplace | hplace
      · obtain ⟨rfl, rfl⟩ := Prod.mk.inj hplace
        exact ⟨[a], text, by rw [hcrlf.2]; rfl, rfl⟩
      · obtain ⟨before, after, rfl, hsize⟩ := ih hplace
        exact ⟨a :: b :: before, after, rfl, by simp only [List.length_cons]; omega⟩
  | case5 index b text hcrlf ih =>
      intro hplace
      rw [newlineMatches, if_neg hcrlf, if_pos rfl, List.mem_cons] at hplace
      rcases hplace with hplace | hplace
      · obtain ⟨rfl, rfl⟩ := Prod.mk.inj hplace
        exact ⟨[], b :: text, rfl, rfl⟩
      · obtain ⟨before, after, htext, hsize⟩ := ih hplace
        exact ⟨lf :: before, after, by rw [htext]; rfl, by simp only [List.length_cons]; omega⟩
  | case6 index a b text hcrlf ha ih =>
      intro hplace
      rw [newlineMatches, if_neg hcrlf, if_neg ha] at hplace
      obtain ⟨before, after, htext, hsize⟩ := ih hplace
      exact ⟨a :: before, after, by rw [htext]; rfl, by simp only [List.length_cons]; omega⟩

/-! ## One line after another -/

theorem splitLines_lf (hne : cr ≠ lf) (line text : List α) :
    splitLines cr lf line (lf :: text) = line :: splitLines cr lf [] text := by
  cases text with
  | nil => simp [splitLines]
  | cons b text =>
      have hcrlf : ¬ (lf = cr ∧ b = lf) := fun h => hne h.1.symm
      rw [splitLines, if_neg hcrlf, if_pos rfl]

theorem splitLines_crlf (line text : List α) :
    splitLines cr lf line (cr :: lf :: text) = line :: splitLines cr lf [] text := by
  rw [splitLines, if_pos ⟨rfl, rfl⟩]

/-- An item that ends no line is added to the line. -/
theorem splitLines_cons {a : α} (ha : a ≠ lf) (hcrlf : a = cr → text.head? ≠ some lf) :
    splitLines cr lf line (a :: text) = splitLines cr lf (line ++ [a]) text := by
  cases text with
  | nil => simp [splitLines, ha]
  | cons b text =>
      have hnot : ¬ (a = cr ∧ b = lf) := fun h => hcrlf h.1 (congrArg some h.2)
      rw [splitLines, if_neg hnot, if_neg ha]

variable {read : List α → Option β}

theorem readLines_nil (line : List α) : readLines cr lf read line [] = (read line).toList := by
  rw [readLines, splitLines]
  cases hread : read line <;> simp [hread]

private theorem readLines_of_cons {text' : List α}
    (h : splitLines cr lf line text = line :: splitLines cr lf [] text') :
    readLines cr lf read line text = (read line).toList ++ readLines cr lf read [] text' := by
  rw [readLines, h, readLines]
  cases hread : read line <;> simp [hread]

theorem readLines_lf (hne : cr ≠ lf) (line text : List α) :
    readLines cr lf read line (lf :: text) = (read line).toList ++ readLines cr lf read [] text :=
  readLines_of_cons (splitLines_lf hne line text)

theorem readLines_crlf (line text : List α) :
    readLines cr lf read line (cr :: lf :: text) =
      (read line).toList ++ readLines cr lf read [] text :=
  readLines_of_cons (splitLines_crlf line text)

theorem readLines_cons {a : α} (ha : a ≠ lf) (hcrlf : a = cr → text.head? ≠ some lf) :
    readLines cr lf read line (a :: text) = readLines cr lf read (line ++ [a]) text := by
  rw [readLines, splitLines_cons ha hcrlf, ← readLines]

variable (cr lf) in
/-- A text begins with nothing, with what ends a line, or with an item of its first line. -/
theorem lines_induction {P : List α → List α → Prop} (nil : ∀ line, P line [])
    (newline : ∀ line text, P [] text → P line (lf :: text))
    (crlf : ∀ line text, P [] text → P line (cr :: lf :: text))
    (item : ∀ line a text, a ≠ lf → (a = cr → text.head? ≠ some lf) → P (line ++ [a]) text →
      P line (a :: text)) (line text : List α) : P line text := by
  induction line, text using splitLines.induct cr lf with
  | case1 line => exact nil line
  | case2 line => exact newline line [] (nil [])
  | case3 line a ha => exact item line a [] ha (fun _ => by simp) (nil _)
  | case4 line a b text hcrlf ih =>
      obtain ⟨rfl, rfl⟩ := hcrlf
      exact crlf line text ih
  | case5 line b text hcrlf ih => exact newline line (b :: text) ih
  | case6 line a b text hcrlf ha ih =>
      exact item line a (b :: text) ha (fun hcr hb => hcrlf ⟨hcr, Option.some.inj hb⟩) ih

/-- Lines that were begun are alike if they are alike with whatever comes behind them. -/
theorem readLines_congr (hne : cr ≠ lf) {line' : List α}
    (h : ∀ rest, read (line ++ rest) = read (line' ++ rest)) :
    readLines cr lf read line text = readLines cr lf read line' text := by
  have hread : ∀ {l l' : List α}, (∀ rest, read (l ++ rest) = read (l' ++ rest)) →
      read l = read l' := fun hl => by simpa using hl []
  induction line, text using lines_induction cr lf generalizing line' with
  | nil line => rw [readLines_nil, readLines_nil, hread h]
  | newline line text _ =>
      rw [readLines_lf hne line text,
        readLines_lf hne line' text, hread h]
  | crlf line text _ =>
      rw [readLines_crlf line text,
        readLines_crlf line' text, hread h]
  | item line a text ha hcr ih =>
      rw [readLines_cons ha hcr, readLines_cons ha hcr]
      exact ih fun rest => by simpa using h (a :: rest)

/-- What is before and behind a line feed is read apart. -/
theorem readLines_append (hne : cr ≠ lf) (hnil : read [] = none) (line before after : List α) :
    readLines cr lf read line (before ++ lf :: after) =
      readLines cr lf read line (before ++ [lf]) ++ readLines cr lf read [] after := by
  -- a line feed ends the line that was begun
  have hend : ∀ line, readLines cr lf read line [lf] = (read line).toList := fun line => by
    rw [readLines_lf hne line [], readLines_nil, hnil, Option.toList_none,
      List.append_nil]
  induction line, before using lines_induction cr lf with
  | nil line => rw [List.nil_append, List.nil_append, hend,
      readLines_lf hne line after]
  | newline line before ih =>
      rw [List.cons_append, List.cons_append, readLines_lf hne line _,
        readLines_lf hne line _, ih, List.append_assoc]
  | crlf line before ih =>
      rw [List.cons_append, List.cons_append, List.cons_append, List.cons_append,
        readLines_crlf line _, readLines_crlf line _, ih,
        List.append_assoc]
  | item line a before ha hcr ih =>
      by_cases hlast : before = [] ∧ a = cr
      · -- the carriage return before the line feed
        obtain ⟨rfl, rfl⟩ := hlast
        rw [List.singleton_append, List.singleton_append,
          readLines_crlf line after,
          readLines_crlf line [], readLines_nil, hnil, Option.toList_none,
          List.append_nil]
      · have hhead : ∀ rest, a = cr → (before ++ lf :: rest).head? ≠ some lf := by
          intro rest ha'
          obtain ⟨b, before, rfl⟩ := List.exists_cons_of_ne_nil fun h => hlast ⟨h, ha'⟩
          exact hcr ha'
        rw [List.cons_append, List.cons_append, readLines_cons ha (hhead after), ih,
          readLines_cons ha (hhead [])]

/-! ## White items do not matter -/

namespace IgnoresWhite

variable {white : α → Bool}

/-- A white item at the begin of a text does not matter. -/
theorem readLines_cons (h : IgnoresWhite white read) (hne : cr ≠ lf) {a : α} (ha : white a = true)
    (text : List α) : readLines cr lf read [] (a :: text) = readLines cr lf read [] text := by
  by_cases hlf : a = lf
  · rw [hlf, readLines_lf hne [] text, h.nil, Option.toList_none,
      List.nil_append]
  · by_cases hcr : a = cr ∧ text.head? = some lf
    · obtain ⟨rfl, hhead⟩ := hcr
      obtain ⟨rest, rfl⟩ := List.head?_eq_some_iff.mp hhead
      rw [readLines_crlf [] rest,
        readLines_lf hne [] rest]
    · rw [Lib.readLines_cons hlf fun h' hhead => hcr ⟨h', hhead⟩]
      exact readLines_congr hne fun rest => h.cons a rest ha

/-- A white item at the end of a text does not matter. -/
theorem readLines_concat (h : IgnoresWhite white read) (hne : cr ≠ lf) (hcr : white cr = true)
    {a : α} (ha : white a = true) (line text : List α) :
    readLines cr lf read line (text ++ [a]) = readLines cr lf read line text := by
  have hlast : ∀ line, readLines cr lf read line [a] = (read line).toList := fun line => by
    by_cases hlf : a = lf
    · rw [hlf, readLines_lf hne line [], readLines_nil, h.nil,
        Option.toList_none, List.append_nil]
    · rw [Lib.readLines_cons hlf (fun _ => by simp), readLines_nil, h.concat line a ha]
  induction line, text using lines_induction cr lf with
  | nil line => rw [List.nil_append, hlast, readLines_nil]
  | newline line text ih =>
      rw [List.cons_append, readLines_lf hne line _, ih,
        readLines_lf hne line text]
  | crlf line text ih =>
      rw [List.cons_append, List.cons_append, readLines_crlf line _, ih,
        readLines_crlf line text]
  | item line b text hb hhead ih =>
      by_cases hend : b = cr ∧ text = [] ∧ a = lf
      · -- a carriage return ends the text, and now a line feed comes behind it
        obtain ⟨rfl, rfl, rfl⟩ := hend
        rw [List.singleton_append, readLines_crlf line [], readLines_nil,
          h.nil, Option.toList_none, List.append_nil, Lib.readLines_cons hb hhead, readLines_nil,
          h.concat line b hcr]
      · have hhead' : b = cr → (text ++ [a]).head? ≠ some lf := by
          intro hb' hlf
          cases text with
          | nil => exact hend ⟨hb', rfl, Option.some.inj hlf⟩
          | cons c text => exact hhead hb' hlf
        rw [List.cons_append, Lib.readLines_cons hb hhead', ih, Lib.readLines_cons hb hhead]

/-- The white items at the ends of a text do not matter. -/
theorem readLines_trimWhite (h : IgnoresWhite white read) (hne : cr ≠ lf) (hcr : white cr = true)
    (text : List α) :
    readLines cr lf read [] (trimWhite white text) = readLines cr lf read [] text := by
  have hfront : readLines cr lf read [] (text.dropWhile white) = readLines cr lf read [] text := by
    induction text with
    | nil => rfl
    | cons a text ih =>
        by_cases ha : white a = true
        · rw [List.dropWhile_cons_of_pos ha, ih, h.readLines_cons hne ha]
        · rw [List.dropWhile_cons_of_neg ha]
  rw [trimWhite, ← hfront]
  induction text.dropWhile white using List.reverseRecOn with
  | nil => rfl
  | append_singleton text a ih =>
      by_cases ha : white a = true
      · rw [List.rdropWhile_concat_pos _ _ _ ha, ih, h.readLines_concat hne hcr ha]
      · rw [List.rdropWhile_concat_neg _ _ _ ha]

end IgnoresWhite

end Lines

end Nazh.Lib
