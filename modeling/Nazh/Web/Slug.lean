import Mathlib.Data.List.Chain
import Mathlib.Data.List.DropRight
import Nazh.Core.Files

/-!
# Names of board files

A board file is called after the slugs of its project's name and id. A slug has no two hyphens in
a row and none at its ends, so that the two hyphens between the slugs tell where the first one ends.
-/

namespace Nazh.Web

/-! ## Texts of the browser -/

/-- White space and line terminators, as `String.prototype.trim` takes them. -/
def isWhiteSpace (c : Char) : Bool := (Text.isWhitespace c && c.toNat != 0x85) || c.toNat == 0xFEFF

/-- `String.prototype.trim`. -/
def trim (s : String) : String :=
  String.ofList ((s.toList.dropWhile isWhiteSpace).rdropWhile isWhiteSpace)

theorem toList_trim (s : String) :
    (trim s).toList = (s.toList.dropWhile isWhiteSpace).rdropWhile isWhiteSpace :=
  String.toList_ofList

/-- What was trimmed has nothing left to trim. -/
theorem trim_trim (s : String) : trim (trim s) = trim s := by
  refine String.toList_inj.mp ?_
  rw [toList_trim (trim s), toList_trim s]
  have hdrop : ((s.toList.dropWhile isWhiteSpace).rdropWhile isWhiteSpace).dropWhile isWhiteSpace =
      (s.toList.dropWhile isWhiteSpace).rdropWhile isWhiteSpace := by
    refine List.dropWhile_eq_self_iff.mpr fun hpos => ?_
    have hstart := List.rdropWhile_prefix isWhiteSpace (s.toList.dropWhile isWhiteSpace)
    rw [hstart.getElem hpos]
    exact List.dropWhile_get_zero_not _ _ _
  rw [hdrop, List.rdropWhile_idempotent]

/-- A text without white space is its own trim. -/
theorem trim_eq_self {s : String} (h : ∀ c ∈ s.toList, isWhiteSpace c = false) : trim s = s := by
  have hdrop : s.toList.dropWhile isWhiteSpace = s.toList :=
    List.dropWhile_eq_self_iff.mpr fun _ => by simp [h _ (List.getElem_mem _)]
  refine String.toList_inj.mp ?_
  rw [toList_trim, hdrop]
  exact List.rdropWhile_eq_self_iff.mpr fun hne => by simp [h _ (List.getLast_mem hne)]

/-- The lower case of a letter. Of the letters beyond ASCII only those are spelled out whose lower
case has an ASCII letter; the others stay, and what matters of them is that they are beyond it. -/
def lowerCase (c : Char) : List Char :=
  if 'A'.toNat ≤ c.toNat ∧ c.toNat ≤ 'Z'.toNat then [c.toLower]
  else if c.toNat = 0x130 then ['i', Char.ofNat 0x307]
  else if c.toNat = 0x212A then ['k']
  else [c]

/-! ## Slugs -/

/-- `[a-z0-9一-龥]`. -/
def isSlugChar (c : Char) : Bool :=
  ('a'.toNat ≤ c.toNat && c.toNat ≤ 'z'.toNat) || ('0'.toNat ≤ c.toNat && c.toNat ≤ '9'.toNat) ||
    ('一'.toNat ≤ c.toNat && c.toNat ≤ '龥'.toNat)

/-- Replace each run of other characters by a hyphen. `inRun` tells that one has begun. -/
def hyphenate : Bool → List Char → List Char
  | _, [] => []
  | inRun, c :: cs =>
      if isSlugChar c then c :: hyphenate false cs
      else if inRun then hyphenate true cs
      else '-' :: hyphenate true cs

/-- Drop the hyphens at both ends. -/
def stripHyphens (cs : List Char) : List Char := (cs.dropWhile (· = '-')).rdropWhile (· = '-')

def slugify (value : String) : String :=
  let normalized := stripHyphens (hyphenate false ((trim value).toList.flatMap lowerCase))
  if normalized = [] then "project" else String.ofList normalized

/-- Words of slug characters with single hyphens between them. -/
structure IsSlug (cs : List Char) : Prop where
  chars : ∀ c ∈ cs, isSlugChar c = true ∨ c = '-'
  single : cs.IsChain fun a b => ¬ (a = '-' ∧ b = '-')
  ends : cs.getLast? ≠ some '-'
  nonempty : cs ≠ []

theorem chars_hyphenate {inRun : Bool} {cs : List Char} {c : Char} (h : c ∈ hyphenate inRun cs) :
    isSlugChar c = true ∨ c = '-' := by
  induction cs generalizing inRun with
  | nil => cases h
  | cons d cs ih =>
      rw [hyphenate] at h
      split at h
      case isTrue hd =>
        rcases List.mem_cons.mp h with rfl | h
        · exact .inl hd
        · exact ih h
      case isFalse =>
        split at h
        · exact ih h
        · rcases List.mem_cons.mp h with rfl | h
          · exact .inr rfl
          · exact ih h

/-- Within a run no hyphen is written. -/
theorem head_hyphenate (cs : List Char) : (hyphenate true cs).head? ≠ some '-' := by
  induction cs with
  | nil => simp [hyphenate]
  | cons c cs ih =>
      rw [hyphenate]
      split
      case isTrue hc =>
        rw [List.head?_cons, ne_eq, Option.some_inj]
        rintro rfl
        exact absurd hc (by decide)
      case isFalse => rwa [if_pos rfl]

theorem isChain_hyphenate (inRun : Bool) (cs : List Char) :
    (hyphenate inRun cs).IsChain fun a b => ¬ (a = '-' ∧ b = '-') := by
  induction cs generalizing inRun with
  | nil => exact List.isChain_nil
  | cons c cs ih =>
      rw [hyphenate]
      split
      case isTrue hc =>
        refine (ih false).cons fun d _ => ?_
        rintro ⟨rfl, -⟩
        exact absurd hc (by decide)
      case isFalse =>
        split
        · exact ih true
        · refine (ih true).cons fun d hd => ?_
          rintro ⟨-, rfl⟩
          exact head_hyphenate cs hd

theorem isInfix_stripHyphens (cs : List Char) : stripHyphens cs <:+: cs :=
  (List.rdropWhile_prefix _ _).isInfix.trans (List.dropWhile_suffix _).isInfix

theorem slugify_wellFormed (value : String) : IsSlug (slugify value).toList := by
  unfold slugify
  dsimp only
  generalize hcs : hyphenate false ((trim value).toList.flatMap lowerCase) = cs
  split
  case isTrue =>
    have hchars : "project".toList.all isSlugChar = true := by decide
    rw [List.all_eq_true] at hchars
    exact ⟨fun c hc => .inl (hchars c hc), by decide, by decide, by decide⟩
  case isFalse hne =>
    rw [String.toList_ofList]
    refine ⟨fun c hc => ?_, ?_, ?_, hne⟩
    · exact chars_hyphenate (hcs ▸ (isInfix_stripHyphens cs).subset hc)
    · exact List.IsChain.infix (hcs ▸ isChain_hyphenate false _) (isInfix_stripHyphens cs)
    · have hlast := List.rdropWhile_last_not _ _ hne
      rw [List.getLast?_eq_some_getLast hne, ne_eq, Option.some_inj]
      exact fun heq => hlast (decide_eq_true heq)

/-! ## File names -/

/-- `PROJECT_BOARD_FILE_SUFFIX`. -/
def projectBoardFileSuffix : String := ".nazh-board.json"

def buildProjectBoardFileName (name id : String) : String :=
  slugify name ++ "--" ++ slugify id ++ projectBoardFileSuffix

/-- A slug before two hyphens cannot go on behind them. -/
theorem IsSlug.eq_of_append {a a' b b' : List Char} (ha' : IsSlug a')
    (h : a ++ '-' :: '-' :: b = a' ++ '-' :: '-' :: b') (hlen : a.length ≤ a'.length) : a = a' := by
  obtain ⟨u, rfl⟩ : a <+: a' :=
    List.prefix_of_prefix_length_le (h ▸ List.prefix_append _ _) (List.prefix_append _ _) hlen
  rw [List.append_assoc, List.append_cancel_left_eq] at h
  match u, h with
  | [], _ => rw [List.append_nil]
  | [c], h =>
      obtain rfl : '-' = c := (List.cons.inj h).1
      exact absurd (List.getLast?_concat ..) ha'.ends
  | c :: d :: u, h =>
      obtain rfl : '-' = c := (List.cons.inj h).1
      obtain rfl : '-' = d := (List.cons.inj (List.cons.inj h).2).1
      have hpair : ['-', '-'].IsChain _ := List.IsChain.infix ha'.single ⟨a, u, by simp⟩
      exact absurd ⟨rfl, rfl⟩ (List.isChain_pair.mp hpair)

theorem boardFileName_inj {name id name' id' : String} :
    buildProjectBoardFileName name id = buildProjectBoardFileName name' id' ↔
      slugify name = slugify name' ∧ slugify id = slugify id' := by
  refine ⟨fun h => ?_, fun ⟨hname, hid⟩ => by simp only [buildProjectBoardFileName, hname, hid]⟩
  have hchars := congrArg String.toList h
  simp only [buildProjectBoardFileName, String.toList_append] at hchars
  have hcancel := List.append_cancel_right hchars
  have hslugs : (slugify name).toList ++ '-' :: '-' :: (slugify id).toList =
      (slugify name').toList ++ '-' :: '-' :: (slugify id').toList := by
    simpa [List.append_assoc] using hcancel
  have hname : (slugify name).toList = (slugify name').toList := by
    rcases Nat.le_total (slugify name).toList.length (slugify name').toList.length with hlen | hlen
    · exact (slugify_wellFormed name').eq_of_append hslugs hlen
    · exact ((slugify_wellFormed name).eq_of_append hslugs.symm hlen).symm
  rw [hname, List.append_cancel_left_eq] at hslugs
  simp only [List.cons.injEq, true_and] at hslugs
  exact ⟨String.toList_inj.mp hname, String.toList_inj.mp hslugs⟩

theorem isPlain_of_slugChar {c : Char} (h : isSlugChar c = true ∨ c = '-') : isPlain c = true := by
  rcases h with h | rfl
  · simp only [isSlugChar, Bool.or_eq_true] at h
    simp only [isPlain, Bool.or_eq_true]
    tauto
  · decide

/-- A board file has a plain name. -/
theorem isPlain_boardFileName {name id : String} {c : Char}
    (h : c ∈ (buildProjectBoardFileName name id).toList) : isPlain c = true := by
  simp only [buildProjectBoardFileName, String.toList_append, List.mem_append] at h
  rcases h with ((h | h) | h) | h
  · exact isPlain_of_slugChar ((slugify_wellFormed name).chars c h)
  · exact List.all_eq_true.mp (by decide) c h
  · exact isPlain_of_slugChar ((slugify_wellFormed id).chars c h)
  · exact List.all_eq_true.mp (by decide) c h

end Nazh.Web
