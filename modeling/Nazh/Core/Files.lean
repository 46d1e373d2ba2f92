import Mathlib.Data.List.Infix
import Nazh.Core.Text
import Nazh.Lib.Directory

/-!
# Names of files

What the program relies on of a file system: which names are names of one file, and which names it
takes. Some file systems tell upper from lower case, some do not.
-/

namespace Nazh

/-! ## Tests on names -/

namespace Text

/-- `str::starts_with`. -/
def startsWith (s start : String) : Bool := start.toList.isPrefixOf s.toList

/-- `str::ends_with`. -/
def endsWith (s ending : String) : Bool := ending.toList.isSuffixOf s.toList

theorem startsWith_iff {s start : String} :
    startsWith s start = true ↔ start.toList <+: s.toList :=
  List.isPrefixOf_iff_prefix

theorem endsWith_iff {s ending : String} :
    endsWith s ending = true ↔ ending.toList <:+ s.toList :=
  List.isSuffixOf_iff_suffix

@[simp] theorem endsWith_append (s ending : String) : endsWith (s ++ ending) ending = true := by
  rw [endsWith_iff, String.toList_append]
  exact List.suffix_append _ _

end Text

/-! ## File systems -/

/-- The characters of which the program makes names: no file system takes one for another. -/
def isPlain (c : Char) : Bool :=
  ('a'.toNat ≤ c.toNat && c.toNat ≤ 'z'.toNat) || ('0'.toNat ≤ c.toNat && c.toNat ≤ '9'.toNat) ||
    c == '-' || c == '.' || ('一'.toNat ≤ c.toNat && c.toNat ≤ '龥'.toNat)

/-- What a file system does with names. -/
structure FileSystem where
  /-- Characters that it does not tell apart are folded into one. -/
  fold : Char → Char
  /-- The error with which it refuses a file of this name. -/
  refuses : String → Option String
  fold_plain : ∀ c, isPlain c = true → fold c = c
  fold_dot : ∀ c, fold c = '.' → c = '.'

namespace FileSystem

/-- Names with one key are names of one file. -/
def key (fs : FileSystem) (name : String) : List Char := name.toList.map fs.fold

/-- A directory in which files are kept by name. -/
abbrev Folder (fs : FileSystem) (τ : Type) := Lib.Directory fs.key τ

/-- A file system that tells all names apart. -/
def caseSensitive : FileSystem where
  fold := id
  refuses _ := none
  fold_plain _ _ := rfl
  fold_dot _ h := h

variable (fs : FileSystem)

theorem key_append (s t : String) : fs.key (s ++ t) = fs.key s ++ fs.key t := by
  simp [key]

/-- A name of plain characters is its own key. -/
theorem key_of_plain {name : String} (h : ∀ c ∈ name.toList, isPlain c = true) :
    fs.key name = name.toList :=
  (List.map_congr_left fun c hc => fs.fold_plain c (h c hc)).trans (List.map_id _)

end FileSystem

end Nazh
