import Mathlib.Data.List.Basic
import Mathlib.Data.List.Nodup

/-!
# A directory of files

The files of a directory have names. A name opens the file whose name has the same key, so that a
directory with `id` for `key` tells all names apart, and one that folds letters does not.

## Main definitions

* `Directory` — files with distinct keys.
* `Directory.read`, `Directory.write`, `Directory.remove` — a file by a name for it.

## Main results

* `Directory.read_write`, `Directory.read_remove` — what is read afterwards.
* `Directory.files_foldl_remove` — what is left when some of the files were removed.
-/

namespace Nazh.Lib

universe u v w

/-- Files under the names they were created with. No two names open one file. -/
structure Directory {ν : Type u} {κ : Type v} (key : ν → κ) (τ : Type w) where
  files : List (ν × τ)
  nodup : (files.map fun file => key file.1).Nodup

namespace Directory

variable {ν : Type u} {κ : Type v} {τ : Type w} [DecidableEq κ] {key : ν → κ}

/-- The names of the files. -/
def names (dir : Directory key τ) : List ν := dir.files.map Prod.fst

/-- The text of the file that `name` opens. -/
def read (dir : Directory key τ) (name : ν) : Option τ :=
  (dir.files.find? fun file => key file.1 = key name).map Prod.snd

/-- Write over the file that `name` opens, which keeps its name, or create it. -/
def write (dir : Directory key τ) (name : ν) (text : τ) : Directory key τ :=
  if h : ∃ file ∈ dir.files, key file.1 = key name then
    { files := dir.files.map fun file => if key file.1 = key name then (file.1, text) else file
      nodup := by
        have hkeys : (dir.files.map fun file =>
            if key file.1 = key name then (file.1, text) else file).map (fun file => key file.1) =
            dir.files.map fun file => key file.1 := by
          rw [List.map_map]
          refine List.map_congr_left fun file _ => ?_
          simp only [Function.comp]
          split <;> rfl
        rw [hkeys]
        exact dir.nodup }
  else
    { files := dir.files ++ [(name, text)]
      nodup := by
        rw [List.map_append, List.nodup_append]
        refine ⟨dir.nodup, List.nodup_singleton _, fun k hk k' hk' heq => h ?_⟩
        obtain ⟨file, hfile, rfl⟩ := List.mem_map.mp hk
        exact ⟨file, hfile, heq.trans (List.mem_singleton.mp hk')⟩ }

/-- Remove the file that `name` opens. -/
def remove (dir : Directory key τ) (name : ν) : Directory key τ where
  files := dir.files.filter fun file => key file.1 ≠ key name
  nodup := dir.nodup.sublist (List.filter_sublist.map _)

/-- An empty directory. -/
def empty : Directory key τ := ⟨[], List.nodup_nil⟩

/-! ## Names -/

omit [DecidableEq κ] in
theorem mem_names {dir : Directory key τ} {name : ν} :
    name ∈ dir.names ↔ ∃ text, (name, text) ∈ dir.files := by
  simp [names]

omit [DecidableEq κ] in
/-- Two names in a directory with one key are one. -/
theorem eq_of_key {dir : Directory key τ} {a b : ν × τ} (ha : a ∈ dir.files) (hb : b ∈ dir.files)
    (h : key a.1 = key b.1) : a = b :=
  List.inj_on_of_nodup_map dir.nodup ha hb h

theorem names_write (dir : Directory key τ) (name : ν) (text : τ) :
    (dir.write name text).names =
      if ∃ file ∈ dir.files, key file.1 = key name then dir.names else dir.names ++ [name] := by
  unfold write names
  split
  case isTrue =>
    rw [List.map_map]
    refine List.map_congr_left fun file _ => ?_
    simp only [Function.comp]
    split <;> rfl
  case isFalse => rw [List.map_append, List.map_singleton]

/-- The names after a write: the old ones, and the new one if nothing had its key. -/
theorem mem_names_write {dir : Directory key τ} {name other : ν} {text : τ} :
    other ∈ (dir.write name text).names ↔
      other ∈ dir.names ∨ other = name ∧ ∀ n ∈ dir.names, key n ≠ key name := by
  rw [names_write]
  split
  case isTrue h =>
    obtain ⟨file, hfile, hkey⟩ := h
    refine ⟨.inl, fun hor => hor.elim id fun hnew => ?_⟩
    exact absurd hkey (hnew.2 _ (List.mem_map_of_mem hfile))
  case isFalse h =>
    have hnone : ∀ n ∈ dir.names, key n ≠ key name := by
      intro n hn hkey
      obtain ⟨text, hfile⟩ := mem_names.mp hn
      exact h ⟨(n, text), hfile, hkey⟩
    rw [List.mem_append, List.mem_singleton]
    exact or_congr_right ⟨fun heq => ⟨heq, hnone⟩, And.left⟩

theorem names_remove (dir : Directory key τ) (name : ν) :
    (dir.remove name).names = dir.names.filter fun n => key n ≠ key name := by
  rw [names, names, remove, List.filter_map]
  rfl

/-! ## Reading -/

omit [DecidableEq κ] in
theorem mem_names_of_mem {dir : Directory key τ} {file : ν × τ} (h : file ∈ dir.files) :
    file.1 ∈ dir.names :=
  List.mem_map_of_mem h

/-- A file is read under its own name, and under every name with its key. -/
theorem read_eq_some {dir : Directory key τ} {name : ν} {text : τ} :
    dir.read name = some text ↔ ∃ n, (n, text) ∈ dir.files ∧ key n = key name := by
  have hfound : ∀ {file}, (dir.files.find? fun file => key file.1 = key name) = some file →
      file ∈ dir.files ∧ key file.1 = key name := by
    intro file h
    have hkey := List.find?_some h
    exact ⟨List.mem_of_find?_eq_some h, of_decide_eq_true hkey⟩
  unfold read
  rw [Option.map_eq_some_iff]
  constructor
  · rintro ⟨file, hfind, rfl⟩
    exact ⟨file.1, hfound hfind⟩
  · rintro ⟨n, hfile, hkey⟩
    cases hfind : dir.files.find? fun file => key file.1 = key name with
    | none => exact absurd hkey (by simpa using List.find?_eq_none.mp hfind _ hfile)
    | some file =>
        obtain ⟨hmem, hsame⟩ := hfound hfind
        exact ⟨file, rfl, by rw [eq_of_key hmem hfile (hsame.trans hkey.symm)]⟩

/-- A file of the directory is what its name reads. -/
theorem mem_files_iff {dir : Directory key τ} {name : ν} {text : τ} :
    (name, text) ∈ dir.files ↔ name ∈ dir.names ∧ dir.read name = some text := by
  rw [read_eq_some]
  constructor
  · exact fun h => ⟨mem_names_of_mem h, name, h, rfl⟩
  · rintro ⟨hname, n, hfile, hkey⟩
    obtain ⟨other, hother⟩ := mem_names.mp hname
    obtain ⟨rfl, -⟩ := Prod.mk.inj (eq_of_key hfile hother hkey)
    exact hfile

theorem mem_files_write {dir : Directory key τ} {name : ν} {text : τ} {file : ν × τ} :
    file ∈ (dir.write name text).files ↔
      file ∈ dir.files ∧ key file.1 ≠ key name ∨
        file.2 = text ∧ key file.1 = key name ∧ file.1 ∈ (dir.write name text).names := by
  rw [mem_names_write]
  unfold write
  split
  case isTrue h =>
    obtain ⟨old, hold, hkey⟩ := h
    rw [List.mem_map]
    constructor
    · rintro ⟨g, hg, rfl⟩
      split
      case isTrue heq =>
        have hname : g.1 ∈ dir.names := mem_names_of_mem hg
        exact .inr ⟨rfl, heq, .inl hname⟩
      case isFalse hne => exact .inl ⟨hg, hne⟩
    · rintro (⟨hfile, hne⟩ | ⟨rfl, heq, hname⟩)
      · exact ⟨file, hfile, if_neg hne⟩
      · rcases hname with hname | ⟨-, hnone⟩
        · obtain ⟨t, ht⟩ := mem_names.mp hname
          exact ⟨_, ht, if_pos heq⟩
        · exact absurd hkey (hnone _ (mem_names_of_mem hold))
  case isFalse h =>
    have hnone : ∀ g ∈ dir.files, key g.1 ≠ key name := fun g hg heq => h ⟨g, hg, heq⟩
    rw [List.mem_append, List.mem_singleton]
    constructor
    · rintro (hfile | rfl)
      · exact .inl ⟨hfile, hnone _ hfile⟩
      · refine .inr ⟨rfl, rfl, .inr ⟨rfl, fun n hn heq => ?_⟩⟩
        obtain ⟨t, ht⟩ := mem_names.mp hn
        exact hnone (n, t) ht heq
    · rintro (⟨hfile, -⟩ | ⟨rfl, heq, hname⟩)
      · exact .inl hfile
      · rcases hname with hname | ⟨rfl, -⟩
        · obtain ⟨t, ht⟩ := mem_names.mp hname
          exact absurd heq (hnone (file.1, t) ht)
        · exact .inr rfl

/-- What was written is read under the names of its key, and every other file as before. -/
theorem read_write (dir : Directory key τ) (name other : ν) (text : τ) :
    (dir.write name text).read other = if key other = key name then some text
      else dir.read other := by
  split
  case isTrue h =>
    rw [read_eq_some]
    by_cases hex : ∃ file ∈ dir.files, key file.1 = key name
    · obtain ⟨file, hfile, hkey⟩ := hex
      have hname : file.1 ∈ dir.names := mem_names_of_mem hfile
      exact ⟨file.1, mem_files_write.mpr (.inr ⟨rfl, hkey, mem_names_write.mpr (.inl hname)⟩),
        hkey.trans h.symm⟩
    · refine ⟨name, mem_files_write.mpr (.inr ⟨rfl, rfl, ?_⟩), h.symm⟩
      refine mem_names_write.mpr (.inr ⟨rfl, fun n hn heq => ?_⟩)
      obtain ⟨t, ht⟩ := mem_names.mp hn
      exact hex ⟨(n, t), ht, heq⟩
  case isFalse h =>
    refine Option.ext fun t => ?_
    rw [read_eq_some, read_eq_some]
    refine exists_congr fun n => and_congr_left fun hkey => ?_
    rw [mem_files_write]
    constructor
    · rintro (⟨hfile, -⟩ | ⟨-, heq, -⟩)
      · exact hfile
      · exact absurd (hkey.symm.trans heq) h
    · exact fun hfile => .inl ⟨hfile, fun heq => h (hkey.symm.trans heq)⟩

theorem read_remove (dir : Directory key τ) (name other : ν) :
    (dir.remove name).read other = if key other = key name then none else dir.read other := by
  refine Option.ext fun t => ?_
  split
  case isTrue h =>
    rw [read_eq_some]
    simp only [remove, List.mem_filter, decide_eq_true_eq]
    constructor
    · rintro ⟨n, ⟨-, hne⟩, hkey⟩
      exact absurd (hkey.trans h) hne
    · exact fun hnone => nomatch hnone
  case isFalse h =>
    rw [read_eq_some, read_eq_some]
    refine exists_congr fun n => and_congr_left fun hkey => ?_
    simp only [remove, List.mem_filter, decide_eq_true_eq]
    exact ⟨And.left, fun hfile => ⟨hfile, fun heq => h (hkey.symm.trans heq)⟩⟩

/-! ## Removing many -/

/-- Removing files one by one leaves those that none of the names opens. -/
theorem files_foldl_remove (dir : Directory key τ) (gone : List ν) :
    (gone.foldl remove dir).files =
      dir.files.filter fun file => ∀ name ∈ gone, key file.1 ≠ key name := by
  induction gone generalizing dir with
  | nil => simp
  | cons name gone ih =>
      rw [List.foldl_cons, ih, remove, List.filter_filter]
      refine List.filter_congr fun file _ => ?_
      rw [Bool.eq_iff_iff]
      simp [and_comm]

/-- When the names are some of the directory's own, the files under the others are left. -/
theorem mem_foldl_remove {dir : Directory key τ} {gone : List ν} (hgone : gone ⊆ dir.names)
    {file : ν × τ} :
    file ∈ (gone.foldl remove dir).files ↔ file ∈ dir.files ∧ file.1 ∉ gone := by
  rw [files_foldl_remove, List.mem_filter, decide_eq_true_eq]
  refine and_congr_right fun hfile => ⟨fun h hmem => h _ hmem rfl, fun h name hname hkey => h ?_⟩
  obtain ⟨text, htext⟩ := mem_names.mp (hgone hname)
  rw [eq_of_key hfile htext hkey]
  exact hname

end Directory

end Nazh.Lib
