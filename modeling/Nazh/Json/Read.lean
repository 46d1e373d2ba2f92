import Mathlib.Data.List.AList
import Mathlib.Data.List.Sigma
import Nazh.Json.Value

/-!
# Arrays and maps that are read

A list is read from an array, and a map from an object, if every member can be read. A field
may go under a second name, but not under both.
-/

namespace Nazh

variable {α β : Type}

/-- `Vec<T>`. -/
def Value.toList (read : Value → Option α) : Value → Option (List α)
  | .array items => items.mapM read
  | _ => none

/-- `HashMap<String, T>`. -/
def Value.toMap (read : Value → Option α) (v : Value) : Option (AList fun _ : String => α) := do
  let fields ← v.asObject
  let entries ← fields.mapM fun field =>
    (read field.2).map fun a => (⟨field.1, a⟩ : Sigma fun _ : String => α)
  some entries.toAList

/-- A field without a default, with `#[serde(alias = "..")]`. -/
def aliased (fields : Fields) (key other : String) (read : Value → Option α) : Option α :=
  match fields.lookup key, fields.lookup other with
  | some v, none => read v
  | none, some v => read v
  | _, _ => none

/-- The same for an `Option` field with `#[serde(default)]`. -/
def optionalAliased (fields : Fields) (key other : String) (read : Value → Option α) :
    Option (Option α) :=
  match fields.lookup key, fields.lookup other with
  | some _, some _ => none
  | _, none => optional fields key read
  | none, _ => optional fields other read

theorem mapM_eq_some_map {f : β → Value} {read : Value → Option α} {g : β → α} {xs : List β}
    (h : ∀ x ∈ xs, read (f x) = some (g x)) : (xs.map f).mapM read = some (xs.map g) := by
  induction xs with
  | nil => rfl
  | cons x xs ih =>
      have hx := h x List.mem_cons_self
      have hxs := ih fun y hy => h y (List.mem_cons_of_mem _ hy)
      simp [List.mapM_cons, hx, hxs]

/-- A list that was written from values that can be read. -/
theorem Value.toList_map {f : β → Value} {read : Value → Option α} {g : β → α} {xs : List β}
    (h : ∀ x ∈ xs, read (f x) = some (g x)) :
    (Value.array (xs.map f)).toList read = some (xs.map g) := mapM_eq_some_map h

/-- A map is read when each of its values is. -/
theorem Value.toMap_object {read : Value → Option α} {fields : Fields}
    (h : ∀ field ∈ fields, (read field.2).isSome) :
    ∃ map, (Value.object fields).toMap read = some map ∧
      ∀ key, map.lookup key = (fields.lookup key).bind read := by
  have hentries : ∃ entries : List (Sigma fun _ : String => α),
      (fields.mapM fun field => (read field.2).map fun a =>
        (⟨field.1, a⟩ : Sigma fun _ : String => α)) = some entries ∧
      ∀ key, entries.dlookup key = (fields.lookup key).bind read := by
    induction fields with
    | nil => exact ⟨[], rfl, fun _ => rfl⟩
    | cons field rest ih =>
        obtain ⟨k, v⟩ := field
        obtain ⟨a, ha⟩ := Option.isSome_iff_exists.mp (h (k, v) List.mem_cons_self)
        obtain ⟨entries, hmap, hlookup⟩ := ih fun f hf => h f (List.mem_cons_of_mem _ hf)
        refine ⟨⟨k, a⟩ :: entries, by simp [List.mapM_cons, ha, hmap], ?_⟩
        intro key
        rw [List.lookup_cons]
        by_cases hkey : key = k
        · subst hkey
          simpa using ha.symm
        · rw [List.dlookup_cons_ne _ _ hkey, hlookup, beq_eq_false_iff_ne.mpr hkey]
  obtain ⟨entries, hmap, hlookup⟩ := hentries
  refine ⟨entries.toAList, by simp [Value.toMap, Value.asObject, hmap], ?_⟩
  intro key
  rw [AList.lookup_to_alist, hlookup]

namespace Fields

/-- What an object holds after an insertion was there or was inserted. -/
theorem mem_insert {fields : Fields} {key : String} {v : Value} {field : String × Value}
    (h : field ∈ fields.insert key v) : field = (key, v) ∨ field ∈ fields := by
  induction fields with
  | nil => exact .inl (by simpa [insert] using h)
  | cons f rest ih =>
      obtain ⟨k, w⟩ := f
      rw [insert] at h
      split at h
      · rcases List.mem_cons.mp h with h | h
        · exact .inl h
        · exact .inr (List.mem_cons_of_mem _ h)
      · split at h
        · exact List.mem_cons.mp h
        · rcases List.mem_cons.mp h with h | h
          · exact .inr (h ▸ List.mem_cons_self)
          · exact (ih h).imp_right (List.mem_cons_of_mem _)

/-- The same for a loop of insertions. -/
theorem mem_foldl_insert {key : β → String} {v : β → Value} {xs : List β} {acc : Fields}
    {field : String × Value} (h : field ∈ xs.foldl (fun acc x => insert acc (key x) (v x)) acc) :
    (∃ x ∈ xs, field = (key x, v x)) ∨ field ∈ acc := by
  induction xs generalizing acc with
  | nil => exact .inr h
  | cons x xs ih =>
      rcases ih h with ⟨y, hy, heq⟩ | hacc
      · exact .inl ⟨y, List.mem_cons_of_mem _ hy, heq⟩
      · rcases mem_insert hacc with heq | hacc
        · exact .inl ⟨x, List.mem_cons_self, heq⟩
        · exact .inr hacc

end Fields

end Nazh
