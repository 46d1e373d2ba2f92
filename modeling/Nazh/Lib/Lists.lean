import Mathlib.Data.List.Basic
import Mathlib.Data.List.Forall2
import Mathlib.Data.List.Nodup
import Mathlib.Data.List.Perm.Basic

/-!
# Entries of a list

A state that is a list of parties changes one of them, or gets one more. A list whose entries are
put into classes has each entry in one of them.

## Main results

* `getElem?_set_cases`, `getElem?_concat_cases` — which entries the new list has.
* `perm_flatMap_filter` — the classes together are the list.
* `count_flatMap_eq` — how often a value occurs that only one part has.
* `map_key_eq`, `filter_key_eq` — what is done with one key is done with one entry.
* `exists_not_mem_of_injective` — a list does not have all of infinitely many values.
-/

namespace Nazh.Lib

universe u

variable {α : Type u} {xs : List α} {i j : ℕ} {a b : α}

/-- An entry after the entry `i` was set is that one, or an old one at another place. -/
theorem getElem?_set_cases (h : (xs.set i a)[j]? = some b) :
    j = i ∧ b = a ∨ j ≠ i ∧ xs[j]? = some b := by
  rw [List.getElem?_set] at h
  by_cases hij : i = j
  · rw [if_pos hij] at h
    split at h
    · exact .inl ⟨hij.symm, (Option.some.inj h).symm⟩
    · cases h
  · rw [if_neg hij] at h
    exact .inr ⟨Ne.symm hij, h⟩

/-- An entry after one more was added is that one at the end, or an old one. -/
theorem getElem?_concat_cases (h : (xs ++ [a])[j]? = some b) :
    j = xs.length ∧ b = a ∨ j < xs.length ∧ xs[j]? = some b := by
  rw [List.getElem?_append] at h
  by_cases hlt : j < xs.length
  · rw [if_pos hlt] at h
    exact .inr ⟨hlt, h⟩
  · rw [if_neg hlt] at h
    obtain ⟨hsmall, hb⟩ := List.getElem?_eq_some_iff.mp h
    rw [List.length_singleton] at hsmall
    refine .inl ⟨by omega, ?_⟩
    rw [← hb, List.getElem_singleton]

/-- The classes of a list, one for each key, are together the list. -/
theorem perm_flatMap_filter {κ : Type u} [DecidableEq κ] {key : α → κ} {keys : List κ}
    (hkeys : keys.Nodup) (h : ∀ x ∈ xs, key x ∈ keys) :
    (keys.flatMap fun k => xs.filter fun x => key x = k).Perm xs := by
  induction keys generalizing xs with
  | nil =>
      rw [List.eq_nil_iff_forall_not_mem.mpr fun x hx => List.not_mem_nil (h x hx)]
      rfl
  | cons k keys ih =>
      obtain ⟨hk, hkeys⟩ := List.nodup_cons.mp hkeys
      -- the other classes are classes of the entries that are not in the first
      have hrest : (keys.flatMap fun k' => xs.filter fun x => key x = k') =
          keys.flatMap fun k' => (xs.filter fun x => ¬ key x = k).filter fun x => key x = k' := by
        refine List.flatMap_congr fun k' hk' => ?_
        rw [List.filter_filter]
        refine List.filter_congr fun x _ => ?_
        by_cases hx : key x = k'
        · have hother : ¬ k' = k := by
            rintro rfl
            exact hk hk'
          simp [hx, hother]
        · simp [hx]
      have hperm := @ih (xs.filter fun x => ¬ key x = k) hkeys fun x hx => by
        obtain ⟨hmem, hne⟩ := List.mem_filter.mp hx
        exact (List.mem_cons.mp (h x hmem)).resolve_left (of_decide_eq_true hne)
      rw [List.flatMap_cons, hrest]
      refine (hperm.append_left _).trans ?_
      simpa using List.filter_append_perm (fun x => decide (key x = k)) xs

/-- The entries at the first places are the first entries. -/
theorem filterMap_range_getElem? (xs : List α) (n : ℕ) :
    (List.range n).filterMap (xs[·]?) = xs.take n := by
  induction n with
  | zero => rfl
  | succ n ih =>
      rw [List.range_succ, List.filterMap_append, ih, List.take_add_one]
      cases h : xs[n]? <;> simp [h]

/-- Two lists are cut in the same place by a mark that is not in what stands before it. -/
theorem append_cons_inj {mark : α} {before before' after after' : List α} (h : mark ∉ before)
    (h' : mark ∉ before') (heq : before ++ mark :: after = before' ++ mark :: after') :
    before = before' ∧ after = after' := by
  induction before generalizing before' with
  | nil =>
      cases before' with
      | nil => exact ⟨rfl, (List.cons.inj heq).2⟩
      | cons a rest => exact absurd ((List.cons.inj heq).1 ▸ List.mem_cons_self) h'
  | cons a rest ih =>
      cases before' with
      | nil => exact absurd ((List.cons.inj heq).1 ▸ List.mem_cons_self) h
      | cons a' rest' =>
          obtain ⟨rfl, htail⟩ := List.cons.inj heq
          obtain ⟨rfl, hafter⟩ := ih (fun hmem => h (List.mem_cons_of_mem _ hmem))
            (fun hmem => h' (List.mem_cons_of_mem _ hmem)) htail
          exact ⟨rfl, hafter⟩

/-- A value that only one part of a list has occurs as often as in that part. -/
theorem count_flatMap_eq {β : Type u} [DecidableEq β] {f : α → List β} {x : β} (hxs : xs.Nodup)
    (ha : a ∈ xs) (hother : ∀ b ∈ xs, b ≠ a → x ∉ f b) : (xs.flatMap f).count x = (f a).count x := by
  obtain ⟨before, after, rfl⟩ := List.append_of_mem ha
  obtain ⟨-, hafter, hapart⟩ := List.nodup_append.mp hxs
  have hbefore : x ∉ before.flatMap f := by
    intro hx
    obtain ⟨b, hb, hx⟩ := List.mem_flatMap.mp hx
    exact hother b (List.mem_append_left _ hb) (hapart b hb a List.mem_cons_self) hx
  have hrest : x ∉ after.flatMap f := by
    intro hx
    obtain ⟨b, hb, hx⟩ := List.mem_flatMap.mp hx
    refine hother b (List.mem_append_right _ (List.mem_cons_of_mem _ hb)) ?_ hx
    rintro rfl
    exact (List.nodup_cons.mp hafter).1 hb
  rw [List.flatMap_append, List.flatMap_cons, List.count_append, List.count_append,
    List.count_eq_zero_of_not_mem hbefore, List.count_eq_zero_of_not_mem hrest]
  omega

/-- Entries that do not become a value may be left out before it is counted. -/
theorem count_map_filter {β : Type u} [DecidableEq β] {f : α → β} {p : α → Bool} {x : β}
    (h : ∀ b ∈ xs, f b = x → p b = true) : ((xs.filter p).map f).count x = (xs.map f).count x := by
  rw [List.count_eq_countP, List.count_eq_countP, List.countP_map, List.countP_map,
    List.countP_filter]
  refine List.countP_congr fun b hb => ?_
  simp only [Function.comp_apply, beq_iff_eq, Bool.and_eq_true]
  exact ⟨And.left, fun hx => ⟨hx, h b hb hx⟩⟩

/-- Of values without repetition, one more than a list has entries, one is not in the list. -/
theorem exists_not_mem_of_injective {f : ℕ → α} (hf : Function.Injective f) (xs : List α)
    (start : ℕ) : ∃ k, k ≤ xs.length ∧ f (start + k) ∉ xs := by
  by_contra hall
  have hmem : ∀ k ≤ xs.length, f (start + k) ∈ xs := by
    intro k hk
    by_contra hfree
    exact hall ⟨k, hk, hfree⟩
  have hnodup : ((List.range (xs.length + 1)).map fun k => f (start + k)).Nodup :=
    (List.nodup_range).map fun _ _ h => Nat.add_left_cancel (hf h)
  have hsubset : ((List.range (xs.length + 1)).map fun k => f (start + k)) ⊆ xs := by
    intro x hx
    obtain ⟨k, hk, rfl⟩ := List.mem_map.mp hx
    exact hmem k (Nat.lt_succ_iff.mp (List.mem_range.mp hk))
  have hle := (List.subperm_of_subset hnodup hsubset).length_le
  rw [List.length_map, List.length_range] at hle
  exact Nat.not_succ_le_self _ hle

section Keyed

variable {κ : Type u} {key : α → κ} {before after : List α}

/-- No other entry has the key of an entry. -/
theorem key_ne_of_nodup (h : ((before ++ a :: after).map key).Nodup) {x : α}
    (hx : x ∈ before ++ after) : key x ≠ key a := by
  rw [List.map_append, List.map_cons, List.nodup_middle, List.nodup_cons, ← List.map_append] at h
  exact fun hkey => h.1 (hkey ▸ List.mem_map_of_mem hx)

variable [DecidableEq κ]

/-- A change of the entries with the key of one of them is a change of that one. -/
theorem map_key_eq {f : α → α} (h : ((before ++ a :: after).map key).Nodup) :
    (before ++ a :: after).map (fun x => if key x = key a then f x else x) =
      before ++ f a :: after := by
  have hkeep : ∀ xs : List α, xs ⊆ before ++ after →
      xs.map (fun x => if key x = key a then f x else x) = xs := by
    intro xs hxs
    refine (List.map_congr_left fun x hx => ?_).trans (List.map_id xs)
    exact if_neg (key_ne_of_nodup h (hxs hx))
  rw [List.map_append, List.map_cons, if_pos rfl, hkeep before (List.subset_append_left _ _),
    hkeep after (List.subset_append_right _ _)]

/-- Without the entries with the key of one of them, that one is missing. -/
theorem filter_key_eq (h : ((before ++ a :: after).map key).Nodup) :
    (before ++ a :: after).filter (fun x => key x ≠ key a) = before ++ after := by
  have hkeep : ∀ xs : List α, xs ⊆ before ++ after → xs.filter (fun x => key x ≠ key a) = xs := by
    intro xs hxs
    exact List.filter_eq_self.mpr fun x hx => decide_eq_true (key_ne_of_nodup h (hxs hx))
  rw [List.filter_append, List.filter_cons_of_neg (by simp),
    hkeep before (List.subset_append_left _ _), hkeep after (List.subset_append_right _ _)]

end Keyed

section Forall₂

variable {β : Type u} {P : α → β → Prop} {ys : List β}

/-- A condition on the entries of one list is a condition on those of the other. -/
theorem forall_mem_iff_of_forall₂ {p : α → Prop} {q : β → Prop} (h : List.Forall₂ P xs ys)
    (hpq : ∀ x y, P x y → (p x ↔ q y)) : (∀ x ∈ xs, p x) ↔ ∀ y ∈ ys, q y := by
  induction h with
  | nil => simp
  | cons hxy _ ih => rw [List.forall_mem_cons, List.forall_mem_cons, hpq _ _ hxy, ih]

/-- The same for a condition on pairs of entries. -/
theorem pairwise_iff_of_forall₂ {r : α → α → Prop} {s : β → β → Prop} (h : List.Forall₂ P xs ys)
    (hrs : ∀ x y x' y', P x y → P x' y' → (r x x' ↔ s y y')) :
    xs.Pairwise r ↔ ys.Pairwise s := by
  induction h with
  | nil => exact iff_of_true .nil .nil
  | cons hxy hrest ih =>
      rw [List.pairwise_cons, List.pairwise_cons, ih,
        forall_mem_iff_of_forall₂ hrest fun x' y' hxy' => hrs _ _ x' y' hxy hxy']

/-- An entry of one list stands beside one of the other. -/
theorem exists_left_of_forall₂ (h : List.Forall₂ P xs ys) {y : β} (hy : y ∈ ys) :
    ∃ x ∈ xs, P x y := by
  induction h with
  | nil => cases hy
  | @cons x y' xs ys hxy _ ih =>
      rcases List.mem_cons.mp hy with rfl | hy
      · exact ⟨x, List.mem_cons_self, hxy⟩
      · obtain ⟨x', hx', hxy'⟩ := ih hy
        exact ⟨x', List.mem_cons_of_mem x hx', hxy'⟩

theorem exists_right_of_forall₂ (h : List.Forall₂ P xs ys) {x : α} (hx : x ∈ xs) :
    ∃ y ∈ ys, P x y :=
  exists_left_of_forall₂ h.flip hx

end Forall₂

end Nazh.Lib
