import Mathlib.Data.List.Sort

/-!
# What a stable sort puts before an item

An item of a list that is sorted stably comes behind the items before it that may stand before it,
and behind those after it that it may not stand before. How many these are tells whether the item
is left when the sorted list is cut.

## Main definitions

* `ahead` — the items that come before an item, made of those before and those after it.

## Main results

* `exists_insertionSort_eq` — these, in some order, are what stands before the item.
* `perm_ahead_of_insertionSort_eq` — what stands before the first place of an item in the sorted
  list comes from its first place in the list.
-/

namespace Nazh.Lib

open List

variable {α : Type} (r : α → α → Prop) [DecidableRel r]

/-- The items that come before an item. -/
def ahead (before : List α) (a : α) (after : List α) : List α :=
  before.filter (fun b => r b a) ++ after.filter fun b => ¬ r a b

variable {r} {a b : α} {l front back before after : List α}

/-- An item has one first place in a list. -/
theorem eq_of_first_place {front' back' : List α} (hfront : a ∉ front) (hfront' : a ∉ front')
    (h : front ++ a :: back = front' ++ a :: back') : front = front' := by
  rcases append_eq_append_iff.mp h with ⟨mid, rfl, hmid⟩ | ⟨mid, rfl, hmid⟩
  · cases mid with
    | nil => exact (append_nil front).symm
    | cons c mid =>
        obtain ⟨rfl, -⟩ := cons.inj hmid
        exact absurd (mem_append_right front mem_cons_self) hfront'
  · cases mid with
    | nil => exact append_nil front'
    | cons c mid =>
        obtain ⟨rfl, -⟩ := cons.inj hmid
        exact absurd (mem_append_right front' mem_cons_self) hfront

/-- An item is put behind those that it may not stand before. -/
theorem orderedInsert_append (h : ∀ b ∈ front, ¬ r a b) :
    (front ++ l).orderedInsert r a = front ++ l.orderedInsert r a := by
  induction front with
  | nil => rfl
  | cons b front ih =>
      rw [cons_append, orderedInsert_of_not_le r _ (h b mem_cons_self),
        ih fun c hc => h c (mem_cons_of_mem b hc), cons_append]

/-- An item is put somewhere before one that it may stand before. -/
theorem exists_orderedInsert_eq (h : r a b) (front back : List α) :
    ∃ front', (front ++ b :: back).orderedInsert r a = front' ++ b :: back ∧
      front' ~ a :: front := by
  induction front with
  | nil => exact ⟨[a], orderedInsert_cons_of_le r back h, Perm.refl _⟩
  | cons c front ih =>
      by_cases hac : r a c
      · exact ⟨a :: c :: front, orderedInsert_cons_of_le r _ hac, Perm.refl _⟩
      · obtain ⟨front', hsorted, hperm⟩ := ih
        refine ⟨c :: front', ?_, (hperm.cons c).trans (Perm.swap a c front)⟩
        rw [cons_append, orderedInsert_of_not_le r _ hac, hsorted, cons_append]

section

variable [IsTrans α r]

/-- In a sorted list the item is put between those that it may not and those that it may stand
before. -/
theorem orderedInsert_eq_of_pairwise (h : l.Pairwise r) :
    l.orderedInsert r a = l.filter (fun b => ¬ r a b) ++ a :: l.filter fun b => r a b := by
  induction l with
  | nil => rfl
  | cons b l ih =>
      rw [pairwise_cons] at h
      by_cases hab : r a b
      · have hall : ∀ c ∈ b :: l, r a c := by
          intro c hc
          rcases mem_cons.mp hc with rfl | hc
          · exact hab
          · exact trans_of r hab (h.1 c hc)
        rw [orderedInsert_cons_of_le r l hab, filter_eq_nil_iff.mpr fun c hc => by simp [hall c hc],
          filter_eq_self.mpr fun c hc => by simp [hall c hc], nil_append]
      · rw [orderedInsert_of_not_le r l hab, ih h.2, filter_cons_of_pos (by simp [hab]),
          filter_cons_of_neg (by simp [hab]), cons_append]

variable [Std.Total r]

theorem exists_insertionSort_eq (before : List α) (a : α) (after : List α) :
    ∃ front back, (before ++ a :: after).insertionSort r = front ++ a :: back ∧
      front ~ ahead r before a after := by
  induction before with
  | nil =>
      refine ⟨_, _, orderedInsert_eq_of_pairwise (List.pairwise_insertionSort r after), ?_⟩
      rw [ahead, filter_nil, nil_append]
      exact (perm_insertionSort r after).filter _
  | cons b before ih =>
      obtain ⟨front, back, hsorted, hperm⟩ := ih
      rw [cons_append, insertionSort_cons, hsorted]
      by_cases hba : r b a
      · obtain ⟨front', hsorted', hperm'⟩ := exists_orderedInsert_eq hba front back
        refine ⟨front', back, hsorted', hperm'.trans ?_⟩
        rw [ahead, filter_cons_of_pos (by simpa using hba), cons_append]
        exact hperm.cons b
      · -- what stands before `a` may stand before it, and thus not behind `b`
        have hfront : ∀ c ∈ front, ¬ r b c := by
          intro c hc hbc
          have hle : (front ++ a :: back).Pairwise r := hsorted ▸ List.pairwise_insertionSort r _
          exact hba (trans_of r hbc ((pairwise_append.mp hle).2.2 c hc a mem_cons_self))
        refine ⟨front, back.orderedInsert r b, ?_, ?_⟩
        · rw [orderedInsert_append hfront, orderedInsert_of_not_le r back hba]
        · rwa [ahead, filter_cons_of_neg (by simpa using hba)]

theorem perm_ahead_of_insertionSort_eq (h : l.insertionSort r = front ++ a :: back)
    (hfront : a ∉ front) :
    ∃ before after, l = before ++ a :: after ∧ front ~ ahead r before a after := by
  have hmem : a ∈ l := by
    rw [← mem_insertionSort r, h]
    exact mem_append_right front mem_cons_self
  obtain ⟨before, after, rfl, hbefore⟩ := eq_append_cons_of_mem hmem
  obtain ⟨front', back', hsorted, hperm⟩ := exists_insertionSort_eq (r := r) before a after
  have hfront' : a ∉ front' := by
    rw [hperm.mem_iff, ahead, mem_append, mem_filter, mem_filter, decide_eq_true_eq,
      decide_eq_true_eq]
    rintro (⟨hmem, -⟩ | ⟨-, hnot⟩)
    · exact hbefore hmem
    · exact hnot (refl_of r a)
  obtain rfl := eq_of_first_place hfront hfront' (h.symm.trans hsorted)
  exact ⟨before, after, rfl, hperm⟩

end

end Nazh.Lib
