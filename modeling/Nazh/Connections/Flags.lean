import Nazh.Connections.Timed

/-!
# Flags without guards

A flag may be cleared while a guard on the record is alive, so that a live guard does not mean that
its record is lent. The other direction holds over every step: the flag of a record is set by the
acquire that hands out a guard on it, and dropping that guard clears it.
-/

namespace Nazh

namespace Pool

/-- A guard on the record is alive. -/
def Guarded (pool : Pool) (h : ℕ) : Prop := ∃ guard ∈ pool.guards, guard.record = h

variable {pool pool' : Pool} {parseUrl : UrlParser} {a : PoolAction} {h : ℕ}
  {r' : ConnectionRecord}

/-! ## New records -/

theorem Adds.free {definitions : List ConnectionDefinition}
    (hadds : pool.Adds parseUrl definitions pool') (hnone : pool.heap[h]? = none)
    (hr' : pool'.heap[h]? = some r') : r'.inUse = false := by
  obtain ⟨added, -, hheap⟩ := hadds.heap
  rw [hheap, List.getElem?_append_right (List.getElem?_eq_none_iff.mp hnone)] at hr'
  obtain ⟨definition, -, rfl⟩ := List.mem_map.mp (List.mem_of_getElem? hr')
  exact inUse_buildRecord parseUrl definition

/-- A record that a step has added is not lent. -/
theorem free_of_new (hs : pool.step parseUrl a = some pool') (hnone : pool.heap[h]? = none)
    (hr' : pool'.heap[h]? = some r') : r'.inUse = false := by
  have hset : ∀ {k : ℕ} {r : ConnectionRecord}, (pool.heap.set k r)[h]? ≠ some r' := by
    intro k r hsome
    have hle := List.getElem?_eq_none_iff.mp hnone
    rw [List.getElem?_eq_none (by simpa using hle)] at hsome
    cases hsome
  have hsame : pool.heap[h]? ≠ some r' := fun hsome => by rw [hnone] at hsome; cases hsome
  cases step_move hs with
  | idle _ ha => exact absurd hr' hsame
  | begins ha hfresh hkind hvalid => exact absurd hr' hsame
  | marks outcome ha hguard => exact absurd hr' hsame
  | drops hguard hr => exact absurd hr' hset
  | registers hnew hvalid => exact (adds_insertRecord pool _).free hnone hr'
  | acquires hcall hr => exact absurd hr' hset
  | checks hcall hr => exact absurd hr' hset
  | visits hcall hr => exact absurd hr' hset
  | declares hcall hdecl hadds hdeclares hreset => exact hadds.free hnone hr'
  | ends windows hcall hends hkept => exact absurd hr' hsame

/-! ## Guards that stay -/

theorem guarded_of_mark {i : ℕ} {guard : ConnectionGuard} {outcome : ConnectionOutcome}
    (hguard : pool.guards[i]? = some guard)
    (hguards : pool'.guards = pool.guards.set i { guard with outcome }) (hg : pool.Guarded h) :
    pool'.Guarded h := by
  obtain ⟨held, hmem, hrecord⟩ := hg
  obtain ⟨k, hk⟩ := List.getElem?_of_mem hmem
  obtain ⟨hi, -⟩ := List.getElem?_eq_some_iff.mp hguard
  by_cases hik : i = k
  · subst hik
    obtain rfl := Option.some.inj (hguard.symm.trans hk)
    refine ⟨{ guard with outcome }, ?_, hrecord⟩
    rw [hguards]
    exact List.mem_set hi _
  · refine ⟨held, ?_, hrecord⟩
    rw [hguards]
    exact List.mem_of_getElem? ((List.getElem?_set_ne hik).trans hk)

/-- A guard that is alive stays alive, unless the step drops it. -/
theorem guarded_step (hs : pool.step parseUrl a = some pool')
    (ha : ∀ i now, a ≠ .dropGuard i now) (hg : pool.Guarded h) : pool'.Guarded h := by
  cases step_move hs with
  | idle _ ha => exact hg
  | begins ha hfresh hkind hvalid => exact hg
  | marks outcome ha hguard => exact guarded_of_mark hguard rfl hg
  | drops hguard hr => exact absurd rfl (ha _ _)
  | registers hnew hvalid => exact hg
  | acquires hcall hr =>
      obtain ⟨guard, hmem, hrecord⟩ := hg
      exact ⟨guard, List.mem_append_left _ hmem, hrecord⟩
  | checks hcall hr => exact hg
  | visits hcall hr => exact hg
  | declares hcall hdecl hadds hdeclares hreset =>
      obtain ⟨guard, hmem, hrecord⟩ := hg
      exact ⟨guard, hadds.guards ▸ hmem, hrecord⟩
  | ends windows hcall hends hkept => exact hg

/-! ## What is lent -/

/-- An operation does not set the flag of a record. -/
theorem inUse_of_cleared {r : ConnectionRecord} {clears : Bool}
    (hframe : r'.inUse = if clears then false else r.inUse) (huse : r'.inUse = true) :
    r.inUse = true := by
  cases clears with
  | true =>
      rw [hframe] at huse
      cases huse
  | false =>
      rw [hframe] at huse
      exact huse

/-- What is lent after a step that drops no guard is guarded, or it was lent before. -/
theorem lent_step {r : ConnectionRecord} (hs : pool.step parseUrl a = some pool')
    (ha : ∀ i now, a ≠ .dropGuard i now) (hr : pool.heap[h]? = some r)
    (hr' : pool'.heap[h]? = some r') (huse : r'.inUse = true) :
    pool'.Guarded h ∨ r.inUse = true := by
  have hsame : pool'.heap[h]? = some r → pool'.Guarded h ∨ r.inUse = true := fun hkept =>
    .inr (Option.some.inj (hkept.symm.trans hr') ▸ huse)
  have hlt := lt_of_getElem?_eq_some hr
  -- an operation on the record may have cleared its flag, but it has not set it
  have hframed : ∀ {k : ℕ} {record record' : ConnectionRecord} (clears : Bool),
      pool.heap[k]? = some record → record'.inUse = (if clears then false else record.inUse) →
        pool'.heap = pool.heap.set k record' → pool'.Guarded h ∨ r.inUse = true := by
    intro k record record' clears hrecord hframe hheap
    by_cases hk : k = h
    · subst hk
      obtain rfl := Option.some.inj (hr.symm.trans hrecord)
      rw [hheap, List.getElem?_set_self hlt] at hr'
      obtain rfl := Option.some.inj hr'
      exact .inr (inUse_of_cleared hframe huse)
    · exact hsame (by rw [hheap, List.getElem?_set_ne hk, hr])
  cases step_move hs with
  | idle _ ha => exact hsame hr
  | begins ha hfresh hkind hvalid => exact hsame hr
  | marks outcome ha hguard => exact hsame hr
  | drops hguard hrecord => exact absurd rfl (ha _ _)
  | registers hnew hvalid => exact hsame ((adds_insertRecord pool _).getElem? hr)
  | @acquires i now id k record hcall hrecord =>
      rcases acquireRecord_cases parseUrl id record pool.attemptWindows now with
        ⟨e, -, hhealth⟩ | ⟨-, -, -, lease, hlease, -⟩
      · exact hframed false hrecord hhealth.inUse rfl
      · by_cases hk : k = h
        · subst hk
          refine .inl ⟨⟨lease, k, .pending⟩, List.mem_append_right _ ?_, rfl⟩
          rw [hlease]
          exact List.mem_singleton_self _
        · exact hsame ((List.getElem?_set_ne hk).trans hr)
  | @checks i now op k record hcall hrecord => exact hframed op.clears hrecord (op.frame now record).2 rfl
  | @visits i now op k rest record hcall hrecord => exact hframed op.clears hrecord (op.frame now record).2 rfl
  | declares hcall hdecl hadds hdeclares hreset => exact hsame (hadds.getElem? hr)
  | ends windows hcall hends hkept => exact hsame hr

/-- A guard that is dropped clears the flag of its record, and no guard on another one goes. -/
theorem lent_dropGuard {i : ℕ} {now : ℤ}
    (hs : pool.step parseUrl (.dropGuard i now) = some pool') (hr' : pool'.heap[h]? = some r')
    (huse : r'.inUse = true) :
    pool.heap[h]? = some r' ∧ (pool.Guarded h → pool'.Guarded h) := by
  obtain ⟨guard, hguard, hmap⟩ := Option.bind_eq_some_iff.mp hs
  obtain ⟨record, hrecord, rfl⟩ := Option.map_eq_some_iff.mp hmap
  have hheap : (pool.setRecord guard.record (finalizeRelease record guard.lease.borrowedAt
      guard.outcome now)).heap[h]? = some r' := hr'
  rw [getElem?_setRecord (lt_of_getElem?_eq_some hrecord)] at hheap
  by_cases hk : guard.record = h
  · rw [if_pos hk] at hheap
    have hfree := (healthOnly_finalizeRelease record now guard.lease.borrowedAt guard.outcome).inUse
    rw [Option.some.inj hheap, huse] at hfree
    cases hfree
  · rw [if_neg hk] at hheap
    refine ⟨hheap, ?_⟩
    intro hg
    obtain ⟨held, hmem, hheld⟩ := hg
    refine ⟨held, ?_, hheld⟩
    obtain ⟨k, hkeep⟩ := List.getElem?_of_mem hmem
    refine List.mem_eraseIdx_iff_getElem?.mpr ⟨k, ?_, hkeep⟩
    rintro rfl
    rw [hguard] at hkeep
    obtain rfl := Option.some.inj hkeep
    exact hk hheld

/-- What is lent after a step is guarded, or it was lent before and has kept its guards. -/
theorem guarded_of_step (hs : pool.step parseUrl a = some pool') (hr' : pool'.heap[h]? = some r')
    (huse : r'.inUse = true) : pool'.Guarded h ∨ (pool.Guarded h → pool'.Guarded h) ∧
      ∃ r, pool.heap[h]? = some r ∧ r.inUse = true := by
  cases hr : pool.heap[h]? with
  | none =>
      have hfree := free_of_new hs hr hr'
      rw [huse] at hfree
      cases hfree
  | some r =>
      by_cases hdrop : ∃ i now, a = .dropGuard i now
      · obtain ⟨i, now, rfl⟩ := hdrop
        obtain ⟨hsame, hguards⟩ := lent_dropGuard hs hr' huse
        exact .inr ⟨hguards, r', hr.symm.trans hsame, huse⟩
      · have hkeeps : ∀ i now, a ≠ .dropGuard i now := fun i now heq => hdrop ⟨i, now, heq⟩
        rcases lent_step hs hkeeps hr hr' huse with hguarded | hlent
        · exact .inl hguarded
        · exact .inr ⟨guarded_step hs hkeeps, r, rfl, hlent⟩

end Pool
end Nazh
