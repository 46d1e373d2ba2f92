import Nazh.Connections.Observe

/-!
# Two runs, one of which is watched

The same operations go to two pools, one of which is also looked at by extra calls of `get` and
`list`. The locks of such a call are looks at one record each, in any order, and it leaves
nothing else behind.
-/

namespace Nazh

open Lib

namespace Pool

/-- A look at a record. -/
def observe (pool : Pool) (h : ℕ) (now : ℤ) : Option Pool :=
  (pool.heap[h]?).map fun record =>
    pool.setRecord h (reconcileTimedState record (.fromMetadata record.metadata) now)

/-- The lock of an extra `get` is a look at its record, and the call is over. -/
theorem resume_get (parseUrl : UrlParser) (pool : Pool) (h : ℕ) (now : ℤ) :
    (pool.beginCall (.health .get h)).resume parseUrl pool.calls.length now =
      pool.observe h now := by
  have hcall : (pool.beginCall (.health .get h)).calls[pool.calls.length]? =
      some (.health .get h) := by simp [beginCall]
  rw [resume, hcall, observe]
  cases hr : pool.heap[h]? with
  | none => simp [beginCall, hr]
  | some record => simp [beginCall, hr, setRecord, endCall, HealthOp.apply, List.eraseIdx_append_of_length_le]

/-- A lock of an extra `list` is a look at a record, and the call goes on with the others. -/
theorem resume_list (parseUrl : UrlParser) (pool : Pool) (h : ℕ) (rest : List ℕ) (now : ℤ) :
    (pool.beginCall (.sweep .list (h :: rest))).resume parseUrl pool.calls.length now =
      (pool.observe h now).map fun pool' => pool'.beginCall (.sweep .list rest) := by
  have hcall : (pool.beginCall (.sweep .list (h :: rest))).calls[pool.calls.length]? =
      some (.sweep .list (h :: rest)) := by simp [beginCall]
  rw [resume, hcall, observe]
  cases hr : pool.heap[h]? with
  | none => simp [beginCall, hr]
  | some record => simp [beginCall, hr, setRecord, setCall, SweepOp.apply]

/-- A live guard of the record may take the last failure for its own. -/
def watched (pool : Pool) (h : ℕ) (record : ConnectionRecord) : Bool :=
  pool.guards.any fun guard => guard.record == h &&
    record.health.lastFailureAt.any fun lastFailureAt => guard.lease.borrowedAt ≤ lastFailureAt

/-- When the live guards of a record were borrowed. -/
def borrowed (pool : Pool) (h : ℕ) : List ℤ :=
  (pool.guards.filter fun guard => guard.record == h).map fun guard => guard.lease.borrowedAt

/-! ## Guards -/

section Guards

variable {pool pool' : Pool} {parseUrl : UrlParser} {a : PoolAction} {guard : ConnectionGuard}

/-- The guard was there before the action, with some mark, or the action lends its record. -/
def HadOrLends (parseUrl : UrlParser) (pool : Pool) (a : PoolAction) (guard : ConnectionGuard) :
    Prop :=
  (∃ old ∈ pool.guards, old.lease = guard.lease ∧ old.record = guard.record) ∨
    ∃ id now r, pool.recordAction guard.record a = some (.acquire id pool.attemptWindows, now) ∧
      pool.heap[guard.record]? = some r ∧
      (acquireRecord parseUrl id r pool.attemptWindows now).2.2 = .ok guard.lease

theorem hadOrLends_of_mem (hguard : guard ∈ pool.guards) : pool.HadOrLends parseUrl a guard :=
  .inl ⟨guard, hguard, rfl, rfl⟩

theorem hadOrLends_mark {i : ℕ} {outcome : ConnectionOutcome} {old : ConnectionGuard}
    (hold : pool.guards[i]? = some old) (hguard : guard ∈ pool.guards.set i { old with outcome }) :
    pool.HadOrLends parseUrl a guard := by
  rcases List.mem_or_eq_of_mem_set hguard with hmem | rfl
  · exact hadOrLends_of_mem hmem
  · exact .inl ⟨old, List.mem_of_getElem? hold, rfl, rfl⟩

/-- Where the guards after a step come from. -/
theorem hadOrLends_step (hs : pool.step parseUrl a = some pool') (hguard : guard ∈ pool'.guards) :
    pool.HadOrLends parseUrl a guard := by
  cases step_move hs with
  | idle _ ha => exact hadOrLends_of_mem hguard
  | begins ha hfresh hkind hvalid => exact hadOrLends_of_mem hguard
  | marks outcome ha hold => exact hadOrLends_mark hold hguard
  | drops hold hr => exact hadOrLends_of_mem (List.mem_of_mem_eraseIdx hguard)
  | registers hnew hvalid => exact hadOrLends_of_mem hguard
  | @acquires i now id h r hcall hr =>
      have haction : pool.recordAction h (.resume i now) =
          some (.acquire id pool.attemptWindows, now) := by
        rw [recordAction_of_call hcall, callAction, if_pos rfl]
        rfl
      rcases List.mem_append.mp hguard with hmem | hnew
      · exact hadOrLends_of_mem hmem
      · cases hanswer : (acquireRecord parseUrl id r pool.attemptWindows now).2.2 with
        | error e =>
            rw [hanswer] at hnew
            cases hnew
        | ok lease =>
            rw [hanswer] at hnew
            cases List.mem_singleton.mp hnew
            exact .inr ⟨id, now, r, haction, hr, hanswer⟩
  | checks hcall hr => exact hadOrLends_of_mem hguard
  | visits hcall hr => exact hadOrLends_of_mem hguard
  | declares hcall hdecl hadds hdeclares hreset => exact hadOrLends_of_mem (hadds.guards ▸ hguard)
  | ends windows hcall hends hkept => exact hadOrLends_of_mem hguard

theorem mem_borrowed {h : ℕ} {b : ℤ} : b ∈ pool.borrowed h ↔
    ∃ guard ∈ pool.guards, guard.record = h ∧ guard.lease.borrowedAt = b := by
  simp [borrowed, and_assoc]

/-- A guard of the record after a step was one before, or the step lends the record. -/
theorem borrowed_step {h : ℕ} {b : ℤ} (hs : pool.step parseUrl a = some pool')
    (hb : b ∈ pool'.borrowed h) : b ∈ pool.borrowed h ∨ ∃ id now r lease,
      pool.recordAction h a = some (.acquire id pool.attemptWindows, now) ∧
      pool.heap[h]? = some r ∧
      (acquireRecord parseUrl id r pool.attemptWindows now).2.2 = .ok lease := by
  obtain ⟨guard, hguard, rfl, rfl⟩ := mem_borrowed.mp hb
  rcases hadOrLends_step hs hguard with ⟨old, hold, hlease, hrecord⟩ | ⟨id, now, r, hlends⟩
  · exact .inl (mem_borrowed.mpr ⟨old, hold, hrecord, congrArg ConnectionLease.borrowedAt hlease⟩)
  · exact .inr ⟨id, now, r, guard.lease, hlends⟩

theorem length_heap_le (hs : pool.step parseUrl a = some pool') :
    pool.heap.length ≤ pool'.heap.length := by
  by_contra hshorter
  have hlt : pool'.heap.length < pool.heap.length := by omega
  have hkept := heap_step hs (List.getElem?_eq_getElem hlt)
  have hlt' := lt_of_getElem?_eq_some hkept
  omega

/-- The guard that an action releases is one of the record. -/
theorem mem_borrowed_of_recordAction {h : ℕ} {b now : ℤ} {outcome : ConnectionOutcome}
    (haction : pool.recordAction h a = some (.release b outcome, now)) : b ∈ pool.borrowed h := by
  cases a with
  | dropGuard i now' =>
      obtain ⟨guard, hguard, hrelease⟩ := Option.bind_eq_some_iff.mp haction
      by_cases hrecord : guard.record = h
      · rw [if_pos hrecord] at hrelease
        cases hrelease
        exact mem_borrowed.mpr ⟨guard, List.mem_of_getElem? hguard, hrecord, rfl⟩
      · rw [if_neg hrecord] at hrelease
        cases hrelease
  | resume i now' =>
      obtain ⟨call, -, hcall⟩ := Option.bind_eq_some_iff.mp haction
      obtain ⟨action, hrelease, heq⟩ := Option.map_eq_some_iff.mp hcall
      cases heq
      rw [callAction.eq_def] at hrelease
      split at hrelease
      all_goals first
        | cases hrelease
        | (split at hrelease <;> cases hrelease)
  | _ => cases haction

theorem watched_iff {h : ℕ} {r : ConnectionRecord} :
    pool.watched h r = true ↔ Watched (pool.borrowed h) r := by
  rw [watched, List.any_eq_true, Watched]
  constructor
  · intro hwatched
    obtain ⟨guard, hguard, hseen⟩ := hwatched
    rw [Bool.and_eq_true, beq_iff_eq, Option.any_eq_true] at hseen
    obtain ⟨hrecord, failedAt, hfailed, hle⟩ := hseen
    exact ⟨_, mem_borrowed.mpr ⟨guard, hguard, hrecord, rfl⟩, failedAt, hfailed,
      of_decide_eq_true hle⟩
  · intro hwatched
    obtain ⟨b, hb, failedAt, hfailed, hle⟩ := hwatched
    obtain ⟨guard, hguard, hrecord, rfl⟩ := mem_borrowed.mp hb
    refine ⟨guard, hguard, ?_⟩
    rw [Bool.and_eq_true, beq_iff_eq, Option.any_eq_true]
    exact ⟨hrecord, failedAt, hfailed, decide_eq_true hle⟩

end Guards

/-! ## The steps of pools that differ in their records -/

/-- The heaps have records in use at the same places, and the same records from `k` on. -/
structure SameUse (k : ℕ) (heap heap' : List ConnectionRecord) : Prop where
  inUse : heap'.map ConnectionRecord.inUse = heap.map ConnectionRecord.inUse
  fresh : heap'.drop k = heap.drop k

/-- The pools differ in the records before `k` alone, and not in which of them are in use. -/
def Twinned (k : ℕ) (pool pool' : Pool) : Prop :=
  ∃ heap', pool' = { pool with heap := heap' } ∧ SameUse k pool.heap heap'

section Twinned

variable {k h : ℕ} {heap heap' : List ConnectionRecord} {r r' : ConnectionRecord}
  {pool pool' : Pool} {parseUrl : UrlParser}

theorem Twinned.sameUse (ht : Twinned k pool pool') : SameUse k pool.heap pool'.heap := by
  obtain ⟨heap', rfl, hu⟩ := ht
  exact hu

theorem SameUse.length (hu : SameUse k heap heap') : heap'.length = heap.length := by
  have hlength := congrArg List.length hu.inUse
  rwa [List.length_map, List.length_map] at hlength

theorem SameUse.set (hu : SameUse k heap heap') (hk : h < k) (huse : r'.inUse = r.inUse) :
    SameUse k (heap.set h r) (heap'.set h r') where
  inUse := by rw [List.map_set, List.map_set, hu.inUse, huse]
  fresh := by rw [List.drop_set_of_lt hk, List.drop_set_of_lt hk, hu.fresh]

/-- A change of the second heap alone. -/
theorem SameUse.set_right (hu : SameUse heap.length heap heap') (hr : heap[h]? = some r)
    (huse : r'.inUse = r.inUse) : SameUse heap.length heap (heap'.set h r') := by
  obtain ⟨hlt, rfl⟩ := List.getElem?_eq_some_iff.mp hr
  have hset := hu.set hlt huse
  rwa [List.set_getElem_self hlt] at hset

theorem SameUse.append (hu : SameUse k heap heap') (hk : k ≤ heap.length)
    (r : ConnectionRecord) : SameUse k (heap ++ [r]) (heap' ++ [r]) where
  inUse := by rw [List.map_append, List.map_append, hu.inUse]
  fresh := by
    rw [List.drop_append_of_le_length hk, List.drop_append_of_le_length (hu.length ▸ hk), hu.fresh]

/-- Both heaps have a record at a place, or none has. -/
theorem SameUse.getElem? (hu : SameUse k heap heap') (h : ℕ) :
    heap[h]? = none ∧ heap'[h]? = none ∨ ∃ r r', heap[h]? = some r ∧ heap'[h]? = some r' ∧
      r'.inUse = r.inUse := by
  have huse : (heap'[h]?).map ConnectionRecord.inUse = (heap[h]?).map ConnectionRecord.inUse := by
    rw [← List.getElem?_map, ← List.getElem?_map, hu.inUse]
  cases hr : heap[h]? with
  | none =>
      rw [hr] at huse
      exact .inl ⟨rfl, Option.map_eq_none_iff.mp huse⟩
  | some r =>
      rw [hr] at huse
      obtain ⟨r', hr', hsame⟩ := Option.map_eq_some_iff.mp huse
      exact .inr ⟨r, r', rfl, hr', hsame⟩

theorem SameUse.lent (hu : SameUse k pool.heap heap') (id : String) :
    lent { pool with heap := heap' } id = pool.lent id := by
  rw [Pool.lent, Pool.lent]
  cases pool.connections.lookup id with
  | none => rfl
  | some h =>
      change (heap'[h]?).any ConnectionRecord.inUse = (pool.heap[h]?).any ConnectionRecord.inUse
      rcases hu.getElem? h with ⟨hr, hr'⟩ | ⟨r, r', hr, hr', huse⟩
      · rw [hr, hr']
      · rw [hr, hr', Option.any_some, Option.any_some, huse]

theorem Twinned.insertRecord (ht : Twinned k pool pool') (hk : k ≤ pool.heap.length)
    (definition : ConnectionDefinition) :
    Twinned k (pool.insertRecord parseUrl definition) (pool'.insertRecord parseUrl definition) := by
  obtain ⟨heap', rfl, hu⟩ := ht
  refine ⟨heap' ++ [buildRecord parseUrl definition], ?_, hu.append hk _⟩
  simp only [Pool.insertRecord, hu.length]

theorem Twinned.insertUnlent (activeSessionIds : List String)
    (definitions : List ConnectionDefinition) (ht : Twinned k pool pool')
    (hk : k ≤ pool.heap.length) :
    Twinned k (pool.insertUnlent parseUrl activeSessionIds definitions)
      (pool'.insertUnlent parseUrl activeSessionIds definitions) := by
  induction definitions generalizing pool pool' with
  | nil => exact ht
  | cons definition rest ih =>
      have hlent : pool'.lent definition.id = pool.lent definition.id := by
        obtain ⟨heap', rfl, hu⟩ := ht
        exact hu.lent definition.id
      rw [Pool.insertUnlent, Pool.insertUnlent, hlent]
      split
      · exact ih ht hk
      · apply ih (ht.insertRecord hk definition)
        simp only [Pool.insertRecord, List.length_append]
        omega

theorem Twinned.foldl_insertRecord (definitions : List ConnectionDefinition)
    (ht : Twinned k pool pool') (hk : k ≤ pool.heap.length) :
    Twinned k (definitions.foldl (Pool.insertRecord parseUrl) pool)
      (definitions.foldl (Pool.insertRecord parseUrl) pool') := by
  induction definitions generalizing pool pool' with
  | nil => exact ht
  | cons definition rest ih =>
      apply ih (ht.insertRecord hk definition)
      simp only [Pool.insertRecord, List.length_append]
      omega

theorem Twinned.resume {clock now : ℤ} (ht : Twinned pool.heap.length pool pool')
    (hakin : ∀ (h : ℕ) r r', pool.heap[h]? = some r → pool'.heap[h]? = some r' →
      Akin clock [] r r')
    (hle : clock ≤ now) (i : ℕ) :
    Option.Rel (Twinned pool.heap.length) (pool.resume parseUrl i now)
      (pool'.resume parseUrl i now) := by
  have hunwatched : ∀ r : ConnectionRecord, ¬ Watched [] r := by
    intro r hwatched
    obtain ⟨b, hb, -⟩ := hwatched
    cases hb
  obtain ⟨heap', rfl, hu⟩ := ht
  cases hcall : pool.calls[i]? with
  | none =>
      simp only [Pool.resume, hcall]
      exact .none
  | some call =>
      cases call with
      | acquire id h =>
          simp only [Pool.resume, hcall]
          rcases hu.getElem? h with ⟨hr, hr'⟩ | ⟨r, r', hr, hr', -⟩
          · simp only [hr, hr']
            exact .none
          · simp only [hr, hr']
            have hlt := lt_of_getElem?_eq_some hr
            obtain ⟨hsame, herror, hok⟩ := (hakin h r r' hr hr').acquire parseUrl [] hle id
              pool.attemptWindows fun hwatched => absurd hwatched (hunwatched r)
            generalize acquireRecord parseUrl id r pool.attemptWindows now = after
              at hsame herror hok ⊢
            generalize acquireRecord parseUrl id r' pool.attemptWindows now = after'
              at hsame herror hok ⊢
            obtain ⟨r₁, windows, answer⟩ := after
            obtain ⟨r₁', windows', answer'⟩ := after'
            cases hsame
            cases answer with
            | error e =>
                exact .some ⟨_, rfl, hu.set hlt (herror e rfl).inUse⟩
            | ok lease =>
                exact .some ⟨_, rfl, hu.set hlt (hok lease rfl).inUse⟩
      | health op h =>
          simp only [Pool.resume, hcall]
          rcases hu.getElem? h with ⟨hr, hr'⟩ | ⟨r, r', hr, hr', -⟩
          · simp only [hr, hr']
            exact .none
          · simp only [hr, hr']
            have hakin' := (hakin h r r' hr hr').health hle op fun _ hwatched =>
              absurd hwatched (hunwatched r)
            exact .some ⟨_, rfl, hu.set (lt_of_getElem?_eq_some hr) hakin'.inUse⟩
      | sweep op records =>
          cases records with
          | nil =>
              simp only [Pool.resume, hcall]
              exact .some ⟨heap', rfl, hu⟩
          | cons h rest =>
              simp only [Pool.resume, hcall]
              rcases hu.getElem? h with ⟨hr, hr'⟩ | ⟨r, r', hr, hr', -⟩
              · simp only [hr, hr']
                exact .none
              · simp only [hr, hr']
                have hakin' := (hakin h r r' hr hr').sweep hle op fun _ hwatched =>
                  absurd hwatched (hunwatched r)
                exact .some ⟨_, rfl, hu.set (lt_of_getElem?_eq_some hr) hakin'.inUse⟩
      | upsert definition =>
          simp only [Pool.resume, hcall, hu.lent]
          split
          · exact .some ⟨heap', rfl, hu⟩
          · have hinsert : Twinned pool.heap.length (pool.insertRecord parseUrl definition) _ :=
              Twinned.insertRecord ⟨heap', rfl, hu⟩ (Nat.le_refl _) definition
            obtain ⟨heap'', heq, hu'⟩ := hinsert
            rw [heq]
            exact .some ⟨heap'', rfl, hu'⟩
      | upsertMany definitions active =>
          simp only [Pool.resume, hcall]
          have hinsert : Twinned pool.heap.length
              (pool.insertUnlent parseUrl active definitions) _ :=
            Twinned.insertUnlent active definitions ⟨heap', rfl, hu⟩ (Nat.le_refl _)
          obtain ⟨heap'', heq, hu'⟩ := hinsert
          rw [heq]
          exact .some ⟨heap'', rfl, hu'⟩
      | replaceAll definitions =>
          have hlent : Pool.lent { pool with heap := heap' } = pool.lent := funext hu.lent
          simp only [Pool.resume, hcall, hlent]
          split
          · exact .some ⟨heap', rfl, hu⟩
          · have hinsert : Twinned pool.heap.length
                (definitions.foldl (Pool.insertRecord parseUrl) { pool with connections := ∅ }) _ :=
              Twinned.foldl_insertRecord definitions ⟨heap', rfl, hu⟩ (Nat.le_refl _)
            obtain ⟨heap'', heq, hu'⟩ := hinsert
            rw [heq]
            exact .some ⟨heap'', rfl, hu'⟩
      | resetAttemptWindow id =>
          simp only [Pool.resume, hcall]
          exact .some ⟨heap', rfl, hu⟩
      | resetAttemptWindows ids =>
          simp only [Pool.resume, hcall]
          exact .some ⟨heap', rfl, hu⟩

/-- Steps keep pools twinned: both can take the step, or neither can. -/
theorem Twinned.step {clock : ℤ} {a : PoolAction} (ht : Twinned pool.heap.length pool pool')
    (hakin : ∀ (h : ℕ) r r', pool.heap[h]? = some r → pool'.heap[h]? = some r' →
      Akin clock [] r r')
    (hle : ∀ now, a.reading = some now → clock ≤ now) :
    Option.Rel (Twinned pool.heap.length) (pool.step parseUrl a) (pool'.step parseUrl a) := by
  have hkeep := ht
  obtain ⟨heap', rfl, hu⟩ := ht
  cases a with
  | resume i now =>
      simp only [Pool.step]
      exact hkeep.resume hakin (hle now rfl) i
  | acquire id =>
      simp only [Pool.step, lookUp]
      cases pool.connections.lookup id with
      | none => exact .some hkeep
      | some h => exact .some ⟨heap', rfl, hu⟩
  | health id op =>
      simp only [Pool.step, lookUp]
      cases pool.connections.lookup id with
      | none => exact .some hkeep
      | some h => exact .some ⟨heap', rfl, hu⟩
  | sweep op => exact .some ⟨heap', rfl, hu⟩
  | markSuccess i =>
      simp only [Pool.step]
      cases pool.guards[i]? with
      | none => exact .none
      | some guard => exact .some ⟨heap', rfl, hu⟩
  | markFailure i reason =>
      simp only [Pool.step]
      cases pool.guards[i]? with
      | none => exact .none
      | some guard => exact .some ⟨heap', rfl, hu⟩
  | dropGuard i now =>
      simp only [Pool.step]
      cases pool.guards[i]? with
      | none => exact .none
      | some guard =>
          simp only [Option.bind_some]
          rcases hu.getElem? guard.record with ⟨hr, hr'⟩ | ⟨r, r', hr, hr', -⟩
          · simp only [hr, hr']
            exact .none
          · simp only [hr, hr']
            refine .some ⟨_, rfl, hu.set (lt_of_getElem?_eq_some hr) ?_⟩
            have hreleased (q : ConnectionRecord) : (finalizeRelease q guard.lease.borrowedAt
                guard.outcome now).inUse = false := (healthOnly_finalizeRelease q now _ _).inUse
            rw [hreleased, hreleased]
  | register definition =>
      simp only [Pool.step]
      split
      · exact .some hkeep
      · obtain ⟨heap'', heq, hu'⟩ := hkeep.insertRecord (Nat.le_refl _) definition
        rw [heq]
        exact .some ⟨heap'', rfl, hu'⟩
  | upsert definition =>
      simp only [Pool.step]
      split
      · exact .some hkeep
      · exact .some ⟨heap', rfl, hu⟩
  | upsertMany definitions =>
      simp only [Pool.step]
      split
      · exact .some ⟨heap', rfl, hu⟩
      · exact .some hkeep
  | replaceAll definitions =>
      simp only [Pool.step]
      split
      · exact .some ⟨heap', rfl, hu⟩
      · exact .some hkeep
  | session id opened => exact .some ⟨heap', rfl, hu⟩

theorem SameUse.mono {k' : ℕ} (hu : SameUse k heap heap') (hk : k ≤ k') :
    SameUse k' heap heap' where
  inUse := hu.inUse
  fresh := by
    obtain ⟨n, rfl⟩ := Nat.exists_eq_add_of_le hk
    rw [← List.drop_drop, ← List.drop_drop, hu.fresh]

theorem Twinned.mono {k' : ℕ} (ht : Twinned k pool pool') (hk : k ≤ k') :
    Twinned k' pool pool' := by
  obtain ⟨heap', heq, hu⟩ := ht
  exact ⟨heap', heq, hu.mono hk⟩

/-- A record that is new is the same in both pools. -/
theorem SameUse.eq_of_le (hu : SameUse k heap heap') (hk : k ≤ h) : heap'[h]? = heap[h]? := by
  obtain ⟨n, rfl⟩ := Nat.exists_eq_add_of_le hk
  rw [← List.getElem?_drop, ← List.getElem?_drop, hu.fresh]

theorem Twinned.recordAction (ht : Twinned k pool pool') (h : ℕ) (a : PoolAction) :
    pool'.recordAction h a = pool.recordAction h a := by
  obtain ⟨heap', rfl, -⟩ := ht
  cases a with
  | resume i now => rfl
  | dropGuard i now => rfl
  | _ => rfl

end Twinned

end Pool

/-! ## Both runs -/

/-- A pool, and one that is looked at besides. -/
structure Twin where
  plain : Pool
  polled : Pool
  clock : ℤ

/-- What can happen to both pools, and what happens to one of them alone. -/
inductive TwinAction
  | act (a : PoolAction)
  | observe (record : ℕ) (now : ℤ)

namespace Twin

/-- One step of both pools, or an extra look at one of them. -/
def step (parseUrl : UrlParser) (t : Twin) : TwinAction → Option Twin
  | .act a =>
      if a.reading.all fun now => t.clock ≤ now && isDateTime now then
        (t.plain.step parseUrl a).bind fun plain =>
          (t.polled.step parseUrl a).map fun polled => ⟨plain, polled, a.reading.getD t.clock⟩
      else none
  | .observe h now =>
      if t.clock ≤ now && isDateTime now then
        (t.polled.observe h now).map fun polled => { t with polled, clock := now }
      else none

/-- The runs of both pools from the same start. -/
def machine (parseUrl : UrlParser) : Machine Twin TwinAction :=
  ⟨fun t => t.plain.AtRest ∧ t.polled = t.plain, step parseUrl⟩

/-- An extra look hides no failure that a live guard may take for its own. A look of the run
itself finds the wait for a retry over in both pools or in none, if there is such a guard. -/
def keepsTraces (t : Twin) : TwinAction → Bool
  | .observe h now => (t.polled.heap[h]?).all fun record =>
      !t.polled.watched h record || (!pauseOver record now && !retryDue record now)
  | .act a => (List.range t.plain.heap.length).all fun h =>
      (t.plain.recordAction h a).all fun (action, now) => !action.polls ||
        (t.plain.heap[h]?).all fun record => (t.polled.heap[h]?).all fun record' =>
          !t.plain.watched h record || retryDue record' now == retryDue record now

/-- What holds between the two pools as long as traces are kept. -/
structure Related (t : Twin) : Prop where
  twinned : t.plain.Twinned t.plain.heap.length t.polled
  akin : ∀ (h : ℕ) r r', t.plain.heap[h]? = some r → t.polled.heap[h]? = some r' →
    Akin t.clock (t.plain.borrowed h) r r'

variable {parseUrl : UrlParser} {t : Twin}

theorem related_start (pool : Pool) (clock : ℤ) : Related ⟨pool, pool, clock⟩ where
  twinned := ⟨pool.heap, rfl, rfl, rfl⟩
  akin h r r' hr hr' := by
    obtain rfl := Option.some.inj (hr.symm.trans hr')
    exact .refl clock _ r

/-- No guard matters for what an acquire answers. -/
theorem Related.unwatched (hrelated : t.Related) (h : ℕ) (r r' : ConnectionRecord)
    (hr : t.plain.heap[h]? = some r) (hr' : t.polled.heap[h]? = some r') :
    Akin t.clock [] r r' := by
  apply (hrelated.akin h r r' hr hr').subset
  intro b hb
  cases hb

theorem retryDue_of_keepsTraces {a : PoolAction} {h : ℕ} {r r' : ConnectionRecord}
    {action : RecordAction} {now : ℤ} (hkeep : t.keepsTraces (.act a) = true)
    (hr : t.plain.heap[h]? = some r) (hr' : t.polled.heap[h]? = some r')
    (haction : t.plain.recordAction h a = some (action, now)) (hpolls : action.polls = true)
    (hwatched : Watched (t.plain.borrowed h) r) : retryDue r' now = retryDue r now := by
  have hall := List.all_eq_true.mp hkeep h (List.mem_range.mpr (Pool.lt_of_getElem?_eq_some hr))
  have hseen : t.plain.watched h r = true := Pool.watched_iff.mpr hwatched
  rw [haction, hr, hr'] at hall
  simpa [hpolls, hseen] using hall

/-- A step of both pools keeps their records alike. -/
theorem Related.act {a : PoolAction} {plain polled : Pool} (hrelated : t.Related)
    (hclock : ∀ now, a.reading = some now → t.clock ≤ now)
    (hkeep : t.keepsTraces (.act a) = true) (hplain : t.plain.step parseUrl a = some plain)
    (hpolled : t.polled.step parseUrl a = some polled) :
    Related ⟨plain, polled, a.reading.getD t.clock⟩ := by
  have hsteps : Option.Rel (Pool.Twinned t.plain.heap.length) (t.plain.step parseUrl a)
      (t.polled.step parseUrl a) := hrelated.twinned.step hrelated.unwatched hclock
  have hle : t.clock ≤ a.reading.getD t.clock := by
    cases hreading : a.reading with
    | none => exact Int.le_refl _
    | some now => exact hclock now hreading
  rw [hplain, hpolled] at hsteps
  cases hsteps with
  | some htwinned =>
      refine ⟨htwinned.mono (Pool.length_heap_le hplain), fun h q q' hq hq' => ?_⟩
      change Akin _ (plain.borrowed h) q q'
      rcases hrelated.twinned.sameUse.getElem? h with ⟨hr, -⟩ | ⟨r, r', hr, hr', -⟩
      · -- the record is new
        have hnew := htwinned.sameUse.eq_of_le (List.getElem?_eq_none_iff.mp hr)
        obtain rfl := Option.some.inj (hq.symm.trans (hnew.symm.trans hq'))
        exact .refl _ _ q
      · have hakin := hrelated.akin h r r' hr hr'
        have hafter := hq.symm.trans (Pool.heap_step hplain hr)
        have hafter' := hq'.symm.trans (Pool.heap_step hpolled hr')
        rw [Pool.recordAfter, Option.some.injEq] at hafter hafter'
        rw [hrelated.twinned.recordAction] at hafter'
        cases haction : t.plain.recordAction h a with
        | none =>
            rw [haction] at hafter hafter'
            rw [hafter, hafter']
            apply (hakin.mono hle).subset
            intro b hb
            rcases Pool.borrowed_step hplain hb with hold | ⟨id, now, s, lease, hlends, -⟩
            · exact hold
            · rw [haction] at hlends
              cases hlends
        | some actionAt =>
            obtain ⟨action, now⟩ := actionAt
            rw [haction] at hafter hafter'
            have hreading := Pool.reading_of_recordAction haction
            rw [hreading, Option.getD_some, hafter, hafter']
            apply hakin.apply (hclock now hreading)
            · exact fun hpolls hwatched =>
                retryDue_of_keepsTraces hkeep hr hr' haction hpolls hwatched
            · intro b outcome hrelease
              rw [hrelease] at haction
              exact Pool.mem_borrowed_of_recordAction haction
            · intro b hb
              rcases Pool.borrowed_step hplain hb with hold | ⟨id, now', s, lease, hlends, hs, hok⟩
              · exact .inl hold
              · rw [haction] at hlends
                cases hlends
                obtain rfl := Option.some.inj (hr.symm.trans hs)
                exact .inr ⟨id, t.plain.attemptWindows, lease, rfl, hok⟩

/-- An extra look keeps the records alike. -/
theorem Related.observe {h : ℕ} {now : ℤ} {polled : Pool} (hrelated : t.Related)
    (hle : t.clock ≤ now) (hkeep : t.keepsTraces (.observe h now) = true)
    (hobserve : t.polled.observe h now = some polled) : Related { t with polled, clock := now } := by
  obtain ⟨heap', heq, hu⟩ := hrelated.twinned
  have hheap : t.polled.heap = heap' := congrArg Pool.heap heq
  obtain ⟨q, hq, rfl⟩ := Option.map_eq_some_iff.mp hobserve
  have hguards : t.polled.guards = t.plain.guards := by rw [heq]
  have hlook : Watched (t.plain.borrowed h) q →
      pauseOver q now = false ∧ retryDue q now = false := by
    intro hwatched
    have hborrowed : t.polled.borrowed h = t.plain.borrowed h := by
      rw [Pool.borrowed, Pool.borrowed, hguards]
    have hseen : t.polled.watched h q = true := by
      rw [Pool.watched_iff, hborrowed]
      exact hwatched
    simpa [keepsTraces, hq, hseen] using hkeep
  rcases hu.getElem? h with ⟨-, hnone⟩ | ⟨r, r', hr, hr', huse⟩
  · rw [← hheap, hq] at hnone
    cases hnone
  · obtain rfl := Option.some.inj (hq.symm.trans ((congrArg (·[h]?) hheap).trans hr'))
    have hlt := Pool.lt_of_getElem?_eq_some hr
    have hakin := (hrelated.akin h r q hr hq).observe hle (.fromMetadata q.metadata) hlook
    refine ⟨⟨_, ?_, hu.set_right hr hakin.inUse⟩, fun j s s' hs hs' => ?_⟩
    · simp only [Pool.setRecord, heq]
    · have hs' : (t.polled.setRecord h (reconcileTimedState q _ now)).heap[j]? = some s' := hs'
      rw [Pool.getElem?_setRecord (Pool.lt_of_getElem?_eq_some hq)] at hs'
      by_cases hj : h = j
      · subst hj
        rw [if_pos rfl] at hs'
        obtain rfl := Option.some.inj hs'
        obtain rfl := Option.some.inj (hr.symm.trans hs)
        exact hakin
      · rw [if_neg hj] at hs'
        exact (hrelated.akin j s s' hs hs').mono hle

theorem Related.step {t' : Twin} {a : TwinAction} (hrelated : t.Related)
    (hkeep : t.keepsTraces a = true) (hs : t.step parseUrl a = some t') : t'.Related := by
  cases a with
  | act a =>
      rw [Twin.step] at hs
      split at hs
      · rename_i hreading
        obtain ⟨plain, hplain, hrest⟩ := Option.bind_eq_some_iff.mp hs
        obtain ⟨polled, hpolled, rfl⟩ := Option.map_eq_some_iff.mp hrest
        apply hrelated.act _ hkeep hplain hpolled
        intro now hnow
        simp only [hnow, Option.all_some, Bool.and_eq_true, decide_eq_true_eq] at hreading
        exact hreading.1
      · cases hs
  | observe h now =>
      rw [Twin.step] at hs
      split at hs
      · rename_i hreading
        obtain ⟨polled, hobserve, rfl⟩ := Option.map_eq_some_iff.mp hs
        simp only [Bool.and_eq_true, decide_eq_true_eq] at hreading
        exact hrelated.observe hreading.1 hkeep hobserve
      · cases hs

/-- The pools stay alike in every run that hides no failure. -/
theorem related_of_reaches
    (ht : (machine parseUrl).ReachesUnder (fun t a => t.keepsTraces a) t) : t.Related := by
  refine ht.invariant ?_ ?_
  · intro t₀ hstart
    obtain ⟨plain, polled, clock⟩ := t₀
    obtain ⟨-, hsame⟩ := hstart
    cases hsame
    exact related_start plain clock
  · intro s a s' hrelated hkeep hstep
    exact hrelated.step hkeep hstep

end Twin

/-! ## What is seen of the pools -/

/-- What a record shows of its failures at some time. -/
structure FailureCounts where
  totalFailures : ℕ
  consecutiveFailures : ℕ
  reconnectAttempts : ℕ
  timeoutCount : ℕ
  /-- The end of the pause of an open circuit, if it is still to come. -/
  circuitOpenUntil : Option ℤ

def ConnectionRecord.failureCounts (record : ConnectionRecord) (now : ℤ) : FailureCounts where
  totalFailures := record.health.totalFailures
  consecutiveFailures := record.health.consecutiveFailures
  reconnectAttempts := record.health.reconnectAttempts
  timeoutCount := record.health.timeoutCount
  circuitOpenUntil := unexpired now record.health.circuitOpenUntil

theorem Akin.failureCounts {clock now : ℤ} {borrowed : List ℤ} {r r' : ConnectionRecord}
    (h : Akin clock borrowed r r') (hle : clock ≤ now) :
    r'.failureCounts now = r.failureCounts now := by
  have htotal : r'.health.totalFailures = r.health.totalFailures :=
    congrArg RecordCore.totalFailures h.core
  have hrow : r'.health.consecutiveFailures = r.health.consecutiveFailures :=
    congrArg RecordCore.consecutiveFailures h.core
  have hattempts : r'.health.reconnectAttempts = r.health.reconnectAttempts :=
    congrArg RecordCore.reconnectAttempts h.core
  have htimeouts : r'.health.timeoutCount = r.health.timeoutCount :=
    congrArg RecordCore.timeoutCount h.core
  rw [ConnectionRecord.failureCounts, ConnectionRecord.failureCounts, htotal, hrow, hattempts,
    htimeouts, unexpired_congr hle h.circuit]

/-- No operation from now on tells the pools apart: both can take the same steps, every acquire
has the same answer, and the records show the same failures. -/
structure Twin.Unseen (parseUrl : UrlParser) (t : Twin) : Prop where
  enabled : ∀ a, (∀ now, a.reading = some now → t.clock ≤ now) →
    (t.polled.step parseUrl a).isSome = (t.plain.step parseUrl a).isSome
  answers : ∀ i now, t.clock ≤ now →
    t.polled.acquireResult parseUrl i now = t.plain.acquireResult parseUrl i now
  connections : t.polled.connections = t.plain.connections
  failures : ∀ now, t.clock ≤ now → t.polled.heap.map (ConnectionRecord.failureCounts · now) =
    t.plain.heap.map (ConnectionRecord.failureCounts · now)

section Unseen

variable {parseUrl : UrlParser} {t : Twin}

theorem Twin.Related.enabled {a : PoolAction} (hrelated : t.Related)
    (hclock : ∀ now, a.reading = some now → t.clock ≤ now) :
    (t.polled.step parseUrl a).isSome = (t.plain.step parseUrl a).isSome := by
  have hsteps : Option.Rel (Pool.Twinned t.plain.heap.length) (t.plain.step parseUrl a)
      (t.polled.step parseUrl a) := hrelated.twinned.step hrelated.unwatched hclock
  cases hplain : t.plain.step parseUrl a with
  | none =>
      rw [hplain] at hsteps
      generalize t.polled.step parseUrl a = polled at hsteps ⊢
      cases hsteps
      rfl
  | some plain =>
      rw [hplain] at hsteps
      generalize t.polled.step parseUrl a = polled at hsteps ⊢
      cases hsteps
      rfl

theorem Twin.Related.answers (hrelated : t.Related) (i : ℕ) {now : ℤ} (hle : t.clock ≤ now) :
    t.polled.acquireResult parseUrl i now = t.plain.acquireResult parseUrl i now := by
  obtain ⟨heap', heq, hu⟩ := hrelated.twinned
  have hcalls : t.polled.calls = t.plain.calls := by rw [heq]
  have hwindows : t.polled.attemptWindows = t.plain.attemptWindows := by rw [heq]
  have hheap : t.polled.heap = heap' := by rw [heq]
  rw [Pool.acquireResult, Pool.acquireResult, hcalls, hwindows]
  split
  · rename_i id h hcall
    rcases hu.getElem? h with ⟨hr, hr'⟩ | ⟨r, r', hr, hr', -⟩
    · rw [hheap, hr, hr']
    · rw [← hheap] at hr'
      have hsame := ((hrelated.unwatched h r r' hr hr').acquire parseUrl [] hle id
        t.plain.attemptWindows fun hwatched => by
          obtain ⟨b, hb, -⟩ := hwatched
          cases hb).1
      rw [hr, hr', Option.map_some, Option.map_some, hsame]
  · rfl

theorem Twin.Related.failures (hrelated : t.Related) {now : ℤ} (hle : t.clock ≤ now) :
    t.polled.heap.map (ConnectionRecord.failureCounts · now) =
      t.plain.heap.map (ConnectionRecord.failureCounts · now) := by
  apply List.ext_getElem?
  intro h
  rw [List.getElem?_map, List.getElem?_map]
  rcases hrelated.twinned.sameUse.getElem? h with ⟨hr, hr'⟩ | ⟨r, r', hr, hr', -⟩
  · rw [hr, hr']
  · rw [hr, hr', Option.map_some, Option.map_some,
      (hrelated.unwatched h r r' hr hr').failureCounts hle]

/-- No answer and no counter tells the pools apart, in every run that hides no failure from a
live guard. -/
theorem observation_unseen
    (h : (Twin.machine parseUrl).ReachesUnder (fun t a => t.keepsTraces a) t) :
    t.Unseen parseUrl := by
  have hrelated := Twin.related_of_reaches h
  refine ⟨fun a hclock => hrelated.enabled hclock, fun i now hle => hrelated.answers i hle, ?_,
    fun now hle => hrelated.failures hle⟩
  obtain ⟨heap', heq, -⟩ := hrelated.twinned
  rw [heq]

end Unseen

/-- A connection for which one failure is enough, for a second. -/
def skittish : ConnectionDefinition :=
  ⟨"skittish", "modbus", .object [("governance", .object
    [("circuit_failure_threshold", .number (.posInt 1)),
      ("circuit_open_ms", .number (.posInt 1000))]),
    ("host", .string "10.0.0.9"), ("port", .number (.posInt 502))]⟩

/-- A pool with this connection at rest. -/
def skittishPool : Pool where
  heap := [buildRecord Pool.refuseUrls skittish]
  connections := AList.singleton "skittish" 0
  attemptWindows := ∅
  sharedSessions := []
  guards := []
  calls := []

theorem skittishPool_atRest : skittishPool.AtRest := Pool.atRest_singleton rfl

/-- A failure opens the circuit, and the look comes when the pause is over. -/
def lookAfterPause : List TwinAction :=
  [.act (.health "skittish" (.recordConnectFailure "断线")), .act (.resume 0 1),
    .observe 0 1000000001]

/-- The look changes the phase, and nothing else that counts. -/
theorem observation_unseen_skittish : ∃ t : Twin,
    t.plain.heap.map (fun r => r.health.phase) = [.circuitOpen] ∧
      t.polled.heap.map (fun r => r.health.phase) = [.idle] ∧ t.Unseen Pool.refuseUrls := by
  have hrun : ((Twin.machine Pool.refuseUrls).replay (fun t a => t.keepsTraces a)
      ⟨skittishPool, skittishPool, 0⟩ lookAfterPause).any (fun t =>
        decide (t.plain.heap.map (fun r => r.health.phase) = [.circuitOpen]) &&
          decide (t.polled.heap.map (fun r => r.health.phase) = [.idle])) = true := by decide
  obtain ⟨t, ht, hend⟩ := Machine.exists_reachesUnder_of_replay
    (by exact ⟨skittishPool_atRest, rfl⟩) hrun
  rw [Bool.and_eq_true, decide_eq_true_eq, decide_eq_true_eq] at hend
  exact ⟨t, hend.1, hend.2, observation_unseen ht⟩

/-- The same look during a lease that fails: it hides the failure from the guard. -/
def lookDuringLease : List TwinAction :=
  [.act (.acquire "skittish"), .act (.resume 0 0),
    .act (.health "skittish" (.recordConnectFailure "断线")), .act (.resume 0 1),
    .observe 0 1000000001, .act (.markFailure 0 "断线"), .act (.dropGuard 0 1000000002),
    .act (.acquire "skittish")]

/-- The failure is counted twice where it was looked at, and the next acquire is refused. -/
theorem observation_changes_outcome : ∃ t : Twin, (Twin.machine Pool.refuseUrls).Reaches t ∧
    t.plain.heap.map (fun r => r.health.totalFailures) = [1] ∧
      t.polled.heap.map (fun r => r.health.totalFailures) = [2] ∧
      (t.plain.acquireResult Pool.refuseUrls 0 1500000000).any Except.isOk = true ∧
      (t.polled.acquireResult Pool.refuseUrls 0 1500000000).any Except.isOk = false := by
  have hrun : ((Twin.machine Pool.refuseUrls).replay (fun _ _ => true)
      ⟨skittishPool, skittishPool, 0⟩ lookDuringLease).any (fun t =>
        decide (t.plain.heap.map (fun r => r.health.totalFailures) = [1]) &&
          decide (t.polled.heap.map (fun r => r.health.totalFailures) = [2]) &&
          (t.plain.acquireResult Pool.refuseUrls 0 1500000000).any Except.isOk &&
          !(t.polled.acquireResult Pool.refuseUrls 0 1500000000).any Except.isOk) = true := by
    decide
  obtain ⟨t, ht, hend⟩ := Machine.exists_reaches_of_replay
    (by exact ⟨skittishPool_atRest, rfl⟩) hrun
  simp only [Bool.and_eq_true, Bool.not_eq_true', decide_eq_true_eq] at hend
  obtain ⟨⟨⟨hplain, hpolled⟩, hok⟩, herror⟩ := hend
  exact ⟨t, ht, hplain, hpolled, hok, herror⟩

end Nazh
