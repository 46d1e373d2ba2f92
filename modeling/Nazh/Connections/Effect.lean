import Mathlib.Data.List.InsertIdx
import Nazh.Connections.Pool

/-!
# What a step of the pool does

The steps of the pool are of few kinds. Of each it matters mostly whether a record was lent,
released or cleared of its flag, whether the map was written, and which calls began.
-/

namespace Nazh

open Lib

/-! ## Acquiring a record -/

section Acquire

variable {parseUrl : UrlParser} {connectionId : String} {record : ConnectionRecord}
  {windows : AttemptWindows} {now : ℤ}

/-- A lent record is not lent again. -/
theorem acquireRecord_busy (h : record.inUse = true) :
    (acquireRecord parseUrl connectionId record windows now).2.2 =
      .error (.connectionBusy connectionId) := by
  have hrec := healthOnly_reconcileTimedState record (.fromMetadata record.metadata) now
  simp [acquireRecord, hrec.inUse, h]

/-- An acquire that fails changes the health of the record alone. One that succeeds
found the record free and marks it lent. -/
theorem acquireRecord_cases (parseUrl : UrlParser) (connectionId : String)
    (record : ConnectionRecord) (windows : AttemptWindows) (now : ℤ) :
    (∃ e, (acquireRecord parseUrl connectionId record windows now).2.2 = .error e ∧
      HealthOnly record (acquireRecord parseUrl connectionId record windows now).1) ∨
    (record.inUse = false ∧
      (acquireRecord parseUrl connectionId record windows now).1.inUse = true ∧
      (acquireRecord parseUrl connectionId record windows now).1.id = record.id ∧
      ∃ lease, (acquireRecord parseUrl connectionId record windows now).2.2 = .ok lease ∧
        lease.id = record.id) := by
  have hrec := healthOnly_reconcileTimedState record (.fromMetadata record.metadata) now
  simp only [acquireRecord]
  generalize reconcileTimedState record (.fromMetadata record.metadata) now = r at hrec
  split
  · exact .inl ⟨_, rfl, hrec⟩
  · rename_i hfree
    have hfree : r.inUse = false := by simpa using hfree
    split
    · refine .inl ⟨_, rfl, hrec.trans ?_⟩
      have hinvalid := healthOnly_markInvalid r now ‹_›
      obtain ⟨health, hr⟩ := hinvalid
      exact ⟨health, by rw [hr, ← hfree]⟩
    · split
      · exact .inl ⟨_, rfl, hrec⟩
      · split
        · exact .inl ⟨_, rfl, hrec⟩
        · split
          · exact .inl ⟨_, rfl, hrec.trans ⟨_, rfl⟩⟩
          · exact .inr ⟨hrec.inUse.symm.trans hfree, rfl, hrec.id, _, rfl, hrec.id⟩

end Acquire

/-- An operation either changes the health alone, or clears the flag too. -/
theorem HealthOp.frame (op : HealthOp) (now : ℤ) (record : ConnectionRecord) :
    (op.apply now record).id = record.id ∧
      (op.apply now record).inUse = if op.clears then false else record.inUse := by
  have of_healthOnly : ∀ {r : ConnectionRecord}, HealthOnly record r →
      r.id = record.id ∧ r.inUse = record.inUse := fun h => ⟨h.id, h.inUse⟩
  cases op with
  | recordConnectSuccess diagnosis latencyMs =>
      exact of_healthOnly (healthOnly_recordConnectSuccess _ _ _ _)
  | recordHeartbeat diagnosis => exact of_healthOnly (healthOnly_recordHeartbeat _ _ _)
  | recordConnectFailure reason => exact of_healthOnly (healthOnly_applyRuntimeFailure _ _ _ _ _)
  | recordTimeout reason => exact of_healthOnly (healthOnly_applyRuntimeFailure _ _ _ _ _)
  | markInvalidConfiguration reason =>
      have h := healthOnly_markInvalid record now reason
      exact ⟨h.id, h.inUse⟩
  | markDisconnected diagnosis =>
      have h := healthOnly_markDisconnected record now diagnosis
      exact ⟨h.id, h.inUse⟩
  | resetCircuitBreaker => exact of_healthOnly (healthOnly_resetCircuitBreaker _ _)
  | get => exact of_healthOnly (healthOnly_reconcileTimedState _ _ _)

theorem SweepOp.frame (op : SweepOp) (now : ℤ) (record : ConnectionRecord) :
    (op.apply now record).id = record.id ∧
      (op.apply now record).inUse = if op.clears then false else record.inUse := by
  cases op with
  | list =>
      have h := healthOnly_reconcileTimedState record (.fromMetadata record.metadata) now
      exact ⟨h.id, h.inUse⟩
  | markAllIdle diagnosis startedAt =>
      have h := healthOnly_markIdle record startedAt diagnosis
      exact ⟨h.id, h.inUse⟩

/-- The calls that write the map. -/
def Call.declares : Call → Bool
  | upsert _ | upsertMany _ _ | replaceAll _ => true
  | _ => false

/-- The calls that neither write the map nor reset a queue. -/
def Call.borrows : Call → Bool
  | acquire _ _ | health _ _ | sweep _ _ => true
  | _ => false

/-- The definitions that an action declares. -/
def PoolAction.definitions : PoolAction → List ConnectionDefinition
  | register definition | upsert definition => [definition]
  | upsertMany definitions | replaceAll definitions => definitions
  | _ => []

/-- The definitions that a call is about to declare. -/
def Call.definitions : Call → List ConnectionDefinition
  | upsert definition => [definition]
  | upsertMany definitions _ | replaceAll definitions => definitions
  | _ => []

/-- The actions that lock a record. -/
def PoolAction.locks : PoolAction → Bool
  | resume _ _ | dropGuard _ _ => true
  | _ => false

/-- The calls whose next lock is not that of a record. -/
def Call.ends : Call → Bool
  | acquire _ _ | health _ _ | sweep _ (_ :: _) => false
  | _ => true

theorem Call.ends_of_declares {call : Call} (h : call.declares = true) :
    call.ends = true ∧ call.borrows = false := by
  cases call with
  | upsert definition => exact ⟨rfl, rfl⟩
  | upsertMany definitions active => exact ⟨rfl, rfl⟩
  | replaceAll definitions => exact ⟨rfl, rfl⟩
  | _ => cases h

namespace Pool

/-! ## Steps -/

/-- The record the call `i` is about to clear the flag of. -/
def clearsAt (pool : Pool) (i : ℕ) : Option ℕ :=
  match pool.calls[i]? with
  | some (.health op h) => if op.clears then some h else none
  | some (.sweep op (h :: _)) => if op.clears then some h else none
  | _ => none

/-- The connection and the record of each live guard. -/
def holdings (pool : Pool) : List (String × ℕ) :=
  pool.guards.map fun guard => (guard.lease.id, guard.record)

/-- The step writes the map of the pool. -/
def declaresAt (pool : Pool) : PoolAction → Bool
  | .resume i _ => (pool.calls[i]?).any Call.declares
  | a => a.declares

/-- Records are added, and the map may point to them. -/
structure Grows (pool pool' : Pool) : Prop where
  heap_prefix : pool.heap <+: pool'.heap
  lookup_named : ∀ id h, pool'.connections.lookup id = some h →
    pool.connections.lookup id = some h ∨ ∃ r, pool'.heap[h]? = some r ∧ r.id = id
  guards_eq : pool'.guards = pool.guards

/-- Records are added, and the map is changed where it has no lent record. -/
structure Declares (pool pool' : Pool) : Prop extends Grows pool pool' where
  lookup_lent : ∀ id, pool.lent id = true →
    pool'.connections.lookup id = pool.connections.lookup id

/-- Records made from some of the definitions are added. -/
structure Adds (parseUrl : UrlParser) (definitions : List ConnectionDefinition)
    (pool pool' : Pool) : Prop where
  heap : ∃ added ⊆ definitions, pool'.heap = pool.heap ++ added.map (buildRecord parseUrl)
  guards : pool'.guards = pool.guards
  calls : pool'.calls = pool.calls

/-- A new call does not write the map unless the action does, and if it is an acquire
then of the record the map has. -/
def Fresh (pool : Pool) (a : PoolAction) (call : Call) : Prop :=
  (call.declares = true → a.declares = true) ∧
    ∀ id h, call = .acquire id h → pool.connections.lookup id = some h

/-- The guard that an acquire of a record hands out, if it does. -/
def lentBy (h : ℕ) : Except EngineError ConnectionLease → List ConnectionGuard
  | .ok lease => [⟨lease, h, .pending⟩]
  | .error _ => []

/-- The kinds of steps. -/
inductive Move (parseUrl : UrlParser) (pool : Pool) : PoolAction → Pool → Prop
  /-- Nothing is found or declared, or a session is opened or closed. -/
  | idle {a} (sharedSessions : List String) (ha : a.locks = false) :
      Move parseUrl pool a { pool with sharedSessions }
  /-- An operation goes on to its lock. -/
  | begins {a call} (ha : a.locks = false) (hfresh : pool.Fresh a call)
      (hkind : call.borrows = true ∨ call.declares = true)
      (hvalid : ∀ d ∈ call.definitions, d ∈ a.definitions ∧ valid parseUrl d = true) :
      Move parseUrl pool a (pool.beginCall call)
  | marks {a i guard} (outcome : ConnectionOutcome) (ha : a.locks = false)
      (hguard : pool.guards[i]? = some guard) :
      Move parseUrl pool a { pool with guards := pool.guards.set i { guard with outcome } }
  | drops {i now guard r} (hguard : pool.guards[i]? = some guard)
      (hr : pool.heap[guard.record]? = some r) :
      Move parseUrl pool (.dropGuard i now)
        { pool.setRecord guard.record
            (finalizeRelease r guard.lease.borrowedAt guard.outcome now) with
          guards := pool.guards.eraseIdx i }
  | registers {definition} (hnew : pool.connections.lookup definition.id = none)
      (hvalid : valid parseUrl definition = true) :
      Move parseUrl pool (.register definition)
        ((pool.insertRecord parseUrl definition).beginCall (.resetAttemptWindow definition.id))
  | acquires {i now id h r} (hcall : pool.calls[i]? = some (.acquire id h))
      (hr : pool.heap[h]? = some r) :
      Move parseUrl pool (.resume i now)
        { (pool.setRecord h
            (acquireRecord parseUrl id r pool.attemptWindows now).1).endCall i with
          attemptWindows := (acquireRecord parseUrl id r pool.attemptWindows now).2.1
          guards := pool.guards ++
            lentBy h (acquireRecord parseUrl id r pool.attemptWindows now).2.2 }
  | checks {i now op h r} (hcall : pool.calls[i]? = some (.health op h))
      (hr : pool.heap[h]? = some r) :
      Move parseUrl pool (.resume i now) ((pool.setRecord h (op.apply now r)).endCall i)
  | visits {i now op h rest r} (hcall : pool.calls[i]? = some (.sweep op (h :: rest)))
      (hr : pool.heap[h]? = some r) :
      Move parseUrl pool (.resume i now)
        ((pool.setRecord h (op.apply now r)).setCall i (.sweep op rest))
  /-- The map is written, and the queues are reset next. -/
  | declares {i now call reset pool'} (hcall : pool.calls[i]? = some call)
      (hdecl : call.declares = true) (hadds : pool.Adds parseUrl call.definitions pool')
      (hdeclares : pool.Declares pool') (hreset : (reset.ends && !reset.declares) = true) :
      Move parseUrl pool (.resume i now) (pool'.setCall i reset)
  /-- A call is over, and may have reset the queues. -/
  | ends {i now call} (windows : AttemptWindows) (hcall : pool.calls[i]? = some call)
      (hends : call.ends = true) (hkept : call.borrows = true → windows = pool.attemptWindows) :
      Move parseUrl pool (.resume i now)
        { pool with calls := pool.calls.eraseIdx i, attemptWindows := windows }

/-- What a step does to records, map and guards. -/
inductive Effect (pool : Pool) : PoolAction → Pool → Prop
  /-- Nothing, or marks on a guard. -/
  | kept {a pool'} : pool'.heap = pool.heap → pool'.connections = pool.connections →
      pool'.holdings = pool.holdings → Effect pool a pool'
  /-- A record changes, but neither its name nor its flag. -/
  | changed {a pool' h r r'} : pool.heap[h]? = some r → r'.id = r.id → r'.inUse = r.inUse →
      pool'.heap = pool.heap.set h r' → pool'.connections = pool.connections →
      pool'.holdings = pool.holdings → Effect pool a pool'
  /-- The flag of a record is cleared. -/
  | cleared {i now pool' h r r'} : pool.clearsAt i = some h → pool.heap[h]? = some r →
      r'.id = r.id → pool'.heap = pool.heap.set h r' → pool'.connections = pool.connections →
      pool'.holdings = pool.holdings → Effect pool (.resume i now) pool'
  /-- A free record is lent. -/
  | lentOut {i now pool' id h r r'} : pool.calls[i]? = some (.acquire id h) →
      pool.heap[h]? = some r → r.inUse = false → r'.id = r.id → r'.inUse = true →
      pool'.heap = pool.heap.set h r' → pool'.connections = pool.connections →
      pool'.holdings = pool.holdings ++ [(r.id, h)] → Effect pool (.resume i now) pool'
  /-- A guard is dropped. -/
  | released {a pool' i id h r r'} : pool.holdings[i]? = some (id, h) →
      pool.heap[h]? = some r → r'.id = r.id → pool'.heap = pool.heap.set h r' →
      pool'.connections = pool.connections → pool'.holdings = pool.holdings.eraseIdx i →
      Effect pool a pool'
  /-- Connections are declared. -/
  | declared {a pool'} : pool.declaresAt a = true → pool.Declares pool' → Effect pool a pool'

/-! ## Declarations -/

variable {pool pool' pool'' : Pool}

theorem lent_eq_true {id : String} : pool.lent id = true ↔
    ∃ h r, pool.connections.lookup id = some h ∧ pool.heap[h]? = some r ∧ r.inUse = true := by
  simp only [lent, Option.any_eq_true, Option.bind_eq_some_iff]
  constructor
  · rintro ⟨r, ⟨h, hh, hr⟩, huse⟩
    exact ⟨h, r, hh, hr, huse⟩
  · rintro ⟨h, r, hh, hr, huse⟩
    exact ⟨r, ⟨h, hh, hr⟩, huse⟩

theorem getElem?_of_prefix {heap heap' : List ConnectionRecord} {h : ℕ} {r : ConnectionRecord}
    (hp : heap <+: heap') (hr : heap[h]? = some r) : heap'[h]? = some r := by
  obtain ⟨hlt, rfl⟩ := List.getElem?_eq_some_iff.mp hr
  have hlt' : h < heap'.length := Nat.lt_of_lt_of_le hlt hp.length_le
  rw [List.getElem?_eq_getElem hlt', hp.getElem hlt]

theorem Grows.refl (pool : Pool) : pool.Grows pool :=
  ⟨List.prefix_refl _, fun _ _ h => .inl h, rfl⟩

theorem Grows.trans (h : pool.Grows pool') (h' : pool'.Grows pool'') : pool.Grows pool'' where
  heap_prefix := h.heap_prefix.trans h'.heap_prefix
  lookup_named id k hk := by
    rcases h'.lookup_named id k hk with hk' | hnew
    · rcases h.lookup_named id k hk' with hold | ⟨r, hr, hid⟩
      · exact .inl hold
      · exact .inr ⟨r, getElem?_of_prefix h'.heap_prefix hr, hid⟩
    · exact .inr hnew
  guards_eq := h'.guards_eq.trans h.guards_eq

theorem Declares.refl (pool : Pool) : pool.Declares pool := ⟨.refl pool, fun _ _ => rfl⟩

/-- What is lent stays lent over a declaration. -/
theorem Declares.lent {id : String} (h : pool.Declares pool') (hl : pool.lent id = true) :
    pool'.lent id = true := by
  obtain ⟨k, r, hk, hr, huse⟩ := lent_eq_true.mp hl
  apply lent_eq_true.mpr
  exact ⟨k, r, (h.lookup_lent id hl).trans hk, getElem?_of_prefix h.heap_prefix hr, huse⟩

theorem Declares.trans (h : pool.Declares pool') (h' : pool'.Declares pool'') :
    pool.Declares pool'' where
  toGrows := h.toGrows.trans h'.toGrows
  lookup_lent id hl := (h'.lookup_lent id (h.lent hl)).trans (h.lookup_lent id hl)

/-- A declaration is about the heap, the map and the guards alone. -/
theorem Declares.of_eq (h : pool.Declares pool') (hheap : pool''.heap = pool'.heap)
    (hmap : pool''.connections = pool'.connections) (hguards : pool''.guards = pool'.guards) :
    pool.Declares pool'' where
  heap_prefix := hheap ▸ h.heap_prefix
  lookup_named := by
    rw [hheap, hmap]
    exact h.lookup_named
  guards_eq := hguards.trans h.guards_eq
  lookup_lent := hmap ▸ h.lookup_lent

variable {parseUrl : UrlParser}

theorem grows_insertRecord (pool : Pool) (definition : ConnectionDefinition) :
    pool.Grows (pool.insertRecord parseUrl definition) where
  heap_prefix := List.prefix_append _ _
  lookup_named id k hk := by
    by_cases hid : id = definition.id
    · subst hid
      simp only [insertRecord, AList.lookup_insert, Option.some.injEq] at hk
      have hname := (healthOnly_buildRecord parseUrl definition).id
      refine .inr ⟨buildRecord parseUrl definition, ?_, hname⟩
      simp [insertRecord, ← hk]
    · rw [insertRecord, AList.lookup_insert_ne hid] at hk
      exact .inl hk
  guards_eq := rfl

theorem declares_insertRecord {definition : ConnectionDefinition}
    (hfree : pool.lent definition.id = false) :
    pool.Declares (pool.insertRecord parseUrl definition) where
  toGrows := grows_insertRecord pool definition
  lookup_lent id hl := by
    have hne : id ≠ definition.id := by
      intro hid
      rw [hid, hfree] at hl
      cases hl
    exact AList.lookup_insert_ne hne

theorem declares_insertUnlent (activeSessionIds : List String)
    (definitions : List ConnectionDefinition) (pool : Pool) :
    pool.Declares (pool.insertUnlent parseUrl activeSessionIds definitions) := by
  induction definitions generalizing pool with
  | nil => exact .refl pool
  | cons definition rest ih =>
      rw [insertUnlent]
      split
      · exact ih pool
      · rename_i hskip
        have hfree : pool.lent definition.id = false := by
          simp only [Bool.or_eq_true, not_or, Bool.not_eq_true] at hskip
          exact hskip.1
        exact (declares_insertRecord hfree).trans (ih _)

theorem grows_foldl_insertRecord (definitions : List ConnectionDefinition) (pool : Pool) :
    pool.Grows (definitions.foldl (insertRecord parseUrl) pool) := by
  induction definitions generalizing pool with
  | nil => exact .refl pool
  | cons definition rest ih => exact (grows_insertRecord pool definition).trans (ih _)

/-- Where nothing is lent, the map may be thrown away. -/
theorem declares_replace (pool : Pool) (parseUrl : UrlParser)
    (hfree : pool.connections.keys.any pool.lent = false)
    (definitions : List ConnectionDefinition) :
    pool.Declares (definitions.foldl (insertRecord parseUrl) { pool with connections := ∅ }) where
  toGrows := by
    have hempty : pool.Grows { pool with connections := ∅ } :=
      ⟨List.prefix_refl _, fun id k hk => by simp at hk, rfl⟩
    exact hempty.trans (grows_foldl_insertRecord definitions _)
  lookup_lent id hl := by
    obtain ⟨k, r, hk, -⟩ := lent_eq_true.mp hl
    have hmem : id ∈ pool.connections.keys := by
      rw [← AList.mem_keys, ← AList.lookup_isSome, hk]
      rfl
    rw [List.any_eq_false] at hfree
    exact absurd hl (hfree id hmem)

/-! ## Records that are added -/

theorem Adds.refl {definitions : List ConnectionDefinition} :
    pool.Adds parseUrl definitions pool :=
  ⟨⟨[], List.nil_subset _, (List.append_nil _).symm⟩, rfl, rfl⟩

theorem Adds.insert {definition : ConnectionDefinition} {definitions : List ConnectionDefinition}
    (hmem : definition ∈ definitions)
    (h : (pool.insertRecord parseUrl definition).Adds parseUrl definitions pool') :
    pool.Adds parseUrl definitions pool' := by
  obtain ⟨⟨added, hsub, hheap⟩, hguards, hcalls⟩ := h
  refine ⟨⟨definition :: added, List.cons_subset.mpr ⟨hmem, hsub⟩, ?_⟩, hguards, hcalls⟩
  rw [hheap, insertRecord, List.append_assoc]
  rfl

theorem adds_insertRecord (pool : Pool) (definition : ConnectionDefinition) :
    pool.Adds parseUrl [definition] (pool.insertRecord parseUrl definition) :=
  .insert (List.mem_singleton_self definition) .refl

theorem adds_insertUnlent (active : List String) {rest definitions : List ConnectionDefinition}
    (hsub : rest ⊆ definitions) (pool : Pool) :
    pool.Adds parseUrl definitions (pool.insertUnlent parseUrl active rest) := by
  induction rest generalizing pool with
  | nil => exact .refl
  | cons definition rest ih =>
      obtain ⟨hmem, hrest⟩ := List.cons_subset.mp hsub
      rw [insertUnlent]
      split
      · exact ih hrest pool
      · exact (ih hrest _).insert hmem

theorem adds_foldl_insertRecord {rest definitions : List ConnectionDefinition}
    (hsub : rest ⊆ definitions) (pool : Pool) :
    pool.Adds parseUrl definitions (rest.foldl (insertRecord parseUrl) pool) := by
  induction rest generalizing pool with
  | nil => exact .refl
  | cons definition rest ih =>
      obtain ⟨hmem, hrest⟩ := List.cons_subset.mp hsub
      exact (ih hrest _).insert hmem

theorem Adds.getElem? {definitions : List ConnectionDefinition} {h : ℕ} {r : ConnectionRecord}
    (hadds : pool.Adds parseUrl definitions pool') (hr : pool.heap[h]? = some r) :
    pool'.heap[h]? = some r := by
  obtain ⟨added, -, hheap⟩ := hadds.heap
  rw [hheap]
  exact getElem?_of_prefix (List.prefix_append _ _) hr

/-! ## The kinds of steps -/

theorem Fresh.of_plain {a : PoolAction} {call : Call} (hdecl : call.declares = false)
    (hacquire : ∀ id h, call ≠ .acquire id h) : pool.Fresh a call :=
  ⟨fun h => by simp [hdecl] at h, fun id h hcall => absurd hcall (hacquire id h)⟩

theorem resume_move {i : ℕ} {now : ℤ} (hs : pool.resume parseUrl i now = some pool') :
    pool.Move parseUrl (.resume i now) pool' := by
  rw [resume] at hs
  split at hs
  · cases hs
  · -- `acquire` locks its record
    rename_i id h hcall
    split at hs
    · cases hs
    · rename_i r hr
      have hmove : pool.Move parseUrl (.resume i now) _ := .acquires hcall hr
      cases hresult : (acquireRecord parseUrl id r pool.attemptWindows now).2.2 with
      | error e =>
          simp only [hresult, Option.some.injEq] at hs
          rw [hresult, lentBy, List.append_nil] at hmove
          exact hs ▸ hmove
      | ok lease =>
          simp only [hresult, Option.some.injEq] at hs
          rw [hresult] at hmove
          exact hs ▸ hmove
  · split at hs
    · cases hs
    · cases hs
      exact .checks ‹_› ‹_›
  · cases hs
    exact .ends _ ‹_› rfl fun _ => rfl
  · split at hs
    · cases hs
    · cases hs
      exact .visits ‹_› ‹_›
  · -- `upsert_connection` looks again whether the record is lent
    rename_i definition hcall
    split at hs
    · cases hs
      exact .ends _ hcall rfl fun _ => rfl
    · rename_i hfree
      cases hs
      exact .declares hcall rfl (adds_insertRecord pool definition)
        (declares_insertRecord (by simpa using hfree)) rfl
  · rename_i definitions active hcall
    cases hs
    exact .declares hcall rfl (adds_insertUnlent active (List.Subset.refl _) pool)
      (declares_insertUnlent active definitions pool) rfl
  · rename_i definitions hcall
    split at hs
    · cases hs
      exact .ends _ hcall rfl fun _ => rfl
    · rename_i hfree
      cases hs
      have hadds : Adds parseUrl definitions { pool with connections := ∅ } _ :=
        adds_foldl_insertRecord (List.Subset.refl _) _
      exact .declares hcall rfl ⟨hadds.heap, hadds.guards, hadds.calls⟩
        (declares_replace pool parseUrl (by simpa using hfree) definitions) rfl
  · cases hs
    exact .ends _ ‹_› rfl (fun h => by cases h)
  · cases hs
    exact .ends _ ‹_› rfl (fun h => by cases h)

/-- A step is of one of the kinds. -/
theorem step_move {a : PoolAction} (hs : pool.step parseUrl a = some pool') :
    pool.Move parseUrl a pool' := by
  have hplain : ∀ {call : Call}, call.definitions = [] →
      ∀ d ∈ call.definitions, d ∈ a.definitions ∧ valid parseUrl d = true := by
    intro call hnil d hd
    rw [hnil] at hd
    cases hd
  cases a with
  | acquire id =>
      cases hs
      rw [lookUp]
      split
      · exact .idle _ rfl
      · refine .begins rfl ⟨fun h => h, ?_⟩ (.inl rfl) (hplain rfl)
        rintro _ _ ⟨⟩
        assumption
  | health id op =>
      cases hs
      rw [lookUp]
      split
      · exact .idle _ rfl
      · exact .begins rfl (.of_plain rfl (by simp)) (.inl rfl) (hplain rfl)
  | sweep op =>
      cases hs
      exact .begins rfl (.of_plain rfl (by simp)) (.inl rfl) (hplain rfl)
  | resume i now => exact resume_move hs
  | markSuccess i =>
      obtain ⟨guard, hguard, rfl⟩ := Option.map_eq_some_iff.mp hs
      exact .marks _ rfl hguard
  | markFailure i reason =>
      obtain ⟨guard, hguard, rfl⟩ := Option.map_eq_some_iff.mp hs
      exact .marks _ rfl hguard
  | dropGuard i now =>
      obtain ⟨guard, hguard, hmap⟩ := Option.bind_eq_some_iff.mp hs
      obtain ⟨r, hr, rfl⟩ := Option.map_eq_some_iff.mp hmap
      exact .drops hguard hr
  | register definition =>
      simp only [step] at hs
      split at hs
      · cases hs
        exact .idle _ rfl
      · rename_i hnew
        cases hs
        simp only [Bool.or_eq_true, not_or, Option.not_isSome_iff_eq_none, Bool.not_eq_true',
          Bool.not_eq_false] at hnew
        exact .registers hnew.1 hnew.2
  | upsert definition =>
      simp only [step] at hs
      split at hs
      · cases hs
        exact .idle _ rfl
      · rename_i hnew
        cases hs
        refine .begins rfl ⟨fun _ => rfl, by simp⟩ (.inr rfl) fun d hd => ⟨hd, ?_⟩
        obtain rfl := List.mem_singleton.mp hd
        by_contra hinvalid
        exact hnew (by simp [hinvalid])
  | upsertMany definitions =>
      simp only [step] at hs
      split at hs
      · rename_i hvalid
        cases hs
        exact .begins rfl ⟨fun _ => rfl, by simp⟩ (.inr rfl) fun d hd =>
          ⟨hd, List.all_eq_true.mp hvalid d hd⟩
      · cases hs
        exact .idle _ rfl
  | replaceAll definitions =>
      simp only [step] at hs
      split at hs
      · rename_i hvalid
        cases hs
        rw [Bool.and_eq_true] at hvalid
        exact .begins rfl ⟨fun _ => rfl, by simp⟩ (.inr rfl) fun d hd =>
          ⟨hd, List.all_eq_true.mp hvalid.2 d hd⟩
      · cases hs
        exact .idle _ rfl
  | session id opened =>
      cases hs
      exact .idle _ rfl

/-! ## What a step does -/

theorem holdings_set {i : ℕ} {guard : ConnectionGuard} (hg : pool.guards[i]? = some guard)
    (outcome : ConnectionOutcome) :
    ({ pool with guards := pool.guards.set i { guard with outcome } } : Pool).holdings =
      pool.holdings := by
  obtain ⟨hlt, rfl⟩ := List.getElem?_eq_some_iff.mp hg
  simp only [holdings, List.map_set]
  apply List.ext_getElem (by simp)
  intro k hk hk'
  rw [List.getElem_set]
  split
  · simp_all
  · rfl

/-- An operation on a record changes its health, and may clear its flag. -/
theorem effect_of_frame {i h : ℕ} {now : ℤ} {r r' : ConnectionRecord} {clears : Bool}
    (hr : pool.heap[h]? = some r) (hid : r'.id = r.id)
    (huse : r'.inUse = if clears then false else r.inUse)
    (hclears : clears = true → pool.clearsAt i = some h) (hheap : pool'.heap = pool.heap.set h r')
    (hmap : pool'.connections = pool.connections) (hheld : pool'.holdings = pool.holdings) :
    pool.Effect (.resume i now) pool' := by
  cases clears with
  | true => exact .cleared (hclears rfl) hr hid hheap hmap hheld
  | false => exact .changed hr hid huse hheap hmap hheld

/-- Every step has one of the effects. -/
theorem step_effect {a : PoolAction} (hs : pool.step parseUrl a = some pool') :
    pool.Effect a pool' := by
  cases step_move hs with
  | idle _ ha => exact .kept rfl rfl rfl
  | begins ha hfresh hkind hvalid => exact .kept rfl rfl rfl
  | marks outcome ha hguard => exact .kept rfl rfl (holdings_set hguard _)
  | @drops i now guard r hguard hr =>
      have hname := (healthOnly_finalizeRelease r now guard.lease.borrowedAt guard.outcome).id
      have hheld : pool.holdings[i]? = some (guard.lease.id, guard.record) := by
        simp [holdings, hguard]
      exact .released hheld hr hname rfl rfl (List.eraseIdx_map _ _ _).symm
  | @registers definition hnew hvalid =>
      have hdecl : pool.Declares (pool.insertRecord parseUrl definition) :=
        declares_insertRecord (by simp [lent, hnew])
      exact .declared rfl (hdecl.of_eq rfl rfl rfl)
  | @acquires i now id h r hcall hr =>
      rcases acquireRecord_cases parseUrl id r pool.attemptWindows now with
        ⟨e, he, hhealth⟩ | ⟨hfree, huse, hid, lease, hlease, hname⟩
      · refine .changed hr hhealth.id hhealth.inUse rfl rfl ?_
        simp [holdings, he, lentBy]
      · refine .lentOut hcall hr hfree hid huse rfl rfl ?_
        simp [holdings, hlease, lentBy, hname]
  | @checks i now op h r hcall hr =>
      obtain ⟨hid, huse⟩ := op.frame now r
      exact effect_of_frame hr hid huse (fun hclear => by simp [clearsAt, hcall, hclear]) rfl rfl rfl
  | @visits i now op h rest r hcall hr =>
      obtain ⟨hid, huse⟩ := op.frame now r
      exact effect_of_frame hr hid huse (fun hclear => by simp [clearsAt, hcall, hclear]) rfl rfl rfl
  | declares hcall hdecl hadds hdeclares hreset =>
      exact .declared (by simp [declaresAt, hcall, hdecl]) (hdeclares.of_eq rfl rfl rfl)
  | ends windows hcall hends hkept => exact .kept rfl rfl rfl

theorem Fresh.of_ends {a : PoolAction} {call : Call} (h : (call.ends && !call.declares) = true) :
    pool.Fresh a call := by
  rw [Bool.and_eq_true, Bool.not_eq_true'] at h
  refine .of_plain h.2 ?_
  rintro id k rfl
  cases h.1

theorem mem_calls_of_step {a : PoolAction} {call : Call}
    (hs : pool.step parseUrl a = some pool') (hcall : call ∈ pool'.calls) :
    call ∈ pool.calls ∨ pool.Fresh a call := by
  have hadded : ∀ {call' : Call}, call ∈ pool.calls ++ [call'] → pool.Fresh a call' →
      call ∈ pool.calls ∨ pool.Fresh a call := by
    intro call' hmem hfresh
    rcases List.mem_append.mp hmem with hold | hnew
    · exact .inl hold
    · exact .inr (List.mem_singleton.mp hnew ▸ hfresh)
  have hset : ∀ {i : ℕ} {call' : Call}, call ∈ pool.calls.set i call' → pool.Fresh a call' →
      call ∈ pool.calls ∨ pool.Fresh a call := by
    intro i call' hmem hfresh
    rcases List.mem_or_eq_of_mem_set hmem with hold | rfl
    · exact .inl hold
    · exact .inr hfresh
  cases step_move hs with
  | idle _ ha => exact .inl hcall
  | begins ha hfresh hkind hvalid => exact hadded hcall hfresh
  | marks outcome ha hguard => exact .inl hcall
  | drops hguard hr => exact .inl hcall
  | registers hnew hvalid => exact hadded hcall (.of_ends rfl)
  | acquires hacquire hr => exact .inl (List.mem_of_mem_eraseIdx hcall)
  | checks hhealth hr => exact .inl (List.mem_of_mem_eraseIdx hcall)
  | visits hsweep hr => exact hset hcall (.of_plain rfl (by simp))
  | declares hold hdecl hadds hdeclares hreset =>
      rw [setCall, hadds.calls] at hcall
      exact hset hcall (.of_ends hreset)
  | ends windows hold hends hkept => exact .inl (List.mem_of_mem_eraseIdx hcall)

end Pool
end Nazh
