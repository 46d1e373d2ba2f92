import Nazh.Connections.Effect

/-!
# Exclusive borrowing

A guard refers to a record, and the record's flag `inUse` says that it is lent. The
pool keeps borrowing exclusive as long as the two agree and the map still has the
record the guard refers to. Each can be broken in one way:

* `markDisconnected`, `markInvalidConfiguration` and `markAllIdle` clear the flag of a
  record whether or not a guard on it is alive (`sparesLent` says that none does);
* a declaration replaces a record between the lookup and the lock of an `acquire`,
  which then lends a record the map no longer has (`locksMapped` says that none does).
-/

namespace Nazh

open Lib

namespace Pool

/-- No flag is cleared in this step while a guard on the record is alive. -/
def sparesLent (pool : Pool) : PoolAction → Bool
  | .resume i _ => match pool.clearsAt i with
    | some h => !pool.guards.any fun guard => guard.record == h
    | none => true
  | _ => true

/-- An acquire that locks its record in this step finds it still in the map. -/
def locksMapped (pool : Pool) : PoolAction → Bool
  | .resume i _ => match pool.calls[i]? with
    | some (.acquire connectionId h) => pool.connections.lookup connectionId == some h
    | _ => true
  | _ => true

variable {pool pool' : Pool} {parseUrl : UrlParser}

/-! ## The invariant -/

/-- The heap has a record of the connection at this position. -/
def Names (pool : Pool) (id : String) (h : ℕ) : Prop :=
  ∃ r, pool.heap[h]? = some r ∧ r.id = id

/-- The guards and the flags agree, and the map still has what is lent. -/
structure Exclusive (pool : Pool) : Prop where
  mapped_named : ∀ id h, pool.connections.lookup id = some h → pool.Names id h
  awaited_named : ∀ id h, Call.acquire id h ∈ pool.calls → pool.Names id h
  held_mapped : ∀ id h, (id, h) ∈ pool.holdings → pool.connections.lookup id = some h
  held_inUse : ∀ id h, (id, h) ∈ pool.holdings → ∃ r, pool.heap[h]? = some r ∧ r.inUse = true
  distinct : (pool.holdings.map Prod.snd).Nodup

theorem AtRest.exclusive (h : pool.AtRest) : pool.Exclusive where
  mapped_named := h.named
  awaited_named id k hk := by simp [h.calls_none] at hk
  held_mapped id k hk := by simp [holdings, h.guards_none] at hk
  held_inUse id k hk := by simp [holdings, h.guards_none] at hk
  distinct := by simp [holdings, h.guards_none]

/-- A record keeps its name when it is written. -/
theorem Names.set {id : String} {h k : ℕ} {r r' : ConnectionRecord} (hn : pool.Names id h)
    (hr : pool.heap[k]? = some r) (hid : r'.id = r.id)
    (hheap : pool'.heap = pool.heap.set k r') : pool'.Names id h := by
  obtain ⟨r₀, hr₀, rfl⟩ := hn
  rw [Names, hheap]
  by_cases hk : k = h
  · subst hk
    obtain ⟨hlt, rfl⟩ := List.getElem?_eq_some_iff.mp hr
    obtain rfl : pool.heap[k] = r₀ := by
      rw [List.getElem?_eq_getElem hlt] at hr₀
      exact Option.some.inj hr₀
    exact ⟨r', by simp [hlt], hid⟩
  · exact ⟨r₀, by rw [List.getElem?_set_ne hk]; exact hr₀, rfl⟩

/-- Names stay over every step. -/
theorem Effect.names {a : PoolAction} {id : String} {h : ℕ} (he : pool.Effect a pool')
    (hn : pool.Names id h) : pool'.Names id h := by
  cases he with
  | kept hheap =>
      rw [Names, hheap]
      exact hn
  | changed hr hid _ hheap => exact hn.set hr hid hheap
  | cleared _ hr hid hheap => exact hn.set hr hid hheap
  | lentOut _ hr _ hid _ hheap => exact hn.set hr hid hheap
  | released _ hr hid hheap => exact hn.set hr hid hheap
  | declared _ hdecl =>
      obtain ⟨r, hr, hid⟩ := hn
      exact ⟨r, getElem?_of_prefix hdecl.heap_prefix hr, hid⟩

/-- The map changes by declarations alone. -/
theorem Effect.connections_eq {a : PoolAction} (he : pool.Effect a pool')
    (ha : pool.declaresAt a = false) : pool'.connections = pool.connections := by
  cases he with
  | kept _ hmap => exact hmap
  | changed _ _ _ _ hmap => exact hmap
  | cleared _ _ _ _ hmap => exact hmap
  | lentOut _ _ _ _ _ _ hmap => exact hmap
  | released _ _ _ _ hmap => exact hmap
  | declared hdecl =>
      rw [ha] at hdecl
      cases hdecl

/-- What the map has after a step, it had before, or it is a record of that name. -/
theorem Effect.lookup_named {a : PoolAction} {id : String} {h : ℕ} (he : pool.Effect a pool')
    (hmap : pool'.connections.lookup id = some h) :
    pool.connections.lookup id = some h ∨ pool'.Names id h := by
  by_cases ha : pool.declaresAt a = false
  · rw [he.connections_eq ha] at hmap
    exact .inl hmap
  · cases he with
    | declared _ hdecl => exact hdecl.lookup_named id h hmap
    | kept _ hm => exact .inl (hm ▸ hmap)
    | changed _ _ _ _ hm => exact .inl (hm ▸ hmap)
    | cleared _ _ _ _ hm => exact .inl (hm ▸ hmap)
    | lentOut _ _ _ _ _ _ hm => exact .inl (hm ▸ hmap)
    | released _ _ _ _ hm => exact .inl (hm ▸ hmap)

/-- No guard is on the record whose flag is cleared. -/
theorem ne_of_sparesLent {i : ℕ} {now : ℤ} {id : String} {h k : ℕ}
    (hspare : pool.sparesLent (.resume i now) = true) (hclear : pool.clearsAt i = some k)
    (hheld : (id, h) ∈ pool.holdings) : k ≠ h := by
  obtain ⟨guard, hguard, hpair⟩ := List.mem_map.mp hheld
  have hrec : guard.record = h := congrArg Prod.snd hpair
  simp only [sparesLent, hclear, Bool.not_eq_true', List.any_eq_false, beq_iff_eq] at hspare
  intro hk
  exact hspare guard hguard (hrec.trans hk.symm)

/-- The record of a dropped guard is not the record of another. -/
theorem Exclusive.ne_of_released (hi : pool.Exclusive) {i : ℕ} {id id' : String} {h k : ℕ}
    (hdrop : pool.holdings[i]? = some (id', k)) (hheld : (id, h) ∈ pool.holdings.eraseIdx i) :
    k ≠ h := by
  obtain ⟨j, hij, hj⟩ := List.mem_eraseIdx_iff_getElem?.mp hheld
  rintro rfl
  have hsnd : (pool.holdings.map Prod.snd)[j]? = (pool.holdings.map Prod.snd)[i]? := by
    simp [hj, hdrop]
  obtain ⟨hlt, -⟩ := List.getElem?_eq_some_iff.mp hj
  exact hij ((List.getElem?_inj (by simpa using hlt) hi.distinct).mp hsnd)

/-- A record that is free is under no guard. -/
theorem Exclusive.ne_of_free (hi : pool.Exclusive) {id : String} {h k : ℕ} {r : ConnectionRecord}
    (hr : pool.heap[k]? = some r) (hfree : r.inUse = false) (hheld : (id, h) ∈ pool.holdings) :
    k ≠ h := by
  rintro rfl
  obtain ⟨r₀, hr₀, huse⟩ := hi.held_inUse id k hheld
  obtain rfl : r = r₀ := Option.some.inj (hr.symm.trans hr₀)
  rw [hfree] at huse
  cases huse

/-- A write elsewhere does not touch the flag. -/
theorem inUse_set_ne {h k : ℕ} {r' : ConnectionRecord} (hne : k ≠ h)
    (hheap : pool'.heap = pool.heap.set k r')
    (huse : ∃ r, pool.heap[h]? = some r ∧ r.inUse = true) :
    ∃ r, pool'.heap[h]? = some r ∧ r.inUse = true := by
  rw [hheap, List.getElem?_set_ne hne]
  exact huse

/-- A record that the map has and that is lent stays both over a declaration. -/
theorem Declares.lookup_of_inUse {id : String} {h : ℕ} (hdecl : pool.Declares pool')
    (hmap : pool.connections.lookup id = some h)
    (huse : ∃ r, pool.heap[h]? = some r ∧ r.inUse = true) :
    pool'.connections.lookup id = some h := by
  obtain ⟨r, hr, hlent⟩ := huse
  have hl : pool.lent id = true := lent_eq_true.mpr ⟨h, r, hmap, hr, hlent⟩
  exact (hdecl.lookup_lent id hl).trans hmap

/-- Where the guards stay as they are, it is enough that the map and the flags of their
records do. -/
theorem Exclusive.of_holdings_eq (hi : pool.Exclusive)
    (hnamed : ∀ id h, pool'.connections.lookup id = some h → pool'.Names id h)
    (hawaited : ∀ id h, Call.acquire id h ∈ pool'.calls → pool'.Names id h)
    (hheld : pool'.holdings = pool.holdings)
    (hmap : ∀ id h, (id, h) ∈ pool.holdings → pool'.connections.lookup id = some h)
    (huse : ∀ id h, (id, h) ∈ pool.holdings → ∃ r, pool'.heap[h]? = some r ∧ r.inUse = true) :
    pool'.Exclusive where
  mapped_named := hnamed
  awaited_named := hawaited
  held_mapped := hheld ▸ hmap
  held_inUse := hheld ▸ huse
  distinct := hheld ▸ hi.distinct

/-- A step that spares lent records and lends mapped ones keeps borrowing exclusive. -/
theorem Exclusive.step {a : PoolAction} (hi : pool.Exclusive)
    (hs : pool.step parseUrl a = some pool') (hspare : pool.sparesLent a = true)
    (hlock : pool.locksMapped a = true) : pool'.Exclusive := by
  have he := step_effect hs
  have hnamed : ∀ id h, pool'.connections.lookup id = some h → pool'.Names id h := by
    intro id h hmap
    rcases he.lookup_named hmap with hold | hnew
    · exact he.names (hi.mapped_named id h hold)
    · exact hnew
  have hawaited : ∀ id h, Call.acquire id h ∈ pool'.calls → pool'.Names id h := by
    intro id h hcall
    rcases mem_calls_of_step hs hcall with hold | ⟨-, hnew⟩
    · exact he.names (hi.awaited_named id h hold)
    · exact he.names (hi.mapped_named id h (hnew id h rfl))
  cases he with
  | kept hheap hmap hheld =>
      apply hi.of_holdings_eq hnamed hawaited hheld
      · rw [hmap]
        exact hi.held_mapped
      · rw [hheap]
        exact hi.held_inUse
  | @changed _ _ k r r' hr _ huse hheap hmap hheld =>
      apply hi.of_holdings_eq hnamed hawaited hheld
      · rw [hmap]
        exact hi.held_mapped
      · intro id h hmem
        obtain ⟨r₀, hr₀, hlent⟩ := hi.held_inUse id h hmem
        by_cases hk : k = h
        · subst hk
          obtain ⟨hlt, -⟩ := List.getElem?_eq_some_iff.mp hr
          obtain rfl : r = r₀ := Option.some.inj (hr.symm.trans hr₀)
          exact ⟨r', by simp [hheap, hlt], huse.trans hlent⟩
        · exact inUse_set_ne hk hheap ⟨r₀, hr₀, hlent⟩
  | cleared hclear _ _ hheap hmap hheld =>
      apply hi.of_holdings_eq hnamed hawaited hheld
      · rw [hmap]
        exact hi.held_mapped
      · intro id h hmem
        exact inUse_set_ne (ne_of_sparesLent hspare hclear hmem) hheap (hi.held_inUse id h hmem)
  | @lentOut i now _ id k r r' hcall hr hfree _ huse hheap hmap hheld =>
      obtain ⟨hlt, -⟩ := List.getElem?_eq_some_iff.mp hr
      have hne : ∀ id' h, (id', h) ∈ pool.holdings → k ≠ h := fun id' h hmem =>
        hi.ne_of_free hr hfree hmem
      -- the record is the one the acquire looked up, and the map still has it
      have hmapped : pool.connections.lookup r.id = some k := by
        obtain ⟨r₀, hr₀, hid⟩ := hi.awaited_named id k (List.mem_of_getElem? hcall)
        obtain rfl : r = r₀ := Option.some.inj (hr.symm.trans hr₀)
        rw [hid]
        simpa [locksMapped, hcall] using hlock
      refine ⟨hnamed, hawaited, ?_, ?_, ?_⟩
      · rw [hheld, hmap]
        intro id' h hmem
        rcases List.mem_append.mp hmem with hold | hnew
        · exact hi.held_mapped id' h hold
        · cases List.mem_singleton.mp hnew
          exact hmapped
      · rw [hheld]
        intro id' h hmem
        rcases List.mem_append.mp hmem with hold | hnew
        · exact inUse_set_ne (hne id' h hold) hheap (hi.held_inUse id' h hold)
        · cases List.mem_singleton.mp hnew
          exact ⟨r', by simp [hheap, hlt], huse⟩
      · rw [hheld, List.map_append]
        apply List.Nodup.append hi.distinct (List.nodup_singleton k)
        intro h hmem hk
        obtain ⟨⟨id', h'⟩, hold, rfl⟩ := List.mem_map.mp hmem
        exact hne id' h' hold (List.mem_singleton.mp hk).symm
  | released hdrop hr _ hheap hmap hheld =>
      refine ⟨hnamed, hawaited, ?_, ?_, ?_⟩
      · rw [hheld, hmap]
        intro id h hmem
        exact hi.held_mapped id h (List.mem_of_mem_eraseIdx hmem)
      · rw [hheld]
        intro id h hmem
        have hold := hi.held_inUse id h (List.mem_of_mem_eraseIdx hmem)
        exact inUse_set_ne (hi.ne_of_released hdrop hmem) hheap hold
      · rw [hheld, ← List.eraseIdx_map]
        exact hi.distinct.eraseIdx _
  | declared _ hdecl =>
      have hheld : pool'.holdings = pool.holdings := by rw [holdings, hdecl.guards_eq, holdings]
      apply hi.of_holdings_eq hnamed hawaited hheld
      · intro id h hmem
        exact hdecl.lookup_of_inUse (hi.held_mapped id h hmem) (hi.held_inUse id h hmem)
      · intro id h hmem
        obtain ⟨r, hr, huse⟩ := hi.held_inUse id h hmem
        exact ⟨r, getElem?_of_prefix hdecl.heap_prefix hr, huse⟩

/-- In such runs the pool is exclusive throughout. -/
theorem exclusive_of_reaches
    (h : (machine parseUrl).ReachesUnder (fun s a => s.sparesLent a && s.locksMapped a) pool) :
    pool.Exclusive := by
  apply h.invariant (fun _ hrest => AtRest.exclusive hrest)
  intro s a s' hi hguard hs
  simp only [Bool.and_eq_true] at hguard
  exact hi.step hs hguard.1 hguard.2

/-- Two guards of one connection would be on the record the map has. -/
theorem Exclusive.ids_nodup (hi : pool.Exclusive) :
    (pool.guards.map fun guard => guard.lease.id).Nodup := by
  have hids : (pool.guards.map fun guard => guard.lease.id) = pool.holdings.map Prod.fst := by
    simp [holdings]
  rw [hids]
  have hpairs : pool.holdings.Pairwise fun p q => p.2 ≠ q.2 := List.pairwise_map.mp hi.distinct
  apply List.pairwise_map.mpr
  apply hpairs.imp_of_mem
  intro p q hp hq hne hid
  have hpmap := hi.held_mapped p.1 p.2 hp
  rw [hid, hi.held_mapped q.1 q.2 hq] at hpmap
  exact hne (Option.some.inj hpmap).symm

/-- An acquire of a connection under a guard is refused. -/
theorem Exclusive.acquire_busy (hi : pool.Exclusive) {id : String} {h : ℕ}
    {record : ConnectionRecord} {now : ℤ} {guard : ConnectionGuard} (hguard : guard ∈ pool.guards)
    (hid : guard.lease.id = id) (hmap : pool.connections.lookup id = some h)
    (hr : pool.heap[h]? = some record) :
    (acquireRecord parseUrl id record pool.attemptWindows now).2.2 =
      .error (.connectionBusy id) := by
  have hheld : (id, guard.record) ∈ pool.holdings := List.mem_map.mpr ⟨guard, hguard, by rw [hid]⟩
  have hrec : guard.record = h := by
    rw [hi.held_mapped id guard.record hheld] at hmap
    exact Option.some.inj hmap
  obtain ⟨r, hr', huse⟩ := hi.held_inUse id guard.record hheld
  rw [hrec, hr] at hr'
  obtain rfl : record = r := Option.some.inj hr'
  exact acquireRecord_busy huse

/-! ## Borrowing alone -/

/-- No call writes the map, and each acquire is of a record the map has. -/
structure Settled (pool : Pool) : Prop where
  plain : ∀ call ∈ pool.calls, call.declares = false
  awaited_mapped : ∀ id h, Call.acquire id h ∈ pool.calls → pool.connections.lookup id = some h

theorem Settled.declaresAt (hp : pool.Settled) {a : PoolAction} (ha : a.declares = false) :
    pool.declaresAt a = false := by
  cases a with
  | resume i now =>
      simp only [Pool.declaresAt, Option.any_eq_false]
      intro call hcall
      simp [hp.plain call (List.mem_of_getElem? hcall)]
  | _ => exact ha

theorem Settled.step {a : PoolAction} (hp : pool.Settled) (ha : a.declares = false)
    (hs : pool.step parseUrl a = some pool') : pool'.Settled := by
  have hmap : pool'.connections = pool.connections :=
    (step_effect hs).connections_eq (hp.declaresAt ha)
  constructor
  · intro call hcall
    rcases mem_calls_of_step hs hcall with hold | ⟨hdecl, -⟩
    · exact hp.plain call hold
    · by_contra hne
      rw [hdecl (by simpa using hne)] at ha
      cases ha
  · intro id h hcall
    rw [hmap]
    rcases mem_calls_of_step hs hcall with hold | ⟨-, hnew⟩
    · exact hp.awaited_mapped id h hold
    · exact hnew id h rfl

theorem Settled.locksMapped (hp : pool.Settled) (a : PoolAction) : pool.locksMapped a = true := by
  cases a with
  | resume i now =>
      simp only [Pool.locksMapped]
      split
      · rename_i id h hcall
        simpa using hp.awaited_mapped id h (List.mem_of_getElem? hcall)
      · rfl
  | _ => rfl

theorem borrowing_step {a : PoolAction} (hs : (borrowing parseUrl).step pool a = some pool') :
    a.declares = false ∧ pool.step parseUrl a = some pool' := by
  simp only [borrowing] at hs
  split at hs
  · cases hs
  · rename_i ha
    exact ⟨by simpa using ha, hs⟩

/-- Borrowing that spares lent records is exclusive and settled. -/
theorem exclusive_of_borrowing
    (h : (borrowing parseUrl).ReachesUnder (fun s a => s.sparesLent a) pool) :
    pool.Exclusive ∧ pool.Settled := by
  apply h.invariant
  · intro s hrest
    refine ⟨AtRest.exclusive hrest, ?_, ?_⟩
    · simp [hrest.calls_none]
    · simp [hrest.calls_none]
  · rintro s a s' ⟨hi, hp⟩ hspare hs
    obtain ⟨ha, hs⟩ := borrowing_step hs
    exact ⟨hi.step hs hspare (hp.locksMapped a), hp.step ha hs⟩

/-- A URL parser for examples that use none. -/
def refuseUrls : UrlParser := fun _ => .error "relative URL without a base"

/-- A connection to a PLC. -/
def plc : ConnectionDefinition :=
  ⟨"plc", "modbus", .object [("host", .string "10.0.0.7"), ("port", .number (.posInt 502))]⟩

/-- A pool with one connection at rest. -/
def plcPool : Pool where
  heap := [buildRecord refuseUrls plc]
  connections := AList.singleton "plc" 0
  attemptWindows := ∅
  sharedSessions := []
  guards := []
  calls := []

/-- A pool is at rest if its one record is not lent. -/
theorem atRest_singleton {record : ConnectionRecord} (hfree : record.inUse = false) :
    AtRest ⟨[record], AList.singleton record.id 0, ∅, [], [], []⟩ where
  guards_none := rfl
  calls_none := rfl
  unlent r hr := by
    obtain rfl := List.mem_singleton.mp hr
    exact hfree
  named id h hmap := by
    have hmem : id ∈ (AList.singleton record.id 0 : AList fun _ : String => ℕ) := by
      by_contra hmem
      rw [AList.lookup_eq_none.mpr hmem] at hmap
      cases hmap
    rw [AList.mem_keys, AList.keys_singleton] at hmem
    obtain rfl := List.mem_singleton.mp hmem
    have hself : (AList.singleton record.id 0 : AList fun _ : String => ℕ).lookup record.id =
        some 0 := AList.mem_lookup_iff.mpr (List.mem_singleton.mpr rfl)
    obtain rfl := Option.some.inj (hself.symm.trans hmap)
    exact ⟨record, rfl, rfl⟩

theorem plcPool_atRest : plcPool.AtRest := atRest_singleton rfl

/-- In runs that clear no flag under a guard, a connection has one guard at most, and an
acquire that is about to lock a connection under a guard will be refused. -/
theorem one_guard_each (h : (borrowing parseUrl).ReachesUnder (fun s a => s.sparesLent a) pool) :
    (pool.guards.map fun guard => guard.lease.id).Nodup ∧
      ∀ id k record now, Call.acquire id k ∈ pool.calls → pool.heap[k]? = some record →
        (∃ guard ∈ pool.guards, guard.lease.id = id) →
        (acquireRecord parseUrl id record pool.attemptWindows now).2.2 =
          .error (.connectionBusy id) := by
  obtain ⟨hi, hp⟩ := exclusive_of_borrowing h
  refine ⟨hi.ids_nodup, ?_⟩
  rintro id k record now hcall hr ⟨guard, hguard, hid⟩
  exact hi.acquire_busy hguard hid (hp.awaited_mapped id k hcall) hr

/-- One task borrows the connection and another asks for it. -/
def askTwice : List PoolAction := [.acquire "plc", .resume 0 0, .acquire "plc"]

/-- The second task will be refused. -/
theorem one_guard_plc : ∃ pool : Pool, (pool.guards.map fun guard => guard.lease.id) = ["plc"] ∧
    ∃ record, pool.heap[0]? = some record ∧
      (acquireRecord refuseUrls "plc" record pool.attemptWindows 0).2.2 =
        .error (.connectionBusy "plc") := by
  have hrun : ((borrowing refuseUrls).replay (fun s a => s.sparesLent a) plcPool askTwice).any
      fun pool : Pool => decide ((pool.guards.map fun guard => guard.lease.id) = ["plc"] ∧
        pool.heap[0]?.isSome ∧ ∃ call ∈ pool.calls, call = .acquire "plc" 0) := by decide
  obtain ⟨pool, hreach, hend⟩ := Machine.exists_reachesUnder_of_replay plcPool_atRest hrun
  obtain ⟨hids, hheap, call, hcall, rfl⟩ := of_decide_eq_true hend
  obtain ⟨record, hr⟩ := Option.isSome_iff_exists.mp hheap
  refine ⟨pool, hids, record, hr, ?_⟩
  apply (one_guard_each hreach).2 "plc" 0 record 0 hcall hr
  have hmem : "plc" ∈ pool.guards.map fun guard => guard.lease.id := by simp [hids]
  obtain ⟨guard, hguard, hid⟩ := List.mem_map.mp hmem
  exact ⟨guard, hguard, hid⟩

/-- A connection that is marked as disconnected while it is lent is lent again. -/
theorem disconnected_lent_twice : ∃ pool : Pool, (borrowing refuseUrls).Reaches pool ∧
    (pool.guards.map fun guard => guard.lease.id) = ["plc", "plc"] := by
  have hrun : ((borrowing refuseUrls).replay (fun _ _ => true) plcPool
      [.acquire "plc", .resume 0 0, .health "plc" (.markDisconnected "断开"), .resume 0 1,
        .acquire "plc", .resume 0 2]).any fun pool : Pool =>
      decide ((pool.guards.map fun guard => guard.lease.id) = ["plc", "plc"]) := by decide
  obtain ⟨pool, hreach, hend⟩ := Machine.exists_reaches_of_replay plcPool_atRest hrun
  exact ⟨pool, hreach, of_decide_eq_true hend⟩

/-! ## Borrowing and declaring -/

/-- In runs in which every acquire locks the record the map has, and no flag is cleared
under a guard, the map has the record of each guard, and a connection one guard at most. -/
theorem guarded_records_mapped
    (h : (machine parseUrl).ReachesUnder (fun s a => s.sparesLent a && s.locksMapped a) pool) :
    (∀ guard ∈ pool.guards, pool.connections.lookup guard.lease.id = some guard.record) ∧
      (pool.guards.map fun guard => guard.lease.id).Nodup := by
  have hi := exclusive_of_reaches h
  refine ⟨?_, hi.ids_nodup⟩
  intro guard hguard
  exact hi.held_mapped guard.lease.id guard.record (List.mem_map.mpr ⟨guard, hguard, rfl⟩)

/-- The connection is declared anew while it is lent: the declaration is dropped. -/
def upsertLent : List PoolAction := [.acquire "plc", .resume 0 0, .upsert plc, .resume 0 1]

theorem plc_mapped : ∃ pool : Pool, pool.guards.length = 1 ∧
    ∀ guard ∈ pool.guards, pool.connections.lookup guard.lease.id = some guard.record := by
  have hrun : ((machine refuseUrls).replay (fun s a => s.sparesLent a && s.locksMapped a) plcPool
      upsertLent).any fun pool : Pool => decide (pool.guards.length = 1) := by decide
  obtain ⟨pool, hreach, hend⟩ := Machine.exists_reachesUnder_of_replay plcPool_atRest hrun
  exact ⟨pool, of_decide_eq_true hend, (guarded_records_mapped hreach).1⟩

/-- A declaration between the lookup and the lock of an acquire: the acquire lends the
record that was replaced, and the next acquire the one in its place. -/
def upsertBetween : List PoolAction :=
  [.acquire "plc", .upsert plc, .resume 1 0, .resume 0 1, .acquire "plc", .resume 1 2]

/-- The map may have another record than a guard, and lend it again. -/
theorem upsert_swaps_lent : ∃ pool : Pool, (machine refuseUrls).Reaches pool ∧
    (∃ guard ∈ pool.guards, pool.connections.lookup guard.lease.id ≠ some guard.record) ∧
    (pool.guards.map fun guard => guard.lease.id) = ["plc", "plc"] := by
  have hrun : ((machine refuseUrls).replay (fun _ _ => true) plcPool upsertBetween).any
      fun pool : Pool => decide ((∃ guard ∈ pool.guards,
          pool.connections.lookup guard.lease.id ≠ some guard.record) ∧
        (pool.guards.map fun guard => guard.lease.id) = ["plc", "plc"]) := by decide
  obtain ⟨pool, hreach, hend⟩ := Machine.exists_reaches_of_replay plcPool_atRest hrun
  exact ⟨pool, hreach, of_decide_eq_true hend⟩

end Pool
end Nazh
