import Nazh.Connections.RateLimit
import Nazh.Lib.Except

/-!
# Declaring connections

A call of `upsert_connection` or `upsert_connections` that nothing disturbs, from its checks to the
attempt windows. The batch rebuilds the whole map of the windows from its own list, and so forgets
the attempts of every connection.
-/

namespace Nazh

open Lib

namespace Pool

variable (parseUrl : UrlParser) (pool : Pool)

/-- The check of one definition. -/
def checkDefinition (definition : ConnectionDefinition) : Except EngineError Unit :=
  match validateConnectionDefinition parseUrl definition.kind definition.metadata with
  | .ok () => .ok ()
  | .error reason => .error (.connectionInvalidConfiguration definition.id reason)

/-- `upsert_connection`. -/
def upsertConnection (definition : ConnectionDefinition) : Pool × Except EngineError Unit :=
  match checkDefinition parseUrl definition with
  | .error e => (pool, .error e)
  | .ok () =>
      if pool.sharedSessions.contains definition.id then (pool, .ok ())
      else if pool.lent definition.id then (pool, .ok ())
      else
        let pool := pool.insertRecord parseUrl definition
        ({ pool with attemptWindows := pool.attemptWindows.insert definition.id [] }, .ok ())

/-- The loop of `upsert_connections`, with the ids that it inserts. -/
def insertFree (activeSessionIds : List String) (pool : Pool) :
    List ConnectionDefinition → Pool × List String
  | [] => (pool, [])
  | definition :: rest =>
      if pool.lent definition.id || activeSessionIds.contains definition.id then
        insertFree activeSessionIds pool rest
      else
        let done := insertFree activeSessionIds (pool.insertRecord parseUrl definition) rest
        (done.1, definition.id :: done.2)

/-- `upsert_connections`. -/
def upsertConnections (definitions : List ConnectionDefinition) :
    Pool × Except EngineError (List String) :=
  match definitions.forM (checkDefinition parseUrl) with
  | .error e => (pool, .error e)
  | .ok () =>
      let done := insertFree parseUrl pool.sharedSessions pool definitions
      let nextIds := definitions.map ConnectionDefinition.id
      ({ done.1 with
          attemptWindows := nextIds.foldl (fun windows id => windows.insert id []) ∅ }, .ok done.2)

/-- A definition for the id is passed over: the connection is lent, or has a shared session. -/
def skips (connectionId : String) : Bool :=
  pool.lent connectionId || pool.sharedSessions.contains connectionId

/-- A connection has the record, with its health, and the attempts that it had. -/
structure Untouched (pool pool' : Pool) (connectionId : String) : Prop where
  pointer : pool'.connections.lookup connectionId = pool.connections.lookup connectionId
  record : ∀ h r, pool.connections.lookup connectionId = some h → pool.heap[h]? = some r →
    pool'.heap[h]? = some r
  window : attempts pool'.attemptWindows connectionId = attempts pool.attemptWindows connectionId

variable {parseUrl} {pool} {definition : ConnectionDefinition}
  {definitions : List ConnectionDefinition} {active : List String} {id : String}

theorem Untouched.refl : pool.Untouched pool id := ⟨rfl, fun _ _ _ h => h, rfl⟩

theorem checkDefinition_eq_ok : checkDefinition parseUrl definition = .ok () ↔
    valid parseUrl definition = true := by
  delta checkDefinition valid
  generalize validateConnectionDefinition parseUrl definition.kind definition.metadata = answer
  cases answer with
  | ok u => exact iff_of_true rfl rfl
  | error reason => exact iff_of_false nofun nofun

/-! ## One record -/

theorem heap_insertRecord {h : ℕ} {r : ConnectionRecord} (hr : pool.heap[h]? = some r) :
    (pool.insertRecord parseUrl definition).heap[h]? = some r := by
  rw [insertRecord, List.getElem?_append_left (List.getElem?_eq_some_iff.mp hr).1]
  exact hr

/-- A record that was just built is not lent. -/
theorem lent_insertRecord :
    (pool.insertRecord parseUrl definition).lent id =
      (pool.lent id && !decide (id = definition.id)) := by
  have hbuilt := inUse_buildRecord parseUrl definition
  unfold insertRecord
  generalize buildRecord parseUrl definition = record at hbuilt
  by_cases hid : id = definition.id
  · subst hid
    simp [lent, hbuilt]
  · simp only [lent, AList.lookup_insert_ne hid, hid, decide_false, Bool.not_false,
      Bool.and_true]
    cases hlookup : pool.connections.lookup id with
    | none => rfl
    | some h =>
        simp only [Option.bind_some, List.getElem?_append]
        split
        · rfl
        · rename_i hout
          rw [List.getElem?_eq_none (Nat.le_of_not_lt hout)]
          cases hnew : [record][h - pool.heap.length]? with
          | none => rfl
          | some r =>
              obtain rfl := List.mem_singleton.mp (List.mem_of_getElem? hnew)
              simp [hbuilt]

/-! ## The loop -/

/-- The loop inserts what is not passed over, and nothing else changes. -/
structure Inserts (active : List String) (definitions : List ConnectionDefinition) (pool : Pool)
    (done : Pool × List String) : Prop where
  mem_inserted : ∀ id, id ∈ done.2 ↔ (∃ definition ∈ definitions, definition.id = id) ∧
    (pool.lent id || active.contains id) = false
  lookup : ∀ id, id ∉ done.2 → done.1.connections.lookup id = pool.connections.lookup id
  heap : ∀ (h : ℕ) r, pool.heap[h]? = some r → done.1.heap[h]? = some r

theorem inserts_insertFree (active : List String) (definitions : List ConnectionDefinition)
    (pool : Pool) : Inserts active definitions pool (insertFree parseUrl active pool definitions) := by
  induction definitions generalizing pool with
  | nil => exact ⟨fun id => by simp [insertFree], fun _ _ => rfl, fun _ _ hr => hr⟩
  | cons definition rest ih =>
      rw [insertFree]
      split
      case isTrue hskip =>
        have hrest := ih pool
        refine ⟨fun id => ?_, hrest.lookup, hrest.heap⟩
        rw [hrest.mem_inserted]
        refine and_congr_left fun hfree => ?_
        have hne : definition.id ≠ id := by
          rintro rfl
          rw [hskip] at hfree
          cases hfree
        simp [hne]
      case isFalse hfree =>
        have hrest := ih (pool.insertRecord parseUrl definition)
        have hfree := Bool.eq_false_iff.mpr hfree
        refine ⟨fun id => ?_, fun id hid => ?_, fun h r hr => hrest.heap h r (heap_insertRecord hr)⟩
        · rw [List.mem_cons, hrest.mem_inserted, lent_insertRecord]
          by_cases hid : id = definition.id
          · subst hid
            simp only [true_or, true_iff]
            exact ⟨⟨definition, List.mem_cons_self, rfl⟩, hfree⟩
          · have hne : ¬ definition.id = id := fun h => hid h.symm
            simp [hid, hne]
        · obtain ⟨hne, hrestid⟩ := not_or.mp (mt List.mem_cons.mpr hid)
          rw [hrest.lookup id hrestid]
          exact AList.lookup_insert_ne hne

/-! ## Lock by lock -/

/-- The loop is the one that the pool runs under the lock of the map. -/
theorem insertFree_fst (active : List String) (definitions : List ConnectionDefinition)
    (pool : Pool) :
    (insertFree parseUrl active pool definitions).1 =
      pool.insertUnlent parseUrl active definitions := by
  induction definitions generalizing pool with
  | nil => rfl
  | cons definition rest ih =>
      rw [insertFree, insertUnlent]
      split
      · exact ih pool
      · exact ih _

theorem insertUnlent_calls (calls : List Call) :
    insertUnlent parseUrl active { pool with calls } definitions =
      { insertUnlent parseUrl active pool definitions with calls } := by
  induction definitions generalizing pool with
  | nil => rfl
  | cons definition rest ih =>
      have hlent : Pool.lent { pool with calls } = pool.lent := rfl
      rw [insertUnlent, insertUnlent, hlent]
      split
      · exact ih
      · exact @ih (pool.insertRecord parseUrl definition)

/-- A batch that is valid takes two locks, of the map and of the windows. -/
theorem upsertConnections_steps (hvalid : definitions.all (valid parseUrl) = true) (now now' : ℤ) :
    (machine parseUrl).replay (fun _ _ => true) pool [.upsertMany definitions,
      .resume pool.calls.length now, .resume pool.calls.length now'] =
    some (pool.upsertConnections parseUrl definitions).1 := by
  have hchecked : definitions.forM (checkDefinition parseUrl) = .ok () := by
    refine forM_eq_ok.mpr fun definition hmem => checkDefinition_eq_ok.mpr ?_
    exact List.all_eq_true.mp hvalid definition hmem
  let call := Call.upsertMany definitions pool.sharedSessions
  let ids := definitions.map ConnectionDefinition.id
  have hbegun : pool.step parseUrl (.upsertMany definitions) =
      some { pool with calls := pool.calls ++ [call] } :=
    if_pos hvalid
  have hdeclared : ({ pool with calls := pool.calls ++ [call] } : Pool).resume parseUrl
      pool.calls.length now = some { insertUnlent parseUrl pool.sharedSessions pool definitions with
        calls := pool.calls ++ [.resetAttemptWindows ids] } := by
    simp only [resume, List.getElem?_concat_length, call, insertUnlent_calls, setCall]
    simp [ids]
  rw [upsertConnections, hchecked]
  change ((pool.step parseUrl (.upsertMany definitions)).bind fun begun =>
    (begun.resume parseUrl pool.calls.length now).bind fun declared =>
      (declared.resume parseUrl pool.calls.length now').bind some) = _
  simp only [hbegun, hdeclared, Option.bind_some, Option.bind_fun_some, insertFree_fst]
  simp only [resume, List.getElem?_concat_length, endCall, Option.some.injEq]
  have hcalls : (insertUnlent parseUrl pool.sharedSessions pool definitions).calls = pool.calls :=
    (adds_insertUnlent _ (List.Subset.refl _) pool).calls
  simp [hcalls, ids, List.eraseIdx_append_of_length_le]

/-- The connection of a press is declared beside that of a PLC. -/
theorem press_declared : (machine refuseUrls).replay (fun _ _ => true) plcPool
    [.upsertMany [{ plc with id := "press" }], .resume 0 0, .resume 0 0] =
      some (plcPool.upsertConnections refuseUrls [{ plc with id := "press" }]).1 :=
  upsertConnections_steps (by decide) 0 0

/-! ## The frame -/

theorem attempts_reset {ids : List String} {windows : AttemptWindows}
    (h : attempts windows id = []) :
    attempts (ids.foldl (fun windows id => windows.insert id []) windows) id = [] := by
  induction ids generalizing windows with
  | nil => exact h
  | cons first ids ih =>
      refine ih ?_
      by_cases hid : id = first
      · rw [hid, attempts_insert]
      · rw [attempts_insert_ne _ hid, h]

end Pool

/-- A call that declares connections. -/
inductive Upsert
  | one (definition : ConnectionDefinition)
  | many (definitions : List ConnectionDefinition)

namespace Upsert

variable (parseUrl : UrlParser) (pool : Pool)

/-- A call leaves the connections outside of its answer as they were, and the whole pool if it
fails. -/
structure Keeps {α : Type} (answer : Pool × Except EngineError α) (outside : α → String → Prop) :
    Prop where
  failed : ∀ e, answer.2 = .error e → answer.1 = pool
  rest : ∀ a, answer.2 = .ok a → ∀ id, outside a id → pool.Untouched answer.1 id

/-- A call touches only what it inserts. -/
def Framed : Upsert → Prop
  | one definition => Keeps pool (pool.upsertConnection parseUrl definition)
      fun _ id => id = definition.id → pool.skips id = true
  | many definitions => Keeps pool (pool.upsertConnections parseUrl definitions)
      fun inserted id => id ∉ inserted

/-- No attempt is forgotten: every connection that has one is declared anew. -/
def Harmless : Upsert → Prop
  | one _ => True
  | many definitions => (∃ definition ∈ definitions, Pool.valid parseUrl definition = false) ∨
      ∀ id, attempts pool.attemptWindows id ≠ [] →
        (∃ definition ∈ definitions, definition.id = id) ∧ pool.skips id = false

variable {parseUrl} {pool}

theorem Keeps.of_ok {α : Type} {pool' : Pool} {a : α} {outside : α → String → Prop}
    (h : ∀ id, outside a id → pool.Untouched pool' id) : Keeps pool (pool', .ok a) outside where
  failed e he := by cases he
  rest b hb := by
    cases hb
    exact h

theorem framed_one (definition : ConnectionDefinition) : Framed parseUrl pool (.one definition) := by
  rw [Framed]
  delta Pool.upsertConnection
  cases Pool.checkDefinition parseUrl definition with
  | error e => exact ⟨fun _ _ => rfl, nofun⟩
  | ok u =>
      by_cases hshared : pool.sharedSessions.contains definition.id = true
      · simp only [if_pos hshared]
        exact .of_ok fun id _ => .refl
      · by_cases hlent : pool.lent definition.id = true
        · simp only [if_neg hshared, if_pos hlent]
          exact .of_ok fun id _ => .refl
        · simp only [if_neg hshared, if_neg hlent]
          refine .of_ok fun id hskips => ?_
          have hne : id ≠ definition.id := by
            rintro rfl
            have h := hskips rfl
            rw [Pool.skips, Bool.or_eq_true] at h
            exact h.elim hlent hshared
          refine ⟨AList.lookup_insert_ne hne, fun h r _ hr => Pool.heap_insertRecord hr, ?_⟩
          exact attempts_insert_ne _ hne

/-- A batch that is valid forgets all attempts. -/
theorem framed_many_of_valid {definitions : List ConnectionDefinition}
    (hvalid : ∀ definition ∈ definitions, Pool.valid parseUrl definition = true) :
    Framed parseUrl pool (.many definitions) ↔ ∀ id, attempts pool.attemptWindows id ≠ [] →
      (∃ definition ∈ definitions, definition.id = id) ∧ pool.skips id = false := by
  have hchecked : definitions.forM (Pool.checkDefinition parseUrl) = .ok () :=
    forM_eq_ok.mpr fun definition hmem => Pool.checkDefinition_eq_ok.mpr (hvalid definition hmem)
  have hinserts : Pool.Inserts pool.sharedSessions definitions pool
      (Pool.insertFree parseUrl pool.sharedSessions pool definitions) :=
    Pool.inserts_insertFree _ _ _
  rw [Framed, Pool.upsertConnections, hchecked]
  constructor
  · intro hframed id hwindow
    refine (hinserts.mem_inserted id).mp ?_
    by_contra hout
    refine hwindow (((hframed.rest _ rfl) id hout).window.symm.trans ?_)
    exact Pool.attempts_reset rfl
  · intro hharmless
    refine .of_ok fun id hout => ?_
    have hwindow : attempts pool.attemptWindows id = [] := by
      by_contra hwindow
      exact hout ((hinserts.mem_inserted id).mpr (hharmless id hwindow))
    refine ⟨hinserts.lookup id hout, fun h r _ hr => hinserts.heap h r hr, ?_⟩
    rw [hwindow]
    exact Pool.attempts_reset rfl

/-- A call touches only what it inserts exactly if no connection that it leaves has an attempt in its
window; the single call always does. -/
theorem framed_iff (parseUrl : UrlParser) (pool : Pool) (call : Upsert) :
    call.Framed parseUrl pool ↔ call.Harmless parseUrl pool := by
  cases call with
  | one definition => exact iff_of_true (framed_one definition) True.intro
  | many definitions =>
      rw [Harmless]
      by_cases hinvalid : ∃ definition ∈ definitions, Pool.valid parseUrl definition = false
      · refine iff_of_true ?_ (.inl hinvalid)
        obtain ⟨definition, hmem, hbad⟩ := hinvalid
        rw [Framed, Pool.upsertConnections]
        cases hchecked : definitions.forM (Pool.checkDefinition parseUrl) with
        | error e => exact ⟨fun _ _ => rfl, nofun⟩
        | ok u =>
            have hok := Pool.checkDefinition_eq_ok.mp (forM_eq_ok.mp hchecked definition hmem)
            rw [hbad] at hok
            cases hok
      · simp only [hinvalid, false_or]
        push Not at hinvalid
        exact framed_many_of_valid fun definition hmem =>
          Bool.eq_true_of_not_eq_false (hinvalid definition hmem)

/-- A PLC was just connected when the connection of a press is declared: the PLC's attempt is
forgotten. -/
theorem attempt_forgotten : ¬ (many [{ Pool.plc with id := "press" }]).Framed Pool.refuseUrls
    { Pool.plcPool with attemptWindows := AList.singleton "plc" [0] } := by
  intro hframed
  have hvalid : ∀ definition ∈ [{ Pool.plc with id := "press" }],
      Pool.valid Pool.refuseUrls definition = true := by
    intro definition hmem
    obtain rfl := List.mem_singleton.mp hmem
    decide
  obtain ⟨⟨definition, hmem, hid⟩, -⟩ := (framed_many_of_valid hvalid).mp hframed "plc" (by decide)
  obtain rfl := List.mem_singleton.mp hmem
  exact absurd hid (by decide)

end Upsert
end Nazh
