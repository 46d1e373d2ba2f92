import Nazh.Connections.Breaker
import Nazh.Lib.Window

/-!
# The rate limit of a connection

Each connection has a queue of the times at which it was acquired, and `register_attempt` is a
sliding window over this queue. A connection that hits its limit is refused until a deadline,
which is kept in the record and not in the queue.
-/

namespace Nazh

open Lib

/-! ## The queue -/

/-- The recent attempts of a connection, oldest first. -/
def attempts (windows : AttemptWindows) (connectionId : String) : List ℤ :=
  (windows.lookup connectionId).getD []

section Attempts

variable {windows : AttemptWindows} {id id' : String} {policy : ConnectionGovernancePolicy}
  {now : ℤ}

@[simp] theorem attempts_insert (times : List ℤ) : attempts (windows.insert id times) id = times := by
  simp [attempts]

theorem attempts_insert_ne (times : List ℤ) (hne : id' ≠ id) :
    attempts (windows.insert id times) id' = attempts windows id' := by
  rw [attempts, AList.lookup_insert_ne hne, attempts]

/-- `register_attempt` is an attempt at the window of the connection. -/
theorem registerAttempt_eq :
    registerAttempt windows id policy now =
      (windows.insert id (Window.attempt (durationMs policy.rateLimitWindowMs)
          policy.rateLimitMaxAttempts now (attempts windows id)).1,
        if (Window.attempt (durationMs policy.rateLimitWindowMs) policy.rateLimitMaxAttempts now
          (attempts windows id)).2 then .ok () else .error policy.rateLimitCooldownMs) := by
  by_cases hfull : policy.rateLimitMaxAttempts ≤
      (Window.prune (durationMs policy.rateLimitWindowMs) now (attempts windows id)).length
  · have hregister : registerAttempt windows id policy now = _ := if_pos hfull
    rw [hregister, Window.attempt, if_pos hfull]
    rfl
  · have hregister : registerAttempt windows id policy now = _ := if_neg hfull
    rw [hregister, Window.attempt, if_neg hfull]
    rfl

end Attempts

section Answers

variable (parseUrl : UrlParser) (id : String) {id' : String} (r : ConnectionRecord)
  (windows : AttemptWindows) (now : ℤ)

end Answers

/-! ## Refusals that last -/

section Limited

variable {parseUrl : UrlParser} {now T : ℤ} {r : ConnectionRecord}

end Limited

/-! ## Runs that declare nothing -/

namespace Pool

section Borrows

variable {parseUrl : UrlParser} {pool pool' : Pool} {a : PoolAction}

/-- A step that declares nothing begins no call that does, and changes no queue unless an
acquire locks its record. -/
theorem borrows_step (hs : pool.step parseUrl a = some pool') (hdecl : a.declares = false)
    (hcalls : ∀ call ∈ pool.calls, call.borrows = true) :
    (∀ call ∈ pool'.calls, call.borrows = true) ∧
      ((pool'.attemptWindows = pool.attemptWindows ∧
          ∀ i now id h, a = .resume i now → pool.calls[i]? ≠ some (.acquire id h)) ∨
        ∃ i now id h r, a = .resume i now ∧ pool.calls[i]? = some (.acquire id h) ∧
          pool.heap[h]? = some r ∧ pool'.attemptWindows =
            (acquireRecord parseUrl id r pool.attemptWindows now).2.1) := by
  have hplain : a.locks = false →
      ∀ i now id h, a = .resume i now → pool.calls[i]? ≠ some (.acquire id h) := by
    rintro ha i now id h rfl
    cases ha
  have hother : ∀ {i : ℕ} {now : ℤ} {call : Call}, pool.calls[i]? = some call →
      (∀ id h, call ≠ .acquire id h) → ∀ i' now' id h,
        PoolAction.resume i now = .resume i' now' → pool.calls[i']? ≠ some (.acquire id h) := by
    intro i now call hcall hne i' now' id h heq hacquire
    cases heq
    exact hne id h (Option.some.inj (hcall.symm.trans hacquire))
  have herase : ∀ (i : ℕ), ∀ call ∈ pool.calls.eraseIdx i, call.borrows = true :=
    fun i call hmem => hcalls call (List.mem_of_mem_eraseIdx hmem)
  cases step_move hs with
  | idle _ ha => exact ⟨hcalls, .inl ⟨rfl, hplain ha⟩⟩
  | @begins _ call ha hfresh hkind hvalid =>
      have hborrows : call.borrows = true := by
        rcases hkind with hborrows | hdeclares
        · exact hborrows
        · rw [hfresh.1 hdeclares] at hdecl
          cases hdecl
      exact ⟨List.forall_mem_append.mpr ⟨hcalls, List.forall_mem_singleton.mpr hborrows⟩,
        .inl ⟨rfl, hplain ha⟩⟩
  | marks outcome ha hguard => exact ⟨hcalls, .inl ⟨rfl, hplain ha⟩⟩
  | drops hguard hr => exact ⟨hcalls, .inl ⟨rfl, fun _ _ _ _ heq => nomatch heq⟩⟩
  | registers hnew hvalid => cases hdecl
  | @acquires i now id h r hcall hr =>
      exact ⟨herase i, .inr ⟨i, now, id, h, r, rfl, hcall, hr, rfl⟩⟩
  | @checks i now op h r hcall hr => exact ⟨herase i, .inl ⟨rfl, hother hcall (by simp)⟩⟩
  | @visits i now op h rest r hcall hr =>
      refine ⟨fun call hmem => ?_, .inl ⟨rfl, hother hcall (by simp)⟩⟩
      rcases List.mem_or_eq_of_mem_set hmem with hold | rfl
      · exact hcalls call hold
      · rfl
  | @declares i now call reset _ hcall hdeclares hadds hdecl' hreset =>
      have hborrows := hcalls call (List.mem_of_getElem? hcall)
      rw [(Call.ends_of_declares hdeclares).2] at hborrows
      cases hborrows
  | @ends i now call windows hcall hends hkept =>
      refine ⟨herase i, .inl ⟨hkept (hcalls call (List.mem_of_getElem? hcall)), ?_⟩⟩
      refine hother hcall ?_
      rintro id h rfl
      cases hends

theorem connections_step (hs : pool.step parseUrl a = some pool') (hdecl : a.declares = false)
    (hcalls : ∀ call ∈ pool.calls, call.borrows = true) :
    pool'.connections = pool.connections := by
  have hnot : pool.declaresAt a = false := by
    cases a with
    | resume i now =>
        rw [declaresAt]
        cases hcall : pool.calls[i]? with
        | none => rfl
        | some call =>
            have hborrows := hcalls call (List.mem_of_getElem? hcall)
            cases call with
            | upsert definition => cases hborrows
            | upsertMany definitions active => cases hborrows
            | replaceAll definitions => cases hborrows
            | _ => rfl
    | _ => exact hdecl
  cases step_effect hs with
  | kept hheap hmap hheld => exact hmap
  | changed hr hid huse hheap hmap hheld => exact hmap
  | cleared hclears hr hid hheap hmap hheld => exact hmap
  | lentOut hcall hr hfree hid huse hheap hmap hheld => exact hmap
  | released hheld hr hid hheap hmap hheld' => exact hmap
  | declared hdeclares => rw [hnot] at hdeclares; cases hdeclares

end Borrows

/-- In a run that declares nothing a connection keeps its record and its definition, and each
acquire of it is of this record. -/
structure Borrowed (id : String) (h : ℕ) (definition : ConnectionDefinition) (pool : Pool) :
    Prop where
  mapped : pool.connections.lookup id = some h
  borrows : ∀ call ∈ pool.calls, call.borrows = true
  pointed : ∀ k, .acquire id k ∈ pool.calls → k = h
  defined : ∃ r, pool.heap[h]? = some r ∧ r.definition = definition

section Borrowed

variable {parseUrl : UrlParser} {pool pool' : Pool} {a : PoolAction} {id : String} {h : ℕ}
  {definition : ConnectionDefinition}

theorem Borrowed.step (hb : Borrowed id h definition pool)
    (hs : pool.step parseUrl a = some pool') (hdecl : a.declares = false) :
    Borrowed id h definition pool' where
  mapped := by rw [connections_step hs hdecl hb.borrows, hb.mapped]
  borrows := (borrows_step hs hdecl hb.borrows).1
  pointed k hk := by
    rcases mem_calls_of_step hs hk with hold | hfresh
    · exact hb.pointed k hold
    · exact Option.some.inj ((hfresh.2 id k rfl).symm.trans hb.mapped)
  defined := by
    obtain ⟨r, hr, hdef⟩ := hb.defined
    refine ⟨_, heap_step hs hr, ?_⟩
    rw [recordAfter]
    cases pool.recordAction h a with
    | none => exact hdef
    | some actionAt => exact actionAt.1.definition_apply.trans hdef

end Borrowed

/-- The time at which a step acquires the connection, if it does. -/
def acquiredAt (parseUrl : UrlParser) (id : String) (pool : Pool) : PoolAction → List ℤ
  | .resume i now => match pool.calls[i]?, pool.acquireResult parseUrl i now with
      | some (.acquire id' _), some (.ok _) => if id' = id then [now] else []
      | _, _ => []
  | _ => []

section Log

variable {parseUrl : UrlParser} {pool pool' : Pool} {a : PoolAction} {id : String} {h : ℕ}
  {definition : ConnectionDefinition} {clock clock' : ℤ} {start log : List ℤ} {r : ConnectionRecord}

end Log

end Pool

/-! ## Spans of time

A span is cut off at `i64::MAX` milliseconds, which is longer than any time between two
readings. -/

section Runs

variable {parseUrl : UrlParser} {t₀ t u : TimedPool} {h : ℕ} {r : ConnectionRecord} {id : String}

end Runs

end Nazh
