import Nazh.Connections.Exclusive
import Nazh.Desktop.RedeploySteps

/-!
# Runs in which a workflow is deployed again

From what a step does follow what it does to the leases and to the sessions of the newest
deployment, and what holds in every run.
-/

namespace Nazh

open Lib

namespace Redeployed

variable {parseUrl : UrlParser} {portPath : Value → Except String String}
  {nodes : List TriggerNode} {s s' r : Redeployed} {a : RedeployAction} {log : List Event}

/-! ## The leases of the newest deployment -/

/-- A task that goes on without a lease is none of those that listen. -/
theorem getElem?_set_listening {i j : ℕ} {u t' : ListenerTask} (hu : u.isListening = false)
    (h : (s.tasks.set i u)[j]? = some t') (ht' : t'.isListening = true) :
    s.tasks[j]? = some t' := by
  rcases getElem?_set_cases h with ⟨-, rfl⟩ | ⟨-, hold⟩
  · rw [hu] at ht'
    cases ht'
  · exact hold

theorem oldHolders_isEmpty {c : String} (h : (s.oldHolders c).isEmpty = true) {u : ListenerTask}
    (hu : u ∈ s.tasks) (hborrows : u.borrows c = true) : s.isCurrent u.deployment = true := by
  have hnone := List.filter_eq_nil_iff.mp (List.isEmpty_iff.mp h) u hu
  rw [hborrows, Bool.true_and, Bool.not_eq_true', Bool.not_eq_false] at hnone
  exact hnone

theorem newHolders_isEmpty_iff {c : String} : (s.newHolders c).isEmpty = true ↔
    ∀ u ∈ s.tasks, s.isCurrent u.deployment = true → u.borrows c = false := by
  rw [List.isEmpty_iff, newHolders, List.filter_eq_nil_iff]
  refine forall₂_congr fun u hu => ?_
  cases hborrows : u.borrows c with
  | true => simp
  | false => simp

/-- A task gets a lease: the newest deployment keeps its own if it gets one that is free. -/
theorem leasesKept_lent {i : ℕ} {t : ListenerTask} {borrowedAt : ℤ} (hk : s.LeasesKept)
    (ht : s.tasks[i]? = some t) (hnot : t.isListening = false)
    (hr : r.tasks = s.tasks) (hdeployments : r.deployments = s.deployments)
    (hfree : s.isMarked t.connectionId = false)
    (hmarks : ∀ id, r.isMarked id = if id = t.connectionId then true else s.isMarked id) :
    (r.setPc i t (.listening borrowedAt)).LeasesKept ↔
      (s.isCurrent t.deployment = true → (s.oldHolders t.connectionId).isEmpty = true) := by
  have hlt := (List.getElem?_eq_some_iff.mp ht).1
  have hcurrent (d : ℕ) : (r.setPc i t (.listening borrowedAt)).isCurrent d = s.isCurrent d :=
    isCurrent_congr hdeployments d
  have htasks : (r.setPc i t (.listening borrowedAt)).tasks =
      s.tasks.set i { t with pc := .listening borrowedAt } := by rw [setPc, hr]
  have hnew : (r.setPc i t (.listening borrowedAt)).tasks[i]? =
      some { t with pc := .listening borrowedAt } := by rw [htasks, List.getElem?_set_self hlt]
  constructor
  · intro hk' hnow
    rw [List.isEmpty_iff, oldHolders, List.filter_eq_nil_iff]
    intro u hu hboth
    obtain ⟨j, hj⟩ := List.mem_iff_getElem?.mp hu
    have hborrows := (Bool.and_eq_true_iff.mp hboth).1
    have hne : i ≠ j := by
      intro heq
      obtain rfl := Option.some.inj (ht.symm.trans (heq ▸ hj))
      rw [(Bool.and_eq_true_iff.mp hborrows).2] at hnot
      cases hnot
    refine hne ((hk' i _ hnew ((hcurrent _).trans hnow) rfl).2 j u ?_ hborrows).symm
    rw [htasks, List.getElem?_set_ne hne, hj]
  · intro hfirst j u hj hnow hlistening
    rw [hcurrent] at hnow
    rw [htasks] at hj
    rcases getElem?_set_cases hj with ⟨rfl, rfl⟩ | ⟨hne, hold⟩
    · refine ⟨(hmarks _).trans (if_pos rfl), fun j' u' hj' hborrows => ?_⟩
      rw [htasks] at hj'
      rcases getElem?_set_cases hj' with ⟨heq, -⟩ | ⟨-, hold⟩
      · exact heq
      · have hmem := List.mem_of_getElem? hold
        have hother := oldHolders_isEmpty (hfirst hnow) hmem hborrows
        have hparts := Bool.and_eq_true_iff.mp hborrows
        have hmarked := (hk j' u' hold hother hparts.2).1
        rw [beq_iff_eq.mp hparts.1, hfree] at hmarked
        cases hmarked
    · obtain ⟨hmarked, halone⟩ := hk j u hold hnow hlistening
      have hconnection : u.connectionId ≠ t.connectionId := by
        intro heq
        rw [heq, hfree] at hmarked
        cases hmarked
      refine ⟨(hmarks _).trans ((if_neg hconnection).trans hmarked), fun j' u' hj' hborrows => ?_⟩
      rw [htasks] at hj'
      rcases getElem?_set_cases hj' with ⟨-, rfl⟩ | ⟨-, hold'⟩
      · exact absurd (beq_iff_eq.mp (Bool.and_eq_true_iff.mp hborrows).1).symm hconnection
      · exact halone j' u' hold' hborrows

/-- A task that does not listen changes the record of its connection: the newest deployment keeps
its leases if it has none there, where the mark is cleared. -/
theorem leasesKept_cleared {i : ℕ} {t : ListenerTask} {pc : ListenerPc}
    {f : ConnectionRecord → ConnectionRecord} (hk : s.LeasesKept) (ht : s.tasks[i]? = some t)
    (hnot : t.isListening = false) (hpc : ListenerTask.isListening { t with pc } = false)
    (hf : ∀ record, (f record).inUse = false) :
    ((s.modifyRecord t.connectionId f).setPc i t pc).LeasesKept ↔
      (s.newHolders t.connectionId).isEmpty = true := by
  obtain ⟨records, hrecords⟩ := modifyRecord_eq (s := s) t.connectionId f
  have hcleared := isMarked_modifyRecord_of_clears (s := s) (c := t.connectionId) hf
  have hothers (id : String) (hid : id ≠ t.connectionId) :=
    isMarked_modifyRecord_ne (s := s) f hid
  rw [hrecords] at hcleared hothers ⊢
  rw [newHolders_isEmpty_iff]
  constructor
  · intro hk' u hu hnow
    refine Bool.eq_false_iff.mpr fun hborrows => ?_
    obtain ⟨j, hj⟩ := List.mem_iff_getElem?.mp hu
    have hparts := Bool.and_eq_true_iff.mp hborrows
    have hne : i ≠ j := by
      intro heq
      obtain rfl := Option.some.inj (ht.symm.trans (heq ▸ hj))
      rw [hparts.2] at hnot
      cases hnot
    have hmarked := (hk' j u ((List.getElem?_set_ne hne).trans hj) hnow hparts.2).1
    rw [beq_iff_eq.mp hparts.1] at hmarked
    exact Bool.noConfusion (hmarked.symm.trans hcleared)
  · intro hnobody j u hj hnow hlistening
    have hold := getElem?_set_listening (s := s) hpc hj hlistening
    obtain ⟨hmarked, halone⟩ := hk j u hold hnow hlistening
    have hconnection : u.connectionId ≠ t.connectionId := by
      intro heq
      have hnone := hnobody u (List.mem_of_getElem? hold) hnow
      rw [ListenerTask.borrows, heq, beq_self_eq_true, hlistening] at hnone
      cases hnone
    refine ⟨(hothers _ hconnection).trans hmarked, fun j' u' hj' hborrows => ?_⟩
    have hlistening' := (Bool.and_eq_true_iff.mp hborrows).2
    exact halone j' u' (getElem?_set_listening (s := s) hpc hj' hlistening') hborrows

/-- A task of which the newest deployment is sure to have no lease gives back its own. -/
theorem leasesKept_dropped {i : ℕ} {t : ListenerTask} {pc : ListenerPc}
    {f : ConnectionRecord → ConnectionRecord} (hk : s.LeasesKept) (ht : s.tasks[i]? = some t)
    (hlistening : t.isListening = true) (hpc : ListenerTask.isListening { t with pc } = false) :
    ((s.modifyRecord t.connectionId f).setPc i t pc).LeasesKept := by
  obtain ⟨records, hrecords⟩ := modifyRecord_eq (s := s) t.connectionId f
  have hothers (id : String) (hid : id ≠ t.connectionId) :=
    isMarked_modifyRecord_ne (s := s) f hid
  rw [hrecords] at hothers ⊢
  intro j u hj hnow hu
  have hold := getElem?_set_listening (s := s) hpc hj hu
  obtain ⟨hmarked, halone⟩ := hk j u hold hnow hu
  have hconnection : u.connectionId ≠ t.connectionId := by
    intro heq
    have hborrows : t.borrows u.connectionId = true := by
      rw [ListenerTask.borrows, heq, beq_self_eq_true, hlistening, Bool.and_self]
    obtain rfl := halone i t ht hborrows
    rcases getElem?_set_cases hj with ⟨-, rfl⟩ | ⟨hne, -⟩
    · rw [hpc] at hu
      cases hu
    · exact hne rfl
  refine ⟨(hothers _ hconnection).trans hmarked, fun j' u' hj' hborrows => ?_⟩
  have hlistening' := (Bool.and_eq_true_iff.mp hborrows).2
  exact halone j' u' (getElem?_set_listening (s := s) hpc hj' hlistening') hborrows

/-- A calm step leaves the leases alone. -/
theorem Calm.leasesKept (hdeployed : ∀ t ∈ s.tasks, t.deployment < s.deployments.length)
    (hk : s.LeasesKept) (h : s.Calm a s') : s'.LeasesKept := by
  intro j t hj hnow hlistening
  have hold (i : ℕ) (u : ListenerTask) (hi : s'.tasks[i]? = some u) (hu : u.isListening = true) :
      s.tasks[i]? = some u := by
    rcases h.tasks i u hi with hold | ⟨hnot, -⟩
    · exact hold
    · rw [hnot] at hu
      cases hu
  have hj' := hold j t hj hlistening
  obtain ⟨hmarked, halone⟩ :=
    hk j t hj' (h.current _ (hdeployed t (List.mem_of_getElem? hj')) hnow) hlistening
  refine ⟨h.marks _ hmarked, fun i u hi hborrows => ?_⟩
  exact halone i u (hold i u hi (Bool.and_eq_true_iff.mp hborrows).2) hborrows

/-- A step leaves the newest deployment its leases if and only if it meets the guard. -/
theorem leasesKept_iff (hdeployed : ∀ t ∈ s.tasks, t.deployment < s.deployments.length)
    (hk : s.LeasesKept) (h : Effect parseUrl portPath s a s') :
    s'.LeasesKept ↔ s.sparesLeases parseUrl a = true := by
  cases h with
  | calm hcalm hbuses hplain =>
      exact iff_of_true (hcalm.leasesKept hdeployed hk) hplain.leases
  | obtained d k c opened hcalm hensure hd hdeployments hplain =>
      exact iff_of_true (hcalm.leasesKept hdeployed hk) hplain.leases
  | removed d c free hcalm hbuses hdeployments hevents hleases hsessions =>
      exact iff_of_true (hcalm.leasesKept hdeployed hk) hleases
  | dropped i t pc f ht hlistening hnot hpc hs' hplain =>
      subst hs'
      exact iff_of_true (leasesKept_dropped hk ht hlistening hnot) hplain.leases
  | lent i t lease now records attemptWindows ha ht hpc hacquire hfree hmarks hs' =>
      subst ha hs'
      have hnot : t.isListening = false := by rw [ListenerTask.isListening, hpc]
      rw [leasesKept_lent (r := { s with records, attemptWindows }) hk ht hnot rfl rfl hfree hmarks]
      simp only [sparesLeases, ht, Option.all_some, hacquire, Except.isOk, Except.toBool,
        Bool.not_true, Bool.or_false, Bool.or_eq_true, Bool.not_eq_true', ← Bool.not_eq_true,
        imp_iff_not_or]
  | cleared i t diagnosis now ha ht hpc hs' =>
      subst ha hs'
      rw [leasesKept_cleared hk ht (by rw [ListenerTask.isListening, hpc]) rfl fun record => rfl,
        sparesLeases, ht, Option.all_some]

/-! ## The invariant -/

/-- What holds in every run: tasks and sessions belong to deployments, a number names one session,
a closed session is not in the cache, and one that was removed never comes back. -/
structure Sound (s : Redeployed) (log : List Event) : Prop where
  tasks_deployed : ∀ t ∈ s.tasks, t.deployment < s.deployments.length
  pending_newest : s.pending ≠ none → s.isCurrent s.newest = true
  released_inactive : ∀ t ∈ s.tasks, t.pc = .released → s.isActive t.deployment = false
  obtained_deployed : ∀ o ∈ s.buses.obtained, o.deployment < s.deployments.length
  obtained_issued : ∀ o ∈ s.buses.obtained, o.session < s.buses.nextSession
  cached_issued : ∀ id k, s.buses.cached.lookup id = some k → k < s.buses.nextSession
  cached_inj : ∀ id id' k, s.buses.cached.lookup id = some k →
    s.buses.cached.lookup id' = some k → id = id'
  cached_open : ∀ id k, s.buses.cached.lookup id = some k → k ∉ s.buses.closed
  closed_issued : ∀ k ∈ s.buses.closed, k < s.buses.nextSession
  removed_issued : ∀ d k, .removed d k ∈ log → k < s.buses.nextSession
  removed_uncached : ∀ d k, .removed d k ∈ log → ∀ id, s.buses.cached.lookup id ≠ some k

theorem Sound.pending_lt (hs : s.Sound log) (h : s.pending ≠ none) :
    s.newest < s.deployments.length := by
  obtain ⟨-, hactive⟩ := isCurrent_iff.mp (hs.pending_newest h)
  exact (List.getElem?_eq_some_iff.mp hactive).1

theorem AtRest.sound (h : s.AtRest) : s.Sound [] where
  tasks_deployed t ht := by
    rw [h.tasks_none] at ht
    cases ht
  pending_newest hpending := absurd h.pending_none hpending
  released_inactive t ht := by
    rw [h.tasks_none] at ht
    cases ht
  obtained_deployed o ho := by
    rw [h.obtained_none] at ho
    cases ho
  obtained_issued o ho := by
    rw [h.obtained_none] at ho
    cases ho
  cached_issued := h.cached_issued
  cached_inj := h.cached_inj
  cached_open := h.cached_open
  closed_issued := h.closed_issued
  removed_issued d k hmem := by cases hmem
  removed_uncached d k hmem := by cases hmem

theorem AtRest.unharmed (h : s.AtRest) : s.Unharmed [] where
  refused e blockers alone hmem := by cases hmem
  leases i t ht := by
    rw [h.tasks_none] at ht
    cases ht
  sessions o ho := by
    rw [h.obtained_none] at ho
    cases ho

/-- What obtaining a session does: the cached one, or a new one. -/
theorem ensureSession_cases {b b' : CanBuses} {d k : ℕ} {c : String}
    {opened : Except EngineError Unit} (h : b.ensureSession d c opened = .ok (k, b')) :
    b.cached.lookup c = some k ∧ b' = { b with obtained := ⟨d, c, k⟩ :: b.obtained } ∨
      b.cached.lookup c = none ∧ k = b.nextSession ∧ b' = { b with
        cached := b.cached.insert c k
        nextSession := b.nextSession + 1
        obtained := ⟨d, c, k⟩ :: b.obtained } := by
  rw [CanBuses.ensureSession] at h
  split at h
  · rename_i k' hk
    cases h
    exact .inl ⟨hk, rfl⟩
  · rename_i hnone
    cases opened with
    | error e => cases h
    | ok u =>
        cases h
        exact .inr ⟨hnone, rfl, rfl⟩

/-- What is cached after a session was taken out. -/
theorem lookup_cleanup {b : CanBuses} (c id : String) (free : Bool) :
    (b.cleanupAndRemove c free).cached.lookup id =
      if id = c then none else b.cached.lookup id := by
  rw [CanBuses.cleanupAndRemove]
  split
  · by_cases hid : id = c
    · rw [if_pos hid, hid]
      exact AList.lookup_erase _ _
    · rw [if_neg hid]
      exact AList.lookup_erase_ne hid
  · rename_i hnone
    by_cases hid : id = c
    · rw [if_pos hid, hid, hnone]
    · rw [if_neg hid]

/-- Only the session that was taken out is closed by it. -/
theorem mem_closed_cleanup {b : CanBuses} {c : String} {free : Bool} {k : ℕ}
    (h : k ∈ (b.cleanupAndRemove c free).closed) :
    k ∈ b.closed ∨ b.cached.lookup c = some k := by
  rw [CanBuses.cleanupAndRemove] at h
  split at h
  · rename_i k' hk'
    dsimp only at h
    split at h
    · rcases List.mem_cons.mp h with rfl | hold
      · exact .inr hk'
      · exact .inl hold
    · exact .inl h
  · exact .inl h

theorem obtained_cleanup {b : CanBuses} (c : String) (free : Bool) :
    (b.cleanupAndRemove c free).obtained = b.obtained ∧
      (b.cleanupAndRemove c free).nextSession = b.nextSession := by
  rw [CanBuses.cleanupAndRemove]
  split
  · exact ⟨rfl, rfl⟩
  · exact ⟨rfl, rfl⟩

theorem mem_removal {d d' k : ℕ} {c : String} :
    .removed d' k ∈ s.removal d c ↔ d' = d ∧ s.buses.cached.lookup c = some k := by
  rw [removal, Option.mem_toList, Option.map_eq_some_iff]
  constructor
  · rintro ⟨k', hk', heq⟩
    cases heq
    exact ⟨rfl, hk'⟩
  · rintro ⟨rfl, hk⟩
    exact ⟨k, hk, rfl⟩

/-- A calm step that leaves the sessions alone keeps them. -/
theorem sessionsKept_calm (hs : s.Sound log) (hk : s.SessionsKept log) (h : s.Calm a s')
    (hbuses : s'.buses = s.buses) (shown : List Event) : s'.SessionsKept (log ++ shown) := by
  intro o ho hnow
  rw [hbuses] at ho ⊢
  refine (hk o ho (h.current _ (hs.obtained_deployed o ho) hnow)).imp_right fun hmem => ?_
  exact List.mem_append_left _ hmem

theorem sessionsKept_obtained {d k : ℕ} {c : String} {opened : Except EngineError Unit}
    (hs : s.Sound log) (hk : s.SessionsKept log)
    (hensure : s.buses.ensureSession d c opened = .ok (k, s'.buses))
    (hdeployments : s'.deployments = s.deployments) (shown : List Event) :
    s'.SessionsKept (log ++ shown) := by
  intro o ho hnow
  rw [isCurrent_congr hdeployments] at hnow
  obtain ⟨hcached, hb⟩ | ⟨hnone, rfl, hb⟩ := ensureSession_cases hensure
  · rw [hb] at ho ⊢
    rcases List.mem_cons.mp ho with rfl | hold
    · exact .inl ⟨hcached, hs.cached_open c k hcached⟩
    · exact (hk o hold hnow).imp_right fun hmem => List.mem_append_left _ hmem
  · rw [hb] at ho ⊢
    rcases List.mem_cons.mp ho with rfl | hold
    · refine .inl ⟨AList.lookup_insert _, fun hclosed => ?_⟩
      exact Nat.lt_irrefl _ (hs.closed_issued _ hclosed)
    · refine (hk o hold hnow).imp (fun hkept => ⟨?_, hkept.2⟩) fun hmem =>
        List.mem_append_left _ hmem
      have hne : o.connectionId ≠ c := by
        intro heq
        rw [heq, hnone] at hkept
        cases hkept.1
      exact (AList.lookup_insert_ne hne).trans hkept.1

theorem sessionsKept_removed_iff {d : ℕ} {c : String} {free : Bool} (hs : s.Sound log)
    (hk : s.SessionsKept log) (hbuses : s'.buses = s.buses.cleanupAndRemove c free)
    (hdeployments : s'.deployments = s.deployments) :
    s'.SessionsKept (log ++ s.removal d c) ↔ s.sparesSession d c = true := by
  rw [sparesSession, Bool.or_eq_true, Option.all_eq_true]
  constructor
  · intro hk'
    cases hcurrent : s.isCurrent d with
    | true => exact .inl rfl
    | false =>
        refine .inr fun k hcached => List.all_eq_true.mpr fun o ho => ?_
        rw [Bool.not_eq_true', Bool.and_eq_false_iff]
        by_contra hneither
        rw [not_or, Bool.not_eq_false, Bool.not_eq_false, beq_iff_eq] at hneither
        obtain ⟨hnow, rfl⟩ := hneither
        have ho' : o ∈ s'.buses.obtained := by rw [hbuses, (obtained_cleanup c free).1]; exact ho
        rcases hk' o ho' ((isCurrent_congr hdeployments _).trans hnow) with ⟨hstill, -⟩ | hmem
        · rw [hbuses, lookup_cleanup] at hstill
          split at hstill
          · cases hstill
          · rename_i hne
            exact hne (hs.cached_inj _ _ _ hstill hcached)
        · rcases List.mem_append.mp hmem with hold | hnew
          · exact hs.removed_uncached _ _ hold c hcached
          · rw [(mem_removal.mp hnew).1, hcurrent] at hnow
            cases hnow
  · intro hspares o ho hnow
    rw [hbuses, (obtained_cleanup c free).1] at ho
    rw [isCurrent_congr hdeployments] at hnow
    rcases hk o ho hnow with ⟨hcached, hopen⟩ | hmem
    · by_cases hsame : s.buses.cached.lookup c = some o.session
      · -- the session of this node is the one that was taken out
        refine .inr (List.mem_append_right _ (mem_removal.mpr ⟨?_, hsame⟩))
        rcases hspares with hcurrent | hnobody
        · exact (isCurrent_iff.mp hnow).1.trans (isCurrent_iff.mp hcurrent).1.symm
        · have hnot := List.all_eq_true.mp (hnobody _ hsame) o ho
          rw [hnow, beq_self_eq_true] at hnot
          cases hnot
      · refine .inl ⟨?_, fun hclosed => ?_⟩
        · rw [hbuses, lookup_cleanup, if_neg, hcached]
          intro heq
          exact hsame (heq ▸ hcached)
        · rw [hbuses] at hclosed
          rcases mem_closed_cleanup hclosed with hold | hcached'
          · exact hopen hold
          · exact hsame hcached'
    · exact .inr (List.mem_append_left _ hmem)

/-- A step leaves the newest deployment its sessions if and only if it meets the guard. -/
theorem sessionsKept_iff (hs : s.Sound log) (hk : s.SessionsKept log)
    (h : Effect parseUrl portPath s a s') :
    s'.SessionsKept (log ++ s.events parseUrl portPath a s') ↔ s.sparesSessions a = true := by
  have hquiet (hbuses : s'.buses = s.buses) (hdeployments : s'.deployments = s.deployments)
      (shown : List Event) : s'.SessionsKept (log ++ shown) := by
    intro o ho hnow
    rw [isCurrent_congr hdeployments] at hnow
    rw [hbuses] at ho ⊢
    exact (hk o ho hnow).imp_right fun hmem => List.mem_append_left _ hmem
  cases h with
  | calm hcalm hbuses hplain =>
      exact iff_of_true (sessionsKept_calm hs hk hcalm hbuses _) hplain.sessions
  | obtained d k c opened hcalm hensure hd hdeployments hplain =>
      exact iff_of_true (sessionsKept_obtained hs hk hensure hdeployments _) hplain.sessions
  | removed d c free hcalm hbuses hdeployments hevents hleases hsessions =>
      rw [hevents, hsessions]
      exact sessionsKept_removed_iff hs hk hbuses hdeployments
  | dropped i t pc f ht hlistening hnot hpc hs' hplain =>
      obtain ⟨records, hrecords⟩ := modifyRecord_eq (s := s) t.connectionId f
      rw [hrecords] at hs'
      exact iff_of_true (hquiet (by rw [hs']; rfl) (by rw [hs']; rfl) _) hplain.sessions
  | lent i t lease now records attemptWindows ha ht hpc hacquire hfree hmarks hs' =>
      subst ha
      exact iff_of_true (hquiet (by rw [hs']; rfl) (by rw [hs']; rfl) _) rfl
  | cleared i t diagnosis now ha ht hpc hs' =>
      subst ha
      obtain ⟨records, hrecords⟩ :=
        modifyRecord_eq (s := s) t.connectionId (markDisconnected · diagnosis now)
      rw [hrecords] at hs'
      exact iff_of_true (hquiet (by rw [hs']; rfl) (by rw [hs']; rfl) _) rfl

/-! ## Refused nodes -/

/-- A node that is refused its lease on account of an older task fails. -/
theorem onDeployError_of_blockers (parseUrl : UrlParser)
    (portPath : Value → Except String String) (opened : Except EngineError Unit) (now : ℤ)
    {node : TriggerNode} (h : s.blockers node ≠ []) :
    (s.onDeployError parseUrl portPath node opened now).isSome = true := by
  rw [blockers] at h
  split at h
  · rename_i hmarked
    obtain ⟨hlistener, hmarked⟩ := Bool.and_eq_true_iff.mp hmarked
    obtain ⟨kind, hkind⟩ := Option.isSome_iff_exists.mp hlistener
    obtain ⟨e, he⟩ := acquire_of_isMarked parseUrl now hmarked
    rw [onDeployError, hkind]
    simp only [he, Option.isSome_some]
  · exact absurd rfl h

/-- A step keeps the log of refusals clean if and only if it meets the guard. -/
theorem refusedAlone_iff (hlog : RefusedAlone log) :
    RefusedAlone (log ++ s.events parseUrl portPath a s') ↔ s.asksFree a = true := by
  have hquiet (hevents : ∀ e blockers alone,
      .refused e blockers alone ∉ s.events parseUrl portPath a s') :
      RefusedAlone (log ++ s.events parseUrl portPath a s') := by
    intro e blockers alone hmem
    rcases List.mem_append.mp hmem with hold | hnew
    · exact hlog e blockers alone hold
    · exact absurd hnew (hevents e blockers alone)
  have hremoval (d : ℕ) (c : String) (e : EngineError) (blockers : List ListenerTask)
      (alone : Option EngineError) : .refused e blockers alone ∉ s.removal d c := by
    intro hmem
    obtain ⟨k, -, hk⟩ := Option.map_eq_some_iff.mp (Option.mem_toList.mp hmem)
    cases hk
  cases a with
  | onDeploy opened now dropped =>
      cases hpending : s.pending with
      | none =>
          refine iff_of_true (hquiet fun e blockers alone hmem => ?_) (by rw [asksFree, hpending])
          rw [events, hpending] at hmem
          cases hmem
      | some rest =>
          cases rest with
          | nil =>
              refine iff_of_true (hquiet fun e blockers alone hmem => ?_)
                (by rw [asksFree, hpending])
              rw [events, hpending] at hmem
              cases hmem
          | cons node rest =>
              have hguard : s.asksFree (.onDeploy opened now dropped) =
                  (s.blockers node).isEmpty := by rw [asksFree, hpending]
              have hevents : s.events parseUrl portPath (.onDeploy opened now dropped) s' =
                  ((s.onDeployError parseUrl portPath node opened now).map fun e =>
                    .refused e (s.blockers node) ((s.withoutBlockers node).onDeployError
                      parseUrl portPath node opened now)).toList := by rw [events, hpending]
              rw [hguard, hevents, List.isEmpty_iff]
              constructor
              · intro hall
                by_contra hblocked
                obtain ⟨e, he⟩ := Option.isSome_iff_exists.mp (onDeployError_of_blockers
                  parseUrl portPath opened now hblocked)
                refine hblocked (hall e (s.blockers node) ((s.withoutBlockers node).onDeployError
                  parseUrl portPath node opened now) (List.mem_append_right _ ?_)).1
                rw [he]
                exact List.mem_singleton.mpr rfl
              · intro hfree e blockers alone hmem
                rcases List.mem_append.mp hmem with hold | hnew
                · exact hlog e blockers alone hold
                · obtain ⟨e', he', heq⟩ := Option.map_eq_some_iff.mp (Option.mem_toList.mp hnew)
                  cases heq
                  refine ⟨hfree, ?_⟩
                  rw [withoutBlockers, if_pos hfree, he', Option.isSome_some]
  | busFails i free =>
      refine iff_of_true (hquiet fun e blockers alone hmem => ?_) rfl
      rw [events] at hmem
      split at hmem
      · exact hremoval _ _ _ _ _ hmem
      · cases hmem
  | transformFails d connectionId free =>
      exact iff_of_true (hquiet fun e blockers alone hmem => hremoval _ _ _ _ _ hmem) rfl
  | guardFires g free =>
      refine iff_of_true (hquiet fun e blockers alone hmem => ?_) rfl
      rw [events] at hmem
      split at hmem
      · exact hremoval _ _ _ _ _ hmem
      · cases hmem
  | _ => exact iff_of_true (hquiet fun e blockers alone hmem => by cases hmem) rfl

/-! ## Steps -/

theorem unharmed_iff (hs : s.Sound log) (hun : s.Unharmed log)
    (h : s.step parseUrl portPath nodes a = some s') :
    s'.Unharmed (log ++ s.events parseUrl portPath a s') ↔ s.sparesNewest parseUrl a = true := by
  have heffect := step_effect hs.tasks_deployed hs.pending_lt h
  rw [sparesNewest, Bool.and_eq_true, Bool.and_eq_true]
  constructor
  · intro hun'
    exact ⟨⟨(refusedAlone_iff hun.refused).mp hun'.refused,
      (leasesKept_iff hs.tasks_deployed hun.leases heffect).mp hun'.leases⟩,
      (sessionsKept_iff hs hun.sessions heffect).mp hun'.sessions⟩
  · rintro ⟨⟨hasks, hleases⟩, hsessions⟩
    exact ⟨(refusedAlone_iff hun.refused).mpr hasks,
      (leasesKept_iff hs.tasks_deployed hun.leases heffect).mpr hleases,
      (sessionsKept_iff hs hun.sessions heffect).mpr hsessions⟩

/-- A step that leaves the sessions alone and removes none. -/
theorem Sound.of_buses (hs : s.Sound log) {shown : List Event} (hbuses : s'.buses = s.buses)
    (hle : s.deployments.length ≤ s'.deployments.length)
    (hshown : ∀ d k, .removed d k ∉ shown)
    (htasks : ∀ t ∈ s'.tasks, t.deployment < s'.deployments.length)
    (hpending : s'.pending ≠ none → s'.isCurrent s'.newest = true)
    (hreleased : ∀ t ∈ s'.tasks, t.pc = .released → s'.isActive t.deployment = false) :
    s'.Sound (log ++ shown) := by
  have hmem (d k : ℕ) (h : .removed d k ∈ log ++ shown) : .removed d k ∈ log :=
    (List.mem_append.mp h).resolve_right (hshown d k)
  refine ⟨htasks, hpending, hreleased, ?_, ?_, ?_, ?_, ?_, ?_, ?_, ?_⟩
  · rw [hbuses]
    exact fun o ho => Nat.lt_of_lt_of_le (hs.obtained_deployed o ho) hle
  · rw [hbuses]
    exact hs.obtained_issued
  · rw [hbuses]
    exact hs.cached_issued
  · rw [hbuses]
    exact hs.cached_inj
  · rw [hbuses]
    exact hs.cached_open
  · rw [hbuses]
    exact hs.closed_issued
  · rw [hbuses]
    exact fun d k h => hs.removed_issued d k (hmem d k h)
  · rw [hbuses]
    exact fun d k h => hs.removed_uncached d k (hmem d k h)

/-- The tasks and tokens after a calm step. -/
theorem Sound.calm (hs : s.Sound log) (h : s.Calm a s') :
    (∀ t ∈ s'.tasks, t.deployment < s'.deployments.length) ∧
      (s'.pending ≠ none → s'.isCurrent s'.newest = true) ∧
      ∀ t ∈ s'.tasks, t.pc = .released → s'.isActive t.deployment = false := by
  refine ⟨fun t ht => ?_, fun hpending => ?_, fun t ht hpc => ?_⟩
  · obtain ⟨j, hj⟩ := List.mem_iff_getElem?.mp ht
    refine Nat.lt_of_lt_of_le ?_ h.deployments_le
    rcases h.tasks j t hj with hold | ⟨-, -, hemploys⟩
    · exact hs.tasks_deployed t (List.mem_of_getElem? hold)
    · exact hemploys.1
  · rcases h.pending with hnone | hcurrent | ⟨hsome, hdeployments⟩
    · exact absurd hnone hpending
    · exact hcurrent
    · rw [isCurrent_congr hdeployments, newest, hdeployments]
      exact hs.pending_newest hsome
  · obtain ⟨j, hj⟩ := List.mem_iff_getElem?.mp ht
    rcases h.tasks j t hj with hold | ⟨-, hnot, -⟩
    · have hmem := List.mem_of_getElem? hold
      exact h.inactive _ (hs.tasks_deployed t hmem) (hs.released_inactive t hmem hpc)
    · exact absurd hpc hnot

/-- A task goes on, with a new record of a connection. -/
theorem Sound.setPc {i : ℕ} {t : ListenerTask} {pc : ListenerPc}
    {records : AList fun _ : String => ConnectionRecord} {attemptWindows : AttemptWindows}
    {shown : List Event} (hs : s.Sound log) (ht : s.tasks[i]? = some t)
    (hpc : pc = .released → s.isActive t.deployment = false)
    (hshown : ∀ d k, .removed d k ∉ shown) :
    (Redeployed.setPc { s with records, attemptWindows } i t pc).Sound (log ++ shown) := by
  refine hs.of_buses rfl (Nat.le_refl _) hshown (fun u hu => ?_) hs.pending_newest fun u hu hu' => ?_
  · rcases List.mem_or_eq_of_mem_set hu with hold | rfl
    · exact hs.tasks_deployed u hold
    · exact hs.tasks_deployed t (List.mem_of_getElem? ht)
  · rcases List.mem_or_eq_of_mem_set hu with hold | rfl
    · exact hs.released_inactive u hold hu'
    · exact hpc hu'

theorem Sound.obtained {d k : ℕ} {c : String} {opened : Except EngineError Unit}
    {shown : List Event} (hs : s.Sound log) (hcalm : s.Calm a s')
    (hensure : s.buses.ensureSession d c opened = .ok (k, s'.buses))
    (hd : d < s.deployments.length) (hdeployments : s'.deployments = s.deployments)
    (hshown : ∀ d k, .removed d k ∉ shown) : s'.Sound (log ++ shown) := by
  have hmem (d k : ℕ) (h : .removed d k ∈ log ++ shown) : .removed d k ∈ log :=
    (List.mem_append.mp h).resolve_right (hshown d k)
  obtain ⟨htasks, hpending, hreleased⟩ := hs.calm hcalm
  have hdeployed (o : ObtainedSession) (ho : o ∈ (⟨d, c, k⟩ : ObtainedSession) :: s.buses.obtained) :
      o.deployment < s'.deployments.length := by
    rw [hdeployments]
    rcases List.mem_cons.mp ho with rfl | hold
    · exact hd
    · exact hs.obtained_deployed o hold
  obtain ⟨hcached, hb⟩ | ⟨hnone, hk, hb⟩ := ensureSession_cases hensure
  · refine ⟨htasks, hpending, hreleased, ?_, ?_, ?_, ?_, ?_, ?_, ?_, ?_⟩
    · rw [hb]
      exact hdeployed
    · rw [hb]
      intro o ho
      rcases List.mem_cons.mp ho with rfl | hold
      · exact hs.cached_issued c k hcached
      · exact hs.obtained_issued o hold
    · rw [hb]
      exact hs.cached_issued
    · rw [hb]
      exact hs.cached_inj
    · rw [hb]
      exact hs.cached_open
    · rw [hb]
      exact hs.closed_issued
    · rw [hb]
      exact fun d k h => hs.removed_issued d k (hmem d k h)
    · rw [hb]
      exact fun d k h => hs.removed_uncached d k (hmem d k h)
  · -- a new number for the new session
    have hlookup (id : String) (j : ℕ) (h : (s.buses.cached.insert c k).lookup id = some j) :
        id = c ∧ j = k ∨ s.buses.cached.lookup id = some j := by
      by_cases hid : id = c
      · rw [hid, AList.lookup_insert] at h
        exact .inl ⟨hid, (Option.some.inj h).symm⟩
      · rw [AList.lookup_insert_ne hid] at h
        exact .inr h
    have hfresh {j : ℕ} (hj : j < s.buses.nextSession) : j ≠ k := by
      rw [hk]
      exact Nat.ne_of_lt hj
    have hlt {j : ℕ} (hj : j < s.buses.nextSession) : j < s.buses.nextSession + 1 :=
      Nat.lt_succ_of_lt hj
    have hnew : k < s.buses.nextSession + 1 := by
      rw [hk]
      exact Nat.lt_succ_self _
    refine ⟨htasks, hpending, hreleased, ?_, ?_, ?_, ?_, ?_, ?_, ?_, ?_⟩
    · rw [hb]
      exact hdeployed
    · rw [hb]
      intro o ho
      rcases List.mem_cons.mp ho with rfl | hold
      · exact hnew
      · exact hlt (hs.obtained_issued o hold)
    · rw [hb]
      intro id j h
      rcases hlookup id j h with ⟨-, rfl⟩ | hold
      · exact hnew
      · exact hlt (hs.cached_issued id j hold)
    · rw [hb]
      intro id id' j h h'
      rcases hlookup id j h with ⟨rfl, rfl⟩ | hold
      · rcases hlookup id' j h' with ⟨heq, -⟩ | hold'
        · exact heq.symm
        · exact absurd rfl (hfresh (hs.cached_issued id' j hold'))
      · rcases hlookup id' j h' with ⟨-, heq⟩ | hold'
        · exact absurd heq (hfresh (hs.cached_issued id j hold))
        · exact hs.cached_inj id id' j hold hold'
    · rw [hb]
      intro id j h
      rcases hlookup id j h with ⟨-, rfl⟩ | hold
      · exact fun hclosed => hfresh (hs.closed_issued j hclosed) rfl
      · exact hs.cached_open id j hold
    · rw [hb]
      exact fun j hj => hlt (hs.closed_issued j hj)
    · rw [hb]
      exact fun d k h => hlt (hs.removed_issued d k (hmem d k h))
    · rw [hb]
      intro d j hremoved id h
      rcases hlookup id j h with ⟨-, heq⟩ | hold
      · exact hfresh (hs.removed_issued d j (hmem d j hremoved)) heq
      · exact hs.removed_uncached d j (hmem d j hremoved) id hold

theorem Sound.removed {d : ℕ} {c : String} {free : Bool} (hs : s.Sound log) (hcalm : s.Calm a s')
    (hbuses : s'.buses = s.buses.cleanupAndRemove c free)
    (hdeployments : s'.deployments = s.deployments) : s'.Sound (log ++ s.removal d c) := by
  obtain ⟨htasks, hpending, hreleased⟩ := hs.calm hcalm
  obtain ⟨hobtained, hnext⟩ := obtained_cleanup (b := s.buses) c free
  have hlookup (id : String) (k : ℕ)
      (h : (s.buses.cleanupAndRemove c free).cached.lookup id = some k) :
      id ≠ c ∧ s.buses.cached.lookup id = some k := by
    rw [lookup_cleanup] at h
    split at h
    · cases h
    · exact ⟨‹_›, h⟩
  refine ⟨htasks, hpending, hreleased, ?_, ?_, ?_, ?_, ?_, ?_, ?_, ?_⟩
  · rw [hbuses, hobtained, hdeployments]
    exact hs.obtained_deployed
  · rw [hbuses, hobtained, hnext]
    exact hs.obtained_issued
  · rw [hbuses, hnext]
    exact fun id k h => hs.cached_issued id k (hlookup id k h).2
  · rw [hbuses]
    exact fun id id' k h h' => hs.cached_inj id id' k (hlookup id k h).2 (hlookup id' k h').2
  · rw [hbuses]
    intro id k h hclosed
    obtain ⟨hne, hcached⟩ := hlookup id k h
    rcases mem_closed_cleanup hclosed with hold | hsame
    · exact hs.cached_open id k hcached hold
    · exact hne (hs.cached_inj id c k hcached hsame)
  · rw [hbuses, hnext]
    intro k hclosed
    rcases mem_closed_cleanup hclosed with hold | hcached
    · exact hs.closed_issued k hold
    · exact hs.cached_issued c k hcached
  · rw [hbuses, hnext]
    intro d' k hmem
    rcases List.mem_append.mp hmem with hold | hnew
    · exact hs.removed_issued d' k hold
    · exact hs.cached_issued c k (mem_removal.mp hnew).2
  · rw [hbuses]
    intro d' k hmem id h
    obtain ⟨hne, hcached⟩ := hlookup id k h
    rcases List.mem_append.mp hmem with hold | hnew
    · exact hs.removed_uncached d' k hold id hcached
    · exact hne (hs.cached_inj id c k hcached (mem_removal.mp hnew).2)

theorem Sound.step (hs : s.Sound log) (h : s.step parseUrl portPath nodes a = some s') :
    s'.Sound (log ++ s.events parseUrl portPath a s') := by
  cases step_effect hs.tasks_deployed hs.pending_lt h with
  | calm hcalm hbuses hplain =>
      obtain ⟨htasks, hpending, hreleased⟩ := hs.calm hcalm
      exact hs.of_buses hbuses hcalm.deployments_le hplain.removes htasks hpending hreleased
  | obtained d k c opened hcalm hensure hd hdeployments hplain =>
      exact hs.obtained hcalm hensure hd hdeployments hplain.removes
  | removed d c free hcalm hbuses hdeployments hevents hleases hsessions =>
      rw [hevents]
      exact hs.removed hcalm hbuses hdeployments
  | dropped i t pc f ht hlistening hnot hpc hs' hplain =>
      obtain ⟨records, hrecords⟩ := modifyRecord_eq (s := s) t.connectionId f
      have hremoves := hplain.removes
      rw [hrecords] at hs'
      subst hs'
      exact hs.setPc ht hpc hremoves
  | lent i t lease now records attemptWindows ha ht hpc hacquire hfree hmarks hs' =>
      subst ha hs'
      exact hs.setPc ht (fun hpc => by cases hpc) fun d k hmem => by cases hmem
  | cleared i t diagnosis now ha ht hpc hs' =>
      obtain ⟨records, hrecords⟩ :=
        modifyRecord_eq (s := s) t.connectionId (markDisconnected · diagnosis now)
      rw [hrecords] at hs'
      subst ha hs'
      exact hs.setPc ht (fun hpc => by cases hpc) fun d k hmem => by cases hmem

/-! ## Undeploying first -/

/-- Only the newest deployment is active, waits with a guard or has a task that goes on. -/
structure OnlyNewest (s : Redeployed) : Prop where
  active : ∀ d, s.isActive d = true → d = s.newest
  tasks : ∀ t ∈ s.tasks, t.pc ≠ .returned → t.deployment = s.newest
  guards : ∀ g ∈ s.guards, g.1 = s.newest

theorem AtRest.onlyNewest (h : s.AtRest) : s.OnlyNewest where
  active d hd := by
    rw [isActive, h.deployments_none] at hd
    cases hd
  tasks t ht := by
    rw [h.tasks_none] at ht
    cases ht
  guards g hg := by
    rw [h.guards_none] at hg
    cases hg

/-- A deployment that may start a task, or has one that goes on, is the newest one. -/
theorem OnlyNewest.employs (hn : s.OnlyNewest) {d : ℕ} (h : s.Employs d) : d = s.newest := by
  obtain ⟨-, hactive | heq | ⟨t, ht, hbusy, rfl⟩⟩ := h
  · exact hn.active d hactive
  · exact heq
  · exact hn.tasks t ht hbusy

theorem OnlyNewest.calm (hn : s.OnlyNewest) (h : s.Calm a s') (ha : a ≠ .deploy) :
    s'.OnlyNewest := by
  have hnewest : s'.newest = s.newest := by rw [newest, h.length_eq ha, newest]
  refine ⟨fun d hd => ?_, fun t ht hbusy => ?_, fun g hg => ?_⟩
  · have hlt : d < s.deployments.length := by
      rw [← h.length_eq ha]
      rw [isActive, beq_iff_eq] at hd
      exact (List.getElem?_eq_some_iff.mp hd).1
    rw [hnewest]
    refine hn.active d ?_
    by_contra hinactive
    rw [h.inactive d hlt (Bool.eq_false_iff.mpr hinactive)] at hd
    cases hd
  · obtain ⟨j, hj⟩ := List.mem_iff_getElem?.mp ht
    rw [hnewest]
    rcases h.tasks j t hj with hold | ⟨-, -, hemploys⟩
    · exact hn.tasks t (List.mem_of_getElem? hold) hbusy
    · exact hn.employs hemploys
  · rw [hnewest]
    rcases h.guards g hg with hold | heq
    · exact hn.guards g hold
    · exact heq

/-- A task that goes on belongs to the newest deployment. -/
theorem OnlyNewest.setPc {i : ℕ} {t : ListenerTask} {pc : ListenerPc}
    {records : AList fun _ : String => ConnectionRecord} {attemptWindows : AttemptWindows}
    (hn : s.OnlyNewest) (ht : s.tasks[i]? = some t) (hbusy : t.pc ≠ .returned) :
    (Redeployed.setPc { s with records, attemptWindows } i t pc).OnlyNewest := by
  refine ⟨hn.active, fun u hu hu' => ?_, hn.guards⟩
  rcases List.mem_or_eq_of_mem_set hu with hold | rfl
  · exact hn.tasks u hold hu'
  · exact hn.tasks t (List.mem_of_getElem? ht) hbusy

/-- After an undeployment, a new deployment is alone. -/
theorem OnlyNewest.deploy (h : s.step parseUrl portPath nodes .deploy = some s')
    (hfirst : s.undeploysFirst .deploy = true) : s'.OnlyNewest := by
  rw [undeploysFirst, Bool.and_eq_true, Bool.and_eq_true] at hfirst
  obtain ⟨⟨hcancelled, hguards⟩, hreturned⟩ := hfirst
  rw [Redeployed.step] at h
  split at h
  · cases h
    refine ⟨fun d hd => ?_, fun t ht hbusy => ?_, fun g hg => ?_⟩
    · rw [isActive, beq_iff_eq] at hd
      rcases getElem?_concat_cases hd with ⟨heq, -⟩ | ⟨-, hold⟩
      · rw [newest, List.length_append, List.length_singleton, Nat.add_sub_cancel, heq]
      · have hnot := List.all_eq_true.mp hcancelled true (List.mem_of_getElem? hold)
        cases hnot
    · exact absurd (beq_iff_eq.mp (List.all_eq_true.mp hreturned t ht)) hbusy
    · rw [List.isEmpty_iff.mp hguards] at hg
      cases hg
  · cases h

theorem OnlyNewest.step (hs : s.Sound log) (hn : s.OnlyNewest) (hfirst : s.undeploysFirst a = true)
    (h : s.step parseUrl portPath nodes a = some s') : s'.OnlyNewest := by
  by_cases ha : a = .deploy
  · subst ha
    exact .deploy h hfirst
  · cases step_effect hs.tasks_deployed hs.pending_lt h with
    | calm hcalm hbuses hplain => exact hn.calm hcalm ha
    | obtained d k c opened hcalm hensure hd hdeployments hplain => exact hn.calm hcalm ha
    | removed d c free hcalm hbuses hdeployments hevents hleases hsessions => exact hn.calm hcalm ha
    | dropped i t pc f ht hlistening hnot hpc hs' hplain =>
        obtain ⟨records, hrecords⟩ := modifyRecord_eq (s := s) t.connectionId f
        rw [hrecords] at hs'
        subst hs'
        refine hn.setPc ht fun hreturned => ?_
        rw [ListenerTask.isListening, hreturned] at hlistening
        cases hlistening
    | lent i t lease now records attemptWindows ha ht hpc hacquire hfree hmarks hs' =>
        subst hs'
        exact hn.setPc ht (by simp [hpc])
    | cleared i t diagnosis now ha ht hpc hs' =>
        obtain ⟨records, hrecords⟩ :=
          modifyRecord_eq (s := s) t.connectionId (markDisconnected · diagnosis now)
        rw [hrecords] at hs'
        subst hs'
        exact hn.setPc ht (by simp [hpc])

/-- Where the newest deployment is alone and was cancelled, nothing is current. -/
theorem isCurrent_of_inactive {d d' : ℕ} (hd : d = s.newest) (hinactive : s.isActive d = false) :
    s.isCurrent d' = false := by
  refine Bool.eq_false_iff.mpr fun h => ?_
  obtain ⟨heq, hactive⟩ := isCurrent_iff.mp h
  rw [isActive, beq_eq_false_iff_ne, hd, ← heq] at hinactive
  exact hinactive hactive

/-- The newest deployment takes out what it likes. -/
theorem OnlyNewest.sparesSession {d : ℕ} {c : String} (hd : d = s.newest) :
    s.sparesSession d c = true := by
  cases hactive : s.isActive d with
  | true => rw [Redeployed.sparesSession, isCurrent, hactive, hd, beq_self_eq_true]; rfl
  | false =>
      rw [Redeployed.sparesSession, Bool.or_eq_true, Option.all_eq_true]
      refine .inr fun k hk => List.all_eq_true.mpr fun o ho => ?_
      rw [isCurrent_of_inactive hd hactive]
      rfl

/-- Alone, the newest deployment is spared by every step. -/
theorem OnlyNewest.sparesNewest (hs : s.Sound log) (hn : s.OnlyNewest)
    (hfirst : s.undeploysFirst a = true) (h : s.step parseUrl portPath nodes a = some s') :
    s.sparesNewest parseUrl a = true := by
  have hlistening {t : ListenerTask} {c : String} (ht : t ∈ s.tasks) (hborrows : t.borrows c = true) :
      t.deployment = s.newest := by
    refine hn.tasks t ht fun hreturned => ?_
    have hlistens := (Bool.and_eq_true_iff.mp hborrows).2
    rw [ListenerTask.isListening, hreturned] at hlistens
    cases hlistens
  have hold (c : String) (hcurrent : s.isCurrent s.newest = true) : s.oldHolders c = [] := by
    refine List.filter_eq_nil_iff.mpr fun t ht hboth => ?_
    obtain ⟨hborrows, hnot⟩ := Bool.and_eq_true_iff.mp hboth
    rw [hlistening ht hborrows, hcurrent] at hnot
    cases hnot
  rw [Redeployed.sparesNewest, Bool.and_eq_true, Bool.and_eq_true]
  refine ⟨⟨?_, ?_⟩, ?_⟩
  · cases a with
    | onDeploy opened now dropped =>
        rw [asksFree]
        split
        · rename_i node rest hnodes
          have hcurrent := hs.pending_newest (by simp [hnodes])
          rw [blockers]
          split
          · rw [hold _ hcurrent]
            rfl
          · rfl
        · rfl
    | _ => rfl
  · cases a with
    | acquire i now =>
        rw [sparesLeases, Option.all_eq_true]
        intro t ht
        cases hcurrent : s.isCurrent t.deployment with
        | false => rfl
        | true =>
            have hnewest := (isCurrent_iff.mp hcurrent).1
            rw [hold _ (hnewest ▸ hcurrent)]
            rfl
    | disconnect i diagnosis now =>
        rw [sparesLeases, Option.all_eq_true]
        intro t ht
        obtain ⟨t', ht', hstep⟩ := Option.bind_eq_some_iff.mp h
        obtain rfl := Option.some.inj (ht.symm.trans ht')
        have hmem := List.mem_of_getElem? ht
        have hpc : t.pc = .released := by
          simp only [stepTask] at hstep
          split at hstep
          · assumption
          · cases hstep
        have hnewest := hn.tasks t hmem (by simp [hpc])
        refine newHolders_isEmpty_iff.mpr fun u hu hcurrent => ?_
        rw [isCurrent_of_inactive hnewest (hs.released_inactive t hmem hpc)] at hcurrent
        cases hcurrent
    | _ => rfl
  · cases a with
    | busFails i free =>
        rw [sparesSessions, Option.all_eq_true]
        intro t ht
        obtain ⟨t', ht', hstep⟩ := Option.bind_eq_some_iff.mp h
        obtain rfl := Option.some.inj (ht.symm.trans ht')
        refine sparesSession (hn.tasks t (List.mem_of_getElem? ht) fun hreturned => ?_)
        simp only [stepTask, hreturned] at hstep
        cases hstep
    | transformFails d connectionId free => exact sparesSession (beq_iff_eq.mp hfirst)
    | guardFires g free =>
        rw [sparesSessions, Option.all_eq_true]
        intro x hx
        exact sparesSession (hn.guards x (List.mem_of_getElem? hx))
    | _ => rfl

end Redeployed

open Redeployed

/-! ## Runs -/

section Runs

variable (parseUrl : UrlParser) (portPath : Value → Except String String)
  (nodes : List TriggerNode)

/-- The runs of a workflow, with what is seen of them. -/
def redeployments : Machine (Redeployed × List Redeployed.Event) RedeployAction :=
  (Redeployed.machine parseUrl portPath nodes).logged (Redeployed.events parseUrl portPath)

/-- Along a run from rest, the newest deployment goes on as if it were the only one if and only if
every step spares it. Every run that undeploys first is such a run. -/
theorem redeploy_unharmed_iff {s : Redeployed} (hrest : s.AtRest) :
    (∀ acts : List RedeployAction,
      (redeployments parseUrl portPath nodes).Along (fun t => t.1.Unharmed t.2) (s, []) acts ↔
        (redeployments parseUrl portPath nodes).Meets
          (fun t a => t.1.sparesNewest parseUrl a = true) (s, []) acts) ∧
    ∀ t, ((redeployments parseUrl portPath nodes).startingAt (s, [])).ReachesUnder
      (fun t a => t.1.undeploysFirst a = true) t → t.1.Unharmed t.2 := by
  constructor
  · intro acts
    apply Machine.along_iff_meets (J := fun t => t.1.Sound t.2)
    · intro t a t' hs h
      obtain ⟨hstep, hlog⟩ := Machine.logged_step.mp h
      rw [hlog]
      exact hs.step hstep
    · intro t a t' hs hun h
      obtain ⟨hstep, hlog⟩ := Machine.logged_step.mp h
      rw [hlog]
      exact unharmed_iff hs hun hstep
    · exact hrest.sound
    · exact hrest.unharmed
  · intro t ht
    have hall : t.1.Sound t.2 ∧ t.1.OnlyNewest ∧ t.1.Unharmed t.2 := by
      refine ht.invariant (I := fun t => t.1.Sound t.2 ∧ t.1.OnlyNewest ∧ t.1.Unharmed t.2) ?_ ?_
      · intro t₀ hinit
        obtain rfl : t₀ = (s, []) := hinit
        exact ⟨hrest.sound, hrest.onlyNewest, hrest.unharmed⟩
      · rintro t a t' ⟨hs, hn, hun⟩ hfirst h
        obtain ⟨hstep, hlog⟩ := Machine.logged_step.mp h
        rw [hlog]
        exact ⟨hs.step hstep, hn.step hs hfirst hstep,
          (unharmed_iff hs hun hstep).mpr (hn.sparesNewest hs hfirst hstep)⟩
    exact hall.2.2

end Runs

/-! ## A scanner on a serial port -/

/-- The connection of a scanner. -/
def scannerPort : ConnectionDefinition :=
  ⟨"scanner", "serial", .object [("port_path", .string "/dev/ttyUSB0"),
    ("baud_rate", .number (.posInt 9600)), ("delimiter", .string "\\n")]⟩

/-- A workflow that listens to it. -/
def scannerNodes : List TriggerNode := [.deviceEventTrigger "scan" "scanner" .serial []]

/-- Nothing is deployed. -/
def scannerAtRest : Redeployed where
  records := AList.singleton "scanner" (buildRecord Pool.refuseUrls scannerPort)
  attemptWindows := ∅
  buses := ⟨∅, 0, [], []⟩
  deployments := []
  guards := []
  tasks := []
  pending := none

theorem atRest_scanner : scannerAtRest.AtRest where
  deployments_none := rfl
  guards_none := rfl
  tasks_none := rfl
  pending_none := rfl
  obtained_none := rfl
  cached_issued id k h := by cases h
  cached_inj id id' k h := by cases h
  cached_open id k h := by cases h
  closed_issued k h := by cases h

/-- The workflow is deployed, and its listener has the port. -/
def scannerListens : List RedeployAction :=
  [.deploy, .onDeploy (.ok ()) 0 0, .replaceOld, .checkToken 0, .acquire 0 1]

/-- It is undeployed, and its listener gives the port back. -/
def scannerStops : List RedeployAction := [.undeploy, .stop 0 2, .disconnect 0 "串口已停止" 3]

/-- It is deployed again. -/
def scannerAgain : List RedeployAction := [.deploy, .onDeploy (.ok ()) 4 4]

/-- `serde` on metadata with a port. -/
def somePort : Value → Except String String := fun _ => .ok "/dev/ttyUSB0"

/-- Whether the last deployment has got through all its nodes. -/
def isThrough (s : Redeployed) : Bool := s.pending.any List.isEmpty

/-- A workflow that reads a CAN bus. -/
def canNodes : List TriggerNode := [.canNode "read" "can0"]

/-- Whether the newest deployment obtained a session that is no longer in the cache. -/
def hasLostSession (s : Redeployed) : Bool :=
  s.buses.obtained.any fun o =>
    s.isCurrent o.deployment && (s.buses.cached.lookup o.connectionId).isNone

/-- The same workflow is refused its port where it is deployed over itself, and gets it where it was
undeployed before. A session that the new deployment obtained is taken away by a guard of the old
one. -/
theorem redeploy_refused :
    ((Redeployed.machine Pool.refuseUrls somePort scannerNodes).replay (fun _ _ => true) scannerAtRest
      (scannerListens ++ scannerAgain)).map (fun s => (isThrough s, s.deployments)) =
        some (false, [true, false]) ∧
    ((Redeployed.machine Pool.refuseUrls somePort scannerNodes).replay (fun _ _ => true) scannerAtRest
      (scannerListens ++ scannerStops ++ scannerAgain)).map (fun s => (isThrough s, s.deployments)) =
        some (true, [false, true]) ∧
    ((Redeployed.machine Pool.refuseUrls somePort canNodes).replay (fun _ _ => true) scannerAtRest
      [.deploy, .onDeploy (.ok ()) 0 0, .replaceOld, .deploy, .onDeploy (.ok ()) 1 1, .replaceOld,
        .guardFires 0 true]).map hasLostSession = some true := by
  refine ⟨?_, ?_, ?_⟩
  · decide
  · decide
  · decide

/-- Undeployed first and deployed again, the new listener is left alone. -/
theorem redeploy_unharmed_scanner :
    (redeployments Pool.refuseUrls somePort scannerNodes).Along (fun t => t.1.Unharmed t.2)
      (scannerAtRest, []) (scannerListens ++ scannerStops ++ scannerAgain) :=
  ((redeploy_unharmed_iff Pool.refuseUrls somePort scannerNodes atRest_scanner).1 _).mpr
    (Machine.Meets.of_replay (by decide))

end Nazh
