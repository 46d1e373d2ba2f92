import Nazh.Connections.SessionIdent

/-!
# Who closes a shared CAN session

The nodes of all deployments that name one connection share its session. A session does not count
who uses it: the first lifecycle guard that is cancelled takes it out of the cache and closes its
bus, and so does the first node whose `recv` or `send` fails. A listener keeps the bus that it got
when it began; a closed bus gives it what a silent one does.
-/

namespace Nazh

open Lib

/-- Where a node that uses the bus stands. -/
inductive CanUser.Pc
  /-- In `ensure_session`. -/
  | ensuring (call : ℕ)
  /-- In `bus_handle`, before the lock of the bus. -/
  | opening (session : ℕ)
  /-- In `bus_handle`, with the lock. -/
  | handling (session : ℕ)
  /-- A listener before it looks at its token. -/
  | looping (session : ℕ)
  /-- In `recv` or `send`. -/
  | receiving (session : ℕ)
  /-- After an error of these, before `CanBusRuntime::shutdown`. -/
  | failing (session : ℕ)
  | returned (reported : Bool)
  deriving DecidableEq, Repr

namespace CanUser.Pc

/-- The session that a node has. -/
def session : Pc → Option ℕ
  | opening k | handling k | looping k | receiving k | failing k => some k
  | ensuring _ | returned _ => none

/-- The session whose bus a node has, while it goes on. -/
def bus : Pc → Option ℕ
  | looping k | receiving k => some k
  | _ => none

theorem session_of_bus {pc : Pc} {k : ℕ} (h : pc.bus = some k) : pc.session = some k := by
  cases pc with
  | looping _ => exact h
  | receiving _ => exact h
  | _ => cases h

end CanUser.Pc

/-- A call of a transform, or the loop of a listener. -/
structure CanUser where
  deployment : ℕ
  connectionId : String
  isListener : Bool
  pc : CanUser.Pc
  deriving DecidableEq, Repr

/-- The sessions of a connection manager, and who uses them. -/
structure CanSessions where
  shared : SharedSessions
  /-- The sessions whose bus was taken out and shut down. -/
  closed : List ℕ
  /-- Whether the token of a deployment is still uncancelled. -/
  deployments : List Bool
  /-- The guards of `lifecycle_guard` that wait for their tokens. -/
  guards : List (ℕ × String)
  users : List CanUser

/-- What can happen. -/
inductive CanSessionAction
  | deploy
  | undeploy (d : ℕ)
  /-- `on_deploy` of a node makes a guard. -/
  | addGuard (d : ℕ) (connectionId : String)
  /-- A guard finds its token cancelled. -/
  | guardFires (g : ℕ)
  /-- A call of `ensure_session` begins, goes on or is dropped. -/
  | session (a : SessionAction)
  | startUser (d : ℕ) (connectionId : String) (isListener : Bool)
  /-- `ensure_session` of a node returns. -/
  | gotSession (i : ℕ)
  | lockBus (i : ℕ)
  | takeHandle (i : ℕ)
  | checkToken (i : ℕ)
  /-- `recv` or `send` returns, and a read goes on or not. -/
  | received (i : ℕ) (again : Bool)
  | receiveFails (i : ℕ)
  /-- `CanBusRuntime::shutdown` of a node that met an error. -/
  | closeShared (i : ℕ)

namespace CanSessions

def isActive (s : CanSessions) (d : ℕ) : Bool := s.deployments[d]? == some true

def setPc (s : CanSessions) (i : ℕ) (u : CanUser) (pc : CanUser.Pc) : CanSessions :=
  { s with users := s.users.set i { u with pc } }

/-- Whether a node has the lock of the bus of a session. -/
def isLocked (s : CanSessions) (k : ℕ) : Bool := s.users.any fun u => u.pc == .handling k

/-- `cleanup_and_remove_shared_session` with `SharedCanBusSession::cleanup`. -/
def cleanupAndRemove (s : CanSessions) (connectionId : String) : CanSessions :=
  match s.shared.sessions.lookup connectionId with
  | some x => { s with
      shared := s.shared.removeSession connectionId
      -- `try_lock` leaves the bus open while a node has its lock
      closed := if x.type = "SharedCanBusSession" ∧ s.isLocked x.ident = false
        then x.ident :: s.closed else s.closed }
  | none => s

/-- A step of a node between two awaits. -/
def stepUser (s : CanSessions) (i : ℕ) (u : CanUser) : CanSessionAction → Option CanSessions
  | .gotSession _ => match u.pc with
    | .ensuring call => match (s.shared.calls[call]?).map EnsureCall.pc with
      | some (.returned (.ok x)) => some (s.setPc i u (.opening x.ident))
      | some (.returned (.error _)) => some (s.setPc i u (.returned true))
      | _ => none
    | _ => none
  | .lockBus _ => match u.pc with
    | .opening k => if s.isLocked k then none else some (s.setPc i u (.handling k))
    | _ => none
  | .takeHandle _ => match u.pc with
    | .handling k =>
        if s.closed.contains k then some (s.setPc i u (.returned true))
        else some (s.setPc i u (if u.isListener then .looping k else .receiving k))
    | _ => none
  | .checkToken _ => match u.pc with
    | .looping k =>
        some (s.setPc i u (if s.isActive u.deployment then .receiving k else .returned false))
    | _ => none
  | .received _ again => match u.pc with
    | .receiving k => some <| s.setPc i u <|
        if u.isListener then .looping k else if again then .receiving k else .returned false
    | _ => none
  | .receiveFails _ => match u.pc with
    | .receiving k => some (s.setPc i u (.failing k))
    | _ => none
  | .closeShared _ => match u.pc with
    | .failing _ => some ((s.cleanupAndRemove u.connectionId).setPc i u (.returned true))
    | _ => none
  | _ => none

/-- One step. -/
def step (s : CanSessions) (a : CanSessionAction) : Option CanSessions :=
  match a with
  | .deploy => some { s with deployments := s.deployments ++ [true] }
  | .undeploy d => some { s with deployments := s.deployments.set d false }
  | .addGuard d connectionId =>
      if s.isActive d then some { s with guards := s.guards ++ [(d, connectionId)] } else none
  | .guardFires g => (s.guards[g]?).bind fun (d, connectionId) =>
      if s.isActive d then none
      else some { s.cleanupAndRemove connectionId with guards := s.guards.eraseIdx g }
  | .session a =>
      if SharedSessions.removes a then none
      else (s.shared.step a).map fun shared => { s with shared }
  | .startUser d connectionId isListener =>
      if d < s.deployments.length then
        (s.shared.step (.ensure connectionId "SharedCanBusSession")).map fun shared => { s with
          shared
          users := s.users ++
            [⟨d, connectionId, isListener, .ensuring s.shared.calls.length⟩] }
      else none
  | .gotSession i | .lockBus i | .takeHandle i | .checkToken i | .received i _ | .receiveFails i
  | .closeShared i => (s.users[i]?).bind fun u => s.stepUser i u a

/-- Nothing is deployed, and there is no session. -/
def start : CanSessions := ⟨SharedSessions.start, [], [], [], []⟩

def machine : Machine CanSessions CanSessionAction := ⟨fun s => s = start, step⟩

/-! ## Who is served -/

/-- A listener of an active deployment that goes on has the bus of the session in the cache, and
the bus was not shut down. -/
def isServed (s : CanSessions) (u : CanUser) : Bool :=
  !(u.isListener && s.isActive u.deployment) || u.pc.bus.all fun k =>
    (s.shared.sessions.lookup u.connectionId).any (·.ident == k) && !s.closed.contains k

/-- The nodes of active deployments that have the session in the cache of a connection. -/
def usersOf (s : CanSessions) (connectionId : String) : List CanUser :=
  s.users.filter fun u => u.connectionId == connectionId && s.isActive u.deployment &&
    (s.shared.sessions.lookup connectionId).any fun x => u.pc.session == some x.ident

/-- The listeners among them that go on. -/
def listenersOf (s : CanSessions) (connectionId : String) : List CanUser :=
  (s.usersOf connectionId).filter fun u => u.isListener && u.pc.bus.isSome

/-- What is seen of an undeployment: who used the session that a guard removed. -/
def removals (s : CanSessions) : CanSessionAction → CanSessions → List (List CanUser)
  | .guardFires g, _ => ((s.guards[g]?).map fun (_, connectionId) => s.usersOf connectionId).toList
  | _, _ => []

/-- Every listener is served, and no guard has removed a session in use. -/
def Unharmed (s : CanSessions) (log : List (List CanUser)) : Prop :=
  (∀ u ∈ s.users, s.isServed u = true) ∧ ∀ users ∈ log, users = []

/-- A guard and a failed node find a session that no active deployment uses, for the latter by a
listener, and a listener gets the bus of a session only while it is in the cache. -/
def strandsNobody (s : CanSessions) : CanSessionAction → Bool
  | .guardFires g => (s.guards[g]?).all fun (_, connectionId) => (s.usersOf connectionId).isEmpty
  | .closeShared i => (s.users[i]?).all fun u => (s.listenersOf u.connectionId).isEmpty
  | .takeHandle i => (s.users[i]?).all fun u =>
      !(u.isListener && s.isActive u.deployment) || u.pc.session.all fun k =>
        s.closed.contains k || (s.shared.sessions.lookup u.connectionId).any (·.ident == k)
  | _ => true

variable {s s' : CanSessions} {a : CanSessionAction}

/-! ## The invariant -/

/-- What holds in every run: a number names one session, and a closed session is not in the
cache. -/
structure Sound (s : CanSessions) : Prop where
  fresh : s.shared.Fresh
  closed_issued : ∀ k ∈ s.closed, s.shared.Issued k
  closed_uncached : ∀ id x, s.shared.sessions.lookup id = some x → x.ident ∉ s.closed
  users_issued : ∀ u ∈ s.users, ∀ k, u.pc.session = some k → s.shared.Issued k
  users_deployed : ∀ u ∈ s.users, u.deployment < s.deployments.length

/-- What is taken out of the cache is the only thing that can be closed by it. -/
theorem mem_closed_cleanupAndRemove {connectionId : String} {k : ℕ}
    (h : k ∈ (s.cleanupAndRemove connectionId).closed) : k ∈ s.closed ∨
      ∃ x, s.shared.sessions.lookup connectionId = some x ∧ x.ident = k := by
  simp only [cleanupAndRemove] at h
  split at h
  · rename_i x hx
    split at h
    · rcases List.mem_cons.mp h with rfl | hold
      · exact .inr ⟨x, hx, rfl⟩
      · exact .inl hold
    · exact .inl h
  · exact .inl h

theorem lookup_cleanupAndRemove (connectionId id : String) :
    (s.cleanupAndRemove connectionId).shared.sessions.lookup id =
      if id = connectionId then none else s.shared.sessions.lookup id := by
  simp only [cleanupAndRemove]
  split
  · by_cases hid : id = connectionId
    · rw [if_pos hid, hid]
      exact AList.lookup_erase _ _
    · rw [if_neg hid]
      exact AList.lookup_erase_ne hid
  · rename_i hnone
    by_cases hid : id = connectionId
    · rw [if_pos hid, hid, hnone]
    · rw [if_neg hid]

@[simp] theorem users_cleanupAndRemove (connectionId : String) :
    (s.cleanupAndRemove connectionId).users = s.users := by
  simp only [cleanupAndRemove]
  split <;> rfl

@[simp] theorem deployments_cleanupAndRemove (connectionId : String) :
    (s.cleanupAndRemove connectionId).deployments = s.deployments := by
  simp only [cleanupAndRemove]
  split <;> rfl

theorem change_cleanupAndRemove (connectionId : String) : s.shared.Change
    (.removeSharedSession connectionId) (s.cleanupAndRemove connectionId).shared := by
  have herase : s.shared.Change (.removeSharedSession connectionId)
      (s.shared.removeSession connectionId) := .removed connectionId rfl rfl rfl rfl
  simp only [cleanupAndRemove]
  split
  · exact herase
  · rename_i hnone
    refine .removed connectionId rfl ?_ rfl rfl
    exact AList.ext (List.kerase_of_notMem_keys (AList.lookup_eq_none.mp hnone)).symm

theorem Sound.cleanupAndRemove (hs : s.Sound) (connectionId : String) :
    (s.cleanupAndRemove connectionId).Sound := by
  have hchange := s.change_cleanupAndRemove connectionId
  refine ⟨hs.fresh.step hchange, fun k hk => ?_, fun id x hx hk => ?_, fun u hu k hk => ?_, ?_⟩
  · rcases mem_closed_cleanupAndRemove hk with hold | ⟨x, hx, rfl⟩
    · exact (hs.closed_issued k hold).step hchange
    · exact (hs.fresh.cached_issued _ x hx).step hchange
  · rw [lookup_cleanupAndRemove] at hx
    split at hx
    · cases hx
    · rename_i hid
      rcases mem_closed_cleanupAndRemove hk with hold | ⟨y, hy, heq⟩
      · exact hs.closed_uncached id x hx hold
      · exact hid (hs.fresh.cached_inj id connectionId x y hx hy heq.symm)
  · rw [users_cleanupAndRemove] at hu
    exact (hs.users_issued u hu k hk).step hchange
  · rw [users_cleanupAndRemove, deployments_cleanupAndRemove]
    exact hs.users_deployed

/-- A node goes on with the session that it has, or with one that was made. -/
theorem Sound.setPc (hs : s.Sound) {i : ℕ} {u : CanUser} {pc : CanUser.Pc}
    (hu : s.users[i]? = some u) (hpc : ∀ k, pc.session = some k → s.shared.Issued k) :
    (s.setPc i u pc).Sound := by
  refine ⟨hs.fresh, hs.closed_issued, hs.closed_uncached, fun u' hu' k hk => ?_, fun u' hu' => ?_⟩
  · rcases List.mem_or_eq_of_mem_set hu' with hold | rfl
    · exact hs.users_issued u' hold k hk
    · exact hpc k hk
  · rcases List.mem_or_eq_of_mem_set hu' with hold | rfl
    · exact hs.users_deployed u' hold
    · exact hs.users_deployed u (List.mem_of_getElem? hu)

/-- The cache changes without losing a session, and nodes begin. -/
theorem Sound.change (hs : s.Sound) {a : SessionAction} {shared : SharedSessions}
    {users : List CanUser} (h : s.shared.Change a shared)
    (husers : ∀ u ∈ users, u ∈ s.users ∨ u.pc.session = none ∧ u.deployment < s.deployments.length) :
    { s with shared, users }.Sound := by
  refine ⟨hs.fresh.step h, fun k hk => (hs.closed_issued k hk).step h, fun id x hx hk => ?_,
    fun u hu k hk => ?_, fun u hu => ?_⟩
  · rcases h.cached hx with hold | ⟨-, i, c, hmade, -⟩
    · exact hs.closed_uncached id x hold hk
    · exact (hs.closed_issued _ hk).2 i x hmade rfl
  · rcases husers u hu with hold | ⟨hnone, -⟩
    · exact (hs.users_issued u hold k hk).step h
    · rw [hnone] at hk
      cases hk
  · rcases husers u hu with hold | ⟨-, hlt⟩
    · exact hs.users_deployed u hold
    · exact hlt

/-! ## What a node does -/

/-- What a step of a node does, with what the guard asks of it. -/
inductive Turn (s : CanSessions) (i : ℕ) (u : CanUser) (a : CanSessionAction) (s' : CanSessions) :
    Prop
  /-- The node goes on with the bus that it has, or has none. -/
  | kept (pc : CanUser.Pc) : s' = s.setPc i u pc →
      (∀ k, pc.session = some k → s.shared.Issued k) → (pc.bus = none ∨ pc.bus = u.pc.bus) →
      s.strandsNobody a = true → Turn s i u a s'
  /-- The node gets the bus of its session. -/
  | opened (k : ℕ) : a = .takeHandle i → u.pc = .handling k → s.closed.contains k = false →
      s' = s.setPc i u (if u.isListener then .looping k else .receiving k) → Turn s i u a s'
  /-- The node closes the session of its connection. -/
  | closed (k : ℕ) : a = .closeShared i → u.pc = .failing k →
      s' = (s.cleanupAndRemove u.connectionId).setPc i u (.returned true) → Turn s i u a s'

theorem stepUser_turn {i : ℕ} {u : CanUser} (hs : s.Sound) (hu : s.users[i]? = some u)
    (ha : a = .gotSession i ∨ a = .lockBus i ∨ a = .takeHandle i ∨ a = .checkToken i ∨
      (∃ again, a = .received i again) ∨ a = .receiveFails i ∨ a = .closeShared i)
    (h : s.stepUser i u a = some s') : s.Turn i u a s' := by
  have hissued : ∀ k, u.pc.session = some k → s.shared.Issued k :=
    hs.users_issued u (List.mem_of_getElem? hu)
  obtain rfl | rfl | rfl | rfl | ⟨again, rfl⟩ | rfl | rfl := ha
  · simp only [stepUser] at h
    split at h
    · rename_i call _
      split at h
      · rename_i x hcall
        cases h
        obtain ⟨c, hc, hpc⟩ := Option.map_eq_some_iff.mp hcall
        refine .kept _ rfl (fun k hk => ?_) (.inl rfl) rfl
        obtain rfl := Option.some.inj hk
        exact hs.fresh.returned_issued call c x hc hpc
      · cases h
        exact .kept _ rfl (fun k hk => by cases hk) (.inl rfl) rfl
      · cases h
    · cases h
  · simp only [stepUser] at h
    split at h
    · rename_i k hpc
      split at h
      · cases h
      · cases h
        exact .kept _ rfl (fun k hk => hissued k (hpc ▸ hk)) (.inl rfl) rfl
    · cases h
  · simp only [stepUser] at h
    split at h
    · rename_i k hpc
      split at h
      · rename_i hclosed
        cases h
        refine .kept _ rfl (fun k hk => by cases hk) (.inl rfl) ?_
        simp only [strandsNobody, hu, Option.all_some, hpc, CanUser.Pc.session, hclosed,
          Bool.true_or, Bool.or_true]
      · rename_i hopen
        cases h
        exact .opened k rfl hpc (Bool.eq_false_iff.mpr hopen) rfl
    · cases h
  · simp only [stepUser] at h
    split at h
    · rename_i k hpc
      cases h
      by_cases hactive : s.isActive u.deployment = true
      · rw [if_pos hactive]
        exact .kept _ rfl (fun k hk => hissued k (hpc ▸ hk)) (.inr (by rw [hpc]; rfl)) rfl
      · rw [if_neg hactive]
        exact .kept _ rfl (fun k hk => by cases hk) (.inl rfl) rfl
    · cases h
  · simp only [stepUser] at h
    split at h
    · rename_i k hpc
      cases h
      by_cases hlistener : u.isListener = true
      · rw [if_pos hlistener]
        exact .kept _ rfl (fun k hk => hissued k (hpc ▸ hk)) (.inr (by rw [hpc]; rfl)) rfl
      · rw [if_neg hlistener]
        by_cases hagain : again = true
        · rw [if_pos hagain]
          exact .kept _ rfl (fun k hk => hissued k (hpc ▸ hk)) (.inr (by rw [hpc])) rfl
        · rw [if_neg hagain]
          exact .kept _ rfl (fun k hk => by cases hk) (.inl rfl) rfl
    · cases h
  · simp only [stepUser] at h
    split at h
    · rename_i k hpc
      cases h
      exact .kept _ rfl (fun k hk => hissued k (hpc ▸ hk)) (.inl rfl) rfl
    · cases h
  · simp only [stepUser] at h
    split at h
    · rename_i k hpc
      cases h
      exact .closed k rfl hpc rfl
    · cases h

theorem Sound.turn {i : ℕ} {u : CanUser} (hs : s.Sound) (hu : s.users[i]? = some u)
    (h : s.Turn i u a s') : s'.Sound := by
  have hissued : ∀ k, u.pc.session = some k → s.shared.Issued k :=
    hs.users_issued u (List.mem_of_getElem? hu)
  cases h with
  | kept pc hs' hpc hbus hguard =>
      subst hs'
      exact hs.setPc hu hpc
  | opened k ha hpc hopen hs' =>
      subst hs'
      refine hs.setPc hu fun k' hk' => hissued k' ?_
      rw [hpc]
      split at hk'
      · exact hk'
      · exact hk'
  | closed k ha hpc hs' =>
      subst hs'
      refine (hs.cleanupAndRemove _).setPc ?_ fun k hk => by cases hk
      rw [users_cleanupAndRemove]
      exact hu

/-! ## What a step does -/

/-- What a step does, one case for each way. -/
inductive Effect (s : CanSessions) (a : CanSessionAction) (s' : CanSessions) : Prop
  /-- A node takes a step. -/
  | turned {i : ℕ} {u : CanUser} : s.users[i]? = some u → s.Turn i u a s' →
      s.removals a s' = [] → Effect s a s'
  /-- A guard closes the session of its connection. -/
  | fired {g d : ℕ} {connectionId : String} : a = .guardFires g →
      s.guards[g]? = some (d, connectionId) →
      s' = { s.cleanupAndRemove connectionId with guards := s.guards.eraseIdx g } → Effect s a s'
  /-- A call for a session begins or goes on. -/
  | changed (b : SessionAction) (shared : SharedSessions) (users : List CanUser) :
      s' = { s with shared, users } → s.shared.Change b shared →
      SharedSessions.removes b = false →
      (∀ u ∈ users, u ∈ s.users ∨ u.pc.session = none ∧ u.deployment < s.deployments.length) →
      s.strandsNobody a = true → s.removals a s' = [] → Effect s a s'
  /-- A deployment begins or ends, or a guard is made. -/
  | managed (deployments : List Bool) (guards : List (ℕ × String)) :
      s' = { s with deployments, guards } → s.deployments.length ≤ deployments.length →
      (∀ d < s.deployments.length, deployments[d]? = some true → s.deployments[d]? = some true) →
      s.strandsNobody a = true → s.removals a s' = [] → Effect s a s'

theorem step_effect (hs : s.Sound) (h : s.step a = some s') : s.Effect a s' := by
  have hturn {i : ℕ} (hstep : ((s.users[i]?).bind fun u => s.stepUser i u a) = some s')
      (ha : a = .gotSession i ∨ a = .lockBus i ∨ a = .takeHandle i ∨ a = .checkToken i ∨
        (∃ again, a = .received i again) ∨ a = .receiveFails i ∨ a = .closeShared i) :
      s.Effect a s' := by
    obtain ⟨u, hu, hstep⟩ := Option.bind_eq_some_iff.mp hstep
    refine .turned hu (stepUser_turn hs hu ha hstep) ?_
    obtain rfl | rfl | rfl | rfl | ⟨again, rfl⟩ | rfl | rfl := ha <;> rfl
  cases a with
  | deploy =>
      cases h
      refine .managed _ _ rfl (by simp) (fun d hd hactive => ?_) rfl rfl
      rwa [List.getElem?_append_left hd] at hactive
  | undeploy d =>
      cases h
      refine .managed _ _ rfl (by simp) (fun d' hd' hactive => ?_) rfl rfl
      by_cases hd : d = d'
      · rw [hd, List.getElem?_set_self hd'] at hactive
        cases hactive
      · rwa [List.getElem?_set_ne hd] at hactive
  | addGuard d connectionId =>
      rw [step] at h
      split at h
      · cases h
        exact .managed _ _ rfl (Nat.le_refl _) (fun d _ hactive => hactive) rfl rfl
      · cases h
  | guardFires g =>
      obtain ⟨⟨d, connectionId⟩, hg, h⟩ := Option.bind_eq_some_iff.mp h
      simp only at h
      split at h
      · cases h
      · cases h
        exact .fired rfl hg rfl
  | session b =>
      rw [step] at h
      split at h
      · cases h
      · rename_i hkeeps
        obtain ⟨shared, hshared, rfl⟩ := Option.map_eq_some_iff.mp h
        exact .changed b shared s.users rfl (SharedSessions.step_change hshared)
          (Bool.eq_false_iff.mpr hkeeps) (fun u hu => .inl hu) rfl rfl
  | startUser d connectionId isListener =>
      rw [step] at h
      split at h
      · rename_i hd
        obtain ⟨shared, hshared, rfl⟩ := Option.map_eq_some_iff.mp h
        refine .changed _ shared _ rfl (SharedSessions.step_change hshared) rfl ?_ rfl rfl
        intro u hu
        rcases List.mem_append.mp hu with hold | hnew
        · exact .inl hold
        · obtain rfl := List.mem_singleton.mp hnew
          exact .inr ⟨rfl, hd⟩
      · cases h
  | gotSession i => exact hturn h (.inl rfl)
  | lockBus i => exact hturn h (.inr (.inl rfl))
  | takeHandle i => exact hturn h (.inr (.inr (.inl rfl)))
  | checkToken i => exact hturn h (.inr (.inr (.inr (.inl rfl))))
  | received i again => exact hturn h (.inr (.inr (.inr (.inr (.inl ⟨again, rfl⟩)))))
  | receiveFails i => exact hturn h (.inr (.inr (.inr (.inr (.inr (.inl rfl))))))
  | closeShared i => exact hturn h (.inr (.inr (.inr (.inr (.inr (.inr rfl))))))

theorem Sound.step (hs : s.Sound) (h : s.step a = some s') : s'.Sound := by
  cases step_effect hs h with
  | turned hu hturn hlog => exact hs.turn hu hturn
  | fired ha hg hs' =>
      rename_i g d connectionId
      subst hs'
      have hclosed := hs.cleanupAndRemove connectionId
      exact ⟨hclosed.fresh, hclosed.closed_issued, hclosed.closed_uncached, hclosed.users_issued,
        hclosed.users_deployed⟩
  | changed b shared users hs' hchange hkeeps husers hguard hlog =>
      subst hs'
      exact hs.change hchange husers
  | managed deployments guards hs' hle hactive hguard hlog =>
      subst hs'
      exact ⟨hs.fresh, hs.closed_issued, hs.closed_uncached, hs.users_issued,
        fun u hu => Nat.lt_of_lt_of_le (hs.users_deployed u hu) hle⟩

/-- The listener `i` goes on with a bus that is not the one of the session in the cache. -/
def Stranded (s : CanSessions) (i k : ℕ) : Prop :=
  ∃ u, s.users[i]? = some u ∧ u.isListener = true ∧ u.pc.bus = some k ∧
    ∀ x, s.shared.sessions.lookup u.connectionId = some x → x.ident ≠ k

/-- What a stranded listener can do by itself: go on, find its token cancelled, or fail. -/
theorem stepUser_of_bus {i k : ℕ} {u : CanUser} (hlistener : u.isListener = true)
    (hbus : u.pc.bus = some k) (ha : a ≠ .receiveFails i)
    (hactive : a = .checkToken i → s.isActive u.deployment = true)
    (hown : a = .gotSession i ∨ a = .lockBus i ∨ a = .takeHandle i ∨ a = .checkToken i ∨
      (∃ again, a = .received i again) ∨ a = .receiveFails i ∨ a = .closeShared i)
    (h : s.stepUser i u a = some s') : ∃ pc, s' = s.setPc i u pc ∧ pc.bus = some k := by
  obtain ⟨deployment, connectionId, isListener, pc⟩ := u
  obtain rfl : isListener = true := hlistener
  cases pc with
  | looping k' =>
      obtain rfl := Option.some.inj hbus
      obtain rfl | rfl | rfl | rfl | ⟨again, rfl⟩ | rfl | rfl := hown
      · cases h
      · cases h
      · cases h
      · cases h
        rw [if_pos (hactive rfl)]
        exact ⟨_, rfl, rfl⟩
      · cases h
      · cases h
      · cases h
  | receiving k' =>
      obtain rfl := Option.some.inj hbus
      obtain rfl | rfl | rfl | rfl | ⟨again, rfl⟩ | rfl | rfl := hown
      · cases h
      · cases h
      · cases h
      · cases h
      · cases h
        exact ⟨_, rfl, rfl⟩
      · exact absurd rfl ha
      · cases h
  | _ => cases hbus

/-- A stranded listener stays stranded, unless its own `recv` fails or its deployment ends. -/
theorem Stranded.step {i k : ℕ} (hs : s.Sound) (hst : s.Stranded i k) (h : s.step a = some s')
    (ha : a ≠ .receiveFails i)
    (hactive : ∀ u, s.users[i]? = some u → a = .checkToken i → s.isActive u.deployment = true) :
    s'.Stranded i k := by
  obtain ⟨u, hu, hlistener, hbus, hlookup⟩ := hst
  have hissued := hs.users_issued u (List.mem_of_getElem? hu) k (CanUser.Pc.session_of_bus hbus)
  have hcleanup (connectionId : String) (x : SharedSession) (hx :
      (s.cleanupAndRemove connectionId).shared.sessions.lookup u.connectionId = some x) :
      x.ident ≠ k := by
    rw [lookup_cleanupAndRemove] at hx
    split at hx
    · cases hx
    · exact hlookup x hx
  have hchange {b : SessionAction} {shared : SharedSessions} (hb : s.shared.Change b shared)
      (x : SharedSession) (hx : shared.sessions.lookup u.connectionId = some x) : x.ident ≠ k := by
    rcases hb.cached hx with hold | ⟨-, j, c, hmade, -⟩
    · exact hlookup x hold
    · exact hissued.2 j x hmade
  obtain ⟨hlt, -⟩ := List.getElem?_eq_some_iff.mp hu
  have hturn {j : ℕ} (hstep : ((s.users[j]?).bind fun u => s.stepUser j u a) = some s')
      (hown : a = .gotSession j ∨ a = .lockBus j ∨ a = .takeHandle j ∨ a = .checkToken j ∨
        (∃ again, a = .received j again) ∨ a = .receiveFails j ∨ a = .closeShared j) :
      s'.Stranded i k := by
    obtain ⟨u', hu', hstep⟩ := Option.bind_eq_some_iff.mp hstep
    by_cases hij : j = i
    · subst hij
      obtain rfl := Option.some.inj (hu.symm.trans hu')
      obtain ⟨pc, rfl, hpc⟩ := stepUser_of_bus hlistener hbus ha (hactive u hu) hown hstep
      exact ⟨{ u with pc }, List.getElem?_set_self hlt, hlistener, hpc, hlookup⟩
    · cases stepUser_turn hs hu' hown hstep with
      | kept pc hs' hpc hbus' hguard =>
          subst hs'
          exact ⟨u, (List.getElem?_set_ne hij).trans hu, hlistener, hbus, hlookup⟩
      | opened k' ha' hpc hopen hs' =>
          subst hs'
          exact ⟨u, (List.getElem?_set_ne hij).trans hu, hlistener, hbus, hlookup⟩
      | closed k' ha' hpc hs' =>
          subst hs'
          refine ⟨u, ?_, hlistener, hbus, hcleanup u'.connectionId⟩
          rw [setPc, users_cleanupAndRemove, List.getElem?_set_ne hij]
          exact hu
  cases a with
  | gotSession j => exact hturn h (.inl rfl)
  | lockBus j => exact hturn h (.inr (.inl rfl))
  | takeHandle j => exact hturn h (.inr (.inr (.inl rfl)))
  | checkToken j => exact hturn h (.inr (.inr (.inr (.inl rfl))))
  | received j again => exact hturn h (.inr (.inr (.inr (.inr (.inl ⟨again, rfl⟩)))))
  | receiveFails j => exact hturn h (.inr (.inr (.inr (.inr (.inr (.inl rfl))))))
  | closeShared j => exact hturn h (.inr (.inr (.inr (.inr (.inr (.inr rfl))))))
  | deploy =>
      cases h
      exact ⟨u, hu, hlistener, hbus, hlookup⟩
  | undeploy d =>
      cases h
      exact ⟨u, hu, hlistener, hbus, hlookup⟩
  | addGuard d connectionId =>
      rw [CanSessions.step] at h
      split at h
      · cases h
        exact ⟨u, hu, hlistener, hbus, hlookup⟩
      · cases h
  | guardFires g =>
      obtain ⟨⟨d, connectionId⟩, -, h⟩ := Option.bind_eq_some_iff.mp h
      simp only at h
      split at h
      · cases h
      · cases h
        exact ⟨u, (users_cleanupAndRemove connectionId).symm ▸ hu, hlistener, hbus,
          hcleanup connectionId⟩
  | session b =>
      rw [CanSessions.step] at h
      split at h
      · cases h
      · obtain ⟨shared, hshared, rfl⟩ := Option.map_eq_some_iff.mp h
        exact ⟨u, hu, hlistener, hbus, hchange (SharedSessions.step_change hshared)⟩
  | startUser d connectionId isListener =>
      rw [CanSessions.step] at h
      split at h
      · obtain ⟨shared, hshared, rfl⟩ := Option.map_eq_some_iff.mp h
        refine ⟨u, ?_, hlistener, hbus, hchange (SharedSessions.step_change hshared)⟩
        exact (List.getElem?_append_left hlt).trans hu
      · cases h

/-! ## Runs -/

end CanSessions

end Nazh
