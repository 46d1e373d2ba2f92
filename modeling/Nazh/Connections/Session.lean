import Mathlib.Data.List.AList
import Nazh.Core.Error
import Nazh.Lib.Machine

/-!
# Shared sessions

Callers of one connection share a session. The first of them makes it, under a lock of
that connection, and takes the lock out of its map once the session is in the cache;
the others find the session there. Between two awaits a call runs alone.

A call that waits for a lock keeps it when the map no longer has it. Is the session
removed before such a call looks for it, the call makes a session under the old lock,
and the next one under a new one (`keepsLock` says that no lock is made while another
is in use).
-/

namespace Nazh

open Lib

/-- A session in the cache: the type of its value, and which of them it is. -/
structure SharedSession where
  type : String
  ident : ℕ
  deriving DecidableEq, Repr

/-- `downcast::<T>()` of a session found for a connection. -/
def SharedSession.downcast (existing : SharedSession) (connectionId type : String) :
    Except EngineError SharedSession :=
  if existing.type = type then .ok existing
  else .error (.nodeConfig connectionId "共享会话类型不匹配")

namespace EnsureCall

/-- Where a call of `ensure_shared_session` stands. -/
inductive Pc
  /-- Before the first look into the cache. -/
  | checking
  /-- In `initializer.lock().await`. -/
  | waiting (lock : ℕ)
  /-- Before the second look, with the lock. -/
  | locked (lock : ℕ)
  /-- In the factory. -/
  | creating (lock : ℕ)
  /-- Before the cache is written. -/
  | created (lock : ℕ) (session : SharedSession)
  | returned (result : Except EngineError SharedSession)
  /-- Dropped by its caller. -/
  | dropped
  deriving DecidableEq

namespace Pc

/-- The lock a call waits for or has. -/
def lock : Pc → Option ℕ
  | waiting l | locked l | creating l | created l _ => some l
  | _ => none

/-- The lock a call has. -/
def held : Pc → Option ℕ
  | locked l | creating l | created l _ => some l
  | _ => none

/-- Whether the factory of a call is running. -/
def isCreating : Pc → Bool
  | creating _ => true
  | _ => false

/-- What a call has is what it waited for. -/
theorem lock_eq_of_held {pc : Pc} {l : ℕ} (h : pc.held = some l) : pc.lock = some l := by
  cases pc with
  | waiting _ => cases h
  | locked _ => exact h
  | creating _ => exact h
  | created _ _ => exact h
  | checking => cases h
  | returned _ => cases h
  | dropped => cases h

/-- A factory runs under a lock. -/
theorem exists_held_of_isCreating {pc : Pc} (h : pc.isCreating = true) :
    ∃ l, pc.held = some l := by
  cases pc with
  | creating l => exact ⟨l, rfl⟩
  | _ => cases h

end Pc
end EnsureCall

/-- A call of `ensure_shared_session::<T>`. -/
structure EnsureCall where
  connectionId : String
  type : String
  pc : EnsureCall.Pc
  deriving DecidableEq

/-- The sessions of a connection manager, and the calls for them. -/
structure SharedSessions where
  sessions : AList fun _ : String => SharedSession
  initializers : AList fun _ : String => ℕ
  /-- The next lock and the next session to be made. -/
  nextLock : ℕ
  nextSession : ℕ
  calls : List EnsureCall

/-- What can happen. -/
inductive SessionAction
  | ensure (connectionId type : String)
  /-- The call `i` runs on to its next await. -/
  | resume (i : ℕ)
  /-- The factory of the call `i` ends. -/
  | factoryDone (i : ℕ) (result : Except EngineError Unit)
  /-- The caller of the call `i` drops it. -/
  | drop (i : ℕ)
  | removeSharedSession (connectionId : String)
  | takeSharedSession (connectionId type : String)
  | cleanupAndRemoveSharedSession (connectionId type : String)

namespace SharedSessions

open EnsureCall

/-- Whether a call has the guard of a lock. -/
def isLocked (s : SharedSessions) (l : ℕ) : Bool := s.calls.any fun c => c.pc.held = some l

/-- The call `i` goes on to `pc`. -/
def setPc (s : SharedSessions) (i : ℕ) (c : EnsureCall) (pc : Pc) : SharedSessions :=
  { s with calls := s.calls.set i { c with pc } }

/-- `initializer_lock`: the lock of a connection, made if there is none. -/
def initializerLock (s : SharedSessions) (connectionId : String) : ℕ × SharedSessions :=
  match s.initializers.lookup connectionId with
  | some l => (l, s)
  | none => (s.nextLock,
      { s with
        initializers := s.initializers.insert connectionId s.nextLock
        nextLock := s.nextLock + 1 })

/-- `remove_initializer_lock`. -/
def removeInitializerLock (s : SharedSessions) (connectionId : String) : SharedSessions :=
  { s with initializers := s.initializers.erase connectionId }

/-- `remove_shared_session`; the others differ in what they do with the session. -/
def removeSession (s : SharedSessions) (connectionId : String) : SharedSessions :=
  { s with sessions := s.sessions.erase connectionId }

/-- A call between two awaits. -/
def resume (s : SharedSessions) (i : ℕ) (c : EnsureCall) : Option SharedSessions :=
  match c.pc with
  | .checking => match s.sessions.lookup c.connectionId with
    | some existing => some (s.setPc i c (.returned (existing.downcast c.connectionId c.type)))
    | none =>
        let (l, s) := s.initializerLock c.connectionId
        some (s.setPc i c (.waiting l))
  | .waiting l => if s.isLocked l then none else some (s.setPc i c (.locked l))
  | .locked l => match s.sessions.lookup c.connectionId with
    | some existing => some (s.setPc i c (.returned (existing.downcast c.connectionId c.type)))
    | none => some (s.setPc i c (.creating l))
  | .created _ session => match s.sessions.lookup c.connectionId with
    | some existing => some (s.setPc i c (.returned (existing.downcast c.connectionId c.type)))
    | none =>
        let s := { s with sessions := s.sessions.insert c.connectionId session }
        some ((s.removeInitializerLock c.connectionId).setPc i c (.returned (.ok session)))
  | .creating _ | .returned _ | .dropped => none

/-- The factory of a call ends. -/
def factoryDone (s : SharedSessions) (i : ℕ) (c : EnsureCall) (result : Except EngineError Unit) :
    Option SharedSessions :=
  match c.pc, result with
  | .creating l, .ok () => some <|
      { s with nextSession := s.nextSession + 1 }.setPc i c (.created l ⟨c.type, s.nextSession⟩)
  | .creating _, .error e => some (s.setPc i c (.returned (.error e)))
  | _, _ => none

/-- A call is dropped at an await, and its guard with it. -/
def dropCall (s : SharedSessions) (i : ℕ) (c : EnsureCall) : Option SharedSessions :=
  match c.pc with
  | .returned _ | .dropped => none
  | _ => some (s.setPc i c .dropped)

/-- One step. -/
def step (s : SharedSessions) : SessionAction → Option SharedSessions
  | .ensure connectionId type =>
      some { s with calls := s.calls ++ [⟨connectionId, type, .checking⟩] }
  | .resume i => s.calls[i]?.bind (s.resume i)
  | .factoryDone i result => s.calls[i]?.bind (s.factoryDone i · result)
  | .drop i => s.calls[i]?.bind (s.dropCall i)
  | .removeSharedSession connectionId => some (s.removeSession connectionId)
  | .takeSharedSession connectionId _ => some (s.removeSession connectionId)
  | .cleanupAndRemoveSharedSession connectionId _ => some (s.removeSession connectionId)

/-- A connection manager nobody has called. -/
def start : SharedSessions := ⟨∅, ∅, 0, 0, []⟩

def machine : Machine SharedSessions SessionAction := ⟨fun s => s = start, step⟩

/-- Whether a call of a connection waits for a lock or has one. -/
def usesLock (s : SharedSessions) (connectionId : String) : Bool :=
  s.calls.any fun c => c.connectionId = connectionId && c.pc.lock.isSome

/-- No lock of a connection is made in this step while another is in use. -/
def keepsLock (s : SharedSessions) : SessionAction → Bool
  | .resume i => match s.calls[i]? with
    | some ⟨connectionId, _, .checking⟩ =>
        (s.sessions.lookup connectionId).isSome || (s.initializers.lookup connectionId).isSome ||
          !s.usesLock connectionId
    | _ => true
  | _ => true

variable {s s' : SharedSessions}

/-! ## What a step does -/

/-- What a step does to the calls and to the map of locks, one case for each way. -/
inductive Effect (s : SharedSessions) (a : SessionAction) (s' : SharedSessions) : Prop
  /-- A session is removed. -/
  | removed : s'.calls = s.calls → s'.initializers = s.initializers → Effect s a s'
  /-- A call begins. -/
  | called {c : EnsureCall} : c.pc.lock = none → s'.calls = s.calls ++ [c] →
      s'.initializers = s.initializers → Effect s a s'
  /-- A call goes on with what it has, or gives it up. -/
  | moved {i : ℕ} {c : EnsureCall} {pc : Pc} : s.calls[i]? = some c →
      s'.calls = s.calls.set i { c with pc } →
      (pc.lock = none ∨ pc.lock = c.pc.lock) → (pc.held = none ∨ pc.held = c.pc.held) →
      (∀ id l, s'.initializers.lookup id = some l → s.initializers.lookup id = some l) →
      Effect s a s'
  /-- A call takes the lock it waited for. -/
  | acquired {i : ℕ} {c : EnsureCall} {l : ℕ} : s.calls[i]? = some c → c.pc = .waiting l →
      s.isLocked l = false → s'.calls = s.calls.set i { c with pc := .locked l } →
      s'.initializers = s.initializers → Effect s a s'
  /-- A call finds the lock of its connection. -/
  | joined {i : ℕ} {c : EnsureCall} {l : ℕ} : s.calls[i]? = some c →
      s.initializers.lookup c.connectionId = some l →
      s'.calls = s.calls.set i { c with pc := .waiting l } →
      s'.initializers = s.initializers → Effect s a s'
  /-- A call makes the lock of its connection. -/
  | made {i : ℕ} {c : EnsureCall} {l : ℕ} : s.calls[i]? = some c →
      (s.keepsLock a = true → s.usesLock c.connectionId = false) →
      s'.calls = s.calls.set i { c with pc := .waiting l } →
      s'.initializers = s.initializers.insert c.connectionId l → Effect s a s'

theorem resume_effect {i : ℕ} {c : EnsureCall} (hc : s.calls[i]? = some c)
    (h : s.resume i c = some s') : s.Effect (.resume i) s' := by
  obtain ⟨id, type, pc⟩ := c
  have hkept : ∀ id l, s.initializers.lookup id = some l → s.initializers.lookup id = some l :=
    fun _ _ h => h
  cases pc with
  | checking =>
      simp only [resume] at h
      split at h
      · cases h
        exact .moved hc rfl (.inl rfl) (.inl rfl) hkept
      · rename_i hnone
        simp only [initializerLock] at h
        split at h
        · rename_i l hl
          cases h
          exact .joined hc hl rfl rfl
        · rename_i hl
          cases h
          refine .made hc ?_ rfl rfl
          intro hkeep
          simpa [keepsLock, hc, hnone, hl] using hkeep
  | waiting l =>
      simp only [resume] at h
      split at h
      · cases h
      · rename_i hfree
        cases h
        exact .acquired hc rfl (by simpa using hfree) rfl rfl
  | locked l =>
      simp only [resume] at h
      split at h
      · cases h
        exact .moved hc rfl (.inl rfl) (.inl rfl) hkept
      · cases h
        exact .moved hc rfl (.inr rfl) (.inr rfl) hkept
  | created l session =>
      simp only [resume] at h
      split at h
      · cases h
        exact .moved hc rfl (.inl rfl) (.inl rfl) hkept
      · cases h
        refine .moved hc rfl (.inl rfl) (.inl rfl) ?_
        intro id' l' hl'
        by_cases hid : id' = id
        · subst hid
          simp [setPc, removeInitializerLock] at hl'
        · simpa [setPc, removeInitializerLock, AList.lookup_erase_ne hid] using hl'
  | creating l => cases h
  | returned result => cases h
  | dropped => cases h

theorem factoryDone_effect {i : ℕ} {c : EnsureCall} {result : Except EngineError Unit}
    (hc : s.calls[i]? = some c) (h : s.factoryDone i c result = some s') (a : SessionAction) :
    s.Effect a s' := by
  obtain ⟨id, type, pc⟩ := c
  cases pc with
  | creating l =>
      cases result with
      | ok _ =>
          cases h
          exact .moved hc rfl (.inr rfl) (.inr rfl) fun _ _ h => h
      | error e =>
          cases h
          exact .moved hc rfl (.inl rfl) (.inl rfl) fun _ _ h => h
  | _ => cases h

theorem dropCall_effect {i : ℕ} {c : EnsureCall} (hc : s.calls[i]? = some c)
    (h : s.dropCall i c = some s') (a : SessionAction) : s.Effect a s' := by
  have hs : s' = s.setPc i c .dropped := by
    simp only [dropCall] at h
    split at h
    · cases h
    · cases h
    · exact (Option.some.inj h).symm
  subst hs
  exact .moved hc rfl (.inl rfl) (.inl rfl) fun _ _ h => h

theorem step_effect {a : SessionAction} (h : s.step a = some s') : s.Effect a s' := by
  cases a with
  | ensure connectionId type =>
      cases h
      exact .called rfl rfl rfl
  | resume i =>
      obtain ⟨c, hc, hstep⟩ := Option.bind_eq_some_iff.mp h
      exact resume_effect hc hstep
  | factoryDone i result =>
      obtain ⟨c, hc, hstep⟩ := Option.bind_eq_some_iff.mp h
      exact factoryDone_effect hc hstep _
  | drop i =>
      obtain ⟨c, hc, hstep⟩ := Option.bind_eq_some_iff.mp h
      exact dropCall_effect hc hstep _
  | removeSharedSession connectionId =>
      cases h
      exact .removed rfl rfl
  | takeSharedSession connectionId type =>
      cases h
      exact .removed rfl rfl
  | cleanupAndRemoveSharedSession connectionId type =>
      cases h
      exact .removed rfl rfl

/-- A call after one more was made is an old one or that one. -/
theorem getElem?_concat_cases {calls : List EnsureCall} {c₀ c : EnsureCall} {i : ℕ}
    (h : (calls ++ [c₀])[i]? = some c) : calls[i]? = some c ∨ c = c₀ := by
  rw [List.getElem?_append] at h
  split at h
  · exact .inl h
  · exact .inr (by simpa using List.mem_of_getElem? h)

/-! ## A lock has one guard -/

/-- No two calls have the guard of one lock. -/
def HeldOnce (s : SharedSessions) : Prop :=
  ∀ (i j : ℕ) (c c' : EnsureCall) (l : ℕ), s.calls[i]? = some c → s.calls[j]? = some c' →
    c.pc.held = some l → c'.pc.held = some l → i = j

/-- Who has a guard keeps the lock locked. -/
theorem not_held_of_free {i : ℕ} {c : EnsureCall} {l : ℕ} (hfree : s.isLocked l = false)
    (hc : s.calls[i]? = some c) : c.pc.held ≠ some l := by
  simp only [isLocked, List.any_eq_false, decide_eq_true_eq] at hfree
  exact hfree c (List.mem_of_getElem? hc)

/-- Where one call changes, the guards are unique if its new guard is new to the others. -/
theorem HeldOnce.set (hi : s.HeldOnce) {i : ℕ} {c : EnsureCall} {pc : Pc}
    (hcalls : s'.calls = s.calls.set i { c with pc })
    (hnew : ∀ (j : ℕ) (c' : EnsureCall) (l : ℕ), j ≠ i → s.calls[j]? = some c' →
      c'.pc.held = some l → pc.held ≠ some l) : s'.HeldOnce := by
  have hcase : ∀ (j : ℕ) (c' : EnsureCall), s'.calls[j]? = some c' →
      (j = i ∧ c'.pc = pc) ∨ (j ≠ i ∧ s.calls[j]? = some c') := by
    intro j c' hj
    rw [hcalls, List.getElem?_set] at hj
    by_cases hij : i = j
    · subst hij
      simp only [if_true] at hj
      split at hj
      · obtain rfl := Option.some.inj hj
        exact .inl ⟨rfl, rfl⟩
      · cases hj
    · rw [if_neg hij] at hj
      exact .inr ⟨Ne.symm hij, hj⟩
  intro j k c₁ c₂ l hj hk h₁ h₂
  rcases hcase j c₁ hj with ⟨rfl, hpc₁⟩ | ⟨hji, hj'⟩
  · rcases hcase k c₂ hk with ⟨rfl, -⟩ | ⟨hki, hk'⟩
    · rfl
    · exact absurd (hpc₁ ▸ h₁) (hnew k c₂ l hki hk' h₂)
  · rcases hcase k c₂ hk with ⟨rfl, hpc₂⟩ | ⟨-, hk'⟩
    · exact absurd (hpc₂ ▸ h₂) (hnew j c₁ l hji hj' h₁)
    · exact hi j k c₁ c₂ l hj' hk' h₁ h₂

theorem HeldOnce.step {a : SessionAction} (hi : s.HeldOnce) (h : s.step a = some s') :
    s'.HeldOnce := by
  cases step_effect h with
  | removed hcalls =>
      intro i j c c' l hc hc'
      rw [hcalls] at hc hc'
      exact hi i j c c' l hc hc'
  | @called c₀ hlock hcalls =>
      have hold : ∀ (i : ℕ) (c : EnsureCall) (l : ℕ), s'.calls[i]? = some c →
          c.pc.held = some l → s.calls[i]? = some c := by
        intro i c l hc hheld
        rw [hcalls] at hc
        rcases getElem?_concat_cases hc with hold | rfl
        · exact hold
        · rw [Pc.lock_eq_of_held hheld] at hlock
          cases hlock
      intro i j c c' l hc hc' h₁ h₂
      exact hi i j c c' l (hold i c l hc h₁) (hold j c' l hc' h₂) h₁ h₂
  | @moved i c pc hc hcalls _ hheld _ =>
      refine hi.set hcalls ?_
      intro j c' l hji hc' hl hpc
      rcases hheld with hnone | hsame
      · rw [hnone] at hpc
        cases hpc
      · rw [hsame] at hpc
        exact hji (hi j i c' c l hc' hc hl hpc)
  | @acquired i c l hc _ hfree hcalls _ =>
      refine hi.set hcalls ?_
      intro j c' l' _ hc' hl hpc
      obtain rfl : l = l' := Option.some.inj hpc
      exact not_held_of_free hfree hc' hl
  | joined _ _ hcalls _ =>
      refine hi.set hcalls ?_
      intro j c' l _ _ _ hpc
      cases hpc
  | made _ _ hcalls _ =>
      refine hi.set hcalls ?_
      intro j c' l _ _ _ hpc
      cases hpc

theorem heldOnce_of_reaches (h : machine.Reaches s) : s.HeldOnce := by
  refine Machine.ReachesUnder.invariant ?_ ?_ h
  · intro s hs i j c c' l hc
    obtain rfl : s = start := hs
    simp [start] at hc
  · intro s a s' hi _ hstep
    exact hi.step hstep

/-! ## A connection has one lock -/

/-- Every call of a connection that uses a lock uses this one, and no other is in the map. -/
structure OneLock (s : SharedSessions) (lockOf : String → ℕ) : Prop where
  used : ∀ c ∈ s.calls, ∀ l, c.pc.lock = some l → l = lockOf c.connectionId
  mapped : ∀ id l, s.initializers.lookup id = some l → l = lockOf id

/-- Where one call changes, its lock is to be the one of its connection. -/
theorem OneLock.set {lockOf : String → ℕ} (hi : s.OneLock lockOf) {i : ℕ} {c : EnsureCall} {pc : Pc}
    (hcalls : s'.calls = s.calls.set i { c with pc })
    (hnew : ∀ l, pc.lock = some l → l = lockOf c.connectionId)
    (hmap : ∀ id l, s'.initializers.lookup id = some l → l = lockOf id) : s'.OneLock lockOf where
  used c' hc' l hl := by
    rw [hcalls] at hc'
    rcases List.mem_or_eq_of_mem_set hc' with hold | rfl
    · exact hi.used c' hold l hl
    · exact hnew l hl
  mapped := hmap

/-- A step that makes no lock beside another keeps the locks one. -/
theorem OneLock.step {lockOf : String → ℕ} {a : SessionAction} (hi : s.OneLock lockOf)
    (hkeep : s.keepsLock a = true) (h : s.step a = some s') : ∃ lockOf, s'.OneLock lockOf := by
  cases step_effect h with
  | removed hcalls hinit =>
      refine ⟨lockOf, ?_, ?_⟩
      · rw [hcalls]
        exact hi.used
      · rw [hinit]
        exact hi.mapped
  | @called c₀ hlock hcalls hinit =>
      refine ⟨lockOf, ?_, ?_⟩
      · intro c hc l hl
        rw [hcalls] at hc
        rcases List.mem_append.mp hc with hold | hnew
        · exact hi.used c hold l hl
        · rw [List.mem_singleton.mp hnew, hlock] at hl
          cases hl
      · rw [hinit]
        exact hi.mapped
  | @moved i c pc hc hcalls hlock _ hmap =>
      refine ⟨lockOf, hi.set hcalls ?_ ?_⟩
      · intro l hl
        rcases hlock with hnone | hsame
        · rw [hnone] at hl
          cases hl
        · exact hi.used c (List.mem_of_getElem? hc) l (hsame ▸ hl)
      · intro id l hl
        exact hi.mapped id l (hmap id l hl)
  | @acquired i c l hc hpc _ hcalls hinit =>
      refine ⟨lockOf, hi.set hcalls ?_ ?_⟩
      · intro l' hl'
        refine hi.used c (List.mem_of_getElem? hc) l' ?_
        rw [hpc]
        exact hl'
      · rw [hinit]
        exact hi.mapped
  | @joined i c l hc hl hcalls hinit =>
      refine ⟨lockOf, hi.set hcalls ?_ ?_⟩
      · intro l' hl'
        obtain rfl : l = l' := Option.some.inj hl'
        exact hi.mapped c.connectionId l hl
      · rw [hinit]
        exact hi.mapped
  | @made i c l hc hunused hcalls hinit =>
      have hfree := hunused hkeep
      simp only [usesLock, List.any_eq_false, Bool.and_eq_true, decide_eq_true_eq, not_and,
        Bool.not_eq_true, Option.isSome_eq_false_iff, Option.isNone_iff_eq_none] at hfree
      -- nobody uses a lock of this connection: the new one becomes its lock
      refine ⟨Function.update lockOf c.connectionId l, ?_, ?_⟩
      · intro c' hc' l' hl'
        rw [hcalls] at hc'
        rcases List.mem_or_eq_of_mem_set hc' with hold | rfl
        · have hne : c'.connectionId ≠ c.connectionId := by
            intro heq
            rw [hfree c' hold heq] at hl'
            cases hl'
          rw [Function.update_of_ne hne]
          exact hi.used c' hold l' hl'
        · obtain rfl : l = l' := Option.some.inj hl'
          exact (Function.update_self c.connectionId l lockOf).symm
      · intro id l' hl'
        rw [hinit] at hl'
        by_cases hid : id = c.connectionId
        · subst hid
          rw [AList.lookup_insert] at hl'
          obtain rfl : l = l' := Option.some.inj hl'
          exact (Function.update_self c.connectionId l lockOf).symm
        · rw [AList.lookup_insert_ne hid] at hl'
          rw [Function.update_of_ne hid]
          exact hi.mapped id l' hl'

theorem oneLock_of_reaches (h : machine.ReachesUnder (fun s a => s.keepsLock a) s) :
    ∃ lockOf, s.OneLock lockOf := by
  refine Machine.ReachesUnder.invariant (I := fun s => ∃ lockOf, OneLock s lockOf) ?_ ?_ h
  · intro s hs
    obtain rfl : s = start := hs
    refine ⟨fun _ => 0, ?_, ?_⟩
    · intro c hc
      cases hc
    · intro id l hl
      cases hl
  · rintro s a s' ⟨lockOf, hi⟩ hkeep hstep
    exact hi.step hkeep hstep

/-! ## What callers get -/

/-- Who downcasts a session has that session. -/
theorem eq_of_downcast {existing session : SharedSession} {connectionId type : String}
    (h : existing.downcast connectionId type = .ok session) : existing = session := by
  simp only [SharedSession.downcast] at h
  split at h
  · exact Except.ok.inj h
  · cases h

/-- A call changes alone, and if it gets a session, that session is in the cache. -/
theorem resume_cached {k : ℕ} {c : EnsureCall} (h : s.resume k c = some s') :
    ∃ pc, s'.calls = s.calls.set k { c with pc } ∧ ∀ session, pc = .returned (.ok session) →
      s'.sessions.lookup c.connectionId = some session := by
  have hfound : ∀ existing, s.sessions.lookup c.connectionId = some existing →
      ∀ session, Pc.returned (existing.downcast c.connectionId c.type) = .returned (.ok session) →
        s.sessions.lookup c.connectionId = some session := by
    intro existing hexisting session hpc
    rw [hexisting, eq_of_downcast (Pc.returned.inj hpc)]
  simp only [resume] at h
  split at h
  · split at h
    · rename_i existing hexisting
      cases h
      exact ⟨_, rfl, hfound existing hexisting⟩
    · cases h
      refine ⟨.waiting (s.initializerLock c.connectionId).1, ?_, fun session hpc => by cases hpc⟩
      simp only [initializerLock]
      split <;> rfl
  · split at h
    · cases h
    · cases h
      exact ⟨_, rfl, fun session hpc => by cases hpc⟩
  · split at h
    · rename_i existing hexisting
      cases h
      exact ⟨_, rfl, hfound existing hexisting⟩
    · cases h
      exact ⟨_, rfl, fun session hpc => by cases hpc⟩
  · rename_i l session _
    split at h
    · rename_i existing hexisting
      cases h
      exact ⟨_, rfl, hfound existing hexisting⟩
    · cases h
      refine ⟨_, rfl, ?_⟩
      intro session' hpc
      obtain rfl : session = session' := Except.ok.inj (Pc.returned.inj hpc)
      simp [setPc, removeInitializerLock]
  · cases h
  · cases h
  · cases h

/-- So does every step: who gets a session in it gets what is then in the cache. -/
theorem cached_of_returned {a : SessionAction} (h : s.step a = some s') {i : ℕ} {c : EnsureCall}
    {session : SharedSession} (hc : s'.calls[i]? = some c) (hpc : c.pc = .returned (.ok session))
    (hbefore : s.calls[i]? ≠ some c) : s'.sessions.lookup c.connectionId = some session := by
  have hset : ∀ (k : ℕ) (c₀ : EnsureCall) (pc : Pc), s'.calls = s.calls.set k { c₀ with pc } →
      c = { c₀ with pc } := by
    intro k c₀ pc hcalls
    rw [hcalls, List.getElem?_set] at hc
    by_cases hk : k = i
    · subst hk
      simp only [if_true] at hc
      split at hc
      · exact (Option.some.inj hc).symm
      · cases hc
    · rw [if_neg hk] at hc
      exact absurd hc hbefore
  cases a with
  | ensure connectionId type =>
      cases h
      rcases getElem?_concat_cases hc with hold | rfl
      · exact absurd hold hbefore
      · cases hpc
  | resume k =>
      obtain ⟨c₀, -, hstep⟩ := Option.bind_eq_some_iff.mp h
      obtain ⟨pc, hcalls, hcached⟩ := resume_cached hstep
      obtain rfl := hset k c₀ pc hcalls
      exact hcached session hpc
  | factoryDone k result =>
      obtain ⟨c₀, -, hstep⟩ := Option.bind_eq_some_iff.mp h
      simp only [factoryDone] at hstep
      split at hstep
      · cases hstep
        obtain rfl := hset k c₀ _ rfl
        cases hpc
      · cases hstep
        obtain rfl := hset k c₀ _ rfl
        cases hpc
      · cases hstep
  | drop k =>
      obtain ⟨c₀, -, hstep⟩ := Option.bind_eq_some_iff.mp h
      simp only [dropCall] at hstep
      split at hstep
      · cases hstep
      · cases hstep
      · cases hstep
        obtain rfl := hset k c₀ _ rfl
        cases hpc
  | removeSharedSession connectionId =>
      cases h
      exact absurd hc hbefore
  | takeSharedSession connectionId type =>
      cases h
      exact absurd hc hbefore
  | cleanupAndRemoveSharedSession connectionId type =>
      cases h
      exact absurd hc hbefore

/-! ## Single flight -/

/-- In runs that make no lock of a connection while another is in use, its factories run
one at a time; and who gets a session gets the one in the cache. -/
theorem single_flight (h : machine.ReachesUnder (fun s a => s.keepsLock a) s) :
    (∀ (i j : ℕ) (c c' : EnsureCall), s.calls[i]? = some c → s.calls[j]? = some c' →
      c.connectionId = c'.connectionId → c.pc.isCreating = true → c'.pc.isCreating = true →
      i = j) ∧
    ∀ (a : SessionAction) (s' : SharedSessions), s.step a = some s' →
      ∀ (i : ℕ) (c : EnsureCall) (session : SharedSession), s'.calls[i]? = some c →
        c.pc = .returned (.ok session) → s.calls[i]? ≠ some c →
        s'.sessions.lookup c.connectionId = some session := by
  constructor
  · intro i j c c' hc hc' hid hcreating hcreating'
    obtain ⟨lockOf, hone⟩ := oneLock_of_reaches h
    obtain ⟨l, hl⟩ := Pc.exists_held_of_isCreating hcreating
    obtain ⟨l', hl'⟩ := Pc.exists_held_of_isCreating hcreating'
    have hsame : l = l' := calc
      l = lockOf c.connectionId := hone.used c (List.mem_of_getElem? hc) l (Pc.lock_eq_of_held hl)
      _ = lockOf c'.connectionId := by rw [hid]
      _ = l' := (hone.used c' (List.mem_of_getElem? hc') l' (Pc.lock_eq_of_held hl')).symm
    exact heldOnce_of_reaches h.reaches i j c c' l hc hc' hl (hsame ▸ hl')
  · intro a s' hstep i c session hc hpc hbefore
    exact cached_of_returned hstep hc hpc hbefore

/-! ## A lock that is taken out of the map -/

/-- The first call makes a session while the second waits for its lock. -/
def pair : List SessionAction :=
  [.ensure "can" "Bus", .ensure "can" "Bus", .resume 0, .resume 0, .resume 0, .resume 1,
    .factoryDone 0 (.ok ())]

/-- The first call finishes, its session is removed, and the second call makes one under
the old lock while a third makes one under a new lock. -/
def overtaken : List SessionAction :=
  pair ++ [.resume 0, .removeSharedSession "can", .resume 1, .resume 1, .ensure "can" "Bus",
    .resume 2, .resume 2, .resume 2]

/-- Two factories of one connection run at once. -/
theorem overtaken_two_factories : ∃ s, machine.Reaches s ∧
    ∃ (i j : ℕ) (c c' : EnsureCall), i ≠ j ∧ s.calls[i]? = some c ∧ s.calls[j]? = some c' ∧
      c.connectionId = c'.connectionId ∧ c.pc.isCreating = true ∧ c'.pc.isCreating = true := by
  have hrun : (machine.replay (fun _ _ => true) start overtaken).any fun s : SharedSessions =>
      decide (s.calls[1]? = some ⟨"can", "Bus", .creating 0⟩ ∧
        s.calls[2]? = some ⟨"can", "Bus", .creating 1⟩) := by decide
  obtain ⟨s, hreach, hend⟩ := Machine.exists_reaches_of_replay rfl hrun
  obtain ⟨hfirst, hsecond⟩ := of_decide_eq_true hend
  exact ⟨s, hreach, 1, 2, _, _, by decide, hfirst, hsecond, rfl, rfl, rfl⟩

/-- The connection manager with one session made and one call waiting for it. -/
def paired : SharedSessions :=
  (machine.replay (fun s a => s.keepsLock a) start pair).get (by decide)

theorem reaches_paired : machine.ReachesUnder (fun s a => s.keepsLock a) paired :=
  .replay (.start rfl) (Option.some_get _).symm

/-- The call that made the session puts it into the cache and gets it. -/
theorem paired_single_flight :
    (paired.calls.map EnsureCall.pc) = [.created 0 ⟨"Bus", 0⟩, .waiting 0] ∧
      ((paired.step (.resume 0)).get (by decide)).sessions.lookup "can" = some ⟨"Bus", 0⟩ :=
  ⟨by decide, (single_flight reaches_paired).2 (.resume 0) _ (Option.some_get _).symm 0
    ⟨"can", "Bus", .returned (.ok ⟨"Bus", 0⟩)⟩ ⟨"Bus", 0⟩ (by decide) rfl (by decide)⟩

end SharedSessions
end Nazh
