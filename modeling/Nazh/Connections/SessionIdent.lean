import Nazh.Connections.Session
import Nazh.Lib.Lists

/-!
# Which shared session is which

A session gets its number when its factory ends, and no number is given twice. From then on the
call that made it has it, until the session is in the cache or is given up.
-/

namespace Nazh.SharedSessions

open EnsureCall Lib

variable {s s' : SharedSessions} {a : SessionAction}

/-! ## What a step does to the cache -/

/-- Whether an action takes a session out of the cache. -/
def removes : SessionAction → Bool
  | .removeSharedSession _ | .takeSharedSession _ _ | .cleanupAndRemoveSharedSession _ _ => true
  | _ => false

/-- What a step does to the cache and to the calls, one case for each way. -/
inductive Change (s : SharedSessions) (a : SessionAction) (s' : SharedSessions) : Prop
  /-- A session is removed. -/
  | removed (id : String) : removes a = true → s'.sessions = s.sessions.erase id →
      s'.calls = s.calls → s'.nextSession = s.nextSession → Change s a s'
  /-- A call begins. -/
  | called (connectionId type : String) : s'.calls = s.calls ++ [⟨connectionId, type, .checking⟩] →
      s'.sessions = s.sessions → s'.nextSession = s.nextSession → Change s a s'
  /-- A call goes on without a session of its own. -/
  | moved {i : ℕ} {c : EnsureCall} (pc : Pc) : s.calls[i]? = some c →
      s'.calls = s.calls.set i { c with pc } → s'.sessions = s.sessions →
      s'.nextSession = s.nextSession → (∀ l x, pc ≠ .created l x) →
      (∀ x, pc = .returned (.ok x) → s.sessions.lookup c.connectionId = some x) → Change s a s'
  /-- A factory ends with a session. -/
  | produced {i : ℕ} {c : EnsureCall} (l : ℕ) : s.calls[i]? = some c →
      s'.calls = s.calls.set i { c with pc := .created l ⟨c.type, s.nextSession⟩ } →
      s'.sessions = s.sessions → s'.nextSession = s.nextSession + 1 → Change s a s'
  /-- A session comes into the cache. -/
  | inserted {i : ℕ} {c : EnsureCall} {l : ℕ} {x : SharedSession} : s.calls[i]? = some c →
      c.pc = .created l x → s.sessions.lookup c.connectionId = none →
      s'.calls = s.calls.set i { c with pc := .returned (.ok x) } →
      s'.sessions = s.sessions.insert c.connectionId x → s'.nextSession = s.nextSession →
      Change s a s'

theorem resume_change {i : ℕ} {c : EnsureCall} (hc : s.calls[i]? = some c)
    (h : s.resume i c = some s') : s.Change a s' := by
  have hfound (x : SharedSession) (hx : s.sessions.lookup c.connectionId = some x) :
      s.Change a (s.setPc i c (.returned (x.downcast c.connectionId c.type))) := by
    refine .moved _ hc rfl rfl rfl (fun l x h => by cases h) fun x' h => ?_
    rw [hx, eq_of_downcast (Pc.returned.inj h)]
  obtain ⟨id, type, pc⟩ := c
  cases pc with
  | checking =>
      simp only [resume] at h
      split at h
      · rename_i x hx
        cases h
        exact hfound x hx
      · simp only [initializerLock] at h
        split at h
        · cases h
          exact .moved _ hc rfl rfl rfl (fun l x h => by cases h) fun x h => by cases h
        · cases h
          exact .moved _ hc rfl rfl rfl (fun l x h => by cases h) fun x h => by cases h
  | waiting l =>
      simp only [resume] at h
      split at h
      · cases h
      · cases h
        exact .moved _ hc rfl rfl rfl (fun l x h => by cases h) fun x h => by cases h
  | locked l =>
      simp only [resume] at h
      split at h
      · rename_i x hx
        cases h
        exact hfound x hx
      · cases h
        exact .moved _ hc rfl rfl rfl (fun l x h => by cases h) fun x h => by cases h
  | created l session =>
      simp only [resume] at h
      split at h
      · rename_i x hx
        cases h
        exact hfound x hx
      · rename_i hnone
        cases h
        exact .inserted hc rfl hnone rfl rfl rfl
  | creating l => cases h
  | returned result => cases h
  | dropped => cases h

theorem step_change (h : s.step a = some s') : s.Change a s' := by
  cases a with
  | ensure connectionId type =>
      cases h
      exact .called connectionId type rfl rfl rfl
  | resume i =>
      obtain ⟨c, hc, hstep⟩ := Option.bind_eq_some_iff.mp h
      exact resume_change hc hstep
  | factoryDone i result =>
      obtain ⟨c, hc, hstep⟩ := Option.bind_eq_some_iff.mp h
      simp only [factoryDone] at hstep
      split at hstep
      · rename_i l _
        cases hstep
        exact .produced l hc rfl rfl rfl
      · cases hstep
        exact .moved _ hc rfl rfl rfl (fun l x h => by cases h) fun x h => by cases h
      · cases hstep
  | drop i =>
      obtain ⟨c, hc, hstep⟩ := Option.bind_eq_some_iff.mp h
      simp only [dropCall] at hstep
      split at hstep
      · cases hstep
      · cases hstep
      · cases hstep
        exact .moved _ hc rfl rfl rfl (fun l x h => by cases h) fun x h => by cases h
  | removeSharedSession connectionId =>
      cases h
      exact .removed connectionId rfl rfl rfl rfl
  | takeSharedSession connectionId type =>
      cases h
      exact .removed connectionId rfl rfl rfl rfl
  | cleanupAndRemoveSharedSession connectionId type =>
      cases h
      exact .removed connectionId rfl rfl rfl rfl

/-! ## Numbers -/

/-- The call `i` has made the session `x`, which is not in the cache yet. -/
def HasMade (s : SharedSessions) (i : ℕ) (x : SharedSession) : Prop :=
  ∃ (c : EnsureCall) (l : ℕ), s.calls[i]? = some c ∧ c.pc = .created l x

/-- The number is given, and no call is about to insert the session. -/
def Issued (s : SharedSessions) (k : ℕ) : Prop :=
  k < s.nextSession ∧ ∀ i x, s.HasMade i x → x.ident ≠ k

/-- No two sessions have one number. -/
structure Fresh (s : SharedSessions) : Prop where
  made_lt : ∀ i x, s.HasMade i x → x.ident < s.nextSession
  made_inj : ∀ i j x y, s.HasMade i x → s.HasMade j y → x.ident = y.ident → i = j
  cached_issued : ∀ id x, s.sessions.lookup id = some x → s.Issued x.ident
  cached_inj : ∀ id id' x y, s.sessions.lookup id = some x → s.sessions.lookup id' = some y →
    x.ident = y.ident → id = id'
  returned_issued : ∀ (i : ℕ) (c : EnsureCall) (x : SharedSession), s.calls[i]? = some c →
    c.pc = .returned (.ok x) → s.Issued x.ident

/-- Which sessions are about to be inserted after a call changed. -/
theorem hasMade_set {i j : ℕ} {c : EnsureCall} {pc : Pc} {x : SharedSession}
    (hcalls : s'.calls = s.calls.set i { c with pc }) (hmade : s'.HasMade j x) :
    (j = i ∧ ∃ l, pc = .created l x) ∨ (j ≠ i ∧ s.HasMade j x) := by
  obtain ⟨c', l, hc', hpc⟩ := hmade
  rw [hcalls] at hc'
  rcases getElem?_set_cases hc' with ⟨rfl, rfl⟩ | ⟨hj, hold⟩
  · exact .inl ⟨rfl, l, hpc⟩
  · exact .inr ⟨hj, c', l, hold, hpc⟩

/-- A session that is about to be inserted after a step was so before, or its number is new. -/
theorem Change.hasMade (h : s.Change a s') : ∃ i, ∀ j x, s'.HasMade j x →
    s.HasMade j x ∨ j = i ∧ x.ident = s.nextSession ∧ s'.nextSession = s.nextSession + 1 := by
  cases h with
  | removed id hremoves hsessions hcalls hnext =>
      refine ⟨0, fun j x hmade => .inl ?_⟩
      rw [HasMade, hcalls] at hmade
      exact hmade
  | called connectionId type hcalls hsessions hnext =>
      refine ⟨0, fun j x hmade => .inl ?_⟩
      obtain ⟨c, l, hc, hpc⟩ := hmade
      rw [hcalls] at hc
      rcases getElem?_concat_cases hc with hold | rfl
      · exact ⟨c, l, hold, hpc⟩
      · cases hpc
  | moved pc hc hcalls hsessions hnext hmade hcached =>
      rename_i i c
      refine ⟨i, fun j x hnew => .inl ?_⟩
      rcases hasMade_set hcalls hnew with ⟨-, l, hpc⟩ | ⟨-, hold⟩
      · exact absurd hpc (hmade l x)
      · exact hold
  | produced l hc hcalls hsessions hnext =>
      rename_i i c
      refine ⟨i, fun j x hnew => ?_⟩
      rcases hasMade_set hcalls hnew with ⟨rfl, l', hpc⟩ | ⟨-, hold⟩
      · cases hpc
        exact .inr ⟨rfl, rfl, hnext⟩
      · exact .inl hold
  | inserted hc hpc hnone hcalls hsessions hnext =>
      rename_i i c l x
      refine ⟨i, fun j y hnew => .inl ?_⟩
      rcases hasMade_set hcalls hnew with ⟨-, l', hpc'⟩ | ⟨-, hold⟩
      · cases hpc'
      · exact hold

theorem Change.nextSession_le (h : s.Change a s') : s.nextSession ≤ s'.nextSession := by
  cases h with
  | removed id hremoves hsessions hcalls hnext => exact hnext.symm.le
  | called connectionId type hcalls hsessions hnext => exact hnext.symm.le
  | moved pc hc hcalls hsessions hnext hmade hcached => exact hnext.symm.le
  | produced l hc hcalls hsessions hnext => omega
  | inserted hc hpc hnone hcalls hsessions hnext => exact hnext.symm.le

/-- A number that is given stays so. -/
theorem Issued.step {k : ℕ} (hk : s.Issued k) (h : s.Change a s') : s'.Issued k := by
  have hle := h.nextSession_le
  have hlt := hk.1
  refine ⟨by omega, fun j x hmade => ?_⟩
  obtain ⟨i, hbefore⟩ := h.hasMade
  rcases hbefore j x hmade with hold | ⟨-, hnew, -⟩
  · exact hk.2 j x hold
  · omega

/-- What a call has in hand becomes an issued number when the call inserts it. -/
theorem Fresh.issued_of_inserted {i : ℕ} {c : EnsureCall} {x : SharedSession} (hi : s.Fresh)
    (hmade : s.HasMade i x) (hcalls : s'.calls = s.calls.set i { c with pc := .returned (.ok x) })
    (hnext : s'.nextSession = s.nextSession) : s'.Issued x.ident := by
  refine ⟨by rw [hnext]; exact hi.made_lt i x hmade, fun j y hnew heq => ?_⟩
  rcases hasMade_set hcalls hnew with ⟨-, l', hpc'⟩ | ⟨hj, hold⟩
  · cases hpc'
  · exact hj (hi.made_inj j i y x hold hmade heq)

/-- What is in the cache after a step was there before, or a call has inserted it where nothing
was. -/
theorem Change.cached (h : s.Change a s') {id : String} {x : SharedSession}
    (hx : s'.sessions.lookup id = some x) : s.sessions.lookup id = some x ∨
      s.sessions.lookup id = none ∧ ∃ (i : ℕ) (c : EnsureCall), s.HasMade i x ∧
        s'.calls = s.calls.set i { c with pc := .returned (.ok x) } ∧
        s'.nextSession = s.nextSession ∧ s'.sessions = s.sessions.insert id x := by
  cases h with
  | removed id' hremoves hsessions hcalls hnext =>
      refine .inl ?_
      rw [hsessions] at hx
      by_cases hid : id = id'
      · rw [hid, AList.lookup_erase] at hx
        cases hx
      · rwa [AList.lookup_erase_ne hid] at hx
  | called connectionId type hcalls hsessions hnext => exact .inl (hsessions ▸ hx)
  | moved pc hc hcalls hsessions hnext hmade hcached => exact .inl (hsessions ▸ hx)
  | produced l hc hcalls hsessions hnext => exact .inl (hsessions ▸ hx)
  | inserted hc hpc hnone hcalls hsessions hnext =>
      rename_i i c l y
      rw [hsessions] at hx
      by_cases hid : id = c.connectionId
      · subst hid
        rw [AList.lookup_insert] at hx
        obtain rfl := Option.some.inj hx
        exact .inr ⟨hnone, i, c, ⟨c, l, hc, hpc⟩, hcalls, hnext, hsessions⟩
      · rw [AList.lookup_insert_ne hid] at hx
        exact .inl hx

/-- A call that has a session after a step had it before, or the session is in the cache. -/
theorem Change.returned (h : s.Change a s') {i : ℕ} {c : EnsureCall} {x : SharedSession}
    (hc : s'.calls[i]? = some c) (hpc : c.pc = .returned (.ok x)) : s.calls[i]? = some c ∨
      s.sessions.lookup c.connectionId = some x ∨ s'.sessions.lookup c.connectionId = some x := by
  cases h with
  | removed id hremoves hsessions hcalls hnext => exact .inl (hcalls ▸ hc)
  | called connectionId type hcalls hsessions hnext =>
      rw [hcalls] at hc
      rcases getElem?_concat_cases hc with hold | rfl
      · exact .inl hold
      · cases hpc
  | moved pc hc₀ hcalls hsessions hnext hmade hcached =>
      rw [hcalls] at hc
      rcases getElem?_set_cases hc with ⟨rfl, rfl⟩ | ⟨-, hold⟩
      · exact .inr (.inl (hcached x hpc))
      · exact .inl hold
  | produced l hc₀ hcalls hsessions hnext =>
      rw [hcalls] at hc
      rcases getElem?_set_cases hc with ⟨rfl, rfl⟩ | ⟨-, hold⟩
      · cases hpc
      · exact .inl hold
  | inserted hc₀ hpc₀ hnone hcalls hsessions hnext =>
      rw [hcalls] at hc
      rcases getElem?_set_cases hc with ⟨rfl, rfl⟩ | ⟨-, hold⟩
      · cases hpc
        exact .inr (.inr (by rw [hsessions, AList.lookup_insert]))
      · exact .inl hold

theorem Fresh.step (hi : s.Fresh) (h : s.Change a s') : s'.Fresh := by
  have hle := h.nextSession_le
  have hcached : ∀ id x, s'.sessions.lookup id = some x → s'.Issued x.ident := by
    intro id x hx
    rcases h.cached hx with hold | ⟨-, i, c, hmade, hcalls, hnext, -⟩
    · exact (hi.cached_issued id x hold).step h
    · exact hi.issued_of_inserted hmade hcalls hnext
  obtain ⟨i₀, hbefore⟩ := h.hasMade
  refine ⟨fun i x hmade => ?_, fun i j x y hx hy heq => ?_, hcached,
    fun id id' x y hx hy heq => ?_, fun i c x hc hpc => ?_⟩
  · rcases hbefore i x hmade with hold | ⟨-, hnew, hnext⟩
    · have hlt := hi.made_lt i x hold
      omega
    · omega
  · rcases hbefore i x hx with hold | ⟨hi₀, hnew, -⟩
    · have hlt := hi.made_lt i x hold
      rcases hbefore j y hy with hold' | ⟨-, hnew', -⟩
      · exact hi.made_inj i j x y hold hold' heq
      · omega
    · rcases hbefore j y hy with hold' | ⟨hj₀, -, -⟩
      · have hlt := hi.made_lt j y hold'
        omega
      · rw [hi₀, hj₀]
  · rcases h.cached hx with hold | ⟨hnone, i, c, hmade, hcalls, hnext, hsessions⟩
    · rcases h.cached hy with hold' | ⟨-, i, c, hmade, -⟩
      · exact hi.cached_inj id id' x y hold hold' heq
      · exact absurd heq.symm ((hi.cached_issued id x hold).2 i y hmade)
    · by_cases hid : id' = id
      · exact hid.symm
      · rw [hsessions, AList.lookup_insert_ne hid] at hy
        exact absurd heq ((hi.cached_issued id' y hy).2 i x hmade)
  · rcases h.returned hc hpc with hold | hold | hnew
    · exact (hi.returned_issued i c x hold hpc).step h
    · exact (hi.cached_issued _ x hold).step h
    · exact hcached _ x hnew

end Nazh.SharedSessions
