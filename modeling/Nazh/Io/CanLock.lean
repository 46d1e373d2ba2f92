import Nazh.Core.Error
import Nazh.Lib.FairLock
import Nazh.Lib.Lists
import Nazh.Lib.Machine

/-!
# The lock of a shared CAN session

A session keeps its bus under a lock, and its users take the lock in three ways. Reads and writes
wait for it, copy the handle of the bus and let it go before they use the bus. A CAN write of a
`capabilityCall` does not wait, and keeps the lock while it sends. `cleanup` does not wait either:
if somebody has the lock it leaves the bus as it is.
-/

namespace Nazh

open Lib

/-- Who uses a session. -/
inductive CanCaller
  | canRead
  | canWrite
  | deviceSignalRead
  /-- The listener of a `deviceEventTrigger`. -/
  | canListener
  | capabilityCall
  /-- The task of `lifecycle_guard`. -/
  | lifecycleGuard
  deriving DecidableEq, Repr

/-- Why the session did not give its bus. -/
inductive CanRefusal
  | contended
  | cleanedUp
  deriving DecidableEq, Repr

/-- The text of the refusal. -/
def CanRefusal.text : CanRefusal → String
  | contended => "CAN 总线会话锁竞争"
  | cleanedUp => "CAN 总线会话已被清理"

/-- The error of a node whose session refused it. A listener only logs it. -/
def CanCaller.refused (caller : CanCaller) (nodeId : String) (traceId : ℕ) (why : CanRefusal) :
    EngineError :=
  match caller, why with
  | .deviceSignalRead, _ =>
      .stageExecution nodeId traceId (EngineError.nodeConfig nodeId why.text).message
  | .capabilityCall, .cleanedUp => .stageExecution nodeId traceId why.text
  | _, _ => .nodeConfig nodeId why.text

/-- How an operation ended. -/
inductive CanOutcome
  | done
  | refused (why : CanRefusal)
  /-- `recv` or `send` failed, and the node closed the session. -/
  | failed (reason : String)
  /-- The lifecycle guard closed the session. -/
  | cleaned
  deriving DecidableEq, Repr

/-- Whether the operation has called `cleanup_and_remove_shared_session`. -/
def CanOutcome.hasCleaned : CanOutcome → Bool
  | failed _ | cleaned => true
  | done | refused _ => false

/-- Where an operation stands. -/
inductive CanLockPc
  /-- With the session, before the lock. -/
  | arriving
  /-- In `lock().await`. -/
  | waiting
  /-- With the lock, before it looks for the bus. -/
  | locked
  /-- In `recv` or `send`, with a copy of the handle. -/
  | transferring
  /-- In `send`, with the lock. -/
  | sending
  /-- In `cleanup_and_remove_shared_session`, before the cache. -/
  | removing (outcome : CanOutcome)
  /-- Before `try_lock` in `cleanup`. The cache is locked. -/
  | cleaning (outcome : CanOutcome)
  /-- In `shutdown` of the bus, with the lock. The cache is locked. -/
  | shutting (outcome : CanOutcome)
  | returned (outcome : CanOutcome)
  /-- Dropped by its caller at an await. -/
  | dropped
  deriving DecidableEq, Repr

namespace CanLockPc

/-- Whether the operation has the lock for sure. -/
def hasLock : CanLockPc → Bool
  | locked | sending | shutting _ => true
  | _ => false

/-- Whether it has the lock or waits for it. -/
def isInLine (pc : CanLockPc) : Bool := pc == waiting || pc.hasLock

/-- Whether it has the lock of the cache. -/
def isCleaning : CanLockPc → Bool
  | cleaning _ | shutting _ => true
  | _ => false

/-- Whether it has been through `cleanup_and_remove_shared_session`. -/
def hasCleaned : CanLockPc → Bool
  | returned outcome => outcome.hasCleaned
  | _ => false

end CanLockPc

/-- A call of a node, or a lifecycle guard. -/
structure CanOperation where
  caller : CanCaller
  pc : CanLockPc
  deriving DecidableEq, Repr

/-- Where the session is. -/
inductive CanLock.Cache
  | present
  /-- An operation has removed it and has the lock of the cache. -/
  | taken (i : ℕ)
  | gone
  deriving DecidableEq, Repr

/-- A `SharedCanBusSession` and the operations on it. -/
structure CanLock where
  /-- Whether the bus is still in the session. -/
  bus : Bool
  lock : FairLock ℕ
  cache : CanLock.Cache
  /-- How often `cleanup` called `shutdown`. -/
  shutdowns : ℕ
  operations : List CanOperation

/-- What can happen. -/
inductive CanLockAction
  /-- `ensure_session` gave the session to a node, or a guard saw its token cancelled. -/
  | start (caller : CanCaller)
  /-- `bus` or `bus_handle` is called. -/
  | arrive (i : ℕ)
  /-- `lock().await` returns. -/
  | wake (i : ℕ)
  | look (i : ℕ)
  /-- `recv` or `send` has ended. -/
  | transferEnds (i : ℕ) (result : Except String Unit)
  | remove (i : ℕ)
  | tryCleanup (i : ℕ)
  | shutDown (i : ℕ)
  | drop (i : ℕ)

namespace CanLock

/-- The operation `i` goes on to `pc`. -/
def setPc (s : CanLock) (i : ℕ) (o : CanOperation) (pc : CanLockPc) : CanLock :=
  { s with operations := s.operations.set i { o with pc } }

/-- The operation `i` goes on to `pc`, out of the line. -/
def leave (s : CanLock) (i : ℕ) (o : CanOperation) (pc : CanLockPc) : CanLock :=
  { s.setPc i o pc with lock := s.lock.leave i }

/-- `bus`: the lock, at once or not at all. -/
def tryBus (s : CanLock) (i : ℕ) (o : CanOperation) : CanLock :=
  match s.lock.tryLock i with
  | some lock => { s.setPc i o .locked with lock }
  | none => s.setPc i o (.returned (.refused .contended))

/-- `bus_handle`, as far as it goes without waiting. -/
def busHandle (s : CanLock) (i : ℕ) (o : CanOperation) : CanLock :=
  let lock := s.lock.lock i
  { s.setPc i o (if lock.holder = some i then .locked else .waiting) with lock }

/-- What an operation does with the session, once it has the lock. -/
def useBus (s : CanLock) (i : ℕ) (o : CanOperation) : CanLock :=
  if s.bus then
    if o.caller = .capabilityCall then s.setPc i o .sending else s.leave i o .transferring
  else s.leave i o (.returned (.refused .cleanedUp))

/-- What an operation does after `recv` or `send`. -/
def afterTransfer : Except String Unit → CanLockPc
  | .ok () => .returned .done
  | .error reason => .removing (.failed reason)

/-- A step of an operation between two awaits. -/
def stepOperation (s : CanLock) (i : ℕ) (o : CanOperation) : CanLockAction → Option CanLock
  | .arrive _ => match o.pc with
    | .arriving => some (if o.caller = .capabilityCall then s.tryBus i o else s.busHandle i o)
    | _ => none
  | .wake _ => match o.pc with
    | .waiting => if s.lock.holder = some i then some (s.setPc i o .locked) else none
    | _ => none
  | .look _ => match o.pc with
    | .locked => some (s.useBus i o)
    | _ => none
  | .transferEnds _ result => match o.pc with
    | .transferring => some (s.setPc i o (afterTransfer result))
    | .sending => some (s.leave i o (afterTransfer result))
    | _ => none
  | .remove _ => match o.pc with
    | .removing outcome => match s.cache with
      | .present => some { s.setPc i o (.cleaning outcome) with cache := .taken i }
      | .taken _ => none
      | .gone => some (s.setPc i o (.returned outcome))
    | _ => none
  | .tryCleanup _ => match o.pc with
    | .cleaning outcome => match s.lock.tryLock i with
      | some lock => some { s.setPc i o (.shutting outcome) with lock }
      -- the error of `try_lock` is dropped
      | none => some { s.setPc i o (.returned outcome) with cache := .gone }
    | _ => none
  | .shutDown _ => match o.pc with
    | .shutting outcome => some { s.leave i o (.returned outcome) with
        bus := false, shutdowns := if s.bus then s.shutdowns + 1 else s.shutdowns, cache := .gone }
    | _ => none
  | .drop _ => match o.pc with
    | .arriving | .waiting | .transferring | .sending | .removing _ => some (s.leave i o .dropped)
    | _ => none
  | .start _ => none

/-- One step. -/
def step (s : CanLock) (a : CanLockAction) : Option CanLock :=
  match a with
  | .start .lifecycleGuard => some { s with
      operations := s.operations ++ [⟨.lifecycleGuard, .removing .cleaned⟩] }
  | .start caller => match s.cache with
      | .present => some { s with operations := s.operations ++ [⟨caller, .arriving⟩] }
      | _ => none
  | .arrive i | .wake i | .look i | .transferEnds i _ | .remove i | .tryCleanup i | .shutDown i
  | .drop i => (s.operations[i]?).bind fun o => s.stepOperation i o a

/-- The session was just opened. -/
def opened : CanLock := ⟨true, .free, .present, 0, []⟩

def machine : Machine CanLock CanLockAction := ⟨fun s => s = opened, step⟩

/-! ## What the lock is for -/

/-- No operation loses the lock to another: nobody is refused because of it, who waits for it
waits for an operation that has it, and who is refused finds the session cleaned up. A cleanup that
has returned has taken the bus and shut it down once. -/
structure LosesNothing (s : CanLock) : Prop where
  not_contended : ∀ o ∈ s.operations, o.pc ≠ .returned (.refused .contended)
  waits : ∀ o ∈ s.operations, o.pc = .waiting → ∃ (j : ℕ) (o' : CanOperation),
    s.lock.holder = some j ∧ s.operations[j]? = some o' ∧ o'.pc.isInLine = true
  refused_cleaned : ∀ o ∈ s.operations, o.pc = .returned (.refused .cleanedUp) → s.bus = false
  cleaned : ∀ o ∈ s.operations, o.pc.hasCleaned = true → s.bus = false ∧ s.shutdowns = 1

/-- Nobody has the lock or waits for it. -/
def isQuiet (s : CanLock) : Bool := s.operations.all fun o => !o.pc.isInLine

/-- Who does not wait for the lock comes when nobody is there. -/
def meetsFreeLock (s : CanLock) : CanLockAction → Bool
  | .arrive i => (s.operations[i]?).all fun o => o.caller != .capabilityCall || s.isQuiet
  | .tryCleanup _ => s.isQuiet
  | _ => true

variable {s s' : CanLock} {a : CanLockAction} {i j : ℕ} {o : CanOperation} {pc : CanLockPc}

/-! ## One step -/

/-- What a step of the operation `i` to `pc` does to the line: `i` stands in it as `pc` says, and
nobody else notices. -/
structure LineTurn (m m' : FairLock ℕ) (i : ℕ) (pc : CanLockPc) : Prop where
  mem : ∀ j, j ∈ m'.line ↔ j = i ∧ pc.isInLine = true ∨ j ≠ i ∧ j ∈ m.line
  holder : pc.hasLock = true → m'.holder = some i
  kept : ∀ j, j ≠ i → m.holder = some j → m'.holder = some j

theorem LineTurn.same {m : FairLock ℕ} (hmem : i ∈ m.line ↔ pc.isInLine = true)
    (hholder : pc.hasLock = true → m.holder = some i) : LineTurn m m i pc where
  mem j := by
    by_cases hj : j = i
    · subst hj
      simp [hmem]
    · simp [hj]
  holder := hholder
  kept _ _ h := h

theorem LineTurn.leave {m : FairLock ℕ} (hpc : pc.isInLine = false) :
    LineTurn m (m.leave i) i pc where
  mem j := by
    rw [FairLock.mem_leave, hpc]
    simp
  holder h := by
    rw [CanLockPc.isInLine, h, Bool.or_true] at hpc
    cases hpc
  kept _ hj h := FairLock.holder_leave h hj

theorem LineTurn.tryLock {m m' : FairLock ℕ} (h : m.tryLock i = some m')
    (hpc : pc.isInLine = true) : LineTurn m m' i pc where
  mem j := by
    obtain ⟨hm, hm'⟩ := FairLock.tryLock_eq_some_iff.mp h
    simp [hm, hm', hpc]
  holder _ := by
    obtain ⟨-, hm'⟩ := FairLock.tryLock_eq_some_iff.mp h
    rw [FairLock.holder, hm', List.head?_cons]
  kept j _ hj := by
    obtain ⟨hm, -⟩ := FairLock.tryLock_eq_some_iff.mp h
    rw [FairLock.holder, hm] at hj
    cases hj

theorem LineTurn.lock {m : FairLock ℕ} :
    LineTurn m (m.lock i) i (if (m.lock i).holder = some i then .locked else .waiting) where
  mem j := by
    have hin : (if (m.lock i).holder = some i then CanLockPc.locked else .waiting).isInLine
        = true := by
      split <;> rfl
    rw [FairLock.mem_lock, hin]
    by_cases hj : j = i
    · simp [hj]
    · simp [hj]
  holder h := by
    split at h
    · assumption
    · cases h
  kept _ _ h := FairLock.holder_lock h

/-- What a step of the operation `i` does to the cache and to the bus. -/
inductive CloseTurn (s : CanLock) (a : CanLockAction) (s' : CanLock) (i : ℕ)
    (before pc : CanLockPc) : Prop
  | same (hcache : s'.cache = s.cache) (hbus : s'.bus = s.bus)
      (hshutdowns : s'.shutdowns = s.shutdowns) (hcleaning : pc.isCleaning = before.isCleaning)
      (hgone : pc.hasCleaned = true → s.cache = .gone)
  | removed (hpresent : s.cache = .present) (hcache : s'.cache = .taken i) (hbus : s'.bus = s.bus)
      (hshutdowns : s'.shutdowns = s.shutdowns) (hcleaning : pc.isCleaning = true)
      (hcleaned : pc.hasCleaned = false)
  | gaveUp (hact : a = .tryCleanup i) (hbefore : before.isCleaning = true)
      (hcache : s'.cache = .gone) (hbus : s'.bus = s.bus) (hshutdowns : s'.shutdowns = s.shutdowns)
      (hcleaning : pc.isCleaning = false) (hcleaned : pc.hasCleaned = true)
  | shut (hbefore : before.isCleaning = true) (hcache : s'.cache = .gone) (hbus : s'.bus = false)
      (hshutdowns : s'.shutdowns = if s.bus then s.shutdowns + 1 else s.shutdowns)
      (hcleaning : pc.isCleaning = false) (hcleaned : pc.hasCleaned = true)

/-- What an operation that closes the session will return. -/
def closing : CanLockPc → Option CanOutcome
  | .removing outcome | .cleaning outcome | .shutting outcome => some outcome
  | _ => none

/-- What holds in every run. -/
structure Sound (s : CanLock) : Prop where
  mem_line_iff : ∀ i, i ∈ s.lock.line ↔
    ∃ o, s.operations[i]? = some o ∧ o.pc.isInLine = true
  holder : ∀ (i : ℕ) (o : CanOperation), s.operations[i]? = some o → o.pc.hasLock = true →
    s.lock.holder = some i
  taken_iff : ∀ i, s.cache = .taken i ↔ ∃ o, s.operations[i]? = some o ∧ o.pc.isCleaning = true
  gone_iff : s.cache = .gone ↔ ∃ o ∈ s.operations, o.pc.hasCleaned = true
  bus_of : s.cache ≠ .gone → s.bus = true
  shutdowns_eq : s.shutdowns = if s.bus then 0 else 1
  closing_cleaned : ∀ o ∈ s.operations, ∀ outcome, closing o.pc = some outcome →
    outcome.hasCleaned = true

/-- What a step of an operation is. -/
structure Turn (s : CanLock) (a : CanLockAction) (s' : CanLock) (i : ℕ) (o : CanOperation)
    (pc : CanLockPc) : Prop where
  found : s.operations[i]? = some o
  running : o.pc.hasCleaned = false
  operations : s'.operations = s.operations.set i { o with pc }
  line : LineTurn s.lock s'.lock i pc
  close : CloseTurn s a s' i o.pc pc
  closing_cleaned : ∀ outcome, closing pc = some outcome → outcome.hasCleaned = true
  /-- It is refused for the lock if it does not wait and somebody is in line. -/
  contended : pc = .returned (.refused .contended) ↔
    a = .arrive i ∧ o.caller = .capabilityCall ∧ s.isQuiet = false
  refused_cleaned : pc = .returned (.refused .cleanedUp) → s.bus = false
  /-- A cleanup gives up if somebody is in line. -/
  gives_up : a = .tryCleanup i → s'.bus = true ∧ (pc.hasCleaned = true ↔ s.isQuiet = false)
  own : ∀ j, a = .arrive j ∨ a = .tryCleanup j → j = i := by simp

theorem isQuiet_iff (hs : s.Sound) : s.isQuiet = true ↔ s.lock.line = [] := by
  rw [isQuiet, List.all_eq_true, List.eq_nil_iff_forall_not_mem]
  constructor
  · intro h i hi
    obtain ⟨o, ho, hin⟩ := (hs.mem_line_iff i).mp hi
    have hout := h o (List.mem_of_getElem? ho)
    rw [hin] at hout
    cases hout
  · intro h o ho
    obtain ⟨i, hi⟩ := List.getElem?_of_mem ho
    cases hin : o.pc.isInLine with
    | false => rfl
    | true => exact absurd ((hs.mem_line_iff i).mpr ⟨o, hi, hin⟩) (h i)

theorem tryLock_none_iff (hs : s.Sound) : s.lock.tryLock i = none ↔ s.isQuiet = false := by
  rw [FairLock.tryLock_eq_none_iff, ← Bool.not_eq_true, isQuiet_iff hs]
  exact ⟨fun ⟨_, h⟩ => List.ne_nil_of_mem h, List.exists_mem_of_ne_nil _⟩

theorem not_hasLock_of_not_isInLine (h : pc.isInLine = false) : ¬ pc.hasLock = true := by
  intro hlock
  rw [CanLockPc.isInLine, hlock, Bool.or_true] at h
  cases h

/-- A step that does not touch the lock, by an operation that is not in line before or after. -/
theorem Sound.outside (hs : s.Sound) (ho : s.operations[i]? = some o)
    (hout : o.pc.isInLine = false) (hpc : pc.isInLine = false) :
    LineTurn s.lock s.lock i pc := by
  refine .same ?_ fun h => absurd h (not_hasLock_of_not_isInLine hpc)
  rw [hs.mem_line_iff, hpc]
  constructor
  · rintro ⟨o', ho', hin⟩
    obtain rfl : o = o' := Option.some.inj (ho.symm.trans ho')
    exact hout.symm.trans hin
  · intro h
    cases h

/-- A step that does not touch the lock, by an operation that is in line before and after. -/
theorem Sound.inside (hs : s.Sound) (ho : s.operations[i]? = some o) (hin : o.pc.isInLine = true)
    (hpc : pc.isInLine = true) (hholder : s.lock.holder = some i) :
    LineTurn s.lock s.lock i pc :=
  .same (iff_of_true ((hs.mem_line_iff i).mpr ⟨o, ho, hin⟩) hpc) fun _ => hholder

/-- A step that touches neither the cache nor the bus. -/
theorem CloseTurn.open {before : CanLockPc} (hcache : s'.cache = s.cache) (hbus : s'.bus = s.bus)
    (hshutdowns : s'.shutdowns = s.shutdowns)
    (hcleaning : pc.isCleaning = before.isCleaning) (hcleaned : pc.hasCleaned = false) :
    CloseTurn s a s' i before pc :=
  .same hcache hbus hshutdowns hcleaning fun h => by
    rw [hcleaned] at h
    cases h

/-- Who cleans up has the lock of the cache. -/
theorem Sound.taken (hs : s.Sound) (ho : s.operations[i]? = some o)
    (hcleaning : o.pc.isCleaning = true) : s.cache = .taken i :=
  (hs.taken_iff i).mpr ⟨o, ho, hcleaning⟩

/-- While somebody cleans up, the bus is there. -/
theorem Sound.bus_of_cleaning (hs : s.Sound) (ho : s.operations[i]? = some o)
    (hcleaning : o.pc.isCleaning = true) : s.bus = true :=
  hs.bus_of fun h => by
    rw [hs.taken ho hcleaning] at h
    cases h

/-- The three ways to arrive. -/
theorem arrive_turn (hs : s.Sound) (ho : s.operations[i]? = some o) (hpc : o.pc = .arriving)
    (h : (if o.caller = .capabilityCall then s.tryBus i o else s.busHandle i o) = s') :
    ∃ pc, s.Turn (.arrive i) s' i o pc := by
  have hrunning : o.pc.hasCleaned = false := by rw [hpc]; rfl
  have hcleaning : o.pc.isCleaning = false := by rw [hpc]; rfl
  split at h
  · rename_i hcaller
    rw [tryBus] at h
    split at h
    · rename_i lock hlock
      subst h
      have hquiet : s.isQuiet = true := by
        by_contra hquiet
        rw [(tryLock_none_iff hs).mpr (Bool.eq_false_of_not_eq_true hquiet)] at hlock
        cases hlock
      exact ⟨.locked, {
        found := ho, running := hrunning, operations := rfl
        line := .tryLock hlock rfl
        close := .open rfl rfl rfl hcleaning.symm rfl
        closing_cleaned := by simp [closing]
        contended := by simp [hquiet]
        refused_cleaned := by simp
        gives_up := by simp }⟩
    · rename_i hlock
      subst h
      exact ⟨.returned (.refused .contended), {
        found := ho, running := hrunning, operations := rfl
        line := hs.outside ho (by rw [hpc]; rfl) rfl
        close := .open rfl rfl rfl hcleaning.symm rfl
        closing_cleaned := by simp [closing]
        contended := by simp [hcaller, (tryLock_none_iff hs).mp hlock]
        refused_cleaned := by simp
        gives_up := by simp }⟩
  · rename_i hcaller
    subst h
    have hline : LineTurn s.lock (s.lock.lock i) i _ := .lock
    refine ⟨if (s.lock.lock i).holder = some i then .locked else .waiting, {
      found := ho, running := hrunning, operations := rfl
      line := hline
      close := .same rfl rfl rfl ?_ ?_
      closing_cleaned := ?_
      contended := ?_
      refused_cleaned := ?_
      gives_up := by simp }⟩
    · split <;> exact hcleaning.symm
    · split <;> simp [CanLockPc.hasCleaned]
    · split <;> simp [closing]
    · split <;> simp [hcaller]
    · split <;> simp

/-- An operation with the lock looks for the bus. -/
theorem look_turn (hs : s.Sound) (ho : s.operations[i]? = some o) (hpc : o.pc = .locked)
    (h : s.useBus i o = s') : ∃ pc, s.Turn (.look i) s' i o pc := by
  have hrunning : o.pc.hasCleaned = false := by rw [hpc]; rfl
  have hcleaning : o.pc.isCleaning = false := by rw [hpc]; rfl
  have hholder : s.lock.holder = some i := hs.holder i o ho (by rw [hpc]; rfl)
  rw [useBus] at h
  split at h
  · split at h
    · subst h
      exact ⟨.sending, {
        found := ho, running := hrunning, operations := rfl
        line := hs.inside ho (by rw [hpc]; rfl) rfl hholder
        close := .open rfl rfl rfl hcleaning.symm rfl
        closing_cleaned := by simp [closing]
        contended := by simp
        refused_cleaned := by simp
        gives_up := by simp }⟩
    · subst h
      exact ⟨.transferring, {
        found := ho, running := hrunning, operations := rfl
        line := .leave rfl
        close := .open rfl rfl rfl hcleaning.symm rfl
        closing_cleaned := by simp [closing]
        contended := by simp
        refused_cleaned := by simp
        gives_up := by simp }⟩
  · rename_i hbus
    subst h
    exact ⟨.returned (.refused .cleanedUp), {
      found := ho, running := hrunning, operations := rfl
      line := .leave rfl
      close := .open rfl rfl rfl hcleaning.symm rfl
      closing_cleaned := by simp [closing]
      contended := by simp
      refused_cleaned := fun _ => Bool.eq_false_of_not_eq_true hbus
      gives_up := by simp }⟩

/-- After `recv` or `send`, with the lock or without. -/
theorem transfer_turn {result : Except String Unit} (ho : s.operations[i]? = some o)
    (hrunning : o.pc.hasCleaned = false) (hcleaning : o.pc.isCleaning = false)
    (hoperations : s'.operations = s.operations.set i { o with pc := afterTransfer result })
    (hline : LineTurn s.lock s'.lock i (afterTransfer result)) (hcache : s'.cache = s.cache)
    (hbus : s'.bus = s.bus) (hshutdowns : s'.shutdowns = s.shutdowns) :
    s.Turn (.transferEnds i result) s' i o (afterTransfer result) := by
  cases result with
  | error reason =>
      exact {
        found := ho, running := hrunning, operations := hoperations, line := hline
        close := .open hcache hbus hshutdowns hcleaning.symm rfl
        closing_cleaned := by
          intro outcome h
          obtain rfl : CanOutcome.failed reason = outcome := Option.some.inj h
          rfl
        contended := by simp [afterTransfer]
        refused_cleaned := by simp [afterTransfer]
        gives_up := by simp }
  | ok u =>
      exact {
        found := ho, running := hrunning, operations := hoperations, line := hline
        close := .open hcache hbus hshutdowns hcleaning.symm rfl
        closing_cleaned := by simp [closing, afterTransfer]
        contended := by simp [afterTransfer]
        refused_cleaned := by simp [afterTransfer]
        gives_up := by simp }

/-- A step of `cleanup_and_remove_shared_session`. -/
theorem close_turn {outcome : CanOutcome} (hs : s.Sound) (ho : s.operations[i]? = some o)
    (hclosing : closing o.pc = some outcome)
    (hpc : a = .remove i ∧ o.pc = .removing outcome ∨
      a = .tryCleanup i ∧ o.pc = .cleaning outcome ∨ a = .shutDown i ∧ o.pc = .shutting outcome)
    (h : s.stepOperation i o a = some s') : ∃ pc, s.Turn a s' i o pc := by
  have hcleaned : outcome.hasCleaned = true :=
    hs.closing_cleaned o (List.mem_of_getElem? ho) outcome hclosing
  have hne : ∀ why, outcome ≠ .refused why := by
    rintro why rfl
    cases hcleaned
  obtain ⟨rfl, hpc⟩ | ⟨rfl, hpc⟩ | ⟨rfl, hpc⟩ := hpc
  · have hout : o.pc.isInLine = false := by rw [hpc]; rfl
    have hcleaning : o.pc.isCleaning = false := by rw [hpc]; rfl
    simp only [stepOperation, hpc] at h
    cases hcache : s.cache with
    | present =>
        obtain rfl := Option.some.inj (hcache ▸ h)
        exact ⟨.cleaning outcome, {
          found := ho, running := by rw [hpc]; rfl, operations := rfl
          line := hs.outside ho hout rfl
          close := .removed hcache rfl rfl rfl rfl rfl
          closing_cleaned := fun _ hout => Option.some.inj hout ▸ hcleaned
          contended := by simp
          refused_cleaned := by simp
          gives_up := by simp }⟩
    | taken j =>
        rw [hcache] at h
        cases h
    | gone =>
        obtain rfl := Option.some.inj (hcache ▸ h)
        exact ⟨.returned outcome, {
          found := ho, running := by rw [hpc]; rfl, operations := rfl
          line := hs.outside ho hout rfl
          close := .same rfl rfl rfl hcleaning.symm fun _ => hcache
          closing_cleaned := by simp [closing]
          contended := by simp [hne]
          refused_cleaned := by simp [hne]
          gives_up := by simp }⟩
  · have hout : o.pc.isInLine = false := by rw [hpc]; rfl
    have hbus : s.bus = true := hs.bus_of_cleaning ho (by rw [hpc]; rfl)
    simp only [stepOperation, hpc] at h
    cases hlock : s.lock.tryLock i with
    | some lock =>
        obtain rfl := Option.some.inj (hlock ▸ h)
        have hquiet : s.isQuiet = true := by
          by_contra hquiet
          rw [(tryLock_none_iff hs).mpr (Bool.eq_false_of_not_eq_true hquiet)] at hlock
          cases hlock
        exact ⟨.shutting outcome, {
          found := ho, running := by rw [hpc]; rfl, operations := rfl
          line := .tryLock hlock rfl
          close := .open rfl rfl rfl (by rw [hpc]; rfl) rfl
          closing_cleaned := fun _ hout => Option.some.inj hout ▸ hcleaned
          contended := by simp
          refused_cleaned := by simp
          gives_up := fun _ => ⟨hbus, by simp [CanLockPc.hasCleaned, hquiet]⟩ }⟩
    | none =>
        obtain rfl := Option.some.inj (hlock ▸ h)
        exact ⟨.returned outcome, {
          found := ho, running := by rw [hpc]; rfl, operations := rfl
          line := hs.outside ho hout rfl
          close := .gaveUp rfl (by rw [hpc]; rfl) rfl rfl rfl rfl hcleaned
          closing_cleaned := by simp [closing]
          contended := by simp [hne]
          refused_cleaned := by simp [hne]
          gives_up := fun _ => ⟨hbus, iff_of_true hcleaned ((tryLock_none_iff hs).mp hlock)⟩ }⟩
  · simp only [stepOperation, hpc] at h
    obtain rfl := Option.some.inj h
    exact ⟨.returned outcome, {
      found := ho, running := by rw [hpc]; rfl, operations := rfl
      line := .leave rfl
      close := .shut (by rw [hpc]; rfl) rfl rfl rfl rfl hcleaned
      closing_cleaned := by simp [closing]
      contended := by simp [hne]
      refused_cleaned := by simp [hne]
      gives_up := by simp }⟩

/-- An operation that is dropped at an await. -/
theorem drop_turn (ho : s.operations[i]? = some o) (hrunning : o.pc.hasCleaned = false)
    (hcleaning : o.pc.isCleaning = false) : s.Turn (.drop i) (s.leave i o .dropped) i o .dropped where
  found := ho
  running := hrunning
  operations := rfl
  line := .leave rfl
  close := .open rfl rfl rfl hcleaning.symm rfl
  closing_cleaned := by simp [closing]
  contended := by simp
  refused_cleaned := by simp
  gives_up := by simp

/-- Every step of an operation is such a turn. -/
theorem stepOperation_turn (hs : s.Sound) (ho : s.operations[i]? = some o)
    (hi : a = .arrive i ∨ a = .wake i ∨ a = .look i ∨ (∃ result, a = .transferEnds i result) ∨
      a = .remove i ∨ a = .tryCleanup i ∨ a = .shutDown i ∨ a = .drop i)
    (h : s.stepOperation i o a = some s') : ∃ pc, s.Turn a s' i o pc := by
  obtain ⟨caller, before⟩ := o
  obtain rfl | rfl | rfl | ⟨result, rfl⟩ | rfl | rfl | rfl | rfl := hi
  · cases before with
    | arriving => exact arrive_turn hs ho rfl (Option.some.inj h)
    | _ => cases h
  · cases before with
    | waiting =>
        simp only [stepOperation] at h
        split at h
        · rename_i hholder
          obtain rfl := Option.some.inj h
          exact ⟨.locked, {
            found := ho, running := rfl, operations := rfl
            line := hs.inside ho rfl rfl hholder
            close := .open rfl rfl rfl rfl rfl
            closing_cleaned := by simp [closing]
            contended := by simp
            refused_cleaned := by simp
            gives_up := by simp }⟩
        · cases h
    | _ => cases h
  · cases before with
    | locked => exact look_turn hs ho rfl (Option.some.inj h)
    | _ => cases h
  · have hpc : (afterTransfer result).isInLine = false := by cases result <;> rfl
    cases before with
    | transferring =>
        obtain rfl := Option.some.inj h
        exact ⟨_, transfer_turn ho rfl rfl rfl (hs.outside ho rfl hpc) rfl rfl rfl⟩
    | sending =>
        obtain rfl := Option.some.inj h
        exact ⟨_, transfer_turn ho rfl rfl rfl (.leave hpc) rfl rfl rfl⟩
    | _ => cases h
  · cases before with
    | removing outcome => exact close_turn hs ho rfl (.inl ⟨rfl, rfl⟩) h
    | _ => cases h
  · cases before with
    | cleaning outcome => exact close_turn hs ho rfl (.inr (.inl ⟨rfl, rfl⟩)) h
    | _ => cases h
  · cases before with
    | shutting outcome => exact close_turn hs ho rfl (.inr (.inr ⟨rfl, rfl⟩)) h
    | _ => cases h
  · cases before with
    | arriving | waiting | transferring | sending | removing _ =>
        obtain rfl := Option.some.inj h
        exact ⟨.dropped, drop_turn ho rfl rfl⟩
    | _ => cases h

/-- A new operation is not in line, and has closed nothing. -/
theorem start_cases {caller : CanCaller} (h : s.step (.start caller) = some s') :
    ∃ o : CanOperation, s' = { s with operations := s.operations ++ [o] } ∧
      (o.pc = .arriving ∨ o.pc = .removing .cleaned) := by
  rw [step.eq_def] at h
  cases caller with
  | lifecycleGuard => exact ⟨_, (Option.some.inj h).symm, .inr rfl⟩
  | _ =>
      dsimp only at h
      split at h
      · exact ⟨_, (Option.some.inj h).symm, .inl rfl⟩
      · cases h

/-- What a step is. -/
theorem step_cases (hs : s.Sound) (h : s.step a = some s') :
    (∃ caller, a = .start caller ∧ ∃ o : CanOperation,
      s' = { s with operations := s.operations ++ [o] } ∧
      (o.pc = .arriving ∨ o.pc = .removing .cleaned)) ∨
    ∃ i o pc, s.Turn a s' i o pc := by
  cases a with
  | start caller => exact .inl ⟨caller, rfl, start_cases h⟩
  | arrive i | wake i | look i | remove i | tryCleanup i | shutDown i | drop i =>
      obtain ⟨o, ho, hstep⟩ := Option.bind_eq_some_iff.mp h
      obtain ⟨pc, ht⟩ := stepOperation_turn hs ho (by simp) hstep
      exact .inr ⟨i, o, pc, ht⟩
  | transferEnds i result =>
      obtain ⟨o, ho, hstep⟩ := Option.bind_eq_some_iff.mp h
      obtain ⟨pc, ht⟩ := stepOperation_turn hs ho (by simp) hstep
      exact .inr ⟨i, o, pc, ht⟩

/-! ## The invariant -/

theorem Turn.getElem?_self (ht : s.Turn a s' i o pc) : s'.operations[i]? = some { o with pc } := by
  rw [ht.operations, List.getElem?_set_self (List.getElem?_eq_some_iff.mp ht.found).1]

theorem Turn.getElem?_ne (ht : s.Turn a s' i o pc) (hj : j ≠ i) :
    s'.operations[j]? = s.operations[j]? := by
  rw [ht.operations, List.getElem?_set_ne (Ne.symm hj)]

/-- What a place of an operation is after a turn. -/
theorem Turn.exists_at_iff (ht : s.Turn a s' i o pc) (p : CanLockPc → Prop) (j : ℕ) :
    (∃ o', s'.operations[j]? = some o' ∧ p o'.pc) ↔
      j = i ∧ p pc ∨ j ≠ i ∧ ∃ o', s.operations[j]? = some o' ∧ p o'.pc := by
  by_cases hj : j = i
  · subst hj
    rw [ht.getElem?_self]
    simp
  · rw [ht.getElem?_ne hj]
    simp [hj]

/-- An operation after a turn is the one whose turn it was, or was there before. -/
theorem Turn.mem_cases (ht : s.Turn a s' i o pc) {o' : CanOperation} (h : o' ∈ s'.operations) :
    o' = { o with pc } ∨ o' ∈ s.operations := by
  rw [ht.operations] at h
  exact (List.mem_or_eq_of_mem_set h).symm

theorem Turn.mem_self (ht : s.Turn a s' i o pc) : { o with pc } ∈ s'.operations :=
  List.mem_of_getElem? ht.getElem?_self

/-- Only a turn of its own makes an operation one that has cleaned up. -/
theorem Turn.exists_cleaned_iff (ht : s.Turn a s' i o pc) :
    (∃ o' ∈ s'.operations, o'.pc.hasCleaned = true) ↔
      pc.hasCleaned = true ∨ ∃ o' ∈ s.operations, o'.pc.hasCleaned = true := by
  constructor
  · rintro ⟨o', ho', hcleaned⟩
    obtain rfl | hold := ht.mem_cases ho'
    · exact .inl hcleaned
    · exact .inr ⟨o', hold, hcleaned⟩
  · rintro (hcleaned | ⟨o', ho', hcleaned⟩)
    · exact ⟨_, ht.mem_self, hcleaned⟩
    · obtain ⟨j, hj⟩ := List.getElem?_of_mem ho'
      by_cases hji : j = i
      · subst hji
        obtain rfl : o = o' := Option.some.inj (ht.found.symm.trans hj)
        rw [ht.running] at hcleaned
        cases hcleaned
      · exact ⟨o', List.mem_of_getElem? ((ht.getElem?_ne hji).trans hj), hcleaned⟩

theorem Turn.taken_iff (hs : s.Sound) (ht : s.Turn a s' i o pc) (j : ℕ) :
    s'.cache = .taken j ↔ j = i ∧ pc.isCleaning = true ∨ j ≠ i ∧ s.cache = .taken j := by
  have hself : s.cache = .taken i ↔ o.pc.isCleaning = true := by
    rw [hs.taken_iff, ht.found]
    simp
  cases ht.close with
  | same hcache _ _ hcleaning _ =>
      rw [hcache, hcleaning]
      by_cases hj : j = i
      · subst hj
        simp [hself]
      · simp [hj]
  | removed hpresent hcache _ _ hcleaning _ =>
      rw [hcache, hpresent, hcleaning]
      simp [eq_comm]
  | gaveUp _ hbefore hcache _ _ hcleaning _ | shut hbefore hcache _ _ hcleaning _ =>
      rw [hcache, hself.mpr hbefore, hcleaning]
      simp [eq_comm]

theorem Turn.gone_iff (ht : s.Turn a s' i o pc) :
    s'.cache = .gone ↔ pc.hasCleaned = true ∨ s.cache = .gone := by
  cases ht.close with
  | same hcache _ _ _ hgone =>
      rw [hcache]
      exact ⟨.inr, fun h => h.elim hgone id⟩
  | removed hpresent hcache _ _ _ hcleaned =>
      rw [hcache, hpresent, hcleaned]
      simp
  | gaveUp _ _ hcache _ _ _ hcleaned | shut _ hcache _ _ _ hcleaned =>
      rw [hcache, hcleaned]
      simp

/-- A turn keeps the invariant. -/
theorem Sound.turn (hs : s.Sound) (ht : s.Turn a s' i o pc) : s'.Sound where
  mem_line_iff j := by
    rw [ht.exists_at_iff (fun pc => pc.isInLine = true), ht.line.mem, hs.mem_line_iff j]
  holder j o' ho' hlock := by
    by_cases hj : j = i
    · subst hj
      obtain rfl : ({ o with pc } : CanOperation) = o' :=
        Option.some.inj (ht.getElem?_self.symm.trans ho')
      exact ht.line.holder hlock
    · rw [ht.getElem?_ne hj] at ho'
      exact ht.line.kept j hj (hs.holder j o' ho' hlock)
  taken_iff j := by
    rw [ht.taken_iff hs, ht.exists_at_iff (fun pc => pc.isCleaning = true), hs.taken_iff j]
  gone_iff := by
    rw [ht.gone_iff, ht.exists_cleaned_iff, hs.gone_iff]
  bus_of hcache := by
    have hkept : s.cache ≠ .gone := fun h => hcache ((ht.gone_iff).mpr (.inr h))
    cases ht.close with
    | same _ hbus _ _ _ | removed _ _ hbus _ _ _ => exact hbus.trans (hs.bus_of hkept)
    | gaveUp _ _ hgone _ _ _ _ | shut _ hgone _ _ _ _ => exact absurd hgone hcache
  shutdowns_eq := by
    cases ht.close with
    | same _ hbus hshutdowns _ _ | removed _ _ hbus hshutdowns _ _
    | gaveUp _ _ _ hbus hshutdowns _ _ => rw [hshutdowns, hbus, hs.shutdowns_eq]
    | shut hbefore _ hbus hshutdowns _ _ =>
        rw [hshutdowns, hbus, hs.shutdowns_eq, hs.bus_of_cleaning ht.found hbefore]
        rfl
  closing_cleaned o' ho' outcome houtcome := by
    obtain rfl | hold := ht.mem_cases ho'
    · exact ht.closing_cleaned outcome houtcome
    · exact hs.closing_cleaned o' hold outcome houtcome

/-- A new operation keeps it. -/
theorem Sound.started (hs : s.Sound) (hpc : o.pc = .arriving ∨ o.pc = .removing .cleaned) :
    Sound { s with operations := s.operations ++ [o] } := by
  have hpcs : o.pc.isInLine = false ∧ o.pc.hasLock = false ∧ o.pc.isCleaning = false ∧
      o.pc.hasCleaned = false := by
    obtain h | h := hpc <;> rw [h] <;> exact ⟨rfl, rfl, rfl, rfl⟩
  obtain ⟨hline, hlock, hcleaning, hcleaned⟩ := hpcs
  have hat : ∀ (p : CanLockPc → Bool) (j : ℕ), p o.pc = false →
      ((∃ o', (s.operations ++ [o])[j]? = some o' ∧ p o'.pc = true) ↔
        ∃ o', s.operations[j]? = some o' ∧ p o'.pc = true) := by
    intro p j hp
    constructor
    · rintro ⟨o', ho', hp'⟩
      obtain ⟨-, rfl⟩ | ⟨-, hold⟩ := getElem?_concat_cases ho'
      · rw [hp] at hp'
        cases hp'
      · exact ⟨o', hold, hp'⟩
    · rintro ⟨o', ho', hp'⟩
      have hlt : j < s.operations.length := (List.getElem?_eq_some_iff.mp ho').1
      exact ⟨o', (List.getElem?_append_left hlt).trans ho', hp'⟩
  refine ⟨fun j => ?_, fun j o' ho' h => ?_, fun j => ?_, ?_, hs.bus_of, hs.shutdowns_eq,
    fun o' ho' outcome houtcome => ?_⟩
  · exact (hs.mem_line_iff j).trans (hat CanLockPc.isInLine j hline).symm
  · obtain ⟨-, rfl⟩ | ⟨-, hold⟩ := getElem?_concat_cases ho'
    · rw [hlock] at h
      cases h
    · exact hs.holder j o' hold h
  · exact (hs.taken_iff j).trans (hat CanLockPc.isCleaning j hcleaning).symm
  · simpa [or_and_right, exists_or, hcleaned] using hs.gone_iff
  · obtain hold | hnew := List.mem_append.mp ho'
    · exact hs.closing_cleaned o' hold outcome houtcome
    · obtain rfl := List.mem_singleton.mp hnew
      obtain h | h := hpc
      · rw [h] at houtcome
        cases houtcome
      · rw [h] at houtcome
        obtain rfl : CanOutcome.cleaned = outcome := Option.some.inj houtcome
        rfl

theorem Sound.step (hs : s.Sound) (h : s.step a = some s') : s'.Sound := by
  obtain ⟨caller, -, o, rfl, hpc⟩ | ⟨i, o, pc, ht⟩ := step_cases hs h
  · exact hs.started hpc
  · exact hs.turn ht

theorem sound_opened : opened.Sound where
  mem_line_iff i := by simp [opened, FairLock.free]
  holder i o ho _ := by cases ho
  taken_iff i := by simp [opened]
  gone_iff := by simp [opened]
  bus_of _ := rfl
  shutdowns_eq := rfl
  closing_cleaned o ho _ _ := by cases ho

/-! ## Which steps lose something -/

/-- Who waits for the lock waits for an operation that has it. -/
theorem Sound.exists_holder (hs : s.Sound) (ho : o ∈ s.operations) (hpc : o.pc = .waiting) :
    ∃ (j : ℕ) (o' : CanOperation),
      s.lock.holder = some j ∧ s.operations[j]? = some o' ∧ o'.pc.isInLine = true := by
  obtain ⟨i, hi⟩ := List.getElem?_of_mem ho
  have hin : i ∈ s.lock.line := (hs.mem_line_iff i).mpr ⟨o, hi, by rw [hpc]; rfl⟩
  obtain ⟨j, hj⟩ := FairLock.exists_holder hin
  obtain ⟨o', ho', hin'⟩ := (hs.mem_line_iff j).mp (FairLock.mem_line_of_holder hj)
  exact ⟨j, o', hj, ho', hin'⟩

/-- The guard of a turn. -/
theorem Turn.meetsFreeLock_iff (ht : s.Turn a s' i o pc) : s.meetsFreeLock a = true ↔
    pc ≠ .returned (.refused .contended) ∧ (a = .tryCleanup i → pc.hasCleaned = false) := by
  have hother : (∀ j, a ≠ .arrive j) → (∀ j, a ≠ .tryCleanup j) →
      (pc ≠ .returned (.refused .contended) ∧ (a = .tryCleanup i → pc.hasCleaned = false)) :=
    fun harrive hcleanup =>
      ⟨fun h => harrive i (ht.contended.mp h).1, fun h => absurd h (hcleanup i)⟩
  cases a with
  | arrive j =>
      obtain rfl := ht.own j (.inl rfl)
      rw [meetsFreeLock, ht.found, Option.all_some, Ne, ht.contended]
      by_cases hcaller : o.caller = .capabilityCall
      · simp [hcaller]
      · simp [hcaller]
  | tryCleanup j =>
      obtain rfl := ht.own j (.inr rfl)
      have hne : pc ≠ .returned (.refused .contended) := by
        intro h
        cases (ht.contended.mp h).1
      rw [meetsFreeLock, ← Bool.not_eq_false, ← (ht.gives_up rfl).2]
      simp [hne]
  | _ => exact iff_of_true rfl (hother (by simp) (by simp))

/-- A turn that meets the guard loses nothing. -/
theorem LosesNothing.turn (hs : s.Sound) (hun : s.LosesNothing) (ht : s.Turn a s' i o pc)
    (hmeets : s.meetsFreeLock a = true) : s'.LosesNothing := by
  obtain ⟨hne, hgives⟩ := ht.meetsFreeLock_iff.mp hmeets
  have hs' := hs.turn ht
  have hbus : s.bus = false → s'.bus = false := by
    intro h
    cases ht.close with
    | same _ hbus _ _ _ | removed _ _ hbus _ _ _ | gaveUp _ _ _ hbus _ _ _ => exact hbus.trans h
    | shut _ _ hbus _ _ _ => exact hbus
  refine ⟨fun o' ho' => ?_, fun o' ho' => hs'.exists_holder ho', fun o' ho' hpc => ?_,
    fun o' ho' hcleaned => ?_⟩
  · obtain rfl | hold := ht.mem_cases ho'
    · exact hne
    · exact hun.not_contended o' hold
  · obtain rfl | hold := ht.mem_cases ho'
    · exact hbus (ht.refused_cleaned hpc)
    · exact hbus (hun.refused_cleaned o' hold hpc)
  · have hdone : s'.bus = false := by
      cases ht.close with
      | same hcache hbus' _ _ _ =>
          have hgone := hcache.symm.trans (hs'.gone_iff.mpr ⟨o', ho', hcleaned⟩)
          obtain ⟨o'', ho'', hcleaned''⟩ := hs.gone_iff.mp hgone
          exact hbus'.trans (hun.cleaned o'' ho'' hcleaned'').1
      | removed _ hcache _ _ _ _ =>
          have hgone := hcache.symm.trans (hs'.gone_iff.mpr ⟨o', ho', hcleaned⟩)
          cases hgone
      | gaveUp hact _ _ _ _ _ hcleaned'' =>
          rw [hgives hact] at hcleaned''
          cases hcleaned''
      | shut _ _ hbus' _ _ _ => exact hbus'
    exact ⟨hdone, by rw [hs'.shutdowns_eq, hdone]; rfl⟩

/-- A turn that does not meet it does. -/
theorem Turn.meets_of_losesNothing (ht : s.Turn a s' i o pc) (hun : s'.LosesNothing) :
    s.meetsFreeLock a = true := by
  refine ht.meetsFreeLock_iff.mpr ⟨hun.not_contended _ ht.mem_self, fun hact => ?_⟩
  by_contra hcleaned
  have hbus := (hun.cleaned _ ht.mem_self (Bool.eq_true_of_not_eq_false hcleaned)).1
  rw [(ht.gives_up hact).1] at hbus
  cases hbus

/-- A new operation loses nothing. -/
theorem LosesNothing.started (hs : s.Sound) (hun : s.LosesNothing)
    (hpc : o.pc = .arriving ∨ o.pc = .removing .cleaned) :
    LosesNothing { s with operations := s.operations ++ [o] } := by
  have hnew : ∀ {p : CanOperation → Prop}, (∀ o' ∈ s.operations, p o') → p o →
      ∀ o' ∈ s.operations ++ [o], p o' := by
    intro p hold ho o' ho'
    obtain h | h := List.mem_append.mp ho'
    · exact hold o' h
    · exact List.mem_singleton.mp h ▸ ho
  refine ⟨hnew hun.not_contended ?_, fun o' ho' => (hs.started hpc).exists_holder ho',
    hnew hun.refused_cleaned ?_, hnew hun.cleaned ?_⟩
  · obtain h | h := hpc <;> simp [h]
  · obtain h | h := hpc <;> simp [h]
  · obtain h | h := hpc <;> simp [h, CanLockPc.hasCleaned]

/-- A step loses nothing if and only if it meets the guard. -/
theorem losesNothing_step_iff (hs : s.Sound) (hun : s.LosesNothing) (h : s.step a = some s') :
    s'.LosesNothing ↔ s.meetsFreeLock a = true := by
  obtain ⟨caller, rfl, o, rfl, hpc⟩ | ⟨i, o, pc, ht⟩ := step_cases hs h
  · exact iff_of_true (hun.started hs hpc) rfl
  · exact ⟨ht.meets_of_losesNothing, hun.turn hs ht⟩

/-! ## Runs -/

/-- At most one operation has the lock, and who waits waits for one in line. The session in the
cache has its bus, and a bus that is gone was shut down once. -/
structure Exclusive (s : CanLock) : Prop where
  holds_once : ∀ (i j : ℕ) (o o' : CanOperation), s.operations[i]? = some o →
    s.operations[j]? = some o' → o.pc.hasLock = true → o'.pc.hasLock = true → i = j
  waits : ∀ o ∈ s.operations, o.pc = .waiting → ∃ (j : ℕ) (o' : CanOperation),
    s.lock.holder = some j ∧ s.operations[j]? = some o' ∧ o'.pc.isInLine = true
  cached_bus : s.cache ≠ .gone → s.bus = true
  shut_once : s.shutdowns = if s.bus then 0 else 1

/-- It is so in every run, whoever is refused or dropped. -/
theorem lock_exclusive (h : machine.Reaches s) : s.Exclusive := by
  have hs : s.Sound := by
    refine Machine.ReachesUnder.invariant ?_ ?_ h
    · rintro s rfl
      exact sound_opened
    · intro s a s' hs _ hstep
      exact hs.step hstep
  refine ⟨fun i j o o' ho ho' hlock hlock' => ?_, fun o ho => hs.exists_holder ho, hs.bus_of,
    hs.shutdowns_eq⟩
  exact Option.some.inj ((hs.holder i o ho hlock).symm.trans (hs.holder j o' ho' hlock'))

/-- A read waits while a `capabilityCall` sends. -/
theorem sending_exclusive : ∃ s : CanLock,
    s.operations.map CanOperation.pc = [.sending, .waiting] ∧ s.Exclusive := by
  have hrun : (machine.replay (fun _ _ => true) opened [.start .capabilityCall, .start .canRead,
      .arrive 0, .look 0, .arrive 1]).any fun s : CanLock =>
      decide (s.operations.map CanOperation.pc = [.sending, .waiting]) := by decide
  obtain ⟨s, hs, hend⟩ := Machine.exists_reaches_of_replay rfl hrun
  exact ⟨s, of_decide_eq_true hend, lock_exclusive hs⟩

/-- In every run on a session, no operation loses the lock to another and every cleanup closes the
bus, if and only if nobody is in line when a `capabilityCall` asks for the bus or a cleanup tries
the lock. -/
theorem lock_loses_nothing_iff (acts : List CanLockAction) :
    machine.Along LosesNothing opened acts ↔
      machine.Meets (fun s a => s.meetsFreeLock a = true) opened acts := by
  apply Machine.along_iff_meets (J := Sound)
  · intro s a s' hs h
    exact hs.step h
  · intro s a s' hs hun h
    exact losesNothing_step_iff hs hun h
  · exact sound_opened
  · constructor <;> intro o ho <;> cases ho

/-- Two `capabilityCall` nodes write to the connection, and its deployment is stopped while the
first one sends: the second is refused for the lock, and the cleanup returns with the bus still in
the session and its `shutdown` not called. -/
theorem write_refused_and_bus_kept : (machine.replay (fun _ _ => true) opened
    [.start .capabilityCall, .start .capabilityCall, .arrive 0, .look 0, .arrive 1,
      .start .lifecycleGuard, .remove 2, .tryCleanup 2]).any
    (fun s => s.operations == [⟨.capabilityCall, .sending⟩,
        ⟨.capabilityCall, .returned (.refused .contended)⟩,
        ⟨.lifecycleGuard, .returned .cleaned⟩] &&
      s.cache == .gone && s.bus && s.shutdowns == 0) = true := by
  decide

end CanLock

end Nazh
