import Nazh.Io.FailureReports
import Nazh.Io.Listeners

/-!
# What a poll counts

A poll whose `acquire` is refused has not failed at the device, and a poll that fails with its
lease has failed once. The loop records a failure for either, and the guard that was dropped before
has counted the second one by itself, unless it was given back in time without a mark or something
looks as if the failure had been recorded.
-/

namespace Nazh

open Lib RecordChange

/-- The connection is busy, rate limited or behind an open circuit. -/
def EngineError.isContention : EngineError → Bool
  | .connectionBusy _ | .connectionRateLimited _ _ | .connectionCircuitOpen _ _ _ => true
  | _ => false

/-- The change counts no failure, and a circuit stays open as long as it was. -/
structure RecordChange.Keeps (c : RecordChange) : Prop where
  total : c.after.health.totalFailures = c.before.health.totalFailures
  consecutive : c.after.health.consecutiveFailures = c.before.health.consecutiveFailures
  circuit : c.after.health.circuitOpenUntil = unexpired c.at' c.before.health.circuitOpenUntil

/-- What the changes add to both counters. -/
def RecordChange.Adds (n : ℤ) (changes : List RecordChange) : Prop :=
  added (·.totalFailures) changes = n ∧ added (·.consecutiveFailures) changes = n

/-- A poll that was refused leaves the record alone, and one that failed counts one failure. -/
def FiledTurn.Accounted (t : FiledTurn) : Prop :=
  match t.turn with
  | .refused error => error.isContention = true → ∀ c ∈ t.changes, c.Keeps
  | .failed => Adds 1 t.changes
  | .stopped | .wentOn => True

/-- Neither counter is full. -/
def ConnectionRecord.hasRoom (r : ConnectionRecord) : Bool :=
  r.health.totalFailures < counterLimit && r.health.consecutiveFailures < counterLimit

/-- Dropping a guard counts a failure. -/
def ConnectionGuard.tells (guard : ConnectionGuard) (r : ConnectionRecord) (now : ℤ) : Bool :=
  r.policy.operationTimeoutMs < elapsedMs guard.lease.borrowedAt now ||
    (guard.outcome != .pending && !failureRecordedDuringLease r guard.lease.borrowedAt)

/-- The steps that count a failed poll once and a refused one not at all: nothing is recorded of a
refused poll, because the connection is gone; the guard of a failed poll counts nothing, and then
the failure is recorded where there is room for it. -/
def ModbusPoll.countsOnce (connectionId : String) (s : Listening Unit) :
    ListenAction (ℕ → Surroundings) → Bool
  | .look => match s.pc with
    | .running (.refused error) _ (.record _ :: _) none _ =>
        !error.isContention || (s.timed.pool.connections.lookup connectionId).isNone
    | .running .failed _ (.record _ :: _) none _ =>
        (s.timed.pool.connections.lookup connectionId).isSome
    | _ => true
  | .lock _ => match s.pc with
    | .running .failed _ _ (some h) _ => (s.timed.pool.heap[h]?).all (·.hasRoom)
    | _ => true
  | .dropGuard now => match s.pc with
    | .running .failed (some (guard, _)) _ _ _ =>
        (s.timed.pool.heap[guard.record]?).all fun r => !guard.tells r now
    | _ => true
  | _ => true

/-! ## What each operation counts -/

section Changes

variable {parseUrl : UrlParser} {id : String} {r : ConnectionRecord} {windows : AttemptWindows}
  {now : ℤ} {changes : List RecordChange} {c : RecordChange} {n m : ℤ}

theorem RecordChange.Adds.concat (h : Adds n changes) (hc : Adds m [c]) :
    Adds (n + m) (changes ++ [c]) := by
  obtain ⟨htotal, hconsecutive⟩ := h
  obtain ⟨htotal', hconsecutive'⟩ := hc
  rw [added_singleton] at htotal' hconsecutive'
  constructor
  · rw [added_concat, htotal, htotal']
  · rw [added_concat, hconsecutive, hconsecutive']

/-- An acquire that is refused counts nothing. -/
theorem keeps_of_contention {error : EngineError}
    (h : (acquireRecord parseUrl id r windows now).2.2 = .error error)
    (hcontention : error.isContention = true) :
    RecordChange.Keeps ⟨r, (acquireRecord parseUrl id r windows now).1, now⟩ := by
  have hout := acquireRecord_outcome parseUrl id r windows now
  generalize acquireRecord parseUrl id r windows now = answer at hout h ⊢
  obtain ⟨phase, diagnosis, recommendedAction, since, retry, hrec⟩ :=
    reconcileTimedState_eq r (.fromMetadata r.metadata) now
  rw [hrec] at hout
  cases hout with
  | busy _ => exact ⟨rfl, rfl, rfl⟩
  | circuitOpen _ _ _ => exact ⟨rfl, rfl, rfl⟩
  | limited _ _ _ _ => exact ⟨rfl, rfl, rfl⟩
  | refused _ _ _ _ _ => exact ⟨rfl, rfl, rfl⟩
  | invalid _ _ =>
      cases h
      cases hcontention
  | lent _ _ _ _ _ => cases h

theorem adds_zero (htotal : c.after.health.totalFailures = c.before.health.totalFailures)
    (hconsecutive : c.after.health.consecutiveFailures = c.before.health.consecutiveFailures) :
    Adds 0 [c] := by
  constructor
  · rw [added_singleton]
    exact adds_eq_zero htotal
  · rw [added_singleton]
    exact adds_eq_zero hconsecutive

theorem adds_of_acquired {lease : ConnectionLease}
    (h : (acquireRecord parseUrl id r windows now).2.2 = .ok lease) :
    Adds 0 [⟨r, (acquireRecord parseUrl id r windows now).1, now⟩] := by
  obtain ⟨hlent, -⟩ := justLent_of_acquire h
  exact adds_zero hlent.total hlent.consecutive

theorem adds_of_recorded (reason : String) (hroom : r.hasRoom = true) :
    Adds 1 [⟨r, (HealthOp.recordConnectFailure reason).apply now r, now⟩] := by
  simp only [ConnectionRecord.hasRoom, Bool.and_eq_true, decide_eq_true_eq] at hroom
  obtain ⟨-, htotal, hconsecutive, -⟩ := applyRuntimeFailure_spec r r.policy now reason false
  constructor
  · rw [added_singleton]
    exact adds_eq_one (·.totalFailures) htotal hroom.1
  · rw [added_singleton]
    exact adds_eq_one (·.consecutiveFailures) hconsecutive hroom.2

theorem adds_of_released {guard : ConnectionGuard} (hmark : guard.outcome ≠ .success)
    (htells : guard.tells r now = false) :
    Adds 0 [⟨r, finalizeRelease r guard.lease.borrowedAt guard.outcome now, now⟩] := by
  have hout := finalizeRelease_outcome r guard.lease.borrowedAt guard.outcome now
  simp only [ConnectionGuard.tells, Bool.or_eq_false_iff, decide_eq_false_iff_not] at htells
  obtain ⟨hintime, hquiet⟩ := htells
  generalize finalizeRelease r guard.lease.borrowedAt guard.outcome now = r' at hout ⊢
  generalize guard.outcome = mark at hmark hquiet hout
  cases hout with
  | overTime _ _ hover => exact absurd hover hintime
  | success _ _ => exact absurd rfl hmark
  | recorded _ _ _ => exact adds_zero rfl rfl
  | pending _ _ _ => exact adds_zero rfl rfl
  | failure _ _ _ hunseen => simp [hunseen] at hquiet

end Changes

/-! ## Runs -/

/-- Where a poll may stand, and what it has counted so far. -/
inductive ModbusPoll.Sound : ListenPc Unit → Prop
  | resting : Sound .resting
  | returned : Sound .returned
  | asking (h : ℕ) : Sound (.asking h)
  | leased {guard : ConnectionGuard} {changes : List RecordChange} :
      guard.outcome = .pending → Adds 0 changes → Sound (.leased guard () changes)
  | refused {error : EngineError} {reason : String} {found : Option ℕ}
      {changes : List RecordChange} :
      (error.isContention = true → found = none ∧ ∀ c ∈ changes, c.Keeps) →
      Sound (.running (.refused error) none [.record (.recordConnectFailure reason)] found changes)
  | held {guard : ConnectionGuard} {reason : String} {changes : List RecordChange} :
      guard.outcome ≠ .success → Adds 0 changes →
      Sound (.running .failed (some (guard, ()))
        [.dropGuard, .record (.recordConnectFailure reason)] none changes)
  | dropped {reason : String} {found : Option ℕ} {changes : List RecordChange} :
      Adds 0 changes →
      Sound (.running .failed none [.record (.recordConnectFailure reason)] found changes)
  | beats {held : Option (ConnectionGuard × Unit)} {op : HealthOp} {found : Option ℕ}
      {changes : List RecordChange} :
      Sound (.running .wentOn held [.record op, .dropGuard] found changes)
  | drops {held : Option (ConnectionGuard × Unit)} {found : Option ℕ}
      {changes : List RecordChange} : Sound (.running .wentOn held [.dropGuard] found changes)

/-- A run in which every poll so far is accounted for. -/
structure ModbusPoll.AllAccounted (s : Listening Unit) : Prop where
  sound : ModbusPoll.Sound s.pc
  turns : ∀ t ∈ s.turns, t.Accounted

namespace ModbusPoll

variable {parseUrl : UrlParser} {connectionId : String} {signals : List CompiledSignal}
  {s s' : Listening Unit} {now : ℤ}

/-- What a poll goes on to do with its lease. -/
theorem pollAllSignals_cases (w : ℕ → Surroundings) (cancelled : Bool)
    (signals : List CompiledSignal) (metadata : Value) :
    (∃ reason, (pollAllSignals w cancelled signals metadata).turn = .failed ∧
      (pollAllSignals w cancelled signals metadata).mark ≠ some .success ∧
      (pollAllSignals w cancelled signals metadata).todo =
        [.dropGuard, .record (.recordConnectFailure reason)]) ∨
    ((pollAllSignals w cancelled signals metadata).turn = .wentOn ∧
      ((pollAllSignals w cancelled signals metadata).todo = [.dropGuard] ∨
        ∃ op, (pollAllSignals w cancelled signals metadata).todo = [.record op, .dropGuard])) := by
  simp only [pollAllSignals]
  split
  · exact .inl ⟨_, rfl, by simp, rfl⟩
  · split
    · exact .inr ⟨rfl, .inl rfl⟩
    · split
      · exact .inl ⟨_, rfl, by simp, rfl⟩
      · exact .inl ⟨_, rfl, by simp, rfl⟩
      · exact .inr ⟨rfl, .inr ⟨_, rfl⟩⟩

/-- A turn that ends is filed. -/
theorem AllAccounted.file {turn : ListenTurn} {changes : List RecordChange} (hs : AllAccounted s)
    (hturn : turn ≠ .stopped) (ht : FiledTurn.Accounted ⟨turn, changes⟩) :
    AllAccounted (s.goOn turn none [] changes) where
  sound := by
    simp only [Listening.goOn, if_neg hturn]
    exact .resting
  turns t hmem := by
    rcases List.mem_append.mp hmem with hold | hnew
    · exact hs.turns t hold
    · obtain rfl := List.mem_singleton.mp hnew
      exact ht

/-- What is filed does not depend on the pool. -/
theorem AllAccounted.of_eq (hs : AllAccounted s) (hpc : s'.pc = s.pc) (hturns : s'.turns = s.turns) :
    AllAccounted s' where
  sound := hpc ▸ hs.sound
  turns := hturns ▸ hs.turns

theorem AllAccounted.write (hs : AllAccounted s) (h : ℕ) (record : ConnectionRecord) (now : ℤ) :
    AllAccounted (s.write h record now) := hs.of_eq rfl rfl

theorem AllAccounted.goTo {pc : ListenPc Unit} (hs : AllAccounted s) (hpc : s'.pc = pc)
    (hturns : s'.turns = s.turns) (hsound : Sound pc) : AllAccounted s' where
  sound := hpc ▸ hsound
  turns := hturns ▸ hs.turns

/-- A step whose guard holds keeps all polls accounted for. -/
theorem AllAccounted.step {a : ListenAction (ℕ → Surroundings)} (hs : AllAccounted s)
    (hguard : countsOnce connectionId s a = true)
    (h : s.step parseUrl (modbusPollLoop connectionId signals) a = some s') :
    AllAccounted s' := by
  have hsound := hs.sound
  cases Listening.step_moves h with
  | others _ => exact hs.of_eq rfl rfl
  | cancel => exact hs.of_eq rfl rfl
  | leave _ => exact hs.goTo rfl rfl .returned
  | asks _ _ => exact hs.goTo rfl rfl (.asking _)
  | unknown _ _ => exact hs.goTo rfl rfl (.refused fun hcontention => nomatch hcontention)
  | finds hpc hlookup =>
      rw [hpc] at hsound
      rw [countsOnce, hpc] at hguard
      cases hsound with
      | refused hkeeps =>
          refine hs.goTo rfl rfl (.refused fun hcontention => ?_)
          have hids : s.timed.pool.connections.lookup connectionId = some _ := hlookup
          simp [hcontention, hids] at hguard
      | dropped hadds => exact hs.goTo rfl rfl (.dropped hadds)
      | beats => exact hs.goTo rfl rfl .beats
  | misses hpc hlookup =>
      rw [hpc] at hsound
      rw [countsOnce, hpc] at hguard
      cases hsound with
      | refused hkeeps => exact hs.file (by simp) fun hcontention => (hkeeps hcontention).2
      | dropped hadds =>
          have hids : s.timed.pool.connections.lookup connectionId = none := hlookup
          simp [hids] at hguard
      | beats => exact hs.goTo rfl rfl .drops
  | acquires hpc hrecord hreads =>
      obtain ⟨s₁, hturns, -, -, -, -, hcases⟩ := Listening.acquireAt_cases parseUrl
        (modbusPollLoop connectionId signals) s _ _ _
      rcases hcases with ⟨lease, hlease, hafter⟩ | ⟨error, herror, hafter⟩
      · rw [hafter]
        exact hs.goTo rfl hturns (.leased rfl (adds_of_acquired hlease))
      · rw [hafter]
        refine hs.goTo rfl hturns (.refused fun hcontention => ⟨rfl, ?_⟩)
        intro c hmem
        obtain rfl := List.mem_singleton.mp hmem
        exact keeps_of_contention herror hcontention
  | records hpc hrecord hreads =>
      rw [hpc] at hsound
      rw [countsOnce, hpc] at hguard
      cases hsound with
      | refused hkeeps =>
          refine (hs.write _ _ _).file (by simp) fun hcontention => ?_
          cases (hkeeps hcontention).1
      | dropped hadds =>
          simp only [hrecord, Option.all_some] at hguard
          exact (hs.write _ _ _).file (by simp) (hadds.concat (adds_of_recorded _ hguard))
      | beats => exact hs.goTo rfl rfl .drops
  | meets hpc hmeet =>
      rw [hpc] at hsound
      obtain ⟨rfl, -⟩ := Prod.mk.inj (Option.some.inj hmeet)
      cases hsound with
      | leased hpending hadds =>
          rcases pollAllSignals_cases _ s.cancelled signals _ with
            ⟨reason, hturn, hmark, htodo⟩ | ⟨hturn, htodo | ⟨op, htodo⟩⟩
          · rw [hturn, htodo]
            refine hs.goTo rfl rfl (.held ?_ hadds)
            simp only [Listening.marked, hpending]
            cases hmarked : (pollAllSignals _ s.cancelled signals _).mark with
            | none => simp
            | some mark =>
                intro hsuccess
                rw [hmarked] at hmark
                exact hmark (congrArg some hsuccess)
          · rw [hturn, htodo]
            exact hs.goTo rfl rfl .drops
          · rw [hturn, htodo]
            exact hs.goTo rfl rfl .beats
  | drops hpc hrecord hreads =>
      rw [hpc] at hsound
      rw [countsOnce, hpc] at hguard
      cases hsound with
      | held hmark hadds =>
          simp only [hrecord, Option.all_some, Bool.not_eq_true'] at hguard
          exact hs.goTo rfl rfl (.dropped (hadds.concat (adds_of_released hmark hguard)))
      | drops => exact (hs.write _ _ _).file (by simp) trivial

/-- In a run whose steps all count once, every poll is accounted for. -/
theorem allAccounted_of_reaches
    (h : ((modbusPollLoop connectionId signals).machine parseUrl).ReachesUnder
      (fun s a => countsOnce connectionId s a = true) s) : AllAccounted s := by
  refine h.invariant ?_ fun s a s' hs hguard hstep => hs.step hguard hstep
  intro s hs
  constructor
  · rw [hs.pc]
    exact .resting
  · rw [hs.turns]
    simp

/-- A failure that is recorded of a refused poll, or of one that has been counted, is not accounted
for. -/
theorem unaccounted_of_recorded {turn : ListenTurn} {reason : String} {h : ℕ}
    {changes : List RecordChange} {r : ConnectionRecord} (hreads : s.reads now = true)
    (hpc : s.pc = .running turn none [.record (.recordConnectFailure reason)] (some h) changes)
    (hr : s.timed.pool.heap[h]? = some r) (hroom : r.hasRoom = true)
    (hturn : (∃ error, turn = .refused error ∧ error.isContention = true) ∨
      (turn = .failed ∧ Adds 1 changes)) :
    ∃ s', s.step parseUrl (modbusPollLoop connectionId signals) (.lock now) = some s' ∧
      ∃ t ∈ s'.turns, ¬ t.Accounted := by
  have hadds := @adds_of_recorded _ now reason hroom
  refine ⟨(s.write h ((HealthOp.recordConnectFailure reason).apply now r) now).goOn turn none []
    (changes ++ [⟨r, (HealthOp.recordConnectFailure reason).apply now r, now⟩]), ?_, ?_⟩
  · rw [Listening.step, if_pos hreads, Listening.lock, hpc]
    simp only [hr, Option.map_some]
  · refine ⟨_, List.mem_append_right _ (List.mem_singleton_self _), ?_⟩
    rcases hturn with ⟨error, rfl, hcontention⟩ | ⟨rfl, hone⟩
    · intro hkeeps
      have hkeep := hkeeps hcontention _ (List.mem_append_right _ (List.mem_singleton_self _))
      have htotal := hadds.1
      rw [added_singleton, adds_eq_zero hkeep.total] at htotal
      cases htotal
    · intro haccounted
      have htwice := (hone.concat hadds).1.symm.trans haccounted.1
      cases htwice

end ModbusPoll

/-- Polls are accounted for as long as nothing is recorded of one that was refused or that its
guard has counted; recording it counts once too often. -/
theorem polls_accounted (parseUrl : UrlParser) (connectionId : String)
    (signals : List CompiledSignal) :
    (∀ s, ((modbusPollLoop connectionId signals).machine parseUrl).ReachesUnder
        (fun s a => ModbusPoll.countsOnce connectionId s a = true) s →
      ∀ t ∈ s.turns, t.Accounted) ∧
    ∀ (s : Listening Unit) (turn : ListenTurn) (reason : String) (h : ℕ)
      (changes : List RecordChange) (r : ConnectionRecord) (now : ℤ), s.reads now = true →
      s.pc = .running turn none [.record (.recordConnectFailure reason)] (some h) changes →
      s.timed.pool.heap[h]? = some r → r.hasRoom = true →
      ((∃ error, turn = .refused error ∧ error.isContention = true) ∨
        (turn = .failed ∧ RecordChange.Adds 1 changes)) →
      ∃ s', s.step parseUrl (modbusPollLoop connectionId signals) (.lock now) = some s' ∧
        ∃ t ∈ s'.turns, ¬ t.Accounted :=
  ⟨fun _ h => (ModbusPoll.allAccounted_of_reaches h).turns,
    fun _ _ _ _ _ _ _ hreads hpc hr hroom hturn =>
      ModbusPoll.unaccounted_of_recorded hreads hpc hr hroom hturn⟩

/-! ## A PLC that is polled -/

namespace ModbusPoll

def temperature : CompiledSignal := ⟨"temperature", .register 40001 .u16 none, none⟩

/-- The poll loop has not begun. -/
def begun (pool : Pool) : Listening Unit := ⟨⟨pool, 0⟩, false, .resting, []⟩

/-- A poll of a device that is switched off. -/
def polledOnce : List (ListenAction (ℕ → Surroundings)) :=
  [.look, .lock 1, .meet fun _ => switchedOff, .dropGuard 2, .look, .lock 3]

/-- Somebody else has the connection, and the poll is refused. -/
def contended : List (ListenAction (ℕ → Surroundings)) :=
  [.others (.acquire "plc"), .others (.resume 0 0), .look, .lock 1, .look, .lock 2]

/-- A PLC with a unit, without which nothing is read. -/
def unitPlc : ConnectionDefinition := ⟨"plc", "modbus", .object [("host", .string "10.0.0.7"),
  ("port", .number (.posInt 502)), ("unit", .number (.posInt 1))]⟩

def unitPlcPool : Pool := { Pool.plcPool with heap := [buildRecord Pool.refuseUrls unitPlc] }

theorem unitPlcPool_atRest : unitPlcPool.AtRest := Pool.atRest_singleton rfl

/-- After the actions there is one poll, which ended like this and has added so much. -/
def adds (pool : Pool) (actions : List (ListenAction (ℕ → Surroundings))) (turn : ListenTurn)
    (n : ℤ) : Bool :=
  (((modbusPollLoop "plc" [temperature]).machine Pool.refuseUrls).replay (fun _ _ => true)
    (begun pool) actions).any fun s => s.turns.any fun t =>
      t.turn == turn && RecordChange.added (·.totalFailures) t.changes == n

end ModbusPoll

/-- A poll without a unit counts one failure. -/
theorem polls_accounted_unitless : ∃ s : Listening Unit, s.turns.length = 1 ∧
    (∀ t ∈ s.turns, t.turn = .failed) ∧ ∀ t ∈ s.turns, t.Accounted := by
  have hrun : (((modbusPollLoop "plc" [ModbusPoll.temperature]).machine Pool.refuseUrls).replay
      (ModbusPoll.countsOnce "plc") (ModbusPoll.begun Pool.plcPool) ModbusPoll.polledOnce).any
        (fun s => s.turns.map FiledTurn.turn == [.failed]) = true := by decide
  obtain ⟨s, hreached, hturns⟩ := Machine.exists_reachesUnder_of_replay
    (by exact ⟨Pool.plcPool_atRest, rfl, rfl⟩) hrun
  have hturns : s.turns.map FiledTurn.turn = [.failed] := eq_of_beq hturns
  refine ⟨s, ?_, ?_, (polls_accounted _ _ _).1 s hreached⟩
  · simpa using congrArg List.length hturns
  · intro t hmem
    have hturn := List.mem_map_of_mem (f := FiledTurn.turn) hmem
    rw [hturns] at hturn
    exact List.mem_singleton.mp hturn

/-- A poll that somebody else's lease keeps out counts a failure, and a poll that fails counts
two. -/
theorem polls_overcounted :
    (∃ s, ((modbusPollLoop "plc" [ModbusPoll.temperature]).machine Pool.refuseUrls).Reaches s ∧
      ∃ t ∈ s.turns, t.turn = .refused (.connectionBusy "plc") ∧ ¬ t.Accounted) ∧
    ∃ s, ((modbusPollLoop "plc" [ModbusPoll.temperature]).machine Pool.refuseUrls).Reaches s ∧
      ∃ t ∈ s.turns, t.turn = .failed ∧ RecordChange.added (·.totalFailures) t.changes = 2 ∧
        ¬ t.Accounted := by
  have hruns : ModbusPoll.adds Pool.plcPool ModbusPoll.contended
        (.refused (.connectionBusy "plc")) 1 = true ∧
      ModbusPoll.adds ModbusPoll.unitPlcPool ModbusPoll.polledOnce .failed 2 = true := by decide
  obtain ⟨hcontended, hunanswered⟩ := hruns
  constructor
  · obtain ⟨s, hreached, hturns⟩ := Machine.exists_reaches_of_replay
      (by exact ⟨Pool.plcPool_atRest, rfl, rfl⟩) hcontended
    simp only [List.any_eq_true, Bool.and_eq_true, beq_iff_eq] at hturns
    obtain ⟨t, hmem, hturn, hone⟩ := hturns
    refine ⟨s, hreached, t, hmem, hturn, ?_⟩
    rw [FiledTurn.Accounted, hturn]
    intro hkeeps
    have hzero : RecordChange.added (·.totalFailures) t.changes = 0 :=
      RecordChange.added_eq_zero fun c hc => (hkeeps rfl c hc).total
    omega
  · obtain ⟨s, hreached, hturns⟩ := Machine.exists_reaches_of_replay
      (by exact ⟨ModbusPoll.unitPlcPool_atRest, rfl, rfl⟩) hunanswered
    simp only [List.any_eq_true, Bool.and_eq_true, beq_iff_eq] at hturns
    obtain ⟨t, hmem, hturn, htwo⟩ := hturns
    refine ⟨s, hreached, t, hmem, hturn, htwo, ?_⟩
    rw [FiledTurn.Accounted, hturn]
    intro hadds
    have hone := hadds.1
    omega

end Nazh
