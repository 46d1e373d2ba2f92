import Mathlib.Data.Nat.Notation
import Mathlib.Tactic.Common

/-!
# How the last session ended

A session of the application leaves a marker in the data directory, which a normal ending removes;
a panic leaves a crash report there. The next session looks for both, so as to say how the last one
ended. The hook that writes the report is called for every panic, also for one that is caught and
does not end the session.
-/

namespace Nazh

/-! ## The files -/

structure CrashReport where
  message : String
  location : Option String
  backtrace : String
  panickedAtMs : UInt64
  deriving DecidableEq

/-- The marker. -/
structure SessionMarker where
  pid : UInt32
  startedAtMs : UInt64
  deriving DecidableEq

inductive SessionAnomaly
  | panicked (report : CrashReport)
  | killedExternally (pid : UInt32) (startedAtMs : UInt64)
  deriving DecidableEq

/-- The text of a file that should hold an `α`. -/
inductive SavedText (α : Type)
  | parsed (a : α)
  | unreadable
  deriving DecidableEq

/-- The data directory: the files `.session.marker` and `.session.crash`. -/
structure DataDir where
  marker : Option (SavedText SessionMarker)
  crash : Option (SavedText CrashReport)
  deriving DecidableEq

/-- What is read from a file, if it is there and can be read. -/
def SavedText.read? {α : Type} : Option (SavedText α) → Option α
  | some (.parsed a) => some a
  | _ => none

/-- What `PanicHookInfo` has: the payload, if it is a text, and the place. -/
structure PanicInfo where
  payload : Option String
  location : Option (String × ℕ × ℕ)
  backtrace : String
  atMs : UInt64

namespace PanicInfo

def report (info : PanicInfo) : CrashReport where
  message := info.payload.getD "未知 panic"
  location := info.location.map fun (file, line, column) => s!"{file}:{line}:{column}"
  backtrace := info.backtrace
  panickedAtMs := info.atMs

end PanicInfo

/-- One operation on a file of the data directory. -/
inductive DataDirOperation
  | removeMarker
  | removeCrash
  | writeMarker (marker : SessionMarker)
  | writeCrash (report : CrashReport)

namespace DataDir

variable (dir : DataDir)

def operate (dir : DataDir) : DataDirOperation → DataDir
  | .removeMarker => { dir with marker := none }
  | .removeCrash => { dir with crash := none }
  | .writeMarker marker => { dir with marker := some (.parsed marker) }
  | .writeCrash report => { dir with crash := some (.parsed report) }

/-- `detect_anomaly`: what it answers, and what it removes. -/
def detectAnomaly (pid : UInt32) : Option SessionAnomaly × List DataDirOperation :=
  match SavedText.read? dir.crash with
  | some report => (some (.panicked report), [.removeCrash, .removeMarker])
  | none =>
      match SavedText.read? dir.marker with
      | some marker =>
          if marker.pid ≠ pid then
            (some (.killedExternally marker.pid marker.startedAtMs), [.removeMarker])
          else (none, [])
      | none => (none, [])

/-- What `init` does with the files, one operation after another. -/
def initOperations (pid : UInt32) (nowMs : UInt64) : List DataDirOperation :=
  (dir.detectAnomaly pid).2 ++ [.writeMarker ⟨pid, nowMs⟩]

def init (pid : UInt32) (nowMs : UInt64) : Option SessionAnomaly × DataDir :=
  ((dir.detectAnomaly pid).1, (dir.initOperations pid nowMs).foldl operate dir)

def cleanShutdown : DataDir := dir.operate .removeMarker

/-- `write_crash_report`, which the panic hook calls. -/
def writeCrashReport (info : PanicInfo) : DataDir := dir.operate (.writeCrash info.report)

end DataDir

/-! ## Sessions -/

inductive Ending
  /-- The window was closed. -/
  | closed
  /-- `restart_app`. -/
  | restarted
  | panicked (info : PanicInfo)
  /-- Killed after `init`. -/
  | killed
  /-- Killed after so many operations of `init`, the last of which writes the marker. -/
  | killedInInit (done : ℕ)

/-- A session, with the panics that are caught in it. -/
structure Session where
  pid : UInt32
  startedAtMs : UInt64
  caught : List PanicInfo
  ending : Ending

namespace Session

variable (session : Session)

/-- The files when `init` is over or, if the session is killed before, when it is killed. -/
def afterInit (dir : DataDir) : DataDir :=
  match session.ending with
  | .killedInInit done =>
      ((dir.initOperations session.pid session.startedAtMs).dropLast.take done).foldl
        DataDir.operate dir
  | _ => (dir.init session.pid session.startedAtMs).2

/-- The files when the session ends. -/
def atEnding (dir : DataDir) : DataDir :=
  match session.ending with
  | .killedInInit _ => session.afterInit dir
  | _ => session.caught.foldl DataDir.writeCrashReport (session.afterInit dir)

/-- What a session leaves. -/
def run (dir : DataDir) : DataDir :=
  let atEnding := session.atEnding dir
  match session.ending with
  | .closed => atEnding.cleanShutdown
  | .restarted => atEnding.cleanShutdown
  | .panicked info => atEnding.writeCrashReport info
  | .killed => atEnding
  | .killedInInit _ => atEnding

/-- Whether the next session says the right thing of this one. -/
def Classified (verdict : Option SessionAnomaly) : Prop :=
  match session.ending with
  | .closed => verdict = none
  | .restarted => verdict = none
  | .panicked info => verdict = some (.panicked info.report)
  | .killed => ∃ startedAtMs, verdict = some (.killedExternally session.pid startedAtMs)
  | .killedInInit _ => ∃ startedAtMs, verdict = some (.killedExternally session.pid startedAtMs)

/-- Whether no caught panic and no process id gets in the way. -/
def Clean (dir : DataDir) (nextPid : UInt32) : Prop :=
  match session.ending with
  | .closed => session.caught = []
  | .restarted => session.caught = []
  | .panicked _ => True
  | .killed => session.caught = [] ∧ nextPid ≠ session.pid
  | .killedInInit _ =>
      SavedText.read? (session.atEnding dir).crash = none ∧
        (SavedText.read? (session.atEnding dir).marker).map SessionMarker.pid = some session.pid ∧
        nextPid ≠ session.pid

end Session

/-- The files after sessions one after another. -/
def afterSessions (start : DataDir) (sessions : List Session) : DataDir :=
  sessions.foldl (fun dir session => session.run dir) start

section

variable {dir : DataDir} {session : Session} {pid nextPid : UInt32} {nowMs nextMs : UInt64}

/-- After `init` no report of an earlier session can be read. -/
theorem crash_init : SavedText.read? (dir.init pid nowMs).2.crash = none := by
  unfold DataDir.init DataDir.initOperations DataDir.detectAnomaly
  cases hcrash : SavedText.read? dir.crash with
  | some report => rfl
  | none =>
      cases hmarker : SavedText.read? dir.marker with
      | none => exact hcrash
      | some marker =>
          by_cases hpid : marker.pid = pid <;> simpa [hpid, DataDir.operate] using hcrash

theorem marker_init : (dir.init pid nowMs).2.marker = some (.parsed ⟨pid, nowMs⟩) := by
  simp [DataDir.init, DataDir.initOperations, DataDir.operate]

/-- Caught panics leave the marker. -/
theorem marker_caught (caught : List PanicInfo) (dir : DataDir) :
    (caught.foldl DataDir.writeCrashReport dir).marker = dir.marker := by
  induction caught generalizing dir with
  | nil => rfl
  | cons info caught ih => exact ih _

/-- A caught panic leaves a report. -/
theorem crash_caught {caught : List PanicInfo} (h : caught ≠ []) (dir : DataDir) :
    ∃ report, SavedText.read? (caught.foldl DataDir.writeCrashReport dir).crash = some report := by
  rw [← List.dropLast_concat_getLast h, List.foldl_append]
  exact ⟨_, rfl⟩

/-- A report is what is found first. -/
theorem init_of_crash {report : CrashReport} (h : SavedText.read? dir.crash = some report) :
    (dir.init nextPid nextMs).1 = some (.panicked report) := by
  simp [DataDir.init, DataDir.detectAnomaly, h]

/-- Without a report, a marker with another process id is found. -/
theorem init_eq_killed_iff (h : SavedText.read? dir.crash = none) :
    (∃ startedAtMs, (dir.init nextPid nextMs).1 = some (.killedExternally pid startedAtMs)) ↔
      (SavedText.read? dir.marker).map SessionMarker.pid = some pid ∧ nextPid ≠ pid := by
  cases hmarker : SavedText.read? dir.marker with
  | none => simp [DataDir.init, DataDir.detectAnomaly, h, hmarker]
  | some marker =>
      by_cases hpid : marker.pid = nextPid
      · simp [DataDir.init, DataDir.detectAnomaly, h, hmarker, hpid]
      · simp only [DataDir.init, DataDir.detectAnomaly, h, hmarker, Option.map_some,
          Option.some.injEq, ne_eq, hpid, not_false_eq_true, if_true,
          SessionAnomaly.killedExternally.injEq, exists_and_left, exists_eq', and_true]
        refine ⟨fun heq => ⟨heq, ?_⟩, And.left⟩
        rintro rfl
        exact hpid heq

/-- Where neither file can be read, nothing is found. -/
theorem init_of_empty (hcrash : SavedText.read? dir.crash = none)
    (hmarker : SavedText.read? dir.marker = none) : (dir.init nextPid nextMs).1 = none := by
  simp [DataDir.init, DataDir.detectAnomaly, hcrash, hmarker]

/-! ## The verdict -/

/-- After a session that was not killed in `init`, the marker is its own. -/
theorem marker_atEnding (session : Session) (dir : DataDir)
    (h : session.afterInit dir = (dir.init session.pid session.startedAtMs).2) :
    (session.caught.foldl DataDir.writeCrashReport (session.afterInit dir)).marker =
      some (.parsed ⟨session.pid, session.startedAtMs⟩) := by
  rw [marker_caught, h, marker_init]

/-- A report is there exactly when a panic was caught. -/
theorem crash_atEnding (session : Session) (dir : DataDir)
    (h : session.afterInit dir = (dir.init session.pid session.startedAtMs).2) :
    SavedText.read? (session.caught.foldl DataDir.writeCrashReport (session.afterInit dir)).crash =
      none ↔ session.caught = [] := by
  constructor
  · intro hcrash
    by_contra hcaught
    obtain ⟨report, hreport⟩ := crash_caught hcaught (session.afterInit dir)
    rw [hcrash] at hreport
    cases hreport
  · intro hcaught
    rw [hcaught, List.foldl_nil, h, crash_init]

theorem shutdown_classified_iff {dir' : DataDir} {caught : List PanicInfo}
    (h : SavedText.read? dir'.crash = none ↔ caught = []) :
    (dir'.cleanShutdown.init nextPid nextMs).1 = none ↔ caught = [] := by
  rw [← h]
  cases hcrash : SavedText.read? dir'.crash with
  | none =>
      have hfound : (dir'.cleanShutdown.init nextPid nextMs).1 = none := init_of_empty hcrash rfl
      simp [hfound]
  | some report =>
      have hfound : (dir'.cleanShutdown.init nextPid nextMs).1 = some (.panicked report) :=
        init_of_crash hcrash
      simp [hfound]

theorem killed_classified_iff :
    (∃ startedAtMs, (dir.init nextPid nextMs).1 = some (.killedExternally pid startedAtMs)) ↔
      SavedText.read? dir.crash = none ∧
        (SavedText.read? dir.marker).map SessionMarker.pid = some pid ∧ nextPid ≠ pid := by
  cases hcrash : SavedText.read? dir.crash with
  | none => simpa using init_eq_killed_iff hcrash
  | some report => simp [init_of_crash hcrash]

/-- The next session tells the ending right exactly if the session was clean, whatever sessions there
were before. -/
theorem classified_iff (start : DataDir) (sessions : List Session) (last : Session)
    (nextPid : UInt32) (nextMs : UInt64) :
    last.Classified ((afterSessions start (sessions ++ [last])).init nextPid nextMs).1 ↔
      last.Clean (afterSessions start sessions) nextPid := by
  have hrun : afterSessions start (sessions ++ [last]) = last.run (afterSessions start sessions) := by
    simp [afterSessions]
  rw [hrun]
  generalize afterSessions start sessions = dir
  obtain ⟨pid, startedAtMs, caught, ending⟩ := last
  cases ending with
  | closed => exact shutdown_classified_iff (crash_atEnding _ dir rfl)
  | restarted => exact shutdown_classified_iff (crash_atEnding _ dir rfl)
  | panicked info => exact iff_of_true (init_of_crash rfl) True.intro
  | killed =>
      have hcrash := crash_atEnding ⟨pid, startedAtMs, caught, .killed⟩ dir rfl
      have hmarker := marker_atEnding ⟨pid, startedAtMs, caught, .killed⟩ dir rfl
      refine killed_classified_iff.trans (and_congr hcrash ?_)
      simp only [Session.run, Session.atEnding]
      rw [hmarker]
      simp [SavedText.read?]
  | killedInInit done => exact killed_classified_iff

end

/-- A session in which a panic was caught and whose window was closed is said to have panicked. -/
theorem caught_panic_reported :
    let session : Session := ⟨100, 1, [⟨some "boom", none, "", 2⟩], .closed⟩
    let verdict := ((afterSessions ⟨none, none⟩ [session]).init 200 3).1
    verdict = some (.panicked ⟨"boom", none, "", 2⟩) ∧ ¬ session.Classified verdict := by
  intro session verdict
  have hverdict : verdict = some (.panicked ⟨"boom", none, "", 2⟩) := rfl
  refine ⟨hverdict, fun h => ?_⟩
  exact absurd (hverdict.symm.trans h) (Option.some_ne_none _)

end Nazh
