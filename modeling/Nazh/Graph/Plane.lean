import Nazh.Core.Data
import Nazh.Lib.Channel
import Nazh.Lib.Ledger

/-!
# The shared data plane and the commands on it

The tasks of a deployment share the data store and the channels. What a task does
to them in one step is a command; between two commands it computes alone. Each
command of the store and of a channel is atomic, and any two commands of two tasks
may be taken in either order.

The environment answers what the tasks cannot compute: the clock, that no sender
of a channel is left, what the data pins of a node pulled, and what the node's
guarded `transform` returned.

The units of the store are accounted for in tickets. A queued reference is a
ticket; what else a task owes is given by a weight on its states. A command is
`Balanced` when the weights before and after it differ by what it does.
-/

namespace Nazh

open Lib

/-- What the tasks share. -/
structure DataPlane where
  store : ArenaDataStore
  chans : List (Channel ContextRef)

/-- An atomic command, with what its task does next. -/
inductive Cmd (κ : Type)
  | write (payload : Value) (consumers : ℕ) (next : Except EngineError ℕ → ℤ → κ)
  | readMut (id : ℕ) (next : Except EngineError Value → κ)
  | read (id : ℕ) (next : Except EngineError Value → κ)
  | release (id : ℕ) (next : κ)
  | recv (ch : ℕ) (next : Option ContextRef → κ)
  | send (ch : ℕ) (ref : ContextRef) (next : Bool → κ)
  | trySend (ch : ℕ) (ref : ContextRef) (next : TrySend → κ)
  | isClosed (ch : ℕ) (next : Bool → κ)
  | dropReceiver (ch : ℕ) (next : κ)
  | pull (payload : Value) (next : Except EngineError Value → κ)
  | transform (traceId : ℕ) (payload : Value) (next : Except EngineError NodeExecution → κ)

/-- What the environment answers. -/
inductive Env
  /-- The clock shows `now`. -/
  | tick (now : ℤ)
  /-- No sender of the channel is left. -/
  | hangup
  /-- The data inputs were pulled and merged, or failed. -/
  | pulled (result : Except EngineError Value)
  /-- The guarded `transform` returned, failed, timed out or panicked. -/
  | transformed (result : Except EngineError NodeExecution)

namespace DataPlane

def setChan (plane : DataPlane) (ch : ℕ) (c : Channel ContextRef) : DataPlane :=
  { plane with chans := plane.chans.set ch c }

@[simp] theorem store_setChan (plane : DataPlane) (ch : ℕ) (c : Channel ContextRef) :
    (plane.setChan ch c).store = plane.store := rfl

theorem setChan_self {plane : DataPlane} {ch : ℕ} {c : Channel ContextRef}
    (h : plane.chans[ch]? = some c) : plane.setChan ch c = plane := by
  obtain ⟨hlt, rfl⟩ := List.getElem?_eq_some_iff.mp h
  simp [setChan]

/-- Whether the receiver of the channel `ch` is gone. -/
def Gone (plane : DataPlane) (ch : ℕ) : Prop := plane.chans[ch]? = some .gone

instance (plane : DataPlane) (ch : ℕ) : Decidable (plane.Gone ch) :=
  inferInstanceAs (Decidable (_ = _))

end DataPlane

namespace Cmd

variable {κ κ' : Type}

/-- The same command for a task that is part of a larger one. -/
def map (f : κ → κ') : Cmd κ → Cmd κ'
  | write payload n next => write payload n fun r now => f (next r now)
  | readMut id next => readMut id fun r => f (next r)
  | read id next => read id fun r => f (next r)
  | release id next => release id (f next)
  | recv ch next => recv ch fun r => f (next r)
  | send ch ref next => send ch ref fun ok => f (next ok)
  | trySend ch ref next => trySend ch ref fun r => f (next r)
  | isClosed ch next => isClosed ch fun b => f (next b)
  | dropReceiver ch next => dropReceiver ch (f next)
  | pull payload next => pull payload fun r => f (next r)
  | transform traceId payload next => transform traceId payload fun r => f (next r)

/-- The effect of a command, where it is enabled. -/
def exec : Cmd κ → Env → DataPlane → Option (DataPlane × κ)
  | write payload n next, .tick now, plane =>
      match plane.store.write payload n with
      | .ok (id, store) => some ({ plane with store }, next (.ok id) now)
      | .error e => some (plane, next (.error e) now)
  | readMut id next, .tick _, plane => some (plane, next (plane.store.readMut id))
  | read id next, .tick _, plane => some (plane, next (plane.store.read id))
  | release id next, .tick _, plane => some ({ plane with store := plane.store.release id }, next)
  | recv ch next, .tick _, plane =>
      match plane.chans[ch]?.bind Channel.recv with
      | some (c, ref) => some (plane.setChan ch c, next (some ref))
      | none => none
  | recv ch next, .hangup, plane =>
      match plane.chans[ch]? with
      | some (.live _ []) => some (plane, next none)
      | _ => none
  | send ch ref next, .tick _, plane =>
      match plane.chans[ch]?.bind (Channel.send · ref) with
      | some (c, ok) => some (plane.setChan ch c, next ok)
      | none => none
  | trySend ch ref next, .tick _, plane =>
      match plane.chans[ch]?.map (Channel.trySend · ref) with
      | some (c, r) => some (plane.setChan ch c, next r)
      | none => none
  | isClosed ch next, .tick _, plane =>
      match plane.chans[ch]? with
      | some c => some (plane, next c.isClosed)
      | none => none
  | dropReceiver ch next, .tick _, plane => some (plane.setChan ch .gone, next)
  | pull _ next, .pulled r, plane => some (plane, next r)
  | transform _ _ next, .transformed r, plane => some (plane, next r)
  | _, _, _ => none

/-- A command of the whole is executed as the command of the part. -/
theorem exec_map (f : κ → κ') (c : Cmd κ) (env : Env) (plane : DataPlane) :
    (c.map f).exec env plane = (c.exec env plane).map fun r => (r.1, f r.2) := by
  cases c <;> cases env <;> first | rfl | (simp only [map, exec]; split <;> rfl)

/-- What an executed command did, one case for each way it can end. -/
inductive Effect (plane : DataPlane) : Cmd κ → DataPlane → κ → Prop
  | wrote {payload n next id store now} : plane.store.write payload n = .ok (id, store) →
      Effect plane (write payload n next) { plane with store } (next (.ok id) now)
  | unwritten {payload n next e now} :
      Effect plane (write payload n next) plane (next (.error e) now)
  | readMut {id next} :
      Effect plane (readMut id next) plane (next (plane.store.readMut id))
  | read {id next} : Effect plane (read id next) plane (next (plane.store.read id))
  | released {id next} :
      Effect plane (release id next) { plane with store := plane.store.release id } next
  | received {ch next c c' ref} : plane.chans[ch]? = some c → c.isClosed = false →
      c.queue = ref :: c'.queue →
      Effect plane (recv ch next) (plane.setChan ch c') (next (some ref))
  | hungUp {ch next} : Effect plane (recv ch next) plane (next none)
  | sent {ch ref next c c'} : plane.chans[ch]? = some c → c.isClosed = false →
      c'.queue = c.queue ++ [ref] →
      Effect plane (send ch ref next) (plane.setChan ch c') (next true)
  | refused {ch ref next} : plane.Gone ch → Effect plane (send ch ref next) plane (next false)
  | tried {ch ref next c c'} : plane.chans[ch]? = some c → c.isClosed = false →
      c'.queue = c.queue ++ [ref] →
      Effect plane (trySend ch ref next) (plane.setChan ch c') (next .sent)
  | full {ch ref next} : Effect plane (trySend ch ref next) plane (next .full)
  | closed {ch ref next} : plane.Gone ch →
      Effect plane (trySend ch ref next) plane (next .closed)
  | probed {ch next c} : plane.chans[ch]? = some c →
      Effect plane (isClosed ch next) plane (next c.isClosed)
  | dropped {ch next} : Effect plane (dropReceiver ch next) (plane.setChan ch .gone) next
  | pulled {payload next r} : Effect plane (pull payload next) plane (next r)
  | transformed {traceId payload next r} :
      Effect plane (transform traceId payload next) plane (next r)

/-- Every executed command ended in one of these ways. -/
theorem exec_effect {c : Cmd κ} {env : Env} {plane plane' : DataPlane} {k : κ}
    (h : c.exec env plane = some (plane', k)) : c.Effect plane plane' k := by
  cases c with
  | write payload n next =>
      cases env <;> simp only [exec, reduceCtorEq] at h
      split at h <;> cases h
      · exact .wrote ‹_›
      · exact .unwritten
  | recv ch next =>
      cases env <;> simp only [exec, reduceCtorEq] at h
      · split at h <;> cases h
        obtain ⟨c, hch, hrecv⟩ := Option.bind_eq_some_iff.mp ‹_›
        obtain ⟨hlive, -, hq⟩ := Channel.recv_spec hrecv
        exact .received hch hlive hq
      · split at h <;> cases h
        exact .hungUp
  | send ch ref next =>
      cases env <;> simp only [exec, reduceCtorEq] at h
      split at h <;> cases h
      obtain ⟨c, hch, hsend⟩ := Option.bind_eq_some_iff.mp ‹_›
      rcases Channel.send_spec hsend with ⟨rfl, hlive, -, hq⟩ | ⟨rfl, hgone, rfl⟩
      · exact .sent hch hlive hq
      · rw [DataPlane.setChan_self hch]
        exact .refused (hch.trans (by rw [Channel.eq_gone hgone]))
  | trySend ch ref next =>
      cases env <;> simp only [exec, reduceCtorEq] at h
      split at h <;> cases h
      obtain ⟨c, hch, hsend⟩ := Option.map_eq_some_iff.mp ‹_›
      rcases Channel.trySend_spec hsend with ⟨rfl, hlive, -, hq⟩ | ⟨rfl, -, rfl⟩ |
        ⟨rfl, hgone, rfl⟩
      · exact .tried hch hlive hq
      · rw [DataPlane.setChan_self hch]
        exact .full
      · rw [DataPlane.setChan_self hch]
        exact .closed (hch.trans (by rw [Channel.eq_gone hgone]))
  | isClosed ch next =>
      cases env <;> simp only [exec, reduceCtorEq] at h
      split at h <;> cases h
      exact .probed ‹_›
  | readMut => cases env <;> cases h; exact .readMut
  | read => cases env <;> cases h; exact .read
  | release => cases env <;> cases h; exact .released
  | dropReceiver => cases env <;> cases h; exact .dropped
  | pull => cases env <;> cases h; exact .pulled
  | transform => cases env <;> cases h; exact .transformed

/-- What a command of the whole did, the command of the part did. -/
theorem effect_of_map {f : κ → κ'} {c : Cmd κ} {plane plane' : DataPlane} {k' : κ'}
    (h : (c.map f).Effect plane plane' k') : ∃ k, k' = f k ∧ c.Effect plane plane' k := by
  cases c with
  | write =>
      cases h with
      | wrote hw => exact ⟨_, rfl, .wrote hw⟩
      | unwritten => exact ⟨_, rfl, .unwritten⟩
  | readMut => cases h; exact ⟨_, rfl, .readMut⟩
  | read => cases h; exact ⟨_, rfl, .read⟩
  | release => cases h; exact ⟨_, rfl, .released⟩
  | recv =>
      cases h with
      | received hc hlive hq => exact ⟨_, rfl, .received hc hlive hq⟩
      | hungUp => exact ⟨_, rfl, .hungUp⟩
  | send =>
      cases h with
      | sent hc hlive hq => exact ⟨_, rfl, .sent hc hlive hq⟩
      | refused hgone => exact ⟨_, rfl, .refused hgone⟩
  | trySend =>
      cases h with
      | tried hc hlive hq => exact ⟨_, rfl, .tried hc hlive hq⟩
      | full => exact ⟨_, rfl, .full⟩
      | closed hgone => exact ⟨_, rfl, .closed hgone⟩
  | isClosed =>
      cases h with
      | probed hc => exact ⟨_, rfl, .probed hc⟩
  | dropReceiver => cases h; exact ⟨_, rfl, .dropped⟩
  | pull => cases h; exact ⟨_, rfl, .pulled⟩
  | transform => cases h; exact ⟨_, rfl, .transformed⟩

/-- A channel whose receiver is gone stays gone. -/
theorem Effect.gone {c : Cmd κ} {plane plane' : DataPlane} {k : κ} {ch : ℕ}
    (h : c.Effect plane plane' k) (hgone : plane.Gone ch) : plane'.Gone ch := by
  have hset : ∀ {ch' : ℕ} {c c' : Channel ContextRef}, plane.chans[ch']? = some c →
      c.isClosed = false → (plane.setChan ch' c').Gone ch := by
    intro ch' c c' hc hlive
    have hne : ch' ≠ ch := by
      rintro rfl
      rw [DataPlane.Gone, hc, Option.some.injEq] at hgone
      simp [hgone] at hlive
    simpa [DataPlane.Gone, DataPlane.setChan, List.getElem?_set_ne hne] using hgone
  cases h with
  | received hc hlive _ => exact hset hc hlive
  | sent hc hlive _ => exact hset hc hlive
  | tried hc hlive _ => exact hset hc hlive
  | @dropped ch' =>
      obtain ⟨hlt, -⟩ := List.getElem?_eq_some_iff.mp hgone
      by_cases hne : ch' = ch
      · subst hne
        simp [DataPlane.Gone, DataPlane.setChan, hlt]
      · simpa [DataPlane.Gone, DataPlane.setChan, List.getElem?_set_ne hne] using hgone
  | _ => exact hgone

end Cmd
end Nazh
