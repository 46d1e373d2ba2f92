import Mathlib.Data.List.Induction
import Mathlib.Tactic.Common

/-!
# Journals

A journal is a list of events, each of which is about one key and says what is there after it.
Who reads the events of a key in order ends with what the last of them says.

Events that were written down and not yet sent make a journal with those that were. An event is
taken out of the first part and put at the end of the second; where none of its key is before it,
no reader sees a difference.

## Main definitions

* `ofKey`, `replay` — the events of a key, and what its reader ends with.
* `Foremost` — no event of its key is before this one.
-/

namespace Nazh.Lib

universe u v w x

variable {ε : Type u} {κ : Type v} {β : Type w} {γ : Type x} [DecidableEq κ]

/-- The events of one key. -/
def ofKey (key : ε → κ) (k : κ) (events : List ε) : List ε := events.filter (key · = k)

/-- What a reader of the events of a key ends with. -/
def replay (key : ε → κ) (effect : ε → β) (k : κ) (start : β) (events : List ε) : β :=
  (ofKey key k events).foldl (fun _ e => effect e) start

/-- No event of the same key is before the `i`-th. -/
def Foremost (key : ε → κ) (events : List ε) (i : ℕ) : Prop :=
  ∀ e, events[i]? = some e → ∀ e' ∈ events.take i, key e' ≠ key e

variable {key : ε → κ} {effect : ε → β} {k : κ} {start : β} {events later : List ε} {e : ε}

@[simp] theorem replay_nil : replay key effect k start [] = start := rfl

@[simp] theorem ofKey_append : ofKey key k (events ++ later) = ofKey key k events ++ ofKey key k later :=
  List.filter_append _ _

theorem ofKey_cons :
    ofKey key k (e :: events) = if key e = k then e :: ofKey key k events else ofKey key k events := by
  simp [ofKey, List.filter_cons]

theorem replay_append :
    replay key effect k start (events ++ later) =
      replay key effect k (replay key effect k start events) later := by
  simp [replay]

/-- One event changes what is there for its key. -/
theorem replay_singleton :
    replay key effect k start [e] = if key e = k then effect e else start := by
  by_cases h : key e = k
  · simp [replay, ofKey, h]
  · simp [replay, ofKey, h]

/-- The last event counts. -/
theorem replay_eq_last :
    replay key effect k start events = ((ofKey key k events).getLast?.map effect).getD start := by
  unfold replay
  generalize ofKey key k events = es
  induction es using List.reverseRecOn with
  | nil => rfl
  | append_singleton es e _ => simp

/-- A reader who sees less. -/
theorem map_replay (f : β → γ) :
    f (replay key effect k start events) = replay key (f ∘ effect) k (f start) events := by
  rw [replay_eq_last, replay_eq_last]
  cases (ofKey key k events).getLast? with
  | none => rfl
  | some e => rfl

/-- Readers of the same events see the same. -/
theorem replay_congr (h : ofKey key k events = ofKey key k later) :
    replay key effect k start events = replay key effect k start later := by
  rw [replay, replay, h]

/-- The event of a key that is foremost is the first one of its key. -/
theorem ofKey_cons_eraseIdx {i : ℕ} (hi : events[i]? = some e) (hforemost : Foremost key events i) :
    ofKey key k (e :: events.eraseIdx i) = ofKey key k events := by
  have hlt : i < events.length := (List.getElem?_eq_some_iff.mp hi).1
  have hsplit : events = events.take i ++ e :: events.drop (i + 1) := by
    rw [← (List.getElem?_eq_some_iff.mp hi).2, List.getElem_cons_drop, List.take_append_drop]
  have hbefore := hforemost e hi
  rw [List.eraseIdx_eq_take_drop_succ]
  conv_rhs => rw [hsplit]
  rw [ofKey_cons, ofKey_append, ofKey_append, ofKey_cons]
  by_cases hk : key e = k
  · have hnone : ofKey key k (events.take i) = [] := by
      rw [ofKey, List.filter_eq_nil_iff]
      intro e' he'
      simpa [hk] using hbefore e' he'
    simp [hk, hnone]
  · simp [hk]

end Nazh.Lib
