import Mathlib.Data.List.Nodup
import Mathlib.Data.List.Perm.Basic
import Nazh.Lib.Lists
import Nazh.Lib.Machine

/-!
# Tasks over a shared store

A task looks at a store and changes it, one operation at a time, and between two operations
other tasks go on. Each operation may say what its task believes of the store, because it has
seen it so; the operation itself does not depend on that.

A task commits when, as long as what it believes is true, one of its operations does what the
whole task would do alone, and all others change nothing. Tasks that commit, and whose beliefs
are true when they act, are serial: they leave what they leave one after another, in the order
in which they commit.

## Main definitions

* `Async` — a task.
* `Async.run` — a task alone.
* `Async.system` — tasks together.
* `Async.Commits` — a task that acts at once.

## Main results

* `Async.serializable` — tasks that commit are serial.
-/

namespace Nazh.Lib

universe u v w

/-- A task: it is done, or has an operation on the store before it and goes on from there with
what the store was. -/
inductive Async (σ : Type u) (α : Type v)
  | done (a : α)
  | step (believes : σ → Bool) (effect : σ → σ) (next : σ → Async σ α)

namespace Async

variable {σ : Type u} {α β : Type v} {ι : Type w}

/-- One task and then another. -/
def bind : Async σ α → (α → Async σ β) → Async σ β
  | done a, f => f a
  | step believes effect next, f => step believes effect fun s => (next s).bind f

instance : Monad (Async σ) where
  pure := done
  bind := bind

/-- Look at the store. -/
def look (f : σ → α) : Async σ α := step (fun _ => true) id fun s => done (f s)

/-- Change the store. The answer tells what it was. -/
def act (believes : σ → Bool) (effect : σ → σ) (answer : σ → α) : Async σ α :=
  step believes effect fun s => done (answer s)

/-- A task alone. -/
def run : Async σ α → σ → α × σ
  | done a, s => (a, s)
  | step _ effect next, s => (next s).run (effect s)

def isDone : Async σ α → Bool
  | done _ => true
  | step _ _ _ => false

@[simp] theorem pure_bind (a : α) (f : α → Async σ β) : (pure a : Async σ α) >>= f = f a := rfl

@[simp] theorem done_bind (a : α) (f : α → Async σ β) : (done a : Async σ α) >>= f = f a := rfl

@[simp] theorem step_bind (b : σ → Bool) (e : σ → σ) (next : σ → Async σ α) (f : α → Async σ β) :
    step b e next >>= f = step b e fun s => next s >>= f := rfl

@[simp] theorem run_pure (a : α) (s : σ) : (pure a : Async σ α).run s = (a, s) := rfl

@[simp] theorem run_done (a : α) (s : σ) : (done a : Async σ α).run s = (a, s) := rfl

@[simp] theorem run_step (b : σ → Bool) (e : σ → σ) (next : σ → Async σ α) (s : σ) :
    (step b e next).run s = (next s).run (e s) := rfl

/-- A task after another starts with what that left. -/
@[simp] theorem run_bind (p : Async σ α) (f : α → Async σ β) (s : σ) :
    (p >>= f).run s = (f (p.run s).1).run (p.run s).2 := by
  induction p generalizing s with
  | done a => rfl
  | step b e next ih => exact ih s (e s)

/-! ## Tasks together -/

/-- A store and the tasks on it. -/
structure Tasks (σ : Type u) (α : Type v) where
  store : σ
  tasks : List (Async σ α)

/-- The next operation of a task. -/
def Tasks.go (s : Tasks σ α) (i : ℕ) : Option (Tasks σ α) :=
  match s.tasks[i]? with
  | some (.step _ effect next) => some ⟨effect s.store, s.tasks.set i (next s.store)⟩
  | _ => none

/-- Whether what a task believes is true as it goes on. -/
def Tasks.believes (s : Tasks σ α) (i : ℕ) : Bool :=
  match s.tasks[i]? with
  | some (.step believes _ _) => believes s.store
  | _ => true

/-- Tasks that start together. -/
def system (start : σ) (tasks : List (Async σ α)) : Machine (Tasks σ α) ℕ where
  init s := s = ⟨start, tasks⟩
  step := Tasks.go

theorem Tasks.go_eq_some {s s' : Tasks σ α} {i : ℕ} (h : s.go i = some s') :
    ∃ b e next, s.tasks[i]? = some (step b e next) ∧ s.believes i = b s.store ∧
      s' = ⟨e s.store, s.tasks.set i (next s.store)⟩ := by
  unfold Tasks.go at h
  split at h
  · rename_i b e next htask
    exact ⟨b, e, next, htask, by simp [Tasks.believes, htask], (Option.some.inj h).symm⟩
  · cases h

/-! ## Commitment -/

/-- Every operation that is left changes nothing. -/
def Silent : Async σ α → Prop
  | done _ => True
  | step b e next => ∀ s, b s = true → e s = s ∧ (next s).Silent

/-- One operation that is left does what `alone` does, and the others change nothing; or none is
left, and `alone` does nothing. -/
def Commits (alone : σ → σ) : Async σ α → Prop
  | done _ => ∀ s, alone s = s
  | step b e next => ∀ s, b s = true →
      e s = s ∧ (next s).Commits alone ∨ e s = alone s ∧ (next s).Silent

variable {alone : ι → σ → σ} {program : ι → Async σ α} {commands : List ι} {s₀ : σ}
  {s s' : Tasks σ α}

/-- Some of the tasks have committed, in an order; the others have changed nothing. -/
structure Committed (alone : ι → σ → σ) (commands : List ι) (s₀ : σ) (s : Tasks σ α)
    (order : List ℕ) : Prop where
  nodup : order.Nodup
  bound : ∀ i ∈ order, i < commands.length
  length : s.tasks.length = commands.length
  store : s.store = (order.filterMap (commands[·]?)).foldl (fun s c => alone c s) s₀
  task : ∀ i c t, commands[i]? = some c → s.tasks[i]? = some t →
    i ∈ order ∧ t.Silent ∨ i ∉ order ∧ t.Commits (alone c)

theorem Committed.none (h : ∀ c ∈ commands, (program c).Commits (alone c)) :
    Committed alone commands s₀ ⟨s₀, commands.map program⟩ [] := by
  refine ⟨List.nodup_nil, List.forall_mem_nil _, List.length_map _, rfl, fun i c t hc ht => ?_⟩
  refine .inr ⟨List.not_mem_nil, ?_⟩
  rw [List.getElem?_map, hc, Option.map_some] at ht
  obtain rfl := Option.some.inj ht
  exact h c (List.mem_of_getElem? hc)

/-- An operation changes nothing, or is the commitment of its task. -/
theorem Committed.go {order : List ℕ} {i : ℕ} (h : Committed alone commands s₀ s order)
    (hbelieves : s.believes i = true) (hs : s.go i = some s') :
    Committed alone commands s₀ s' order ∨
      Committed alone commands s₀ s' (order ++ [i]) := by
  obtain ⟨b, e, next, htask, hb, rfl⟩ := Tasks.go_eq_some hs
  rw [hb] at hbelieves
  have hi : i < commands.length := h.length ▸ (List.getElem?_eq_some_iff.mp htask).1
  have hc : commands[i]? = some commands[i] := List.getElem?_eq_getElem hi
  have hlength : (s.tasks.set i (next s.store)).length = commands.length := by
    rw [List.length_set, h.length]
  rcases h.task i _ _ hc htask with ⟨hmem, hsilent⟩ | ⟨hmem, hcommits⟩
  · obtain ⟨hsame, hnext⟩ := hsilent s.store hbelieves
    refine .inl ⟨h.nodup, h.bound, hlength, hsame.trans h.store, fun j c t hcj htj => ?_⟩
    rcases getElem?_set_cases htj with ⟨rfl, rfl⟩ | ⟨hne, htj⟩
    · exact .inl ⟨hmem, hnext⟩
    · exact h.task j c t hcj htj
  · rcases hcommits s.store hbelieves with ⟨hsame, hnext⟩ | ⟨hserial, hnext⟩
    · refine .inl ⟨h.nodup, h.bound, hlength, hsame.trans h.store, fun j c t hcj htj => ?_⟩
      rcases getElem?_set_cases htj with ⟨rfl, rfl⟩ | ⟨hne, htj⟩
      · obtain rfl := Option.some.inj (hc.symm.trans hcj)
        exact .inr ⟨hmem, hnext⟩
      · exact h.task j c t hcj htj
    · refine .inr ⟨?_, ?_, hlength, ?_, fun j c t hcj htj => ?_⟩
      · exact h.nodup.append (List.nodup_singleton i) (List.disjoint_singleton.mpr hmem)
      · exact List.forall_mem_append.mpr ⟨h.bound, List.forall_mem_singleton.mpr hi⟩
      · simp [List.filterMap_append, hc, ← h.store, hserial]
      · rw [List.mem_append, List.mem_singleton]
        rcases getElem?_set_cases htj with ⟨rfl, rfl⟩ | ⟨hne, htj⟩
        · exact .inl ⟨.inr rfl, hnext⟩
        · exact (h.task j c t hcj htj).imp (And.imp_left .inl)
            (And.imp_left fun hj => not_or.mpr ⟨hj, hne⟩)

/-- At every moment of a run in which all beliefs are true, some tasks have committed. -/
theorem exists_committed (hcommits : ∀ c ∈ commands, (program c).Commits (alone c))
    (hs : (system s₀ (commands.map program)).ReachesUnder (fun s i => s.believes i = true) s) :
    ∃ order, Committed alone commands s₀ s order := by
  refine hs.invariant (I := fun s => ∃ order, Committed alone commands s₀ s order) ?_ ?_
  · rintro s rfl
    exact ⟨[], .none hcommits⟩
  · rintro s i s' ⟨order, h⟩ hbelieves hgo
    exact (h.go hbelieves hgo).elim (fun h' => ⟨order, h'⟩) fun h' => ⟨order ++ [i], h'⟩

/-- A task that is done and has not committed would do nothing alone. -/
theorem Committed.alone_eq {order : List ℕ} {i : ℕ} {c : ι} (h : Committed alone commands s₀ s order)
    (hdone : ∀ t ∈ s.tasks, t.isDone = true) (hc : commands[i]? = some c) (hi : i ∉ order) (x : σ) :
    alone c x = x := by
  have hlt : i < s.tasks.length := h.length ▸ (List.getElem?_eq_some_iff.mp hc).1
  have ht : s.tasks[i]? = some s.tasks[i] := List.getElem?_eq_getElem hlt
  have htask := hdone _ (List.mem_of_getElem? ht)
  rcases h.task i c _ hc ht with ⟨hmem, -⟩ | ⟨-, hcommits⟩
  · exact absurd hmem hi
  · revert htask hcommits
    cases s.tasks[i] with
    | done a => exact fun _ hcommits => hcommits x
    | step b e next => exact fun htask => absurd htask Bool.false_ne_true

theorem foldl_eq_self {l : List ℕ} (h : ∀ i ∈ l, ∀ c, commands[i]? = some c → ∀ x, alone c x = x)
    (x : σ) : (l.filterMap (commands[·]?)).foldl (fun s c => alone c s) x = x := by
  induction l generalizing x with
  | nil => rfl
  | cons i l ih =>
      obtain ⟨hi, hl⟩ := List.forall_mem_cons.mp h
      cases hc : commands[i]? with
      | none => simpa [hc] using ih hl x
      | some c => simpa [hc, hi c hc x] using ih hl x

/-- Tasks that commit are serial, if what they believe is true whenever they act. -/
theorem serializable (hcommits : ∀ c ∈ commands, (program c).Commits (alone c))
    (hs : (system s₀ (commands.map program)).ReachesUnder (fun s i => s.believes i = true) s)
    (hdone : ∀ t ∈ s.tasks, t.isDone = true) :
    ∃ order : List ι, order.Perm commands ∧
      s.store = order.foldl (fun s c => alone c s) s₀ := by
  obtain ⟨order, h⟩ := exists_committed hcommits hs
  -- those that did nothing come last
  let rest := (List.range commands.length).filter (· ∉ order)
  refine ⟨(order ++ rest).filterMap (commands[·]?), ?_, ?_⟩
  · have hdisjoint : order.Disjoint rest := fun i hi hrest => by
      simp only [rest, List.mem_filter, decide_eq_true_iff] at hrest
      exact hrest.2 hi
    have hnodup : (order ++ rest).Nodup := h.nodup.append (List.nodup_range.filter _) hdisjoint
    have hmem (i : ℕ) : i ∈ order ++ rest ↔ i ∈ List.range commands.length := by
      have hbound := h.bound i
      simp only [rest, List.mem_append, List.mem_filter, List.mem_range, decide_eq_true_iff]
      tauto
    have hperm := (List.perm_ext_iff_of_nodup hnodup List.nodup_range).mpr hmem
    refine (hperm.filterMap _).trans (List.Perm.of_eq ?_)
    rw [filterMap_range_getElem?, List.take_length]
  · rw [List.filterMap_append, List.foldl_append, ← h.store, foldl_eq_self]
    intro i hi c hc
    simp only [rest, List.mem_filter, decide_eq_true_iff] at hi
    exact h.alone_eq hdone hc hi.2

end Async
end Nazh.Lib
