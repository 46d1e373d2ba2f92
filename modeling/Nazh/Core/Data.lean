import Mathlib.Data.List.AList
import Mathlib.Logic.Function.Basic
import Nazh.Core.Node

/-!
# The data plane

`ArenaDataStore` keeps each datum with the number of consumers that have yet to
release it. An entry whose count would reach zero is removed, so that an entry
in the store has a positive count: the field `remaining_pos` says it.

`DataId::new` draws a fresh random identifier. The store draws them from a
counter, and `fresh` says that no identifier in use has yet to be drawn.
-/

namespace Nazh

/-- One datum and the consumers it still waits for. -/
structure DataEntry where
  payload : Value
  remaining : ℕ
  remaining_pos : 0 < remaining

/-- The in-memory data store. A capacity of `0` is no limit. -/
structure ArenaDataStore where
  entries : AList fun _ : ℕ => DataEntry
  capacity : ℕ
  /-- The next identifier to be drawn. -/
  nextId : ℕ
  fresh : ∀ d ∈ entries, d < nextId

namespace ArenaDataStore

/-- An empty store with room for `capacity` entries. -/
def withCapacity (capacity : ℕ) : ArenaDataStore := ⟨∅, capacity, 0, by simp⟩

/-- The number of entries. -/
def len (store : ArenaDataStore) : ℕ := store.entries.keys.length

/-- Write a datum for `consumers` consumers, at least one. -/
def write (store : ArenaDataStore) (payload : Value) (consumers : ℕ) :
    Except EngineError (ℕ × ArenaDataStore) :=
  if 0 < store.capacity ∧ store.capacity ≤ store.len then
    .error (.dataStoreCapacityExceeded store.capacity)
  else
    let id := store.nextId
    let entry : DataEntry := ⟨payload, max consumers 1, by omega⟩
    .ok (id, ⟨store.entries.insert id entry, store.capacity, id + 1, by
      intro d hd
      rcases (AList.mem_insert _).mp hd with rfl | hd
      · omega
      · have := store.fresh d hd
        omega⟩)

/-- Read a datum. -/
def read (store : ArenaDataStore) (id : ℕ) : Except EngineError Value :=
  match store.entries.lookup id with
  | some entry => .ok entry.payload
  | none => .error (.dataNotFound id)

/-- Read a copy of a datum. -/
def readMut (store : ArenaDataStore) (id : ℕ) : Except EngineError Value :=
  match store.entries.lookup id with
  | some entry => .ok entry.payload
  | none => .error (.dataNotFound id)

/-- One consumer is done: count down, and remove the entry with the last. -/
def release (store : ArenaDataStore) (id : ℕ) : ArenaDataStore :=
  match hl : store.entries.lookup id with
  | none => store
  | some entry =>
      if h : entry.remaining = 1 then
        ⟨store.entries.erase id, store.capacity, store.nextId,
          fun d hd => store.fresh d (AList.mem_erase.mp hd).2⟩
      else
        have hpos := entry.remaining_pos
        ⟨store.entries.insert id ⟨entry.payload, entry.remaining - 1, by omega⟩,
          store.capacity, store.nextId, fun d hd => store.fresh d <| by
            rcases (AList.mem_insert _).mp hd with rfl | hd
            · exact AList.lookup_isSome.mp (by simp [hl])
            · exact hd⟩

/-- The units of a datum that wait to be released. -/
def remaining (store : ArenaDataStore) (id : ℕ) : ℕ :=
  match store.entries.lookup id with
  | some entry => entry.remaining
  | none => 0

variable {store store' : ArenaDataStore} {id : ℕ} {payload : Value} {consumers : ℕ}

@[simp] theorem remaining_withCapacity (capacity : ℕ) (id : ℕ) :
    (withCapacity capacity).remaining id = 0 := rfl

/-- A datum has units left exactly when it is in the store. -/
theorem remaining_pos_iff : 0 < store.remaining id ↔ id ∈ store.entries := by
  rw [← AList.lookup_isSome, remaining]
  cases store.entries.lookup id with
  | none => simp
  | some entry => simpa using entry.remaining_pos

/-- The store takes one more datum. -/
def HasRoom (store : ArenaDataStore) : Prop := store.capacity = 0 ∨ store.len < store.capacity

/-- A write succeeds exactly when there is room. -/
theorem exists_write_iff (payload : Value) (consumers : ℕ) :
    (∃ r, store.write payload consumers = .ok r) ↔ store.HasRoom := by
  rw [write, HasRoom]
  split
  · simp
    omega
  · simp
    omega

/-- What a successful write does. -/
theorem write_spec (h : store.write payload consumers = .ok (id, store')) :
    id = store.nextId ∧ store'.nextId = id + 1 ∧
      store'.remaining = Function.update store.remaining id (max consumers 1) := by
  simp only [write] at h
  split at h
  · cases h
  · cases h
    refine ⟨rfl, rfl, funext ?_⟩
    intro d
    by_cases hd : d = store.nextId
    · subst hd
      simp [remaining, AList.lookup_insert]
    · simp [remaining, AList.lookup_insert_ne hd, Function.update_of_ne hd]

/-- A read succeeds exactly where units are left. -/
theorem readMut_isOk_iff : (∃ v, store.readMut id = .ok v) ↔ 0 < store.remaining id := by
  simp only [readMut, remaining]
  cases store.entries.lookup id with
  | none => simp
  | some entry => simp [entry.remaining_pos]

theorem read_isOk_iff : (∃ v, store.read id = .ok v) ↔ 0 < store.remaining id :=
  readMut_isOk_iff

/-- The two ways a release changes the entries. -/
theorem entries_release (store : ArenaDataStore) (id : ℕ) :
    (store.entries.lookup id = none ∧ store.release id = store) ∨
    (∃ entry, store.entries.lookup id = some entry ∧ entry.remaining = 1 ∧
      (store.release id).entries = store.entries.erase id ∧
      (store.release id).nextId = store.nextId) ∨
    ∃ entry entry', store.entries.lookup id = some entry ∧
      entry'.remaining = entry.remaining - 1 ∧
      (store.release id).entries = store.entries.insert id entry' ∧
      (store.release id).nextId = store.nextId := by
  unfold release
  split
  · exact .inl ⟨‹_›, rfl⟩
  · rename_i entry hl
    split
    · exact .inr (.inl ⟨entry, hl, ‹_›, rfl, rfl⟩)
    · exact .inr (.inr ⟨entry, _, hl, rfl, rfl, rfl⟩)

@[simp] theorem nextId_release (store : ArenaDataStore) (id : ℕ) :
    (store.release id).nextId = store.nextId := by
  rcases entries_release store id with ⟨-, h⟩ | ⟨_, -, -, -, h⟩ | ⟨_, _, -, -, -, h⟩
  · rw [h]
  · exact h
  · exact h

@[simp] theorem capacity_release (store : ArenaDataStore) (id : ℕ) :
    (store.release id).capacity = store.capacity := by
  unfold release
  split
  · rfl
  · split <;> rfl

theorem capacity_write (h : store.write payload consumers = .ok (id, store')) :
    store'.capacity = store.capacity := by
  simp only [write] at h
  split at h
  · cases h
  · cases h
    rfl

/-- What a release does to the counts. -/
theorem remaining_release (store : ArenaDataStore) (id : ℕ) :
    (store.release id).remaining =
      Function.update store.remaining id (store.remaining id - 1) := by
  funext d
  rcases entries_release store id with ⟨hl, h⟩ | ⟨entry, hl, h1, h, -⟩ |
    ⟨entry, entry', hl, h1, h, -⟩
  · rw [h]
    by_cases hd : d = id
    · subst hd
      simp [remaining, hl]
    · simp [hd]
  · by_cases hd : d = id
    · subst hd
      simp [remaining, h, hl, h1]
    · simp [remaining, h, hd, AList.lookup_erase_ne hd]
  · by_cases hd : d = id
    · subst hd
      simp [remaining, h, hl, h1]
    · simp [remaining, h, hd, AList.lookup_insert_ne hd]

end ArenaDataStore
end Nazh
