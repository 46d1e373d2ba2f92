import Nazh.Graph.Plane

/-!
# Accounting for the units of the store

A queued reference is a ticket for one unit of its datum. What else a task owes is
given by a weight on its states. A command is `Balanced` when the weights before
and after it differ by exactly what it does to the store and to the queues; every
balanced command makes an honest move of the ledger, unless it drops a receiver
whose queue still holds references.

References are also tracked by themselves: a command `Carries` references when what
its task refers to afterwards is what it referred to before, what it received, or
the datum it wrote. So no reference names a datum that was never written.
-/

namespace Nazh

open Lib

/-- `n` units of the datum `id`. -/
def units (id n d : ℕ) : ℕ := if d = id then n else 0

@[simp] theorem units_self (id n : ℕ) : units id n id = n := by simp [units]
@[simp] theorem units_zero (id d : ℕ) : units id 0 d = 0 := by simp [units]

theorem units_add (id m n d : ℕ) : units id (m + n) d = units id m d + units id n d := by
  simp only [units]
  split <;> simp

theorem eq_of_units_pos {id n d : ℕ} (h : 0 < units id n d) : d = id := by
  by_contra hne
  simp [units, hne] at h

namespace DataPlane

/-- Whether the queue of the channel `ch` holds references. -/
def holdsRefs (plane : DataPlane) (ch : ℕ) : Bool :=
  plane.chans[ch]?.any fun c => !c.queue.isEmpty

/-- The references to `d` in one queue. -/
def queuedIn (d : ℕ) (c : Channel ContextRef) : ℕ := tally (fun r => units r.dataId 1 d) c.queue

/-- The references to `d` in all queues. -/
def queued (plane : DataPlane) (d : ℕ) : ℕ := tally (queuedIn d) plane.chans

/-- The store's units against the queued references and what the tasks owe. -/
def ledger (plane : DataPlane) (owed : ℕ → ℕ) : Ledger ℕ :=
  ⟨plane.store.remaining, fun d => plane.queued d + owed d⟩

/-- Every queued reference names a datum that was written. -/
def Known (plane : DataPlane) : Prop :=
  ∀ c ∈ plane.chans, ∀ r ∈ c.queue, r.dataId < plane.store.nextId

variable {plane : DataPlane} {ch : ℕ} {c c' : Channel ContextRef}

/-- Exchanging one channel exchanges its share of the queued references. -/
theorem queued_setChan (h : plane.chans[ch]? = some c) (c' : Channel ContextRef) (d : ℕ) :
    (plane.setChan ch c').queued d + queuedIn d c = plane.queued d + queuedIn d c' :=
  tally_set (queuedIn d) c' h

/-- A queued reference is counted. -/
theorem queued_pos {r : ContextRef} (hc : c ∈ plane.chans) (hr : r ∈ c.queue) :
    0 < plane.queued r.dataId := by
  have h₁ := le_tally (queuedIn r.dataId) hc
  have h₂ := le_tally (fun r' : ContextRef => units r'.dataId 1 r.dataId) hr
  simp only [units_self] at h₂
  exact Nat.lt_of_lt_of_le (Nat.lt_of_lt_of_le Nat.one_pos h₂) h₁

/-- A counted reference is queued somewhere. -/
theorem exists_of_queued_pos {d : ℕ} (h : 0 < plane.queued d) :
    ∃ c ∈ plane.chans, ∃ r ∈ c.queue, r.dataId = d := by
  by_contra hne
  push Not at hne
  have hzero : plane.queued d = 0 := by
    apply (tally_eq_zero_iff _).mpr
    intro c hc
    apply (tally_eq_zero_iff _).mpr
    intro r hr
    simp [units, (hne c hc r hr).symm]
  omega

theorem Known.setChan (h : plane.Known) (hc : ∀ r ∈ c'.queue, r.dataId < plane.store.nextId) :
    (plane.setChan ch c').Known := by
  intro c hmem
  rcases List.mem_or_eq_of_mem_set hmem with hmem | rfl
  · exact h c hmem
  · exact hc

/-- Leaving the shared state and the weights alone is honest. -/
theorem honest_same {w w' : ℕ → ℕ} (hw : ∀ d, w' d = w d) :
    Ledger.Honest (plane.ledger w) (plane.ledger w') :=
  .of_keep rfl fun d => by simp only [ledger, hw]

/-- So is moving references between a queue and the weights. -/
theorem honest_setChan {w w' : ℕ → ℕ} (h : plane.chans[ch]? = some c)
    (hw : ∀ d, queuedIn d c' + w' d = queuedIn d c + w d) :
    Ledger.Honest (plane.ledger w) ((plane.setChan ch c').ledger w') := by
  refine .of_keep rfl ?_
  intro d
  have hset := queued_setChan h c' d
  have := hw d
  simp only [ledger]
  omega

end DataPlane

namespace Cmd

variable {κ κ' : Type}

/-- Where the queue of a dropped receiver still holds references. -/
def discards (plane : DataPlane) : Cmd κ → Bool
  | dropReceiver ch _ => plane.holdsRefs ch
  | _ => false

/-- The weights `w` after a command and `w₀` before it differ by what it does. -/
def Balanced (plane : DataPlane) (w : κ → ℕ → ℕ) (w₀ : ℕ → ℕ) : Cmd κ → Prop
  | write _ n next =>
      (∀ id now d, w (next (.ok id) now) d = w₀ d + units id (max n 1) d) ∧
        ∀ e now, w (next (.error e) now) = w₀
  | readMut _ next => ∀ r, w (next r) = w₀
  | read id next =>
      (∀ v, w (next (.ok v)) = w₀) ∧ ∀ e d, w (next (.error e)) d + units id 1 d = w₀ d
  | release id next => ∀ d, w next d + units id 1 d = w₀ d
  | recv _ next =>
      (∀ r d, w (next (some r)) d = w₀ d + units r.dataId 1 d) ∧ w (next none) = w₀
  | send _ ref next =>
      (∀ d, w (next true) d + units ref.dataId 1 d = w₀ d) ∧ w (next false) = w₀
  | trySend _ ref next =>
      (∀ d, w (next .sent) d + units ref.dataId 1 d = w₀ d) ∧
        w (next .full) = w₀ ∧ w (next .closed) = w₀
  | isClosed ch next => ∀ c, plane.chans[ch]? = some c → w (next c.isClosed) = w₀
  | dropReceiver _ next => w next = w₀
  | pull _ next => ∀ r, w (next r) = w₀
  | transform _ _ next => ∀ r, w (next r) = w₀

/-- What the task refers to after a command comes from before it, or through it. -/
def Carries (ref : κ → Option ContextRef) (before : Option ContextRef) : Cmd κ → Prop
  | write _ _ next =>
      (∀ id now, ∀ r ∈ ref (next (.ok id) now), r.dataId = id) ∧
        ∀ e now, ∀ r ∈ ref (next (.error e) now), r ∈ before
  | readMut _ next => ∀ a, ∀ r ∈ ref (next a), r ∈ before
  | read _ next => ∀ a, ∀ r ∈ ref (next a), r ∈ before
  | release _ next => ∀ r ∈ ref next, r ∈ before
  | recv _ next =>
      (∀ m, ∀ r ∈ ref (next (some m)), r = m) ∧ ∀ r ∈ ref (next none), r ∈ before
  | send _ m next => m ∈ before ∧ ∀ a, ∀ r ∈ ref (next a), r ∈ before
  | trySend _ m next => m ∈ before ∧ ∀ a, ∀ r ∈ ref (next a), r ∈ before
  | isClosed _ next => ∀ a, ∀ r ∈ ref (next a), r ∈ before
  | dropReceiver _ next => ∀ r ∈ ref next, r ∈ before
  | pull _ next => ∀ a, ∀ r ∈ ref (next a), r ∈ before
  | transform _ _ next => ∀ a, ∀ r ∈ ref (next a), r ∈ before

/-- The conditions on a command of a part are those on the command of the whole. -/
theorem balanced_map {plane : DataPlane} {f : κ → κ'} {w : κ' → ℕ → ℕ} {w₀ : ℕ → ℕ} {c : Cmd κ} :
    (c.map f).Balanced plane w w₀ ↔ c.Balanced plane (fun k => w (f k)) w₀ := by
  cases c <;> rfl

theorem carries_map {f : κ → κ'} {ref : κ' → Option ContextRef} {before : Option ContextRef}
    {c : Cmd κ} : (c.map f).Carries ref before ↔ c.Carries (fun k => ref (f k)) before := by
  cases c <;> rfl

variable {plane plane' : DataPlane} {c : Cmd κ} {k : κ} {w : κ → ℕ → ℕ} {w₀ rest : ℕ → ℕ}

/-- A balanced command makes an honest move, unless it drops a queue with references. -/
theorem honest_of_balanced (hbal : c.Balanced plane w w₀) (hdrop : c.discards plane = false)
    (hfresh : ∀ d, plane.store.nextId ≤ d → plane.queued d + (w₀ d + rest d) = 0)
    (h : c.Effect plane plane' k) :
    Ledger.Honest (plane.ledger fun d => w₀ d + rest d)
      (plane'.ledger fun d => w k d + rest d) := by
  cases h with
  | @wrote _ n _ id store now hw =>
      obtain ⟨rfl, -, hr⟩ := ArenaDataStore.write_spec hw
      refine .of_mint plane.store.nextId (max n 1) (hfresh _ (Nat.le_refl _)) hr ?_
      intro d
      have hd := hbal.1 plane.store.nextId now d
      simp only [DataPlane.ledger, DataPlane.queued, hd, units]
      omega
  | unwritten => exact DataPlane.honest_same fun d => by rw [hbal.2]
  | @read id next =>
      cases hread : plane.store.read id with
      | ok v => exact DataPlane.honest_same fun d => by rw [hbal.1]
      | error e =>
          -- A datum that cannot be read has no unit to release.
          have hzero : plane.store.remaining id = 0 := by
            by_contra hne
            obtain ⟨v, hv⟩ := ArenaDataStore.read_isOk_iff.mpr (Nat.pos_of_ne_zero hne)
            simp [hread] at hv
          refine .of_spend id (by simp [DataPlane.ledger, hzero]) ?_
          intro d
          have hd := hbal.2 e d
          simp only [DataPlane.ledger, ← hd, units]
          omega
  | @released id next =>
      refine .of_spend id (ArenaDataStore.remaining_release _ _) ?_
      intro d
      have hd := hbal d
      simp only [DataPlane.ledger, DataPlane.queued, ← hd, units]
      omega
  | received hch _ hq =>
      apply DataPlane.honest_setChan hch
      intro d
      simp only [DataPlane.queuedIn, hq, tally_cons, hbal.1]
      omega
  | sent hch _ hq =>
      apply DataPlane.honest_setChan hch
      intro d
      have hd := hbal.1 d
      simp only [DataPlane.queuedIn, hq, tally_append, tally_cons, tally_nil]
      omega
  | tried hch _ hq =>
      apply DataPlane.honest_setChan hch
      intro d
      have hd := hbal.1 d
      simp only [DataPlane.queuedIn, hq, tally_append, tally_cons, tally_nil]
      omega
  | @dropped ch next =>
      cases hch : plane.chans[ch]? with
      | none =>
          have hset : plane.setChan ch .gone = plane := by
            rw [DataPlane.setChan, List.set_eq_of_length_le (List.getElem?_eq_none_iff.mp hch)]
          rw [hset]
          exact DataPlane.honest_same fun d => by rw [hbal]
      | some c =>
          have hq : c.queue = [] := by
            simpa [discards, DataPlane.holdsRefs, hch] using hdrop
          apply DataPlane.honest_setChan hch
          intro d
          simp [hbal.symm, DataPlane.queuedIn, hq]
  | readMut => exact DataPlane.honest_same fun d => by rw [hbal]
  | hungUp => exact DataPlane.honest_same fun d => by rw [hbal.2]
  | refused => exact DataPlane.honest_same fun d => by rw [hbal.2]
  | full => exact DataPlane.honest_same fun d => by rw [hbal.2.1]
  | closed => exact DataPlane.honest_same fun d => by rw [hbal.2.2]
  | probed hch => exact DataPlane.honest_same fun d => by rw [hbal _ hch]
  | pulled => exact DataPlane.honest_same fun d => by rw [hbal]
  | transformed => exact DataPlane.honest_same fun d => by rw [hbal]

/-- Dropping a queue sheds its tickets. -/
theorem shed_of_discards (hbal : c.Balanced plane w w₀) (hdrop : c.discards plane = true)
    (h : c.Effect plane plane' k) :
    Ledger.Shed (plane.ledger fun d => w₀ d + rest d)
      (plane'.ledger fun d => w k d + rest d) := by
  cases h with
  | dropped =>
      obtain ⟨c, hch, -⟩ := Option.any_eq_true _ _ |>.mp hdrop
      refine ⟨rfl, ?_⟩
      intro d
      have hset := DataPlane.queued_setChan hch .gone d
      have hgone : DataPlane.queuedIn d .gone = 0 := rfl
      rw [show w k = w₀ from hbal]
      simp only [DataPlane.ledger]
      omega
  | _ => cases hdrop

/-- Identifiers are drawn in order. -/
theorem Effect.nextId_le (h : c.Effect plane plane' k) :
    plane.store.nextId ≤ plane'.store.nextId := by
  cases h with
  | wrote hw =>
      obtain ⟨rfl, hnext, -⟩ := ArenaDataStore.write_spec hw
      simp [hnext]
  | released => simp
  | _ => exact Nat.le_refl _

/-- A command that carries its references keeps every one of them known. -/
theorem known_of_carries {ref : κ → Option ContextRef} {before : Option ContextRef}
    (hcar : c.Carries ref before) (hknown : plane.Known)
    (hbefore : ∀ r ∈ before, r.dataId < plane.store.nextId) (h : c.Effect plane plane' k) :
    plane'.Known ∧ ∀ r ∈ ref k, r.dataId < plane'.store.nextId := by
  cases h with
  | @wrote _ _ _ id _ now hw =>
      obtain ⟨rfl, hnext, -⟩ := ArenaDataStore.write_spec hw
      constructor
      · intro c hc r hr
        exact Nat.lt_of_lt_of_le (hknown c hc r hr) (by simp [hnext])
      · intro r hr
        have := hcar.1 _ now r hr
        simp only [hnext]
        omega
  | received hch _ hq =>
      have hmem := List.mem_of_getElem? hch
      refine ⟨hknown.setChan fun r hr => hknown _ hmem r (by simp [hq, hr]), ?_⟩
      intro r hr
      rw [hcar.1 _ r hr]
      exact hknown _ hmem _ (by simp [hq])
  | sent hch _ hq =>
      refine ⟨hknown.setChan ?_, fun r hr => hbefore r (hcar.2 _ r hr)⟩
      intro r hr
      rw [hq, List.mem_append, List.mem_singleton] at hr
      rcases hr with hr | rfl
      · exact hknown _ (List.mem_of_getElem? hch) r hr
      · exact hbefore _ hcar.1
  | tried hch _ hq =>
      refine ⟨hknown.setChan ?_, fun r hr => hbefore r (hcar.2 _ r hr)⟩
      intro r hr
      rw [hq, List.mem_append, List.mem_singleton] at hr
      rcases hr with hr | rfl
      · exact hknown _ (List.mem_of_getElem? hch) r hr
      · exact hbefore _ hcar.1
  | dropped => exact ⟨hknown.setChan (by simp), fun r hr => hbefore r (hcar r hr)⟩
  | released =>
      constructor
      · intro c hc r hr
        simpa using hknown c hc r hr
      · intro r hr
        simpa using hbefore r (hcar r hr)
  | unwritten => exact ⟨hknown, fun r hr => hbefore r (hcar.2 _ _ r hr)⟩
  | readMut => exact ⟨hknown, fun r hr => hbefore r (hcar _ r hr)⟩
  | read => exact ⟨hknown, fun r hr => hbefore r (hcar _ r hr)⟩
  | hungUp => exact ⟨hknown, fun r hr => hbefore r (hcar.2 r hr)⟩
  | refused => exact ⟨hknown, fun r hr => hbefore r (hcar.2 _ r hr)⟩
  | full => exact ⟨hknown, fun r hr => hbefore r (hcar.2 _ r hr)⟩
  | closed => exact ⟨hknown, fun r hr => hbefore r (hcar.2 _ r hr)⟩
  | probed => exact ⟨hknown, fun r hr => hbefore r (hcar _ r hr)⟩
  | pulled => exact ⟨hknown, fun r hr => hbefore r (hcar _ r hr)⟩
  | transformed => exact ⟨hknown, fun r hr => hbefore r (hcar _ r hr)⟩

end Cmd
end Nazh
