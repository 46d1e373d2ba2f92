import Mathlib.Data.List.Perm.Basic
import Nazh.Desktop.DispatchLane

/-!
# Where dispatched envelopes are

An envelope that a lane has accepted is in its queue, in the hands of its task, with the roots, or
in a dead letter; one that found the queue full is in a dead letter. Each is in one place at most.
What is in the queue or in the hands of the task when this is aborted is nowhere any more, and so
is what was to be in a dead letter that cannot be appended.
-/

namespace Nazh

open Lib

/-- The router answers for the envelope of a call. -/
def EnqueuePc.isOwed : EnqueuePc → Bool
  | accepted | rejecting | rejected _ => true
  | blocked _ | refused => false

/-- The envelope that the task of a lane has in hand. -/
def LanePc.hand : LanePc → Option ℕ
  | submitting envelope _ _ | sleeping envelope _ => some envelope.call
  | receiving | recording _ | ended => none

namespace DispatchLane

/-- The submissions that have given the payload to all roots. -/
def handovers (s : DispatchLane) (a : DispatchAction) (_ : DispatchLane) : List ℕ :=
  match a, s.pc with
  | .run _, .submitting envelope (.sending ref sender []) _ =>
      if s.delivers (.sending ref sender []) then [envelope.call] else []
  | _, _ => []

/-- The places of the envelopes of a lane that has handed over those in the log. -/
def places (s : DispatchLane) (log : List ℕ) : List ℕ :=
  s.queue.map DispatchEnvelope.call ++ s.pc.hand.toList ++ log ++
    s.appending.map (·.envelope.call) ++ s.letters.map (·.envelope.call)

/-- Whether the router answers for a call. -/
def owes (s : DispatchLane) (i : ℕ) : Bool := (s.calls[i]?).any EnqueuePc.isOwed

/-- Every envelope the router answers for is in one place. -/
def Accounted (s : DispatchLane) (log : List ℕ) : Prop :=
  ∀ i, s.owes i = true → (s.places log).count i = 1

/-- The task is aborted with an empty queue and empty hands, and dead letters can be appended. -/
def losesNothing (s : DispatchLane) : DispatchAction → Bool
  | .abort => s.queue.isEmpty && s.pc.hand.isNone
  | .append _ result => result.isOk
  | _ => true

variable {s s' : DispatchLane} {a : DispatchAction} {log : List ℕ}

/-- What holds in every run: no envelope is in two places, and none is anywhere that the router
does not answer for. -/
structure Placed (s : DispatchLane) (log : List ℕ) : Prop where
  nodup : (s.places log).Nodup
  owed : ∀ i ∈ s.places log, s.owes i = true
  blocked_call : ∀ (i : ℕ) (envelope : DispatchEnvelope),
    s.calls[i]? = some (.blocked envelope) → envelope.call = i

/-- What a step does to the places. -/
inductive PlaceEffect (s : DispatchLane) (a : DispatchAction) (s' : DispatchLane)
    (log log' : List ℕ) : Prop
  /-- An envelope may go from one place to another. -/
  | kept : (s'.places log').Perm (s.places log) → (∀ i, s'.owes i = s.owes i) →
      s.losesNothing a = true → PlaceEffect s a s' log log'
  /-- A new one comes. -/
  | added (i : ℕ) : (s'.places log').Perm (i :: s.places log) → s.owes i = false →
      (∀ j, s'.owes j = (s.owes j || j == i)) → s.losesNothing a = true →
      PlaceEffect s a s' log log'
  /-- Some are lost. -/
  | lost (gone : List ℕ) : (s.places log).Perm (gone ++ s'.places log') →
      (∀ i, s'.owes i = s.owes i) → s.losesNothing a = gone.isEmpty → PlaceEffect s a s' log log'

/-! ## The loop of the task -/

/-- The places without the hands of the task. -/
def restPlaces (s : DispatchLane) (log : List ℕ) : List ℕ :=
  s.queue.map DispatchEnvelope.call ++ log ++ s.appending.map (·.envelope.call) ++
    s.letters.map (·.envelope.call)

theorem places_perm (s : DispatchLane) (log : List ℕ) :
    (s.places log).Perm (s.pc.hand.toList ++ s.restPlaces log) := by
  rw [places, restPlaces]
  cases s.pc.hand with
  | none => simp
  | some call =>
      simp only [Option.toList_some, List.append_assoc, List.singleton_append]
      exact List.perm_middle

/-- A first command of an attempt is not its last. -/
theorem attempt_ne_ok (envelope : DispatchEnvelope) : s.attempt envelope ≠ .returned (.ok ()) := by
  intro h
  rw [attempt] at h
  split at h
  · rw [Submission.submitTo] at h
    split at h
    · cases h
    · cases h
  · rw [Submission.submit] at h
    split at h
    · cases h
    · cases h

/-- An attempt that did not succeed leaves the envelope in hand, or in a dead letter. -/
theorem places_goOn (envelope : DispatchEnvelope) (reached : Bool) {sub : Submission.Pc}
    (hsub : sub ≠ .returned (.ok ())) :
    ((s.goOn envelope reached sub).places log).Perm (envelope.call :: s.restPlaces log) := by
  refine (places_perm _ _).trans ?_
  cases sub with
  | returned result =>
      cases result with
      | ok u => exact absurd rfl hsub
      | error e =>
          rw [goOn]
          split
          · exact List.Perm.refl _
          · simp only [LanePc.hand, Option.toList_none, List.nil_append, restPlaces,
              List.map_append, List.map_cons, List.map_nil, List.append_assoc,
              List.singleton_append]
            rw [← List.append_assoc, ← List.append_assoc, ← List.append_assoc, ← List.append_assoc]
            exact List.perm_middle
  | writing ctx sender todo => exact List.Perm.refl _
  | sending ref sender todo => exact List.Perm.refl _
  | releaseRest ref more => exact List.Perm.refl _

@[simp] theorem calls_goOn (envelope : DispatchEnvelope) (reached : Bool) (sub : Submission.Pc) :
    (s.goOn envelope reached sub).calls = s.calls := by
  obtain ⟨pc, appending, hgoOn⟩ := goOn_frame (s := s) envelope reached sub
  rw [hgoOn]

theorem owes_of_calls (h : s'.calls = s.calls) (i : ℕ) : s'.owes i = s.owes i := by
  rw [owes, owes, h]

/-- What the router answers for when one more call is made. -/
theorem owes_concat {pc : EnqueuePc} (h : s'.calls = s.calls ++ [pc]) (j : ℕ) :
    s'.owes j = (s.owes j || (j == s.calls.length && pc.isOwed)) := by
  rw [owes, owes, h]
  by_cases hj : j < s.calls.length
  · have hne : (j == s.calls.length) = false := beq_false_of_ne (Nat.ne_of_lt hj)
    rw [List.getElem?_append_left hj, hne, Bool.false_and, Bool.or_false]
  · have hnone : s.calls[j]? = none := List.getElem?_eq_none (Nat.le_of_not_lt hj)
    rw [hnone, Option.any_none, Bool.false_or]
    by_cases heq : j = s.calls.length
    · subst heq
      rw [List.getElem?_concat_length, Option.any_some, beq_self_eq_true, Bool.true_and]
    · have hnone' : (s.calls ++ [pc])[j]? = none := by
        refine List.getElem?_eq_none ?_
        rw [List.length_append, List.length_singleton]
        omega
      rw [hnone', beq_false_of_ne heq]
      rfl

/-- What the router answers for when a call goes on. -/
theorem owes_set {i : ℕ} {pc pc' : EnqueuePc} (hi : s.calls[i]? = some pc)
    (h : s'.calls = s.calls.set i pc') (hgrows : pc.isOwed = true → pc'.isOwed = true) (j : ℕ) :
    s'.owes j = (s.owes j || (j == i && pc'.isOwed)) := by
  obtain ⟨hlt, -⟩ := List.getElem?_eq_some_iff.mp hi
  rw [owes, owes, h]
  by_cases hj : j = i
  · subst hj
    rw [List.getElem?_set_self hlt, hi, Option.any_some, Option.any_some, beq_self_eq_true,
      Bool.true_and]
    cases howed : pc.isOwed with
    | true => rw [hgrows howed]; rfl
    | false => rfl
  · rw [List.getElem?_set_ne (Ne.symm hj), beq_false_of_ne hj, Bool.false_and, Bool.or_false]

/-! ## What a step does to the places -/

theorem restPlaces_perm_places (hhand : s.pc.hand = none) :
    (s.places log).Perm (s.restPlaces log) := by
  have hperm := s.places_perm log
  rwa [hhand, Option.toList_none, List.nil_append] at hperm

/-- A call comes to where the router answers for its envelope, or not. -/
theorem called_effect {envelope : DispatchEnvelope} {pc : EnqueuePc}
    {entered : List DispatchEnvelope} {rejected : List DeadLetter} {calls : List EnqueuePc}
    (hcalled : Called envelope pc entered rejected) (hnew : s.owes envelope.call = false)
    (howes : ∀ j, owes { s with
      calls, queue := s.queue ++ entered, appending := s.appending ++ rejected } j =
        (s.owes j || (j == envelope.call && pc.isOwed))) (ha : s.losesNothing a = true) :
    s.PlaceEffect a { s with
      calls, queue := s.queue ++ entered, appending := s.appending ++ rejected } log log := by
  cases hcalled with
  | refused | blocked =>
      simp only [List.append_nil, EnqueuePc.isOwed, Bool.and_false, Bool.or_false] at howes ⊢
      exact .kept (List.Perm.refl _) howes ha
  | accepted =>
      simp only [EnqueuePc.isOwed, Bool.and_true] at howes
      refine .added envelope.call ?_ hnew howes ha
      simp only [places, List.map_append, List.map_cons, List.map_nil, List.append_assoc,
        List.singleton_append, List.append_nil]
      exact List.perm_middle
  | rejecting reason =>
      simp only [EnqueuePc.isOwed, Bool.and_true] at howes
      refine .added envelope.call ?_ hnew howes ha
      simp only [places, List.map_append, List.map_cons, List.map_nil, List.append_nil]
      rw [← List.append_assoc, List.append_assoc _ [envelope.call], List.singleton_append]
      exact List.perm_middle

/-- An attempt that goes on or fails keeps the envelope where the router finds it. -/
theorem goOn_effect {envelope : DispatchEnvelope} (reached : Bool) {sub : Submission.Pc}
    {t : DispatchLane} (hhand : s.pc.hand = some envelope.call)
    (hrest : t.restPlaces log = s.restPlaces log) (hcalls : t.calls = s.calls)
    (hsub : sub ≠ .returned (.ok ())) (ha : s.losesNothing a = true) :
    s.PlaceEffect a (t.goOn envelope reached sub) log log := by
  refine .kept ?_ (owes_of_calls ((calls_goOn _ _ _).trans hcalls)) ha
  refine (places_goOn envelope reached hsub).trans ?_
  have hperm := s.places_perm log
  rw [hhand] at hperm
  rw [hrest]
  exact hperm.symm

theorem run_place_effect {env : Env} (h : s.step (.run env) = some s') :
    s.PlaceEffect (.run env) s' log (log ++ s.handovers (.run env) s') := by
  have hnone {envelope : DispatchEnvelope} {sub : Submission.Pc} {reached : Bool}
      (hpc : s.pc = .submitting envelope sub reached)
      (hsub : ∀ ref sender, sub = .sending ref sender [] → s.delivers sub = false) :
      s.handovers (.run env) s' = [] := by
    simp only [handovers, hpc]
    split
    · rename_i heq
      cases heq
      rw [hsub _ _ rfl]
      rfl
    · rfl
  cases run_effect h with
  | stored plane ref hpc hs' =>
      rw [hnone hpc (fun ref sender hsub => by cases hsub), List.append_nil, hs']
      exact goOn_effect _ (by rw [hpc]; rfl) rfl rfl (fun hsub => by cases hsub) rfl
  | unstored plane e hpc hs' =>
      rw [hnone hpc (fun ref sender hsub => by cases hsub), List.append_nil, hs']
      exact goOn_effect _ (by rw [hpc]; rfl) rfl rfl (fun hsub => by cases hsub) rfl
  | refused plane hpc hdelivers hs' =>
      rw [hnone hpc (fun ref sender hsub => by rw [hdelivers]), List.append_nil, hs']
      exact goOn_effect _ (by rw [hpc]; rfl) rfl rfl (fun hsub => by cases hsub) rfl
  | released plane hpc hs' =>
      rename_i envelope ref more reached
      rw [hnone hpc (fun ref sender hsub => by cases hsub), List.append_nil, hs']
      refine goOn_effect _ (by rw [hpc]; rfl) rfl rfl (fun hsub => ?_) rfl
      cases more with
      | zero => cases hsub
      | succ more => cases hsub
  | sent plane hpc hdelivers hs' =>
      rename_i envelope ref sender todo reached
      cases todo with
      | cons next todo =>
          rw [hnone hpc (fun ref sender hsub => by cases hsub), List.append_nil, hs']
          exact goOn_effect _ (by rw [hpc]; rfl) rfl rfl (fun hsub => by cases hsub) rfl
      | nil =>
          have hlog : s.handovers (.run env) s' = [envelope.call] := by
            simp only [handovers, hpc]
            exact if_pos hdelivers
          rw [hlog, hs']
          refine .kept ?_ (owes_of_calls rfl) rfl
          -- the envelope goes from the hands of the task to the roots
          have hperm := s.places_perm log
          rw [hpc] at hperm
          refine List.Perm.trans ?_ hperm.symm
          simp only [places, Submission.nextSender, goOn, setPlane, LanePc.hand, restPlaces,
            Option.toList_none, Option.toList_some, List.append_nil, List.append_assoc,
            List.singleton_append]
          rw [← List.append_assoc]
          exact List.perm_middle.trans (List.Perm.of_eq (by simp))

/-- Who waits for a dead letter goes on: no place changes, and no debt. -/
theorem appended_spec (letter : DeadLetter) (result : Except String Unit) :
    (∀ log, (s.appended letter result).places log = s.places log) ∧
      ∀ i, (s.appended letter result).owes i = s.owes i := by
  rcases appended_frame (s := s) letter result with heq | ⟨envelope, hpc, heq⟩ | ⟨hrejecting, heq⟩
  · rw [heq]
    exact ⟨fun log => rfl, fun j => rfl⟩
  · rw [heq]
    refine ⟨fun log => ?_, fun j => rfl⟩
    rw [places, places, hpc]
    rfl
  · rw [heq]
    refine ⟨fun log => rfl, fun j => ?_⟩
    rw [owes_set (s := s) hrejecting rfl (fun _ => rfl) j]
    by_cases hj : j = letter.envelope.call
    · subst hj
      rw [owes, hrejecting]
      rfl
    · rw [beq_false_of_ne hj, Bool.false_and, Bool.or_false]

theorem append_effect {k : ℕ} {result : Except String Unit}
    (h : s.step (.append k result) = some s') :
    s.PlaceEffect (.append k result) s' log log := by
  obtain ⟨letter, hk, rfl⟩ := Option.map_eq_some_iff.mp h
  obtain ⟨hplaces, howes⟩ := appended_spec (s := { s with
    appending := s.appending.eraseIdx k
    letters := match result with
      | .ok () => s.letters ++ [letter]
      | .error _ => s.letters }) letter result
  have herase : (s.appending.map (·.envelope.call)).Perm
      (letter.envelope.call :: (s.appending.eraseIdx k).map (·.envelope.call)) := by
    obtain ⟨hlt, hget⟩ := List.getElem?_eq_some_iff.mp hk
    have hperm := (List.getElem_cons_eraseIdx_perm hlt).symm.map (·.envelope.call)
    rwa [hget, List.map_cons] at hperm
  have htaken : (s.places log).Perm
      (letter.envelope.call :: places { s with appending := s.appending.eraseIdx k } log) :=
    ((herase.append_left _).append_right _).trans (List.perm_middle.append_right _)
  cases result with
  | ok u =>
      refine .kept ?_ howes rfl
      rw [hplaces]
      refine List.Perm.trans ?_ htaken.symm
      rw [places, List.map_append, List.map_cons, List.map_nil, ← List.append_assoc]
      exact List.perm_append_singleton _ _
  | error e =>
      refine .lost [letter.envelope.call] ?_ howes rfl
      rw [hplaces]
      exact htaken

theorem place_effect (hs : s.Placed log) (h : s.step a = some s') :
    s.PlaceEffect a s' log (log ++ s.handovers a s') := by
  have hnone (ha : s.handovers a s' = []) (heffect : s.PlaceEffect a s' log log) :
      s.PlaceEffect a s' log (log ++ s.handovers a s') := by
    rwa [ha, List.append_nil]
  cases step_turn h with
  | called hcalled hqueue happending =>
      subst hqueue happending
      refine hnone rfl (called_effect hcalled ?_ (fun j => owes_concat rfl j) rfl)
      rw [owes, List.getElem?_eq_none (Nat.le_refl _)]
      rfl
  | @entered i envelope pc entered queue hi hcalled hne hqueue =>
      have hcall := hs.blocked_call i envelope hi
      have heffect : s.PlaceEffect (.enter i) { s with
          calls := s.calls.set i pc, queue := s.queue ++ entered, appending := s.appending ++ [] }
          log log :=
        called_effect hcalled (by rw [owes, hcall, hi]; rfl) (fun j => by
          rw [hcall]
          exact owes_set hi rfl (fun howed => by cases howed) j) rfl
      rw [List.append_nil, ← hqueue] at heffect
      exact hnone rfl heffect
  | @took envelope queue hpc hqueue =>
      refine hnone rfl (.kept ?_ (owes_of_calls (calls_goOn _ _ _)) rfl)
      refine (places_goOn envelope false (attempt_ne_ok envelope)).trans ?_
      refine List.Perm.symm ((restPlaces_perm_places (by rw [hpc]; rfl)).trans ?_)
      rw [restPlaces, restPlaces, hqueue]
      exact List.Perm.refl _
  | ran hrun => exact run_place_effect h
  | @woke envelope reached hpc =>
      exact hnone rfl
        (goOn_effect reached (by rw [hpc]; rfl) rfl rfl (attempt_ne_ok envelope) rfl)
  | appended hk => exact hnone rfl (append_effect h)
  | aborted =>
      refine hnone rfl (.lost (s.queue.map DispatchEnvelope.call ++ s.pc.hand.toList) ?_
        (fun i => rfl) ?_)
      · exact List.Perm.of_eq (by simp [places, LanePc.hand])
      · rw [losesNothing]
        cases s.queue with
        | nil => cases s.pc.hand <;> rfl
        | cons envelope queue => rfl
  | deployed hb => exact hnone rfl (.kept (List.Perm.refl _) (fun i => rfl) rfl)

/-! ## Runs -/

/-- A call that is blocked after a step was so before, or was just made. -/
theorem blocked_of_step {i : ℕ} {envelope : DispatchEnvelope} (h : s.step a = some s')
    (hi : s'.calls[i]? = some (.blocked envelope)) :
    s.calls[i]? = some (.blocked envelope) ∨ envelope.call = i := by
  cases step_turn h with
  | called hcalled hqueue happending =>
      rcases getElem?_concat_cases hi with ⟨hlength, hnew⟩ | ⟨-, hold⟩
      · cases hcalled with
        | blocked =>
            cases hnew
            exact .inr hlength.symm
        | _ => cases hnew
      · exact .inl hold
  | entered hj hcalled hne hqueue =>
      rcases getElem?_set_cases hi with ⟨-, rfl⟩ | ⟨-, hold⟩
      · exact absurd rfl (hne envelope)
      · exact .inl hold
  | took hpc hqueue => exact .inl (by rwa [calls_goOn] at hi)
  | ran hrun =>
      obtain ⟨plane, pc, appending, rfl⟩ := hrun.frame
      exact .inl hi
  | woke hpc => exact .inl (by rwa [calls_goOn] at hi)
  | @appended k result letter letters hk =>
      rcases appended_frame (s := { s with appending := s.appending.eraseIdx k, letters })
        letter result with heq | ⟨_, -, heq⟩ | ⟨-, heq⟩
      · exact .inl (by rwa [heq] at hi)
      · exact .inl (by rwa [heq] at hi)
      · rw [heq] at hi
        rcases getElem?_set_cases hi with ⟨-, hnew⟩ | ⟨-, hold⟩
        · cases hnew
        · exact .inl hold
  | aborted => exact .inl hi
  | deployed hb => exact .inl hi

theorem Placed.step (hs : s.Placed log) (h : s.step a = some s') :
    s'.Placed (log ++ s.handovers a s') := by
  refine ⟨?_, ?_, ?_⟩
  · cases place_effect hs h with
    | kept hperm howes hguard => exact hperm.nodup_iff.mpr hs.nodup
    | added i hperm hnew howes hguard =>
        refine hperm.nodup_iff.mpr (List.nodup_cons.mpr ⟨fun hmem => ?_, hs.nodup⟩)
        rw [hs.owed i hmem] at hnew
        cases hnew
    | lost gone hperm howes hguard =>
        exact (List.nodup_append.mp (hperm.nodup_iff.mp hs.nodup)).2.1
  · intro j hj
    cases place_effect hs h with
    | kept hperm howes hguard =>
        rw [howes]
        exact hs.owed j (hperm.mem_iff.mp hj)
    | added i hperm hnew howes hguard =>
        rw [howes, Bool.or_eq_true, beq_iff_eq]
        rcases List.mem_cons.mp (hperm.mem_iff.mp hj) with rfl | hold
        · exact .inr rfl
        · exact .inl (hs.owed j hold)
    | lost gone hperm howes hguard =>
        rw [howes]
        exact hs.owed j (hperm.mem_iff.mpr (List.mem_append_right _ hj))
  · intro j envelope hj
    rcases blocked_of_step h hj with hold | hcall
    · exact hs.blocked_call j envelope hold
    · exact hcall

/-- Where the router answers for an envelope, one place is some place. -/
theorem Placed.accounted_iff (hs : s.Placed log) :
    s.Accounted log ↔ ∀ i, s.owes i = true → i ∈ s.places log :=
  forall₂_congr fun i _ =>
    ⟨fun hone => List.count_pos_iff.mp (by omega), List.count_eq_one_of_mem hs.nodup⟩

/-- A step keeps every envelope in one place if and only if it meets the guard. -/
theorem accounted_step_iff (hs : s.Placed log) (hacc : s.Accounted log)
    (h : s.step a = some s') :
    s'.Accounted (log ++ s.handovers a s') ↔ s.losesNothing a = true := by
  rw [(hs.step h).accounted_iff]
  rw [hs.accounted_iff] at hacc
  cases place_effect hs h with
  | kept hperm howes hguard =>
      refine iff_of_true (fun i hi => ?_) hguard
      rw [howes] at hi
      exact hperm.mem_iff.mpr (hacc i hi)
  | added i hperm hnew howes hguard =>
      refine iff_of_true (fun j hj => ?_) hguard
      rw [howes, Bool.or_eq_true, beq_iff_eq] at hj
      rcases hj with hold | rfl
      · exact hperm.mem_iff.mpr (List.mem_cons_of_mem _ (hacc j hold))
      · exact hperm.mem_iff.mpr List.mem_cons_self
  | lost gone hperm howes hguard =>
      have hdisjoint := (List.nodup_append.mp (hperm.nodup_iff.mp hs.nodup)).2.2
      rw [hguard, List.isEmpty_iff, List.eq_nil_iff_forall_not_mem]
      constructor
      · intro hafter i hi
        have howed := hs.owed i (hperm.mem_iff.mpr (List.mem_append_left _ hi))
        exact hdisjoint i hi i (hafter i (by rw [howes, howed])) rfl
      · intro hnothing i hi
        rw [howes] at hi
        rcases List.mem_append.mp (hperm.mem_iff.mp (hacc i hi)) with hgone | hstays
        · exact absurd hgone (hnothing i)
        · exact hstays

theorem Idle.placed (hs : s.Idle) : s.Placed [] := by
  have hplaces : s.places [] = [] := by
    rw [places, hs.queue_none, hs.pc_receiving, hs.appending_none, hs.letters_none]
    rfl
  refine ⟨by rw [hplaces]; exact List.nodup_nil, fun i hi => ?_, fun i envelope hi => ?_⟩
  · rw [hplaces] at hi
    cases hi
  · rw [hs.calls_none] at hi
    cases hi

/-- When nothing is under way any more, an envelope that is in one place was handed over or is in
the file of dead letters, once. -/
theorem settled_once (hacc : s.Accounted log) (hqueue : s.queue = []) (hhand : s.pc.hand = none)
    (happending : s.appending = []) {i : ℕ} (hi : s.owes i = true) :
    log.count i + (s.letters.map (·.envelope.call)).count i = 1 := by
  have hone := hacc i hi
  rwa [places, hqueue, hhand, happending, List.map_nil, List.map_nil, Option.toList_none,
    List.append_nil, List.append_nil, List.nil_append, List.count_append] at hone

/-! ## The task does not go on for ever -/

/-- How many commands a submission has left at most. -/
def commandsLeft : Submission.Pc → ℕ
  | .writing _ _ todo => 2 * todo.length + 4
  | .sending _ _ todo => 2 * todo.length + 3
  | .releaseRest _ more => more + 1
  | .returned _ => 0

/-- How many steps an attempt takes at most, with the sleep before it. -/
def attemptBound (s : DispatchLane) : ℕ := 2 * s.deployment.ingress.rootSenders.length + 3

/-- How many steps the later attempts of an envelope take at most. -/
def retryBound (s : DispatchLane) (envelope : DispatchEnvelope) : ℕ :=
  (s.policy.maxRetryAttempts - envelope.attempts) * s.attemptBound + 2

/-- How many steps what the task has in hand takes at most. -/
def handWork (s : DispatchLane) : LanePc → ℕ
  | .submitting envelope sub _ => commandsLeft sub + s.retryBound envelope
  | .sleeping envelope _ => s.attemptBound + s.retryBound envelope
  | .recording _ => 1
  | .receiving | .ended => 0

/-- How many steps the task and the writers of dead letters can take, if nobody calls. -/
def work (s : DispatchLane) : ℕ :=
  (s.queue.map fun envelope => s.attemptBound + s.retryBound envelope + 1).sum +
    s.handWork s.pc + s.appending.length

/-- The steps of the task and of the writers of dead letters. -/
def IsWork : DispatchAction → Prop
  | .take | .run _ | .wake | .append _ _ => True
  | _ => False

theorem commandsLeft_attempt (envelope : DispatchEnvelope) :
    commandsLeft (s.attempt envelope) < s.attemptBound := by
  rw [attempt, attemptBound]
  split
  · rw [Submission.submitTo]
    split
    · exact Nat.zero_lt_succ _
    · rename_i sender hsender
      cases hroots : s.deployment.ingress.rootSenders with
      | nil =>
          rw [hroots] at hsender
          cases hsender
      | cons root roots =>
          simp only [commandsLeft, List.length_nil, List.length_cons]
          omega
  · rw [Submission.submit]
    split
    · exact Nat.zero_lt_succ _
    · rename_i root roots hroots
      simp only [commandsLeft, hroots, List.length_map, List.length_cons]
      omega

theorem work_goOn (envelope : DispatchEnvelope) (reached : Bool) (sub : Submission.Pc) :
    (s.goOn envelope reached sub).work ≤
      (s.queue.map fun envelope => s.attemptBound + s.retryBound envelope + 1).sum +
        (commandsLeft sub + s.retryBound envelope) + s.appending.length := by
  cases sub with
  | returned result =>
      cases result with
      | ok u =>
          have hwork : (s.goOn envelope reached (.returned (.ok u))).work =
              (s.queue.map fun envelope => s.attemptBound + s.retryBound envelope + 1).sum + 0 +
                s.appending.length := rfl
          omega
      | error e =>
          rw [goOn]
          split
          · rename_i hleft
            have hbound : s.retryBound envelope = s.attemptBound +
                s.retryBound { envelope with attempts := envelope.attempts + 1 } := by
              have hsub : s.policy.maxRetryAttempts - envelope.attempts =
                  s.policy.maxRetryAttempts - (envelope.attempts + 1) + 1 := by omega
              rw [retryBound, retryBound, hsub, Nat.add_mul, Nat.one_mul]
              simp only
              omega
            rw [hbound]
            exact Nat.add_le_add_right (Nat.add_le_add_left (Nat.le_add_left _ _) _) _
          · have hwork : work { s with
                pc := .recording envelope
                appending := s.appending ++ [(⟨envelope, e.message⟩ : DeadLetter)] } =
                (s.queue.map fun envelope => s.attemptBound + s.retryBound envelope + 1).sum + 1 +
                  (s.appending ++ [(⟨envelope, e.message⟩ : DeadLetter)]).length := rfl
            have htwo : 2 ≤ s.retryBound envelope := Nat.le_add_left _ _
            rw [hwork, List.length_append, List.length_singleton]
            omega
  | writing ctx sender todo => exact Nat.le_refl _
  | sending ref sender todo => exact Nat.le_refl _
  | releaseRest ref more => exact Nat.le_refl _

/-- What the queue and the writers have to do, and the hands of the task. -/
theorem work_eq (s : DispatchLane) : s.work =
    (s.queue.map fun envelope => s.attemptBound + s.retryBound envelope + 1).sum +
      s.handWork s.pc + s.appending.length := rfl

/-- A command of a submission leaves fewer commands. -/
theorem work_goOn_lt {t : DispatchLane} {envelope : DispatchEnvelope} {sub sub' : Submission.Pc}
    {before reached : Bool} (hpc : s.pc = .submitting envelope sub before)
    (hqueue : t.queue = s.queue) (happending : t.appending = s.appending)
    (hattempt : t.attemptBound = s.attemptBound) (hpolicy : t.policy = s.policy)
    (hless : commandsLeft sub' < commandsLeft sub) :
    (t.goOn envelope reached sub').work < s.work := by
  have hretry : t.retryBound = s.retryBound := by
    funext envelope
    rw [retryBound, retryBound, hattempt, hpolicy]
  have hle := work_goOn (s := t) envelope reached sub'
  have hbefore := s.work_eq
  rw [hpc, handWork] at hbefore
  rw [hqueue, happending, hattempt, hretry] at hle
  omega

/-- Who waits for a dead letter goes on, with no more to do. -/
theorem work_appended (letter : DeadLetter) (result : Except String Unit) :
    (s.appended letter result).work ≤ s.work := by
  rcases appended_frame (s := s) letter result with heq | ⟨envelope, hpc, heq⟩ | ⟨-, heq⟩
  · rw [heq]
  · rw [heq, work_eq, work_eq, hpc]
    exact Nat.add_le_add_right (Nat.add_le_add_left (Nat.zero_le _) _) _
  · rw [heq]
    exact Nat.le_refl _

/-- Each of these steps leaves less to do. -/
theorem work_lt (ha : IsWork a) (h : s.step a = some s') : s'.work < s.work := by
  cases a with
  | take =>
      rw [step] at h
      split at h
      · rename_i envelope queue hpc hqueue
        cases h
        have hle := work_goOn (s := { s with queue }) envelope false (s.attempt envelope)
        have hattempt := commandsLeft_attempt (s := s) envelope
        have hbefore := s.work_eq
        rw [hpc, handWork, hqueue, List.map_cons, List.sum_cons] at hbefore
        have hsame : (queue.map fun envelope =>
            attemptBound { s with queue } + retryBound { s with queue } envelope + 1).sum =
            (queue.map fun envelope => s.attemptBound + s.retryBound envelope + 1).sum := rfl
        have hretry : retryBound { s with queue } envelope = s.retryBound envelope := rfl
        simp only [hsame, hretry] at hle
        omega
      · cases h
  | run env =>
      cases run_effect h with
      | stored plane ref hpc hs' =>
          rw [hs']
          exact work_goOn_lt hpc rfl rfl rfl rfl (Nat.lt_succ_self _)
      | unstored plane e hpc hs' =>
          rw [hs']
          exact work_goOn_lt hpc rfl rfl rfl rfl (Nat.succ_pos _)
      | sent plane hpc hdelivers hs' =>
          rename_i envelope ref sender todo reached
          rw [hs']
          refine work_goOn_lt hpc rfl rfl rfl rfl ?_
          cases todo with
          | nil => exact Nat.succ_pos _
          | cons next todo =>
              simp only [Submission.nextSender, commandsLeft, List.length_cons]
              omega
      | refused plane hpc hdelivers hs' =>
          rw [hs']
          refine work_goOn_lt hpc rfl rfl rfl rfl ?_
          simp only [commandsLeft]
          omega
      | released plane hpc hs' =>
          rename_i envelope ref more reached
          rw [hs']
          refine work_goOn_lt hpc rfl rfl rfl rfl ?_
          cases more with
          | zero => exact Nat.succ_pos _
          | succ more => exact Nat.lt_succ_self _
  | wake =>
      rw [step] at h
      split at h
      · rename_i envelope reached hpc
        cases h
        have hle := work_goOn (s := s) envelope reached (s.attempt envelope)
        have hattempt := commandsLeft_attempt (s := s) envelope
        have hbefore := s.work_eq
        rw [hpc, handWork] at hbefore
        omega
      · cases h
  | append k result =>
      obtain ⟨letter, hk, rfl⟩ := Option.map_eq_some_iff.mp h
      obtain ⟨hlt, -⟩ := List.getElem?_eq_some_iff.mp hk
      refine Nat.lt_of_le_of_lt (work_appended letter result) ?_
      refine Nat.add_lt_add_left ?_ _
      show (s.appending.eraseIdx k).length < s.appending.length
      rw [List.length_eraseIdx_of_lt hlt]
      omega
  | submit ctx source targetNodeId => cases ha
  | enter i => cases ha
  | abort => cases ha
  | deployment b => cases ha

/-! ## Every run -/

/-- No envelope is lost: each is in one place; once nothing is under way any more it was handed
over or is in the file of dead letters, once; and every step of the task and of the writers of dead
letters leaves less to do. -/
structure Settles (s : DispatchLane) (log : List ℕ) : Prop where
  accounted : s.Accounted log
  once : s.queue = [] → s.pc.hand = none → s.appending = [] → ∀ i, s.owes i = true →
    log.count i + (s.letters.map (·.envelope.call)).count i = 1
  less : ∀ a s', IsWork a → s.step a = some s' → s'.work < s.work

theorem settles_iff : s.Settles log ↔ s.Accounted log := by
  constructor
  · intro h
    exact h.accounted
  · intro h
    exact ⟨h, fun hqueue hhand happending i hi => settled_once h hqueue hhand happending hi,
      fun a s' ha hstep => work_lt ha hstep⟩

/-- In every run, no envelope that the router answers for is lost in any state if and only if every
step meets the guard. -/
theorem dispatch_settles_iff (hs : s.Idle) (acts : List DispatchAction) :
    (machine.logged handovers).Along (fun t => t.1.Settles t.2) (s, []) acts ↔
      (machine.logged handovers).Meets (fun t a => t.1.losesNothing a = true) (s, []) acts := by
  apply Machine.along_iff_meets (J := fun t => t.1.Placed t.2)
  · intro t a t' hplaced h
    obtain ⟨hstep, hlog⟩ := Machine.logged_step.mp h
    rw [hlog]
    exact hplaced.step hstep
  · intro t a t' hplaced hsettles h
    obtain ⟨hstep, hlog⟩ := Machine.logged_step.mp h
    rw [hlog, settles_iff]
    exact accounted_step_iff hplaced hsettles.accounted hstep
  · exact hs.placed
  · rw [settles_iff]
    intro i hi
    rw [owes, hs.calls_none] at hi
    cases hi

/-- A manual lane before a deployment with the root channels given. -/
def manualLane (chans : List (Channel ContextRef)) (rootSenders : List (String × ℕ)) :
    DispatchLane where
  policy := ⟨"line-1", "manual", .rejectNewest, 2, 1⟩
  deployment := ⟨⟨.withCapacity 0, chans⟩, [], ⟨rootSenders⟩, []⟩
  queue := []
  pc := .receiving
  calls := []
  appending := []
  letters := []

theorem manualLane_idle (chans : List (Channel ContextRef)) {rootSenders : List (String × ℕ)}
    (hsenders : (rootSenders.map Prod.snd).Nodup) : (manualLane chans rootSenders).Idle :=
  ⟨rfl, rfl, rfl, rfl, rfl, hsenders⟩

/-- An envelope that a root takes, at the end of which nothing is in hand. -/
theorem dispatched_settles :
    (machine.logged handovers).Along (fun t => t.1.Settles t.2)
      (manualLane [.live 1 []] [("a", 0)], [])
      [.submit ⟨1, 0, .null⟩ "manual" none, .take, .run (.tick 0), .run (.tick 0), .abort] :=
  (dispatch_settles_iff (manualLane_idle _ (by decide)) _).mpr
    ⟨rfl, _, rfl, rfl, _, rfl, rfl, _, rfl, rfl, _, rfl, rfl, _, rfl, trivial⟩

/-- In every run, an envelope is in one place at most: in the queue, in the hands of the task, with
the roots, or among the dead letters. -/
theorem envelope_in_one_place {t : DispatchLane × List ℕ}
    (h : (machine.logged handovers).Reaches t) :
    (t.1.places t.2).Nodup ∧ ∀ i ∈ t.1.places t.2, t.1.owes i = true := by
  have hs : t.1.Placed t.2 :=
    h.invariant_logged (fun _ hs => Idle.placed hs) fun s log a s' hs hstep => hs.step hstep
  exact ⟨hs.nodup, hs.owed⟩

/-- One was handed over and two are in the queue. -/
theorem three_in_one_place : ∃ t : DispatchLane × List ℕ,
    t.1.places t.2 = [1, 2, 0] ∧ (t.1.places t.2).Nodup := by
  have hrun : ((machine.logged handovers).replay (fun _ _ => true)
      (manualLane [.live 1 []] [("a", 0)], [])
      [.submit ⟨1, 0, .null⟩ "manual" none, .take, .run (.tick 0), .run (.tick 0),
        .submit ⟨2, 0, .null⟩ "manual" none, .submit ⟨3, 0, .null⟩ "manual" none]).any
      fun t => decide (t.1.places t.2 = [1, 2, 0]) := by decide
  obtain ⟨t, ht, hend⟩ := Machine.exists_reaches_of_replay (M := machine.logged handovers)
    (s := (manualLane _ [("a", 0)], [])) ⟨manualLane_idle _ (by decide), rfl⟩ hrun
  exact ⟨t, of_decide_eq_true hend, (envelope_in_one_place ht).1⟩

/-- An accepted envelope is in the queue when the task is aborted, and then nowhere. -/
theorem aborted_loses_envelope :
    ¬ (machine.logged handovers).Along (fun t => t.1.Settles t.2)
      (manualLane [.live 1 []] [("a", 0)], [])
      [.submit ⟨1, 0, .null⟩ "manual" none, .abort] := by
  intro h
  obtain ⟨-, s₁, hsubmit, -, s₂, habort, hend⟩ := h
  cases hsubmit
  cases habort
  have hone := hend.accounted 0 (by decide)
  exact absurd hone (by decide)

end DispatchLane

end Nazh
