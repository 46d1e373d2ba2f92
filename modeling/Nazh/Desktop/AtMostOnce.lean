import Nazh.Desktop.DispatchLedger

/-!
# How often a dispatched payload is delivered

A submission that fails at a closed root has given the payload to the roots before it, and the
task of the lane submits the whole envelope again. A root gets a payload twice when the repeated
attempt finds the first root open.
-/

namespace Nazh

open Lib

namespace DispatchLane

/-- The roots an attempt sends to, in their order. -/
def targets (s : DispatchLane) (envelope : DispatchEnvelope) : List ℕ :=
  match envelope.targetNodeId with
  | some nodeId => (s.deployment.ingress.rootSenders.lookup nodeId).toList
  | none => s.deployment.ingress.rootSenders.map Prod.snd

/-- The root that gets the payload of an envelope in a step. -/
def deliveries (s : DispatchLane) (a : DispatchAction) (_ : DispatchLane) : List (ℕ × ℕ) :=
  match a, s.pc with
  | .run _, .submitting envelope (.sending ref sender todo) _ =>
      if s.delivers (.sending ref sender todo) then [(envelope.call, sender)] else []
  | _, _ => []

/-- The first root of an attempt gets the payload only if no attempt before it has reached a
root. -/
def sendsOnce (s : DispatchLane) : DispatchAction → Bool
  | .run _ => match s.pc with
    | .submitting envelope (.sending ref sender todo) reached =>
        !(s.delivers (.sending ref sender todo) && reached &&
          s.targets envelope == sender :: todo)
    | _ => true
  | _ => true

variable {s s' t : DispatchLane} {a : DispatchAction} {log : List (ℕ × ℕ)}

/-- Between two attempts: the first root has the payload if any root has. -/
structure Reached (s : DispatchLane) (log : List (ℕ × ℕ)) (envelope : DispatchEnvelope)
    (reached : Bool) : Prop where
  none_before : reached = false → ∀ x, (envelope.call, x) ∉ log
  first_before : reached = true →
    ∃ first todo, s.targets envelope = first :: todo ∧ (envelope.call, first) ∈ log

/-- Inside an attempt: the roots that are still to come. -/
def Ahead (s : DispatchLane) (log : List (ℕ × ℕ)) (envelope : DispatchEnvelope) (reached : Bool) :
    Submission.Pc → Prop
  | .writing _ sender todo => s.targets envelope = sender :: todo
  | .sending _ sender todo => ∃ before, s.targets envelope = before ++ sender :: todo ∧
      (before ≠ [] → reached = true ∧ (log.Nodup → ∀ x ∈ sender :: todo, (envelope.call, x) ∉ log))
  | .releaseRest _ _ | .returned _ => True

/-- What the task of a lane has done for the envelope it has in hand. -/
def InHand (s : DispatchLane) (log : List (ℕ × ℕ)) : LanePc → Prop
  | .submitting envelope sub reached =>
      s.Reached log envelope reached ∧ s.Ahead log envelope reached sub
  | .sleeping envelope reached => s.Reached log envelope reached
  | .receiving | .recording _ | .ended => True

/-- What holds in every run: the deliveries were made for envelopes that have left the queue. -/
structure Delivered (s : DispatchLane) (log : List (ℕ × ℕ)) : Prop where
  placed : ∃ handed, s.Placed handed
  owed : ∀ p ∈ log, s.owes p.1 = true
  dequeued : ∀ p ∈ log, p.1 ∉ s.queue.map DispatchEnvelope.call
  senders_nodup : (s.deployment.ingress.rootSenders.map Prod.snd).Nodup
  in_hand : s.InHand log s.pc

/-! ## Attempts -/

theorem targets_nodup (hs : (s.deployment.ingress.rootSenders.map Prod.snd).Nodup)
    (envelope : DispatchEnvelope) : (s.targets envelope).Nodup := by
  rw [targets]
  split
  · cases s.deployment.ingress.rootSenders.lookup _ with
    | none => exact List.nodup_nil
    | some sender => exact List.nodup_singleton sender
  · exact hs

/-- An attempt starts with all targets of its envelope. -/
theorem ahead_attempt (envelope : DispatchEnvelope) (reached : Bool) :
    s.Ahead log envelope reached (s.attempt envelope) := by
  rw [attempt]
  split
  · rename_i nodeId htarget
    rw [Submission.submitTo]
    split
    · trivial
    · rename_i sender hsender
      show s.targets envelope = [sender]
      simp only [targets, htarget, hsender, Option.toList_some]
  · rename_i htarget
    rw [Submission.submit]
    split
    · trivial
    · rename_i root roots hroots
      show s.targets envelope = root.2 :: roots.map Prod.snd
      simp only [targets, htarget, hroots, List.map_cons]

theorem targets_congr (h : t.deployment.ingress = s.deployment.ingress)
    (envelope : DispatchEnvelope) : t.targets envelope = s.targets envelope := by
  rw [targets, targets, h]

theorem Reached.congr {envelope : DispatchEnvelope} {reached : Bool}
    (hs : s.Reached log envelope reached)
    (h : t.deployment.ingress = s.deployment.ingress) : t.Reached log envelope reached := by
  refine ⟨hs.none_before, ?_⟩
  rw [targets_congr h]
  exact hs.first_before

theorem Ahead.congr {envelope : DispatchEnvelope} {reached : Bool} {sub : Submission.Pc}
    (hs : s.Ahead log envelope reached sub)
    (h : t.deployment.ingress = s.deployment.ingress) : t.Ahead log envelope reached sub := by
  cases sub with
  | writing ctx sender todo => exact (targets_congr h envelope).trans hs
  | sending ref sender todo =>
      rw [Ahead, targets_congr h]
      exact hs
  | releaseRest ref more => trivial
  | returned result => trivial

theorem InHand.congr {pc : LanePc} (hs : s.InHand log pc)
    (h : t.deployment.ingress = s.deployment.ingress) : t.InHand log pc := by
  cases pc with
  | submitting envelope sub reached => exact ⟨hs.1.congr h, hs.2.congr h⟩
  | sleeping envelope reached => exact Reached.congr hs h
  | receiving => trivial
  | recording envelope => trivial
  | ended => trivial

/-- Whatever an attempt came to, the task goes on with what it knows. -/
theorem inHand_goOn (t : DispatchLane) {envelope : DispatchEnvelope} {reached : Bool} {sub : Submission.Pc}
    (hreached : s.Reached log envelope reached) (hahead : s.Ahead log envelope reached sub) :
    s.InHand log (t.goOn envelope reached sub).pc := by
  cases sub with
  | returned result =>
      cases result with
      | ok u => trivial
      | error e =>
          rw [goOn]
          split
          · exact ⟨hreached.none_before, hreached.first_before⟩
          · trivial
  | writing ctx sender todo => exact ⟨hreached, hahead⟩
  | sending ref sender todo => exact ⟨hreached, hahead⟩
  | releaseRest ref more => exact ⟨hreached, trivial⟩

/-! ## A delivery -/

/-- A root has the payload already if and only if it is the first one of a repeated attempt. -/
theorem mem_log_iff {envelope : DispatchEnvelope} {reached : Bool} {ref : ContextRef} {sender : ℕ}
    {todo : List ℕ} (hlog : log.Nodup) (hreached : s.Reached log envelope reached)
    (hahead : s.Ahead log envelope reached (.sending ref sender todo)) :
    (envelope.call, sender) ∈ log ↔ reached = true ∧ s.targets envelope = sender :: todo := by
  obtain ⟨before, htargets, hbefore⟩ := hahead
  by_cases hfirst : before = []
  · subst hfirst
    rw [List.nil_append] at htargets
    constructor
    · intro hmem
      refine ⟨?_, htargets⟩
      by_contra hr
      exact hreached.none_before (Bool.eq_false_iff.mpr hr) sender hmem
    · intro h
      obtain ⟨first, todo', heq, hmem⟩ := hreached.first_before h.1
      rw [htargets] at heq
      cases heq
      exact hmem
  · refine iff_of_false ((hbefore hfirst).2 hlog sender List.mem_cons_self) ?_
    intro h
    have hlength := congrArg List.length (htargets.symm.trans h.2)
    rw [List.length_append] at hlength
    have hpos := List.length_pos_iff.mpr hfirst
    omega

/-- What is known after a delivery. -/
theorem known_sent {envelope : DispatchEnvelope} {reached : Bool} {ref : ContextRef} {sender : ℕ}
    {todo : List ℕ} (hnodup : (s.targets envelope).Nodup)
    (hreached : s.Reached log envelope reached)
    (hahead : s.Ahead log envelope reached (.sending ref sender todo)) :
    s.Reached (log ++ [(envelope.call, sender)]) envelope true ∧
      s.Ahead (log ++ [(envelope.call, sender)]) envelope true (Submission.nextSender ref todo) := by
  have hmem_iff := fun hlog : log.Nodup => mem_log_iff hlog hreached hahead
  obtain ⟨before, htargets, hbefore⟩ := hahead
  refine ⟨⟨fun hr => (by cases hr), fun _ => ?_⟩, ?_⟩
  · by_cases hfirst : before = []
    · subst hfirst
      exact ⟨sender, todo, htargets, List.mem_append_right _ List.mem_cons_self⟩
    · obtain ⟨first, todo', heq, hmem⟩ := hreached.first_before (hbefore hfirst).1
      exact ⟨first, todo', heq, List.mem_append_left _ hmem⟩
  · cases todo with
    | nil => trivial
    | cons next todo =>
        refine ⟨before ++ [sender], by rw [htargets, List.append_assoc]; rfl,
          fun _ => ⟨rfl, fun hlog x hx hmem => ?_⟩⟩
        obtain ⟨hlog, -, hnew⟩ := List.nodup_append.mp hlog
        rcases List.mem_append.mp hmem with hold | hlast
        · by_cases hfirst : before = []
          · -- the first root of the attempt: none before it has the payload
            subst hfirst
            have hunreached : reached = false := by
              by_contra hr
              have hsender := (hmem_iff hlog).mpr ⟨Bool.eq_true_of_not_eq_false hr, htargets⟩
              exact hnew _ hsender _ List.mem_cons_self rfl
            exact hreached.none_before hunreached x hold
          · exact (hbefore hfirst).2 hlog x (List.mem_cons_of_mem _ hx) hold
        · cases List.mem_singleton.mp hlast
          rw [htargets] at hnodup
          exact (List.nodup_cons.mp (List.nodup_append.mp hnodup).2.1).1 hx

/-! ## Steps -/

/-- The router goes on answering for an envelope. -/
theorem owes_step {handed : List ℕ} (hs : s.Placed handed) (h : s.step a = some s') {i : ℕ}
    (hi : s.owes i = true) : s'.owes i = true := by
  cases place_effect hs h with
  | kept hperm howes hguard => rw [howes, hi]
  | added j hperm hnew howes hguard => rw [howes, hi, Bool.true_or]
  | lost gone hperm howes hguard => rw [howes, hi]

theorem queue_goOn (envelope : DispatchEnvelope) (reached : Bool) (sub : Submission.Pc) :
    (s.goOn envelope reached sub).queue = s.queue := by
  obtain ⟨pc, appending, hgoOn⟩ := goOn_frame (s := s) envelope reached sub
  rw [hgoOn]

theorem ingress_goOn (envelope : DispatchEnvelope) (reached : Bool) (sub : Submission.Pc) :
    (s.goOn envelope reached sub).deployment.ingress = s.deployment.ingress := by
  obtain ⟨pc, appending, hgoOn⟩ := goOn_frame (s := s) envelope reached sub
  rw [hgoOn]

/-- The roots of a deployment stay the same ones. -/
theorem ingress_step (h : s.step a = some s') :
    s'.deployment.ingress = s.deployment.ingress := by
  cases step_turn h with
  | called hcalled hqueue happending => rfl
  | entered hi hcalled hne hqueue => rfl
  | took hpc hqueue => rw [ingress_goOn]
  | ran hrun =>
      obtain ⟨plane, pc, appending, rfl⟩ := hrun.frame
      rfl
  | woke hpc => rw [ingress_goOn]
  | @appended k result letter letters hk =>
      rcases appended_frame (s := { s with appending := s.appending.eraseIdx k, letters })
        letter result with heq | ⟨_, -, heq⟩ | ⟨-, heq⟩ <;> rw [heq]
  | aborted => rfl
  | deployed hb => exact Deployment.ingress_step hb

/-- Who comes into the queue was not answered for. -/
theorem queue_step {handed : List ℕ} (hs : s.Placed handed) (h : s.step a = some s') {i : ℕ}
    (hi : i ∈ s'.queue.map DispatchEnvelope.call) :
    i ∈ s.queue.map DispatchEnvelope.call ∨ s.owes i = false := by
  have hentered {envelope : DispatchEnvelope} {pc : EnqueuePc} {entered : List DispatchEnvelope}
      {rejected : List DeadLetter} (hcalled : Called envelope pc entered rejected)
      (hnew : s.owes envelope.call = false)
      (hi : i ∈ (s.queue ++ entered).map DispatchEnvelope.call) :
      i ∈ s.queue.map DispatchEnvelope.call ∨ s.owes i = false := by
    rw [List.map_append, List.mem_append] at hi
    refine hi.imp id fun hi => ?_
    cases hcalled with
    | accepted => rwa [List.mem_singleton.mp hi]
    | _ => cases hi
  cases step_turn h with
  | called hcalled hqueue happending =>
      refine hentered hcalled ?_ (hqueue ▸ hi)
      rw [owes, List.getElem?_eq_none (Nat.le_refl _)]
      rfl
  | @entered j envelope pc entered queue hj hcalled hne hqueue =>
      refine hentered hcalled ?_ (hqueue ▸ hi)
      rw [owes, hs.blocked_call j envelope hj, hj]
      rfl
  | took hpc hqueue =>
      rw [queue_goOn] at hi
      rw [hqueue]
      exact .inl (List.mem_cons_of_mem _ hi)
  | ran hrun =>
      obtain ⟨plane, pc, appending, rfl⟩ := hrun.frame
      exact .inl hi
  | woke hpc => exact .inl (by rwa [queue_goOn] at hi)
  | @appended k result letter letters hk =>
      rcases appended_frame (s := { s with appending := s.appending.eraseIdx k, letters })
        letter result with heq | ⟨_, -, heq⟩ | ⟨-, heq⟩ <;> exact .inl (by rwa [heq] at hi)
  | aborted => cases hi
  | deployed hb => exact .inl hi

theorem deliveries_of_ne_run (ha : ∀ env, a ≠ .run env) : s.deliveries a s' = [] := by
  cases a with
  | run env => exact absurd rfl (ha env)
  | _ => rfl

/-- A submission that does not send delivers nothing. -/
theorem deliveries_eq_nil {env : Env} {envelope : DispatchEnvelope} {sub : Submission.Pc}
    {reached : Bool} (hpc : s.pc = .submitting envelope sub reached)
    (hsub : s.delivers sub = false) : s.deliveries (.run env) s' = [] := by
  simp only [deliveries, hpc]
  split
  · rename_i heq
    cases heq
    rw [hsub]
    rfl
  · rfl

theorem deliveries_sent {env : Env} {envelope : DispatchEnvelope} {ref : ContextRef} {sender : ℕ}
    {todo : List ℕ} {reached : Bool}
    (hpc : s.pc = .submitting envelope (.sending ref sender todo) reached)
    (hdelivers : s.delivers (.sending ref sender todo) = true) :
    s.deliveries (.run env) s' = [(envelope.call, sender)] := by
  simp only [deliveries, hpc]
  exact if_pos hdelivers

/-- What the task knows after a command of a submission. -/
theorem inHand_run {env : Env} (hs : s.Delivered log) (h : s.step (.run env) = some s') :
    s.InHand (log ++ s.deliveries (.run env) s') s'.pc := by
  have hhand := hs.in_hand
  cases run_effect h with
  | stored plane ref hpc hs' =>
      rw [deliveries_eq_nil hpc rfl, List.append_nil, hs']
      rw [hpc] at hhand
      refine inHand_goOn (s.setPlane plane) hhand.1 ⟨[], hhand.2, fun hne => ?_⟩
      exact absurd rfl hne
  | unstored plane e hpc hs' =>
      rw [deliveries_eq_nil hpc rfl, List.append_nil, hs']
      rw [hpc] at hhand
      exact inHand_goOn (s.setPlane plane) hhand.1 trivial
  | refused plane hpc hdelivers hs' =>
      rw [deliveries_eq_nil hpc hdelivers, List.append_nil, hs']
      rw [hpc] at hhand
      exact inHand_goOn (s.setPlane plane) hhand.1 trivial
  | released plane hpc hs' =>
      rename_i envelope ref more reached
      rw [deliveries_eq_nil hpc rfl, List.append_nil, hs']
      rw [hpc] at hhand
      cases more with
      | zero => exact inHand_goOn (s.setPlane plane) hhand.1 trivial
      | succ more => exact inHand_goOn (s.setPlane plane) hhand.1 trivial
  | sent plane hpc hdelivers hs' =>
      rw [deliveries_sent hpc hdelivers, hs']
      rw [hpc] at hhand
      have hknown := known_sent (targets_nodup hs.senders_nodup _) hhand.1 hhand.2
      exact inHand_goOn (s.setPlane plane) hknown.1 hknown.2

/-- What the task knows after a step. -/
theorem inHand_step (hs : s.Delivered log) (h : s.step a = some s') :
    s.InHand (log ++ s.deliveries a s') s'.pc := by
  have hhand := hs.in_hand
  have hnone (ha : s.deliveries a s' = []) (hpc : s.InHand log s'.pc) :
      s.InHand (log ++ s.deliveries a s') s'.pc := by
    rwa [ha, List.append_nil]
  cases step_turn h with
  | called hcalled hqueue happending => exact hnone rfl hhand
  | entered hi hcalled hne hqueue => exact hnone rfl hhand
  | @took envelope queue hpc hqueue =>
      refine hnone rfl (inHand_goOn { s with queue } ⟨fun _ x hx => ?_, fun hr => (by cases hr)⟩
        (ahead_attempt envelope false))
      have hnot := hs.dequeued _ hx
      rw [hqueue] at hnot
      exact hnot List.mem_cons_self
  | ran hrun => exact inHand_run hs h
  | @woke envelope reached hpc =>
      rw [hpc] at hhand
      exact hnone rfl (inHand_goOn s hhand (ahead_attempt envelope reached))
  | @appended k result letter letters hk =>
      refine hnone rfl ?_
      rcases appended_frame (s := { s with appending := s.appending.eraseIdx k, letters })
        letter result with heq | ⟨_, -, heq⟩ | ⟨-, heq⟩
      · rwa [heq]
      · rw [heq]
        trivial
      · rwa [heq]
  | aborted => exact hnone rfl trivial
  | deployed hb => exact hnone rfl hhand

/-- Who is in hand is not in the queue, and the router answers for it. -/
theorem Placed.hand_spec {handed : List ℕ} (hs : s.Placed handed) {i : ℕ}
    (hi : s.pc.hand = some i) :
    s.owes i = true ∧ i ∉ s.queue.map DispatchEnvelope.call := by
  have hperm := s.places_perm handed
  rw [hi, Option.toList_some, List.singleton_append] at hperm
  refine ⟨hs.owed i (hperm.mem_iff.mpr List.mem_cons_self), fun hmem => ?_⟩
  have hnot := (List.nodup_cons.mp (hperm.nodup_iff.mp hs.nodup)).1
  refine hnot ?_
  rw [restPlaces]
  exact List.mem_append_left _ (List.mem_append_left _ (List.mem_append_left _ hmem))

/-- A delivery is made for the envelope in hand. -/
theorem hand_of_delivery {p : ℕ × ℕ} (hp : p ∈ s.deliveries a s') :
    s.pc.hand = some p.1 ∧ ∃ env, a = .run env := by
  simp only [deliveries] at hp
  split at hp
  · rename_i env envelope ref sender todo reached hpc
    split at hp
    · cases List.mem_singleton.mp hp
      exact ⟨by rw [hpc]; rfl, env, rfl⟩
    · cases hp
  · cases hp

theorem queue_run {env : Env} (h : s.step (.run env) = some s') : s'.queue = s.queue := by
  obtain ⟨plane, pc, appending, rfl⟩ := (run_effect h).frame
  rfl

theorem Delivered.step (hs : s.Delivered log) (h : s.step a = some s') :
    s'.Delivered (log ++ s.deliveries a s') := by
  obtain ⟨handed, hplaced⟩ := hs.placed
  refine ⟨⟨_, hplaced.step h⟩, fun p hp => ?_, fun p hp hqueue => ?_, ?_, ?_⟩
  · rcases List.mem_append.mp hp with hold | hnew
    · exact owes_step hplaced h (hs.owed p hold)
    · exact owes_step hplaced h (hplaced.hand_spec (hand_of_delivery hnew).1).1
  · rcases List.mem_append.mp hp with hold | hnew
    · rcases queue_step hplaced h hqueue with hbefore | hunowed
      · exact hs.dequeued p hold hbefore
      · rw [hs.owed p hold] at hunowed
        cases hunowed
    · obtain ⟨hhand, env, rfl⟩ := hand_of_delivery hnew
      rw [queue_run h] at hqueue
      exact (hplaced.hand_spec hhand).2 hqueue
  · rw [ingress_step h]
    exact hs.senders_nodup
  · exact (inHand_step hs h).congr (ingress_step h)

/-- A step keeps the deliveries different if and only if it meets the guard. -/
theorem nodup_step_iff (hs : s.Delivered log) (hlog : log.Nodup) (h : s.step a = some s') :
    (log ++ s.deliveries a s').Nodup ↔ s.sendsOnce a = true := by
  by_cases hrun : ∃ env, a = .run env
  · obtain ⟨env, rfl⟩ := hrun
    have hhand := hs.in_hand
    cases run_effect h with
    | stored plane ref hpc hs' =>
        rw [deliveries_eq_nil hpc rfl, List.append_nil]
        exact iff_of_true hlog (by simp only [sendsOnce, hpc])
    | unstored plane e hpc hs' =>
        rw [deliveries_eq_nil hpc rfl, List.append_nil]
        exact iff_of_true hlog (by simp only [sendsOnce, hpc])
    | refused plane hpc hdelivers hs' =>
        rw [deliveries_eq_nil hpc hdelivers, List.append_nil]
        refine iff_of_true hlog ?_
        simp only [sendsOnce, hpc, hdelivers, Bool.false_and, Bool.not_false]
    | released plane hpc hs' =>
        rw [deliveries_eq_nil hpc rfl, List.append_nil]
        exact iff_of_true hlog (by simp only [sendsOnce, hpc])
    | sent plane hpc hdelivers hs' =>
        rename_i envelope ref sender todo reached
        rw [deliveries_sent hpc hdelivers]
        rw [hpc] at hhand
        have hmem := mem_log_iff hlog hhand.1 hhand.2
        have hguard : s.sendsOnce (.run env) = true ↔
            ¬ (reached = true ∧ s.targets envelope = sender :: todo) := by
          simp only [sendsOnce, hpc, hdelivers, Bool.true_and, Bool.not_eq_true',
            Bool.and_eq_false_iff, beq_eq_false_iff_ne, not_and, ne_eq]
          cases reached with
          | false => simp
          | true => simp
        rw [hguard, ← hmem, List.nodup_append]
        constructor
        · intro hnodup hin
          exact hnodup.2.2 _ hin _ List.mem_cons_self rfl
        · intro hnot
          refine ⟨hlog, List.nodup_singleton _, fun x hx y hy hxy => ?_⟩
          cases List.mem_singleton.mp hy
          rw [hxy] at hx
          exact hnot hx
  · rw [deliveries_of_ne_run (fun env ha => hrun ⟨env, ha⟩), List.append_nil]
    refine iff_of_true hlog ?_
    cases a with
    | run env => exact absurd ⟨env, rfl⟩ hrun
    | _ => rfl

theorem Idle.delivered (hs : s.Idle) : s.Delivered [] where
  placed := ⟨[], hs.placed⟩
  owed p hp := by cases hp
  dequeued p hp := by cases hp
  senders_nodup := hs.senders_nodup
  in_hand := by
    rw [hs.pc_receiving]
    trivial

/-- In every run, each root gets each payload at most once in all states if and only if every step
meets the guard. -/
theorem delivered_once_iff (hs : s.Idle) (acts : List DispatchAction) :
    (machine.logged deliveries).Along (fun t => t.2.Nodup) (s, []) acts ↔
      (machine.logged deliveries).Meets (fun t a => t.1.sendsOnce a = true) (s, []) acts := by
  apply Machine.along_iff_meets (J := fun t => t.1.Delivered t.2)
  · intro t a t' hdelivered h
    obtain ⟨hstep, hlog⟩ := Machine.logged_step.mp h
    rw [hlog]
    exact hdelivered.step hstep
  · intro t a t' hdelivered hnodup h
    obtain ⟨hstep, hlog⟩ := Machine.logged_step.mp h
    rw [hlog]
    exact nodup_step_iff hdelivered hnodup hstep
  · exact hs.delivered
  · exact List.nodup_nil

/-- Two open roots. -/
theorem fork_delivered_once :
    (machine.logged deliveries).Along (fun t => t.2.Nodup)
      (manualLane [.live 1 [], .live 1 []] [("a", 0), ("b", 1)], [])
      [.submit ⟨1, 0, .null⟩ "manual" none, .take, .run (.tick 0), .run (.tick 0),
        .run (.tick 0)] :=
  (delivered_once_iff (manualLane_idle _ (by decide)) _).mpr
    ⟨rfl, _, rfl, rfl, _, rfl, rfl, _, rfl, rfl, _, rfl, rfl, _, rfl, trivial⟩

/-- The second root is gone, and the first one gets the payload twice. -/
theorem retry_delivers_twice :
    ¬ (machine.logged deliveries).Along (fun t => t.2.Nodup)
      (manualLane [.live 2 [], .gone] [("a", 0), ("b", 1)], [])
      [.submit ⟨1, 0, .null⟩ "manual" none, .take, .run (.tick 0), .run (.tick 0), .run (.tick 0),
        .run (.tick 0), .wake, .run (.tick 0), .run (.tick 0)] := by
  intro h
  obtain ⟨-, s₁, h₁, -, s₂, h₂, -, s₃, h₃, -, s₄, h₄, -, s₅, h₅, -, s₆, h₆, -, s₇, h₇, -, s₈, h₈, -,
    s₉, h₉, hend⟩ := h
  cases h₁
  cases h₂
  cases h₃
  cases h₄
  cases h₅
  cases h₆
  cases h₇
  cases h₈
  cases h₉
  have hnodup : List.Nodup _ := hend
  exact absurd hnodup (by decide)

end DispatchLane

end Nazh
