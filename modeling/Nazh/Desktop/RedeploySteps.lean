import Nazh.Desktop.Redeploy

/-!
# What a step of a redeployment does

One case analysis of the steps of tasks, guards and `deploy_workflow`.
-/

namespace Nazh

open Lib

namespace Redeployed

variable {parseUrl : UrlParser} {portPath : Value → Except String String}
  {nodes : List TriggerNode} {s s' r : Redeployed} {a : RedeployAction} {log : List Event}

/-! ## What a step does -/

/-- A deployment that may start a task, or has one that goes on. -/
def Employs (s : Redeployed) (d : ℕ) : Prop :=
  d < s.deployments.length ∧ (s.isActive d = true ∨ d = s.newest ∨
    ∃ t ∈ s.tasks, t.pc ≠ .returned ∧ t.deployment = d)

/-- A step by which no task gets or loses a lease, and no connection its mark. -/
structure Calm (s : Redeployed) (a : RedeployAction) (s' : Redeployed) : Prop where
  tasks : ∀ (j : ℕ) t', s'.tasks[j]? = some t' → s.tasks[j]? = some t' ∨
    t'.isListening = false ∧ t'.pc ≠ .released ∧ s.Employs t'.deployment
  guards : ∀ g ∈ s'.guards, g ∈ s.guards ∨ g.1 = s.newest
  length_eq : a ≠ .deploy → s'.deployments.length = s.deployments.length
  marks : ∀ id, s.isMarked id = true → s'.isMarked id = true
  deployments_le : s.deployments.length ≤ s'.deployments.length
  current : ∀ d < s.deployments.length, s'.isCurrent d = true → s.isCurrent d = true
  inactive : ∀ d < s.deployments.length, s.isActive d = false → s'.isActive d = false
  pending : s'.pending = none ∨ s'.isCurrent s'.newest = true ∨
    s.pending ≠ none ∧ s'.deployments = s.deployments

/-- An action that takes no session out of the cache, and that the guard allows. -/
structure Plain (parseUrl : UrlParser) (portPath : Value → Except String String) (s : Redeployed)
    (a : RedeployAction) (s' : Redeployed) : Prop where
  removes : ∀ d k, .removed d k ∉ s.events parseUrl portPath a s'
  leases : s.sparesLeases parseUrl a = true
  sessions : s.sparesSessions a = true

/-- What a step does. -/
inductive Effect (parseUrl : UrlParser) (portPath : Value → Except String String) (s : Redeployed)
    (a : RedeployAction) (s' : Redeployed) : Prop
  | calm : s.Calm a s' → s'.buses = s.buses → Plain parseUrl portPath s a s' →
      Effect parseUrl portPath s a s'
  /-- A node obtains the session of its connection. -/
  | obtained (d k : ℕ) (c : String) (opened : Except EngineError Unit) : s.Calm a s' →
      s.buses.ensureSession d c opened = .ok (k, s'.buses) → d < s.deployments.length →
      s'.deployments = s.deployments → Plain parseUrl portPath s a s' →
      Effect parseUrl portPath s a s'
  /-- A node or a guard takes the session of its connection out of the cache. -/
  | removed (d : ℕ) (c : String) (free : Bool) : s.Calm a s' →
      s'.buses = s.buses.cleanupAndRemove c free → s'.deployments = s.deployments →
      s.events parseUrl portPath a s' = s.removal d c → s.sparesLeases parseUrl a = true →
      s.sparesSessions a = s.sparesSession d c → Effect parseUrl portPath s a s'
  /-- A task gives its lease back. -/
  | dropped (i : ℕ) (t : ListenerTask) (pc : ListenerPc) (f : ConnectionRecord → ConnectionRecord) :
      s.tasks[i]? = some t → t.isListening = true →
      ListenerTask.isListening { t with pc } = false →
      (pc = .released → s.isActive t.deployment = false) →
      s' = (s.modifyRecord t.connectionId f).setPc i t pc → Plain parseUrl portPath s a s' →
      Effect parseUrl portPath s a s'
  /-- A task gets a lease. -/
  | lent (i : ℕ) (t : ListenerTask) (lease : ConnectionLease) (now : ℤ)
      (records : AList fun _ : String => ConnectionRecord) (attemptWindows : AttemptWindows) :
      a = .acquire i now → s.tasks[i]? = some t → t.pc = .acquiring →
      s.acquire parseUrl t.connectionId now = (.ok lease, { s with records, attemptWindows }) →
      s.isMarked t.connectionId = false →
      (∀ id, isMarked { s with records, attemptWindows } id =
        if id = t.connectionId then true else s.isMarked id) →
      s' = { s with records, attemptWindows }.setPc i t (.listening lease.borrowedAt) →
      Effect parseUrl portPath s a s'
  /-- A task marks its connection as disconnected. -/
  | cleared (i : ℕ) (t : ListenerTask) (diagnosis : String) (now : ℤ) :
      a = .disconnect i diagnosis now → s.tasks[i]? = some t → t.pc = .released →
      s' = (s.modifyRecord t.connectionId (markDisconnected · diagnosis now)).setPc i t .returned →
      Effect parseUrl portPath s a s'

theorem Plain.of_events (hevents : s.events parseUrl portPath a s' = [])
    (hleases : s.sparesLeases parseUrl a = true) (hsessions : s.sparesSessions a = true) :
    Plain parseUrl portPath s a s' := by
  refine ⟨fun d k hmem => ?_, hleases, hsessions⟩
  rw [hevents] at hmem
  cases hmem

/-- A step that changes neither tasks nor tokens is calm. -/
theorem Calm.of_eq (htasks : s'.tasks = s.tasks)
    (hguards : ∀ g ∈ s'.guards, g ∈ s.guards ∨ g.1 = s.newest)
    (hmarks : ∀ id, s.isMarked id = true → s'.isMarked id = true)
    (hdeployments : s'.deployments = s.deployments)
    (hpending : s'.pending = none ∨ s.pending ≠ none) : s.Calm a s' where
  tasks j t' hj := .inl (htasks ▸ hj)
  guards := hguards
  length_eq _ := by rw [hdeployments]
  marks := hmarks
  deployments_le := by rw [hdeployments]
  current d hd h := by rwa [isCurrent_congr hdeployments] at h
  inactive d hd h := by simpa only [isActive, hdeployments] using h
  pending := hpending.imp_right fun h => .inr ⟨h, hdeployments⟩

theorem pending_cases : s.pending = none ∨ s.pending ≠ none := by
  cases s.pending with
  | none => exact .inl rfl
  | some rest => exact .inr (by simp)

/-- A task that goes on without a lease. -/
theorem Calm.setPc {i : ℕ} {t : ListenerTask} {pc : ListenerPc} (h : s.Calm a r)
    (hr : r.tasks = s.tasks) (ht : s.Employs t.deployment)
    (hlistening : ListenerTask.isListening { t with pc } = false) (hpc : pc ≠ .released) :
    s.Calm a (r.setPc i t pc) := by
  refine ⟨fun j t' hj => ?_, h.guards, h.length_eq, h.marks, h.deployments_le, h.current,
    h.inactive, h.pending⟩
  rw [Redeployed.setPc, hr] at hj
  rcases getElem?_set_cases hj with ⟨-, rfl⟩ | ⟨-, hold⟩
  · exact .inr ⟨hlistening, hpc, ht⟩
  · exact .inl hold

/-- A task that begins. -/
theorem Calm.addTask {u : ListenerTask} (h : s.Calm a r) (hu : s.Employs u.deployment)
    (hlistening : u.isListening = false) (hpc : u.pc ≠ .released) :
    s.Calm a { r with tasks := s.tasks ++ [u] } := by
  refine ⟨fun j t' hj => ?_, h.guards, h.length_eq, h.marks, h.deployments_le, h.current,
    h.inactive, h.pending⟩
  rcases getElem?_concat_cases hj with ⟨-, rfl⟩ | ⟨-, hold⟩
  · exact .inr ⟨hlistening, hpc, hu⟩
  · exact .inl hold

/-- A deployment that fails takes no lease from anyone. -/
theorem Calm.failDeploy (hr : r.tasks = s.tasks) (hguards : r.guards = s.guards)
    (hmarks : ∀ id, s.isMarked id = true → r.isMarked id = true)
    (hdeployments : r.deployments = s.deployments) : s.Calm a r.failDeploy where
  tasks j t' hj := .inl (hr ▸ hj)
  guards g hg := .inl (hguards ▸ hg)
  length_eq _ := by rw [Redeployed.failDeploy, List.length_set, hdeployments]
  marks := hmarks
  deployments_le := by rw [Redeployed.failDeploy, List.length_set, hdeployments]
  current d hd h := by
    rw [isCurrent_failDeploy] at h
    cases h
  inactive d hd h := by
    rw [isActive, beq_eq_false_iff_ne] at h ⊢
    intro hactive
    rw [Redeployed.failDeploy, hdeployments, List.getElem?_set] at hactive
    split at hactive
    · split at hactive
      · cases hactive
      · cases hactive
    · exact h hactive
  pending := .inl rfl

/-- A lease given back concerns one record. -/
theorem giveBack_eq (c : String) (lease : ConnectionLease) (look : LeaseLook) (dropped : ℤ) :
    ∃ records, s.giveBack c lease look dropped = { s with records } ∧
      ∀ id, id ≠ c → (s.giveBack c lease look dropped).isMarked id = s.isMarked id := by
  obtain ⟨records, hrecords⟩ :=
    modifyRecord_eq (s := s) c (finalizeRelease · lease.borrowedAt look.outcome dropped)
  rw [giveBack]
  split
  · rename_i reason hreason
    obtain ⟨records', hrecords'⟩ := modifyRecord_eq
      (s := s.modifyRecord c (finalizeRelease · lease.borrowedAt look.outcome dropped)) c
      (markInvalid · reason dropped)
    refine ⟨records', ?_, fun id hid => ?_⟩
    · rw [hrecords', hrecords]
    · rw [isMarked_modifyRecord_ne _ hid, isMarked_modifyRecord_ne _ hid]
  · exact ⟨records, hrecords, fun id hid => isMarked_modifyRecord_ne _ hid⟩

/-- A failed `on_deploy` removes no session. -/
theorem plain_onDeploy (opened : Except EngineError Unit) (now dropped : ℤ) :
    Plain parseUrl portPath s (.onDeploy opened now dropped) s' := by
  refine ⟨fun d k h => ?_, rfl, rfl⟩
  simp only [events] at h
  split at h
  · obtain ⟨e, -, he⟩ := Option.map_eq_some_iff.mp (Option.mem_toList.mp h)
    cases he
  · cases h

theorem onDeploy_effect {node : TriggerNode} {rest : List TriggerNode}
    {opened : Except EngineError Unit} {now dropped : ℤ} (hnewest : s.newest < s.deployments.length)
    (hpending : s.pending ≠ none) : Effect parseUrl portPath s (.onDeploy opened now dropped)
      (s.onDeploy parseUrl portPath node rest opened now dropped) := by
  rw [onDeploy]
  split
  · rename_i kind hkind
    have heffect := acquire_effect parseUrl s node.connectionId now
    cases hacquire : s.acquire parseUrl node.connectionId now with
    | mk result r =>
        rw [hacquire] at heffect
        cases heffect with
        | refused e records attemptWindows hmarks =>
            exact .calm (.failDeploy rfl rfl (fun id hid => (hmarks id).trans hid) rfl) rfl
              (plain_onDeploy ..)
        | granted lease records attemptWindows hfree hmarks =>
            obtain ⟨records', heq, hothers⟩ := giveBack_eq
              (s := { s with records, attemptWindows }) node.connectionId lease
              (node.look portPath lease) dropped
            have hkept (id : String) (hid : s.isMarked id = true) : isMarked (giveBack
                { s with records, attemptWindows } node.connectionId lease
                (node.look portPath lease) dropped) id = true := by
              have hne : id ≠ node.connectionId := by
                intro hsame
                rw [hsame, hfree] at hid
                cases hid
              rw [hothers id hne, hmarks, if_neg hne, hid]
            dsimp only
            rw [deployListener]
            rw [heq] at hkept ⊢
            split
            · exact .calm (.failDeploy rfl rfl hkept rfl) rfl (plain_onDeploy ..)
            · have hcalm : s.Calm (.onDeploy opened now dropped) { s with
                  records := records', attemptWindows, pending := some rest } :=
                .of_eq rfl (fun g hg => .inl hg) hkept rfl (.inr hpending)
              refine .calm (hcalm.addTask ⟨hnewest, .inr (.inl rfl)⟩ ?_ ?_) rfl (plain_onDeploy ..)
              · cases kind with
                | keeps => rfl
                | polls => rfl
                | shares => rfl
              · cases kind with
                | keeps => exact fun hpc => by cases hpc
                | polls => exact fun hpc => by cases hpc
                | shares => exact fun hpc => by cases hpc
  · split
    · exact .calm (.failDeploy rfl rfl (fun id hid => hid) rfl) rfl (plain_onDeploy ..)
    · rename_i k buses hensure
      refine .obtained s.newest k node.connectionId opened
        (.of_eq rfl (fun g hg => ?_) (fun id hid => hid) rfl (.inr hpending)) hensure hnewest rfl
        (plain_onDeploy ..)
      rcases List.mem_append.mp hg with hold | hnew
      · exact .inl hold
      · exact .inr (congrArg Prod.fst (List.mem_singleton.mp hnew))

theorem stepTask_effect {i : ℕ} {t : ListenerTask} (ht : s.tasks[i]? = some t)
    (hdeployed : t.deployment < s.deployments.length)
    (ha : ∀ {j now}, a = .acquire j now → j = i) (hd : ∀ {j x now}, a = .disconnect j x now → j = i)
    (hb : ∀ {j free}, a = .busFails j free → j = i) (h : s.stepTask parseUrl i t a = some s') :
    Effect parseUrl portPath s a s' := by
  have hself : s.Calm a s := .of_eq rfl (fun g hg => .inl hg) (fun id hid => hid) rfl pending_cases
  have hemploys (hpc : t.pc ≠ .returned) : s.Employs t.deployment :=
    ⟨hdeployed, .inr (.inr ⟨t, List.mem_of_getElem? ht, hpc, rfl⟩)⟩
  have hturn {pc : ListenerPc} (hbusy : t.pc ≠ .returned)
      (hlistening : ListenerTask.isListening { t with pc } = false) (hpc : pc ≠ .released)
      (hplain : ∀ r, Plain parseUrl portPath s a r) :
      Effect parseUrl portPath s a (s.setPc i t pc) :=
    .calm (hself.setPc rfl (hemploys hbusy) hlistening hpc) rfl (hplain _)
  cases a with
  | checkToken j =>
      have hplain (r : Redeployed) : Plain parseUrl portPath s (.checkToken j) r :=
        .of_events rfl rfl rfl
      simp only [stepTask] at h
      split at h
      · rename_i hpc
        have hbusy : t.pc ≠ .returned := by simp [hpc]
        cases h
        by_cases hactive : s.isActive t.deployment = true
        · rw [if_pos hactive]
          exact hturn hbusy rfl (fun hpc => by cases hpc) hplain
        · rw [if_neg hactive]
          exact hturn hbusy rfl (fun hpc => by cases hpc) hplain
      · cases h
  | acquire j now =>
      obtain rfl := ha rfl
      simp only [stepTask] at h
      split at h
      · rename_i hpc
        split at h
        · cases h
        · have heffect := acquire_effect parseUrl s t.connectionId now
          cases hacquire : s.acquire parseUrl t.connectionId now with
          | mk result r =>
              rw [hacquire] at heffect h
              cases heffect with
              | refused e records attemptWindows hmarks =>
                  cases h
                  have hcalm : s.Calm (.acquire j now) { s with records, attemptWindows } :=
                    .of_eq rfl (fun g hg => .inl hg) (fun id hid => (hmarks id).trans hid) rfl pending_cases
                  have hbusy : t.pc ≠ .returned := by simp [hpc]
                  refine .calm (hcalm.setPc rfl (hemploys hbusy) rfl fun hpc => by cases hpc) rfl
                    (.of_events rfl ?_ rfl)
                  simp only [sparesLeases, ht, Option.all_some, hacquire, Except.isOk,
                    Except.toBool, Bool.not_false, Bool.or_true]
              | granted lease records attemptWindows hfree hmarks =>
                  cases h
                  exact .lent j t lease now records attemptWindows rfl ht hpc hacquire hfree hmarks rfl
      · cases h
  | release j reason now =>
      simp only [stepTask] at h
      split at h
      · rename_i borrowedAt hpc
        split at h
        · cases h
          exact .dropped i t .waiting _ ht (by rw [ListenerTask.isListening, hpc]) rfl
            (fun hpc => by cases hpc) rfl (.of_events rfl rfl rfl)
        · cases h
      · cases h
  | polled j outcome now =>
      simp only [stepTask] at h
      split at h
      · rename_i borrowedAt hpc
        split at h
        · cases h
          exact .dropped i t .waiting _ ht (by rw [ListenerTask.isListening, hpc]) rfl
            (fun hpc => by cases hpc) rfl (.of_events rfl rfl rfl)
        · cases h
      · cases h
  | stop j now =>
      simp only [stepTask] at h
      split at h
      · rename_i borrowedAt hpc
        split at h
        · rename_i hcancelled
          cases h
          exact .dropped i t .released _ ht (by rw [ListenerTask.isListening, hpc]) rfl
            (fun _ => hcancelled.2) rfl (.of_events rfl rfl rfl)
        · cases h
      · cases h
  | disconnect j diagnosis now =>
      obtain rfl := hd rfl
      simp only [stepTask] at h
      split at h
      · rename_i hpc
        cases h
        exact .cleared j t diagnosis now rfl ht hpc rfl
      · cases h
  | ensure j opened =>
      simp only [stepTask] at h
      split at h
      · rename_i hpc
        have hbusy : t.pc ≠ .returned := by simp [hpc]
        split at h
        · split at h
          · cases h
            exact hturn hbusy rfl (fun hpc => by cases hpc) fun r => .of_events rfl rfl rfl
          · rename_i k buses hensure
            cases h
            have hcalm : s.Calm (.ensure j opened) { s with buses } :=
              .of_eq rfl (fun g hg => .inl hg) (fun id hid => hid) rfl pending_cases
            exact .obtained t.deployment k t.connectionId opened
              (hcalm.setPc rfl (hemploys hbusy) rfl fun hpc => by cases hpc) hensure hdeployed rfl
              (.of_events rfl rfl rfl)
        · cases h
      · cases h
  | busStops j =>
      simp only [stepTask] at h
      split at h
      · rename_i hpc
        have hbusy : t.pc ≠ .returned := by simp [hpc]
        split at h
        · cases h
        · cases h
          exact hturn hbusy rfl (fun hpc => by cases hpc) fun r => .of_events rfl rfl rfl
      · cases h
  | busFails j free =>
      obtain rfl := hb rfl
      simp only [stepTask] at h
      split at h
      · rename_i hpc
        have hbusy : t.pc ≠ .returned := by simp [hpc]
        cases h
        have hcalm : s.Calm (.busFails j free)
            { s with buses := s.buses.cleanupAndRemove t.connectionId free } :=
          .of_eq rfl (fun g hg => .inl hg) (fun id hid => hid) rfl pending_cases
        refine .removed t.deployment t.connectionId free
          (hcalm.setPc rfl (hemploys hbusy) rfl fun hpc => by cases hpc) rfl rfl ?_ rfl ?_
        · simp only [events, ht]
        · rw [sparesSessions, ht, Option.all_some]
      · cases h
  | _ => cases h

theorem step_effect (hdeployed : ∀ t ∈ s.tasks, t.deployment < s.deployments.length)
    (hpending : s.pending ≠ none → s.newest < s.deployments.length)
    (h : s.step parseUrl portPath nodes a = some s') : Effect parseUrl portPath s a s' := by
  have hturn {i : ℕ} (ha : ∀ {j now}, a = .acquire j now → j = i)
      (hd : ∀ {j x now}, a = .disconnect j x now → j = i)
      (hb : ∀ {j free}, a = .busFails j free → j = i)
      (hstep : ((s.tasks[i]?).bind fun t => s.stepTask parseUrl i t a) = some s') :
      Effect parseUrl portPath s a s' := by
    obtain ⟨t, ht, hstep⟩ := Option.bind_eq_some_iff.mp hstep
    exact stepTask_effect ht (hdeployed t (List.mem_of_getElem? ht)) ha hd hb hstep
  have hself : s.Calm a s := .of_eq rfl (fun g hg => .inl hg) (fun id hid => hid) rfl pending_cases
  have lt_of_isActive {d : ℕ} (hactive : s.isActive d = true) : d < s.deployments.length := by
    rw [isActive, beq_iff_eq] at hactive
    exact (List.getElem?_eq_some_iff.mp hactive).1
  cases a with
  | deploy =>
      rw [step] at h
      split at h
      · cases h
        refine .calm ⟨fun j t' hj => .inl hj, fun g hg => .inl hg, fun hne => absurd rfl hne,
          fun id hid => hid, by simp, fun d hd h => ?_, fun d hd hinactive => ?_,
          .inr (.inl (isCurrent_iff.mpr ⟨rfl, ?_⟩))⟩ rfl (.of_events rfl rfl rfl)
        · rw [isCurrent_concat rfl hd] at h
          cases h
        · rw [isActive, List.getElem?_append_left hd]
          exact hinactive
        · rw [newest, List.length_append, List.length_singleton, Nat.add_sub_cancel,
            List.getElem?_concat_length]
      · cases h
  | onDeploy opened now dropped =>
      rw [step] at h
      split at h
      · rename_i node rest hnodes
        cases h
        have hsome : s.pending ≠ none := by simp [hnodes]
        exact onDeploy_effect (hpending hsome) hsome
      · cases h
  | replaceOld =>
      rw [step] at h
      split at h
      · cases h
        refine .calm ⟨fun j t' hj => .inl hj, fun g hg => .inl hg, fun _ => by simp,
          fun id hid => hid, by simp, fun d hd h => isCurrent_of_mapIdx rfl h,
          fun d hd hinactive => ?_, .inl rfl⟩ rfl (.of_events rfl rfl rfl)
        rw [isActive, beq_eq_false_iff_ne] at hinactive ⊢
        intro hactive
        rw [List.getElem?_mapIdx, Option.map_eq_some_iff] at hactive
        obtain ⟨active, hget, hboth⟩ := hactive
        exact hinactive (by rw [hget, (Bool.and_eq_true_iff.mp hboth).1])
      · cases h
  | undeploy =>
      rw [step] at h
      split at h
      · rename_i hnone
        cases h
        refine .calm ⟨fun j t' hj => .inl hj, fun g hg => .inl hg, fun _ => by simp,
          fun id hid => hid, by simp, fun d hd h => ?_, fun d hd hinactive => ?_, .inl hnone⟩ rfl
          (.of_events rfl rfl rfl)
        · rw [isCurrent_of_map_false rfl] at h
          cases h
        · rw [isActive, beq_eq_false_iff_ne]
          intro hactive
          rw [List.getElem?_map, Option.map_eq_some_iff] at hactive
          obtain ⟨active, -, hfalse⟩ := hactive
          cases hfalse
      · cases h
  | borrow d connectionId =>
      rw [step] at h
      split at h
      · rename_i hactive
        cases h
        exact .calm (hself.addTask ⟨lt_of_isActive hactive, .inl hactive⟩ rfl fun hpc => by cases hpc) rfl
          (.of_events rfl rfl rfl)
      · cases h
  | health connectionId op now =>
      rw [step] at h
      split at h
      · cases h
      · rename_i hclears
        cases h
        have hkeeps (record : ConnectionRecord) : (op.apply now record).inUse = record.inUse := by
          rw [(op.frame now record).2, if_neg hclears]
        have hmarks := isMarked_modifyRecord_of_keeps (s := s) (c := connectionId) hkeeps
        obtain ⟨records, hrecords⟩ := modifyRecord_eq (s := s) connectionId (op.apply now)
        rw [hrecords] at hmarks ⊢
        exact .calm (.of_eq rfl (fun g hg => .inl hg) (fun id hid => (hmarks id).trans hid) rfl
          pending_cases) rfl (.of_events rfl rfl rfl)
  | useSession d connectionId opened =>
      rw [step] at h
      split at h
      · rename_i hactive
        split at h
        · cases h
          exact .calm hself rfl (.of_events rfl rfl rfl)
        · rename_i k buses hensure
          cases h
          exact .obtained d k connectionId opened
            (.of_eq rfl (fun g hg => .inl hg) (fun id hid => hid) rfl pending_cases) hensure
            (lt_of_isActive hactive) rfl (.of_events rfl rfl rfl)
      · cases h
  | transformFails d connectionId free =>
      rw [step] at h
      split at h
      · cases h
        exact .removed d connectionId free
          (.of_eq rfl (fun g hg => .inl hg) (fun id hid => hid) rfl pending_cases) rfl rfl rfl rfl rfl
      · cases h
  | guardFires g free =>
      obtain ⟨⟨d, connectionId⟩, hg, h⟩ := Option.bind_eq_some_iff.mp h
      dsimp only at h
      split at h
      · cases h
      · cases h
        refine .removed d connectionId free (.of_eq rfl
          (fun g hg => .inl ((List.eraseIdx_sublist _ _).subset hg)) (fun id hid => hid) rfl
          pending_cases) rfl rfl ?_ rfl ?_
        · simp only [events, hg]
        · rw [sparesSessions, hg, Option.all_some]
  | acquire i now =>
      exact hturn (fun ha => by cases ha; rfl) (fun hd => by cases hd) (fun hb => by cases hb) h
  | disconnect i diagnosis now =>
      exact hturn (fun ha => by cases ha) (fun hd => by cases hd; rfl) (fun hb => by cases hb) h
  | busFails i free =>
      exact hturn (fun ha => by cases ha) (fun hd => by cases hd) (fun hb => by cases hb; rfl) h
  | checkToken i =>
      exact hturn (fun ha => by cases ha) (fun hd => by cases hd) (fun hb => by cases hb) h
  | release i reason now =>
      exact hturn (fun ha => by cases ha) (fun hd => by cases hd) (fun hb => by cases hb) h
  | polled i outcome now =>
      exact hturn (fun ha => by cases ha) (fun hd => by cases hd) (fun hb => by cases hb) h
  | stop i now =>
      exact hturn (fun ha => by cases ha) (fun hd => by cases hd) (fun hb => by cases hb) h
  | ensure i opened =>
      exact hturn (fun ha => by cases ha) (fun hd => by cases hd) (fun hb => by cases hb) h
  | busStops i =>
      exact hturn (fun ha => by cases ha) (fun hd => by cases hd) (fun hb => by cases hb) h

end Redeployed
end Nazh
