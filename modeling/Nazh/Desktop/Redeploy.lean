import Nazh.Connections.Effect
import Nazh.Io.Triggers
import Nazh.Lib.Lists

/-!
# Deploying a workflow again

`deploy_workflow` on an id that is deployed runs `on_deploy` of every node of the new deployment
first, and cancels the token of the old one after that. Meanwhile the tasks of both use the same
connections: a listener of the old deployment holds its lease until it finds its token cancelled,
and a session that the new deployment obtained from the cache is the one that the guards of the old
one take out of it.

A step is what happens between two awaits. `on_deploy` of a listener awaits nothing while it has
the lease, and `ensure_shared_session` runs one factory at a time for a connection, so that both
are one step. The map of connections does not change; readings of the clock, what a device answers
and whether a bus can be locked are part of the actions.
-/

namespace Nazh

open Lib

/-- Where the task of a listener stands. -/
inductive ListenerPc
  /-- At the head of its loop. -/
  | waiting
  /-- Before `acquire` or `ensure_session`. -/
  | acquiring
  /-- With a lease. -/
  | listening (borrowedAt : ℤ)
  /-- Cancelled, without its lease, before `mark_disconnected`. -/
  | released
  /-- With the bus of a shared session. -/
  | polling (session : ℕ)
  | returned
  deriving DecidableEq, Repr

/-- The task of a listener, or a call of a transform that borrows its connection. -/
structure ListenerTask where
  deployment : ℕ
  connectionId : String
  kind : ListenerKind
  pc : ListenerPc
  deriving DecidableEq, Repr

namespace ListenerTask

def isListening (t : ListenerTask) : Bool := match t.pc with
  | .listening _ => true
  | _ => false

/-- Whether a task has a lease of a connection. -/
def borrows (t : ListenerTask) (connectionId : String) : Bool :=
  t.connectionId == connectionId && t.isListening

end ListenerTask

/-- A session that a node of a deployment obtained. -/
structure ObtainedSession where
  deployment : ℕ
  connectionId : String
  session : ℕ
  deriving DecidableEq, Repr

/-- The shared CAN sessions. -/
structure CanBuses where
  cached : AList fun _ : String => ℕ
  nextSession : ℕ
  /-- The sessions whose bus was shut down. -/
  closed : List ℕ
  obtained : List ObtainedSession

namespace CanBuses

/-- `ensure_session`: the cached session, or a new one if the bus can be opened. -/
def ensureSession (b : CanBuses) (deployment : ℕ) (connectionId : String)
    (opened : Except EngineError Unit) : Except EngineError (ℕ × CanBuses) :=
  match b.cached.lookup connectionId with
  | some k => .ok (k, { b with obtained := ⟨deployment, connectionId, k⟩ :: b.obtained })
  | none => opened.map fun _ => (b.nextSession,
      { b with
        cached := b.cached.insert connectionId b.nextSession
        nextSession := b.nextSession + 1
        obtained := ⟨deployment, connectionId, b.nextSession⟩ :: b.obtained })

/-- `cleanup_and_remove_shared_session`; the bus stays open if it cannot be locked at once. -/
def cleanupAndRemove (b : CanBuses) (connectionId : String) (free : Bool) : CanBuses :=
  match b.cached.lookup connectionId with
  | some k => { b with
      cached := b.cached.erase connectionId
      closed := if free then k :: b.closed else b.closed }
  | none => b

end CanBuses

/-- The deployments of one workflow. -/
structure Redeployed where
  records : AList fun _ : String => ConnectionRecord
  attemptWindows : AttemptWindows
  buses : CanBuses
  /-- Whether the token of a deployment is still uncancelled. -/
  deployments : List Bool
  /-- The guards of `lifecycle_guard` that wait for their tokens. -/
  guards : List (ℕ × String)
  tasks : List ListenerTask
  /-- The nodes whose `on_deploy` is still to run, during a deployment. -/
  pending : Option (List TriggerNode)

/-- What can happen. -/
inductive RedeployAction
  | deploy
  /-- `on_deploy` of the next node, with what opening a bus would give. -/
  | onDeploy (opened : Except EngineError Unit) (now dropped : ℤ)
  /-- The old deployment is replaced: its token is cancelled. -/
  | replaceOld
  | undeploy
  | checkToken (i : ℕ)
  | acquire (i : ℕ) (now : ℤ)
  /-- A listener that keeps its lease fails. -/
  | release (i : ℕ) (reason : String) (now : ℤ)
  | polled (i : ℕ) (outcome : ConnectionOutcome) (now : ℤ)
  /-- A listener that keeps its lease finds its token cancelled. -/
  | stop (i : ℕ) (now : ℤ)
  | disconnect (i : ℕ) (diagnosis : String) (now : ℤ)
  /-- A transform is about to borrow. -/
  | borrow (d : ℕ) (connectionId : String)
  /-- An operation that clears no mark. -/
  | health (connectionId : String) (op : HealthOp) (now : ℤ)
  | ensure (i : ℕ) (opened : Except EngineError Unit)
  | busStops (i : ℕ)
  | busFails (i : ℕ) (free : Bool)
  /-- A transform of a CAN node obtains the session, or fails and closes it. -/
  | useSession (d : ℕ) (connectionId : String) (opened : Except EngineError Unit)
  | transformFails (d : ℕ) (connectionId : String) (free : Bool)
  | guardFires (g : ℕ) (free : Bool)

namespace Redeployed

variable (parseUrl : UrlParser) (portPath : Value → Except String String)
  (nodes : List TriggerNode)

def isActive (s : Redeployed) (d : ℕ) : Bool := s.deployments[d]? == some true

/-- The newest deployment. -/
def newest (s : Redeployed) : ℕ := s.deployments.length - 1

/-- Whether a deployment is the newest one, and not cancelled. -/
def isCurrent (s : Redeployed) (d : ℕ) : Bool := d == s.newest && s.isActive d

/-- The mark of a lease in the record of a connection. -/
def isMarked (s : Redeployed) (connectionId : String) : Bool :=
  (s.records.lookup connectionId).any ConnectionRecord.inUse

/-- What happens to the record of a connection. -/
def modifyRecord (s : Redeployed) (connectionId : String)
    (f : ConnectionRecord → ConnectionRecord) : Redeployed :=
  match s.records.lookup connectionId with
  | none => s
  | some record => { s with records := s.records.insert connectionId (f record) }

/-- `acquire`. -/
def acquire (s : Redeployed) (connectionId : String) (now : ℤ) :
    Except EngineError ConnectionLease × Redeployed :=
  match s.records.lookup connectionId with
  | none => (.error (.connectionNotFound connectionId), s)
  | some record =>
      let (record, attemptWindows, result) :=
        acquireRecord parseUrl connectionId record s.attemptWindows now
      (result, { s with records := s.records.insert connectionId record, attemptWindows })

def setPc (s : Redeployed) (i : ℕ) (t : ListenerTask) (pc : ListenerPc) : Redeployed :=
  { s with tasks := s.tasks.set i { t with pc } }

/-- The deployment fails: what it has so far is dropped, which cancels its token. -/
def failDeploy (s : Redeployed) : Redeployed :=
  { s with deployments := s.deployments.set s.newest false, pending := none }

/-- The lease of `on_deploy` is given back, and the connection marked invalid if it was found so. -/
def giveBack (s : Redeployed) (connectionId : String) (lease : ConnectionLease) (look : LeaseLook)
    (dropped : ℤ) : Redeployed :=
  let s := s.modifyRecord connectionId
    (finalizeRelease · lease.borrowedAt look.outcome dropped)
  match look.invalid with
  | some reason => s.modifyRecord connectionId (markInvalid · reason dropped)
  | none => s

/-- Where the task of a listener begins. -/
def startPc : ListenerKind → ListenerPc
  | .keeps | .polls => .waiting
  | .shares => .acquiring

/-- `on_deploy` of a listener, after `acquire`. -/
def deployListener (s : Redeployed) (node : TriggerNode) (kind : ListenerKind)
    (rest : List TriggerNode) (lease : ConnectionLease) (dropped : ℤ) : Redeployed :=
  let look := node.look portPath lease
  let s := s.giveBack node.connectionId lease look dropped
  match look.result with
  | .error _ => s.failDeploy
  | .ok () => { s with
      tasks := s.tasks ++ [⟨s.newest, node.connectionId, kind, startPc kind⟩]
      pending := some rest }

/-- `on_deploy` of the next node. -/
def onDeploy (s : Redeployed) (node : TriggerNode) (rest : List TriggerNode)
    (opened : Except EngineError Unit) (now dropped : ℤ) : Redeployed :=
  match node.listener with
  | some kind => match s.acquire parseUrl node.connectionId now with
    | (.error _, s) => s.failDeploy
    | (.ok lease, s) => s.deployListener portPath node kind rest lease dropped
  | none => match s.buses.ensureSession s.newest node.connectionId opened with
    | .error _ => s.failDeploy
    | .ok (_, buses) => { s with
        buses
        guards := s.guards ++ [(s.newest, node.connectionId)]
        pending := some rest }

/-- A step of a task. -/
def stepTask (s : Redeployed) (i : ℕ) (t : ListenerTask) : RedeployAction → Option Redeployed
  | .checkToken _ => match t.pc with
    | .waiting =>
        some (s.setPc i t (if s.isActive t.deployment then .acquiring else .returned))
    | _ => none
  | .acquire _ now => match t.pc with
    | .acquiring =>
        if t.kind = .shares then none
        else match s.acquire parseUrl t.connectionId now with
          | (.error _, s) => some (s.setPc i t .waiting)
          | (.ok lease, s) => some (s.setPc i t (.listening lease.borrowedAt))
    | _ => none
  | .release _ reason now => match t.pc with
    | .listening borrowedAt =>
        if t.kind = .keeps then
          some ((s.modifyRecord t.connectionId
            (finalizeRelease · borrowedAt (.failure reason) now)).setPc i t .waiting)
        else none
    | _ => none
  | .polled _ outcome now => match t.pc with
    | .listening borrowedAt =>
        if t.kind = .polls then
          some ((s.modifyRecord t.connectionId
            (finalizeRelease · borrowedAt outcome now)).setPc i t .waiting)
        else none
    | _ => none
  | .stop _ now => match t.pc with
    | .listening borrowedAt =>
        if t.kind = .keeps ∧ s.isActive t.deployment = false then
          some ((s.modifyRecord t.connectionId
            (finalizeRelease · borrowedAt .success now)).setPc i t .released)
        else none
    | _ => none
  | .disconnect _ diagnosis now => match t.pc with
    | .released =>
        some ((s.modifyRecord t.connectionId (markDisconnected · diagnosis now)).setPc i t .returned)
    | _ => none
  | .ensure _ opened => match t.pc with
    | .acquiring =>
        if t.kind = .shares then
          match s.buses.ensureSession t.deployment t.connectionId opened with
          | .error _ => some (s.setPc i t .returned)
          | .ok (k, buses) => some ({ s with buses }.setPc i t (.polling k))
        else none
    | _ => none
  | .busStops _ => match t.pc with
    | .polling _ => if s.isActive t.deployment then none else some (s.setPc i t .returned)
    | _ => none
  | .busFails _ free => match t.pc with
    | .polling _ =>
        some ({ s with buses := s.buses.cleanupAndRemove t.connectionId free }.setPc i t .returned)
    | _ => none
  | _ => none

/-- One step. -/
def step (s : Redeployed) (a : RedeployAction) : Option Redeployed :=
  match a with
  | .deploy =>
      if s.pending = none then
        some { s with deployments := s.deployments ++ [true], pending := some nodes }
      else none
  | .onDeploy opened now dropped => match s.pending with
    | some (node :: rest) => some (s.onDeploy parseUrl portPath node rest opened now dropped)
    | _ => none
  | .replaceOld => match s.pending with
    | some [] => some { s with
        deployments := s.deployments.mapIdx fun d active => active && d == s.newest
        pending := none }
    | _ => none
  | .undeploy =>
      if s.pending = none then some { s with deployments := s.deployments.map fun _ => false }
      else none
  | .borrow d connectionId =>
      if s.isActive d then
        some { s with tasks := s.tasks ++ [⟨d, connectionId, .polls, .acquiring⟩] }
      else none
  | .health connectionId op now =>
      if op.clears then none else some (s.modifyRecord connectionId (op.apply now))
  | .useSession d connectionId opened =>
      if s.isActive d then match s.buses.ensureSession d connectionId opened with
        | .error _ => some s
        | .ok (_, buses) => some { s with buses }
      else none
  | .transformFails d connectionId free =>
      if d < s.deployments.length then
        some { s with buses := s.buses.cleanupAndRemove connectionId free }
      else none
  | .guardFires g free => (s.guards[g]?).bind fun (d, connectionId) =>
      if s.isActive d then none
      else some { s with
        buses := s.buses.cleanupAndRemove connectionId free
        guards := s.guards.eraseIdx g }
  | .checkToken i | .acquire i _ | .release i _ _ | .polled i _ _ | .stop i _
  | .disconnect i _ _ | .ensure i _ | .busStops i | .busFails i _ =>
      (s.tasks[i]?).bind fun t => s.stepTask parseUrl i t a

/-- Nothing of the workflow is deployed. -/
structure AtRest (s : Redeployed) : Prop where
  deployments_none : s.deployments = []
  guards_none : s.guards = []
  tasks_none : s.tasks = []
  pending_none : s.pending = none
  obtained_none : s.buses.obtained = []
  cached_issued : ∀ id k, s.buses.cached.lookup id = some k → k < s.buses.nextSession
  cached_inj : ∀ id id' k, s.buses.cached.lookup id = some k →
    s.buses.cached.lookup id' = some k → id = id'
  cached_open : ∀ id k, s.buses.cached.lookup id = some k → k ∉ s.buses.closed
  closed_issued : ∀ k ∈ s.buses.closed, k < s.buses.nextSession

def machine : Machine Redeployed RedeployAction := ⟨AtRest, step parseUrl portPath nodes⟩

/-! ## What the newest deployment may rely on -/

/-- What is seen of a step. -/
inductive Event
  /-- `on_deploy` of a node failed: the tasks of older deployments with the lease that it was
  refused, and how it would have failed without them. -/
  | refused (error : EngineError) (blockers : List ListenerTask) (alone : Option EngineError)
  /-- A node or a guard of a deployment took a session out of the cache. -/
  | removed (deployment session : ℕ)

/-- How `on_deploy` of a node fails. -/
def onDeployError (s : Redeployed) (node : TriggerNode) (opened : Except EngineError Unit)
    (now : ℤ) : Option EngineError :=
  match node.listener with
  | some _ => match (s.acquire parseUrl node.connectionId now).1 with
    | .error e => some (node.acquireError e)
    | .ok lease => match (node.look portPath lease).result with
      | .error e => some e
      | .ok () => none
  | none => match s.buses.ensureSession s.newest node.connectionId opened with
    | .error e => some e
    | .ok _ => none

/-- The tasks of older or cancelled deployments that have a lease of a connection. -/
def oldHolders (s : Redeployed) (connectionId : String) : List ListenerTask :=
  s.tasks.filter fun t => t.borrows connectionId && !s.isCurrent t.deployment

/-- The tasks of the newest deployment that have one. -/
def newHolders (s : Redeployed) (connectionId : String) : List ListenerTask :=
  s.tasks.filter fun t => t.borrows connectionId && s.isCurrent t.deployment

/-- The older tasks on whose account a node is refused its lease. -/
def blockers (s : Redeployed) (node : TriggerNode) : List ListenerTask :=
  if node.listener.isSome && s.isMarked node.connectionId then s.oldHolders node.connectionId
  else []

/-- The state in which the older tasks had given back the lease that a node is about to ask for. -/
def withoutBlockers (s : Redeployed) (node : TriggerNode) : Redeployed :=
  if s.blockers node = [] then s
  else s.modifyRecord node.connectionId fun record => { record with inUse := false }

/-- The session that a removal takes out of the cache. -/
def removal (s : Redeployed) (d : ℕ) (connectionId : String) : List Event :=
  ((s.buses.cached.lookup connectionId).map (Event.removed d)).toList

/-- What a step shows. -/
def events (s : Redeployed) (a : RedeployAction) (_ : Redeployed) : List Event :=
  match a with
  | .onDeploy opened now _ => match s.pending with
    | some (node :: _) => ((s.onDeployError parseUrl portPath node opened now).map fun e =>
        .refused e (s.blockers node)
          ((s.withoutBlockers node).onDeployError parseUrl portPath node opened now)).toList
    | _ => []
  | .busFails i _ => match s.tasks[i]? with
    | some t => s.removal t.deployment t.connectionId
    | none => []
  | .transformFails d connectionId _ => s.removal d connectionId
  | .guardFires g _ => match s.guards[g]? with
    | some (d, connectionId) => s.removal d connectionId
    | none => []
  | _ => []

/-- No `on_deploy` failed on account of a lease of an older deployment, or where it would have
gone through without one. -/
def RefusedAlone (log : List Event) : Prop :=
  ∀ e blockers alone, .refused e blockers alone ∈ log → blockers = [] ∧ alone.isSome = true

/-- The listeners of the newest deployment have their leases to themselves. -/
def LeasesKept (s : Redeployed) : Prop :=
  ∀ i t, s.tasks[i]? = some t → s.isCurrent t.deployment = true → t.isListening = true →
    s.isMarked t.connectionId = true ∧
      ∀ (j : ℕ) (u : ListenerTask), s.tasks[j]? = some u → u.borrows t.connectionId = true → j = i

/-- The sessions that the newest deployment obtained are in the cache, and open, unless it took
them out itself. -/
def SessionsKept (s : Redeployed) (log : List Event) : Prop :=
  ∀ o ∈ s.buses.obtained, s.isCurrent o.deployment = true →
    s.buses.cached.lookup o.connectionId = some o.session ∧ o.session ∉ s.buses.closed ∨
      .removed o.deployment o.session ∈ log

/-- The newest deployment goes on as if it were the only one. -/
structure Unharmed (s : Redeployed) (log : List Event) : Prop where
  refused : RefusedAlone log
  leases : s.LeasesKept
  sessions : s.SessionsKept log

/-! ## Which steps spare the newest deployment -/

/-- A node is asked for a lease that no older task has. -/
def asksFree (s : Redeployed) : RedeployAction → Bool
  | .onDeploy _ _ _ => match s.pending with
    | some (node :: _) => (s.blockers node).isEmpty
    | _ => true
  | _ => true

/-- A listener of the newest deployment is granted a lease that no other task has, and a listener
that stops marks a connection as disconnected that the newest deployment has no lease of. -/
def sparesLeases (s : Redeployed) : RedeployAction → Bool
  | .acquire i now => (s.tasks[i]?).all fun t =>
      !s.isCurrent t.deployment || (s.oldHolders t.connectionId).isEmpty ||
        !(s.acquire parseUrl t.connectionId now).1.isOk
  | .disconnect i _ _ => (s.tasks[i]?).all fun t => (s.newHolders t.connectionId).isEmpty
  | _ => true

/-- The session of a connection is one that the newest deployment did not obtain, if another one
takes it out of the cache. -/
def sparesSession (s : Redeployed) (d : ℕ) (connectionId : String) : Bool :=
  s.isCurrent d || (s.buses.cached.lookup connectionId).all fun k =>
    s.buses.obtained.all fun o => !(s.isCurrent o.deployment && o.session == k)

def sparesSessions (s : Redeployed) : RedeployAction → Bool
  | .busFails i _ => (s.tasks[i]?).all fun t => s.sparesSession t.deployment t.connectionId
  | .transformFails d connectionId _ => s.sparesSession d connectionId
  | .guardFires g _ => (s.guards[g]?).all fun (d, connectionId) => s.sparesSession d connectionId
  | _ => true

/-- The steps that leave the newest deployment unharmed. -/
def sparesNewest (s : Redeployed) (a : RedeployAction) : Bool :=
  s.asksFree a && s.sparesLeases parseUrl a && s.sparesSessions a

/-- Nothing is left of the deployments before a new one begins, and of their transforms after. -/
def undeploysFirst (s : Redeployed) : RedeployAction → Bool
  | .deploy => s.deployments.all (!·) && s.guards.isEmpty && s.tasks.all fun t => t.pc == .returned
  | .transformFails d _ _ => d == s.newest
  | _ => true

variable {parseUrl portPath nodes} {s s' : Redeployed} {a : RedeployAction} {log : List Event}

/-! ## The newest deployment -/

theorem isCurrent_iff {d : ℕ} :
    s.isCurrent d = true ↔ d = s.newest ∧ s.deployments[d]? = some true := by
  rw [isCurrent, isActive, Bool.and_eq_true, beq_iff_eq, beq_iff_eq]

theorem isCurrent_congr (h : s'.deployments = s.deployments) (d : ℕ) :
    s'.isCurrent d = s.isCurrent d := by
  rw [isCurrent, isCurrent, newest, newest, isActive, isActive, h]

/-- A deployment that failed is not current. -/
theorem isCurrent_failDeploy (d : ℕ) : s.failDeploy.isCurrent d = false := by
  refine Bool.eq_false_iff.mpr fun h => ?_
  obtain ⟨rfl, hactive⟩ := isCurrent_iff.mp h
  have hnewest : s.failDeploy.newest = s.newest := by
    rw [newest, failDeploy, List.length_set, newest]
  rw [hnewest, failDeploy, List.getElem?_set] at hactive
  split at hactive
  · split at hactive
    · cases hactive
    · cases hactive
  · rename_i hne
    exact hne rfl

/-- The deployments before a new one are not current. -/
theorem isCurrent_concat {d : ℕ} (hs : s'.deployments = s.deployments ++ [true])
    (hd : d < s.deployments.length) : s'.isCurrent d = false := by
  refine Bool.eq_false_iff.mpr fun h => ?_
  obtain ⟨heq, -⟩ := isCurrent_iff.mp h
  rw [newest, hs, List.length_append, List.length_singleton, Nat.add_sub_cancel] at heq
  exact Nat.lt_irrefl _ (heq ▸ hd)

/-- Once the old deployments are cancelled, the new one is as current as before. -/
theorem isCurrent_of_mapIdx {d : ℕ}
    (hs : s'.deployments = s.deployments.mapIdx fun d active => active && d == s.newest)
    (h : s'.isCurrent d = true) : s.isCurrent d = true := by
  obtain ⟨heq, hactive⟩ := isCurrent_iff.mp h
  rw [newest, hs, List.length_mapIdx] at heq
  rw [hs, List.getElem?_mapIdx, Option.map_eq_some_iff] at hactive
  obtain ⟨active, hget, hboth⟩ := hactive
  refine isCurrent_iff.mpr ⟨heq, ?_⟩
  rw [hget, (Bool.and_eq_true_iff.mp hboth).1]

/-- Nothing is current after an undeployment. -/
theorem isCurrent_of_map_false {d : ℕ}
    (hs : s'.deployments = s.deployments.map fun _ => false) : s'.isCurrent d = false := by
  refine Bool.eq_false_iff.mpr fun h => ?_
  obtain ⟨-, hactive⟩ := isCurrent_iff.mp h
  rw [hs, List.getElem?_map, Option.map_eq_some_iff] at hactive
  obtain ⟨active, -, hfalse⟩ := hactive
  cases hfalse

/-! ## Records -/

theorem isMarked_of_insert {id c : String} {record : ConnectionRecord}
    (h : s'.records = s.records.insert c record) :
    s'.isMarked id = if id = c then record.inUse else s.isMarked id := by
  by_cases hid : id = c
  · rw [if_pos hid, hid, isMarked, h, AList.lookup_insert, Option.any_some]
  · rw [if_neg hid, isMarked, h, AList.lookup_insert_ne hid, isMarked]

/-- What happens to one record leaves the rest of the state as it was. -/
theorem modifyRecord_eq (c : String) (f : ConnectionRecord → ConnectionRecord) :
    ∃ records, s.modifyRecord c f = { s with records } := by
  rw [modifyRecord]
  split
  · exact ⟨s.records, rfl⟩
  · exact ⟨_, rfl⟩

/-- Another connection keeps its mark. -/
theorem isMarked_modifyRecord_ne {id c : String} (f : ConnectionRecord → ConnectionRecord)
    (hid : id ≠ c) : (s.modifyRecord c f).isMarked id = s.isMarked id := by
  rw [modifyRecord]
  split
  · rfl
  · rw [isMarked_of_insert rfl, if_neg hid]

/-- What leaves the mark of a record alone leaves all marks alone. -/
theorem isMarked_modifyRecord_of_keeps {c : String} {f : ConnectionRecord → ConnectionRecord}
    (hf : ∀ record, (f record).inUse = record.inUse) (id : String) :
    (s.modifyRecord c f).isMarked id = s.isMarked id := by
  by_cases hid : id = c
  · subst hid
    rw [modifyRecord]
    split
    · rfl
    · rename_i record hrecord
      rw [isMarked_of_insert rfl, if_pos rfl, hf, isMarked, hrecord, Option.any_some]
  · exact isMarked_modifyRecord_ne f hid

/-- What clears the mark of a record clears that of its connection. -/
theorem isMarked_modifyRecord_of_clears {c : String} {f : ConnectionRecord → ConnectionRecord}
    (hf : ∀ record, (f record).inUse = false) : (s.modifyRecord c f).isMarked c = false := by
  rw [modifyRecord]
  split
  · rename_i hnone
    rw [isMarked, hnone, Option.any_none]
  · rw [isMarked_of_insert rfl, if_pos rfl, hf]

/-- What an acquire does: it is refused and changes no mark, or it marks a connection that was
not marked. -/
inductive AcquireEffect (s : Redeployed) (c : String) :
    Except EngineError ConnectionLease × Redeployed → Prop
  | refused (e : EngineError) (records : AList fun _ : String => ConnectionRecord)
      (attemptWindows : AttemptWindows) :
      (∀ id, isMarked { s with records, attemptWindows } id = s.isMarked id) →
      AcquireEffect s c (.error e, { s with records, attemptWindows })
  | granted (lease : ConnectionLease) (records : AList fun _ : String => ConnectionRecord)
      (attemptWindows : AttemptWindows) : s.isMarked c = false →
      (∀ id, isMarked { s with records, attemptWindows } id = if id = c then true else s.isMarked id) →
      AcquireEffect s c (.ok lease, { s with records, attemptWindows })

theorem acquire_effect (parseUrl : UrlParser) (s : Redeployed) (c : String) (now : ℤ) :
    s.AcquireEffect c (s.acquire parseUrl c now) := by
  rw [acquire]
  split
  · exact .refused _ s.records s.attemptWindows fun id => rfl
  · rename_i record hrecord
    have hmarked : s.isMarked c = record.inUse := by rw [isMarked, hrecord, Option.any_some]
    have hcases := acquireRecord_cases parseUrl c record s.attemptWindows now
    generalize acquireRecord parseUrl c record s.attemptWindows now = out at hcases ⊢
    obtain ⟨record', attemptWindows, result⟩ := out
    dsimp only at hcases ⊢
    obtain ⟨e, rfl, hhealth⟩ | ⟨hfree, hlent, -, lease, rfl, -⟩ := hcases
    · refine .refused e _ _ fun id => ?_
      rw [isMarked_of_insert rfl]
      by_cases hid : id = c
      · rw [if_pos hid, hid, hmarked, hhealth.inUse]
      · rw [if_neg hid]
    · refine .granted lease _ _ (hmarked.trans hfree) fun id => ?_
      rw [isMarked_of_insert rfl, hlent]

/-- A marked connection is not lent. -/
theorem acquire_of_isMarked (parseUrl : UrlParser) (now : ℤ) {c : String}
    (h : s.isMarked c = true) : ∃ e, (s.acquire parseUrl c now).1 = .error e := by
  cases hacquire : s.acquire parseUrl c now with
  | mk result t =>
      have heffect := acquire_effect parseUrl s c now
      rw [hacquire] at heffect
      cases heffect with
      | refused e records attemptWindows hmarks => exact ⟨e, rfl⟩
      | granted lease records attemptWindows hfree hmarks =>
          rw [hfree] at h
          cases h

end Redeployed
end Nazh
