import PieRelay.DeviceDrain

/-!
When a drain succeeds. `RegisterDevice` refuses the devices of an owner that is not
active, and a drain registers its device twice: so the drains that the lifecycle webhook
queues, when it has suspended or deleted a user, fail at their first step, and the
sessions stay open. Otherwise a drain does its work exactly if the records it puts back
pass the checks of the control plane and what it stops and disconnects can be reached.
-/
namespace PieRelay.DrainOutcome
open ControlPlane Attempts DeviceDrain Option
open RoomRegistry (Time)
open RelayToken (bind_ok)
open UserLifecycle (validResourceQuota)

structure Registrable (device : Device) : Prop where
  id : validID device.id
  ownerID : validID device.ownerUserID
  kind : device.kind = "local" ∨ device.kind = "docker"
  metadata : validDeviceMetadata device.metadata

structure Reregistered (device record : Device) : Prop where
  id : record.id = device.id
  owner : record.ownerUserID = device.ownerUserID
  kind : record.kind = device.kind
  metadata : record.metadata = device.metadata
  runtime : record.runtimeID = device.runtimeID
  relayNode : record.relayNodeID = device.relayNodeID
  desired : record.desiredState = orElse device.desiredState "running"
  observed : record.observedState = orElse device.observedState "starting"
  client : record.clientConnected = device.clientConnected
  relay : record.relayRegistered = device.relayRegistered

section Devices
variable {s : Service} {now : Time} {device stored : Device}

structure Revises (stored device : Device) : Prop where
  id : device.id = stored.id
  owner : device.ownerUserID = stored.ownerUserID
  runtime : device.runtimeID = stored.runtimeID

theorem register_device_ok {record : Device} (known : s.devices.lookup device.id = some stored)
    (revises : Revises stored device) (put : registerDevice s now device = .ok record) :
    Registrable device ∧ Reregistered device record ∧
      ∃ owner, s.users.lookup device.ownerUserID = some owner ∧ owner.status = .active := by
  simp only [registerDevice, bind_ok, demand_ok, exists_const, decide_eq_true_eq, pure, Except.pure,
    Except.ok.injEq, known] at put
  obtain ⟨⟨id, ownerID, kind, metadata⟩, active, -, rfl⟩ := put
  refine ⟨⟨id, ownerID, kind, metadata⟩, ⟨rfl, rfl, rfl, rfl, ?_, rfl, rfl, rfl, rfl, rfl⟩, ?_⟩
  · simp [orElse, revises.runtime]
  · simpa [any_eq_true] using active

theorem register_device_succeeds {owner : User} (known : s.devices.lookup device.id = some stored)
    (revises : Revises stored device) (registrable : Registrable device)
    (present : s.users.lookup device.ownerUserID = some owner) (active : owner.status = .active) :
    ∃ record, registerDevice s now device = .ok record := by
  simp only [registerDevice, bind_ok, demand_ok, exists_const, decide_eq_true_eq, pure, Except.pure,
    Except.ok.injEq, known, present, any_some, all_some, active]
  exact ⟨_, ⟨registrable.id, registrable.ownerID, registrable.kind, registrable.metadata⟩, trivial,
    revises.owner.symm, rfl⟩

end Devices

section Runtimes
variable {positiveCPUs : String → Bool} {c : Controller} {now : Time} {p : Progress}

structure RuntimeWritable (positiveCPUs : String → Bool) (s : Service) (runtime : RuntimeInstance) :
    Prop where
  id : validID runtime.id
  deviceID : validID runtime.deviceID
  ownerID : validID runtime.ownerUserID
  nodeID : validID runtime.nodeID
  quota : validResourceQuota positiveCPUs runtime.quota
  device : ∃ device, s.devices.lookup runtime.deviceID = some device ∧
    device.ownerUserID = runtime.ownerUserID
  node : (s.nodes.lookup runtime.nodeID).isSome

theorem put_stopped_runtime {s : Service} {runtime : RuntimeInstance}
    (stored : s.runtimes.lookup runtime.id = some runtime) :
    (∃ record, putRuntime positiveCPUs s now (stoppedRuntime now runtime) runtime.version =
      .ok record) ↔ RuntimeWritable positiveCPUs s runtime := by
  have before : s.runtimes.lookup (stoppedRuntime now runtime).id = some runtime := stored
  simp only [putRuntime, bind_ok, demand_ok, exists_const, decide_eq_true_eq, pure, Except.pure,
    Except.ok.injEq, before, elim_some, true_and, any_eq_true]
  constructor
  · rintro ⟨_, ⟨id, deviceID, ownerID, nodeID, quota⟩, ⟨device, node⟩, -⟩
    exact ⟨id, deviceID, ownerID, nodeID, quota, device, node⟩
  · rintro ⟨id, deviceID, ownerID, nodeID, quota, device, node⟩
    exact ⟨_, ⟨id, deviceID, ownerID, nodeID, quota⟩, ⟨device, node⟩, rfl⟩

theorem write_runtime_meets {runtimeID : String} (filed : Filed RuntimeInstance.id p.service.runtimes) :
    Meets (writeRuntime positiveCPUs now runtimeID p) (∀ runtime, p.service.runtimes.lookup runtimeID = some runtime →
        RuntimeWritable positiveCPUs p.service runtime)
      fun q => q.service = { p.service with runtimes := q.service.runtimes } := by
  unfold writeRuntime
  cases known : p.service.runtimes.lookup runtimeID with
  | none => exact meets_of_iff (by simp) (done_meets rfl)
  | some runtime =>
    have stored : p.service.runtimes.lookup runtime.id = some runtime :=
      (filed runtimeID runtime known).symm ▸ known
    have writes : (∃ record, putRuntime positiveCPUs p.service now (stoppedRuntime now runtime)
        runtime.version = .ok record) ↔ RuntimeWritable positiveCPUs p.service runtime :=
      put_stopped_runtime stored
    dsimp only
    cases put : putRuntime positiveCPUs p.service now (stoppedRuntime now runtime) runtime.version with
    | ok record =>
      have writable := writes.mp ⟨record, put⟩
      exact meets_of_iff (by simp [writable]) (done_meets rfl)
    | error =>
      refine failed_meets fun writable => ?_
      obtain ⟨record, answered⟩ := writes.mpr (writable runtime rfl)
      rw [answered] at put
      cases put

theorem runtime_writable_kept {s t : Service} {runtime : RuntimeInstance}
    (owners : (t.devices.lookup runtime.deviceID).map Device.ownerUserID =
      (s.devices.lookup runtime.deviceID).map Device.ownerUserID)
    (nodes : t.nodes = s.nodes) (writable : RuntimeWritable positiveCPUs s runtime) :
    RuntimeWritable positiveCPUs t runtime := by
  obtain ⟨id, deviceID, ownerID, nodeID, quota, device, node⟩ := writable
  refine ⟨id, deviceID, ownerID, nodeID, quota, ?_, nodes ▸ node⟩
  rw [← map_eq_some_iff] at device ⊢
  rw [owners]
  exact device

structure RuntimeStops (positiveCPUs : String → Bool) (c : Controller) (s : Service)
    (device : Device) : Prop where
  executor : stops (c.stopExecutor device.ownerUserID)
  record : ∀ runtime, s.runtimes.lookup device.runtimeID = some runtime →
    RuntimeWritable positiveCPUs s runtime

theorem stop_docker_meets {device : Device} (filed : Filed RuntimeInstance.id p.service.runtimes) :
    Meets (stopDocker positiveCPUs c now device p)
      (device.kind = "docker" → RuntimeStops positiveCPUs c p.service device)
      fun q => q.service = { p.service with runtimes := q.service.runtimes } := by
  unfold stopDocker
  by_cases docker : device.kind = "docker"
  · rw [if_pos docker]
    have written : stops (c.stopExecutor device.ownerUserID) → Meets (writeRuntime positiveCPUs now device.runtimeID p)
          (device.kind = "docker" → RuntimeStops positiveCPUs c p.service device)
          fun q => q.service = { p.service with runtimes := q.service.runtimes } := by
      intro stopped
      refine meets_of_iff ?_ (write_runtime_meets filed)
      exact ⟨fun writable _ => ⟨stopped, writable⟩, fun runs => (runs docker).record⟩
    cases answer : c.stopExecutor device.ownerUserID with
    | none => exact written (by simp [answer, stops])
    | some error =>
      cases error with
      | executorNotFound => exact written (by simp [answer, stops])
      | _ => exact failed_meets fun runs => by simpa [stops, answer] using (runs docker).executor
  · rw [if_neg docker]
    exact meets_of_iff (by simp [docker]) (done_meets rfl)

end Runtimes

def NotConnected (device : Device) : Prop :=
  device.clientConnected = false ∧ device.relayRegistered = false ∧ device.observedState = "stopped"

theorem mark_disconnected_meets {now : Time} {p : Progress} {device : Device} {owner : User}
    (stored : p.service.devices.lookup device.id = some device) (registrable : Registrable device)
    (present : p.service.users.lookup device.ownerUserID = some owner)
    (active : owner.status = .active) :
    Meets (markDisconnected now device.id p) True fun q =>
      q.service.sessions = p.service.sessions ∧
        ∃ record, q.service.devices.lookup device.id = some record ∧ NotConnected record := by
  have known : p.service.devices.lookup (disconnected device).id = some device := stored
  have revises : Revises device (disconnected device) := ⟨rfl, rfl, rfl⟩
  obtain ⟨record, put⟩ : ∃ record, registerDevice p.service now (disconnected device) = .ok record :=
    register_device_succeeds known revises
      ⟨registrable.id, registrable.ownerID, registrable.kind, registrable.metadata⟩ present active
  obtain ⟨-, kept, -⟩ := register_device_ok known revises put
  unfold markDisconnected
  rw [stored]
  dsimp only
  rw [put]
  refine done_meets ⟨rfl, record, ?_, kept.client, kept.relay, kept.observed⟩
  rw [show device.id = record.id from kept.id.symm]
  exact AList.lookup_insert _

section Rewritten
variable {c : Controller} {s : Service} {device record : Device} {session : Session}

theorem rewritten_reads {Value : Type} (read : Device → Value) (same : read record = read device)
    (stored : s.devices.lookup record.id = some device) (id : String) :
    ((rewritten s record).devices.lookup id).map read = (s.devices.lookup id).map read := by
  unfold rewritten
  by_cases here : id = record.id
  · subst here
    rw [AList.lookup_insert, stored, map_some, map_some, same]
  · rw [AList.lookup_insert_ne here]

theorem rewritten_reached (stored : s.devices.lookup record.id = some device)
    (kept : record.relayNodeID = device.relayNodeID) :
    Reached c (rewritten s record) session ↔ Reached c s session := by
  have node : relayNodeOf (rewritten s record) session = relayNodeOf s session := by
    have reads := rewritten_reads Device.relayNodeID kept stored session.deviceID
    have nodes : ∀ found : Option Device, found.elim "" (·.relayNodeID) = (found.map (·.relayNodeID)).getD "" := by
      intro found
      cases found <;> rfl
    unfold relayNodeOf
    rw [nodes, nodes, reads]
  unfold Reached Controller.relayControlAddress
  rw [node]
  rfl

end Rewritten

structure WellFormed (s : Service) : Prop where
  devices : Filed Device.id s.devices
  sessions : Filed Session.id s.sessions
  versions : ∀ session ∈ values s.sessions, 0 < session.version
  participants : Filed Participant.id s.participants
  runtimes : Filed RuntimeInstance.id s.runtimes

/-- The owner is active, and what a drain writes of the device, of its open sessions and of its
    runtime passes the checks of the control plane; whatever has to be stopped or disconnected can
    be. -/
structure Drains (positiveCPUs : String → Bool) (c : Controller) (s : Service) (device : Device)
    (owner : User) : Prop where
  active : owner.status = .active
  registrable : Registrable device
  sessions : ∀ session ∈ values s.sessions, session.deviceID = device.id →
    session.status ≠ .closed → SessionDrains c s device owner session
  docker : device.kind = "docker" → RuntimeStops positiveCPUs c s device

def Drainable (positiveCPUs : String → Bool) (c : Controller) (s : Service) (targetID : String) :
    Prop :=
  ∃ device owner, s.devices.lookup targetID = some device ∧
    s.users.lookup device.ownerUserID = some owner ∧ Drains positiveCPUs c s device owner

def AllClosed (deviceID : String) (s : Service) : Prop :=
  ∀ session ∈ values s.sessions, session.deviceID = deviceID → session.status = .closed

def MarkedDisconnected (deviceID : String) (s : Service) : Prop :=
  ∃ device, s.devices.lookup deviceID = some device ∧ NotConnected device

/-- The operation succeeds, every session of the device is closed, and the device is not
    connected. -/
structure Drained (targetID : String) (outcome : Drain) : Prop where
  succeeded : endStatus outcome = .succeeded
  closed : AllClosed targetID outcome.state.service
  disconnected : MarkedDisconnected targetID outcome.state.service

section Operations
variable {positiveCPUs : String → Bool} {c : Controller} {now : Time} {s : Service}
  {device record : Device} {owner : User} {session : Session}

section
variable (stored : s.devices.lookup record.id = some device) (kept : Reregistered (draining device) record)
include stored kept

theorem rewritten_session_drains :
    SessionDrains c (rewritten s record) record owner session ↔ SessionDrains c s device owner session := by
  have reached : Reached c (rewritten s record) session ↔ Reached c s session :=
    rewritten_reached stored kept.relayNode
  constructor
  · rintro ⟨relay, stops, id, owned, options, target, project⟩
    exact ⟨fun connected => reached.mp (relay connected), stops, id, kept.owner ▸ owned, options,
      kept.kind ▸ target, project⟩
  · rintro ⟨relay, stops, id, owned, options, target, project⟩
    exact ⟨fun connected => reached.mpr (relay connected), stops, id, kept.owner.trans owned, options,
      kept.kind.trans target, project⟩

theorem rewritten_runtime_stops {t : Service}
    (same : t = { rewritten s record with sessions := t.sessions, participants := t.participants }) :
    RuntimeStops positiveCPUs c t record ↔ RuntimeStops positiveCPUs c s device := by
  have ownerID : record.ownerUserID = device.ownerUserID := kept.owner
  have owners : ∀ id, (t.devices.lookup id).map Device.ownerUserID = (s.devices.lookup id).map Device.ownerUserID := by
    intro id
    rw [same]
    exact rewritten_reads Device.ownerUserID ownerID stored id
  have nodes : t.nodes = s.nodes := by
    rw [same]
    rfl
  have runtimes : t.runtimes = s.runtimes := by
    rw [same]
    rfl
  have runtimeID : record.runtimeID = device.runtimeID := kept.runtime
  constructor
  · rintro ⟨executor, records⟩
    rw [runtimes, runtimeID] at records
    exact ⟨ownerID ▸ executor, fun runtime known =>
      runtime_writable_kept (owners _).symm nodes.symm (records runtime known)⟩
  · rintro ⟨executor, records⟩
    rw [← runtimes, ← runtimeID] at records
    exact ⟨ownerID ▸ executor, fun runtime known =>
      runtime_writable_kept (owners _) nodes (records runtime known)⟩

end

/-- The drain from the moment the device is marked as draining. -/
theorem drain_registered_meets (relay : RelayAnswers c) (formed : WellFormed s)
    (stored : s.devices.lookup record.id = some device)
    (kept : Reregistered (draining device) record) (registrable : Registrable device)
    (present : s.users.lookup device.ownerUserID = some owner) (active : owner.status = .active) :
    Meets ((drainSessions c now record.id ⟨rewritten s record, 0, 0⟩).andThen fun p =>
        (stopDocker positiveCPUs c now record p).andThen (markDisconnected now record.id))
      (Drains positiveCPUs c s device owner)
      fun q => AllClosed record.id q.service ∧ MarkedDisconnected record.id q.service := by
  have again : Registrable record :=
    ⟨kept.id ▸ registrable.id, kept.owner ▸ registrable.ownerID, kept.kind ▸ registrable.kind,
      kept.metadata ▸ registrable.metadata⟩
  have known : s.users.lookup record.ownerUserID = some owner := kept.owner ▸ present
  have here : (rewritten s record).devices.lookup record.id = some record := AList.lookup_insert _
  have registered : Registered (rewritten s record) record owner :=
    ⟨here, again.id, again.ownerID, known, by simp [kept.desired, orElse, draining]⟩
  have sessions : Meets (drainSessions c now record.id ⟨rewritten s record, 0, 0⟩)
      (∀ session ∈ values s.sessions, session.deviceID = record.id → session.status ≠ .closed →
        SessionDrains c (rewritten s record) record owner session)
      (Ready (rewritten s record) record []) :=
    drain_sessions_meets relay registered formed.sessions formed.versions formed.participants rfl
  have docker : ∀ p, Ready (rewritten s record) record [] p → Meets (stopDocker positiveCPUs c now record p)
        (device.kind = "docker" → RuntimeStops positiveCPUs c s device)
        fun q => AllClosed record.id q.service ∧
          q.service.devices = (rewritten s record).devices ∧ q.service.users = s.users := by
    intro p ready
    have filed : Filed RuntimeInstance.id p.service.runtimes := by
      rw [ready.same]
      exact formed.runtimes
    refine meets_of_iff ?_ (meets_of_imp ?_ (stop_docker_meets filed))
    · rw [rewritten_runtime_stops stored kept ready.same, kept.kind]
      rfl
    · intro q same
      refine ⟨fun session member own => ?_, by rw [same, ready.same], by rw [same, ready.same]; rfl⟩
      rw [same] at member
      obtain ⟨id, there⟩ := mem_values.mp member
      by_contra opened
      exact List.not_mem_nil (ready.remaining id session there own opened).1
  have mark : ∀ q : Progress, (AllClosed record.id q.service ∧
      q.service.devices = (rewritten s record).devices ∧ q.service.users = s.users) →
      Meets (markDisconnected now record.id q) True fun last =>
        AllClosed record.id last.service ∧ MarkedDisconnected record.id last.service := by
    rintro q ⟨closed, devices, users⟩
    refine meets_of_imp ?_ (mark_disconnected_meets (devices ▸ here) again (users ▸ known) active)
    rintro last ⟨unchanged, marked⟩
    exact ⟨by rwa [AllClosed, unchanged], marked⟩
  refine meets_of_iff ?_ (and_then_meets sessions fun p ready => and_then_meets (docker p ready) mark)
  have drains : ∀ session, SessionDrains c (rewritten s record) record owner session ↔
      SessionDrains c s device owner session := fun session => rewritten_session_drains stored kept
  have sameID : record.id = device.id := kept.id
  simp only [drains, sameID, and_true]
  exact ⟨fun ⟨sessions, docker⟩ => ⟨active, registrable, sessions, docker⟩,
    fun ⟨_, _, sessions, docker⟩ => ⟨sessions, docker⟩⟩

variable (positiveCPUs now) in
theorem device_drain_meets (relay : RelayAnswers c) (formed : WellFormed s) (targetID : String) :
    Meets (deviceDrain positiveCPUs c now s targetID) (Drainable positiveCPUs c s targetID)
      fun q => AllClosed targetID q.service ∧ MarkedDisconnected targetID q.service := by
  unfold deviceDrain
  cases found : s.devices.lookup targetID with
  | none =>
    refine failed_meets ?_
    rintro ⟨device, owner, known, -⟩
    rw [found] at known
    cases known
  | some device =>
    have named : device.id = targetID := formed.devices targetID device found
    subst named
    have known : s.devices.lookup (draining device).id = some device := found
    have revises : Revises device (draining device) := ⟨rfl, rfl, rfl⟩
    dsimp only
    cases put : registerDevice s now (draining device) with
    | error =>
      refine failed_meets ?_
      rintro ⟨other, owner, same, present, drains⟩
      cases found.symm.trans same
      obtain ⟨record, answered⟩ : ∃ record, registerDevice s now (draining device) = .ok record :=
        register_device_succeeds known revises ⟨drains.registrable.id, drains.registrable.ownerID,
          drains.registrable.kind, drains.registrable.metadata⟩ present drains.active
      rw [answered] at put
      cases put
    | ok record =>
      obtain ⟨⟨id, ownerID, kind, metadata⟩, kept, owner, present, active⟩ :=
        register_device_ok known revises put
      have sameID : record.id = device.id := kept.id
      rw [← sameID]
      refine meets_of_iff ?_ (drain_registered_meets relay formed (sameID ▸ found) kept
        ⟨id, ownerID, kind, metadata⟩ present active)
      constructor
      · exact fun drains => ⟨device, owner, sameID ▸ found, present, drains⟩
      · rintro ⟨other, user, same, listed, drains⟩
        rw [sameID, found] at same
        cases same
        cases present.symm.trans listed
        exact drains

variable (positiveCPUs now) in
/-- A drain does its work exactly if the owner is active, what it writes back is in order, and what
    it stops and disconnects can be stopped and reached. -/
theorem device_drain_succeeds (relay : RelayAnswers c) (formed : WellFormed s) (targetID : String) :
    Drained targetID (deviceDrain positiveCPUs c now s targetID) ↔ Drainable positiveCPUs c s targetID := by
  have met := device_drain_meets positiveCPUs now relay formed targetID
  have ends : endStatus (deviceDrain positiveCPUs c now s targetID) = .succeeded ↔
      (deviceDrain positiveCPUs c now s targetID).failure = none := by
    unfold endStatus
    split <;> simp_all
  constructor
  · exact fun drained => met.succeeds.mp (ends.mp drained.succeeded)
  · intro drainable
    have through := met.succeeds.mpr drainable
    exact ⟨ends.mpr through, (met.leaves through).1, (met.leaves through).2⟩

end Operations

section Webhook
open UserLifecycle

variable (positiveCPUs : String → Bool) (hash : LifecycleEvent → String) (settings : Settings)
  (c : Controller)

def drainTargets (s : Service) (userID : String) : List String :=
  ((values s.devices).filter fun device => device.ownerUserID = userID ∧
    ¬ (device.desiredState = "stopped" ∧ device.observedState = "stopped")).map Device.id

def queuedDrains (s : Service) (userID : String) (status : UserStatus) : List String :=
  if status = .active then []
  else if userID ∈ c.executors ∧ ¬ stops (c.stopExecutor userID) then []
  else drainTargets s userID

def userLifecycle (s : Service) (d : Delivery) : Service × List String :=
  match handleUserLifecycle positiveCPUs hash settings (s.users.lookup d.event.userID) d with
  | .applied user =>
    ({ s with users := s.users.insert user.id user }, queuedDrains c s d.event.userID user.status)
  | .duplicate user | .unchanged user => (s, queuedDrains c s d.event.userID user.status)
  | .refused _ | .stale _ => (s, [])

end Webhook

section Samples
open UserLifecycle

def liveSession : Session := { createdSession with status := .active, hostConnectionID := "host-1" }

def guest : Participant :=
  ⟨"session-a:guest-1", "session-a", "visitor", "guest-1", "participant", "view", "relay", 10, 10, 1⟩

def busyService : Service :=
  { freshService with
    sessions := AList.insert "session-a" liveSession ∅
    participants := AList.insert "session-a:guest-1" guest ∅ }

def listed (α : Type) : Listing α := ⟨id, fun _ => .refl _⟩

def reachingController : Controller where
  relayControl := some fun _ _ => true
  relayControlURL := "http://relay"
  executors := ["owner"]
  sessionRuntime := true
  runtimeStopSession := fun _ _ => none
  runtimeStop := fun _ => none
  sessionOrder := listed Session
  participantOrder := listed Participant

theorem reaching_relay : RelayAnswers reachingController := by
  rintro _ ⟨rfl⟩ _ _
  rfl

theorem busy_sessions {session : Session} (member : session ∈ values busyService.sessions) : session = liveSession := by
  have only : values busyService.sessions = [liveSession] := rfl
  rw [only] at member
  exact List.mem_singleton.mp member

theorem busy_well_formed (users : Table User) : WellFormed { busyService with users := users } := by
  refine ⟨filed_insert filed_empty rfl, filed_insert filed_empty rfl, ?_, filed_insert filed_empty rfl, filed_empty⟩
  intro session member
  rw [busy_sessions member]
  decide

theorem device_drain_succeeds_active :
    Drained "desk" (deviceDrain (fun _ => true) reachingController 30 busyService "desk") := by
  refine (device_drain_succeeds (fun _ => true) 30 reaching_relay (busy_well_formed _) "desk").mpr ?_
  refine ⟨desk, owner, rfl, rfl, rfl, ⟨by decide, by decide, Or.inr rfl, by decide⟩, ?_, ?_⟩
  · intro session member _ _
    rw [busy_sessions member]
    exact ⟨fun _ => ⟨rfl, by decide +kernel⟩, fun _ => by decide +kernel, by decide +kernel, rfl,
      by decide +kernel, rfl, by decide +kernel⟩
  · refine fun _ => ⟨by decide +kernel, ?_⟩
    intro runtime stored
    cases stored

def suspendedService : Service × List String :=
  userLifecycle (fun _ => true) (·.id) standardSettings reachingController busyService
    (received suspension)

def suspendedDrain : Drain :=
  deviceDrain (fun _ => true) reachingController 30 suspendedService.1 "desk"

/-- The drain queued for the desk fails; the session stays open and the device connected. -/
theorem suspended_drain_fails : suspendedService.2 = ["desk"] ∧ RelayAnswers reachingController ∧
    endStatus suspendedDrain = .failed ∧
    (suspendedDrain.state.service.sessions.lookup "session-a").map (·.status) = some .active ∧
    (suspendedDrain.state.service.devices.lookup "desk").map (·.clientConnected) = some true ∧
    ¬ Drained "desk" suspendedDrain := by
  have ended : endStatus suspendedDrain = .failed := by decide +kernel
  refine ⟨by decide +kernel, reaching_relay, ended, by decide +kernel, by decide +kernel, ?_⟩
  intro drained
  have succeeded := drained.succeeded
  rw [ended] at succeeded
  cases succeeded

end Samples

end PieRelay.DrainOutcome
