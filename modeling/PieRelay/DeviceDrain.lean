import Mathlib.Data.List.Perm.Basic
import PieRelay.Attempts
import PieRelay.UserLifecycle

/-!
The `device.drain` operation: `executeOperation` of
executor-manager/internal/controller/controller.go, with what it calls of the control
plane and of the manager. Store writes succeed, the operation does not time out, and
nothing else writes while it runs. Whether a call of the relay or of the container
runtime succeeds is a parameter. Of each step it is said exactly when it succeeds.
-/
namespace PieRelay.DeviceDrain
open ControlPlane Attempts List
open RoomRegistry (Time)
open RelayToken (bind_ok)
open UserLifecycle (validUserID validResourceQuota)

def validDeviceMetadata (value : List (String × String)) : Bool :=
  value.length ≤ 32 ∧
    (value.all fun item => item.1 ≠ "" ∧ item.1.utf8ByteSize ≤ 64 ∧ item.2.utf8ByteSize ≤ 24 * 1024) ∧
    (value.map fun item => item.1.utf8ByteSize + item.2.utf8ByteSize).sum ≤ 32 * 1024

def orElse (value fallback : String) : String := if value = "" then fallback else value

def registerDevice (s : Service) (now : Time) (device : Device) : Except ServiceError Device := do
  demand (validID device.id ∧ validID device.ownerUserID ∧
    (device.kind = "local" ∨ device.kind = "docker") ∧ validDeviceMetadata device.metadata) .invalid
  demand ((s.users.lookup device.ownerUserID).any fun user => user.status = .active) .forbidden
  let before := s.devices.lookup device.id
  demand (before.all fun before => before.ownerUserID = device.ownerUserID) .forbidden
  return { device with
    name := orElse device.name device.id
    runtimeID := orElse device.runtimeID (before.elim "" (·.runtimeID))
    desiredState := orElse device.desiredState "running"
    observedState := orElse device.observedState "starting"
    createdAt := before.elim now (·.createdAt)
    updatedAt := now
    version := before.elim 0 (·.version) + 1 }

section PutRuntime
variable (positiveCPUs : String → Bool)

def putRuntime (s : Service) (now : Time) (runtime : RuntimeInstance) (expected : Nat) :
    Except ServiceError RuntimeInstance := do
  demand (validID runtime.id ∧ validID runtime.deviceID ∧ validID runtime.ownerUserID ∧
    validID runtime.nodeID ∧ validResourceQuota positiveCPUs runtime.quota) .invalid
  demand (((s.devices.lookup runtime.deviceID).any fun device =>
    device.ownerUserID = runtime.ownerUserID) ∧ (s.nodes.lookup runtime.nodeID).isSome) .forbidden
  let before := s.runtimes.lookup runtime.id
  demand (before.elim 0 (·.version) = expected) .conflict
  return { runtime with
    desiredState := orElse runtime.desiredState "running"
    observedState := orElse runtime.observedState "provisioning"
    createdAt := before.elim now (·.createdAt)
    updatedAt := now
    version := expected + 1 }

end PutRuntime

/-- A listing of the control plane: every record, in an order the source leaves open where the
    times it sorts by are equal. -/
structure Listing (α : Type) where
  list : List α → List α
  complete : ∀ values, (list values).Perm values

inductive ManagerError where
  | executorNotFound
  | invalidUserID
  | unsupported
  | runtime
  deriving DecidableEq

/-- What a drain finds around the control plane: the relay's control interface if one is
    configured, with the calls that succeed; the executors the manager has; the answers of the
    container runtime. -/
structure Controller where
  relayControl : Option (String → String → Bool)
  relayControlURL : String
  executors : List String
  sessionRuntime : Bool
  runtimeStopSession : String → String → Option ManagerError
  runtimeStop : String → Option ManagerError
  sessionOrder : Listing Session
  participantOrder : Listing Participant

def Controller.stopSession (c : Controller) (userID sessionID : String) : Option ManagerError :=
  if userID ∉ c.executors then some .executorNotFound
  else if ¬ c.sessionRuntime then some .unsupported
  else c.runtimeStopSession userID sessionID

def Controller.stopExecutor (c : Controller) (userID : String) : Option ManagerError :=
  if ¬ validUserID userID then some .invalidUserID
  else if userID ∉ c.executors then some .executorNotFound
  else match c.runtimeStop userID with
    | none | some .executorNotFound => none
    | some error => some error

def stops (answer : Option ManagerError) : Bool := answer.all fun error => error = .executorNotFound

inductive RelayFailure where
  | notConfigured
  | addressUnavailable
  | call
  deriving DecidableEq

inductive DrainFailure where
  | service (error : ServiceError)
  | sessionHost (sessionID : String) (reason : RelayFailure)
  | participant (participantID : String) (reason : RelayFailure)
  | manager (error : ManagerError)
  deriving DecidableEq

def relayNodeControlAddress (node : Node) : String := orElse node.controlAddress node.address

def relayNodeOf (s : Service) (session : Session) : String :=
  orElse session.relayNodeID ((s.devices.lookup session.deviceID).elim "" (·.relayNodeID))

def Controller.relayControlAddress (c : Controller) (s : Service) (session : Session) :
    Option String :=
  let nodeID := relayNodeOf s session
  let address :=
    if nodeID = "" then "" else (s.nodes.lookup nodeID).elim "" relayNodeControlAddress
  if address ≠ "" then some address
  else if c.relayControlURL ≠ "" then some c.relayControlURL
  else none

def Controller.disconnectRelayConnection (c : Controller) (s : Service) (session : Session)
    (connectionID : String) : Option RelayFailure :=
  match c.relayControl with
  | none => some .notConfigured
  | some disconnectConnection =>
    match c.relayControlAddress s session with
    | none => some .addressUnavailable
    | some address => if disconnectConnection address connectionID then none else some .call

structure Progress where
  service : Service
  closedSessions : Nat
  disconnected : Nat

abbrev Drain := Outcome Progress DrainFailure

def disconnectHost (c : Controller) (session : Session) (p : Progress) : Drain :=
  if session.hostConnectionID = "" then done p
  else match c.disconnectRelayConnection p.service session session.hostConnectionID with
    | none => done { p with disconnected := p.disconnected + 1 }
    | some reason => failed p (.sessionHost session.id reason)

def deleteParticipant (s : Service) (id : String) : Service :=
  { s with participants := s.participants.erase id }

def disconnectParticipant (c : Controller) (session : Session) (participant : Participant)
    (p : Progress) : Drain :=
  let answer := if participant.connectionID = "" then none
    else c.disconnectRelayConnection p.service session participant.connectionID
  match answer with
  | none => done { p with
    service := deleteParticipant p.service participant.id
    disconnected := p.disconnected + 1 }
  | some reason => failed p (.participant participant.id reason)

def disconnectParticipants (c : Controller) (session : Session) (p : Progress) : Drain :=
  inTurn (disconnectParticipant c session)
    ((c.participantOrder.list (values p.service.participants)).filter
      (·.sessionID = session.id)) p

def stopDockerSession (c : Controller) (session : Session) (p : Progress) : Drain :=
  if session.executionTarget = "docker" then
    match c.stopSession session.ownerUserID session.id with
    | none | some .executorNotFound => done p
    | some error => failed p (.manager error)
  else done p

def closing (session : Session) : Session :=
  { session with
    status := .closed
    hostConnectionID := ""
    driverUserID := ""
    driverLeaseExpiresAt := none }

/-- A session is read and put again as long as others put it first, so many times. A stored
    session has an id, so none is drawn. -/
def closeControlSession (now : Time) (sessionID : String) : Nat → Service → Except ServiceError Service
  | 0, _ => .error .conflict
  | attempts + 1, s =>
    match s.sessions.lookup sessionID with
    | none => .error .notFound
    | some session =>
      if session.status = .closed then .ok s
      else match putSession s now "" (closing session) session.version false with
        | .ok record => .ok { s with sessions := s.sessions.insert record.id record }
        | .error .conflict => closeControlSession now sessionID attempts s
        | .error error => .error error

def closeSession (now : Time) (session : Session) (p : Progress) : Drain :=
  match closeControlSession now session.id 8 p.service with
  | .ok service => done { p with service := service, closedSessions := p.closedSessions + 1 }
  | .error error => failed p (.service error)

def drainSession (c : Controller) (now : Time) (session : Session) (p : Progress) : Drain :=
  (disconnectHost c session p).andThen fun p =>
  (disconnectParticipants c session p).andThen fun p =>
  (stopDockerSession c session p).andThen (closeSession now session)

def drainSessions (c : Controller) (now : Time) (deviceID : String) (p : Progress) : Drain :=
  inTurn (drainSession c now) ((c.sessionOrder.list (values p.service.sessions)).filter fun session =>
    session.deviceID = deviceID ∧ session.status ≠ .closed) p

def draining (device : Device) : Device :=
  { device with desiredState := "stopped", observedState := "draining" }

def disconnected (device : Device) : Device :=
  { device with
    observedState := "stopped"
    activeSessions := 0
    runtimeRunning := false
    runtimeHealthy := false
    clientConnected := false
    relayRegistered := false }

def stoppedRuntime (now : Time) (runtime : RuntimeInstance) : RuntimeInstance :=
  { runtime with
    desiredState := "stopped"
    observedState := "stopped"
    health := "stopped"
    containerID := ""
    lastError := ""
    lastReconciled := now }

section Operation
variable (positiveCPUs : String → Bool)

def writeRuntime (now : Time) (runtimeID : String) (p : Progress) : Drain :=
  match p.service.runtimes.lookup runtimeID with
  | none => done p
  | some runtime =>
    match putRuntime positiveCPUs p.service now (stoppedRuntime now runtime) runtime.version with
    | .ok record => done { p with service :=
        { p.service with runtimes := p.service.runtimes.insert record.id record } }
    | .error error => failed p (.service error)

def stopDocker (c : Controller) (now : Time) (device : Device) (p : Progress) : Drain :=
  if device.kind = "docker" then
    match c.stopExecutor device.ownerUserID with
    | none | some .executorNotFound => writeRuntime positiveCPUs now device.runtimeID p
    | some error => failed p (.manager error)
  else done p

def rewritten (s : Service) (record : Device) : Service :=
  { s with devices := s.devices.insert record.id record }

/-- The device is read again. One that is gone would be put as a device without an id. -/
def markDisconnected (now : Time) (deviceID : String) (p : Progress) : Drain :=
  match p.service.devices.lookup deviceID with
  | none => failed p (.service .invalid)
  | some device =>
    match registerDevice p.service now (disconnected device) with
    | .ok record => done { p with service := rewritten p.service record }
    | .error error => failed p (.service error)

def deviceDrain (c : Controller) (now : Time) (s : Service) (targetID : String) : Drain :=
  match s.devices.lookup targetID with
  | none => failed ⟨s, 0, 0⟩ (.service .notFound)
  | some device =>
    match registerDevice s now (draining device) with
    | .error error => failed ⟨s, 0, 0⟩ (.service error)
    | .ok device =>
      (drainSessions c now device.id ⟨rewritten s device, 0, 0⟩).andThen fun p =>
      (stopDocker positiveCPUs c now device p).andThen (markDisconnected now device.id)

def endStatus (outcome : Drain) : OperationStore.Status :=
  if outcome.failure = none then .succeeded else .failed

end Operation

def RelayAnswers (c : Controller) : Prop :=
  ∀ disconnectConnection, c.relayControl = some disconnectConnection →
    ∀ address connectionID, disconnectConnection address connectionID

def Reached (c : Controller) (s : Service) (session : Session) : Prop :=
  c.relayControl.isSome ∧ (c.relayControlAddress s session).isSome

def Connected (s : Service) (session : Session) : Prop :=
  session.hostConnectionID ≠ "" ∨ ∃ participant ∈ values s.participants,
    participant.sessionID = session.id ∧ participant.connectionID ≠ ""

def closedRecord (s : Service) (owner : User) (session : Session) : Session :=
  filledIn s owner (takesDefaultContext s (some session) session) (closing session)

structure Closable (s : Service) (device : Device) (owner : User) (session : Session) : Prop where
  id : validID session.id
  owned : device.ownerUserID = session.ownerUserID
  options : validSessionOptions (closedRecord s owner session)
  target : device.kind = session.executionTarget
  project : projectReady s (closedRecord s owner session)

structure SessionDrains (c : Controller) (s : Service) (device : Device) (owner : User)
    (session : Session) : Prop where
  relay : Connected s session → Reached c s session
  stops : session.executionTarget = "docker" →
    stops (c.stopSession session.ownerUserID session.id)
  closable : Closable s device owner session

section Relay
variable {c : Controller} {s t : Service} {session : Session}

theorem disconnect_relay (relay : RelayAnswers c) (connectionID : String) :
    c.disconnectRelayConnection s session connectionID = none ↔ Reached c s session := by
  unfold Controller.disconnectRelayConnection Reached
  cases configured : c.relayControl with
  | none => simp
  | some disconnectConnection =>
    cases known : c.relayControlAddress s session with
    | none => simp
    | some address => simp [relay disconnectConnection configured address connectionID]

theorem reached_of_same (devices : t.devices = s.devices) (nodes : t.nodes = s.nodes) :
    Reached c t session ↔ Reached c s session := by
  unfold Reached Controller.relayControlAddress relayNodeOf
  rw [devices, nodes]

end Relay

section Closing
variable {s : Service} {now : Time} {session : Session} {device : Device} {owner : User}

theorem replace_closed (migrated : Bool) :
    ∃ record, replaceSession now session (filledIn s owner migrated (closing session)) migrated
      session.version false = .ok record := by
  have context : sameContext (if migrated then withContextOf session
      (filledIn s owner migrated (closing session)) else session)
      (filledIn s owner migrated (closing session)) := by
    cases migrated <;> simp [sameContext, filledIn, defaultContext, withContextOf, closing]
  have generation : (filledIn s owner migrated (closing session)).relayGeneration = session.relayGeneration := by
    rw [filled_in_generation]
    rfl
  simp only [replaceSession, bind_ok, demand_ok, exists_const, decide_eq_true_eq, pure, Except.pure, Except.ok.injEq]
  exact ⟨_, trivial, context, Or.inr (Or.inl generation.symm), rfl⟩

theorem id_kept {request : Session} {fresh : String} {expected : Nat} (version : 0 < expected) :
    { request with id := if request.id = "" ∧ expected = 0 then fresh else request.id } = request := by
  rw [if_neg fun unset => Nat.ne_of_gt version unset.2]

theorem put_closed (stored : s.sessions.lookup session.id = some session) (version : 0 < session.version)
    (registered : s.devices.lookup session.deviceID = some device)
    (deviceID : validID session.deviceID) (ownerID : validID device.ownerUserID)
    (known : s.users.lookup device.ownerUserID = some owner) (held : device.desiredState ≠ "revoked") :
    (∃ record, putSession s now "" (closing session) session.version false = .ok record) ↔
      Closable s device owner session := by
  have context : takesDefaultContext s (some session) (closing session) =
      takesDefaultContext s (some session) session := rfl
  have before : s.sessions.lookup (closing session).id = some session := stored
  have there : s.devices.lookup (closing session).deviceID = some device := registered
  unfold putSession
  rw [id_kept version]
  simp only [bind_ok, demand_ok, found_ok, exists_const, decide_eq_true_eq, before, context, there, Option.some.injEq]
  constructor
  · rintro ⟨_, ⟨id, -⟩, _, rfl, user, found, ⟨owned, -⟩, options, target, project, -⟩
    have same : user = owner := by
      have same : s.users.lookup device.ownerUserID = some user := owned ▸ found
      rw [known] at same
      exact (Option.some.inj same).symm
    subst same
    refine ⟨id, owned, options, ?_, project⟩
    rw [target]
    cases takesDefaultContext s (some session) session <;> rfl
  · intro closable
    obtain ⟨record, replaced⟩ : ∃ record, replaceSession now session (closedRecord s owner session)
          (takesDefaultContext s (some session) session) session.version false = .ok record :=
      replace_closed _
    have found : s.users.lookup (closing session).ownerUserID = some owner :=
      closable.owned ▸ known
    refine ⟨record, ⟨closable.id, closable.owned ▸ ownerID, deviceID⟩, device, rfl, owner, found,
      ⟨closable.owned, held⟩, closable.options, ?_, closable.project, replaced⟩
    rw [closable.target]
    cases takesDefaultContext s (some session) session <;> rfl

theorem close_control_step (attempts : Nat) (stored : s.sessions.lookup session.id = some session)
    (opened : session.status ≠ .closed) :
    closeControlSession now session.id (attempts + 1) s =
      match putSession s now "" (closing session) session.version false with
      | .ok record => .ok { s with sessions := s.sessions.insert record.id record }
      | .error .conflict => closeControlSession now session.id attempts s
      | .error error => .error error := by
  rw [closeControlSession, stored]
  exact if_neg opened

/-- The session is put back closed by the first attempt, or by none. -/
theorem close_control_session {attempts : Nat} {t : Service}
    (stored : s.sessions.lookup session.id = some session) (opened : session.status ≠ .closed) :
    closeControlSession now session.id attempts s = .ok t ↔
      0 < attempts ∧ ∃ record, putSession s now "" (closing session) session.version false = .ok record ∧
        t = { s with sessions := s.sessions.insert record.id record } := by
  induction attempts with
  | zero => simp [closeControlSession]
  | succ attempts ih =>
    rw [close_control_step attempts stored opened]
    cases put : putSession s now "" (closing session) session.version false with
    | ok => simp [eq_comm]
    | error error =>
      rw [put] at ih
      cases error with
      | conflict => simpa using ih
      | _ => simp

theorem closed_of_put {record : Session} (version : 0 < session.version)
    (put : putSession s now "" (closing session) session.version false = .ok record) :
    record.id = session.id ∧ record.status = .closed := by
  have made := put_session_ok put
  refine ⟨?_, made.status⟩
  rw [made.id, if_neg fun unset => Nat.ne_of_gt version unset.2]
  rfl

end Closing

structure Held (s : Service) (device : Device) (owner : User) (session : Session) : Prop where
  stored : s.sessions.lookup session.id = some session
  version : 0 < session.version
  opened : session.status ≠ .closed
  registered : s.devices.lookup session.deviceID = some device
  deviceID : validID session.deviceID
  ownerID : validID device.ownerUserID
  known : s.users.lookup device.ownerUserID = some owner
  kept : device.desiredState ≠ "revoked"

theorem close_session_meets {now : Time} {session : Session} {device : Device} {owner : User}
    {p : Progress} (held : Held p.service device owner session) :
    Meets (closeSession now session p) (Closable p.service device owner session) fun q =>
      ∃ record : Session, record.status = .closed ∧
        q.service = { p.service with sessions := p.service.sessions.insert session.id record } := by
  have closes : (∃ record, putSession p.service now "" (closing session) session.version false =
      .ok record) ↔ Closable p.service device owner session :=
    put_closed held.stored held.version held.registered held.deviceID held.ownerID held.known held.kept
  unfold closeSession
  cases answer : closeControlSession now session.id 8 p.service with
  | ok =>
    obtain ⟨-, record, put, rfl⟩ := (close_control_session held.stored held.opened).mp answer
    obtain ⟨sameID, closed⟩ := closed_of_put held.version put
    refine meets_of_iff (iff_of_true trivial (closes.mp ⟨record, put⟩)) (done_meets ?_)
    exact ⟨record, closed, by rw [sameID]⟩
  | error =>
    refine failed_meets fun closable => ?_
    obtain ⟨record, put⟩ := closes.mpr closable
    have answered : closeControlSession now session.id 8 p.service = .ok _ :=
      (close_control_session held.stored held.opened).mpr ⟨by decide, record, put, rfl⟩
    rw [answered] at answer
    cases answer

section Session
variable {c : Controller} {session : Session} {p : Progress}
variable {s : Service}

theorem disconnect_host_meets (relay : RelayAnswers c) :
    Meets (disconnectHost c session p) (session.hostConnectionID ≠ "" → Reached c p.service session)
      fun q => q.service = p.service := by
  unfold disconnectHost
  by_cases idle : session.hostConnectionID = ""
  · rw [if_pos idle]
    exact meets_of_iff (by simp [idle]) (done_meets rfl)
  · rw [if_neg idle]
    have reached : c.disconnectRelayConnection p.service session session.hostConnectionID = none ↔
        Reached c p.service session := disconnect_relay relay _
    cases answer : c.disconnectRelayConnection p.service session session.hostConnectionID with
    | none => exact meets_of_iff (by simp [reached.mp answer]) (done_meets rfl)
    | some =>
      refine failed_meets fun reaches => ?_
      rw [reached.mpr (reaches idle)] at answer
      cases answer

theorem stop_docker_session_meets : Meets (stopDockerSession c session p) (session.executionTarget = "docker" →
      stops (c.stopSession session.ownerUserID session.id)) fun q => q.service = p.service := by
  unfold stopDockerSession
  by_cases docker : session.executionTarget = "docker"
  · rw [if_pos docker]
    cases answer : c.stopSession session.ownerUserID session.id with
    | none => exact meets_of_iff (by simp [stops]) (done_meets rfl)
    | some error =>
      cases error with
      | executorNotFound => exact meets_of_iff (by simp [stops]) (done_meets rfl)
      | _ => exact failed_meets fun stopped => by simpa [stops] using stopped docker
  · rw [if_neg docker]
    exact meets_of_iff (by simp [docker]) (done_meets rfl)

structure Emptied (session : Session) (s t : Service) : Prop where
  same : t = { s with participants := t.participants }
  filed : Filed Participant.id t.participants
  others : ∀ participant : Participant, participant.sessionID ≠ session.id →
    (participant ∈ values t.participants ↔ participant ∈ values s.participants)

theorem emptied_delete {t : Service} {id : String} (emptied : Emptied session s t)
    (own : ∀ participant, t.participants.lookup id = some participant → participant.sessionID = session.id) :
    Emptied session s (deleteParticipant t id) := by
  refine ⟨?_, filed_erase emptied.filed id, fun participant other => ?_⟩
  · rw [emptied.same]
    rfl
  · rw [← emptied.others participant other]
    change participant ∈ values (t.participants.erase id) ↔ _
    rw [filed_mem (filed_erase emptied.filed id), filed_mem emptied.filed]
    by_cases same : participant.id = id
    · subst same
      have absent : t.participants.lookup participant.id ≠ some participant :=
        fun stored => other (own participant stored)
      simp [AList.lookup_erase, absent]
    · rw [AList.lookup_erase_ne same]

theorem emptied_reached {t : Service} (emptied : Emptied session s t) : Reached c t session ↔ Reached c s session := by
  refine reached_of_same ?_ ?_ <;> rw [emptied.same]

def Deletes (session : Session) (rest : List Participant) (t : Service) : Prop :=
  ∀ listed ∈ rest, ∀ participant : Participant, t.participants.lookup listed.id = some participant →
    participant.sessionID = session.id

theorem disconnect_participant_meets (relay : RelayAnswers c) (participant : Participant) (rest : List Participant)
    (ready : Emptied session s p.service ∧ Deletes session (participant :: rest) p.service) :
    Meets (disconnectParticipant c session participant p) (participant.connectionID ≠ "" → Reached c s session)
      fun q => Emptied session s q.service ∧ Deletes session rest q.service := by
  obtain ⟨emptied, deletes⟩ := ready
  have deleted : Deletes session rest (deleteParticipant p.service participant.id) := by
    intro listed member other stored
    exact deletes listed (mem_cons_of_mem participant member) other (lookup_of_erase stored)
  have post := And.intro (emptied_delete emptied (deletes participant mem_cons_self)) deleted
  have reached : c.disconnectRelayConnection p.service session participant.connectionID = none ↔
      Reached c s session := (disconnect_relay relay _).trans (emptied_reached emptied)
  unfold disconnectParticipant
  by_cases idle : participant.connectionID = ""
  · rw [if_pos idle]
    exact meets_of_iff (by simp [idle]) (done_meets post)
  · rw [if_neg idle]
    cases answer : c.disconnectRelayConnection p.service session participant.connectionID with
    | none => exact meets_of_iff (by simp [reached.mp answer]) (done_meets post)
    | some =>
      refine failed_meets fun reaches => ?_
      rw [reached.mpr (reaches idle)] at answer
      cases answer

theorem disconnect_participants_meets (relay : RelayAnswers c) (filed : Filed Participant.id p.service.participants) :
    Meets (disconnectParticipants c session p)
      (∀ participant ∈ values p.service.participants, participant.sessionID = session.id →
        participant.connectionID ≠ "" → Reached c p.service session)
      fun q => Emptied session p.service q.service := by
  have start : Emptied session p.service p.service ∧ Deletes session
      ((c.participantOrder.list (values p.service.participants)).filter (·.sessionID = session.id)) p.service := by
    refine ⟨⟨rfl, filed, fun _ _ => Iff.rfl⟩, fun listed member participant stored => ?_⟩
    obtain ⟨member, own⟩ := mem_filter.mp member
    have same := (filed_mem filed).mp ((c.participantOrder.complete _).mem_iff.mp member)
    rw [stored] at same
    cases same
    simpa using own
  have met := in_turn_meets
    (fun participant : Participant => participant.connectionID ≠ "" → Reached c p.service session)
    (fun rest (q : Progress) => Emptied session p.service q.service ∧ Deletes session rest q.service)
    (fun participant rest q ready => disconnect_participant_meets relay participant rest ready) start
  refine ⟨met.succeeds.trans ?_, fun through => (met.leaves through).1⟩
  simp only [mem_filter, (c.participantOrder.complete _).mem_iff, decide_eq_true_eq, and_imp]

end Session

structure Registered (s : Service) (device : Device) (owner : User) : Prop where
  stored : s.devices.lookup device.id = some device
  id : validID device.id
  ownerID : validID device.ownerUserID
  known : s.users.lookup device.ownerUserID = some owner
  kept : device.desiredState ≠ "revoked"

/-- The loop over the open sessions of a device: those still to come are as they were, and the
    others are closed. -/
structure Ready (s : Service) (device : Device) (rest : List Session) (p : Progress) : Prop where
  same : p.service = { s with
    sessions := p.service.sessions
    participants := p.service.participants }
  distinct : (rest.map Session.id).Nodup
  opened : ∀ session ∈ rest, session.deviceID = device.id ∧ session.status ≠ .closed ∧
    0 < session.version
  stored : ∀ session ∈ rest, p.service.sessions.lookup session.id = some session
  remaining : ∀ id session, p.service.sessions.lookup id = some session →
    session.deviceID = device.id → session.status ≠ .closed → session ∈ rest ∧ session.id = id
  filed : Filed Participant.id p.service.participants
  members : ∀ session ∈ rest, ∀ participant : Participant, participant.sessionID = session.id →
    (participant ∈ values p.service.participants ↔ participant ∈ values s.participants)

section Sessions
variable {c : Controller} {now : Time} {s t : Service} {device : Device} {owner : User}
  {session : Session} {rest : List Session} {p : Progress}

theorem ready_held (registered : Registered s device owner) (ready : Ready s device (session :: rest) p)
    (emptied : Emptied session p.service t) : Held t device owner session := by
  obtain ⟨own, opened, version⟩ := ready.opened session mem_cons_self
  have before := ready.same
  have after := emptied.same
  refine ⟨?_, version, opened, ?_, own ▸ registered.id, registered.ownerID, ?_, registered.kept⟩
  · rw [after]
    exact ready.stored session mem_cons_self
  · rw [after, before, own]
    exact registered.stored
  · rw [after, before]
    exact registered.known

theorem ready_closable (ready : Ready s device (session :: rest) p) (emptied : Emptied session p.service t) :
    Closable t device owner session ↔ Closable s device owner session := by
  have same : t = { s with sessions := p.service.sessions, participants := t.participants } := by
    rw [emptied.same, ready.same]
  rw [same]
  exact ⟨fun ⟨id, owned, options, target, project⟩ => ⟨id, owned, options, target, project⟩,
    fun ⟨id, owned, options, target, project⟩ => ⟨id, owned, options, target, project⟩⟩

theorem ready_closed {q : Progress} {record : Session} (ready : Ready s device (session :: rest) p)
    (emptied : Emptied session p.service t) (closed : record.status = .closed)
    (after : q.service = { t with sessions := t.sessions.insert session.id record }) :
    Ready s device rest q := by
  have sessions : q.service.sessions = p.service.sessions.insert session.id record := by
    rw [after, emptied.same]
  have participants : q.service.participants = t.participants := by rw [after]
  have distinct := nodup_cons.mp ready.distinct
  have other : ∀ later ∈ rest, later.id ≠ session.id := fun later member same =>
    distinct.1 (same ▸ mem_map_of_mem member)
  refine ⟨?_, distinct.2, fun later member => ready.opened later (mem_cons_of_mem _ member),
    ?_, ?_, participants ▸ emptied.filed, ?_⟩
  · rw [after, emptied.same, ready.same]
  · intro later member
    rw [sessions, AList.lookup_insert_ne (other later member)]
    exact ready.stored later (mem_cons_of_mem _ member)
  · intro id later stored own opened
    rw [sessions] at stored
    by_cases here : id = session.id
    · subst here
      rw [AList.lookup_insert] at stored
      cases stored
      exact absurd closed opened
    · rw [AList.lookup_insert_ne here] at stored
      obtain ⟨member, named⟩ := ready.remaining id later stored own opened
      rcases mem_cons.mp member with rfl | there
      · exact absurd named.symm here
      · exact ⟨there, named⟩
  · intro later member participant own
    rw [participants, emptied.others participant (own ▸ other later member)]
    exact ready.members later (mem_cons_of_mem _ member) participant own

theorem drain_session_meets (relay : RelayAnswers c) (registered : Registered s device owner)
    (ready : Ready s device (session :: rest) p) :
    Meets (drainSession c now session p) (SessionDrains c s device owner session) (Ready s device rest) := by
  have reached : Reached c p.service session ↔ Reached c s session := by
    refine reached_of_same ?_ ?_ <;> rw [ready.same]
  have members := ready.members session mem_cons_self
  have host : Meets (disconnectHost c session p)
      (session.hostConnectionID ≠ "" → Reached c s session) fun q => q.service = p.service :=
    meets_of_iff (by rw [reached]) (disconnect_host_meets relay)
  have participants : ∀ q : Progress, q.service = p.service → Meets (disconnectParticipants c session q)
        (∀ participant ∈ values s.participants, participant.sessionID = session.id →
          participant.connectionID ≠ "" → Reached c s session)
        fun r => Emptied session p.service r.service := by
    intro q same
    rw [← same] at reached members ⊢
    refine meets_of_iff ?_ (disconnect_participants_meets relay (same ▸ ready.filed))
    rw [reached]
    refine forall_congr' fun participant => ?_
    exact ⟨fun reaches member own => reaches ((members participant own).mpr member) own,
      fun reaches member own => reaches ((members participant own).mp member) own⟩
  have stop : ∀ r : Progress, Emptied session p.service r.service →
      Meets (stopDockerSession c session r) (session.executionTarget = "docker" →
        stops (c.stopSession session.ownerUserID session.id))
        fun t => Emptied session p.service t.service :=
    fun r emptied => meets_of_imp (fun t (same : t.service = r.service) => same ▸ emptied) stop_docker_session_meets
  have close : ∀ t : Progress, Emptied session p.service t.service →
      Meets (closeSession now session t) (Closable s device owner session) (Ready s device rest) := by
    intro t emptied
    refine meets_of_iff (ready_closable ready emptied) (meets_of_imp ?_
      (close_session_meets (ready_held registered ready emptied)))
    rintro q ⟨record, closed, after⟩
    exact ready_closed ready emptied closed after
  refine meets_of_iff ?_ (and_then_meets host fun q same => and_then_meets (participants q same)
    fun r emptied => and_then_meets (stop r emptied) close)
  constructor
  · rintro ⟨hosted, joined, stopped, closable⟩
    refine ⟨?_, stopped, closable⟩
    rintro (connected | ⟨participant, member, own, connected⟩)
    · exact hosted connected
    · exact joined participant member own connected
  · rintro ⟨reaches, stopped, closable⟩
    exact ⟨fun connected => reaches (Or.inl connected),
      fun participant member own connected => reaches (Or.inr ⟨participant, member, own, connected⟩),
      stopped, closable⟩

/-- Exactly if each open session of the device drains, all are drained, and none is left open. -/
theorem drain_sessions_meets (relay : RelayAnswers c) (registered : Registered s device owner)
    (filed : Filed Session.id s.sessions) (versions : ∀ session ∈ values s.sessions, 0 < session.version)
    (participants : Filed Participant.id s.participants) (same : p.service = s) :
    Meets (drainSessions c now device.id p)
      (∀ session ∈ values s.sessions, session.deviceID = device.id → session.status ≠ .closed →
        SessionDrains c s device owner session)
      (Ready s device []) := by
  have complete := c.sessionOrder.complete (values s.sessions)
  have start : Ready s device ((c.sessionOrder.list (values s.sessions)).filter fun session =>
      session.deviceID = device.id ∧ session.status ≠ .closed) p := by
    refine ⟨by rw [same], ?_, ?_, ?_, ?_, same ▸ participants, ?_⟩
    · have all : ((c.sessionOrder.list (values s.sessions)).map Session.id).Nodup :=
        (complete.map Session.id).nodup_iff.mpr (filed_keys_nodup filed)
      exact all.sublist (filter_sublist.map Session.id)
    · intro session member
      obtain ⟨member, own⟩ := mem_filter.mp member
      simp only [decide_eq_true_eq] at own
      exact ⟨own.1, own.2, versions session (complete.mem_iff.mp member)⟩
    · intro session member
      rw [same]
      exact (filed_mem filed).mp (complete.mem_iff.mp (mem_filter.mp member).1)
    · intro id session stored own opened
      rw [same] at stored
      refine ⟨mem_filter.mpr ⟨complete.mem_iff.mpr (mem_values.mpr ⟨id, stored⟩), ?_⟩, filed id session stored⟩
      simp [own, opened]
    · intro session member participant own
      rw [same]
  unfold drainSessions
  rw [same]
  refine meets_of_iff ?_ (in_turn_meets (SessionDrains c s device owner) (Ready s device)
    (fun session rest q ready => drain_session_meets relay registered ready) start)
  simp only [mem_filter, complete.mem_iff, decide_eq_true_eq, and_imp]

end Sessions

end PieRelay.DeviceDrain
