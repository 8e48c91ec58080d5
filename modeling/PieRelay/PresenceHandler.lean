import PieRelay.DeviceDrain
import PieRelay.Executions
import PieRelay.Retention
import PieRelay.SessionHistory
import PieRelay.SessionQuotas

/-!
`ApplyRelayPresence` of executor-manager/internal/control/service.go from its first line to its
last, and those who write what it writes: the status report of a device, the close of a session,
and the reconciler of the Docker executors as far as it touches the device. Many of them run at
once, in any number of processes. A step is what one of them does without letting go of the
service: it reads in the memory of its process, which holds some stored version of a session and
not always the newest, and hands at most one record to the store. The store takes the record of
a version only over the version before it. What a process has in memory of other records is left
open in each step. Left out: the runtime records and the containers of the reconciler.
-/
namespace PieRelay.PresenceHandler
open Function Executions ControlPlane Retention
open SessionHistory (Call Histories latestVersion seen)
open DeviceDrain (registerDevice validDeviceMetadata closing)
open RoomRegistry (Time)
open RelayToken (second)

structure DeviceHeartbeat where
  observedState : String
  runtimeRunning : Bool
  runtimeHealthy : Bool
  clientConnected : Bool
  relayRegistered : Bool
  relayNodeID : String
  activeSessions : Int
  metadata : List (String × String)

def deriveDeviceState (value : DeviceHeartbeat) : String :=
  if value.runtimeRunning ∧ ¬ value.runtimeHealthy then "degraded"
  else if value.clientConnected ∧ (value.relayRegistered ∨ value.runtimeRunning) then "online"
  else if value.runtimeRunning ∨ value.clientConnected then "degraded"
  else "offline"

def validObservedState (value : String) : Bool :=
  value ∈ ["unassigned", "provisioning", "starting", "online", "degraded", "offline", "draining",
    "stopping", "stopped", "error"]

def composedState (heartbeat : DeviceHeartbeat) : String :=
  if heartbeat.observedState = "" then deriveDeviceState heartbeat else heartbeat.observedState

def heartbeatDevice (s : Service) (now : Time) (id owner : String) (heartbeat : DeviceHeartbeat) :
    Except ServiceError Device := do
  demand (validID id ∧ validDeviceMetadata heartbeat.metadata) .invalid
  let before ← found (s.devices.lookup id) .notFound
  demand (owner = "" ∨ before.ownerUserID = owner) .forbidden
  demand (validObservedState (composedState heartbeat) ∧ 0 ≤ heartbeat.activeSessions) .invalid
  return { before with
    observedState := composedState heartbeat
    runtimeRunning := heartbeat.runtimeRunning
    runtimeHealthy := heartbeat.runtimeHealthy
    clientConnected := heartbeat.clientConnected
    relayRegistered := heartbeat.relayRegistered
    relayNodeID := heartbeat.relayNodeID
    activeSessions := heartbeat.activeSessions
    metadata := if heartbeat.metadata = [] then before.metadata else heartbeat.metadata
    lastHeartbeat := now
    updatedAt := now
    version := before.version + 1 }

variable {s : Service}

theorem heartbeat_device_ok {now : Time} {id owner : String} {heartbeat : DeviceHeartbeat}
    {record : Device} (beat : heartbeatDevice s now id owner heartbeat = .ok record) :
    ∃ before, s.devices.lookup id = some before ∧ record.id = before.id ∧
      record.clientConnected = heartbeat.clientConnected := by
  simp only [heartbeatDevice, RelayToken.bind_ok, demand_ok, found_ok, exists_const, pure, Except.pure,
    Except.ok.injEq] at beat
  obtain ⟨-, before, known, -, -, rfl⟩ := beat
  exact ⟨before, known, rfl, rfl⟩

structure PresenceEvent extends RelayPresence where
  role : String
  access : String

def validEvent (event : PresenceEvent) : Bool :=
  event.eventID ≠ "" ∧ event.connectionID ≠ "" ∧
    (event.kind = "host" ∨ event.kind = "participant" ∨ event.kind = "node")

def scopedSession (s : Service) (event : PresenceEvent) : Option Session :=
  (s.sessions.lookup event.sessionID).filter fun session =>
    session.applicationID = event.applicationID ∧ session.poolID = event.poolID ∧
      session.relayGeneration = event.relayGeneration ∧ (session.applicationID = "" ∨
        session.relayNodeID = "" ∨ session.relayNodeID = event.nodeID)

def hostDevice (s : Service) (event : PresenceEvent) (session : Session) : Option Device :=
  (s.devices.lookup event.deviceID).filter fun device =>
    session.deviceID = device.id ∧ session.ownerUserID = device.ownerUserID ∧
      event.userID = session.ownerUserID

def persistsActivity (now : Time) (event : PresenceEvent) (session : Session) (meaningfulChange : Bool) : Bool :=
  ¬ event.heartbeat ∨ meaningfulChange ∨ 60 * second ≤ now - session.updatedAt

def hostHeartbeat (s : Service) (device : Device) (event : PresenceEvent) : DeviceHeartbeat where
  observedState := if event.hostOnline then "online" else if device.runtimeRunning then "degraded" else "offline"
  runtimeRunning := device.runtimeRunning
  runtimeHealthy := device.runtimeHealthy
  clientConnected := event.hostOnline
  relayRegistered := event.hostOnline
  relayNodeID := event.nodeID
  activeSessions := (values s.sessions).countP fun session =>
    session.deviceID = device.id ∧ session.status = .active
  metadata := device.metadata

def skipsHeartbeat (now : Time) (event : PresenceEvent) (device : Device) (meaningfulChange : Bool) : Bool :=
  event.heartbeat ∧ ¬ meaningfulChange ∧ device.lastHeartbeat ≠ 0 ∧ now - device.lastHeartbeat < 60 * second

def participantID (event : PresenceEvent) : String := event.sessionID ++ ":" ++ event.connectionID

def presentParticipant (event : PresenceEvent) : Participant :=
  ⟨participantID event, event.sessionID, event.userID, event.connectionID, event.role, event.access, "relay",
    event.atTime, 0, 0⟩

/-! The status report of a device, one of the attempts it makes, and of the close of a session. Who may
report is left out: whoever may not is refused. -/

structure StatusReport where
  status : SessionStatus
  selectedTransport : String
  lastError : String

def validReport (report : StatusReport) : Bool :=
  (report.status = .ready ∨ report.status = .closed ∨ report.status = .error) ∧
    report.lastError.utf8ByteSize ≤ 2048 ∧ (report.selectedTransport = "" ∨ report.selectedTransport = "relay")

def reportedSession (now : Time) (report : StatusReport) (session : Session) : Session :=
  if report.status = .ready then
    { session with status := .ready, lastError := "", selectedTransport := "relay", lastActivityAt := now }
  else { session with status := report.status, lastError := report.lastError }

/-- `reportDeviceSessionStatus`: the session it hands to `PutSession`, or `none` when the session is as
    good as ready. -/
def reportDeviceSessionStatus (s : Service) (now : Time) (deviceID sessionID : String) (report : StatusReport) :
    Except ServiceError (Option Session) := do
  let device ← found (s.devices.lookup deviceID) .notFound
  demand (device.kind = "local") .invalid
  demand (validReport report) .invalid
  let session ← found (s.sessions.lookup sessionID) .notFound
  demand (session.deviceID = device.id ∧ session.ownerUserID = device.ownerUserID ∧
    session.executionTarget = "local") .forbidden
  demand ((session.status ≠ .closing ∧ session.status ≠ .closed) ∨ report.status = .closed) .conflict
  if report.status = .ready ∧ (session.status = .active ∨ session.status = .idle) then return none
  return some (reportedSession now report session)

def closeControlSession (s : Service) (sessionID : String) : Except ServiceError (Option Session) := do
  let session ← found (s.sessions.lookup sessionID) .notFound
  if session.status = .closed then return none
  return some (closing session)

theorem close_status {sessionID : String} {request : Session}
    (closed : closeControlSession s sessionID = .ok (some request)) :
    ∃ session, s.sessions.lookup sessionID = some session ∧
      (request.id = session.id ∧ request.version = session.version ∧
        request.relayGeneration = session.relayGeneration) ∧ request.status = .closed := by
  simp only [closeControlSession, RelayToken.bind_ok, found_ok] at closed
  obtain ⟨session, stored, closed⟩ := closed
  split at closed
  · cases closed
  · cases closed
    exact ⟨session, stored, ⟨rfl, rfl, rfl⟩, rfl⟩

structure Executor where
  id : String
  userID : String
  stopped : Bool

def desiredFromExecutor (executor : Executor) : String := if executor.stopped then "stopped" else "running"

def dockerDevice (executor : Executor) : Device where
  id := executor.id
  ownerUserID := executor.userID
  name := "Docker Workspace"
  kind := "docker"
  runtimeID := executor.id
  desiredState := desiredFromExecutor executor
  observedState := "provisioning"
  runtimeRunning := false
  runtimeHealthy := false
  clientConnected := false
  relayRegistered := false
  relayNodeID := ""
  activeSessions := 0
  lastHeartbeat := 0
  metadata := []
  createdAt := 0
  updatedAt := 0
  version := 0

def runtimeDeviceState (runtime : RuntimeInstance) : String :=
  if runtime.observedState = "running" then "degraded"
  else if runtime.observedState = "stopped" then "stopped"
  else if runtime.observedState = "created" ∨ runtime.observedState = "restarting" then "starting"
  else "error"

/-- What the reconciler makes of the device it has read and the runtime it has observed. -/
def runtimeHeartbeat (device : Device) (runtime : RuntimeInstance) : DeviceHeartbeat where
  observedState := if runtime.observedState = "running" then "" else runtimeDeviceState runtime
  runtimeRunning := runtime.observedState = "running"
  runtimeHealthy := runtime.health = "healthy" ∨ runtime.health = "running"
  clientConnected := device.clientConnected
  relayRegistered := device.relayRegistered
  relayNodeID := device.relayNodeID
  activeSessions := device.activeSessions
  metadata := device.metadata

def deviceHeartbeatChanged (device : Device) (heartbeat : DeviceHeartbeat) : Bool :=
  device.observedState ≠ composedState heartbeat ∨ device.runtimeRunning ≠ heartbeat.runtimeRunning ∨
    device.runtimeHealthy ≠ heartbeat.runtimeHealthy ∨ device.clientConnected ≠ heartbeat.clientConnected ∨
    device.relayRegistered ≠ heartbeat.relayRegistered ∨ device.relayNodeID ≠ heartbeat.relayNodeID ∨
    device.activeSessions ≠ heartbeat.activeSessions

def skipsObservation (now : Time) (device : Device) (heartbeat : DeviceHeartbeat) : Bool :=
  ¬ deviceHeartbeatChanged device heartbeat ∧ device.lastHeartbeat ≠ 0 ∧
    now - device.lastHeartbeat < 60 * second

structure Records where
  sessions : Histories
  nodes : Table Node
  devices : Table Device
  participants : Table Participant

inductive Change where
  | nothing
  | node (record : Node)
  | session (record : Session)
  | device (record : Device)
  | participant (record : Participant)
  | noParticipant (before : Participant)

def fits (records : Records) : Change → Bool
  | .nothing => true
  | .node record => (records.nodes.lookup record.id).elim 0 Node.version + 1 = record.version
  | .session record => latestVersion (records.sessions record.id) + 1 = record.version
  | .device record => (records.devices.lookup record.id).elim 0 Device.version + 1 = record.version
  | .participant record =>
    (records.participants.lookup record.id).elim 0 Participant.version + 1 = record.version
  | .noParticipant before =>
    (records.participants.lookup before.id).map Participant.version = some before.version

def write (records : Records) : Change → Records
  | .nothing => records
  | .node record => { records with nodes := records.nodes.insert record.id record }
  | .session record => { records with
    sessions := update records.sessions record.id (record :: records.sessions record.id) }
  | .device record => { records with devices := records.devices.insert record.id record }
  | .participant record => { records with participants := records.participants.insert record.id record }
  | .noParticipant before => { records with participants := records.participants.erase before.id }

structure Ticket where
  process : String
  event : PresenceEvent

inductive Phase where
  | idle
  | waiting (ticket : Ticket)
  | reading (ticket : Ticket)
  | placing (ticket : Ticket) (session : Session)
  | hosting (ticket : Ticket) (session : Session)
  | putting (ticket : Ticket) (request : Session) (device : Device) (meaningfulChange : Bool)
  | beating (ticket : Ticket) (device : Device) (meaningfulChange : Bool)
  | joining (ticket : Ticket)
  | finishing (ticket : Ticket) (force : Bool)
  | ending (ticket : Ticket) (succeeded : Bool)
  | reconciling (executor : Executor)
  | registering (executor : Executor) (device : Device) (existed : Bool)
  | observing (executor : Executor) (device : Device)

/-- A step's record, and where the handler goes on if the store takes it and if it refuses it. -/
structure Turn where
  change : Change
  accepted : Phase
  refused : Phase

def onward (phase : Phase) : Option Turn := some ⟨.nothing, phase, phase⟩

def handing (change : Change) (phase : Phase) : Option Turn := some ⟨change, phase, phase⟩

/-- The moment of a step: the memory of its process, whether `hasGrant` lets the event's user in, and
    the runtime that has been observed. -/
structure Moment where
  call : Call
  granted : Bool
  runtime : RuntimeInstance

def placeNode (m : Moment) (event : PresenceEvent) (online force : Bool) (after failed : Phase) : Option Turn :=
  match updateRelayNode m.call.service m.call.now event.toRelayPresence online force with
  | .ok (some node) => handing (.node node) after
  | .ok none => onward after
  | .error _ => onward failed

def join (m : Moment) (ticket : Ticket) : Option Turn :=
  let s := m.call.service
  let event := ticket.event
  let existing := s.participants.lookup (participantID event)
  if ¬ event.connected then match existing with
    | none => onward (.ending ticket true)
    | some before => some ⟨.noParticipant before, .ending ticket true, .ending ticket false⟩
  else if event.heartbeat ∧ existing.any fun before => m.call.now - before.lastSeenAt < 60 * second then
    onward (.ending ticket true)
  else match SessionQuotas.putParticipant s.sessions s.participants
      ((s.sessions.lookup event.sessionID).bind fun session => s.users.lookup session.ownerUserID) true
      m.granted m.call.now (presentParticipant event) with
    | .ok record => some ⟨.participant record, .finishing ticket (!event.heartbeat), .ending ticket false⟩
    | .error _ => onward (.ending ticket false)

def beat (m : Moment) (ticket : Ticket) (device : Device) (meaningfulChange : Bool) : Option Turn :=
  let event := ticket.event
  if skipsHeartbeat m.call.now event device meaningfulChange then onward (.ending ticket true)
  else match heartbeatDevice m.call.service m.call.now device.id device.ownerUserID
      (hostHeartbeat m.call.service device event) with
    | .ok record => some ⟨.device record, .finishing ticket (!event.heartbeat || meaningfulChange),
        .ending ticket false⟩
    | .error _ => onward (.ending ticket false)

def putPresence (m : Moment) (ticket : Ticket) (request : Session) (device : Device)
    (meaningfulChange : Bool) : Option Turn :=
  match putSession m.call.service m.call.now m.call.fresh request request.version false with
  | .ok record => handing (.session record) (.beating ticket device meaningfulChange)
  | .error .conflict => onward (.beating ticket device meaningfulChange)
  | .error _ => onward (.ending ticket false)

def host (m : Moment) (ticket : Ticket) (session : Session) : Option Turn :=
  match hostDevice m.call.service ticket.event session with
  | none => onward (.ending ticket false)
  | some device =>
    let (updated, meaningfulChange) := hostPresence session ticket.event.toRelayPresence
    if persistsActivity m.call.now ticket.event session meaningfulChange then
      onward (.putting ticket updated device meaningfulChange)
    else onward (.beating ticket device meaningfulChange)

def register (m : Moment) (executor : Executor) (device : Device) (existed : Bool) : Option Turn :=
  match registerDevice m.call.service m.call.now device with
  | .ok record => some ⟨.device record, .observing executor record, .observing executor device⟩
  | .error _ => if existed then onward (.observing executor device) else onward .idle

def observe (m : Moment) (executor : Executor) (device : Device) : Option Turn :=
  let heartbeat := runtimeHeartbeat device m.runtime
  if skipsObservation m.call.now device heartbeat then onward .idle
  else match heartbeatDevice m.call.service m.call.now executor.id executor.userID heartbeat with
    | .ok record => handing (.device record) .idle
    | .error _ => onward .idle

def advance (m : Moment) : Phase → Option Turn
  | .reading ticket =>
    let event := ticket.event
    if event.kind = "node" then
      placeNode m event event.connected (!event.heartbeat) (.ending ticket true) (.ending ticket false)
    else if event.deviceID = "" ∨ event.sessionID = "" then onward (.ending ticket true)
    else match scopedSession m.call.service event with
      | none => onward (.ending ticket false)
      | some session => onward (.placing ticket session)
  | .placing ticket session =>
    placeNode m ticket.event true (!ticket.event.heartbeat)
      (if ticket.event.kind = "host" then .hosting ticket session else .joining ticket) (.ending ticket false)
  | .hosting ticket session => host m ticket session
  | .putting ticket request device meaningfulChange => putPresence m ticket request device meaningfulChange
  | .beating ticket device meaningfulChange => beat m ticket device meaningfulChange
  | .joining ticket => join m ticket
  | .finishing ticket force =>
    placeNode m ticket.event true force (.ending ticket true) (.ending ticket true)
  | .reconciling executor => match m.call.service.devices.lookup executor.id with
    | none => onward (.registering executor (dockerDevice executor) false)
    | some device =>
      if device.runtimeID = "" then onward (.registering executor { device with runtimeID := executor.id } true)
      else onward (.observing executor device)
  | .registering executor device existed => register m executor device existed
  | .observing executor device => observe m executor device
  | .idle => none
  | .waiting _ => none
  | .ending _ _ => none

/-- The parts up to the put of the session, one after the other at one moment, are `applyRelayPresence`. -/
theorem apply_in_parts {now : Time} {event : PresenceEvent} (valid : validEvent event)
    (unseen : event.eventID ∉ s.presenceSeen) (kind : event.kind = "host") (device : event.deviceID ≠ "")
    (session : event.sessionID ≠ "") (request : Session) :
    applyRelayPresence s now event.toRelayPresence = .ok (some request) ↔
      ∃ session node device, scopedSession s event = some session ∧
        updateRelayNode s now event.toRelayPresence true (!event.heartbeat) = .ok node ∧
        hostDevice s event session = some device ∧
        persistsActivity now event session (hostPresence session event.toRelayPresence).2 ∧
        request = (hostPresence session event.toRelayPresence).1 := by
  have known : ¬ (event.eventID ∈ s.presenceSeen ∨ event.kind = "node" ∨ event.deviceID = "" ∨
      event.sessionID = "") := by
    simp [unseen, kind, device, session]
  have isHost : ¬ event.kind ≠ "host" := by simp [kind]
  simp only [applyRelayPresence, RelayToken.bind_ok, demand_ok, exists_const, if_neg known, if_neg isHost,
    found_ok, scopedSession, hostDevice, Option.filter_eq_some_iff]
  constructor
  · rintro ⟨-, session, stored, inScope, node, placed, device, there, owned, last⟩
    split at last
    · rename_i persists
      cases last
      exact ⟨session, node, device, ⟨stored, inScope⟩, placed, ⟨there, owned⟩, by simpa [persistsActivity] using persists, rfl⟩
    · cases last
  · rintro ⟨session, node, device, ⟨stored, inScope⟩, placed, ⟨there, owned⟩, persists, rfl⟩
    refine ⟨valid, session, stored, inScope, node, placed, device, there, owned, ?_⟩
    rw [if_pos (by simpa [persistsActivity] using persists)]
    rfl

/-- `windows` are the events a process remembers, `applied` all that it has applied without an error. A
    handler holds the lock of its event in its process. -/
structure World where
  records : Records
  windows : String → Window String
  applied : String → List String
  locks : String × String → Option String
  calls : String → Phase

inductive Action where
  | begin (call process : String) (event : PresenceEvent)
  | enter (call : String)
  | advance (call : String) (m : Moment)
  | fail (call : String)
  | finish (call : String)
  | report (reading writing : Call) (deviceID sessionID : String) (report : StatusReport)
  | close (reading writing : Call) (sessionID : String)
  | reconcile (call : String) (executor : Executor)

def Ticket.key (ticket : Ticket) : String × String := (ticket.process, ticket.event.eventID)

def moveTo (w : World) (call : String) (phase : Phase) : World :=
  { w with calls := update w.calls call phase }

def begin (w : World) (call process : String) (event : PresenceEvent) : Option World :=
  match w.calls call with
  | .idle => if validEvent event then some (moveTo w call (.waiting ⟨process, event⟩)) else none
  | _ => none

def enter (w : World) (call : String) : Option World :=
  match w.calls call with
  | .waiting ticket =>
    if w.locks ticket.key = none then
      if ticket.event.eventID ∈ (w.windows ticket.process).seen then some (moveTo w call .idle)
      else some (moveTo { w with locks := update w.locks ticket.key (some call) } call (.reading ticket))
    else none
  | _ => none

def settle (w : World) (call : String) (turn : Turn) : World :=
  if fits w.records turn.change then moveTo { w with records := write w.records turn.change } call turn.accepted
  else moveTo w call turn.refused

def failed : Phase → Option Phase
  | .reading ticket => some (.ending ticket false)
  | .placing ticket _ => some (.ending ticket false)
  | .hosting ticket _ => some (.ending ticket false)
  | .putting ticket _ _ _ => some (.ending ticket false)
  | .beating ticket _ _ => some (.ending ticket false)
  | .joining ticket => some (.ending ticket false)
  | .finishing ticket _ => some (.ending ticket true)
  | .reconciling _ => some .idle
  | .registering executor device existed => some (if existed then .observing executor device else .idle)
  | .observing _ _ => some .idle
  | .idle => none
  | .waiting _ => none
  | .ending _ _ => none

/-- Only an event that has been applied without an error is remembered: the last 10000 of a process, of
    which 2000 are forgotten at a time. -/
def finish (w : World) (call : String) : Option World :=
  match w.calls call with
  | .ending ticket succeeded =>
    let left := moveTo { w with locks := update w.locks ticket.key none } call .idle
    if succeeded then some { left with
      windows := update w.windows ticket.process
        (remember 10000 2000 (w.windows ticket.process) ticket.event.eventID)
      applied := update w.applied ticket.process (w.applied ticket.process ++ [ticket.event.eventID]) }
    else some left
  | _ => none

def handOn (w : World) (writing : Call) (request : Except ServiceError (Option Session)) : World :=
  match request with
  | .ok (some request) =>
    match putSession writing.service writing.now writing.fresh request request.version false with
    | .ok record => if fits w.records (.session record) then
        { w with records := write w.records (.session record) } else w
    | .error _ => w
  | _ => w

def reconcile (w : World) (call : String) (executor : Executor) : Option World :=
  match w.calls call with
  | .idle => some (moveTo w call (.reconciling executor))
  | _ => none

def step (w : World) : Action → Option World
  | .begin call process event => begin w call process event
  | .enter call => enter w call
  | .advance call m => if seen w.records.sessions m.call then
      (advance m (w.calls call)).map (settle w call) else none
  | .fail call => (failed (w.calls call)).map (moveTo w call)
  | .finish call => finish w call
  | .report reading writing deviceID sessionID report =>
    if seen w.records.sessions reading ∧ seen w.records.sessions writing then
      some (handOn w writing
        (reportDeviceSessionStatus reading.service reading.now deviceID sessionID report))
    else none
  | .close reading writing sessionID =>
    if seen w.records.sessions reading ∧ seen w.records.sessions writing then
      some (handOn w writing (closeControlSession reading.service sessionID))
    else none
  | .reconcile call executor => reconcile w call executor

def Phase.held : Phase → Option (String × String)
  | .reading ticket => some ticket.key
  | .placing ticket _ => some ticket.key
  | .hosting ticket _ => some ticket.key
  | .putting ticket _ _ _ => some ticket.key
  | .beating ticket _ _ => some ticket.key
  | .joining ticket => some ticket.key
  | .finishing ticket _ => some ticket.key
  | .ending ticket _ => some ticket.key
  | .idle => none
  | .waiting _ => none
  | .reconciling _ => none
  | .registering _ _ _ => none
  | .observing _ _ => none

inductive Hands (m : Moment) : Phase → Change → Prop where
  | nothing (phase : Phase) : Hands m phase .nothing
  | node (phase : Phase) (record : Node) : Hands m phase (.node record)
  | participant (phase : Phase) (record : Participant) : Hands m phase (.participant record)
  | noParticipant (phase : Phase) (before : Participant) : Hands m phase (.noParticipant before)
  | session (ticket : Ticket) (request : Session) (device : Device) (meaningfulChange : Bool) (record : Session)
      (put : putSession m.call.service m.call.now m.call.fresh request request.version false = .ok record) :
      Hands m (.putting ticket request device meaningfulChange) (.session record)
  | host (ticket : Ticket) (device : Device) (meaningfulChange : Bool) (record : Device)
      (due : skipsHeartbeat m.call.now ticket.event device meaningfulChange = false)
      (beat : heartbeatDevice m.call.service m.call.now device.id device.ownerUserID
        (hostHeartbeat m.call.service device ticket.event) = .ok record) :
      Hands m (.beating ticket device meaningfulChange) (.device record)
  | registered (executor : Executor) (device : Device) (existed : Bool) (record : Device)
      (registered : registerDevice m.call.service m.call.now device = .ok record) :
      Hands m (.registering executor device existed) (.device record)
  | observed (executor : Executor) (device record : Device)
      (due : skipsObservation m.call.now device (runtimeHeartbeat device m.runtime) = false)
      (beat : heartbeatDevice m.call.service m.call.now executor.id executor.userID
        (runtimeHeartbeat device m.runtime) = .ok record) :
      Hands m (.observing executor device) (.device record)

inductive Leads (m : Moment) : Phase → Phase → Prop where
  | ended (phase : Phase) (ticket : Ticket) (succeeded : Bool) (held : phase.held = some ticket.key) :
      Leads m phase (.ending ticket succeeded)
  | finishing (phase : Phase) (ticket : Ticket) (force : Bool) (held : phase.held = some ticket.key) :
      Leads m phase (.finishing ticket force)
  | placing (ticket : Ticket) (session : Session)
      (inScope : scopedSession m.call.service ticket.event = some session) :
      Leads m (.reading ticket) (.placing ticket session)
  | hosting (ticket : Ticket) (session : Session) : Leads m (.placing ticket session) (.hosting ticket session)
  | joining (ticket : Ticket) (session : Session) : Leads m (.placing ticket session) (.joining ticket)
  | putting (ticket : Ticket) (session : Session) (device : Device)
      (owned : hostDevice m.call.service ticket.event session = some device) :
      Leads m (.hosting ticket session) (.putting ticket (hostPresence session ticket.event.toRelayPresence).1 device
        (hostPresence session ticket.event.toRelayPresence).2)
  | unchanged (ticket : Ticket) (session : Session) (device : Device)
      (owned : hostDevice m.call.service ticket.event session = some device) :
      Leads m (.hosting ticket session)
        (.beating ticket device (hostPresence session ticket.event.toRelayPresence).2)
  | put (ticket : Ticket) (request : Session) (device : Device) (meaningfulChange : Bool) :
      Leads m (.putting ticket request device meaningfulChange) (.beating ticket device meaningfulChange)
  | created (executor : Executor) :
      Leads m (.reconciling executor) (.registering executor (dockerDevice executor) false)
  | adopted (executor : Executor) (device : Device)
      (known : m.call.service.devices.lookup executor.id = some device) :
      Leads m (.reconciling executor) (.registering executor { device with runtimeID := executor.id } true)
  | known (executor : Executor) (device : Device)
      (known : m.call.service.devices.lookup executor.id = some device) :
      Leads m (.reconciling executor) (.observing executor device)
  | registered (executor : Executor) (device : Device) (existed : Bool) (record : Device)
      (registered : registerDevice m.call.service m.call.now device = .ok record) :
      Leads m (.registering executor device existed) (.observing executor record)
  | unregistered (executor : Executor) (device : Device) (existed : Bool) :
      Leads m (.registering executor device existed) (.observing executor device)
  | reconciled (phase : Phase) (held : phase.held = none) : Leads m phase .idle

structure Turns (m : Moment) (phase : Phase) (turn : Turn) : Prop where
  hands : Hands m phase turn.change
  accepted : Leads m phase turn.accepted
  refused : Leads m phase turn.refused

section Turns
variable {m : Moment} {phase : Phase} {turn : Turn} {ticket : Ticket}
variable {after : Phase} {device : Device}

theorem onward_turns (turned : onward after = some turn) (leads : Leads m phase after) : Turns m phase turn := by
  cases turned
  exact ⟨.nothing phase, leads, leads⟩

theorem place_node_turns {event : PresenceEvent} {online force : Bool} {failed : Phase}
    (turned : placeNode m event online force after failed = some turn) (good : Leads m phase after)
    (bad : Leads m phase failed) : Turns m phase turn := by
  unfold placeNode at turned
  split at turned
  · rename_i node _
    cases turned
    exact ⟨.node phase node, good, good⟩
  · exact onward_turns turned good
  · exact onward_turns turned bad

theorem join_turns (turned : join m ticket = some turn) : Turns m (.joining ticket) turn := by
  have ends : ∀ succeeded, Leads m (.joining ticket) (.ending ticket succeeded) :=
    fun succeeded => .ended _ ticket succeeded rfl
  unfold join at turned
  dsimp only at turned
  split at turned
  · split at turned
    · exact onward_turns turned (ends true)
    · rename_i before _
      cases turned
      exact ⟨.noParticipant _ before, ends true, ends false⟩
  · split at turned
    · exact onward_turns turned (ends true)
    · split at turned
      · rename_i record _
        cases turned
        exact ⟨.participant _ record, .finishing _ ticket _ rfl, ends false⟩
      · exact onward_turns turned (ends false)

theorem beat_turns {meaningfulChange : Bool} (turned : beat m ticket device meaningfulChange = some turn) :
    Turns m (.beating ticket device meaningfulChange) turn := by
  have ends : ∀ succeeded, Leads m (.beating ticket device meaningfulChange) (.ending ticket succeeded) :=
    fun succeeded => .ended _ ticket succeeded rfl
  unfold beat at turned
  dsimp only at turned
  split at turned
  · exact onward_turns turned (ends true)
  · rename_i due
    split at turned
    · rename_i record beat
      cases turned
      exact ⟨.host ticket device meaningfulChange record (by simpa using due) beat, .finishing _ ticket _ rfl,
        ends false⟩
    · exact onward_turns turned (ends false)

theorem put_presence_turns {request : Session} {meaningfulChange : Bool}
    (turned : putPresence m ticket request device meaningfulChange = some turn) :
    Turns m (.putting ticket request device meaningfulChange) turn := by
  have beats : Leads m (.putting ticket request device meaningfulChange) (.beating ticket device meaningfulChange) :=
    .put ticket request device meaningfulChange
  unfold putPresence at turned
  split at turned
  · rename_i record put
    cases turned
    exact ⟨.session ticket request device meaningfulChange record put, beats, beats⟩
  · exact onward_turns turned beats
  · exact onward_turns turned (.ended _ ticket false rfl)

theorem host_turns {session : Session} (turned : host m ticket session = some turn) :
    Turns m (.hosting ticket session) turn := by
  unfold host at turned
  split at turned
  · exact onward_turns turned (.ended _ ticket false rfl)
  · rename_i device owned
    dsimp only at turned
    split at turned
    · exact onward_turns turned (.putting ticket session device owned)
    · exact onward_turns turned (.unchanged ticket session device owned)

theorem register_turns {executor : Executor} {existed : Bool}
    (turned : register m executor device existed = some turn) :
    Turns m (.registering executor device existed) turn := by
  have without : Leads m (.registering executor device existed) (.observing executor device) :=
    .unregistered executor device existed
  unfold register at turned
  split at turned
  · rename_i record registered
    cases turned
    exact ⟨.registered executor device existed record registered, .registered executor device existed record registered,
      without⟩
  · split at turned
    · exact onward_turns turned without
    · exact onward_turns turned (.reconciled _ rfl)

theorem observe_turns {executor : Executor} (turned : observe m executor device = some turn) :
    Turns m (.observing executor device) turn := by
  have ends : Leads m (.observing executor device) .idle := .reconciled _ rfl
  unfold observe at turned
  dsimp only at turned
  split at turned
  · exact onward_turns turned ends
  · rename_i due
    split at turned
    · rename_i record beat
      cases turned
      exact ⟨.observed executor device record (by simpa using due) beat, ends, ends⟩
    · exact onward_turns turned ends

theorem advance_turns (turned : advance m phase = some turn) : Turns m phase turn := by
  cases phase with
  | idle | waiting | ending => cases turned
  | reading ticket =>
    have ends : ∀ succeeded, Leads m (.reading ticket) (.ending ticket succeeded) :=
      fun succeeded => .ended _ ticket succeeded rfl
    simp only [advance] at turned
    split at turned
    · exact place_node_turns turned (ends true) (ends false)
    · split at turned
      · exact onward_turns turned (ends true)
      · split at turned
        · exact onward_turns turned (ends false)
        · rename_i session inScope
          exact onward_turns turned (.placing ticket session inScope)
  | placing ticket session =>
    refine place_node_turns turned ?_ (.ended _ ticket false rfl)
    split
    · exact .hosting ticket session
    · exact .joining ticket session
  | hosting => exact host_turns turned
  | putting => exact put_presence_turns turned
  | beating => exact beat_turns turned
  | joining => exact join_turns turned
  | finishing ticket =>
    exact place_node_turns turned (.ended _ ticket true rfl) (.ended _ ticket true rfl)
  | reconciling executor =>
    simp only [advance] at turned
    split at turned
    · exact onward_turns turned (.created executor)
    · rename_i device known
      split at turned
      · exact onward_turns turned (.adopted executor device known)
      · exact onward_turns turned (.known executor device known)
  | registering => exact register_turns turned
  | observing => exact observe_turns turned

theorem leads_held (leads : Leads m phase after) : after.held = phase.held := by
  cases leads with
  | ended _ _ _ held | finishing _ _ _ held | reconciled _ held => exact held.symm
  | _ => rfl

def Read (sessions : Histories) : Phase → Prop
  | .placing ticket session => session ∈ sessions ticket.event.sessionID
  | .hosting ticket session => session ∈ sessions ticket.event.sessionID
  | .putting ticket request _ _ => ∃ session ∈ sessions ticket.event.sessionID,
      request = (hostPresence session ticket.event.toRelayPresence).1
  | _ => True

theorem leads_read {sessions : Histories} (known : seen sessions m.call) (read : Read sessions phase) (leads : Leads m phase after) : Read sessions after := by
  cases leads with
  | placing ticket session inScope =>
    exact SessionHistory.seen_lookup known (Option.filter_eq_some_iff.mp inScope).1
  | hosting => exact read
  | putting ticket session => exact ⟨session, read, rfl⟩
  | _ => trivial

theorem failed_held (gone : failed phase = some after) : after.held = phase.held ∧ ∀ sessions, Read sessions after := by
  cases phase with
  | registering executor device existed =>
    cases gone
    cases existed <;> exact ⟨rfl, fun _ => trivial⟩
  | idle | waiting | ending => cases gone
  | _ =>
    cases gone
    exact ⟨rfl, fun _ => trivial⟩

end Turns

def hostEvent : PresenceEvent where
  eventID := "e1"
  nodeID := "node-a"
  applicationID := "app"
  poolID := "pool-a"
  publicURL := "relay.internal"
  controlURL := ""
  deviceID := "desk"
  sessionID := "session-a"
  relayGeneration := 1
  userID := "owner"
  connectionID := "c1"
  kind := "host"
  connected := true
  hostOnline := true
  heartbeat := false
  atTime := 9
  role := "host"
  access := "control"

def noRuntime : RuntimeInstance :=
  ⟨"", "", "", "", "", "", "", "", "", "", noQuota, "", "", 0, "", 0, 0, 0⟩

end PieRelay.PresenceHandler
