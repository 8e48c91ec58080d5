import Mathlib.Data.List.AList
import Mathlib.Data.List.Sort
import PieRelay.OperationStore
import PieRelay.RelayToken

/-!
Records of the control plane, executor-manager/internal/control: model.go and the parts
of service.go that read and write sessions. A `Service` is what one manager process has
in memory. The functions here decide what is written; whether the store takes it is up
to the store, which compares versions. A map is a table by record id. Left out: labels,
regions, the audit trail, and the events emitted to subscribers.
-/
namespace PieRelay.ControlPlane
open RoomRegistry
open RelayToken (bind_ok second)

inductive ServiceError where
  | invalid
  | notFound
  | forbidden
  | conflict
  | quota
  | noRelayCapacity
  deriving DecidableEq

def demand (condition : Bool) (error : ServiceError) : Except ServiceError Unit :=
  if condition then .ok () else .error error

def found {α : Type} (value : Option α) (error : ServiceError) : Except ServiceError α :=
  match value with
  | some value => .ok value
  | none => .error error

variable {now : Time} {expected : Nat}

@[simp] theorem demand_ok {condition : Bool} {error : ServiceError} {done : Unit} :
    demand condition error = .ok done ↔ condition := by
  cases condition <;> simp [demand]

@[simp] theorem found_ok {α : Type} {value : Option α} {error : ServiceError} {result : α} :
    found value error = .ok result ↔ value = some result := by
  cases value <;> simp [found]

theorem to_option_ok {Value : Type} {result : Except ServiceError Value} {value : Value}
    (ok : result.toOption = some value) : result = .ok value := by
  cases result with
  | ok =>
    cases ok
    rfl
  | error => cases ok

structure ResourceQuota where
  cpus : String
  memoryBytes : Int
  pids : Int
  diskBytes : Int
  maxSessions : Int
  maxParticipants : Int
  deriving DecidableEq

/-- `unknown` is any text the service refuses. -/
inductive UserStatus where
  | unset
  | active
  | suspended
  | deleted
  | unknown (text : String)
  deriving DecidableEq

structure User where
  id : String
  externalSubject : String
  organizationID : String
  status : UserStatus
  quota : ResourceQuota
  lifecycleEventID : String
  lifecycleEventHash : String
  lifecycleOccurredAt : Time
  createdAt : Time
  updatedAt : Time
  version : Nat
  deriving DecidableEq

structure Node where
  id : String
  kind : String
  status : String
  address : String
  controlAddress : String
  poolID : String
  allowedApplications : List String
  maxConnections : Int
  connections : Int
  lastHeartbeat : Time
  version : Nat
  deriving DecidableEq

structure Device where
  id : String
  ownerUserID : String
  name : String
  kind : String
  runtimeID : String
  desiredState : String
  observedState : String
  runtimeRunning : Bool
  runtimeHealthy : Bool
  clientConnected : Bool
  relayRegistered : Bool
  relayNodeID : String
  activeSessions : Int
  lastHeartbeat : Time
  metadata : List (String × String)
  createdAt : Time
  updatedAt : Time
  version : Nat
  deriving DecidableEq

structure RuntimeInstance where
  id : String
  deviceID : String
  ownerUserID : String
  nodeID : String
  containerID : String
  image : String
  imageVersion : String
  desiredState : String
  observedState : String
  health : String
  quota : ResourceQuota
  workspaceRef : String
  authVolumeRef : String
  lastReconciled : Time
  lastError : String
  createdAt : Time
  updatedAt : Time
  version : Nat
  deriving DecidableEq

/-- `unset` is the empty status of a request, `unknown` any text `validSessionOptions` refuses. -/
inductive SessionStatus where
  | unset
  | creating
  | starting
  | provisioning
  | ready
  | active
  | idle
  | reconnecting
  | closing
  | closed
  | error
  | unknown (text : String)
  deriving DecidableEq

def SessionStatus.known : SessionStatus → Bool
  | .unknown _ => false
  | _ => true

structure Session where
  id : String
  ownerUserID : String
  deviceID : String
  projectID : String
  applicationID : String
  poolID : String
  tenantID : String
  resourceType : String
  resourceID : String
  agentID : String
  protocol : String
  name : String
  executionTarget : String
  agentMode : String
  accessMode : String
  transportMode : String
  selectedTransport : String
  status : SessionStatus
  relayNodeID : String
  relayGeneration : Int
  hostConnectionID : String
  driverUserID : String
  driverLeaseExpiresAt : Option Time
  lastActivityAt : Time
  startAttempts : Int
  lastError : String
  createdAt : Time
  updatedAt : Time
  version : Nat
  deriving DecidableEq

structure Participant where
  id : String
  sessionID : String
  userID : String
  connectionID : String
  role : String
  access : String
  transport : String
  connectedAt : Time
  lastSeenAt : Time
  version : Nat
  deriving DecidableEq

structure Project where
  id : String
  ownerUserID : String
  workingDir : String
  status : String
  deriving DecidableEq

structure Conversation where
  id : String
  ownerUserID : String
  deviceID : String
  projectID : String
  sessionID : String
  status : String
  deriving DecidableEq

abbrev Table (α : Type) := AList (fun _ : String => α)

def values {α : Type} (table : Table α) : List α := table.entries.map Sigma.snd

section Tables
variable {α : Type} {key : α → String} {table : Table α}

def Filed (key : α → String) (table : Table α) : Prop :=
  ∀ id value, table.lookup id = some value → key value = id

variable {value : α}

theorem mem_values : value ∈ values table ↔ ∃ id, table.lookup id = some value := by
  simp only [values, List.mem_map, ← Option.mem_def, AList.mem_lookup_iff]
  constructor
  · rintro ⟨⟨id, _⟩, member, rfl⟩
    exact ⟨id, member⟩
  · rintro ⟨id, member⟩
    exact ⟨⟨id, value⟩, member, rfl⟩

theorem filed_mem (filed : Filed key table) : value ∈ values table ↔ table.lookup (key value) = some value := by
  rw [mem_values]
  constructor
  · rintro ⟨id, stored⟩
    rwa [filed id value stored]
  · exact fun stored => ⟨_, stored⟩

theorem insert_lookup (table : Table α) (id other : String) (value : α) :
    (table.insert id value).lookup other = if other = id then some value else table.lookup other := by
  split
  · next same =>
    subst same
    exact AList.lookup_insert table
  · next apart => exact AList.lookup_insert_ne apart

theorem erase_lookup (table : Table α) (id other : String) :
    (table.erase id).lookup other = if other = id then none else table.lookup other := by
  split
  · next same =>
    subst same
    exact AList.lookup_erase other table
  · next apart => exact AList.lookup_erase_ne apart

theorem lookup_of_erase {id other : String}
    (stored : (table.erase id).lookup other = some value) : table.lookup other = some value := by
  by_cases same : other = id
  · subst same
    rw [AList.lookup_erase] at stored
    cases stored
  · rwa [AList.lookup_erase_ne same] at stored

theorem filed_erase (filed : Filed key table) (id : String) : Filed key (table.erase id) :=
  fun other value stored => filed other value (lookup_of_erase stored)

theorem filed_empty : Filed key (∅ : Table α) := by
  intro id value stored
  rw [AList.lookup_empty] at stored
  cases stored

theorem filed_insert (filed : Filed key table) {id : String} (named : key value = id) :
    Filed key (table.insert id value) := by
  intro other found stored
  by_cases same : other = id
  · subst same
    rw [AList.lookup_insert] at stored
    cases stored
    exact named
  · rw [AList.lookup_insert_ne same] at stored
    exact filed other found stored

theorem filed_keys_nodup (filed : Filed key table) : ((values table).map key).Nodup := by
  have keys : (values table).map key = table.keys := by
    simp only [values, List.map_map, AList.keys, List.keys]
    refine List.map_congr_left fun entry member => ?_
    exact filed entry.1 entry.2 (AList.mem_lookup_iff.mpr member)
  rw [keys]
  exact table.keys_nodup

end Tables

structure Service where
  users : Table User
  nodes : Table Node
  devices : Table Device
  runtimes : Table RuntimeInstance
  sessions : Table Session
  participants : Table Participant
  projects : Table Project
  conversations : Table Conversation
  defaultApplication : String
  defaultRelayPool : String
  presenceSeen : List String

def validID (value : String) : Bool := OperationStore.validRecordPart value

def projectWorkingDir (projectID : String) : String := "/workspace/projects/" ++ projectID

def validSessionOptions (value : Session) : Bool :=
  let contextValues :=
    [value.applicationID, value.poolID, value.tenantID, value.resourceType, value.resourceID]
  let contextCount := contextValues.countP fun scope => scope ≠ ""
  (contextValues ++ [value.agentID]).all (fun scope => scope = "" ∨ validID scope) ∧
    (contextCount = 0 ∨ contextCount = contextValues.length) ∧
    (contextCount = 0 → value.agentID = "" ∧ value.protocol = "") ∧
    (value.protocol = "" ∨ value.protocol = "terminal" ∨ value.protocol = "acp") ∧
    (value.executionTarget = "local" ∨ value.executionTarget = "docker") ∧
    (value.accessMode = "private" ∨ value.accessMode = "shared") ∧
    (value.transportMode = "auto" ∨ value.transportMode = "lan" ∨ value.transportMode = "relay") ∧
    (value.agentMode = "" ∨ value.agentMode = "terminal" ∨ value.agentMode = "chat" ∨
      value.agentMode = "acp") ∧
    value.status.known

def sessionRelayContextEmpty (value : Session) : Bool :=
  value.applicationID = "" ∧ value.poolID = "" ∧ value.tenantID = "" ∧ value.resourceType = "" ∧
    value.resourceID = "" ∧ value.agentID = "" ∧ value.protocol = ""

def userActiveSessionCount (s : Service) (userID : String) : Nat :=
  (values s.sessions).countP fun session =>
    session.ownerUserID = userID ∧ session.status ≠ .closed ∧ session.status ≠ .error

def defaultContext (s : Service) (user : User) (session : Session) : Session :=
  { session with
    applicationID := s.defaultApplication
    poolID := s.defaultRelayPool
    tenantID := if user.organizationID = "" then user.id else user.organizationID
    resourceType := "device"
    resourceID := session.deviceID
    protocol := if session.agentMode = "acp" then "acp" else "terminal" }

def takesDefaultContext (s : Service) (before : Option Session) (session : Session) : Bool :=
  session.transportMode ≠ "lan" ∧ sessionRelayContextEmpty session ∧ s.defaultApplication ≠ "" ∧
    before.all sessionRelayContextEmpty

def withContextOf (before session : Session) : Session :=
  { before with
    applicationID := session.applicationID
    poolID := session.poolID
    tenantID := session.tenantID
    resourceType := session.resourceType
    resourceID := session.resourceID
    protocol := session.protocol }

def sameContext (before session : Session) : Bool :=
  before.projectID = session.projectID ∧ before.applicationID = session.applicationID ∧
    before.poolID = session.poolID ∧ before.tenantID = session.tenantID ∧
    before.resourceType = session.resourceType ∧ before.resourceID = session.resourceID ∧
    before.agentID = session.agentID ∧ before.protocol = session.protocol

def projectReady (s : Service) (session : Session) : Bool :=
  session.projectID = "" ∨
    ((s.projects.lookup session.projectID).any fun project =>
      project.status = "ready" ∧ project.ownerUserID = session.ownerUserID ∧
        project.workingDir = projectWorkingDir project.id) ∧
      session.executionTarget = "docker" ∧ (session.agentMode = "chat" ∨ session.agentMode = "acp")

def stamped (session : Session) (createdAt now : Time) (expected : Nat) : Session :=
  { session with
    status := if session.status = .unset then .creating else session.status
    createdAt := createdAt
    updatedAt := now
    version := expected + 1 }

def filledIn (s : Service) (user : User) (migrated : Bool) (request : Session) : Session :=
  let session :=
    { request with agentMode := if request.agentMode = "" then "terminal" else request.agentMode }
  if migrated then defaultContext s user session else session

/-- The epoch of a record from before epochs is started, whatever the caller may change. -/
def startsGeneration (before session : Session) : Bool :=
  before.relayGeneration = 0 ∧ session.relayGeneration = 0 ∧ session.applicationID ≠ ""

def replaceSession (now : Time) (before session : Session) (migrated : Bool) (expected : Nat)
    (allowRelayGenerationChange : Bool) : Except ServiceError Session := do
  demand (before.version = expected) .conflict
  demand (sameContext (if migrated then withContextOf before session else before) session) .forbidden
  demand (startsGeneration before session ∨ before.relayGeneration = session.relayGeneration ∨
    allowRelayGenerationChange) .forbidden
  let generation := if startsGeneration before session then 1 else session.relayGeneration
  return stamped { session with relayGeneration := generation } before.createdAt now expected

def createSession (s : Service) (now : Time) (user : User) (session : Session) (expected : Nat) :
    Except ServiceError Session := do
  demand (expected = 0) .conflict
  demand (user.quota.maxSessions ≤ 0 ∨
    userActiveSessionCount s session.ownerUserID < user.quota.maxSessions) .quota
  return stamped { session with relayGeneration := 1 } now now expected

def putSession (s : Service) (now : Time) (fresh : String) (request : Session) (expected : Nat)
    (allowRelayGenerationChange : Bool) : Except ServiceError Session := do
  let request := { request with id := if request.id = "" ∧ expected = 0 then fresh else request.id }
  demand (validID request.id ∧ validID request.ownerUserID ∧ validID request.deviceID) .invalid
  let device ← found (s.devices.lookup request.deviceID) .forbidden
  let user ← found (s.users.lookup request.ownerUserID) .forbidden
  demand (device.ownerUserID = request.ownerUserID ∧ device.desiredState ≠ "revoked") .forbidden
  let before := s.sessions.lookup request.id
  let migrated := takesDefaultContext s before request
  let session := filledIn s user migrated request
  demand (validSessionOptions session) .invalid
  demand (device.kind = session.executionTarget) .invalid
  demand (projectReady s session) .forbidden
  match before with
  | none => createSession s now user session expected
  | some before => replaceSession now before session migrated expected allowRelayGenerationChange

section FilledIn
variable (s : Service) (user : User) (migrated : Bool) (request : Session)

@[simp] theorem filled_in_id : (filledIn s user migrated request).id = request.id := by
  cases migrated <;> rfl

@[simp] theorem filled_in_owner : (filledIn s user migrated request).ownerUserID = request.ownerUserID := by
  cases migrated <;> rfl

@[simp] theorem filled_in_node : (filledIn s user migrated request).relayNodeID = request.relayNodeID := by
  cases migrated <;> rfl

@[simp] theorem filled_in_generation :
    (filledIn s user migrated request).relayGeneration = request.relayGeneration := by
  cases migrated <;> rfl

@[simp] theorem filled_in_host : (filledIn s user migrated request).hostConnectionID = request.hostConnectionID := by
  cases migrated <;> rfl

@[simp] theorem filled_in_status : (filledIn s user migrated request).status = request.status := by
  cases migrated <;> rfl

end FilledIn

/-- How the generation of a record follows from the stored one and the request's. -/
def GenerationFollows (before request record : Session) (allowed : Bool) : Prop :=
  (record.relayGeneration = request.relayGeneration ∧
    (before.relayGeneration = request.relayGeneration ∨ allowed)) ∨
  (before.relayGeneration = 0 ∧ request.relayGeneration = 0 ∧ record.relayGeneration = 1)

structure PutRecord (s : Service) (fresh : String) (request : Session) (expected : Nat)
    (allowed : Bool) (record : Session) : Prop where
  id : record.id = if request.id = "" ∧ expected = 0 then fresh else request.id
  validID : validID record.id
  validOwner : ControlPlane.validID record.ownerUserID
  node : record.relayNodeID = request.relayNodeID
  host : record.hostConnectionID = request.hostConnectionID
  status : record.status = if request.status = .unset then .creating else request.status
  version : record.version = expected + 1
  origin : (s.sessions.lookup record.id = none ∧ expected = 0 ∧ record.relayGeneration = 1) ∨
    ∃ before, s.sessions.lookup record.id = some before ∧ before.version = expected ∧
      GenerationFollows before request record allowed

variable {record request : Session} {s : Service}

theorem replace_session_ok {before session : Session} {migrated allowed : Bool} (put : replaceSession now before session migrated expected allowed = .ok record) :
    before.version = expected ∧ GenerationFollows before session record allowed ∧
      ∃ generation, record = stamped { session with relayGeneration := generation } before.createdAt now expected := by
  simp only [replaceSession, bind_ok, demand_ok, exists_const, decide_eq_true_eq, pure, Except.pure,
    Except.ok.injEq] at put
  obtain ⟨version, -, generation, rfl⟩ := put
  refine ⟨version, ?_, _, rfl⟩
  by_cases starts : startsGeneration before session
  · simp only [startsGeneration, decide_eq_true_eq] at starts
    exact Or.inr ⟨starts.1, starts.2.1, by simp [stamped, startsGeneration, starts]⟩
  · refine Or.inl ⟨by simp [stamped, starts], ?_⟩
    simpa [starts] using generation

theorem create_session_ok {user : User} {session : Session} (put : createSession s now user session expected = .ok record) :
    expected = 0 ∧ record = stamped { session with relayGeneration := 1 } now now expected := by
  simp only [createSession, bind_ok, demand_ok, exists_const, decide_eq_true_eq, pure, Except.pure,
    Except.ok.injEq] at put
  exact ⟨put.1, put.2.2.symm⟩

theorem put_session_ok {fresh : String} {allowed : Bool}
    (put : putSession s now fresh request expected allowed = .ok record) :
    PutRecord s fresh request expected allowed record := by
  simp only [putSession, bind_ok, demand_ok, found_ok, exists_const, decide_eq_true_eq] at put
  obtain ⟨⟨id, owner, -⟩, device, -, user, -, -, -, -, -, last⟩ := put
  split at last
  case h_1 unknown =>
    obtain ⟨first, same⟩ := create_session_ok last
    have key : record.id = if request.id = "" ∧ expected = 0 then fresh else request.id := by
      simp [same, stamped]
    refine ⟨key, key ▸ id, by simpa [same, stamped] using owner, by simp [same, stamped],
      by simp [same, stamped], by simp [same, stamped], by rw [same]; rfl,
      Or.inl ⟨by rw [key]; exact unknown, first, by rw [same]; rfl⟩⟩
  case h_2 before known =>
    obtain ⟨version, follows, generation, same⟩ := replace_session_ok last
    have key : record.id = if request.id = "" ∧ expected = 0 then fresh else request.id := by
      simp [same, stamped]
    refine ⟨key, key ▸ id, by simpa [same, stamped] using owner, by simp [same, stamped],
      by simp [same, stamped], by simp [same, stamped], by rw [same]; rfl,
      Or.inr ⟨before, by rw [key]; exact known, version, ?_⟩⟩
    simpa [GenerationFollows] using follows

def relayNodeCompatibleWithin (node : Node) (applicationID poolID : String) (now staleAfter : Time) :
    Bool :=
  node.kind = "relay" ∧ node.status = "ready" ∧ node.address ≠ "" ∧ node.poolID = poolID ∧
    node.lastHeartbeat ≠ 0 ∧ ¬ node.lastHeartbeat < now - staleAfter ∧
    applicationID ∈ node.allowedApplications

def relayNodeCompatible (node : Node) (applicationID poolID : String) (now : Time) : Bool :=
  relayNodeCompatibleWithin node applicationID poolID now (90 * second)

def assignedSessions (s : Service) (nodeID : String) : Nat :=
  (values s.sessions).countP fun session =>
    session.relayNodeID = nodeID ∧ session.status ≠ .closed ∧ session.status ≠ .error

def nodeLoad (s : Service) (node : Node) : Int := max node.connections (assignedSessions s node.id)

def lighter (s : Service) (a b : Node) : Bool :=
  if nodeLoad s a = nodeLoad s b then a.id < b.id else nodeLoad s a < nodeLoad s b

def selectRelayNode (s : Service) (now : Time) (applicationID poolID : String) : Option Node :=
  if validID applicationID ∧ validID poolID then
    ((values s.nodes).filter fun node => relayNodeCompatible node applicationID poolID now ∧
      (node.maxConnections ≤ 0 ∨ nodeLoad s node < node.maxConnections)).foldl
        (fun best node => match best with
          | none => some node
          | some least => some (if lighter s node least then node else least)) none
  else none

def onCompatibleNode (s : Service) (now : Time) (session : Session) : Bool :=
  session.relayNodeID ≠ "" ∧ (s.nodes.lookup session.relayNodeID).any fun node =>
    relayNodeCompatible node session.applicationID session.poolID now

/-- `EnsureSessionRelayNode`: the session it hands to `PutSession`, or `none` when the session is
    on a compatible node already or is not scoped. -/
def ensureSessionRelayNode (s : Service) (now : Time) (sessionID : String) :
    Except ServiceError (Option Session) := do
  demand (validID sessionID) .invalid
  let session ← found (s.sessions.lookup sessionID) .notFound
  if session.applicationID = "" ∧ session.poolID = "" then return none
  demand (session.applicationID ≠ "" ∧ session.poolID ≠ "" ∧ session.tenantID ≠ "" ∧
    session.resourceType ≠ "" ∧ session.resourceID ≠ "") .invalid
  if onCompatibleNode s now session then return none
  demand (session.relayNodeID = "" ∨ session.status ≠ .active) .noRelayCapacity
  let node ← found (selectRelayNode s now session.applicationID session.poolID) .noRelayCapacity
  return some { session with relayNodeID := node.id }

theorem ensure_session_relay_node_ok {sessionID : String}
    (ensured : ensureSessionRelayNode s now sessionID = .ok (some request)) :
    ∃ session, s.sessions.lookup sessionID = some session ∧
      onCompatibleNode s now session = false ∧ (session.relayNodeID = "" ∨ session.status ≠ .active) ∧
      request.id = session.id ∧ request.version = session.version ∧
      request.relayGeneration = session.relayGeneration ∧ request.status = session.status := by
  simp only [ensureSessionRelayNode, bind_ok, demand_ok, found_ok, exists_const] at ensured
  obtain ⟨-, session, stored, ensured⟩ := ensured
  split at ensured
  · cases ensured
  · simp only [bind_ok, demand_ok, exists_const] at ensured
    obtain ⟨-, ensured⟩ := ensured
    split at ensured
    · cases ensured
    · rename_i moved
      simp only [bind_ok, demand_ok, found_ok, exists_const, decide_eq_true_eq, pure, Except.pure,
        Except.ok.injEq, Option.some.injEq] at ensured
      obtain ⟨idle, node, -, rfl⟩ := ensured
      exact ⟨session, stored, by simpa using moved, idle, rfl, rfl, rfl, rfl⟩

def nextGeneration (generation : Int) : Int :=
  let next := (generation + 1).bmod (2 ^ 64)
  if next < 1 then 1 else next

theorem next_generation_positive (generation : Int) : 1 ≤ nextGeneration generation := by
  unfold nextGeneration
  dsimp only
  split
  · exact Int.le_refl 1
  · omega

def leaseOrDefault (staleAfter : Time) : Time := if staleAfter ≤ 0 then 90 * second else staleAfter

/-- One round of the loop of `RecoverStaleRelaySessions`: `candidate` was listed before, the rest
    is read now. -/
def recoverStaleRelaySession (s : Service) (now staleAfter : Time) (candidate : Session) :
    Option Session :=
  if candidate.relayNodeID = "" ∨ candidate.applicationID = "" ∨ candidate.poolID = "" ∨
      candidate.status = .closing ∨ candidate.status = .closed ∨ candidate.status = .error then none
  else if (s.nodes.lookup candidate.relayNodeID).any fun node =>
      relayNodeCompatibleWithin node candidate.applicationID candidate.poolID now
        (leaseOrDefault staleAfter) then none
  else match s.sessions.lookup candidate.id with
    | none => none
    | some current =>
      if current.relayNodeID ≠ candidate.relayNodeID then none
      else some { current with
        status := .reconnecting
        relayNodeID := ""
        hostConnectionID := ""
        selectedTransport := ""
        driverUserID := ""
        driverLeaseExpiresAt := none
        relayGeneration := nextGeneration current.relayGeneration
        lastError := "assigned Relay node lease expired; reconnecting on a healthy node" }

theorem recover_stale_relay_session_some {staleAfter : Time} {candidate : Session}
    (recovered : recoverStaleRelaySession s now staleAfter candidate = some request) :
    ∃ current, s.sessions.lookup candidate.id = some current ∧ request.id = current.id ∧
      request.version = current.version ∧ request.relayNodeID = "" ∧
      request.relayGeneration = nextGeneration current.relayGeneration := by
  unfold recoverStaleRelaySession at recovered
  split at recovered
  · cases recovered
  · split at recovered
    · cases recovered
    · split at recovered
      · cases recovered
      · rename_i current stored
        split at recovered
        · cases recovered
        · cases recovered
          exact ⟨current, stored, rfl, rfl, rfl, rfl⟩

def managedConversation (s : Service) (session : Session) : Bool :=
  (values s.conversations).any fun conversation =>
    conversation.sessionID = session.id ∧ conversation.ownerUserID = session.ownerUserID ∧
      conversation.deviceID = session.deviceID ∧ conversation.projectID = session.projectID ∧
      conversation.status ≠ "closed" ∧ conversation.status ≠ "deleted"

/-- `RebindManagedChatSessionToDefaultRelayContext`: the record it persists over the one it read. -/
def rebindManagedChatSession (s : Service) (now : Time) (sessionID : String) :
    Except ServiceError (Option Session) := do
  demand (validID sessionID) .invalid
  let before ← found (s.sessions.lookup sessionID) .notFound
  demand (s.defaultApplication ≠ "" ∧ s.defaultRelayPool ≠ "") .noRelayCapacity
  if before.applicationID = s.defaultApplication ∧ before.poolID = s.defaultRelayPool then return none
  let user ← found (s.users.lookup before.ownerUserID) .forbidden
  demand (managedConversation s before ∧ before.executionTarget = "docker" ∧
    before.transportMode = "relay" ∧ (before.agentMode = "chat" ∨ before.agentMode = "acp") ∧
    before.status ≠ .active ∧ before.status ≠ .closing ∧ before.status ≠ .closed) .forbidden
  if onCompatibleNode s now before then return none
  let _ ← found (selectRelayNode s now s.defaultApplication s.defaultRelayPool) .noRelayCapacity
  return some { defaultContext s user before with
    relayNodeID := ""
    hostConnectionID := ""
    selectedTransport := ""
    driverUserID := ""
    driverLeaseExpiresAt := none
    relayGeneration := nextGeneration before.relayGeneration
    lastError := ""
    updatedAt := now
    version := before.version + 1 }

theorem rebind_managed_chat_session_ok {sessionID : String} (rebound : rebindManagedChatSession s now sessionID = .ok (some record)) :
    ∃ before, s.sessions.lookup sessionID = some before ∧ record.id = before.id ∧
      record.ownerUserID = before.ownerUserID ∧ record.version = before.version + 1 ∧
      record.relayNodeID = "" ∧ record.relayGeneration = nextGeneration before.relayGeneration ∧
      record.status = before.status := by
  simp only [rebindManagedChatSession, bind_ok, demand_ok, found_ok, exists_const] at rebound
  obtain ⟨-, before, stored, -, rebound⟩ := rebound
  split at rebound
  · cases rebound
  · simp only [bind_ok, demand_ok, found_ok, exists_const] at rebound
    obtain ⟨user, -, -, rebound⟩ := rebound
    split at rebound
    · cases rebound
    · simp only [bind_ok, found_ok, pure, Except.pure, Except.ok.injEq, Option.some.injEq] at rebound
      obtain ⟨node, -, rfl⟩ := rebound
      exact ⟨before, stored, rfl, rfl, rfl, rfl, rfl, rfl⟩

structure RelayPresence where
  eventID : String
  nodeID : String
  applicationID : String
  poolID : String
  publicURL : String
  controlURL : String
  deviceID : String
  sessionID : String
  relayGeneration : Int
  userID : String
  connectionID : String
  kind : String
  connected : Bool
  hostOnline : Bool
  heartbeat : Bool
  atTime : Time
  deriving DecidableEq

def trimSlashes (text : String) : String :=
  String.ofList (text.toList.reverse.dropWhile (· = '/')).reverse

def uniqueSortedStrings (texts : List String) : List String :=
  ((texts.filter (· ≠ "")).eraseDups).insertionSort (· ≤ ·)

def nodeConnections (s : Service) (nodeID : String) : Nat :=
  (values s.sessions).countP (fun session => session.relayNodeID = nodeID ∧ session.status = .active) +
    (values s.participants).countP fun participant =>
      (s.sessions.lookup participant.sessionID).any fun session => session.relayNodeID = nodeID

def newNode (nodeID : String) : Node := ⟨nodeID, "relay", "", "", "", "", [], 0, 0, 0, 0⟩

/-- The node that `updateRelayNode` hands to `PutNode`, and `PutNode`'s own checks of it; `none`
    when the node has been heard of just now. -/
def updateRelayNode (s : Service) (now : Time) (presence : RelayPresence) (online force : Bool) :
    Except ServiceError (Option Node) := do
  demand (validID presence.nodeID) .invalid
  let known := s.nodes.lookup presence.nodeID
  demand (known.all fun node => node.kind = "relay") .forbidden
  if known.any (fun node => now - 15 * second < node.lastHeartbeat) ∧ ¬ force then return none
  let node := known.getD (newNode presence.nodeID)
  let node := { node with
    address := if presence.publicURL = "" then node.address else trimSlashes presence.publicURL
    controlAddress :=
      if presence.controlURL = "" then node.controlAddress else trimSlashes presence.controlURL
    poolID := if presence.poolID = "" then node.poolID else presence.poolID
    allowedApplications := if presence.applicationID = "" then node.allowedApplications
      else uniqueSortedStrings (node.allowedApplications ++ [presence.applicationID])
    status := if online then "ready" else "offline"
    lastHeartbeat := now
    connections := nodeConnections s presence.nodeID
    version := node.version + 1 }
  demand ((node.poolID = "" ∨ validID node.poolID) ∧ 0 ≤ node.maxConnections ∧
    node.allowedApplications.all validID) .invalid
  return some node

def hostPresence (session : Session) (presence : RelayPresence) : Session × Bool :=
  if presence.hostOnline ∧ session.status ≠ .closed ∧ session.status ≠ .closing then
    ({ session with
        status := .active
        selectedTransport := "relay"
        relayNodeID := presence.nodeID
        lastActivityAt := presence.atTime
        hostConnectionID := presence.connectionID },
      session.status ≠ .active ∨ session.selectedTransport ≠ "relay" ∨
        session.relayNodeID ≠ presence.nodeID ∨ session.hostConnectionID ≠ presence.connectionID)
  else if ¬ presence.hostOnline ∧ session.status = .active then
    ({ session with
        status := .ready
        lastActivityAt := presence.atTime
        hostConnectionID :=
          if session.hostConnectionID = presence.connectionID then "" else session.hostConnectionID },
      true)
  else (session, false)

theorem host_presence_session (session : Session) (presence : RelayPresence) :
    (hostPresence session presence).1.id = session.id ∧ (hostPresence session presence).1.version = session.version ∧
      (hostPresence session presence).1.relayGeneration = session.relayGeneration ∧
      ((hostPresence session presence).1.relayNodeID = session.relayNodeID ∨ presence.hostOnline ∧
          (hostPresence session presence).1.relayNodeID = presence.nodeID) := by
  unfold hostPresence
  split
  · rename_i online
    exact ⟨rfl, rfl, rfl, Or.inr ⟨online.1, rfl⟩⟩
  · split
    · exact ⟨rfl, rfl, rfl, Or.inl rfl⟩
    · exact ⟨rfl, rfl, rfl, Or.inl rfl⟩

/-- `ApplyRelayPresence` up to its `PutSession`: the session it hands on, if it does. Events of
    nodes and participants, and those without a device and session, hand on none. -/
def applyRelayPresence (s : Service) (now : Time) (presence : RelayPresence) :
    Except ServiceError (Option Session) := do
  demand (presence.eventID ≠ "" ∧ presence.connectionID ≠ "" ∧
    (presence.kind = "host" ∨ presence.kind = "participant" ∨ presence.kind = "node")) .invalid
  if presence.eventID ∈ s.presenceSeen ∨ presence.kind = "node" ∨ presence.deviceID = "" ∨
      presence.sessionID = "" then return none
  let session ← found (s.sessions.lookup presence.sessionID) .forbidden
  demand (session.applicationID = presence.applicationID ∧ session.poolID = presence.poolID ∧
    session.relayGeneration = presence.relayGeneration ∧ (session.applicationID = "" ∨
      session.relayNodeID = "" ∨ session.relayNodeID = presence.nodeID)) .forbidden
  let _ ← updateRelayNode s now presence true (!presence.heartbeat)
  if presence.kind ≠ "host" then return none
  let device ← found (s.devices.lookup presence.deviceID) .notFound
  demand (session.deviceID = device.id ∧ session.ownerUserID = device.ownerUserID ∧
    presence.userID = session.ownerUserID) .forbidden
  let (updated, meaningfulChange) := hostPresence session presence
  if ¬ presence.heartbeat ∨ meaningfulChange ∨ 60 * second ≤ now - session.updatedAt then
    return some updated
  return none

theorem apply_relay_presence_ok {presence : RelayPresence} (applied : applyRelayPresence s now presence = .ok (some request)) :
    presence.kind = "host" ∧ ∃ session, s.sessions.lookup presence.sessionID = some session ∧
      request = (hostPresence session presence).1 := by
  simp only [applyRelayPresence, bind_ok, demand_ok, exists_const] at applied
  obtain ⟨-, applied⟩ := applied
  split at applied
  · cases applied
  · simp only [bind_ok, demand_ok, found_ok, exists_const] at applied
    obtain ⟨session, stored, -, node, -, applied⟩ := applied
    split at applied
    · cases applied
    · rename_i kind
      simp only [bind_ok, demand_ok, found_ok, exists_const] at applied
      obtain ⟨device, -, -, applied⟩ := applied
      split at applied
      · cases applied
        exact ⟨by simpa using kind, session, stored, rfl⟩
      · cases applied

/-- A host event of a session that has not been seen before is handed on, unless it is a heartbeat
    that changes nothing. -/
theorem apply_host_event {presence : RelayPresence}
    {result : Option Session} (applied : applyRelayPresence s now presence = .ok result)
    (host : presence.kind = "host") (unseen : presence.eventID ∉ s.presenceSeen)
    (device : presence.deviceID ≠ "") (session : presence.sessionID ≠ "") :
    ∃ stored, s.sessions.lookup presence.sessionID = some stored ∧ (result = some (hostPresence stored presence).1 ∨
        result = none ∧ presence.heartbeat ∧ (hostPresence stored presence).2 = false) := by
  simp only [applyRelayPresence, bind_ok, demand_ok, exists_const] at applied
  obtain ⟨-, applied⟩ := applied
  rw [if_neg (by simp [host, unseen, device, session])] at applied
  simp only [bind_ok, demand_ok, found_ok, exists_const] at applied
  obtain ⟨stored, read, -, node, -, applied⟩ := applied
  rw [if_neg (by simp [host])] at applied
  simp only [bind_ok, demand_ok, found_ok, exists_const] at applied
  obtain ⟨_, -, -, applied⟩ := applied
  refine ⟨stored, read, ?_⟩
  split at applied
  · cases applied
    exact Or.inl rfl
  · rename_i silent
    cases applied
    simp only [not_or, Bool.not_eq_true] at silent
    exact Or.inr ⟨rfl, by simpa using silent.1, silent.2.1⟩

def noQuota : ResourceQuota := ⟨"", 0, 0, 0, 0, 0⟩

def owner : User where
  id := "owner"
  externalSubject := "owner"
  organizationID := ""
  status := .active
  quota := noQuota
  lifecycleEventID := ""
  lifecycleEventHash := ""
  lifecycleOccurredAt := 0
  createdAt := 0
  updatedAt := 0
  version := 1

def desk : Device where
  id := "desk"
  ownerUserID := "owner"
  name := "desk"
  kind := "docker"
  runtimeID := ""
  desiredState := "running"
  observedState := "online"
  runtimeRunning := true
  runtimeHealthy := true
  clientConnected := true
  relayRegistered := true
  relayNodeID := ""
  activeSessions := 0
  lastHeartbeat := 0
  metadata := []
  createdAt := 0
  updatedAt := 0
  version := 1

def freshService : Service where
  users := AList.insert "owner" owner ∅
  nodes := ∅
  devices := AList.insert "desk" desk ∅
  runtimes := ∅
  sessions := ∅
  participants := ∅
  projects := ∅
  conversations := ∅
  defaultApplication := "app"
  defaultRelayPool := "pool-a"
  presenceSeen := []

def newSession : Session where
  id := "session-a"
  ownerUserID := "owner"
  deviceID := "desk"
  projectID := ""
  applicationID := ""
  poolID := ""
  tenantID := ""
  resourceType := ""
  resourceID := ""
  agentID := ""
  protocol := ""
  name := ""
  executionTarget := "docker"
  agentMode := "chat"
  accessMode := "shared"
  transportMode := "relay"
  selectedTransport := ""
  status := .unset
  relayNodeID := ""
  relayGeneration := 0
  hostConnectionID := ""
  driverUserID := ""
  driverLeaseExpiresAt := none
  lastActivityAt := 0
  startAttempts := 0
  lastError := ""
  createdAt := 0
  updatedAt := 0
  version := 0

def createdSession : Session :=
  stamped { defaultContext freshService owner newSession with relayGeneration := 1 } 5 5 0

end PieRelay.ControlPlane
