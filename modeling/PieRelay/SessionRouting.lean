import PieRelay.SessionCapability
import PieRelay.SessionHistory

/-!
Three places spell the room of a session: `startDockerSession` for its host,
`issueSessionCredential` for everybody else, and `relayRoutingRoom` for the commands the
controller sends to the relay's control endpoint. The first two go through `MintSession`;
the third repeats its choice between the owner's id and an opaque room. All of them have
the same issuer, which main.go builds once.
-/
namespace PieRelay.SessionRouting
open RelayToken SessionCapability ControlPlane

def hostCredential (session : Session) : SessionCredential where
  subject := session.ownerUserID
  room := session.ownerUserID
  deviceID := session.deviceID
  sessionID := session.id
  applicationID := session.applicationID
  poolID := session.poolID
  tenantID := session.tenantID
  resourceType := session.resourceType
  resourceID := session.resourceID
  agentID := session.agentID
  protocol := session.protocol
  executionTarget := "docker"
  role := "host"
  access := "control"
  relayNode := session.relayNodeID
  relayGeneration := session.relayGeneration
  ttl := 24 * hour
  allowInvite := session.accessMode = "shared"

/-- The body of a credential request, and the subject that its sender may ask for. -/
structure CredentialRequest where
  subject : String
  role : String
  access : String
  ttlSeconds : Int

def requestedRole (request : CredentialRequest) : String :=
  if request.role = "" then "participant" else request.role

def requestedAccess (request : CredentialRequest) : String :=
  if requestedRole request = "host" then "control"
  else if request.access = "" then "view" else request.access

def requestedTTL (request : CredentialRequest) : Int :=
  let ttl := (request.ttlSeconds * second).bmod (2 ^ 64)
  let host := requestedRole request = "host"
  let ttl := if ttl ≤ 0 then (if host then 24 * hour else hour) else ttl
  min ttl (if host then 24 * hour else 12 * hour)

def participantCredential (session : Session) (request : CredentialRequest) : SessionCredential where
  subject := request.subject
  room := session.ownerUserID
  deviceID := session.deviceID
  sessionID := session.id
  applicationID := session.applicationID
  poolID := session.poolID
  tenantID := session.tenantID
  resourceType := session.resourceType
  resourceID := session.resourceID
  agentID := session.agentID
  protocol := session.protocol
  executionTarget := session.executionTarget
  role := requestedRole request
  access := requestedAccess request
  relayNode := session.relayNodeID
  relayGeneration := session.relayGeneration
  ttl := requestedTTL request
  allowInvite := requestedRole request = "host" ∧ session.accessMode = "shared"

def driverIdentity (room deviceID sessionID : String) (relayGeneration : Int) : Identity :=
  ⟨"", room, deviceID, sessionID, 0, "", "", "", "", "", "", "", "", "", "", "", [], "", relayGeneration⟩

def handleControlDriver (room deviceID sessionID : String) (relayGeneration : Int) : Option String :=
  if room = "" ∨ deviceID = "" ∨ sessionID = "" ∨ relayGeneration < 0 then none
  else some (routingKey (driverIdentity room deviceID sessionID relayGeneration))

section Issuing
variable {Token : Type} (jwt : Jwt Token) (hmacSHA256 : Secret → List UInt8 → List UInt8)

def relayRoutingRoom (i : Issuer) (session : Session) : Except String String :=
  if session.applicationID = "" ∧ session.tenantID = "" ∧ session.resourceType = "" ∧
      session.resourceID = "" then .ok session.ownerUserID
  else (opaqueRoom hmacSHA256 i session.applicationID session.tenantID session.resourceType
    session.resourceID session.id).mapError ("derive Relay routing room: " ++ ·)

def driverRoutingKey (i : Issuer) (session : Session) : Option String :=
  (relayRoutingRoom hmacSHA256 i session).toOption.bind fun room =>
    handleControlDriver room session.deviceID session.id session.relayGeneration

structure CredentialOf (session : Session) (value : SessionCredential) : Prop where
  room : value.room = session.ownerUserID
  deviceID : value.deviceID = session.deviceID
  sessionID : value.sessionID = session.id
  applicationID : value.applicationID = session.applicationID
  tenantID : value.tenantID = session.tenantID
  resourceType : value.resourceType = session.resourceType
  resourceID : value.resourceID = session.resourceID
  generation : value.relayGeneration = session.relayGeneration

theorem host_credential_of (session : Session) : CredentialOf session (hostCredential session) :=
  ⟨rfl, rfl, rfl, rfl, rfl, rfl, rfl, rfl⟩

theorem participant_credential_of (session : Session) (request : CredentialRequest) :
    CredentialOf session (participantCredential session request) :=
  ⟨rfl, rfl, rfl, rfl, rfl, rfl, rfl, rfl⟩

theorem mint_session_room {i : Issuer} {now : Nat} {random : Except String (Vector UInt8 16)}
    {value : SessionCredential} {minted : Minted Token}
    (made : mintSession jwt hmacSHA256 i now random value = .ok minted) :
    sessionRoom hmacSHA256 i value = .ok minted.room := by
  unfold mintSession at made
  simp only [bind_ok, require_ok, exists_const, pure, Except.pure, Except.ok.injEq] at made
  obtain ⟨-, -, -, -, room, resolved, -, -, -, tokenID, -, token, -, rfl⟩ := made
  exact resolved

/-- Where `MintSession` finds a room, `relayRoutingRoom` finds the same. -/
theorem relay_routing_room_minted {i : Issuer} {session : Session} {value : SessionCredential}
    {room : String} (scope : CredentialOf session value)
    (minted : sessionRoom hmacSHA256 i value = .ok room) :
    relayRoutingRoom hmacSHA256 i session = .ok room := by
  unfold sessionRoom at minted
  simp only [hasResourceContext, scope.applicationID, scope.tenantID, scope.resourceType,
    scope.resourceID, decide_eq_true_eq] at minted
  unfold relayRoutingRoom
  split at minted
  · rename_i context
    simp only [bind_ok, require_ok, exists_const, scope.sessionID] at minted
    rw [if_neg (by tauto), minted.2.2]
    rfl
  · rename_i unscoped
    cases minted
    rw [if_pos (by tauto), scope.room]

end Issuing

section Agreement
variable {Token : Type} {jwt : Jwt Token} {hmacSHA256 : Secret → List UInt8 → List UInt8} {i : Issuer}
  {j : JWTAuth} {now clock : Nat} {random : Except String (Vector UInt8 16)}
  {value : SessionCredential} {minted : Minted Token} {id : Identity}

structure RoutedAs (value : SessionCredential) (minted : Minted Token) (id : Identity) : Prop where
  room : id.room = minted.room
  deviceID : id.deviceID = value.deviceID
  sessionID : id.sessionID = value.sessionID
  generation : id.relayGeneration = value.relayGeneration

theorem minted_routed (faithful : Faithful jwt) (shared : j.secret = i.secret)
    (made : mintSession jwt hmacSHA256 i now random value = .ok minted)
    (live : Within minted now clock) (accepted : verify jwt j clock minted.token = some id)
    (nonnegative : 0 ≤ value.relayGeneration) : RoutedAs value minted id := by
  obtain ⟨tokenID, issued⟩ := mint_session_issued jwt hmacSHA256 i now random value minted made
  rw [verify_issued faithful shared issued live] at accepted
  obtain ⟨generation, version, read, -, identity, -⟩ := (verify_claims_iff j _ id).mp accepted
  rw [issued_identity issued] at identity
  subst identity
  refine ⟨rfl, rfl, rfl, ?_⟩
  -- a generation of zero is left out of the claims and read back as zero
  have counted := session_generation_claim (settled value minted.room) tokenID now minted.expiresAt
  rw [read] at counted
  show generation = value.relayGeneration
  have same : (settled value minted.room).relayGeneration = value.relayGeneration := rfl
  rw [same] at counted
  split at counted
  · rename_i zero
    rw [Option.some.inj counted, Int.le_antisymm zero nonnegative]
  · split at counted
    · exact Option.some.inj counted
    · cases counted

theorem driver_routing_key_routed {session : Session} (scope : CredentialOf session value)
    (made : mintSession jwt hmacSHA256 i now random value = .ok minted)
    (routed : RoutedAs value minted id) (nonnegative : 0 ≤ session.relayGeneration) :
    driverRoutingKey hmacSHA256 i session = some (routingKey id) := by
  obtain ⟨tokenID, issued⟩ := mint_session_issued jwt hmacSHA256 i now random value minted made
  have room := relay_routing_room_minted hmacSHA256 scope (mint_session_room jwt hmacSHA256 made)
  have device : session.deviceID ≠ "" := scope.deviceID ▸ issued.device
  have name : session.id ≠ "" := scope.sessionID ▸ issued.session
  have listed : ¬ (minted.room = "" ∨ session.deviceID = "" ∨ session.id = "" ∨ session.relayGeneration < 0) := by
    simp only [issued.room, device, name, false_or]
    omega
  rw [driverRoutingKey, room]
  show handleControlDriver minted.room session.deviceID session.id session.relayGeneration = _
  unfold handleControlDriver
  rw [if_neg listed, ← routed.room, ← scope.deviceID, ← routed.deviceID, ← scope.sessionID,
    ← routed.sessionID, ← scope.generation, ← routed.generation]
  rfl

end Agreement

def Admits {Token : Type} (jwt : Jwt Token) (hmacSHA256 : Secret → List UInt8 → List UInt8)
    (i : Issuer) (j : JWTAuth) (value : SessionCredential) (id : Identity) : Prop :=
  ∃ now clock random minted, mintSession jwt hmacSHA256 i now random value = .ok minted ∧
    Within minted now clock ∧ verify jwt j clock minted.token = some id

def SharesKey {Token : Type} (jwt : Jwt Token) (hmacSHA256 : Secret → List UInt8 → List UInt8)
    (i : Issuer) (j : JWTAuth) (session : Session) (value : SessionCredential) : Prop :=
  ∀ id, Admits jwt hmacSHA256 i j value id →
    driverRoutingKey hmacSHA256 i session = some (routingKey id)

theorem shares_key {Token : Type} {jwt : Jwt Token} (faithful : Faithful jwt)
    (hmacSHA256 : Secret → List UInt8 → List UInt8) {i : Issuer} {j : JWTAuth}
    (shared : j.secret = i.secret) {session : Session} {value : SessionCredential}
    (scope : CredentialOf session value) (nonnegative : 0 ≤ session.relayGeneration) :
    SharesKey jwt hmacSHA256 i j session value := by
  rintro id ⟨now, clock, random, minted, made, live, accepted⟩
  have routed := minted_routed faithful shared made live accepted (scope.generation ▸ nonnegative)
  exact driver_routing_key_routed scope made routed nonnegative

/-- Every stored version of a session has one routing key: that of its driver commands, of the host
    `startDockerSession` lets connect and of everybody `issueSessionCredential` does. -/
theorem one_routing_key {Token : Type} (jwt : Jwt Token) (faithful : Faithful jwt)
    (hmacSHA256 : Secret → List UInt8 → List UInt8) (i : Issuer) (j : JWTAuth)
    (shared : j.secret = i.secret) (h after : SessionHistory.Histories)
    (formed : SessionHistory.WellFormed h) (actions : List SessionHistory.Action)
    (ran : Executions.run SessionHistory.step h actions = some after) (name : String)
    (session : Session) (stored : session ∈ after name) :
    SharesKey jwt hmacSHA256 i j session (hostCredential session) ∧
      ∀ request, SharesKey jwt hmacSHA256 i j session (participantCredential session request) := by
  have nonnegative : 0 ≤ session.relayGeneration :=
    (SessionHistory.run_well_formed formed ran).generation name session stored
  refine ⟨shares_key faithful hmacSHA256 shared (host_credential_of session) nonnegative, ?_⟩
  intro request
  exact shares_key faithful hmacSHA256 shared (participant_credential_of session request) nonnegative

def issuer : Issuer := ⟨sharedSecret, sharedSecret⟩

def mintFor (value : SessionCredential) : Except String (Minted (Secret × Claims)) :=
  mintSession recordingJwt (fun _ _ => [1, 2, 3]) issuer 0 (.ok (Vector.replicate 16 0)) value

theorem one_routing_key_created : ∃ after session host hostID guest guestID,
      Executions.run SessionHistory.step SessionHistory.noHistory
        [.putSession ⟨freshService, 5, ""⟩ newSession 0] = some after ∧
      after "session-a" = [session] ∧ mintFor (hostCredential session) = .ok host ∧
      verify recordingJwt relay 5 host.token = some hostID ∧
      mintFor (participantCredential session ⟨"owner", "", "", 0⟩) = .ok guest ∧
      verify recordingJwt relay 5 guest.token = some guestID ∧
      driverRoutingKey (fun _ _ => [1, 2, 3]) issuer session = some (routingKey hostID) ∧
      driverRoutingKey (fun _ _ => [1, 2, 3]) issuer session = some (routingKey guestID) := by
  have agreed := fun after session ran (stored : after "session-a" = [session]) =>
    one_routing_key recordingJwt recording_faithful (fun _ _ => [1, 2, 3]) issuer relay rfl
      SessionHistory.noHistory after SessionHistory.no_history_well_formed
      [.putSession ⟨freshService, 5, ""⟩ newSession 0] ran "session-a" session (by simp [stored])
  refine ⟨_, _, _, _, _, _, rfl, rfl, rfl, rfl, rfl, rfl, ?_, ?_⟩
  · refine (agreed _ _ rfl rfl).1 _ ⟨0, 5, .ok (Vector.replicate 16 0), _, rfl, ⟨?_, ?_⟩, rfl⟩
    all_goals decide
  · refine (agreed _ _ rfl rfl).2 ⟨"owner", "", "", 0⟩ _ ⟨0, 5, .ok (Vector.replicate 16 0), _, rfl, ⟨?_, ?_⟩, rfl⟩
    all_goals decide

end PieRelay.SessionRouting
