import PieRelay.RelayToken

/-!
The control plane's issuer, executor-manager/internal/capability/issuer.go, against
the relay's verifier. `MintSession` checks pool, tenant and resource ids with the
verifier's own pattern but asks of device and session only that they are not empty,
and it bounds the generation only for resource-scoped sessions.
-/
namespace PieRelay.SessionCapability
open RoomRegistry RelayToken

structure Issuer where
  secret : Secret
  routingSecret : Secret

structure SessionCredential where
  subject : String
  room : String
  deviceID : String
  sessionID : String
  applicationID : String
  poolID : String
  tenantID : String
  resourceType : String
  resourceID : String
  agentID : String
  protocol : String
  executionTarget : String
  role : String
  access : String
  relayNode : String
  relayGeneration : Int
  ttl : Int
  allowInvite : Bool

structure Minted (Token : Type) where
  token : Token
  protocolVersion : Int
  room : String
  deviceID : String
  sessionID : String
  applicationID : String
  poolID : String
  tenantID : String
  resourceType : String
  resourceID : String
  agentID : String
  protocol : String
  executionTarget : String
  role : String
  access : String
  relayNode : String
  relayGeneration : Int
  expiresAt : Int

def relayProtocolVersion : Int := 3

def hour : Int := 3600 * second

def enabled (i : Issuer) : Bool := 32 ≤ i.secret.length

def hasResourceContext (value : SessionCredential) : Bool :=
  value.applicationID ≠ "" ∨ value.tenantID ≠ "" ∨ value.resourceType ≠ "" ∨ value.resourceID ≠ ""

def completeResourceContext (value : SessionCredential) : Bool :=
  value.applicationID ≠ "" ∧ value.tenantID ≠ "" ∧ value.resourceType ≠ "" ∧ value.resourceID ≠ ""

def base64Digit (n : Nat) : Char :=
  if n < 26 then Char.ofNat (0x41 + n)
  else if n < 52 then Char.ofNat (0x61 + (n - 26))
  else if n < 62 then Char.ofNat (0x30 + (n - 52))
  else if n = 62 then '-' else '_'

def rawURLEncoding : List UInt8 → List Char
  | [] => []
  | [a] => [base64Digit (a.toNat / 4), base64Digit (a.toNat % 4 * 16)]
  | [a, b] =>
    [base64Digit (a.toNat / 4), base64Digit (a.toNat % 4 * 16 + b.toNat / 16),
      base64Digit (b.toNat % 16 * 4)]
  | a :: b :: c :: rest =>
    base64Digit (a.toNat / 4) :: base64Digit (a.toNat % 4 * 16 + b.toNat / 16) ::
      base64Digit (b.toNat % 16 * 4 + c.toNat / 64) :: base64Digit (c.toNat % 64) ::
      rawURLEncoding rest

def textBytes (text : String) : List UInt8 := text.toUTF8.toList

section Issuing
variable {Token : Type} (jwt : Jwt Token) (hmacSHA256 : Secret → List UInt8 → List UInt8)

def opaqueRoom (i : Issuer) (applicationID tenantID resourceType resourceID sessionID : String) :
    Except String String := do
  require (32 ≤ i.routingSecret.length) "relay routing secret is not configured"
  require ([applicationID, tenantID, resourceType, resourceID, sessionID].all streamIDPattern)
    "invalid relay routing scope"
  let message := [tenantID, resourceType, resourceID, sessionID].foldl
    (fun written value => written ++ 0 :: textBytes value) (textBytes applicationID)
  return "r_v2_" ++ String.ofList (rawURLEncoding (hmacSHA256 i.routingSecret message))

def sessionRoom (i : Issuer) (value : SessionCredential) : Except String String :=
  if hasResourceContext value then do
    require (completeResourceContext value) "incomplete relay resource context"
    require (1 ≤ value.relayGeneration) "relay generation is required for resource-scoped sessions"
    opaqueRoom hmacSHA256 i value.applicationID value.tenantID value.resourceType value.resourceID
      value.sessionID
  else return value.room

def sessionTTL (value : SessionCredential) : Int :=
  if value.ttl ≤ 0 then (if value.role = roleHost then 24 * hour else hour) else value.ttl

def sessionCapabilities (value : SessionCredential) : List String :=
  if value.role = roleHost then
    ["relay:host:connect", "relay:participant:connect", "terminal:view", "terminal:control"] ++
      (if value.allowInvite then ["relay:invite:create"] else [])
  else
    ["relay:participant:connect", "terminal:view"] ++
      (if value.access = accessControl then ["terminal:control"] else [])

def optionalClaims (value : SessionCredential) : List (String × String) :=
  [("app_id", value.applicationID), ("pool_id", value.poolID), ("tenant_id", value.tenantID),
    ("resource_type", value.resourceType), ("resource_id", value.resourceID),
    ("agent_id", value.agentID), ("protocol", value.protocol)]

def sessionClaims (value : SessionCredential) (tokenID : String) (now : Nat) (expires : Int) : Claims :=
  let claims := Claims.empty
    |>.set "iss" (.string "pie-control") |>.set "aud" (.string "pie-relay")
    |>.set "sub" (.string value.subject) |>.set "room" (.string value.room)
    |>.set "device_id" (.string value.deviceID) |>.set "session_id" (.string value.sessionID)
    |>.set "role" (.string value.role) |>.set "access" (.string value.access)
    |>.set "cap" (.strings (sessionCapabilities value)) |>.set "jti" (.string tokenID)
    |>.set "relay_version" (.int relayProtocolVersion)
    |>.set "iat" (.int (now / second)) |>.set "nbf" (.int ((now - 5 * second) / second))
    |>.set "exp" (.int (expires / second))
  let claims := (optionalClaims value).foldl
    (fun claims claim => claims.setIf (claim.2 ≠ "") claim.1 (.string claim.2)) claims
  claims
    |>.setIf (value.executionTarget ≠ "") "execution_target" (.string value.executionTarget)
    |>.setIf (value.relayNode ≠ "") "relay_node" (.string value.relayNode)
    |>.setIf (0 < value.relayGeneration) "relay_generation" (.int value.relayGeneration)

def settled (value : SessionCredential) (room : String) : SessionCredential :=
  { value with
    room := room
    access := if value.role = "host" then "control" else value.access }

def mintSession (i : Issuer) (now : Nat) (random : Except String (Vector UInt8 16))
    (value : SessionCredential) : Except String (Minted Token) := do
  require (enabled i) "relay capability issuer is not configured"
  require (value.subject ≠ "" ∧ value.room ≠ "" ∧ value.deviceID ≠ "" ∧ value.sessionID ≠ "")
    "session credential scope is required"
  require ([value.applicationID, value.poolID, value.tenantID, value.resourceType, value.resourceID,
    value.agentID].all validScope) "invalid relay session context"
  require (value.protocol = "" ∨ value.protocol = "terminal" ∨ value.protocol = "acp")
    "invalid relay protocol"
  let room ← sessionRoom hmacSHA256 i value
  require (value.role = "host" ∨ value.role = "participant") "invalid session role"
  require (value.executionTarget = "" ∨ value.executionTarget = "local" ∨
    value.executionTarget = "docker") "invalid execution target"
  require (value.access = "view" ∨ value.access = "control") "invalid session access"
  let value := settled value room
  let expires := now + sessionTTL value
  let tokenID ← randomID random "could not generate relay credential id"
  let signed ← jwt.signedString i.secret (sessionClaims value tokenID now expires)
  return {
    token := signed, protocolVersion := relayProtocolVersion, room := value.room
    deviceID := value.deviceID, sessionID := value.sessionID, applicationID := value.applicationID
    poolID := value.poolID, tenantID := value.tenantID, resourceType := value.resourceType
    resourceID := value.resourceID, agentID := value.agentID, protocol := value.protocol
    executionTarget := value.executionTarget, role := value.role, access := value.access
    relayNode := value.relayNode, relayGeneration := value.relayGeneration, expiresAt := expires }

structure Issued (i : Issuer) (now : Nat) (value : SessionCredential) (minted : Minted Token)
    (tokenID : String) : Prop where
  subject : value.subject ≠ ""
  device : value.deviceID ≠ ""
  session : value.sessionID ≠ ""
  room : minted.room ≠ ""
  scopes : [value.applicationID, value.poolID, value.tenantID, value.resourceType, value.resourceID,
    value.agentID].all validScope
  protocol : value.protocol = "" ∨ value.protocol = "terminal" ∨ value.protocol = "acp"
  context : hasResourceContext value →
    completeResourceContext value ∧ 1 ≤ value.relayGeneration
  role : value.role = "host" ∨ value.role = "participant"
  target : value.executionTarget = "" ∨ value.executionTarget = "local" ∨
    value.executionTarget = "docker"
  access : value.access = "view" ∨ value.access = "control"
  granted : minted.access = (settled value minted.room).access
  named : tokenID ≠ ""
  signed : jwt.signedString i.secret
    (sessionClaims (settled value minted.room) tokenID now minted.expiresAt) = .ok minted.token

theorem opaque_room_nonempty (i : Issuer) (value : SessionCredential) (room : String)
    (made : opaqueRoom hmacSHA256 i value.applicationID value.tenantID value.resourceType
      value.resourceID value.sessionID = .ok room) : room ≠ "" := by
  unfold opaqueRoom at made
  simp only [bind_ok, pure, Except.pure, Except.ok.injEq] at made
  obtain ⟨-, -, -, -, rfl⟩ := made
  intro empty
  have lists := congrArg String.toList empty
  simp at lists

theorem session_room_ok (i : Issuer) (value : SessionCredential) (room : String)
    (given : value.room ≠ "") (made : sessionRoom hmacSHA256 i value = .ok room) :
    room ≠ "" ∧ (hasResourceContext value → completeResourceContext value ∧ 1 ≤ value.relayGeneration) := by
  unfold sessionRoom at made
  by_cases context : hasResourceContext value
  · rw [if_pos context] at made
    simp only [bind_ok, require_ok, exists_const, decide_eq_true_eq] at made
    obtain ⟨complete, generation, room⟩ := made
    exact ⟨opaque_room_nonempty hmacSHA256 i value _ room, fun _ => ⟨complete, generation⟩⟩
  · rw [if_neg context] at made
    cases made
    exact ⟨given, fun present => absurd present context⟩

theorem mint_session_issued (i : Issuer) (now : Nat) (random : Except String (Vector UInt8 16))
    (value : SessionCredential) (minted : Minted Token)
    (made : mintSession jwt hmacSHA256 i now random value = .ok minted) :
    ∃ tokenID, Issued jwt i now value minted tokenID := by
  unfold mintSession at made
  simp only [bind_ok, require_ok, exists_const, decide_eq_true_eq, pure, Except.pure, Except.ok.injEq] at made
  obtain ⟨-, ⟨subject, given, device, session⟩, scopes, protocol, room, resolved, role, target, access,
    tokenID, drawn, token, signed, rfl⟩ := made
  obtain ⟨nonempty, context⟩ := session_room_ok hmacSHA256 i value room given resolved
  exact ⟨tokenID, subject, device, session, nonempty, scopes, protocol, context, role, target, access,
    rfl, random_id_nonempty drawn, signed⟩

end Issuing

structure Allowed (j : JWTAuth) (value : SessionCredential) : Prop where
  pool : value.poolID = "" ∨ j.poolID = "" ∨ value.poolID = j.poolID
  node : value.relayNode = "" ∨ j.nodeID = "" ∨ value.relayNode = j.nodeID
  application : value.applicationID = "" ∨ j.allowedApplications = [] ∨
    j.allowedApplications.lookup value.applicationID = some true
  poolScope : j.requirePoolScope → value.applicationID ≠ "" ∧ value.poolID ≠ "" ∧
    value.relayNode ≠ "" ∧ j.poolID ≠ "" ∧ j.nodeID ≠ "" ∧ j.allowedApplications ≠ []

/-- The clock is inside the token's lifetime: five seconds of grace before, whole seconds. -/
def Within {Token : Type} (minted : Minted Token) (now clock : Nat) : Prop :=
  doubleOfInt ((now - 5 * second) / second) * second ≤ clock ∧
    (clock : Int) < doubleOfInt (minted.expiresAt / second) * second

/-- The identity the relay sees is the session the control plane handed out. Room and access
    are those of the answer: an opaque room, and control for a host. -/
structure SameSession {Token : Type} (value : SessionCredential) (minted : Minted Token)
    (id : Identity) : Prop where
  user : id.userID = value.subject
  room : id.room = minted.room
  role : id.role = value.role
  access : id.access = minted.access
  device : id.deviceID = value.deviceID
  session : id.sessionID = value.sessionID
  application : id.applicationID = value.applicationID
  tenant : id.tenantID = value.tenantID
  resourceType : id.resourceType = value.resourceType
  resourceID : id.resourceID = value.resourceID
  agent : id.agentID = value.agentID
  protocol : id.protocol = value.protocol
  target : id.executionTarget = value.executionTarget
  pool : id.poolID = value.poolID
  node : id.relayNode = value.relayNode
  generation : id.relayGeneration = value.relayGeneration

def sessionIdentity (value : SessionCredential) (tokenID : String) (generation version : Int) :
    Identity where
  userID := value.subject
  room := value.room
  deviceID := value.deviceID
  sessionID := value.sessionID
  protocolVersion := version
  applicationID := value.applicationID
  poolID := value.poolID
  tenantID := value.tenantID
  resourceType := value.resourceType
  resourceID := value.resourceID
  agentID := value.agentID
  protocol := value.protocol
  executionTarget := value.executionTarget
  role := value.role
  access := value.access
  tokenID := tokenID
  capabilities := sessionCapabilities value
  relayNode := value.relayNode
  relayGeneration := generation

section Claims
variable (value : SessionCredential) (tokenID : String) (now : Nat) (expires : Int)

theorem capabilities_nonempty : ∀ item ∈ sessionCapabilities value, item ≠ "" := by
  unfold sessionCapabilities
  intro item member empty
  subst empty
  split at member <;> split at member <;> simp at member

theorem session_capability_claim : claimStringSet ((sessionClaims value tokenID now expires).decoded "cap") =
      sessionCapabilities value := by
  have read : (sessionClaims value tokenID now expires).decoded "cap" =
      some (.array ((sessionCapabilities value).map .string)) := by
    simp [Claims.decoded, sessionClaims, optionalClaims, Claim.decoded]
  rw [read]
  simp only [claimStringSet, List.filterMap_map]
  have kept : List.filterMap (itemString ∘ ClaimValue.string) (sessionCapabilities value) =
      sessionCapabilities value := List.filterMap_some
  rw [kept, List.filter_eq_self]
  intro item member
  simpa using capabilities_nonempty value item member

theorem session_identity_claimed (generation version : Int) (room : value.room ≠ "")
    (access : value.access ≠ "") (host : value.role = roleHost → value.access = accessControl) :
    claimedIdentity (sessionClaims value tokenID now expires).decoded generation version =
      sessionIdentity value tokenID generation version := by
  unfold claimedIdentity sessionIdentity
  rw [session_capability_claim]
  simp only [claim_string_decoded, sessionClaims, optionalClaims, List.foldl_cons, List.foldl_nil]
  simp [read_optional, read_string, room, access]
  intro operator
  exact (host operator).symm

theorem session_generation_claim : claimInteger ((sessionClaims value tokenID now expires).decoded "relay_generation") =
      if value.relayGeneration ≤ 0 then some 0
      else if value.relayGeneration ≤ 2 ^ 53 - 1 then some value.relayGeneration else none := by
  rw [← claim_integer_optional]
  simp [Claims.decoded, sessionClaims, optionalClaims]

theorem session_version_claim : claimInteger ((sessionClaims value tokenID now expires).decoded "relay_version") =
      some relayContextVersion := by
  have read : (sessionClaims value tokenID now expires).decoded "relay_version" =
      some (Claim.int (3 : Nat)).decoded := by
    simp [Claims.decoded, sessionClaims, optionalClaims, relayProtocolVersion]
  rw [read, claim_integer_decoded]
  rfl

theorem session_audience : audienceHolds (sessionClaims value tokenID now expires).decoded := by
  have read : (sessionClaims value tokenID now expires).decoded "aud" = some (.string "pie-relay") := by
    simp [Claims.decoded, sessionClaims, optionalClaims, Claim.decoded]
  simp [audienceHolds, read, claimContainsString, relayTokenAudience]

theorem session_issuer :
    claimString (sessionClaims value tokenID now expires).decoded "iss" = relayControlTokenIssuer := by
  rw [claim_string_decoded]
  simp [sessionClaims, optionalClaims, readText, relayControlTokenIssuer]

theorem session_access : claimString (sessionClaims value tokenID now expires).decoded "access" = value.access := by
  rw [claim_string_decoded]
  simp [sessionClaims, optionalClaims, readText]

theorem session_lifetime (clock : Nat) (started : doubleOfInt ((now - 5 * second) / second) * second ≤ clock)
    (ahead : (clock : Int) < doubleOfInt (expires / second) * second) :
    inLifetime (sessionClaims value tokenID now expires) clock := by
  have exp : sessionClaims value tokenID now expires "exp" = some (.int (expires / second)) := by
    simp [sessionClaims, optionalClaims]
  have nbf : sessionClaims value tokenID now expires "nbf" = some (.int ((now - 5 * second) / second)) := by
    simp [sessionClaims, optionalClaims]
  simp [inLifetime, exp, nbf, started, ahead]

end Claims

theorem context_counted (value : SessionCredential)
    (context : hasResourceContext value → completeResourceContext value) :
    contextCount (contextValues value.applicationID value.tenantID value.resourceType value.resourceID) = 0 ∨
      contextCount (contextValues value.applicationID value.tenantID value.resourceType value.resourceID) = 4 := by
  by_cases present : hasResourceContext value
  · have complete := context present
    simp only [completeResourceContext, decide_eq_true_eq] at complete
    exact Or.inr (by simp [contextCount, contextValues, complete])
  · simp only [hasResourceContext, decide_eq_true_eq, not_or, Decidable.not_not] at present
    exact Or.inl (by simp [contextCount, contextValues, present])

section Agreement
variable {Token : Type} {jwt : Jwt Token} {i : Issuer} {j : JWTAuth} {now : Nat}
  {value : SessionCredential} {minted : Minted Token} {tokenID : String}

section
variable (issued : Issued jwt i now value minted tokenID)
include issued

theorem issued_identity (generation version : Int) :
    claimedIdentity (sessionClaims (settled value minted.room) tokenID now minted.expiresAt).decoded
      generation version = sessionIdentity (settled value minted.room) tokenID generation version := by
  refine session_identity_claimed _ tokenID now minted.expiresAt generation version issued.room ?_ ?_
  · unfold settled
    dsimp only
    split
    · decide
    · rcases issued.access with view | control
      · simp [view]
      · simp [control]
  · intro host
    exact if_pos host

theorem issued_same (generation version : Int) :
    SameSession value minted (sessionIdentity (settled value minted.room) tokenID generation version) ↔
      generation = value.relayGeneration := by
  refine ⟨fun same => same.generation, fun same => ?_⟩
  exact ⟨rfl, rfl, rfl, issued.granted.symm, rfl, rfl, rfl, rfl, rfl, rfl, rfl, rfl, rfl, rfl, rfl, same⟩

theorem issued_acceptable (allowed : Allowed j value)
    (device : streamIDPattern value.deviceID) (session : streamIDPattern value.sessionID)
    (generation : 0 ≤ value.relayGeneration) :
    Acceptable j (sessionClaims (settled value minted.room) tokenID now minted.expiresAt).decoded
      (sessionIdentity (settled value minted.room) tokenID value.relayGeneration relayContextVersion) where
  subject := issued.subject
  role := Or.inr issued.role
  access := by
    rw [session_access]
    unfold settled
    dsimp only
    split
    · exact Or.inr (Or.inr rfl)
    · exact Or.inr issued.access
  audience := fun _ => session_audience _ tokenID now minted.expiresAt
  capable := by
    intro _
    refine ⟨?_, ?_, session_audience _ tokenID now minted.expiresAt, ?_, issued.named⟩
    · intro empty
      rcases issued.role with host | participant
      · exact absurd (host.symm.trans empty) (by decide)
      · exact absurd (participant.symm.trans empty) (by decide)
    · simp only [sessionIdentity, sessionCapabilities]
      split <;> simp
    · rw [session_issuer]
      decide
  session := Or.inr ⟨issued.device, issued.session, device, session⟩
  target := issued.target
  version := Or.inr rfl
  generation := generation
  scopes := issued.scopes
  protocol := issued.protocol
  context := context_counted value fun present => (issued.context present).1
  pool := allowed.pool
  application := allowed.application
  node := allowed.node
  poolScope := by
    intro required
    simp only [requiresPoolScope, Bool.and_eq_true] at required
    obtain ⟨application, pool, node, own, cell, listed⟩ := allowed.poolScope required.1
    have present : hasResourceContext value := by simp [hasResourceContext, application]
    obtain ⟨complete, positive⟩ := issued.context present
    simp only [completeResourceContext, decide_eq_true_eq] at complete
    exact ⟨rfl, application, pool, complete.2.1, complete.2.2.1, complete.2.2.2, node, positive, own, cell, listed⟩

end

/-- What the relay makes of a live token is decided by its claims. -/
theorem verify_issued (faithful : Faithful jwt) (shared : j.secret = i.secret)
    (issued : Issued jwt i now value minted tokenID) {clock : Nat} (live : Within minted now clock) :
    verify jwt j clock minted.token = verifyClaims j
      (sessionClaims (settled value minted.room) tokenID now minted.expiresAt).decoded := by
  have read := faithful.readsBack i.secret _ minted.token clock issued.signed
    (session_lifetime _ tokenID now minted.expiresAt clock live.1 live.2)
  rw [verify, shared, read]
  rfl

/-- The relay accepts the session the control plane has minted, and sees the same one, exactly
    when device and session are stream ids and the generation is a whole number JSON carries. -/
theorem session_agreement (jwt : Jwt Token) (faithful : Faithful jwt)
    (hmacSHA256 : Secret → List UInt8 → List UInt8) (i : Issuer) (j : JWTAuth)
    (shared : j.secret = i.secret) (now clock : Nat) (random : Except String (Vector UInt8 16))
    (value : SessionCredential) (minted : Minted Token)
    (made : mintSession jwt hmacSHA256 i now random value = .ok minted) (allowed : Allowed j value)
    (live : Within minted now clock) :
    (∃ id, verify jwt j clock minted.token = some id ∧ SameSession value minted id) ↔
      streamIDPattern value.deviceID ∧ streamIDPattern value.sessionID ∧
        0 ≤ value.relayGeneration ∧ value.relayGeneration ≤ 2 ^ 53 - 1 := by
  obtain ⟨tokenID, issued⟩ := mint_session_issued jwt hmacSHA256 i now random value minted made
  rw [verify_issued faithful shared issued live]
  have counted : claimInteger ((sessionClaims (settled value minted.room) tokenID now
      minted.expiresAt).decoded "relay_generation") = if value.relayGeneration ≤ 0 then some 0
        else if value.relayGeneration ≤ 2 ^ 53 - 1 then some value.relayGeneration else none :=
    session_generation_claim (settled value minted.room) tokenID now minted.expiresAt
  constructor
  · rintro ⟨id, accepted, same⟩
    obtain ⟨generation, version, read, -, identity, acceptable⟩ :=
      (verify_claims_iff j _ id).mp accepted
    rw [issued_identity issued] at identity
    subst identity
    have kept : generation = value.relayGeneration := (issued_same issued generation version).mp same
    rcases acceptable.session with ⟨missing, -⟩ | ⟨-, -, device, session⟩
    · exact absurd missing issued.device
    · refine ⟨device, session, kept ▸ acceptable.generation, ?_⟩
      by_cases small : value.relayGeneration ≤ 2 ^ 53 - 1
      · exact small
      · rw [counted, if_neg (by omega), if_neg small] at read
        contradiction
  · rintro ⟨device, session, nonnegative, small⟩
    refine ⟨_, (verify_claims_iff j _ _).mpr ⟨value.relayGeneration, relayContextVersion, ?_,
      session_version_claim _ tokenID now minted.expiresAt, (issued_identity issued _ _).symm,
      issued_acceptable issued allowed device session nonnegative⟩, (issued_same issued _ _).mpr rfl⟩
    rw [counted]
    by_cases zero : value.relayGeneration ≤ 0
    · rw [if_pos zero, Int.le_antisymm zero nonnegative]
    · rw [if_neg zero, if_pos small]

end Agreement

def sharedSecret : Secret := List.replicate 32 7

def controlPlane : Issuer := ⟨sharedSecret, []⟩

def relay : JWTAuth := ⟨sharedSecret, true, false, false, "pool-a", "cell-a", []⟩

def guestSession (deviceID : String) : SessionCredential where
  subject := "guest"
  room := "owner"
  deviceID := deviceID
  sessionID := "session-a"
  applicationID := ""
  poolID := "pool-a"
  tenantID := ""
  resourceType := ""
  resourceID := ""
  agentID := "agent-a"
  protocol := "terminal"
  executionTarget := "docker"
  role := "participant"
  access := "view"
  relayNode := "cell-a"
  relayGeneration := 7
  ttl := 0
  allowInvite := false

theorem guest_allowed (deviceID : String) : Allowed relay (guestSession deviceID) :=
  ⟨Or.inr (Or.inr rfl), Or.inr (Or.inr rfl), Or.inl rfl, fun required => nomatch required⟩

def mintGuest (deviceID : String) : Except String (Minted (Secret × Claims)) :=
  mintSession recordingJwt (fun _ _ => []) controlPlane 0 (.ok (Vector.replicate 16 0))
    (guestSession deviceID)

theorem session_agreement_guest : ∃ minted id, mintGuest "device-a" = .ok minted ∧
      verify recordingJwt relay 5 minted.token = some id ∧
      SameSession (guestSession "device-a") minted id := by
  have agreed := (session_agreement recordingJwt recording_faithful (fun _ _ => []) controlPlane relay
    rfl 0 5 (.ok (Vector.replicate 16 0)) (guestSession "device-a") _ rfl (guest_allowed "device-a")
    ⟨by decide, by decide⟩).mpr (by decide)
  obtain ⟨id, accepted, same⟩ := agreed
  exact ⟨_, id, rfl, accepted, same⟩

/-- A device id the control plane accepts and the relay does not. -/
theorem session_agreement_underscore :
    ∃ minted, mintGuest "_device" = .ok minted ∧ Allowed relay (guestSession "_device") ∧
      Within minted 0 5 ∧ verify recordingJwt relay 5 minted.token = none :=
  ⟨_, rfl, guest_allowed "_device", ⟨by decide, by decide⟩, rfl⟩

end PieRelay.SessionCapability
