import PieRelay.RelayToken

/-!
Invite tokens, `MintInviteParticipant` and `mintIdentity` of
server/internal/relay/jwtauth.go, read back by `Verify` of the same relay. Room,
device, session, target, node and generation are written one by one; pool, agent
and protocol only together with a complete application context.
-/
namespace PieRelay.InviteScope
open RoomRegistry RelayToken

def scopeContext (scope : Identity) : List String :=
  contextValues scope.applicationID scope.tenantID scope.resourceType scope.resourceID

def contextComplete (scope : Identity) : Bool :=
  contextCount (scopeContext scope) = (scopeContext scope).length ∧ 0 < contextCount (scopeContext scope)

def roleCapabilities (role access : String) : List String :=
  if role = roleHost then
    ["relay:host:connect", "relay:participant:connect", "relay:invite:create", "terminal:view",
      "terminal:control"]
  else if role = roleParticipant then
    ["relay:participant:connect", "terminal:view"] ++
      (if access = accessView then [] else ["terminal:control"])
  else []

def identityClaims (sub : String) (scope : Identity) (role access tokenID : String) (now : Nat)
    (ttl : Int) : Claims :=
  let complete := contextComplete scope
  Claims.empty
    |>.set "sub" (.string sub) |>.set "iat" (.int (now / second))
    |>.set "exp" (.int ((now + ttl) / second))
    |>.setIf (role ≠ "") "iss" (.string relayTokenIssuer)
    |>.setIf (role ≠ "") "aud" (.string relayTokenAudience)
    |>.setIf (role ≠ "") "jti" (.string tokenID)
    |>.setIf (role ≠ "") "cap" (.strings (roleCapabilities role access))
    |>.setIf (scope.room ≠ "") "room" (.string scope.room)
    |>.setIf (role ≠ "") "role" (.string role)
    |>.setIf (access ≠ "") "access" (.string access)
    |>.setIf (scope.deviceID ≠ "") "device_id" (.string scope.deviceID)
    |>.setIf (scope.deviceID ≠ "") "session_id" (.string scope.sessionID)
    |>.setIf (scope.executionTarget ≠ "") "execution_target" (.string scope.executionTarget)
    |>.setIf (scope.relayNode ≠ "") "relay_node" (.string scope.relayNode)
    |>.setIf (0 < scope.relayGeneration) "relay_generation" (.int scope.relayGeneration)
    |>.setIf complete "relay_version" (.int relayContextVersion)
    |>.setIf complete "app_id" (.string scope.applicationID)
    |>.setIf complete "pool_id" (.string scope.poolID)
    |>.setIf complete "tenant_id" (.string scope.tenantID)
    |>.setIf complete "resource_type" (.string scope.resourceType)
    |>.setIf complete "resource_id" (.string scope.resourceID)
    |>.setIf (complete && scope.agentID ≠ "") "agent_id" (.string scope.agentID)
    |>.setIf (complete && scope.protocol ≠ "") "protocol" (.string scope.protocol)

def drawTokenID (random : Except String (Vector UInt8 16)) (role : String) : Except String String :=
  if role = "" then .ok "" else randomID random errInvalidToken

section Minting
variable {Token : Type} (jwt : Jwt Token)

def mintIdentity (j : JWTAuth) (now : Nat) (random : Except String (Vector UInt8 16)) (sub : String)
    (scope : Identity) (role access : String) (ttl : Int) : Except String Token := do
  require (role = "" ∨ role = roleHost ∨ role = roleParticipant) errInvalidToken
  require (access = "" ∨ access = accessView ∨ access = accessControl) errInvalidToken
  require (scope.deviceID = "" ∧ scope.sessionID = "" ∨ scope.deviceID ≠ "" ∧ scope.sessionID ≠ "" ∧
    streamIDPattern scope.deviceID ∧ streamIDPattern scope.sessionID) errInvalidToken
  require (scope.executionTarget = "" ∨ scope.executionTarget = "local" ∨
    scope.executionTarget = "docker") errInvalidToken
  require (0 ≤ scope.relayGeneration) errInvalidToken
  require ((scopeContext scope).all validScope) errInvalidToken
  require (contextCount (scopeContext scope) ≠ 0 →
    contextCount (scopeContext scope) = (scopeContext scope).length ∧ scope.poolID ≠ "" ∧
    scope.relayNode ≠ "" ∧ 1 ≤ scope.relayGeneration) errInvalidToken
  require ([scope.poolID, scope.agentID].all validScope) errInvalidToken
  require (scope.protocol = "" ∨ scope.protocol = "terminal" ∨ scope.protocol = "acp") errInvalidToken
  let tokenID ← drawTokenID random role
  jwt.signedString j.secret (identityClaims sub scope role access tokenID now ttl)

def mintInviteParticipant (j : JWTAuth) (now : Nat) (random : Except String (Vector UInt8 16))
    (sub : String) (host : Identity) (access : String) (ttl : Int) : Except String Token :=
  mintIdentity jwt j now random sub host roleParticipant access ttl

structure Invited (j : JWTAuth) (now : Nat) (sub : String) (host : Identity) (access : String)
    (ttl : Int) (token : Token) (tokenID : String) : Prop where
  grade : access = "" ∨ access = accessView ∨ access = accessControl
  context : contextCount (scopeContext host) ≠ 0 → contextCount (scopeContext host) = 4 ∧
    host.poolID ≠ "" ∧ host.relayNode ≠ "" ∧ 1 ≤ host.relayGeneration
  named : tokenID ≠ ""
  signed : jwt.signedString j.secret
    (identityClaims sub host roleParticipant access tokenID now ttl) = .ok token

theorem mint_invite_invited (j : JWTAuth) (now : Nat) (random : Except String (Vector UInt8 16))
    (sub : String) (host : Identity) (access : String) (ttl : Int) (token : Token)
    (made : mintInviteParticipant jwt j now random sub host access ttl = .ok token) :
    ∃ tokenID, Invited jwt j now sub host access ttl token tokenID := by
  unfold mintInviteParticipant mintIdentity at made
  simp only [bind_ok, require_ok, exists_const, decide_eq_true_eq] at made
  obtain ⟨-, known, -, -, -, -, context, -, -, tokenID, drawn, signed⟩ := made
  rw [drawTokenID, if_neg (by decide)] at drawn
  exact ⟨tokenID, known, context, random_id_nonempty drawn, signed⟩

end Minting

section Reading
variable (sub : String) (host : Identity) (access tokenID : String) (now : Nat) (ttl : Int)

def inviteIdentity (generation version : Int) : Identity where
  userID := sub
  room := host.room
  deviceID := host.deviceID
  sessionID := host.sessionID
  protocolVersion := version
  applicationID := host.applicationID
  poolID := if contextComplete host then host.poolID else ""
  tenantID := host.tenantID
  resourceType := host.resourceType
  resourceID := host.resourceID
  agentID := if contextComplete host then host.agentID else ""
  protocol := if contextComplete host then host.protocol else ""
  executionTarget := host.executionTarget
  role := roleParticipant
  access := if access = "" then accessControl else access
  tokenID := tokenID
  capabilities := roleCapabilities roleParticipant access
  relayNode := host.relayNode
  relayGeneration := generation

theorem context_split (counted : contextCount (scopeContext host) = 0 ∨
    contextCount (scopeContext host) = 4) :
    (contextComplete host ∧ host.applicationID ≠ "" ∧ host.tenantID ≠ "" ∧
      host.resourceType ≠ "" ∧ host.resourceID ≠ "") ∨
    (contextComplete host = false ∧ host.applicationID = "" ∧ host.tenantID = "" ∧
      host.resourceType = "" ∧ host.resourceID = "") := by
  rcases counted with none | all
  · refine Or.inr ⟨by simp [contextComplete, none], ?_⟩
    simpa [contextCount, scopeContext, contextValues] using none
  · have length : (scopeContext host).length = 4 := rfl
    refine Or.inl ⟨by simp [contextComplete, all, length], ?_⟩
    have every := List.countP_eq_length.mp (all : List.countP _ _ = (scopeContext host).length)
    simpa [scopeContext, contextValues] using every

theorem invite_capability_claim :
    claimStringSet ((identityClaims sub host roleParticipant access tokenID now ttl).decoded "cap") =
      roleCapabilities roleParticipant access := by
  have read : (identityClaims sub host roleParticipant access tokenID now ttl).decoded "cap" =
      some (.array ((roleCapabilities roleParticipant access).map .string)) := by
    simp [Claims.decoded, identityClaims, Claim.decoded, roleParticipant]
  rw [read]
  unfold roleCapabilities
  rw [if_neg (by decide), if_pos rfl]
  split <;> rfl

theorem invite_identity_claimed (generation version : Int) (room : host.room ≠ "")
    (paired : host.deviceID = "" → host.sessionID = "")
    (counted : contextCount (scopeContext host) = 0 ∨ contextCount (scopeContext host) = 4) :
    claimedIdentity (identityClaims sub host roleParticipant access tokenID now ttl).decoded generation
      version = inviteIdentity sub host access tokenID generation version := by
  unfold claimedIdentity inviteIdentity
  rw [invite_capability_claim]
  simp only [claim_string_decoded, identityClaims]
  have session : readText (if host.deviceID = "" then none else some (.string host.sessionID)) =
      host.sessionID := by
    by_cases unscoped : host.deviceID = ""
    · simp [unscoped, paired unscoped, readText]
    · simp [unscoped, readText]
  rcases context_split host counted with ⟨complete, present⟩ | ⟨incomplete, absent⟩
  · simp [complete, read_optional, read_string, room, session, roleParticipant, roleHost]
  · simp [incomplete, absent, read_optional, read_string, room, session, roleParticipant, roleHost]
    rfl

theorem invite_generation_claim :
    claimInteger ((identityClaims sub host roleParticipant access tokenID now ttl).decoded
      "relay_generation") = if host.relayGeneration ≤ 0 then some 0
        else if host.relayGeneration ≤ 2 ^ 53 - 1 then some host.relayGeneration else none := by
  rw [← claim_integer_optional]
  simp [Claims.decoded, identityClaims]

theorem invite_version_claim :
    claimInteger ((identityClaims sub host roleParticipant access tokenID now ttl).decoded
      "relay_version") = some (if contextComplete host then relayContextVersion else 0) := by
  cases complete : contextComplete host with
  | false => simp [Claims.decoded, identityClaims, complete, claimInteger]
  | true =>
    have read : (identityClaims sub host roleParticipant access tokenID now ttl).decoded
        "relay_version" = some (Claim.int (3 : Nat)).decoded := by
      simp [Claims.decoded, identityClaims, complete, relayContextVersion]
    rw [read, claim_integer_decoded]
    rfl

theorem invite_audience :
    audienceHolds (identityClaims sub host roleParticipant access tokenID now ttl).decoded := by
  simp [audienceHolds, Claims.decoded, identityClaims, Claim.decoded, claimContainsString,
    roleParticipant]

theorem invite_issuer :
    claimString (identityClaims sub host roleParticipant access tokenID now ttl).decoded "iss" =
      relayTokenIssuer := by
  rw [claim_string_decoded]
  simp [identityClaims, readText, roleParticipant]

theorem invite_access :
    claimString (identityClaims sub host roleParticipant access tokenID now ttl).decoded "access" =
      access := by
  rw [claim_string_decoded]
  simp [identityClaims, read_optional]

theorem invite_lifetime (clock : Nat)
    (ahead : (clock : Int) < doubleOfInt ((now + ttl) / second) * second) :
    inLifetime (identityClaims sub host roleParticipant access tokenID now ttl) clock := by
  have exp : identityClaims sub host roleParticipant access tokenID now ttl "exp" =
      some (.int ((now + ttl) / second)) := by
    simp [identityClaims]
  have nbf : identityClaims sub host roleParticipant access tokenID now ttl "nbf" = none := by
    simp [identityClaims]
  simp [inLifetime, exp, nbf, ahead]

end Reading

structure KeepsScope (host : Identity) (access : String) (id : Identity) : Prop where
  role : id.role = roleParticipant
  access : id.access = access
  room : id.room = host.room
  device : id.deviceID = host.deviceID
  session : id.sessionID = host.sessionID
  application : id.applicationID = host.applicationID
  pool : id.poolID = host.poolID
  tenant : id.tenantID = host.tenantID
  resourceType : id.resourceType = host.resourceType
  resourceID : id.resourceID = host.resourceID
  agent : id.agentID = host.agentID
  protocol : id.protocol = host.protocol
  target : id.executionTarget = host.executionTarget
  node : id.relayNode = host.relayNode
  generation : id.relayGeneration = host.relayGeneration
  key : routingKey id = routingKey host

/-- Nothing of the host's scope goes unwritten: the application context is complete, or there
    is no pool, agent or protocol that would need it. -/
def ScopeWritten (host : Identity) : Prop :=
  (host.applicationID ≠ "" ∧ host.tenantID ≠ "" ∧ host.resourceType ≠ "" ∧ host.resourceID ≠ "") ∨
    (host.poolID = "" ∧ host.agentID = "" ∧ host.protocol = "")

section Accepting
variable {Token : Type} {jwt : Jwt Token} {j : JWTAuth} {now : Nat} {sub access tokenID : String}
  {host : Identity} {ttl : Int} {token : Token} {claims : MapClaims}

theorem written_scope (sub access tokenID : String) (accepted : Acceptable j claims host)
    (written : ScopeWritten host) (generation version : Int) :
    (inviteIdentity sub host access tokenID generation version).poolID = host.poolID ∧
      (inviteIdentity sub host access tokenID generation version).agentID = host.agentID ∧
      (inviteIdentity sub host access tokenID generation version).protocol = host.protocol := by
  unfold inviteIdentity
  rcases context_split host accepted.context with ⟨complete, -⟩ | ⟨incomplete, missing, -⟩
  · simp [complete]
  · rcases written with present | ⟨pool, agent, protocol⟩
    · exact absurd missing present.1
    · simp [incomplete, pool, agent, protocol]

theorem invite_pool_scope (accepted : Acceptable j claims host) (written : ScopeWritten host)
    (required : requiresPoolScope j relayTokenIssuer host.applicationID host.poolID) :
    contextComplete host ∧
      requiresPoolScope j (claimString claims "iss") host.applicationID host.poolID := by
  rcases context_split host accepted.context with ⟨complete, present, -⟩ | ⟨-, missing, -⟩
  · refine ⟨complete, ?_⟩
    simpa [requiresPoolScope, present] using required
  · exfalso
    rcases written with present | ⟨unpooled, -⟩
    · exact present.1 missing
    · have strict : requiresPoolScope j (claimString claims "iss") host.applicationID
          host.poolID := by
        simp only [requiresPoolScope, missing, unpooled, Bool.and_eq_true, Bool.not_eq_true',
          beq_self_eq_true, Bool.and_true, Bool.true_and] at required ⊢
        simp [required.1, required.2]
      exact (accepted.poolScope strict).2.1 missing

theorem invite_acceptable (accepted : Acceptable j claims host)
    (invited : Invited jwt j now sub host access ttl token tokenID) (named : sub ≠ "")
    (written : ScopeWritten host) :
    Acceptable j (identityClaims sub host roleParticipant access tokenID now ttl).decoded
      (inviteIdentity sub host access tokenID host.relayGeneration
        (if contextComplete host then relayContextVersion else 0)) := by
  obtain ⟨pool, agent, protocol⟩ := written_scope sub access tokenID accepted written
    host.relayGeneration (if contextComplete host then relayContextVersion else 0)
  refine
    { subject := named
      role := Or.inr (Or.inr rfl)
      access := by
        rw [invite_access]
        exact invited.grade
      audience := fun _ => invite_audience sub host access tokenID now ttl
      capable := fun _ => ⟨by simp [inviteIdentity, roleParticipant], ?_,
        invite_audience sub host access tokenID now ttl, ?_, invited.named⟩
      session := accepted.session
      target := accepted.target
      version := ?_
      generation := accepted.generation
      scopes := ?_
      protocol := protocol ▸ accepted.protocol
      context := accepted.context
      pool := pool ▸ accepted.pool
      application := accepted.application
      node := accepted.node
      poolScope := ?_ }
  · simp [inviteIdentity, roleCapabilities, roleParticipant, roleHost]
  · rw [invite_issuer]
    decide
  · cases complete : contextComplete host with
    | true => exact Or.inr rfl
    | false => exact Or.inl rfl
  · rw [pool, agent]
    exact accepted.scopes
  · rw [invite_issuer, pool]
    intro required
    obtain ⟨complete, strict⟩ := invite_pool_scope accepted written required
    refine ⟨?_, (accepted.poolScope strict).2⟩
    simp [inviteIdentity, complete]

theorem invite_keeps (accepted : Acceptable j claims host) (asked : access ≠ "")
    (written : ScopeWritten host) (version : Int) :
    KeepsScope host access (inviteIdentity sub host access tokenID host.relayGeneration version) := by
  obtain ⟨pool, agent, protocol⟩ := written_scope sub access tokenID accepted written
    host.relayGeneration version
  exact ⟨rfl, if_neg asked, rfl, rfl, rfl, rfl, pool, rfl, rfl, rfl, agent, protocol, rfl, rfl, rfl, rfl⟩

end Accepting

/-- A guest's token is accepted with exactly the host's scope when guest and access are named
    and nothing of the scope goes unwritten, and only then. -/
theorem invite_scope {Token : Type} (jwt : Jwt Token) (faithful : Faithful jwt) (j : JWTAuth)
    (hostClock now clock : Nat) (hostToken : Token) (host : Identity)
    (verified : verify jwt j hostClock hostToken = some host)
    (random : Except String (Vector UInt8 16)) (sub access : String) (ttl : Int) (token : Token)
    (made : mintInviteParticipant jwt j now random sub host access ttl = .ok token)
    (live : (clock : Int) < doubleOfInt ((now + ttl) / second) * second) :
    (∃ id, verify jwt j clock token = some id ∧ KeepsScope host access id) ↔
      sub ≠ "" ∧ access ≠ "" ∧ ScopeWritten host := by
  have bounded := verified_generation_bound faithful verified
  obtain ⟨claims, -, checks⟩ := Option.bind_eq_some_iff.mp verified
  have room := verified_room_nonempty checks
  obtain ⟨-, -, -, -, -, accepted⟩ := (verify_claims_iff j claims host).mp checks
  obtain ⟨tokenID, invited⟩ := mint_invite_invited jwt j now random sub host access ttl token made
  have paired : host.deviceID = "" → host.sessionID = "" := by
    intro missing
    rcases accepted.session with ⟨-, unscoped⟩ | ⟨present, -⟩
    · exact unscoped
    · exact absurd missing present
  have read : verify jwt j clock token =
      verifyClaims j (identityClaims sub host roleParticipant access tokenID now ttl).decoded := by
    rw [verify, faithful.readsBack j.secret _ token clock invited.signed
      (invite_lifetime sub host access tokenID now ttl clock live)]
    rfl
  rw [read]
  constructor
  · rintro ⟨id, admitted, keeps⟩
    obtain ⟨generation, version, -, -, identity, acceptable⟩ :=
      (verify_claims_iff j _ id).mp admitted
    rw [invite_identity_claimed sub host access tokenID now ttl generation version room paired
      accepted.context] at identity
    subst identity
    refine ⟨acceptable.subject, ?_, ?_⟩
    · rintro rfl
      exact absurd keeps.access (by simp [inviteIdentity, accessControl])
    · rcases context_split host accepted.context with ⟨-, present⟩ | ⟨incomplete, -⟩
      · exact Or.inl present
      · refine Or.inr ⟨keeps.pool.symm.trans ?_, keeps.agent.symm.trans ?_,
          keeps.protocol.symm.trans ?_⟩ <;> simp [inviteIdentity, incomplete]
  · rintro ⟨named, asked, written⟩
    refine ⟨_, (verify_claims_iff j _ _).mpr ⟨host.relayGeneration, _, ?_,
      invite_version_claim sub host access tokenID now ttl,
      (invite_identity_claimed sub host access tokenID now ttl _ _ room paired accepted.context).symm,
      invite_acceptable accepted invited named written⟩, invite_keeps accepted asked written _⟩
    rw [invite_generation_claim]
    by_cases zero : host.relayGeneration ≤ 0
    · rw [if_pos zero, Int.le_antisymm zero accepted.generation]
    · rw [if_neg zero, if_pos bounded]

def cell : JWTAuth := ⟨[7], false, false, false, "pool-a", "cell-a", []⟩

def pooledHost : Claims :=
  Claims.empty
    |>.set "exp" (.int 60) |>.set "sub" (.string "owner") |>.set "room" (.string "owner")
    |>.set "role" (.string "host") |>.set "device_id" (.string "device-a")
    |>.set "session_id" (.string "session-a") |>.set "pool_id" (.string "pool-a")
    |>.set "relay_node" (.string "cell-a") |>.set "relay_generation" (.int 7)

def resourceHost : Claims :=
  pooledHost
    |>.set "relay_version" (.int 3) |>.set "app_id" (.string "app-a")
    |>.set "tenant_id" (.string "tenant-a") |>.set "resource_type" (.string "project")
    |>.set "resource_id" (.string "p1") |>.set "agent_id" (.string "agent-a")

def inviteGuest (host : Identity) : Except String (Secret × Claims) :=
  mintInviteParticipant recordingJwt cell 0 (.ok (Vector.replicate 16 0)) "guest:ann-x" host
    accessView (60 * second)

theorem invite_scope_resource :
    ∃ host token id, verify recordingJwt cell 0 ([7], resourceHost) = some host ∧
      inviteGuest host = .ok token ∧ verify recordingJwt cell 5 token = some id ∧
      KeepsScope host accessView id := by
  have kept := (invite_scope recordingJwt recording_faithful cell 0 0 5 ([7], resourceHost) _ rfl
    (.ok (Vector.replicate 16 0)) "guest:ann-x" accessView (60 * second) _ rfl (by decide)).mpr
    ⟨by decide, by decide, Or.inl (by decide)⟩
  obtain ⟨id, accepted, keeps⟩ := kept
  exact ⟨_, _, id, rfl, rfl, accepted, keeps⟩

/-- The pool of a host without an application context does not reach the guest. -/
theorem invite_scope_pooled :
    ∃ host token id, verify recordingJwt cell 0 ([7], pooledHost) = some host ∧
      inviteGuest host = .ok token ∧ verify recordingJwt cell 5 token = some id ∧
      host.poolID = "pool-a" ∧ id.poolID = "" ∧ ¬ KeepsScope host accessView id := by
  refine ⟨_, _, _, rfl, rfl, rfl, rfl, rfl, ?_⟩
  intro keeps
  exact absurd keeps.pool (by decide)

end PieRelay.InviteScope
