import PieRelay.ControlPlane
import PieRelay.Executions
import PieRelay.SessionCapability

/-!
Credentials for sessions: `issueSessionCredential` of executor-manager/cmd/manager/control_api.go with
`CanAccessSession`, `PutGrant`, `RevokeGrant` and `hasGrant` of internal/control/service.go, in one
process. The handler looks at the maps several times, and they may change in between, so it is given
the maps of each of these moments. A request has been decoded.
-/
namespace PieRelay.SessionCredentials
open ControlPlane Option
open Executions
open RelayToken (Jwt Secret second bind_ok recordingJwt)
open RoomRegistry (Time)
open SessionCapability

structure AccessGrant where
  id : String
  ownerUserID : String
  subjectUserID : String
  targetDeviceID : String
  sessionID : String
  access : String
  capabilities : List String
  expiresAt : Time
  revokedAt : Option Time
  createdAt : Time
  updatedAt : Time
  version : Nat
  deriving DecidableEq

structure Maps where
  control : Service
  grants : Table AccessGrant

def allows (grant : AccessGrant) (subject deviceID sessionID access : String) (now : Time) : Bool :=
  grant.subjectUserID = subject ∧ grant.targetDeviceID = deviceID ∧ grant.revokedAt = none ∧
    now < grant.expiresAt ∧ (grant.sessionID = "" ∨ grant.sessionID = sessionID) ∧
    (access = "control" → grant.access = "control")

def hasGrant (grants : Table AccessGrant) (subject deviceID sessionID access : String) (now : Time) : Bool :=
  (values grants).any fun grant => allows grant subject deviceID sessionID access now

def authorizes (grants : Table AccessGrant) (id subject deviceID sessionID access : String) (now : Time) : Bool :=
  (grants.lookup id).any fun grant => allows grant subject deviceID sessionID access now

variable {sessionID access id : String} {now : Time} {w : Maps}

theorem has_grant_iff {grants : Table AccessGrant} {subject deviceID : String} :
    hasGrant grants subject deviceID sessionID access now ↔
      ∃ id, authorizes grants id subject deviceID sessionID access now := by
  simp only [hasGrant, List.any_eq_true, mem_values, authorizes, any_eq_true]
  constructor
  · rintro ⟨grant, ⟨id, stored⟩, passes⟩
    exact ⟨id, grant, stored, passes⟩
  · rintro ⟨id, grant, stored, passes⟩
    exact ⟨grant, ⟨id, stored⟩, passes⟩

def capabilitiesOf (access : String) : List String :=
  if access = "view" then ["terminal:view"] else ["terminal:view", "terminal:control"]

/-- `PutGrant`: the record it stores. `fresh` is the random id it draws for a grant without one. -/
def putGrant (w : Maps) (now : Time) (fresh : String) (grant : AccessGrant) (expected : Nat) :
    Except ServiceError AccessGrant := do
  let grant := { grant with id := if grant.id = "" then fresh else grant.id }
  demand (validID grant.id ∧ validID grant.ownerUserID ∧ validID grant.subjectUserID ∧
    validID grant.targetDeviceID) .invalid
  demand ((grant.access = "view" ∨ grant.access = "control") ∧ grant.expiresAt ≠ 0 ∧ now < grant.expiresAt) .invalid
  let before := w.grants.lookup grant.id
  let device ← found (w.control.devices.lookup grant.targetDeviceID) .forbidden
  demand (device.ownerUserID = grant.ownerUserID ∧ device.kind ≠ "docker") .forbidden
  let subject ← found (w.control.users.lookup grant.subjectUserID) .forbidden
  demand (subject.status = .active ∧ grant.subjectUserID ≠ grant.ownerUserID) .forbidden
  demand (before.elim (decide (expected = 0)) fun before => before.version = expected) .conflict
  return { grant with
    capabilities := capabilitiesOf grant.access
    createdAt := before.elim now AccessGrant.createdAt
    updatedAt := now
    version := expected + 1 }

def revokeGrant (w : Maps) (now : Time) (id : String) (expected : Nat) : Except ServiceError AccessGrant := do
  let before ← found (w.grants.lookup id) .notFound
  demand (before.version = expected) .conflict
  return { before with revokedAt := some now, updatedAt := now, version := before.version + 1 }

inductive Action where
  | put (grant : AccessGrant) (expected : Nat) (fresh : String) (now : Time)
  | revoke (id : String) (expected : Nat) (now : Time)
  | change (control : Service)

def filed (w : Maps) (id : String) (record : AccessGrant) : Maps := { w with grants := w.grants.insert id record }

def step (w : Maps) : Action → Option Maps
  | .put grant expected fresh now =>
    (putGrant w now fresh grant expected).toOption.map fun record => filed w record.id record
  | .revoke id expected now =>
    (revokeGrant w now id expected).toOption.map fun record => filed w id record
  | .change control => some { w with control }

structure Principal where
  userID : String
  admin : Bool
  roles : List String
  deviceID : String

def isDevice (p : Principal) : Bool := p.deviceID ≠ ""

def hasRole (p : Principal) (want : String) : Bool := p.admin ∨ want ∈ p.roles

def canOperate (p : Principal) : Bool :=
  p.admin ∨ hasRole p "pie-operator" ∨ hasRole p "pie-admin" ∨ hasRole p "pie-security-admin"

structure CredentialRequest where
  subjectUserID : String
  role : String
  access : String
  ttlSeconds : Int

structure Refusal where
  status : Nat
  text : String
  deriving DecidableEq

def allow (condition : Bool) (status : Nat) (text : String) : Except Refusal Unit :=
  if condition then .ok () else .error ⟨status, text⟩

variable {principal : Principal}

@[simp] theorem allow_ok {condition : Bool} {status : Nat} {text : String} {done : Unit} :
    allow condition status text = .ok done ↔ condition := by
  cases condition <;> simp [allow]

structure Moments where
  session : Maps
  granted : Maps
  again : Maps
  device : Maps
  placed : Maps
  asked : Time
  placedAt : Time
  minted : Nat

def canAccessSession (m : Moments) (userID sessionID access : String) : Option Session × Bool :=
  match m.session.control.sessions.lookup sessionID with
  | none => (none, false)
  | some session =>
    if session.ownerUserID = userID then (some session, true)
    else if session.executionTarget = "docker" then (some session, false)
    else (some session, hasGrant m.granted.grants userID session.deviceID session.id access m.asked)

def subjectOf (principal : Principal) (request : CredentialRequest) : String :=
  if (principal.admin ∨ canOperate principal) ∧ request.subjectUserID ≠ "" then request.subjectUserID
  else principal.userID

def roleOf (request : CredentialRequest) : String := if request.role = "" then "participant" else request.role

def accessOf (request : CredentialRequest) : String := if request.access = "" then "view" else request.access

def maxTTL (role : String) : Int := if role = "host" then 24 * hour else 12 * hour

/-- The lifetime: seconds are turned into a `time.Duration`, which may wrap around. -/
def lifetime (role : String) (ttlSeconds : Int) : Int :=
  let ttl := (ttlSeconds * second).bmod (2 ^ 64)
  let ttl := if ttl ≤ 0 then (if role = "host" then 24 * hour else hour) else ttl
  if maxTTL role < ttl then maxTTL role else ttl

structure Ticket where
  subject : String
  role : String
  access : String
  ttl : Int

def readAgain (m : Moments) (sessionID : String) (answer : Option Session × Bool) : Except Refusal Session :=
  match (if answer.2 then answer.1 else m.again.control.sessions.lookup sessionID) with
  | some session => .ok session
  | none => .error ⟨404, "404 page not found"⟩

def deviceScope (m : Moments) (principal : Principal) (session : Session) (role : String) : Except Refusal Unit :=
  if isDevice principal then do
    allow (session.deviceID = principal.deviceID ∧ session.ownerUserID = principal.userID ∧ role = "host") 403
      "device credential scope mismatch"
    allow ((m.device.control.devices.lookup principal.deviceID).any fun device => device.desiredState ≠ "revoked") 403
      "device has been revoked"
  else .ok ()

def authorize (m : Moments) (principal : Principal) (sessionID : String) (request : CredentialRequest) :
    Except Refusal (Session × Ticket) := do
  allow (¬ (isDevice principal ∧ request.subjectUserID ≠ "" ∧ request.subjectUserID ≠ principal.userID)) 403
    "device token cannot change credential subject"
  let subject := subjectOf principal request
  allow (subject ≠ "") 400 "subject user is required"
  let answer := canAccessSession m subject sessionID (accessOf request)
  allow (answer.2 ∨ canOperate principal) 403 "session access forbidden"
  let session ← readAgain m sessionID answer
  deviceScope m principal session (roleOf request)
  allow (session.executionTarget ≠ "docker" ∨ subject = session.ownerUserID) 403
    "managed Docker sessions are owner-only"
  allow (roleOf request ≠ "host" ∨ subject = session.ownerUserID ∨ canOperate principal) 403
    "host credential requires session ownership"
  return (session, ⟨subject, roleOf request, if roleOf request = "host" then "control" else accessOf request,
    lifetime (roleOf request) request.ttlSeconds⟩)

/-- `EnsureSessionRelayNode`: the session as it is afterwards and the address of its node. -/
def placeSession (s : Service) (now : Time) (sessionID : String) : Except ServiceError (Session × String) := do
  match ← ensureSessionRelayNode s now sessionID with
  | none =>
    let session ← found (s.sessions.lookup sessionID) .notFound
    return (session, if session.applicationID = "" ∧ session.poolID = "" then ""
      else (s.nodes.lookup session.relayNodeID).elim "" Node.address)
  | some moved =>
    let record ← putSession s now "" moved moved.version false
    return (record, (s.nodes.lookup moved.relayNodeID).elim "" Node.address)

def placeFailure : ServiceError → Refusal
  | .noRelayCapacity => ⟨503, "no healthy relay node is available for this pool"⟩
  | _ => ⟨400, "could not assign relay node"⟩

structure Server (Token : Type) where
  jwt : Jwt Token
  hmacSHA256 : Secret → List UInt8 → List UInt8
  issuer : Issuer
  relayPublicURL : String

def place {Token : Type} (server : Server Token) (m : Moments) (session : Session) :
    Except Refusal (Session × String) :=
  if session.applicationID ≠ "" ∨ session.poolID ≠ "" then
    (placeSession m.placed.control m.placedAt session.id).mapError placeFailure
  else .ok (session, server.relayPublicURL)

def credentialFor (session : Session) (ticket : Ticket) : SessionCredential where
  subject := ticket.subject
  room := session.ownerUserID
  deviceID := session.deviceID
  sessionID := session.id
  applicationID := session.applicationID
  poolID := session.poolID
  tenantID := session.tenantID
  resourceType := session.resourceType
  resourceID := session.resourceID
  agentID := session.agentID
  protocol := session.protocol
  executionTarget := session.executionTarget
  role := ticket.role
  access := ticket.access
  relayNode := session.relayNodeID
  relayGeneration := session.relayGeneration
  ttl := ticket.ttl
  allowInvite := ticket.role = "host" ∧ session.accessMode = "shared"

def issueSessionCredential {Token : Type} (server : Server Token) (random : Except String (Vector UInt8 16))
    (m : Moments) (principal : Principal) (sessionID : String) (request : CredentialRequest) :
    Except Refusal (Minted Token × String) := do
  allow (enabled server.issuer) 503 "relay capability issuer is not configured"
  let (session, ticket) ← authorize m principal sessionID request
  let (session, relayURL) ← place server m session
  let minted ← (mintSession server.jwt server.hmacSHA256 server.issuer m.minted random
    (credentialFor session ticket)).mapError fun _ => ⟨400, "could not issue relay capability"⟩
  return (minted, relayURL)

variable {m : Moments}

theorem lifetime_bounds (role : String) (ttlSeconds : Int) :
    0 < lifetime role ttlSeconds ∧ lifetime role ttlSeconds ≤ maxTTL role := by
  have limits : 0 < hour ∧ hour ≤ maxTTL role ∧ (role = "host" → 24 * hour ≤ maxTTL role) := by
    unfold maxTTL
    refine ⟨by decide, ?_, fun host => by rw [if_pos host]⟩
    split
    · decide
    · decide
  unfold lifetime
  dsimp only
  generalize (ttlSeconds * second).bmod (2 ^ 64) = asked
  by_cases host : role = "host"
  · have top := limits.2.2 host
    simp only [host, if_true] at limits top ⊢
    split
    · omega
    · split at * <;> omega
  · simp only [host, if_false] at limits ⊢
    split
    · omega
    · split at * <;> omega

theorem can_access_allowed {userID : String} (allowed : (canAccessSession m userID sessionID access).2) :
    ∃ session, m.session.control.sessions.lookup sessionID = some session ∧
      (canAccessSession m userID sessionID access).1 = some session ∧ (session.ownerUserID = userID ∨
        ∃ id, authorizes m.granted.grants id userID session.deviceID session.id access m.asked) := by
  unfold canAccessSession at allowed ⊢
  cases stored : m.session.control.sessions.lookup sessionID with
  | none =>
    rw [stored] at allowed
    cases allowed
  | some session =>
    simp only [stored] at allowed ⊢
    refine ⟨session, rfl, ?_⟩
    by_cases owned : session.ownerUserID = userID
    · rw [if_pos owned]
      exact ⟨rfl, .inl owned⟩
    · rw [if_neg owned] at allowed ⊢
      by_cases docker : session.executionTarget = "docker"
      · rw [if_pos docker] at allowed
        cases allowed
      · rw [if_neg docker] at allowed ⊢
        exact ⟨rfl, .inr (has_grant_iff.mp allowed)⟩

theorem subject_of_plain (plain : canOperate principal = false)
    (request : CredentialRequest) : subjectOf principal request = principal.userID := by
  have user : principal.admin = false := by
    unfold canOperate at plain
    cases admin : principal.admin with
    | false => rfl
    | true => simp [admin] at plain
  rw [subjectOf, if_neg]
  simp [user, plain]

structure Authorized (m : Moments) (principal : Principal) (sessionID : String) (request : CredentialRequest)
    (session : Session) (ticket : Ticket) : Prop where
  read : m.session.control.sessions.lookup sessionID = some session ∨
    canOperate principal ∧ m.again.control.sessions.lookup sessionID = some session
  authority : session.ownerUserID = principal.userID ∨ canOperate principal ∨
    ∃ id, authorizes m.granted.grants id principal.userID session.deviceID session.id (accessOf request) m.asked
  docker : session.executionTarget = "docker" → ticket.subject = session.ownerUserID
  host : ticket.role = "host" → session.ownerUserID = principal.userID ∨ canOperate principal
  subject : canOperate principal = false → ticket.subject = principal.userID
  access : ticket.access = if ticket.role = "host" then "control" else accessOf request
  role : ticket.role = roleOf request
  ttl : ticket.ttl = lifetime ticket.role request.ttlSeconds

theorem authorize_authorized {request : CredentialRequest} {session : Session} {ticket : Ticket}
    (ok : authorize m principal sessionID request = .ok (session, ticket)) :
    Authorized m principal sessionID request session ticket := by
  simp only [authorize, bind_ok, allow_ok, exists_const, decide_eq_true_eq, pure, Except.pure, Except.ok.injEq,
    Prod.mk.injEq] at ok
  obtain ⟨-, -, allowed, found, again, -, -, docker, host, rfl, rfl⟩ := ok
  have known : (m.session.control.sessions.lookup sessionID = some found ∧ (found.ownerUserID = subjectOf principal request ∨
      ∃ id, authorizes m.granted.grants id (subjectOf principal request) found.deviceID found.id (accessOf request)
        m.asked)) ∨
      canOperate principal ∧ m.again.control.sessions.lookup sessionID = some found := by
    unfold readAgain at again
    by_cases first : (canAccessSession m (subjectOf principal request) sessionID (accessOf request)).2
    · obtain ⟨session, stored, answer, by_whom⟩ := can_access_allowed first
      rw [if_pos first, answer] at again
      cases again
      exact .inl ⟨stored, by_whom⟩
    · rw [if_neg first] at again
      right
      refine ⟨allowed.resolve_left first, ?_⟩
      split at again
      · next stored =>
        cases again
        exact stored
      · cases again
  cases operator : canOperate principal with
  | true =>
    refine ⟨?_, .inr (.inl operator), ?_, fun _ => .inr operator, ?_, rfl, rfl, rfl⟩
    · rcases known with ⟨stored, -⟩ | again
      · exact .inl stored
      · exact .inr again
    · exact fun target => docker.resolve_left (not_not.mpr target)
    · intro plain
      rw [operator] at plain
      cases plain
  | false =>
    have own := subject_of_plain operator request
    rw [operator] at known host
    simp only [Bool.false_eq_true, false_and, or_false] at known host
    rw [own] at known host docker
    refine ⟨.inl known.1, ?_, ?_, ?_, fun _ => own, rfl, rfl, rfl⟩
    · rcases known.2 with owned | granted
      · exact .inl owned
      · exact .inr (.inr granted)
    · intro target
      rw [own]
      exact docker.resolve_left (not_not.mpr target)
    · intro asked
      exact .inl (host.resolve_left (not_not.mpr asked)).symm

theorem mint_session_terms {Token : Type} {jwt : Jwt Token} {hmacSHA256 : Secret → List UInt8 → List UInt8}
    {issuer : Issuer} {now : Nat} {random : Except String (Vector UInt8 16)} {value : SessionCredential}
    {minted : Minted Token} (made : mintSession jwt hmacSHA256 issuer now random value = .ok minted)
    (positive : 0 < value.ttl) :
    minted.role = value.role ∧ minted.access = (if value.role = "host" then "control" else value.access) ∧
      minted.expiresAt = now + value.ttl := by
  unfold mintSession at made
  simp only [bind_ok, pure, Except.pure, Except.ok.injEq] at made
  obtain ⟨-, -, -, -, -, -, -, -, room, -, -, -, -, -, -, -, tokenID, -, token, -, rfl⟩ := made
  refine ⟨rfl, rfl, ?_⟩
  show (now : Int) + sessionTTL (settled value room) = now + value.ttl
  have kept : ¬ (settled value room).ttl ≤ 0 := Int.not_le.mpr positive
  rw [sessionTTL, if_neg kept]
  rfl

def restores (id : String) : Action → Bool
  | .put grant expected fresh _ =>
    (if grant.id = "" then fresh else grant.id) = id ∧ expected ≠ 0 ∧ grant.revokedAt = none
  | _ => false

def Revoked (id : String) (w : Maps) : Prop :=
  ∃ grant, w.grants.lookup id = some grant ∧ grant.revokedAt ≠ none ∧ grant.version ≠ 0

theorem revoke_revoked {after : Maps} {expected : Nat}
    (revoked : step w (.revoke id expected now) = some after) : Revoked id after := by
  obtain ⟨record, made, rfl⟩ := map_eq_some_iff.mp revoked
  have ok := to_option_ok made
  simp only [revokeGrant, bind_ok, demand_ok, found_ok, exists_const, pure, Except.pure, Except.ok.injEq] at ok
  obtain ⟨before, -, -, rfl⟩ := ok
  exact ⟨_, AList.lookup_insert _, some_ne_none now, Nat.succ_ne_zero _⟩

theorem filed_revoked {other : String} {record : AccessGrant} (revoked : Revoked id w)
    (kept : other = id → record.revokedAt ≠ none ∧ record.version ≠ 0) : Revoked id (filed w other record) := by
  obtain ⟨grant, stored, ended, counted⟩ := revoked
  by_cases here : other = id
  · subst here
    exact ⟨record, AList.lookup_insert _, (kept rfl).1, (kept rfl).2⟩
  · exact ⟨grant, (AList.lookup_insert_ne (Ne.symm here)).trans stored, ended, counted⟩

theorem step_revoked {next : Maps} {action : Action} (stepped : step w action = some next)
    (left : restores id action = false) (revoked : Revoked id w) : Revoked id next := by
  cases action with
  | put grant expected fresh =>
    obtain ⟨record, made, rfl⟩ := map_eq_some_iff.mp stepped
    have ok := to_option_ok made
    simp only [putGrant, bind_ok, demand_ok, found_ok, exists_const, decide_eq_true_eq, pure, Except.pure,
      Except.ok.injEq] at ok
    obtain ⟨-, -, device, -, -, subject, -, -, version, rfl⟩ := ok
    refine filed_revoked revoked fun here => ⟨?_, Nat.succ_ne_zero expected⟩
    intro cleared
    -- The stored grant has a version, so an accepted put names it.
    have named : expected ≠ 0 := by
      obtain ⟨stored, found, -, counted⟩ := revoked
      change (if grant.id = "" then fresh else grant.id) = id at here
      rw [here, found] at version
      intro zero
      exact counted ((of_decide_eq_true version).trans zero)
    exact absurd (decide_eq_true ⟨here, named, cleared⟩) (Bool.eq_false_iff.mp left)
  | revoke other expected now =>
    obtain ⟨record, made, rfl⟩ := map_eq_some_iff.mp stepped
    have ok := to_option_ok made
    simp only [revokeGrant, bind_ok, demand_ok, found_ok, exists_const, pure, Except.pure, Except.ok.injEq] at ok
    obtain ⟨before, -, -, rfl⟩ := ok
    exact filed_revoked revoked fun _ => ⟨some_ne_none now, Nat.succ_ne_zero _⟩
  | change =>
    cases stepped
    exact revoked

/-- A revoked grant that authorizes again has been put again, by someone who named its version. -/
theorem authorizes_restored {after later : Maps} {actions : List Action} {expected : Nat}
    {revokedAt : Time} (revoked : step w (.revoke id expected revokedAt) = some after)
    (ran : run step after actions = some later) {subject deviceID : String}
    (authorized : authorizes later.grants id subject deviceID sessionID access now) :
    ∃ action ∈ actions, restores id action := by
  by_contra none
  push Not at none
  have ended : Revoked id later := by
    have left : Guarded step (fun _ action => restores id action = false) after actions :=
      each_guarded after actions fun _ action member => Bool.eq_false_iff.mpr (none action member)
    exact guarded_run_invariant (Revoked id) (fun _ _ _ left held stepped => step_revoked stepped left held) left ran
      (revoke_revoked revoked)
  obtain ⟨grant, stored, gone, -⟩ := ended
  rw [authorizes, stored] at authorized
  exact gone (of_decide_eq_true authorized).2.2.1

/-- What a credential says, and on whose authority it was issued. -/
theorem issued_terms {Token : Type} {server : Server Token} {random : Except String (Vector UInt8 16)} {request : CredentialRequest} {minted : Minted Token} {relayURL : String}
    (issued : issueSessionCredential server random m principal sessionID request = .ok (minted, relayURL)) :
    ∃ session ticket placed, Authorized m principal sessionID request session ticket ∧
      mintSession server.jwt server.hmacSHA256 server.issuer m.minted random (credentialFor placed ticket) = .ok minted ∧
      minted.role = ticket.role ∧ minted.access = (if ticket.role = "host" then "control" else ticket.access) ∧
      minted.expiresAt = m.minted + lifetime ticket.role request.ttlSeconds := by
  simp only [issueSessionCredential, bind_ok, allow_ok, exists_const, pure, Except.pure, Except.ok.injEq,
    Prod.mk.injEq] at issued
  obtain ⟨-, ⟨session, ticket⟩, ok, ⟨placed, url⟩, -, answer, made, rfl, -⟩ := issued
  have authorized := authorize_authorized ok
  replace made : mintSession server.jwt server.hmacSHA256 server.issuer m.minted random
      (credentialFor placed ticket) = .ok answer := by
    cases outcome : mintSession server.jwt server.hmacSHA256 server.issuer m.minted random
        (credentialFor placed ticket) with
    | ok =>
      rw [outcome] at made
      cases made
      rfl
    | error =>
      rw [outcome] at made
      cases made
  have positive : 0 < ticket.ttl := by
    rw [authorized.ttl]
    exact (lifetime_bounds ticket.role request.ttlSeconds).1
  obtain ⟨role, access, expires⟩ := mint_session_terms made positive
  refine ⟨session, ticket, placed, authorized, made, role, access, ?_⟩
  rw [← authorized.ttl]
  exact expires

/-- Whoever gets a credential owns the session, is an operator, or has a grant that is in force; a grant that had
    been revoked is in force only when someone has put it again, naming its version. The host role goes to the
    owner and to operators, and what is issued for a Docker session is in the owner's name. -/
theorem credential_authorized {Token : Type} (server : Server Token) (random : Except String (Vector UInt8 16))
    (m : Moments) (principal : Principal) (sessionID : String) (request : CredentialRequest)
    (minted : Minted Token) (relayURL : String)
    (issued : issueSessionCredential server random m principal sessionID request = .ok (minted, relayURL)) :
    ∃ session credential, (m.session.control.sessions.lookup sessionID = some session ∨
        canOperate principal ∧ m.again.control.sessions.lookup sessionID = some session) ∧
      mintSession server.jwt server.hmacSHA256 server.issuer m.minted random credential = .ok minted ∧
      (session.ownerUserID = principal.userID ∨ canOperate principal ∨
        ∃ id, authorizes m.granted.grants id principal.userID session.deviceID session.id (accessOf request) m.asked ∧
          ∀ w after actions expected revokedAt, step w (.revoke id expected revokedAt) = some after →
            run step after actions = some m.granted → ∃ action ∈ actions, restores id action) ∧
      minted.access = (if minted.role = "host" then "control" else accessOf request) ∧
      (minted.role = "host" → session.ownerUserID = principal.userID ∨ canOperate principal) ∧
      (session.executionTarget = "docker" → credential.subject = session.ownerUserID ∧
        (session.ownerUserID = principal.userID ∨ canOperate principal)) ∧
      (m.minted : Int) < minted.expiresAt ∧ minted.expiresAt ≤ m.minted + maxTTL minted.role := by
  obtain ⟨session, ticket, placed, authorized, made, role, access, expires⟩ := issued_terms issued
  obtain ⟨positive, bounded⟩ := lifetime_bounds ticket.role request.ttlSeconds
  refine ⟨session, credentialFor placed ticket, authorized.read, made, ?_, ?_, ?_, ?_, ?_, ?_⟩
  · rcases authorized.authority with owned | operator | ⟨id, granted⟩
    · exact .inl owned
    · exact .inr (.inl operator)
    · refine .inr (.inr ⟨id, granted, ?_⟩)
      intro w after actions expected revokedAt revoked ran
      exact authorizes_restored revoked ran granted
  · rw [access, role]
    show (if ticket.role = "host" then "control" else ticket.access) = _
    rw [authorized.access]
    split
    · rfl
    · rfl
  · rw [role]
    exact authorized.host
  · intro target
    refine ⟨authorized.docker target, ?_⟩
    cases operator : canOperate principal with
    | true => exact .inr rfl
    | false => exact .inl ((authorized.docker target).symm.trans (authorized.subject operator))
  · rw [expires]
    exact Int.lt_add_of_pos_right _ positive
  · rw [expires, role]
    exact Int.add_le_add_left bounded _

def guest : User := { owner with id := "guest", externalSubject := "guest" }

def sharedSession : Session :=
  { newSession with executionTarget := "local", agentMode := "terminal", status := .ready, version := 1 }

def sharedDesk : Maps where
  control := {
    users := AList.insert "guest" guest (AList.singleton "owner" owner)
    nodes := ∅
    devices := AList.singleton "desk" { desk with kind := "local" }
    runtimes := ∅
    sessions := AList.singleton "session-a" sharedSession
    participants := ∅
    projects := ∅
    conversations := ∅
    defaultApplication := ""
    defaultRelayPool := ""
    presenceSeen := [] }
  grants := ∅

def invitation : AccessGrant := ⟨"grant-a", "owner", "guest", "desk", "", "control", [], 1000, none, 0, 0, 0⟩

def visitor : Principal := ⟨"guest", false, [], ""⟩

def wanted : CredentialRequest := ⟨"", "", "control", 60⟩

def manager : Server (Secret × RelayToken.Claims) := ⟨recordingJwt, fun _ _ => [], controlPlane, "wss://relay"⟩

def drawn : Except String (Vector UInt8 16) := .ok (Vector.replicate 16 0)

def allAt (w : Maps) : Moments := ⟨w, w, w, w, w, 10, 10, 10⟩

def ask (w : Maps) : Option (Minted (Secret × RelayToken.Claims) × String) :=
  (issueSessionCredential manager drawn (allAt w) visitor "session-a" wanted).toOption

def ownedBy (w : Maps) : Option String :=
  (w.control.sessions.lookup "session-a").map fun session => session.ownerUserID

theorem ask_issued {answer : Minted (Secret × RelayToken.Claims) × String} (asked : ask w = some answer) :
    issueSessionCredential manager drawn (allAt w) visitor "session-a" wanted = .ok answer := by
  unfold ask at asked
  cases outcome : issueSessionCredential manager drawn (allAt w) visitor "session-a" wanted with
  | ok =>
    rw [outcome] at asked
    cases asked
    rfl
  | error =>
    rw [outcome] at asked
    cases asked

theorem foreign_session (owned : ownedBy w = some "owner") :
    ∀ session, w.control.sessions.lookup "session-a" = some session → session.ownerUserID ≠ visitor.userID := by
  intro session stored same
  rw [ownedBy, stored, map_some, same] at owned
  exact absurd owned (by decide)

/-- No other grant is there that could have let the guest in. -/
theorem revoked_grant_restored : ¬ ∀ (server : Server (Secret × RelayToken.Claims))
    (random : Except String (Vector UInt8 16)) (w after later : Maps) (actions : List Action) (id : String)
    (expected : Nat) (revokedAt : Time) (m : Moments) (principal : Principal) (sessionID : String)
    (request : CredentialRequest) (answer : Minted (Secret × RelayToken.Claims) × String),
    step w (.revoke id expected revokedAt) = some after → run step after actions = some later → m = allAt later →
    issueSessionCredential server random m principal sessionID request = .ok answer →
    canOperate principal = false →
    (∀ session, later.control.sessions.lookup sessionID = some session → session.ownerUserID ≠ principal.userID) →
    ∃ other deviceID sessionID access, other ≠ id ∧
      authorizes later.grants other principal.userID deviceID sessionID access m.asked := by
  intro claimed
  have outcome : ((run step sharedDesk [.put invitation 0 "" 1]).bind fun w =>
      (step w (.revoke "grant-a" 1 2)).bind fun after =>
      (run step after [.put invitation 2 "" 3]).bind fun later =>
      (ask later).map fun _ => (ownedBy later, later.grants.keys)) = some (some "owner", ["grant-a"]) := by
    decide +kernel
  obtain ⟨w, -, outcome⟩ := bind_eq_some_iff.mp outcome
  obtain ⟨after, revoked, outcome⟩ := bind_eq_some_iff.mp outcome
  obtain ⟨later, ran, outcome⟩ := bind_eq_some_iff.mp outcome
  obtain ⟨answer, asked, outcome⟩ := map_eq_some_iff.mp outcome
  simp only [Prod.mk.injEq] at outcome
  obtain ⟨owned, keys⟩ := outcome
  obtain ⟨other, deviceID, sessionID, access, apart, authorized⟩ := claimed manager drawn w after later _ "grant-a" 1 2
    _ visitor "session-a" wanted answer revoked ran rfl (ask_issued asked) rfl
    (foreign_session owned)
  obtain ⟨grant, stored, -⟩ := (any_eq_true _ _).mp authorized
  have member : other ∈ later.grants.keys := AList.mem_keys.mpr (AList.lookup_isSome.mp (by rw [stored]; rfl))
  rw [keys] at member
  exact apart (List.mem_singleton.mp member)

theorem guest_authorized : ∃ w minted relayURL, run step sharedDesk [.put invitation 0 "" 1] = some w ∧
    issueSessionCredential manager drawn (allAt w) visitor "session-a" wanted = .ok (minted, relayURL) ∧
    (10 : Int) < minted.expiresAt ∧ minted.expiresAt ≤ 10 + maxTTL minted.role := by
  have outcome : ((run step sharedDesk [.put invitation 0 "" 1]).bind fun w => (ask w).map fun _ => true) =
      some true := by decide +kernel
  obtain ⟨w, ran, outcome⟩ := bind_eq_some_iff.mp outcome
  obtain ⟨⟨minted, relayURL⟩, asked, -⟩ := map_eq_some_iff.mp outcome
  obtain ⟨_, _, -, -, -, -, -, -, lives⟩ := credential_authorized manager drawn (allAt w) visitor "session-a" wanted
    minted relayURL (ask_issued asked)
  exact ⟨w, minted, relayURL, ran, ask_issued asked, lives⟩

/-- A credential lasts as long as it was asked for, whatever the grant behind it says, which only was in force when
    the handler looked. -/
theorem guest_credential_lifetime {Token : Type} (server : Server Token)
    (random : Except String (Vector UInt8 16)) (m : Moments) (principal : Principal) (sessionID : String)
    (request : CredentialRequest) (minted : Minted Token) (relayURL : String)
    (issued : issueSessionCredential server random m principal sessionID request = .ok (minted, relayURL))
    (guest : canOperate principal = false)
    (foreign : ∀ session, m.session.control.sessions.lookup sessionID = some session →
      session.ownerUserID ≠ principal.userID) :
    minted.expiresAt = m.minted + lifetime minted.role request.ttlSeconds ∧ minted.expiresAt ≤ m.minted + 12 * hour ∧
      ∃ id grant session, m.session.control.sessions.lookup sessionID = some session ∧
        m.granted.grants.lookup id = some grant ∧
        allows grant principal.userID session.deviceID session.id (accessOf request) m.asked ∧
        minted.expiresAt < grant.expiresAt + (m.minted - m.asked) + 12 * hour := by
  obtain ⟨session, ticket, placed, authorized, -, role, -, expires⟩ := issued_terms issued
  have stored : m.session.control.sessions.lookup sessionID = some session := by
    rcases authorized.read with first | ⟨operator, -⟩
    · exact first
    · cases guest.symm.trans operator
  have short : lifetime ticket.role request.ttlSeconds ≤ 12 * hour := by
    have bounded := (lifetime_bounds ticket.role request.ttlSeconds).2
    have other : ticket.role ≠ "host" := by
      intro host
      rcases authorized.host host with owned | operator
      · exact foreign session stored owned
      · cases guest.symm.trans operator
    rwa [maxTTL, if_neg other] at bounded
  have ends : minted.expiresAt ≤ m.minted + 12 * hour := by
    rw [expires]
    exact Int.add_le_add_left short _
  refine ⟨by rw [expires, role], ends, ?_⟩
  rcases authorized.authority with owned | operator | ⟨id, granted⟩
  · exact absurd owned (foreign session stored)
  · cases guest.symm.trans operator
  · obtain ⟨grant, known, allowed⟩ := (any_eq_true _ _).mp granted
    refine ⟨id, grant, session, stored, known, allowed, ?_⟩
    have lasts : m.asked < grant.expiresAt := (of_decide_eq_true allowed).2.2.2.1
    have left : @LT.lt Int _ 0 (grant.expiresAt - m.asked) := Int.sub_pos.mpr lasts
    omega

/-- The invitation of the guest ends after a thousand nanoseconds, the credential lasts a minute. -/
theorem guest_credential_kept : ∃ w minted relayURL, run step sharedDesk [.put invitation 0 "" 1] = some w ∧
    issueSessionCredential manager drawn (allAt w) visitor "session-a" wanted = .ok (minted, relayURL) ∧
    minted.expiresAt = 10 + lifetime minted.role 60 := by
  have outcome : ((run step sharedDesk [.put invitation 0 "" 1]).bind fun w => (ask w).map fun _ => ownedBy w) =
      some (some "owner") := by decide +kernel
  obtain ⟨w, ran, outcome⟩ := bind_eq_some_iff.mp outcome
  obtain ⟨⟨minted, relayURL⟩, asked, owned⟩ := map_eq_some_iff.mp outcome
  obtain ⟨ends, -⟩ := guest_credential_lifetime manager drawn (allAt w) visitor "session-a" wanted minted relayURL
    (ask_issued asked) rfl (foreign_session owned)
  exact ⟨w, minted, relayURL, ran, ask_issued asked, ends⟩

theorem guest_credential_outlives : ¬ ∀ (server : Server (Secret × RelayToken.Claims))
    (random : Except String (Vector UInt8 16)) (m : Moments) (principal : Principal) (sessionID : String)
    (request : CredentialRequest) (minted : Minted (Secret × RelayToken.Claims)) (relayURL : String),
    issueSessionCredential server random m principal sessionID request = .ok (minted, relayURL) →
    canOperate principal = false →
    (∀ session, m.session.control.sessions.lookup sessionID = some session → session.ownerUserID ≠ principal.userID) →
    ∃ id grant session, m.session.control.sessions.lookup sessionID = some session ∧
      m.granted.grants.lookup id = some grant ∧
      allows grant principal.userID session.deviceID session.id (accessOf request) m.asked ∧
      minted.expiresAt ≤ grant.expiresAt := by
  intro claimed
  have outcome : ((run step sharedDesk [.put invitation 0 "" 1]).bind fun w => (ask w).map fun answer =>
      (ownedBy w, decide (answer.1.expiresAt = 60000000010), (values w.grants).all fun grant => grant.expiresAt = 1000)) =
      some (some "owner", true, true) := by decide +kernel
  obtain ⟨w, -, outcome⟩ := bind_eq_some_iff.mp outcome
  obtain ⟨⟨minted, relayURL⟩, asked, outcome⟩ := map_eq_some_iff.mp outcome
  simp only [Prod.mk.injEq, decide_eq_true_eq, List.all_eq_true] at outcome
  obtain ⟨owned, ends, limits⟩ := outcome
  obtain ⟨id, grant, session, -, known, -, within⟩ := claimed manager drawn (allAt w) visitor "session-a" wanted minted
    relayURL (ask_issued asked) rfl (foreign_session owned)
  have short := limits grant (mem_values.mpr ⟨id, known⟩)
  rw [ends, short] at within
  exact absurd within (by decide)

end PieRelay.SessionCredentials
