import Mathlib.Algebra.Ring.Int.Defs
import Mathlib.Algebra.Ring.Nat
import Mathlib.Data.Option.Basic
import PieRelay.RoomRegistry

/-!
Relay tokens: `Identity`, `RoutingKey` and `Verify` of
server/internal/relay/jwtauth.go. The JWT library signs a claim map and reads a
signed one back; it is a parameter here, and only `Faithful` says what the relay
relies on: a token that is inside its lifetime yields the claims that were signed,
as JSON carries them. Texts are Unicode, as JSON decoding leaves them. A clock
counts nanoseconds since the Unix epoch.
-/
namespace PieRelay.RelayToken
open RoomRegistry Option

abbrev Secret := List UInt8

inductive Double where
  | nan
  | inf
  | finite (value : Rat)

inductive ClaimValue where
  | null
  | bool (value : Bool)
  | float64 (value : Double)
  | int (value : Int)
  | string (value : String)
  | strings (items : List String)
  | array (items : List ClaimValue)
  | object (members : List (String × ClaimValue))

abbrev MapClaims := String → Option ClaimValue

def relayTokenAudience : String := "pie-relay"
def relayTokenIssuer : String := "pie-relay"
def relayControlTokenIssuer : String := "pie-control"
def relayContextVersion : Int := 3

structure JWTAuth where
  secret : Secret
  requireScopedCapabilities : Bool
  requirePoolScope : Bool
  allowDirectTokensWithoutPoolScope : Bool
  poolID : String
  nodeID : String
  allowedApplications : List (String × Bool)

structure Identity where
  userID : String
  room : String
  deviceID : String
  sessionID : String
  protocolVersion : Int
  applicationID : String
  poolID : String
  tenantID : String
  resourceType : String
  resourceID : String
  agentID : String
  protocol : String
  executionTarget : String
  role : String
  access : String
  tokenID : String
  capabilities : List String
  relayNode : String
  relayGeneration : Int
  deriving DecidableEq

def isAlphanumeric (c : Char) : Bool :=
  ('A' ≤ c && c ≤ 'Z') || ('a' ≤ c && c ≤ 'z') || ('0' ≤ c && c ≤ '9')

/-- A character after the first: alphanumeric, dot, underscore, colon, slash or hyphen. -/
def isStreamIDChar (c : Char) : Bool :=
  isAlphanumeric c || c == '.' || c == '_' || c == ':' || c == '/' || c == '-'

/-- An alphanumeric first character and at most 127 further ones, anchored at both ends. -/
def streamIDPattern (text : String) : Bool :=
  match text.toList with
  | [] => false
  | first :: rest => isAlphanumeric first && rest.length ≤ 127 && rest.all isStreamIDChar

def unitSeparator : Char := Char.ofNat 0x1f

def separated (left right : String) : String := left ++ String.singleton unitSeparator ++ right

def routingKey (id : Identity) : String :=
  if id.deviceID = "" ∧ id.sessionID = "" then id.room
  else
    let key := separated (separated id.room id.deviceID) id.sessionID
    if 0 < id.relayGeneration then separated key (toString id.relayGeneration) else key

def claimString (claims : MapClaims) (name : String) : String :=
  match claims name with
  | some (.string value) => value
  | _ => ""

def claimInteger : Option ClaimValue → Option Int
  | none => some 0
  | some .null => some 0
  | some (.float64 (.finite value)) =>
    if value.den ≠ 1 ∨ 2 ^ 53 - 1 < value.num.natAbs then none else some value.num
  | some (.int value) => some value
  | _ => none

def itemString : ClaimValue → Option String
  | .string value => some value
  | _ => none

def claimContainsString (raw : ClaimValue) (want : String) : Bool :=
  match raw with
  | .string value => value == want
  | .array items => items.any fun item => itemString item == some want
  | .strings items => items.any fun item => item == want
  | _ => false

def claimStringSet : Option ClaimValue → List String
  | some (.array items) => (items.filterMap itemString).filter fun item => item ≠ ""
  | some (.strings items) => items.filter fun item => item ≠ ""
  | some (.string value) => if value = "" then [] else [value]
  | _ => []

def validRelayIssuer (value : String) : Bool :=
  value == relayTokenIssuer || value == relayControlTokenIssuer

def audienceHolds (claims : MapClaims) : Bool :=
  (claims "aud").any fun audience => claimContainsString audience relayTokenAudience

def validScope (value : String) : Bool := value == "" || streamIDPattern value

def contextValues (applicationID tenantID resourceType resourceID : String) : List String :=
  [applicationID, tenantID, resourceType, resourceID]

def contextCount (values : List String) : Nat := values.countP fun value => value ≠ ""

def requiresPoolScope (j : JWTAuth) (issuer applicationID poolID : String) : Bool :=
  j.requirePoolScope && !(issuer == relayTokenIssuer && j.allowDirectTokensWithoutPoolScope &&
    applicationID == "" && poolID == "")

def verifyClaims (j : JWTAuth) (claims : MapClaims) : Option Identity := do
  let sub := claimString claims "sub"
  guard (sub ≠ "")
  let room := if claimString claims "room" = "" then sub else claimString claims "room"
  let role := claimString claims "role"
  guard (role = "" ∨ role = roleHost ∨ role = roleParticipant)
  let access := claimString claims "access"
  guard (access = "" ∨ access = accessView ∨ access = accessControl)
  let access := if access = "" ∨ role = roleHost then accessControl else access
  guard ((claims "aud").isSome → audienceHolds claims)
  let capabilities := claimStringSet (claims "cap")
  let tokenID := claimString claims "jti"
  let issuer := claimString claims "iss"
  guard (j.requireScopedCapabilities → role ≠ "" ∧ capabilities ≠ [] ∧ audienceHolds claims ∧
    validRelayIssuer issuer ∧ tokenID ≠ "")
  let relayNode := claimString claims "relay_node"
  let relayGeneration ← claimInteger (claims "relay_generation")
  let deviceID := claimString claims "device_id"
  let sessionID := claimString claims "session_id"
  let executionTarget := claimString claims "execution_target"
  let protocolVersion ← claimInteger (claims "relay_version")
  let applicationID := claimString claims "app_id"
  let poolID := claimString claims "pool_id"
  let tenantID := claimString claims "tenant_id"
  let resourceType := claimString claims "resource_type"
  let resourceID := claimString claims "resource_id"
  let agentID := claimString claims "agent_id"
  let protocol := claimString claims "protocol"
  guard (deviceID = "" ∧ sessionID = "" ∨
    deviceID ≠ "" ∧ sessionID ≠ "" ∧ streamIDPattern deviceID ∧ streamIDPattern sessionID)
  guard (executionTarget = "" ∨ executionTarget = "local" ∨ executionTarget = "docker")
  guard (protocolVersion = 0 ∨ protocolVersion = relayContextVersion)
  guard (0 ≤ relayGeneration)
  guard ([applicationID, poolID, tenantID, resourceType, resourceID, agentID].all validScope)
  guard (protocol = "" ∨ protocol = "terminal" ∨ protocol = "acp")
  let context := contextValues applicationID tenantID resourceType resourceID
  guard (contextCount context = 0 ∨ contextCount context = context.length)
  guard (poolID = "" ∨ j.poolID = "" ∨ poolID = j.poolID)
  guard (applicationID = "" ∨ j.allowedApplications = [] ∨
    j.allowedApplications.lookup applicationID = some true)
  guard (relayNode = "" ∨ j.nodeID = "" ∨ relayNode = j.nodeID)
  guard (requiresPoolScope j issuer applicationID poolID →
    protocolVersion = relayContextVersion ∧ applicationID ≠ "" ∧ poolID ≠ "" ∧ tenantID ≠ "" ∧
    resourceType ≠ "" ∧ resourceID ≠ "" ∧ relayNode ≠ "" ∧ 1 ≤ relayGeneration ∧
    j.poolID ≠ "" ∧ j.nodeID ≠ "" ∧ j.allowedApplications ≠ [])
  some
    { userID := sub, room := room, deviceID := deviceID, sessionID := sessionID
      protocolVersion := protocolVersion, applicationID := applicationID, poolID := poolID
      tenantID := tenantID, resourceType := resourceType, resourceID := resourceID
      agentID := agentID, protocol := protocol, executionTarget := executionTarget, role := role
      access := access, tokenID := tokenID, capabilities := capabilities, relayNode := relayNode
      relayGeneration := relayGeneration }

def claimedIdentity (claims : MapClaims) (relayGeneration protocolVersion : Int) : Identity where
  userID := claimString claims "sub"
  room := if claimString claims "room" = "" then claimString claims "sub" else claimString claims "room"
  deviceID := claimString claims "device_id"
  sessionID := claimString claims "session_id"
  protocolVersion := protocolVersion
  applicationID := claimString claims "app_id"
  poolID := claimString claims "pool_id"
  tenantID := claimString claims "tenant_id"
  resourceType := claimString claims "resource_type"
  resourceID := claimString claims "resource_id"
  agentID := claimString claims "agent_id"
  protocol := claimString claims "protocol"
  executionTarget := claimString claims "execution_target"
  role := claimString claims "role"
  access :=
    if claimString claims "access" = "" ∨ claimString claims "role" = roleHost then accessControl
    else claimString claims "access"
  tokenID := claimString claims "jti"
  capabilities := claimStringSet (claims "cap")
  relayNode := claimString claims "relay_node"
  relayGeneration := relayGeneration

structure Acceptable (j : JWTAuth) (claims : MapClaims) (id : Identity) : Prop where
  subject : id.userID ≠ ""
  role : id.role = "" ∨ id.role = roleHost ∨ id.role = roleParticipant
  access : claimString claims "access" = "" ∨ claimString claims "access" = accessView ∨
    claimString claims "access" = accessControl
  audience : (claims "aud").isSome → audienceHolds claims
  capable : j.requireScopedCapabilities → id.role ≠ "" ∧ id.capabilities ≠ [] ∧
    audienceHolds claims ∧ validRelayIssuer (claimString claims "iss") ∧ id.tokenID ≠ ""
  session : id.deviceID = "" ∧ id.sessionID = "" ∨ id.deviceID ≠ "" ∧ id.sessionID ≠ "" ∧
    streamIDPattern id.deviceID ∧ streamIDPattern id.sessionID
  target : id.executionTarget = "" ∨ id.executionTarget = "local" ∨ id.executionTarget = "docker"
  version : id.protocolVersion = 0 ∨ id.protocolVersion = relayContextVersion
  generation : 0 ≤ id.relayGeneration
  scopes : [id.applicationID, id.poolID, id.tenantID, id.resourceType, id.resourceID,
    id.agentID].all validScope
  protocol : id.protocol = "" ∨ id.protocol = "terminal" ∨ id.protocol = "acp"
  context : contextCount (contextValues id.applicationID id.tenantID id.resourceType id.resourceID) = 0
    ∨ contextCount (contextValues id.applicationID id.tenantID id.resourceType id.resourceID) = 4
  pool : id.poolID = "" ∨ j.poolID = "" ∨ id.poolID = j.poolID
  application : id.applicationID = "" ∨ j.allowedApplications = [] ∨
    j.allowedApplications.lookup id.applicationID = some true
  node : id.relayNode = "" ∨ j.nodeID = "" ∨ id.relayNode = j.nodeID
  poolScope : requiresPoolScope j (claimString claims "iss") id.applicationID id.poolID →
    id.protocolVersion = relayContextVersion ∧ id.applicationID ≠ "" ∧ id.poolID ≠ "" ∧
    id.tenantID ≠ "" ∧ id.resourceType ≠ "" ∧ id.resourceID ≠ "" ∧ id.relayNode ≠ "" ∧
    1 ≤ id.relayGeneration ∧ j.poolID ≠ "" ∧ j.nodeID ≠ "" ∧ j.allowedApplications ≠ []

theorem verify_claims_iff (j : JWTAuth) (claims : MapClaims) (id : Identity) : verifyClaims j claims = some id ↔
      ∃ relayGeneration protocolVersion, claimInteger (claims "relay_generation") = some relayGeneration ∧
        claimInteger (claims "relay_version") = some protocolVersion ∧
        id = claimedIdentity claims relayGeneration protocolVersion ∧ Acceptable j claims id := by
  unfold verifyClaims
  simp only [bind, bind_eq_some_iff, guard_eq_some', exists_const, some.injEq]
  constructor
  · rintro ⟨subject, role, access, audience, capable, generation, g, version, v, session, target,
      known, counted, scopes, protocol, context, pool, application, node, poolScope, same⟩
    subst same
    exact ⟨generation, version, g, v, rfl, subject, role, access, audience, capable, session, target,
      known, counted, scopes, protocol, context, pool, application, node, poolScope⟩
  · rintro ⟨generation, version, g, v, rfl, ok⟩
    exact ⟨ok.subject, ok.role, ok.access, ok.audience, ok.capable, generation, g, version, v,
      ok.session, ok.target, ok.version, ok.generation, ok.scopes, ok.protocol, ok.context, ok.pool,
      ok.application, ok.node, ok.poolScope, rfl⟩

/-! The way through the token: what the issuers put into a claim map, and what JSON makes
of it. An integer comes back as the nearest float64, a list of strings as a list of any. -/

inductive Claim where
  | int (value : Int)
  | string (value : String)
  | strings (items : List String)

abbrev Claims := String → Option Claim

def Claims.empty : Claims := fun _ => none

def Claims.set (claims : Claims) (name : String) (claim : Claim) : Claims :=
  Function.update claims name (some claim)

def Claims.setIf (claims : Claims) (condition : Bool) (name : String) (claim : Claim) : Claims :=
  if condition then claims.set name claim else claims

/-- Round to 53 significant bits, ties to even. -/
def roundDouble (n : Nat) : Nat :=
  if n < 2 ^ 53 then n
  else
    let unit := 2 ^ (n.log2 - 52)
    let kept := n / unit
    let lost := n % unit
    (if unit < 2 * lost ∨ 2 * lost = unit ∧ kept % 2 = 1 then kept + 1 else kept) * unit

def doubleOfInt (n : Int) : Int := n.sign * roundDouble n.natAbs

def Claim.decoded : Claim → ClaimValue
  | .int value => .float64 (.finite (doubleOfInt value))
  | .string value => .string value
  | .strings items => .array (items.map .string)

def Claims.decoded (claims : Claims) : MapClaims := fun name => (claims name).map Claim.decoded

def second : Int := 1000000000

def inLifetime (claims : Claims) (clock : Nat) : Bool :=
  (match claims "exp" with
    | some (.int exp) => (clock : Int) < doubleOfInt exp * second
    | _ => false) &&
  match claims "nbf" with
    | none => true
    | some (.int nbf) => doubleOfInt nbf * second ≤ clock
    | _ => false

structure Jwt (Token : Type) where
  signedString : Secret → Claims → Except String Token
  parse : Secret → Nat → Token → Option MapClaims

/-- What the relay relies on: a live token reads back as it was signed, and a number of any
    token is the float64 that JSON decoding makes of it. -/
structure Faithful {Token : Type} (jwt : Jwt Token) : Prop where
  readsBack : ∀ secret claims token clock, jwt.signedString secret claims = .ok token →
    inLifetime claims clock → jwt.parse secret clock token = some claims.decoded
  numbers : ∀ secret token clock claims name value,
    jwt.parse secret clock token = some claims → claims name ≠ some (.int value)

def verify {Token : Type} (jwt : Jwt Token) (j : JWTAuth) (clock : Nat) (token : Token) :
    Option Identity :=
  (jwt.parse j.secret clock token).bind (verifyClaims j)

def recordingJwt : Jwt (Secret × Claims) where
  signedString := fun secret claims => .ok (secret, claims)
  parse := fun secret clock token =>
    if token.1 = secret ∧ inLifetime token.2 clock then some token.2.decoded else none

theorem recording_faithful : Faithful recordingJwt := by
  constructor
  · intro secret claims token clock signed live
    cases signed
    simp [recordingJwt, live]
  · intro secret token clock claims name value read number
    simp only [recordingJwt, ite_none_right_eq_some, some.injEq] at read
    obtain ⟨claim, -, decoded⟩ := map_eq_some_iff.mp (read.2 ▸ number)
    cases claim <;> cases decoded

def errInvalidToken : String := "invalid or expired token"

def require (condition : Bool) (message : String) : Except String Unit :=
  if condition then .ok () else .error message

def hexEncode (raw : Vector UInt8 16) : String :=
  String.ofList (raw.toList.flatMap fun byte =>
    [Nat.digitChar (byte.toNat / 16), Nat.digitChar (byte.toNat % 16)])

def randomID (random : Except String (Vector UInt8 16)) (message : String) : Except String String :=
  match random with
  | .ok raw => .ok (hexEncode raw)
  | .error _ => .error message

theorem hex_encode_nonempty (raw : Vector UInt8 16) : hexEncode raw ≠ "" := by
  intro empty
  have lists := congrArg (fun text => text.toList.length) empty
  simp [hexEncode, List.map_const'] at lists

theorem random_id_nonempty {random : Except String (Vector UInt8 16)} {message tokenID : String}
    (drawn : randomID random message = .ok tokenID) : tokenID ≠ "" := by
  cases random with
  | error => cases drawn
  | ok raw =>
    cases drawn
    exact hex_encode_nonempty raw

theorem bind_ok {ε α β : Type} {first : Except ε α} {rest : α → Except ε β} {value : β} :
    (first >>= rest) = .ok value ↔ ∃ middle, first = .ok middle ∧ rest middle = .ok value := by
  cases first <;> simp [bind, Except.bind]

theorem require_ok {condition : Bool} {message : String} {done : Unit} :
    require condition message = .ok done ↔ condition := by
  cases condition <;> simp [require]

@[simp] theorem set_same (claims : Claims) (name : String) (claim : Claim) :
    claims.set name claim name = some claim := by
  simp [Claims.set]

@[simp] theorem set_other (claims : Claims) (name key : String) (claim : Claim)
    (different : key ≠ name) : claims.set name claim key = claims key := by
  simp [Claims.set, different]

@[simp] theorem set_if_same (claims : Claims) (condition : Bool) (name : String) (claim : Claim) :
    claims.setIf condition name claim name = if condition then some claim else claims name := by
  cases condition <;> simp [Claims.setIf]

@[simp] theorem set_if_other (claims : Claims) (condition : Bool) (name key : String) (claim : Claim)
    (different : key ≠ name) : claims.setIf condition name claim key = claims key := by
  cases condition <;> simp [Claims.setIf, different]

@[simp] theorem empty_apply (key : String) : Claims.empty key = none := rfl

def readText : Option Claim → String
  | some (.string value) => value
  | _ => ""

theorem verified_room_nonempty {j : JWTAuth} {claims : MapClaims} {id : Identity}
    (accepted : verifyClaims j claims = some id) : id.room ≠ "" := by
  obtain ⟨generation, version, -, -, rfl, acceptable⟩ := (verify_claims_iff j claims id).mp accepted
  unfold claimedIdentity
  dsimp only
  split
  · exact acceptable.subject
  · assumption

theorem verified_generation_bound {Token : Type} {jwt : Jwt Token} (faithful : Faithful jwt)
    {j : JWTAuth} {clock : Nat} {token : Token} {id : Identity}
    (accepted : verify jwt j clock token = some id) : id.relayGeneration ≤ 2 ^ 53 - 1 := by
  obtain ⟨claims, read, checks⟩ := bind_eq_some_iff.mp accepted
  obtain ⟨generation, version, number, -, rfl, -⟩ := (verify_claims_iff j claims id).mp checks
  have decoded := faithful.numbers j.secret token clock claims "relay_generation"
  change generation ≤ 2 ^ 53 - 1
  unfold claimInteger at number
  split at number
  · cases number
    decide
  · cases number
    decide
  · split at number
    · contradiction
    · cases number
      omega
  · rename_i value integer
    exact absurd integer (decoded value read)
  · contradiction

theorem claim_string_decoded (claims : Claims) (name : String) :
    claimString claims.decoded name = readText (claims name) := by
  unfold claimString Claims.decoded
  rcases claims name with _ | (value | value | items) <;> rfl

-- An optional text is written only when it is not empty, and an absent one reads as empty.
theorem read_optional (text : String) : readText (if text = "" then none else some (.string text)) = text := by
  by_cases empty : text = "" <;> simp [empty, readText]

theorem read_string (text : String) : readText (some (.string text)) = text := rfl

theorem round_double_small (n : Nat) (small : n < 2 ^ 53) : roundDouble n = n := by
  rw [roundDouble, if_pos small]

theorem round_double_large (n : Nat) (large : 2 ^ 53 ≤ n) : 2 ^ 53 ≤ roundDouble n := by
  have nonzero : n ≠ 0 := by omega
  have bits : 53 ≤ n.log2 := (Nat.le_log2 nonzero).mpr large
  have power : 2 ^ (n.log2 - 52) * 2 ^ 52 ≤ n := by
    rw [← Nat.pow_add, Nat.sub_add_cancel (by omega)]
    exact Nat.log2_self_le nonzero
  have kept : 2 ^ 52 ≤ n / 2 ^ (n.log2 - 52) := by
    rw [Nat.le_div_iff_mul_le (Nat.two_pow_pos _), Nat.mul_comm]
    exact power
  have unit : 2 ^ 1 ≤ 2 ^ (n.log2 - 52) := Nat.pow_le_pow_right (by decide) (by omega)
  unfold roundDouble
  rw [if_neg (by omega)]
  dsimp only
  split
  · exact Nat.mul_le_mul (Nat.le_succ_of_le kept) unit
  · exact Nat.mul_le_mul kept unit

theorem double_of_int_nat (n : Nat) : doubleOfInt n = roundDouble n := by
  unfold doubleOfInt
  rcases Nat.eq_zero_or_pos n with zero | positive
  · subst zero
    decide
  · simp [Int.sign_natCast_of_ne_zero (Nat.pos_iff_ne_zero.mp positive)]

/-- A non-negative integer claim survives the token exactly when it is below 2^53. -/
theorem claim_integer_decoded (n : Nat) :
    claimInteger (some (Claim.int n).decoded) = if n ≤ 2 ^ 53 - 1 then some (n : Int) else none := by
  have rounded : claimInteger (some (Claim.int n).decoded) =
      if roundDouble n ≤ 2 ^ 53 - 1 then some (roundDouble n : Int) else none := by
    have whole : ((roundDouble n : Int) : Rat).den = 1 := rfl
    have value : ((roundDouble n : Int) : Rat).num = roundDouble n := rfl
    simp only [Claim.decoded, claimInteger, double_of_int_nat, whole, value, Int.natAbs_natCast]
    by_cases small : roundDouble n ≤ 2 ^ 53 - 1
    · rw [if_pos small, if_neg (by omega)]
    · rw [if_neg small, if_pos (by omega)]
  rw [rounded]
  by_cases small : n ≤ 2 ^ 53 - 1
  · rw [round_double_small n (by omega)]
  · have large := round_double_large n (by omega)
    rw [if_neg (by omega), if_neg small]

-- Both issuers write a generation only when it is positive.
theorem claim_integer_optional (generation : Int) : claimInteger (Option.map Claim.decoded
      (if 0 < generation then some (.int generation) else none)) =
      if generation ≤ 0 then some 0
      else if generation ≤ 2 ^ 53 - 1 then some generation else none := by
  by_cases positive : 0 < generation
  · obtain ⟨n, rfl⟩ := Int.eq_ofNat_of_zero_le (Int.le_of_lt positive)
    rw [if_pos positive, if_neg (by omega), map_some, claim_integer_decoded]
    by_cases small : n ≤ 2 ^ 53 - 1
    · rw [if_pos small, if_pos (by omega)]
    · rw [if_neg small, if_neg (by omega)]
  · rw [if_neg positive, if_pos (by omega)]
    rfl

end PieRelay.RelayToken
