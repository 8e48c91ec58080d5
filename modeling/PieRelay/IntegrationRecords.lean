import Mathlib.Data.Finset.Card
import PieRelay.Admission
import PieRelay.ControlPlane
import PieRelay.PreviewRecords

/-!
Integrations and what belongs to their users: integration.go, project.go and preview.go of
executor-manager/internal/control. A put first looks at the request and at the records it
refers to; then it takes the lock of its quota and the lock of its record, and decides on
what the maps hold. Both parts are functions here. Left out: the display name and the
credential profile of an integration, and of the records the fields that nothing checks.
-/
namespace PieRelay.IntegrationRecords
open Admission
open ControlPlane (ServiceError demand found demand_ok found_ok Table User Device Session validID
  projectWorkingDir)
open PreviewRecords
open RelayToken (bind_ok)
open RoomRegistry (Time)

inductive IntegrationStatus where
  | active
  | disabled
  | revoked
  deriving DecidableEq

structure Integration where
  id : String
  status : IntegrationStatus
  maxUsers : Int
  maxProjectsPerUser : Int
  maxPreviewsPerUser : Int
  maxConversationsPerUser : Int
  deriving DecidableEq

def validLimits (value : Integration) : Bool :=
  1 ≤ value.maxUsers ∧ value.maxUsers ≤ 1000000 ∧ 1 ≤ value.maxProjectsPerUser ∧
    value.maxProjectsPerUser ≤ 256 ∧ 1 ≤ value.maxPreviewsPerUser ∧ value.maxPreviewsPerUser ≤ 32 ∧
    1 ≤ value.maxConversationsPerUser ∧ value.maxConversationsPerUser ≤ 128

def sameLimits (before value : Integration) : Bool :=
  before.maxUsers = value.maxUsers ∧ before.maxProjectsPerUser = value.maxProjectsPerUser ∧
    before.maxPreviewsPerUser = value.maxPreviewsPerUser ∧
    before.maxConversationsPerUser = value.maxConversationsPerUser

inductive IntegrationUserStatus where
  | unset
  | provisioning
  | ready
  | failed
  | suspended
  | deleting
  | unknown (text : String)
  deriving DecidableEq

def validIntegrationUserStatus : IntegrationUserStatus → Bool
  | .unset | .unknown _ => false
  | _ => true

structure IntegrationUser where
  id : String
  integrationID : String
  externalUserID : String
  ownerUserID : String
  status : IntegrationUserStatus
  createdAt : Time
  updatedAt : Time
  version : Nat
  deriving DecidableEq

inductive ProjectStatus where
  | provisioning
  | ready
  | failed
  | archived
  | unknown (text : String)
  deriving DecidableEq

def validProjectStatus : ProjectStatus → Bool
  | .unknown _ => false
  | _ => true

structure Project where
  id : String
  integrationID : String
  integrationUserID : String
  ownerUserID : String
  name : String
  locale : String
  workingDir : String
  previewAppPath : String
  status : ProjectStatus
  lastError : String
  createdAt : Time
  updatedAt : Time
  version : Nat
  deriving DecidableEq

def validProjectName (value : String) : Bool :=
  value ≠ "" ∧ value.length ≤ 120 ∧ value.toList.all fun c => ¬ isControl c

def validProjectLocale (value : String) : Bool := value = "ko" ∨ value = "en" ∨ value = "ja" ∨ value = "zh"

inductive ConversationStatus where
  | creating
  | connecting
  | ready
  | running
  | reconnecting
  | closing
  | closed
  | error
  | deleted
  | unknown (text : String)
  deriving DecidableEq

def validConversationStatus : ConversationStatus → Bool
  | .unknown _ => false
  | _ => true

structure Conversation where
  id : String
  integrationID : String
  integrationUserID : String
  ownerUserID : String
  deviceID : String
  projectID : String
  sessionID : String
  status : ConversationStatus
  lastActivityAt : Time
  createdAt : Time
  updatedAt : Time
  version : Nat
  deriving DecidableEq

structure Service where
  integrations : Table Integration
  users : Table User
  devices : Table Device
  sessions : Table Session
  integrationUsers : Table IntegrationUser
  projects : Table Project
  conversations : Table Conversation
  previews : Table Preview
  previewIndex : PreviewIndex

structure Ask (Value : Type) where
  value : Value
  expected : Nat
  limit : Int

def activeIntegrationUser (integrationID : String) (value : IntegrationUser) : Bool :=
  value.integrationID = integrationID ∧ value.status ≠ .suspended ∧ value.status ≠ .deleting

def activeProject (integrationUserID : String) (value : Project) : Bool :=
  value.integrationUserID = integrationUserID ∧ value.status ≠ .archived

def openConversation (integrationUserID : String) (value : Conversation) : Bool :=
  value.integrationUserID = integrationUserID ∧ value.status ≠ .closed ∧ value.status ≠ .deleted

def activePreviewOf (integrationUserID : String) (value : Preview) : Bool :=
  value.integrationUserID = integrationUserID ∧ activePreview value

def activeIntegration (s : Service) (id : String) : Except ServiceError Integration := do
  let integration ← found (s.integrations.lookup id) .forbidden
  demand (integration.status = .active) .forbidden
  return integration

def askIntegrationUser (s : Service) (value : IntegrationUser) (expected : Nat) :
    Except ServiceError (Ask IntegrationUser) := do
  demand (validID value.id ∧ validID value.integrationID ∧ validID value.ownerUserID ∧
    trimSpace value.externalUserID ≠ "" ∧ value.externalUserID.utf8ByteSize ≤ 512) .invalid
  let value := { value with status := if value.status = .unset then .provisioning else value.status }
  demand (validIntegrationUserStatus value.status) .invalid
  let integration ← activeIntegration s value.integrationID
  demand (s.users.lookup value.ownerUserID).isSome .forbidden
  return ⟨value, expected, integration.maxUsers⟩

def trimmedProject (value : Project) : Project :=
  { value with
    name := trimSpace value.name
    locale := trimSpace value.locale
    previewAppPath := if trimSpace value.previewAppPath = "" then ""
      else (normalizePreviewAppPath value.previewAppPath).getD ""
    workingDir := if value.workingDir = "" then projectWorkingDir value.id else value.workingDir }

def askProject (s : Service) (value : Project) (expected : Nat) :
    Except ServiceError (Ask Project) := do
  let appPath := trimSpace value.previewAppPath
  let value := trimmedProject value
  demand (validID value.id ∧ validID value.integrationID ∧ validID value.integrationUserID ∧
    validID value.ownerUserID ∧ validProjectName value.name ∧ validProjectLocale value.locale ∧
    validProjectStatus value.status) .invalid
  demand (value.workingDir = projectWorkingDir value.id ∧ value.lastError.utf8ByteSize ≤ 2000) .invalid
  demand (appPath = "" ∨ (normalizePreviewAppPath appPath).isSome) .invalid
  let binding ← found (s.integrationUsers.lookup value.integrationUserID) .forbidden
  demand (binding.integrationID = value.integrationID ∧ binding.ownerUserID = value.ownerUserID) .forbidden
  let integration ← activeIntegration s value.integrationID
  return ⟨value, expected, integration.maxProjectsPerUser⟩

def askConversation (s : Service) (value : Conversation) (expected : Nat) :
    Except ServiceError (Ask Conversation) := do
  demand (validID value.id ∧ validID value.integrationID ∧ validID value.integrationUserID ∧
    validID value.ownerUserID ∧ validID value.deviceID ∧ validID value.sessionID ∧
    validConversationStatus value.status) .invalid
  let binding ← found (s.integrationUsers.lookup value.integrationUserID) .forbidden
  demand (binding.integrationID = value.integrationID ∧ binding.ownerUserID = value.ownerUserID) .forbidden
  let project ← found (s.projects.lookup value.projectID) .forbidden
  demand (project.status = .ready ∧ project.integrationID = value.integrationID ∧
    project.integrationUserID = value.integrationUserID ∧ project.ownerUserID = value.ownerUserID) .forbidden
  let device ← found (s.devices.lookup value.deviceID) .forbidden
  demand (device.kind = "docker" ∧ device.ownerUserID = value.ownerUserID) .forbidden
  let session ← found (s.sessions.lookup value.sessionID) .forbidden
  demand (session.executionTarget = "docker" ∧ session.ownerUserID = value.ownerUserID ∧
    session.deviceID = value.deviceID ∧ session.projectID = value.projectID) .forbidden
  let integration ← activeIntegration s value.integrationID
  return ⟨value, expected, integration.maxConversationsPerUser⟩

def askPreview (s : Service) (value : Preview) (expected : Nat) : Except ServiceError (Ask Preview) := do
  let value := trimmed value
  demand (validPreview value) .invalid
  let binding ← found (s.integrationUsers.lookup value.integrationUserID) .forbidden
  let integration ← activeIntegration s value.integrationID
  let project ← found (s.projects.lookup value.projectID) .forbidden
  demand (project.status = .ready ∧ binding.integrationID = value.integrationID ∧
    binding.ownerUserID = value.ownerUserID ∧ project.integrationID = value.integrationID ∧
    project.integrationUserID = value.integrationUserID ∧ project.ownerUserID = value.ownerUserID) .forbidden
  return ⟨value, expected, integration.maxPreviewsPerUser⟩

/-! The second part, under the locks. Users, projects and conversations go by one pattern. -/

structure Rules (Value : Type) where
  id : Value → String
  version : Value → Nat
  counts : Value → Value → Bool
  same : Value → Value → Bool
  stamp : Option Value → Time → Nat → Value → Value

/-- A new record needs room among those that count with it; an update keeps what may not change. -/
def putRecord {Value : Type} (rules : Rules Value) (table : Table Value) (now : Time) (ask : Ask Value) :
    Except ServiceError Value := do
  let before := table.lookup (rules.id ask.value)
  demand (before.elim (decide (ask.expected = 0)) fun before => rules.version before = ask.expected) .conflict
  demand (before.isSome ∨ (count (rules.counts ask.value) table : Int) < ask.limit) .quota
  demand (before.all fun before => rules.same before ask.value) .forbidden
  return rules.stamp before now ask.expected ask.value

def integrationUserRules : Rules IntegrationUser where
  id := IntegrationUser.id
  version := IntegrationUser.version
  counts value := activeIntegrationUser value.integrationID
  same before value := before.integrationID = value.integrationID ∧
    before.externalUserID = value.externalUserID ∧ before.ownerUserID = value.ownerUserID
  stamp before now expected value :=
    { value with createdAt := before.elim now (·.createdAt), updatedAt := now, version := expected + 1 }

def projectRules : Rules Project where
  id := Project.id
  version := Project.version
  counts value := activeProject value.integrationUserID
  same before value := before.integrationID = value.integrationID ∧
    before.integrationUserID = value.integrationUserID ∧ before.ownerUserID = value.ownerUserID ∧
    before.workingDir = value.workingDir ∧ before.name = value.name ∧ before.locale = value.locale
  stamp before now expected value :=
    { value with createdAt := before.elim now (·.createdAt), updatedAt := now, version := expected + 1 }

def conversationRules : Rules Conversation where
  id := Conversation.id
  version := Conversation.version
  counts value := openConversation value.integrationUserID
  same before value := before.integrationID = value.integrationID ∧
    before.integrationUserID = value.integrationUserID ∧ before.ownerUserID = value.ownerUserID ∧
    before.deviceID = value.deviceID ∧ before.projectID = value.projectID ∧
    before.sessionID = value.sessionID
  stamp before now expected value :=
    { value with
      lastActivityAt := if value.lastActivityAt = 0 then before.elim now (·.lastActivityAt)
        else value.lastActivityAt
      createdAt := before.elim now (·.createdAt)
      updatedAt := now
      version := expected + 1 }

def putIntegrationUser (s : Service) : Time → Ask IntegrationUser → Except ServiceError IntegrationUser :=
  putRecord integrationUserRules s.integrationUsers

def putProject (s : Service) : Time → Ask Project → Except ServiceError Project :=
  putRecord projectRules s.projects

def putConversation (s : Service) : Time → Ask Conversation → Except ServiceError Conversation :=
  putRecord conversationRules s.conversations

def zeroPreview : Preview :=
  ⟨"", "", "", "", "", "", "", "", 0, "", "", 0, .unknown "", "", 0, none, none, none, 0, 0, 0⟩

def candidates (previews : String → Option Preview) (index : PreviewIndex) (userID id : String) :
    Finset String :=
  (index.users userID).filter fun candidate =>
    ((previews candidate).getD zeroPreview).id ≠ id ∧
      activePreview ((previews candidate).getD zeroPreview)

/-- A preview counts the active ones of its user by the index, and takes no port that one of them
    has, whether it is new or not; the quota is for new ones. -/
def putPreview (previews : String → Option Preview) (index : PreviewIndex) (now : Time)
    (ask : Ask Preview) : Except ServiceError Preview := do
  let value := ask.value
  let before := previews value.id
  demand (before.elim (decide (ask.expected = 0)) fun before => before.version = ask.expected) .conflict
  demand (before.all fun before => samePreview before value) .forbidden
  demand ((index.hosts value.hostname).all fun id => id = "" ∨ id = value.id) .conflict
  let active := candidates previews index value.integrationUserID value.id
  demand (∀ candidate ∈ active, ((previews candidate).getD zeroPreview).port ≠ value.port) .conflict
  demand (before.isSome ∨ (active.card : Int) < ask.limit) .quota
  return { value with createdAt := before.elim now (·.createdAt), updatedAt := now, version := ask.expected + 1 }

section Admitted
variable {Value : Type} {rules : Rules Value} {table : Table Value} {now : Time} {ask : Ask Value}
  {value : Value}

theorem put_record_ok (admitted : putRecord rules table now ask = .ok value) :
    value = rules.stamp (table.lookup (rules.id ask.value)) now ask.expected ask.value ∧
      ((table.lookup (rules.id ask.value) = none ∧ (count (rules.counts ask.value) table : Int) < ask.limit) ∨
        ∃ before, table.lookup (rules.id ask.value) = some before ∧ rules.same before ask.value) := by
  simp only [putRecord, bind_ok, demand_ok, exists_const, decide_eq_true_eq, pure, Except.pure,
    Except.ok.injEq] at admitted
  obtain ⟨-, room, same, rfl⟩ := admitted
  refine ⟨rfl, ?_⟩
  cases stored : table.lookup (rules.id ask.value) with
  | none => exact Or.inl ⟨rfl, by simpa [stored] using room⟩
  | some before => exact Or.inr ⟨before, rfl, by simpa [stored] using same⟩

end Admitted
end PieRelay.IntegrationRecords
