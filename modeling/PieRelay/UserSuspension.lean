import PieRelay.Executions
import PieRelay.IntegrationRecords
import PieRelay.UserLifecycle

/-!
`Suspend` of executor-manager/internal/thirdparty, for one binding. The lock of the binding admits one call at a time;
all other writes of the control plane come between its reads and writes.
-/
namespace PieRelay.UserSuspension
open List Option
open ControlPlane (ServiceError Session SessionStatus Table User values)
open Executions
open IntegrationRecords
open RelayToken (bind_ok)
open RoomRegistry (Time)

structure Settings where
  positiveCPUs : String → Bool
  defaultQuota : ControlPlane.ResourceQuota
  defaultApplication : String
  defaultRelayPool : String

def statusText : ProjectStatus → String
  | .provisioning => "provisioning"
  | .ready => "ready"
  | .failed => "failed"
  | .archived => "archived"
  | .unknown text => text

def projectOf (project : Project) : ControlPlane.Project :=
  ⟨project.id, project.ownerUserID, project.workingDir, statusText project.status⟩

def controlOf (o : Settings) (s : Service) : ControlPlane.Service where
  users := s.users
  nodes := ∅
  devices := s.devices
  runtimes := ∅
  sessions := s.sessions
  participants := ∅
  projects := ⟨s.projects.entries.map (.map id fun _ => projectOf), s.projects.nodupKeys.map₂ _ _⟩
  conversations := ∅
  defaultApplication := o.defaultApplication
  defaultRelayPool := o.defaultRelayPool
  presenceSeen := []

/-- A record is filed under its id, and every put has raised its version. -/
def Kept {Value : Type} (id : Value → String) (version : Value → Nat) (table : Table Value) : Prop :=
  ∀ key value, table.lookup key = some value → id value = key ∧ 0 < version value

structure Records where
  service : Service
  bindings : Kept IntegrationUser.id IntegrationUser.version service.integrationUsers
  users : Kept User.id User.version service.users
  sessions : Kept Session.id Session.version service.sessions
  conversations : Kept Conversation.id Conversation.version service.conversations

inductive Phase where
  | idle
  | marking (binding : IntegrationUser)
  | marked (ask : Ask IntegrationUser)
  | listing (binding : IntegrationUser)
  | closing (binding : IntegrationUser) (rest : List Conversation)
  | closingSession (binding : IntegrationUser) (session : Session) (conversation : Conversation)
      (rest : List Conversation)
  | closingConversation (binding : IntegrationUser) (conversation : Conversation) (rest : List Conversation)
  | closedConversation (binding : IntegrationUser) (ask : Ask Conversation) (rest : List Conversation)
  | removing (binding : IntegrationUser)
  | stopping (binding : IntegrationUser)
  | reading (binding : IntegrationUser)
  | deleting (binding : IntegrationUser) (user : User)
  | finishing (binding : IntegrationUser)
  | finished (ask : Ask IntegrationUser)

inductive SuspendError where
  | control (error : ServiceError)
  | store
  | credentials
  | executor
  deriving DecidableEq

structure World where
  service : Service
  phase : Phase
  answer : Option (Except SuspendError IntegrationUser)

/-- The call of the handler; `others` are writes outside of the call. `works` tells whether the store takes a record, the
    credential is removed, or the executor is stopped or not found. -/
inductive Action where
  | suspend (integration : Integration) (binding : IntegrationUser)
  | list (listed : List Conversation)
  | next (now : Time) (fresh : String) (works : Bool)
  | others (records : Records)

def onward (w : World) (phase : Phase) : World := ⟨w.service, phase, none⟩

def ends (w : World) (answer : Except SuspendError IntegrationUser) : World := ⟨w.service, .idle, some answer⟩

def putBinding (w : World) (ask : Ask IntegrationUser) (now : Time) (works : Bool) :
    Except SuspendError (IntegrationUser × Service) :=
  match putIntegrationUser w.service now ask with
  | .error error => .error (.control error)
  | .ok value =>
    if works then
      .ok (value, { w.service with integrationUsers := w.service.integrationUsers.insert value.id value })
    else .error .store

def putClosedSession (o : Settings) (s : Service) (session : Session) (now : Time) (fresh : String) (works : Bool) :
    Service :=
  match ControlPlane.putSession (controlOf o s) now fresh session session.version false with
  | .error _ => s
  | .ok value => if works then { s with sessions := s.sessions.insert value.id value } else s

def putClosedConversation (s : Service) (ask : Ask Conversation) (now : Time) (works : Bool) : Service :=
  match putConversation s now ask with
  | .error _ => s
  | .ok value => if works then { s with conversations := s.conversations.insert value.id value } else s

def putDeletedUser (o : Settings) (s : Service) (user : User) (now : Time) (works : Bool) : Service :=
  match UserLifecycle.putUser o.positiveCPUs o.defaultQuota now (s.users.lookup user.id) user user.version with
  | .error _ => s
  | .ok value => if works then { s with users := s.users.insert value.id value } else s

def closedSession (session : Session) : Session :=
  { session with status := .closed, lastError := "integration user suspended" }

def closedOf (conversation : Conversation) : Conversation := { conversation with status := .closed }

def advance (o : Settings) (w : World) (now : Time) (fresh : String) (works : Bool) : Option World :=
  match w.phase with
  | .idle | .listing _ => none
  | .marking binding =>
    match askIntegrationUser w.service binding binding.version with
    | .error error => some (ends w (.error (.control error)))
    | .ok ask => some (onward w (.marked ask))
  | .marked ask =>
    match putBinding w ask now works with
    | .error error => some (ends w (.error error))
    | .ok (binding, service) => some ⟨service, .listing binding, none⟩
  | .closing binding [] => some (onward w (.removing binding))
  | .closing binding (conversation :: rest) =>
    match w.service.sessions.lookup conversation.sessionID with
    | some session =>
      if session.status ≠ .closed then
        some (onward w (.closingSession binding (closedSession session) conversation rest))
      else some (onward w (.closingConversation binding conversation rest))
    | none => some (onward w (.closingConversation binding conversation rest))
  | .closingSession binding session conversation rest =>
    some ⟨putClosedSession o w.service session now fresh works, .closingConversation binding conversation rest, none⟩
  | .closingConversation binding conversation rest =>
    match askConversation w.service (closedOf conversation) conversation.version with
    | .error _ => some (onward w (.closing binding rest))
    | .ok ask => some (onward w (.closedConversation binding ask rest))
  | .closedConversation binding ask rest =>
    some ⟨putClosedConversation w.service ask now works, .closing binding rest, none⟩
  | .removing binding =>
    if works then some (onward w (.stopping binding)) else some (ends w (.error .credentials))
  | .stopping binding =>
    if works then some (onward w (.reading binding)) else some (ends w (.error .executor))
  | .reading binding =>
    match w.service.users.lookup binding.ownerUserID with
    | some user => some (onward w (.deleting binding { user with status := .deleted }))
    | none => some (onward w (.finishing binding))
  | .deleting binding user => some ⟨putDeletedUser o w.service user now works, .finishing binding, none⟩
  | .finishing binding =>
    match askIntegrationUser w.service { binding with status := .suspended } binding.version with
    | .error error => some (ends w (.error (.control error)))
    | .ok ask => some (onward w (.finished ask))
  | .finished ask =>
    match putBinding w ask now works with
    | .error error => some (ends w (.error error))
    | .ok (binding, service) => some ⟨service, .idle, some (.ok binding)⟩

def toClose (bindingID : String) (listed : List Conversation) : List Conversation :=
  listed.filter (openConversation bindingID)

def begin (w : World) (integration : Integration) (binding : IntegrationUser) : World :=
  if binding.integrationID ≠ integration.id then ends w (.error (.control .forbidden))
  else match w.service.integrationUsers.lookup binding.id with
    | none => ends w (.error (.control .notFound))
    | some current =>
      if current.status = .suspended then ends w (.ok current)
      else onward w (.marking { current with status := .deleting })

def step (o : Settings) (bindingID : String) (w : World) : Action → Option World
  | .suspend integration binding =>
    match w.phase with
    | .idle => if binding.id = bindingID then some (begin w integration binding) else none
    | _ => none
  | .list listed =>
    match w.phase with
    | .listing binding =>
      if listed.Perm (values w.service.conversations) ∧
          listed.Pairwise (fun first later => later.createdAt ≤ first.createdAt) then
        some (onward w (.closing binding (toClose binding.id listed)))
      else none
    | _ => none
  | .next now fresh works => advance o w now fresh works
  | .others records => some ⟨records.service, w.phase, none⟩

def isClosed (conversation : Conversation) : Bool :=
  conversation.status = .closed ∨ conversation.status = .deleted

def sessionClosed (s : Service) (sessionID : String) : Bool :=
  (s.sessions.lookup sessionID).all fun session => session.status = .closed

def inactive (s : Service) (userID : String) : Bool :=
  (s.users.lookup userID).all fun user => user.status ≠ .active

structure Complete (s : Service) (binding : IntegrationUser) : Prop where
  conversations : ∀ id conversation, s.conversations.lookup id = some conversation →
    conversation.integrationUserID = binding.id → conversation.status = .closed ∨ conversation.status = .deleted
  sessions : ∀ id conversation, s.conversations.lookup id = some conversation →
    conversation.integrationUserID = binding.id →
    ∀ session, s.sessions.lookup conversation.sessionID = some session → session.status = .closed
  owner : ∀ user, s.users.lookup binding.ownerUserID = some user → user.status ≠ .active

/-- Other writes open nothing again: a conversation of the binding and its session are closed, or as they were before or
    closer to it; and the owner is not made active. -/
structure Keeps (bindingID ownerUserID : String) (s s' : Service) : Prop where
  conversations : ∀ id conversation, s'.conversations.lookup id = some conversation →
    conversation.integrationUserID = bindingID →
    (isClosed conversation ∧ sessionClosed s' conversation.sessionID) ∨
      ∃ before, s.conversations.lookup id = some before ∧ before.integrationUserID = bindingID ∧
        before.sessionID = conversation.sessionID ∧ (isClosed before → isClosed conversation) ∧
        (sessionClosed s conversation.sessionID → sessionClosed s' conversation.sessionID)
  owner : inactive s ownerUserID → inactive s' ownerUserID

def Phase.listed : Phase → Option IntegrationUser
  | .closing binding _ | .closingSession binding _ _ _ | .closingConversation binding _ _
  | .closedConversation binding _ _ | .removing binding | .stopping binding | .reading binding | .deleting binding _
  | .finishing binding => some binding
  | .finished ask => some ask.value
  | _ => none

def accepted {Value : Type} (works : Bool) (result : Except ServiceError Value) : Bool :=
  works && result.toOption.isSome

/-- A put whose error is ignored is accepted, unless what it is for is so already. -/
def lands (o : Settings) (bindingID : String) (w : World) (now : Time) (fresh : String) (works : Bool) : Bool :=
  match w.phase with
  | .closingSession _ session conversation _ => sessionClosed w.service conversation.sessionID ||
      accepted works (ControlPlane.putSession (controlOf o w.service) now fresh session session.version false)
  | .closingConversation _ conversation _ =>
    ((w.service.conversations.lookup conversation.id).all fun current =>
      current.integrationUserID = bindingID → isClosed current) ||
    accepted true (askConversation w.service (closedOf conversation) conversation.version)
  | .closedConversation _ ask _ =>
    ((w.service.conversations.lookup ask.value.id).all fun current =>
      current.integrationUserID = bindingID → isClosed current) ||
    accepted works (putConversation w.service now ask)
  | .deleting _ user => inactive w.service user.id ||
      accepted works (UserLifecycle.putUser o.positiveCPUs o.defaultQuota now (w.service.users.lookup user.id) user
        user.version)
  | _ => true

def skipped (bindingID : String) (s : Service) (listed : List Conversation) : Bool :=
  listed.all fun conversation =>
    conversation.integrationUserID = bindingID → isClosed conversation → sessionClosed s conversation.sessionID

/-- No other write suspends the binding; and none opens anything again, once the call has listed the conversations or the
    binding is suspended. -/
structure Apart (bindingID : String) (w : World) (s' : Service) : Prop where
  running : ∀ binding, w.phase.listed = some binding → Keeps bindingID binding.ownerUserID w.service s'
  suspended : ∀ binding, s'.integrationUsers.lookup bindingID = some binding → binding.status = .suspended →
    (∃ before, w.service.integrationUsers.lookup bindingID = some before ∧ before.status = .suspended ∧
      before.ownerUserID = binding.ownerUserID) ∧ Keeps bindingID binding.ownerUserID w.service s'

def Careful (o : Settings) (bindingID : String) (w : World) : Action → Prop
  | .suspend _ _ => True
  | .list listed => skipped bindingID w.service listed
  | .next now fresh works => lands o bindingID w now fresh works
  | .others records => Apart bindingID w records.service

/-- Each conversation of the binding is closed with its session, or it is still to come, or only its session is closed
    and it comes now. -/
def Covered (bindingID : String) (s : Service) (pending current : List Conversation) : Prop :=
  ∀ id conversation, s.conversations.lookup id = some conversation → conversation.integrationUserID = bindingID →
    (isClosed conversation ∧ sessionClosed s conversation.sessionID) ∨
    (∃ listed ∈ pending, listed.id = id ∧ listed.sessionID = conversation.sessionID) ∨
    ((∃ listed ∈ current, listed.id = id ∧ listed.sessionID = conversation.sessionID) ∧
      sessionClosed s conversation.sessionID)

def Listed (bindingID : String) (conversation : Conversation) : Prop :=
  conversation.integrationUserID = bindingID ∧ 0 < conversation.version

def PhaseInv (bindingID : String) (s : Service) : Phase → Prop
  | .idle => True
  | .marking binding => binding.id = bindingID ∧ binding.status = .deleting
  | .marked ask => ask.value.id = bindingID ∧ ask.value.status = .deleting
  | .listing binding => binding.id = bindingID
  | .closing binding rest =>
    binding.id = bindingID ∧ (∀ listed ∈ rest, Listed bindingID listed) ∧ Covered bindingID s rest []
  | .closingSession binding session conversation rest =>
    binding.id = bindingID ∧ (∀ listed ∈ conversation :: rest, Listed bindingID listed) ∧
      Covered bindingID s (conversation :: rest) [] ∧ session.id = conversation.sessionID ∧ 0 < session.version ∧
      session.status = .closed
  | .closingConversation binding conversation rest =>
    binding.id = bindingID ∧ (∀ listed ∈ conversation :: rest, Listed bindingID listed) ∧
      Covered bindingID s rest [conversation]
  | .closedConversation binding ask rest =>
    binding.id = bindingID ∧ (∀ listed ∈ rest, Listed bindingID listed) ∧ ask.value.integrationUserID = bindingID ∧
      ask.value.status = .closed ∧ 0 < ask.expected ∧ Covered bindingID s rest [ask.value]
  | .removing binding | .stopping binding | .reading binding => binding.id = bindingID ∧ Covered bindingID s [] []
  | .deleting binding user =>
    binding.id = bindingID ∧ Covered bindingID s [] [] ∧ user.id = binding.ownerUserID ∧ 0 < user.version ∧
      user.status = .deleted
  | .finishing binding =>
    binding.id = bindingID ∧ Covered bindingID s [] [] ∧ inactive s binding.ownerUserID
  | .finished ask =>
    ask.value.id = bindingID ∧ ask.value.status = .suspended ∧ Covered bindingID s [] [] ∧
      inactive s ask.value.ownerUserID

structure AllKept (s : Service) : Prop where
  bindings : Kept IntegrationUser.id IntegrationUser.version s.integrationUsers
  users : Kept User.id User.version s.users
  sessions : Kept Session.id Session.version s.sessions
  conversations : Kept Conversation.id Conversation.version s.conversations

structure Inv (bindingID : String) (w : World) : Prop where
  kept : AllKept w.service
  phase : PhaseInv bindingID w.service w.phase
  suspended : ∀ binding, w.service.integrationUsers.lookup bindingID = some binding → binding.status = .suspended →
    Complete w.service binding
  answer : ∀ binding, w.answer = some (.ok binding) → binding.status = .suspended ∧ Complete w.service binding

section Puts
variable {s : Service} {bindingID : String} {now : Time} {fresh : String} {works : Bool}

theorem kept_insert {Value : Type} {id : Value → String} {version : Value → Nat} {table : Table Value}
    (kept : Kept id version table) {value : Value} (raised : 0 < version value) :
    Kept id version (table.insert (id value) value) := by
  intro key other stored
  by_cases same : key = id value
  · subst same
    rw [AList.lookup_insert] at stored
    cases stored
    exact ⟨rfl, raised⟩
  · rw [AList.lookup_insert_ne same] at stored
    exact kept key other stored

theorem put_replaces {Value : Type} {rules : Rules Value} {table : Table Value} {ask : Ask Value} {value : Value}
    (admitted : putRecord rules table now ask = .ok value) (later : 0 < ask.expected) :
    ∃ before, table.lookup (rules.id ask.value) = some before ∧ rules.same before ask.value := by
  obtain ⟨-, ⟨absent, -⟩ | there⟩ := put_record_ok admitted
  · simp only [putRecord, bind_ok, ControlPlane.demand_ok, exists_const, absent, Option.elim, decide_eq_true_eq]
      at admitted
    omega
  · exact there

theorem ask_binding_ok {value : IntegrationUser} {expected : Nat} {ask : Ask IntegrationUser}
    (asked : askIntegrationUser s value expected = .ok ask) (set : value.status ≠ .unset) :
    ask.value = value ∧ ask.expected = expected := by
  simp only [askIntegrationUser, bind_ok, ControlPlane.demand_ok, exists_const, pure, Except.pure, Except.ok.injEq,
    if_neg set] at asked
  obtain ⟨-, -, integration, -, -, rfl⟩ := asked
  exact ⟨rfl, rfl⟩

theorem ask_conversation_ok {value : Conversation} {expected : Nat} {ask : Ask Conversation}
    (asked : askConversation s value expected = .ok ask) : ask.value = value ∧ ask.expected = expected := by
  simp only [askConversation, bind_ok, ControlPlane.demand_ok, exists_const, pure, Except.pure,
    Except.ok.injEq] at asked
  obtain ⟨-, binding, -, -, project, -, -, device, -, -, session, -, -, integration, -, rfl⟩ := asked
  exact ⟨rfl, rfl⟩

end Puts

section Keeping
variable {s s' : Service} {bindingID ownerUserID : String} {pending current : List Conversation}

theorem all_closed {sessionID : String} : sessionClosed s sessionID ↔
      ∀ session, s.sessions.lookup sessionID = some session → session.status = .closed := by
  simp [sessionClosed, Option.all_eq_true]

theorem all_inactive {userID : String} :
    inactive s userID ↔ ∀ user, s.users.lookup userID = some user → user.status ≠ .active := by
  simp [inactive, Option.all_eq_true]

theorem complete_iff {binding : IntegrationUser} :
    Complete s binding ↔ Covered binding.id s [] [] ∧ inactive s binding.ownerUserID := by
  constructor
  · intro complete
    refine ⟨fun id conversation stored mine => Or.inl ⟨?_, ?_⟩, all_inactive.mpr complete.owner⟩
    · simpa [isClosed] using complete.conversations id conversation stored mine
    · exact all_closed.mpr (complete.sessions id conversation stored mine)
  · rintro ⟨covered, owner⟩
    have done : ∀ id conversation, s.conversations.lookup id = some conversation →
        conversation.integrationUserID = binding.id →
        isClosed conversation ∧ sessionClosed s conversation.sessionID := by
      intro id conversation stored mine
      obtain done | ⟨_, absent, _⟩ | ⟨⟨_, absent, _⟩, _⟩ := covered id conversation stored mine
      · exact done
      · cases absent
      · cases absent
    refine ⟨fun id conversation stored mine => ?_, fun id conversation stored mine => ?_, all_inactive.mp owner⟩
    · simpa [isClosed] using (done id conversation stored mine).1
    · exact all_closed.mp (done id conversation stored mine).2

theorem keeps_refl : Keeps bindingID ownerUserID s s := by
  refine ⟨fun id conversation stored mine => Or.inr ⟨conversation, stored, mine, rfl, fun closed => closed, ?_⟩,
    fun owner => owner⟩
  exact fun closed => closed

theorem covered_keeps (keeps : Keeps bindingID ownerUserID s s') (covered : Covered bindingID s pending current) :
    Covered bindingID s' pending current := by
  intro id conversation stored mine
  obtain done | ⟨before, there, owned, same, closes, session⟩ := keeps.conversations id conversation stored mine
  · exact Or.inl done
  · obtain ⟨closed, shut⟩ | ⟨listed, member, named, other⟩ | ⟨⟨listed, member, named, other⟩, shut⟩ :=
      covered id before there owned
    · rw [same] at shut
      exact Or.inl ⟨closes closed, session shut⟩
    · exact Or.inr (Or.inl ⟨listed, member, named, other.trans same⟩)
    · rw [same] at shut
      exact Or.inr (Or.inr ⟨⟨listed, member, named, other.trans same⟩, session shut⟩)

theorem complete_keeps {binding : IntegrationUser} (keeps : Keeps binding.id binding.ownerUserID s s')
    (complete : Complete s binding) : Complete s' binding := by
  obtain ⟨covered, owner⟩ := complete_iff.mp complete
  exact complete_iff.mpr ⟨covered_keeps keeps covered, keeps.owner owner⟩

theorem covered_session {conversation : Conversation} (covered : Covered bindingID s (conversation :: pending) [])
    (closed : sessionClosed s conversation.sessionID) : Covered bindingID s pending [conversation] := by
  intro id stored there mine
  obtain done | ⟨listed, member, named, same⟩ | ⟨⟨_, absent, _⟩, _⟩ := covered id stored there mine
  · exact Or.inl done
  · rcases mem_cons.mp member with rfl | later
    · rw [same] at closed
      exact Or.inr (Or.inr ⟨⟨listed, mem_singleton_self listed, named, same⟩, closed⟩)
    · exact Or.inr (Or.inl ⟨listed, later, named, same⟩)
  · cases absent

theorem covered_conversation {conversation : Conversation} (covered : Covered bindingID s pending [conversation])
    (closed : ∀ stored, s.conversations.lookup conversation.id = some stored →
      stored.integrationUserID = bindingID → isClosed stored) : Covered bindingID s pending [] := by
  intro id stored there mine
  obtain done | later | ⟨⟨listed, member, named, same⟩, shut⟩ := covered id stored there mine
  · exact Or.inl done
  · exact Or.inr (Or.inl later)
  · cases mem_singleton.mp member
    subst named
    exact Or.inl ⟨closed stored there mine, shut⟩

theorem covered_listed {listed : List Conversation} (kept : Kept Conversation.id Conversation.version s.conversations)
    (order : listed.Perm (values s.conversations)) (skips : skipped bindingID s listed) :
    Covered bindingID s (toClose bindingID listed) [] := by
  intro id conversation stored mine
  have member : conversation ∈ listed := order.mem_iff.mpr (ControlPlane.mem_values.mpr ⟨id, stored⟩)
  have skip := all_eq_true.mp skips conversation member
  simp only [decide_eq_true_eq] at skip
  by_cases closed : isClosed conversation
  · exact Or.inl ⟨closed, skip mine closed⟩
  · refine Or.inr (Or.inl ⟨conversation, mem_filter.mpr ⟨member, ?_⟩, (kept id conversation stored).1, rfl⟩)
    simp only [isClosed, decide_eq_true_eq, not_or] at closed
    simp only [openConversation, decide_eq_true_eq]
    exact ⟨mine, closed.1, closed.2⟩

end Keeping

structure Closes (bindingID : String) (s s' : Service) : Prop where
  kept : AllKept s'
  bindings : s'.integrationUsers = s.integrationUsers
  keeps : ∀ ownerUserID, Keeps bindingID ownerUserID s s'
  sessions : ∀ sessionID, sessionClosed s sessionID → sessionClosed s' sessionID
  conversations : ∀ id conversation, s'.conversations.lookup id = some conversation →
    s.conversations.lookup id = some conversation ∨ isClosed conversation

section Ignored
variable {o : Settings} {s : Service} {bindingID : String} {now : Time} {fresh : String} {works : Bool}

theorem closes_refl (kept : AllKept s) : Closes bindingID s s :=
  ⟨kept, rfl, fun _ => keeps_refl, fun _ closed => closed, fun _ _ stored => Or.inl stored⟩

theorem accepted_ok {Value : Type} {result : Except ServiceError Value} (taken : accepted works result) :
    works ∧ ∃ value, result = .ok value := by
  simp only [accepted, Bool.and_eq_true, isSome_iff_exists] at taken
  obtain ⟨works, value, ok⟩ := taken
  exact ⟨works, value, ControlPlane.to_option_ok ok⟩

section
variable (kept : AllKept s)
include kept

theorem session_closes {value : Session} (raised : 0 < value.version) (closed : value.status = .closed) :
    Closes bindingID s { s with sessions := s.sessions.insert value.id value } ∧
      sessionClosed { s with sessions := s.sessions.insert value.id value } value.id := by
  have inserted : ∀ sessionID, sessionClosed s sessionID ∨ sessionID = value.id →
      sessionClosed { s with sessions := s.sessions.insert value.id value } sessionID := by
    intro sessionID before
    refine all_closed.mpr fun other there => ?_
    change (s.sessions.insert value.id value).lookup sessionID = some other at there
    by_cases same : sessionID = value.id
    · rw [same, AList.lookup_insert] at there
      cases there
      exact closed
    · rw [AList.lookup_insert_ne same] at there
      exact all_closed.mp (before.resolve_right same) other there
  refine ⟨⟨?_, rfl, fun _ => ⟨?_, fun owner => owner⟩, fun _ before => inserted _ (Or.inl before),
    fun _ _ stored => Or.inl stored⟩, inserted _ (Or.inr rfl)⟩
  · exact ⟨kept.bindings, kept.users, kept_insert kept.sessions raised, kept.conversations⟩
  · intro id conversation stored mine
    exact Or.inr ⟨conversation, stored, mine, rfl, fun closed => closed, fun before => inserted _ (Or.inl before)⟩

theorem conversation_closes {value before : Conversation} (raised : 0 < value.version)
    (closed : isClosed value) (there : s.conversations.lookup value.id = some before)
    (mine : before.integrationUserID = bindingID) (session : before.sessionID = value.sessionID) :
    Closes bindingID s { s with conversations := s.conversations.insert value.id value } := by
  refine ⟨?_, rfl, fun _ => ⟨?_, fun owner => owner⟩, fun _ closed => closed, fun id conversation stored => ?_⟩
  · exact ⟨kept.bindings, kept.users, kept.sessions, kept_insert kept.conversations raised⟩
  · intro id conversation stored owned
    change (s.conversations.insert value.id value).lookup id = some conversation at stored
    by_cases here : id = value.id
    · subst here
      rw [AList.lookup_insert] at stored
      cases stored
      exact Or.inr ⟨before, there, mine, session, fun _ => closed, fun closed => closed⟩
    · rw [AList.lookup_insert_ne here] at stored
      exact Or.inr ⟨conversation, stored, owned, rfl, fun closed => closed, fun closed => closed⟩
  · change (s.conversations.insert value.id value).lookup id = some conversation at stored
    by_cases here : id = value.id
    · subst here
      rw [AList.lookup_insert] at stored
      cases stored
      exact Or.inr closed
    · rw [AList.lookup_insert_ne here] at stored
      exact Or.inl stored

theorem user_closes {value : User} (raised : 0 < value.version) (deleted : value.status = .deleted) :
    Closes bindingID s { s with users := s.users.insert value.id value } ∧
      inactive { s with users := s.users.insert value.id value } value.id := by
  have inserted : ∀ userID, inactive s userID ∨ userID = value.id →
      inactive { s with users := s.users.insert value.id value } userID := by
    intro userID before
    refine all_inactive.mpr fun other there => ?_
    change (s.users.insert value.id value).lookup userID = some other at there
    by_cases same : userID = value.id
    · rw [same, AList.lookup_insert] at there
      cases there
      rw [deleted]
      exact nofun
    · rw [AList.lookup_insert_ne same] at there
      exact all_inactive.mp (before.resolve_right same) other there
  refine ⟨⟨?_, rfl, fun _ => ⟨?_, fun owner => inserted _ (Or.inl owner)⟩, fun _ closed => closed,
    fun _ _ stored => Or.inl stored⟩, inserted _ (Or.inr rfl)⟩
  · exact ⟨kept.bindings, kept_insert kept.users raised, kept.sessions, kept.conversations⟩
  · intro id conversation stored mine
    exact Or.inr ⟨conversation, stored, mine, rfl, fun closed => closed, fun closed => closed⟩

theorem put_session_closes {session : Session} (raised : 0 < session.version) (closed : session.status = .closed) :
    Closes bindingID s (putClosedSession o s session now fresh works) ∧
      (accepted works (ControlPlane.putSession (controlOf o s) now fresh session session.version false) →
        sessionClosed (putClosedSession o s session now fresh works) session.id) := by
  rw [putClosedSession]
  cases result : ControlPlane.putSession (controlOf o s) now fresh session session.version false with
  | error =>
    refine ⟨closes_refl kept, fun taken => ?_⟩
    obtain ⟨-, value, absurd⟩ := accepted_ok taken
    cases absurd
  | ok value =>
    have put := ControlPlane.put_session_ok result
    have named : value.id = session.id := by
      rw [put.id, if_neg fun blank => absurd blank.2 (Nat.ne_of_gt raised)]
    have done : value.status = .closed := by
      rw [put.status, closed]
      rfl
    have written : Closes bindingID s _ ∧ _ := session_closes kept (put.version ▸ Nat.succ_pos _) done
    cases works with
    | false =>
      refine ⟨closes_refl kept, fun taken => ?_⟩
      cases (accepted_ok taken).1
    | true =>
      rw [← named]
      exact ⟨written.1, fun _ => written.2⟩

theorem put_conversation_closes {ask : Ask Conversation}
    (mine : ask.value.integrationUserID = bindingID) (raised : 0 < ask.expected) (closed : ask.value.status = .closed) :
    Closes bindingID s (putClosedConversation s ask now works) ∧ (accepted works (putConversation s now ask) →
        ∀ stored, (putClosedConversation s ask now works).conversations.lookup ask.value.id = some stored →
          isClosed stored) := by
  rw [putClosedConversation]
  cases result : putConversation s now ask with
  | error =>
    refine ⟨closes_refl kept, fun taken => ?_⟩
    obtain ⟨-, value, absurd⟩ := accepted_ok taken
    cases absurd
  | ok value =>
    obtain ⟨before, there, same⟩ := put_replaces result raised
    have stamped := (put_record_ok result).1
    have named : value.id = ask.value.id := by
      rw [stamped]
      rfl
    have done : isClosed value := by
      rw [stamped]
      simp [isClosed, conversationRules, closed]
    have session : value.sessionID = ask.value.sessionID := by
      rw [stamped]
      rfl
    have raises : 0 < value.version := by
      rw [stamped]
      exact Nat.succ_pos _
    simp only [conversationRules, decide_eq_true_eq] at same
    have written := conversation_closes kept raises done (named ▸ there) (same.2.1.trans mine)
      (same.2.2.2.2.2.trans session.symm)
    cases works with
    | false =>
      refine ⟨closes_refl kept, fun taken => ?_⟩
      cases (accepted_ok taken).1
    | true =>
      refine ⟨written, fun _ stored here => ?_⟩
      change (s.conversations.insert value.id value).lookup ask.value.id = some stored at here
      rw [← named, AList.lookup_insert] at here
      cases here
      exact done

theorem put_user_closes {user : User} (deleted : user.status = .deleted) :
    Closes bindingID s (putDeletedUser o s user now works) ∧
      (accepted works (UserLifecycle.putUser o.positiveCPUs o.defaultQuota now (s.users.lookup user.id) user
        user.version) → inactive (putDeletedUser o s user now works) user.id) := by
  rw [putDeletedUser]
  cases result : UserLifecycle.putUser o.positiveCPUs o.defaultQuota now (s.users.lookup user.id) user user.version with
  | error =>
    refine ⟨closes_refl kept, fun taken => ?_⟩
    obtain ⟨-, value, absurd⟩ := accepted_ok taken
    cases absurd
  | ok value =>
    obtain ⟨-, -, named, -, -, -, status, -⟩ := UserLifecycle.put_user_ok result
    have done : value.status = .deleted := by
      rw [status, deleted]
      rfl
    have raises : 0 < value.version := by
      simp only [UserLifecycle.putUser, bind_ok, ControlPlane.demand_ok, exists_const, pure, Except.pure,
        Except.ok.injEq] at result
      obtain ⟨-, -, -, rfl⟩ := result
      exact Nat.succ_pos _
    have written : Closes bindingID s _ ∧ _ := user_closes kept raises done
    cases works with
    | false =>
      refine ⟨closes_refl kept, fun taken => ?_⟩
      cases (accepted_ok taken).1
    | true =>
      rw [← named]
      exact ⟨written.1, fun _ => written.2⟩

end

end Ignored

section Steps
variable {o : Settings} {bindingID : String} {w : World} {now : Time} {fresh : String} {works : Bool}
variable {ask : Ask IntegrationUser} {binding : IntegrationUser} {next : World} {rest : List Conversation}

theorem inv_onward (inv : Inv bindingID w) {phase : Phase} (here : PhaseInv bindingID w.service phase) :
    Inv bindingID (onward w phase) :=
  ⟨inv.kept, here, inv.suspended, nofun⟩

theorem inv_refused (inv : Inv bindingID w) (error : SuspendError) : Inv bindingID (ends w (.error error)) :=
  ⟨inv.kept, trivial, inv.suspended, nofun⟩

theorem inv_closes (inv : Inv bindingID w) {s' : Service} {phase : Phase} (closes : Closes bindingID w.service s')
    (here : PhaseInv bindingID s' phase) : Inv bindingID ⟨s', phase, none⟩ := by
  refine ⟨closes.kept, here, fun binding stored suspended => ?_, nofun⟩
  change s'.integrationUsers.lookup bindingID = some binding at stored
  rw [closes.bindings] at stored
  have named : binding.id = bindingID := (inv.kept.bindings bindingID binding stored).1
  exact complete_keeps (named ▸ closes.keeps _) (inv.suspended binding stored suspended)

theorem put_binding_ok (kept : AllKept w.service) {value : IntegrationUser} {s' : Service}
    (put : putBinding w ask now works = .ok (value, s')) :
    AllKept s' ∧ (∀ id, Keeps id value.ownerUserID w.service s') ∧
      s'.integrationUsers.lookup ask.value.id = some value ∧ value.id = ask.value.id ∧
      value.status = ask.value.status ∧ value.ownerUserID = ask.value.ownerUserID := by
  rw [putBinding] at put
  cases result : putIntegrationUser w.service now ask with
  | error =>
    rw [result] at put
    cases put
  | ok stored =>
    rw [result] at put
    have stamped := (put_record_ok result).1
    cases works with
    | false => cases put
    | true =>
      cases put
      have raises : 0 < value.version := by
        rw [stamped]
        exact Nat.succ_pos _
      have named : value.id = ask.value.id := by
        rw [stamped]
        rfl
      refine ⟨⟨kept_insert kept.bindings raises, kept.users, kept.sessions, kept.conversations⟩, ?_, ?_, named,
        by rw [stamped]; rfl, by rw [stamped]; rfl⟩
      · refine fun _ => ⟨fun id conversation stored mine => ?_, fun owner => owner⟩
        exact Or.inr ⟨conversation, stored, mine, rfl, fun closed => closed, fun closed => closed⟩
      · show (w.service.integrationUsers.insert value.id value).lookup ask.value.id = some value
        rw [← named, AList.lookup_insert]

section
variable (inv : Inv bindingID w)
include inv

theorem inv_begin (integration : Integration)
    (mine : binding.id = bindingID) : Inv bindingID (begin w integration binding) := by
  subst mine
  rw [begin]
  by_cases other : binding.integrationID ≠ integration.id
  · rw [if_pos other]
    exact inv_refused inv _
  rw [if_neg other]
  cases stored : w.service.integrationUsers.lookup binding.id with
  | none => exact inv_refused inv _
  | some current =>
    by_cases suspended : current.status = .suspended
    · simp only [if_pos suspended]
      refine ⟨inv.kept, trivial, inv.suspended, fun answered same => ?_⟩
      cases same
      exact ⟨suspended, inv.suspended current stored suspended⟩
    · simp only [if_neg suspended]
      exact inv_onward inv ⟨(inv.kept.bindings binding.id current stored).1, rfl⟩

theorem inv_others {records : Records} (apart : Apart bindingID w records.service) :
    Inv bindingID ⟨records.service, w.phase, none⟩ := by
  have suspended : ∀ binding, records.service.integrationUsers.lookup bindingID = some binding →
      binding.status = .suspended → Complete records.service binding := by
    intro binding stored suspended
    obtain ⟨⟨before, there, was, same⟩, keeps⟩ := apart.suspended binding stored suspended
    have complete := complete_iff.mp (inv.suspended before there was)
    have named := (inv.kept.bindings bindingID before there).1
    rw [named, same] at complete
    refine complete_iff.mpr ⟨?_, keeps.owner complete.2⟩
    rw [(records.bindings bindingID binding stored).1]
    exact covered_keeps keeps complete.1
  refine ⟨⟨records.bindings, records.users, records.sessions, records.conversations⟩, ?_, suspended, nofun⟩
  have here := inv.phase
  have running := apart.running
  revert here running
  cases w.phase with
  | idle | marking | marked | listing => exact fun here _ => here
  | closing binding | closingConversation binding =>
    exact fun here running => ⟨here.1, here.2.1, covered_keeps (running binding rfl) here.2.2⟩
  | closingSession binding =>
    exact fun here running => ⟨here.1, here.2.1, covered_keeps (running binding rfl) here.2.2.1, here.2.2.2⟩
  | closedConversation binding =>
    exact fun here running => ⟨here.1, here.2.1, here.2.2.1, here.2.2.2.1, here.2.2.2.2.1,
      covered_keeps (running binding rfl) here.2.2.2.2.2⟩
  | removing binding | stopping binding | reading binding =>
    exact fun here running => ⟨here.1, covered_keeps (running binding rfl) here.2⟩
  | deleting binding =>
    exact fun here running => ⟨here.1, covered_keeps (running binding rfl) here.2.1, here.2.2⟩
  | finishing binding =>
    exact fun here running => ⟨here.1, covered_keeps (running binding rfl) here.2.1,
      (running binding rfl).owner here.2.2⟩
  | finished ask =>
    exact fun here running => ⟨here.1, here.2.1, covered_keeps (running ask.value rfl) here.2.2.1,
      (running ask.value rfl).owner here.2.2.2⟩

theorem inv_marked (here : w.phase = .marked ask)
    (moved : advance o w now fresh works = some next) : Inv bindingID next := by
  have phase := inv.phase
  rw [here] at phase
  simp only [advance, here] at moved
  cases put : putBinding w ask now works with
  | error error =>
    rw [put] at moved
    cases moved
    exact inv_refused inv error
  | ok result =>
    obtain ⟨binding, s'⟩ := result
    rw [put] at moved
    cases moved
    obtain ⟨kept, -, stored, named, status, -⟩ := put_binding_ok inv.kept put
    refine ⟨kept, named.trans phase.1, fun other there suspended => ?_, nofun⟩
    rw [← phase.1, stored] at there
    cases there
    rw [status, phase.2] at suspended
    cases suspended

theorem inv_finished (here : w.phase = .finished ask)
    (moved : advance o w now fresh works = some next) : Inv bindingID next := by
  have phase := inv.phase
  rw [here] at phase
  obtain ⟨mine, suspended, covered, owner⟩ := phase
  simp only [advance, here] at moved
  cases put : putBinding w ask now works with
  | error error =>
    rw [put] at moved
    cases moved
    exact inv_refused inv error
  | ok result =>
    obtain ⟨binding, s'⟩ := result
    rw [put] at moved
    cases moved
    obtain ⟨kept, keeps, stored, named, status, owned⟩ := put_binding_ok inv.kept put
    rw [mine] at stored named
    have complete : Complete s' binding := by
      refine complete_iff.mpr ⟨?_, (keeps bindingID).owner (owned ▸ owner)⟩
      rw [named]
      exact covered_keeps (keeps bindingID) covered
    refine ⟨kept, trivial, fun other there _ => ?_, fun other same => ?_⟩
    · rw [stored] at there
      cases there
      exact complete
    · cases same
      exact ⟨status.trans suspended, complete⟩

theorem inv_closing (here : w.phase = .closing binding rest) (moved : advance o w now fresh works = some next) :
    Inv bindingID next := by
  have phase := inv.phase
  rw [here] at phase
  obtain ⟨mine, listed, covered⟩ := phase
  cases rest with
  | nil =>
    simp only [advance, here] at moved
    cases moved
    exact inv_onward inv ⟨mine, covered⟩
  | cons conversation =>
    simp only [advance, here] at moved
    cases stored : w.service.sessions.lookup conversation.sessionID with
    | none =>
      simp only [stored] at moved
      cases moved
      exact inv_onward inv ⟨mine, listed, covered_session covered (by simp [sessionClosed, stored])⟩
    | some session =>
      simp only [stored] at moved
      by_cases closed : session.status = .closed
      · rw [if_neg fun apart => apart closed] at moved
        cases moved
        exact inv_onward inv ⟨mine, listed, covered_session covered (by simp [sessionClosed, stored, closed])⟩
      · rw [if_pos closed] at moved
        cases moved
        obtain ⟨named, raised⟩ := inv.kept.sessions _ session stored
        exact inv_onward inv ⟨mine, listed, covered, named, raised, rfl⟩

theorem inv_session {session : Session} {conversation : Conversation}
    (here : w.phase = .closingSession binding session conversation rest)
    (lands : lands o bindingID w now fresh works) :
    Inv bindingID ⟨putClosedSession o w.service session now fresh works, .closingConversation binding conversation rest,
      none⟩ := by
  have phase := inv.phase
  rw [here] at phase
  obtain ⟨mine, listed, covered, named, raised, closed⟩ := phase
  obtain ⟨closes, taken⟩ := put_session_closes inv.kept raised closed
  simp only [UserSuspension.lands, here, Bool.or_eq_true] at lands
  refine inv_closes inv closes ⟨mine, listed, ?_⟩
  refine covered_session (covered_keeps (closes.keeps binding.ownerUserID) covered) ?_
  rcases lands with already | accepted
  · exact closes.sessions _ already
  · exact named ▸ taken accepted

theorem inv_conversation {conversation : Conversation} (here : w.phase = .closingConversation binding conversation rest)
    (lands : lands o bindingID w now fresh works)
    (moved : advance o w now fresh works = some next) : Inv bindingID next := by
  have phase := inv.phase
  rw [here] at phase
  obtain ⟨mine, listed, covered⟩ := phase
  have later : ∀ listed ∈ rest, Listed bindingID listed := fun other member => listed other (mem_cons_of_mem _ member)
  simp only [UserSuspension.lands, here, Bool.or_eq_true] at lands
  simp only [advance, here] at moved
  cases asked : askConversation w.service (closedOf conversation) conversation.version with
  | error =>
    rw [asked] at lands moved
    cases moved
    refine inv_onward inv ⟨mine, later, covered_conversation covered fun stored there owned => ?_⟩
    obtain already | taken := lands
    · rw [there] at already
      simpa [owned] using already
    · obtain ⟨-, ask, absurd⟩ := accepted_ok taken
      cases absurd
  | ok ask =>
    rw [asked] at moved
    cases moved
    obtain ⟨value, expected⟩ := ask_conversation_ok asked
    obtain ⟨owned, raised⟩ := listed conversation mem_cons_self
    refine inv_onward inv ⟨mine, later, by rw [value]; exact owned, by rw [value]; rfl, expected ▸ raised, ?_⟩
    intro id stored there same
    obtain done | waits | ⟨⟨other, member, named, session⟩, closed⟩ := covered id stored there same
    · exact Or.inl done
    · exact Or.inr (Or.inl waits)
    · cases mem_singleton.mp member
      refine Or.inr (Or.inr ⟨⟨ask.value, mem_singleton_self _, ?_, ?_⟩, closed⟩)
      · rw [value]
        exact named
      · rw [value]
        exact session

theorem inv_closed {ask : Ask Conversation} (here : w.phase = .closedConversation binding ask rest)
    (lands : lands o bindingID w now fresh works) :
    Inv bindingID ⟨putClosedConversation w.service ask now works, .closing binding rest, none⟩ := by
  have phase := inv.phase
  rw [here] at phase
  obtain ⟨mine, listed, owned, closed, raised, covered⟩ := phase
  obtain ⟨closes, taken⟩ := put_conversation_closes inv.kept owned raised closed
  simp only [UserSuspension.lands, here, Bool.or_eq_true] at lands
  refine inv_closes inv closes ⟨mine, listed, ?_⟩
  refine covered_conversation (covered_keeps (closes.keeps binding.ownerUserID) covered) fun stored there same => ?_
  rcases lands with already | accepted
  · obtain before | done := closes.conversations _ stored there
    · rw [before] at already
      simpa [same] using already
    · exact done
  · exact taken accepted stored there

theorem inv_deleting {user : User}
    (here : w.phase = .deleting binding user) (lands : lands o bindingID w now fresh works) :
    Inv bindingID ⟨putDeletedUser o w.service user now works, .finishing binding, none⟩ := by
  have phase := inv.phase
  rw [here] at phase
  obtain ⟨mine, covered, named, -, deleted⟩ := phase
  obtain ⟨closes, taken⟩ : Closes bindingID _ (putDeletedUser o w.service user now works) ∧ _ :=
    put_user_closes inv.kept deleted
  simp only [UserSuspension.lands, here, Bool.or_eq_true] at lands
  have keeps := closes.keeps binding.ownerUserID
  refine inv_closes inv closes ⟨mine, covered_keeps keeps covered, ?_⟩
  rw [← named] at keeps ⊢
  rcases lands with already | accepted
  · exact keeps.owner already
  · exact taken accepted

theorem inv_advance (lands : lands o bindingID w now fresh works)
    (moved : advance o w now fresh works = some next) : Inv bindingID next := by
  have phase := inv.phase
  cases here : w.phase with
  | idle | listing => simp [advance, here] at moved
  | marking binding =>
    rw [here] at phase
    simp only [advance, here] at moved
    cases asked : askIntegrationUser w.service binding binding.version with
    | error =>
      rw [asked] at moved
      cases moved
      exact inv_refused inv _
    | ok =>
      rw [asked] at moved
      cases moved
      obtain ⟨value, -⟩ := ask_binding_ok asked (by rw [phase.2]; exact nofun)
      exact inv_onward inv ⟨value ▸ phase.1, value ▸ phase.2⟩
  | marked => exact inv_marked inv here moved
  | closing => exact inv_closing inv here moved
  | closingSession =>
    simp only [advance, here] at moved
    cases moved
    exact inv_session inv here lands
  | closingConversation => exact inv_conversation inv here lands moved
  | closedConversation =>
    simp only [advance, here] at moved
    cases moved
    exact inv_closed inv here lands
  | removing | stopping =>
    rw [here] at phase
    simp only [advance, here] at moved
    cases works with
    | true =>
      cases moved
      exact inv_onward inv phase
    | false =>
      cases moved
      exact inv_refused inv _
  | reading binding =>
    rw [here] at phase
    simp only [advance, here] at moved
    cases stored : w.service.users.lookup binding.ownerUserID with
    | none =>
      simp only [stored] at moved
      cases moved
      exact inv_onward inv ⟨phase.1, phase.2, by simp [inactive, stored]⟩
    | some user =>
      simp only [stored] at moved
      cases moved
      obtain ⟨named, raised⟩ := inv.kept.users _ user stored
      exact inv_onward inv ⟨phase.1, phase.2, named, raised, rfl⟩
  | deleting =>
    simp only [advance, here] at moved
    cases moved
    exact inv_deleting inv here lands
  | finishing binding =>
    rw [here] at phase
    obtain ⟨mine, covered, owner⟩ := phase
    simp only [advance, here] at moved
    cases asked : askIntegrationUser w.service { binding with status := .suspended } binding.version with
    | error =>
      rw [asked] at moved
      cases moved
      exact inv_refused inv _
    | ok =>
      rw [asked] at moved
      cases moved
      obtain ⟨value, -⟩ := ask_binding_ok asked nofun
      refine inv_onward inv ⟨?_, ?_, covered, ?_⟩
      · rw [value]
        exact mine
      · rw [value]
      · rw [value]
        exact owner
  | finished => exact inv_finished inv here moved

end

theorem inv_step {action : Action} (careful : Careful o bindingID w action) (inv : Inv bindingID w)
    (stepped : step o bindingID w action = some next) : Inv bindingID next := by
  cases action with
  | suspend integration =>
    simp only [step] at stepped
    split at stepped
    · split at stepped
      · next mine =>
        cases stepped
        exact inv_begin inv integration mine
      · cases stepped
    · cases stepped
  | list =>
    have phase := inv.phase
    cases here : w.phase <;> simp only [step, here] at stepped <;> try cases stepped
    next =>
      rw [here] at phase
      split at stepped
      · next order =>
        cases stepped
        subst phase
        refine inv_onward inv ⟨rfl, fun other member => ?_, covered_listed inv.kept.conversations order.1 careful⟩
        obtain ⟨there, opened⟩ := mem_filter.mp member
        obtain ⟨id, stored⟩ := ControlPlane.mem_values.mp (order.1.mem_iff.mp there)
        simp only [openConversation, decide_eq_true_eq] at opened
        exact ⟨opened.1, (inv.kept.conversations id other stored).2⟩
      · cases stepped
  | next => exact inv_advance inv careful stepped
  | others =>
    cases stepped
    exact inv_others inv careful

end Steps

/-- A call that returns a suspended binding has closed everything, in every run from a state in which the binding is not
    suspended where the ignored puts land, nothing skipped has an open session, and no other write opens anything
    again. -/
theorem suspension_complete (o : Settings) (bindingID : String) (records : Records)
    (fresh : ∀ binding, records.service.integrationUsers.lookup bindingID = some binding → binding.status ≠ .suspended)
    (actions : List Action) (w : World)
    (ran : run (step o bindingID) ⟨records.service, .idle, none⟩ actions = some w)
    (careful : Guarded (step o bindingID) (Careful o bindingID) ⟨records.service, .idle, none⟩ actions)
    (binding : IntegrationUser) (answered : w.answer = some (.ok binding)) :
    binding.status = .suspended ∧ Complete w.service binding := by
  have inv : Inv bindingID w := by
    refine guarded_run_invariant (Inv bindingID) (fun _ _ _ guard inv stepped => inv_step guard inv stepped) careful
      ran ?_
    refine ⟨⟨records.bindings, records.users, records.sessions, records.conversations⟩, trivial, ?_, nofun⟩
    exact fun binding stored suspended => absurd suspended (fresh binding stored)
  exact inv.answer binding answered

def aBinding : IntegrationUser := ⟨"b", "i", "x", "u", .ready, 1, 1, 1⟩
def aUser : User := ⟨"u", "x", "i", .active, ControlPlane.noQuota, "", "", 0, 1, 1, 1⟩
def aSession : Session :=
  ⟨"s", "u", "d", "p", "", "", "", "", "", "", "", "", "docker", "chat", "private", "auto", "", .ready, "", 1, "", "",
    none, 1, 0, "", 1, 1, 1⟩
def aConversation : Conversation := ⟨"c", "i", "b", "u", "d", "p", "s", .ready, 1, 1, 1, 1⟩
def aDevice : ControlPlane.Device :=
  ⟨"d", "u", "", "docker", "d", "running", "running", true, true, true, true, "", 1, 1, [], 1, 1, 1⟩
def aProject (status : ProjectStatus) : Project :=
  ⟨"p", "i", "b", "u", "shop", "en", "/workspace/projects/p", "", status, "", 1, 1, 1⟩

def onRecord {Value : Type} (id : Value → String) (value : Value) : Table Value := AList.insert (id value) value ∅

theorem kept_one {Value : Type} {id : Value → String} {version : Value → Nat} {value : Value}
    (raised : 0 < version value) : Kept id version (onRecord id value) := by
  refine kept_insert (fun key other stored => ?_) raised
  rw [AList.lookup_empty] at stored
  cases stored

def oneConversation (status : ProjectStatus) : Records where
  service := {
    integrations := onRecord Integration.id ⟨"i", .active, 10, 10, 10, 10⟩
    users := onRecord User.id aUser
    devices := onRecord ControlPlane.Device.id aDevice
    sessions := onRecord Session.id aSession
    integrationUsers := onRecord IntegrationUser.id aBinding
    projects := onRecord Project.id (aProject status)
    conversations := onRecord Conversation.id aConversation
    previews := ∅
    previewIndex := PreviewRecords.emptyIndex }
  bindings := kept_one (by decide)
  users := kept_one (by decide)
  sessions := kept_one (by decide)
  conversations := kept_one (by decide)

def settings : Settings := ⟨fun _ => true, ControlPlane.noQuota, "", ""⟩

def alone (steps : Nat) : List Action :=
  [.suspend ⟨"i", .active, 10, 10, 10, 10⟩ aBinding, .next 2 "" true, .next 2 "" true, .list [aConversation]] ++
    replicate steps (.next 2 "" true)

def sees (w : World) : Option (Bool × Option SessionStatus × Option ConversationStatus) :=
  match w.answer with
  | some (.ok binding) => some (binding.status = .suspended, (w.service.sessions.lookup "s").map (·.status),
      (w.service.conversations.lookup "c").map (·.status))
  | _ => none

theorem sees_answer {w : World} {seen : Bool × Option SessionStatus × Option ConversationStatus}
    (answered : sees w = some seen) : ∃ binding, w.answer = some (.ok binding) := by
  rw [sees] at answered
  split at answered
  · next binding here => exact ⟨binding, here⟩
  · cases answered

def careful (w : World) : Action → Bool
  | .suspend _ _ => true
  | .list listed => skipped "b" w.service listed
  | .next now fresh works => lands settings "b" w now fresh works
  | .others _ => false

theorem careful_sound (w : World) (action : Action) (passed : careful w action) : Careful settings "b" w action := by
  cases action with
  | suspend => trivial
  | list | next => exact passed
  | others => cases passed

theorem suspends_alone : ∃ w binding,
    run (step settings "b") ⟨(oneConversation .ready).service, .idle, none⟩ (alone 11) = some w ∧
      w.answer = some (.ok binding) ∧ binding.status = .suspended ∧ Complete w.service binding := by
  have ran : ((run (step settings "b") ⟨(oneConversation .ready).service, .idle, none⟩ (alone 11)).map sees) =
      some (some (true, some .closed, some .closed)) := by decide +kernel
  obtain ⟨w, here, seen⟩ := map_eq_some_iff.mp ran
  obtain ⟨binding, answered⟩ := sees_answer seen
  refine ⟨w, binding, here, answered, suspension_complete settings "b" (oneConversation .ready) ?_ (alone 11) w here
    (checked_guarded careful careful_sound _ _ (by decide +kernel)) binding answered⟩
  intro stored same
  cases (show (oneConversation .ready).service.integrationUsers.lookup "b" = some aBinding by decide).symm.trans same
  decide

/-- The session and the conversation of an archived project stay as they are: both puts are refused, and nobody is
    told. -/
theorem archived_stays_open : ¬ ∀ (o : Settings) (bindingID : String) (records : Records) (actions : List Action)
    (w : World), run (step o bindingID) ⟨records.service, .idle, none⟩ actions = some w →
    ∀ binding, w.answer = some (.ok binding) → binding.status = .suspended → Complete w.service binding := by
  intro claimed
  have ran : ((run (step settings "b") ⟨(oneConversation .archived).service, .idle, none⟩ (alone 10)).map fun w =>
      (w.service.conversations.lookup "c", w.answer.bind Except.toOption)) = some (some aConversation,
        some { aBinding with status := .suspended, updatedAt := 2, version := 3 }) := by decide +kernel
  obtain ⟨w, here, seen⟩ := map_eq_some_iff.mp ran
  simp only [Prod.mk.injEq] at seen
  obtain ⟨stored, answered⟩ := seen
  obtain ⟨result, answer, ok⟩ := bind_eq_some_iff.mp answered
  cases result with
  | error => cases ok
  | ok =>
    cases ok
    rcases (claimed settings "b" (oneConversation .archived) (alone 10) w here _ answer rfl).conversations "c"
      aConversation stored rfl with absurd | absurd
    · cases absurd
    · cases absurd

end PieRelay.UserSuspension
