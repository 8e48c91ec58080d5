import PieRelay.Executions
import PieRelay.IntegrationRecords

/-!
The quotas of an integration in one service: its users, and of each of them the projects,
conversations and previews. The four puts are cut where they let go of the service's mutex:
the look at the request, the decision under the locks, and the publication. Each quota has
a lock by integration or by user that is held from the decision to the end of the put. A
put counts only when its record is new.
-/
namespace PieRelay.IntegrationQuotas
open Function Executions Admission IntegrationRecords PreviewRecords List Option
open ControlPlane (ServiceError Table User Device Session demand_ok found_ok to_option_ok)
open RelayToken (bind_ok)
open RoomRegistry (Time)

inductive Kind where
  | user
  | project
  | conversation
  | preview
  deriving DecidableEq

abbrev Kind.Value : Kind → Type
  | .user => IntegrationUser
  | .project => Project
  | .conversation => Conversation
  | .preview => Preview

namespace Kind

def id : (kind : Kind) → kind.Value → String
  | .user => IntegrationUser.id
  | .project => Project.id
  | .conversation => Conversation.id
  | .preview => Preview.id

def scope : (kind : Kind) → kind.Value → String
  | .user => IntegrationUser.integrationID
  | .project => Project.integrationUserID
  | .conversation => Conversation.integrationUserID
  | .preview => Preview.integrationUserID

def counts : (kind : Kind) → String → kind.Value → Bool
  | .user => activeIntegrationUser
  | .project => activeProject
  | .conversation => openConversation
  | .preview => activePreviewOf

def table : (kind : Kind) → Service → Table kind.Value
  | .user => Service.integrationUsers
  | .project => Service.projects
  | .conversation => Service.conversations
  | .preview => Service.previews

def ask : (kind : Kind) → Service → kind.Value → Nat → Except ServiceError (Ask kind.Value)
  | .user => askIntegrationUser
  | .project => askProject
  | .conversation => askConversation
  | .preview => askPreview

def put : (kind : Kind) → Service → Time → Ask kind.Value → Except ServiceError kind.Value
  | .user => putIntegrationUser
  | .project => putProject
  | .conversation => putConversation
  | .preview => fun s => putPreview s.previews.lookup s.previewIndex

def publish : (kind : Kind) → Service → kind.Value → Service
  | .user, s, value => { s with integrationUsers := s.integrationUsers.insert value.id value }
  | .project, s, value => { s with projects := s.projects.insert value.id value }
  | .conversation, s, value => { s with conversations := s.conversations.insert value.id value }
  | .preview, s, value =>
    { s with
      previews := s.previews.insert value.id value
      previewIndex := indexPreviewLocked s.previewIndex value }

def limitOf : Kind → Integration → Int
  | .user => Integration.maxUsers
  | .project => Integration.maxProjectsPerUser
  | .conversation => Integration.maxConversationsPerUser
  | .preview => Integration.maxPreviewsPerUser

def integration : Kind → Service → String → Option String
  | .user, _, key => some key
  | _, s, key => (s.integrationUsers.lookup key).map IntegrationUser.integrationID

def limit (kind : Kind) (s : Service) (key : String) : Option Int :=
  (kind.integration s key).bind fun id => (s.integrations.lookup id).map kind.limitOf

def alike : (kind : Kind) → kind.Value → kind.Value → Prop
  | .user, before, value => before.integrationID = value.integrationID
  | .project, before, value => before.integrationUserID = value.integrationUserID
  | .conversation, before, value => before.integrationUserID = value.integrationUserID
  | .preview, before, value => before.integrationUserID = value.integrationUserID ∧
      before.projectID = value.projectID ∧ before.hostname = value.hostname

end Kind

/-- The puts of a kind that are under way: those that have been looked at, and those that have been
    let through and hold their locks. -/
structure Desk (Value : Type) where
  asked : List (Ask Value)
  held : List Value

structure World where
  service : Service
  desks : (kind : Kind) → Desk kind.Value

def newWorld : World := ⟨⟨∅, ∅, ∅, ∅, ∅, ∅, ∅, ∅, emptyIndex⟩, fun _ => ⟨[], []⟩⟩

def setDesk (w : World) (kind : Kind) (desk : Desk kind.Value) : World :=
  { w with desks := update w.desks kind desk }

/-- `configure` is a put of an integration; `others` is whatever happens to the maps that have no
    quota here. -/
inductive Action where
  | configure (value : Integration)
  | others (users : Table User) (devices : Table Device) (sessions : Table Session)
  | ask (kind : Kind) (value : kind.Value) (expected : Nat)
  | decide (kind : Kind) (index : Nat) (now : Time)
  | publish (kind : Kind) (id : String)
  | fail (kind : Kind) (id : String)

def unlocked (kind : Kind) (desk : Desk kind.Value) (value : kind.Value) : Bool :=
  desk.held.all fun other => kind.scope other ≠ kind.scope value ∧ kind.id other ≠ kind.id value

def decideAsk (w : World) (kind : Kind) (index : Nat) (now : Time) (ask : Ask kind.Value) : Option World :=
  if unlocked kind (w.desks kind) ask.value then
    (kind.put w.service now ask).toOption.map fun record =>
      setDesk w kind ⟨(w.desks kind).asked.eraseIdx index, record :: (w.desks kind).held⟩
  else none

def step (w : World) : Action → Option World
  -- the limits of an integration do not change
  | .configure value =>
    if validLimits value ∧ (w.service.integrations.lookup value.id).all fun before => sameLimits before value then
      some { w with service := { w.service with
        integrations := w.service.integrations.insert value.id value } }
    else none
  | .others users devices sessions =>
    some { w with service := { w.service with users := users, devices := devices, sessions := sessions } }
  | .ask kind value expected =>
    (kind.ask w.service value expected).toOption.map fun ask =>
      setDesk w kind ⟨ask :: (w.desks kind).asked, (w.desks kind).held⟩
  | .decide kind index now =>
    ((w.desks kind).asked[index]?).bind (decideAsk w kind index now)
  | .publish kind id =>
    ((w.desks kind).held.find? fun value => kind.id value = id).map fun value =>
      setDesk { w with service := kind.publish w.service value } kind
        ⟨(w.desks kind).asked, release kind.id (w.desks kind).held id⟩
  | .fail kind id =>
    ((w.desks kind).held.find? fun value => kind.id value = id).map fun _ =>
      setDesk w kind ⟨(w.desks kind).asked, release kind.id (w.desks kind).held id⟩

def used (kind : Kind) (s : Service) (key : String) : Nat := count (kind.counts key) (kind.table s)

/-- A put that makes a record count which is there and does not count is decided while there is
    room. -/
def restrained (w : World) : Action → Bool
  | .decide kind index _ => ((w.desks kind).asked[index]?).all fun ask =>
    ((kind.table w.service).lookup (kind.id ask.value)).all fun before =>
      (kind.counts (kind.scope ask.value) ask.value ∧ ¬ kind.counts (kind.scope ask.value) before) →
        (used kind w.service (kind.scope ask.value) : Int) < ask.limit
  | _ => true

structure Quotas (s : Service) : Prop where
  users : ∀ id integration, s.integrations.lookup id = some integration →
    (count (activeIntegrationUser id) s.integrationUsers : Int) ≤ integration.maxUsers
  projects : ∀ id binding integration, s.integrationUsers.lookup id = some binding →
    s.integrations.lookup binding.integrationID = some integration →
    (count (activeProject id) s.projects : Int) ≤ integration.maxProjectsPerUser
  conversations : ∀ id binding integration, s.integrationUsers.lookup id = some binding →
    s.integrations.lookup binding.integrationID = some integration →
    (count (openConversation id) s.conversations : Int) ≤ integration.maxConversationsPerUser
  previews : ∀ id binding integration, s.integrationUsers.lookup id = some binding →
    s.integrations.lookup binding.integrationID = some integration →
    (count (activePreviewOf id) s.previews : Int) ≤ integration.maxPreviewsPerUser

section Kinds
variable {kind : Kind} {s : Service}
variable {key id : String}

theorem counts_scope {value : kind.Value} (counted : kind.counts key value) : kind.scope value = key := by
  cases kind <;> simp only [Kind.counts, activeIntegrationUser, activeProject, openConversation,
    activePreviewOf, decide_eq_true_eq] at counted <;> exact counted.1

theorem active_integration_ok {integration : Integration}
    (found : activeIntegration s id = .ok integration) : s.integrations.lookup id = some integration := by
  simp only [activeIntegration, bind_ok, demand_ok, found_ok, exists_const, pure, Except.pure, Except.ok.injEq] at found
  obtain ⟨other, stored, -, rfl⟩ := found
  exact stored

theorem limit_eq {integration : Integration} (home : kind.integration s key = some id)
    (stored : s.integrations.lookup id = some integration) :
    kind.limit s key = some (kind.limitOf integration) := by
  simp [Kind.limit, home, stored]

theorem limit_cases {limit : Int} (found : kind.limit s key = some limit) :
    ∃ id integration, kind.integration s key = some id ∧
      s.integrations.lookup id = some integration ∧ kind.limitOf integration = limit := by
  obtain ⟨id, home, there⟩ := bind_eq_some_iff.mp found
  obtain ⟨integration, stored, same⟩ := map_eq_some_iff.mp there
  exact ⟨id, integration, home, stored, same⟩

theorem bound_integration {binding : IntegrationUser} (different : kind ≠ .user)
    (bound : s.integrationUsers.lookup key = some binding) :
    kind.integration s key = some binding.integrationID := by
  cases kind <;> first | exact absurd rfl different | simp [Kind.integration, bound]

/-- A put knows the limit of its scope. -/
theorem ask_limit {value : kind.Value} {expected : Nat} {ask : Ask kind.Value}
    (asked : kind.ask s value expected = .ok ask) :
    kind.limit s (kind.scope ask.value) = some ask.limit := by
  cases kind with
  | user =>
    simp only [Kind.ask, askIntegrationUser, bind_ok, demand_ok, exists_const, pure, Except.pure,
      Except.ok.injEq] at asked
    obtain ⟨-, -, integration, active, -, rfl⟩ := asked
    exact limit_eq rfl (active_integration_ok active)
  | project =>
    simp only [Kind.ask, askProject, bind_ok, demand_ok, found_ok, exists_const, decide_eq_true_eq, pure,
      Except.pure, Except.ok.injEq] at asked
    obtain ⟨-, -, -, binding, bound, ⟨same, -⟩, integration, active, rfl⟩ := asked
    exact limit_eq (bound_integration (by decide) bound) (same ▸ active_integration_ok active)
  | conversation =>
    simp only [Kind.ask, askConversation, bind_ok, demand_ok, found_ok, exists_const, decide_eq_true_eq,
      pure, Except.pure, Except.ok.injEq] at asked
    obtain ⟨-, binding, bound, ⟨same, -⟩, -, -, -, -, -, -, -, -, -, integration, active, rfl⟩ := asked
    exact limit_eq (bound_integration (by decide) bound) (same ▸ active_integration_ok active)
  | preview =>
    simp only [Kind.ask, askPreview, bind_ok, demand_ok, found_ok, exists_const, decide_eq_true_eq, pure,
      Except.pure, Except.ok.injEq] at asked
    obtain ⟨-, binding, bound, integration, active, -, -, ⟨-, same, -⟩, rfl⟩ := asked
    exact limit_eq (bound_integration (by decide) bound) (same ▸ active_integration_ok active)

structure PutRecord (kind : Kind) (s : Service) (ask : Ask kind.Value) (record : kind.Value) : Prop where
  id : kind.id record = kind.id ask.value
  scope : kind.scope record = kind.scope ask.value
  counts : ∀ key, kind.counts key record = kind.counts key ask.value
  origin : ((kind.table s).lookup (kind.id record) = none ∧
      (used kind s (kind.scope record) : Int) < ask.limit) ∨
    ∃ before, (kind.table s).lookup (kind.id record) = some before ∧ kind.alike before record

section
variable (indexed : Indexed s.previewIndex s.previews.lookup) (filed : ∀ key value, s.previews.lookup key = some value → value.id = key)
include indexed filed

-- The index has every preview of the user, and the new one is not among them.
theorem preview_used (userID : String) (new : s.previews.lookup id = none) :
    count (activePreviewOf userID) s.previews ≤ (candidates s.previews.lookup s.previewIndex userID id).card := by
  refine count_le_card _ _ _ ?_
  intro key value stored counted
  simp only [activePreviewOf, decide_eq_true_eq] at counted
  simp only [candidates, Finset.mem_filter, stored, getD_some]
  refine ⟨(indexed.users userID key).mpr ⟨value, stored, counted.1⟩, ?_, counted.2⟩
  intro same
  rw [← same, filed key value stored, stored] at new
  cases new

theorem put_preview_record {now : Time} {ask : Ask Preview} {record : Preview}
    (put : putPreview s.previews.lookup s.previewIndex now ask = .ok record) :
    PutRecord .preview s ask record := by
  obtain ⟨_, -, put⟩ := bind_ok.mp put
  obtain ⟨_, same, put⟩ := bind_ok.mp put
  obtain ⟨_, -, put⟩ := bind_ok.mp put
  obtain ⟨_, -, put⟩ := bind_ok.mp put
  obtain ⟨_, room, put⟩ := bind_ok.mp put
  cases put
  have same := demand_ok.mp same
  have room := of_decide_eq_true (demand_ok.mp room)
  refine ⟨rfl, rfl, fun _ => rfl, ?_⟩
  cases stored : s.previews.lookup ask.value.id with
  | none =>
    refine Or.inl ⟨stored, ?_⟩
    have enough := preview_used indexed filed ask.value.integrationUserID stored
    simp only [stored, isSome_none, Bool.false_eq_true, false_or] at room
    exact lt_of_le_of_lt (by exact_mod_cast enough) room
  | some before =>
    simp only [stored, all_some, samePreview, decide_eq_true_eq] at same
    exact Or.inr ⟨before, stored, same.2.1, same.2.2.2.1, same.2.2.2.2.2.1⟩

end

theorem put_ok {now : Time} {ask : Ask kind.Value} {record : kind.Value}
    (indexed : Indexed s.previewIndex s.previews.lookup)
    (filed : ∀ key value, (kind.table s).lookup key = some value → kind.id value = key)
    (put : kind.put s now ask = .ok record) : PutRecord kind s ask record := by
  cases kind with
  | user =>
    obtain ⟨rfl, origin⟩ := put_record_ok put
    refine ⟨rfl, rfl, fun _ => rfl, origin.imp_right ?_⟩
    rintro ⟨before, stored, same⟩
    simp only [integrationUserRules, decide_eq_true_eq] at same
    exact ⟨before, stored, same.1⟩
  | project =>
    obtain ⟨rfl, origin⟩ := put_record_ok put
    refine ⟨rfl, rfl, fun _ => rfl, origin.imp_right ?_⟩
    rintro ⟨before, stored, same⟩
    simp only [projectRules, decide_eq_true_eq] at same
    exact ⟨before, stored, same.2.1⟩
  | conversation =>
    obtain ⟨rfl, origin⟩ := put_record_ok put
    refine ⟨rfl, rfl, fun _ => rfl, origin.imp_right ?_⟩
    rintro ⟨before, stored, same⟩
    simp only [conversationRules, decide_eq_true_eq] at same
    exact ⟨before, stored, same.2.1⟩
  | preview => exact put_preview_record indexed filed put

end Kinds

/-- The puts of a kind are in order: there is room for those that are let through, no two of them have
    a lock in common, and they go over records like them. -/
structure Sound (kind : Kind) (s : Service) (desk : Desk kind.Value) : Prop where
  room : ∀ key limit, kind.limit s key = some limit →
    Fits (kind.counts key) kind.id (kind.table s) desk.held limit
  apart : desk.held.Pairwise fun a b => kind.scope a ≠ kind.scope b ∧ kind.id a ≠ kind.id b
  asks : ∀ ask ∈ desk.asked, kind.limit s (kind.scope ask.value) = some ask.limit
  known : ∀ value, value ∈ desk.held ∨ (∃ key, (kind.table s).lookup key = some value) →
    ∃ limit, kind.limit s (kind.scope value) = some limit
  filed : ∀ key value, (kind.table s).lookup key = some value → kind.id value = key
  same : ∀ value ∈ desk.held, ∀ before, (kind.table s).lookup (kind.id value) = some before →
    kind.alike before value

section Sound
variable {kind : Kind} {s next : Service} {desk : Desk kind.Value}

section
variable (sound : Sound kind s desk)
include sound

theorem sound_limits (table : kind.table next = kind.table s)
    (kept : ∀ key limit, kind.limit s key = some limit → kind.limit next key = some limit)
    (positive : ∀ key limit, kind.limit next key = some limit → 0 ≤ limit) : Sound kind next desk := by
  refine ⟨?_, sound.apart, fun ask member => kept _ _ (sound.asks ask member), ?_, table ▸ sound.filed,
    table ▸ sound.same⟩
  · intro key limit found
    rw [table]
    cases before : kind.limit s key with
    | some old =>
      cases (kept key old before).symm.trans found
      exact sound.room key _ before
    | none =>
      have absent : ∀ value, value ∈ desk.held ∨ (∃ key, (kind.table s).lookup key = some value) →
          kind.counts key value = false := by
        intro value there
        obtain ⟨old, known⟩ := sound.known value there
        rw [Bool.eq_false_iff]
        intro counted
        rw [counts_scope counted, before] at known
        cases known
      have none : count (kind.counts key) (kind.table s) = 0 :=
        count_zero _ _ fun other value stored => absent value (Or.inr ⟨other, stored⟩)
      have free : reserved (kind.counts key) kind.id (kind.table s) desk.held = 0 :=
        reserved_zero fun value member => absent value (Or.inl member)
      have limited := positive key limit found
      unfold Fits
      rw [none, free]
      exact_mod_cast limited
  · rw [table]
    intro value there
    obtain ⟨limit, found⟩ := sound.known value there
    exact ⟨limit, kept _ _ found⟩

theorem sound_ask {ask : Ask kind.Value} (known : kind.limit s (kind.scope ask.value) = some ask.limit) :
    Sound kind s ⟨ask :: desk.asked, desk.held⟩ := by
  refine ⟨sound.room, sound.apart, ?_, sound.known, sound.filed, sound.same⟩
  intro other member
  rcases mem_cons.mp member with rfl | old
  · exact known
  · exact sound.asks other old

/-- A record is let through: it is new and there is room for it, or it goes over one like it and needs
    no room or finds it. -/
theorem sound_decide {index : Nat} {ask : Ask kind.Value} {record : kind.Value} (asked : desk.asked[index]? = some ask)
    (free : unlocked kind desk ask.value) (put : PutRecord kind s ask record)
    (calm : ∀ before, (kind.table s).lookup (kind.id ask.value) = some before →
      kind.counts (kind.scope ask.value) ask.value →
      kind.counts (kind.scope ask.value) before = false →
      (used kind s (kind.scope ask.value) : Int) < ask.limit) :
    Sound kind s ⟨desk.asked.eraseIdx index, record :: desk.held⟩ := by
  have limit := sound.asks ask (mem_of_getElem? asked)
  have locks : ∀ other ∈ desk.held, kind.scope other ≠ kind.scope record ∧ kind.id other ≠ kind.id record := by
    intro other member
    rw [put.scope, put.id]
    simpa using all_eq_true.mp free other member
  refine ⟨?_, pairwise_cons.mpr ⟨?_, sound.apart⟩, ?_, ?_, sound.filed, ?_⟩
  · intro key bound found
    refine admit_fits (sound.room key bound found) ?_
    intro needed
    simp only [needsRoom, Bool.and_eq_true, Bool.not_eq_true'] at needed
    have own : kind.scope record = key := counts_scope needed.1
    subst own
    have nothing : reserved (kind.counts (kind.scope record)) kind.id (kind.table s) desk.held = 0 := by
      refine reserved_zero fun other member => ?_
      rw [Bool.eq_false_iff]
      intro counted
      exact (locks other member).1 (counts_scope counted)
    rw [put.scope, limit] at found
    cases found
    rw [nothing]
    rcases put.origin with ⟨-, room⟩ | ⟨before, stored, -⟩
    · exact room
    · rw [stored, any_some] at needed
      rw [put.scope] at needed ⊢
      rw [put.counts] at needed
      exact calm before (put.id ▸ stored) needed.1 needed.2
  · intro other member
    exact ⟨(locks other member).1.symm, (locks other member).2.symm⟩
  · intro other member
    exact sound.asks other (mem_of_mem_eraseIdx member)
  · rintro value (member | stored)
    · rcases mem_cons.mp member with rfl | old
      · exact ⟨ask.limit, put.scope ▸ limit⟩
      · exact sound.known value (Or.inl old)
    · exact sound.known value (Or.inr stored)
  · intro value member before stored
    rcases mem_cons.mp member with rfl | old
    · rcases put.origin with ⟨new, -⟩ | ⟨known, there, alike⟩
      · cases new.symm.trans stored
      · cases there.symm.trans stored
        exact alike
    · exact sound.same value old before stored

theorem sound_fail (id : String) : Sound kind s ⟨desk.asked, release kind.id desk.held id⟩ := by
  refine ⟨fun key limit found => drop_fits (sound.room key limit found) id, sound.apart.filter _,
    sound.asks, ?_, sound.filed, fun value member => sound.same value (release_mem member).1⟩
  rintro value (member | stored)
  · exact sound.known value (Or.inl (release_mem member).1)
  · exact sound.known value (Or.inr stored)

end

theorem publish_table (kind : Kind) (s : Service) (value : kind.Value) :
    kind.table (kind.publish s value) = (kind.table s).insert (kind.id value) value := by
  cases kind <;> rfl

theorem sound_publish (sound : Sound kind s desk) {value : kind.Value} (member : value ∈ desk.held)
    (limits : ∀ key, kind.limit (kind.publish s value) key = kind.limit s key) :
    Sound kind (kind.publish s value) ⟨desk.asked, release kind.id desk.held (kind.id value)⟩ := by
  have apart : desk.held.Pairwise fun a b => kind.id a ≠ kind.id b := sound.apart.imp fun both => both.2
  refine ⟨?_, sound.apart.filter _, ?_, ?_, ?_, ?_⟩
  · intro key limit found
    rw [limits] at found
    rw [publish_table]
    exact publish_fits (sound.room key limit found) apart member
  · intro ask inside
    rw [limits]
    exact sound.asks ask inside
  · rw [publish_table]
    intro other there
    rw [limits]
    rcases there with held | ⟨key, stored⟩
    · exact sound.known other (Or.inl (release_mem held).1)
    · by_cases here : key = kind.id value
      · rw [here, AList.lookup_insert] at stored
        cases stored
        exact sound.known value (Or.inl member)
      · rw [AList.lookup_insert_ne here] at stored
        exact sound.known other (Or.inr ⟨key, stored⟩)
  · rw [publish_table]
    intro key other stored
    by_cases here : key = kind.id value
    · rw [here, AList.lookup_insert] at stored
      cases stored
      exact here.symm
    · rw [AList.lookup_insert_ne here] at stored
      exact sound.filed key other stored
  · rw [publish_table]
    intro other held before stored
    obtain ⟨old, different⟩ := release_mem held
    rw [AList.lookup_insert_ne different] at stored
    exact sound.same other old before stored

end Sound

structure Invariant (w : World) : Prop where
  sound : ∀ kind, Sound kind w.service (w.desks kind)
  limits : ∀ id integration, w.service.integrations.lookup id = some integration →
    validLimits integration
  indexed : Indexed w.service.previewIndex w.service.previews.lookup

section Steps
variable {w next : World} {kind : Kind} {s : Service}
variable {key : String} {limit : Int} {value : Integration}

theorem limit_positive (limits : ∀ id integration, s.integrations.lookup id = some integration →
      validLimits integration) (found : kind.limit s key = some limit) : 0 ≤ limit := by
  obtain ⟨id, integration, -, stored, rfl⟩ := limit_cases found
  have valid := limits id integration stored
  simp only [validLimits, decide_eq_true_eq] at valid
  cases kind <;> simp only [Kind.limitOf] <;> omega

theorem same_limit_of {before : Integration} (same : sameLimits before value) (kind : Kind) :
    kind.limitOf before = kind.limitOf value := by
  simp only [sameLimits, decide_eq_true_eq] at same
  obtain ⟨users, projects, previews, conversations⟩ := same
  cases kind with
  | user => exact users
  | project => exact projects
  | conversation => exact conversations
  | preview => exact previews

theorem configure_limit (same : ∀ before, s.integrations.lookup value.id = some before → sameLimits before value) (found : kind.limit s key = some limit) :
    kind.limit { s with integrations := s.integrations.insert value.id value } key = some limit := by
  obtain ⟨id, integration, home, stored, rfl⟩ := limit_cases found
  have there : kind.integration { s with integrations := s.integrations.insert value.id value } key = some id := by
    cases kind <;> exact home
  by_cases here : id = value.id
  · subst here
    rw [same_limit_of (same integration stored)]
    exact limit_eq there (AList.lookup_insert _)
  · exact limit_eq there ((AList.lookup_insert_ne here).trans stored)

theorem publish_integrations (kind : Kind) (s : Service) (value : kind.Value) :
    (kind.publish s value).integrations = s.integrations := by
  cases kind <;> rfl

theorem publish_table_other {other : Kind} (different : other ≠ kind) (s : Service) (value : kind.Value) :
    other.table (kind.publish s value) = other.table s := by
  cases kind <;> cases other <;> first | exact absurd rfl different | rfl

theorem rebind {bindings : Table IntegrationUser} {value : IntegrationUser} {id : String}
    (same : ∀ before, bindings.lookup value.id = some before → before.integrationID = value.integrationID)
    (home : (bindings.lookup key).map IntegrationUser.integrationID = some id) :
    ((bindings.insert value.id value).lookup key).map IntegrationUser.integrationID = some id := by
  by_cases here : key = value.id
  · subst here
    obtain ⟨before, stored, rfl⟩ := map_eq_some_iff.mp home
    rw [AList.lookup_insert, map_some, same before stored]
  · rw [AList.lookup_insert_ne here]
    exact home

theorem publish_limit {other : Kind} {value : kind.Value}
    (same : ∀ before, (kind.table s).lookup (kind.id value) = some before → kind.alike before value) (found : other.limit s key = some limit) :
    other.limit (kind.publish s value) key = some limit := by
  obtain ⟨id, integration, home, stored, rfl⟩ := limit_cases found
  refine limit_eq ?_ (publish_integrations kind s value ▸ stored)
  cases kind with
  | user =>
    cases other with
    | user => exact home
    | project | conversation | preview => exact rebind same home
  | project | conversation | preview => cases other <;> exact home

theorem own_limit (kind : Kind) (s : Service) (value : kind.Value) (key : String) :
    kind.limit (kind.publish s value) key = kind.limit s key := by
  cases kind <;> rfl

theorem set_desk_sound (sound : ∀ other, Sound other s (w.desks other)) {desk : Desk kind.Value}
    (own : Sound kind s desk) (other : Kind) : Sound other s ((setDesk w kind desk).desks other) := by
  by_cases same : other = kind
  · subst same
    simpa only [setDesk, update_self] using own
  · simpa only [setDesk, update_of_ne same] using sound other

theorem publish_indexed {value : kind.Value} (indexed : Indexed s.previewIndex s.previews.lookup)
    (same : ∀ before, (kind.table s).lookup (kind.id value) = some before → kind.alike before value) :
    Indexed (kind.publish s value).previewIndex (kind.publish s value).previews.lookup := by
  cases kind with
  | user | project | conversation => exact indexed
  | preview =>
    have published := lookup_insert_update s.previews value.id value
    simp only [Kind.publish]
    rw [published]
    refine index_indexed indexed value ?_
    intro previous stored
    obtain ⟨user, project, hostname⟩ := same previous stored
    exact ⟨user, project, Or.inl hostname⟩

theorem new_invariant : Invariant newWorld := by
  refine ⟨?_, ?_, ?_⟩
  · intro kind
    have empty : ∀ key value, (kind.table newWorld.service).lookup key = some value → False := by
      intro key value stored
      cases kind <;> cases stored
    refine ⟨?_, .nil, nofun, ?_, fun key value stored => (empty key value stored).elim, nofun⟩
    · intro key limit found
      obtain ⟨id, integration, -, stored, -⟩ := limit_cases found
      cases stored
    · rintro value (held | ⟨key, stored⟩)
      · cases held
      · exact (empty key value stored).elim
  · intro id integration stored
    cases stored
  · exact empty_indexed

theorem configure_invariant (inv : Invariant w) (valid : validLimits value)
    (same : ∀ before, w.service.integrations.lookup value.id = some before → sameLimits before value) :
    Invariant { w with service := { w.service with
      integrations := w.service.integrations.insert value.id value } } := by
  have limits : ∀ id integration, (w.service.integrations.insert value.id value).lookup id =
      some integration → validLimits integration := by
    intro id integration stored
    by_cases here : id = value.id
    · rw [here, AList.lookup_insert] at stored
      cases stored
      exact valid
    · rw [AList.lookup_insert_ne here] at stored
      exact inv.limits id integration stored
  refine ⟨fun kind => ?_, limits, inv.indexed⟩
  refine sound_limits (inv.sound kind) (by cases kind <;> rfl) (fun key limit found => configure_limit same found) ?_
  intro key limit found
  exact limit_positive limits found

theorem publish_invariant (inv : Invariant w) {value : kind.Value} (member : value ∈ (w.desks kind).held) :
    Invariant (setDesk { w with service := kind.publish w.service value } kind
      ⟨(w.desks kind).asked, release kind.id (w.desks kind).held (kind.id value)⟩) := by
  have same := (inv.sound kind).same value member
  have limits : ∀ id integration, (kind.publish w.service value).integrations.lookup id =
      some integration → validLimits integration := by
    rw [publish_integrations]
    exact inv.limits
  refine ⟨fun other => ?_, limits, publish_indexed inv.indexed same⟩
  by_cases own : other = kind
  · subst own
    simp only [setDesk, update_self]
    exact sound_publish (inv.sound other) member (own_limit other w.service value)
  · simp only [setDesk, update_of_ne own]
    exact sound_limits (inv.sound other) (publish_table_other own w.service value)
      (fun key limit found => publish_limit same found) fun key limit found => limit_positive limits found

/-- One step of the service, as long as it is restrained. -/
theorem step_invariant (action : Action) (calm : restrained w action) (inv : Invariant w)
    (stepped : step w action = some next) : Invariant next := by
  cases action with
  | configure =>
    simp only [step] at stepped
    split at stepped
    · rename_i allowed
      cases stepped
      refine configure_invariant inv allowed.1 ?_
      intro before stored
      simpa [stored] using allowed.2
    · cases stepped
  | others =>
    cases stepped
    refine ⟨fun kind => ?_, inv.limits, inv.indexed⟩
    refine sound_limits (inv.sound kind) (by cases kind <;> rfl) ?_ ?_
    · intro key limit found
      cases kind <;> exact found
    · intro key limit found
      have before : kind.limit w.service key = some limit := by cases kind <;> exact found
      exact limit_positive inv.limits before
  | ask kind =>
    obtain ⟨ask, asked, rfl⟩ := map_eq_some_iff.mp stepped
    have known := ask_limit (to_option_ok asked)
    exact ⟨set_desk_sound inv.sound (sound_ask (inv.sound kind) known), inv.limits, inv.indexed⟩
  | decide kind =>
    obtain ⟨ask, asked, decided⟩ := bind_eq_some_iff.mp stepped
    unfold decideAsk at decided
    split at decided
    · rename_i free
      obtain ⟨record, put, rfl⟩ := map_eq_some_iff.mp decided
      have passed := put_ok inv.indexed (inv.sound kind).filed (to_option_ok put)
      refine ⟨set_desk_sound inv.sound (sound_decide (inv.sound kind) asked free passed ?_), inv.limits, inv.indexed⟩
      intro before stored counted uncounted
      simp only [restrained, asked, all_some, stored, decide_eq_true_eq] at calm
      exact calm ⟨counted, by simp [uncounted]⟩
    · cases decided
  | publish kind id =>
    obtain ⟨value, found, rfl⟩ := map_eq_some_iff.mp stepped
    have named : kind.id value = id := by simpa using find?_some found
    subst named
    exact publish_invariant inv (mem_of_find?_eq_some found)
  | fail kind id =>
    obtain ⟨value, found, rfl⟩ := map_eq_some_iff.mp stepped
    exact ⟨set_desk_sound inv.sound (sound_fail (inv.sound kind) id), inv.limits, inv.indexed⟩

theorem sound_used (kind : Kind) (inv : Invariant w) {id : String} {integration : Integration}
    (home : kind.integration w.service key = some id)
    (stored : w.service.integrations.lookup id = some integration) :
    (used kind w.service key : Int) ≤ kind.limitOf integration :=
  fits_count ((inv.sound kind).room key _ (limit_eq home stored))

theorem invariant_quotas (inv : Invariant w) : Quotas w.service := by
  refine ⟨?_, ?_, ?_, ?_⟩
  · intro id integration stored
    exact sound_used .user inv rfl stored
  · intro id binding integration bound stored
    exact sound_used .project inv (bound_integration (by decide) bound) stored
  · intro id binding integration bound stored
    exact sound_used .conversation inv (bound_integration (by decide) bound) stored
  · intro id binding integration bound stored
    exact sound_used .preview inv (bound_integration (by decide) bound) stored

end Steps

/-- In every run in which no record that is there and does not count is made to count without room
    for it, the quotas hold in every state reached. -/
theorem restrained_quotas_hold (actions : List Action) (w : World)
    (guarded : Guarded step (fun w action => restrained w action) newWorld actions)
    (ran : run step newWorld actions = some w) : Quotas w.service := by
  have inv : Invariant w := guarded_run_invariant Invariant
    (fun state action next calm inv stepped => step_invariant action calm inv stepped)
    guarded ran new_invariant
  exact invariant_quotas inv

def acme : Integration := ⟨"acme", .active, 1, 32, 4, 4⟩

def owner (id : String) : User :=
  ⟨id, "", "acme", .active, ⟨"", 0, 0, 0, 0, 0⟩, "", "", 0, 1, 1, 1⟩

def owners : Table User := (AList.singleton "o1" (owner "o1")).insert "o2" (owner "o2")

def member (id ownerID : String) (status : IntegrationUserStatus) : IntegrationUser :=
  ⟨id, "acme", id, ownerID, status, 0, 0, 0⟩

def put (value : IntegrationUser) (expected : Nat) : List Action :=
  [.ask .user value expected, .decide .user 0 7, .publish .user value.id]

def replaced : List Action :=
  [.configure acme, .others owners ∅ ∅] ++ put (member "u1" "o1" .provisioning) 0 ++
    put (member "u1" "o1" .suspended) 1 ++ put (member "u2" "o2" .provisioning) 0

/-- The second user is suspended before the first one is provisioned again. -/
theorem exchanged_quotas_hold : ∃ w, run step newWorld
    (replaced ++ put (member "u2" "o2" .suspended) 1 ++ put (member "u1" "o1" .provisioning) 2) = some w ∧
    Quotas w.service := by
  obtain ⟨w, ran⟩ := isSome_iff_exists.mp (show (run step newWorld
    (replaced ++ put (member "u2" "o2" .suspended) 1 ++ put (member "u1" "o1" .provisioning) 2)).isSome
    by decide +kernel)
  refine ⟨w, ran, restrained_quotas_hold _ w ?_ ran⟩
  exact checked_guarded restrained (fun _ _ passed => passed) _ _ (by decide +kernel)

/-- The first one is provisioned again beside the second. -/
theorem reactivated_quota_broken : ∃ w, run step newWorld
    (replaced ++ put (member "u1" "o1" .provisioning) 2) = some w ∧ ¬ Quotas w.service := by
  have ended : (run step newWorld (replaced ++ put (member "u1" "o1" .provisioning) 2)).map (fun w =>
      (w.service.integrations.lookup "acme", count (activeIntegrationUser "acme") w.service.integrationUsers)) =
      some (some acme, 2) := by decide +kernel
  obtain ⟨w, ran, held⟩ := map_eq_some_iff.mp ended
  refine ⟨w, ran, fun quotas => ?_⟩
  have bound := quotas.users "acme" acme (congrArg Prod.fst held)
  rw [show count (activeIntegrationUser "acme") w.service.integrationUsers = 2 from congrArg Prod.snd held] at bound
  exact absurd bound (by decide)

end PieRelay.IntegrationQuotas
