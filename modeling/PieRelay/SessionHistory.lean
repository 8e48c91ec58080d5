import PieRelay.ControlPlane
import PieRelay.Executions

/-!
Every version a session record has had, over any run of the control plane. A call reads
in the memory of one manager process, which holds some stored version of a record and
not always the newest, and then puts: in between, or in another process, others may have
put too. The store takes a record only over the version the caller names. The rest of a
process's memory, its nodes, users and conversations, is left open in each call.
-/
namespace PieRelay.SessionHistory
open Function Executions RoomRegistry ControlPlane List

structure Call where
  service : Service
  now : Time
  fresh : String

abbrev Histories := String → List Session

def latestVersion : List Session → Nat
  | [] => 0
  | newest :: _ => newest.version

def persist (h : Histories) (record : Session) (expected : Nat) : Histories :=
  if latestVersion (h record.id) = expected then update h record.id (record :: h record.id) else h

inductive Action where
  | putSession (call : Call) (request : Session) (expected : Nat)
  | ensureSessionRelayNode (reading writing : Call) (sessionID : String)
  | recoverStaleRelaySession (reading writing : Call) (staleAfter : Time) (candidate : Session)
  | rebindManagedChatSession (call : Call) (sessionID : String)
  | applyRelayPresence (reading writing : Call) (presence : RelayPresence)

def Action.calls : Action → List Call
  | .putSession call _ _ => [call]
  | .ensureSessionRelayNode reading writing _ => [reading, writing]
  | .recoverStaleRelaySession reading writing _ _ => [reading, writing]
  | .rebindManagedChatSession call _ => [call]
  | .applyRelayPresence reading writing _ => [reading, writing]

def seen (h : Histories) (call : Call) : Bool :=
  call.service.sessions.entries.all fun entry => entry.2 ∈ h entry.1

def put (h : Histories) (call : Call) (request : Session) (expected : Nat) (allowed : Bool) :
    Histories :=
  match ControlPlane.putSession call.service call.now call.fresh request expected allowed with
  | .ok record => persist h record expected
  | .error _ => h

def putRead (h : Histories) (call : Call) (request : Except ServiceError (Option Session))
    (allowed : Bool) : Histories :=
  match request with
  | .ok (some request) => put h call request request.version allowed
  | _ => h

def perform (h : Histories) : Action → Histories
  | .putSession call request expected => put h call request expected false
  | .ensureSessionRelayNode reading writing sessionID =>
    putRead h writing (ControlPlane.ensureSessionRelayNode reading.service reading.now sessionID) false
  | .recoverStaleRelaySession reading writing staleAfter candidate =>
    putRead h writing (.ok (ControlPlane.recoverStaleRelaySession reading.service reading.now
      staleAfter candidate)) true
  | .rebindManagedChatSession call sessionID =>
    match ControlPlane.rebindManagedChatSession call.service call.now sessionID with
    | .ok (some record) => persist h record (record.version - 1)
    | _ => h
  | .applyRelayPresence reading writing presence =>
    putRead h writing (ControlPlane.applyRelayPresence reading.service reading.now presence) false

def step (h : Histories) (action : Action) : Option Histories :=
  if action.calls.all (seen h) then some (perform h action) else none

/-- Versions grow, a version is filed under its session, its ids are record ids and its generation
    is not negative. -/
structure WellFormed (h : Histories) : Prop where
  ordered : ∀ id, (h id).Pairwise fun newer older => older.version < newer.version
  filed : ∀ id, ∀ version ∈ h id, version.id = id
  positive : ∀ id, ∀ version ∈ h id, 0 < version.version
  owner : ∀ id, ∀ version ∈ h id, validID version.ownerUserID
  generation : ∀ id, ∀ version ∈ h id, 0 ≤ version.relayGeneration

structure Loaded (h : Histories) : Prop where
  wellFormed : WellFormed h
  single : ∀ id, (h id).length ≤ 1

def noHistory : Histories := fun _ => []

variable {h next : Histories} {call : Call} {id : String} {session request record : Session} {action : Action}

theorem no_history_well_formed : WellFormed noHistory := by
  refine ⟨fun _ => .nil, ?_, ?_, ?_, ?_⟩
  all_goals
    intro id version member
    cases member

theorem seen_lookup (known : seen h call) (stored : call.service.sessions.lookup id = some session) :
    session ∈ h id := by
  have entry := AList.mem_lookup_iff.mp (Option.mem_def.mpr stored)
  simpa using all_eq_true.mp known _ entry

/-- Whoever names the newest version has read that version. -/
theorem newest_read (formed : WellFormed h) {newest : Session}
    {older : List Session} (history : h id = newest :: older) (read : session ∈ h id)
    (same : session.version = newest.version) : session = newest := by
  have ordered := formed.ordered id
  rw [history] at ordered read
  rcases mem_cons.mp read with here | old
  · exact here
  · have below := rel_of_pairwise_cons ordered old
    omega

theorem history_empty (formed : WellFormed h) (none : latestVersion (h id) = 0) : h id = [] := by
  cases history : h id with
  | nil => rfl
  | cons newest =>
    have positive := formed.positive id newest (by simp [history])
    rw [history] at none
    exact absurd none (Nat.ne_of_gt positive)

theorem history_newest (formed : WellFormed h)
    (read : session ∈ h id) (latest : latestVersion (h id) = session.version) :
    ∃ older, h id = session :: older := by
  cases history : h id with
  | nil => simp [history] at read
  | cons newest older =>
    have same : session = newest := newest_read formed history read (by
      rw [history] at latest
      exact latest.symm)
    exact ⟨older, by rw [same]⟩

/-- A put is refused, or adds the first version of a session, or adds a version to the one it has
    named. -/
theorem put_cases (formed : WellFormed h) (known : seen h call)
    (request : Session) (expected : Nat) (allowed : Bool) : put h call request expected allowed = h ∨
    ∃ record, PutRecord call.service call.fresh request expected allowed record ∧
      put h call request expected allowed = update h record.id (record :: h record.id) ∧
      ((h record.id = [] ∧ expected = 0 ∧ record.relayGeneration = 1) ∨
        ∃ before older, h record.id = before :: older ∧ before.version = expected ∧
          GenerationFollows before request record allowed) := by
  unfold put
  split
  · rename_i record accepted
    have made := put_session_ok accepted
    unfold persist
    by_cases latest : latestVersion (h record.id) = expected
    · refine Or.inr ⟨record, made, if_pos latest, ?_⟩
      rcases made.origin with ⟨-, rfl, one⟩ | ⟨before, stored, version, follows⟩
      · exact Or.inl ⟨history_empty formed latest, rfl, one⟩
      · obtain ⟨older, history⟩ := history_newest formed (seen_lookup known stored) (latest.trans version.symm)
        exact Or.inr ⟨before, older, history, version, follows⟩
    · exact Or.inl (if_neg latest)
  · exact Or.inl rfl

def GenerationKept (before record : Session) : Prop :=
  record.relayGeneration = before.relayGeneration ∨
    before.relayGeneration = 0 ∧ record.relayGeneration = 1

inductive Replaces : Action → Session → Session → Prop where
  | put (call : Call) (request : Session) (expected : Nat) (before record : Session)
      (named : request.id = before.id) (kept : GenerationKept before record) (node : record.relayNodeID = request.relayNodeID) :
      Replaces (.putSession call request expected) before record
  | ensured (reading writing : Call) (before record : Session) (kept : GenerationKept before record)
      (displaced : onCompatibleNode reading.service reading.now before = false)
      (idle : before.relayNodeID = "" ∨ before.status ≠ .active)
      (read : reading.service.sessions.lookup before.id = some before) :
      Replaces (.ensureSessionRelayNode reading writing before.id) before record
  | recovered (reading writing : Call) (staleAfter : Time) (candidate before record : Session)
      (named : candidate.id = before.id)
      (fenced : record.relayGeneration = nextGeneration before.relayGeneration)
      (node : record.relayNodeID = "") :
      Replaces (.recoverStaleRelaySession reading writing staleAfter candidate) before record
  | rebound (call : Call) (before record : Session)
      (fenced : record.relayGeneration = nextGeneration before.relayGeneration)
      (node : record.relayNodeID = "") :
      Replaces (.rebindManagedChatSession call before.id) before record
  | present (reading writing : Call) (presence : RelayPresence) (before record : Session)
      (kept : GenerationKept before record) (session : presence.sessionID = before.id)
      (host : presence.kind = "host")
      (node : record.relayNodeID = before.relayNodeID ∨
        presence.hostOnline ∧ record.relayNodeID = presence.nodeID) :
      Replaces (.applyRelayPresence reading writing presence) before record

def Stores (h next : Histories) (action : Action) (record : Session) : Prop :=
  validID record.ownerUserID ∧ next = update h record.id (record :: h record.id) ∧
    ((h record.id = [] ∧ record.version = 1 ∧ record.relayGeneration = 1) ∨
      ∃ before older, h record.id = before :: older ∧ record.version = before.version + 1 ∧
        Replaces action before record)

theorem generation_kept {before : Session} (same : request.relayGeneration = before.relayGeneration)
    (follows : GenerationFollows before request record false) : GenerationKept before record := by
  rcases follows with ⟨given, -⟩ | ⟨zero, -, one⟩
  · exact Or.inl (given.trans same)
  · exact Or.inr ⟨zero, one⟩

section
variable (formed : WellFormed h)
include formed

theorem put_read_stores {writing : Call} (known : seen h writing) {allowed : Bool}
    (read : session ∈ h id) (sameID : request.id = session.id) (sameVersion : request.version = session.version)
    (replaces : ∀ record, record.relayNodeID = request.relayNodeID →
      GenerationFollows session request record allowed → Replaces action session record) :
    put h writing request request.version allowed = h ∨
      ∃ record, Stores h (put h writing request request.version allowed) action record := by
  have positive := formed.positive id session read
  rcases put_cases formed known request request.version allowed with
    refused | ⟨record, made, stored, origin⟩
  · exact Or.inl refused
  · have named : record.id = id := by
      rw [made.id, if_neg (by omega), sameID]
      exact formed.filed id session read
    rcases origin with ⟨-, zero, -⟩ | ⟨before, older, history, version, follows⟩
    · omega
    · have same : session = before := by
        refine newest_read formed history ?_ (sameVersion.symm.trans version.symm)
        rw [named]
        exact read
      subst same
      exact Or.inr ⟨record, made.validOwner, stored, Or.inr ⟨session, older, history,
        by rw [made.version, version], replaces record made.node follows⟩⟩

theorem put_stores (known : seen h call) (request : Session) (expected : Nat) : put h call request expected false = h ∨
      ∃ record, Stores h (put h call request expected false) (.putSession call request expected) record := by
  rcases put_cases formed known request expected false with refused | ⟨record, made, stored, origin⟩
  · exact Or.inl refused
  · refine Or.inr ⟨record, made.validOwner, stored, ?_⟩
    rcases origin with ⟨empty, rfl, one⟩ | ⟨before, older, history, version, follows⟩
    · exact Or.inl ⟨empty, made.version, one⟩
    · refine Or.inr ⟨before, older, history, by rw [made.version, version], ?_⟩
      have read : before ∈ h record.id := by simp [history]
      have named : request.id = before.id := by
        have positive := formed.positive record.id before read
        rw [formed.filed record.id before read, made.id, if_neg (by omega)]
      refine .put call request expected before record named ?_ made.node
      rcases follows with ⟨given, same | change⟩ | ⟨zero, -, one⟩
      · exact Or.inl (given.trans same.symm)
      · cases change
      · exact Or.inr ⟨zero, one⟩

/-- The rebind writes its record itself and never asks `PutSession`. -/
theorem rebind_stores (known : seen h call) {sessionID : String}
    (rebound : rebindManagedChatSession call.service call.now sessionID = .ok (some record)) :
    persist h record (record.version - 1) = h ∨ ∃ stored, Stores h (persist h record (record.version - 1))
        (.rebindManagedChatSession call sessionID) stored := by
  obtain ⟨before, stored, sameID, sameOwner, version, node, fenced, -⟩ :=
    rebind_managed_chat_session_ok rebound
  have read := seen_lookup known stored
  have filed := formed.filed sessionID before read
  unfold persist
  by_cases latest : latestVersion (h record.id) = record.version - 1
  · have named : record.id = sessionID := sameID.trans filed
    obtain ⟨older, history⟩ := history_newest formed read (by rw [← named, latest, version]; rfl)
    refine Or.inr ⟨record, sameOwner ▸ formed.owner sessionID before read, if_pos latest,
      Or.inr ⟨before, older, named ▸ history, version, ?_⟩⟩
    rw [← filed]
    exact .rebound call before record fenced node
  · exact Or.inl (if_neg latest)

theorem perform_cases (known : ∀ call ∈ action.calls, seen h call) :
    perform h action = h ∨ ∃ record, Stores h (perform h action) action record := by
  cases action with
  | putSession call request expected =>
    exact put_stores formed (known call mem_cons_self) request expected
  | ensureSessionRelayNode reading writing sessionID =>
    simp only [perform, putRead]
    split
    · rename_i ensured
      obtain ⟨session, stored, displaced, idle, sameID, sameVersion, sameGeneration, -⟩ :=
        ensure_session_relay_node_ok ensured
      have read := seen_lookup (known reading mem_cons_self) stored
      have filed := formed.filed sessionID session read
      refine put_read_stores formed (known writing (by simp [Action.calls])) read sameID sameVersion ?_
      intro record _ follows
      rw [← filed]
      exact .ensured reading writing session record (generation_kept sameGeneration follows)
        displaced idle (by rw [filed]; exact stored)
    · exact Or.inl rfl
  | recoverStaleRelaySession reading writing staleAfter candidate =>
    simp only [perform, putRead]
    split
    · rename_i recovered
      obtain ⟨current, stored, sameID, sameVersion, node, fenced⟩ :=
        recover_stale_relay_session_some (Except.ok.inj recovered)
      have read := seen_lookup (known reading mem_cons_self) stored
      refine put_read_stores formed (known writing (by simp [Action.calls])) read sameID sameVersion ?_
      intro record kept follows
      refine .recovered reading writing staleAfter candidate current record
        (formed.filed candidate.id current read).symm ?_ (kept.trans node)
      rcases follows with ⟨given, -⟩ | ⟨zero, -, one⟩
      · exact given.trans fenced
      · rw [one, zero]
        rfl
    · exact Or.inl rfl
  | rebindManagedChatSession call =>
    simp only [perform]
    split
    · rename_i rebound
      exact rebind_stores formed (known call mem_cons_self) rebound
    · exact Or.inl rfl
  | applyRelayPresence reading writing presence =>
    simp only [perform, putRead]
    split
    · rename_i applied
      obtain ⟨host, session, stored, same⟩ := apply_relay_presence_ok applied
      have read := seen_lookup (known reading mem_cons_self) stored
      obtain ⟨sameID, sameVersion, sameGeneration, node⟩ := host_presence_session session presence
      rw [← same] at sameID sameVersion sameGeneration node
      refine put_read_stores formed (known writing (by simp [Action.calls])) read sameID sameVersion ?_
      intro record kept follows
      exact .present reading writing presence session record
        (generation_kept sameGeneration follows) (formed.filed _ session read).symm host
        (kept ▸ node)
    · exact Or.inl rfl

theorem step_cases (stepped : step h action = some next) : next = h ∨ ∃ record, Stores h next action record := by
  unfold step at stepped
  split at stepped
  · rename_i known
    cases stepped
    exact perform_cases formed (all_eq_true.mp known)
  · cases stepped

end

theorem replaces_generation {before : Session}
    (replaces : Replaces action before record) (nonnegative : 0 ≤ before.relayGeneration) :
    0 ≤ record.relayGeneration := by
  have kept : GenerationKept before record → 0 ≤ record.relayGeneration := by
    rintro (same | ⟨-, one⟩)
    · exact same ▸ nonnegative
    · omega
  have fenced : record.relayGeneration = nextGeneration before.relayGeneration → 0 ≤ record.relayGeneration := by
    intro next
    have positive := next_generation_positive before.relayGeneration
    omega
  cases replaces with
  | put _ _ _ _ _ _ follows | ensured _ _ _ _ follows | present _ _ _ _ _ follows => exact kept follows
  | recovered _ _ _ _ _ _ _ next | rebound _ _ _ next => exact fenced next

section
variable (formed : WellFormed h)
include formed

theorem stored_version (stores : Stores h next action record) :
    0 < record.version ∧ 0 ≤ record.relayGeneration ∧ ∀ version ∈ h record.id, version.version < record.version := by
  obtain ⟨-, -, ⟨empty, one, first⟩ | ⟨before, older, history, version, replaces⟩⟩ := stores
  · refine ⟨by omega, by omega, ?_⟩
    simp [empty]
  · have known : before ∈ h record.id := by simp [history]
    refine ⟨by omega, replaces_generation replaces (formed.generation _ before known), ?_⟩
    intro other member
    have ordered := formed.ordered record.id
    rw [history] at ordered member
    rcases mem_cons.mp member with rfl | old
    · omega
    · have below := rel_of_pairwise_cons ordered old
      omega

theorem push_well_formed (owner : validID record.ownerUserID) (positive : 0 < record.version)
    (nonnegative : 0 ≤ record.relayGeneration)
    (newest : ∀ version ∈ h record.id, version.version < record.version) :
    WellFormed (update h record.id (record :: h record.id)) := by
  -- every version of the new histories is the record or an old version of the same session
  have versions : ∀ id, ∀ version ∈ update h record.id (record :: h record.id) id,
      (version = record ∧ id = record.id) ∨ version ∈ h id := by
    intro id version member
    by_cases here : id = record.id
    · subst here
      rw [update_self] at member
      exact (mem_cons.mp member).imp_left fun same => ⟨same, rfl⟩
    · rw [update_of_ne here] at member
      exact Or.inr member
  refine ⟨fun id => ?_, fun id version member => ?_, fun id version member => ?_,
    fun id version member => ?_, fun id version member => ?_⟩
  · by_cases here : id = record.id
    · subst here
      rw [update_self]
      exact pairwise_cons.mpr ⟨newest, formed.ordered record.id⟩
    · rw [update_of_ne here]
      exact formed.ordered id
  · rcases versions id version member with ⟨rfl, rfl⟩ | old
    · rfl
    · exact formed.filed id version old
  · rcases versions id version member with ⟨rfl, -⟩ | old
    · exact positive
    · exact formed.positive id version old
  · rcases versions id version member with ⟨rfl, -⟩ | old
    · exact owner
    · exact formed.owner id version old
  · rcases versions id version member with ⟨rfl, -⟩ | old
    · exact nonnegative
    · exact formed.generation id version old

theorem stores_well_formed (stores : Stores h next action record) : WellFormed next := by
  obtain ⟨positive, nonnegative, newest⟩ := stored_version formed stores
  obtain ⟨owner, rfl, -⟩ := stores
  exact push_well_formed formed owner positive nonnegative newest

theorem put_replaces {writing : Call} (read : session ∈ h id)
    (same : request.id = session.id ∧ request.version = session.version ∧
      request.relayGeneration = session.relayGeneration)
    (put : putSession writing.service writing.now writing.fresh request request.version false = .ok record)
    (taken : latestVersion (h record.id) + 1 = record.version) :
    record.id = id ∧ (∃ older, h id = session :: older) ∧ WellFormed (update h record.id (record :: h record.id)) ∧
      record.status = if request.status = .unset then .creating else request.status := by
  obtain ⟨sameID, sameVersion, sameGeneration⟩ := same
  have made := put_session_ok put
  have positive := formed.positive id session read
  have named : record.id = id := by
    rw [made.id, if_neg (by omega), sameID]
    exact formed.filed id session read
  subst named
  have version := made.version
  obtain ⟨older, history⟩ := history_newest formed read (by omega)
  have newest : ∀ version ∈ h record.id, version.version < record.version := by
    have ordered := formed.ordered record.id
    intro other member
    rw [history] at ordered member
    rcases mem_cons.mp member with rfl | old
    · omega
    · have below := rel_of_pairwise_cons ordered old
      omega
  have nonnegative : 0 ≤ record.relayGeneration := by
    have least := formed.generation record.id session read
    rcases made.origin with ⟨-, zero, -⟩ | ⟨before, -, -, ⟨given, -⟩ | ⟨-, -, one⟩⟩
    · omega
    · omega
    · omega
  exact ⟨rfl, ⟨older, history⟩, push_well_formed formed made.validOwner (by omega) nonnegative newest, made.status⟩

theorem step_well_formed (stepped : step h action = some next) : WellFormed next := by
  rcases step_cases formed stepped with rfl | ⟨record, stores⟩
  · exact formed
  · exact stores_well_formed formed stores

theorem run_well_formed {after : Histories} {actions : List Action}
    (ran : run step h actions = some after) : WellFormed after :=
  run_invariant WellFormed (fun _ _ _ formed stepped => step_well_formed formed stepped) ran formed

end

end PieRelay.SessionHistory
