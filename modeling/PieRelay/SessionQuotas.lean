import PieRelay.Admission
import PieRelay.ControlPlane
import PieRelay.Executions

/-!
The quotas of a user in one service: how many sessions he may have open, and how many
participants one of his sessions may have. `PutSession` and `PutParticipant` count in the
maps, hold the lock of their own record only, and enter the record when it has been
persisted. What they read besides, a device, a project, a grant, comes with the call. The
quota of a user stays as it is, a session stays with its owner and does not leave the
status closed or error, and a participant stays with its session.
-/
namespace PieRelay.SessionQuotas
open Executions Admission ControlPlane List Option
open RelayToken (bind_ok)
open RoomRegistry (Time)

def zeroQuota : ResourceQuota := ⟨"", 0, 0, 0, 0, 0⟩

def sessionKey (fresh : String) (request : Session) (expected : Nat) : String :=
  if request.id = "" ∧ expected = 0 then fresh else request.id

def participantKey (request : Participant) : String :=
  if request.id = "" then request.sessionID ++ ":" ++ request.connectionID else request.id

def sessionParticipantCount (participants : Table Participant) (sessionID : String) : Nat :=
  (values participants).countP fun participant => participant.sessionID = sessionID

/-- The record that `PutParticipant` hands to the store. `granted` is what `hasGrant` answers, and
    `trusted` comes with the call; without a record of the owner there is no quota. -/
def putParticipant (sessions : Table Session) (participants : Table Participant) (owner : Option User)
    (trusted granted : Bool) (now : Time) (request : Participant) : Except ServiceError Participant := do
  let participant := { request with id := participantKey request }
  demand (validID participant.id ∧ validID participant.sessionID ∧ validID participant.userID ∧
    validID participant.connectionID) .invalid
  demand ((participant.role = "host" ∨ participant.role = "participant") ∧
    (participant.access = "view" ∨ participant.access = "control")) .invalid
  let session ← found (sessions.lookup participant.sessionID) .notFound
  demand (participant.userID = session.ownerUserID ∨ (trusted ∧ session.accessMode = "shared") ∨ granted)
    .forbidden
  let before := participants.lookup participant.id
  let quota := owner.elim zeroQuota User.quota
  demand (before.isSome ∨ quota.maxParticipants ≤ 0 ∨
    sessionParticipantCount participants session.id < quota.maxParticipants) .quota
  return { participant with
    connectedAt := before.elim (if participant.connectedAt = 0 then now else participant.connectedAt)
      Participant.connectedAt
    lastSeenAt := now
    version := before.elim 0 Participant.version + 1 }

def openSession (ownerID : String) (session : Session) : Bool :=
  session.ownerUserID = ownerID ∧ session.status ≠ .closed ∧ session.status ≠ .error

def seatOf (sessionID : String) (participant : Participant) : Bool := participant.sessionID = sessionID

structure World where
  sessions : Table Session
  participants : Table Participant
  creating : List Session
  joining : List Participant

def newWorld : World := ⟨∅, ∅, [], []⟩

inductive Action where
  | putSession (maps : Service) (fresh : String) (request : Session) (expected : Nat) (now : Time)
  | publishSession (id : String)
  | failSession (id : String)
  | putParticipant (owner : Option User) (trusted granted : Bool) (request : Participant) (now : Time)
  | publishParticipant (id : String)
  | failParticipant (id : String)

section Steps
variable (quotas : String → ResourceQuota)

/-- The session stays with its owner and does not leave the status closed or error. -/
def staysPut (before record : Session) : Bool :=
  before.ownerUserID = record.ownerUserID ∧
    (openSession record.ownerUserID record → openSession record.ownerUserID before)

def beginSession (w : World) (maps : Service) (record : Session) : Option World :=
  if (maps.users.lookup record.ownerUserID).all (fun user => user.quota = quotas record.ownerUserID) ∧
      (w.sessions.lookup record.id).all (fun before => staysPut before record) ∧
      w.creating.all (fun other => other.id ≠ record.id) then
    some { w with creating := record :: w.creating }
  else none

def beginParticipant (w : World) (owner : Option User) (record : Participant) : Option World :=
  if (w.sessions.lookup record.sessionID).all (fun session =>
        owner.elim zeroQuota User.quota = quotas session.ownerUserID) ∧
      (w.participants.lookup record.id).all (fun before => before.sessionID = record.sessionID) ∧
      w.joining.all (fun other => other.id ≠ record.id) then
    some { w with joining := record :: w.joining }
  else none

def step (w : World) : Action → Option World
  | .putSession maps fresh request expected now =>
    (ControlPlane.putSession { maps with sessions := w.sessions } now fresh request expected false).toOption.bind
      (beginSession quotas w maps)
  | .publishSession id => (w.creating.find? fun record => record.id = id).map fun record =>
    { w with
      sessions := w.sessions.insert record.id record
      creating := release Session.id w.creating id }
  | .failSession id => (w.creating.find? fun record => record.id = id).map fun _ =>
    { w with creating := release Session.id w.creating id }
  | .putParticipant owner trusted granted request now =>
    (SessionQuotas.putParticipant w.sessions w.participants owner trusted granted now request).toOption.bind
      (beginParticipant quotas w owner)
  | .publishParticipant id => (w.joining.find? fun record => record.id = id).map fun record =>
    { w with
      participants := w.participants.insert record.id record
      joining := release Participant.id w.joining id }
  | .failParticipant id => (w.joining.find? fun record => record.id = id).map fun _ =>
    { w with joining := release Participant.id w.joining id }

/-- The sessions of a user that have been counted and are not open yet, and the participants of a
    session that are not there yet. -/
def comingSessions (w : World) (ownerID : String) : Nat :=
  reserved (openSession ownerID) Session.id w.sessions w.creating

def comingParticipants (w : World) (sessionID : String) : Nat :=
  reserved (seatOf sessionID) Participant.id w.participants w.joining

def roomy (w : World) : Action → Bool
  | .putSession _ fresh request expected _ =>
    (w.sessions.lookup (sessionKey fresh request expected)).isSome ∨
    ¬ openSession request.ownerUserID request ∨ (quotas request.ownerUserID).maxSessions ≤ 0 ∨
    comingSessions w request.ownerUserID = 0 ∨
    ((count (openSession request.ownerUserID) w.sessions + comingSessions w request.ownerUserID : Nat) : Int) <
      (quotas request.ownerUserID).maxSessions
  | .putParticipant _ _ _ request _ => (w.sessions.lookup request.sessionID).all fun session =>
    (w.participants.lookup (participantKey request)).isSome ∨
    (quotas session.ownerUserID).maxParticipants ≤ 0 ∨ comingParticipants w request.sessionID = 0 ∨
    ((count (seatOf request.sessionID) w.participants + comingParticipants w request.sessionID : Nat) : Int) <
      (quotas session.ownerUserID).maxParticipants
  | _ => true

structure Quotas (w : World) : Prop where
  sessions : ∀ ownerID, 0 < (quotas ownerID).maxSessions →
    (count (openSession ownerID) w.sessions : Int) ≤ (quotas ownerID).maxSessions
  participants : ∀ id session, w.sessions.lookup id = some session →
    0 < (quotas session.ownerUserID).maxParticipants →
    (count (seatOf id) w.participants : Int) ≤ (quotas session.ownerUserID).maxParticipants

end Steps

structure Invariant (quotas : String → ResourceQuota) (w : World) : Prop where
  filed : ∀ id session, w.sessions.lookup id = some session → session.id = id
  rooms : ∀ ownerID, 0 < (quotas ownerID).maxSessions →
    Fits (openSession ownerID) Session.id w.sessions w.creating (quotas ownerID).maxSessions
  seats : ∀ id session, w.sessions.lookup id = some session →
    0 < (quotas session.ownerUserID).maxParticipants →
    Fits (seatOf id) Participant.id w.participants w.joining (quotas session.ownerUserID).maxParticipants
  creating : w.creating.Pairwise fun a b => a.id ≠ b.id
  joining : w.joining.Pairwise fun a b => a.id ≠ b.id
  owners : ∀ record ∈ w.creating, ∀ before, w.sessions.lookup record.id = some before →
    before.ownerUserID = record.ownerUserID
  attended : ∀ participant, participant ∈ w.joining ∨
    (∃ id, w.participants.lookup id = some participant) → w.sessions.lookup participant.sessionID ≠ none

section Puts
variable {quotas : String → ResourceQuota} {w next : World}

theorem put_session_counted {s : Service} {now : Time} {fresh : String} {request record : Session}
    {expected : Nat} {allowed : Bool} (put : putSession s now fresh request expected allowed = .ok record) :
    record.id = sessionKey fresh request expected ∧ record.ownerUserID = request.ownerUserID ∧
      (s.sessions.lookup record.id = none →
        (openSession record.ownerUserID record → openSession record.ownerUserID request) ∧
        ∃ user, s.users.lookup record.ownerUserID = some user ∧ (user.quota.maxSessions ≤ 0 ∨
            userActiveSessionCount s record.ownerUserID < user.quota.maxSessions)) := by
  have id := (put_session_ok put).id
  simp only [putSession, bind_ok, demand_ok, found_ok, exists_const, decide_eq_true_eq] at put
  obtain ⟨-, device, -, user, known, -, -, -, -, last⟩ := put
  split at last
  case h_1 unknown =>
    have same := (create_session_ok last).2
    have owner : record.ownerUserID = request.ownerUserID := by
      rw [same]
      simp [stamped]
    refine ⟨id, owner, fun _ => ⟨?_, user, owner ▸ known, ?_⟩⟩
    · rw [owner, same]
      simp only [openSession, stamped, filled_in_status, decide_eq_true_eq]
      rintro ⟨-, closed, failed⟩
      refine ⟨trivial, fun shut => closed ?_, fun broken => failed ?_⟩
      · simp [shut]
      · simp [broken]
    · simp only [createSession, bind_ok, demand_ok, exists_const, decide_eq_true_eq, filled_in_owner] at last
      rw [owner]
      exact last.2.1
  case h_2 before stored =>
    obtain ⟨-, -, generation, same⟩ := replace_session_ok last
    refine ⟨id, by rw [same]; simp [stamped], fun new => ?_⟩
    rw [id] at new
    cases stored.symm.trans new

theorem put_participant_counted {sessions : Table Session} {participants : Table Participant}
    {owner : Option User} {trusted granted : Bool} {now : Time} {request record : Participant}
    (put : putParticipant sessions participants owner trusted granted now request = .ok record) :
    record.id = participantKey request ∧ record.sessionID = request.sessionID ∧
      ∃ session, sessions.lookup record.sessionID = some session ∧
        (participants.lookup record.id = none → (owner.elim zeroQuota User.quota).maxParticipants ≤ 0 ∨
          sessionParticipantCount participants session.id < (owner.elim zeroQuota User.quota).maxParticipants) := by
  simp only [putParticipant, bind_ok, demand_ok, found_ok, exists_const, decide_eq_true_eq, pure,
    Except.pure, Except.ok.injEq] at put
  obtain ⟨-, -, session, stored, -, room, rfl⟩ := put
  refine ⟨rfl, rfl, session, stored, fun new => ?_⟩
  simpa [new] using room

end Puts

section Steps
variable {quotas : String → ResourceQuota} {w next : World}

theorem new_invariant : Invariant quotas newWorld := by
  have sessions : ∀ id session, newWorld.sessions.lookup id = some session → False := by
    intro id session stored
    cases stored
  refine ⟨fun id session stored => (sessions id session stored).elim, fun ownerID positive => ?_,
    fun id session stored => (sessions id session stored).elim, .nil, .nil,
    fun record held => absurd held not_mem_nil, ?_⟩
  · exact positive.le
  · rintro participant (held | ⟨id, stored⟩)
    · cases held
    · cases stored

-- A session that is there already takes the room it has.
theorem session_needs_room {record : Session} {ownerID : String}
    (same : (w.sessions.lookup record.id).all (fun before => staysPut before record))
    (needed : needsRoom (openSession ownerID) Session.id w.sessions record) :
    ownerID = record.ownerUserID ∧ openSession record.ownerUserID record ∧ w.sessions.lookup record.id = none := by
  simp only [needsRoom, Bool.and_eq_true, Bool.not_eq_true'] at needed
  obtain ⟨counted, uncounted⟩ := needed
  have owner : record.ownerUserID = ownerID := by
    simp only [openSession, decide_eq_true_eq] at counted
    exact counted.1
  subst owner
  refine ⟨rfl, counted, ?_⟩
  cases stored : w.sessions.lookup record.id with
  | none => rfl
  | some =>
    simp only [stored, all_some, staysPut, decide_eq_true_eq] at same
    simp [stored, same.2 counted] at uncounted

section
variable (inv : Invariant quotas w)
include inv

theorem begin_session_invariant {maps : Service} {record : Session}
    (room : w.sessions.lookup record.id = none → openSession record.ownerUserID record →
      0 < (quotas record.ownerUserID).maxSessions →
      ((count (openSession record.ownerUserID) w.sessions + comingSessions w record.ownerUserID : Nat) : Int) <
        (quotas record.ownerUserID).maxSessions)
    (begun : beginSession quotas w maps record = some next) : Invariant quotas next := by
  unfold beginSession at begun
  split at begun
  · rename_i allowed
    obtain ⟨-, same, free⟩ := allowed
    cases begun
    refine ⟨inv.filed, fun ownerID positive => ?_, inv.seats, ?_, inv.joining, ?_, inv.attended⟩
    · refine admit_fits (inv.rooms ownerID positive) fun needed => ?_
      obtain ⟨rfl, counted, new⟩ := session_needs_room same needed
      exact room new counted positive
    · refine pairwise_cons.mpr ⟨fun other member => ?_, inv.creating⟩
      exact (by simpa using all_eq_true.mp free other member : other.id ≠ record.id).symm
    · intro other member before stored
      rcases mem_cons.mp member with rfl | held
      · simp only [stored, all_some, staysPut, decide_eq_true_eq] at same
        exact same.1
      · exact inv.owners other held before stored
  · cases begun

theorem begin_participant_invariant {owner : Option User} {record : Participant}
    {session : Session} (host : w.sessions.lookup record.sessionID = some session)
    (room : w.participants.lookup record.id = none → 0 < (quotas session.ownerUserID).maxParticipants →
      ((count (seatOf record.sessionID) w.participants + comingParticipants w record.sessionID : Nat) : Int) <
        (quotas session.ownerUserID).maxParticipants)
    (begun : beginParticipant quotas w owner record = some next) : Invariant quotas next := by
  unfold beginParticipant at begun
  split at begun
  · rename_i allowed
    obtain ⟨-, same, free⟩ := allowed
    cases begun
    refine ⟨inv.filed, inv.rooms, fun id found stored positive => ?_, inv.creating, ?_, inv.owners, ?_⟩
    · refine admit_fits (inv.seats id found stored positive) fun needed => ?_
      simp only [needsRoom, Bool.and_eq_true, Bool.not_eq_true', seatOf, decide_eq_true_eq] at needed
      obtain ⟨rfl, uncounted⟩ := needed
      cases host.symm.trans stored
      refine room ?_ positive
      cases seated : w.participants.lookup record.id with
      | none => rfl
      | some =>
        simp only [seated, all_some, decide_eq_true_eq] at same
        simp [seated, seatOf, same] at uncounted
    · refine pairwise_cons.mpr ⟨fun other member => ?_, inv.joining⟩
      exact (by simpa using all_eq_true.mp free other member : other.id ≠ record.id).symm
    · rintro participant (held | stored)
      · rcases mem_cons.mp held with rfl | before
        · simp [host]
        · exact inv.attended participant (Or.inl before)
      · exact inv.attended participant (Or.inr stored)
  · cases begun

theorem publish_session_invariant {record : Session} (member : record ∈ w.creating) : Invariant quotas { w with
      sessions := w.sessions.insert record.id record
      creating := release Session.id w.creating record.id } := by
  refine ⟨filed_insert inv.filed rfl, fun ownerID positive => ?_, fun id session stored positive => ?_,
    release_apart inv.creating record.id, inv.joining, ?_, ?_⟩
  · exact publish_fits (inv.rooms ownerID positive) inv.creating member
  · by_cases here : id = record.id
    · subst here
      rw [AList.lookup_insert] at stored
      cases stored
      cases before : w.sessions.lookup record.id with
      | some old =>
        have owner := inv.owners record member old before
        rw [← owner] at positive ⊢
        exact inv.seats record.id old before positive
      | none =>
        -- Nobody takes part in a session that is not there.
        have empty : count (seatOf record.id) w.participants = 0 := by
          refine count_zero _ _ fun key participant seated => ?_
          by_contra taken
          simp only [seatOf, decide_eq_false_iff_not, not_not] at taken
          exact inv.attended participant (Or.inr ⟨key, seated⟩) (taken ▸ before)
        have nobody : reserved (seatOf record.id) Participant.id w.participants w.joining = 0 := by
          refine reserved_zero fun participant held => ?_
          by_contra taken
          simp only [seatOf, decide_eq_false_iff_not, not_not] at taken
          exact inv.attended participant (Or.inl held) (taken ▸ before)
        unfold Fits
        rw [empty, nobody]
        exact positive.le
    · rw [AList.lookup_insert_ne here] at stored
      exact inv.seats id session stored positive
  · intro other held before stored
    obtain ⟨earlier, different⟩ := release_mem held
    rw [AList.lookup_insert_ne different] at stored
    exact inv.owners other earlier before stored
  · intro participant known missing
    by_cases here : participant.sessionID = record.id
    · rw [here, AList.lookup_insert] at missing
      cases missing
    · rw [AList.lookup_insert_ne here] at missing
      exact inv.attended participant known missing

theorem fail_session_invariant (id : String) :
    Invariant quotas { w with creating := release Session.id w.creating id } := by
  refine ⟨inv.filed, fun ownerID positive => drop_fits (inv.rooms ownerID positive) id, inv.seats,
    release_apart inv.creating id, inv.joining, ?_, inv.attended⟩
  intro other held before stored
  exact inv.owners other (release_mem held).1 before stored

theorem publish_participant_invariant {record : Participant} (member : record ∈ w.joining) : Invariant quotas { w with
      participants := w.participants.insert record.id record
      joining := release Participant.id w.joining record.id } := by
  refine ⟨inv.filed, inv.rooms, fun id session stored positive => ?_, inv.creating,
    release_apart inv.joining record.id, inv.owners, ?_⟩
  · exact publish_fits (inv.seats id session stored positive) inv.joining member
  · rintro participant (held | ⟨key, stored⟩)
    · exact inv.attended participant (Or.inl (release_mem held).1)
    · by_cases here : key = record.id
      · rw [here, AList.lookup_insert] at stored
        cases stored
        exact inv.attended record (Or.inl member)
      · rw [AList.lookup_insert_ne here] at stored
        exact inv.attended participant (Or.inr ⟨key, stored⟩)

theorem fail_participant_invariant (id : String) :
    Invariant quotas { w with joining := release Participant.id w.joining id } := by
  refine ⟨inv.filed, inv.rooms, fun other session stored positive => ?_, inv.creating,
    release_apart inv.joining id, inv.owners, ?_⟩
  · exact drop_fits (inv.seats other session stored positive) id
  · rintro participant (held | stored)
    · exact inv.attended participant (Or.inl (release_mem held).1)
    · exact inv.attended participant (Or.inr stored)

-- The own check is enough as long as nobody else has been counted and is still to come.
theorem put_session_invariant {maps : Service} {fresh : String} {request : Session}
    {expected : Nat} {now : Time} (calm : roomy quotas w (.putSession maps fresh request expected now))
    (stepped : step quotas w (.putSession maps fresh request expected now) = some next) :
    Invariant quotas next := by
  obtain ⟨record, put, begun⟩ := bind_eq_some_iff.mp stepped
  obtain ⟨named, owner, counted⟩ := put_session_counted (to_option_ok put)
  refine begin_session_invariant inv (fun new isOpen positive => ?_) begun
  obtain ⟨asked, user, known, below⟩ := counted new
  have quota : user.quota = quotas record.ownerUserID := by
    unfold beginSession at begun
    split at begun
    · rename_i allowed
      simpa [show maps.users.lookup record.ownerUserID = some user from known] using allowed.1
    · cases begun
  have own : (count (openSession record.ownerUserID) w.sessions : Int) < (quotas record.ownerUserID).maxSessions := by
    rw [quota] at below
    exact below.resolve_left (not_le.mpr positive)
  have unknown : w.sessions.lookup (sessionKey fresh request expected) = none := named ▸ new
  simp only [roomy, decide_eq_true_eq, ← owner, unknown, asked isOpen] at calm
  rcases calm with stored | shut | unlimited | alone | room
  · cases stored
  · exact absurd trivial shut
  · exact absurd unlimited (not_le.mpr positive)
  · rw [alone]
    exact own
  · exact room

theorem put_participant_invariant {owner : Option User} {trusted granted : Bool} {request : Participant} {now : Time}
    (calm : roomy quotas w (.putParticipant owner trusted granted request now))
    (stepped : step quotas w (.putParticipant owner trusted granted request now) = some next) :
    Invariant quotas next := by
  obtain ⟨record, put, begun⟩ := bind_eq_some_iff.mp stepped
  obtain ⟨named, sameSession, session, host, counted⟩ := put_participant_counted (to_option_ok put)
  refine begin_participant_invariant inv host (fun new positive => ?_) begun
  have quota : owner.elim zeroQuota User.quota = quotas session.ownerUserID := by
    unfold beginParticipant at begun
    split at begun
    · rename_i allowed
      simpa [host] using allowed.1
    · cases begun
  have own : (count (seatOf record.sessionID) w.participants : Int) < (quotas session.ownerUserID).maxParticipants := by
    have below := counted new
    rw [quota, inv.filed record.sessionID session host] at below
    exact below.resolve_left (not_le.mpr positive)
  have unknown : w.participants.lookup (participantKey request) = none := named ▸ new
  simp only [roomy, show w.sessions.lookup request.sessionID = some session from sameSession ▸ host,
    ← sameSession, unknown, all_some, decide_eq_true_eq] at calm
  rcases calm with stored | unlimited | alone | room
  · cases stored
  · exact absurd unlimited (not_le.mpr positive)
  · rw [alone]
    exact own
  · exact room

end

/-- One step of the service, as long as there is room for everybody who has been counted. -/
theorem step_invariant (action : Action) (calm : roomy quotas w action) (inv : Invariant quotas w)
    (stepped : step quotas w action = some next) : Invariant quotas next := by
  cases action with
  | putSession => exact put_session_invariant inv calm stepped
  | putParticipant => exact put_participant_invariant inv calm stepped
  | publishSession id =>
    obtain ⟨record, found, rfl⟩ := map_eq_some_iff.mp stepped
    have named : record.id = id := by simpa using find?_some found
    subst named
    exact publish_session_invariant inv (mem_of_find?_eq_some found)
  | failSession id =>
    obtain ⟨record, -, rfl⟩ := map_eq_some_iff.mp stepped
    exact fail_session_invariant inv id
  | publishParticipant id =>
    obtain ⟨record, found, rfl⟩ := map_eq_some_iff.mp stepped
    have named : record.id = id := by simpa using find?_some found
    subst named
    exact publish_participant_invariant inv (mem_of_find?_eq_some found)
  | failParticipant id =>
    obtain ⟨record, -, rfl⟩ := map_eq_some_iff.mp stepped
    exact fail_participant_invariant inv id

theorem invariant_quotas (inv : Invariant quotas w) : Quotas quotas w := by
  refine ⟨?_, ?_⟩
  · intro ownerID positive
    exact fits_count (inv.rooms ownerID positive)
  · intro id session stored positive
    exact fits_count (inv.seats id session stored positive)

end Steps

/-- In every run in which there is room for everybody who has been counted and is still to come, the
    quotas hold in every state reached. -/
theorem roomy_quotas_hold (quotas : String → ResourceQuota) (actions : List Action) (w : World)
    (guarded : Guarded (step quotas) (fun w action => roomy quotas w action) newWorld actions)
    (ran : run (step quotas) newWorld actions = some w) : Quotas quotas w := by
  have inv : Invariant quotas w := guarded_run_invariant (Invariant quotas)
    (fun state action next calm inv stepped => step_invariant action calm inv stepped)
    guarded ran new_invariant
  exact invariant_quotas inv

/-! Two sessions of one user, and two participants of the first of them, each counted before the other
is there. -/

def limited (limit : Int) : ResourceQuota := ⟨"", 0, 0, 0, limit, limit⟩

def limitedOwner (limit : Int) : User := { owner with quota := limited limit }

def limitedService (limit : Int) : Service :=
  { freshService with users := AList.insert "owner" (limitedOwner limit) ∅ }

def guest (connectionID : String) : Participant :=
  ⟨"", "session-a", "owner", connectionID, "participant", "view", "relay", 0, 0, 0⟩

def join (limit : Int) (connectionID : String) : Action :=
  .putParticipant (some (limitedOwner limit)) false false (guest connectionID) 7

def crowd (limit : Int) : List Action :=
  [.putSession (limitedService limit) "" newSession 0 5,
    .putSession (limitedService limit) "" { newSession with id := "session-b" } 0 5,
    .publishSession "session-a", .publishSession "session-b",
    join limit "c1", join limit "c2",
    .publishParticipant "session-a:c1", .publishParticipant "session-a:c2"]

theorem crowd_of_two_fits : ∃ w, run (step fun _ => limited 2) newWorld (crowd 2) = some w ∧
    count (openSession "owner") w.sessions = 2 ∧ count (seatOf "session-a") w.participants = 2 ∧
    Quotas (fun _ => limited 2) w := by
  obtain ⟨w, ran, open2, seats2⟩ : ∃ w, run (step fun _ => limited 2) newWorld (crowd 2) = some w ∧
      count (openSession "owner") w.sessions = 2 ∧ count (seatOf "session-a") w.participants = 2 := by
    refine ⟨_, rfl, ?_, ?_⟩ <;> decide +kernel
  refine ⟨w, ran, open2, seats2, roomy_quotas_hold _ (crowd 2) w ?_ ran⟩
  exact checked_guarded (roomy fun _ => limited 2) (fun _ _ passed => passed) _ _ (by decide +kernel)

/-- Both sessions were counted when there was none. -/
theorem crowd_of_one_broken : ¬ ∀ (quotas : String → ResourceQuota) (actions : List Action) (w : World),
      run (step quotas) newWorld actions = some w → Quotas quotas w := by
  intro always
  obtain ⟨w, ran, two⟩ : ∃ w, run (step fun _ => limited 1) newWorld (crowd 1) = some w ∧
      count (openSession "owner") w.sessions = 2 := by
    refine ⟨_, rfl, ?_⟩
    decide +kernel
  have one := (always _ (crowd 1) w ran).sessions "owner" (by decide)
  rw [two] at one
  exact absurd one (by decide)

end PieRelay.SessionQuotas
