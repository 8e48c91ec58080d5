import Mathlib.Data.Finset.Max
import PieRelay.ControlPlane

/-!
The user lifecycle webhook, `handleUserLifecycle` of executor-manager/cmd/manager, on one
user record. The signature has been checked. An event that is not newer than the last one
applied is answered as stale and ignored, so the newest event wins; but an event may carry
any part of the record, and what a stale event would have set is lost. What follows the
record, provisioning and the drains of a deactivated user, does not change it. The hash
of an event and the reading of a CPU count (a positive, finite number) are parameters.
-/
namespace PieRelay.UserLifecycle
open RoomRegistry ControlPlane List Option
open RelayToken (bind_ok second)

inductive EventType where
  | created
  | updated
  | reactivated
  | suspended
  | deleted
  | unsupported (text : String)
  deriving DecidableEq

structure LifecycleEvent where
  id : String
  type : EventType
  occurredAt : Time
  provision : Bool
  userID : String
  externalSubject : String
  organizationID : String
  quota : Option ResourceQuota
  deriving DecidableEq

def validUserID (value : String) : Bool :=
  value ≠ "" ∧ value.utf8ByteSize ≤ 128 ∧ value ≠ "." ∧ value ≠ ".." ∧
    value.toList.all fun c => ('a' ≤ c ∧ c ≤ 'z') ∨ ('A' ≤ c ∧ c ≤ 'Z') ∨ ('0' ≤ c ∧ c ≤ '9') ∨
      c = '-' ∨ c = '_' ∨ c = '.'

def requestedStatus : EventType → UserStatus
  | .created | .reactivated => .active
  | .suspended => .suspended
  | .deleted => .deleted
  | .updated | .unsupported _ => .unset

def supported : EventType → Bool
  | .unsupported _ => false
  | _ => true

inductive Refusal where
  | invalidEvent
  | inTheFuture
  | unsupportedEvent
  | otherPayload
  | otherOccurredAt
  | otherType
  | service (error : ServiceError)
  deriving DecidableEq

inductive Reply where
  | refused (reason : Refusal)
  | stale (user : User)
  | duplicate (user : User)
  | applied (user : User)
  | unchanged (user : User)

structure Settings where
  defaultQuota : ResourceQuota
  webhookSkew : Time

structure Delivery where
  event : LifecycleEvent
  receivedAt : Time
  now : Time

def eventSkew (settings : Settings) : Time :=
  if settings.webhookSkew ≤ 0 then 300 * second else settings.webhookSkew

def blankUser : User := ⟨"", "", "", .unset, noQuota, "", "", 0, 0, 0, 0⟩

section Handling
variable (positiveCPUs : String → Bool) (hash : LifecycleEvent → String)

def validResourceQuota (quota : ResourceQuota) : Bool :=
  0 ≤ quota.memoryBytes ∧ 0 ≤ quota.pids ∧ 0 ≤ quota.diskBytes ∧ 0 ≤ quota.maxSessions ∧
    0 ≤ quota.maxParticipants ∧ (quota.cpus = "" ∨ positiveCPUs quota.cpus)

def putUser (defaultQuota : ResourceQuota) (now : Time) (before : Option User) (user : User)
    (expected : Nat) : Except ServiceError User := do
  demand (validUserID user.id ∧ validResourceQuota positiveCPUs user.quota) .invalid
  demand ((before.elim 0 (·.version)) = expected) .conflict
  let quota := if before = none ∧ user.quota = noQuota then defaultQuota else user.quota
  let status := if user.status = .unset then .active else user.status
  demand (status = .active ∨ status = .suspended ∨ status = .deleted) .invalid
  return { user with
    quota := quota
    status := status
    externalSubject := if user.externalSubject = "" then user.id else user.externalSubject
    createdAt := before.elim (if user.createdAt = 0 then now else user.createdAt) (·.createdAt)
    updatedAt := now
    version := expected + 1 }

def nextStatus (current : Option User) (type : EventType) : UserStatus :=
  if requestedStatus type ≠ .unset then requestedStatus type
  else match current with
    | none => .active
    | some user => if user.status = .unset then .active else user.status

def changedUser (current : Option User) (event : LifecycleEvent) : User :=
  let before := current.getD { blankUser with id := event.userID }
  { before with
    status := nextStatus current event.type
    lifecycleEventID := event.id
    lifecycleEventHash := hash event
    lifecycleOccurredAt := event.occurredAt
    externalSubject :=
      if event.externalSubject ≠ "" then event.externalSubject
      else if before.externalSubject = "" then event.userID else before.externalSubject
    organizationID :=
      if event.organizationID ≠ "" ∨ current = none then event.organizationID
      else before.organizationID
    quota := event.quota.getD before.quota }

def lifecycleUserChanged (before after : User) : Bool :=
  before.status ≠ after.status ∨ before.externalSubject ≠ after.externalSubject ∨
    before.organizationID ≠ after.organizationID ∨ before.quota ≠ after.quota ∨
    before.lifecycleEventID ≠ after.lifecycleEventID ∨
    before.lifecycleEventHash ≠ after.lifecycleEventHash ∨
    before.lifecycleOccurredAt ≠ after.lifecycleOccurredAt

def applyEvent (settings : Settings) (now : Time) (current : Option User) (event : LifecycleEvent) :
    Reply :=
  let value := changedUser hash current event
  if current.all (lifecycleUserChanged · value) then
    match putUser positiveCPUs settings.defaultQuota now current value (current.elim 0 (·.version)) with
    | .ok user => .applied user
    | .error error => .refused (.service error)
  else .unchanged value

def isDuplicate (current : Option User) (event : LifecycleEvent) : Bool :=
  current.any fun user => user.lifecycleEventID = event.id

def isStale (current : Option User) (event : LifecycleEvent) : Bool :=
  current.any fun user => user.lifecycleOccurredAt ≠ 0 ∧ ¬ user.lifecycleOccurredAt < event.occurredAt

def answerDuplicate (user : User) (event : LifecycleEvent) : Reply :=
  if user.lifecycleEventHash ≠ "" ∧ user.lifecycleEventHash ≠ hash event then .refused .otherPayload
  else if user.lifecycleOccurredAt ≠ event.occurredAt then .refused .otherOccurredAt
  else if nextStatus (some user) event.type ≠ user.status then .refused .otherType
  else .duplicate user

def handleUserLifecycle (settings : Settings) (current : Option User) (d : Delivery) : Reply :=
  if d.event.id = "" ∨ d.event.occurredAt = 0 ∨ ¬ validUserID d.event.userID then .refused .invalidEvent
  else if d.receivedAt + eventSkew settings < d.event.occurredAt then .refused .inTheFuture
  else if ¬ supported d.event.type then .refused .unsupportedEvent
  else match current with
    | none => applyEvent positiveCPUs hash settings d.now none d.event
    | some user =>
      if isDuplicate current d.event then answerDuplicate hash user d.event
      else if isStale current d.event then .stale user
      else applyEvent positiveCPUs hash settings d.now current d.event

def deliver (settings : Settings) (current : Option User) (d : Delivery) : Option User :=
  match handleUserLifecycle positiveCPUs hash settings current d with
  | .applied user => some user
  | _ => current

def deliverAll (settings : Settings) (current : Option User) (deliveries : List Delivery) :
    Option User :=
  deliveries.foldl (deliver positiveCPUs hash settings) current

def effective (event : LifecycleEvent) : Bool :=
  event.id ≠ "" ∧ event.occurredAt ≠ 0 ∧ validUserID event.userID ∧ supported event.type ∧
    event.quota.all (validResourceQuota positiveCPUs)

def onTime (settings : Settings) (d : Delivery) : Bool :=
  d.event.occurredAt ≤ d.receivedAt + eventSkew settings

structure StoredUser (user : User) : Prop where
  id : validUserID user.id
  quota : validResourceQuota positiveCPUs user.quota
  status : user.status = .active ∨ user.status = .suspended ∨ user.status = .deleted

structure Applied (settings : Settings) (current : Option User) (event : LifecycleEvent)
    (user : User) : Prop where
  eventID : user.lifecycleEventID = event.id
  occurredAt : user.lifecycleOccurredAt = event.occurredAt
  status : user.status = nextStatus current event.type
  organization : user.organizationID =
    if event.organizationID ≠ "" then event.organizationID else current.elim "" (·.organizationID)
  quota : user.quota =
    if current = none ∧ event.quota.getD noQuota = noQuota then settings.defaultQuota
    else event.quota.getD (current.elim noQuota (·.quota))
  stored : StoredUser positiveCPUs user

end Handling

section Deliveries
variable {positiveCPUs : String → Bool} {hash : LifecycleEvent → String} {settings : Settings}
variable {current : Option User} {d : Delivery} {user : User} {now : Time} {event : LifecycleEvent}
  {events : List LifecycleEvent} {deliveries : List Delivery}

theorem no_quota_valid : validResourceQuota positiveCPUs noQuota := by
  simp [validResourceQuota, noQuota]

theorem next_status_known (type : EventType) (stored : ∀ user, current = some user → StoredUser positiveCPUs user) :
    nextStatus current type = .active ∨ nextStatus current type = .suspended ∨ nextStatus current type = .deleted := by
  unfold nextStatus
  split
  · cases type <;> simp_all [requestedStatus]
  · split
    · exact Or.inl rfl
    · rename_i user
      split
      · exact Or.inl rfl
      · exact (stored user rfl).status

theorem answer_duplicate_cases (user : User) (event : LifecycleEvent) :
    (∃ reason, answerDuplicate hash user event = .refused reason) ∨
      answerDuplicate hash user event = .duplicate user := by
  unfold answerDuplicate
  split
  · exact Or.inl ⟨_, rfl⟩
  · split
    · exact Or.inl ⟨_, rfl⟩
    · split
      · exact Or.inl ⟨_, rfl⟩
      · exact Or.inr rfl

/-- An event is refused, is the user's last one again, is stale, or goes on to be applied. -/
theorem handle_cases (current : Option User) (d : Delivery) :
    (∃ reason, handleUserLifecycle positiveCPUs hash settings current d = .refused reason) ∨
    (∃ user, current = some user ∧ handleUserLifecycle positiveCPUs hash settings current d = .duplicate user) ∨
    (∃ user, handleUserLifecycle positiveCPUs hash settings current d = .stale user) ∨
    (d.event.id ≠ "" ∧ d.event.occurredAt ≠ 0 ∧ validUserID d.event.userID ∧
      supported d.event.type ∧ isDuplicate current d.event = false ∧
      isStale current d.event = false ∧
      handleUserLifecycle positiveCPUs hash settings current d =
        applyEvent positiveCPUs hash settings d.now current d.event) := by
  unfold handleUserLifecycle
  split
  · exact Or.inl ⟨_, rfl⟩
  · rename_i formed
    simp only [not_or, not_not] at formed
    split
    · exact Or.inl ⟨_, rfl⟩
    · split
      · exact Or.inl ⟨_, rfl⟩
      · rename_i known
        have known := not_not.mp known
        split
        · exact Or.inr (Or.inr (Or.inr ⟨formed.1, formed.2.1, formed.2.2, known, rfl, rfl, rfl⟩))
        · rename_i user
          split
          · rcases answer_duplicate_cases user d.event with ⟨reason, refused⟩ | duplicate
            · exact Or.inl ⟨reason, refused⟩
            · exact Or.inr (Or.inl ⟨user, rfl, duplicate⟩)
          · rename_i distinct
            split
            · exact Or.inr (Or.inr (Or.inl ⟨user, rfl⟩))
            · rename_i newer
              exact Or.inr (Or.inr (Or.inr ⟨formed.1, formed.2.1, formed.2.2, known,
                by simpa using distinct, by simpa using newer, rfl⟩))

theorem handle_applied (answer : handleUserLifecycle positiveCPUs hash settings current d = .applied user) :
    d.event.id ≠ "" ∧ d.event.occurredAt ≠ 0 ∧ validUserID d.event.userID ∧
      supported d.event.type ∧ isDuplicate current d.event = false ∧ isStale current d.event = false ∧
      applyEvent positiveCPUs hash settings d.now current d.event = .applied user := by
  rcases handle_cases current d with ⟨_, same⟩ | ⟨_, -, same⟩ | ⟨_, same⟩ |
    ⟨id, occurred, valid, known, distinct, newer, same⟩
  · cases same.symm.trans answer
  · cases same.symm.trans answer
  · cases same.symm.trans answer
  · exact ⟨id, occurred, valid, known, distinct, newer, same.symm.trans answer⟩

theorem put_user_ok {defaultQuota : ResourceQuota} {before : Option User} {record : User} {expected : Nat}
    (put : putUser positiveCPUs defaultQuota now before user expected = .ok record) :
    validUserID user.id ∧ validResourceQuota positiveCPUs user.quota ∧
      record.id = user.id ∧ record.lifecycleEventID = user.lifecycleEventID ∧
      record.lifecycleOccurredAt = user.lifecycleOccurredAt ∧ record.organizationID = user.organizationID ∧
      record.status = (if user.status = .unset then .active else user.status) ∧
      (record.status = .active ∨ record.status = .suspended ∨ record.status = .deleted) ∧
      record.quota = if before = none ∧ user.quota = noQuota then defaultQuota else user.quota := by
  simp only [putUser, bind_ok, demand_ok, exists_const, decide_eq_true_eq, pure, Except.pure, Except.ok.injEq] at put
  obtain ⟨⟨id, quota⟩, -, status, rfl⟩ := put
  exact ⟨id, quota, rfl, rfl, rfl, rfl, rfl, status, rfl⟩

theorem changed_quota (current : Option User) (event : LifecycleEvent) : (changedUser hash current event).quota =
      event.quota.getD (current.elim noQuota (·.quota)) := by
  cases current <;> rfl

theorem changed_organization (current : Option User) (event : LifecycleEvent) :
    (changedUser hash current event).organizationID =
      if event.organizationID ≠ "" then event.organizationID
      else current.elim "" (·.organizationID) := by
  cases current with
  | none | some =>
    by_cases named : event.organizationID = "" <;> simp [changedUser, named]

theorem next_status_set (current : Option User) (type : EventType) : nextStatus current type ≠ .unset := by
  unfold nextStatus
  split
  · assumption
  · split
    · nofun
    · split
      · nofun
      · assumption

theorem apply_event_applied (default : validResourceQuota positiveCPUs settings.defaultQuota)
    (answer : applyEvent positiveCPUs hash settings now current event = .applied user) :
    event.quota.all (validResourceQuota positiveCPUs) ∧ Applied positiveCPUs settings current event user := by
  unfold applyEvent at answer
  dsimp only at answer
  split at answer
  · split at answer
    · rename_i put
      cases answer
      obtain ⟨id, valid, sameID, eventID, occurredAt, organization, status, known, quota⟩ :=
        put_user_ok put
      rw [changed_quota] at valid quota
      rw [changed_organization] at organization
      have next : (changedUser hash current event).status = nextStatus current event.type := rfl
      rw [next, if_neg (next_status_set current event.type)] at status
      have allowed : event.quota.all (validResourceQuota positiveCPUs) := by
        cases given : event.quota with
        | none => rfl
        | some => simpa [given] using valid
      have empty : (current = none ∧ event.quota.getD (current.elim noQuota (·.quota)) = noQuota) ↔
          (current = none ∧ event.quota.getD noQuota = noQuota) := by
        refine and_congr_right fun new => ?_
        rw [new]
        rfl
      simp only [empty] at quota
      refine ⟨allowed, eventID, occurredAt, status, organization, quota, sameID ▸ id, ?_, known⟩
      rw [quota]
      split
      · exact default
      · exact valid
    · cases answer
  · cases answer

/-- A delivery changes nothing, or applies an event that is new and newer. -/
theorem deliver_cases (default : validResourceQuota positiveCPUs settings.defaultQuota)
    (current : Option User) (d : Delivery) :
    deliver positiveCPUs hash settings current d = current ∨
    ∃ user, deliver positiveCPUs hash settings current d = some user ∧
      effective positiveCPUs d.event ∧ isStale current d.event = false ∧
      Applied positiveCPUs settings current d.event user := by
  unfold deliver
  split
  · rename_i user answer
    obtain ⟨id, occurred, valid, known, -, newer, applied⟩ := handle_applied answer
    obtain ⟨quota, result⟩ := apply_event_applied default applied
    exact Or.inr ⟨user, rfl, by simp [effective, id, occurred, valid, known, quota], newer, result⟩
  · exact Or.inl rfl

/-- An event other than the user's last one always changes the record. -/
theorem lifecycle_changed (distinct : isDuplicate current event = false) :
    current.all (lifecycleUserChanged · (changedUser hash current event)) := by
  cases current with
  | none => rfl
  | some user =>
    have other : user.lifecycleEventID ≠ event.id := by simpa [isDuplicate] using distinct
    simp [lifecycleUserChanged, changedUser, other]

theorem put_user_changed (stored : ∀ user, current = some user → StoredUser positiveCPUs user)
    (applicable : effective positiveCPUs event) :
    ∃ record, putUser positiveCPUs settings.defaultQuota now current (changedUser hash current event)
      (current.elim 0 (·.version)) = .ok record := by
  simp only [effective, decide_eq_true_eq] at applicable
  obtain ⟨-, -, valid, -, asked⟩ := applicable
  have id : validUserID (changedUser hash current event).id := by
    cases current with
    | none => exact valid
    | some user => exact (stored user rfl).id
  have quota : validResourceQuota positiveCPUs (changedUser hash current event).quota := by
    rw [changed_quota]
    cases given : event.quota with
    | some => simpa [given] using asked
    | none =>
      cases current with
      | none => exact no_quota_valid
      | some user => exact (stored user rfl).quota
  have status := next_status_known event.type stored
  have next : (changedUser hash current event).status = nextStatus current event.type := rfl
  simp only [putUser, bind_ok, demand_ok, exists_const, decide_eq_true_eq, pure, Except.pure,
    Except.ok.injEq, next, if_neg (next_status_set current event.type)]
  exact ⟨_, ⟨id, quota⟩, trivial, status, rfl⟩

/-- An event that can be applied, is new and is newer, is applied. -/
theorem deliver_applied (default : validResourceQuota positiveCPUs settings.defaultQuota)
    (stored : ∀ user, current = some user → StoredUser positiveCPUs user)
    (applicable : effective positiveCPUs d.event) (timely : onTime settings d)
    (distinct : isDuplicate current d.event = false) (newer : isStale current d.event = false) :
    ∃ user, deliver positiveCPUs hash settings current d = some user ∧
      Applied positiveCPUs settings current d.event user := by
  obtain ⟨record, put⟩ : ∃ record, putUser positiveCPUs settings.defaultQuota d.now current
      (changedUser hash current d.event) (current.elim 0 (·.version)) = .ok record :=
    put_user_changed stored applicable
  have answer : applyEvent positiveCPUs hash settings d.now current d.event = .applied record := by
    unfold applyEvent
    dsimp only
    rw [if_pos (lifecycle_changed distinct), put]
  have handled : handleUserLifecycle positiveCPUs hash settings current d = .applied record := by
    simp only [effective, decide_eq_true_eq] at applicable
    simp only [onTime, decide_eq_true_eq] at timely
    unfold handleUserLifecycle
    rw [if_neg (by simp [applicable]), if_neg (Int.not_lt.mpr timely), if_neg (by simp [applicable])]
    cases current with
    | none => exact answer
    | some =>
      dsimp only
      rw [if_neg (by simp [distinct]), if_neg (by simp [newer])]
      exact answer
  refine ⟨record, ?_, (apply_event_applied default answer).2⟩
  unfold deliver
  rw [handled]

structure Distinct (events : List LifecycleEvent) : Prop where
  ids : ∀ a ∈ events, ∀ b ∈ events, a.id = b.id → a = b
  times : ∀ a ∈ events, ∀ b ∈ events, a.occurredAt = b.occurredAt → a = b

def Recorded (events : List LifecycleEvent) (user : User) : Prop :=
  ∀ event ∈ events, user.lifecycleEventID = event.id → user.lifecycleOccurredAt = event.occurredAt

variable (positiveCPUs) in
structure Newest (events : List LifecycleEvent) (newest : LifecycleEvent) : Prop where
  member : newest ∈ events
  effective : effective positiveCPUs newest
  last : ∀ event ∈ events, UserLifecycle.effective positiveCPUs event →
    event.occurredAt ≤ newest.occurredAt

def Awaits (newest : LifecycleEvent) (user : User) : Prop :=
  user.lifecycleOccurredAt = 0 ∨ user.lifecycleOccurredAt < newest.occurredAt

variable (positiveCPUs) in
def Ready (events : List LifecycleEvent) (newest : LifecycleEvent) (current : Option User) : Prop :=
  ∀ user, current = some user →
    StoredUser positiveCPUs user ∧ Recorded events user ∧ Awaits newest user

variable (hash settings) in
theorem deliver_ready (default : validResourceQuota positiveCPUs settings.defaultQuota) (distinct : Distinct events) {newest : LifecycleEvent}
    (last : Newest positiveCPUs events newest) (member : d.event ∈ events) (other : d.event ≠ newest)
    (ready : Ready positiveCPUs events newest current) :
    Ready positiveCPUs events newest (deliver positiveCPUs hash settings current d) := by
  rcases deliver_cases default current d with same | ⟨user, changed, applicable, -, applied⟩
  · rw [same]
    exact ready
  · rw [changed]
    rintro _ ⟨rfl⟩
    refine ⟨applied.stored, ?_, Or.inr ?_⟩
    · intro event listed named
      rw [applied.occurredAt, distinct.ids d.event member event listed (applied.eventID.symm.trans named)]
    · rw [applied.occurredAt]
      refine lt_of_le_of_ne (last.last d.event member applicable) fun level => other ?_
      exact distinct.times d.event member newest last.member level

theorem effective_occurred (applicable : effective positiveCPUs event) : event.occurredAt ≠ 0 := by
  simp only [effective, decide_eq_true_eq] at applicable
  exact applicable.2.1

variable (hash) in
theorem deliver_newest (default : validResourceQuota positiveCPUs settings.defaultQuota)
    (last : Newest positiveCPUs events d.event) (timely : onTime settings d)
    (ready : Ready positiveCPUs events d.event current) :
    ∃ user, deliver positiveCPUs hash settings current d = some user ∧
      Applied positiveCPUs settings current d.event user := by
  have occurred := effective_occurred last.effective
  refine deliver_applied default (fun user same => (ready user same).1) last.effective timely ?_ ?_
  · cases current with
    | none => rfl
    | some user =>
      obtain ⟨-, recorded, awaits⟩ := ready user rfl
      simp only [isDuplicate, any_some, decide_eq_false_iff_not]
      intro named
      have level := recorded d.event last.member named
      rcases awaits with zero | earlier
      · exact occurred (level.symm.trans zero)
      · exact (ne_of_lt earlier) level
  · cases current with
    | none => rfl
    | some user =>
      obtain ⟨-, -, awaits⟩ := ready user rfl
      simp only [isStale, any_some, decide_eq_false_iff_not]
      rintro ⟨nonzero, late⟩
      rcases awaits with zero | earlier
      · exact nonzero zero
      · exact late earlier

variable (hash) in
theorem deliver_settled (default : validResourceQuota positiveCPUs settings.defaultQuota) (applied : user.lifecycleOccurredAt ≠ 0)
    (older : effective positiveCPUs d.event → d.event.occurredAt ≤ user.lifecycleOccurredAt) :
    deliver positiveCPUs hash settings (some user) d = some user := by
  rcases deliver_cases default (some user) d with same | ⟨_, -, applicable, newer, -⟩
  · exact same
  · have late := older applicable
    simp [isStale, applied, late] at newer

variable (hash) in
theorem deliver_all_settled (default : validResourceQuota positiveCPUs settings.defaultQuota) (applied : user.lifecycleOccurredAt ≠ 0)
    (older : ∀ d ∈ deliveries, effective positiveCPUs d.event → d.event.occurredAt ≤ user.lifecycleOccurredAt) :
    deliverAll positiveCPUs hash settings (some user) deliveries = some user := by
  induction deliveries with
  | nil => rfl
  | cons d rest ih =>
    unfold deliverAll
    rw [foldl_cons, deliver_settled hash default applied (older d mem_cons_self)]
    exact ih fun other member => older other (mem_cons_of_mem d member)

variable (positiveCPUs hash) in
theorem deliver_early (early : onTime settings d = false) : deliver positiveCPUs hash settings current d = current := by
  simp only [onTime, decide_eq_false_iff_not, not_le] at early
  unfold deliver handleUserLifecycle
  by_cases formed : d.event.id = "" ∨ d.event.occurredAt = 0 ∨ ¬ validUserID d.event.userID
  · rw [if_pos formed]
  · rw [if_neg formed, if_pos early]

/-- The user is left as the newest event has left it, whatever came before; `kept` is any property
    that every other event keeps. -/
theorem deliver_all_newest (default : validResourceQuota positiveCPUs settings.defaultQuota) (distinct : Distinct events) {newest : LifecycleEvent}
    (last : Newest positiveCPUs events newest) (kept : Option User → Prop)
    (keeps : ∀ current d, d.event ∈ events → kept current → kept (deliver positiveCPUs hash settings current d))
    (listed : ∀ d ∈ deliveries, d.event ∈ events)
    (carried : ∃ d ∈ deliveries, d.event = newest ∧ onTime settings d)
    (ready : Ready positiveCPUs events newest current) (initially : kept current) :
    ∃ before user, kept before ∧ Ready positiveCPUs events newest before ∧
      deliverAll positiveCPUs hash settings current deliveries = some user ∧
      Applied positiveCPUs settings before newest user := by
  induction deliveries generalizing current with
  | nil =>
    obtain ⟨d, member, -⟩ := carried
    cases member
  | cons d rest ih =>
    have member := listed d mem_cons_self
    have others : ∀ other ∈ rest, other.event ∈ events :=
      fun other there => listed other (mem_cons_of_mem d there)
    by_cases here : d.event = newest ∧ onTime settings d
    · obtain ⟨rfl, timely⟩ := here
      obtain ⟨user, delivered, applied⟩ := deliver_newest hash default last timely ready
      refine ⟨current, user, initially, ready, ?_, applied⟩
      unfold deliverAll
      rw [foldl_cons, delivered]
      refine deliver_all_settled hash default ?_ fun other there applicable => ?_
      · rw [applied.occurredAt]
        exact effective_occurred last.effective
      · rw [applied.occurredAt]
        exact last.last other.event (others other there) applicable
    · have onward : ∃ other ∈ rest, other.event = newest ∧ onTime settings other := by
        obtain ⟨other, there, same⟩ := carried
        rcases mem_cons.mp there with rfl | later
        · exact absurd same here
        · exact ⟨other, later, same⟩
      refine ih others onward ?_ (keeps current d member initially)
      by_cases timely : onTime settings d
      · exact deliver_ready hash settings default distinct last member (fun same => here ⟨same, timely⟩) ready
      · rw [deliver_early positiveCPUs hash (by simpa using timely)]
        exact ready

variable (settings) in
/-- The deliveries are of these events, each at least once when it is no longer in the future. -/
structure Covers (events : List LifecycleEvent) (deliveries : List Delivery) : Prop where
  listed : ∀ d ∈ deliveries, d.event ∈ events
  all : ∀ event ∈ events, ∃ d ∈ deliveries, d.event = event ∧ onTime settings d

theorem newest_exists (applies : ∃ event ∈ events, effective positiveCPUs event) :
    ∃ newest, Newest positiveCPUs events newest := by
  obtain ⟨event, member, applicable⟩ := applies
  have nonempty : (events.toFinset.filter fun event => effective positiveCPUs event).Nonempty :=
    ⟨event, by simp [member, applicable]⟩
  obtain ⟨newest, chosen, last⟩ := Finset.exists_max_image _ (·.occurredAt) nonempty
  simp only [Finset.mem_filter, List.mem_toFinset] at chosen last
  exact ⟨newest, chosen.1, chosen.2, fun other there allowed => last other ⟨there, allowed⟩⟩

variable (hash) in
theorem deliver_all_ineffective (default : validResourceQuota positiveCPUs settings.defaultQuota)
    (idle : ∀ d ∈ deliveries, effective positiveCPUs d.event = false) :
    deliverAll positiveCPUs hash settings current deliveries = current := by
  induction deliveries with
  | nil => rfl
  | cons d rest ih =>
    have same : deliver positiveCPUs hash settings current d = current := by
      rcases deliver_cases default current d with same | ⟨_, -, applicable, -⟩
      · exact same
      · rw [idle d mem_cons_self] at applicable
        cases applicable
    unfold deliverAll
    rw [foldl_cons, same]
    exact ih fun other member => idle other (mem_cons_of_mem d member)

/-- A field that the newest event decides, given what the others keep, does not depend on the order
    of the deliveries. -/
theorem field_order_independent (default : validResourceQuota positiveCPUs settings.defaultQuota)
    {initial : Option User}
    (stored : ∀ user, initial = some user → StoredUser positiveCPUs user ∧ Recorded events user)
    (distinct : Distinct events) {left right : List Delivery} (first : Covers settings events left)
    (second : Covers settings events right) {Value : Type} (field : User → Value) (kept : Option User → Prop)
    (keeps : ∀ current d, d.event ∈ events → kept current → kept (deliver positiveCPUs hash settings current d))
    (initially : kept initial)
    (decided : ∀ newest, Newest positiveCPUs events newest → ∃ value, ∀ before user, kept before →
      Applied positiveCPUs settings before newest user → field user = value) :
    (deliverAll positiveCPUs hash settings initial left).map field =
      (deliverAll positiveCPUs hash settings initial right).map field := by
  by_cases applies : ∃ event ∈ events, effective positiveCPUs event
  · obtain ⟨newest, last⟩ := newest_exists applies
    by_cases ready : Ready positiveCPUs events newest initial
    · obtain ⟨value, fixed⟩ := decided newest last
      obtain ⟨before, user, held, -, delivered, applied⟩ := deliver_all_newest default distinct last
        kept keeps first.listed (first.all newest last.member) ready initially
      obtain ⟨earlier, other, holds, -, brought, given⟩ := deliver_all_newest default distinct last
        kept keeps second.listed (second.all newest last.member) ready initially
      rw [delivered, brought, map_some, map_some, fixed before user held applied, fixed earlier other holds given]
    · -- the user has seen an event at least as new as all of these
      obtain ⟨user, same, late⟩ : ∃ user, initial = some user ∧ ¬ Awaits newest user := by
        by_contra waiting
        refine ready fun user same => ⟨(stored user same).1, (stored user same).2, ?_⟩
        by_contra late
        exact waiting ⟨user, same, late⟩
      simp only [Awaits, not_or, not_lt] at late
      have older : ∀ deliveries, Covers settings events deliveries → ∀ d ∈ deliveries,
          effective positiveCPUs d.event → d.event.occurredAt ≤ user.lifecycleOccurredAt := by
        intro deliveries covers d member applicable
        exact le_trans (last.last d.event (covers.listed d member) applicable) late.2
      rw [same, deliver_all_settled hash default late.1 (older left first),
        deliver_all_settled hash default late.1 (older right second)]
  · have idle : ∀ deliveries, Covers settings events deliveries → ∀ d ∈ deliveries,
        effective positiveCPUs d.event = false := by
      intro deliveries covers d member
      by_contra applicable
      exact applies ⟨d.event, covers.listed d member, by simpa using applicable⟩
    rw [deliver_all_ineffective hash default (idle left first),
      deliver_all_ineffective hash default (idle right second)]

variable (positiveCPUs) in
def Decided (sets : LifecycleEvent → Prop) (events : List LifecycleEvent) : Prop :=
  (∀ newest, Newest positiveCPUs events newest → sets newest) ∨
    ∀ event ∈ events, effective positiveCPUs event → ¬ sets event

def SetsStatus (event : LifecycleEvent) : Prop := requestedStatus event.type ≠ .unset

def SetsOrganization (event : LifecycleEvent) : Prop := event.organizationID ≠ ""

def SetsQuota (event : LifecycleEvent) : Prop := event.quota ≠ none

theorem next_status_requested {type : EventType} (asks : requestedStatus type ≠ .unset)
    (current : Option User) : nextStatus current type = requestedStatus type := by
  unfold nextStatus
  rw [if_pos asks]

theorem next_status_kept {type : EventType} (silent : requestedStatus type = .unset)
    (current : Option User) : nextStatus current type = nextStatus current .updated := by
  unfold nextStatus
  rw [if_neg (not_not.mpr silent), if_neg (by decide)]

theorem next_status_stored (stored : StoredUser positiveCPUs user) : nextStatus (some user) .updated = user.status := by
  have known : user.status ≠ .unset := by
    rcases stored.status with status | status | status <;> simp [status]
  unfold nextStatus
  rw [if_neg (by decide)]
  dsimp only
  rw [if_neg known]

variable (positiveCPUs hash settings) in
/-- A value read off the record that no applied event changes stays as it was. -/
theorem deliver_keeps (default : validResourceQuota positiveCPUs settings.defaultQuota) {sets : LifecycleEvent → Prop} {Value : Type}
    (value : Option User → Value) (silent : ∀ event ∈ events, effective positiveCPUs event → ¬ sets event)
    (same : ∀ current event user, ¬ sets event → Applied positiveCPUs settings current event user →
      value (some user) = value current) (current : Option User) (d : Delivery) (member : d.event ∈ events) :
    value (deliver positiveCPUs hash settings current d) = value current := by
  rcases deliver_cases default current d with unchanged | ⟨user, changed, applicable, -, applied⟩
  · rw [unchanged]
  · rw [changed]
    exact same current d.event user (silent d.event member applicable) applied

theorem applied_keeps_status
    (silent : ¬ SetsStatus event) (applied : Applied positiveCPUs settings current event user) :
    nextStatus (some user) .updated = nextStatus current .updated := by
  rw [next_status_stored applied.stored, applied.status, next_status_kept (not_not.mp silent)]

theorem applied_keeps_organization
    (silent : ¬ SetsOrganization event) (applied : Applied positiveCPUs settings current event user) :
    (some user).elim "" (·.organizationID) = current.elim "" (·.organizationID) := by
  have organization := applied.organization
  rw [if_neg (show ¬ event.organizationID ≠ "" from silent)] at organization
  exact organization

theorem applied_keeps_quota (silent : ¬ SetsQuota event) (applied : Applied positiveCPUs settings current event user) :
    (some user).elim settings.defaultQuota (·.quota) = current.elim settings.defaultQuota (·.quota) := by
  have quota := applied.quota
  rw [not_not.mp silent] at quota
  cases current with
  | none | some => simpa using quota

section Orders
variable {initial : Option User} {events : List LifecycleEvent} {left right : List Delivery}

/-- What one field needs to be the same for every order: `value` reads it off the record,
    `given` off the newest event. -/
theorem decided_order_independent (default : validResourceQuota positiveCPUs settings.defaultQuota)
    (stored : ∀ user, initial = some user → StoredUser positiveCPUs user ∧ Recorded events user)
    (distinct : Distinct events) (first : Covers settings events left)
    (second : Covers settings events right) {sets : LifecycleEvent → Prop}
    (decided : Decided positiveCPUs sets events) {Value : Type} (field : User → Value)
    (value : Option User → Value) (given : LifecycleEvent → Value)
    (reads : ∀ user, StoredUser positiveCPUs user → value (some user) = field user)
    (keeps : ∀ current event user, ¬ sets event → Applied positiveCPUs settings current event user →
      value (some user) = value current)
    (takes : ∀ newest before user, Newest positiveCPUs events newest → sets newest →
      (initial ≠ none → before ≠ none) → Applied positiveCPUs settings before newest user →
      field user = given newest) :
    (deliverAll positiveCPUs hash settings initial left).map field =
      (deliverAll positiveCPUs hash settings initial right).map field := by
  rcases decided with sets | silent
  · refine field_order_independent default stored distinct first second field
      (fun current => initial ≠ none → current ≠ none) ?_ id ?_
    · intro current d member there given
      rcases deliver_cases default current d with same | ⟨user, changed, -⟩
      · rw [same]
        exact there given
      · rw [changed]
        nofun
    · intro newest last
      exact ⟨given newest, fun before user there applied =>
        takes newest before user last (sets newest last) there applied⟩
  · refine field_order_independent default stored distinct first second field
      (fun current => value current = value initial) ?_ rfl ?_
    · intro current d member same
      rw [deliver_keeps positiveCPUs hash settings default value silent keeps current d member, same]
    · intro newest last
      refine ⟨value initial, fun before user same applied => ?_⟩
      rw [← reads user applied.stored, ← same]
      exact keeps before newest user (silent newest last.member last.effective) applied

variable (hash) in
/-- The newest event wins: whatever the order and the duplicates, the status, the organisation and
    the quota are left the same, each one if the newest event sets it or none of them does. -/
theorem newest_event_wins (default : validResourceQuota positiveCPUs settings.defaultQuota)
    (stored : ∀ user, initial = some user → StoredUser positiveCPUs user ∧ Recorded events user)
    (distinct : Distinct events) (first : Covers settings events left)
    (second : Covers settings events right) :
    (Decided positiveCPUs SetsStatus events → (deliverAll positiveCPUs hash settings initial left).map (·.status) =
        (deliverAll positiveCPUs hash settings initial right).map (·.status)) ∧
    (Decided positiveCPUs SetsOrganization events →
      (deliverAll positiveCPUs hash settings initial left).map (·.organizationID) =
        (deliverAll positiveCPUs hash settings initial right).map (·.organizationID)) ∧
    (Decided positiveCPUs SetsQuota events →
      (initial = none → ∀ newest, Newest positiveCPUs events newest → newest.quota ≠ some noQuota) →
      (deliverAll positiveCPUs hash settings initial left).map (·.quota) =
        (deliverAll positiveCPUs hash settings initial right).map (·.quota)) := by
  refine ⟨fun decided => ?_, fun decided => ?_, fun decided limited => ?_⟩
  · refine decided_order_independent default stored distinct first second decided (·.status)
      (nextStatus · .updated) (fun newest => requestedStatus newest.type)
      (fun user known => next_status_stored known) (fun _ _ _ => applied_keeps_status) ?_
    intro newest before user last asks there applied
    exact applied.status.trans (next_status_requested asks before)
  · refine decided_order_independent default stored distinct first second decided (·.organizationID)
      (·.elim "" (·.organizationID)) (·.organizationID) (fun _ _ => rfl)
      (fun _ _ _ => applied_keeps_organization) ?_
    intro newest before user last named there applied
    rw [applied.organization, if_pos (show newest.organizationID ≠ "" from named)]
  · refine decided_order_independent default stored distinct first second decided (·.quota)
      (·.elim settings.defaultQuota (·.quota)) (·.quota.getD noQuota) (fun _ _ => rfl)
      (fun _ _ _ => applied_keeps_quota) ?_
    intro newest before user last limits there applied
    obtain ⟨quota, given⟩ := ne_none_iff_exists'.mp limits
    rw [applied.quota, given]
    refine if_neg ?_
    rintro ⟨absent, blank⟩
    have created : initial = none := by
      by_contra present
      exact there present absent
    exact limited created newest last (given.trans (congrArg some blank))

end Orders

end Deliveries

section Samples

def standardQuota : ResourceQuota := ⟨"", 0, 0, 20 * 2 ^ 30, 8, 32⟩

def standardSettings : Settings := ⟨standardQuota, 300 * second⟩

def grantedQuota : ResourceQuota := ⟨"", 0, 0, 0, 2, 4⟩

def signUp : LifecycleEvent :=
  ⟨"e1", .created, 10, false, "owner", "", "acme", some grantedQuota⟩

def suspension : LifecycleEvent := ⟨"e2", .suspended, 20, false, "owner", "", "", none⟩

def withdrawal : LifecycleEvent :=
  ⟨"e3", .deleted, 30, false, "owner", "", "former", some grantedQuota⟩

def received (event : LifecycleEvent) : Delivery := ⟨event, 40, 40⟩

def delivered (deliveries : List Delivery) : Option User :=
  deliverAll (fun _ => true) (·.id) standardSettings none deliveries

def outcome (deliveries : List Delivery) : Option (UserStatus × String × ResourceQuota) :=
  (delivered deliveries).map fun user => (user.status, user.organizationID, user.quota)

instance (events : List LifecycleEvent) : Decidable (Distinct events) :=
  decidable_of_iff ((∀ a ∈ events, ∀ b ∈ events, a.id = b.id → a = b) ∧
    ∀ a ∈ events, ∀ b ∈ events, a.occurredAt = b.occurredAt → a = b)
    ⟨fun ⟨ids, times⟩ => ⟨ids, times⟩, fun distinct => ⟨distinct.ids, distinct.times⟩⟩

instance (settings : Settings) (events : List LifecycleEvent) (deliveries : List Delivery) :
    Decidable (Covers settings events deliveries) :=
  decidable_of_iff ((∀ d ∈ deliveries, d.event ∈ events) ∧
    ∀ event ∈ events, ∃ d ∈ deliveries, d.event = event ∧ onTime settings d)
    ⟨fun ⟨listed, all⟩ => ⟨listed, all⟩, fun covers => ⟨covers.listed, covers.all⟩⟩

/-- The suspension names no organisation and no quota; the sign-up that comes after it is stale, and
    what it would have set is lost. -/
theorem late_event_loses_fields : Distinct [signUp, suspension] ∧
    outcome [received signUp, received suspension] = some (.suspended, "acme", grantedQuota) ∧
    outcome [received suspension, received signUp] = some (.suspended, "", standardQuota) := by
  refine ⟨by decide, ?_, ?_⟩ <;> decide +kernel

theorem withdrawal_newest {newest : LifecycleEvent}
    (last : Newest (fun _ => true) [signUp, suspension, withdrawal] newest) : newest = withdrawal := by
  have late := last.last withdrawal (by simp) (by decide +kernel)
  have member := last.member
  simp only [mem_cons, not_mem_nil, or_false] at member
  rcases member with rfl | rfl | rfl
  · exact absurd late (by decide)
  · exact absurd late (by decide)
  · rfl

theorem newest_event_wins_withdrawal :
    let shuffled := delivered [received withdrawal, received signUp, received suspension, received signUp]
    let ordered := delivered [received signUp, received suspension, received withdrawal]
    shuffled.map (·.status) = ordered.map (·.status) ∧
      shuffled.map (·.organizationID) = ordered.map (·.organizationID) ∧
      shuffled.map (·.quota) = ordered.map (·.quota) := by
  have default : validResourceQuota (fun _ => true) standardSettings.defaultQuota := by decide
  have stored : ∀ user, (none : Option User) = some user → StoredUser (fun _ => true) user ∧
      Recorded [signUp, suspension, withdrawal] user :=
    fun _ absent => absurd absent.symm (some_ne_none _)
  have shuffled : Covers standardSettings [signUp, suspension, withdrawal]
      [received withdrawal, received signUp, received suspension, received signUp] := by decide
  have ordered : Covers standardSettings [signUp, suspension, withdrawal]
      [received signUp, received suspension, received withdrawal] := by decide
  have decided : ∀ sets : LifecycleEvent → Prop, sets withdrawal →
      Decided (fun _ => true) sets [signUp, suspension, withdrawal] :=
    fun sets given => Or.inl fun newest last => withdrawal_newest last ▸ given
  obtain ⟨status, organization, quota⟩ :=
    newest_event_wins (·.id) default stored (by decide) shuffled ordered
  refine ⟨status (decided _ ?_), organization (decided _ ?_), quota (decided _ ?_) ?_⟩
  · simp [SetsStatus, withdrawal, requestedStatus]
  · simp [SetsOrganization, withdrawal]
  · simp [SetsQuota, withdrawal]
  · intro _ newest last
    rw [withdrawal_newest last]
    simp [withdrawal, grantedQuota, noQuota]

end Samples

end PieRelay.UserLifecycle
