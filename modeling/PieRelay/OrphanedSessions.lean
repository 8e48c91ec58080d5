import PieRelay.PresenceHandler

/-!
Docker sessions and the executor that runs them: the operations `session.close`,
`session.restart` and `device.drain` of executor-manager/internal/controller/controller.go, and
the reconciler's `startDockerSession`. Any number of them run at once, in any number of
processes. Each is cut at its calls of the executor and of the store; an attempt of a retry loop
reads the session in the memory of its process, which holds some stored version of it, and hands
it to `PutSession`. `StartSession`, `StopSession` and `StopExecutor` succeed and take effect at
once. Any of them may give up with an error in between. Left out: the writes of devices, runtimes
and participants, the relay calls, and the credential of the started session.
-/
namespace PieRelay.OrphanedSessions
open Function Executions ControlPlane Option
open SessionHistory (Call Histories WellFormed latestVersion seen seen_lookup put_replaces push_well_formed)
open PresenceHandler (closeControlSession close_status)
open RelayToken (bind_ok)
open RoomRegistry (Time)

def transitionSessionToStarting (s : Service) (sessionID : String) : Except ServiceError (Option Session) := do
  let session ← found (s.sessions.lookup sessionID) .notFound
  return some { session with
    status := .starting
    lastError := ""
    hostConnectionID := ""
    driverUserID := ""
    driverLeaseExpiresAt := none }

def claimSession (s : Service) (sessionID : String) : Except ServiceError (Option Session) := do
  let session ← found (s.sessions.lookup sessionID) .notFound
  if session.status = .starting ∨ session.status = .reconnecting ∨ session.status = .provisioning ∨
      session.status = .error then
    return some { session with
      status := .provisioning, lastError := "", startAttempts := session.startAttempts + 1 }
  return none

def completeSession (s : Service) (now : Time) (sessionID : String) : Except ServiceError (Option Session) := do
  let session ← found (s.sessions.lookup sessionID) .notFound
  return some { session with
    status := if session.status = .provisioning then .ready else session.status
    selectedTransport := "relay"
    lastActivityAt := now
    lastError := "" }

def failSession (s : Service) (sessionID : String) (relay : Bool) (message : String) :
    Except ServiceError (Option Session) := do
  let session ← found (s.sessions.lookup sessionID) .notFound
  if session.status = .provisioning then
    return some { session with status := if relay then .reconnecting else .error, lastError := message }
  return none

inductive Put where
  | stored (record : Session)
  | conflict
  | refused

def push (sessions : Histories) (record : Session) : Histories :=
  update sessions record.id (record :: sessions record.id)

def tryPut (sessions : Histories) (writing : Call) (request : Session) : Put :=
  match putSession writing.service writing.now writing.fresh request request.version false with
  | .ok record => if latestVersion (sessions record.id) + 1 = record.version then .stored record else .conflict
  | .error .conflict => .conflict
  | .error _ => .refused

/-- Where an operation is. A `closing` has stopped its session; `drain` is what is left of the drain it
    belongs to, the sessions and the owner. A start belongs to the reconciler if it is a `candidate`. -/
inductive Phase where
  | opened (restart : Bool) (sessionID : String)
  | draining (rest : List String) (owner : String)
  | closing (sessionID : String) (attempts : Nat) (drain : Option (List String × String))
  | restarting (sessionID : String) (attempts : Nat)
  | claiming (sessionID : String) (candidate : Bool)
  | provisioning (sessionID : String) (candidate recovering : Bool)
  | preparing (sessionID : String) (candidate recovering : Bool)
  | launching (sessionID : String) (candidate : Bool)
  | launched (sessionID : String) (candidate : Bool)
  | failing (sessionID : String)

structure World where
  sessions : Histories
  running : Finset String
  calls : Table Phase

structure Moment where
  reading : Call
  writing : Call
  relay : Bool
  message : String

inductive Action where
  | operate (call sessionID : String) (restart : Bool) (reading : Call)
  | drain (call deviceID : String) (reading : Call)
  | candidate (call sessionID : String) (reading : Call)
  | advance (call : String) (m : Moment)
  | fail (call : String)

def goTo (w : World) (call : String) (phase : Phase) : World := { w with calls := w.calls.insert call phase }

def leave (w : World) (call : String) : World := { w with calls := w.calls.erase call }

def stopSession (w : World) (sessionID : String) : World :=
  { w with running := w.running.erase sessionID }

def owned (sessions : Histories) (owner sessionID : String) : Bool :=
  (sessions sessionID).head?.any fun session => session.ownerUserID = owner

def stopExecutor (w : World) (owner : String) : World :=
  { w with running := w.running.filter fun sessionID => ¬ owned w.sessions owner sessionID }

def failed (w : World) (call sessionID : String) (candidate : Bool) : World :=
  if candidate then goTo w call (.failing sessionID) else leave w call

def closed (w : World) (call : String) : Option (List String × String) → World
  | none => leave w call
  | some (rest, owner) => goTo w call (.draining rest owner)

def close (w : World) (call : String) (m : Moment) (sessionID : String) (attempts : Nat)
    (drain : Option (List String × String)) : World :=
  match closeControlSession m.reading.service sessionID with
  | .ok none => closed w call drain
  | .ok (some request) => match tryPut w.sessions m.writing request with
    | .stored record => closed { w with sessions := push w.sessions record } call drain
    | .conflict => goTo w call (.closing sessionID attempts drain)
    | .refused => leave w call
  | .error _ => leave w call

def restart (w : World) (call : String) (m : Moment) (sessionID : String) (attempts : Nat) : World :=
  match transitionSessionToStarting m.reading.service sessionID with
  | .ok (some request) => match tryPut w.sessions m.writing request with
    | .stored record => goTo { w with sessions := push w.sessions record } call (.claiming sessionID false)
    | .conflict => goTo w call (.restarting sessionID attempts)
    | .refused => leave w call
  | _ => leave w call

def claim (w : World) (call : String) (m : Moment) (sessionID : String) (candidate : Bool) : World :=
  match claimSession m.reading.service sessionID with
  | .ok (some request) => match tryPut w.sessions m.writing request with
    | .stored record => goTo { w with sessions := push w.sessions record } call
        (.provisioning sessionID candidate
          ((m.reading.service.sessions.lookup sessionID).any fun session => session.status = .reconnecting))
    | .conflict => leave w call
    | .refused => failed w call sessionID candidate
  | .ok none => leave w call
  | .error _ => failed w call sessionID candidate

/-- A session of a pool gets its node; one whose pool has none left is bound to the default pool. -/
def provision (w : World) (call : String) (m : Moment) (sessionID : String) (candidate recovering : Bool) : World :=
  match ensureSessionRelayNode m.reading.service m.reading.now sessionID with
  | .ok none => goTo w call (.preparing sessionID candidate recovering)
  | .ok (some request) => match tryPut w.sessions m.writing request with
    | .stored record => goTo { w with sessions := push w.sessions record } call
        (.preparing sessionID candidate recovering)
    | _ => failed w call sessionID candidate
  | .error .noRelayCapacity => match rebindManagedChatSession m.reading.service m.reading.now sessionID with
    | .ok (some record) =>
      if latestVersion (w.sessions record.id) + 1 = record.version then
        goTo { w with sessions := push w.sessions record } call (.provisioning sessionID candidate true)
      else failed w call sessionID candidate
    | _ => failed w call sessionID candidate
  | .error _ => failed w call sessionID candidate

def putLast (w : World) (writing : Call) (request : Except ServiceError (Option Session)) : World :=
  match request with
  | .ok (some request) => match tryPut w.sessions writing request with
    | .stored record => { w with sessions := push w.sessions record }
    | _ => w
  | _ => w

def advance (w : World) (call : String) (m : Moment) : Phase → World
  | .opened restart sessionID => goTo (stopSession w sessionID) call
      (if restart then .restarting sessionID 8 else .closing sessionID 8 none)
  | .draining [] owner => leave (stopExecutor w owner) call
  | .draining (sessionID :: rest) owner =>
    goTo (stopSession w sessionID) call (.closing sessionID 8 (some (rest, owner)))
  | .closing _ 0 _ => leave w call
  | .closing sessionID (attempts + 1) drain => close w call m sessionID attempts drain
  | .restarting _ 0 => leave w call
  | .restarting sessionID (attempts + 1) => restart w call m sessionID attempts
  | .claiming sessionID candidate => claim w call m sessionID candidate
  | .provisioning sessionID candidate recovering => provision w call m sessionID candidate recovering
  | .preparing sessionID candidate recovering =>
    goTo (if recovering then stopSession w sessionID else w) call (.launching sessionID candidate)
  | .launching sessionID candidate =>
    goTo { w with running := insert sessionID w.running } call (.launched sessionID candidate)
  | .launched sessionID _ =>
    leave (putLast w m.writing (completeSession m.reading.service m.reading.now sessionID)) call
  | .failing sessionID =>
    leave (putLast w m.writing (failSession m.reading.service sessionID m.relay m.message)) call

def failure (w : World) (call : String) : Phase → World
  | .claiming sessionID candidate => failed w call sessionID candidate
  | .provisioning sessionID candidate _ => failed w call sessionID candidate
  | .preparing sessionID candidate _ => failed w call sessionID candidate
  | .launching sessionID candidate => failed w call sessionID candidate
  | .launched sessionID candidate => failed w call sessionID candidate
  | _ => leave w call

def openSessions (s : Service) (deviceID : String) : List String :=
  ((values s.sessions).filter fun session => session.deviceID = deviceID ∧ session.status ≠ .closed).map Session.id

def dockerSession (s : Service) (sessionID : String) : Bool :=
  (s.sessions.lookup sessionID).any fun session => session.executionTarget = "docker"

def step (w : World) : Action → Option World
  | .operate call sessionID restart reading =>
    if w.calls.lookup call = none ∧ seen w.sessions reading ∧ dockerSession reading.service sessionID then
      some (goTo w call (.opened restart sessionID))
    else none
  | .drain call deviceID reading =>
    if w.calls.lookup call = none ∧ seen w.sessions reading then
      (reading.service.devices.lookup deviceID).bind fun device =>
        if device.kind = "docker" then
          some (goTo w call (.draining (openSessions reading.service deviceID) device.ownerUserID))
        else none
    else none
  | .candidate call sessionID reading =>
    if w.calls.lookup call = none ∧ seen w.sessions reading ∧ dockerSession reading.service sessionID then
      some (goTo w call (.claiming sessionID true))
    else none
  | .advance call m =>
    if seen w.sessions m.reading ∧ seen w.sessions m.writing then (w.calls.lookup call).map (advance w call m)
    else none
  | .fail call => (w.calls.lookup call).map (failure w call)

def NoOrphans (w : World) : Prop :=
  ∀ id newest older, w.sessions id = newest :: older → newest.status = .closed → id ∉ w.running

def Phase.closes (sessionID : String) : Phase → Bool
  | .closing other _ _ => other = sessionID
  | _ => false

/-- A session is started only when it is not closed, and nobody who is about to close it has stopped it
    already. -/
def unhurried (w : World) : Action → Bool
  | .advance call _ => match w.calls.lookup call with
    | some (.launching sessionID _) =>
      (w.sessions sessionID).head?.all (fun session => session.status ≠ .closed) ∧
        (values w.calls).all fun phase => ¬ phase.closes sessionID
    | _ => true
  | _ => true

structure Invariant (w : World) : Prop where
  formed : WellFormed w.sessions
  closed : NoOrphans w
  stopped : ∀ id, ∀ phase ∈ values w.calls, phase.closes id → id ∉ w.running

/-- A step that starts nothing: it closes only what is not running, and is about to close only what it
    has stopped. -/
structure Calm (w next : World) : Prop where
  formed : WellFormed next.sessions
  closed : ∀ id newest older, next.sessions id = newest :: older → newest.status = .closed →
    (∃ before earlier, w.sessions id = before :: earlier ∧ before.status = .closed) ∨ id ∉ w.running
  running : next.running ⊆ w.running
  stopped : ∀ id, ∀ phase ∈ values next.calls, phase.closes id →
    (∃ earlier ∈ values w.calls, earlier.closes id) ∨ id ∉ next.running

section Steps
variable {w next : World} {call : String} {m : Moment}
variable {phase : Phase} {record : Session} {sessionID : String}

theorem calm_invariant (inv : Invariant w) (calm : Calm w next) : Invariant next := by
  refine ⟨calm.formed, fun id newest older history status running => ?_, fun id phase member closes running => ?_⟩
  · have before := calm.running running
    rcases calm.closed id newest older history status with ⟨earlier, rest, stored, was⟩ | stopped
    · exact inv.closed id earlier rest stored was before
    · exact stopped before
  · rcases calm.stopped id phase member closes with ⟨earlier, there, was⟩ | stopped
    · exact inv.stopped id earlier there was (calm.running running)
    · exact stopped running

theorem insert_values {other : Phase} (member : other ∈ values (w.calls.insert call phase)) :
    other = phase ∨ other ∈ values w.calls := by
  obtain ⟨key, stored⟩ := mem_values.mp member
  by_cases here : key = call
  · subst here
    rw [AList.lookup_insert] at stored
    cases stored
    exact Or.inl rfl
  · rw [AList.lookup_insert_ne here] at stored
    exact Or.inr (mem_values.mpr ⟨key, stored⟩)

theorem erase_values {other : Phase} (member : other ∈ values (w.calls.erase call)) : other ∈ values w.calls := by
  obtain ⟨key, stored⟩ := mem_values.mp member
  exact mem_values.mpr ⟨key, lookup_of_erase stored⟩

theorem calm_go_to (inv : Invariant w) {running : Finset String} (fewer : running ⊆ w.running)
    (stops : ∀ id, phase.closes id → (∃ earlier ∈ values w.calls, earlier.closes id) ∨ id ∉ running) :
    Calm w (goTo { w with running := running } call phase) := by
  refine ⟨inv.formed, fun id newest older history status => Or.inl ⟨newest, older, history, status⟩, fewer, ?_⟩
  intro id other member closes
  rcases insert_values member with rfl | there
  · exact stops id closes
  · exact Or.inl ⟨other, there, closes⟩

theorem calm_leave (inv : Invariant w) {running : Finset String} (fewer : running ⊆ w.running) :
    Calm w (leave { w with running := running } call) :=
  ⟨inv.formed, fun _ newest older history status => Or.inl ⟨newest, older, history, status⟩, fewer,
    fun _ phase member closes => Or.inl ⟨phase, erase_values member, closes⟩⟩

structure Rewrites (w : World) (record : Session) : Prop where
  formed : WellFormed (push w.sessions record)
  newest : ∃ newest older, w.sessions record.id = newest :: older ∧
    (record.status = .closed → newest.status = .closed ∨ record.id ∉ w.running)

theorem rewrites_closed (rewrites : Rewrites w record) {id : String} {newest : Session}
    {older : List Session} (history : push w.sessions record id = newest :: older) (status : newest.status = .closed) :
    (∃ before earlier, w.sessions id = before :: earlier ∧ before.status = .closed) ∨ id ∉ w.running := by
  obtain ⟨before, earlier, stored, closes⟩ := rewrites.newest
  unfold push at history
  by_cases here : id = record.id
  · subst here
    rw [update_self] at history
    cases history
    exact (closes status).imp_left fun was => ⟨before, earlier, stored, was⟩
  · rw [update_of_ne here] at history
    exact Or.inl ⟨newest, older, history, status⟩

theorem calm_push_go_to (rewrites : Rewrites w record) (opens : ∀ id, phase.closes id = false) :
    Calm w (goTo { w with sessions := push w.sessions record } call phase) := by
  refine ⟨rewrites.formed, fun _ _ _ => rewrites_closed rewrites, Finset.Subset.refl _, ?_⟩
  intro id other member closes
  rcases insert_values member with rfl | there
  · rw [opens id] at closes
    cases closes
  · exact Or.inl ⟨other, there, closes⟩

theorem calm_push_leave (rewrites : Rewrites w record) :
    Calm w (leave { w with sessions := push w.sessions record } call) :=
  ⟨rewrites.formed, fun _ _ _ => rewrites_closed rewrites, Finset.Subset.refl _,
    fun _ phase member closes => Or.inl ⟨phase, erase_values member, closes⟩⟩

theorem try_put_rewrites (inv : Invariant w) {writing : Call} {session request : Session}
    (tried : tryPut w.sessions writing request = .stored record) (read : session ∈ w.sessions sessionID)
    (same : request.id = session.id ∧ request.version = session.version ∧
      request.relayGeneration = session.relayGeneration)
    (status : request.status = .closed → session.status = .closed ∨ sessionID ∉ w.running) : Rewrites w record := by
  unfold tryPut at tried
  split at tried
  · rename_i put
    split at tried
    · rename_i taken
      cases tried
      obtain ⟨rfl, ⟨older, history⟩, formed, kept⟩ := put_replaces inv.formed read same put taken
      refine ⟨formed, session, older, history, fun closed => ?_⟩
      rw [kept] at closed
      split at closed
      · cases closed
      · exact status closed
    · cases tried
  · cases tried
  · cases tried

theorem rebind_rewrites (inv : Invariant w) {reading : Call} (known : seen w.sessions reading)
    (rebound : rebindManagedChatSession reading.service reading.now sessionID = .ok (some record))
    (taken : latestVersion (w.sessions record.id) + 1 = record.version) : Rewrites w record := by
  obtain ⟨before, stored, sameID, sameOwner, version, -, fenced, status⟩ := rebind_managed_chat_session_ok rebound
  have read := seen_lookup known stored
  have named : record.id = sessionID := sameID.trans (inv.formed.filed sessionID before read)
  subst named
  obtain ⟨older, history⟩ := SessionHistory.history_newest inv.formed read (by omega)
  have newest : ∀ version ∈ w.sessions record.id, version.version < record.version := by
    have ordered := inv.formed.ordered record.id
    intro other member
    rw [history] at ordered member
    rcases List.mem_cons.mp member with rfl | old
    · omega
    · have below := List.rel_of_pairwise_cons ordered old
      omega
  have positive := next_generation_positive before.relayGeneration
  refine ⟨push_well_formed inv.formed (sameOwner ▸ inv.formed.owner _ before read) (by omega) (by omega) newest,
    before, older, history, fun closed => Or.inl (status ▸ closed)⟩

/-- The put of a session that was read, which closes it only if it is closed or not running. -/
def Puts (w : World) (m : Moment) (answer : Except ServiceError (Option Session)) : Prop :=
  ∀ request record, answer = .ok (some request) → tryPut w.sessions m.writing request = .stored record →
    Rewrites w record

theorem transition_puts (inv : Invariant w) (known : seen w.sessions m.reading) (sessionID : String) :
    Puts w m (transitionSessionToStarting m.reading.service sessionID) := by
  intro request record answer tried
  simp only [transitionSessionToStarting, bind_ok, found_ok, pure, Except.pure, Except.ok.injEq, some.injEq] at answer
  obtain ⟨session, stored, rfl⟩ := answer
  exact try_put_rewrites inv tried (seen_lookup known stored) ⟨rfl, rfl, rfl⟩ fun closed => by cases closed

theorem claim_puts (inv : Invariant w) (known : seen w.sessions m.reading) (sessionID : String) :
    Puts w m (claimSession m.reading.service sessionID) := by
  intro request record answer tried
  simp only [claimSession, bind_ok, found_ok] at answer
  obtain ⟨session, stored, answer⟩ := answer
  split at answer
  · cases answer
    exact try_put_rewrites inv tried (seen_lookup known stored) ⟨rfl, rfl, rfl⟩ fun closed => by cases closed
  · cases answer

theorem complete_puts (inv : Invariant w) (known : seen w.sessions m.reading) (sessionID : String) :
    Puts w m (completeSession m.reading.service m.reading.now sessionID) := by
  intro request record answer tried
  simp only [completeSession, bind_ok, found_ok, pure, Except.pure, Except.ok.injEq, some.injEq] at answer
  obtain ⟨session, stored, rfl⟩ := answer
  refine try_put_rewrites inv tried (seen_lookup known stored) ⟨rfl, rfl, rfl⟩ fun closed => Or.inl ?_
  dsimp only at closed
  split at closed
  · cases closed
  · exact closed

theorem fail_puts (inv : Invariant w) (known : seen w.sessions m.reading) (sessionID : String) :
    Puts w m (failSession m.reading.service sessionID m.relay m.message) := by
  intro request record answer tried
  simp only [failSession, bind_ok, found_ok] at answer
  obtain ⟨session, stored, answer⟩ := answer
  split at answer
  · cases answer
    refine try_put_rewrites inv tried (seen_lookup known stored) ⟨rfl, rfl, rfl⟩ fun closed => ?_
    dsimp only at closed
    split at closed <;> cases closed
  · cases answer

theorem ensure_puts (inv : Invariant w) (known : seen w.sessions m.reading) (sessionID : String) :
    Puts w m (ensureSessionRelayNode m.reading.service m.reading.now sessionID) := by
  intro request record answer tried
  obtain ⟨session, stored, -, -, sameID, sameVersion, sameGeneration, sameStatus⟩ :=
    ensure_session_relay_node_ok answer
  refine try_put_rewrites inv tried (seen_lookup known stored) ⟨sameID, sameVersion, sameGeneration⟩ ?_
  exact fun closed => Or.inl (sameStatus ▸ closed)

theorem close_puts (inv : Invariant w) (known : seen w.sessions m.reading)
    (stopped : sessionID ∉ w.running) : Puts w m (closeControlSession m.reading.service sessionID) := by
  intro request record answer tried
  obtain ⟨session, stored, same, -⟩ := close_status answer
  exact try_put_rewrites inv tried (seen_lookup known stored) same fun _ => Or.inr stopped

theorem calm_failed (inv : Invariant w) (sessionID : String) (candidate : Bool) :
    Calm w (failed w call sessionID candidate) := by
  unfold failed
  split
  · exact calm_go_to inv (Finset.Subset.refl _) nofun
  · exact calm_leave inv (Finset.Subset.refl _)

theorem calm_put_last {answer : Except ServiceError (Option Session)} (inv : Invariant w) (puts : Puts w m answer) :
    Calm w (leave (putLast w m.writing answer) call) := by
  unfold putLast
  split
  · rename_i request
    split
    · rename_i record tried
      exact calm_push_leave (puts request record rfl tried)
    · exact calm_leave inv (Finset.Subset.refl _)
  · exact calm_leave inv (Finset.Subset.refl _)

theorem calm_closed (inv : Invariant w) (drain : Option (List String × String)) : Calm w (closed w call drain) := by
  cases drain with
  | none => exact calm_leave inv (Finset.Subset.refl _)
  | some => exact calm_go_to inv (Finset.Subset.refl _) nofun

theorem calm_push_closed (rewrites : Rewrites w record) (drain : Option (List String × String)) :
    Calm w (closed { w with sessions := push w.sessions record } call drain) := by
  cases drain with
  | none => exact calm_push_leave rewrites
  | some => exact calm_push_go_to rewrites fun _ => rfl

section
variable (inv : Invariant w) (known : seen w.sessions m.reading)
include inv known

theorem calm_close {attempts before : Nat} {drain : Option (List String × String)}
    (phase : w.calls.lookup call = some (.closing sessionID before drain)) :
    Calm w (close w call m sessionID attempts drain) := by
  have there : Phase.closing sessionID before drain ∈ values w.calls := mem_values.mpr ⟨call, phase⟩
  have stopped := inv.stopped sessionID _ there (by simp [Phase.closes])
  have puts := close_puts (m := m) inv known stopped
  unfold close
  split
  · exact calm_closed inv drain
  · rename_i request answer
    split
    · rename_i record tried
      exact calm_push_closed (puts request record answer tried) drain
    · refine calm_go_to inv (Finset.Subset.refl _) fun id closes => ?_
      exact Or.inl ⟨_, there, by simpa [Phase.closes] using closes⟩
    · exact calm_leave inv (Finset.Subset.refl _)
  · exact calm_leave inv (Finset.Subset.refl _)

theorem calm_restart (sessionID : String) (attempts : Nat) : Calm w (restart w call m sessionID attempts) := by
  have puts := transition_puts (m := m) inv known sessionID
  unfold restart
  split
  · rename_i request answer
    split
    · rename_i record tried
      exact calm_push_go_to (puts request record answer tried) fun _ => rfl
    · exact calm_go_to inv (Finset.Subset.refl _) nofun
    · exact calm_leave inv (Finset.Subset.refl _)
  · exact calm_leave inv (Finset.Subset.refl _)

theorem calm_claim (sessionID : String) (candidate : Bool) : Calm w (claim w call m sessionID candidate) := by
  have puts := claim_puts (m := m) inv known sessionID
  unfold claim
  split
  · rename_i request answer
    split
    · rename_i record tried
      exact calm_push_go_to (puts request record answer tried) fun _ => rfl
    · exact calm_leave inv (Finset.Subset.refl _)
    · exact calm_failed inv sessionID candidate
  · exact calm_leave inv (Finset.Subset.refl _)
  · exact calm_failed inv sessionID candidate

theorem calm_provision (sessionID : String)
    (candidate recovering : Bool) : Calm w (provision w call m sessionID candidate recovering) := by
  have puts := ensure_puts (m := m) inv known sessionID
  unfold provision
  split
  · exact calm_go_to inv (Finset.Subset.refl _) nofun
  · rename_i request answer
    split
    · rename_i record tried
      exact calm_push_go_to (puts request record answer tried) fun _ => rfl
    · exact calm_failed inv sessionID candidate
  · split
    · rename_i rebound
      split
      · rename_i taken
        exact calm_push_go_to (rebind_rewrites inv known rebound taken) fun _ => rfl
      · exact calm_failed inv sessionID candidate
    · exact calm_failed inv sessionID candidate
  · exact calm_failed inv sessionID candidate

end

theorem calm_stop (inv : Invariant w)
    (only : ∀ id, phase.closes id → id = sessionID) : Calm w (goTo (stopSession w sessionID) call phase) := by
  refine calm_go_to inv (Finset.erase_subset _ _) fun id closes => Or.inr ?_
  rw [only id closes]
  exact Finset.notMem_erase _ _

theorem calm_advance (inv : Invariant w) (known : seen w.sessions m.reading)
    (here : w.calls.lookup call = some phase) (rests : ∀ sessionID candidate, phase ≠ .launching sessionID candidate) :
    Calm w (advance w call m phase) := by
  cases phase with
  | opened restart =>
    refine calm_stop inv fun id closes => ?_
    cases restart
    · simpa [Phase.closes, eq_comm] using closes
    · cases closes
  | draining rest => cases rest with
    | nil => exact calm_leave inv (Finset.filter_subset _ _)
    | cons => exact calm_stop inv fun id closes => by simpa [Phase.closes, eq_comm] using closes
  | closing sessionID attempts => cases attempts with
    | zero => exact calm_leave inv (Finset.Subset.refl _)
    | succ => exact calm_close inv known here
  | restarting sessionID attempts => cases attempts with
    | zero => exact calm_leave inv (Finset.Subset.refl _)
    | succ attempts => exact calm_restart inv known sessionID attempts
  | claiming sessionID candidate => exact calm_claim inv known sessionID candidate
  | provisioning sessionID candidate recovering => exact calm_provision inv known sessionID candidate recovering
  | preparing sessionID candidate recovering =>
    cases recovering
    · exact calm_go_to inv (Finset.Subset.refl _) nofun
    · exact calm_stop inv nofun
  | launching sessionID candidate => exact absurd rfl (rests sessionID candidate)
  | launched sessionID => exact calm_put_last inv (complete_puts inv known sessionID)
  | failing sessionID => exact calm_put_last inv (fail_puts inv known sessionID)

theorem calm_failure (inv : Invariant w) (phase : Phase) : Calm w (failure w call phase) := by
  cases phase with
  | claiming sessionID candidate | provisioning sessionID candidate | preparing sessionID candidate
  | launching sessionID candidate | launched sessionID candidate =>
    exact calm_failed inv sessionID candidate
  | _ => exact calm_leave inv (Finset.Subset.refl _)

theorem launch_invariant (inv : Invariant w) {candidate : Bool}
    (isOpen : (w.sessions sessionID).head?.all (fun session => session.status ≠ .closed))
    (nobody : (values w.calls).all (fun phase => ¬ phase.closes sessionID)) :
    Invariant (goTo { w with running := insert sessionID w.running } call (.launched sessionID candidate)) := by
  refine ⟨inv.formed, fun id newest older history status running => ?_, fun id phase member closes running => ?_⟩
  · rcases Finset.mem_insert.mp running with rfl | before
    · simp only [goTo] at history
      simp [history, status] at isOpen
    · exact inv.closed id newest older history status before
  · rcases insert_values member with rfl | there
    · cases closes
    · rcases Finset.mem_insert.mp running with rfl | before
      · have apart := List.all_eq_true.mp nobody phase there
        simp [closes] at apart
      · exact inv.stopped id phase there closes before

theorem step_invariant (action : Action) (calm : unhurried w action) (inv : Invariant w)
    (stepped : step w action = some next) : Invariant next := by
  cases action with
  | operate | candidate =>
    simp only [step] at stepped
    split at stepped <;> cases stepped
    exact calm_invariant inv (calm_go_to inv (Finset.Subset.refl _) nofun)
  | drain =>
    simp only [step] at stepped
    split at stepped
    · obtain ⟨device, -, stepped⟩ := bind_eq_some_iff.mp stepped
      split at stepped <;> cases stepped
      exact calm_invariant inv (calm_go_to inv (Finset.Subset.refl _) nofun)
    · cases stepped
  | fail =>
    obtain ⟨phase, -, rfl⟩ := map_eq_some_iff.mp stepped
    exact calm_invariant inv (calm_failure inv phase)
  | advance =>
    simp only [step] at stepped
    split at stepped
    · rename_i known
      obtain ⟨phase, here, rfl⟩ := map_eq_some_iff.mp stepped
      by_cases launches : ∃ sessionID candidate, phase = .launching sessionID candidate
      · obtain ⟨sessionID, candidate, rfl⟩ := launches
        simp only [unhurried, here, decide_eq_true_eq] at calm
        exact launch_invariant inv calm.1 calm.2
      · refine calm_invariant inv (calm_advance inv known.1 here fun sessionID candidate same => ?_)
        exact launches ⟨sessionID, candidate, same⟩
    · cases stepped

end Steps

/-- In every run in which sessions are started only when they are not closed and nobody who is about to
    close them has stopped them already, no closed session is running in any state reached, and so
    when all are finished. -/
theorem unhurried_leaves_no_orphans (start w : World) (formed : WellFormed start.sessions)
    (idle : start.calls = ∅) (clean : NoOrphans start) (actions : List Action)
    (guarded : Guarded step (fun w action => unhurried w action) start actions)
    (ran : run step start actions = some w) : NoOrphans w := by
  have first : Invariant start := by
    refine ⟨formed, clean, fun id phase member => ?_⟩
    rw [idle] at member
    cases member
  have inv : Invariant w := guarded_run_invariant Invariant
    (fun state action next calm inv stepped => step_invariant action calm inv stepped) guarded ran first
  exact inv.closed

def waitingSession : Session := { createdSession with status := .starting }

def waiting : World := ⟨push SessionHistory.noHistory waitingSession, ∅, ∅⟩

def relay : Node := ⟨"node-a", "relay", "ready", "relay.internal", "", "pool-a", ["app"], 0, 0, 5, 1⟩

def current (w : World) : Moment :=
  let call : Call :=
    { service := { freshService with
        nodes := AList.singleton "node-a" relay
        sessions := match w.sessions "session-a" with
          | newest :: _ => AList.singleton "session-a" newest
          | [] => ∅ }
      now := 10
      fresh := "" }
  ⟨call, call, false, ""⟩

def turns (call : String) (count : Nat) : List (World → Action) :=
  List.replicate count fun w => .advance call (current w)

def starts : World → Action := fun w => .candidate "start" "session-a" (current w).reading

def closes : World → Action := fun w => .operate "close" "session-a" false (current w).reading

def newestStatus (w : World) : Option SessionStatus := (w.sessions "session-a").head?.map Session.status

theorem waiting_formed : WellFormed waiting.sessions :=
  push_well_formed SessionHistory.no_history_well_formed (by decide +kernel) (by decide) (by decide)
    fun _ member => absurd member List.not_mem_nil

theorem waiting_clean : NoOrphans waiting := fun _ _ _ _ _ => Finset.notMem_empty _

/-- The session is started and then closed. -/
theorem closed_after_start : ∃ w, run step waiting
      (script step waiting ([starts] ++ turns "start" 5 ++ [closes] ++ turns "close" 2)) = some w ∧
    newestStatus w = some .closed ∧ w.calls.entries.length = 0 ∧ NoOrphans w := by
  obtain ⟨w, ran, outcome⟩ := map_eq_some_iff.mp (show (run step waiting
      (script step waiting ([starts] ++ turns "start" 5 ++ [closes] ++ turns "close" 2))).map
      (fun w => (newestStatus w, w.calls.entries.length)) = some (some .closed, 0) by decide +kernel)
  simp only [Prod.mk.injEq] at outcome
  obtain ⟨status, finished⟩ := outcome
  refine ⟨w, ran, status, finished, ?_⟩
  refine unhurried_leaves_no_orphans waiting w waiting_formed rfl waiting_clean _ ?_ ran
  exact checked_guarded unhurried (fun _ _ passed => passed) _ _ (by decide +kernel)

/-- The session is closed when its start has claimed it and not yet launched it. -/
theorem closed_during_start :
    ¬ ∀ (start w : World) (actions : List Action), WellFormed start.sessions → start.calls = ∅ →
      NoOrphans start → run step start actions = some w → w.calls.entries.length = 0 → NoOrphans w := by
  intro always
  obtain ⟨w, ran, outcome⟩ := map_eq_some_iff.mp (show (run step waiting
      (script step waiting ([starts] ++ turns "start" 3 ++ [closes] ++ turns "close" 2 ++ turns "start" 2))).map
      (fun w => (newestStatus w, w.calls.entries.length, decide ("session-a" ∈ w.running))) =
        some (some .closed, 0, true) by decide +kernel)
  simp only [Prod.mk.injEq, decide_eq_true_eq] at outcome
  obtain ⟨status, finished, running⟩ := outcome
  have clean := always waiting w _ waiting_formed rfl waiting_clean ran finished
  unfold newestStatus at status
  cases history : w.sessions "session-a" with
  | nil => simp [history] at status
  | cons newest older =>
    refine clean "session-a" newest older history ?_ running
    simpa [history] using status

end PieRelay.OrphanedSessions
