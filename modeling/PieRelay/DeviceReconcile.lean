import PieRelay.SessionCredentials

/-!
The sessions of a host device. `listDeviceSessions` and `reportDeviceSessionStatus` of
executor-manager/cmd/manager/control_api.go serve the device; `reconcileDeviceSessions` of
client/cmd/client/device_reconcile.go brings its Session Manager (client/internal/sessionmanager) in line with
what they say. A pass takes the sessions of the feed one after the other; the runners of the manager go on in
between. The control plane is otherwise left alone. Calls may be lost, and so may their answers. What a credential
says, what a failure reads, and the clocks are answers. Left out: `Start` with a Claude credential, and the error
texts of sessions that have ended.
-/
namespace PieRelay.DeviceReconcile
open List
open ControlPlane (Device Filed Service ServiceError Session SessionStatus Table ensureSessionRelayNode putSession values)
open RelayToken (second bind_ok)
open RoomRegistry (Time)
open SessionCredentials (Principal Refusal allow allow_ok canOperate isDevice)

def requirePrincipalDevice (p : Principal) (deviceID : String) : Except Refusal Unit :=
  allow (¬ isDevice p ∨ p.deviceID = deviceID) 403 "device token scope mismatch"

def hostDevice (s : Service) (p : Principal) (deviceID elsewhere : String) : Except Refusal Device := do
  requirePrincipalDevice p deviceID
  match s.devices.lookup deviceID with
  | none => .error ⟨404, "404 page not found"⟩
  | some device =>
    allow (¬ (isDevice p ∧ device.desiredState = "revoked")) 403 "device has been revoked"
    allow (device.kind = "local") 400 elsewhere
    allow (canOperate p ∨ device.ownerUserID = p.userID) 403 "device ownership required"
    return device

def assigned (device : Device) (session : Session) : Bool :=
  session.deviceID = device.id ∧ session.ownerUserID = device.ownerUserID ∧ session.executionTarget = "local"

/-- What `Sessions` may return: the newest first, and those of one moment as the map has them. -/
structure Listed (s : Service) (order : List Session) : Prop where
  all : order.Perm (values s.sessions)
  newest : order.Pairwise fun a b => b.createdAt ≤ a.createdAt

def positiveQueryInt (value : Option Int) (fallback maximum : Nat) : Nat :=
  match value with
  | some value => if value < 1 then fallback else if (maximum : Int) < value then maximum else value.toNat
  | none => fallback

def limitSlice {α : Type} (slice : List α) (limit : Nat) : List α :=
  if limit < slice.length then slice.take limit else slice

def listDeviceSessions (s : Service) (order : List Session) (p : Principal) (deviceID : String) (limit : Option Int) :
    Except Refusal (List Session) := do
  let device ← hostDevice s p deviceID "device session feed is only available to Host OS agents"
  return limitSlice (order.filter (assigned device)) (positiveQueryInt limit 256 1024)

structure StatusReport where
  status : SessionStatus
  selectedTransport : String
  lastError : String

def filed (s : Service) (record : Session) : Service := { s with sessions := s.sessions.insert record.id record }

def projected (session : Session) (r : StatusReport) (now : Time) : Session :=
  if r.status = .ready then
    { session with status := .ready, lastError := "", selectedTransport := "relay", lastActivityAt := now }
  else { session with status := r.status, lastError := r.lastError }

def conflict : Refusal := ⟨409, "session status changed concurrently"⟩

def writeControlError : ServiceError → Refusal
  | .notFound => ⟨404, "control object not found"⟩
  | .forbidden => ⟨403, "control object access forbidden"⟩
  | .conflict => ⟨409, "control record version conflict"⟩
  | .quota => ⟨429, "control quota exceeded"⟩
  | .invalid => ⟨400, "invalid control object"⟩
  | .noRelayCapacity => ⟨503, "control plane unavailable"⟩

def attempt (s : Service) (now : Time) (device : Device) (sessionID : String) (r : StatusReport) :
    Except Refusal (Option Service) :=
  match s.sessions.lookup sessionID with
  | none => .error ⟨404, "404 page not found"⟩
  | some session => do
    allow (assigned device session) 403 "session does not belong to device"
    allow (¬ ((session.status = .closing ∨ session.status = .closed) ∧ r.status ≠ .closed)) 409 "session is closing"
    if r.status = .ready ∧ (session.status = .active ∨ session.status = .idle) then return some s
    match putSession s now "" (projected session r now) session.version false with
    | .ok record => return some (filed s record)
    | .error .conflict => return none
    | .error failure => .error (writeControlError failure)

def attempts (s : Service) (now : Time) (device : Device) (sessionID : String) (r : StatusReport) :
    Nat → Except Refusal Service
  | 0 => .error conflict
  | left + 1 => do
    match ← attempt s now device sessionID r with
    | some after => return after
    | none => attempts s now device sessionID r left

def reportDeviceSessionStatus (s : Service) (now : Time) (p : Principal) (deviceID sessionID : String)
    (r : StatusReport) : Except Refusal Service := do
  let device ← hostDevice s p deviceID "session status is only accepted from Host OS agents"
  allow (r.status = .ready ∨ r.status = .closed ∨ r.status = .error) 400 "invalid device session status"
  allow (r.lastError.utf8ByteSize ≤ 2048) 400 "session error is too long"
  allow (r.selectedTransport = "" ∨ r.selectedTransport = "relay") 400
    "Host OS managed sessions currently require relay transport"
  attempts s now device sessionID r 3

def placeSession (s : Service) (now : Time) (sessionID : String) : Except ServiceError Service := do
  match ← ensureSessionRelayNode s now sessionID with
  | none => return s
  | some moved =>
    let record ← putSession s now "" moved moved.version false
    return filed s record

inductive State where
  | starting
  | running
  | stopped
  | failed
  deriving DecidableEq

inductive RelayState where
  | connecting
  | connected
  | reconnecting
  | disconnected
  | other (text : String)
  deriving DecidableEq

structure Config where
  id : String
  agentID : String
  agentMode : String
  relayURL : String
  token : String
  ptyHostPath : String
  executorPath : String
  streamID : String
  workingDir : String
  initialDriver : String
  deriving DecidableEq

structure LocalSession where
  config : Config
  state : State
  relayState : RelayState
  startedAt : Time
  deriving DecidableEq

def alive (session : LocalSession) : Bool := session.state = .running ∨ session.state = .starting

structure Paths where
  defaultPTYHostPath : String
  defaultExecutorPath : String
  defaultACPPath : String
  limit : Nat

inductive ManagerError where
  | invalid (text : String)
  | exists
  | limit
  | notFound
  | deadline
  deriving DecidableEq

def validID (value : String) : Bool :=
  value ≠ "" ∧ value.utf8ByteSize ≤ 128 ∧
    value.toList.all fun c => ('a' ≤ c ∧ c ≤ 'z') ∨ ('A' ≤ c ∧ c ≤ 'Z') ∨ ('0' ≤ c ∧ c ≤ '9') ∨
      c = '-' ∨ c = '_' ∨ c = '.' ∨ c = ':' ∨ c = '/'

def demand (condition : Bool) (error : ManagerError) : Except ManagerError Unit :=
  if condition then .ok () else .error error

def pathOr (path fallback text : String) : Except ManagerError String := do
  let path := if path = "" then fallback else path
  demand (path ≠ "") (.invalid text)
  return path

def completed (paths : Paths) (config : Config) : Except ManagerError Config := do
  demand (validID config.id ∧ config.relayURL ≠ "" ∧ config.token ≠ "") (.invalid "id, relayUrl and token are required")
  let mode := if config.agentMode = "" then "terminal" else config.agentMode
  demand (mode = "terminal" ∨ mode = "chat" ∨ mode = "acp") (.invalid "agentMode must be terminal, chat or acp")
  let stream := if config.streamID = "" then mode else config.streamID
  demand (validID stream) (.invalid "invalid stream id")
  let config := { config with agentMode := mode, streamID := stream }
  if mode = "terminal" then
    let path ← pathOr config.ptyHostPath paths.defaultPTYHostPath "pty host path is required"
    return { config with ptyHostPath := path }
  let fallback := if mode = "acp" then paths.defaultACPPath else paths.defaultExecutorPath
  let path ← pathOr config.executorPath fallback "executor path is required for chat and acp sessions"
  return { config with executorPath := path }

def sameConfig (a b : Config) : Bool :=
  a.id = b.id ∧ a.agentID = b.agentID ∧ a.agentMode = b.agentMode ∧ a.relayURL = b.relayURL ∧
    a.ptyHostPath = b.ptyHostPath ∧ a.executorPath = b.executorPath ∧ a.streamID = b.streamID ∧
    a.workingDir = b.workingDir ∧ a.initialDriver = b.initialDriver

def startManaged (paths : Paths) (sessions : Table LocalSession) (now : Time) (config : Config) :
    Except ManagerError (Table LocalSession) := do
  let config ← completed paths config
  match sessions.lookup config.id with
  | some existing => if sameConfig existing.config config then return sessions else .error .exists
  | none =>
    demand (((values sessions).countP alive) < paths.limit) .limit
    return sessions.insert config.id ⟨config, .starting, .connecting, now⟩

def remove (sessions : Table LocalSession) (id : String) (inTime : Bool) : Except ManagerError (Table LocalSession) :=
  if (sessions.lookup id).isSome then
    if inTime then .ok (sessions.erase id) else .error .deadline
  else .error .notFound

inductive Move where
  | running (id : String)
  | relay (id : String) (state : RelayState)
  | exited (id : String) (failed : Bool)
  deriving DecidableEq

def Move.id : Move → String
  | .running id => id
  | .relay id _ => id
  | .exited id _ => id

def Move.apply (session : LocalSession) : Move → LocalSession
  | .running _ => { session with state := .running }
  | .relay _ state => { session with relayState := state }
  | .exited _ failed => { session with
    config := { session.config with token := "" }
    state := if failed then .failed else .stopped
    relayState := .disconnected }

/-- A call that is lost is not carried out, and neither is one that the store refuses; one that is unanswered is. -/
inductive Delivery where
  | answered
  | unanswered
  | lost
  deriving DecidableEq

structure DeviceSessionCredential where
  token : String
  relayURL : String

structure Client where
  principal : Principal
  deviceID : String
  relayAgentURL : String → Option String
  paths : Paths

structure Turn where
  now : Time
  servedAt : Time
  inTime : Bool
  credential : Delivery
  issued : Option DeviceSessionCredential
  report : Delivery
  message : String

inductive Failure where
  | report (id : String)
  | failed (id : String)
  | stop (id : String)
  | closed (id : String)
  deriving DecidableEq

structure World where
  control : Service
  sessions : Table LocalSession
  known : Table LocalSession
  left : List Session
  results : List Failure

def opens : SessionStatus → Bool
  | .creating => true
  | .starting => true
  | .provisioning => true
  | .ready => true
  | .active => true
  | .idle => true
  | .reconnecting => true
  | _ => false

def ends : SessionStatus → Bool
  | .closing => true
  | .closed => true
  | .error => true
  | _ => false

def called {ε : Type} (control : Service) (delivery : Delivery) (answer : Except ε Service) : Service × Bool :=
  match delivery with
  | .lost => (control, false)
  | .unanswered => (answer.toOption.getD control, false)
  | .answered => (answer.toOption.getD control, answer.isOk)

def reportSession (c : Client) (w : World) (t : Turn) (id : String) (status : SessionStatus) (lastError : String) :
    World × Bool :=
  let (control, fine) := called w.control t.report
    (reportDeviceSessionStatus w.control t.servedAt c.principal c.deviceID id ⟨status, "relay", lastError⟩)
  ({ w with control }, fine)

def noted (w : World) (failure : Failure) : World := { w with results := w.results ++ [failure] }

def reportDeviceReady (c : Client) (w : World) (t : Turn) (id : String) : World :=
  let (after, fine) := reportSession c w t id .ready ""
  if fine then after else noted after (.report id)

def reportDeviceFailure (c : Client) (w : World) (t : Turn) (id : String) : World :=
  noted (reportSession c w t id .error t.message).1 (.failed id)

def configFor (session : Session) (relayURL token : String) : Config where
  id := session.id
  agentID := session.agentID
  agentMode := session.agentMode
  relayURL := relayURL
  token := token
  ptyHostPath := ""
  executorPath := ""
  streamID := session.agentMode
  workingDir := ""
  initialDriver := session.driverUserID

def credentialed (c : Client) (t : Turn) : Option (String × String) :=
  (t.issued.filter fun issued => issued.token ≠ "" ∧ issued.relayURL ≠ "").bind fun issued =>
    (c.relayAgentURL issued.relayURL).map fun relayURL => (relayURL, issued.token)

def launch (c : Client) (w : World) (t : Turn) (session : Session) : World :=
  let (control, fine) := called w.control t.credential (placeSession w.control t.servedAt session.id)
  let w := { w with control }
  match (if fine then credentialed c t else none) with
  | none => reportDeviceFailure c w t session.id
  | some (relayURL, token) =>
    match startManaged c.paths w.sessions t.now (configFor session relayURL token) with
    | .ok sessions => { w with sessions }
    | .error _ => reportDeviceFailure c w t session.id

def restart (c : Client) (w : World) (t : Turn) (session : Session) : World :=
  match remove w.sessions session.id t.inTime with
  | .ok sessions => launch c { w with sessions } t session
  | .error .notFound => launch c w t session
  | .error _ => reportDeviceFailure c w t session.id

def unannounced (status : SessionStatus) : Bool :=
  status = .creating ∨ status = .starting ∨ status = .provisioning ∨ status = .reconnecting

def stale (session : Session) (status : LocalSession) (now : Time) : Bool :=
  session.status = .reconnecting ∨
    ((status.relayState = .reconnecting ∨ status.relayState = .disconnected) ∧ 5 * second ≤ now - status.startedAt)

def openTurn (c : Client) (w : World) (t : Turn) (session : Session) : World :=
  match w.known.lookup session.id with
  | none => launch c w t session
  | some status =>
    if alive status then
      if status.relayState = .connected ∧ unannounced session.status then reportDeviceReady c w t session.id
      else if stale session status t.now then restart c w t session else w
    else restart c w t session

def reportClosed (c : Client) (w : World) (t : Turn) (session : Session) : World :=
  if session.status = .closing then
    let (after, fine) := reportSession c w t session.id .closed ""
    if fine then after else noted after (.closed session.id)
  else w

def endTurn (c : Client) (w : World) (t : Turn) (session : Session) : World :=
  if (w.known.lookup session.id).any alive then
    match remove w.sessions session.id t.inTime with
    | .ok sessions => reportClosed c { w with sessions } t session
    | .error .notFound => reportClosed c w t session
    | .error _ => noted w (.stop session.id)
  else reportClosed c w t session

def turn (c : Client) (w : World) (t : Turn) (session : Session) : World :=
  if session.deviceID ≠ c.deviceID ∨ session.executionTarget ≠ "local" then w
  else if opens session.status then openTurn c w t session
  else if ends session.status then endTurn c w t session
  else w

inductive Action where
  | move (m : Move)
  | turn (t : Turn)

def step (c : Client) (w : World) : Action → Option World
  | .move m => ((w.sessions.lookup m.id).filter alive).map fun session =>
    { w with sessions := w.sessions.insert m.id (m.apply session) }
  | .turn t =>
    match w.left with
    | [] => none
    | session :: left => some (turn c { w with left } t session)

def begin (c : Client) (s : Service) (order : List Session) (sessions : Table LocalSession) : Except Refusal World := do
  let desired ← listDeviceSessions s order c.principal c.deviceID (some 256)
  return ⟨s, sessions, sessions, desired, []⟩

def OpenLocal (s : Service) (deviceID id : String) : Prop :=
  ∃ session, s.sessions.lookup id = some session ∧ session.deviceID = deviceID ∧ session.executionTarget = "local" ∧
    opens session.status

structure Wrote (id : String) (s after : Service) : Prop where
  filed : Filed Session.id after.sessions
  apart : ∀ other, other ≠ id → after.sessions.lookup other = s.sessions.lookup other

section Control
variable {s after : Service} {now : Time} {id deviceID : String}
variable {record request : Session} {r : StatusReport}

theorem wrote_nothing (kept : Filed Session.id s.sessions) : Wrote id s s := ⟨kept, fun _ _ => rfl⟩

theorem wrote_record (kept : Filed Session.id s.sessions) (record : Session) : Wrote record.id s (filed s record) :=
  ⟨ControlPlane.filed_insert kept rfl, fun _ apart => AList.lookup_insert_ne apart⟩

theorem open_record (mine : record.deviceID = deviceID) (here : record.executionTarget = "local")
    (opened : opens record.status) : OpenLocal (filed s record) deviceID record.id :=
  ⟨record, AList.lookup_insert _, mine, here, opened⟩

theorem filled_in_place (s : Service) (user : ControlPlane.User) (migrated : Bool) (request : Session) :
    (ControlPlane.filledIn s user migrated request).deviceID = request.deviceID ∧
      (ControlPlane.filledIn s user migrated request).executionTarget = request.executionTarget := by
  cases migrated <;> exact ⟨rfl, rfl⟩

theorem put_session_place {fresh : String} {expected : Nat} {allowed : Bool}
    (put : putSession s now fresh request expected allowed = .ok record) :
    record.deviceID = request.deviceID ∧ record.executionTarget = request.executionTarget := by
  simp only [putSession, bind_ok, ControlPlane.demand_ok, ControlPlane.found_ok, exists_const] at put
  obtain ⟨-, device, -, user, -, -, -, -, -, last⟩ := put
  split at last
  · obtain ⟨-, rfl⟩ := ControlPlane.create_session_ok last
    exact filled_in_place s user _ _
  · obtain ⟨-, -, generation, rfl⟩ := ControlPlane.replace_session_ok last
    exact filled_in_place s user _ _

section
variable (kept : Filed Session.id s.sessions)
include kept

theorem put_stored_id {session : Session} {expected : Nat}
    (stored : s.sessions.lookup id = some session) (same : request.id = session.id)
    (put : putSession s now "" request expected false = .ok record) : record.id = id := by
  have key := (ControlPlane.put_session_ok put).id
  rw [same, kept id session stored] at key
  rw [key]
  split
  · next absent => exact absent.1.symm
  · rfl

theorem attempt_wrote {device : Device} (tried : attempt s now device id r = .ok (some after)) :
    Wrote id s after ∧ (r.status = .ready → OpenLocal s deviceID id → OpenLocal after deviceID id) := by
  unfold attempt at tried
  split at tried
  · cases tried
  · next stored =>
    simp only [bind_ok, allow_ok, exists_const] at tried
    obtain ⟨_, _, tried⟩ := tried
    split at tried
    · cases tried
      exact ⟨wrote_nothing kept, fun _ was => was⟩
    · split at tried
      · next record put =>
        cases tried
        have same : record.id = id := by
          refine put_stored_id kept stored ?_ put
          unfold projected
          split <;> rfl
        obtain ⟨device, target⟩ := put_session_place put
        have status := (ControlPlane.put_session_ok put).status
        subst same
        refine ⟨wrote_record kept record, fun ready was => ?_⟩
        obtain ⟨before, found, mine, here, _⟩ := was
        cases stored.symm.trans found
        unfold projected at device target status
        rw [if_pos ready] at device target status
        exact open_record (device.trans mine) (target.trans here) (by rw [status]; rfl)
      · cases tried
      · cases tried

theorem attempts_wrote {device : Device} {left : Nat} (tried : attempts s now device id r left = .ok after) :
    Wrote id s after ∧ (r.status = .ready → OpenLocal s deviceID id → OpenLocal after deviceID id) := by
  induction left with
  | zero => cases tried
  | succ left ih =>
    simp only [attempts, bind_ok] at tried
    obtain ⟨answer, first, tried⟩ := tried
    cases answer with
    | some =>
      cases tried
      exact attempt_wrote kept first
    | none => exact ih tried

theorem report_wrote {p : Principal} (reported : reportDeviceSessionStatus s now p deviceID id r = .ok after) :
    Wrote id s after ∧ (r.status = .ready → OpenLocal s deviceID id → OpenLocal after deviceID id) := by
  simp only [reportDeviceSessionStatus, bind_ok, allow_ok, exists_const] at reported
  obtain ⟨_, _, _, _, _, tried⟩ := reported
  exact attempts_wrote kept tried

end

theorem ensured_stored (ensured : ensureSessionRelayNode s now id = .ok (some request)) :
    ∃ session, s.sessions.lookup id = some session ∧ ∃ nodeID, request = { session with relayNodeID := nodeID } := by
  simp only [ensureSessionRelayNode, bind_ok, ControlPlane.demand_ok, ControlPlane.found_ok, exists_const] at ensured
  obtain ⟨-, session, stored, ensured⟩ := ensured
  refine ⟨session, stored, ?_⟩
  split at ensured
  · cases ensured
  · simp only [bind_ok, ControlPlane.demand_ok, exists_const] at ensured
    obtain ⟨-, ensured⟩ := ensured
    split at ensured
    · cases ensured
    · simp only [bind_ok, ControlPlane.demand_ok, ControlPlane.found_ok, exists_const] at ensured
      obtain ⟨-, node, -, same⟩ := ensured
      cases same
      exact ⟨node.id, rfl⟩

theorem place_wrote (deviceID : String) (kept : Filed Session.id s.sessions) (placed : placeSession s now id = .ok after) :
    Wrote id s after ∧ (OpenLocal s deviceID id → OpenLocal after deviceID id) := by
  simp only [placeSession, bind_ok] at placed
  obtain ⟨moved, ensured, placed⟩ := placed
  cases moved with
  | none =>
    cases placed
    exact ⟨wrote_nothing kept, fun was => was⟩
  | some =>
    simp only [bind_ok] at placed
    obtain ⟨record, put, same⟩ := placed
    cases same
    obtain ⟨session, stored, nodeID, rfl⟩ := ensured_stored ensured
    obtain ⟨device, target⟩ := put_session_place put
    have status := (ControlPlane.put_session_ok put).status
    have named : record.id = id := by
      refine put_stored_id kept stored ?_ put
      rfl
    subst named
    refine ⟨wrote_record kept record, fun was => ?_⟩
    obtain ⟨before, found, mine, here, opened⟩ := was
    cases stored.symm.trans found
    refine open_record (device.trans mine) (target.trans here) ?_
    rw [status]
    split
    · next unset =>
      rw [unset] at opened
      cases opened
    · exact opened

end Control

def aliveAt (sessions : Table LocalSession) (id : String) : Bool := (sessions.lookup id).any alive

structure Near (id : String) (w next : World) : Prop where
  left : next.left = w.left
  known : next.known = w.known
  control : Wrote id w.control next.control
  sessions : ∀ other, other ≠ id → next.sessions.lookup other = w.sessions.lookup other
  results : ∃ more, next.results = w.results ++ more

section Turns
variable {c : Client} {w next : World} {t : Turn} {session : Session} {id : String}
variable {control : Service} {sessions : Table LocalSession} {inTime : Bool}

theorem near_refl (kept : Filed Session.id w.control.sessions) : Near id w w :=
  ⟨rfl, rfl, wrote_nothing kept, fun _ _ => rfl, [], (append_nil _).symm⟩

theorem near_trans {middle : World} (first : Near id w middle) (second : Near id middle next) : Near id w next := by
  obtain ⟨some, early⟩ := first.results
  obtain ⟨more, late⟩ := second.results
  refine ⟨second.left.trans first.left, second.known.trans first.known, ⟨second.control.filed, ?_⟩, ?_, some ++ more, ?_⟩
  · exact fun other apart => (second.control.apart other apart).trans (first.control.apart other apart)
  · exact fun other apart => (second.sessions other apart).trans (first.sessions other apart)
  · rw [late, early, append_assoc]

theorem near_noted (kept : Filed Session.id w.control.sessions) (failure : Failure) : Near id w (noted w failure) :=
  ⟨rfl, rfl, wrote_nothing kept, fun _ _ => rfl, [failure], rfl⟩

theorem noted_results (w : World) (failure : Failure) : (noted w failure).results ≠ [] :=
  append_ne_nil_of_right_ne_nil w.results (cons_ne_nil failure [])

theorem near_results (near : Near id w next) (fine : next.results = []) : w.results = [] := by
  obtain ⟨more, results⟩ := near.results
  exact (append_eq_nil_iff.mp (results.symm.trans fine)).1

theorem called_wrote {ε : Type} (kept : Filed Session.id control.sessions) (delivery : Delivery)
    {answer : Except ε Service} (wrote : ∀ after, answer = .ok after → Wrote id control after) :
    Wrote id control (called control delivery answer).1 := by
  cases answer with
  | ok after => cases delivery <;> first | exact wrote after rfl | exact wrote_nothing kept
  | error => cases delivery <;> exact wrote_nothing kept

theorem called_fine {ε : Type} {delivery : Delivery} {answer : Except ε Service}
    (fine : (called control delivery answer).2) : answer = .ok (called control delivery answer).1 := by
  cases answer with
  | ok => cases delivery <;> first | rfl | cases fine
  | error => cases delivery <;> cases fine

theorem near_control (near : Wrote id w.control control) : Near id w { w with control } :=
  ⟨rfl, rfl, near, fun _ _ => rfl, [], (append_nil _).symm⟩

theorem near_report (kept : Filed Session.id w.control.sessions) (status : SessionStatus) (lastError : String) :
    Near id w (reportSession c w t id status lastError).1 :=
  near_control (called_wrote kept t.report fun _ reported => (report_wrote kept reported).1)

theorem near_ready (kept : Filed Session.id w.control.sessions) : Near id w (reportDeviceReady c w t id) := by
  have reported : Near id w (reportSession c w t id .ready "").1 := near_report kept .ready ""
  unfold reportDeviceReady
  dsimp only
  split
  · exact reported
  · exact near_trans reported (near_noted reported.control.filed _)

theorem near_failure (c : Client) (t : Turn) (id : String) (kept : Filed Session.id w.control.sessions) :
    Near id w (reportDeviceFailure c w t id) := by
  have reported : Near id w (reportSession c w t id .error t.message).1 := near_report kept .error t.message
  exact near_trans reported (near_noted reported.control.filed _)

theorem near_sessions (kept : Filed Session.id w.control.sessions)
    (apart : ∀ other, other ≠ id → sessions.lookup other = w.sessions.lookup other) : Near id w { w with sessions } :=
  ⟨rfl, rfl, wrote_nothing kept, apart, [], (append_nil _).symm⟩

theorem removed_sessions {after : Table LocalSession}
    (removed : remove sessions id inTime = .ok after) : after = sessions.erase id := by
  unfold remove at removed
  split at removed
  · split at removed
    · cases removed
      rfl
    · cases removed
  · cases removed

theorem absent_sessions (absent : remove sessions id inTime = .error .notFound) : sessions.lookup id = none := by
  unfold remove at absent
  split at absent
  · split at absent <;> cases absent
  · next missing => exact Option.not_isSome_iff_eq_none.mp missing

theorem near_removed (kept : Filed Session.id w.control.sessions)
    (removed : remove w.sessions id inTime = .ok sessions) : Near id w { w with sessions } := by
  refine near_sessions kept fun other apart => ?_
  rw [removed_sessions removed]
  exact AList.lookup_erase_ne apart

theorem completed_id {paths : Paths} {config filled : Config} (fine : completed paths config = .ok filled) :
    filled.id = config.id := by
  simp only [completed, bind_ok] at fine
  obtain ⟨_, _, _, _, _, _, fine⟩ := fine
  generalize (if config.agentMode = "" then "terminal" else config.agentMode) = mode at fine
  split at fine
  · simp only [bind_ok] at fine
    obtain ⟨_, _, fine⟩ := fine
    cases fine
    rfl
  · simp only [bind_ok] at fine
    obtain ⟨_, _, fine⟩ := fine
    cases fine
    rfl

theorem started_apart {paths : Paths} {after : Table LocalSession} {now : Time} {config : Config}
    (started : startManaged paths sessions now config = .ok after) (other : String) (apart : other ≠ config.id) :
    after.lookup other = sessions.lookup other := by
  simp only [startManaged, bind_ok] at started
  obtain ⟨filled, fine, started⟩ := started
  have same := completed_id fine
  split at started
  · split at started
    · cases started
      rfl
    · cases started
  · simp only [bind_ok] at started
    obtain ⟨_, _, started⟩ := started
    cases started
    rw [same]
    exact AList.lookup_insert_ne apart

theorem launch_near (c : Client) (t : Turn) (session : Session) (kept : Filed Session.id w.control.sessions) :
    Near session.id w (launch c w t session) ∧
    ((launch c w t session).results = [] → OpenLocal w.control c.deviceID session.id →
      OpenLocal (launch c w t session).control c.deviceID session.id) := by
  have wrote : Wrote session.id w.control
      (called w.control t.credential (placeSession w.control t.servedAt session.id)).1 :=
    called_wrote kept t.credential fun _ placed => (place_wrote c.deviceID kept placed).1
  have placed := near_control wrote
  have fails := near_failure c t session.id placed.control.filed
  unfold launch
  dsimp only
  split
  · exact ⟨near_trans placed fails, fun fine => absurd fine (noted_results _ _)⟩
  · next issued =>
    split
    · next started =>
      refine ⟨near_trans placed (near_sessions wrote.filed ?_), fun _ was => ?_⟩
      · exact started_apart started
      · split at issued
        · next fine => exact (place_wrote c.deviceID kept (called_fine fine)).2 was
        · cases issued
    · exact ⟨near_trans placed fails, fun fine => absurd fine (noted_results _ _)⟩

theorem restart_near (c : Client) (t : Turn) (session : Session) (kept : Filed Session.id w.control.sessions) :
    Near session.id w (restart c w t session) ∧
    ((restart c w t session).results = [] → OpenLocal w.control c.deviceID session.id →
      OpenLocal (restart c w t session).control c.deviceID session.id) := by
  unfold restart
  split
  · next sessions removed =>
    have launched := launch_near (w := { w with sessions }) c t session kept
    exact ⟨near_trans (near_removed kept removed) launched.1, launched.2⟩
  · exact launch_near c t session kept
  · exact ⟨near_failure c t session.id kept, fun fine => absurd fine (noted_results _ _)⟩

theorem open_turn_near (c : Client) (t : Turn) (session : Session) (kept : Filed Session.id w.control.sessions) :
    Near session.id w (openTurn c w t session) ∧
    ((openTurn c w t session).results = [] → OpenLocal w.control c.deviceID session.id →
      OpenLocal (openTurn c w t session).control c.deviceID session.id) := by
  unfold openTurn
  split
  · exact launch_near c t session kept
  · split
    · split
      · refine ⟨near_ready kept, fun fine was => ?_⟩
        unfold reportDeviceReady at fine ⊢
        dsimp only at fine ⊢
        split at fine
        · next answered =>
          rw [if_pos answered]
          exact (report_wrote kept (called_fine answered)).2 rfl was
        · exact absurd fine (noted_results _ _)
      · split
        · exact restart_near c t session kept
        · exact ⟨near_refl kept, fun _ was => was⟩
    · exact restart_near c t session kept

theorem report_closed_near (c : Client) (t : Turn) (session : Session) (kept : Filed Session.id w.control.sessions) :
    Near session.id w (reportClosed c w t session) ∧ (reportClosed c w t session).sessions = w.sessions := by
  have reported : Near session.id w (reportSession c w t session.id .closed "").1 := near_report kept .closed ""
  unfold reportClosed
  split
  · dsimp only
    split
    · exact ⟨reported, rfl⟩
    · exact ⟨near_trans reported (near_noted reported.control.filed _), rfl⟩
  · exact ⟨near_refl kept, rfl⟩

theorem end_turn_near (c : Client) (t : Turn) (session : Session) (kept : Filed Session.id w.control.sessions) :
    Near session.id w (endTurn c w t session) ∧
    ((endTurn c w t session).results = [] → (aliveAt w.sessions session.id → aliveAt w.known session.id) →
      aliveAt (endTurn c w t session).sessions session.id = false) := by
  unfold endTurn
  split
  · split
    · next sessions removed =>
      have reported := report_closed_near (w := { w with sessions }) c t session kept
      refine ⟨near_trans (near_removed kept removed) reported.1, fun _ _ => ?_⟩
      rw [reported.2, aliveAt]
      show (sessions.lookup session.id).any alive = false
      rw [removed_sessions removed, AList.lookup_erase]
      rfl
    · next absent =>
      have reported := report_closed_near c t session kept
      refine ⟨reported.1, fun _ _ => ?_⟩
      rw [reported.2, aliveAt, absent_sessions absent]
      rfl
    · exact ⟨near_noted kept _, fun fine => absurd fine (noted_results _ _)⟩
  · next unknown =>
    have reported := report_closed_near c t session kept
    refine ⟨reported.1, fun _ seen => ?_⟩
    rw [reported.2]
    exact Bool.eq_false_iff.mpr fun lives => unknown (seen lives)

def acts (c : Client) (session : Session) : Bool :=
  session.deviceID = c.deviceID ∧ session.executionTarget = "local" ∧ (opens session.status ∨ ends session.status)

structure Turned (c : Client) (session : Session) (w next : World) : Prop where
  near : Near session.id w next
  idle : acts c session = false → next = w
  opened : next.results = [] → session.deviceID = c.deviceID → session.executionTarget = "local" →
    opens session.status → OpenLocal w.control c.deviceID session.id →
    OpenLocal next.control c.deviceID session.id
  ended : next.results = [] → session.deviceID = c.deviceID → session.executionTarget = "local" →
    ends session.status → (aliveAt w.sessions session.id → aliveAt w.known session.id) →
    aliveAt next.sessions session.id = false

theorem opens_ends {status : SessionStatus} (opened : opens status) : ends status = false := by
  cases status <;> first | rfl | cases opened

theorem turned (c : Client) (t : Turn) (session : Session) (kept : Filed Session.id w.control.sessions) :
    Turned c session w (turn c w t session) := by
  unfold turn
  split
  · next elsewhere =>
    refine ⟨near_refl kept, fun _ => rfl, fun _ mine here => ?_, fun _ mine here => ?_⟩
    · exact (elsewhere.elim (fun apart => apart mine) fun apart => apart here).elim
    · exact (elsewhere.elim (fun apart => apart mine) fun apart => apart here).elim
  · next here =>
    obtain ⟨mine, target⟩ := not_or.mp here
    rw [not_not] at mine target
    split
    · next opened =>
      have near := open_turn_near c t session kept
      refine ⟨near.1, fun idle => ?_, fun fine _ _ _ => near.2 fine, fun _ _ _ ended => ?_⟩
      · simp [acts, mine, target, opened] at idle
      · cases (opens_ends opened).symm.trans ended
    · next shut =>
      split
      · next ended =>
        have near := end_turn_near c t session kept
        refine ⟨near.1, fun idle => ?_, fun _ _ _ opened => absurd opened shut, fun fine _ _ _ => near.2 fine⟩
        simp [acts, mine, target, ended] at idle
      · next runs =>
        exact ⟨near_refl kept, fun _ => rfl, fun _ _ _ opened => absurd opened shut,
          fun _ _ _ ended => absurd ended runs⟩

end Turns

end PieRelay.DeviceReconcile
