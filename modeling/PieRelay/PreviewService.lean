import PieRelay.IntegrationRecords

/-!
The preview service of executor-manager/internal/preview/service.go: what its closures make of a
record, what the reconciler decides, and `Stop`, `Delete` and a reconcile pass of one process that
nobody disturbs. The maps of such a process hold what is stored, so its refreshes change nothing.
The answers of the executor manager are a parameter, and the store takes what is put. A text that
is cut keeps its whole characters only. Left out: logs and timeouts.
-/
namespace PieRelay.PreviewService
open ControlPlane (ServiceError found demand demand_ok validID projectWorkingDir)
open Function
open IntegrationRecords
open PreviewRecords
open RelayToken (bind_ok second)
open RoomRegistry (Time)

def boundedList : Nat → List Char → List Char
  | _, [] => []
  | limit, c :: rest => if c.utf8Size ≤ limit then c :: boundedList (limit - c.utf8Size) rest else []

def bounded (value : String) (limit : Nat) : String := String.ofList (boundedList limit value.toList)

inductive Change where
  | stopping
  | stopped (stopErr : Option String)
  | starting (expires : Time)
  | visibility (text : String)
  | inactive (lastError : String)
  | observed (status : PreviewStatus) (lastError backend : String) (readyAt : Time)
  | retry (cause : String) (now : Time)
  | failed (cause : String)
  deriving DecidableEq

def retryDelay (startAttempts : Int) : Time := second * 2 ^ (min (startAttempts - 1) 6).toNat

def Change.mutate (current : Preview) : Change → Option Preview
  | .stopping =>
    if current.status = .stopped then none
    else some { current with status := .stopping, lastError := "" }
  | .stopped none => some { current with status := .stopped, lastError := "" }
  | .stopped (some text) => some { current with status := .failed, lastError := bounded text 2000 }
  | .starting expires => some { current with
    status := .starting
    lastError := ""
    startAttempts := 0
    nextRetryAt := none
    expiresAt := some expires }
  | .visibility text =>
    if current.visibility = text then none
    else some { current with visibility := text, accessVersion := current.accessVersion + 1 }
  | .inactive lastError =>
    if current.status = .stopped ∧ current.lastError = lastError then none
    else some { current with status := .stopped, nextRetryAt := none, lastError := lastError }
  | .observed status lastError backend readyAt =>
    if current.status = .stopping ∨ current.status = .stopped ∨ current.status = .failed then none
    else if current.status = status ∧ current.backendHost = backend ∧ current.lastError = lastError ∧
        current.startAttempts = 0 ∧ current.nextRetryAt = none then none
    else some { current with
      status := status
      lastError := lastError
      backendHost := backend
      startAttempts := 0
      nextRetryAt := none
      lastReadyAt := if status = .ready then some readyAt else current.lastReadyAt }
  | .retry cause now =>
    if current.status = .stopping ∨ current.status = .stopped ∨ current.status = .failed then none
    else if 8 ≤ current.startAttempts + 1 then some { current with
      startAttempts := current.startAttempts + 1
      lastError := bounded cause 2000
      status := .failed
      nextRetryAt := none }
    else some { current with
      startAttempts := current.startAttempts + 1
      lastError := bounded cause 2000
      status := .starting
      nextRetryAt := some (now + retryDelay (current.startAttempts + 1)) }
  | .failed cause =>
    if current.status = .stopping ∨ current.status = .stopped then none
    else some { current with status := .failed, lastError := bounded cause 2000, nextRetryAt := none }

theorem mutate_id {change : Change} {current next : Preview} (mutated : change.mutate current = some next) :
    next.id = current.id := by
  unfold Change.mutate at mutated
  split at mutated <;> (try split at mutated) <;> (try split at mutated) <;> cases mutated <;> rfl

def expired (now : Time) (value : Preview) : Bool := value.expiresAt.any (· ≤ now)

def active (s : Service) (value : Preview) : Bool :=
  (s.integrations.lookup value.integrationID).any (fun integration => integration.status = .active) ∧
    (s.integrationUsers.lookup value.integrationUserID).any (fun binding =>
      binding.status = .ready ∧ binding.ownerUserID = value.ownerUserID) ∧
    (s.projects.lookup value.projectID).any (fun project =>
      project.status = .ready ∧ project.ownerUserID = value.ownerUserID)

def projectPreviewWorkingDir (projectID appPath : String) : Option String :=
  if validID projectID then
    (normalizePreviewAppPath appPath).map fun normalized =>
      if normalized = "." then projectWorkingDir projectID
      else projectWorkingDir projectID ++ "/" ++ normalized
  else none

inductive Decision where
  | rest
  | shutDown
  | give
  | launch (workingDir : String)

def reconcileDecision (s : Service) (now : Time) (value : Preview) : Decision :=
  if value.status = .stopping ∨ value.status = .stopped ∨ value.status = .failed then .rest
  else if ¬ active s value then .shutDown
  else if value.nextRetryAt.any (now < ·) then .rest
  else match projectPreviewWorkingDir value.projectID value.appPath with
    | none => .give
    | some workingDir => .launch workingDir

structure PreviewSpec where
  id : String
  projectID : String
  workingDir : String
  hostname : String
  profile : String
  port : Int

def specOf (value : Preview) (workingDir : String) : PreviewSpec :=
  ⟨value.id, value.projectID, workingDir, value.hostname, value.profile, value.port⟩

structure Observation where
  id : String
  state : String
  ready : Bool
  lastError : String

/-- What it answers: an error is its text. That an executor is not found counts as a stop that
    succeeds. -/
structure Manager where
  ensurePreviewNetwork (userID : String) : Except String String
  startPreview (userID : String) (spec : PreviewSpec) : Option String
  stopPreview (userID previewID : String) : Option String
  observePreviews (userID : String) : Except String (List Observation)

def observedChange (now : Time) (value : Preview) (backend : String) (observed : List Observation) : Change :=
  match observed.find? fun observation => observation.id = value.id with
  | none => .retry "preview process did not appear in executor state" now
  | some observation =>
    if observation.state = "failed" then .failed observation.lastError
    else .observed (if observation.ready ∧ observation.state = "running" then .ready else .starting)
      (bounded observation.lastError 2000) backend now

structure World where
  maps : Service
  running : Finset String

inductive Failure where
  | control (error : ServiceError)
  | manager (text : String)
  deriving DecidableEq

def filed (s : Service) (record : Preview) : Service :=
  { s with
    previews := s.previews.insert record.id record
    previewIndex := indexPreviewLocked s.previewIndex record }

def putPreviewRecord (s : Service) (now : Time) (value : Preview) (expected : Nat) :
    Except ServiceError (Service × Preview) := do
  let ask ← askPreview s value expected
  let record ← putPreview s.previews.lookup s.previewIndex now ask
  return (filed s record, record)

theorem put_taken {s after : Service} {now : Time} {next record : Preview} {expected : Nat}
    (put : putPreviewRecord s now next expected = .ok (after, record)) :
    after = filed s record ∧ record.id = next.id ∧
      (∀ before, s.previews.lookup record.id = some before → samePreview before record) ∧
      (∀ host, s.previewIndex.hosts record.hostname = some host → host = "" ∨ host = record.id) ∧
      ∀ candidate ∈ candidates s.previews.lookup s.previewIndex record.integrationUserID record.id,
        ((s.previews.lookup candidate).getD zeroPreview).port ≠ record.port := by
  simp only [putPreviewRecord, askPreview, putPreview, bind_ok, demand_ok, exists_const, decide_eq_true_eq, pure,
    Except.pure, Except.ok.injEq, Prod.mk.injEq] at put
  obtain ⟨ask, ⟨-, binding, -, integration, -, project, -, -, rfl⟩, made, ⟨-, same, hosts, ports, -, rfl⟩, rfl, rfl⟩ := put
  refine ⟨rfl, rfl, fun before stored => ?_, fun host led => ?_, ports⟩
  · have unchanged : samePreview before (trimmed next) := by
      simpa only [stored, Option.all_some] using same
    exact unchanged
  · simpa [led] using hosts

theorem filed_filed {s : Service} {record : Preview}
    (kept : ∀ id other, s.previews.lookup id = some other → other.id = id) :
    ∀ id other, (filed s record).previews.lookup id = some other → other.id = id := by
  intro id other stored
  by_cases here : id = record.id
  · subst here
    rw [filed, AList.lookup_insert] at stored
    cases stored
    rfl
  · exact kept id other ((AList.lookup_insert_ne here).symm.trans stored)

def deletePreview (s : Service) (id : String) (expected : Nat) : Except ServiceError Service := do
  demand (validID id ∧ 1 ≤ expected) .invalid
  let before ← found (s.previews.lookup id) .notFound
  demand (before.version = expected) .conflict
  return { s with
    previews := s.previews.erase id
    previewIndex := unindexPreviewLocked s.previewIndex before }

def updateAttempts (now : Time) (change : Change) (id : String) (s : Service) :
    Nat → Except ServiceError (Service × Preview)
  | 0 => .error .conflict
  | attempts + 1 =>
    match s.previews.lookup id with
    | none => .error .notFound
    | some current =>
      match change.mutate current with
      | none => .ok (s, current)
      | some next =>
        match putPreviewRecord s now next current.version with
        | .ok updated => .ok updated
        | .error .conflict => updateAttempts now change id s attempts
        | .error error => .error error

def updatePreview (now : Time) (change : Change) (id : String) (w : World) : World × Except ServiceError Preview :=
  match updateAttempts now change id w.maps 4 with
  | .ok (maps, record) => ({ w with maps }, .ok record)
  | .error error => (w, .error error)

def stopProcess (manager : Manager) (value : Preview) (w : World) : World × Option String :=
  match manager.stopPreview value.ownerUserID value.id with
  | none => ({ w with running := w.running.erase value.id }, none)
  | some text => (w, some text)

def stopPreview (manager : Manager) (now : Time) (id : String) (w : World) :
    World × Except (List Failure) Preview :=
  match w.maps.previews.lookup id with
  | none => (w, .error [.control .notFound])
  | some current =>
    if current.status = .stopped then (w, .ok current)
    else
      match updatePreview now .stopping id w with
      | (w, .error error) => (w, .error [.control error])
      | (w, .ok updated) =>
        if updated.status = .stopped then (w, .ok updated)
        else
          let (w, stopErr) := stopProcess manager updated w
          match stopErr, updatePreview now (.stopped stopErr) id w with
          | none, (w, .ok result) => (w, .ok result)
          | some text, (w, .ok _) => (w, .error [.manager text])
          | none, (w, .error error) => (w, .error [.control error])
          | some text, (w, .error error) => (w, .error [.manager text, .control error])

def stop (manager : Manager) (now : Time) (id : String) (w : World) : World × Except (List Failure) Preview :=
  if validID id then stopPreview manager now id w else (w, .error [.control .invalid])

def quiet (manager : Manager) (now : Time) (current : Preview) (w : World) :
    World × Except (List Failure) Preview :=
  if current.status = .stopped ∨ current.status = .failed then
    match stopProcess manager current w with
    | (w, none) => (w, .ok current)
    | (w, some text) => (w, .error [.manager text])
  else stopPreview manager now current.id w

def delete (manager : Manager) (now : Time) (id : String) (w : World) : World × Except (List Failure) Preview :=
  if validID id then
    match w.maps.previews.lookup id with
    | none => (w, .error [.control .notFound])
    | some current =>
      match quiet manager now current w with
      | (w, .error failures) => (w, .error failures)
      | (w, .ok current) =>
        match deletePreview w.maps current.id current.version with
        | .error error => (w, .error [.control error])
        | .ok maps => ({ w with maps }, .ok current)
  else (w, .error [.control .invalid])

def inactiveText : String := "preview owner or project is inactive"

def reconcileOneLocked (manager : Manager) (now : Time) (id : String) (w : World) : World :=
  match w.maps.previews.lookup id with
  | none => w
  | some value =>
    match reconcileDecision w.maps now value with
    | .rest => w
    | .shutDown =>
      match stopProcess manager value w with
      | (w, none) => (updatePreview now (.inactive inactiveText) id w).1
      | (w, some text) =>
        (updatePreview now (.inactive (bounded (inactiveText ++ "; process cleanup: " ++ text) 2000)) id w).1
    | .give => (updatePreview now (.failed "invalid preview application path") id w).1
    | .launch workingDir =>
      match manager.ensurePreviewNetwork value.ownerUserID,
        manager.startPreview value.ownerUserID (specOf value workingDir) with
      | .error cause, _ => (updatePreview now (.retry cause now) id w).1
      | .ok _, some cause => (updatePreview now (.retry cause now) id w).1
      | .ok backend, none =>
        let w := { w with running := insert id w.running }
        match manager.observePreviews value.ownerUserID with
        | .error cause => (updatePreview now (.retry cause now) id w).1
        | .ok observed => (updatePreview now (observedChange now value backend observed) id w).1

def reconcileOne (manager : Manager) (now : Time) (id : String) (w : World) : World :=
  if validID id then reconcileOneLocked manager now id w else w

def slotOf (value : Preview) : String :=
  value.projectID ++ "\x00" ++ (normalizePreviewAppPath value.appPath).getD ""

/-- The pass comes to a preview; `clock` says when. The slots are those of the previews it has come
    to, each with the id of the first one. -/
def visit (manager : Manager) (clock : String → Time) (state : (String → String) × World) (value : Preview) :
    (String → String) × World :=
  let (slots, w) := state
  let now := clock value.id
  if ¬ activePreview value then (slots, w)
  else if slots (slotOf value) ≠ "" ∧ slots (slotOf value) ≠ value.id then
    (slots, (stop manager now value.id w).1)
  else
    let slots := update slots (slotOf value) value.id
    if expired now value then (slots, (stop manager now value.id w).1)
    else (slots, reconcileOne manager now value.id w)

def reconcile (manager : Manager) (clock : String → Time) (values : List Preview) (w : World) : World :=
  (values.foldl (visit manager clock) (fun _ => "", w)).2

end PieRelay.PreviewService
