import PieRelay.JobTable
import PieRelay.ProvisionFlights

/-!
The user API, executor-manager/cmd/manager/main.go, with the manager behind it: what a request asks of the
manager, and the handlers that it starts in the registry and among the jobs. Whether the blob store has what a
submission refers to is its answer. Left out: the files of the blob store, which uploads write, the streams of
`events`, the slots of both, and what is answered once the manager has been asked.
-/
namespace PieRelay.UserRequests
open ControlPlane (ResourceQuota Table User)
open Executions
open ExecutorRegistry (Executor ExecutorLimits)
open JsonScanner (Bytes)
open RelayToken (bind_ok)
open RoomRegistry (Time)
open UserLifecycle (validUserID)

structure Principal where
  userID : String
  admin : Bool

structure Request where
  method : String
  path : String
  body : Option (String × List String)
  deriving DecidableEq

structure Server where
  control : Table User
  positiveCPUs : String → Bool
  blobs : Option (String → List String → Bool)

structure Refusal where
  status : Nat
  text : String
  deriving DecidableEq

structure Submission where
  input : Bytes
  blobRefs : List String
  deriving DecidableEq

inductive Asked where
  | ensure (user : String) (limits : Option ExecutorLimits)
  | submit (user : String) (submission : Submission)
  | cancel (id : String)
  | nothing
  deriving DecidableEq

def hasPrefix (value start : String) : Bool := start.toList.isPrefixOf value.toList

def hasSuffix (value tail : String) : Bool := tail.toList.isSuffixOf value.toList

def trimPrefix (value start : String) : String :=
  if hasPrefix value start then String.ofList (value.toList.drop start.length) else value

def trimSuffix (value tail : String) : String :=
  if hasSuffix value tail then String.ofList (value.toList.take (value.length - tail.length)) else value

def demand (condition : Bool) (status : Nat) (text : String) : Except Refusal Unit :=
  if condition then .ok () else .error ⟨status, text⟩

def authorized (p : Principal) (user : String) : Except Refusal Unit :=
  demand (p.admin ∨ p.userID = user) 403 "forbidden"

def executorLimits (quota : ResourceQuota) : ExecutorLimits :=
  ⟨quota.cpus, quota.memoryBytes, quota.pids, quota.diskBytes⟩

def ensure (s : Server) (p : Principal) (r : Request) : Except Refusal Asked := do
  demand (r.method = "PUT") 405 "method not allowed"
  let id := trimSuffix (trimPrefix r.path "/v1/users/") "/executor"
  demand (validUserID id) 400 "invalid user"
  authorized p id
  match s.control.lookup id with
  | some user =>
    demand (user.status = .active) 403 "user is not active"
    demand (ExecutorRegistry.validExecutorLimits s.positiveCPUs (executorLimits user.quota)) 400
      "invalid executor resource limits"
    return .ensure id (some (executorLimits user.quota))
  | none => return .ensure id none

def validBlobRef (user ref : String) : Bool :=
  ref ≠ "" ∧ ref.utf8ByteSize ≤ 512 ∧ user.utf8ByteSize + 2 ≤ ref.utf8ByteSize ∧ hasPrefix ref (user ++ "/")

def needed {α : Type} (value : Option α) (status : Nat) (text : String) : Except Refusal α :=
  match value with
  | some value => .ok value
  | none => .error ⟨status, text⟩

def submit (s : Server) (p : Principal) (r : Request) : Except Refusal Asked := do
  demand (r.method = "POST") 405 "method not allowed"
  let id := trimSuffix (trimPrefix r.path "/v1/users/") "/jobs"
  demand (validUserID id) 400 "invalid user"
  authorized p id
  let (command, blobRefs) ← needed r.body 400 "command is required"
  demand (command ≠ "") 400 "command is required"
  let blobs ← needed s.blobs 503 "blob store unavailable"
  demand (blobs id blobRefs) 400 "blob not found"
  demand (command.utf8ByteSize ≤ 256 * 1024) 503 "job input exceeds limit"
  demand (blobRefs.all (validBlobRef id)) 503 "invalid blob reference"
  return .submit id ⟨command.toUTF8.toList, blobRefs⟩

def ofJob (jobs : Table JobTable.Job) (p : Principal) (id : String) (asked : Asked) : Except Refusal Asked := do
  let job ← needed (jobs.lookup id) 404 "404 page not found"
  authorized p job.userID
  return asked

def cancel (jobs : Table JobTable.Job) (p : Principal) (r : Request) : Except Refusal Asked := do
  demand (r.method = "POST") 405 "method not allowed"
  let id := trimSuffix (trimPrefix r.path "/v1/jobs/") "/cancel"
  ofJob jobs p id (.cancel id)

def watch (jobs : Table JobTable.Job) (p : Principal) (r : Request) : Except Refusal Asked := do
  demand (r.method = "GET") 405 "method not allowed"
  ofJob jobs p (trimSuffix (trimPrefix r.path "/v1/jobs/") "/events") .nothing

def upload (p : Principal) (r : Request) : Except Refusal Asked := do
  demand (r.method = "POST" ∨ r.method = "DELETE") 405 "method not allowed"
  let id := trimSuffix (trimPrefix r.path "/v1/users/") "/uploads"
  demand (validUserID id) 400 "invalid user"
  authorized p id
  return .nothing

def handle (s : Server) (jobs : Table JobTable.Job) (p : Principal) (r : Request) : Except Refusal Asked :=
  if hasPrefix r.path "/v1/users/" then
    if hasSuffix r.path "/executor" then ensure s p r
    else if hasSuffix r.path "/jobs" then submit s p r
    else if hasSuffix r.path "/uploads" then upload p r
    else .error ⟨404, "404 page not found"⟩
  else if hasPrefix r.path "/v1/jobs/" then
    if hasSuffix r.path "/cancel" then cancel jobs p r else watch jobs p r
  else .error ⟨404, "404 page not found"⟩

structure World where
  registry : ExecutorRegistry.World
  jobs : JobTable.World
  begun : Table (Option Submission)

inductive Action where
  | request (call : String) (r : Request) (now : Time)
  | go (action : ExecutorRegistry.Action)
  | submitted (call id : String) (now : Time)
  | job (action : JobTable.Action)
  deriving DecidableEq

def provided : ExecutorRegistry.Answer → Option Executor
  | .own (e, none) => some e
  | .joined _ (e, none) => some e
  | _ => none

def begin (o : ExecutorRegistry.Options) (w : World) (call user : String) (limits : Option ExecutorLimits)
    (submission : Option Submission) (now : Time) : Option World :=
  if ExecutorRegistry.unused w.registry call then
    some { w with
      registry := ExecutorRegistry.ensure o w.registry call user limits now
      begun := w.begun.insert call submission }
  else none

def step (o : ExecutorRegistry.Options) (jo : JobTable.Options) (s : Server) (p : Principal) (w : World) :
    Action → Option World
  | .request call r now =>
    match handle s w.jobs.jobs p r with
    | .ok (.ensure user limits) => begin o w call user limits none now
    | .ok (.submit user submission) => begin o w call user none (some submission) now
    | .ok (.cancel id) => some { w with jobs := JobTable.cancel jo w.jobs id now }
    | .ok .nothing => some w
    | .error _ => some w
  | .go action =>
    if (ExecutorRegistry.continues action).any fun call => (w.begun.lookup call).isSome then
      (ExecutorRegistry.step o w.registry action).map fun registry => { w with registry }
    else none
  | .submitted call id now =>
    match w.begun.lookup call, (w.registry.returned.lookup call).bind provided with
    | some (some submission), some e =>
      (JobTable.step jo w.jobs (.submit id e.userID e.id submission.input submission.blobRefs now)).map fun jobs =>
        { w with jobs, begun := w.begun.insert call none }
    | _, _ => none
  | .job action =>
    match action with
    | .submit _ _ _ _ _ _ => none
    | action => (JobTable.step jo w.jobs action).map fun jobs => { w with jobs }

variable {p : Principal} {s : Server} {r : Request} {asked : Asked}

@[simp] theorem demand_ok {condition : Bool} {status : Nat} {text : String} {done : Unit} :
    demand condition status text = .ok done ↔ condition := by
  cases condition <;> simp [demand]

/-- Who is no administrator asks for his own. -/
theorem authorized_own {user : String} {done : Unit} (plain : p.admin = false)
    (passed : authorized p user = .ok done) : user = p.userID := by
  rcases of_decide_eq_true (demand_ok.mp passed) with admin | own
  · cases plain.symm.trans admin
  · exact own.symm

theorem asked_ensure (plain : p.admin = false)
    (handled : ensure s p r = .ok asked) : ∃ limits, asked = .ensure p.userID limits ∧
      ∀ user, s.control.lookup p.userID = some user → user.status = .active := by
  obtain ⟨_, _, first⟩ := bind_ok.mp handled
  obtain ⟨_, _, checked⟩ := bind_ok.mp first
  obtain ⟨_, passed, known⟩ := bind_ok.mp checked
  have own := authorized_own plain passed
  rw [own] at known
  split at known
  · next stored =>
    obtain ⟨_, active, allowed⟩ := bind_ok.mp known
    obtain ⟨_, _, last⟩ := bind_ok.mp allowed
    cases last
    refine ⟨_, rfl, fun other found => ?_⟩
    cases stored.symm.trans found
    exact of_decide_eq_true (demand_ok.mp active)
  · next absent =>
    cases known
    refine ⟨_, rfl, fun other found => ?_⟩
    cases absent.symm.trans found

theorem asked_submit (plain : p.admin = false)
    (handled : submit s p r = .ok asked) : ∃ submission, asked = .submit p.userID submission := by
  obtain ⟨_, _, first⟩ := bind_ok.mp handled
  obtain ⟨_, _, checked⟩ := bind_ok.mp first
  obtain ⟨_, passed, given⟩ := bind_ok.mp checked
  obtain ⟨_, _, command⟩ := bind_ok.mp given
  obtain ⟨_, _, filled⟩ := bind_ok.mp command
  obtain ⟨_, _, store⟩ := bind_ok.mp filled
  obtain ⟨_, _, has⟩ := bind_ok.mp store
  obtain ⟨_, _, short⟩ := bind_ok.mp has
  obtain ⟨_, _, last⟩ := bind_ok.mp short
  cases last
  exact ⟨_, congrArg (Asked.submit · _) (authorized_own plain passed)⟩

theorem asked_other {jobs : Table JobTable.Job} {id : String} {result : Asked}
    (handled : ofJob jobs p id asked = .ok result) : result = asked := by
  obtain ⟨_, _, found⟩ := bind_ok.mp handled
  obtain ⟨_, _, last⟩ := bind_ok.mp found
  cases last
  rfl

/-- A principal that is no administrator asks the manager for its own executor only, and for limits only if it
    is active. -/
theorem handled_own {jobs : Table JobTable.Job} (plain : p.admin = false) (handled : handle s jobs p r = .ok asked) :
    (∃ limits, asked = .ensure p.userID limits ∧
      ∀ user, s.control.lookup p.userID = some user → user.status = .active) ∨
    (∃ submission, asked = .submit p.userID submission) ∨ (∃ id, asked = .cancel id) ∨ asked = .nothing := by
  unfold handle at handled
  split at handled
  · split at handled
    · exact .inl (asked_ensure plain handled)
    · split at handled
      · exact .inr (.inl (asked_submit plain handled))
      · split at handled
        · obtain ⟨_, _, first⟩ := bind_ok.mp handled
          obtain ⟨_, _, checked⟩ := bind_ok.mp first
          obtain ⟨_, _, last⟩ := bind_ok.mp checked
          cases last
          exact .inr (.inr (.inr rfl))
        · cases handled
  · split at handled
    · split at handled
      · obtain ⟨_, _, found⟩ := bind_ok.mp handled
        exact .inr (.inr (.inl ⟨_, asked_other found⟩))
      · obtain ⟨_, _, found⟩ := bind_ok.mp handled
        exact .inr (.inr (.inr (asked_other found)))
    · cases handled

end PieRelay.UserRequests
