import Mathlib.Data.Finset.Basic
import PieRelay.ControlPlane
import PieRelay.Executions
import PieRelay.JsonScanner

/-!
The jobs of a manager, executor-manager/internal/manager/manager.go: `NewWithOptions`, `Submit` from where
`Ensure` has returned, `Cancel`, `run`, `finishRun` and `pruneLocked`. A step is one critical section, or one
operation of the queue. A job's id is issued once. Left out: what the store holds, and who is notified.
-/
namespace PieRelay.JobTable
open List
open ControlPlane (Table insert_lookup erase_lookup)
open Executions
open JsonScanner (Bytes)
open RoomRegistry (Time)

inductive JobStatus where
  | queued
  | running
  | succeeded
  | failed
  | canceled
  | rejected
  deriving DecidableEq

structure Job where
  id : String
  userID : String
  executorID : String
  status : JobStatus
  createdAt : Option Time
  startedAt : Option Time
  finishedAt : Option Time
  input : Bytes
  output : Bytes
  blobRefs : List String
  logs : List Bytes
  logBytes : Nat
  logTruncated : Bool
  err : String
  deriving DecidableEq

def terminal : JobStatus → Bool
  | .queued => false
  | .running => false
  | _ => true

structure Options where
  queueCapacity : Nat
  retainedJobs : Nat
  retains : 0 < retainedJobs

inductive Submission where
  | saving (j : Job)
  | unsaved (j : Job)
  | saved (j : Job)
  | full (j : Job)
  deriving DecidableEq

inductive Work where
  | taken (id : String)
  | saving (id : String) (j : Job)
  | running (id : String) (j : Job)
  deriving DecidableEq

def Submission.job : Submission → Job
  | .saving j => j
  | .unsaved j => j
  | .saved j => j
  | .full j => j

def Work.job : Work → Option (String × Job)
  | .taken _ => none
  | .saving id j => some (id, j)
  | .running id j => some (id, j)

structure World where
  jobs : Table Job
  running : Table String
  cancel : Finset String
  queue : List String
  terminalOrder : List String
  submissions : Table Submission
  workers : Table Work
  issued : Finset String

def maxJobLogBytes : Nat := 4194304

structure RunError where
  canceled : Bool
  text : String
  deriving DecidableEq

inductive Action where
  | submit (id user executorID : String) (input : Bytes) (blobRefs : List String) (now : Time)
  | saved (id : String) (ok : Bool)
  | drop (id : String)
  | enqueue (id : String)
  | reject (id : String)
  | cancel (id : String) (now : Time)
  | take (worker : String)
  | start (worker : String) (now : Time)
  | started (worker : String)
  | chunk (worker : String) (text : Bytes)
  | finish (worker : String) (out : Bytes) (err : Option RunError) (now : Time)
  deriving DecidableEq

def forget (jobs : Table Job) : List String → Table Job
  | [] => jobs
  | id :: rest => forget (if (jobs.lookup id).any fun j => terminal j.status then jobs.erase id else jobs) rest

def pruneLocked (o : Options) (w : World) : World :=
  let removeCount := w.terminalOrder.length - o.retainedJobs
  { w with
    jobs := forget w.jobs (w.terminalOrder.take removeCount)
    terminalOrder := w.terminalOrder.drop removeCount }

def ended (o : Options) (w : World) (id : String) (j : Job) : World :=
  pruneLocked o { w with
    jobs := w.jobs.insert id j
    running := w.running.erase j.userID
    terminalOrder := w.terminalOrder ++ [id] }

def submit (w : World) (id user executorID : String) (input : Bytes) (blobRefs : List String) (now : Time) : World :=
  if (w.running.lookup user).any (· ≠ "") then w
  else
    let j : Job := ⟨id, user, executorID, .queued, some now, none, none, input, [], blobRefs, [], 0, false, ""⟩
    { w with
      jobs := w.jobs.insert id j
      running := w.running.insert user id
      submissions := w.submissions.insert id (.saving j) }

def drop (w : World) (id : String) (j : Job) : World := { w with
  jobs := w.jobs.erase j.id
  running := w.running.erase j.userID
  submissions := w.submissions.erase id }

def enqueue (o : Options) (w : World) (id : String) (j : Job) : World :=
  if w.queue.length < o.queueCapacity then
    { w with queue := w.queue ++ [j.id], submissions := w.submissions.erase id }
  else { w with submissions := w.submissions.insert id (.full j) }

def reject (o : Options) (w : World) (id : String) (j : Job) : World :=
  ended o { w with submissions := w.submissions.erase id } j.id
    { j with status := .rejected, err := "executor queue is full" }

def cancel (o : Options) (w : World) (id : String) (now : Time) : World :=
  match w.jobs.lookup id with
  | some j =>
    if terminal j.status ∨ id ∈ w.cancel then w
    else ended o w id { j with status := .canceled, finishedAt := some now }
  | none => w

def start (w : World) (worker id : String) (now : Time) : World :=
  match (w.jobs.lookup id).filter fun j => j.status = .queued with
  | some j =>
    let j := { j with status := .running, startedAt := some now }
    { w with
      jobs := w.jobs.insert id j
      running := w.running.insert j.userID id
      cancel := insert id w.cancel
      workers := w.workers.insert worker (.saving id j) }
  | none => { w with workers := w.workers.erase worker }

def logged (j : Job) (text : Bytes) : Job :=
  let remaining := maxJobLogBytes - j.logBytes
  if 0 < remaining then
    { j with
      logs := j.logs ++ [text.take remaining]
      logBytes := j.logBytes + (text.take remaining).length
      logTruncated := j.logTruncated || remaining < text.length }
  else { j with logTruncated := true }

def finished (j : Job) (out : Bytes) (err : Option RunError) (now : Time) : Job :=
  { j with
    logTruncated := j.logTruncated || maxJobLogBytes < out.length
    finishedAt := some now
    input := []
    status := match err with
      | none => .succeeded
      | some error => if error.canceled then .canceled else .failed
    err := (err.map RunError.text).getD j.err
    output := if err = none then out.take maxJobLogBytes else j.output }

def finishRun (o : Options) (w : World) (worker id : String) (j : Job) (out : Bytes) (err : Option RunError)
    (now : Time) : World :=
  ended o { w with cancel := w.cancel.erase id, workers := w.workers.erase worker } id (finished j out err now)

def step (o : Options) (w : World) : Action → Option World
  | .submit id user executorID input blobRefs now =>
    if id ≠ "" ∧ id ∉ w.issued then
      some (submit { w with issued := insert id w.issued } id user executorID input blobRefs now)
    else none
  | .saved id ok =>
    match w.submissions.lookup id with
    | some (.saving j) =>
      some { w with submissions := w.submissions.insert id (if ok then .saved j else .unsaved j) }
    | _ => none
  | .drop id =>
    match w.submissions.lookup id with
    | some (.unsaved j) => some (drop w id j)
    | _ => none
  | .enqueue id =>
    match w.submissions.lookup id with
    | some (.saved j) => some (enqueue o w id j)
    | _ => none
  | .reject id =>
    match w.submissions.lookup id with
    | some (.full j) => some (reject o w id j)
    | _ => none
  | .cancel id now => some (cancel o w id now)
  | .take worker =>
    match w.workers.lookup worker, w.queue with
    | none, id :: queue => some { w with queue, workers := w.workers.insert worker (.taken id) }
    | _, _ => none
  | .start worker now =>
    match w.workers.lookup worker with
    | some (.taken id) => some (start w worker id now)
    | _ => none
  | .started worker =>
    match w.workers.lookup worker with
    | some (.saving id j) => some { w with workers := w.workers.insert worker (.running id j) }
    | _ => none
  | .chunk worker text =>
    match w.workers.lookup worker with
    | some (.running id j) =>
      let j := logged j text
      some { w with jobs := w.jobs.insert id j, workers := w.workers.insert worker (.running id j) }
    | _ => none
  | .finish worker out err now =>
    match w.workers.lookup worker with
    | some (.saving id j) => if err ≠ none then some (finishRun o w worker id j [] err now) else none
    | some (.running id j) => some (finishRun o w worker id j out err now)
    | _ => none

def jobFinishedAt (j : Job) : Time := j.finishedAt.getD (j.createdAt.getD 0)

def restarted (j : Job) (now : Time) : Job :=
  if terminal j.status then j
  else { j with status := .failed, err := "manager restarted before job completion", finishedAt := some now }

def listed (jobs : List Job) : Table Job := jobs.foldl (fun table j => table.insert j.id j) ∅

def opened (o : Options) (stored : List Job) (now : Time) : World :=
  let jobs := stored.map (restarted · now)
  let order := jobs.mergeSort fun a b => jobFinishedAt a ≤ jobFinishedAt b
  pruneLocked o ⟨listed jobs, ∅, ∅, [], order.map Job.id, ∅, ∅, (stored.map Job.id).toFinset⟩

variable {id : String} {j : Job}

theorem forget_lookup (jobs : Table Job) (ids : List String) (id : String) : (forget jobs ids).lookup id =
    if id ∈ ids ∧ (jobs.lookup id).any (fun j => terminal j.status) then none else jobs.lookup id := by
  induction ids generalizing jobs with
  | nil => rw [if_neg fun inside => not_mem_nil inside.1, forget]
  | cons first rest ih =>
    rw [forget, ih]
    by_cases same : id = first
    · subst same
      cases closed : (jobs.lookup id).any fun j => terminal j.status with
      | true => simp [AList.lookup_erase]
      | false => simp [closed]
    · have kept : (if (jobs.lookup first).any fun j => terminal j.status then jobs.erase first else jobs).lookup id =
          jobs.lookup id := by
        split
        · exact AList.lookup_erase_ne same
        · rfl
      rw [kept]
      simp only [mem_cons, same, false_or]

theorem forget_some {jobs : Table Job} {ids : List String} (found : (forget jobs ids).lookup id = some j) :
    jobs.lookup id = some j := by
  rw [forget_lookup] at found
  split at found
  · cases found
  · exact found

theorem ended_some {o : Options} {w : World} {other : String} {k : Job}
    (found : (ended o w id j).jobs.lookup other = some k) : other = id ∧ k = j ∨ w.jobs.lookup other = some k := by
  have kept := forget_some found
  rw [insert_lookup] at kept
  split at kept
  · next here => exact .inl ⟨here, (Option.some.inj kept).symm⟩
  · exact .inr kept

theorem listed_known (jobs : List Job) (table : Table Job)
    (found : (jobs.foldl (fun table j => table.insert j.id j) table).lookup id = some j) :
    id ∈ jobs.map Job.id ∨ table.lookup id = some j := by
  induction jobs generalizing table with
  | nil => exact .inr found
  | cons first rest ih =>
    rcases ih (table.insert first.id first) found with later | now
    · exact .inl (mem_cons_of_mem _ later)
    · rw [insert_lookup] at now
      split at now
      · next here => exact .inl (here ▸ mem_cons_self)
      · exact .inr now

structure Filed (w : World) : Prop where
  named : ∀ id j, w.jobs.lookup id = some j → j.id = id ∧ id ∈ w.issued ∧ (terminal j.status = false → id ≠ "")
  active : ∀ user id, w.running.lookup user = some id ↔
    ∃ j, w.jobs.lookup id = some j ∧ j.userID = user ∧ terminal j.status = false
  listed : ∀ id, id ∈ w.terminalOrder ↔ ∃ j, w.jobs.lookup id = some j ∧ terminal j.status
  once : w.terminalOrder.Nodup

section Pruning
variable {o : Options} {w : World}

theorem prune_lookup (filed : Filed w) (id : String) : (pruneLocked o w).jobs.lookup id =
    if id ∈ w.terminalOrder.take (w.terminalOrder.length - o.retainedJobs) then none else w.jobs.lookup id := by
  show (forget w.jobs _).lookup id = _
  rw [forget_lookup]
  refine if_congr (and_iff_left_of_imp fun inside => ?_) rfl rfl
  obtain ⟨j, stored, closed⟩ := (filed.listed id).mp (mem_of_mem_take inside)
  rw [stored]
  exact closed

theorem prune_some (filed : Filed w) (stored : (pruneLocked o w).jobs.lookup id = some j) :
    w.jobs.lookup id = some j := by
  rw [prune_lookup filed] at stored
  split at stored
  · cases stored
  · exact stored

theorem prune_live (filed : Filed w) (stored : w.jobs.lookup id = some j)
    (live : terminal j.status = false) : (pruneLocked o w).jobs.lookup id = some j := by
  rw [prune_lookup filed, if_neg]
  · exact stored
  · intro inside
    obtain ⟨other, found, closed⟩ := (filed.listed id).mp (mem_of_mem_take inside)
    cases stored.symm.trans found
    cases live.symm.trans closed

theorem prune_few (o : Options) (w : World) : (pruneLocked o w).terminalOrder.length ≤ o.retainedJobs := by
  show (w.terminalOrder.drop _).length ≤ _
  rw [length_drop]
  omega

theorem prune_filed (filed : Filed w) : Filed (pruneLocked o w) := by
  have parts := take_append_drop (w.terminalOrder.length - o.retainedJobs) w.terminalOrder
  have apart := filed.once
  rw [← parts] at apart
  constructor
  · exact fun id j stored => filed.named id j (prune_some filed stored)
  · intro user id
    refine (filed.active user id).trans ⟨?_, ?_⟩
    · rintro ⟨j, stored, ours, live⟩
      exact ⟨j, prune_live filed stored live, ours, live⟩
    · rintro ⟨j, stored, ours, live⟩
      exact ⟨j, prune_some filed stored, ours, live⟩
  · intro id
    constructor
    · intro inside
      obtain ⟨j, stored, closed⟩ := (filed.listed id).mp (mem_of_mem_drop inside)
      refine ⟨j, ?_, closed⟩
      rw [prune_lookup filed, if_neg]
      · exact stored
      · exact fun taken => disjoint_of_nodup_append apart taken inside
    · rintro ⟨j, stored, closed⟩
      have kept := prune_some filed stored
      have member := (filed.listed id).mpr ⟨j, kept, closed⟩
      rw [← parts] at member
      rcases mem_append.mp member with taken | left
      · rw [prune_lookup filed, if_pos taken] at stored
        cases stored
      · exact left
  · exact apart.of_append_right

theorem filed_goes_on (filed : Filed w) {before : Job} (stored : w.jobs.lookup id = some before)
    (live : terminal before.status = false) (named : j.id = id) (same : j.userID = before.userID)
    (lives : terminal j.status = false) : Filed { w with jobs := w.jobs.insert id j } := by
  constructor
  · intro other k found
    change (w.jobs.insert id j).lookup other = some k at found
    rw [insert_lookup] at found
    split at found
    · next here =>
      cases found
      subst here
      obtain ⟨_, issued, proper⟩ := filed.named other before stored
      exact ⟨named, issued, fun _ => proper live⟩
    · exact filed.named other k found
  · intro user other
    refine (filed.active user other).trans ?_
    show _ ↔ ∃ k, (w.jobs.insert id j).lookup other = some k ∧ _
    rw [insert_lookup]
    split
    · next here =>
      subst here
      rw [stored]
      constructor
      · rintro ⟨k, ⟨⟩, ours, _⟩
        exact ⟨j, rfl, same.trans ours, lives⟩
      · rintro ⟨k, ⟨⟩, ours, _⟩
        exact ⟨before, rfl, same.symm.trans ours, live⟩
    · rfl
  · intro other
    refine (filed.listed other).trans ?_
    show _ ↔ ∃ k, (w.jobs.insert id j).lookup other = some k ∧ _
    rw [insert_lookup]
    split
    · next here =>
      subst here
      rw [stored]
      constructor
      · rintro ⟨k, ⟨⟩, closed⟩
        cases live.symm.trans closed
      · rintro ⟨k, ⟨⟩, closed⟩
        cases lives.symm.trans closed
    · rfl
  · exact filed.once

theorem filed_ends (filed : Filed w) {id : String} {before j : Job} (stored : w.jobs.lookup id = some before)
    (live : terminal before.status = false) (named : j.id = id) (same : j.userID = before.userID)
    (ends : terminal j.status) : Filed { w with
      jobs := w.jobs.insert id j
      running := w.running.erase j.userID
      terminalOrder := w.terminalOrder ++ [id] } := by
  have has : w.running.lookup before.userID = some id := (filed.active before.userID id).mpr ⟨before, stored, rfl, live⟩
  have absent : id ∉ w.terminalOrder := by
    intro member
    obtain ⟨k, found, closed⟩ := (filed.listed id).mp member
    cases stored.symm.trans found
    cases live.symm.trans closed
  constructor
  · intro other k found
    change (w.jobs.insert id j).lookup other = some k at found
    rw [insert_lookup] at found
    split at found
    · next here =>
      cases found
      subst here
      refine ⟨named, (filed.named other before stored).2.1, fun lives => ?_⟩
      cases ends.symm.trans lives
    · exact filed.named other k found
  · intro user other
    show (w.running.erase j.userID).lookup user = some other ↔ ∃ k, (w.jobs.insert id j).lookup other = some k ∧ _
    rw [erase_lookup, insert_lookup, same]
    split
    · next ours =>
      subst ours
      refine iff_of_false nofun ?_
      rintro ⟨k, found, theirs, lives⟩
      split at found
      · cases found
        cases ends.symm.trans lives
      · next apart =>
        have again := (filed.active before.userID other).mpr ⟨k, found, theirs, lives⟩
        exact apart (Option.some.inj (again.symm.trans has))
    · next others =>
      refine (filed.active user other).trans ?_
      split
      · next here =>
        subst here
        rw [stored]
        constructor
        · rintro ⟨k, ⟨⟩, ours, _⟩
          exact absurd ours.symm others
        · rintro ⟨k, ⟨⟩, _, lives⟩
          cases ends.symm.trans lives
      · rfl
  · intro other
    show other ∈ w.terminalOrder ++ [id] ↔ ∃ k, (w.jobs.insert id j).lookup other = some k ∧ _
    rw [mem_append, mem_singleton, insert_lookup]
    split
    · next here => exact iff_of_true (.inr here) ⟨j, rfl, ends⟩
    · next apart => exact (or_iff_left apart).trans (filed.listed other)
  · exact nodup_append.mpr ⟨filed.once, nodup_singleton id, fun other member last inside => by
      rw [mem_singleton] at inside
      rintro rfl
      subst inside
      exact absent member⟩

theorem filed_publish (filed : Filed w) {user : String} (fresh : w.jobs.lookup id = none)
    (issued : id ∈ w.issued) (proper : id ≠ "") (free : w.running.lookup user = none) (named : j.id = id)
    (ours : j.userID = user) (lives : terminal j.status = false) :
    Filed { w with jobs := w.jobs.insert id j, running := w.running.insert user id } := by
  have absent : id ∉ w.terminalOrder := by
    intro member
    obtain ⟨k, found, _⟩ := (filed.listed id).mp member
    cases fresh.symm.trans found
  constructor
  · intro other k found
    change (w.jobs.insert id j).lookup other = some k at found
    rw [insert_lookup] at found
    split at found
    · next here =>
      cases found
      subst here
      exact ⟨named, issued, fun _ => proper⟩
    · exact filed.named other k found
  · intro asked other
    show (w.running.insert user id).lookup asked = some other ↔ ∃ k, (w.jobs.insert id j).lookup other = some k ∧ _
    rw [insert_lookup, insert_lookup]
    split
    · next same =>
      subst same
      split
      · next here => exact iff_of_true (congrArg some here.symm) ⟨j, rfl, ours, lives⟩
      · next apart =>
        refine iff_of_false (fun equal => apart (Option.some.inj equal).symm) ?_
        rintro ⟨k, found, theirs, live⟩
        cases free.symm.trans ((filed.active asked other).mpr ⟨k, found, theirs, live⟩)
    · next others =>
      refine (filed.active asked other).trans ?_
      split
      · next here =>
        subst here
        rw [fresh]
        constructor
        · rintro ⟨k, ⟨⟩, _⟩
        · rintro ⟨k, ⟨⟩, theirs, _⟩
          exact absurd (theirs.symm.trans ours) others
      · rfl
  · intro other
    refine (filed.listed other).trans ?_
    show _ ↔ ∃ k, (w.jobs.insert id j).lookup other = some k ∧ _
    rw [insert_lookup]
    split
    · next here =>
      subst here
      rw [fresh]
      constructor
      · rintro ⟨k, ⟨⟩, _⟩
      · rintro ⟨k, ⟨⟩, closed⟩
        cases lives.symm.trans closed
    · rfl
  · exact filed.once

theorem filed_drop (filed : Filed w) {user : String} {before : Job} (stored : w.jobs.lookup id = some before)
    (live : terminal before.status = false) (ours : before.userID = user) :
    Filed { w with jobs := w.jobs.erase id, running := w.running.erase user } := by
  have has : w.running.lookup user = some id := (filed.active user id).mpr ⟨before, stored, ours, live⟩
  constructor
  · exact fun other k found => filed.named other k (ControlPlane.lookup_of_erase found)
  · intro asked other
    show (w.running.erase user).lookup asked = some other ↔ ∃ k, (w.jobs.erase id).lookup other = some k ∧ _
    rw [erase_lookup, erase_lookup]
    split
    · next same =>
      subst same
      refine iff_of_false nofun ?_
      rintro ⟨k, found, theirs, lives⟩
      split at found
      · cases found
      · next apart =>
        exact apart (Option.some.inj (((filed.active asked other).mpr ⟨k, found, theirs, lives⟩).symm.trans has))
    · next others =>
      refine (filed.active asked other).trans ?_
      split
      · next here =>
        subst here
        rw [stored]
        constructor
        · rintro ⟨k, ⟨⟩, theirs, _⟩
          exact absurd (theirs.symm.trans ours) others
        · rintro ⟨k, ⟨⟩, _⟩
      · rfl
  · intro other
    refine (filed.listed other).trans ?_
    show _ ↔ ∃ k, (w.jobs.erase id).lookup other = some k ∧ _
    rw [erase_lookup]
    split
    · next here =>
      subst here
      rw [stored]
      constructor
      · rintro ⟨k, ⟨⟩, closed⟩
        cases live.symm.trans closed
      · rintro ⟨k, ⟨⟩, _⟩
    · rfl
  · exact filed.once

end Pruning

end PieRelay.JobTable
