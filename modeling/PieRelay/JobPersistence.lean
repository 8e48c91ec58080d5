import PieRelay.JobConsistency
import PieRelay.JobRuns

/-!
What the store has of a manager's jobs. Each critical section of manager.go that changes the jobs is followed by the
writes of its handler, `SaveJob` of its own copy and then `deleteJobs` of what `pruneLocked` has removed, when the lock
is free again; every write is a step of its own. The store takes every write. Left out: the executor that `finishRun`
may save.
-/
namespace PieRelay.JobPersistence
open List Option
open ControlPlane (Table insert_lookup erase_lookup)
open Executions
open JobRuns (Named Steady holds_of logged_status step_enters step_named step_steady)
open JobTable
open JsonScanner (Bytes)
open RoomRegistry (Time)

inductive Write where
  | save (j : Job)
  | delete (id : String)
  deriving DecidableEq

def Write.id : Write → String
  | .save j => j.id
  | .delete id => id

def Write.status : Write → Option JobStatus
  | .save j => some j.status
  | .delete _ => none

inductive Writer where
  | submission (id : String)
  | worker (name : String)
  | canceling (call : Nat)
  deriving DecidableEq

structure Stored where
  world : World
  store : Table Job
  pending : List (Writer × Write)
  calls : Nat

def perform (store : Table Job) : Write → Table Job
  | .save j => store.insert j.id j
  | .delete id => store.erase id

def removed (jobs : Table Job) : List String → List String
  | [] => []
  | id :: rest =>
    if (jobs.lookup id).any fun j => terminal j.status then id :: removed (jobs.erase id) rest else removed jobs rest

def endedWrites (o : Options) (w : World) (id : String) (j : Job) : List Write :=
  let order := w.terminalOrder ++ [id]
  .save j :: (removed (w.jobs.insert id j) (order.take (order.length - o.retainedJobs))).map .delete

def writes (o : Options) (calls : Nat) (before after : World) : Action → List (Writer × Write)
  | .submit id _ _ _ _ _ =>
    match after.submissions.lookup id with
    | some (.saving j) => [(.submission id, .save j)]
    | _ => []
  | .reject id =>
    match before.submissions.lookup id with
    | some (.full j) => (endedWrites o before j.id { j with status := .rejected, err := "executor queue is full" }).map
        fun write => (.submission id, write)
    | _ => []
  | .cancel id now =>
    match before.jobs.lookup id with
    | some j =>
      if terminal j.status ∨ id ∈ before.cancel then []
      else (endedWrites o before id { j with status := .canceled, finishedAt := some now }).map
        fun write => (.canceling calls, write)
    | none => []
  | .start worker _ =>
    match after.workers.lookup worker with
    | some (.saving _ j) => [(.worker worker, .save j)]
    | _ => []
  | .finish worker out err now =>
    match before.workers.lookup worker with
    | some (.running id j) =>
      (endedWrites o before id (finished j out err now)).map fun write => (.worker worker, write)
    | _ => []
  | _ => []

inductive Step where
  | manager (action : Action)
  | write (writer : Writer)
  deriving DecidableEq

def writing (s : Stored) (writer : Writer) : Bool := s.pending.any fun write => write.1 = writer

def ready (s : Stored) : Action → Bool
  | .saved id ok => ok && !writing s (.submission id)
  | .take worker => !writing s (.worker worker)
  | .started worker => !writing s (.worker worker)
  | .finish worker _ _ _ => (s.world.workers.lookup worker).any fun work => match work with
    | .running _ _ => true
    | _ => false
  | _ => true

def step (o : Options) (s : Stored) : Step → Option Stored
  | .manager action =>
    if ready s action then (JobTable.step o s.world action).map fun world => { s with
      world
      pending := s.pending ++ writes o s.calls s.world world action
      calls := s.calls + 1 }
    else none
  | .write writer => (s.pending.find? fun write => write.1 = writer).map fun write => { s with
    store := perform s.store write.2
    pending := s.pending.eraseP fun write => write.1 = writer }

def inOrder (s : Stored) : Step → Bool
  | .manager _ => true
  | .write writer => (s.pending.find? fun write => write.1 = writer).all fun write =>
    (s.pending.takeWhile fun other => other.1 ≠ writer).all fun other => other.2.id ≠ write.2.id

def reopened (o : Options) (stored : List Job) (now : Time) : Stored :=
  let jobs := stored.map (restarted · now)
  let order := (jobs.mergeSort fun a b => jobFinishedAt a ≤ jobFinishedAt b).map Job.id
  let saves := (stored.filter fun j => !terminal j.status).map fun j => Write.save (restarted j now)
  let deletes := (removed (listed jobs) (order.take (order.length - o.retainedJobs))).map Write.delete
  ⟨opened o stored now, (saves ++ deletes).foldl perform (listed stored), [], 0⟩

def lastly (id : String) (writes : List Write) (status : Option JobStatus) : Option JobStatus :=
  writes.foldl (fun now write => if write.id = id then write.status else now) status

def statusIn (jobs : Table Job) (id : String) : Option JobStatus := (jobs.lookup id).map Job.status

section Writes
variable {id : String}

theorem lastly_append (first second : List Write) (status : Option JobStatus) :
    lastly id (first ++ second) status = lastly id second (lastly id first status) := foldl_append

theorem lastly_other {writes : List Write} (others : ∀ write ∈ writes, write.id ≠ id) (status : Option JobStatus) :
    lastly id writes status = status := by
  induction writes generalizing status with
  | nil => rfl
  | cons write writes ih =>
    rw [lastly, foldl_cons, if_neg (others write mem_cons_self)]
    exact ih (fun other member => others other (mem_cons_of_mem write member)) status

theorem perform_status (store : Table Job) (write : Write) (id : String) :
    statusIn (perform store write) id = if write.id = id then write.status else statusIn store id := by
  cases write with
  | save j =>
    show ((store.insert j.id j).lookup id).map Job.status = if j.id = id then some j.status else statusIn store id
    rw [insert_lookup]
    split
    · next same =>
      rw [if_pos same.symm]
      rfl
    · next apart =>
      rw [if_neg fun same => apart same.symm]
      rfl
  | delete gone =>
    show ((store.erase gone).lookup id).map Job.status = if gone = id then none else statusIn store id
    rw [erase_lookup]
    split
    · next same =>
      rw [if_pos same.symm]
      rfl
    · next apart =>
      rw [if_neg fun same => apart same.symm]
      rfl

theorem performed_status (store : Table Job) (writes : List Write) (id : String) :
    statusIn (writes.foldl perform store) id = lastly id writes (statusIn store id) := by
  induction writes generalizing store with
  | nil => rfl
  | cons write writes ih => rw [foldl_cons, ih, perform_status, lastly, lastly, foldl_cons]

theorem write_first {before after : List Write} {write : Write} (others : ∀ other ∈ before, other.id ≠ write.id)
    (status : Option JobStatus) : lastly id (before ++ after) (if write.id = id then write.status else status) =
      lastly id (before ++ write :: after) status := by
  rw [lastly_append, lastly_append]
  by_cases here : write.id = id
  · subst here
    rw [if_pos rfl, lastly_other others, lastly_other others]
    conv_rhs => rw [lastly, foldl_cons, if_pos rfl]
    rfl
  · rw [if_neg here]
    conv_rhs => rw [lastly, foldl_cons, if_neg here]
    rfl

theorem removed_forget (jobs : Table Job) (ids : List String) (id : String) :
    lastly id ((removed jobs ids).map .delete) (statusIn jobs id) = statusIn (forget jobs ids) id := by
  induction ids generalizing jobs with
  | nil => rfl
  | cons first rest ih =>
    rw [removed, forget]
    split
    · rw [← ih, map_cons]
      conv_lhs => rw [lastly, foldl_cons]
      have gone := perform_status jobs (.delete first) id
      rw [← gone]
      rfl
    · exact ih jobs

theorem ended_status (o : Options) {w v : World} {id : String} {j : Job} (named : j.id = id) (jobs : v.jobs = w.jobs)
    (order : v.terminalOrder = w.terminalOrder) (other : String) :
    lastly other (endedWrites o w id j) (statusIn w.jobs other) = statusIn (ended o v id j).jobs other := by
  have saved := perform_status w.jobs (.save j) other
  have after : statusIn (perform w.jobs (.save j)) other = statusIn (w.jobs.insert id j) other := by
    rw [perform, named]
  rw [endedWrites, lastly, foldl_cons, ← saved, after]
  have pruned := removed_forget (w.jobs.insert id j)
    ((w.terminalOrder ++ [id]).take ((w.terminalOrder ++ [id]).length - o.retainedJobs)) other
  rw [ended, jobs, order]
  exact pruned

end Writes

def succeeds (w : World) : Action → Bool
  | .saved _ ok => ok
  | .finish worker _ _ _ => (w.workers.lookup worker).any fun work => match work with
    | .running _ _ => true
    | _ => false
  | _ => true

structure Held (w : World) : Prop where
  steady : Steady w
  named : Named w
  saved : ∀ id s, w.submissions.lookup id = some s → ∀ j, s ≠ .unsaved j

section Holders
variable {o : Options} {w : World}
variable {id worker : String} {j : Job} {v : World}

theorem held_step (held : Held w) {action : Action} {next : World} (fine : succeeds w action)
    (stepped : JobTable.step o w action = some next) : Held next := by
  refine ⟨step_steady held.steady stepped, step_named held.steady held.named stepped, fun id s there => ?_⟩
  cases step_enters stepped there with
  | stays before => exact held.saved id s before
  | fresh _ saving =>
    rw [saving]
    exact fun _ absurd => by cases absurd
  | @saved _ ok _ same =>
    rw [same, if_pos (show ok from fine)]
    exact fun _ absurd => by cases absurd
  | full _ same =>
    rw [same]
    exact fun _ absurd => by cases absurd

/-- The writes of a step bring a job's status to what the step has made of it. -/
theorem writes_jobs (held : Held w) {action : Action} {next : World} (calls : Nat) (fine : succeeds w action)
    (stepped : JobTable.step o w action = some next) (id : String) :
    lastly id ((writes o calls w next action).map Prod.snd) (statusIn w.jobs id) = statusIn next.jobs id := by
  have pairs (writer : Writer) (list : List Write) : (list.map fun write => (writer, write)).map Prod.snd = list := by
    rw [List.map_map]
    exact map_id list
  have inserted {mine : String} {j : Job} (named : j.id = mine) :
      lastly id [.save j] (statusIn w.jobs id) = statusIn (w.jobs.insert mine j) id := by
    have done := perform_status w.jobs (.save j) id
    rw [perform, named] at done
    exact done.symm
  cases action with
  | submit mine user executorID input blobRefs now =>
    dsimp only [JobTable.step] at stepped
    split at stepped
    · next fresh =>
      cases stepped
      have absent : w.submissions.lookup mine = none := by
        by_contra present
        obtain ⟨s, there⟩ := ne_none_iff_exists'.mp present
        exact fresh.2 (held.steady.submits mine s there).issued
      by_cases busy : (w.running.lookup user).any (· ≠ "")
      · have still : submit { w with issued := insert mine w.issued } mine user executorID input blobRefs now =
            { w with issued := insert mine w.issued } := if_pos busy
        rw [writes, still, absent]
        rfl
      · have published : submit { w with issued := insert mine w.issued } mine user executorID input blobRefs now = _ :=
          if_neg busy
        rw [writes, published, AList.lookup_insert]
        exact inserted rfl
    · cases stepped
  | saved | take | started =>
    dsimp only [JobTable.step] at stepped
    split at stepped
    · cases stepped
      rfl
    · cases stepped
  | drop mine =>
    dsimp only [JobTable.step] at stepped
    split at stepped
    · next j here => exact absurd rfl (held.saved mine _ here j)
    · cases stepped
  | enqueue =>
    dsimp only [JobTable.step] at stepped
    split at stepped
    · cases stepped
      unfold enqueue
      split <;> rfl
    · cases stepped
  | reject =>
    dsimp only [JobTable.step] at stepped
    split at stepped
    · next here =>
      cases stepped
      rw [writes, here]
      dsimp only
      rw [pairs]
      exact ended_status o rfl rfl rfl id
    · cases stepped
  | cancel mine now =>
    cases stepped
    cases stored : w.jobs.lookup mine with
    | none =>
      have same : cancel o w mine now = w := by rw [cancel, stored]
      rw [same, writes, stored]
      rfl
    | some j =>
      by_cases stopped : terminal j.status ∨ mine ∈ w.cancel
      · have same : cancel o w mine now = w := by
          rw [cancel, stored]
          exact if_pos stopped
        rw [same, writes, stored]
        dsimp only
        rw [if_pos stopped]
        rfl
      · have ends : cancel o w mine now = ended o w mine { j with status := .canceled, finishedAt := some now } := by
          rw [cancel, stored]
          exact if_neg stopped
        rw [ends, writes, stored]
        dsimp only
        rw [if_neg stopped, pairs]
        refine ended_status o ?_ rfl rfl id
        exact held.named mine j stored
  | start worker now =>
    dsimp only [JobTable.step] at stepped
    split at stepped
    · next mine here =>
      cases stepped
      cases found : (w.jobs.lookup mine).filter fun j => j.status = .queued with
      | none =>
        have gone : start w worker mine now = { w with workers := w.workers.erase worker } := by rw [start, found]
        rw [gone, writes, AList.lookup_erase]
        rfl
      | some j =>
        obtain ⟨stored, _⟩ := filter_eq_some_iff.mp found
        have runs : start w worker mine now = { w with
            jobs := w.jobs.insert mine { j with status := .running, startedAt := some now }
            running := w.running.insert j.userID mine
            cancel := insert mine w.cancel
            workers := w.workers.insert worker (.saving mine { j with status := .running, startedAt := some now }) } := by
          rw [start, found]
        rw [runs, writes, AList.lookup_insert]
        exact inserted (held.named mine j stored)
    · cases stepped
  | chunk worker text =>
    dsimp only [JobTable.step] at stepped
    split at stepped
    · next mine j here =>
      cases stepped
      obtain ⟨_, _, stored⟩ := held.steady.held worker mine j (holds_of here)
      show statusIn w.jobs id = statusIn (w.jobs.insert mine (logged j text)) id
      rw [statusIn, statusIn, insert_lookup]
      split
      · next same =>
        rw [same, stored, map_some, map_some, logged_status]
      · rfl
    · cases stepped
  | finish worker =>
    dsimp only [JobTable.step] at stepped
    split at stepped
    · next here =>
      rw [succeeds, here] at fine
      cases fine
    · next mine j here =>
      cases stepped
      rw [writes, here]
      dsimp only
      rw [pairs]
      refine ended_status o ?_ rfl rfl id
      exact held.named mine j (held.steady.held worker mine j (holds_of here)).2.2
    · cases stepped

end Holders

structure Kept (s : Stored) : Prop where
  held : Held s.world
  statuses : ∀ id, lastly id (s.pending.map Prod.snd) (statusIn s.store id) = statusIn s.world.jobs id

theorem first_write {pending : List (Writer × Write)} {writer : Writer} {write : Writer × Write}
    (first : pending.find? (fun write => write.1 = writer) = some write) :
    ∃ before after, pending = before ++ write :: after ∧ pending.takeWhile (fun other => other.1 ≠ writer) = before ∧
      pending.eraseP (fun write => write.1 = writer) = before ++ after := by
  obtain ⟨mine, before, after, rfl, others⟩ := find?_eq_some_iff_append.mp first
  have apart : ∀ other ∈ before, decide (other.1 ≠ writer) := by
    intro other member
    simpa using others other member
  refine ⟨before, after, rfl, ?_, ?_⟩
  · rw [takeWhile_append_of_pos apart, takeWhile_cons_of_neg (by simpa using mine), append_nil]
  · have erased : (write :: after).eraseP (fun write => decide (write.1 = writer)) = after := eraseP_cons_of_pos mine
    rw [eraseP_append_right _ fun other member => by simpa using others other member, erased]

theorem kept_step {o : Options} {s next : Stored} {action : Step} (kept : Kept s) (ordered : inOrder s action)
    (stepped : step o s action = some next) : Kept next := by
  cases action with
  | manager action =>
    dsimp only [step] at stepped
    split at stepped
    · next able =>
      obtain ⟨world, moved, rfl⟩ := map_eq_some_iff.mp stepped
      have fine : succeeds s.world action := by
        cases action with
        | saved => exact (Bool.and_eq_true_iff.mp able).1
        | finish => exact able
        | _ => rfl
      refine ⟨held_step kept.held fine moved, fun id => ?_⟩
      rw [map_append, lastly_append, kept.statuses id]
      exact writes_jobs kept.held s.calls fine moved id
    · cases stepped
  | write =>
    obtain ⟨write, first, rfl⟩ := map_eq_some_iff.mp stepped
    obtain ⟨before, after, all, ahead, rest⟩ := first_write first
    have others : ∀ other ∈ before.map Prod.snd, other.id ≠ write.2.id := by
      intro other member
      obtain ⟨pair, inside, rfl⟩ := mem_map.mp member
      rw [inOrder, first, ahead] at ordered
      exact of_decide_eq_true (all_eq_true.mp ordered pair inside)
    refine ⟨kept.held, fun id => ?_⟩
    have before' := kept.statuses id
    rw [all, map_append, map_cons] at before'
    rw [rest, map_append, perform_status, write_first others]
    exact before'

def outcome (status : JobStatus) : JobStatus := if terminal status then status else .failed

theorem restarted_status (j : Job) (now : Time) : (restarted j now).status = outcome j.status := by
  unfold restarted outcome
  split <;> rfl

structure Lists (store : Table Job) (jobs : List Job) : Prop where
  distinct : (jobs.map Job.id).Nodup
  all : ∀ id j, store.lookup id = some j ↔ j ∈ jobs ∧ j.id = id

theorem restarted_listed {store : Table Job} {jobs : List Job} (lists : Lists store jobs) (now : Time) (id : String) :
    statusIn (listed (jobs.map (restarted · now))) id = (statusIn store id).map outcome := by
  have ids : (jobs.map (restarted · now)).map Job.id = jobs.map Job.id := by
    rw [List.map_map]
    exact map_congr_left fun j _ => JobConsistency.restarted_id j now
  have found := JobConsistency.listed_lookup (jobs.map (restarted · now)) (ids ▸ lists.distinct) id
  cases there : store.lookup id with
  | none =>
    have absent : (listed (jobs.map (restarted · now))).lookup id = none := by
      by_contra present
      obtain ⟨k, stored⟩ := ne_none_iff_exists'.mp present
      obtain ⟨member, named⟩ := (found k).mp stored
      obtain ⟨j, inside, rfl⟩ := mem_map.mp member
      cases there.symm.trans ((lists.all id j).mpr ⟨inside, (JobConsistency.restarted_id j now).symm.trans named⟩)
    rw [statusIn, statusIn, absent, there]
    rfl
  | some j =>
    obtain ⟨inside, named⟩ := (lists.all id j).mp there
    have stored : (listed (jobs.map (restarted · now))).lookup id = some (restarted j now) :=
      (found _).mpr ⟨mem_map_of_mem inside, (JobConsistency.restarted_id j now).trans named⟩
    rw [statusIn, statusIn, stored, there, map_some, map_some, map_some, restarted_status]

theorem listed_lists {jobs : List Job} (distinct : (jobs.map Job.id).Nodup) : Lists (listed jobs) jobs :=
  ⟨distinct, JobConsistency.listed_lookup jobs distinct⟩

theorem lastly_same {id : String} {writes : List Write} {value : Option JobStatus}
    (same : ∀ write ∈ writes, write.id = id → write.status = value) (status : Option JobStatus) :
    lastly id writes status = if ∃ write ∈ writes, write.id = id then value else status := by
  induction writes generalizing status with
  | nil => simp [lastly]
  | cons write writes ih =>
    have later := ih fun other member => same other (mem_cons_of_mem write member)
    rw [lastly, foldl_cons]
    by_cases here : write.id = id
    · rw [if_pos here, same write mem_cons_self here, if_pos ⟨write, mem_cons_self, here⟩]
      refine (later value).trans ?_
      split <;> rfl
    · rw [if_neg here]
      refine (later status).trans (if_congr ?_ rfl rfl)
      simp [here]

theorem reopened_kept (o : Options) {stored : List Job} (now : Time) (distinct : (stored.map Job.id).Nodup) :
    Kept (reopened o stored now) := by
  have named : Named (opened o stored now) := fun id j there =>
    ((JobConsistency.opened_sound o stored now distinct).named id j there).1
  refine ⟨⟨JobRuns.opened_steady o stored now, named, fun _ _ absurd => by cases absurd⟩, fun id => ?_⟩
  have lists := listed_lists distinct
  have saved : lastly id ((stored.filter fun j => !terminal j.status).map fun j => .save (restarted j now))
      (statusIn (listed stored) id) = statusIn (listed (stored.map (restarted · now))) id := by
    rw [restarted_listed lists, @lastly_same id _ ((statusIn (listed stored) id).map outcome)]
    · split
      · rfl
      · next unsaved =>
        cases there : (listed stored).lookup id with
        | none => rw [statusIn, there]; rfl
        | some j =>
          obtain ⟨inside, named⟩ := (lists.all id j).mp there
          have closed : terminal j.status := by
            by_contra live
            refine unsaved ⟨.save (restarted j now), mem_map_of_mem (mem_filter.mpr ⟨inside, ?_⟩), ?_⟩
            · simpa using live
            · exact (JobConsistency.restarted_id j now).trans named
          rw [statusIn, there, map_some, map_some, outcome, if_pos closed]
    · intro write member here
      obtain ⟨j, inside, rfl⟩ := mem_map.mp member
      have named : j.id = id := (JobConsistency.restarted_id j now).symm.trans here
      have there := (lists.all id j).mpr ⟨(mem_filter.mp inside).1, named⟩
      rw [statusIn, there, map_some, map_some, ← restarted_status j now]
      rfl
  show statusIn (reopened o stored now).store id = statusIn (reopened o stored now).world.jobs id
  unfold reopened
  dsimp only
  rw [performed_status, lastly_append, saved]
  exact removed_forget _ _ id

/-- When no write is left to come, the store has the jobs of the table with their statuses, and a manager that starts
    from it reports those and no others: what had ended as it ended, the rest as failed, and all of them where they are
    no more than it retains. -/
theorem jobs_persisted (o : Options) (stored : List Job) (now : Time) (distinct : (stored.map Job.id).Nodup)
    {actions : List Step} {s : Stored}
    (ordered : Guarded (step o) (fun s action => inOrder s action) (reopened o stored now) actions)
    (ran : run (step o) (reopened o stored now) actions = some s) (quiet : s.pending = []) :
    (∀ id, statusIn s.store id = statusIn s.world.jobs id) ∧ ∀ jobs later, Lists s.store jobs →
        (∀ id, statusIn (opened o jobs later).jobs id = none ∨
          statusIn (opened o jobs later).jobs id = (statusIn s.world.jobs id).map outcome) ∧
        (jobs.length ≤ o.retainedJobs → ∀ id,
          statusIn (opened o jobs later).jobs id = (statusIn s.world.jobs id).map outcome) := by
  have kept : Kept s := guarded_run_invariant Kept (fun _ _ _ guard kept stepped => kept_step kept guard stepped)
    ordered ran (reopened_kept o now distinct)
  have same : ∀ id, statusIn s.store id = statusIn s.world.jobs id := by
    intro id
    have last := kept.statuses id
    rw [quiet] at last
    exact last
  refine ⟨same, fun jobs later lists => ⟨fun id => ?_, fun few id => ?_⟩⟩
  · rw [← same id, ← restarted_listed lists later id]
    show ((forget _ _).lookup id).map Job.status = none ∨ ((forget _ _).lookup id).map Job.status = _
    rw [forget_lookup]
    split
    · exact .inl rfl
    · exact .inr rfl
  · rw [← same id, ← restarted_listed lists later id]
    have none_ : (((jobs.map (restarted · later)).mergeSort fun a b => jobFinishedAt a ≤ jobFinishedAt b).map Job.id).length -
        o.retainedJobs = 0 := by
      rw [length_map, length_mergeSort, length_map]
      omega
    show ((forget _ (take _ _)).lookup id).map Job.status = _
    rw [none_]
    rfl

def served : List Step :=
  [.manager (.submit "job-1" "ada" "executor-ada" [49] [] 1), .write (.submission "job-1"),
    .manager (.saved "job-1" true), .manager (.enqueue "job-1"), .manager (.take "worker"), .manager (.start "worker" 2),
    .write (.worker "worker"), .manager (.started "worker"), .manager (.chunk "worker" [104, 105]),
    .manager (.submit "job-2" "grace" "executor-grace" [50] [] 3), .write (.submission "job-2"),
    .manager (.saved "job-2" true), .manager (.enqueue "job-2"), .manager (.finish "worker" [111, 107] none 4),
    .manager (.cancel "job-2" 5), .write (.worker "worker"), .write (.canceling 11), .write (.canceling 11)]

theorem served_persisted : ∃ s, run (step JobConsistency.small) (reopened JobConsistency.small [] 0) served = some s ∧
    statusIn s.store "job-1" = none ∧ statusIn s.store "job-2" = some .canceled ∧
    (∀ id, statusIn s.store id = statusIn s.world.jobs id) ∧ ∀ jobs later, Lists s.store jobs →
        (∀ id, statusIn (opened JobConsistency.small jobs later).jobs id = none ∨
          statusIn (opened JobConsistency.small jobs later).jobs id = (statusIn s.world.jobs id).map outcome) ∧
        (jobs.length ≤ 1 → ∀ id,
          statusIn (opened JobConsistency.small jobs later).jobs id = (statusIn s.world.jobs id).map outcome) := by
  obtain ⟨s, ran, left⟩ := map_eq_some_iff.mp
    (show (run (step JobConsistency.small) (reopened JobConsistency.small [] 0) served).map (fun s =>
        (s.pending, statusIn s.store "job-1", statusIn s.store "job-2")) = some ([], none, some .canceled) by decide +kernel)
  simp only [Prod.mk.injEq] at left
  obtain ⟨quiet, first, second⟩ := left
  have ordered : Guarded (step JobConsistency.small) (fun s action => inOrder s action)
      (reopened JobConsistency.small [] 0) served :=
    checked_guarded inOrder (fun _ _ passed => passed) _ served (by decide +kernel)
  exact ⟨s, ran, first, second, jobs_persisted JobConsistency.small [] 0 nodup_nil ordered ran quiet⟩

def overtaken : List Step :=
  [.manager (.submit "job-1" "ada" "executor-ada" [49] [] 1), .manager (.cancel "job-1" 2), .write (.canceling 1),
    .write (.submission "job-1"), .manager (.saved "job-1" true), .manager (.enqueue "job-1"), .manager (.take "worker"),
    .manager (.start "worker" 3)]

def revived : List Step :=
  [.manager (.submit "job-1" "ada" "executor-ada" [49] [] 1), .write (.submission "job-1"),
    .manager (.saved "job-1" true), .manager (.enqueue "job-1"), .manager (.submit "job-2" "grace" "executor-grace" [50] [] 2),
    .write (.submission "job-2"), .manager (.saved "job-2" true), .manager (.cancel "job-1" 3),
    .manager (.enqueue "job-2"), .manager (.reject "job-2"), .write (.submission "job-2"), .write (.submission "job-2"),
    .write (.canceling 5), .manager (.take "worker"), .manager (.start "worker" 4)]

/-- No handler is under way, and the store has a job that was cancelled as one in the queue; or it has one that was
    pruned. -/
theorem jobs_diverge : (run (step JobConsistency.small) (reopened JobConsistency.small [] 0) overtaken).map (fun s =>
        (s.pending.isEmpty, s.world.submissions.entries.length, s.world.workers.entries.length,
          statusIn s.world.jobs "job-1", statusIn s.store "job-1")) =
      some (true, 0, 0, some .canceled, some .queued) ∧
    (run (step JobConsistency.small) (reopened JobConsistency.small [] 0) revived).map (fun s =>
        (s.pending.isEmpty, s.world.submissions.entries.length, s.world.workers.entries.length,
          statusIn s.world.jobs "job-1", statusIn s.store "job-1")) =
      some (true, 0, 0, none, some .canceled) := by
  constructor <;> decide +kernel

end PieRelay.JobPersistence
