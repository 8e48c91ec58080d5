import PieRelay.JobRuns

/-!
`Cancel` beside the worker that runs the job, executor-manager/internal/manager/manager.go: `Cancel`, and `run` from the
end of the runtime on, which looks at its context once and then publishes the result. Everything else is as in `JobTable`.
The runtime, its output and its error are any.
-/
namespace PieRelay.JobCancellation
open Option
open ControlPlane (Table insert_lookup erase_lookup)
open Executions
open JobRuns (Steady holds holds_of logged_status step_comes step_frame step_holds step_steady workerOf)
open JobTable (Job JobStatus Options RunError Work terminal)
open JsonScanner (Bytes)
open RoomRegistry (Time)

inductive ContextError where
  | canceled
  | deadlineExceeded
  deriving DecidableEq

structure Failure where
  canceled : Bool
  deadline : Bool
  text : String
  deriving DecidableEq

inductive Result where
  | returned (out : Bytes) (err : Option Failure)
  | checked (out : Bytes) (err : Option Failure)
  deriving DecidableEq

structure World where
  table : JobTable.World
  /-- The contexts of the runs that have ended, by job. -/
  contexts : Table ContextError
  results : Table Result
  /-- The jobs for which `Cancel` has returned no error. -/
  canceled : Finset String

inductive Action where
  | table (action : JobTable.Action)
  | cancel (id : String) (saves : Bool) (now : Time)
  | endContext (id : String) (error : ContextError)
  | returns (worker : String) (out : Bytes) (err : Option Failure)
  | check (worker : String)
  | finish (worker : String) (now : Time)
  deriving DecidableEq

def opened (o : Options) (stored : List Job) (now : Time) : World := ⟨JobTable.opened o stored now, ∅, ∅, ∅⟩

def ContextError.failure : ContextError → Failure
  | .canceled => ⟨true, false, "context canceled"⟩
  | .deadlineExceeded => ⟨false, true, "context deadline exceeded"⟩

def Failure.is (err : Failure) : ContextError → Bool
  | .canceled => err.canceled
  | .deadlineExceeded => err.deadline

def join (first second : Failure) : Failure :=
  ⟨first.canceled || second.canceled, first.deadline || second.deadline, first.text ++ "\n" ++ second.text⟩

def checkedError (context : Option ContextError) (err : Option Failure) : Option Failure :=
  match context, err with
  | none, err => err
  | some ctx, none => some ctx.failure
  | some ctx, some failure => if failure.is ctx then some failure else some (join ctx.failure failure)

def apart (w : World) : JobTable.Action → Bool
  | .cancel .. => false
  | .chunk worker _ => w.results.lookup worker = none
  | .finish worker _ _ _ =>
    match w.table.workers.lookup worker with
    | some (.saving ..) => true
    | _ => false
  | _ => true

def renewed (w : World) : JobTable.Action → Table ContextError
  | .start worker _ =>
    match w.table.workers.lookup worker with
    | some (.taken id) => if (w.table.jobs.lookup id).any fun j => j.status = .queued then w.contexts.erase id else w.contexts
    | _ => w.contexts
  | _ => w.contexts

def runs (w : World) (worker : String) : Option (String × Job) :=
  match w.table.workers.lookup worker with
  | some (.running id j) => some (id, j)
  | _ => none

def cancel (o : Options) (w : World) (id : String) (saves : Bool) (now : Time) : World :=
  match w.table.jobs.lookup id with
  | some j =>
    if terminal j.status then w
    else if id ∈ w.table.cancel then { w with
      contexts := if (w.contexts.lookup id).isSome then w.contexts else w.contexts.insert id .canceled
      canceled := insert id w.canceled }
    else { w with
      table := JobTable.cancel o w.table id now
      canceled := if saves then insert id w.canceled else w.canceled }
  | none => w

def step (o : Options) (w : World) : Action → Option World
  | .table action =>
    if apart w action then (JobTable.step o w.table action).map fun table => { w with table, contexts := renewed w action }
    else none
  | .cancel id saves now => some (cancel o w id saves now)
  | .endContext id error =>
    if id ∈ w.table.cancel ∧ w.contexts.lookup id = none then
      some { w with contexts := w.contexts.insert id error }
    else none
  | .returns worker out err =>
    if (runs w worker).isSome ∧ w.results.lookup worker = none then
      some { w with results := w.results.insert worker (.returned out err) }
    else none
  | .check worker =>
    match runs w worker, w.results.lookup worker with
    | some (id, _), some (.returned out err) =>
      some { w with results := w.results.insert worker (.checked out (checkedError (w.contexts.lookup id) err)) }
    | _, _ => none
  | .finish worker now =>
    match runs w worker, w.results.lookup worker with
    | some (id, j), some (.checked out err) => some { w with
      table := JobTable.finishRun o w.table worker id j out (err.map fun failure => ⟨failure.canceled, failure.text⟩) now
      results := w.results.erase worker }
    | _, _ => none

def Effective (w : World) : Prop := ∀ id ∈ w.canceled, ∀ j, w.table.jobs.lookup id = some j → j.status ≠ .succeeded

/-- No job is cancelled between the end of its run, found without an error, and its result. -/
def Careful (w : World) : Action → Prop
  | .cancel id _ _ => ∀ worker j out, runs w worker = some (id, j) → w.results.lookup worker ≠ some (.checked out none)
  | _ => True

section Steps
variable {o : Options} {w v : World} {id worker : String} {j : Job}

structure Kept (w : World) : Prop where
  steady : Steady w.table
  results : ∀ worker r, w.results.lookup worker = some r → (runs w worker).isSome
  ended : ∀ id ∈ w.canceled, id ∈ w.table.issued ∧
    (∀ j, w.table.jobs.lookup id = some j → j.status ≠ .queued ∧ j.status ≠ .succeeded) ∧
    ∀ worker j, holds w.table worker = some (id, j) →
      w.contexts.lookup id ≠ none ∧ ∀ out, w.results.lookup worker ≠ some (.checked out none)

theorem runs_holds (has : runs w worker = some (id, j)) : holds w.table worker = some (id, j) := by
  unfold runs at has
  split at has
  · next found =>
    cases has
    exact holds_of found
  · cases has

theorem no_result (kept : Kept w) (idle : runs w worker = none) : w.results.lookup worker = none := by
  cases result : w.results.lookup worker with
  | none => rfl
  | some r =>
    have running := kept.results worker r result
    rw [idle] at running
    cases running

theorem finished_failed {out : Bytes} {err : Option RunError} {now : Time} (failed : err ≠ none) :
    (JobTable.finished j out err now).status ≠ .succeeded := by
  unfold JobTable.finished
  cases err with
  | none => exact absurd rfl failed
  | some =>
    dsimp only
    split <;> exact fun absurd => by cases absurd

theorem finished_past (j : Job) (out : Bytes) (err : Option RunError) (now : Time) :
    (JobTable.finished j out err now).status ≠ .queued := by
  unfold JobTable.finished
  cases err with
  | none => exact fun absurd => by cases absurd
  | some =>
    dsimp only
    split <;> exact fun absurd => by cases absurd

section
variable (kept : Kept w)
include kept

/-- A step of the table: it takes the result of its own worker only, and no cancelled job ends without an error. -/
theorem moves_kept {action : JobTable.Action} {table : JobTable.World} {contexts : Table ContextError}
    {results : Table Result} (stepped : JobTable.step o w.table action = some table)
    (left : ∀ worker r, results.lookup worker = some r →
      w.results.lookup worker = some r ∧ workerOf action ≠ some worker)
    (past : ∀ id ∈ w.canceled, w.contexts.lookup id ≠ none → contexts.lookup id ≠ none)
    (fails : ∀ worker out err now id j, action = .finish worker out err now → holds w.table worker = some (id, j) →
      id ∈ w.canceled → err ≠ none) : Kept { w with table, contexts, results } := by
  obtain ⟨issued, others⟩ := step_frame stepped
  refine ⟨step_steady kept.steady stepped, fun worker r found => ?_, fun id member => ?_⟩
  · obtain ⟨before, apart⟩ := left worker r found
    have running := kept.results worker r before
    unfold runs at running ⊢
    rw [← others worker apart] at running
    exact running
  · obtain ⟨known, jobs, workers⟩ := kept.ended id member
    refine ⟨issued known, fun j found => ?_, fun worker j has => ?_⟩
    · cases comes : step_comes kept.steady stepped found with
      | stays before => exact jobs j before
      | fresh new => exact absurd known new
      | canceled _ _ _ same =>
        rw [same]
        exact ⟨fun absurd => (by cases absurd), fun absurd => by cases absurd⟩
      | rejected _ status =>
        rw [status]
        exact ⟨fun absurd => (by cases absurd), fun absurd => by cases absurd⟩
      | started _ before queued => exact absurd queued (jobs _ before).1
      | logged here same =>
        rw [same, logged_status]
        exact jobs _ (kept.steady.held _ _ _ (holds_of here)).2.2
      | finished has same =>
        rw [same]
        exact ⟨finished_past _ _ _ _, finished_failed (fails _ _ _ _ _ _ rfl has member)⟩
    · rcases step_holds stepped has with ⟨k, had⟩ | ⟨k, stored, queued⟩
      · obtain ⟨ended, unfound⟩ := workers worker k had
        exact ⟨past id member ended, fun out found => unfound out (left worker _ found).1⟩
      · exact absurd queued (jobs k stored).1

theorem context_kept {contexts : Table ContextError}
    (past : ∀ id, w.contexts.lookup id ≠ none → contexts.lookup id ≠ none) : Kept { w with contexts } := by
  refine ⟨kept.steady, kept.results, fun id member => ?_⟩
  obtain ⟨issued, jobs, workers⟩ := kept.ended id member
  exact ⟨issued, jobs, fun worker j has => (workers worker j has).imp_left (past id)⟩

theorem kept_canceled (issued : id ∈ w.table.issued)
    (jobs : ∀ j, w.table.jobs.lookup id = some j → j.status ≠ .queued ∧ j.status ≠ .succeeded)
    (workers : ∀ worker j, holds w.table worker = some (id, j) →
      w.contexts.lookup id ≠ none ∧ ∀ out, w.results.lookup worker ≠ some (.checked out none)) :
    Kept { w with canceled := insert id w.canceled } := by
  refine ⟨kept.steady, kept.results, fun other member => ?_⟩
  rcases Finset.mem_insert.mp member with rfl | before
  · exact ⟨issued, jobs, workers⟩
  · exact kept.ended other before

theorem apart_result {action : JobTable.Action} (quiet : apart w action) {table : JobTable.World}
    (stepped : JobTable.step o w.table action = some table) (mine : workerOf action = some worker) :
    w.results.lookup worker = none := by
  cases action with
  | chunk =>
    cases mine
    exact of_decide_eq_true quiet
  | finish =>
    cases mine
    simp only [apart] at quiet
    split at quiet
    · next found => exact no_result kept (by rw [runs, found])
    · cases quiet
  | take =>
    cases mine
    simp only [JobTable.step] at stepped
    split at stepped <;> cases stepped
    next idle _ => exact no_result kept (by rw [runs, idle])
  | start other now | started other =>
    cases mine
    simp only [JobTable.step] at stepped
    split at stepped <;> cases stepped
    next found => exact no_result kept (by rw [runs, found])
  | _ => cases mine

theorem renewed_over (action : JobTable.Action) (id : String) (member : id ∈ w.canceled)
    (past : w.contexts.lookup id ≠ none) : (renewed w action).lookup id ≠ none := by
  unfold renewed
  split
  · split
    · next =>
      split
      · next queued =>
        obtain ⟨j, stored, waits⟩ := (any_eq_true ..).mp queued
        rw [AList.lookup_erase_ne]
        · exact past
        · rintro rfl
          exact ((kept.ended id member).2.1 j stored).1 (of_decide_eq_true waits)
      · exact past
    · exact past
  · exact past

theorem table_kept {action : JobTable.Action} (quiet : apart w action) {table : JobTable.World}
    (stepped : JobTable.step o w.table action = some table) : Kept { w with table, contexts := renewed w action } := by
  refine moves_kept kept stepped (fun worker r found => ⟨found, fun mine => ?_⟩) (renewed_over kept action) ?_
  · cases (apart_result kept quiet stepped mine).symm.trans found
  · rintro worker out err now id j rfl - -
    simp only [apart] at quiet
    split at quiet
    · next found =>
      rw [JobTable.step, found] at stepped
      exact (ite_none_right_eq_some.mp stepped).1
    · cases quiet

theorem cancel_running (stored : w.table.jobs.lookup id = some j) (ends : j.status ≠ .succeeded)
    (member : id ∈ w.table.cancel)
    (careful : ∀ worker j out, runs w worker = some (id, j) → w.results.lookup worker ≠ some (.checked out none)) :
    Kept { w with
      contexts := if (w.contexts.lookup id).isSome then w.contexts else w.contexts.insert id .canceled
      canceled := insert id w.canceled } := by
  have past (other : String) (ended : other = id ∨ w.contexts.lookup other ≠ none) :
      (if (w.contexts.lookup id).isSome then w.contexts else w.contexts.insert id .canceled).lookup other ≠ none := by
    split
    · next already => exact ended.elim (fun same => same ▸ isSome_iff_ne_none.mp already) fun before => before
    · rw [insert_lookup]
      split
      · exact fun absurd => by cases absurd
      · next apart => exact ended.resolve_left apart
  obtain ⟨issued, started⟩ := kept.steady.cancels id member
  refine kept_canceled (context_kept kept fun other before => past other (.inr before)) issued (fun k found => ?_)
    fun worker k has => ⟨past id (.inl rfl), fun out found => ?_⟩
  · cases stored.symm.trans found
    exact ⟨started j stored, ends⟩
  · cases running : runs w worker with
    | none => cases (no_result kept running).symm.trans found
    | some =>
      cases (runs_holds running).symm.trans has
      exact careful worker _ out running found

theorem cancel_kept {saves : Bool} {now : Time}
    (careful : ∀ worker j out, runs w worker = some (id, j) → w.results.lookup worker ≠ some (.checked out none)) :
    Kept (cancel o w id saves now) := by
  unfold cancel
  split
  · next j stored =>
    split
    · exact kept
    · next live =>
      split
      · next member =>
        refine cancel_running kept stored (fun closed => live ?_) member careful
        rw [closed]
        rfl
      · next free =>
        have moved : Kept { w with table := JobTable.cancel o w.table id now } :=
          moves_kept kept (show JobTable.step o w.table (.cancel id now) = _ from rfl) (fun _ _ found => ⟨found, fun absurd => by cases absurd⟩)
            (fun _ _ past => past) fun _ _ _ _ _ _ absurd => by cases absurd
        split
        · have same : JobTable.cancel o w.table id now =
              JobTable.ended o w.table id { j with status := .canceled, finishedAt := some now } := by
            rw [JobTable.cancel, stored]
            exact if_neg (not_or.mpr ⟨live, free⟩)
          rw [same] at moved ⊢
          refine kept_canceled moved (kept.steady.known id j stored) (fun k found => ?_) fun worker k has => ?_
          · have kept_job := JobTable.forget_some found
            change (w.table.jobs.insert id _).lookup id = some k at kept_job
            cases (AList.lookup_insert _).symm.trans kept_job
            exact ⟨fun absurd => (by cases absurd), fun absurd => by cases absurd⟩
          · exact absurd (kept.steady.held worker id k has).1 free
        · exact moved
  · exact kept

theorem result_kept {pair : String × Job} (running : runs w worker = some pair) {r : Result}
    (unclean : pair.1 ∈ w.canceled → ∀ out, r ≠ .checked out none) : Kept { w with results := w.results.insert worker r } := by
  refine ⟨kept.steady, fun other found there => ?_, fun id member => ?_⟩
  · change (w.results.insert worker r).lookup other = some found at there
    rw [insert_lookup] at there
    split at there
    · next here =>
      subst here
      show (runs w other).isSome
      rw [running]
      rfl
    · exact kept.results other found there
  · obtain ⟨issued, jobs, workers⟩ := kept.ended id member
    refine ⟨issued, jobs, fun other k has => ?_⟩
    obtain ⟨past, unfound⟩ := workers other k has
    refine ⟨past, fun out => ?_⟩
    rw [insert_lookup]
    split
    · next here =>
      subst here
      cases (runs_holds running).symm.trans has
      exact fun clean => unclean member out (some.inj clean)
    · exact unfound out

end

theorem checked_failed {context : Option ContextError} (past : context ≠ none) (err : Option Failure) :
    checkedError context err ≠ none := by
  cases context with
  | none => exact absurd rfl past
  | some =>
    cases err with
    | none => exact fun absurd => by cases absurd
    | some =>
      unfold checkedError
      dsimp only
      split <;> exact fun absurd => by cases absurd

theorem step_kept (kept : Kept w) {action : Action} (careful : Careful w action) (stepped : step o w action = some v) :
    Kept v := by
  cases action with
  | table =>
    obtain ⟨quiet, moved⟩ := ite_none_right_eq_some.mp stepped
    obtain ⟨table, ran, rfl⟩ := map_eq_some_iff.mp moved
    exact table_kept kept quiet ran
  | cancel =>
    cases stepped
    exact cancel_kept kept careful
  | endContext =>
    obtain ⟨_, same⟩ := ite_none_right_eq_some.mp stepped
    cases same
    refine context_kept kept fun other past => ?_
    rw [insert_lookup]
    split
    · exact fun absurd => by cases absurd
    · exact past
  | returns worker out =>
    obtain ⟨⟨running, unfinished⟩, same⟩ := ite_none_right_eq_some.mp stepped
    cases same
    obtain ⟨pair, running⟩ := isSome_iff_exists.mp running
    exact result_kept kept running fun _ out absurd => by cases absurd
  | check worker =>
    simp only [step] at stepped
    split at stepped
    · next id j out err running result =>
      cases stepped
      refine result_kept kept running fun member out' clean => ?_
      have past := ((kept.ended id member).2.2 worker j (runs_holds running)).1
      exact checked_failed past err (Result.checked.inj clean).2
    · cases stepped
  | finish worker now =>
    simp only [step] at stepped
    split at stepped
    · next id j out err running result =>
      cases stepped
      have here : w.table.workers.lookup worker = some (.running id j) := by
        unfold runs at running
        split at running <;> cases running
        assumption
      have ran (err : Option RunError) : JobTable.step o w.table (.finish worker out err now) =
          some (JobTable.finishRun o w.table worker id j out err now) := by rw [JobTable.step, here]
      refine moves_kept kept (ran _) (fun other r found => ?_) (fun _ _ past => past) ?_
      · rw [erase_lookup] at found
        split at found
        · cases found
        · next others => exact ⟨found, fun mine => others (some.inj mine).symm⟩
      · rintro _ _ _ _ id' j' ⟨⟩ has member clean
        cases (holds_of here).symm.trans has
        rw [map_eq_none_iff.mp clean] at result
        exact ((kept.ended id member).2.2 worker j (holds_of here)).2 out result
    · cases stepped

end Steps

theorem opened_kept (o : Options) (stored : List Job) (now : Time) : Kept (opened o stored now) := by
  refine ⟨JobRuns.opened_steady o stored now, ?_, ?_⟩
  · exact fun _ _ absurd => by cases absurd
  · exact fun _ member => absurd member (Finset.notMem_empty _)

theorem cancellation_effective (o : Options) (stored : List Job) (now : Time) {actions : List Action} {w : World}
    (careful : Guarded (step o) Careful (opened o stored now) actions)
    (ran : run (step o) (opened o stored now) actions = some w) : Effective w := by
  have kept := guarded_run_invariant Kept (fun _ _ _ careful kept stepped => step_kept kept careful stepped) careful ran
    (opened_kept o stored now)
  exact fun id member j found => ((kept.ended id member).2.1 j found).2

def small : Options := ⟨1, 1, Nat.one_pos⟩

def begun : List Action :=
  [.table (.submit "job-1" "ada" "executor-ada" [49] [] 1), .table (.saved "job-1" true), .table (.enqueue "job-1"),
    .table (.take "worker"), .table (.start "worker" 2), .table (.started "worker")]

def unfinished (w : World) : Action → Bool
  | .cancel .. => w.results.entries.isEmpty
  | _ => true

theorem unfinished_careful (w : World) (action : Action) (none_ : unfinished w action) : Careful w action := by
  cases action with
  | cancel =>
    intro worker j out _ found
    have empty : w.results.entries = [] := List.isEmpty_iff.mp none_
    rw [AList.lookup, empty] at found
    cases found
  | _ => trivial

/-- A runtime that does not look at its context. -/
theorem run_canceled : ∃ w, run (step small) (opened small [] 0) (begun ++ [.cancel "job-1" true 3, .returns "worker" [50] none,
    .check "worker", .finish "worker" 4]) = some w ∧ Effective w := by
  obtain ⟨w, ran, _⟩ := map_eq_some_iff.mp
    (show (run (step small) (opened small [] 0) (begun ++ [.cancel "job-1" true 3, .returns "worker" [50] none, .check "worker",
        .finish "worker" 4])).map (fun w => ((w.table.jobs.lookup "job-1").map Job.status, decide ("job-1" ∈ w.canceled))) =
      some (some .canceled, true) by decide +kernel)
  refine ⟨w, ran, cancellation_effective small [] 0 ?_ ran⟩
  exact checked_guarded unfinished unfinished_careful _ _ (by decide +kernel)

/-- The worker has looked at the context, and `Cancel` comes before the result. -/
theorem run_succeeds : ∃ w, run (step small) (opened small [] 0) (begun ++ [.returns "worker" [50] none, .check "worker",
    .cancel "job-1" true 3, .finish "worker" 4]) = some w ∧ ¬ Effective w := by
  obtain ⟨w, ran, shown⟩ := map_eq_some_iff.mp
    (show (run (step small) (opened small [] 0) (begun ++ [.returns "worker" [50] none, .check "worker",
        .cancel "job-1" true 3, .finish "worker" 4])).map (fun w =>
          ((w.table.jobs.lookup "job-1").map Job.status, decide ("job-1" ∈ w.canceled))) =
      some (some .succeeded, true) by decide +kernel)
  obtain ⟨status, member⟩ := Prod.mk.inj shown
  obtain ⟨j, found, succeeded⟩ := map_eq_some_iff.mp status
  exact ⟨w, ran, fun effective => effective "job-1" (of_decide_eq_true member) j found succeeded⟩

end PieRelay.JobCancellation
