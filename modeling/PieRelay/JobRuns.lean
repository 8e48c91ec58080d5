import PieRelay.JobTable

/-!
What holds of the jobs of a manager in every run, whatever its handlers do in between: a job that a worker has is in the
table as the worker has it, and one that `Submit` still has is not in the queue. The jobs that a step leaves are those that
were there, and of these it only adds to the logs of one that runs.
-/
namespace PieRelay.JobRuns
open List Option
open ControlPlane (Table insert_lookup erase_lookup lookup_of_erase)
open JobTable
open JsonScanner (Bytes)
open RoomRegistry (Time)

def holds (w : World) (worker : String) : Option (String × Job) := (w.workers.lookup worker).bind Work.job

def Bare (j : Job) : Prop := j.logs = [] ∧ j.logBytes = 0 ∧ j.logTruncated = false

structure Waits (w : World) (id : String) (j : Job) : Prop where
  named : j.id = id
  issued : id ∈ w.issued
  unqueued : id ∉ w.queue
  untaken : ∀ worker, w.workers.lookup worker ≠ some (.taken id)
  unstarted : id ∉ w.cancel
  bare : Bare j
  stored : ∀ k, w.jobs.lookup id = some k → Bare k

structure Steady (w : World) : Prop where
  known : ∀ id j, w.jobs.lookup id = some j → id ∈ w.issued
  queued : ∀ id ∈ w.queue, id ∈ w.issued
  taken : ∀ worker id, w.workers.lookup worker = some (.taken id) → id ∈ w.issued
  cancels : ∀ id ∈ w.cancel, id ∈ w.issued ∧ ∀ j, w.jobs.lookup id = some j → j.status ≠ .queued
  held : ∀ worker id j, holds w worker = some (id, j) → id ∈ w.cancel ∧ j.status = .running ∧ w.jobs.lookup id = some j
  alone : ∀ worker other id j k, holds w worker = some (id, j) → holds w other = some (id, k) → worker = other
  submits : ∀ id s, w.submissions.lookup id = some s → Waits w id s.job

section Steps
variable {o : Options} {w v : World} {id worker : String} {j : Job}
variable {action : Action}

theorem steady_jobs (steady : Steady w) (issued : w.issued ⊆ v.issued) (queue : v.queue = w.queue)
    (workers : v.workers = w.workers) (cancels : v.cancel = w.cancel)
    (jobs : ∀ id k, v.jobs.lookup id = some k → id ∈ v.issued ∧ (id ∈ w.cancel → w.jobs.lookup id = some k))
    (runs : ∀ id k, id ∈ w.cancel → w.jobs.lookup id = some k → k.status = .running → v.jobs.lookup id = some k)
    (submits : ∀ id s, v.submissions.lookup id = some s → Waits v id s.job) : Steady v := by
  constructor
  · exact fun id k found => (jobs id k found).1
  · exact queue ▸ fun id member => issued (steady.queued id member)
  · exact workers ▸ fun worker id there => issued (steady.taken worker id there)
  · rw [cancels]
    intro id member
    obtain ⟨known, started⟩ := steady.cancels id member
    exact ⟨issued known, fun k found => started k ((jobs id k found).2 member)⟩
  · intro worker id k has
    unfold holds at has
    rw [workers] at has
    obtain ⟨member, running, stored⟩ := steady.held worker id k has
    exact ⟨cancels ▸ member, running, runs id k member stored running⟩
  · unfold holds
    rw [workers]
    exact steady.alone
  · exact submits

theorem waits_jobs (waits : Waits w id j) (issued : w.issued ⊆ v.issued) (queue : v.queue = w.queue)
    (workers : v.workers = w.workers) (cancels : v.cancel = w.cancel)
    (stored : ∀ k, v.jobs.lookup id = some k → w.jobs.lookup id = some k ∨ Bare k) :
    Waits v id j := by
  refine ⟨waits.named, issued waits.issued, queue ▸ waits.unqueued, workers ▸ waits.untaken, cancels ▸ waits.unstarted,
    waits.bare, fun k found => ?_⟩
  rcases stored k found with before | bare
  · exact waits.stored k before
  · exact bare

section
variable (steady : Steady w)
include steady

theorem submit_steady {user executorID : String} {input : Bytes} {blobRefs : List String} {now : Time}
    (fresh : id ∉ w.issued) :
    Steady (submit { w with issued := insert id w.issued } id user executorID input blobRefs now) := by
  have more : w.issued ⊆ insert id w.issued := Finset.subset_insert id w.issued
  have unstarted : id ∉ w.cancel := fun member => fresh (steady.cancels id member).1
  have unstored (k : Job) : w.jobs.lookup id ≠ some k := fun found => fresh (steady.known id k found)
  unfold submit
  split
  · refine steady_jobs steady more rfl rfl rfl (fun other k found => ⟨more (steady.known other k found), fun _ => found⟩)
      (fun _ _ _ found _ => found) fun other s found => ?_
    exact waits_jobs (steady.submits other s found) more rfl rfl rfl fun k there => .inl there
  · refine steady_jobs steady more rfl rfl rfl (fun other k found => ?_) (fun other k member found _ => ?_) fun other s found => ?_
    · change (w.jobs.insert id _).lookup other = some k at found
      rw [insert_lookup] at found
      split at found
      · next here =>
        subst here
        exact ⟨Finset.mem_insert_self _ _, fun member => absurd member unstarted⟩
      · exact ⟨more (steady.known other k found), fun _ => found⟩
    · show (w.jobs.insert id _).lookup other = some k
      rw [insert_lookup, if_neg]
      · exact found
      · rintro rfl
        exact unstarted member
    · change (w.submissions.insert id _).lookup other = some s at found
      rw [insert_lookup] at found
      split at found
      · next here =>
        subst here
        cases found
        refine ⟨rfl, Finset.mem_insert_self _ _, fun member => fresh (steady.queued other member),
          fun worker there => fresh (steady.taken worker other there), unstarted, ⟨rfl, rfl, rfl⟩, fun k there => ?_⟩
        cases (AList.lookup_insert _).symm.trans there
        exact ⟨rfl, rfl, rfl⟩
      · next apart =>
        refine waits_jobs (steady.submits other s found) more rfl rfl rfl fun k there => .inl ?_
        exact (AList.lookup_insert_ne apart).symm.trans there

theorem submits_steady {submissions : Table Submission}
    (submits : ∀ id s, submissions.lookup id = some s → Waits w id s.job) : Steady { w with submissions } := by
  refine steady_jobs steady (Finset.Subset.refl _) rfl rfl rfl (fun other k found => ⟨steady.known other k found, fun _ => found⟩)
    (fun _ _ _ found _ => found) fun other s found => ?_
  exact waits_jobs (submits other s found) (Finset.Subset.refl _) rfl rfl rfl fun k there => .inl there

theorem submits_insert {s : Submission} (waits : Waits w id s.job) :
    ∀ other t, (w.submissions.insert id s).lookup other = some t → Waits w other t.job := by
  intro other t found
  rw [insert_lookup] at found
  split at found
  · next here =>
    cases found
    exact here ▸ waits
  · exact steady.submits other t found

theorem submits_erase (id other : String) (s : Submission)
    (found : (w.submissions.erase id).lookup other = some s) : Waits w other s.job :=
  steady.submits other s (lookup_of_erase found)

theorem drop_steady (waits : Waits w id j) : Steady (drop w id j) := by
  have erased {other : String} {k : Job} (found : (w.jobs.erase j.id).lookup other = some k) : w.jobs.lookup other = some k :=
    lookup_of_erase found
  refine steady_jobs steady (Finset.Subset.refl _) rfl rfl rfl ?_ (fun other k member found _ => ?_) fun other s found => ?_
  · exact fun other k found => ⟨steady.known other k (erased found), fun _ => erased found⟩
  · show (w.jobs.erase j.id).lookup other = some k
    rw [erase_lookup, if_neg]
    · exact found
    · rw [waits.named]
      rintro rfl
      exact waits.unstarted member
  · exact waits_jobs (submits_erase steady id other s found) (Finset.Subset.refl _) rfl rfl rfl fun k there => .inl (erased there)

theorem enqueue_steady (waits : Waits w id j) : Steady (enqueue o w id j) := by
  unfold enqueue
  split
  · refine ⟨steady.known, fun other member => ?_, steady.taken, steady.cancels, steady.held, steady.alone, fun other t found => ?_⟩
    · rcases mem_append.mp member with before | new
      · exact steady.queued other before
      · rw [mem_singleton.mp new, waits.named]
        exact waits.issued
    · have was := submits_erase steady id other t found
      refine ⟨was.named, was.issued, fun member => ?_, was.untaken, was.unstarted, was.bare, was.stored⟩
      rcases mem_append.mp member with before | new
      · exact was.unqueued before
      · rw [mem_singleton.mp new, waits.named] at found
        cases (AList.lookup_erase id w.submissions).symm.trans found
  · exact submits_steady steady (submits_insert steady waits)

end

theorem ended_keeps {other : String} {k : Job} (found : w.jobs.lookup other = some k) (live : terminal k.status = false)
    (apart : other ≠ id) : (ended o w id j).jobs.lookup other = some k := by
  have there : (w.jobs.insert id j).lookup other = some k := (AList.lookup_insert_ne apart).trans found
  show (forget (w.jobs.insert id j) _).lookup other = some k
  rw [forget_lookup, if_neg]
  · exact there
  · rintro ⟨_, closed⟩
    rw [there, any_some, live] at closed
    cases closed

section
variable (steady : Steady w)
include steady

theorem ended_steady (known : id ∈ w.issued) (unstarted : id ∉ w.cancel)
    (bare : ∀ s, w.submissions.lookup id = some s → Bare j) :
    Steady (ended o w id j) := by
  refine steady_jobs steady (Finset.Subset.refl _) rfl rfl rfl (fun other k found => ?_) (fun other k member found running => ?_)
    fun other s found => ?_
  · rcases ended_some found with ⟨rfl, rfl⟩ | before
    · exact ⟨known, fun member => absurd member unstarted⟩
    · exact ⟨steady.known other k before, fun _ => before⟩
  · refine ended_keeps found (by rw [running]; rfl) ?_
    rintro rfl
    exact unstarted member
  · refine waits_jobs (steady.submits other s found) (Finset.Subset.refl _) rfl rfl rfl fun k there => ?_
    rcases ended_some there with ⟨rfl, rfl⟩ | before
    · exact .inr (bare s found)
    · exact .inl before

theorem reject_steady (waits : Waits w id j) : Steady (reject o w id j) := by
  unfold reject
  have erased := submits_steady steady (submits_erase steady id)
  rw [waits.named]
  exact ended_steady erased waits.issued waits.unstarted fun _ _ => waits.bare

theorem cancel_steady (now : Time) : Steady (cancel o w id now) := by
  unfold cancel
  split
  · next before found =>
    split
    · exact steady
    · next live =>
      refine ended_steady steady (steady.known id before found) (fun member => live (.inr member)) fun s waits => ?_
      exact (steady.submits id s waits).stored before found
  · exact steady

theorem steady_worker (x : Option Work) (issued : v.issued = w.issued) (cancels : v.cancel = w.cancel)
    (submissions : v.submissions = w.submissions) (queue : ∀ id ∈ v.queue, id ∈ w.queue)
    (workers : ∀ other, v.workers.lookup other = if other = worker then x else w.workers.lookup other)
    (taken : ∀ id, x = some (.taken id) → id ∈ w.queue)
    (held : ∀ id j, x.bind Work.job = some (id, j) →
      (∃ k, holds w worker = some (id, k)) ∧ j.status = .running ∧ v.jobs.lookup id = some j)
    (jobs : ∀ id k, v.jobs.lookup id = some k → w.jobs.lookup id = some k ∨
      k.status = .running ∧ ∃ j, holds w worker = some (id, j))
    (left : ∀ id k, w.jobs.lookup id = some k → (∀ j, holds w worker ≠ some (id, j)) → v.jobs.lookup id = some k) :
    Steady v := by
  have holder {other : String} {id : String} {j : Job} (has : holds v other = some (id, j)) :
      other = worker ∧ x.bind Work.job = some (id, j) ∨ other ≠ worker ∧ holds w other = some (id, j) := by
    unfold holds at has
    rw [workers] at has
    split at has
    · next here => exact .inl ⟨here, has⟩
    · next apart => exact .inr ⟨apart, has⟩
  constructor
  · intro id k found
    rw [issued]
    rcases jobs id k found with before | ⟨_, j, has⟩
    · exact steady.known id k before
    · exact (steady.cancels id (steady.held worker id j has).1).1
  · exact fun id member => issued ▸ steady.queued id (queue id member)
  · intro other id there
    rw [workers] at there
    rw [issued]
    split at there
    · exact steady.queued id (taken id there)
    · exact steady.taken other id there
  · intro id member
    rw [cancels] at member
    obtain ⟨known, started⟩ := steady.cancels id member
    refine ⟨issued ▸ known, fun k found => ?_⟩
    rcases jobs id k found with before | ⟨running, _⟩
    · exact started k before
    · rw [running]
      exact fun absurd => by cases absurd
  · intro other id j has
    rw [cancels]
    rcases holder has with ⟨_, mine⟩ | ⟨apart, theirs⟩
    · obtain ⟨⟨k, had⟩, running, stored⟩ := held id j mine
      exact ⟨(steady.held worker id k had).1, running, stored⟩
    · obtain ⟨member, running, stored⟩ := steady.held other id j theirs
      exact ⟨member, running, left id j stored fun k had => apart (steady.alone other worker id j k theirs had)⟩
  · intro one other id j k has also
    rcases holder has with ⟨rfl, mine⟩ | ⟨_, had⟩
    · obtain ⟨⟨j', before⟩, _⟩ := held id j mine
      rcases holder also with ⟨rfl, _⟩ | ⟨_, theirs⟩
      · rfl
      · exact steady.alone one other id j' k before theirs
    · rcases holder also with ⟨rfl, mine⟩ | ⟨_, theirs⟩
      · obtain ⟨⟨k', before⟩, _⟩ := held id k mine
        exact steady.alone one other id j k' had before
      · exact steady.alone one other id j k had theirs
  · intro id s found
    rw [submissions] at found
    have waits := steady.submits id s found
    refine ⟨waits.named, issued ▸ waits.issued, fun member => waits.unqueued (queue id member), fun other there => ?_,
      cancels ▸ waits.unstarted, waits.bare, fun k there => ?_⟩
    · rw [workers] at there
      split at there
      · exact waits.unqueued (taken id there)
      · exact waits.untaken other there
    · rcases jobs id k there with before | ⟨_, j, has⟩
      · exact waits.stored k before
      · exact absurd (steady.held worker id j has).1 waits.unstarted

theorem take_steady {queue : List String} (first : w.queue = id :: queue) :
    Steady { w with queue, workers := w.workers.insert worker (.taken id) } := by
  refine steady_worker steady (some (.taken id)) rfl rfl rfl (fun other member => ?_)
    (fun other => insert_lookup w.workers worker other _) ?_ (fun _ _ absurd => by cases absurd) (fun _ _ found => .inl found)
    (fun _ _ found _ => found)
  · rw [first]
    exact mem_cons_of_mem id member
  · rintro _ ⟨⟩
    rw [first]
    exact mem_cons_self

theorem skip_steady : Steady { w with workers := w.workers.erase worker } :=
  steady_worker steady none rfl rfl rfl (fun _ member => member) (erase_lookup w.workers worker) (fun _ absurd => by cases absurd)
    (fun _ _ absurd => by cases absurd) (fun _ _ found => .inl found) (fun _ _ found _ => found)

end

theorem holds_of {work : Work} (here : w.workers.lookup worker = some work) : holds w worker = work.job := by
  rw [holds, here, bind_some]

theorem started_steady (steady : Steady w) (here : w.workers.lookup worker = some (.saving id j)) :
    Steady { w with workers := w.workers.insert worker (.running id j) } := by
  have has : holds w worker = some (id, j) := holds_of here
  refine steady_worker steady (some (.running id j)) rfl rfl rfl (fun _ member => member)
    (fun other => insert_lookup w.workers worker other _) (fun _ absurd => by cases absurd) ?_ (fun _ _ found => .inl found)
    (fun _ _ found _ => found)
  rintro _ _ ⟨⟩
  obtain ⟨_, running, stored⟩ := steady.held worker id j has
  exact ⟨⟨j, has⟩, running, stored⟩

theorem logged_status (j : Job) (text : Bytes) : (logged j text).status = j.status := by
  unfold logged
  dsimp only
  split <;> rfl

section
variable (steady : Steady w)
include steady

theorem chunk_steady (here : w.workers.lookup worker = some (.running id j)) (text : Bytes) : Steady { w with
      jobs := w.jobs.insert id (logged j text)
      workers := w.workers.insert worker (.running id (logged j text)) } := by
  have has : holds w worker = some (id, j) := holds_of here
  have running : (logged j text).status = .running := (logged_status j text).trans (steady.held worker id j has).2.1
  refine steady_worker steady (some (.running id (logged j text))) rfl rfl rfl (fun _ member => member)
    (fun other => insert_lookup w.workers worker other _) (fun _ absurd => by cases absurd) ?_ (fun other k found => ?_)
    (fun other k found others => ?_)
  · rintro _ _ ⟨⟩
    exact ⟨⟨j, has⟩, running, AList.lookup_insert _⟩
  · change (w.jobs.insert id (logged j text)).lookup other = some k at found
    rw [insert_lookup] at found
    split at found
    · next same =>
      cases found
      exact .inr ⟨running, j, same ▸ has⟩
    · exact .inl found
  · show (w.jobs.insert id (logged j text)).lookup other = some k
    rw [insert_lookup, if_neg]
    · exact found
    · rintro rfl
      exact others j has

theorem start_steady {before : Job} (here : w.workers.lookup worker = some (.taken id))
    (stored : w.jobs.lookup id = some before) (waits : before.status = .queued) (j : Job) (running : j.status = .running)
    (table : Table String) :
    Steady { w with
      jobs := w.jobs.insert id j
      running := table
      cancel := insert id w.cancel
      workers := w.workers.insert worker (.saving id j) } := by
  have known := steady.known id before stored
  have unheld {other : String} {k : Job} (has : holds w other = some (id, k)) : False :=
    (steady.cancels id (steady.held other id k has).1).2 before stored waits
  have holder {other other_id : String} {k : Job}
      (has : ((w.workers.insert worker (.saving id j)).lookup other).bind Work.job = some (other_id, k)) :
      other = worker ∧ other_id = id ∧ k = j ∨ other ≠ worker ∧ other_id ≠ id ∧ holds w other = some (other_id, k) := by
    rw [insert_lookup] at has
    split at has
    · next is =>
      cases has
      exact .inl ⟨is, rfl, rfl⟩
    · next apart =>
      refine .inr ⟨apart, ?_, has⟩
      rintro rfl
      exact unheld has
  have updated {other : String} {k : Job} (there : (w.jobs.insert id j).lookup other = some k) :
      other = id ∧ k = j ∨ other ≠ id ∧ w.jobs.lookup other = some k := by
    rw [insert_lookup] at there
    split at there
    · next is => exact .inl ⟨is, (some.inj there).symm⟩
    · next apart => exact .inr ⟨apart, there⟩
  constructor
  · intro other k there
    rcases updated there with ⟨rfl, _⟩ | ⟨_, before'⟩
    · exact known
    · exact steady.known other k before'
  · exact steady.queued
  · intro other other_id there
    change (w.workers.insert worker _).lookup other = _ at there
    rw [insert_lookup] at there
    split at there
    · cases there
    · exact steady.taken other other_id there
  · intro other member
    rcases Finset.mem_insert.mp member with rfl | already
    · refine ⟨known, fun k there => ?_⟩
      rcases updated there with ⟨_, rfl⟩ | ⟨apart, _⟩
      · rw [running]
        exact fun absurd => by cases absurd
      · exact absurd rfl apart
    · obtain ⟨issued, started⟩ := steady.cancels other already
      refine ⟨issued, fun k there => ?_⟩
      rcases updated there with ⟨_, rfl⟩ | ⟨_, before'⟩
      · rw [running]
        exact fun absurd => by cases absurd
      · exact started k before'
  · intro other other_id k has
    rcases holder has with ⟨_, rfl, rfl⟩ | ⟨_, apart, had⟩
    · exact ⟨Finset.mem_insert_self _ _, running, AList.lookup_insert _⟩
    · obtain ⟨member, runs, there⟩ := steady.held other other_id k had
      exact ⟨Finset.mem_insert_of_mem member, runs, (AList.lookup_insert_ne apart).trans there⟩
  · intro one other other_id k l has also
    rcases holder has with ⟨rfl, rfl, _⟩ | ⟨_, apart, had⟩
    · rcases holder also with ⟨rfl, _⟩ | ⟨_, apart, _⟩
      · rfl
      · exact absurd rfl apart
    · rcases holder also with ⟨_, is, _⟩ | ⟨_, _, theirs⟩
      · exact absurd is apart
      · exact steady.alone one other other_id k l had theirs
  · intro other s found
    have others := steady.submits other s found
    have apart : other ≠ id := by
      rintro rfl
      exact others.untaken worker here
    refine ⟨others.named, others.issued, others.unqueued, fun someone there => ?_, fun member => ?_, others.bare, fun k there => ?_⟩
    · change (w.workers.insert worker _).lookup someone = _ at there
      rw [insert_lookup] at there
      split at there
      · cases there
      · exact others.untaken someone there
    · rcases Finset.mem_insert.mp member with is | already
      · exact apart is
      · exact others.unstarted already
    · rcases updated there with ⟨is, _⟩ | ⟨_, before'⟩
      · exact absurd is apart
      · exact others.stored k before'

theorem done_steady (has : holds w worker = some (id, j)) :
    Steady { w with cancel := w.cancel.erase id, workers := w.workers.erase worker } := by
  have holder {other other_id : String} {k : Job} (still : ((w.workers.erase worker).lookup other).bind Work.job = some (other_id, k)) :
      other ≠ worker ∧ holds w other = some (other_id, k) := by
    rw [erase_lookup] at still
    split at still
    · cases still
    · next apart => exact ⟨apart, still⟩
  have before {other : String} {work : Work} (there : (w.workers.erase worker).lookup other = some work) :
      w.workers.lookup other = some work := lookup_of_erase there
  constructor
  · exact steady.known
  · exact steady.queued
  · exact fun other other_id there => steady.taken other other_id (before there)
  · exact fun other member => steady.cancels other (Finset.mem_of_mem_erase member)
  · intro other other_id k still
    obtain ⟨apart, had⟩ := holder still
    obtain ⟨member, running, stored⟩ := steady.held other other_id k had
    refine ⟨Finset.mem_erase.mpr ⟨?_, member⟩, running, stored⟩
    rintro rfl
    exact apart (steady.alone other worker _ k j had has)
  · exact fun one other other_id k l has also => steady.alone one other other_id k l (holder has).2 (holder also).2
  · intro other s found
    have waits := steady.submits other s found
    exact ⟨waits.named, waits.issued, waits.unqueued, fun someone there => waits.untaken someone (before there),
      fun member => waits.unstarted (Finset.mem_of_mem_erase member), waits.bare, waits.stored⟩

theorem finish_steady (has : holds w worker = some (id, j)) (out : Bytes) (err : Option RunError) (now : Time) :
    Steady (finishRun o w worker id j out err now) := by
  obtain ⟨member, _⟩ := steady.held worker id j has
  refine ended_steady (done_steady steady has) (steady.cancels id member).1 (Finset.notMem_erase id _) fun s found => ?_
  exact absurd member (steady.submits id s found).unstarted

theorem step_steady (stepped : step o w action = some v) : Steady v := by
  cases action with
  | submit =>
    obtain ⟨⟨_, fresh⟩, same⟩ := ite_none_right_eq_some.mp stepped
    cases same
    exact submit_steady steady fresh
  | saved id =>
    simp only [step] at stepped
    split at stepped
    · next j found =>
      cases stepped
      have waits : Waits w id j := steady.submits id _ found
      refine submits_steady steady (submits_insert steady ?_)
      split <;> exact waits
    · cases stepped
  | drop id =>
    simp only [step] at stepped
    split at stepped
    · next found =>
      cases stepped
      exact drop_steady steady (steady.submits id _ found)
    · cases stepped
  | enqueue id =>
    simp only [step] at stepped
    split at stepped
    · next j found =>
      cases stepped
      have waits : Waits w id j := steady.submits id _ found
      exact enqueue_steady steady waits
    · cases stepped
  | reject id =>
    simp only [step] at stepped
    split at stepped
    · next found =>
      cases stepped
      exact reject_steady steady (steady.submits id _ found)
    · cases stepped
  | cancel id now =>
    cases stepped
    exact cancel_steady steady now
  | take =>
    simp only [step] at stepped
    split at stepped
    · next first =>
      cases stepped
      exact take_steady steady first
    · cases stepped
  | start worker now =>
    simp only [step] at stepped
    split at stepped
    · next here =>
      cases stepped
      unfold start
      split
      · next before queued =>
        obtain ⟨stored, waits⟩ := filter_eq_some_iff.mp queued
        exact start_steady steady here stored (of_decide_eq_true waits)
          { before with status := .running, startedAt := some now } rfl _
      · exact skip_steady steady
    · cases stepped
  | started =>
    simp only [step] at stepped
    split at stepped
    · next here =>
      cases stepped
      exact started_steady steady here
    · cases stepped
  | chunk worker text =>
    simp only [step] at stepped
    split at stepped
    · next here =>
      cases stepped
      exact chunk_steady steady here text
    · cases stepped
  | finish worker out err now =>
    simp only [step] at stepped
    split at stepped
    · next here =>
      obtain ⟨_, same⟩ := ite_none_right_eq_some.mp stepped
      cases same
      exact finish_steady steady (holds_of here) [] err now
    · next here =>
      cases stepped
      exact finish_steady steady (holds_of here) out err now
    · cases stepped

end

inductive Comes (w : World) (id : String) (k : Job) : Action → Prop where
  | stays {action : Action} (before : w.jobs.lookup id = some k) : Comes w id k action
  | fresh {action : Action} (new : id ∉ w.issued) (bare : Bare k) (named : k.id = id) : Comes w id k action
  | canceled {j : Job} {now : Time} (before : w.jobs.lookup id = some j) (live : terminal j.status = false)
      (unstarted : id ∉ w.cancel) (same : k = { j with status := .canceled, finishedAt := some now }) : Comes w id k (.cancel id now)
  | rejected {s : Submission} (waits : w.submissions.lookup id = some s) (status : k.status = .rejected) (bare : Bare k)
      (named : k.id = id) : Comes w id k (.reject id)
  | started {j : Job} {worker : String} {now : Time} (here : w.workers.lookup worker = some (.taken id))
      (before : w.jobs.lookup id = some j) (queued : j.status = .queued)
      (same : k = { j with status := .running, startedAt := some now }) : Comes w id k (.start worker now)
  | logged {j : Job} {worker : String} {text : Bytes} (here : w.workers.lookup worker = some (.running id j))
      (same : k = logged j text) : Comes w id k (.chunk worker text)
  | finished {j : Job} {worker : String} {out out' : Bytes} {err : Option RunError} {now : Time}
      (has : holds w worker = some (id, j)) (same : k = finished j out' err now) : Comes w id k (.finish worker out err now)

theorem step_comes (steady : Steady w) (stepped : step o w action = some v) {k : Job}
    (found : v.jobs.lookup id = some k) : Comes w id k action := by
  cases action with
  | submit other =>
    obtain ⟨⟨_, fresh⟩, same⟩ := ite_none_right_eq_some.mp stepped
    cases same
    unfold submit at found
    split at found
    · exact .stays found
    · change (w.jobs.insert other _).lookup id = some k at found
      rw [insert_lookup] at found
      split at found
      · next is =>
        cases found
        exact .fresh (is ▸ fresh) ⟨rfl, rfl, rfl⟩ is.symm
      · exact .stays found
  | saved | take | started =>
    simp only [step] at stepped
    split at stepped <;> cases stepped
    exact .stays found
  | drop =>
    simp only [step] at stepped
    split at stepped <;> cases stepped
    exact .stays (lookup_of_erase found)
  | enqueue =>
    simp only [step] at stepped
    split at stepped
    · cases stepped
      unfold enqueue at found
      split at found <;> exact .stays found
    · cases stepped
  | reject other =>
    simp only [step] at stepped
    split at stepped
    · next j waiting =>
      cases stepped
      have waits : Waits w other j := steady.submits other _ waiting
      rcases ended_some found with ⟨is, same⟩ | before
      · have named := is.trans waits.named
        subst named same
        exact .rejected waiting rfl waits.bare waits.named
      · exact .stays before
    · cases stepped
  | cancel =>
    cases stepped
    unfold cancel at found
    split at found
    · next before =>
      split at found
      · exact .stays found
      · next live =>
        rcases ended_some found with ⟨rfl, rfl⟩ | before'
        · exact .canceled before (eq_false_of_ne_true fun closed => live (.inl closed)) (fun member => live (.inr member)) rfl
        · exact .stays before'
    · exact .stays found
  | start =>
    simp only [step] at stepped
    split at stepped
    · next other here =>
      cases stepped
      unfold start at found
      split at found
      · next queued =>
        obtain ⟨before, waits⟩ := filter_eq_some_iff.mp queued
        change (w.jobs.insert other _).lookup id = some k at found
        rw [insert_lookup] at found
        split at found
        · next is =>
          subst is
          exact .started here before (of_decide_eq_true waits) (some.inj found).symm
        · exact .stays found
      · exact .stays found
    · cases stepped
  | chunk worker text =>
    simp only [step] at stepped
    split at stepped
    · next other j here =>
      cases stepped
      change (w.jobs.insert other (JobTable.logged j text)).lookup id = some k at found
      rw [insert_lookup] at found
      split at found
      · next is =>
        subst is
        exact .logged here (some.inj found).symm
      · exact .stays found
    · cases stepped
  | finish =>
    simp only [step] at stepped
    split at stepped
    · next here =>
      obtain ⟨_, same⟩ := ite_none_right_eq_some.mp stepped
      cases same
      rcases ended_some found with ⟨rfl, rfl⟩ | before
      · exact .finished (holds_of here) rfl
      · exact .stays before
    · next here =>
      cases stepped
      rcases ended_some found with ⟨rfl, rfl⟩ | before
      · exact .finished (holds_of here) rfl
      · exact .stays before
    · cases stepped

inductive Enters (w : World) (id : String) (s : Submission) : Action → Prop where
  | stays {action : Action} (before : w.submissions.lookup id = some s) : Enters w id s action
  | fresh {action : Action} (new : id ∉ w.issued) (saving : s = .saving s.job) : Enters w id s action
  | saved {j : Job} {ok : Bool} (before : w.submissions.lookup id = some (.saving j))
      (same : s = if ok then .saved j else .unsaved j) : Enters w id s (.saved id ok)
  | full {j : Job} (before : w.submissions.lookup id = some (.saved j)) (same : s = .full j) : Enters w id s (.enqueue id)

theorem step_enters (stepped : step o w action = some v) {s : Submission}
    (found : v.submissions.lookup id = some s) : Enters w id s action := by
  have inserted {table : Table Submission} {other : String} {t : Submission} (there : (table.insert other t).lookup id = some s) :
      id = other ∧ s = t ∨ table.lookup id = some s := by
    rw [insert_lookup] at there
    split at there
    · next is => exact .inl ⟨is, (some.inj there).symm⟩
    · exact .inr there
  cases action with
  | submit =>
    obtain ⟨⟨_, fresh⟩, same⟩ := ite_none_right_eq_some.mp stepped
    cases same
    unfold submit at found
    split at found
    · exact .stays found
    · rcases inserted found with ⟨rfl, rfl⟩ | before
      · exact .fresh fresh rfl
      · exact .stays before
  | saved =>
    simp only [step] at stepped
    split at stepped
    · next waiting =>
      cases stepped
      rcases inserted found with ⟨rfl, same⟩ | before
      · exact .saved waiting same
      · exact .stays before
    · cases stepped
  | enqueue =>
    simp only [step] at stepped
    split at stepped
    · next waiting =>
      cases stepped
      unfold enqueue at found
      split at found
      · exact .stays (lookup_of_erase found)
      · rcases inserted found with ⟨rfl, same⟩ | before
        · exact .full waiting same
        · exact .stays before
    · cases stepped
  | drop other | reject other =>
    simp only [step] at stepped
    split at stepped <;> cases stepped
    exact .stays (lookup_of_erase found)
  | cancel =>
    cases stepped
    unfold cancel at found
    split at found
    · split at found <;> exact .stays found
    · exact .stays found
  | start =>
    simp only [step] at stepped
    split at stepped <;> cases stepped
    unfold start at found
    split at found <;> exact .stays found
  | finish =>
    simp only [step] at stepped
    split at stepped
    · obtain ⟨_, same⟩ := ite_none_right_eq_some.mp stepped
      cases same
      exact .stays found
    · cases stepped
      exact .stays found
    · cases stepped
  | take worker | started worker | chunk worker text =>
    simp only [step] at stepped
    split at stepped <;> cases stepped
    exact .stays found

theorem step_waits (stepped : step o w action = some v) {s : Submission}
    (found : v.submissions.lookup id = some s) : (∃ before, w.submissions.lookup id = some before) ∨ id ∉ w.issued := by
  cases step_enters stepped found with
  | stays before | saved before | full before => exact .inl ⟨_, before⟩
  | fresh new => exact .inr new

def Named (w : World) : Prop := ∀ id j, w.jobs.lookup id = some j → j.id = id

theorem logged_id (j : Job) (text : Bytes) : (logged j text).id = j.id := by
  unfold logged
  dsimp only
  split <;> rfl

theorem step_named (steady : Steady w) (named : Named w) (stepped : step o w action = some v) : Named v := by
  intro id k found
  cases step_comes steady stepped found with
  | stays before => exact named id k before
  | fresh _ _ same | rejected _ _ _ same => exact same
  | canceled before _ _ same | started _ before _ same =>
    have mine := named id _ before
    exact same ▸ mine
  | logged here same =>
    rw [same, logged_id]
    exact named id _ (steady.held _ _ _ (holds_of here)).2.2
  | finished has same =>
    have mine := named id _ (steady.held _ _ _ has).2.2
    exact same ▸ mine

def workerOf : Action → Option String
  | .take worker | .start worker _ | .started worker | .chunk worker _ | .finish worker _ _ _ => some worker
  | _ => none

theorem insert_others {x : Work} {other : String} (apart : some worker ≠ some other) :
    (w.workers.insert worker x).lookup other = w.workers.lookup other :=
  AList.lookup_insert_ne fun same => apart (congrArg some same.symm)

theorem erase_others {other : String} (apart : some worker ≠ some other) :
    (w.workers.erase worker).lookup other = w.workers.lookup other :=
  AList.lookup_erase_ne fun same => apart (congrArg some same.symm)

theorem step_frame (stepped : step o w action = some v) : w.issued ⊆ v.issued ∧
    ∀ other, workerOf action ≠ some other → v.workers.lookup other = w.workers.lookup other := by
  cases action with
  | submit other =>
    obtain ⟨_, same⟩ := ite_none_right_eq_some.mp stepped
    cases same
    unfold submit
    split <;> exact ⟨Finset.subset_insert other w.issued, fun _ _ => rfl⟩
  | enqueue =>
    simp only [step] at stepped
    split at stepped <;> cases stepped
    unfold enqueue
    split <;> exact ⟨Finset.Subset.refl _, fun _ _ => rfl⟩
  | cancel =>
    cases stepped
    unfold cancel
    split
    · split <;> exact ⟨Finset.Subset.refl _, fun _ _ => rfl⟩
    · exact ⟨Finset.Subset.refl _, fun _ _ => rfl⟩
  | start =>
    simp only [step] at stepped
    split at stepped <;> cases stepped
    unfold start
    split
    · exact ⟨Finset.Subset.refl _, fun _ apart => insert_others apart⟩
    · exact ⟨Finset.Subset.refl _, fun _ apart => erase_others apart⟩
  | finish =>
    simp only [step] at stepped
    split at stepped
    · obtain ⟨_, same⟩ := ite_none_right_eq_some.mp stepped
      cases same
      exact ⟨Finset.Subset.refl _, fun _ apart => erase_others apart⟩
    · cases stepped
      exact ⟨Finset.Subset.refl _, fun _ apart => erase_others apart⟩
    · cases stepped
  | take worker | started worker | chunk worker text =>
    simp only [step] at stepped
    split at stepped <;> cases stepped
    exact ⟨Finset.Subset.refl _, fun _ apart => insert_others apart⟩
  | saved other ok | drop other | reject other =>
    simp only [step] at stepped
    split at stepped <;> cases stepped
    exact ⟨Finset.Subset.refl _, fun _ _ => rfl⟩

theorem step_issued (stepped : step o w action = some v) : w.issued ⊆ v.issued := (step_frame stepped).1

/-- A worker has its job from before, unless it has just started one that waited. -/
theorem step_holds (stepped : step o w action = some v) (has : holds v worker = some (id, j)) :
    (∃ k, holds w worker = some (id, k)) ∨ ∃ k, w.jobs.lookup id = some k ∧ k.status = .queued := by
  by_cases mine : workerOf action = some worker
  · cases action with
    | take =>
      cases mine
      simp only [step] at stepped
      split at stepped <;> cases stepped
      rw [holds, AList.lookup_insert] at has
      cases has
    | start =>
      cases mine
      simp only [step] at stepped
      split at stepped <;> cases stepped
      unfold start at has
      split at has
      · next before queued =>
        obtain ⟨stored, waits⟩ := filter_eq_some_iff.mp queued
        rw [holds, AList.lookup_insert] at has
        cases has
        exact .inr ⟨before, stored, of_decide_eq_true waits⟩
      · rw [holds, AList.lookup_erase] at has
        cases has
    | started other | chunk other text =>
      cases mine
      simp only [step] at stepped
      split at stepped <;> cases stepped
      next here =>
        rw [holds, AList.lookup_insert] at has
        cases has
        exact .inl ⟨_, holds_of here⟩
    | finish =>
      cases mine
      have gone : holds v worker = none := by
        simp only [step] at stepped
        split at stepped
        · obtain ⟨_, same⟩ := ite_none_right_eq_some.mp stepped
          cases same
          exact congrArg (bind · Work.job) (AList.lookup_erase worker w.workers)
        · cases stepped
          exact congrArg (bind · Work.job) (AList.lookup_erase worker w.workers)
        · cases stepped
      cases gone.symm.trans has
    | _ => cases mine
  · rw [holds, (step_frame stepped).2 worker mine] at has
    exact .inl ⟨j, has⟩

end Steps

theorem opened_known (o : Options) (stored : List Job) (now : Time) {id : String} {j : Job}
    (found : (opened o stored now).jobs.lookup id = some j) : id ∈ stored.map Job.id := by
  rcases listed_known _ ∅ (forget_some found) with member | absent
  · have ids : (stored.map (restarted · now)).map Job.id = stored.map Job.id := by
      rw [List.map_map]
      refine map_congr_left fun j _ => ?_
      show (restarted j now).id = j.id
      unfold restarted
      split <;> rfl
    exact ids ▸ member
  · cases absent

theorem opened_steady (o : Options) (stored : List Job) (now : Time) : Steady (opened o stored now) := by
  constructor
  · exact fun id j found => mem_toFinset.mpr (opened_known o stored now found)
  · exact fun _ member => absurd member not_mem_nil
  · exact fun _ _ absurd => by cases absurd
  · exact fun _ member => absurd member (Finset.notMem_empty _)
  · exact fun _ _ _ absurd => by cases absurd
  · exact fun _ _ _ _ _ absurd => by cases absurd
  · exact fun _ _ absurd => by cases absurd

end PieRelay.JobRuns
