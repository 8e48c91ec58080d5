import PieRelay.Admission
import PieRelay.JobRuns

/-!
What the jobs of a manager, the users at work and the list of ended jobs have to do with each other, whatever
comes in between the steps of a submission and of a run. `Submit` goes by its own copy of the job after its save.
-/
namespace PieRelay.JobConsistency
open List Option
open Admission (count count_le_card)
open ControlPlane (Table insert_lookup lookup_of_erase)
open Executions
open JobRuns (Steady holds holds_of opened_steady step_comes step_issued step_steady)
open JobTable
open JsonScanner (Bytes)
open RoomRegistry (Time)

structure Sound (o : Options) (w : World) : Prop extends Filed w where
  few : w.terminalOrder.length ≤ o.retainedJobs
  cancels : ∀ id j, w.jobs.lookup id = some j → j.status = .running → id ∈ w.cancel
  users : ∀ id s, w.submissions.lookup id = some s → ∀ j, w.jobs.lookup id = some j → j.userID = s.job.userID

def Lasts (before after : Option Job) : Prop :=
  (before = none → after = none) ∧
    ∀ j, before = some j → terminal j.status → ∀ k, after = some k → k.status = j.status

structure Lasting (w w' : World) : Prop where
  issued : w.issued ⊆ w'.issued
  jobs : ∀ id ∈ w.issued, Lasts (w.jobs.lookup id) (w'.jobs.lookup id)

theorem lasts_refl (job : Option Job) : Lasts job job := by
  refine ⟨id, ?_⟩
  rintro j rfl _ k ⟨⟩
  rfl

theorem lasts_trans {first second third : Option Job} (one : Lasts first second) (two : Lasts second third) :
    Lasts first third := by
  refine ⟨fun absent => two.1 (one.1 absent), fun j stored closed k found => ?_⟩
  cases middle : second with
  | none =>
    cases (two.1 middle).symm.trans found
  | some m =>
    have same := one.2 j stored closed m middle
    exact (two.2 m middle (same ▸ closed) k found).trans same

theorem lasting_refl (w : World) : Lasting w w := ⟨Finset.Subset.refl _, fun _ _ => lasts_refl _⟩

theorem lasting_trans {first second third : World} (one : Lasting first second) (two : Lasting second third) :
    Lasting first third :=
  ⟨one.issued.trans two.issued, fun id member => lasts_trans (one.jobs id member) (two.jobs id (one.issued member))⟩

section Operations
variable {o : Options} {w v : World}
variable {before j : Job} {id worker : String}

theorem running_live (runs : j.status = .running) : terminal j.status = false := by
  rw [runs]
  rfl

theorem queued_live (queued : j.status = .queued) : terminal j.status = false := by
  rw [queued]
  rfl

theorem sound_ended (sound : Sound o w) (stored : w.jobs.lookup id = some before) (live : terminal before.status = false)
    (named : j.id = id) (ours : j.userID = before.userID) (ends : terminal j.status) (jobs : v.jobs = w.jobs)
    (running : v.running = w.running) (order : v.terminalOrder = w.terminalOrder) (issued : v.issued = w.issued)
    (cancels : ∀ other, other ≠ id → other ∈ w.cancel → other ∈ v.cancel)
    (submissions : ∀ other s, v.submissions.lookup other = some s → w.submissions.lookup other = some s) :
    Sound o (ended o v id j) := by
  have filed : Filed { v with
      jobs := v.jobs.insert id j
      running := v.running.erase j.userID
      terminalOrder := v.terminalOrder ++ [id] } := by
    have base := filed_ends sound.toFiled stored live named ours ends
    rw [jobs, running, order]
    exact ⟨fun other k found => issued ▸ base.named other k found, base.active, base.listed, base.once⟩
  have found {other : String} {k : Job} (left : (ended o v id j).jobs.lookup other = some k) :
      other = id ∧ k = j ∨ w.jobs.lookup other = some k := jobs ▸ ended_some left
  refine ⟨prune_filed filed, prune_few o _, fun other k left runs => ?_, fun other s there k left => ?_⟩
  · rcases found left with ⟨rfl, rfl⟩ | old
    · cases ends.symm.trans (running_live runs)
    · refine cancels other ?_ (sound.cancels other k old runs)
      rintro rfl
      have kept := prune_some filed left
      cases (AList.lookup_insert _).symm.trans kept
      cases ends.symm.trans (running_live runs)
  · have users := sound.users other s (submissions other s there)
    rcases found left with ⟨rfl, rfl⟩ | old
    · exact ours.trans (users before stored)
    · exact users k old

theorem sound_aside (sound : Sound o w) (jobs : v.jobs = w.jobs) (running : v.running = w.running)
    (cancel : v.cancel = w.cancel) (order : v.terminalOrder = w.terminalOrder) (issued : v.issued = w.issued)
    (submissions : ∀ id s, v.submissions.lookup id = some s →
      ∃ t, w.submissions.lookup id = some t ∧ t.job = s.job) : Sound o v := by
  refine ⟨⟨?_, ?_, ?_, ?_⟩, ?_, ?_, ?_⟩
  · rw [jobs, issued]
    exact sound.named
  · rw [jobs, running]
    exact sound.active
  · rw [jobs, order]
    exact sound.listed
  · rw [order]
    exact sound.once
  · rw [order]
    exact sound.few
  · rw [jobs, cancel]
    exact sound.cancels
  · rw [jobs]
    intro id s there
    obtain ⟨t, before, same⟩ := submissions id s there
    rw [← same]
    exact sound.users id t before

theorem resubmitted {s : Submission} {before : Submission} (here : w.submissions.lookup id = some before)
    (same : before.job = s.job) (other : String) (t : Submission)
    (there : (w.submissions.insert id s).lookup other = some t) :
    ∃ u, w.submissions.lookup other = some u ∧ u.job = t.job := by
  rw [insert_lookup] at there
  split at there
  · next at_id =>
    cases there
    subst at_id
    exact ⟨before, here, same⟩
  · exact ⟨t, there, rfl⟩

theorem erased_submission (id other : String) (t : Submission)
    (there : (w.submissions.erase id).lookup other = some t) :
    ∃ u, w.submissions.lookup other = some u ∧ u.job = t.job :=
  ⟨t, lookup_of_erase there, rfl⟩

theorem sound_submit (sound : Sound o w) (steady : Steady w) {user executorID : String} {input : Bytes}
    {blobRefs : List String} {now : Time} (proper : id ≠ "") (fresh : id ∉ w.issued) :
    Sound o (submit { w with issued := insert id w.issued } id user executorID input blobRefs now) := by
  have absent : w.jobs.lookup id = none := by
    cases stored : w.jobs.lookup id with
    | none => rfl
    | some j => exact absurd (steady.known id j stored) fresh
  have filed : Filed { w with issued := insert id w.issued } :=
    ⟨fun other j stored => (sound.named other j stored).imp_right (And.imp_left Finset.mem_insert_of_mem),
      sound.active, sound.listed, sound.once⟩
  unfold submit
  split
  · exact ⟨filed, sound.few, sound.cancels, sound.users⟩
  · next idle =>
    have free : w.running.lookup user = none := by
      cases has : w.running.lookup user with
      | none => rfl
      | some other =>
        obtain ⟨j, stored, _, live⟩ := (sound.active user other).mp has
        refine absurd ?_ idle
        show (w.running.lookup user).any _
        rw [has]
        exact decide_eq_true ((sound.named other j stored).2.2 live)
    have published := filed_publish filed absent (Finset.mem_insert_self id w.issued) proper free
      (j := ⟨id, user, executorID, .queued, some now, none, none, input, [], blobRefs, [], 0, false, ""⟩) rfl rfl rfl
    refine ⟨⟨published.named, published.active, published.listed, published.once⟩, sound.few, fun other j found runs => ?_,
      fun other s there j found => ?_⟩
    · change (w.jobs.insert id _).lookup other = some j at found
      rw [insert_lookup] at found
      split at found
      · cases found
        cases runs
      · exact sound.cancels other j found runs
    · change (w.submissions.insert id _).lookup other = some s at there
      change (w.jobs.insert id _).lookup other = some j at found
      rw [insert_lookup] at there found
      split at there
      · next here =>
        rw [if_pos here] at found
        cases there
        cases found
        rfl
      · next apart =>
        rw [if_neg apart] at found
        exact sound.users other s there j found

def stillQueued (w : World) (id : String) : Bool := (w.jobs.lookup id).any fun j => j.status = .queued

theorem still_queued (still : stillQueued w id) : ∃ j, w.jobs.lookup id = some j ∧ j.status = .queued := by
  obtain ⟨j, stored, queued⟩ := (Option.any_eq_true ..).mp still
  exact ⟨j, stored, of_decide_eq_true queued⟩

theorem sound_drop (sound : Sound o w) (here : w.submissions.lookup id = some (.unsaved j)) (named : j.id = id)
    (still : stillQueued w id) : Sound o (drop w id j) := by
  obtain ⟨before, stored, queued⟩ := still_queued still
  subst named
  have dropped := filed_drop sound.toFiled stored (queued_live queued) (sound.users j.id _ here before stored)
  exact ⟨⟨dropped.named, dropped.active, dropped.listed, dropped.once⟩, sound.few,
    fun other k found => sound.cancels other k (lookup_of_erase found),
    fun other s there k found => sound.users other s (lookup_of_erase there) k (lookup_of_erase found)⟩

theorem finished_terminal (j : Job) (out : Bytes) (err : Option RunError) (now : Time) :
    terminal (finished j out err now).status := by
  cases err with
  | none => rfl
  | some error =>
    show terminal (if error.canceled then .canceled else .failed)
    split <;> rfl

theorem sound_finish (sound : Sound o w) (steady : Steady w) (out : Bytes) (err : Option RunError)
    (now : Time) (has : holds w worker = some (id, j)) : Sound o (finishRun o w worker id j out err now) := by
  obtain ⟨_, running, stored⟩ := steady.held worker id j has
  exact sound_ended (v := { w with cancel := w.cancel.erase id, workers := w.workers.erase worker }) sound stored
    (running_live running) (sound.named id j stored).1 rfl (finished_terminal j out err now) rfl rfl rfl rfl
    (fun _ apart member => Finset.mem_erase.mpr ⟨apart, member⟩) fun _ _ there => there

theorem sound_runs (sound : Sound o w) (stored : w.jobs.lookup id = some before)
    (live : terminal before.status = false) (named : j.id = id) (ours : j.userID = before.userID) (runs : j.status = .running)
    (jobs : v.jobs = w.jobs.insert id j) (running : ∀ user, v.running.lookup user = w.running.lookup user)
    (cancel : ∀ other, other = id ∨ other ∈ w.cancel → other ∈ v.cancel) (order : v.terminalOrder = w.terminalOrder)
    (issued : v.issued = w.issued) (submissions : v.submissions = w.submissions) : Sound o v := by
  have filed := filed_goes_on sound.toFiled stored live named ours (running_live runs)
  have found (other : String) : v.jobs.lookup other = if other = id then some j else w.jobs.lookup other := by
    rw [jobs, insert_lookup]
  refine ⟨⟨?_, ?_, ?_, ?_⟩, ?_, fun other k there still => cancel other ?_, fun other s there k kept => ?_⟩
  · rw [jobs, issued]
    exact filed.named
  · intro user other
    rw [running, jobs]
    exact filed.active user other
  · rw [order, jobs]
    exact filed.listed
  · rw [order]
    exact sound.once
  · rw [order]
    exact sound.few
  · rw [found] at there
    split at there
    · next here => exact .inl here
    · exact .inr (sound.cancels other k there still)
  · rw [submissions] at there
    rw [found] at kept
    split at kept
    · next here =>
      cases kept
      subst here
      exact ours.trans (sound.users other s there before stored)
    · exact sound.users other s there k kept

theorem sound_start (sound : Sound o w) (worker id : String) (now : Time) : Sound o (start w worker id now) := by
  unfold start
  split
  · next j picked =>
    obtain ⟨stored, waits⟩ := filter_eq_some_iff.mp picked
    have queued : j.status = .queued := of_decide_eq_true waits
    have has := (sound.active j.userID id).mpr ⟨j, stored, rfl, queued_live queued⟩
    refine sound_runs sound (j := { j with status := .running, startedAt := some now }) stored (queued_live queued)
      (sound.named id j stored).1 rfl rfl rfl (fun user => ?_) (fun other => Finset.mem_insert.mpr) rfl rfl rfl
    show (w.running.insert j.userID id).lookup user = _
    rw [insert_lookup]
    split
    · next same =>
      subst same
      exact has.symm
    · rfl
  · exact sound_aside sound rfl rfl rfl rfl rfl fun id s there => ⟨s, there, rfl⟩

theorem logged_same (j : Job) (text : Bytes) : (logged j text).id = j.id ∧ (logged j text).userID = j.userID ∧
    (logged j text).status = j.status := by
  unfold logged
  dsimp only
  split <;> exact ⟨rfl, rfl, rfl⟩

theorem erase_absent {α : Type} {table : Table α} (absent : table.lookup id = none) : table.erase id = table :=
  AList.ext (kerase_of_notMem_keys (AList.lookup_eq_none.mp absent))

/-- When `Submit` takes its job back, or rejects it, the job is where it left it, or it is gone and the user has
    no other. -/
def unmoved (w : World) : Action → Bool
  | .drop id => stillQueued w id || (w.submissions.lookup id).any fun s =>
    (w.jobs.lookup id).isNone && (w.running.lookup s.job.userID).isNone
  | .reject id => stillQueued w id
  | _ => true

theorem sound_gone (sound : Sound o w) {id : String} {j : Job} (named : j.id = id)
    (gone : w.jobs.lookup id = none) (none_left : w.running.lookup j.userID = none) : Sound o (drop w id j) := by
  subst named
  exact sound_aside sound (erase_absent gone) (erase_absent none_left) rfl rfl rfl (erased_submission j.id)

theorem sound_step {action : Action} (sound : Sound o w) (steady : Steady w) (guard : unmoved w action)
    (stepped : step o w action = some v) : Sound o v := by
  cases action with
  | submit =>
    obtain ⟨⟨proper, fresh⟩, same⟩ := ite_none_right_eq_some.mp stepped
    cases same
    exact sound_submit sound steady proper fresh
  | saved id ok =>
    simp only [step] at stepped
    split at stepped <;> cases stepped
    next here =>
      refine sound_aside sound rfl rfl rfl rfl rfl (resubmitted here ?_)
      cases ok <;> rfl
  | drop id =>
    simp only [step] at stepped
    split at stepped <;> cases stepped
    next j here =>
      have named : j.id = id := (steady.submits id _ here).named
      rcases Bool.or_eq_true _ _ ▸ guard with still | gone
      · exact sound_drop sound here named still
      · rw [here] at gone
        obtain ⟨absent, idle⟩ := Bool.and_eq_true _ _ ▸ gone
        exact sound_gone sound named (isNone_iff_eq_none.mp absent) (isNone_iff_eq_none.mp idle)
  | enqueue id =>
    simp only [step] at stepped
    split at stepped <;> cases stepped
    next here =>
      unfold enqueue
      split
      · exact sound_aside sound rfl rfl rfl rfl rfl (erased_submission id)
      · exact sound_aside sound rfl rfl rfl rfl rfl (resubmitted here rfl)
  | reject id =>
    simp only [step] at stepped
    split at stepped <;> cases stepped
    next j here =>
      obtain ⟨before, stored, queued⟩ := still_queued guard
      obtain rfl : j.id = id := (steady.submits id _ here).named
      exact sound_ended (v := { w with submissions := w.submissions.erase j.id }) sound stored (queued_live queued) rfl
        (sound.users j.id _ here before stored).symm rfl rfl rfl rfl rfl (fun _ _ member => member)
        fun other s there => lookup_of_erase there
  | cancel id =>
    cases stepped
    unfold cancel
    split
    · next j stored =>
      split
      · exact sound
      · next live =>
        exact sound_ended sound stored (eq_false_of_ne_true fun closed => live (.inl closed)) (sound.named id j stored).1
          rfl rfl rfl rfl rfl rfl (fun _ _ member => member) fun _ _ there => there
    · exact sound
  | take worker | started worker =>
    simp only [step] at stepped
    split at stepped <;> cases stepped
    exact sound_aside sound rfl rfl rfl rfl rfl fun id s there => ⟨s, there, rfl⟩
  | start worker now =>
    simp only [step] at stepped
    split at stepped <;> cases stepped
    exact sound_start sound worker _ now
  | chunk worker text =>
    simp only [step] at stepped
    split at stepped <;> cases stepped
    next id j here =>
      obtain ⟨member, running, stored⟩ := steady.held worker id j (holds_of here)
      obtain ⟨sameID, sameUser, sameStatus⟩ := logged_same j text
      refine sound_runs sound stored (running_live running) (sameID.trans (sound.named id j stored).1) sameUser
        (sameStatus.trans running) rfl (fun _ => rfl) ?_ rfl rfl rfl
      rintro other (rfl | inside)
      · exact member
      · exact inside
  | finish worker out err now =>
    simp only [step] at stepped
    split at stepped
    · next here =>
      obtain ⟨_, same⟩ := ite_none_right_eq_some.mp stepped
      cases same
      exact sound_finish sound steady [] err now (holds_of here)
    · next here =>
      cases stepped
      exact sound_finish sound steady out err now (holds_of here)
    · cases stepped

/-- Only a job that lives is changed. -/
theorem step_lasting {action : Action} (steady : Steady w) (guard : unmoved w action)
    (stepped : step o w action = some v) : Lasting w v := by
  refine ⟨step_issued stepped, fun id issued => ?_⟩
  cases after : v.jobs.lookup id with
  | none => exact ⟨fun _ => rfl, fun _ _ _ _ absurd => by cases absurd⟩
  | some k =>
    suffices w.jobs.lookup id = some k ∨ ∃ j, w.jobs.lookup id = some j ∧ terminal j.status = false by
      rcases this with same | ⟨j, stored, live⟩
      · exact same ▸ lasts_refl _
      · refine ⟨fun absent => (by cases absent.symm.trans stored), fun j' found closed => ?_⟩
        cases stored.symm.trans found
        cases live.symm.trans closed
    cases step_comes steady stepped after with
    | stays before => exact .inl before
    | fresh new => exact absurd issued new
    | canceled before live => exact .inr ⟨_, before, live⟩
    | rejected =>
      obtain ⟨j, stored, queued⟩ := still_queued guard
      exact .inr ⟨j, stored, queued_live queued⟩
    | started _ before queued => exact .inr ⟨_, before, queued_live queued⟩
    | logged here =>
      obtain ⟨_, running, stored⟩ := steady.held _ _ _ (holds_of here)
      exact .inr ⟨_, stored, running_live running⟩
    | finished has =>
      obtain ⟨_, running, stored⟩ := steady.held _ _ _ has
      exact .inr ⟨_, stored, running_live running⟩

end Operations

theorem restarted_terminal (j : Job) (now : Time) : terminal (restarted j now).status := by
  unfold restarted
  split
  · next closed => exact closed
  · rfl

theorem restarted_id (j : Job) (now : Time) : (restarted j now).id = j.id := by
  unfold restarted
  split <;> rfl

theorem listed_from (jobs : List Job) (distinct : (jobs.map Job.id).Nodup) (table : Table Job) (id : String) (j : Job) :
    (jobs.foldl (fun table j => table.insert j.id j) table).lookup id = some j ↔
      (j ∈ jobs ∧ j.id = id) ∨ id ∉ jobs.map Job.id ∧ table.lookup id = some j := by
  induction jobs generalizing table with
  | nil => simp
  | cons first rest ih =>
    obtain ⟨apart, others⟩ := nodup_cons.mp distinct
    rw [foldl_cons, ih others, insert_lookup]
    by_cases here : id = first.id
    · subst here
      simp only [if_true, apart, not_false_eq_true, true_and, some.injEq, mem_cons, map_cons,
        not_true_eq_false, false_and, or_false]
      constructor
      · rintro (⟨member, same⟩ | rfl)
        · exact absurd (same ▸ mem_map_of_mem member) apart
        · exact ⟨.inl rfl, rfl⟩
      · rintro ⟨rfl | member, same⟩
        · exact .inr rfl
        · exact .inl ⟨member, same⟩
    · rw [if_neg here]
      simp only [mem_cons, map_cons, here, false_or]
      refine or_congr_left (and_congr_left fun same => ?_)
      refine (or_iff_right ?_).symm
      rintro rfl
      exact here same.symm

theorem listed_lookup (jobs : List Job) (distinct : (jobs.map Job.id).Nodup) (id : String) (j : Job) :
    (listed jobs).lookup id = some j ↔ j ∈ jobs ∧ j.id = id := by
  refine (listed_from jobs distinct ∅ id j).trans (or_iff_left ?_)
  rintro ⟨_, ⟨⟩⟩

theorem opened_sound (o : Options) (stored : List Job) (now : Time) (distinct : (stored.map Job.id).Nodup) :
    Sound o (opened o stored now) := by
  have ids : (stored.map (restarted · now)).map Job.id = stored.map Job.id := by
    rw [List.map_map]
    exact map_congr_left fun j _ => restarted_id j now
  have apart : ((stored.map (restarted · now)).map Job.id).Nodup := ids ▸ distinct
  have closed {j : Job} (member : j ∈ stored.map (restarted · now)) : terminal j.status := by
    obtain ⟨old, _, rfl⟩ := mem_map.mp member
    exact restarted_terminal old now
  have found := listed_lookup (stored.map (restarted · now)) apart
  have order := (mergeSort_perm (stored.map (restarted · now)) fun a b => jobFinishedAt a ≤ jobFinishedAt b).map Job.id
  have filed : Filed ⟨listed (stored.map (restarted · now)), ∅, ∅, [],
      ((stored.map (restarted · now)).mergeSort fun a b => jobFinishedAt a ≤ jobFinishedAt b).map Job.id, ∅, ∅,
      (stored.map Job.id).toFinset⟩ := by
    constructor
    · intro id j there
      obtain ⟨member, named⟩ := (found id j).mp there
      refine ⟨named, ?_, fun lives => ?_⟩
      · show id ∈ (stored.map Job.id).toFinset
        rw [List.mem_toFinset, ← ids, ← named]
        exact mem_map_of_mem member
      · cases (closed member).symm.trans lives
    · intro user id
      refine iff_of_false nofun ?_
      rintro ⟨j, there, _, lives⟩
      cases (closed ((found id j).mp there).1).symm.trans lives
    · intro id
      refine order.mem_iff.trans ⟨?_, ?_⟩
      · intro member
        obtain ⟨j, inside, named⟩ := mem_map.mp member
        exact ⟨j, (found id j).mpr ⟨inside, named⟩, closed inside⟩
      · rintro ⟨j, there, _⟩
        obtain ⟨inside, rfl⟩ := (found id j).mp there
        exact mem_map_of_mem inside
    · exact order.nodup_iff.mpr apart
  refine ⟨prune_filed filed, prune_few o _, fun id j there runs => ?_, fun _ _ absurd => by cases absurd⟩
  cases (closed ((found id j).mp (prune_some filed there)).1).symm.trans (running_live runs)

/-- One job at work for a user, which `running` names, and each job that has ended listed once, no more of them
    than are retained. -/
structure Consistent (o : Options) (w : World) : Prop where
  one : ∀ id other j k, w.jobs.lookup id = some j → w.jobs.lookup other = some k → terminal j.status = false →
    terminal k.status = false → j.userID = k.userID → id = other
  names : ∀ user id, w.running.lookup user = some id ↔
    ∃ j, w.jobs.lookup id = some j ∧ j.userID = user ∧ terminal j.status = false
  once : w.terminalOrder.Nodup
  listed : ∀ id, id ∈ w.terminalOrder ↔ ∃ j, w.jobs.lookup id = some j ∧ terminal j.status
  retained : count (fun j => terminal j.status) w.jobs ≤ o.retainedJobs

theorem sound_consistent {o : Options} {w : World} (sound : Sound o w) : Consistent o w := by
  refine ⟨?_, sound.active, sound.once, sound.listed, ?_⟩
  · intro id other j k stored found live lives same
    have mine := (sound.active k.userID id).mpr ⟨j, stored, same, live⟩
    have theirs := (sound.active k.userID other).mpr ⟨k, found, rfl, lives⟩
    exact some.inj (mine.symm.trans theirs)
  · have few := count_le_card (fun j : Job => terminal j.status) w.jobs w.terminalOrder.toFinset fun id j stored closed =>
      mem_toFinset.mpr ((sound.listed id).mpr ⟨j, stored, closed⟩)
    rw [toFinset_card_of_nodup sound.once] at few
    exact few.trans sound.few

theorem jobs_consistent (o : Options) (stored : List Job) (now : Time) (distinct : (stored.map Job.id).Nodup)
    {middle after : World} {first later : List Action}
    (guarded : Guarded (step o) (fun w action => unmoved w action) (opened o stored now) (first ++ later))
    (reached : run (step o) (opened o stored now) first = some middle) (ran : run (step o) middle later = some after) :
    Consistent o after ∧ Lasting middle after := by
  obtain ⟨before, onward⟩ := guarded_append first later guarded reached
  have goes : ∀ w action next, unmoved w action → Sound o w ∧ Steady w → step o w action = some next →
      Sound o next ∧ Steady next := fun _ _ _ guard ⟨sound, steady⟩ stepped =>
    ⟨sound_step sound steady guard stepped, step_steady steady stepped⟩
  have sound := guarded_run_invariant (fun w => Sound o w ∧ Steady w) goes before reached
    ⟨opened_sound o stored now distinct, opened_steady o stored now⟩
  have both : (Sound o after ∧ Steady after) ∧ Lasting middle after := by
    refine guarded_run_invariant (fun w => (Sound o w ∧ Steady w) ∧ Lasting middle w) ?_ onward ran ⟨sound, lasting_refl middle⟩
    rintro w action next guard ⟨still, lasts⟩ stepped
    exact ⟨goes w action next guard still stepped, lasting_trans lasts (step_lasting still.2 guard stepped)⟩
  exact ⟨sound_consistent both.1.1, both.2⟩

def small : Options := ⟨1, 1, Nat.one_pos⟩

def dropping : List Action :=
  [.submit "job-1" "ada" "executor-ada" [49] [] 1, .cancel "job-1" 2, .submit "job-2" "ada" "executor-ada" [50] [] 3,
    .saved "job-1" false, .drop "job-1"]

theorem job_dropped : ∃ w, run (step small) (opened small [] 0) dropping = some w ∧ ¬ Consistent small w := by
  obtain ⟨w, ran, left⟩ := map_eq_some_iff.mp (show (run (step small) (opened small [] 0) dropping).map (fun w =>
        (w.running.lookup "ada", (w.jobs.lookup "job-2").map fun j => (j.userID, terminal j.status))) =
      some (none, some ("ada", false)) by decide +kernel)
  simp only [Prod.mk.injEq, map_eq_some_iff] at left
  obtain ⟨free, j, stored, ours, live⟩ := left
  refine ⟨w, ran, fun consistent => ?_⟩
  cases free.symm.trans ((consistent.names "ada" "job-2").mpr ⟨j, stored, ours, live⟩)

def working : List Action :=
  [.submit "job-1" "ada" "executor-ada" [49] [] 1, .saved "job-1" true, .enqueue "job-1",
    .submit "job-2" "grace" "executor-grace" [50] [] 2, .saved "job-2" true, .enqueue "job-2", .reject "job-2",
    .take "worker", .start "worker" 3, .started "worker", .chunk "worker" [104, 105], .cancel "job-1" 4,
    .finish "worker" [] (some ⟨true, "context canceled"⟩) 5, .submit "job-3" "ada" "executor-ada" [51] [] 6,
    .saved "job-3" true, .enqueue "job-3", .cancel "job-3" 7, .take "worker", .start "worker" 8]

theorem working_consistent : ∃ w, run (step small) (opened small [] 0) working = some w ∧ Consistent small w := by
  obtain ⟨w, ran, _⟩ := map_eq_some_iff.mp
    (show (run (step small) (opened small [] 0) working).map (fun w => w.terminalOrder) = some ["job-3"] by
      decide +kernel)
  have guarded : Guarded (step small) (fun w action => unmoved w action) (opened small [] 0) ([] ++ working) :=
    checked_guarded unmoved (fun _ _ passed => passed) (opened small [] 0) working (by decide +kernel)
  exact ⟨w, ran, (jobs_consistent small [] 0 nodup_nil guarded rfl ran).1⟩

end PieRelay.JobConsistency
