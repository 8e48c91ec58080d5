import PieRelay.ProvisionFlights
import PieRelay.UserRequests

/-!
The limits of an executor and the quota of its user. Components provision with limits that each makes from the
quota: the user API (cmd/manager/main.go), third-party `Provision` (internal/thirdparty/service.go), and the
controller when it reconciles and when it repairs (internal/controller/controller.go). One step after the other is
taken for an active user whose quota stays; the runtime, the store and the contexts answer as they like.
-/
namespace PieRelay.QuotaLimits
open List Option
open ControlPlane (ResourceQuota)
open Executions
open ExecutorRegistry
open RoomRegistry (Time)

inductive Site where
  | api
  | provision
  | reconcile
  | repair
  deriving DecidableEq

def limitsFromQuota (quota : ResourceQuota) : ExecutorLimits := ⟨quota.cpus, quota.memoryBytes, quota.pids, 0⟩

def executorMatchesQuota (e : Executor) (quota : ResourceQuota) : Bool :=
  e.cpus = quota.cpus ∧ e.memoryBytes = quota.memoryBytes ∧ e.pidsLimit = quota.pids

def siteLimits (quota : ResourceQuota) : Site → ExecutorLimits
  | .api => UserRequests.executorLimits quota
  | .provision => limitsFromQuota quota
  | .reconcile => limitsFromQuota quota
  | .repair => limitsFromQuota quota

def asks (quota : ResourceQuota) (found : Option Executor) : Site → Bool
  | .api => true
  | .provision => true
  | .reconcile => found.any fun e => e.status ≠ .stopped ∧ (e.status ≠ .ready ∨ !executorMatchesQuota e quota)
  | .repair => found.any fun e => e.status ≠ .stopped

structure Visit where
  site : Site
  call : String
  now : Time
  schedule : List Action

def visit (o : Options) (positiveCPUs : String → Bool) (quota : ResourceQuota) (user : String) (w : World) (x : Visit) :
    Option World :=
  if asks quota (w.executors.lookup user) x.site ∧ validExecutorLimits positiveCPUs (siteLimits quota x.site) then
    if x.schedule.all fun action => continues action = some x.call then
      (run (step o) w (.ensure x.call user (some (siteLimits quota x.site)) x.now :: x.schedule)).filter fun next =>
        (next.calls.lookup x.call).isNone
    else none
  else some w

/-- The limits of the record are those of the quota, and nobody who asks finds them changed. -/
def Coherent (quota : ResourceQuota) (user : String) (w : World) : Prop :=
  ∃ e, w.executors.lookup user = some e ∧ e.cpus = quota.cpus ∧ e.memoryBytes = quota.memoryBytes ∧
    e.pidsLimit = quota.pids ∧ e.diskBytes = quota.diskBytes ∧
    ∀ site, executorHasLimits e (siteLimits quota site)

/-- No further step that finds the executor running and undrifted calls the runtime to make it again. -/
def Undisturbed (o : Options) (positiveCPUs : String → Bool) (quota : ResourceQuota) (user : String) (w : World) : Prop :=
  ∀ y after, visit o positiveCPUs quota user w y = some after → (∀ now, .observed y.call .gone now ∉ y.schedule) →
    asks quota (w.executors.lookup user) y.site →
    validExecutorLimits positiveCPUs (siteLimits quota y.site) → ∀ outcome, .ran y.call outcome ∉ y.schedule

def Succeeded (w : World) (x : Visit) (next : World) : Prop :=
  w.returned.lookup x.call = none ∧ ∃ e, next.returned.lookup x.call = some (.own (e, none))

def Own (user : String) (limits : ExecutorLimits) (w : World) (call : String) : Option Phase → Prop
  | none => w.provisioning.lookup user = none ∧ ∀ e, w.returned.lookup call = some (.own (e, none)) →
      w.executors.lookup user = some e ∧ e.status = .ready ∧ executorHasLimits e limits
  | some (.reconciling asked limited e) => asked = user ∧ limited = some limits ∧ w.provisioning.lookup user = none ∧
      w.executors.lookup user = some e ∧ e.status = .ready
  | some (.observing asked limited e) => asked = user ∧ limited = some limits ∧ w.provisioning.lookup user = none ∧
      w.executors.lookup user = some e ∧ e.status = .ready
  | some (.marking _) => w.provisioning.lookup user = none
  | some (.markSaving _) => w.provisioning.lookup user = none
  | some (.saving asked e) => asked = user ∧ executorHasLimits e limits
  | some (.queueing asked e) => asked = user ∧ executorHasLimits e limits
  | some (.running asked e) => asked = user ∧ executorHasLimits e limits
  | some (.settling asked e failure _) => asked = user ∧ executorHasLimits e limits ∧
      (failure = none → e.status = .ready)
  | some (.finishing asked e failure _) => asked = user ∧ executorHasLimits e limits ∧
      (failure = none → e.status = .ready)
  | some (.leaving (e, failure) _) => w.provisioning.lookup user = none ∧ w.executors.lookup user = some e ∧
      executorHasLimits e limits ∧ (failure = none → e.status = .ready)
  | _ => False

section Alone
variable {o : Options} {user call : String} {limits : ExecutorLimits} {w next : World}
variable {e : Executor} {positiveCPUs : String → Bool} {quota : ResourceQuota} {x : Visit}

theorem claimed_limits (before : Option Executor) (user : String) (limits : ExecutorLimits) (now : Time) :
    executorHasLimits (claimed before user (some limits) now) limits := by
  simp [executorHasLimits, claimed, withLimits]

theorem has_limits (e : Executor) (limits : ExecutorLimits) : executorHasLimits e limits ↔
    e.cpus = limits.cpus ∧ e.memoryBytes = limits.memoryBytes ∧ e.pidsLimit = limits.pidsLimit ∧
      e.diskBytes = limits.diskBytes :=
  decide_eq_true_iff

theorem unchanged_limits (same : limitsChanged (some limits) e = false) : executorHasLimits e limits := by
  simpa [limitsChanged] using same

section
variable (free : w.provisioning.lookup user = none)
include free

theorem own_refused (failure : Failure) : Own user limits (returns w call (.own (refused failure))) call
      ((returns w call (.own (refused failure))).calls.lookup call) := by
  rw [(return_here w call _).1]
  refine ⟨free, fun e answered => ?_⟩
  cases (return_here w call _).2.symm.trans answered

theorem own_returned (stored : w.executors.lookup user = some e) (ready : e.status = .ready)
    (limited : executorHasLimits e limits) : Own user limits (returns w call (.own (e, none))) call
      ((returns w call (.own (e, none))).calls.lookup call) := by
  rw [(return_here w call _).1]
  refine ⟨free, fun other answered => ?_⟩
  cases (return_here w call _).2.symm.trans answered
  exact ⟨stored, ready, limited⟩

theorem own_claim (now : Time) :
    Own user limits (claim o w call user (some limits) now) call ((claim o w call user (some limits) now).calls.lookup call) := by
  unfold claim
  rw [free]
  dsimp only
  split
  · exact own_refused free .capacity
  · rw [move_here]
    exact ⟨rfl, claimed_limits _ user limits now⟩

theorem own_ensure (now : Time) : Own user limits (ensure o w call user (some limits) now) call
      ((ensure o w call user (some limits) now).calls.lookup call) := by
  unfold ensure
  split
  · split
    · next picked =>
      obtain ⟨stored, ready⟩ := filter_eq_some_iff.mp picked
      rw [move_here]
      exact ⟨rfl, rfl, free, stored, of_decide_eq_true ready⟩
    · exact own_claim free now
  · exact own_refused free .invalidUserID

end

theorem own_save {phase : Phase} {answer : Saved} (own : Own user limits w call (some phase))
    (went : saved w call answer phase = some next) : Own user limits next call (next.calls.lookup call) := by
  cases phase with
  | markSaving e =>
    cases went
    have free : (written w e answer).provisioning.lookup user = none := by
      cases answer <;> exact own
    exact own_refused free .diskQuota
  | saving =>
    obtain ⟨rfl, limited⟩ := own
    cases went
    rw [move_here]
    split
    · exact ⟨rfl, limited⟩
    · exact ⟨rfl, limited, nofun⟩
  | settling =>
    obtain ⟨rfl, limited, ready⟩ := own
    cases went
    rw [move_here]
    refine ⟨rfl, limited, fun fine => ?_⟩
    split at fine
    · cases fine
    · exact ready fine
  | stopSaving | storing => exact own.elim
  | _ => cases went

theorem own_step {action : Action} (own : Own user limits w call (w.calls.lookup call))
    (mine : continues action = some call) (stepped : step o w action = some next) :
    Own user limits next call (next.calls.lookup call) := by
  cases step_cases stepped with
  | reconciled here =>
    cases mine
    rw [here] at own
    obtain ⟨rfl, rfl, free, stored, ready⟩ := own
    unfold reconciled
    split
    · rw [move_here]
      exact ⟨rfl, rfl, free, stored, ready⟩
    · rw [move_here]
      exact free
    · exact own_refused free _
  | observed here =>
    cases mine
    rw [here] at own
    obtain ⟨rfl, rfl, free, stored, ready⟩ := own
    unfold observed
    split
    · split
      · exact own_claim free _
      · next same => exact own_returned free stored ready (unchanged_limits (Bool.eq_false_iff.mpr same))
    · exact own_claim free _
    · exact own_refused free .runtime
  | mark here =>
    cases mine
    rw [here] at own
    unfold mark
    split
    · rw [move_here]
      exact own
    · rw [move_here]
      exact own
  | save here went =>
    cases mine
    rw [here] at own
    exact own_save own went
  | slot here =>
    cases mine
    rw [here] at own
    rw [move_here]
    exact own
  | cancel here =>
    cases mine
    rw [here] at own
    rw [move_here]
    exact ⟨own.1, own.2, nofun⟩
  | ran here =>
    cases mine
    rw [here] at own
    unfold ran
    split
    · rw [move_here]
      exact ⟨own.1, own.2, fun _ => rfl⟩
    · rw [move_here]
      exact ⟨own.1, own.2, nofun⟩
  | finish here =>
    cases mine
    rw [here] at own
    obtain ⟨rfl, limited, ready⟩ := own
    unfold finishProvision
    rw [move_here]
    exact ⟨AList.lookup_erase _ _, AList.lookup_insert _, limited, ready⟩
  | @leave call result slot here =>
    cases mine
    rw [here] at own
    obtain ⟨e, failure⟩ := result
    obtain ⟨free, stored, limited, ready⟩ := own
    cases failure with
    | none => exact own_returned free stored (ready rfl) limited
    | some =>
      rw [(return_here _ call _).1]
      refine ⟨free, fun other answered => ?_⟩
      cases (return_here _ call _).2.symm.trans answered
  | wake here | giveUp here =>
    cases mine
    rw [here] at own
    exact own.elim
  | _ => cases mine

theorem own_run {schedule : List Action} (mine : ∀ action ∈ schedule, continues action = some call)
    (own : Own user limits w call (w.calls.lookup call)) (ran : run (step o) w schedule = some next) :
    Own user limits next call (next.calls.lookup call) := by
  have guarded : Guarded (step o) (fun _ action => continues action = some call) w schedule :=
    each_guarded w schedule fun _ action member => mine action member
  exact guarded_run_invariant (fun w => Own user limits w call (w.calls.lookup call))
    (fun _ _ _ mine own stepped => own_step own mine stepped) guarded ran own

theorem visited (visited : visit o positiveCPUs quota user w x = some next) (asked : asks quota (w.executors.lookup user) x.site)
    (valid : validExecutorLimits positiveCPUs (siteLimits quota x.site)) :
    unused w x.call ∧ (∀ action ∈ x.schedule, continues action = some x.call) ∧
      run (step o) (ensure o w x.call user (some (siteLimits quota x.site)) x.now) x.schedule = some next ∧
      next.calls.lookup x.call = none := by
  unfold visit at visited
  rw [if_pos ⟨asked, valid⟩] at visited
  split at visited
  · next mine =>
    obtain ⟨ran, returned⟩ := filter_eq_some_iff.mp visited
    obtain ⟨started, ensured, onward⟩ := run_cons ran
    cases step_cases ensured with
    | ensure new =>
      refine ⟨new, fun action member => ?_, onward, isNone_iff_eq_none.mp returned⟩
      exact of_decide_eq_true (all_eq_true.mp mine action member)
  · cases visited

section
variable (free : w.provisioning.lookup user = none) (visits : visit o positiveCPUs quota user w x = some next)
include free visits

theorem visit_own :
    next = w ∨ Own user (siteLimits quota x.site) next x.call none := by
  by_cases taken : asks quota (w.executors.lookup user) x.site ∧
      validExecutorLimits positiveCPUs (siteLimits quota x.site)
  · obtain ⟨_, mine, ran, returned⟩ := visited visits taken.1 taken.2
    have own := own_run mine (own_ensure (o := o) free x.now) ran
    rw [returned] at own
    exact .inr own
  · unfold visit at visits
    rw [if_neg taken] at visits
    cases visits
    exact .inl rfl

theorem visit_free : next.provisioning.lookup user = none := by
  rcases visit_own free visits with rfl | own
  · exact free
  · exact own.1

end

def Looks (limits : ExecutorLimits) : Option Phase → Prop
  | none => True
  | some (.reconciling _ limited e) => limited = some limits ∧ executorHasLimits e limits
  | some (.observing _ limited e) => limited = some limits ∧ executorHasLimits e limits
  | some (.marking _) => True
  | some (.markSaving _) => True
  | _ => False

theorem looks_step {action : Action} (looks : Looks limits (w.calls.lookup call)) (mine : continues action = some call)
    (there : ∀ now, action ≠ .observed call .gone now) (stepped : step o w action = some next) :
    Looks limits (next.calls.lookup call) ∧ ∀ outcome, action ≠ .ran call outcome := by
  cases step_cases stepped with
  | reconciled here =>
    cases mine
    rw [here] at looks
    refine ⟨?_, nofun⟩
    unfold reconciled
    split
    · rw [move_here]
      exact looks
    · rw [move_here]
      trivial
    · rw [(return_here _ call _).1]
      trivial
  | @observed _ _ _ e seen now here =>
    cases mine
    rw [here] at looks
    obtain ⟨rfl, same⟩ := looks
    refine ⟨?_, nofun⟩
    cases seen with
    | alive =>
      have unchanged : limitsChanged (some limits) e = false := by
        simpa [limitsChanged] using same
      unfold observed
      dsimp only
      rw [unchanged, if_neg Bool.false_ne_true, (return_here _ call _).1]
      trivial
    | gone => exact absurd rfl (there now)
    | failed =>
      unfold observed
      dsimp only
      rw [(return_here _ call _).1]
      trivial
  | mark =>
    cases mine
    refine ⟨?_, nofun⟩
    unfold mark
    split
    · rw [move_here]
      trivial
    · rw [move_here]
      trivial
  | @save _ phase _ _ here went =>
    cases mine
    rw [here] at looks
    refine ⟨?_, nofun⟩
    cases phase with
    | markSaving =>
      cases went
      rw [(return_here _ call _).1]
      trivial
    | reconciling | observing | marking => cases went
    | _ => exact looks.elim
  | slot here | cancel here | ran here | finish here | leave here | wake here | giveUp here =>
    cases mine
    rw [here] at looks
    exact looks.elim
  | _ => cases mine

theorem looks_run {schedule : List Action} (mine : ∀ action ∈ schedule, continues action = some call)
    (there : ∀ now, .observed call .gone now ∉ schedule) (looks : Looks limits (w.calls.lookup call))
    (ran : run (step o) w schedule = some next) (outcome : Option Failure) : .ran call outcome ∉ schedule := by
  induction schedule generalizing w with
  | nil => exact not_mem_nil
  | cons action rest ih =>
    obtain ⟨middle, stepped, onward⟩ := run_cons ran
    have here := looks_step looks (mine action mem_cons_self) (fun now same => there now (same ▸ mem_cons_self)) stepped
    have later := ih (fun other member => mine other (mem_cons_of_mem action member))
      (fun now member => there now (mem_cons_of_mem action member)) here.1 onward
    intro member
    rcases mem_cons.mp member with same | member
    · exact here.2 outcome same.symm
    · exact later member

theorem looks_ensure (stored : w.executors.lookup user = some e) (ready : e.status = .ready)
    (limited : executorHasLimits e limits) (now : Time) :
    Looks limits ((ensure o w call user (some limits) now).calls.lookup call) := by
  unfold ensure
  rw [stored, filter_some, if_pos (decide_eq_true ready)]
  split
  · rw [move_here]
    exact ⟨rfl, limited⟩
  · rw [(return_here _ call _).1]
    trivial

end Alone

theorem agreed_limits {quota : ResourceQuota} (none : quota.diskBytes = 0) (site other : Site) :
    siteLimits quota site = siteLimits quota other := by
  have same : UserRequests.executorLimits quota = limitsFromQuota quota := by
    rw [UserRequests.executorLimits, limitsFromQuota, none]
  cases site <;> cases other <;> first | rfl | exact same | exact same.symm

theorem quota_limits_coherent (o : Options) (positiveCPUs : String → Bool) (quota : ResourceQuota) (user : String)
    {start w next : World} (free : start.provisioning.lookup user = none) {visits : List Visit}
    (ran : run (visit o positiveCPUs quota user) start visits = some w) {x : Visit}
    (visited : visit o positiveCPUs quota user w x = some next) (succeeded : Succeeded w x next) :
    (Coherent quota user next ∧ Undisturbed o positiveCPUs quota user next) ↔ quota.diskBytes = 0 := by
  have quiet : w.provisioning.lookup user = none :=
    run_invariant (fun w => w.provisioning.lookup user = none) (fun _ _ _ => visit_free) ran free
  constructor
  · rintro ⟨⟨e, _, _, _, _, disk, limited⟩, _⟩
    have provided := (has_limits e (siteLimits quota .provision)).mp (limited .provision)
    rw [← disk]
    exact provided.2.2.2
  · intro nothing
    obtain ⟨new, e, answered⟩ := succeeded
    have own : Own user (siteLimits quota x.site) next x.call none := by
      rcases visit_own quiet visited with rfl | own
      · cases new.symm.trans answered
      · exact own
    obtain ⟨stored, ready, limited⟩ := own.2 e answered
    have each (site : Site) : executorHasLimits e (siteLimits quota site) := by
      rw [agreed_limits nothing site x.site]
      exact limited
    refine ⟨⟨e, stored, ?_⟩, fun y after again there asked valid => ?_⟩
    · obtain ⟨cpus, memory, pids, disk⟩ := (has_limits e (siteLimits quota .api)).mp (each .api)
      exact ⟨cpus, memory, pids, disk, each⟩
    · obtain ⟨_, mine, onward, _⟩ := QuotaLimits.visited again asked valid
      exact looks_run mine there (looks_ensure stored ready (each y.site) y.now) onward

def anyCPUs (_ : String) : Bool := true

def halfDisk : ResourceQuota := ⟨"1.5", 1024, 64, 10, 0, 0⟩

def provisioned (call : String) : List Action :=
  [.save call .done, .slot call, .ran call none, .save call .done, .finish call, .leave call]

def byAPI : Visit := ⟨.api, "first", 1, provisioned "first"⟩

def byProvision : Visit :=
  ⟨.provision, "second", 2, [.reconciled "second" none, .observed "second" .alive 3] ++ provisioned "second"⟩

def Answer.fine : Answer → Bool
  | .own (_, none) => true
  | _ => false

theorem fine_succeeds {w next : World} {x : Visit} (new : w.returned.lookup x.call = none)
    (fine : (next.returned.lookup x.call).any Answer.fine) : Succeeded w x next := by
  refine ⟨new, ?_⟩
  obtain ⟨answer, found, fine⟩ := (any_eq_true _ _).mp fine
  cases answer with
  | own result =>
    obtain ⟨e, failure⟩ := result
    cases failure with
    | none => exact ⟨e, found⟩
    | some => cases fine
  | joined | abandoned => cases fine

def diskOf (w : World) : Option Int := (w.executors.lookup "ada").map Executor.diskBytes

/-- The user API and third-party `Provision` take turns, and the second makes the running executor again. -/
theorem disk_quota_undone : UserLifecycle.validResourceQuota anyCPUs halfDisk ∧ ∃ w next,
    run (visit ProvisionFlights.narrow anyCPUs halfDisk "ada") empty [byAPI] = some w ∧ Succeeded empty byAPI w ∧
    visit ProvisionFlights.narrow anyCPUs halfDisk "ada" w byProvision = some next ∧ Succeeded w byProvision next ∧
    diskOf next = some 0 ∧ halfDisk.diskBytes = 10 ∧
    ¬ Coherent halfDisk "ada" next ∧ ¬ Undisturbed ProvisionFlights.narrow anyCPUs halfDisk "ada" w := by
  refine ⟨by decide +kernel, ?_⟩
  have evaluated : ((run (visit ProvisionFlights.narrow anyCPUs halfDisk "ada") empty [byAPI]).bind fun w =>
      (visit ProvisionFlights.narrow anyCPUs halfDisk "ada" w byProvision).map fun next =>
        ((w.returned.lookup "first").any Answer.fine, (w.returned.lookup "second").isNone,
          (next.returned.lookup "second").any Answer.fine, diskOf next)) = some (true, true, true, some 0) := by
    decide +kernel
  obtain ⟨w, ran, onward⟩ := bind_eq_some_iff.mp evaluated
  obtain ⟨next, visits, left⟩ := map_eq_some_iff.mp onward
  simp only [Prod.mk.injEq] at left
  obtain ⟨first, new, second, disk⟩ := left
  refine ⟨w, next, ran, fine_succeeds rfl first, visits,
    fine_succeeds (isNone_iff_eq_none.mp new) second, disk, rfl, ?_, fun undisturbed => ?_⟩
  · rintro ⟨e, stored, _, _, _, same, _⟩
    rw [diskOf, stored] at disk
    cases same.symm.trans (some.inj disk)
  · refine undisturbed byProvision next visits (fun now => ?_) ?_ (by decide +kernel) none (by decide)
    · simp [byProvision, provisioned]
    · rfl

def noDisk : ResourceQuota := ⟨"1.5", 1024, 64, 0, 0, 0⟩

def lookingOn : Visit := ⟨.provision, "second", 2, [.reconciled "second" none, .observed "second" .alive 3]⟩

theorem quota_limits_kept : ∃ w next, run (visit ProvisionFlights.narrow anyCPUs noDisk "ada") empty [byAPI] = some w ∧
    visit ProvisionFlights.narrow anyCPUs noDisk "ada" w lookingOn = some next ∧ Succeeded w lookingOn next ∧
    Coherent noDisk "ada" next ∧ Undisturbed ProvisionFlights.narrow anyCPUs noDisk "ada" next := by
  have evaluated : ((run (visit ProvisionFlights.narrow anyCPUs noDisk "ada") empty [byAPI]).bind fun w =>
      (visit ProvisionFlights.narrow anyCPUs noDisk "ada" w lookingOn).map fun next =>
        ((w.returned.lookup "second").isNone, (next.returned.lookup "second").any Answer.fine)) =
      some (true, true) := by
    decide +kernel
  obtain ⟨w, ran, onward⟩ := bind_eq_some_iff.mp evaluated
  obtain ⟨next, visits, left⟩ := map_eq_some_iff.mp onward
  simp only [Prod.mk.injEq] at left
  obtain ⟨new, fine⟩ := left
  have succeeded : Succeeded w lookingOn next := fine_succeeds (isNone_iff_eq_none.mp new) fine
  obtain ⟨coherent, undisturbed⟩ := (quota_limits_coherent ProvisionFlights.narrow anyCPUs noDisk "ada"
    rfl ran visits succeeded).mpr rfl
  exact ⟨w, next, ran, visits, succeeded, coherent, undisturbed⟩

end PieRelay.QuotaLimits
