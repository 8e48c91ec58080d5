import PieRelay.UserRequests

/-!
What the requests of a user who is not active do to its executor. `ensure` asks for the status of the user;
`Submit` provisions without asking.
-/
namespace PieRelay.InactiveUsers
open Option
open ControlPlane (Table User insert_lookup erase_lookup)
open Executions
open ExecutorRegistry (Executor ExecutorLimits Phase Status activeExecutors executorOccupiesCapacity move_lookup
  move_provisioning)
open RoomRegistry (Time)
open UserRequests

def provisions (o : ExecutorRegistry.Options) (w : ExecutorRegistry.World) (user : String) : Bool :=
  (w.provisioning.lookup user).isNone && !(decide ((w.executors.lookup user).all (fun e => !executorOccupiesCapacity e) ∧
    0 < o.maxExecutors ∧ o.maxExecutors ≤ activeExecutors w.executors))

def readyExecutor (w : ExecutorRegistry.World) (user : String) : Bool :=
  (w.executors.lookup user).any fun e => e.status = .ready

/-- A submission that passes its checks finds the executor ready, and so does the runtime. -/
def spared (o : ExecutorRegistry.Options) (s : Server) (p : Principal) (w : World) : Action → Bool
  | .request _ r _ =>
    match handle s w.jobs.jobs p r with
    | .ok (.submit user _) => readyExecutor w.registry user || !provisions o w.registry user
    | _ => true
  | .go (.observed call seen _) =>
    match w.registry.calls.lookup call with
    | some (.observing user _ _) => seen ≠ .gone || !provisions o w.registry user
    | _ => true
  | _ => true

def Phase.fast (user : String) : Phase → Bool
  | .reconciling asked none _ => asked = user
  | .observing asked none _ => asked = user
  | .marking _ => true
  | .markSaving _ => true
  | _ => false

def IsStopped (w : ExecutorRegistry.World) (user : String) : Prop :=
  ∃ e, w.executors.lookup user = some e ∧ e.status = .stopped

structure Idle (user : String) (stopped : Prop) (w : World) : Prop where
  free : w.registry.provisioning.lookup user = none
  quiet : ∀ call phase, w.registry.calls.lookup call = some phase → ProvisionFlights.Phase.owns phase ≠ some user
  fast : ∀ call phase, w.registry.calls.lookup call = some phase → (w.begun.lookup call).isSome →
    Phase.fast user phase
  kept : stopped → IsStopped w.registry user ∧
    ∀ call, (w.begun.lookup call).isSome → w.registry.calls.lookup call = none

section Steps
variable {o : ExecutorRegistry.Options} {user : String} {stopped : Prop} {w : World} {call : String}
variable {registry : ExecutorRegistry.World}

theorem fast_owns {phase : Phase} (fast : Phase.fast user phase) : ProvisionFlights.Phase.owns phase = none := by
  cases phase <;> first | rfl | cases fast

theorem claim_refused {limits : Option ExecutorLimits} {now : Time}
    (free : registry.provisioning.lookup user = none) (spares : provisions o registry user = false) :
    ExecutorRegistry.claim o registry call user limits now =
      ExecutorRegistry.returns registry call (.own (ExecutorRegistry.refused .capacity)) := by
  rw [provisions, free] at spares
  simp only [isNone_none, Bool.true_and, Bool.not_eq_false', decide_eq_true_eq] at spares
  rw [ExecutorRegistry.claim, free]
  exact if_pos spares

section
variable (idle : Idle user stopped w)
include idle

theorem idle_move {begun : Table (Option Submission)}
    {after : Option Phase} (provisioning : registry.provisioning = w.registry.provisioning)
    (calls : ∀ other, registry.calls.lookup other = if other = call then after else w.registry.calls.lookup other)
    (mine : ∀ other, other ≠ call → (begun.lookup other).isSome → (w.begun.lookup other).isSome)
    (fast : ∀ phase, after = some phase → Phase.fast user phase)
    (kept : stopped → IsStopped registry user ∧ after = none) : Idle user stopped ⟨registry, w.jobs, begun⟩ := by
  refine ⟨?_, ?_, ?_, ?_⟩
  · show registry.provisioning.lookup user = none
    rw [provisioning]
    exact idle.free
  · intro other phase here
    change registry.calls.lookup other = some phase at here
    rw [calls] at here
    split at here
    · rw [fast_owns (fast phase here)]
      exact nofun
    · exact idle.quiet other phase here
  · intro other phase here ours
    change registry.calls.lookup other = some phase at here
    rw [calls] at here
    split at here
    · exact fast phase here
    · next apart => exact idle.fast other phase here (mine other apart ours)
  · intro was
    obtain ⟨still, gone⟩ := kept was
    refine ⟨still, fun other ours => ?_⟩
    show registry.calls.lookup other = none
    rw [calls]
    split
    · exact gone
    · next apart => exact (idle.kept was).2 other (mine other apart ours)

theorem idle_return {begun : Table (Option Submission)} {answer : ExecutorRegistry.Answer}
    (provisioning : registry.provisioning = w.registry.provisioning)
    (executors : registry.executors = w.registry.executors) (calls : registry.calls = w.registry.calls)
    (mine : ∀ other, other ≠ call → (begun.lookup other).isSome → (w.begun.lookup other).isSome) :
    Idle user stopped ⟨ExecutorRegistry.returns registry call answer, w.jobs, begun⟩ := by
  have gone (other : String) : (ExecutorRegistry.returns registry call answer).calls.lookup other =
      if other = call then none else w.registry.calls.lookup other := by
    show (registry.calls.erase call).lookup other = _
    rw [erase_lookup, calls]
  refine idle_move idle provisioning gone mine (fun phase absent => by cases absent) fun was => ?_
  obtain ⟨e, stored, status⟩ := (idle.kept was).1
  refine ⟨⟨e, ?_, status⟩, rfl⟩
  show registry.executors.lookup user = some e
  rw [executors]
  exact stored

theorem idle_begin {submission : Option Submission} {now : Time} {next : World}
    (spares : readyExecutor w.registry user ∨ provisions o w.registry user = false)
    (began : begin o w call user none submission now = some next) : Idle user stopped next := by
  have mine : ∀ other, other ≠ call → ((w.begun.insert call submission).lookup other).isSome →
      (w.begun.lookup other).isSome := by
    intro other apart ours
    rw [insert_lookup, if_neg apart] at ours
    exact ours
  unfold begin at began
  split at began
  · cases began
    unfold ExecutorRegistry.ensure
    split
    · split
      · next e picked =>
        obtain ⟨stored, ready⟩ := filter_eq_some_iff.mp picked
        have provisioning := move_provisioning w.registry call (some (.reconciling user none e))
        refine idle_move idle provisioning (move_lookup w.registry call · _) mine ?_ fun was => ?_
        · rintro phase ⟨⟩
          exact decide_eq_true rfl
        · obtain ⟨other, found, status⟩ := (idle.kept was).1
          cases stored.symm.trans found
          cases (of_decide_eq_true ready).symm.trans status
      · next unready =>
        have refuses : provisions o w.registry user = false := by
          refine spares.resolve_left fun ready => ?_
          unfold readyExecutor at ready
          cases stored : w.registry.executors.lookup user with
          | none =>
            rw [stored] at ready
            cases ready
          | some e =>
            rw [stored] at ready unready
            have kept : (some e).filter (fun e => decide (e.status = Status.ready)) = some e := if_pos ready
            cases kept.symm.trans unready
        rw [claim_refused idle.free refuses]
        exact idle_return idle rfl rfl rfl mine
    · exact idle_return idle rfl rfl rfl mine
  · cases began

theorem idle_go {s : Server} {p : Principal} {action : ExecutorRegistry.Action} (spares : spared o s p w (.go action))
    (continues : ExecutorRegistry.continues action = some call) (ours : (w.begun.lookup call).isSome)
    (stepped : ExecutorRegistry.step o w.registry action = some registry) :
    Idle user stopped ⟨registry, w.jobs, w.begun⟩ := by
  have flying (phase : Phase) (here : w.registry.calls.lookup call = some phase) (was : stopped) : False := by
    cases ((idle.kept was).2 call ours).symm.trans here
  have mine : ∀ other, other ≠ call → (w.begun.lookup other).isSome → (w.begun.lookup other).isSome :=
    fun _ _ => id
  have goes {phase after : Phase} (here : w.registry.calls.lookup call = some phase) (fast : Phase.fast user after) :
      Idle user stopped ⟨ExecutorRegistry.moveTo w.registry call (some after), w.jobs, w.begun⟩ := by
    refine idle_move idle (move_provisioning w.registry call _) (move_lookup w.registry call · _) mine ?_
      fun was => (flying phase here was).elim
    rintro phase ⟨⟩
    exact fast
  cases ExecutorRegistry.step_cases stepped with
  | @reconciled other asked limits e outcome here =>
    cases continues
    have fast := idle.fast call _ here ours
    cases limits with
    | some => cases fast
    | none =>
      obtain rfl : asked = user := of_decide_eq_true fast
      unfold ExecutorRegistry.reconciled
      split
      · exact goes here fast
      · exact goes here rfl
      · exact idle_return idle rfl rfl rfl mine
  | @observed other asked limits e seen now here =>
    cases continues
    have fast := idle.fast call _ here ours
    cases limits with
    | some => cases fast
    | none =>
      obtain rfl : asked = user := of_decide_eq_true fast
      unfold ExecutorRegistry.observed
      split
      · exact idle_return idle rfl rfl rfl mine
      · have refuses : provisions o w.registry asked = false := by
          rw [spared, here] at spares
          simpa using spares
        rw [claim_refused idle.free refuses]
        exact idle_return idle rfl rfl rfl mine
      · exact idle_return idle rfl rfl rfl mine
  | @mark other e here =>
    cases continues
    unfold ExecutorRegistry.mark
    split
    · refine idle_move idle ?_ (move_lookup _ call · _) mine ?_ fun was => (flying _ here was).elim
      · exact move_provisioning _ call _
      · rintro phase ⟨⟩
        rfl
    · exact goes here rfl
  | @save other phase answer next here went =>
    cases continues
    have fast := idle.fast call _ here ours
    cases phase with
    | markSaving =>
      cases went
      refine idle_return idle ?_ ?_ ?_ mine <;> cases answer <;> rfl
    | reconciling | observing | marking => cases went
    | _ => cases fast
  | slot here | cancel here | ran here | finish here | leave here | wake here | giveUp here =>
    cases continues
    cases idle.fast call _ here ours
  | _ => cases continues

theorem idle_jobs (jobs : JobTable.World) : Idle user stopped { w with jobs } :=
  ⟨idle.free, idle.quiet, idle.fast, idle.kept⟩

end

theorem idle_step {jo : JobTable.Options} {s : Server} {p : Principal} {record : User} {action : Action} {next : World}
    (plain : p.admin = false) (known : s.control.lookup p.userID = some record) (inactive : record.status ≠ .active)
    (idle : Idle p.userID stopped w) (spares : spared o s p w action)
    (stepped : step o jo s p w action = some next) : Idle p.userID stopped next := by
  cases action with
  | request =>
    dsimp only [step] at stepped
    split at stepped
    · next handled =>
      rcases handled_own plain handled with ⟨_, _, active⟩ | ⟨_, other⟩ | ⟨_, other⟩ | other
      · exact absurd (active record known) inactive
      · cases other
      · cases other
      · cases other
    · next handled =>
      rcases handled_own plain handled with ⟨_, other, _⟩ | ⟨_, same⟩ | ⟨_, other⟩ | other
      · cases other
      · cases same
        refine idle_begin (o := o) idle ?_ stepped
        rw [spared, handled] at spares
        rcases Bool.or_eq_true _ _ ▸ spares with ready | refuses
        · exact .inl ready
        · exact .inr (Bool.not_eq_true' _ ▸ refuses)
      · cases other
      · cases other
    · cases stepped
      exact idle_jobs idle _
    · cases stepped
      exact idle
    · cases stepped
      exact idle
  | go action =>
    dsimp only [step] at stepped
    split at stepped
    · next ours =>
      obtain ⟨registry, went, rfl⟩ := map_eq_some_iff.mp stepped
      cases continues : ExecutorRegistry.continues action with
      | none =>
        rw [continues] at ours
        cases ours
      | some =>
        rw [continues] at ours
        exact idle_go idle spares continues ours went
    · cases stepped
  | submitted call =>
    dsimp only [step] at stepped
    split at stepped
    · next begun provided =>
      obtain ⟨jobs, _, rfl⟩ := map_eq_some_iff.mp stepped
      have same (other : String) (ours : ((w.begun.insert call none).lookup other).isSome) :
          (w.begun.lookup other).isSome := by
        rw [insert_lookup] at ours
        split at ours
        · next here =>
          subst here
          rw [begun]
          rfl
        · exact ours
      refine ⟨idle.free, idle.quiet, fun other phase here ours => ?_, fun was => ?_⟩
      · exact idle.fast other phase here (same other ours)
      · obtain ⟨still, gone⟩ := idle.kept was
        exact ⟨still, fun other ours => gone other (same other ours)⟩
    · cases stepped
  | job =>
    dsimp only [step] at stepped
    split at stepped
    · cases stepped
    · obtain ⟨jobs, _, rfl⟩ := map_eq_some_iff.mp stepped
      exact idle_jobs idle jobs

end Steps

/-- No call of the runtime is made for the user, and a stopped executor stays stopped. -/
theorem inactive_user_idle (o : ExecutorRegistry.Options) (jo : JobTable.Options) (s : Server) {p : Principal}
    {record : User} (plain : p.admin = false) (known : s.control.lookup p.userID = some record)
    (inactive : record.status ≠ .active) {registry : ExecutorRegistry.World} {past : List ExecutorRegistry.Action}
    (reached : run (ExecutorRegistry.step o) ExecutorRegistry.empty past = some registry)
    (quiet : ∀ call phase, registry.calls.lookup call = some phase → ProvisionFlights.Phase.owns phase ≠ some p.userID)
    (jobs : JobTable.World) {actions : List Action} {after : World}
    (guarded : Guarded (step o jo s p) (fun w action => spared o s p w action) ⟨registry, jobs, ∅⟩ actions)
    (ran : run (step o jo s p) ⟨registry, jobs, ∅⟩ actions = some after) :
    (∀ call e, after.registry.calls.lookup call ≠ some (.running p.userID e)) ∧
      (IsStopped registry p.userID → IsStopped after.registry p.userID) := by
  have handed := (ProvisionFlights.reached_sound reached).1
  have start : Idle p.userID (IsStopped registry p.userID) ⟨registry, jobs, ∅⟩ := by
    refine ⟨?_, quiet, ?_, fun was => ⟨was, ?_⟩⟩
    · show registry.provisioning.lookup p.userID = none
      cases entry : registry.provisioning.lookup p.userID with
      | none => rfl
      | some owner =>
        obtain ⟨phase, here, owns⟩ := bind_eq_some_iff.mp ((handed.owned p.userID owner).mp entry)
        exact absurd owns (quiet owner phase here)
    · rintro call phase _ ⟨⟩
    · rintro call ⟨⟩
  have idle : Idle p.userID (IsStopped registry p.userID) after :=
    guarded_run_invariant (Idle p.userID (IsStopped registry p.userID))
      (fun w action next spares idle stepped => idle_step plain known inactive idle spares stepped) guarded ran start
  refine ⟨fun call e here => idle.quiet call _ here rfl, fun was => (idle.kept was).1⟩

def ada : Principal := ⟨"ada", false⟩

def suspended : Server :=
  ⟨(∅ : Table User).insert "ada" ⟨"ada", "ada", "", .suspended, ControlPlane.noQuota, "", "", 0, 0, 0, 1⟩, fun _ => true,
    some fun _ blobRefs => blobRefs.isEmpty⟩

def noJobs : JobTable.World := JobTable.opened ⟨1, 1, Nat.one_pos⟩ [] 0

def provisioned : List ExecutorRegistry.Action :=
  [.ensure "first" "ada" none 1, .save "first" .done, .slot "first", .ran "first" none, .save "first" .done,
    .finish "first", .leave "first"]

def submitting : List Action :=
  [.request "second" ⟨"POST", "/v1/users/ada/jobs", some ("make", [])⟩ 4, .go (.save "second" .done), .go (.slot "second")]

def stopping : List ExecutorRegistry.Action :=
  provisioned ++ [.stop "stop" "ada", .stopped "stop" true 2, .save "stop" .done, .write "stop"]

def statusOf (registry : ExecutorRegistry.World) : Option Status := (registry.executors.lookup "ada").map Executor.status

def runsFor (user : String) : Phase → Bool
  | .running asked _ => asked = user
  | _ => false

theorem suspended_user_provisions : ∃ registry after,
    run (ExecutorRegistry.step ProvisionFlights.narrow) ExecutorRegistry.empty stopping = some registry ∧
    registry.calls.keys = [] ∧ IsStopped registry "ada" ∧
    run (step ProvisionFlights.narrow ⟨1, 1, Nat.one_pos⟩ suspended ada) ⟨registry, noJobs, ∅⟩ submitting = some after ∧
    (∃ e, after.registry.calls.lookup "second" = some (.running "ada" e)) ∧ ¬ IsStopped after.registry "ada" := by
  have evaluated : ((run (ExecutorRegistry.step ProvisionFlights.narrow) ExecutorRegistry.empty stopping).bind
      fun registry => (run (step ProvisionFlights.narrow ⟨1, 1, Nat.one_pos⟩ suspended ada) ⟨registry, noJobs, ∅⟩
        submitting).map fun after => (registry.calls.keys, statusOf registry, statusOf after.registry,
          (after.registry.calls.lookup "second").any (runsFor "ada"))) =
      some ([], some .stopped, some .provisioning, true) := by
    decide +kernel
  obtain ⟨registry, reached, onward⟩ := bind_eq_some_iff.mp evaluated
  obtain ⟨after, ran, left⟩ := map_eq_some_iff.mp onward
  simp only [Prod.mk.injEq, statusOf, map_eq_some_iff] at left
  obtain ⟨nobody, ⟨before, stored, stopped⟩, ⟨e, found, status⟩, running⟩ := left
  refine ⟨registry, after, reached, nobody, ⟨before, stored, stopped⟩, ran, ?_, ?_⟩
  · obtain ⟨phase, here, runs⟩ := (any_eq_true _ _).mp running
    cases phase with
    | running user e =>
      cases of_decide_eq_true runs
      exact ⟨e, here⟩
    | _ => cases runs
  · rintro ⟨other, again, stays⟩
    cases found.symm.trans again
    cases status.symm.trans stays

def carryingOn : List Action :=
  [.request "second" ⟨"PUT", "/v1/users/ada/executor", none⟩ 2,
    .request "third" ⟨"POST", "/v1/users/ada/jobs", some ("make", [])⟩ 3, .go (.reconciled "third" none),
    .go (.observed "third" .alive 4), .submitted "third" "job-1" 5, .request "fourth" ⟨"POST", "/v1/jobs/job-1/cancel", none⟩ 6]

theorem suspended_user_spared : ∃ registry after,
    run (step ProvisionFlights.narrow ⟨1, 1, Nat.one_pos⟩ suspended ada) ⟨registry, noJobs, ∅⟩ carryingOn = some after ∧
    ∀ call e, after.registry.calls.lookup call ≠ some (.running "ada" e) := by
  have evaluated : ((run (ExecutorRegistry.step ProvisionFlights.narrow) ExecutorRegistry.empty provisioned).bind
      fun registry => (run (step ProvisionFlights.narrow ⟨1, 1, Nat.one_pos⟩ suspended ada) ⟨registry, noJobs, ∅⟩
        carryingOn).map fun after => (registry.calls.keys, checked
          (step ProvisionFlights.narrow ⟨1, 1, Nat.one_pos⟩ suspended ada) (spared ProvisionFlights.narrow suspended ada)
          ⟨registry, noJobs, ∅⟩ carryingOn, after.jobs.terminalOrder)) =
      some ([], true, ["job-1"]) := by
    decide +kernel
  obtain ⟨registry, reached, onward⟩ := bind_eq_some_iff.mp evaluated
  obtain ⟨after, ran, left⟩ := map_eq_some_iff.mp onward
  simp only [Prod.mk.injEq] at left
  obtain ⟨nobody, passed, _⟩ := left
  have guarded := checked_guarded (spared ProvisionFlights.narrow suspended ada) (fun _ _ passed => passed)
    ⟨registry, noJobs, ∅⟩ carryingOn passed
  have quiet (call : String) (phase : Phase) (here : registry.calls.lookup call = some phase) :
      ProvisionFlights.Phase.owns phase ≠ some "ada" := by
    have member : call ∈ registry.calls.keys := AList.lookup_isSome.mp (isSome_of_eq_some here)
    rw [nobody] at member
    cases member
  exact ⟨registry, after, ran, (inactive_user_idle ProvisionFlights.narrow ⟨1, 1, Nat.one_pos⟩ suspended rfl rfl
    (by decide) reached quiet noJobs guarded ran).1⟩

end PieRelay.InactiveUsers
