import PieRelay.ProvisionFlights

/-!
What a call of `EnsureWithLimits` gets, and what the registry is left with when its first save fails. A call that finds its
user being provisioned waits for that result, whatever limits it has come with; one that provisions publishes its record
before it saves it. What each call has come with and found is noted beside the registry.
-/
namespace PieRelay.EnsuredLimits
open Option
open ControlPlane (Table insert_lookup)
open ExecutorRegistry
open Executions
open ProvisionFlights (Handed flight)
open RoomRegistry (Time)

/-- A call of `ensure`: whose, with which limits, what the registry had then, and the record that is provisioned by the call
    that it has joined. -/
structure Called where
  user : String
  limits : Option ExecutorLimits
  before : Option Executor
  joined : Option Executor
  deriving DecidableEq

structure World where
  registry : ExecutorRegistry.World
  called : Table Called

def opened (executors : Table Executor) : World := ⟨{ empty with executors, store := executors }, ∅⟩

def provisioned : Phase → Option Executor
  | .saving _ e => some e
  | .queueing _ e => some e
  | .running _ e => some e
  | .settling _ e _ _ => some e
  | .finishing _ e _ _ => some e
  | _ => none

def joinedRecord (registry : ExecutorRegistry.World) (call : String) : Option Executor :=
  match registry.calls.lookup call with
  | some (.waiting _ owner) => (registry.calls.lookup owner).bind provisioned
  | _ => none

def noted (w : World) (registry : ExecutorRegistry.World) : Action → Table Called
  | .ensure call user limits _ =>
    w.called.insert call ⟨user, limits, w.registry.executors.lookup user, joinedRecord registry call⟩
  | .observed call _ _ =>
    match w.called.lookup call with
    | some made => w.called.insert call { made with joined := joinedRecord registry call }
    | none => w.called
  | _ => w.called

def step (o : Options) (w : World) (action : Action) : Option World :=
  (ExecutorRegistry.step o w.registry action).map fun registry => ⟨registry, noted w registry action⟩

def answered : Answer → Result
  | .own result => result
  | .joined _ result => result
  | .abandoned => refused .context

def limitsOf (e : Executor) : ExecutorLimits := ⟨e.cpus, e.memoryBytes, e.pidsLimit, e.diskBytes⟩

def record (e : Executor) : Status × ExecutorLimits := (e.status, limitsOf e)

def Delivered (made : Called) (result : Result) : Prop :=
  ∀ limits, made.limits = some limits → result.2 = none → executorHasLimits result.1 limits

def Unchanged (made : Called) (registry : ExecutorRegistry.World) : Prop :=
  (registry.executors.lookup made.user).map record = made.before.map record

structure Promised (o : Options) (w : World) : Prop where
  delivered : ∀ call made answer, w.called.lookup call = some made → w.registry.returned.lookup call = some answer →
    (answered answer).2 = none → Delivered made (answered answer)
  unchanged : ∀ call made user e next, w.called.lookup call = some made →
    w.registry.calls.lookup call = some (.finishing user e (some .store) false) → step o w (.finish call) = some next →
      Unchanged made next.registry

def alike (made : Called) : Bool := made.joined.all fun e => !limitsChanged made.limits e

def left (made : Called) : Bool :=
  made.before.any fun e => e.status = .provisioning ∧ limitsChanged made.limits e = false

/-- Each call gets its limits exactly when what it has joined has them; one whose first save fails leaves the registry as
    it was exactly when there was nothing to change. -/
structure Exact (o : Options) (w : World) : Prop where
  delivered : ∀ call made answer, w.called.lookup call = some made → w.registry.returned.lookup call = some answer →
    (answered answer).2 = none → (Delivered made (answered answer) ↔ alike made)
  unchanged : ∀ call made user e next, w.called.lookup call = some made →
    w.registry.calls.lookup call = some (.finishing user e (some .store) false) → step o w (.finish call) = some next →
      (Unchanged made next.registry ↔ left made)

section Limits
variable {e other : Executor} {limits : Option ExecutorLimits}

theorem has_limits (e : Executor) (limits : ExecutorLimits) : executorHasLimits e limits ↔ limitsOf e = limits := by
  cases limits
  unfold executorHasLimits limitsOf
  rw [decide_eq_true_iff, ExecutorLimits.mk.injEq]

theorem unchanged_iff (e : Executor) (limits : ExecutorLimits) : limitsChanged (some limits) e = false ↔ limitsOf e = limits := by
  rw [limitsChanged, any_some, Bool.not_eq_false', has_limits]

theorem changed_same (same : limitsOf e = limitsOf other) : limitsChanged limits e = limitsChanged limits other := by
  cases limits with
  | none => rfl
  | some =>
    rw [Bool.eq_iff_iff, ← not_iff_not, Bool.not_eq_true, Bool.not_eq_true, unchanged_iff, unchanged_iff, same]

theorem changed_claimed (before : Option Executor) (user : String) (limits : Option ExecutorLimits) (now : Time) :
    limitsChanged limits (claimed before user limits now) = false := by
  cases limits with
  | none => rfl
  | some => simp [limitsChanged, executorHasLimits, claimed, withLimits]

/-- A record that is claimed keeps its limits exactly when they are not others. -/
theorem claimed_limits (user : String) (now : Time) :
    limitsOf e = limitsOf (claimed (some e) user limits now) ↔ limitsChanged limits e = false := by
  cases limits with
  | none => exact iff_of_true rfl rfl
  | some limits =>
    exact (unchanged_iff e limits).symm

end Limits

def Flying (registry : ExecutorRegistry.World) (owner : String) (limits : ExecutorLimits) : Prop :=
  (∃ phase e, registry.calls.lookup owner = some phase ∧ provisioned phase = some e ∧ limitsOf e = limits) ∨
    ∃ e failure, registry.finished.lookup owner = some (e, failure) ∧ limitsOf e = limits

structure Owns (made : Called) (user : String) (e : Executor) : Prop where
  mine : user = made.user
  alone : made.joined = none
  limited : limitsChanged made.limits e = false

structure Fresh (made : Called) (e : Executor) : Prop where
  status : e.status = .provisioning
  limits : ∀ b, made.before = some b → b.status = .provisioning →
    (limitsOf b = limitsOf e ↔ limitsChanged made.limits b = false)

structure Asks (made : Called) (user : String) (limits : Option ExecutorLimits) : Prop where
  mine : user = made.user
  limits : limits = made.limits
  alone : made.joined = none
  before : ∃ b, made.before = some b ∧ b.status = .ready

def Knows (registry : ExecutorRegistry.World) (made : Called) : Phase → Prop
  | .reconciling user limits _ => Asks made user limits
  | .observing user limits _ => Asks made user limits
  | .marking _ => True
  | .markSaving _ => True
  | .waiting _ owner => ∃ e, made.joined = some e ∧ Flying registry owner (limitsOf e)
  | .saving user e => Owns made user e ∧ Fresh made e
  | .queueing user e => Owns made user e
  | .running user e => Owns made user e
  | .settling user e failure slot => Owns made user e ∧ (slot = false → failure = some .context)
  | .finishing user e failure slot => Owns made user e ∧ (failure = some .store → slot = false → Fresh made e)
  | .leaving result _ => made.joined = none ∧ (result.2 = none → limitsChanged made.limits result.1 = false)
  | _ => False

def Told (made : Called) (answer : Answer) : Prop :=
  (answered answer).2 = none → (Delivered made (answered answer) ↔ alike made)

def Good (registry : ExecutorRegistry.World) (made : Called) (phase : Option Phase) (answer : Option Answer) : Prop :=
  match phase, answer with
  | some phase, _ => Knows registry made phase
  | none, some answer => Told made answer
  | none, none => False

structure Kept (w : World) : Prop where
  handed : Handed (flight w.registry)
  good : ∀ call made, w.called.lookup call = some made →
    Good w.registry made (w.registry.calls.lookup call) (w.registry.returned.lookup call)

section Steps
variable {o : Options} {w : World} {call : String} {registry : ExecutorRegistry.World} {called : Table Called}
variable {made : Called} {phase : Phase} {next : ExecutorRegistry.World} {after : Option Phase}
  {user : String} {limits : Option ExecutorLimits} {now : Time} {e : Executor}

theorem good_here (kept : Kept w) (known : w.called.lookup call = some made)
    (here : w.registry.calls.lookup call = some phase) : Knows w.registry made phase := by
  have good := kept.good call made known
  rw [here] at good
  exact good

theorem not_called (kept : Kept w) (new : unused w.registry call) : w.called.lookup call = none := by
  cases known : w.called.lookup call with
  | none => rfl
  | some made =>
    have good := kept.good call made known
    simp only [unused, Bool.decide_and, Bool.and_eq_true, decide_eq_true_eq] at new
    rw [new.1, new.2.2] at good
    exact good.elim

theorem other_handler (kept : Kept w) (here : w.registry.calls.lookup call = some phase)
    (no : ∀ made, ¬ Knows w.registry made phase) : w.called.lookup call = none := by
  cases known : w.called.lookup call with
  | none => rfl
  | some made => exact (no made (good_here kept known here)).elim

def Onward (before after : Option Phase) : Prop :=
  ∀ phase e, before = some phase → provisioned phase = some e →
    ∃ phase' e', after = some phase' ∧ provisioned phase' = some e' ∧ limitsOf e' = limitsOf e

theorem flying_goes {owner : String} {limits : ExecutorLimits}
    (calls : ∀ other, next.calls.lookup other = if other = call then after else registry.calls.lookup other)
    (finished : next.finished = registry.finished) (onward : Onward (registry.calls.lookup call) after)
    (flying : Flying registry owner limits) : Flying next owner limits := by
  rcases flying with ⟨phase, e, here, mine, same⟩ | ⟨e, failure, done, same⟩
  · left
    rw [calls]
    split
    · next is =>
      subst is
      obtain ⟨phase', e', there, still, alike⟩ := onward phase e here mine
      exact ⟨phase', e', there, still, alike.trans same⟩
    · exact ⟨phase, e, here, mine, same⟩
  · right
    rw [finished]
    exact ⟨e, failure, done, same⟩

section
variable (flies : ∀ owner limits, Flying registry owner limits → Flying next owner limits)
include flies

theorem knows_goes (knows : Knows registry made phase) : Knows next made phase := by
  cases phase with
  | waiting user owner =>
    obtain ⟨e, joined, flying⟩ := knows
    exact ⟨e, joined, flies owner (limitsOf e) flying⟩
  | _ => exact knows

theorem good_goes {phase : Option Phase} {answer : Option Answer} (good : Good registry made phase answer) :
    Good next made phase answer := by
  cases phase with
  | some => exact knows_goes flies good
  | none =>
    cases answer with
    | some | none => exact good

end

theorem kept_step (kept : Kept w) (handed : Handed (flight next))
    (calls : ∀ other, other ≠ call → next.calls.lookup other = w.registry.calls.lookup other)
    (returned : ∀ other, other ≠ call → next.returned.lookup other = w.registry.returned.lookup other)
    (flies : ∀ owner limits, Flying w.registry owner limits → Flying next owner limits)
    (others : ∀ other, other ≠ call → called.lookup other = w.called.lookup other)
    (own : ∀ made, called.lookup call = some made → Good next made (next.calls.lookup call) (next.returned.lookup call)) :
    Kept ⟨next, called⟩ := by
  refine ⟨handed, fun other made known => ?_⟩
  by_cases same : other = call
  · subst same
    exact own made known
  · rw [others other same] at known
    have good := good_goes flies (kept.good other made known)
    rw [← calls other same, ← returned other same] at good
    exact good

theorem kept_moves (kept : Kept w) (handed : Handed (flight (moveTo registry call after)))
    (calls : registry.calls = w.registry.calls) (returned : registry.returned = w.registry.returned)
    (finished : registry.finished = w.registry.finished) (onward : Onward (w.registry.calls.lookup call) after)
    (others : ∀ other, other ≠ call → called.lookup other = w.called.lookup other)
    (own : ∀ made, called.lookup call = some made →
      (∀ owner limits, Flying w.registry owner limits → Flying (moveTo registry call after) owner limits) →
        ∃ phase, after = some phase ∧ Knows (moveTo registry call after) made phase) :
    Kept ⟨moveTo registry call after, called⟩ := by
  have moved (other : String) : (moveTo registry call after).calls.lookup other =
      if other = call then after else w.registry.calls.lookup other := by
    rw [move_lookup, calls]
  have flies : ∀ owner limits, Flying w.registry owner limits → Flying (moveTo registry call after) owner limits :=
    fun owner limits => flying_goes moved ((move_finished ..).trans finished) onward
  refine kept_step kept handed (fun other apart => (moved other).trans (if_neg apart)) ?_ flies others fun made known => ?_
  · intro other _
    rw [move_returned, returned]
  · obtain ⟨phase, rfl, knows⟩ := own made known flies
    rw [move_here]
    exact knows

theorem kept_returns (kept : Kept w) {answer : Answer} (handed : Handed (flight (returns registry call answer)))
    (calls : registry.calls = w.registry.calls) (returned : registry.returned = w.registry.returned)
    (finished : registry.finished = w.registry.finished) (onward : Onward (w.registry.calls.lookup call) none)
    (others : ∀ other, other ≠ call → called.lookup other = w.called.lookup other)
    (own : ∀ made, called.lookup call = some made → Told made answer) : Kept ⟨returns registry call answer, called⟩ := by
  have moved (other : String) : (returns registry call answer).calls.lookup other =
      if other = call then none else w.registry.calls.lookup other := by
    show (registry.calls.erase call).lookup other = _
    rw [ControlPlane.erase_lookup, calls]
  refine kept_step kept handed (fun other apart => (moved other).trans (if_neg apart)) ?_
    (fun owner limits => flying_goes moved finished onward) others fun made known => ?_
  · intro other apart
    show (registry.returned.insert call answer).lookup other = _
    rw [insert_lookup, if_neg apart, returned]
  · obtain ⟨gone, told⟩ := return_here registry call answer
    rw [gone, told]
    exact own made known

theorem not_onward (aside : ∀ phase, w.registry.calls.lookup call = some phase → provisioned phase = none) (after : Option Phase) :
    Onward (w.registry.calls.lookup call) after := by
  intro phase e here mine
  cases (aside phase here).symm.trans mine

theorem owns_provisioned (owns : ProvisionFlights.Phase.owns phase = some user) : ∃ e, provisioned phase = some e := by
  cases phase with
  | saving _ e | queueing _ e | running _ e | settling _ e | finishing _ e => exact ⟨e, rfl⟩
  | _ => cases owns

theorem claim_kept (kept : Kept w) (handed : Handed (flight (claim o w.registry call user limits now)))
    (aside : ∀ phase, w.registry.calls.lookup call = some phase → provisioned phase = none)
    (others : ∀ other, other ≠ call → called.lookup other = w.called.lookup other)
    (own : ∀ made, called.lookup call = some made → made.user = user ∧ made.limits = limits ∧
      made.joined = joinedRecord (claim o w.registry call user limits now) call ∧
        ∀ b, made.before = some b → b.status = .provisioning → w.registry.executors.lookup user = some b) :
    Kept ⟨claim o w.registry call user limits now, called⟩ := by
  unfold claim at handed own ⊢
  split at own
  · next owner taken =>
    rw [taken] at handed
    apply kept_moves kept handed rfl rfl rfl (not_onward aside _) others
    intro made known flies
    obtain ⟨_, _, joined, _⟩ := own made known
    refine ⟨_, rfl, ?_⟩
    -- Who is being provisioned for has a record.
    obtain ⟨phase, here, owns⟩ := bind_eq_some_iff.mp ((kept.handed.owned user owner).mp taken)
    obtain ⟨e, mine⟩ := owns_provisioned owns
    have apart : owner ≠ call := by
      rintro rfl
      cases (aside phase here).symm.trans mine
    have found : (moveTo w.registry call (some (.waiting user owner))).calls.lookup owner = some phase := by
      rw [move_lookup, if_neg apart]
      exact here
    refine ⟨e, ?_, .inl ⟨phase, e, found, mine, rfl⟩⟩
    rw [joined, joinedRecord, move_here]
    dsimp only
    rw [found]
    exact mine
  · next free =>
    rw [free] at handed
    dsimp only at handed own ⊢
    split at own
    · next full =>
      rw [if_pos full] at handed ⊢
      apply kept_returns kept handed rfl rfl rfl (not_onward aside _) others
      exact fun made _ absurd => by cases absurd
    · next room =>
      rw [if_neg room] at handed ⊢
      apply kept_moves kept handed rfl rfl rfl (not_onward aside _) others
      intro made known _
      obtain ⟨mine, asked, joined, before⟩ := own made known
      rw [joinedRecord, move_here] at joined
      refine ⟨_, rfl, ⟨mine.symm, joined, ?_⟩, rfl, fun b was status => ?_⟩
      · rw [asked]
        exact changed_claimed ..
      · rw [before b was status, asked]
        exact claimed_limits user now

theorem noted_ensure (registry : ExecutorRegistry.World) (call user : String) (limits : Option ExecutorLimits) (now : Time)
    (other : String) : (noted w registry (.ensure call user limits now)).lookup other =
      if other = call then some ⟨user, limits, w.registry.executors.lookup user, joinedRecord registry call⟩
      else w.called.lookup other :=
  insert_lookup ..

theorem noted_observed (registry : ExecutorRegistry.World) (call : String) (seen : Seen) (now : Time) (other : String) :
    (noted w registry (.observed call seen now)).lookup other =
      if other = call then (w.called.lookup call).map fun made => { made with joined := joinedRecord registry call }
      else w.called.lookup other := by
  unfold noted
  dsimp only
  cases known : w.called.lookup call with
  | some => exact insert_lookup ..
  | none =>
    dsimp only
    split
    · next same => rw [same, known, map_none]
    · rfl

theorem joined_move {after : Phase} (asks : ∀ user owner, after ≠ .waiting user owner) :
    joinedRecord (moveTo registry call (some after)) call = none := by
  rw [joinedRecord, move_here]
  cases after with
  | waiting user owner => exact absurd rfl (asks user owner)
  | _ => rfl

theorem joined_return (answer : Answer) : joinedRecord (returns registry call answer) call = none := by
  rw [joinedRecord, (return_here registry call answer).1]

theorem refused_told (failure : Failure) : Told made (.own (refused failure)) :=
  fun absurd => by cases absurd

theorem own_told {result : Result} (alone : made.joined = none)
    (limited : result.2 = none → limitsChanged made.limits result.1 = false) : Told made (.own result) := by
  intro none_
  refine iff_of_true (fun limits asked _ => ?_) (by rw [alike, alone]; rfl)
  have same := limited none_
  rw [asked] at same
  exact (has_limits ..).mpr ((unchanged_iff ..).mp same)

theorem ensure_kept (kept : Kept w)
    (handed : Handed (flight (ensure o w.registry call user limits now))) (new : unused w.registry call) :
    Kept ⟨ensure o w.registry call user limits now,
      noted w (ensure o w.registry call user limits now) (.ensure call user limits now)⟩ := by
  have aside : ∀ phase, w.registry.calls.lookup call = some phase → provisioned phase = none := by
    intro phase here
    simp only [unused, Bool.decide_and, Bool.and_eq_true, decide_eq_true_eq] at new
    cases new.1.symm.trans here
  have others (next : ExecutorRegistry.World) (other : String) (apart : other ≠ call) :
      (noted w next (.ensure call user limits now)).lookup other = w.called.lookup other :=
    (noted_ensure next call user limits now other).trans (if_neg apart)
  have mine (next : ExecutorRegistry.World) (made : Called)
      (known : (noted w next (.ensure call user limits now)).lookup call = some made) :
      made = ⟨user, limits, w.registry.executors.lookup user, joinedRecord next call⟩ := by
    rw [noted_ensure, if_pos rfl] at known
    exact (some.inj known).symm
  unfold ensure at handed ⊢
  split
  · next valid =>
    rw [if_pos valid] at handed
    split
    · next e ready =>
      rw [ready] at handed
      refine kept_moves kept handed rfl rfl rfl (not_onward aside _) (others _) fun made known _ => ⟨_, rfl, ?_⟩
      obtain ⟨found, holds⟩ := filter_eq_some_iff.mp ready
      cases mine _ made known
      exact ⟨rfl, rfl, joined_move fun _ _ absurd => (by cases absurd), e, found, of_decide_eq_true holds⟩
    · next unready =>
      rw [unready] at handed
      refine claim_kept kept handed aside (others _) fun made known => ?_
      cases mine _ made known
      exact ⟨rfl, rfl, rfl, fun b was _ => was⟩
  · next invalid =>
    rw [if_neg invalid] at handed
    exact kept_returns kept handed rfl rfl rfl (not_onward aside _) (others _) fun made _ => refused_told _

theorem observed_kept (kept : Kept w) {seen : Seen} (handed : Handed (flight (observed o w.registry call user limits e now seen)))
    (here : w.registry.calls.lookup call = some (.observing user limits e)) :
    Kept ⟨observed o w.registry call user limits e now seen,
      noted w (observed o w.registry call user limits e now seen) (.observed call seen now)⟩ := by
  have aside : ∀ phase, w.registry.calls.lookup call = some phase → provisioned phase = none := by
    intro phase there
    cases here.symm.trans there
    rfl
  have others (next : ExecutorRegistry.World) (other : String) (apart : other ≠ call) :
      (noted w next (.observed call seen now)).lookup other = w.called.lookup other :=
    (noted_observed next call seen now other).trans (if_neg apart)
  have mine (next : ExecutorRegistry.World) (made : Called)
      (known : (noted w next (.observed call seen now)).lookup call = some made) :
      ∃ before, Asks before user limits ∧ made = { before with joined := joinedRecord next call } := by
    rw [noted_observed, if_pos rfl] at known
    obtain ⟨before, was, rfl⟩ := map_eq_some_iff.mp known
    exact ⟨before, good_here kept was here, rfl⟩
  have claims (handed : Handed (flight (claim o w.registry call user limits now))) :
      Kept ⟨claim o w.registry call user limits now,
        noted w (claim o w.registry call user limits now) (.observed call seen now)⟩ := by
    refine claim_kept kept handed aside (others _) fun made known => ?_
    obtain ⟨before, asks, rfl⟩ := mine _ made known
    refine ⟨asks.mine.symm, asks.limits.symm, rfl, fun b was status => ?_⟩
    obtain ⟨b', was', ready⟩ := asks.before
    cases was.symm.trans was'
    cases status.symm.trans ready
  cases seen with
  | alive =>
    unfold observed at handed ⊢
    dsimp only at handed ⊢
    split
    · next changed =>
      rw [if_pos changed] at handed
      exact claims handed
    · next same =>
      rw [if_neg same] at handed
      refine kept_returns kept handed rfl rfl rfl (not_onward aside _) (others _) fun made known => ?_
      obtain ⟨before, asks, rfl⟩ := mine _ made known
      refine own_told (joined_return _) fun _ => ?_
      exact asks.limits ▸ eq_false_of_ne_true same
  | gone => exact claims handed
  | failed => exact kept_returns kept handed rfl rfl rfl (not_onward aside _) (others _) fun made _ => refused_told _

theorem written_same (registry : ExecutorRegistry.World) (e : Executor) (answer : Saved) :
    (written registry e answer).calls = registry.calls ∧ (written registry e answer).returned = registry.returned ∧
      (written registry e answer).finished = registry.finished := by
  cases answer <;> exact ⟨rfl, rfl, rfl⟩

theorem saved_kept (kept : Kept w) {answer : Saved}
    (handed : Handed (flight next)) (here : w.registry.calls.lookup call = some phase)
    (went : saved w.registry call answer phase = some next) : Kept ⟨next, w.called⟩ := by
  have knows (made : Called) (known : w.called.lookup call = some made) := good_here kept known here
  have same (e : Executor) := written_same w.registry e answer
  cases phase with
  | markSaving =>
    cases went
    refine kept_returns kept handed (same _).1 (same _).2.1 (same _).2.2 (not_onward ?_ _) (fun _ _ => rfl)
      fun made _ => refused_told _
    intro phase there
    cases here.symm.trans there
    rfl
  | saving user e =>
    cases went
    refine kept_moves kept handed (same _).1 (same _).2.1 (same _).2.2 ?_ (fun _ _ => rfl) fun made known _ => ⟨_, rfl, ?_⟩
    · intro phase e' there mine
      cases here.symm.trans there
      cases mine
      cases answer <;> exact ⟨_, e, rfl, rfl, rfl⟩
    · obtain ⟨owns, fresh⟩ := knows made known
      cases answer with
      | done => exact owns
      | half | lost => exact ⟨owns, fun _ _ => fresh⟩
  | settling user e failure slot =>
    cases went
    refine kept_moves kept handed (same _).1 (same _).2.1 (same _).2.2 ?_ (fun _ _ => rfl) fun made known _ => ⟨_, rfl, ?_⟩
    · intro phase e' there mine
      cases here.symm.trans there
      cases mine
      exact ⟨_, e, rfl, rfl, rfl⟩
    · obtain ⟨owns, context⟩ := knows made known
      refine ⟨owns, fun store early => ?_⟩
      -- A call without a slot has given up before.
      rw [if_neg (by rw [context early]; exact fun absurd => by cases absurd.1), context early] at store
      cases store
  | stopSaving | storing =>
    have other := other_handler kept here fun _ absurd => absurd
    cases went
    refine kept_moves kept handed (same _).1 (same _).2.1 (same _).2.2 (not_onward ?_ _) (fun _ _ => rfl) fun made known _ => ?_
    · intro phase there
      cases here.symm.trans there
      rfl
    · cases other.symm.trans known
  | _ => cases went

theorem finish_kept (kept : Kept w) {failure : Option Failure} {slot : Bool}
    (handed : Handed (flight (finishProvision w.registry call user e failure slot)))
    (here : w.registry.calls.lookup call = some (.finishing user e failure slot)) :
    Kept ⟨finishProvision w.registry call user e failure slot, w.called⟩ := by
  have own : w.registry.provisioning.lookup user = some call :=
    (kept.handed.owned user call).mpr (bind_eq_some_iff.mpr ⟨_, here, rfl⟩)
  have calls (other : String) : (finishProvision w.registry call user e failure slot).calls.lookup other =
      if other = call then some (.leaving (e, failure) slot) else w.registry.calls.lookup other := by
    unfold finishProvision
    rw [move_lookup]
  have finished (other : String) : (finishProvision w.registry call user e failure slot).finished.lookup other =
      if other = call then some (e, failure) else w.registry.finished.lookup other := by
    unfold finishProvision
    rw [own, move_finished]
    exact insert_lookup ..
  refine kept_step kept handed (fun other apart => (calls other).trans (if_neg apart)) (fun _ _ => ?_) ?_ (fun _ _ => rfl)
    fun made known => ?_
  · unfold finishProvision
    rw [move_returned]
  · rintro owner limits (⟨phase, e', there, mine, same⟩ | ⟨e', failure', done, same⟩)
    · by_cases is : owner = call
      · subst is
        cases here.symm.trans there
        cases mine
        exact .inr ⟨e, failure, (finished owner).trans (if_pos rfl), same⟩
      · exact .inl ⟨phase, e', (calls owner).trans ((if_neg is).trans there), mine, same⟩
    · refine .inr ⟨e', failure', (finished owner).trans ((if_neg ?_).trans done), same⟩
      rintro rfl
      -- What has a result is on its way out.
      rcases kept.handed.results owner (e', failure') done with ⟨_, leaves⟩ | returned
      · cases here.symm.trans leaves
      · rcases kept.handed.apart owner with absent | absent
        · cases here.symm.trans absent
        · cases returned.symm.trans absent
  · obtain ⟨owns, _⟩ := good_here kept known here
    rw [calls, if_pos rfl]
    exact ⟨owns.alone, fun _ => owns.limited⟩

theorem wake_told (kept : Kept w) {owner : String} {result : Result}
    (known : w.called.lookup call = some made) (here : w.registry.calls.lookup call = some (.waiting user owner))
    (done : w.registry.finished.lookup owner = some result) : Told made (.joined owner result) := by
  obtain ⟨e, joined, flying⟩ := good_here kept known here
  have same : limitsOf result.1 = limitsOf e := by
    rcases flying with ⟨phase, e', there, mine, _⟩ | ⟨e', failure, done', same⟩
    · rcases kept.handed.results owner result done with ⟨_, leaves⟩ | returned
      · cases there.symm.trans leaves
        cases mine
      · rcases kept.handed.apart owner with absent | absent
        · cases there.symm.trans absent
        · cases returned.symm.trans absent
    · cases done.symm.trans done'
      exact same
  intro none_
  unfold Delivered alike
  rw [joined, all_some]
  cases asked : made.limits with
  | none => exact iff_of_true (fun _ absurd => by cases absurd) rfl
  | some limits =>
    rw [Bool.not_eq_true', ← changed_same same, unchanged_iff, ← has_limits]
    constructor
    · exact fun delivered => delivered limits rfl none_
    · rintro has _ ⟨⟩ _
      exact has

theorem other_kept (kept : Kept w) (handed : Handed (flight (moveTo registry call after)))
    (calls : registry.calls = w.registry.calls) (returned : registry.returned = w.registry.returned)
    (finished : registry.finished = w.registry.finished)
    (aside : ∀ phase, w.registry.calls.lookup call = some phase → provisioned phase = none)
    (absent : w.called.lookup call = none) : Kept ⟨moveTo registry call after, w.called⟩ := by
  refine kept_moves kept handed calls returned finished (not_onward aside _) (fun _ _ => rfl) fun made known _ => ?_
  cases absent.symm.trans known

theorem new_aside (new : unused w.registry call) (here : w.registry.calls.lookup call = some phase) :
    provisioned phase = none := by
  simp only [unused, Bool.decide_and, Bool.and_eq_true, decide_eq_true_eq] at new
  cases new.1.symm.trans here

theorem here_aside {phase other : Phase} (here : w.registry.calls.lookup call = some phase) (none_ : provisioned phase = none)
    (there : w.registry.calls.lookup call = some other) : provisioned other = none := by
  cases here.symm.trans there
  exact none_

theorem elsewhere (kept : Kept w) (here : w.registry.calls.lookup call = some phase)
    (none_ : provisioned phase = none) (no : ∀ made, ¬ Knows w.registry made phase)
    (handed : Handed (flight (moveTo registry call after))) (calls : registry.calls = w.registry.calls)
    (returned : registry.returned = w.registry.returned) (finished : registry.finished = w.registry.finished) :
    Kept ⟨moveTo registry call after, w.called⟩ :=
  other_kept kept handed calls returned finished (fun _ => here_aside here none_) (other_handler kept here no)

theorem step_kept {action : Action} {next : World} (kept : Kept w) (stepped : step o w action = some next) : Kept next := by
  obtain ⟨registry, went, rfl⟩ := map_eq_some_iff.mp stepped
  have handed := ProvisionFlights.handed_step kept.handed went
  cases ExecutorRegistry.step_cases went with
  | ensure new => exact ensure_kept kept handed new
  | observed here => exact observed_kept kept handed here
  | @reconciled call user limits e outcome here =>
    have aside := fun phase => @here_aside w call _ phase here rfl
    cases outcome with
    | none =>
      refine kept_moves kept handed rfl rfl rfl (not_onward aside _) (fun _ _ => rfl) fun made known _ => ⟨_, rfl, ?_⟩
      exact good_here kept known here
    | some failure =>
      cases failure with
      | diskQuota =>
        exact kept_moves kept handed rfl rfl rfl (not_onward aside _) (fun _ _ => rfl) fun made known _ => ⟨_, rfl, trivial⟩
      | _ => exact kept_returns kept handed rfl rfl rfl (not_onward aside _) (fun _ _ => rfl) fun made _ => refused_told _
  | @mark call e here =>
    have aside := fun phase => @here_aside w call _ phase here rfl
    unfold mark at handed ⊢
    cases found : (w.registry.executors.lookup e.userID).filter fun current => current.id = e.id with
    | some | none =>
      rw [found] at handed
      exact kept_moves kept handed rfl rfl rfl (not_onward aside _) (fun _ _ => rfl) fun made known _ => ⟨_, rfl, trivial⟩
  | save here went => exact saved_kept kept handed here went
  | slot here =>
    refine kept_moves kept handed rfl rfl rfl ?_ (fun _ _ => rfl) fun made known _ => ⟨_, rfl, good_here kept known here⟩
    intro phase e there mine
    cases here.symm.trans there
    cases mine
    exact ⟨_, _, rfl, rfl, rfl⟩
  | cancel here =>
    refine kept_moves kept handed rfl rfl rfl ?_ (fun _ _ => rfl) fun made known _ => ⟨_, rfl, ?_⟩
    · intro phase e there mine
      cases here.symm.trans there
      cases mine
      exact ⟨_, _, rfl, rfl, rfl⟩
    · obtain ⟨mine, alone, limited⟩ := good_here kept known here
      exact ⟨⟨mine, alone, limited⟩, fun _ => rfl⟩
  | @ran call user e outcome here =>
    cases outcome with
    | none | some =>
      refine kept_moves kept handed rfl rfl rfl ?_ (fun _ _ => rfl) fun made known _ => ⟨_, rfl, ?_⟩
      · intro phase e there mine
        cases here.symm.trans there
        cases mine
        exact ⟨_, _, rfl, rfl, rfl⟩
      · obtain ⟨mine, alone, limited⟩ := good_here kept known here
        exact ⟨⟨mine, alone, limited⟩, fun absurd => by cases absurd⟩
  | finish here => exact finish_kept kept handed here
  | leave here =>
    have aside := fun phase => @here_aside w _ _ phase here rfl
    refine kept_returns kept handed rfl rfl rfl (not_onward aside _) (fun _ _ => rfl) fun made known => ?_
    obtain ⟨alone, limited⟩ := good_here kept known here
    exact own_told alone limited
  | wake here done =>
    have aside := fun phase => @here_aside w _ _ phase here rfl
    exact kept_returns kept handed rfl rfl rfl (not_onward aside _) (fun _ _ => rfl) fun made known =>
      wake_told kept known here done
  | giveUp here =>
    have aside := fun phase => @here_aside w _ _ phase here rfl
    exact kept_returns kept handed rfl rfl rfl (not_onward aside _) (fun _ _ => rfl) fun made known absurd => by cases absurd
  | stop new => exact other_kept kept handed rfl rfl rfl (fun _ => new_aside new) (not_called kept new)
  | stopped here | unstopped here | write here | scanned here | unscanned here | cut here | uncut here =>
    exact elsewhere kept here rfl (fun _ absurd => absurd) handed rfl rfl rfl
  | scan new => exact other_kept kept handed rfl rfl rfl (fun _ => new_aside new) (not_called kept new)
  | @note call e here =>
    unfold note at handed ⊢
    cases found : w.registry.executors.lookup e.userID with
    | none =>
      rw [found] at handed
      exact elsewhere kept here rfl (fun _ absurd => absurd) handed rfl rfl rfl
    | some =>
      rw [found] at handed
      dsimp only at handed ⊢
      split
      · next same =>
        rw [if_pos same] at handed
        exact elsewhere kept here rfl (fun _ absurd => absurd) handed rfl rfl rfl
      · next others =>
        rw [if_neg others] at handed
        exact elsewhere kept here rfl (fun _ absurd => absurd) handed rfl rfl rfl
  | unavailable new => exact other_kept kept handed rfl rfl rfl (fun _ => new_aside new) (not_called kept new)

theorem opened_kept (executors : Table Executor) : Kept (opened executors) :=
  ⟨ProvisionFlights.handed_empty, fun _ _ absurd => by cases absurd⟩

theorem finish_unchanged (kept : Kept w) {next : World} (known : w.called.lookup call = some made)
    (here : w.registry.calls.lookup call = some (.finishing user e (some .store) false))
    (stepped : step o w (.finish call) = some next) : Unchanged made next.registry ↔ left made := by
  obtain ⟨⟨mine, _⟩, fresh⟩ := good_here kept known here
  obtain ⟨status, limits⟩ := fresh rfl rfl
  have published : next.registry.executors.lookup made.user = some e := by
    rw [step, ExecutorRegistry.step, here, map_some] at stepped
    cases stepped
    dsimp only [finishProvision]
    rw [move_executors, ← mine]
    exact AList.lookup_insert _
  unfold Unchanged left
  rw [published, map_some]
  cases was : made.before with
  | none => exact iff_of_false (fun absurd => by cases absurd) (fun absurd => by cases absurd)
  | some b =>
    rw [map_some, any_some, decide_eq_true_iff, some.injEq, record, record, Prod.mk.injEq, status]
    constructor
    · rintro ⟨same, alike⟩
      exact ⟨same.symm, (limits b was same.symm).mp alike.symm⟩
    · rintro ⟨same, unchanged⟩
      exact ⟨same.symm, ((limits b was same).mpr unchanged).symm⟩

end Steps

theorem limits_exact (o : Options) (executors : Table Executor) {actions : List Action} {w : World}
    (ran : run (step o) (opened executors) actions = some w) : Exact o w := by
  have kept := run_invariant Kept (fun _ _ _ kept stepped => step_kept kept stepped) ran (opened_kept executors)
  constructor
  · intro call made answer known returned none_
    have good := kept.good call made known
    rcases kept.handed.apart call with absent | absent
    · change w.registry.calls.lookup call = none at absent
      rw [absent, returned] at good
      exact good none_
    · cases returned.symm.trans absent
  · exact fun call made user e next known here stepped => finish_unchanged kept known here stepped

def wide : Options := ⟨1, Nat.one_pos, 0⟩

def asking : List Action :=
  [.ensure "first" "ada" (some ⟨"2", 1, 1, 1⟩) 1, .save "first" .lost, .ensure "second" "ada" none 2, .finish "first",
    .wake "second", .leave "first", .ensure "third" "ada" (some ⟨"2", 1, 1, 1⟩) 3,
    .ensure "fourth" "ada" (some ⟨"2", 1, 1, 1⟩) 4, .save "third" .done, .slot "third", .ran "third" none,
    .save "third" .done, .finish "third", .wake "fourth"]

theorem asking_exact : ∃ w, run (step wide) (opened ∅) asking = some w ∧ Exact wide w := by
  obtain ⟨w, ran, _⟩ := map_eq_some_iff.mp (show (run (step wide) (opened ∅) asking).map (fun w =>
        (w.registry.returned.lookup "fourth").map fun answer => limitsOf (answered answer).1) = some (some ⟨"2", 1, 1, 1⟩) by
      decide +kernel)
  exact ⟨w, ran, limits_exact wide ∅ ran⟩

def joining : List Action :=
  [.ensure "first" "ada" none 1, .ensure "second" "ada" (some ⟨"2", 1, 1, 1⟩) 2, .save "first" .done, .slot "first",
    .ran "first" none, .save "first" .done, .finish "first", .wake "second"]

theorem limits_lost : (∃ w, run (step wide) (opened ∅) joining = some w ∧ ¬ Promised wide w) ∧
    ∃ w, run (step wide) (opened ∅) [.ensure "first" "ada" none 1, .save "first" .lost] = some w ∧ ¬ Promised wide w := by
  constructor
  · obtain ⟨w, ran, shown⟩ := map_eq_some_iff.mp (show (run (step wide) (opened ∅) joining).map (fun w =>
          ((w.called.lookup "second").map Called.limits, (w.registry.returned.lookup "second").map fun answer =>
            ((answered answer).2, executorHasLimits (answered answer).1 ⟨"2", 1, 1, 1⟩))) =
        some (some (some ⟨"2", 1, 1, 1⟩), some (none, false)) by decide +kernel)
    simp only [Prod.mk.injEq, map_eq_some_iff] at shown
    obtain ⟨⟨made, known, asked⟩, answer, returned, none_, less⟩ := shown
    refine ⟨w, ran, fun promised => ?_⟩
    cases less.symm.trans (promised.delivered "second" made answer known returned none_ _ asked none_)
  · refine ⟨_, rfl, fun promised => ?_⟩
    cases promised.unchanged "first" _ "ada" _ _ rfl rfl rfl

end PieRelay.EnsuredLimits
