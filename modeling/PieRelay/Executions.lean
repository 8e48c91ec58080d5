import Mathlib.Logic.Function.Basic

/-! Finite histories of a partial step function. An action that is not enabled
answers `none`, so a schedule is any list of actions that never gets stuck.
Concurrency is the choice of the next action; nothing here bounds the number of
parties or fixes an order between them. -/
namespace PieRelay.Executions
open List
variable {State Action : Type}

def run (step : State → Action → Option State) : State → List Action → Option State
  | state, [] => some state
  | state, action :: rest => (step state action).bind fun next => run step next rest

/-- Every action of the schedule meets `guard` in the state it is taken from. -/
def Guarded (step : State → Action → Option State) (guard : State → Action → Prop) :
    State → List Action → Prop
  | _, [] => True
  | state, action :: rest =>
    guard state action ∧ ∀ next, step state action = some next → Guarded step guard next rest

variable {step : State → Action → Option State} {guard : State → Action → Prop}
variable {state after : State} {actions : List Action} {other : State → Action → Prop}

theorem run_cons {action : Action} {rest : List Action} (ran : run step state (action :: rest) = some after) :
    ∃ next, step state action = some next ∧ run step next rest = some after :=
  Option.bind_eq_some_iff.mp ran

theorem run_append (state : State) (first second : List Action) :
    run step state (first ++ second) = (run step state first).bind fun middle => run step middle second := by
  induction first generalizing state with
  | nil => rfl
  | cons action rest ih =>
    rw [cons_append, run, run]
    cases step state action with
    | none => rfl
    | some next => exact ih next

-- The invariant may use the guard of the very action it is carried across.
theorem guarded_run_invariant (Inv : State → Prop) (preserved : ∀ state action next, guard state action → Inv state →
      step state action = some next → Inv next) (guarded : Guarded step guard state actions)
    (ran : run step state actions = some after) (start : Inv state) : Inv after := by
  induction actions generalizing state with
  | nil =>
    cases ran
    exact start
  | cons action rest ih =>
    obtain ⟨next, stepped, tail⟩ := run_cons ran
    exact ih (guarded.2 next stepped) tail (preserved state action next guarded.1 start stepped)

theorem guarded_append {middle : State} (first second : List Action)
    (guarded : Guarded step guard state (first ++ second)) (ran : run step state first = some middle) :
    Guarded step guard state first ∧ Guarded step guard middle second := by
  induction first generalizing state with
  | nil =>
    cases ran
    exact ⟨trivial, guarded⟩
  | cons action rest ih =>
    obtain ⟨next, stepped, tail⟩ := run_cons ran
    have onward := ih (guarded.2 next stepped) tail
    refine ⟨⟨guarded.1, fun other taken => ?_⟩, onward.2⟩
    cases stepped.symm.trans taken
    exact onward.1

theorem guarded_all (allowed : Action → Prop)
    (guarded : Guarded step guard state actions) (each : ∀ action ∈ actions, allowed action) :
    Guarded step (fun state action => guard state action ∧ allowed action) state actions := by
  induction actions generalizing state with
  | nil => trivial
  | cons action rest ih =>
    have head := each action mem_cons_self
    refine ⟨⟨guarded.1, head⟩, fun next stepped => ?_⟩
    exact ih (guarded.2 next stepped) fun other member => each other (mem_cons_of_mem action member)

theorem guarded_and (guarded : Guarded step guard state actions) (also : Guarded step other state actions) :
    Guarded step (fun state action => guard state action ∧ other state action) state actions := by
  induction actions generalizing state with
  | nil => trivial
  | cons action rest ih =>
    refine ⟨⟨guarded.1, also.1⟩, fun next stepped => ?_⟩
    exact ih (guarded.2 next stepped) (also.2 next stepped)

def Along (step : State → Action → Option State) (rel : State → State → Prop) :
    State → List Action → Prop :=
  Guarded step fun state action => ∀ next, step state action = some next → rel state next

-- The invariant only serves to compare the two guards in the states of the run.
theorem guarded_iff (Inv : State → Prop)
    (preserved : ∀ state action next, Inv state → step state action = some next → Inv next)
    (same : ∀ state action next, Inv state → step state action = some next →
      (guard state action ↔ other state action)) (ran : run step state actions = some after)
    (start : Inv state) : Guarded step guard state actions ↔ Guarded step other state actions := by
  induction actions generalizing state with
  | nil => exact Iff.rfl
  | cons action rest ih =>
    obtain ⟨next, stepped, tail⟩ := run_cons ran
    refine and_congr (same state action next start stepped) ?_
    refine forall_congr' fun later => ?_
    refine imp_congr_right fun taken => ?_
    cases stepped.symm.trans taken
    exact ih tail (preserved state action next start stepped)

/-- Two guards that say the same in good states, which a guarded step leads to, say the same of a run. -/
theorem guarded_same (Inv : State → Prop)
    (preserved : ∀ state action next, guard state action → Inv state → step state action = some next → Inv next)
    (same : ∀ state action, Inv state → (guard state action ↔ other state action)) (start : Inv state) :
    Guarded step guard state actions ↔ Guarded step other state actions := by
  induction actions generalizing state with
  | nil => exact Iff.rfl
  | cons action rest ih =>
    constructor
    · intro guarded
      refine ⟨(same state action start).mp guarded.1, fun next stepped => ?_⟩
      exact (ih (preserved state action next guarded.1 start stepped)).mp (guarded.2 next stepped)
    · intro guarded
      have allowed := (same state action start).mpr guarded.1
      refine ⟨allowed, fun next stepped => ?_⟩
      exact (ih (preserved state action next allowed start stepped)).mpr (guarded.2 next stepped)

/-- Where a step from a good state ends well exactly when it meets the guard, a run that starts well
    stays well exactly when all its steps meet the guard. -/
theorem along_good_iff (Inv Good : State → Prop)
    (preserved : ∀ state action next, Inv state → step state action = some next → Inv next)
    (same : ∀ state action next, Inv state → Good state → step state action = some next →
      (Good next ↔ guard state action)) (ran : run step state actions = some after)
    (start : Inv state) (good : Good state) :
    Along step (fun _ next => Good next) state actions ↔ Guarded step guard state actions := by
  induction actions generalizing state with
  | nil => exact Iff.rfl
  | cons action rest ih =>
    obtain ⟨next, stepped, tail⟩ := run_cons ran
    have onward := preserved state action next start stepped
    have here := same state action next start good stepped
    constructor
    · intro along
      have well := along.1 next stepped
      refine ⟨here.mp well, fun later taken => ?_⟩
      cases stepped.symm.trans taken
      exact (ih tail onward well).mp (along.2 next stepped)
    · intro guarded
      have well := here.mpr guarded.1
      refine ⟨fun later taken => ?_, fun later taken => ?_⟩
      · cases stepped.symm.trans taken
        exact well
      · cases stepped.symm.trans taken
        exact (ih tail onward well).mpr (guarded.2 next stepped)

def checked (step : State → Action → Option State) (check : State → Action → Bool) :
    State → List Action → Bool
  | _, [] => true
  | state, action :: rest => check state action &&
      match step state action with
      | some next => checked step check next rest
      | none => true

theorem checked_guarded (check : State → Action → Bool)
    (sound : ∀ state action, check state action → guard state action)
    (state : State) (actions : List Action) (passed : checked step check state actions) :
    Guarded step guard state actions := by
  induction actions generalizing state with
  | nil => trivial
  | cons action rest ih =>
    simp only [checked, Bool.and_eq_true] at passed
    refine ⟨sound state action passed.1, fun next stepped => ih next ?_⟩
    simpa [stepped] using passed.2

def script (step : State → Action → Option State) (state : State) : List (State → Action) → List Action
  | [] => []
  | choose :: rest => choose state :: match step state (choose state) with
    | some next => script step next rest
    | none => []

theorem each_guarded (state : State) (actions : List Action)
    (each : ∀ state action, action ∈ actions → guard state action) : Guarded step guard state actions := by
  induction actions generalizing state with
  | nil => trivial
  | cons action rest ih =>
    refine ⟨each state action mem_cons_self, fun next _ => ih next ?_⟩
    intro later other member
    exact each later other (mem_cons_of_mem action member)

theorem unguarded (state : State) (actions : List Action) : Guarded step (fun _ _ => True) state actions :=
  each_guarded state actions fun _ _ _ => trivial

theorem run_invariant (Inv : State → Prop)
    (preserved : ∀ state action next, Inv state → step state action = some next → Inv next)
    (ran : run step state actions = some after) (start : Inv state) : Inv after :=
  guarded_run_invariant Inv (fun state action next _ => preserved state action next) (unguarded state actions) ran start

/-- Where some allowed step brings the end closer as long as there is something to do, a run of allowed
    steps gets everything done. -/
theorem run_done (Inv : State → Prop) (measure : State → Nat) (allowed : Action → Prop)
    (preserved : ∀ state action next, Inv state → step state action = some next → Inv next)
    (progress : ∀ state, Inv state → measure state ≠ 0 →
      ∃ action next, allowed action ∧ step state action = some next ∧ measure next < measure state)
    (state : State) (start : Inv state) :
    ∃ actions done, run step state actions = some done ∧ measure done = 0 ∧ ∀ action ∈ actions, allowed action := by
  induction size : measure state using Nat.strongRecOn generalizing state with
  | ind size ih =>
    by_cases finished : measure state = 0
    · exact ⟨[], state, rfl, finished, fun _ member => absurd member not_mem_nil⟩
    · obtain ⟨action, next, fine, stepped, less⟩ := progress state start finished
      obtain ⟨rest, done, ran, none, each⟩ := ih (measure next) (by omega) next
        (preserved state action next start stepped) rfl
      refine ⟨action :: rest, done, ?_, none, ?_⟩
      · rw [run, stepped]
        exact ran
      · exact forall_mem_cons.mpr ⟨fine, each⟩

/-- A preorder that every single step respects relates the two ends of a run. -/
theorem run_relation (rel : State → State → Prop) (reflexive : ∀ state, rel state state)
    (transitive : ∀ a b c, rel a b → rel b c → rel a c)
    (respected : ∀ state action next, step state action = some next → rel state next)
    (ran : run step state actions = some after) : rel state after := by
  refine run_invariant (rel state) ?_ ran (reflexive state)
  intro middle action next held stepped
  exact transitive state middle next held (respected middle action next stepped)

end PieRelay.Executions
