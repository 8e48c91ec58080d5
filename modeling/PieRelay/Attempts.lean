import Mathlib.Logic.Basic

/-! Steps that may stop with a failure. What was done before the failure stays done.
`Meets` says of an attempt both exactly when it gets through and what it leaves behind
when it does, so that a sequence of attempts is decided from its parts. -/
namespace PieRelay.Attempts
variable {State Failure Item : Type}

structure Outcome (State Failure : Type) where
  state : State
  failure : Option Failure

def done (state : State) : Outcome State Failure := ⟨state, none⟩

def failed (state : State) (failure : Failure) : Outcome State Failure := ⟨state, some failure⟩

def Outcome.andThen (first : Outcome State Failure) (next : State → Outcome State Failure) :
    Outcome State Failure :=
  match first.failure with
  | none => next first.state
  | some _ => first

def inTurn (attempt : Item → State → Outcome State Failure) :
    List Item → State → Outcome State Failure
  | [], state => done state
  | item :: rest, state => (attempt item state).andThen (inTurn attempt rest)

structure Meets (outcome : Outcome State Failure) (fine : Prop) (post : State → Prop) : Prop where
  succeeds : outcome.failure = none ↔ fine
  leaves : outcome.failure = none → post outcome.state

variable {state : State} {post : State → Prop} {fine : Prop}

theorem done_meets (holds : post state) : Meets (done state : Outcome State Failure) True post :=
  ⟨by simp [done], fun _ => holds⟩

theorem failed_meets {failure : Failure} (never : ¬ fine) : Meets (failed state failure) fine post :=
  ⟨by simp [failed, never], by simp [failed]⟩

theorem meets_of_iff {outcome : Outcome State Failure} {other : Prop}
    (same : fine ↔ other) (met : Meets outcome fine post) : Meets outcome other post :=
  ⟨met.succeeds.trans same, met.leaves⟩

theorem meets_of_imp {outcome : Outcome State Failure} {weaker : State → Prop}
    (follows : ∀ state, post state → weaker state) (met : Meets outcome fine post) : Meets outcome fine weaker :=
  ⟨met.succeeds, fun through => follows _ (met.leaves through)⟩

theorem and_then_meets {first : Outcome State Failure} {next : State → Outcome State Failure}
    {onward : Prop} {between : State → Prop} (started : Meets first fine between)
    (continued : ∀ state, between state → Meets (next state) onward post) :
    Meets (first.andThen next) (fine ∧ onward) post := by
  unfold Outcome.andThen
  cases answer : first.failure with
  | none =>
    have met := continued first.state (started.leaves answer)
    exact ⟨met.succeeds.trans (and_iff_right (started.succeeds.mp answer)).symm, met.leaves⟩
  | some =>
    have stopped : ¬ fine := fun fine => by
      rw [started.succeeds.mpr fine] at answer
      cases answer
    exact ⟨by simp [answer, stopped], by simp [answer]⟩

/-- The rule for a loop. `ready` speaks of the items still to come. -/
theorem in_turn_meets {attempt : Item → State → Outcome State Failure} (fine : Item → Prop)
    (ready : List Item → State → Prop) (each : ∀ item rest state, ready (item :: rest) state →
      Meets (attempt item state) (fine item) (ready rest)) {items : List Item} (start : ready items state) :
    Meets (inTurn attempt items state) (∀ item ∈ items, fine item) (ready []) := by
  induction items generalizing state with
  | nil => exact meets_of_iff (by simp) (done_meets start)
  | cons item rest ih =>
    have met := and_then_meets (each item rest state start) fun _ onward => ih onward
    exact meets_of_iff (by simp) met

end PieRelay.Attempts
