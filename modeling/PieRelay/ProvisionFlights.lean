import PieRelay.ExecutorRegistry

/-!
What the handlers of the registry do with its calls of `ensure` and with its slots. A call that has claimed
a user owns the entry of that user until `finishProvision`, and a slot is given back by the handler that took
it.
-/
namespace PieRelay.ProvisionFlights
open Option
open Admission (count count_insert count_erase count_zero load load_insert load_erase load_done lookup_insert_update
  lookup_erase_update)
open ExecutorRegistry
open Executions
open Function
open RoomRegistry (Time)

def Phase.owns : Phase → Option String
  | .saving user _ => some user
  | .queueing user _ => some user
  | .running user _ => some user
  | .settling user _ _ _ => some user
  | .finishing user _ _ _ => some user
  | _ => none

def Phase.slotted : Phase → Bool
  | .running _ _ => true
  | .settling _ _ _ slot => slot
  | .finishing _ _ _ slot => slot
  | .leaving _ slot => slot
  | _ => false

def Phase.runs : Phase → Bool
  | .running _ _ => true
  | _ => false

def Phase.aside : Phase → Bool
  | .waiting _ _ => false
  | .saving _ _ => false
  | .queueing _ _ => false
  | .running _ _ => false
  | .settling _ _ _ _ => false
  | .finishing _ _ _ _ => false
  | .leaving _ _ => false
  | _ => true

structure Flight where
  provisioning : String → Option String
  finished : String → Option Result
  slots : Nat
  taken : Nat
  calls : String → Option Phase
  returned : String → Option Answer

def flight (w : World) : Flight :=
  ⟨w.provisioning.lookup, w.finished.lookup, w.provisionSlots, count Phase.slotted w.calls, w.calls.lookup,
    w.returned.lookup⟩

def Flight.move (f : Flight) (call : String) (phase : Option Phase) : Flight := { f with
  taken := f.taken + (phase.any Phase.slotted).toNat - ((f.calls call).any Phase.slotted).toNat
  calls := update f.calls call phase }

def Flight.answer (f : Flight) (call : String) (answer : Answer) : Flight :=
  { f.move call none with returned := update f.returned call (some answer) }

variable {w next : World} {call user : String} {phase : Phase} {concurrency : Nat}

theorem flight_move (w : World) (call : String) (phase : Option Phase) :
    flight (moveTo w call phase) = (flight w).move call phase := by
  cases phase with
  | none =>
    have less := count_erase Phase.slotted w.calls call
    have taken : count Phase.slotted (w.calls.erase call) =
        count Phase.slotted w.calls + 0 - ((w.calls.lookup call).any Phase.slotted).toNat := by omega
    exact congrArg₂ (fun taken calls => { flight w with taken, calls }) taken (lookup_erase_update w.calls call)
  | some phase =>
    have same := count_insert Phase.slotted w.calls call phase
    have taken : count Phase.slotted (w.calls.insert call phase) = count Phase.slotted w.calls +
        (Phase.slotted phase).toNat - ((w.calls.lookup call).any Phase.slotted).toNat := by omega
    exact congrArg₂ (fun taken calls => { flight w with taken, calls }) taken (lookup_insert_update w.calls call phase)

theorem flight_answer (w : World) (call : String) (answer : Answer) :
    flight (returns w call answer) = (flight w).answer call answer := by
  have moved := flight_move w call none
  have answers := lookup_insert_update w.returned call answer
  show { flight (moveTo w call none) with returned := (w.returned.insert call answer).lookup } = _
  rw [moved, answers]
  rfl

def Flight.enters (f : Flight) (call : String) : Prop :=
  (f.calls call).all Phase.aside ∧
    (f.calls call = none → f.finished call = none ∧ f.returned call = none)

inductive Moves (concurrency : Nat) (f : Flight) : Action → Flight → Prop where
  | aside {action : Action} {call : String} {phase : Option Phase} (enters : f.enters call) (after : phase.all Phase.aside) :
      Moves concurrency f action (f.move call phase)
  | answer {action : Action} {call : String} {result : Result} (enters : f.enters call) :
      Moves concurrency f action (f.answer call (.own result))
  | join {action : Action} {call user owner : String} (enters : f.enters call) (taken : f.provisioning user = some owner) :
      Moves concurrency f action (f.move call (some (.waiting user owner)))
  | claim {action : Action} {call user : String} {e : Executor} (enters : f.enters call) (free : f.provisioning user = none) :
      Moves concurrency f action
        ({ f with provisioning := update f.provisioning user (some call) }.move call (some (.saving user e)))
  | onward {action : Action} {call user : String} {before after : Phase} (here : f.calls call = some before)
      (owns : Phase.owns before = some user) (kept : Phase.owns after = some user)
      (slot : Phase.slotted after = Phase.slotted before) :
      Moves concurrency f action (f.move call (some after))
  | slot {action : Action} {call user : String} {e : Executor} (here : f.calls call = some (.queueing user e))
      (room : f.slots < concurrency) :
      Moves concurrency f action ({ f with slots := f.slots + 1 }.move call (some (.running user e)))
  | finish {action : Action} {call user : String} {before : Phase} {result : Result} (here : f.calls call = some before)
      (owns : Phase.owns before = some user) :
      Moves concurrency f action ({ f with
        provisioning := update f.provisioning user none
        finished := (f.provisioning user).elim f.finished fun owner => update f.finished owner (some result)
        }.move call (some (.leaving result (Phase.slotted before))))
  | leave {action : Action} {call : String} {result : Result} {slot : Bool} (here : f.calls call = some (.leaving result slot)) :
      Moves concurrency f action ({ f with slots := f.slots - slot.toNat }.answer call (.own result))
  | wake {action : Action} {call user owner : String} {result : Result} (here : f.calls call = some (.waiting user owner))
      (done : f.finished owner = some result) : Moves concurrency f action (f.answer call (.joined owner result))
  | giveUp {call user owner : String} (here : f.calls call = some (.waiting user owner)) :
      Moves concurrency f (.giveUp call) (f.answer call .abandoned)

variable {o : Options} {action : Action}
variable {f f' : Flight}

theorem enters_unused (new : unused w call) : (flight w).enters call := by
  simp only [unused, Bool.decide_and, Bool.and_eq_true, decide_eq_true_eq] at new
  obtain ⟨absent, neither⟩ := new
  refine ⟨?_, fun _ => neither⟩
  show (w.calls.lookup call).all Phase.aside
  rw [absent]
  rfl

theorem enters_aside (here : w.calls.lookup call = some phase)
    (aside : Phase.aside phase) : (flight w).enters call := by
  constructor
  · show (w.calls.lookup call).all Phase.aside
    rw [here]
    exact aside
  · intro absent
    cases here.symm.trans absent

section
variable (enters : (flight w).enters call)
include enters

theorem aside_moves {w' : World} {phase : Option Phase}
    (after : phase.all Phase.aside) (same : flight w' = (flight w).move call phase) :
    Moves o.provisionConcurrency (flight w) action (flight w') := by
  rw [same]
  exact .aside enters after

theorem answer_moves {w' : World} {result : Result} (same : flight w' = (flight w).answer call (.own result)) :
    Moves o.provisionConcurrency (flight w) action (flight w') := by
  rw [same]
  exact .answer enters

theorem claim_moves {limits : Option ExecutorLimits} {now : Time} :
    Moves o.provisionConcurrency (flight w) action (flight (claim o w call user limits now)) := by
  unfold claim
  split
  · next taken =>
    rw [flight_move]
    exact .join enters taken
  · next free =>
    dsimp only
    split
    · exact answer_moves enters (flight_answer w call _)
    · have entered := lookup_insert_update w.provisioning user call
      rw [flight_move]
      show Moves _ _ _ ({ flight w with provisioning := (w.provisioning.insert user call).lookup }.move call _)
      rw [entered]
      exact .claim enters free

theorem ensure_moves {limits : Option ExecutorLimits} {now : Time} :
    Moves o.provisionConcurrency (flight w) action (flight (ensure o w call user limits now)) := by
  unfold ensure
  split
  · split
    · exact aside_moves enters rfl (flight_move w call _)
    · exact claim_moves enters
  · exact answer_moves enters (flight_answer w call _)

end

theorem written_flight (w : World) (e : Executor) (saved : Saved) : flight (written w e saved) = flight w := by
  cases saved <;> rfl

theorem saved_moves {answer : Saved}
    (here : w.calls.lookup call = some phase) (stepped : saved w call answer phase = some next) :
    Moves o.provisionConcurrency (flight w) action (flight next) := by
  have moved (e : Executor) (after : Option Phase) :
      flight (moveTo (written w e answer) call after) = (flight w).move call after := by
    rw [flight_move, written_flight]
  cases phase with
  | markSaving e =>
    cases stepped
    have same := flight_answer (written w e answer) call (.own (refused .diskQuota))
    rw [written_flight] at same
    exact answer_moves (enters_aside here rfl) same
  | saving =>
    cases stepped
    rw [moved]
    cases answer <;> exact .onward here rfl rfl rfl
  | settling =>
    cases stepped
    rw [moved]
    exact .onward here rfl rfl rfl
  | stopSaving user e =>
    cases stepped
    refine aside_moves (enters_aside here rfl) ?_ (moved e _)
    cases answer <;> rfl
  | storing e =>
    cases stepped
    exact aside_moves (enters_aside here rfl) rfl (moved e none)
  | _ => cases stepped

theorem finish_moves {e : Executor} {failure : Option Failure} {slot : Bool}
    (here : w.calls.lookup call = some (.finishing user e failure slot)) :
    Moves o.provisionConcurrency (flight w) action (flight (finishProvision w call user e failure slot)) := by
  have gone := lookup_erase_update w.provisioning user
  have ended := @Moves.finish o.provisionConcurrency (flight w) action call user (.finishing user e failure slot)
    (e, failure) here rfl
  unfold finishProvision
  rw [flight_move]
  cases taken : w.provisioning.lookup user with
  | none =>
    have same : (flight w).provisioning user = none := taken
    rw [same] at ended
    show Moves _ _ _ ({ flight w with provisioning := (w.provisioning.erase user).lookup }.move call _)
    rw [gone]
    exact ended
  | some owner =>
    have same : (flight w).provisioning user = some owner := taken
    have handed := lookup_insert_update w.finished owner (e, failure)
    rw [same] at ended
    show Moves _ _ _ ({ flight w with
      provisioning := (w.provisioning.erase user).lookup
      finished := (w.finished.insert owner (e, failure)).lookup }.move call _)
    rw [gone, handed]
    exact ended

theorem step_moves (stepped : step o w action = some next) :
    Moves o.provisionConcurrency (flight w) action (flight next) := by
  cases step_cases stepped with
  | ensure new => exact ensure_moves (enters_unused new)
  | @reconciled call _ _ _ outcome here =>
    have enters := enters_aside here rfl
    unfold reconciled
    split
    · exact aside_moves enters rfl (flight_move w call _)
    · exact aside_moves enters rfl (flight_move w call _)
    · exact answer_moves enters (flight_answer w call _)
  | @observed call _ _ _ seen _ here =>
    have enters := enters_aside here rfl
    unfold observed
    split
    · split
      · exact claim_moves enters
      · exact answer_moves enters (flight_answer w call _)
    · exact claim_moves enters
    · exact answer_moves enters (flight_answer w call _)
  | @mark call _ here =>
    unfold mark
    split <;> exact aside_moves (enters_aside here rfl) rfl (flight_move _ call _)
  | save here went => exact saved_moves here went
  | slot here room =>
    rw [flight_move]
    exact .slot here room
  | cancel here =>
    rw [flight_move]
    exact .onward here rfl rfl rfl
  | ran here =>
    unfold ran
    split
    all_goals
      rw [flight_move]
      exact .onward here rfl rfl rfl
  | finish here => exact finish_moves here
  | leave here =>
    rw [flight_answer]
    exact .leave here
  | wake here done =>
    rw [flight_answer]
    exact .wake here done
  | giveUp here =>
    rw [flight_answer]
    exact .giveUp here
  | stop new => exact aside_moves (enters_unused new) rfl (flight_move w _ _)
  | stopped here | write here | cut here => exact aside_moves (enters_aside here rfl) rfl (flight_move _ _ _)
  | unstopped here | unscanned here | uncut here =>
    exact aside_moves (enters_aside here rfl) rfl (flight_move w _ _)
  | scan new => exact aside_moves (enters_unused new) rfl (flight_move w _ _)
  | scanned here =>
    refine aside_moves (enters_aside here rfl) ?_ (flight_move w _ _)
    split <;> rfl
  | @note call _ here =>
    unfold note
    split
    · split <;> exact aside_moves (enters_aside here rfl) rfl (flight_move _ call _)
    · exact aside_moves (enters_aside here rfl) rfl (flight_move w call _)
  | unavailable new => exact aside_moves (enters_unused new) rfl (flight_move _ _ _)

structure Handed (f : Flight) : Prop where
  owned : ∀ user call, f.provisioning user = some call ↔ (f.calls call).bind Phase.owns = some user
  apart : ∀ call, f.calls call = none ∨ f.returned call = none
  leaves : ∀ call result slot, f.calls call = some (.leaving result slot) → f.finished call = some result
  results : ∀ call result, f.finished call = some result →
    (∃ slot, f.calls call = some (.leaving result slot)) ∨ f.returned call = some (.own result)
  waits : ∀ call user owner, f.calls call = some (.waiting user owner) →
    f.provisioning user = some owner ∨ ∃ result, f.finished owner = some result
  joined : ∀ call owner result, f.returned call = some (.joined owner result) → f.finished owner = some result

section Handing
variable {f : Flight} {call : String}

theorem move_calls (f : Flight) (call other : String) (phase : Option Phase) :
    (f.move call phase).calls other = if other = call then phase else f.calls other :=
  update_apply f.calls call phase other

theorem aside_owns (aside : Phase.aside phase) : Phase.owns phase = none := by
  cases phase <;> first | rfl | cases aside

theorem aside_slotted (aside : Phase.aside phase) : Phase.slotted phase = false := by
  cases phase <;> first | rfl | cases aside

theorem all_aside_owns {phase : Option Phase} (aside : phase.all Phase.aside) : phase.bind Phase.owns = none := by
  cases phase with
  | none => rfl
  | some => exact aside_owns aside

theorem all_aside_slotted {phase : Option Phase} (aside : phase.all Phase.aside) : phase.any Phase.slotted = false := by
  cases phase with
  | none => rfl
  | some => exact aside_slotted aside

section
variable (handed : Handed f)
include handed

theorem enters_returned (enters : f.enters call) : f.returned call = none := by
  rcases handed.apart call with absent | unanswered
  · exact (enters.2 absent).2
  · exact unanswered

theorem here_returned (here : f.calls call = some phase) : f.returned call = none :=
  (handed.apart call).resolve_left fun absent => by cases here.symm.trans absent

theorem handed_move (after : Option Phase)
    (kept : after.bind Phase.owns = (f.calls call).bind Phase.owns) (unanswered : f.returned call = none)
    (unended : ∀ result slot, f.calls call ≠ some (.leaving result slot))
    (ongoing : ∀ result slot, after ≠ some (.leaving result slot))
    (waits : ∀ user owner, after = some (.waiting user owner) → f.provisioning user = some owner) :
    Handed (f.move call after) := by
  constructor
  · intro user other
    show f.provisioning user = some other ↔ _
    rw [handed.owned user other, move_calls]
    split
    · next same =>
      subst same
      rw [kept]
    · rfl
  · intro other
    rw [move_calls]
    split
    · next same =>
      subst same
      exact .inr unanswered
    · exact handed.apart other
  · intro other result slot here
    rw [move_calls] at here
    split at here
    · exact absurd here (ongoing result slot)
    · exact handed.leaves other result slot here
  · intro other result done
    rcases handed.results other result done with ⟨slot, here⟩ | answered
    · refine .inl ⟨slot, ?_⟩
      rw [move_calls, if_neg]
      · exact here
      · rintro rfl
        exact unended result slot here
    · exact .inr answered
  · intro other user owner here
    rw [move_calls] at here
    split at here
    · exact .inl (waits user owner here)
    · exact handed.waits other user owner here
  · exact handed.joined

theorem handed_answer (answer : Answer) (free : (f.calls call).bind Phase.owns = none)
    (unanswered : f.returned call = none)
    (ended : ∀ result slot, f.calls call = some (.leaving result slot) → answer = .own result)
    (joined : ∀ owner result, answer = .joined owner result → f.finished owner = some result) :
    Handed (f.answer call answer) := by
  have calls (other : String) : (f.answer call answer).calls other = if other = call then none else f.calls other :=
    move_calls f call other none
  have answers (other : String) :
      (f.answer call answer).returned other = if other = call then some answer else f.returned other :=
    update_apply f.returned call (some answer) other
  constructor
  · intro user other
    show f.provisioning user = some other ↔ _
    rw [handed.owned user other, calls]
    split
    · next same =>
      subst same
      rw [free]
      rfl
    · rfl
  · intro other
    rw [calls, answers]
    split
    · exact .inl rfl
    · exact handed.apart other
  · intro other result slot here
    rw [calls] at here
    split at here
    · cases here
    · exact handed.leaves other result slot here
  · intro other result done
    rw [calls, answers]
    split
    · next same =>
      subst same
      rcases handed.results other result done with ⟨slot, here⟩ | answered
      · exact .inr (congrArg some (ended result slot here))
      · cases unanswered.symm.trans answered
    · exact handed.results other result done
  · intro other user owner here
    rw [calls] at here
    split at here
    · cases here
    · exact handed.waits other user owner here
  · intro other owner result answered
    rw [answers] at answered
    split at answered
    · exact joined owner result (some.inj answered)
    · exact handed.joined other owner result answered

theorem handed_claim {e : Executor} (enters : f.enters call) (free : f.provisioning user = none) :
    Handed ({ f with provisioning := update f.provisioning user (some call) }.move call (some (.saving user e))) := by
  have idle : (f.calls call).bind Phase.owns = none := all_aside_owns enters.1
  have unanswered := enters_returned handed enters
  constructor
  · intro other owner
    rw [move_calls]
    show update f.provisioning user (some call) other = _ ↔ _
    rw [update_apply]
    split
    · next same =>
      subst same
      split
      · next here =>
        subst here
        exact iff_of_true rfl rfl
      · next apart =>
        refine iff_of_false (fun equal => apart (some.inj equal).symm) fun owns => ?_
        cases free.symm.trans ((handed.owned other owner).mpr owns)
    · next other_user =>
      rw [handed.owned other owner]
      split
      · next here =>
        subst here
        rw [idle]
        exact iff_of_false nofun fun same => other_user (some.inj same).symm
      · rfl
  · intro other
    rw [move_calls]
    split
    · next here =>
      subst here
      exact .inr unanswered
    · exact handed.apart other
  · intro other result slot here
    rw [move_calls] at here
    split at here
    · cases here
    · exact handed.leaves other result slot here
  · intro other result done
    rcases handed.results other result done with ⟨slot, here⟩ | answered
    · refine .inl ⟨slot, ?_⟩
      rw [move_calls, if_neg]
      · exact here
      · rintro rfl
        have aside := enters.1
        rw [here] at aside
        cases aside
    · exact .inr answered
  · intro other waited owner here
    rw [move_calls] at here
    split at here
    · cases here
    · rcases handed.waits other waited owner here with entry | done
      · refine .inl ?_
        show update f.provisioning user (some call) waited = some owner
        rw [update_of_ne]
        · exact entry
        · rintro rfl
          cases free.symm.trans entry
      · exact .inr done
  · exact handed.joined

theorem handed_finish {before : Phase} {result : Result} {slot : Bool}
    (here : f.calls call = some before) (owns : Phase.owns before = some user) : Handed ({ f with
      provisioning := update f.provisioning user none
      finished := (f.provisioning user).elim f.finished fun owner => update f.finished owner (some result)
      }.move call (some (.leaving result slot))) := by
  have mine : (f.calls call).bind Phase.owns = some user := by
    rw [here]
    exact owns
  have entry : f.provisioning user = some call := (handed.owned user call).mpr mine
  have unanswered := here_returned handed here
  have new (other : Result) : f.finished call ≠ some other := by
    intro done
    rcases handed.results call other done with ⟨slot, leaving⟩ | answered
    · cases here.symm.trans leaving
      cases owns
    · cases unanswered.symm.trans answered
  rw [entry]
  constructor
  · intro other owner
    rw [move_calls]
    show update f.provisioning user none other = _ ↔ _
    rw [update_apply]
    split
    · next same =>
      subst same
      refine iff_of_false nofun fun again => ?_
      split at again
      · cases again
      · next apart => exact apart (some.inj (((handed.owned other owner).mpr again).symm.trans entry))
    · next other_user =>
      rw [handed.owned other owner]
      split
      · next same =>
        subst same
        rw [mine]
        exact iff_of_false (fun equal => other_user (some.inj equal).symm) nofun
      · rfl
  · intro other
    rw [move_calls]
    split
    · next same =>
      subst same
      exact .inr unanswered
    · exact handed.apart other
  · intro other left slot leaving
    rw [move_calls] at leaving
    show update f.finished call (some result) other = some left
    rw [update_apply]
    split at leaving
    · next same =>
      cases leaving
      rw [if_pos same]
    · next apart =>
      rw [if_neg apart]
      exact handed.leaves other left slot leaving
  · intro other left done
    change update f.finished call (some result) other = some left at done
    rw [update_apply] at done
    rw [move_calls]
    split at done
    · next same =>
      cases done
      exact .inl ⟨slot, if_pos same⟩
    · next apart =>
      rw [if_neg apart]
      exact handed.results other left done
  · intro other waited owner waiting
    rw [move_calls] at waiting
    split at waiting
    · cases waiting
    · show update f.provisioning user none waited = some owner ∨ ∃ left, update f.finished call (some result) owner = _
      rw [update_apply, update_apply]
      rcases handed.waits other waited owner waiting with held | ⟨left, done⟩
      · split
        · next same =>
          subst same
          rw [if_pos (some.inj (held.symm.trans entry))]
          exact .inr ⟨result, rfl⟩
        · exact .inl held
      · refine .inr ?_
        split
        · exact ⟨result, rfl⟩
        · exact ⟨left, done⟩
  · intro other owner left answered
    show update f.finished call (some result) owner = some left
    have done := handed.joined other owner left answered
    rw [update_of_ne]
    · exact done
    · rintro rfl
      exact new left done

end

end Handing

theorem handed_moves (handed : Handed f) (moves : Moves concurrency f action f') : Handed f' := by
  cases moves with
  | @aside action call phase enters after =>
    refine handed_move handed phase ?_ (enters_returned handed enters) ?_ ?_ ?_
    · rw [all_aside_owns enters.1, all_aside_owns after]
    · intro result slot here
      have aside := enters.1
      rw [here] at aside
      cases aside
    · rintro result slot rfl
      cases after
    · rintro user owner rfl
      cases after
  | @answer action call result enters =>
    refine handed_answer handed _ (all_aside_owns enters.1) (enters_returned handed enters) ?_ ?_
    · intro other slot here
      have aside := enters.1
      rw [here] at aside
      cases aside
    · rintro owner other ⟨⟩
  | @join action call user owner enters taken =>
    refine handed_move handed _ ?_ (enters_returned handed enters) ?_ ?_ ?_
    · rw [all_aside_owns enters.1]
      rfl
    · intro result slot here
      have aside := enters.1
      rw [here] at aside
      cases aside
    · rintro result slot ⟨⟩
    · rintro other found ⟨⟩
      exact taken
  | claim enters free => exact handed_claim handed enters free
  | @onward action call user before after here owns kept slot =>
    refine handed_move handed _ ?_ (here_returned handed here) ?_ ?_ ?_
    · rw [here]
      exact kept.trans owns.symm
    · rintro result slot leaving
      cases here.symm.trans leaving
      cases owns
    · rintro result slot ⟨⟩
      cases kept
    · rintro other owner ⟨⟩
      cases kept
  | @slot action call user e here room =>
    have moved : Handed (f.move call (some (.running user e))) := handed_move handed _ (by rw [here]; rfl)
      (here_returned handed here) (fun result slot leaving => by cases here.symm.trans leaving)
      (fun result slot leaving => by cases leaving) (fun other owner waiting => by cases waiting)
    exact ⟨moved.owned, moved.apart, moved.leaves, moved.results, moved.waits, moved.joined⟩
  | finish here owns => exact handed_finish handed here owns
  | @leave action call result slot here =>
    have left := handed_answer handed (.own result) (by rw [here]; rfl) (here_returned handed here)
      (fun other slot leaving => by
        cases here.symm.trans leaving
        rfl)
      (fun owner other joined => by cases joined)
    exact ⟨left.owned, left.apart, left.leaves, left.results, left.waits, left.joined⟩
  | @wake action call user owner result here done =>
    refine handed_answer handed _ (by rw [here]; rfl) (here_returned handed here) ?_ ?_
    · intro other slot leaving
      cases here.symm.trans leaving
    · rintro other found ⟨⟩
      exact done
  | @giveUp call user owner here =>
    refine handed_answer handed _ (by rw [here]; rfl) (here_returned handed here) ?_ ?_
    · intro other slot leaving
      cases here.symm.trans leaving
    · rintro other found ⟨⟩

theorem slots_moves (moves : Moves concurrency f action f')
    (each : f.slots = f.taken ∧ f.slots ≤ concurrency) : f'.slots = f'.taken ∧ f'.slots ≤ concurrency := by
  have taken (call : String) (phase : Option Phase) : (f.move call phase).taken =
      f.taken + (phase.any Phase.slotted).toNat - ((f.calls call).any Phase.slotted).toNat := rfl
  cases moves with
  | aside enters after =>
    show f.slots = _ ∧ _
    rw [taken, all_aside_slotted after, all_aside_slotted enters.1]
    exact each
  | answer enters | claim enters =>
    show f.slots = f.taken + _ - _ ∧ _
    rw [all_aside_slotted enters.1]
    exact each
  | join enters =>
    show f.slots = _ ∧ _
    rw [taken, all_aside_slotted enters.1]
    exact each
  | @onward action call user before after here owns kept slot =>
    show f.slots = _ ∧ _
    rw [taken, here]
    show f.slots = f.taken + (Phase.slotted after).toNat - (Phase.slotted before).toNat ∧ _
    rw [slot, Nat.add_sub_cancel]
    exact each
  | slot here room =>
    show f.slots + 1 = f.taken + _ - ((f.calls _).any Phase.slotted).toNat ∧ _
    rw [here, each.1]
    exact ⟨rfl, each.1 ▸ room⟩
  | @finish action call user before result here owns =>
    show f.slots = f.taken + (Phase.slotted before).toNat - ((f.calls call).any Phase.slotted).toNat ∧ _
    rw [here]
    show f.slots = f.taken + (Phase.slotted before).toNat - (Phase.slotted before).toNat ∧ _
    rw [Nat.add_sub_cancel]
    exact each
  | @leave action call result slot here =>
    show f.slots - slot.toNat = f.taken + 0 - ((f.calls call).any Phase.slotted).toNat ∧ f.slots - slot.toNat ≤ _
    rw [here, each.1]
    exact ⟨rfl, (Nat.sub_le f.taken slot.toNat).trans (each.1 ▸ each.2)⟩
  | wake here | giveUp here =>
    show f.slots = f.taken + _ - ((f.calls _).any Phase.slotted).toNat ∧ _
    rw [here]
    exact each

theorem waiter_moves {owner : String}
    (moves : Moves concurrency f action f') (here : f.calls call = some (.waiting user owner)) :
    f'.calls call = some (.waiting user owner) ∨ action = .giveUp call ∨
      ∃ result, f'.returned call = some (.joined owner result) := by
  have others (g : Flight) (other : String) (phase : Option Phase) (apart : other ≠ call)
      (same : g.calls call = f.calls call) : (g.move other phase).calls call = some (.waiting user owner) := by
    rw [move_calls, if_neg (Ne.symm apart), same, here]
  have busy (other : String) (phase : Phase) (placed : f.calls other = some phase)
      (unlike : ∀ user owner, phase ≠ .waiting user owner) : other ≠ call := by
    rintro rfl
    exact unlike user owner (some.inj (placed.symm.trans here))
  have entering (other : String) (enters : f.enters other) : other ≠ call := by
    rintro rfl
    have aside := enters.1
    rw [here] at aside
    cases aside
  cases moves with
  | aside enters | answer enters | join enters => exact .inl (others f _ _ (entering _ enters) rfl)
  | claim enters => exact .inl (others _ _ _ (entering _ enters) rfl)
  | onward placed owns =>
    refine .inl (others f _ _ (busy _ _ placed ?_) rfl)
    rintro user owner rfl
    cases owns
  | slot placed => exact .inl (others _ _ _ (busy _ _ placed fun user owner same => by cases same) rfl)
  | finish placed owns =>
    refine .inl (others _ _ _ (busy _ _ placed ?_) rfl)
    rintro user owner rfl
    cases owns
  | leave placed =>
    exact .inl (others { f with slots := _ } _ _ (busy _ _ placed fun user owner same => by cases same) rfl)
  | @wake action other user' owner' result placed done =>
    by_cases same : other = call
    · subst same
      cases placed.symm.trans here
      exact .inr (.inr ⟨result, update_self ..⟩)
    · exact .inl (others f other none same rfl)
  | @giveUp other user' owner' placed =>
    by_cases same : other = call
    · subst same
      exact .inr (.inl rfl)
    · exact .inl (others f other none same rfl)

theorem answered_moves {answer : Answer} (handed : Handed f)
    (moves : Moves concurrency f action f') (answered : f.returned call = some answer) :
    f'.returned call = some answer := by
  have others (g : Flight) (other : String) (new : Answer) (unanswered : f.returned other = none)
      (same : g.returned = f.returned) : (g.answer other new).returned call = some answer := by
    have apart : call ≠ other := by
      rintro rfl
      cases unanswered.symm.trans answered
    show update g.returned other (some new) call = some answer
    rw [update_of_ne apart, same, answered]
  cases moves with
  | answer enters => exact others f _ _ (enters_returned handed enters) rfl
  | leave here => exact others { f with slots := _ } _ _ (here_returned handed here) rfl
  | wake here | giveUp here => exact others f _ _ (here_returned handed here) rfl
  | _ => exact answered

theorem handed_step (handed : Handed (flight w)) (stepped : step o w action = some next) : Handed (flight next) :=
  handed_moves handed (step_moves stepped)

theorem handed_empty : Handed (flight empty) := by
  constructor
  · intro user call
    exact iff_of_false nofun nofun
  · exact fun call => .inl rfl
  · rintro call result slot ⟨⟩
  · rintro call result ⟨⟩
  · rintro call user owner ⟨⟩
  · rintro call owner result ⟨⟩

def Slotted (o : Options) (w : World) : Prop :=
  w.provisionSlots = count Phase.slotted w.calls ∧ w.provisionSlots ≤ o.provisionConcurrency

theorem slotted_step (each : Slotted o w) (stepped : step o w action = some next) : Slotted o next :=
  slots_moves (step_moves stepped) each

theorem reached_sound {actions : List Action} (ran : run (step o) empty actions = some w) :
    Handed (flight w) ∧ Slotted o w := by
  refine run_invariant (fun w => Handed (flight w) ∧ Slotted o w) ?_ ran ⟨handed_empty, rfl, Nat.zero_le _⟩
  rintro w action next ⟨handed, each⟩ stepped
  exact ⟨handed_step handed stepped, slotted_step each stepped⟩

theorem waiter_run {after : World} {later : List Action} {owner : String} (handed : Handed (flight w))
    (ran : run (step o) w later = some after) (here : w.calls.lookup call = some (.waiting user owner)) :
    after.calls.lookup call = some (.waiting user owner) ∨ Action.giveUp call ∈ later ∨
      ∃ result, after.returned.lookup call = some (.joined owner result) := by
  induction later generalizing w with
  | nil =>
    cases ran
    exact .inl here
  | cons action rest ih =>
    obtain ⟨next, stepped, tail⟩ := run_cons ran
    have onward := handed_step handed stepped
    rcases waiter_moves (step_moves stepped) here with waiting | rfl | ⟨result, answered⟩
    · rcases ih onward tail waiting with still | gave_up | has
      · exact .inl still
      · exact .inr (.inl (List.mem_cons_of_mem action gave_up))
      · exact .inr (.inr has)
    · exact .inr (.inl List.mem_cons_self)
    · refine .inr (.inr ⟨result, ?_⟩)
      refine (run_invariant (fun w => Handed (flight w) ∧ w.returned.lookup call = some (.joined owner result)) ?_ tail
        ⟨onward, answered⟩).2
      rintro w action next ⟨handed, answered⟩ stepped
      exact ⟨handed_step handed stepped, answered_moves handed (step_moves stepped) answered⟩

def Phase.rank : Phase → Nat
  | .reconciling _ _ _ => 10
  | .observing _ _ _ => 9
  | .marking _ => 9
  | .markSaving _ => 8
  | .saving _ _ => 7
  | .queueing _ _ => 6
  | .running _ _ => 5
  | .settling _ _ _ _ => 4
  | .finishing _ _ _ _ => 3
  | .leaving _ _ => 2
  | .waiting _ _ => 1
  | .stopping _ _ => 3
  | .stopSaving _ _ => 2
  | .stopWriting _ _ => 1
  | .scanning _ => 4
  | .cutting _ => 3
  | .noting _ => 2
  | .storing _ => 1

def work (w : World) : Nat := load Phase.rank w.calls

def carriesOn : Action → Bool
  | .ensure _ _ _ _ => false
  | .stop _ _ => false
  | .scan _ _ => false
  | .unavailable _ _ => false
  | .cancel _ => false
  | .giveUp _ => false
  | _ => true

theorem rank_positive (phase : Phase) : 0 < Phase.rank phase := by
  cases phase <;> simp [Phase.rank]

theorem work_move {before : Phase} (after : Option Phase)
    (here : w.calls.lookup call = some before) (less : after.elim 0 Phase.rank < Phase.rank before) :
    work (moveTo w call after) < work w := by
  have size : work (moveTo w call after) + Phase.rank before = work w + after.elim 0 Phase.rank := by
    cases after with
    | none =>
      have erased := load_erase Phase.rank w.calls call
      rw [here] at erased
      exact erased
    | some phase =>
      have inserted := load_insert Phase.rank w.calls call phase
      rw [here] at inserted
      exact inserted
  omega

theorem work_return {before : Phase} (answer : Answer)
    (here : w.calls.lookup call = some before) : work (returns w call answer) < work w :=
  work_move none here (rank_positive before)

def Phase.blocked : Phase → Bool
  | .waiting _ _ => true
  | .queueing _ _ => true
  | _ => false

theorem free_progress (o : Options) (here : w.calls.lookup call = some phase) (free : Phase.blocked phase = false) :
    ∃ action next, carriesOn action ∧ step o w action = some next ∧ work next < work w := by
  cases phase with
  | reconciling user limits e =>
    refine ⟨.reconciled call none, reconciled w call user limits e none, rfl, ?_, work_move _ here (by simp [Phase.rank])⟩
    rw [step, here]
  | observing user limits e =>
    refine ⟨.observed call .failed 0, observed o w call user limits e 0 .failed, rfl, ?_, work_return _ here⟩
    rw [step, here]
  | marking e =>
    refine ⟨.mark call, mark w call e, rfl, ?_, ?_⟩
    · rw [step, here]
    · unfold mark
      split
      · next => exact work_move (w := { w with executors := _ }) _ here (by simp [Phase.rank])
      · exact work_move _ here (by simp [Phase.rank])
  | markSaving e =>
    refine ⟨.save call .done, _, rfl, bind_eq_some_iff.mpr ⟨_, here, rfl⟩, ?_⟩
    exact work_return (w := written w e .done) _ here
  | waiting => cases free
  | saving _ e | settling _ e | stopSaving _ e =>
    refine ⟨.save call .done, _, rfl, bind_eq_some_iff.mpr ⟨_, here, rfl⟩, ?_⟩
    exact work_move (w := written w e .done) _ here (by simp [Phase.rank])
  | queueing => cases free
  | running user e =>
    refine ⟨.ran call none, ran w call user e none, rfl, ?_, ?_⟩
    · rw [step, here]
    · exact work_move (w := { w with lastAction := _ }) _ here (by simp [Phase.rank])
  | finishing user e failure slot =>
    refine ⟨.finish call, finishProvision w call user e failure slot, rfl, ?_, ?_⟩
    · rw [step, here]
    · exact work_move (w := { w with executors := _, provisioning := _, finished := _ }) _ here (by simp [Phase.rank])
  | leaving result slot =>
    refine ⟨.leave call, returns { w with provisionSlots := w.provisionSlots - slot.toNat } call (.own result), rfl,
      ?_, work_return (w := { w with provisionSlots := _ }) _ here⟩
    rw [step, here]
  | stopping =>
    refine ⟨.stopped call false 0, moveTo w call none, rfl, ?_, work_move none here (by simp [Phase.rank])⟩
    rw [step, here]
    rfl
  | stopWriting user e =>
    refine ⟨.write call, moveTo { w with executors := w.executors.insert user e } call none, rfl, ?_,
      work_move (w := { w with executors := _ }) none here (by simp [Phase.rank])⟩
    rw [step, here]
  | scanning =>
    refine ⟨.scanned call none 0, moveTo w call none, rfl, ?_, work_move none here (by simp [Phase.rank])⟩
    rw [step, here]
  | cutting =>
    refine ⟨.cut call false, moveTo w call none, rfl, ?_, work_move none here (by simp [Phase.rank])⟩
    rw [step, here]
    rfl
  | noting e =>
    refine ⟨.note call, note w call e, rfl, ?_, ?_⟩
    · rw [step, here]
    · unfold note
      split
      · split
        · exact work_move (w := { w with executors := _ }) _ here (by simp [Phase.rank])
        · exact work_move _ here (by simp [Phase.rank])
      · exact work_move none here (by simp [Phase.rank])
  | storing e =>
    refine ⟨.save call .done, _, rfl, bind_eq_some_iff.mpr ⟨_, here, rfl⟩, ?_⟩
    exact work_move (w := written w e .done) none here (by simp [Phase.rank])

/-- Where nobody runs, every slot is free, and the calls that are waited for are not in the queue. -/
theorem progress (o : Options) (handed : Handed (flight w)) (slotted : Slotted o w) (left : work w ≠ 0) :
    ∃ action next, carriesOn action ∧ step o w action = some next ∧ work next < work w := by
  by_cases free : ∃ call phase, w.calls.lookup call = some phase ∧ Phase.blocked phase = false
  · obtain ⟨call, phase, here, unblocked⟩ := free
    exact free_progress o here unblocked
  have blocked (call : String) (phase : Phase) (here : w.calls.lookup call = some phase) : Phase.blocked phase := by
    by_contra other
    exact free ⟨call, phase, here, eq_false_of_ne_true other⟩
  have none_slotted : w.provisionSlots = 0 := by
    rw [slotted.1]
    refine count_zero Phase.slotted w.calls fun call phase here => ?_
    have held := blocked call phase here
    cases phase <;> first | rfl | cases held
  by_cases queued : ∃ call user e, w.calls.lookup call = some (.queueing user e)
  · obtain ⟨call, user, e, here⟩ := queued
    have room : w.provisionSlots < o.provisionConcurrency := none_slotted ▸ o.positive
    refine ⟨.slot call, moveTo { w with provisionSlots := w.provisionSlots + 1 } call (some (.running user e)), rfl, ?_,
      work_move (w := { w with provisionSlots := _ }) _ here (by simp [Phase.rank])⟩
    rw [step, here]
    exact if_pos room
  · obtain ⟨call, phase, here⟩ : ∃ call phase, w.calls.lookup call = some phase := by
      by_contra nobody
      refine left (Admission.load_zero Phase.rank w.calls fun call => ?_)
      cases stored : w.calls.lookup call with
      | none => rfl
      | some phase => exact absurd ⟨call, phase, stored⟩ nobody
    have held := blocked call phase here
    cases phase with
    | waiting user owner =>
      rcases handed.waits call user owner here with entry | ⟨result, done⟩
      · obtain ⟨phase, there, owns⟩ := bind_eq_some_iff.mp ((handed.owned user owner).mp entry)
        have stuck := blocked owner phase there
        cases phase with
        | queueing user e => exact absurd ⟨owner, user, e, there⟩ queued
        | waiting => cases owns
        | _ => cases stuck
      · refine ⟨.wake call, returns w call (.joined owner result), rfl, ?_, work_return _ here⟩
        rw [step, here]
        exact congrArg (Option.map _) done
    | queueing user e => exact absurd ⟨call, user, e, here⟩ queued
    | _ => cases held

/-- At most one call of the runtime for a user, an entry exactly as long as its owner has not finished, no more
    calls of the runtime than slots, and nothing that belongs to a handler that has returned. -/
structure SingleFlight (o : Options) (w : World) : Prop where
  alone : ∀ user one other e e', w.calls.lookup one = some (.running user e) →
    w.calls.lookup other = some (.running user e') → one = other
  entry : ∀ user owner, w.provisioning.lookup user = some owner ↔
    ∃ phase, w.calls.lookup owner = some phase ∧ Phase.owns phase = some user
  few : count Phase.runs w.calls ≤ o.provisionConcurrency
  slots : w.provisionSlots = count Phase.slotted w.calls
  gone : ∀ call answer, w.returned.lookup call = some answer → w.calls.lookup call = none

theorem single_sound (handed : Handed (flight w)) (slotted : Slotted o w) : SingleFlight o w := by
  have entry (user owner : String) : w.provisioning.lookup user = some owner ↔
      ∃ phase, w.calls.lookup owner = some phase ∧ Phase.owns phase = some user :=
    (handed.owned user owner).trans bind_eq_some_iff
  constructor
  · intro user one other e e' first second
    have mine := (entry user one).mpr ⟨_, first, rfl⟩
    have theirs := (entry user other).mpr ⟨_, second, rfl⟩
    exact some.inj (mine.symm.trans theirs)
  · exact entry
  · have among : count Phase.runs w.calls ≤ count Phase.slotted w.calls := by
      refine List.countP_mono_left fun phase _ runs => ?_
      cases phase <;> first | rfl | cases runs
    exact among.trans (slotted.1 ▸ slotted.2)
  · exact slotted.1
  · intro call answer answered
    refine (handed.apart call).resolve_right fun unanswered => ?_
    cases unanswered.symm.trans answered

def Served (later : List Action) (after : World) (call user owner : String) : Prop :=
  after.calls.lookup call = some (.waiting user owner) ∨ Action.giveUp call ∈ later ∨
    ∃ result, after.returned.lookup call = some (.joined owner result) ∧
      (after.returned.lookup owner = some (.own result) ∨ ∃ slot, after.calls.lookup owner = some (.leaving result slot))

def Ends (o : Options) (w : World) : Prop :=
  ∃ later done, run (step o) w later = some done ∧ (∀ action ∈ later, carriesOn action) ∧
    (∀ call, done.calls.lookup call = none) ∧ (∀ user, done.provisioning.lookup user = none) ∧ done.provisionSlots = 0

theorem calls_end (handed : Handed (flight w)) (slotted : Slotted o w) : Ends o w := by
  have sound_step (w : World) (action : Action) (next : World) (sound : Handed (flight w) ∧ Slotted o w)
      (stepped : step o w action = some next) : Handed (flight next) ∧ Slotted o next :=
    ⟨handed_step sound.1 stepped, slotted_step sound.2 stepped⟩
  obtain ⟨later, done, ran, finished, each⟩ := run_done (fun w => Handed (flight w) ∧ Slotted o w) work
    (fun action => carriesOn action) sound_step (fun w sound => progress o sound.1 sound.2) w ⟨handed, slotted⟩
  obtain ⟨still, few⟩ := run_invariant _ sound_step ran ⟨handed, slotted⟩
  have nobody := load_done Phase.rank done.calls rank_positive finished
  refine ⟨later, done, ran, each, nobody, fun user => ?_, ?_⟩
  · cases entry : done.provisioning.lookup user with
    | none => rfl
    | some owner =>
      obtain ⟨phase, there, _⟩ := ((single_sound still few).entry user owner).mp entry
      cases (nobody owner).symm.trans there
  · rw [few.1]
    refine count_zero Phase.slotted done.calls fun call phase here => ?_
    cases (nobody call).symm.trans here

theorem provisioning_single_flight (o : Options) {w : World} {actions : List Action}
    (ran : run (step o) empty actions = some w) :
    SingleFlight o w ∧ Ends o w ∧ ∀ later after, run (step o) w later = some after →
        ∀ call user owner, w.calls.lookup call = some (.waiting user owner) → Served later after call user owner := by
  obtain ⟨handed, slotted⟩ := reached_sound ran
  refine ⟨single_sound handed slotted, calls_end handed slotted, ?_⟩
  intro later after onward call user owner here
  rcases waiter_run handed onward here with waiting | gave_up | ⟨result, answered⟩
  · exact .inl waiting
  · exact .inr (.inl gave_up)
  · have still : Handed (flight after) :=
      run_invariant (fun w => Handed (flight w)) (fun _ _ _ handed => handed_step handed) onward handed
    have done := still.joined call owner result answered
    exact .inr (.inr ⟨result, answered, (still.results owner result done).symm⟩)

def narrow : Options := ⟨1, Nat.one_pos, 0⟩

def joining : List Action :=
  [.ensure "first" "ada" none 1, .ensure "other" "grace" none 1, .save "other" .done, .slot "other",
    .ensure "second" "ada" none 2, .save "first" .done, .ran "other" (some .runtime), .save "other" .lost,
    .finish "other", .leave "other", .slot "first", .ran "first" none, .save "first" .done, .finish "first",
    .wake "second"]

theorem joined_flight : ∃ w, run (step narrow) empty joining = some w ∧
    (w.returned.lookup "second").isSome ∧ SingleFlight narrow w ∧ Ends narrow w := by
  obtain ⟨w, ran, answered⟩ := map_eq_some_iff.mp
    (show (run (step narrow) empty joining).map (fun w => (w.returned.lookup "second").isSome) = some true by
      decide +kernel)
  obtain ⟨single, ends, _⟩ := provisioning_single_flight narrow ran
  exact ⟨w, ran, answered, single, ends⟩

end PieRelay.ProvisionFlights
