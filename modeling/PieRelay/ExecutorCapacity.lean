import PieRelay.ExecutorRegistry

/-!
Capacity of the registry. `ensure` counts under the lock before it takes a place; `finishProvision` and
`finishRun` write what they have without counting, also where the place has been given away.
-/
namespace PieRelay.ExecutorCapacity
open Admission (count count_insert)
open ExecutorRegistry
open Executions
open RoomRegistry (Time)

def WithinCapacity (o : Options) (w : World) : Prop := activeExecutors w.executors ≤ o.maxExecutors

def place (o : Options) (w : World) (user : String) (e : Executor) : Bool :=
  !executorOccupiesCapacity e || (w.executors.lookup user).any executorOccupiesCapacity ||
    activeExecutors w.executors < o.maxExecutors

def room (o : Options) (w : World) : Action → Bool
  | .finish call =>
    match w.calls.lookup call with
    | some (.finishing user e _ _) => place o w user e
    | _ => true
  | .unavailable _ user => (w.executors.lookup user).all fun e => place o w user { e with status := .failed }
  | _ => true

variable {o : Options} {w : World}
variable {next : World}

theorem written_executors (w : World) (e : Executor) (saved : Saved) : (written w e saved).executors = w.executors := by
  cases saved <;> rfl

theorem insert_within (fits : WithinCapacity o w) (user : String) (e : Executor) :
    activeExecutors (w.executors.insert user e) ≤ o.maxExecutors ↔ place o w user e := by
  have counted : activeExecutors (w.executors.insert user e) +
      ((w.executors.lookup user).any executorOccupiesCapacity).toNat =
        activeExecutors w.executors + (executorOccupiesCapacity e).toNat :=
    count_insert executorOccupiesCapacity w.executors user e
  unfold WithinCapacity at fits
  unfold place
  cases occupies : executorOccupiesCapacity e with
  | false =>
    rw [occupies] at counted
    refine iff_of_true ?_ rfl
    exact (Nat.le_add_right _ _).trans (counted.le.trans fits)
  | true =>
    cases held : (w.executors.lookup user).any executorOccupiesCapacity with
    | true =>
      rw [occupies, held] at counted
      exact iff_of_true ((Nat.add_right_cancel counted).le.trans fits) rfl
    | false =>
      rw [occupies, held] at counted
      simp only [Bool.not_true, Bool.false_or, decide_eq_true_eq]
      exact Iff.of_eq (congrArg (· ≤ o.maxExecutors) counted)

theorem insert_idle (fits : WithinCapacity o w) {user : String} {e : Executor}
    (idle : executorOccupiesCapacity e = false) : activeExecutors (w.executors.insert user e) ≤ o.maxExecutors := by
  refine (insert_within fits user e).mpr ?_
  rw [place, idle]
  rfl

theorem claim_within (positive : 0 < o.maxExecutors) (fits : WithinCapacity o w) (call user : String)
    (limits : Option ExecutorLimits) (now : Time) : WithinCapacity o (claim o w call user limits now) := by
  unfold claim
  split
  · exact fits
  · dsimp only
    split
    · exact fits
    · next admitted =>
      refine (insert_within fits user _).mpr ?_
      have room_left : (w.executors.lookup user).any executorOccupiesCapacity ∨
          activeExecutors w.executors < o.maxExecutors := by
        cases found : w.executors.lookup user with
        | none =>
          refine .inr (Nat.lt_of_not_le fun full => admitted ⟨?_, positive, full⟩)
          rw [found]
          rfl
        | some e =>
          cases occupies : executorOccupiesCapacity e with
          | true => exact .inl occupies
          | false =>
            refine .inr (Nat.lt_of_not_le fun full => admitted ⟨?_, positive, full⟩)
            simp [found, occupies]
      rcases room_left with there | free
      · simp [place, there]
      · simp [place, free]

theorem saved_executors {call : String} {phase : Phase} {answer : Saved}
    (went : saved w call answer phase = some next) : next.executors = w.executors := by
  cases phase with
  | markSaving e =>
    cases went
    exact written_executors w e answer
  | saving _ e | settling _ e | stopSaving _ e | storing e =>
    cases went
    exact (move_executors ..).trans (written_executors w e answer)
  | _ => cases went

def Phase.stops : Phase → Bool
  | .stopSaving _ e => e.status = .stopped
  | .stopWriting _ e => e.status = .stopped
  | _ => true

def Stopped (calls : ControlPlane.Table Phase) : Prop :=
  ∀ call phase, calls.lookup call = some phase → Phase.stops phase

section
variable (stopped : Stopped w.calls)
include stopped

theorem stopped_move (call : String) {after : Option Phase}
    (stops : after.all Phase.stops) : Stopped (moveTo w call after).calls := by
  intro other phase here
  cases after with
  | none => exact stopped other phase (ControlPlane.lookup_of_erase here)
  | some =>
    by_cases same : other = call
    · subst same
      cases (AList.lookup_insert w.calls).symm.trans here
      exact stops
    · exact stopped other phase ((AList.lookup_insert_ne same).symm.trans here)

theorem stopped_return (call : String) (answer : Answer) : Stopped (returns w call answer).calls :=
  stopped_move stopped call (rfl : (none : Option Phase).all Phase.stops)

theorem stopped_written (e : Executor) (answer : Saved) : Stopped (written w e answer).calls := by
  cases answer <;> exact stopped

theorem stopped_claim (call user : String) (limits : Option ExecutorLimits) (now : Time) :
    Stopped (claim o w call user limits now).calls := by
  unfold claim
  split
  · exact stopped_move stopped call rfl
  · dsimp only
    split
    · exact stopped_return stopped call _
    · refine stopped_move ?_ call rfl
      exact stopped

theorem stopped_saved {call : String} {phase : Phase} {answer : Saved}
    (here : w.calls.lookup call = some phase) (went : saved w call answer phase = some next) : Stopped next.calls := by
  have after (e : Executor) := stopped_written stopped e answer
  cases phase with
  | markSaving e =>
    cases went
    exact stopped_return (after e) call _
  | saving user e =>
    cases went
    refine stopped_move (after e) call ?_
    cases answer <;> rfl
  | settling _ e | storing e =>
    cases went
    exact stopped_move (after e) call rfl
  | stopSaving user e =>
    cases went
    refine stopped_move (after e) call ?_
    have stops := stopped call _ here
    cases answer <;> first | exact stops | rfl
  | _ => cases went

theorem stopped_step {action : Action} (stepped : step o w action = some next) : Stopped next.calls := by
  cases step_cases stepped with
  | @ensure call user limits now new =>
    unfold ensure
    split
    · split
      · exact stopped_move stopped call rfl
      · exact stopped_claim stopped call user limits now
    · exact stopped_return stopped call _
  | @reconciled call user limits e outcome here =>
    unfold reconciled
    split
    · exact stopped_move stopped call rfl
    · exact stopped_move stopped call rfl
    · exact stopped_return stopped call _
  | @observed call user limits e seen now here =>
    unfold observed
    split
    · split
      · exact stopped_claim stopped call user limits now
      · exact stopped_return stopped call _
    · exact stopped_claim stopped call user limits now
    · exact stopped_return stopped call _
  | @mark call e here =>
    unfold mark
    split
    · refine stopped_move ?_ call rfl
      exact stopped
    · exact stopped_move stopped call rfl
  | save here went => exact stopped_saved stopped here went
  | slot =>
    refine stopped_move ?_ _ rfl
    exact stopped
  | cancel => exact stopped_move stopped _ rfl
  | @ran call user e outcome here =>
    unfold ran
    split
    · refine stopped_move ?_ call rfl
      exact stopped
    · exact stopped_move stopped call rfl
  | finish =>
    refine stopped_move ?_ _ rfl
    exact stopped
  | leave =>
    refine stopped_return ?_ _ _
    exact stopped
  | wake | giveUp => exact stopped_return stopped _ _
  | stop | unstopped | scan | unscanned | uncut => exact stopped_move stopped _ rfl
  | stopped | write | cut =>
    refine stopped_move ?_ _ rfl
    exact stopped
  | scanned =>
    refine stopped_move stopped _ ?_
    split <;> rfl
  | @note call e here =>
    unfold note
    split
    · split
      · refine stopped_move ?_ call rfl
        exact stopped
      · exact stopped_move stopped call rfl
    · exact stopped_move stopped call rfl
  | unavailable =>
    refine stopped_move ?_ _ rfl
    exact stopped

end

/-- The steps that write an executor are within capacity exactly when there is a place for it. -/
theorem step_within {action : Action} (positive : 0 < o.maxExecutors) (stopped : Stopped w.calls)
    (fits : WithinCapacity o w) (stepped : step o w action = some next) :
    WithinCapacity o next ↔ room o w action := by
  have same {next : World} (kept : next.executors = w.executors) : WithinCapacity o next :=
    (congrArg activeExecutors kept).le.trans fits
  have moved {call : String} {phase : Option Phase} : WithinCapacity o (moveTo w call phase) :=
    same (move_executors w call phase)
  cases step_cases stepped with
  | @ensure call user limits now new =>
    refine iff_of_true ?_ rfl
    unfold ensure
    split
    · split
      · exact moved
      · exact claim_within positive fits call user limits now
    · exact fits
  | @reconciled call user limits e outcome here =>
    refine iff_of_true ?_ rfl
    unfold reconciled
    split <;> first | exact moved | exact fits
  | @observed call user limits e seen now here =>
    refine iff_of_true ?_ rfl
    unfold observed
    split
    · split
      · exact claim_within positive fits call user limits now
      · exact fits
    · exact claim_within positive fits call user limits now
    · exact fits
  | @mark call e here =>
    refine iff_of_true ?_ rfl
    unfold mark
    split
    · exact insert_idle fits rfl
    · exact moved
  | save here went => exact iff_of_true (same (saved_executors went)) rfl
  | slot | cancel => exact iff_of_true fits rfl
  | @ran call user e outcome here =>
    refine iff_of_true ?_ rfl
    unfold ran
    split <;> exact fits
  | @finish call user e failure slot here =>
    have asks : room o w (.finish call) = place o w user e := by rw [room, here]
    rw [asks]
    exact insert_within fits user e
  | leave | wake | giveUp | stop | stopped | unstopped => exact iff_of_true fits rfl
  | @write call user e here =>
    refine iff_of_true (insert_idle fits ?_) rfl
    have status : e.status = .stopped := by simpa [Phase.stops] using stopped call _ here
    rw [executorOccupiesCapacity, status]
    rfl
  | scan | scanned | unscanned | cut | uncut => exact iff_of_true fits rfl
  | @note call e here =>
    refine iff_of_true ?_ rfl
    unfold note
    split
    · next current known =>
      split
      · refine (insert_within fits e.userID _).mpr ?_
        split
        · rfl
        · rw [place, known]
          show (!executorOccupiesCapacity current || executorOccupiesCapacity current || _)
          cases executorOccupiesCapacity current <;> rfl
      · exact moved
    · exact moved
  | @unavailable call user e new found =>
    have asks : room o w (.unavailable call user) = place o w user { e with status := .failed } := by
      rw [room, found]
      rfl
    rw [asks]
    exact insert_within fits user _

/-- No step of a run exceeds the capacity exactly when each executor that is written without counting has its place
    still, or finds one. -/
theorem capacity_within (o : Options) (positive : 0 < o.maxExecutors) {w : World} {actions : List Action}
    (ran : run (step o) empty actions = some w) :
    Along (step o) (fun _ next => WithinCapacity o next) empty actions ↔
      Guarded (step o) (fun w action => room o w action) empty actions := by
  refine along_good_iff (fun w => Stopped w.calls) (WithinCapacity o) ?_ ?_ ran ?_ (Nat.zero_le _)
  · exact fun w action next stopped => stopped_step stopped
  · exact fun w action next stopped fits => step_within positive stopped fits
  · rintro call phase ⟨⟩

def single : Options := ⟨2, Nat.two_pos, 1⟩

def overwriting : List Action :=
  [.ensure "first" "ada" none 1, .save "first" .done, .slot "first", .stop "second" "ada", .stopped "second" true 2,
    .save "second" .done, .write "second", .ensure "third" "grace" none 3, .ran "first" none, .save "first" .done,
    .finish "first"]

theorem capacity_exceeded : ∃ w, run (step single) empty overwriting = some w ∧
    single.maxExecutors < activeExecutors w.executors := by
  obtain ⟨w, ran, more⟩ := Option.map_eq_some_iff.mp
    (show (run (step single) empty overwriting).map (fun w => decide (single.maxExecutors < activeExecutors w.executors)) =
      some true by decide +kernel)
  exact ⟨w, ran, of_decide_eq_true more⟩

def orderly : List Action :=
  [.ensure "first" "ada" none 1, .save "first" .done, .slot "first", .ran "first" none, .save "first" .done,
    .finish "first", .leave "first", .ensure "second" "grace" none 2, .stop "third" "ada", .stopped "third" true 3,
    .save "third" .done, .write "third", .ensure "fourth" "grace" none 4, .save "fourth" .done]

theorem orderly_within : Along (step single) (fun _ next => WithinCapacity single next) empty orderly := by
  obtain ⟨w, ran, _⟩ := Option.map_eq_some_iff.mp
    (show (run (step single) empty orderly).map (fun w => activeExecutors w.executors) = some 1 by decide +kernel)
  have guarded : Guarded (step single) (fun w action => room single w action) empty orderly :=
    checked_guarded (room single) (fun _ _ passed => passed) empty orderly (by decide +kernel)
  exact (capacity_within single Nat.one_pos ran).mpr guarded

end PieRelay.ExecutorCapacity
