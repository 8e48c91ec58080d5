import PieRelay.Admission
import PieRelay.ControlPlane
import PieRelay.Executions
import PieRelay.UserLifecycle

/-!
The registry of executors, executor-manager/internal/manager/manager.go: `ensure`, `StopExecutor`,
`scanStorage`, `markExecutorStatus` and what `finishRun` does to it. A step is one critical section, one save
or one call of the runtime; in between any number of handlers come in. Reconciling, observing, saving and the
runtime answer as they like; one that does not support something answers that all is well. A pass of
`scanStorage` is a handler for each executor. Limits have passed `EnsureWithLimits`. A call that is provisioned
is known by its handler. Left out: the counters of scans.
-/
namespace PieRelay.ExecutorRegistry
open Option
open ControlPlane (Table)
open RoomRegistry (Time)
open UserLifecycle (validUserID)

inductive Status where
  | provisioning
  | ready
  | failed
  | quotaExceeded
  | stopped
  deriving DecidableEq

structure Executor where
  userID : String
  id : String
  status : Status
  createdAt : Time
  lastUsedAt : Time
  cpus : String
  memoryBytes : Int
  pidsLimit : Int
  diskBytes : Int
  diskLimitBytes : Int
  diskUsedBytes : Int
  diskCheckedAt : Option Time
  deriving DecidableEq

structure ExecutorLimits where
  cpus : String
  memoryBytes : Int
  pidsLimit : Int
  diskBytes : Int
  deriving DecidableEq

inductive Failure where
  | invalidUserID
  | capacity
  | diskQuota
  | runtime
  | store
  | context
  deriving DecidableEq

abbrev Result := Executor × Option Failure

def noExecutor : Executor := ⟨"", "", .failed, 0, 0, "", 0, 0, 0, 0, 0, none⟩

def refused (failure : Failure) : Result := (noExecutor, some failure)

inductive Phase where
  | reconciling (user : String) (limits : Option ExecutorLimits) (e : Executor)
  | observing (user : String) (limits : Option ExecutorLimits) (e : Executor)
  | marking (e : Executor)
  | markSaving (e : Executor)
  | waiting (user joined : String)
  | saving (user : String) (e : Executor)
  | queueing (user : String) (e : Executor)
  | running (user : String) (e : Executor)
  | settling (user : String) (e : Executor) (failure : Option Failure) (slot : Bool)
  | finishing (user : String) (e : Executor) (failure : Option Failure) (slot : Bool)
  | leaving (result : Result) (slot : Bool)
  | stopping (user : String) (e : Executor)
  | stopSaving (user : String) (e : Executor)
  | stopWriting (user : String) (e : Executor)
  | scanning (e : Executor)
  | cutting (e : Executor)
  | noting (e : Executor)
  | storing (e : Executor)
  deriving DecidableEq

inductive Answer where
  | own (result : Result)
  | joined (owner : String) (result : Result)
  | abandoned
  deriving DecidableEq

inductive RuntimeAction where
  | ensure
  | stop
  deriving DecidableEq

structure World where
  executors : Table Executor
  store : Table Executor
  lastAction : Table RuntimeAction
  provisioning : Table String
  finished : Table Result
  provisionSlots : Nat
  calls : Table Phase
  returned : Table Answer

structure Options where
  provisionConcurrency : Nat
  positive : 0 < provisionConcurrency
  maxExecutors : Nat

inductive Seen where
  | alive
  | gone
  | failed
  deriving DecidableEq

inductive Saved where
  | done
  | half
  | lost
  deriving DecidableEq

structure StorageObservation where
  usedBytes : Int
  limitBytes : Int
  deriving DecidableEq

inductive Action where
  | ensure (call user : String) (limits : Option ExecutorLimits) (now : Time)
  | reconciled (call : String) (outcome : Option Failure)
  | observed (call : String) (seen : Seen) (now : Time)
  | mark (call : String)
  | save (call : String) (saved : Saved)
  | slot (call : String)
  | cancel (call : String)
  | ran (call : String) (outcome : Option Failure)
  | finish (call : String)
  | leave (call : String)
  | wake (call : String)
  | giveUp (call : String)
  | stop (call user : String)
  | stopped (call : String) (taken : Bool) (now : Time)
  | write (call : String)
  | scan (call user : String)
  | scanned (call : String) (observation : Option StorageObservation) (now : Time)
  | cut (call : String) (taken : Bool)
  | note (call : String)
  | unavailable (call user : String)
  deriving DecidableEq

def moveTo (w : World) (call : String) : Option Phase → World
  | some phase => { w with calls := w.calls.insert call phase }
  | none => { w with calls := w.calls.erase call }

def returns (w : World) (call : String) (answer : Answer) : World :=
  { w with calls := w.calls.erase call, returned := w.returned.insert call answer }

def unused (w : World) (call : String) : Bool :=
  w.calls.lookup call = none ∧ w.finished.lookup call = none ∧ w.returned.lookup call = none

def executorOccupiesCapacity (e : Executor) : Bool := e.status ≠ .stopped ∧ e.status ≠ .quotaExceeded

def activeExecutors (executors : Table Executor) : Nat := Admission.count executorOccupiesCapacity executors

def executorHasLimits (e : Executor) (limits : ExecutorLimits) : Bool :=
  e.cpus = limits.cpus ∧ e.memoryBytes = limits.memoryBytes ∧ e.pidsLimit = limits.pidsLimit ∧
    e.diskBytes = limits.diskBytes

def limitsChanged (limits : Option ExecutorLimits) (e : Executor) : Bool :=
  limits.any fun limits => !executorHasLimits e limits

def validExecutorLimits (positiveCPUs : String → Bool) (limits : ExecutorLimits) : Bool :=
  0 ≤ limits.memoryBytes ∧ 0 ≤ limits.pidsLimit ∧ 0 ≤ limits.diskBytes ∧ (limits.cpus = "" ∨ positiveCPUs limits.cpus)

def withLimits (e : Executor) : Option ExecutorLimits → Executor
  | some limits => { e with
    cpus := limits.cpus
    memoryBytes := limits.memoryBytes
    pidsLimit := limits.pidsLimit
    diskBytes := limits.diskBytes
    diskLimitBytes := limits.diskBytes }
  | none => e

def claimed (before : Option Executor) (user : String) (limits : Option ExecutorLimits) (now : Time) : Executor :=
  { withLimits (before.getD { noExecutor with userID := user, id := "executor-" ++ user, createdAt := now }) limits with
    status := .provisioning
    lastUsedAt := now }

def claim (o : Options) (w : World) (call user : String) (limits : Option ExecutorLimits) (now : Time) : World :=
  match w.provisioning.lookup user with
  | some owner => moveTo w call (some (.waiting user owner))
  | none =>
    let before := w.executors.lookup user
    if (before.all fun e => !executorOccupiesCapacity e) ∧ 0 < o.maxExecutors ∧
        o.maxExecutors ≤ activeExecutors w.executors then
      returns w call (.own (refused .capacity))
    else
      let e := claimed before user limits now
      moveTo { w with provisioning := w.provisioning.insert user call, executors := w.executors.insert user e } call
        (some (.saving user e))

def ensure (o : Options) (w : World) (call user : String) (limits : Option ExecutorLimits) (now : Time) : World :=
  if validUserID user then
    match (w.executors.lookup user).filter fun e => e.status = .ready with
    | some e => moveTo w call (some (.reconciling user limits e))
    | none => claim o w call user limits now
  else returns w call (.own (refused .invalidUserID))

def reconciled (w : World) (call user : String) (limits : Option ExecutorLimits) (e : Executor) :
    Option Failure → World
  | none => moveTo w call (some (.observing user limits e))
  | some .diskQuota => moveTo w call (some (.marking e))
  | some failure => returns w call (.own (refused failure))

def observed (o : Options) (w : World) (call user : String) (limits : Option ExecutorLimits) (e : Executor) (now : Time) :
    Seen → World
  | .alive => if limitsChanged limits e then claim o w call user limits now else returns w call (.own (e, none))
  | .gone => claim o w call user limits now
  | .failed => returns w call (.own (refused .runtime))

def mark (w : World) (call : String) (e : Executor) : World :=
  match (w.executors.lookup e.userID).filter fun current => current.id = e.id with
  | some current =>
    let next := { current with status := .quotaExceeded }
    moveTo { w with executors := w.executors.insert e.userID next } call (some (.markSaving next))
  | none => moveTo w call (some (.markSaving { e with status := .quotaExceeded }))

def written (w : World) (e : Executor) : Saved → World
  | .lost => w
  | _ => { w with store := w.store.insert e.userID e }

def ran (w : World) (call user : String) (e : Executor) : Option Failure → World
  | none =>
    moveTo { w with lastAction := w.lastAction.insert user .ensure } call
      (some (.settling user { e with status := .ready } none true))
  | some failure =>
    moveTo w call (some (.settling user
      { e with status := if failure = .diskQuota then .quotaExceeded else .failed } (some failure) true))

def finishProvision (w : World) (call user : String) (e : Executor) (failure : Option Failure) (slot : Bool) : World :=
  let finished := match w.provisioning.lookup user with
    | some owner => w.finished.insert owner (e, failure)
    | none => w.finished
  moveTo { w with
    executors := w.executors.insert user e
    provisioning := w.provisioning.erase user
    finished } call (some (.leaving (e, failure) slot))

def scanned (w : World) (call : String) (e : Executor) (observation : StorageObservation) (now : Time) : World :=
  let e := { e with
    diskUsedBytes := observation.usedBytes
    diskLimitBytes := observation.limitBytes
    diskCheckedAt := some now }
  moveTo w call (some (if 0 < observation.limitBytes ∧ observation.limitBytes < observation.usedBytes ∧
    executorOccupiesCapacity e then .cutting e else .noting e))

def note (w : World) (call : String) (e : Executor) : World :=
  match w.executors.lookup e.userID with
  | some current =>
    if current.id = e.id then
      let next := { current with
        diskUsedBytes := e.diskUsedBytes
        diskLimitBytes := e.diskLimitBytes
        diskCheckedAt := e.diskCheckedAt
        status := if e.status = .quotaExceeded then .quotaExceeded else current.status }
      moveTo { w with executors := w.executors.insert e.userID next } call (some (.storing next))
    else moveTo w call (some (.storing e))
  | none => moveTo w call none

def unavailable (w : World) (call user : String) (e : Executor) : World :=
  moveTo { w with executors := w.executors.insert user e } call (some (.storing e))

def saved (w : World) (call : String) (answer : Saved) : Phase → Option World
  | .markSaving e => some (returns (written w e answer) call (.own (refused .diskQuota)))
  | .saving user e =>
    some (moveTo (written w e answer) call
      (some (if answer = .done then .queueing user e else .finishing user e (some .store) false)))
  | .settling user e failure slot =>
    some (moveTo (written w e answer) call (some (.finishing user e
      (if failure = none ∧ answer ≠ .done then some .store else failure) slot)))
  | .stopSaving user e =>
    some (moveTo (written w e answer) call (if answer = .done then some (.stopWriting user e) else none))
  | .storing e => some (moveTo (written w e answer) call none)
  | _ => none

def step (o : Options) (w : World) : Action → Option World
  | .ensure call user limits now => if unused w call then some (ensure o w call user limits now) else none
  | .reconciled call outcome =>
    match w.calls.lookup call with
    | some (.reconciling user limits e) => some (reconciled w call user limits e outcome)
    | _ => none
  | .observed call seen now =>
    match w.calls.lookup call with
    | some (.observing user limits e) => some (observed o w call user limits e now seen)
    | _ => none
  | .mark call =>
    match w.calls.lookup call with
    | some (.marking e) => some (mark w call e)
    | _ => none
  | .save call answer => (w.calls.lookup call).bind (saved w call answer)
  | .slot call =>
    match w.calls.lookup call with
    | some (.queueing user e) =>
      if w.provisionSlots < o.provisionConcurrency then
        some (moveTo { w with provisionSlots := w.provisionSlots + 1 } call (some (.running user e)))
      else none
    | _ => none
  | .cancel call =>
    match w.calls.lookup call with
    | some (.queueing user e) =>
      some (moveTo w call (some (.settling user { e with status := .failed } (some .context) false)))
    | _ => none
  | .ran call outcome =>
    match w.calls.lookup call with
    | some (.running user e) => some (ran w call user e outcome)
    | _ => none
  | .finish call =>
    match w.calls.lookup call with
    | some (.finishing user e failure slot) => some (finishProvision w call user e failure slot)
    | _ => none
  | .leave call =>
    match w.calls.lookup call with
    | some (.leaving result slot) =>
      some (returns { w with provisionSlots := w.provisionSlots - slot.toNat } call (.own result))
    | _ => none
  | .wake call =>
    match w.calls.lookup call with
    | some (.waiting _ owner) => (w.finished.lookup owner).map fun result => returns w call (.joined owner result)
    | _ => none
  | .giveUp call =>
    match w.calls.lookup call with
    | some (.waiting _ _) => some (returns w call .abandoned)
    | _ => none
  | .stop call user =>
    if unused w call ∧ validUserID user then
      (w.executors.lookup user).map fun e => moveTo w call (some (.stopping user e))
    else none
  | .stopped call taken now =>
    match w.calls.lookup call with
    | some (.stopping user e) =>
      some (if taken then
        moveTo { w with lastAction := w.lastAction.insert user .stop } call
          (some (.stopSaving user { e with status := .stopped, lastUsedAt := now }))
      else moveTo w call none)
    | _ => none
  | .write call =>
    match w.calls.lookup call with
    | some (.stopWriting user e) => some (moveTo { w with executors := w.executors.insert user e } call none)
    | _ => none
  | .scan call user =>
    if unused w call then (w.executors.lookup user).map fun e => moveTo w call (some (.scanning e)) else none
  | .scanned call observation now =>
    match w.calls.lookup call with
    | some (.scanning e) =>
      some (match observation with
        | some observation => scanned w call e observation now
        | none => moveTo w call none)
    | _ => none
  | .cut call taken =>
    match w.calls.lookup call with
    | some (.cutting e) =>
      some (if taken then
        moveTo { w with lastAction := w.lastAction.insert e.userID .stop } call
          (some (.noting { e with status := .quotaExceeded }))
      else moveTo w call none)
    | _ => none
  | .note call =>
    match w.calls.lookup call with
    | some (.noting e) => some (note w call e)
    | _ => none
  | .unavailable call user =>
    if unused w call then
      (w.executors.lookup user).map fun e => unavailable w call user { e with status := .failed }
    else none

def empty : World := ⟨∅, ∅, ∅, ∅, ∅, 0, ∅, ∅⟩

def continues : Action → Option String
  | .reconciled call _ => some call
  | .observed call _ _ => some call
  | .mark call => some call
  | .save call _ => some call
  | .slot call => some call
  | .cancel call => some call
  | .ran call _ => some call
  | .finish call => some call
  | .leave call => some call
  | .wake call => some call
  | .giveUp call => some call
  | _ => none

inductive Steps (o : Options) (w : World) : Action → World → Prop where
  | ensure {call user : String} {limits : Option ExecutorLimits} {now : Time} (new : unused w call) :
      Steps o w (.ensure call user limits now) (ensure o w call user limits now)
  | reconciled {call user : String} {limits : Option ExecutorLimits} {e : Executor} {outcome : Option Failure}
      (here : w.calls.lookup call = some (.reconciling user limits e)) :
      Steps o w (.reconciled call outcome) (reconciled w call user limits e outcome)
  | observed {call user : String} {limits : Option ExecutorLimits} {e : Executor} {seen : Seen} {now : Time}
      (here : w.calls.lookup call = some (.observing user limits e)) :
      Steps o w (.observed call seen now) (observed o w call user limits e now seen)
  | mark {call : String} {e : Executor} (here : w.calls.lookup call = some (.marking e)) :
      Steps o w (.mark call) (mark w call e)
  | save {call : String} {phase : Phase} {answer : Saved} {next : World} (here : w.calls.lookup call = some phase)
      (went : saved w call answer phase = some next) : Steps o w (.save call answer) next
  | slot {call user : String} {e : Executor} (here : w.calls.lookup call = some (.queueing user e))
      (room : w.provisionSlots < o.provisionConcurrency) :
      Steps o w (.slot call) (moveTo { w with provisionSlots := w.provisionSlots + 1 } call (some (.running user e)))
  | cancel {call user : String} {e : Executor} (here : w.calls.lookup call = some (.queueing user e)) :
      Steps o w (.cancel call)
        (moveTo w call (some (.settling user { e with status := .failed } (some .context) false)))
  | ran {call user : String} {e : Executor} {outcome : Option Failure}
      (here : w.calls.lookup call = some (.running user e)) :
      Steps o w (.ran call outcome) (ran w call user e outcome)
  | finish {call user : String} {e : Executor} {failure : Option Failure} {slot : Bool}
      (here : w.calls.lookup call = some (.finishing user e failure slot)) :
      Steps o w (.finish call) (finishProvision w call user e failure slot)
  | leave {call : String} {result : Result} {slot : Bool} (here : w.calls.lookup call = some (.leaving result slot)) :
      Steps o w (.leave call) (returns { w with provisionSlots := w.provisionSlots - slot.toNat } call (.own result))
  | wake {call user owner : String} {result : Result} (here : w.calls.lookup call = some (.waiting user owner))
      (done : w.finished.lookup owner = some result) : Steps o w (.wake call) (returns w call (.joined owner result))
  | giveUp {call user owner : String} (here : w.calls.lookup call = some (.waiting user owner)) :
      Steps o w (.giveUp call) (returns w call .abandoned)
  | stop {call user : String} {e : Executor} (new : unused w call) (valid : validUserID user)
      (found : w.executors.lookup user = some e) : Steps o w (.stop call user) (moveTo w call (some (.stopping user e)))
  | stopped {call user : String} {e : Executor} {now : Time} (here : w.calls.lookup call = some (.stopping user e)) :
      Steps o w (.stopped call true now) (moveTo { w with lastAction := w.lastAction.insert user .stop } call
        (some (.stopSaving user { e with status := .stopped, lastUsedAt := now })))
  | unstopped {call user : String} {e : Executor} {now : Time} (here : w.calls.lookup call = some (.stopping user e)) :
      Steps o w (.stopped call false now) (moveTo w call none)
  | write {call user : String} {e : Executor} (here : w.calls.lookup call = some (.stopWriting user e)) :
      Steps o w (.write call) (moveTo { w with executors := w.executors.insert user e } call none)
  | scan {call user : String} {e : Executor} (new : unused w call)
      (found : w.executors.lookup user = some e) : Steps o w (.scan call user) (moveTo w call (some (.scanning e)))
  | scanned {call : String} {e : Executor} {observation : StorageObservation} {now : Time}
      (here : w.calls.lookup call = some (.scanning e)) :
      Steps o w (.scanned call (some observation) now) (scanned w call e observation now)
  | unscanned {call : String} {e : Executor} {now : Time} (here : w.calls.lookup call = some (.scanning e)) :
      Steps o w (.scanned call none now) (moveTo w call none)
  | cut {call : String} {e : Executor} (here : w.calls.lookup call = some (.cutting e)) :
      Steps o w (.cut call true) (moveTo { w with lastAction := w.lastAction.insert e.userID .stop } call
        (some (.noting { e with status := .quotaExceeded })))
  | uncut {call : String} {e : Executor} (here : w.calls.lookup call = some (.cutting e)) :
      Steps o w (.cut call false) (moveTo w call none)
  | note {call : String} {e : Executor} (here : w.calls.lookup call = some (.noting e)) :
      Steps o w (.note call) (note w call e)
  | unavailable {call user : String} {e : Executor} (new : unused w call)
      (found : w.executors.lookup user = some e) :
      Steps o w (.unavailable call user) (unavailable w call user { e with status := .failed })

-- Each action looks up its handler; the branches that do not take it answer `none`.
theorem step_cases {o : Options} {w next : World} {action : Action} (stepped : step o w action = some next) :
    Steps o w action next := by
  cases action with
  | save =>
    obtain ⟨phase, here, went⟩ := bind_eq_some_iff.mp stepped
    exact .save here went
  | slot =>
    dsimp only [step] at stepped
    split at stepped
    · next here =>
      split at stepped
      · next room =>
        cases stepped
        exact .slot here room
      · cases stepped
    · cases stepped
  | wake =>
    dsimp only [step] at stepped
    split at stepped
    · next here =>
      obtain ⟨result, done, rfl⟩ := map_eq_some_iff.mp stepped
      exact .wake here done
    · cases stepped
  | stop =>
    dsimp only [step] at stepped
    split at stepped
    · next new =>
      obtain ⟨e, found, rfl⟩ := map_eq_some_iff.mp stepped
      exact .stop new.1 new.2 found
    · cases stepped
  | scan =>
    dsimp only [step] at stepped
    split at stepped
    · next new =>
      obtain ⟨e, found, rfl⟩ := map_eq_some_iff.mp stepped
      exact .scan new found
    · cases stepped
  | stopped call taken =>
    dsimp only [step] at stepped
    split at stepped
    · next here =>
      cases stepped
      cases taken with
      | true => exact .stopped here
      | false => exact .unstopped here
    · cases stepped
  | scanned call observation =>
    dsimp only [step] at stepped
    split at stepped
    · next here =>
      cases stepped
      cases observation with
      | some => exact .scanned here
      | none => exact .unscanned here
    · cases stepped
  | cut call taken =>
    dsimp only [step] at stepped
    split at stepped
    · next here =>
      cases stepped
      cases taken with
      | true => exact .cut here
      | false => exact .uncut here
    · cases stepped
  | ensure =>
    dsimp only [step] at stepped
    split at stepped
    · next new =>
      cases stepped
      exact .ensure new
    · cases stepped
  | unavailable =>
    dsimp only [step] at stepped
    split at stepped
    · next new =>
      obtain ⟨e, found, rfl⟩ := map_eq_some_iff.mp stepped
      exact .unavailable new found
    · cases stepped
  | _ =>
    dsimp only [step] at stepped
    split at stepped
    · next here =>
      cases stepped
      constructor
      exact here
    · cases stepped

section Moving
variable (w : World) (call other : String) (after : Option Phase)

theorem move_lookup : (moveTo w call after).calls.lookup other = if other = call then after else w.calls.lookup other := by
  cases after with
  | none => exact ControlPlane.erase_lookup w.calls call other
  | some phase => exact ControlPlane.insert_lookup w.calls call other phase

theorem move_here : (moveTo w call after).calls.lookup call = after := by
  rw [move_lookup, if_pos rfl]

theorem move_executors : (moveTo w call after).executors = w.executors := by
  cases after <;> rfl

theorem move_provisioning : (moveTo w call after).provisioning = w.provisioning := by
  cases after <;> rfl

theorem move_finished : (moveTo w call after).finished = w.finished := by
  cases after <;> rfl

theorem move_returned : (moveTo w call after).returned = w.returned := by
  cases after <;> rfl

theorem return_here (answer : Answer) :
    (returns w call answer).calls.lookup call = none ∧ (returns w call answer).returned.lookup call = some answer :=
  ⟨AList.lookup_erase call w.calls, AList.lookup_insert w.returned⟩

end Moving

end PieRelay.ExecutorRegistry
