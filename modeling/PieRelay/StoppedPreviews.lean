import PieRelay.Executions
import PieRelay.PreviewService

/-!
One preview in one manager process. `Stop`, `Restart`, `SetVisibility` and the reconciler hold the
record-operation lock of the preview from beginning to end; `Create` does not, and puts a record of
version zero. Any number of them are under way at once. A step is what one of them does between two
points where others may come in: a look at the maps, one part of `PutPreview`, a call of the
executor manager. Besides, the process may load at any time a record that was once stored and is
newer than what it has. The store takes a record whole or not at all. What the process has of other
records, the clock and the answers of the manager are left open in each step. Left out: the quota
lock of `PutPreview`, which only takes turns away, and what is launched for the caller.
-/
namespace PieRelay.StoppedPreviews
open Executions List Option
open Function
open IntegrationRecords
open PreviewRecords
open PreviewService
open RoomRegistry (Time)

inductive Operation where
  | stop
  | restart
  | visibility (text : String)
  | reconcile
  deriving DecidableEq

inductive Stage where
  | refresh
  | first
  | stopProcess
  | network (value : Preview) (workingDir : String)
  | start (value : Preview) (workingDir backend : String)
  | observe (value : Preview) (backend : String)
  | update (change : Change) (attempts : Nat)
  | decide (change : Change) (attempts : Nat) (ask : Ask Preview)
  | persist (change : Change) (attempts : Nat) (record : Preview)
  | publish (change : Change) (record : Preview)
  | finished (success : Bool)

inductive Phase where
  | idle
  | waiting (operation : Operation)
  | inside (operation : Operation) (stage : Stage)
  | creating (ask : Ask Preview)
  | createPersist (record : Preview)
  | createPublish (record : Preview)

/-- `operation` holds the record-operation lock and `object` the lock of `PutPreview`; `log` has what
    was ever stored, and `launches` counts the calls of `StartPreview`. -/
structure World where
  memory : Option Preview
  stored : Option Preview
  log : List Preview
  operation : Option String
  object : Option String
  calls : String → Phase
  launches : Nat

structure Moment where
  maps : Service
  now : Time
  expires : Time
  loaded : Bool
  failed : Bool
  answer : Option String
  backend : String
  observed : Except String (List Observation)

inductive Action where
  | call (call : String) (operation : Operation)
  | enter (call : String)
  | create (call : String) (value : Preview) (moment : Moment)
  | advance (call : String) (moment : Moment)
  | leave (call : String)
  | load (record : Preview)

def versionOf (record : Option Preview) : Nat := record.elim 0 Preview.version

def moveTo (w : World) (call : String) (phase : Phase) : World := { w with calls := update w.calls call phase }

def refreshed (w : World) (moment : Moment) : Option Preview :=
  if moment.loaded ∧ versionOf w.memory < versionOf w.stored then w.stored else w.memory

def visible (id : String) (w : World) (moment : Moment) : String → Option Preview :=
  update moment.maps.previews.lookup id w.memory

def onward (change : Change) (record : Preview) : Stage :=
  match change with
  | .stopping => if record.status = .stopped then .finished true else .stopProcess
  | .stopped stopErr => .finished stopErr.isNone
  | _ => .finished true

def first (w : World) (moment : Moment) : Operation → Stage
  | .visibility text => .update (.visibility text) 4
  | .stop =>
    match w.memory with
    | none => .finished false
    | some current => if current.status = .stopped then .finished true else .update .stopping 4
  | .restart =>
    match w.memory with
    | none => .finished false
    | some _ => .stopProcess
  | .reconcile =>
    match w.memory with
    | none => .finished true
    | some value =>
      match reconcileDecision moment.maps moment.now value with
      | .rest => .finished true
      | .shutDown => .stopProcess
      | .give => .update (.failed "invalid preview application path") 4
      | .launch workingDir => .network value workingDir

def processStopped (moment : Moment) : Operation → Stage
  | .stop => .update (.stopped moment.answer) 4
  | .restart => if moment.answer.isSome then .finished false else .update (.starting moment.expires) 4
  | .reconcile => .update (.inactive (moment.answer.elim inactiveText fun text =>
    bounded (inactiveText ++ "; process cleanup: " ++ text) 2000)) 4
  | .visibility _ => .finished false

def attempt (w : World) (moment : Moment) (change : Change) (attempts : Nat) : Stage :=
  match w.memory with
  | none => .finished false
  | some current =>
    match change.mutate current with
    | none => onward change current
    | some next =>
      match askPreview moment.maps next current.version with
      | .error _ => .finished false
      | .ok ask => .decide change attempts ask

def conflict (w : World) (call : String) (operation : Operation) (moment : Moment) (change : Change)
    (attempts : Nat) : World :=
  if moment.failed then moveTo w call (.inside operation (.finished false))
  else moveTo { w with memory := refreshed w moment } call (.inside operation (.update change attempts))

def fits (stored : Option Preview) (record : Preview) : Bool := record.version = versionOf stored + 1

def persisted (w : World) (record : Preview) : World :=
  { w with stored := some record, log := record :: w.log }

def advance (id : String) (w : World) (call : String) (operation : Operation) (moment : Moment) :
    Stage → Option World
  | .refresh =>
    if moment.failed then some (moveTo w call (.inside operation (.finished false)))
    else some (moveTo { w with memory := refreshed w moment } call (.inside operation .first))
  | .first => some (moveTo w call (.inside operation (first w moment operation)))
  | .stopProcess => some (moveTo w call (.inside operation (processStopped moment operation)))
  | .network value workingDir =>
    match moment.answer with
    | some cause => some (moveTo w call (.inside operation (.update (.retry cause moment.now) 4)))
    | none => some (moveTo w call (.inside operation (.start value workingDir moment.backend)))
  | .start value _ backend =>
    let w := { w with launches := w.launches + 1 }
    match moment.answer with
    | some cause => some (moveTo w call (.inside operation (.update (.retry cause moment.now) 4)))
    | none => some (moveTo w call (.inside operation (.observe value backend)))
  | .observe value backend =>
    match moment.observed with
    | .error cause => some (moveTo w call (.inside operation (.update (.retry cause moment.now) 4)))
    | .ok observed => some (moveTo w call
        (.inside operation (.update (observedChange moment.now value backend observed) 4)))
  | .update _ 0 => some (moveTo w call (.inside operation (.finished false)))
  | .update change (attempts + 1) => some (moveTo w call (.inside operation (attempt w moment change attempts)))
  | .decide change attempts ask =>
    if w.object.isSome then none
    else
      match putPreview (visible id w moment) moment.maps.previewIndex moment.now ask with
      | .error .conflict => some (conflict w call operation moment change attempts)
      | .error _ => some (moveTo w call (.inside operation (.finished false)))
      | .ok record => some (moveTo { w with object := some call } call
          (.inside operation (.persist change attempts record)))
  | .persist change attempts record =>
    if moment.failed then some (moveTo { w with object := none } call (.inside operation (.finished false)))
    else if fits w.stored record then
      some (moveTo (persisted w record) call (.inside operation (.publish change record)))
    else some (conflict { w with object := none } call operation moment change attempts)
  | .publish change record =>
    some (moveTo { w with memory := some record, object := none } call
      (.inside operation (onward change record)))
  | .finished _ => none

def advanceCreate (id : String) (w : World) (call : String) (moment : Moment) : Phase → Option World
  | .creating ask =>
    if w.object.isSome then none
    else
      match putPreview (visible id w moment) moment.maps.previewIndex moment.now ask with
      | .error _ => some (moveTo w call .idle)
      | .ok record => some (moveTo { w with object := some call } call (.createPersist record))
  | .createPersist record =>
    if ¬ moment.failed ∧ fits w.stored record then
      some (moveTo (persisted w record) call (.createPublish record))
    else some (moveTo { w with object := none } call .idle)
  | .createPublish record =>
    some (moveTo { w with memory := some record, object := none } call .idle)
  | _ => none

def step (id : String) (w : World) : Action → Option World
  | .call call operation =>
    match w.calls call with
    | .idle => some (moveTo w call (.waiting operation))
    | _ => none
  | .enter call =>
    match w.calls call with
    | .waiting operation =>
      if w.operation.isSome then none
      else some (moveTo { w with operation := some call } call
        (.inside operation (if operation = .reconcile then .first else .refresh)))
    | _ => none
  | .create call value moment =>
    match w.calls call, askPreview moment.maps { value with id, status := .starting } 0 with
    | .idle, .ok ask => some (moveTo w call (.creating ask))
    | _, _ => none
  | .advance call moment =>
    match w.calls call with
    | .inside operation stage => advance id w call operation moment stage
    | phase => advanceCreate id w call moment phase
  | .leave call =>
    match w.calls call with
    | .inside _ (.finished _) => some (moveTo { w with operation := none } call .idle)
    | _ => none
  | .load record =>
    if record ∈ w.log ∧ versionOf w.memory < record.version then some { w with memory := some record } else none

def restarts (w : World) : Action → Bool
  | .enter call =>
    match w.calls call with
    | .waiting .restart => true
    | _ => false
  | _ => false

def Makes (change : Change) (status : PreviewStatus) : Prop := change = .stopped none → status = .stopped

def suits : Operation → Change → Bool
  | .stop, .stopping | .stop, .stopped _ | .restart, .starting _ | .visibility _, .visibility _ => true
  | .reconcile, .inactive _ | .reconcile, .observed _ _ _ _ | .reconcile, .retry _ _ | .reconcile, .failed _ => true
  | _, _ => false

def Fine (id : String) (w : World) : Phase → Prop
  | .inside operation (.network _ _) | .inside operation (.start _ _ _) | .inside operation (.observe _ _) =>
    operation = .reconcile
  | .inside operation .stopProcess => ∀ text, operation ≠ .visibility text
  | .inside operation (.update change _) => suits operation change
  | .inside operation (.decide change _ ask) => suits operation change ∧ ask.value.id = id ∧
      Makes change ask.value.status
  | .inside operation (.persist change _ record) => suits operation change ∧ record.id = id ∧
      fits w.memory record ∧ Makes change record.status
  | .inside operation (.publish change record) => suits operation change ∧ w.stored = some record ∧
      Makes change record.status ∧ (w.memory = some record ∨ fits w.memory record)
  | .inside .stop (.finished true) => ∃ record, w.memory = some record ∧ w.stored = some record ∧
      record.status = .stopped
  | .creating ask => ask.value.id = id ∧ ask.expected = 0 ∧ ask.value.status = .starting
  | .createPersist record => record.id = id ∧ w.memory = none ∧ record.version = 1 ∧ record.status = .starting
  | .createPublish record => w.stored = some record ∧ record.version = 1 ∧ record.status = .starting ∧
      (w.memory = none ∨ w.memory = some record)
  | _ => True

def Phase.locked : Phase → Bool
  | .inside _ _ => true
  | _ => false

def Phase.putting : Phase → Bool
  | .inside _ (.persist _ _ _) | .inside _ (.publish _ _) | .createPersist _ | .createPublish _ => true
  | _ => false

def Phase.publishing : Phase → Bool
  | .inside _ (.publish _ _) | .createPublish _ => true
  | _ => false

structure Coherent (id : String) (w : World) : Prop where
  ids : ∀ record ∈ w.log, record.id = id ∧ 1 ≤ record.version
  newest : ∀ record ∈ w.log, record.version ≤ versionOf w.stored ∧
    (record.version = versionOf w.stored → w.stored = some record)
  stored : ∀ record, w.stored = some record → record ∈ w.log
  memory : ∀ record, w.memory = some record → record ∈ w.log
  operation : ∀ call, (w.calls call).locked → w.operation = some call
  object : ∀ call, (w.calls call).putting → w.object = some call
  settled : (∀ call, (w.calls call).publishing = false) → w.memory = w.stored
  fine : ∀ call, Fine id w (w.calls call)

section Coherent
variable {id : String} {w next : World}
variable {phase : Phase} {call other : String} {record : Preview} {after : World} {change : Change}
  {moment : Moment} {operation : Operation} {stage : Stage} {object : Option String}

theorem publishing_putting (publishing : phase.publishing) : phase.putting := by
  cases phase with
  | inside operation stage => cases stage <;> first | rfl | cases publishing
  | createPublish => rfl
  | idle | waiting _ | creating _ | createPersist _ => cases publishing

theorem settled_of (coherent : Coherent id w) (own : (w.calls call).publishing = false)
    (alone : ∀ other, other ≠ call → (w.calls other).publishing = false) : w.memory = w.stored := by
  refine coherent.settled fun other => ?_
  by_cases here : other = call
  · exact here ▸ own
  · exact alone other here

theorem settled_object (coherent : Coherent id w) (own : (w.calls call).publishing = false)
    (held : w.object = none ∨ w.object = some call) : w.memory = w.stored := by
  refine settled_of coherent own fun other different => ?_
  rw [← Bool.not_eq_true]
  intro publishing
  have holds := coherent.object other (publishing_putting publishing)
  rcases held with free | mine
  · cases free.symm.trans holds
  · cases mine.symm.trans holds
    exact different rfl

theorem memory_stored (coherent : Coherent id w) (inside : (w.calls call).locked)
    (own : (w.calls call).publishing = false) (known : w.memory = some record) : w.stored = some record := by
  by_cases all : ∀ other, (w.calls other).publishing = false
  · exact (coherent.settled all).symm.trans known
  · obtain ⟨other, publishing⟩ := not_forall.mp all
    rw [Bool.not_eq_false] at publishing
    have fine := coherent.fine other
    cases there : w.calls other with
    | inside =>
      have mine := coherent.operation other (by rw [there]; rfl)
      cases (coherent.operation call inside).symm.trans mine
      exact absurd (own.symm.trans publishing) Bool.false_ne_true
    | createPublish =>
      rw [there] at fine
      obtain ⟨stored, -, -, unknown | same⟩ := fine
      · cases unknown.symm.trans known
      · exact stored.trans (same.symm.trans known)
    | idle | waiting _ | creating _ | createPersist _ =>
      rw [there] at publishing
      cases publishing

theorem fine_same (memory : after.memory = w.memory)
    (stored : after.stored = w.stored) (fine : Fine id w phase) : Fine id after phase := by
  unfold Fine at fine ⊢
  rw [memory, stored]
  exact fine

structure Moves (w after : World) (call : String) (phase : Phase) : Prop where
  calls : after.calls = update w.calls call phase
  operation : phase.locked → after.operation = some call
  operationKept : after.operation = w.operation ∨ w.operation = none ∨ w.operation = some call
  object : phase.putting → after.object = some call
  objectKept : after.object = w.object ∨ w.object = none ∨ w.object = some call

theorem kept_lock {before after : Option String}
    (kept : after = before ∨ before = none ∨ before = some call) (different : other ≠ call)
    (held : before = some other) : after = some other := by
  rcases kept with same | free | mine
  · exact same.trans held
  · cases free.symm.trans held
  · cases mine.symm.trans held
    exact absurd rfl different

theorem moves_locks (coherent : Coherent id w) (moves : Moves w after call phase) :
    (∀ other, (after.calls other).locked → after.operation = some other) ∧
      ∀ other, (after.calls other).putting → after.object = some other := by
  rw [moves.calls]
  constructor
  · intro other locked
    by_cases here : other = call
    · subst here
      rw [update_self] at locked
      exact moves.operation locked
    · rw [update_of_ne here] at locked
      exact kept_lock moves.operationKept here (coherent.operation other locked)
  · intro other putting
    by_cases here : other = call
    · subst here
      rw [update_self] at putting
      exact moves.object putting
    · rw [update_of_ne here] at putting
      exact kept_lock moves.objectKept here (coherent.object other putting)

theorem coherent_quiet (coherent : Coherent id w)
    (moves : Moves w after call phase) (memory : after.memory = w.memory) (stored : after.stored = w.stored)
    (log : after.log = w.log) (before : (w.calls call).publishing = false) (fine : Fine id w phase) :
    Coherent id after := by
  obtain ⟨operation, object⟩ := moves_locks coherent moves
  refine ⟨log ▸ coherent.ids, ?_, ?_, ?_, operation, object, fun none => ?_, fun other => ?_⟩
  · rw [log, stored]
    exact coherent.newest
  · rw [log, stored]
    exact coherent.stored
  · rw [log, memory]
    exact coherent.memory
  · rw [memory, stored]
    refine settled_of coherent before fun other different => ?_
    have quiet := none other
    rwa [moves.calls, update_of_ne different] at quiet
  · refine fine_same memory stored ?_
    rw [moves.calls]
    by_cases here : other = call
    · subst here
      rwa [update_self]
    · rw [update_of_ne here]
      exact coherent.fine other

theorem fine_free (free : phase.putting = false)
    (unfinished : phase ≠ .inside .stop (.finished true)) (fine : Fine id w phase) : Fine id after phase := by
  cases phase with
  | idle | waiting _ => trivial
  | creating => exact fine
  | createPersist _ | createPublish _ => cases free
  | inside operation stage =>
    cases stage with
    | persist _ _ _ | publish _ _ => cases free
    | network _ _ | start _ _ _ | observe _ _ | stopProcess | update _ _ | decide _ _ _ => exact fine
    | finished success =>
      cases operation <;> cases success <;> trivial
    | refresh | first => trivial

section
variable (coherent : Coherent id w)
include coherent

theorem others_free (held : w.object = some call) (different : other ≠ call) : (w.calls other).putting = false := by
  rw [← Bool.not_eq_true]
  intro putting
  cases held.symm.trans (coherent.object other putting)
  exact different rfl

theorem newer_stored (member : record ∈ w.log) (newer : versionOf w.memory < record.version) :
    w.stored = some record ∧ ∃ call, (w.calls call).publishing := by
  obtain ⟨bounded, same⟩ := coherent.newest record member
  have some : ∃ call, (w.calls call).publishing := by
    by_contra none
    have settled := coherent.settled fun call => Bool.not_eq_true _ ▸ fun publishing => none ⟨call, publishing⟩
    rw [settled] at newer
    omega
  obtain ⟨call, publishing⟩ := some
  refine ⟨same ?_, call, publishing⟩
  have fine := coherent.fine call
  cases there : w.calls call with
  | inside operation stage =>
    rw [there] at fine publishing
    cases stage with
    | publish change made =>
      obtain ⟨-, stored, -, known | new⟩ := fine
      · rw [known, ← stored] at newer
        omega
      · simp only [fits, decide_eq_true_eq] at new
        rw [stored] at bounded ⊢
        change record.version ≤ made.version at bounded
        change record.version = made.version
        omega
    | refresh | first | stopProcess | network _ _ | start _ _ _ | observe _ _ | update _ _ | decide _ _ _
    | persist _ _ _ | finished _ => cases publishing
  | createPublish made =>
    rw [there] at fine
    obtain ⟨stored, version, -, unknown | known⟩ := fine
    · have positive := (coherent.ids record member).2
      rw [stored] at bounded ⊢
      change record.version ≤ made.version at bounded
      change record.version = made.version
      omega
    · rw [known, ← stored] at newer
      omega
  | idle | waiting _ | creating _ | createPersist _ =>
    rw [there] at publishing
    cases publishing

theorem coherent_load (member : record ∈ w.log)
    (newer : versionOf w.memory < record.version) : Coherent id { w with memory := some record } := by
  obtain ⟨stored, publisher, publishing⟩ := newer_stored coherent member newer
  have held := coherent.object publisher (publishing_putting publishing)
  refine ⟨coherent.ids, coherent.newest, coherent.stored, ?_, coherent.operation, coherent.object,
    fun _ => stored.symm, fun call => ?_⟩
  · rintro _ ⟨⟩
    exact member
  · have fine := coherent.fine call
    change Fine id { w with memory := some record } (w.calls call)
    by_cases here : call = publisher
    · subst here
      cases there : w.calls call with
      | inside operation stage =>
        rw [there] at fine publishing
        cases stage with
        | publish =>
          obtain ⟨suited, own, makes, -⟩ := fine
          exact ⟨suited, own, makes, Or.inl (stored.symm.trans own)⟩
        | refresh | first | stopProcess | network _ _ | start _ _ _ | observe _ _ | update _ _ | decide _ _ _
        | persist _ _ _ | finished _ => cases publishing
      | createPublish =>
        rw [there] at fine
        obtain ⟨own, version, status, -⟩ := fine
        exact ⟨own, version, status, Or.inr (stored.symm.trans own)⟩
      | idle | waiting _ | creating _ | createPersist _ =>
        rw [there] at publishing
        cases publishing
    · refine fine_free (others_free coherent held here) (fun finished => ?_) fine
      rw [finished] at fine
      obtain ⟨known, inMemory, inStore, -⟩ := fine
      cases stored.symm.trans inStore
      rw [inMemory] at newer
      exact lt_irrefl _ newer

theorem coherent_refreshed (moment : Moment) : Coherent id { w with memory := refreshed w moment } := by
  unfold refreshed
  split
  · next newer =>
    cases stored : w.stored with
    | none =>
      rw [stored] at newer
      exact absurd newer.2 (Nat.not_lt_zero _)
    | some record =>
      rw [stored] at newer
      exact stored ▸ coherent_load coherent (coherent.stored record stored) newer.2
  · exact coherent

theorem coherent_persist (held : w.object = some call) (moves : Moves w (moveTo (persisted w record) call phase) call phase)
    (before : (w.calls call).publishing = false) (publishing : phase.publishing) (own : record.id = id)
    (new : fits w.memory record)
    (unfinished : ∀ other, other ≠ call → w.calls other ≠ .inside .stop (.finished true))
    (fine : Fine id (persisted w record) phase) : Coherent id (moveTo (persisted w record) call phase) := by
  obtain ⟨operation, object⟩ := moves_locks coherent moves
  have settled := settled_object coherent before (Or.inr held)
  simp only [fits, settled, decide_eq_true_eq] at new
  refine ⟨?_, ?_, ?_, ?_, operation, object, fun none => ?_, fun other => ?_⟩
  · intro known member
    rcases mem_cons.mp member with rfl | older
    · exact ⟨own, by omega⟩
    · exact coherent.ids known older
  · intro known member
    change known.version ≤ record.version ∧ (known.version = record.version → some record = some known)
    rcases mem_cons.mp member with rfl | older
    · exact ⟨le_refl _, fun _ => rfl⟩
    · have bounded := (coherent.newest known older).1
      exact ⟨by omega, fun same => by omega⟩
  · rintro _ ⟨⟩
    exact mem_cons_self
  · intro known inMemory
    exact mem_cons_of_mem record (coherent.memory known inMemory)
  · have quiet := none call
    rw [moves.calls, update_self, publishing] at quiet
    cases quiet
  · rw [moves.calls]
    by_cases here : other = call
    · subst here
      rw [update_self]
      exact fine_same rfl rfl fine
    · rw [update_of_ne here]
      exact fine_free (others_free coherent held here) (unfinished other here) (coherent.fine other)

theorem coherent_publish (held : w.object = some call)
    (moves : Moves w (moveTo { w with memory := some record, object := none } call phase) call phase)
    (stored : w.stored = some record)
    (unfinished : ∀ other, other ≠ call → w.calls other ≠ .inside .stop (.finished true))
    (fine : Fine id { w with memory := some record } phase) :
    Coherent id (moveTo { w with memory := some record, object := none } call phase) := by
  obtain ⟨operation, object⟩ := moves_locks coherent moves
  refine ⟨coherent.ids, coherent.newest, coherent.stored, ?_, operation, object, fun _ => stored.symm, fun other => ?_⟩
  · rintro _ ⟨⟩
    exact coherent.stored record stored
  · rw [moves.calls]
    by_cases here : other = call
    · subst here
      rw [update_self]
      exact fine_same rfl rfl fine
    · rw [update_of_ne here]
      exact fine_free (others_free coherent held here) (unfinished other here) (coherent.fine other)

theorem others_outside (inside : (w.calls call).locked)
    (different : other ≠ call) (operation : Operation) (stage : Stage) : w.calls other ≠ .inside operation stage := by
  intro there
  have locked := coherent.operation other (by rw [there]; rfl)
  cases (coherent.operation call inside).symm.trans locked
  exact different rfl

end

theorem mutate_makes {current next : Preview} (mutated : change.mutate current = some next) :
    Makes change next.status := by
  rintro rfl
  cases mutated
  rfl

theorem ask_value {s : Service} {value : Preview} {expected : Nat} {ask : Ask Preview}
    (asked : askPreview s value expected = .ok ask) : ask.value = trimmed value ∧ ask.expected = expected := by
  simp only [askPreview, RelayToken.bind_ok, ControlPlane.demand_ok, exists_const, pure, Except.pure,
    Except.ok.injEq] at asked
  obtain ⟨-, binding, -, integration, -, project, -, -, rfl⟩ := asked
  exact ⟨rfl, rfl⟩

theorem put_value {index : PreviewIndex} {ask : Ask Preview}
    (own : ask.value.id = id) (put : putPreview (visible id w moment) index moment.now ask = .ok record) :
    record.id = id ∧ record.status = ask.value.status ∧ record.version = ask.expected + 1 ∧ fits w.memory record := by
  simp only [putPreview, RelayToken.bind_ok, ControlPlane.demand_ok, exists_const, pure, Except.pure,
    Except.ok.injEq] at put
  obtain ⟨version, -, -, -, -, rfl⟩ := put
  have seen : visible id w moment ask.value.id = w.memory := by rw [own, visible, update_self]
  rw [seen] at version
  refine ⟨own, rfl, rfl, ?_⟩
  cases known : w.memory with
  | none => simpa [known, fits, versionOf] using version
  | some => simpa [known, fits, versionOf, eq_comm] using version

theorem onward_fine (suited : suits operation change) (makes : Makes change record.status) (known : w.memory = some record)
    (stored : w.stored = some record) : Fine id w (.inside operation (onward change record)) := by
  unfold onward
  split
  · split
    · next stopped =>
      cases operation <;> first | exact ⟨record, known, stored, stopped⟩ | cases suited
    · rintro text rfl
      cases suited
  · next stopErr =>
    cases stopErr with
    | none => cases operation <;> first | exact ⟨record, known, stored, makes rfl⟩ | cases suited
    | some => cases operation <;> trivial
  · next unstopping unstopped =>
    cases operation with
    | stop =>
      cases change with
      | stopping => exact absurd rfl unstopping
      | stopped stopErr => exact absurd rfl (unstopped stopErr)
      | starting _ | visibility _ | inactive _ | observed _ _ _ _ | retry _ _ | failed _ => cases suited
    | restart | visibility _ | reconcile => trivial

theorem onward_putting (operation : Operation) (change : Change) (record : Preview) :
    (Phase.inside operation (onward change record)).putting = false := by
  unfold onward
  split
  · split <;> rfl
  · rfl
  · rfl

theorem first_fine (id : String) (operation : Operation) (moment : Moment)
    (stored : ∀ record, w.memory = some record → w.stored = some record) :
    Fine id w (.inside operation (first w moment operation)) ∧
      (Phase.inside operation (first w moment operation)).putting = false := by
  unfold first
  split
  · exact ⟨rfl, rfl⟩
  · split
    · exact ⟨trivial, rfl⟩
    · next record known =>
      split
      · next stopped => exact ⟨⟨record, known, stored record known, stopped⟩, rfl⟩
      · exact ⟨rfl, rfl⟩
  · split
    · exact ⟨trivial, rfl⟩
    · exact ⟨(fun text same => by cases same), rfl⟩
  · split
    · exact ⟨trivial, rfl⟩
    · split
      · exact ⟨trivial, rfl⟩
      · exact ⟨(fun text same => by cases same), rfl⟩
      · exact ⟨rfl, rfl⟩
      · exact ⟨rfl, rfl⟩

theorem stopped_fine (id : String) (w : World) (moment : Moment) (fine : ∀ text, operation ≠ .visibility text) :
    Fine id w (.inside operation (processStopped moment operation)) ∧
      (Phase.inside operation (processStopped moment operation)).putting = false := by
  cases operation with
  | visibility text => exact absurd rfl (fine text)
  | stop | reconcile => exact ⟨rfl, rfl⟩
  | restart =>
    unfold processStopped
    dsimp only
    split
    · exact ⟨trivial, rfl⟩
    · exact ⟨rfl, rfl⟩

theorem attempt_fine (moment : Moment) (attempts : Nat) (coherent : Coherent id w) (suited : suits operation change)
    (stored : ∀ record, w.memory = some record → w.stored = some record) :
    Fine id w (.inside operation (attempt w moment change attempts)) ∧
      (Phase.inside operation (attempt w moment change attempts)).putting = false := by
  unfold attempt
  split
  · cases operation <;> exact ⟨trivial, rfl⟩
  · next current known =>
    split
    · next same =>
      refine ⟨onward_fine suited ?_ known (stored current known), onward_putting ..⟩
      rintro rfl
      cases same
    · next changed mutated =>
      split
      · cases operation <;> exact ⟨trivial, rfl⟩
      · next asked =>
        refine ⟨⟨suited, ?_, ?_⟩, rfl⟩
        · rw [(ask_value asked).1]
          change changed.id = id
          exact (mutate_id mutated).trans (coherent.ids current (coherent.memory current known)).1
        · rw [(ask_value asked).1]
          change Makes change changed.status
          exact mutate_makes mutated

section
variable (coherent : Coherent id w) (there : w.calls call = .inside operation stage)
include coherent there

theorem coherent_inside {next : Stage} {launches : Nat} (quiet : (Phase.inside operation stage).publishing = false)
    (needs : (Phase.inside operation next).putting → object = some call)
    (kept : object = w.object ∨ w.object = none ∨ w.object = some call)
    (fine : Fine id w (.inside operation next)) :
    Coherent id (moveTo { w with object, launches } call (.inside operation next)) := by
  have held : w.operation = some call := coherent.operation call (by rw [there]; rfl)
  have moves : Moves w (moveTo { w with object, launches } call (.inside operation next)) call
      (.inside operation next) := ⟨rfl, fun _ => held, Or.inl rfl, needs, kept⟩
  exact coherent_quiet coherent moves rfl rfl rfl (by rw [there]; exact quiet) fine

theorem conflict_coherent {attempts : Nat} (quiet : (Phase.inside operation stage).publishing = false)
    (kept : object = w.object ∨ w.object = none ∨ w.object = some call) (suited : suits operation change) :
    Coherent id (conflict { w with object } call operation moment change attempts) := by
  unfold conflict
  split
  · refine coherent_inside coherent there quiet nofun kept ?_
    cases operation <;> trivial
  · have loaded := coherent_refreshed coherent moment
    exact coherent_inside loaded there quiet nofun kept suited

theorem advance_coherent (stepped : advance id w call operation moment stage = some next) : Coherent id next := by
  have fine : Fine id w (.inside operation stage) := there ▸ coherent.fine call
  have locked : (w.calls call).locked := by
    rw [there]
    rfl
  have stored : (Phase.inside operation stage).publishing = false →
      ∀ record, w.memory = some record → w.stored = some record := fun quiet record known =>
    memory_stored coherent locked (by rw [there]; exact quiet) known
  cases stage with
  | refresh =>
    simp only [advance] at stepped
    split at stepped <;> cases stepped
    · refine coherent_inside coherent there rfl nofun (Or.inl rfl) ?_
      cases operation <;> trivial
    · exact coherent_inside (coherent_refreshed coherent moment) there rfl nofun (Or.inl rfl) trivial
  | first =>
    cases stepped
    obtain ⟨goes, free⟩ := first_fine id operation moment (stored rfl)
    exact coherent_inside coherent there rfl (fun putting => absurd (free.symm.trans putting) Bool.false_ne_true)
      (Or.inl rfl) goes
  | stopProcess =>
    cases stepped
    obtain ⟨goes, free⟩ := stopped_fine id w moment fine
    exact coherent_inside coherent there rfl (fun putting => absurd (free.symm.trans putting) Bool.false_ne_true)
      (Or.inl rfl) goes
  | network | start =>
    cases (show operation = .reconcile from fine)
    simp only [advance] at stepped
    split at stepped <;> cases stepped <;>
      exact coherent_inside coherent there rfl nofun (Or.inl rfl) rfl
  | observe =>
    cases (show operation = .reconcile from fine)
    simp only [advance] at stepped
    split at stepped <;> cases stepped
    · exact coherent_inside coherent there rfl nofun (Or.inl rfl) rfl
    · refine coherent_inside coherent there rfl nofun (Or.inl rfl) ?_
      unfold observedChange
      split
      · rfl
      · split <;> rfl
  | update change attempts =>
    cases attempts with
    | zero =>
      cases stepped
      refine coherent_inside coherent there rfl nofun (Or.inl rfl) ?_
      cases operation <;> trivial
    | succ attempts =>
      cases stepped
      obtain ⟨goes, free⟩ := attempt_fine moment attempts coherent fine (stored rfl)
      exact coherent_inside coherent there rfl
        (fun putting => absurd (free.symm.trans putting) Bool.false_ne_true) (Or.inl rfl) goes
  | decide change =>
    obtain ⟨suited, own, makes⟩ := fine
    simp only [advance] at stepped
    split at stepped
    · cases stepped
    · next free =>
      have vacant : w.object = none := not_isSome_iff_eq_none.mp free
      split at stepped <;> cases stepped
      · exact conflict_coherent coherent there rfl (Or.inl rfl) suited
      · refine coherent_inside coherent there rfl nofun (Or.inl rfl) ?_
        cases operation <;> trivial
      · next put =>
        obtain ⟨same, status, -, new⟩ := put_value own put
        exact coherent_inside coherent there rfl (fun _ => rfl) (Or.inr (Or.inl vacant))
          ⟨suited, same, new, fun change => status.trans (makes change)⟩
  | persist =>
    obtain ⟨suited, own, new, makes⟩ := fine
    have held : w.object = some call := coherent.object call (by rw [there]; rfl)
    simp only [advance] at stepped
    split at stepped
    · cases stepped
      refine coherent_inside coherent there rfl nofun (Or.inr (Or.inr held)) ?_
      cases operation <;> trivial
    · split at stepped <;> cases stepped
      · refine coherent_persist coherent held ⟨rfl, fun _ => coherent.operation call locked, Or.inl rfl,
          fun _ => held, Or.inl rfl⟩ (by rw [there]; rfl) rfl own new
          (fun other different => others_outside coherent locked different _ _) ?_
        exact ⟨suited, rfl, makes, Or.inr new⟩
      · exact conflict_coherent coherent there rfl (Or.inr (Or.inr held)) suited
  | publish change record =>
    cases stepped
    obtain ⟨suited, saved, makes, -⟩ := fine
    have held : w.object = some call := coherent.object call (by rw [there]; rfl)
    refine coherent_publish coherent held ⟨rfl, fun _ => coherent.operation call locked, Or.inl rfl, ?_,
      Or.inr (Or.inr held)⟩ saved (fun other different => others_outside coherent locked different _ _) ?_
    · exact fun putting => absurd ((onward_putting operation change record).symm.trans putting) Bool.false_ne_true
    · exact onward_fine suited makes rfl saved
  | finished => cases stepped

end

theorem coherent_outside (coherent : Coherent id w)
    (quiet : (w.calls call).publishing = false) (unlocked : phase.locked = false)
    (needs : phase.putting → object = some call)
    (kept : object = w.object ∨ w.object = none ∨ w.object = some call) (fine : Fine id w phase) :
    Coherent id (moveTo { w with object } call phase) := by
  have moves : Moves w (moveTo { w with object } call phase) call phase :=
    ⟨rfl, fun locked => absurd (unlocked.symm.trans locked) Bool.false_ne_true, Or.inl rfl, needs, kept⟩
  exact coherent_quiet coherent moves rfl rfl rfl quiet fine

theorem create_coherent (coherent : Coherent id w)
    (there : w.calls call = phase) (stepped : advanceCreate id w call moment phase = some next) :
    Coherent id next := by
  have fine : Fine id w phase := there ▸ coherent.fine call
  cases phase with
  | creating =>
    obtain ⟨own, new, starting⟩ := fine
    have quiet : (w.calls call).publishing = false := by
      rw [there]
      rfl
    simp only [advanceCreate] at stepped
    split at stepped
    · cases stepped
    · next free =>
      have vacant : w.object = none := not_isSome_iff_eq_none.mp free
      split at stepped <;> cases stepped
      · exact coherent_outside coherent quiet rfl nofun (Or.inl rfl) trivial
      · next put =>
        obtain ⟨same, status, version, fit⟩ := put_value own put
        refine coherent_outside coherent quiet rfl (fun _ => rfl) (Or.inr (Or.inl vacant)) ?_
        refine ⟨same, ?_, by omega, status.trans starting⟩
        cases known : w.memory with
        | none => rfl
        | some before =>
          have positive := (coherent.ids before (coherent.memory before known)).2
          simp only [fits, known, versionOf, elim_some, decide_eq_true_eq] at fit
          omega
  | createPersist =>
    obtain ⟨own, unknown, version, starting⟩ := fine
    have held : w.object = some call := coherent.object call (by rw [there]; rfl)
    have quiet : (w.calls call).publishing = false := by
      rw [there]
      rfl
    simp only [advanceCreate] at stepped
    split at stepped <;> cases stepped
    · refine coherent_persist coherent held ⟨rfl, nofun, Or.inl rfl, fun _ => held,
        Or.inl rfl⟩ quiet rfl own (by simp [fits, unknown, versionOf, version]) ?_
        ⟨rfl, version, starting, Or.inl unknown⟩
      intro other different finished
      have known := coherent.fine other
      rw [finished] at known
      obtain ⟨before, inMemory, -⟩ := known
      cases unknown.symm.trans inMemory
    · exact coherent_outside coherent quiet rfl nofun (Or.inr (Or.inr held)) trivial
  | createPublish =>
    obtain ⟨stored, version, starting, -⟩ := fine
    have held : w.object = some call := coherent.object call (by rw [there]; rfl)
    cases stepped
    refine coherent_publish coherent held ⟨rfl, nofun, Or.inl rfl, nofun, Or.inr (Or.inr held)⟩ stored ?_ trivial
    intro other different finished
    have known := coherent.fine other
    rw [finished] at known
    obtain ⟨before, -, inStore, stopped⟩ := known
    cases stored.symm.trans inStore
    cases starting.symm.trans stopped
  | idle | waiting _ | inside _ _ => cases stepped

theorem step_coherent {action : Action} (coherent : Coherent id w) (stepped : step id w action = some next) :
    Coherent id next := by
  cases action with
  | call =>
    simp only [step] at stepped
    split at stepped <;> cases stepped
    next there =>
      exact coherent_outside coherent (by rw [there]; rfl) rfl nofun (Or.inl rfl) trivial
  | enter call =>
    simp only [step] at stepped
    split at stepped
    · next operation there =>
      split at stepped <;> cases stepped
      next free =>
        have vacant : w.operation = none := not_isSome_iff_eq_none.mp free
        have moves : Moves w (moveTo { w with operation := some call } call
            (.inside operation (if operation = .reconcile then .first else .refresh))) call
            (.inside operation (if operation = .reconcile then .first else .refresh)) := by
          refine ⟨rfl, fun _ => rfl, Or.inr (Or.inl vacant), ?_, Or.inl rfl⟩
          split <;> exact nofun
        refine coherent_quiet coherent moves rfl rfl rfl (by rw [there]; rfl) ?_
        split <;> trivial
    · cases stepped
  | create =>
    simp only [step] at stepped
    split at stepped <;> cases stepped
    next there asked =>
      refine coherent_outside coherent (by rw [there]; rfl) rfl nofun (Or.inl rfl) ?_
      obtain ⟨same, expected⟩ := ask_value asked
      exact ⟨by rw [same]; rfl, expected, by rw [same]; rfl⟩
  | advance =>
    simp only [step] at stepped
    split at stepped
    · next there => exact advance_coherent coherent there stepped
    · exact create_coherent coherent rfl stepped
  | leave call =>
    simp only [step] at stepped
    split at stepped <;> cases stepped
    next operation success there =>
      have held : w.operation = some call := coherent.operation call (by rw [there]; rfl)
      have moves : Moves w (moveTo { w with operation := none } call .idle) call .idle :=
        ⟨rfl, nofun, Or.inr (Or.inr held), nofun, Or.inl rfl⟩
      exact coherent_quiet coherent moves rfl rfl rfl (by rw [there]; rfl) trivial
  | load =>
    simp only [step] at stepped
    split at stepped <;> cases stepped
    next newer => exact coherent_load coherent newer.1 newer.2

end Coherent

def Harmless : Phase → Prop
  | .inside .restart _ => False
  | .inside _ .refresh | .inside _ .first | .inside _ (.finished _) => True
  | .inside (.visibility _) (.update _ _) => True
  | .inside (.visibility _) (.decide _ _ ask) => ask.value.status = .stopped
  | .inside (.visibility _) (.persist _ _ record) | .inside (.visibility _) (.publish _ record) =>
    record.status = .stopped
  | .inside _ _ => False
  | _ => True

structure Resting (w : World) : Prop where
  memory : ∃ record, w.memory = some record ∧ record.status = .stopped
  stored : ∃ record, w.stored = some record ∧ record.status = .stopped
  harmless : ∀ call, Harmless (w.calls call)

section Resting
variable {id : String} {w next : World}
variable {call text : String} {moment : Moment}

theorem resting_moved {after : World} {phase : Phase} (resting : Resting w)
    (calls : after.calls = update w.calls call phase)
    (memory : ∃ record, after.memory = some record ∧ record.status = .stopped)
    (stored : ∃ record, after.stored = some record ∧ record.status = .stopped) (harmless : Harmless phase) :
    Resting after := by
  refine ⟨memory, stored, fun other => ?_⟩
  rw [calls]
  by_cases here : other = call
  · subst here
    rwa [update_self]
  · rw [update_of_ne here]
    exact resting.harmless other

theorem resting_refreshed (resting : Resting w) (moment : Moment) :
    ∃ record, refreshed w moment = some record ∧ record.status = .stopped := by
  unfold refreshed
  split
  · exact resting.stored
  · exact resting.memory

theorem mutate_visibility {current next : Preview}
    (mutated : (Change.visibility text).mutate current = some next) : next.status = current.status := by
  simp only [Change.mutate] at mutated
  split at mutated <;> cases mutated
  rfl

theorem suits_visibility {change : Change} (suited : suits (.visibility text) change) :
    ∃ wanted, change = .visibility wanted := by
  cases change with
  | visibility wanted => exact ⟨wanted, rfl⟩
  | stopping | stopped _ | starting _ | inactive _ | observed _ _ _ _ | retry _ _ | failed _ => cases suited

theorem resting_conflict {change : Change} {attempts : Nat} {object : Option String} (resting : Resting w) :
    Resting (conflict { w with object } call (.visibility text) moment change attempts) ∧
      (conflict { w with object } call (.visibility text) moment change attempts).launches = w.launches := by
  unfold conflict
  split
  · exact ⟨resting_moved resting rfl resting.memory resting.stored trivial, rfl⟩
  · exact ⟨resting_moved resting rfl (resting_refreshed resting moment) resting.stored trivial, rfl⟩

section
variable (coherent : Coherent id w) (resting : Resting w)
include coherent resting

theorem advance_resting {operation : Operation} {stage : Stage} (there : w.calls call = .inside operation stage)
    (stepped : advance id w call operation moment stage = some next) :
    Resting next ∧ next.launches = w.launches := by
  have fine : Fine id w (.inside operation stage) := there ▸ coherent.fine call
  have harmless : Harmless (.inside operation stage) := there ▸ resting.harmless call
  obtain ⟨current, known, stopped⟩ := resting.memory
  have ends : ∀ success, Harmless (.inside operation (.finished success)) := by
    intro success
    cases operation with
    | restart => exact harmless.elim
    | stop | visibility _ | reconcile => trivial
  cases stage with
  | refresh =>
    simp only [advance] at stepped
    split at stepped <;> cases stepped
    · exact ⟨resting_moved resting rfl resting.memory resting.stored (ends false), rfl⟩
    · refine ⟨resting_moved resting rfl (resting_refreshed resting moment) resting.stored ?_, rfl⟩
      cases operation with
      | restart => exact harmless.elim
      | stop | visibility _ | reconcile => trivial
  | first =>
    cases stepped
    refine ⟨resting_moved resting rfl resting.memory resting.stored ?_, rfl⟩
    cases operation with
    | restart => exact harmless.elim
    | stop => simp [first, known, stopped, Harmless]
    | visibility => trivial
    | reconcile => simp [first, known, reconcileDecision, stopped, Harmless]
  | update change attempts =>
    cases operation with
    | restart | stop | reconcile => exact harmless.elim
    | visibility =>
      obtain ⟨wanted, rfl⟩ := suits_visibility fine
      cases attempts with
      | zero =>
        cases stepped
        exact ⟨resting_moved resting rfl resting.memory resting.stored trivial, rfl⟩
      | succ =>
        cases stepped
        refine ⟨resting_moved resting rfl resting.memory resting.stored ?_, rfl⟩
        simp only [attempt, known]
        split
        · trivial
        · next mutated =>
          split
          · trivial
          · next ask asked =>
            change ask.value.status = .stopped
            rw [(ask_value asked).1]
            exact (mutate_visibility mutated).trans stopped
  | decide =>
    cases operation with
    | restart | stop | reconcile => exact harmless.elim
    | visibility =>
      simp only [advance] at stepped
      split at stepped
      · cases stepped
      · split at stepped <;> cases stepped
        · exact resting_conflict resting
        · exact ⟨resting_moved resting rfl resting.memory resting.stored trivial, rfl⟩
        · next put =>
          refine ⟨resting_moved resting rfl resting.memory resting.stored ?_, rfl⟩
          exact (put_value fine.2.1 put).2.1.trans harmless
  | persist change attempts record =>
    cases operation with
    | restart | stop | reconcile => exact harmless.elim
    | visibility =>
      simp only [advance] at stepped
      split at stepped
      · cases stepped
        exact ⟨resting_moved resting rfl resting.memory resting.stored trivial, rfl⟩
      · split at stepped <;> cases stepped
        · exact ⟨resting_moved resting rfl resting.memory ⟨record, rfl, harmless⟩ harmless, rfl⟩
        · exact resting_conflict resting
  | publish change record =>
    cases operation with
    | restart | stop | reconcile => exact harmless.elim
    | visibility =>
      obtain ⟨wanted, rfl⟩ := suits_visibility fine.1
      cases stepped
      exact ⟨resting_moved resting rfl ⟨record, rfl, harmless⟩ resting.stored trivial, rfl⟩
  | finished => cases stepped
  | stopProcess | network _ _ | start _ _ _ | observe _ _ => cases operation <;> exact harmless.elim

theorem create_resting {phase : Phase} (there : w.calls call = phase)
    (stepped : advanceCreate id w call moment phase = some next) : Resting next ∧ next.launches = w.launches := by
  have fine : Fine id w phase := there ▸ coherent.fine call
  obtain ⟨current, known, stopped⟩ := resting.memory
  cases phase with
  | creating =>
    obtain ⟨own, new, starting⟩ := fine
    simp only [advanceCreate] at stepped
    split at stepped
    · cases stepped
    · split at stepped <;> cases stepped
      · exact ⟨resting_moved resting rfl resting.memory resting.stored trivial, rfl⟩
      · next put =>
        obtain ⟨-, -, version, fit⟩ := put_value own put
        have positive := (coherent.ids current (coherent.memory current known)).2
        simp only [fits, known, versionOf, elim_some, decide_eq_true_eq] at fit
        omega
  | createPersist => cases fine.2.1.symm.trans known
  | createPublish =>
    obtain ⟨stored, -, starting, -⟩ := fine
    obtain ⟨kept, inStore, rests⟩ := resting.stored
    cases stored.symm.trans inStore
    cases starting.symm.trans rests
  | idle | waiting _ | inside _ _ => cases stepped

theorem step_resting {action : Action} (calm : restarts w action = false) (stepped : step id w action = some next) :
    Resting next ∧ next.launches = w.launches := by
  cases action with
  | call | create | leave =>
    simp only [step] at stepped
    split at stepped <;> cases stepped
    exact ⟨resting_moved resting rfl resting.memory resting.stored trivial, rfl⟩
  | enter =>
    simp only [step] at stepped
    split at stepped
    · next operation there =>
      split at stepped <;> cases stepped
      refine ⟨resting_moved resting rfl resting.memory resting.stored ?_, rfl⟩
      cases operation with
      | restart => simp [restarts, there] at calm
      | stop | visibility _ | reconcile => trivial
    · cases stepped
  | advance =>
    simp only [step] at stepped
    split at stepped
    · next there => exact advance_resting coherent resting there stepped
    · exact create_resting coherent resting rfl stepped
  | load record =>
    simp only [step] at stepped
    split at stepped <;> cases stepped
    next newer =>
      obtain ⟨stored, -⟩ := newer_stored coherent newer.1 newer.2
      obtain ⟨kept, inStore, rests⟩ := resting.stored
      cases stored.symm.trans inStore
      exact ⟨⟨⟨record, rfl, rests⟩, resting.stored, resting.harmless⟩, rfl⟩

end

end Resting

structure Started (id : String) (w : World) : Prop where
  ids : ∀ record ∈ w.log, record.id = id ∧ 1 ≤ record.version
  newest : ∀ record ∈ w.log, record.version ≤ versionOf w.stored ∧
    (record.version = versionOf w.stored → w.stored = some record)
  stored : ∀ record, w.stored = some record → record ∈ w.log
  memory : w.memory = w.stored
  calls : ∀ call, w.calls call = .idle

theorem started_coherent {id : String} {w : World} (started : Started id w) : Coherent id w := by
  refine ⟨started.ids, started.newest, started.stored, ?_, ?_, ?_, fun _ => started.memory, ?_⟩
  · intro record known
    exact started.stored record (started.memory.symm.trans known)
  · intro call locked
    rw [started.calls call] at locked
    cases locked
  · intro call putting
    rw [started.calls call] at putting
    cases putting
  · intro call
    rw [started.calls call]
    trivial

/-- After a `Stop` has returned without an error, and until a `Restart` takes the lock, the stored
    status is stopped and `StartPreview` is not called. -/
theorem stopped_stays_stopped (id : String) (start middle next w : World) (earlier later : List Action)
    (call : String) (started : Started id start) (ran : run (step id) start earlier = some middle)
    (stopping : middle.calls call = .inside .stop (.finished true))
    (returned : step id middle (.leave call) = some next)
    (calm : Guarded (step id) (fun w action => restarts w action = false) next later)
    (onward : run (step id) next later = some w) :
    (∃ record, w.stored = some record ∧ record.status = .stopped) ∧ w.launches = next.launches := by
  have coherent : Coherent id middle := run_invariant (Coherent id)
    (fun _ _ _ coherent stepped => step_coherent coherent stepped) ran (started_coherent started)
  have locked : (middle.calls call).locked := by
    rw [stopping]
    rfl
  have resting : Resting next := by
    have fine := coherent.fine call
    rw [stopping] at fine
    obtain ⟨record, known, stored, stopped⟩ := fine
    simp only [step, stopping] at returned
    cases returned
    refine ⟨⟨record, known, stopped⟩, ⟨record, stored, stopped⟩, fun other => ?_⟩
    change Harmless (update middle.calls call .idle other)
    by_cases here : other = call
    · subst here
      rw [update_self]
      trivial
    · rw [update_of_ne here]
      cases there : middle.calls other with
      | inside operation stage => exact absurd there (others_outside coherent locked here operation stage)
      | idle | waiting _ | creating _ | createPersist _ | createPublish _ => trivial
  have kept : Coherent id w ∧ Resting w ∧ w.launches = next.launches := by
    refine guarded_run_invariant (fun w => Coherent id w ∧ Resting w ∧ w.launches = next.launches) ?_ calm onward
      ⟨step_coherent coherent returned, resting, rfl⟩
    rintro state action after quiet ⟨coherent, resting, launches⟩ stepped
    obtain ⟨rests, same⟩ := step_resting coherent resting quiet stepped
    exact ⟨step_coherent coherent stepped, rests, same.trans launches⟩
  exact ⟨kept.2.1.stored, kept.2.2⟩

def ready : Preview :=
  ⟨"v1", "acme", "u1", "owner", "p1", ".", "p-a.preview.test", "exec-1", 20000, "auto", "private", 1, .ready, "", 0,
    none, none, none, 1, 1, 1⟩

def running : World where
  memory := some ready
  stored := some ready
  log := [ready]
  operation := none
  object := none
  calls _ := .idle
  launches := 1

def surroundings : Moment where
  maps := {
    integrations := AList.singleton "acme" ⟨"acme", .active, 10, 10, 4, 4⟩
    users := ∅
    devices := ∅
    sessions := ∅
    integrationUsers := AList.singleton "u1" ⟨"u1", "acme", "ext", "owner", .ready, 1, 1, 1⟩
    projects := AList.singleton "p1" ⟨"p1", "acme", "u1", "owner", "shop", "en", "/workspace/projects/p1", "", .ready,
      "", 1, 1, 1⟩
    conversations := ∅
    previews := ∅
    previewIndex := emptyIndex }
  now := 5
  expires := 100
  loaded := false
  failed := false
  answer := none
  backend := "exec-1"
  observed := .ok [⟨"v1", "running", true, ""⟩]

def stopActions : List Action :=
  [.call "stop" .stop, .call "pass" .reconcile, .enter "stop"] ++ replicate 11 (.advance "stop" surroundings)

def passActions : List Action := [.enter "pass", .advance "pass" surroundings, .leave "pass"]

def stopEnded : Phase → Bool
  | .inside .stop (.finished true) => true
  | _ => false

theorem running_started : Started "v1" running := by
  refine ⟨?_, ?_, ?_, rfl, fun _ => rfl⟩
  · intro record member
    cases mem_singleton.mp member
    exact ⟨rfl, le_refl 1⟩
  · intro record member
    cases mem_singleton.mp member
    exact ⟨le_refl 1, fun _ => rfl⟩
  · rintro _ ⟨⟩
    exact mem_singleton_self ready

theorem pass_after_stop : ∃ middle next w, run (step "v1") running stopActions = some middle ∧
    step "v1" middle (.leave "stop") = some next ∧ run (step "v1") next passActions = some w ∧
    (∃ record, w.stored = some record ∧ record.status = .stopped) ∧ w.launches = next.launches := by
  have outcome : ((run (step "v1") running stopActions).bind fun middle =>
      (step "v1" middle (.leave "stop")).bind fun next => (run (step "v1") next passActions).map fun _ =>
        (stopEnded (middle.calls "stop"), checked (step "v1") (fun w action => ! restarts w action) next passActions)) =
      some (true, true) := by decide +kernel
  obtain ⟨middle, ran, outcome⟩ := bind_eq_some_iff.mp outcome
  obtain ⟨next, returned, outcome⟩ := bind_eq_some_iff.mp outcome
  obtain ⟨w, onward, outcome⟩ := map_eq_some_iff.mp outcome
  simp only [Prod.mk.injEq] at outcome
  obtain ⟨ended, calm⟩ := outcome
  have stopping : middle.calls "stop" = .inside .stop (.finished true) := by
    unfold stopEnded at ended
    split at ended
    · assumption
    · cases ended
  refine ⟨middle, next, w, ran, returned, onward, ?_⟩
  exact stopped_stays_stopped "v1" running middle next w stopActions passActions "stop" running_started ran stopping
    returned (checked_guarded _ (fun _ _ passed => (Bool.not_eq_true' _).mp passed) _ _ calm) onward

end PieRelay.StoppedPreviews
