import PieRelay.RoomRegistry

/-!
Operations of the control plane, executor-manager/internal/control: the replicas'
caches in service.go, the version-checked store behind them in postgres_store.go, and
`dispatchOperations` and `runOperation` of internal/controller. A step is one critical
section of a replica's mutex or one statement of the store, so `BeginOperation`,
`UpdateOperation`, pruning and `Refresh` are several steps each and interleave with
everything else. Left out: the record lock of a replica, which only takes
interleavings away, the slots that bound a dispatch tick, and the audit trail. Which
rows of the change log a refresh gets to see is left open; a store call may fail, and
its answer may be lost after the commit. The digest of `idempotentOperationID` is a
parameter.
-/
namespace PieRelay.OperationStore
open Function RoomRegistry Option

/-! Values of Go's `any` as the JSON codec sees them. Maps are their fields in key order.
`typed` stands for everything `json.Unmarshal` does not make by itself: a Go integer, a struct,
a typed slice, by its type and its JSON encoding. Texts are valid UTF-8. -/

mutual
inductive GoValue where
  | null
  | bool (value : Bool)
  | number (value : Rat)
  | text (value : String)
  | array (items : GoItems)
  | object (fields : GoFields)
  | typed (goType : String) (encoding : GoValue)
  deriving DecidableEq
inductive GoItems where
  | nil
  | cons (head : GoValue) (tail : GoItems)
  deriving DecidableEq
inductive GoFields where
  | nil
  | cons (key : String) (value : GoValue) (rest : GoFields)
  deriving DecidableEq
end

mutual
def GoValue.normal : GoValue → GoValue
  | .typed _ encoding => encoding.normal
  | .array items => .array items.normal
  | .object fields => .object fields.normal
  | .null => .null
  | .bool value => .bool value
  | .number value => .number value
  | .text value => .text value
def GoItems.normal : GoItems → GoItems
  | .nil => .nil
  | .cons head tail => .cons head.normal tail.normal
def GoFields.normal : GoFields → GoFields
  | .nil => .nil
  | .cons key value rest => .cons key value.normal rest.normal
end

abbrev GoMap := Option GoFields

def toMap (value : GoMap) : GoMap := value.map GoFields.normal

def omitEmpty : GoMap → GoMap
  | some .nil => none
  | value => value

inductive Status where
  | queued
  | running
  | succeeded
  | failed
  | canceled
  deriving DecidableEq

def terminalOperation : Status → Bool
  | .succeeded | .failed | .canceled => true
  | .queued | .running => false

structure Operation where
  id : String
  idempotencyKey : String
  actorUserID : String
  type : String
  targetKind : String
  targetID : String
  status : Status
  progress : Int
  request : GoMap
  result : GoMap
  error : String
  createdAt : Time
  startedAt : Option Time
  finishedAt : Option Time
  updatedAt : Time
  version : Nat
  deriving DecidableEq

def cloneOperation (value : Operation) : Operation :=
  { value with request := toMap value.request, result := toMap value.result }

def encode (value : Operation) : Operation :=
  { value with request := omitEmpty (toMap value.request), result := omitEmpty (toMap value.result) }

def validRecordPart (value : String) : Bool :=
  value ≠ "" ∧ value.utf8ByteSize ≤ 180 ∧ value ≠ "." ∧ value ≠ ".." ∧
    value.toList.all fun c => ('a' ≤ c ∧ c ≤ 'z') ∨ ('A' ≤ c ∧ c ≤ 'Z') ∨ ('0' ≤ c ∧ c ≤ '9') ∨
      c = '-' ∨ c = '_' ∨ c = '.' ∨ c = ':'

def idempotencyIndex (actor key : String) : String := actor ++ String.singleton (Char.ofNat 0) ++ key

/-- `reflect.DeepEqual` on the requests: the same types all the way down. -/
def sameOperationIntent (existing candidate : Operation) : Bool :=
  existing.actorUserID = candidate.actorUserID ∧ existing.idempotencyKey = candidate.idempotencyKey ∧
    existing.type = candidate.type ∧ existing.targetKind = candidate.targetKind ∧
    existing.targetID = candidate.targetID ∧ existing.request = candidate.request

def advance (before : Operation) (status : Status) (progress : Int) (result : GoMap) (error : String)
    (now : Time) : Operation :=
  { before with
    status := status
    progress := if status = .succeeded then 100 else progress
    result := toMap result
    error := error
    startedAt := if status = .running ∧ before.startedAt = none then some now else before.startedAt
    finishedAt := if terminalOperation status then some now else before.finishedAt
    updatedAt := now
    version := before.version + 1 }

structure Replica where
  operations : String → Option Operation
  idempotency : String → Option String

def emptyReplica : Replica := ⟨fun _ => none, fun _ => none⟩

def loadRecord (replica : Replica) (id : String) (value : Operation) : Replica where
  operations := update replica.operations id (some value)
  idempotency :=
    if value.idempotencyKey = "" then replica.idempotency
    else update replica.idempotency (idempotencyIndex value.actorUserID value.idempotencyKey) (some id)

def dropRecord (replica : Replica) (id : String) (value : Operation) : Replica where
  operations := update replica.operations id none
  idempotency :=
    if value.idempotencyKey = "" then replica.idempotency
    else update replica.idempotency (idempotencyIndex value.actorUserID value.idempotencyKey) none

def deleteRecordLocked (replica : Replica) (id : String) : Replica :=
  match replica.operations id with
  | some value => dropRecord replica id value
  | none => replica

def recordVersionLocked (replica : Replica) (id : String) : Nat :=
  match replica.operations id with
  | some value => value.version
  | none => 0

abbrev Batch := List (String × Option Operation)

def applyChange (replica : Replica) (change : String × Option Operation) : Replica :=
  match change.2 with
  | none => deleteRecordLocked replica change.1
  | some value =>
    if recordVersionLocked replica change.1 < value.version then loadRecord replica change.1 value
    else replica

def refreshIncremental (replica : Replica) (batch : Batch) : Replica := batch.foldl applyChange replica

inductive Answer where
  | created (operation : Operation)
  | duplicate (operation : Operation)
  | conflict
  | invalid
  | failed
  deriving DecidableEq

/-- A `BeginOperation` under way: what the caller passed and what is to be inserted. `found` is
    history, the incarnation of the id that was stored when the call began or when its insert was
    refused. -/
structure Begin where
  replica : Nat
  candidate : Operation
  operation : Operation
  found : Option Nat
  deriving DecidableEq

inductive Call where
  | inserting (call : Begin)
  | inserted (call : Begin)
  | conflicted (call : Begin)
  | refreshing (call : Begin) (batch : Batch)
  | refreshed (call : Begin)
  | answered (call : Begin) (answer : Answer)
  | syncing (replica : Nat) (batch : Batch)
  | spawned (replica : Nat) (id : String)
  | updating (replica : Nat) (id : String) (before next : Operation) (claim : Bool)
  | updated (replica : Nat) (id : String) (next : Operation) (claim : Bool)
  | executing (replica : Nat) (id : String)
  | pruning (replica : Nat) (id : String) (current : Operation)
  | pruned (replica : Nat) (id : String) (current : Operation)
  | returned
  deriving DecidableEq

/-- `records` is the table, `log` the ids that have a row in the change log. The last three are
    history: how often an id has been created, the values it has had since, newest first, and the
    ids whose `executeOperation` has been entered. -/
structure World where
  records : String → Option Operation
  log : List String
  replicas : List Replica
  calls : List Call
  incarnation : String → Nat
  history : String → List Operation
  started : List String

def newWorld : World := ⟨fun _ => none, [], [], [], fun _ => 0, fun _ => [], []⟩

def snapshot (w : World) (rows : List String) : Batch := rows.map fun id => (id, w.records id)

def loadRow (replica : Replica) (row : String × Option Operation) : Replica :=
  match row.2 with
  | some value => loadRecord replica row.1 value
  | none => replica

def newReplica (w : World) : Replica := (snapshot w w.log).foldl loadRow emptyReplica

def addCall (w : World) (call : Call) : World := { w with calls := w.calls ++ [call] }
def setCall (w : World) (index : Nat) (call : Call) : World := { w with calls := w.calls.set index call }
def setReplica (w : World) (index : Nat) (replica : Replica) : World :=
  { w with replicas := w.replicas.set index replica }

def createRecord (w : World) (id : String) (value : Operation) : World :=
  { w with
    records := update w.records id (some (encode value))
    log := if id ∈ w.log then w.log else id :: w.log
    incarnation := update w.incarnation id (w.incarnation id + 1)
    history := update w.history id [encode value] }

def replaceRecord (w : World) (id : String) (value : Operation) : World :=
  { w with
    records := update w.records id (some (encode value))
    history := update w.history id (encode value :: w.history id) }

def deleteRecord (w : World) (id : String) : World := { w with records := update w.records id none }

inductive StoreReply where
  | ok
  | lost
  | failed
  deriving DecidableEq

section Control
variable (digest : String → String)

def idempotentOperationID (actor key : String) : String := "op-" ++ digest (idempotencyIndex actor key)

def existingOperation (replica : Replica) (candidate : Operation) : Option Operation :=
  if candidate.idempotencyKey = "" then none
  else (replica.idempotency (idempotencyIndex candidate.actorUserID candidate.idempotencyKey)).bind
    replica.operations

def newOperation (candidate : Operation) (randomID : String) (now : Time) : Operation :=
  { candidate with
    id := if candidate.idempotencyKey ≠ "" then
        idempotentOperationID digest candidate.actorUserID candidate.idempotencyKey
      else if candidate.id = "" then randomID else candidate.id
    status := .queued
    progress := 0
    request := toMap candidate.request
    createdAt := now
    updatedAt := now
    version := 1 }

def validOperation (operation : Operation) : Bool :=
  validRecordPart operation.id ∧ operation.type ≠ "" ∧ validRecordPart operation.targetKind ∧
    validRecordPart operation.targetID

def answerExisting (existing candidate : Operation) : Answer :=
  if sameOperationIntent existing candidate then .duplicate (cloneOperation existing) else .conflict

def beginOperation (w : World) (index : Nat) (replica : Replica) (candidate : Operation)
    (randomID : String) (now : Time) : Call :=
  let operation := newOperation digest candidate randomID now
  let call : Begin := ⟨index, candidate, operation,
    if (w.records operation.id).isSome then some (w.incarnation operation.id) else none⟩
  match existingOperation replica candidate with
  | some existing => .answered call (answerExisting existing candidate)
  | none => if validOperation operation then .inserting call else .answered call .invalid

def insertOperation (w : World) (index : Nat) (call : Begin) (reply : StoreReply) : World :=
  match reply, w.records call.operation.id with
  | .failed, _ => setCall w index (.answered call .failed)
  | .lost, none => setCall (createRecord w call.operation.id call.operation) index (.answered call .failed)
  | .lost, some _ => setCall w index (.answered call .failed)
  | .ok, none => setCall (createRecord w call.operation.id call.operation) index (.inserted call)
  | .ok, some _ =>
    if call.operation.idempotencyKey = "" then setCall w index (.answered call .conflict)
    else setCall w index (.conflicted
      { call with found := call.found.or (some (w.incarnation call.operation.id)) })

def readUpdate (replica : Replica) (index : Nat) (id : String) (status : Status) (progress : Int)
    (result : GoMap) (error : String) (now : Time) (claim : Bool) : Call :=
  if status = .queued ∨ progress < 0 ∨ 100 < progress then .returned
  else match replica.operations id with
    | none => .returned
    | some before =>
      if terminalOperation before.status then .returned
      else .updating index id before (advance before status progress result error now) claim

/-- The write of an `UpdateOperation`: it goes through if the record has the version that was read. -/
def writeOperation (w : World) (index replica : Nat) (id : String) (before next : Operation)
    (claim : Bool) (reply : StoreReply) : World :=
  match w.records id with
  | none => setCall w index .returned
  | some stored =>
    if reply = .failed ∨ stored.version ≠ before.version then setCall w index .returned
    else if reply = .lost then setCall (replaceRecord w id next) index .returned
    else setCall (replaceRecord w id next) index (.updated replica id next claim)

def removeOperation (w : World) (index replica : Nat) (id : String) (current : Operation)
    (reply : StoreReply) : World :=
  match w.records id with
  | none => setCall w index .returned
  | some stored =>
    if reply = .failed ∨ stored.version ≠ current.version then setCall w index .returned
    else if reply = .lost then setCall (deleteRecord w id) index .returned
    else setCall (deleteRecord w id) index (.pruned replica id current)

inductive Action where
  | boot
  | beginOperation (replica : Nat) (candidate : Operation) (randomID : String) (now : Time)
  | insert (call : Nat) (reply : StoreReply)
  | remember (call : Nat)
  | load (call : Nat) (rows : List String) (answered : Bool)
  | sync (replica : Nat) (rows : List String)
  | apply (call : Nat) (more : Bool)
  | lookup (call : Nat)
  | tick (replica : Nat) (ids : List String)
  | claim (call : Nat) (now : Time)
  | updateOperation (replica : Nat) (id : String) (status : Status) (progress : Int) (result : GoMap)
      (error : String) (now : Time)
  | finish (call : Nat) (outcome : Except String GoMap) (now : Time)
  | write (call : Nat) (reply : StoreReply)
  | store (call : Nat)
  | prune (replica : Nat) (id : String) (before : Time)
  | remove (call : Nat) (reply : StoreReply)
  | forget (call : Nat)

def Action.call : Action → Option Nat
  | .insert index _ | .remember index | .load index _ _ | .apply index _ | .lookup index
  | .claim index _ | .finish index _ _ | .write index _ | .store index | .remove index _
  | .forget index => some index
  | _ => none

def advanceCall (w : World) (index : Nat) (call : Call) (action : Action) : Option World :=
  match action, call with
  | .insert _ reply, .inserting begun => some (insertOperation w index begun reply)
  | .remember _, .inserted begun =>
    (w.replicas[begun.replica]?).map fun replica =>
      setCall (setReplica w begun.replica (loadRecord replica begun.operation.id begun.operation)) index
        (.answered begun (.created (cloneOperation begun.operation)))
  -- a conflict on a keyed operation: Refresh, then look again
  | .load _ rows answered, .conflicted begun =>
    if rows.all (· ∈ w.log) then
      some (setCall w index
        (if answered then .refreshing begun (snapshot w rows) else .answered begun .failed))
    else none
  | .apply _ more, .refreshing begun batch =>
    (w.replicas[begun.replica]?).map fun replica =>
      setCall (setReplica w begun.replica (refreshIncremental replica batch)) index
        (if more then .conflicted begun else .refreshed begun)
  | .apply _ _, .syncing replica batch =>
    (w.replicas[replica]?).map fun maps =>
      setCall (setReplica w replica (refreshIncremental maps batch)) index .returned
  | .lookup _, .refreshed begun =>
    (w.replicas[begun.replica]?).map fun replica =>
      setCall w index (.answered begun (match replica.operations begun.operation.id with
        | some existing => answerExisting existing begun.operation
        | none => .conflict))
  -- runOperation: the claim, and the outcome of executeOperation
  | .claim _ now, .spawned replica id =>
    (w.replicas[replica]?).map fun maps =>
      setCall w index (readUpdate maps replica id .running 5 none "" now true)
  | .finish _ outcome now, .executing replica id =>
    (w.replicas[replica]?).map fun maps =>
      setCall w index (match outcome with
        | .ok result => readUpdate maps replica id .succeeded 100 result "" now false
        | .error text => readUpdate maps replica id .failed 100 none text now false)
  | .write _ reply, .updating replica id before next claim =>
    some (writeOperation w index replica id before next claim reply)
  | .store _, .updated replica id next claim =>
    (w.replicas[replica]?).map fun maps =>
      { setCall (setReplica w replica
          { maps with operations := update maps.operations id (some next) }) index
          (if claim then .executing replica id else .returned) with
        started := if claim then id :: w.started else w.started }
  | .remove _ reply, .pruning replica id current =>
    some (removeOperation w index replica id current reply)
  | .forget _, .pruned replica id current =>
    (w.replicas[replica]?).map fun maps =>
      setCall (setReplica w replica (dropRecord maps id current)) index .returned
  | _, _ => none

def step (w : World) (action : Action) : Option World :=
  match action with
  | .boot => some { w with replicas := w.replicas ++ [newReplica w] }
  | .beginOperation index candidate randomID now =>
    (w.replicas[index]?).map fun replica =>
      addCall w (beginOperation digest w index replica candidate randomID now)
  | .sync index rows =>
    if index < w.replicas.length ∧ rows.all (· ∈ w.log) then
      some (addCall w (.syncing index (snapshot w rows)))
    else none
  -- QueuedOperations lists from the cache; each listed operation that finds a slot gets a goroutine
  | .tick index ids =>
    (w.replicas[index]?).bind fun replica =>
      if ids.all fun id => (replica.operations id).any fun value => value.status = .queued then
        some { w with calls := w.calls ++ ids.map (Call.spawned index) }
      else none
  | .updateOperation index id status progress result error now =>
    (w.replicas[index]?).map fun replica =>
      addCall w (readUpdate replica index id status progress result error now false)
  | .prune index id before =>
    (w.replicas[index]?).bind fun replica =>
      match replica.operations id with
      | some current =>
        if terminalOperation current.status ∧ current.updatedAt < before then
          some (addCall w (.pruning index id current))
        else none
      | none => none
  | .insert index _ | .remember index | .load index _ _ | .apply index _ | .lookup index
  | .claim index _ | .finish index _ _ | .write index _ | .store index | .remove index _
  | .forget index => (w.calls[index]?).bind fun call => advanceCall w index call action

inductive Taken (w : World) : Action → World → Prop where
  | booted : Taken w .boot { w with replicas := w.replicas ++ [newReplica w] }
  | begun (index : Nat) (candidate : Operation) (randomID : String) (now : Time) (maps : Replica)
      (here : w.replicas[index]? = some maps) :
      Taken w (.beginOperation index candidate randomID now)
        (addCall w (beginOperation digest w index maps candidate randomID now))
  | synced (index : Nat) (rows : List String) :
      Taken w (.sync index rows) (addCall w (.syncing index (snapshot w rows)))
  | ticked (index : Nat) (ids : List String) :
      Taken w (.tick index ids) { w with calls := w.calls ++ ids.map (Call.spawned index) }
  | updating (index : Nat) (id : String) (status : Status) (progress : Int) (result : GoMap)
      (error : String) (now : Time) (maps : Replica) (here : w.replicas[index]? = some maps) :
      Taken w (.updateOperation index id status progress result error now)
        (addCall w (readUpdate maps index id status progress result error now false))
  | pruning (index : Nat) (id : String) (before : Time) (maps : Replica) (current : Operation)
      (here : w.replicas[index]? = some maps) (cached : maps.operations id = some current)
      (terminal : terminalOperation current.status) :
      Taken w (.prune index id before) (addCall w (.pruning index id current))
  | inserted (index : Nat) (reply : StoreReply) (call : Begin)
      (waiting : w.calls[index]? = some (.inserting call)) :
      Taken w (.insert index reply) (insertOperation w index call reply)
  | remembered (index : Nat) (call : Begin) (maps : Replica)
      (waiting : w.calls[index]? = some (.inserted call))
      (here : w.replicas[call.replica]? = some maps) :
      Taken w (.remember index)
        (setCall (setReplica w call.replica (loadRecord maps call.operation.id call.operation)) index
          (.answered call (.created (cloneOperation call.operation))))
  | loaded (index : Nat) (rows : List String) (call : Begin)
      (waiting : w.calls[index]? = some (.conflicted call)) :
      Taken w (.load index rows true) (setCall w index (.refreshing call (snapshot w rows)))
  | unanswered (index : Nat) (rows : List String) (call : Begin)
      (waiting : w.calls[index]? = some (.conflicted call)) :
      Taken w (.load index rows false) (setCall w index (.answered call .failed))
  | applied (index : Nat) (more : Bool) (call : Begin) (batch : Batch) (maps : Replica)
      (waiting : w.calls[index]? = some (.refreshing call batch))
      (here : w.replicas[call.replica]? = some maps) :
      Taken w (.apply index more)
        (setCall (setReplica w call.replica (refreshIncremental maps batch)) index
          (if more then .conflicted call else .refreshed call))
  | refreshed (index : Nat) (more : Bool) (replica : Nat) (batch : Batch) (maps : Replica)
      (waiting : w.calls[index]? = some (.syncing replica batch))
      (here : w.replicas[replica]? = some maps) :
      Taken w (.apply index more)
        (setCall (setReplica w replica (refreshIncremental maps batch)) index .returned)
  | lookedUp (index : Nat) (call : Begin) (maps : Replica)
      (waiting : w.calls[index]? = some (.refreshed call))
      (here : w.replicas[call.replica]? = some maps) :
      Taken w (.lookup index)
        (setCall w index (.answered call (match maps.operations call.operation.id with
          | some existing => answerExisting existing call.operation
          | none => .conflict)))
  | claimed (index : Nat) (now : Time) (replica : Nat) (id : String) (maps : Replica)
      (waiting : w.calls[index]? = some (.spawned replica id))
      (here : w.replicas[replica]? = some maps) :
      Taken w (.claim index now)
        (setCall w index (readUpdate maps replica id .running 5 none "" now true))
  | succeeded (index : Nat) (result : GoMap) (now : Time) (replica : Nat) (id : String) (maps : Replica)
      (waiting : w.calls[index]? = some (.executing replica id))
      (here : w.replicas[replica]? = some maps) :
      Taken w (.finish index (.ok result) now)
        (setCall w index (readUpdate maps replica id .succeeded 100 result "" now false))
  | failed (index : Nat) (text : String) (now : Time) (replica : Nat) (id : String) (maps : Replica)
      (waiting : w.calls[index]? = some (.executing replica id))
      (here : w.replicas[replica]? = some maps) :
      Taken w (.finish index (.error text) now)
        (setCall w index (readUpdate maps replica id .failed 100 none text now false))
  | wrote (index : Nat) (reply : StoreReply) (replica : Nat) (id : String) (before value : Operation)
      (claim : Bool) (waiting : w.calls[index]? = some (.updating replica id before value claim)) :
      Taken w (.write index reply) (writeOperation w index replica id before value claim reply)
  | stored (index replica : Nat) (id : String) (value : Operation) (claim : Bool) (maps : Replica)
      (waiting : w.calls[index]? = some (.updated replica id value claim))
      (here : w.replicas[replica]? = some maps) :
      Taken w (.store index)
        { setCall (setReplica w replica
            { maps with operations := update maps.operations id (some value) }) index
            (if claim then .executing replica id else .returned) with
          started := if claim then id :: w.started else w.started }
  | removed (index : Nat) (reply : StoreReply) (replica : Nat) (id : String) (current : Operation)
      (waiting : w.calls[index]? = some (.pruning replica id current)) :
      Taken w (.remove index reply) (removeOperation w index replica id current reply)
  | forgot (index replica : Nat) (id : String) (current : Operation) (maps : Replica)
      (waiting : w.calls[index]? = some (.pruned replica id current))
      (here : w.replicas[replica]? = some maps) :
      Taken w (.forget index)
        (setCall (setReplica w replica (dropRecord maps id current)) index .returned)

theorem advance_taken {w next : World} {index : Nat} {call : Call} {action : Action}
    (own : action.call = some index) (waiting : w.calls[index]? = some call)
    (moved : advanceCall w index call action = some next) : Taken digest w action next := by
  unfold advanceCall at moved
  split at moved
  · cases own
    cases moved
    exact .inserted index _ _ waiting
  · cases own
    obtain ⟨maps, here, rfl⟩ := map_eq_some_iff.mp moved
    exact .remembered index _ maps waiting here
  · rename_i rows answered begun
    cases own
    split at moved
    · cases moved
      cases answered with
      | true => exact .loaded index rows begun waiting
      | false => exact .unanswered index rows begun waiting
    · cases moved
  · cases own
    obtain ⟨maps, here, rfl⟩ := map_eq_some_iff.mp moved
    exact .applied index _ _ _ maps waiting here
  · cases own
    obtain ⟨maps, here, rfl⟩ := map_eq_some_iff.mp moved
    exact .refreshed index _ _ _ maps waiting here
  · cases own
    obtain ⟨maps, here, rfl⟩ := map_eq_some_iff.mp moved
    exact .lookedUp index _ maps waiting here
  · cases own
    obtain ⟨maps, here, rfl⟩ := map_eq_some_iff.mp moved
    exact .claimed index _ _ _ maps waiting here
  · rename_i outcome now owner id
    cases own
    obtain ⟨maps, here, rfl⟩ := map_eq_some_iff.mp moved
    cases outcome with
    | ok result => exact .succeeded index result now owner id maps waiting here
    | error text => exact .failed index text now owner id maps waiting here
  · cases own
    cases moved
    exact .wrote index _ _ _ _ _ _ waiting
  · cases own
    obtain ⟨maps, here, rfl⟩ := map_eq_some_iff.mp moved
    exact .stored index _ _ _ _ maps waiting here
  · cases own
    cases moved
    exact .removed index _ _ _ _ waiting
  · cases own
    obtain ⟨maps, here, rfl⟩ := map_eq_some_iff.mp moved
    exact .forgot index _ _ _ maps waiting here
  · cases moved

theorem step_taken {w next : World} {action : Action} (stepped : step digest w action = some next) :
    Taken digest w action next := by
  have called : ∀ index, action.call = some index →
      ((w.calls[index]?).bind fun call => advanceCall w index call action) = some next →
      Taken digest w action next := by
    intro index own moved
    obtain ⟨call, waiting, advanced⟩ := bind_eq_some_iff.mp moved
    exact advance_taken digest own waiting advanced
  cases action with
  | boot =>
    cases stepped
    exact .booted
  | beginOperation index candidate randomID now =>
    obtain ⟨maps, here, rfl⟩ := map_eq_some_iff.mp stepped
    exact .begun index candidate randomID now maps here
  | sync index rows =>
    simp only [step] at stepped
    split at stepped
    · cases stepped
      exact .synced index rows
    · cases stepped
  | tick index ids =>
    obtain ⟨maps, here, listed⟩ := bind_eq_some_iff.mp stepped
    split at listed
    · cases listed
      exact .ticked index ids
    · cases listed
  | updateOperation index id status progress result error now =>
    obtain ⟨maps, here, rfl⟩ := map_eq_some_iff.mp stepped
    exact .updating index id status progress result error now maps here
  | prune index id before =>
    obtain ⟨maps, here, listed⟩ := bind_eq_some_iff.mp stepped
    split at listed
    · rename_i current cached
      split at listed
      · rename_i finished
        cases listed
        exact .pruning index id before maps current here cached finished.1
      · cases listed
    · cases listed
  | remember index | lookup index | store index | forget index => exact called index rfl stepped
  | insert index | write index | remove index | apply index | claim index => exact called index rfl stepped
  | load index | finish index => exact called index rfl stepped

def Call.wellFormed : Call → Prop
  | .inserting call | .inserted call | .conflicted call | .refreshed call =>
    ∃ randomID now, call.operation = newOperation digest call.candidate randomID now
  | .refreshing call _ => ∃ randomID now, call.operation = newOperation digest call.candidate randomID now
  | .answered call _ => ∃ randomID now, call.operation = newOperation digest call.candidate randomID now
  | .updating _ _ before next _ => terminalOperation before.status = false ∧
      ∃ status progress result error now, status ≠ .queued ∧
        next = advance before status progress result error now
  | .pruning _ _ current => terminalOperation current.status
  | _ => True

end Control

/-! What is still known of an id somewhere: cached by a replica, or read by a call that has yet
to use it. -/

def Call.holds : Call → List (String × Operation)
  | .inserted call => [(call.operation.id, call.operation)]
  | .refreshing _ batch => batch.filterMap fun row => row.2.map fun value => (row.1, value)
  | .syncing _ batch => batch.filterMap fun row => row.2.map fun value => (row.1, value)
  | .updating _ id before _ _ => [(id, before)]
  | .updated _ id next _ => [(id, next)]
  | .pruning _ id current => [(id, current)]
  | .pruned _ id current => [(id, current)]
  | _ => []

def View (w : World) (id : String) (value : Operation) : Prop :=
  (∃ replica ∈ w.replicas, replica.operations id = some value) ∨
    ∃ call ∈ w.calls, (id, value) ∈ call.holds

end PieRelay.OperationStore
