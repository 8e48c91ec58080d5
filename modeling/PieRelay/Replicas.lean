import PieRelay.ChangeLog
import PieRelay.Executions
import PieRelay.PreviewRecords

/-!
Control services that share one store: the maps of service.go with `loadRecord`,
`deleteRecordLocked`, `recordVersionLocked` and `refreshIncremental`, `NewService`, and
the table, change trigger and queries of postgres_store.go. A step is one critical section
of a service's mutex or one part of a statement: a statement takes its change number when
it writes and is visible when it commits. Every `Put` and every delete reads in memory,
goes to the store and then publishes in memory, holding the lock of its record. Twelve of
the fifteen kinds are filed by id alone; operations, integrations and previews each have
their own case. Left out: the pruning of audit records in memory, the events emitted to
subscribers, and records that cannot be decoded, which no service writes. A record is the
value its JSON reads back as; the digest behind the id of a keyed operation is a parameter.
-/
namespace PieRelay.Replicas
open Function Executions ChangeLog PreviewRecords

inductive PlainKind where
  | user
  | node
  | device
  | runtime
  | session
  | participant
  | grant
  | audit
  | integrationSecret
  | integrationUser
  | project
  | conversation
  deriving DecidableEq

inductive Kind where
  | plain (kind : PlainKind)
  | operation
  | integration
  | preview
  deriving DecidableEq

structure Key where
  kind : Kind
  id : String
  deriving DecidableEq

structure OperationRecord where
  id : String
  actorUserID : String
  idempotencyKey : String
  version : Nat
  text : String
  deriving DecidableEq

structure IntegrationRecord where
  id : String
  credentialFormat : String
  credentialMaxBytes : Int
  maxUsers : Int
  maxProjectsPerUser : Int
  maxPreviewsPerUser : Int
  maxConversationsPerUser : Int
  version : Nat
  text : String
  deriving DecidableEq

/-- `text` is the JSON of everything that the functions here do not look at. -/
inductive Record where
  | plain (kind : PlainKind) (id : String) (version : Nat) (text : String)
  | operation (value : OperationRecord)
  | integration (value : IntegrationRecord)
  | preview (value : Preview)
  deriving DecidableEq

def Record.key : Record → Key
  | .plain kind id _ _ => ⟨.plain kind, id⟩
  | .operation value => ⟨.operation, value.id⟩
  | .integration value => ⟨.integration, value.id⟩
  | .preview value => ⟨.preview, value.id⟩

def Record.version : Record → Nat
  | .plain _ _ version _ => version
  | .operation value => value.version
  | .integration value => value.version
  | .preview value => value.version

def orDefault (value fallback : Int) : Int := if value = 0 then fallback else value

def normalizeIntegration (value : IntegrationRecord) : IntegrationRecord :=
  { value with
    credentialFormat := if value.credentialFormat = "" then "json" else value.credentialFormat
    credentialMaxBytes := orDefault value.credentialMaxBytes (64 * 1024)
    maxUsers := orDefault value.maxUsers 10000
    maxProjectsPerUser := orDefault value.maxProjectsPerUser 32
    maxPreviewsPerUser := orDefault value.maxPreviewsPerUser 4
    maxConversationsPerUser := orDefault value.maxConversationsPerUser 4 }

def Record.normal : Record → Record
  | .integration value => .integration (normalizeIntegration value)
  | record => record

def OperationRecord.index (value : OperationRecord) : Option String :=
  if value.idempotencyKey = "" then none
  else some (OperationStore.idempotencyIndex value.actorUserID value.idempotencyKey)

/-- The fifteen maps of a `Service` as one, by kind and id, and its secondary indexes. -/
structure Memory where
  records : Key → Option Record
  idempotency : String → Option String
  previews : PreviewIndex

def emptyMemory : Memory := ⟨fun _ => none, fun _ => none, emptyIndex⟩

def Record.preview? : Record → Option Preview
  | .preview value => some value
  | _ => none

def Record.operation? : Record → Option OperationRecord
  | .operation value => some value
  | _ => none

def Memory.preview (m : Memory) (id : String) : Option Preview :=
  (m.records ⟨.preview, id⟩).bind Record.preview?

def Memory.operation (m : Memory) (id : String) : Option OperationRecord :=
  (m.records ⟨.operation, id⟩).bind Record.operation?

def entered (idempotency : String → Option String) (value : OperationRecord) :
    String → Option String :=
  match value.index with
  | some index => update idempotency index (some value.id)
  | none => idempotency

def loadRecord (m : Memory) (record : Record) : Memory where
  records := update m.records record.key (some record.normal)
  idempotency := match record with
    | .operation value => entered m.idempotency value
    | _ => m.idempotency
  previews := match record with
    | .preview value =>
      indexPreviewLocked ((m.preview value.id).elim m.previews (unindexPreviewLocked m.previews)) value
    | _ => m.previews

def dropRecord (m : Memory) (record : Record) : Memory where
  records := update m.records record.key none
  idempotency := match record with
    | .operation value => value.index.elim m.idempotency fun index => update m.idempotency index none
    | _ => m.idempotency
  previews := match record with
    | .preview value => unindexPreviewLocked m.previews value
    | _ => m.previews

def deleteRecordLocked (m : Memory) (key : Key) : Memory :=
  (m.records key).elim m (dropRecord m)

def recordVersionLocked (m : Memory) (key : Key) : Nat := (m.records key).elim 0 Record.version

/-- What a put does in memory. An update of an operation leaves the index alone, and one of a
    preview enters it without taking out what was there. -/
def publishRecord (m : Memory) (before : Option Record) (record : Record) : Memory where
  records := update m.records record.key (some record)
  idempotency := match record with
    | .operation value => if before = none then entered m.idempotency value else m.idempotency
    | _ => m.idempotency
  previews := match record with
    | .preview value => indexPreviewLocked m.previews value
    | _ => m.previews

structure Change where
  row : Row Key
  record : Option Record
  deriving DecidableEq

/-- One service. The last two fields are history: the changes that were committed when it loaded
    its snapshot, and the rows that `LoadChanges` has returned to it. -/
structure Replica where
  memory : Memory
  cursor : Nat
  loaded : List (Row Key)
  returned : List (Row Key)

def Replica.given (r : Replica) (batch : List Change) : Replica :=
  { r with returned := batch.map Change.row ++ r.returned }

def applyRecord (m : Memory) (key : Key) : Option Record → Memory
  | none => deleteRecordLocked m key
  | some record => if recordVersionLocked m key < record.version then loadRecord m record else m

def applyChange (r : Replica) (change : Change) : Replica :=
  if change.row.sequence ≤ r.cursor then r
  else { r with
    memory := applyRecord r.memory change.row.key change.record
    cursor := change.row.sequence }

structure Put where
  key : Key
  before : Option Record
  request : Option Record
  deriving DecidableEq

def Put.expected (put : Put) : Nat := put.before.elim 0 Record.version

def Put.after (put : Put) : Option Record := put.request.map Record.normal

def publish (m : Memory) (put : Put) : Memory :=
  match put.after, put.before with
  | some record, before => publishRecord m before record
  | none, some before => dropRecord m before
  | none, none => m

inductive Call where
  | booting (cursor : Nat)
  | polled (replica : Nat) (batch : List Change)
  | persisting (replica : Nat) (put : Put)
  | writing (replica : Nat) (put : Put) (sequence : Nat)
  | persisted (replica : Nat) (put : Put) (sequence : Nat)
  | returned
  deriving DecidableEq

def Call.lock : Call → Option (Nat × Key)
  | .persisting replica put | .writing replica put _ | .persisted replica put _ =>
    some (replica, put.key)
  | _ => none

structure World where
  store : Store Key Record
  committed : List (Row Key)
  replicas : List Replica
  calls : List Call

def newWorld : World := ⟨emptyStore, [], [], []⟩

def addCall (w : World) (call : Call) : World := { w with calls := w.calls ++ [call] }
def setCall (w : World) (index : Nat) (call : Call) : World := { w with calls := w.calls.set index call }
def setReplica (w : World) (index : Nat) (replica : Replica) : World :=
  { w with replicas := w.replicas.set index replica }

def stored (store : Store Key Record) : List Record :=
  store.log.filterMap fun row => store.records row.key

def loadChanges (store : Store Key Record) (cursor : Nat) (batchSize : Nat) : List Change :=
  (store.loadChanges cursor batchSize).map fun row => ⟨row, store.records row.key⟩

def batchSize : Nat := 1000

def storedVersion (store : Store Key Record) (key : Key) : Nat :=
  (store.records key).elim 0 Record.version

def unlocked (w : World) (replica : Nat) (key : Key) : Bool :=
  w.calls.all fun call => call.lock ≠ some (replica, key)

inductive Action where
  | boot
  | loadCurrent (call : Nat) (rows : List Record)
  | put (replica : Nat) (record : Record)
  | delete (replica : Nat) (key : Key)
  | write (call : Nat)
  | commit (call : Nat) (answered : Bool)
  | fail (call : Nat)
  | publish (call : Nat)
  | poll (replica : Nat)
  | apply (call : Nat) (count : Nat)

section Steps
variable (operationID : String → String)

/-- What a put may ask for. A keyed operation has the id that is made from its key and keeps
    both; a preview keeps its user, project and host name. -/
def acceptable (before : Option Record) : Record → Bool
  | .operation value =>
    (value.index.all fun index => value.id = operationID index) ∧
      (before.bind Record.operation?).all fun previous => previous.index = value.index
  | .preview value => (before.bind Record.preview?).all fun previous =>
    previous.integrationUserID = value.integrationUserID ∧
      previous.projectID = value.projectID ∧ previous.hostname = value.hostname
  | _ => true

def writeOf (put : Put) (sequence : Nat) : Write Key Record := ⟨⟨sequence, put.key⟩, put.after⟩

def step (w : World) : Action → Option World
  | .boot => some (addCall w (.booting w.store.currentSequence))
  | .loadCurrent index rows =>
    match w.calls[index]? with
    | some (.booting cursor) =>
      if rows.isPerm (stored w.store) then
        some { setCall w index .returned with
          replicas := w.replicas ++ [⟨rows.foldl loadRecord emptyMemory, cursor, w.committed, []⟩] }
      else none
    | _ => none
  | .put index record =>
    match w.replicas[index]? with
    | some replica =>
      let before := replica.memory.records record.key
      if unlocked w index record.key ∧ acceptable operationID before record ∧
          record.version = before.elim 0 Record.version + 1 then
        some (addCall w (.persisting index ⟨record.key, before, some record⟩))
      else none
    | none => none
  | .delete index key =>
    match w.replicas[index]? with
    | some replica =>
      match replica.memory.records key with
      | some before =>
        if unlocked w index key then some (addCall w (.persisting index ⟨key, some before, none⟩))
        else none
      | none => none
    | none => none
  -- a statement that waits for another one's commit looks at the version only then
  | .write index =>
    match w.calls[index]? with
    | some (.persisting replica put) =>
      if storedVersion w.store put.key = put.expected then
        (w.store.write put.key put.after).map fun store =>
          setCall { w with store := store } index (.writing replica put store.issued)
      else if w.store.writing put.key then none
      else some (setCall w index .returned)
    | _ => none
  | .commit index answered =>
    match w.calls[index]? with
    | some (.writing replica put sequence) =>
      if writeOf put sequence ∈ w.store.pending then
        some (setCall { w with
            store := w.store.commit (writeOf put sequence)
            committed := ⟨sequence, put.key⟩ :: w.committed } index
          (if answered then .persisted replica put sequence else .returned))
      else none
    | _ => none
  | .fail index =>
    match w.calls[index]? with
    | some (.persisting _ _) => some (setCall w index .returned)
    | some (.writing _ put sequence) =>
      some (setCall { w with store := w.store.rollback (writeOf put sequence) } index .returned)
    | _ => none
  | .publish index =>
    match w.calls[index]? with
    | some (.persisted replica put _) =>
      (w.replicas[replica]?).map fun r =>
        setCall (setReplica w replica { r with memory := publish r.memory put }) index .returned
    | _ => none
  | .poll index =>
    (w.replicas[index]?).map fun r =>
      let batch := loadChanges w.store r.cursor batchSize
      addCall (setReplica w index (r.given batch)) (.polled index batch)
  -- a refresh that meets an error stops before the end of its batch
  | .apply index count =>
    match w.calls[index]? with
    | some (.polled replica batch) =>
      (w.replicas[replica]?).map fun r =>
        setCall (setReplica w replica ((batch.take count).foldl applyChange r)) index .returned
    | _ => none

inductive Taken (w : World) : Action → World → Prop where
  | booted : Taken w .boot (addCall w (.booting w.store.currentSequence))
  | loaded (index : Nat) (rows : List Record) (cursor : Nat)
      (here : w.calls[index]? = some (.booting cursor)) (all : rows.Perm (stored w.store)) :
      Taken w (.loadCurrent index rows) { setCall w index .returned with
        replicas := w.replicas ++ [⟨rows.foldl loadRecord emptyMemory, cursor, w.committed, []⟩] }
  | began (index : Nat) (record : Record) (r : Replica) (here : w.replicas[index]? = some r)
      (fits : acceptable operationID (r.memory.records record.key) record)
      (version : record.version = (r.memory.records record.key).elim 0 Record.version + 1) :
      Taken w (.put index record)
        (addCall w (.persisting index ⟨record.key, r.memory.records record.key, some record⟩))
  | dropping (index : Nat) (key : Key) (r : Replica) (before : Record)
      (here : w.replicas[index]? = some r) (known : r.memory.records key = some before) :
      Taken w (.delete index key) (addCall w (.persisting index ⟨key, some before, none⟩))
  | wrote (index replica : Nat) (put : Put) (store : Store Key Record)
      (here : w.calls[index]? = some (.persisting replica put))
      (matched : storedVersion w.store put.key = put.expected)
      (written : w.store.write put.key put.after = some store) :
      Taken w (.write index)
        (setCall { w with store := store } index (.writing replica put store.issued))
  | refused (index replica : Nat) (put : Put)
      (here : w.calls[index]? = some (.persisting replica put)) :
      Taken w (.write index) (setCall w index .returned)
  | committed (index : Nat) (answered : Bool) (replica : Nat) (put : Put) (sequence : Nat)
      (here : w.calls[index]? = some (.writing replica put sequence))
      (held : writeOf put sequence ∈ w.store.pending) :
      Taken w (.commit index answered) (setCall { w with
          store := w.store.commit (writeOf put sequence)
          committed := ⟨sequence, put.key⟩ :: w.committed } index
        (if answered then .persisted replica put sequence else .returned))
  | failed (index replica : Nat) (put : Put)
      (here : w.calls[index]? = some (.persisting replica put)) :
      Taken w (.fail index) (setCall w index .returned)
  | rolledBack (index replica : Nat) (put : Put) (sequence : Nat)
      (here : w.calls[index]? = some (.writing replica put sequence)) :
      Taken w (.fail index)
        (setCall { w with store := w.store.rollback (writeOf put sequence) } index .returned)
  | published (index replica : Nat) (put : Put) (sequence : Nat) (r : Replica)
      (here : w.calls[index]? = some (.persisted replica put sequence))
      (there : w.replicas[replica]? = some r) :
      Taken w (.publish index)
        (setCall (setReplica w replica { r with memory := publish r.memory put }) index .returned)
  | polled (index : Nat) (r : Replica) (there : w.replicas[index]? = some r) :
      Taken w (.poll index)
        (addCall (setReplica w index (r.given (loadChanges w.store r.cursor batchSize)))
          (.polled index (loadChanges w.store r.cursor batchSize)))
  | applied (index count replica : Nat) (batch : List Change) (r : Replica)
      (here : w.calls[index]? = some (.polled replica batch))
      (there : w.replicas[replica]? = some r) :
      Taken w (.apply index count)
        (setCall (setReplica w replica ((batch.take count).foldl applyChange r)) index .returned)

theorem step_taken {w next : World} {action : Action} (stepped : step operationID w action = some next) :
    Taken operationID w action next := by
  cases action with
  | boot =>
    cases stepped
    exact .booted
  | loadCurrent index rows =>
    simp only [step] at stepped
    split at stepped <;> try contradiction
    rename_i cursor here
    split at stepped <;> try contradiction
    rename_i all
    cases stepped
    exact .loaded index rows cursor here (List.isPerm_iff.mp all)
  | put index record =>
    simp only [step] at stepped
    split at stepped <;> try contradiction
    rename_i r here
    split at stepped <;> try contradiction
    rename_i checks
    cases stepped
    exact .began index record r here checks.2.1 checks.2.2
  | delete index key =>
    simp only [step] at stepped
    split at stepped <;> try contradiction
    rename_i r here
    split at stepped <;> try contradiction
    rename_i before known
    split at stepped <;> try contradiction
    cases stepped
    exact .dropping index key r before here known
  | write index =>
    simp only [step] at stepped
    split at stepped <;> try contradiction
    rename_i replica put here
    split at stepped
    · rename_i matched
      obtain ⟨store, written, rfl⟩ := Option.map_eq_some_iff.mp stepped
      exact .wrote index replica put store here matched written
    · split at stepped <;> try contradiction
      cases stepped
      exact .refused index replica put here
  | commit index answered =>
    simp only [step] at stepped
    split at stepped <;> try contradiction
    rename_i replica put sequence here
    split at stepped <;> try contradiction
    rename_i held
    cases stepped
    exact .committed index answered replica put sequence here held
  | fail index =>
    simp only [step] at stepped
    split at stepped <;> try contradiction
    · rename_i replica put here
      cases stepped
      exact .failed index replica put here
    · rename_i replica put sequence here
      cases stepped
      exact .rolledBack index replica put sequence here
  | publish index =>
    simp only [step] at stepped
    split at stepped <;> try contradiction
    rename_i replica put sequence here
    obtain ⟨r, there, rfl⟩ := Option.map_eq_some_iff.mp stepped
    exact .published index replica put sequence r here there
  | poll index =>
    obtain ⟨r, there, rfl⟩ := Option.map_eq_some_iff.mp stepped
    exact .polled index r there
  | apply index count =>
    simp only [step] at stepped
    split at stepped <;> try contradiction
    rename_i replica batch here
    obtain ⟨r, there, rfl⟩ := Option.map_eq_some_iff.mp stepped
    exact .applied index count replica batch r here there

end Steps

section Frames
variable {w : World} {index other : Nat} {call found : Call} {r there : Replica}

theorem set_call_cases (member : found ∈ (setCall w index call).calls) : found = call ∨ found ∈ w.calls :=
  (List.mem_or_eq_of_mem_set member).symm

theorem add_call_cases (member : found ∈ (addCall w call).calls) : found = call ∨ found ∈ w.calls := by
  rcases List.mem_append.mp member with old | new
  · exact Or.inr old
  · exact Or.inl (List.mem_singleton.mp new)

theorem set_replica_cases (here : (setReplica w index r).replicas[other]? = some there) :
    (other = index ∧ there = r) ∨ other ≠ index ∧ w.replicas[other]? = some there := by
  simp only [setReplica, List.getElem?_set] at here
  split at here
  · rename_i same
    split at here
    · cases here
      exact Or.inl ⟨same.symm, rfl⟩
    · cases here
  · rename_i different
    exact Or.inr ⟨Ne.symm different, here⟩

theorem append_replica_cases {replicas : List Replica} (here : (replicas ++ [r])[other]? = some there) :
    (other = replicas.length ∧ there = r) ∨ replicas[other]? = some there := by
  rcases Nat.lt_trichotomy other replicas.length with below | same | above
  · exact Or.inr (by rwa [List.getElem?_append_left below] at here)
  · subst same
    rw [List.getElem?_concat_length] at here
    exact Or.inl ⟨rfl, (Option.some.inj here).symm⟩
  · rw [List.getElem?_eq_none (by simp; omega)] at here
    cases here

end Frames

section Quiet
variable {w next : World} {operationID : String → String} {action : Action}

def Action.quiet : Action → Bool
  | .loadCurrent .. | .publish _ | .poll _ | .apply .. => false
  | _ => true

structure Quiet (w next : World) : Prop where
  formed : next.store.WellFormed
  later : w.store.Later next.store
  replicas : next.replicas = w.replicas
  booting : ∀ cursor, .booting cursor ∈ next.calls →
    .booting cursor ∈ w.calls ∨ cursor = w.store.currentSequence
  polled : ∀ index batch, .polled index batch ∈ next.calls → .polled index batch ∈ w.calls
  persisted : ∀ index put sequence, .persisted index put sequence ∈ next.calls →
    .persisted index put sequence ∈ w.calls ∨
      writeOf put sequence ∈ w.store.pending ∧ next.store = w.store.commit (writeOf put sequence)
  committed : ∀ change ∈ next.committed, change ∈ w.committed ∨
    change ∈ next.store.log ∧ ∃ write ∈ w.store.pending, write.row = change

def Call.plain : Call → Bool
  | .polled .. | .persisted .. => false
  | _ => true

theorem quiet_call {call : Call} (formed : next.store.WellFormed) (later : w.store.Later next.store)
    (replicas : next.replicas = w.replicas) (committed : next.committed = w.committed)
    (calls : ∀ found ∈ next.calls, found = call ∨ found ∈ w.calls)
    (booting : ∀ cursor, .booting cursor = call → cursor = w.store.currentSequence)
    (plain : call.plain) : Quiet w next where
  formed := formed
  later := later
  replicas := replicas
  booting cursor member := (calls _ member).symm.imp_right (booting cursor)
  polled index batch member := (calls _ member).resolve_left fun same => by
    subst same
    cases plain
  persisted index put sequence member := .inl <| (calls _ member).resolve_left fun same => by
    subst same
    cases plain
  committed change member := .inl (committed ▸ member)

theorem taken_quiet (formed : w.store.WellFormed) (taken : Taken operationID w action next)
    (quiet : action.quiet) : Quiet w next := by
  cases taken with
  | booted =>
    refine quiet_call formed (later_same _) rfl rfl (fun _ => add_call_cases) ?_ rfl
    rintro cursor ⟨⟩
    rfl
  | began | dropping =>
    exact quiet_call formed (later_same _) rfl rfl (fun _ => add_call_cases) (fun _ absurd => by cases absurd) rfl
  | wrote index replica put store here matched written =>
    exact quiet_call (write_well_formed formed written) (write_later written) rfl rfl
      (fun _ => set_call_cases) (fun _ absurd => by cases absurd) rfl
  | refused | failed =>
    exact quiet_call formed (later_same _) rfl rfl (fun _ => set_call_cases) (fun _ absurd => by cases absurd) rfl
  | rolledBack =>
    exact quiet_call (rollback_well_formed formed _) (rollback_later _ _) rfl rfl
      (fun _ => set_call_cases) (fun _ absurd => by cases absurd) rfl
  | committed index answered replica put sequence here held =>
    refine ⟨commit_well_formed formed held, commit_later formed held, rfl, ?_, ?_, ?_, ?_⟩
    · intro cursor member
      exact .inl ((set_call_cases member).resolve_left (by cases answered <;> nofun))
    · intro other batch member
      exact (set_call_cases member).resolve_left (by cases answered <;> nofun)
    · intro other done number member
      rcases set_call_cases member with new | old
      · cases answered <;> cases new
        exact .inr ⟨held, rfl⟩
      · exact .inl old
    · intro change member
      rcases List.mem_cons.mp member with rfl | old
      · exact .inr ⟨commit_log.mpr (.inl rfl), _, held, rfl⟩
      · exact .inl old
  | loaded | published | polled | applied => cases quiet

end Quiet
end PieRelay.Replicas
