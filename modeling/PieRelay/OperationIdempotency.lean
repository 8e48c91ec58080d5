import PieRelay.OperationLifecycle

/-!
Retries of `BeginOperation`, executor-manager/internal/control/service.go. A retry is
answered from the replica's own maps, or its insert loses against the deterministic id
and it refreshes and looks again. Either way `sameOperationIntent` compares the stored
request with `reflect.DeepEqual`, and the two have not gone through the same hands: a
request that holds anything but what `json.Unmarshal` makes, or an empty map that
`omitempty` drops from the record, is not equal to what it was stored as.
-/
namespace PieRelay.OperationIdempotency
open Function Executions RoomRegistry VersionHistory OperationStore OperationSteps OperationLifecycle List Option

def Plain (request : GoMap) : Prop := omitEmpty (toMap request) = request

variable {stored candidate : Operation}

theorem plain_to_map {request : GoMap} (plain : Plain request) : toMap request = request := by
  cases request with
  | none => rfl
  | some fields =>
    cases fields with
    | nil => simp [Plain, toMap, GoFields.normal, omitEmpty] at plain
    | cons => simpa [Plain, toMap, GoFields.normal, omitEmpty] using plain

def SameIntent (stored candidate : Operation) : Prop :=
  stored.actorUserID = candidate.actorUserID ∧ stored.idempotencyKey = candidate.idempotencyKey ∧
    stored.type = candidate.type ∧ stored.targetKind = candidate.targetKind ∧
    stored.targetID = candidate.targetID ∧ toMap stored.request = toMap candidate.request

def Answers (stored candidate : Operation) (answer : Answer) : Prop :=
  (SameIntent stored candidate → ∃ existing, answer = .duplicate existing ∧
    identity existing = identity stored) ∧
    (¬ SameIntent stored candidate → answer = .conflict)

theorem answers_identity {other : Operation} {answer : Answer}
    (same : identity stored = identity other) (answers : Answers stored candidate answer) :
    Answers other candidate answer := by
  have fields := same
  simp only [identity, Operation.mk.injEq] at fields
  obtain ⟨-, key, actor, type, kind, target, -, -, request, -⟩ := fields
  unfold Answers SameIntent at answers ⊢
  rwa [← key, ← actor, ← type, ← kind, ← target, ← request, ← same]

theorem answer_existing {existing given : Operation}
    (same : identity existing = identity stored) (plainExisting : Plain existing.request)
    (plainGiven : Plain given.request) (request : given.request = candidate.request)
    (actor : given.actorUserID = candidate.actorUserID)
    (key : given.idempotencyKey = candidate.idempotencyKey) (type : given.type = candidate.type)
    (kind : given.targetKind = candidate.targetKind) (target : given.targetID = candidate.targetID) :
    Answers stored candidate (answerExisting existing given) := by
  refine answers_identity same ?_
  have intents : sameOperationIntent existing given ↔ SameIntent existing candidate := by
    unfold sameOperationIntent SameIntent
    rw [decide_eq_true_iff, actor, key, type, kind, target, plain_to_map plainExisting, ← request,
      plain_to_map plainGiven]
  unfold answerExisting
  constructor
  · intro intent
    rw [if_pos (intents.mpr intent)]
    refine ⟨_, rfl, ?_⟩
    simp [identity, cloneOperation, plain_to_map plainExisting]
  · intro other
    rw [if_neg fun held => other (intents.mp held)]

section Replicas

theorem load_cached (replica : Replica) (id other : String) (value : Operation)
    (cached : (replica.operations other).isSome) :
    ((loadRecord replica id value).operations other).isSome := by
  by_cases same : other = id
  · simp [loadRecord, same]
  · simpa [loadRecord, update_of_ne same] using cached

theorem drop_cached (replica : Replica) (id other : String) (value : Operation) (different : other ≠ id)
    (cached : (replica.operations other).isSome) :
    ((dropRecord replica id value).operations other).isSome := by
  simpa [dropRecord, update_of_ne different] using cached

theorem change_cached (replica : Replica) (change : String × Option Operation) (id : String)
    (listed : change ≠ (id, none)) (cached : (replica.operations id).isSome) :
    ((applyChange replica change).operations id).isSome := by
  obtain ⟨row, record⟩ := change
  cases record with
  | none =>
    have different : id ≠ row := by
      rintro rfl
      exact listed rfl
    simp only [applyChange, deleteRecordLocked]
    split
    · exact drop_cached replica row id _ different cached
    · exact cached
  | some value =>
    simp only [applyChange]
    split
    · exact load_cached replica row id value cached
    · exact cached

-- An operation that no row lists as gone stays in the maps, and one that a row lists gets there.
theorem refresh_cached (batch : Batch) (replica : Replica) (id : String) (listed : (id, none) ∉ batch)
    (cached : (replica.operations id).isSome) :
    ((refreshIncremental replica batch).operations id).isSome := by
  induction batch generalizing replica with
  | nil => exact cached
  | cons change rest ih =>
    refine ih (applyChange replica change) (fun later => listed (mem_cons_of_mem _ later)) ?_
    exact change_cached replica change id (fun same => listed (same ▸ mem_cons_self)) cached

theorem refresh_listed (batch : Batch) (replica : Replica) (id : String) (value : Operation)
    (listed : (id, none) ∉ batch) (row : (id, some value) ∈ batch) (positive : 0 < value.version) :
    ((refreshIncremental replica batch).operations id).isSome := by
  induction batch generalizing replica with
  | nil => cases row
  | cons change rest ih =>
    have unlisted : (id, none) ∉ rest := fun later => listed (mem_cons_of_mem _ later)
    rcases mem_cons.mp row with rfl | later
    · refine refresh_cached rest _ id unlisted ?_
      simp only [applyChange]
      split
      · simp [loadRecord]
      · rename_i older
        unfold recordVersionLocked at older
        cases found : replica.operations id with
        | some => rfl
        | none =>
          rw [found] at older
          exact absurd positive older
    · exact ih (applyChange replica change) unlisted later

def Indexed (digest : String → String) (replica : Replica) : Prop :=
  ∀ index id, replica.idempotency index = some id → id = "op-" ++ digest index

variable {digest : String → String}

theorem load_indexed (replica : Replica) (id : String) (value : Operation) (indexed : Indexed digest replica)
    (keyed : value.idempotencyKey ≠ "" → id = idempotentOperationID digest value.actorUserID value.idempotencyKey) :
    Indexed digest (loadRecord replica id value) := by
  intro index other found
  simp only [loadRecord] at found
  split at found
  · exact indexed index other found
  · rename_i key
    by_cases same : index = idempotencyIndex value.actorUserID value.idempotencyKey
    · subst same
      simp only [update_self, some.injEq] at found
      rw [← found]
      exact keyed key
    · rw [update_of_ne same] at found
      exact indexed index other found

theorem drop_indexed (replica : Replica) (id : String) (value : Operation)
    (indexed : Indexed digest replica) : Indexed digest (dropRecord replica id value) := by
  intro index other found
  simp only [dropRecord] at found
  split at found
  · exact indexed index other found
  · by_cases same : index = idempotencyIndex value.actorUserID value.idempotencyKey
    · subst same
      simp at found
    · rw [update_of_ne same] at found
      exact indexed index other found

theorem refresh_indexed (batch : Batch) (replica : Replica) (indexed : Indexed digest replica)
    (keyed : ∀ id value, (id, some value) ∈ batch → value.idempotencyKey ≠ "" →
      id = idempotentOperationID digest value.actorUserID value.idempotencyKey) :
    Indexed digest (refreshIncremental replica batch) := by
  induction batch generalizing replica with
  | nil => exact indexed
  | cons change rest ih =>
    refine ih (applyChange replica change) ?_ fun id value later =>
      keyed id value (mem_cons_of_mem _ later)
    obtain ⟨row, record⟩ := change
    cases record with
    | none =>
      simp only [applyChange, deleteRecordLocked]
      split
      · exact drop_indexed replica row _ indexed
      · exact indexed
    | some value =>
      simp only [applyChange]
      split
      · exact load_indexed replica row value indexed (keyed row value mem_cons_self)
      · exact indexed

theorem new_replica_indexed (w : World) (keyed : ∀ id value, w.records id = some value → value.idempotencyKey ≠ "" →
      id = idempotentOperationID digest value.actorUserID value.idempotencyKey) :
    Indexed digest (newReplica w) := by
  have folded : ∀ (rows : List String) (replica : Replica), Indexed digest replica →
      Indexed digest ((snapshot w rows).foldl loadRow replica) := by
    intro rows
    induction rows with
    | nil => exact fun _ indexed => indexed
    | cons row rest ih =>
      intro replica indexed
      refine ih _ ?_
      unfold loadRow
      dsimp only
      cases found : w.records row with
      | none => exact indexed
      | some value => exact load_indexed replica row value indexed (keyed row value found)
  refine folded w.log emptyReplica ?_
  intro index id found
  cases found

end Replicas

section Steps
variable {digest : String → String}

def batchOf : Call → Batch
  | .refreshing _ batch => batch
  | .syncing _ batch => batch
  | _ => []

inductive ReplicaChange (w next : World) : Prop where
  | same (replicas : next.replicas = w.replicas) : ReplicaChange w next
  | booted (replicas : next.replicas = w.replicas ++ [newReplica w]) : ReplicaChange w next
  | loaded (index : Nat) (maps : Replica) (id : String) (value : Operation)
      (here : w.replicas[index]? = some maps) (view : View w id value)
      (replicas : next.replicas = w.replicas.set index (loadRecord maps id value)) : ReplicaChange w next
  | refreshed (index : Nat) (maps : Replica) (call : Call) (here : w.replicas[index]? = some maps)
      (member : call ∈ w.calls)
      (replicas : next.replicas = w.replicas.set index (refreshIncremental maps (batchOf call))) :
      ReplicaChange w next
  | overwritten (index : Nat) (maps : Replica) (id : String) (value : Operation)
      (here : w.replicas[index]? = some maps)
      (replicas : next.replicas = w.replicas.set index
        { maps with operations := update maps.operations id (some value) }) : ReplicaChange w next
  | dropped (index replica : Nat) (maps : Replica) (id : String) (current : Operation)
      (here : w.replicas[index]? = some maps) (member : .pruned replica id current ∈ w.calls)
      (replicas : next.replicas = w.replicas.set index (dropRecord maps id current)) :
      ReplicaChange w next

variable {w next : World} {action : Action} {id : String} {value : Operation} {call : Call}

theorem step_replica_change (w : World) (action : Action) (next : World)
    (stepped : step digest w action = some next) : ReplicaChange w next := by
  cases step_taken digest stepped with
  | booted => exact .booted rfl
  | begun | synced | ticked | updating | pruning => exact .same rfl
  | loaded | unanswered | lookedUp | claimed | succeeded | failed => exact .same rfl
  | inserted index reply call =>
    obtain ⟨after, moved, -⟩ := insert_moves w index call reply
    exact .same moved.replicas
  | remembered index call maps waiting here =>
    exact .loaded _ maps _ _ here (held_view waiting (mem_singleton.mpr rfl)) rfl
  | applied _ _ _ _ maps waiting here | refreshed _ _ _ _ maps waiting here =>
    exact .refreshed _ maps _ here (mem_of_getElem? waiting) rfl
  | wrote index reply replica id before value claim =>
    obtain ⟨after, moved, -⟩ := write_moves w index replica id before value claim reply
    exact .same moved.replicas
  | stored index replica id value claim maps waiting here => exact .overwritten _ maps _ _ here rfl
  | removed index reply replica id current =>
    obtain ⟨after, moved, -⟩ := remove_moves w index replica id current reply
    exact .same moved.replicas
  | forgot index replica id current maps waiting here =>
    exact .dropped _ _ maps _ _ here (mem_of_getElem? waiting) rfl

def Still (w : World) (call : Begin) (stored : Operation) : Prop :=
  call.found = some (w.incarnation call.operation.id) ∧ w.records call.operation.id = some stored

structure BeginOk (incarnation : String → Nat) (call : Begin) : Prop where
  request : call.operation.request = call.candidate.request
  plain : Plain call.operation.request
  found : ∀ earlier, call.found = some earlier → earlier ≤ incarnation call.operation.id

def BatchOk (w : World) (batch : Batch) : Prop := ∀ id, (id, none) ∈ batch → w.records id = none

def CallOk (w : World) : Call → Prop
  | .inserting call => BeginOk w.incarnation call
  | .inserted call => BeginOk w.incarnation call ∧ ∀ incarnation, call.found = some incarnation →
      incarnation < w.incarnation call.operation.id
  | .conflicted call => BeginOk w.incarnation call
  | .refreshing call batch => BeginOk w.incarnation call ∧ BatchOk w batch
  | .refreshed call => BeginOk w.incarnation call ∧ ∀ stored, Still w call stored →
      ∃ maps, w.replicas[call.replica]? = some maps ∧
        (maps.operations call.operation.id).isSome
  | .answered call answer => BeginOk w.incarnation call ∧ (call.candidate.idempotencyKey ≠ "" →
      validOperation call.operation → answer ≠ .failed →
      ∀ stored, Still w call stored → Answers stored call.candidate answer)
  | .syncing _ batch => BatchOk w batch
  | .pruned _ id _ => w.records id = none
  | _ => True

structure Retries (digest : String → String) (w : World) : Prop where
  calls : ∀ call ∈ w.calls, CallOk w call
  indexed : ∀ maps ∈ w.replicas, Indexed digest maps
  plain : ∀ id value, View w id value → Plain value.request

/-- Requests are what JSON makes of them, a pruned id comes back only when it is forgotten, and the
    refresh of a lost insert gets to the row of the insert that won. -/
def Repeatable (w : World) : Action → Prop
  | .beginOperation _ candidate _ _ => Plain candidate.request
  | .insert index _ => ∀ call, w.calls[index]? = some (.inserting call) →
      w.records call.operation.id = none →
      (w.incarnation call.operation.id = 0 ∨ ∀ value, ¬ View w call.operation.id value) ∧
        ∀ other ∈ w.calls, (call.operation.id, none) ∉ batchOf other
  | .apply index false => ∀ call batch, w.calls[index]? = some (.refreshing call batch) →
      (∃ record, (call.operation.id, record) ∈ batch) ∨ ∃ maps, w.replicas[call.replica]? = some maps ∧
        (maps.operations call.operation.id).isSome
  | _ => True

theorem repeatable_renewed (repeatable : Repeatable w action) : Renewed w action := by
  cases action with
  | insert => exact fun call waiting vacant => (repeatable call waiting vacant).1
  | _ => trivial

section
variable (consistent : Consistent digest w)
include consistent

theorem view_identity {seen : Operation} (view : View w id seen) (plain : Plain seen.request)
    (found : w.records id = some stored) : identity seen = identity stored := by
  obtain ⟨older, split⟩ := consistent.stored id stored found
  have lived := history_lived consistent (stored_member consistent found)
  have member := consistent.views id seen view
  rw [split] at lived member
  have same := history_to_head (fun a b : Operation => identity a = identity b) (fun _ => rfl)
    (fun _ _ _ left right => left.trans right) (fun _ _ linked => linked.same.symm) lived _ member
  rw [← same]
  simp only [identity, encode]
  rw [plain]

theorem member_keyed (member : value ∈ w.history id) (key : value.idempotencyKey ≠ "") :
    id = idempotentOperationID digest value.actorUserID value.idempotencyKey := by
  refine history_all (fun value : Operation => value.idempotencyKey ≠ "" →
    id = idempotentOperationID digest value.actorUserID value.idempotencyKey)
    (fun _ created => created.keyed) ?_ (history_lived consistent member) value member key
  intro previous value linked earlier key
  have same := linked.same
  simp only [identity, Operation.mk.injEq] at same
  rw [same.2.1] at key
  rw [same.2.1, same.2.2.1]
  exact earlier key

theorem view_keyed (view : View w id value) (key : value.idempotencyKey ≠ "") :
    id = idempotentOperationID digest value.actorUserID value.idempotencyKey := by
  have keyed := member_keyed consistent (consistent.views id value view)
  exact keyed key

theorem view_positive (view : View w id value) : 0 < value.version := by
  have member := consistent.views id value view
  have positive := version_positive (history_lived consistent member) _ member
  exact positive

end

theorem batch_view (member : call ∈ w.calls) (row : (id, some value) ∈ batchOf call) : View w id value := by
  refine Or.inr ⟨call, member, ?_⟩
  cases call with
  | refreshing | syncing => exact holds_batch row
  | _ => cases row

theorem call_batch_ok (ok : CallOk w call) : BatchOk w (batchOf call) := by
  cases call with
  | refreshing => exact ok.2
  | syncing => exact ok
  | _ =>
    intro id row
    cases row

theorem set_replica_here {index other : Nat} {maps after : Replica} (here : w.replicas[index]? = some maps)
    (replicas : next.replicas = w.replicas.set other after) :
    next.replicas[index]? = some (if other = index then after else maps) := by
  have bound : index < w.replicas.length := (List.getElem?_eq_some_iff.mp here).1
  rw [replicas, getElem?_set]
  split
  · rename_i same
    subst same
    simp [bound]
  · exact here

-- A stored operation does not leave the maps it is in.
theorem step_cached (retries : Retries digest w)
    (stepped : step digest w action = some next) {index : Nat} {maps : Replica}
    (here : w.replicas[index]? = some maps) (cached : (maps.operations id).isSome) (found : w.records id = some stored) :
    ∃ after, next.replicas[index]? = some after ∧ (after.operations id).isSome := by
  have kept : ∀ (other : Nat) (changed : Replica), next.replicas = w.replicas.set other changed →
      (∀ old, w.replicas[other]? = some old → (old.operations id).isSome → (changed.operations id).isSome) →
      ∃ after, next.replicas[index]? = some after ∧ (after.operations id).isSome := by
    intro other changed replicas still
    refine ⟨_, set_replica_here here replicas, ?_⟩
    split
    · rename_i same
      subst same
      exact still maps here cached
    · exact cached
  cases step_replica_change w action next stepped with
  | same replicas => exact ⟨maps, replicas ▸ here, cached⟩
  | booted replicas =>
    refine ⟨maps, ?_, cached⟩
    rw [replicas, List.getElem?_append_left (List.getElem?_eq_some_iff.mp here).1]
    exact here
  | loaded other old name value there view replicas =>
    refine kept other _ replicas fun maps same known => ?_
    cases there.symm.trans same
    exact load_cached old name id value known
  | refreshed other old call there member replicas =>
    refine kept other _ replicas fun maps same known => ?_
    cases there.symm.trans same
    refine refresh_cached _ old id (fun row => ?_) known
    have gone := call_batch_ok (retries.calls call member) id row
    rw [found] at gone
    cases gone
  | overwritten other old name value there replicas =>
    refine kept other _ replicas fun maps same known => ?_
    cases there.symm.trans same
    by_cases mine : id = name
    · simp [mine]
    · simpa [update_of_ne mine] using known
  | dropped other replica old name current there member replicas =>
    refine kept other _ replicas fun maps same known => ?_
    cases there.symm.trans same
    have gone : w.records name = none := retries.calls _ member
    refine drop_cached old name id current ?_ known
    rintro rfl
    rw [found] at gone
    cases gone

theorem step_indexed (consistent : Consistent digest w)
    (retries : Retries digest w) (stepped : step digest w action = some next) :
    ∀ maps ∈ next.replicas, Indexed digest maps := by
  have kept : ∀ (other : Nat) (changed : Replica), next.replicas = w.replicas.set other changed →
      Indexed digest changed → ∀ maps ∈ next.replicas, Indexed digest maps := by
    intro other changed replicas indexed maps member
    rw [replicas] at member
    rcases mem_or_eq_of_mem_set member with old | rfl
    · exact retries.indexed maps old
    · exact indexed
  cases step_replica_change w action next stepped with
  | same replicas =>
    rw [replicas]
    exact retries.indexed
  | booted replicas =>
    intro maps member
    rw [replicas] at member
    rcases mem_append.mp member with old | new
    · exact retries.indexed maps old
    · rw [mem_singleton.mp new]
      exact new_replica_indexed w fun id value found =>
        member_keyed consistent (stored_member consistent found)
  | loaded other old name value there view replicas =>
    exact kept other _ replicas (load_indexed old name value
      (retries.indexed old (mem_of_getElem? there)) (view_keyed consistent view))
  | refreshed other old call there member replicas =>
    refine kept other _ replicas (refresh_indexed _ old
      (retries.indexed old (mem_of_getElem? there)) fun id value row => ?_)
    exact view_keyed consistent (batch_view member row)
  | overwritten other old name value there replicas =>
    exact kept other _ replicas (retries.indexed old (mem_of_getElem? there))
  | dropped other replica old name current there member replicas =>
    exact kept other _ replicas (drop_indexed old name current (retries.indexed old (mem_of_getElem? there)))

theorem step_plain (formed : WellFormed digest w) (consistent : Consistent digest w) (retries : Retries digest w)
    (stepped : step digest w action = some next) : ∀ id value, View next id value → Plain value.request := by
  intro id value view
  cases step_change digest w action next stepped with
  | quiet _ _ _ _ views =>
    rcases views id value view with old | found
    · exact retries.plain id value old
    · have encoded := stored_encoded consistent found
      simp only [encode] at encoded
      exact congrArg Operation.request encoded
  | created index reply call waiting _ _ _ _ views =>
    rcases views id value view with old | ⟨_, rfl⟩
    · exact retries.plain id value old
    · have ok : BeginOk w.incarnation call := retries.calls _ (mem_of_getElem? waiting)
      exact ok.plain
  | replaced index reply replica other before after stored claim waiting _ _ _ _ _ views =>
    rcases views id value view with old | ⟨_, rfl⟩
    · exact retries.plain id value old
    · obtain ⟨_, status, progress, result, error, now, _, rfl⟩ :=
        formed _ (mem_of_getElem? waiting)
      exact retries.plain other before (held_view waiting (mem_singleton.mpr rfl))
  | removed _ _ _ _ _ _ _ _ _ _ _ _ views => exact retries.plain id value (views id value view)

theorem still_back (formed : WellFormed digest w)
    (consistent : Consistent digest w) (stepped : step digest w action = some next) {call : Begin}
    (ok : BeginOk w.incarnation call) (still : Still next call stored) :
    ∃ earlier, Still w call earlier ∧ identity earlier = identity stored := by
  have grown := (step_grown w action next stepped call.operation.id).1
  have bound := ok.found _ still.1
  have same : next.incarnation call.operation.id = w.incarnation call.operation.id := by omega
  have found : call.found = some (w.incarnation call.operation.id) := same ▸ still.1
  have there := still.2
  cases step_change digest w action next stepped with
  | quiet _ records => exact ⟨stored, ⟨found, records ▸ there⟩, rfl⟩
  | created index reply other _ _ records _ incarnation =>
    have different : call.operation.id ≠ other.operation.id := by
      intro mine
      rw [incarnation, mine, update_self] at same
      omega
    rw [records, update_of_ne different] at there
    exact ⟨stored, ⟨found, there⟩, rfl⟩
  | replaced index reply replica id before after old claim waiting known version records =>
    by_cases mine : call.operation.id = id
    · obtain ⟨running, status, progress, result, error, now, left, rfl⟩ :=
        formed _ (mem_of_getElem? waiting)
      have linked := advance_linked before status progress result error now running left
      have view : View w id before := held_view waiting (mem_singleton.mpr rfl)
      have replaced := view_of_version consistent view known version
      rw [records, mine, update_self, some.injEq] at there
      refine ⟨old, ⟨found, mine ▸ known⟩, ?_⟩
      rw [replaced, ← there, linked.same]
    · rw [records, update_of_ne mine] at there
      exact ⟨stored, ⟨found, there⟩, rfl⟩
  | removed index reply replica id current old _ _ _ records =>
    by_cases mine : call.operation.id = id
    · rw [records, mine, update_self] at there
      cases there
    · rw [records, update_of_ne mine] at there
      exact ⟨stored, ⟨found, there⟩, rfl⟩

-- What is not stored stays so, unless an insert creates it.
theorem step_absent (stepped : step digest w action = some next) (absent : w.records id = none)
    (unlisted : ∀ index reply call, action = .insert index reply →
      w.calls[index]? = some (.inserting call) → w.records call.operation.id = none →
      id ≠ call.operation.id) : next.records id = none := by
  cases step_change digest w action next stepped with
  | quiet _ records => rw [records, absent]
  | created index reply call waiting vacant records =>
    rw [records, update_of_ne (unlisted index reply call rfl waiting vacant), absent]
  | replaced index reply replica other before after stored claim _ found _ records =>
    have different : id ≠ other := by
      rintro rfl
      rw [absent] at found
      cases found
    rw [records, update_of_ne different, absent]
  | removed index reply replica other current stored _ _ _ records =>
    by_cases mine : id = other
    · rw [records, mine, update_self]
    · rw [records, update_of_ne mine, absent]

theorem call_kept (repeatable : Repeatable w action)
    (formed : WellFormed digest w) (consistent : Consistent digest w) (retries : Retries digest w)
    (stepped : step digest w action = some next) (member : call ∈ w.calls) : CallOk next call := by
  have ok := retries.calls call member
  have begun : ∀ begun, BeginOk w.incarnation begun → BeginOk next.incarnation begun := by
    intro begun held
    refine ⟨held.request, held.plain, fun incarnation found => ?_⟩
    exact Nat.le_trans (held.found incarnation found) (step_grown w action next stepped _).1
  have batch : BatchOk next (batchOf call) := by
    intro id row
    refine step_absent stepped (call_batch_ok ok id row) ?_
    rintro index reply other rfl waiting vacant rfl
    exact (repeatable other waiting vacant).2 call member row
  cases call with
  | inserting call | conflicted call => exact begun call ok
  | inserted call =>
    refine ⟨begun call ok.1, fun incarnation found => ?_⟩
    exact Nat.lt_of_lt_of_le (ok.2 incarnation found) (step_grown w action next stepped _).1
  | refreshing call => exact ⟨begun call ok.1, batch⟩
  | refreshed call =>
    refine ⟨begun call ok.1, fun stored still => ?_⟩
    obtain ⟨earlier, before, _⟩ := still_back formed consistent stepped ok.1 still
    obtain ⟨maps, here, cached⟩ := ok.2 earlier before
    exact step_cached retries stepped here cached before.2
  | answered call =>
    refine ⟨begun call ok.1, fun key valid replied stored still => ?_⟩
    obtain ⟨earlier, before, same⟩ := still_back formed consistent stepped ok.1 still
    exact answers_identity same (ok.2 key valid replied earlier before)
  | syncing => exact batch
  | pruned replica id current =>
    refine step_absent stepped ok ?_
    rintro index reply other rfl waiting vacant rfl
    have view : View w other.operation.id current := Or.inr ⟨_, member, mem_singleton.mpr rfl⟩
    rcases (repeatable other waiting vacant).1 with zero | unseen
    · have known := consistent.views _ current view
      rw [consistent.fresh _ zero] at known
      cases known
    · exact unseen current view
  | _ => trivial

theorem read_update_ok (w : World) (replica : Replica) (index : Nat) (id : String) (status : Status)
    (progress : Int) (result : GoMap) (error : String) (now : Time) (claim : Bool) :
    CallOk w (readUpdate replica index id status progress result error now claim) := by
  unfold readUpdate
  split
  · trivial
  · split
    · trivial
    · split <;> trivial

theorem existing_cached {replica : Replica} {existing : Operation}
    (indexed : Indexed digest replica) (found : existingOperation replica candidate = some existing) :
    candidate.idempotencyKey ≠ "" ∧ replica.operations (idempotentOperationID digest
      candidate.actorUserID candidate.idempotencyKey) = some existing := by
  unfold existingOperation at found
  split at found
  · cases found
  · rename_i key
    obtain ⟨id, looked, cached⟩ := bind_eq_some_iff.mp found
    have same := indexed _ id looked
    subst same
    exact ⟨key, cached⟩

theorem begin_ok (w : World) (index : Nat) (replica : Replica) (candidate : Operation)
    (randomID : String) (now : Time) (here : w.replicas[index]? = some replica)
    (plain : Plain candidate.request) (consistent : Consistent digest w) (retries : Retries digest w) :
    CallOk w (beginOperation digest w index replica candidate randomID now) := by
  have ok : ∀ found, (found = if (w.records (newOperation digest candidate randomID now).id).isSome
      then some (w.incarnation (newOperation digest candidate randomID now).id) else none) →
      BeginOk w.incarnation ⟨index, candidate, newOperation digest candidate randomID now, found⟩ := by
    rintro found rfl
    refine ⟨plain_to_map plain, ?_, fun incarnation same => ?_⟩
    · have request : (newOperation digest candidate randomID now).request = candidate.request :=
        plain_to_map plain
      rw [request]
      exact plain
    · dsimp only at same
      split at same
      · cases same
        exact Nat.le_refl _
      · cases same
  unfold beginOperation
  dsimp only
  split
  · rename_i existing known
    refine ⟨ok _ rfl, fun _ _ _ stored still => ?_⟩
    obtain ⟨key, cached⟩ :=
      existing_cached (retries.indexed replica (mem_of_getElem? here)) known
    have view := cached_view here cached
    have plainExisting := retries.plain _ existing view
    have there : w.records (idempotentOperationID digest candidate.actorUserID
        candidate.idempotencyKey) = some stored := by
      have named := still.2
      simp only [newOperation, ne_eq, key, not_false_eq_true, if_true] at named
      exact named
    exact answer_existing (view_identity consistent view plainExisting there) plainExisting plain rfl
      rfl rfl rfl rfl rfl
  · split
    · exact ok _ rfl
    · rename_i invalid
      exact ⟨ok _ rfl, fun _ valid => absurd valid invalid⟩

theorem insert_ok (w : World) (index : Nat) (call : Begin) (reply : StoreReply)
    (made : ∃ randomID now, call.operation = newOperation digest call.candidate randomID now)
    (ok : BeginOk w.incarnation call) :
    ∃ after, (insertOperation w index call reply).calls = w.calls.set index after ∧
      CallOk (insertOperation w index call reply) after := by
  have failing : ∀ next : World, BeginOk next.incarnation call → CallOk next (.answered call .failed) :=
    fun _ held => ⟨held, fun _ _ replied => absurd rfl replied⟩
  have grown : BeginOk (createRecord w call.operation.id call.operation).incarnation call := by
    refine ⟨ok.request, ok.plain, fun incarnation found => ?_⟩
    have bound := ok.found incarnation found
    simp only [createRecord, update_self]
    omega
  unfold insertOperation
  split
  · exact ⟨_, rfl, failing _ ok⟩
  · exact ⟨_, rfl, failing _ grown⟩
  · exact ⟨_, rfl, failing _ ok⟩
  · refine ⟨_, rfl, grown, fun incarnation found => ?_⟩
    have bound := ok.found incarnation found
    simp only [setCall, createRecord, update_self]
    omega
  · split
    · rename_i unkeyed
      refine ⟨_, rfl, ok, fun key => ?_⟩
      obtain ⟨randomID, now, same⟩ := made
      rw [same] at unkeyed
      exact absurd unkeyed key
    · refine ⟨_, rfl, ok.request, ok.plain, fun incarnation found => ?_⟩
      cases known : call.found with
      | some earlier =>
        simp only [known, or_some, some.injEq] at found
        exact found ▸ ok.found earlier known
      | none =>
        simp only [known, none_or, some.injEq] at found
        exact Nat.le_of_eq found.symm

theorem lookup_ok (w : World) (call : Begin) (maps : Replica) (here : w.replicas[call.replica]? = some maps)
    (made : ∃ randomID now, call.operation = newOperation digest call.candidate randomID now)
    (consistent : Consistent digest w) (retries : Retries digest w) (ok : CallOk w (.refreshed call)) :
    CallOk w (.answered call (match maps.operations call.operation.id with
      | some existing => answerExisting existing call.operation
      | none => .conflict)) := by
  refine ⟨ok.1, fun _ _ _ stored still => ?_⟩
  obtain ⟨known, there, cached⟩ := ok.2 stored still
  cases here.symm.trans there
  obtain ⟨existing, found⟩ := isSome_iff_exists.mp cached
  have view := cached_view here found
  have plainExisting := retries.plain _ existing view
  obtain ⟨randomID, now, same⟩ := made
  rw [found]
  refine answer_existing (view_identity consistent view plainExisting still.2) plainExisting ok.1.plain
    ok.1.request ?_ ?_ ?_ ?_ ?_ <;> rw [same] <;> rfl

theorem apply_ok (w : World) (index : Nat) (call : Begin) (batch : Batch) (maps : Replica)
    (here : w.replicas[call.replica]? = some maps)
    (waiting : w.calls[index]? = some (.refreshing call batch))
    (reached : (∃ record, (call.operation.id, record) ∈ batch) ∨ ∃ maps, w.replicas[call.replica]? = some maps ∧
        (maps.operations call.operation.id).isSome)
    (consistent : Consistent digest w) (ok : CallOk w (.refreshing call batch)) (after : Call) :
    CallOk (setCall (setReplica w call.replica (refreshIncremental maps batch)) index after) (.refreshed call) := by
  refine ⟨⟨ok.1.request, ok.1.plain, ok.1.found⟩, fun stored still => ?_⟩
  have found : w.records call.operation.id = some stored := still.2
  have unlisted : (call.operation.id, none) ∉ batch := by
    intro row
    have gone := ok.2 _ row
    rw [found] at gone
    cases gone
  have bound : call.replica < w.replicas.length := (List.getElem?_eq_some_iff.mp here).1
  refine ⟨refreshIncremental maps batch, ?_, ?_⟩
  · simp [setCall, setReplica, bound]
  · rcases reached with ⟨record, row⟩ | ⟨known, there, cached⟩
    · cases record with
      | none => exact absurd row unlisted
      | some value =>
        have view : View w call.operation.id value := batch_view (mem_of_getElem? waiting) row
        exact refresh_listed batch maps _ value unlisted row (view_positive consistent view)
    · cases here.symm.trans there
      exact refresh_cached batch maps _ unlisted cached

theorem step_calls (w : World) (action : Action) (next : World) (repeatable : Repeatable w action)
    (formed : WellFormed digest w) (consistent : Consistent digest w) (retries : Retries digest w)
    (stepped : step digest w action = some next) : ∀ call ∈ next.calls, CallOk next call := by
  have old : ∀ call ∈ w.calls, CallOk next call := fun call member =>
    call_kept repeatable formed consistent retries stepped member
  have moved : ∀ (index : Nat) (after : Call), next.calls = w.calls.set index after →
      CallOk next after → ∀ call ∈ next.calls, CallOk next call := by
    intro index after calls ok call member
    rw [calls] at member
    rcases mem_or_eq_of_mem_set member with known | rfl
    · exact old call known
    · exact ok
  have added : ∀ fresh : List Call, next.calls = w.calls ++ fresh → (∀ call ∈ fresh, CallOk next call) →
      ∀ call ∈ next.calls, CallOk next call := by
    intro fresh calls ok call member
    rw [calls] at member
    rcases mem_append.mp member with known | new
    · exact old call known
    · exact ok call new
  have single : ∀ fresh : Call, CallOk next fresh → ∀ call ∈ [fresh], CallOk next call := by
    intro fresh ok call member
    rwa [mem_singleton.mp member]
  have known : ∀ (index : Nat) (call : Call), w.calls[index]? = some call →
      call.wellFormed digest ∧ CallOk w call := fun index call waiting =>
    ⟨formed call (mem_of_getElem? waiting), retries.calls call (mem_of_getElem? waiting)⟩
  cases step_taken digest stepped with
  | booted => exact old
  | begun index candidate randomID now maps here =>
    exact added _ rfl (single _ (begin_ok w index maps candidate randomID now here repeatable consistent retries))
  | synced => exact added _ rfl (single _ fun id row => snapshot_stored row)
  | ticked =>
    refine added _ rfl ?_
    intro call member
    obtain ⟨id, _, rfl⟩ := mem_map.mp member
    trivial
  | updating =>
    exact added _ rfl (single _ (read_update_ok _ _ _ _ _ _ _ _ _ _))
  | pruning => exact added _ rfl (single _ trivial)
  | inserted index reply call waiting =>
    obtain ⟨made, ok⟩ := known index _ waiting
    obtain ⟨after, calls, good⟩ := insert_ok w index call reply made ok
    exact moved index after calls good
  | remembered index call maps waiting =>
    obtain ⟨made, ok⟩ := known index _ waiting
    refine moved index _ rfl ⟨ok.1, fun _ _ _ stored still => ?_⟩
    exact absurd (ok.2 _ still.1) (Nat.lt_irrefl _)
  | loaded index rows call waiting =>
    exact moved index _ rfl ⟨(known index _ waiting).2, fun id row => snapshot_stored row⟩
  | unanswered index rows call waiting =>
    exact moved index _ rfl ⟨(known index _ waiting).2, fun _ _ replied => absurd rfl replied⟩
  | applied index more call batch maps waiting here =>
    obtain ⟨made, ok⟩ := known index _ waiting
    refine moved index _ rfl ?_
    cases more with
    | true => exact ok.1
    | false =>
      exact apply_ok w index call batch maps here waiting (repeatable call batch waiting) consistent ok _
  | refreshed index => exact moved index _ rfl trivial
  | lookedUp index call maps waiting here =>
    obtain ⟨made, ok⟩ := known index _ waiting
    exact moved index _ rfl (lookup_ok w call maps here made consistent retries ok)
  | claimed index | succeeded index | failed index =>
    exact moved index _ rfl (read_update_ok _ _ _ _ _ _ _ _ _ _)
  | wrote index reply replica id before value claim =>
    obtain ⟨after, shifted, kinds⟩ := write_moves w index replica id before value claim reply
    refine moved index after shifted.calls ?_
    rcases kinds with rfl | ⟨rfl, -⟩ <;> trivial
  | stored index replica id value claim =>
    refine moved index _ rfl ?_
    cases claim <;> trivial
  | removed index reply replica id current =>
    obtain ⟨after, shifted, kinds⟩ := remove_moves w index replica id current reply
    refine moved index after shifted.calls ?_
    rcases kinds with rfl | ⟨rfl, gone⟩
    · trivial
    · exact gone
  | forgot index => exact moved index _ rfl trivial

def Remembering (digest : String → String) (w : World) : Prop :=
  (WellFormed digest w ∧ Consistent digest w) ∧ Retries digest w

theorem step_remembering (w : World) (action : Action) (next : World)
    (repeatable : Repeatable w action) (held : Remembering digest w)
    (stepped : step digest w action = some next) : Remembering digest next := by
  obtain ⟨⟨formed, consistent⟩, retries⟩ := held
  refine ⟨step_consistent w action next (repeatable_renewed repeatable) ⟨formed, consistent⟩ stepped, ?_⟩
  exact ⟨step_calls w action next repeatable formed consistent retries stepped,
    step_indexed consistent retries stepped, step_plain formed consistent retries stepped⟩

theorem new_remembering : Remembering digest newWorld := by
  refine ⟨⟨?_, new_consistent⟩, ?_, ?_, ?_⟩
  · intro call member
    cases member
  · intro call member
    cases member
  · intro maps member
    cases member
  · intro id value view
    have empty : Consistent digest newWorld := new_consistent
    have known := empty.views id value view
    cases known

end Steps

/-- Over every interleaving of replicas in which requests are plain, a refresh after a lost insert
    reaches the winner's row and a pruned id comes back only when it is forgotten: a retry that found
    an operation stored and is answered while that operation is still there gets the operation as a
    duplicate if its intent is the same and a conflict if it is not, unless it is malformed or the
    store fails. And an actor's key names one stored operation. -/
theorem begin_operation_idempotent (digest : String → String) (actions : List Action) (w : World)
    (repeatable : Guarded (step digest) Repeatable newWorld actions)
    (ran : run (step digest) newWorld actions = some w) :
    (∀ (call : Begin) (answer : Answer) (stored : Operation), .answered call answer ∈ w.calls →
      call.candidate.idempotencyKey ≠ "" → validOperation call.operation → answer ≠ .failed →
      call.found = some (w.incarnation call.operation.id) → w.records call.operation.id = some stored →
      Answers stored call.candidate answer) ∧
    ∀ id other value second, w.records id = some value → w.records other = some second →
      value.idempotencyKey ≠ "" → value.actorUserID = second.actorUserID →
      value.idempotencyKey = second.idempotencyKey → id = other := by
  obtain ⟨⟨_, consistent⟩, retries⟩ :=
    guarded_run_invariant (Remembering digest) step_remembering repeatable ran new_remembering
  constructor
  · intro call answer stored member key valid replied found there
    exact (retries.calls _ member).2 key valid replied stored ⟨found, there⟩
  · intro id other value second found there key actor same
    have first := member_keyed consistent (stored_member consistent found) key
    have last := member_keyed consistent (stored_member consistent there) (same ▸ key)
    rw [first, last, actor, same]

def repeatableCheck (w : World) : Action → Bool
  | .beginOperation _ candidate _ _ => omitEmpty (toMap candidate.request) = candidate.request
  | .insert index _ =>
    match w.calls[index]? with
    | some (.inserting call) => (w.records call.operation.id).isSome ||
        (w.incarnation call.operation.id == 0 &&
          w.calls.all fun other => (batchOf other).all fun row => row != (call.operation.id, none))
    | _ => true
  | .apply index false =>
    match w.calls[index]? with
    | some (.refreshing call batch) => batch.any fun row => row.1 == call.operation.id
    | _ => true
  | _ => true

theorem repeatable_check (w : World) (action : Action) (passed : repeatableCheck w action) : Repeatable w action := by
  cases action with
  | beginOperation index candidate =>
    have plain : omitEmpty (toMap candidate.request) = candidate.request := of_decide_eq_true passed
    exact plain
  | insert =>
    intro call waiting vacant
    simp only [repeatableCheck, waiting, vacant, Option.isSome_none, Bool.false_or, Bool.and_eq_true,
      beq_iff_eq, List.all_eq_true] at passed
    refine ⟨Or.inl passed.1, fun other member row => ?_⟩
    have different := passed.2 other member _ row
    simp at different
  | apply index more =>
    cases more with
    | true => trivial
    | false =>
      intro call batch waiting
      simp only [repeatableCheck, waiting, List.any_eq_true, beq_iff_eq] at passed
      obtain ⟨⟨id, record⟩, row, rfl⟩ := passed
      exact Or.inl ⟨record, row⟩
  | _ => trivial

def boxRetried : List Action :=
  [.boot, .boot, .beginOperation 0 stopBox "" 10, .insert 0 .ok, .remember 0,
    .beginOperation 1 stopBox "" 20, .insert 1 .ok, .load 1 [boxID] true, .apply 1 false, .lookup 1]

theorem begin_operation_idempotent_retry : ∃ w call answer stored, run (step boxDigest) newWorld boxRetried = some w ∧
      w.calls[1]? = some (.answered call answer) ∧ w.records boxID = some stored ∧
      SameIntent stored call.candidate ∧ Answers stored call.candidate answer := by
  refine ⟨_, _, _, _, rfl, rfl, rfl, ⟨rfl, rfl, rfl, rfl, rfl, rfl⟩, ?_⟩
  have repeatable : Guarded (step boxDigest) Repeatable newWorld boxRetried :=
    checked_guarded repeatableCheck repeatable_check _ _ rfl
  refine (begin_operation_idempotent boxDigest boxRetried _ repeatable rfl).1 _ _ _
    (mem_of_getElem? (i := 1) rfl) ?_ rfl ?_ rfl rfl
  · decide
  · decide

def emptyRequest : Operation := { stopBox with request := some .nil }

/-- The operation is begun with an empty request; a process started from the store knows it without
    one and takes the retry for another intent. -/
theorem begin_operation_retry_refused : ∃ w first retry created, run (step boxDigest) newWorld
        [.boot, .beginOperation 0 emptyRequest "" 10, .insert 0 .ok, .remember 0, .boot,
          .beginOperation 1 emptyRequest "" 20] = some w ∧
      w.calls = [.answered first (.created created), .answered retry .conflict] ∧
      first.candidate = emptyRequest ∧ retry.candidate = emptyRequest ∧
      (w.records boxID).isSome :=
  ⟨_, _, _, _, rfl, rfl, rfl, rfl, rfl⟩

end PieRelay.OperationIdempotency
