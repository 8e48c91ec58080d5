import PieRelay.OperationStore

/-!
What one step of the operation store changes: the table and its history, what is still
known of an id, and the calls under way. Everything that is said of whole runs later is
said of these changes and not of the steps themselves.
-/
namespace PieRelay.OperationSteps
open Function RoomRegistry OperationStore List

variable {w : World} {index : Nat} {call : Call} {id other : String} {value : Operation} {replica : Replica}
  {batch : Batch}

theorem view_set_call (view : View (setCall w index call) id value) : View w id value ∨ (id, value) ∈ call.holds := by
  rcases view with cached | ⟨other, member, held⟩
  · exact Or.inl (Or.inl cached)
  · rcases mem_or_eq_of_mem_set member with old | rfl
    · exact Or.inl (Or.inr ⟨other, old, held⟩)
    · exact Or.inr held

theorem view_add_call (view : View (addCall w call) id value) : View w id value ∨ (id, value) ∈ call.holds := by
  rcases view with cached | ⟨other, member, held⟩
  · exact Or.inl (Or.inl cached)
  · rcases mem_append.mp member with old | new
    · exact Or.inl (Or.inr ⟨other, old, held⟩)
    · rw [mem_singleton.mp new] at held
      exact Or.inr held

theorem view_set_replica (view : View (setReplica w index replica) id value) :
    View w id value ∨ replica.operations id = some value := by
  rcases view with ⟨other, member, cached⟩ | called
  · rcases mem_or_eq_of_mem_set member with old | rfl
    · exact Or.inl (Or.inl ⟨other, old, cached⟩)
    · exact Or.inr cached
  · exact Or.inl (Or.inr called)

theorem cached_view (here : w.replicas[index]? = some replica) (cached : replica.operations id = some value) :
    View w id value :=
  Or.inl ⟨replica, mem_of_getElem? here, cached⟩

theorem held_view (here : w.calls[index]? = some call) (held : (id, value) ∈ call.holds) : View w id value :=
  Or.inr ⟨call, mem_of_getElem? here, held⟩

theorem load_operations {found : Operation} (cached : (loadRecord replica id value).operations other = some found) :
    replica.operations other = some found ∨ (other = id ∧ found = value) := by
  by_cases same : other = id
  · subst same
    simp only [loadRecord, update_self, Option.some.injEq] at cached
    exact Or.inr ⟨rfl, cached.symm⟩
  · simp only [loadRecord, update_of_ne same] at cached
    exact Or.inl cached

theorem drop_operations {found : Operation} (cached : (dropRecord replica id value).operations other = some found) :
    replica.operations other = some found := by
  by_cases same : other = id
  · subst same
    simp [dropRecord] at cached
  · simpa only [dropRecord, update_of_ne same] using cached

theorem change_operations {change : String × Option Operation} (cached : (applyChange replica change).operations id = some value) :
    replica.operations id = some value ∨ change = (id, some value) := by
  obtain ⟨row, record⟩ := change
  cases record with
  | none =>
    simp only [applyChange, deleteRecordLocked] at cached
    split at cached
    · exact Or.inl (drop_operations cached)
    · exact Or.inl cached
  | some =>
    simp only [applyChange] at cached
    split at cached
    · rcases load_operations cached with old | ⟨rfl, rfl⟩
      · exact Or.inl old
      · exact Or.inr rfl
    · exact Or.inl cached

theorem refresh_operations (batch : Batch) (replica : Replica) (id : String) (value : Operation)
    (cached : (refreshIncremental replica batch).operations id = some value) :
    replica.operations id = some value ∨ (id, some value) ∈ batch := by
  induction batch generalizing replica with
  | nil => exact Or.inl cached
  | cons change rest ih =>
    rcases ih (applyChange replica change) cached with old | later
    · rcases change_operations old with older | here
      · exact Or.inl older
      · exact Or.inr (here ▸ mem_cons_self)
    · exact Or.inr (mem_cons_of_mem change later)

theorem new_replica_operations (w : World) (id : String) (value : Operation)
    (cached : (newReplica w).operations id = some value) : w.records id = some value := by
  have folded : ∀ (rows : List String) (replica : Replica),
      ((snapshot w rows).foldl loadRow replica).operations id = some value →
      replica.operations id = some value ∨ w.records id = some value := by
    intro rows
    induction rows with
    | nil => exact fun _ cached => Or.inl cached
    | cons row rest ih =>
      intro replica cached
      rcases ih _ cached with old | stored
      · unfold loadRow at old
        dsimp only at old
        cases found : w.records row with
        | none =>
          rw [found] at old
          exact Or.inl old
        | some =>
          rw [found] at old
          rcases load_operations old with older | ⟨rfl, rfl⟩
          · exact Or.inl older
          · exact Or.inr found
      · exact Or.inr stored
  rcases folded w.log emptyReplica cached with absent | stored
  · cases absent
  · exact stored

theorem batch_holds (held : (id, value) ∈ batch.filterMap fun row => row.2.map fun value => (row.1, value)) :
    (id, some value) ∈ batch := by
  obtain ⟨⟨row, record⟩, member, made⟩ := mem_filterMap.mp held
  obtain ⟨loaded, rfl, same⟩ := Option.map_eq_some_iff.mp made
  cases same
  exact member

theorem holds_batch (member : (id, some value) ∈ batch) :
    (id, value) ∈ batch.filterMap fun row => row.2.map fun value => (row.1, value) :=
  mem_filterMap.mpr ⟨(id, some value), member, rfl⟩

theorem snapshot_stored {rows : List String} {record : Option Operation}
    (member : (id, record) ∈ snapshot w rows) : w.records id = record := by
  obtain ⟨row, _, same⟩ := mem_map.mp member
  cases same
  rfl

section Steps
variable (digest : String → String)
variable {action : Action}

theorem read_update_well_formed (replica : Replica) (index : Nat) (id : String) (status : Status)
    (progress : Int) (result : GoMap) (error : String) (now : Time) (claim : Bool) :
    (readUpdate replica index id status progress result error now claim).wellFormed digest := by
  unfold readUpdate
  split
  · trivial
  · rename_i allowed
    split
    · trivial
    · split
      · trivial
      · rename_i running
        refine ⟨by simpa using running, status, progress, result, error, now, ?_, rfl⟩
        exact fun queued => allowed (Or.inl queued)

theorem read_update_holds {status : Status}
    {progress : Int} {result : GoMap} {error : String} {now : Time} {claim : Bool}
    (held : (other, value) ∈ (readUpdate replica index id status progress result error now claim).holds) :
    replica.operations other = some value := by
  unfold readUpdate at held
  split at held
  · cases held
  · split at held
    · cases held
    · rename_i found
      split at held
      · cases held
      · cases mem_singleton.mp held
        exact found

inductive Change (w next : World) : Action → Prop where
  | quiet (action : Action) (records : next.records = w.records) (history : next.history = w.history)
      (incarnation : next.incarnation = w.incarnation)
      (views : ∀ id value, View next id value → View w id value ∨ w.records id = some value) :
      Change w next action
  | created (index : Nat) (reply : StoreReply) (call : Begin)
      (waiting : w.calls[index]? = some (.inserting call))
      (vacant : w.records call.operation.id = none)
      (records : next.records = update w.records call.operation.id (some (encode call.operation)))
      (history : next.history = update w.history call.operation.id [encode call.operation])
      (incarnation : next.incarnation =
        update w.incarnation call.operation.id (w.incarnation call.operation.id + 1))
      (views : ∀ id value, View next id value →
        View w id value ∨ (id = call.operation.id ∧ value = call.operation)) :
      Change w next (.insert index reply)
  | replaced (index : Nat) (reply : StoreReply) (replica : Nat) (id : String)
      (before value stored : Operation) (claim : Bool)
      (waiting : w.calls[index]? = some (.updating replica id before value claim))
      (found : w.records id = some stored) (version : stored.version = before.version)
      (records : next.records = update w.records id (some (encode value)))
      (history : next.history = update w.history id (encode value :: w.history id))
      (incarnation : next.incarnation = w.incarnation)
      (views : ∀ other seen, View next other seen → View w other seen ∨ (other = id ∧ seen = value)) :
      Change w next (.write index reply)
  | removed (index : Nat) (reply : StoreReply) (replica : Nat) (id : String)
      (current stored : Operation)
      (waiting : w.calls[index]? = some (.pruning replica id current))
      (found : w.records id = some stored) (version : stored.version = current.version)
      (records : next.records = update w.records id none) (history : next.history = w.history)
      (incarnation : next.incarnation = w.incarnation)
      (views : ∀ other seen, View next other seen → View w other seen) :
      Change w next (.remove index reply)

theorem quiet_call (index : Nat) (call : Call)
    (held : ∀ id value, (id, value) ∈ call.holds → View w id value ∨ w.records id = some value) :
    Change w (setCall w index call) action := by
  refine .quiet action rfl rfl rfl ?_
  intro id value view
  rcases view_set_call view with old | new
  · exact Or.inl old
  · exact held id value new

theorem quiet_replica (index other : Nat) (call : Call) (replica : Replica) (free : call.holds = [])
    (cached : ∀ id value, replica.operations id = some value → View w id value) :
    Change w (setCall (setReplica w other replica) index call) action := by
  refine .quiet action rfl rfl rfl ?_
  intro id value view
  rcases view_set_call view with old | new
  · rcases view_set_replica old with older | here
    · exact Or.inl older
    · exact Or.inl (cached id value here)
  · rw [free] at new
    cases new

theorem quiet_added (call : Call)
    (held : ∀ id value, (id, value) ∈ call.holds → View w id value ∨ w.records id = some value) :
    Change w (addCall w call) action := by
  refine .quiet action rfl rfl rfl ?_
  intro id value view
  rcases view_add_call view with old | new
  · exact Or.inl old
  · exact held id value new

theorem insert_change (w : World) (index : Nat) (call : Begin) (reply : StoreReply)
    (waiting : w.calls[index]? = some (.inserting call)) :
    Change w (insertOperation w index call reply) (.insert index reply) := by
  have silent : ∀ quiet : Call, quiet.holds = [] → Change w (setCall w index quiet) (.insert index reply) := by
    intro quiet free
    refine quiet_call index quiet ?_
    intro id value held
    rw [free] at held
    cases held
  have fresh : ∀ after : Call, (∀ id value, (id, value) ∈ after.holds →
        id = call.operation.id ∧ value = call.operation) →
      w.records call.operation.id = none →
      Change w (setCall (createRecord w call.operation.id call.operation) index after) (.insert index reply) := by
    intro after held vacant
    refine .created index reply call waiting vacant rfl rfl rfl ?_
    intro id value view
    rcases view_set_call view with old | new
    · exact Or.inl old
    · exact Or.inr (held id value new)
  unfold insertOperation
  split
  · exact silent _ rfl
  · rename_i vacant
    exact fresh _ (fun _ _ held => by cases held) vacant
  · exact silent _ rfl
  · rename_i vacant
    refine fresh _ ?_ vacant
    intro id value held
    cases mem_singleton.mp held
    exact ⟨rfl, rfl⟩
  · split
    · exact silent _ rfl
    · exact silent _ rfl

theorem write_change (w : World) (index replica : Nat) (id : String) (before next : Operation)
    (claim : Bool) (reply : StoreReply)
    (waiting : w.calls[index]? = some (.updating replica id before next claim)) :
    Change w (writeOperation w index replica id before next claim reply) (.write index reply) := by
  have silent : Change w (setCall w index .returned) (.write index reply) :=
    quiet_call index .returned fun _ _ held => by cases held
  unfold writeOperation
  split
  · exact silent
  · rename_i stored found
    split
    · exact silent
    · rename_i through
      have version : stored.version = before.version :=
        Decidable.not_not.mp fun different => through (Or.inr different)
      split
      · refine .replaced index reply replica id before next stored claim waiting found version rfl rfl rfl ?_
        intro other seen view
        rcases view_set_call view with old | new
        · exact Or.inl old
        · cases new
      · refine .replaced index reply replica id before next stored claim waiting found version rfl rfl rfl ?_
        intro other seen view
        rcases view_set_call view with old | new
        · exact Or.inl old
        · cases mem_singleton.mp new
          exact Or.inr ⟨rfl, rfl⟩

theorem remove_change (w : World) (index replica : Nat) (id : String) (current : Operation)
    (reply : StoreReply) (waiting : w.calls[index]? = some (.pruning replica id current)) :
    Change w (removeOperation w index replica id current reply) (.remove index reply) := by
  have silent : Change w (setCall w index .returned) (.remove index reply) :=
    quiet_call index .returned fun _ _ held => by cases held
  unfold removeOperation
  split
  · exact silent
  · rename_i stored found
    split
    · exact silent
    · rename_i through
      have version : stored.version = current.version :=
        Decidable.not_not.mp fun different => through (Or.inr different)
      split
      · refine .removed index reply replica id current stored waiting found version rfl rfl rfl ?_
        intro other seen view
        rcases view_set_call view with old | new
        · exact old
        · cases new
      · refine .removed index reply replica id current stored waiting found version rfl rfl rfl ?_
        intro other seen view
        rcases view_set_call view with old | new
        · exact old
        · exact held_view waiting new

-- A refreshed replica knows what it knew and what the batch says, and the batch was held.
theorem refresh_views {other : Nat} (here : w.replicas[other]? = some replica) (waiting : w.calls[index]? = some call)
    (held : call.holds = batch.filterMap fun row => row.2.map fun value => (row.1, value)) :
    ∀ id value, (refreshIncremental replica batch).operations id = some value → View w id value := by
  intro id value cached
  rcases refresh_operations batch replica id value cached with old | row
  · exact cached_view here old
  · exact held_view waiting (held ▸ holds_batch row)

theorem begin_holds (w : World) (index : Nat) (replica : Replica) (candidate : Operation)
    (randomID : String) (now : Time) :
    (beginOperation digest w index replica candidate randomID now).holds = [] := by
  unfold beginOperation
  dsimp only
  split
  · rfl
  · split <;> rfl

theorem spawned_views (w : World) (index : Nat) (ids : List String) (id : String) (value : Operation)
    (view : View { w with calls := w.calls ++ ids.map (Call.spawned index) } id value) :
    View w id value := by
  rcases view with cached | ⟨call, member, held⟩
  · exact Or.inl cached
  · rcases mem_append.mp member with old | new
    · exact Or.inr ⟨call, old, held⟩
    · obtain ⟨spawn, _, rfl⟩ := mem_map.mp new
      cases held

theorem boot_views (w : World) (id : String) (value : Operation)
    (view : View { w with replicas := w.replicas ++ [newReplica w] } id value) :
    View w id value ∨ w.records id = some value := by
  rcases view with ⟨replica, member, cached⟩ | called
  · rcases mem_append.mp member with old | new
    · exact Or.inl (Or.inl ⟨replica, old, cached⟩)
    · rw [mem_singleton.mp new] at cached
      exact Or.inr (new_replica_operations w id value cached)
  · exact Or.inl (Or.inr called)

theorem store_change {replica : Nat} {claim : Bool} {maps : Replica} (started : List String)
    (waiting : w.calls[index]? = some (.updated replica id value claim)) (here : w.replicas[replica]? = some maps) :
    Change w { setCall (setReplica w replica { maps with operations := update maps.operations id (some value) }) index
      (if claim then .executing replica id else .returned) with started := started } (.store index) := by
  refine .quiet _ rfl rfl rfl ?_
  intro seen found view
  have called : View (setCall (setReplica w replica
      { maps with operations := update maps.operations id (some value) }) index
      (if claim then .executing replica id else .returned)) seen found := view
  rcases view_set_call called with old | new
  · rcases view_set_replica old with older | cached
    · exact Or.inl older
    · by_cases same : seen = id
      · subst same
        simp only [update_self, Option.some.injEq] at cached
        subst cached
        exact Or.inl (held_view waiting (mem_singleton.mpr rfl))
      · simp only [update_of_ne same] at cached
        exact Or.inl (cached_view here cached)
  · cases claim <;> cases new

theorem step_change (w : World) (action : Action) (next : World)
    (stepped : step digest w action = some next) : Change w next action := by
  cases step_taken digest stepped with
  | booted => exact .quiet _ rfl rfl rfl (boot_views w)
  | begun =>
    refine quiet_added _ fun id value held => ?_
    rw [begin_holds] at held
    cases held
  | synced =>
    exact quiet_added _ fun id value held => Or.inr (snapshot_stored (batch_holds held))
  | ticked index ids =>
    exact .quiet _ rfl rfl rfl fun id value view => Or.inl (spawned_views w index ids id value view)
  | updating index id status progress result error now maps here =>
    exact quiet_added _ fun id value held => Or.inl (cached_view here (read_update_holds held))
  | pruning index id before maps current here cached =>
    refine quiet_added _ fun other value held => ?_
    cases mem_singleton.mp held
    exact Or.inl (cached_view here cached)
  | inserted index reply call waiting => exact insert_change w index call reply waiting
  | remembered index call maps waiting here =>
    refine quiet_replica index call.replica _ _ rfl ?_
    intro id value cached
    rcases load_operations cached with old | ⟨rfl, rfl⟩
    · exact cached_view here old
    · exact held_view waiting (mem_singleton.mpr rfl)
  | loaded index =>
    exact quiet_call index _ fun id value held => Or.inr (snapshot_stored (batch_holds held))
  | unanswered index | lookedUp index => exact quiet_call index _ fun _ _ held => by cases held
  | applied index more call batch maps waiting here =>
    refine quiet_replica index call.replica _ _ ?_ (refresh_views here waiting rfl)
    cases more <;> rfl
  | refreshed index more replica batch maps waiting here =>
    exact quiet_replica index replica _ _ rfl (refresh_views here waiting rfl)
  | claimed index _ _ id _ _ here | succeeded index _ _ _ id _ _ here | failed index _ _ _ id _ _ here =>
    exact quiet_call index _ fun id value held => Or.inl (cached_view here (read_update_holds held))
  | wrote index reply replica id before value claim waiting =>
    exact write_change w index replica id before value claim reply waiting
  | stored index replica id value claim maps waiting here => exact store_change _ waiting here
  | removed index reply replica id current waiting =>
    exact remove_change w index replica id current reply waiting
  | forgot index replica id current maps waiting here =>
    refine quiet_replica index replica _ _ rfl ?_
    intro seen value cached
    exact cached_view here (drop_operations cached)

theorem begin_well_formed (w : World) (index : Nat) (replica : Replica) (candidate : Operation)
    (randomID : String) (now : Time) :
    (beginOperation digest w index replica candidate randomID now).wellFormed digest := by
  unfold beginOperation
  dsimp only
  split
  · exact ⟨randomID, now, rfl⟩
  · split <;> exact ⟨randomID, now, rfl⟩

structure Moved (w next : World) (index : Nat) (after : Call) : Prop where
  calls : next.calls = w.calls.set index after
  replicas : next.replicas = w.replicas
  started : next.started = w.started

theorem insert_moves (w : World) (index : Nat) (call : Begin) (reply : StoreReply) :
    ∃ after, Moved w (insertOperation w index call reply) index after ∧
      (after = .inserted call ∨ (∃ answer, after = .answered call answer) ∨
        ∃ found, after = .conflicted { call with found := found }) := by
  unfold insertOperation
  split
  · exact ⟨_, ⟨rfl, rfl, rfl⟩, Or.inr (Or.inl ⟨_, rfl⟩)⟩
  · exact ⟨_, ⟨rfl, rfl, rfl⟩, Or.inr (Or.inl ⟨_, rfl⟩)⟩
  · exact ⟨_, ⟨rfl, rfl, rfl⟩, Or.inr (Or.inl ⟨_, rfl⟩)⟩
  · exact ⟨_, ⟨rfl, rfl, rfl⟩, Or.inl rfl⟩
  · split
    · exact ⟨_, ⟨rfl, rfl, rfl⟩, Or.inr (Or.inl ⟨_, rfl⟩)⟩
    · exact ⟨_, ⟨rfl, rfl, rfl⟩, Or.inr (Or.inr ⟨_, rfl⟩)⟩

theorem write_moves (w : World) (index replica : Nat) (id : String) (before value : Operation)
    (claim : Bool) (reply : StoreReply) :
    ∃ after, Moved w (writeOperation w index replica id before value claim reply) index after ∧
      (after = .returned ∨ after = .updated replica id value claim ∧
        (∃ stored, w.records id = some stored ∧ stored.version = before.version) ∧
        (writeOperation w index replica id before value claim reply).records id = some (encode value)) := by
  unfold writeOperation
  split
  · exact ⟨_, ⟨rfl, rfl, rfl⟩, Or.inl rfl⟩
  · rename_i stored found
    split
    · exact ⟨_, ⟨rfl, rfl, rfl⟩, Or.inl rfl⟩
    · rename_i through
      have version : stored.version = before.version :=
        Decidable.not_not.mp fun different => through (Or.inr different)
      split
      · exact ⟨_, ⟨rfl, rfl, rfl⟩, Or.inl rfl⟩
      · exact ⟨_, ⟨rfl, rfl, rfl⟩, Or.inr ⟨rfl, ⟨stored, found, version⟩, update_self ..⟩⟩

theorem remove_moves (w : World) (index replica : Nat) (id : String) (current : Operation) (reply : StoreReply) :
    ∃ after, Moved w (removeOperation w index replica id current reply) index after ∧
      (after = .returned ∨ after = .pruned replica id current ∧
        (removeOperation w index replica id current reply).records id = none) := by
  unfold removeOperation
  split
  · exact ⟨_, ⟨rfl, rfl, rfl⟩, Or.inl rfl⟩
  · split
    · exact ⟨_, ⟨rfl, rfl, rfl⟩, Or.inl rfl⟩
    · split
      · exact ⟨_, ⟨rfl, rfl, rfl⟩, Or.inl rfl⟩
      · exact ⟨_, ⟨rfl, rfl, rfl⟩, Or.inr ⟨rfl, update_self ..⟩⟩

def WellFormed (w : World) : Prop := ∀ call ∈ w.calls, call.wellFormed digest

theorem added_well_formed {next : World} (added : List Call) (formed : WellFormed digest w)
    (calls : next.calls = w.calls ++ added) (each : ∀ call ∈ added, call.wellFormed digest) :
    WellFormed digest next := by
  intro call member
  rw [calls] at member
  rcases mem_append.mp member with old | new
  · exact formed call old
  · exact each call new

theorem moved_well_formed {next : World} {after : Call} (formed : WellFormed digest w)
    (calls : next.calls = w.calls.set index after) (good : after.wellFormed digest) : WellFormed digest next := by
  intro call member
  rw [calls] at member
  rcases mem_or_eq_of_mem_set member with old | rfl
  · exact formed call old
  · exact good

theorem step_well_formed (w : World) (action : Action) (next : World) (formed : WellFormed digest w)
    (stepped : step digest w action = some next) : WellFormed digest next := by
  have single : ∀ call : Call, call.wellFormed digest → ∀ other ∈ [call], other.wellFormed digest := by
    intro call good other member
    rwa [mem_singleton.mp member]
  have known : ∀ (index : Nat) (call : Call), w.calls[index]? = some call → call.wellFormed digest :=
    fun _ call waiting => formed call (mem_of_getElem? waiting)
  cases step_taken digest stepped with
  | booted => exact formed
  | begun index candidate randomID now maps =>
    exact added_well_formed digest _ formed rfl
      (single _ (begin_well_formed digest w index maps candidate randomID now))
  | synced => exact added_well_formed digest _ formed rfl (single _ trivial)
  | ticked =>
    refine added_well_formed digest _ formed rfl ?_
    intro call member
    obtain ⟨id, _, rfl⟩ := mem_map.mp member
    trivial
  | updating =>
    exact added_well_formed digest _ formed rfl (single _ (read_update_well_formed digest _ _ _ _ _ _ _ _ _))
  | pruning index id before maps current here cached terminal =>
    exact added_well_formed digest _ formed rfl (single _ terminal)
  | inserted index reply call waiting =>
    obtain ⟨after, moved, kinds⟩ := insert_moves w index call reply
    refine moved_well_formed digest formed moved.calls ?_
    have made := known index _ waiting
    rcases kinds with rfl | ⟨answer, rfl⟩ | ⟨found, rfl⟩ <;> exact made
  | remembered index call maps waiting =>
    exact moved_well_formed digest formed rfl (known index (.inserted call) waiting)
  | loaded index _ call waiting | unanswered index _ call waiting =>
    exact moved_well_formed digest formed rfl (known index (.conflicted call) waiting)
  | applied index more call batch maps waiting =>
    refine moved_well_formed digest formed rfl ?_
    cases more <;> exact known index (.refreshing call batch) waiting
  | refreshed =>
    exact moved_well_formed digest formed rfl trivial
  | lookedUp index call maps waiting =>
    exact moved_well_formed digest formed rfl (known index (.refreshed call) waiting)
  | claimed | succeeded | failed =>
    exact moved_well_formed digest formed rfl (read_update_well_formed digest _ _ _ _ _ _ _ _ _)
  | wrote index reply replica id before value claim =>
    obtain ⟨after, moved, kinds⟩ := write_moves w index replica id before value claim reply
    refine moved_well_formed digest formed moved.calls ?_
    rcases kinds with rfl | ⟨rfl, -⟩ <;> trivial
  | stored index replica id value claim =>
    refine moved_well_formed digest formed rfl ?_
    cases claim <;> trivial
  | removed index reply replica id current =>
    obtain ⟨after, moved, kinds⟩ := remove_moves w index replica id current reply
    refine moved_well_formed digest formed moved.calls ?_
    rcases kinds with rfl | ⟨rfl, -⟩ <;> trivial
  | forgot => exact moved_well_formed digest formed rfl trivial

end Steps

end PieRelay.OperationSteps
