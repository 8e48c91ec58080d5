import PieRelay.Replicas

/-!
The versions of the records in a service's memory. `refreshIncremental` loads a record
only over an older one, and the rows of one batch are about different records. A put
publishes what it has persisted whatever the map holds by then.
-/
namespace PieRelay.CachedVersions
open Function Executions ChangeLog Replicas List Option

section Filing
variable (operationID : String → String) (holds : Record → Prop)

def MemoryFiled (m : Memory) : Prop :=
  ∀ key record, m.records key = some record → record.key = key ∧ holds record

def ChangeFiled (change : Change) : Prop :=
  ∀ record, change.record = some record → record.key = change.row.key ∧ holds record

structure PutFiled (put : Put) : Prop where
  before : ∀ record, put.before = some record → record.key = put.key ∧ holds record
  request : ∀ record, put.request = some record → record.key = put.key ∧ holds record
  fits : ∀ record, put.request = some record → acceptable operationID put.before record
  real : put.before ≠ none ∨ put.request ≠ none

def putOf : Call → Option Put
  | .persisting _ put | .writing _ put _ | .persisted _ put _ => some put
  | _ => none

/-- Records are filed under their own keys, in the store, in memory and in what is under way, and
    `holds` of each; the rows of a batch are about different records. -/
structure Filed (w : World) : Prop where
  formed : w.store.WellFormed
  stored : ∀ key record, w.store.records key = some record → record.key = key ∧ holds record
  pending : ∀ write ∈ w.store.pending, ∀ record, write.value = some record →
    record.key = write.row.key ∧ holds record
  memory : ∀ (index : Nat) (r : Replica), w.replicas[index]? = some r → MemoryFiled holds r.memory
  puts : ∀ call ∈ w.calls, ∀ put, putOf call = some put → PutFiled operationID holds put
  batches : ∀ index batch, .polled index batch ∈ w.calls →
    (∀ change ∈ batch, ChangeFiled holds change) ∧ batch.Pairwise fun a b => a.row.key ≠ b.row.key

structure Kept : Prop where
  normal : ∀ record, holds record → holds record.normal
  asked : ∀ before record, acceptable operationID before record → holds record

end Filing

def Rising (m after : Memory) : Prop :=
  ∀ key old new, m.records key = some old → after.records key = some new → old.version ≤ new.version

def VersionsRise (w next : World) : Prop :=
  ∀ (index : Nat) (r after : Replica), w.replicas[index]? = some r →
    next.replicas[index]? = some after → Rising r.memory after.memory

def current (w : World) : Action → Bool
  | .publish index =>
    match w.calls[index]? with
    | some (.persisted replica put _) => (w.replicas[replica]?).all fun r =>
      put.request.all fun record => recordVersionLocked r.memory put.key ≤ record.version
    | _ => true
  | _ => true

section Memories
variable {m : Memory} {record : Record} {key : Key} {holds : Record → Prop}

theorem normal_key : record.normal.key = record.key := by
  cases record <;> rfl

theorem normal_version : record.normal.version = record.version := by
  cases record <;> rfl

theorem filed_update {records : Key → Option Record} {value : Option Record}
    (filed : ∀ other record, records other = some record → record.key = other ∧ holds record)
    (own : ∀ record, value = some record → record.key = key ∧ holds record) :
    ∀ other record, update records key value other = some record → record.key = other ∧ holds record := by
  intro other record found
  by_cases same : other = key
  · subst same
    rw [update_self] at found
    exact own record found
  · rw [update_of_ne same] at found
    exact filed other record found

section
variable (filed : MemoryFiled holds m)
include filed

theorem load_filed (own : holds record.normal) : MemoryFiled holds (loadRecord m record) := by
  refine filed_update filed ?_
  rintro other ⟨⟩
  exact ⟨normal_key, own⟩

theorem drop_filed (record : Record) : MemoryFiled holds (dropRecord m record) :=
  filed_update filed fun _ found => nomatch found

theorem delete_filed (key : Key) : MemoryFiled holds (deleteRecordLocked m key) := by
  unfold deleteRecordLocked
  cases m.records key with
  | none => exact filed
  | some record => exact drop_filed filed record

theorem apply_record_filed (key : Key) {value : Option Record}
    (own : ∀ record, value = some record → holds record.normal) :
    MemoryFiled holds (applyRecord m key value) := by
  cases value with
  | none => exact delete_filed filed key
  | some record =>
    simp only [applyRecord]
    split
    · exact load_filed filed (own record rfl)
    · exact filed

theorem publish_filed {put : Put}
    (own : ∀ record, put.after = some record → holds record) : MemoryFiled holds (publish m put) := by
  unfold publish
  split
  · rename_i record known
    refine filed_update filed ?_
    rintro other ⟨⟩
    exact ⟨rfl, own record known⟩
  · exact drop_filed filed _
  · exact filed

theorem apply_record_records {value : Option Record}
    (own : ∀ record, value = some record → record.key = key) (other : Key) :
    (applyRecord m key value).records other =
      if other = key then
        value.elim none fun record =>
          if recordVersionLocked m key < record.version then some record.normal else m.records key
      else m.records other := by
  cases value with
  | none =>
    simp only [applyRecord, deleteRecordLocked, elim_none]
    cases held : m.records key with
    | none =>
      split
      · rename_i same
        rw [same]
        exact held
      · rfl
    | some record =>
      simp only [elim_some, dropRecord, (filed key record held).1]
      by_cases same : other = key
      · rw [if_pos same, same, update_self]
      · rw [if_neg same, update_of_ne same]
  | some record =>
    simp only [applyRecord, elim_some]
    by_cases newer : recordVersionLocked m key < record.version
    · rw [if_pos newer, if_pos newer]
      simp only [loadRecord, own record rfl]
      by_cases same : other = key
      · rw [if_pos same, same, update_self]
      · rw [if_neg same, update_of_ne same]
    · rw [if_neg newer, if_neg newer]
      split
      · rename_i same
        rw [same]
      · rfl

theorem apply_record_rising {value : Option Record}
    (own : ∀ record, value = some record → record.key = key) : Rising m (applyRecord m key value) := by
  intro other old new before after
  rw [apply_record_records filed own] at after
  by_cases same : other = key
  · subst same
    rw [if_pos rfl] at after
    cases value with
    | none => cases after
    | some =>
      simp only [elim_some] at after
      split at after
      · rename_i newer
        cases after
        rw [recordVersionLocked, before, elim_some] at newer
        rw [normal_version]
        exact Nat.le_of_lt newer
      · cases before.symm.trans after
        exact Nat.le_refl _
  · rw [if_neg same] at after
    cases before.symm.trans after
    exact Nat.le_refl _

end

end Memories

section Batches
variable {r : Replica} {change : Change} {changes : List Change} {key : Key} {holds : Record → Prop}
  (normal : ∀ record, holds record → holds record.normal)
include normal

theorem apply_change_filed (filed : MemoryFiled holds r.memory) (own : ChangeFiled holds change) :
    MemoryFiled holds (applyChange r change).memory := by
  unfold applyChange
  split
  · exact filed
  · exact apply_record_filed filed _ fun record known => normal record (own record known).2

theorem apply_changes_filed (filed : MemoryFiled holds r.memory) (own : ∀ change ∈ changes, ChangeFiled holds change) :
    MemoryFiled holds (changes.foldl applyChange r).memory := by
  induction changes generalizing r with
  | nil => exact filed
  | cons change rest ih =>
    exact ih (apply_change_filed normal filed (own change mem_cons_self))
      fun other member => own other (mem_cons_of_mem change member)

omit normal in
theorem apply_change_elsewhere (filed : MemoryFiled holds r.memory) (own : ChangeFiled holds change)
    (different : change.row.key ≠ key) :
    (applyChange r change).memory.records key = r.memory.records key := by
  unfold applyChange
  split
  · rfl
  · simp only
    rw [apply_record_records filed (fun record known => (own record known).1), if_neg (Ne.symm different)]

section
variable (filed : MemoryFiled holds r.memory) (own : ∀ change ∈ changes, ChangeFiled holds change)
include filed own

theorem apply_changes_elsewhere (different : ∀ change ∈ changes, change.row.key ≠ key) :
    (changes.foldl applyChange r).memory.records key = r.memory.records key := by
  induction changes generalizing r with
  | nil => rfl
  | cons change rest ih =>
    rw [foldl_cons, ih (apply_change_filed normal filed (own change mem_cons_self))
      (fun other member => own other (mem_cons_of_mem change member))
      (fun other member => different other (mem_cons_of_mem change member))]
    exact apply_change_elsewhere filed (own change mem_cons_self) (different change mem_cons_self)

-- A batch comes to a key once, so what it does there is what one change does.
theorem apply_changes_rising (apart : changes.Pairwise fun a b => a.row.key ≠ b.row.key) :
    Rising r.memory (changes.foldl applyChange r).memory := by
  induction changes generalizing r with
  | nil =>
    intro key old new before after
    cases before.symm.trans after
    exact Nat.le_refl _
  | cons change rest ih =>
    obtain ⟨others, distinct⟩ := pairwise_cons.mp apart
    have kept : ∀ other ∈ rest, ChangeFiled holds other :=
      fun other member => own other (mem_cons_of_mem change member)
    have first : ChangeFiled holds change := own change mem_cons_self
    intro key old new before after
    rw [foldl_cons] at after
    by_cases same : change.row.key = key
    · rw [apply_changes_elsewhere normal (apply_change_filed normal filed first) kept
        (fun other member => same ▸ (others other member).symm)] at after
      unfold applyChange at after
      split at after
      · cases before.symm.trans after
        exact Nat.le_refl _
      · exact apply_record_rising filed (fun record known => (first record known).1) key old new before after
    · rw [← apply_change_elsewhere filed first same] at before
      exact ih (apply_change_filed normal filed first) kept distinct key old new before after

end

end Batches

section Steps
variable {w next : World} {operationID : String → String} {holds : Record → Prop}

theorem empty_filed : MemoryFiled holds emptyMemory := by
  intro key record found
  cases found

theorem new_filed : Filed operationID holds newWorld := by
  refine ⟨empty_well_formed, ?_, ?_, ?_, ?_, ?_⟩
  all_goals simp [newWorld, emptyStore]

theorem filed_onward (filed : Filed operationID holds w) (formed : next.store.WellFormed)
    (stored : ∀ key record, next.store.records key = some record → record.key = key ∧ holds record)
    (pending : ∀ write ∈ next.store.pending, ∀ record, write.value = some record →
      record.key = write.row.key ∧ holds record)
    (memory : ∀ (index : Nat) (r : Replica), next.replicas[index]? = some r → MemoryFiled holds r.memory)
    (calls : ∀ call ∈ next.calls, call ∈ w.calls ∨
      (∀ put, putOf call = some put → PutFiled operationID holds put) ∧ ∀ index batch, call ≠ .polled index batch) :
    Filed operationID holds next := by
  refine ⟨formed, stored, pending, memory, ?_, ?_⟩
  · intro call member put found
    rcases calls call member with old | ⟨new, -⟩
    · exact filed.puts call old put found
    · exact new put found
  · intro index batch member
    rcases calls _ member with old | ⟨-, not⟩
    · exact filed.batches index batch old
    · exact absurd rfl (not index batch)

theorem loads_filed {m : Memory} (filed : MemoryFiled holds m) {rows : List Record}
    (own : ∀ record ∈ rows, holds record.normal) : MemoryFiled holds (rows.foldl loadRecord m) := by
  induction rows generalizing m with
  | nil => exact filed
  | cons record rest ih =>
    exact ih (load_filed filed (own record mem_cons_self)) fun other member => own other (mem_cons_of_mem record member)

section
variable (filed : Filed operationID holds w)
include filed

theorem set_call_filed {index : Nat} {here : Call} (found : w.calls[index]? = some here) (call : Call)
    (same : ∀ put, putOf call = some put → putOf here = some put)
    (not : ∀ index batch, call ≠ .polled index batch) :
    ∀ other ∈ w.calls.set index call, other ∈ w.calls ∨
      (∀ put, putOf other = some put → PutFiled operationID holds put) ∧ ∀ index batch, other ≠ .polled index batch := by
  intro other member
  rcases mem_or_eq_of_mem_set member with old | rfl
  · exact Or.inl old
  · exact Or.inr ⟨fun put mine => filed.puts here (mem_of_getElem? found) put (same put mine), not⟩

theorem returned_filed {index : Nat} {here : Call} (found : w.calls[index]? = some here) :
    ∀ other ∈ w.calls.set index .returned, other ∈ w.calls ∨
      (∀ put, putOf other = some put → PutFiled operationID holds put) ∧ ∀ index batch, other ≠ .polled index batch :=
  set_call_filed filed found .returned (fun _ none => nomatch none) nofun

theorem set_memory_filed {index call : Nat} {r after : Replica} {here : Call}
    (found : w.calls[call]? = some here) (there : w.replicas[index]? = some r)
    (memory : MemoryFiled holds r.memory → MemoryFiled holds after.memory) :
    Filed operationID holds (setCall (setReplica w index after) call .returned) := by
  refine filed_onward filed filed.formed filed.stored filed.pending ?_ ?_
  · intro other replica here
    rcases set_replica_cases here with ⟨-, rfl⟩ | ⟨-, old⟩
    · exact memory (filed.memory index r there)
    · exact filed.memory other replica old
  · exact returned_filed filed found

theorem poll_filed {index : Nat} {r : Replica} (there : w.replicas[index]? = some r) :
    Filed operationID holds (addCall (setReplica w index (r.given (loadChanges w.store r.cursor batchSize)))
      (.polled index (loadChanges w.store r.cursor batchSize))) := by
  refine ⟨filed.formed, filed.stored, filed.pending, ?_, ?_, ?_⟩
  · intro other replica here
    rcases set_replica_cases here with ⟨-, rfl⟩ | ⟨-, old⟩
    · exact filed.memory index r there
    · exact filed.memory other replica old
  · intro call member put found
    rcases add_call_cases member with rfl | old
    · cases found
    · exact filed.puts call old put found
  · intro other batch member
    rcases add_call_cases member with new | old
    · cases new
      refine ⟨?_, ?_⟩
      · intro change inside record known
        obtain ⟨row, -, rfl⟩ := mem_map.mp inside
        exact filed.stored _ record known
      · exact (pairwise_map).mpr (load_keys filed.formed r.cursor batchSize)
    · exact filed.batches other batch old

end

theorem step_filed {action : Action} (kept : Kept operationID holds) (filed : Filed operationID holds w)
    (stepped : step operationID w action = some next) : Filed operationID holds next := by
  cases step_taken operationID stepped with
  | booted =>
    refine filed_onward filed filed.formed filed.stored filed.pending filed.memory ?_
    intro call member
    rcases add_call_cases member with rfl | old
    · refine Or.inr ⟨?_, nofun⟩
      rintro put ⟨⟩
    · exact Or.inl old
  | loaded index rows cursor here all =>
    refine filed_onward filed filed.formed filed.stored filed.pending ?_ (returned_filed filed here)
    intro other r there
    rcases append_replica_cases there with ⟨-, rfl⟩ | old
    · refine loads_filed empty_filed fun record member => kept.normal record ?_
      obtain ⟨row, -, known⟩ := mem_filterMap.mp (all.mem_iff.mp member)
      exact (filed.stored row.key record known).2
    · exact filed.memory other r old
  | began index record r here fits =>
    refine filed_onward filed filed.formed filed.stored filed.pending filed.memory ?_
    intro call member
    rcases add_call_cases member with rfl | old
    · refine Or.inr ⟨?_, nofun⟩
      rintro put ⟨⟩
      refine ⟨fun before known => filed.memory index r here record.key before known, ?_, ?_, Or.inr nofun⟩
      · rintro other ⟨⟩
        exact ⟨rfl, kept.asked _ record fits⟩
      · rintro other ⟨⟩
        exact fits
    · exact Or.inl old
  | dropping index key r before here known =>
    refine filed_onward filed filed.formed filed.stored filed.pending filed.memory ?_
    intro call member
    rcases add_call_cases member with rfl | old
    · refine Or.inr ⟨?_, nofun⟩
      rintro put ⟨⟩
      refine ⟨?_, (fun _ none => nomatch none), (fun _ none => nomatch none), Or.inl nofun⟩
      rintro other ⟨⟩
      exact filed.memory index r here key before known
    · exact Or.inl old
  | wrote index replica put store here matched written =>
    have own := filed.puts _ (mem_of_getElem? here) put rfl
    refine filed_onward filed (write_well_formed filed.formed written) ?_ ?_ filed.memory
      (set_call_filed filed here (.writing replica put store.issued) (fun _ same => same) nofun)
    · obtain ⟨-, rfl⟩ := write_cases written
      exact filed.stored
    · obtain ⟨-, rfl⟩ := write_cases written
      intro write member record known
      rcases mem_cons.mp member with rfl | old
      · obtain ⟨request, asked, rfl⟩ := map_eq_some_iff.mp known
        obtain ⟨named, held⟩ := own.request request asked
        exact ⟨normal_key.trans named, kept.normal request held⟩
      · exact filed.pending write old record known
  | refused _ _ _ here | failed _ _ _ here =>
    exact filed_onward filed filed.formed filed.stored filed.pending filed.memory (returned_filed filed here)
  | committed index answered replica put sequence here held =>
    refine filed_onward filed (commit_well_formed filed.formed held) ?_ ?_ filed.memory
      (set_call_filed filed here (if answered then .persisted replica put sequence else .returned) ?_ ?_)
    · exact filed_update filed.stored fun record known => filed.pending _ held record known
    · intro write member
      exact filed.pending write (mem_of_mem_filter member)
    · intro other found
      cases answered with
      | true => exact found
      | false => cases found
    · intro other batch same
      cases answered <;> cases same
  | rolledBack index replica put sequence here =>
    refine filed_onward filed (rollback_well_formed filed.formed _) filed.stored ?_ filed.memory
      (returned_filed filed here)
    intro write member
    exact filed.pending write (mem_of_mem_filter member)
  | published index replica put sequence r here there =>
    refine set_memory_filed filed here there fun memory => publish_filed memory ?_
    intro record known
    obtain ⟨request, asked, rfl⟩ := map_eq_some_iff.mp known
    exact kept.normal request ((filed.puts _ (mem_of_getElem? here) put rfl).request request asked).2
  | polled index r there => exact poll_filed filed there
  | applied index count replica batch r here there =>
    obtain ⟨own, -⟩ := filed.batches replica batch (mem_of_getElem? here)
    exact set_memory_filed filed here there fun memory => apply_changes_filed kept.normal memory
      fun change member => own change (mem_of_mem_take member)

end Steps

section Rising
variable {w next : World} {m : Memory} {operationID : String → String} {holds : Record → Prop}

theorem rising_same (m : Memory) : Rising m m := by
  intro key old new before after
  cases before.symm.trans after
  exact Nat.le_refl _

theorem drop_rising (m : Memory) (record : Record) : Rising m (dropRecord m record) := by
  intro key old new before after
  simp only [dropRecord] at after
  by_cases same : key = record.key
  · rw [same, update_self] at after
    cases after
  · rw [update_of_ne same] at after
    cases before.symm.trans after
    exact Nat.le_refl _

/-- A put raises the version of its record, or keeps it, exactly if the map holds no later one. -/
theorem publish_record_rising (before : Option Record) (record : Record) : Rising m (publishRecord m before record) ↔
      recordVersionLocked m record.key ≤ record.version := by
  constructor
  · intro rising
    unfold recordVersionLocked
    cases held : m.records record.key with
    | none => exact Nat.zero_le _
    | some old => exact rising record.key old record held (update_self _ _ _)
  · intro fresh key old new held after
    simp only [publishRecord] at after
    by_cases same : key = record.key
    · rw [same, update_self] at after
      cases after
      rw [recordVersionLocked, ← same, held] at fresh
      exact fresh
    · rw [update_of_ne same] at after
      cases held.symm.trans after
      exact Nat.le_refl _

theorem publish_rising {put : Put} (filed : PutFiled operationID holds put) : Rising m (publish m put) ↔
    put.request.all (fun record => recordVersionLocked m put.key ≤ record.version) := by
  obtain ⟨key, before, request⟩ := put
  cases request with
  | none =>
    simp only [publish, Put.after, map_none, all_none, iff_true]
    cases before with
    | none => exact rising_same m
    | some record => exact drop_rising m record
  | some record =>
    have own : record.key = key := (filed.request record rfl).1
    simp only [publish, Put.after, map_some, all_some, decide_eq_true_eq,
      publish_record_rising, normal_key, normal_version, own]

theorem replicas_rise (same : next.replicas = w.replicas) : VersionsRise w next := by
  intro index r after here there
  rw [same] at there
  cases here.symm.trans there
  exact rising_same r.memory

theorem replica_rises {index : Nat} {r : Replica} (here : w.replicas[index]? = some r) (after : Replica)
    (replicas : next.replicas = w.replicas.set index after) :
    VersionsRise w next ↔ Rising r.memory after.memory := by
  have bound : index < w.replicas.length := (List.getElem?_eq_some_iff.mp here).1
  constructor
  · intro rise
    exact rise index r after here (by rw [replicas, getElem?_set_self bound])
  · intro rising other found later before there
    rw [replicas] at there
    by_cases same : index = other
    · subst same
      rw [getElem?_set_self bound] at there
      cases here.symm.trans before
      cases there
      exact rising
    · rw [getElem?_set_ne same] at there
      cases before.symm.trans there
      exact rising_same found.memory

/-- In one step the versions rise exactly if the step is not a put that publishes over a later one. -/
theorem step_rises_iff {action : Action} (normal : ∀ record, holds record → holds record.normal)
    (filed : Filed operationID holds w)
    (stepped : step operationID w action = some next) :
    VersionsRise w next ↔ current w action := by
  cases step_taken operationID stepped with
  | loaded =>
    refine iff_of_true ?_ rfl
    intro other r after before there
    rw [List.getElem?_append_left (List.getElem?_eq_some_iff.mp before).1] at there
    cases before.symm.trans there
    exact rising_same r.memory
  | published index replica put sequence r here there =>
    have own := filed.puts _ (mem_of_getElem? here) put rfl
    simp only [current, here, there, all_some]
    exact (replica_rises there _ rfl).trans (publish_rising own)
  | polled index r there =>
    refine iff_of_true ?_ rfl
    exact (replica_rises there (r.given _) rfl).mpr (rising_same r.memory)
  | applied index count replica batch r here there =>
    obtain ⟨own, apart⟩ := filed.batches replica batch (mem_of_getElem? here)
    refine iff_of_true ((replica_rises there _ rfl).mpr ?_) rfl
    exact apply_changes_rising normal (filed.memory replica r there)
      (fun change member => own change (mem_of_mem_take member)) apart.take
  | _ => exact iff_of_true (replicas_rise rfl) rfl

/-- Along a run no cached version ever goes down, exactly if no put publishes over a later version
    of its record. -/
theorem cached_versions_rise_iff (operationID : String → String) (actions : List Action) (w : World)
    (ran : run (step operationID) newWorld actions = some w) :
    Along (step operationID) VersionsRise newWorld actions ↔
      Guarded (step operationID) (fun w action => current w action) newWorld actions := by
  have kept : Kept operationID fun _ => True := ⟨fun _ _ => trivial, fun _ _ _ => trivial⟩
  refine guarded_iff (Filed operationID fun _ => True)
    (fun state action next filed stepped => step_filed kept filed stepped) ?_ ran new_filed
  intro state action next filed stepped
  refine Iff.trans ?_ (step_rises_iff kept.normal filed stepped)
  constructor
  · intro each
    exact each next stepped
  · intro rise other taken
    cases stepped.symm.trans taken
    exact rise

def alice (version : Nat) : Record := .plain .user "alice" version ""

/-- Two services know `alice` at version 1. The first persists version 2, and the second writes
    version 3 on top of it. -/
def writtenTwice : List Action :=
  [.boot, .loadCurrent 0 [], .boot, .loadCurrent 1 [],
    .put 0 (alice 1), .write 2, .commit 2 true, .publish 2, .poll 1, .apply 3 1,
    .put 0 (alice 2), .write 4, .commit 4 true,
    .poll 1, .apply 5 1, .put 1 (alice 3), .write 6, .commit 6 true, .publish 6]

/-- The first publishes version 2 and then refreshes. -/
theorem publish_before_refresh_rises :
    Along (step id) VersionsRise newWorld (writtenTwice ++ [.publish 4, .poll 0, .apply 7 1]) := by
  obtain ⟨w, ran⟩ : ∃ w, run (step id) newWorld (writtenTwice ++ [.publish 4, .poll 0, .apply 7 1]) = some w := ⟨_, rfl⟩
  refine (cached_versions_rise_iff id _ w ran).mpr ?_
  exact checked_guarded current (fun _ _ passed => passed) _ _ (by decide +kernel)

/-- It refreshes in between, and version 3 is put back to version 2. -/
theorem publish_after_refresh_falls : ∃ w next,
    run (step id) newWorld (writtenTwice ++ [.poll 0, .apply 7 1]) = some w ∧
      step id w (.publish 4) = some next ∧ ¬ VersionsRise w next := by
  refine ⟨_, _, rfl, rfl, ?_⟩
  intro rise
  exact absurd (rise 0 _ _ rfl rfl (alice 1).key (alice 3) (alice 2) rfl rfl) (by decide)

end Rising
end PieRelay.CachedVersions
