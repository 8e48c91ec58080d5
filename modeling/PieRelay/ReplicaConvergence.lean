import PieRelay.ChangeCursor
import PieRelay.MemoryIndexes

/-!
Whether a replica that has read the whole log holds what a fresh service would load. Four
things keep it from that: a change that the cursor has passed, a record that is deleted and
created again below its cached version, a put or delete that publishes after a later change
of its record has been applied, and two previews with one host name.
-/
namespace PieRelay.ReplicaConvergence
open Function Executions ChangeLog PreviewRecords Replicas CachedVersions MemoryIndexes

/-- A put or delete may publish: no later change of its record has been applied, and for an
    operation or a preview the map holds what it has read or what it has written. -/
def publishable (store : Store Key Record) (r : Replica) (put : Put) (sequence : Nat) : Bool :=
  (store.log.all fun row => row.key ≠ put.key ∨ row.sequence = sequence ∨ r.cursor < row.sequence) ∧
    (indexed put.key → r.memory.records put.key = put.before ∨ r.memory.records put.key = put.after) ∧
    put.after.all (hostFree r.memory)

def converging (w : World) : Action → Bool
  | .loadCurrent index rows => ChangeCursor.settled w (.loadCurrent index rows) ∧ (hostnames rows).Nodup
  | .publish index =>
    match w.calls[index]? with
    | some (.persisted replica put sequence) =>
      (w.replicas[replica]?).all fun r => publishable w.store r put sequence
    | _ => true
  | .apply index count =>
    match w.calls[index]? with
    | some (.polled replica batch) =>
      (w.replicas[replica]?).all fun r => appliable r (batch.take count)
    | _ => true
  | action => ChangeCursor.settled w action

theorem converging_settled {w : World} {action : Action} (ok : converging w action) :
    ChangeCursor.settled w action := by
  cases action with
  | loadCurrent =>
    simp only [converging, Bool.decide_and, Bool.and_eq_true, decide_eq_true_eq] at ok
    exact ok.1
  | publish | apply | boot | put | delete | write | commit | fail => rfl
  | poll => exact ok

section Stores
variable {operationID : String → String} {holds : Record → Prop} {store next : Store Key Record}
variable {r : Replica} {change : Change} {cursor sequence : Nat} {put : Put}

section
variable (formed : store.WellFormed) (filed : ∀ key record, store.records key = some record → record.key = key ∧ holds record)
include formed filed

theorem stored_apart : (stored store).Pairwise fun a b => a.key ≠ b.key := by
  refine formed.single.filterMap _ ?_
  intro a b different record known other found
  rw [(filed a.key record known).1, (filed b.key other found).1]
  exact different

theorem fresh_records {rows : List Record} (all : rows.Perm (stored store)) (key : Key) :
    (rows.foldl loadRecord emptyMemory).records key = (store.records key).map Record.normal := by
  have apart : rows.Pairwise fun a b => a.key ≠ b.key :=
    (all.symm.pairwise (stored_apart formed filed) fun different => different.symm)
  cases known : store.records key with
  | none =>
    rw [loads_elsewhere]
    · rfl
    · intro record member named
      obtain ⟨row, -, found⟩ := List.mem_filterMap.mp (all.mem_iff.mp member)
      rw [(filed row.key record found).1] at named
      rw [named, known] at found
      cases found
  | some record =>
    obtain ⟨row, logged, rfl⟩ := formed.recorded key record known
    have member : record ∈ rows := all.mem_iff.mpr (List.mem_filterMap.mpr ⟨row, logged, known⟩)
    have named := (filed row.key record known).1
    rw [← named]
    exact loads_records apart member

end

theorem fresh_aligned (formed : store.WellFormed)
    (filed : ∀ key record, store.records key = some record → record.key = key ∧ Owned operationID record)
    {rows : List Record} (all : rows.Perm (stored store)) (distinct : (hostnames rows).Nodup) :
    Aligned (rows.foldl loadRecord emptyMemory) := by
  have apart : rows.Pairwise fun a b => a.key ≠ b.key :=
    all.symm.pairwise (stored_apart formed filed) fun different => different.symm
  have owned : ∀ record ∈ rows, Owned operationID record := by
    intro record member
    obtain ⟨row, -, known⟩ := List.mem_filterMap.mp (all.mem_iff.mp member)
    exact (filed row.key record known).2
  exact loads_aligned empty_aligned empty_filed owned (fun _ _ => rfl) (fun _ _ => rfl) apart distinct

def Synced (store : Store Key Record) (r : Replica) (key : Key) : Prop :=
  r.memory.records key = (store.records key).map Record.normal ∨
    ∃ row ∈ store.log, row.key = key ∧ r.cursor < row.sequence

/-- The change is the last one of its record, or a row of its record has come up above it. -/
def Standing (store : Store Key Record) (change : Change) : Prop :=
  (change.row ∈ store.log ∧ change.record = store.records change.row.key) ∨
    ∃ row ∈ store.log, row.key = change.row.key ∧ change.row.sequence < row.sequence

def Complete (store : Store Key Record) (cursor : Nat) (batch : List Change) : Prop :=
  ∀ change ∈ batch, ∀ row ∈ store.log, cursor < row.sequence → row.sequence ≤ change.row.sequence →
    ∃ other ∈ batch, other.row = row

structure Fresh (store : Store Key Record) (cursor : Nat) (batch : List Change) : Prop where
  ascending : batch.Pairwise fun a b => a.row.sequence < b.row.sequence
  complete : Complete store cursor batch
  standing : ∀ change ∈ batch, Standing store change

structure Done (store : Store Key Record) (put : Put) (sequence : Nat) : Prop where
  issued : sequence ≤ store.issued
  ended : ∀ write ∈ store.pending, write.row.sequence ≠ sequence
  logged : ∃ row ∈ store.log, row.key = put.key
  value : ∀ row ∈ store.log, row.key = put.key → row.sequence = sequence →
    store.records put.key = put.after

section
variable (later : store.Later next)
include later

theorem synced_later (closed : store.Closed r.cursor)
    {key : Key} (synced : Synced store r key) : Synced next r key := by
  rcases synced with same | ⟨row, logged, named, above⟩
  · rcases later.records key with kept | ⟨write, held, logged, named⟩
    · exact Or.inl (kept.symm ▸ same)
    · exact Or.inr ⟨write.row, logged, named, closed.2 write held⟩
  · rcases later.moved row logged with ⟨kept, -⟩ | ⟨moved, there, key, upward⟩
    · exact Or.inr ⟨row, kept, named, above⟩
    · exact Or.inr ⟨moved, there, key.trans named, by omega⟩

theorem standing_later (standing : Standing store change) : Standing next change := by
  rcases standing with ⟨logged, value⟩ | ⟨row, logged, named, above⟩
  · rcases later.moved change.row logged with ⟨kept, same⟩ | moved
    · exact Or.inl ⟨kept, value.trans same.symm⟩
    · exact Or.inr moved
  · rcases later.moved row logged with ⟨kept, -⟩ | ⟨moved, there, key, upward⟩
    · exact Or.inr ⟨row, kept, named, above⟩
    · exact Or.inr ⟨moved, there, key.trans named, by omega⟩

theorem fresh_later {batch : List Change} {onward : Nat}
    (closed : ∀ change ∈ batch, store.Closed change.row.sequence) (advanced : cursor ≤ onward)
    (fresh : Fresh store cursor batch) : Fresh next onward batch := by
  refine ⟨fresh.ascending, ?_, fun change member => standing_later later (fresh.standing change member)⟩
  intro change member row logged above below
  rcases later.rows row logged with ⟨old, -⟩ | ⟨write, held, rfl⟩
  · exact fresh.complete change member row old (by omega) below
  · have beyond := (closed change member).2 write held
    omega

theorem done_later (done : Done store put sequence) : Done next put sequence := by
  refine ⟨Nat.le_trans done.issued later.issued, ?_, ?_, ?_⟩
  · intro write member
    rcases later.pending write member with old | new
    · exact done.ended write old
    · have issued := done.issued
      omega
  · obtain ⟨row, logged, named⟩ := done.logged
    rcases later.moved row logged with ⟨kept, -⟩ | ⟨moved, there, key, -⟩
    · exact ⟨row, kept, named⟩
    · exact ⟨moved, there, key.trans named⟩
  · intro row logged named number
    rcases later.rows row logged with ⟨old, same⟩ | ⟨write, held, rfl⟩
    · rw [← named, same, named]
      exact done.value row old named number
    · exact absurd number (done.ended write held)

end

theorem fresh_take {batch : List Change} (fresh : Fresh store cursor batch)
    (count : Nat) : Fresh store cursor (batch.take count) := by
  refine ⟨fresh.ascending.take, ?_, fun change member =>
    fresh.standing change (List.mem_of_mem_take member)⟩
  intro change member row logged above below
  obtain ⟨other, inside, rfl⟩ := fresh.complete change (List.mem_of_mem_take member) row logged above below
  refine ⟨other, ?_, rfl⟩
  have ordered := fresh.ascending
  rw [← List.take_append_drop count batch] at inside ordered
  rcases List.mem_append.mp inside with kept | left
  · exact kept
  · have beyond := (List.pairwise_append.mp ordered).2.2 change member other left
    omega

theorem fresh_rest {rest : List Change} {onward : Nat}
    (fresh : Fresh store cursor (change :: rest)) (advanced : cursor ≤ onward)
    (reached : change.row.sequence ≤ onward) : Fresh store onward rest := by
  obtain ⟨-, ascending⟩ := List.pairwise_cons.mp fresh.ascending
  refine ⟨ascending, ?_, fun other member => fresh.standing other (List.mem_cons_of_mem change member)⟩
  intro later member row logged above below
  obtain ⟨other, inside, rfl⟩ :=
    fresh.complete later (List.mem_cons_of_mem change member) row logged (by omega) below
  rcases List.mem_cons.mp inside with rfl | behind
  · omega
  · exact ⟨other, behind, rfl⟩

theorem loaded_value {m : Memory} (own : ChangeFiled holds change) (fits : change.record.all (loadable m)) :
    (change.record.elim none fun record => if recordVersionLocked m change.row.key < record.version then
      some record.normal else m.records change.row.key) = change.record.map Record.normal := by
  cases known : change.record with
  | none => rfl
  | some record =>
    have named := (own record known).1
    simp only [known, Option.all_some, loadable, named, Bool.decide_or, Bool.decide_and, Bool.or_eq_true,
      Bool.and_eq_true, decide_eq_true_eq] at fits
    rw [Option.elim_some, Option.map_some]
    split
    · rfl
    · rename_i notNewer
      rcases fits with held | ⟨newer, -⟩
      · exact held
      · exact absurd newer notNewer

theorem apply_change_synced {rest : List Change} (filed : MemoryFiled holds r.memory) (own : ChangeFiled holds change)
    (fresh : Fresh store r.cursor (change :: rest))
    (fits : change.row.sequence ≤ r.cursor ∨ change.record.all (loadable r.memory))
    (synced : ∀ key, Synced store r key) (key : Key) : Synced store (applyChange r change) key := by
  unfold applyChange
  split
  · exact synced key
  · rename_i unseen
    have looked := apply_record_records filed (fun record known => (own record known).1) key
    unfold Synced
    simp only [looked]
    by_cases same : key = change.row.key
    · subst same
      rcases fresh.standing change List.mem_cons_self with ⟨-, value⟩ | ahead
      · refine Or.inl ?_
        rw [if_pos rfl, ← value]
        exact loaded_value own (fits.resolve_left unseen)
      · exact Or.inr ahead
    · rw [if_neg same]
      rcases synced key with kept | ⟨row, logged, named, above⟩
      · exact Or.inl kept
      · refine Or.inr ⟨row, logged, named, ?_⟩
        by_contra notAbove
        obtain ⟨other, inside, rfl⟩ := fresh.complete change List.mem_cons_self row logged above
          (Nat.le_of_not_lt notAbove)
        rcases List.mem_cons.mp inside with rfl | behind
        · exact same named.symm
        · exact notAbove ((List.pairwise_cons.mp fresh.ascending).1 other behind)

theorem apply_changes_synced {changes : List Change}
    (normal : ∀ record, holds record → holds record.normal) (filed : MemoryFiled holds r.memory)
    (own : ∀ change ∈ changes, ChangeFiled holds change) (fresh : Fresh store r.cursor changes)
    (fits : appliable r changes) (synced : ∀ key, Synced store r key) (key : Key) :
    Synced store (changes.foldl applyChange r) key := by
  induction changes generalizing r with
  | nil => exact synced key
  | cons change rest ih =>
    simp only [appliable, Bool.decide_or, Bool.decide_and, Bool.and_eq_true, Bool.or_eq_true,
      decide_eq_true_eq] at fits
    have mine := own change List.mem_cons_self
    have advanced := ChangeCursor.apply_change_advances r change
    exact ih (apply_change_filed normal filed mine) (fun other member => own other (List.mem_cons_of_mem change member))
      (fresh_rest fresh advanced.1 advanced.2) fits.2
      (apply_change_synced filed mine fresh fits.1 synced)

theorem publish_records {m : Memory} (own : PutFiled operationID holds put) (key : Key) :
    (publish m put).records key = if key = put.key then put.after else m.records key := by
  obtain ⟨named, before, request⟩ := put
  cases request with
  | none =>
    cases before with
    | none => exact absurd own.real (by simp)
    | some record =>
      obtain ⟨rfl, -⟩ := own.before record rfl
      by_cases same : key = record.key
      · rw [if_pos same, same]
        exact update_self _ _ _
      · rw [if_neg same]
        exact update_of_ne same _ _
  | some record =>
    obtain ⟨rfl, -⟩ := own.request record rfl
    simp only [publish, Put.after, Option.map_some, publishRecord, normal_key]
    by_cases same : key = record.key
    · rw [if_pos same, same, update_self]
    · rw [if_neg same, update_of_ne same]

theorem normal_normal (record : Record) : record.normal.normal = record.normal := by
  cases record with
  | integration =>
    simp only [Record.normal, normalizeIntegration, orDefault]
    grind
  | plain | operation | preview => rfl

theorem publish_synced (own : PutFiled operationID holds put) (done : Done store put sequence)
    (last : ∀ row ∈ store.log, row.key = put.key → row.sequence = sequence ∨ r.cursor < row.sequence)
    (synced : ∀ key, Synced store r key) (key : Key) :
    Synced store { r with memory := publish r.memory put } key := by
  unfold Synced
  simp only [publish_records own]
  by_cases same : key = put.key
  · rw [if_pos same, same]
    obtain ⟨row, logged, named⟩ := done.logged
    rcases last row logged named with number | above
    · refine Or.inl ?_
      rw [done.value row logged named number]
      cases request : put.request with
      | none => simp [Put.after, request]
      | some => simp [Put.after, request, normal_normal]
    · exact Or.inr ⟨row, logged, named, above⟩
  · rw [if_neg same]
    exact synced key

theorem poll_fresh (formed : store.WellFormed) (cursor : Nat) :
    Fresh store cursor (loadChanges store cursor batchSize) := by
  refine ⟨List.pairwise_map.mpr (load_ascending formed cursor batchSize), ?_, ?_⟩
  · intro change member row logged above below
    obtain ⟨inside, -⟩ := ChangeCursor.load_change member
    have given : row ∈ store.loadChanges cursor batchSize := by
      by_cases same : row = change.row
      · exact same ▸ inside
      · have symmetric : Std.Symm fun a b : Row Key => a.sequence ≠ b.sequence :=
          ⟨fun _ _ apart => apart.symm⟩
        have apart := formed.numbers.forall logged (load_mem inside).1 same
        exact load_below inside logged above (by omega)
    rw [← ChangeCursor.load_rows] at given
    exact List.mem_map.mp given
  · intro change member
    obtain ⟨inside, value⟩ := ChangeCursor.load_change member
    exact Or.inl ⟨(load_mem inside).1, value⟩

theorem commit_done (formed : store.WellFormed) (held : writeOf put sequence ∈ store.pending) :
    Done (store.commit (writeOf put sequence)) put sequence := by
  refine ⟨formed.taken _ held, ?_, ⟨_, commit_log.mpr (Or.inl rfl), rfl⟩, ?_⟩
  · intro other member
    exact (commit_others formed held member).2.2
  · intro row logged named number
    exact update_self _ _ _

end Stores

structure Invariant (operationID : String → String) (w : World) : Prop where
  cursor : ChangeCursor.Invariant w
  filed : Filed operationID (Owned operationID) w
  batches : ∀ index batch, .polled index batch ∈ w.calls → ∀ r, w.replicas[index]? = some r →
    Fresh w.store r.cursor batch
  persisted : ∀ index put sequence, .persisted index put sequence ∈ w.calls → Done w.store put sequence
  synced : ∀ (index : Nat) (r : Replica), w.replicas[index]? = some r → ∀ key, Synced w.store r key
  aligned : ∀ (index : Nat) (r : Replica), w.replicas[index]? = some r → Aligned r.memory

section Steps
variable {operationID : String → String} {w next : World}
variable {index : Nat} {r : Replica} {rows : List Record}

theorem new_invariant : Invariant operationID newWorld := by
  refine ⟨ChangeCursor.new_invariant, new_filed, ?_, ?_, ?_, ?_⟩
  all_goals simp [newWorld]

section
variable (inv : Invariant operationID w)
include inv

theorem onward_invariant (cursor : ChangeCursor.Invariant next)
    (filed : Filed operationID (Owned operationID) next) (later : w.store.Later next.store)
    (advanced : ∀ (index : Nat) (old r : Replica), w.replicas[index]? = some old →
      next.replicas[index]? = some r → old.cursor ≤ r.cursor)
    (replicas : ∀ (index : Nat) (r : Replica), next.replicas[index]? = some r →
      (∃ old, w.replicas[index]? = some old ∧ r.memory = old.memory ∧ r.cursor = old.cursor) ∨
      Aligned r.memory ∧ ∀ key, Synced next.store r key)
    (polled : ∀ index batch, .polled index batch ∈ next.calls → .polled index batch ∈ w.calls ∨
      ∀ r, next.replicas[index]? = some r → Fresh next.store r.cursor batch)
    (persisted : ∀ index put sequence, .persisted index put sequence ∈ next.calls →
      .persisted index put sequence ∈ w.calls ∨ Done next.store put sequence) :
    Invariant operationID next := by
  refine ⟨cursor, filed, ?_, ?_, ?_, ?_⟩
  · intro index batch member r there
    rcases polled index batch member with old | fresh
    · obtain ⟨before, known⟩ : ∃ before, w.replicas[index]? = some before :=
        ⟨_, List.getElem?_eq_getElem (inv.cursor.polled index batch old)⟩
      exact fresh_later later (fun change inside => (inv.cursor.batches index batch old before known change inside).1)
        (advanced index before r known there) (inv.batches index batch old before known)
    · exact fresh r there
  · intro index put sequence member
    rcases persisted index put sequence member with old | new
    · exact done_later later (inv.persisted index put sequence old)
    · exact new
  · intro index r there key
    rcases replicas index r there with ⟨old, known, memory, same⟩ | ⟨-, synced⟩
    · have before := synced_later later (inv.cursor.cursors index old known).1 (inv.synced index old known key)
      unfold Synced at before ⊢
      rw [memory, same]
      exact before
    · exact synced key
  · intro index r there
    rcases replicas index r there with ⟨old, known, memory, -⟩ | ⟨aligned, -⟩
    · rw [memory]
      exact inv.aligned index old known
    · exact aligned

theorem quiet_invariant (cursor : ChangeCursor.Invariant next)
    (filed : Filed operationID (Owned operationID) next) (quiet : Quiet w next) : Invariant operationID next := by
  refine onward_invariant inv cursor filed quiet.later ?_ ?_
    (fun index batch member => Or.inl (quiet.polled index batch member)) ?_
  · intro index old r known there
    rw [quiet.replicas, known] at there
    cases there
    exact Nat.le_refl _
  · intro index r there
    rw [quiet.replicas] at there
    exact Or.inl ⟨r, there, rfl, rfl⟩
  · intro index put sequence member
    rcases quiet.persisted index put sequence member with old | ⟨held, ended⟩
    · exact Or.inl old
    · rw [ended]
      exact Or.inr (commit_done inv.filed.formed held)

theorem replica_invariant {call : Nat} {after : Replica} (there : w.replicas[index]? = some r)
    (cursor : ChangeCursor.Invariant (setCall (setReplica w index after) call .returned))
    (filed : Filed operationID (Owned operationID) (setCall (setReplica w index after) call .returned))
    (advanced : r.cursor ≤ after.cursor) (aligned : Aligned after.memory)
    (synced : ∀ key, Synced w.store after key) :
    Invariant operationID (setCall (setReplica w index after) call .returned) := by
  refine onward_invariant inv cursor filed (later_same w.store) ?_ ?_ ?_ ?_
  · intro other old found known here
    rcases set_replica_cases here with ⟨rfl, rfl⟩ | ⟨-, same⟩
    · cases there.symm.trans known
      exact advanced
    · cases known.symm.trans same
      exact Nat.le_refl _
  · intro other found here
    rcases set_replica_cases here with ⟨-, rfl⟩ | ⟨-, same⟩
    · exact Or.inr ⟨aligned, synced⟩
    · exact Or.inl ⟨found, same, rfl, rfl⟩
  · intro other batch member
    exact Or.inl ((set_call_cases member).resolve_left nofun)
  · intro other put sequence member
    exact Or.inl ((set_call_cases member).resolve_left nofun)

theorem load_invariant {cursor : Nat} (all : rows.Perm (stored w.store)) (distinct : (hostnames rows).Nodup)
    (after : ChangeCursor.Invariant { setCall w index .returned with
      replicas := w.replicas ++ [⟨rows.foldl loadRecord emptyMemory, cursor, w.committed, []⟩] })
    (filed : Filed operationID (Owned operationID) { setCall w index .returned with
      replicas := w.replicas ++ [⟨rows.foldl loadRecord emptyMemory, cursor, w.committed, []⟩] }) :
    Invariant operationID { setCall w index .returned with
      replicas := w.replicas ++ [⟨rows.foldl loadRecord emptyMemory, cursor, w.committed, []⟩] } := by
  have formed := inv.filed.formed
  have aligned : Aligned (rows.foldl loadRecord emptyMemory) :=
    fresh_aligned formed inv.filed.stored all distinct
  refine onward_invariant inv after filed (later_same w.store) ?_ ?_ ?_ ?_
  · intro other old found known here
    rw [List.getElem?_append_left (List.getElem?_eq_some_iff.mp known).1] at here
    cases known.symm.trans here
    exact Nat.le_refl _
  · intro other found here
    rcases append_replica_cases here with ⟨-, rfl⟩ | old
    · exact Or.inr ⟨aligned, fun key => Or.inl (fresh_records formed inv.filed.stored all key)⟩
    · exact Or.inl ⟨found, old, rfl, rfl⟩
  · intro other batch member
    exact Or.inl ((set_call_cases member).resolve_left nofun)
  · intro other put sequence member
    exact Or.inl ((set_call_cases member).resolve_left nofun)

theorem poll_invariant (there : w.replicas[index]? = some r)
    (after : ChangeCursor.Invariant (addCall (setReplica w index (r.given (loadChanges w.store r.cursor batchSize)))
      (.polled index (loadChanges w.store r.cursor batchSize))))
    (filed : Filed operationID (Owned operationID) (addCall (setReplica w index
      (r.given (loadChanges w.store r.cursor batchSize)))
      (.polled index (loadChanges w.store r.cursor batchSize)))) :
    Invariant operationID (addCall (setReplica w index (r.given (loadChanges w.store r.cursor batchSize)))
      (.polled index (loadChanges w.store r.cursor batchSize))) := by
  refine onward_invariant inv after filed (later_same w.store) ?_ ?_ ?_ ?_
  · intro other old found known here
    rcases set_replica_cases here with ⟨rfl, rfl⟩ | ⟨-, same⟩
    · cases there.symm.trans known
      exact Nat.le_refl _
    · cases known.symm.trans same
      exact Nat.le_refl _
  · intro other found here
    rcases set_replica_cases here with ⟨rfl, rfl⟩ | ⟨-, same⟩
    · exact Or.inl ⟨r, there, rfl, rfl⟩
    · exact Or.inl ⟨found, same, rfl, rfl⟩
  · intro other batch member
    rcases add_call_cases member with new | old
    · cases new
      refine Or.inr ?_
      intro found here
      rcases set_replica_cases here with ⟨-, rfl⟩ | ⟨different, -⟩
      · exact poll_fresh inv.filed.formed r.cursor
      · exact absurd rfl different
    · exact Or.inl old
  · intro other put sequence member
    exact Or.inl ((add_call_cases member).resolve_left nofun)

end

theorem step_invariant (action : Action) (ok : converging w action)
    (inv : Invariant operationID w) (stepped : step operationID w action = some next) :
    Invariant operationID next := by
  have cursor := ChangeCursor.step_invariant action (converging_settled ok) inv.cursor stepped
  have filed := step_filed owned_kept inv.filed stepped
  cases step_taken operationID stepped with
  | loaded index rows cursor here all =>
    simp only [converging, Bool.decide_and, Bool.and_eq_true, decide_eq_true_eq] at ok
    exact load_invariant inv all ok.2 ‹_› filed
  | published index replica put sequence r here there =>
    simp only [converging, here, there, Option.all_some, publishable, Bool.decide_and, Bool.and_eq_true,
      decide_eq_true_eq, List.all_eq_true] at ok
    obtain ⟨last, held, free⟩ := ok
    have member := List.mem_of_getElem? here
    have own := inv.filed.puts _ member put rfl
    have last : ∀ row ∈ w.store.log, row.key = put.key → row.sequence = sequence ∨ r.cursor < row.sequence :=
      fun row logged named => (last row logged).resolve_left fun different => different named
    exact replica_invariant inv there cursor filed (Nat.le_refl _)
      (publish_aligned (inv.aligned replica r there) (inv.filed.memory replica r there) own held free)
      (publish_synced own (inv.persisted replica put sequence member) last (inv.synced replica r there))
  | polled index r there => exact poll_invariant inv there cursor filed
  | applied index count replica batch r here there =>
    simp only [converging, here, there, Option.all_some] at ok
    have member := List.mem_of_getElem? here
    have own : ∀ change ∈ batch.take count, ChangeFiled (Owned operationID) change :=
      fun change inside => (inv.filed.batches replica batch member).1 change (List.mem_of_mem_take inside)
    have memory := inv.filed.memory replica r there
    refine replica_invariant inv there cursor filed (ChangeCursor.apply_changes_advance r _).1
      (apply_changes_aligned (inv.aligned replica r there) memory own ok) ?_
    exact apply_changes_synced owned_kept.normal memory own
      (fresh_take (inv.batches replica batch member r there) count) ok (inv.synced replica r there)
  | _ => exact quiet_invariant inv cursor filed (taken_quiet inv.filed.formed (step_taken operationID stepped) rfl)

-- Two previews with one host name would both be what the index has for it.
theorem aligned_hostnames {m : Memory} (aligned : Aligned m)
    (held : ∀ record ∈ rows, m.records record.key = some record.normal)
    (apart : rows.Pairwise fun a b => a.key ≠ b.key) : (hostnames rows).Nodup := by
  have reached : ∀ record ∈ rows, ∀ hostname, record.preview?.map Preview.hostname = some hostname →
      record.key = ⟨.preview, record.key.id⟩ ∧ m.previews.hosts hostname = some record.key.id := by
    intro record member hostname named
    cases record with
    | preview value =>
      cases named
      refine ⟨rfl, aligned.hosts value.id value ?_⟩
      rw [Memory.preview, ← preview_key value, held _ member]
      rfl
    | plain | operation | integration => cases named
  refine List.Pairwise.filterMap _ ?_ (List.Pairwise.and_mem.mp apart)
  rintro a b ⟨first, second, different⟩ one found other known rfl
  obtain ⟨keyed, left⟩ := reached a first one found
  obtain ⟨named, right⟩ := reached b second one known
  refine different ?_
  rw [keyed, named, Option.some.inj (left.symm.trans right)]

/-- A replica that has read the log to its end holds what a fresh service loads. -/
theorem read_replica_is_fresh (inv : Invariant operationID w)
    (there : w.replicas[index]? = some r) (read : loadChanges w.store r.cursor batchSize = []) (all : rows.Perm (stored w.store)) :
    r.memory = rows.foldl loadRecord emptyMemory := by
  have formed := inv.filed.formed
  have records : ∀ key, r.memory.records key = (w.store.records key).map Record.normal := by
    intro key
    rcases inv.synced index r there key with same | ⟨row, logged, -, above⟩
    · exact same
    · have some : w.store.loadChanges r.cursor batchSize ≠ [] := load_some (by decide) logged above
      rw [← ChangeCursor.load_rows, read] at some
      exact absurd rfl some
  have apart : rows.Pairwise fun a b => a.key ≠ b.key :=
    all.symm.pairwise (stored_apart formed inv.filed.stored) fun different => different.symm
  have held : ∀ record ∈ rows, r.memory.records record.key = some record.normal := by
    intro record member
    obtain ⟨row, -, known⟩ := List.mem_filterMap.mp (all.mem_iff.mp member)
    rw [records, (inv.filed.stored row.key record known).1, known]
    rfl
  have aligned := inv.aligned index r there
  refine aligned_eq aligned (fresh_aligned formed inv.filed.stored all (aligned_hostnames aligned held apart)) ?_
  funext key
  rw [records, fresh_records formed inv.filed.stored all]

end Steps

/-- In every run whose steps converge, whenever a replica has nothing left to read its memory, with
    all its indexes, is that of a service that starts then, whatever order that one loads in. -/
theorem converging_replica_is_fresh (operationID : String → String) (actions : List Action) (w : World)
    (guarded : Guarded (step operationID) (fun w action => converging w action) newWorld actions)
    (ran : run (step operationID) newWorld actions = some w) (index : Nat) (r : Replica)
    (there : w.replicas[index]? = some r) (read : loadChanges w.store r.cursor batchSize = [])
    (rows : List Record) (all : rows.Perm (stored w.store)) :
    r.memory = rows.foldl loadRecord emptyMemory := by
  have inv : Invariant operationID w := guarded_run_invariant (Invariant operationID)
    (fun state action next ok inv stepped => step_invariant action ok inv stepped)
    guarded ran new_invariant
  exact read_replica_is_fresh inv there read all

def member (version : Nat) (text : String) : Record := .plain .integrationUser "member" version text

def shared : List Action :=
  [.boot, .loadCurrent 0 [], .boot, .loadCurrent 1 [],
    .put 0 (member 1 "invited"), .write 2, .commit 2 true, .publish 2,
    .put 0 (member 2 "active"), .write 3, .commit 3 true, .publish 3, .poll 1, .apply 4 1000]

def recreatedSlowly : List Action :=
  shared ++ [.delete 0 (member 1 "").key, .write 5, .commit 5 true, .publish 5, .poll 1, .apply 6 1000,
    .put 0 (member 1 "again"), .write 7, .commit 7 true, .publish 7, .poll 1, .apply 8 1000]

theorem recreated_slowly_is_fresh : ∃ w r, run (step id) newWorld recreatedSlowly = some w ∧
    w.replicas[1]? = some r ∧ r.memory = (stored w.store).foldl loadRecord emptyMemory ∧
    r.memory.records (member 1 "").key = some (member 1 "again") := by
  have guarded : Guarded (step id) (fun w action => converging w action) newWorld recreatedSlowly :=
    checked_guarded converging (fun _ _ passed => passed) _ _ (by decide +kernel)
  refine ⟨_, _, rfl, rfl, ?_, by decide +kernel⟩
  exact converging_replica_is_fresh id recreatedSlowly _ guarded rfl 1 _ rfl (by decide +kernel) _ (List.Perm.refl _)

def recreatedQuickly : List Action :=
  shared ++ [.delete 0 (member 1 "").key, .write 5, .commit 5 true, .publish 5,
    .put 0 (member 1 "again"), .write 6, .commit 6 true, .publish 6, .poll 1, .apply 7 1000]

/-- Everything has ended and the log is read, and the second service holds the user that was
    deleted. -/
theorem recreated_quickly_is_stale : ∃ w r, run (step id) newWorld recreatedQuickly = some w ∧
    w.replicas[1]? = some r ∧ loadChanges w.store r.cursor batchSize = [] ∧
    (w.calls.all fun call => call = .returned) ∧
    r.memory.records (member 1 "").key = some (member 2 "active") ∧
    r.memory ≠ (stored w.store).foldl loadRecord emptyMemory := by
  refine ⟨_, _, rfl, rfl, by decide +kernel, by decide +kernel, by decide +kernel, ?_⟩
  intro same
  have looked := congrFun (congrArg Memory.records same) (member 1 "").key
  exact absurd looked (by decide +kernel)

end PieRelay.ReplicaConvergence
