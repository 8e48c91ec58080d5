import PieRelay.Replicas

/-!
What the change cursor of a replica leaves out. `NewService` reads the highest number of
the log before it loads its snapshot, and `refreshIncremental` moves the cursor to the
number of the last row it was given. A number below the cursor that becomes visible later
is never asked for again, unless its record is written once more.
-/
namespace PieRelay.ChangeCursor
open Function Executions ChangeLog Replicas List

/-- The snapshot of the replica has the change, or a poll has returned its record at that change
    or a later one. The log keeps one row for a record, so later changes stand for earlier ones. -/
def Covered (r : Replica) (change : Row Key) : Prop :=
  change ∈ r.loaded ∨ ∃ row ∈ r.returned, row.key = change.key ∧ change.sequence ≤ row.sequence

instance (r : Replica) (change : Row Key) : Decidable (Covered r change) :=
  inferInstanceAs (Decidable (_ ∨ _))

def Ahead (store : Store Key Record) (bound : Nat) (change : Row Key) : Prop :=
  ∃ row ∈ store.log, row.key = change.key ∧ change.sequence ≤ row.sequence ∧ bound < row.sequence

def pollOnce (store : Store Key Record) (r : Replica) : Replica :=
  let batch := loadChanges store r.cursor batchSize
  batch.foldl applyChange (r.given batch)

/-- Every full batch is followed by another poll; `rounds` bounds how many there are. -/
def refreshIncremental (store : Store Key Record) : Nat → Replica → Replica
  | 0, r => r
  | rounds + 1, r =>
    if (loadChanges store r.cursor batchSize).length < batchSize then pollOnce store r
    else refreshIncremental store rounds (pollOnce store r)

/-- A poll from the cursor comes past the number: a row above both is visible, and fewer rows than
    a batch holds lie between the two. -/
def overtaken (store : Store Key Record) (cursor number : Nat) : Bool :=
  (store.log.any fun row => cursor < row.sequence ∧ number < row.sequence) ∧
    (store.log.filter fun row => cursor < row.sequence ∧ row.sequence < number).length < batchSize

/-- When a snapshot is loaded, no transaction is open that has taken a number at or below the
    cursor read before it; when a poll is answered, none whose number the poll comes past. -/
def settled (w : World) : Action → Bool
  | .loadCurrent index _ =>
    match w.calls[index]? with
    | some (.booting cursor) => w.store.pending.all fun write => cursor < write.row.sequence
    | _ => true
  | .poll index =>
    (w.replicas[index]?).all fun r => w.store.pending.all fun write =>
      ¬ overtaken w.store r.cursor write.row.sequence
  | _ => true

/-- Whatever has a number up to `bound` has ended, and if it was committed it is covered or its
    record has come up again above `bound`. -/
def Passed (w : World) (r : Replica) (bound : Nat) : Prop :=
  w.store.Closed bound ∧ ∀ change ∈ w.committed, Covered r change ∨ Ahead w.store bound change

structure Invariant (w : World) : Prop where
  formed : w.store.WellFormed
  logged : ∀ change ∈ w.committed, ∃ row ∈ w.store.log,
    row.key = change.key ∧ change.sequence ≤ row.sequence
  booting : ∀ cursor, .booting cursor ∈ w.calls → cursor ≤ w.store.issued
  polled : ∀ index batch, .polled index batch ∈ w.calls → index < w.replicas.length
  cursors : ∀ (index : Nat) (r : Replica), w.replicas[index]? = some r → Passed w r r.cursor
  batches : ∀ index batch, .polled index batch ∈ w.calls → ∀ r, w.replicas[index]? = some r →
    ∀ change ∈ batch, Passed w r change.row.sequence

/-- How the store moves on: what has ended stays ended, rows move up, and a change that is new has
    a number above everything that had ended. -/
structure Onward (w next : World) : Prop where
  formed : next.store.WellFormed
  issued : w.store.issued ≤ next.store.issued
  closed : ∀ bound, w.store.Closed bound → next.store.Closed bound
  moved : ∀ row ∈ w.store.log, ∃ later ∈ next.store.log,
    later.key = row.key ∧ row.sequence ≤ later.sequence
  fresh : ∀ change ∈ next.committed, change ∈ w.committed ∨
    change ∈ next.store.log ∧ ∀ bound, w.store.Closed bound → bound < change.sequence

section Onward
variable {w next : World} {r after : Replica} {bound : Nat}

theorem onward_same (formed : w.store.WellFormed) (store : next.store = w.store)
    (committed : next.committed = w.committed) : Onward w next := by
  refine ⟨store ▸ formed, by rw [store], fun bound closed => store ▸ closed, ?_, ?_⟩
  · intro row member
    exact ⟨row, store ▸ member, rfl, Nat.le_refl _⟩
  · intro change member
    exact Or.inl (committed ▸ member)

theorem passed_onward (onward : Onward w next)
    (covered : ∀ change, Covered r change → Covered after change) (passed : Passed w r bound) :
    Passed next after bound := by
  refine ⟨onward.closed bound passed.1, ?_⟩
  intro change member
  rcases onward.fresh change member with old | ⟨row, above⟩
  · rcases passed.2 change old with done | ⟨row, logged, named, number, higher⟩
    · exact Or.inl (covered change done)
    · obtain ⟨later, there, same, upward⟩ := onward.moved row logged
      exact Or.inr ⟨later, there, same.trans named, by omega, by omega⟩
  · exact Or.inr ⟨change, row, rfl, Nat.le_refl _, above bound passed.1⟩

theorem logged_onward (onward : Onward w next) (logged : ∀ change ∈ w.committed, ∃ row ∈ w.store.log,
      row.key = change.key ∧ change.sequence ≤ row.sequence) :
    ∀ change ∈ next.committed, ∃ row ∈ next.store.log, row.key = change.key ∧ change.sequence ≤ row.sequence := by
  intro change member
  rcases onward.fresh change member with old | ⟨row, -⟩
  · obtain ⟨row, there, named, number⟩ := logged change old
    obtain ⟨later, moved, same, upward⟩ := onward.moved row there
    exact ⟨later, moved, same.trans named, by omega⟩
  · exact ⟨change, row, rfl, Nat.le_refl _⟩

theorem quiet_onward (quiet : Quiet w next) : Onward w next := by
  refine ⟨quiet.formed, quiet.later.issued, fun bound => later_closed quiet.later, ?_, ?_⟩
  · intro row logged
    rcases quiet.later.moved row logged with ⟨kept, -⟩ | ⟨later, there, named, upward⟩
    · exact ⟨row, kept, rfl, Nat.le_refl _⟩
    · exact ⟨later, there, named, Nat.le_of_lt upward⟩
  · intro change member
    rcases quiet.committed change member with old | ⟨logged, write, held, rfl⟩
    · exact Or.inl old
    · exact Or.inr ⟨logged, fun bound closed => closed.2 write held⟩

theorem quiet_invariant (inv : Invariant w) (quiet : Quiet w next) : Invariant next := by
  have onward := quiet_onward quiet
  refine ⟨onward.formed, logged_onward onward inv.logged, ?_, ?_, ?_, ?_⟩
  · intro cursor member
    refine Nat.le_trans ?_ onward.issued
    rcases quiet.booting cursor member with old | rfl
    · exact inv.booting cursor old
    · exact current_sequence_issued inv.formed
  · intro index batch member
    rw [quiet.replicas]
    exact inv.polled index batch (quiet.polled index batch member)
  · intro index r here
    rw [quiet.replicas] at here
    exact passed_onward onward (fun _ done => done) (inv.cursors index r here)
  · intro index batch member r here change inside
    rw [quiet.replicas] at here
    exact passed_onward onward (fun _ done => done)
      (inv.batches index batch (quiet.polled index batch member) r here change inside)

end Onward

section Refreshing
variable {store : Store Key Record} {r : Replica} {change : Change} {changes : List Change}

theorem apply_change_history : (applyChange r change).loaded = r.loaded ∧
    (applyChange r change).returned = r.returned := by
  unfold applyChange
  split <;> exact ⟨rfl, rfl⟩

theorem apply_changes_history : (changes.foldl applyChange r).loaded = r.loaded ∧
    (changes.foldl applyChange r).returned = r.returned := by
  induction changes generalizing r with
  | nil => exact ⟨rfl, rfl⟩
  | cons change rest ih =>
    rw [foldl_cons, ih.1, ih.2]
    exact apply_change_history

theorem apply_changes_cursor (r : Replica) (changes : List Change) : (changes.foldl applyChange r).cursor = r.cursor ∨
    ∃ change ∈ changes, (changes.foldl applyChange r).cursor = change.row.sequence := by
  induction changes generalizing r with
  | nil => exact Or.inl rfl
  | cons change rest ih =>
    rw [foldl_cons]
    rcases ih (applyChange r change) with same | ⟨later, member, number⟩
    · rw [same]
      unfold applyChange
      split
      · exact Or.inl rfl
      · exact Or.inr ⟨change, mem_cons_self, rfl⟩
    · exact Or.inr ⟨later, mem_cons_of_mem change member, number⟩

theorem apply_change_advances (r : Replica) (change : Change) : r.cursor ≤ (applyChange r change).cursor ∧
    change.row.sequence ≤ (applyChange r change).cursor := by
  unfold applyChange
  split
  · rename_i seen
    exact ⟨Nat.le_refl _, seen⟩
  · rename_i unseen
    exact ⟨Nat.le_of_lt (Nat.lt_of_not_le unseen), Nat.le_refl _⟩

theorem apply_changes_advance (r : Replica) (changes : List Change) : r.cursor ≤ (changes.foldl applyChange r).cursor ∧
    ∀ change ∈ changes, change.row.sequence ≤ (changes.foldl applyChange r).cursor := by
  induction changes generalizing r with
  | nil => exact ⟨Nat.le_refl _, fun change member => nomatch member⟩
  | cons change rest ih =>
    obtain ⟨onward, inside⟩ := ih (applyChange r change)
    have first := apply_change_advances r change
    refine ⟨Nat.le_trans first.1 onward, ?_⟩
    intro later member
    rcases mem_cons.mp member with rfl | old
    · exact Nat.le_trans first.2 onward
    · exact inside later old

theorem load_rows (store : Store Key Record) (cursor limit : Nat) :
    (loadChanges store cursor limit).map Change.row = store.loadChanges cursor limit := by
  simp [loadChanges, Function.comp_def]

theorem load_change {cursor limit : Nat} (member : change ∈ loadChanges store cursor limit) :
    change.row ∈ store.loadChanges cursor limit ∧ change.record = store.records change.row.key := by
  obtain ⟨row, there, rfl⟩ := mem_map.mp member
  exact ⟨there, rfl⟩

theorem given_covered {r : Replica} {change : Row Key} (batch : List Change)
    (done : Covered r change) : Covered (r.given batch) change := by
  rcases done with snapshot | ⟨row, before, rest⟩
  · exact Or.inl snapshot
  · exact Or.inr ⟨row, mem_append_right _ before, rest⟩

theorem covered_applied {r : Replica} {changes : List Change} {change : Row Key} :
    Covered (changes.foldl applyChange r) change ↔ Covered r change := by
  unfold Covered
  rw [apply_changes_history.1, apply_changes_history.2]

end Refreshing

section Steps
variable {w next : World}
variable {index : Nat} {r : Replica} {change : Change}

theorem new_invariant : Invariant newWorld := by
  refine ⟨empty_well_formed, ?_, ?_, ?_, ?_, ?_⟩
  all_goals simp [newWorld]

theorem load_invariant (inv : Invariant w) {cursor : Nat} (rows : List Record)
    (here : w.calls[index]? = some (.booting cursor))
    (ended : ∀ write ∈ w.store.pending, cursor < write.row.sequence) : Invariant { setCall w index .returned with
      replicas := w.replicas ++ [⟨rows.foldl loadRecord emptyMemory, cursor, w.committed, []⟩] } := by
  have closed : w.store.Closed cursor :=
    ⟨inv.booting cursor (mem_of_getElem? here), ended⟩
  refine ⟨inv.formed, inv.logged, ?_, ?_, ?_, ?_⟩
  · intro cursor member
    rcases set_call_cases member with new | old
    · cases new
    · exact inv.booting cursor old
  · intro other batch member
    rcases set_call_cases member with new | old
    · cases new
    · have known := inv.polled other batch old
      simp only [length_append, length_singleton]
      omega
  · intro other r there
    rcases append_replica_cases there with ⟨-, rfl⟩ | old
    · exact ⟨closed, fun change member => Or.inl (Or.inl member)⟩
    · exact inv.cursors other r old
  · intro other batch member r there
    rcases set_call_cases member with new | old
    · cases new
    · rcases append_replica_cases there with ⟨rfl, -⟩ | known
      · exact absurd (inv.polled _ batch old) (Nat.lt_irrefl _)
      · exact inv.batches other batch old r known

/-- A poll covers what it returns, and what it leaves out has numbers above all of that. -/
theorem poll_covers {store : Store Key Record} (formed : store.WellFormed)
    {committed : Row Key} (before : Covered r committed ∨ Ahead store r.cursor committed) (member : change ∈ loadChanges store r.cursor batchSize) :
    Covered (r.given (loadChanges store r.cursor batchSize)) committed ∨ Ahead store change.row.sequence committed := by
  obtain ⟨inside, -⟩ := load_change member
  have logged := (load_mem inside).1
  rcases before with done | ⟨row, known, named, number, higher⟩
  · exact Or.inl (given_covered _ done)
  · by_cases given : row ∈ store.loadChanges r.cursor batchSize
    · refine Or.inl (Or.inr ⟨row, mem_append_left _ ?_, named, number⟩)
      rw [load_rows]
      exact given
    · refine Or.inr ⟨row, known, named, number, ?_⟩
      have notBelow : ¬ row.sequence < change.row.sequence :=
        fun below => given (load_below inside known higher below)
      have symmetric : Std.Symm fun a b : Row Key => a.sequence ≠ b.sequence :=
        ⟨fun _ _ apart => apart.symm⟩
      have different : row ≠ change.row := fun same => given (same ▸ inside)
      have apart := formed.numbers.forall known logged different
      omega

theorem poll_passed (inv : Invariant w) (passed : Passed w r r.cursor) (member : change ∈ loadChanges w.store r.cursor batchSize)
    (ended : ∀ write ∈ w.store.pending, change.row.sequence < write.row.sequence) :
    Passed w (r.given (loadChanges w.store r.cursor batchSize)) change.row.sequence := by
  have logged := (load_mem (load_change member).1).1
  refine ⟨⟨inv.formed.logged _ logged, ended⟩, ?_⟩
  intro committed there
  exact poll_covers inv.formed (passed.2 committed there) member

theorem poll_invariant (inv : Invariant w) (there : w.replicas[index]? = some r)
    (ended : ∀ change ∈ loadChanges w.store r.cursor batchSize, ∀ write ∈ w.store.pending,
      change.row.sequence < write.row.sequence) :
    Invariant (addCall (setReplica w index (r.given (loadChanges w.store r.cursor batchSize)))
      (.polled index (loadChanges w.store r.cursor batchSize))) := by
  generalize batched : loadChanges w.store r.cursor batchSize = batch at ended
  have same : Onward w (addCall (setReplica w index (r.given batch)) (.polled index batch)) :=
    onward_same inv.formed rfl rfl
  have length : (setReplica w index (r.given batch)).replicas.length = w.replicas.length :=
    length_set
  refine ⟨inv.formed, inv.logged, ?_, ?_, ?_, ?_⟩
  · intro cursor member
    rcases add_call_cases member with new | old
    · cases new
    · exact inv.booting cursor old
  · intro other others member
    rcases add_call_cases member with new | old
    · cases new
      exact length ▸ (List.getElem?_eq_some_iff.mp there).1
    · exact length ▸ inv.polled other others old
  · intro other found here
    rcases set_replica_cases here with ⟨-, rfl⟩ | ⟨-, old⟩
    · exact passed_onward same (fun _ => given_covered batch) (inv.cursors index r there)
    · exact passed_onward same (fun _ done => done) (inv.cursors other found old)
  · intro other others member found here change inside
    rcases add_call_cases member with new | old
    · cases new
      rcases set_replica_cases here with ⟨-, rfl⟩ | ⟨different, -⟩
      · subst batched
        exact passed_onward same (fun _ done => done)
          (poll_passed inv (inv.cursors index r there) inside (ended change inside))
      · exact absurd rfl different
    · rcases set_replica_cases here with ⟨rfl, rfl⟩ | ⟨-, known⟩
      · exact passed_onward same (fun _ => given_covered batch) (inv.batches other others old r there change inside)
      · exact passed_onward same (fun _ done => done) (inv.batches other others old found known change inside)

theorem moved_invariant (inv : Invariant w) {call : Nat} {after : Replica} (there : w.replicas[index]? = some r)
    (covered : ∀ change, Covered r change → Covered after change) (passed : Passed w r after.cursor) :
    Invariant (setCall (setReplica w index after) call .returned) := by
  have same : Onward w (setCall (setReplica w index after) call .returned) :=
    onward_same inv.formed rfl rfl
  have length : (setReplica w index after).replicas.length = w.replicas.length := length_set
  refine ⟨inv.formed, inv.logged, ?_, ?_, ?_, ?_⟩
  · intro cursor member
    rcases set_call_cases member with new | old
    · cases new
    · exact inv.booting cursor old
  · intro other others member
    rcases set_call_cases member with new | old
    · cases new
    · exact length ▸ inv.polled other others old
  · intro other found here
    rcases set_replica_cases here with ⟨-, rfl⟩ | ⟨-, old⟩
    · exact passed_onward same covered passed
    · exact passed_onward same (fun _ done => done) (inv.cursors other found old)
  · intro other others member found here change inside
    rcases set_call_cases member with new | old
    · cases new
    · rcases set_replica_cases here with ⟨rfl, rfl⟩ | ⟨-, known⟩
      · exact passed_onward same covered (inv.batches other others old r there change inside)
      · exact passed_onward same (fun _ done => done) (inv.batches other others old found known change inside)

theorem apply_invariant (inv : Invariant w) {count replica : Nat} {batch : List Change} (here : w.calls[index]? = some (.polled replica batch))
    (there : w.replicas[replica]? = some r) :
    Invariant (setCall (setReplica w replica ((batch.take count).foldl applyChange r)) index .returned) := by
  refine moved_invariant inv there (fun _ => covered_applied.mpr) ?_
  rcases apply_changes_cursor r (batch.take count) with same | ⟨change, member, number⟩
  · rw [same]
    exact inv.cursors replica r there
  · rw [number]
    exact inv.batches replica batch (mem_of_getElem? here) r there change (mem_of_mem_take member)

theorem settled_below {store : Store Key Record} (formed : store.WellFormed) {cursor : Nat} (member : change ∈ loadChanges store cursor batchSize) {write : Write Key Record}
    (held : write ∈ store.pending) (settled : ¬ overtaken store cursor write.row.sequence) :
    change.row.sequence < write.row.sequence := by
  obtain ⟨inside, -⟩ := load_change member
  obtain ⟨logged, above⟩ := load_mem inside
  have apart := formed.unlogged write held change.row logged
  by_contra notBelow
  have beyond : write.row.sequence < change.row.sequence := by omega
  refine settled ?_
  simp only [overtaken, Bool.decide_and, Bool.and_eq_true, decide_eq_true_eq, any_eq_true]
  refine ⟨⟨change.row, logged, above, beyond⟩, ?_⟩
  have reach := load_reach formed inside beyond
  simpa only [Bool.decide_and] using reach

/-- One step of the services, as long as it is settled. -/
theorem step_invariant {operationID : String → String} (action : Action) (ended : settled w action) (inv : Invariant w)
    (stepped : step operationID w action = some next) : Invariant next := by
  cases step_taken operationID stepped with
  | loaded index rows cursor here =>
    simp only [settled, here, all_eq_true, decide_eq_true_eq] at ended
    exact load_invariant inv rows here ended
  | published index replica put sequence r here there =>
    exact moved_invariant inv there (fun _ done => done) (inv.cursors replica r there)
  | polled index r there =>
    simp only [settled, there, Option.all_some, all_eq_true, decide_eq_true_eq] at ended
    refine poll_invariant inv there ?_
    intro change member write held
    exact settled_below inv.formed member held (ended write held)
  | applied index count replica batch r here there => exact apply_invariant inv here there
  | _ => exact quiet_invariant inv (taken_quiet inv.formed (step_taken operationID stepped) rfl)

end Steps

section Runs
variable {store : Store Key Record} {r : Replica}

/-- A poll that is carried through covers the change or leaves its row above the cursor. -/
theorem poll_once_covers (formed : store.WellFormed) {committed : Row Key}
    (before : Covered r committed ∨ Ahead store r.cursor committed) :
    Covered (pollOnce store r) committed ∨ Ahead store (pollOnce store r).cursor committed := by
  unfold pollOnce
  simp only [covered_applied]
  rcases apply_changes_cursor (r.given (loadChanges store r.cursor batchSize))
      (loadChanges store r.cursor batchSize) with same | ⟨change, member, number⟩
  · rw [same]
    exact before.imp_left (given_covered _)
  · rw [number]
    exact poll_covers formed before member

def unread (store : Store Key Record) (cursor : Nat) : List (Row Key) :=
  store.log.filter fun row => cursor < row.sequence

theorem poll_once_shortens (full : ¬ (loadChanges store r.cursor batchSize).length < batchSize) :
    (unread store (pollOnce store r).cursor).length < (unread store r.cursor).length := by
  have some : loadChanges store r.cursor batchSize ≠ [] := by
    intro none
    rw [none] at full
    simp [batchSize] at full
  obtain ⟨change, member⟩ := exists_mem_of_ne_nil _ some
  have inside := load_mem (load_change member).1
  have advanced := apply_changes_advance (r.given (loadChanges store r.cursor batchSize))
    (loadChanges store r.cursor batchSize)
  have passed : change.row.sequence ≤ (pollOnce store r).cursor := advanced.2 change member
  have onward : r.cursor ≤ (pollOnce store r).cursor := advanced.1
  have fewer : (unread store (pollOnce store r).cursor).Sublist (unread store r.cursor) := by
    refine monotone_filter_right _ ?_
    intro row above
    simp only [decide_eq_true_eq] at above ⊢
    omega
  refine Nat.lt_of_le_of_ne fewer.length_le ?_
  intro same
  have here : change.row ∈ unread store r.cursor :=
    mem_filter.mpr ⟨inside.1, by simpa using inside.2⟩
  rw [← fewer.eq_of_length same] at here
  have above := (mem_filter.mp here).2
  simp only [decide_eq_true_eq] at above
  omega

/-- A refresh ends by covering every change whose record has a row above its cursor. -/
theorem refresh_covers (formed : store.WellFormed) {committed : Row Key} (rounds : Nat)
    (enough : (unread store r.cursor).length < rounds)
    (before : Covered r committed ∨ Ahead store r.cursor committed) :
    Covered (refreshIncremental store rounds r) committed := by
  induction rounds generalizing r with
  | zero => omega
  | succ rounds ih =>
    unfold refreshIncremental
    split
    · rename_i short
      unfold pollOnce
      rw [covered_applied]
      rcases before with done | ⟨row, logged, named, number, above⟩
      · exact given_covered _ done
      · refine Or.inr ⟨row, mem_append_left _ ?_, named, number⟩
        rw [load_rows]
        refine load_short ?_ logged above
        rwa [← load_rows, length_map]
    · rename_i full
      have shorter := poll_once_shortens full
      exact ih (by omega) (poll_once_covers formed before)

/-- As long as every snapshot and every poll is settled, no change is left behind a cursor: in
    every state reached a replica has it or has a row of its record to come, and a refresh from
    there returns it. -/
theorem settled_changes_are_not_skipped (operationID : String → String) (actions : List Action)
    (w : World) (guarded : Guarded (step operationID) (fun w action => settled w action) newWorld actions)
    (ran : run (step operationID) newWorld actions = some w) (index : Nat) (r : Replica)
    (there : w.replicas[index]? = some r) (change : Row Key) (committed : change ∈ w.committed) :
    (Covered r change ∨ Ahead w.store r.cursor change) ∧
      ∀ rounds, w.store.log.length < rounds → Covered (refreshIncremental w.store rounds r) change := by
  have inv : Invariant w := guarded_run_invariant Invariant
    (fun state action next ended inv stepped => step_invariant action ended inv stepped)
    guarded ran new_invariant
  have passed := (inv.cursors index r there).2 change committed
  refine ⟨passed, ?_⟩
  intro rounds enough
  refine refresh_covers inv.formed rounds ?_ passed
  have fewer := length_filter_le (fun row : Row Key => decide (r.cursor < row.sequence)) w.store.log
  exact Nat.lt_of_le_of_lt fewer enough

def alice : Record := .plain .user "alice" 1 ""
def bob : Record := .plain .user "bob" 1 ""

def overlapping : List Action :=
  [.boot, .loadCurrent 0 [], .boot, .loadCurrent 1 [],
    .put 0 alice, .write 2, .put 1 bob, .write 3]

def inOrder : List Action :=
  overlapping ++ [.commit 2 true, .publish 2, .poll 1, .apply 4 1000, .commit 3 true, .publish 3]

theorem in_order_not_skipped : ∃ w r, run (step id) newWorld inOrder = some w ∧ w.replicas[1]? = some r ∧
    ∀ rounds, w.store.log.length < rounds → Covered (refreshIncremental w.store rounds r) ⟨1, alice.key⟩ := by
  have guarded : Guarded (step id) (fun w action => settled w action) newWorld inOrder :=
    checked_guarded settled (fun _ _ passed => passed) _ _ (by decide +kernel)
  refine ⟨_, _, rfl, rfl, ?_⟩
  exact (settled_changes_are_not_skipped id inOrder _ guarded rfl 1 _ rfl ⟨1, alice.key⟩ (by decide +kernel)).2

def outOfOrder : List Action :=
  overlapping ++ [.commit 3 true, .publish 3, .poll 1, .apply 4 1000, .commit 2 true, .publish 2]

theorem out_of_order_skipped : ∃ w r, run (step id) newWorld outOfOrder = some w ∧
    w.replicas[1]? = some r ∧ ⟨1, alice.key⟩ ∈ w.committed ∧
    ∀ rounds, ¬ Covered (refreshIncremental w.store rounds r) ⟨1, alice.key⟩ := by
  refine ⟨_, _, rfl, rfl, by decide +kernel, ?_⟩
  intro rounds
  cases rounds with
  | zero => decide +kernel
  | succ =>
    unfold refreshIncremental
    rw [if_pos (by decide +kernel)]
    decide +kernel

end Runs
end PieRelay.ChangeCursor
