import Mathlib.Data.List.Pairwise
import Mathlib.Data.List.Sort
import Mathlib.Logic.Function.Basic

/-! A store of records with a log of their last changes, written by transactions. A writer
takes the next number when it writes and holds its key until it ends; what it has written,
and its row in the log, are visible from its commit on. Commits come in any order. Readers
poll the log for the rows above the number they have reached, lowest first and so many at
a time. -/
namespace PieRelay.ChangeLog
open Function List
variable {Key Value : Type}

structure Row (Key : Type) where
  sequence : Nat
  key : Key
  deriving DecidableEq

structure Write (Key Value : Type) where
  row : Row Key
  value : Option Value
  deriving DecidableEq

structure Store (Key Value : Type) where
  records : Key → Option Value
  log : List (Row Key)
  issued : Nat
  pending : List (Write Key Value)

def emptyStore : Store Key Value := ⟨fun _ => none, [], 0, []⟩

section Transactions
variable [DecidableEq Key]

def Store.writing (store : Store Key Value) (key : Key) : Bool :=
  store.pending.any fun write => write.row.key = key

def Store.write (store : Store Key Value) (key : Key) (value : Option Value) :
    Option (Store Key Value) :=
  if store.writing key then none
  else some { store with
    issued := store.issued + 1
    pending := ⟨⟨store.issued + 1, key⟩, value⟩ :: store.pending }

def Store.rollback (store : Store Key Value) (write : Write Key Value) : Store Key Value :=
  { store with pending := store.pending.filter fun other => other.row ≠ write.row }

def Store.commit (store : Store Key Value) (write : Write Key Value) : Store Key Value :=
  { store.rollback write with
    records := update store.records write.row.key write.value
    log := write.row :: store.log.filter fun row => row.key ≠ write.row.key }

end Transactions

def Store.currentSequence (store : Store Key Value) : Nat :=
  (store.log.map Row.sequence).foldr max 0

def Store.loadChanges (store : Store Key Value) (after limit : Nat) : List (Row Key) :=
  ((store.log.filter fun row => after < row.sequence).insertionSort
    fun a b => a.sequence ≤ b.sequence).take limit

def Store.Closed (store : Store Key Value) (bound : Nat) : Prop :=
  bound ≤ store.issued ∧ ∀ write ∈ store.pending, bound < write.row.sequence

instance (store : Store Key Value) (bound : Nat) : Decidable (store.Closed bound) :=
  inferInstanceAs (Decidable (_ ∧ _))

structure Store.WellFormed (store : Store Key Value) : Prop where
  logged : ∀ row ∈ store.log, row.sequence ≤ store.issued
  taken : ∀ write ∈ store.pending, write.row.sequence ≤ store.issued
  single : store.log.Pairwise fun a b => a.key ≠ b.key
  numbers : store.log.Pairwise fun a b => a.sequence ≠ b.sequence
  unlogged : ∀ write ∈ store.pending, ∀ row ∈ store.log, row.sequence ≠ write.row.sequence
  writers : store.pending.Pairwise fun a b =>
    a.row.key ≠ b.row.key ∧ a.row.sequence ≠ b.row.sequence
  above : ∀ write ∈ store.pending, ∀ row ∈ store.log, row.key = write.row.key →
    row.sequence < write.row.sequence
  recorded : ∀ key value, store.records key = some value → ∃ row ∈ store.log, row.key = key

/-- How a store moves on. What is new in the log or in the records was being written before, rows
    stay or move up, and transactions that are new have new numbers. -/
structure Store.Later (store next : Store Key Value) : Prop where
  issued : store.issued ≤ next.issued
  pending : ∀ write ∈ next.pending, write ∈ store.pending ∨ store.issued < write.row.sequence
  rows : ∀ row ∈ next.log, (row ∈ store.log ∧ next.records row.key = store.records row.key) ∨
    ∃ write ∈ store.pending, row = write.row
  moved : ∀ row ∈ store.log, (row ∈ next.log ∧ next.records row.key = store.records row.key) ∨
    ∃ later ∈ next.log, later.key = row.key ∧ row.sequence < later.sequence
  records : ∀ key, next.records key = store.records key ∨
    ∃ write ∈ store.pending, write.row ∈ next.log ∧ write.row.key = key

theorem later_same (store : Store Key Value) : store.Later store :=
  ⟨Nat.le_refl _, fun _ member => Or.inl member, fun _ member => Or.inl ⟨member, rfl⟩,
    fun _ member => Or.inl ⟨member, rfl⟩, fun _ => Or.inl rfl⟩

theorem later_closed {store next : Store Key Value} {bound : Nat} (later : store.Later next)
    (closed : store.Closed bound) : next.Closed bound := by
  refine ⟨Nat.le_trans closed.1 later.issued, ?_⟩
  intro write member
  rcases later.pending write member with old | new
  · exact closed.2 write old
  · exact Nat.lt_of_le_of_lt closed.1 new

theorem empty_well_formed : (emptyStore : Store Key Value).WellFormed := by
  refine ⟨?_, ?_, .nil, .nil, ?_, .nil, ?_, ?_⟩
  all_goals simp [emptyStore]

section Writing
variable [DecidableEq Key] {store : Store Key Value}

theorem write_cases {next : Store Key Value} {key : Key} {value : Option Value}
    (written : store.write key value = some next) :
    (∀ write ∈ store.pending, write.row.key ≠ key) ∧ next = { store with
      issued := store.issued + 1
      pending := ⟨⟨store.issued + 1, key⟩, value⟩ :: store.pending } := by
  unfold Store.write at written
  split at written
  · cases written
  · rename_i free
    cases written
    exact ⟨by simpa [Store.writing] using free, rfl⟩

theorem write_well_formed {next : Store Key Value} {key : Key} {value : Option Value}
    (formed : store.WellFormed) (written : store.write key value = some next) : next.WellFormed := by
  obtain ⟨free, rfl⟩ := write_cases written
  refine ⟨?_, ?_, formed.single, formed.numbers, ?_, ?_, ?_, formed.recorded⟩
  · intro row member
    exact Nat.le_succ_of_le (formed.logged row member)
  · intro write member
    rcases mem_cons.mp member with rfl | old
    · exact Nat.le_refl _
    · exact Nat.le_succ_of_le (formed.taken write old)
  · intro write member row logged
    rcases mem_cons.mp member with rfl | old
    · exact Nat.ne_of_lt (Nat.lt_succ_of_le (formed.logged row logged))
    · exact formed.unlogged write old row logged
  · refine pairwise_cons.mpr ⟨?_, formed.writers⟩
    intro other member
    refine ⟨(free other member).symm, ?_⟩
    have below := formed.taken other member
    exact Nat.ne_of_gt (Nat.lt_succ_of_le below)
  · intro write member row logged same
    rcases mem_cons.mp member with rfl | old
    · exact Nat.lt_succ_of_le (formed.logged row logged)
    · exact formed.above write old row logged same

theorem write_later {next : Store Key Value} {key : Key} {value : Option Value}
    (written : store.write key value = some next) : store.Later next := by
  obtain ⟨-, rfl⟩ := write_cases written
  refine ⟨Nat.le_succ _, ?_, fun _ member => Or.inl ⟨member, rfl⟩, fun _ member => Or.inl ⟨member, rfl⟩,
    fun _ => Or.inl rfl⟩
  intro write member
  rcases mem_cons.mp member with rfl | old
  · exact Or.inr (Nat.lt_succ_self _)
  · exact Or.inl old

theorem rollback_later (store : Store Key Value) (write : Write Key Value) : store.Later (store.rollback write) :=
  ⟨Nat.le_refl _, fun _ member => Or.inl (mem_of_mem_filter member),
    fun _ member => Or.inl ⟨member, rfl⟩, fun _ member => Or.inl ⟨member, rfl⟩, fun _ => Or.inl rfl⟩

theorem rollback_well_formed (formed : store.WellFormed) (write : Write Key Value) :
    (store.rollback write).WellFormed := by
  refine ⟨formed.logged, ?_, formed.single, formed.numbers, ?_, formed.writers.filter _, ?_, formed.recorded⟩
  · intro other member
    exact formed.taken other (mem_of_mem_filter member)
  · intro other member
    exact formed.unlogged other (mem_of_mem_filter member)
  · intro other member
    exact formed.above other (mem_of_mem_filter member)

theorem commit_log {write : Write Key Value} {row : Row Key} : row ∈ (store.commit write).log ↔
      row = write.row ∨ row ∈ store.log ∧ row.key ≠ write.row.key := by
  simp [Store.commit]

-- Two transactions never hold one key, so those that remain are about other keys.
theorem commit_others {write other : Write Key Value} (formed : store.WellFormed)
    (held : write ∈ store.pending) (member : other ∈ (store.commit write).pending) :
    other ∈ store.pending ∧ other.row.key ≠ write.row.key ∧ other.row.sequence ≠ write.row.sequence := by
  obtain ⟨old, different⟩ := mem_filter.mp member
  have distinct : other ≠ write := by
    rintro rfl
    simp at different
  have symmetric : Std.Symm fun a b : Write Key Value =>
      a.row.key ≠ b.row.key ∧ a.row.sequence ≠ b.row.sequence :=
    ⟨fun a b apart => ⟨apart.1.symm, apart.2.symm⟩⟩
  exact ⟨old, formed.writers.forall old held distinct⟩

theorem commit_well_formed {write : Write Key Value} (formed : store.WellFormed)
    (held : write ∈ store.pending) : (store.commit write).WellFormed := by
  refine ⟨?_, ?_, ?_, ?_, ?_, formed.writers.filter _, ?_, ?_⟩
  · intro row member
    rcases commit_log.mp member with rfl | ⟨old, -⟩
    · exact formed.taken write held
    · exact formed.logged row old
  · intro other member
    exact formed.taken other (commit_others formed held member).1
  · refine pairwise_cons.mpr ⟨?_, formed.single.filter _⟩
    intro row member
    have different := (mem_filter.mp member).2
    exact Ne.symm (by simpa using different)
  · refine pairwise_cons.mpr ⟨?_, formed.numbers.filter _⟩
    intro row member
    exact (formed.unlogged write held row (mem_of_mem_filter member)).symm
  · intro other member row logged
    obtain ⟨old, -, number⟩ := commit_others formed held member
    rcases commit_log.mp logged with rfl | ⟨before, -⟩
    · exact number.symm
    · exact formed.unlogged other old row before
  · intro other member row logged same
    obtain ⟨old, key, -⟩ := commit_others formed held member
    rcases commit_log.mp logged with rfl | ⟨before, -⟩
    · exact absurd same.symm key
    · exact formed.above other old row before same
  · intro key value stored
    by_cases same : key = write.row.key
    · exact ⟨write.row, commit_log.mpr (Or.inl rfl), same.symm⟩
    · simp only [Store.commit, update_of_ne same] at stored
      obtain ⟨row, member, rfl⟩ := formed.recorded key value stored
      exact ⟨row, commit_log.mpr (Or.inr ⟨member, same⟩), rfl⟩

theorem commit_later {write : Write Key Value} (formed : store.WellFormed)
    (held : write ∈ store.pending) : store.Later (store.commit write) := by
  have elsewhere : ∀ key, key ≠ write.row.key →
      (store.commit write).records key = store.records key := fun key different => update_of_ne different _ _
  refine ⟨Nat.le_refl _, fun other member => Or.inl (mem_of_mem_filter member), ?_, ?_, ?_⟩
  · intro row member
    rcases commit_log.mp member with rfl | ⟨old, different⟩
    · exact Or.inr ⟨write, held, rfl⟩
    · exact Or.inl ⟨old, elsewhere row.key different⟩
  · intro row logged
    by_cases same : row.key = write.row.key
    · exact Or.inr ⟨write.row, commit_log.mpr (Or.inl rfl), same.symm, formed.above write held row logged same⟩
    · exact Or.inl ⟨commit_log.mpr (Or.inr ⟨logged, same⟩), elsewhere row.key same⟩
  · intro key
    by_cases same : key = write.row.key
    · exact Or.inr ⟨write, held, commit_log.mpr (Or.inl rfl), same.symm⟩
    · exact Or.inl (elsewhere key same)

end Writing

section Reading
variable {store : Store Key Value} {after limit : Nat} {row : Row Key}

theorem load_mem (loaded : row ∈ store.loadChanges after limit) : row ∈ store.log ∧ after < row.sequence := by
  have sorted := mem_of_mem_take loaded
  rw [mem_insertionSort] at sorted
  simpa using mem_filter.mp sorted

theorem load_sorted (store : Store Key Value) (after limit : Nat) :
    (store.loadChanges after limit).Pairwise fun a b => a.sequence ≤ b.sequence := by
  have total : Std.Total fun a b : Row Key => a.sequence ≤ b.sequence :=
    ⟨fun a b => Nat.le_total a.sequence b.sequence⟩
  have transitive : IsTrans (Row Key) fun a b => a.sequence ≤ b.sequence :=
    ⟨fun _ _ _ => Nat.le_trans⟩
  exact (pairwise_insertionSort _ _).take

theorem load_ascending (formed : store.WellFormed) (after limit : Nat) :
    (store.loadChanges after limit).Pairwise fun a b => a.sequence < b.sequence := by
  have kept : (store.log.filter fun row => after < row.sequence).Pairwise
      fun a b => a.sequence ≠ b.sequence := formed.numbers.filter _
  have apart : (store.loadChanges after limit).Pairwise fun a b => a.sequence ≠ b.sequence :=
    ((perm_insertionSort _ _).symm.pairwise kept fun different => Ne.symm different).take
  refine ((load_sorted store after limit).and apart).imp ?_
  intro a b both
  exact Nat.lt_of_le_of_ne both.1 both.2

theorem load_below {other : Row Key} (loaded : row ∈ store.loadChanges after limit)
    (logged : other ∈ store.log) (above : after < other.sequence)
    (below : other.sequence < row.sequence) : other ∈ store.loadChanges after limit := by
  have total : Std.Total fun a b : Row Key => a.sequence ≤ b.sequence :=
    ⟨fun a b => Nat.le_total a.sequence b.sequence⟩
  have transitive : IsTrans (Row Key) fun a b => a.sequence ≤ b.sequence :=
    ⟨fun _ _ _ => Nat.le_trans⟩
  let sorted := (store.log.filter fun row => after < row.sequence).insertionSort fun a b => a.sequence ≤ b.sequence
  have there : other ∈ sorted := by
    rw [mem_insertionSort]
    exact mem_filter.mpr ⟨logged, by simpa using above⟩
  have ordered : sorted.Pairwise fun a b => a.sequence ≤ b.sequence := pairwise_insertionSort _ _
  rw [← take_append_drop limit sorted] at there ordered
  rcases mem_append.mp there with kept | left
  · exact kept
  · have least := (pairwise_append.mp ordered).2.2 row loaded other left
    omega

theorem load_some (positive : 0 < limit) (logged : row ∈ store.log) (above : after < row.sequence) :
    store.loadChanges after limit ≠ [] := by
  intro empty
  have sorted : (store.log.filter fun row => after < row.sequence).insertionSort
      (fun a b => a.sequence ≤ b.sequence) = [] := by
    rcases take_eq_nil_iff.mp empty with none | nothing
    · omega
    · exact nothing
  have there : row ∈ (store.log.filter fun row => after < row.sequence).insertionSort
      (fun a b => a.sequence ≤ b.sequence) := by
    rw [mem_insertionSort]
    exact mem_filter.mpr ⟨logged, by simpa using above⟩
  rw [sorted] at there
  cases there

theorem load_reach {number : Nat} (formed : store.WellFormed)
    (loaded : row ∈ store.loadChanges after limit) (above : number < row.sequence) :
    (store.log.filter fun other => after < other.sequence ∧ other.sequence < number).length < limit := by
  have distinct : (row :: store.log.filter fun other =>
      after < other.sequence ∧ other.sequence < number).Nodup := by
    refine nodup_cons.mpr ⟨?_, (formed.numbers.filter _).imp ?_⟩
    · intro member
      have between := (mem_filter.mp member).2
      simp only [Bool.decide_and, Bool.and_eq_true, decide_eq_true_eq] at between
      omega
    · rintro a b apart rfl
      exact apart rfl
  have inside : (row :: store.log.filter fun other =>
      after < other.sequence ∧ other.sequence < number) ⊆ store.loadChanges after limit := by
    intro other member
    rcases mem_cons.mp member with rfl | between
    · exact loaded
    · obtain ⟨logged, range⟩ := mem_filter.mp between
      simp only [Bool.decide_and, Bool.and_eq_true, decide_eq_true_eq] at range
      exact load_below loaded logged range.1 (by omega)
  have fits : (store.loadChanges after limit).length ≤ limit := length_take_le _ _
  have shorter := (subperm_of_subset distinct inside).length_le
  rw [length_cons] at shorter
  omega

/-- A poll that returns less than it may returns every row above its number. -/
theorem load_short (short : (store.loadChanges after limit).length < limit) (logged : row ∈ store.log)
    (above : after < row.sequence) : row ∈ store.loadChanges after limit := by
  unfold Store.loadChanges at short ⊢
  rw [length_take] at short
  rw [take_of_length_le (by omega), mem_insertionSort]
  exact mem_filter.mpr ⟨logged, by simpa using above⟩

theorem load_keys (formed : store.WellFormed) (after limit : Nat) :
    (store.loadChanges after limit).Pairwise fun a b => a.key ≠ b.key := by
  have kept : (store.log.filter fun row => after < row.sequence).Pairwise fun a b => a.key ≠ b.key :=
    formed.single.filter _
  exact ((perm_insertionSort _ _).symm.pairwise kept fun apart => Ne.symm apart).take

theorem current_sequence_issued (formed : store.WellFormed) : store.currentSequence ≤ store.issued := by
  have bounded := formed.logged
  unfold Store.currentSequence
  generalize store.log = log at bounded
  induction log with
  | nil => exact Nat.zero_le _
  | cons head rest ih =>
    simp only [map_cons, foldr_cons]
    exact Nat.max_le.mpr ⟨bounded head mem_cons_self, ih fun row member => bounded row (mem_cons_of_mem head member)⟩

end Reading
end PieRelay.ChangeLog
