import Mathlib.Data.Finset.Card
import Mathlib.Data.List.AList
import Mathlib.Logic.Function.Basic
import Mathlib.Tactic.Common

/-! Room in a table of keyed records, and the table as a function. Which records take up room
is a predicate, and how much is left to do for them a weight. A request that has been admitted
is held until it is put in the table or dropped, one at a time for a key; it needs room if it
counts and the record in its place does not. -/
namespace PieRelay.Admission
open List Option
variable {Key Value : Type} [DecidableEq Key]

section Pointwise
open Function
variable (table : AList fun _ : Key => Value) (key : Key)

theorem lookup_insert_update (value : Value) : (fun other => (table.insert key value).lookup other) =
      update (fun other => table.lookup other) key (some value) := by
  funext other
  by_cases same : other = key
  · subst same
    rw [update_self, AList.lookup_insert]
  · rw [update_of_ne same, AList.lookup_insert_ne same]

theorem lookup_erase_update :
    (fun other => (table.erase key).lookup other) = update (fun other => table.lookup other) key none := by
  funext other
  by_cases same : other = key
  · subst same
    rw [update_self, AList.lookup_erase]
  · rw [update_of_ne same, AList.lookup_erase_ne same]

end Pointwise

def count (counts : Value → Bool) (table : AList fun _ : Key => Value) : Nat :=
  (table.entries.map Sigma.snd).countP counts

section Counting
variable (counts : Value → Bool) (table : AList fun _ : Key => Value)

theorem count_erase (key : Key) :
    count counts (table.erase key) + ((table.lookup key).any counts).toNat = count counts table := by
  by_cases there : key ∈ table
  · obtain ⟨value, before, after, -, split, rest⟩ := exists_of_kerase (AList.mem_keys.mp there)
    have stored : table.lookup key = some value := by
      rw [← mem_def, AList.mem_lookup_iff, split]
      simp
    have fewer : count counts (table.erase key) = ((before ++ after).map Sigma.snd).countP counts := by
      rw [← rest]
      rfl
    rw [stored, fewer]
    simp only [count, split, map_append, map_cons, countP_append, countP_cons, any_some]
    cases counts value <;> simp
    omega
  · rw [AList.lookup_eq_none.mpr there]
    have same : (table.erase key).entries = table.entries := kerase_of_notMem_keys there
    simp only [count, same, any_none, Bool.toNat_false, Nat.add_zero]

theorem count_insert (key : Key) (value : Value) :
    count counts (table.insert key value) + ((table.lookup key).any counts).toNat =
      count counts table + (counts value).toNat := by
  have erased := count_erase counts table key
  have inserted : count counts (table.insert key value) = count counts (table.erase key) + (counts value).toNat := by
    have kept : (table.erase key).entries = table.entries.kerase key := rfl
    simp only [count, AList.entries_insert, kept, map_cons, countP_cons]
    cases counts value <;> rfl
  omega

/-- Records under keys of a set are at most as many as the set has. -/
theorem count_le_card (keys : Finset Key)
    (inside : ∀ key value, table.lookup key = some value → counts value → key ∈ keys) :
    count counts table ≤ keys.card := by
  let chosen := table.entries.filter fun entry => counts entry.2
  have distinct : (chosen.map Sigma.fst).Nodup :=
    Nodup.sublist (filter_sublist.map Sigma.fst) table.nodupKeys
  have same : count counts table = (chosen.map Sigma.fst).length := by
    rw [length_map, count, countP_map, countP_eq_length_filter]
    rfl
  rw [same, ← toFinset_card_of_nodup distinct]
  refine Finset.card_le_card ?_
  intro key member
  obtain ⟨entry, kept, rfl⟩ := mem_map.mp (mem_toFinset.mp member)
  obtain ⟨stored, counted⟩ := mem_filter.mp kept
  exact inside entry.1 entry.2 (AList.mem_lookup_iff.mpr stored) counted

theorem count_congr {other : AList fun _ : Key => Value}
    (same : ∀ key, table.lookup key = other.lookup key) : count counts table = count counts other := by
  have order : table.entries.Perm other.entries := by
    refine lookup_ext table.nodupKeys other.nodupKeys fun key value => ?_
    exact Iff.of_eq (congrArg (value ∈ ·) (same key))
  exact (order.map Sigma.snd).countP_eq counts

theorem count_zero (none : ∀ key value, table.lookup key = some value → counts value = false) :
    count counts table = 0 := by
  have small := count_le_card counts table ∅ fun key value stored counted => by
    rw [none key value stored] at counted
    cases counted
  simpa using small

end Counting

section Loading
variable (weight : Value → Nat) (table : AList fun _ : Key => Value)

def total : List Value → Nat
  | [] => 0
  | value :: rest => weight value + total rest

def load : Nat := total weight (table.entries.map Sigma.snd)

theorem total_middle (value : Value) (before after : List Value) :
    total weight (before ++ value :: after) = total weight (before ++ after) + weight value := by
  induction before with
  | nil => exact Nat.add_comm _ _
  | cons first rest ih =>
    show weight first + total weight (rest ++ value :: after) = weight first + total weight (rest ++ after) + _
    rw [ih, Nat.add_assoc]

theorem load_erase (key : Key) :
    load weight (table.erase key) + (table.lookup key).elim 0 weight = load weight table := by
  by_cases there : key ∈ table
  · obtain ⟨value, before, after, -, split, rest⟩ := exists_of_kerase (AList.mem_keys.mp there)
    have stored : table.lookup key = some value := by
      rw [← mem_def, AList.mem_lookup_iff, split]
      simp
    have less : load weight (table.erase key) = total weight ((before ++ after).map Sigma.snd) := by
      rw [← rest]
      rfl
    rw [stored, less, load, split, map_append, map_append, map_cons, total_middle]
    rfl
  · rw [AList.lookup_eq_none.mpr there]
    have same : (table.erase key).entries = table.entries := kerase_of_notMem_keys there
    simp only [load, same, elim_none, Nat.add_zero]

theorem load_insert (key : Key) (value : Value) :
    load weight (table.insert key value) + (table.lookup key).elim 0 weight = load weight table + weight value := by
  have erased := load_erase weight table key
  have inserted : load weight (table.insert key value) = weight value + load weight (table.erase key) := by
    have kept : (table.erase key).entries = table.entries.kerase key := rfl
    simp only [load, AList.entries_insert, kept, map_cons, total]
  omega

theorem load_zero (nobody : ∀ key, table.lookup key = none) : load weight table = 0 := by
  have none_left : table.entries = [] := by
    refine eq_nil_iff_forall_not_mem.mpr fun entry member => ?_
    have stored : table.lookup entry.1 = some entry.2 := AList.mem_lookup_iff.mpr member
    rw [nobody entry.1] at stored
    cases stored
  rw [load, none_left]
  rfl

/-- Where everybody has something to do, nobody is left when nothing is left to do. -/
theorem load_done (busy : ∀ value, 0 < weight value) (done : load weight table = 0) (key : Key) :
    table.lookup key = none := by
  cases stored : table.lookup key with
  | none => rfl
  | some value =>
    have part := load_erase weight table key
    rw [stored, done] at part
    have some_left := busy value
    simp only [elim_some] at part
    omega

end Loading

section Holding
variable (counts : Value → Bool) (key : Value → Key)

def needsRoom (table : AList fun _ : Key => Value) (value : Value) : Bool :=
  counts value && !(table.lookup (key value)).any counts

def reserved (table : AList fun _ : Key => Value) (held : List Value) : Nat :=
  held.countP (needsRoom counts key table)

def release (held : List Value) (gone : Key) : List Value := held.filter fun value => key value ≠ gone

def Fits (table : AList fun _ : Key => Value) (held : List Value) (limit : Int) : Prop :=
  ((count counts table + reserved counts key table held : Nat) : Int) ≤ limit

variable {counts key} {table : AList fun _ : Key => Value} {held : List Value} {limit : Int}
variable {value : Value}

theorem fits_count (fits : Fits counts key table held limit) : (count counts table : Int) ≤ limit := by
  unfold Fits at fits
  omega

theorem reserved_zero (none : ∀ value ∈ held, counts value = false) : reserved counts key table held = 0 := by
  refine countP_eq_zero.mpr fun value member => ?_
  simp [needsRoom, none value member]

theorem admit_fits (fits : Fits counts key table held limit) (room : needsRoom counts key table value →
      ((count counts table + reserved counts key table held : Nat) : Int) < limit) :
    Fits counts key table (value :: held) limit := by
  unfold Fits reserved at *
  rw [countP_cons]
  split
  · rename_i needed
    have below := room needed
    omega
  · omega

theorem drop_fits (fits : Fits counts key table held limit) (gone : Key) :
    Fits counts key table (release key held gone) limit := by
  have fewer : reserved counts key table (release key held gone) ≤ reserved counts key table held :=
    Sublist.countP_le filter_sublist
  unfold Fits at *
  omega

-- One request is held for a key, so the others stay.
theorem reserved_release (counts : Value → Bool) (table : AList fun _ : Key => Value)
    (apart : held.Pairwise fun a b => key a ≠ key b) (member : value ∈ held) : reserved counts key table held =
      reserved counts key table (release key held (key value)) + (needsRoom counts key table value).toNat := by
  induction held with
  | nil => cases member
  | cons first rest ih =>
    obtain ⟨others, distinct⟩ := pairwise_cons.mp apart
    rcases mem_cons.mp member with rfl | later
    · have kept : release key (value :: rest) (key value) = rest := by
        rw [release, filter_cons_of_neg (by simp), filter_eq_self]
        intro other inside
        simpa using (others other inside).symm
      rw [kept, reserved, countP_cons]
      cases needsRoom counts key table value <;> rfl
    · have kept : release key (first :: rest) (key value) = first :: release key rest (key value) := by
        rw [release, filter_cons_of_pos (by simpa using others value later)]
        rfl
      have behind := ih distinct later
      rw [kept]
      simp only [reserved, countP_cons] at behind ⊢
      omega

theorem publish_fits (fits : Fits counts key table held limit)
    (apart : held.Pairwise fun a b => key a ≠ key b) (member : value ∈ held) :
    Fits counts key (table.insert (key value) value) (release key held (key value)) limit := by
  have same : reserved counts key (table.insert (key value) value) (release key held (key value)) =
      reserved counts key table (release key held (key value)) := by
    refine countP_congr fun other inside => ?_
    have different : key other ≠ key value := by simpa using (mem_filter.mp inside).2
    simp only [needsRoom, AList.lookup_insert_ne different]
  have freed := reserved_release counts table apart member
  have taken := count_insert counts table (key value) value
  have needed : (counts value).toNat ≤
      (needsRoom counts key table value).toNat + ((table.lookup (key value)).any counts).toNat := by
    unfold needsRoom
    cases counts value <;> cases (table.lookup (key value)).any counts <;> decide
  unfold Fits at *
  omega

theorem release_apart (apart : held.Pairwise fun a b => key a ≠ key b) (gone : Key) :
    (release key held gone).Pairwise fun a b => key a ≠ key b :=
  apart.filter _

theorem release_mem {gone : Key} (member : value ∈ release key held gone) : value ∈ held ∧ key value ≠ gone := by
  simpa [release] using member

end Holding
end PieRelay.Admission
