import Mathlib.Data.Finset.Basic
import Mathlib.Data.Finset.Dedup
import Mathlib.Tactic.Common

/-! A memory of the keys that came last. It has a set to ask and a list in the order of arrival;
when there are more than `capacity` of them the oldest `dropped` are forgotten. -/
namespace PieRelay.Retention
open List
variable {Key : Type} [DecidableEq Key]

structure Window (Key : Type) where
  seen : Finset Key
  order : List Key

def empty : Window Key := ⟨∅, []⟩

def remember (capacity dropped : Nat) (window : Window Key) (key : Key) : Window Key :=
  let order := window.order ++ [key]
  let seen := insert key window.seen
  if capacity < order.length then ⟨seen \ (order.take dropped).toFinset, order.drop dropped⟩
  else ⟨seen, order⟩

structure Sound (window : Window Key) : Prop where
  same : window.seen = window.order.toFinset
  nodup : window.order.Nodup

/-- Of all the keys that came, the list has those of the end: all of them, or as many as are kept when
    some are forgotten. -/
structure Recent (capacity dropped : Nat) (window : Window Key) (came : List Key) : Prop where
  suffix : window.order <:+ came
  enough : window.order = came ∨ capacity - dropped ≤ window.order.length

section Keeping
variable {capacity dropped : Nat} {window : Window Key} {came : List Key} {key : Key}

theorem empty_sound : Sound (empty : Window Key) := ⟨rfl, .nil⟩

omit [DecidableEq Key] in
theorem empty_recent : Recent capacity dropped (empty : Window Key) [] :=
  ⟨suffix_rfl, Or.inl rfl⟩

theorem remember_sound (sound : Sound window) (fresh : key ∉ window.seen) :
    Sound (remember capacity dropped window key) := by
  have absent : key ∉ window.order := by
    rw [sound.same, mem_toFinset] at fresh
    exact fresh
  have nodup : (window.order ++ [key]).Nodup :=
    nodup_append'.mpr ⟨sound.nodup, nodup_singleton key, by simpa using absent⟩
  have same : insert key window.seen = (window.order ++ [key]).toFinset := by
    rw [sound.same]
    ext other
    simp [or_comm]
  unfold remember
  dsimp only
  split
  · refine ⟨?_, nodup.sublist (drop_sublist _ _)⟩
    rw [same]
    ext other
    have parts := nodup
    rw [← take_append_drop dropped (window.order ++ [key])] at parts
    have apart := (nodup_append'.mp parts).2.2
    rw [Finset.mem_sdiff, mem_toFinset, mem_toFinset, mem_toFinset]
    constructor
    · rintro ⟨member, kept⟩
      rw [← take_append_drop dropped (window.order ++ [key])] at member
      exact (mem_append.mp member).resolve_left kept
    · intro member
      exact ⟨mem_of_mem_drop member, fun gone => apart gone member⟩
  · exact ⟨same, nodup⟩

theorem remember_seen {other : Key} (known : other ∈ (remember capacity dropped window key).seen)
    (different : other ≠ key) : other ∈ window.seen := by
  have either : other ∈ insert key window.seen := by
    unfold remember at known
    dsimp only at known
    split at known
    · exact (Finset.mem_sdiff.mp known).1
    · exact known
  exact (Finset.mem_insert.mp either).resolve_left different

theorem remember_recent (recent : Recent capacity dropped window came) :
    Recent capacity dropped (remember capacity dropped window key) (came ++ [key]) := by
  obtain ⟨⟨before, rfl⟩, enough⟩ := recent
  have whole : window.order ++ [key] <:+ before ++ window.order ++ [key] :=
    ⟨before, by rw [append_assoc]⟩
  unfold remember
  dsimp only
  split
  · rename_i full
    refine ⟨(drop_suffix _ _).trans whole, Or.inr ?_⟩
    rw [length_drop]
    omega
  · refine ⟨whole, enough.imp ?_ ?_⟩
    · intro all
      exact congrArg (· ++ [key]) all
    · intro more
      rw [length_append]
      omega

/-- What came last is still known. -/
theorem recent_seen (sound : Sound window) (recent : Recent capacity dropped window came)
    (late : key ∈ came.drop (came.length - (capacity - dropped))) : key ∈ window.seen := by
  rw [sound.same, mem_toFinset]
  rcases recent.enough with all | more
  · rw [all]
    exact mem_of_mem_drop late
  · obtain ⟨before, rfl⟩ := recent.suffix
    have short : before.length ≤ (before ++ window.order).length - (capacity - dropped) := by
      rw [length_append]
      omega
    have inside : (before ++ window.order).drop
        ((before ++ window.order).length - (capacity - dropped)) <:+ window.order := by
      have later := drop_suffix_drop_left (before ++ window.order) short
      rwa [drop_left] at later
    exact inside.subset late

end Keeping
end PieRelay.Retention
