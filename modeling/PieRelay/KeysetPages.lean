import Mathlib.Data.Finset.Card
import Mathlib.Data.List.Sort

/-!
Keyset pages: a page is the newest rows behind a cursor, and the key of its last row is the cursor of the next page. The
rows may be others for every page; a row that is there for each of them is found once.
-/
namespace PieRelay.KeysetPages
open List Option
variable {Row Key : Type} [LinearOrder Key] (key : Row → Key)

def behind (cursor : Option Key) (k : Key) : Bool :=
  match cursor with
  | some last => k < last
  | none => true

def newest (rows : List Row) : List Row := rows.insertionSort fun a b => key b ≤ key a

def page (limit : Nat) (cursor : Option Key) (rows : List Row) : List Row × Bool :=
  let found := (newest key (rows.filter fun row => behind cursor (key row))).take (limit + 1)
  if limit < found.length then (found.take limit, true) else (found, false)

def pages (limit : Nat) (rows : Nat → List Row) : Nat → Nat → Option Key → Option (List Row)
  | 0, _, _ => none
  | fuel + 1, n, cursor =>
    match page key limit cursor (rows n) with
    | (items, true) => (pages limit rows fuel (n + 1) (items.getLast?.map key)).map (items ++ ·)
    | (items, false) => some items

section Page
variable {key} {limit : Nat} {cursor : Option Key} {rows : List Row} {row : Row}

/-- The rows of a page are the first of those behind the cursor; with more to come they are as many as fit. -/
theorem page_split (key : Row → Key) (limit : Nat) (cursor : Option Key) (rows : List Row) :
    ∃ rest, newest key (rows.filter fun row => behind cursor (key row)) = (page key limit cursor rows).1 ++ rest ∧
      ((page key limit cursor rows).2 → (page key limit cursor rows).1.length = limit) ∧
      ((page key limit cursor rows).2 = false → rest = []) := by
  unfold page
  dsimp only
  split
  · next more =>
    refine ⟨(newest key (rows.filter fun row => behind cursor (key row))).drop limit, ?_, fun _ => ?_, nofun⟩
    · rw [take_take, Nat.min_eq_left (Nat.le_succ limit), take_append_drop]
    · rw [length_take, Nat.min_eq_left more.le]
  · next all =>
    refine ⟨[], ?_, fun absurd => (by cases absurd), fun _ => rfl⟩
    rw [length_take] at all
    rw [append_nil, take_of_length_le (by omega)]

theorem newest_mem : row ∈ newest key (rows.filter fun row => behind cursor (key row)) ↔
    row ∈ rows ∧ behind cursor (key row) := by
  rw [newest, mem_insertionSort, mem_filter]

theorem newest_descending (cursor : Option Key) (distinct : (rows.map key).Nodup) :
    (newest key (rows.filter fun row => behind cursor (key row))).Pairwise fun a b => key b < key a := by
  have ordered : (newest key (rows.filter fun row => behind cursor (key row))).Pairwise fun a b => key b ≤ key a :=
    pairwise_insertionSort _ _
  have kept : (rows.filter fun row => behind cursor (key row)).Pairwise fun a b => key a ≠ key b :=
    (pairwise_map.mp distinct).filter _
  have apart : (newest key (rows.filter fun row => behind cursor (key row))).Pairwise fun a b => key a ≠ key b :=
    (perm_insertionSort _ _).symm.pairwise kept fun different => different.symm
  exact (ordered.and apart).imp fun both => lt_of_le_of_ne both.1 both.2.symm

theorem page_descending (limit : Nat) (cursor : Option Key) (distinct : (rows.map key).Nodup) :
    (page key limit cursor rows).1.Pairwise fun a b => key b < key a := by
  obtain ⟨rest, split, _⟩ := page_split key limit cursor rows
  have descending := newest_descending cursor distinct
  rw [split] at descending
  exact (pairwise_append.mp descending).1

theorem page_mem (member : row ∈ (page key limit cursor rows).1) : row ∈ rows ∧ behind cursor (key row) := by
  obtain ⟨rest, split, _⟩ := page_split key limit cursor rows
  apply newest_mem.mp
  rw [split]
  exact mem_append_left rest member

theorem page_more (positive : 0 < limit) (more : (page key limit cursor rows).2) :
    ∃ last, (page key limit cursor rows).1.getLast? = some last := by
  obtain ⟨rest, _, full, _⟩ := page_split key limit cursor rows
  have some_ : (page key limit cursor rows).1 ≠ [] := by
    intro none
    have size := full more
    rw [none, length_nil] at size
    omega
  exact ⟨_, getLast?_eq_some_getLast some_⟩

theorem page_covers (limit : Nat) (distinct : (rows.map key).Nodup) (present : row ∈ rows)
    (old : behind cursor (key row)) : row ∈ (page key limit cursor rows).1 ∨ (page key limit cursor rows).2 ∧
      ∀ last, (page key limit cursor rows).1.getLast? = some last → key row < key last := by
  obtain ⟨rest, split, _, whole⟩ := page_split key limit cursor rows
  have known := newest_mem.mpr ⟨present, old⟩
  rw [split, mem_append] at known
  rcases known with here | later
  · exact Or.inl here
  · right
    constructor
    · cases more : (page key limit cursor rows).2 with
      | true => rfl
      | false =>
        rw [whole more] at later
        cases later
    · intro last final
      have descending := newest_descending cursor distinct
      rw [split] at descending
      exact (pairwise_append.mp descending).2.2 last (mem_of_getLast? final) row later

end Page

section Pages
variable {key} {limit : Nat} {rows : Nat → List Row} {row : Row}
variable {cursor : Option Key}

theorem behind_older {last k : Key} (old : behind cursor last) (older : k < last) : behind cursor k := by
  cases cursor with
  | none => rfl
  | some => exact decide_eq_true (older.trans (of_decide_eq_true old))

/-- What the pages hold gets older and older, all behind the cursor, and is from the rows of some page. -/
theorem pages_descending (positive : 0 < limit) (distinct : ∀ n, ((rows n).map key).Nodup) {fuel n : Nat} {items : List Row} (followed : pages key limit rows fuel n cursor = some items) :
    items.Pairwise (fun a b => key b < key a) ∧ ∀ row ∈ items, behind cursor (key row) ∧ ∃ m, row ∈ rows m := by
  induction fuel generalizing n cursor items with
  | zero => cases followed
  | succ fuel ih =>
    have descending := page_descending limit cursor (distinct n)
    have known := fun row => @page_mem _ _ _ key limit cursor (rows n) row
    have final := @page_more _ _ _ key limit cursor (rows n) positive
    rw [pages] at followed
    split at followed
    · next here =>
      rw [here] at descending known final
      obtain ⟨later, onward, rfl⟩ := map_eq_some_iff.mp followed
      obtain ⟨last, final⟩ := final rfl
      rw [final, map_some] at onward
      obtain ⟨descends, older⟩ := ih onward
      have below : ∀ row ∈ later, key row < key last := fun row member => of_decide_eq_true (older row member).1
      have ends := mem_of_getLast? final
      constructor
      · refine pairwise_append.mpr ⟨descending, descends, fun a inside b behind => ?_⟩
        have least : key last ≤ key a := by
          obtain ⟨before, rfl⟩ := getLast?_eq_some_iff.mp final
          rcases mem_append.mp inside with before' | same
          · exact ((pairwise_append.mp descending).2.2 a before' last (mem_singleton_self last)).le
          · rw [mem_singleton.mp same]
        exact (below b behind).trans_le least
      · intro row member
        rcases mem_append.mp member with here | there
        · exact ⟨(known row here).2, n, (known row here).1⟩
        · exact ⟨behind_older (known last ends).2 (below row there), (older row there).2⟩
    · next here =>
      rw [here] at descending known
      cases followed
      exact ⟨descending, fun row member => ⟨(known row member).2, n, (known row member).1⟩⟩

/-- A row that is there for every page is on one of them. -/
theorem pages_cover (positive : 0 < limit) (distinct : ∀ n, ((rows n).map key).Nodup) (present : ∀ n, row ∈ rows n)
    {fuel n : Nat} (old : behind cursor (key row)) {items : List Row}
    (followed : pages key limit rows fuel n cursor = some items) : row ∈ items := by
  induction fuel generalizing n cursor items with
  | zero => cases followed
  | succ fuel ih =>
    have covered := page_covers limit (distinct n) (present n) old
    have final := @page_more _ _ _ key limit cursor (rows n) positive
    rw [pages] at followed
    split at followed
    · next first here =>
      rw [here] at covered final
      obtain ⟨later, onward, rfl⟩ := map_eq_some_iff.mp followed
      obtain ⟨last, final⟩ := final rfl
      rw [final, map_some] at onward
      rcases covered with inside | ⟨_, older⟩
      · exact mem_append_left later inside
      · have old : behind (some (key last)) (key row) := decide_eq_true (older last final)
        exact mem_append_right first (ih old onward)
    · next here =>
      rw [here] at covered
      cases followed
      exact covered.resolve_right fun more => by cases more.1

/-- Where all rows that come up have one of finitely many keys, the pages come to an end. -/
theorem pages_end (positive : 0 < limit) (keys : Finset Key) (finite : ∀ n, ∀ row ∈ rows n, key row ∈ keys) (fuel n : Nat)
    (cursor : Option Key) (enough : (keys.filter fun k => behind cursor k).card < fuel) :
    ∃ items, pages key limit rows fuel n cursor = some items := by
  induction fuel generalizing n cursor with
  | zero => exact absurd enough (Nat.not_lt_zero _)
  | succ fuel ih =>
    rw [pages]
    split
    · next here =>
      have final := @page_more _ _ _ key limit cursor (rows n) positive
      have known := fun row => @page_mem _ _ _ key limit cursor (rows n) row
      rw [here] at final known
      obtain ⟨last, final⟩ := final rfl
      obtain ⟨present, old⟩ := known last (mem_of_getLast? final)
      have fewer : (keys.filter fun k => behind (some (key last)) k).card < fuel := by
        refine Nat.lt_of_lt_of_le (Finset.card_lt_card ?_) (Nat.le_of_lt_succ enough)
        rw [Finset.ssubset_iff_of_subset]
        · refine ⟨key last, Finset.mem_filter.mpr ⟨finite n last present, old⟩, fun again => ?_⟩
          exact lt_irrefl _ (of_decide_eq_true (Finset.mem_filter.mp again).2)
        · intro k member
          obtain ⟨known, older⟩ := Finset.mem_filter.mp member
          exact Finset.mem_filter.mpr ⟨known, behind_older old (of_decide_eq_true older)⟩
      obtain ⟨later, onward⟩ := ih (n + 1) (some (key last)) fewer
      rw [final, map_some, onward]
      exact ⟨_, rfl⟩
    · exact ⟨_, rfl⟩

end Pages

end PieRelay.KeysetPages
