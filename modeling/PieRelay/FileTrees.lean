import Mathlib.Data.List.Basic

/-! File systems as trees. A directory is an association list; a path is the
list of names from the root and is not resolved here, so a link is a leaf.
Lemmas say what is found at every path after a change, in terms of what was
found before it. -/
namespace PieRelay.FileTrees
open List Option

abbrev Path := List String

inductive Tree (α : Type) where
  | dir (entries : List (String × Tree α))
  | file (content : α)
  | link (target : String)
  | special

inductive Node (α : Type) where
  | dir
  | file (content : α)
  | link (target : String)
  | special
  deriving DecidableEq

variable {α : Type}

def node : Tree α → Node α
  | .dir _ => .dir
  | .file content => .file content
  | .link target => .link target
  | .special => .special

def entry (name : String) : Tree α → Option (Tree α)
  | .dir entries => entries.lookup name
  | _ => none

def get : Tree α → Path → Option (Tree α)
  | t, [] => some t
  | t, name :: rest => (entry name t).bind fun inner => get inner rest

def find (t : Tree α) (p : Path) : Option (Node α) := (get t p).map node

def isDir (t : Tree α) (p : Path) : Bool :=
  match get t p with
  | some (.dir _) => true
  | _ => false

def putEntry (name : String) (child : Option (Tree α)) : Tree α → Tree α
  | .dir entries =>
    let others := entries.filter fun e => e.1 ≠ name
    .dir (match child with
      | some inner => (name, inner) :: others
      | none => others)
  | t => t

def set : Tree α → Path → Option (Tree α) → Tree α
  | t, [], _ => t
  | t, [name], child => putEntry name child t
  | t, name :: next :: rest, child =>
    match entry name t with
    | some inner => putEntry name (some (set inner (next :: rest) child)) t
    | none => t

def replaces (moved : Tree α) : Option (Tree α) → Bool
  | none => true
  | some (.dir entries) => isDir moved [] && entries.isEmpty
  | some _ => !isDir moved []

def rename (t : Tree α) (source target : Path) : Option (Tree α) :=
  match get t source with
  | none => none
  | some moved =>
    if source.isPrefixOf target || !isDir t target.dropLast || !replaces moved (get t target) then none
    else some (set (set t source none) target (some moved))

def make (t : Tree α) (p : Path) (made : Tree α) : Option (Tree α) :=
  if isDir t p.dropLast && (get t p).isNone then some (set t p (some made)) else none

section Lookup
variable {t : Tree α} {p q rest : Path} {name : String}

theorem lookup_filter (entries : List (String × Tree α)) (other : String) :
    (entries.filter fun e => e.1 ≠ name).lookup other = if other = name then none else entries.lookup other := by
  induction entries with
  | nil => simp
  | cons head tail ih =>
    rw [filter_cons]
    by_cases same : head.1 = name
    · rw [if_neg (by simpa using same), ih, lookup_cons]
      by_cases here : other = name
      · simp [here]
      · have differs : (other == head.1) = false := by simpa [same] using here
        simp [here, differs]
    · rw [if_pos (by simpa using same), lookup_cons, lookup_cons, ih]
      by_cases here : other = name
      · have differs : (name == head.1) = false := by simpa using Ne.symm same
        simp [here, differs]
      · simp [here]

theorem entry_put (entries : List (String × Tree α)) (child : Option (Tree α)) (other : String) :
    entry other (putEntry name child (.dir entries)) = if other = name then child else entries.lookup other := by
  cases child with
  | none =>
    show ((entries.filter fun e => e.1 ≠ name)).lookup other = _
    exact lookup_filter entries other
  | some inner =>
    show ((name, inner) :: entries.filter fun e => e.1 ≠ name).lookup other = _
    rw [lookup_cons, lookup_filter]
    by_cases here : other = name
    · simp [here]
    · have differs : (other == name) = false := by simpa using here
      simp [here, differs]

theorem node_put (child : Option (Tree α)) (t : Tree α) : node (putEntry name child t) = node t := by
  cases t <;> rfl

theorem get_append (t : Tree α) (p q : Path) : get t (p ++ q) = (get t p).bind fun inner => get inner q := by
  induction p generalizing t with
  | nil => rfl
  | cons name rest ih =>
    rw [cons_append, get, get]
    cases entry name t with
    | none => rfl
    | some inner => exact ih inner

theorem get_below (absent : get t p = none) (q : Path) : get t (p ++ q) = none := by
  rw [get_append, absent]
  rfl

theorem find_below (absent : find t p = none) (q : Path) : find t (p ++ q) = none := by
  rw [find, get_below (map_eq_none_iff.mp absent) q]
  rfl

theorem is_dir_iff : isDir t p ↔ find t p = some .dir := by
  unfold isDir find
  cases get t p with
  | none => simp
  | some inner => cases inner <;> simp [node]

theorem get_dir (dir : isDir t p) : ∃ entries, get t p = some (.dir entries) := by
  unfold isDir at dir
  split at dir
  · next entries found => exact ⟨entries, found⟩
  · cases dir

end Lookup

section Changes
variable {t : Tree α} {p q : Path}

theorem get_set_below (below : p ≠ []) (parent : isDir t p.dropLast) (child : Option (Tree α)) (q : Path) :
    get (set t p child) (p ++ q) = child.bind fun inner => get inner q := by
  induction p generalizing t with
  | nil => exact absurd rfl below
  | cons name rest ih =>
    cases rest with
    | nil =>
      obtain ⟨entries, found⟩ := get_dir parent
      cases found
      rw [cons_append, nil_append, set, get, entry_put, if_pos rfl]
    | cons =>
      rw [dropLast_cons_of_ne_nil (cons_ne_nil _ _)] at parent
      obtain ⟨entries, found⟩ := get_dir parent
      rw [get] at found
      obtain ⟨inner, here, inside⟩ := bind_eq_some_iff.mp found
      cases t with
      | dir =>
        rw [cons_append, set, here, get, entry_put, if_pos rfl]
        exact ih (cons_ne_nil _ _) (by simp only [isDir, inside])
      | file | link | special => cases here

theorem find_set_other (child : Option (Tree α)) (other : ¬ p <+: q) : find (set t p child) q = find t q := by
  induction p generalizing t q with
  | nil => exact absurd (List.nil_prefix) other
  | cons name rest ih =>
    cases q with
    | nil =>
      have same : node (set t (name :: rest) child) = node t := by
        cases rest with
        | nil => exact node_put child t
        | cons =>
          rw [set]
          split
          · exact node_put _ t
          · rfl
      simp only [find, get, map_some, same]
    | cons first later =>
      cases t with
      | dir =>
        cases rest with
        | nil =>
          have differs : first ≠ name := fun same => other (by simp [same])
          simp only [find, get, set, entry_put, if_neg differs]
          rfl
        | cons next rest =>
          rw [set]
          split
          · next here =>
            by_cases same : first = name
            · subst same
              have inside : ¬ next :: rest <+: later := fun under =>
                other (cons_prefix_cons.mpr ⟨rfl, under⟩)
              simp only [find, get, entry_put, if_pos, here, bind_some]
              exact ih inside
            · simp only [find, get, entry_put, if_neg same]
              rfl
          · rfl
      | file | link | special => cases rest <;> rfl

theorem parent_apart (below : p ≠ []) : ¬ p <+: p.dropLast := by
  intro under
  have short := under.length_le
  have long := length_pos_iff.mpr below
  rw [length_dropLast] at short
  omega

theorem get_removed (below : p ≠ []) (q : Path) : get (set t p none) (p ++ q) = none := by
  cases dir : isDir t p.dropLast with
  | true => exact get_set_below below dir none q
  | false =>
    refine get_below ?_ q
    have still : isDir (set t p none) p.dropLast = false := by
      rw [Bool.eq_false_iff, ne_eq, is_dir_iff, find_set_other none (parent_apart below), ← is_dir_iff, dir]
      simp
    have last : p = p.dropLast ++ [p.getLast below] := (dropLast_append_getLast below).symm
    rw [last, get_append, ← last]
    cases found : get (set t p none) p.dropLast with
    | none => rfl
    | some inner =>
      cases inner with
      | dir => simp [isDir, found] at still
      | file | link | special => rfl

theorem find_removed (below : p ≠ []) (q : Path) : find (set t p none) q = if p <+: q then none else find t q := by
  by_cases under : p <+: q
  · obtain ⟨rest, rfl⟩ := under
    rw [if_pos (prefix_append p rest), find, get_removed below rest]
    rfl
  · rw [if_neg under]
    exact find_set_other none under

variable {t' made : Tree α} {source target : Path}

section
variable (renamed : rename t source target = some t')
include renamed

theorem rename_parts : ∃ moved, get t source = some moved ∧
    ¬ source <+: target ∧ isDir t target.dropLast ∧ replaces moved (get t target) ∧
    t' = set (set t source none) target (some moved) := by
  unfold rename at renamed
  split at renamed
  · cases renamed
  · next moved found =>
    split at renamed
    · cases renamed
    · next passes =>
      cases renamed
      simp only [Bool.or_eq_true, Bool.not_eq_true', not_or, Bool.not_eq_false, isPrefixOf_iff_prefix] at passes
      exact ⟨moved, found, passes.1.1, passes.1.2, passes.2, rfl⟩

theorem get_renamed (below : target ≠ []) (q : Path) : get t' (target ++ q) = get t (source ++ q) := by
  obtain ⟨moved, found, apart, parent, _, rfl⟩ := rename_parts renamed
  have still : isDir (set t source none) target.dropLast := by
    rw [is_dir_iff, find_set_other none fun under => apart (under.trans (List.dropLast_prefix target)), ← is_dir_iff]
    exact parent
  rw [get_set_below below still, get_append, found]

theorem find_moved (below : target ≠ []) (q : Path) : find t' (target ++ q) = find t (source ++ q) := by
  rw [find, get_renamed renamed below, find]

theorem find_renamed (nonroot : source ≠ []) (q : Path)
    (other : ¬ target <+: q) : find t' q = if source <+: q then none else find t q := by
  obtain ⟨moved, _, _, _, _, rfl⟩ := rename_parts renamed
  rw [find_set_other _ other, find_removed nonroot]

end

theorem make_parts (makes : make t p made = some t') : isDir t p.dropLast ∧ get t p = none ∧
    t' = set t p (some made) := by
  unfold make at makes
  split at makes
  · next both =>
    rw [Bool.and_eq_true, isNone_iff_eq_none] at both
    exact ⟨both.1, both.2, (some.inj makes).symm⟩
  · cases makes

theorem get_made (makes : make t p made = some t') (below : p ≠ []) (q : Path) : get t' (p ++ q) = get made q := by
  obtain ⟨parent, _, rfl⟩ := make_parts makes
  exact get_set_below below parent (some made) q

theorem find_made_other (makes : make t p made = some t') (other : ¬ p <+: q) : find t' q = find t q := by
  obtain ⟨_, _, rfl⟩ := make_parts makes
  exact find_set_other _ other

theorem other_path (apart : ¬ p <+: q) : q ≠ p := by
  rintro rfl
  exact apart (prefix_refl q)

theorem find_leaf (leaf : isDir t p = false) (below : q ≠ []) : find t (p ++ q) = none := by
  rw [find, get_append]
  unfold isDir at leaf
  cases q with
  | nil => exact absurd rfl below
  | cons =>
    cases found : get t p with
    | none => rfl
    | some inner =>
      rw [found] at leaf
      cases inner with
      | dir => cases leaf
      | file | link | special => rfl

theorem bare_leaf (leaf : isDir made [] = false) (below : q ≠ []) : find made q = none := find_leaf (p := []) leaf below

theorem find_made_bare (makes : make t p made = some t') (below : p ≠ []) (bare : ∀ q, q ≠ [] → find made q = none) (q : Path) :
    find t' q = if q = p then some (node made) else find t q := by
  by_cases under : p <+: q
  · obtain ⟨rest, rfl⟩ := under
    rw [find, get_made makes below]
    by_cases here : rest = []
    · subst here
      rw [if_pos (append_nil p)]
      rfl
    · rw [if_neg (by simpa using here), find_below (by rw [find, (make_parts makes).2.1]; rfl)]
      exact bare rest here
  · rw [find_made_other makes under, if_neg (other_path under)]

theorem find_exchanged_leaf {old new : Tree α} (found : get t p = some old) (below : p ≠ []) (before : isDir old [] = false)
    (after : isDir new [] = false) (q : Path) : find (set t p (some new)) q = if q = p then some (node new) else find t q := by
  have parent : isDir t p.dropLast := by
    have last : p = p.dropLast ++ [p.getLast below] := (dropLast_append_getLast below).symm
    cases dir : isDir t p.dropLast with
    | true => rfl
    | false =>
      have absent := find_leaf dir (cons_ne_nil (p.getLast below) [])
      rw [← last, find, found] at absent
      cases absent
  have leaf : isDir t p = false := by
    cases old <;> first | (cases before; done) | simp [isDir, found]
  by_cases under : p <+: q
  · obtain ⟨rest, rfl⟩ := under
    rw [find, get_set_below below parent]
    by_cases here : rest = []
    · subst here
      rw [if_pos (append_nil p)]
      rfl
    · rw [if_neg (by simpa using here), find_leaf leaf here]
      exact bare_leaf after here
  · rw [find_set_other _ under, if_neg (other_path under)]

theorem find_renamed_leaf (renamed : rename t source target = some t') (below : target ≠ []) (nonroot : source ≠ [])
    (leaf : isDir t source = false) (q : Path) :
    find t' q = if q = target then find t source else if q = source then none else find t q := by
  obtain ⟨moved, found, _, _, covered, _⟩ := rename_parts renamed
  have file : isDir moved [] = false := by
    cases moved <;> first | rfl | simp [isDir, found] at leaf
  have replaced : isDir t target = false := by
    unfold replaces at covered
    unfold isDir
    split
    · next there =>
      rw [there] at covered
      simp [file] at covered
    · rfl
  by_cases under : target <+: q
  · obtain ⟨rest, rfl⟩ := under
    rw [find_moved renamed below]
    by_cases here : rest = []
    · subst here
      rw [if_pos (append_nil target), append_nil]
    · rw [if_neg (by simpa using here), find_leaf leaf here]
      split
      · rfl
      · exact (find_leaf replaced here).symm
  · rw [find_renamed renamed nonroot q under, if_neg (other_path under)]
    by_cases moves : source <+: q
    · obtain ⟨rest, rfl⟩ := moves
      rw [if_pos (prefix_append source rest)]
      split
      · rfl
      · next differs => exact (find_leaf leaf (by simpa using differs)).symm
    · rw [if_neg moves, if_neg (other_path moves)]

end Changes

end PieRelay.FileTrees
