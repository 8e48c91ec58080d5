import PieRelay.FileTrees

/-! Path texts, and symbolic links in a tree of files. `resolve` joins texts
without looking at the tree, as a path library does; `follow` replaces links,
and what it arrives at is canonical whichever way the target of a link is
joined to where the link is. -/
namespace PieRelay.RealPaths
open FileTrees List

def splitSlash : List Char → List (List Char)
  | [] => [[]]
  | c :: rest =>
    if c = '/' then [] :: splitSlash rest
    else match splitSlash rest with
      | [] => [[c]]
      | first :: others => (c :: first) :: others

def components (text : String) : List String := (splitSlash text.toList).map String.ofList

def joined : Path → String
  | [] => ""
  | [name] => name
  | name :: next :: rest => name ++ "/" ++ joined (next :: rest)

def absolute (text : String) : Bool := text.toList.head? = some '/'

def push (base : Path) (name : String) : Path :=
  if name = "" ∨ name = "." then base else if name = ".." then base.dropLast else base ++ [name]

def resolve (base : Path) (text : String) : Path := (components text).foldl push (if absolute text then [] else base)

def continued (base : Path) (text : String) : Path := (if absolute text then [] else base) ++ components text

inductive Walked where
  | arrived (p : Path)
  | missing
  | link (base : Path) (target : String) (rest : Path)

variable {α : Type}

def walk (t : FileTrees.Tree α) (done : Path) : Path → Walked
  | [] => .arrived done
  | name :: rest =>
    if !isDir t done then .missing
    else if name = "" ∨ name = "." then walk t done rest
    else if name = ".." then walk t done.dropLast rest
    else match find t (done ++ [name]) with
      | none => .missing
      | some (.link target) => .link done target rest
      | some _ => walk t (done ++ [name]) rest

def follow (next : Path → String → Path) (t : FileTrees.Tree α) : Nat → Path → Option Path
  | 0, _ => none
  | limit + 1, p =>
    match walk t [] p with
    | .arrived q => some q
    | .missing => none
    | .link base target rest => follow next t limit (next base target ++ rest)

def realpath (t : FileTrees.Tree α) (limit : Nat) (p : Path) : Option Path := follow resolve t limit p

def namei (t : FileTrees.Tree α) (limit : Nat) (p : Path) : Option Path := follow continued t limit p

def Plain (p : Path) : Prop := ∀ name ∈ p, '/' ∉ name.toList

structure Canonical (t : FileTrees.Tree α) (p : Path) : Prop where
  proper : ∀ name ∈ p, name ≠ "" ∧ name ≠ "." ∧ name ≠ ".."
  plain : Plain p
  present : find t p ≠ none
  real : ∀ q, q <+: p → ∀ target, find t q ≠ some (.link target)

section Texts

theorem split_plain {chars : List Char} (plain : '/' ∉ chars) : splitSlash chars = [chars] := by
  induction chars with
  | nil => rfl
  | cons c rest ih =>
    obtain ⟨differs, later⟩ := ne_and_not_mem_of_not_mem_cons plain
    rw [splitSlash, if_neg (Ne.symm differs), ih later]

theorem split_join {chars : List Char} (plain : '/' ∉ chars) (rest : List Char) :
    splitSlash (chars ++ '/' :: rest) = chars :: splitSlash rest := by
  induction chars with
  | nil => rfl
  | cons c others ih =>
    obtain ⟨differs, later⟩ := ne_and_not_mem_of_not_mem_cons plain
    rw [cons_append, splitSlash, if_neg (Ne.symm differs), ih later]

theorem split_slashless (chars : List Char) : ∀ part ∈ splitSlash chars, '/' ∉ part := by
  induction chars with
  | nil => simp [splitSlash]
  | cons c rest ih =>
    rw [splitSlash]
    split
    · intro part member
      rcases mem_cons.mp member with rfl | later
      · exact not_mem_nil
      · exact ih part later
    · next differs =>
      cases parts : splitSlash rest with
      | nil => simpa using Ne.symm differs
      | cons first =>
        rw [parts] at ih
        intro part member
        rcases mem_cons.mp member with rfl | later
        · exact not_mem_cons_of_ne_of_not_mem (Ne.symm differs) (ih first mem_cons_self)
        · exact ih part (mem_cons_of_mem first later)

theorem components_plain (text : String) : Plain (components text) := by
  intro name member
  obtain ⟨part, inside, rfl⟩ := mem_map.mp member
  rw [String.toList_ofList]
  exact split_slashless _ part inside

theorem components_joined {p : Path} (plain : Plain p) (some : p ≠ []) : components (joined p) = p := by
  induction p with
  | nil => exact absurd rfl some
  | cons name rest ih =>
    have head := plain name mem_cons_self
    cases rest with
    | nil =>
      rw [joined, components, split_plain head]
      simp
    | cons next rest =>
      have tail := ih (fun other member => plain other (mem_cons_of_mem name member)) (cons_ne_nil _ _)
      have text : (name ++ "/" ++ joined (next :: rest)).toList = name.toList ++ '/' :: (joined (next :: rest)).toList := by
        simp
      rw [components] at tail
      rw [joined, components, text, split_join head, map_cons, tail, String.ofList_toList]

theorem push_plain {base : Path} {name : String} (plain : Plain base) (head : '/' ∉ name.toList) : Plain (push base name) := by
  unfold push
  split
  · exact plain
  · split
    · exact fun other member => plain other (dropLast_subset _ member)
    · intro other member
      rcases mem_append.mp member with old | new
      · exact plain other old
      · rw [mem_singleton.mp new]
        exact head

theorem resolve_plain {base : Path} (text : String) (plain : Plain base) : Plain (resolve base text) := by
  have start : Plain (if absolute text then [] else base) := by
    split
    · exact fun name member => absurd member not_mem_nil
    · exact plain
  have fold : ∀ (names base : Path), Plain names → Plain base → Plain (names.foldl push base) := by
    intro names
    induction names with
    | nil => exact fun base _ plain => plain
    | cons name rest ih =>
      intro base each plain
      exact ih _ (fun other member => each other (mem_cons_of_mem name member))
        (push_plain plain (each name mem_cons_self))
  exact fold _ _ (components_plain text) start

end Texts

section Walks
variable {t : FileTrees.Tree α} {p q rest : Path}

theorem canonical_root (t : FileTrees.Tree α) (dir : isDir t []) : Canonical t [] := by
  refine ⟨fun name member => absurd member not_mem_nil, fun name member => absurd member not_mem_nil, ?_, ?_⟩
  · rw [is_dir_iff.mp dir]
    exact nofun
  · intro q under target link
    rw [prefix_nil.mp under, is_dir_iff.mp dir] at link
    cases link

theorem canonical_above (canonical : Canonical t p) (under : q <+: p) : Canonical t q := by
  refine ⟨fun name member => canonical.proper name (under.subset member), fun name member =>
    canonical.plain name (under.subset member), fun absent => canonical.present ?_, fun r above => canonical.real r
      (above.trans under)⟩
  obtain ⟨rest, rfl⟩ := under
  exact find_below absent rest

theorem canonical_last {name : String} {n : Node α} (canonical : Canonical t p)
    (proper : name ≠ "" ∧ name ≠ "." ∧ name ≠ "..") (plain : '/' ∉ name.toList) (found : find t (p ++ [name]) = some n)
    (real : ∀ target, n ≠ .link target) : Canonical t (p ++ [name]) := by
  refine ⟨fun other member => ?_, fun other member => ?_, ?_, fun q under target link => ?_⟩
  · rcases mem_append.mp member with old | new
    · exact canonical.proper other old
    · rw [mem_singleton.mp new]
      exact proper
  · rcases mem_append.mp member with old | new
    · exact canonical.plain other old
    · rw [mem_singleton.mp new]
      exact plain
  · rw [found]
    exact nofun
  · rcases prefix_concat_iff.mp under with rfl | above
    · cases found.symm.trans link
      exact real target rfl
    · exact canonical.real q above target link

theorem canonical_same {t' : FileTrees.Tree α} (same : ∀ q, q <+: p → find t' q = find t q) (canonical : Canonical t p) : Canonical t' p := by
  refine ⟨canonical.proper, canonical.plain, ?_, fun q under target => ?_⟩
  · rw [same p (prefix_refl p)]
    exact canonical.present
  · rw [same q under]
    exact canonical.real q under target

theorem walk_arrives (plain : Plain rest) (canonical : Canonical t p) (arrived : walk t p rest = .arrived q) :
    Canonical t q := by
  induction rest generalizing p with
  | nil =>
    cases arrived
    exact canonical
  | cons name rest ih =>
    have later : Plain rest := fun other member => plain other (mem_cons_of_mem name member)
    rw [walk] at arrived
    split at arrived
    · cases arrived
    · split at arrived
      · exact ih later canonical arrived
      · next named =>
        split at arrived
        · exact ih later (canonical_above canonical (List.dropLast_prefix p)) arrived
        · next up =>
          split at arrived
          · cases arrived
          · cases arrived
          · next real found =>
            have proper : name ≠ "" ∧ name ≠ "." ∧ name ≠ ".." :=
              ⟨fun same => named (Or.inl same), fun same => named (Or.inr same), up⟩
            exact ih later (canonical_last canonical proper (plain name mem_cons_self) found real) arrived

theorem walk_links {base : Path} {target : String} {after : Path} (plain : Plain rest) (before : Plain p)
    (links : walk t p rest = .link base target after) : Plain base ∧ Plain after := by
  induction rest generalizing p with
  | nil => cases links
  | cons name rest ih =>
    have later : Plain rest := fun other member => plain other (mem_cons_of_mem name member)
    rw [walk] at links
    split at links
    · cases links
    · split at links
      · exact ih later before links
      · split at links
        · exact ih later (fun other member => before other (dropLast_subset _ member)) links
        · split at links
          · cases links
          · cases links
            exact ⟨before, later⟩
          · refine ih later (fun other member => ?_) links
            rcases mem_append.mp member with old | new
            · exact before other old
            · rw [mem_singleton.mp new]
              exact plain name mem_cons_self

theorem follow_canonical {next : Path → String → Path} {limit : Nat} (dir : isDir t [])
    (joins : ∀ base target, Plain base → Plain (next base target)) (plain : Plain p)
    (arrived : follow next t limit p = some q) : Canonical t q := by
  induction limit generalizing p with
  | zero => cases arrived
  | succ limit ih =>
    rw [follow] at arrived
    split at arrived
    · next walked =>
      cases arrived
      exact walk_arrives plain (canonical_root t dir) walked
    · cases arrived
    · next base target after walked =>
      obtain ⟨before, later⟩ := walk_links plain (fun name member => absurd member not_mem_nil) walked
      refine ih (fun name member => ?_) arrived
      rcases mem_append.mp member with old | new
      · exact joins base target before name old
      · exact later name new

theorem dir_above {name : String} (present : find t (p ++ name :: rest) ≠ none) : isDir t p := by
  rw [is_dir_iff, find]
  cases found : get t p with
  | none =>
    rw [find, get_append, found] at present
    exact absurd rfl present
  | some inner =>
    rw [find, get_append, found] at present
    cases inner with
    | dir => rfl
    | file | link | special => exact absurd rfl present

/-- A canonical path is where the system finds it. -/
theorem walk_canonical (canonical : Canonical t (p ++ rest)) : walk t p rest = .arrived (p ++ rest) := by
  induction rest generalizing p with
  | nil => rw [walk, append_nil]
  | cons name rest ih =>
    obtain ⟨named, dotted, up⟩ := canonical.proper name (by simp)
    have under : p ++ [name] <+: p ++ name :: rest := ⟨rest, by simp⟩
    have here := canonical_above canonical under
    have onward := ih (p := p ++ [name]) (by simpa using canonical)
    rw [walk, dir_above canonical.present, if_neg (by simp), if_neg (by simp [named, dotted]), if_neg up]
    split
    · next absent => exact absurd absent here.present
    · next target link => exact absurd link (here.real _ (prefix_refl _) target)
    · simpa using onward

theorem follow_self {next : Path → String → Path} (canonical : Canonical t p) (limit : Nat) :
    follow next t (limit + 1) p = some p := by
  rw [follow, walk_canonical (p := []) (by simpa using canonical)]
  rfl

end Walks

end PieRelay.RealPaths
