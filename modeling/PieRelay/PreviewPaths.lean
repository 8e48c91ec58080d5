import PieRelay.PreviewService
import PieRelay.RealPaths

/-!
Application paths of previews: what `path.Clean` leaves of a relative path, and when a path that has been normalized stays
the same when it is normalized again.
-/
namespace PieRelay.PreviewPaths
open PreviewRecords PreviewService RealPaths

section Cleaning

def Kept (part : List Char) : Prop := part ≠ [] ∧ part ≠ ['.'] ∧ part ≠ ['.', '.']

inductive Cleaned : List (List Char) → Prop where
  | none : Cleaned []
  | kept (part : List Char) (rest : List (List Char)) : Kept part → Cleaned rest → Cleaned (part :: rest)
  | up (rest : List (List Char)) : (∀ other ∈ rest, other = ['.', '.']) → Cleaned (['.', '.'] :: rest)

theorem cleaned_tail {part : List Char} {rest : List (List Char)} (cleaned : Cleaned (part :: rest)) : Cleaned rest := by
  cases cleaned with
  | kept _ _ _ later => exact later
  | up _ ups =>
    cases rest with
    | nil => exact .none
    | cons next rest =>
      rw [ups next List.mem_cons_self]
      exact .up rest fun other member => ups other (List.mem_cons_of_mem next member)

theorem clean_cleaned {parts done : List (List Char)} (cleaned : Cleaned done) : Cleaned (cleanParts done parts) := by
  induction parts generalizing done with
  | nil => exact cleaned
  | cons part rest ih =>
    rw [cleanParts.eq_def]
    simp only
    split
    · exact ih cleaned
    · next plain =>
      rw [not_or] at plain
      split
      · next up =>
        subst up
        split
        · exact ih (.up [] fun other member => absurd member List.not_mem_nil)
        · next kept =>
          split
          · next above =>
            subst above
            refine ih (.up _ fun other member => ?_)
            cases cleaned with
            | kept _ _ whole => exact absurd rfl whole.2.2
            | up _ ups => exact (List.mem_cons.mp member).elim id (ups other)
          · exact ih (cleaned_tail cleaned)
      · next other => exact ih (.kept part done ⟨plain.1, plain.2, other⟩ cleaned)

theorem clean_sublist (parts done : List (List Char)) : (cleanParts done parts).reverse.Sublist (done.reverse ++ parts) := by
  induction parts generalizing done with
  | nil => rw [cleanParts.eq_def, List.append_nil]
  | cons part rest ih =>
    have dropped : (done.reverse ++ rest).Sublist (done.reverse ++ part :: rest) :=
      List.Sublist.append_left (List.sublist_cons_self part rest) done.reverse
    have taken := ih (part :: done)
    rw [List.reverse_cons, List.append_assoc, List.singleton_append] at taken
    rw [cleanParts.eq_def]
    simp only
    split
    · exact (ih done).trans dropped
    · split
      · split
        · exact ih [part]
        · next last kept =>
          split
          · exact taken
          · refine (ih kept).trans ?_
            rw [List.reverse_cons, List.append_assoc]
            exact List.Sublist.append_left ((List.sublist_cons_self part rest).cons last) kept.reverse
      · exact taken

theorem cleaned_kept {parts : List (List Char)} (cleaned : Cleaned parts) (down : parts.reverse.head? ≠ some ['.', '.']) :
    ∀ part ∈ parts, Kept part := by
  induction cleaned with
  | none => exact fun part member => absurd member List.not_mem_nil
  | kept part rest whole _ ih =>
    intro other member
    rcases List.mem_cons.mp member with rfl | inside
    · exact whole
    · refine ih (fun begins => down ?_) other inside
      rw [List.reverse_cons, List.head?_append, begins]
      rfl
  | up rest ups =>
    exfalso
    apply down
    cases shape : rest.reverse with
    | nil => rw [List.reverse_cons, shape]; rfl
    | cons first =>
      have member : first ∈ rest := List.mem_reverse.mp (shape ▸ List.mem_cons_self)
      rw [List.reverse_cons, shape, ups first member]
      rfl

end Cleaning

section Joining

variable {parts : List (List Char)}

theorem split_on_slash (text : List Char) : splitOn '/' text = splitSlash text ∧ splitSlash text ≠ [] := by
  induction text with
  | nil => exact ⟨rfl, List.cons_ne_nil _ _⟩
  | cons c rest ih =>
    rw [splitOn, splitSlash, ih.1]
    cases parts : splitSlash rest with
    | nil => exact absurd parts ih.2
    | cons =>
      by_cases slash : c = '/'
      · simp [slash]
      · simp [slash]

def joinSlash : List (List Char) → List Char
  | [] => []
  | [part] => part
  | part :: next :: rest => part ++ '/' :: joinSlash (next :: rest)

theorem split_joined (some : parts ≠ []) (plain : ∀ part ∈ parts, '/' ∉ part) :
    splitSlash (joinSlash parts) = parts := by
  induction parts with
  | nil => exact absurd rfl some
  | cons part rest ih =>
    cases rest with
    | nil => exact split_plain (plain part List.mem_cons_self)
    | cons =>
      rw [joinSlash, split_join (plain part List.mem_cons_self), ih (List.cons_ne_nil _ _)]
      exact fun other member => plain other (List.mem_cons_of_mem part member)

theorem joined_split (text : List Char) : joinSlash (splitSlash text) = text := by
  induction text with
  | nil => rfl
  | cons c rest ih =>
    rw [splitSlash]
    have nonempty := (split_on_slash rest).2
    split
    · next slash =>
      cases parts : splitSlash rest with
      | nil => exact absurd parts nonempty
      | cons =>
        rw [joinSlash, ← parts, ih, slash]
        rfl
    · cases parts : splitSlash rest with
      | nil => exact absurd parts nonempty
      | cons first others =>
        rw [parts] at ih
        cases others with
        | nil => rw [joinSlash] at ih ⊢; rw [ih]
        | cons => rw [joinSlash, List.cons_append, ← joinSlash, ih]

theorem mem_joined {part : List Char} (member : part ∈ parts) : ∀ c ∈ part, c ∈ joinSlash parts := by
  induction parts with
  | nil => exact absurd member List.not_mem_nil
  | cons first rest ih =>
    intro c inside
    cases rest with
    | nil =>
      rw [List.mem_singleton.mp member] at inside
      exact inside
    | cons =>
      rw [joinSlash]
      rcases List.mem_cons.mp member with rfl | later
      · exact List.mem_append_left _ inside
      · exact List.mem_append_right _ (List.mem_cons_of_mem '/' (ih later c inside))

theorem joined_mem {c : Char} (member : c ∈ joinSlash parts) : c = '/' ∨ ∃ part ∈ parts, c ∈ part := by
  induction parts with
  | nil => exact absurd member List.not_mem_nil
  | cons part rest ih =>
    cases rest with
    | nil => exact Or.inr ⟨part, List.mem_cons_self, member⟩
    | cons =>
      rw [joinSlash] at member
      rcases List.mem_append.mp member with first | later
      · exact Or.inr ⟨part, List.mem_cons_self, first⟩
      · rcases List.mem_cons.mp later with slash | inside
        · exact Or.inl slash
        · refine (ih inside).imp_right ?_
          rintro ⟨other, known, there⟩
          exact ⟨other, List.mem_cons_of_mem part known, there⟩

theorem intercalate_join (parts : List (List Char)) :
    ("/".intercalate (parts.map String.ofList)).toList = joinSlash parts := by
  induction parts with
  | nil => rw [List.map_nil, String.intercalate_nil]; rfl
  | cons part rest ih =>
    cases rest with
    | nil => rw [List.map_cons, List.map_nil, String.intercalate_singleton, String.toList_ofList]; rfl
    | cons =>
      rw [List.map_cons, List.map_cons, String.intercalate_cons_cons, ← List.map_cons, String.toList_append, ih,
        String.toList_append, String.toList_ofList, List.append_assoc]
      rfl

theorem intercalate_text (parts : List (List Char)) : "/".intercalate (parts.map String.ofList) = String.ofList (joinSlash parts) := by
  rw [← intercalate_join, String.ofList_toList]

def width (parts : List (List Char)) : Nat := (parts.map fun part => (String.ofList part).utf8ByteSize + 1).sum

theorem width_cons (part : List Char) (rest : List (List Char)) :
    width (part :: rest) = (String.ofList part).utf8ByteSize + 1 + width rest := by
  simp [width]

theorem join_width (some : parts ≠ []) : (String.ofList (joinSlash parts)).utf8ByteSize + 1 = width parts := by
  induction parts with
  | nil => exact absurd rfl some
  | cons part rest ih =>
    cases rest with
    | nil => rfl
    | cons next rest =>
      have later := ih (List.cons_ne_nil _ _)
      have text : String.ofList (part ++ '/' :: joinSlash (next :: rest)) =
          String.ofList part ++ "/" ++ String.ofList (joinSlash (next :: rest)) := by
        apply String.toList_inj.mp
        simp
      have slash : "/".utf8ByteSize = 1 := by decide
      rw [joinSlash, text, String.utf8ByteSize_append, String.utf8ByteSize_append, slash, width_cons]
      omega

theorem sublist_width {other : List (List Char)} (sub : parts.Sublist other) : width parts ≤ width other := by
  induction sub with
  | slnil => exact Nat.le_refl _
  | cons =>
    rw [width_cons]
    omega
  | cons_cons =>
    rw [width_cons, width_cons]
    omega

end Joining

section Trimming

variable {text : List Char}

theorem trim_same (head : ∀ c, text.head? = some c → isSpace c = false)
    (last : ∀ c, text.getLast? = some c → isSpace c = false) : trimSpace (String.ofList text) = String.ofList text := by
  have front : text.dropWhile isSpace = text := by
    cases text with
    | nil => rfl
    | cons c => rw [List.dropWhile_cons_of_neg (by rw [head c rfl]; decide)]
  have back : text.reverse.dropWhile isSpace = text.reverse := by
    cases shape : text.reverse with
    | nil => rfl
    | cons c =>
      refine List.dropWhile_cons_of_neg ?_
      rw [last c (by rw [← List.head?_reverse, shape]; rfl)]
      decide
  rw [trimSpace, String.toList_ofList, front, back, List.reverse_reverse]

theorem drop_head (same : text.dropWhile isSpace = text) : ∀ c, text.head? = some c → isSpace c = false := by
  intro c begins
  cases text with
  | nil => cases begins
  | cons first rest =>
    cases begins
    rw [← Bool.not_eq_true]
    intro space
    rw [List.dropWhile_cons_of_pos space] at same
    have short := (List.dropWhile_suffix isSpace (l := rest)).length_le
    rw [same, List.length_cons] at short
    omega

theorem same_trim (same : trimSpace (String.ofList text) = String.ofList text) :
    (∀ c, text.head? = some c → isSpace c = false) ∧ ∀ c, text.getLast? = some c → isSpace c = false := by
  rw [trimSpace, String.toList_ofList, String.ofList_inj] at same
  have front := List.dropWhile_suffix isSpace (l := text)
  have back := List.dropWhile_suffix isSpace (l := (text.dropWhile isSpace).reverse)
  have length := congrArg List.length same
  rw [List.length_reverse] at length
  have first := front.length_le
  have second := back.length_le
  rw [List.length_reverse] at second
  have whole : text.dropWhile isSpace = text := front.eq_of_length (by omega)
  rw [whole] at back second length
  have reversed : text.reverse.dropWhile isSpace = text.reverse := back.eq_of_length (by rw [List.length_reverse]; omega)
  refine ⟨drop_head whole, fun c ends => drop_head reversed c ?_⟩
  rw [List.head?_reverse]
  exact ends

theorem text_cons (c : Char) (text : List Char) :
    (String.ofList (c :: text)).utf8ByteSize = c.utf8Size + (String.ofList text).utf8ByteSize := by
  have parted : String.ofList (c :: text) = String.singleton c ++ String.ofList text := by
    apply String.toList_inj.mp
    simp
  rw [parted, String.utf8ByteSize_append, String.utf8ByteSize_singleton]

theorem sublist_same {other : List Char} (sub : text.Sublist other)
    (long : (String.ofList other).utf8ByteSize ≤ (String.ofList text).utf8ByteSize) : text = other := by
  have short : ∀ {text other : List Char}, text.Sublist other →
      (String.ofList text).utf8ByteSize ≤ (String.ofList other).utf8ByteSize := by
    intro text other sub
    induction sub with
    | slnil => exact Nat.le_refl _
    | cons =>
      rw [text_cons]
      omega
    | cons_cons =>
      rw [text_cons, text_cons]
      omega
  induction sub with
  | slnil => rfl
  | cons c sub =>
    have less := short sub
    have some := c.utf8Size_pos
    rw [text_cons] at long
    omega
  | cons_cons c _ ih =>
    rw [text_cons, text_cons] at long
    rw [ih (by omega)]

theorem trim_sublist (text : List Char) : (trimSpace (String.ofList text)).toList.Sublist text := by
  rw [trimSpace, String.toList_ofList, String.toList_ofList]
  have front := (List.dropWhile_suffix isSpace (l := text)).sublist
  have back := (List.dropWhile_suffix isSpace (l := (text.dropWhile isSpace).reverse)).sublist.reverse
  rw [List.reverse_reverse] at back
  exact back.trans front

end Trimming

section Paths

def cleanPath (value : String) : List (List Char) := (cleanParts [] (splitOn '/' (trimSpace value).toList)).reverse

def Tight (value : String) : Prop :=
  (∀ c, (joinSlash (cleanPath value)).head? = some c → isSpace c = false) ∧
    ∀ c, (joinSlash (cleanPath value)).getLast? = some c → isSpace c = false

def Inside (projectID dir : String) : Prop := dir = ControlPlane.projectWorkingDir projectID ∨
  ∃ parts : List String, parts ≠ [] ∧ (∀ part ∈ parts, part ≠ "" ∧ part ≠ "." ∧ part ≠ ".." ∧ '/' ∉ part.toList) ∧
    dir = ControlPlane.projectWorkingDir projectID ++ "/" ++ "/".intercalate parts

/-- What is accepted stays as it is, and the directory is the project's whichever of the two it is computed from. -/
structure Stable (projectID value : String) : Prop where
  again : ∀ p, normalizePreviewAppPath value = some p → normalizePreviewAppPath p = some p
  inside : ∀ dir, projectPreviewWorkingDir projectID value = some dir → Inside projectID dir
  same : ∀ p, normalizePreviewAppPath value = some p → projectPreviewWorkingDir projectID p = projectPreviewWorkingDir projectID value

structure Accepted (parts : List (List Char)) : Prop where
  some : parts ≠ []
  kept : ∀ part ∈ parts, Kept part
  plain : ∀ part ∈ parts, '/' ∉ part ∧ '\\' ∉ part
  short : ∀ part ∈ parts, (String.ofList part).utf8ByteSize ≤ 255 ∧ part.all fun c => ¬ isControl c
  whole : width parts ≤ 513

variable {value p : String}

theorem clean_plain (value : String) : ∀ part ∈ cleanPath value, '/' ∉ part ∧ ∀ c ∈ part, c ∈ (trimSpace value).toList := by
  intro part member
  have inside := (clean_sublist (splitOn '/' (trimSpace value).toList) []).subset member
  rw [List.reverse_nil, List.nil_append, (split_on_slash _).1] at inside
  refine ⟨split_slashless _ part inside, fun c known => ?_⟩
  rw [← joined_split (trimSpace value).toList]
  exact mem_joined inside c known

theorem split_width (text : List Char) : width (splitSlash text) = (String.ofList text).utf8ByteSize + 1 := by
  rw [← join_width (split_on_slash text).2, joined_split]

theorem clean_width (value : String) : width (cleanPath value) ≤ (trimSpace value).utf8ByteSize + 1 := by
  have bound := sublist_width (clean_sublist (splitOn '/' (trimSpace value).toList) [])
  have size : width (splitOn '/' (trimSpace value).toList) = (trimSpace value).utf8ByteSize + 1 := by
    rw [(split_on_slash _).1, split_width, String.ofList_toList]
  rwa [List.reverse_nil, List.nil_append, size] at bound

theorem normalize_cases (value : String) : normalizePreviewAppPath value =
    if trimSpace value = "" ∨ trimSpace value = "." then some "."
    else if 512 < (trimSpace value).utf8ByteSize ∨ '\\' ∈ (trimSpace value).toList ∨ (trimSpace value).toList.head? = some '/' then none
    else if cleanPath value = [] ∨ (cleanPath value).head? = some ['.', '.'] then none
    else if (cleanPath value).all fun part => (String.ofList part).utf8ByteSize ≤ 255 ∧ part.all fun c => ¬ isControl c then
      some (String.ofList (joinSlash (cleanPath value)))
    else none := by
  rw [← intercalate_text]
  rfl

theorem clean_accepted (found : normalizePreviewAppPath value = some p) :
    (p = "." ∧ cleanPath value = []) ∨ (Accepted (cleanPath value) ∧ p = String.ofList (joinSlash (cleanPath value))) := by
  have cleaned : Cleaned (cleanParts [] (splitOn '/' (trimSpace value).toList)) := clean_cleaned .none
  have text := clean_plain value
  have bound := clean_width value
  rw [normalize_cases] at found
  split at found
  · next bare =>
    refine Or.inl ⟨(Option.some.inj found).symm, ?_⟩
    rcases bare with empty | dot
    · rw [cleanPath, empty]
      rfl
    · rw [cleanPath, dot]
      rfl
  · split at found
    · cases found
    · next passes =>
      simp only [not_or, Nat.not_lt] at passes
      split at found
      · cases found
      · next down =>
        rw [not_or] at down
        split at found
        · next fine =>
          refine Or.inr ⟨⟨down.1, ?_, ?_, ?_, by omega⟩, (Option.some.inj found).symm⟩
          · exact fun part member => cleaned_kept cleaned down.2 part (List.mem_reverse.mp member)
          · exact fun part member => ⟨(text part member).1, fun inside => passes.2.1 ((text part member).2 _ inside)⟩
          · intro part member
            simpa using List.all_eq_true.mp fine part member
        · cases found

theorem join_some {parts : List (List Char)} (some : parts ≠ []) (kept : ∀ part ∈ parts, Kept part) :
    joinSlash parts ≠ [] ∧ joinSlash parts ≠ ['.'] ∧ (joinSlash parts).head? = (parts.head?.bind List.head?) := by
  cases parts with
  | nil => exact absurd rfl some
  | cons part rest =>
    obtain ⟨nonempty, dot, _⟩ := kept part List.mem_cons_self
    cases part with
    | nil => exact absurd rfl nonempty
    | cons =>
      cases rest with
      | nil => exact ⟨List.cons_ne_nil _ _, dot, rfl⟩
      | cons =>
        refine ⟨List.cons_ne_nil _ _, fun same => ?_, rfl⟩
        have length := congrArg List.length same
        simp [joinSlash] at length

/-- Where trimming leaves the cleaned path alone, it is accepted as it is. -/
theorem accepted_normal {parts : List (List Char)} (accepted : Accepted parts)
    (trimmed : trimSpace (String.ofList (joinSlash parts)) = String.ofList (joinSlash parts)) :
    normalizePreviewAppPath (String.ofList (joinSlash parts)) = some (String.ofList (joinSlash parts)) := by
  obtain ⟨first, rest, shape⟩ := List.exists_cons_of_ne_nil accepted.some
  have own : first ∈ parts := shape ▸ List.mem_cons_self
  have size := join_width accepted.some
  have bound := accepted.whole
  obtain ⟨nonempty, dot, head⟩ := join_some accepted.some accepted.kept
  have clean : cleanPath (String.ofList (joinSlash parts)) = parts := by
    rw [cleanPath, trimmed, String.toList_ofList, (split_on_slash _).1,
      split_joined accepted.some fun part member => (accepted.plain part member).1, clean_parts accepted.kept, List.append_nil,
      List.reverse_reverse]
  have backslash : '\\' ∉ joinSlash parts := by
    intro inside
    rcases joined_mem inside with absurd | ⟨part, member, known⟩
    · cases absurd
    · exact (accepted.plain part member).2 known
  have slash : (joinSlash parts).head? ≠ some '/' := by
    rw [head, shape, List.head?_cons, Option.bind_some]
    intro begins
    cases first with
    | nil => cases begins
    | cons =>
      cases begins
      exact (accepted.plain _ own).1 List.mem_cons_self
  rw [normalize_cases, trimmed, clean, String.toList_ofList, if_neg, if_neg, if_neg, if_pos]
  · rw [List.all_eq_true]
    intro part member
    simpa using accepted.short part member
  · rintro (none | up)
    · exact accepted.some none
    · rw [shape, List.head?_cons] at up
      exact (accepted.kept first own).2.2 (Option.some.inj up)
  · rintro (long | slashed | absolute)
    · omega
    · exact backslash slashed
    · exact slash absolute
  · rintro (empty | point)
    · exact nonempty (by simpa using congrArg String.toList empty)
    · exact dot (by simpa using congrArg String.toList point)

theorem normalize_short (found : normalizePreviewAppPath value = some p) :
    p = "." ∨ p.utf8ByteSize ≤ (trimSpace value).utf8ByteSize := by
  rcases clean_accepted found with ⟨dot, _⟩ | ⟨accepted, rfl⟩
  · exact Or.inl dot
  · have size := join_width accepted.some
    have bound := clean_width value
    exact Or.inr (by omega)

theorem normal_again (found : normalizePreviewAppPath value = some p) :
    normalizePreviewAppPath p = some p ↔ Tight value := by
  rcases clean_accepted found with ⟨rfl, none⟩ | ⟨accepted, rfl⟩
  · have tight : Tight value := by
      rw [Tight, none]
      exact ⟨fun c absurd => (by cases absurd), fun c absurd => by cases absurd⟩
    exact ⟨fun _ => tight, fun _ => by decide⟩
  · constructor
    · intro again
      have dot := (join_some accepted.some accepted.kept).2.1
      have size := (normalize_short again).resolve_left fun same => dot (by simpa using congrArg String.toList same)
      have whole := sublist_same (trim_sublist (joinSlash (cleanPath value))) (by rw [String.ofList_toList]; exact size)
      exact same_trim (by rw [← String.toList_inj, whole, String.toList_ofList])
    · intro tight
      exact accepted_normal accepted (trim_same tight.1 tight.2)

theorem inside_project {projectID dir : String} (found : projectPreviewWorkingDir projectID value = some dir) :
    Inside projectID dir := by
  unfold projectPreviewWorkingDir at found
  split at found
  · obtain ⟨p, normal, made⟩ := Option.map_eq_some_iff.mp found
    split at made
    · exact Or.inl made.symm
    · next below =>
      refine Or.inr ?_
      rcases clean_accepted normal with ⟨dot, _⟩ | ⟨accepted, rfl⟩
      · exact absurd dot below
      · refine ⟨(cleanPath value).map String.ofList, by simpa using accepted.some, fun part member => ?_, ?_⟩
        · obtain ⟨chars, known, rfl⟩ := List.mem_map.mp member
          obtain ⟨some, dot, dots⟩ := accepted.kept chars known
          refine ⟨fun same => some ?_, fun same => dot ?_, fun same => dots ?_, ?_⟩
          · simpa using congrArg String.toList same
          · simpa using congrArg String.toList same
          · simpa using congrArg String.toList same
          · simpa using (accepted.plain chars known).1
        · rw [← made, intercalate_text]
  · cases found

/-- An application path is stable exactly where it is refused or its cleaned path needs no more trimming. -/
theorem preview_path_stable_iff (projectID value : String) :
    Stable projectID value ↔ normalizePreviewAppPath value = none ∨ Tight value := by
  constructor
  · intro stable
    cases found : normalizePreviewAppPath value with
    | none => exact Or.inl rfl
    | some p => exact Or.inr ((normal_again found).mp (stable.again p found))
  · intro tight
    have again : ∀ p, normalizePreviewAppPath value = some p → normalizePreviewAppPath p = some p := by
      intro p found
      refine (normal_again found).mpr (tight.resolve_left fun refused => ?_)
      cases refused.symm.trans found
    refine ⟨again, fun dir found => inside_project found, fun p found => ?_⟩
    rw [projectPreviewWorkingDir, projectPreviewWorkingDir, again p found, found]

theorem blank_part_shifts : normalizePreviewAppPath "./ a" = some " a" ∧ normalizePreviewAppPath " a" = some "a" ∧
    ¬ Stable "p1" "./ a" := by
  have first : normalizePreviewAppPath "./ a" = some " a" := by decide +kernel
  have second : normalizePreviewAppPath " a" = some "a" := by decide +kernel
  refine ⟨first, second, fun stable => ?_⟩
  exact absurd (second.symm.trans (stable.again " a" first)) (by decide)

end Paths

end PieRelay.PreviewPaths
