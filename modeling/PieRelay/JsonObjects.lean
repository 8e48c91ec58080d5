import Mathlib.Data.Option.Basic
import PieRelay.JsonStrings

/-!
Top-level JSON objects as Go reads and writes them when the members stay raw:
`json.Unmarshal` into a map of `json.RawMessage`, `json.Marshal` of such a map, and a
streaming `json.Decoder` that looks at the members one after the other. A map keeps
the last of several members with one name and is written in the order of its keys.
-/
namespace PieRelay.JsonObjects
open JsonScanner JsonStrings

abbrev Fields := List (String × Bytes)

def expect (c : UInt8) (input : Bytes) : Option Bytes :=
  match skipSpace input with
  | found :: rest => if found = c then some rest else none
  | [] => none

def member (limit : Nat) (input : Bytes) : Option ((String × Bytes) × Bytes) := do
  let (key, rest) ← scanValue limit input
  guard (key.head? = some quote)
  let rest ← expect colon rest
  let (value, rest) ← scanValue limit rest
  some ((unquote key, value), rest)

def members (limit : Nat) : Nat → Bytes → Option (Fields × Bytes)
  | 0, _ => none
  | fuel + 1, input => do
    let (field, rest) ← member limit input
    match skipSpace rest with
    | c :: rest =>
      if c = comma then do
        let (fields, rest) ← members limit fuel rest
        some (field :: fields, rest)
      else if c = closeBrace then some ([field], rest)
      else none
    | [] => none

/-- `json.Unmarshal` into a map of raw members, in the order of the text: `none` for anything
    that is not an object, also for null. -/
def unmarshalObject (data : Bytes) : Option Fields := do
  let rest ← expect openBrace data
  let (fields, rest) ←
    match expect closeBrace rest with
    | some rest => some ([], rest)
    | none => members (maxNestingDepth - 1) data.length rest
  if skipSpace rest = [] then some fields else none

def literalString (raw : Bytes) : String := if raw.head? = some quote then unquote raw else ""

def textField (fields : Fields) (name : String) : String :=
  ((fields.lookup name).map literalString).getD ""

def peekMembers (name : String) : Nat → Bytes → String
  | 0, _ => ""
  | fuel + 1, input =>
    match member maxNestingDepth input with
    | none => ""
    | some (field, rest) =>
      if field.1 = name then literalString field.2
      else match expect comma rest with
        | some rest => peekMembers name fuel rest
        | none => ""

def peekStringField (data : Bytes) (name : String) : String :=
  match expect openBrace data with
  | some rest => peekMembers name data.length rest
  | none => ""

def objectOf : Fields → Fields
  | [] => []
  | field :: rest =>
    if rest.any fun other => other.1 = field.1 then objectOf rest else field :: objectOf rest

def setField (object : Fields) (name : String) (value : Bytes) : Fields :=
  (name, value) :: object.filter fun field => field.1 ≠ name

def deleteField (object : Fields) (name : String) : Fields :=
  object.filter fun field => field.1 ≠ name

def insertField (field : String × Bytes) : Fields → Fields
  | [] => [field]
  | other :: rest =>
    if other.1 < field.1 then other :: insertField field rest else field :: other :: rest

def sortFields (object : Fields) : Fields := object.foldr insertField []

def writeFields : Fields → Bytes
  | [] => [closeBrace]
  | [field] => quoteString field.1 ++ colon :: (field.2 ++ [closeBrace])
  | field :: rest => quoteString field.1 ++ colon :: (field.2 ++ comma :: writeFields rest)

def writeObject (fields : Fields) : Bytes := openBrace :: writeFields fields

def compact (raw : Bytes) : Bytes := escapeHTML 0 (strip maxNestingDepth ⟨.beginValue, []⟩ raw)

def marshalObject (object : Fields) : Bytes :=
  writeObject ((sortFields object).map fun field => (field.1, compact field.2))

def frameField (frame : Bytes) (name : String) : String :=
  ((unmarshalObject frame).map fun fields => textField (objectOf fields) name).getD ""

def Distinct (fields : Fields) : Prop := fields.Pairwise fun field other => field.1 ≠ other.1

structure WellFormed (object : Fields) : Prop where
  distinct : Distinct object
  scanned : ∀ field ∈ object, ∃ behind after,
    scanValue (maxNestingDepth - 1) behind = some (field.2, after)

def Solid (limit : Nat) (raw : Bytes) : Prop :=
  ∀ sep tail, isSeparator sep →
    scanValue limit (raw ++ sep :: tail) = some (raw, sep :: tail)

variable {c : UInt8} {limit fuel : Nat} {input raw rest data : Bytes} {field : String × Bytes}
  {fields object : Fields} {name : String}

theorem skip_space_head (visible : isSpace c = false) (rest : Bytes) : skipSpace (c :: rest) = c :: rest := by
  simp [skipSpace, visible]

theorem skip_space_first (input : Bytes) :
    skipSpace input = [] ∨ ∃ c rest, skipSpace input = c :: rest ∧ isSpace c = false := by
  induction input with
  | nil => exact Or.inl rfl
  | cons c input ih =>
    by_cases blank : isSpace c
    · simpa [skipSpace, blank] using ih
    · exact Or.inr ⟨c, input, by simp [skipSpace, blank], by simpa using blank⟩

theorem value_head (scanned : scanValue limit input = some (raw, rest)) :
    ∃ c tail next behind, raw = c :: tail ∧ isSpace c = false ∧
      step limit ⟨.beginValue, []⟩ c = .next next ∧ scanFrom limit next behind = some (tail, rest) := by
  unfold scanValue at scanned
  rcases skip_space_first input with empty | ⟨c, behind, first, visible⟩
  · simp [empty, scanFrom, Scan.complete, Mode.final] at scanned
  · rw [first] at scanned
    rcases begin_value_signal limit [] c with ⟨blank, -⟩ | failed | ⟨next, taken⟩
    · simp [blank] at visible
    · rw [scan_error (show step limit ⟨.beginValue, []⟩ c = .error from failed)] at scanned
      contradiction
    · obtain ⟨tail, same, onward⟩ :=
        scan_next_some (show step limit ⟨.beginValue, []⟩ c = .next next from taken) scanned
      exact ⟨c, tail, next, behind, same, visible, taken, onward⟩

theorem strip_limit {larger : Nat} (wider : limit ≤ larger) {st : Scan}
    (scanned : scanFrom limit st input = some (raw, rest)) : strip larger st raw = strip limit st raw := by
  induction input generalizing st raw with
  | nil =>
    simp only [scanFrom, Option.ite_none_right_eq_some, Option.some.injEq, Prod.mk.injEq] at scanned
    rw [← scanned.2.1]
    rfl
  | cons c input ih =>
    have fits : step limit st c ≠ .error := by
      intro failed
      simp [scanFrom, failed] at scanned
    have same := step_limit wider st c fits
    simp only [scanFrom] at scanned
    split at scanned
    · contradiction
    · cases scanned
      rfl
    · rename_i closed
      cases scanned
      simp [strip, same, closed]
    · rename_i skipped
      obtain ⟨found, onward, pair⟩ := Option.map_eq_some_iff.mp scanned
      cases pair
      simp [strip, same, skipped, ih onward]
    · rename_i taken
      obtain ⟨found, onward, pair⟩ := Option.map_eq_some_iff.mp scanned
      cases pair
      simp [strip, same, taken, ih onward]

theorem strip_literal (limit : Nat) (literal : Literal raw) : strip limit ⟨.inString, []⟩ raw = raw := by
  induction literal with
  | close => rfl
  | plain c tail unquoted unescaped printable _ ih =>
    simp only [strip, step_plain limit [] unquoted unescaped printable, ih]
  | short c tail known _ ih =>
    have opened : step limit ⟨.inString, []⟩ backslash = .next ⟨.inStringEsc, []⟩ := rfl
    simp only [strip, opened, step_short limit [] known, ih]
  | unicode a b c d tail first second third fourth _ ih =>
    have opened : step limit ⟨.inString, []⟩ backslash = .next ⟨.inStringEsc, []⟩ := rfl
    have marked : step limit ⟨.inStringEsc, []⟩ 0x75 = .next ⟨.inStringEscU 4, []⟩ := rfl
    simp only [strip, opened, marked, step_hex limit [] first 2, step_hex limit [] second 1,
      step_hex limit [] third 0, step_last_hex limit [] fourth, ih]

theorem head_ordinary {next : Scan} (taken : step limit ⟨.beginValue, []⟩ c = .next next) : isSpecial c = false := by
  by_cases special : isSpecial c
  · have inside := @special_inside limit ⟨.beginValue, []⟩ c special (by simp [taken]) (by simp [taken])
    simp at inside
  · simpa using special

theorem compact_head {tail : Bytes} {next : Scan} (taken : step maxNestingDepth ⟨.beginValue, []⟩ c = .next next) :
    compact (c :: tail) = c :: escapeHTML 0 (strip maxNestingDepth next tail) := by
  unfold compact
  simp only [strip, taken]
  exact escape_ordinary (head_ordinary taken) _

section
variable (within : limit ≤ maxNestingDepth) (scanned : scanValue limit input = some (raw, rest))
include within scanned

theorem compact_solid : Solid limit (compact raw) := by
  intro sep tail separator
  obtain ⟨c, behind, next, more, rfl, visible, taken, -⟩ := value_head scanned
  have wide : step maxNestingDepth ⟨.beginValue, []⟩ c = .next next := by
    rw [step_limit within _ _ (by simp [taken]), taken]
  have stripped := strip_scan (Or.inl rfl) scanned sep tail separator
  have escaped := escape_scan 0 (Or.inl rfl) stripped
  rw [← strip_limit within scanned] at escaped
  have first : compact (c :: behind) = _ := compact_head wide
  unfold scanValue
  rw [first, List.cons_append, skip_space_head visible, ← List.cons_append, ← first]
  exact escaped

theorem compact_literal : literalString (compact raw) = literalString raw := by
  obtain ⟨c, behind, next, more, rfl, visible, taken, onward⟩ := value_head scanned
  have wide : step maxNestingDepth ⟨.beginValue, []⟩ c = .next next := by
    rw [step_limit within _ _ (by simp [taken]), taken]
  unfold literalString
  rw [compact_head wide]
  by_cases text : c = quote
  · subst text
    have inside : next = ⟨.inString, []⟩ := by
      have known : step limit ⟨.beginValue, []⟩ quote = .next ⟨.inString, []⟩ := rfl
      exact (Signal.next.inj (known.symm.trans taken)).symm
    subst inside
    have literal := scan_literal onward
    rw [strip_literal maxNestingDepth literal]
    simp only [List.head?_cons, if_true, unquote, literal_unquote literal 0 (Or.inl (Nat.zero_le _))]
  · simp [text]

end

theorem quote_scan (limit : Nat) (text : String) (rest : Bytes) :
    scanValue limit (quoteString text ++ rest) = some (quoteString text, rest) := by
  have literal := (quoted_literal text).1
  have opened : step limit ⟨.beginValue, []⟩ quote = .next ⟨.inString, []⟩ := rfl
  unfold scanValue quoteString
  rw [List.cons_append, skip_space_head rfl, scan_next opened, literal_scan limit literal]
  rfl

theorem quote_solid (limit : Nat) (text : String) : Solid limit (quoteString text) :=
  fun sep tail _ => quote_scan limit text (sep :: tail)

theorem quote_literal (text : String) : literalString (quoteString text) = text :=
  (quoted_literal text).2

theorem write_member (name : String) {value : Bytes} (solid : Solid limit value)
    (sep : UInt8) (tail : Bytes) (separator : isSeparator sep) :
    member limit (quoteString name ++ colon :: (value ++ sep :: tail)) = some ((name, value), sep :: tail) := by
  have colons : expect colon (colon :: (value ++ sep :: tail)) = some (value ++ sep :: tail) := rfl
  have head : (quoteString name).head? = some quote := rfl
  have read : unquote (quoteString name) = name := (quoted_literal name).2
  simp [member, quote_scan limit name, head, colons, solid sep tail separator, read, guard]

theorem write_members {limit fuel : Nat} (fields : Fields) (nonempty : fields ≠ [])
    (solid : ∀ field ∈ fields, Solid limit field.2) (enough : fields.length ≤ fuel) :
    members limit fuel (writeFields fields) = some (fields, []) := by
  induction fields generalizing fuel with
  | nil => contradiction
  | cons field rest ih =>
    obtain ⟨name, value⟩ := field
    have first := solid (name, value) List.mem_cons_self
    match fuel, enough with
    | fuel + 1, enough =>
      cases rest with
      | nil =>
        have read := write_member name first closeBrace [] rfl
        have apart : closeBrace ≠ comma := by decide
        simp [writeFields, members, read, apart, skip_space_head (show isSpace closeBrace = false from rfl)]
      | cons other rest =>
        have read := write_member name first comma (writeFields (other :: rest)) rfl
        have onward := ih (List.cons_ne_nil _ _) (fun field known => solid field (List.mem_cons_of_mem _ known))
          (Nat.le_of_succ_le_succ enough)
        simp [writeFields, members, read, onward, skip_space_head (show isSpace comma = false from rfl)]

theorem write_length (fields : Fields) : fields.length ≤ (writeFields fields).length := by
  induction fields with
  | nil => exact Nat.zero_le _
  | cons field rest ih =>
    cases rest with
    | nil =>
      simp only [writeFields, List.length_append, List.length_cons]
      omega
    | cons =>
      simp only [writeFields, List.length_append, List.length_cons] at ih ⊢
      omega

-- What is written with solid members is read back member by member.
theorem read_object (fields : Fields) (solid : ∀ field ∈ fields, Solid (maxNestingDepth - 1) field.2) :
    unmarshalObject (writeObject fields) = some fields := by
  have opened : expect openBrace (writeObject fields) = some (writeFields fields) := rfl
  cases fields with
  | nil => rfl
  | cons field rest =>
    have unclosed : expect closeBrace (writeFields (field :: rest)) = none := by
      cases rest <;> rfl
    have read := @write_members _ (writeObject (field :: rest)).length (field :: rest) (List.cons_ne_nil _ _) solid
      (Nat.le_trans (write_length (field :: rest)) (Nat.le_succ _))
    simp [unmarshalObject, opened, unclosed, read, skipSpace]

theorem member_scans (read : member limit input = some (field, rest)) :
    ∃ key behind after, scanValue limit input = some (key, behind) ∧ key.head? = some quote ∧
      expect colon behind = some after ∧ scanValue limit after = some (field.2, rest) ∧ unquote key = field.1 := by
  simp only [member, bind, Option.bind_eq_some_iff, Option.guard_eq_some', Option.some.injEq] at read
  obtain ⟨⟨key, behind⟩, first, -, quoted, after, colons, ⟨value, rest⟩, second, pair⟩ := read
  cases pair
  exact ⟨key, behind, after, first, quoted, colons, second, rfl⟩

theorem member_limit {larger : Nat} (wider : limit ≤ larger) (read : member limit input = some (field, rest)) :
    member larger input = some (field, rest) := by
  obtain ⟨key, behind, after, first, quoted, colons, second, name⟩ := member_scans read
  simp [member, value_limit wider _ _ _ first, quoted, colons, value_limit wider _ _ _ second, name, guard]

theorem members_cases (read : members limit (fuel + 1) input = some (fields, rest)) :
    ∃ field behind, member limit input = some (field, behind) ∧ ((∃ after more, expect comma behind = some after ∧
          members limit fuel after = some (more, rest) ∧ fields = field :: more) ∨
        expect comma behind = none ∧ fields = [field]) := by
  simp only [members, bind, Option.bind_eq_some_iff] at read
  obtain ⟨⟨field, behind⟩, first, onward⟩ := read
  refine ⟨field, behind, first, ?_⟩
  unfold expect
  dsimp only at onward
  split at onward
  · rename_i c after next
    by_cases more : c = comma
    · rw [if_pos more] at onward ⊢
      obtain ⟨⟨others, last⟩, tail, pair⟩ := Option.bind_eq_some_iff.mp onward
      cases pair
      exact Or.inl ⟨after, others, rfl, tail, rfl⟩
    · rw [if_neg more] at onward ⊢
      split at onward
      · cases onward
        exact Or.inr ⟨rfl, rfl⟩
      · contradiction
  · contradiction

theorem text_field_cons (field : String × Bytes) (rest : Fields) (name : String) : textField (field :: rest) name =
      if field.1 = name then literalString field.2 else textField rest name := by
  obtain ⟨key, value⟩ := field
  unfold textField
  by_cases same : key = name
  · subst same
    simp
  · have other : (name == key) = false := by simpa using Ne.symm same
    simp [List.lookup_cons, other, same]

theorem peek_members (read : members (maxNestingDepth - 1) fuel input = some (fields, rest)) :
    peekMembers name fuel input = textField fields name := by
  induction fuel generalizing input fields with
  | zero => simp [members] at read
  | succ fuel ih =>
    obtain ⟨field, behind, first, onward⟩ := members_cases read
    simp only [peekMembers, member_limit (Nat.sub_le _ _) first]
    rcases onward with ⟨after, more, commas, tail, rfl⟩ | ⟨ended, rfl⟩
    · simp only [text_field_cons, commas, ih tail]
    · simp only [text_field_cons, ended]
      rfl

theorem expect_head (found : expect c input = some rest) : skipSpace input = c :: rest := by
  unfold expect at found
  split at found
  · rename_i first
    obtain ⟨same, taken⟩ := Option.ite_none_right_eq_some.mp found
    cases taken
    rw [first, same]
  · contradiction

theorem member_closed (closed : expect closeBrace input = some rest) : member limit input = none := by
  have failed : scanValue limit input = none := by
    unfold scanValue
    rw [expect_head closed]
    have refused : step limit ⟨.beginValue, []⟩ closeBrace = .error := rfl
    exact scan_error refused rest
  simp [member, failed]

/-- What a decoded text is made of. -/
theorem object_cases (read : unmarshalObject data = some fields) : ∃ behind, expect openBrace data = some behind ∧
      ((∃ rest, expect closeBrace behind = some rest ∧ fields = []) ∨
        ∃ rest, members (maxNestingDepth - 1) data.length behind = some (fields, rest)) := by
  unfold unmarshalObject at read
  obtain ⟨behind, opened, inner⟩ := Option.bind_eq_some_iff.mp read
  refine ⟨behind, opened, ?_⟩
  cases closed : expect closeBrace behind with
  | some rest =>
    simp only [closed, bind, Option.bind_some, Option.ite_none_right_eq_some] at inner
    exact Or.inl ⟨rest, rfl, (Option.some.inj inner.2).symm⟩
  | none =>
    simp only [closed] at inner
    obtain ⟨⟨found, rest⟩, listed, ended⟩ := Option.bind_eq_some_iff.mp inner
    obtain ⟨-, same⟩ := Option.ite_none_right_eq_some.mp ended
    cases same
    exact Or.inr ⟨rest, listed⟩

-- On every text that decodes, peeking a member is reading the first one of that name.
theorem peek_object (read : unmarshalObject data = some fields)
    (name : String) : peekStringField data name = textField fields name := by
  obtain ⟨behind, opened, inner⟩ := object_cases read
  simp only [peekStringField, opened]
  rcases inner with ⟨rest, closed, rfl⟩ | ⟨rest, listed⟩
  · cases data with
    | nil => rfl
    | cons => simp [peekMembers, member_closed closed, textField]
  · exact peek_members listed

theorem members_values (read : members limit fuel input = some (fields, rest)) :
    ∀ field ∈ fields, ∃ behind after, scanValue limit behind = some (field.2, after) := by
  induction fuel generalizing input fields with
  | zero => simp [members] at read
  | succ fuel ih =>
    obtain ⟨field, behind, first, onward⟩ := members_cases read
    obtain ⟨key, -, after, -, -, -, scanned, -⟩ := member_scans first
    rcases onward with ⟨next, more, -, tail, rfl⟩ | ⟨-, rfl⟩
    · intro other known
      rcases List.mem_cons.mp known with rfl | known
      · exact ⟨after, behind, scanned⟩
      · exact ih tail other known
    · intro other known
      cases List.mem_singleton.mp known
      exact ⟨after, behind, scanned⟩

theorem object_values (read : unmarshalObject data = some fields) : ∀ field ∈ fields, ∃ behind after,
      scanValue (maxNestingDepth - 1) behind = some (field.2, after) := by
  obtain ⟨behind, opened, ⟨rest, closed, rfl⟩ | ⟨rest, listed⟩⟩ := object_cases read
  · intro field known
    cases known
  · exact members_values listed

theorem object_mem (known : field ∈ objectOf fields) : field ∈ fields := by
  induction fields with
  | nil => exact known
  | cons first rest ih =>
    unfold objectOf at known
    split at known
    · exact List.mem_cons_of_mem first (ih known)
    · rcases List.mem_cons.mp known with rfl | known
      · exact List.mem_cons_self
      · exact List.mem_cons_of_mem first (ih known)

theorem object_distinct (fields : Fields) : Distinct (objectOf fields) := by
  induction fields with
  | nil => exact List.Pairwise.nil
  | cons first rest ih =>
    unfold objectOf
    split
    · exact ih
    · rename_i single
      refine List.Pairwise.cons (fun other known same => single ?_) ih
      exact List.any_eq_true.mpr ⟨other, object_mem known, by simp [same]⟩

theorem distinct_object (distinct : Distinct fields) : objectOf fields = fields := by
  induction distinct with
  | nil => rfl
  | @cons first rest apart _ ih =>
    have single : ¬ (rest.any fun other => other.1 = first.1) := by
      intro repeated
      obtain ⟨other, known, same⟩ := List.any_eq_true.mp repeated
      exact apart other known (of_decide_eq_true same).symm
    rw [objectOf, if_neg single, ih]

theorem insert_mem {other : String × Bytes} : other ∈ insertField field fields ↔ other = field ∨ other ∈ fields := by
  induction fields with
  | nil => simp [insertField]
  | cons first rest ih =>
    unfold insertField
    split
    · rw [List.mem_cons, ih, List.mem_cons]
      exact or_left_comm
    · exact List.mem_cons

theorem sort_mem {other : String × Bytes} : other ∈ sortFields fields ↔ other ∈ fields := by
  induction fields with
  | nil => exact Iff.rfl
  | cons field rest ih =>
    rw [List.mem_cons, ← ih]
    exact insert_mem

theorem insert_distinct (distinct : Distinct (field :: fields)) : Distinct (insertField field fields) := by
  induction fields with
  | nil => exact distinct
  | cons first rest ih =>
    unfold insertField
    split
    · obtain ⟨apart, behind⟩ := List.pairwise_cons.mp distinct
      obtain ⟨others, inner⟩ := List.pairwise_cons.mp behind
      have onward := ih (List.pairwise_cons.mpr
        ⟨fun other known => apart other (List.mem_cons_of_mem first known), inner⟩)
      refine List.pairwise_cons.mpr ⟨fun other known => ?_, onward⟩
      rcases insert_mem.mp known with rfl | known
      · exact (apart first List.mem_cons_self).symm
      · exact others other known
    · exact distinct

theorem sort_distinct (distinct : Distinct fields) : Distinct (sortFields fields) := by
  induction distinct with
  | nil => exact List.Pairwise.nil
  | @cons field rest apart _ ih =>
    exact insert_distinct (List.pairwise_cons.mpr ⟨fun other known => apart other (sort_mem.mp known), ih⟩)

theorem insert_text (field : String × Bytes) (fields : Fields) (name : String) :
    textField (insertField field fields) name = textField (field :: fields) name := by
  induction fields with
  | nil => rfl
  | cons first rest ih =>
    unfold insertField
    split
    · rename_i before
      rw [text_field_cons, ih]
      simp only [text_field_cons]
      by_cases same : field.1 = name
      · have other : first.1 ≠ name := fun clash => String.lt_irrefl _ (by rwa [clash, same] at before)
        rw [if_neg other, if_pos same, if_pos same]
      · rw [if_neg same, if_neg same]
    · rfl

theorem sort_text (fields : Fields) (name : String) : textField (sortFields fields) name = textField fields name := by
  induction fields with
  | nil => rfl
  | cons field rest ih =>
    rw [show sortFields (field :: rest) = insertField field (sortFields rest) from rfl, insert_text,
      text_field_cons, ih, text_field_cons]

theorem filter_text {keep : String × Bytes → Bool} (kept : ∀ field ∈ fields, field.1 = name → keep field) :
    textField (fields.filter keep) name = textField fields name := by
  induction fields with
  | nil => rfl
  | cons field rest ih =>
    have onward := ih fun other known => kept other (List.mem_cons_of_mem field known)
    by_cases stays : keep field
    · rw [List.filter_cons_of_pos stays, text_field_cons, onward, text_field_cons]
    · have other : field.1 ≠ name := fun same => stays (kept field List.mem_cons_self same)
      rw [List.filter_cons_of_neg stays, text_field_cons, onward, if_neg other]

theorem delete_text (object : Fields) {removed : String} (different : removed ≠ name) :
    textField (deleteField object removed) name = textField object name := by
  refine filter_text fun field _ same => ?_
  rw [same]
  simpa using different.symm

theorem set_text (object : Fields) (value : Bytes) {changed : String} (different : changed ≠ name) :
    textField (setField object changed value) name = textField object name := by
  rw [setField, text_field_cons, if_neg different]
  exact delete_text object different

theorem delete_formed (formed : WellFormed object) (name : String) : WellFormed (deleteField object name) where
  distinct := formed.distinct.filter _
  scanned := fun field known => formed.scanned field (List.mem_filter.mp known).1

theorem set_formed (formed : WellFormed object) (name text : String) :
    WellFormed (setField object name (quoteString text)) where
  distinct := by
    refine List.pairwise_cons.mpr ⟨fun other known => ?_, formed.distinct.filter _⟩
    have different := (List.mem_filter.mp known).2
    simpa using Ne.symm (of_decide_eq_true different)
  scanned := by
    intro field known
    rcases List.mem_cons.mp known with rfl | known
    · exact ⟨quoteString text ++ [], [], quote_scan _ text []⟩
    · exact formed.scanned field (List.mem_filter.mp known).1

theorem object_formed (read : unmarshalObject data = some fields) : WellFormed (objectOf fields) where
  distinct := object_distinct fields
  scanned := fun field known => object_values read field (object_mem known)

theorem compact_text (scanned : ∀ field ∈ fields, ∃ behind after,
      scanValue (maxNestingDepth - 1) behind = some (field.2, after)) (name : String) :
    textField (fields.map fun field => (field.1, compact field.2)) name = textField fields name := by
  induction fields with
  | nil => rfl
  | cons field rest ih =>
    obtain ⟨behind, after, value⟩ := scanned field List.mem_cons_self
    have onward := ih fun other known => scanned other (List.mem_cons_of_mem field known)
    rw [List.map_cons, text_field_cons, onward, text_field_cons, compact_literal (Nat.sub_le _ _) value]

/-- A marshalled map reads back as the map, in the order of its names. -/
theorem marshal_read (formed : WellFormed object) : unmarshalObject (marshalObject object) =
      some ((sortFields object).map fun field => (field.1, compact field.2)) := by
  refine read_object _ fun field known => ?_
  obtain ⟨source, listed, rfl⟩ := List.mem_map.mp known
  obtain ⟨behind, after, value⟩ := formed.scanned source (sort_mem.mp listed)
  exact compact_solid (Nat.sub_le _ _) value

theorem marshal_field (formed : WellFormed object) (name : String) :
    frameField (marshalObject object) name = textField object name := by
  have distinct : Distinct ((sortFields object).map fun field => (field.1, compact field.2)) :=
    List.pairwise_map.mpr (sort_distinct formed.distinct)
  unfold frameField
  rw [marshal_read formed, Option.map_some, Option.getD_some, distinct_object distinct,
    compact_text (fun field known => formed.scanned field (sort_mem.mp known)), sort_text]

end PieRelay.JsonObjects
