import Mathlib.Data.Finset.Basic
import Mathlib.Logic.Function.Basic
import PieRelay.OperationStore

/-!
Previews of the control plane: `Preview` of model.go, `NormalizePreviewAppPath` of
project.go, and of preview.go what a put asks of a preview by itself, and the three
secondary indexes. That the source drops an empty set from an index makes no difference to
a lookup.
-/
namespace PieRelay.PreviewRecords
open Function
open RoomRegistry (Time)

/-- A status as it reads once trimmed; `unknown` is any text that `validPreviewStatus` refuses. -/
inductive PreviewStatus where
  | starting
  | ready
  | stopping
  | stopped
  | failed
  | unknown (text : String)
  deriving DecidableEq

structure Preview where
  id : String
  integrationID : String
  integrationUserID : String
  ownerUserID : String
  projectID : String
  appPath : String
  hostname : String
  backendHost : String
  port : Int
  profile : String
  visibility : String
  accessVersion : Int
  status : PreviewStatus
  lastError : String
  startAttempts : Int
  nextRetryAt : Option Time
  lastReadyAt : Option Time
  expiresAt : Option Time
  createdAt : Time
  updatedAt : Time
  version : Nat
  deriving DecidableEq

def activePreview (value : Preview) : Bool := value.status ≠ .stopped ∧ value.status ≠ .failed

/-! The texts of a preview. `unicode.IsSpace` and `unicode.IsControl` are as the Unicode
tables of Go have them. Of `strings.ToLower` what matters here is which characters it makes
ASCII letters, for a host name with any other letter is refused. -/

def isSpace (c : Char) : Bool :=
  c ∈ [' ', '\t', '\n', '\r', Char.ofNat 0x0b, Char.ofNat 0x0c, Char.ofNat 0x85, Char.ofNat 0xa0,
    Char.ofNat 0x1680, Char.ofNat 0x2028, Char.ofNat 0x2029, Char.ofNat 0x202f, Char.ofNat 0x205f,
    Char.ofNat 0x3000] ∨ (0x2000 ≤ c.toNat ∧ c.toNat ≤ 0x200a)

def isControl (c : Char) : Bool := c.toNat ≤ 0x1f ∨ (0x7f ≤ c.toNat ∧ c.toNat ≤ 0x9f)

def trimSpace (text : String) : String :=
  String.ofList ((text.toList.dropWhile isSpace).reverse.dropWhile isSpace).reverse

def lower (c : Char) : Char :=
  if c.toNat = 0x130 then 'i' else if c.toNat = 0x212a then 'k' else c.toLower

def toLower (text : String) : String := String.ofList (text.toList.map lower)

def cleanParts : List (List Char) → List (List Char) → List (List Char)
  | done, [] => done
  | done, part :: rest =>
    if part = [] ∨ part = ['.'] then cleanParts done rest
    else if part = ['.', '.'] then
      match done with
      | [] => cleanParts [part] rest
      | last :: kept => if last = ['.', '.'] then cleanParts (part :: done) rest else cleanParts kept rest
    else cleanParts (part :: done) rest

theorem clean_parts {parts : List (List Char)} (kept : ∀ part ∈ parts, part ≠ [] ∧ part ≠ ['.'] ∧ part ≠ ['.', '.'])
    (done : List (List Char)) : cleanParts done parts = parts.reverse ++ done := by
  induction parts generalizing done with
  | nil => rfl
  | cons part rest ih =>
    obtain ⟨some, dot, dots⟩ := kept part List.mem_cons_self
    have later := ih (fun other member => kept other (List.mem_cons_of_mem part member)) (part :: done)
    rw [cleanParts.eq_def]
    simp only [some, dot, dots, or_self, if_false, later]
    simp

def splitOn (separator : Char) : List Char → List (List Char)
  | [] => [[]]
  | c :: rest =>
    match splitOn separator rest with
    | [] => [[c]]
    | head :: tail => if c = separator then [] :: head :: tail else (c :: head) :: tail

/-- `NormalizePreviewAppPath`: the project-relative path, or `none` for one that is refused. The
    parts of a cleaned path are not empty and not a dot. -/
def normalizePreviewAppPath (value : String) : Option String :=
  let value := trimSpace value
  if value = "" ∨ value = "." then some "."
  else if 512 < value.utf8ByteSize ∨ '\\' ∈ value.toList ∨ value.toList.head? = some '/' then none
  else
    let parts := (cleanParts [] (splitOn '/' value.toList)).reverse
    if parts = [] ∨ parts.head? = some ['.', '.'] then none
    else if parts.all fun part => (String.ofList part).utf8ByteSize ≤ 255 ∧ part.all fun c => ¬ isControl c then
      some ("/".intercalate (parts.map String.ofList))
    else none

def hostCharacter (c : Char) : Bool := ('a' ≤ c ∧ c ≤ 'z') ∨ ('0' ≤ c ∧ c ≤ '9') ∨ c = '-'

def validLabel (label : List Char) : Bool :=
  label ≠ [] ∧ label.length ≤ 63 ∧ label.head? ≠ some '-' ∧ label.getLast? ≠ some '-' ∧
    label.all hostCharacter

def validPreviewHostname (value : String) : Bool :=
  4 ≤ value.utf8ByteSize ∧ value.utf8ByteSize ≤ 253 ∧ 3 ≤ (splitOn '.' value.toList).length ∧
    (splitOn '.' value.toList).all validLabel

def validPreviewBackend (value : String) : Bool := validLabel value.toList

def validPreviewProfile (value : String) : Bool :=
  value = "auto" ∨ value = "next" ∨ value = "vite" ∨ value = "npm"

def validPreviewVisibility (value : String) : Bool := value = "private" ∨ value = "public"

def validPreviewStatus : PreviewStatus → Bool
  | .unknown _ => false
  | _ => true

def trimmed (value : Preview) : Preview :=
  { value with
    appPath := (normalizePreviewAppPath value.appPath).getD ""
    hostname := toLower (trimSpace value.hostname)
    backendHost := toLower (trimSpace value.backendHost)
    profile := trimSpace value.profile
    visibility := trimSpace value.visibility }

def validPreview (value : Preview) : Bool :=
  value.appPath ≠ "" ∧ OperationStore.validRecordPart value.id ∧
    OperationStore.validRecordPart value.integrationID ∧
    OperationStore.validRecordPart value.integrationUserID ∧
    OperationStore.validRecordPart value.ownerUserID ∧
    OperationStore.validRecordPart value.projectID ∧ validPreviewHostname value.hostname ∧
    validPreviewBackend value.backendHost ∧ 1024 ≤ value.port ∧ value.port ≤ 65535 ∧
    validPreviewProfile value.profile ∧ validPreviewVisibility value.visibility ∧
    0 ≤ value.accessVersion ∧ validPreviewStatus value.status ∧
    value.lastError.utf8ByteSize ≤ 2000 ∧ 0 ≤ value.startAttempts ∧ value.startAttempts ≤ 32

def samePreview (before value : Preview) : Bool :=
  before.integrationID = value.integrationID ∧ before.integrationUserID = value.integrationUserID ∧
    before.ownerUserID = value.ownerUserID ∧ before.projectID = value.projectID ∧
    (normalizePreviewAppPath before.appPath).getD "" = value.appPath ∧
    before.hostname = value.hostname ∧ before.port = value.port ∧ before.profile = value.profile ∧
    value.accessVersion =
      if before.visibility ≠ value.visibility then before.accessVersion + 1 else before.accessVersion

/-! The indexes: the preview of a host name, and the previews of a user and of a project. -/

structure PreviewIndex where
  hosts : String → Option String
  users : String → Finset String
  projects : String → Finset String

def emptyIndex : PreviewIndex := ⟨fun _ => none, fun _ => ∅, fun _ => ∅⟩

def indexPreviewLocked (index : PreviewIndex) (value : Preview) : PreviewIndex where
  hosts := update index.hosts value.hostname (some value.id)
  users := update index.users value.integrationUserID
    (insert value.id (index.users value.integrationUserID))
  projects := update index.projects value.projectID
    (insert value.id (index.projects value.projectID))

def unindexPreviewLocked (index : PreviewIndex) (value : Preview) : PreviewIndex where
  hosts := if index.hosts value.hostname = some value.id then update index.hosts value.hostname none
    else index.hosts
  users := update index.users value.integrationUserID
    ((index.users value.integrationUserID).erase value.id)
  projects := update index.projects value.projectID
    ((index.projects value.projectID).erase value.id)

def Lists (sets : String → Finset String) (field : Preview → String)
    (previews : String → Option Preview) : Prop :=
  ∀ key id, id ∈ sets key ↔ ∃ value, previews id = some value ∧ field value = key

def Leads (hosts : String → Option String) (previews : String → Option Preview) : Prop :=
  ∀ hostname id, hosts hostname = some id →
    ∃ value, previews id = some value ∧ value.hostname = hostname

def Reaches (hosts : String → Option String) (previews : String → Option Preview) : Prop :=
  ∀ id value, previews id = some value → hosts value.hostname = some id

structure Indexed (index : PreviewIndex) (previews : String → Option Preview) : Prop where
  users : Lists index.users Preview.integrationUserID previews
  projects : Lists index.projects Preview.projectID previews
  hosts : Leads index.hosts previews

/-- A preview can be put, or taken out, in the place of another: they are filed alike, or the host
    name of the other one leads elsewhere. -/
def Home (index : PreviewIndex) (previous value : Preview) : Prop :=
  previous.integrationUserID = value.integrationUserID ∧ previous.projectID = value.projectID ∧
    (previous.hostname = value.hostname ∨ index.hosts previous.hostname ≠ some value.id)

instance (index : PreviewIndex) (previous value : Preview) : Decidable (Home index previous value) :=
  inferInstanceAs (Decidable (_ ∧ _))

section Lists
variable {sets : String → Finset String} {field : Preview → String}
  {previews : String → Option Preview}

section
variable (lists : Lists sets field previews) (value : Preview)
include lists value

theorem lists_set (present : Bool) (set : Finset String) (own : value.id ∈ set ↔ present)
    (others : ∀ id, id ≠ value.id → (id ∈ set ↔ id ∈ sets (field value)))
    (kept : ∀ previous, previews value.id = some previous → field previous = field value) :
    Lists (update sets (field value) set) field (update previews value.id (if present then some value else none)) := by
  intro key id
  by_cases here : id = value.id
  · subst here
    by_cases same : key = field value
    · subst same
      rw [update_self, own]
      cases present <;> simp
    · have before : value.id ∉ sets key := by
        intro listed
        obtain ⟨previous, stored, named⟩ := (lists key value.id).mp listed
        exact same (named ▸ kept previous stored)
      cases present <;> simp [same, before, Ne.symm same]
  · by_cases same : key = field value
    · subst same
      rw [update_self, others id here, update_of_ne here]
      exact lists (field value) id
    · rw [update_of_ne same, update_of_ne here]
      exact lists key id

section
variable (kept : ∀ previous, previews value.id = some previous → field previous = field value)
include kept

theorem lists_insert : Lists (update sets (field value) (insert value.id (sets (field value)))) field
      (update previews value.id (some value)) := by
  refine lists_set lists value true _ (by simp) ?_ kept
  intro id different
  simp [different]

theorem lists_erase :
    Lists (update sets (field value) ((sets (field value)).erase value.id)) field (update previews value.id none) := by
  refine lists_set lists value false _ (by simp) ?_ kept
  intro id different
  simp [different]

end

end

end Lists

section Indexes
variable {index : PreviewIndex} {previews : String → Option Preview}

theorem empty_indexed : Indexed emptyIndex fun _ => none := by
  refine ⟨?_, ?_, ?_⟩
  · intro key id
    simp [emptyIndex]
  · intro key id
    simp [emptyIndex]
  · intro hostname id found
    cases found

theorem index_indexed (indexed : Indexed index previews) (value : Preview)
    (home : ∀ previous, previews value.id = some previous → Home index previous value) :
    Indexed (indexPreviewLocked index value) (update previews value.id (some value)) := by
  refine ⟨lists_insert indexed.users value fun previous stored => (home previous stored).1,
    lists_insert indexed.projects value fun previous stored => (home previous stored).2.1, ?_⟩
  intro hostname id found
  by_cases own : hostname = value.hostname
  · subst own
    simp only [indexPreviewLocked, update_self, Option.some.injEq] at found
    subst found
    exact ⟨value, update_self _ _ _, rfl⟩
  · simp only [indexPreviewLocked, update_of_ne own] at found
    obtain ⟨previous, stored, rfl⟩ := indexed.hosts hostname id found
    by_cases here : id = value.id
    · subst here
      rcases (home previous stored).2.2 with same | elsewhere
      · exact absurd same own
      · exact absurd found elsewhere
    · exact ⟨previous, by rw [update_of_ne here]; exact stored, rfl⟩

theorem unindex_hosts (index : PreviewIndex) (value : Preview) (hostname : String) :
    (unindexPreviewLocked index value).hosts hostname = none ∧ hostname = value.hostname ∧
      index.hosts hostname = some value.id ∨
    (unindexPreviewLocked index value).hosts hostname = index.hosts hostname := by
  simp only [unindexPreviewLocked]
  split
  · rename_i own
    by_cases same : hostname = value.hostname
    · subst same
      exact Or.inl ⟨update_self _ _ _, rfl, own⟩
    · exact Or.inr (update_of_ne same _ _)
  · exact Or.inr rfl

theorem unindex_indexed (indexed : Indexed index previews) (value : Preview)
    (home : ∀ previous, previews value.id = some previous → Home index previous value) :
    Indexed (unindexPreviewLocked index value) (update previews value.id none) := by
  refine ⟨lists_erase indexed.users value fun previous stored => (home previous stored).1,
    lists_erase indexed.projects value fun previous stored => (home previous stored).2.1, ?_⟩
  intro hostname id found
  rcases unindex_hosts index value hostname with ⟨gone, -⟩ | kept
  · cases gone.symm.trans found
  · have old : index.hosts hostname = some id := kept.symm.trans found
    obtain ⟨previous, stored, rfl⟩ := indexed.hosts hostname id old
    by_cases here : id = value.id
    · subst here
      rcases (home previous stored).2.2 with same | elsewhere
      · rw [same] at found old
        simp [unindexPreviewLocked, old] at found
      · exact absurd old elsewhere
    · exact ⟨previous, by rw [update_of_ne here]; exact stored, rfl⟩

theorem index_reaches (reaches : Reaches index.hosts previews) (value : Preview)
    (free : index.hosts value.hostname = none ∨ index.hosts value.hostname = some value.id) :
    Reaches (indexPreviewLocked index value).hosts (update previews value.id (some value)) := by
  intro id found stored
  by_cases here : id = value.id
  · subst here
    rw [update_self] at stored
    cases stored
    exact update_self _ _ _
  · rw [update_of_ne here] at stored
    have before := reaches id found stored
    have different : found.hostname ≠ value.hostname := by
      intro same
      rw [same] at before
      rcases free with none | own
      · cases before.symm.trans none
      · exact here (Option.some.inj (before.symm.trans own))
    simp only [indexPreviewLocked, update_of_ne different]
    exact before

theorem unindex_reaches (reaches : Reaches index.hosts previews) (value : Preview) :
    Reaches (unindexPreviewLocked index value).hosts (update previews value.id none) := by
  intro id found stored
  by_cases here : id = value.id
  · rw [here, update_self] at stored
    cases stored
  · rw [update_of_ne here] at stored
    have before := reaches id found stored
    rcases unindex_hosts index value found.hostname with ⟨-, -, own⟩ | same
    · exact absurd (Option.some.inj (before.symm.trans own)) here
    · exact same.trans before

end Indexes
end PieRelay.PreviewRecords
