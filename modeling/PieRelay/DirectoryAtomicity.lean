import PieRelay.DirectoryStore
import PieRelay.Executions

/-!
Which calls on the record files are atomic: a call that fails leaves the record as it was, and one that works leaves what
`Load` reads. A record that has been renamed or removed is not put back when the directory cannot be synced after it; and
a record that `Load` cannot decode is written all the same.
-/
namespace PieRelay.DirectoryAtomicity
open DirectoryStore List Option
open Executions
open JsonNumbers (int64 writeInt)
open JsonObjects (Solid writeObject)
open JsonRecords (compacted nests)
open JsonScanner (Bytes)
open OperationStore (validRecordPart)

def found (disk : Disk) (kind id : String) : Option (Option Record) :=
  (load disk).map fun records => records.find? fun r => r.kind = kind ∧ r.id = id

structure Atomic (disk : Disk) (call : Call) : Prop where
  fails : ∀ failure, (perform disk call).2 = some failure →
    readRecordVersion (perform disk call).1 call.kind call.id =
      readRecordVersion disk call.kind call.id ∧
    ∀ kind id, found (perform disk call).1 kind id = found disk kind id
  works : (perform disk call).2 = none → ∀ kind id, found (perform disk call).1 kind id =
    if kind = call.kind ∧ id = call.id then some call.stored else found disk kind id

def Commits (disk : Disk) : Call → Prop
  | .put record expectedVersion faults =>
    (faults.failing = none ∨ faults.failing = some .syncDir) ∧ validRecordPart record.kind ∧
      validRecordPart record.id ∧ record.version = nextVersion expectedVersion ∧ record.data ≠ [] ∧
      readRecordVersion disk record.kind record.id = some expectedVersion ∧ (compacted record.data).isSome ∧
      (directory disk record.kind).lookup (tempName faults.random) = none
  | .delete kind id expectedVersion faults =>
    faults.failing ≠ some .context ∧ faults.failing ≠ some .read ∧ faults.failing ≠ some .commit ∧
      validRecordPart kind ∧ validRecordPart id ∧ 1 ≤ expectedVersion ∧
      readRecordVersion disk kind id = some expectedVersion

def Fits : Call → Prop
  | .put record expectedVersion _ => nests (written record).data ∧ expectedVersion < 9223372036854775807
  | .delete _ _ _ _ => True

def Decodable (disk : Disk) (call : Call) : Prop := Commits disk call → Fits call

def Careful (disk : Disk) (call : Call) : Prop :=
  Commits disk call → call.faults.failing ≠ some .syncDir ∧ Fits call

section Codec
variable {r : Record} {text : Bytes}

theorem compacted_again {data : Bytes} (known : compacted data = some text) : compacted text = some text := by
  obtain ⟨other, again, same⟩ := JsonRecords.compacted_same known
  cases known.symm.trans same
  exact again

theorem head_solid (r : Record) : ∀ field ∈ [("kind", JsonStrings.quoteString r.kind), ("id", JsonStrings.quoteString r.id),
    ("version", writeInt r.version)], Solid (JsonScanner.maxNestingDepth - 1) field.2 := by
  simp only [forall_mem_cons, not_mem_nil, false_implies, implies_true, and_true]
  exact ⟨JsonObjects.quote_solid _ _, JsonObjects.quote_solid _ _, JsonNumbers.int_solid _ _⟩

theorem fields_solid (known : compacted r.data = some text) (inside : nests text) :
    ∀ field ∈ fieldsOf r text, Solid (JsonScanner.maxNestingDepth - 1) field.2 := by
  intro field member
  rcases mem_append.mp (show field ∈ [("kind", JsonStrings.quoteString r.kind), ("id", JsonStrings.quoteString r.id),
    ("version", writeInt r.version)] ++ [("data", text)] from member) with head | last
  · exact head_solid r field head
  · rw [mem_singleton.mp last]
    exact JsonRecords.compacted_solid (compacted_again known) inside

theorem read_quoted (text : String) :
    JournalFile.readText (JsonStrings.quoteString text) JsonStrings.unquote = some text ∧
      JsonStrings.quoteString text ≠ JsonRecords.nullWord := by
  have head : (JsonStrings.quoteString text).head? = some JsonScanner.quote := rfl
  have read : JsonStrings.unquote (JsonStrings.quoteString text) = text := (JsonStrings.quoted_literal _).2
  refine ⟨?_, JournalFile.quoted_not_null⟩
  rw [JournalFile.readText, if_pos head, read]

theorem assign_kind (kind : String) : assign r ("kind", JsonStrings.quoteString kind) = some { r with kind } := by
  have other : JournalFile.isField "kind" "data" = false := by decide
  have mine : JournalFile.isField "kind" "kind" = true := by decide
  obtain ⟨read, apart⟩ := read_quoted kind
  simp only [assign, other, mine, read, if_neg apart, Bool.false_eq_true, if_false, if_true, map_some]

theorem assign_id (id : String) : assign r ("id", JsonStrings.quoteString id) = some { r with id } := by
  have others : JournalFile.isField "id" "data" = false ∧ JournalFile.isField "id" "kind" = false := by decide
  have mine : JournalFile.isField "id" "id" = true := by decide
  obtain ⟨read, apart⟩ := read_quoted id
  simp only [assign, others, mine, read, if_neg apart, Bool.false_eq_true, if_false, if_true, map_some]

theorem assign_version {n : Int} (fits : int64 n) : assign r ("version", writeInt n) = some { r with version := n } := by
  have others : JournalFile.isField "version" "data" = false ∧ JournalFile.isField "version" "kind" = false ∧
      JournalFile.isField "version" "id" = false := by decide
  have mine : JournalFile.isField "version" "version" = true := by decide
  simp only [assign, others, mine, JsonNumbers.read_write_int n fits, if_neg (JournalFile.int_not_null n), Bool.false_eq_true, if_false,
    if_true, map_some]

theorem assign_data : assign r ("data", text) = some { r with data := text } := by
  have mine : JournalFile.isField "data" "data" = true := by decide
  simp only [assign, mine, if_true]

theorem unmarshal_written (known : compacted r.data = some text) (inside : nests text) (fits : int64 r.version) :
    unmarshal (writeObject (fieldsOf r text)) = some { r with data := text } := by
  rw [unmarshal, JsonRecords.unmarshal_written _ (fields_solid known inside), bind_some]
  simp only [fieldsOf, foldlM_cons, foldlM_nil, assign_kind, assign_id, assign_version fits, assign_data, bind,
    bind_some, pure]

theorem unmarshal_deep (known : compacted r.data = some text) (deep : nests text = false) :
    unmarshal (writeObject (fieldsOf r text)) = none := by
  have stuck := @JsonRecords.record_stuck _ (head_solid r) "data" text
    (fun _ tail separates => JsonRecords.deep_stuck known deep separates tail) [] []
  rw [append_nil] at stuck
  have unread : JsonRecords.readRecord (writeObject (fieldsOf r text)) = none := stuck
  rw [unmarshal, JsonRecords.unmarshalRecord, unread]
  rfl

end Codec

section Files
variable {disk : Disk} {kind name : String}

theorem made_directory (other : String) : directory (disk.insert kind (directory disk kind)) other = directory disk other := by
  by_cases same : other = kind
  · rw [directory, same, AList.lookup_insert]
    rfl
  · rw [directory, AList.lookup_insert_ne same, directory]

theorem write_lookup (content : Bytes) (other file : String) : (directory (writeFile disk kind name content) other).lookup file =
    if other = kind ∧ file = name then some content else (directory disk other).lookup file := by
  by_cases same : other = kind
  · subst same
    rw [writeFile, directory, AList.lookup_insert, getD_some]
    by_cases mine : file = name
    · rw [mine, AList.lookup_insert, if_pos ⟨rfl, rfl⟩]
    · rw [AList.lookup_insert_ne mine, if_neg fun both => mine both.2]
  · rw [writeFile, directory, AList.lookup_insert_ne same, if_neg fun both => same both.1, directory]

theorem remove_lookup (other file : String) : (directory (removeFile disk kind name) other).lookup file =
    if other = kind ∧ file = name then none else (directory disk other).lookup file := by
  by_cases same : other = kind
  · subst same
    rw [removeFile, directory, AList.lookup_insert, getD_some]
    by_cases mine : file = name
    · rw [mine, AList.lookup_erase, if_pos ⟨rfl, rfl⟩]
    · rw [AList.lookup_erase_ne mine, if_neg fun both => mine both.2]
  · rw [removeFile, directory, AList.lookup_insert_ne same, if_neg fun both => same both.1, directory]

theorem file_list (id : String) : (fileName id).toList = id.toList ++ suffix.toList := String.toList_append

theorem file_record (id : String) : isRecordFile (fileName id) := by
  rw [isRecordFile, file_list, isSuffixOf_iff_suffix]
  exact suffix_append _ _

theorem file_injective {id other : String} (same : fileName id = fileName other) : id = other := by
  have lists := congrArg String.toList same
  rw [file_list, file_list] at lists
  exact String.toList_inj.mp (append_cancel_right lists)

theorem record_file (record : isRecordFile name) : ∃ id, name = fileName id := by
  obtain ⟨id, whole⟩ := isSuffixOf_iff_suffix.mp record
  refine ⟨String.ofList id, String.toList_inj.mp ?_⟩
  rw [file_list, String.toList_ofList, whole]

theorem temp_other (random : Random) (id : String) : fileName id ≠ tempName random := by
  intro same
  have record := file_record id
  rw [same, isRecordFile, isSuffixOf_iff_suffix] at record
  obtain ⟨before, whole⟩ := record
  have ends := congrArg getLast? whole
  have letters : (tempName random).toList = ".control-".toList ++ random.text.toList := String.toList_append
  have last : suffix.toList.getLast? = some 'n' := by decide
  rw [letters, getLast?_append, getLast?_append, last, some_or] at ends
  cases digits : random.text.toList.getLast? with
  | none =>
    rw [digits] at ends
    exact absurd ends (by decide)
  | some =>
    rw [digits, some_or] at ends
    cases ends
    have digit := all_eq_true.mp random.digits 'n' (mem_of_getLast? digits)
    exact absurd digit (by decide)

theorem content_write (content : Bytes) (id other i : String) :
    contentOf (writeFile disk kind (fileName id) content) other i =
      if other = kind ∧ i = id then some content else contentOf disk other i := by
  rw [contentOf, write_lookup]
  by_cases mine : other = kind ∧ i = id
  · rw [if_pos mine, if_pos ⟨mine.1, congrArg fileName mine.2⟩]
  · rw [if_neg mine, if_neg fun both => mine ⟨both.1, file_injective both.2⟩, contentOf]

theorem content_remove (id other i : String) : contentOf (removeFile disk kind (fileName id)) other i =
    if other = kind ∧ i = id then none else contentOf disk other i := by
  rw [contentOf, remove_lookup]
  by_cases mine : other = kind ∧ i = id
  · rw [if_pos mine, if_pos ⟨mine.1, congrArg fileName mine.2⟩]
  · rw [if_neg mine, if_neg fun both => mine ⟨both.1, file_injective both.2⟩, contentOf]

theorem content_made (other i : String) : contentOf (disk.insert kind (directory disk kind)) other i = contentOf disk other i := by
  rw [contentOf, made_directory, contentOf]

theorem content_cleanup (faults : Faults) (content : Bytes) (other i : String) :
    contentOf (cleanup disk kind faults content) other i = contentOf disk other i := by
  have apart : ¬ (other = kind ∧ fileName i = tempName faults.random) := fun both => temp_other faults.random i both.2
  unfold cleanup
  split
  · rw [contentOf, remove_lookup, if_neg apart, contentOf]
  · rw [contentOf, write_lookup, if_neg apart, contentOf]

end Files

def Readable (disk : Disk) : Prop := ∀ kind id content, validRecordPart kind → contentOf disk kind id = some content →
  ∃ r, unmarshal content = some r ∧ r.kind = kind ∧ r.id = id ∧ r.id ≠ "" ∧ 1 ≤ r.version ∧ r.version < 9223372036854775808

section Loading
variable {disk : Disk} {kind id : String} {content : Bytes}

theorem mem_files : (kind, content) ∈ recordFiles disk ↔ validRecordPart kind ∧ ∃ id, contentOf disk kind id = some content := by
  unfold recordFiles
  rw [mem_flatMap]
  constructor
  · rintro ⟨⟨other, dir⟩, member, inside⟩
    have there : disk.lookup other = some dir := AList.mem_lookup_iff.mpr member
    split at inside
    · next valid =>
      obtain ⟨⟨name, bytes⟩, known, same⟩ := mem_map.mp inside
      obtain ⟨known, record⟩ := mem_filter.mp known
      cases same
      obtain ⟨id, rfl⟩ := record_file record
      refine ⟨valid, id, ?_⟩
      rw [contentOf, directory, there]
      exact AList.mem_lookup_iff.mpr known
    · cases inside
  · rintro ⟨valid, id, there⟩
    cases dir : disk.lookup kind with
    | none =>
      rw [contentOf, directory, dir] at there
      cases there
    | some dir' =>
      rw [contentOf, directory, dir] at there
      refine ⟨⟨kind, dir'⟩, AList.mem_lookup_iff.mp dir, ?_⟩
      rw [if_pos valid]
      refine mem_map.mpr ⟨⟨fileName id, content⟩, mem_filter.mpr ⟨AList.mem_lookup_iff.mp there, ?_⟩, rfl⟩
      exact file_record id

theorem decode_all {files : List (String × Bytes)} (each : ∀ file ∈ files, ∃ r, decodeFile file = some r) :
    ∃ records, files.mapM decodeFile = some records ∧ ∀ r, r ∈ records ↔ ∃ file ∈ files, decodeFile file = some r := by
  induction files with
  | nil => exact ⟨[], rfl, fun r => by simp⟩
  | cons file files ih =>
    obtain ⟨first, decoded⟩ := each file mem_cons_self
    obtain ⟨rest, onward, members⟩ := ih fun other member => each other (mem_cons_of_mem file member)
    refine ⟨first :: rest, ?_, fun r => ?_⟩
    · rw [mapM_cons, decoded, onward]
      rfl
    · rw [mem_cons, members]
      constructor
      · rintro (rfl | ⟨other, member, read⟩)
        · exact ⟨file, mem_cons_self, decoded⟩
        · exact ⟨other, mem_cons_of_mem file member, read⟩
      · rintro ⟨other, member, read⟩
        rcases mem_cons.mp member with rfl | later
        · cases decoded.symm.trans read
          exact .inl rfl
        · exact .inr ⟨other, later, read⟩

theorem decode_none {files : List (String × Bytes)} {file : String × Bytes} (member : file ∈ files)
    (undecoded : decodeFile file = none) : files.mapM decodeFile = none := by
  induction files with
  | nil => cases member
  | cons first files ih =>
    rw [mapM_cons]
    rcases mem_cons.mp member with rfl | later
    · rw [undecoded]
      rfl
    · rw [ih later]
      cases decodeFile first <;> rfl

theorem load_none (valid : validRecordPart kind) (there : contentOf disk kind id = some content)
    (undecoded : decodeFile (kind, content) = none) : load disk = none := by
  rw [load, decode_none (mem_files.mpr ⟨valid, id, there⟩) undecoded]
  rfl

theorem readable_decodes (readable : Readable disk) (valid : validRecordPart kind)
    (there : contentOf disk kind id = some content) : ∃ r, unmarshal content = some r ∧ decodeFile (kind, content) = some r ∧
      r.kind = kind ∧ r.id = id := by
  obtain ⟨r, decoded, same, same', some_, positive, _⟩ := readable kind id content valid there
  refine ⟨r, decoded, ?_, same, same'⟩
  rw [decodeFile, decoded]
  exact if_pos (decide_eq_true ⟨same, some_, positive⟩)

theorem find_only {records : List Record} {p : Record → Bool} {r : Record} (member : r ∈ records) (holds : p r)
    (only : ∀ other ∈ records, p other → other = r) : records.find? p = some r := by
  cases result : records.find? p with
  | none => exact absurd holds (find?_eq_none.mp result r member)
  | some other => rw [only other (mem_of_find?_eq_some result) (find?_some result)]

/-- Where all files can be decoded, what is loaded are their records. -/
theorem found_spec (readable : Readable disk) (kind id : String) : found disk kind id =
    some (if validRecordPart kind then (contentOf disk kind id).bind unmarshal else none) := by
  have each : ∀ file ∈ recordFiles disk, ∃ r, decodeFile file = some r := by
    rintro ⟨kind, content⟩ member
    obtain ⟨valid, id, there⟩ := mem_files.mp member
    obtain ⟨r, _, decoded, _⟩ := readable_decodes readable valid there
    exact ⟨r, decoded⟩
  obtain ⟨records, decoded, members⟩ := decode_all each
  have known : ∀ r, r ∈ records.insertionSort sortedBefore ↔
      validRecordPart r.kind ∧ (contentOf disk r.kind r.id).bind unmarshal = some r := by
    intro r
    rw [mem_insertionSort, members]
    constructor
    · rintro ⟨⟨kind, content⟩, member, read⟩
      obtain ⟨valid, id, there⟩ := mem_files.mp member
      obtain ⟨r', whole, read', same, same'⟩ := readable_decodes readable valid there
      cases read.symm.trans read'
      subst same same'
      exact ⟨valid, by rw [there]; exact whole⟩
    · rintro ⟨valid, read⟩
      obtain ⟨content, there, whole⟩ := bind_eq_some_iff.mp read
      obtain ⟨r', whole', read', _⟩ := readable_decodes readable valid there
      cases whole.symm.trans whole'
      exact ⟨(r.kind, content), mem_files.mpr ⟨valid, r.id, there⟩, read'⟩
  have absent : (∀ r, r.kind = kind → r.id = id → ¬ (validRecordPart r.kind ∧
      (contentOf disk r.kind r.id).bind unmarshal = some r)) →
      ((records.insertionSort sortedBefore).find? fun r => r.kind = kind ∧ r.id = id) = none := by
    intro none
    refine find?_eq_none.mpr fun r member same => ?_
    obtain ⟨same, same'⟩ := of_decide_eq_true same
    exact none r same same' ((known r).mp member)
  rw [found, load, decoded, map_some, map_some]
  congr 1
  split
  · next valid =>
    cases read : (contentOf disk kind id).bind unmarshal with
    | none =>
      refine absent fun r same same' there => ?_
      rw [same, same', read] at there
      cases there.2
    | some r =>
      obtain ⟨content, there, whole⟩ := bind_eq_some_iff.mp read
      obtain ⟨r', whole', _, same, same'⟩ := readable_decodes readable valid there
      cases whole.symm.trans whole'
      refine find_only ((known r).mpr ?_) (decide_eq_true ⟨same, same'⟩) fun other member mine => ?_
      · rw [same, same']
        exact ⟨valid, read⟩
      · obtain ⟨mine, mine'⟩ := of_decide_eq_true mine
        have theirs := ((known other).mp member).2
        rw [mine, mine', read] at theirs
        exact (some.inj theirs).symm
  · next invalid => exact absent fun r same _ there => invalid (same ▸ there.1)

end Loading

section Calls
variable {disk : Disk} {call : Call}
variable {kind id : String} {expectedVersion : Int} {faults : Faults}

theorem same_content {next : Disk} (readable : Readable disk) (same : ∀ kind id, contentOf next kind id = contentOf disk kind id) :
    Readable next ∧ ∀ kind id, readRecordVersion next kind id = readRecordVersion disk kind id ∧
      found next kind id = found disk kind id := by
  have still : Readable next := by
    intro kind id content valid there
    rw [same] at there
    exact readable kind id content valid there
  refine ⟨still, fun kind id => ⟨?_, ?_⟩⟩
  · rw [readRecordVersion, same, readRecordVersion]
  · rw [found_spec still, found_spec readable, same]

theorem check_none : checkVersion disk kind id expectedVersion faults = none ↔
      faults.failing ≠ some .read ∧ readRecordVersion disk kind id = some expectedVersion := by
  unfold checkVersion
  by_cases broken : faults.failing = some .read
  · simp [broken]
  · cases version : readRecordVersion disk kind id with
    | none => simp [broken]
    | some current => by_cases same : current = expectedVersion <;> simp [broken, same]

/-- A call that does not come to change the record fails, and leaves all records alone. -/
theorem put_refused {record : Record} (refused : ¬ Commits disk (.put record expectedVersion faults)) :
    (∃ failure, (put disk record expectedVersion faults).2 = some failure) ∧
      ∀ kind id, contentOf (put disk record expectedVersion faults).1 kind id = contentOf disk kind id := by
  unfold put
  split
  · exact ⟨⟨_, rfl⟩, fun _ _ => rfl⟩
  · next ready =>
    split
    · exact ⟨⟨_, rfl⟩, fun _ _ => rfl⟩
    · next valid =>
      cases checked : checkVersion disk record.kind record.id expectedVersion faults with
      | some => exact ⟨⟨_, rfl⟩, fun _ _ => rfl⟩
      | none =>
        cases marshalled : marshal record with
        | none => exact ⟨⟨_, rfl⟩, fun _ _ => rfl⟩
        | some =>
          dsimp only
          split
          · exact ⟨⟨_, rfl⟩, fun _ _ => rfl⟩
          · next made =>
            split
            · exact ⟨⟨_, rfl⟩, fun kind id => content_made kind id⟩
            · next fresh =>
              have cleaned (content : Bytes) (kind id : String) :
                  contentOf (cleanup (disk.insert record.kind (directory disk record.kind)) record.kind faults content)
                    kind id = contentOf disk kind id :=
                (content_cleanup faults content kind id).trans (content_made kind id)
              have others : ¬ (faults.failing = none ∨ faults.failing = some .syncDir) := by
                intro reaches
                simp only [not_or, Bool.not_eq_true', Bool.not_eq_false, Classical.not_not] at valid
                obtain ⟨kind, id, version, some_⟩ := valid
                obtain ⟨_, current⟩ := check_none.mp checked
                obtain ⟨text, compact, _⟩ := map_eq_some_iff.mp marshalled
                simp only [not_or, Bool.not_eq_true, isSome_eq_false_iff, isNone_iff_eq_none] at fresh
                exact refused ⟨reaches, kind, id, version, some_, current, by rw [compact]; rfl, fresh.2⟩
              cases failing : faults.failing with
              | none => exact absurd (.inl failing) others
              | some failed =>
                cases failed with
                | chmod => exact ⟨⟨_, rfl⟩, cleaned []⟩
                | write | sync | close | commit => exact ⟨⟨_, rfl⟩, cleaned _⟩
                | syncDir => exact absurd (.inr failing) others
                | context => exact absurd failing ready
                | read => exact absurd failing (check_none.mp checked).1
                | mkdirAll => exact absurd failing made
                | createTemp => exact absurd (.inl failing) fresh

theorem delete_refused (refused : ¬ Commits disk (.delete kind id expectedVersion faults)) :
    (∃ failure, (delete disk kind id expectedVersion faults).2 = some failure) ∧
      ∀ other i, contentOf (delete disk kind id expectedVersion faults).1 other i = contentOf disk other i := by
  unfold delete
  split
  · exact ⟨⟨_, rfl⟩, fun _ _ => rfl⟩
  · next ready =>
    split
    · exact ⟨⟨_, rfl⟩, fun _ _ => rfl⟩
    · next valid =>
      cases checked : checkVersion disk kind id expectedVersion faults with
      | some => exact ⟨⟨_, rfl⟩, fun _ _ => rfl⟩
      | none =>
        obtain ⟨readable, current⟩ := check_none.mp checked
        have stopped : faults.failing = some .commit := by
          by_contra goes
          simp only [not_or, Bool.not_eq_true', Bool.not_eq_false, Int.not_lt] at valid
          exact refused ⟨ready, readable, goes, valid.1, valid.2.1, valid.2.2, current⟩
        dsimp only
        rw [stopped]
        exact ⟨⟨_, rfl⟩, fun _ _ => rfl⟩

theorem call_refused (refused : ¬ Commits disk call) : (∃ failure, (perform disk call).2 = some failure) ∧
    ∀ kind id, contentOf (perform disk call).1 kind id = contentOf disk kind id := by
  cases call with
  | put => exact put_refused refused
  | delete => exact delete_refused refused

/-- A call that comes to change the record does, and then fails exactly where the directory cannot be synced. -/
theorem put_commits {record : Record} (commits : Commits disk (.put record expectedVersion faults)) :
    ((put disk record expectedVersion faults).2 = none ↔ faults.failing ≠ some .syncDir) ∧
      ∀ kind id, contentOf (put disk record expectedVersion faults).1 kind id =
        if kind = record.kind ∧ id = record.id then some (writeObject (fieldsOf record (written record).data))
        else contentOf disk kind id := by
  obtain ⟨reaches, kind, id, version, some_, current, compact, fresh⟩ := commits
  obtain ⟨text, compact⟩ := isSome_iff_exists.mp compact
  have marshalled : marshal record = some (writeObject (fieldsOf record (written record).data)) := by
    rw [marshal, written, compact]
    rfl
  have plain : ∀ step, step ≠ .syncDir → faults.failing ≠ some step := by
    rintro step other same
    rcases reaches with none | sync
    · cases none.symm.trans same
    · cases sync.symm.trans same
      exact other rfl
  have checked : checkVersion disk record.kind record.id expectedVersion faults = none :=
    check_none.mpr ⟨plain .read (by decide), current⟩
  have valid : ¬ ((!validRecordPart record.kind) ∨ (!validRecordPart record.id) ∨
      record.version ≠ nextVersion expectedVersion ∨ record.data = []) := by
    rintro (bad | bad | bad | bad)
    · rw [kind] at bad
      cases bad
    · rw [id] at bad
      cases bad
    · exact bad version
    · exact some_ bad
  have temp : ¬ (faults.failing = some .createTemp ∨
      ((directory disk record.kind).lookup (tempName faults.random)).isSome) := by
    rintro (bad | bad)
    · exact plain .createTemp (by decide) bad
    · rw [fresh] at bad
      cases bad
  have wrote (kind id : String) : contentOf (writeFile (disk.insert record.kind (directory disk record.kind)) record.kind
      (fileName record.id) (writeObject (fieldsOf record (written record).data))) kind id =
      if kind = record.kind ∧ id = record.id then some (writeObject (fieldsOf record (written record).data))
      else contentOf disk kind id := by
    rw [content_write, content_made]
  rw [put, if_neg (plain .context (by decide)), if_neg valid, checked]
  dsimp only
  rw [marshalled]
  dsimp only
  rw [if_neg (plain .mkdirAll (by decide)), if_neg temp]
  rcases reaches with none | sync
  · rw [none]
    exact ⟨iff_of_true rfl (by decide), wrote⟩
  · rw [sync]
    exact ⟨iff_of_false nofun fun absurd => absurd rfl, wrote⟩

theorem delete_commits (commits : Commits disk (.delete kind id expectedVersion faults)) :
    ((delete disk kind id expectedVersion faults).2 = none ↔ faults.failing ≠ some .syncDir) ∧
      ∀ other i, contentOf (delete disk kind id expectedVersion faults).1 other i =
        if other = kind ∧ i = id then none else contentOf disk other i := by
  obtain ⟨ready, readable, goes, valid, valid', positive, current⟩ := commits
  have checked : checkVersion disk kind id expectedVersion faults = none := check_none.mpr ⟨readable, current⟩
  have fine : ¬ ((!validRecordPart kind) ∨ (!validRecordPart id) ∨ expectedVersion < 1) := by
    rintro (bad | bad | bad)
    · rw [valid] at bad
      cases bad
    · rw [valid'] at bad
      cases bad
    · omega
  rw [delete, if_neg ready, if_neg fine, checked]
  dsimp only
  cases failing : faults.failing with
  | none => exact ⟨iff_of_true rfl (by decide), content_remove id⟩
  | some step =>
    cases step with
    | commit => exact absurd failing goes
    | syncDir => exact ⟨iff_of_false nofun fun absurd => absurd rfl, content_remove id⟩
    | _ => exact ⟨iff_of_true rfl (by decide), content_remove id⟩

end Calls

section Atomicity
variable {disk : Disk} {call : Call}

theorem call_commits (commits : Commits disk call) :
    ((perform disk call).2 = none ↔ call.faults.failing ≠ some .syncDir) ∧
      ∀ kind id, contentOf (perform disk call).1 kind id =
        if kind = call.kind ∧ id = call.id then call.content else contentOf disk kind id := by
  cases call with
  | put => exact put_commits commits
  | delete => exact delete_commits commits

theorem commits_valid (commits : Commits disk call) : validRecordPart call.kind ∧ validRecordPart call.id := by
  cases call with
  | put => exact ⟨commits.2.1, commits.2.2.1⟩
  | delete => exact ⟨commits.2.2.2.1, commits.2.2.2.2.1⟩

theorem version_bounds (readable : Readable disk) {kind id : String} (valid : validRecordPart kind) {version : Int}
    (current : readRecordVersion disk kind id = some version) : 0 ≤ version ∧ version < 9223372036854775808 := by
  unfold readRecordVersion at current
  split at current
  · cases current
    decide
  · next content there =>
    obtain ⟨r, decoded, _, _, _, positive, small⟩ := readable kind id content valid there
    rw [decoded] at current
    cases current
    exact ⟨by omega, small⟩

theorem next_version {version : Int} (bounds : 0 ≤ version ∧ version < 9223372036854775808) :
    int64 (nextVersion version) ∧ nextVersion version ≠ version ∧
      (version < 9223372036854775807 ↔ 1 ≤ nextVersion version) := by
  obtain ⟨least, most⟩ := bounds
  unfold nextVersion int64
  rw [Int.bmod_def]
  split <;> omega

theorem written_compact {record : Record} (compact : (compacted record.data).isSome) :
    compacted record.data = some (written record).data := by
  obtain ⟨text, compact⟩ := isSome_iff_exists.mp compact
  rw [written, compact]
  rfl

/-- A record that fits is read as it is written; another is not decoded. -/
theorem content_read (readable : Readable disk) (commits : Commits disk call) :
    (Fits call → call.content.bind unmarshal = call.stored ∧
      ∀ r, call.stored = some r → r.kind = call.kind ∧ r.id = call.id ∧ r.id ≠ "" ∧ 1 ≤ r.version ∧
        r.version < 9223372036854775808) ∧
    (¬ Fits call → ∃ content, call.content = some content ∧ decodeFile (call.kind, content) = none) := by
  cases call with
  | delete =>
    refine ⟨fun _ => ⟨rfl, fun r absurd => (by cases absurd)⟩, fun unfit => absurd trivial unfit⟩
  | put record =>
    obtain ⟨_, kind, id, version, _, current, compact, _⟩ := commits
    have known := written_compact compact
    obtain ⟨fits, _, positive⟩ := next_version (version_bounds readable kind current)
    rw [← version] at fits positive
    constructor
    · rintro ⟨inside, small⟩
      refine ⟨unmarshal_written known inside fits, ?_⟩
      rintro r ⟨⟩
      exact ⟨rfl, rfl, (of_decide_eq_true id).1, positive.mp small, fits.2⟩
    · intro unfit
      refine ⟨_, rfl, ?_⟩
      cases inside : nests (written record).data with
      | false =>
        rw [decodeFile, unmarshal_deep known inside]
        rfl
      | true =>
        have large : ¬ 1 ≤ record.version := fun least => unfit ⟨inside, positive.mpr least⟩
        rw [decodeFile, unmarshal_written known inside fits]
        exact if_neg fun all => large (of_decide_eq_true all).2.2

/-- The version changes with the record. -/
theorem version_changes (readable : Readable disk) (commits : Commits disk call) :
    readRecordVersion (perform disk call).1 call.kind call.id ≠ readRecordVersion disk call.kind call.id := by
  have after := (call_commits commits).2 call.kind call.id
  rw [if_pos ⟨rfl, rfl⟩] at after
  rw [readRecordVersion, after]
  cases call with
  | delete kind id =>
    obtain ⟨_, _, _, _, _, positive, current⟩ := commits
    show some 0 ≠ readRecordVersion disk kind id
    rw [current]
    rintro ⟨⟩
    omega
  | put record =>
    obtain ⟨_, kind, id, version, _, current, compact, _⟩ := commits
    have known := written_compact compact
    obtain ⟨fits, other, _⟩ := next_version (version_bounds readable kind current)
    rw [← version] at fits other
    show (unmarshal (writeObject (fieldsOf record (written record).data))).map Record.version ≠
      readRecordVersion disk record.kind record.id
    rw [current]
    cases inside : nests (written record).data with
    | false =>
      rw [unmarshal_deep known inside]
      rintro ⟨⟩
    | true =>
      rw [unmarshal_written known inside fits]
      exact fun same => other (some.inj same)

theorem call_readable (readable : Readable disk) (decodable : Decodable disk call) : Readable (perform disk call).1 := by
  by_cases commits : Commits disk call
  · obtain ⟨read, stored⟩ := (content_read readable commits).1 (decodable commits)
    have after := (call_commits commits).2
    intro kind id content valid there
    rw [after] at there
    split at there
    · next mine =>
      rw [there] at read
      obtain ⟨r, decoded⟩ : ∃ r, call.stored = some r := by
        cases call with
        | put => exact ⟨_, rfl⟩
        | delete => cases there
      obtain ⟨same, same', rest⟩ := stored r decoded
      exact ⟨r, read.trans decoded, same.trans mine.1.symm, same'.trans mine.2.symm, rest⟩
    · exact readable kind id content valid there
  · exact (same_content readable (call_refused commits).2).1

/-- In a store that can be read, a call is atomic exactly where it is refused in time, or all that follows works. -/
theorem atomic_careful (readable : Readable disk) (call : Call) : Atomic disk call ↔ Careful disk call := by
  by_cases commits : Commits disk call
  · obtain ⟨result, after⟩ := call_commits commits
    obtain ⟨fit, unfit⟩ := content_read readable commits
    obtain ⟨valid, valid'⟩ := commits_valid commits
    constructor
    · intro atomic _
      have synced : call.faults.failing ≠ some .syncDir := by
        intro broken
        cases outcome : (perform disk call).2 with
        | none => exact result.mp outcome broken
        | some failure => exact version_changes readable commits (atomic.fails failure outcome).1
      refine ⟨synced, ?_⟩
      by_contra large
      obtain ⟨content, there, undecoded⟩ := unfit large
      have kept := atomic.works (result.mpr synced) call.kind call.id
      have mine : contentOf (perform disk call).1 call.kind call.id = some content := by
        rw [after, if_pos ⟨rfl, rfl⟩, there]
      rw [found, load_none valid mine undecoded, if_pos ⟨rfl, rfl⟩] at kept
      cases kept
    · intro careful
      obtain ⟨synced, fits⟩ := careful commits
      have works := result.mpr synced
      have still := call_readable readable fun _ => fits
      refine ⟨fun failure failed => ?_, fun _ kind id => ?_⟩
      · cases works.symm.trans failed
      · rw [found_spec still, found_spec readable, after]
        by_cases mine : kind = call.kind ∧ id = call.id
        · rw [if_pos mine, if_pos mine, mine.1, if_pos valid, (fit fits).1]
        · rw [if_neg mine, if_neg mine]
  · obtain ⟨⟨failure, failed⟩, same⟩ := call_refused commits
    refine iff_of_true ⟨fun _ _ => ?_, fun works => ?_⟩ fun reaches => absurd reaches commits
    · have kept := (same_content readable same).2
      exact ⟨(kept _ _).1, fun kind id => (kept kind id).2⟩
    · cases failed.symm.trans works

theorem empty_readable : Readable ∅ := by
  intro kind id content _ there
  cases there

theorem step_readable (disk : Disk) (call : Call) (next : Disk) (decodable : Decodable disk call) (readable : Readable disk)
    (stepped : step disk call = some next) : Readable next := by
  cases stepped
  exact call_readable readable decodable

/-- A run of calls is atomic throughout exactly where each of them is careful; and in every store that has only been given
    records which fit, so is the next call. -/
theorem directory_atomic {calls : List Call} (ran : run step ∅ calls = some disk) :
    (Guarded step Atomic ∅ calls ↔ Guarded step Careful ∅ calls) ∧
      (Guarded step Decodable ∅ calls → ∀ call, Atomic disk call ↔ Careful disk call) := by
  constructor
  · refine (guarded_same Readable (fun disk call next careful => ?_) (fun disk call readable => ?_) empty_readable).symm
    · exact step_readable disk call next fun commits => (careful commits).2
    · exact (atomic_careful readable call).symm
  · intro decodable call
    exact atomic_careful (guarded_run_invariant Readable step_readable decodable ran empty_readable) call

end Atomicity

def works : Faults := ⟨none, ⟨"1", by decide⟩, 0, true⟩

def user (version : Int) : Record := ⟨"user", "ada", version, JournalFile.bytes "\x7b\"name\": \"Ada\"\x7d"⟩

def changes : List DirectoryStore.Call :=
  [.put (user 1) 0 works, .put (user 2) 1 { works with failing := some .write, written := 3, removes := false },
    .put (user 2) 1 { works with random := ⟨"2", by decide⟩ }, .delete "user" "ada" 2 works]

theorem changes_atomic : ∃ disk, run step ∅ changes = some disk ∧ readRecordVersion disk "user" "ada" = some 0 ∧
    (Guarded step Atomic ∅ changes ↔ Guarded step Careful ∅ changes) ∧
      (Guarded step Decodable ∅ changes → ∀ call, Atomic disk call ↔ Careful disk call) := by
  obtain ⟨disk, ran, version⟩ := map_eq_some_iff.mp
    (show (run step ∅ changes).map (fun disk => readRecordVersion disk "user" "ada") = some (some 0) from by decide +kernel)
  exact ⟨disk, ran, version, directory_atomic ran⟩

def unsynced : DirectoryStore.Call := .put (user 2) 1 { works with failing := some .syncDir }

theorem unsynced_changes : ∃ disk, run step ∅ [.put (user 1) 0 works] = some disk ∧
    (perform disk unsynced).2 = some .disk ∧ readRecordVersion disk "user" "ada" = some 1 ∧
    readRecordVersion (perform disk unsynced).1 "user" "ada" = some 2 ∧
    (perform (perform disk unsynced).1 (.put (user 2) 1 works)).2 = some .conflict := by
  obtain ⟨disk, ran, facts⟩ := map_eq_some_iff.mp
    (show (run step ∅ [.put (user 1) 0 works]).map (fun disk => ((perform disk unsynced).2, readRecordVersion disk "user" "ada",
      readRecordVersion (perform disk unsynced).1 "user" "ada",
      (perform (perform disk unsynced).1 (.put (user 2) 1 works)).2)) = some (some .disk, some 1, some 2, some .conflict) from by
      decide +kernel)
  simp only [Prod.mk.injEq] at facts
  obtain ⟨failed, before, after, refused⟩ := facts
  exact ⟨disk, ran, failed, before, after, refused⟩

end PieRelay.DirectoryAtomicity
