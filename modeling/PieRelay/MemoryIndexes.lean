import PieRelay.CachedVersions

/-!
The secondary indexes of a service's memory: the idempotency index and those of the
previews. They agree with the maps as long as a change is loaded over an operation of the
same key, a put publishes over what it has read, and no two previews have one host name.
-/
namespace PieRelay.MemoryIndexes
open Function ChangeLog PreviewRecords Replicas CachedVersions List Option

def Owned (operationID : String → String) : Record → Prop
  | .operation value => ∀ index, value.index = some index → value.id = operationID index
  | _ => True

structure Aligned (m : Memory) : Prop where
  keys : ∀ index id, m.idempotency index = some id ↔
    ∃ value, m.operation id = some value ∧ value.index = some index
  previews : Indexed m.previews m.preview
  hosts : Reaches m.previews.hosts m.preview

def hostFree (m : Memory) : Record → Bool
  | .preview value => m.previews.hosts value.hostname = none ∨
      m.previews.hosts value.hostname = some value.id
  | _ => true

def sameIndex (m : Memory) : Record → Bool
  | .operation value => (m.operation value.id).all fun previous => previous.index = value.index
  | _ => true

/-- A change that a refresh may load: it is newer than what the map holds, or the map has it. -/
def loadable (m : Memory) (record : Record) : Bool :=
  m.records record.key = some record.normal ∨
    recordVersionLocked m record.key < record.version ∧ hostFree m record ∧ sameIndex m record

/-- Every change of the batch that is above the cursor may be loaded when it is come to. -/
def appliable (r : Replica) : List Change → Bool
  | [] => true
  | change :: rest =>
    (change.row.sequence ≤ r.cursor ∨ change.record.all (loadable r.memory)) ∧
      appliable (applyChange r change) rest

def indexed (key : Key) : Bool := key.kind = .operation ∨ key.kind = .preview

def hostnames (rows : List Record) : List String :=
  rows.filterMap fun record => record.preview?.map Preview.hostname

section Views
variable {m after : Memory}

theorem operation_update {key : Key} {value : Option Record}
    (records : after.records = update m.records key value) (id : String) :
    after.operation id = if key = ⟨.operation, id⟩ then value.bind Record.operation? else m.operation id := by
  unfold Memory.operation
  rw [records]
  by_cases same : key = ⟨.operation, id⟩
  · rw [if_pos same, same, update_self]
  · rw [if_neg same, update_of_ne (Ne.symm same)]

theorem preview_update {key : Key} {value : Option Record}
    (records : after.records = update m.records key value) (id : String) :
    after.preview id = if key = ⟨.preview, id⟩ then value.bind Record.preview? else m.preview id := by
  unfold Memory.preview
  rw [records]
  by_cases same : key = ⟨.preview, id⟩
  · rw [if_pos same, same, update_self]
  · rw [if_neg same, update_of_ne (Ne.symm same)]

theorem aligned_same (aligned : Aligned m) (operations : after.operation = m.operation)
    (idempotency : after.idempotency = m.idempotency) (previews : after.preview = m.preview)
    (index : after.previews = m.previews) : Aligned after := by
  refine ⟨?_, ?_, ?_⟩
  · rw [operations, idempotency]
    exact aligned.keys
  · rw [previews, index]
    exact aligned.previews
  · rw [previews, index]
    exact aligned.hosts

theorem aligned_operations (aligned : Aligned m) (previews : after.preview = m.preview)
    (index : after.previews = m.previews)
    (keys : ∀ index id, after.idempotency index = some id ↔
      ∃ value, after.operation id = some value ∧ value.index = some index) : Aligned after := by
  refine ⟨keys, ?_, ?_⟩
  · rw [previews, index]
    exact aligned.previews
  · rw [previews, index]
    exact aligned.hosts

theorem aligned_previews (aligned : Aligned m) (operations : after.operation = m.operation)
    (idempotency : after.idempotency = m.idempotency) (previews : Indexed after.previews after.preview)
    (hosts : Reaches after.previews.hosts after.preview) : Aligned after := by
  refine ⟨?_, previews, hosts⟩
  rw [operations, idempotency]
  exact aligned.keys

theorem aligned_eq (left : Aligned m) (right : Aligned after) (same : m.records = after.records) : m = after := by
  have operations : m.operation = after.operation := by
    funext id
    rw [Memory.operation, Memory.operation, same]
  have previews : m.preview = after.preview := by
    funext id
    rw [Memory.preview, Memory.preview, same]
  have keys : m.idempotency = after.idempotency := by
    funext index
    refine ext fun id => ?_
    rw [left.keys, right.keys, operations]
  have users : m.previews.users = after.previews.users := by
    funext key
    ext id
    rw [left.previews.users, right.previews.users, previews]
  have projects : m.previews.projects = after.previews.projects := by
    funext key
    ext id
    rw [left.previews.projects, right.previews.projects, previews]
  have hosts : m.previews.hosts = after.previews.hosts := by
    funext hostname
    refine ext fun id => ?_
    constructor
    · intro found
      obtain ⟨value, stored, rfl⟩ := left.previews.hosts hostname id found
      exact right.hosts id value (previews ▸ stored)
    · intro found
      obtain ⟨value, stored, rfl⟩ := right.previews.hosts hostname id found
      exact left.hosts id value (previews ▸ stored)
  obtain ⟨records, idempotency, ⟨hosts, users, projects⟩⟩ := m
  obtain ⟨otherRecords, otherIdempotency, ⟨otherHosts, otherUsers, otherProjects⟩⟩ := after
  simp_all

end Views

section Operations
variable {idempotency : String → Option String} {operations : String → Option OperationRecord}
  {value : OperationRecord}
  (keys : ∀ index id, idempotency index = some id ↔
    ∃ value, operations id = some value ∧ value.index = some index)
include keys

theorem keys_entered {operationID : String → String}
    (owned : ∀ id value index, operations id = some value → value.index = some index → id = operationID index)
    (own : ∀ index, value.index = some index → value.id = operationID index)
    (same : ∀ previous, operations value.id = some previous → previous.index = value.index)
    (index id : String) : entered idempotency value index = some id ↔
      ∃ found, update operations value.id (some value) id = some found ∧ found.index = some index := by
  by_cases here : id = value.id
  · subst here
    simp only [update_self, some.injEq, exists_eq_left', entered]
    cases known : value.index with
    | some place =>
      by_cases there : index = place
      · simp [there]
      · have before : ¬ ∃ found, operations value.id = some found ∧ found.index = some index := by
          rintro ⟨found, stored, named⟩
          rw [same found stored, known] at named
          exact there (some.inj named).symm
        simp only [update_of_ne there, keys, some.injEq]
        exact iff_of_false before (Ne.symm there)
    | none =>
      simp only [keys]
      refine iff_of_false ?_ (by simp)
      rintro ⟨found, stored, named⟩
      rw [same found stored, known] at named
      cases named
  · rw [update_of_ne here, ← keys]
    simp only [entered]
    cases known : value.index with
    | some place =>
      by_cases there : index = place
      · subst there
        simp only [update_self]
        refine iff_of_false (fun named => here (some.inj named).symm) ?_
        intro found
        obtain ⟨other, stored, named⟩ := (keys index id).mp found
        exact here ((owned id other index stored named).trans (own index known).symm)
      · simp only [update_of_ne there]
    | none => exact Iff.rfl

theorem keys_kept {previous : OperationRecord} (stored : operations value.id = some previous)
    (same : previous.index = value.index) (index id : String) : idempotency index = some id ↔
      ∃ found, update operations value.id (some value) id = some found ∧ found.index = some index := by
  rw [keys]
  by_cases here : id = value.id
  · subst here
    simp [stored, same]
  · rw [update_of_ne here]

theorem keys_dropped (held : ∀ previous, operations value.id = some previous → previous = value)
    {operationID : String → String}
    (owned : ∀ id value index, operations id = some value → value.index = some index → id = operationID index)
    (own : ∀ index, value.index = some index → value.id = operationID index) (index id : String) :
    value.index.elim idempotency (fun index => update idempotency index none) index = some id ↔
      ∃ found, update operations value.id none id = some found ∧ found.index = some index := by
  by_cases here : id = value.id
  · subst here
    simp only [update_self, reduceCtorEq, false_and, exists_false, iff_false]
    intro found
    cases known : value.index with
    | none =>
      rw [known, elim_none] at found
      obtain ⟨previous, stored, named⟩ := (keys index value.id).mp found
      rw [held previous stored, known] at named
      cases named
    | some place =>
      rw [known, elim_some] at found
      by_cases there : index = place
      · rw [there, update_self] at found
        cases found
      · rw [update_of_ne there] at found
        obtain ⟨previous, stored, named⟩ := (keys index value.id).mp found
        rw [held previous stored, known] at named
        exact there (some.inj named).symm
  · rw [update_of_ne here, ← keys]
    cases known : value.index with
    | none => rfl
    | some place =>
      rw [elim_some]
      by_cases there : index = place
      · subst there
        rw [update_self]
        refine iff_of_false (fun none => nomatch none) ?_
        intro found
        obtain ⟨other, stored, named⟩ := (keys index id).mp found
        exact here ((owned id other index stored named).trans (own index known).symm)
      · rw [update_of_ne there]

end Operations

section Memories
variable {operationID : String → String} {m : Memory}
variable {id : String} {record : Record}

theorem memory_owned (filed : MemoryFiled (Owned operationID) m) :
    ∀ id value index, m.operation id = some value → value.index = some index → id = operationID index := by
  intro id value index found named
  obtain ⟨record, stored, shape⟩ := bind_eq_some_iff.mp found
  obtain ⟨key, owned⟩ := filed _ record stored
  cases record with
  | operation =>
    cases shape
    cases key
    exact owned index named
  | plain | integration | preview => cases shape

theorem memory_preview_id {holds : Record → Prop} (filed : MemoryFiled holds m) {value : Preview}
    (found : m.preview id = some value) : value.id = id := by
  obtain ⟨record, stored, shape⟩ := bind_eq_some_iff.mp found
  obtain ⟨key, -⟩ := filed _ record stored
  cases record with
  | preview =>
    cases shape
    cases key
    rfl
  | plain | integration | operation => cases shape

theorem views_plain (after : Memory) {key : Key} {value : Option Record}
    (records : after.records = update m.records key value)
    (operation : key.kind ≠ .operation) (preview : key.kind ≠ .preview) :
    after.operation = m.operation ∧ after.preview = m.preview := by
  constructor
  · funext id
    rw [operation_update records, if_neg]
    rintro rfl
    exact operation rfl
  · funext id
    rw [preview_update records, if_neg]
    rintro rfl
    exact preview rfl

theorem views_operation (after : Memory) (value : Option OperationRecord)
    (records : after.records = update m.records ⟨.operation, id⟩ (value.map .operation)) :
    after.operation = update m.operation id value ∧ after.preview = m.preview := by
  constructor
  · funext other
    rw [operation_update records]
    by_cases same : other = id
    · subst same
      cases value <;> simp [Record.operation?]
    · rw [if_neg (fun key => same (congrArg Key.id key).symm), update_of_ne same]
  · funext other
    rw [preview_update records, if_neg]
    rintro ⟨⟩

theorem views_preview (after : Memory) (value : Option Preview)
    (records : after.records = update m.records ⟨.preview, id⟩ (value.map .preview)) :
    after.operation = m.operation ∧ after.preview = update m.preview id value := by
  constructor
  · funext other
    rw [operation_update records, if_neg]
    rintro ⟨⟩
  · funext other
    rw [preview_update records]
    by_cases same : other = id
    · subst same
      cases value <;> simp [Record.preview?]
    · rw [if_neg (fun key => same (congrArg Key.id key).symm), update_of_ne same]

/-- Loading takes the preview with the same id out of the indexes first. -/
theorem load_indexed {holds : Record → Prop} (indexed : Indexed m.previews m.preview)
    (filed : MemoryFiled holds m) (value : Preview) :
    Indexed (loadRecord m (.preview value)).previews (update m.preview value.id (some value)) := by
  simp only [loadRecord]
  cases held : m.preview value.id with
  | none =>
    refine index_indexed indexed value ?_
    intro previous stored
    cases held.symm.trans stored
  | some previous =>
    have own := memory_preview_id filed held
    have without : Indexed (unindexPreviewLocked m.previews previous) (update m.preview previous.id none) := by
      refine unindex_indexed indexed previous ?_
      intro found stored
      rw [own, held] at stored
      cases stored
      exact ⟨rfl, rfl, Or.inl rfl⟩
    rw [own] at without
    have after := index_indexed without value fun found stored => by simp at stored
    rwa [update_idem] at after

section
variable (aligned : Aligned m) (filed : MemoryFiled (Owned operationID) m)
include aligned filed

theorem load_reaches (value : Preview)
    (free : m.previews.hosts value.hostname = none ∨ m.previews.hosts value.hostname = some value.id) :
    Reaches (loadRecord m (.preview value)).previews.hosts (update m.preview value.id (some value)) := by
  simp only [loadRecord]
  cases held : m.preview value.id with
  | none => exact index_reaches aligned.hosts value free
  | some previous =>
    have own := memory_preview_id filed held
    have without := unindex_reaches aligned.hosts previous
    rw [own] at without
    have reaches := index_reaches without value ?_
    · rwa [update_idem] at reaches
    · rcases unindex_hosts m.previews previous value.hostname with ⟨gone, -⟩ | kept
      · exact Or.inl gone
      · exact kept.symm ▸ free

theorem load_aligned (owned : Owned operationID record) (free : hostFree m record)
    (same : sameIndex m record) : Aligned (loadRecord m record) := by
  cases record with
  | plain kind id version text =>
    obtain ⟨operations, previews⟩ := views_plain (loadRecord m (.plain kind id version text)) rfl nofun nofun
    exact aligned_same aligned operations rfl previews rfl
  | integration value =>
    obtain ⟨operations, previews⟩ := views_plain (loadRecord m (.integration value)) rfl nofun nofun
    exact aligned_same aligned operations rfl previews rfl
  | operation value =>
    obtain ⟨operations, previews⟩ := views_operation (loadRecord m (.operation value)) (some value) rfl
    refine aligned_operations aligned previews rfl ?_
    rw [operations]
    refine keys_entered aligned.keys (memory_owned filed) owned ?_
    intro previous stored
    simpa [sameIndex, stored] using same
  | preview value =>
    obtain ⟨operations, previews⟩ := views_preview (loadRecord m (.preview value)) (some value) rfl
    simp only [hostFree, decide_eq_true_eq] at free
    refine aligned_previews aligned operations rfl ?_ ?_
    · rw [previews]
      exact load_indexed aligned.previews filed value
    · rw [previews]
      exact load_reaches aligned filed value free

theorem drop_aligned (owned : Owned operationID record) (held : indexed record.key →
      m.records record.key = none ∨ m.records record.key = some record) : Aligned (dropRecord m record) := by
  cases record with
  | plain kind id version text =>
    obtain ⟨operations, previews⟩ := views_plain (dropRecord m (.plain kind id version text)) rfl nofun nofun
    exact aligned_same aligned operations rfl previews rfl
  | integration value =>
    obtain ⟨operations, previews⟩ := views_plain (dropRecord m (.integration value)) rfl nofun nofun
    exact aligned_same aligned operations rfl previews rfl
  | operation value =>
    obtain ⟨operations, previews⟩ := views_operation (dropRecord m (.operation value)) none rfl
    have own : ∀ previous, m.operation value.id = some previous → previous = value := by
      intro previous stored
      rcases held rfl with none | some
      · simp [Memory.operation, Record.key] at none stored
        simp [none] at stored
      · simp [Memory.operation, Record.key] at some stored
        simpa [some, Record.operation?] using stored.symm
    refine aligned_operations aligned previews rfl ?_
    rw [operations]
    exact keys_dropped aligned.keys own (memory_owned filed) owned
  | preview value =>
    obtain ⟨operations, previews⟩ := views_preview (dropRecord m (.preview value)) none rfl
    have own : ∀ previous, m.preview value.id = some previous → previous = value := by
      intro previous stored
      rcases held rfl with none | some
      · simp [Memory.preview, Record.key] at none stored
        simp [none] at stored
      · simp [Memory.preview, Record.key] at some stored
        simpa [some, Record.preview?] using stored.symm
    refine aligned_previews aligned operations rfl ?_ ?_
    · rw [previews]
      refine unindex_indexed aligned.previews value ?_
      intro previous stored
      cases own previous stored
      exact ⟨rfl, rfl, Or.inl rfl⟩
    · rw [previews]
      exact unindex_reaches aligned.hosts value

theorem delete_aligned (key : Key) : Aligned (deleteRecordLocked m key) := by
  unfold deleteRecordLocked
  cases held : m.records key with
  | none => exact aligned
  | some record =>
    obtain ⟨named, owned⟩ := filed key record held
    exact drop_aligned aligned filed owned fun _ => Or.inr (named ▸ held)

end

theorem operation_key (value : OperationRecord) : (Record.operation value).key = ⟨.operation, value.id⟩ := rfl

theorem preview_key (value : Preview) : (Record.preview value).key = ⟨.preview, value.id⟩ := rfl

theorem operation_there (filed : MemoryFiled (Owned operationID) m)
    (held : m.records ⟨.operation, id⟩ ≠ none) : ∃ value, m.operation id = some value := by
  obtain ⟨record, stored⟩ := ne_none_iff_exists'.mp held
  have named := (filed _ record stored).1
  cases record with
  | operation value => exact ⟨value, by rw [Memory.operation, stored]; rfl⟩
  | plain | integration | preview => cases named

theorem publish_record_aligned (aligned : Aligned m) (filed : MemoryFiled (Owned operationID) m)
    {before : Option Record} (owned : Owned operationID record) (fits : acceptable operationID before record)
    (held : indexed record.key → m.records record.key = before ∨ m.records record.key = some record)
    (free : hostFree m record) : Aligned (publishRecord m before record) := by
  cases record with
  | plain kind id version text =>
    obtain ⟨operations, previews⟩ := views_plain (publishRecord m before (.plain kind id version text))
      rfl nofun nofun
    exact aligned_same aligned operations rfl previews rfl
  | integration value =>
    obtain ⟨operations, previews⟩ := views_plain (publishRecord m before (.integration value)) rfl nofun nofun
    exact aligned_same aligned operations rfl previews rfl
  | operation value =>
    obtain ⟨operations, previews⟩ := views_operation (publishRecord m before (.operation value)) (some value) rfl
    have same : ∀ previous, m.operation value.id = some previous → previous.index = value.index := by
      intro previous stored
      rcases held rfl with read | written
      · have looked : before.bind Record.operation? = some previous := read ▸ stored
        simp only [acceptable, looked, all_some, Bool.decide_and, Bool.and_eq_true,
          decide_eq_true_eq] at fits
        exact fits.2
      · have looked : m.operation value.id = some value := by
          rw [Memory.operation, ← operation_key value, written]
          rfl
        cases looked.symm.trans stored
        rfl
    refine aligned_operations aligned previews rfl ?_
    rw [operations]
    by_cases new : before = none
    · simp only [publishRecord, if_pos new]
      exact keys_entered aligned.keys (memory_owned filed) owned same
    · simp only [publishRecord, if_neg new]
      have there : m.records ⟨.operation, value.id⟩ ≠ none := by
        rcases held rfl with read | written
        · exact fun none => new (read.symm.trans none)
        · intro none
          cases written.symm.trans none
      obtain ⟨previous, stored⟩ := operation_there filed there
      exact keys_kept aligned.keys stored (same previous stored)
  | preview value =>
    obtain ⟨operations, previews⟩ := views_preview (publishRecord m before (.preview value)) (some value) rfl
    simp only [hostFree, decide_eq_true_eq] at free
    refine aligned_previews aligned operations rfl ?_ ?_
    · rw [previews]
      refine index_indexed aligned.previews value ?_
      intro previous stored
      rcases held rfl with read | written
      · have looked : before.bind Record.preview? = some previous := read ▸ stored
        simp only [acceptable, looked, all_some, Bool.decide_and, Bool.and_eq_true,
          decide_eq_true_eq] at fits
        exact ⟨fits.1, fits.2.1, Or.inl fits.2.2⟩
      · have looked : m.preview value.id = some value := by
          rw [Memory.preview, ← preview_key value, written]
          rfl
        cases looked.symm.trans stored
        exact ⟨rfl, rfl, Or.inl rfl⟩
    · rw [previews]
      exact index_reaches aligned.hosts value free

theorem normal_owned (owned : Owned operationID record) : Owned operationID record.normal := by
  cases record <;> exact owned

theorem normal_fits {before : Option Record} (fits : acceptable operationID before record) :
    acceptable operationID before record.normal := by
  cases record <;> exact fits

theorem owned_kept : Kept operationID (Owned operationID) := by
  refine ⟨fun record owned => normal_owned owned, ?_⟩
  intro before record fits
  cases record with
  | operation =>
    simp only [acceptable, Bool.decide_and, Bool.and_eq_true, decide_eq_true_eq] at fits
    intro index named
    simpa [named] using fits.1
  | plain | integration | preview => trivial

theorem publish_aligned (aligned : Aligned m) (filed : MemoryFiled (Owned operationID) m) {put : Put}
    (own : PutFiled operationID (Owned operationID) put)
    (held : indexed put.key → m.records put.key = put.before ∨ m.records put.key = put.after)
    (free : put.after.all (hostFree m)) : Aligned (publish m put) := by
  obtain ⟨key, before, request⟩ := put
  cases request with
  | none =>
    cases before with
    | none => exact aligned
    | some record =>
      obtain ⟨rfl, owned⟩ := own.before record rfl
      exact drop_aligned aligned filed owned fun kind => (held kind).symm
  | some record =>
    obtain ⟨rfl, owned⟩ := own.request record rfl
    refine publish_record_aligned aligned filed (normal_owned owned) (normal_fits (own.fits record rfl)) ?_ free
    rw [normal_key]
    exact held

theorem apply_record_aligned (aligned : Aligned m) (filed : MemoryFiled (Owned operationID) m) {key : Key}
    {value : Option Record} (own : ∀ record, value = some record → record.key = key ∧ Owned operationID record)
    (fits : value.all (loadable m)) : Aligned (applyRecord m key value) := by
  cases value with
  | none => exact delete_aligned aligned filed key
  | some record =>
    obtain ⟨rfl, owned⟩ := own record rfl
    simp only [applyRecord]
    split
    · rename_i newer
      simp only [all_some, loadable, Bool.decide_or, Bool.decide_and, Bool.or_eq_true,
        Bool.and_eq_true, decide_eq_true_eq] at fits
      rcases fits with held | ⟨-, free, same⟩
      · rw [recordVersionLocked, held, elim_some, normal_version] at newer
        exact absurd newer (Nat.lt_irrefl _)
      · exact load_aligned aligned filed owned free same
    · exact aligned

theorem apply_changes_aligned {r : Replica} (aligned : Aligned r.memory)
    (filed : MemoryFiled (Owned operationID) r.memory) {changes : List Change}
    (own : ∀ change ∈ changes, ChangeFiled (Owned operationID) change)
    (fits : appliable r changes) : Aligned (changes.foldl applyChange r).memory := by
  induction changes generalizing r with
  | nil => exact aligned
  | cons change rest ih =>
    simp only [appliable, Bool.decide_or, Bool.decide_and, Bool.and_eq_true, Bool.or_eq_true,
      decide_eq_true_eq] at fits
    have mine := own change mem_cons_self
    refine ih ?_ (apply_change_filed owned_kept.normal filed mine)
      (fun other member => own other (mem_cons_of_mem change member)) fits.2
    unfold applyChange
    split
    · exact aligned
    · rename_i unseen
      exact apply_record_aligned aligned filed mine (fits.1.resolve_left unseen)

end Memories

section Loading
variable {operationID : String → String} {m : Memory} {rows : List Record}

theorem load_records (m : Memory) (record : Record) (key : Key) : (loadRecord m record).records key =
    if key = record.key then some record.normal else m.records key := by
  by_cases same : key = record.key
  · rw [if_pos same, same]
    exact update_self _ _ _
  · rw [if_neg same]
    exact update_of_ne same _ _

theorem loads_elsewhere {key : Key} (different : ∀ record ∈ rows, record.key ≠ key) :
    (rows.foldl loadRecord m).records key = m.records key := by
  induction rows generalizing m with
  | nil => rfl
  | cons record rest ih =>
    rw [foldl_cons, ih fun other member => different other (mem_cons_of_mem record member),
      load_records, if_neg (different record mem_cons_self).symm]

theorem loads_records (apart : rows.Pairwise fun a b => a.key ≠ b.key) {record : Record}
    (member : record ∈ rows) : (rows.foldl loadRecord m).records record.key = some record.normal := by
  induction rows generalizing m with
  | nil => cases member
  | cons first rest ih =>
    obtain ⟨others, distinct⟩ := pairwise_cons.mp apart
    rw [foldl_cons]
    rcases mem_cons.mp member with rfl | later
    · rw [loads_elsewhere fun other there => (others other there).symm, load_records, if_pos rfl]
    · exact ih distinct later

theorem load_hosts {record : Record} (new : m.records record.key = none) (hostname : String)
    (different : record.preview?.map Preview.hostname ≠ some hostname) :
    (loadRecord m record).previews.hosts hostname = m.previews.hosts hostname := by
  cases record with
  | preview value =>
    have absent : m.preview value.id = none := by
      rw [Memory.preview, ← preview_key value, new]
      rfl
    have elsewhere : hostname ≠ value.hostname := fun same => different (congrArg some same.symm)
    simp only [loadRecord, absent, elim_none, indexPreviewLocked, update_of_ne elsewhere]
  | plain | operation | integration => rfl

theorem loads_aligned (aligned : Aligned m) (filed : MemoryFiled (Owned operationID) m)
    (owned : ∀ record ∈ rows, Owned operationID record)
    (new : ∀ record ∈ rows, m.records record.key = none)
    (free : ∀ hostname ∈ hostnames rows, m.previews.hosts hostname = none)
    (apart : rows.Pairwise fun a b => a.key ≠ b.key) (distinct : (hostnames rows).Nodup) :
    Aligned (rows.foldl loadRecord m) := by
  induction rows generalizing m with
  | nil => exact aligned
  | cons record rest ih =>
    obtain ⟨others, pairs⟩ := pairwise_cons.mp apart
    have absent := new record mem_cons_self
    have own := owned record mem_cons_self
    have unused : hostFree m record := by
      cases record with
      | preview value =>
        have none := free value.hostname (by simp [hostnames, Record.preview?])
        simp [hostFree, none]
      | plain | operation | integration => rfl
    have same : sameIndex m record := by
      cases record with
      | operation value =>
        have none : m.operation value.id = none := by
          rw [Memory.operation, ← operation_key value, absent]
          rfl
        simp [sameIndex, none]
      | plain | preview | integration => rfl
    have tail : (hostnames rest).Nodup ∧ ∀ hostname ∈ hostnames rest,
        record.preview?.map Preview.hostname ≠ some hostname := by
      cases shape : record.preview?.map Preview.hostname with
      | none =>
        simp only [hostnames, filterMap_cons, shape] at distinct
        refine ⟨distinct, ?_⟩
        rintro hostname member ⟨⟩
      | some =>
        simp only [hostnames, filterMap_cons, shape, nodup_cons] at distinct
        refine ⟨distinct.2, ?_⟩
        rintro hostname member ⟨⟩
        exact distinct.1 member
    refine ih (load_aligned aligned filed own unused same) (load_filed filed (normal_owned own))
      (fun other member => owned other (mem_cons_of_mem record member)) ?_ ?_ pairs tail.1
    · intro other member
      rw [load_records, if_neg (others other member).symm]
      exact new other (mem_cons_of_mem record member)
    · intro hostname member
      rw [load_hosts absent hostname (tail.2 hostname member)]
      refine free hostname ?_
      obtain ⟨other, inside, named⟩ := mem_filterMap.mp member
      exact mem_filterMap.mpr ⟨other, mem_cons_of_mem record inside, named⟩

theorem empty_aligned : Aligned emptyMemory := by
  refine ⟨?_, ?_, ?_⟩
  · intro index id
    simp [emptyMemory, Memory.operation]
  · exact empty_indexed
  · intro id value found
    cases found

end Loading

end PieRelay.MemoryIndexes
