import PieRelay.IntegrationRecords
import PieRelay.MemoryIndexes

/-!
The previews of one service under `PutPreview`, `DeletePreview`, `loadRecord` and the
deletes that come by replication. A put holds the lock of its user and of its record from
its checks to its end, a delete that of its record; a load takes neither. What has been
checked may have changed in memory when a put or a delete comes to publish.
-/
namespace PieRelay.PreviewPorts
open Function Executions ControlPlane IntegrationRecords PreviewRecords Replicas CachedVersions MemoryIndexes Option
open RoomRegistry (Time)

inductive Call where
  | putting (before : Option Preview) (value : Preview)
  | deleting (before : Preview)
  | returned
  deriving DecidableEq

def Call.user : Call → Option String
  | .putting _ value => some value.integrationUserID
  | _ => none

def Call.record : Call → Option String
  | .putting _ value => some value.id
  | .deleting before => some before.id
  | .returned => none

structure World where
  memory : Memory
  calls : List Call

def newWorld : World := ⟨emptyMemory, []⟩

def setCall (w : World) (index : Nat) (call : Call) : World := { w with calls := w.calls.set index call }

inductive Action where
  | put (maps : IntegrationRecords.Service) (value : Preview) (expected : Nat) (now : Time)
  | delete (id : String) (expected : Nat)
  | publish (call : Nat)
  | fail (call : Nat)
  | load (value : Preview)
  | drop (id : String)

def beginPut (w : World) (maps : IntegrationRecords.Service) (value : Preview) (expected : Nat) (now : Time) :
    Option World :=
  match askPreview maps value expected with
  | .ok ask =>
    if w.calls.all fun call => call.user ≠ some ask.value.integrationUserID ∧
        call.record ≠ some ask.value.id then
      match putPreview w.memory.preview w.memory.previews now ask with
      | .ok record => some { w with calls := w.calls ++ [.putting (w.memory.preview record.id) record] }
      | .error _ => none
    else none
  | .error _ => none

def step (w : World) : Action → Option World
  | .put maps value expected now => beginPut w maps value expected now
  | .delete id expected =>
    match w.memory.preview id with
    | some before =>
      if validID id ∧ 1 ≤ expected ∧ before.version = expected ∧
          w.calls.all fun call => call.record ≠ some id then
        some { w with calls := w.calls ++ [.deleting before] }
      else none
    | none => none
  | .publish index =>
    match w.calls[index]? with
    | some (.putting before value) => some (setCall
        { w with memory := publishRecord w.memory (before.map .preview) (.preview value) } index .returned)
    | some (.deleting before) => some (setCall
        { w with memory := dropRecord w.memory (.preview before) } index .returned)
    | _ => none
  | .fail index =>
    match w.calls[index]? with
    | some (.putting _ _) | some (.deleting _) => some (setCall w index .returned)
    | _ => none
  | .load value => some { w with memory := loadRecord w.memory (.preview value) }
  | .drop id => some { w with memory := deleteRecordLocked w.memory ⟨.preview, id⟩ }

inductive Taken (w : World) : Action → World → Prop where
  | began (maps : IntegrationRecords.Service) (value : Preview) (expected : Nat) (now : Time)
      (ask : Ask Preview) (record : Preview) (asked : askPreview maps value expected = .ok ask)
      (put : putPreview w.memory.preview w.memory.previews now ask = .ok record) :
      Taken w (.put maps value expected now)
        { w with calls := w.calls ++ [.putting (w.memory.preview record.id) record] }
  | dropping (id : String) (expected : Nat) (before : Preview)
      (stored : w.memory.preview id = some before) :
      Taken w (.delete id expected) { w with calls := w.calls ++ [.deleting before] }
  | published (index : Nat) (before : Option Preview) (value : Preview)
      (here : w.calls[index]? = some (.putting before value)) :
      Taken w (.publish index) (setCall
        { w with memory := publishRecord w.memory (before.map .preview) (.preview value) } index .returned)
  | deleted (index : Nat) (before : Preview) (here : w.calls[index]? = some (.deleting before)) :
      Taken w (.publish index)
        (setCall { w with memory := dropRecord w.memory (.preview before) } index .returned)
  | failed (index : Nat) (call : Call) (here : w.calls[index]? = some call) :
      Taken w (.fail index) (setCall w index .returned)
  | loaded (value : Preview) :
      Taken w (.load value) { w with memory := loadRecord w.memory (.preview value) }
  | dropped (id : String) :
      Taken w (.drop id) { w with memory := deleteRecordLocked w.memory ⟨.preview, id⟩ }

variable {action : Action}

theorem step_taken {w next : World} (stepped : step w action = some next) : Taken w action next := by
  cases action with
  | put maps value expected now =>
    change beginPut w maps value expected now = some next at stepped
    unfold beginPut at stepped
    split at stepped
    · rename_i ask asked
      split at stepped
      · split at stepped
        · rename_i record put
          cases stepped
          exact .began maps value expected now ask record asked put
        · cases stepped
      · cases stepped
    · cases stepped
  | delete id expected =>
    simp only [step] at stepped
    split at stepped
    · rename_i before stored
      split at stepped
      · cases stepped
        exact .dropping id expected before stored
      · cases stepped
    · cases stepped
  | publish index =>
    simp only [step] at stepped
    split at stepped
    · rename_i before value here
      cases stepped
      exact .published index before value here
    · rename_i before here
      cases stepped
      exact .deleted index before here
    · cases stepped
  | fail index =>
    simp only [step] at stepped
    split at stepped
    · rename_i here
      cases stepped
      exact .failed index _ here
    · rename_i here
      cases stepped
      exact .failed index _ here
    · cases stepped
  | load value =>
    cases stepped
    exact .loaded value
  | drop id =>
    cases stepped
    exact .dropped id

def PortsApart (previews : String → Option Preview) : Prop :=
  ∀ id other value found, previews id = some value → previews other = some found → id ≠ other →
    activePreview value → activePreview found →
    value.integrationUserID = found.integrationUserID → value.port ≠ found.port

def Good (w : World) : Prop :=
  Indexed w.memory.previews w.memory.preview ∧ PortsApart w.memory.preview

def portFree (m : Memory) (value : Preview) : Bool :=
  activePreview value → ∀ id ∈ m.previews.users value.integrationUserID, id ≠ value.id →
    (m.preview id).all fun found => activePreview found → found.port ≠ value.port

def atHome (m : Memory) (value : Preview) : Bool :=
  (m.preview value.id).all fun previous => Home m.previews previous value

/-- A preview that comes into memory, by a load or from a put, has a port that is free then; a put or
    delete that publishes finds under its id nothing, or a preview of the same user and project whose
    host name is the same or leads elsewhere. -/
def careful (w : World) : Action → Bool
  | .load value => portFree w.memory value
  | .publish index =>
    match w.calls[index]? with
    | some (.putting _ value) => atHome w.memory value ∧ portFree w.memory value
    | some (.deleting before) => atHome w.memory before
    | _ => true
  | _ => true

section Ports
variable {previews : String → Option Preview} {index : PreviewIndex}

theorem ports_erase (apart : PortsApart previews) (gone : String) : PortsApart (update previews gone none) := by
  have kept : ∀ id value, update previews gone none id = some value → previews id = some value := by
    intro id value stored
    by_cases same : id = gone
    · rw [same, update_self] at stored
      cases stored
    · rwa [update_of_ne same] at stored
  intro id other value found left right
  exact apart id other value found (kept id value left) (kept other found right)

theorem ports_insert (apart : PortsApart previews) (value : Preview) :
    PortsApart (update previews value.id (some value)) ↔
      (activePreview value → ∀ id found, id ≠ value.id → previews id = some found →
        activePreview found → found.integrationUserID = value.integrationUserID →
        found.port ≠ value.port) := by
  constructor
  · intro after active id found different stored running same
    refine after id value.id found value ?_ (update_self _ _ _) different running active same
    rwa [update_of_ne different]
  · intro free id other first second left right different one two same
    by_cases here : id = value.id
    · subst here
      rw [update_self] at left
      cases left
      rw [update_of_ne different.symm] at right
      exact (free one other second different.symm right two same.symm).symm
    · rw [update_of_ne here] at left
      by_cases there : other = value.id
      · subst there
        rw [update_self] at right
        cases right
        exact free two id first here left one same
      · rw [update_of_ne there] at right
        exact apart id other first second left right different one two same

-- A preview that is filed elsewhere leaves its id behind in the old set.
theorem index_indexed_iff (indexed : Indexed index previews) (value : Preview) :
    Indexed (indexPreviewLocked index value) (update previews value.id (some value)) ↔
      ∀ previous, previews value.id = some previous → Home index previous value := by
  constructor
  · intro after previous stored
    have users := (after.users previous.integrationUserID value.id).mp
    have projects := (after.projects previous.projectID value.id).mp
    have hosts := after.hosts previous.hostname value.id
    simp only [update_self, some.injEq, exists_eq_left'] at users projects hosts
    refine ⟨?_, ?_, ?_⟩
    · by_contra different
      refine different (users ?_).symm
      simp only [indexPreviewLocked, update_of_ne different]
      exact (indexed.users _ _).mpr ⟨previous, stored, rfl⟩
    · by_contra different
      refine different (projects ?_).symm
      simp only [indexPreviewLocked, update_of_ne different]
      exact (indexed.projects _ _).mpr ⟨previous, stored, rfl⟩
    · by_cases same : previous.hostname = value.hostname
      · exact Or.inl same
      · refine Or.inr fun leads => same (hosts ?_).symm
        simp only [indexPreviewLocked, update_of_ne same]
        exact leads
  · exact index_indexed indexed value

theorem unindex_indexed_iff (indexed : Indexed index previews) (value : Preview) :
    Indexed (unindexPreviewLocked index value) (update previews value.id none) ↔
      ∀ previous, previews value.id = some previous → Home index previous value := by
  constructor
  · intro after previous stored
    have users := (after.users previous.integrationUserID value.id).mp
    have projects := (after.projects previous.projectID value.id).mp
    have hosts := after.hosts previous.hostname value.id
    simp only [update_self, reduceCtorEq, false_and, exists_false] at users projects hosts
    refine ⟨?_, ?_, ?_⟩
    · by_contra different
      refine users ?_
      simp only [unindexPreviewLocked, update_of_ne different]
      exact (indexed.users _ _).mpr ⟨previous, stored, rfl⟩
    · by_contra different
      refine projects ?_
      simp only [unindexPreviewLocked, update_of_ne different]
      exact (indexed.projects _ _).mpr ⟨previous, stored, rfl⟩
    · by_cases same : previous.hostname = value.hostname
      · exact Or.inl same
      · refine Or.inr fun leads => hosts ?_
        rcases unindex_hosts index value previous.hostname with ⟨-, own, -⟩ | kept
        · exact absurd own same
        · exact kept.trans leads
  · exact unindex_indexed indexed value

end Ports

section Steps
variable {w next : World} {m : Memory}

theorem port_free_iff (indexed : Indexed m.previews m.preview) (value : Preview) :
    portFree m value ↔ (activePreview value → ∀ id found, id ≠ value.id →
      m.preview id = some found → activePreview found →
      found.integrationUserID = value.integrationUserID → found.port ≠ value.port) := by
  simp only [portFree, decide_eq_true_eq]
  constructor
  · intro free active id found different stored running same
    have listed := (indexed.users value.integrationUserID id).mpr ⟨found, stored, same⟩
    have other := free active id listed different
    simp only [stored, all_some, decide_eq_true_eq] at other
    exact other running
  · intro free active id listed different
    obtain ⟨found, stored, same⟩ := (indexed.users value.integrationUserID id).mp listed
    simp only [stored, all_some, decide_eq_true_eq]
    intro running
    exact free active id found different stored running same

theorem at_home_iff (value : Preview) : atHome m value ↔
    ∀ previous, m.preview value.id = some previous → Home m.previews previous value := by
  unfold atHome
  cases m.preview value.id with
  | none => simp
  | some => simp

theorem load_good_iff (filed : MemoryFiled (fun _ => True) m) (indexed : Indexed m.previews m.preview)
    (apart : PortsApart m.preview) (value : Preview) :
    (Indexed (loadRecord m (.preview value)).previews (loadRecord m (.preview value)).preview ∧
      PortsApart (loadRecord m (.preview value)).preview) ↔ portFree m value := by
  have view := (views_preview (loadRecord m (.preview value)) (some value) rfl).2
  rw [view, ports_insert apart, port_free_iff indexed]
  exact and_iff_right (load_indexed indexed filed value)

theorem publish_good_iff (indexed : Indexed m.previews m.preview) (apart : PortsApart m.preview)
    (before : Option Record) (value : Preview) :
    (Indexed (publishRecord m before (.preview value)).previews (publishRecord m before (.preview value)).preview ∧
      PortsApart (publishRecord m before (.preview value)).preview) ↔
      atHome m value ∧ portFree m value := by
  have view := (views_preview (publishRecord m before (.preview value)) (some value) rfl).2
  rw [view, ports_insert apart, port_free_iff indexed, at_home_iff]
  exact and_congr_left' (index_indexed_iff indexed value)

theorem drop_good_iff (indexed : Indexed m.previews m.preview) (apart : PortsApart m.preview) (value : Preview) :
    (Indexed (dropRecord m (.preview value)).previews (dropRecord m (.preview value)).preview ∧
      PortsApart (dropRecord m (.preview value)).preview) ↔ atHome m value := by
  have view := (views_preview (dropRecord m (.preview value)) none rfl).2
  rw [view, at_home_iff]
  refine Iff.trans (and_iff_left (ports_erase apart value.id)) ?_
  exact unindex_indexed_iff indexed value

theorem delete_good (filed : MemoryFiled (fun _ => True) m) (indexed : Indexed m.previews m.preview)
    (apart : PortsApart m.preview) (id : String) :
    Indexed (deleteRecordLocked m ⟨.preview, id⟩).previews (deleteRecordLocked m ⟨.preview, id⟩).preview ∧
      PortsApart (deleteRecordLocked m ⟨.preview, id⟩).preview := by
  unfold deleteRecordLocked
  cases held : m.records ⟨.preview, id⟩ with
  | none => exact ⟨indexed, apart⟩
  | some record =>
    have named := (filed _ record held).1
    cases record with
    | preview value =>
      cases named
      refine (drop_good_iff indexed apart value).mpr ?_
      rw [at_home_iff]
      intro previous stored
      rw [Memory.preview, held] at stored
      cases stored
      exact ⟨rfl, rfl, Or.inl rfl⟩
    | plain | operation | integration => cases named

theorem step_filed (filed : MemoryFiled (fun _ => True) w.memory)
    (stepped : step w action = some next) : MemoryFiled (fun _ => True) next.memory := by
  cases step_taken stepped with
  | began | dropping | failed => exact filed
  | published =>
    refine filed_update filed ?_
    rintro record ⟨⟩
    exact ⟨rfl, trivial⟩
  | deleted => exact drop_filed filed _
  | loaded => exact load_filed filed trivial
  | dropped => exact delete_filed filed _

/-- From a good state a step leads to a good state exactly if it is careful. -/
theorem step_good_iff (filed : MemoryFiled (fun _ => True) w.memory) (good : Good w)
    (stepped : step w action = some next) : Good next ↔ careful w action := by
  obtain ⟨indexed, apart⟩ := good
  cases step_taken stepped with
  | began | dropping | failed => exact iff_of_true ⟨indexed, apart⟩ rfl
  | published index before value here =>
    simp only [careful, here, Bool.decide_and, Bool.and_eq_true, decide_eq_true_eq]
    exact publish_good_iff indexed apart (before.map .preview) value
  | deleted index before here =>
    simp only [careful, here]
    exact drop_good_iff indexed apart before
  | loaded value => exact load_good_iff filed indexed apart value
  | dropped id => exact iff_of_true (delete_good filed indexed apart id) rfl

end Steps

theorem new_good : Good newWorld := by
  refine ⟨empty_indexed, ?_⟩
  intro id other value found stored
  cases stored

/-- The indexes are exact and the ports apart in every state of a run, exactly if every load finds
    the port free and every put and delete publishes over what it may. -/
theorem preview_indexes_and_ports_iff (actions : List Action) (w : World) (ran : run step newWorld actions = some w) :
    Along step (fun _ next => Good next) newWorld actions ↔
      Guarded step (fun w action => careful w action) newWorld actions :=
  along_good_iff (fun w => MemoryFiled (fun _ => True) w.memory) Good
    (fun _ _ _ filed stepped => step_filed filed stepped)
    (fun _ _ _ filed good stepped => step_good_iff filed good stepped) ran empty_filed new_good

def integration : Integration := ⟨"acme", .active, 10, 10, 4, 4⟩
def binding : IntegrationUser := ⟨"u1", "acme", "ext", "owner", .ready, 1, 1, 1⟩
def project : IntegrationRecords.Project :=
  ⟨"p1", "acme", "u1", "owner", "shop", "en", "/workspace/projects/p1", "", .ready, "", 1, 1, 1⟩

def maps : IntegrationRecords.Service where
  integrations := AList.singleton "acme" integration
  users := ∅
  devices := ∅
  sessions := ∅
  integrationUsers := AList.singleton "u1" binding
  projects := AList.singleton "p1" project
  conversations := ∅
  previews := ∅
  previewIndex := emptyIndex

def preview (id hostname : String) (port : Int) (status : PreviewStatus) (version : Nat) : Preview :=
  ⟨id, "acme", "u1", "owner", "p1", ".", hostname, "runner", port, "auto", "private", 1, status, "", 0,
    none, none, none, 5, 5, version⟩

def otherPort : List Action :=
  [.put maps (preview "a" "a.pv.test" 20000 .starting 0) 0 5, .publish 0,
    .load (preview "b" "b.pv.test" 20001 .starting 1),
    .put maps (preview "a" "a.pv.test" 20000 .stopped 0) 1 5, .publish 1, .delete "a" 2, .publish 2]

theorem other_port_good : Along step (fun _ next => Good next) newWorld otherPort := by
  obtain ⟨w, ran⟩ : ∃ w, run step newWorld otherPort = some w := ⟨_, rfl⟩
  refine (preview_indexes_and_ports_iff otherPort w ran).mpr ?_
  exact checked_guarded careful (fun _ _ passed => passed) _ _ (by decide +kernel)

def samePort : List Action :=
  [.put maps (preview "a" "a.pv.test" 20000 .starting 0) 0 5, .publish 0,
    .load (preview "b" "b.pv.test" 20000 .starting 1)]

theorem same_port_not_good : ∃ w, run step newWorld samePort = some w ∧ ¬ Good w := by
  have ended : (run step newWorld samePort).map (fun w => (w.memory.preview "a", w.memory.preview "b")) =
      some (some (preview "a" "a.pv.test" 20000 .starting 1),
        some (preview "b" "b.pv.test" 20000 .starting 1)) := by decide +kernel
  obtain ⟨w, ran, held⟩ := map_eq_some_iff.mp ended
  refine ⟨w, ran, ?_⟩
  rintro ⟨-, apart⟩
  have different := apart "a" "b" _ _ (congrArg Prod.fst held) (congrArg Prod.snd held) (by decide)
    rfl rfl rfl
  exact different rfl

end PieRelay.PreviewPorts
