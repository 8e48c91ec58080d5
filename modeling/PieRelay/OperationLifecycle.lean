import PieRelay.Executions
import PieRelay.OperationSteps
import PieRelay.VersionHistory

/-!
The life of one stored operation, executor-manager/internal/control/service.go. The
transition rules of `UpdateOperation` look at a replica's cached copy, the store
compares versions only, and an idempotent operation that was pruned comes back under
the same id at version 1. As long as nobody still knows the pruned operation when that
happens, a version names one value, and what a replica checked is what it replaces.
-/
namespace PieRelay.OperationLifecycle
open Function Executions RoomRegistry VersionHistory OperationStore OperationSteps List Option

mutual
theorem value_normal_idem : ∀ value : GoValue, value.normal.normal = value.normal
  | .null | .bool _ | .number _ | .text _ => by simp [GoValue.normal]
  | .array items => by simp [GoValue.normal, items_normal_idem items]
  | .object fields => by simp [GoValue.normal, fields_normal_idem fields]
  | .typed _ encoding => by simp [GoValue.normal, value_normal_idem encoding]
theorem items_normal_idem : ∀ items : GoItems, items.normal.normal = items.normal
  | .nil => by simp [GoItems.normal]
  | .cons head tail => by simp [GoItems.normal, value_normal_idem head, items_normal_idem tail]
theorem fields_normal_idem : ∀ fields : GoFields, fields.normal.normal = fields.normal
  | .nil => by simp [GoFields.normal]
  | .cons _ value rest => by simp [GoFields.normal, value_normal_idem value, fields_normal_idem rest]
end

theorem field_round_trip (value : GoMap) : omitEmpty (toMap (omitEmpty (toMap value))) = omitEmpty (toMap value) := by
  cases value with
  | none => rfl
  | some fields =>
    cases fields with
    | nil => simp [toMap, GoFields.normal, omitEmpty]
    | cons =>
      simp [toMap, GoFields.normal, omitEmpty, value_normal_idem, fields_normal_idem]

theorem encode_encode (value : Operation) : encode (encode value) = encode value := by
  simp [encode, field_round_trip]

def identity (value : Operation) : Operation :=
  { value with
    status := .queued, progress := 0, result := none, error := "", startedAt := none
    finishedAt := none, updatedAt := 0, version := 0 }

structure Created (digest : String → String) (id : String) (value : Operation) : Prop where
  named : value.id = id
  keyed : value.idempotencyKey ≠ "" →
    id = idempotentOperationID digest value.actorUserID value.idempotencyKey
  queued : value.status = .queued
  encoded : encode value = value

structure Linked (before after : Operation) : Prop where
  unfinished : terminalOperation before.status = false
  left : after.status ≠ .queued
  same : identity after = identity before
  started : ∀ time, before.startedAt = some time → after.startedAt = some time
  finished : after.finishedAt.isSome = (terminalOperation after.status || before.finishedAt.isSome)
  encoded : encode after = after

theorem advance_linked (before : Operation) (status : Status) (progress : Int) (result : GoMap)
    (error : String) (now : Time) (unfinished : terminalOperation before.status = false)
    (left : status ≠ .queued) :
    Linked (encode before) (encode (advance before status progress result error now)) := by
  constructor
  · exact unfinished
  · exact left
  · rfl
  · intro time started
    have earlier : before.startedAt = some time := started
    simp [encode, advance, earlier]
  · simp only [encode, advance]
    cases terminalOperation status <;> simp
  · exact encode_encode _

section Runs
variable {digest : String → String}

abbrev Lived (digest : String → String) (id : String) : List Operation → Prop :=
  History Operation.version (Created digest id) Linked

structure Consistent (digest : String → String) (w : World) : Prop where
  lived : ∀ id, w.history id = [] ∨ Lived digest id (w.history id)
  stored : ∀ id value, w.records id = some value → ∃ older, w.history id = value :: older
  views : ∀ id value, View w id value → encode value ∈ w.history id
  fresh : ∀ id, w.incarnation id = 0 → w.history id = []

variable {w : World} {id : String} {value : Operation}

section
variable (consistent : Consistent digest w)
include consistent

theorem history_lived (member : value ∈ w.history id) : Lived digest id (w.history id) := by
  rcases consistent.lived id with empty | lived
  · rw [empty] at member
    cases member
  · exact lived

theorem stored_member (found : w.records id = some value) : value ∈ w.history id := by
  obtain ⟨older, split⟩ := consistent.stored id value found
  rw [split]
  exact mem_cons_self

theorem stored_encoded (found : w.records id = some value) : encode value = value := by
  have member := stored_member consistent found
  exact history_all (fun value => encode value = value) (fun _ created => created.encoded)
    (fun _ _ linked _ => linked.encoded) (history_lived consistent member) value member

/-- The point of the version check: a copy of the stored version is the stored value. -/
theorem view_of_version {seen stored : Operation} (view : View w id seen) (found : w.records id = some stored)
    (version : stored.version = seen.version) : stored = encode seen := by
  have member := stored_member consistent found
  exact version_unique (history_lived consistent member) member (consistent.views id seen view) version

end

theorem new_consistent : Consistent digest newWorld := by
  constructor
  · exact fun _ => Or.inl rfl
  · intro id value found
    cases found
  · intro id value view
    rcases view with ⟨replica, member, _⟩ | ⟨call, member, _⟩ <;> cases member
  · exact fun _ _ => rfl

/-- An id that has been pruned is created again only when no cached copy, no batch of a refresh and
    no call under way still knows it. -/
def Renewed (w : World) : Action → Prop
  | .insert index _ => ∀ call, w.calls[index]? = some (.inserting call) →
      w.records call.operation.id = none → w.incarnation call.operation.id = 0 ∨
        ∀ value, ¬ View w call.operation.id value
  | _ => True

theorem created_consistent (w next : World) (call : Begin) (consistent : Consistent digest w)
    (made : ∃ randomID now, call.operation = newOperation digest call.candidate randomID now)
    (unseen : ∀ value, ¬ View w call.operation.id value)
    (records : next.records = update w.records call.operation.id (some (encode call.operation)))
    (history : next.history = update w.history call.operation.id [encode call.operation])
    (incarnation : next.incarnation = update w.incarnation call.operation.id (w.incarnation call.operation.id + 1))
    (views : ∀ id value, View next id value → View w id value ∨ (id = call.operation.id ∧ value = call.operation)) :
    Consistent digest next := by
  obtain ⟨randomID, now, same⟩ := made
  constructor
  · intro id
    rw [history]
    by_cases here : id = call.operation.id
    · subst here
      rw [update_self]
      refine Or.inr (.created _ ?_ ⟨rfl, ?_, ?_, encode_encode _⟩)
      · rw [same]
        rfl
      · intro keyed
        have key : call.candidate.idempotencyKey ≠ "" := by
          rw [same] at keyed
          exact keyed
        rw [same]
        simp [newOperation, encode, key]
      · rw [same]
        rfl
    · rw [update_of_ne here]
      exact consistent.lived id
  · intro id value found
    rw [records] at found
    rw [history]
    by_cases here : id = call.operation.id
    · subst here
      simp only [update_self, some.injEq] at found ⊢
      exact ⟨[], by rw [found]⟩
    · rw [update_of_ne here] at found ⊢
      exact consistent.stored id value found
  · intro id value view
    rw [history]
    rcases views id value view with old | ⟨rfl, rfl⟩
    · by_cases here : id = call.operation.id
      · exact absurd (here ▸ old) (unseen value)
      · rw [update_of_ne here]
        exact consistent.views id value old
    · rw [update_self]
      exact mem_singleton.mpr rfl
  · intro id zero
    rw [incarnation] at zero
    by_cases here : id = call.operation.id
    · subst here
      simp at zero
    · rw [update_of_ne here] at zero
      rw [history, update_of_ne here]
      exact consistent.fresh id zero

theorem replaced_consistent (w next : World) (id : String) (before value stored : Operation)
    (consistent : Consistent digest w) (view : View w id before)
    (linked : Linked (encode before) (encode value)) (advanced : value.version = before.version + 1)
    (found : w.records id = some stored) (version : stored.version = before.version)
    (records : next.records = update w.records id (some (encode value)))
    (history : next.history = update w.history id (encode value :: w.history id))
    (incarnation : next.incarnation = w.incarnation)
    (views : ∀ other seen, View next other seen → View w other seen ∨ (other = id ∧ seen = value)) :
    Consistent digest next := by
  have replaced : stored = encode before := view_of_version consistent view found version
  obtain ⟨older, split⟩ := consistent.stored id stored found
  constructor
  · intro other
    rw [history]
    by_cases here : other = id
    · subst here
      rw [update_self]
      have lived := history_lived consistent (stored_member consistent found)
      rw [split] at lived ⊢
      refine Or.inr (.replaced _ stored older ?_ ?_ lived)
      · have encoded : (encode value).version = value.version := rfl
        rw [encoded, advanced, version]
      · rw [replaced]
        exact linked
    · rw [update_of_ne here]
      exact consistent.lived other
  · intro other found
    rw [records, history]
    by_cases here : other = id
    · subst here
      simp only [update_self, some.injEq]
      rintro rfl
      exact ⟨_, rfl⟩
    · rw [update_of_ne here, update_of_ne here]
      exact consistent.stored other found
  · intro other seen known
    rw [history]
    by_cases here : other = id
    · subst here
      rw [update_self]
      rcases views other seen known with old | ⟨_, rfl⟩
      · exact mem_cons_of_mem _ (consistent.views other seen old)
      · exact mem_cons_self
    · rw [update_of_ne here]
      rcases views other seen known with old | ⟨same, _⟩
      · exact consistent.views other seen old
      · exact absurd same here
  · intro other zero
    rw [incarnation] at zero
    have empty := consistent.fresh other zero
    by_cases here : other = id
    · subst here
      rw [split] at empty
      cases empty
    · rw [history, update_of_ne here]
      exact empty

theorem step_consistent (w : World) (action : Action) (next : World) (renewed : Renewed w action)
    (held : WellFormed digest w ∧ Consistent digest w) (stepped : step digest w action = some next) :
    WellFormed digest next ∧ Consistent digest next := by
  obtain ⟨formed, consistent⟩ := held
  refine ⟨step_well_formed digest w action next formed stepped, ?_⟩
  cases step_change digest w action next stepped with
  | quiet _ records history incarnation views =>
    refine ⟨?_, ?_, ?_, ?_⟩
    · rw [history]
      exact consistent.lived
    · rw [records, history]
      exact consistent.stored
    · intro id value view
      rw [history]
      rcases views id value view with old | found
      · exact consistent.views id value old
      · rw [stored_encoded consistent found]
        exact stored_member consistent found
    · rw [incarnation, history]
      exact consistent.fresh
  | created index reply call waiting vacant records history incarnation views =>
    have made := formed _ (mem_of_getElem? waiting)
    refine created_consistent w next call consistent made ?_ records history incarnation views
    rcases renewed call waiting vacant with zero | unseen
    · intro value view
      have member := consistent.views _ value view
      rw [consistent.fresh _ zero] at member
      cases member
    · exact unseen
  | replaced index reply replica id before value stored claim waiting found version records history incarnation views =>
      obtain ⟨unfinished, status, progress, result, error, now, left, rfl⟩ :=
        formed _ (mem_of_getElem? waiting)
      exact replaced_consistent w next id before _ stored consistent (held_view waiting (mem_singleton.mpr rfl))
        (advance_linked before status progress result error now unfinished left) rfl found version
        records history incarnation views
  | removed index reply replica id current stored waiting found version records history incarnation views =>
      refine ⟨?_, ?_, ?_, ?_⟩
      · rw [history]
        exact consistent.lived
      · intro other value found
        rw [records] at found
        rw [history]
        by_cases here : other = id
        · subst here
          simp at found
        · rw [update_of_ne here] at found
          exact consistent.stored other value found
      · intro other seen known
        rw [history]
        exact consistent.views other seen (views other seen known)
      · rw [incarnation, history]
        exact consistent.fresh

def Grown (w later : World) : Prop :=
  ∀ id, w.incarnation id ≤ later.incarnation id ∧
    (w.incarnation id = later.incarnation id → w.history id <:+ later.history id)

theorem grown_trans (a b c : World) (left : Grown a b) (right : Grown b c) : Grown a c := by
  intro id
  obtain ⟨upLeft, growsLeft⟩ := left id
  obtain ⟨upRight, growsRight⟩ := right id
  refine ⟨Nat.le_trans upLeft upRight, fun same => ?_⟩
  exact (growsLeft (by omega)).trans (growsRight (by omega))

theorem step_grown (w : World) (action : Action) (next : World)
    (stepped : step digest w action = some next) : Grown w next := by
  intro id
  cases step_change digest w action next stepped with
  | quiet _ _ history incarnation | removed _ _ _ _ _ _ _ _ _ _ history incarnation =>
    rw [history, incarnation]
    exact ⟨Nat.le_refl _, fun _ => suffix_refl _⟩
  | created index reply call _ _ _ history incarnation =>
    rw [history, incarnation]
    by_cases here : id = call.operation.id
    · subst here
      simp only [update_self]
      exact ⟨Nat.le_succ _, fun same => absurd same (by omega)⟩
    · rw [update_of_ne here, update_of_ne here]
      exact ⟨Nat.le_refl _, fun _ => suffix_refl _⟩
  | replaced index reply replica other before value stored claim _ _ _ _ history incarnation =>
    rw [history, incarnation]
    refine ⟨Nat.le_refl _, fun _ => ?_⟩
    by_cases here : id = other
    · subst here
      rw [update_self]
      exact suffix_cons _ _
    · rewrite [update_of_ne here]
      exact suffix_refl _

def Unfinished (w : World) : Action → Prop
  | .insert index _ => ∀ call, w.calls[index]? = some (.inserting call) →
      call.candidate.finishedAt = none
  | _ => True

def Orderly (w : World) (action : Action) : Prop := Renewed w action ∧ Unfinished w action

def Finished (w : World) : Prop :=
  ∀ id, ∀ value ∈ w.history id, value.finishedAt.isSome = terminalOperation value.status

theorem step_finished (w : World) (action : Action) (next : World) (unfinished : Unfinished w action)
    (formed : WellFormed digest w) (consistent : Consistent digest w) (finished : Finished w)
    (stepped : step digest w action = some next) : Finished next := by
  intro id value member
  cases step_change digest w action next stepped with
  | quiet _ _ history | removed _ _ _ _ _ _ _ _ _ _ history =>
    rw [history] at member
    exact finished id value member
  | created index reply call waiting _ _ history =>
    rw [history] at member
    by_cases here : id = call.operation.id
    · subst here
      rw [update_self] at member
      obtain ⟨randomID, now, same⟩ := formed _ (mem_of_getElem? waiting)
      have unset : call.operation.finishedAt = none := by
        rw [same]
        exact unfinished call waiting
      have queued : call.operation.status = .queued := by
        rw [same]
        rfl
      rw [mem_singleton.mp member]
      simp [encode, unset, queued, terminalOperation]
    · rw [update_of_ne here] at member
      exact finished id value member
  | replaced index reply replica other before after stored claim waiting found version _ history =>
    rw [history] at member
    by_cases here : id = other
    · subst here
      rw [update_self] at member
      rcases mem_cons.mp member with rfl | old
      · obtain ⟨running, status, progress, result, error, now, left, rfl⟩ :=
          formed _ (mem_of_getElem? waiting)
        have linked := advance_linked before status progress result error now running left
        have view : View w id before := held_view waiting (mem_singleton.mpr rfl)
        have previous := finished id _ (consistent.views id before view)
        rw [linked.finished, previous, linked.unfinished, Bool.or_false]
      · exact finished id value old
    · rw [update_of_ne here] at member
      exact finished id value member

def Kept (digest : String → String) (w : World) : Prop :=
  (WellFormed digest w ∧ Consistent digest w) ∧ Finished w

theorem step_kept (w : World) (action : Action) (next : World) (orderly : Orderly w action)
    (kept : Kept digest w) (stepped : step digest w action = some next) : Kept digest next :=
  ⟨step_consistent w action next orderly.1 kept.1 stepped,
    step_finished w action next orderly.2 kept.1.1 kept.1.2 kept.2 stepped⟩

theorem new_kept : Kept digest newWorld := by
  refine ⟨⟨?_, new_consistent⟩, ?_⟩
  · intro call member
    cases member
  · intro id value member
    cases member

-- Everything below the newest value has been replaced, and a terminal value never is.
theorem older_unfinished {newest : Operation} {older : List Operation} (lived : Lived digest id (newest :: older)) :
    ∀ value ∈ older, terminalOperation value.status = false := by
  intro value member
  obtain ⟨successor, _, linked⟩ := newest_or_replaced lived value member
  exact linked.unfinished

theorem one_terminal (consistent : Consistent digest w) (id : String) :
    (w.history id).countP (fun value => terminalOperation value.status) ≤ 1 := by
  rcases consistent.lived id with empty | lived
  · simp [empty]
  · cases split : w.history id with
    | nil => simp
    | cons newest older =>
      rw [split] at lived
      have none : older.countP (fun value => terminalOperation value.status) = 0 := by
        refine countP_eq_zero.mpr fun value member => ?_
        simp [older_unfinished lived value member]
      rw [countP_cons, none]
      split <;> omega

theorem later_value {later : World} (before : Consistent digest w) (after : Consistent digest later)
    (grown : Grown w later) {last : Operation}
    (found : w.records id = some value) (stored : later.records id = some last)
    (same : later.incarnation id = w.incarnation id) : (terminalOperation value.status → last = value) ∧
      ∀ time, value.startedAt = some time → last.startedAt = some time := by
  obtain ⟨older, split⟩ := after.stored id last stored
  have member : value ∈ last :: older := by
    rw [← split]
    exact ((grown id).2 same.symm).subset (stored_member before found)
  have lived : Lived digest id (last :: older) := by
    rw [← split]
    exact history_lived after (stored_member after stored)
  constructor
  · intro terminal
    rcases mem_cons.mp member with same | old
    · exact same.symm
    · rw [older_unfinished lived value old] at terminal
      cases terminal
  · exact history_to_head (fun a b : Operation => ∀ time, a.startedAt = some time → b.startedAt = some time)
      (fun _ _ started => started) (fun _ _ _ left right time started => right time (left time started))
      (fun _ _ linked => linked.started) lived value member

theorem removed_terminal {next : World} (formed : WellFormed digest w)
    (consistent : Consistent digest w) {action : Action} (stepped : step digest w action = some next) (found : w.records id = some value)
    (gone : next.records id = none) : terminalOperation value.status := by
  cases step_change digest w action next stepped with
  | quiet _ records =>
    rw [records, found] at gone
    cases gone
  | created index reply call _ vacant records =>
    rw [records] at gone
    by_cases here : id = call.operation.id
    · subst here
      simp at gone
    · rw [update_of_ne here, found] at gone
      cases gone
  | replaced index reply replica other before after stored claim _ _ _ records =>
    rw [records] at gone
    by_cases here : id = other
    · subst here
      simp at gone
    · rw [update_of_ne here, found] at gone
      cases gone
  | removed index reply replica other current stored waiting there version records =>
    rw [records] at gone
    by_cases here : id = other
    · subst here
      have terminal : terminalOperation current.status :=
        formed _ (mem_of_getElem? waiting)
      have view : View w id current := held_view waiting (mem_singleton.mpr rfl)
      have same := view_of_version consistent view there version
      rw [found, some.injEq] at there
      rw [there, same]
      exact terminal
    · rw [update_of_ne here, found] at gone
      cases gone

end Runs

/-- Over every interleaving in which a pruned id comes back only when it is forgotten, and no
    operation is begun with its FinishedAt set: stored operations are finished exactly when they
    are terminal, at most one of the values committed for an operation is terminal, a terminal
    status and a StartedAt stay, and only terminal operations are removed. -/
theorem operation_life_cycle (digest : String → String) (early late : List Action) (w later : World)
    (orderly : Guarded (step digest) Orderly newWorld (early ++ late))
    (first : run (step digest) newWorld early = some w)
    (second : run (step digest) w late = some later) (id : String) :
    (∀ value, later.records id = some value → (value.finishedAt.isSome ↔ terminalOperation value.status)) ∧
    (later.history id).countP (fun value => terminalOperation value.status) ≤ 1 ∧
    (∀ value last, w.records id = some value → later.records id = some last → later.incarnation id = w.incarnation id →
      (terminalOperation value.status → last.status = value.status) ∧
        ∀ time, value.startedAt = some time → last.startedAt = some time) ∧
    ∀ value action next, later.records id = some value → step digest later action = some next →
      next.records id = none → terminalOperation value.status := by
  obtain ⟨begun, rest⟩ := guarded_append early late orderly first
  have before := guarded_run_invariant (Kept digest) step_kept begun first new_kept
  have after := guarded_run_invariant (Kept digest) step_kept rest second before
  have grown : Grown w later := run_relation Grown
    (fun _ _ => ⟨Nat.le_refl _, fun _ => suffix_refl _⟩) grown_trans step_grown second
  refine ⟨?_, one_terminal after.1.2 id, ?_, ?_⟩
  · intro value found
    rw [after.2 id value (stored_member after.1.2 found)]
  · intro value last found stored same
    obtain ⟨final, started⟩ := later_value before.1.2 after.1.2 grown found stored same
    exact ⟨fun terminal => by rw [final terminal], started⟩
  · intro value action next found stepped gone
    exact removed_terminal after.1.1 after.1.2 stepped found gone

def stopBox : Operation where
  id := ""
  idempotencyKey := "k1"
  actorUserID := "ops"
  type := "runtime.stop"
  targetKind := "runtime"
  targetID := "box"
  status := .queued
  progress := 0
  request := none
  result := none
  error := ""
  createdAt := 0
  startedAt := none
  finishedAt := none
  updatedAt := 0
  version := 0

def boxDigest (index : String) : String :=
  if index = idempotencyIndex "ops" "k1" then "c8a0afa441b1488734fb189eeb36fbd3" else ""

def boxID : String := "op-c8a0afa441b1488734fb189eeb36fbd3"

def orderlyCheck (w : World) : Action → Bool
  | .insert index _ =>
    match w.calls[index]? with
    | some (.inserting call) => call.candidate.finishedAt.isNone &&
        ((w.records call.operation.id).isSome || w.incarnation call.operation.id == 0 ||
          (w.replicas.all (fun replica => (replica.operations call.operation.id).isNone) &&
            w.calls.all fun other => other.holds.all fun known => known.1 != call.operation.id))
    | _ => true
  | _ => true

theorem orderly_check (w : World) (action : Action) (passed : orderlyCheck w action) : Orderly w action := by
  cases action with
  | insert =>
    simp only [orderlyCheck] at passed
    constructor
    · intro call waiting vacant
      simp only [waiting, vacant, Bool.and_eq_true, Bool.or_eq_true, Option.isSome_none,
        Bool.false_eq_true, false_or, beq_iff_eq, List.all_eq_true] at passed
      rcases passed.2 with zero | ⟨uncached, unheld⟩
      · exact Or.inl zero
      · refine Or.inr fun value view => ?_
        rcases view with ⟨replica, member, cached⟩ | ⟨other, member, held⟩
        · have absent := uncached replica member
          rw [cached] at absent
          cases absent
        · have different := unheld other member _ held
          simp at different
    · intro call waiting
      simp only [waiting, Bool.and_eq_true, Option.isNone_iff_eq_none] at passed
      exact passed.1
  | _ => exact ⟨trivial, trivial⟩

def boxClaimed : List Action :=
  [.boot, .beginOperation 0 stopBox "" 10, .insert 0 .ok, .remember 0, .tick 0 [boxID], .claim 1 11,
    .write 1 .ok, .store 1]

def boxFinished : List Action := [.finish 1 (.ok none) 15, .write 1 .ok, .store 1]

theorem operation_life_cycle_finished : ∃ w later value last, run (step boxDigest) newWorld boxClaimed = some w ∧
      run (step boxDigest) w boxFinished = some later ∧
      w.records boxID = some value ∧ later.records boxID = some last ∧
      last.status = .succeeded ∧ value.startedAt = some 11 ∧ last.startedAt = some 11 ∧
      (last.finishedAt.isSome ↔ terminalOperation last.status) := by
  refine ⟨_, _, _, _, rfl, rfl, rfl, rfl, rfl, rfl, rfl, ?_⟩
  have orderly : Guarded (step boxDigest) Orderly newWorld (boxClaimed ++ boxFinished) :=
    checked_guarded orderlyCheck orderly_check _ _ rfl
  exact (operation_life_cycle boxDigest boxClaimed boxFinished _ _ orderly rfl rfl boxID).1 _ rfl

def boxAgain : List Action :=
  [.boot, .boot, .beginOperation 0 stopBox "" 10, .insert 0 .ok, .remember 0,
    .updateOperation 0 boxID .running 5 none "" 11, .write 1 .ok, .store 1,
    .updateOperation 0 boxID .running 50 none "" 12, .write 2 .ok, .store 2,
    .sync 1 [boxID], .apply 3 false,
    .updateOperation 0 boxID .succeeded 100 none "" 13, .write 4 .ok, .store 4,
    .prune 0 boxID 30, .remove 5 .ok, .forget 5,
    .beginOperation 0 stopBox "" 40, .insert 6 .ok, .remember 6,
    .updateOperation 0 boxID .running 5 none "" 41, .write 7 .ok, .store 7,
    .updateOperation 0 boxID .succeeded 100 none "" 42, .write 8 .ok, .store 8]

/-- An operation begun with a FinishedAt is stored queued and finished. And the update replica 1 makes
    of its old copy goes over the operation that has succeeded. -/
theorem operation_life_cycle_fails : (∃ w value, run (step boxDigest) newWorld
        [.boot, .beginOperation 0 { stopBox with finishedAt := some 3 } "" 10, .insert 0 .ok] = some w ∧
      w.records boxID = some value ∧ value.status = .queued ∧ value.finishedAt = some 3) ∧
    ∃ w later value last, run (step boxDigest) newWorld boxAgain = some w ∧
      run (step boxDigest) w [.updateOperation 1 boxID .failed 100 none "stopped" 43, .write 9 .ok] = some later ∧
      w.records boxID = some value ∧ later.records boxID = some last ∧
      later.incarnation boxID = w.incarnation boxID ∧ value.status = .succeeded ∧
      last.status = .failed ∧ value.startedAt = some 41 ∧ last.startedAt = some 11 := by
  refine ⟨⟨_, _, rfl, rfl, rfl, rfl⟩, ?_⟩
  exact ⟨_, _, _, _, rfl, rfl, rfl, rfl, rfl, rfl, rfl, rfl, rfl⟩

end PieRelay.OperationLifecycle
