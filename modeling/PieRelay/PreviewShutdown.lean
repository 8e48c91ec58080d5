import PieRelay.PreviewService

/-!
Previews that should not run any more: their integration, binding or project is not active, or
they have expired. A reconcile pass, `Stop` and `Delete` end them through `PutPreview`, which takes
no record of an integration that is not active or of a project that is not ready. The pass also
leaves alone what is failed, and a preview that is stopping unless it has expired.
-/
namespace PieRelay.PreviewShutdown
open ControlPlane (demand found demand_ok found_ok validID)
open Function
open IntegrationRecords
open PreviewRecords
open PreviewService
open RelayToken (bind_ok)
open RoomRegistry (Time)

def idle (s : Service) (now : Time) (value : Preview) : Bool :=
  ¬ (s.integrations.lookup value.integrationID).any (fun integration => integration.status = .active) ∨
    ¬ (s.projects.lookup value.projectID).any (fun project => project.status = .ready) ∨
    ¬ (s.integrationUsers.lookup value.integrationUserID).any (fun binding => binding.status = .ready) ∨
    expired now value

def accepting (s : Service) (value : Preview) : Bool :=
  (s.integrations.lookup value.integrationID).any (fun integration => integration.status = .active) ∧
    (s.projects.lookup value.projectID).any (fun project => project.status = .ready) ∧
    (s.integrationUsers.lookup value.integrationUserID).isSome

/-- A preview in maps as `PutPreview` leaves them: it is stored under its id, its texts are trimmed and valid, it belongs to
    its binding and its project, it is indexed, and while it is active no other active preview of
    its user has its port. -/
structure Kept (s : Service) (value : Preview) : Prop where
  filed : ∀ id other, s.previews.lookup id = some other → other.id = id
  stored : s.previews.lookup value.id = some value
  trimmed : trimmed value = value
  valid : validPreview value
  binding : ∀ binding, s.integrationUsers.lookup value.integrationUserID = some binding →
    binding.integrationID = value.integrationID ∧ binding.ownerUserID = value.ownerUserID
  project : ∀ project, s.projects.lookup value.projectID = some project →
    project.integrationID = value.integrationID ∧ project.integrationUserID = value.integrationUserID ∧
      project.ownerUserID = value.ownerUserID
  host : s.previewIndex.hosts value.hostname = some value.id
  listed : value.id ∈ s.previewIndex.users value.integrationUserID
  others : ∀ id ∈ s.previewIndex.users value.integrationUserID, ∃ other, s.previews.lookup id = some other ∧
    other.integrationUserID = value.integrationUserID ∧
      (id ≠ value.id → activePreview value → activePreview other → other.port ≠ value.port)
  version : 1 ≤ value.version

section Put
variable {s : Service} {value next : Preview} {now : Time}

theorem named_of_kept (kept : Kept s value) : value.id ≠ "" := by
  have valid := kept.valid
  rintro empty
  rw [validPreview, empty] at valid
  revert valid
  simp [OperationStore.validRecordPart]

structure Rewrites (value next : Preview) : Prop where
  same : ∃ status lastError nextRetryAt, next = { value with status, lastError, nextRetryAt } ∧
    validPreviewStatus status ∧ lastError.utf8ByteSize ≤ 2000

def stamped (now : Time) (value next : Preview) : Preview :=
  { next with createdAt := value.createdAt, updatedAt := now, version := value.version + 1 }

theorem rewrites_valid (kept : Kept s value) (rewrites : Rewrites value next) :
    trimmed next = next ∧ validPreview next := by
  obtain ⟨status, lastError, nextRetryAt, rfl, known, short⟩ := rewrites.same
  constructor
  · calc trimmed { value with status, lastError, nextRetryAt }
        = { trimmed value with status, lastError, nextRetryAt } := rfl
      _ = { value with status, lastError, nextRetryAt } := by rw [kept.trimmed]
  · have valid := kept.valid
    simp only [validPreview, decide_eq_true_eq] at valid ⊢
    obtain ⟨path, id, integration, user, owner, project, host, backend, low, high, profile, visibility, access,
      -, -, attempts⟩ := valid
    exact ⟨path, id, integration, user, owner, project, host, backend, low, high, profile, visibility, access,
      known, short, attempts⟩

theorem ask_kept (kept : Kept s value) (rewrites : Rewrites value next) (expected : Nat) :
    (accepting s value → ∃ limit, askPreview s next expected = .ok ⟨next, expected, limit⟩) ∧
      (accepting s value = false → askPreview s next expected = .error .forbidden) := by
  obtain ⟨texts, valid⟩ := rewrites_valid kept rewrites
  obtain ⟨status, lastError, nextRetryAt, rfl, -⟩ := rewrites.same
  unfold askPreview activeIntegration accepting
  rw [texts]
  cases bound : s.integrationUsers.lookup value.integrationUserID with
  | none => simp [demand, found, valid, bound, bind, Except.bind]
  | some binding =>
    obtain ⟨sameIntegration, sameOwner⟩ := kept.binding binding bound
    cases named : s.integrations.lookup value.integrationID with
    | none => simp [demand, found, valid, bound, named, bind, Except.bind]
    | some integration =>
      cases placed : s.projects.lookup value.projectID with
      | none => 
        by_cases live : integration.status = .active <;>
        simp [demand, found, valid, bound, named, placed, live, bind, Except.bind, pure, Except.pure]
      | some project =>
        obtain ⟨ofIntegration, ofUser, ofOwner⟩ := kept.project project placed
        by_cases live : integration.status = .active <;> by_cases ready : project.status = .ready <;>
        simp [demand, found, valid, bound, named, placed, live, ready, sameIntegration, sameOwner,
          ofIntegration, ofUser, ofOwner, bind, Except.bind, pure, Except.pure]

theorem candidate_of {user id candidate : String}
    (member : candidate ∈ candidates s.previews.lookup s.previewIndex user id) {other : Preview}
    (stored : s.previews.lookup candidate = some other) :
    candidate ∈ s.previewIndex.users user ∧ other.id ≠ id ∧ activePreview other := by
  obtain ⟨listed, different, live⟩ := Finset.mem_filter.mp member
  simp only [stored, Option.getD_some] at different live
  exact ⟨listed, different, live⟩

section
variable (kept : Kept s value) (live : activePreview value)
include kept live

theorem port_free : ∀ candidate ∈ candidates s.previews.lookup s.previewIndex value.integrationUserID value.id,
      ((s.previews.lookup candidate).getD zeroPreview).port ≠ value.port := by
  intro candidate member
  obtain ⟨other, stored, -, apart⟩ := kept.others candidate (Finset.mem_filter.mp member).1
  obtain ⟨-, different, activeToo⟩ := candidate_of member stored
  rw [stored]
  exact apart (kept.filed candidate other stored ▸ different) live activeToo

/-- Whether a changed status is taken depends on the records that the preview refers to. -/
theorem put_kept (rewrites : Rewrites value next) : putPreviewRecord s now next value.version =
      if accepting s value then .ok (filed s (stamped now value next), stamped now value next)
      else .error .forbidden := by
  obtain ⟨taken, refused⟩ := ask_kept kept rewrites value.version
  unfold putPreviewRecord
  cases accepts : accepting s value with
  | false => simp [refused accepts, bind, Except.bind]
  | true =>
    obtain ⟨limit, asked⟩ := taken accepts
    obtain ⟨status, lastError, nextRetryAt, rfl, -⟩ := rewrites.same
    have path : (normalizePreviewAppPath value.appPath).getD "" = value.appPath :=
      congrArg Preview.appPath kept.trimmed
    simp only [asked, bind, Except.bind, putPreview, kept.stored, kept.host, Option.elim_some, Option.all_some,
      decide_true, demand, if_true, samePreview, path, and_self, ne_eq, not_true_eq_false, if_false, or_true,
      Option.isSome_some, true_or, pure, Except.pure]
    rw [if_pos (decide_eq_true (port_free kept live))]
    rfl

theorem filed_kept (rewrites : Rewrites value next) :
    Kept (filed s (stamped now value next)) (stamped now value next) := by
  obtain ⟨texts, valid⟩ := rewrites_valid kept rewrites
  obtain ⟨status, lastError, nextRetryAt, rfl, -⟩ := rewrites.same
  constructor
  · exact filed_filed kept.filed
  · exact AList.lookup_insert _
  · calc trimmed (stamped now value { value with status, lastError, nextRetryAt })
        = stamped now value (trimmed { value with status, lastError, nextRetryAt }) := rfl
      _ = stamped now value { value with status, lastError, nextRetryAt } := by rw [texts]
  · exact valid
  · exact kept.binding
  · exact kept.project
  · exact update_self ..
  · change value.id ∈ update s.previewIndex.users value.integrationUserID _ value.integrationUserID
    rw [update_self]
    exact Finset.mem_insert_self ..
  · intro id member
    change id ∈ update s.previewIndex.users value.integrationUserID _ value.integrationUserID at member
    rw [update_self] at member
    by_cases here : id = value.id
    · subst here
      exact ⟨_, AList.lookup_insert _, rfl, fun different => absurd rfl different⟩
    · obtain ⟨other, stored, user, apart⟩ :=
        kept.others id ((Finset.mem_insert.mp member).resolve_left here)
      exact ⟨other, (AList.lookup_insert_ne here).trans stored, user, fun _ _ => apart here live⟩
  · exact Nat.le_add_left 1 value.version

end

theorem filed_apart {record : Preview} (kept : Kept s value) (different : value.id ≠ record.id)
    (sameAs : ∀ before, s.previews.lookup record.id = some before → samePreview before record)
    (hosts : ∀ host, s.previewIndex.hosts record.hostname = some host → host = "" ∨ host = record.id)
    (ports : ∀ candidate ∈ candidates s.previews.lookup s.previewIndex record.integrationUserID record.id,
      ((s.previews.lookup candidate).getD zeroPreview).port ≠ record.port) :
    Kept (filed s record) value := by
  have lookup : (filed s record).previews.lookup value.id = s.previews.lookup value.id :=
    AList.lookup_insert_ne different
  refine ⟨filed_filed kept.filed, lookup.trans kept.stored, kept.trimmed, kept.valid, kept.binding, kept.project, ?_, ?_, ?_, kept.version⟩
  · by_cases same : value.hostname = record.hostname
    · rcases hosts value.id (same ▸ kept.host) with empty | own
      · exact absurd empty (named_of_kept kept)
      · exact absurd own different
    · exact (update_of_ne same ..).trans kept.host
  · by_cases same : value.integrationUserID = record.integrationUserID
    · change _ ∈ update s.previewIndex.users record.integrationUserID _ _
      rw [same, update_self]
      exact Finset.mem_insert_of_mem (same ▸ kept.listed)
    · change _ ∈ update s.previewIndex.users record.integrationUserID _ _
      rw [update_of_ne same]
      exact kept.listed
  · intro id member
    change id ∈ update s.previewIndex.users record.integrationUserID _ _ at member
    by_cases here : id = record.id
    · subst here
      have users : record.integrationUserID = value.integrationUserID := by
        by_cases same : value.integrationUserID = record.integrationUserID
        · exact same.symm
        · rw [update_of_ne same] at member
          obtain ⟨before, stored, user, -⟩ := kept.others record.id member
          have unchanged := sameAs before stored
          simp only [samePreview, decide_eq_true_eq] at unchanged
          exact unchanged.2.1.symm.trans user
      refine ⟨record, AList.lookup_insert _, users, fun _ live _ => ?_⟩
      have candidate : value.id ∈ candidates s.previews.lookup s.previewIndex record.integrationUserID record.id := by
        refine Finset.mem_filter.mpr ⟨users ▸ kept.listed, ?_⟩
        simp only [kept.stored, Option.getD_some]
        exact ⟨different, live⟩
      have ports := ports value.id candidate
      simp only [kept.stored, Option.getD_some] at ports
      exact ports.symm
    · have listed : id ∈ s.previewIndex.users value.integrationUserID := by
        by_cases same : value.integrationUserID = record.integrationUserID
        · rw [same, update_self] at member
          exact same ▸ (Finset.mem_insert.mp member).resolve_left here
        · rwa [update_of_ne same] at member
      obtain ⟨other, stored, rest⟩ := kept.others id listed
      exact ⟨other, (AList.lookup_insert_ne here).trans stored, rest⟩

end Put

section Others
variable {value : Preview} {w a b c : World}

structure Apart (value : Preview) (w after : World) : Prop where
  kept : Kept after.maps value
  running : value.id ∈ after.running ↔ value.id ∈ w.running
  integrations : after.maps.integrations = w.maps.integrations
  integrationUsers : after.maps.integrationUsers = w.maps.integrationUsers
  projects : after.maps.projects = w.maps.projects

variable {id : String}

theorem apart_refl (kept : Kept w.maps value) : Apart value w w := ⟨kept, Iff.rfl, rfl, rfl, rfl⟩

theorem apart_trans (first : Apart value a b) (later : Apart value b c) : Apart value a c where
  kept := later.kept
  running := later.running.trans first.running
  integrations := later.integrations.trans first.integrations
  integrationUsers := later.integrationUsers.trans first.integrationUsers
  projects := later.projects.trans first.projects

theorem attempts_taken {now : Time} {change : Change} {s after : Service} {record : Preview}
    {attempts : Nat} (updated : updateAttempts now change id s attempts = .ok (after, record)) :
    (after = s ∧ s.previews.lookup id = some record) ∨ ∃ current next, s.previews.lookup id = some current ∧ change.mutate current = some next ∧
      putPreviewRecord s now next current.version = .ok (after, record) := by
  induction attempts with
  | zero => cases updated
  | succ attempts ih =>
    unfold updateAttempts at updated
    split at updated
    · cases updated
    · next current stored =>
      split at updated
      · cases updated
        exact Or.inl ⟨rfl, stored⟩
      · next changed mutated =>
        split at updated
        · next put =>
          cases updated
          exact Or.inr ⟨current, changed, stored, mutated, put⟩
        · exact ih updated
        · cases updated

section
variable (kept : Kept w.maps value)
include kept

theorem update_apart (different : value.id ≠ id) (now : Time)
    (change : Change) : Apart value w (updatePreview now change id w).1 := by
  unfold updatePreview
  split
  · next record updated =>
    rcases attempts_taken updated with ⟨rfl, -⟩ | ⟨current, next, stored, mutated, put⟩
    · exact apart_refl kept
    · obtain ⟨rfl, own, users, hosts, ports⟩ := put_taken put
      have named : record.id = id := own.trans ((mutate_id mutated).trans (kept.filed id current stored))
      exact ⟨filed_apart kept (named ▸ different) users hosts ports, Iff.rfl, rfl, rfl, rfl⟩
  · exact apart_refl kept

theorem running_apart {running : Finset String}
    (same : value.id ∈ running ↔ value.id ∈ w.running) : Apart value w { w with running } :=
  ⟨kept, same, rfl, rfl, rfl⟩

theorem stop_process_apart (manager : Manager) {other : Preview}
    (different : value.id ≠ other.id) : Apart value w (stopProcess manager other w).1 := by
  unfold stopProcess
  split
  · exact running_apart kept ⟨Finset.mem_of_mem_erase, Finset.mem_erase_of_ne_of_mem different⟩
  · exact apart_refl kept

theorem update_id {now : Time} {change : Change} {after : World} {record : Preview} (updated : updatePreview now change id w = (after, .ok record)) : record.id = id := by
  unfold updatePreview at updated
  split at updated
  · next attempted =>
    cases updated
    rcases attempts_taken attempted with ⟨-, stored⟩ | ⟨current, next, stored, mutated, put⟩
    · exact kept.filed id record stored
    · exact (put_taken put).2.1.trans ((mutate_id mutated).trans (kept.filed id current stored))
  · cases updated

section
variable (manager : Manager) (now : Time) (different : value.id ≠ id)
include manager now different

theorem stop_preview_apart : Apart value w (stopPreview manager now id w).1 := by
  unfold stopPreview
  split
  · exact apart_refl kept
  · split
    · exact apart_refl kept
    · have first := update_apart kept different now .stopping
      split
      · next updated =>
        rw [updated] at first
        exact first
      · next middle record updated =>
        have named := update_id kept updated
        rw [updated] at first
        split
        · exact first
        · have stopped := stop_process_apart first.kept manager (named ▸ different)
          have last := update_apart stopped.kept different now (.stopped (stopProcess manager record middle).2)
          have whole := apart_trans first (apart_trans stopped last)
          dsimp only
          split <;> rename_i ended <;> rw [ended] at whole <;> exact whole

theorem stop_apart : Apart value w (stop manager now id w).1 := by
  unfold stop
  split
  · exact stop_preview_apart kept manager now different
  · exact apart_refl kept

theorem reconcile_locked_apart : Apart value w (reconcileOneLocked manager now id w) := by
  unfold reconcileOneLocked
  split
  · exact apart_refl kept
  · next other stored =>
    have named := kept.filed id other stored
    split
    · exact apart_refl kept
    · have stopped := stop_process_apart kept manager (named ▸ different)
      split <;> rename_i ended <;> rw [ended] at stopped <;>
        exact apart_trans stopped (update_apart stopped.kept different now _)
    · exact update_apart kept different now _
    · split
      · exact update_apart kept different now _
      · exact update_apart kept different now _
      · have launched : Apart value w { w with running := insert id w.running } :=
          running_apart kept ⟨fun member => (Finset.mem_insert.mp member).resolve_left different,
            Finset.mem_insert_of_mem⟩
        dsimp only
        split <;> exact apart_trans launched (update_apart launched.kept different now _)

theorem reconcile_one_apart : Apart value w (reconcileOne manager now id w) := by
  unfold reconcileOne
  split
  · exact reconcile_locked_apart kept manager now different
  · exact apart_refl kept

end

theorem visit_apart (manager : Manager) (clock : String → Time)
    (slots : String → String) {other : Preview} (different : value.id ≠ other.id) :
    Apart value w (visit manager clock (slots, w) other).2 := by
  unfold visit
  dsimp only
  split
  · exact apart_refl kept
  · split
    · exact stop_apart kept manager _ different
    · split
      · exact stop_apart kept manager _ different
      · exact reconcile_one_apart kept manager _ different

theorem visits_apart (manager : Manager) (clock : String → Time)
    (slots : String → String) {others : List Preview} (different : ∀ other ∈ others, value.id ≠ other.id) :
    Apart value w (others.foldl (visit manager clock) (slots, w)).2 := by
  induction others generalizing slots w with
  | nil => exact apart_refl kept
  | cons other rest ih =>
    have first := visit_apart kept manager clock slots (different other List.mem_cons_self)
    have later := ih first.kept (visit manager clock (slots, w) other).1
      fun next member => different next (List.mem_cons_of_mem other member)
    exact apart_trans first later

end

end Others

section Slots
variable (manager : Manager) (clock : String → Time)

theorem visit_slots (slots : String → String) (w : World) (value : Preview) : (visit manager clock (slots, w) value).1 =
    if activePreview value ∧ (slots (slotOf value) = "" ∨ slots (slotOf value) = value.id) then
      update slots (slotOf value) value.id
    else slots := by
  unfold visit
  dsimp only
  by_cases live : activePreview value
  · rw [if_neg (not_not_intro live)]
    by_cases taken : slots (slotOf value) ≠ "" ∧ slots (slotOf value) ≠ value.id
    · rw [if_pos taken, if_neg fun both => both.2.elim taken.1 taken.2]
    · have first : slots (slotOf value) = "" ∨ slots (slotOf value) = value.id := by tauto
      rw [if_neg taken, if_pos (And.intro live first)]
      split <;> rfl
  · rw [if_pos live, if_neg fun both => live both.1]

theorem visits_slots (slots : String → String) (w : World) (others : List Preview) (slot : String) :
    let after := (others.foldl (visit manager clock) (slots, w)).1 slot
    (after ≠ "" ↔ slots slot ≠ "" ∨ ∃ other ∈ others, activePreview other ∧ other.id ≠ "" ∧ slotOf other = slot) ∧
      (after = slots slot ∨ ∃ other ∈ others, after = other.id) := by
  induction others generalizing slots w with
  | nil => simp
  | cons other rest ih =>
    obtain ⟨taken, source⟩ := ih (visit manager clock (slots, w) other).1 (visit manager clock (slots, w) other).2
    have first : ((visit manager clock (slots, w) other).1 slot ≠ "" ↔
        slots slot ≠ "" ∨ (activePreview other ∧ other.id ≠ "" ∧ slotOf other = slot)) ∧
        ((visit manager clock (slots, w) other).1 slot = slots slot ∨
          (visit manager clock (slots, w) other).1 slot = other.id) := by
      rw [visit_slots]
      split
      · next vacant =>
        by_cases here : slot = slotOf other
        · subst here
          rw [update_self]
          refine ⟨⟨fun named => Or.inr ⟨vacant.1, named, rfl⟩, ?_⟩, Or.inr rfl⟩
          rintro (known | ⟨-, named, -⟩)
          · exact vacant.2.elim (absurd · known) fun same => same ▸ known
          · exact named
        · rw [update_of_ne here]
          exact ⟨⟨Or.inl, fun known => known.resolve_right fun both => here both.2.2.symm⟩, Or.inl rfl⟩
      · next shut =>
        refine ⟨⟨Or.inl, ?_⟩, Or.inl rfl⟩
        rintro (known | ⟨live, -, rfl⟩)
        · exact known
        · intro empty
          exact shut ⟨live, Or.inl empty⟩
    constructor
    · rw [List.foldl_cons]
      refine taken.trans ?_
      rw [first.1, or_assoc]
      simp only [List.mem_cons, exists_eq_or_imp]
    · rw [List.foldl_cons]
      rcases source with same | ⟨next, member, same⟩
      · rcases first.2 with kept | new
        · exact Or.inl (same.trans kept)
        · exact Or.inr ⟨other, List.mem_cons_self, same.trans new⟩
      · exact Or.inr ⟨next, List.mem_cons_of_mem other member, same⟩

end Slots

section Own
variable (manager : Manager) {value next : Preview} {w : World} (now : Time)

theorem accepting_filed {s : Service} (rewrites : Rewrites value next) :
    accepting (filed s (stamped now value next)) (stamped now value next) = accepting s value := by
  obtain ⟨status, lastError, nextRetryAt, rfl, -⟩ := rewrites.same
  rfl

theorem update_kept (kept : Kept w.maps value) (live : activePreview value) {change : Change}
    (mutated : change.mutate value = some next) (rewrites : Rewrites value next) :
    updatePreview now change value.id w =
      if accepting w.maps value then
        ({ w with maps := filed w.maps (stamped now value next) }, .ok (stamped now value next))
      else (w, .error .forbidden) := by
  simp only [updatePreview, updateAttempts, kept.stored, mutated, put_kept kept live rewrites]
  cases accepting w.maps value <;> rfl

structure Ended (value : Preview) (w after : World) (record : Preview) : Prop where
  id : record.id = value.id
  status : record.status = .stopped
  kept : Kept after.maps record
  running : after.running = w.running.erase value.id

theorem stop_preview_kept (kept : Kept w.maps value) (live : activePreview value)
    (answers : ∀ userID id, manager.stopPreview userID id = none) :
    if accepting w.maps value then
      ∃ after record, stopPreview manager now value.id w = (after, .ok record) ∧ Ended value w after record
    else stopPreview manager now value.id w = (w, .error [.control .forbidden]) := by
  have running : value.status ≠ .stopped := by
    simp only [activePreview, decide_eq_true_eq] at live
    exact live.1
  let stopping : Preview := { value with status := .stopping, lastError := "" }
  have rewrites : Rewrites value stopping := ⟨_, _, _, rfl, rfl, by decide⟩
  have mutated : Change.stopping.mutate value = some stopping := by simp [Change.mutate, running, stopping]
  have first := update_kept now kept live mutated rewrites
  split
  · next accepts =>
    rw [if_pos accepts] at first
    let middle : Preview := stamped now value stopping
    have there : Kept (filed w.maps middle) middle := filed_kept kept live rewrites
    let stopped : Preview := { middle with status := .stopped, lastError := "" }
    have again : Rewrites middle stopped := ⟨_, _, _, rfl, rfl, by decide⟩
    have finishes : (Change.stopped none).mutate middle = some stopped := rfl
    have second := update_kept (w := ⟨filed w.maps middle, w.running.erase value.id⟩) now there rfl finishes again
    rw [if_pos ((accepting_filed now rewrites).trans accepts)] at second
    refine ⟨⟨filed (filed w.maps middle) (stamped now middle stopped), w.running.erase value.id⟩,
      stamped now middle stopped, ?_, rfl, rfl, filed_kept there rfl again, rfl⟩
    have unstopped : (stamped now value stopping).status ≠ .stopped := nofun
    simp only [stopPreview, kept.stored, if_neg running, first, if_neg unstopped, stopProcess, answers]
    exact second ▸ rfl
  · next refuses =>
    rw [if_neg refuses] at first
    simp only [stopPreview, kept.stored, if_neg running, first]

theorem stop_kept (kept : Kept w.maps value) : stop manager now value.id w = stopPreview manager now value.id w := by
  have valid := kept.valid
  simp only [validPreview, decide_eq_true_eq] at valid
  exact if_pos valid.2.1

theorem delete_record_kept {s : Service} (kept : Kept s value) :
    ∃ after, deletePreview s value.id value.version = .ok after := by
  have valid := kept.valid
  simp only [validPreview, decide_eq_true_eq] at valid
  have named : validID value.id := valid.2.1
  simp [deletePreview, demand, found, kept.stored, kept.version, named, bind, Except.bind, pure, Except.pure]

theorem delete_kept (kept : Kept w.maps value) (answers : ∀ userID id, manager.stopPreview userID id = none) :
    (∃ after record, delete manager now value.id w = (after, .ok record)) ↔
      activePreview value = false ∨ accepting w.maps value := by
  have valid := kept.valid
  simp only [validPreview, decide_eq_true_eq] at valid
  have named : validID value.id := valid.2.1
  cases live : activePreview value with
  | false =>
    have done : value.status = .stopped ∨ value.status = .failed := by
      simp only [activePreview, decide_eq_false_iff_not] at live
      tauto
    obtain ⟨after, deleted⟩ := delete_record_kept kept
    simp [delete, if_pos named, kept.stored, quiet, if_pos done, stopProcess, answers, deleted]
  | true =>
    have unfinished : ¬ (value.status = .stopped ∨ value.status = .failed) := by
      simp only [activePreview, decide_eq_true_eq] at live
      tauto
    have stopped := stop_preview_kept manager now kept live answers
    cases accepts : accepting w.maps value with
    | false =>
      rw [accepts, if_neg Bool.false_ne_true] at stopped
      simp [delete, if_pos named, kept.stored, quiet, if_neg unfinished, stopped]
    | true =>
      rw [accepts, if_pos rfl] at stopped
      obtain ⟨after, record, done, ended⟩ := stopped
      obtain ⟨maps, deleted⟩ := delete_record_kept ended.kept
      simp [delete, if_pos named, kept.stored, quiet, if_neg unfinished, done, deleted]

/-- What the reconciler does to a preview that should not run and has not expired. -/
theorem reconcile_one_kept (kept : Kept w.maps value) (live : activePreview value)
    (answers : ∀ userID id, manager.stopPreview userID id = none) (unexpired : expired now value = false)
    (useless : idle w.maps now value) :
    if value.status = .stopping then reconcileOne manager now value.id w = w
    else if accepting w.maps value then
      ∃ record, Ended value w (reconcileOne manager now value.id w) record
    else (reconcileOne manager now value.id w).maps = w.maps := by
  have valid := kept.valid
  simp only [validPreview, decide_eq_true_eq] at valid
  have named : validID value.id := valid.2.1
  simp only [activePreview, decide_eq_true_eq] at live
  have inactive : ¬ active w.maps value := by
    intro fine
    simp only [active, Option.any_eq_true, decide_eq_true_eq] at fine
    obtain ⟨integration, ⟨binding, bound, ready, -⟩, project, placed, done, -⟩ := fine
    simp only [idle, unexpired, Bool.false_eq_true, or_false, decide_eq_true_eq, Option.any_eq_true] at useless
    rcases useless with none | none | none
    · exact none integration
    · exact none ⟨project, placed, done⟩
    · exact none ⟨binding, bound, ready⟩
  split
  · next stopping =>
    simp [reconcileOne, reconcileOneLocked, kept.stored, reconcileDecision, stopping]
  · next unstopping =>
    have decision : reconcileDecision w.maps now value = .shutDown := by
      simp [reconcileDecision, unstopping, live, inactive]
    let stopped : Preview := { value with status := .stopped, nextRetryAt := none, lastError := inactiveText }
    have rewrites : Rewrites value stopped := ⟨_, _, _, rfl, rfl, by decide⟩
    have mutated : (Change.inactive inactiveText).mutate value = some stopped := by
      simp [Change.mutate, live, stopped]
    have updated := update_kept (w := { w with running := w.running.erase value.id }) now kept
      (decide_eq_true live) mutated rewrites
    have outcome : reconcileOne manager now value.id w = (updatePreview now (.inactive inactiveText) value.id
          { w with running := w.running.erase value.id }).1 := by
      simp only [reconcileOne, if_pos named, reconcileOneLocked, kept.stored, decision, stopProcess, answers]
    rw [outcome, updated]
    split
    · exact ⟨stamped now value stopped, rfl, rfl, filed_kept kept (decide_eq_true live) rewrites, rfl⟩
    · rfl

end Own

def Listing (s : Service) (values : List Preview) : Prop :=
  values.Perm (s.previews.entries.map Sigma.snd) ∧ values.Pairwise fun a b => b.createdAt ≤ a.createdAt

def duplicate (values : List Preview) (value : Preview) : Bool :=
  (values.takeWhile fun other => other.id ≠ value.id).any fun other =>
    activePreview other ∧ other.id ≠ "" ∧ slotOf other = slotOf value

def ShutDown (w : World) (id : String) : Prop :=
  (∃ record, w.maps.previews.lookup id = some record ∧ record.status = .stopped) ∧ id ∉ w.running

def stoppable (clock : String → Time) (values : List Preview) (w : World) (value : Preview) : Bool :=
  if value.status = .stopped then value.id ∉ w.running
  else value.status ≠ .failed ∧ accepting w.maps value ∧
    (value.status = .stopping → expired (clock value.id) value ∨ duplicate values value)

section Pass
variable {manager : Manager} {clock : String → Time} {w : World} {value : Preview} {values : List Preview}

section
variable (kept : Kept w.maps value)
include kept

theorem listing_split (listing : Listing w.maps values) :
    ∃ before after, values = before ++ value :: after ∧ (∀ other ∈ before, value.id ≠ other.id) ∧
      (∀ other ∈ after, value.id ≠ other.id) ∧
      values.takeWhile (fun other => other.id ≠ value.id) = before := by
  have member : value ∈ values := by
    refine listing.1.mem_iff.mpr (List.mem_map.mpr ⟨⟨value.id, value⟩, ?_, rfl⟩)
    exact AList.mem_lookup_iff.mp kept.stored
  have ids : (values.map Preview.id).Nodup := by
    have keys : (w.maps.previews.entries.map Sigma.snd).map Preview.id = w.maps.previews.keys := by
      rw [List.map_map]
      refine List.map_congr_left fun entry inside => ?_
      exact kept.filed entry.1 entry.2 (AList.mem_lookup_iff.mpr inside)
    exact (listing.1.map Preview.id).nodup_iff.mpr (keys ▸ w.maps.previews.keys_nodup)
  obtain ⟨before, after, rfl⟩ := List.append_of_mem member
  rw [List.map_append, List.map_cons, List.nodup_append] at ids
  obtain ⟨-, tail, apart⟩ := ids
  have front : ∀ other ∈ before, value.id ≠ other.id := fun other inside same =>
    apart other.id (List.mem_map_of_mem inside) value.id List.mem_cons_self same.symm
  refine ⟨before, after, rfl, front, fun other inside same => ?_, ?_⟩
  · exact (List.nodup_cons.mp tail).1 (same ▸ List.mem_map_of_mem inside)
  · rw [List.takeWhile_append_of_pos fun other inside => decide_eq_true (front other inside).symm]
    simp

section
variable (live : activePreview value) (answers : ∀ userID id, manager.stopPreview userID id = none)
include live answers

/-- What a pass comes to, when it comes to the preview. -/
theorem visit_kept (useless : idle w.maps (clock value.id) value) (slots : String → String) (twice : Bool)
    (taken : slots (slotOf value) ≠ "" ∧ slots (slotOf value) ≠ value.id ↔ twice) :
    if (value.status = .stopping → expired (clock value.id) value ∨ twice) ∧ accepting w.maps value then
      ∃ record, Ended value w (visit manager clock (slots, w) value).2 record
    else Kept (visit manager clock (slots, w) value).2.maps value := by
  have stopped := stop_preview_kept manager (clock value.id) kept live answers
  rw [← stop_kept manager (clock value.id) kept] at stopped
  have visited : (visit manager clock (slots, w) value).2 =
      if twice ∨ expired (clock value.id) value then (stop manager (clock value.id) value.id w).1
      else reconcileOne manager (clock value.id) value.id w := by
    unfold visit
    dsimp only
    rw [if_neg (not_not_intro live)]
    by_cases again : twice
    · rw [if_pos (taken.mpr again), if_pos (Or.inl again)]
    · rw [if_neg fun both => again (taken.mp both)]
      by_cases late : expired (clock value.id) value
      · rw [if_pos late, if_pos (Or.inr late)]
      · rw [if_neg late, if_neg fun either => either.elim again late]
  rw [visited]
  by_cases ending : twice ∨ expired (clock value.id) value
  · rw [if_pos ending]
    cases accepts : accepting w.maps value with
    | true =>
      rw [accepts, if_pos rfl] at stopped
      obtain ⟨after, record, done, ended⟩ := stopped
      rw [if_pos ⟨fun _ => ending.symm, rfl⟩, done]
      exact ⟨record, ended⟩
    | false =>
      rw [accepts, if_neg Bool.false_ne_true] at stopped
      rw [if_neg fun both => Bool.false_ne_true both.2, stopped]
      exact kept
  · rw [if_neg ending]
    have unexpired : expired (clock value.id) value = false := by
      rw [← Bool.not_eq_true]
      exact fun passed => ending (Or.inr passed)
    have reconciled := reconcile_one_kept manager (clock value.id) kept live answers unexpired useless
    by_cases stopping : value.status = .stopping
    · rw [if_pos stopping] at reconciled
      rw [if_neg fun both => ending ((both.1 stopping).symm), reconciled]
      exact kept
    · rw [if_neg stopping] at reconciled
      cases accepts : accepting w.maps value with
      | true =>
        rw [accepts, if_pos rfl] at reconciled
        rw [if_pos ⟨fun same => absurd same stopping, rfl⟩]
        exact reconciled
      | false =>
        rw [accepts, if_neg Bool.false_ne_true] at reconciled
        rw [if_neg fun both => Bool.false_ne_true both.2, reconciled]
        exact kept

theorem reconcile_live (listing : Listing w.maps values) (useless : idle w.maps (clock value.id) value) :
    ShutDown (reconcile manager clock values w) value.id ↔
      (value.status = .stopping → expired (clock value.id) value ∨ duplicate values value) ∧
        accepting w.maps value := by
  obtain ⟨before, after, rfl, front, back, earlier⟩ := listing_split kept listing
  -- the pass before it comes to the preview
  let state := before.foldl (visit manager clock) (fun _ => "", w)
  have first : Apart value w state.2 := visits_apart kept manager clock _ front
  obtain ⟨vacant, source⟩ := visits_slots manager clock (fun _ => "") w before (slotOf value)
  have taken : state.1 (slotOf value) ≠ "" ∧ state.1 (slotOf value) ≠ value.id ↔
      duplicate (before ++ value :: after) value := by
    rw [duplicate, earlier, List.any_eq_true]
    simp only [decide_eq_true_eq]
    constructor
    · exact fun both => (vacant.mp both.1).resolve_left (absurd rfl)
    · intro younger
      have other := vacant.mpr (Or.inr younger)
      refine ⟨other, fun same => ?_⟩
      rcases source with empty | ⟨owner, inside, own⟩
      · exact other empty
      · exact front owner inside (same.symm.trans own)
  have useless : idle state.2.maps (clock value.id) value := by
    rw [idle, first.integrations, first.projects, first.integrationUsers]
    exact useless
  have accepts : accepting state.2.maps value = accepting w.maps value := by
    rw [accepting, first.integrations, first.projects, first.integrationUsers]
    rfl
  have visited := visit_kept first.kept live answers useless state.1 _ taken
  have passed : reconcile manager clock (before ++ value :: after) w =
      (after.foldl (visit manager clock) (visit manager clock state value)).2 := by
    rw [reconcile, List.foldl_append, List.foldl_cons]
  rw [passed]
  rw [accepts] at visited
  split at visited
  · next ends =>
    obtain ⟨record, ended⟩ := visited
    have last := visits_apart ended.kept manager clock (visit manager clock state value).1
      (fun other inside => ended.id ▸ back other inside)
    refine iff_of_true ⟨⟨record, ended.id ▸ last.kept.stored, ended.status⟩, ?_⟩ ends
    rw [← ended.id, last.running, ended.running, ended.id]
    exact Finset.notMem_erase value.id state.2.running
  · next stays =>
    have last := visits_apart visited manager clock (visit manager clock state value).1 back
    refine iff_of_false ?_ stays
    rintro ⟨⟨record, stored, stopped⟩, -⟩
    cases last.kept.stored.symm.trans stored
    simp [activePreview, stopped] at live

end

theorem reconcile_done (done : activePreview value = false) (listing : Listing w.maps values) :
    ShutDown (reconcile manager clock values w) value.id ↔ value.status = .stopped ∧ value.id ∉ w.running := by
  obtain ⟨before, after, rfl, front, back, -⟩ := listing_split kept listing
  let state := before.foldl (visit manager clock) (fun _ => "", w)
  have first : Apart value w state.2 := visits_apart kept manager clock _ front
  have visited : visit manager clock state value = state := by
    unfold visit
    simp [done]
  have last := visits_apart first.kept manager clock state.1 back
  have passed : reconcile manager clock (before ++ value :: after) w = (after.foldl (visit manager clock) state).2 := by
    rw [reconcile, List.foldl_append, List.foldl_cons, visited]
  rw [passed]
  unfold ShutDown
  rw [last.running, first.running, last.kept.stored]
  simp

end

/-- A reconcile pass ends a preview that should not run, and `Stop` and `Delete` succeed, exactly when
    `PutPreview` takes its records and the pass does not leave its status alone. -/
theorem shut_down_iff (manager : Manager) (clock : String → Time) (now : Time) (w : World) (values : List Preview)
    (value : Preview) (answers : ∀ userID id, manager.stopPreview userID id = none) (kept : Kept w.maps value)
    (listing : Listing w.maps values) (useless : idle w.maps (clock value.id) value) :
    (ShutDown (reconcile manager clock values w) value.id ∧
        (∃ after record, stop manager now value.id w = (after, .ok record)) ∧
        ∃ after record, delete manager now value.id w = (after, .ok record)) ↔
      stoppable clock values w value := by
  rw [delete_kept manager now kept answers, stop_kept manager now kept]
  unfold stoppable
  cases live : activePreview value with
  | false =>
    rw [reconcile_done kept live listing]
    by_cases stopped : value.status = .stopped
    · have done : stopPreview manager now value.id w = (w, .ok value) := by
        simp only [stopPreview, kept.stored, if_pos stopped]
      simp [stopped, done]
    · have failed : value.status = .failed := by
        simp only [activePreview, decide_eq_false_iff_not] at live
        tauto
      simp [failed]
  | true =>
    rw [reconcile_live kept live answers listing useless]
    have ends := stop_preview_kept manager now kept live answers
    simp only [activePreview, decide_eq_true_eq] at live
    rw [if_neg live.1]
    cases accepts : accepting w.maps value with
    | false => simp
    | true =>
      rw [accepts, if_pos rfl] at ends
      obtain ⟨after, record, done, -⟩ := ends
      simp [live.2, done, imp_iff_not_or]

end Pass

def acme (status : IntegrationStatus) : Integration := ⟨"acme", status, 10, 10, 4, 4⟩

def bindingOf (status : IntegrationUserStatus) : IntegrationUser :=
  ⟨"u1", "acme", "ext", "owner", status, 1, 1, 1⟩

def shop : IntegrationRecords.Project :=
  ⟨"p1", "acme", "u1", "owner", "shop", "en", "/workspace/projects/p1", "", .ready, "", 1, 1, 1⟩

def site : Preview :=
  ⟨"v1", "acme", "u1", "owner", "p1", ".", "p-a.preview.test", "exec-1", 20000, "auto", "private", 1, .ready, "", 0,
    none, none, none, 1, 1, 1⟩

def records (integration : IntegrationStatus) (binding : IntegrationUserStatus) : Service where
  integrations := AList.singleton "acme" (acme integration)
  users := ∅
  devices := ∅
  sessions := ∅
  integrationUsers := AList.singleton "u1" (bindingOf binding)
  projects := AList.singleton "p1" shop
  conversations := ∅
  previews := ∅
  previewIndex := emptyIndex

def serving (integration : IntegrationStatus) (binding : IntegrationUserStatus) : World :=
  ⟨filed (records integration binding) site, {"v1"}⟩

def obedient : Manager where
  ensurePreviewNetwork _ := .ok "exec-1"
  startPreview _ _ := none
  stopPreview _ _ := none
  observePreviews _ := .ok [⟨"v1", "running", true, ""⟩]

theorem serving_kept (integration : IntegrationStatus) (binding : IntegrationUserStatus) :
    Kept (serving integration binding).maps site where
  filed := filed_filed fun _ _ stored => by cases stored
  stored := AList.lookup_insert _
  trimmed := by decide +kernel
  valid := by decide +kernel
  binding _ bound := by
    cases bound
    exact ⟨rfl, rfl⟩
  project _ placed := by
    cases placed
    exact ⟨rfl, rfl, rfl⟩
  host := rfl
  listed := Finset.mem_insert_self ..
  others id member := by
    have own : id = "v1" := by
      rcases Finset.mem_insert.mp member with own | none
      · exact own
      · exact absurd none (Finset.notMem_empty id)
    subst own
    exact ⟨site, AList.lookup_insert _, rfl, absurd rfl⟩
  version := le_refl 1

/-- The binding is suspended. -/
theorem suspended_shut_down : idle (serving .active .suspended).maps 5 site ∧
      ShutDown (reconcile obedient (fun _ => 5) [site] (serving .active .suspended)) "v1" := by
  have useless : idle (serving .active .suspended).maps 5 site := by decide +kernel
  have ends := (shut_down_iff obedient (fun _ => 5) 5 (serving .active .suspended) [site] site (fun _ _ => rfl)
    (serving_kept ..) ⟨List.Perm.refl _, List.pairwise_singleton ..⟩ useless).mpr (by decide +kernel)
  exact ⟨useless, ends.1⟩

/-- The integration is disabled: nobody can stop its preview. -/
theorem disabled_not_stopped :
    ¬ ∀ (manager : Manager) (clock : String → Time) (now : Time) (w : World) (values : List Preview)
      (value : Preview), (∀ userID id, manager.stopPreview userID id = none) → Kept w.maps value →
      Listing w.maps values → idle w.maps (clock value.id) value →
      ShutDown (reconcile manager clock values w) value.id ∧
        (∃ after record, stop manager now value.id w = (after, .ok record)) ∧
        ∃ after record, delete manager now value.id w = (after, .ok record) := by
  intro always
  obtain ⟨⟨⟨record, stored, stopped⟩, -⟩, -⟩ := always obedient (fun _ => 5) 5 (serving .disabled .ready) [site] site
    (fun _ _ => rfl) (serving_kept ..) ⟨List.Perm.refl _, List.pairwise_singleton ..⟩ (by decide +kernel)
  have ready : ((reconcile obedient (fun _ => 5) [site] (serving .disabled .ready)).maps.previews.lookup "v1").map
      Preview.status = some .ready := by decide +kernel
  rw [show site.id = "v1" from rfl] at stored
  rw [stored, Option.map_some, stopped] at ready
  cases ready

end PieRelay.PreviewShutdown
