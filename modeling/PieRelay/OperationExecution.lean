import PieRelay.OperationLifecycle

/-!
How often an operation is executed, `dispatchOperations` and `runOperation` of
executor-manager/internal/controller/controller.go. A goroutine claims its operation by
`UpdateOperation` to "running" and then enters `executeOperation`. The update is refused
only for a terminal copy: one that is running already can be claimed again, by a second
tick of the same replica or by a replica that has refreshed in between.
-/
namespace PieRelay.OperationExecution
open Function Executions RoomRegistry OperationStore OperationSteps OperationLifecycle List Option

section Runs
variable {digest : String → String}

def claimed : Call → Option String
  | .updated _ id _ true => some id
  | _ => none

def claiming : Call → Option Operation
  | .updating _ _ before _ true => some before
  | _ => none

def Unclaiming (call : Call) : Prop :=
  claimed call = none ∧ ∀ before, claiming call = some before → before.status = .queued

variable {w next : World}

theorem plain_unclaiming {call : Call} (held : claimed call = none) (read : claiming call = none) :
    Unclaiming call := by
  refine ⟨held, fun before found => ?_⟩
  rw [read] at found
  cases found

inductive ClaimChange (w next : World) : Prop where
  | quiet (started : next.started = w.started)
      (held : ∀ (index : Nat) (call : Call) (id : String), next.calls[index]? = some call →
        claimed call = some id → w.calls[index]? = some call)
      (read : ∀ (index : Nat) (call : Call) (before : Operation), next.calls[index]? = some call →
        claiming call = some before → w.calls[index]? = some call ∨ before.status = .queued) :
      ClaimChange w next
  | committed (index replica : Nat) (id : String) (before value stored : Operation)
      (waiting : w.calls[index]? = some (.updating replica id before value true))
      (found : w.records id = some stored) (version : stored.version = before.version)
      (records : next.records id = some (encode value)) (started : next.started = w.started)
      (calls : next.calls = w.calls.set index (.updated replica id value true)) : ClaimChange w next
  | executed (index replica : Nat) (id : String) (value : Operation)
      (waiting : w.calls[index]? = some (.updated replica id value true))
      (started : next.started = id :: w.started)
      (calls : next.calls = w.calls.set index (.executing replica id)) : ClaimChange w next

theorem set_cases {calls : List Call} {index other : Nat} {call found : Call}
    (here : (calls.set index call)[other]? = some found) :
    (other = index ∧ found = call) ∨ (other ≠ index ∧ calls[other]? = some found) := by
  rw [getElem?_set] at here
  split at here
  · rename_i same
    split at here
    · exact Or.inl ⟨same.symm, (some.inj here).symm⟩
    · cases here
  · rename_i different
    exact Or.inr ⟨fun same => different same.symm, here⟩

theorem set_unclaiming (index : Nat) (call : Call) (plain : Unclaiming call)
    (started : next.started = w.started) (calls : next.calls = w.calls.set index call) : ClaimChange w next := by
  refine .quiet started ?_ ?_
  · intro other found id here held
    rw [calls] at here
    rcases set_cases here with ⟨_, rfl⟩ | ⟨_, old⟩
    · rw [plain.1] at held
      cases held
    · exact old
  · intro other found before here read
    rw [calls] at here
    rcases set_cases here with ⟨_, rfl⟩ | ⟨_, old⟩
    · exact Or.inr (plain.2 before read)
    · exact Or.inl old

theorem append_unclaiming (added : List Call) (plain : ∀ call ∈ added, Unclaiming call)
    (started : next.started = w.started) (calls : next.calls = w.calls ++ added) : ClaimChange w next := by
  have split : ∀ (index : Nat) (call : Call), next.calls[index]? = some call →
      w.calls[index]? = some call ∨ call ∈ added := by
    intro index call found
    rw [calls, getElem?_append] at found
    split at found
    · exact Or.inl found
    · exact Or.inr (mem_of_getElem? found)
  refine .quiet started ?_ ?_
  · intro index call id here held
    rcases split index call here with old | new
    · exact old
    · rw [(plain call new).1] at held
      cases held
  · intro index call before here read
    rcases split index call here with old | new
    · exact Or.inl old
    · exact Or.inr ((plain call new).2 before read)

theorem read_unclaiming (replica : Replica) (index : Nat) (id : String) (status : Status)
    (progress : Int) (result : GoMap) (error : String) (now : Time) :
    Unclaiming (readUpdate replica index id status progress result error now false) := by
  unfold readUpdate
  split
  · exact plain_unclaiming rfl rfl
  · split
    · exact plain_unclaiming rfl rfl
    · split <;> exact plain_unclaiming rfl rfl

def Unstarted (w : World) : Action → Prop
  | .claim index _ => ∀ replica id maps value, w.calls[index]? = some (.spawned replica id) →
      w.replicas[replica]? = some maps → maps.operations id = some value → value.status ≠ .running
  | _ => True

theorem claim_unclaiming (replica : Replica) (index : Nat) (id : String) (progress : Int)
    (result : GoMap) (error : String) (now : Time)
    (unstarted : ∀ value, replica.operations id = some value → value.status ≠ .running) :
    Unclaiming (readUpdate replica index id .running progress result error now true) := by
  unfold readUpdate
  split
  · exact plain_unclaiming rfl rfl
  · split
    · exact plain_unclaiming rfl rfl
    · rename_i before found
      split
      · exact plain_unclaiming rfl rfl
      · rename_i unfinished
        refine ⟨rfl, fun earlier read => ?_⟩
        cases read
        have fresh := unstarted before found
        cases status : before.status with
        | queued => rfl
        | running => exact absurd status fresh
        | succeeded | failed | canceled => simp [status, terminalOperation] at unfinished

theorem begin_unclaiming (w : World) (index : Nat) (replica : Replica) (candidate : Operation)
    (randomID : String) (now : Time) :
    Unclaiming (beginOperation digest w index replica candidate randomID now) := by
  unfold beginOperation
  dsimp only
  split
  · exact plain_unclaiming rfl rfl
  · split <;> exact plain_unclaiming rfl rfl

theorem step_claim_change (w : World) (action : Action) (next : World) (unstarted : Unstarted w action)
    (stepped : step digest w action = some next) : ClaimChange w next := by
  have single : ∀ call : Call, Unclaiming call → ∀ other ∈ [call], Unclaiming other := by
    intro call plain other member
    rwa [mem_singleton.mp member]
  cases step_taken digest stepped with
  | booted => exact append_unclaiming [] (fun _ member => by cases member) rfl (append_nil _).symm
  | begun =>
    exact append_unclaiming _ (single _ (begin_unclaiming _ _ _ _ _ _)) rfl rfl
  | synced => exact append_unclaiming _ (single _ (plain_unclaiming rfl rfl)) rfl rfl
  | ticked =>
    refine append_unclaiming _ ?_ rfl rfl
    intro call member
    obtain ⟨id, _, rfl⟩ := mem_map.mp member
    exact plain_unclaiming rfl rfl
  | updating =>
    exact append_unclaiming _ (single _ (read_unclaiming _ _ _ _ _ _ _ _)) rfl rfl
  | pruning =>
    exact append_unclaiming _ (single _ (plain_unclaiming rfl rfl)) rfl rfl
  | inserted index reply call =>
    obtain ⟨after, moved, kinds⟩ := insert_moves w index call reply
    refine set_unclaiming index after ?_ moved.started moved.calls
    rcases kinds with rfl | ⟨answer, rfl⟩ | ⟨found, rfl⟩ <;> exact plain_unclaiming rfl rfl
  | remembered index | refreshed index | lookedUp index | forgot index =>
    exact set_unclaiming index _ (plain_unclaiming rfl rfl) rfl rfl
  | loaded index | unanswered index => exact set_unclaiming index _ (plain_unclaiming rfl rfl) rfl rfl
  | applied index more =>
    refine set_unclaiming index _ ?_ rfl rfl
    cases more <;> exact plain_unclaiming rfl rfl
  | claimed index now replica id maps waiting here =>
    refine set_unclaiming index _ ?_ rfl rfl
    exact claim_unclaiming maps replica id 5 none "" now fun value =>
      unstarted replica id maps value waiting here
  | succeeded index | failed index =>
    exact set_unclaiming index _ (read_unclaiming _ _ _ _ _ _ _ _) rfl rfl
  | wrote index reply replica id before value claim waiting =>
    obtain ⟨after, moved, rfl | ⟨rfl, ⟨stored, found, version⟩, records⟩⟩ :=
      write_moves w index replica id before value claim reply
    · exact set_unclaiming index _ (plain_unclaiming rfl rfl) moved.started moved.calls
    · cases claim with
      | true =>
        exact .committed index replica id before value stored waiting found version records moved.started moved.calls
      | false => exact set_unclaiming index _ (plain_unclaiming rfl rfl) moved.started moved.calls
  | stored index replica id value claim maps waiting =>
    cases claim with
    | true => exact .executed index replica id value waiting rfl rfl
    | false => exact set_unclaiming index .returned (plain_unclaiming rfl rfl) rfl rfl
  | removed index reply replica id current =>
    obtain ⟨after, moved, kinds⟩ := remove_moves w index replica id current reply
    refine set_unclaiming index after ?_ moved.started moved.calls
    rcases kinds with rfl | ⟨rfl, -⟩ <;> exact plain_unclaiming rfl rfl

/-- At most one goroutine stands between its claim and the execution, none after it, and an
    operation that has been claimed is no longer queued. -/
structure Claims (w : World) : Prop where
  single : ∀ (index other : Nat) (call second : Call) (id : String), w.calls[index]? = some call →
    w.calls[other]? = some second → claimed call = some id → claimed second = some id → index = other
  pending : ∀ (index : Nat) (call : Call) (id : String), w.calls[index]? = some call →
    claimed call = some id → id ∉ w.started
  once : w.started.Nodup
  left : ∀ id, (id ∈ w.started ∨ ∃ (index : Nat) (call : Call), w.calls[index]? = some call ∧
    claimed call = some id) → ∃ value, w.records id = some value ∧ value.status ≠ .queued
  queued : ∀ (index : Nat) (call : Call) (before : Operation), w.calls[index]? = some call →
    claiming call = some before → before.status = .queued

theorem left_kept {action : Action} (kept : ∀ index reply, action ≠ .remove index reply)
    (formed : WellFormed digest w) (stepped : step digest w action = some next) (id : String)
    (left : ∃ value, w.records id = some value ∧ value.status ≠ .queued) :
    ∃ value, next.records id = some value ∧ value.status ≠ .queued := by
  obtain ⟨value, found, moved⟩ := left
  cases step_change digest w action next stepped with
  | quiet _ records => exact ⟨value, records ▸ found, moved⟩
  | created index reply call _ vacant records =>
    have different : id ≠ call.operation.id := by
      rintro rfl
      rw [vacant] at found
      cases found
    exact ⟨value, by rw [records, update_of_ne different, found], moved⟩
  | replaced index reply replica other before after stored claim waiting _ _ records =>
    by_cases here : id = other
    · subst here
      obtain ⟨_, status, progress, result, error, now, unqueued, rfl⟩ :=
        formed _ (mem_of_getElem? waiting)
      exact ⟨_, by rw [records, update_self], unqueued⟩
    · exact ⟨value, by rw [records, update_of_ne here, found], moved⟩
  | removed index reply => exact absurd rfl (kept index reply)

theorem committed_claims (w next : World) (index replica : Nat) (id : String) (before value stored : Operation)
    (formed : WellFormed digest w) (consistent : Consistent digest w) (claims : Claims w)
    (leftAfter : ∀ id, (∃ value, w.records id = some value ∧ value.status ≠ .queued) →
      ∃ value, next.records id = some value ∧ value.status ≠ .queued)
    (waiting : w.calls[index]? = some (.updating replica id before value true))
    (found : w.records id = some stored) (version : stored.version = before.version)
    (records : next.records id = some (encode value)) (started : next.started = w.started)
    (calls : next.calls = w.calls.set index (.updated replica id value true)) : Claims next := by
  have view : View w id before := held_view waiting (mem_singleton.mpr rfl)
  have same := view_of_version consistent view found version
  have queued : stored.status = .queued := by
    rw [same]
    exact claims.queued index _ before waiting rfl
  -- nobody else has claimed it: it would not be queued any more
  have unclaimed : ¬ (id ∈ w.started ∨ ∃ (other : Nat) (call : Call), w.calls[other]? = some call ∧
      claimed call = some id) := by
    intro earlier
    obtain ⟨other, there, moved⟩ := claims.left id earlier
    rw [found, some.injEq] at there
    exact moved (there ▸ queued)
  obtain ⟨_, status, progress, result, error, now, unqueued, advanced⟩ :=
    formed _ (mem_of_getElem? waiting)
  have split : ∀ (other : Nat) (call : Call) (name : String), next.calls[other]? = some call →
      claimed call = some name →
      (other = index ∧ name = id) ∨ (w.calls[other]? = some call ∧ name ≠ id) := by
    intro other call name here held
    rw [calls] at here
    rcases set_cases here with ⟨rfl, rfl⟩ | ⟨_, old⟩
    · exact Or.inl ⟨rfl, (some.inj held).symm⟩
    · refine Or.inr ⟨old, fun mine => unclaimed (Or.inr ⟨other, call, old, ?_⟩)⟩
      rw [held, mine]
  refine ⟨?_, ?_, ?_, ?_, ?_⟩
  · intro first second call other name here there heldFirst heldSecond
    rcases split first call name here heldFirst with ⟨rfl, rfl⟩ | ⟨old, different⟩
    · rcases split second other name there heldSecond with ⟨rfl, _⟩ | ⟨_, different⟩
      · rfl
      · exact absurd rfl different
    · rcases split second other name there heldSecond with ⟨_, mine⟩ | ⟨older, _⟩
      · exact absurd mine different
      · exact claims.single first second call other name old older heldFirst heldSecond
  · intro other call name here held
    rw [started]
    rcases split other call name here held with ⟨_, rfl⟩ | ⟨old, _⟩
    · exact fun begun => unclaimed (Or.inl begun)
    · exact claims.pending other call name old held
  · rw [started]
    exact claims.once
  · intro name known
    rw [started] at known
    rcases known with begun | ⟨other, call, here, held⟩
    · exact leftAfter name (claims.left name (Or.inl begun))
    · rcases split other call name here held with ⟨_, rfl⟩ | ⟨old, _⟩
      · refine ⟨_, records, ?_⟩
        rw [advanced]
        exact unqueued
      · exact leftAfter name (claims.left name (Or.inr ⟨other, call, old, held⟩))
  · intro other call earlier here read
    rw [calls] at here
    rcases set_cases here with ⟨_, rfl⟩ | ⟨_, old⟩
    · cases read
    · exact claims.queued other call earlier old read

theorem executed_claims (w next : World) (index replica : Nat) (id : String) (value : Operation) (claims : Claims w)
    (leftAfter : ∀ id, (∃ value, w.records id = some value ∧ value.status ≠ .queued) →
      ∃ value, next.records id = some value ∧ value.status ≠ .queued)
    (waiting : w.calls[index]? = some (.updated replica id value true))
    (started : next.started = id :: w.started)
    (calls : next.calls = w.calls.set index (.executing replica id)) : Claims next := by
  have split : ∀ (other : Nat) (call : Call) (name : String), next.calls[other]? = some call →
      claimed call = some name → other ≠ index ∧ w.calls[other]? = some call := by
    intro other call name here held
    rw [calls] at here
    rcases set_cases here with ⟨_, rfl⟩ | old
    · cases held
    · exact old
  refine ⟨?_, ?_, ?_, ?_, ?_⟩
  · intro first second call other name here there heldFirst heldSecond
    exact claims.single first second call other name (split first call name here heldFirst).2
      (split second other name there heldSecond).2 heldFirst heldSecond
  · intro other call name here held
    obtain ⟨different, old⟩ := split other call name here held
    rw [started]
    intro begun
    rcases mem_cons.mp begun with rfl | earlier
    · exact different (claims.single other index call _ name old waiting held rfl)
    · exact claims.pending other call name old held earlier
  · rw [started]
    exact nodup_cons.mpr ⟨claims.pending index _ id waiting rfl, claims.once⟩
  · intro name known
    rw [started] at known
    rcases known with begun | ⟨other, call, here, held⟩
    · rcases mem_cons.mp begun with rfl | earlier
      · exact leftAfter name (claims.left name (Or.inr ⟨index, _, waiting, rfl⟩))
      · exact leftAfter name (claims.left name (Or.inl earlier))
    · exact leftAfter name (claims.left name (Or.inr ⟨other, call, (split other call name here held).2, held⟩))
  · intro other call earlier here read
    rw [calls] at here
    rcases set_cases here with ⟨_, rfl⟩ | ⟨_, old⟩
    · cases read
    · exact claims.queued other call earlier old read

theorem step_claims (w : World) (action : Action) (next : World) (unstarted : Unstarted w action)
    (kept : ∀ index reply, action ≠ .remove index reply) (formed : WellFormed digest w)
    (consistent : Consistent digest w) (claims : Claims w) (stepped : step digest w action = some next) :
    Claims next := by
  have leftAfter := left_kept kept formed stepped
  cases step_claim_change w action next unstarted stepped with
  | quiet started held read =>
    refine ⟨?_, ?_, ?_, ?_, ?_⟩
    · intro first second call other name here there heldFirst heldSecond
      exact claims.single first second call other name (held first call name here heldFirst)
        (held second other name there heldSecond) heldFirst heldSecond
    · intro index call name here claim
      rw [started]
      exact claims.pending index call name (held index call name here claim) claim
    · rw [started]
      exact claims.once
    · intro name known
      rw [started] at known
      refine leftAfter name (claims.left name ?_)
      rcases known with begun | ⟨index, call, here, claim⟩
      · exact Or.inl begun
      · exact Or.inr ⟨index, call, held index call name here claim, claim⟩
    · intro index call before here claim
      rcases read index call before here claim with old | queued
      · exact claims.queued index call before old claim
      · exact queued
  | committed index replica id before value stored waiting found version records started calls =>
    exact committed_claims w next index replica id before value stored formed consistent claims
      leftAfter waiting found version records started calls
  | executed index replica id value waiting started calls =>
    exact executed_claims w next index replica id value claims leftAfter waiting started calls

def Unremoved (w : World) : Prop := ∀ id, w.records id = none → w.incarnation id = 0

theorem step_unremoved (w : World) (action : Action) (next : World)
    (kept : ∀ index reply, action ≠ .remove index reply) (unremoved : Unremoved w)
    (stepped : step digest w action = some next) : Unremoved next := by
  intro id absent
  cases step_change digest w action next stepped with
  | quiet _ records _ incarnation =>
    rw [records] at absent
    rw [incarnation]
    exact unremoved id absent
  | created index reply call _ _ records _ incarnation =>
    rw [records] at absent
    by_cases here : id = call.operation.id
    · subst here
      simp at absent
    · rw [update_of_ne here] at absent
      rw [incarnation, update_of_ne here]
      exact unremoved id absent
  | replaced index reply replica other before after stored claim _ _ _ records _ incarnation =>
    rw [records] at absent
    rw [incarnation]
    by_cases here : id = other
    · subst here
      simp at absent
    · rw [update_of_ne here] at absent
      exact unremoved id absent
  | removed index reply => exact absurd rfl (kept index reply)

def Unpruning (action : Action) : Prop := ∀ index reply, action ≠ .remove index reply

def Dispatched (digest : String → String) (w : World) : Prop :=
  (WellFormed digest w ∧ Consistent digest w) ∧ Unremoved w ∧ Claims w

theorem step_dispatched (w : World) (action : Action) (next : World)
    (allowed : Unstarted w action ∧ Unpruning action) (held : Dispatched digest w)
    (stepped : step digest w action = some next) : Dispatched digest next := by
  obtain ⟨⟨formed, consistent⟩, unremoved, claims⟩ := held
  have renewed : Renewed w action := by
    cases action with
    | insert => exact fun call _ vacant => Or.inl (unremoved _ vacant)
    | _ => trivial
  exact ⟨step_consistent w action next renewed ⟨formed, consistent⟩ stepped,
    step_unremoved w action next allowed.2 unremoved stepped,
    step_claims w action next allowed.1 allowed.2 formed consistent claims stepped⟩

theorem new_dispatched : Dispatched digest newWorld := by
  refine ⟨⟨(fun _ member => by cases member), new_consistent⟩, fun _ _ => rfl, ?_⟩
  refine ⟨?_, ?_, nodup_nil, ?_, ?_⟩
  · intro index other call second id here
    cases here
  · intro index call id here
    cases here
  · intro id known
    rcases known with begun | ⟨index, call, here, _⟩
    · cases begun
    · cases here
  · intro index call before here
    cases here

end Runs

/-- Over every interleaving of ticks, refreshes and updates in which no goroutine claims a copy that
    is running already, `executeOperation` is entered at most once for an operation. -/
theorem operation_executed_once (digest : String → String) (actions : List Action) (w : World)
    (unstarted : Guarded (step digest) Unstarted newWorld actions)
    (unpruned : ∀ action ∈ actions, Unpruning action)
    (ran : run (step digest) newWorld actions = some w) (id : String) :
    w.started.count id ≤ 1 := by
  have held := guarded_run_invariant (Dispatched digest) step_dispatched
    (guarded_all Unpruning unstarted unpruned) ran new_dispatched
  exact nodup_iff_count.mp held.2.2.once id

def unstartedCheck (w : World) : Action → Bool
  | .claim index _ =>
    match w.calls[index]? with
    | some (.spawned replica id) => ((w.replicas[replica]?).bind fun maps => maps.operations id).all
        fun value => value.status != .running
    | _ => true
  | _ => true

theorem unstarted_check (w : World) (action : Action) (passed : unstartedCheck w action) : Unstarted w action := by
  cases action with
  | claim =>
    intro replica id maps value waiting here found
    simp only [unstartedCheck, waiting, here, bind_some, found, all_some, bne_iff_ne] at passed
    exact passed
  | _ => trivial

theorem operation_executed_once_claimed :
    ∃ w, run (step boxDigest) newWorld (boxClaimed ++ boxFinished) = some w ∧ w.started = [boxID] ∧
      w.started.count boxID ≤ 1 := by
  refine ⟨_, rfl, rfl, ?_⟩
  refine operation_executed_once boxDigest (boxClaimed ++ boxFinished) _ ?_ ?_ rfl boxID
  · exact checked_guarded unstartedCheck unstarted_check _ _ rfl
  · intro action member index reply same
    subst same
    simp [boxClaimed, boxFinished] at member

/-- Two ticks list the operation before the first goroutine has claimed it; the second goroutine
    claims the running operation. -/
theorem operation_executed_twice : ∃ w, run (step boxDigest) newWorld
        [.boot, .beginOperation 0 stopBox "" 10, .insert 0 .ok, .remember 0, .tick 0 [boxID],
          .tick 0 [boxID], .claim 1 11, .write 1 .ok, .store 1, .claim 2 12, .write 2 .ok, .store 2] =
        some w ∧
      w.started.count boxID = 2 :=
  ⟨_, rfl, by decide⟩

end PieRelay.OperationExecution
