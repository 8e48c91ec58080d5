import PieRelay.ChatRequests

/-!
The loop of the published peer. It gives up for good when it finds no session, no credential or no address of
the node, and leaves its peer published, so that nobody starts another one.
-/
namespace PieRelay.ChatLiveness
open ChatConversation Option
open ChatLocks
open ChatMoves
open ChatRequests
open Executions
open Function
open IntegrationRecords (Conversation)

def Alive (w : World) : Prop :=
  ∀ conversation p peer, w.conversation = some conversation → ended conversation.status = false →
    w.published = some p → w.heap.lookup p = some peer → peer.loop ≠ .returned

/-- The condition. No loop of a published peer gives up while the conversation is open, and the conversation is not
    opened again while the loop of the published peer has returned. -/
def lasting (w : World) : Action → Bool
  | .look p look _ _ => w.published ≠ some p ∨ (view w).shut ∨ Look.fatal look = false
  | .update status _ => ended status ∨ (w.published.bind w.heap.lookup).all fun peer => peer.loop ≠ .returned
  | _ => true

section Steps
variable {v : View}

def Stays (v : View) (action : Action) (p : String) (peer : Peer) : Prop :=
  v.published = some p ∧ ∃ before, v.heap p = some before ∧
    ((peer.loop = before.loop ∧ peer.cancelled = before.cancelled) ∨
      ∃ after, Turns v.shut v.journal p before action peer after)

variable {action : Action} {p : String} {peer : Peer} {next : View}

theorem set_stays {q : String} {before after : Peer} (shown : v.published = some p)
    (known : v.heap q = some before) (found : (v.set q after).heap p = some peer)
    (same : after.loop = before.loop ∧ after.cancelled = before.cancelled) : Stays v action p peer := by
  rw [set_heap] at found
  split at found
  · next equal =>
    cases found
    subst equal
    exact ⟨shown, before, known, .inl same⟩
  · exact ⟨shown, peer, found, .inl ⟨rfl, rfl⟩⟩

theorem unlock_stays {q : Option String} (shown : v.published = some p)
    (found : (v.unlock q).heap p = some peer) : Stays v action p peer := by
  unfold View.unlock at found
  dsimp only at found
  split at found
  · obtain ⟨before, known, rfl⟩ := map_eq_some_iff.mp found
    exact ⟨shown, before, known, .inl ⟨rfl, rfl⟩⟩
  · exact ⟨shown, peer, found, .inl ⟨rfl, rfl⟩⟩

theorem moves_published (moved : Moves v action next)
    (shown : next.published = some p) (stored : next.heap p = some peer) :
    (∃ pending, peer = newPeer pending) ∨ Stays v action p peer := by
  cases moved with
  | rest | pass => exact .inr ⟨shown, peer, stored, .inl ⟨rfl, rfl⟩⟩
  | @publish call fresh pending send here free new =>
    cases shown
    have found : (View.set { v with published := some p } p (newPeer pending)).heap p = some peer := stored
    rw [set_heap, if_pos rfl] at found
    cases found
    exact .inl ⟨pending, rfl⟩
  | enter _ known | abandon _ known | seize _ known => exact .inr (set_stays shown known stored ⟨rfl, rfl⟩)
  | accept here known =>
    refine .inr (set_stays shown known stored ?_)
    unfold taken
    split
    · exact ⟨rfl, rfl⟩
    · exact ⟨rfl, rfl⟩
  | release | close => exact .inr (unlock_stays shown stored)
  | unpublish => cases shown
  | keep => exact .inr ⟨shown, peer, stored, .inl ⟨rfl, rfl⟩⟩
  | @turn action q before after journal known turned =>
    have found : (v.set q after).heap p = some peer := stored
    rw [set_heap] at found
    split at found
    · next same =>
      cases found
      subst same
      exact .inr ⟨shown, before, known, .inr ⟨journal, turned⟩⟩
    · exact .inr ⟨shown, peer, found, .inl ⟨rfl, rfl⟩⟩
  | update => exact .inr ⟨shown, peer, stored, .inl ⟨rfl, rfl⟩⟩
  | restart => cases shown

theorem moves_shut (moved : Moves v action next) (unshut : next.shut = false) :
    v.shut = false ∨ ∃ status activity, action = .update status activity ∧ ended status = false := by
  cases moved with
  | @release action call phase conversation own here same =>
    left
    rw [shut_status] at unshut ⊢
    exact (congrArg (Option.all ended) same).symm.trans unshut
  | close here put =>
    rw [shut_status] at unshut
    cases ((congrArg (Option.all ended) put).symm.trans unshut)
  | @update status activity conversation put =>
    right
    rw [shut_status] at unshut
    exact ⟨status, activity, rfl, (congrArg (Option.all ended) put).symm.trans unshut⟩
  | _ => exact .inl unshut

structure Running (v : View) : Prop where
  held : View.Held v
  uncancelled : ∀ p peer, v.published = some p → v.heap p = some peer → peer.cancelled = false

theorem running_moves (running : Running v) (moved : Moves v action next) : Running next := by
  refine ⟨moves_held running.held moved, fun p peer shown stored => ?_⟩
  rcases moves_published moved shown stored with ⟨pending, rfl⟩ | ⟨before, old, known, same | ⟨after, turned⟩⟩
  · rfl
  · exact same.2.trans (running.uncancelled p old before known)
  · exact (turn_kept turned).2.1.trans (running.uncancelled p old before known)

/-- The loop of a peer that is not cancelled returns only when it gives up, or when the conversation has ended. -/
theorem turn_returns {shut : Bool} {journal after : ChatJournal.Journal} {next : Peer} (turned : Turns shut journal p peer action next after) (alive : peer.cancelled = false)
    (unshut : shut = false) (returned : next.loop = .returned) :
    ∃ look disk text, action = .look p look disk text ∧ Look.fatal look := by
  cases turned with
  | leave stops =>
    rcases stops with cancelled | ended
    · cases alive.symm.trans cancelled
    · cases unshut.symm.trans ended
  | fail _ _ lost => exact ⟨_, _, _, rfl, lost⟩
  | retry place => cases place.symm.trans returned
  | quit stops => cases alive.symm.trans stops
  | _ => cases returned

end Steps

variable {w : World}

theorem alive_view : Alive w ↔ ∀ p peer, (view w).published = some p → (view w).heap p = some peer →
    (view w).shut = false → peer.loop ≠ .returned := by
  have open_iff : (view w).shut = false ↔
      ∃ conversation, w.conversation = some conversation ∧ ended conversation.status = false :=
    all_eq_false _ _
  constructor
  · intro alive p peer shown stored unshut
    obtain ⟨conversation, found, going⟩ := open_iff.mp unshut
    exact alive conversation p peer found going shown stored
  · intro alive conversation p peer found going shown stored
    exact alive p peer shown stored (open_iff.mpr ⟨conversation, found, going⟩)

theorem step_alive {next : World} {action : Action} (running : Running (view w)) (alive : Alive w)
    (permitted : lasting w action) (stepped : step w action = some next) : Alive next := by
  have moved := step_moves stepped
  rw [alive_view] at alive ⊢
  intro p peer shown stored unshut
  rcases moves_published moved shown stored with ⟨pending, rfl⟩ | ⟨before, old, known, same | ⟨after, turned⟩⟩
  · rintro ⟨⟩
  · rw [same.1]
    rcases moves_shut moved unshut with earlier | ⟨status, activity, rfl, going⟩
    · exact alive p old before known earlier
    · have found : w.published.bind w.heap.lookup = some old := bind_eq_some_iff.mpr ⟨p, before, known⟩
      simp only [lasting, going, found, Bool.false_eq_true, false_or, all_some, decide_eq_true_eq] at permitted
      exact permitted
  · intro returned
    have earlier : (view w).shut = false := by
      rcases moves_shut moved unshut with earlier | ⟨status, activity, rfl, -⟩
      · exact earlier
      · cases turned
    obtain ⟨look, disk, text, rfl, lost⟩ :=
      turn_returns turned (running.uncancelled p old before known) earlier returned
    simp only [lasting, earlier, lost, decide_eq_true_eq] at permitted
    rcases permitted with apart | ended | found
    · exact apart before
    · cases ended
    · cases found

theorem alive_lasting {next : World} {action : Action} (running : Running (view w)) (alive : Alive next)
    (stepped : step w action = some next) : lasting w action := by
  have moved := step_moves stepped
  rw [alive_view] at alive
  generalize view next = later at moved alive
  cases action with
  | look p =>
    simp only [lasting, decide_eq_true_eq]
    by_contra failed
    simp only [not_or, not_not, Bool.not_eq_true, Bool.not_eq_false] at failed
    obtain ⟨shown, unshut, lost⟩ := failed
    cases moved with
    | rest own | pass own | release own => cases own
    | @turn _ _ peer after journal known turned =>
      have stored : ({ view w with journal }.set p after).heap p = some after := by
        rw [set_heap, if_pos rfl]
      cases turned with
      | leave stops =>
        rcases stops with cancelled | ended
        · cases (running.uncancelled p peer shown known).symm.trans cancelled
        · cases unshut.symm.trans ended
      | fail => exact alive p _ shown stored unshut rfl
      | retry _ found | join found => cases found.symm.trans lost
  | update =>
    simp only [lasting, decide_eq_true_eq]
    by_contra failed
    simp only [not_or, Bool.not_eq_true] at failed
    obtain ⟨going, returned⟩ := failed
    obtain ⟨peer, found, gone⟩ := (all_eq_false _ _).mp returned
    obtain ⟨p, shown, stored⟩ := bind_eq_some_iff.mp found
    cases moved with
    | rest own | pass own | release own => cases own
    | turn known turned => cases turned
    | update put =>
      refine alive p peer shown stored ?_ (by simpa using gone)
      rw [shut_status]
      exact (congrArg (Option.all ended) put).trans going
  | _ => rfl

theorem opened_running (conversation : Option Conversation) : Running (view (opened conversation)) where
  held := (opened_orderly conversation).held
  uncancelled _ _ shown := by cases shown

/-- The published loop is alive in every state of a run exactly when every step meets the condition. -/
theorem published_loop_alive (conversation : Option Conversation) (actions : List Action) (w : World)
    (ran : run step (opened conversation) actions = some w) :
    Along step (fun _ next => Alive next) (opened conversation) actions ↔
      Guarded step (fun w action => lasting w action) (opened conversation) actions := by
  refine along_good_iff (fun w => Running (view w)) Alive ?_ ?_ ran (opened_running conversation) ?_
  · intro w action next running stepped
    exact running_moves running (step_moves stepped)
  · intro w action next running alive stepped
    constructor
    · intro later
      exact alive_lasting running later stepped
    · intro permitted
      exact step_alive running alive permitted stepped
  · intro _ _ _ _ _ shown
    cases shown

theorem answered_alive : Along step (fun _ next => Alive next) (opened (some sample)) answered := by
  obtain ⟨w, ran⟩ := isSome_iff_exists.mp (show (run step (opened (some sample)) answered).isSome by decide +kernel)
  refine (published_loop_alive (some sample) answered w ran).mpr ?_
  exact checked_guarded lasting (fun _ _ passed => passed) _ _ (by decide +kernel)

def lost : List Action :=
  [.ensure "ensure" none, .publish "ensure" "p", .start "p", .look "p" .missingSession roomy []]

theorem lost_session_dead : ¬ ∀ (conversation : Option Conversation) (actions : List Action) (w : World),
    run step (opened conversation) actions = some w → Alive w := by
  intro claimed
  obtain ⟨w, ran, outcome⟩ := map_eq_some_iff.mp (show (run step (opened (some sample)) lost).map (fun w =>
    (w.conversation, w.published, (w.heap.lookup "p").map Peer.loop)) =
      some (some sample, some "p", some .returned) by decide +kernel)
  simp only [Prod.mk.injEq] at outcome
  obtain ⟨found, shown, stored⟩ := outcome
  obtain ⟨peer, known, returned⟩ := map_eq_some_iff.mp stored
  exact claimed (some sample) lost w ran sample "p" peer found rfl shown known returned

end PieRelay.ChatLiveness
