import PieRelay.ChatRequests

/-!
`BeginIdle` and the chat requests. It keeps the lock of the peer that it has found, so that nothing is
accepted across it, as long as that peer is still the published one. Where it has found none, it takes the
conversation for idle whatever the journal says.
-/
namespace PieRelay.ChatIdle
open ChatConversation Option
open ChatJournal
open ChatLocks
open ChatMoves
open ChatRequests
open Executions
open Function
open IntegrationRecords (Conversation)

def begun (w : World) : Action → Bool
  | .close call taken =>
    match w.calls.lookup call with
    | some (.closing _ value) => (putConversation w { value with status := .closing } taken).isSome
    | _ => false
  | _ => false

/-- The condition. Besides that of one unfinished request, the peer that `BeginIdle` has found is the published one
    when it stores the conversation, and where there is none, nothing is pending. -/
def unhurried (w : World) : Action → Bool
  | .close call taken =>
    match w.calls.lookup call with
    | some (.closing p _) =>
      begun w (.close call taken) = false ∨ (p = w.published ∧ (p = none → (unfinished w.journal).keys = []))
    | _ => true
  | action => allowed w action

def unopened (w : World) : Action → Bool
  | .update status _ => (w.conversation.all fun conversation => ended conversation.status) = false ∨ ended status
  | _ => true

variable {w next : World} {action : Action}

theorem unhurried_allowed (permitted : unhurried w action) : allowed w action := by
  cases action with
  | close => rfl
  | _ => exact permitted

structure Shut (v : View) : Prop where
  shut : v.shut
  stale : ∀ call p message, v.calls call = some (.checked p message) →
    v.published ≠ some p ∧ ∃ peer, v.heap p = some peer

section Steps
variable {v : View}

theorem shut_kept {next : View} (shut : v.shut)
    (same : next.conversation.map Conversation.status = v.conversation.map Conversation.status) : next.shut := by
  rw [shut_status] at shut ⊢
  rw [same]
  exact shut

theorem unlock_stored {p : Option String} {q : String} (known : ∃ peer, v.heap q = some peer) :
    ∃ peer, (v.unlock p).heap q = some peer := by
  obtain ⟨peer, stored⟩ := known
  unfold View.unlock
  dsimp only
  rw [stored]
  split
  · exact ⟨_, rfl⟩
  · exact ⟨peer, rfl⟩

theorem moved_unchecked {calls : String → Option Phase} {call other p : String} {phase : Option Phase}
    {message : Message} (there : update calls call phase other = some (.checked p message))
    (onward : ∀ q request, phase ≠ some (.checked q request)) : calls other = some (.checked p message) := by
  rcases moved_cases there with ⟨-, moved⟩ | ⟨-, before⟩
  · exact absurd moved (onward p message)
  · exact before

theorem shut_next {next : View} (closed : Shut v) (shut : next.shut)
    (calls : ∀ call p message, next.calls call = some (.checked p message) → v.calls call = some (.checked p message))
    (published : ∀ p, next.published = some p → v.published = some p ∨ v.heap p = none)
    (heap : ∀ p, (∃ peer, v.heap p = some peer) → ∃ peer, next.heap p = some peer) : Shut next := by
  refine ⟨shut, fun call p message there => ?_⟩
  obtain ⟨unshown, peer, stored⟩ := closed.stale call p message (calls call p message there)
  refine ⟨fun shown => ?_, heap p ⟨peer, stored⟩⟩
  rcases published p shown with before | new
  · exact unshown before
  · cases new.symm.trans stored

theorem shut_moves {next : View} (closed : Shut v) (moved : Moves v action next)
    (unopened : ∀ status activity, action = .update status activity → ended status) : Shut next := by
  cases moved with
  | rest => exact closed
  | pass own outside onward =>
    refine shut_next closed closed.shut ?_ (fun _ shown => .inl shown) (fun _ known => known)
    intro other p message there
    refine moved_unchecked there fun q request moved => ?_
    cases (onward _ moved).1
  | publish here free new =>
    refine shut_next closed closed.shut ?_ ?_ (fun _ known => stored_update known)
    · intro other p message there
      refine moved_unchecked there fun q request moved => ?_
      obtain ⟨send, -, same⟩ := map_eq_some_iff.mp moved
      cases same
    · intro p shown
      cases shown
      exact .inr new
  | enter here known free unshut =>
    rw [closed.shut] at unshut
    cases unshut
  | accept _ known | abandon _ known | seize _ known =>
    refine shut_next closed closed.shut ?_ (fun _ shown => .inl shown) (fun _ known => stored_update known)
    intro other p message there
    exact moved_unchecked there fun q request => by simp
  | release own here same =>
    refine shut_next closed (shut_kept closed.shut same) ?_ (fun _ shown => .inl shown) fun _ known =>
      unlock_stored known
    intro other p message there
    exact moved_unchecked there fun q request => by simp
  | unpublish idle shown known =>
    refine shut_next closed closed.shut ?_ ?_ (fun _ known => stored_update known)
    · intro other p message there
      exact moved_unchecked there fun q request => by simp
    · rintro p ⟨⟩
  | keep =>
    refine shut_next closed closed.shut ?_ (fun _ shown => .inl shown) (fun _ known => known)
    intro other p message there
    exact moved_unchecked there fun q request => by simp
  | close here put =>
    refine shut_next closed ?_ ?_ (fun _ shown => .inl shown) fun _ known => unlock_stored known
    · rw [shut_status]
      exact congrArg (Option.all ended) put
    · intro other p message there
      exact moved_unchecked there fun q request => by simp
  | turn known =>
    exact shut_next closed closed.shut (fun _ _ _ there => there) (fun _ shown => .inl shown)
      fun _ known => stored_update known
  | @update status activity conversation put =>
    refine shut_next closed ?_ (fun _ _ _ there => there) (fun _ shown => .inl shown) (fun _ known => known)
    rw [shut_status]
    exact (congrArg (Option.all ended) put).trans (unopened status activity rfl)
  | restart => exact ⟨closed.shut, nofun⟩

theorem moves_journal {next : View} (moved : Moves v action next) : next.journal = v.journal ∨
      (∃ call p disk message, action = .accept call disk ∧ v.calls call = some (.checked p message) ∧
        next.journal = v.journal ++ [acceptedEvent message]) ∨
      ∃ p peer after, v.heap p = some peer ∧ Written action p peer after v.journal next.journal := by
  cases moved with
  | accept here known appended =>
    exact .inr (.inl ⟨_, _, _, _, rfl, here, append_ok appended⟩)
  | turn known turned => exact .inr (.inr ⟨_, _, _, known, turn_written turned⟩)
  | _ => exact .inl rfl

end Steps

def Unaccepting (before after : Journal) : Prop := ∃ rest, after = before ++ rest ∧ ∀ event ∈ rest, event.type ≠ accepted

theorem unaccepting_refl (journal : Journal) : Unaccepting journal journal :=
  ⟨[], (List.append_nil journal).symm, nofun⟩

theorem unaccepting_event {journal : Journal} {event : Event} (kind : event.type ≠ accepted) :
    Unaccepting journal (journal ++ [event]) := by
  refine ⟨[event], rfl, fun other member => ?_⟩
  cases List.mem_singleton.mp member
  exact kind

theorem unaccepting_trans {first second third : Journal} (before : Unaccepting first second)
    (after : Unaccepting second third) : Unaccepting first third := by
  obtain ⟨early, rfl, none⟩ := before
  obtain ⟨late, rfl, nothing⟩ := after
  refine ⟨early ++ late, List.append_assoc .., fun event member => ?_⟩
  rcases List.mem_append.mp member with there | here
  · exact none event there
  · exact nothing event here

theorem written_unaccepting {p : String} {peer next : Peer} {before after : Journal}
    (written : Written action p peer next before after)
    (silent : ∀ disk frame requestID, action = .record p disk → peer.loop = .attributed frame requestID →
      plain frame.type) : Unaccepting before after := by
  cases written with
  | nothing => exact unaccepting_refl before
  | state chat kind => exact unaccepting_event (plain_type kind).1
  | frame taken place => exact unaccepting_event (plain_type (frame_plain (silent _ _ _ taken place))).1
  | completion => exact unaccepting_event completed_apart

theorem shut_unaccepting (closed : Shut (view w)) (permitted : allowed w action)
    (stepped : step w action = some next) : Unaccepting w.journal next.journal := by
  rcases moves_journal (step_moves stepped) with same | ⟨call, p, disk, message, rfl, here, written⟩ |
    ⟨p, peer, after, known, written⟩
  · have kept : next.journal = w.journal := same
    rw [kept]
    exact unaccepting_refl w.journal
  · have found : w.calls.lookup call = some (.checked p message) := here
    simp only [allowed, found, decide_eq_true_eq] at permitted
    have chat : message.type ≠ "chat" := permitted.resolve_right (closed.stale call p message here).1
    have more : next.journal = w.journal ++ [acceptedEvent message] := written
    rw [more]
    refine unaccepting_event ?_
    rw [acceptedEvent, if_neg chat]
    exact (by decide : ("control.accepted" : String) ≠ accepted)
  · refine written_unaccepting written fun disk frame requestID taken place => ?_
    subst taken
    have found : w.heap.lookup p = some peer := known
    simp only [allowed, found, map_some, place] at permitted
    exact permitted

structure Uncut (before after : Journal) : Prop where
  completed : ∀ event ∈ before, event.type = accepted →
    ∃ done ∈ before, done.type = completed ∧ done.requestID = event.requestID
  nothing : pendingChatRequest before = .ok none
  later : Unaccepting before after

theorem finished_uncut {before after : Journal} (finished : ∀ requestID, requestID ∉ unfinished before)
    (later : Unaccepting before after) : Uncut before after := by
  refine ⟨fun event member taken => ?_, ?_, later⟩
  · by_contra nobody
    refine finished event.requestID (accepted_unfinished member taken fun done inside kind same => nobody ?_)
    exact ⟨done, inside, kind, same⟩
  · have single : ∀ first second, first ∈ unfinished before → second ∈ unfinished before → first = second :=
      fun first _ there _ => absurd there (finished first)
    obtain ⟨pending, read, named⟩ := pending_single single
    cases pending with
    | none => exact read
    | some request => exact absurd ((named request.1).mpr rfl) (finished request.1)

/-- What holds when `BeginIdle` begins: nothing is unfinished, and the conversation has ended for who comes later. -/
theorem close_shut {call : String} {taken : Bool} (orderly : Orderly (view w))
    (permitted : unhurried w (.close call taken)) (begins : begun w (.close call taken))
    (stepped : step w (.close call taken) = some next) :
    (∀ requestID, requestID ∉ unfinished w.journal) ∧ next.journal = w.journal ∧ Shut (view next) := by
  dsimp only [step] at stepped
  split at stepped
  case h_2 => cases stepped
  case h_1 p value here =>
    cases stepped
    simp only [begun, here] at begins
    obtain ⟨closed, put⟩ := isSome_iff_exists.mp begins
    simp only [unhurried, begun, here, begins, Bool.true_eq_false, false_or, decide_eq_true_eq] at permitted
    obtain ⟨current, empty⟩ := permitted
    obtain ⟨conversation, rfl, status⟩ := put_status put
    have shape : view (close w call p value taken) =
        (({ view w with conversation := some conversation }.unlock p).move call none) := by
      rw [close, put, getD_some, view_move, view_unlock]
      rfl
    have journal : (view (close w call p value taken)).journal = w.journal := congrArg View.journal shape
    refine ⟨fun requestID still => ?_, journal, ?_⟩
    · cases p with
      | none =>
        have member := AList.mem_keys.mp still
        rw [empty rfl] at member
        cases member
      | some p =>
        obtain ⟨peer, stored, -, idle⟩ := orderly.held.locked call _ p here rfl
        have same := orderly.active p peer current.symm stored requestID still
        exact orderly.named requestID still (same.trans (idle rfl))
    · rw [shape]
      refine ⟨?_, fun other q message there => ?_⟩
      · rw [shut_status]
        exact (congrArg (fun status => Option.all ended (some status)) status).trans rfl
      · have before : (view w).calls other = some (.checked q message) :=
          moved_unchecked there fun q request => by simp
        obtain ⟨peer, stored, -⟩ := orderly.held.locked other _ q before rfl
        refine ⟨fun shown => ?_, unlock_stored ⟨peer, stored⟩⟩
        have same := orderly.held.alone other call _ _ q before here rfl (current.trans shown)
        rw [same] at before
        cases before.symm.trans here

theorem step_uncut (closed : Shut (view w))
    (unopens : unopened w action) (stepped : step w action = some next) : Shut (view next) := by
  refine shut_moves closed (step_moves stepped) ?_
  rintro status activity rfl
  have shut : (w.conversation.all fun conversation => ended conversation.status) := closed.shut
  simp only [unopened, shut, Bool.true_eq_false, false_or, decide_eq_true_eq] at unopens
  exact unopens

/-- Where the condition is met and the conversation is not opened again, `BeginIdle` cuts no turn. -/
theorem idle_cuts_nothing (conversation : Option Conversation) (before after : List Action) (call : String)
    (taken : Bool) (w closed last : World)
    (permitted : Guarded step (fun w action => unhurried w action) (opened conversation)
      (before ++ .close call taken :: after))
    (ran : run step (opened conversation) before = some w) (begins : begun w (.close call taken))
    (stepped : step w (.close call taken) = some closed)
    (unopens : Guarded step (fun w action => unopened w action) closed after)
    (onward : run step closed after = some last) : Uncut w.journal last.journal := by
  obtain ⟨early, late⟩ := guarded_append before _ permitted ran
  have orderly : Orderly (view w) := by
    refine guarded_run_invariant (fun w => Orderly (view w)) ?_ early ran (opened_orderly conversation)
    exact fun _ _ _ permitted orderly stepped => step_orderly (unhurried_allowed permitted) orderly stepped
  obtain ⟨finished, same, shut⟩ := close_shut orderly late.1 begins stepped
  refine finished_uncut finished ?_
  have both := guarded_and (late.2 closed stepped) unopens
  refine (guarded_run_invariant (fun w' => Shut (view w') ∧ Unaccepting w.journal w'.journal) ?_ both onward ?_).2
  · rintro middle action next ⟨permitted, unopens⟩ ⟨shut, sofar⟩ stepped
    refine ⟨step_uncut shut unopens stepped, unaccepting_trans sofar ?_⟩
    exact shut_unaccepting shut (unhurried_allowed permitted) stepped
  · refine ⟨shut, ?_⟩
    rw [same]
    exact unaccepting_refl w.journal

def idling (call : String) : List Action := [.idle call 9, .lock call, .read call]

def quietly : List Action := answered.take 16 ++ idling "idle"

theorem quiet_idle : ∃ w closed, run step (opened (some sample)) quietly = some w ∧
    step w (.close "idle" true) = some closed ∧ begun w (.close "idle" true) ∧ Uncut w.journal closed.journal := by
  obtain ⟨w, ran, outcome⟩ := map_eq_some_iff.mp (show (run step (opened (some sample)) quietly).map (fun w =>
    (begun w (.close "idle" true), (step w (.close "idle" true)).isSome)) = some (true, true) by decide +kernel)
  simp only [Prod.mk.injEq] at outcome
  obtain ⟨begins, steps⟩ := outcome
  obtain ⟨closed, stepped⟩ := isSome_iff_exists.mp steps
  refine ⟨w, closed, ran, stepped, begins, ?_⟩
  refine idle_cuts_nothing (some sample) quietly [] "idle" true w closed closed ?_ ran begins stepped trivial rfl
  exact checked_guarded unhurried (fun _ _ passed => passed) _ _ (by decide +kernel)

/-- After a restart nobody has opened the conversation yet, and `BeginIdle` finds no peer. -/
theorem restarted_idle_cuts : ¬ ∀ (conversation : Option Conversation) (before after : List Action) (call : String)
    (taken : Bool) (w closed last : World), run step (opened conversation) before = some w →
    begun w (.close call taken) → step w (.close call taken) = some closed →
    Guarded step (fun w action => unopened w action) closed after → run step closed after = some last →
    Uncut w.journal last.journal := by
  intro claimed
  obtain ⟨w, ran, outcome⟩ := map_eq_some_iff.mp (show (run step (opened (some sample))
    (connecting ++ sending "send" "r1" ++ [.restart] ++ idling "idle")).map (fun w =>
    (begun w (.close "idle" true), (step w (.close "idle" true)).isSome,
      (pendingChatRequest w.journal).toOption.map isSome)) = some (true, true, some true) by decide +kernel)
  simp only [Prod.mk.injEq] at outcome
  obtain ⟨begins, steps, pending⟩ := outcome
  obtain ⟨closed, stepped⟩ := isSome_iff_exists.mp steps
  have uncut := claimed (some sample) _ [] "idle" true w closed closed ran begins stepped trivial rfl
  rw [uncut.nothing] at pending
  cases pending

end PieRelay.ChatIdle
