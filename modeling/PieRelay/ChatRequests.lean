import PieRelay.ChatLocks

/-!
The chat requests of one conversation that are not finished. Along runs where no frame of the host bears the
type of one of the marks of the gateway, where a peer is published with the request that is unfinished then,
and where a chat request is accepted on the published peer, there is at most one of them.
-/
namespace PieRelay.ChatRequests
open ChatConversation List Option
open ChatJournal
open ChatLocks
open ChatMoves
open Executions
open Function
open IntegrationRecords (Conversation)
open JsonScanner (Bytes)

def plain (eventType : String) : Bool := eventType ≠ accepted ∧ eventType ≠ completed

variable {journal : Journal} {event : Event} {action : Action} {p : String} {peer next : Peer} {w : World}

theorem completed_apart : completed ≠ accepted := by decide

theorem plain_type {eventType : String} (kind : plain eventType) :
    eventType ≠ accepted ∧ eventType ≠ completed := by
  simpa [plain] using kind

theorem unfinished_plain (kind : plain event.type) :
    unfinished (journal ++ [event]) = unfinished journal := by
  obtain ⟨untaken, undone⟩ := plain_type kind
  rw [unfinished_append, scan, if_neg untaken, if_neg undone]

theorem accepted_unfinished (member : event ∈ journal) (taken : event.type = accepted)
    (going : ∀ done ∈ journal, done.type = completed → done.requestID ≠ event.requestID) :
    event.requestID ∈ unfinished journal := by
  induction journal using reverseRecOn with
  | nil => cases member
  | append_singleton before last ih =>
    rw [unfinished_append, scan]
    have earlier : event ∈ before → event.requestID ∈ unfinished before := by
      intro there
      exact ih there fun done inside => going done (mem_append_left _ inside)
    split
    · rcases mem_append.mp member with there | here
      · exact (AList.mem_insert _).mpr (.inr (earlier there))
      · cases mem_singleton.mp here
        exact (AList.mem_insert _).mpr (.inl rfl)
    · next other =>
      have there : event ∈ before := by
        rcases mem_append.mp member with there | here
        · exact there
        · cases mem_singleton.mp here
          exact absurd taken other
      split
      · next done =>
        refine AList.mem_erase.mpr ⟨?_, earlier there⟩
        exact (going last (mem_append_right _ mem_cons_self) done).symm
      · exact earlier there

def Marked (journal : Journal) : Prop :=
  ∀ event ∈ journal, (event.type = accepted → event.writer = .send) ∧
    (event.type = completed → event.writer = .completion)

theorem marked_append (marked : Marked journal)
    (last : (event.type = accepted → event.writer = .send) ∧ (event.type = completed → event.writer = .completion)) :
    Marked (journal ++ [event]) := by
  intro other member
  rcases mem_append.mp member with before | here
  · exact marked other before
  · cases mem_singleton.mp here
    exact last

inductive Written (action : Action) (p : String) (peer next : Peer) (before : Journal) : Journal → Prop where
  | nothing (chat : next.activeChat = peer.activeChat) : Written action p peer next before before
  | state {event : Event} (chat : next.activeChat = peer.activeChat) (kind : plain event.type) :
      Written action p peer next before (before ++ [event])
  | frame {disk : Disk} {frame : Frame} {requestID : String} (taken : action = .record p disk)
      (place : peer.loop = .attributed frame requestID) (chat : next.activeChat = peer.activeChat) :
      Written action p peer next before (before ++ [frameEvent frame requestID])
  | completion {data : Bytes} :
      Written action p peer next before (before ++ [⟨completed, peer.activeChat, data, .completion⟩])

theorem noted_written (disk : Disk) (eventType : String) (text : Bytes)
    (chat : next.activeChat = peer.activeChat) (kind : plain eventType) :
    Written action p peer next journal (noted disk journal eventType text) := by
  unfold noted
  cases appended : append disk journal ⟨eventType, "", text, .transport⟩ with
  | error => exact .nothing chat
  | ok =>
    cases append_ok appended
    exact .state chat kind

theorem turn_written {shut : Bool} {after : Journal}
    (turned : Turns shut journal p peer action next after) : Written action p peer next journal after := by
  cases turned with
  | fail | join | hang => exact noted_written _ _ _ rfl (by decide)
  | retry place found written =>
    rcases written with rfl | rfl
    · exact .nothing rfl
    · exact noted_written _ _ _ rfl (by decide)
  | record place appended =>
    cases append_ok appended
    exact .frame rfl place rfl
  | complete place final busy free appended =>
    cases append_ok appended
    exact .completion
  | _ => exact .nothing rfl

/-- What the requests that are not finished and the published peer have to do with each other. -/
structure Orderly (v : View) : Prop where
  held : View.Held v
  single : ∀ first second, first ∈ unfinished v.journal → second ∈ unfinished v.journal → first = second
  named : ∀ requestID ∈ unfinished v.journal, requestID ≠ ""
  active : ∀ p peer, v.published = some p → v.heap p = some peer →
    ∀ requestID ∈ unfinished v.journal, requestID = peer.activeChat
  marked : Marked v.journal

/-- The condition. It looks at a peer that is published, at a request that is accepted and at a frame that is
    recorded. -/
def allowed (w : World) : Action → Bool
  | .publish call _ =>
    match w.calls.lookup call with
    | some (.ensuring pending _) =>
      w.published.isSome ∨ (unfinished w.journal).keys.all fun requestID => pending.map Prod.fst = some requestID
    | _ => true
  | .accept call _ =>
    match w.calls.lookup call with
    | some (.checked p message) => message.type ≠ "chat" ∨ w.published = some p
    | _ => true
  | .record p _ =>
    match (w.heap.lookup p).map Peer.loop with
    | some (.attributed frame _) => plain frame.type
    | _ => true
  | _ => true

section Steps
variable {v : View}

theorem frame_plain {frame : Frame} {requestID : String} (kind : plain frame.type) :
    plain (frameEvent frame requestID).type := by
  unfold frameEvent
  dsimp only
  split
  · decide
  · exact kind

theorem turn_orderly (orderly : Orderly v)
    (held : View.Held ({ v with journal }.set p next)) (known : v.heap p = some peer)
    (written : Written action p peer next v.journal journal)
    (silent : ∀ disk frame requestID, action = .record p disk → peer.loop = .attributed frame requestID →
      plain frame.type) : Orderly ({ v with journal }.set p next) := by
  have plainly : unfinished journal = unfinished v.journal → next.activeChat = peer.activeChat → Marked journal →
      Orderly ({ v with journal }.set p next) := by
    intro same chat marked
    refine ⟨held, ?_, ?_, ?_, marked⟩
    · show ∀ first second, first ∈ unfinished journal → second ∈ unfinished journal → first = second
      rw [same]
      exact orderly.single
    · show ∀ requestID ∈ unfinished journal, requestID ≠ ""
      rw [same]
      exact orderly.named
    · intro q other shown stored requestID still
      have before : requestID ∈ unfinished v.journal := same ▸ still
      rw [set_heap] at stored
      split at stored
      · next equal =>
        cases stored
        subst equal
        rw [chat]
        exact orderly.active q peer shown known requestID before
      · exact orderly.active q other shown stored requestID before
  cases written with
  | nothing chat => exact plainly rfl chat orderly.marked
  | state chat kind =>
    obtain ⟨apart, undone⟩ := plain_type kind
    exact plainly (unfinished_plain kind) chat (marked_append orderly.marked ⟨(absurd · apart), (absurd · undone)⟩)
  | @frame disk frame requestID taken place chat =>
    have quiet : plain (frameEvent frame requestID).type :=
      frame_plain (silent disk frame requestID taken place)
    obtain ⟨apart, undone⟩ := plain_type quiet
    exact plainly (unfinished_plain quiet) chat (marked_append orderly.marked ⟨(absurd · apart), (absurd · undone)⟩)
  | @completion data =>
    have fewer : ∀ {requestID},
        requestID ∈ unfinished (v.journal ++ [⟨completed, peer.activeChat, data, .completion⟩]) →
        requestID ∈ unfinished v.journal ∧ requestID ≠ peer.activeChat := by
      intro requestID still
      rcases mem_unfinished_append still with ⟨before, apart⟩ | ⟨taken, -⟩
      · exact ⟨before, apart rfl⟩
      · exact absurd taken completed_apart
    refine ⟨held, ?_, ?_, ?_, marked_append orderly.marked ⟨(absurd · completed_apart), fun _ => rfl⟩⟩
    · intro first second there too
      exact orderly.single first second (fewer there).1 (fewer too).1
    · intro requestID there
      exact orderly.named requestID (fewer there).1
    · intro q other shown stored requestID still
      obtain ⟨before, apart⟩ := fewer still
      rw [set_heap] at stored
      split at stored
      · next equal =>
        subst equal
        exact absurd (orderly.active q peer shown known requestID before) apart
      · exact orderly.active q other shown stored requestID before

/-- A handler accepts a request, as one that has found the published peer idle. -/
theorem accept_orderly (orderly : Orderly v) {call : String} {disk : Disk} {message : Message} (here : v.calls call = some (.checked p message)) (known : v.heap p = some peer)
    (appended : append disk v.journal (acceptedEvent message) = .ok journal)
    (held : View.Held (({ v with journal }.set p (taken peer message)).move call (some (.touching p))))
    (shown : message.type = "chat" → v.published = some p) :
    Orderly (({ v with journal }.set p (taken peer message)).move call (some (.touching p))) := by
  cases append_ok appended
  have marked : Marked (v.journal ++ [acceptedEvent message]) := by
    refine marked_append orderly.marked ⟨fun _ => rfl, fun done => ?_⟩
    unfold acceptedEvent at done
    dsimp only at done
    split at done
    · exact absurd done (by decide)
    · exact absurd done (by decide)
  by_cases chat : message.type = "chat"
  · have mark : acceptedEvent message = ⟨accepted, message.requestID, message.payload, .send⟩ := by
      rw [acceptedEvent, if_pos chat]
    have empty : ∀ requestID, requestID ∉ unfinished v.journal := by
      intro requestID before
      obtain ⟨stored, found, -, idle⟩ := orderly.held.locked call _ p here rfl
      cases known.symm.trans found
      have same := orderly.active p peer (shown chat) known requestID before
      exact orderly.named requestID before (same.trans (idle (decide_eq_true chat)))
    have only : ∀ {requestID}, requestID ∈ unfinished (v.journal ++ [acceptedEvent message]) →
        requestID = message.requestID := by
      intro requestID still
      rcases mem_unfinished_append still with ⟨before, -⟩ | ⟨-, same⟩
      · exact absurd before (empty requestID)
      · exact same
    refine ⟨held, ?_, ?_, ?_, marked⟩
    · intro first second there too
      exact (only there).trans (only too).symm
    · intro requestID there
      rw [only there]
      exact orderly.held.named call _ message here rfl
    · intro q other posted stored requestID there
      cases (shown chat).symm.trans posted
      have same : (View.set { v with journal := v.journal ++ [acceptedEvent message] } p (taken peer message)).heap p =
          some other := stored
      rw [set_heap, if_pos rfl] at same
      cases same
      rw [only there, taken, if_pos chat]
  · have mark : plain (acceptedEvent message).type := by
      rw [acceptedEvent, if_neg chat]
      exact (by decide : plain "control.accepted" = true)
    have same : unfinished (v.journal ++ [acceptedEvent message]) = unfinished v.journal := unfinished_plain mark
    have kept : taken peer message = peer := if_neg chat
    refine ⟨held, ?_, ?_, ?_, marked⟩
    · show ∀ first second, first ∈ unfinished (v.journal ++ [acceptedEvent message]) →
        second ∈ unfinished (v.journal ++ [acceptedEvent message]) → first = second
      rw [same]
      exact orderly.single
    · show ∀ requestID ∈ unfinished (v.journal ++ [acceptedEvent message]), requestID ≠ ""
      rw [same]
      exact orderly.named
    · intro q other posted stored requestID there
      have before : requestID ∈ unfinished v.journal := same ▸ there
      have found : (View.set { v with journal := v.journal ++ [acceptedEvent message] } p (taken peer message)).heap q =
          some other := stored
      rw [set_heap, kept] at found
      split at found
      · next equal =>
        cases found
        subst equal
        exact orderly.active q peer posted known requestID before
      · exact orderly.active q other posted found requestID before

theorem still_orderly (orderly : Orderly v) {next : View} (held : View.Held next) (journal : next.journal = v.journal)
    (active : ∀ p peer, next.published = some p → next.heap p = some peer →
      v.published = some p ∧ ∃ before, v.heap p = some before ∧ before.activeChat = peer.activeChat) :
    Orderly next := by
  refine ⟨held, ?_, ?_, ?_, ?_⟩
  · rw [journal]
    exact orderly.single
  · rw [journal]
    exact orderly.named
  · intro p peer shown stored requestID still
    rw [journal] at still
    obtain ⟨posted, before, found, same⟩ := active p peer shown stored
    exact (orderly.active p before posted found requestID still).trans same
  · rw [journal]
    exact orderly.marked

theorem set_active {q : String} {other : Peer} (known : v.heap p = some peer)
    (shown : v.published = some q) (stored : (v.set p next).heap q = some other)
    (chat : v.published = some p → next.activeChat = peer.activeChat) :
    v.published = some q ∧ ∃ before, v.heap q = some before ∧ before.activeChat = other.activeChat := by
  refine ⟨shown, ?_⟩
  rw [set_heap] at stored
  split at stored
  · next same =>
    subst same
    cases stored
    exact ⟨peer, known, (chat shown).symm⟩
  · exact ⟨other, stored, rfl⟩

theorem unlock_active {p : Option String} {q : String} {other : Peer} (shown : v.published = some q)
    (stored : (v.unlock p).heap q = some other) :
    v.published = some q ∧ ∃ before, v.heap q = some before ∧ before.activeChat = other.activeChat := by
  refine ⟨shown, ?_⟩
  unfold View.unlock at stored
  dsimp only at stored
  split at stored
  · obtain ⟨before, found, rfl⟩ := map_eq_some_iff.mp stored
    exact ⟨before, found, rfl⟩
  · exact ⟨other, stored, rfl⟩

theorem publish_orderly (orderly : Orderly v) {call fresh : String} {pending : Option (String × Bytes)}
    {send : Option Message} (held : View.Held (({ v with published := some fresh }.set fresh (newPeer pending)).move call
      (send.map .seeking))) (current : ∀ requestID ∈ unfinished v.journal, pending.map Prod.fst = some requestID) :
    Orderly (({ v with published := some fresh }.set fresh (newPeer pending)).move call (send.map .seeking)) := by
  refine ⟨held, orderly.single, orderly.named, ?_, orderly.marked⟩
  intro q other shown stored requestID still
  cases shown
  have found : (View.set { v with published := some fresh } fresh (newPeer pending)).heap fresh = some other := stored
  rw [set_heap, if_pos rfl] at found
  cases found
  obtain ⟨request, same, named⟩ := map_eq_some_iff.mp (current requestID still)
  rw [same]
  exact named.symm

end Steps

theorem step_orderly {next : World} (permitted : allowed w action)
    (orderly : Orderly (view w)) (stepped : step w action = some next) : Orderly (view next) := by
  have held := step_held orderly.held stepped
  have moved := step_moves stepped
  generalize view next = after at moved held ⊢
  cases moved with
  | rest => exact orderly
  | pass | keep | update =>
    exact still_orderly orderly held rfl fun p peer shown stored => ⟨shown, peer, stored, rfl⟩
  | publish here free =>
    refine publish_orderly orderly held fun requestID still => ?_
    have found : w.calls.lookup _ = some _ := here
    have hidden : w.published = none := free
    simp only [allowed, found, hidden, Option.isSome_none, Bool.false_eq_true, false_or, List.all_eq_true,
      decide_eq_true_eq] at permitted
    exact permitted requestID still
  | enter _ known | seize _ known =>
    exact still_orderly orderly held rfl fun q other shown stored => set_active known shown stored fun _ => rfl
  | accept here known appended =>
    refine accept_orderly orderly here known appended held fun chat => ?_
    have found : w.calls.lookup _ = some _ := here
    simp only [allowed, found, decide_eq_true_eq] at permitted
    exact permitted.resolve_left (not_not.mpr chat)
  | release | close =>
    exact still_orderly orderly held rfl fun q other shown stored => unlock_active (v := view w) shown stored
  | unpublish | restart =>
    refine still_orderly orderly held rfl ?_
    rintro q other ⟨⟩
  | abandon here known =>
    refine still_orderly orderly held rfl fun q other shown stored => set_active known shown stored ?_
    intro posted
    exact absurd posted (orderly.held.stopped _ _ _ here rfl).1
  | turn known turned =>
    refine turn_orderly orderly held known (turn_written turned) fun disk frame requestID taken place => ?_
    subst taken
    have found : w.heap.lookup _ = some _ := known
    simp only [allowed, found, Option.map_some, place] at permitted
    exact permitted

def opened (conversation : Option Conversation) : World := ⟨conversation, [], none, ∅, ∅⟩

theorem opened_orderly (conversation : Option Conversation) : Orderly (view (opened conversation)) where
  held := {
    locked := fun _ _ _ there => by cases there
    alone := fun _ _ _ _ _ there => by cases there
    shown := nofun
    stopped := fun _ _ _ there => by cases there
    named := fun _ _ _ there => by cases there }
  single _ _ there := by cases there
  named _ there := by cases there
  active _ _ shown := by cases shown
  marked _ member := by cases member

theorem run_orderly {conversation : Option Conversation} {actions : List Action}
    (permitted : Guarded step (fun w action => allowed w action) (opened conversation) actions)
    (ran : run step (opened conversation) actions = some w) : Orderly (view w) :=
  guarded_run_invariant (fun w => Orderly (view w))
    (fun _ _ _ permitted orderly stepped => step_orderly permitted orderly stepped) permitted ran
    (opened_orderly conversation)

structure OneUnfinished (journal : Journal) : Prop where
  single : ∀ first ∈ journal, ∀ second ∈ journal, first.type = accepted → second.type = accepted →
    first.requestID ≠ second.requestID → ∃ done ∈ journal, done.type = completed ∧
      (done.requestID = first.requestID ∨ done.requestID = second.requestID)
  marked : Marked journal
  read : ∃ pending, pendingChatRequest journal = .ok pending

theorem orderly_single (orderly : Orderly (view w)) : OneUnfinished w.journal := by
  refine ⟨?_, orderly.marked, ?_⟩
  · intro first member second also taken too apart
    by_contra nobody
    have going : ∀ event ∈ w.journal, event.type = accepted →
        (event.requestID = first.requestID ∨ event.requestID = second.requestID) →
        event.requestID ∈ unfinished w.journal := by
      intro event there mark one
      refine accepted_unfinished there mark fun done inside kind same => nobody ⟨done, inside, kind, ?_⟩
      rw [same]
      exact one
    exact apart (orderly.single _ _ (going first member taken (.inl rfl)) (going second also too (.inr rfl)))
  · obtain ⟨pending, read, -⟩ := pending_single orderly.single
    exact ⟨pending, read⟩

/-- Where the condition is met at every step, the journal has one unfinished chat request at most, whatever the
    frames and the order of the steps. -/
theorem one_unfinished_request (conversation : Option Conversation) (actions : List Action) (w : World)
    (permitted : Guarded step (fun w action => allowed w action) (opened conversation) actions)
    (ran : run step (opened conversation) actions = some w) : OneUnfinished w.journal :=
  orderly_single (run_orderly permitted ran)

def sample : Conversation := ⟨"c", "i", "b", "o", "d", "j", "s", .ready, 0, 0, 0, 1⟩

def roomy : Disk := ⟨1024, true, true⟩

def connecting : List Action :=
  [.ensure "ensure" none, .publish "ensure" "p", .start "p", .look "p" .joined roomy []]

def sending (call requestID : String) : List Action :=
  [.ensure call (some ⟨requestID, "chat", []⟩), .publish call "", .seek call, .enter call false, .accept call roomy,
    .touch call 1 true]

def framed (frame : Frame) : List Action :=
  [.receive "p" frame, .name "p", .correlate "p", .ascribe "p", .record "p" roomy, .complete "p" roomy []]

def answered : List Action := connecting ++ sending "send" "r1" ++ framed ⟨"done", "r1", "", "", []⟩ ++ sending "next" "r2"

theorem answered_requests : ∃ w, run step (opened (some sample)) answered = some w ∧ OneUnfinished w.journal := by
  obtain ⟨w, ran⟩ := isSome_iff_exists.mp
    (show (run step (opened (some sample)) answered).isSome by decide +kernel)
  refine ⟨w, ran, one_unfinished_request (some sample) answered w ?_ ran⟩
  exact checked_guarded allowed (fun _ _ passed => passed) _ _ (by decide +kernel)

/-- The host sends a frame of the type that stands for an accepted request before there is one. -/
theorem forged_request : ¬ ∀ (conversation : Option Conversation) (actions : List Action) (w : World),
    run step (opened conversation) actions = some w → OneUnfinished w.journal := by
  intro claimed
  obtain ⟨w, ran, outcome⟩ := map_eq_some_iff.mp (show
    (run step (opened (some sample)) (connecting ++ framed ⟨accepted, "", "", "", []⟩ ++ sending "send" "r1")).map
      (fun w => pendingChatRequest w.journal) = some (.error "chat journal contains multiple unfinished requests") by
    decide +kernel)
  obtain ⟨pending, read⟩ := (claimed _ _ w ran).read
  cases outcome.symm.trans read

end PieRelay.ChatRequests
