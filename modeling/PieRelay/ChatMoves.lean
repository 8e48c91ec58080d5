import PieRelay.ChatConversation
import PieRelay.ChatTurns

/-!
What a step of a conversation does, with the tables as functions: the handlers, the turns of the loop of
one peer, and the locks.
-/
namespace PieRelay.ChatMoves
open Option
open Admission (lookup_insert_update lookup_erase_update)
open ChatConversation
open ChatJournal
open Function
open IntegrationRecords (Conversation ConversationStatus)
open JsonScanner (Bytes)

@[ext] structure View where
  conversation : Option Conversation
  journal : Journal
  published : Option String
  heap : String → Option Peer
  calls : String → Option Phase

def view (w : World) : View := ⟨w.conversation, w.journal, w.published, w.heap.lookup, w.calls.lookup⟩

def View.move (v : View) (call : String) (phase : Option Phase) : View := { v with calls := update v.calls call phase }

def View.set (v : View) (p : String) (peer : Peer) : View := { v with heap := update v.heap p (some peer) }

def View.unlock (v : View) (p : Option String) : View :=
  { v with heap := fun q => if p = some q then (v.heap q).map fun peer => { peer with locked := false } else v.heap q }

def View.shut (v : View) : Bool := v.conversation.all fun conversation => ended conversation.status

variable {w next : World} {p call requestID : String} {peer : Peer} {disk : Disk} {frame : Frame}

@[simp] theorem view_move (w : World) (call : String) (phase : Option Phase) :
    view (moveTo w call phase) = (view w).move call phase := by
  cases phase with
  | none =>
    exact congrArg (View.mk w.conversation w.journal w.published w.heap.lookup) (lookup_erase_update w.calls call)
  | some phase =>
    exact congrArg (View.mk w.conversation w.journal w.published w.heap.lookup)
      (lookup_insert_update w.calls call phase)

@[simp] theorem view_set (w : World) (p : String) (peer : Peer) : view (setPeer w p peer) = (view w).set p peer :=
  congrArg (fun heap => View.mk w.conversation w.journal w.published heap w.calls.lookup)
    (lookup_insert_update w.heap p peer)

theorem unlock_heap (w : World) (p : Option String) : (unlock w p).heap.lookup = ((view w).unlock p).heap := by
  funext q
  show _ = if p = some q then (w.heap.lookup q).map fun peer => { peer with locked := false } else w.heap.lookup q
  unfold unlock
  split
  · next r peer found =>
    obtain ⟨s, rfl, known⟩ := bind_eq_some_iff.mp found
    obtain ⟨other, stored, same⟩ := map_eq_some_iff.mp known
    cases same
    by_cases same : q = r
    · subst same
      rw [if_pos rfl, stored]
      exact AList.lookup_insert w.heap
    · rw [if_neg fun equal => same (some.inj equal).symm]
      exact AList.lookup_insert_ne same
  · next missing =>
    split
    · next same =>
      subst same
      have gone : w.heap.lookup q = none := map_eq_none_iff.mp missing
      rw [gone]
      rfl
    · rfl

@[simp] theorem view_unlock (w : World) (p : Option String) : view (unlock w p) = (view w).unlock p := by
  refine View.ext ?_ ?_ ?_ (unlock_heap w p) ?_
  all_goals
    unfold unlock
    split <;> rfl

theorem set_heap (v : View) (p q : String) (peer : Peer) :
    (v.set p peer).heap q = if q = p then some peer else v.heap q :=
  update_apply v.heap p (some peer) q

def Phase.holds : Phase → Option String
  | .checked p _ => some p
  | .touching p => some p
  | .inactive p _ => p
  | .closing p _ => p
  | _ => none

def Phase.message : Phase → Option Message
  | .ensuring _ send => send
  | .seeking message => some message
  | .sending _ message => some message
  | .checked _ message => some message
  | _ => none

def Phase.stops : Phase → Option String
  | .stopping p => some p
  | _ => none

def caller : Action → Option String
  | .ensure call _ => some call
  | .publish call _ => some call
  | .seek call => some call
  | .enter call _ => some call
  | .accept call _ => some call
  | .touch call _ _ => some call
  | .stop call => some call
  | .abandon call => some call
  | .idle call _ => some call
  | .lock call => some call
  | .read call => some call
  | .close call _ => some call
  | _ => none

def Look.fatal : Look → Bool
  | .missingSession => true
  | .mintFailure => true
  | .badAddress => true
  | _ => false

def noted (disk : Disk) (journal : Journal) (eventType : String) (text : Bytes) : Journal :=
  (append disk journal ⟨eventType, "", text, .transport⟩).toOption.getD journal

inductive Turns (shut : Bool) (journal : Journal) (p : String) (peer : Peer) : Action → Peer → Journal → Prop where
  | start (place : peer.loop = .starting) : Turns shut journal p peer (.start p) { peer with loop := .top } journal
  | leave {look : Look} {disk : Disk} {text : Bytes} (stops : peer.cancelled ∨ shut) :
      Turns shut journal p peer (.look p look disk text) { peer with loop := .returned } journal
  | fail {look : Look} {disk : Disk} {text : Bytes} (alive : peer.cancelled = false) (unshut : shut = false)
      (lost : Look.fatal look) :
      Turns shut journal p peer (.look p look disk text) { peer with loop := .returned }
        (noted disk journal "transport.error" text)
  | retry {look : Look} {disk : Disk} {text : Bytes} {after : Journal} (place : peer.loop = .top)
      (found : Look.fatal look = false) (written : after = journal ∨ after = noted disk journal "transport.reconnecting" text) :
      Turns shut journal p peer (.look p look disk text) peer after
  | join {look : Look} {disk : Disk} {text : Bytes} (found : Look.fatal look = false) :
      Turns shut journal p peer (.look p look disk text) { peer with loop := .connected }
        (noted disk journal "transport.connected" text)
  | quit {disk : Disk} {text : Bytes} (stops : peer.cancelled) :
      Turns shut journal p peer (.hang p disk text) { peer with loop := .returned } journal
  | hang {disk : Disk} {text : Bytes} :
      Turns shut journal p peer (.hang p disk text) { peer with loop := .top }
        (noted disk journal "transport.reconnecting" text)
  | receive {frame : Frame} : Turns shut journal p peer (.receive p frame) { peer with loop := .received frame } journal
  | name {frame : Frame} (place : peer.loop = .received frame) :
      Turns shut journal p peer (.name p) { peer with loop := .named frame (namedRequest journal frame) } journal
  | correlate {frame : Frame} {requestID : String} (place : peer.loop = .named frame requestID) :
      Turns shut journal p peer (.correlate p)
        { peer with
          taskRequests := (correlateTaskRequest peer.taskRequests frame requestID).2
          loop := .correlated frame (correlateTaskRequest peer.taskRequests frame requestID).1 } journal
  | settle {frame : Frame} {requestID : String} (place : peer.loop = .correlated frame requestID)
      (found : requestID ≠ "") :
      Turns shut journal p peer (.ascribe p) { peer with loop := .attributed frame requestID } journal
  | ascribe {frame : Frame} (place : peer.loop = .correlated frame "") :
      Turns shut journal p peer (.ascribe p)
        { peer with
          taskRequests := (correlateTaskRequest peer.taskRequests frame peer.activeChat).2
          loop := .attributed frame (correlateTaskRequest peer.taskRequests frame peer.activeChat).1 } journal
  | record {frame : Frame} {requestID : String} {disk : Disk} {after : Journal}
      (place : peer.loop = .attributed frame requestID)
      (appended : append disk journal (frameEvent frame requestID) = .ok after) :
      Turns shut journal p peer (.record p disk) { peer with loop := .recorded frame requestID true } after
  | miss {frame : Frame} {requestID : String} {disk : Disk} {error : AppendError}
      (place : peer.loop = .attributed frame requestID)
      (lost : append disk journal (frameEvent frame requestID) = .error error) :
      Turns shut journal p peer (.record p disk) { peer with loop := .recorded frame requestID false } journal
  | skip {disk : Disk} {data : Bytes} :
      Turns shut journal p peer (.complete p disk data) { peer with loop := .connected } journal
  | complete {frame : Frame} {requestID : String} {persisted : Bool} {disk : Disk} {data : Bytes} {after : Journal}
      (place : peer.loop = .recorded frame requestID persisted) (final : terminal frame)
      (busy : peer.activeChat ≠ "") (free : peer.locked = false)
      (appended : append disk journal ⟨completed, peer.activeChat, data, .completion⟩ = .ok after) :
      Turns shut journal p peer (.complete p disk data) { cleared peer with loop := .connected } after

def taken (peer : Peer) (message : Message) : Peer :=
  if message.type = "chat" then { peer with activeChat := message.requestID, activePayload := message.payload }
  else peer

/-- All that a step can do. Steps that only move a handler about, without a lock, are `pass`, and `release` is the
    end of one that has had a lock. -/
inductive Moves (v : View) : Action → View → Prop where
  | rest {action : Action} {call : String} (own : caller action = some call) : Moves v action v
  | pass {action : Action} {call : String} {phase : Option Phase} (own : caller action = some call)
      (outside : ∀ before, v.calls call = some before → Phase.holds before = none)
      (onward : ∀ after, phase = some after → Phase.holds after = none ∧ Phase.stops after = none ∧
        ∀ message, Phase.message after = some message → message.requestID ≠ "" ∨
          ∃ before, v.calls call = some before ∧ Phase.message before = some message) :
      Moves v action (v.move call phase)
  | publish {call fresh : String} {pending : Option (String × Bytes)} {send : Option Message}
      (here : v.calls call = some (.ensuring pending send)) (free : v.published = none) (new : v.heap fresh = none) :
      Moves v (.publish call fresh)
        (({ v with published := some fresh }.set fresh (newPeer pending)).move call (send.map .seeking))
  | enter {call p : String} {backpressure : Bool} {message : Message} {peer : Peer}
      (here : v.calls call = some (.sending p message)) (known : v.heap p = some peer) (free : peer.locked = false)
      (unshut : v.shut = false) (idle : message.type = "chat" → peer.activeChat = "") :
      Moves v (.enter call backpressure)
        ((v.set p { peer with locked := true }).move call (some (.checked p message)))
  | accept {call p : String} {disk : Disk} {message : Message} {peer : Peer} {journal : Journal}
      (here : v.calls call = some (.checked p message)) (known : v.heap p = some peer)
      (appended : append disk v.journal (acceptedEvent message) = .ok journal) :
      Moves v (.accept call disk) (({ v with journal }.set p (taken peer message)).move call (some (.touching p)))
  | release {action : Action} {call : String} {phase : Phase} {conversation : Option Conversation}
      (own : caller action = some call) (here : v.calls call = some phase)
      (same : conversation.map Conversation.status = v.conversation.map Conversation.status) :
      Moves v action (({ v with conversation }.unlock (Phase.holds phase)).move call none)
  | unpublish {call p : String} {peer : Peer} (idle : v.calls call = none) (shown : v.published = some p)
      (known : v.heap p = some peer) :
      Moves v (.stop call)
        (({ v with published := none }.set p { peer with cancelled := true }).move call (some (.stopping p)))
  | abandon {call p : String} {peer : Peer} (here : v.calls call = some (.stopping p)) (known : v.heap p = some peer)
      (free : peer.locked = false) : Moves v (.abandon call) ((v.set p (cleared peer)).move call none)
  | seize {call p : String} {cutoff : RoomRegistry.Time} {peer : Peer}
      (here : v.calls call = some (.lapsing (some p) cutoff)) (known : v.heap p = some peer)
      (free : peer.locked = false) (idle : peer.activeChat = "") :
      Moves v (.lock call)
        ((v.set p { peer with locked := true }).move call (some (.inactive (some p) cutoff)))
  | keep {call : String} {p : Option String} {cutoff : RoomRegistry.Time} {value : Conversation}
      (here : v.calls call = some (.inactive p cutoff)) :
      Moves v (.read call) (v.move call (some (.closing p value)))
  | close {call : String} {taken : Bool} {p : Option String} {value : Conversation}
      {conversation : Option Conversation} (here : v.calls call = some (.closing p value))
      (put : conversation.map Conversation.status = some .closing) :
      Moves v (.close call taken) (({ v with conversation }.unlock p).move call none)
  | turn {action : Action} {p : String} {peer next : Peer} {journal : Journal} (known : v.heap p = some peer)
      (turned : Turns v.shut v.journal p peer action next journal) :
      Moves v action ({ v with journal }.set p next)
  | update {status : ConversationStatus} {activity : RoomRegistry.Time} {conversation : Option Conversation}
      (put : conversation.map Conversation.status = some status) :
      Moves v (.update status activity) { v with conversation }
  | restart : Moves v .restart { v with published := none, heap := fun _ => none, calls := fun _ => none }

theorem shut_status (v : View) : v.shut = (v.conversation.map Conversation.status).all ended := by
  unfold View.shut
  cases v.conversation <;> rfl

theorem unlocked_some (found : unlocked w p = some peer) : (view w).heap p = some peer ∧ peer.locked = false := by
  obtain ⟨stored, free⟩ := filter_eq_some_iff.mp found
  exact ⟨stored, by simpa using free⟩

theorem seeking_onward {v : View} {pending : Option (String × Bytes)} {send : Option Message}
    (here : v.calls call = some (.ensuring pending send)) (after : Phase) (onward : send.map .seeking = some after) :
    Phase.holds after = none ∧ Phase.stops after = none ∧
      ∀ message, Phase.message after = some message → message.requestID ≠ "" ∨
        ∃ before, v.calls call = some before ∧ Phase.message before = some message := by
  obtain ⟨request, rfl, rfl⟩ := map_eq_some_iff.mp onward
  refine ⟨rfl, rfl, ?_⟩
  rintro message ⟨⟩
  exact .inr ⟨_, here, rfl⟩

theorem quiet_pass {v : View} {action : Action} {phase : Phase} (own : caller action = some call)
    (here : v.calls call = some phase) (free : Phase.holds phase = none) : Moves v action (v.move call none) := by
  refine .pass own ?_ ?_
  · intro before there
    cases here.symm.trans there
    exact free
  · rintro after ⟨⟩

theorem put_status {value : Conversation} {taken : Bool} (put : putConversation w value taken = some next) :
    ∃ conversation : Conversation, next = { w with conversation := some conversation } ∧
      conversation.status = value.status := by
  unfold putConversation at put
  split at put
  · split at put
    · cases put
      exact ⟨_, rfl, rfl⟩
    · cases put
  · cases put

theorem touch_status (w : World) (now : RoomRegistry.Time) (taken : Bool) :
    ∃ conversation : Option Conversation, touchActivity w now taken = { w with conversation } ∧
      conversation.map Conversation.status = w.conversation.map Conversation.status := by
  unfold touchActivity
  split
  · next value found =>
    split
    · exact ⟨w.conversation, rfl, rfl⟩
    · cases put : putConversation w { value with lastActivityAt := now } taken with
      | none => exact ⟨w.conversation, rfl, rfl⟩
      | some =>
        obtain ⟨conversation, rfl, same⟩ := put_status put
        refine ⟨some conversation, rfl, ?_⟩
        rw [found]
        exact congrArg some same
  · exact ⟨w.conversation, rfl, rfl⟩

theorem publish_moves {fresh : String} {pending : Option (String × Bytes)}
    {send : Option Message} (here : (view w).calls call = some (.ensuring pending send))
    (stepped : publish w call fresh pending send = some next) : Moves (view w) (.publish call fresh) (view next) := by
  unfold publish at stepped
  split at stepped
  · cases stepped
    rw [view_move]
    refine .pass rfl ?_ (seeking_onward here)
    intro before there
    cases here.symm.trans there
    rfl
  · next free =>
    obtain ⟨new, same⟩ := ite_none_right_eq_some.mp stepped
    cases same
    rw [view_move, view_set]
    exact .publish here free (isNone_iff_eq_none.mp new)

theorem enter_moves {backpressure : Bool} {message : Message}
    (here : (view w).calls call = some (.sending p message)) (found : unlocked w p = some peer) :
    Moves (view w) (.enter call backpressure) (view (if refuses w peer message backpressure then moveTo w call none
      else moveTo (setPeer w p { peer with locked := true }) call (some (.checked p message)))) := by
  obtain ⟨known, free⟩ := unlocked_some found
  split
  · rw [view_move]
    exact quiet_pass rfl here rfl
  · next passed =>
    simp only [refuses, decide_eq_true_eq, not_or, not_and, not_not] at passed
    rw [view_move, view_set]
    exact .enter here known free (Bool.eq_false_iff.mpr passed.1) passed.2.2.2

theorem accept_moves {message : Message}
    (here : (view w).calls call = some (.checked p message)) (stepped : accept w call p message disk = some next) :
    Moves (view w) (.accept call disk) (view next) := by
  obtain ⟨peer, known, same⟩ := map_eq_some_iff.mp stepped
  subst same
  split
  · rw [view_move, view_unlock]
    exact .release (v := view w) rfl here rfl
  · next appended =>
    rw [view_move, view_set]
    exact .accept here known appended

theorem lock_moves {p : Option String} {cutoff : RoomRegistry.Time}
    (here : (view w).calls call = some (.lapsing p cutoff)) (stepped : lock w call p cutoff = some next) :
    Moves (view w) (.lock call) (view next) := by
  unfold lock at stepped
  split at stepped
  · cases stepped
    rw [view_move]
    refine .pass rfl ?_ ?_
    · intro before there
      cases here.symm.trans there
      rfl
    · rintro after ⟨⟩
      refine ⟨rfl, rfl, ?_⟩
      rintro message ⟨⟩
  · obtain ⟨peer, found, same⟩ := map_eq_some_iff.mp stepped
    obtain ⟨known, free⟩ := unlocked_some found
    subst same
    split
    · rw [view_move]
      exact quiet_pass rfl here rfl
    · next idle =>
      rw [view_move, view_set]
      exact .seize here known free (not_not.mp idle)

theorem read_moves {p : Option String} {cutoff : RoomRegistry.Time}
    (here : (view w).calls call = some (.inactive p cutoff)) :
    Moves (view w) (.read call) (view (ChatConversation.read w call p cutoff)) := by
  unfold ChatConversation.read
  split
  · split
    · rw [view_move, view_unlock]
      exact .release (v := view w) rfl here rfl
    · rw [view_move]
      exact .keep here
  · rw [view_move, view_unlock]
    exact .release (v := view w) rfl here rfl

theorem close_moves {p : Option String} {value : Conversation} {taken : Bool}
    (here : (view w).calls call = some (.closing p value)) :
    Moves (view w) (.close call taken) (view (close w call p value taken)) := by
  unfold close
  rw [view_move, view_unlock]
  cases put : putConversation w { value with status := .closing } taken with
  | none => exact .release (v := view w) rfl here rfl
  | some =>
    obtain ⟨conversation, rfl, status⟩ := put_status put
    exact .close here (congrArg some status)

section
variable (known : (view w).heap p = some peer)
include known

theorem look_moves {look : Look} {text : Bytes} (place : peer.loop = .top) :
    Moves (view w) (.look p look disk text) (view (lookAround w p peer look disk text)) := by
  have same : (view w).set p peer = view w := by
    refine View.ext rfl rfl rfl ?_ rfl
    exact (update_eq_self_iff).mpr known.symm
  unfold lookAround
  split
  · next stops =>
    rw [go, view_set]
    exact .turn known (.leave stops)
  · next going =>
    obtain ⟨alive, unshut⟩ := not_or.mp going
    have fatal : Look.fatal look → Moves (view w) (.look p look disk text)
        (view (go (recordState w disk "transport.error" text) p peer .returned)) := by
      intro lost
      rw [go, view_set]
      exact .turn known (.fail (Bool.eq_false_iff.mpr alive) (Bool.eq_false_iff.mpr unshut) lost)
    cases look with
    | missingSession | mintFailure | badAddress => exact fatal rfl
    | unreachable =>
      have kept : View.set { view w with journal := noted disk w.journal "transport.reconnecting" text } p peer =
          view (recordState w disk "transport.reconnecting" text) :=
        congrArg (fun v : View => { v with journal := noted disk w.journal "transport.reconnecting" text }) same
      dsimp only
      rw [← kept]
      exact .turn known (.retry place rfl (.inr rfl))
    | unwritable =>
      have turned : Moves (view w) (.look p .unwritable disk text) ((view w).set p peer) :=
        .turn known (.retry place rfl (.inl rfl))
      rwa [same] at turned
    | joined =>
      dsimp only
      rw [go, view_set]
      exact .turn known (.join rfl)

theorem hang_moves {text : Bytes} : Moves (view w) (.hang p disk text) (view (hangUp w p peer disk text)) := by
  unfold hangUp
  split
  · next stops =>
    rw [go, view_set]
    exact .turn known (.quit stops)
  · rw [go, view_set]
    exact .turn known .hang

theorem ascribe_moves (place : peer.loop = .correlated frame requestID) :
    Moves (view w) (.ascribe p) (view (ascribe w p peer frame requestID)) := by
  unfold ascribe
  split
  · next missing =>
    subst missing
    rw [view_set]
    exact .turn known (.ascribe place)
  · next found =>
    rw [go, view_set]
    exact .turn known (.settle place found)

theorem record_moves (place : peer.loop = .attributed frame requestID) :
    Moves (view w) (.record p disk) (view (recordRaw w p peer frame requestID disk)) := by
  unfold recordRaw
  split
  · next appended =>
    rw [go, view_set]
    exact .turn known (.record place appended)
  · next lost =>
    rw [go, view_set]
    exact .turn known (.miss place lost)

theorem complete_moves {persisted : Bool} {data : Bytes}
    (place : peer.loop = .recorded frame requestID persisted) (final : terminal frame)
    (free : peer.locked = false) :
    Moves (view w) (.complete p disk data) (view (completeActive w p peer disk data)) := by
  unfold completeActive
  split
  · rw [go, view_set]
    exact .turn known .skip
  · next busy =>
    split
    · next appended =>
      rw [go, view_set]
      exact .turn known (.complete place final busy free appended)
    · rw [go, view_set]
      exact .turn known .skip

end

theorem step_moves {action : Action} (stepped : step w action = some next) : Moves (view w) action (view next) := by
  cases action with
  | ensure =>
    dsimp only [step] at stepped
    split at stepped
    · next idle read =>
      obtain ⟨checked, same⟩ := ite_none_right_eq_some.mp stepped
      cases same
      rw [view_move]
      refine .pass rfl ?_ ?_
      · intro before here
        cases idle.symm.trans here
      · rintro after ⟨⟩
        refine ⟨rfl, rfl, ?_⟩
        rintro message ⟨⟩
        exact .inl (of_decide_eq_true checked).1
    · cases stepped
  | publish =>
    dsimp only [step] at stepped
    split at stepped
    · next here => exact publish_moves here stepped
    · cases stepped
  | seek =>
    dsimp only [step] at stepped
    split at stepped
    · next here =>
      cases stepped
      rw [view_move]
      refine .pass rfl ?_ ?_
      · intro before there
        cases here.symm.trans there
        rfl
      · intro after onward
        obtain ⟨p, -, rfl⟩ := map_eq_some_iff.mp onward
        refine ⟨rfl, rfl, ?_⟩
        rintro request ⟨⟩
        exact .inr ⟨_, here, rfl⟩
    · cases stepped
  | enter =>
    dsimp only [step] at stepped
    split at stepped
    · next here =>
      obtain ⟨peer, found, rfl⟩ := map_eq_some_iff.mp stepped
      exact enter_moves here found
    · cases stepped
  | accept =>
    dsimp only [step] at stepped
    split at stepped
    · next here => exact accept_moves here stepped
    · cases stepped
  | touch call now taken =>
    dsimp only [step] at stepped
    split at stepped
    · next here =>
      cases stepped
      obtain ⟨conversation, touched, status⟩ := touch_status w now taken
      rw [view_move, view_unlock, touched]
      exact .release (v := view w) rfl here status
    · cases stepped
  | stop =>
    dsimp only [step] at stepped
    split at stepped
    · cases stepped
      exact .rest rfl
    · next idle shown =>
      obtain ⟨peer, known, rfl⟩ := map_eq_some_iff.mp stepped
      rw [view_move, view_set]
      exact .unpublish idle shown known
    · cases stepped
  | abandon =>
    dsimp only [step] at stepped
    split at stepped
    · next here =>
      obtain ⟨peer, found, rfl⟩ := map_eq_some_iff.mp stepped
      obtain ⟨known, free⟩ := unlocked_some found
      rw [view_move, view_set]
      exact .abandon here known free
    · cases stepped
  | idle =>
    dsimp only [step] at stepped
    split at stepped
    · next idle =>
      cases stepped
      rw [view_move]
      refine .pass rfl ?_ ?_
      · intro before here
        cases idle.symm.trans here
      · rintro after ⟨⟩
        refine ⟨rfl, rfl, ?_⟩
        rintro message ⟨⟩
    · cases stepped
  | lock =>
    dsimp only [step] at stepped
    split at stepped
    · next here => exact lock_moves here stepped
    · cases stepped
  | read =>
    dsimp only [step] at stepped
    split at stepped
    · next here =>
      cases stepped
      exact read_moves here
    · cases stepped
  | close =>
    dsimp only [step] at stepped
    split at stepped
    · next here =>
      cases stepped
      exact close_moves here
    · cases stepped
  | start =>
    dsimp only [step] at stepped
    split at stepped
    · next known =>
      obtain ⟨place, same⟩ := ite_none_right_eq_some.mp stepped
      cases same
      rw [go, view_set]
      exact .turn known (.start place)
    · cases stepped
  | look =>
    dsimp only [step] at stepped
    split at stepped
    · next known =>
      obtain ⟨place, same⟩ := ite_none_right_eq_some.mp stepped
      cases same
      exact look_moves known place
    · cases stepped
  | hang =>
    dsimp only [step] at stepped
    split at stepped
    · next known =>
      obtain ⟨-, same⟩ := ite_none_right_eq_some.mp stepped
      cases same
      exact hang_moves known
    · cases stepped
  | receive =>
    dsimp only [step] at stepped
    split at stepped
    · next known =>
      obtain ⟨-, same⟩ := ite_none_right_eq_some.mp stepped
      cases same
      rw [go, view_set]
      exact .turn known .receive
    · cases stepped
  | name =>
    dsimp only [step] at stepped
    split at stepped
    · next known =>
      split at stepped
      · next place =>
        cases stepped
        rw [go, view_set]
        exact .turn known (.name place)
      · cases stepped
    · cases stepped
  | correlate =>
    dsimp only [step] at stepped
    split at stepped
    · next known =>
      split at stepped
      · next place =>
        obtain ⟨-, same⟩ := ite_none_left_eq_some.mp stepped
        cases same
        rw [correlate, view_set]
        exact .turn known (.correlate place)
      · cases stepped
    · cases stepped
  | ascribe =>
    dsimp only [step] at stepped
    split at stepped
    · next known =>
      split at stepped
      · next place =>
        obtain ⟨-, same⟩ := ite_none_left_eq_some.mp stepped
        cases same
        exact ascribe_moves known place
      · cases stepped
    · cases stepped
  | record =>
    dsimp only [step] at stepped
    split at stepped
    · next known =>
      split at stepped
      · next place =>
        cases stepped
        exact record_moves known place
      · cases stepped
    · cases stepped
  | complete =>
    dsimp only [step] at stepped
    split at stepped
    · next known =>
      split at stepped
      · next place =>
        split at stepped
        · cases stepped
          rw [go, view_set]
          exact .turn known .skip
        · next final =>
          obtain ⟨free, same⟩ := ite_none_left_eq_some.mp stepped
          cases same
          exact complete_moves known place (Bool.eq_true_of_not_eq_false final) (Bool.eq_false_iff.mpr free)
      · cases stepped
    · cases stepped
  | update =>
    dsimp only [step] at stepped
    split at stepped
    · obtain ⟨conversation, rfl, same⟩ := put_status stepped
      exact .update (congrArg some same)
    · cases stepped
  | restart =>
    cases stepped
    exact .restart

end PieRelay.ChatMoves
