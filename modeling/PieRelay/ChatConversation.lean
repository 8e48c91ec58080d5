import PieRelay.ChatJournal
import PieRelay.Executions
import PieRelay.IntegrationRecords

/-!
One conversation of the chat gateway, executor-manager/internal/chatgateway/gateway.go: `Ensure`, `Send`,
`stop` and `BeginIdle`, and the loop of each peer with the frames that it receives. A step is one critical
section; a lock of a peer that is held beyond it is a field of the peer, and who needs it waits. Any number
of handlers and of peers is under way. The control plane takes a put if its version is the stored one and
if nothing else speaks against it, which comes with the step. A loop of attempts is its last one. Left out:
the turn slots, the usage records, who waits for a response, and what is sent to the relay.
-/
namespace PieRelay.ChatConversation
open ChatJournal
open ControlPlane (Table)
open Executions
open IntegrationRecords (Conversation ConversationStatus)
open JsonScanner (Bytes)
open RoomRegistry (Time)

def ended : ConversationStatus → Bool
  | .closing => true
  | .closed => true
  | .deleted => true
  | _ => false

structure Frame where
  type : String
  requestID : String
  taskID : String
  parentToolUseID : String
  data : Bytes
  deriving DecidableEq

def terminal (frame : Frame) : Bool := frame.type = "done" ∨ frame.type = "error" ∨ frame.type = "aborted"

inductive Loop where
  | starting
  | top
  | connected
  | received (frame : Frame)
  | named (frame : Frame) (requestID : String)
  | correlated (frame : Frame) (requestID : String)
  | attributed (frame : Frame) (requestID : String)
  | recorded (frame : Frame) (requestID : String) (persisted : Bool)
  | returned
  deriving DecidableEq

structure Peer where
  activeChat : String
  activePayload : Bytes
  taskRequests : Table String
  locked : Bool
  cancelled : Bool
  loop : Loop

structure Message where
  requestID : String
  type : String
  payload : Bytes
  deriving DecidableEq

/-- Where a handler is. `checked`, `touching`, `inactive` and `closing` have the lock of their peer. -/
inductive Phase where
  | ensuring (pending : Option (String × Bytes)) (send : Option Message)
  | seeking (message : Message)
  | sending (p : String) (message : Message)
  | checked (p : String) (message : Message)
  | touching (p : String)
  | stopping (p : String)
  | lapsing (p : Option String) (cutoff : Time)
  | inactive (p : Option String) (cutoff : Time)
  | closing (p : Option String) (read : Conversation)
  deriving DecidableEq

structure World where
  conversation : Option Conversation
  journal : Journal
  published : Option String
  heap : Table Peer
  calls : Table Phase

inductive Look where
  | missingSession
  | mintFailure
  | badAddress
  | unreachable
  | unwritable
  | joined
  deriving DecidableEq

inductive Action where
  | ensure (call : String) (send : Option Message)
  | publish (call fresh : String)
  | seek (call : String)
  | enter (call : String) (backpressure : Bool)
  | accept (call : String) (disk : Disk)
  | touch (call : String) (now : Time) (taken : Bool)
  | stop (call : String)
  | abandon (call : String)
  | idle (call : String) (cutoff : Time)
  | lock (call : String)
  | read (call : String)
  | close (call : String) (taken : Bool)
  | start (p : String)
  | look (p : String) (look : Look) (disk : Disk) (text : Bytes)
  | hang (p : String) (disk : Disk) (text : Bytes)
  | receive (p : String) (frame : Frame)
  | name (p : String)
  | correlate (p : String)
  | ascribe (p : String)
  | record (p : String) (disk : Disk)
  | complete (p : String) (disk : Disk) (data : Bytes)
  | update (status : ConversationStatus) (activity : Time)
  | restart

def moveTo (w : World) (call : String) : Option Phase → World
  | some phase => { w with calls := w.calls.insert call phase }
  | none => { w with calls := w.calls.erase call }

def setPeer (w : World) (p : String) (peer : Peer) : World := { w with heap := w.heap.insert p peer }

def unlocked (w : World) (p : String) : Option Peer := (w.heap.lookup p).filter fun peer => !peer.locked

def unlock (w : World) (p : Option String) : World :=
  match p.bind fun p => (w.heap.lookup p).map fun peer => (p, peer) with
  | some (p, peer) => setPeer w p { peer with locked := false }
  | none => w

def newPeer (pending : Option (String × Bytes)) : Peer where
  activeChat := pending.elim "" Prod.fst
  activePayload := pending.elim [] Prod.snd
  taskRequests := ∅
  locked := false
  cancelled := false
  loop := .starting

def publish (w : World) (call fresh : String) (pending : Option (String × Bytes)) (send : Option Message) :
    Option World :=
  match w.published with
  | some _ => some (moveTo w call (send.map .seeking))
  | none =>
    if (w.heap.lookup fresh).isNone then
      some (moveTo (setPeer { w with published := some fresh } fresh (newPeer pending)) call (send.map .seeking))
    else none

def refuses (w : World) (peer : Peer) (message : Message) (backpressure : Bool) : Bool :=
  w.conversation.all (fun conversation => ended conversation.status) ∨ hasRequest w.journal message.requestID ∨
    backpressure ∨ (message.type = "chat" ∧ peer.activeChat ≠ "")

def acceptedEvent (message : Message) : Event :=
  ⟨if message.type = "chat" then accepted else "control.accepted", message.requestID, message.payload, .send⟩

def accept (w : World) (call p : String) (message : Message) (disk : Disk) : Option World :=
  (w.heap.lookup p).map fun peer =>
    match append disk w.journal (acceptedEvent message) with
    | .error _ => moveTo (unlock w (some p)) call none
    | .ok journal =>
      let peer := if message.type = "chat" then
          { peer with activeChat := message.requestID, activePayload := message.payload }
        else peer
      moveTo (setPeer { w with journal } p peer) call (some (.touching p))

def putConversation (w : World) (value : Conversation) (taken : Bool) : Option World :=
  match w.conversation with
  | some before =>
    if taken ∧ before.version = value.version then
      some { w with conversation := some { value with
        createdAt := before.createdAt
        lastActivityAt := if value.lastActivityAt = 0 then before.lastActivityAt else value.lastActivityAt
        version := value.version + 1 } }
    else none
  | none => none

def touchActivity (w : World) (now : Time) (taken : Bool) : World :=
  match w.conversation with
  | some value =>
    if ended value.status then w else (putConversation w { value with lastActivityAt := now } taken).getD w
  | none => w

def idleSince (value : Conversation) (cutoff : Time) : Bool :=
  ¬ cutoff < (if value.lastActivityAt = 0 then value.createdAt else value.lastActivityAt)

def lock (w : World) (call : String) (p : Option String) (cutoff : Time) : Option World :=
  match p with
  | none => some (moveTo w call (some (.inactive none cutoff)))
  | some p =>
    (unlocked w p).map fun peer =>
      if peer.activeChat ≠ "" then moveTo w call none
      else moveTo (setPeer w p { peer with locked := true }) call (some (.inactive (some p) cutoff))

def read (w : World) (call : String) (p : Option String) (cutoff : Time) : World :=
  match w.conversation with
  | some value =>
    if ended value.status ∨ ¬ idleSince value cutoff then moveTo (unlock w p) call none
    else moveTo w call (some (.closing p value))
  | none => moveTo (unlock w p) call none

def close (w : World) (call : String) (p : Option String) (value : Conversation) (taken : Bool) : World :=
  moveTo (unlock ((putConversation w { value with status := .closing } taken).getD w) p) call none

def recordState (w : World) (disk : Disk) (eventType : String) (text : Bytes) : World :=
  { w with journal := (append disk w.journal ⟨eventType, "", text, .transport⟩).toOption.getD w.journal }

def go (w : World) (p : String) (peer : Peer) (loop : Loop) : World := setPeer w p { peer with loop }

def lookAround (w : World) (p : String) (peer : Peer) (look : Look) (disk : Disk) (text : Bytes) : World :=
  if peer.cancelled ∨ w.conversation.all (fun conversation => ended conversation.status) then go w p peer .returned
  else match look with
    | .missingSession => go (recordState w disk "transport.error" text) p peer .returned
    | .mintFailure => go (recordState w disk "transport.error" text) p peer .returned
    | .badAddress => go (recordState w disk "transport.error" text) p peer .returned
    | .unreachable => recordState w disk "transport.reconnecting" text
    | .unwritable => w
    | .joined => go (recordState w disk "transport.connected" text) p peer .connected

def hangUp (w : World) (p : String) (peer : Peer) (disk : Disk) (text : Bytes) : World :=
  if peer.cancelled then go w p peer .returned
  else go (recordState w disk "transport.reconnecting" text) p peer .top

def hasPrefix (value start : String) : Bool := start.toList.isPrefixOf value.toList

def taskKeys (frame : Frame) : List String :=
  (if frame.taskID ≠ "" ∧ frame.taskID.utf8ByteSize ≤ 256 then ["task:" ++ frame.taskID] else []) ++
    if frame.parentToolUseID ≠ "" ∧ frame.parentToolUseID.utf8ByteSize ≤ 256 then ["parent:" ++ frame.parentToolUseID]
    else []

def tracked (frame : Frame) : Bool :=
  (hasPrefix frame.type "task_" ∨ hasPrefix frame.type "subagent_") ∧ taskKeys frame ≠ []

def maxRememberedTaskRequestKeys : Nat := 2048

def remember (candidate : String) (known : Table String) (key : String) : Table String :=
  if maxRememberedTaskRequestKeys ≤ known.keys.length then known else known.insert key candidate

def correlateTaskRequest (known : Table String) (frame : Frame) (candidate : String) : String × Table String :=
  if ¬ tracked frame then (candidate, known)
  else match (taskKeys frame).findSome? fun key => (known.lookup key).filter (· ≠ "") with
    | some requestID => (requestID, known)
    | none => if candidate = "" then ("", known) else (candidate, (taskKeys frame).foldl (remember candidate) known)

def namedRequest (journal : Journal) (frame : Frame) : String :=
  if frame.requestID ≠ "" ∧ frame.requestID.utf8ByteSize ≤ 160 ∧ hasRequest journal frame.requestID then frame.requestID
  else ""

def correlate (w : World) (p : String) (peer : Peer) (frame : Frame) (requestID : String) : World :=
  let answer := correlateTaskRequest peer.taskRequests frame requestID
  setPeer w p { peer with taskRequests := answer.2, loop := .correlated frame answer.1 }

def ascribe (w : World) (p : String) (peer : Peer) (frame : Frame) (requestID : String) : World :=
  if requestID = "" then
    let answer := correlateTaskRequest peer.taskRequests frame peer.activeChat
    setPeer w p { peer with taskRequests := answer.2, loop := .attributed frame answer.1 }
  else go w p peer (.attributed frame requestID)

def frameEvent (frame : Frame) (requestID : String) : Event :=
  ⟨if frame.type = "" then "relay.event" else frame.type, requestID, frame.data, .frame⟩

def recordRaw (w : World) (p : String) (peer : Peer) (frame : Frame) (requestID : String) (disk : Disk) : World :=
  match append disk w.journal (frameEvent frame requestID) with
  | .ok journal => go { w with journal } p peer (.recorded frame requestID true)
  | .error _ => go w p peer (.recorded frame requestID false)

def cleared (peer : Peer) : Peer := { peer with activeChat := "", activePayload := [] }

def completeActive (w : World) (p : String) (peer : Peer) (disk : Disk) (data : Bytes) : World :=
  if peer.activeChat = "" then go w p peer .connected
  else match append disk w.journal ⟨completed, peer.activeChat, data, .completion⟩ with
    | .ok journal => go { w with journal } p (cleared peer) .connected
    | .error _ => go w p peer .connected

def step (w : World) : Action → Option World
  | .ensure call send =>
    match w.calls.lookup call, pendingChatRequest w.journal with
    | none, .ok pending =>
      if send.all (fun message => message.requestID ≠ "" ∧ message.requestID.utf8ByteSize ≤ 160) then
        some (moveTo w call (some (.ensuring pending send)))
      else none
    | _, _ => none
  | .publish call fresh =>
    match w.calls.lookup call with
    | some (.ensuring pending send) => publish w call fresh pending send
    | _ => none
  | .seek call =>
    match w.calls.lookup call with
    | some (.seeking message) => some (moveTo w call (w.published.map fun p => .sending p message))
    | _ => none
  | .enter call backpressure =>
    match w.calls.lookup call with
    | some (.sending p message) =>
      (unlocked w p).map fun peer =>
        if refuses w peer message backpressure then moveTo w call none
        else moveTo (setPeer w p { peer with locked := true }) call (some (.checked p message))
    | _ => none
  | .accept call disk =>
    match w.calls.lookup call with
    | some (.checked p message) => accept w call p message disk
    | _ => none
  | .touch call now taken =>
    match w.calls.lookup call with
    | some (.touching p) => some (moveTo (unlock (touchActivity w now taken) (some p)) call none)
    | _ => none
  | .stop call =>
    match w.calls.lookup call, w.published with
    | none, none => some w
    | none, some p =>
      (w.heap.lookup p).map fun peer =>
        moveTo (setPeer { w with published := none } p { peer with cancelled := true }) call (some (.stopping p))
    | some _, _ => none
  | .abandon call =>
    match w.calls.lookup call with
    | some (.stopping p) => (unlocked w p).map fun peer => moveTo (setPeer w p (cleared peer)) call none
    | _ => none
  | .idle call cutoff =>
    match w.calls.lookup call with
    | none => some (moveTo w call (some (.lapsing w.published cutoff)))
    | some _ => none
  | .lock call =>
    match w.calls.lookup call with
    | some (.lapsing p cutoff) => lock w call p cutoff
    | _ => none
  | .read call =>
    match w.calls.lookup call with
    | some (.inactive p cutoff) => some (read w call p cutoff)
    | _ => none
  | .close call taken =>
    match w.calls.lookup call with
    | some (.closing p value) => some (close w call p value taken)
    | _ => none
  | .start p =>
    match w.heap.lookup p with
    | some peer => if peer.loop = .starting then some (go w p peer .top) else none
    | none => none
  | .look p look disk text =>
    match w.heap.lookup p with
    | some peer => if peer.loop = .top then some (lookAround w p peer look disk text) else none
    | none => none
  | .hang p disk text =>
    match w.heap.lookup p with
    | some peer => if peer.loop = .connected then some (hangUp w p peer disk text) else none
    | none => none
  | .receive p frame =>
    match w.heap.lookup p with
    | some peer => if peer.loop = .connected then some (go w p peer (.received frame)) else none
    | none => none
  | .name p =>
    match w.heap.lookup p with
    | some peer =>
      match peer.loop with
      | .received frame => some (go w p peer (.named frame (namedRequest w.journal frame)))
      | _ => none
    | none => none
  | .correlate p =>
    match w.heap.lookup p with
    | some peer =>
      match peer.loop with
      | .named frame requestID =>
        if tracked frame ∧ peer.locked then none else some (correlate w p peer frame requestID)
      | _ => none
    | none => none
  | .ascribe p =>
    match w.heap.lookup p with
    | some peer =>
      match peer.loop with
      | .correlated frame requestID =>
        if requestID = "" ∧ peer.locked then none else some (ascribe w p peer frame requestID)
      | _ => none
    | none => none
  | .record p disk =>
    match w.heap.lookup p with
    | some peer =>
      match peer.loop with
      | .attributed frame requestID => some (recordRaw w p peer frame requestID disk)
      | _ => none
    | none => none
  | .complete p disk data =>
    match w.heap.lookup p with
    | some peer =>
      match peer.loop with
      | .recorded frame _ _ =>
        if terminal frame = false then some (go w p peer .connected)
        else if peer.locked then none
        else some (completeActive w p peer disk data)
      | _ => none
    | none => none
  | .update status activity =>
    match w.conversation with
    | some value => putConversation w { value with status := status, lastActivityAt := activity } true
    | none => none
  | .restart => some { w with published := none, heap := ∅, calls := ∅ }

end PieRelay.ChatConversation
