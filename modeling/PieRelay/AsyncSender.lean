import Mathlib.Algebra.Ring.Int.Defs
import PieRelay.Executions
import PieRelay.RelayFrames

/-!
`wsSender` of server/internal/relay/server.go. Any number of `Send` calls, one writer
goroutine and any number of shutdowns interleave; each action below is one critical
section of `mu`, one channel operation, one part of the `sync.Once` body or one return.
A call is named by a number of its own. The three logs at the end of the state are for
the statements only: what was enqueued by which call, what was popped, what the socket took.
-/
namespace PieRelay.AsyncSender
open Function Executions JsonScanner RelayFrames List Option

def sendQueueCap : Nat := 256
def controlQueueByteLimit : Int := 16 * 2 ^ 20
def outputQueueByteLimit : Int := 16 * 2 ^ 20

inductive TrafficClass where
  | control
  | output
  deriving DecidableEq

structure QueuedMessage where
  payload : Bytes
  class_ : TrafficClass
  deriving DecidableEq

def outputTypes : List String :=
  ["pty_output", "pty_snapshot", "pty_size", "pty_exit", "text", "thinking", "tool_result",
    "skills_list", "history", "done", "error", "aborted"]

def classifyTraffic (msg : Bytes) : TrafficClass :=
  if peekMessageType msg ∈ outputTypes then .output else .control

inductive Answer where
  | ok
  | senderClosed
  deriving DecidableEq

/-- A `Send` call: not made yet, behind its unlock and before its wake, on its way through
    `shutdown`, or returned. -/
inductive Call where
  | idle
  | waking (msg : Bytes)
  | evicting (msg : Bytes)
  | returned (msg : Bytes) (answer : Answer)
  deriving DecidableEq

inductive Writer where
  | popping
  | writing (m : QueuedMessage)
  | parked
  | closing
  | exited
  deriving DecidableEq

inductive Caller where
  | send (call : Nat)
  | writer
  | handler (n : Nat)
  deriving DecidableEq

inductive Once where
  | fresh
  | entered (caller : Caller)
  | closed (caller : Caller)
  | signalled (caller : Caller)
  | finished
  deriving DecidableEq

inductive Handler where
  | idle
  | closing
  | returned
  deriving DecidableEq

structure WsSender where
  closed : Bool
  control : List QueuedMessage
  output : List QueuedMessage
  controlBytes : Int
  outputBytes : Int
  wake : Bool
  done : Bool
  once : Once
  ctxDone : Bool
  connClosed : Bool
  calls : Nat → Call
  handlers : Nat → Handler
  writer : Writer
  accepted : List (Nat × QueuedMessage)
  popped : List QueuedMessage
  written : List QueuedMessage

def newWsSender : WsSender where
  closed := false
  control := []
  output := []
  controlBytes := 0
  outputBytes := 0
  wake := false
  done := false
  once := .fresh
  ctxDone := false
  connClosed := false
  calls := fun _ => .idle
  handlers := fun _ => .idle
  writer := .popping
  accepted := []
  popped := []
  written := []

def setCall (s : WsSender) (call : Nat) (place : Call) : WsSender :=
  { s with calls := update s.calls call place }

def overflow (lane : List QueuedMessage) (bytes : Int) (limit : Int) (msg : Bytes) : Bool :=
  sendQueueCap ≤ lane.length || limit < bytes + msg.length

def sendClass (s : WsSender) (call : Nat) (msg : Bytes) (class_ : TrafficClass) : WsSender :=
  let m : QueuedMessage := ⟨msg, class_⟩
  if s.closed then setCall s call (.returned msg .senderClosed)
  else match class_ with
    | .output =>
      if overflow s.output s.outputBytes outputQueueByteLimit msg then setCall s call (.evicting msg)
      else
        setCall { s with
          output := s.output ++ [m]
          outputBytes := s.outputBytes + msg.length
          accepted := s.accepted ++ [(call, m)] } call (.waking msg)
    | .control =>
      if overflow s.control s.controlBytes controlQueueByteLimit msg then setCall s call (.evicting msg)
      else
        setCall { s with
          control := s.control ++ [m]
          controlBytes := s.controlBytes + msg.length
          accepted := s.accepted ++ [(call, m)] } call (.waking msg)

def popNext (s : WsSender) : WsSender :=
  match s.control, s.output with
  | m :: rest, _ =>
    { s with
      control := rest
      controlBytes := s.controlBytes - m.payload.length
      writer := .writing m
      popped := s.popped ++ [m] }
  | [], m :: rest =>
    { s with
      output := rest
      outputBytes := s.outputBytes - m.payload.length
      writer := .writing m
      popped := s.popped ++ [m] }
  | [], [] => { s with writer := .parked }

def closeQueues (s : WsSender) (caller : Caller) : WsSender :=
  { s with
    closed := true
    control := []
    output := []
    controlBytes := 0
    outputBytes := 0
    once := .closed caller }

def atShutdown (s : WsSender) : Caller → Bool
  | .send call => match s.calls call with
    | .evicting _ => true
    | _ => false
  | .writer => s.writer = .closing
  | .handler n => s.handlers n = .closing

def leaveShutdown (s : WsSender) : Caller → WsSender
  | .send call => match s.calls call with
    | .evicting msg => setCall s call (.returned msg .senderClosed)
    | _ => s
  | .writer => { s with writer := .exited }
  | .handler n => { s with handlers := update s.handlers n .returned }

inductive Action where
  | send (call : Nat) (msg : Bytes)
  | wake (call : Nat)
  | pop
  | writeOK
  | writeFailed
  | receiveWake
  | receiveDone
  | receiveCtx
  | cancel
  | shutdown (n : Nat)
  | enterOnce (caller : Caller)
  | closeQueues
  | closeDone
  | closeConn
  | leave (caller : Caller)

def step (s : WsSender) : Action → Option WsSender
  | .send call msg =>
    match s.calls call with
    | .idle => some (sendClass s call msg (classifyTraffic msg))
    | _ => none
  | .wake call =>
    match s.calls call with
    -- A token that is already there stays the only one.
    | .waking msg => some (setCall { s with wake := true } call (.returned msg .ok))
    | _ => none
  | .pop => if s.writer = .popping then some (popNext s) else none
  | .writeOK =>
    match s.writer with
    | .writing m => some { s with writer := .popping, written := s.written ++ [m] }
    | _ => none
  | .writeFailed =>
    match s.writer with
    | .writing _ => some { s with writer := .closing }
    | _ => none
  | .receiveWake =>
    if s.writer = .parked ∧ s.wake then some { s with writer := .popping, wake := false } else none
  | .receiveDone => if s.writer = .parked ∧ s.done then some { s with writer := .exited } else none
  | .receiveCtx => if s.writer = .parked ∧ s.ctxDone then some { s with writer := .closing } else none
  | .cancel => some { s with ctxDone := true }
  | .shutdown n =>
    if s.handlers n = .idle then some { s with handlers := update s.handlers n .closing } else none
  | .enterOnce caller =>
    if s.once = .fresh ∧ atShutdown s caller then some { s with once := .entered caller } else none
  | .closeQueues =>
    match s.once with
    | .entered caller => some (closeQueues s caller)
    | _ => none
  | .closeDone =>
    match s.once with
    | .closed caller => some { s with done := true, once := .signalled caller }
    | _ => none
  | .closeConn =>
    match s.once with
    | .signalled _ => some { s with connClosed := true, once := .finished }
    | _ => none
  | .leave caller =>
    if s.once = .finished ∧ atShutdown s caller then some (leaveShutdown s caller) else none

structure Queues where
  closed : Bool
  lane : TrafficClass → List QueuedMessage
  bytes : TrafficClass → Int
  accepted : List (Nat × QueuedMessage)
  popped : List QueuedMessage

def lane (s : WsSender) : TrafficClass → List QueuedMessage
  | .control => s.control
  | .output => s.output

def bytes (s : WsSender) : TrafficClass → Int
  | .control => s.controlBytes
  | .output => s.outputBytes

def limit : TrafficClass → Int
  | .control => controlQueueByteLimit
  | .output => outputQueueByteLimit

def queues (s : WsSender) : Queues := ⟨s.closed, lane s, bytes s, s.accepted, s.popped⟩

def Queues.enqueue (q : Queues) (call : Nat) (m : QueuedMessage) : Queues :=
  { q with
    lane := update q.lane m.class_ (q.lane m.class_ ++ [m])
    bytes := update q.bytes m.class_ (q.bytes m.class_ + m.payload.length)
    accepted := q.accepted ++ [(call, m)] }

def Queues.dequeue (q : Queues) (c : TrafficClass) (m : QueuedMessage) (rest : List QueuedMessage) :
    Queues :=
  { q with
    lane := update q.lane c rest
    bytes := update q.bytes c (q.bytes c - m.payload.length)
    popped := q.popped ++ [m] }

inductive QueueChange (q : Queues) : Queues → Prop where
  | kept : QueueChange q q
  | enqueued (call : Nat) (m : QueuedMessage) (opened : q.closed = false)
      (room : (q.lane m.class_).length < sendQueueCap)
      (fits : q.bytes m.class_ + m.payload.length ≤ limit m.class_) :
      QueueChange q (q.enqueue call m)
  | dequeued (c : TrafficClass) (m : QueuedMessage) (rest : List QueuedMessage)
      (first : q.lane c = m :: rest) (priority : c = .output → q.lane .control = []) :
      QueueChange q (q.dequeue c m rest)
  | emptied : QueueChange q { q with closed := true, lane := fun _ => [], bytes := fun _ => 0 }

variable {s next : WsSender} {action : Action} {q : Queues}

theorem overflow_false {messages : List QueuedMessage} {held bound : Int} {msg : Bytes}
    (fits : ¬ overflow messages held bound msg) :
    messages.length < sendQueueCap ∧ held + msg.length ≤ bound := by
  simp only [overflow, Bool.or_eq_true, decide_eq_true_eq, not_or] at fits
  omega

/-- What the critical section of a `Send` does: refuse, find its lane full, or enqueue. -/
theorem send_class_cases (s : WsSender) (call : Nat) (msg : Bytes) (c : TrafficClass) :
    (s.closed ∧ sendClass s call msg c = setCall s call (.returned msg .senderClosed)) ∨
      sendClass s call msg c = setCall s call (.evicting msg) ∨
      (s.closed = false ∧ (lane s c).length < sendQueueCap ∧ bytes s c + msg.length ≤ limit c ∧
        (sendClass s call msg c).calls = update s.calls call (.waking msg) ∧
        (sendClass s call msg c).writer = s.writer ∧ (sendClass s call msg c).written = s.written ∧
        queues (sendClass s call msg c) = (queues s).enqueue call ⟨msg, c⟩) := by
  unfold sendClass
  dsimp only
  split
  · rename_i shut
    exact Or.inl ⟨shut, rfl⟩
  rename_i opened
  have opened : s.closed = false := by simpa using opened
  refine Or.inr ?_
  cases c
  all_goals
    dsimp only
    split
    · exact Or.inl rfl
    · rename_i fits
      obtain ⟨room, within⟩ := overflow_false fits
      refine Or.inr ⟨opened, room, within, rfl, rfl, rfl, ?_⟩
      simp only [queues, Queues.enqueue, setCall, Queues.mk.injEq, true_and, and_true]
      constructor <;> funext c <;> cases c <;> rfl

/-- `popNext` takes the head of the control lane, or else of the output lane. -/
theorem pop_cases (s : WsSender) : (∃ c m rest, lane s c = m :: rest ∧ (c = .output → s.control = []) ∧
        (popNext s).writer = .writing m ∧ queues (popNext s) = (queues s).dequeue c m rest) ∨
      (s.control = [] ∧ s.output = [] ∧ popNext s = { s with writer := .parked }) := by
  cases control : s.control with
  | cons m rest =>
    refine Or.inl ⟨.control, m, rest, control, by simp, by simp [popNext, control], ?_⟩
    simp only [popNext, control, queues, Queues.dequeue, Queues.mk.injEq, true_and, and_true]
    constructor <;> funext c <;> cases c <;> rfl
  | nil =>
    cases output : s.output with
    | cons m rest =>
      refine Or.inl ⟨.output, m, rest, output, fun _ => rfl, by simp [popNext, control, output], ?_⟩
      simp only [popNext, control, output, queues, Queues.dequeue, Queues.mk.injEq, true_and, and_true]
      constructor <;> funext c <;> cases c <;> simp [lane, bytes, control]
    | nil => exact Or.inr ⟨rfl, rfl, by simp only [popNext, control, output]⟩

theorem pop_written (s : WsSender) : (popNext s).written = s.written ∧ (popNext s).calls = s.calls := by
  unfold popNext
  split <;> exact ⟨rfl, rfl⟩

theorem leave_queues (s : WsSender) (caller : Caller) : queues (leaveShutdown s caller) = queues s := by
  unfold leaveShutdown
  split
  · split <;> rfl
  · rfl
  · rfl

theorem step_queues (stepped : step s action = some next) : QueueChange (queues s) (queues next) := by
  cases action with
  | send call msg =>
    simp only [step] at stepped
    split at stepped <;> cases stepped
    rcases send_class_cases s call msg (classifyTraffic msg) with
      ⟨-, refused⟩ | full | ⟨opened, room, fits, -, -, -, enqueued⟩
    · rw [refused]
      exact .kept
    · rw [full]
      exact .kept
    · rw [enqueued]
      exact .enqueued call ⟨msg, classifyTraffic msg⟩ opened room fits
  | wake =>
    simp only [step] at stepped
    split at stepped <;> cases stepped
    exact .kept
  | pop =>
    simp only [step, ite_none_right_eq_some, some.injEq] at stepped
    rw [← stepped.2]
    rcases pop_cases s with ⟨c, m, rest, first, priority, -, taken⟩ | ⟨-, -, empty⟩
    · rw [taken]
      exact .dequeued c m rest first priority
    · rw [empty]
      exact .kept
  | writeOK | writeFailed | closeDone | closeConn =>
    simp only [step] at stepped
    split at stepped <;> cases stepped
    exact .kept
  | cancel =>
    cases stepped
    exact .kept
  | receiveWake | receiveDone | receiveCtx | shutdown _ | enterOnce _ =>
    simp only [step, ite_none_right_eq_some, some.injEq] at stepped
    rw [← stepped.2]
    exact .kept
  | closeQueues =>
    simp only [step] at stepped
    split at stepped <;> cases stepped
    rename_i caller _
    have same : queues (closeQueues s caller) =
        { queues s with closed := true, lane := fun _ => [], bytes := fun _ => 0 } := by
      simp only [queues, closeQueues, Queues.mk.injEq, true_and, and_true]
      constructor <;> funext c <;> cases c <;> rfl
    rw [same]
    exact .emptied
  | leave =>
    simp only [step, ite_none_right_eq_some, some.injEq] at stepped
    rw [← stepped.2, leave_queues]
    exact .kept

def total (messages : List QueuedMessage) : Int :=
  (messages.map fun m => (m.payload.length : Int)).sum

structure Accounted (q : Queues) : Prop where
  counted : ∀ c, q.bytes c = total (q.lane c)
  capped : ∀ c, (q.lane c).length ≤ sendQueueCap
  limited : ∀ c, q.bytes c ≤ limit c

def onLane (c : TrafficClass) (log : List QueuedMessage) : List QueuedMessage :=
  log.filter fun m => m.class_ = c

def acceptedOn (c : TrafficClass) (q : Queues) : List QueuedMessage :=
  onLane c (q.accepted.map Prod.snd)

structure Sequenced (q : Queues) : Prop where
  classed : ∀ c, ∀ m ∈ q.lane c, m.class_ = c
  ordered : ∀ c, onLane c q.popped <+: acceptedOn c q
  whole : q.closed = false → ∀ c, acceptedOn c q = onLane c q.popped ++ q.lane c
  shut : q.closed → ∀ c, q.lane c = []

theorem on_lane_append (c : TrafficClass) (log : List QueuedMessage) (m : QueuedMessage) :
    onLane c (log ++ [m]) = if m.class_ = c then onLane c log ++ [m] else onLane c log := by
  by_cases same : m.class_ = c <;> simp [onLane, same]

theorem limit_nonneg (c : TrafficClass) : 0 ≤ limit c := by
  cases c <;> decide

theorem change_accounted {next : Queues} (change : QueueChange q next) (accounted : Accounted q) : Accounted next := by
  cases change with
  | kept => exact accounted
  | enqueued call m opened room fits =>
    have counted := accounted.counted m.class_
    refine ⟨fun c => ?_, fun c => ?_, fun c => ?_⟩ <;> by_cases same : c = m.class_
    · subst same
      simp [Queues.enqueue, counted, total]
    · simp [Queues.enqueue, same, accounted.counted c]
    · subst same
      simpa [Queues.enqueue] using Nat.succ_le_of_lt room
    · simp [Queues.enqueue, same, accounted.capped c]
    · subst same
      simpa [Queues.enqueue] using fits
    · simp [Queues.enqueue, same, accounted.limited c]
  | dequeued c m rest first =>
    have counted := accounted.counted c
    have capped := accounted.capped c
    have limited := accounted.limited c
    simp only [first, total, map_cons, sum_cons] at counted
    simp only [first, length_cons] at capped
    refine ⟨fun other => ?_, fun other => ?_, fun other => ?_⟩ <;> by_cases same : other = c
    · subst same
      simp only [Queues.dequeue, update_self, total]
      omega
    · simp [Queues.dequeue, same, accounted.counted other]
    · subst same
      simp only [Queues.dequeue, update_self]
      omega
    · simp [Queues.dequeue, same, accounted.capped other]
    · subst same
      simp only [Queues.dequeue, update_self]
      omega
    · simp [Queues.dequeue, same, accounted.limited other]
  | emptied => exact ⟨fun _ => rfl, fun _ => Nat.zero_le _, limit_nonneg⟩

theorem enqueue_sequenced (sequenced : Sequenced q) (call : Nat) (m : QueuedMessage)
    (opened : q.closed = false) : Sequenced (q.enqueue call m) := by
  have logged : ∀ c, acceptedOn c (q.enqueue call m) = onLane c q.popped ++ (q.enqueue call m).lane c := by
    intro c
    have before := sequenced.whole opened c
    unfold acceptedOn at before
    simp only [acceptedOn, Queues.enqueue, map_append, map_cons, map_nil, on_lane_append, before]
    by_cases same : m.class_ = c
    · subst same
      simp
    · simp [same, Ne.symm same]
  refine ⟨fun c queued known => ?_, fun c => ?_, fun _ => logged, fun shut => ?_⟩
  · by_cases same : c = m.class_
    · subst same
      simp only [Queues.enqueue, update_self, mem_append, mem_singleton] at known
      rcases known with old | rfl
      · exact sequenced.classed _ queued old
      · rfl
    · simp only [Queues.enqueue, update_of_ne same] at known
      exact sequenced.classed c queued known
  · rw [logged]
    exact prefix_append _ _
  · simp [Queues.enqueue, opened] at shut

theorem dequeue_sequenced (sequenced : Sequenced q) {c : TrafficClass} {m : QueuedMessage}
    {rest : List QueuedMessage} (first : q.lane c = m :: rest) : Sequenced (q.dequeue c m rest) := by
  have class_ : m.class_ = c := sequenced.classed c m (by simp [first])
  -- A lane that is shut is empty, so the queue was open and its logs were whole.
  have opened : q.closed = false := by
    by_contra shut
    have empty := sequenced.shut (by simpa using shut) c
    simp [first] at empty
  have logged : ∀ other, acceptedOn other q = onLane other (q.popped ++ [m]) ++ update q.lane c rest other := by
    intro other
    rw [sequenced.whole opened other, on_lane_append]
    by_cases same : other = c
    · subst same
      simp [class_, first]
    · rw [class_, if_neg (Ne.symm same), update_of_ne same]
  refine ⟨fun other queued known => ?_, fun other => ?_, fun _ => logged, fun shut => ?_⟩
  · by_cases same : other = c
    · subst same
      simp only [Queues.dequeue, update_self] at known
      exact sequenced.classed other queued (by simp [first, known])
    · simp only [Queues.dequeue, update_of_ne same] at known
      exact sequenced.classed other queued known
  · rw [show acceptedOn other (q.dequeue c m rest) = acceptedOn other q from rfl, logged other]
    exact prefix_append _ _
  · simp [Queues.dequeue, opened] at shut

theorem change_sequenced {next : Queues} (change : QueueChange q next) (sequenced : Sequenced q) : Sequenced next := by
  cases change with
  | kept => exact sequenced
  | enqueued call m opened => exact enqueue_sequenced sequenced call m opened
  | dequeued c m rest first => exact dequeue_sequenced sequenced first
  | emptied =>
    refine ⟨fun c m known => ?_, sequenced.ordered, fun opened => ?_, fun _ _ => rfl⟩
    · cases known
    · contradiction

theorem change_shut {next : Queues} (change : QueueChange q next) (shut : q.closed)
    (sequenced : Sequenced q) : next.closed ∧ next.accepted = q.accepted ∧ next.popped = q.popped := by
  cases change with
  | kept => exact ⟨shut, rfl, rfl⟩
  | enqueued call m opened => simp [shut] at opened
  | dequeued c m rest first =>
    have empty := sequenced.shut shut c
    simp [first] at empty
  | emptied => exact ⟨rfl, rfl, rfl⟩

def Succeeds (place : Call) (msg : Bytes) : Prop :=
  place = .waking msg ∨ place = .returned msg .ok

structure Answered (s : WsSender) : Prop where
  exact : ∀ call m, (call, m) ∈ s.accepted ↔
    ∃ msg, m = ⟨msg, classifyTraffic msg⟩ ∧ Succeeds (s.calls call) msg
  once : (s.accepted.map Prod.fst).Nodup

def Delivered (s : WsSender) : Prop :=
  match s.writer with
  | .popping | .parked => s.popped = s.written
  | .writing m => s.popped = s.written ++ [m]
  | .closing | .exited => s.written <+: s.popped

def Awake (s : WsSender) : Prop :=
  s.writer = .parked → s.closed = false → s.control ≠ [] ∨ s.output ≠ [] →
    s.wake ∨ ∃ call msg, s.calls call = .waking msg

theorem answered_moved (answered : Answered s) (call : Nat) {place : Call}
    (same : ∀ msg, Succeeds place msg ↔ Succeeds (s.calls call) msg) : Answered (setCall s call place) := by
  refine ⟨fun other m => (answered.exact other m).trans ?_, answered.once⟩
  by_cases mine : other = call
  · subst mine
    simp [setCall, same]
  · simp [setCall, mine]

theorem answered_send (answered : Answered s) {call : Nat} {msg : Bytes} (idle : s.calls call = .idle)
    (calls : next.calls = update s.calls call (.waking msg))
    (logged : next.accepted = s.accepted ++ [(call, ⟨msg, classifyTraffic msg⟩)]) : Answered next := by
  have fresh : ∀ m, (call, m) ∉ s.accepted := by
    intro m known
    obtain ⟨sent, -, success⟩ := (answered.exact call m).mp known
    simp [Succeeds, idle] at success
  constructor
  · intro other m
    rw [logged, calls, mem_append, mem_singleton]
    by_cases mine : other = call
    · subst mine
      simp [fresh, Succeeds]
    · simp [mine, answered.exact other m]
  · rw [logged, map_append, nodup_append]
    refine ⟨answered.once, by simp, ?_⟩
    intro earlier known later last same
    obtain ⟨entry, listed, rfl⟩ := mem_map.mp known
    have mine : entry.1 = call := same.trans (by simpa using last)
    exact fresh entry.2 (by rw [← mine]; exact listed)

theorem send_answered (answered : Answered s) (call : Nat) (msg : Bytes)
    (idle : s.calls call = .idle) : Answered (sendClass s call msg (classifyTraffic msg)) := by
  rcases send_class_cases s call msg (classifyTraffic msg) with
    ⟨-, refused⟩ | full | ⟨-, -, -, calls, -, -, enqueued⟩
  · rw [refused]
    exact answered_moved answered call (by simp [Succeeds, idle])
  · rw [full]
    exact answered_moved answered call (by simp [Succeeds, idle])
  · exact answered_send answered idle calls (congrArg Queues.accepted enqueued)

theorem leave_answered (answered : Answered s) (caller : Caller) : Answered (leaveShutdown s caller) := by
  unfold leaveShutdown
  split
  · split
    · rename_i call _ msg evicting
      exact answered_moved answered call (by simp [Succeeds, evicting])
    · exact answered
  · exact ⟨answered.exact, answered.once⟩
  · exact ⟨answered.exact, answered.once⟩

theorem send_delivered (delivered : Delivered s) (call : Nat) (msg : Bytes) :
    Delivered (sendClass s call msg (classifyTraffic msg)) := by
  rcases send_class_cases s call msg (classifyTraffic msg) with
    ⟨-, refused⟩ | full | ⟨-, -, -, -, writer, written, enqueued⟩
  · rw [refused]
    exact delivered
  · rw [full]
    exact delivered
  · have popped : (sendClass s call msg (classifyTraffic msg)).popped = s.popped :=
      congrArg Queues.popped enqueued
    unfold Delivered
    rw [writer, written, popped]
    exact delivered

-- A call that was not about to wake the writer is not missed.
theorem awake_moved (awake : Awake s) (call : Nat) (place : Call)
    (quiet : ∀ msg, s.calls call ≠ .waking msg) : Awake (setCall s call place) := by
  intro parked opened queued
  rcases awake parked opened queued with token | ⟨other, sent, waking⟩
  · exact Or.inl token
  · have apart : other ≠ call := by
      rintro rfl
      exact quiet sent waking
    exact Or.inr ⟨other, sent, by simp [setCall, apart, waking]⟩

theorem send_awake (awake : Awake s) (call : Nat) (msg : Bytes)
    (idle : s.calls call = .idle) : Awake (sendClass s call msg (classifyTraffic msg)) := by
  have quiet : ∀ sent, s.calls call ≠ .waking sent := by simp [idle]
  rcases send_class_cases s call msg (classifyTraffic msg) with
    ⟨-, refused⟩ | full | ⟨-, -, -, calls, -, -, -⟩
  · rw [refused]
    exact awake_moved awake call _ quiet
  · rw [full]
    exact awake_moved awake call _ quiet
  · exact fun _ _ _ => Or.inr ⟨call, msg, by simp [calls]⟩

theorem leave_rest (caller : Caller) (here : atShutdown s caller) (delivered : Delivered s) (awake : Awake s) :
    Delivered (leaveShutdown s caller) ∧ Awake (leaveShutdown s caller) := by
  cases caller with
  | send call =>
    unfold leaveShutdown
    dsimp only
    split
    · rename_i evicting
      exact ⟨delivered, awake_moved awake call _ (by simp [evicting])⟩
    · exact ⟨delivered, awake⟩
  | writer =>
    have closing : s.writer = .closing := by simpa [atShutdown] using here
    refine ⟨?_, fun parked => by simp [leaveShutdown] at parked⟩
    simpa [Delivered, closing, leaveShutdown] using delivered
  | handler => exact ⟨delivered, awake⟩

structure Protocol (s : WsSender) : Prop where
  answered : Answered s
  delivered : Delivered s
  awake : Awake s

theorem step_protocol (stepped : step s action = some next) (protocol : Protocol s) : Protocol next := by
  obtain ⟨answered, delivered, awake⟩ := protocol
  have calls := answered.exact
  have once := answered.once
  cases action with
  | send call msg =>
    simp only [step] at stepped
    split at stepped <;> cases stepped
    rename_i idle
    exact ⟨send_answered answered call msg idle, send_delivered delivered call msg, send_awake awake call msg idle⟩
  | wake call =>
    simp only [step] at stepped
    split at stepped <;> cases stepped
    rename_i msg waking
    refine ⟨?_, delivered, fun _ _ _ => Or.inl rfl⟩
    have same : ∀ sent, Succeeds (.returned msg .ok) sent ↔ Succeeds (s.calls call) sent := by
      simp [Succeeds, waking]
    exact ⟨(answered_moved answered call same).exact, once⟩
  | pop =>
    simp only [step, ite_none_right_eq_some, some.injEq] at stepped
    obtain ⟨popping, rfl⟩ := stepped
    obtain ⟨written, unmoved⟩ := pop_written s
    have settled : s.popped = s.written := by simpa [Delivered, popping] using delivered
    rcases pop_cases s with ⟨c, m, rest, -, -, writer, taken⟩ | ⟨control, output, empty⟩
    · have logged : (popNext s).accepted = s.accepted := congrArg Queues.accepted taken
      have popped : (popNext s).popped = s.popped ++ [m] := congrArg Queues.popped taken
      refine ⟨⟨by rwa [logged, unmoved], by rwa [logged]⟩, ?_, fun parked => ?_⟩
      · simp [Delivered, writer, written, popped, settled]
      · simp [writer] at parked
    · rw [empty]
      refine ⟨⟨calls, once⟩, settled, fun _ _ queued => ?_⟩
      simp [control, output] at queued
  | writeOK =>
    simp only [step] at stepped
    split at stepped <;> cases stepped
    rename_i writing
    refine ⟨⟨calls, once⟩, ?_, nofun⟩
    simpa [Delivered, writing] using delivered
  | writeFailed =>
    simp only [step] at stepped
    split at stepped <;> cases stepped
    rename_i m writing
    refine ⟨⟨calls, once⟩, ?_, nofun⟩
    have held : s.popped = s.written ++ [m] := by simpa [Delivered, writing] using delivered
    simp [Delivered, held]
  | receiveWake =>
    simp only [step, ite_none_right_eq_some, some.injEq] at stepped
    obtain ⟨⟨parked, -⟩, rfl⟩ := stepped
    refine ⟨⟨calls, once⟩, ?_, nofun⟩
    simpa [Delivered, parked] using delivered
  | receiveDone | receiveCtx =>
    simp only [step, ite_none_right_eq_some, some.injEq] at stepped
    obtain ⟨⟨parked, -⟩, rfl⟩ := stepped
    refine ⟨⟨calls, once⟩, ?_, nofun⟩
    have settled : s.popped = s.written := by simpa [Delivered, parked] using delivered
    simp [Delivered, settled]
  | cancel =>
    cases stepped
    exact ⟨⟨calls, once⟩, delivered, awake⟩
  | shutdown _ | enterOnce _ =>
    simp only [step, ite_none_right_eq_some, some.injEq] at stepped
    rw [← stepped.2]
    exact ⟨⟨calls, once⟩, delivered, awake⟩
  | closeQueues =>
    simp only [step] at stepped
    split at stepped <;> cases stepped
    exact ⟨⟨calls, once⟩, delivered, nofun⟩
  | closeDone | closeConn =>
    simp only [step] at stepped
    split at stepped <;> cases stepped
    exact ⟨⟨calls, once⟩, delivered, awake⟩
  | leave caller =>
    simp only [step, ite_none_right_eq_some, some.injEq] at stepped
    obtain ⟨⟨-, here⟩, rfl⟩ := stepped
    obtain ⟨kept, alert⟩ := leave_rest caller here delivered awake
    exact ⟨leave_answered answered caller, kept, alert⟩

structure Inv (s : WsSender) : Prop where
  accounted : Accounted (queues s)
  sequenced : Sequenced (queues s)
  protocol : Protocol s

theorem step_inv (inv : Inv s) (stepped : step s action = some next) : Inv next :=
  ⟨change_accounted (step_queues stepped) inv.accounted,
    change_sequenced (step_queues stepped) inv.sequenced, step_protocol stepped inv.protocol⟩

theorem initial_inv : Inv newWsSender := by
  have empty : ∀ c, lane newWsSender c = [] := fun c => by cases c <;> rfl
  have weightless : ∀ c, bytes newWsSender c = 0 := fun c => by cases c <;> rfl
  have accounted : Accounted (queues newWsSender) := by
    refine ⟨fun c => ?_, fun c => ?_, fun c => ?_⟩ <;> simp only [queues, empty, weightless]
    · rfl
    · exact Nat.zero_le _
    · exact limit_nonneg c
  have sequenced : Sequenced (queues newWsSender) := by
    refine ⟨fun c m known => ?_, fun c => List.nil_prefix, fun _ c => ?_, nofun⟩
    · simp [queues, empty] at known
    · simp only [queues, empty]
      rfl
  have answered : Answered newWsSender :=
    ⟨fun call m => by simp [newWsSender, Succeeds], nodup_nil⟩
  exact ⟨accounted, sequenced, answered, rfl, nofun⟩

theorem reachable_inv {actions : List Action} (ran : run step newWsSender actions = some s) : Inv s :=
  run_invariant Inv (fun _ _ _ inv stepped => step_inv inv stepped) ran initial_inv

theorem written_popped (delivered : Delivered s) : s.written <+: s.popped := by
  unfold Delivered at delivered
  split at delivered
  · exact delivered ▸ prefix_rfl
  · exact delivered ▸ prefix_rfl
  · rw [delivered]
    exact prefix_append _ _
  · exact delivered
  · exact delivered

/-- Written in each lane: the first messages accepted there, in their order. While the sender
    is open, what is accepted and not popped is still queued. -/
structure FirstInFirstOut (s : WsSender) : Prop where
  written : ∀ c, onLane c s.written <+: acceptedOn c (queues s)
  queued : s.closed = false → ∀ c, acceptedOn c (queues s) = onLane c s.popped ++ lane s c

def ControlFirst (s : WsSender) : Prop :=
  ∀ action next m, step s action = some next → next.popped = s.popped ++ [m] →
    m.class_ = .output → s.control = []

def Final (s : WsSender) : Prop :=
  s.closed → ∀ later t, run step s later = some t →
    t.closed ∧ t.accepted = s.accepted ∧ t.popped = s.popped

theorem control_first (inv : Inv s) : ControlFirst s := by
  intro action next m stepped taken output
  have change := step_queues stepped
  have grown : (queues next).popped = (queues s).popped ++ [m] := taken
  generalize queues next = after at change grown
  cases change with
  | kept => simp at grown
  | enqueued => simp [Queues.enqueue] at grown
  | dequeued c head rest first priority =>
    have same : head = m := by simpa [Queues.dequeue] using grown
    have class_ := inv.sequenced.classed c head (by simp [first])
    exact priority (by rw [← class_, same, output])
  | emptied => simp at grown

theorem shut_final (inv : Inv s) : Final s := by
  intro shut later t ran
  have kept := run_invariant (fun t => Inv t ∧ t.closed ∧ t.accepted = s.accepted ∧ t.popped = s.popped)
    (fun middle action next held stepped => by
      obtain ⟨here, closed, accepted, popped⟩ := held
      obtain ⟨still, same, unmoved⟩ := change_shut (step_queues stepped) closed here.sequenced
      exact ⟨step_inv here stepped, still, same.trans accepted, unmoved.trans popped⟩)
    ran ⟨inv, shut, rfl, rfl⟩
  exact kept.2

theorem first_in_first_out (inv : Inv s) : FirstInFirstOut s where
  written := fun c =>
    ((written_popped inv.protocol.delivered).filter _).trans (inv.sequenced.ordered c)
  queued := inv.sequenced.whole

/-- Every history of one sender, with any number of concurrent calls. -/
theorem async_sender (actions : List Action) (s : WsSender) (ran : run step newWsSender actions = some s) :
    Accounted (queues s) ∧ Answered s ∧ FirstInFirstOut s ∧ ControlFirst s ∧ Final s ∧ Awake s := by
  have inv := reachable_inv ran
  exact ⟨inv.accounted, inv.protocol.answered, first_in_first_out inv, control_first inv, shut_final inv,
    inv.protocol.awake⟩

def outputFrame : Bytes := JsonObjects.writeObject [("type", JsonStrings.quoteString "pty_output")]
def controlFrame : Bytes := JsonObjects.writeObject [("type", JsonStrings.quoteString "driver_state")]

/-- The writer parks; output and control are sent, the control frame overtakes, and a handler
    shuts the sender down while the writer holds the output frame. -/
def overtaking : List Action :=
  [.pop, .send 0 outputFrame, .send 1 controlFrame, .wake 0, .wake 1, .receiveWake, .pop, .writeOK,
    .pop, .shutdown 0, .enterOnce (.handler 0), .closeQueues, .send 2 controlFrame, .writeOK]

theorem async_sender_overtaking : ∃ s, run step newWsSender overtaking = some s ∧ s.closed ∧
      s.accepted = [(0, ⟨outputFrame, .output⟩), (1, ⟨controlFrame, .control⟩)] ∧
      s.written = [⟨controlFrame, .control⟩, ⟨outputFrame, .output⟩] ∧
      Accounted (queues s) ∧ Answered s ∧ FirstInFirstOut s ∧ ControlFirst s ∧ Final s ∧ Awake s := by
  have shape : (run step newWsSender overtaking).map (fun s => (s.closed, s.accepted, s.written)) =
      some (true, [(0, ⟨outputFrame, .output⟩), (1, ⟨controlFrame, .control⟩)],
        [⟨controlFrame, .control⟩, ⟨outputFrame, .output⟩]) := rfl
  obtain ⟨s, ran, seen⟩ := map_eq_some_iff.mp shape
  simp only [Prod.mk.injEq] at seen
  exact ⟨s, ran, seen.1, seen.2.1, seen.2.2, async_sender overtaking s ran⟩

end PieRelay.AsyncSender
