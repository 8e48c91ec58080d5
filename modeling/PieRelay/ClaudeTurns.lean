import PieRelay.Executions
import Mathlib.Data.List.Infix

/-!
The turns of the chat executor, client/node-executor/executor.mjs, and the events that end one: `done`, `error` and
`aborted`. A chat goes into the query that is running or starts another; an older query goes on until its stream ends.
What the SDK does is free: when it takes a message, what events it sends, and when its stream ends or throws. Left out:
the other events that are written, permissions, workspaces and usage.
-/
namespace PieRelay.ClaudeTurns
open Executions List Option

structure Image where
  data : Option Nat
  mimeType : Option String

inductive Images where
  | absent
  | other
  | images (images : List (Option Image))

/-- `text` is the prompt, `cwd` what it resolves to, and no `sessionId` an empty one. -/
structure ChatRequest where
  text : String
  images : Images
  cwd : String
  sessionId : String

def maxImageCount : Nat := 20

def maxImageDataChars : Nat := 15 * 1024 * 1024

def supportedImageMimeTypes : List String := ["image/jpeg", "image/png", "image/gif", "image/webp"]

def validateImages : Images → Bool
  | .absent => true
  | .other => false
  | .images images => images.length ≤ maxImageCount ∧ images.all fun image =>
    image.any fun image => image.data.any (fun length => 0 < length ∧ length ≤ maxImageDataChars) ∧
      image.mimeType.any (· ∈ supportedImageMimeTypes)

def isSpace (c : Char) : Bool :=
  c.toNat ∈ [0x09, 0x0a, 0x0b, 0x0c, 0x0d, 0x20, 0xa0, 0x1680, 0x2028, 0x2029, 0x202f, 0x205f, 0x3000, 0xfeff] ∨
    (0x2000 ≤ c.toNat ∧ c.toNat ≤ 0x200a)

def isBlank (text : String) : Bool := text.toList.all isSpace

def hasAbort (message : String) : Bool := "abort".toList <:+: message.toList.map Char.toLower

inductive Terminal where
  | done (sessionId : Option String)
  | error (message : String)
  | aborted
  deriving DecidableEq

inductive Phase where
  | failed (message : String)
  | streaming
  | draining
  | gone
  deriving DecidableEq

structure Session where
  queuedCount : Nat
  ended : Bool
  cwd : String
  requestedSessionId : Option String
  capturedSessionId : Option String
  q : Bool
  openTurns : Nat
  closed : Bool
  pendingTaskIds : List String
  inNotificationTurn : Bool
  pollTimer : Bool
  bgTimeout : Bool
  timedOut : Bool
  phase : Phase
  /-- The chats that it has accepted, and the terminal events that it has written. -/
  accepted : Nat
  answered : Nat

def newSession (req : ChatRequest) (failure : Option String) : Session where
  queuedCount := 1
  ended := false
  cwd := req.cwd
  requestedSessionId := if req.sessionId = "" then none else some req.sessionId
  capturedSessionId := none
  q := failure.isNone
  openTurns := 1
  closed := false
  pendingTaskIds := []
  inNotificationTurn := false
  pollTimer := false
  bgTimeout := false
  timedOut := false
  phase := failure.elim .streaming .failed
  accepted := 1
  answered := 0

inductive Kind where
  | taskStarted (taskId : String) (skip : Bool)
  | taskUpdated (taskId : String) (settled : Bool)
  | taskNotification (taskId : String)
  | notified
  | result
  | other

structure Event where
  sessionId : String
  kind : Kind

def emitTurnDone (s : Session) : Session × Option Terminal :=
  ({ s with openTurns := s.openTurns - 1, answered := s.answered + 1 }, some (.done s.capturedSessionId))

def settleTask (s : Session) (taskId : String) : Session :=
  { s with pendingTaskIds := s.pendingTaskIds.filter (· ≠ taskId) }

def clearBg (s : Session) : Session := { s with pollTimer := false, bgTimeout := false }

def maybeClose (s : Session) : Session :=
  if s.openTurns = 0 ∧ s.queuedCount = 0 ∧ s.pendingTaskIds = [] then { s with ended := true } else s

def capture (s : Session) (sessionId : String) : Session :=
  if sessionId ≠ "" ∧ s.capturedSessionId = none then { s with capturedSessionId := some sessionId } else s

def keepOpen (s : Session) : Session := if s.pendingTaskIds = [] then s else { s with pollTimer := true, bgTimeout := true }

def onResult (s : Session) : Session × Option Terminal :=
  let r := if s.inNotificationTurn then ({ s with inNotificationTurn := false }, none) else emitTurnDone s
  (maybeClose (keepOpen r.1), r.2)

def onEvent (s : Session) (e : Event) : Session × Option Terminal :=
  let s := capture s e.sessionId
  match e.kind with
  | .taskStarted taskId skip =>
    (if skip ∨ taskId ∈ s.pendingTaskIds then s else { s with pendingTaskIds := s.pendingTaskIds ++ [taskId] }, none)
  | .taskUpdated taskId settled => (if settled then settleTask s taskId else s, none)
  | .taskNotification taskId =>
    let s := settleTask s taskId
    (maybeClose (if s.pendingTaskIds = [] then clearBg s else s), none)
  | .notified => ({ s with inNotificationTurn := true }, none)
  | .result => onResult s
  | .other => (s, none)

def finish (s : Session) : Session := { clearBg s with ended := true, phase := .gone }

def unlock (s : Session) : Session × Option Terminal :=
  if 0 < s.openTurns then
    (finish { s with openTurns := 0, answered := s.answered + 1 }, some (.done s.capturedSessionId))
  else (finish s, none)

def streamEnds (s : Session) : Session × Option Terminal :=
  if s.pendingTaskIds ≠ [] ∧ ¬ s.timedOut then ({ s with phase := .draining }, none) else unlock s

def drained (s : Session) : Session × Option Terminal := unlock { s with pendingTaskIds := [] }

def streamThrows (s : Session) (message : String) : Session × Option Terminal :=
  (finish { s with pendingTaskIds := [], answered := s.answered + 1 },
    some (if hasAbort message then .aborted else .error message))

structure Written where
  event : Terminal
  turns : Nat

structure World where
  sessions : List Session
  active : Option Nat
  terminals : List Written
  exited : Bool
  /-- The chats that have been accepted. -/
  accepted : Nat

def launch (installed : Bool) : World :=
  if installed then ⟨[], none, [], false, 0⟩
  else ⟨[], none, [⟨.error "@anthropic-ai/claude-agent-sdk not installed (run npm install in node-executor/)", 0⟩], true, 0⟩

def turns (s : Session) : Nat := if s.phase = .gone then 0 else s.openTurns

def total (f : Session → Nat) : List Session → Nat
  | [] => 0
  | s :: rest => f s + total f rest

def out (w : World) (event : Terminal) : World :=
  { w with terminals := w.terminals ++ [⟨event, total turns w.sessions⟩] }

def moves (w : World) (i : Nat) (r : Session × Option Terminal) : World :=
  match r.2 with
  | none => { w with sessions := w.sessions.set i r.1 }
  | some event => { out w event with sessions := w.sessions.set i r.1 }

def activeSession (w : World) : Option (Nat × Session) :=
  w.active.bind fun i => (w.sessions[i]?).map fun s => (i, s)

def continues (w : World) (req : ChatRequest) : Option (Nat × Session) :=
  (activeSession w).filter fun (_, s) => ¬ s.closed ∧ s.cwd = req.cwd ∧ req.sessionId ≠ "" ∧
    (s.capturedSessionId = some req.sessionId ∨ s.requestedSessionId = some req.sessionId)

def endInput (w : World) : World :=
  match activeSession w with
  | some (i, s) => if s.closed then w else { w with sessions := w.sessions.set i { s with ended := true } }
  | none => w

def startQuery (w : World) (req : ChatRequest) (failure : Option String) : World :=
  let w := endInput w
  { w with
    sessions := w.sessions ++ [newSession req failure], active := some w.sessions.length, accepted := w.accepted + 1 }

def pushTurn (s : Session) : Session :=
  { s with openTurns := s.openTurns + 1, queuedCount := s.queuedCount + 1, accepted := s.accepted + 1 }

def handleChat (w : World) (req : ChatRequest) (failure : Option String) : World :=
  if isBlank req.text then out w (.error "Empty prompt")
  else if ¬ validateImages req.images then
    out w (.error "invalid images: must be an array of \x7bdata: string, mimeType: string\x7d objects with a supported mimeType")
  else match continues w req with
    | some (i, s) =>
      if s.ended then startQuery w req failure
      else { w with sessions := w.sessions.set i (pushTurn s), accepted := w.accepted + 1 }
    | none => startQuery w req failure

/-- A line of the input that is not blank; some make the handler throw, such as `null`, which ends the process. -/
inductive Line where
  | malformed
  | throws (message : String)
  | chat (req : ChatRequest) (failure : Option String)
  | abort
  | other

def handleLine (w : World) : Line → World
  | .malformed => out w (.error "invalid json request")
  | .throws message => { out w (.error message) with exited := true }
  | .chat req failure => handleChat w req failure
  | .abort => match activeSession w with
    | some (_, s) => if s.q then out w .aborted else w
    | none => w
  | .other => w

inductive Turn where
  | event (e : Event)
  | take
  | poll (taskIds : List String)
  | timeout
  | streamEnds
  | drained
  | streamThrows (message : String)
  | report

def onTurn (s : Session) : Turn → Option (Session × Option Terminal)
  | .event e => if s.phase = .streaming then some (onEvent s e) else none
  | .take => if s.queuedCount = 0 then none else some ({ s with queuedCount := s.queuedCount - 1 }, none)
  | .poll taskIds => if s.pollTimer then some (taskIds.foldl settleTask s, none) else none
  | .timeout => if s.bgTimeout then some ({ s with timedOut := true }, none) else none
  | .streamEnds => if s.phase = .streaming then some (streamEnds s) else none
  | .drained => if s.phase = .draining then some (drained s) else none
  | .streamThrows message =>
    if s.phase = .streaming ∨ s.phase = .draining then some (streamThrows s message) else none
  | .report => match s.phase with
    | .failed message => some ({ s with phase := .gone, answered := s.answered + 1 }, some (.error message))
    | _ => none

inductive Action where
  | line (line : Line)
  | turn (i : Nat) (turn : Turn)
  | settle (i : Nat)

def step (w : World) (action : Action) : Option World :=
  if w.exited then none
  else match action with
    | .line line => some (handleLine w line)
    | .turn i turn => (w.sessions[i]?).bind fun s => (onTurn s turn).map (moves w i)
    | .settle i => (w.sessions[i]?).bind fun s =>
      if s.phase = .gone ∧ ¬ s.closed then some { w with
        sessions := w.sessions.set i { s with closed := true }, active := if w.active = some i then none else w.active }
      else none

structure Outcomes (w : World) : Prop where
  bounded : w.terminals.length ≤ w.accepted
  answered : ∀ s ∈ w.sessions, s.phase = .gone → s.answered = s.accepted
  opened : ∀ t ∈ w.terminals, 0 < t.turns

def CarefulTurn (s : Session) : Turn → Prop
  | .event e => e.kind = .result → s.inNotificationTurn = false → 0 < s.openTurns
  | .streamEnds => s.pendingTaskIds = [] ∨ s.timedOut → s.openTurns ≤ 1
  | .drained => s.openTurns ≤ 1
  | .streamThrows _ => s.openTurns = 1
  | .report => s.openTurns = 1
  | _ => True

def Careful (w : World) : Action → Prop
  | .line .malformed => False
  | .line (.throws _) => 0 < total turns w.sessions
  | .line (.chat req _) => isBlank req.text = false ∧ validateImages req.images ∧
      ∀ i s, continues w req = some (i, s) → s.ended = false → s.phase ≠ .gone
  | .line .abort => ∀ i s, activeSession w = some (i, s) → s.q = false
  | .line .other => True
  | .turn i turn => ∀ s ∈ w.sessions[i]?, CarefulTurn s turn
  | .settle _ => True

section Totals
variable {f : Session → Nat} {sessions : List Session}

theorem total_set {i : Nat} {s : Session} (there : sessions[i]? = some s) (t : Session) :
    total f (sessions.set i t) + f s = total f sessions + f t := by
  induction sessions generalizing i with
  | nil => simp at there
  | cons head rest ih =>
    cases i with
    | zero =>
      rw [getElem?_cons_zero, some.injEq] at there
      subst there
      rw [set_cons_zero, total, total]
      omega
    | succ =>
      have onward := ih ((getElem?_cons_succ ..).symm.trans there)
      rw [set_cons_succ, total, total]
      omega

theorem total_append (sessions : List Session) (s : Session) : total f (sessions ++ [s]) = total f sessions + f s := by
  induction sessions with
  | nil => exact (Nat.zero_add _).symm
  | cons head rest ih => rw [cons_append, total, total, ih, Nat.add_assoc]

theorem le_total {s : Session} (member : s ∈ sessions) : f s ≤ total f sessions := by
  induction sessions with
  | nil => cases member
  | cons head rest ih =>
    rcases mem_cons.mp member with rfl | member
    · exact Nat.le_add_right _ _
    · exact Nat.le_add_left_of_le (ih member)

end Totals

section Query
variable {s t : Session} {r : Session × Option Terminal}

def Balanced (s : Session) : Prop := turns s + s.answered = s.accepted

structure Kept (s : Session) (r : Session × Option Terminal) : Prop where
  balanced : Balanced r.1
  accepted : r.1.accepted = s.accepted
  answered : r.1.answered = s.answered + r.2.toList.length
  opened : ∀ event ∈ r.2, 0 < turns s

structure Alike (t s : Session) : Prop where
  openTurns : t.openTurns = s.openTurns
  phase : t.phase = s.phase
  accepted : t.accepted = s.accepted
  answered : t.answered = s.answered
  notified : t.inNotificationTurn = s.inNotificationTurn

theorem Alike.trans {u : Session} (first : Alike u t) (second : Alike t s) : Alike u s where
  openTurns := first.openTurns.trans second.openTurns
  phase := first.phase.trans second.phase
  accepted := first.accepted.trans second.accepted
  answered := first.answered.trans second.answered
  notified := first.notified.trans second.notified

theorem alike_turns (alike : Alike t s) : turns t = turns s := by rw [turns, turns, alike.phase, alike.openTurns]

theorem alike_balanced (alike : Alike t s) (balanced : Balanced s) : Balanced t := by
  rw [Balanced, alike_turns alike, alike.answered, alike.accepted]
  exact balanced

theorem alike_kept (alike : Alike t s) (balanced : Balanced s) : Kept s (t, none) where
  balanced := alike_balanced alike balanced
  accepted := alike.accepted
  answered := alike.answered
  opened _ none_ := by cases none_

theorem kept_after (kept : Kept s r) (alike : Alike t r.1) : Kept s (t, r.2) where
  balanced := alike_balanced alike kept.balanced
  accepted := alike.accepted.trans kept.accepted
  answered := alike.answered.trans kept.answered
  opened := kept.opened

theorem kept_before (alike : Alike t s) (kept : Kept t r) : Kept s r where
  balanced := kept.balanced
  accepted := kept.accepted.trans alike.accepted
  answered := alike.answered ▸ kept.answered
  opened event written := alike_turns alike ▸ kept.opened event written

theorem capture_alike (s : Session) (sessionId : String) : Alike (capture s sessionId) s := by
  unfold capture
  split
  · exact ⟨rfl, rfl, rfl, rfl, rfl⟩
  · exact ⟨rfl, rfl, rfl, rfl, rfl⟩

theorem settle_alike (s : Session) (taskId : String) : Alike (settleTask s taskId) s := ⟨rfl, rfl, rfl, rfl, rfl⟩

theorem settles_alike (taskIds : List String) (s : Session) : Alike (taskIds.foldl settleTask s) s := by
  induction taskIds generalizing s with
  | nil => exact ⟨rfl, rfl, rfl, rfl, rfl⟩
  | cons taskId rest ih => exact (ih (settleTask s taskId)).trans (settle_alike s taskId)

theorem close_alike (s : Session) : Alike (maybeClose s) s := by
  unfold maybeClose
  split
  · exact ⟨rfl, rfl, rfl, rfl, rfl⟩
  · exact ⟨rfl, rfl, rfl, rfl, rfl⟩

theorem open_alike (s : Session) : Alike (keepOpen s) s := by
  unfold keepOpen
  split
  · exact ⟨rfl, rfl, rfl, rfl, rfl⟩
  · exact ⟨rfl, rfl, rfl, rfl, rfl⟩

section
variable (balanced : Balanced s)
include balanced

theorem result_kept (running : s.phase = .streaming)
    (careful : s.inNotificationTurn = false → 0 < s.openTurns) : Kept s (onResult s) := by
  have counted : turns s = s.openTurns := by rw [turns, running, if_neg (by decide)]
  unfold onResult
  dsimp only
  have first : Kept s (if s.inNotificationTurn then ({ s with inNotificationTurn := false }, none) else emitTurnDone s) := by
    split
    · exact ⟨balanced, rfl, rfl, fun _ none_ => (by cases none_)⟩
    · next answers =>
      have open_ := careful (Bool.eq_false_iff.mpr answers)
      refine ⟨?_, rfl, rfl, fun _ _ => counted.symm ▸ open_⟩
      rw [Balanced, counted] at balanced
      change turns { s with openTurns := s.openTurns - 1, answered := s.answered + 1 } + (s.answered + 1) = s.accepted
      rw [turns, if_neg (by rw [running]; decide)]
      dsimp only
      omega
  exact kept_after first ((close_alike _).trans (open_alike _))

theorem event_kept {e : Event} (running : s.phase = .streaming)
    (careful : e.kind = .result → s.inNotificationTurn = false → 0 < s.openTurns) : Kept s (onEvent s e) := by
  have captured := capture_alike s e.sessionId
  have balanced' := alike_balanced captured balanced
  refine kept_before captured ?_
  unfold onEvent
  dsimp only
  split
  · refine alike_kept ?_ balanced'
    split
    · exact ⟨rfl, rfl, rfl, rfl, rfl⟩
    · exact ⟨rfl, rfl, rfl, rfl, rfl⟩
  · refine alike_kept ?_ balanced'
    split
    · exact settle_alike _ _
    · exact ⟨rfl, rfl, rfl, rfl, rfl⟩
  · refine alike_kept ((close_alike _).trans ?_) balanced'
    split
    · exact ⟨rfl, rfl, rfl, rfl, rfl⟩
    · exact settle_alike _ _
  · exact ⟨balanced', rfl, rfl, fun _ none_ => (by cases none_)⟩
  · next kind =>
    refine result_kept balanced' (captured.phase.trans running) fun answers => ?_
    rw [captured.openTurns]
    exact careful kind (captured.notified.symm.trans answers)
  · exact alike_kept ⟨rfl, rfl, rfl, rfl, rfl⟩ balanced'

theorem unlock_kept (running : s.phase ≠ .gone) (one : s.openTurns ≤ 1) : Kept s (unlock s) := by
  have counted : turns s = s.openTurns := if_neg running
  rw [Balanced, counted] at balanced
  unfold unlock
  split
  · next open_ =>
    refine ⟨?_, rfl, rfl, fun _ _ => counted.symm ▸ open_⟩
    change 0 + (s.answered + 1) = s.accepted
    omega
  · next none_ =>
    refine ⟨?_, rfl, rfl, fun _ none_ => (by cases none_)⟩
    change 0 + s.answered = s.accepted
    omega

theorem last_kept (running : s.phase ≠ .gone) (one : s.openTurns = 1) (gone : t.phase = .gone)
    (accepted : t.accepted = s.accepted) (answered : t.answered = s.answered + 1) (event : Terminal) :
    Kept s (t, some event) := by
  have counted : turns s = s.openTurns := if_neg running
  rw [Balanced, counted] at balanced
  refine ⟨?_, accepted, answered, fun _ _ => by rw [counted, one]; exact Nat.zero_lt_one⟩
  rw [Balanced, turns, if_pos gone, accepted, answered]
  omega

theorem turn_kept {turn : Turn} (careful : CarefulTurn s turn) (turned : onTurn s turn = some r) : Kept s r := by
  cases turn with
  | event =>
    rw [onTurn, ite_none_right_eq_some, some.injEq] at turned
    obtain ⟨running, rfl⟩ := turned
    exact event_kept balanced running careful
  | take =>
    rw [onTurn, ite_none_left_eq_some, some.injEq] at turned
    obtain ⟨_, rfl⟩ := turned
    exact alike_kept ⟨rfl, rfl, rfl, rfl, rfl⟩ balanced
  | poll taskIds =>
    rw [onTurn, ite_none_right_eq_some, some.injEq] at turned
    obtain ⟨_, rfl⟩ := turned
    exact alike_kept (settles_alike taskIds s) balanced
  | timeout =>
    rw [onTurn, ite_none_right_eq_some, some.injEq] at turned
    obtain ⟨_, rfl⟩ := turned
    exact alike_kept ⟨rfl, rfl, rfl, rfl, rfl⟩ balanced
  | streamEnds =>
    rw [onTurn, ite_none_right_eq_some, some.injEq] at turned
    obtain ⟨running, rfl⟩ := turned
    have living : s.phase ≠ .gone := by rw [running]; decide
    unfold streamEnds
    split
    · refine ⟨?_, rfl, rfl, fun _ none_ => (by cases none_)⟩
      rw [Balanced, turns, if_neg living] at balanced
      exact balanced
    · next settled =>
      refine unlock_kept balanced living (careful ?_)
      rw [not_and_or, not_not, not_not] at settled
      exact settled
  | drained =>
    rw [onTurn, ite_none_right_eq_some, some.injEq] at turned
    obtain ⟨draining, rfl⟩ := turned
    have living : s.phase ≠ .gone := by rw [draining]; decide
    have alike : Alike { s with pendingTaskIds := [] } s := ⟨rfl, rfl, rfl, rfl, rfl⟩
    exact kept_before alike (unlock_kept (alike_balanced alike balanced) living careful)
  | streamThrows =>
    rw [onTurn, ite_none_right_eq_some, some.injEq] at turned
    obtain ⟨running, rfl⟩ := turned
    have living : s.phase ≠ .gone := by
      rcases running with running | running
      · rw [running]
        decide
      · rw [running]
        decide
    unfold streamThrows
    refine last_kept balanced living careful ?_ ?_ ?_ _ <;> rfl
  | report =>
    simp only [onTurn] at turned
    split at turned
    · next failed =>
      cases turned
      have living : s.phase ≠ .gone := by rw [failed]; exact nofun
      refine last_kept balanced living careful ?_ ?_ ?_ _ <;> rfl
    · cases turned

end

end Query

section Runs
variable {w next : World}

structure Fair (w : World) : Prop where
  balanced : ∀ s ∈ w.sessions, Balanced s
  accepted : w.accepted = total Session.accepted w.sessions
  answered : w.terminals.length = total Session.answered w.sessions
  opened : ∀ t ∈ w.terminals, 0 < t.turns

variable {i : Nat} {s : Session}

theorem total_balanced {sessions : List Session} (balanced : ∀ s ∈ sessions, Balanced s) :
    total turns sessions + total Session.answered sessions = total Session.accepted sessions := by
  induction sessions with
  | nil => rfl
  | cons s rest ih =>
    have here : turns s + s.answered = s.accepted := balanced s mem_cons_self
    have onward := ih fun t member => balanced t (mem_cons_of_mem s member)
    rw [total, total, total]
    omega

theorem fair_outcomes (fair : Fair w) : Outcomes w where
  bounded := by
    rw [fair.accepted, fair.answered, ← total_balanced fair.balanced]
    exact Nat.le_add_left _ _
  answered s member gone := by
    have balanced := fair.balanced s member
    rw [Balanced, turns, if_pos gone, Nat.zero_add] at balanced
    exact balanced
  opened := fair.opened

theorem exit_outcomes (fair : Fair w) (open_ : 0 < total turns w.sessions) (event : Terminal) :
    Outcomes { out w event with exited := true } := by
  have counts := total_balanced fair.balanced
  have outcomes := fair_outcomes fair
  refine ⟨?_, outcomes.answered, fun t member => ?_⟩
  · change (w.terminals ++ [_]).length ≤ w.accepted
    rw [length_append, length_singleton, fair.answered, fair.accepted]
    omega
  · rcases mem_append.mp member with before | now
    · exact fair.opened t before
    · rw [mem_singleton.mp now]
      exact open_

theorem launch_fair : Fair (launch true) where
  balanced s member := by cases member
  accepted := rfl
  answered := rfl
  opened t member := by cases member

theorem set_balanced (fair : Fair w) {t : Session} (balanced : Balanced t) : ∀ s ∈ w.sessions.set i t, Balanced s := by
  intro s member
  rcases mem_or_eq_of_mem_set member with before | rfl
  · exact fair.balanced s before
  · exact balanced

theorem moves_fair {r : Session × Option Terminal} (fair : Fair w) (there : w.sessions[i]? = some s)
    (kept : Kept s r) : Fair (moves w i r) := by
  have accepted := total_set (f := Session.accepted) there r.1
  have answered := total_set (f := Session.answered) there r.1
  have all := set_balanced fair (i := i) kept.balanced
  rw [kept.accepted] at accepted
  rw [kept.answered] at answered
  have counts := fair.accepted
  have writes := fair.answered
  unfold moves
  split
  · next none_ =>
    rw [none_] at answered
    refine ⟨all, ?_, ?_, fair.opened⟩
    · change w.accepted = total Session.accepted (w.sessions.set i r.1)
      omega
    · change w.terminals.length = total Session.answered (w.sessions.set i r.1)
      dsimp only [toList_none, length_nil] at answered
      omega
  · next event some_ =>
    rw [some_] at answered
    refine ⟨all, ?_, ?_, fun t member => ?_⟩
    · change w.accepted = total Session.accepted (w.sessions.set i r.1)
      omega
    · change (w.terminals ++ [_]).length = total Session.answered (w.sessions.set i r.1)
      rw [length_append, length_singleton]
      dsimp only [toList_some, length_singleton] at answered
      omega
    · rcases mem_append.mp member with before | now
      · exact fair.opened t before
      · rw [mem_singleton.mp now]
        exact Nat.lt_of_lt_of_le (kept.opened event some_) (le_total (mem_of_getElem? there))

theorem active_there (active : activeSession w = some (i, s)) : w.sessions[i]? = some s := by
  obtain ⟨j, _, found⟩ := bind_eq_some_iff.mp active
  obtain ⟨t, there, same⟩ := map_eq_some_iff.mp found
  cases same
  exact there

theorem end_input_fair (fair : Fair w) : Fair (endInput w) := by
  unfold endInput
  split
  · next s active =>
    split
    · exact fair
    · have there := active_there active
      have alike : Alike { s with ended := true } s := ⟨rfl, rfl, rfl, rfl, rfl⟩
      exact moves_fair fair there (alike_kept alike (fair.balanced s (mem_of_getElem? there)))
  · exact fair

theorem start_fair (req : ChatRequest) (failure : Option String) (fair : Fair w) : Fair (startQuery w req failure) := by
  have ended := end_input_fair fair
  have same : (endInput w).accepted = w.accepted := by
    unfold endInput
    split
    · split
      · rfl
      · rfl
    · rfl
  refine ⟨fun s member => ?_, ?_, ?_, ended.opened⟩
  · rcases mem_append.mp member with before | new
    · exact ended.balanced s before
    · rw [mem_singleton.mp new]
      cases failure with
      | none | some => rfl
  · change (endInput w).accepted + 1 = total Session.accepted (_ ++ [_])
    rw [total_append, ended.accepted]
    rfl
  · change (endInput w).terminals.length = total Session.answered (_ ++ [_])
    rw [total_append, ended.answered]
    rfl

theorem push_fair (fair : Fair w) (there : w.sessions[i]? = some s) (living : s.phase ≠ .gone) :
    Fair { w with sessions := w.sessions.set i (pushTurn s), accepted := w.accepted + 1 } := by
  have accepted := total_set (f := Session.accepted) there (pushTurn s)
  have answered := total_set (f := Session.answered) there (pushTurn s)
  have counts := fair.accepted
  have writes := fair.answered
  have balanced := fair.balanced s (mem_of_getElem? there)
  refine ⟨set_balanced fair ?_, ?_, ?_, fair.opened⟩
  · rw [Balanced, turns, if_neg living] at balanced
    rw [Balanced, turns, if_neg (show (pushTurn s).phase ≠ .gone from living)]
    dsimp only [pushTurn]
    omega
  · change w.accepted + 1 = total Session.accepted (w.sessions.set i (pushTurn s))
    dsimp only [pushTurn] at accepted ⊢
    omega
  · change w.terminals.length = total Session.answered (w.sessions.set i (pushTurn s))
    dsimp only [pushTurn] at answered ⊢
    omega

theorem continues_active {req : ChatRequest} (goes : continues w req = some (i, s)) :
    w.sessions[i]? = some s := active_there (filter_eq_some_iff.mp goes).1

theorem step_fair (w : World) (action : Action) (next : World) (careful : Careful w action)
    (known : Outcomes w ∧ (w.exited = false → Fair w)) (stepped : step w action = some next) :
    Outcomes next ∧ (next.exited = false → Fair next) := by
  simp only [step, ite_none_left_eq_some, Bool.not_eq_true] at stepped
  obtain ⟨running, stepped⟩ := stepped
  have fair := known.2 running
  have both {next : World} (fair : Fair next) : Outcomes next ∧ (next.exited = false → Fair next) :=
    ⟨fair_outcomes fair, fun _ => fair⟩
  cases action with
  | line line =>
    cases stepped
    cases line with
    | malformed => exact absurd careful id
    | throws => exact ⟨exit_outcomes fair careful _, nofun⟩
    | chat req failure =>
      obtain ⟨text, images, living⟩ := careful
      refine both (?_ : Fair (handleChat w req failure))
      unfold handleChat
      rw [if_neg (by rw [text]; exact Bool.false_ne_true), if_neg (not_not.mpr images)]
      split
      · next i s goes =>
        split
        · exact start_fair req failure fair
        · next more => exact push_fair fair (continues_active goes) (living i s goes (Bool.eq_false_iff.mpr more))
      · exact start_fair req failure fair
    | abort =>
      refine both ?_
      simp only [handleLine]
      split
      · next i s active =>
        rw [if_neg (by rw [careful i s active]; exact Bool.false_ne_true)]
        exact fair
      · exact fair
    | other => exact both fair
  | turn =>
    obtain ⟨s, there, moved⟩ := bind_eq_some_iff.mp stepped
    obtain ⟨r, turned, rfl⟩ := map_eq_some_iff.mp moved
    exact both (moves_fair fair there (turn_kept (fair.balanced s (mem_of_getElem? there)) (careful s there) turned))
  | settle =>
    obtain ⟨s, there, settled⟩ := bind_eq_some_iff.mp stepped
    rw [ite_none_right_eq_some, some.injEq] at settled
    obtain ⟨_, rfl⟩ := settled
    have alike : Alike { s with closed := true } s := ⟨rfl, rfl, rfl, rfl, rfl⟩
    have moved := moves_fair fair there (alike_kept alike (fair.balanced s (mem_of_getElem? there)))
    exact both ⟨moved.balanced, moved.accepted, moved.answered, moved.opened⟩

/-- Where no line is refused or interrupts a query, and a query writes for one open turn at a time, every chat has one
    outcome. -/
theorem turns_answered {actions : List Action} (ran : run step (launch true) actions = some w)
    (careful : Guarded step Careful (launch true) actions) : Outcomes w :=
  (guarded_run_invariant _ step_fair careful ran ⟨fair_outcomes launch_fair, fun _ => launch_fair⟩).1

def chat : Action := .line (.chat ⟨"hello", .absent, "/work", "session"⟩ none)

def result : Action := .turn 0 (.event ⟨"session", .result⟩)

def passes (w : World) : Action → Bool
  | .line (.chat req _) => ¬ isBlank req.text ∧ validateImages req.images ∧
      (continues w req).all fun (_, s) => s.phase ≠ .gone
  | .line .other => true
  | .line _ => false
  | .turn i .streamEnds => (w.sessions[i]?).all fun s => s.openTurns ≤ 1
  | .turn i _ => (w.sessions[i]?).all fun s => s.openTurns = 1
  | .settle _ => true

theorem passes_careful (w : World) (action : Action) (passed : passes w action) : Careful w action := by
  unfold passes at passed
  split at passed
  · next =>
    obtain ⟨text, images, living⟩ := of_decide_eq_true passed
    refine ⟨Bool.eq_false_iff.mpr text, images, fun i s goes _ => ?_⟩
    rw [goes, all_some] at living
    exact of_decide_eq_true living
  · trivial
  · cases passed
  · next i =>
    intro s there _
    rw [show w.sessions[i]? = some s from there, all_some] at passed
    exact of_decide_eq_true passed
  · next i turn _ =>
    intro s there
    rw [show w.sessions[i]? = some s from there, all_some] at passed
    have one : s.openTurns = 1 := of_decide_eq_true passed
    cases turn with
    | event => exact fun _ _ => one ▸ Nat.zero_lt_one
    | streamEnds => exact fun _ => Nat.le_of_eq one
    | drained => exact Nat.le_of_eq one
    | streamThrows | report => exact one
    | _ => trivial
  · trivial

theorem chat_answered : ∃ w, run step (launch true) [chat, result, chat, result, .turn 0 .streamEnds, .settle 0] = some w ∧
    w.terminals.length = 2 ∧ Outcomes w := by
  obtain ⟨w, ran, count⟩ := map_eq_some_iff.mp
    (show (run step (launch true) [chat, result, chat, result, .turn 0 .streamEnds, .settle 0]).map
      (fun w => w.terminals.length) = some 2 from by decide +kernel)
  exact ⟨w, ran, count, turns_answered ran (checked_guarded passes passes_careful _ _ (by decide +kernel))⟩

/-- A chat that is interrupted is answered twice: once for the interrupt and once when its result comes. -/
theorem chat_aborted_twice : ¬ ∀ (actions : List Action) (w : World),
    run step (launch true) actions = some w → Outcomes w := by
  intro outcomes
  obtain ⟨w, ran, counts⟩ := map_eq_some_iff.mp
    (show (run step (launch true) [chat, .line .abort, result]).map (fun w => (w.terminals.map Written.event, w.accepted)) =
      some ([.aborted, .done (some "session")], 1) from by decide +kernel)
  obtain ⟨events, accepted⟩ := Prod.mk.injEq .. ▸ counts
  have bounded := (outcomes _ w ran).bounded
  rw [accepted, ← length_map (f := Written.event), events] at bounded
  exact absurd bounded (by decide)

end Runs

end PieRelay.ClaudeTurns
