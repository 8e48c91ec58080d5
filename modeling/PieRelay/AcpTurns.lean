import Mathlib.Data.List.Nodup
import Mathlib.Data.List.Range
import PieRelay.Executions

/-!
The turns of client/node-executor/acp-executor.mjs and the events that end a chat: `done`, `error` and `aborted`. Chats are
numbered as they are read, and prompted one after the other; a cancel goes on beside them. When the agent answers, and
with what, is free, and so is what runs between two continuations; a request that times out, cannot be written or is
pending when the agent exits is rejected. The executor has started and its input stays open; a line is an object. Left
out: permissions, updates, and the events for lines that are no requests.
-/
namespace PieRelay.AcpTurns
open Executions List Option

inductive Terminal where
  | done (sessionId stopReason : String)
  | error (message : String)
  | aborted
  deriving DecidableEq

structure Turn where
  chat : Nat
  cancelled : Bool
  deriving DecidableEq

/-- Of a result, its session id or its stop reason, `""` if it has none. -/
inductive Answer where
  | result (value : String)
  | error (message : String)
  deriving DecidableEq

inductive Phase where
  | idle
  | creating (chat : Nat) (settled : Option Answer)
  | ensured (chat : Nat)
  | prompting (chat : Nat) (settled : Option Answer)
  | failed (chat : Nat) (message : String)

inductive Stage where
  | writing
  | asked (settled : Option Answer)

structure Cancel where
  chat : Nat
  stage : Stage

/-- An abort that was read: the turn it cancels, and whether a chat waited for its terminal event. -/
structure Abort where
  acted : Option Nat
  waited : Bool
  deriving DecidableEq

structure World where
  alive : Bool
  sessionId : String
  chats : Nat
  turnQueue : List Nat
  phase : Phase
  activeTurn : Option Turn
  cancels : List Cancel
  terminals : List (Nat × Terminal)
  aborts : List Abort

def started : World := ⟨true, "", 0, [], .idle, none, [], [], []⟩

inductive Action where
  | chat
  | abort
  | next
  | settle (answer : Answer)
  | resume
  | cancelAsks (index : Nat)
  | settleCancel (index : Nat) (answer : Answer)
  | resumeCancel (index : Nat)
  | exit (message : String)

def emit (w : World) (chat : Nat) (event : Terminal) : World := { w with terminals := w.terminals ++ [(chat, event)] }

def count (w : World) (chat : Nat) : Nat := w.terminals.countP fun entry => entry.1 = chat

def waiting (w : World) : Bool := (range w.chats).any fun chat => count w chat = 0

def prompt (w : World) (chat : Nat) : World :=
  if w.activeTurn.isSome then { w with phase := .failed chat "an ACP turn is already running" }
  else if w.sessionId ≠ "" then { w with phase := .ensured chat }
  else { w with phase := .creating chat none }

def ensureSession (w : World) (chat : Nat) : Answer → World
  | .error message => { w with phase := .failed chat message }
  | .result sessionId =>
    if sessionId = "" then { w with phase := .failed chat "ACP session/new response is missing sessionId" }
    else { w with sessionId := sessionId, phase := .ensured chat }

def finish (w : World) (turn : Turn) : Answer → World
  | .error message => { w with activeTurn := none, phase := .failed turn.chat message }
  | .result stopReason =>
    let ended := { w with activeTurn := none, phase := .idle }
    if turn.cancelled then ended
    else emit ended turn.chat (.done w.sessionId (if stopReason = "" then "end_turn" else stopReason))

def cancel (w : World) : World :=
  match w.activeTurn with
  | some turn =>
    if w.sessionId = "" then { w with aborts := w.aborts ++ [⟨none, waiting w⟩] }
    else { w with
      activeTurn := some { turn with cancelled := true }
      cancels := w.cancels ++ [⟨turn.chat, .writing⟩]
      aborts := w.aborts ++ [⟨some turn.chat, waiting w⟩] }
  | none => { w with aborts := w.aborts ++ [⟨none, waiting w⟩] }

def setCancel (w : World) (index : Nat) (c : Cancel) : World := { w with cancels := w.cancels.set index c }

def endCancel (w : World) (index : Nat) (chat : Nat) : Answer → World
  | .result _ => emit { w with cancels := w.cancels.eraseIdx index } chat .aborted
  | .error message => emit { w with cancels := w.cancels.eraseIdx index } chat (.error message)

/-- What awaits the running prompt's request goes on, if it is settled; so does a chain of promises that awaits nothing. -/
def resume (w : World) : Option World :=
  match w.phase with
  | .creating chat (some answer) => some (ensureSession w chat answer)
  | .ensured chat => some { w with activeTurn := some ⟨chat, false⟩, phase := .prompting chat none }
  | .prompting _ (some answer) => w.activeTurn.map fun turn => finish w turn answer
  | .failed chat message => some (emit { w with phase := .idle } chat (.error message))
  | _ => none

def failed (message : String) : Option Answer → Option Answer
  | none => some (.error message)
  | settled => settled

def failCancel (message : String) (c : Cancel) : Cancel :=
  match c.stage with
  | .writing => c
  | .asked settled => { c with stage := .asked (failed message settled) }

def failPhase (message : String) : Phase → Phase
  | .creating chat settled => .creating chat (failed message settled)
  | .prompting chat settled => .prompting chat (failed message settled)
  | phase => phase

def failAll (w : World) (message : String) : World :=
  { w with phase := failPhase message w.phase, cancels := w.cancels.map (failCancel message) }

def given (w : World) : Answer → Bool
  | .result _ => w.alive
  | .error _ => true

def settlePhase (answer : Answer) : Phase → Option Phase
  | .creating chat none => some (.creating chat (some answer))
  | .prompting chat none => some (.prompting chat (some answer))
  | _ => none

def step (w : World) : Action → Option World
  | .chat => some { w with chats := w.chats + 1, turnQueue := w.turnQueue ++ [w.chats] }
  | .abort => some (cancel w)
  | .next => match w.phase, w.turnQueue with
    | .idle, chat :: rest => some (prompt { w with turnQueue := rest } chat)
    | _, _ => none
  | .settle answer =>
    if given w answer then (settlePhase answer w.phase).map fun phase => { w with phase := phase } else none
  | .resume => resume w
  | .cancelAsks index => match w.cancels[index]? with
    | some ⟨chat, .writing⟩ => some (setCancel w index ⟨chat, .asked none⟩)
    | _ => none
  | .settleCancel index answer => match w.cancels[index]? with
    | some ⟨chat, .asked none⟩ =>
      if given w answer then some (setCancel w index ⟨chat, .asked (some answer)⟩) else none
    | _ => none
  | .resumeCancel index => match w.cancels[index]? with
    | some ⟨chat, .asked (some answer)⟩ => some (endCancel w index chat answer)
    | _ => none
  | .exit message => some { failAll w message with alive := false }

def isLine : Action → Bool
  | .chat | .abort => true
  | _ => false

structure AtRest (w : World) : Prop where
  idle : w.phase = .idle
  queue : w.turnQueue = []
  cancels : w.cancels = []

structure Outcomes (w : World) : Prop where
  once : ∀ chat, count w chat ≤ if chat < w.chats then 1 else 0
  rest : AtRest w → ∀ chat, chat < w.chats → count w chat = 1
  heard : ∀ abort ∈ w.aborts, abort.acted.isSome = abort.waited

def answerable (w : World) : Bool :=
  match w.phase with
  | .prompting _ none => w.alive
  | .prompting _ (some (.result _)) => true
  | _ => false

def isPending : Phase → Bool
  | .creating _ none | .prompting _ none => true
  | _ => false

/-- An abort comes for a turn that is not cancelled yet and has a result or can still get one, or when no chat waits; and
    no cancelled prompt is rejected. -/
def careful (w : World) : Action → Bool
  | .abort => match w.activeTurn with
    | some turn => !turn.cancelled && answerable w
    | none => !waiting w
  | .settle (.error _) | .exit _ => !isPending w.phase || w.activeTurn.all fun turn => !turn.cancelled
  | _ => true

/-! What a chat still needs: nothing has been done for the `untouched` ones, and the others have their terminal event or a
cancel that will write it. -/

def running (w : World) : List Nat :=
  match w.phase with
  | .idle => []
  | .creating chat _ | .ensured chat | .failed chat _ => [chat]
  | .prompting chat _ => if w.activeTurn.any (·.cancelled) then [] else [chat]

def untouched (w : World) : List Nat := running w ++ w.turnQueue

def due (w : World) (chat : Nat) : Nat := count w chat + w.cancels.countP fun c => c.chat = chat

structure Fair (w : World) : Prop where
  distinct : (untouched w).Nodup
  read : ∀ chat ∈ untouched w, chat < w.chats
  due : ∀ chat, due w chat = if chat < w.chats ∧ chat ∉ untouched w then 1 else 0

def HasTurn : Phase → Option Turn → Prop
  | .prompting chat _, turn => ∃ cancelled, turn = some ⟨chat, cancelled⟩
  | _, turn => turn = none

def hasSession : Phase → Bool
  | .ensured _ | .prompting _ _ => true
  | _ => false

structure Inv (w : World) : Prop where
  fair : Fair w
  turn : HasTurn w.phase w.activeTurn
  session : hasSession w.phase → w.sessionId ≠ ""
  answerable : ∀ turn, w.activeTurn = some turn → turn.cancelled → answerable w
  heard : ∀ abort ∈ w.aborts, abort.acted.isSome = abort.waited

section Fairness
variable {w next : World}

theorem fair_same (fair : Fair w) (chats : next.chats = w.chats) (same : untouched next = untouched w)
    (dues : ∀ chat, due next chat = due w chat) : Fair next := by
  refine ⟨same ▸ fair.distinct, fun chat member => ?_, fun chat => ?_⟩
  · rw [chats]
    exact fair.read chat (same ▸ member)
  · rw [dues, chats, same]
    exact fair.due chat

theorem fair_leaves (fair : Fair w) (first : Nat) (chats : next.chats = w.chats)
    (same : untouched w = first :: untouched next)
    (dues : ∀ chat, due next chat = due w chat + if chat = first then 1 else 0) : Fair next := by
  have distinct := fair.distinct
  rw [same, nodup_cons] at distinct
  refine ⟨distinct.2, fun chat member => ?_, fun chat => ?_⟩
  · rw [chats]
    exact fair.read chat (same ▸ mem_cons_of_mem first member)
  · rw [dues, fair.due, chats, same]
    by_cases mine : chat = first
    · subst mine
      have read := fair.read chat (same ▸ mem_cons_self)
      rw [if_neg (fun both => both.2 mem_cons_self), if_pos rfl, if_pos ⟨read, distinct.1⟩]
    · rw [if_neg mine, Nat.add_zero]
      simp only [mem_cons, mine, false_or]

theorem fair_chat (fair : Fair w) (chats : next.chats = w.chats + 1) (same : untouched next = untouched w ++ [w.chats])
    (dues : ∀ chat, due next chat = due w chat) : Fair next := by
  have fresh : w.chats ∉ untouched w := fun member => Nat.lt_irrefl _ (fair.read _ member)
  refine ⟨?_, fun chat member => ?_, fun chat => ?_⟩
  · rw [same, nodup_append]
    refine ⟨fair.distinct, by simp, fun one old other new => ?_⟩
    rw [mem_singleton.mp new]
    exact fun equal => fresh (equal ▸ old)
  · rw [same] at member
    rw [chats]
    rcases mem_append.mp member with old | new
    · exact Nat.lt_succ_of_lt (fair.read chat old)
    · rw [mem_singleton.mp new]
      exact Nat.lt_succ_self _
  · rw [dues, fair.due, chats, same]
    by_cases mine : chat = w.chats
    · subst mine
      simp
    · have less : chat < w.chats + 1 ↔ chat < w.chats := by omega
      simp only [less, mem_append, mem_singleton, mine, or_false]

theorem count_emit (w : World) (first chat : Nat) (event : Terminal) :
    count (emit w first event) chat = count w chat + if chat = first then 1 else 0 := by
  simp only [count, emit, countP_append, countP_singleton]
  by_cases same : chat = first
  · simp [same]
  · simp [same, Ne.symm same]

theorem due_emit (w : World) (first chat : Nat) (event : Terminal) :
    due (emit w first event) chat = due w chat + if chat = first then 1 else 0 := by
  have counted := count_emit w first chat event
  simp only [due, counted]
  show _ + w.cancels.countP _ = _
  omega

theorem countP_erase {cancels : List Cancel} {index : Nat} {c : Cancel} (there : cancels[index]? = some c) (chat : Nat) :
    (cancels.eraseIdx index).countP (fun c => c.chat = chat) + (if chat = c.chat then 1 else 0) =
      cancels.countP fun c => c.chat = chat := by
  induction cancels generalizing index with
  | nil => simp at there
  | cons head rest ih =>
    cases index with
    | zero =>
      rw [getElem?_cons_zero, some.injEq] at there
      subst there
      rw [eraseIdx_cons_zero, countP_cons]
      by_cases same : chat = head.chat
      · simp [same]
      · simp [same, Ne.symm same]
    | succ =>
      have onward := ih ((getElem?_cons_succ ..).symm.trans there)
      simp only [eraseIdx_cons_succ, countP_cons]
      omega

theorem countP_setCancel {cancels : List Cancel} {index : Nat} {c d : Cancel} (there : cancels[index]? = some c)
    (same : d.chat = c.chat) (chat : Nat) :
    (cancels.set index d).countP (fun c => c.chat = chat) = cancels.countP fun c => c.chat = chat := by
  induction cancels generalizing index with
  | nil => simp at there
  | cons head rest ih =>
    cases index with
    | zero =>
      rw [getElem?_cons_zero, some.injEq] at there
      subst there
      simp only [set_cons_zero, countP_cons, same]
    | succ =>
      have onward := ih ((getElem?_cons_succ ..).symm.trans there)
      simp only [set_cons_succ, countP_cons, onward]

theorem countP_fail (message : String) (cancels : List Cancel) (chat : Nat) :
    (cancels.map (failCancel message)).countP (fun c => c.chat = chat) = cancels.countP fun c => c.chat = chat := by
  rw [countP_map]
  refine congrArg (fun p => cancels.countP p) (funext fun c => ?_)
  obtain ⟨owner, stage⟩ := c
  cases stage <;> rfl

end Fairness

section Steps
variable {w next : World}
variable {phase : Phase} {answer : Answer} {chat : Nat}

theorem running_fail (message : String) : running (failAll w message) = running w := by
  simp only [running, failAll]
  cases w.phase <;> rfl

theorem has_turn_fail {message : String} {turn : Option Turn} (has : HasTurn phase turn) :
    HasTurn (failPhase message phase) turn := by
  cases phase <;> exact has

theorem has_session_fail (message : String) (phase : Phase) : hasSession (failPhase message phase) = hasSession phase := by
  cases phase <;> rfl

theorem settle_phase {after : Phase} (settles : settlePhase answer phase = some after) :
    (∃ chat, phase = .creating chat none ∧ after = .creating chat (some answer)) ∨
      ∃ chat, phase = .prompting chat none ∧ after = .prompting chat (some answer) := by
  unfold settlePhase at settles
  split at settles
  · next chat =>
    cases settles
    exact Or.inl ⟨chat, rfl, rfl⟩
  · next chat =>
    cases settles
    exact Or.inr ⟨chat, rfl, rfl⟩
  · cases settles

theorem waiting_some (read : chat < w.chats) (none : count w chat = 0) : waiting w :=
  any_eq_true.mpr ⟨chat, mem_range.mpr read, by simpa using none⟩

theorem turn_phase {turn : Turn} (has : HasTurn phase (some turn)) :
    ∃ settled, phase = .prompting turn.chat settled := by
  cases phase with
  | prompting chat settled =>
    obtain ⟨cancelled, same⟩ := has
    cases same
    exact ⟨settled, rfl⟩
  | idle | creating | ensured | failed => cases has

theorem heard_append {aborts : List Abort} {last : Abort} (heard : ∀ abort ∈ aborts, abort.acted.isSome = abort.waited)
    (mine : last.acted.isSome = last.waited) : ∀ abort ∈ aborts ++ [last], abort.acted.isSome = abort.waited := by
  intro abort member
  rcases mem_append.mp member with old | new
  · exact heard abort old
  · rw [mem_singleton.mp new]
    exact mine

theorem inv_abort (inv : Inv w) (careful : careful w .abort) : Inv (cancel w) := by
  cases active : w.activeTurn with
  | none =>
    simp only [AcpTurns.careful, active, Bool.not_eq_true'] at careful
    have ignored : cancel w = { w with aborts := w.aborts ++ [⟨none, waiting w⟩] } := by
      simp only [cancel, active]
    rw [ignored]
    exact ⟨fair_same inv.fair rfl rfl fun _ => rfl, inv.turn, inv.session, inv.answerable,
      heard_append inv.heard careful.symm⟩
  | some turn =>
    simp only [AcpTurns.careful, active, Bool.and_eq_true, Bool.not_eq_true'] at careful
    obtain ⟨fresh, answers⟩ := careful
    obtain ⟨settled, phase⟩ := turn_phase (active ▸ inv.turn)
    have session := inv.session (by rw [phase]; rfl)
    have acts : cancel w = { w with
        activeTurn := some { turn with cancelled := true }
        cancels := w.cancels ++ [⟨turn.chat, .writing⟩]
        aborts := w.aborts ++ [⟨some turn.chat, waiting w⟩] } := by
      simp only [cancel, active, if_neg session]
    have first : untouched w = turn.chat :: w.turnQueue := by
      simp [untouched, running, phase, active, fresh]
    have read := inv.fair.read turn.chat (first ▸ mem_cons_self)
    have silent : count w turn.chat = 0 := by
      have dues := inv.fair.due turn.chat
      rw [if_neg fun both => both.2 (first ▸ mem_cons_self)] at dues
      simp only [due] at dues
      omega
    rw [acts]
    refine ⟨fair_leaves inv.fair turn.chat rfl ?_ ?_, ?_, inv.session, fun _ _ _ => answers,
      heard_append inv.heard (waiting_some read silent).symm⟩
    · rw [first]
      simp [untouched, running, phase]
    · intro other
      simp only [due, count, countP_append, countP_singleton]
      by_cases mine : other = turn.chat
      · simp [mine, Nat.add_assoc]
      · simp [mine, Ne.symm mine]
    · show HasTurn w.phase _
      rw [phase]
      exact ⟨true, rfl⟩

theorem no_turn {active : Option Turn} (none : active = none) : ∀ turn, active = some turn →
    turn.cancelled → answerable next := by
  intro turn some
  rw [none] at some
  cases some

section
variable (inv : Inv w)
include inv

theorem inv_phase (none : w.activeTurn = none)
    (same : running { w with phase := phase } = running w) (has : HasTurn phase Option.none)
    (session : hasSession phase → w.sessionId ≠ "") : Inv { w with phase := phase } := by
  refine ⟨fair_same inv.fair rfl ?_ fun _ => rfl, by rw [← none] at has; exact has, session, no_turn none, inv.heard⟩
  exact congrArg (· ++ w.turnQueue) same

theorem inv_session {settled : Option Answer} (phase : w.phase = .creating chat settled)
    (answer : Answer) : Inv (ensureSession w chat answer) := by
  have none : w.activeTurn = none := by
    have has := inv.turn
    rw [phase] at has
    exact has
  have before : running w = [chat] := by simp only [running, phase]
  cases answer with
  | error => exact inv_phase inv none before.symm rfl nofun
  | result sessionId =>
    rw [ensureSession]
    by_cases blank : sessionId = ""
    · rw [if_pos blank]
      exact inv_phase inv none before.symm rfl nofun
    · rw [if_neg blank]
      refine ⟨fair_same inv.fair rfl ?_ fun _ => rfl, none, fun _ => blank, no_turn none, inv.heard⟩
      exact congrArg (· ++ w.turnQueue) before.symm

theorem inv_finish {turn : Turn} (active : w.activeTurn = some turn)
    (phase : w.phase = .prompting turn.chat (some answer)) : Inv (finish w turn answer) := by
  have still : ∀ abort ∈ w.aborts, abort.acted.isSome = abort.waited := inv.heard
  cases answer with
  | error =>
    have fresh : turn.cancelled = false := by
      refine Bool.eq_false_iff.mpr fun cancelled => ?_
      have answers := inv.answerable turn active cancelled
      simp [answerable, phase] at answers
    refine ⟨fair_same inv.fair rfl ?_ fun _ => rfl, rfl, nofun, nofun, still⟩
    simp [finish, untouched, running, phase, active, fresh]
  | result =>
    simp only [finish]
    by_cases cancelled : turn.cancelled
    · rw [if_pos cancelled]
      refine ⟨fair_same inv.fair rfl ?_ fun _ => rfl, rfl, nofun, nofun, still⟩
      simp [untouched, running, phase, active, cancelled]
    · rw [if_neg cancelled]
      refine ⟨fair_leaves inv.fair turn.chat rfl ?_ fun _ => due_emit _ _ _ _, rfl, nofun, nofun, still⟩
      simp [emit, untouched, running, phase, active, cancelled]

theorem inv_resume (resumed : resume w = some next) : Inv next := by
  unfold resume at resumed
  split at resumed
  · next answer phase =>
    cases resumed
    exact inv_session inv phase answer
  · next chat phase =>
    cases resumed
    have before : running w = [chat] := by simp only [running, phase]
    refine ⟨fair_same inv.fair rfl ?_ fun _ => rfl, ⟨false, rfl⟩, fun _ => inv.session (by rw [phase]; rfl), ?_,
      inv.heard⟩
    · exact congrArg (· ++ w.turnQueue) before.symm
    · intro turn same cancelled
      cases same
      cases cancelled
  · next phase =>
    obtain ⟨turn, active, rfl⟩ := map_eq_some_iff.mp resumed
    obtain ⟨settled, same⟩ := turn_phase (active ▸ inv.turn)
    rw [phase, Phase.prompting.injEq] at same
    obtain ⟨rfl, -⟩ := same
    exact inv_finish inv active phase
  · next chat message phase =>
    cases resumed
    have none : w.activeTurn = none := by
      have has := inv.turn
      rw [phase] at has
      exact has
    refine ⟨fair_leaves inv.fair chat rfl ?_ fun _ => due_emit _ _ _ _, none, nofun, ?_, inv.heard⟩
    · simp [emit, untouched, running, phase]
    · exact no_turn none
  · cases resumed

theorem inv_next {rest : List Nat} (phase : w.phase = .idle)
    (queue : w.turnQueue = chat :: rest) : Inv (prompt { w with turnQueue := rest } chat) := by
  have none : w.activeTurn = none := by
    have has := inv.turn
    rw [phase] at has
    exact has
  have before : untouched w = chat :: rest := by simp [untouched, running, phase, queue]
  simp only [prompt, none, isSome_none]
  split
  · next absurd => cases absurd
  · split
    · next session =>
      exact ⟨fair_same inv.fair rfl before.symm fun _ => rfl, rfl, fun _ => session, no_turn rfl, inv.heard⟩
    · exact ⟨fair_same inv.fair rfl before.symm fun _ => rfl, rfl, nofun, no_turn rfl, inv.heard⟩

theorem inv_cancels {cancels : List Cancel}
    (same : ∀ chat, cancels.countP (fun c => c.chat = chat) = w.cancels.countP fun c => c.chat = chat) :
    Inv { w with cancels := cancels } :=
  ⟨fair_same inv.fair rfl rfl fun chat => congrArg (count w chat + ·) (same chat), inv.turn, inv.session,
    inv.answerable, inv.heard⟩

theorem inv_end_cancel {index : Nat} {c : Cancel} (there : w.cancels[index]? = some c) (answer : Answer) :
    Inv (endCancel w index c.chat answer) := by
  have ends : ∀ event, Inv (emit { w with cancels := w.cancels.eraseIdx index } c.chat event) := by
    intro event
    refine ⟨fair_same inv.fair rfl rfl fun chat => ?_, inv.turn, inv.session, inv.answerable, inv.heard⟩
    rw [due_emit]
    have erased := countP_erase there chat
    simp only [due, count]
    omega
  cases answer with
  | result => exact ends .aborted
  | error message => exact ends (.error message)

theorem inv_settle (careful : careful w (.settle answer))
    (settles : settlePhase answer w.phase = some phase) : Inv { w with phase := phase } := by
  have has := inv.turn
  obtain ⟨chat, before, rfl⟩ | ⟨chat, before, rfl⟩ := settle_phase settles
  · rw [before] at has
    exact inv_phase inv has (by simp only [running, before]) rfl nofun
  · rw [before] at has
    refine ⟨fair_same inv.fair rfl ?_ fun _ => rfl, has, fun _ => inv.session (by rw [before]; rfl), ?_, inv.heard⟩
    · simp only [untouched, running, before]
    · intro turn active cancelled
      cases answer with
      | result => rfl
      | error =>
        change w.activeTurn = some turn at active
        simp [AcpTurns.careful, before, isPending, active, cancelled] at careful

theorem inv_exit {message : String} (careful : careful w (.exit message)) :
    Inv { failAll w message with alive := false } := by
  refine ⟨fair_same inv.fair rfl ?_ fun chat => ?_, has_turn_fail inv.turn, ?_, ?_, inv.heard⟩
  · exact congrArg (· ++ w.turnQueue) (running_fail message)
  · exact congrArg (count w chat + ·) (countP_fail message w.cancels chat)
  · intro session
    exact inv.session ((has_session_fail message w.phase).symm.trans session)
  · intro turn active cancelled
    change w.activeTurn = some turn at active
    have answers := inv.answerable turn active cancelled
    simp only [AcpTurns.careful, active, all_some, cancelled, Bool.not_true, Bool.or_false,
      Bool.not_eq_true'] at careful
    -- The prompt has its result already.
    cases phase : w.phase with
    | prompting chat settled =>
      cases settled with
      | none =>
        rw [phase] at careful
        cases careful
      | some answer =>
        cases answer with
        | result => simp only [answerable, failAll, phase, failPhase, failed]
        | error => simp [answerable, phase] at answers
    | _ => simp [answerable, phase] at answers

end

theorem inv_step {action : Action} (careful : careful w action) (inv : Inv w)
    (stepped : step w action = some next) : Inv next := by
  cases action with
  | chat =>
    cases stepped
    refine ⟨fair_chat inv.fair rfl ?_ fun _ => rfl, inv.turn, inv.session, inv.answerable, inv.heard⟩
    exact (append_assoc (running w) w.turnQueue [w.chats]).symm
  | abort =>
    cases stepped
    exact inv_abort inv careful
  | next =>
    simp only [step] at stepped
    split at stepped
    · next phase queue =>
      cases stepped
      exact inv_next inv phase queue
    · cases stepped
  | settle =>
    simp only [step] at stepped
    split at stepped
    · obtain ⟨phase, settles, rfl⟩ := map_eq_some_iff.mp stepped
      exact inv_settle inv careful settles
    · cases stepped
  | resume => exact inv_resume inv stepped
  | cancelAsks =>
    simp only [step] at stepped
    split at stepped
    · next there =>
      cases stepped
      exact inv_cancels inv (countP_setCancel there rfl)
    · cases stepped
  | settleCancel =>
    simp only [step] at stepped
    split at stepped
    · next there =>
      split at stepped
      · cases stepped
        exact inv_cancels inv (countP_setCancel there rfl)
      · cases stepped
    · cases stepped
  | resumeCancel =>
    simp only [step] at stepped
    split at stepped
    · next answer there =>
      cases stepped
      exact inv_end_cancel inv there answer
    · cases stepped
  | exit =>
    cases stepped
    exact inv_exit inv careful

theorem inv_started : Inv started := by
  refine ⟨⟨nodup_nil, ?_, ?_⟩, rfl, ?_, ?_, ?_⟩
  · intro chat absurd
    cases absurd
  · intro chat
    simp [due, count, started]
  · intro absurd
    cases absurd
  · exact no_turn rfl
  · intro abort absurd
    cases absurd

theorem inv_outcomes (inv : Inv w) : Outcomes w := by
  refine ⟨fun chat => ?_, fun rest chat read => ?_, inv.heard⟩
  · have dues := inv.fair.due chat
    have most : (if chat < w.chats ∧ chat ∉ untouched w then 1 else 0) ≤ if chat < w.chats then 1 else 0 := by
      by_cases read : chat < w.chats
      · rw [if_pos read]
        split <;> omega
      · rw [if_neg read, if_neg fun both => read both.1]
    simp only [due] at dues
    omega
  · have dues := inv.fair.due chat
    have none : untouched w = [] := by simp [untouched, running, rest.idle, rest.queue]
    rw [none, if_pos ⟨read, not_mem_nil⟩, due, rest.cancels] at dues
    exact dues

end Steps

def phaseWork : Phase → Nat
  | .idle => 0
  | .failed _ _ => 1
  | .prompting _ (some _) => 2
  | .prompting _ none => 3
  | .ensured _ => 4
  | .creating _ (some _) => 5
  | .creating _ none => 6

def stageWork : Stage → Nat
  | .asked (some _) => 1
  | .asked none => 2
  | .writing => 3

def cancelWork : List Cancel → Nat
  | [] => 0
  | c :: rest => stageWork c.stage + cancelWork rest

def work (w : World) : Nat := phaseWork w.phase + 7 * w.turnQueue.length + cancelWork w.cancels

section Progress
variable {w : World}

def Progresses (w : World) : Prop :=
  ∃ action next, isLine action = false ∧ careful w action ∧ step w action = some next ∧ work next < work w

theorem ensure_work (chat : Nat) (answer : Answer) :
    phaseWork (ensureSession w chat answer).phase < 5 ∧ (ensureSession w chat answer).turnQueue = w.turnQueue ∧
      (ensureSession w chat answer).cancels = w.cancels := by
  cases answer with
  | error => exact ⟨(by decide : 1 < 5), rfl, rfl⟩
  | result =>
    rw [ensureSession]
    split
    · exact ⟨(by decide : 1 < 5), rfl, rfl⟩
    · exact ⟨(by decide : 4 < 5), rfl, rfl⟩

theorem finish_work (turn : Turn) (answer : Answer) :
    phaseWork (finish w turn answer).phase < 2 ∧ (finish w turn answer).turnQueue = w.turnQueue ∧
      (finish w turn answer).cancels = w.cancels := by
  cases answer with
  | error => exact ⟨(by decide : 1 < 2), rfl, rfl⟩
  | result =>
    simp only [finish]
    split
    · exact ⟨(by decide : 0 < 2), rfl, rfl⟩
    · exact ⟨(by decide : 0 < 2), rfl, rfl⟩

theorem prompt_work (w : World) (chat : Nat) :
    phaseWork (prompt w chat).phase ≤ 6 ∧ (prompt w chat).turnQueue = w.turnQueue ∧
      (prompt w chat).cancels = w.cancels := by
  rw [prompt]
  split
  · exact ⟨(by decide : 1 ≤ 6), rfl, rfl⟩
  · split
    · exact ⟨(by decide : 4 ≤ 6), rfl, rfl⟩
    · exact ⟨(by decide : 6 ≤ 6), rfl, rfl⟩

theorem phase_progresses (inv : Inv w) (busy : w.phase ≠ .idle) : Progresses w := by
  cases phase : w.phase with
  | idle => exact absurd phase busy
  | failed =>
    refine ⟨.resume, _, rfl, rfl, by rw [step, resume, phase], ?_⟩
    simp only [work, phase, emit, phaseWork]
    omega
  | ensured =>
    refine ⟨.resume, _, rfl, rfl, by rw [step, resume, phase], ?_⟩
    simp only [work, phase, phaseWork]
    omega
  | creating chat settled =>
    cases settled with
    | none =>
      have none : w.activeTurn = none := by
        have has := inv.turn
        rw [phase] at has
        exact has
      refine ⟨.settle (.error ""), { w with phase := .creating chat (some (.error "")) }, rfl, ?_, ?_, ?_⟩
      · simp [careful, none]
      · simp [step, given, phase, settlePhase]
      · simp only [work, phase, phaseWork]
        omega
    | some answer =>
      refine ⟨.resume, _, rfl, rfl, by rw [step, resume, phase], ?_⟩
      obtain ⟨less, queue, cancels⟩ : phaseWork (ensureSession w chat answer).phase < 5 ∧ _ := ensure_work chat answer
      have before : phaseWork w.phase = 5 := by
        rw [phase]
        rfl
      simp only [work, queue, cancels, before]
      omega
  | prompting chat settled =>
    obtain ⟨cancelled, active⟩ : ∃ cancelled, w.activeTurn = some ⟨chat, cancelled⟩ := by
      have has := inv.turn
      rw [phase] at has
      exact has
    cases settled with
    | some answer =>
      refine ⟨.resume, finish w ⟨chat, cancelled⟩ answer, rfl, rfl, by rw [step, resume, phase, active]; rfl, ?_⟩
      obtain ⟨less, queue, cancels⟩ : phaseWork (finish w ⟨chat, cancelled⟩ answer).phase < 2 ∧ _ :=
        finish_work ⟨chat, cancelled⟩ answer
      have before : phaseWork w.phase = 2 := by
        rw [phase]
        rfl
      simp only [work, queue, cancels, before]
      omega
    | none =>
      cases cancelled with
      | false =>
        refine ⟨.settle (.error ""), { w with phase := .prompting chat (some (.error "")) }, rfl, ?_, ?_, ?_⟩
        · simp [careful, active]
        · simp [step, given, phase, settlePhase]
        · simp only [work, phase, phaseWork]
          omega
      | true =>
        -- The agent runs, and answers the cancelled prompt.
        have answers := inv.answerable _ active rfl
        simp only [answerable, phase] at answers
        refine ⟨.settle (.result ""), { w with phase := .prompting chat (some (.result "")) }, rfl, rfl, ?_, ?_⟩
        · simp [step, given, answers, phase, settlePhase]
        · simp only [work, phase, phaseWork]
          omega

theorem cancel_progresses {c : Cancel} {rest : List Cancel} (cancels : w.cancels = c :: rest) : Progresses w := by
  obtain ⟨chat, stage⟩ := c
  cases stage with
  | writing =>
    refine ⟨.cancelAsks 0, setCancel w 0 ⟨chat, .asked none⟩, rfl, rfl, by simp [step, cancels], ?_⟩
    simp only [work, setCancel, cancels, set_cons_zero, cancelWork, stageWork]
    omega
  | asked settled =>
    cases settled with
    | none =>
      refine ⟨.settleCancel 0 (.error ""), setCancel w 0 ⟨chat, .asked (some (.error ""))⟩, rfl, rfl,
        by simp [step, cancels, given], ?_⟩
      simp only [work, setCancel, cancels, set_cons_zero, cancelWork, stageWork]
      omega
    | some answer =>
      refine ⟨.resumeCancel 0, endCancel w 0 chat answer, rfl, rfl, by simp [step, cancels], ?_⟩
      cases answer with
      | result | error =>
        simp only [work, endCancel, emit, cancels, eraseIdx_cons_zero, cancelWork, stageWork]
        omega

theorem progresses (inv : Inv w) (busy : ¬ AtRest w) : Progresses w := by
  by_cases idle : w.phase = .idle
  · cases queue : w.turnQueue with
    | cons chat rest =>
      refine ⟨.next, prompt { w with turnQueue := rest } chat, rfl, rfl, by simp only [step, idle, queue], ?_⟩
      obtain ⟨most, same, cancels⟩ := prompt_work { w with turnQueue := rest } chat
      have longer : w.turnQueue.length = rest.length + 1 := by
        rw [queue]
        rfl
      simp only [work, same, cancels, longer]
      omega
    | nil =>
      cases cancels : w.cancels with
      | nil => exact absurd ⟨idle, queue, cancels⟩ busy
      | cons => exact cancel_progresses cancels
  · exact phase_progresses inv idle

/-- When no more lines come, everything comes to an end. -/
theorem comes_to_rest (inv : Inv w) : ∃ actions last, (∀ action ∈ actions, isLine action = false) ∧
    Guarded step (fun w action => careful w action) w actions ∧ run step w actions = some last ∧ AtRest last := by
  induction size : work w using Nat.strongRecOn generalizing w with
  | ind size ih =>
    by_cases rest : AtRest w
    · exact ⟨[], w, nofun, trivial, rfl, rest⟩
    · obtain ⟨action, next, free, guard, stepped, less⟩ := progresses inv rest
      obtain ⟨actions, last, others, guarded, ran, ends⟩ := ih (work next) (size ▸ less) (inv_step guard inv stepped) rfl
      refine ⟨action :: actions, last, ?_, ⟨guard, fun other taken => ?_⟩, ?_, ends⟩
      · intro one member
        rcases mem_cons.mp member with rfl | later
        · exact free
        · exact others one later
      · cases stepped.symm.trans taken
        exact guarded
      · rw [run, stepped]
        exact ran

end Progress

/-- Every chat has one terminal event when everything has come to an end, which it can always do, and at most one before;
    and an abort acts while a chat waits for its event, and only then. -/
theorem chats_answered (actions : List Action) (w : World) (ran : run step started actions = some w)
    (guarded : Guarded step (fun w action => careful w action) started actions) :
    Outcomes w ∧ ∃ more last, (∀ action ∈ more, isLine action = false) ∧ run step w more = some last ∧
      AtRest last ∧ Outcomes last := by
  have inv : Inv w := guarded_run_invariant Inv (fun _ _ _ guard inv stepped => inv_step guard inv stepped) guarded ran
    inv_started
  obtain ⟨more, last, free, guards, runs, rest⟩ := comes_to_rest inv
  have ends : Inv last := guarded_run_invariant Inv (fun _ _ _ guard inv stepped => inv_step guard inv stepped) guards
    runs inv
  exact ⟨inv_outcomes inv, more, last, free, runs, rest, inv_outcomes ends⟩

def cancelledChat : List Action :=
  [.chat, .next, .settle (.result "session"), .resume, .resume, .abort, .cancelAsks 0, .settleCancel 0 (.result ""),
    .resumeCancel 0]

theorem cancelled_once : ∃ w, run step started (cancelledChat ++ [.settle (.result "cancelled"), .resume]) = some w ∧
    w.terminals = [(0, .aborted)] ∧ Outcomes w := by
  obtain ⟨w, ran, terminals⟩ := map_eq_some_iff.mp
    (show (run step started (cancelledChat ++ [.settle (.result "cancelled"), .resume])).map World.terminals =
      some [(0, .aborted)] from by decide +kernel)
  refine ⟨w, ran, terminals, (chats_answered _ w ran ?_).1⟩
  exact checked_guarded careful (fun _ _ passed => passed) _ _ (by decide +kernel)

/-- A second abort sends a second cancel, and both write their event. -/
theorem aborted_twice : ¬ ∀ (actions : List Action) (w : World), run step started actions = some w → Outcomes w := by
  intro claimed
  obtain ⟨w, ran, seen⟩ := map_eq_some_iff.mp
    (show (run step started (cancelledChat ++ [.abort, .cancelAsks 0, .settleCancel 0 (.result ""), .resumeCancel 0])).map
      (fun w => (w.chats, count w 0)) = some (1, 2) from by decide +kernel)
  simp only [Prod.mk.injEq] at seen
  have once := (claimed _ w ran).once 0
  rw [seen.1, seen.2] at once
  exact absurd once (by decide)

end PieRelay.AcpTurns
