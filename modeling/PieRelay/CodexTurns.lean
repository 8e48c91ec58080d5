import Mathlib.Data.List.Nodup
import Mathlib.Logic.Function.Basic
import PieRelay.Executions

/-!
The turns of client/node-executor/codex-acp-adapter.mjs. Lines are handled as they are read; the continuations of the
promises they settle, the jobs, run when all lines of a read have been handled, in the order in which they were settled.
Requests and states are numbered. Ids are texts, or undefined. Left out: the updates, artifacts and approvals in
between, which touch no turn.
-/
namespace PieRelay.CodexTurns
open Executions List

structure SessionState where
  threadId : Option String
  turns : Option String → Option Nat
  activeTurnId : Option String

inductive Pending where
  | initializeRequest (request : Nat)
  | sessionNew (request : Nat)
  | prompt (request state : Nat) (threadId : Option String)
  | cancel (request : Nat)

def Pending.request : Pending → Nat
  | .initializeRequest request | .sessionNew request | .prompt request _ _ | .cancel request => request

inductive Answer where
  | error (code : Int) (message : String)
  | result (thread turn : Option (Option String))

inductive Outcome where
  | failed (message : String)
  | cancelled
  | endTurn
  deriving DecidableEq

inductive Reply where
  | initialized
  | session (sessionId : Option String)
  | stopped (stopReason : String)
  | done
  | error (code : Int) (message : String)
  | typeError
  deriving DecidableEq

def acpError (code : Int) (message : String) : Reply := .error (if code = 0 then -32000 else code) message

def replyOf : Outcome → Reply
  | .failed message => acpError 0 message
  | .cancelled => .stopped "cancelled"
  | .endTurn => .stopped "end_turn"

inductive Job where
  | answered (pending : Pending) (answer : Answer)
  | finished (request : Nat) (outcome : Outcome)

structure Adapter where
  states : List SessionState
  sessions : List (Option String × Nat)
  replies : List (Nat × Reply)

def truthy (id : Option String) : Bool := id ≠ none ∧ id ≠ some ""

def sessionOf (a : Adapter) (sessionId : Option String) : Option Nat :=
  (a.sessions.find? fun entry => entry.1 = sessionId).map Prod.snd

def setSession (sessions : List (Option String × Nat)) (sessionId : Option String) (state : Nat) :
    List (Option String × Nat) :=
  if sessions.any fun entry => entry.1 = sessionId then
    sessions.map fun entry => if entry.1 = sessionId then (sessionId, state) else entry
  else sessions ++ [(sessionId, state)]

def sessionForThread (a : Adapter) (threadId : Option String) : Option Nat :=
  (a.sessions.find? fun entry => a.states[entry.2]?.any fun state => state.threadId = threadId).map Prod.snd

def waiter (a : Adapter) (threadId turnId : Option String) : Option (Nat × Nat) :=
  if truthy threadId ∧ truthy turnId then do
    let state ← sessionForThread a threadId
    let session ← a.states[state]?
    let request ← session.turns turnId
    return (state, request)
  else none

def replying (a : Adapter) (request : Nat) (reply : Reply) : Adapter :=
  { a with replies := a.replies ++ [(request, reply)] }

def register (a : Adapter) (state : Nat) (turnId : Option String) (request : Nat) : Adapter :=
  { a with
    states := a.states.modify state fun session =>
      { session with activeTurnId := turnId, turns := Function.update session.turns turnId (some request) } }

def dropTurn (a : Adapter) (state : Nat) (turnId : Option String) : Adapter :=
  { a with
    states := a.states.modify state fun session =>
      { session with
        turns := Function.update session.turns turnId none
        activeTurnId := if session.activeTurnId = turnId then none else session.activeTurnId } }

def newSession (a : Adapter) (threadId : Option String) : Adapter :=
  { a with
    states := a.states ++ [⟨threadId, fun _ => none, none⟩]
    sessions := setSession a.sessions threadId a.states.length }

def settle (a : Adapter) : Job → Adapter
  | .answered pending (.error code message) => replying a pending.request (acpError code message)
  | .answered (.initializeRequest request) (.result _ _) => replying a request .initialized
  | .answered (.sessionNew request) (.result (some threadId) _) =>
    replying (newSession a threadId) request (.session threadId)
  | .answered (.sessionNew request) (.result none _) => replying a request .typeError
  | .answered (.prompt request state _) (.result _ (some turnId)) => register a state turnId request
  | .answered (.prompt request _ _) (.result _ none) => replying a request .typeError
  | .answered (.cancel request) (.result _ _) => replying a request .done
  | .finished request outcome => replying a request (replyOf outcome)

inductive Status where
  | failed (message : String)
  | interrupted
  | other

def outcomeOf : Status → Outcome
  | .failed message => .failed (if message = "" then "Codex turn failed" else message)
  | .interrupted => .cancelled
  | .other => .endTurn

inductive CodexLine where
  | response (id : Option Nat) (answer : Answer)
  | completed (threadId turnId : Option String) (status : Status)
  | null
  | other

inductive AcpLine where
  | initializeRequest
  | sessionNew
  | prompt (sessionId : Option String)
  | cancel (sessionId : Option String)
  | unknown (method : String)
  | null
  | other

inductive Stream where
  | codex
  | acp
  deriving DecidableEq

/-- A turn that codex has answered a prompt with, and what it has said of it since. `missed` is whether it was not
    interrupted by a cancel of its session that came before it was completed. -/
structure Turn where
  request : Nat
  threadId : Option String
  turnId : String
  outcome : Option Outcome
  missed : Bool
  deriving DecidableEq

structure World where
  alive : Bool
  reading : Option Stream
  adapter : Adapter
  nextCodexId : Nat
  codexPending : Nat → Option Pending
  jobs : List Job
  received : Nat
  interrupts : List (Nat × Option String × Option String)
  told : List Turn

def start : World := ⟨true, none, ⟨[], [], []⟩, 1, fun _ => none, [], 0, [], []⟩

def starts : Pending → Answer → Option Turn
  | .prompt request _ threadId, .result _ (some (some turnId)) => some ⟨request, threadId, turnId, none, false⟩
  | _, _ => none

def completes (threadId turnId : Option String) (outcome : Outcome) (turn : Turn) : Turn :=
  if turn.threadId = threadId ∧ some turn.turnId = turnId ∧ turn.outcome = none then
    { turn with outcome := some outcome }
  else turn

def misses (sessionId target : Option String) (turn : Turn) : Turn :=
  if turn.threadId = sessionId ∧ turn.outcome = none ∧ some turn.turnId ≠ target then { turn with missed := true }
  else turn

def handleCodex (w : World) : CodexLine → World
  | .response id answer =>
    match id.bind w.codexPending with
    | none => w
    | some pending => { w with
      codexPending := fun other => if some other = id then none else w.codexPending other
      jobs := w.jobs ++ [.answered pending answer]
      told := w.told ++ (starts pending answer).toList }
  | .completed threadId turnId status =>
    let told := w.told.map (completes threadId turnId (outcomeOf status))
    match waiter w.adapter threadId turnId with
    | none => { w with told := told }
    | some (state, request) => { w with
      told := told
      adapter := dropTurn w.adapter state turnId
      jobs := w.jobs ++ [.finished request (outcomeOf status)] }
  | .null => { w with alive := false }
  | .other => w

def codexRequest (w : World) (pending : Pending) : World :=
  { w with
    nextCodexId := w.nextCodexId + 1
    codexPending := Function.update w.codexPending w.nextCodexId (some pending) }

def reply (w : World) (request : Nat) (reply : Reply) : World :=
  { w with adapter := replying w.adapter request reply }

def activeTurn (a : Adapter) (sessionId : Option String) : Option String :=
  match (sessionOf a sessionId).bind (a.states[·]?) with
  | some session => if truthy session.activeTurnId then session.activeTurnId else none
  | none => none

def threadOf (a : Adapter) (state : Nat) : Option String := a.states[state]?.bind SessionState.threadId

def handleAcp (w : World) (line : AcpLine) : World :=
  let received := { w with received := w.received + 1 }
  match line with
  | .null => { w with alive := false }
  | .other => w
  | .initializeRequest => codexRequest received (.initializeRequest w.received)
  | .sessionNew => codexRequest received (.sessionNew w.received)
  | .prompt sessionId =>
    match sessionOf w.adapter sessionId with
    | none => reply received w.received (acpError 0 "Unknown ACP session")
    | some state => codexRequest received (.prompt w.received state (threadOf w.adapter state))
  | .cancel sessionId =>
    let told := w.told.map (misses sessionId (activeTurn w.adapter sessionId))
    match activeTurn w.adapter sessionId, sessionOf w.adapter sessionId with
    | some turnId, some state => codexRequest { received with
      told := told
      interrupts := w.interrupts ++ [(w.received, threadOf w.adapter state, some turnId)] } (.cancel w.received)
    | _, _ => reply { received with told := told } w.received .done
  | .unknown method => reply received w.received (acpError (-32601) ("Method not found: " ++ method))

def settled (w : World) : Adapter := w.jobs.foldl settle w.adapter

inductive Action where
  | codex (line : CodexLine)
  | acp (line : AcpLine)
  | continuations
  | exit

def step (w : World) (action : Action) : Option World :=
  if !w.alive then none
  else match action with
    | .codex line => if w.reading = some .acp then none else some { handleCodex w line with reading := some .codex }
    | .acp line => if w.reading = some .codex then none else some { handleAcp w line with reading := some .acp }
    | .continuations => some { w with reading := none, adapter := settled w, jobs := [] }
    | .exit => if w.reading = none then some { w with alive := false } else none

def repliesTo (a : Adapter) (request : Nat) : List Reply :=
  (a.replies.filter fun entry => entry.1 = request).map Prod.snd

/-- Between two reads, a prompt has its one reply once its turn is completed, and none before; and cancels interrupt. -/
structure Answers (w : World) : Prop where
  replies : w.reading = none → ∀ turn ∈ w.told, repliesTo w.adapter turn.request = (turn.outcome.map replyOf).toList
  interrupted : ∀ turn ∈ w.told, turn.missed = false

/-- What codex and the client do by their protocol. A line is an object; a thread is a new one; a turn that is started has
    an id, and none that is open in its thread has the same. -/
def lawful (w : World) : Action → Bool
  | .codex .null | .acp .null => false
  | .codex (.response (some id) (.result thread turn)) =>
    match w.codexPending id with
    | some (.sessionNew _) => thread.all fun threadId => truthy threadId ∧ sessionOf (settled w) threadId = none
    | some (.prompt _ _ threadId) => turn.all fun turnId => turnId.any fun text => text ≠ "" ∧
        ∀ told ∈ w.told, told.threadId = threadId → told.turnId = text → told.outcome ≠ none
    | _ => true
  | _ => true

def lastOf (told : List Turn) (threadId : Option String) : Option Turn :=
  (told.filter fun turn => turn.threadId = threadId).getLast?

def startsTurn (threadId turnId : Option String) : Job → Bool
  | .answered pending answer =>
    (starts pending answer).any fun turn => turn.threadId = threadId ∧ some turn.turnId = turnId
  | .finished _ _ => false

/-- No turn is completed in the read in which it is started; and a cancel comes when no turn is open in its session but
    the one that was started last. -/
def careful (w : World) : Action → Bool
  | .codex (.completed threadId turnId _) => w.jobs.all fun job => !startsTurn threadId turnId job
  | .acp (.cancel sessionId) => w.told.all fun turn =>
    turn.threadId = sessionId → turn.outcome = none → lastOf w.told sessionId = some turn
  | _ => true

def turnsOf (a : Adapter) (state : Nat) (turnId : Option String) : Option Nat :=
  a.states[state]?.bind fun session => session.turns turnId

def activeOf (a : Adapter) (state : Nat) : Option String := a.states[state]?.bind SessionState.activeTurnId

structure Sessions (a : Adapter) : Prop where
  named : ∀ entry ∈ a.sessions, truthy entry.1
  states : ∀ entry ∈ a.sessions, ∃ session, a.states[entry.2]? = some session ∧ session.threadId = entry.1
  distinct : (a.sessions.map Prod.fst).Nodup

section Adapters
variable {a : Adapter} {threadId turnId : Option String} {state request : Nat}

theorem session_of_mem (there : sessionOf a threadId = some state) : (threadId, state) ∈ a.sessions := by
  obtain ⟨entry, found, rfl⟩ := Option.map_eq_some_iff.mp there
  have named : entry.1 = threadId := by simpa using find?_some found
  subst named
  exact mem_of_find?_eq_some found

theorem mem_session_of (sound : Sessions a) (member : (threadId, state) ∈ a.sessions) :
    sessionOf a threadId = some state := by
  cases found : a.sessions.find? fun entry => entry.1 = threadId with
  | none =>
    have absurd := find?_eq_none.mp found _ member
    simp at absurd
  | some entry =>
    have named : entry.1 = threadId := by simpa using find?_some found
    have same := inj_on_of_nodup_map sound.distinct (mem_of_find?_eq_some found) member named
    rw [sessionOf, found, same]
    rfl

theorem session_for_thread (sound : Sessions a) : sessionForThread a threadId = sessionOf a threadId := by
  have same : ∀ entries : List (Option String × Nat), (∀ entry ∈ entries, entry ∈ a.sessions) →
      entries.find? (fun entry => a.states[entry.2]?.any fun session => session.threadId = threadId) =
        entries.find? fun entry => entry.1 = threadId := by
    intro entries inside
    induction entries with
    | nil => rfl
    | cons entry rest ih =>
      obtain ⟨session, there, named⟩ := sound.states entry (inside entry mem_cons_self)
      rw [find?_cons, find?_cons, there, Option.any_some, named,
        ih fun other member => inside other (mem_cons_of_mem entry member)]
  rw [sessionForThread, same a.sessions fun _ member => member, sessionOf]

theorem states_apart (sound : Sessions a) {other : Option String} (one : (threadId, state) ∈ a.sessions)
    (two : (other, state) ∈ a.sessions) : threadId = other := by
  obtain ⟨session, there, named⟩ := sound.states _ one
  obtain ⟨session', there', named'⟩ := sound.states _ two
  cases there.symm.trans there'
  exact named.symm.trans named'

theorem turns_register (there : state < a.states.length) (other : Nat) (key : Option String) :
    turnsOf (register a state turnId request) other key =
      if other = state ∧ key = turnId then some request else turnsOf a other key := by
  simp only [turnsOf, register, getElem?_modify]
  by_cases same : state = other
  · subst same
    rw [getElem?_eq_getElem there]
    by_cases key : key = turnId
    · simp [key]
    · simp [key]
  · have apart : ¬ (other = state ∧ key = turnId) := fun both => same both.1.symm
    simp [same, apart]

theorem turns_drop (other : Nat) (key : Option String) : turnsOf (dropTurn a state turnId) other key =
      if other = state ∧ key = turnId then none else turnsOf a other key := by
  simp only [turnsOf, dropTurn, getElem?_modify]
  by_cases same : state = other
  · subst same
    by_cases key : key = turnId
    · cases a.states[state]? <;> simp [key]
    · cases a.states[state]? <;> simp [key]
  · have apart : ¬ (other = state ∧ key = turnId) := fun both => same both.1.symm
    simp [same, apart]

theorem active_register (there : state < a.states.length) (other : Nat) :
    activeOf (register a state turnId request) other = if other = state then turnId else activeOf a other := by
  simp only [activeOf, register, getElem?_modify]
  by_cases same : state = other
  · subst same
    rw [getElem?_eq_getElem there]
    simp
  · simp [same, Ne.symm same]

theorem active_drop (other : Nat) : activeOf (dropTurn a state turnId) other =
      if other = state ∧ activeOf a other = turnId then none else activeOf a other := by
  simp only [activeOf, dropTurn, getElem?_modify]
  by_cases same : state = other
  · subst same
    rcases Option.eq_none_or_eq_some a.states[state]? with there | ⟨session, there⟩
    · simp [there]
    · by_cases active : session.activeTurnId = turnId
      · simp [there, active]
      · simp [there, active]
  · have apart : ¬ (other = state ∧ a.states[other]?.bind SessionState.activeTurnId = turnId) :=
      fun both => same both.1.symm
    simp [same, apart]

theorem replies_replying (reply : Reply) (other : Nat) :
    repliesTo (replying a request reply) other = repliesTo a other ++ if other = request then [reply] else [] := by
  simp only [repliesTo, replying, filter_append, map_append]
  by_cases same : other = request
  · simp [same]
  · simp [same, Ne.symm same]

theorem sessions_register (sound : Sessions a) : Sessions (register a state turnId request) := by
  refine ⟨sound.named, fun entry member => ?_, sound.distinct⟩
  obtain ⟨session, there, named⟩ := sound.states entry member
  simp only [register, getElem?_modify, there]
  by_cases same : state = entry.2
  · exact ⟨_, rfl, by simp [same, named]⟩
  · exact ⟨_, rfl, by simp [same, named]⟩

theorem sessions_drop (sound : Sessions a) : Sessions (dropTurn a state turnId) := by
  refine ⟨sound.named, fun entry member => ?_, sound.distinct⟩
  obtain ⟨session, there, named⟩ := sound.states entry member
  simp only [dropTurn, getElem?_modify, there]
  by_cases same : state = entry.2
  · exact ⟨_, rfl, by simp [same, named]⟩
  · exact ⟨_, rfl, by simp [same, named]⟩

theorem set_fresh (sound : sessionOf a threadId = none) :
    setSession a.sessions threadId state = a.sessions ++ [(threadId, state)] := by
  rw [sessionOf, Option.map_eq_none_iff, find?_eq_none] at sound
  rw [setSession, if_neg]
  intro some
  obtain ⟨entry, member, same⟩ := any_eq_true.mp some
  exact sound entry member same

theorem sessions_new (sound : Sessions a) (named : truthy threadId) (fresh : sessionOf a threadId = none) :
    Sessions (newSession a threadId) := by
  have appended : (newSession a threadId).sessions = a.sessions ++ [(threadId, a.states.length)] := set_fresh fresh
  refine ⟨?_, ?_, ?_⟩
  · intro entry member
    rw [appended] at member
    rcases mem_append.mp member with old | new
    · exact sound.named entry old
    · rw [mem_singleton.mp new]
      exact named
  · intro entry member
    rw [appended] at member
    rcases mem_append.mp member with old | new
    · obtain ⟨session, there, same⟩ := sound.states entry old
      refine ⟨session, ?_, same⟩
      show (a.states ++ _)[entry.2]? = some session
      rw [List.getElem?_append_left (List.getElem?_eq_some_iff.mp there).1]
      exact there
    · rw [mem_singleton.mp new]
      refine ⟨⟨threadId, fun _ => none, none⟩, ?_, rfl⟩
      show (a.states ++ _)[a.states.length]? = _
      simp
  · rw [appended, map_append, nodup_append]
    refine ⟨sound.distinct, by simp, fun one old other new => ?_⟩
    obtain ⟨entry, member, rfl⟩ := mem_map.mp old
    rw [mem_singleton.mp new]
    intro same
    have there := mem_session_of sound (show (entry.1, entry.2) ∈ a.sessions from member)
    rw [show entry.1 = threadId from same, fresh] at there
    cases there

theorem turns_new (other : Nat) (key : Option String) : turnsOf (newSession a threadId) other key = turnsOf a other key := by
  show ((a.states ++ _)[other]?.bind _) = _
  rw [turnsOf]
  by_cases inside : other < a.states.length
  · rw [getElem?_append_left inside]
  · rw [getElem?_eq_none (l := a.states) (Nat.le_of_not_lt inside), getElem?_append_right (Nat.le_of_not_lt inside)]
    cases other - a.states.length <;> rfl

theorem active_new {other : Nat} (inside : other < a.states.length) :
    activeOf (newSession a threadId) other = activeOf a other := by
  show ((a.states ++ _)[other]?.bind _) = _
  rw [activeOf, getElem?_append_left inside]

end Adapters

end PieRelay.CodexTurns
