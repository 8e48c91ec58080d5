import Mathlib.Data.List.Basic
import PieRelay.Executions

/-!
The transcript of a chat, desktop/src/protocol.ts, and the frames of a tool block, `translateClaudeToolBlock` of
client/node-executor/executor.mjs. `stringify` is `JSON.stringify(value, null, 2)`. A frame goes through JSON, so what is
undefined in it is absent.
-/
namespace PieRelay.ChatReducer
open Executions

inductive Json where
  | null
  | bool (value : Bool)
  | number (literal : String)
  | string (value : String)
  | array (items : List Json)
  | object (members : List (String × Json))

structure RawEvent where
  type : String
  sessionId : Option String := none
  text : Option String := none
  message : Option String := none
  sender : Option String := none
  connected : Bool := false
  reason : Option String := none
  name : Option String := none
  input : Option Json := none
  content : Option Json := none
  requestId : Option String := none
  toolName : Option String := none

structure ToolFrame extends RawEvent where
  toolCallId : Option String
  isError : Bool := false

inductive Block where
  | tool_use (id name : Option String) (input : Option Json)
  | tool_result (toolUseId : Option String) (content : Option Json) (isError : Bool)
  | other

def translateClaudeToolBlock : Block → Option ToolFrame
  | .tool_use id name input => some { type := "tool_call", toolCallId := id, name := name, input := input }
  | .tool_result toolUseId content isError =>
    some { type := "tool_result", toolCallId := toolUseId, content := content, isError := isError }
  | .other => none

inductive ServerEvent where
  | session_id (sessionId : String)
  | text (text : String)
  | thinking (text : String)
  | done (sessionId : String)
  | error (message : String)
  | aborted
  | peer_chat (sender text : String)
  | host_status (connected : Bool)
  | unavailable (reason : String)
  | tool_call (name : String) (input : Option Json)
  | tool_result (content : Option Json)
  | permission_request (requestId toolName : String) (input : Option Json)

def parseServerEvent (e : RawEvent) : Option ServerEvent :=
  match e.type with
  | "session_id" => some (.session_id (e.sessionId.getD ""))
  | "text" => some (.text (e.text.getD ""))
  | "thinking" => some (.thinking (e.text.getD ""))
  | "done" => some (.done (e.sessionId.getD ""))
  | "error" => some (.error (e.message.getD ""))
  | "aborted" => some .aborted
  | "peer_chat" => some (.peer_chat (e.sender.getD "") (e.text.getD ""))
  | "host:status" | "agent:status" => some (.host_status e.connected)
  | "agent:unavailable" => some (.unavailable (e.reason.getD ""))
  | "tool_call" => some (.tool_call (e.name.getD "") e.input)
  | "tool_result" => some (.tool_result e.content)
  | "permission_request" =>
    if e.requestId.getD "" = "" then none
    else some (.permission_request (e.requestId.getD "") (e.toolName.getD "") e.input)
  | _ => none

def guestName (sender : String) : Option String :=
  if "guest:".toList.isPrefixOf sender.toList then
    match (sender.toList.drop 6).reverse.span (· ≠ '-') with
    | (rand, _ :: name) =>
      if rand ≠ [] ∧ name ≠ [] ∧ name.all fun c => c.toNat ∉ [0x0a, 0x0d, 0x2028, 0x2029] then
        some (String.ofList name.reverse)
      else none
    | _ => none
  else none

def speakerName (sender : String) : String := if sender = "" then "?" else (guestName sender).getD sender

def isWhite (c : Char) : Bool :=
  c.toNat ∈ [0x20, 0xa0, 0x1680, 0x2028, 0x2029, 0x202f, 0x205f, 0x3000, 0xfeff] ∨ (0x09 ≤ c.toNat ∧ c.toNat ≤ 0x0d) ∨
    (0x2000 ≤ c.toNat ∧ c.toNat ≤ 0x200a)

def trim (text : String) : String := String.ofList ((text.toList.dropWhile isWhite).reverse.dropWhile isWhite).reverse

inductive SpeakerKind where
  | claude
  | me
  | peer
  | system
  | error
  | activity
  | permission
  deriving DecidableEq

structure ToolActivity where
  name : String
  input : Option Json
  result : Option String := none
  hasResult : Bool

inductive PermissionDecision where
  | pending
  | allowed
  | denied
  deriving DecidableEq

structure PermissionCard where
  requestId : String
  toolName : String
  input : Option Json
  decision : PermissionDecision

structure ChatMessage where
  id : Nat := 0
  kind : SpeakerKind
  name : Option String := none
  text : String
  activity : Option ToolActivity := none
  permission : Option PermissionCard := none

structure ChatState where
  messages : List ChatMessage
  streaming : String
  responding : Bool
  thinking : String
  sessionId : String
  hostUp : Bool
  nextId : Nat

def initialChatState : ChatState := ⟨[], "", false, "", "", false, 1⟩

inductive ChatAction where
  | event (event : ServerEvent)
  | send (name text : String)
  | system (text : String)
  | permission_decide (requestId : String) (allow : Bool)

def push (state : ChatState) (msg : ChatMessage) : ChatState :=
  { state with messages := state.messages ++ [{ msg with id := state.nextId }], nextId := state.nextId + 1 }

def flushStreaming (state : ChatState) (keepResponding : Bool) : ChatState :=
  let trimmed := trim state.streaming
  let flushed := if trimmed ≠ "" then push state { kind := .claude, text := trimmed } else state
  { flushed with
    streaming := ""
    responding := keepResponding
    thinking := if keepResponding then flushed.thinking else "" }

def finalizeStreaming (state : ChatState) : ChatState := flushStreaming state false

def decided (requestId : String) (allow : Bool) (m : ChatMessage) : ChatMessage :=
  match m.permission with
  | some card =>
    if m.kind = .permission ∧ card.requestId = requestId ∧ card.decision = .pending then
      { m with permission := some { card with decision := if allow then .allowed else .denied } }
    else m
  | none => m

def decidePermission (state : ChatState) (requestId : String) (allow : Bool) : ChatState :=
  { state with messages := state.messages.map (decided requestId allow) }

def answered (result : String) (m : ChatMessage) : Option ChatMessage :=
  match m.activity with
  | some activity =>
    if m.kind = .activity ∧ activity.hasResult = false then
      some { m with activity := some { activity with hasResult := true, result := some result } }
    else none
  | none => none

section Content
variable (stringify : Json → String)

def blockText : Json → String
  | .string text => text
  | .object members =>
    match members.lookup "text" with
    | some (.string text) => text
    | _ => stringify (.object members)
  | block => stringify block

def renderToolResultContent : Option Json → String
  | none | some .null => ""
  | some (.string text) => text
  | some (.array blocks) => "\n".intercalate ((blocks.map (blockText stringify)).filter (· ≠ ""))
  | some content => stringify content

def attachBelow (state : ChatState) (result : String) : Nat → ChatState
  | 0 => state
  | i + 1 =>
    match state.messages[i]?.bind (answered result) with
    | some m => { state with messages := state.messages.set i m }
    | none => attachBelow state result i

def attachToolResult (state : ChatState) (content : Option Json) : ChatState :=
  attachBelow state (renderToolResultContent stringify content) state.messages.length

def applyEvent (state : ChatState) : ServerEvent → ChatState
  | .session_id sessionId => if sessionId ≠ "" then { state with sessionId := sessionId } else state
  | .text text => { state with responding := true, streaming := state.streaming ++ text }
  | .thinking text => { state with responding := true, thinking := state.thinking ++ text }
  | .done sessionId =>
    let withId := if sessionId ≠ "" then { state with sessionId := sessionId } else state
    finalizeStreaming withId
  | .error message => push (finalizeStreaming state) { kind := .error, text := "오류: " ++ message }
  | .aborted => push (finalizeStreaming state) { kind := .system, text := "응답이 중단되었습니다." }
  | .peer_chat sender text => push state { kind := .peer, name := some (speakerName sender), text := text }
  | .host_status connected => if state.hostUp = connected then state else { state with hostUp := connected }
  | .unavailable _ => push { state with responding := false }
      { kind := .system, text := "호스트가 연결되어 있지 않습니다 — 노트북 데몬이 실행 중인지 확인하세요." }
  | .tool_call name input => push (flushStreaming state true)
      { kind := .activity, text := "", activity := some { name := name, input := input, hasResult := false } }
  | .tool_result content => attachToolResult stringify state content
  | .permission_request requestId toolName input => push state
      { kind := .permission, text := "", permission := some ⟨requestId, toolName, input, .pending⟩ }

def chatReducer (state : ChatState) : ChatAction → ChatState
  | .send name text =>
    { push state { kind := .me, name := some name, text := text } with responding := true, thinking := "" }
  | .system text => push state { kind := .system, text := text }
  | .permission_decide requestId allow => decidePermission state requestId allow
  | .event event => applyEvent stringify state event

end Content

inductive Kept : ChatMessage → ChatMessage → Prop
  | same (m : ChatMessage) : Kept m m
  | decided (m : ChatMessage) (card : PermissionCard) (decision : PermissionDecision) (kind : m.kind = .permission)
      (mine : m.permission = some card) (pending : card.decision = .pending) (final : decision ≠ .pending) :
      Kept m { m with permission := some { card with decision := decision } }
  | answered (m : ChatMessage) (activity : ToolActivity) (result : String) (kind : m.kind = .activity)
      (mine : m.activity = some activity) (pending : activity.hasResult = false) :
      Kept m { m with activity := some { activity with hasResult := true, result := some result } }

structure Extends (before after : ChatState) : Prop where
  kept : ∀ (i : Nat) m, before.messages[i]? = some m → ∃ m', after.messages[i]? = some m' ∧ Kept m m'
  session : before.sessionId ≠ "" → after.sessionId ≠ ""

structure Heard where
  flushed : List String
  current : String

def hear (heard : Heard) : ChatAction → Heard
  | .event (.text text) => { heard with current := heard.current ++ text }
  | .event (.done _) | .event (.error _) | .event .aborted | .event (.tool_call _ _) =>
    ⟨heard.flushed ++ [heard.current], ""⟩
  | _ => heard

def textOf : ChatAction → String
  | .event (.text text) => text
  | _ => ""

def spoken (messages : List ChatMessage) : List String :=
  messages.filterMap fun m => if m.kind = .claude then some m.text else none

structure Sound (heard : Heard) (state : ChatState) : Prop where
  next : state.nextId = state.messages.length + 1
  ids : state.messages.map ChatMessage.id = List.range' 1 state.messages.length
  spoken : spoken state.messages = (heard.flushed.map trim).filter (· ≠ "")
  streaming : state.streaming = heard.current

section Steps
variable {before state after : ChatState} {m m' : ChatMessage} {result : String} {heard : Heard}
  {stringify : Json → String}

theorem kept_trans {last : ChatMessage} (first : Kept m m') (second : Kept m' last) : Kept m last := by
  cases first with
  | same => exact second
  | decided card decision kind mine pending final =>
    cases second with
    | same => exact .decided m card decision kind mine pending final
    | decided other _ _ again open_ =>
      cases again
      exact absurd open_ final
    | answered _ _ other => exact absurd (kind.symm.trans other) (by decide)
  | answered activity result kind mine pending =>
    cases second with
    | same => exact .answered m activity result kind mine pending
    | decided _ _ other => exact absurd (kind.symm.trans other) (by decide)
    | answered _ _ _ again open_ =>
      cases again
      cases open_

theorem extends_trans (first : Extends before state) (second : Extends state after) : Extends before after := by
  refine ⟨fun i m here => ?_, fun known => second.session (first.session known)⟩
  obtain ⟨m', there, kept⟩ := first.kept i m here
  obtain ⟨last, found, further⟩ := second.kept i m' there
  exact ⟨last, found, kept_trans kept further⟩

theorem extends_same (messages : after.messages = before.messages)
    (session : before.sessionId ≠ "" → after.sessionId ≠ "") : Extends before after :=
  ⟨fun _ m here => ⟨m, messages ▸ here, .same m⟩, session⟩

theorem push_extends (msg : ChatMessage) : Extends state (push state msg) := by
  refine ⟨fun i m here => ⟨m, ?_, .same m⟩, id⟩
  rw [push, List.getElem?_append_left (List.getElem?_eq_some_iff.mp here).1]
  exact here

theorem flush_extends (keepResponding : Bool) : Extends state (flushStreaming state keepResponding) := by
  unfold flushStreaming
  dsimp only
  split
  · exact extends_trans (push_extends _) (extends_same rfl id)
  · exact extends_same rfl id

theorem changed_extends {messages : List ChatMessage} (length : messages.length = state.messages.length)
    (kept : ∀ (i : Nat) m m', state.messages[i]? = some m → messages[i]? = some m' → Kept m m') :
    Extends state { state with messages := messages } := by
  refine ⟨fun i m here => ?_, id⟩
  have inside : i < messages.length := length ▸ (List.getElem?_eq_some_iff.mp here).1
  exact ⟨messages[i], List.getElem?_eq_getElem inside, kept i m _ here (List.getElem?_eq_getElem inside)⟩

theorem kept_face (kept : Kept m m') : (m'.id, m'.kind, m'.text) = (m.id, m.kind, m.text) := by
  cases kept <;> rfl

theorem changed_sound {messages : List ChatMessage} (sound : Sound heard state)
    (length : messages.length = state.messages.length)
    (kept : ∀ (i : Nat) m m', state.messages[i]? = some m → messages[i]? = some m' → Kept m m') :
    Sound heard { state with messages := messages } := by
  have faces : messages.map (fun m => (m.id, m.kind, m.text)) = state.messages.map fun m => (m.id, m.kind, m.text) := by
    refine List.ext_getElem (by simpa using length) fun i first second => ?_
    rw [List.length_map] at first second
    rw [List.getElem_map, List.getElem_map]
    exact kept_face (kept i _ _ (List.getElem?_eq_getElem second) (List.getElem?_eq_getElem first))
  refine ⟨sound.next.trans (congrArg (· + 1) length.symm), ?_, ?_, sound.streaming⟩
  · rw [length, ← sound.ids]
    simpa [Function.comp_def] using congrArg (List.map Prod.fst) faces
  · rw [← sound.spoken]
    simpa [ChatReducer.spoken, List.filterMap_map, Function.comp_def] using
      congrArg (List.filterMap fun face => if face.2.1 = .claude then some face.2.2 else none) faces

theorem decided_kept (requestId : String) (allow : Bool) : Kept m (decided requestId allow m) := by
  unfold decided
  split
  · next card mine =>
    split
    · next open_ => exact .decided m card _ open_.1 mine open_.2.2 (by cases allow <;> decide)
    · exact .same m
  · exact .same m

theorem answered_kept (changed : answered result m = some m') : Kept m m' := by
  unfold answered at changed
  split at changed
  · next activity mine =>
    obtain ⟨open_, same⟩ := Option.ite_none_right_eq_some.mp changed
    cases same
    exact .answered m activity result open_.1 mine open_.2
  · cases changed

theorem attachBelow_cases (state : ChatState) (result : String) (n : Nat) :
    (attachBelow state result n = state ∧ ∀ j < n, state.messages[j]?.bind (answered result) = none) ∨
    ∃ i < n, ∃ m, state.messages[i]?.bind (answered result) = some m ∧
      attachBelow state result n = { state with messages := state.messages.set i m } ∧
      ∀ j, i < j → j < n → state.messages[j]?.bind (answered result) = none := by
  induction n with
  | zero => exact .inl ⟨rfl, nofun⟩
  | succ n ih =>
    rw [attachBelow]
    cases here : state.messages[n]?.bind (answered result) with
    | some m => exact .inr ⟨n, Nat.lt_succ_self n, m, here, rfl, fun j above below => by omega⟩
    | none =>
      have onward : ∀ {j}, j < n + 1 → (j < n → state.messages[j]?.bind (answered result) = none) →
          state.messages[j]?.bind (answered result) = none := fun below smaller =>
        (Nat.lt_succ_iff_lt_or_eq.mp below).elim smaller fun same => same ▸ here
      refine ih.imp (fun ⟨same, done⟩ => ⟨same, fun j below => onward below (done j)⟩) ?_
      rintro ⟨i, inside, m, found, same, done⟩
      exact ⟨i, by omega, m, found, same, fun j above below => onward below (done j above)⟩

theorem attach_kept (state : ChatState) (content : Option Json) : ∃ messages,
    attachToolResult stringify state content = { state with messages := messages } ∧
      messages.length = state.messages.length ∧
      ∀ (i : Nat) m m', state.messages[i]? = some m → messages[i]? = some m' → Kept m m' := by
  rcases attachBelow_cases state (renderToolResultContent stringify content) state.messages.length with
    ⟨same, _⟩ | ⟨i, inside, next, found, same, _⟩
  · refine ⟨state.messages, same, rfl, fun i m m' here there => ?_⟩
    cases here.symm.trans there
    exact .same m
  · obtain ⟨old, stood, changed⟩ := Option.bind_eq_some_iff.mp found
    refine ⟨_, same, List.length_set, fun j m m' here there => ?_⟩
    rw [List.getElem?_set] at there
    split at there
    · next mine =>
      cases there
      cases stood.symm.trans (mine ▸ here)
      exact answered_kept changed
    · cases here.symm.trans there
      exact .same m

theorem mapped_kept (requestId : String) (allow : Bool) (i : Nat) (m m' : ChatMessage)
    (here : state.messages[i]? = some m) (there : (state.messages.map (decided requestId allow))[i]? = some m') : Kept m m' := by
  rw [List.getElem?_map, here] at there
  cases there
  exact decided_kept requestId allow

theorem session_extends (sessionId : String) :
    Extends state (if sessionId ≠ "" then { state with sessionId := sessionId } else state) := by
  split
  · next known => exact extends_same rfl fun _ => known
  · exact extends_same rfl id

theorem session_sound (sound : Sound heard state) (sessionId : String) :
    Sound heard (if sessionId ≠ "" then { state with sessionId := sessionId } else state) := by
  split
  · exact ⟨sound.next, sound.ids, sound.spoken, sound.streaming⟩
  · exact sound

theorem reducer_extends (action : ChatAction) : Extends state (chatReducer stringify state action) := by
  cases action with
  | send name text => exact extends_trans (push_extends _) (extends_same rfl id)
  | system text => exact push_extends _
  | permission_decide requestId allow => exact changed_extends (List.length_map _) (mapped_kept requestId allow)
  | event event =>
    cases event with
    | session_id sessionId => exact session_extends sessionId
    | done sessionId => exact extends_trans (session_extends sessionId) (flush_extends false)
    | text | thinking => exact extends_same rfl id
    | error | aborted => exact extends_trans (flush_extends false) (push_extends _)
    | tool_call => exact extends_trans (flush_extends true) (push_extends _)
    | peer_chat | permission_request => exact push_extends _
    | unavailable =>
      have off : Extends state { state with responding := false } := extends_same rfl id
      exact extends_trans off (push_extends _)
    | host_status connected =>
      simp only [chatReducer, applyEvent]
      split <;> exact extends_same rfl id
    | tool_result content =>
      obtain ⟨messages, same, length, kept⟩ := @attach_kept stringify state content
      simp only [chatReducer, applyEvent, same]
      exact changed_extends length kept

theorem push_sound (sound : Sound heard state) {msg : ChatMessage} (other : msg.kind ≠ .claude) :
    Sound heard (push state msg) := by
  refine ⟨?_, ?_, ?_, sound.streaming⟩
  · simp [push, sound.next]
  · simp [push, sound.ids, sound.next, List.range'_concat, Nat.add_comm]
  · simpa [push, ChatReducer.spoken, other] using sound.spoken

theorem flush_sound (sound : Sound heard state) (keepResponding : Bool) :
    Sound ⟨heard.flushed ++ [heard.current], ""⟩ (flushStreaming state keepResponding) := by
  unfold flushStreaming
  dsimp only
  have streaming := sound.streaming
  split
  · next said =>
    refine ⟨?_, ?_, ?_, rfl⟩
    · simp [push, sound.next]
    · simp [push, sound.ids, sound.next, List.range'_concat, Nat.add_comm]
    · rw [streaming] at said ⊢
      simpa [push, ChatReducer.spoken, said] using sound.spoken
  · next blank =>
    refine ⟨sound.next, sound.ids, ?_, rfl⟩
    rw [streaming] at blank
    simpa [not_not.mp blank] using sound.spoken

theorem reducer_sound (sound : Sound heard state) (action : ChatAction) :
    Sound (hear heard action) (chatReducer stringify state action) := by
  cases action with
  | send name text =>
    have pushed : Sound heard (push state { kind := .me, name := some name, text := text }) := push_sound sound (by simp)
    exact ⟨pushed.next, pushed.ids, pushed.spoken, pushed.streaming⟩
  | system text => exact push_sound sound (by simp)
  | permission_decide requestId allow => exact changed_sound sound (List.length_map _) (mapped_kept requestId allow)
  | event event =>
    cases event with
    | session_id sessionId => exact session_sound sound sessionId
    | text text => exact ⟨sound.next, sound.ids, sound.spoken, congrArg (· ++ text) sound.streaming⟩
    | thinking => exact ⟨sound.next, sound.ids, sound.spoken, sound.streaming⟩
    | done sessionId => exact flush_sound (session_sound sound sessionId) false
    | error | aborted => exact push_sound (flush_sound sound false) (by simp)
    | tool_call => exact push_sound (flush_sound sound true) (by simp)
    | peer_chat | permission_request => exact push_sound sound (by simp)
    | unavailable =>
      have off : Sound heard { state with responding := false } := ⟨sound.next, sound.ids, sound.spoken, sound.streaming⟩
      exact push_sound off (by simp)
    | host_status connected =>
      simp only [chatReducer, applyEvent]
      split
      · exact sound
      · exact ⟨sound.next, sound.ids, sound.spoken, sound.streaming⟩
    | tool_result content =>
      obtain ⟨messages, same, length, kept⟩ := @attach_kept stringify state content
      simp only [chatReducer, applyEvent, same]
      exact changed_sound sound length kept

theorem hear_whole (heard : Heard) (action : ChatAction) : String.join (hear heard action).flushed ++
    (hear heard action).current = String.join heard.flushed ++ heard.current ++ textOf action := by
  have silent : ∀ text : String, text = text ++ "" := fun text => by simp
  have flushed : String.join (heard.flushed ++ [heard.current]) ++ "" =
      String.join heard.flushed ++ heard.current ++ "" := by simp
  cases action with
  | event event =>
    cases event with
    | text text => exact String.append_assoc.symm
    | done | error | aborted | tool_call => exact flushed
    | _ => exact silent _
  | _ => exact silent _

end Steps

section Runs
variable (stringify : Json → String)

theorem run_extends (state : ChatState) (actions : List ChatAction) :
    Extends state (actions.foldl (chatReducer stringify) state) := by
  induction actions generalizing state with
  | nil => exact extends_same rfl id
  | cons action rest ih => exact extends_trans (reducer_extends action) (ih _)

theorem run_sound {state : ChatState} {heard : Heard} (sound : Sound heard state) (actions : List ChatAction) :
    Sound (actions.foldl hear heard) (actions.foldl (chatReducer stringify) state) := by
  induction actions generalizing state heard with
  | nil => exact sound
  | cons action rest ih => exact ih (reducer_sound sound action)

theorem hear_all (heard : Heard) (actions : List ChatAction) :
    String.join (actions.foldl hear heard).flushed ++ (actions.foldl hear heard).current =
      String.join heard.flushed ++ heard.current ++ String.join (actions.map textOf) := by
  induction actions generalizing heard with
  | nil => simp
  | cons action rest ih =>
    rw [List.foldl_cons, ih, hear_whole, List.map_cons, String.join_cons, String.append_assoc]

/-- The messages are numbered in their order and stay as they are but for a decision or a result that a message gets
    once; the session stays known; and what Claude has said in messages and in the buffer is the text that has come. -/
theorem transcript_kept (earlier later : List ChatAction) :
    let before := earlier.foldl (chatReducer stringify) initialChatState
    let after := later.foldl (chatReducer stringify) before
    let heard := (earlier ++ later).foldl hear ⟨[], ""⟩
    (after.nextId = after.messages.length + 1 ∧
      after.messages.map ChatMessage.id = List.range' 1 after.messages.length) ∧
    Extends before after ∧
    spoken after.messages = (heard.flushed.map trim).filter (· ≠ "") ∧ after.streaming = heard.current ∧
    String.join heard.flushed ++ heard.current = String.join ((earlier ++ later).map textOf) := by
  intro before after heard
  have start : Sound ⟨[], ""⟩ initialChatState := ⟨rfl, rfl, rfl, rfl⟩
  have sound : Sound heard after := by
    have folded : (earlier ++ later).foldl (chatReducer stringify) initialChatState = after := List.foldl_append
    exact folded ▸ run_sound stringify start (earlier ++ later)
  refine ⟨⟨sound.next, sound.ids⟩, run_extends stringify before later, sound.spoken, sound.streaming, ?_⟩
  exact (hear_all ⟨[], ""⟩ (earlier ++ later)).trans (by simp)

end Runs
section Calls

structure Shown where
  chat : ChatState
  calls : List (Option String × ToolActivity)

def filled (result : String) (activity : ToolActivity) : ToolActivity :=
  { activity with hasResult := true, result := some result }

def deliver (stringify : Json → String) (state : Shown) (block : Block) : Option Shown :=
  let chat := match (translateClaudeToolBlock block).bind fun frame => parseServerEvent frame.toRawEvent with
    | some event => chatReducer stringify state.chat (.event event)
    | none => state.chat
  match block with
  | .tool_use id name input =>
    if id.all fun id => state.calls.all fun call => call.1 ≠ some id then
      some ⟨chat, state.calls ++ [(id, { name := name.getD "", input := input, hasResult := false })]⟩
    else none
  | .tool_result toolUseId content _ =>
    if toolUseId.isSome ∧ state.calls.any fun call => call.1 = toolUseId ∧ call.2.hasResult = false then
      some ⟨chat, state.calls.map fun call =>
        if call.1 = toolUseId then (call.1, filled (renderToolResultContent stringify content) call.2) else call⟩
    else none
  | .other => some ⟨chat, state.calls⟩

def Own (state : Shown) : Prop := state.chat.messages.map ChatMessage.activity = state.calls.map fun call => some call.2

def Latest (state : Shown) : Block → Prop
  | .tool_result toolUseId _ _ => ∀ (i j : Nat) call later, state.calls[i]? = some call → call.1 = toolUseId → i < j →
    state.calls[j]? = some later → later.2.hasResult = true
  | _ => True

def complete (m : ChatMessage) : Bool := m.activity.any ToolActivity.hasResult

def Undropped (state : Shown) : Prop :=
  state.chat.messages.countP complete = state.calls.countP fun call => call.2.hasResult

structure Tools (state : Shown) : Prop where
  blank : state.chat.streaming = ""
  shown : ∀ m ∈ state.chat.messages, m.kind = .activity ∧ m.activity.isSome
  unique : (state.calls.map Prod.fst).Pairwise fun a b => a = none ∨ a ≠ b
  length : state.chat.messages.length = state.calls.length
  undropped : Undropped state

structure Placed (state next : Shown) (id : String) (result : String) (i j : Nat) (activity : ToolActivity)
    (m m' : ChatMessage) : Prop where
  message : state.chat.messages[i]? = some m
  answered : answered result m = some m'
  latest : ∀ k : Nat, i < k → ∀ m, state.chat.messages[k]? = some m → complete m = true
  chat : next.chat = { state.chat with messages := state.chat.messages.set i m' }
  call : state.calls[j]? = some (some id, activity)
  waits : activity.hasResult = false
  calls : next.calls = state.calls.set j (some id, filled result activity)

section
variable {stringify : Json → String} {state next : Shown} {m m' : ChatMessage} {result id : String} {block : Block}
  {content : Option Json} {isError : Bool} {i j : Nat} {activity : ToolActivity}

theorem answered_none_iff (shown : m.kind = .activity ∧ m.activity.isSome) :
    answered result m = none ↔ complete m = true := by
  obtain ⟨activity, mine⟩ := Option.isSome_iff_exists.mp shown.2
  cases known : activity.hasResult <;> simp [answered, complete, mine, shown.1, known]

theorem answered_filled (changed : answered result m = some m') : ∃ activity, m.kind = .activity ∧
    m.activity = some activity ∧ activity.hasResult = false ∧
    m' = { m with activity := some (filled result activity) } := by
  unfold answered at changed
  split at changed
  · next activity mine =>
    obtain ⟨open_, same⟩ := Option.ite_none_right_eq_some.mp changed
    cases same
    exact ⟨activity, open_.1, mine, open_.2, rfl⟩
  · cases changed

theorem calls_apart (tools : Tools state) {first second : Option String × ToolActivity}
    (here : state.calls[i]? = some first) (there : state.calls[j]? = some second) (mine : first.1 = some id)
    (same : second.1 = some id) : i = j := by
  have apart := List.pairwise_iff_getElem.mp (List.pairwise_map.mp tools.unique)
  obtain ⟨inside, rfl⟩ := List.getElem?_eq_some_iff.mp here
  obtain ⟨within, rfl⟩ := List.getElem?_eq_some_iff.mp there
  rcases Nat.lt_trichotomy i j with before | equal | behind
  · simpa [mine, same] using apart i j inside within before
  · exact equal
  · simpa [mine, same] using apart j i within inside behind

theorem result_placed (tools : Tools state)
    (delivered : deliver stringify state (.tool_result (some id) content isError) = some next) :
    ∃ i j activity m m', Placed state next id (renderToolResultContent stringify content) i j activity m m' := by
  obtain ⟨⟨_, open_⟩, same⟩ := Option.ite_none_right_eq_some.mp delivered
  cases same
  obtain ⟨⟨_, activity⟩, member, fits⟩ := List.any_eq_true.mp open_
  obtain ⟨rfl, waits⟩ := of_decide_eq_true fits
  replace waits : activity.hasResult = false := waits
  obtain ⟨j, inside, here⟩ := List.mem_iff_getElem.mp member
  have call : state.calls[j]? = some (some id, activity) := by rw [List.getElem?_eq_getElem inside, here]
  have placed : state.calls.map (fun call => if call.1 = some id then
      (call.1, filled (renderToolResultContent stringify content) call.2) else call) =
      state.calls.set j (some id, filled (renderToolResultContent stringify content) activity) := by
    refine List.ext_getElem (by simp) fun k first second => ?_
    rw [List.length_map] at first
    rw [List.getElem_map, List.getElem_set]
    split
    · next also =>
      have same := calls_apart tools (List.getElem?_eq_getElem first) call also rfl
      subst same
      simp [here]
    · next other =>
      rw [if_neg]
      rintro rfl
      exact other (by rw [here])
  have whole : ∀ (k : Nat) m, state.chat.messages[k]? = some m →
      state.chat.messages[k]?.bind (answered (renderToolResultContent stringify content)) = none → complete m := by
    intro k m there done
    rw [there] at done
    exact (answered_none_iff (tools.shown m (List.mem_of_getElem? there))).mp done
  rcases attachBelow_cases state.chat (renderToolResultContent stringify content) state.chat.messages.length with
    ⟨_, done⟩ | ⟨i, below, m', found, same, done⟩
  · have all : state.chat.messages.countP complete = state.chat.messages.length := by
      refine List.countP_eq_length.mpr fun m member => ?_
      obtain ⟨k, inside, rfl⟩ := List.mem_iff_getElem.mp member
      exact whole k _ (List.getElem?_eq_getElem inside) (done k inside)
    rw [tools.undropped, tools.length] at all
    exact absurd (List.countP_eq_length.mp all _ member) (by simp [waits])
  · obtain ⟨m, there, changed⟩ := Option.bind_eq_some_iff.mp found
    refine ⟨i, j, activity, m, m', there, changed, fun k above m there => whole k m there (done k above ?_), same, call,
      waits, placed⟩
    exact (List.getElem?_eq_some_iff.mp there).1

theorem call_pushed (state : ChatState) (blank : state.streaming = "") (name : String) (input : Option Json) :
    ∃ id, (applyEvent stringify state (.tool_call name input)).messages = state.messages ++
      [{ id := id, kind := .activity, text := "", activity := some ⟨name, input, none, false⟩ }] := by
  have flushed : (flushStreaming state true).messages = state.messages := by
    simp [flushStreaming, blank, show trim "" = "" from rfl]
  simp only [applyEvent, push, flushed]
  exact ⟨_, rfl⟩

theorem placed_tools (tools : Tools state) (placed : Placed state next id result i j activity m m') : Tools next := by
  obtain ⟨old, kind, mine, open_, rfl⟩ := answered_filled placed.answered
  obtain ⟨inside, here⟩ := List.getElem?_eq_some_iff.mp placed.message
  obtain ⟨within, there⟩ := List.getElem?_eq_some_iff.mp placed.call
  refine ⟨?_, ?_, ?_, ?_, ?_⟩
  · rw [placed.chat]
    exact tools.blank
  · rw [placed.chat]
    intro other member
    rcases List.mem_or_eq_of_mem_set member with known | rfl
    · exact tools.shown other known
    · exact ⟨kind, rfl⟩
  · have ids : next.calls.map Prod.fst = state.calls.map Prod.fst := by
      rw [placed.calls, List.map_set]
      refine List.ext_getElem (by simp) fun k first second => ?_
      rw [List.getElem_set]
      split
      · next same =>
        subst same
        simp [there]
      · rfl
    exact ids ▸ tools.unique
  · rw [placed.chat, placed.calls, List.length_set, List.length_set]
    exact tools.length
  · have count := tools.undropped
    simp only [Undropped] at count ⊢
    rw [placed.chat, placed.calls, List.countP_set inside, List.countP_set within, here, there, count]
    simp [complete, mine, open_, placed.waits, filled]

theorem deliver_tools (tools : Tools state) (delivered : deliver stringify state block = some next) : Tools next := by
  cases block with
  | other =>
    cases delivered
    exact tools
  | tool_use id name input =>
    obtain ⟨fresh, same⟩ := Option.ite_none_right_eq_some.mp delivered
    cases same
    obtain ⟨number, messages⟩ := @call_pushed stringify state.chat tools.blank (name.getD "") input
    refine ⟨rfl, fun m member => ?_, ?_, ?_, ?_⟩
    · replace member := messages ▸ member
      rcases List.mem_append.mp member with known | last
      · exact tools.shown m known
      · rw [List.mem_singleton.mp last]
        exact ⟨rfl, rfl⟩
    · rw [List.map_append]
      refine List.pairwise_append.mpr ⟨tools.unique, List.pairwise_singleton _ _, fun old known new last => ?_⟩
      obtain ⟨call, member, rfl⟩ := List.mem_map.mp known
      by_cases absent : call.1 = none
      · exact .inl absent
      · refine .inr fun same => ?_
        obtain ⟨taken, mine⟩ := Option.ne_none_iff_exists'.mp absent
        have named : id = some taken := (List.mem_singleton.mp last).symm.trans (same.symm.trans mine)
        rw [named] at fresh
        exact of_decide_eq_true (List.all_eq_true.mp fresh call member) mine
    · refine (congrArg List.length messages).trans ?_
      simp [tools.length]
    · refine (congrArg (List.countP complete) messages).trans ?_
      have count := tools.undropped
      simp only [Undropped] at count
      simp [count, complete]
  | tool_result toolUseId content isError =>
    cases toolUseId with
    | none => simp [deliver] at delivered
    | some id =>
      obtain ⟨i, j, activity, m, m', placed⟩ := result_placed tools delivered
      exact placed_tools tools placed

/-- In place of the messages one may look at the calls. -/
theorem own_at (own : Own state) (k : Nat) :
    state.chat.messages[k]?.map ChatMessage.activity = state.calls[k]?.map fun call => some call.2 := by
  rw [← List.getElem?_map, ← List.getElem?_map, own]

theorem placed_own_iff (tools : Tools state) (own : Own state)
    (placed : Placed state next id result i j activity m m') :
    Own next ↔ Latest state (.tool_result (some id) content isError) := by
  obtain ⟨old, kind, mine, open_, rfl⟩ := answered_filled placed.answered
  have changed := own_at own i
  rw [placed.message, Option.map_some, mine] at changed
  obtain ⟨call, there, same⟩ := Option.map_eq_some_iff.mp changed.symm
  cases same
  have answers : ∀ k, i < k → ∀ later, state.calls[k]? = some later → later.2.hasResult = true := by
    intro k above later after
    have also := own_at own k
    rw [after] at also
    obtain ⟨m, here, shown⟩ := Option.map_eq_some_iff.mp also
    simpa [complete, shown] using placed.latest k above m here
  have owned : Own next ↔ i = j := by
    unfold Own at own ⊢
    rw [placed.chat, placed.calls, List.map_set, List.map_set, own]
    constructor
    · intro equal
      by_contra different
      have there := congrArg (·[j]?) equal
      have within : j < (state.calls.map fun call => some call.2).length := by
        simpa using (List.getElem?_eq_some_iff.mp placed.call).1
      rw [List.getElem?_set_ne different, List.getElem?_map, placed.call, List.getElem?_set_self within] at there
      have same : activity = filled result activity := Option.some.inj (Option.some.inj there)
      exact absurd (congrArg ToolActivity.hasResult same) (by simp [placed.waits, filled])
    · rintro rfl
      cases there.symm.trans placed.call
      rfl
  refine owned.trans ⟨?_, fun latest => ?_⟩
  · rintro rfl first second mineCall later here own_ below after
    cases calls_apart tools here placed.call own_ rfl
    exact answers second below later after
  · rcases Nat.lt_trichotomy i j with before | equal | behind
    · exact absurd (answers j before _ placed.call) (by simp [placed.waits])
    · exact equal
    · exact absurd (latest j i _ call placed.call rfl behind there) (by simp [open_])

theorem deliver_own_iff (tools : Tools state) (own : Own state) (delivered : deliver stringify state block = some next) :
    Own next ↔ Latest state block := by
  cases block with
  | other =>
    cases delivered
    exact iff_of_true own trivial
  | tool_use id name input =>
    obtain ⟨_, same⟩ := Option.ite_none_right_eq_some.mp delivered
    cases same
    obtain ⟨number, messages⟩ := @call_pushed stringify state.chat tools.blank (name.getD "") input
    refine iff_of_true ((congrArg (List.map ChatMessage.activity) messages).trans ?_) trivial
    unfold Own at own
    simp [own]
  | tool_result toolUseId content isError =>
    cases toolUseId with
    | none => simp [deliver] at delivered
    | some id =>
      obtain ⟨i, j, activity, m, m', placed⟩ := result_placed tools delivered
      exact placed_own_iff tools own placed

end

theorem tools_start : Tools ⟨initialChatState, []⟩ := ⟨rfl, nofun, .nil, rfl, rfl⟩

/-- No result is dropped; and at every moment each message has the result of its own call exactly if every result is that
    of the latest call still open. -/
theorem results_own_iff (stringify : Json → String) (blocks : List Block) (state : Shown)
    (ran : run (deliver stringify) ⟨initialChatState, []⟩ blocks = some state) :
    Undropped state ∧
      (Along (deliver stringify) (fun _ next => Own next) ⟨initialChatState, []⟩ blocks ↔
        Guarded (deliver stringify) Latest ⟨initialChatState, []⟩ blocks) := by
  have kept : ∀ state block next, Tools state → deliver stringify state block = some next → Tools next :=
    fun _ _ _ tools delivered => deliver_tools tools delivered
  refine ⟨(run_invariant Tools kept ran tools_start).undropped, ?_⟩
  exact along_good_iff Tools Own kept (fun _ _ _ tools own delivered => deliver_own_iff tools own delivered) ran
    tools_start rfl

def parallel (answer : String) : List Block :=
  [.tool_use (some "a") (some "Bash") none, .tool_use (some "b") (some "Read") none,
    .tool_result (some answer) (some (.string "listing")) false]

theorem last_own : ∃ state, Undropped state ∧
    (Along (deliver fun _ => "") (fun _ next => Own next) ⟨initialChatState, []⟩ (parallel "b") ↔
      Guarded (deliver fun _ => "") Latest ⟨initialChatState, []⟩ (parallel "b")) :=
  ⟨_, results_own_iff (fun _ => "") (parallel "b") _ rfl⟩

theorem first_mixed : ¬ Along (deliver fun _ => "") (fun _ next => Own next) ⟨initialChatState, []⟩ (parallel "a") := by
  intro along
  have own := ((along.2 _ rfl).2 _ rfl).1 _ rfl
  exact absurd (congrArg (List.map (Option.map ToolActivity.hasResult)) own) (by decide)

end Calls

end PieRelay.ChatReducer
