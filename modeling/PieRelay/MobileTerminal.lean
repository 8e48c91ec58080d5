import Mathlib.Data.List.Basic
import PieRelay.Executions

/-!
The terminal of the mobile adapter, terminal-session.ts and rpc-handler.ts of pie-mobile/adapter/host-gateway/src. A
string is a list of UTF-16 units; the PTY gives whole characters. Of the requests there is what concerns the output,
without the size of the screen.
-/
namespace PieRelay.MobileTerminal
open Executions

def maxScrollbackBytes : Nat := 256 * 1024

abbrev Units := List Nat

def utf16 (c : Char) : Units :=
  if c.toNat < 0x10000 then [c.toNat]
  else [0xd800 + (c.toNat - 0x10000) / 0x400, 0xdc00 + (c.toNat - 0x10000) % 0x400]

def units (text : List Char) : Units := text.flatMap utf16

def unitBytes (unit : Nat) : Nat := if unit < 0x80 then 1 else if unit < 0x800 then 2 else 3

def utf8Bytes : List Char → Nat
  | [] => 0
  | c :: rest => c.utf8Size + utf8Bytes rest

/-- `Buffer.byteLength`. A surrogate on its own is written as the replacement character. -/
def byteLength : Units → Nat
  | first :: second :: rest =>
    if 0xd800 ≤ first ∧ first < 0xdc00 ∧ 0xdc00 ≤ second ∧ second < 0xe000 then 4 + byteLength rest
    else unitBytes first + byteLength (second :: rest)
  | [unit] => unitBytes unit
  | [] => 0

def trimmed (scrollback : Units) : Units :=
  if maxScrollbackBytes < byteLength scrollback ∧ 0 < scrollback.length then
    trimmed (scrollback.drop (max 1 (scrollback.length / 8)))
  else scrollback
termination_by scrollback.length
decreasing_by
  rw [List.length_drop]
  omega

def appendScrollback (scrollback : Units) (chunk : List Char) : Units := trimmed (scrollback ++ units chunk)

@[ext]
structure Key where
  connectionId : String
  requestId : String
  deriving DecidableEq

inductive Frame where
  | scrollback (lines : Units) (truncated : Bool) (seq : Nat)
  | data (chunk : List Char) (seq : Nat)
  | read (tail : Units) (truncated : Bool)
  | unsubscribed
  | cleared

/-- A key stands for the reply function of its request, too. -/
structure Handler where
  scrollback : Units
  subscriptions : List Key
  terminalSeq : Nat
  sent : List (Key × Frame)

def initial : Handler := ⟨[], [], 1, []⟩

inductive Action where
  | data (chunk : List Char)
  | subscribe (key : Key)
  | unsubscribe (key : Key) (subscriptionId : Option String)
  | read (key : Key)
  | clearBuffer (key : Key)
  | closeConnection (connectionId : String)

def send (handler : Handler) (key : Key) (frame : Frame) : Handler :=
  { handler with sent := handler.sent ++ [(key, frame)] }

def publishTerminalData (chunk : List Char) : List Key → Nat → List (Key × Frame)
  | [], _ => []
  | key :: rest, seq => (key, .data chunk seq) :: publishTerminalData chunk rest (seq + 1)

def closeConnection (handler : Handler) (connectionId : String) : Handler :=
  { handler with subscriptions := handler.subscriptions.filter fun key => key.connectionId ≠ connectionId }

def handle (handler : Handler) : Action → Handler
  | .data chunk =>
    { handler with
      scrollback := appendScrollback handler.scrollback chunk
      terminalSeq := handler.terminalSeq + handler.subscriptions.length
      sent := handler.sent ++ publishTerminalData chunk handler.subscriptions handler.terminalSeq }
  | .subscribe key =>
    let subscriptions := if key ∈ handler.subscriptions then handler.subscriptions else handler.subscriptions ++ [key]
    send { handler with subscriptions := subscriptions, terminalSeq := handler.terminalSeq + 1 } key
      (.scrollback handler.scrollback false handler.terminalSeq)
  | .unsubscribe key (some subscriptionId) =>
    send { handler with subscriptions := handler.subscriptions.filter (· ≠ ⟨key.connectionId, subscriptionId⟩) } key
      .unsubscribed
  | .unsubscribe key none => send (closeConnection handler key.connectionId) key .unsubscribed
  | .read key => send handler key (.read handler.scrollback false)
  | .clearBuffer key => send { handler with scrollback := [] } key .cleared
  | .closeConnection connectionId => closeConnection handler connectionId

def goesOn (key : Key) (live : Bool) : Action → Bool
  | .subscribe other => live || key = other
  | .unsubscribe sender subscriptionId =>
    live && !(key.connectionId = sender.connectionId && subscriptionId.all fun id => key.requestId = id)
  | .closeConnection connectionId => live && key.connectionId ≠ connectionId
  | _ => live

def due (key : Key) (live : Bool) : Action → List (Option (List Char))
  | .data chunk => if live then [some chunk] else []
  | .subscribe other => if other = key then [none] else []
  | _ => []

/-- What a subscription is to receive: a scrollback, and each chunk from then on until it ends. -/
def stream (key : Key) : Bool → List Action → List (Option (List Char))
  | _, [] => []
  | live, action :: rest => due key live action ++ stream key (goesOn key live action) rest

def received (key : Key) (sent : List (Key × Frame)) : List (Option (List Char)) :=
  sent.filterMap fun
    | (other, .scrollback _ _ _) => if other = key then some none else none
    | (other, .data chunk _) => if other = key then some (some chunk) else none
    | _ => none

def numbers (sent : List (Key × Frame)) : List Nat :=
  sent.filterMap fun
    | (_, .scrollback _ _ seq) | (_, .data _ seq) => some seq
    | _ => none

def shown : Frame → Option (Units × Bool)
  | .scrollback lines truncated _ => some (lines, truncated)
  | .read tail truncated => some (tail, truncated)
  | _ => none

structure Faithful (output : List Char) (lines : Units) (truncated : Bool) : Prop where
  suffix : lines <:+ units output
  bounded : byteLength lines ≤ maxScrollbackBytes
  wellFormed : ∃ text, lines = units text
  whole : truncated = false → lines = units output

structure Watched where
  handler : Handler
  output : List Char

def step (state : Watched) (action : Action) : Option Watched :=
  some ⟨handle state.handler action, match action with
    | .data chunk => state.output ++ chunk
    | .clearBuffer _ => []
    | _ => state.output⟩

def Shows (state : Watched) (action : Action) : Prop :=
  ∀ frame ∈ (handle state.handler action).sent.drop state.handler.sent.length, ∀ lines truncated,
    shown frame.2 = some (lines, truncated) → Faithful state.output lines truncated

def Fits (state : Watched) : Action → Prop
  | .subscribe _ | .read _ => utf8Bytes state.output ≤ maxScrollbackBytes
  | _ => True

section Steps
variable {handler : Handler} {state next : Watched} {action : Action} {key : Key} {chunk output : List Char}

theorem byteLength_char (c : Char) (rest : Units) : byteLength (utf16 c ++ rest) = c.utf8Size + byteLength rest := by
  have valid : c.toNat < 0xd800 ∨ 0xdfff < c.toNat ∧ c.toNat < 0x110000 := c.valid
  have size : c.utf8Size =
      if c.toNat < 0x80 then 1 else if c.toNat < 0x800 then 2 else if c.toNat < 0x10000 then 3 else 4 := by
    simp only [Char.utf8Size, UInt32.le_iff_toNat_le, Char.toNat]
    split_ifs <;> simp_all <;> omega
  unfold utf16
  split
  · next small =>
    have alone : byteLength (c.toNat :: rest) = unitBytes c.toNat + byteLength rest := by
      cases rest with
      | nil => rfl
      | cons second rest =>
        rw [byteLength, if_neg]
        omega
    rw [List.singleton_append, alone, unitBytes, size]
    split_ifs <;> omega
  · next large =>
    rw [List.cons_append, List.singleton_append, byteLength, if_pos (by omega), size]
    split_ifs <;> omega

theorem byteLength_units (text : List Char) : byteLength (units text) = utf8Bytes text := by
  induction text with
  | nil => rfl
  | cons c rest ih => exact (byteLength_char c (units rest)).trans (congrArg (c.utf8Size + ·) ih)

theorem utf8Bytes_append (first second : List Char) : utf8Bytes (first ++ second) = utf8Bytes first + utf8Bytes second := by
  induction first with
  | nil => exact (Nat.zero_add _).symm
  | cons c rest ih => rw [List.cons_append, utf8Bytes, utf8Bytes, ih, Nat.add_assoc]

theorem length_le_utf8Bytes (text : List Char) : text.length ≤ utf8Bytes text := by
  induction text with
  | nil => exact Nat.zero_le _
  | cons c rest ih =>
    have positive := c.utf8Size_pos
    rw [List.length_cons, utf8Bytes]
    omega

theorem trimmed_whole {scrollback : Units} (fits : byteLength scrollback ≤ maxScrollbackBytes) :
    trimmed scrollback = scrollback := by
  rw [trimmed, if_neg fun both => absurd both.1 (Nat.not_lt.mpr fits)]

theorem publish_received (unique : handler.subscriptions.Nodup) (seq : Nat) :
    received key (publishTerminalData chunk handler.subscriptions seq) =
      if key ∈ handler.subscriptions then [some chunk] else [] := by
  generalize handler.subscriptions = keys at unique ⊢
  induction keys generalizing seq with
  | nil => rfl
  | cons first rest ih =>
    obtain ⟨apart, unique⟩ := List.nodup_cons.mp unique
    have onward := ih (seq + 1) unique
    simp only [received] at onward
    simp only [publishTerminalData, received, List.filterMap_cons, onward]
    by_cases same : first = key
    · subst same
      simp [apart]
    · simp [same, Ne.symm same]

theorem publish_numbers (keys : List Key) (seq : Nat) :
    numbers (publishTerminalData chunk keys seq) = List.range' seq keys.length := by
  induction keys generalizing seq with
  | nil => rfl
  | cons first rest ih => exact congrArg (seq :: ·) (ih (seq + 1))

theorem unique_kept (unique : handler.subscriptions.Nodup) (action : Action) :
    (handle handler action).subscriptions.Nodup := by
  cases action with
  | subscribe key =>
    simp only [handle, send]
    split
    · exact unique
    · next fresh => exact (List.nodup_cons.mpr ⟨fresh, unique⟩).perm (List.perm_append_singleton _ _).symm
  | unsubscribe key subscriptionId => cases subscriptionId <;> exact unique.filter _
  | closeConnection => exact unique.filter _
  | data | read | clearBuffer => exact unique

theorem received_step (unique : handler.subscriptions.Nodup) (key : Key) (action : Action) :
    received key (handle handler action).sent =
      received key handler.sent ++ due key (decide (key ∈ handler.subscriptions)) action := by
  have sent : ∀ frames, received key (handler.sent ++ frames) = received key handler.sent ++ received key frames :=
    fun _ => List.filterMap_append
  cases action with
  | data chunk =>
    refine (sent _).trans (congrArg _ ((publish_received unique _).trans ?_))
    simp [due]
  | subscribe other =>
    refine (sent _).trans (congrArg _ ?_)
    by_cases same : other = key <;> simp [received, due, same]
  | unsubscribe other subscriptionId => cases subscriptionId <;> exact sent _
  | closeConnection => exact (List.append_nil _).symm
  | read | clearBuffer => exact sent _

theorem live_step (handler : Handler) (key : Key) (action : Action) :
    decide (key ∈ (handle handler action).subscriptions) = goesOn key (decide (key ∈ handler.subscriptions)) action := by
  cases action with
  | subscribe other =>
    simp only [handle, send, goesOn]
    split
    · next known =>
      by_cases same : key = other
      · simp [same, known]
      · simp [same]
    · simp [Bool.decide_or]
  | unsubscribe other subscriptionId =>
    cases subscriptionId <;> simp [handle, send, closeConnection, goesOn, Key.ext_iff, Bool.decide_and]
  | closeConnection => simp [handle, closeConnection, goesOn, Bool.decide_and]
  | data | read | clearBuffer => rfl

theorem received_stream (unique : handler.subscriptions.Nodup) (key : Key) (actions : List Action) :
    received key (actions.foldl handle handler).sent =
      received key handler.sent ++ stream key (decide (key ∈ handler.subscriptions)) actions := by
  induction actions generalizing handler with
  | nil => exact (List.append_nil _).symm
  | cons action rest ih =>
    rw [List.foldl_cons, ih (unique_kept unique action), received_step unique, List.append_assoc, live_step, stream]

def Numbered (handler : Handler) : Prop :=
  (numbers handler.sent).Pairwise (· < ·) ∧ ∀ seq ∈ numbers handler.sent, seq < handler.terminalSeq

theorem numbered_step (numbered : Numbered handler) (action : Action) : Numbered (handle handler action) := by
  have further : ∀ (frames : List (Key × Frame)) (count : Nat),
      numbers frames = List.range' handler.terminalSeq count →
      (numbers (handler.sent ++ frames)).Pairwise (· < ·) ∧
        ∀ seq ∈ numbers (handler.sent ++ frames), seq < handler.terminalSeq + count := by
    intro frames count new
    have both : numbers (handler.sent ++ frames) = numbers handler.sent ++ List.range' handler.terminalSeq count :=
      List.filterMap_append.trans (congrArg _ new)
    rw [both]
    refine ⟨List.pairwise_append.mpr ⟨numbered.1, List.pairwise_lt_range', fun old known seq later => ?_⟩, ?_⟩
    · exact Nat.lt_of_lt_of_le (numbered.2 old known) (List.mem_range'_1.mp later).1
    · intro seq member
      rcases List.mem_append.mp member with known | later
      · exact Nat.lt_add_right count (numbered.2 seq known)
      · exact (List.mem_range'_1.mp later).2
  cases action with
  | data chunk => exact further _ _ (publish_numbers _ _)
  | subscribe other => exact further _ 1 rfl
  | unsubscribe other subscriptionId => cases subscriptionId <;> exact further _ 0 rfl
  | closeConnection => exact numbered
  | read | clearBuffer => exact further _ 0 rfl

theorem run_numbered (numbered : Numbered handler) (actions : List Action) :
    Numbered (actions.foldl handle handler) := by
  induction actions generalizing handler with
  | nil => exact numbered
  | cons action rest ih => exact ih (numbered_step numbered action)

def Kept (state : Watched) : Prop :=
  utf8Bytes state.output ≤ maxScrollbackBytes → state.handler.scrollback = units state.output

theorem kept_step (kept : Kept state) (stepped : step state action = some next) : Kept next := by
  cases stepped
  cases action with
  | data chunk =>
    intro fits
    have before : utf8Bytes state.output ≤ maxScrollbackBytes := by
      simp only [utf8Bytes_append] at fits
      omega
    have whole : state.handler.scrollback ++ units chunk = units (state.output ++ chunk) := by
      rw [kept before, units, units, units, List.flatMap_append]
    simp only [handle, appendScrollback]
    rw [whole, trimmed_whole]
    rw [byteLength_units]
    exact fits
  | unsubscribe other subscriptionId => cases subscriptionId <;> exact kept
  | clearBuffer => exact fun _ => rfl
  | subscribe | read | closeConnection => exact kept

theorem faithful_iff (kept : Kept state) :
    Faithful state.output state.handler.scrollback false ↔
      utf8Bytes state.output ≤ maxScrollbackBytes := by
  constructor
  · intro faithful
    rw [← byteLength_units, ← faithful.whole rfl]
    exact faithful.bounded
  · intro fits
    rw [kept fits]
    exact ⟨List.suffix_refl _, by rwa [byteLength_units], ⟨_, rfl⟩, fun _ => rfl⟩

theorem publish_silent (keys : List Key) (seq : Nat) :
    ∀ frame ∈ publishTerminalData chunk keys seq, shown frame.2 = none := by
  induction keys generalizing seq with
  | nil => nofun
  | cons first rest ih =>
    intro frame member
    rcases List.mem_cons.mp member with rfl | later
    · rfl
    · exact ih (seq + 1) frame later

theorem shows_iff (kept : Kept state) : Shows state action ↔ Fits state action := by
  have one : ∀ key frame, shown frame = some (state.handler.scrollback, false) →
      ((∀ sent ∈ (state.handler.sent ++ [(key, frame)]).drop state.handler.sent.length, ∀ lines truncated,
        shown sent.2 = some (lines, truncated) → Faithful state.output lines truncated) ↔
      utf8Bytes state.output ≤ maxScrollbackBytes) := by
    intro key frame scrolls
    rw [List.drop_left, ← faithful_iff kept]
    simp [scrolls]
  have silent : ∀ frames, (∀ frame ∈ frames, shown frame.2 = none) →
      ∀ sent ∈ (state.handler.sent ++ frames).drop state.handler.sent.length, ∀ lines truncated,
        shown sent.2 = some (lines, truncated) → Faithful state.output lines truncated := by
    intro frames none sent member lines truncated scrolls
    rw [List.drop_left] at member
    cases (none sent member).symm.trans scrolls
  cases action with
  | subscribe key => exact one _ _ rfl
  | read key => exact one _ _ rfl
  | data chunk => exact iff_of_true (silent _ (publish_silent _ _)) trivial
  | unsubscribe key subscriptionId =>
    cases subscriptionId <;> exact iff_of_true (silent _ (by simp [shown])) trivial
  | clearBuffer key => exact iff_of_true (silent _ (by simp [shown])) trivial
  | closeConnection connectionId =>
    refine iff_of_true ?_ trivial
    simp [Shows, handle, closeConnection]

end Steps

structure Orderly (actions : List Action) : Prop where
  streams : ∀ key, received key (actions.foldl handle initial).sent = stream key false actions
  rising : (numbers (actions.foldl handle initial).sent).Pairwise (· < ·)
  shows : Guarded step Shows ⟨initial, []⟩ actions

/-- A run is orderly exactly if no scrollback is asked for after more output than fits in it. -/
theorem orderly_iff (actions : List Action) : Orderly actions ↔ Guarded step Fits ⟨initial, []⟩ actions := by
  have kept : Kept ⟨initial, []⟩ := fun _ => rfl
  have same : Guarded step Shows ⟨initial, []⟩ actions ↔ Guarded step Fits ⟨initial, []⟩ actions :=
    guarded_same Kept (fun _ _ _ _ kept stepped => kept_step kept stepped) (fun _ _ kept => shows_iff kept) kept
  refine ⟨fun orderly => same.mp orderly.shows, fun fits => ⟨fun key => ?_, ?_, same.mpr fits⟩⟩
  · exact @received_stream initial List.nodup_nil key actions
  · exact (@run_numbered initial ⟨.nil, fun _ absurd => by cases absurd⟩ actions).1

theorem long_untold (key : Key) (long : maxScrollbackBytes < utf8Bytes chunk) :
    ¬ Guarded step Shows ⟨initial, []⟩ [.data chunk, .subscribe key] := by
  intro shows
  have kept : Kept ⟨initial, []⟩ := fun _ => rfl
  have fits := (shows_iff (kept_step kept rfl)).mp (shows.2 _ rfl).1
  exact absurd fits (Nat.not_le_of_lt long)

/-- One character more than what fits. -/
theorem cut_untold : ¬ Orderly [.data (.replicate (maxScrollbackBytes + 1) 'a'), .subscribe ⟨"phone", "1"⟩] := by
  intro orderly
  refine long_untold _ ?_ orderly.shows
  have length := length_le_utf8Bytes (.replicate (maxScrollbackBytes + 1) 'a')
  rw [List.length_replicate] at length
  exact length

end PieRelay.MobileTerminal
