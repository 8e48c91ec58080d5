import PieRelay.DriverLease
import PieRelay.RelayFrames

/-!
`routeFromParticipant` of server/internal/relay/server.go: what one message of a
participant makes the relay do to the registry and send to whom. `clock` answers the
calls of `time.Now` in their order. A delivery records how its receiver was found:
the room's host daemon, or the socket of a participant. `sub` is the verified user
the source calls `from`.
-/
namespace PieRelay.ParticipantRouting
open JsonScanner JsonStrings JsonObjects RoomRegistry RelayFrames
variable {Sender : Type}

def driverLeaseTTL : Duration := 20 * 1000000000

inductive Receiver (Sender : Type) where
  | host (h : Sender)
  | participant (p : Sender)
  deriving DecidableEq

structure Delivery (Sender : Type) where
  receiver : Receiver Sender
  frame : Bytes
  deriving DecidableEq

def toParticipants (participants : List Sender) (frame : Bytes) : List (Delivery Sender) :=
  participants.map fun p => ⟨.participant p, frame⟩

def toHost (reg : Registry Sender) (room : String) (frame : Bytes) : List (Delivery Sender) :=
  match hostFor reg room with
  | some h => [⟨.host h, frame⟩]
  | none => []

def notifyDriverState (reg : Registry Sender) (room : String) (lease : DriverLease) :
    List (Delivery Sender) :=
  toParticipants (participantsFor reg room) (driverStateMsg lease)

def requestedDriver (injected : Bytes) : String :=
  let target := peekStringField injected "target"
  if target = "" then peekStringField injected "driver" else target

variable [DecidableEq Sender]

def toOthers (reg : Registry Sender) (room : String) (self : Sender) (frame : Bytes) :
    List (Delivery Sender) :=
  toParticipants ((participantsFor reg room).filter fun p => p ≠ self) frame

section Route
variable (reg : Registry Sender) (clock : Nat → Time) (room sub role access : String) (self : Sender)

def routeInjected (mt : String) (injected : Bytes) : Registry Sender × List (Delivery Sender) :=
  if mt = "room_chat" then (reg, toOthers reg room self injected)
  else if mt = "driver_request" then
    if access ≠ accessControl ∧ role ≠ roleHost then (reg, [])
    else
      let (reg, lease, acquired) := acquireDriverIfFree reg room sub (clock 0) driverLeaseTTL
      if acquired then
        (reg, toHost reg room (setDriverMsg lease.userID) ++ notifyDriverState reg room lease)
      else (reg, toParticipants (hostSendersFor reg room) injected)
  else if mt = "set_driver" then
    if role ≠ roleHost then (reg, [])
    else
      let target := requestedDriver injected
      let (reg, lease, assigned) := setDriver reg room target (clock 0) driverLeaseTTL
      if assigned then
        let command := (injectFrom (setDriverMsg target) sub).getD []
        (reg, toHost reg room command ++ notifyDriverState reg room lease)
      else (reg, [⟨.participant self, driverErrorMsg⟩])
  else if mt = "permission_response" ∨ mt = "abort" then
    if role ≠ roleHost then (reg, []) else (reg, toHost reg room injected)
  else
    let answer := match hostFor reg room with
      | some h => ⟨.host h, injected⟩
      | none => ⟨.participant self, agentUnavailableMsg⟩
    let echo := if mt = "chat" then toOthers reg room self (peerChatMsg sub injected) else []
    (reg, answer :: echo)

def routeParsed (mt : String) (data : Bytes) : Registry Sender × List (Delivery Sender) :=
  match injectFrom data sub with
  | none => (reg, [])
  | some injected =>
    let injected := if role ≠ roleHost then sanitizeGuest injected else injected
    routeInjected reg clock room sub role access self mt injected

def routeFromParticipant (data : Bytes) : Registry Sender × List (Delivery Sender) :=
  let mt := peekMessageType data
  if access = accessView ∧ mt ∈ participantInputTypes then (reg, [])
  else if mt = "pty_scroll" ∧ validPtyScrollMessage data = false then (reg, [])
  else if mt = "pty_input" ∨ mt = "pty_resize" then
    let (reg, lease, hasDriver) := driver reg room (clock 0)
    if hasDriver = false ∨ lease.userID ≠ sub then
      (reg, if hasDriver then [] else notifyDriverState reg room lease)
    else routeParsed reg clock room sub role access self mt data
  else if mt = "driver_heartbeat" then
    if access = accessControl ∨ role = roleHost then
      let (reg, _, renewed) := renewDriver reg room sub (clock 0) driverLeaseTTL
      if renewed then (reg, [])
      else
        let (reg, lease, _) := driver reg room (clock 1)
        (reg, notifyDriverState reg room lease)
    else (reg, [])
  else routeParsed reg clock room sub role access self mt data

end Route

def HoldsSeat (reg : Registry Sender) (room sub : String) (now : Time) : Prop :=
  ∃ lease, reg.drivers room = some lease ∧ lease.userID = sub ∧ now < lease.expiresAt

def Authorized (reg : Registry Sender) (now : Time) (room sub role access kind : String) : Prop :=
  (access = accessView → kind ∉ participantInputTypes) ∧
    (kind = "permission_response" ∨ kind = "abort" ∨ kind = "set_driver" → role = roleHost) ∧
    (kind = "pty_input" ∨ kind = "pty_resize" → HoldsSeat reg room sub now)

variable {frame : Bytes} {h : Sender}

omit [DecidableEq Sender] in
@[simp] theorem participants_hostless (participants : List Sender) (frame read : Bytes) (h : Sender) :
    ¬ ⟨.host h, read⟩ ∈ toParticipants participants frame := by
  simp [toParticipants]

omit [DecidableEq Sender] in
@[simp] theorem notify_hostless (reg : Registry Sender) (room : String) (lease : DriverLease)
    (read : Bytes) (h : Sender) : ¬ ⟨.host h, read⟩ ∈ notifyDriverState reg room lease :=
  participants_hostless _ _ read h

@[simp] theorem others_hostless (reg : Registry Sender) (room : String) (self h : Sender)
    (frame read : Bytes) : ¬ ⟨.host h, read⟩ ∈ toOthers reg room self frame :=
  participants_hostless _ _ read h

omit [DecidableEq Sender] in
theorem host_frame {reg : Registry Sender} {room : String} {read : Bytes}
    (sent : ⟨.host h, read⟩ ∈ toHost reg room frame) : read = frame := by
  unfold toHost at sent
  split at sent
  · cases List.mem_singleton.mp sent
    rfl
  · contradiction

section Route
variable {reg : Registry Sender} {clock : Nat → Time} {room sub role access : String} {self : Sender}

/-- The three ways a frame gets to the host behind the rewriting. -/
theorem injected_host {mt : String} {injected : Bytes} (sent : ⟨.host h, frame⟩ ∈
      (routeInjected reg clock room sub role access self mt injected).2) :
    (mt = "driver_request" ∧ (access = accessControl ∨ role = roleHost) ∧
        (acquireDriverIfFree reg room sub (clock 0) driverLeaseTTL).2.2 ∧ frame = setDriverMsg sub) ∨
      (mt = "set_driver" ∧ role = roleHost ∧ ∃ target, frame = (injectFrom (setDriverMsg target) sub).getD []) ∨
      (frame = injected ∧ mt ∉ ["room_chat", "driver_request", "set_driver"] ∧
        (mt = "permission_response" ∨ mt = "abort" ∨ mt = "set_driver" → role = roleHost)) := by
  unfold routeInjected at sent
  split at sent
  · simp at sent
  rename_i unsaid
  split at sent
  · rename_i requested
    split at sent
    · contradiction
    rename_i denied
    dsimp only at sent
    split at sent
    · rename_i acquired
      have read := host_frame ((List.mem_append.mp sent).resolve_right (notify_hostless _ _ _ _ _))
      have user := (DriverLease.acquire_exact reg room sub (clock 0) driverLeaseTTL acquired).2.1
      rw [user] at read
      refine Or.inl ⟨requested, ?_, acquired, read⟩
      by_cases control : access = accessControl
      · exact Or.inl control
      · exact Or.inr (Classical.not_not.mp fun guest => denied ⟨control, guest⟩)
    · simp at sent
  split at sent
  · rename_i assigned
    split at sent
    · contradiction
    rename_i operator
    dsimp only at sent
    split at sent
    · have read := host_frame ((List.mem_append.mp sent).resolve_right (notify_hostless _ _ _ _ _))
      exact Or.inr (Or.inl ⟨assigned, Classical.not_not.mp operator, _, read⟩)
    · simp at sent
  rename_i unrequested unassigned
  have passed : mt ∉ ["room_chat", "driver_request", "set_driver"] := by
    simp [unsaid, unrequested, unassigned]
  split at sent
  · split at sent
    · contradiction
    · rename_i operator
      exact Or.inr (Or.inr ⟨host_frame sent, passed, fun _ => Classical.not_not.mp operator⟩)
  · rename_i unprivileged
    have privileged : mt = "permission_response" ∨ mt = "abort" ∨ mt = "set_driver" → role = roleHost := by
      rintro (same | same | same)
      · exact absurd (Or.inl same) unprivileged
      · exact absurd (Or.inr same) unprivileged
      · exact absurd same unassigned
    refine Or.inr (Or.inr ⟨?_, passed, privileged⟩)
    rcases List.mem_cons.mp sent with answer | echoed
    · split at answer <;> cases answer
      rfl
    · split at echoed <;> simp at echoed

/-- A message that is routed on at all has passed the view gate and the driver gate. -/
theorem routed_host {data : Bytes} (sent : ⟨.host h, frame⟩ ∈
      (routeFromParticipant reg clock room sub role access self data).2) :
    (access = accessView → peekMessageType data ∉ participantInputTypes) ∧
      (peekMessageType data = "pty_input" ∨ peekMessageType data = "pty_resize" →
        HoldsSeat reg room sub (clock 0)) ∧ ⟨.host h, frame⟩ ∈
        (routeParsed reg clock room sub role access self (peekMessageType data) data).2 := by
  unfold routeFromParticipant at sent
  dsimp only at sent
  split at sent
  · contradiction
  rename_i passed
  have viewed : access = accessView → peekMessageType data ∉ participantInputTypes :=
    fun view input => passed ⟨view, input⟩
  split at sent
  · contradiction
  split at sent
  · split at sent
    · split at sent <;> simp at sent
    · rename_i held
      obtain ⟨found, same⟩ := not_or.mp held
      obtain ⟨lease, stored, live, current⟩ := current_found reg room (clock 0) (by simpa [driver] using found)
      rw [driver, current] at sent same
      exact ⟨viewed, fun _ => ⟨lease, stored, Classical.not_not.mp same, live⟩, sent⟩
  rename_i unpressed
  split at sent
  · split at sent
    · split at sent
      · contradiction
      · simp at sent
    · contradiction
  · exact ⟨viewed, fun pressed => absurd pressed unpressed, sent⟩

theorem parsed_host {mt : String} {data : Bytes}
    (sent : ⟨.host h, frame⟩ ∈ (routeParsed reg clock room sub role access self mt data).2) :
    ∃ fields injected, unmarshalObject data = some fields ∧
      (∀ name, "from" ≠ name → name ∉ guestUnsafeFields → frameField injected name = frameField data name) ∧
      ⟨.host h, frame⟩ ∈ (routeInjected reg clock room sub role access self mt injected).2 := by
  unfold routeParsed at sent
  split at sent
  · contradiction
  · rename_i injected rewritten
    obtain ⟨fields, read, -⟩ := Option.map_eq_some_iff.mp rewritten
    refine ⟨fields, _, read, fun name changed unsafe_ => ?_, sent⟩
    have kept := inject_field rewritten changed
    split
    · rw [sanitize_field injected unsafe_, kept]
    · exact kept

/-- A host frame that no host asked for: the relay's own announcement that the sender has
    just taken the free seat, which only a sender with control can make happen. -/
structure SeatTaken (reg : Registry Sender) (now : Time) (room sub role access : String)
    (data frame : Bytes) : Prop where
  requested : peekMessageType data = "driver_request"
  control : access = accessControl ∨ role = roleHost
  unviewed : access ≠ accessView
  acquired : (acquireDriverIfFree reg room sub now driverLeaseTTL).2.2
  announced : frame = setDriverMsg sub

/-- The relay's authorization of participants, for messages that carry one type. -/
theorem participant_authorization {data frame : Bytes} {h : Sender} (single : OneType data) (sent : ⟨.host h, frame⟩ ∈
      (routeFromParticipant reg clock room sub role access self data).2) :
    Authorized reg (clock 0) room sub role access (frameField frame "type") ∨
      SeatTaken reg (clock 0) room sub role access data frame := by
  obtain ⟨viewed, seated, parsed⟩ := routed_host sent
  obtain ⟨fields, injected, read, same, routed⟩ := parsed_host parsed
  have kept := same "type" (by decide) (by decide)
  rw [← peek_one_type read single] at kept
  have unviewed (input : peekMessageType data ∈ participantInputTypes) : access ≠ accessView :=
    fun view => viewed view input
  rcases injected_host routed with
    ⟨requested, control, acquired, rfl⟩ | ⟨assigned, operator, target, rfl⟩ | ⟨rfl, _, privileged⟩
  · exact Or.inr ⟨requested, control, unviewed (by rw [requested]; decide), acquired, rfl⟩
  · obtain ⟨command, rewritten, kind⟩ := set_driver_injected target sub
    have seeing := unviewed (by rw [assigned]; decide)
    rw [rewritten, Option.getD_some, kind]
    refine Or.inl ⟨fun view => absurd view seeing, fun _ => operator, ?_⟩
    rintro (same | same) <;> simp at same
  · rw [kept]
    exact Or.inl ⟨viewed, privileged, seated⟩

end Route

def guestRoom (seated : Option DriverLease) : Registry Nat where
  hosts := fun room => if room = "room" then some 1 else none
  hostEpochs := fun _ => 1
  participants := fun room =>
    if room = "room" then some [(2, ⟨"ann", roleParticipant, accessControl, "c2", 1⟩)] else none
  drivers := fun room => if room = "room" then seated else none
  driverSeq := fun _ => 1

def keystroke : Bytes := writeObject [("type", quoteString "pty_input"), ("data", quoteString "ls")]

def seatRequest : Bytes := writeObject [("type", quoteString "driver_request")]

theorem participant_authorization_keystroke :
    ∃ frame, ⟨.host 1, frame⟩ ∈ (routeFromParticipant (guestRoom (some ⟨"ann", 1, 100⟩)) (fun _ => 50)
        "room" "ann" roleParticipant accessControl 2 keystroke).2 ∧
      frameField frame "type" = "pty_input" ∧
      (Authorized (guestRoom (some ⟨"ann", 1, 100⟩)) 50 "room" "ann" roleParticipant accessControl
          (frameField frame "type") ∨
        SeatTaken (guestRoom (some ⟨"ann", 1, 100⟩)) 50 "room" "ann" roleParticipant accessControl
          keystroke frame) := by
  have forwarded : ∃ frame, (routeFromParticipant (guestRoom (some ⟨"ann", 1, 100⟩)) (fun _ => 50)
      "room" "ann" roleParticipant accessControl 2 keystroke).2 = [⟨.host 1, frame⟩] ∧
      frameField frame "type" = "pty_input" := ⟨_, rfl, rfl⟩
  obtain ⟨frame, routed, kind⟩ := forwarded
  have sent := List.mem_singleton.mpr (Eq.refl (Delivery.mk (.host 1) frame))
  rw [← routed] at sent
  have single : OneType keystroke := by
    intro fields read
    have known : unmarshalObject keystroke = some [("type", quoteString "pty_input"), ("data", quoteString "ls")] := rfl
    cases known.symm.trans read
    rfl
  exact ⟨frame, sent, kind, participant_authorization single sent⟩

/-- A guest with control asks for the free seat, and the host is sent a set_driver. -/
theorem participant_authorization_seated :
    ¬ ∀ (reg : Registry Nat) (clock : Nat → Time) (room sub role access : String) (self h : Nat) (data frame : Bytes),
      ⟨.host h, frame⟩ ∈ (routeFromParticipant reg clock room sub role access self data).2 →
        Authorized reg (clock 0) room sub role access (frameField frame "type") := by
  intro authorized
  have sent : ⟨.host 1, setDriverMsg "ann"⟩ ∈ (routeFromParticipant (guestRoom none) (fun _ => 50)
      "room" "ann" roleParticipant accessControl 2 seatRequest).2 := List.mem_cons_self
  have privileged := (authorized _ _ _ _ _ _ _ _ _ _ sent).2.1
  have operator := privileged (Or.inr (Or.inr (set_driver_type "ann")))
  contradiction

end PieRelay.ParticipantRouting
