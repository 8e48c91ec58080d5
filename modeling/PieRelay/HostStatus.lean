import PieRelay.Executions
import PieRelay.RoomRegistry

/-!
Host presence as the participants of a room are told it. `notifyHostStatus` of
server/internal/relay/server.go lists the participants, reads the host and sends,
and a connecting participant is greeted with the presence its registration saw;
the registry lock is free between any two of these. Host connects, host
disconnects (also of a superseded host) and participant connects interleave
freely. Only the host:status frame is recorded: agent:status repeats its payload.
-/
namespace PieRelay.HostStatus
open Function Executions RoomRegistry List

inductive Handler where
  | idle
  | notifying
  | reading (participants : List Nat)
  | telling (up : Bool) (participants : List Nat)
  | greeting (participant : Nat) (up : Bool)

structure World where
  reg : Registry Nat
  handlers : Nat → Handler
  sent : Nat → List Bool
  shut : Nat → Bool

def initial : World where
  reg := newRegistry
  handlers := fun _ => .idle
  sent := fun _ => []
  shut := fun _ => false

inductive Action where
  | registerHost (handler host : Nat)
  | unregisterHost (handler host : Nat)
  | participantsFor (handler : Nat)
  | hostFor (handler : Nat)
  | tellNext (handler : Nat)
  | registerParticipant (handler s : Nat) (p : Participant) (limit : Int) (clock : Time)
  | greet (handler : Nat)
  | unregisterParticipant (s : Nat)
  | shutdown (s : Nat)

def move (w : World) (handler : Nat) (place : Handler) : World :=
  { w with handlers := update w.handlers handler place }

def send (w : World) (s : Nat) (up : Bool) : World :=
  if w.shut s then w else { w with sent := update w.sent s (w.sent s ++ [up]) }

variable (room : String)

def step (w : World) : Action → Option World
  | .registerHost handler host =>
    match w.handlers handler with
    | .idle => some (move { w with reg := (registerHostWithEpoch w.reg room host).1 } handler .notifying)
    | _ => none
  | .unregisterHost handler host =>
    match w.handlers handler with
    | .idle => some (move { w with reg := RoomRegistry.unregisterHost w.reg room host } handler .notifying)
    | _ => none
  | .participantsFor handler =>
    match w.handlers handler with
    | .notifying =>
      let participants := RoomRegistry.participantsFor w.reg room
      some (move w handler (if participants = [] then .idle else .reading participants))
    | _ => none
  | .hostFor handler =>
    match w.handlers handler with
    | .reading participants =>
      some (move w handler (.telling (RoomRegistry.hostFor w.reg room).isSome participants))
    | _ => none
  | .tellNext handler =>
    match w.handlers handler with
    | .telling up (s :: rest) => some (move (send w s up) handler (.telling up rest))
    | .telling _ [] => some (move w handler .idle)
    | _ => none
  | .registerParticipant handler s p limit clock =>
    match w.handlers handler with
    | .idle =>
      let (reg, registration) := tryRegisterParticipant w.reg room s p limit clock
      let w := { w with reg := reg }
      some (if registration.ok then move w handler (.greeting s registration.hostConnected) else w)
    | _ => none
  | .greet handler =>
    match w.handlers handler with
    | .greeting s up => some (move (send w s up) handler .idle)
    | _ => none
  | .unregisterParticipant s =>
    some { w with reg := RoomRegistry.unregisterParticipant w.reg room s }
  | .shutdown s => some { w with shut := update w.shut s true }

def present (w : World) : Bool := (w.reg.hosts room).isSome

def Registered (w : World) (s : Nat) : Prop := s ∈ RoomRegistry.participantsFor w.reg room

instance (w : World) (s : Nat) : Decidable (Registered room w s) :=
  inferInstanceAs (Decidable (s ∈ _))

def Owes (w : World) (handler s : Nat) : Prop :=
  match w.handlers handler with
  | .idle => False
  | .notifying => True
  | .reading participants => s ∈ participants
  | .telling up participants => s ∈ participants ∧ up = present room w
  | .greeting participant up => participant = s ∧ up = present room w

def Handler.frame : Handler → Option (Nat × Bool)
  | .telling up (s :: _) => some (s, up)
  | .greeting s up => some (s, up)
  | _ => none

/-- A status that has meanwhile become false is enqueued only while another handler still
    has to tell that participant the true one. -/
def InOrder (w : World) (action : Action) : Prop :=
  ∀ handler s up, action = .tellNext handler ∨ action = .greet handler →
    (w.handlers handler).frame = some (s, up) → Registered room w s → w.shut s = false →
    up = present room w ∨ ∃ other, other ≠ handler ∧ Owes room w other s

def Quiet (w : World) : Prop :=
  (∀ handler, w.handlers handler = .idle) ∧ ∀ s, Registered room w s → w.shut s = false

def Agrees (w : World) : Prop :=
  ∀ s, Registered room w s → (w.sent s).getLast? = some (present room w)

def Informed (w : World) : Prop :=
  ∀ s, Registered room w s → w.shut s = false →
    (w.sent s).getLast? = some (present room w) ∨ ∃ handler, Owes room w handler s

variable {room}

theorem owes_kept (w next : World) (handler s : Nat) (seen : present room next = present room w)
    (place : next.handlers handler = w.handlers handler) (owes : Owes room w handler s) :
    Owes room next handler s := by
  unfold Owes at owes ⊢
  rw [place, seen]
  exact owes

-- Registry changes that neither add a participant nor move the host.
theorem informed_kept (w next : World) (informed : Informed room w) (seen : present room next = present room w)
    (fewer : ∀ s, Registered room next s → Registered room w s) (sent : next.sent = w.sent)
    (shut : ∀ s, next.shut s = false → w.shut s = false) (handlers : next.handlers = w.handlers) :
    Informed room next := by
  intro s registered working
  rcases informed s (fewer s registered) (shut s working) with heard | ⟨handler, owes⟩
  · exact Or.inl (by rw [sent, seen, heard])
  · exact Or.inr ⟨handler, owes_kept w next handler s seen (by rw [handlers]) owes⟩

section
variable (w : World)
include w

-- A handler that goes on owing exactly what it owed.
theorem informed_moved (handler : Nat) (place : Handler) (informed : Informed room w)
    (onward : ∀ s, Registered room w s → Owes room w handler s →
      Owes room (move w handler place) handler s) : Informed room (move w handler place) := by
  intro s registered working
  rcases informed s registered working with heard | ⟨owner, owes⟩
  · exact Or.inl heard
  · by_cases mine : owner = handler
    · subst mine
      exact Or.inr ⟨owner, onward s registered owes⟩
    · exact Or.inr ⟨owner, owes_kept w _ owner s rfl (by simp [move, mine]) owes⟩

theorem send_handlers (s : Nat) (up : Bool) : (send w s up).handlers = w.handlers := by
  unfold send
  split <;> rfl

theorem send_reg (s : Nat) (up : Bool) : (send w s up).reg = w.reg := by
  unfold send
  split <;> rfl

theorem send_shut (s : Nat) (up : Bool) : (send w s up).shut = w.shut := by
  unfold send
  split <;> rfl

theorem send_other (s other : Nat) (up : Bool) (different : other ≠ s) : (send w s up).sent other = w.sent other := by
  unfold send
  split
  · rfl
  · simp [different]

theorem send_last (s : Nat) (up : Bool) (working : w.shut s = false) : ((send w s up).sent s).getLast? = some up := by
  simp [send, working]

/-- Enqueueing one frame, whichever handler does it: either the frame is true, or the
    handler that makes up for it is another one. -/
theorem frame_informed (handler s : Nat) (up : Bool) (place : Handler) (informed : Informed room w)
    (order : Registered room w s → w.shut s = false →
      up = present room w ∨ ∃ other, other ≠ handler ∧ Owes room w other s)
    (onward : ∀ other, other ≠ s → Owes room w handler other →
      Owes room (move (send w s up) handler place) handler other) :
    Informed room (move (send w s up) handler place) := by
  intro other registered working
  have member : Registered room w other := by simpa [Registered, move, send_reg] using registered
  have lively : w.shut other = false := by simpa [move, send_shut] using working
  have seen : present room (move (send w s up) handler place) = present room w := by
    simp [present, move, send_reg]
  have elsewhere : ∀ owner, owner ≠ handler → (move (send w s up) handler place).handlers owner = w.handlers owner := by
    intro owner different
    simp [move, send_handlers, different]
  by_cases same : other = s
  · subst same
    rcases order member lively with current | ⟨owner, different, owes⟩
    · refine Or.inl ?_
      rw [seen, ← current]
      exact send_last w other up lively
    · exact Or.inr ⟨owner, owes_kept w _ owner other seen (elsewhere owner different) owes⟩
  · rcases informed other member lively with heard | ⟨owner, owes⟩
    · refine Or.inl ?_
      rw [seen, ← heard]
      exact congrArg getLast? (send_other w s other up same)
    · by_cases mine : owner = handler
      · subst mine
        exact Or.inr ⟨owner, onward other same owes⟩
      · exact Or.inr ⟨owner, owes_kept w _ owner other seen (elsewhere owner mine) owes⟩

-- Whoever has just changed the host owes everybody the news.
theorem notifying_informed (handler : Nat) : Informed room (move w handler .notifying) :=
  fun s _ _ => Or.inr ⟨handler, by simp [Owes, move]⟩

end

section
variable (w next : World) (handler : Nat) (informed : Informed room w)
include w next handler informed

theorem list_informed (stepped : step room w (.participantsFor handler) = some next) : Informed room next := by
  simp only [step] at stepped
  split at stepped <;> try contradiction
  cases stepped
  refine informed_moved w handler _ informed ?_
  intro s registered _
  have member : s ∈ RoomRegistry.participantsFor w.reg room := registered
  have nonempty : RoomRegistry.participantsFor w.reg room ≠ [] := ne_nil_of_mem member
  simp [Owes, move, nonempty, member]

theorem read_informed (stepped : step room w (.hostFor handler) = some next) : Informed room next := by
  simp only [step] at stepped
  split at stepped <;> try contradiction
  rename_i here
  cases stepped
  refine informed_moved w handler _ informed ?_
  intro s _ owes
  simp only [Owes, here] at owes
  simp [Owes, move, owes, present, RoomRegistry.hostFor]

theorem tell_informed (order : InOrder room w (.tellNext handler))
    (stepped : step room w (.tellNext handler) = some next) : Informed room next := by
  simp only [step] at stepped
  split at stepped <;> try contradiction
  · rename_i up s rest here
    cases stepped
    refine frame_informed w handler s up _ informed ?_ ?_
    · exact order handler s up (Or.inl rfl) (by simp [here, Handler.frame])
    · intro other different owes
      simp only [Owes, here, mem_cons, different, false_or] at owes
      simpa [Owes, move, present, send_reg] using owes
  · rename_i here
    cases stepped
    refine informed_moved w handler _ informed ?_
    intro s _ owes
    simp [Owes, here] at owes

theorem greet_informed (order : InOrder room w (.greet handler))
    (stepped : step room w (.greet handler) = some next) : Informed room next := by
  simp only [step] at stepped
  split at stepped <;> try contradiction
  rename_i s up here
  cases stepped
  refine frame_informed w handler s up _ informed ?_ ?_
  · exact order handler s up (Or.inr rfl) (by simp [here, Handler.frame])
  · intro other different owes
    simp only [Owes, here] at owes
    exact absurd owes.1 (Ne.symm different)

end

theorem try_register_members (r : Registry Nat) (s other : Nat) (p : Participant) (limit : Int) (clock : Time)
    (member : other ∈ RoomRegistry.participantsFor (tryRegisterParticipant r room s p limit clock).1 room) :
    other ∈ RoomRegistry.participantsFor r room ∨ other = s ∧ (tryRegisterParticipant r room s p limit clock).2.ok := by
  unfold tryRegisterParticipant at member ⊢
  dsimp only at member ⊢
  split at member
  · exact Or.inl (by simpa [RoomRegistry.participantsFor, entries] using member)
  · rename_i admitted
    rw [if_neg admitted]
    simp only [RoomRegistry.participantsFor, entries, update_self, Option.getD_some, map_cons,
      mem_cons, mem_map, mem_filter] at member
    rcases member with same | ⟨entry, ⟨kept, -⟩, named⟩
    · exact Or.inr ⟨same, rfl⟩
    · exact Or.inl (named ▸ mem_map_of_mem kept)

theorem unregister_members (r : Registry Nat) (s other : Nat)
    (member : other ∈ RoomRegistry.participantsFor (RoomRegistry.unregisterParticipant r room s) room) :
    other ∈ RoomRegistry.participantsFor r room := by
  unfold RoomRegistry.unregisterParticipant at member
  split at member
  · exact member
  · rename_i found
    simp only [RoomRegistry.participantsFor, entries, update_self] at member
    simp only [RoomRegistry.participantsFor, entries, found, Option.getD_some]
    split at member
    · simp at member
    · obtain ⟨entry, kept, named⟩ := mem_map.mp member
      exact mem_map.mpr ⟨entry, (mem_filter.mp kept).1, named⟩

theorem join_informed (w next : World) (handler s : Nat) (p : Participant) (limit : Int)
    (clock : Time) (informed : Informed room w)
    (stepped : step room w (.registerParticipant handler s p limit clock) = some next) :
    Informed room next := by
  have hosts := try_register_hosts w.reg room s p limit clock
  have members := fun other => @try_register_members room w.reg s other p limit clock
  simp only [step] at stepped
  split at stepped <;> try contradiction
  rename_i idle
  cases stepped
  have seen : ∀ handlers, present room { w with
      reg := (tryRegisterParticipant w.reg room s p limit clock).1, handlers := handlers } =
      present room w := by
    intro handlers
    simp [present, hosts]
  cases admitted : (tryRegisterParticipant w.reg room s p limit clock).2.ok with
  | false =>
    refine informed_kept w _ informed (seen _) ?_ rfl (fun _ working => working) rfl
    intro other registered
    rcases members other registered with known | ⟨-, joined⟩
    · exact known
    · simp [admitted] at joined
  | true =>
    have greeted : (tryRegisterParticipant w.reg room s p limit clock).2.hostConnected = present room w := by
      unfold tryRegisterParticipant
      dsimp only
      split <;> rfl
    intro other registered working
    by_cases same : other = s
    · subst same
      refine Or.inr ⟨handler, ?_⟩
      simp [Owes, move, greeted, present, hosts]
    · rcases members other registered with known | ⟨joined, -⟩
      · rcases informed other known working with heard | ⟨owner, owes⟩
        · refine Or.inl ?_
          have unseen := seen (update w.handlers handler
            (.greeting s (tryRegisterParticipant w.reg room s p limit clock).2.hostConnected))
          exact heard.trans (congrArg some unseen.symm)
        · refine Or.inr ⟨owner, owes_kept w _ owner other (seen _) ?_ owes⟩
          have different : owner ≠ handler := by
            intro mine
            subst mine
            simp [Owes, idle] at owes
          simp [move, different]
      · exact absurd joined same

theorem step_informed (w : World) (action : Action) (next : World) (order : InOrder room w action)
    (informed : Informed room w) (stepped : step room w action = some next) :
    Informed room next := by
  cases action with
  | registerHost handler | unregisterHost handler =>
    simp only [step] at stepped
    split at stepped <;> try contradiction
    cases stepped
    exact notifying_informed _ handler
  | participantsFor handler => exact list_informed w next handler informed stepped
  | hostFor handler => exact read_informed w next handler informed stepped
  | tellNext handler => exact tell_informed w next handler informed order stepped
  | registerParticipant handler s p limit clock =>
    exact join_informed w next handler s p limit clock informed stepped
  | greet handler => exact greet_informed w next handler informed order stepped
  | unregisterParticipant s =>
    cases stepped
    exact informed_kept w _ informed (by simp [present, unregister_hosts])
      (fun other registered => unregister_members w.reg s other registered) rfl
      (fun _ working => working) rfl
  | shutdown s =>
    cases stepped
    refine informed_kept w _ informed rfl (fun _ registered => registered) rfl ?_ rfl
    intro other working
    by_cases same : other = s
    · simp [same] at working
    · simpa [same] using working

theorem initial_informed : Informed room initial := by
  intro s registered
  simp [Registered, RoomRegistry.participantsFor, entries, initial, newRegistry] at registered

/-- In every run whose status frames are enqueued in the order of the host's changes, each
    participant has last been told the truth whenever all handlers are done. -/
theorem host_status_in_order (room : String) (actions : List Action) (w : World)
    (ran : run (step room) initial actions = some w)
    (ordered : Guarded (step room) (InOrder room) initial actions) (quiet : Quiet room w) :
    Agrees room w := by
  have informed := guarded_run_invariant (Informed room) step_informed ordered ran initial_informed
  intro s registered
  rcases informed s registered (quiet.2 s registered) with heard | ⟨handler, owes⟩
  · exact heard
  · simp [Owes, quiet.1 handler] at owes

def orderCheck (room : String) (w : World) (action : Action) : Bool :=
  match action with
  | .tellNext handler => (w.handlers handler).frame.all fun frame => frame.2 == present room w
  | .greet handler => (w.handlers handler).frame.all fun frame => frame.2 == present room w
  | _ => true

theorem order_check (room : String) (w : World) (action : Action)
    (passed : orderCheck room w action) : InOrder room w action := by
  intro handler s up enqueues framed _ _
  rcases enqueues with told | greeted
  · subst told
    exact Or.inl (by simpa [orderCheck, framed] using passed)
  · subst greeted
    exact Or.inl (by simpa [orderCheck, framed] using passed)

def guest : Participant := ⟨"ann", roleParticipant, accessControl, "c1", 1⟩

def arrivals : List Action :=
  [.registerParticipant 1 5 guest 64 1, .greet 1, .registerHost 0 7, .participantsFor 0, .hostFor 0,
    .tellNext 0, .tellNext 0, .registerHost 2 8, .unregisterHost 3 7, .participantsFor 3, .hostFor 3,
    .participantsFor 2, .hostFor 2, .tellNext 2, .tellNext 3, .tellNext 2, .tellNext 3]

theorem host_status_arrivals :
    ∃ w, run (step "room") initial arrivals = some w ∧ Registered "room" w 5 ∧ Agrees "room" w := by
  refine ⟨_, rfl, by decide, ?_⟩
  refine host_status_in_order "room" arrivals _ rfl
    (checked_guarded (orderCheck "room") (order_check "room") initial arrivals rfl) ⟨?_, ?_⟩
  · intro handler
    match handler with
    | 0 | 1 | 2 | 3 => rfl
    | n + 4 => rfl
  · intro s registered
    rfl

def overtakenGreeting : List Action :=
  [.registerParticipant 1 5 guest 64 1, .registerHost 0 7, .participantsFor 0, .hostFor 0,
    .tellNext 0, .tellNext 0, .greet 1]

theorem host_status_overtaken : ¬ ∀ (room : String) (actions : List Action) (w : World),
      run (step room) initial actions = some w → Quiet room w → Agrees room w := by
  intro claimed
  have disagreed := claimed "room" overtakenGreeting _ rfl ⟨?_, ?_⟩ 5 (by decide)
  · exact absurd disagreed (by decide)
  · intro handler
    match handler with
    | 0 => rfl
    | 1 => rfl
    | n + 2 => rfl
  · intro s registered
    rfl

end PieRelay.HostStatus
