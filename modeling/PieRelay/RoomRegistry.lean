import Mathlib.Logic.Function.Basic

/-!
The relay's room registry, server/internal/relay/registry.go. Every operation
below is one critical section of `Registry.mu`. Go maps are total functions into
`Option`; a room's participant set keeps its nil/empty distinction. Times are
nanoseconds counted from Go's zero time, so `IsZero` is equality with `0`, and
the two uint64 counters are naturals.
-/
namespace PieRelay.RoomRegistry
open Function

abbrev Time := Int
abbrev Duration := Int

def roleHost : String := "host"
def roleParticipant : String := "participant"
def accessView : String := "view"
def accessControl : String := "control"

structure Participant where
  userID : String
  role : String
  access : String
  connectionID : String
  connectedAt : Time
  deriving DecidableEq

structure DriverLease where
  userID : String
  generation : Nat
  expiresAt : Time
  deriving DecidableEq

def noLease : DriverLease := ⟨"", 0, 0⟩

structure Registry (Sender : Type) where
  hosts : String → Option Sender
  hostEpochs : String → Nat
  participants : String → Option (List (Sender × Participant))
  drivers : String → Option DriverLease
  driverSeq : String → Nat

variable {Sender : Type}

def newRegistry : Registry Sender where
  hosts := fun _ => none
  hostEpochs := fun _ => 0
  participants := fun _ => none
  drivers := fun _ => none
  driverSeq := fun _ => 0

def entries (r : Registry Sender) (room : String) : List (Sender × Participant) :=
  (r.participants room).getD []

def registerHostWithEpoch (r : Registry Sender) (room : String) (s : Sender) :
    Registry Sender × Nat :=
  let epoch := r.hostEpochs room + 1
  ({ r with
      hostEpochs := update r.hostEpochs room epoch
      hosts := update r.hosts room (some s) }, epoch)

/-- The function `RegisterHostWithEpoch` returns: only the host that is still
    registered is removed, a superseded one leaves its successor alone. -/
def unregisterHost [DecidableEq Sender] (r : Registry Sender) (room : String) (s : Sender) :
    Registry Sender :=
  if r.hosts room = some s then { r with hosts := update r.hosts room none } else r

def hostEpoch (r : Registry Sender) (room : String) : Nat := r.hostEpochs room

def hostFor (r : Registry Sender) (room : String) : Option Sender := r.hosts room

structure Registration where
  hostConnected : Bool
  ok : Bool
  deriving DecidableEq

def tryRegisterParticipant [DecidableEq Sender] (r : Registry Sender) (room : String) (s : Sender)
    (p : Participant) (limit : Int) (clock : Time) : Registry Sender × Registration :=
  let hostConnected := (r.hosts room).isSome
  let set := entries r room
  -- A refused caller still leaves the freshly made, empty set of its room behind.
  if 0 < limit ∧ limit ≤ set.length then
    ({ r with participants := update r.participants room (some set) }, ⟨hostConnected, false⟩)
  else
    let p := if p.connectedAt = 0 then { p with connectedAt := clock } else p
    let p := if p.access = "" then { p with access := accessControl } else p
    ({ r with participants :=
        update r.participants room (some ((s, p) :: set.filter fun entry => entry.1 ≠ s)) },
      ⟨hostConnected, true⟩)

def unregisterParticipant [DecidableEq Sender] (r : Registry Sender) (room : String) (s : Sender) :
    Registry Sender :=
  match r.participants room with
  | none => r
  | some set =>
    let kept := set.filter fun entry => entry.1 ≠ s
    { r with participants := update r.participants room (if kept = [] then none else some kept) }

def participantsFor (r : Registry Sender) (room : String) : List Sender :=
  (entries r room).map Prod.fst

def participantsByUserID (r : Registry Sender) (room userID : String) : List Sender :=
  ((entries r room).filter fun entry => entry.2.userID = userID).map Prod.fst

def hostSendersFor (r : Registry Sender) (room : String) : List Sender :=
  ((entries r room).filter fun entry => entry.2.role = roleHost).map Prod.fst

def canDriveLocked (r : Registry Sender) (room userID : String) : Bool :=
  (entries r room).any fun entry =>
    entry.2.userID = userID && (entry.2.role = roleHost || entry.2.access = accessControl)

def currentDriverLocked (r : Registry Sender) (room : String) (now : Time) :
    Registry Sender × DriverLease × Bool :=
  match r.drivers room with
  | none => (r, ⟨"", r.driverSeq room, 0⟩, false)
  | some lease =>
    if now < lease.expiresAt then (r, lease, true)
    else
      -- Expiry is collected by whoever looks: the lease goes and the generation moves.
      let generation := r.driverSeq room + 1
      ({ r with
          drivers := update r.drivers room none
          driverSeq := update r.driverSeq room generation }, ⟨"", generation, 0⟩, false)

def acquireDriverIfFree (r : Registry Sender) (room userID : String) (now : Time)
    (ttl : Duration) : Registry Sender × DriverLease × Bool :=
  let (r, lease, ok) := currentDriverLocked r room now
  if ok then (r, lease, false)
  else if !canDriveLocked r room userID then (r, noLease, false)
  else
    let generation := r.driverSeq room + 1
    let lease : DriverLease := ⟨userID, generation, now + ttl⟩
    ({ r with
        driverSeq := update r.driverSeq room generation
        drivers := update r.drivers room (some lease) }, lease, true)

def setDriver (r : Registry Sender) (room userID : String) (now : Time) (ttl : Duration) :
    Registry Sender × DriverLease × Bool :=
  if userID ≠ "" ∧ !canDriveLocked r room userID then (r, noLease, false)
  else
    let generation := r.driverSeq room + 1
    let r := { r with driverSeq := update r.driverSeq room generation }
    if userID = "" then
      ({ r with drivers := update r.drivers room none }, ⟨userID, generation, 0⟩, true)
    else
      let lease : DriverLease := ⟨userID, generation, now + ttl⟩
      ({ r with drivers := update r.drivers room (some lease) }, lease, true)

def renewDriver (r : Registry Sender) (room userID : String) (now : Time) (ttl : Duration) :
    Registry Sender × DriverLease × Bool :=
  let (r, lease, ok) := currentDriverLocked r room now
  if !ok || lease.userID ≠ userID || !canDriveLocked r room userID then (r, noLease, false)
  else
    let lease := { lease with expiresAt := now + ttl }
    ({ r with drivers := update r.drivers room (some lease) }, lease, true)

def driver (r : Registry Sender) (room : String) (now : Time) :
    Registry Sender × DriverLease × Bool :=
  currentDriverLocked r room now

def releaseDriverIfAbsent (r : Registry Sender) (room userID : String) (now : Time) :
    Registry Sender × DriverLease × Bool :=
  if (entries r room).any fun entry => entry.2.userID = userID then (r, noLease, false)
  else
    let (r, lease, ok) := currentDriverLocked r room now
    if !ok || lease.userID ≠ userID then (r, noLease, false)
    else
      let generation := r.driverSeq room + 1
      ({ r with
          driverSeq := update r.driverSeq room generation
          drivers := update r.drivers room none }, ⟨"", generation, 0⟩, true)

/-! Participants come and go without touching hosts or seats, and a host without
touching seats. -/
section Registering
variable [DecidableEq Sender] (r : Registry Sender) (room : String) (s : Sender)

theorem try_register_hosts (p : Participant) (limit : Int) (clock : Time) :
    (tryRegisterParticipant r room s p limit clock).1.hosts = r.hosts := by
  unfold tryRegisterParticipant
  dsimp only
  split <;> rfl

theorem try_register_drivers (p : Participant) (limit : Int) (clock : Time) :
    (tryRegisterParticipant r room s p limit clock).1.drivers = r.drivers := by
  unfold tryRegisterParticipant
  dsimp only
  split <;> rfl

theorem unregister_hosts : (unregisterParticipant r room s).hosts = r.hosts := by
  unfold unregisterParticipant
  split <;> rfl

theorem unregister_drivers : (unregisterParticipant r room s).drivers = r.drivers := by
  unfold unregisterParticipant
  split <;> rfl

theorem unregister_host_drivers : (unregisterHost r room s).drivers = r.drivers := by
  unfold unregisterHost
  split <;> rfl

theorem unregister_host_kept (other : Sender)
    (current : (unregisterHost r room s).hosts room = some other) : r.hosts room = some other := by
  unfold unregisterHost at current
  split at current
  · simp at current
  · exact current

end Registering

theorem can_drive_iff (r : Registry Sender) (room userID : String) :
    canDriveLocked r room userID ↔ ∃ entry ∈ entries r room,
      entry.2.userID = userID ∧ (entry.2.role = roleHost ∨ entry.2.access = accessControl) := by
  simp [canDriveLocked]

/-! What one look at the seat does: the stored lease is returned untouched while
it is live; otherwise the seat is found or left empty at the current generation. -/
section Looking
variable (r : Registry Sender) (room : String) (now : Time)

theorem current_live (lease : DriverLease) (held : r.drivers room = some lease)
    (live : now < lease.expiresAt) : currentDriverLocked r room now = (r, lease, true) := by
  simp [currentDriverLocked, held, live]

theorem current_vacant (free : r.drivers room = none) :
    currentDriverLocked r room now = (r, ⟨"", r.driverSeq room, 0⟩, false) := by
  simp [currentDriverLocked, free]

theorem current_expired (lease : DriverLease) (held : r.drivers room = some lease) (expired : ¬ now < lease.expiresAt) :
    currentDriverLocked r room now = ({ r with
          drivers := update r.drivers room none
          driverSeq := update r.driverSeq room (r.driverSeq room + 1) },
        ⟨"", r.driverSeq room + 1, 0⟩, false) := by
  simp [currentDriverLocked, held, expired]

theorem current_participants : (currentDriverLocked r room now).1.participants = r.participants := by
  unfold currentDriverLocked
  split
  · rfl
  · split <;> rfl

theorem current_can_drive (userID : String) :
    canDriveLocked (currentDriverLocked r room now).1 room userID = canDriveLocked r room userID := by
  simp [canDriveLocked, entries, current_participants]

theorem current_found (found : (currentDriverLocked r room now).2.2) :
    ∃ lease, r.drivers room = some lease ∧ now < lease.expiresAt ∧
      currentDriverLocked r room now = (r, lease, true) := by
  cases held : r.drivers room with
  | none => simp [current_vacant r room now held] at found
  | some lease =>
    by_cases live : now < lease.expiresAt
    · exact ⟨lease, rfl, live, current_live r room now lease held live⟩
    · simp [current_expired r room now lease held live] at found

theorem current_missing (missing : (currentDriverLocked r room now).2.2 = false) :
    (currentDriverLocked r room now).1.drivers room = none ∧ (currentDriverLocked r room now).2.1 =
        ⟨"", (currentDriverLocked r room now).1.driverSeq room, 0⟩ := by
  cases held : r.drivers room with
  | none => simp [current_vacant r room now held, held]
  | some lease =>
    by_cases live : now < lease.expiresAt
    · simp [current_live r room now lease held live] at missing
    · simp [current_expired r room now lease held live]

end Looking
end PieRelay.RoomRegistry
