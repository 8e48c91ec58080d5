import PieRelay.RoomRegistry

/-!
The driver seat of a room as a state machine over `RoomRegistry`. `SeatChange`
says everything one call can do to a seat; the generation discipline is derived
from it alone. Clock arguments are arbitrary in every call, so time may also run
backwards between two calls.
-/
namespace PieRelay.DriverLease
open Function RoomRegistry
variable {Sender : Type}

structure Seat where
  lease : Option DriverLease
  generation : Nat

def seat (r : Registry Sender) (room : String) : Seat := ⟨r.drivers room, r.driverSeq room⟩

def Seat.holder (s : Seat) : Option String := s.lease.map DriverLease.userID

inductive SeatChange (r : Registry Sender) (room : String) : Seat → Prop where
  | kept : SeatChange r room (seat r room)
  | vacated (generation : Nat) (later : r.driverSeq room < generation) :
      SeatChange r room ⟨none, generation⟩
  | granted (userID : String) (generation : Nat) (expiresAt : Time)
      (later : r.driverSeq room < generation) (eligible : canDriveLocked r room userID) :
      SeatChange r room ⟨some ⟨userID, generation, expiresAt⟩, generation⟩
  | renewed (lease : DriverLease) (expiresAt : Time) (held : r.drivers room = some lease)
      (eligible : canDriveLocked r room lease.userID) :
      SeatChange r room ⟨some { lease with expiresAt := expiresAt }, r.driverSeq room⟩

inductive Call (Sender : Type) where
  | acquireDriverIfFree (room userID : String) (now : Time) (ttl : Duration)
  | setDriver (room userID : String) (now : Time) (ttl : Duration)
  | renewDriver (room userID : String) (now : Time) (ttl : Duration)
  | driver (room : String) (now : Time)
  | releaseDriverIfAbsent (room userID : String) (now : Time)
  | tryRegisterParticipant (room : String) (s : Sender) (p : Participant) (limit : Int)
      (clock : Time)
  | unregister (room : String) (s : Sender)

def Call.room : Call Sender → String
  | .acquireDriverIfFree room .. => room
  | .setDriver room .. => room
  | .renewDriver room .. => room
  | .driver room _ => room
  | .releaseDriverIfAbsent room .. => room
  | .tryRegisterParticipant room .. => room
  | .unregister room _ => room

inductive Answer where
  | lease (lease : DriverLease) (ok : Bool)
  | registration (registration : Registration)
  | done

def apply [DecidableEq Sender] (r : Registry Sender) : Call Sender → Registry Sender × Answer
  | .acquireDriverIfFree room userID now ttl =>
    let (r, lease, ok) := acquireDriverIfFree r room userID now ttl
    (r, .lease lease ok)
  | .setDriver room userID now ttl =>
    let (r, lease, ok) := setDriver r room userID now ttl
    (r, .lease lease ok)
  | .renewDriver room userID now ttl =>
    let (r, lease, ok) := renewDriver r room userID now ttl
    (r, .lease lease ok)
  | .driver room now =>
    let (r, lease, ok) := driver r room now
    (r, .lease lease ok)
  | .releaseDriverIfAbsent room userID now =>
    let (r, lease, ok) := releaseDriverIfAbsent r room userID now
    (r, .lease lease ok)
  | .tryRegisterParticipant room s p limit clock =>
    let (r, registration) := tryRegisterParticipant r room s p limit clock
    (r, .registration registration)
  | .unregister room s => (unregisterParticipant r room s, .done)

def after [DecidableEq Sender] (r : Registry Sender) (calls : List (Call Sender)) :
    Registry Sender :=
  calls.foldl (fun r call => (apply r call).1) r

section Operations
variable (r : Registry Sender) (room : String) (now : Time)

theorem current_seat : SeatChange r room (seat (currentDriverLocked r room now).1 room) := by
  cases held : r.drivers room with
  | none =>
    rw [current_vacant r room now held]
    exact .kept
  | some lease =>
    by_cases live : now < lease.expiresAt
    · rw [current_live r room now lease held live]
      exact .kept
    · rw [current_expired r room now lease held live]
      simpa [seat] using SeatChange.vacated (r := r) _ (Nat.lt_succ_self _)

theorem current_generation_le : r.driverSeq room ≤ (currentDriverLocked r room now).1.driverSeq room := by
  unfold currentDriverLocked
  split
  · exact Nat.le_refl _
  · split <;> simp

theorem current_other (other : String) (different : other ≠ room) :
    seat (currentDriverLocked r room now).1 other = seat r other := by
  unfold currentDriverLocked
  split
  · rfl
  · split <;> simp [seat, different]

theorem acquire_seat (userID : String) (ttl : Duration) :
    SeatChange r room (seat (acquireDriverIfFree r room userID now ttl).1 room) := by
  have looked := current_seat r room now
  unfold acquireDriverIfFree
  dsimp only
  split
  · exact looked
  · split
    · exact looked
    · rename_i eligible
      have moved := current_generation_le r room now
      rw [current_can_drive] at eligible
      simpa [seat] using SeatChange.granted (r := r) userID
        ((currentDriverLocked r room now).1.driverSeq room + 1) (now + ttl)
        (Nat.lt_succ_of_le moved) (by simpa using eligible)

theorem set_seat (userID : String) (ttl : Duration) :
    SeatChange r room (seat (setDriver r room userID now ttl).1 room) := by
  unfold setDriver
  split
  · exact .kept
  · rename_i admitted
    dsimp only
    split
    · simpa [seat] using SeatChange.vacated (r := r) _ (Nat.lt_succ_self _)
    · rename_i named
      have eligible : canDriveLocked r room userID := by simpa [named] using admitted
      simpa [seat] using SeatChange.granted (r := r) userID _ (now + ttl) (Nat.lt_succ_self _) eligible

theorem renew_seat (userID : String) (ttl : Duration) :
    SeatChange r room (seat (renewDriver r room userID now ttl).1 room) := by
  have looked := current_seat r room now
  unfold renewDriver
  dsimp only
  split
  · exact looked
  · rename_i admitted
    simp only [Bool.or_eq_true, Bool.not_eq_true', decide_eq_true_eq, not_or,
      Bool.not_eq_false, ne_eq, Decidable.not_not, current_can_drive] at admitted
    obtain ⟨⟨found, same⟩, eligible⟩ := admitted
    obtain ⟨lease, held, live, current⟩ := current_found r room now found
    rw [current] at same ⊢
    dsimp only at same
    subst same
    simpa [seat] using SeatChange.renewed (r := r) lease (now + ttl) held eligible

theorem release_seat (userID : String) : SeatChange r room (seat (releaseDriverIfAbsent r room userID now).1 room) := by
  have looked := current_seat r room now
  have moved := current_generation_le r room now
  unfold releaseDriverIfAbsent
  dsimp only
  split
  · exact .kept
  · split
    · exact looked
    · simpa [seat] using SeatChange.vacated (r := r) _ (Nat.lt_succ_of_le moved)

end Operations

section
variable (r : Registry Sender) (call : Call Sender)
include r call

theorem apply_seat [DecidableEq Sender] : SeatChange r call.room (seat (apply r call).1 call.room) := by
  cases call with
  | acquireDriverIfFree room userID now ttl => exact acquire_seat r room now userID ttl
  | setDriver room userID now ttl => exact set_seat r room now userID ttl
  | renewDriver room userID now ttl => exact renew_seat r room now userID ttl
  | driver room now => exact current_seat r room now
  | releaseDriverIfAbsent room userID now => exact release_seat r room now userID
  | tryRegisterParticipant =>
    simp only [apply, Call.room, tryRegisterParticipant]
    split <;> exact .kept
  | unregister =>
    simp only [apply, Call.room, unregisterParticipant]
    split <;> exact .kept

theorem apply_other [DecidableEq Sender] (other : String) (different : other ≠ call.room) :
    seat (apply r call).1 other = seat r other := by
  cases call with
  | acquireDriverIfFree room userID now =>
    have apart : other ≠ room := different
    have looked := current_other r room now other apart
    simp only [apply, acquireDriverIfFree]
    split
    · exact looked
    · split
      · exact looked
      · simpa [seat, apart] using looked
  | setDriver room =>
    have apart : other ≠ room := different
    simp only [apply, setDriver]
    split
    · rfl
    · split <;> simp [seat, apart]
  | renewDriver room userID now =>
    have apart : other ≠ room := different
    have looked := current_other r room now other apart
    simp only [apply, renewDriver]
    split
    · exact looked
    · simpa [seat, apart] using looked
  | driver room now => exact current_other r room now other different
  | releaseDriverIfAbsent room userID now =>
    have apart : other ≠ room := different
    have looked := current_other r room now other apart
    simp only [apply, releaseDriverIfAbsent]
    split
    · rfl
    · split
      · exact looked
      · simpa [seat, apart] using looked
  | tryRegisterParticipant =>
    simp only [apply, tryRegisterParticipant]
    split <;> rfl
  | unregister =>
    simp only [apply, unregisterParticipant]
    split <;> rfl

theorem apply_change [DecidableEq Sender] (room : String) : SeatChange r room (seat (apply r call).1 room) := by
  by_cases same : room = call.room
  · subst same
    exact apply_seat r call
  · rw [apply_other r call room same]
    exact .kept

end

def StoredGeneration (r : Registry Sender) : Prop :=
  ∀ room lease, r.drivers room = some lease → lease.generation = r.driverSeq room

def Advances (before after : Registry Sender) : Prop :=
  ∀ room, before.driverSeq room ≤ after.driverSeq room ∧
    ((seat before room).holder ≠ (seat after room).holder →
      before.driverSeq room < after.driverSeq room)

theorem advances_refl (r : Registry Sender) : Advances r r :=
  fun _ => ⟨Nat.le_refl _, fun different => absurd rfl different⟩

theorem advances_trans (a b c : Registry Sender) (first : Advances a b) (second : Advances b c) : Advances a c := by
  intro room
  obtain ⟨grows, changes⟩ := first room
  obtain ⟨growsAgain, changesAgain⟩ := second room
  refine ⟨Nat.le_trans grows growsAgain, fun different => ?_⟩
  by_cases same : (seat a room).holder = (seat b room).holder
  · exact Nat.lt_of_le_of_lt grows (changesAgain (same ▸ different))
  · exact Nat.lt_of_lt_of_le (changes same) growsAgain

theorem change_advances (r next : Registry Sender) (room : String) (change : SeatChange r room (seat next room)) :
    r.driverSeq room ≤ next.driverSeq room ∧
      ((seat r room).holder ≠ (seat next room).holder → r.driverSeq room < next.driverSeq room) := by
  have generation : next.driverSeq room = (seat next room).generation := rfl
  rw [generation]
  generalize seat next room = target at change
  cases change with
  | kept => exact ⟨Nat.le_refl _, fun different => absurd rfl different⟩
  | vacated _ later | granted _ _ _ later => exact ⟨Nat.le_of_lt later, fun _ => later⟩
  | renewed lease _ held =>
    refine ⟨Nat.le_refl _, fun different => absurd ?_ different⟩
    simp [Seat.holder, seat, held]

theorem change_stored (r next : Registry Sender) (room : String) (lease : DriverLease)
    (change : SeatChange r room (seat next room)) (stored : StoredGeneration r)
    (held : next.drivers room = some lease) : lease.generation = next.driverSeq room := by
  have same : (seat next room).lease = some lease := held
  have generation : next.driverSeq room = (seat next room).generation := rfl
  rw [generation]
  generalize seat next room = target at change same
  cases change with
  | kept => exact stored room lease same
  | vacated => simp at same
  | granted =>
    cases same
    rfl
  | renewed prior expiresAt holds =>
    cases same
    exact stored room prior holds

section Runs
variable [DecidableEq Sender]

theorem apply_advances (r : Registry Sender) (call : Call Sender) : Advances r (apply r call).1 :=
  fun room => change_advances r (apply r call).1 room (apply_change r call room)

theorem apply_stored (r : Registry Sender) (call : Call Sender) (stored : StoredGeneration r) :
    StoredGeneration (apply r call).1 :=
  fun room lease held =>
    change_stored r (apply r call).1 room lease (apply_change r call room) stored held

theorem after_advances (r : Registry Sender) (calls : List (Call Sender)) : Advances r (after r calls) := by
  induction calls generalizing r with
  | nil => exact advances_refl r
  | cons call rest ih => exact advances_trans _ _ _ (apply_advances r call) (ih (apply r call).1)

theorem after_stored (r : Registry Sender) (calls : List (Call Sender))
    (stored : StoredGeneration r) : StoredGeneration (after r calls) := by
  induction calls generalizing r with
  | nil => exact stored
  | cons call rest ih => exact ih (apply r call).1 (apply_stored r call stored)

theorem reachable_stored (calls : List (Call Sender)) :
    StoredGeneration (after (newRegistry : Registry Sender) calls) :=
  after_stored _ calls fun room lease held => by simp [newRegistry] at held

end Runs

/-! Callers see the seat only through answers. A sighting is the holder and the
generation an answer shows; refusals that carry the zero lease show nothing. -/

def sighting : Call Sender → Answer → Option (Option String × Nat)
  | .acquireDriverIfFree .., .lease lease ok =>
    if ok ∨ lease ≠ noLease then some (some lease.userID, lease.generation) else none
  | .setDriver _ userID .., .lease lease true =>
    some (if userID = "" then none else some userID, lease.generation)
  | .renewDriver .., .lease lease true => some (some lease.userID, lease.generation)
  | .driver .., .lease lease ok => some (if ok then some lease.userID else none, lease.generation)
  | .releaseDriverIfAbsent .., .lease lease true => some (none, lease.generation)
  | _, _ => none

def Shows (r : Registry Sender) (room : String) (shown : Option String × Nat) : Prop :=
  (seat r room).holder = shown.1 ∧ r.driverSeq room = shown.2

section
variable (r : Registry Sender)
include r

theorem current_shows (room : String) (now : Time) (stored : StoredGeneration r) :
    let looked := currentDriverLocked r room now
    Shows looked.1 room (if looked.2.2 then some looked.2.1.userID else none, looked.2.1.generation) := by
  intro looked
  cases found : looked.2.2 with
  | true =>
    obtain ⟨lease, held, -, current⟩ := current_found r room now found
    have same : looked = (r, lease, true) := current
    simp [same, Shows, Seat.holder, seat, held, stored room lease held]
  | false =>
    obtain ⟨empty, shown⟩ := current_missing r room now found
    have vacant : looked.1.drivers room = none := empty
    have lease : looked.2.1 = ⟨"", looked.1.driverSeq room, 0⟩ := shown
    simp [Shows, Seat.holder, seat, vacant, lease]

section
variable (room userID : String) (now : Time)
include room userID now

theorem renew_exact (ttl : Duration) (renewed : (renewDriver r room userID now ttl).2.2) :
    ∃ held, r.drivers room = some held ∧ now < held.expiresAt ∧ held.userID = userID ∧ canDriveLocked r room userID ∧
      renewDriver r room userID now ttl =
        ({ r with drivers := update r.drivers room (some { held with expiresAt := now + ttl }) },
          { held with expiresAt := now + ttl }, true) := by
  unfold renewDriver at renewed ⊢
  dsimp only at renewed ⊢
  split at renewed
  · simp at renewed
  · rename_i admitted
    rw [if_neg admitted]
    simp only [Bool.or_eq_true, Bool.not_eq_true', decide_eq_true_eq, not_or,
      Bool.not_eq_false, ne_eq, Decidable.not_not, current_can_drive] at admitted
    obtain ⟨⟨found, same⟩, eligible⟩ := admitted
    obtain ⟨lease, held, live, current⟩ := current_found r room now found
    rw [current] at same ⊢
    exact ⟨lease, held, live, same, eligible, rfl⟩

theorem acquire_exact (ttl : Duration) (acquired : (acquireDriverIfFree r room userID now ttl).2.2) :
    canDriveLocked r room userID ∧ (acquireDriverIfFree r room userID now ttl).2.1.userID = userID ∧
      (acquireDriverIfFree r room userID now ttl).1.drivers room =
        some (acquireDriverIfFree r room userID now ttl).2.1 := by
  unfold acquireDriverIfFree at acquired ⊢
  dsimp only at acquired ⊢
  split at acquired
  · simp at acquired
  · rename_i free
    split at acquired
    · simp at acquired
    · rename_i eligible
      rw [if_neg free, if_neg eligible]
      rw [current_can_drive] at eligible
      exact ⟨by simpa using eligible, rfl, by simp⟩

theorem acquire_live (ttl : Duration)
    (lease : DriverLease) (held : r.drivers room = some lease) (live : now < lease.expiresAt) :
    acquireDriverIfFree r room userID now ttl = (r, lease, false) := by
  simp [acquireDriverIfFree, current_live r room now lease held live]

theorem set_exact (ttl : Duration) (assigned : (setDriver r room userID now ttl).2.2) :
    (userID ≠ "" → canDriveLocked r room userID) ∧ (setDriver r room userID now ttl).2.1.userID = userID ∧
      (setDriver r room userID now ttl).2.1.generation = (setDriver r room userID now ttl).1.driverSeq room ∧
      (setDriver r room userID now ttl).1.drivers room =
        if userID = "" then none else some (setDriver r room userID now ttl).2.1 := by
  unfold setDriver at assigned ⊢
  split at assigned
  · simp at assigned
  · rename_i admitted
    rw [if_neg admitted]
    have eligible : userID ≠ "" → canDriveLocked r room userID := by
      intro named
      simpa [named] using admitted
    dsimp only
    split
    · rename_i revoked
      simp [revoked]
    · rename_i named
      simpa [named] using eligible

theorem release_exact (released : (releaseDriverIfAbsent r room userID now).2.2) :
    (releaseDriverIfAbsent r room userID now).1.drivers room = none ∧
      (releaseDriverIfAbsent r room userID now).2.1.generation =
        (releaseDriverIfAbsent r room userID now).1.driverSeq room := by
  unfold releaseDriverIfAbsent at released ⊢
  split at released
  · simp at released
  · rename_i absent
    rw [if_neg absent]
    dsimp only at released ⊢
    split at released
    · simp at released
    · rename_i admitted
      rw [if_neg admitted]
      simp

theorem acquire_shows (ttl : Duration)
    (stored : StoredGeneration r) (next : StoredGeneration (acquireDriverIfFree r room userID now ttl).1)
    (shown : (acquireDriverIfFree r room userID now ttl).2.2 ∨
      (acquireDriverIfFree r room userID now ttl).2.1 ≠ noLease) :
    Shows (acquireDriverIfFree r room userID now ttl).1 room
      (some (acquireDriverIfFree r room userID now ttl).2.1.userID,
        (acquireDriverIfFree r room userID now ttl).2.1.generation) := by
  cases acquired : (acquireDriverIfFree r room userID now ttl).2.2 with
  | true =>
    obtain ⟨-, -, held⟩ := acquire_exact r room userID now ttl acquired
    simp [Shows, Seat.holder, seat, held, next room _ held]
  | false =>
    cases found : (currentDriverLocked r room now).2.2 with
    | true =>
      obtain ⟨lease, held, live, -⟩ := current_found r room now found
      rw [acquire_live r room userID now ttl lease held live]
      simp [Shows, Seat.holder, seat, held, stored room lease held]
    | false =>
      -- The seat was free: a caller that may not drive is answered with the zero lease.
      exfalso
      unfold acquireDriverIfFree at acquired shown
      simp only [found, Bool.false_eq_true, ↓reduceIte] at acquired shown
      split at acquired
      · simp_all
      · simp at acquired

end

theorem sighting_exact [DecidableEq Sender] (call : Call Sender)
    (shown : Option String × Nat) (stored : StoredGeneration r)
    (seen : sighting call (apply r call).2 = some shown) :
    Shows (apply r call).1 call.room shown := by
  have next := apply_stored r call stored
  cases call with
  | acquireDriverIfFree room userID now ttl =>
    simp only [apply, sighting] at seen
    split at seen
    · rename_i visible
      cases seen
      exact acquire_shows r room userID now ttl stored next visible
    · simp at seen
  | setDriver room userID now ttl =>
    cases assigned : (setDriver r room userID now ttl).2.2 with
    | false => simp [apply, sighting, assigned] at seen
    | true =>
      obtain ⟨-, named, generation, held⟩ := set_exact r room userID now ttl assigned
      simp only [apply, sighting, assigned, Option.some.injEq] at seen
      subst seen
      refine ⟨?_, generation.symm⟩
      simp only [apply, Call.room, Seat.holder, seat, held]
      split <;> simp [named]
  | renewDriver room userID now ttl =>
    cases renewed : (renewDriver r room userID now ttl).2.2 with
    | false => simp [apply, sighting, renewed] at seen
    | true =>
      obtain ⟨lease, held, -, -, -, exact⟩ := renew_exact r room userID now ttl renewed
      simp only [apply, sighting, exact, Option.some.injEq] at seen
      subst seen
      simp [apply, Call.room, exact, Shows, Seat.holder, seat, stored room lease held]
  | driver room now =>
    simp only [apply, sighting, Option.some.injEq] at seen
    subst seen
    exact current_shows r room now stored
  | releaseDriverIfAbsent room userID now =>
    cases released : (releaseDriverIfAbsent r room userID now).2.2 with
    | false => simp [apply, sighting, released] at seen
    | true =>
      obtain ⟨empty, generation⟩ := release_exact r room userID now released
      simp only [apply, sighting, released, Option.some.injEq] at seen
      subst seen
      exact ⟨by simp [apply, Call.room, Seat.holder, seat, empty], generation.symm⟩
  | tryRegisterParticipant | unregister => simp [sighting] at seen

end

/-! The obligations of the seat, each a property of one registry and of whatever
calls follow it. -/

def SightingsAdvance [DecidableEq Sender] (r : Registry Sender) : Prop :=
  ∀ (first second : Call Sender) (between : List (Call Sender)) (early late : Option String × Nat),
    first.room = second.room → sighting first (apply r first).2 = some early →
    sighting second (apply (after (apply r first).1 between) second).2 = some late →
    early.2 ≤ late.2 ∧ (early.1 ≠ late.1 → early.2 < late.2)

def RenewalExtends (r : Registry Sender) : Prop :=
  ∀ (room userID : String) (now : Time) (ttl : Duration),
    (renewDriver r room userID now ttl).2.2 →
    ∃ held, r.drivers room = some held ∧ now < held.expiresAt ∧ held.userID = userID ∧
      (renewDriver r room userID now ttl).2.1 = { held with expiresAt := now + ttl } ∧
      (renewDriver r room userID now ttl).1.driverSeq = r.driverSeq

def GoneForGood [DecidableEq Sender] (r : Registry Sender) : Prop :=
  ∀ (room : String) (lease : DriverLease) (sooner later : List (Call Sender)),
    r.drivers room = some lease →
    (∀ held, (after r sooner).drivers room = some held → held.generation ≠ lease.generation) →
    ∀ (userID : String) (now : Time) (ttl : Duration),
      (renewDriver (after (after r sooner) later) room userID now ttl).2.2 →
      lease.generation < (renewDriver (after (after r sooner) later) room userID now ttl).2.1.generation

def LiveSeatUntouched (r : Registry Sender) : Prop :=
  ∀ (room userID : String) (now : Time) (ttl : Duration) (lease : DriverLease),
    r.drivers room = some lease → now < lease.expiresAt →
    acquireDriverIfFree r room userID now ttl = (r, lease, false)

def Eligible (r : Registry Sender) (room userID : String) : Prop :=
  ∃ entry ∈ entries r room, entry.2.userID = userID ∧
    (entry.2.role = roleHost ∨ entry.2.access = accessControl)

/-- Both readings: a lease newly in the seat, and an answer that grants or renews one. -/
def GrantsEligible [DecidableEq Sender] (r : Registry Sender) : Prop :=
  (∀ (call : Call Sender) (room : String) (lease : DriverLease),
    (apply r call).1.drivers room = some lease → r.drivers room ≠ some lease →
    Eligible r room lease.userID) ∧
  (∀ (room userID : String) (now : Time) (ttl : Duration),
    ((acquireDriverIfFree r room userID now ttl).2.2 → Eligible r room userID) ∧
    ((renewDriver r room userID now ttl).2.2 → Eligible r room userID) ∧
    ((setDriver r room userID now ttl).2.2 → userID ≠ "" → Eligible r room userID))

def RoomsApart [DecidableEq Sender] (r : Registry Sender) : Prop :=
  ∀ (call : Call Sender) (room : String), room ≠ call.room →
    (apply r call).1.drivers room = r.drivers room ∧
    (apply r call).1.driverSeq room = r.driverSeq room

section Obligations
variable [DecidableEq Sender]

theorem sightings_advance (r : Registry Sender) (stored : StoredGeneration r) : SightingsAdvance r := by
  intro first second between early late sameRoom seen seenAgain
  have storedNext := apply_stored r first stored
  have storedLate := after_stored _ between storedNext
  obtain ⟨holder, generation⟩ := sighting_exact r first early stored seen
  obtain ⟨lateHolder, lateGeneration⟩ := sighting_exact _ second late storedLate seenAgain
  have advanced := advances_trans _ _ _ (after_advances (apply r first).1 between) (apply_advances _ second) first.room
  rw [← sameRoom] at lateHolder lateGeneration
  rw [holder, generation, lateHolder, lateGeneration] at advanced
  exact advanced

theorem gone_for_good (r : Registry Sender) (stored : StoredGeneration r) : GoneForGood r := by
  intro room lease sooner later held gone userID now ttl renewed
  have storedMiddle := after_stored r sooner stored
  have storedLate := after_stored _ later storedMiddle
  obtain ⟨current, holds, -, -, -, exact⟩ := renew_exact _ room userID now ttl renewed
  have generation := stored room lease held
  have grew := (after_advances r sooner room).1
  have grewAgain := after_advances (after r sooner) later room
  have shown : (renewDriver (after (after r sooner) later) room userID now ttl).2.1.generation =
      (after (after r sooner) later).driverSeq room := by
    rw [exact]
    exact storedLate room current holds
  rw [shown, generation]
  cases middle : (after r sooner).drivers room with
  | some other =>
    -- Another lease is stored, and stored leases carry the current generation.
    have different := gone other middle
    have moved := storedMiddle room other middle
    omega
  | none =>
    have refilled : (seat (after r sooner) room).holder ≠ (seat (after (after r sooner) later) room).holder := by
      simp [Seat.holder, seat, middle, holds]
    have strict := grewAgain.2 refilled
    omega

theorem grants_eligible (r : Registry Sender) : GrantsEligible r := by
  constructor
  · intro call room lease held fresh
    have change := apply_change r call room
    have same : (seat (apply r call).1 room).lease = some lease := held
    generalize seat (apply r call).1 room = target at change same
    cases change with
    | kept => exact absurd same fresh
    | vacated => simp at same
    | granted userID generation expiresAt later eligible =>
      cases same
      exact (can_drive_iff r room userID).mp eligible
    | renewed prior expiresAt holds eligible =>
      cases same
      exact (can_drive_iff r room prior.userID).mp eligible
  · intro room userID now ttl
    refine ⟨fun acquired => ?_, fun renewed => ?_, fun assigned named => ?_⟩
    · exact (can_drive_iff r room userID).mp (acquire_exact r room userID now ttl acquired).1
    · obtain ⟨_, _, _, _, eligible, _⟩ := renew_exact r room userID now ttl renewed
      exact (can_drive_iff r room userID).mp eligible
    · exact (can_drive_iff r room userID).mp ((set_exact r room userID now ttl assigned).1 named)

theorem driver_lease_discipline (calls : List (Call Sender)) :
    let r := after newRegistry calls
    StoredGeneration r ∧ (∀ later, Advances r (after r later)) ∧ SightingsAdvance r ∧
      RenewalExtends r ∧ GoneForGood r ∧ LiveSeatUntouched r ∧ GrantsEligible r ∧ RoomsApart r := by
  intro r
  have stored : StoredGeneration r := reachable_stored calls
  refine ⟨stored, after_advances r, sightings_advance r stored, ?_, gone_for_good r stored,
    fun room userID now ttl lease => acquire_live r room userID now ttl lease,
    grants_eligible r, ?_⟩
  · intro room userID now ttl renewed
    obtain ⟨held, holds, live, same, -, exact⟩ := renew_exact r room userID now ttl renewed
    exact ⟨held, holds, live, same, by rw [exact], by rw [exact]⟩
  · intro call room different
    have same := apply_other r call room different
    exact ⟨congrArg Seat.lease same, congrArg Seat.generation same⟩

end Obligations
end PieRelay.DriverLease
