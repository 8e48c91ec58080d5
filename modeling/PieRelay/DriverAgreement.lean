import PieRelay.Executions
import PieRelay.DriverLease

/-!
Who the host daemon believes to be the driver. Every handler of
server/internal/relay/server.go that moves the seat does so in one critical
section of the registry, looks the host up in a second one and enqueues its
set_driver frame after that, holding no lock in between:

* set_driver frames and the control-plane endpoint (`setDriver`),
* driver_request and a control participant's connect (`acquireDriver`),
* the disconnect of a driver (`releaseDriver`),
* a connecting host, which is registered first and told the driver afterwards.

The handlers of one room interleave freely. A frame is represented by the user
it names.
-/
namespace PieRelay.DriverAgreement
open Function Executions RoomRegistry DriverLease Option

inductive Handler where
  | idle
  | lookup (userID : String)
  | enqueue (host : Nat) (userID : String)
  | connected (host : Nat)
  deriving DecidableEq

structure World where
  reg : Registry Nat
  handlers : Nat → Handler
  sent : Nat → List String
  shut : Nat → Bool
  nextHost : Nat

def initial : World where
  reg := newRegistry
  handlers := fun _ => .idle
  sent := fun _ => []
  shut := fun _ => false
  nextHost := 0

inductive Action where
  | setDriver (handler : Nat) (userID : String) (now : Time) (ttl : Duration)
  | acquireDriver (handler : Nat) (userID : String) (now : Time) (ttl : Duration)
  | releaseDriver (handler : Nat) (userID : String) (now : Time)
  | renewDriver (userID : String) (now : Time) (ttl : Duration)
  | lookDriver (now : Time)
  | lookupHost (handler : Nat)
  | enqueueFrame (handler : Nat)
  | registerHost (handler : Nat)
  | tellHost (handler : Nat) (now : Time)
  | unregisterHost (host : Nat)
  | shutdownHost (host : Nat)
  | registerParticipant (s : Nat) (p : Participant) (limit : Int) (clock : Time)
  | unregisterParticipant (s : Nat)

def Action.now : Action → Option Time
  | .setDriver _ _ now _ => some now
  | .acquireDriver _ _ now _ => some now
  | .releaseDriver _ _ now => some now
  | .renewDriver _ now _ => some now
  | .lookDriver now => some now
  | .tellHost _ now => some now
  | _ => none

variable (room : String)

def seated (w : World) : String := ((w.reg.drivers room).map DriverLease.userID).getD ""

def told (w : World) (host : Nat) : String := (w.sent host).getLast?.getD ""

def moveSeat (w : World) (handler : Nat) (outcome : Registry Nat × DriverLease × Bool) :
    Option World :=
  match w.handlers handler with
  | .idle =>
    let w := { w with reg := outcome.1 }
    if outcome.2.2 then
      some { w with handlers := update w.handlers handler (.lookup outcome.2.1.userID) }
    else some w
  | _ => none

def step (w : World) : Action → Option World
  | .setDriver handler userID now ttl =>
    moveSeat w handler (RoomRegistry.setDriver w.reg room userID now ttl)
  | .acquireDriver handler userID now ttl =>
    moveSeat w handler (acquireDriverIfFree w.reg room userID now ttl)
  | .releaseDriver handler userID now =>
    moveSeat w handler (releaseDriverIfAbsent w.reg room userID now)
  | .renewDriver userID now ttl =>
    some { w with reg := (RoomRegistry.renewDriver w.reg room userID now ttl).1 }
  | .lookDriver now => some { w with reg := (driver w.reg room now).1 }
  | .lookupHost handler =>
    match w.handlers handler with
    | .lookup userID =>
      match hostFor w.reg room with
      | some host => some { w with handlers := update w.handlers handler (.enqueue host userID) }
      | none => some { w with handlers := update w.handlers handler .idle }
    | _ => none
  | .enqueueFrame handler =>
    match w.handlers handler with
    | .enqueue host userID =>
      let w := { w with handlers := update w.handlers handler .idle }
      -- A sender that is shut refuses the frame; the caller ignores the error.
      if w.shut host then some w
      else some { w with sent := update w.sent host (w.sent host ++ [userID]) }
    | _ => none
  | .registerHost handler =>
    match w.handlers handler with
    | .idle =>
      some { w with
        reg := (registerHostWithEpoch w.reg room w.nextHost).1
        handlers := update w.handlers handler (.connected w.nextHost)
        nextHost := w.nextHost + 1 }
    | _ => none
  | .tellHost handler now =>
    match w.handlers handler with
    | .connected host =>
      let (reg, lease, ok) := driver w.reg room now
      some { w with
        reg := reg
        handlers := update w.handlers handler (if ok then .enqueue host lease.userID else .idle) }
    | _ => none
  | .unregisterHost host => some { w with reg := RoomRegistry.unregisterHost w.reg room host }
  | .shutdownHost host => some { w with shut := update w.shut host true }
  | .registerParticipant s p limit clock =>
    some { w with reg := (tryRegisterParticipant w.reg room s p limit clock).1 }
  | .unregisterParticipant s =>
    some { w with reg := RoomRegistry.unregisterParticipant w.reg room s }

def Unexpired (w : World) (action : Action) : Prop :=
  ∀ now, action.now = some now → ∀ lease, w.reg.drivers room = some lease → now < lease.expiresAt

def Owes (w : World) (handler host : Nat) : Prop :=
  match w.handlers handler with
  | .idle => False
  | .lookup userID => userID = seated room w
  | .enqueue target userID => target = host ∧ userID = seated room w
  | .connected target => target = host ∧ (w.reg.drivers room).isSome

/-- A frame that no longer names the seated user is enqueued only while the handler of
    the newer seat operation still has to enqueue its own. -/
def InOrder (w : World) (action : Action) : Prop :=
  ∀ handler host userID, action = .enqueueFrame handler →
    w.handlers handler = .enqueue host userID →
    userID = seated room w ∨ ∃ other, other ≠ handler ∧ Owes room w other host

def Quiet (w : World) : Prop :=
  (∀ handler, w.handlers handler = .idle) ∧
    ∀ host, w.reg.hosts room = some host → w.shut host = false

def Agrees (w : World) : Prop :=
  ∀ host, w.reg.hosts room = some host → told w host = seated room w

/-- The current host has heard of the seated user, or some handler is about to tell it. -/
def Informed (w : World) : Prop :=
  ∀ host, w.reg.hosts room = some host → w.shut host = false →
    told w host = seated room w ∨ ∃ handler, Owes room w handler host

def Handler.target : Handler → Option Nat
  | .enqueue host _ => some host
  | .connected host => some host
  | _ => none

structure Numbered (w : World) : Prop where
  unused : ∀ host, w.nextHost ≤ host → w.sent host = []
  registered : ∀ host, w.reg.hosts room = some host → host < w.nextHost
  aimed : ∀ handler host, (w.handlers handler).target = some host → host < w.nextHost

structure Settles (r : Registry Nat) (outcome : Registry Nat × DriverLease × Bool) : Prop where
  hosts : outcome.1.hosts = r.hosts
  seated : outcome.2.2 →
    ((outcome.1.drivers room).map DriverLease.userID).getD "" = outcome.2.1.userID
  untouched : outcome.2.2 = false → outcome.1.drivers room = r.drivers room

variable {room}

theorem set_settles (r : Registry Nat) (userID : String) (now : Time) (ttl : Duration) :
    Settles room r (RoomRegistry.setDriver r room userID now ttl) where
  hosts := by
    unfold RoomRegistry.setDriver
    split
    · rfl
    · dsimp only
      split <;> rfl
  seated := fun assigned => by
    obtain ⟨-, named, -, held⟩ := set_exact r room userID now ttl assigned
    rw [held, named]
    split <;> simp_all
  untouched := fun refused => by
    unfold RoomRegistry.setDriver at refused ⊢
    split
    · rfl
    · rename_i admitted
      rw [if_neg admitted] at refused
      dsimp only at refused
      split at refused <;> simp at refused

section Live
variable (r : Registry Nat) (userID : String) (now : Time) (ttl : Duration)
  (unexpired : ∀ lease, r.drivers room = some lease → now < lease.expiresAt)
include unexpired

theorem current_unexpired : (currentDriverLocked r room now).1 = r := by
  cases held : r.drivers room with
  | none => rw [current_vacant r room now held]
  | some lease => rw [current_live r room now lease held (unexpired lease held)]

theorem acquire_settles : Settles room r (acquireDriverIfFree r room userID now ttl) where
  hosts := by
    simp only [acquireDriverIfFree, current_unexpired r now unexpired]
    split
    · rfl
    · split <;> rfl
  seated := fun acquired => by
    obtain ⟨-, -, held⟩ := acquire_exact r room userID now ttl acquired
    simp [held]
  untouched := fun refused => by
    simp only [acquireDriverIfFree, current_unexpired r now unexpired] at refused ⊢
    split
    · rfl
    · rename_i free
      rw [if_neg free] at refused
      split
      · rfl
      · rename_i eligible
        rw [if_neg eligible] at refused
        simp at refused

theorem release_settles : Settles room r (releaseDriverIfAbsent r room userID now) where
  hosts := by
    simp only [releaseDriverIfAbsent, current_unexpired r now unexpired]
    split
    · rfl
    · split <;> rfl
  seated := fun released => by
    have empty := (release_exact r room userID now released).1
    unfold releaseDriverIfAbsent at released empty ⊢
    split at released
    · simp at released
    · rename_i absent
      dsimp only at released
      split at released
      · simp at released
      · rename_i admitted
        rw [if_neg absent] at empty ⊢
        dsimp only at empty ⊢
        rw [if_neg admitted] at empty ⊢
        simp
  untouched := fun refused => by
    simp only [releaseDriverIfAbsent, current_unexpired r now unexpired] at refused ⊢
    split
    · rfl
    · rename_i present
      rw [if_neg present] at refused
      split
      · rfl
      · rename_i held
        rw [if_neg held] at refused
        simp at refused

theorem renew_seated : (RoomRegistry.renewDriver r room userID now ttl).1.hosts = r.hosts ∧
      ((RoomRegistry.renewDriver r room userID now ttl).1.drivers room).map DriverLease.userID =
        (r.drivers room).map DriverLease.userID := by
  cases renewed : (RoomRegistry.renewDriver r room userID now ttl).2.2 with
  | true =>
    obtain ⟨held, holds, -, -, -, exact⟩ := renew_exact r room userID now ttl renewed
    simp [exact, holds]
  | false =>
    simp only [RoomRegistry.renewDriver, current_unexpired r now unexpired] at renewed ⊢
    split
    · exact ⟨rfl, rfl⟩
    · rename_i admitted
      rw [if_neg admitted] at renewed
      simp at renewed

end Live

def holder (w : World) : Option String := (w.reg.drivers room).map DriverLease.userID

section
variable (w next : World)
include w next

theorem owes_kept (handler host : Nat) (seat : @holder room next = @holder room w)
    (place : next.handlers handler = w.handlers handler) (owes : Owes room w handler host) :
    Owes room next handler host := by
  have same : seated room next = seated room w := congrArg (getD · "") seat
  have filled : (next.reg.drivers room).isSome = (w.reg.drivers room).isSome := by
    simpa [holder] using congrArg isSome seat
  unfold Owes at owes ⊢
  rw [place, same, filled]
  exact owes

-- Steps that leave seat, frames and the handlers in flight alone.
theorem informed_kept (informed : Informed room w) (seat : @holder room next = @holder room w)
    (hosts : ∀ host, next.reg.hosts room = some host → w.reg.hosts room = some host)
    (sent : next.sent = w.sent) (shut : ∀ host, next.shut host = false → w.shut host = false)
    (handlers : next.handlers = w.handlers) : Informed room next := by
  intro host current working
  have same : seated room next = seated room w := congrArg (getD · "") seat
  rcases informed host (hosts host current) (shut host working) with heard | ⟨handler, owes⟩
  · refine Or.inl ?_
    rw [same, ← heard, told, told, sent]
  · exact Or.inr ⟨handler, owes_kept w next handler host seat (by rw [handlers]) owes⟩

theorem move_seat_informed (handler : Nat) (outcome : Registry Nat × DriverLease × Bool) (informed : Informed room w)
    (settles : Settles room w.reg outcome) (stepped : moveSeat w handler outcome = some next) :
    Informed room next := by
  unfold moveSeat at stepped
  split at stepped <;> try contradiction
  cases moved : outcome.2.2 with
  | false =>
    simp only [moved, Bool.false_eq_true, ↓reduceIte, some.injEq] at stepped
    subst stepped
    have seat := settles.untouched moved
    refine informed_kept w _ informed (by simp [holder, seat]) ?_ rfl (fun _ working => working) rfl
    intro host current
    simpa [settles.hosts] using current
  | true =>
    simp only [moved, ↓reduceIte, some.injEq] at stepped
    subst stepped
    refine fun host _ _ => Or.inr ⟨handler, ?_⟩
    simpa [Owes, seated] using (settles.seated moved).symm

theorem lookup_informed (handler : Nat) (informed : Informed room w)
    (stepped : step room w (.lookupHost handler) = some next) : Informed room next := by
  simp only [step] at stepped
  split at stepped <;> try contradiction
  rename_i here
  split at stepped
  · rename_i target found
    cases stepped
    intro host current working
    have registered : w.reg.hosts room = some host := current
    have only : target = host := by simpa [hostFor, registered, eq_comm] using found
    rcases informed host current working with heard | ⟨owner, owes⟩
    · exact Or.inl heard
    · refine Or.inr ⟨owner, ?_⟩
      by_cases mine : owner = handler
      · subst mine
        simp only [Owes, here] at owes
        simpa [Owes, only, seated] using owes
      · exact owes_kept w _ owner host rfl (by simp [mine]) owes
  · rename_i absent
    cases stepped
    intro host current
    have registered : w.reg.hosts room = some host := current
    simp [hostFor, registered] at absent

theorem enqueue_informed (handler : Nat) (informed : Informed room w) (order : InOrder room w (.enqueueFrame handler))
    (stepped : step room w (.enqueueFrame handler) = some next) : Informed room next := by
  simp only [step] at stepped
  split at stepped <;> try contradiction
  rename_i target userID here
  split at stepped
  · rename_i refused
    cases stepped
    intro host current working
    have away : target ≠ host := by
      intro same
      subst same
      simp_all
    rcases informed host current working with heard | ⟨owner, owes⟩
    · exact Or.inl heard
    · refine Or.inr ⟨owner, owes_kept w _ owner host rfl ?_ owes⟩
      have other : owner ≠ handler := by
        intro mine
        subst mine
        simp only [Owes, here] at owes
        exact away owes.1
      simp [other]
  · cases stepped
    intro host current working
    by_cases same : target = host
    · subst same
      -- The frame is the last one this host has been sent.
      rcases order handler target userID rfl here with current' | ⟨owner, other, owes⟩
      · exact Or.inl (by simpa [told, seated] using current')
      · exact Or.inr ⟨owner, owes_kept w _ owner target rfl (by simp [other]) owes⟩
    · rcases informed host current working with heard | ⟨owner, owes⟩
      · refine Or.inl ?_
        simpa [told, Ne.symm same, seated] using heard
      · refine Or.inr ⟨owner, owes_kept w _ owner host rfl ?_ owes⟩
        have other : owner ≠ handler := by
          intro mine
          subst mine
          simp only [Owes, here] at owes
          exact same owes.1
        simp [other]

theorem register_informed (handler : Nat) (numbered : Numbered room w)
    (stepped : step room w (.registerHost handler) = some next) : Informed room next := by
  simp only [step] at stepped
  split at stepped <;> try contradiction
  cases stepped
  intro host current _
  have newest : w.nextHost = host := by simpa [registerHostWithEpoch] using current
  subst newest
  cases held : w.reg.drivers room with
  | none =>
    refine Or.inl ?_
    simp [told, seated, registerHostWithEpoch, held, numbered.unused w.nextHost (Nat.le_refl _)]
  | some =>
    exact Or.inr ⟨handler, by simp [Owes, registerHostWithEpoch, held]⟩

theorem tell_informed (handler : Nat) (now : Time) (informed : Informed room w)
    (unexpired : Unexpired room w (.tellHost handler now))
    (stepped : step room w (.tellHost handler now) = some next) : Informed room next := by
  have live := unexpired now rfl
  have same := current_unexpired w.reg now live
  simp only [step, driver] at stepped
  split at stepped <;> try contradiction
  rename_i here
  cases stepped
  intro host current working
  simp only [same] at current ⊢
  rcases informed host current working with heard | ⟨owner, owes⟩
  · exact Or.inl heard
  · refine Or.inr ⟨owner, ?_⟩
    by_cases mine : owner = handler
    · subst mine
      simp only [Owes, here] at owes
      obtain ⟨lease, held⟩ := isSome_iff_exists.mp owes.2
      simp [Owes, seated, current_live w.reg room now lease held (live lease held), held, owes.1]
    · exact owes_kept w _ owner host rfl (by simp [mine]) owes

theorem numbered_kept (numbered : Numbered room w)
    (hosts : ∀ host, next.reg.hosts room = some host → w.reg.hosts room = some host)
    (sent : next.sent = w.sent) (count : next.nextHost = w.nextHost)
    (aimed : ∀ handler host, (next.handlers handler).target = some host → host < w.nextHost) :
    Numbered room next where
  unused := by rw [sent, count]; exact numbered.unused
  registered := fun host current => by rw [count]; exact numbered.registered host (hosts host current)
  aimed := by rw [count]; exact aimed

end

theorem aimed_moved (w : World) (numbered : Numbered room w) (handler : Nat) (place : Handler)
    (fits : ∀ host, place.target = some host → host < w.nextHost) (other host : Nat) :
    (update w.handlers handler place other).target = some host → host < w.nextHost :=
  (forall_update_iff w.handlers fun _ p => ∀ host, p.target = some host → host < w.nextHost).mpr
    ⟨fits, fun another _ => numbered.aimed another⟩ other host

section
variable (w next : World) (handler : Nat)
include w next handler

theorem move_seat_numbered (outcome : Registry Nat × DriverLease × Bool) (numbered : Numbered room w)
    (settles : Settles room w.reg outcome) (stepped : moveSeat w handler outcome = some next) :
    Numbered room next := by
  have hosts : ∀ host, outcome.1.hosts room = some host → w.reg.hosts room = some host := by
    intro host current
    simpa [settles.hosts] using current
  unfold moveSeat at stepped
  split at stepped <;> try contradiction
  dsimp only at stepped
  split at stepped
  · cases stepped
    exact numbered_kept w _ numbered hosts rfl rfl (aimed_moved w numbered handler _ (by simp [Handler.target]))
  · cases stepped
    exact numbered_kept w _ numbered hosts rfl rfl numbered.aimed

theorem frames_numbered (numbered : Numbered room w)
    (stepped : step room w (.enqueueFrame handler) = some next) : Numbered room next := by
  simp only [step] at stepped
  split at stepped <;> try contradiction
  rename_i target userID here
  have known : target < w.nextHost := numbered.aimed handler target (by simp [here, Handler.target])
  have aimed := aimed_moved w numbered handler .idle (by simp [Handler.target])
  split at stepped
  · cases stepped
    exact numbered_kept w _ numbered (fun _ current => current) rfl rfl aimed
  · cases stepped
    refine ⟨?_, numbered.registered, aimed⟩
    intro host unused
    have other : host ≠ target := by
      have least : w.nextHost ≤ host := unused
      omega
    simpa [other] using numbered.unused host unused

theorem register_numbered (numbered : Numbered room w)
    (stepped : step room w (.registerHost handler) = some next) : Numbered room next := by
  simp only [step] at stepped
  split at stepped <;> try contradiction
  cases stepped
  refine ⟨fun host unused => numbered.unused host (Nat.le_of_succ_le unused), ?_, ?_⟩
  · intro host current
    have newest : w.nextHost = host := by simpa [registerHostWithEpoch] using current
    exact newest ▸ Nat.lt_succ_self _
  · refine (forall_update_iff w.handlers fun _ p => ∀ host, p.target = some host → host < w.nextHost + 1).mpr ⟨?_, ?_⟩
    · simp [Handler.target]
    · intro other _ host there
      exact Nat.lt_succ_of_lt (numbered.aimed other host there)

theorem lookup_numbered (numbered : Numbered room w)
    (stepped : step room w (.lookupHost handler) = some next) : Numbered room next := by
  simp only [step] at stepped
  split at stepped <;> try contradiction
  split at stepped
  · rename_i host found
    cases stepped
    refine numbered_kept w _ numbered (fun _ current => current) rfl rfl (aimed_moved w numbered handler _ ?_)
    intro target aimed
    cases aimed
    exact numbered.registered host found
  · cases stepped
    exact numbered_kept w _ numbered (fun _ current => current) rfl rfl
      (aimed_moved w numbered handler _ (by simp [Handler.target]))

theorem tell_numbered (now : Time) (numbered : Numbered room w) (unexpired : Unexpired room w (.tellHost handler now))
    (stepped : step room w (.tellHost handler now) = some next) : Numbered room next := by
  simp only [step, driver] at stepped
  split at stepped <;> try contradiction
  rename_i host here
  cases stepped
  have same := current_unexpired w.reg now (unexpired now rfl)
  refine numbered_kept w _ numbered ?_ rfl rfl (aimed_moved w numbered handler _ ?_)
  · intro target current
    simpa [same] using current
  · intro target aimed
    refine numbered.aimed handler target ?_
    split at aimed <;> simp_all [Handler.target]

end

-- Calls of the registry that neither move the seat nor register a host.
theorem registry_replaced (w : World) (reg : Registry Nat) (numbered : Numbered room w) (informed : Informed room w)
    (hosts : ∀ host, reg.hosts room = some host → w.reg.hosts room = some host)
    (seat : (reg.drivers room).map DriverLease.userID = @holder room w) :
    Numbered room { w with reg := reg } ∧ Informed room { w with reg := reg } :=
  ⟨numbered_kept w _ numbered hosts rfl rfl numbered.aimed,
    informed_kept w _ informed seat hosts rfl (fun _ working => working) rfl⟩

theorem seat_moved (w next : World) (handler : Nat) (outcome : Registry Nat × DriverLease × Bool)
    (numbered : Numbered room w) (informed : Informed room w)
    (settles : Settles room w.reg outcome) (stepped : moveSeat w handler outcome = some next) :
    Numbered room next ∧ Informed room next :=
  ⟨move_seat_numbered w next handler outcome numbered settles stepped,
    move_seat_informed w next handler outcome informed settles stepped⟩

def Admitted (room : String) (w : World) (action : Action) : Prop :=
  Unexpired room w action ∧ InOrder room w action

theorem step_informed (w : World) (action : Action) (next : World)
    (admitted : Admitted room w action) (invariant : Numbered room w ∧ Informed room w)
    (stepped : step room w action = some next) : Numbered room next ∧ Informed room next := by
  obtain ⟨unexpired, order⟩ := admitted
  obtain ⟨numbered, informed⟩ := invariant
  cases action with
  | setDriver handler userID now ttl =>
    have settles := @set_settles room w.reg userID now ttl
    exact seat_moved w next handler _ numbered informed settles stepped
  | acquireDriver handler userID now ttl =>
    have settles := acquire_settles w.reg userID now ttl (unexpired now rfl)
    exact seat_moved w next handler _ numbered informed settles stepped
  | releaseDriver handler userID now =>
    have settles := release_settles w.reg userID now (unexpired now rfl)
    exact seat_moved w next handler _ numbered informed settles stepped
  | renewDriver userID now ttl =>
    obtain ⟨hosts, seat⟩ := renew_seated w.reg userID now ttl (unexpired now rfl)
    cases stepped
    refine registry_replaced w _ numbered informed ?_ seat
    intro host current
    simpa [hosts] using current
  | lookDriver now =>
    have same : (driver w.reg room now).1 = w.reg := current_unexpired w.reg now (unexpired now rfl)
    cases stepped
    rw [same]
    exact ⟨numbered, informed⟩
  | lookupHost handler =>
    exact ⟨lookup_numbered w next handler numbered stepped, lookup_informed w next handler informed stepped⟩
  | enqueueFrame handler =>
    exact ⟨frames_numbered w next handler numbered stepped, enqueue_informed w next handler informed order stepped⟩
  | registerHost handler =>
    exact ⟨register_numbered w next handler numbered stepped, register_informed w next handler numbered stepped⟩
  | tellHost handler now =>
    exact ⟨tell_numbered w next handler now numbered unexpired stepped,
      tell_informed w next handler now informed unexpired stepped⟩
  | unregisterHost host =>
    cases stepped
    refine registry_replaced w _ numbered informed ?_ ?_
    · exact unregister_host_kept w.reg room host
    · rw [unregister_host_drivers, holder]
  | shutdownHost host =>
    cases stepped
    refine ⟨numbered_kept w _ numbered (fun _ current => current) rfl rfl numbered.aimed,
      informed_kept w _ informed rfl (fun _ current => current) rfl ?_ rfl⟩
    intro other working
    by_cases same : other = host
    · simp [same] at working
    · simpa [same] using working
  | registerParticipant =>
    cases stepped
    refine registry_replaced w _ numbered informed ?_ ?_
    · rw [try_register_hosts]
      exact fun _ current => current
    · rw [try_register_drivers, holder]
  | unregisterParticipant =>
    cases stepped
    refine registry_replaced w _ numbered informed ?_ ?_
    · rw [unregister_hosts]
      exact fun _ current => current
    · rw [unregister_drivers, holder]

theorem initial_informed : Numbered room initial ∧ Informed room initial :=
  ⟨⟨fun _ _ => rfl, by simp [initial, newRegistry], by simp [initial, Handler.target]⟩,
    by intro host current; simp [initial, newRegistry] at current⟩

/-- In every run whose frames are enqueued in the order of the seat operations, the
    registered host has last been told the seated user whenever all handlers are done. -/
theorem driver_agreement_in_order (room : String) (actions : List Action) (w : World)
    (ran : run (step room) initial actions = some w)
    (admitted : Guarded (step room) (Admitted room) initial actions) (quiet : Quiet room w) :
    Agrees room w := by
  have informed := (guarded_run_invariant (fun w => Numbered room w ∧ Informed room w)
    step_informed admitted ran initial_informed).2
  intro host current
  rcases informed host current (quiet.2 host current) with heard | ⟨handler, owes⟩
  · exact heard
  · simp [Owes, quiet.1 handler] at owes

def unexpiredCheck (room : String) (w : World) (action : Action) : Bool :=
  match action.now, w.reg.drivers room with
  | some now, some lease => decide (now < lease.expiresAt)
  | _, _ => true

theorem unexpired_check (room : String) (w : World) (action : Action)
    (passed : unexpiredCheck room w action) : Unexpired room w action := by
  intro now clock lease held
  simpa [unexpiredCheck, clock, held] using passed

def currentCheck (room : String) (w : World) (action : Action) : Bool :=
  unexpiredCheck room w action &&
    match action with
    | .enqueueFrame handler =>
      match w.handlers handler with
      | .enqueue _ userID => userID == seated room w
      | _ => true
    | _ => true

theorem current_check (room : String) (w : World) (action : Action)
    (passed : currentCheck room w action) : Admitted room w action := by
  simp only [currentCheck, Bool.and_eq_true] at passed
  refine ⟨unexpired_check room w action passed.1, ?_⟩
  intro handler host userID enqueued here
  subst enqueued
  exact Or.inl (by simpa [here] using passed.2)

def controller (userID : String) : Participant := ⟨userID, roleParticipant, accessControl, userID, 1⟩

def handoff : List Action :=
  [.registerHost 0, .tellHost 0 1, .registerParticipant 5 (controller "ann") 64 1,
    .setDriver 1 "ann" 2 20, .lookupHost 1, .enqueueFrame 1]

theorem driver_agreement_handoff : ∃ w, run (step "room") initial handoff = some w ∧ seated "room" w = "ann" ∧
      Agrees "room" w := by
  refine ⟨_, rfl, rfl, ?_⟩
  refine driver_agreement_in_order "room" handoff _ rfl
    (checked_guarded (currentCheck "room") (current_check "room") initial handoff rfl) ⟨?_, ?_⟩
  · intro handler
    match handler with
    | 0 => rfl
    | 1 => rfl
    | n + 2 => rfl
  · intro host current
    cases current
    rfl

def crossed : List Action :=
  [.registerHost 0, .tellHost 0 1, .registerParticipant 5 (controller "ann") 64 1,
    .registerParticipant 6 (controller "bob") 64 1, .setDriver 1 "ann" 2 20,
    .setDriver 2 "bob" 3 20, .lookupHost 1, .lookupHost 2, .enqueueFrame 2, .enqueueFrame 1]

theorem driver_agreement_crossed : ¬ ∀ (room : String) (actions : List Action) (w : World),
      run (step room) initial actions = some w →
      Guarded (step room) (Unexpired room) initial actions → Quiet room w → Agrees room w := by
  intro claimed
  have disagreed := claimed "room" crossed _ rfl
    (checked_guarded (unexpiredCheck "room") (unexpired_check "room") initial crossed rfl) ⟨?_, ?_⟩ 0 rfl
  · exact absurd disagreed (by decide)
  · intro handler
    match handler with
    | 0 | 1 | 2 => rfl
    | n + 3 => rfl
  · intro host current
    cases current
    rfl

end PieRelay.DriverAgreement
