import PieRelay.PresenceHandler

/-!
Whether the client of a device is connected. The relay reports the host of each session; a
device may have several, and `ApplyRelayPresence` writes what the last event says of its own
session into the one flag of the device. The reconciler reads the device, observes the
container, and writes the flag it has read. An event counts as applied when its handler has
written the device or found that it need not.
-/
namespace PieRelay.DeviceProjection
open Function Executions ControlPlane PresenceHandler List Option
open SessionHistory (Call)
open DeviceDrain (registerDevice)
open RelayToken (bind_ok)
open RoomRegistry (Time)

def sameSession (deviceID sessionID : String) (event : PresenceEvent) : Bool :=
  event.deviceID = deviceID ∧ event.sessionID = sessionID

def sessionOnline (applied : List PresenceEvent) (deviceID sessionID : String) : Bool :=
  (applied.find? (sameSession deviceID sessionID)).any fun event => event.hostOnline

def deviceOnline (applied : List PresenceEvent) (deviceID : String) : Bool :=
  applied.any fun event => event.deviceID = deviceID ∧ sessionOnline applied deviceID event.sessionID

def onlineElsewhere (applied : List PresenceEvent) (event : PresenceEvent) : Bool :=
  applied.any fun other => other.deviceID = event.deviceID ∧ other.sessionID ≠ event.sessionID ∧
    sessionOnline applied event.deviceID other.sessionID

section Events
variable {applied : List PresenceEvent} {deviceID sessionID : String} {event : PresenceEvent}

theorem session_online_cons : sessionOnline (event :: applied) deviceID sessionID =
    if sameSession deviceID sessionID event then event.hostOnline
    else sessionOnline applied deviceID sessionID := by
  unfold sessionOnline
  rw [find?_cons]
  cases sameSession deviceID sessionID event <;> rfl

theorem online_member (online : sessionOnline applied deviceID sessionID) :
    ∃ event ∈ applied, event.deviceID = deviceID ∧ event.sessionID = sessionID := by
  unfold sessionOnline at online
  cases last : applied.find? (sameSession deviceID sessionID) with
  | none =>
    rw [last] at online
    cases online
  | some event =>
    have same : sameSession deviceID sessionID event := find?_some last
    exact ⟨event, mem_of_find?_eq_some last, by simpa [sameSession] using same⟩

theorem device_online_iff : deviceOnline applied deviceID ↔ ∃ sessionID, sessionOnline applied deviceID sessionID := by
  simp only [deviceOnline, List.any_eq_true, decide_eq_true_eq]
  constructor
  · rintro ⟨event, -, -, online⟩
    exact ⟨event.sessionID, online⟩
  · rintro ⟨sessionID, online⟩
    obtain ⟨event, member, device, session⟩ := online_member online
    exact ⟨event, member, device, session ▸ online⟩

theorem online_elsewhere_iff : onlineElsewhere applied event ↔
    ∃ sessionID, sessionID ≠ event.sessionID ∧ sessionOnline applied event.deviceID sessionID := by
  simp only [onlineElsewhere, List.any_eq_true, decide_eq_true_eq]
  constructor
  · rintro ⟨other, -, -, different, online⟩
    exact ⟨other.sessionID, different, online⟩
  · rintro ⟨sessionID, different, online⟩
    obtain ⟨other, member, device, session⟩ := online_member online
    exact ⟨other, member, device, session ▸ different, session ▸ online⟩

theorem device_online_cons :
    deviceOnline (event :: applied) event.deviceID = (event.hostOnline || onlineElsewhere applied event) := by
  rw [Bool.eq_iff_iff, device_online_iff, Bool.or_eq_true, online_elsewhere_iff]
  constructor
  · rintro ⟨sessionID, online⟩
    rw [session_online_cons] at online
    by_cases own : event.sessionID = sessionID
    · rw [if_pos (by simp [sameSession, own])] at online
      exact Or.inl online
    · rw [if_neg (by simp [sameSession, own])] at online
      exact Or.inr ⟨sessionID, fun same => own same.symm, online⟩
  · rintro (online | ⟨sessionID, different, online⟩)
    · refine ⟨event.sessionID, ?_⟩
      rw [session_online_cons, if_pos (by simp [sameSession])]
      exact online
    · refine ⟨sessionID, ?_⟩
      rw [session_online_cons, if_neg (by simp [sameSession, different.symm])]
      exact online

theorem device_online_other (different : deviceID ≠ event.deviceID) :
    deviceOnline (event :: applied) deviceID = deviceOnline applied deviceID := by
  have same : ∀ sessionID, sessionOnline (event :: applied) deviceID sessionID =
      sessionOnline applied deviceID sessionID := by
    intro sessionID
    rw [session_online_cons, if_neg (by simp [sameSession, different.symm])]
  rw [Bool.eq_iff_iff, device_online_iff, device_online_iff]
  simp only [same]

end Events

structure World where
  handlers : PresenceHandler.World
  applied : List PresenceEvent

def succeeds : Phase → Bool
  | .finishing _ _ => true
  | .ending _ succeeded => succeeded
  | _ => false

def appliedBy (before after : PresenceHandler.World) : Action → Option PresenceEvent
  | .advance call _ => match before.calls call with
    | .beating ticket _ _ => if succeeds (after.calls call) then some ticket.event else none
    | _ => none
  | _ => none

def filed (service : Service) : Bool := service.devices.entries.all fun entry => entry.2.id = entry.1

def orderly : Action → Bool
  | .advance _ m => filed m.call.service
  | _ => true

def step (w : World) (action : Action) : Option World :=
  if orderly action then (PresenceHandler.step w.handlers action).map fun next =>
    ⟨next, (appliedBy w.handlers next action).toList ++ w.applied⟩
  else none

/-- An event that says its host is offline is written only when no other session of the device is
    online, a heartbeat that is not written says nothing new, and the reconciler writes what it has
    read only while the events say the same. -/
def steady (w : World) : Action → Bool
  | .advance call m => match w.handlers.calls call with
    | .beating ticket device meaningfulChange =>
      if skipsHeartbeat m.call.now ticket.event device meaningfulChange then
        (ticket.event.hostOnline || onlineElsewhere w.applied ticket.event) =
          deviceOnline w.applied ticket.event.deviceID
      else ticket.event.hostOnline ∨ ¬ onlineElsewhere w.applied ticket.event
    | .registering _ device _ => device.clientConnected = deviceOnline w.applied device.id
    | .observing _ device => skipsObservation m.call.now device (runtimeHeartbeat device m.runtime) ∨
        device.clientConnected = deviceOnline w.applied device.id
    | _ => true
  | _ => true

def Projected (w : World) : Prop :=
  ∀ id device, w.handlers.records.devices.lookup id = some device →
    (device.clientConnected ↔ ∃ sessionID, sessionOnline w.applied id sessionID)

def Quiet (w : World) : Prop := ∀ call, w.handlers.calls call = .idle

def Placed : Phase → Prop
  | .putting ticket _ device _ => device.id = ticket.event.deviceID
  | .beating ticket device _ => device.id = ticket.event.deviceID
  | .registering executor device _ => device.id = executor.id
  | .observing executor device => device.id = executor.id
  | _ => True

structure Invariant (w : World) : Prop where
  agrees : ∀ id device, w.handlers.records.devices.lookup id = some device →
    device.clientConnected = deviceOnline w.applied id
  placed : ∀ call, Placed (w.handlers.calls call)

section Turns
variable {m : Moment} {phase : Phase}

theorem filed_lookup {s : Service} (known : filed s) {id : String} {device : Device}
    (there : s.devices.lookup id = some device) : device.id = id := by
  have entry := AList.mem_lookup_iff.mp (mem_def.mpr there)
  simpa using all_eq_true.mp known _ entry

theorem register_device_ok {s : Service} {now : Time} {device record : Device}
    (registered : registerDevice s now device = .ok record) :
    record.id = device.id ∧ record.clientConnected = device.clientConnected := by
  simp only [registerDevice, bind_ok, demand_ok, exists_const, pure, Except.pure, Except.ok.injEq] at registered
  obtain ⟨-, -, -, rfl⟩ := registered
  exact ⟨rfl, rfl⟩

theorem leads_placed (known : filed m.call.service) (placed : Placed phase) {after : Phase}
    (leads : Leads m phase after) : Placed after := by
  cases leads with
  | putting _ _ _ owned | unchanged _ _ _ owned =>
    exact filed_lookup known (filter_eq_some_iff.mp owned).1
  | put | unregistered => exact placed
  | created => exact rfl
  | adopted executor device there =>
    have named : device.id = executor.id := filed_lookup known there
    exact named
  | known executor device there => exact filed_lookup known there
  | registered executor device existed record registered =>
    exact (register_device_ok registered).1.trans placed
  | _ => trivial

theorem failed_placed (placed : Placed phase) {after : Phase} (gone : failed phase = some after) : Placed after := by
  cases phase with
  | registering executor device existed =>
    cases gone
    cases existed
    · trivial
    · exact placed
  | idle | waiting | ending => cases gone
  | _ =>
    cases gone
    trivial

theorem written_agrees {w : World} (agrees : ∀ id device, w.handlers.records.devices.lookup id = some device →
    device.clientConnected = deviceOnline w.applied id) {record : Device} {applied : List PresenceEvent}
    (own : record.clientConnected = deviceOnline applied record.id)
    (others : ∀ id, id ≠ record.id → deviceOnline applied id = deviceOnline w.applied id) (id : String)
    (device : Device) (stored : (w.handlers.records.devices.insert record.id record).lookup id = some device) :
    device.clientConnected = deviceOnline applied id := by
  by_cases here : id = record.id
  · subst here
    rw [AList.lookup_insert] at stored
    cases stored
    exact own
  · rw [AList.lookup_insert_ne here] at stored
    rw [others id here]
    exact agrees id device stored

end Turns

section Steps
variable {w next : World} {call : String} {m : Moment} {ticket : Ticket} {device : Device} {meaningfulChange : Bool}
variable {turn : Turn}

theorem beat_cases (turned : beat m ticket device meaningfulChange = some turn) :
    (skipsHeartbeat m.call.now ticket.event device meaningfulChange ∧ turn.change = .nothing ∧
      turn.accepted = .ending ticket true) ∨
    (skipsHeartbeat m.call.now ticket.event device meaningfulChange = false ∧
      ((∃ record force, heartbeatDevice m.call.service m.call.now device.id device.ownerUserID
          (hostHeartbeat m.call.service device ticket.event) = .ok record ∧ turn.change = .device record ∧
          turn.accepted = .finishing ticket force ∧ turn.refused = .ending ticket false) ∨
        turn.change = .nothing ∧ turn.accepted = .ending ticket false)) := by
  unfold beat at turned
  dsimp only at turned
  split at turned
  · rename_i skipped
    cases turned
    exact Or.inl ⟨skipped, rfl, rfl⟩
  · rename_i due
    refine Or.inr ⟨by simpa using due, ?_⟩
    split at turned
    · rename_i record beat
      cases turned
      exact Or.inl ⟨record, _, beat, rfl, rfl, rfl⟩
    · cases turned
      exact Or.inr ⟨rfl, rfl⟩

theorem moved_placed {handlers : PresenceHandler.World} (placed : ∀ call, Placed (handlers.calls call)) {phase : Phase}
    (here : Placed phase) (other : String) : Placed ((moveTo handlers call phase).calls other) := by
  by_cases own : other = call
  · subst own
    simpa only [moveTo, update_self] using here
  · simpa only [moveTo, update_of_ne own] using placed other

theorem settle_placed (known : filed m.call.service) (placed : ∀ call, Placed (w.handlers.calls call)) (turned : advance m (w.handlers.calls call) = some turn) (other : String) :
    Placed ((settle w.handlers call turn).calls other) := by
  have turns := advance_turns turned
  unfold settle
  split
  · exact moved_placed placed (leads_placed known (placed call) turns.accepted) other
  · exact moved_placed placed (leads_placed known (placed call) turns.refused) other

theorem applied_by_beat (phase : w.handlers.calls call = .beating ticket device meaningfulChange) (turn : Turn) :
    appliedBy w.handlers (settle w.handlers call turn) (.advance call m) =
      if succeeds (if fits w.handlers.records turn.change then turn.accepted else turn.refused)
      then some ticket.event else none := by
  simp only [appliedBy, phase]
  unfold settle
  split <;> simp [moveTo]

theorem beat_agrees (inv : Invariant w) (known : filed m.call.service)
    (phase : w.handlers.calls call = .beating ticket device meaningfulChange)
    (calm : steady w (.advance call m)) (turned : beat m ticket device meaningfulChange = some turn)
    (id : String) (stored : Device)
    (there : (settle w.handlers call turn).records.devices.lookup id = some stored) :
    stored.clientConnected = deviceOnline
      ((appliedBy w.handlers (settle w.handlers call turn) (.advance call m)).toList ++ w.applied) id := by
  rw [applied_by_beat phase]
  have own : device.id = ticket.event.deviceID := by
    have placed := inv.placed call
    rwa [phase] at placed
  simp only [steady, phase] at calm
  rcases beat_cases turned with ⟨skipped, same, after⟩ | ⟨due, ⟨record, force, beat, same, after, refused⟩ | ⟨same, after⟩⟩
  · rw [if_pos skipped, decide_eq_true_eq] at calm
    simp only [settle, same, fits, if_true, write, moveTo] at there
    simp only [same, fits, after, succeeds, if_true, toList_some, singleton_append]
    rw [inv.agrees id stored there]
    by_cases here : id = ticket.event.deviceID
    · rw [here, device_online_cons, calm]
    · rw [device_online_other here]
  · rw [if_neg (by simp [due])] at calm
    obtain ⟨before, knows, named, connected⟩ := heartbeat_device_ok beat
    have device : record.id = ticket.event.deviceID := by
      rw [named, filed_lookup known knows, own]
    by_cases taken : fits w.handlers.records (.device record)
    · simp only [settle, same, taken, if_true, write, moveTo] at there
      simp only [same, taken, after, succeeds, if_true, toList_some, singleton_append]
      refine written_agrees inv.agrees ?_ (fun other different => ?_) id stored there
      · rw [device, device_online_cons, connected]
        simp only [hostHeartbeat]
        cases online : ticket.event.hostOnline
        · simpa [online] using calm
        · rfl
      · rw [device] at different
        exact device_online_other different
    · simp only [settle, same, if_neg taken, moveTo] at there
      simp only [same, if_neg taken, refused, succeeds, Bool.false_eq_true, if_false, toList_none, nil_append]
      exact inv.agrees id stored there
  · simp only [settle, same, fits, if_true, write, moveTo] at there
    simp only [same, fits, after, succeeds, if_true, Bool.false_eq_true, if_false, toList_none, nil_append]
    exact inv.agrees id stored there

theorem applied_by_none (other : ∀ ticket device meaningfulChange,
    w.handlers.calls call ≠ .beating ticket device meaningfulChange) (after : PresenceHandler.World) :
    appliedBy w.handlers after (.advance call m) = none := by
  simp only [appliedBy]

theorem quiet_agrees (inv : Invariant w) (known : filed m.call.service)
    (other : ∀ ticket device meaningfulChange, w.handlers.calls call ≠ .beating ticket device meaningfulChange)
    (calm : steady w (.advance call m)) (turned : advance m (w.handlers.calls call) = some turn)
    (id : String) (stored : Device)
    (there : (settle w.handlers call turn).records.devices.lookup id = some stored) :
    stored.clientConnected = deviceOnline w.applied id := by
  unfold settle at there
  split at there
  · have hands := (advance_turns turned).hands
    have placed := inv.placed call
    simp only [steady] at calm
    generalize w.handlers.calls call = phase at hands placed calm other
    generalize turn.change = change at hands there
    cases hands with
    | registered executor device existed record registered =>
      obtain ⟨named, connected⟩ := register_device_ok registered
      rw [decide_eq_true_eq] at calm
      refine written_agrees inv.agrees ?_ (fun _ _ => rfl) id stored there
      rw [connected, calm, named]
    | observed executor device record due beat =>
      obtain ⟨before, knows, named, connected⟩ := heartbeat_device_ok beat
      simp only [due, Bool.false_eq_true, false_or, decide_eq_true_eq] at calm
      have own : device.id = executor.id := placed
      refine written_agrees inv.agrees ?_ (fun _ _ => rfl) id stored there
      rw [connected, named, filed_lookup known knows, ← own]
      exact calm
    | host ticket device meaningfulChange =>
      exact absurd rfl (other ticket device meaningfulChange)
    | session | nothing | node | participant | noParticipant => exact inv.agrees id stored there
  · exact inv.agrees id stored there

theorem advance_invariant (inv : Invariant w) (calm : steady w (.advance call m))
    (stepped : step w (.advance call m) = some next) : Invariant next := by
  unfold step at stepped
  split at stepped
  · rename_i known
    obtain ⟨after, moved, rfl⟩ := map_eq_some_iff.mp stepped
    simp only [PresenceHandler.step] at moved
    split at moved
    · obtain ⟨turn, turned, rfl⟩ := map_eq_some_iff.mp moved
      refine ⟨fun id stored there => ?_, settle_placed known inv.placed turned⟩
      by_cases beating : ∃ ticket device meaningfulChange,
          w.handlers.calls call = .beating ticket device meaningfulChange
      · obtain ⟨ticket, device, meaningfulChange, phase⟩ := beating
        rw [phase] at turned
        exact beat_agrees inv known phase calm turned id stored there
      · have other : ∀ ticket device meaningfulChange,
            w.handlers.calls call ≠ .beating ticket device meaningfulChange :=
          fun ticket device meaningfulChange phase => beating ⟨ticket, device, meaningfulChange, phase⟩
        rw [applied_by_none other]
        exact quiet_agrees inv known other calm turned id stored there
    · cases moved
  · cases stepped

theorem hand_on_devices (handlers : PresenceHandler.World) (writing : Call)
    (answer : Except ServiceError (Option Session)) :
    (handOn handlers writing answer).records.devices = handlers.records.devices ∧
      (handOn handlers writing answer).calls = handlers.calls := by
  unfold handOn
  split
  · split
    · split
      · exact ⟨rfl, rfl⟩
      · exact ⟨rfl, rfl⟩
    · exact ⟨rfl, rfl⟩
  · exact ⟨rfl, rfl⟩

-- Only a turn of a handler writes a device.
theorem other_devices {handlers after : PresenceHandler.World} {action : Action}
    (stepped : PresenceHandler.step handlers action = some after) (other : ∀ call m, action ≠ .advance call m)
    (placed : ∀ call, Placed (handlers.calls call)) :
    after.records.devices = handlers.records.devices ∧ ∀ call, Placed (after.calls call) := by
  cases action with
  | advance call m => exact absurd rfl (other call m)
  | begin call process event =>
    change begin handlers call process event = some after at stepped
    unfold begin at stepped
    split at stepped
    · split at stepped <;> cases stepped
      exact ⟨rfl, moved_placed placed trivial⟩
    · cases stepped
  | enter call =>
    change enter handlers call = some after at stepped
    unfold enter at stepped
    split at stepped
    · split at stepped
      · split at stepped
        · cases stepped
          exact ⟨rfl, moved_placed placed trivial⟩
        · cases stepped
          exact ⟨rfl, moved_placed placed trivial⟩
      · cases stepped
    · cases stepped
  | fail call =>
    obtain ⟨phase, gone, rfl⟩ := map_eq_some_iff.mp stepped
    exact ⟨rfl, moved_placed placed (failed_placed (placed call) gone)⟩
  | finish call =>
    change finish handlers call = some after at stepped
    unfold finish at stepped
    split at stepped
    · dsimp only at stepped
      split at stepped
      · cases stepped
        exact ⟨rfl, moved_placed placed trivial⟩
      · cases stepped
        exact ⟨rfl, moved_placed placed trivial⟩
    · cases stepped
  | report reading writing deviceID sessionID report =>
    simp only [PresenceHandler.step] at stepped
    split at stepped <;> cases stepped
    obtain ⟨devices, calls⟩ := hand_on_devices handlers writing
      (reportDeviceSessionStatus reading.service reading.now deviceID sessionID report)
    exact ⟨devices, calls ▸ placed⟩
  | close reading writing sessionID =>
    simp only [PresenceHandler.step] at stepped
    split at stepped <;> cases stepped
    obtain ⟨devices, calls⟩ := hand_on_devices handlers writing (closeControlSession reading.service sessionID)
    exact ⟨devices, calls ▸ placed⟩
  | reconcile call executor =>
    change reconcile handlers call executor = some after at stepped
    unfold reconcile at stepped
    split at stepped <;> cases stepped
    exact ⟨rfl, moved_placed placed trivial⟩

theorem step_invariant (action : Action) (calm : steady w action) (inv : Invariant w)
    (stepped : step w action = some next) : Invariant next := by
  by_cases turns : ∃ call m, action = .advance call m
  · obtain ⟨call, m, rfl⟩ := turns
    exact advance_invariant inv calm stepped
  · have other : ∀ call m, action ≠ .advance call m := fun call m same => turns ⟨call, m, same⟩
    unfold step at stepped
    split at stepped
    · obtain ⟨after, moved, rfl⟩ := map_eq_some_iff.mp stepped
      obtain ⟨devices, placed⟩ := other_devices moved other inv.placed
      have none : appliedBy w.handlers after action = none := by
        cases action with
        | advance call m => exact absurd rfl (other call m)
        | _ => rfl
      refine ⟨fun id device stored => ?_, placed⟩
      dsimp only at stored ⊢
      rw [devices] at stored
      rw [none]
      exact inv.agrees id device stored
    · cases stepped

theorem projected_iff : Projected w ↔ ∀ id device, w.handlers.records.devices.lookup id = some device →
    device.clientConnected = deviceOnline w.applied id := by
  refine forall_congr' fun id => forall_congr' fun device => imp_congr_right fun _ => ?_
  rw [← device_online_iff]
  exact Bool.eq_iff_iff.symm

end Steps

/-- In every run whose steps are steady, the flag of every device says in every state reached, and so
    whenever no handler is in progress, whether one of its sessions is online. -/
theorem steady_devices_projected (start w : World) (quiet : Quiet start) (projected : Projected start)
    (actions : List Action) (guarded : Guarded step (fun w action => steady w action) start actions)
    (ran : run step start actions = some w) : Projected w := by
  have first : Invariant start := by
    refine ⟨projected_iff.mp projected, fun call => ?_⟩
    rw [quiet call]
    trivial
  have inv : Invariant w := guarded_run_invariant Invariant
    (fun state action next calm inv stepped => step_invariant action calm inv stepped) guarded ran first
  exact projected_iff.mpr inv.agrees

def twoSessions : World where
  handlers :=
    { records :=
        { sessions := update (update (fun _ => []) "session-a" [createdSession]) "session-b"
            [{ createdSession with id := "session-b" }]
          nodes := ∅
          devices := AList.insert "desk" { desk with clientConnected := false } ∅
          participants := ∅ }
      windows := fun _ => Retention.empty
      applied := fun _ => []
      locks := fun _ => none
      calls := fun _ => .idle }
  applied := []

def running : RuntimeInstance := { noRuntime with observedState := "running", health := "healthy" }

def current (w : World) (now : Time) : Moment where
  call :=
    { service := { freshService with
        sessions := ["session-a", "session-b"].foldl (fun table id =>
          match w.handlers.records.sessions id with
          | newest :: _ => table.insert id newest
          | [] => table) ∅
        nodes := w.handlers.records.nodes
        devices := w.handlers.records.devices }
      now := now
      fresh := "" }
  granted := false
  runtime := running

def turn (now : Time) (w : World) : Action := .advance "h1" (current w now)

def delivered (event : PresenceEvent) (now : Time) : List (World → Action) :=
  [fun _ => .begin "h1" "m1" event, fun _ => .enter "h1"] ++ replicate 6 (turn now) ++ [fun _ => .finish "h1"]

def reconciled (now : Time) : List (World → Action) :=
  [fun _ => .reconcile "h1" ⟨"desk", "owner", false⟩] ++ replicate 3 (turn now)

def otherHost : PresenceEvent :=
  { hostEvent with eventID := "e2", sessionID := "session-b", connectionID := "c2" }

def otherLeft : PresenceEvent := { otherHost with eventID := "e3", hostOnline := false, connected := false }

theorem two_sessions_projected : Projected twoSessions := by
  refine projected_iff.mpr fun id device stored => ?_
  by_cases here : id = "desk"
  · subst here
    cases stored
    rfl
  · simp only [twoSessions, AList.lookup_insert_ne here, AList.lookup_empty] at stored
    cases stored

theorem both_hosts_projected : ∃ w, run step twoSessions
      (script step twoSessions (delivered hostEvent 10 ++ delivered otherHost 20 ++ reconciled 30)) = some w ∧
    (w.handlers.records.devices.lookup "desk").map Device.clientConnected = some true ∧ Projected w := by
  obtain ⟨w, ran, connected⟩ := map_eq_some_iff.mp (show (run step twoSessions
      (script step twoSessions (delivered hostEvent 10 ++ delivered otherHost 20 ++ reconciled 30))).map
      (fun w => (w.handlers.records.devices.lookup "desk").map Device.clientConnected) = some (some true) by
    decide +kernel)
  refine ⟨w, ran, connected, ?_⟩
  refine steady_devices_projected twoSessions w (fun _ => rfl) two_sessions_projected _ ?_ ran
  exact checked_guarded steady (fun _ _ passed => passed) _ _ (by decide +kernel)

def mover : Action → Option String
  | .begin call _ _ => some call
  | .enter call => some call
  | .advance call _ => some call
  | .fail call => some call
  | .finish call => some call
  | .reconcile call _ => some call
  | .report _ _ _ _ _ => none
  | .close _ _ _ => none

theorem others_stay {handlers after : PresenceHandler.World} {action : Action} {other : String}
    (stepped : PresenceHandler.step handlers action = some after) (apart : mover action ≠ some other) :
    after.calls other = handlers.calls other := by
  have stays : ∀ (w : PresenceHandler.World) (call : String) (phase : Phase), call ≠ other →
      (moveTo w call phase).calls other = w.calls other :=
    fun w call phase different => update_of_ne different.symm _ _
  cases action with
  | begin call process event =>
    change begin handlers call process event = some after at stepped
    unfold begin at stepped
    split at stepped
    · split at stepped <;> cases stepped
      exact stays _ call _ fun same => apart (congrArg some same)
    · cases stepped
  | enter call =>
    have different : call ≠ other := fun same => apart (congrArg some same)
    change enter handlers call = some after at stepped
    unfold enter at stepped
    split at stepped
    · split at stepped
      · split at stepped
        · cases stepped
          exact stays _ call _ different
        · cases stepped
          exact stays _ call _ different
      · cases stepped
    · cases stepped
  | advance call =>
    have different : call ≠ other := fun same => apart (congrArg some same)
    simp only [PresenceHandler.step] at stepped
    split at stepped
    · obtain ⟨turn, -, rfl⟩ := map_eq_some_iff.mp stepped
      unfold settle
      split
      · exact stays _ call _ different
      · exact stays _ call _ different
    · cases stepped
  | fail call =>
    obtain ⟨phase, -, rfl⟩ := map_eq_some_iff.mp stepped
    exact stays _ call _ fun same => apart (congrArg some same)
  | finish call =>
    have different : call ≠ other := fun same => apart (congrArg some same)
    change finish handlers call = some after at stepped
    unfold finish at stepped
    split at stepped
    · dsimp only at stepped
      split at stepped
      · cases stepped
        exact stays _ call _ different
      · cases stepped
        exact stays _ call _ different
    · cases stepped
  | report _ writing | close _ writing =>
    simp only [PresenceHandler.step] at stepped
    split at stepped <;> cases stepped
    rw [(hand_on_devices handlers writing _).2]
  | reconcile call executor =>
    change reconcile handlers call executor = some after at stepped
    unfold reconcile at stepped
    split at stepped <;> cases stepped
    exact stays _ call _ fun same => apart (congrArg some same)

theorem run_others_stay {start w : World} {actions : List Action} {other : String}
    (ran : run step start actions = some w) (apart : ∀ action ∈ actions, mover action ≠ some other) :
    w.handlers.calls other = start.handlers.calls other := by
  induction actions generalizing start with
  | nil =>
    cases ran
    rfl
  | cons action rest ih =>
    obtain ⟨next, stepped, tail⟩ := run_cons ran
    rw [ih tail fun later member => apart later (mem_cons_of_mem action member)]
    unfold step at stepped
    split at stepped
    · obtain ⟨after, moved, rfl⟩ := map_eq_some_iff.mp stepped
      exact others_stay moved (apart action mem_cons_self)
    · cases stepped

def resting : Phase → Bool
  | .idle => true
  | _ => false

/-- The host of the second session leaves, the first one stays: the device is said to be
    disconnected. -/
theorem second_host_leaves : ¬ ∀ (start w : World) (actions : List Action), Quiet start → Projected start →
      run step start actions = some w → Quiet w → Projected w := by
  intro always
  let actions := script step twoSessions (delivered hostEvent 10 ++ delivered otherHost 20 ++ delivered otherLeft 30)
  obtain ⟨w, ran, outcome⟩ := map_eq_some_iff.mp (show (run step twoSessions actions).map (fun w =>
      (resting (w.handlers.calls "h1"), (w.handlers.records.devices.lookup "desk").map Device.clientConnected,
        sessionOnline w.applied "desk" "session-a")) = some (true, some false, true) by decide +kernel)
  simp only [Prod.mk.injEq] at outcome
  obtain ⟨own, left, online⟩ := outcome
  have quiet : Quiet w := by
    intro call
    by_cases here : call = "h1"
    · subst here
      unfold resting at own
      split at own
      · assumption
      · cases own
    · have movers : actions.all (fun action => mover action = some "h1") := by decide +kernel
      have stays := run_others_stay ran fun action member same => here (by
        have moves := all_eq_true.mp movers action member
        rw [decide_eq_true_eq, same] at moves
        exact some.inj moves)
      exact stays
  obtain ⟨device, stored, disconnected⟩ := map_eq_some_iff.mp left
  have said := (always twoSessions w actions (fun _ => rfl) two_sessions_projected ran quiet "desk" device
    stored).mpr ⟨"session-a", online⟩
  rw [disconnected] at said
  cases said

end PieRelay.DeviceProjection
