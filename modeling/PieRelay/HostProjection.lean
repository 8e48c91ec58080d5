import PieRelay.ControlPlane
import PieRelay.Executions

/-!
The host connection of a session, as the relay reports it and `ApplyRelayPresence`
records it. `handleAgent` of server/internal/relay/server.go reports a host when it has
registered, on a timer while it is the registered one, and when it has unregistered,
with the presence of whatever host is registered then. The events of a session come out
in the order of these registry changes and every one is applied, in that order and any
time later; one the service refuses ends the run.
-/
namespace PieRelay.HostProjection
open Function Executions RoomRegistry ControlPlane List

/-- Hosts are told apart by their connection ids. `connections` are the handlers that run, `drawn`
    the connection ids given out so far, `applied` the events applied so far. -/
structure World where
  reg : Registry String
  connections : List String
  drawn : List String
  pending : List RelayPresence
  applied : List RelayPresence
  session : Session

def start (session : Session) : World := ⟨newRegistry, [], [], [], [], session⟩

def World.events (w : World) : List RelayPresence := w.applied ++ w.pending

def emitPresence (identity : RelayPresence) (connectionID : String)
    (connected hostOnline heartbeat : Bool) : RelayPresence :=
  { identity with
    connectionID := connectionID
    kind := "host"
    connected := connected
    hostOnline := hostOnline
    heartbeat := heartbeat }

/-- `clear` stands for whoever changes the session otherwise and drops its host connection: closing,
    restarting, recovering and rebinding do. -/
inductive Action where
  | connect (connectionID : String) (identity : RelayPresence)
  | heartbeat (connectionID : String) (identity : RelayPresence)
  | disconnect (connectionID : String) (identity : RelayPresence)
  | apply (service : Service) (now : Time)
  | clear (record : Session)

def reportable (w : World) (identity : RelayPresence) : Bool :=
  identity.sessionID = w.session.id ∧ identity.sessionID ≠ "" ∧ identity.deviceID ≠ "" ∧
    identity.eventID ∉ w.events.map (·.eventID)

variable (room : String)

def upToDate (w : World) (service : Service) : Bool :=
  service.sessions.lookup w.session.id = some w.session ∧
    service.presenceSeen.all fun id => id ∈ w.applied.map (·.eventID)

def took (w : World) (event : RelayPresence) (rest : List RelayPresence) (session : Session) : World :=
  { w with pending := rest, applied := w.applied ++ [event], session := session }

def applyNext (w : World) (service : Service) (now : Time) : Option World :=
  match w.pending with
  | [] => none
  | event :: rest =>
    match applyRelayPresence service now event with
    | .error _ => none
    | .ok none => some (took w event rest w.session)
    | .ok (some request) =>
      match putSession service now "" request request.version false with
      | .error _ => none
      | .ok record => some (took w event rest record)

def step (w : World) : Action → Option World
  | .connect connectionID identity =>
    if reportable w identity ∧ connectionID ≠ "" ∧ connectionID ∉ w.drawn then
      some { w with
        reg := (registerHostWithEpoch w.reg room connectionID).1
        connections := connectionID :: w.connections
        drawn := connectionID :: w.drawn
        pending := w.pending ++ [emitPresence identity connectionID true true false] }
    else none
  | .heartbeat connectionID identity =>
    if reportable w identity ∧ connectionID ∈ w.connections ∧
        hostFor w.reg room = some connectionID then
      some { w with pending := w.pending ++ [emitPresence identity connectionID true true true] }
    else none
  | .disconnect connectionID identity =>
    if reportable w identity ∧ connectionID ∈ w.connections then
      let reg := unregisterHost w.reg room connectionID
      some { w with
        reg := reg
        connections := w.connections.filter (· ≠ connectionID)
        pending := w.pending ++
          [emitPresence identity connectionID false (hostFor reg room).isSome false] }
    else none
  | .apply service now => if upToDate w service then applyNext w service now else none
  | .clear record =>
    if record.id = w.session.id ∧ record.hostConnectionID = "" then some { w with session := record }
    else none

def Projected (w : World) : Prop :=
  w.session.status ≠ .closed → w.session.hostConnectionID = "" ∨
    ∀ event ∈ w.applied, event.connected = false → event.connectionID ≠ w.session.hostConnectionID

def keepsHost (w : World) : Action → Bool
  | .disconnect connectionID _ =>
    hostFor w.reg room = none ∨ hostFor w.reg room = some connectionID
  | _ => true

def replay (host : Option String) (event : RelayPresence) : Option String :=
  if event.connected then some event.connectionID else if event.hostOnline then host else none

/-- The event is one of a registered host, or the last one of the host that leaves the room without
    one. -/
def Fits (host : Option String) (event : RelayPresence) : Prop :=
  (event.connected ∧ event.hostOnline) ∨
    (event.connected = false ∧ event.hostOnline = false ∧ event.heartbeat = false ∧
      (host = none ∨ host = some event.connectionID))

def Follows : Option String → List RelayPresence → Option String → Prop
  | host, [], final => host = final
  | host, event :: rest, final => Fits host event ∧ Follows (replay host event) rest final

variable {event identity : RelayPresence} {connectionID : String}

theorem follows_append {host final : Option String} {events : List RelayPresence} (follows : Follows host events final) (fits : Fits final event) :
    Follows host (events ++ [event]) (replay final event) := by
  induction events generalizing host with
  | nil =>
    cases follows
    exact ⟨fits, rfl⟩
  | cons head rest ih => exact ⟨follows.1, ih follows.2⟩

def World.host (w : World) : Option String := w.applied.foldl replay none

def Named (host : Option String) (session : Session) : Prop :=
  session.hostConnectionID ≠ "" → host = some session.hostConnectionID ∧ session.status = .active

structure Invariant (w : World) : Prop where
  drawn : ∀ event ∈ w.events, event.connectionID ∈ w.drawn
  opened : ∀ connectionID ∈ w.connections, connectionID ∈ w.drawn ∧ connectionID ≠ ""
  left : ∀ event ∈ w.events, event.connected = false → event.connectionID ∉ w.connections
  last : w.events.Pairwise fun earlier later =>
    earlier.connected = false → later.connectionID ≠ earlier.connectionID
  distinct : (w.events.map (·.eventID)).Nodup
  belongs : ∀ event ∈ w.pending, event.kind = "host" ∧ event.sessionID = w.session.id ∧
    event.sessionID ≠ "" ∧ event.deviceID ≠ "" ∧ event.connectionID ≠ ""
  follows : Follows w.host w.pending (hostFor w.reg room)
  named : Named w.host w.session
  alive : ∀ connectionID, w.host = some connectionID →
    ∀ event ∈ w.applied, event.connected = false → event.connectionID ≠ connectionID

variable {w next : World}

theorem start_invariant (session : Session) (unnamed : session.hostConnectionID = "") :
    Invariant room (start session) := by
  refine ⟨?_, ?_, ?_, .nil, .nil, ?_, rfl, fun host => absurd unnamed host, ?_⟩
  · intro event member
    cases member
  · intro connectionID member
    cases member
  · intro event member
    cases member
  · intro event member
    cases member
  · intro connectionID host
    cases host

theorem invariant_projected (inv : Invariant room w) : Projected w := by
  intro _
  by_cases unnamed : w.session.hostConnectionID = ""
  · exact Or.inl unnamed
  · exact Or.inr (inv.alive _ (inv.named unnamed).1)

structure Appends (w next : World) (event : RelayPresence) : Prop where
  pending : next.pending = w.pending ++ [event]
  applied : next.applied = w.applied
  session : next.session = w.session
  fresh : event.eventID ∉ w.events.map (·.eventID)
  belongs : event.kind = "host" ∧ event.sessionID = w.session.id ∧ event.sessionID ≠ "" ∧
    event.deviceID ≠ "" ∧ event.connectionID ≠ ""
  unfinished : ∀ earlier ∈ w.events, earlier.connected = false →
    event.connectionID ≠ earlier.connectionID
  drawn : event.connectionID ∈ next.drawn ∧ ∀ id ∈ w.drawn, id ∈ next.drawn
  opened : ∀ id ∈ next.connections, id ∈ next.drawn ∧ id ≠ ""
  left : ∀ earlier ∈ w.events ++ [event], earlier.connected = false →
    earlier.connectionID ∉ next.connections
  fits : Fits (hostFor w.reg room) event
  host : replay (hostFor w.reg room) event = hostFor next.reg room

theorem appends_invariant (inv : Invariant room w) (appends : Appends room w next event) : Invariant room next := by
  have events : next.events = w.events ++ [event] := by
    simp [World.events, appends.pending, appends.applied]
  have host : next.host = w.host := by simp [World.host, appends.applied]
  refine ⟨?_, appends.opened, events ▸ appends.left, ?_, ?_, ?_, ?_, ?_, ?_⟩
  · intro other member
    rw [events] at member
    rcases mem_append.mp member with old | new
    · exact appends.drawn.2 _ (inv.drawn other old)
    · rw [mem_singleton.mp new]
      exact appends.drawn.1
  · rw [events]
    refine pairwise_append.mpr ⟨inv.last, pairwise_singleton _ _, ?_⟩
    intro earlier member later new
    rw [mem_singleton.mp new]
    exact appends.unfinished earlier member
  · rw [events, map_append, map_singleton]
    refine nodup_append.mpr ⟨inv.distinct, nodup_singleton _, ?_⟩
    intro id member other new
    rw [mem_singleton.mp new]
    rintro rfl
    exact appends.fresh member
  · intro other member
    rw [appends.session]
    rw [appends.pending] at member
    rcases mem_append.mp member with old | new
    · exact inv.belongs other old
    · rw [mem_singleton.mp new]
      exact appends.belongs
  · rw [host, appends.pending, ← appends.host]
    exact follows_append inv.follows appends.fits
  · rw [host, appends.session]
    exact inv.named
  · rw [host, appends.applied]
    exact inv.alive

theorem reportable_event (fit : reportable w identity)
    (connectionID : String) (given : connectionID ≠ "") (connected hostOnline heartbeat : Bool) :
    (emitPresence identity connectionID connected hostOnline heartbeat).eventID ∉ w.events.map (·.eventID) ∧
      (emitPresence identity connectionID connected hostOnline heartbeat).kind = "host" ∧
      (emitPresence identity connectionID connected hostOnline heartbeat).sessionID = w.session.id ∧
      (emitPresence identity connectionID connected hostOnline heartbeat).sessionID ≠ "" ∧
      (emitPresence identity connectionID connected hostOnline heartbeat).deviceID ≠ "" ∧
      (emitPresence identity connectionID connected hostOnline heartbeat).connectionID ≠ "" := by
  simp only [reportable, decide_eq_true_eq] at fit
  exact ⟨fit.2.2.2, rfl, fit.1, fit.2.1, fit.2.2.1, given⟩

theorem open_unfinished (inv : Invariant room w) (running : connectionID ∈ w.connections) :
    ∀ earlier ∈ w.events, earlier.connected = false → connectionID ≠ earlier.connectionID := by
  rintro earlier member gone rfl
  exact inv.left earlier member gone running

theorem connect_invariant
    (inv : Invariant room w) (stepped : step room w (.connect connectionID identity) = some next) :
    Invariant room next := by
  simp only [step] at stepped
  split at stepped
  · rename_i enabled
    obtain ⟨fit, given, fresh⟩ := enabled
    cases stepped
    obtain ⟨unseen, belongs⟩ := reportable_event fit connectionID given true true false
    have unknown : ∀ earlier ∈ w.events, connectionID ≠ earlier.connectionID := by
      rintro earlier member rfl
      exact fresh (inv.drawn earlier member)
    refine appends_invariant room inv ⟨rfl, rfl, rfl, unseen, belongs,
      fun earlier member _ => unknown earlier member, ⟨mem_cons_self, fun id member =>
        mem_cons_of_mem _ member⟩, ?_, ?_, Or.inl ⟨rfl, rfl⟩, ?_⟩
    · intro id member
      rcases mem_cons.mp member with rfl | old
      · exact ⟨mem_cons_self, given⟩
      · exact (inv.opened id old).imp_left (mem_cons_of_mem _)
    · intro earlier member gone running
      rcases mem_append.mp member with old | new
      · rcases mem_cons.mp running with here | before
        · exact unknown earlier old here.symm
        · exact inv.left earlier old gone before
      · rw [mem_singleton.mp new] at gone
        cases gone
    · simp [replay, emitPresence, hostFor, registerHostWithEpoch]
  · cases stepped

theorem heartbeat_invariant
    (inv : Invariant room w) (stepped : step room w (.heartbeat connectionID identity) = some next) :
    Invariant room next := by
  simp only [step] at stepped
  split at stepped
  · rename_i enabled
    obtain ⟨fit, running, current⟩ := enabled
    cases stepped
    obtain ⟨known, given⟩ := inv.opened connectionID running
    obtain ⟨unseen, belongs⟩ := reportable_event fit connectionID given true true true
    refine appends_invariant room inv ⟨rfl, rfl, rfl, unseen, belongs,
      open_unfinished room inv running, ⟨known, fun id member => member⟩, inv.opened, ?_,
      Or.inl ⟨rfl, rfl⟩, ?_⟩
    · intro earlier member gone
      rcases mem_append.mp member with old | new
      · exact inv.left earlier old gone
      · rw [mem_singleton.mp new] at gone
        cases gone
    · simp [replay, emitPresence, current]
  · cases stepped

theorem disconnect_invariant (inv : Invariant room w) (keeps : keepsHost room w (.disconnect connectionID identity))
    (stepped : step room w (.disconnect connectionID identity) = some next) : Invariant room next := by
  simp only [keepsHost, decide_eq_true_eq] at keeps
  have vacant : hostFor (unregisterHost w.reg room connectionID) room = none := by
    unfold unregisterHost
    split
    · simp [hostFor]
    · rename_i other
      exact keeps.resolve_right other
  simp only [step] at stepped
  split at stepped
  · rename_i enabled
    obtain ⟨fit, running⟩ := enabled
    cases stepped
    obtain ⟨known, given⟩ := inv.opened connectionID running
    rw [vacant]
    obtain ⟨unseen, belongs⟩ := reportable_event fit connectionID given false false false
    refine appends_invariant room inv ⟨rfl, rfl, rfl, unseen, belongs,
      open_unfinished room inv running, ⟨known, fun id member => member⟩, ?_, ?_, ?_, ?_⟩
    · intro id member
      exact inv.opened id (mem_of_mem_filter member)
    · intro earlier member gone
      rcases mem_append.mp member with old | new
      · exact fun still => inv.left earlier old gone (mem_of_mem_filter still)
      · rw [mem_singleton.mp new]
        simp [emitPresence]
    · exact Or.inr ⟨rfl, rfl, rfl, keeps⟩
    · exact vacant.symm
  · cases stepped

section Applied
variable {host : Option String} {session : Session} {event : RelayPresence}

theorem idle_unnamed (named : Named host session) (idle : session.status ≠ .active) :
    session.hostConnectionID = "" := by
  by_contra present
  exact idle (named present).2

theorem presented_named (named : Named host session) (fits : Fits host event) :
    Named (replay host event) (hostPresence session event).1 := by
  unfold hostPresence
  split
  · rename_i online
    intro _
    rcases fits with ⟨connected, -⟩ | ⟨-, offline, -⟩
    · exact ⟨by simp [replay, connected], rfl⟩
    · simp [online.1] at offline
  · rename_i offstage
    split
    · rename_i offline
      intro present
      rcases fits with ⟨-, online⟩ | ⟨-, -, -, left⟩
      · exact absurd online offline.1
      · -- the host that leaves is the one that is named
        dsimp only at present
        split at present
        · exact absurd rfl present
        · rename_i other
          obtain ⟨current, -⟩ := named present
          rcases left with vacant | own
          · exact nomatch current.symm.trans vacant
          · exact absurd (Option.some.inj (current.symm.trans own)) other
    · rename_i onstage
      have idle : session.status ≠ .active := by
        intro active
        rcases fits with ⟨-, online⟩ | ⟨-, offline, -⟩
        · exact offstage (by simp [online, active])
        · exact onstage (by simp [offline, active])
      intro present
      exact absurd (idle_unnamed named idle) present

theorem silent_named (named : Named host session) (fits : Fits host event)
    (heartbeat : event.heartbeat) (silent : (hostPresence session event).2 = false) :
    Named (replay host event) session := by
  rcases fits with ⟨connected, online⟩ | ⟨-, -, last, -⟩
  · by_cases opened : session.status ≠ .closed ∧ session.status ≠ .closing
    · unfold hostPresence at silent
      rw [if_pos (by simpa [online] using opened)] at silent
      simp only [ne_eq, decide_eq_false_iff_not, not_or, not_not] at silent
      intro _
      exact ⟨by simp [replay, connected, silent.2.2.2], silent.1⟩
    · have idle : session.status ≠ .active := by
        intro active
        exact opened (by simp [active])
      intro present
      exact absurd (idle_unnamed named idle) present
  · simp [heartbeat] at last

theorem put_named {service : Service} {now : Time} {request record : Session} (named : Named host request)
    (put : putSession service now "" request request.version false = .ok record) :
    Named host record := by
  have made := put_session_ok put
  intro present
  rw [made.host] at present ⊢
  obtain ⟨current, active⟩ := named present
  exact ⟨current, by simp [made.status, active]⟩

end Applied

theorem put_same_id {service : Service} {now : Time} {request record : Session} (given : request.id ≠ "")
    (put : putSession service now "" request request.version false = .ok record) :
    record.id = request.id := by
  rw [(put_session_ok put).id, if_neg (by simp [given])]

theorem apply_next_took {service : Service} {now : Time} (inv : Invariant room w)
    (fresh : upToDate w service) (applied : applyNext w service now = some next) :
    ∃ event rest session, w.pending = event :: rest ∧ next = took w event rest session ∧
      session.id = w.session.id ∧ Named (replay w.host event) session := by
  unfold applyNext at applied
  split at applied
  · cases applied
  · rename_i event rest queue
    obtain ⟨kind, sessionID, scope, device, -⟩ := inv.belongs event (by simp [queue])
    have fits : Fits w.host event := (queue ▸ inv.follows : Follows _ (event :: rest) _).1
    simp only [upToDate, decide_eq_true_eq, all_eq_true] at fresh
    have unseen : event.eventID ∉ service.presenceSeen := by
      intro seen
      have distinct := inv.distinct
      rw [World.events, queue, map_append, map_cons] at distinct
      exact (nodup_append.mp distinct).2.2 _ (fresh.2 _ seen) _ mem_cons_self rfl
    split at applied
    · cases applied
    · rename_i answer
      cases applied
      obtain ⟨stored, read, handed | ⟨-, heartbeat, silent⟩⟩ :=
        apply_host_event answer kind unseen device scope
      · cases handed
      · rw [sessionID, fresh.1] at read
        cases read
        exact ⟨event, rest, w.session, queue, rfl, rfl, silent_named inv.named fits heartbeat silent⟩
    · rename_i answer
      split at applied
      · cases applied
      · rename_i record put
        cases applied
        obtain ⟨stored, read, handed | ⟨none, -⟩⟩ := apply_host_event answer kind unseen device scope
        · rw [sessionID, fresh.1] at read
          cases read
          cases handed
          have same := (host_presence_session w.session event).1
          refine ⟨event, rest, record, queue, rfl, ?_, put_named (presented_named inv.named fits) put⟩
          rw [put_same_id (by rw [same, ← sessionID]; exact scope) put, same]
        · cases none

theorem took_invariant {rest : List RelayPresence}
    {session : Session} (inv : Invariant room w) (queue : w.pending = event :: rest)
    (same : session.id = w.session.id) (named : Named (replay w.host event) session) :
    Invariant room (took w event rest session) := by
  have events : (took w event rest session).events = w.events := by
    simp [World.events, took, queue]
  have host : (took w event rest session).host = replay w.host event := by
    simp [World.host, took]
  have follows : Follows w.host (event :: rest) (hostFor w.reg room) := queue ▸ inv.follows
  refine ⟨events ▸ inv.drawn, inv.opened, events ▸ inv.left, events ▸ inv.last,
    events ▸ inv.distinct, ?_, ?_, host ▸ named, ?_⟩
  · intro other member
    obtain ⟨kind, sessionID, others⟩ := inv.belongs other (by rw [queue]; exact .tail _ member)
    exact ⟨kind, sessionID.trans same.symm, others⟩
  · rw [host]
    exact follows.2
  · rw [host]
    intro connectionID current earlier member gone
    have last := inv.last
    rw [World.events, queue] at last
    have before := (pairwise_append.mp last).2.2
    rcases follows.1 with ⟨connected, -⟩ | ⟨away, offline, -⟩
    · simp only [replay, connected, if_true] at current
      rw [← Option.some.inj current]
      rcases mem_append.mp member with old | new
      · exact (before earlier old event mem_cons_self gone).symm
      · rw [mem_singleton.mp new, connected] at gone
        cases gone
    · simp [replay, away, offline] at current

theorem clear_invariant {record : Session} (inv : Invariant room w)
    (same : record.id = w.session.id) (unnamed : record.hostConnectionID = "") :
    Invariant room { w with session := record } := by
  refine ⟨inv.drawn, inv.opened, inv.left, inv.last, inv.distinct, ?_, inv.follows,
    fun present => absurd unnamed present, inv.alive⟩
  intro event member
  obtain ⟨kind, sessionID, others⟩ := inv.belongs event member
  exact ⟨kind, sessionID.trans same.symm, others⟩

theorem step_invariant {action : Action} (keeps : keepsHost room w action)
    (inv : Invariant room w) (stepped : step room w action = some next) : Invariant room next := by
  cases action with
  | connect => exact connect_invariant room inv stepped
  | heartbeat => exact heartbeat_invariant room inv stepped
  | disconnect => exact disconnect_invariant room inv keeps stepped
  | apply =>
    simp only [step] at stepped
    split at stepped
    · rename_i fresh
      obtain ⟨event, rest, session, queue, rfl, same, named⟩ :=
        apply_next_took room inv fresh stepped
      exact took_invariant room inv queue same named
    · cases stepped
  | clear =>
    simp only [step] at stepped
    split at stepped
    · rename_i cleared
      cases stepped
      exact clear_invariant room inv cleared.1 cleared.2
    · cases stepped

/-- As long as no host disconnects while another one is registered, the host connection of the
    session is one that has not been reported disconnected, after every event. -/
theorem host_projection (session : Session) (unnamed : session.hostConnectionID = "")
    (actions : List Action) (after : World)
    (kept : Guarded (step room) (fun w action => keepsHost room w action) (start session) actions)
    (ran : run (step room) (start session) actions = some after) : Projected after := by
  have inv : Invariant room after := by
    refine guarded_run_invariant (Invariant room) ?_ kept ran (start_invariant room session unnamed)
    intro w action next keeps held stepped
    exact step_invariant room keeps held stepped
  exact invariant_projected room inv

def hostIdentity (eventID : String) : RelayPresence where
  eventID := eventID
  nodeID := "node-a"
  applicationID := "app"
  poolID := "pool-a"
  publicURL := "https://relay"
  controlURL := ""
  deviceID := "desk"
  sessionID := "session-a"
  relayGeneration := 1
  userID := "owner"
  connectionID := ""
  kind := ""
  connected := false
  hostOnline := false
  heartbeat := false
  atTime := 10

def processWith (session : Session) : Service :=
  { freshService with sessions := AList.insert "session-a" session ∅ }

def hostedBy (connectionID : String) (before : Session) : Session :=
  stamped { before with
    status := .active
    selectedTransport := "relay"
    relayNodeID := "node-a"
    lastActivityAt := 10
    hostConnectionID := connectionID } 5 20 before.version

def superseding : List Action :=
  [.connect "first" (hostIdentity "e1"), .connect "second" (hostIdentity "e2"),
    .apply (processWith createdSession) 20, .apply (processWith (hostedBy "first" createdSession)) 20]

def supersededSession : Session := hostedBy "second" (hostedBy "first" createdSession)

def outcome (actions : List Action) : Option (String × SessionStatus × List String) :=
  (run (step "room") (start createdSession) actions).map fun w =>
    (w.session.hostConnectionID, w.session.status,
      (w.applied.filter fun event => event.connected = false).map (·.connectionID))

def leaving (connectionID : String) : List Action :=
  superseding ++ [.disconnect connectionID (hostIdentity "e3"), .apply (processWith supersededSession) 30]

theorem host_projection_second_leaves :
    ∃ after, run (step "room") (start createdSession) (leaving "second") = some after ∧
      after.session.hostConnectionID = "" ∧ Projected after := by
  have left : outcome (leaving "second") = some ("", .ready, ["second"]) := by decide +kernel
  obtain ⟨after, ran, same⟩ := Option.map_eq_some_iff.mp left
  refine ⟨after, ran, congrArg Prod.fst same,
    host_projection "room" createdSession (by decide) (leaving "second") after ?_ ran⟩
  exact checked_guarded (keepsHost "room") (fun _ _ passed => passed) _ _ (by decide +kernel)

/-- The superseded host disconnects: its event says that a host is online, and the session is given
    the connection that has just gone. -/
theorem host_projection_first_leaves : createdSession.hostConnectionID = "" ∧ ∃ after,
      run (step "room") (start createdSession) (leaving "first") = some after ∧ ¬ Projected after := by
  have left : outcome (leaving "first") = some ("first", .active, ["first"]) := by decide +kernel
  obtain ⟨after, ran, same⟩ := Option.map_eq_some_iff.mp left
  obtain ⟨host, status, gone⟩ : after.session.hostConnectionID = "first" ∧ after.session.status = .active ∧
      (after.applied.filter fun event => event.connected = false).map (·.connectionID) = ["first"] := by
    simpa using same
  refine ⟨by decide, after, ran, fun projected => ?_⟩
  obtain ⟨event, listed, named⟩ := mem_map.mp (gone ▸ mem_cons_self)
  obtain ⟨member, away⟩ := mem_filter.mp listed
  rcases projected (by simp [status]) with unnamed | alive
  · exact absurd (host.symm.trans unnamed) (by decide)
  · exact alive event member (by simpa using away) (named.trans host.symm)

end PieRelay.HostProjection
