import PieRelay.DeviceReconcile

/-!
What a pass of `reconcileDeviceSessions` that returns `nil` leaves running on a host device. The device asks for 256
sessions; a session that is not among them, whether it is open or has ended, is not looked at.
-/
namespace PieRelay.DeviceSessions
open List
open ControlPlane (Device Filed Service Session SessionStatus Table User values)
open DeviceReconcile
open Executions
open RoomRegistry (Time)
open SessionCredentials (Principal allow_ok)

section Runs
variable {c : Client} {w next after : World} {id : String}
variable {session : Session} {left : List Session}

theorem alive_applied {session : LocalSession} (lives : alive session) (m : Move) :
    alive (m.apply session) ↔ ∀ failed, m ≠ .exited m.id failed := by
  cases m with
  | running =>
    refine ⟨fun _ failed absent => (by cases absent), fun _ => ?_⟩
    simp [alive, Move.apply]
  | relay => exact ⟨fun _ failed absent => (by cases absent), fun _ => lives⟩
  | exited id failed =>
    refine ⟨fun lives => ?_, fun stays => absurd rfl (stays failed)⟩
    cases failed <;> simp [alive, Move.apply] at lives

theorem moved_alive {m : Move} (moved : step c w (.move m) = some next) :
    next.control = w.control ∧ next.left = w.left ∧ next.known = w.known ∧ next.results = w.results ∧
      ∀ id, aliveAt next.sessions id ↔ aliveAt w.sessions id ∧ ∀ failed, m ≠ .exited id failed := by
  obtain ⟨session, found, rfl⟩ := Option.map_eq_some_iff.mp moved
  obtain ⟨stored, lives⟩ := Option.filter_eq_some_iff.mp found
  refine ⟨rfl, rfl, rfl, rfl, fun id => ?_⟩
  by_cases same : id = m.id
  · subst same
    have before : aliveAt w.sessions m.id := by
      rw [aliveAt, stored]
      exact lives
    have now : aliveAt (w.sessions.insert m.id (m.apply session)) m.id = alive (m.apply session) := by
      rw [aliveAt, AList.lookup_insert]
      rfl
    rw [now, alive_applied lives]
    exact ⟨fun stays => ⟨before, stays⟩, And.right⟩
  · have elsewhere : ∀ failed, m ≠ .exited id failed := by
      rintro failed rfl
      exact same rfl
    have now : aliveAt (w.sessions.insert m.id (m.apply session)) id = aliveAt w.sessions id := by
      rw [aliveAt, AList.lookup_insert_ne same, aliveAt]
    rw [now]
    exact ⟨fun lives => ⟨lives, elsewhere⟩, And.left⟩

theorem step_results {action : Action} (kept : Filed Session.id w.control.sessions)
    (stepped : step c w action = some next) :
    Filed Session.id next.control.sessions ∧ (next.results = [] → w.results = []) := by
  cases action with
  | move =>
    obtain ⟨control, _, _, results, _⟩ := moved_alive stepped
    rw [control, results]
    exact ⟨kept, fun fine => fine⟩
  | turn t =>
    dsimp only [step] at stepped
    split at stepped
    · cases stepped
    · next session left _ =>
      cases stepped
      have near := (turned (w := { w with left }) c t session kept).near
      refine ⟨near.control.filed, fun fine => ?_⟩
      have clean := near_results near fine
      exact clean

theorem run_results {actions : List Action} (kept : Filed Session.id w.control.sessions)
    (ran : run (step c) w actions = some after) (fine : after.results = []) : w.results = [] := by
  induction actions generalizing w with
  | nil =>
    cases ran
    exact fine
  | cons action rest ih =>
    obtain ⟨next, stepped, onward⟩ := run_cons ran
    obtain ⟨still, results⟩ := step_results kept stepped
    exact results (ih still onward)

/-- The sessions that are left are those of the control plane, and the device knows which of them it runs. -/
structure Ready (c : Client) (w : World) : Prop where
  kept : Filed Session.id w.control.sessions
  apart : (w.left.map Session.id).Nodup
  stored : ∀ session ∈ w.left, w.control.sessions.lookup session.id = some session ∧
    session.deviceID = c.deviceID ∧ session.executionTarget = "local"
  seen : ∀ session ∈ w.left, aliveAt w.sessions session.id → aliveAt w.known session.id

def Unacted (c : Client) (left : List Session) (id : String) : Prop := ∀ session ∈ left, session.id = id → acts c session = false

structure Passed (c : Client) (w : World) (actions : List Action) (after : World) : Prop where
  control : ∀ id, Unacted c w.left id → after.control.sessions.lookup id = w.control.sessions.lookup id
  lives : ∀ id, Unacted c w.left id → (aliveAt after.sessions id ↔
    aliveAt w.sessions id ∧ ∀ failed, .move (.exited id failed) ∉ actions)
  opened : ∀ session ∈ w.left, opens session.status → OpenLocal after.control c.deviceID session.id
  ended : ∀ session ∈ w.left, ends session.status → aliveAt after.sessions session.id = false

theorem open_same {s s' : Service} {deviceID : String} (same : s'.sessions.lookup id = s.sessions.lookup id)
    (opened : OpenLocal s deviceID id) : OpenLocal s' deviceID id := by
  obtain ⟨session, stored, rest⟩ := opened
  exact ⟨session, same.trans stored, rest⟩

theorem unacted_tail (unacted : Unacted c (session :: left) id) : Unacted c left id :=
  fun other member => unacted other (mem_cons_of_mem session member)

theorem unacted_head (apart : ((session :: left).map Session.id).Nodup) : Unacted c left session.id := by
  intro other member same
  have fresh := (nodup_cons.mp apart).1
  exact absurd (mem_map.mpr ⟨other, member, same⟩) fresh

theorem acted_found (acted : ¬ Unacted c left id) :
    ∃ session ∈ left, session.id = id ∧ (opens session.status ∨ ends session.status) := by
  obtain ⟨session, found⟩ := not_forall.mp acted
  obtain ⟨member, found⟩ := Classical.not_imp.mp found
  obtain ⟨same, acts_⟩ := Classical.not_imp.mp found
  rw [Bool.not_eq_false, acts, decide_eq_true_eq] at acts_
  exact ⟨session, member, same, acts_.2.2⟩

theorem ready_turn (t : Turn) (ready : Ready c w)
    (first : w.left = session :: left) : Ready c (turn c { w with left } t session) := by
  have near := (turned (w := { w with left }) c t session ready.kept).near
  have apart := ready.apart
  rw [first] at apart
  have other (later : Session) (member : later ∈ left) : later.id ≠ session.id ∧ later ∈ w.left := by
    refine ⟨fun same => ?_, first ▸ mem_cons_of_mem session member⟩
    exact absurd (mem_map.mpr ⟨later, member, same⟩) (nodup_cons.mp apart).1
  refine ⟨near.control.filed, ?_, fun later member => ?_, fun later member lives => ?_⟩
  · rw [near.left]
    exact (nodup_cons.mp apart).2
  · rw [near.left] at member
    obtain ⟨distinct, here⟩ := other later member
    obtain ⟨stored, mine⟩ := ready.stored later here
    exact ⟨(near.control.apart _ distinct).trans stored, mine⟩
  · rw [near.left] at member
    obtain ⟨distinct, here⟩ := other later member
    rw [aliveAt, near.sessions _ distinct] at lives
    rw [near.known]
    exact ready.seen later here lives

theorem passed_move {m : Move} {rest : List Action} (moved : step c w (.move m) = some next)
    (passed : Passed c next rest after) : Passed c w (.move m :: rest) after := by
  obtain ⟨control, left, _, _, lives⟩ := moved_alive moved
  have control_ := passed.control
  have lives_ := passed.lives
  rw [left, control] at control_
  rw [left] at lives_
  refine ⟨control_, fun id unacted => ?_, left ▸ passed.opened, left ▸ passed.ended⟩
  rw [lives_ id unacted, lives id, and_assoc]
  refine and_congr_right fun _ => ?_
  constructor
  · rintro ⟨stays, later⟩ failed member
    rcases mem_cons.mp member with same | member
    · exact stays failed (Action.move.inj same).symm
    · exact later failed member
  · intro never
    refine ⟨fun failed same => ?_, fun failed member => never failed (mem_cons_of_mem _ member)⟩
    exact never failed (same ▸ mem_cons_self)

theorem passed_turn {t : Turn} {rest : List Action} (ready : Ready c w)
    (first : w.left = session :: left) (fine : (turn c { w with left } t session).results = [])
    (passed : Passed c (turn c { w with left } t session) rest after) : Passed c w (.turn t :: rest) after := by
  have once := turned (w := { w with left }) c t session ready.kept
  have near := once.near
  obtain ⟨stored, mine, here⟩ := ready.stored session (first ▸ mem_cons_self)
  have seen := ready.seen session (first ▸ mem_cons_self)
  have apart := ready.apart
  rw [first] at apart
  have unchanged (id : String) (unacted : Unacted c w.left id) :
      (turn c { w with left } t session).control.sessions.lookup id = w.control.sessions.lookup id ∧
        (turn c { w with left } t session).sessions.lookup id = w.sessions.lookup id := by
    by_cases same : id = session.id
    · have idle := once.idle (unacted session (first ▸ mem_cons_self) same.symm)
      rw [idle]
      exact ⟨rfl, rfl⟩
    · exact ⟨near.control.apart id same, near.sessions id same⟩
  have onward (id : String) (unacted : Unacted c w.left id) : Unacted c (turn c { w with left } t session).left id := by
    rw [near.left]
    exact unacted_tail (first ▸ unacted)
  have fresh : Unacted c (turn c { w with left } t session).left session.id := by
    rw [near.left]
    exact unacted_head apart
  refine ⟨fun id unacted => ?_, fun id unacted => ?_, fun later member opened => ?_, fun later member ended => ?_⟩
  · exact (passed.control id (onward id unacted)).trans (unchanged id unacted).1
  · rw [passed.lives id (onward id unacted), aliveAt, (unchanged id unacted).2, aliveAt]
    refine and_congr_right fun _ => ?_
    refine forall_congr' fun failed => ?_
    exact not_congr (by simp)
  · rw [first] at member
    rcases mem_cons.mp member with rfl | member
    · have still := once.opened fine mine here opened ⟨later, stored, mine, here, opened⟩
      exact open_same (passed.control later.id fresh) still
    · exact passed.opened later (near.left ▸ member) opened
  · rw [first] at member
    rcases mem_cons.mp member with rfl | member
    · have gone := once.ended fine mine here ended seen
      refine Bool.eq_false_iff.mpr fun lives => ?_
      cases gone.symm.trans ((passed.lives later.id fresh).mp lives).1
    · exact passed.ended later (near.left ▸ member) ended

theorem pass_passed {actions : List Action} (ready : Ready c w) (ran : run (step c) w actions = some after)
    (done : after.left = []) (fine : after.results = []) : Passed c w actions after := by
  induction actions generalizing w with
  | nil =>
    cases ran
    refine ⟨fun _ _ => rfl, fun _ _ => ?_, fun session member => ?_, fun session member => ?_⟩
    · exact ⟨fun lives => ⟨lives, fun _ => not_mem_nil⟩, And.left⟩
    · exact absurd (done ▸ member) not_mem_nil
    · exact absurd (done ▸ member) not_mem_nil
  | cons action rest ih =>
    obtain ⟨next, stepped, onward⟩ := run_cons ran
    have clean := run_results (step_results ready.kept stepped).1 onward fine
    cases action with
    | move =>
      obtain ⟨control, left, known, _, lives⟩ := moved_alive stepped
      refine passed_move stepped (ih ⟨?_, ?_, ?_, ?_⟩ onward)
      · rw [control]
        exact ready.kept
      · rw [left]
        exact ready.apart
      · rw [left, control]
        exact ready.stored
      · rw [left, known]
        exact fun session member still => ready.seen session member ((lives session.id).mp still).1
    | turn t =>
      dsimp only [step] at stepped
      split at stepped
      · cases stepped
      · next first =>
        cases stepped
        exact passed_turn ready first clean (ih (ready_turn t ready first) onward)

end Runs

def newer (device : Device) (order : List Session) (session : Session) : Nat :=
  (order.filter (assigned device)).idxOf session

def asked : Nat := 256

section Feed
variable {s : Service} {order : List Session} {p : Principal} {deviceID : String} {device : Device}

theorem limit_slice (slice : List Session) (limit : Nat) : limitSlice slice limit = slice.take limit := by
  unfold limitSlice
  split
  · rfl
  · next short => exact (take_of_length_le (Nat.not_lt.mp short)).symm

theorem host_device_stored {elsewhere : String} (found : hostDevice s p deviceID elsewhere = .ok device) :
    s.devices.lookup deviceID = some device := by
  simp only [hostDevice, RelayToken.bind_ok] at found
  obtain ⟨_, _, found⟩ := found
  split at found
  · cases found
  · next stored =>
    simp only [RelayToken.bind_ok] at found
    obtain ⟨_, _, _, _, _, _, same⟩ := found
    cases same
    exact stored

/-- Which sessions the device gets. -/
theorem feed_mem {feed : List Session} (stored : s.devices.lookup deviceID = some device)
    (listed : listDeviceSessions s order p deviceID (some 256) = .ok feed) (session : Session) :
    session ∈ feed ↔ (session ∈ order ∧ assigned device session) ∧ newer device order session < asked := by
  simp only [listDeviceSessions, RelayToken.bind_ok] at listed
  obtain ⟨other, found, same⟩ := listed
  cases same
  cases (host_device_stored found).symm.trans stored
  show session ∈ limitSlice (order.filter (assigned device)) 256 ↔ _
  rw [limit_slice, ← mem_filter]
  constructor
  · intro member
    have mine := mem_of_mem_take member
    exact ⟨mine, (mem_take_iff_idxOf_lt mine).mp member⟩
  · rintro ⟨mine, early⟩
    exact (mem_take_iff_idxOf_lt mine).mpr early

theorem feed_sublist {feed : List Session} {limit : Option Int}
    (listed : listDeviceSessions s order p deviceID limit = .ok feed) : feed.Sublist order := by
  simp only [listDeviceSessions, RelayToken.bind_ok] at listed
  obtain ⟨other, found, same⟩ := listed
  cases same
  rw [limit_slice]
  exact (take_sublist _ _).trans filter_sublist

end Feed

def Returned (w : World) : Prop := w.left = [] ∧ w.results = []

/-- Every session of the device that is not closed is in the feed, and what the device runs afterwards is open. -/
structure Converges (c : Client) (device : Device) (start after : World) : Prop where
  fed : ∀ session ∈ values start.control.sessions, assigned device session → session.status ≠ .closed →
    session ∈ start.left
  alive : ∀ id, aliveAt after.sessions id → OpenLocal after.control c.deviceID id

def Accounted (c : Client) (device : Device) (s : Service) (order : List Session) (id : String) : Prop :=
  OpenLocal s c.deviceID id ∨ ∃ session, s.sessions.lookup id = some session ∧ assigned device session ∧
    ends session.status ∧ newer device order session < asked

variable {c : Client}

theorem begin_ready {s : Service} {order : List Session} {sessions : Table LocalSession} {start : World}
    {device : Device} (kept : Filed Session.id s.sessions) (devices : Filed Device.id s.devices)
    (listed : Listed s order) (stored : s.devices.lookup c.deviceID = some device)
    (begun : begin c s order sessions = .ok start) : Ready c start ∧ start.control = s ∧ start.sessions = sessions ∧
      ∀ session, session ∈ start.left ↔ (session ∈ values s.sessions ∧ assigned device session) ∧
        newer device order session < asked := by
  simp only [begin, RelayToken.bind_ok] at begun
  obtain ⟨feed, fetched, same⟩ := begun
  cases same
  have named : device.id = c.deviceID := devices c.deviceID device stored
  have members (session : Session) : session ∈ feed ↔ (session ∈ values s.sessions ∧ assigned device session) ∧
      newer device order session < asked := by
    rw [feed_mem stored fetched, listed.all.mem_iff]
  refine ⟨⟨kept, ?_, fun session member => ?_, fun _ _ lives => lives⟩, rfl, rfl, members⟩
  · have apart : (order.map Session.id).Nodup :=
      ((listed.all.map Session.id).nodup_iff).mpr (ControlPlane.filed_keys_nodup kept)
    exact ((feed_sublist fetched).map Session.id).nodup apart
  · obtain ⟨⟨here, mine⟩, _⟩ := (members session).mp member
    simp only [assigned, decide_eq_true_eq] at mine
    exact ⟨(ControlPlane.filed_mem kept).mp here, mine.1.trans named, mine.2.2⟩

theorem device_sessions_converge (c : Client) {s : Service} {order : List Session} {sessions : Table LocalSession}
    {start after : World} {device : Device} {actions : List Action} (kept : Filed Session.id s.sessions)
    (devices : Filed Device.id s.devices) (stored : s.devices.lookup c.deviceID = some device)
    (listed : Listed s order) (begun : begin c s order sessions = .ok start)
    (ran : run (step c) start actions = some after) (returned : Returned after) :
    Converges c device start after ↔
      (∀ session ∈ values s.sessions, assigned device session → session.status ≠ .closed →
        newer device order session < asked) ∧
      (∀ id, aliveAt sessions id → (∀ failed, .move (.exited id failed) ∉ actions) →
        Accounted c device s order id) := by
  obtain ⟨ready, control, local_, members⟩ := begin_ready kept devices listed stored begun
  have passed := pass_passed ready ran returned.1 returned.2
  have named : device.id = c.deviceID := devices c.deviceID device stored
  have acted (session : Session) (member : session ∈ start.left) : s.sessions.lookup session.id = some session ∧
      assigned device session ∧ session.deviceID = c.deviceID ∧ session.executionTarget = "local" := by
    obtain ⟨here, mine, target⟩ := ready.stored session member
    exact ⟨control ▸ here, ((members session).mp member).1.2, mine, target⟩
  constructor
  · rintro ⟨fed, alive⟩
    refine ⟨fun session member mine live => ?_, fun id lives stays => ?_⟩
    · rw [control] at fed
      exact ((members session).mp (fed session member mine live)).2
    · by_cases unacted : Unacted c start.left id
      · have after_ := (passed.lives id unacted).mpr ⟨local_ ▸ lives, stays⟩
        have opened := open_same (passed.control id unacted).symm (alive id after_)
        rw [control] at opened
        exact .inl opened
      · -- The session of the feed that the pass acts on is the one that is stored.
        obtain ⟨session, member, rfl, status⟩ := acted_found unacted
        obtain ⟨here, mine, place, target⟩ := acted session member
        rcases status with opened | ended
        · exact .inl ⟨session, here, place, target, opened⟩
        · exact .inr ⟨session, here, mine, ended, ((members session).mp member).2⟩
  · rintro ⟨short, accounted⟩
    refine ⟨fun session member mine live => ?_, fun id lives => ?_⟩
    · rw [control] at member
      exact (members session).mpr ⟨⟨member, mine⟩, short session member mine live⟩
    · by_cases unacted : Unacted c start.left id
      · obtain ⟨before, stays⟩ := (passed.lives id unacted).mp lives
        rcases accounted id (local_ ▸ before) stays with opened | ⟨session, here, mine, ended, early⟩
        · refine open_same (passed.control id unacted) ?_
          rw [control]
          exact opened
        · have same : session.id = id := kept id session here
          have member := (members session).mpr ⟨⟨ControlPlane.mem_values.mpr ⟨id, here⟩, mine⟩, early⟩
          obtain ⟨_, _, place, target⟩ := acted session member
          have idle := unacted session member same
          simp [acts, place, target, ended] at idle
      · obtain ⟨session, member, rfl, status⟩ := acted_found unacted
        rcases status with opened | ended
        · exact passed.opened session member opened
        · cases (passed.ended session member ended).symm.trans lives

def laptop : Device := { ControlPlane.desk with id := "laptop", name := "laptop", kind := "local" }

def localSession (id : String) (status : SessionStatus) (createdAt : Time) : Session :=
  { ControlPlane.newSession with
    id
    deviceID := "laptop"
    executionTarget := "local"
    agentMode := "terminal"
    accessMode := "private"
    status
    createdAt
    version := 1 }

def digits : List Char := "0123456789abcdef".toList

/-- 256 sessions that have been closed, an older one that is active, and one that the user is just closing. -/
def history : List Session :=
  ((digits.product digits).map fun digit => localSession (String.ofList [digit.1, digit.2]) .closed 2) ++
    [localSession "open" .active 1, localSession "gone" .closing 0]

def running (id : String) : LocalSession :=
  ⟨⟨id, "", "terminal", "wss://relay/ws/agent", "token", "/usr/bin/pty", "", "terminal", "", ""⟩, .running, .connected, 0⟩

def agent : Client := ⟨⟨"owner", false, [], "laptop"⟩, "laptop", some, ⟨"/usr/bin/pty", "", "", 16⟩⟩

def idleTurn : Turn := ⟨10, 10, true, .answered, none, .answered, ""⟩

def closedHistory : List Session :=
  (digits.product digits).map fun digit => localSession (String.ofList [digit.1, digit.2]) .closed 2

theorem closed_id {session : Session} (member : session ∈ closedHistory) :
    session.id.length = 2 ∧ session.status = .closed ∧ session.createdAt = 2 ∧ assigned laptop session := by
  obtain ⟨digit, _, rfl⟩ := mem_map.mp member
  exact ⟨by simp [localSession], rfl, rfl, by simp [localSession, assigned, laptop, ControlPlane.desk, ControlPlane.newSession]⟩

theorem history_ids : (history.map Session.id).Nodup := by
  have pairs : (digits.product digits).Nodup := Nodup.product (by decide) (by decide)
  have closed : (closedHistory.map Session.id).Nodup := by
    rw [closedHistory, map_map]
    refine pairs.map fun a b same => ?_
    have letters := String.ofList_injective same
    simp only [cons.injEq, and_true] at letters
    exact Prod.ext letters.1 letters.2
  show ((closedHistory ++ [localSession "open" .active 1, localSession "gone" .closing 0]).map Session.id).Nodup
  rw [map_append]
  refine closed.append (by decide) fun id early late => ?_
  obtain ⟨session, member, rfl⟩ := mem_map.mp early
  have short := (closed_id member).1
  have long : session.id = "open" ∨ session.id = "gone" := by simpa [localSession] using late
  rcases long with same | same <;> rw [same] at short <;> cases short

def busyControl : Service := { ControlPlane.freshService with
  devices := (∅ : Table Device).insert "laptop" laptop
  sessions := ⟨history.map fun session => ⟨session.id, session⟩, by
    rw [NodupKeys, keys, map_map]
    exact history_ids⟩ }

theorem busy_values : values busyControl.sessions = history := by
  rw [values, busyControl, map_map]
  exact map_id history

theorem busy_filed : Filed Session.id busyControl.sessions := by
  intro id session stored
  have entry := AList.mem_lookup_iff.mp stored
  obtain ⟨other, _, same⟩ := mem_map.mp entry
  cases same
  rfl

theorem busy_listed : Listed busyControl history := by
  refine ⟨Perm.of_eq busy_values.symm, ?_⟩
  show (closedHistory ++ [localSession "open" .active 1, localSession "gone" .closing 0]).Pairwise _
  refine pairwise_append.mpr ⟨?_, by decide, fun a early b late => ?_⟩
  · refine pairwise_iff_forall_sublist.mpr fun {a b} pair => ?_
    have members := pair.subset
    rw [(closed_id (members mem_cons_self)).2.2.1, (closed_id (members (mem_cons_of_mem a mem_cons_self))).2.2.1]
  · rw [(closed_id early).2.2.1]
    rcases mem_cons.mp late with rfl | late
    · decide
    · rcases mem_singleton.mp late with rfl
      decide

theorem busy_feed : (history.filter (assigned laptop)).take 256 = closedHistory := by
  have all : history.filter (assigned laptop) = history := by
    refine filter_eq_self.mpr fun session member => ?_
    rcases mem_append.mp member with early | late
    · exact (closed_id early).2.2.2
    · rcases mem_cons.mp late with rfl | late
      · rfl
      · rcases mem_singleton.mp late with rfl
        rfl
  have size : closedHistory.length = 256 := by
    rw [closedHistory, length_map, product, length_flatMap]
    decide
  rw [all]
  exact take_left' size

/-- A session that is closed, and that the device does not run, is left alone. -/
theorem closed_turn {w : World} {t : Turn} {session : Session} (closed : session.status = .closed)
    (idle : aliveAt w.known session.id = false) : turn c w t session = w := by
  have quiet : reportClosed c w t session = w := if_neg (by rw [closed]; exact (by decide))
  unfold turn
  split
  · rfl
  · rw [closed]
    show endTurn c w t session = w
    rw [aliveAt] at idle
    rw [endTurn, idle, if_neg Bool.false_ne_true, quiet]

theorem closed_run {w : World} {t : Turn} (closed : ∀ session ∈ w.left, session.status = .closed ∧
    aliveAt w.known session.id = false) :
    run (step c) w (replicate w.left.length (.turn t)) = some { w with left := [] } := by
  obtain ⟨control, sessions, known, left, results⟩ := w
  induction left with
  | nil => rfl
  | cons session left ih =>
    obtain ⟨status, idle⟩ := closed session mem_cons_self
    have passes := closed_turn (w := ⟨control, sessions, known, left, results⟩) (c := c) (t := t) status idle
    have rest := ih fun other member => closed other (mem_cons_of_mem session member)
    show ((step c _ (.turn t)).bind fun next => run (step c) next (replicate left.length (.turn t))) = _
    have stepped : step c ⟨control, sessions, known, session :: left, results⟩ (.turn t) =
        some ⟨control, sessions, known, left, results⟩ := congrArg some passes
    rw [stepped]
    exact rest

def runningGone : Table LocalSession := (∅ : Table LocalSession).insert "gone" (running "gone")

/-- An active session is not in the feed, and one that is being closed goes on. -/
theorem history_hides : ∃ start after actions, Filed Session.id busyControl.sessions ∧ Listed busyControl history ∧
    begin agent busyControl history runningGone = .ok start ∧ run (step agent) start actions = some after ∧
    Returned after ∧
    (∃ session ∈ values busyControl.sessions, assigned laptop session ∧ session.status = .active ∧
      session ∉ start.left) ∧
    (aliveAt after.sessions "gone" = true ∧ ¬ OpenLocal after.control "laptop" "gone") ∧
    ¬ Converges agent laptop start after := by
  have listed : listDeviceSessions busyControl history agent.principal agent.deviceID (some 256) =
      .ok (limitSlice (history.filter (assigned laptop)) 256) := rfl
  have begun : begin agent busyControl history runningGone =
      .ok ⟨busyControl, runningGone, runningGone, closedHistory, []⟩ := by
    rw [begin, listed, limit_slice, busy_feed]
    rfl
  have idle (session : Session) (member : session ∈ closedHistory) :
      session.status = .closed ∧ aliveAt runningGone session.id = false := by
    obtain ⟨short, closed, _⟩ := closed_id member
    refine ⟨closed, ?_⟩
    have apart : session.id ≠ "gone" := by
      intro same
      rw [same] at short
      cases short
    rw [aliveAt, runningGone, AList.lookup_insert_ne apart]
    rfl
  have ran := closed_run (w := ⟨busyControl, runningGone, runningGone, closedHistory, []⟩) (c := agent) (t := idleTurn) idle
  have active : localSession "open" .active 1 ∈ values busyControl.sessions := by
    rw [busy_values]
    exact mem_append_right _ mem_cons_self
  have unfed : localSession "open" .active 1 ∉ closedHistory := by
    intro member
    cases (closed_id member).1
  have closing : busyControl.sessions.lookup "gone" = some (localSession "gone" .closing 0) := by
    have member : localSession "gone" .closing 0 ∈ values busyControl.sessions := by
      rw [busy_values]
      exact mem_append_right _ (mem_cons_of_mem _ mem_cons_self)
    have stored := (ControlPlane.filed_mem busy_filed).mp member
    exact stored
  have shut : ¬ OpenLocal busyControl "laptop" "gone" := by
    rintro ⟨session, stored, _, _, opened⟩
    cases closing.symm.trans stored
    cases opened
  refine ⟨_, _, _, busy_filed, busy_listed, begun, ran, ⟨rfl, rfl⟩, ⟨_, active, rfl, rfl, unfed⟩, ⟨rfl, shut⟩, ?_⟩
  rintro ⟨fed, _⟩
  exact unfed (fed _ active rfl (by decide))

def smallControl : Service := { ControlPlane.freshService with
  devices := (∅ : Table Device).insert "laptop" laptop
  sessions := ((∅ : Table Session).insert "open" (localSession "open" .active 1)).insert "gone"
    (localSession "gone" .closing 2) }

def smallOrder : List Session := [localSession "gone" .closing 2, localSession "open" .active 1]

def bothRunning : Table LocalSession := runningGone.insert "open" (running "open")

/-- One session is closed at last, and the other one goes on. -/
theorem small_pass_converges : ∃ start after, begin agent smallControl smallOrder bothRunning = .ok start ∧
    run (step agent) start [.turn idleTurn, .turn idleTurn] = some after ∧ Converges agent laptop start after := by
  have kept : Filed Session.id smallControl.sessions := by
    have one : Filed Session.id ((∅ : Table Session).insert "open" (localSession "open" .active 1)) :=
      ControlPlane.filed_insert ControlPlane.filed_empty rfl
    exact ControlPlane.filed_insert one rfl
  have devices : Filed Device.id smallControl.devices := ControlPlane.filed_insert ControlPlane.filed_empty rfl
  have listed : Listed smallControl smallOrder := ⟨by decide +kernel, by decide⟩
  obtain ⟨after, ran, left⟩ := Option.map_eq_some_iff.mp (show
    ((run (step agent) ⟨smallControl, bothRunning, bothRunning, smallOrder, []⟩ [.turn idleTurn, .turn idleTurn]).map
      fun after => (after.left, after.results)) = some ([], []) by decide +kernel)
  obtain ⟨done, fine⟩ := Prod.mk.inj left
  refine ⟨_, after, rfl, ran, (device_sessions_converge agent kept devices rfl listed rfl ran ⟨done, fine⟩).mpr
    ⟨fun session member _ _ => ?_, fun id lives _ => ?_⟩⟩
  · exact Nat.lt_of_le_of_lt idxOf_le_length (by decide +kernel)
  · have known : id ∈ bothRunning.keys := by
      refine AList.lookup_isSome.mp ?_
      cases found : bothRunning.lookup id with
      | none =>
        rw [aliveAt, found] at lives
        cases lives
      | some => rfl
    rcases mem_cons.mp known with rfl | known
    · exact .inl ⟨_, rfl, rfl, rfl, rfl⟩
    · rcases mem_singleton.mp known with rfl
      exact .inr ⟨_, rfl, rfl, rfl, by decide +kernel⟩

end PieRelay.DeviceSessions
