import PieRelay.Admission
import PieRelay.ControlPlane
import PieRelay.Executions

/-!
How the sessions of one pool are put on relay nodes. A call of `EnsureSessionRelayNode` takes
the assignment lock of the pool, and over a shared store that of all replicas, and refreshes
what its process knows. Then it looks at the session, selects a node, has `PutSession` persist
its choice and enters the record in the maps. The calls run against each other: a step is what
one of them does without letting go of the service. Over a shared store the lock of the process
only takes turns away that the lock of the store takes away as well, so it is left out there.
-/
namespace PieRelay.RelayAssignment
open Function Executions Admission ControlPlane List Option
open RelayToken (bind_ok)
open RoomRegistry (Time)

section Selection
variable {s : Service} {now : Time} {applicationID poolID : String}

def Precedes (s : Service) (a b : Node) : Prop :=
  nodeLoad s a < nodeLoad s b ∨ (nodeLoad s a = nodeLoad s b ∧ a.id ≤ b.id)

def belowCeiling (s : Service) (node : Node) : Bool :=
  node.maxConnections ≤ 0 ∨ nodeLoad s node < node.maxConnections

structure Least (s : Service) (now : Time) (applicationID poolID : String) (node : Node) : Prop where
  known : node ∈ values s.nodes
  compatible : relayNodeCompatible node applicationID poolID now
  room : belowCeiling s node
  first : ∀ other ∈ values s.nodes, relayNodeCompatible other applicationID poolID now →
    belowCeiling s other → Precedes s node other

variable {a b : Node}

theorem precedes_refl (node : Node) : Precedes s node node := Or.inr ⟨rfl, String.le_refl _⟩

theorem precedes_trans {c : Node} (first : Precedes s a b) (second : Precedes s b c) : Precedes s a c := by
  rcases first with less | ⟨same, ids⟩
  · rcases second with lesser | ⟨equal, -⟩
    · exact Or.inl (less.trans lesser)
    · exact Or.inl (equal ▸ less)
  · rcases second with lesser | ⟨equal, onward⟩
    · exact Or.inl (same ▸ lesser)
    · exact Or.inr ⟨same.trans equal, String.le_trans ids onward⟩

theorem lighter_precedes (light : lighter s a b) : Precedes s a b := by
  unfold lighter at light
  split at light
  · rename_i same
    exact Or.inr ⟨same, String.lt_asymm (by simpa using light)⟩
  · exact Or.inl (by simpa using light)

theorem not_lighter_precedes (heavy : lighter s a b = false) : Precedes s b a := by
  unfold lighter at heavy
  split at heavy
  · rename_i same
    exact Or.inr ⟨same.symm, String.not_lt.mp (by simpa using heavy)⟩
  · rename_i different
    have least : nodeLoad s b ≤ nodeLoad s a := by simpa using heavy
    exact Or.inl (lt_of_le_of_ne least fun same => different same.symm)

def lightest (s : Service) (best : Option Node) (node : Node) : Option Node :=
  match best with
  | none => some node
  | some least => some (if lighter s node least then node else least)

theorem foldl_lightest (nodes : List Node) (best : Node) :
    ∃ result, nodes.foldl (lightest s) (some best) = some result ∧ result ∈ best :: nodes ∧
      ∀ node ∈ best :: nodes, Precedes s result node := by
  induction nodes generalizing best with
  | nil =>
    refine ⟨best, rfl, mem_cons_self, ?_⟩
    intro node member
    rw [mem_singleton.mp member]
    exact precedes_refl best
  | cons head rest ih =>
    obtain ⟨result, folded, member, first⟩ := ih (if lighter s head best then head else best)
    have ahead := first _ mem_cons_self
    have later : ∀ node ∈ rest, Precedes s result node :=
      fun node inside => first node (mem_cons_of_mem _ inside)
    cases light : lighter s head best
    · simp only [light, Bool.false_eq_true, if_false] at folded member ahead
      refine ⟨result, by simpa [lightest, light] using folded, ?_, ?_⟩
      · rcases mem_cons.mp member with rfl | inside
        · exact mem_cons_self
        · exact mem_cons_of_mem _ (mem_cons_of_mem _ inside)
      · intro node among
        simp only [mem_cons] at among
        rcases among with rfl | rfl | inside
        · exact ahead
        · exact precedes_trans ahead (not_lighter_precedes light)
        · exact later node inside
    · simp only [light, if_true] at folded member ahead
      refine ⟨result, by simpa [lightest, light] using folded, mem_cons_of_mem _ member, ?_⟩
      intro node among
      simp only [mem_cons] at among
      rcases among with rfl | rfl | inside
      · exact precedes_trans ahead (lighter_precedes light)
      · exact ahead
      · exact later node inside

theorem select_least {node : Node} (selected : selectRelayNode s now applicationID poolID = some node) :
    Least s now applicationID poolID node := by
  unfold selectRelayNode at selected
  split at selected
  · change ((values s.nodes).filter fun node => relayNodeCompatible node applicationID poolID now ∧
      (node.maxConnections ≤ 0 ∨ nodeLoad s node < node.maxConnections)).foldl (lightest s) none = some node at selected
    have candidate : ∀ other, other ∈ ((values s.nodes).filter fun node =>
        relayNodeCompatible node applicationID poolID now ∧
          (node.maxConnections ≤ 0 ∨ nodeLoad s node < node.maxConnections)) ↔
        other ∈ values s.nodes ∧ relayNodeCompatible other applicationID poolID now ∧ belowCeiling s other := by
      intro other
      simp [belowCeiling]
    generalize ((values s.nodes).filter fun node => relayNodeCompatible node applicationID poolID now ∧
      (node.maxConnections ≤ 0 ∨ nodeLoad s node < node.maxConnections)) = candidates at selected candidate
    cases candidates with
    | nil => cases selected
    | cons head rest =>
      obtain ⟨result, folded, member, first⟩ := foldl_lightest (s := s) rest head
      cases folded.symm.trans selected
      obtain ⟨known, compatible, room⟩ := (candidate node).mp member
      refine ⟨known, compatible, room, fun other inside fits below => ?_⟩
      exact first other ((candidate other).mpr ⟨inside, fits, below⟩)
  · cases selected

end Selection

/-- What `ensureSessionRelayNode` does before it selects: the session that needs a node, or `none`
    when it stays as it is. -/
def unplaced (s : Service) (now : Time) (sessionID : String) : Except ServiceError (Option Session) := do
  let session ← found (s.sessions.lookup sessionID) .notFound
  if session.applicationID = "" ∧ session.poolID = "" then return none
  demand (session.applicationID ≠ "" ∧ session.poolID ≠ "" ∧ session.tenantID ≠ "" ∧
    session.resourceType ≠ "" ∧ session.resourceID ≠ "") .invalid
  if onCompatibleNode s now session then return none
  demand (session.relayNodeID = "" ∨ session.status ≠ .active) .noRelayCapacity
  return some session

variable {now : Time} {sessionID : String}

/-- The parts one after the other, at one moment, are the call. -/
theorem ensure_in_parts (s : Service) (now : Time) (sessionID : String) : ensureSessionRelayNode s now sessionID = (do
      demand (validID sessionID) .invalid
      match ← unplaced s now sessionID with
      | none => return none
      | some session =>
        let node ← found (selectRelayNode s now session.applicationID session.poolID) .noRelayCapacity
        return some { session with relayNodeID := node.id }) := by
  unfold ensureSessionRelayNode unplaced
  cases demand (validID sessionID) .invalid with
  | error => rfl
  | ok =>
    cases found (s.sessions.lookup sessionID) .notFound with
    | error => rfl
    | ok session =>
      simp only [bind, Except.bind]
      split
      · rfl
      · cases demand (session.applicationID ≠ "" ∧ session.poolID ≠ "" ∧ session.tenantID ≠ "" ∧
          session.resourceType ≠ "" ∧ session.resourceID ≠ "") .invalid with
        | error => rfl
        | ok =>
          dsimp only
          split
          · rfl
          · cases demand (session.relayNodeID = "" ∨ session.status ≠ .active) .noRelayCapacity <;> rfl

theorem unplaced_ok {s : Service} {session : Session} (looked : unplaced s now sessionID = .ok (some session)) :
    s.sessions.lookup sessionID = some session ∧ onCompatibleNode s now session = false := by
  simp only [unplaced, bind_ok, found_ok] at looked
  obtain ⟨other, stored, looked⟩ := looked
  split at looked
  · cases looked
  · simp only [bind_ok, demand_ok, exists_const] at looked
    obtain ⟨-, looked⟩ := looked
    split at looked
    · cases looked
    · rename_i moved
      simp only [bind_ok, demand_ok, exists_const, pure, Except.pure, Except.ok.injEq, some.injEq] at looked
      obtain ⟨-, rfl⟩ := looked
      exact ⟨stored, by simpa using moved⟩

inductive Deployment where
  | alone (home : String)
  | replicated
  deriving DecidableEq

def Deployment.runs : Deployment → String → Bool
  | .alone home, replica => replica = home
  | .replicated, _ => true

structure Ticket where
  replica : String
  sessionID : String
  key : String

inductive Phase where
  | idle
  | waiting (ticket : Ticket)
  | entered (ticket : Ticket)
  | assigning (ticket : Ticket)
  | selecting (ticket : Ticket) (session : Session) (checked : Time)
  | putting (ticket : Ticket) (session : Session) (node : Node) (checked selected : Time)
  | publishing (ticket : Ticket) (record : Session)

namespace Phase

def ticket : Phase → Option Ticket
  | .idle => none
  | .waiting ticket => some ticket
  | .entered ticket => some ticket
  | .assigning ticket => some ticket
  | .selecting ticket _ _ => some ticket
  | .putting ticket _ _ _ _ => some ticket
  | .publishing ticket _ => some ticket

def key : Phase → Option String
  | .idle => none
  | .waiting _ => none
  | .entered ticket => some ticket.key
  | .assigning ticket => some ticket.key
  | .selecting ticket _ _ => some ticket.key
  | .putting ticket _ _ _ _ => some ticket.key
  | .publishing ticket _ => some ticket.key

def published : Phase → Bool
  | .publishing _ _ => false
  | _ => true

end Phase

/-- `stored` is what the store has, `maps` what each process has in memory, and `locks` says which
    call holds a lock. -/
structure World where
  stored : Service
  maps : String → Service
  locks : String → Option String
  calls : String → Phase

inductive Action where
  | begin (call replica sessionID : String)
  | enter (call : String)
  | refresh (call : String)
  | check (call : String) (now : Time)
  | select (call : String) (now : Time)
  | put (call : String) (now : Time)
  | publish (call : String)
  | fail (call : String)
  | synchronise (replica : String)

def assignmentKey (initial : Session) (sessionID : String) : String :=
  if initial.poolID = "" then sessionID else initial.poolID

def refreshed (own stored : Service) : Service :=
  { stored with
    defaultApplication := own.defaultApplication
    defaultRelayPool := own.defaultRelayPool
    presenceSeen := own.presenceSeen }

def moveTo (w : World) (call : String) (phase : Phase) : World :=
  { w with calls := update w.calls call phase }

def leave (w : World) (call : String) (ticket : Ticket) : World :=
  { w with
    locks := update w.locks ticket.key none
    calls := update w.calls call .idle }

section Steps
variable (deployment : Deployment) (pool : String)

def begin (w : World) (call replica sessionID : String) : Option World :=
  match w.calls call with
  | .idle =>
    if deployment.runs replica ∧ validID sessionID then
      ((w.maps replica).sessions.lookup sessionID).bind fun initial =>
        if initial.poolID = pool then
          some (moveTo w call (.waiting ⟨replica, sessionID, assignmentKey initial sessionID⟩))
        else none
    else none
  | _ => none

def enter (w : World) (call : String) : Option World :=
  match w.calls call with
  | .waiting ticket =>
    if w.locks ticket.key = none then
      some (moveTo { w with locks := update w.locks ticket.key (some call) } call (.entered ticket))
    else none
  | _ => none

def refresh (w : World) (call : String) : Option World :=
  match w.calls call with
  | .entered ticket => match deployment with
    | .alone _ => some (moveTo w call (.assigning ticket))
    | .replicated => some (moveTo { w with
      maps := update w.maps ticket.replica (refreshed (w.maps ticket.replica) w.stored) } call
      (.assigning ticket))
  | _ => none

def check (w : World) (call : String) (now : Time) : Option World :=
  match w.calls call with
  | .assigning ticket => match unplaced (w.maps ticket.replica) now ticket.sessionID with
    | .ok (some session) => some (moveTo w call (.selecting ticket session now))
    | _ => some (leave w call ticket)
  | _ => none

def select (w : World) (call : String) (now : Time) : Option World :=
  match w.calls call with
  | .selecting ticket session checked =>
    match selectRelayNode (w.maps ticket.replica) now session.applicationID session.poolID with
    | some node => some (moveTo w call (.putting ticket session node checked now))
    | none => some (leave w call ticket)
  | _ => none

def put (w : World) (call : String) (now : Time) : Option World :=
  match w.calls call with
  | .putting ticket session node _ _ =>
    match putSession (w.maps ticket.replica) now "" { session with relayNodeID := node.id } session.version
      false with
    | .ok record =>
      if (w.stored.sessions.lookup record.id).elim 0 Session.version = session.version then
        some (moveTo { w with
          stored := { w.stored with sessions := w.stored.sessions.insert record.id record } } call
          (.publishing ticket record))
      else some (leave w call ticket)
    | .error _ => some (leave w call ticket)
  | _ => none

def publish (w : World) (call : String) : Option World :=
  match w.calls call with
  | .publishing ticket record =>
    let own := w.maps ticket.replica
    let maps := { own with sessions := own.sessions.insert record.id record }
    some (leave { w with maps := update w.maps ticket.replica maps } call ticket)
  | _ => none

def fail (w : World) (call : String) : Option World :=
  match w.calls call with
  | .entered ticket => some (leave w call ticket)
  | .putting ticket _ _ _ _ => some (leave w call ticket)
  | _ => none

def synchronise (w : World) (replica : String) : Option World :=
  match deployment with
  | .alone _ => none
  | .replicated => some { w with
    maps := update w.maps replica (refreshed (w.maps replica) w.stored) }

def step (w : World) : Action → Option World
  | .begin call replica sessionID => begin deployment pool w call replica sessionID
  | .enter call => enter w call
  | .refresh call => refresh deployment w call
  | .check call now => check w call now
  | .select call now => select w call now
  | .put call now => put w call now
  | .publish call => publish w call
  | .fail call => fail w call
  | .synchronise replica => synchronise deployment w replica

end Steps

structure Current (own stored : Service) : Prop where
  nodes : own.nodes = stored.nodes
  sessions : ∀ id, own.sessions.lookup id = stored.sessions.lookup id

def onNode (nodeID : String) (session : Session) : Bool :=
  session.relayNodeID = nodeID ∧ session.status ≠ .closed ∧ session.status ≠ .error

theorem assigned_count (s : Service) (nodeID : String) :
    assignedSessions s nodeID = count (onNode nodeID) s.sessions := rfl

section Knowledge
variable {own stored : Service}

theorem current_load (current : Current own stored) (node : Node) : nodeLoad own node = nodeLoad stored node := by
  unfold nodeLoad
  rw [assigned_count, assigned_count, count_congr _ _ current.sessions]

theorem current_least (current : Current own stored) {applicationID poolID : String} {node : Node}
    (least : Least own now applicationID poolID node) : Least stored now applicationID poolID node := by
  have ceiling : ∀ other, belowCeiling own other = belowCeiling stored other := by
    intro other
    unfold belowCeiling
    rw [current_load current]
  obtain ⟨known, compatible, room, first⟩ := least
  rw [current.nodes] at known first
  refine ⟨known, compatible, ceiling node ▸ room, fun other inside fits below => ?_⟩
  have before := first other inside fits (ceiling other ▸ below)
  unfold Precedes at before ⊢
  rwa [current_load current, current_load current] at before

theorem current_pin (current : Current own stored) (now : Time) (session : Session) :
    onCompatibleNode own now session = onCompatibleNode stored now session := by
  unfold onCompatibleNode
  rw [current.nodes]

theorem refreshed_current (own stored : Service) : Current (refreshed own stored) stored :=
  ⟨rfl, fun _ => rfl⟩

def entered (own : Service) (record : Session) : Service :=
  { own with sessions := own.sessions.insert record.id record }

theorem entered_current (current : Current own stored) (record : Session) :
    Current (entered own record) (entered stored record) := by
  refine ⟨current.nodes, fun id => ?_⟩
  by_cases here : id = record.id
  · subst here
    simp [entered]
  · simpa [entered, AList.lookup_insert_ne here] using current.sessions id

-- Entering a record that is stored changes nothing for a process that knows it.
theorem entered_stored (current : Current own stored) {record : Session}
    (known : stored.sessions.lookup record.id = some record) : Current (entered own record) stored := by
  refine ⟨current.nodes, fun id => ?_⟩
  by_cases here : id = record.id
  · subst here
    simp [entered, known]
  · simpa [entered, AList.lookup_insert_ne here] using current.sessions id

theorem entered_known {record : Session} (current : Current (entered own record) stored) :
    stored.sessions.lookup record.id = some record := by
  rw [← current.sessions record.id]
  simp [entered]

end Knowledge

def Sound (maps : String → Service) (stored : Service) : Phase → Prop
  | .idle => True
  | .waiting _ => True
  | .entered _ => True
  | .assigning ticket => Current (maps ticket.replica) stored
  | .selecting ticket session checked => Current (maps ticket.replica) stored ∧
      stored.sessions.lookup ticket.sessionID = some session ∧
      onCompatibleNode stored checked session = false
  | .putting ticket session node checked selected => Current (maps ticket.replica) stored ∧
      stored.sessions.lookup ticket.sessionID = some session ∧
      onCompatibleNode stored checked session = false ∧
      Least stored selected session.applicationID session.poolID node
  | .publishing ticket record => Current (entered (maps ticket.replica) record) stored

structure Invariant (deployment : Deployment) (pool : String) (w : World) : Prop where
  sessions : Filed Session.id w.stored.sessions
  nodes : Filed Node.id w.stored.nodes
  tickets : ∀ call ticket, (w.calls call).ticket = some ticket →
    ticket.key = pool ∧ deployment.runs ticket.replica
  locks : ∀ call key, (w.calls call).key = some key → w.locks key = some call
  sound : ∀ call, Sound w.maps w.stored (w.calls call)
  home : ∀ home, deployment = .alone home → (∀ call, (w.calls call).published) →
    Current (w.maps home) w.stored

section Runs
variable {deployment : Deployment} {pool : String} {w next : World} {call : String} {ticket : Ticket}
variable {phase : Phase} {maps : String → Service} {replica : String}

theorem key_ticket {key : String} (held : phase.key = some key) :
    ∃ ticket, phase.ticket = some ticket ∧ ticket.key = key := by
  cases phase <;> cases held <;> exact ⟨_, rfl, rfl⟩

theorem outside (free : phase.key = none) (maps : String → Service) (stored : Service) :
    Sound maps stored phase ∧ phase.published := by
  cases phase <;> cases free <;> exact ⟨trivial, rfl⟩

section
variable (inv : Invariant deployment pool w)
include inv

-- There is one lock, so while one call holds it the others are not in.
theorem others_outside (held : (w.calls call).key = some pool)
    {other : String} (different : other ≠ call) : (w.calls other).key = none := by
  cases taken : (w.calls other).key with
  | none => rfl
  | some key =>
    obtain ⟨ticket, has, named⟩ := key_ticket taken
    have same : key = pool := named ▸ (inv.tickets other ticket has).1
    subst same
    have holder := (inv.locks other key taken).symm.trans (inv.locks call key held)
    exact absurd (some.inj holder) different

theorem home_current (held : (w.calls call).key = some pool)
    (done : (w.calls call).published) (home : String) (alone : deployment = .alone home) :
    Current (w.maps home) w.stored := by
  refine inv.home home alone fun other => ?_
  by_cases same : other = call
  · rw [same]
    exact done
  · exact (outside (others_outside inv held same) w.maps w.stored).2

theorem moved_invariant (held : (w.calls call).key = some pool)
    {stored : Service} (same : phase.ticket = (w.calls call).ticket) (holds : phase.key = some pool)
    (sessions : Filed Session.id stored.sessions) (nodes : Filed Node.id stored.nodes)
    (sound : Sound maps stored phase)
    (home : ∀ home, deployment = .alone home → phase.published → Current (maps home) stored) :
    Invariant deployment pool (moveTo { w with stored := stored, maps := maps } call phase) := by
  refine ⟨sessions, nodes, fun other ticket has => ?_, fun other key taken => ?_, fun other => ?_,
    fun place alone done => ?_⟩
  · by_cases own : other = call
    · subst own
      simp only [moveTo, update_self] at has
      exact inv.tickets other ticket (same ▸ has)
    · simp only [moveTo, update_of_ne own] at has
      exact inv.tickets other ticket has
  · by_cases own : other = call
    · subst own
      simp only [moveTo, update_self] at taken
      cases holds.symm.trans taken
      exact inv.locks other pool held
    · simp only [moveTo, update_of_ne own] at taken
      exact inv.locks other key taken
  · by_cases own : other = call
    · subst own
      simpa only [moveTo, update_self] using sound
    · simp only [moveTo, update_of_ne own]
      exact (outside (others_outside inv held own) maps stored).1
  · have published := done call
    simp only [moveTo, update_self] at published
    exact home place alone published

theorem left_invariant (has : (w.calls call).ticket = some ticket) (held : (w.calls call).key = some pool)
    (home : ∀ home, deployment = .alone home → Current (maps home) w.stored) :
    Invariant deployment pool (leave { w with maps := maps } call ticket) := by
  have key : ticket.key = pool := (inv.tickets call ticket has).1
  refine ⟨inv.sessions, inv.nodes, fun other its named => ?_, fun other key taken => ?_, fun other => ?_,
    fun place alone _ => home place alone⟩
  · by_cases own : other = call
    · subst own
      simp only [leave, update_self] at named
      cases named
    · simp only [leave, update_of_ne own] at named
      exact inv.tickets other its named
  · by_cases own : other = call
    · subst own
      simp only [leave, update_self] at taken
      cases taken
    · simp only [leave, update_of_ne own] at taken
      cases (others_outside inv held own).symm.trans taken
  · by_cases own : other = call
    · subst own
      simp only [leave, update_self]
      trivial
    · simp only [leave, update_of_ne own]
      exact (outside (others_outside inv held own) maps w.stored).1

theorem begin_invariant (named : pool ≠ "")
    (stepped : begin deployment pool w call replica sessionID = some next) : Invariant deployment pool next := by
  unfold begin at stepped
  split at stepped
  · rename_i idle
    split at stepped
    · rename_i allowed
      obtain ⟨initial, -, stepped⟩ := bind_eq_some_iff.mp stepped
      split at stepped
      · rename_i pooled
        cases stepped
        have key : assignmentKey initial sessionID = pool := by
          unfold assignmentKey
          rw [pooled, if_neg named]
        have same : ∀ other, ((update w.calls call (.waiting ⟨replica, sessionID, assignmentKey initial sessionID⟩))
            other).key = (w.calls other).key := by
          intro other
          by_cases own : other = call
          · subst own
            rw [update_self, idle]
            rfl
          · rw [update_of_ne own]
        refine ⟨inv.sessions, inv.nodes, fun other ticket has => ?_, fun other key taken => ?_,
          fun other => ?_, fun place alone done => ?_⟩
        · by_cases own : other = call
          · subst own
            simp only [moveTo, update_self, Phase.ticket, some.injEq] at has
            subst has
            exact ⟨key, allowed.1⟩
          · simp only [moveTo, update_of_ne own] at has
            exact inv.tickets other ticket has
        · exact inv.locks other key ((same other).symm.trans taken)
        · by_cases own : other = call
          · subst own
            simp only [moveTo, update_self]
            trivial
          · simpa only [moveTo, update_of_ne own] using inv.sound other
        · refine inv.home place alone fun other => ?_
          by_cases own : other = call
          · rw [own, idle]
            rfl
          · simpa only [moveTo, update_of_ne own] using done other
      · cases stepped
    · cases stepped
  · cases stepped

theorem enter_invariant (stepped : enter w call = some next) : Invariant deployment pool next := by
  unfold enter at stepped
  split at stepped
  · rename_i ticket waiting
    split at stepped
    · rename_i free
      cases stepped
      have key : ticket.key = pool := (inv.tickets call ticket (by rw [waiting]; rfl)).1
      refine ⟨inv.sessions, inv.nodes, fun other its has => ?_, fun other taken holds => ?_,
        fun other => ?_, fun place alone done => ?_⟩
      · by_cases own : other = call
        · subst own
          simp only [moveTo, update_self, Phase.ticket, some.injEq] at has
          subst has
          exact inv.tickets other ticket (by rw [waiting]; rfl)
        · simp only [moveTo, update_of_ne own] at has
          exact inv.tickets other its has
      · by_cases own : other = call
        · subst own
          simp only [moveTo, update_self, Phase.key, some.injEq] at holds
          subst holds
          simp [moveTo]
        · simp only [moveTo, update_of_ne own] at holds
          have holder := inv.locks other taken holds
          have different : taken ≠ ticket.key := by
            intro same
            rw [same, free] at holder
            cases holder
          simpa only [moveTo, update_of_ne different] using holder
      · by_cases own : other = call
        · subst own
          simp only [moveTo, update_self]
          trivial
        · simpa only [moveTo, update_of_ne own] using inv.sound other
      · refine inv.home place alone fun other => ?_
        by_cases own : other = call
        · rw [own, waiting]
          rfl
        · simpa only [moveTo, update_of_ne own] using done other
    · cases stepped
  · cases stepped

-- A call that holds the lock, and which one.
theorem holds_pool (here : w.calls call = phase)
    (has : phase.ticket = some ticket) (held : phase.key = some ticket.key) :
    (w.calls call).ticket = some ticket ∧ (w.calls call).key = some pool := by
  have own : (w.calls call).ticket = some ticket := here ▸ has
  refine ⟨own, ?_⟩
  rw [here, held, (inv.tickets call ticket own).1]

theorem refresh_invariant (stepped : refresh deployment w call = some next) : Invariant deployment pool next := by
  unfold refresh at stepped
  split at stepped
  · rename_i ticket phase
    obtain ⟨has, held⟩ := holds_pool inv phase rfl rfl
    have key : ticket.key = pool := (inv.tickets call ticket has).1
    split at stepped
    · rename_i home
      cases stepped
      have current := home_current inv held (by rw [phase]; rfl)
      refine moved_invariant inv held (by rw [phase]; rfl) (congrArg some key) inv.sessions inv.nodes ?_
        fun place alone _ => current place alone
      have place : ticket.replica = home := by
        simpa [Deployment.runs] using (inv.tickets call ticket has).2
      change Current (w.maps ticket.replica) w.stored
      rw [place]
      exact current home rfl
    · cases stepped
      refine moved_invariant inv held (by rw [phase]; rfl) (congrArg some key) inv.sessions inv.nodes ?_ nofun
      change Current (update w.maps ticket.replica _ ticket.replica) w.stored
      rw [update_self]
      exact refreshed_current _ _
  · cases stepped

theorem check_invariant (stepped : check w call now = some next) : Invariant deployment pool next := by
  unfold check at stepped
  split at stepped
  · rename_i ticket phase
    obtain ⟨has, held⟩ := holds_pool inv phase rfl rfl
    have key : ticket.key = pool := (inv.tickets call ticket has).1
    have current := home_current inv held (by rw [phase]; rfl)
    have known : Current (w.maps ticket.replica) w.stored := by
      have sound := inv.sound call
      rwa [phase] at sound
    split at stepped
    · rename_i session looked
      cases stepped
      obtain ⟨stored, moved⟩ := unplaced_ok looked
      refine moved_invariant inv held (by rw [phase]; rfl) (congrArg some key) inv.sessions inv.nodes ?_
        fun place alone _ => current place alone
      exact ⟨known, known.sessions _ ▸ stored, current_pin known now session ▸ moved⟩
    · cases stepped
      exact left_invariant inv has held current
  · cases stepped

theorem select_invariant (stepped : select w call now = some next) : Invariant deployment pool next := by
  unfold select at stepped
  split at stepped
  · rename_i ticket session checked phase
    obtain ⟨has, held⟩ := holds_pool inv phase rfl rfl
    have key : ticket.key = pool := (inv.tickets call ticket has).1
    have current := home_current inv held (by rw [phase]; rfl)
    have sound : Sound w.maps w.stored (.selecting ticket session checked) := phase ▸ inv.sound call
    obtain ⟨known, stored, moved⟩ := sound
    split at stepped
    · rename_i selected
      cases stepped
      refine moved_invariant inv held (by rw [phase]; rfl) (congrArg some key) inv.sessions inv.nodes ?_
        fun place alone _ => current place alone
      exact ⟨known, stored, moved, current_least known (select_least selected)⟩
    · cases stepped
      exact left_invariant inv has held current
  · cases stepped

theorem put_cases (stepped : put w call now = some next) :
    ∃ ticket session node checked selected, w.calls call = .putting ticket session node checked selected ∧
      (next = leave w call ticket ∨ ∃ record, record.id = ticket.sessionID ∧
        record.relayNodeID = node.id ∧ record.version = session.version + 1 ∧
        next = moveTo { w with stored := entered w.stored record } call (.publishing ticket record)) := by
  unfold put at stepped
  split at stepped
  · rename_i ticket session node checked selected phase
    refine ⟨ticket, session, node, checked, selected, phase, ?_⟩
    have sound : Sound w.maps w.stored (.putting ticket session node checked selected) := phase ▸ inv.sound call
    split at stepped
    · rename_i record made
      split at stepped
      · cases stepped
        have passed := put_session_ok made
        refine Or.inr ⟨record, ?_, passed.node, passed.version, rfl⟩
        have own : session.id = ticket.sessionID := inv.sessions _ _ sound.2.1
        have given : record.id ≠ "" → record.id = session.id := by
          intro filled
          have id := passed.id
          split at id
          · exact absurd id filled
          · exact id
        refine (given ?_).trans own
        intro blank
        have valid := passed.validID
        rw [blank] at valid
        exact absurd valid (by decide)
      · cases stepped
        exact Or.inl rfl
    · cases stepped
      exact Or.inl rfl
  · cases stepped

theorem put_invariant (stepped : put w call now = some next) : Invariant deployment pool next := by
  obtain ⟨ticket, session, node, checked, selected, phase, outcome⟩ := put_cases inv stepped
  obtain ⟨has, held⟩ := holds_pool inv phase rfl rfl
  have key : ticket.key = pool := (inv.tickets call ticket has).1
  have sound : Sound w.maps w.stored (.putting ticket session node checked selected) := phase ▸ inv.sound call
  rcases outcome with rfl | ⟨record, id, -, -, rfl⟩
  · exact left_invariant inv has held (home_current inv held (by rw [phase]; rfl))
  · refine moved_invariant inv held (by rw [phase]; rfl) (congrArg some key) ?_ inv.nodes ?_ nofun
    · exact filed_insert inv.sessions rfl
    · exact entered_current sound.1 record

theorem publish_invariant (stepped : publish w call = some next) : Invariant deployment pool next := by
  unfold publish at stepped
  split at stepped
  · rename_i ticket record phase
    cases stepped
    obtain ⟨has, held⟩ := holds_pool inv phase rfl rfl
    refine left_invariant inv has held fun home alone => ?_
    have place : ticket.replica = home := by
      simpa [alone, Deployment.runs] using (inv.tickets call ticket has).2
    subst place
    rw [update_self]
    have sound : Sound w.maps w.stored (.publishing ticket record) := phase ▸ inv.sound call
    exact sound
  · cases stepped

theorem fail_invariant (stepped : fail w call = some next) : Invariant deployment pool next := by
  unfold fail at stepped
  split at stepped
  · rename_i phase
    cases stepped
    obtain ⟨has, held⟩ := holds_pool inv phase rfl rfl
    exact left_invariant inv has held (home_current inv held (by rw [phase]; rfl))
  · rename_i phase
    cases stepped
    obtain ⟨has, held⟩ := holds_pool inv phase rfl rfl
    exact left_invariant inv has held (home_current inv held (by rw [phase]; rfl))
  · cases stepped

end

theorem synchronised_sound {stored : Service} (sound : Sound maps stored phase) :
    Sound (update maps replica (refreshed (maps replica) stored)) stored phase := by
  have known : ∀ other, Current (maps other) stored →
      Current (update maps replica (refreshed (maps replica) stored) other) stored := by
    intro other current
    by_cases here : other = replica
    · rw [here, update_self]
      exact refreshed_current _ _
    · rwa [update_of_ne here]
  cases phase with
  | idle | waiting | entered => trivial
  | assigning ticket => exact known ticket.replica sound
  | selecting ticket | putting ticket => exact ⟨known ticket.replica sound.1, sound.2⟩
  | publishing ticket record =>
    have stored := entered_known sound
    change Current (entered (update maps replica _ ticket.replica) record) _
    by_cases here : ticket.replica = replica
    · rw [here, update_self]
      exact entered_stored (refreshed_current _ _) stored
    · rwa [update_of_ne here]

theorem synchronise_invariant (inv : Invariant deployment pool w)
    (stepped : synchronise deployment w replica = some next) : Invariant deployment pool next := by
  unfold synchronise at stepped
  split at stepped
  · cases stepped
  · cases stepped
    exact ⟨inv.sessions, inv.nodes, inv.tickets, inv.locks, fun other => synchronised_sound (inv.sound other), nofun⟩

theorem step_invariant (named : pool ≠ "") (action : Action) (inv : Invariant deployment pool w)
    (stepped : step deployment pool w action = some next) : Invariant deployment pool next := by
  cases action with
  | begin => exact begin_invariant inv named stepped
  | enter => exact enter_invariant inv stepped
  | refresh => exact refresh_invariant inv stepped
  | check => exact check_invariant inv stepped
  | select => exact select_invariant inv stepped
  | put => exact put_invariant inv stepped
  | publish => exact publish_invariant inv stepped
  | fail => exact fail_invariant inv stepped
  | synchronise => exact synchronise_invariant inv stepped

theorem stored_kept {action : Action} (stepped : step deployment pool w action = some next)
    (reads : ∀ call now, action ≠ .put call now) : next.stored = w.stored := by
  cases action with
  | begin call replica sessionID =>
    change begin deployment pool w call replica sessionID = some next at stepped
    unfold begin at stepped
    split at stepped
    · split at stepped
      · obtain ⟨initial, -, stepped⟩ := bind_eq_some_iff.mp stepped
        split at stepped <;> cases stepped
        rfl
      · cases stepped
    · cases stepped
  | enter call =>
    change enter w call = some next at stepped
    unfold enter at stepped
    split at stepped
    · split at stepped <;> cases stepped
      rfl
    · cases stepped
  | refresh call =>
    change refresh deployment w call = some next at stepped
    unfold refresh at stepped
    split at stepped
    · split at stepped <;> cases stepped <;> rfl
    · cases stepped
  | check call now =>
    change check w call now = some next at stepped
    unfold check at stepped
    split at stepped
    · split at stepped <;> cases stepped <;> rfl
    · cases stepped
  | select call now =>
    change select w call now = some next at stepped
    unfold select at stepped
    split at stepped
    · split at stepped <;> cases stepped <;> rfl
    · cases stepped
  | put call now => exact absurd rfl (reads call now)
  | publish call =>
    change publish w call = some next at stepped
    unfold publish at stepped
    split at stepped <;> cases stepped
    rfl
  | fail call =>
    change fail w call = some next at stepped
    unfold fail at stepped
    split at stepped <;> cases stepped <;> rfl
  | synchronise replica =>
    change synchronise deployment w replica = some next at stepped
    unfold synchronise at stepped
    split at stepped <;> cases stepped
    rfl

end Runs

def Assigns (w next : World) (action : Action) (id : String) : Prop :=
  ∃ call now ticket before node checked selected record,
    action = .put call now ∧ w.calls call = .putting ticket before node checked selected ∧
    ticket.sessionID = id ∧ w.stored.sessions.lookup id = some before ∧
    next.stored.sessions.lookup id = some record ∧ record.relayNodeID = node.id ∧
    onCompatibleNode w.stored checked before = false ∧
    Least w.stored selected before.applicationID before.poolID node

structure Respects (w next : World) (action : Action) : Prop where
  assigns : ∀ id, next.stored.sessions.lookup id ≠ w.stored.sessions.lookup id → Assigns w next action id
  capacity : ∀ node ∈ values w.stored.nodes, 0 < node.maxConnections →
    (assignedSessions next.stored node.id : Int) ≤ node.maxConnections ∨
      assignedSessions next.stored node.id ≤ assignedSessions w.stored node.id
  keeps : ∀ call now ticket session, action = .check call now → w.calls call = .assigning ticket →
    w.stored.sessions.lookup ticket.sessionID = some session →
    onCompatibleNode w.stored now session → next = leave w call ticket

structure Started (deployment : Deployment) (w : World) : Prop where
  sessions : Filed Session.id w.stored.sessions
  nodes : Filed Node.id w.stored.nodes
  idle : ∀ call, w.calls call = .idle
  home : ∀ home, deployment = .alone home → Current (w.maps home) w.stored

section Respect
variable {deployment : Deployment} {pool : String} {w next : World} {call : String} {ticket : Ticket}

theorem started_invariant (started : Started deployment w) : Invariant deployment pool w := by
  refine ⟨started.sessions, started.nodes, fun call ticket has => ?_, fun call key taken => ?_,
    fun call => ?_, fun home alone _ => started.home home alone⟩
  · rw [started.idle] at has
    cases has
  · rw [started.idle] at taken
    cases taken
  · rw [started.idle]
    trivial

theorem unplaced_pinned {s : Service} {session : Session}
    (stored : s.sessions.lookup sessionID = some session) (pinned : onCompatibleNode s now session)
    (other : Session) : unplaced s now sessionID ≠ .ok (some other) := by
  intro looked
  obtain ⟨same, moved⟩ := unplaced_ok looked
  cases stored.symm.trans same
  rw [pinned] at moved
  cases moved

theorem entered_capacity {stored : Service} (filed : Filed Node.id stored.nodes)
    {applicationID poolID : String} {chosen : Node} (least : Least stored now applicationID poolID chosen)
    {record : Session} (placed : record.relayNodeID = chosen.id) {node : Node}
    (known : node ∈ values stored.nodes) (positive : 0 < node.maxConnections) :
    (assignedSessions (entered stored record) node.id : Int) ≤ node.maxConnections ∨
      assignedSessions (entered stored record) node.id ≤ assignedSessions stored node.id := by
  have taken : assignedSessions (entered stored record) node.id +
      ((stored.sessions.lookup record.id).any (onNode node.id)).toNat =
        assignedSessions stored node.id + (onNode node.id record).toNat :=
    count_insert (onNode node.id) stored.sessions record.id record
  by_cases here : node.id = chosen.id
  · have same : node = chosen := by
      have first := (filed_mem filed).mp known
      have second := (filed_mem filed).mp least.known
      rw [here] at first
      exact some.inj (first.symm.trans second)
    subst same
    have room := least.room
    simp only [belowCeiling, decide_eq_true_eq] at room
    have below : (assignedSessions stored node.id : Int) < node.maxConnections :=
      lt_of_le_of_lt (le_max_right _ _) (room.resolve_left (not_le.mpr positive))
    have one := Bool.toNat_le (onNode node.id record)
    refine Or.inl ?_
    omega
  · have elsewhere : onNode node.id record = false := by
      simp only [onNode, decide_eq_false_iff_not, placed]
      exact fun counted => here counted.1.symm
    rw [elsewhere] at taken
    refine Or.inr ?_
    simp only [Bool.toNat_false] at taken
    omega

theorem put_respects (inv : Invariant deployment pool w) (stepped : put w call now = some next) :
    Respects w next (.put call now) := by
  obtain ⟨ticket, session, node, checked, selected, phase, outcome⟩ := put_cases inv stepped
  have sound : Sound w.maps w.stored (.putting ticket session node checked selected) := phase ▸ inv.sound call
  obtain ⟨-, stored, moved, least⟩ := sound
  have apart : ∀ other moment, Action.put call now ≠ .check other moment := nofun
  rcases outcome with rfl | ⟨record, id, placed, -, rfl⟩
  · refine ⟨fun id changed => absurd rfl changed, fun node known positive => Or.inr (le_refl _), ?_⟩
    exact fun other moment _ _ same => absurd same (apart other moment)
  · refine ⟨fun other changed => ?_, fun node known positive => ?_,
      fun other moment _ _ same => absurd same (apart other moment)⟩
    · have here : other = record.id := by
        by_contra different
        exact changed (AList.lookup_insert_ne different)
      subst here
      refine ⟨call, now, ticket, session, node, checked, selected, record, rfl, phase, id.symm, ?_, ?_,
        placed, moved, least⟩
      · rw [id]
        exact stored
      · exact AList.lookup_insert _
    · exact entered_capacity inv.nodes least placed known positive

theorem check_respects (inv : Invariant deployment pool w) (stepped : check w call now = some next)
    (kept : next.stored = w.stored) : Respects w next (.check call now) := by
  refine ⟨fun id changed => absurd (by rw [kept]) changed, fun node known positive => Or.inr (by rw [kept]), ?_⟩
  rintro call now ticket session ⟨⟩ phase stored pinned
  have known : Current (w.maps ticket.replica) w.stored := by
    have sound := inv.sound call
    rwa [phase] at sound
  unfold check at stepped
  rw [phase] at stepped
  dsimp only at stepped
  split at stepped
  · rename_i other looked
    have own := (known.sessions ticket.sessionID).trans stored
    exact absurd looked (unplaced_pinned own (by rw [current_pin known]; exact pinned) other)
  · cases stepped
    rfl

theorem step_respects (inv : Invariant deployment pool w) {action : Action}
    (stepped : step deployment pool w action = some next) : Respects w next action := by
  have quiet : (∀ call now, action ≠ .put call now) → (∀ call now, action ≠ .check call now) →
      Respects w next action := by
    intro reads other
    have kept := stored_kept stepped reads
    exact ⟨fun id changed => absurd (by rw [kept]) changed, fun node known positive => Or.inr (by rw [kept]),
      fun call now ticket session same => absurd same (other call now)⟩
  cases action with
  | put => exact put_respects inv stepped
  | check => exact check_respects inv stepped (stored_kept stepped nofun)
  | begin | enter | refresh | select | publish | fail | synchronise => exact quiet nofun nofun

end Respect

/-- Every step of every run puts sessions on the first of the compatible nodes below their ceiling,
    never takes a node above its ceiling, and leaves a session on its compatible node. -/
theorem assignments_respect_capacity (deployment : Deployment) (pool : String) (named : pool ≠ "")
    (start w next : World) (started : Started deployment start) (actions : List Action)
    (ran : run (step deployment pool) start actions = some w) (action : Action)
    (stepped : step deployment pool w action = some next) : Respects w next action := by
  have inv : Invariant deployment pool w := run_invariant (Invariant deployment pool)
    (fun state action next inv stepped => step_invariant named action inv stepped)
    ran (started_invariant started)
  exact step_respects inv stepped

def relayNode (id : String) (maxConnections connections : Int) : Node :=
  ⟨id, "relay", "ready", "relay.internal", "", "pool-a", ["app"], maxConnections, connections, 5, 1⟩

def twoSessions : Table Session :=
  AList.insert "session-a" createdSession
    (AList.insert "session-b" { createdSession with id := "session-b" } ∅)

def poolOf (first second : Node) : Service :=
  { freshService with
    nodes := AList.insert first.id first (AList.insert second.id second ∅)
    sessions := twoSessions }

def worldOf (first second : Node) (maps : String → Service) : World :=
  ⟨poolOf first second, maps, fun _ => none, fun _ => .idle⟩

theorem world_started {deployment : Deployment} (first second : Node) (maps : String → Service)
    (home : ∀ home, deployment = .alone home → Current (maps home) (poolOf first second)) :
    Started deployment (worldOf first second maps) := by
  refine ⟨?_, ?_, fun _ => rfl, home⟩
  · have inner : Filed Session.id (AList.insert "session-b" { createdSession with id := "session-b" } ∅) :=
      filed_insert filed_empty rfl
    have sessions : Filed Session.id twoSessions :=
      filed_insert inner (show createdSession.id = "session-a" from rfl)
    exact sessions
  · exact filed_insert (filed_insert filed_empty rfl) rfl

def chosen (call : String) : List Action := [.enter call, .refresh call, .check call 10, .select call 10]

def staleReplicas : World :=
  worldOf (relayNode "node-a" 1 0) (relayNode "node-b" 0 0) fun _ =>
    { freshService with sessions := twoSessions }

/-- The first session takes the only place on the first node. -/
theorem second_session_on_second_node : ∃ w next,
    run (step .replicated "pool-a") staleReplicas ([.begin "c1" "r1" "session-a", .begin "c2" "r2" "session-b"] ++
      chosen "c1" ++ [.put "c1" 10, .publish "c1"] ++ chosen "c2") = some w ∧
    step .replicated "pool-a" w (.put "c2" 11) = some next ∧
    (next.stored.sessions.lookup "session-a").map Session.relayNodeID = some "node-a" ∧
    (next.stored.sessions.lookup "session-b").map Session.relayNodeID = some "node-b" ∧
    Respects w next (.put "c2" 11) := by
  obtain ⟨w, next, ran, stepped, first, second⟩ : ∃ w next,
      run (step .replicated "pool-a") staleReplicas ([.begin "c1" "r1" "session-a", .begin "c2" "r2" "session-b"] ++
        chosen "c1" ++ [.put "c1" 10, .publish "c1"] ++ chosen "c2") = some w ∧
      step .replicated "pool-a" w (.put "c2" 11) = some next ∧
      (next.stored.sessions.lookup "session-a").map Session.relayNodeID = some "node-a" ∧
      (next.stored.sessions.lookup "session-b").map Session.relayNodeID = some "node-b" := by
    refine ⟨_, _, rfl, rfl, ?_, ?_⟩ <;> decide +kernel
  refine ⟨w, next, ran, stepped, first, second, ?_⟩
  exact assignments_respect_capacity .replicated "pool-a" (by decide) staleReplicas w next
    (world_started _ _ _ nofun) _ ran _ stepped

def fullNode : Node := relayNode "node-a" 1 1

def busyNode : Node := relayNode "node-b" 0 5

def oneProcess : World := worldOf fullNode busyNode fun _ => poolOf fullNode busyNode

/-- A compatible node with the least load is passed over when it is at its ceiling. -/
theorem full_node_passed_over :
    ¬ ∀ (deployment : Deployment) (pool : String) (start w next : World) (actions : List Action)
      (call : String) (now : Time) (ticket : Ticket) (session : Session) (node : Node) (checked selected : Time),
      pool ≠ "" → Started deployment start → run (step deployment pool) start actions = some w →
      w.calls call = .putting ticket session node checked selected →
      step deployment pool w (.put call now) = some next →
      next.stored.sessions.lookup ticket.sessionID ≠ w.stored.sessions.lookup ticket.sessionID →
      ∀ other ∈ values w.stored.nodes, relayNodeCompatible other session.applicationID session.poolID selected →
        Precedes w.stored node other := by
  intro always
  have started : Started (.alone "m1") oneProcess := by
    refine world_started fullNode busyNode _ ?_
    rintro home ⟨⟩
    exact ⟨rfl, fun _ => rfl⟩
  obtain ⟨w, next, ran, phase, stepped, changed, there, loads⟩ : ∃ w next,
      run (step (.alone "m1") "pool-a") oneProcess (.begin "c1" "m1" "session-a" :: chosen "c1") = some w ∧
      w.calls "c1" = .putting ⟨"m1", "session-a", "pool-a"⟩ createdSession busyNode 10 10 ∧
      step (.alone "m1") "pool-a" w (.put "c1" 11) = some next ∧
      (next.stored.sessions.lookup "session-a").map Session.relayNodeID ≠
        (w.stored.sessions.lookup "session-a").map Session.relayNodeID ∧
      fullNode ∈ values w.stored.nodes ∧ nodeLoad w.stored fullNode = 1 ∧ nodeLoad w.stored busyNode = 5 := by
    refine ⟨_, _, rfl, rfl, rfl, ?_, ?_, ?_, ?_⟩ <;> decide +kernel
  have first := always (.alone "m1") "pool-a" oneProcess w next _ "c1" 11 _ _ _ _ _ (by decide) started ran
    phase stepped (fun same => changed (by rw [same])) fullNode there (by decide +kernel)
  unfold Precedes at first
  rw [loads.1, loads.2] at first
  omega

end PieRelay.RelayAssignment
