import PieRelay.RoutingIsolation
import PieRelay.SessionRouting

/-!
Fencing of relay nodes. model.go calls `RelayGeneration` a fencing epoch: reassignment
bumps it, and the relay puts it into the routing key, so that those left on the old node
and those on the new one cannot meet. Recovery and the rebind bump it when they take a
session off its node. `EnsureSessionRelayNode` moves a session off a node that is no
longer compatible without a bump, a host event writes the node it comes from, and
`PutSession` takes whatever node the caller names.
-/
namespace PieRelay.RelayFencing
open Function Executions RoomRegistry RelayToken SessionCapability ControlPlane SessionHistory List
open SessionRouting RoutingIsolation

def Fenced (history : List Session) : Prop :=
  history.Pairwise fun newer older => older.relayGeneration ≤ newer.relayGeneration ∧
    (older.relayNodeID ≠ "" → newer.relayNodeID ≠ "" → older.relayNodeID ≠ newer.relayNodeID →
      older.relayGeneration < newer.relayGeneration)

def assignedNode : List Session → String
  | [] => ""
  | newest :: older =>
    match (newest :: older).find? fun version =>
      version.relayGeneration = newest.relayGeneration ∧ version.relayNodeID ≠ "" with
    | some version => version.relayNodeID
    | none => ""

def assignable (history : List Session) (nodeID : String) : Bool :=
  assignedNode history = "" ∨ nodeID = assignedNode history

/-- `EnsureSessionRelayNode` would look for a node: the session is on none, or on one that is not
    compatible and it is not active. -/
def seeksNode (call : Call) (sessionID : String) : Bool :=
  (call.service.sessions.lookup sessionID).any fun session =>
    onCompatibleNode call.service call.now session = false ∧
      (session.relayNodeID = "" ∨ session.status ≠ .active)

def belowMaximum : List Session → Bool
  | [] => true
  | newest :: _ => newest.relayGeneration < 2 ^ 63 - 1

/-- No node is given to a session that its generation has already put on another, and the
    generation has room. -/
def keepsFence (h : Histories) : Action → Bool
  | .putSession _ request _ => request.relayNodeID = "" ∨ assignable (h request.id) request.relayNodeID
  | .ensureSessionRelayNode reading _ sessionID =>
    assignedNode (h sessionID) = "" ∨ ¬ seeksNode reading sessionID
  | .recoverStaleRelaySession _ _ _ candidate => belowMaximum (h candidate.id)
  | .rebindManagedChatSession _ sessionID => belowMaximum (h sessionID)
  | .applyRelayPresence _ _ presence =>
    presence.kind ≠ "host" ∨ presence.hostOnline = false ∨
      assignable (h presence.sessionID) presence.nodeID

variable {older : List Session} {before record : Session} {h : Histories}

theorem fenced_generation_le {newest : Session}
    (fenced : Fenced (newest :: older)) {version : Session} (member : version ∈ newest :: older) :
    version.relayGeneration ≤ newest.relayGeneration := by
  rcases mem_cons.mp member with rfl | old
  · exact Int.le_refl _
  · exact (rel_of_pairwise_cons fenced old).1

/-- One generation, one node. -/
theorem fenced_same_node {history : List Session} (fenced : Fenced history) {a b : Session}
    (inA : a ∈ history) (inB : b ∈ history) (same : a.relayGeneration = b.relayGeneration)
    (onA : a.relayNodeID ≠ "") (onB : b.relayNodeID ≠ "") : a.relayNodeID = b.relayNodeID := by
  by_contra different
  have apart : ∀ newer ∈ history, ∀ older ∈ history, newer.relayGeneration = older.relayGeneration →
      newer.relayNodeID ≠ "" → older.relayNodeID ≠ "" → newer.relayNodeID = older.relayNodeID := by
    refine Pairwise.forall_of_forall_of_flip ?_ (fenced.imp ?_) (fenced.imp ?_)
    · intro version _ _ _ _
      rfl
    · intro newer older linked level onNewer onOlder
      by_contra other
      have risen := linked.2 onOlder onNewer (Ne.symm other)
      omega
    · intro newer older linked level onOlder onNewer
      by_contra other
      have risen := linked.2 onOlder onNewer other
      omega
  exact different (apart a inA b inB same onA onB)

theorem assigned_node_of {newest version : Session}
    (fenced : Fenced (newest :: older)) (member : version ∈ newest :: older)
    (level : version.relayGeneration = newest.relayGeneration) (placed : version.relayNodeID ≠ "") :
    assignedNode (newest :: older) = version.relayNodeID := by
  simp only [assignedNode]
  split
  · rename_i found
    have holds := find?_some found
    simp only [decide_eq_true_eq] at holds
    exact fenced_same_node fenced (mem_of_find?_eq_some found) member (holds.1.trans level.symm) holds.2 placed
  · rename_i missing
    have excluded := find?_eq_none.mp missing version member
    simp [level, placed] at excluded

theorem next_generation_below {generation : Int} (nonnegative : 0 ≤ generation)
    (below : generation < 2 ^ 63 - 1) : nextGeneration generation = generation + 1 := by
  have size : ((2 ^ 64 : Nat) : Int) = 18446744073709551616 := rfl
  have small : (generation + 1).bmod (2 ^ 64) = generation + 1 :=
    Int.bmod_eq_of_le (by omega) (by omega)
  unfold nextGeneration
  dsimp only
  rw [small, if_neg (by omega)]

/-- The record that replaces `before` and keeps the generation may only name the node of that
    generation. -/
theorem kept_fenced (fenced : Fenced (before :: older)) (kept : GenerationKept before record)
    (node : record.relayNodeID = "" ∨ assignedNode (before :: older) = "" ∨
      record.relayNodeID = assignedNode (before :: older)) : Fenced (record :: before :: older) := by
  refine pairwise_cons.mpr ⟨fun version member => ?_, fenced⟩
  have below := fenced_generation_le fenced member
  have risen : before.relayGeneration ≤ record.relayGeneration := by
    rcases kept with same | ⟨zero, one⟩
    · omega
    · omega
  refine ⟨by omega, fun placed moved different => ?_⟩
  -- at the same generation the old node would be the assigned one
  by_contra level
  have same : version.relayGeneration = before.relayGeneration := by omega
  have assigned := assigned_node_of fenced member same placed
  rcases node with unplaced | free | again
  · exact moved unplaced
  · exact placed (assigned.symm.trans free)
  · exact different (assigned.symm.trans again.symm)

theorem bumped_fenced (fenced : Fenced (before :: older)) (risen : before.relayGeneration < record.relayGeneration) :
    Fenced (record :: before :: older) := by
  refine pairwise_cons.mpr ⟨fun version member => ?_, fenced⟩
  have below := fenced_generation_le fenced member
  exact ⟨by omega, fun _ _ _ => by omega⟩

theorem assignable_node {history : List Session} {nodeID : String} (fits : assignable history nodeID) :
    assignedNode history = "" ∨ nodeID = assignedNode history := by
  simpa [assignable] using fits

theorem replaces_fenced {action : Action} (formed : WellFormed h) (history : h before.id = before :: older)
    (fenced : Fenced (before :: older)) (replaces : Replaces action before record)
    (keeps : keepsFence h action) : Fenced (record :: before :: older) := by
  have nonnegative := formed.generation before.id before (by simp [history])
  have room : belowMaximum (before :: older) → record.relayGeneration = nextGeneration before.relayGeneration →
      before.relayGeneration < record.relayGeneration := by
    intro below bumped
    rw [bumped, next_generation_below nonnegative (by simpa [belowMaximum] using below)]
    omega
  cases replaces with
  | put call request expected _ _ named kept node =>
    refine kept_fenced fenced kept ?_
    simp only [keepsFence, named, history, decide_eq_true_eq] at keeps
    rw [node]
    exact keeps.imp_right assignable_node
  | ensured reading writing _ _ kept displaced idle read =>
    refine kept_fenced fenced kept (Or.inr (Or.inl ?_))
    simp only [keepsFence, history, decide_eq_true_eq] at keeps
    refine keeps.resolve_right fun settled => settled ?_
    simp [seeksNode, read, displaced, idle]
  | recovered reading writing staleAfter candidate _ _ named bumped =>
    refine bumped_fenced fenced (room ?_ bumped)
    simpa [keepsFence, named, history] using keeps
  | rebound call _ _ bumped =>
    refine bumped_fenced fenced (room ?_ bumped)
    simpa [keepsFence, history] using keeps
  | present reading writing presence _ _ kept session host node =>
    refine kept_fenced fenced kept ?_
    rcases node with same | ⟨online, here⟩
    · by_cases unplaced : before.relayNodeID = ""
      · exact Or.inl (same.trans unplaced)
      · rw [assigned_node_of fenced mem_cons_self rfl unplaced]
        exact Or.inr (Or.inr same)
    · simp only [keepsFence, session, history, decide_eq_true_eq] at keeps
      rw [here]
      refine Or.inr (assignable_node ((keeps.resolve_left fun other => other host).resolve_left ?_))
      simp [online]

theorem step_fenced {next : Histories} {action : Action} (formed : WellFormed h)
    (fenced : ∀ name, Fenced (h name)) (keeps : keepsFence h action)
    (stepped : step h action = some next) : ∀ name, Fenced (next name) := by
  rcases step_cases formed stepped with rfl | ⟨record, -, rfl, origin⟩
  · exact fenced
  · intro name
    by_cases here : name = record.id
    · subst here
      rw [update_self]
      rcases origin with ⟨empty, -⟩ | ⟨before, older, history, -, replaces⟩
      · rw [empty]
        exact pairwise_singleton _ _
      · have filed := formed.filed record.id before (by simp [history])
        rw [history]
        exact replaces_fenced formed (filed ▸ history) (history ▸ fenced record.id) replaces keeps
    · rw [update_of_ne here]
      exact fenced name

/-! Routing keys of two generations. The room of generation zero is a user id: `MintSession` hashes
only rooms of sessions that have a generation. -/

theorem record_part_clean {text : String} (valid : validID text) : Clean text := by
  simp only [validID, OperationStore.validRecordPart, decide_eq_true_eq] at valid
  intro member
  have allowed := all_eq_true.mp valid.2.2.2.2 _ member
  exact absurd allowed (by decide)

theorem separated_not_clean (left right : String) : ¬ Clean (separated left right) := by
  simp [Clean, separated]

theorem generations_apart {a b : Identity} (first : Routable a) (second : Routable b)
    (left : Scoped a) (right : Scoped b) (risen : a.relayGeneration < b.relayGeneration)
    (clean : a.relayGeneration = 0 → Clean a.room) : routingKey a ≠ routingKey b := by
  have nonnegative := first.generation
  intro same
  have isolated : Isolated a b := by
    by_cases zero : a.relayGeneration = 0
    · refine (isolated_generation left zero right (by omega) first second).mpr ⟨?_, ?_⟩
      · rintro (⟨unscoped, -⟩ | ⟨unscoped, -⟩ | ⟨-, -, -, -, spelled, -⟩)
        · exact unscoped left
        · exact unscoped left
        · exact separated_not_clean _ _ (spelled ▸ clean zero)
      · rintro (⟨unscoped, -⟩ | ⟨unscoped, -⟩ | ⟨-, none, -⟩)
        · exact unscoped right
        · exact unscoped right
        · omega
    · refine (isolated_same_shape first second (Or.inr (Or.inr ⟨left, right, by omega, by omega⟩))).mpr ⟨?_, ?_⟩
      · rintro (⟨unscoped, -⟩ | ⟨unscoped, -⟩ | ⟨-, none, -⟩)
        · exact unscoped left
        · exact unscoped left
        · exact zero none
      · rintro (⟨unscoped, -⟩ | ⟨unscoped, -⟩ | ⟨-, none, -⟩)
        · exact unscoped right
        · exact unscoped right
        · omega
  have level := ((isolated.1 same).2 (Or.inl left)).2.2
  omega

/-- A host left with a credential of `older` and anybody with one of `newer` never share a key, on
    whichever nodes they are. -/
def NeverMeet {Token : Type} (jwt : Jwt Token) (hmacSHA256 : Secret → List UInt8 → List UInt8)
    (i : Issuer) (older newer : Session) : Prop :=
  ∀ left right request host guest, left.secret = i.secret → right.secret = i.secret →
    Admits jwt hmacSHA256 i left (hostCredential older) host →
    Admits jwt hmacSHA256 i right (participantCredential newer request) guest →
    routingKey host ≠ routingKey guest

section Separation
variable {Token : Type} {jwt : Jwt Token} {hmacSHA256 : Secret → List UInt8 → List UInt8} {i : Issuer}
  {j : JWTAuth} {session : Session} {value : SessionCredential} {id : Identity}

theorem admitted_routable (faithful : Faithful jwt) (shared : j.secret = i.secret)
    (scope : CredentialOf session value) (nonnegative : 0 ≤ session.relayGeneration)
    (admitted : Admits jwt hmacSHA256 i j value id) :
    Routable id ∧ Scoped id ∧ id.relayGeneration = session.relayGeneration := by
  obtain ⟨now, clock, random, minted, made, live, accepted⟩ := admitted
  have routed := minted_routed faithful shared made live accepted (scope.generation ▸ nonnegative)
  obtain ⟨tokenID, issued⟩ := mint_session_issued jwt hmacSHA256 i now random value minted made
  refine ⟨verified_routable jwt j clock minted.token id accepted, ?_, routed.generation.trans scope.generation⟩
  rintro ⟨device, -⟩
  exact issued.device (routed.deviceID.symm.trans device)

theorem admitted_room_clean (faithful : Faithful jwt) (shared : j.secret = i.secret)
    (scope : CredentialOf session value) (zero : session.relayGeneration = 0)
    (owner : validID session.ownerUserID) (admitted : Admits jwt hmacSHA256 i j value id) :
    Clean id.room := by
  obtain ⟨now, clock, random, minted, made, live, accepted⟩ := admitted
  have level : value.relayGeneration = 0 := scope.generation.trans zero
  have routed := minted_routed faithful shared made live accepted (by omega)
  obtain ⟨tokenID, issued⟩ := mint_session_issued jwt hmacSHA256 i now random value minted made
  have resolved := mint_session_room jwt hmacSHA256 made
  have unscoped : ¬ hasResourceContext value := by
    intro context
    have positive := (issued.context context).2
    omega
  unfold sessionRoom at resolved
  rw [if_neg unscoped] at resolved
  rw [routed.room, ← Except.ok.inj resolved, scope.room]
  exact record_part_clean owner

end Separation

theorem risen_never_meet {Token : Type} {jwt : Jwt Token} (faithful : Faithful jwt)
    (hmacSHA256 : Secret → List UInt8 → List UInt8) (i : Issuer) {older newer : Session}
    (owner : validID older.ownerUserID) (nonnegative : 0 ≤ older.relayGeneration)
    (risen : older.relayGeneration < newer.relayGeneration) :
    NeverMeet jwt hmacSHA256 i older newer := by
  intro left right request host guest sharedLeft sharedRight onHost onGuest
  obtain ⟨first, scopedHost, levelHost⟩ := admitted_routable faithful sharedLeft
    (host_credential_of older) nonnegative onHost
  obtain ⟨second, scopedGuest, levelGuest⟩ := admitted_routable faithful sharedRight
    (participant_credential_of newer request) (by omega) onGuest
  refine generations_apart first second scopedHost scopedGuest (by omega) fun zero => ?_
  exact admitted_room_clean faithful sharedLeft (host_credential_of older) (levelHost ▸ zero) owner onHost

theorem loaded_fenced (loaded : Loaded h) (name : String) : Fenced (h name) := by
  have single := loaded.single name
  unfold Fenced
  cases history : h name with
  | nil => exact .nil
  | cons newest older =>
    rw [history] at single
    have none : older = [] := length_eq_zero_iff.mp (by simpa using single)
    rw [none]
    exact pairwise_singleton _ _

theorem run_fenced {after : Histories} {actions : List Action} (loaded : Loaded h)
    (kept : Guarded step (fun h action => keepsFence h action) h actions)
    (ran : run step h actions = some after) : WellFormed after ∧ ∀ name, Fenced (after name) := by
  refine guarded_run_invariant (fun h => WellFormed h ∧ ∀ name, Fenced (h name)) ?_ kept ran
    ⟨loaded.wellFormed, loaded_fenced loaded⟩
  rintro state action next keeps ⟨formed, fenced⟩ stepped
  exact ⟨step_well_formed formed stepped, step_fenced formed fenced keeps stepped⟩

/-- As long as no session is put on a second node within one generation, its stored versions are
    fenced, and a host left on one node never meets those on another. -/
theorem relay_fencing {Token : Type} (jwt : Jwt Token) (faithful : Faithful jwt)
    (hmacSHA256 : Secret → List UInt8 → List UInt8) (i : Issuer) (h after : Histories)
    (loaded : Loaded h) (actions : List Action)
    (kept : Guarded step (fun h action => keepsFence h action) h actions)
    (ran : run step h actions = some after) (name : String) :
    Fenced (after name) ∧ (after name).Pairwise fun newer older =>
      older.relayNodeID ≠ "" → newer.relayNodeID ≠ "" → older.relayNodeID ≠ newer.relayNodeID →
        NeverMeet jwt hmacSHA256 i older newer := by
  obtain ⟨formed, fenced⟩ := run_fenced loaded kept ran
  refine ⟨fenced name, (fenced name).imp_of_mem ?_⟩
  intro newer older _ member linked placed moved different
  exact risen_never_meet faithful hmacSHA256 i (formed.owner name older member)
    (formed.generation name older member) (linked.2 placed moved different)

def relayNode (id : String) (heartbeat : Time) : Node :=
  ⟨id, "relay", "ready", "https://relay", "", "pool-a", ["app"], 0, 0, heartbeat, 1⟩

def processAt (now : Time) (session : Session) : Call where
  service := { freshService with
    nodes := AList.insert "node-b" (relayNode "node-b" now)
      (AList.insert "node-a" (relayNode "node-a" (100 * second)) ∅)
    sessions := AList.insert "session-a" session ∅ }
  now := now
  fresh := ""

def placed : Session := stamped { createdSession with relayNodeID := "node-a" } 5 (100 * second) 1

def recovered : Session :=
  stamped { placed with
    status := .reconnecting
    relayNodeID := ""
    relayGeneration := 2
    lastError := "assigned Relay node lease expired; reconnecting on a healthy node" } 5 (300 * second) 2

def ensureAt (now : Time) (session : Session) : Action :=
  .ensureSessionRelayNode (processAt now session) (processAt now session) "session-a"

def placing : List Action :=
  [.putSession ⟨freshService, 5, ""⟩ newSession 0, ensureAt (100 * second) createdSession]

def recovering : List Action :=
  [.recoverStaleRelaySession (processAt (300 * second) placed) (processAt (300 * second) placed) 0 placed,
    ensureAt (300 * second) recovered]

theorem no_history_loaded : Loaded noHistory := ⟨no_history_well_formed, fun _ => Nat.zero_le 1⟩

def placements (actions : List Action) : Option (List (String × Int)) :=
  (run step noHistory actions).map fun h =>
    (h "session-a").map fun version => (version.relayNodeID, version.relayGeneration)

theorem relay_fencing_recovered : ∃ after, run step noHistory (placing ++ recovering) = some after ∧
      (after "session-a").map (fun version => (version.relayNodeID, version.relayGeneration)) =
        [("node-b", 2), ("", 2), ("node-a", 1), ("", 1)] ∧
      Fenced (after "session-a") := by
  have stored : placements (placing ++ recovering) =
      some [("node-b", 2), ("", 2), ("node-a", 1), ("", 1)] := by decide +kernel
  obtain ⟨after, ran, versions⟩ := Option.map_eq_some_iff.mp stored
  refine ⟨after, ran, versions, (relay_fencing recordingJwt recording_faithful (fun _ _ => []) issuer
    noHistory after no_history_loaded (placing ++ recovering) ?_ ran "session-a").1⟩
  exact checked_guarded keepsFence (fun _ _ passed => passed) _ _ (by decide +kernel)

/-- The node of a session that is not active goes stale, and the next credential moves the session:
    the same generation on two nodes. -/
theorem relay_fencing_moved : Loaded noHistory ∧ ∃ after,
      run step noHistory (placing ++ [ensureAt (300 * second) placed]) = some after ∧
      ¬ Fenced (after "session-a") := by
  have stored : placements (placing ++ [ensureAt (300 * second) placed]) =
      some [("node-b", 1), ("node-a", 1), ("", 1)] := by decide +kernel
  obtain ⟨after, ran, versions⟩ := Option.map_eq_some_iff.mp stored
  refine ⟨no_history_loaded, after, ran, fun fenced => ?_⟩
  have pairs : ((after "session-a").map fun version =>
      (version.relayNodeID, version.relayGeneration)).Pairwise fun newer older =>
        older.2 ≤ newer.2 ∧ (older.1 ≠ "" → newer.1 ≠ "" → older.1 ≠ newer.1 → older.2 < newer.2) :=
    pairwise_map.mpr fenced
  rw [versions] at pairs
  exact absurd pairs (by decide)

end PieRelay.RelayFencing
