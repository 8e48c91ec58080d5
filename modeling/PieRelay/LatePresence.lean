import PieRelay.PresenceHandler

/-!
Presence events and status reports that come late. Whoever has read a session decides by what he
has read, and the store refuses him if it is not the newest version: so a session that is closing
or closed is not opened again. An event that a process has applied without an error is remembered
there, and does nothing more while it is.
-/
namespace PieRelay.LatePresence
open Function Executions ControlPlane Retention PresenceHandler Option
open SessionHistory (Call Histories WellFormed Loaded seen seen_lookup put_replaces)
open RelayToken (bind_ok)
open RoomRegistry (Time)

def shut (status : SessionStatus) : Bool := status = .closing ∨ status = .closed

section Statuses
variable {session : Session}

theorem presence_status (event : RelayPresence) (closed : shut session.status) :
    (hostPresence session event).1.status = session.status := by
  simp only [shut, decide_eq_true_eq] at closed
  unfold hostPresence
  rcases closed with status | status <;> simp [status]

theorem report_status {s : Service} {now : Time} {deviceID sessionID : String} {report : StatusReport}
    {request : Session} (reported : reportDeviceSessionStatus s now deviceID sessionID report = .ok (some request)) :
    ∃ session, s.sessions.lookup sessionID = some session ∧
      (request.id = session.id ∧ request.version = session.version ∧
        request.relayGeneration = session.relayGeneration) ∧
      (shut session.status → request.status = .closed) := by
  simp only [reportDeviceSessionStatus, bind_ok, demand_ok, found_ok, exists_const, decide_eq_true_eq] at reported
  obtain ⟨device, -, -, -, session, stored, -, late, reported⟩ := reported
  split at reported
  · cases reported
  · cases reported
    refine ⟨session, stored, ?_, fun closed => ?_⟩
    · unfold reportedSession
      split <;> exact ⟨rfl, rfl, rfl⟩
    · simp only [shut, decide_eq_true_eq] at closed
      have last : report.status = .closed := by
        rcases late with ⟨notClosing, notClosed⟩ | last
        · exact absurd closed (not_or.mpr ⟨notClosing, notClosed⟩)
        · exact last
      simp [reportedSession, last]

end Statuses

structure Invariant (w : World) : Prop where
  formed : WellFormed w.records.sessions
  read : ∀ call, Read w.records.sessions (w.calls call)
  shutStays : ∀ id, (w.records.sessions id).Pairwise fun newer older =>
    shut older.status → shut newer.status
  locks : ∀ call key, (w.calls call).held = some key → w.locks key = some call
  fresh : ∀ call process id, (w.calls call).held = some (process, id) → id ∉ (w.windows process).seen
  sound : ∀ process, Sound (w.windows process)
  recent : ∀ process, Recent 10000 2000 (w.windows process) (w.applied process)

/-- The histories after a step: nothing is stored, or a record over the version that was read, which is
    the newest one. -/
def Follows (w next : World) (presence : Prop) : Prop :=
  next.records.sessions = w.records.sessions ∨
    ∃ record newest older, w.records.sessions record.id = newest :: older ∧
      next.records.sessions = update w.records.sessions record.id (record :: w.records.sessions record.id) ∧
      WellFormed next.records.sessions ∧
      (shut newest.status → record.status = .closed ∨ presence ∧ record.status = newest.status)

section Steps
variable {w next : World} {call : String}
variable {writing : Call} {id : String} {presence : Prop} {phase : Phase}

/-- The session is written over the version that was read. -/
theorem write_follows (formed : WellFormed w.records.sessions)
    {session request record : Session} (read : session ∈ w.records.sessions id)
    (same : request.id = session.id ∧ request.version = session.version ∧
      request.relayGeneration = session.relayGeneration)
    (put : putSession writing.service writing.now writing.fresh request request.version false = .ok record)
    (taken : fits w.records (.session record)) (status : shut session.status →
      request.status = .closed ∨ presence ∧ request.status = session.status)
    (after : next.records = write w.records (.session record)) : Follows w next presence := by
  obtain ⟨named, ⟨older, history⟩, formedNext, kept⟩ :=
    put_replaces formed read same put (by simpa [fits] using taken)
  subst named
  have stored : next.records.sessions =
      update w.records.sessions record.id (record :: w.records.sessions record.id) := by
    rw [after]
    rfl
  refine Or.inr ⟨record, session, older, history, stored, stored ▸ formedNext, fun closed => ?_⟩
  rw [kept]
  rcases status closed with last | ⟨is, unchanged⟩
  · rw [last]
    exact Or.inl rfl
  · refine Or.inr ⟨is, ?_⟩
    rw [unchanged, if_neg]
    intro unset
    simp [shut, unset] at closed

theorem hand_on_follows (formed : WellFormed w.records.sessions) (id : String)
    {answer : Except ServiceError (Option Session)}
    (decided : ∀ request, answer = .ok (some request) → ∃ session, session ∈ w.records.sessions id ∧
      (request.id = session.id ∧ request.version = session.version ∧
        request.relayGeneration = session.relayGeneration) ∧
      (shut session.status → request.status = .closed)) :
    Follows w (handOn w writing answer) False ∧ (handOn w writing answer).calls = w.calls ∧
      (handOn w writing answer).locks = w.locks ∧ (handOn w writing answer).windows = w.windows ∧
      (handOn w writing answer).applied = w.applied := by
  unfold handOn
  split
  · rename_i request
    obtain ⟨session, read, same, status⟩ := decided request rfl
    split
    · rename_i put
      split
      · rename_i taken
        refine ⟨write_follows formed read same put taken (fun closed => Or.inl (status closed)) rfl, ?_⟩
        exact ⟨rfl, rfl, rfl, rfl⟩
      · exact ⟨Or.inl rfl, rfl, rfl, rfl, rfl⟩
    · exact ⟨Or.inl rfl, rfl, rfl, rfl, rfl⟩
  · exact ⟨Or.inl rfl, rfl, rfl, rfl, rfl⟩

theorem settle_follows (inv : Invariant w) {m : Moment} {turn : Turn}
    (turned : advance m (w.calls call) = some turn) : Follows w (settle w call turn) True := by
  unfold settle
  split
  · rename_i taken
    have hands := (advance_turns turned).hands
    have read := inv.read call
    generalize w.calls call = phase at hands read
    generalize turned : turn.change = change at hands taken
    cases hands with
    | session ticket request device meaningfulChange record put =>
      obtain ⟨session, member, rfl⟩ := read
      obtain ⟨sameID, sameVersion, sameGeneration, -⟩ := host_presence_session session ticket.event.toRelayPresence
      refine write_follows inv.formed member ⟨sameID, sameVersion, sameGeneration⟩ put taken ?_ rfl
      exact fun closed => Or.inr ⟨trivial, presence_status _ closed⟩
    | nothing | node | participant | noParticipant | host | registered | observed => exact Or.inl rfl
  · exact Or.inl rfl

theorem follows_kept (follows : Follows w next presence) {version : Session}
    (member : version ∈ w.records.sessions id) : version ∈ next.records.sessions id := by
  rcases follows with same | ⟨record, newest, older, -, stored, -⟩
  · rw [same]
    exact member
  · rw [stored]
    by_cases here : id = record.id
    · subst here
      rw [update_self]
      exact List.mem_cons_of_mem _ member
    · rwa [update_of_ne here]

theorem follows_formed (inv : Invariant w) (follows : Follows w next presence) : WellFormed next.records.sessions := by
  rcases follows with same | ⟨record, newest, older, -, stored, formed, -⟩
  · rw [same]
    exact inv.formed
  · exact formed

-- The newest version is shut as soon as any is.
theorem newest_shut (inv : Invariant w) {newest version : Session} {older : List Session}
    (history : w.records.sessions id = newest :: older) (member : version ∈ w.records.sessions id)
    (closed : shut version.status) : shut newest.status := by
  have stays := inv.shutStays id
  rw [history] at stays member
  rcases List.mem_cons.mp member with rfl | old
  · exact closed
  · exact List.rel_of_pairwise_cons stays old closed

theorem follows_shut (inv : Invariant w) (follows : Follows w next presence) (id : String) :
    (next.records.sessions id).Pairwise fun newer older => shut older.status → shut newer.status := by
  rcases follows with same | ⟨record, newest, older, history, stored, -, status⟩
  · rw [same]
    exact inv.shutStays id
  · rw [stored]
    by_cases here : id = record.id
    · subst here
      rw [update_self]
      refine List.pairwise_cons.mpr ⟨fun version member closed => ?_, inv.shutStays record.id⟩
      have before := newest_shut inv history member closed
      rcases status before with last | ⟨-, unchanged⟩
      · simp [shut, last]
      · rw [unchanged]
        exact before
    · rw [update_of_ne here]
      exact inv.shutStays id

theorem read_kept {sessions later : Histories} (kept : ∀ id version, version ∈ sessions id → version ∈ later id) (read : Read sessions phase) : Read later phase := by
  cases phase with
  | placing | hosting => exact kept _ _ read
  | putting =>
    obtain ⟨session, member, same⟩ := read
    exact ⟨session, kept _ _ member, same⟩
  | _ => trivial

section
variable (inv : Invariant w)
include inv

theorem moved_invariant (presence : Prop) {records : Records}
    (follows : Follows w { w with records := records } presence) (held : phase.held = (w.calls call).held)
    (read : Read records.sessions phase) : Invariant (moveTo { w with records := records } call phase) := by
  have same : ∀ other, (update w.calls call phase other).held = (w.calls other).held := by
    intro other
    by_cases own : other = call
    · subst own
      rw [update_self, held]
    · rw [update_of_ne own]
  refine ⟨follows_formed inv follows, fun other => ?_, follows_shut inv follows, fun other key taken => ?_,
    fun other process id taken => ?_, inv.sound, inv.recent⟩
  · by_cases own : other = call
    · subst own
      simpa only [moveTo, update_self] using read
    · simp only [moveTo, update_of_ne own]
      exact read_kept (fun _ _ => follows_kept follows) (inv.read other)
  · exact inv.locks other key ((same other).symm.trans taken)
  · exact inv.fresh other process id ((same other).symm.trans taken)

theorem quiet_invariant (held : phase.held = (w.calls call).held)
    (read : Read w.records.sessions phase) : Invariant (moveTo w call phase) :=
  moved_invariant inv True (Or.inl rfl) held read

theorem settle_invariant {m : Moment} (known : seen w.records.sessions m.call)
    {turn : Turn} (turned : advance m (w.calls call) = some turn) : Invariant (settle w call turn) := by
  have follows := settle_follows inv turned
  have turns := advance_turns turned
  unfold settle at follows ⊢
  split at follows
  · rename_i taken
    rw [if_pos taken]
    refine moved_invariant inv True follows (leads_held turns.accepted) ?_
    exact read_kept (fun _ _ => follows_kept follows) (leads_read known (inv.read call) turns.accepted)
  · rename_i conflict
    rw [if_neg conflict]
    exact quiet_invariant inv (leads_held turns.refused) (leads_read known (inv.read call) turns.refused)

theorem enter_invariant (stepped : enter w call = some next) : Invariant next := by
  unfold enter at stepped
  split at stepped
  · rename_i ticket waiting
    split at stepped
    · rename_i free
      split at stepped
      · cases stepped
        exact quiet_invariant inv (by rw [waiting]; rfl) trivial
      · rename_i unseen
        cases stepped
        refine ⟨inv.formed, fun other => ?_, inv.shutStays, fun other key taken => ?_,
          fun other process id taken => ?_, inv.sound, inv.recent⟩
        · by_cases own : other = call
          · subst own
            simp only [moveTo, update_self]
            trivial
          · simpa only [moveTo, update_of_ne own] using inv.read other
        · by_cases own : other = call
          · subst own
            simp only [moveTo, update_self, Phase.held, some.injEq] at taken
            subst taken
            simp [moveTo]
          · simp only [moveTo, update_of_ne own] at taken
            have holder := inv.locks other key taken
            have different : key ≠ ticket.key := by
              intro same
              rw [same, free] at holder
              cases holder
            simpa only [moveTo, update_of_ne different] using holder
        · by_cases own : other = call
          · subst own
            simp only [moveTo, update_self, Phase.held, Ticket.key, some.injEq, Prod.mk.injEq] at taken
            obtain ⟨rfl, rfl⟩ := taken
            exact unseen
          · simp only [moveTo, update_of_ne own] at taken
            exact inv.fresh other process id taken
    · cases stepped
  · cases stepped

theorem left_invariant {ticket : Ticket} {succeeded : Bool} (phase : w.calls call = .ending ticket succeeded) :
    Invariant (moveTo { w with locks := update w.locks ticket.key none } call .idle) := by
  have own : w.locks ticket.key = some call := inv.locks call ticket.key (by rw [phase]; rfl)
  refine ⟨inv.formed, fun other => ?_, inv.shutStays, fun other key taken => ?_,
    fun other process id taken => ?_, inv.sound, inv.recent⟩
  · by_cases same : other = call
    · subst same
      simp only [moveTo, update_self]
      trivial
    · simpa only [moveTo, update_of_ne same] using inv.read other
  · by_cases same : other = call
    · subst same
      simp only [moveTo, update_self] at taken
      cases taken
    · simp only [moveTo, update_of_ne same] at taken
      have holder := inv.locks other key taken
      have different : key ≠ ticket.key := by
        intro equal
        rw [equal, own] at holder
        exact same (some.inj holder).symm
      simpa only [moveTo, update_of_ne different] using holder
  · by_cases same : other = call
    · subst same
      simp only [moveTo, update_self] at taken
      cases taken
    · simp only [moveTo, update_of_ne same] at taken
      exact inv.fresh other process id taken

theorem finish_invariant (stepped : finish w call = some next) : Invariant next := by
  unfold finish at stepped
  split at stepped
  · rename_i ticket succeeded phase
    have left := left_invariant inv phase
    have unseen : ticket.event.eventID ∉ (w.windows ticket.process).seen :=
      inv.fresh call ticket.process ticket.event.eventID (by rw [phase]; rfl)
    dsimp only at stepped
    split at stepped
    · cases stepped
      refine ⟨left.formed, left.read, left.shutStays, left.locks, fun other process id taken => ?_,
        fun process => ?_, fun process => ?_⟩
      · -- whoever else is at work holds the lock of another event
        have before := left.fresh other process id taken
        by_cases here : process = ticket.process
        · subst here
          have different : id ≠ ticket.event.eventID := by
            rintro rfl
            have holder := left.locks other ticket.key taken
            simp [moveTo] at holder
          simp only [update_self]
          exact fun kept => before (remember_seen kept different)
        · simpa only [moveTo, update_of_ne here] using before
      · by_cases here : process = ticket.process
        · subst here
          simp only [update_self]
          exact remember_sound (inv.sound ticket.process) unseen
        · simpa only [moveTo, update_of_ne here] using inv.sound process
      · by_cases here : process = ticket.process
        · subst here
          simp only [update_self]
          exact remember_recent (inv.recent ticket.process)
        · simpa only [moveTo, update_of_ne here] using inv.recent process
    · cases stepped
      exact left
  · cases stepped

theorem report_follows {reading : Call} {deviceID sessionID : String} {report : StatusReport}
    (stepped : step w (.report reading writing deviceID sessionID report) = some next) :
    Follows w next False ∧ next.calls = w.calls ∧ next.locks = w.locks ∧ next.windows = w.windows ∧
      next.applied = w.applied := by
  simp only [step] at stepped
  split at stepped
  · rename_i known
    cases stepped
    refine hand_on_follows inv.formed sessionID fun request reported => ?_
    obtain ⟨session, stored, same, status⟩ := report_status reported
    exact ⟨session, seen_lookup known.1 stored, same, status⟩
  · cases stepped

theorem close_follows {reading : Call} {sessionID : String}
    (stepped : step w (.close reading writing sessionID) = some next) :
    Follows w next False ∧ next.calls = w.calls ∧ next.locks = w.locks ∧ next.windows = w.windows ∧
      next.applied = w.applied := by
  simp only [step] at stepped
  split at stepped
  · rename_i known
    cases stepped
    refine hand_on_follows inv.formed sessionID fun request closed => ?_
    obtain ⟨session, stored, same, status⟩ := close_status closed
    exact ⟨session, seen_lookup known.1 stored, same, fun _ => status⟩
  · cases stepped

-- A session is handed on and no handler moves.
theorem handed_invariant (handed : Follows w next False ∧ next.calls = w.calls ∧
    next.locks = w.locks ∧ next.windows = w.windows ∧ next.applied = w.applied) : Invariant next := by
  obtain ⟨follows, calls, locks, windows, applied⟩ := handed
  refine ⟨follows_formed inv follows, fun call => ?_, follows_shut inv follows, ?_, ?_, ?_, ?_⟩
  · rw [calls]
    exact read_kept (fun _ _ => follows_kept follows) (inv.read call)
  · rw [calls, locks]
    exact inv.locks
  · rw [calls, windows]
    exact inv.fresh
  · rw [windows]
    exact inv.sound
  · rw [windows, applied]
    exact inv.recent

end

theorem step_invariant (action : Action) (inv : Invariant w) (stepped : step w action = some next) :
    Invariant next := by
  cases action with
  | begin call process event =>
    change begin w call process event = some next at stepped
    unfold begin at stepped
    split at stepped
    · rename_i idle
      split at stepped
      · cases stepped
        exact quiet_invariant inv (by rw [idle]; rfl) trivial
      · cases stepped
    · cases stepped
  | enter => exact enter_invariant inv stepped
  | advance =>
    simp only [step] at stepped
    split at stepped
    · rename_i known
      obtain ⟨turn, turned, rfl⟩ := map_eq_some_iff.mp stepped
      exact settle_invariant inv known turned
    · cases stepped
  | fail =>
    obtain ⟨phase, gone, rfl⟩ := map_eq_some_iff.mp stepped
    obtain ⟨held, read⟩ := failed_held gone
    exact quiet_invariant inv held (read _)
  | finish => exact finish_invariant inv stepped
  | report => exact handed_invariant inv (report_follows inv stepped)
  | close => exact handed_invariant inv (close_follows inv stepped)
  | reconcile call executor =>
    change reconcile w call executor = some next at stepped
    unfold reconcile at stepped
    split at stepped
    · rename_i idle
      cases stepped
      exact quiet_invariant inv (by rw [idle]; rfl) trivial
    · cases stepped

end Steps

def lately (w : World) (process : String) : List String :=
  (w.applied process).drop ((w.applied process).length - 8000)

/-- A step stores over a session that has been closing or closed only closed versions, or, for
    presence, versions with its status; and only a handler whose event is not remembered in its
    process makes a step. -/
structure Safe (w : World) (action : Action) (next : World) : Prop where
  stores : ∀ id, next.records.sessions id = w.records.sessions id ∨
    ∃ record newest older, w.records.sessions id = newest :: older ∧
      next.records.sessions id = record :: newest :: older ∧
      ((∃ version ∈ w.records.sessions id, shut version.status) → record.status = .closed ∨
        (∃ call m, action = .advance call m) ∧ record.status = newest.status)
  once : ∀ call m process id, action = .advance call m → (w.calls call).held = some (process, id) →
    id ∉ (w.windows process).seen
  retained : ∀ process id, id ∈ lately w process → id ∈ (w.windows process).seen

structure Started (w : World) : Prop where
  loaded : Loaded w.records.sessions
  idle : ∀ call, w.calls call = .idle
  windows : ∀ process, w.windows process = Retention.empty
  applied : ∀ process, w.applied process = []

section Safety
variable {w next : World}

theorem started_invariant (started : Started w) : Invariant w := by
  refine ⟨started.loaded.wellFormed, fun call => ?_, fun id => ?_, fun call key taken => ?_,
    fun call process id taken => ?_, fun process => ?_, fun process => ?_⟩
  · rw [started.idle]
    trivial
  · have short := started.loaded.single id
    match history : w.records.sessions id with
    | [] => exact .nil
    | [only] => exact List.pairwise_singleton _ only
    | first :: second :: rest =>
      rw [history] at short
      simp at short
  · rw [started.idle] at taken
    cases taken
  · rw [started.idle] at taken
    cases taken
  · rw [started.windows]
    exact empty_sound
  · rw [started.windows, started.applied]
    exact empty_recent

theorem follows_stores (inv : Invariant w) {presence : Prop} (follows : Follows w next presence) (id : String) :
    next.records.sessions id = w.records.sessions id ∨ ∃ record newest older, w.records.sessions id = newest :: older ∧
        next.records.sessions id = record :: newest :: older ∧
        ((∃ version ∈ w.records.sessions id, shut version.status) → record.status = .closed ∨
          presence ∧ record.status = newest.status) := by
  rcases follows with same | ⟨record, newest, older, history, stored, -, status⟩
  · exact Or.inl (congrFun same id)
  · by_cases here : id = record.id
    · subst here
      refine Or.inr ⟨record, newest, older, history, ?_, ?_⟩
      · rw [stored, update_self, history]
      · rintro ⟨version, member, closed⟩
        exact status (newest_shut inv history member closed)
    · refine Or.inl ?_
      rw [stored, update_of_ne here]

theorem step_follows (inv : Invariant w) {action : Action} (stepped : step w action = some next) :
    Follows w next (∃ call m, action = .advance call m) := by
  have weaken : Follows w next False → Follows w next (∃ call m, action = .advance call m) := by
    rintro (same | ⟨record, newest, older, history, stored, formed, status⟩)
    · exact Or.inl same
    · refine Or.inr ⟨record, newest, older, history, stored, formed, fun closed => ?_⟩
      exact (status closed).imp_right fun impossible => impossible.1.elim
  cases action with
  | begin call process event =>
    change begin w call process event = some next at stepped
    unfold begin at stepped
    split at stepped
    · split at stepped <;> cases stepped
      exact Or.inl rfl
    · cases stepped
  | enter call =>
    change enter w call = some next at stepped
    unfold enter at stepped
    split at stepped
    · split at stepped
      · split at stepped <;> cases stepped <;> exact Or.inl rfl
      · cases stepped
    · cases stepped
  | advance call m =>
    simp only [step] at stepped
    split at stepped
    · obtain ⟨turn, turned, rfl⟩ := map_eq_some_iff.mp stepped
      rcases settle_follows inv turned with same | ⟨record, newest, older, history, stored, formed, status⟩
      · exact Or.inl same
      · refine Or.inr ⟨record, newest, older, history, stored, formed, fun closed => ?_⟩
        exact (status closed).imp_right fun unchanged => ⟨⟨call, m, rfl⟩, unchanged.2⟩
    · cases stepped
  | fail =>
    obtain ⟨phase, -, rfl⟩ := map_eq_some_iff.mp stepped
    exact Or.inl rfl
  | finish call =>
    change finish w call = some next at stepped
    unfold finish at stepped
    split at stepped
    · dsimp only at stepped
      split at stepped <;> cases stepped <;> exact Or.inl rfl
    · cases stepped
  | report => exact weaken (report_follows inv stepped).1
  | close => exact weaken (close_follows inv stepped).1
  | reconcile call executor =>
    change reconcile w call executor = some next at stepped
    unfold reconcile at stepped
    split at stepped <;> cases stepped
    exact Or.inl rfl

end Safety

/-- Every step of every run is safe. -/
theorem late_presence_reopens_nothing (start w next : World) (started : Started start) (actions : List Action)
    (ran : run step start actions = some w) (action : Action) (stepped : step w action = some next) :
    Safe w action next := by
  have inv : Invariant w := run_invariant Invariant
    (fun state action next inv stepped => step_invariant action inv stepped) ran (started_invariant started)
  refine ⟨follows_stores inv (step_follows inv stepped), ?_, ?_⟩
  · rintro call m process id - held
    exact inv.fresh call process id held
  · intro process id late
    exact recent_seen (inv.sound process) (inv.recent process) late

def knowing (session : Session) (now : Time) : Moment :=
  ⟨⟨{ freshService with sessions := AList.singleton "session-a" session }, now, ""⟩, false, noRuntime⟩

def stored (session : Session) : World where
  records := ⟨update (fun _ => []) "session-a" [session], ∅, AList.singleton "desk" desk, ∅⟩
  windows := fun _ => Retention.empty
  applied := fun _ => []
  locks := fun _ => none
  calls := fun _ => .idle

theorem stored_started {session : Session} (named : session.id = "session-a") (positive : 0 < session.version)
    (owner : validID session.ownerUserID) (generation : 0 ≤ session.relayGeneration) :
    Started (stored session) := by
  have versions : ∀ id, ∀ version ∈ (stored session).records.sessions id, id = "session-a" ∧ version = session := by
    intro id version member
    by_cases here : id = "session-a"
    · subst here
      simp only [stored, update_self] at member
      exact ⟨rfl, List.mem_singleton.mp member⟩
    · simp only [stored, update_of_ne here] at member
      cases member
  have single : ∀ id, ((stored session).records.sessions id).length ≤ 1 := by
    intro id
    by_cases here : id = "session-a"
    · subst here
      simp [stored]
    · simp [stored, update_of_ne here]
  have ordered : ∀ id, ((stored session).records.sessions id).Pairwise fun newer older =>
      older.version < newer.version := by
    intro id
    by_cases here : id = "session-a"
    · subst here
      simp [stored]
    · simp [stored, update_of_ne here]
  refine ⟨⟨⟨ordered, fun id version member => ?_, fun id version member => ?_, fun id version member => ?_,
    fun id version member => ?_⟩, single⟩, fun _ => rfl, fun _ => rfl, fun _ => rfl⟩
  all_goals obtain ⟨rfl, rfl⟩ := versions id version member
  · exact named
  · exact positive
  · exact owner
  · exact generation

def upToPut (call : String) (m : Moment) : List Action :=
  [.begin call "m1" hostEvent, .enter call, .advance call m, .advance call m, .advance call m]

def closingSession : Session := { createdSession with status := .closing }

/-- The host comes online when the session is closing, and the session stays so. -/
theorem closing_session_stays : ∃ w next, run step (stored closingSession) (upToPut "h1" (knowing closingSession 10)) =
      some w ∧ step w (.advance "h1" (knowing closingSession 10)) = some next ∧
    (next.records.sessions "session-a").map (fun version => (version.version, version.status)) =
      [(2, .closing), (1, .closing)] ∧
    Safe w (.advance "h1" (knowing closingSession 10)) next := by
  obtain ⟨w, next, ran, stepped, versions⟩ : ∃ w next,
      run step (stored closingSession) (upToPut "h1" (knowing closingSession 10)) = some w ∧
      step w (.advance "h1" (knowing closingSession 10)) = some next ∧
      (next.records.sessions "session-a").map (fun version => (version.version, version.status)) =
        [(2, .closing), (1, .closing)] := by
    refine ⟨_, _, rfl, rfl, ?_⟩
    decide +kernel
  refine ⟨w, next, ran, stepped, versions, ?_⟩
  exact late_presence_reopens_nothing (stored closingSession) w next
    (stored_started rfl (by decide) (by decide +kernel) (by decide)) _ ran _ stepped

def onlineSession : Session :=
  stamped (hostPresence createdSession hostEvent.toRelayPresence).1 createdSession.createdAt 10 1

/-- The heartbeat of the device fails after the session has been put: the event is not remembered, and
    when it is delivered again it puts the session once more. -/
theorem failed_event_changes_twice :
    ¬ ∀ (start w1 w2 w3 w4 : World) (first middle : List Action) (call other : String) (m n : Moment)
      (process id session : String), Started start → run step start first = some w1 →
      step w1 (.advance call m) = some w2 → run step w2 middle = some w3 →
      step w3 (.advance other n) = some w4 → call ≠ other →
      (w1.calls call).held = some (process, id) → (w3.calls other).held = some (process, id) →
      (w3.applied process).length ≤ 8000 →
      (w2.records.sessions session).length ≠ (w1.records.sessions session).length →
      (w4.records.sessions session).length = (w3.records.sessions session).length := by
  intro once
  obtain ⟨w1, w2, w3, w4, ran, stepped, onward, again, held, heldAgain, fresh, changed, twice⟩ :
      ∃ w1 w2 w3 w4, run step (stored createdSession) (upToPut "h1" (knowing createdSession 10)) = some w1 ∧
        step w1 (.advance "h1" (knowing createdSession 10)) = some w2 ∧
        run step w2 ([.fail "h1", .finish "h1"] ++ upToPut "h2" (knowing onlineSession 20)) = some w3 ∧
        step w3 (.advance "h2" (knowing onlineSession 20)) = some w4 ∧
        (w1.calls "h1").held = some ("m1", "e1") ∧ (w3.calls "h2").held = some ("m1", "e1") ∧
        (w3.applied "m1").length ≤ 8000 ∧
        (w2.records.sessions "session-a").length ≠ (w1.records.sessions "session-a").length ∧
        (w4.records.sessions "session-a").length ≠ (w3.records.sessions "session-a").length := by
    refine ⟨_, _, _, _, rfl, rfl, rfl, rfl, rfl, rfl, ?_, ?_, ?_⟩ <;> decide +kernel
  exact twice (once _ w1 w2 w3 w4 _ _ "h1" "h2" _ _ "m1" "e1" "session-a"
    (stored_started rfl (by decide) (by decide +kernel) (by decide)) ran stepped onward again (by decide)
    held heldAgain fresh changed)

end PieRelay.LatePresence
