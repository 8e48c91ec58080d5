import PieRelay.CodexTurns

/-!
Every prompt is answered with the outcome of its turn. A read is as if its jobs ran at once: what holds of the adapter
when the jobs have run is kept by each line, unless a turn is completed before it is registered.
-/
namespace PieRelay.CodexAnswers
open CodexTurns List Option
open Executions

structure Core (a : Adapter) (pending : Nat → Option Pending) (next received : Nat) (told : List Turn) : Prop where
  sessions : Sessions a
  asked : ∀ id p, pending id = some p → id < next ∧ p.request < received ∧ repliesTo a p.request = [] ∧
    ∀ turn ∈ told, turn.request ≠ p.request
  apart : ∀ id other p q, pending id = some p → pending other = some q → p.request = q.request → id = other
  prompts : ∀ id request state threadId, pending id = some (.prompt request state threadId) →
    (threadId, state) ∈ a.sessions
  unborn : ∀ request, received ≤ request → repliesTo a request = []
  once : (told.map Turn.request).Nodup
  replied : ∀ turn ∈ told, turn.request < received ∧ turn.turnId ≠ "" ∧
    repliesTo a turn.request = (turn.outcome.map replyOf).toList
  waits : ∀ turn ∈ told, turn.outcome = none → ∃ state, (turn.threadId, state) ∈ a.sessions ∧
    turnsOf a state (some turn.turnId) = some turn.request
  waited : ∀ threadId state turnId request, (threadId, state) ∈ a.sessions →
    turnsOf a state (some turnId) = some request →
    ∃ turn ∈ told, turn.outcome = none ∧ turn.threadId = threadId ∧ turn.turnId = turnId ∧ turn.request = request
  active : ∀ threadId state turn, (threadId, state) ∈ a.sessions → lastOf told threadId = some turn →
    turn.outcome = none → activeOf a state = some turn.turnId

section Cores
variable {a : Adapter} {pending : Nat → Option Pending} {next received : Nat} {told : List Turn} {id : Nat}

def answered (pending : Nat → Option Pending) (id : Nat) : Nat → Option Pending :=
  fun other => if other = id then none else pending other

variable {p : Pending} {threadId turnId : Option String} {state request : Nat}

theorem answered_some {other : Nat} (there : answered pending id other = some p) :
    other ≠ id ∧ pending other = some p := by
  rw [answered] at there
  split at there
  · cases there
  · next apart => exact ⟨apart, there⟩

theorem core_replied (core : Core a pending next received told) (asked : pending id = some p)
    (reply : Reply) : Core (replying a p.request reply) (answered pending id) next received told := by
  obtain ⟨-, born, quiet, untold⟩ := core.asked id p asked
  have others : ∀ request, request ≠ p.request → repliesTo (replying a p.request reply) request = repliesTo a request := by
    intro request apart
    rw [replies_replying, if_neg apart, append_nil]
  refine ⟨⟨core.sessions.named, core.sessions.states, core.sessions.distinct⟩, ?_, ?_, ?_, ?_, core.once, ?_, core.waits,
    core.waited, core.active⟩
  · intro other q there
    obtain ⟨apart, there⟩ := answered_some there
    obtain ⟨before, first, silent, new⟩ := core.asked other q there
    refine ⟨before, first, ?_, new⟩
    rw [others q.request fun same => apart (core.apart other id q p there asked same)]
    exact silent
  · intro one two p q first second same
    exact core.apart one two p q (answered_some first).2 (answered_some second).2 same
  · intro other request state threadId there
    exact core.prompts other request state threadId (answered_some there).2
  · intro request later
    rw [others request (by omega)]
    exact core.unborn request later
  · intro turn member
    rw [others turn.request (untold turn member)]
    exact core.replied turn member

theorem last_mem {turn : Turn} (last : lastOf told threadId = some turn) : turn ∈ told ∧ turn.threadId = threadId := by
  have there : turn ∈ told.filter fun turn : Turn => turn.threadId = threadId := mem_of_getLast? last
  exact ⟨(mem_filter.mp there).1, of_decide_eq_true (mem_filter.mp there).2⟩

theorem core_session (core : Core a pending next received told)
    (named : truthy threadId) (fresh : sessionOf a threadId = none) :
    Core (newSession a threadId) pending next received told := by
  have appended : (newSession a threadId).sessions = a.sessions ++ [(threadId, a.states.length)] := set_fresh fresh
  have inside : ∀ entry ∈ a.sessions, entry.2 < a.states.length := by
    intro entry member
    obtain ⟨session, there, -⟩ := core.sessions.states entry member
    exact (List.getElem?_eq_some_iff.mp there).1
  refine ⟨sessions_new core.sessions named fresh, core.asked, core.apart, ?_, core.unborn, core.once, core.replied, ?_, ?_,
    ?_⟩
  · intro other request state thread there
    rw [appended]
    exact mem_append_left _ (core.prompts other request state thread there)
  · intro turn member opened
    obtain ⟨state, session, waits⟩ := core.waits turn member opened
    refine ⟨state, ?_, by rw [turns_new]; exact waits⟩
    rw [appended]
    exact mem_append_left _ session
  · intro thread state turnId request member waits
    rw [turns_new] at waits
    rw [appended] at member
    rcases mem_append.mp member with old | new
    · exact core.waited thread state turnId request old waits
    · cases mem_singleton.mp new
      rw [turnsOf, getElem?_eq_none (Nat.le_refl _)] at waits
      cases waits
  · intro thread state turn member last opened
    rw [appended] at member
    rcases mem_append.mp member with old | new
    · rw [active_new (inside _ old)]
      exact core.active thread state turn old last opened
    · cases mem_singleton.mp new
      obtain ⟨there, rfl⟩ := last_mem last
      obtain ⟨state, session, -⟩ := core.waits turn there opened
      rw [mem_session_of core.sessions session] at fresh
      cases fresh

theorem last_append (turn : Turn) (threadId : Option String) :
    lastOf (told ++ [turn]) threadId = if turn.threadId = threadId then some turn else lastOf told threadId := by
  by_cases same : turn.threadId = threadId
  · simp [lastOf, filter_append, same]
  · simp [lastOf, filter_append, same]

theorem last_map (f : Turn → Turn) (kept : ∀ turn : Turn, (f turn).threadId = turn.threadId) (threadId : Option String) :
    lastOf (told.map f) threadId = (lastOf told threadId).map f := by
  have same : ((fun turn : Turn => decide (turn.threadId = threadId)) ∘ f) =
      fun turn : Turn => decide (turn.threadId = threadId) := by
    funext turn
    simp [kept]
  rw [lastOf, List.filter_map, same, List.getLast?_map]
  rfl

theorem inside_of (sound : Sessions a) (member : (threadId, state) ∈ a.sessions) : state < a.states.length := by
  obtain ⟨session, there, -⟩ := sound.states _ member
  exact (List.getElem?_eq_some_iff.mp there).1

theorem core_started (core : Core a pending next received told)
    (asked : pending id = some (.prompt request state threadId)) {turnId : String} (named : turnId ≠ "")
    (closed : ∀ turn ∈ told, turn.threadId = threadId → turn.turnId = turnId → turn.outcome ≠ none) :
    Core (register a state (some turnId) request) (answered pending id) next received
      (told ++ [⟨request, threadId, turnId, none, false⟩]) := by
  obtain ⟨-, born, quiet, untold⟩ := core.asked id _ asked
  have mine := core.prompts id request state threadId asked
  have inside := inside_of core.sessions mine
  refine ⟨sessions_register core.sessions, ?_, ?_, ?_, core.unborn, ?_, ?_, ?_, ?_, ?_⟩
  · intro other q there
    obtain ⟨apart, there⟩ := answered_some there
    obtain ⟨before, first, silent, new⟩ := core.asked other q there
    refine ⟨before, first, silent, fun turn member => ?_⟩
    rcases mem_append.mp member with old | last
    · exact new turn old
    · rw [mem_singleton.mp last]
      exact fun same => apart (core.apart other id q _ there asked same.symm)
  · intro one two p q first second same
    exact core.apart one two p q (answered_some first).2 (answered_some second).2 same
  · intro other request state threadId there
    exact core.prompts other request state threadId (answered_some there).2
  · rw [map_append, nodup_append]
    refine ⟨core.once, by simp, fun one old other last => ?_⟩
    obtain ⟨turn, member, rfl⟩ := mem_map.mp old
    rw [mem_singleton.mp last]
    exact untold turn member
  · intro turn member
    rcases mem_append.mp member with old | last
    · exact core.replied turn old
    · rw [mem_singleton.mp last]
      exact ⟨born, named, quiet⟩
  · intro turn member opened
    rcases mem_append.mp member with old | last
    · obtain ⟨other, session, waits⟩ := core.waits turn old opened
      refine ⟨other, session, ?_⟩
      rw [turns_register inside, if_neg]
      · exact waits
      · rintro ⟨rfl, same⟩
        exact closed turn old (states_apart core.sessions session mine) (some.inj same) opened
    · rw [mem_singleton.mp last]
      exact ⟨state, mine, by rw [turns_register inside, if_pos ⟨rfl, rfl⟩]⟩
  · intro thread other key waiting session waits
    rw [turns_register inside] at waits
    split at waits
    · next same =>
      obtain ⟨rfl, same⟩ := same
      cases waits
      refine ⟨_, mem_append_right _ (mem_singleton_self _), rfl, ?_, (some.inj same).symm, rfl⟩
      exact states_apart core.sessions mine session
    · obtain ⟨turn, member, rest⟩ := core.waited thread other key waiting session waits
      exact ⟨turn, mem_append_left _ member, rest⟩
  · intro thread other turn session last opened
    rw [last_append] at last
    rw [active_register inside]
    by_cases same : threadId = thread
    · rw [if_pos same] at last
      cases last
      subst same
      rw [if_pos (some.inj ((mem_session_of core.sessions session).symm.trans (mem_session_of core.sessions mine)))]
    · rw [if_neg same] at last
      rw [if_neg fun equal : other = state => same (states_apart core.sessions mine (equal ▸ session))]
      exact core.active thread other turn session last opened

theorem completes_request (threadId turnId : Option String) (outcome : Outcome) (turn : Turn) :
    (completes threadId turnId outcome turn).request = turn.request ∧
      (completes threadId turnId outcome turn).threadId = turn.threadId ∧
      (completes threadId turnId outcome turn).turnId = turn.turnId ∧
      (completes threadId turnId outcome turn).missed = turn.missed := by
  rw [completes]
  split <;> exact ⟨rfl, rfl, rfl, rfl⟩

theorem waiter_some (sound : Sessions a) : waiter a threadId turnId = some (state, request) ↔
      (truthy threadId ∧ truthy turnId) ∧ (threadId, state) ∈ a.sessions ∧ turnsOf a state turnId = some request := by
  rw [waiter]
  by_cases named : truthy threadId ∧ truthy turnId
  · rw [if_pos named, session_for_thread sound]
    simp only [named, Option.bind_eq_bind, Option.bind_eq_some_iff, Option.pure_def, Option.some.injEq, Prod.mk.injEq,
      turnsOf, true_and, and_self]
    constructor
    · rintro ⟨found, there, session, stored, waiting, waits, rfl, rfl⟩
      exact ⟨session_of_mem there, session, stored, waits⟩
    · rintro ⟨member, session, stored, waits⟩
      exact ⟨state, mem_session_of sound member, session, stored, request, waits, rfl, rfl⟩
  · rw [if_neg named]
    constructor
    · intro none
      cases none
    · exact fun both => absurd both.1 named

section
variable (core : Core a pending next received told)
include core

theorem core_unfound (outcome : Outcome)
    (nobody : waiter a threadId turnId = none) : told.map (completes threadId turnId outcome) = told := by
  refine map_congr_left (fun turn member => ?_) |>.trans (map_id told)
  rw [completes, if_neg]
  · rfl
  · rintro ⟨rfl, rfl, opened⟩
    obtain ⟨state, session, waits⟩ := core.waits turn member opened
    have found : waiter a turn.threadId (some turn.turnId) = some (state, turn.request) := by
      refine (waiter_some core.sessions).mpr ⟨⟨core.sessions.named _ session, ?_⟩, session, waits⟩
      simpa [truthy] using (core.replied turn member).2.1
    rw [nobody] at found
    cases found

theorem core_completed {outcome : Outcome} (found : waiter a threadId turnId = some (state, request)) :
    Core (replying (dropTurn a state turnId) request (replyOf outcome)) pending next received
      (told.map (completes threadId turnId outcome)) := by
  obtain ⟨⟨-, named⟩, mine, waiting⟩ := (waiter_some core.sessions).mp found
  cases turnId with
  | none => cases named
  | some turnId =>
  obtain ⟨turn, member, opened, rfl, rfl, rfl⟩ := core.waited threadId state turnId request mine waiting
  have fresh : ∀ other, other ≠ turn.request →
      repliesTo (replying (dropTurn a state (some turn.turnId)) turn.request (replyOf outcome)) other =
        repliesTo a other := by
    intro other apart
    rw [replies_replying, if_neg apart, append_nil]
    rfl
  -- The turn is the only one that changes.
  have others : ∀ other ∈ told, other.request ≠ turn.request →
      completes turn.threadId (some turn.turnId) outcome other = other := by
    intro other there apart
    rw [completes, if_neg]
    rintro ⟨thread, key, open'⟩
    obtain ⟨state', session, waits⟩ := core.waits other there open'
    rw [thread] at session
    cases (mem_session_of core.sessions session).symm.trans (mem_session_of core.sessions mine)
    rw [key, waiting] at waits
    exact apart (some.inj waits).symm
  have only : ∀ other ∈ told, other.request = turn.request → other = turn := fun other there same =>
    inj_on_of_nodup_map core.once there member same
  have done : completes turn.threadId (some turn.turnId) outcome turn = { turn with outcome := some outcome } :=
    if_pos ⟨rfl, rfl, opened⟩
  refine ⟨⟨core.sessions.named, (sessions_drop core.sessions).states, core.sessions.distinct⟩, ?_, core.apart,
    core.prompts, ?_, ?_, ?_, ?_, ?_, ?_⟩
  · intro id p asked
    obtain ⟨before, born, silent, new⟩ := core.asked id p asked
    refine ⟨before, born, ?_, ?_⟩
    · rw [fresh p.request fun same => new turn member same.symm]
      exact silent
    · intro other there
      obtain ⟨old, stored, rfl⟩ := mem_map.mp there
      rw [(completes_request _ _ _ old).1]
      exact new old stored
  · intro other later
    have born := (core.replied turn member).1
    rw [fresh other (by omega)]
    exact core.unborn other later
  · rw [List.map_map]
    have same : Turn.request ∘ completes turn.threadId (some turn.turnId) outcome = Turn.request := by
      funext other
      exact (completes_request _ _ _ other).1
    rw [same]
    exact core.once
  · intro other there
    obtain ⟨old, stored, rfl⟩ := mem_map.mp there
    by_cases same : old.request = turn.request
    · cases only old stored same
      obtain ⟨born, key, silent⟩ := core.replied turn member
      rw [done]
      refine ⟨born, key, ?_⟩
      rw [replies_replying, if_pos rfl]
      rw [opened] at silent
      rw [show repliesTo (dropTurn a state (some turn.turnId)) turn.request = [] from silent]
      rfl
    · rw [others old stored same, fresh old.request same]
      exact core.replied old stored
  · intro other there still
    obtain ⟨old, stored, rfl⟩ := mem_map.mp there
    by_cases same : old.request = turn.request
    · cases only old stored same
      rw [done] at still
      cases still
    · rw [others old stored same] at still ⊢
      obtain ⟨state', session, waits⟩ := core.waits old stored still
      refine ⟨state', session, ?_⟩
      show turnsOf (dropTurn a state (some turn.turnId)) state' (some old.turnId) = some old.request
      rw [turns_drop, if_neg]
      · exact waits
      · rintro ⟨rfl, key⟩
        rw [key, waiting] at waits
        exact same (some.inj waits).symm
  · intro thread state' key waiting' session waits
    change turnsOf (dropTurn a state (some turn.turnId)) state' (some key) = some waiting' at waits
    rw [turns_drop] at waits
    split at waits
    · cases waits
    · next kept =>
      obtain ⟨old, stored, still, same⟩ := core.waited thread state' key waiting' session waits
      refine ⟨old, mem_map.mpr ⟨old, stored, others old stored fun equal => ?_⟩, still, same⟩
      cases only old stored equal
      obtain ⟨rfl, rfl, -⟩ := same
      cases (mem_session_of core.sessions session).symm.trans (mem_session_of core.sessions mine)
      exact kept ⟨rfl, rfl⟩
  · intro thread state' other session last still
    rw [last_map _ fun turn => (completes_request _ _ _ turn).2.1] at last
    obtain ⟨old, before, rfl⟩ := map_eq_some_iff.mp last
    obtain ⟨stored, rfl⟩ := last_mem before
    by_cases same : old.request = turn.request
    · cases only old stored same
      rw [done] at still
      cases still
    · rw [others old stored same] at still ⊢
      have active := core.active _ state' old session before still
      show activeOf (dropTurn a state (some turn.turnId)) state' = some old.turnId
      rw [active_drop, if_neg]
      · exact active
      · rintro ⟨rfl, key⟩
        rw [active] at key
        obtain ⟨state'', there, waits⟩ := core.waits old stored still
        cases (mem_session_of core.sessions session).symm.trans (mem_session_of core.sessions there)
        rw [key, waiting] at waits
        exact same (some.inj waits).symm

theorem core_asked (new : p.request = received)
    (session : ∀ request state threadId, p = .prompt request state threadId → (threadId, state) ∈ a.sessions) :
    Core a (Function.update pending next (some p)) (next + 1) (received + 1) told := by
  have cases_of : ∀ {id q}, Function.update pending next (some p) id = some q →
      (id = next ∧ q = p) ∨ (id ≠ next ∧ pending id = some q) := by
    intro id q there
    by_cases same : id = next
    · subst same
      rw [Function.update_self] at there
      exact Or.inl ⟨rfl, (some.inj there).symm⟩
    · rw [Function.update_of_ne same] at there
      exact Or.inr ⟨same, there⟩
  have older : ∀ {id q}, pending id = some q → q.request ≠ p.request := by
    intro id q there
    have born := (core.asked id q there).2.1
    omega
  refine ⟨core.sessions, ?_, ?_, ?_, ?_, core.once, ?_, core.waits, core.waited, core.active⟩
  · intro id q there
    obtain ⟨rfl, rfl⟩ | ⟨-, old⟩ := cases_of there
    · refine ⟨by omega, by omega, core.unborn q.request (by omega), fun turn member => ?_⟩
      have born := (core.replied turn member).1
      omega
    · obtain ⟨before, born, rest⟩ := core.asked id q old
      exact ⟨by omega, by omega, rest⟩
  · intro one two q r first second same
    obtain ⟨rfl, rfl⟩ | ⟨-, old⟩ := cases_of first
    · obtain ⟨rfl, rfl⟩ | ⟨-, other⟩ := cases_of second
      · rfl
      · exact absurd same.symm (older other)
    · obtain ⟨rfl, rfl⟩ | ⟨-, other⟩ := cases_of second
      · exact absurd same (older old)
      · exact core.apart one two q r old other same
  · intro id request state threadId there
    obtain ⟨-, same⟩ | ⟨-, old⟩ := cases_of there
    · exact session request state threadId same.symm
    · exact core.prompts id request state threadId old
  · intro request later
    exact core.unborn request (by omega)
  · intro turn member
    obtain ⟨born, rest⟩ := core.replied turn member
    exact ⟨by omega, rest⟩

theorem core_answered (reply : Reply) : Core (replying a received reply) pending next (received + 1) told := by
  have others : ∀ request, request ≠ received → repliesTo (replying a received reply) request = repliesTo a request := by
    intro request apart
    rw [replies_replying, if_neg apart, append_nil]
  refine ⟨⟨core.sessions.named, core.sessions.states, core.sessions.distinct⟩, ?_, core.apart, core.prompts, ?_,
    core.once, ?_, core.waits, core.waited, core.active⟩
  · intro id p there
    obtain ⟨before, born, silent, new⟩ := core.asked id p there
    exact ⟨before, by omega, by rw [others p.request (by omega)]; exact silent, new⟩
  · intro request later
    rw [others request (by omega)]
    exact core.unborn request (by omega)
  · intro turn member
    obtain ⟨born, named, replies⟩ := core.replied turn member
    exact ⟨by omega, named, by rw [others turn.request (by omega)]; exact replies⟩

theorem core_interrupts {sessionId : Option String}
    (single : ∀ turn ∈ told, turn.threadId = sessionId → turn.outcome = none → lastOf told sessionId = some turn) :
    told.map (misses sessionId (activeTurn a sessionId)) = told := by
  refine map_congr_left (fun turn member => ?_) |>.trans (map_id told)
  rw [misses, if_neg]
  · rfl
  · rintro ⟨rfl, opened, apart⟩
    obtain ⟨state, session, -⟩ := core.waits turn member opened
    have active := core.active _ state turn session (single turn member rfl opened) opened
    obtain ⟨stored, there, same⟩ := bind_eq_some_iff.mp active
    refine apart ?_
    have named : truthy (some turn.turnId) := by simpa [truthy] using (core.replied turn member).2.1
    rw [activeTurn, mem_session_of core.sessions session, bind_some, there]
    simp only [same, named, if_true]

end

end Cores

def registers : Job → Option (Nat × Option String)
  | .answered (.prompt _ state _) (.result _ (some turnId)) => some (state, turnId)
  | _ => none

section Jobs
variable {a : Adapter} {state : Nat} {turnId : Option String} {job : Job} {jobs : List Job}

theorem settle_turns (apart : registers job ≠ some (state, turnId))
    (inside : ∀ place, registers job = some place → place.1 < a.states.length) :
    turnsOf (settle a job) state turnId = turnsOf a state turnId := by
  cases job with
  | finished => rfl
  | answered pending answer =>
    cases answer with
    | error => cases pending <;> rfl
    | result thread turn =>
      cases pending with
      | initializeRequest | cancel => rfl
      | sessionNew =>
        cases thread with
        | none => rfl
        | some => exact turns_new state turnId
      | prompt =>
        cases turn with
        | none => rfl
        | some =>
          refine (turns_register (inside _ rfl) state turnId).trans (if_neg ?_)
          rintro ⟨rfl, rfl⟩
          exact apart rfl

theorem settle_grows (a : Adapter) (job : Job) : a.states.length ≤ (settle a job).states.length := by
  cases job with
  | finished => exact Nat.le_refl _
  | answered pending answer =>
    cases answer with
    | error => cases pending <;> exact Nat.le_refl _
    | result thread turn =>
      cases pending with
      | initializeRequest | cancel => exact Nat.le_refl _
      | sessionNew =>
        cases thread with
        | none => exact Nat.le_refl _
        | some => exact length_append ▸ Nat.le_add_right _ _
      | prompt =>
        cases turn with
        | none => exact Nat.le_refl _
        | some => exact Nat.le_of_eq (length_modify _ _ _).symm

theorem drop_new {threadId : Option String} (inside : state < a.states.length) :
    newSession (dropTurn a state turnId) threadId = dropTurn (newSession a threadId) state turnId := by
  have states : (dropTurn a state turnId).states ++ [⟨threadId, fun _ => none, none⟩] =
      (dropTurn (newSession a threadId) state turnId).states := by
    simp only [dropTurn, newSession]
    refine ext_getElem? fun place => ?_
    rw [getElem?_modify]
    by_cases before : place < a.states.length
    · rw [getElem?_append_left (by simpa using before), getElem?_append_left before, getElem?_modify]
    · have apart : ¬ state = place := by omega
      rw [getElem?_append_right (by simpa using before), getElem?_append_right (by omega)]
      simp [apart]
  have length : (dropTurn a state turnId).states.length = a.states.length := length_modify _ _ _
  simp only [newSession, dropTurn] at states length ⊢
  rw [states, length]

theorem drop_register {place request : Nat} {key : Option String} (apart : ¬ (place = state ∧ key = turnId)) :
    register (dropTurn a state turnId) place key request = dropTurn (register a place key request) state turnId := by
  simp only [register, dropTurn]
  congr 1
  refine ext_getElem? fun other => ?_
  simp only [getElem?_modify]
  cases a.states[other]? with
  | none => rfl
  | some =>
    by_cases here : state = other
    · by_cases there : place = other
      · have keys : key ≠ turnId := fun same => apart ⟨there.trans here.symm, same⟩
        simp [here, there, keys, Function.update_comm keys]
      · simp [here, there]
    · simp [here]

theorem settle_drop (apart : registers job ≠ some (state, turnId)) (inside : state < a.states.length) :
    settle (dropTurn a state turnId) job = dropTurn (settle a job) state turnId := by
  cases job with
  | finished => rfl
  | answered pending answer =>
    cases answer with
    | error => cases pending <;> rfl
    | result thread turn =>
      cases pending with
      | initializeRequest | cancel => rfl
      | sessionNew request =>
        cases thread with
        | none => rfl
        | some threadId => exact congrArg (replying · request (.session threadId)) (drop_new inside)
      | prompt =>
        cases turn with
        | none => rfl
        | some =>
          refine drop_register ?_
          rintro ⟨rfl, rfl⟩
          exact apart rfl

theorem all_turns (apart : ∀ job ∈ jobs, registers job ≠ some (state, turnId))
    (inside : ∀ job ∈ jobs, ∀ place, registers job = some place → place.1 < a.states.length) :
    turnsOf (jobs.foldl settle a) state turnId = turnsOf a state turnId := by
  induction jobs generalizing a with
  | nil => rfl
  | cons job rest ih =>
    rw [foldl_cons, ih fun other member => apart other (mem_cons_of_mem job member)]
    · exact settle_turns (apart job mem_cons_self) (inside job mem_cons_self)
    · intro other member place registered
      exact Nat.lt_of_lt_of_le (inside other (mem_cons_of_mem job member) place registered) (settle_grows a job)

theorem all_drop (apart : ∀ job ∈ jobs, registers job ≠ some (state, turnId)) (inside : state < a.states.length) :
    jobs.foldl settle (dropTurn a state turnId) = dropTurn (jobs.foldl settle a) state turnId := by
  induction jobs generalizing a with
  | nil => rfl
  | cons job rest ih =>
    rw [foldl_cons, settle_drop (apart job mem_cons_self) inside,
      ih (fun other member => apart other (mem_cons_of_mem job member))
        (Nat.lt_of_lt_of_le inside (settle_grows a job))]
    rfl

theorem all_grow (jobs : List Job) (a : Adapter) : a.states.length ≤ (jobs.foldl settle a).states.length := by
  induction jobs generalizing a with
  | nil => exact Nat.le_refl _
  | cons job rest ih => exact Nat.le_trans (settle_grows a job) (ih (settle a job))

end Jobs

/-- The jobs are those of a read of codex; what has been read leads to `Core` when they have run. -/
structure Inv (w : World) : Prop where
  core : Core (settled w) w.codexPending w.nextCodexId w.received w.told
  quiet : w.reading ≠ some .codex → w.jobs = []
  missed : ∀ turn ∈ w.told, turn.missed = false
  sessions : Sessions w.adapter
  kept : ∀ entry ∈ w.adapter.sessions, entry ∈ (settled w).sessions
  grown : ∀ entry ∈ (settled w).sessions, entry ∈ w.adapter.sessions ∨ w.adapter.states.length ≤ entry.2
  prompts : ∀ id request state threadId, w.codexPending id = some (.prompt request state threadId) →
    state < w.adapter.states.length
  started : ∀ request state threadId thread turnId,
    Job.answered (.prompt request state threadId) (.result thread (some turnId)) ∈ w.jobs →
      state < w.adapter.states.length ∧ (threadId, state) ∈ (settled w).sessions

section Steps
variable {w : World}

theorem registers_some {job : Job} {place : Nat × Option String} (registered : registers job = some place) :
    ∃ request threadId thread, job = .answered (.prompt request place.1 threadId) (.result thread (some place.2)) := by
  cases job with
  | finished => cases registered
  | answered pending answer =>
    cases answer with
    | error => cases pending <;> cases registered
    | result thread turn =>
      cases pending with
      | initializeRequest | cancel | sessionNew => cases registered
      | prompt request state threadId =>
        cases turn with
        | none => cases registered
        | some =>
          cases registered
          exact ⟨request, threadId, thread, rfl⟩

theorem inv_job (inv : Inv w) {job : Job} {pending : Nat → Option Pending} {told : List Turn}
    (core : Core (settle (settled w) job) pending w.nextCodexId w.received told)
    (missed : ∀ turn ∈ told, turn.missed = false)
    (added : ∃ new, (settle (settled w) job).sessions = (settled w).sessions ++ new ∧
      ∀ entry ∈ new, w.adapter.states.length ≤ entry.2)
    (older : ∀ id p, pending id = some p → w.codexPending id = some p)
    (place : ∀ request state threadId thread turnId,
      Job.answered (.prompt request state threadId) (.result thread (some turnId)) = job →
        state < w.adapter.states.length ∧ (threadId, state) ∈ (settled w).sessions) :
    Inv { w with reading := some .codex, codexPending := pending, jobs := w.jobs ++ [job], told := told } := by
  obtain ⟨new, appended, later⟩ := added
  have ran : settled { w with reading := some .codex, codexPending := pending, jobs := w.jobs ++ [job], told := told } =
      settle (settled w) job := by
    simp [settled, foldl_append]
  refine ⟨by rw [ran]; exact core, fun apart => absurd rfl apart, missed, inv.sessions, ?_, ?_, ?_, ?_⟩
  · intro entry member
    rw [ran, appended]
    exact mem_append_left new (inv.kept entry member)
  · intro entry member
    rw [ran, appended] at member
    rcases mem_append.mp member with old | fresh
    · exact inv.grown entry old
    · exact Or.inr (later entry fresh)
  · intro id request state threadId there
    exact inv.prompts id request state threadId (older id _ there)
  · intro request state threadId thread turnId member
    rw [ran, appended]
    rcases mem_append.mp member with old | last
    · obtain ⟨inside, session⟩ := inv.started request state threadId thread turnId old
      exact ⟨inside, mem_append_left new session⟩
    · obtain ⟨inside, session⟩ := place request state threadId thread turnId (mem_singleton.mp last)
      exact ⟨inside, mem_append_left new session⟩

theorem inv_response (inv : Inv w) {id : Option Nat} {answer : Answer} (lawful : lawful w (.codex (.response id answer))) :
    Inv { handleCodex w (.response id answer) with reading := some .codex } := by
  cases id with
  | none => exact ⟨inv.core, fun apart => absurd rfl apart, inv.missed, inv.sessions, inv.kept, inv.grown, inv.prompts,
      inv.started⟩
  | some id =>
  have pending : (fun other => if some other = some id then none else w.codexPending other) =
      answered w.codexPending id := by
    funext other
    simp [answered]
  simp only [handleCodex, bind_some, pending]
  cases asked : w.codexPending id with
  | none => exact ⟨inv.core, fun apart => absurd rfl apart, inv.missed, inv.sessions, inv.kept, inv.grown, inv.prompts,
      inv.started⟩
  | some p =>
  have older : ∀ other q, answered w.codexPending id other = some q → w.codexPending other = some q :=
    fun other q there => (answered_some there).2
  -- The answer is the reply to the request, whatever it was.
  have simple : ∀ reply, settle (settled w) (.answered p answer) = replying (settled w) p.request reply →
      starts p answer = none → (∀ thread turnId, answer = .result thread (some turnId) → ∀ request state threadId,
        p ≠ .prompt request state threadId) →
      Inv { w with
        reading := some .codex, codexPending := answered w.codexPending id, jobs := w.jobs ++ [.answered p answer]
        told := w.told ++ (starts p answer).toList } := by
    intro reply same none apart
    rw [none, toList_none, append_nil]
    refine inv_job inv ?_ inv.missed ⟨[], ?_, by simp⟩ older ?_
    · rw [same]
      exact core_replied inv.core asked reply
    · rw [same, append_nil]
      rfl
    · intro request state threadId thread turnId equal
      cases equal
      exact absurd rfl (apart thread turnId rfl request state threadId)
  cases answer with
  | error code message =>
    exact simple (acpError code message) (by cases p <;> rfl) (by cases p <;> rfl) nofun
  | result thread turn =>
    cases p with
    | initializeRequest => exact simple .initialized rfl rfl nofun
    | cancel => exact simple .done rfl rfl nofun
    | sessionNew request =>
      cases thread with
      | none => exact simple .typeError rfl rfl nofun
      | some threadId =>
        obtain ⟨named, fresh⟩ : truthy threadId ∧ sessionOf (settled w) threadId = none := by
          simpa [CodexTurns.lawful, asked] using lawful
        have appended : (newSession (settled w) threadId).sessions =
          (settled w).sessions ++ [(threadId, (settled w).states.length)] := set_fresh fresh
        show Inv { w with
          reading := some .codex, codexPending := answered w.codexPending id
          jobs := w.jobs ++ [.answered (.sessionNew request) (.result (some threadId) turn)], told := w.told ++ [] }
        rw [append_nil]
        refine inv_job inv ?_ inv.missed ⟨_, appended, ?_⟩ older nofun
        · exact core_replied (core_session inv.core named fresh) asked (.session threadId)
        · intro entry member
          rw [mem_singleton.mp member]
          exact all_grow w.jobs w.adapter
    | prompt request state threadId =>
      cases turn with
      | none => exact simple .typeError rfl rfl nofun
      | some turnId =>
        obtain ⟨text, rfl, named, closed⟩ : ∃ text, turnId = some text ∧ text ≠ "" ∧ ∀ told ∈ w.told,
            told.threadId = threadId → told.turnId = text → told.outcome ≠ none := by
          simpa [CodexTurns.lawful, asked, Option.any_eq_true] using lawful
        refine inv_job inv (core_started inv.core asked named closed) ?_ ⟨[], ?_, by simp⟩ older ?_
        · intro turn member
          rcases mem_append.mp member with old | last
          · exact inv.missed turn old
          · rw [mem_singleton.mp last]
        · rw [append_nil]
          rfl
        · intro request' state' threadId' thread' turnId' same
          cases same
          exact ⟨inv.prompts id request state threadId asked, inv.core.prompts id request state threadId asked⟩

theorem waiter_settled (inv : Inv w) {threadId turnId : Option String} {status : Status}
    (careful : careful w (.codex (.completed threadId turnId status))) :
    waiter w.adapter threadId turnId = waiter (settled w) threadId turnId ∧
      ∀ state, (threadId, state) ∈ (settled w).sessions → truthy turnId →
        ∀ job ∈ w.jobs, registers job ≠ some (state, turnId) := by
  have apart : ∀ state, (threadId, state) ∈ (settled w).sessions → truthy turnId →
      ∀ job ∈ w.jobs, registers job ≠ some (state, turnId) := by
    intro state session named job member registered
    obtain ⟨request, thread, other, rfl⟩ := registers_some registered
    obtain ⟨-, there⟩ := inv.started request state thread other turnId member
    cases states_apart inv.core.sessions there session
    cases turnId with
    | none => cases named
    | some =>
      have apart := all_eq_true.mp careful _ member
      simp [startsTurn, starts] at apart
  have inside : ∀ job ∈ w.jobs, ∀ place, registers job = some place → place.1 < w.adapter.states.length := by
    intro job member place registered
    obtain ⟨request, thread, other, rfl⟩ := registers_some registered
    exact (inv.started request place.1 thread other place.2 member).1
  refine ⟨ext fun found => ?_, apart⟩
  obtain ⟨state, request⟩ := found
  rw [waiter_some inv.sessions, waiter_some inv.core.sessions]
  refine and_congr_right fun named => ?_
  constructor
  · rintro ⟨session, waits⟩
    refine ⟨inv.kept _ session, ?_⟩
    rw [settled, all_turns (apart state (inv.kept _ session) named.2) inside]
    exact waits
  · rintro ⟨session, waits⟩
    rw [settled, all_turns (apart state session named.2) inside] at waits
    refine ⟨(inv.grown _ session).resolve_right fun later => ?_, waits⟩
    rw [turnsOf, getElem?_eq_none later] at waits
    cases waits

theorem inv_completed (inv : Inv w) {threadId turnId : Option String} {status : Status}
    (careful : careful w (.codex (.completed threadId turnId status))) :
    Inv { handleCodex w (.completed threadId turnId status) with reading := some .codex } := by
  obtain ⟨same, apart⟩ := waiter_settled inv careful
  cases found : waiter w.adapter threadId turnId with
  | none =>
    rw [same] at found
    simp only [handleCodex, same, found, core_unfound inv.core (outcomeOf status) found]
    exact ⟨inv.core, fun apart => absurd rfl apart, inv.missed, inv.sessions, inv.kept, inv.grown, inv.prompts,
      inv.started⟩
  | some place =>
    obtain ⟨state, request⟩ := place
    have settledFound := found
    rw [same] at settledFound
    obtain ⟨named, session, -⟩ := (waiter_some inv.core.sessions).mp settledFound
    have inside := inside_of inv.sessions ((waiter_some inv.sessions).mp found).2.1
    simp only [handleCodex, found]
    have ran : settled { w with
        reading := some .codex, told := w.told.map (completes threadId turnId (outcomeOf status))
        adapter := dropTurn w.adapter state turnId, jobs := w.jobs ++ [.finished request (outcomeOf status)] } =
        replying (dropTurn (settled w) state turnId) request (replyOf (outcomeOf status)) := by
      simp only [settled, foldl_append, foldl_cons, foldl_nil]
      rw [all_drop (apart state session named.2) inside]
      rfl
    have length : (dropTurn w.adapter state turnId).states.length = w.adapter.states.length := length_modify _ _ _
    refine ⟨by rw [ran]; exact core_completed inv.core settledFound, fun apart => absurd rfl apart, ?_,
      sessions_drop inv.sessions, ?_, ?_, ?_, ?_⟩
    · intro turn member
      obtain ⟨old, there, rfl⟩ := mem_map.mp member
      rw [(completes_request _ _ _ old).2.2.2]
      exact inv.missed old there
    · intro entry member
      rw [ran]
      exact inv.kept entry member
    · intro entry member
      rw [ran] at member
      rw [length]
      exact inv.grown entry member
    · intro id request state threadId there
      rw [length]
      exact inv.prompts id request state threadId there
    · intro request' state' threadId' thread turnId' member
      rw [length, ran]
      rcases mem_append.mp member with old | last
      · exact inv.started request' state' threadId' thread turnId' old
      · cases mem_singleton.mp last

theorem inv_quiet (core : Core w.adapter w.codexPending w.nextCodexId w.received w.told) (jobs : w.jobs = [])
    (missed : ∀ turn ∈ w.told, turn.missed = false) : Inv w := by
  have ran : settled w = w.adapter := by
    rw [settled, jobs]
    rfl
  refine ⟨by rw [ran]; exact core, fun _ => jobs, missed, core.sessions, fun entry member => by rw [ran]; exact member,
    fun entry member => Or.inl (ran ▸ member), ?_, ?_⟩
  · intro id request state threadId there
    exact inside_of core.sessions (core.prompts id request state threadId there)
  · intro request state threadId thread turnId member
    rw [jobs] at member
    cases member

theorem quiet_core (inv : Inv w) (jobs : w.jobs = []) :
    Core w.adapter w.codexPending w.nextCodexId w.received w.told := by
  have core := inv.core
  rw [settled, jobs] at core
  exact core

theorem inv_acp (inv : Inv w) (jobs : w.jobs = []) {line : AcpLine} (lawful : lawful w (.acp line))
    (careful : careful w (.acp line)) : Inv { handleAcp w line with reading := some .acp } := by
  have core := quiet_core inv jobs
  cases line with
  | null => cases lawful
  | other => exact inv_quiet core jobs inv.missed
  | initializeRequest =>
    exact inv_quiet (core_asked core rfl nofun) jobs inv.missed
  | sessionNew => exact inv_quiet (core_asked core rfl nofun) jobs inv.missed
  | unknown => exact inv_quiet (core_answered core _) jobs inv.missed
  | prompt sessionId =>
    cases session : sessionOf w.adapter sessionId with
    | none =>
      simp only [handleAcp, session]
      exact inv_quiet (core_answered core _) jobs inv.missed
    | some state =>
      simp only [handleAcp, session]
      refine inv_quiet (core_asked core rfl fun request other threadId same => ?_) jobs inv.missed
      cases same
      have member := session_of_mem session
      obtain ⟨stored, there, named⟩ := core.sessions.states _ member
      have thread : threadOf w.adapter state = sessionId := by
        simp only [threadOf, there, bind_some, named]
      rw [thread]
      exact member
  | cancel sessionId =>
    have interrupts : w.told.map (misses sessionId (activeTurn w.adapter sessionId)) = w.told :=
      core_interrupts core fun turn member => of_decide_eq_true (all_eq_true.mp careful turn member)
    simp only [handleAcp, interrupts]
    split
    · exact inv_quiet (core_asked core rfl nofun) jobs inv.missed
    · exact inv_quiet (core_answered core _) jobs inv.missed

theorem inv_step {action : Action} (lawful : lawful w action) (careful : careful w action) (inv : Inv w) {next : World}
    (stepped : step w action = some next) : Inv next := by
  by_cases dead : (!w.alive)
  · rw [step.eq_def, if_pos dead] at stepped
    cases stepped
  cases action with
  | codex line =>
    simp only [step, if_neg dead] at stepped
    split at stepped
    · cases stepped
    · cases stepped
      cases line with
      | response => exact inv_response inv lawful
      | completed => exact inv_completed inv careful
      | null => cases lawful
      | other => exact ⟨inv.core, fun apart => absurd rfl apart, inv.missed, inv.sessions, inv.kept, inv.grown,
          inv.prompts, inv.started⟩
  | acp =>
    simp only [step, if_neg dead] at stepped
    split at stepped
    · cases stepped
    · next other =>
      cases stepped
      exact inv_acp inv (inv.quiet other) lawful careful
  | continuations =>
    simp only [step, if_neg dead] at stepped
    cases stepped
    exact inv_quiet inv.core rfl inv.missed
  | exit =>
    simp only [step, if_neg dead] at stepped
    split at stepped
    · cases stepped
      exact ⟨inv.core, inv.quiet, inv.missed, inv.sessions, inv.kept, inv.grown, inv.prompts, inv.started⟩
    · cases stepped

theorem inv_start : Inv start := by
  refine inv_quiet ⟨⟨?_, ?_, ?_⟩, ?_, ?_, ?_, ?_, ?_, ?_, ?_, ?_, ?_⟩ rfl ?_
  · intro entry absurd
    cases absurd
  · intro entry absurd
    cases absurd
  · exact nodup_nil
  · intro id p absurd
    cases absurd
  · intro one two p q absurd
    cases absurd
  · intro id request state threadId absurd
    cases absurd
  · intro request _
    rfl
  · exact nodup_nil
  · intro turn absurd
    cases absurd
  · intro turn absurd
    cases absurd
  · intro threadId state turnId request absurd
    cases absurd
  · intro threadId state turn absurd
    cases absurd
  · intro turn absurd
    cases absurd

end Steps

/-- Every prompt whose turn is completed has one reply, the outcome of the turn, and every cancel interrupts the turn that
    is open, however the lines are grouped, as long as no turn is completed in the read that starts it and no cancel
    comes to a session with an open turn that was not started last. -/
theorem prompts_answered (actions : List Action) (w : World) (ran : run step start actions = some w)
    (lawful : Guarded step (fun w action => lawful w action) start actions)
    (careful : Guarded step (fun w action => careful w action) start actions) : Answers w := by
  have inv : Inv w := by
    refine guarded_run_invariant Inv ?_ (guarded_and lawful careful) ran inv_start
    exact fun _ _ _ guards inv stepped => inv_step guards.1 guards.2 inv stepped
  refine ⟨fun between turn member => ?_, inv.missed⟩
  have jobs : w.jobs = [] := inv.quiet (by rw [between]; exact nofun)
  exact ((quiet_core inv jobs).replied turn member).2.2

def prompted : List Action :=
  [.acp .sessionNew, .continuations, .codex (.response (some 1) (.result (some (some "x")) none)), .continuations,
    .acp (.prompt (some "x")), .continuations, .codex (.response (some 2) (.result none (some (some "t"))))]

def inOneRead : List Action := prompted ++ [.codex (.completed (some "x") (some "t") .other), .continuations]

def inTwoReads : List Action :=
  prompted ++ [.continuations, .acp (.cancel (some "x")), .continuations,
    .codex (.completed (some "x") (some "t") .interrupted), .continuations]

theorem two_reads_answer : ∃ w, run step start inTwoReads = some w ∧ Answers w ∧
    repliesTo w.adapter 1 = [.stopped "cancelled"] ∧ w.interrupts = [(2, some "x", some "t")] := by
  have ran : ((run step start inTwoReads).map fun w => (repliesTo w.adapter 1, w.interrupts)) =
      some ([.stopped "cancelled"], [(2, some "x", some "t")]) := by decide +kernel
  obtain ⟨w, here, seen⟩ := map_eq_some_iff.mp ran
  simp only [Prod.mk.injEq] at seen
  refine ⟨w, here, prompts_answered inTwoReads w here ?_ ?_, seen⟩
  · exact checked_guarded lawful (fun _ _ passed => passed) _ _ (by decide +kernel)
  · exact checked_guarded careful (fun _ _ passed => passed) _ _ (by decide +kernel)

/-- The waiter is registered only when the read is over, and the completion has been dropped by then. -/
theorem one_read_loses : ¬ ∀ (actions : List Action) (w : World), run step start actions = some w →
    Guarded step (fun w action => lawful w action) start actions → Answers w := by
  intro claimed
  have ran : ((run step start inOneRead).map fun w => (w.reading, repliesTo w.adapter 1, w.told)) =
      some (none, [], [⟨1, some "x", "t", some .endTurn, false⟩]) := by decide +kernel
  obtain ⟨w, here, seen⟩ := map_eq_some_iff.mp ran
  simp only [Prod.mk.injEq] at seen
  obtain ⟨between, silent, told⟩ := seen
  have answers := claimed inOneRead w here (checked_guarded lawful (fun _ _ passed => passed) _ _ (by decide +kernel))
  have one := answers.replies between ⟨1, some "x", "t", some .endTurn, false⟩ (by rw [told]; exact mem_singleton_self _)
  rw [silent] at one
  cases one

end PieRelay.CodexAnswers
