import PieRelay.ControlPlane
import PieRelay.Executions

/-!
The sessions of a client daemon, client/internal/sessionmanager/manager.go: records under a lock, a runner for each, and
calls that wait for a record without the lock. A record is numbered when it is made and stays the same where the registry
has another one under its id later. What the runners do and when they return is not said.
-/
namespace PieRelay.SessionManager
open List Option
open ControlPlane (Table values)
open Executions

structure Config where
  id : String
  agentID : String
  agentMode : String
  relayURL : String
  token : String
  ptyHostPath : String
  executorPath : String
  streamID : String
  workingDir : String
  initialDriver : String
  claudeOAuthToken : String
  claudeAuthVersion : String
  deriving DecidableEq

inductive SessionState where
  | starting
  | running
  | stopped
  | failed
  deriving DecidableEq

def SessionState.active (state : SessionState) : Bool := state = .starting ∨ state = .running

structure Status where
  id : String
  agentID : String
  agentMode : String
  relayURL : String
  streamID : String
  workingDir : String
  claudeAuthVersion : String
  state : SessionState
  relayState : String
  startedAt : Nat
  stoppedAt : Option Nat
  lastError : String
  deriving DecidableEq

inductive RunError where
  | canceled
  | other (text : String)
  deriving DecidableEq

inductive Goroutine where
  | launched
  | running
  | returned (error : Option RunError)
  | ended
  deriving DecidableEq

structure Session where
  config : Config
  status : Status
  cancelled : Bool
  goroutine : Goroutine
  deriving DecidableEq

def Session.live (s : Session) : Bool := s.goroutine = .launched ∨ s.goroutine = .running

structure Options where
  defaultPTYHostPath : String
  defaultExecutorPath : String
  defaultACPPath : String
  limit : Int

def Options.capacity (o : Options) : Nat := if o.limit < 1 then 16 else o.limit.toNat

inductive StartError where
  | required
  | agentMode
  | streamID
  | ptyHostPath
  | executorPath
  | exists
  | limit
  deriving DecidableEq

inductive StopError where
  | notFound
  | context
  | active
  deriving DecidableEq

def validID (value : String) : Bool :=
  value ≠ "" ∧ value.utf8ByteSize ≤ 128 ∧ value.toList.all fun c =>
    ('a' ≤ c ∧ c ≤ 'z') ∨ ('A' ≤ c ∧ c ≤ 'Z') ∨ ('0' ≤ c ∧ c ≤ '9') ∨ c ∈ ['-', '_', '.', ':', '/']

def fillIn (o : Options) (config : Config) : Except StartError Config :=
  if ¬ validID config.id ∨ config.relayURL = "" ∨ config.token = "" then .error .required
  else
    let config := { config with agentMode := if config.agentMode = "" then "terminal" else config.agentMode }
    if config.agentMode ∉ ["terminal", "chat", "acp"] then .error .agentMode
    else
      let config := { config with streamID := if config.streamID = "" then config.agentMode else config.streamID }
      if ¬ validID config.streamID then .error .streamID
      else if config.agentMode = "terminal" then
        let config := { config with
          ptyHostPath := if config.ptyHostPath = "" then o.defaultPTYHostPath else config.ptyHostPath }
        if config.ptyHostPath = "" then .error .ptyHostPath else .ok config
      else
        let config := { config with
          executorPath := if config.executorPath ≠ "" then config.executorPath
            else if config.agentMode = "acp" then o.defaultACPPath else o.defaultExecutorPath }
        if config.executorPath = "" then .error .executorPath else .ok config

def sameConfig (a b : Config) : Bool :=
  a.id = b.id ∧ a.agentID = b.agentID ∧ a.agentMode = b.agentMode ∧ a.relayURL = b.relayURL ∧
    a.ptyHostPath = b.ptyHostPath ∧ a.executorPath = b.executorPath ∧ a.streamID = b.streamID ∧
    a.workingDir = b.workingDir ∧ a.initialDriver = b.initialDriver

def newSession (config : Config) (now : Nat) : Session where
  config
  status := ⟨config.id, config.agentID, config.agentMode, config.relayURL, config.streamID, config.workingDir,
    config.claudeAuthVersion, .starting, "connecting", now, none, ""⟩
  cancelled := false
  goroutine := .launched

/-- A call of `Stop` or `Remove` that has found its session, or waits for it, the rest of a `Remove`, a `Close`, or one
    that is over. -/
inductive Call where
  | found (id : String) (session : Nat) (removes : Bool)
  | waiting (id : String) (session : Nat) (removes : Bool)
  | removing (id : String) (state : Option SessionState)
  | closing (cancel wait : List Nat)
  | ended (result : Except StopError (Option Status))

structure World where
  sessions : List Session
  registry : Table Nat
  calls : List Call
  shutdown : Bool

def start : World := ⟨[], ∅, [], false⟩

def activeAt (w : World) (handle : Nat) : Bool := (w.sessions[handle]?.map fun s => s.status.state.active).getD false

def startSession (o : Options) (w : World) (config : Config) (now : Nat) : World × Except StartError (Status × Bool) :=
  match fillIn o config with
  | .error error => (w, .error error)
  | .ok config =>
    match (w.registry.lookup config.id).bind fun handle => w.sessions[handle]? with
    | some existing => (w, if sameConfig existing.config config then .ok (existing.status, true) else .error .exists)
    | none =>
      if o.capacity ≤ ((values w.registry).filter (activeAt w)).length then (w, .error .limit)
      else ({ w with
        sessions := w.sessions ++ [newSession config now]
        registry := w.registry.insert config.id w.sessions.length },
        .ok ((newSession config now).status, false))

def Session.begin_ (s : Session) : Session := { s with
  status := { s.status with state := if s.status.state = .starting then .running else s.status.state }
  goroutine := .running }

def Session.finish (s : Session) (shutdown : Bool) (error : Option RunError) (now : Nat) : Session :=
  let cancelled := error = some .canceled ∨ s.cancelled ∨ shutdown
  { s with
    config := { s.config with token := "", claudeOAuthToken := "" }
    status := { s.status with
      state := if cancelled then .stopped else .failed
      lastError := if cancelled then s.status.lastError
        else match error with
          | some (.other text) => text
          | _ => s.status.lastError
      relayState := "disconnected"
      stoppedAt := some now }
    goroutine := .ended }

def setCall (w : World) (call : Nat) (next : Call) : World := { w with calls := w.calls.set call next }

def setSession (w : World) (handle : Nat) (s : Session) : World := { w with sessions := w.sessions.set handle s }

def cancel (w : World) (handle : Nat) : World :=
  match w.sessions[handle]? with
  | some s => setSession w handle { s with cancelled := true }
  | none => w

inductive Action where
  | start (config : Config) (now : Nat)
  | begin_ (handle : Nat)
  | relayState (handle : Nat) (state : String)
  | returns (handle : Nat) (error : Option RunError)
  | finish (handle now : Nat)
  | stop (id : String) (removes : Bool)
  | wait (call : Nat)
  | timeout (call : Nat)
  | delete (call : Nat)
  | close
  | cancelNext (call : Nat)
  | shutdown

def remove (w : World) (call : Nat) (id : String) (state : Option SessionState) : World :=
  match w.registry.lookup id with
  | none => setCall w call (.ended (.error .notFound))
  | some _ =>
    if state = some .stopped ∨ state = some .failed then
      setCall { w with registry := w.registry.erase id } call (.ended (.ok none))
    else setCall w call (.ended (.error .active))

def step (o : Options) (w : World) : Action → Option World
  | .start config now => some (startSession o w config now).1
  | .begin_ handle => match w.sessions[handle]? with
    | some s => if s.goroutine = .launched then some (setSession w handle s.begin_) else none
    | none => none
  | .relayState handle state => match w.sessions[handle]? with
    | some s =>
      if s.goroutine = .running then
        some (setSession w handle { s with status := { s.status with relayState := state } })
      else none
    | none => none
  | .returns handle error => match w.sessions[handle]? with
    | some s =>
      if s.goroutine = .running then some (setSession w handle { s with goroutine := .returned error }) else none
    | none => none
  | .finish handle now => match w.sessions[handle]? with
    | some s => match s.goroutine with
      | .returned error => some (setSession w handle (s.finish w.shutdown error now))
      | _ => none
    | none => none
  | .stop id removes => match w.registry.lookup id with
    | some handle => some { w with calls := w.calls ++ [.found id handle removes] }
    | none => some { w with
      calls := w.calls ++ [if removes then .removing id none else .ended (.error .notFound)] }
  | .wait call => match w.calls[call]? with
    | some (.waiting id handle removes) => match w.sessions[handle]? with
      | some s =>
        if s.goroutine = .ended then
          some (setCall w call (if removes then .removing id (some s.status.state) else .ended (.ok (some s.status))))
        else none
      | none => none
    | some (.closing [] (handle :: rest)) => match w.sessions[handle]? with
      | some s => if s.goroutine = .ended then some (setCall w call (.closing [] rest)) else none
      | none => none
    | some (.closing [] []) => some (setCall w call (.ended (.ok none)))
    | _ => none
  | .timeout call => match w.calls[call]? with
    | some (.waiting _ _ _) => some (setCall w call (.ended (.error .context)))
    | some (.closing [] (_ :: _)) => some (setCall w call (.ended (.error .context)))
    | _ => none
  | .delete call => match w.calls[call]? with
    | some (.removing id state) => some (remove w call id state)
    | _ => none
  | .close => some { w with calls := w.calls ++ [.closing (values w.registry) (values w.registry)] }
  | .cancelNext call => match w.calls[call]? with
    | some (.found id handle removes) => some (cancel (setCall w call (.waiting id handle removes)) handle)
    | some (.closing (handle :: rest) wait) => some (cancel (setCall w call (.closing rest wait)) handle)
    | _ => none
  | .shutdown => some { w with shutdown := true }

/-- Every runner that has been launched and has not returned belongs to a session in the registry. -/
def Registered (w : World) : Prop :=
  ∀ handle s, w.sessions[handle]? = some s → s.live → w.registry.lookup s.config.id = some handle

def Single (w : World) : Prop :=
  ∀ (handle other : Nat) (s t : Session), w.sessions[handle]? = some s → w.sessions[other]? = some t → s.live → t.live →
    s.config.id = t.config.id → handle = other

def liveAt (w : World) (handle : Nat) : Bool := (w.sessions[handle]?.map Session.live).getD false

def liveHandles (w : World) : List Nat := (range w.sessions.length).filter (liveAt w)

structure Good (o : Options) (w : World) : Prop where
  registered : Registered w
  single : Single w
  bounded : (liveHandles w).length ≤ o.capacity

/-- Where a `Remove` deletes, the runner of the session that is there by then has returned. -/
def Careful (w : World) : Action → Prop
  | .delete call => ∀ id state, w.calls[call]? = some (.removing id (some state)) → state = .stopped ∨ state = .failed →
      ∀ handle s, w.registry.lookup id = some handle → w.sessions[handle]? = some s → s.live = false
  | _ => True

structure Sound (o : Options) (w : World) : Prop where
  active : ∀ (handle : Nat) (s : Session), w.sessions[handle]? = some s → s.live → s.status.state.active
  filed : ∀ id handle, w.registry.lookup id = some handle → ∃ s, w.sessions[handle]? = some s ∧ s.config.id = id
  room : ((values w.registry).filter (activeAt w)).length ≤ o.capacity

section Facts
variable {o : Options} {w : World}
variable {handle : Nat} {s t : Session} {id : String} {next : World}

theorem start_sound (o : Options) : Sound o start := by
  refine ⟨fun handle s here => ?_, fun id handle there => ?_, Nat.zero_le _⟩
  · rw [start, getElem?_nil] at here
    cases here
  · rw [start, AList.lookup_empty] at there
    cases there

theorem registered_single (registered : Registered w) : Single w := by
  intro handle other s t here there first second same
  have mine := registered handle s here first
  have theirs := registered other t there second
  rw [same] at mine
  exact some.inj (mine.symm.trans theirs)

theorem live_at_iff : liveAt w handle ↔ ∃ s, w.sessions[handle]? = some s ∧ s.live := by
  rw [liveAt]
  cases w.sessions[handle]? <;> simp

/-- The runners are counted with the sessions of the registry. -/
theorem registered_bounded (sound : Sound o w) (registered : Registered w) : (liveHandles w).length ≤ o.capacity := by
  have distinct : (liveHandles w).Nodup := nodup_range.filter _
  have inside : liveHandles w ⊆ (values w.registry).filter (activeAt w) := by
    intro handle member
    obtain ⟨s, here, live⟩ := live_at_iff.mp (mem_filter.mp member).2
    refine mem_filter.mpr ⟨?_, ?_⟩
    · exact ControlPlane.mem_values.mpr ⟨_, registered handle s here live⟩
    · rw [activeAt, here]
      exact sound.active handle s here live
  exact Nat.le_trans (subperm_of_subset distinct inside).length_le sound.room

theorem good_iff (sound : Sound o w) : Good o w ↔ Registered w :=
  ⟨Good.registered, fun registered => ⟨registered, registered_single registered, registered_bounded sound registered⟩⟩

/-- A session that is written over by one of the same id, no more alive nor active than it was. -/
structure Weaker (s t : Session) : Prop where
  id : t.config.id = s.config.id
  live : t.live → s.live
  active : t.status.state.active → s.status.state.active
  states : t.live → s.status.state.active → t.status.state.active

theorem set_session (here : w.sessions[handle]? = some s) (other : Nat) :
    (setSession w handle t).sessions[other]? = if other = handle then some t else w.sessions[other]? := by
  have inside := (List.getElem?_eq_some_iff.mp here).1
  rw [setSession, List.getElem?_set, if_pos inside]
  split
  · next same => rw [if_pos same.symm]
  · next apart => rw [if_neg (Ne.symm apart)]

theorem weaker_sound (sound : Sound o w) (here : w.sessions[handle]? = some s)
    (weaker : Weaker s t) : Sound o (setSession w handle t) := by
  refine ⟨fun other u there live => ?_, fun id other found => ?_, ?_⟩
  · rw [set_session here] at there
    split at there
    · cases there
      exact weaker.states live (sound.active handle s here (weaker.live live))
    · exact sound.active other u there live
  · obtain ⟨u, there, named⟩ := sound.filed id other found
    rw [set_session here]
    split
    · next same =>
      subst same
      cases here.symm.trans there
      exact ⟨t, rfl, weaker.id.trans named⟩
    · exact ⟨u, there, named⟩
  · refine Nat.le_trans (Sublist.length_le ?_) sound.room
    refine monotone_filter_right _ fun other active => ?_
    rw [activeAt, set_session here] at active
    split at active
    · next same =>
      rw [activeAt, same, here]
      exact weaker.active active
    · exact active

theorem weaker_registered (registered : Registered w) (here : w.sessions[handle]? = some s)
    (weaker : Weaker s t) : Registered (setSession w handle t) := by
  intro other u there live
  rw [set_session here] at there
  split at there
  · next same =>
    cases there
    rw [same, weaker.id]
    exact registered handle s here (weaker.live live)
  · exact registered other u there live

inductive Change (o : Options) (w : World) (action : Action) (next : World) : Prop where
  | same (sessions : next.sessions = w.sessions) (registry : next.registry = w.registry) (careful : Careful w action)
  | weaker (handle : Nat) (s t : Session) (here : w.sessions[handle]? = some s) (weaker : Weaker s t)
      (sessions : next.sessions = w.sessions.set handle t) (registry : next.registry = w.registry)
      (careful : Careful w action)
  | added (config : Config) (now : Nat) (absent : (w.registry.lookup config.id).bind (fun handle => w.sessions[handle]?) = none)
      (room : ((values w.registry).filter (activeAt w)).length < o.capacity)
      (sessions : next.sessions = w.sessions ++ [newSession config now])
      (registry : next.registry = w.registry.insert config.id w.sessions.length) (careful : Careful w action)
  | erased (id : String) (handle : Nat) (found : w.registry.lookup id = some handle) (sessions : next.sessions = w.sessions)
      (registry : next.registry = w.registry.erase id)
      (careful : Careful w action ↔ ∀ s, w.sessions[handle]? = some s → s.live = false)

theorem start_change (config : Config) (now : Nat) : Change o w (.start config now) (startSession o w config now).1 := by
  unfold startSession
  split
  · exact .same rfl rfl trivial
  · next config' _ =>
    split
    · exact .same rfl rfl trivial
    · next absent =>
      split
      · exact .same rfl rfl trivial
      · next room => exact .added config' now absent (Nat.lt_of_not_le room) rfl rfl trivial

theorem cancel_change {action : Action} (calls : List Call) (handle : Nat) (careful : Careful w action) :
    Change o w action (cancel { w with calls } handle) := by
  unfold cancel
  split
  · next s here => exact .weaker handle s { s with cancelled := true } here ⟨rfl, id, id, fun _ active => active⟩ rfl rfl careful
  · exact .same rfl rfl careful

theorem delete_change {call : Nat} {state : Option SessionState} (there : w.calls[call]? = some (.removing id state)) :
    Change o w (.delete call) (remove w call id state) := by
  -- The call says which session is asked about.
  have asked : Careful w (.delete call) ↔ (state = some .stopped ∨ state = some .failed →
      ∀ handle s, w.registry.lookup id = some handle → w.sessions[handle]? = some s → s.live = false) := by
    constructor
    · rintro careful final
      cases state with
      | none => rcases final with none_ | none_ <;> cases none_
      | some state => exact careful id state there (by simpa using final)
    · intro each id' state' there' final
      cases there.symm.trans there'
      exact each (by simpa using final)
  unfold remove
  split
  · next absent =>
    refine .same rfl rfl (asked.mpr fun _ handle s found => ?_)
    cases absent.symm.trans found
  · next handle found =>
    split
    · next final =>
      refine .erased id handle found rfl rfl (asked.trans ⟨fun each s => each final handle s found, ?_⟩)
      intro each _ other s found'
      cases found.symm.trans found'
      exact each s
    · next open_ => exact .same rfl rfl (asked.mpr fun final => absurd final open_)

theorem step_change {action : Action} (stepped : step o w action = some next) : Change o w action next := by
  cases action with
  | start config now =>
    cases stepped
    exact start_change config now
  | begin_ handle =>
    simp only [step] at stepped
    split at stepped
    · next s here =>
      simp only [ite_none_right_eq_some, some.injEq] at stepped
      obtain ⟨launched, rfl⟩ := stepped
      refine .weaker handle s s.begin_ here ⟨rfl, fun _ => ?_, fun active => ?_, fun _ active => ?_⟩ rfl rfl trivial
      · simp [Session.live, launched]
      · dsimp only [Session.begin_] at active
        split at active
        · next starting => simp [SessionState.active, starting]
        · exact active
      · dsimp only [Session.begin_]
        split
        · rfl
        · exact active
    · cases stepped
  | relayState handle state =>
    simp only [step] at stepped
    split at stepped
    · next s here =>
      simp only [ite_none_right_eq_some, some.injEq] at stepped
      obtain ⟨_, rfl⟩ := stepped
      exact .weaker handle s { s with status := { s.status with relayState := state } } here
        ⟨rfl, id, id, fun _ active => active⟩ rfl rfl trivial
    · cases stepped
  | returns handle error =>
    simp only [step] at stepped
    split at stepped
    · next s here =>
      simp only [ite_none_right_eq_some, some.injEq] at stepped
      obtain ⟨running, rfl⟩ := stepped
      refine .weaker handle s { s with goroutine := .returned error } here ⟨rfl, fun _ => ?_, id, fun _ active => active⟩
        rfl rfl trivial
      simp [Session.live, running]
    · cases stepped
  | finish handle now =>
    simp only [step] at stepped
    split at stepped
    · next s here =>
      split at stepped
      · next error _ =>
        cases stepped
        refine .weaker handle s (s.finish w.shutdown error now) here ⟨rfl, fun live => ?_, fun active => ?_, fun live => ?_⟩
          rfl rfl trivial
        · simp [Session.live, Session.finish] at live
        · dsimp only [Session.finish] at active
          split at active <;> simp [SessionState.active] at active
        · simp [Session.live, Session.finish] at live
      · cases stepped
    · cases stepped
  | stop | timeout =>
    simp only [step] at stepped
    split at stepped <;> cases stepped <;> exact .same rfl rfl trivial
  | wait =>
    simp only [step] at stepped
    split at stepped
    · split at stepped
      · simp only [ite_none_right_eq_some, some.injEq] at stepped
        obtain ⟨_, rfl⟩ := stepped
        exact .same rfl rfl trivial
      · cases stepped
    · split at stepped
      · simp only [ite_none_right_eq_some, some.injEq] at stepped
        obtain ⟨_, rfl⟩ := stepped
        exact .same rfl rfl trivial
      · cases stepped
    · cases stepped
      exact .same rfl rfl trivial
    · cases stepped
  | delete =>
    simp only [step] at stepped
    split at stepped
    · next there =>
      cases stepped
      exact delete_change there
    · cases stepped
  | close | shutdown =>
    cases stepped
    exact .same rfl rfl trivial
  | cancelNext =>
    simp only [step] at stepped
    split at stepped <;> cases stepped <;> exact cancel_change _ _ trivial

theorem same_sound (sound : Sound o w) (sessions : next.sessions = w.sessions)
    (registry : next.registry = w.registry) : Sound o next := by
  have same : activeAt next = activeAt w := by
    funext handle
    rw [activeAt, activeAt, sessions]
  refine ⟨fun handle s here => ?_, fun id handle found => ?_, ?_⟩
  · rw [sessions] at here
    exact sound.active handle s here
  · rw [registry] at found
    rw [sessions]
    exact sound.filed id handle found
  · rw [registry, same]
    exact sound.room

theorem filed_absent (sound : Sound o w)
    (absent : (w.registry.lookup id).bind (fun handle => w.sessions[handle]?) = none) : w.registry.lookup id = none := by
  cases found : w.registry.lookup id with
  | none => rfl
  | some handle =>
    obtain ⟨s, here, _⟩ := sound.filed id handle found
    rw [found, bind_some, here] at absent
    cases absent

theorem added_sound (sound : Sound o w) {config : Config} {now : Nat}
    (absent : (w.registry.lookup config.id).bind (fun handle => w.sessions[handle]?) = none)
    (room : ((values w.registry).filter (activeAt w)).length < o.capacity)
    (sessions : next.sessions = w.sessions ++ [newSession config now])
    (registry : next.registry = w.registry.insert config.id w.sessions.length) : Sound o next := by
  have old (handle : Nat) (s : Session) (here : w.sessions[handle]? = some s) : next.sessions[handle]? = some s := by
    rw [sessions, List.getElem?_append_left (List.getElem?_eq_some_iff.mp here).1]
    exact here
  have new : next.sessions[w.sessions.length]? = some (newSession config now) := by
    rw [sessions, getElem?_concat_length]
  refine ⟨fun handle s here live => ?_, fun id handle found => ?_, ?_⟩
  · rw [sessions] at here
    rcases mem_append.mp (mem_of_getElem? here) with member | member
    · rcases Nat.lt_or_ge handle w.sessions.length with inside | beyond
      · rw [getElem?_append_left inside] at here
        exact sound.active handle s here live
      · rw [getElem?_append_right beyond, getElem?_singleton] at here
        split at here
        · cases here
          rfl
        · cases here
    · rw [mem_singleton.mp member]
      rfl
  · rw [registry] at found
    by_cases same : id = config.id
    · subst same
      rw [AList.lookup_insert] at found
      cases found
      exact ⟨_, new, rfl⟩
    · rw [AList.lookup_insert_ne same] at found
      obtain ⟨s, here, named⟩ := sound.filed id handle found
      exact ⟨s, old handle s here, named⟩
  · have fresh : config.id ∉ w.registry := AList.lookup_eq_none.mp (filed_absent sound absent)
    have listed : values next.registry = w.sessions.length :: values w.registry := by
      rw [registry, values, AList.entries_insert_of_notMem fresh]
      rfl
    have same : (values w.registry).filter (activeAt next) = (values w.registry).filter (activeAt w) := by
      refine filter_congr fun handle member => ?_
      obtain ⟨id, found⟩ := ControlPlane.mem_values.mp member
      obtain ⟨s, here, _⟩ := sound.filed id handle found
      rw [activeAt, activeAt, here, old handle s here]
    rw [listed, filter_cons, same]
    split
    · rw [length_cons]
      exact room
    · exact Nat.le_of_lt room

theorem erased_sound (sound : Sound o w) (sessions : next.sessions = w.sessions)
    (registry : next.registry = w.registry.erase id) : Sound o next := by
  have same : activeAt next = activeAt w := by
    funext handle
    rw [activeAt, activeAt, sessions]
  refine ⟨fun handle s here => ?_, fun other handle found => ?_, ?_⟩
  · rw [sessions] at here
    exact sound.active handle s here
  · rw [registry] at found
    rw [sessions]
    exact sound.filed other handle (ControlPlane.lookup_of_erase found)
  · rw [registry, same]
    refine Nat.le_trans (Sublist.length_le (Sublist.filter _ ?_)) sound.room
    exact (kerase_sublist id w.registry.entries).map Sigma.snd

theorem step_sound (w : World) (action : Action) (next : World) (sound : Sound o w) (stepped : step o w action = some next) :
    Sound o next := by
  rcases step_change stepped with
    ⟨sessions, registry, _⟩ | ⟨handle, s, t, here, weaker, sessions, registry, _⟩ |
    ⟨config, now, absent, room, sessions, registry, _⟩ | ⟨id, handle, _, sessions, registry, _⟩
  · exact same_sound sound sessions registry
  · exact same_sound (weaker_sound sound here weaker) sessions registry
  · exact added_sound sound absent room sessions registry
  · exact erased_sound sound sessions registry

theorem same_registered (registered : Registered w) (sessions : next.sessions = w.sessions)
    (registry : next.registry = w.registry) : Registered next := by
  intro handle s here live
  rw [sessions] at here
  rw [registry]
  exact registered handle s here live

theorem added_registered (sound : Sound o w) (registered : Registered w) {config : Config} {now : Nat}
    (absent : (w.registry.lookup config.id).bind (fun handle => w.sessions[handle]?) = none)
    (sessions : next.sessions = w.sessions ++ [newSession config now])
    (registry : next.registry = w.registry.insert config.id w.sessions.length) : Registered next := by
  intro handle s here live
  rw [sessions] at here
  rw [registry]
  rcases Nat.lt_or_ge handle w.sessions.length with inside | beyond
  · rw [getElem?_append_left inside] at here
    have mine := registered handle s here live
    have apart : s.config.id ≠ config.id := by
      intro same
      rw [same, filed_absent sound absent] at mine
      cases mine
    rw [AList.lookup_insert_ne apart]
    exact mine
  · rw [getElem?_append_right beyond, getElem?_singleton] at here
    split at here
    · next =>
      cases here
      have last : handle = w.sessions.length := by omega
      rw [last]
      exact AList.lookup_insert _
    · cases here

theorem erased_registered (sound : Sound o w) (registered : Registered w)
    (found : w.registry.lookup id = some handle) (sessions : next.sessions = w.sessions)
    (registry : next.registry = w.registry.erase id) :
    Registered next ↔ ∀ s, w.sessions[handle]? = some s → s.live = false := by
  obtain ⟨s, here, named⟩ := sound.filed id handle found
  constructor
  · intro kept t there
    by_contra live
    cases here.symm.trans there
    have mine := kept handle s (by rw [sessions]; exact here) (Bool.not_eq_false _ ▸ live)
    rw [registry, named, AList.lookup_erase] at mine
    cases mine
  · intro over_ other t there live
    rw [sessions] at there
    have theirs := registered other t there live
    have apart : t.config.id ≠ id := by
      intro same
      rw [same, found] at theirs
      cases theirs
      rw [over_ t there] at live
      cases live
    rw [registry, AList.lookup_erase_ne apart]
    exact theirs

theorem step_good (w : World) (action : Action) (next : World) (sound : Sound o w) (good : Good o w)
    (stepped : step o w action = some next) : Good o next ↔ Careful w action := by
  rw [good_iff (step_sound w action next sound stepped)]
  rcases step_change stepped with
    ⟨sessions, registry, careful⟩ | ⟨handle, s, t, here, weaker, sessions, registry, careful⟩ |
    ⟨config, now, absent, room, sessions, registry, careful⟩ | ⟨id, handle, found, sessions, registry, careful⟩
  · exact iff_of_true (same_registered good.registered sessions registry) careful
  · exact iff_of_true (same_registered (weaker_registered good.registered here weaker) sessions registry) careful
  · exact iff_of_true (added_registered sound good.registered absent sessions registry) careful
  · exact (erased_registered sound good.registered found sessions registry).trans careful.symm

/-- The registry has every runner, one for an id and no more than the limit, all along a run exactly when no `Remove`
    in it deletes a session whose runner has not returned. -/
theorem sessions_registered (o : Options) {actions : List Action} {after : World}
    (ran : run (step o) start actions = some after) :
    Along (step o) (fun _ next => Good o next) start actions ↔ Guarded (step o) Careful start actions := by
  have good : Good o start := (good_iff (start_sound o)).mpr fun handle s here => by
    rw [start, getElem?_nil] at here
    cases here
  exact along_good_iff (Sound o) (Good o) step_sound step_good ran (start_sound o) good

end Facts

def options : Options := ⟨"pty-host.mjs", "executor.mjs", "acp-executor.mjs", 1⟩

def config : Config := ⟨"s1", "", "", "wss://relay", "t", "", "", "", "", "", "", ""⟩

def carefully (w : World) : Action → Bool
  | .delete call => match w.calls[call]? with
    | some (.removing id (some _)) => ((w.registry.lookup id).bind fun handle => w.sessions[handle]?).all fun s => ¬ s.live
    | _ => true
  | _ => true

theorem carefully_sound (w : World) (action : Action) (checked : carefully w action) : Careful w action := by
  cases action with
  | delete =>
    intro id state there _ handle s found here
    simp only [carefully, there, found, bind_some, here, all_some, decide_eq_true_eq] at checked
    exact Bool.eq_false_iff.mpr checked
  | _ => trivial

def removals : List Action :=
  [.start config 1, .begin_ 0, .stop "s1" true, .stop "s1" true, .cancelNext 0, .cancelNext 1, .returns 0 (some .canceled),
    .finish 0 2, .wait 0, .wait 1, .delete 0]

theorem removals_registered : (run (step options) start (removals ++ [.delete 1, .start config 3])).isSome ∧
    Along (step options) (fun _ next => Good options next) start (removals ++ [.delete 1, .start config 3]) := by
  have there : (run (step options) start (removals ++ [.delete 1, .start config 3])).isSome := by decide +kernel
  obtain ⟨w, ran⟩ := isSome_iff_exists.mp there
  exact ⟨there, (sessions_registered options ran).mpr
    (checked_guarded carefully carefully_sound start _ (by decide +kernel))⟩

/-- The session is started again before the second removal deletes, and once more behind it. -/
theorem session_lost : ∃ w, run (step options) start (removals ++ [.start config 3, .delete 1, .start config 4]) = some w ∧
    ¬ Registered w ∧ ¬ Single w ∧ ¬ (liveHandles w).length ≤ options.capacity := by
  obtain ⟨w, ran, facts⟩ := map_eq_some_iff.mp
    (show (run (step options) start (removals ++ [.start config 3, .delete 1, .start config 4])).map (fun w =>
      (w.sessions[1]?.map fun s => (s.live, s.config.id), w.sessions[2]?.map fun s => (s.live, s.config.id),
        w.registry.lookup "s1", (liveHandles w).length)) = some (some (true, "s1"), some (true, "s1"), some 2, 2) from by
      decide +kernel)
  simp only [Prod.mk.injEq, map_eq_some_iff] at facts
  obtain ⟨⟨s, first, live, named⟩, ⟨t, second, alive, called⟩, found, count⟩ := facts
  refine ⟨w, ran, fun registered => ?_, fun single => ?_, fun bounded => ?_⟩
  · have mine := registered 1 s first live
    rw [named, found] at mine
    cases mine
  · cases single 1 2 s t first second live alive (named.trans called.symm)
  · rw [count] at bounded
    exact absurd bounded (by decide)

section Starts
variable {w : World} {config c : Config} {a b : Config}

/-- The session under the id of a configuration starts or runs, and with that configuration up to its token. -/
def Live (w : World) (config : Config) : Prop :=
  ∃ handle s, w.registry.lookup config.id = some handle ∧ w.sessions[handle]? = some s ∧
    s.status.state.active ∧ { s.config with token := config.token } = config

/-- The session that is there, if any, starts or runs, and with the same authentication. -/
def Startable (w : World) (config : Config) : Prop :=
  ∀ handle s, w.registry.lookup config.id = some handle → w.sessions[handle]? = some s →
    s.status.state.active ∧ s.config.claudeOAuthToken = config.claudeOAuthToken ∧
      s.config.claudeAuthVersion = config.claudeAuthVersion

/-- `sameConfig` leaves out the token and the two members for the Claude subscription. -/
theorem same_config_iff (same : sameConfig a b) : { a with token := b.token } = b ↔
      a.claudeOAuthToken = b.claudeOAuthToken ∧ a.claudeAuthVersion = b.claudeAuthVersion := by
  simp only [sameConfig, decide_eq_true_eq] at same
  cases a
  cases b
  simp only [Config.mk.injEq] at same ⊢
  simp only [same, true_and]

/-- A successful start answers for a live session exactly when what it finds is one. -/
theorem start_live (o : Options) (w : World) (config : Config) (now : Nat) (status : Status) (existed : Bool)
    (next : World) (started : startSession o w config now = (next, .ok (status, existed))) :
    ∃ filled, fillIn o config = .ok filled ∧ (Live next filled ↔ Startable w filled) := by
  unfold startSession at started
  split at started
  · cases started
  · next filled valid =>
    refine ⟨filled, valid, ?_⟩
    split at started
    · next existing found =>
      obtain ⟨handle, named, there⟩ := bind_eq_some_iff.mp found
      split at started
      · next same =>
        cases started
        constructor
        · rintro ⟨other, s, also, here, active, equal⟩ handle' s' found' here'
          cases also.symm.trans found'
          cases here.symm.trans here'
          cases named.symm.trans also
          cases there.symm.trans here
          exact ⟨active, (same_config_iff same).mp equal⟩
        · intro fine
          obtain ⟨active, equal⟩ := fine handle existing named there
          exact ⟨handle, existing, named, there, active, (same_config_iff same).mpr equal⟩
      · cases started
    · next absent =>
      split at started
      · cases started
      · cases started
        refine iff_of_true ?_ fun handle s named here => ?_
        · refine ⟨w.sessions.length, newSession filled now, AList.lookup_insert _, getElem?_concat_length, ?_, rfl⟩
          rfl
        · rw [named, bind_some, here] at absent
          cases absent

end Starts
theorem started_live : ∃ filled, fillIn options config = .ok filled ∧
    (Live (startSession options start config 1).1 filled ↔ Startable start filled) :=
  start_live options start config 1 _ false _ rfl

def filled : Config := { config with agentMode := "terminal", ptyHostPath := "pty-host.mjs", streamID := "terminal" }

/-- The runner has failed, and a retry is told that the session is there. -/
theorem started_dead : ∃ w status, run (step options) start
      [.start config 1, .begin_ 0, .returns 0 (some (.other "dial: connection refused")), .finish 0 2] = some w ∧
    fillIn options config = .ok filled ∧ startSession options w config 3 = (w, .ok (status, true)) ∧
    status.state = .failed ∧ ¬ Live w filled := by
  obtain ⟨w, ran, facts⟩ := map_eq_some_iff.mp (show (run (step options) start
        [.start config 1, .begin_ 0, .returns 0 (some (.other "dial: connection refused")), .finish 0 2]).map (fun w =>
      (w.registry.lookup "s1", w.sessions[0]?.map fun s => (s.status.state, s.config))) =
        some (some 0, some (.failed, { filled with token := "" })) from by decide +kernel)
  simp only [Prod.mk.injEq, map_eq_some_iff] at facts
  obtain ⟨found, s, there, failed, stored⟩ := facts
  refine ⟨w, s.status, ran, rfl, ?_, failed, ?_⟩
  · have existing : (w.registry.lookup filled.id).bind (fun handle => w.sessions[handle]?) = some s := by
      rw [show filled.id = "s1" from rfl, found]
      exact there
    rw [startSession, show fillIn options config = .ok filled from rfl]
    dsimp only
    rw [existing]
    dsimp only
    rw [stored]
    rfl
  · rintro ⟨handle, other, named, here, active, _⟩
    cases found.symm.trans named
    cases there.symm.trans here
    rw [failed] at active
    cases active

end PieRelay.SessionManager
