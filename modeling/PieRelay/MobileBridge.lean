import PieRelay.Executions

/-!
One mobile connection between its phone and its host, server/internal/relay/mobile.go.
`handlePhone` makes the connection with its phone in it, any number of
`handleHostData` requests look it up and try to attach, `revokeDevice` and the two
handlers tear it down through `closeConnection`. A step is one critical section (under
the relay's mutex or the connection's), one close or one channel operation; the
handlers, the revocations and the control connection interleave as they like. Texts,
codes and the bridged frames are left out, and so is a socket that its far end drops.
-/
namespace PieRelay.MobileBridge
open Function Executions

inductive Peer where
  | phone
  | host (handler : Nat)
  deriving DecidableEq

inductive PhonePhase where
  | arriving
  | refused
  | opening
  | waiting
  | attached
  | bridging
  | piping
  | leaving
  | closing
  | returned
  deriving DecidableEq

inductive HostPhase where
  | absent
  | reading
  | found
  | refused
  | stored
  | waiting
  | closing
  | returned
  deriving DecidableEq

inductive Teardown where
  | idle
  | unregistered
  | snapshot (phone host : Option Peer)
  | phoneClosed (host : Option Peer)
  | hostClosed
  | finished
  deriving DecidableEq

/-- `control` is the host's control connection, `registered` the entry of `m.connections`,
    `callers` the calls of `closeConnection` so far. `stored` and `closed` are history: the peers
    ever put into the connection and the sockets that have been closed. -/
structure Bridge where
  control : Bool
  registered : Bool
  phone : Option Peer
  host : Option Peer
  hostAttached : Bool
  done : Bool
  phonePhase : PhonePhase
  handlers : Nat → HostPhase
  callers : Nat
  teardown : Teardown
  stored : List Peer
  closed : List Peer

def newConnection (control : Bool) : Bridge where
  control := control
  registered := false
  phone := some .phone
  host := none
  hostAttached := false
  done := false
  phonePhase := .arriving
  handlers := fun _ => .absent
  callers := 0
  teardown := .idle
  stored := [.phone]
  closed := []

inductive Action where
  | controlReady
  | controlLost
  | phoneArrives (accepted : Bool)
  | openSent (written : Bool)
  | attachSeen
  | attachTimeout
  | helloSent (written : Bool)
  | bridge
  | phoneGone
  | phoneDefers
  | phoneReturns
  | hostArrives (handler : Nat)
  | hostLookup (handler : Nat) (valid : Bool)
  | hostStore (handler : Nat)
  | hostAttach (handler : Nat)
  | hostDone (handler : Nat)
  | hostGone (handler : Nat)
  | hostReturns (handler : Nat)
  | revokeDevice
  | unregister
  | snapshot
  | closePhone
  | closeHost
  | closeDone

def close (s : Bridge) (peer : Option Peer) : Bridge := { s with closed := peer.toList ++ s.closed }

def moveHost (s : Bridge) (handler : Nat) (phase : HostPhase) : Bridge :=
  { s with handlers := update s.handlers handler phase }

def phoneStep (s : Bridge) : Action → Option Bridge
  -- under m.mu: without a control connection, a credential or room the phone is turned away
  | .phoneArrives accepted =>
    if s.phonePhase ≠ .arriving then none
    else if s.control ∧ accepted then some { s with registered := true, phonePhase := .opening }
    else some (close { s with phonePhase := .refused } (some .phone))
  | .openSent written =>
    if s.phonePhase ≠ .opening then none
    else if written then some { s with phonePhase := .waiting }
    else some (close { s with phonePhase := .leaving } (some .phone))
  | .attachSeen =>
    if s.phonePhase = .waiting ∧ s.hostAttached then some { s with phonePhase := .attached } else none
  | .attachTimeout =>
    if s.phonePhase = .waiting then some (close { s with phonePhase := .leaving } (some .phone)) else none
  | .helloSent written =>
    if s.phonePhase ≠ .attached then none
    else some { s with phonePhase := if written then .bridging else .leaving }
  -- under connection.mu: bridge reads both peers
  | .bridge =>
    if s.phonePhase ≠ .bridging then none
    else some { s with phonePhase := if s.phone = none ∨ s.host = none then .leaving else .piping }
  -- the request's context ends, or a pipe does
  | .phoneGone =>
    if s.phonePhase = .waiting ∨ s.phonePhase = .piping then some { s with phonePhase := .leaving } else none
  | .phoneDefers =>
    if s.phonePhase = .leaving then some { s with phonePhase := .closing, callers := s.callers + 1 } else none
  | .phoneReturns =>
    if s.phonePhase = .closing ∧ s.done then some { s with phonePhase := .returned } else none
  | _ => none

def hostStep (s : Bridge) : Action → Option Bridge
  | .hostArrives handler =>
    if s.handlers handler = .absent then some (moveHost s handler .reading) else none
  -- under m.mu: `valid` is the check of generation and ticket
  | .hostLookup handler valid =>
    if s.handlers handler ≠ .reading then none
    else if s.registered ∧ valid then some (moveHost s handler .found)
    else some (close (moveHost s handler .refused) (some (.host handler)))
  -- under connection.mu, and nothing here asks whether the connection is still up
  | .hostStore handler =>
    if s.handlers handler ≠ .found then none
    else if s.host ≠ none then some (close (moveHost s handler .refused) (some (.host handler)))
    else some { moveHost s handler .stored with
      host := some (.host handler), stored := .host handler :: s.stored }
  | .hostAttach handler =>
    if s.handlers handler = .stored then some { moveHost s handler .waiting with hostAttached := true }
    else none
  | .hostDone handler =>
    if s.handlers handler = .waiting ∧ s.done then some (moveHost s handler .returned) else none
  | .hostGone handler =>
    if s.handlers handler = .waiting then
      some { moveHost s handler .closing with callers := s.callers + 1 }
    else none
  | .hostReturns handler =>
    if s.handlers handler = .closing ∧ s.done then some (moveHost s handler .returned) else none
  | _ => none

def closeStep (s : Bridge) : Action → Option Bridge
  | .unregister =>
    if s.teardown = .idle ∧ s.callers ≠ 0 then
      some { s with registered := false, teardown := .unregistered }
    else none
  | .snapshot =>
    if s.teardown = .unregistered then some { s with teardown := .snapshot s.phone s.host } else none
  | .closePhone =>
    match s.teardown with
    | .snapshot phone host => some (close { s with teardown := .phoneClosed host } phone)
    | _ => none
  | .closeHost =>
    match s.teardown with
    | .phoneClosed host => some (close { s with teardown := .hostClosed } host)
    | _ => none
  | .closeDone =>
    if s.teardown = .hostClosed then some { s with done := true, teardown := .finished } else none
  | _ => none

def step (s : Bridge) (action : Action) : Option Bridge :=
  match action with
  | .controlReady => some { s with control := true }
  | .controlLost => some { s with control := false }
  -- under m.mu: the device's connections are collected, each is closed after the unlock
  | .revokeDevice => some (if s.registered then { s with callers := s.callers + 1 } else s)
  | .unregister | .snapshot | .closePhone | .closeHost | .closeDone => closeStep s action
  | .hostArrives _ | .hostLookup _ _ | .hostStore _ | .hostAttach _ | .hostDone _ | .hostGone _
  | .hostReturns _ => hostStep s action
  | _ => phoneStep s action

/-- No request has a critical section ahead of it: none has been accepted and not looked the
    connection up, or found it and not yet tried to attach. -/
def SectionsRun (s : Bridge) : Prop :=
  ∀ handler, s.handlers handler ≠ .reading ∧ s.handlers handler ≠ .found

def TornDown (s : Bridge) : Prop :=
  s.done → SectionsRun s → ∀ peer ∈ s.stored, peer ∈ s.closed

inductive Change (s next : Bridge) : Action → Prop where
  | kept (action : Action) (phone : next.phone = s.phone) (host : next.host = s.host)
      (done : next.done = s.done) (teardown : next.teardown = s.teardown)
      (stored : next.stored = s.stored) (closed : ∀ peer ∈ s.closed, peer ∈ next.closed) :
      Change s next action
  | attached (handler : Nat) (free : s.host = none) (phone : next.phone = s.phone)
      (host : next.host = some (.host handler)) (done : next.done = s.done)
      (teardown : next.teardown = s.teardown) (stored : next.stored = .host handler :: s.stored)
      (closed : next.closed = s.closed) : Change s next (.hostStore handler)
  | unregistered (idle : s.teardown = .idle)
      (same : next = { s with registered := false, teardown := .unregistered }) :
      Change s next .unregister
  | read (begun : s.teardown = .unregistered)
      (same : next = { s with teardown := .snapshot s.phone s.host }) : Change s next .snapshot
  | phoneClosed (phone host : Option Peer) (taken : s.teardown = .snapshot phone host)
      (same : next = close { s with teardown := .phoneClosed host } phone) : Change s next .closePhone
  | hostClosed (host : Option Peer) (taken : s.teardown = .phoneClosed host)
      (same : next = close { s with teardown := .hostClosed } host) : Change s next .closeHost
  | finished (taken : s.teardown = .hostClosed)
      (same : next = { s with done := true, teardown := .finished }) : Change s next .closeDone

section
variable (s next : Bridge) (action : Action)
include s next action

theorem phone_change (stepped : phoneStep s action = some next) : Change s next action := by
  have shut : ∀ phase, Change s (close { s with phonePhase := phase } (some .phone)) action := fun _ =>
    .kept action rfl rfl rfl rfl rfl fun _ member => List.mem_cons_of_mem _ member
  cases action with
  | phoneArrives =>
    simp only [phoneStep] at stepped
    split at stepped
    · contradiction
    · split at stepped
      · cases stepped
        exact .kept _ rfl rfl rfl rfl rfl fun _ member => member
      · cases stepped
        exact shut .refused
  | openSent =>
    simp only [phoneStep] at stepped
    split at stepped
    · contradiction
    · split at stepped
      · cases stepped
        exact .kept _ rfl rfl rfl rfl rfl fun _ member => member
      · cases stepped
        exact shut .leaving
  | attachTimeout =>
    simp only [phoneStep] at stepped
    split at stepped
    · cases stepped
      exact shut .leaving
    · contradiction
  | attachSeen | helloSent | bridge | phoneGone | phoneDefers | phoneReturns =>
    simp only [phoneStep] at stepped
    split at stepped <;> cases stepped
    exact .kept _ rfl rfl rfl rfl rfl fun _ member => member
  | _ => cases stepped

theorem host_change (stepped : hostStep s action = some next) : Change s next action := by
  have shut : ∀ handler, Change s (close (moveHost s handler .refused) (some (.host handler))) action := fun _ =>
    .kept action rfl rfl rfl rfl rfl fun _ member => List.mem_cons_of_mem _ member
  cases action with
  | hostLookup handler =>
    simp only [hostStep] at stepped
    split at stepped
    · contradiction
    · split at stepped
      · cases stepped
        exact .kept _ rfl rfl rfl rfl rfl fun _ member => member
      · cases stepped
        exact shut handler
  | hostStore handler =>
    simp only [hostStep] at stepped
    split at stepped
    · contradiction
    · split at stepped
      · cases stepped
        exact shut handler
      · rename_i free
        cases stepped
        exact .attached handler (Decidable.not_not.mp free) rfl rfl rfl rfl rfl rfl
  | hostArrives | hostAttach | hostDone | hostGone | hostReturns =>
    simp only [hostStep] at stepped
    split at stepped <;> cases stepped
    exact .kept _ rfl rfl rfl rfl rfl fun _ member => member
  | _ => cases stepped

theorem close_change (stepped : closeStep s action = some next) : Change s next action := by
  cases action with
  | unregister =>
    simp only [closeStep] at stepped
    split at stepped
    · rename_i idle
      cases stepped
      exact .unregistered idle.1 rfl
    · contradiction
  | snapshot =>
    simp only [closeStep] at stepped
    split at stepped
    · rename_i begun
      cases stepped
      exact .read begun rfl
    · contradiction
  | closePhone =>
    simp only [closeStep] at stepped
    split at stepped
    · rename_i phone host taken
      cases stepped
      exact .phoneClosed phone host taken rfl
    · contradiction
  | closeHost =>
    simp only [closeStep] at stepped
    split at stepped
    · rename_i host taken
      cases stepped
      exact .hostClosed host taken rfl
    · contradiction
  | closeDone =>
    simp only [closeStep] at stepped
    split at stepped
    · rename_i taken
      cases stepped
      exact .finished taken rfl
    · contradiction
  | _ => cases stepped

theorem step_change (stepped : step s action = some next) : Change s next action := by
  have same : ∀ control callers, Change s { s with control := control, callers := callers } action :=
    fun _ _ => .kept action rfl rfl rfl rfl rfl fun _ member => member
  cases action with
  | controlReady =>
    cases stepped
    exact same true s.callers
  | controlLost =>
    cases stepped
    exact same false s.callers
  | revokeDevice =>
    simp only [step] at stepped
    split at stepped
    · cases stepped
      exact same s.control (s.callers + 1)
    · cases stepped
      exact same s.control s.callers
  | unregister | snapshot | closePhone | closeHost | closeDone => exact close_change s next _ stepped
  | hostArrives | hostLookup | hostStore | hostAttach | hostDone | hostGone | hostReturns =>
    exact host_change s next _ stepped
  | phoneArrives | openSent | attachSeen | attachTimeout | helloSent | bridge | phoneGone | phoneDefers
  | phoneReturns => exact phone_change s next _ stepped

end

/-- The peers `closeConnection` has read are still the connection's own, and those it is through
    with are closed. -/
def Followed (s : Bridge) : Prop :=
  match s.teardown with
  | .idle | .unregistered => s.done = false
  | .snapshot phone host => s.done = false ∧ phone = s.phone ∧ host = s.host
  | .phoneClosed host => s.done = false ∧ host = s.host ∧ ∀ peer, s.phone = some peer → peer ∈ s.closed
  | .hostClosed | .finished =>
    ∀ peer, s.phone = some peer ∨ s.host = some peer → peer ∈ s.closed

structure Attached (s : Bridge) : Prop where
  within : ∀ peer ∈ s.stored, s.phone = some peer ∨ s.host = some peer
  followed : Followed s

def Prompt (s : Bridge) (action : Action) : Prop :=
  ∀ handler, action = .hostStore handler → s.host = none →
    s.teardown = .idle ∨ s.teardown = .unregistered

theorem new_attached (control : Bool) : Attached (newConnection control) := by
  constructor
  · intro peer member
    cases List.mem_singleton.mp member
    exact Or.inl rfl
  · rfl

theorem kept_followed (s next : Bridge) (phone : next.phone = s.phone) (host : next.host = s.host)
    (done : next.done = s.done) (teardown : next.teardown = s.teardown)
    (closed : ∀ peer ∈ s.closed, peer ∈ next.closed) (followed : Followed s) : Followed next := by
  unfold Followed at followed ⊢
  rw [teardown, phone, host, done]
  cases stage : s.teardown with
  | idle | unregistered | snapshot =>
    rw [stage] at followed
    exact followed
  | phoneClosed =>
    rw [stage] at followed
    exact ⟨followed.1, followed.2.1, fun peer here => closed peer (followed.2.2 peer here)⟩
  | hostClosed | finished =>
    rw [stage] at followed
    exact fun peer here => closed peer (followed peer here)

theorem step_attached (s : Bridge) (action : Action) (next : Bridge) (prompt : Prompt s action)
    (attached : Attached s) (stepped : step s action = some next) : Attached next := by
  have followed := attached.followed
  cases step_change s next action stepped with
  | kept _ phone host done teardown stored closed =>
    constructor
    · rw [stored, phone, host]
      exact attached.within
    · exact kept_followed s next phone host done teardown closed followed
  | attached handler free phone host done teardown stored =>
    constructor
    · intro peer member
      rw [stored] at member
      rw [phone, host]
      rcases List.mem_cons.mp member with new | old
      · exact Or.inr (congrArg some new.symm)
      · rcases attached.within peer old with isPhone | isHost
        · exact Or.inl isPhone
        · rw [free] at isHost
          cases isHost
    · unfold Followed at followed ⊢
      rw [teardown, done]
      rcases prompt handler rfl free with stage | stage
      · rw [stage] at followed ⊢
        exact followed
      · rw [stage] at followed ⊢
        exact followed
  | unregistered idle same =>
    subst same
    unfold Followed at followed
    rw [idle] at followed
    exact ⟨attached.within, followed⟩
  | read begun same =>
    subst same
    unfold Followed at followed
    rw [begun] at followed
    exact ⟨attached.within, followed, rfl, rfl⟩
  | phoneClosed phone host taken same =>
    subst same
    unfold Followed at followed
    rw [taken] at followed
    obtain ⟨undone, readPhone, readHost⟩ := followed
    refine ⟨attached.within, undone, readHost, ?_⟩
    intro peer here
    have isPhone : phone = some peer := readPhone.trans here
    simp [close, isPhone]
  | hostClosed host taken same =>
    subst same
    unfold Followed at followed
    rw [taken] at followed
    obtain ⟨-, readHost, phoneShut⟩ := followed
    refine ⟨attached.within, ?_⟩
    intro peer here
    rcases here with isPhone | isHost
    · exact List.mem_append_right _ (phoneShut peer isPhone)
    · have same : host = some peer := readHost.trans isHost
      simp [close, same]
  | finished taken same =>
    subst same
    unfold Followed at followed
    rw [taken] at followed
    exact ⟨attached.within, followed⟩

/-- In every interleaving in which no host socket is stored after `closeConnection` has read the
    peers, the teardown leaves no stored socket open. -/
theorem teardown_closes_peers (control : Bool) (actions : List Action) (s : Bridge)
    (prompt : Guarded step Prompt (newConnection control) actions)
    (ran : run step (newConnection control) actions = some s) : TornDown s := by
  have attached := guarded_run_invariant Attached step_attached prompt ran (new_attached control)
  intro done _ peer member
  have here := attached.within peer member
  have followed := attached.followed
  unfold Followed at followed
  cases stage : s.teardown with
  | idle | unregistered =>
    rw [stage, done] at followed
    cases followed
  | snapshot | phoneClosed =>
    rw [stage, done] at followed
    cases followed.1
  | hostClosed | finished =>
    rw [stage] at followed
    exact followed peer here

def promptCheck (s : Bridge) : Action → Bool
  | .hostStore _ => s.host.isSome || s.teardown == .idle || s.teardown == .unregistered
  | _ => true

theorem prompt_check (s : Bridge) (action : Action) (passed : promptCheck s action) : Prompt s action := by
  intro handler storing free
  subst storing
  simpa [promptCheck, free] using passed

def bridged : List Action :=
  [.phoneArrives true, .openSent true, .hostArrives 0, .hostLookup 0 true, .hostStore 0, .hostAttach 0,
    .attachSeen, .helloSent true, .bridge, .controlLost, .phoneGone, .phoneDefers, .revokeDevice,
    .unregister, .snapshot, .closePhone, .closeHost, .closeDone, .hostDone 0, .phoneReturns]

theorem teardown_closes_bridge : ∃ s, run step (newConnection true) bridged = some s ∧
    s.done ∧ s.stored = [.host 0, .phone] ∧ TornDown s := by
  refine ⟨_, rfl, rfl, rfl, ?_⟩
  exact teardown_closes_peers true bridged _ (checked_guarded promptCheck prompt_check _ _ rfl) rfl

/-- The host finds the connection, the attach deadline passes and the whole teardown runs, and then
    the host stores its socket: `done` is closed already, so the request returns at once and
    nobody closes it. -/
theorem teardown_misses_late_host : ∃ s, run step (newConnection true)
      [.phoneArrives true, .openSent true, .hostArrives 0, .hostLookup 0 true, .attachTimeout, .phoneDefers,
        .unregister, .snapshot, .closePhone, .closeHost, .closeDone, .phoneReturns, .hostStore 0,
        .hostAttach 0, .hostDone 0] = some s ∧ ¬ TornDown s := by
  refine ⟨_, rfl, ?_⟩
  intro torn
  have closed := torn rfl ?_ (.host 0) (by decide)
  · exact absurd closed (by decide)
  · intro handler
    cases handler with
    | zero => exact ⟨by decide, by decide⟩
    | succ => exact ⟨nofun, nofun⟩

end PieRelay.MobileBridge
