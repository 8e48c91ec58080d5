import Mathlib.Data.List.Basic
import PieRelay.Executions

/-!
The connection of a mobile host to the relay: `start`, `establishControl`, `stop` and `scheduleReconnect` of
host-gateway/src/relay-gateway.ts. An attempt is one call of `establishControl`, and its index also names the control and
the transport it creates. Actions run from one `await` to the next in any order; what the directory, the cell and the
control's socket answer, and when, is free. `transport.start` resolves at once, a transport's `stop` does not reject, and
a control's `onClose` is called once. Left out: the status texts, the delay of the timer, the endpoint and the resume
secret; after its `await` a stop only tells its status.
-/
namespace PieRelay.RelayReconnection
open Executions List Option

inductive Owner where
  | start
  | timer
  deriving DecidableEq

/-- What an attempt awaits: the assignment and the identity; `connect`; to go on after the acknowledgement; one of its
    three calls of `transport.stop`. Then its promise is settled, and last its owner has gone on. -/
inductive Phase where
  | fetching
  | connecting
  | acked
  | dropping
  | failing
  | replacing
  | returned
  | thrown
  | finished
  deriving DecidableEq

/-- A control is `closing` from `closeNow` until `onClose`. -/
inductive Control where
  | idle
  | open
  | closing
  | closed
  deriving DecidableEq

structure Attempt where
  number : Nat
  owner : Owner
  phase : Phase
  control : Control
  activated : Bool
  cellUrl : String
  reusing : Bool
  previous : Option Nat
  deriving DecidableEq

/-- Of the calls of `start` since the last `stop`, `calls` has the attempts they wait for and `served` says that one has
    resolved; `halted` says that no `start` has gone past its first test since the last `stop`. -/
structure World where
  attempts : List Attempt
  control : Option Nat
  transport : Option Nat
  transportCellUrl : Option String
  stopped : Bool
  connectionAttempt : Nat
  reconnectTimer : Bool
  connectPromise : Option Nat
  attached : List Nat
  calls : List Nat
  served : Bool
  halted : Bool

def created : World := ⟨[], none, none, none, true, 0, false, none, [], [], false, false⟩

inductive Action where
  | start
  | stop
  | timer
  | fetched (index : Nat) (cellUrl : Option String)
  | connects (index : Nat) (ok : Bool)
  | resumes (index : Nat) (validGeneration : Bool)
  | transportStopped (index : Nat)
  | drains (index : Nat)
  | closes (index : Nat)
  | finishes (index : Nat)

def setAttempt (w : World) (index : Nat) (a : Attempt) : World := { w with attempts := w.attempts.set index a }

def detach (w : World) (transport : Nat) : World := { w with attached := w.attached.filter (· ≠ transport) }

def closeNow (a : Attempt) : Attempt := if a.control = .open then { a with control := .closing } else a

def transportOf (index : Nat) (a : Attempt) : Option Nat := if a.reusing then a.previous else some index

def establish (w : World) (owner : Owner) : World := { w with
  connectionAttempt := w.connectionAttempt + 1
  attempts := w.attempts ++ [⟨w.connectionAttempt + 1, owner, .fetching, .idle, false, "", false, none⟩]
  connectPromise := some w.attempts.length }

def start (w : World) : World :=
  let establishes := establish { w with stopped := false, halted := false, calls := w.calls ++ [w.attempts.length] } .start
  if w.stopped then establishes
  else if w.control.isSome then { w with served := true }
  else match w.connectPromise with
    | some index => { w with calls := w.calls ++ [index] }
    | none => establishes

def stopTransport (w : World) : World :=
  match w.transport with
  | some transport => detach { w with transport := none } transport
  | none => w

def stopControl (w : World) : World :=
  match w.control with
  | some index => { w with control := none, attempts := w.attempts.modify index closeNow }
  | none => w

def stop (w : World) : World :=
  stopTransport (stopControl { w with
    stopped := true
    connectionAttempt := w.connectionAttempt + 1
    reconnectTimer := false
    transportCellUrl := none
    calls := []
    served := false
    halted := true })

def scheduleReconnect (w : World) : World :=
  if w.stopped || w.reconnectTimer || w.connectPromise.isSome || w.control.isSome then w
  else { w with reconnectTimer := true }

def timerFires (w : World) : World :=
  let fired := { w with reconnectTimer := false }
  if w.stopped || w.control.isSome then fired else establish fired .timer

def fetched (w : World) (index : Nat) (a : Attempt) : Option String → World
  | none => setAttempt w index { a with phase := .thrown }
  | some cellUrl =>
    let reusing := w.transport.isSome && w.transportCellUrl = some cellUrl
    let chosen := { a with phase := .connecting, cellUrl := cellUrl, reusing := reusing, previous := w.transport }
    setAttempt (if reusing then w else { w with attached := w.attached ++ [index] }) index chosen

def giveUp (w : World) (index : Nat) (a : Attempt) (waits settled : Phase) : World :=
  if a.reusing then setAttempt w index { closeNow a with phase := settled }
  else setAttempt (detach w index) index { closeNow a with phase := waits }

def activate (w : World) (index : Nat) (a : Attempt) : World :=
  let active := { w with control := some index, transport := transportOf index a, transportCellUrl := some a.cellUrl }
  match a.previous with
  | some previous =>
    if a.previous = transportOf index a then setAttempt active index { a with activated := true, phase := .returned }
    else setAttempt (detach active previous) index { a with activated := true, phase := .replacing }
  | none => setAttempt active index { a with activated := true, phase := .returned }

def resumes (w : World) (index : Nat) (a : Attempt) (validGeneration : Bool) : World :=
  if w.stopped || a.number ≠ w.connectionAttempt then giveUp w index a .dropping .returned
  else if validGeneration then activate w index a
  else giveUp w index a .failing .thrown

def onDrain (w : World) (index : Nat) (a : Attempt) : World :=
  if w.control ≠ some index || w.stopped then w else setAttempt w index (closeNow a)

def onClose (w : World) (index : Nat) (a : Attempt) : World :=
  let closed := setAttempt w index { a with control := .closed }
  if !a.activated || w.control ≠ some index || w.stopped then closed
  else scheduleReconnect { closed with control := none }

/-- The owner goes on, and the calls of `start` that wait for the attempt resolve or reject. -/
def finishes (w : World) (index : Nat) (a : Attempt) : World :=
  let ended := { setAttempt w index { a with phase := .finished } with
    connectPromise := if w.connectPromise = some index then none else w.connectPromise
    calls := w.calls.filter (· ≠ index)
    served := w.served || (a.phase = .returned && index ∈ w.calls) }
  match a.owner with
  | .start => if a.phase = .thrown then { ended with stopped := true } else ended
  | .timer => if !ended.stopped && ended.control.isNone then scheduleReconnect ended else ended

def step (w : World) : Action → Option World
  | .start => some (start w)
  | .stop => some (stop w)
  | .timer => if w.reconnectTimer then some (timerFires w) else none
  | .fetched index cellUrl => do
    let a ← w.attempts[index]?
    if a.phase = .fetching then some (fetched w index a cellUrl) else none
  | .connects index ok => do
    let a ← w.attempts[index]?
    if a.phase ≠ .connecting then none
    else if ok then some (setAttempt w index { a with phase := .acked, control := .open })
    else some (giveUp w index a .failing .thrown)
  | .resumes index validGeneration => do
    let a ← w.attempts[index]?
    if a.phase = .acked then some (resumes w index a validGeneration) else none
  | .transportStopped index => do
    let a ← w.attempts[index]?
    match a.phase with
    | .dropping | .replacing => some (setAttempt w index { a with phase := .returned })
    | .failing => some (setAttempt w index { a with phase := .thrown })
    | _ => none
  | .drains index => do
    let a ← w.attempts[index]?
    if a.control = .open then some (onDrain w index a) else none
  | .closes index => do
    let a ← w.attempts[index]?
    if a.control = .open ∨ a.control = .closing then some (onClose w index a) else none
  | .finishes index => do
    let a ← w.attempts[index]?
    if a.phase = .returned ∨ a.phase = .thrown then some (finishes w index a) else none

def connected : Control → Bool
  | .open | .closing => true
  | _ => false

def Settled (w : World) : Prop := ∀ a ∈ w.attempts, a.phase = .finished

structure Outcomes (w : World) : Prop where
  closed : ∀ (index : Nat) (a : Attempt), w.attempts[index]? = some a → a.control = .open → w.control = some index ∨ a.phase = .acked
  released : w.halted → Settled w → (∀ a ∈ w.attempts, a.control ≠ .open) ∧ w.attached = []
  reachable : w.served → Settled w → w.reconnectTimer ∨
    ∃ index a, w.control = some index ∧ w.attempts[index]? = some a ∧ connected a.control

/-- An attempt of a `start` that fails finds the gateway stopped, or is the only one that a `start` waits for, with no
    control; no control closes between its acknowledgement and its activation; and the current control does not close
    while the `start` that made it is in flight, unless the timer is armed. -/
def careful (w : World) : Action → Bool
  | .finishes index => w.attempts[index]?.all fun a =>
    a.owner ≠ .start || a.phase ≠ .thrown || w.stopped ||
      (!w.served && w.control.isNone && w.calls.all (· = index))
  | .closes index => w.attempts[index]?.all fun a =>
    w.stopped || a.number ≠ w.connectionAttempt ||
      (a.phase ≠ .acked &&
        (w.control ≠ some index || a.owner = .timer || a.phase = .finished || w.reconnectTimer))
  | _ => true

/-! What a run keeps. An attempt is `Latest` while the gateway would activate it. -/

def Latest (w : World) (a : Attempt) : Prop := w.stopped = false ∧ a.number = w.connectionAttempt

def entered : Phase → Bool
  | .replacing | .returned | .finished => true
  | _ => false

def past : Phase → Bool
  | .dropping | .replacing | .returned => true
  | _ => false

def chosen : Phase → Bool
  | .connecting | .acked => true
  | _ => false

structure Sound (w : World) (index : Nat) (a : Attempt) : Prop where
  number : a.number ≤ w.connectionAttempt
  active : a.activated → entered a.phase
  opened : a.control = .open → w.control = some index ∨ a.phase = .acked
  acked : Latest w a → a.phase = .acked → a.control = .open
  previous : Latest w a → chosen a.phase → a.previous = w.transport
  dropped : Latest w a → a.activated = false → past a.phase = false
  kept : Latest w a → a.activated → a.phase ≠ .finished →
    w.control.isSome ∨ w.reconnectTimer ∨ a.owner = .timer

def Flying (w : World) (index : Nat) : Prop := ∃ a : Attempt, w.attempts[index]? = some a ∧ a.phase ≠ .finished

def Hopeful (w : World) : Prop := ∃ (index : Nat) (a : Attempt), w.attempts[index]? = some a ∧ a.phase ≠ .finished ∧
  (a.owner = .timer ∨ (a.number = w.connectionAttempt ∧ a.activated = false))

def Held (w : World) (transport : Nat) : Prop := w.transport = some transport ∨
  ∃ a : Attempt, w.attempts[transport]? = some a ∧ a.reusing = false ∧ chosen a.phase

structure Inv (w : World) : Prop where
  each : ∀ (index : Nat) (a : Attempt), w.attempts[index]? = some a → Sound w index a
  distinct : ∀ (i j : Nat) (a b : Attempt), w.attempts[i]? = some a → w.attempts[j]? = some b → a.number = b.number → i = j
  control : ∀ index, w.control = some index →
    ∃ a : Attempt, w.attempts[index]? = some a ∧ Latest w a ∧ connected a.control ∧ a.activated
  promise : ∀ index, w.connectPromise = some index →
    ∃ a : Attempt, w.attempts[index]? = some a ∧ a.phase ≠ .finished ∧ (w.stopped = false → a.number = w.connectionAttempt)
  calls : ∀ index ∈ w.calls, Flying w index
  waited : w.served ∨ w.calls ≠ [] → w.stopped = false
  halted : w.halted → w.stopped ∧ w.transport = none
  attached : ∀ transport ∈ w.attached, Held w transport
  alive : w.stopped = false → w.control.isSome ∨ w.reconnectTimer ∨ Hopeful w

section Facts
variable {w : World} {index : Nat} {a b : Attempt}
variable {attempts : List Attempt} {i j : Nat}

theorem set_there (there : (attempts.set i b)[j]? = some a) : (j = i ∧ a = b) ∨ (j ≠ i ∧ attempts[j]? = some a) := by
  rw [getElem?_set] at there
  by_cases same : i = j
  · rw [if_pos same] at there
    split at there
    · exact Or.inl ⟨same.symm, (some.inj there).symm⟩
    · cases there
  · rw [if_neg same] at there
    exact Or.inr ⟨fun other => same other.symm, there⟩

theorem set_mine (there : attempts[i]? = some a) : (attempts.set i b)[i]? = some b := by
  rw [List.getElem?_set, if_pos rfl, if_pos (List.getElem?_eq_some_iff.mp there).1]

theorem set_other (other : j ≠ i) (there : attempts[j]? = some a) : (attempts.set i b)[j]? = some a := by
  rw [getElem?_set, if_neg (Ne.symm other)]
  exact there

theorem inactive (sound : Sound w index a) (early : entered a.phase = false) : a.activated = false := by
  cases active : a.activated with
  | false => rfl
  | true =>
    rw [sound.active active] at early
    cases early

theorem latest_only (inv : Inv w) (one : w.attempts[i]? = some a) (other : w.attempts[j]? = some b)
    (first : a.number = w.connectionAttempt) (second : b.number = w.connectionAttempt) : i = j :=
  inv.distinct i j a b one other (first.trans second.symm)

theorem control_active (inv : Inv w) (there : w.attempts[index]? = some a) (current : w.control = some index) :
    Latest w a ∧ connected a.control ∧ a.activated := by
  obtain ⟨b, same, rest⟩ := inv.control index current
  cases there.symm.trans same
  exact rest

theorem not_current (inv : Inv w) (there : w.attempts[index]? = some a) (early : entered a.phase = false) :
    w.control ≠ some index := by
  intro current
  have active := (control_active inv there current).2.2
  rw [inactive (inv.each index a there) early] at active
  cases active

theorem stopped_alone (inv : Inv w) (stopped : w.stopped) : w.control = none := by
  cases control : w.control with
  | none => rfl
  | some index =>
    obtain ⟨a, _, latest, _⟩ := inv.control index control
    cases stopped.symm.trans latest.1

end Facts

section Moves
variable {w : World} {index : Nat} {a b : Attempt} {attached : List Nat}

theorem distinct_set (inv : Inv w) (there : w.attempts[index]? = some a) (number : b.number = a.number) (i j : Nat)
    (c d : Attempt) (one : (w.attempts.set index b)[i]? = some c) (other : (w.attempts.set index b)[j]? = some d)
    (same : c.number = d.number) : i = j := by
  have before : ∀ {k : Nat} {e : Attempt}, (w.attempts.set index b)[k]? = some e →
      ∃ f : Attempt, w.attempts[k]? = some f ∧ f.number = e.number := by
    intro k e found
    rcases set_there found with ⟨rfl, rfl⟩ | ⟨_, old⟩
    · exact ⟨a, there, number.symm⟩
    · exact ⟨e, old, rfl⟩
  obtain ⟨c', first, firstNumber⟩ := before one
  obtain ⟨d', second, secondNumber⟩ := before other
  exact inv.distinct i j c' d' first second (firstNumber.trans (same.trans secondNumber.symm))

theorem flying_set {i : Nat} (there : w.attempts[index]? = some a) (flies : a.phase ≠ .finished → b.phase ≠ .finished)
    (flying : Flying w i) : Flying (setAttempt w index b) i := by
  obtain ⟨c, found, flight⟩ := flying
  by_cases mine : i = index
  · subst mine
    cases there.symm.trans found
    exact ⟨b, set_mine there, flies flight⟩
  · exact ⟨c, set_other mine found, flight⟩

theorem inv_move (inv : Inv w) (there : w.attempts[index]? = some a) (number : b.number = a.number)
    (owner : b.owner = a.owner) (activated : b.activated = a.activated)
    (flies : a.phase ≠ .finished → b.phase ≠ .finished) (sound : Sound w index b)
    (current : w.control = some index → connected b.control)
    (held : ∀ transport ∈ attached, Held (setAttempt w index b) transport) :
    Inv { setAttempt w index b with attached := attached } := by
  refine ⟨fun i c found => ?_, distinct_set inv there number, fun i known => ?_, fun i known => ?_,
    fun i known => flying_set there flies (inv.calls i known), inv.waited, inv.halted, held, fun running => ?_⟩
  · have known : Sound w i c := by
      rcases set_there found with ⟨rfl, rfl⟩ | ⟨_, old⟩
      · exact sound
      · exact inv.each i c old
    exact ⟨known.number, known.active, known.opened, known.acked, known.previous, known.dropped, known.kept⟩
  · obtain ⟨c, found, latest, connects, active⟩ := inv.control i known
    by_cases mine : i = index
    · subst mine
      cases there.symm.trans found
      exact ⟨b, set_mine there, ⟨latest.1, number.trans latest.2⟩, current known, activated.trans active⟩
    · exact ⟨c, set_other mine found, latest, connects, active⟩
  · obtain ⟨c, found, flight, latest⟩ := inv.promise i known
    by_cases mine : i = index
    · subst mine
      cases there.symm.trans found
      exact ⟨b, set_mine there, flies flight, fun running => number.trans (latest running)⟩
    · exact ⟨c, set_other mine found, flight, latest⟩
  · rcases inv.alive running with control | timer | ⟨i, c, found, flight, hope⟩
    · exact Or.inl control
    · exact Or.inr (Or.inl timer)
    · refine Or.inr (Or.inr ?_)
      by_cases mine : i = index
      · subst mine
        cases there.symm.trans found
        refine ⟨i, b, set_mine there, flies flight, ?_⟩
        rw [owner, number, activated]
        exact hope
      · exact ⟨i, c, set_other mine found, flight, hope⟩

theorem held_other (inv : Inv w) {transport : Nat} (member : transport ∈ w.attached)
    (mine : transport = index → ∃ c : Attempt, w.attempts[index]? = some c ∧ (c.reusing ∨ chosen c.phase = false)) :
    Held (setAttempt w index b) transport := by
  rcases inv.attached transport member with current | ⟨c, found, owned, choosing⟩
  · exact Or.inl current
  · by_cases same : transport = index
    · obtain ⟨d, here, not⟩ := mine same
      subst same
      cases here.symm.trans found
      rcases not with reuses | ended
      · rw [owned] at reuses
        cases reuses
      · rw [choosing] at ended
        cases ended
    · exact Or.inr ⟨c, set_other same found, owned, choosing⟩

theorem inv_step (inv : Inv w) (there : w.attempts[index]? = some a) (number : b.number = a.number)
    (owner : b.owner = a.owner) (activated : b.activated = a.activated)
    (flies : a.phase ≠ .finished → b.phase ≠ .finished) (sound : Sound w index b)
    (current : w.control = some index → connected b.control)
    (holds : chosen a.phase → chosen b.phase ∧ b.reusing = a.reusing) : Inv (setAttempt w index b) := by
  refine @inv_move _ _ _ _ w.attached inv there number owner activated flies sound current fun transport member => ?_
  rcases inv.attached transport member with current | ⟨c, found, owned, choosing⟩
  · exact Or.inl current
  · by_cases same : transport = index
    · subst same
      cases there.symm.trans found
      obtain ⟨chooses, reuses⟩ := holds choosing
      exact Or.inr ⟨b, set_mine there, reuses.trans owned, chooses⟩
    · exact Or.inr ⟨c, set_other same found, owned, choosing⟩

theorem close_now_fields (a : Attempt) : (closeNow a).number = a.number ∧ (closeNow a).owner = a.owner ∧
    (closeNow a).phase = a.phase ∧ (closeNow a).activated = a.activated ∧ (closeNow a).reusing = a.reusing ∧
    (closeNow a).previous = a.previous ∧ (closeNow a).control ≠ .open := by
  unfold closeNow
  split
  · exact ⟨rfl, rfl, rfl, rfl, rfl, rfl, nofun⟩
  · next shut => exact ⟨rfl, rfl, rfl, rfl, rfl, rfl, shut⟩

theorem close_now_connected (a : Attempt) : connected (closeNow a).control = connected a.control := by
  unfold closeNow
  split
  · next opened =>
    rw [opened]
    rfl
  · rfl

theorem sound_gone {phase : Phase} (sound : Sound w index a) (number : b.number = a.number)
    (activated : b.activated = false) (now : b.phase = phase) (shut : b.control = .open → w.control = some index)
    (quiet : chosen phase = false) (dropped : Latest w a → past phase = false) : Sound w index b := by
  have latest : Latest w b → Latest w a := fun both => ⟨both.1, number.symm.trans both.2⟩
  refine ⟨number ▸ sound.number, fun active => ?_, fun opened => Or.inl (shut opened), fun _ acked => ?_,
    fun _ choosing => ?_, fun both _ => ?_, fun _ active => ?_⟩
  · rw [activated] at active
    cases active
  · rw [← now, acked] at quiet
    cases quiet
  · rw [now, quiet] at choosing
    cases choosing
  · rw [now]
    exact dropped (latest both)
  · rw [activated] at active
    cases active

section
variable (inv : Inv w) (there : w.attempts[index]? = some a)
include inv there

theorem inv_fetched (fetching : a.phase = .fetching) (cellUrl : Option String) : Inv (fetched w index a cellUrl) := by
  have sound := inv.each index a there
  have early : entered a.phase = false := by rw [fetching]; rfl
  have other := not_current inv there early
  have asleep := inactive sound early
  have shut : a.control = .open → w.control = some index := fun opened => (sound.opened opened).resolve_right
    fun acked => by cases fetching.symm.trans acked
  cases cellUrl with
  | none =>
    refine inv_step inv there rfl rfl rfl nofun ?_ (fun current => absurd current other) fun choosing => ?_
    · exact @sound_gone _ _ _ _ .thrown sound rfl asleep rfl shut rfl fun _ => rfl
    · rw [fetching] at choosing
      cases choosing
  | some url =>
    have chosen_sound : ∀ reusing, Sound w index
        { a with phase := .connecting, cellUrl := url, reusing := reusing, previous := w.transport } := by
      intro reusing
      refine ⟨sound.number, fun active => ?_, fun opened => Or.inl (shut opened), fun _ absurd => ?_, fun _ _ => rfl,
        fun _ _ => rfl, fun _ active => ?_⟩
      · rw [asleep] at active
        cases active
      · cases absurd
      · rw [asleep] at active
        cases active
    have before : ∀ c, w.attempts[index]? = some c → chosen c.phase = false := by
      intro c found
      cases there.symm.trans found
      rw [fetching]
      rfl
    have keeps : ∀ (chosen : Attempt), ∀ transport ∈ w.attached, Held (setAttempt w index chosen) transport :=
      fun chosen transport member => held_other inv member fun _ => ⟨a, there, Or.inr (before a there)⟩
    simp only [fetched]
    split
    · exact @inv_move _ _ _ _ w.attached inv there rfl rfl rfl nofun (chosen_sound _)
        (fun current => absurd current other) (keeps _)
    · show Inv { setAttempt w index _ with attached := w.attached ++ [index] }
      refine inv_move inv there rfl rfl rfl nofun
        (chosen_sound _) (fun current => absurd current other) fun transport member => ?_
      rcases mem_append.mp member with old | new
      · exact keeps _ transport old
      · rw [mem_singleton.mp new]
        refine Or.inr ⟨_, set_mine there, ?_, rfl⟩
        next fresh => simpa using fresh

theorem inv_give_up (waiting : chosen a.phase) {waits settled : Phase} (live : waits ≠ .finished ∧ settled ≠ .finished)
    (quiet : chosen waits = false ∧ chosen settled = false)
    (dropped : Latest w a → past waits = false ∧ past settled = false) : Inv (giveUp w index a waits settled) := by
  have sound := inv.each index a there
  have early : entered a.phase = false := by
    cases phase : a.phase <;> rw [phase] at waiting <;> first | rfl | cases waiting
  have other := not_current inv there early
  have asleep := inactive sound early
  obtain ⟨number, owner, _, activated, _, _, shut⟩ := close_now_fields a
  unfold giveUp
  split
  · next reuses =>
    refine @inv_move _ _ _ _ w.attached inv there number owner activated (fun _ => live.2) ?_
      (fun current => absurd current other) fun transport member => ?_
    · exact sound_gone sound number (activated.trans asleep) rfl (fun opened => absurd opened shut) quiet.2
        fun latest => (dropped latest).2
    · exact held_other inv member fun _ => ⟨a, there, Or.inl reuses⟩
  · show Inv { setAttempt w index _ with attached := w.attached.filter (· ≠ index) }
    refine inv_move inv there number owner activated (fun _ => live.1) ?_
      (fun current => absurd current other) fun transport member => ?_
    · exact sound_gone sound number (activated.trans asleep) rfl (fun opened => absurd opened shut) quiet.1
        fun latest => (dropped latest).1
    · obtain ⟨member, differs⟩ := mem_filter.mp member
      exact held_other inv member fun same => absurd same (by simpa using differs)

theorem inv_connects (connecting : a.phase = .connecting) :
    Inv (setAttempt w index { a with phase := .acked, control := .open }) := by
  have sound := inv.each index a there
  have early : entered a.phase = false := by rw [connecting]; rfl
  have asleep := inactive sound early
  refine inv_step inv there rfl rfl rfl nofun ?_ (fun _ => rfl) fun _ => ⟨rfl, rfl⟩
  refine ⟨sound.number, fun active => ?_, fun _ => Or.inr rfl, fun _ _ => rfl, fun latest _ => ?_, fun _ _ => rfl,
    fun _ active => ?_⟩
  · rw [asleep] at active
    cases active
  · exact sound.previous latest (by rw [connecting]; rfl)
  · rw [asleep] at active
    cases active

end

theorem past_unchosen {phase : Phase} (gone : past phase) : chosen phase = false := by
  cases phase <;> first | rfl | cases gone

theorem inv_transport_stopped (inv : Inv w) (there : w.attempts[index]? = some a) {after : Phase}
    (moves : (past a.phase ∧ a.phase ≠ .finished ∧ after = .returned) ∨ (a.phase = .failing ∧ after = .thrown)) :
    Inv (setAttempt w index { a with phase := after }) := by
  have sound := inv.each index a there
  rcases moves with ⟨gone, live, rfl⟩ | ⟨failing, rfl⟩
  · refine inv_step inv there rfl rfl rfl nofun ?_
      (fun current => (control_active inv there current).2.1) fun choosing => ?_
    · refine ⟨sound.number, fun _ => rfl, fun opened => Or.inl ((sound.opened opened).resolve_right fun acked => ?_),
        fun _ absurd => ?_, fun _ absurd => ?_, fun latest asleep => ?_, fun latest active _ => sound.kept latest active live⟩
      · rw [acked] at gone
        cases gone
      · cases absurd
      · cases absurd
      · rw [sound.dropped latest asleep] at gone
        cases gone
    · rw [past_unchosen gone] at choosing
      cases choosing
  · have early : entered a.phase = false := by rw [failing]; rfl
    have other := not_current inv there early
    have asleep := inactive sound early
    refine inv_step inv there rfl rfl rfl nofun ?_ (fun current => absurd current other) fun choosing => ?_
    · refine @sound_gone _ _ _ _ .thrown sound rfl asleep rfl (fun opened => ?_) rfl fun _ => rfl
      exact (sound.opened opened).resolve_right fun acked => by cases failing.symm.trans acked
    · rw [failing] at choosing
      cases choosing

theorem inv_drain (inv : Inv w) (there : w.attempts[index]? = some a) : Inv (onDrain w index a) := by
  unfold onDrain
  split
  · exact inv
  · next told =>
    have sound := inv.each index a there
    obtain ⟨current, _⟩ : w.control = some index ∧ w.stopped = false := by simpa using told
    have active := (control_active inv there current).2.2
    obtain ⟨number, owner, phase, activated, reusing, previous, shut⟩ := close_now_fields a
    have latest : Latest w (closeNow a) → Latest w a := fun both => ⟨both.1, number.symm.trans both.2⟩
    refine inv_step inv there number owner activated (fun live => phase ▸ live) ?_ (fun _ => ?_)
      fun choosing => ⟨phase ▸ choosing, reusing⟩
    · refine ⟨number ▸ sound.number, fun _ => phase ▸ sound.active active, fun opened => absurd opened shut,
        fun _ acked => ?_, fun both choosing => ?_, fun both asleep => ?_, fun both _ live => ?_⟩
      · have late := sound.active active
        rw [← phase, acked] at late
        cases late
      · rw [previous]
        exact sound.previous (latest both) (phase ▸ choosing)
      · rw [phase]
        exact sound.dropped (latest both) (activated ▸ asleep)
      · rw [owner]
        exact sound.kept (latest both) active (phase ▸ live)
    · rw [close_now_connected]
      exact (control_active inv there current).2.1

end Moves

section Turns
variable {w : World} {index : Nat} {a : Attempt}
variable {timer : Bool}

theorem schedule_eq (w : World) : scheduleReconnect w = { w with reconnectTimer :=
    w.reconnectTimer || (!w.stopped && w.connectPromise.isNone && w.control.isNone) } := by
  obtain ⟨attempts, control, transport, cellUrl, stopped, number, timer, promise, attached, calls, served, halted⟩ := w
  cases stopped <;> cases timer <;> cases promise <;> cases control <;> rfl

theorem entered_unchosen {phase : Phase} (enters : entered phase) : chosen phase = false := by
  cases phase <;> first | rfl | cases enters

theorem sound_frame {b : Attempt} {i : Nat} {calls : List Nat} {served : Bool} (sound : Sound w i b) :
    Sound { w with calls := calls, served := served } i b :=
  ⟨sound.number, sound.active, sound.opened, sound.acked, sound.previous, sound.dropped, sound.kept⟩

theorem sound_late {v : World} {b : Attempt} {i : Nat} (sound : Sound w i b) (number : w.connectionAttempt ≤ v.connectionAttempt)
    (late : ¬ Latest v b) (opened : b.control = .open → v.control = some i ∨ b.phase = .acked) : Sound v i b :=
  ⟨Nat.le_trans sound.number number, sound.active, opened, fun latest => absurd latest late,
    fun latest => absurd latest late, fun latest => absurd latest late, fun latest => absurd latest late⟩

theorem inv_activate (inv : Inv w) (there : w.attempts[index]? = some a) (acked : a.phase = .acked)
    (latest : Latest w a) : Inv (activate w index a) := by
  have sound := inv.each index a there
  have early : entered a.phase = false := by rw [acked]; rfl
  have choosing : chosen a.phase := by rw [acked]; rfl
  have alone : w.control = none := by
    cases control : w.control with
    | none => rfl
    | some other =>
      obtain ⟨b, found, known, _, active⟩ := inv.control other control
      cases latest_only inv there found latest.2 known.2
      cases there.symm.trans found
      rw [inactive sound early] at active
      cases active
  -- The parts that do not depend on whether a transport is replaced.
  have general : ∀ (phase : Phase) (attached : List Nat), entered phase → phase ≠ .finished →
      (∀ transport ∈ attached, transport ∈ w.attached ∧
        (a.previous = some transport → transportOf index a = some transport)) →
      Inv { setAttempt w index { a with activated := true, phase := phase } with
        control := some index, transport := transportOf index a, transportCellUrl := some a.cellUrl, attached := attached } := by
    intro phase attached enters live stays
    refine ⟨fun i c found => ?_, distinct_set inv there rfl, fun i known => ?_, fun i known => ?_,
      fun i known => flying_set there (fun _ => live) (inv.calls i known), inv.waited, fun halted => ?_,
      fun transport member => ?_, fun _ => Or.inl rfl⟩
    · rcases set_there found with ⟨rfl, rfl⟩ | ⟨other, old⟩
      · refine ⟨sound.number, fun _ => enters, fun _ => Or.inl rfl, fun _ absurd => ?_, fun _ absurd => ?_,
          fun _ absurd => ?_, fun _ _ _ => Or.inl rfl⟩
        · have still : phase = .acked := absurd
          rw [still] at enters
          cases enters
        · cases (entered_unchosen enters).symm.trans absurd
        · cases absurd
      · have old_sound := inv.each i c old
        refine sound_late old_sound (Nat.le_refl _) (fun known => other ?_) fun opened => ?_
        · exact latest_only inv old there known.2 latest.2
        · refine Or.inr ((old_sound.opened opened).resolve_left fun current => ?_)
          cases alone.symm.trans current
    · cases known
      refine ⟨_, set_mine there, latest, ?_, rfl⟩
      show connected a.control
      rw [sound.acked latest acked]
      rfl
    · obtain ⟨c, found, flight, late⟩ := inv.promise i known
      by_cases mine : i = index
      · subst mine
        exact ⟨_, set_mine there, live, fun _ => latest.2⟩
      · exact ⟨c, set_other mine found, flight, late⟩
    · cases (inv.halted halted).1.symm.trans latest.1
    · obtain ⟨member, replaced⟩ := stays transport member
      rcases inv.attached transport member with current | ⟨c, found, owned, chooses⟩
      · exact Or.inl (replaced ((sound.previous latest choosing).trans current))
      · by_cases mine : transport = index
        · subst mine
          cases there.symm.trans found
          refine Or.inl ?_
          show transportOf transport a = some transport
          rw [transportOf, owned]
          rfl
        · exact Or.inr ⟨c, set_other mine found, owned, chooses⟩
  unfold activate
  split
  · next previous before =>
    split
    · next same =>
      refine general .returned w.attached rfl nofun fun transport member => ⟨member, ?_⟩
      exact fun known => same.symm.trans known
    · refine general .replacing (w.attached.filter (· ≠ previous)) rfl nofun fun transport member => ?_
      obtain ⟨member, differs⟩ := mem_filter.mp member
      refine ⟨member, fun known => ?_⟩
      rw [before, some.injEq] at known
      simp [known] at differs
  · next before =>
    refine general .returned w.attached rfl nofun fun transport member => ⟨member, ?_⟩
    intro known
    cases before.symm.trans known

def lostBy (w : World) (index : Nat) (a : Attempt) (timer : Bool) : World :=
  { setAttempt w index { a with control := .closed } with control := none, reconnectTimer := timer }

theorem inv_lost (inv : Inv w) (there : w.attempts[index]? = some a) (current : w.control = some index)
    (armed : w.reconnectTimer → timer) (arms : timer = false → w.connectPromise.isSome)
    (careful : a.owner = .timer ∨ a.phase = .finished ∨ w.reconnectTimer) : Inv (lostBy w index a timer) := by
  have sound := inv.each index a there
  obtain ⟨latest, _, active⟩ := control_active inv there current
  refine ⟨fun i c found => ?_, distinct_set inv there rfl, fun i known => ?_, fun i known => ?_,
    fun i known => flying_set there id (inv.calls i known), inv.waited, inv.halted, fun transport member => ?_,
    fun running => ?_⟩
  · rcases set_there found with ⟨rfl, rfl⟩ | ⟨other, old⟩
    · refine ⟨sound.number, sound.active, nofun, fun _ acked => ?_, sound.previous, sound.dropped, fun _ _ live => ?_⟩
      · have late := sound.active active
        have acked : a.phase = .acked := acked
        rw [acked] at late
        cases late
      · rcases careful with owner | finished | early
        · exact Or.inr (Or.inr owner)
        · exact absurd finished live
        · exact Or.inr (Or.inl (armed early))
    · have old_sound := inv.each i c old
      refine sound_late old_sound (Nat.le_refl _) (fun known => other ?_) fun opened => ?_
      · exact latest_only inv old there known.2 latest.2
      · refine Or.inr ((old_sound.opened opened).resolve_left fun mine => other ?_)
        exact (some.inj (current.symm.trans mine)).symm
  · cases known
  · obtain ⟨c, found, flight, late⟩ := inv.promise i known
    by_cases mine : i = index
    · subst mine
      cases there.symm.trans found
      exact ⟨_, set_mine there, flight, late⟩
    · exact ⟨c, set_other mine found, flight, late⟩
  · exact held_other inv member fun _ => ⟨a, there, Or.inr (entered_unchosen (sound.active active))⟩
  · refine Or.inr ?_
    cases timer with
    | true => exact Or.inl rfl
    | false =>
      -- Only the latest attempt is awaited, and it is the one whose control closes.
      obtain ⟨other, promise⟩ := isSome_iff_exists.mp (arms rfl)
      obtain ⟨c, found, flight, late⟩ := inv.promise other promise
      cases latest_only inv there found latest.2 (late latest.1)
      cases there.symm.trans found
      refine Or.inr ⟨index, _, set_mine there, flight, Or.inl ?_⟩
      rcases careful with owner | finished | early
      · exact owner
      · exact absurd finished flight
      · cases armed early

theorem inv_close (inv : Inv w) (there : w.attempts[index]? = some a) (careful : careful w (.closes index)) :
    Inv (onClose w index a) := by
  have sound := inv.each index a there
  simp only [RelayReconnection.careful, there, all_some, Bool.or_eq_true, Bool.and_eq_true, decide_eq_true_eq] at careful
  by_cases current : w.control = some index
  · obtain ⟨latest, _, active⟩ := control_active inv there current
    have inner : a.owner = .timer ∨ a.phase = .finished ∨ w.reconnectTimer := by
      rcases careful with (stopped | differs) | ⟨_, ((other | timer) | finished) | armed⟩
      · cases stopped.symm.trans latest.1
      · exact absurd latest.2 differs
      · exact absurd current other
      · exact Or.inl timer
      · exact Or.inr (Or.inl finished)
      · exact Or.inr (Or.inr armed)
    have closes : onClose w index a =
        lostBy w index a (w.reconnectTimer || (!w.stopped && w.connectPromise.isNone)) := by
      unfold onClose
      rw [if_neg, schedule_eq]
      · simp [lostBy, setAttempt]
      · simp [active, current, latest.1]
    rw [closes]
    refine inv_lost inv there current (fun armed => ?_) (fun unarmed => ?_) inner
    · rw [armed]
      rfl
    · simpa [latest.1, isSome_iff_ne_none] using (Bool.or_eq_false_iff.mp unarmed).2
  · have closes : onClose w index a = setAttempt w index { a with control := .closed } := by
      unfold onClose
      rw [if_pos]
      simp [current]
    rw [closes]
    refine inv_step inv there rfl rfl rfl id ?_ (fun known => absurd known current) fun choosing => ⟨choosing, rfl⟩
    refine ⟨sound.number, sound.active, nofun, fun latest acked => ?_, sound.previous, sound.dropped, sound.kept⟩
    -- No control closes while its acknowledgement is on its way to the latest attempt.
    rcases careful with (stopped | differs) | ⟨not, _⟩
    · cases stopped.symm.trans latest.1
    · exact absurd latest.2 differs
    · exact absurd acked not

def endedBy (w : World) (index : Nat) (a : Attempt) (stopped timer : Bool) : World :=
  { setAttempt w index { a with phase := .finished } with
    connectPromise := if w.connectPromise = some index then none else w.connectPromise
    calls := w.calls.filter (· ≠ index)
    served := w.served || (a.phase = .returned && index ∈ w.calls)
    stopped := stopped
    reconnectTimer := timer }

theorem inv_ended (inv : Inv w) (there : w.attempts[index]? = some a) (settled : a.phase = .returned ∨ a.phase = .thrown)
    {stopped : Bool} (stays : w.stopped → stopped) (armed : w.reconnectTimer → timer)
    (free : stopped → w.control = none)
    (waits : stopped → w.served = false ∧ (w.calls ≠ [] → a.phase = .thrown ∧ ∀ i ∈ w.calls, i = index))
    (alive : stopped = false → w.control.isSome ∨ timer ∨ Hopeful (endedBy w index a stopped timer)) :
    Inv (endedBy w index a stopped timer) := by
  have sound := inv.each index a there
  have runs : stopped = false → w.stopped = false := fun running => by
    cases stopped' : w.stopped with
    | false => rfl
    | true => cases running.symm.trans (stays stopped')
  have unacked : a.phase ≠ .acked := by
    rcases settled with phase | phase <;> rw [phase] <;> exact nofun
  have unchosen : chosen a.phase = false := by
    rcases settled with phase | phase <;> rw [phase] <;> rfl
  refine ⟨fun i c found => ?_, distinct_set inv there rfl, fun i known => ?_, fun i known => ?_, fun i known => ?_,
    fun any => ?_, fun halted => ?_, fun transport member => ?_, alive⟩
  · rcases set_there found with ⟨rfl, rfl⟩ | ⟨other, old⟩
    · exact ⟨sound.number, fun _ => rfl, fun opened => Or.inl ((sound.opened opened).resolve_right unacked),
        nofun, nofun, fun _ _ => rfl,
        fun _ _ absurd => (absurd rfl).elim⟩
    · have known := inv.each i c old
      have latest : Latest (endedBy w index a stopped timer) c → Latest w c := fun both => ⟨runs both.1, both.2⟩
      refine ⟨known.number, known.active, known.opened, fun both => known.acked (latest both),
        fun both => known.previous (latest both), fun both => known.dropped (latest both), fun both active live => ?_⟩
      rcases known.kept (latest both) active live with control | timer' | owner
      · exact Or.inl control
      · exact Or.inr (Or.inl (armed timer'))
      · exact Or.inr (Or.inr owner)
  · obtain ⟨c, found, latest, connects, active⟩ := inv.control i known
    have running : stopped = false := by
      cases stopped with
      | false => rfl
      | true => cases (free rfl).symm.trans known
    by_cases mine : i = index
    · subst mine
      cases there.symm.trans found
      exact ⟨_, set_mine there, ⟨running, latest.2⟩, connects, active⟩
    · exact ⟨c, set_other mine found, ⟨running, latest.2⟩, connects, active⟩
  · have known : (if w.connectPromise = some index then none else w.connectPromise) = some i := known
    split at known
    · cases known
    · next differs =>
      obtain ⟨c, found, flight, late⟩ := inv.promise i known
      exact ⟨c, set_other (fun same => differs (same ▸ known)) found, flight, fun running => late (runs running)⟩
  · obtain ⟨member, differs⟩ := mem_filter.mp known
    obtain ⟨c, found, flight⟩ := inv.calls i member
    exact ⟨c, set_other (by simpa using differs) found, flight⟩
  · cases stopped with
    | false => rfl
    | true =>
      obtain ⟨unserved, waiting⟩ := waits rfl
      rcases any with served | calls
      · have served : (w.served || (a.phase = .returned && decide (index ∈ w.calls))) := served
        rw [unserved, Bool.false_or, Bool.and_eq_true, decide_eq_true_eq, decide_eq_true_eq] at served
        have thrown := (waiting (ne_nil_of_mem served.2)).1
        cases served.1.symm.trans thrown
      · refine absurd ?_ calls
        refine filter_eq_nil_iff.mpr fun i member => ?_
        simp [(waiting (ne_nil_of_mem member)).2 i member]
  · obtain ⟨already, gone⟩ := inv.halted halted
    exact ⟨stays already, gone⟩
  · exact held_other inv member fun _ => ⟨a, there, Or.inr unchosen⟩

theorem hopeful_other (there : w.attempts[index]? = some a) {stopped : Bool} (hope : Hopeful w)
    (mine : a.owner ≠ .timer ∧ (a.number = w.connectionAttempt → a.activated)) :
    Hopeful (endedBy w index a stopped timer) := by
  obtain ⟨i, c, found, flight, hope⟩ := hope
  by_cases same : i = index
  · subst same
    cases there.symm.trans found
    rcases hope with timer' | ⟨latest, asleep⟩
    · exact absurd timer' mine.1
    · cases asleep.symm.trans (mine.2 latest)
  · exact ⟨i, c, set_other same found, flight, hope⟩

theorem inv_finish (inv : Inv w) (there : w.attempts[index]? = some a) (settled : a.phase = .returned ∨ a.phase = .thrown)
    (careful : careful w (.finishes index)) : Inv (finishes w index a) := by
  have sound := inv.each index a there
  have live : a.phase ≠ .finished := by
    rcases settled with phase | phase <;> rw [phase] <;> exact nofun
  have idle : w.stopped → w.control = none ∧ w.served = false ∧ w.calls = [] := by
    intro stopped
    have waits : ¬ (w.served ∨ w.calls ≠ []) := fun any => by cases stopped.symm.trans (inv.waited any)
    obtain ⟨unserved, calls⟩ := not_or.mp waits
    exact ⟨stopped_alone inv stopped, Bool.eq_false_iff.mpr unserved, not_not.mp calls⟩
  have quiet : w.stopped → w.served = false ∧ (w.calls ≠ [] → a.phase = .thrown ∧ ∀ i ∈ w.calls, i = index) :=
    fun stopped => ⟨(idle stopped).2.1, fun calls => absurd (idle stopped).2.2 calls⟩
  simp only [RelayReconnection.careful, there, Option.all_some, Bool.or_eq_true, Bool.and_eq_true, decide_eq_true_eq,
    Bool.not_eq_true', Option.isNone_iff_eq_none, List.all_eq_true] at careful
  cases owner : a.owner with
  | start =>
    by_cases thrown : a.phase = .thrown
    · have ends : finishes w index a = endedBy w index a true w.reconnectTimer := by
        simp [finishes, endedBy, owner, thrown, setAttempt]
      rw [ends]
      have alone : w.control = none ∧ w.served = false ∧ ∀ i ∈ w.calls, i = index := by
        rcases careful with ((other | not) | stopped) | ⟨⟨unserved, control⟩, calls⟩
        · exact absurd owner other
        · exact absurd thrown not
        · obtain ⟨control, unserved, calls⟩ := idle stopped
          exact ⟨control, unserved, by simp [calls]⟩
        · exact ⟨control, unserved, calls⟩
      refine inv_ended inv there settled (fun _ => rfl) id (fun _ => alone.1) (fun _ => ?_) nofun
      exact ⟨alone.2.1, fun _ => ⟨thrown, alone.2.2⟩⟩
    · have ends : finishes w index a = endedBy w index a w.stopped w.reconnectTimer := by
        simp [finishes, endedBy, owner, thrown, setAttempt]
      rw [ends]
      refine inv_ended inv there settled id id (fun stopped => (idle stopped).1) quiet fun running => ?_
      rcases inv.alive running with control | timer | hope
      · exact Or.inl control
      · exact Or.inr (Or.inl timer)
      · refine Or.inr (Or.inr (hopeful_other there hope ⟨by simp [owner], fun latest => ?_⟩))
        -- An attempt that has returned without a control is not the latest.
        cases active : a.activated with
        | true => rfl
        | false =>
          have gone := sound.dropped ⟨running, latest⟩ active
          rw [settled.resolve_right thrown] at gone
          cases gone
  | timer =>
    have ends : finishes w index a = endedBy w index a w.stopped (w.reconnectTimer || (!w.stopped &&
        (if w.connectPromise = some index then none else w.connectPromise).isNone && w.control.isNone)) := by
      simp only [finishes, owner, schedule_eq, setAttempt, endedBy]
      cases stopped : w.stopped <;> cases control : w.control <;> simp
    rw [ends]
    refine inv_ended inv there settled id (fun armed => ?_) (fun stopped => (idle stopped).1) quiet fun running => ?_
    · rw [armed]
      rfl
    · cases control : w.control with
      | some => exact Or.inl rfl
      | none =>
        refine Or.inr ?_
        by_cases waited : (if w.connectPromise = some index then none else w.connectPromise) = none
        · refine Or.inl ?_
          rw [waited, running]
          simp
        · split at waited
          · exact absurd rfl waited
          · next differs =>
            obtain ⟨other, promise⟩ := Option.ne_none_iff_exists'.mp waited
            obtain ⟨c, found, flight, late⟩ := inv.promise other promise
            have apart : other ≠ index := fun same => differs (same ▸ promise)
            cases asleep : c.activated with
            | false => exact Or.inr ⟨other, c, set_other apart found, flight, Or.inr ⟨late running, asleep⟩⟩
            | true =>
              rcases (inv.each other c found).kept ⟨running, late running⟩ asleep flight with here | timer | timed
              · rw [control] at here
                cases here
              · refine Or.inl ?_
                rw [timer]
                rfl
              · exact Or.inr ⟨other, c, set_other apart found, flight, Or.inl timed⟩

theorem stop_there (w : World) (i : Nat) : (stop w).attempts[i]? =
    (w.attempts[i]?).map fun a => if w.control = some i then closeNow a else a := by
  have transported : ∀ v : World, (stopTransport v).attempts = v.attempts := by
    intro v
    unfold stopTransport
    split <;> rfl
  rw [stop, transported]
  unfold stopControl
  cases control : w.control with
  | none => simp
  | some current =>
    simp only [getElem?_modify, some.injEq]
    by_cases same : current = i
    · simp [same]
    · simp [same]

theorem stop_fields (w : World) : (stop w).control = none ∧ (stop w).transport = none ∧ (stop w).stopped ∧
    (stop w).connectionAttempt = w.connectionAttempt + 1 ∧ (stop w).connectPromise = w.connectPromise ∧
    (stop w).calls = [] ∧ (stop w).served = false ∧
    ∀ transport ∈ (stop w).attached, transport ∈ w.attached ∧ w.transport ≠ some transport := by
  have filtered : ∀ (gone t : Nat), t ∈ w.attached.filter (· ≠ gone) → t ∈ w.attached ∧ some gone ≠ some t := by
    intro gone t member
    obtain ⟨member, differs⟩ := mem_filter.mp member
    exact ⟨member, fun same => by simp [some.inj same] at differs⟩
  unfold stop stopTransport stopControl
  cases control : w.control <;> cases transport : w.transport
  · exact ⟨rfl, rfl, rfl, rfl, rfl, rfl, rfl, fun t member => ⟨member, nofun⟩⟩
  · exact ⟨rfl, rfl, rfl, rfl, rfl, rfl, rfl, filtered _⟩
  · exact ⟨rfl, rfl, rfl, rfl, rfl, rfl, rfl, fun t member => ⟨member, nofun⟩⟩
  · exact ⟨rfl, rfl, rfl, rfl, rfl, rfl, rfl, filtered _⟩

theorem inv_stop (inv : Inv w) : Inv (stop w) := by
  obtain ⟨control, transport, stopped, number, promise, calls, served, attached⟩ := stop_fields w
  have before : ∀ {i : Nat} {c : Attempt}, (stop w).attempts[i]? = some c →
      ∃ d, w.attempts[i]? = some d ∧ c = if w.control = some i then closeNow d else d := by
    intro i c found
    rw [stop_there] at found
    obtain ⟨d, old, same⟩ := map_eq_some_iff.mp found
    exact ⟨d, old, same.symm⟩
  have late : ∀ c, ¬ Latest (stop w) c := fun c latest => by cases stopped.symm.trans latest.1
  have same : ∀ (i : Nat) (d : Attempt), (if w.control = some i then closeNow d else d).number = d.number ∧
      (if w.control = some i then closeNow d else d).phase = d.phase ∧
      (if w.control = some i then closeNow d else d).reusing = d.reusing := by
    intro i d
    obtain ⟨number, _, phase, _, reusing, _⟩ := close_now_fields d
    split
    · exact ⟨number, phase, reusing⟩
    · exact ⟨rfl, rfl, rfl⟩
  have after : ∀ {i : Nat} {d : Attempt}, w.attempts[i]? = some d →
      (stop w).attempts[i]? = some (if w.control = some i then closeNow d else d) := by
    intro i d found
    rw [stop_there, found]
    rfl
  refine ⟨fun i c found => ?_, fun i j c d one other equal => ?_, fun i known => ?_, fun i known => ?_, fun i known => ?_,
    fun any => ?_, fun _ => ⟨stopped, transport⟩, fun t member => ?_, fun running => ?_⟩
  · obtain ⟨d, old, rfl⟩ := before found
    have sound := inv.each i d old
    have bound : w.connectionAttempt ≤ (stop w).connectionAttempt := number ▸ Nat.le_succ _
    split
    · obtain ⟨sameNumber, _, phase, activated, _, _, shut⟩ := close_now_fields d
      refine ⟨?_, fun active => ?_, fun opened => absurd opened shut, fun latest => absurd latest (late _),
        fun latest => absurd latest (late _), fun latest => absurd latest (late _), fun latest => absurd latest (late _)⟩
      · rw [sameNumber]
        exact Nat.le_trans sound.number bound
      · rw [phase]
        exact sound.active (activated.symm.trans active)
    · next other =>
      refine sound_late sound bound (late d) fun opened => Or.inr ?_
      exact (sound.opened opened).resolve_left other
  · obtain ⟨c', first, rfl⟩ := before one
    obtain ⟨d', second, rfl⟩ := before other
    exact inv.distinct i j c' d' first second ((same i c').1.symm.trans (equal.trans (same j d').1))
  · cases control.symm.trans known
  · rw [promise] at known
    obtain ⟨c, found, flight, _⟩ := inv.promise i known
    refine ⟨_, after found, ?_, fun running => by cases stopped.symm.trans running⟩
    rw [(same i c).2.1]
    exact flight
  · rw [calls] at known
    cases known
  · rcases any with known | waits
    · cases served.symm.trans known
    · exact absurd calls waits
  · obtain ⟨member, other⟩ := attached t member
    rcases inv.attached t member with current | ⟨c, found, owned, chooses⟩
    · exact absurd current other
    · refine Or.inr ⟨_, after found, ?_, ?_⟩
      · rw [(same t c).2.2]
        exact owned
      · rw [(same t c).2.1]
        exact chooses
  · cases stopped.symm.trans running

theorem inv_establish (inv : Inv w) (alone : w.control = none) {stopped halted timer : Bool} {calls : List Nat}
    {owner : Owner} (running : stopped = false) (started : halted = false)
    (waits : ∀ i ∈ calls, i ∈ w.calls ∨ i = w.attempts.length) :
    Inv (establish { w with stopped := stopped, halted := halted, reconnectTimer := timer, calls := calls } owner) := by
  have after : ∀ {i : Nat} {c : Attempt} (last : Attempt), w.attempts[i]? = some c →
      (w.attempts ++ [last])[i]? = some c := by
    intro i c last found
    rw [List.getElem?_append_left (List.getElem?_eq_some_iff.mp found).1]
    exact found
  have before : ∀ {i : Nat} {c last : Attempt}, (w.attempts ++ [last])[i]? = some c →
      w.attempts[i]? = some c ∨ (i = w.attempts.length ∧ c = last) := by
    intro i c last found
    rcases Nat.lt_trichotomy i w.attempts.length with less | same | more
    · rw [getElem?_append_left less] at found
      exact Or.inl found
    · subst same
      rw [getElem?_append_right (Nat.le_refl _), Nat.sub_self] at found
      exact Or.inr ⟨rfl, (some.inj found).symm⟩
    · rw [getElem?_eq_none (by simp; omega)] at found
      cases found
  have last_there : ∀ last : Attempt, (w.attempts ++ [last])[w.attempts.length]? = some last := fun last => by simp
  have less : ∀ {i : Nat} {c : Attempt}, w.attempts[i]? = some c → c.number ≠ w.connectionAttempt + 1 :=
    fun found same => by
      have bound := (inv.each _ _ found).number
      omega
  refine ⟨fun i c found => ?_, fun i j c d one other equal => ?_, fun i known => ?_, fun i known => ?_, fun i known => ?_,
    fun _ => running, fun absurd => ?_, fun transport member => ?_, fun _ => ?_⟩
  · rcases before found with old | ⟨rfl, rfl⟩
    · have sound := inv.each i c old
      refine sound_late sound (Nat.le_succ _) (fun latest => less old latest.2) fun opened => Or.inr ?_
      exact (sound.opened opened).resolve_left fun current => by cases alone.symm.trans current
    · exact ⟨Nat.le_refl _, (fun absurd => by cases absurd), (fun absurd => by cases absurd),
        (fun _ absurd => by cases absurd), (fun _ absurd => by cases absurd), fun _ _ => rfl,
        fun _ absurd => by cases absurd⟩
  · rcases before one with first | ⟨rfl, rfl⟩ <;> rcases before other with second | ⟨rfl, rfl⟩
    · exact inv.distinct i j c d first second equal
    · exact absurd equal (less first)
    · exact absurd equal.symm (less second)
    · rfl
  · cases alone.symm.trans known
  · cases known
    exact ⟨_, last_there _, (fun absurd => by cases absurd), fun _ => rfl⟩
  · rcases waits i known with old | rfl
    · obtain ⟨c, found, flight⟩ := inv.calls i old
      exact ⟨c, after _ found, flight⟩
    · exact ⟨_, last_there _, fun absurd => by cases absurd⟩
  · cases started.symm.trans absurd
  · rcases inv.attached transport member with current | ⟨c, found, rest⟩
    · exact Or.inl current
    · exact Or.inr ⟨c, after _ found, rest⟩
  · exact Or.inr (Or.inr ⟨_, _, last_there _, (fun absurd => by cases absurd), Or.inr ⟨rfl, rfl⟩⟩)

theorem inv_start (inv : Inv w) : Inv (start w) := by
  have calls : ∀ i ∈ w.calls ++ [w.attempts.length], i ∈ w.calls ∨ i = w.attempts.length := by
    intro i member
    rcases mem_append.mp member with old | new
    · exact Or.inl old
    · exact Or.inr (mem_singleton.mp new)
  simp only [start]
  split
  · next stopped =>
    exact @inv_establish w inv (stopped_alone inv stopped) _ _ w.reconnectTimer _ _ rfl rfl calls
  · next running =>
    have running : w.stopped = false := Bool.eq_false_iff.mpr running
    split
    · exact ⟨fun i c found => sound_frame (inv.each i c found), inv.distinct, inv.control, inv.promise, inv.calls,
        fun _ => running, inv.halted, inv.attached, inv.alive⟩
    · next free =>
      split
      · next index promise =>
        obtain ⟨a, found, flight, _⟩ := inv.promise index promise
        refine ⟨fun i c found => sound_frame (inv.each i c found), inv.distinct, inv.control, inv.promise,
          fun i known => ?_, fun _ => running, inv.halted, inv.attached, inv.alive⟩
        rcases mem_append.mp known with old | new
        · exact inv.calls i old
        · rw [mem_singleton.mp new]
          exact ⟨a, found, flight⟩
      · exact @inv_establish w inv (not_isSome_iff_eq_none.mp free) _ _ w.reconnectTimer _ _ rfl rfl calls

theorem inv_timer (inv : Inv w) : Inv (timerFires w) := by
  simp only [timerFires]
  split
  · next idle =>
    have idle : w.stopped ∨ w.control.isSome := by simpa using idle
    have kept : ∀ {i : Nat} {c : Attempt}, w.attempts[i]? = some c → Sound { w with reconnectTimer := false } i c := by
      intro i c found
      have sound := inv.each i c found
      refine ⟨sound.number, sound.active, sound.opened, sound.acked, sound.previous, sound.dropped, fun latest _ _ => ?_⟩
      refine Or.inl (idle.resolve_left fun stopped => ?_)
      cases stopped.symm.trans latest.1
    refine ⟨fun i c found => kept found, inv.distinct, inv.control, inv.promise, inv.calls, inv.waited, inv.halted,
      inv.attached, fun running => Or.inl (idle.resolve_left fun stopped => ?_)⟩
    cases stopped.symm.trans running
  · next both =>
    obtain ⟨running, alone⟩ : w.stopped = false ∧ w.control = none := by simpa using both
    have started : w.halted = false := by
      cases halted : w.halted with
      | false => rfl
      | true => cases (inv.halted halted).1.symm.trans running
    exact @inv_establish w inv alone _ _ false w.calls _ running started fun i member => Or.inl member

theorem inv_resumes (inv : Inv w) (there : w.attempts[index]? = some a) (acked : a.phase = .acked) (valid : Bool) :
    Inv (resumes w index a valid) := by
  have waiting : chosen a.phase := by rw [acked]; rfl
  unfold resumes
  split
  · next stale =>
    refine inv_give_up inv there waiting ⟨by decide, by decide⟩ ⟨rfl, rfl⟩ fun latest => ?_
    simp [latest.1, latest.2] at stale
  · next fresh =>
    have latest : Latest w a := by simpa [Latest] using fresh
    split
    · exact inv_activate inv there acked latest
    · exact inv_give_up inv there waiting ⟨by decide, by decide⟩ ⟨rfl, rfl⟩ fun _ => ⟨rfl, rfl⟩

theorem inv_created : Inv created :=
  ⟨(fun i a there => by cases there), (fun i j a b there => by cases there), (fun i there => by cases there),
    (fun i there => by cases there), (fun i there => by cases there), (fun any => by simp [created] at any),
    nofun, (fun i there => by cases there), nofun⟩

end Turns

theorem about {w next : World} {index : Nat} {does : Attempt → Option World}
    (stepped : (do let a ← w.attempts[index]?; does a) = some next) : ∃ a, w.attempts[index]? = some a ∧ does a = some next :=
  bind_eq_some_iff.mp stepped

theorem inv_preserved (w : World) (action : Action) (next : World) (cares : careful w action) (inv : Inv w)
    (stepped : step w action = some next) : Inv next := by
  cases action with
  | start =>
    cases stepped
    exact inv_start inv
  | stop =>
    cases stepped
    exact inv_stop inv
  | timer =>
    simp only [step] at stepped
    split at stepped
    · cases stepped
      exact inv_timer inv
    · cases stepped
  | fetched index cellUrl =>
    obtain ⟨a, there, does⟩ := about stepped
    split at does
    · next fetching =>
      cases does
      exact inv_fetched inv there fetching cellUrl
    · cases does
  | connects =>
    obtain ⟨a, there, does⟩ := about stepped
    split at does
    · cases does
    · next connecting =>
      have connecting := not_not.mp connecting
      split at does
      · cases does
        exact inv_connects inv there connecting
      · cases does
        refine inv_give_up inv there ?_ ⟨by decide, by decide⟩ ⟨rfl, rfl⟩ fun _ => ⟨rfl, rfl⟩
        rw [connecting]
        rfl
  | resumes index valid =>
    obtain ⟨a, there, does⟩ := about stepped
    split at does
    · next acked =>
      cases does
      exact inv_resumes inv there acked valid
    · cases does
  | transportStopped =>
    obtain ⟨a, there, does⟩ := about stepped
    cases phase : a.phase <;> simp only [phase] at does <;> cases does
    · exact inv_transport_stopped inv there (Or.inl ⟨by rw [phase]; rfl, by rw [phase]; decide, rfl⟩)
    · exact inv_transport_stopped inv there (Or.inr ⟨phase, rfl⟩)
    · exact inv_transport_stopped inv there (Or.inl ⟨by rw [phase]; rfl, by rw [phase]; decide, rfl⟩)
  | drains =>
    obtain ⟨a, there, does⟩ := about stepped
    split at does
    · cases does
      exact inv_drain inv there
    · cases does
  | closes =>
    obtain ⟨a, there, does⟩ := about stepped
    split at does
    · cases does
      exact inv_close inv there cares
    · cases does
  | finishes =>
    obtain ⟨a, there, does⟩ := about stepped
    split at does
    · next settled =>
      cases does
      exact inv_finish inv there settled cares
    · cases does

theorem outcomes {w : World} (inv : Inv w) : Outcomes w := by
  refine ⟨fun index a there opened => (inv.each index a there).opened opened, fun halted settled => ?_,
    fun served settled => ?_⟩
  · obtain ⟨stopped, transport⟩ := inv.halted halted
    have finished : ∀ {i : Nat} {a : Attempt}, w.attempts[i]? = some a → a.phase = .finished :=
      fun there => settled _ (mem_of_getElem? there)
    refine ⟨fun a member opened => ?_, eq_nil_iff_forall_not_mem.mpr fun t member => ?_⟩
    · obtain ⟨i, there⟩ := getElem?_of_mem member
      rcases (inv.each i a there).opened opened with current | acked
      · cases (stopped_alone inv stopped).symm.trans current
      · cases (finished there).symm.trans acked
    · rcases inv.attached t member with current | ⟨a, there, _, chooses⟩
      · cases transport.symm.trans current
      · rw [finished there] at chooses
        cases chooses
  · have running := inv.waited (Or.inl served)
    rcases inv.alive running with control | timer | ⟨i, a, there, flight, _⟩
    · obtain ⟨index, current⟩ := isSome_iff_exists.mp control
      obtain ⟨a, there, _, connects, _⟩ := inv.control index current
      exact Or.inr ⟨index, a, current, there, connects⟩
    · exact Or.inl timer
    · exact absurd (settled a (mem_of_getElem? there)) flight

/-- While no control closes at its activation or under the `start` that made it, and no `start` fails beside another one,
    the host stays reachable and what a stop leaves is closed and detached. -/
theorem host_stays_reachable {actions : List Action} {w : World} (ran : run step created actions = some w)
    (cares : Guarded step (fun w action => careful w action) created actions) : Outcomes w :=
  outcomes (guarded_run_invariant Inv inv_preserved cares ran inv_created)

/-! A host whose control closes and that is moved to another cell, and one whose first `start` fails under its second. -/

def movedHost : List Action :=
  [.start, .fetched 0 (some "one"), .connects 0 true, .resumes 0 true, .finishes 0, .drains 0, .closes 0, .timer,
    .fetched 1 (some "two"), .connects 1 true, .resumes 1 true, .transportStopped 1, .finishes 1]

theorem moved_reachable : ∃ w, run step created movedHost = some w ∧ w.served ∧ w.control = some 1 ∧
    w.attached = [1] ∧ Outcomes w := by
  obtain ⟨w, ran, seen⟩ := map_eq_some_iff.mp
    (show (run step created movedHost).map (fun w => (w.served, w.control, w.attached)) = some (true, some 1, [1]) from
      by decide +kernel)
  simp only [Prod.mk.injEq] at seen
  refine ⟨w, ran, seen.1, seen.2.1, seen.2.2, host_stays_reachable ran ?_⟩
  exact checked_guarded careful (fun _ _ passed => passed) _ _ (by decide +kernel)

def overtakenStart : List Action :=
  [.start, .stop, .start, .fetched 0 none, .finishes 0, .fetched 1 (some "one"), .connects 1 true, .resumes 1 true,
    .transportStopped 1, .finishes 1]

/-- The failure of the first `start` stops the gateway, so that the second resolves without a control or a timer. -/
theorem late_failure_strands : ¬ ∀ (actions : List Action) (w : World), run step created actions = some w →
    Outcomes w := by
  intro claimed
  obtain ⟨w, ran, seen⟩ := map_eq_some_iff.mp (show (run step created overtakenStart).map
      (fun w => (w.served, w.control, w.reconnectTimer, w.attempts.map Attempt.phase)) =
      some (true, none, false, [.finished, .finished]) from by decide +kernel)
  simp only [Prod.mk.injEq] at seen
  obtain ⟨served, control, timer, phases⟩ := seen
  have settled : Settled w := by
    intro a member
    have known := mem_map_of_mem (f := Attempt.phase) member
    rw [phases] at known
    simpa using known
  rcases (claimed _ w ran).reachable served settled with armed | ⟨index, a, current, _⟩
  · cases timer.symm.trans armed
  · cases control.symm.trans current

end PieRelay.RelayReconnection
