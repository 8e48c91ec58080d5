import PieRelay.Executions

/-!
Draining a relay node: `registerActive`, `unregisterActive`, `BeginDrain` and
`CloseActiveConnections` of server/internal/relay/server.go. `activeMu` is
explicit, because `BeginDrain` stores the flag without taking it and may fall
between the check and the insertion of a registering handler. Any number of
handlers run; the drain is started once, by the shutdown path of the process.
-/
namespace PieRelay.DrainCompletion
open Function Executions
variable {Sender : Type} [DecidableEq Sender]

inductive Handler (Sender : Type) where
  | idle
  | waiting (sender : Sender)
  | locked (sender : Sender)
  | admitted (sender : Sender)
  | inserted (sender : Sender)
  | refused (sender : Sender)

inductive Closer (Sender : Type) where
  | serving
  | draining
  | closing (rest : List Sender)
  | returned

structure Server (Sender : Type) where
  draining : Bool
  active : List Sender
  activeMu : Option Nat
  handlers : Nat → Handler Sender
  closer : Closer Sender
  shut : Sender → Bool
  unregistered : Sender → Bool
  answers : List (Sender × Bool)

def newServer : Server Sender where
  draining := false
  active := []
  activeMu := none
  handlers := fun _ => .idle
  closer := .serving
  shut := fun _ => false
  unregistered := fun _ => false
  answers := []

inductive Action (Sender : Type) where
  | registerActive (handler : Nat) (sender : Sender)
  | lockActive (handler : Nat)
  | checkDraining (handler : Nat)
  | insertActive (handler : Nat)
  | unlockActive (handler : Nat)
  | unregisterActive (sender : Sender)
  | beginDrain
  | snapshotActive
  | shutdownNext
  | closeReturns
  | shutdown (sender : Sender)

def move (s : Server Sender) (handler : Nat) (place : Handler Sender) : Server Sender :=
  { s with handlers := update s.handlers handler place }

def step (s : Server Sender) : Action Sender → Option (Server Sender)
  | .registerActive handler sender =>
    match s.handlers handler with
    | .idle =>
      -- The first, unlocked look at the flag.
      if s.draining then some { s with answers := s.answers ++ [(sender, false)] }
      else some (move s handler (.waiting sender))
    | _ => none
  | .lockActive handler =>
    match s.handlers handler, s.activeMu with
    | .waiting sender, none =>
      some { move s handler (.locked sender) with activeMu := some handler }
    | _, _ => none
  | .checkDraining handler =>
    match s.handlers handler with
    | .locked sender =>
      some (move s handler (if s.draining then .refused sender else .admitted sender))
    | _ => none
  | .insertActive handler =>
    match s.handlers handler with
    | .admitted sender =>
      some { move s handler (.inserted sender) with
        active := sender :: s.active.filter fun other => other ≠ sender }
    | _ => none
  | .unlockActive handler =>
    match s.handlers handler with
    | .inserted sender =>
      some { move s handler .idle with
        activeMu := none
        answers := s.answers ++ [(sender, true)] }
    | .refused sender =>
      some { move s handler .idle with
        activeMu := none
        answers := s.answers ++ [(sender, false)] }
    | _ => none
  | .unregisterActive sender =>
    match s.activeMu with
    | none =>
      some { s with
        active := s.active.filter fun other => other ≠ sender
        unregistered := update s.unregistered sender true }
    | some _ => none
  | .beginDrain =>
    match s.closer with
    | .serving => some { s with draining := true, closer := .draining }
    | _ => none
  | .snapshotActive =>
    match s.closer, s.activeMu with
    | .draining, none => some { s with closer := .closing s.active }
    | _, _ => none
  | .shutdownNext =>
    match s.closer with
    | .closing (sender :: rest) =>
      some { s with shut := update s.shut sender true, closer := .closing rest }
    | _ => none
  | .closeReturns =>
    match s.closer with
    | .closing [] => some { s with closer := .returned }
    | _ => none
  | .shutdown sender => some { s with shut := update s.shut sender true }

def Closer.owed : Closer Sender → Option (List Sender)
  | .serving => none
  | .draining => none
  | .closing rest => some rest
  | .returned => some []

def Handler.entering : Handler Sender → Option Sender
  | .admitted sender => some sender
  | .inserted sender => some sender
  | _ => none

def Handler.critical : Handler Sender → Bool
  | .locked _ => true
  | .admitted _ => true
  | .inserted _ => true
  | .refused _ => true
  | _ => false

structure Draining (s : Server Sender) : Prop where
  flagged : s.closer ≠ .serving → s.draining
  exclusive : ∀ handler, (s.handlers handler).critical → s.activeMu = some handler
  present : ∀ handler sender, s.handlers handler = .inserted sender → sender ∈ s.active
  sealed : ∀ rest, s.closer.owed = some rest → ∀ handler, (s.handlers handler).entering = none
  covered : ∀ rest, s.closer.owed = some rest →
    ∀ sender ∈ s.active, s.shut sender ∨ sender ∈ rest
  answered : ∀ sender, (sender, true) ∈ s.answers →
    sender ∈ s.active ∨ sender ∉ s.active ∧ s.unregistered sender

omit [DecidableEq Sender] in
theorem new_draining : Draining (newServer : Server Sender) where
  flagged := by simp [newServer]
  exclusive := by simp [newServer, Handler.critical]
  present := by simp [newServer]
  sealed := by simp [newServer, Closer.owed]
  covered := by simp [newServer]
  answered := by simp [newServer]

omit [DecidableEq Sender] in
theorem entering_critical (place : Handler Sender) (outside : place.critical ≠ true) : place.entering = none := by
  cases place <;> simp_all [Handler.critical, Handler.entering]

omit [DecidableEq Sender] in
theorem free_outside (s : Server Sender) (invariant : Draining s) (free : s.activeMu = none)
    (handler : Nat) : (s.handlers handler).critical ≠ true := by
  intro inside
  have held := invariant.exclusive handler inside
  simp [free] at held

section
variable (s : Server Sender)
include s

omit [DecidableEq Sender] in
-- Moving one handler to a place outside the section keeps what is said of all of them.
theorem move_draining (handler : Nat) (place : Handler Sender)
    (invariant : Draining s) (outside : place.critical ≠ true) : Draining (move s handler place) where
  flagged := invariant.flagged
  exclusive := (forall_update_iff s.handlers fun other p => p.critical → s.activeMu = some other).mpr
    ⟨fun inside => absurd inside outside, fun other _ => invariant.exclusive other⟩
  present := (forall_update_iff s.handlers fun _ p => ∀ sender, p = .inserted sender → sender ∈ s.active).mpr
    ⟨fun _ here => absurd (here ▸ rfl) outside, fun other _ => invariant.present other⟩
  sealed := fun rest owed => (forall_update_iff s.handlers fun _ p => p.entering = none).mpr
    ⟨entering_critical place outside, fun other _ => invariant.sealed rest owed other⟩
  covered := invariant.covered
  answered := invariant.answered

theorem register_draining (handler : Nat) (sender : Sender) (next : Server Sender) (invariant : Draining s)
    (stepped : step s (.registerActive handler sender) = some next) : Draining next := by
  simp only [step] at stepped
  split at stepped <;> try contradiction
  split at stepped
  · cases stepped
    exact ⟨invariant.flagged, invariant.exclusive, invariant.present, invariant.sealed,
      invariant.covered, by simpa using invariant.answered⟩
  · cases stepped
    exact move_draining s handler _ invariant (by simp [Handler.critical])

section
variable (handler : Nat) (next : Server Sender) (invariant : Draining s)
include handler next invariant

theorem lock_draining (stepped : step s (.lockActive handler) = some next) : Draining next := by
  simp only [step] at stepped
  split at stepped <;> try contradiction
  rename_i free
  cases stepped
  have outside := free_outside s invariant free
  refine ⟨invariant.flagged, ?_, ?_, ?_, invariant.covered, invariant.answered⟩
  · refine (forall_update_iff s.handlers fun other p => p.critical → some handler = some other).mpr ⟨fun _ => rfl, ?_⟩
    intro other _ inside
    exact absurd inside (outside other)
  · exact (forall_update_iff s.handlers fun _ p => ∀ added, p = .inserted added → added ∈ s.active).mpr
      ⟨by simp, fun other _ => invariant.present other⟩
  · exact fun rest owed => (forall_update_iff s.handlers fun _ p => p.entering = none).mpr
      ⟨rfl, fun other _ => invariant.sealed rest owed other⟩

theorem check_draining (stepped : step s (.checkDraining handler) = some next) : Draining next := by
  simp only [step] at stepped
  split at stepped <;> try contradiction
  rename_i here
  cases stepped
  have holding : s.activeMu = some handler := invariant.exclusive handler (by simp [here, Handler.critical])
  refine ⟨invariant.flagged, ?_, ?_, ?_, invariant.covered, invariant.answered⟩
  · exact (forall_update_iff s.handlers fun other p => p.critical → s.activeMu = some other).mpr
      ⟨fun _ => holding, fun other _ => invariant.exclusive other⟩
  · refine (forall_update_iff s.handlers fun _ p => ∀ added, p = .inserted added → added ∈ s.active).mpr
      ⟨?_, fun other _ => invariant.present other⟩
    split <;> simp
  · -- Behind the snapshot the flag is up, so the second look refuses.
    intro rest owed
    have up : s.draining := by
      refine invariant.flagged fun serving => ?_
      have nothing : s.closer.owed = some rest := owed
      simp [serving, Closer.owed] at nothing
    exact (forall_update_iff s.handlers fun _ p => p.entering = none).mpr
      ⟨by simp [up, Handler.entering], fun other _ => invariant.sealed rest owed other⟩

theorem insert_draining (stepped : step s (.insertActive handler) = some next) : Draining next := by
  simp only [step] at stepped
  split at stepped <;> try contradiction
  rename_i sender here
  cases stepped
  have holding : s.activeMu = some handler := invariant.exclusive handler (by simp [here, Handler.critical])
  have unsealed : ∀ rest, s.closer.owed ≠ some rest := by
    intro rest owed
    have none := invariant.sealed rest owed handler
    simp [here, Handler.entering] at none
  have grows : ∀ other, other ∈ s.active → other ∈ sender :: s.active.filter fun other => other ≠ sender := by
    intro other member
    by_cases same : other = sender <;> simp [same, member]
  refine ⟨invariant.flagged, ?_, ?_, fun rest owed => absurd owed (unsealed rest),
    fun rest owed => absurd owed (unsealed rest), ?_⟩
  · exact (forall_update_iff s.handlers fun other p => p.critical → s.activeMu = some other).mpr
      ⟨fun _ => holding, fun other _ => invariant.exclusive other⟩
  · refine (forall_update_iff s.handlers fun _ p => ∀ added, p = .inserted added →
      added ∈ sender :: s.active.filter fun other => other ≠ sender).mpr ⟨by simp, ?_⟩
    intro other _ added there
    exact grows added (invariant.present other added there)
  · intro added answer
    by_cases same : added = sender
    · exact Or.inl (by simp [same])
    · rcases invariant.answered added answer with member | ⟨absent, removed⟩
      · exact Or.inl (grows added member)
      · exact Or.inr ⟨by simp [same, absent], removed⟩

theorem unlock_draining (stepped : step s (.unlockActive handler) = some next) : Draining next := by
  have moved := move_draining s handler .idle invariant (by simp [Handler.critical])
  have alone : (s.handlers handler).critical → ∀ other, (update s.handlers handler .idle other).critical ≠ true := by
    intro inside other
    by_cases same : other = handler
    · simp [same, Handler.critical]
    · intro another
      have first := invariant.exclusive handler inside
      have second := invariant.exclusive other (by simpa [same] using another)
      simp_all
  simp only [step] at stepped
  split at stepped <;> try contradiction
  · rename_i here
    cases stepped
    refine ⟨moved.flagged, ?_, moved.present, moved.sealed, moved.covered, ?_⟩
    · intro other inside
      exact absurd inside (alone (by simp [here, Handler.critical]) other)
    · intro added answer
      rcases List.mem_append.mp answer with earlier | now
      · exact invariant.answered added earlier
      · simp only [List.mem_singleton, Prod.mk.injEq, and_true] at now
        exact Or.inl (invariant.present handler added (now ▸ here))
  · rename_i here
    cases stepped
    refine ⟨moved.flagged, ?_, moved.present, moved.sealed, moved.covered, ?_⟩
    · intro other inside
      exact absurd inside (alone (by simp [here, Handler.critical]) other)
    · intro added answer
      exact invariant.answered added (by simpa using answer)

end

theorem unregister_draining (sender : Sender) (next : Server Sender)
    (invariant : Draining s) (stepped : step s (.unregisterActive sender) = some next) :
    Draining next := by
  simp only [step] at stepped
  split at stepped <;> try contradiction
  rename_i free
  cases stepped
  have outside := free_outside s invariant free
  refine ⟨invariant.flagged, invariant.exclusive, ?_, invariant.sealed, ?_, ?_⟩
  · intro handler added here
    have there : s.handlers handler = .inserted added := here
    exact absurd (by simp [there, Handler.critical]) (outside handler)
  · intro rest owed other member
    exact invariant.covered rest owed other (List.mem_filter.mp member).1
  · intro added answer
    by_cases same : added = sender
    · exact Or.inr (by simp [same])
    · simpa [same] using invariant.answered added answer

theorem snapshot_draining (next : Server Sender)
    (invariant : Draining s) (stepped : step s .snapshotActive = some next) : Draining next := by
  simp only [step] at stepped
  split at stepped <;> try contradiction
  rename_i begun free
  cases stepped
  refine ⟨fun _ => invariant.flagged (by simp [begun]), invariant.exclusive, invariant.present,
    ?_, ?_, invariant.answered⟩
  · intro rest owed handler
    exact entering_critical _ (free_outside s invariant free handler)
  · intro rest owed sender member
    cases owed
    exact Or.inr member

theorem shutdown_next_draining (next : Server Sender)
    (invariant : Draining s) (stepped : step s .shutdownNext = some next) : Draining next := by
  simp only [step] at stepped
  split at stepped <;> try contradiction
  rename_i head tail closing
  cases stepped
  have owed : s.closer.owed = some (head :: tail) := by simp [closing, Closer.owed]
  refine ⟨fun _ => invariant.flagged (by simp [closing]), invariant.exclusive, invariant.present,
    fun _ _ => invariant.sealed _ owed, ?_, invariant.answered⟩
  intro rest remaining sender member
  cases remaining
  by_cases same : sender = head
  · exact Or.inl (by simp [same])
  · simpa [same] using invariant.covered _ owed sender member

theorem step_draining (action : Action Sender) (next : Server Sender)
    (invariant : Draining s) (stepped : step s action = some next) : Draining next := by
  cases action with
  | registerActive handler sender => exact register_draining s handler sender next invariant stepped
  | lockActive handler => exact lock_draining s handler next invariant stepped
  | checkDraining handler => exact check_draining s handler next invariant stepped
  | insertActive handler => exact insert_draining s handler next invariant stepped
  | unlockActive handler => exact unlock_draining s handler next invariant stepped
  | unregisterActive sender => exact unregister_draining s sender next invariant stepped
  | beginDrain =>
    simp only [step] at stepped
    split at stepped <;> try contradiction
    cases stepped
    exact ⟨fun _ => rfl, invariant.exclusive, invariant.present, by simp [Closer.owed],
      by simp [Closer.owed], invariant.answered⟩
  | snapshotActive => exact snapshot_draining s next invariant stepped
  | shutdownNext => exact shutdown_next_draining s next invariant stepped
  | closeReturns =>
    simp only [step] at stepped
    split at stepped <;> try contradiction
    rename_i closing
    cases stepped
    have owed : s.closer.owed = some [] := by simp [closing, Closer.owed]
    refine ⟨fun _ => invariant.flagged (by simp [closing]), invariant.exclusive,
      invariant.present, fun _ _ => invariant.sealed _ owed, ?_, invariant.answered⟩
    intro rest remaining
    cases remaining
    exact invariant.covered [] owed
  | shutdown sender =>
    cases stepped
    refine ⟨invariant.flagged, invariant.exclusive, invariant.present, invariant.sealed, ?_, invariant.answered⟩
    intro rest owed other member
    by_cases same : other = sender
    · exact Or.inl (by simp [same])
    · simpa [same] using invariant.covered rest owed other member

theorem reachable_draining (actions : List (Action Sender)) (ran : run step newServer actions = some s) : Draining s :=
  run_invariant Draining step_draining ran new_draining

theorem returned_step (action : Action Sender) (next : Server Sender)
    (invariant : Draining s) (returned : s.closer = .returned)
    (stepped : step s action = some next) :
    next.closer = .returned ∧ ∃ refused, next.answers = s.answers ++ refused ∧
      ∀ answer ∈ refused, answer.2 = false := by
  have owed : s.closer.owed = some [] := by simp [returned, Closer.owed]
  have up := invariant.flagged (by simp [returned])
  cases action with
  | unlockActive handler =>
    have outside := invariant.sealed [] owed handler
    simp only [step] at stepped
    split at stepped <;> try contradiction
    · rename_i here
      simp [here, Handler.entering] at outside
    · rename_i sender here
      cases stepped
      exact ⟨returned, [(sender, false)], rfl, by simp⟩
  | registerActive handler sender =>
    simp only [step, up, ↓reduceIte] at stepped
    split at stepped <;> try contradiction
    cases stepped
    exact ⟨returned, [(sender, false)], rfl, by simp⟩
  | lockActive | checkDraining | insertActive =>
    simp only [step] at stepped
    split at stepped <;> try contradiction
    cases stepped
    exact ⟨returned, [], by simp [move], by simp⟩
  | unregisterActive =>
    simp only [step] at stepped
    split at stepped <;> try contradiction
    cases stepped
    exact ⟨returned, [], by simp, by simp⟩
  | beginDrain | snapshotActive | shutdownNext | closeReturns => simp [step, returned] at stepped
  | shutdown =>
    cases stepped
    exact ⟨returned, [], by simp, by simp⟩

end

theorem returned_run (s t : Server Sender) (actions : List (Action Sender))
    (invariant : Draining s) (returned : s.closer = .returned)
    (ran : run step s actions = some t) :
    t.closer = .returned ∧ ∃ refused, t.answers = s.answers ++ refused ∧ ∀ answer ∈ refused, answer.2 = false := by
  induction actions generalizing s with
  | nil =>
    cases ran
    exact ⟨returned, [], by simp, by simp⟩
  | cons action rest ih =>
    obtain ⟨next, stepped, tail⟩ := run_cons ran
    obtain ⟨still, first, grown, refusals⟩ := returned_step s action next invariant returned stepped
    obtain ⟨ended, second, grownAgain, refusalsAgain⟩ :=
      ih next (step_draining s action next invariant stepped) still tail
    refine ⟨ended, first ++ second, by rw [grownAgain, grown, List.append_assoc], ?_⟩
    intro answer member
    rcases List.mem_append.mp member with early | late
    · exact refusals answer early
    · exact refusalsAgain answer late

/-- Once `CloseActiveConnections` has returned, whoever was ever registered is shut
    down or unregistered, there and in every later state, and every answer given
    from then on is a refusal. -/
theorem drain_complete (before after : List (Action Sender)) (s t : Server Sender)
    (reached : run step newServer before = some s) (returned : s.closer = .returned)
    (continued : run step s after = some t) :
    (∀ sender, (sender, true) ∈ t.answers → t.shut sender ∨ sender ∉ t.active ∧ t.unregistered sender) ∧
    ∃ refused, t.answers = s.answers ++ refused ∧ ∀ answer ∈ refused, answer.2 = false := by
  have atReturn := reachable_draining s before reached
  obtain ⟨still, later⟩ := returned_run s t after atReturn returned continued
  have invariant : Draining t := run_invariant Draining step_draining continued atReturn
  refine ⟨?_, later⟩
  intro sender answer
  rcases invariant.answered sender answer with member | gone
  · have closed := invariant.covered [] (by simp [still, Closer.owed]) sender member
    exact Or.inl (by simpa using closed)
  · exact Or.inr gone

def overtaken : List (Action Nat) :=
  [.registerActive 0 7, .lockActive 0, .checkDraining 0, .beginDrain, .insertActive 0,
    .registerActive 1 8, .unlockActive 0, .snapshotActive, .shutdownNext, .closeReturns]

theorem drain_complete_overtaken : ∃ s : Server Nat, run step newServer overtaken = some s ∧ s.closer = .returned ∧
      (7, true) ∈ s.answers ∧
      (s.shut 7 ∨ 7 ∉ s.active ∧ s.unregistered 7) := by
  have shape : (run step newServer overtaken).map (fun s => (s.closer, s.answers)) =
      some (.returned, [(8, false), (7, true)]) := rfl
  obtain ⟨s, ran, seen⟩ := Option.map_eq_some_iff.mp shape
  have returned : s.closer = .returned := congrArg Prod.fst seen
  have answered : (7, true) ∈ s.answers := by
    rw [show s.answers = [(8, false), (7, true)] from congrArg Prod.snd seen]
    decide
  exact ⟨s, ran, returned, answered, (drain_complete overtaken [] s s ran returned rfl).1 7 answered⟩

end PieRelay.DrainCompletion
