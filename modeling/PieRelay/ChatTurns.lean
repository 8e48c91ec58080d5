import Mathlib.Data.Finset.Card
import PieRelay.Admission
import PieRelay.ControlPlane
import PieRelay.Executions

/-!
The turn slots of the chat gateway, executor-manager/internal/chatgateway/gateway.go: `claimTurn` and
`releaseTurn`, and what `Ensure`, `Send`, `completeActive`, `stop` and `abandonTurn` do with them. A
step is one critical section. A lock of a peer that is held beyond a step is a field of the peer, and
who needs it waits. Any number of handlers is under way; which peers complete and when, what the journal
has pending and whether a request is accepted is left open. A handler of `Send` that finds no peer panics.
-/
namespace PieRelay.ChatTurns
open List Option
open Admission (lookup_insert_update lookup_erase_update)
open ControlPlane (Table values)
open Executions
open Function

structure Slots where
  turnActive : Finset String
  turnQueue : List String

def claimTurn (turnLimit : Nat) (s : Slots) (conversationID : String) : Bool × Slots :=
  if conversationID ∈ s.turnActive then (true, s)
  else if conversationID ∈ s.turnQueue then (false, s)
  else if s.turnActive.card < turnLimit then (true, { s with turnActive := insert conversationID s.turnActive })
  else (false, { s with turnQueue := s.turnQueue ++ [conversationID] })

def releaseRound (turnLimit : Nat) (s : Slots) (conversationID : String) : Slots × Option String :=
  let turnActive := s.turnActive.erase conversationID
  match s.turnQueue.erase conversationID with
  | [] => (⟨turnActive, []⟩, none)
  | next :: rest =>
    if turnLimit ≤ turnActive.card then (⟨turnActive, next :: rest⟩, none)
    else (⟨insert next turnActive, rest⟩, some next)

structure Peer where
  convID : String
  activeChat : String
  turnLease : Bool
  locked : Bool
  deriving DecidableEq

/-- Where a handler is. What `Ensure` was called for, if it was for a request, comes after it. -/
inductive Phase where
  | ensuring (convID : String) (pending : Option String) (send : Option String)
  | claiming (convID peer : String) (send : Option String)
  | seeking (convID request : String)
  | sending (convID peer request : String)
  | stopping (convID peer : String)
  | releasing (convID : String)
  | promoting (convID : String)
  | waking (convID peer : String)
  deriving DecidableEq

structure World where
  peers : String → Option String
  heap : Table Peer
  slots : Slots
  calls : Table Phase

inductive Action where
  | ensure (call convID : String) (pending : Option String) (send : Option String)
  | publish (call fresh : String)
  | claim (call : String)
  | seek (call : String)
  | accept (call : String) (accepted : Bool)
  | complete (call peer : String) (appended : Bool)
  | stop (call convID : String)
  | abandon (call : String)
  | release (call : String)
  | find (call : String)
  | wake (call : String)
  deriving DecidableEq

def moveTo (w : World) (call : String) : Option Phase → World
  | some phase => { w with calls := w.calls.insert call phase }
  | none => { w with calls := w.calls.erase call }

def afterEnsure (convID : String) (send : Option String) : Option Phase := send.map (.seeking convID)

def setPeer (w : World) (p : String) (peer : Peer) : World := { w with heap := w.heap.insert p peer }

def cleared (peer : Peer) : Peer := { peer with activeChat := "", turnLease := false }

def unlocked (w : World) (p : String) : Option Peer := (w.heap.lookup p).filter fun peer => !peer.locked

def publish (w : World) (call fresh convID : String) (pending send : Option String) : Option World :=
  match w.peers convID with
  | some _ => some (moveTo w call (afterEnsure convID send))
  | none =>
    if (w.heap.lookup fresh).isNone then
      let w := setPeer { w with peers := update w.peers convID (some fresh) } fresh
        ⟨convID, pending.getD "", false, pending.isSome⟩
      some (moveTo w call (if pending.isSome then some (.claiming convID fresh send) else afterEnsure convID send))
    else none

def claim (turnLimit : Nat) (w : World) (call convID p : String) (send : Option String) : Option World :=
  (w.heap.lookup p).map fun peer =>
    let claimed := claimTurn turnLimit w.slots convID
    moveTo (setPeer { w with slots := claimed.2 } p { peer with turnLease := claimed.1, locked := false }) call
      (afterEnsure convID send)

def accept (w : World) (call convID p request : String) (accepted : Bool) : Option World :=
  (unlocked w p).map fun peer =>
    if accepted ∧ peer.activeChat = "" then
      moveTo (setPeer w p { peer with activeChat := request, locked := true }) call (some (.claiming convID p none))
    else moveTo w call none

def completeActive (w : World) (call p : String) (appended : Bool) : Option World :=
  (unlocked w p).map fun peer =>
    if peer.activeChat = "" ∨ ¬ appended then w
    else moveTo (setPeer w p (cleared peer)) call (if peer.turnLease then some (.releasing peer.convID) else none)

def abandonTurn (w : World) (call p : String) : Option World :=
  (unlocked w p).map fun peer =>
    moveTo (setPeer w p (cleared peer)) call
      (if peer.activeChat = "" then none else some (.releasing peer.convID))

def wake (w : World) (call convID p : String) : Option World :=
  (unlocked w p).map fun peer =>
    if peer.activeChat = "" then moveTo w call (some (.releasing convID))
    else moveTo (setPeer w p { peer with turnLease := true }) call none

def step (turnLimit : Nat) (w : World) : Action → Option World
  | .ensure call convID pending send =>
    if w.calls.lookup call = none ∧ send ≠ some "" then some (moveTo w call (some (.ensuring convID pending send)))
    else none
  | .publish call fresh =>
    match w.calls.lookup call with
    | some (.ensuring convID pending send) => publish w call fresh convID pending send
    | _ => none
  | .claim call =>
    match w.calls.lookup call with
    | some (.claiming convID p send) => claim turnLimit w call convID p send
    | _ => none
  | .seek call =>
    match w.calls.lookup call with
    | some (.seeking convID request) => some (moveTo w call ((w.peers convID).map fun p => .sending convID p request))
    | _ => none
  | .accept call accepted =>
    match w.calls.lookup call with
    | some (.sending convID p request) => accept w call convID p request accepted
    | _ => none
  | .complete call p appended => if w.calls.lookup call = none then completeActive w call p appended else none
  | .stop call convID =>
    if w.calls.lookup call = none then
      match w.peers convID with
      | none => some w
      | some p =>
        some (moveTo { w with peers := update w.peers convID none } call (some (.stopping convID p)))
    else none
  | .abandon call =>
    match w.calls.lookup call with
    | some (.stopping _ p) => abandonTurn w call p
    | _ => none
  | .release call =>
    match w.calls.lookup call with
    | some (.releasing convID) =>
      let round := releaseRound turnLimit w.slots convID
      some (moveTo { w with slots := round.1 } call (round.2.map .promoting))
    | _ => none
  | .find call =>
    match w.calls.lookup call with
    | some (.promoting convID) =>
      some (moveTo w call (match w.peers convID with
        | some p => some (.waking convID p)
        | none => some (.releasing convID)))
    | _ => none
  | .wake call =>
    match w.calls.lookup call with
    | some (.waking convID p) => wake w call convID p
    | _ => none

structure View where
  peers : String → Option String
  heap : String → Option Peer
  slots : Slots
  calls : String → Option Phase

def view (w : World) : View := ⟨w.peers, w.heap.lookup, w.slots, w.calls.lookup⟩

def View.move (v : View) (call : String) (phase : Option Phase) : View := { v with calls := update v.calls call phase }

def View.set (v : View) (p : String) (peer : Peer) : View := { v with heap := update v.heap p (some peer) }

variable {c p : String} {send : Option String} {w : World} {turnLimit : Nat}

@[simp] theorem view_move (w : World) (call : String) (phase : Option Phase) :
    view (moveTo w call phase) = (view w).move call phase := by
  cases phase with
  | none => exact congrArg (View.mk w.peers w.heap.lookup w.slots) (lookup_erase_update w.calls call)
  | some phase => exact congrArg (View.mk w.peers w.heap.lookup w.slots) (lookup_insert_update w.calls call phase)

@[simp] theorem view_set (w : World) (p : String) (peer : Peer) : view (setPeer w p peer) = (view w).set p peer :=
  congrArg (fun heap => View.mk w.peers heap w.slots w.calls.lookup) (lookup_insert_update w.heap p peer)

def Phase.inside : Phase → Option String
  | .releasing convID => some convID
  | .promoting convID => some convID
  | .waking convID _ => some convID
  | _ => none

def Phase.quiet : Phase → Bool
  | .ensuring .. => true
  | .seeking .. => true
  | .sending .. => true
  | .stopping .. => true
  | _ => false

def Phase.target : Phase → Option (String × String)
  | .claiming convID p _ => some (convID, p)
  | .sending convID p _ => some (convID, p)
  | .stopping convID p => some (convID, p)
  | .waking convID p => some (convID, p)
  | _ => none

def Peer.holding (peer : Peer) : Bool := peer.turnLease ∨ (peer.activeChat ≠ "" ∧ peer.locked = false)

/-- All that a step can do. Steps that only move a handler about, outside of `releaseTurn`, are `pass`. -/
inductive Moves (turnLimit : Nat) (v : View) : Action → View → Prop where
  | rest {action : Action} : Moves turnLimit v action v
  | pass {action : Action} {call : String} {phase : Option Phase}
      (outside : ∀ before, v.calls call = some before → before.quiet)
      (onward : ∀ after, phase = some after → after.quiet ∧
        ∀ c p, after.target = some (c, p) → v.peers c = some p) :
      Moves turnLimit v action (v.move call phase)
  | unpublish {call c p : String} (idle : v.calls call = none) (known : v.peers c = some p) :
      Moves turnLimit v (.stop call c) ({ v with peers := update v.peers c none }.move call (some (.stopping c p)))
  | publish {call fresh c : String} {pending send : Option String}
      (here : v.calls call = some (.ensuring c pending send)) (free : v.peers c = none) (new : v.heap fresh = none) :
      Moves turnLimit v (.publish call fresh)
        (({ v with peers := update v.peers c (some fresh) }.set fresh ⟨c, pending.getD "", false, pending.isSome⟩).move
          call (if pending.isSome then some (.claiming c fresh send) else afterEnsure c send))
  | claim {call c p : String} {send : Option String} {peer : Peer}
      (here : v.calls call = some (.claiming c p send)) (known : v.heap p = some peer) :
      Moves turnLimit v (.claim call)
        (({ v with slots := (claimTurn turnLimit v.slots c).2 }.set p
          { peer with turnLease := (claimTurn turnLimit v.slots c).1, locked := false }).move call (afterEnsure c send))
  | accept {call c p request : String} {accepted : Bool} {peer : Peer}
      (here : v.calls call = some (.sending c p request)) (known : v.heap p = some peer) (free : peer.locked = false)
      (none : peer.activeChat = "") :
      Moves turnLimit v (.accept call accepted)
        ((v.set p { peer with activeChat := request, locked := true }).move call (some (.claiming c p Option.none)))
  | clear {action : Action} {call p : String} {peer : Peer} {phase : Option Phase}
      (outside : ∀ before, v.calls call = some before → before.quiet)
      (known : v.heap p = some peer) (free : peer.locked = false)
      (onward : phase = none ∨ phase = some (.releasing peer.convID) ∧ peer.holding) :
      Moves turnLimit v action ((v.set p (cleared peer)).move call phase)
  | release {call c : String} (here : v.calls call = some (.releasing c)) :
      Moves turnLimit v (.release call)
        ({ v with slots := (releaseRound turnLimit v.slots c).1 }.move call
          ((releaseRound turnLimit v.slots c).2.map .promoting))
  | lose {call c : String} (here : v.calls call = some (.promoting c)) (none : v.peers c = none) :
      Moves turnLimit v (.find call) (v.move call (some (.releasing c)))
  | aim {call c p : String} (here : v.calls call = some (.promoting c)) (known : v.peers c = some p) :
      Moves turnLimit v (.find call) (v.move call (some (.waking c p)))
  | drop {call c p : String} {peer : Peer} (here : v.calls call = some (.waking c p)) (known : v.heap p = some peer)
      (free : peer.locked = false) (none : peer.activeChat = "") :
      Moves turnLimit v (.wake call) (v.move call (some (.releasing c)))
  | wake {call c p : String} {peer : Peer} (here : v.calls call = some (.waking c p)) (known : v.heap p = some peer)
      (free : peer.locked = false) (busy : peer.activeChat ≠ "") :
      Moves turnLimit v (.wake call) ((v.set p { peer with turnLease := true }).move call none)

variable {after : Phase} {peer : Peer}

theorem after_ensure_quiet {v : View} (onward : afterEnsure c send = some after) :
    after.quiet ∧ ∀ d p, after.target = some (d, p) → v.peers d = some p := by
  obtain ⟨request, -, rfl⟩ := map_eq_some_iff.mp onward
  refine ⟨rfl, ?_⟩
  rintro d p ⟨⟩

theorem unlocked_some (found : unlocked w p = some peer) : (view w).heap p = some peer ∧ peer.locked = false := by
  obtain ⟨stored, free⟩ := filter_eq_some_iff.mp found
  exact ⟨stored, by simpa using free⟩

theorem step_moves {next : World} {action : Action}
    (stepped : step turnLimit w action = some next) : Moves turnLimit (view w) action (view next) := by
  cases action with
  | ensure =>
    obtain ⟨⟨idle, -⟩, same⟩ := ite_none_right_eq_some.mp stepped
    cases same
    rw [view_move]
    refine .pass ?_ ?_
    · intro before here
      cases idle.symm.trans here
    · rintro after ⟨⟩
      refine ⟨rfl, ?_⟩
      rintro d p ⟨⟩
  | publish =>
    dsimp only [step] at stepped
    split at stepped
    · next here =>
      unfold publish at stepped
      split at stepped
      · cases stepped
        rw [view_move]
        refine .pass ?_ fun after onward => after_ensure_quiet onward
        intro before there
        cases here.symm.trans there
        rfl
      · next free =>
        obtain ⟨new, same⟩ := ite_none_right_eq_some.mp stepped
        cases same
        rw [view_move, view_set]
        exact .publish here free (isNone_iff_eq_none.mp new)
    · cases stepped
  | claim =>
    dsimp only [step] at stepped
    split at stepped
    · next here =>
      obtain ⟨peer, known, rfl⟩ := map_eq_some_iff.mp stepped
      rw [view_move, view_set]
      exact .claim here known
    · cases stepped
  | seek =>
    dsimp only [step] at stepped
    split at stepped
    · next here =>
      cases stepped
      rw [view_move]
      refine .pass ?_ ?_
      · intro before there
        cases here.symm.trans there
        rfl
      · intro after onward
        obtain ⟨p, known, rfl⟩ := map_eq_some_iff.mp onward
        refine ⟨rfl, ?_⟩
        rintro d q ⟨⟩
        exact known
    · cases stepped
  | accept =>
    dsimp only [step] at stepped
    split at stepped
    · next here =>
      obtain ⟨peer, found, rfl⟩ := map_eq_some_iff.mp stepped
      obtain ⟨known, free⟩ := unlocked_some found
      split
      · next passed =>
        rw [view_move, view_set]
        exact .accept here known free passed.2
      · rw [view_move]
        refine .pass ?_ fun after onward => by cases onward
        intro before there
        cases here.symm.trans there
        rfl
    · cases stepped
  | complete =>
    obtain ⟨idle, stepped⟩ := ite_none_right_eq_some.mp stepped
    obtain ⟨peer, found, rfl⟩ := map_eq_some_iff.mp stepped
    obtain ⟨known, free⟩ := unlocked_some found
    split
    · exact .rest
    · rw [view_move, view_set]
      refine .clear ?_ known free ?_
      · intro before here
        cases idle.symm.trans here
      · cases leased : peer.turnLease with
        | false => exact .inl rfl
        | true => exact .inr ⟨rfl, decide_eq_true (.inl leased)⟩
  | stop =>
    obtain ⟨idle, stepped⟩ := ite_none_right_eq_some.mp stepped
    split at stepped
    · cases stepped
      exact .rest
    · next known =>
      cases stepped
      rw [view_move]
      exact .unpublish idle known
  | abandon =>
    dsimp only [step] at stepped
    split at stepped
    · next here =>
      obtain ⟨peer, found, rfl⟩ := map_eq_some_iff.mp stepped
      obtain ⟨known, free⟩ := unlocked_some found
      rw [view_move, view_set]
      refine .clear ?_ known free ?_
      · intro before there
        cases here.symm.trans there
        rfl
      · split
        · exact .inl rfl
        · next busy => exact .inr ⟨rfl, decide_eq_true (.inr ⟨busy, free⟩)⟩
    · cases stepped
  | release =>
    dsimp only [step] at stepped
    split at stepped
    · next here =>
      cases stepped
      rw [view_move]
      exact .release here
    · cases stepped
  | find =>
    dsimp only [step] at stepped
    split at stepped
    · next here =>
      cases stepped
      rw [view_move]
      split
      · next known => exact .aim here known
      · next none => exact .lose here none
    · cases stepped
  | wake =>
    dsimp only [step] at stepped
    split at stepped
    · next here =>
      obtain ⟨peer, found, rfl⟩ := map_eq_some_iff.mp stepped
      obtain ⟨known, free⟩ := unlocked_some found
      split
      · next none =>
        rw [view_move]
        exact .drop here known free none
      · next busy =>
        rw [view_move, view_set]
        exact .wake here known free busy
    · cases stepped

structure Slots.Sound (turnLimit : Nat) (s : Slots) : Prop where
  bounded : s.turnActive.card ≤ turnLimit
  nodup : s.turnQueue.Nodup
  apart : ∀ c ∈ s.turnQueue, c ∉ s.turnActive

structure Claimed (s : Slots) (c : String) (answer : Bool × Slots) : Prop where
  active : ∀ d ∈ s.turnActive, d ∈ answer.2.turnActive
  queued : ∀ d ∈ answer.2.turnQueue, d ∈ s.turnQueue ∨ d = c
  kept : ∀ d ∈ s.turnQueue, d ∈ answer.2.turnQueue
  granted : answer.1 → c ∈ answer.2.turnActive
  waits : answer.1 = false → c ∈ answer.2.turnQueue

variable {s : Slots}

theorem claim_claimed (turnLimit : Nat) (s : Slots) (c : String) : Claimed s c (claimTurn turnLimit s c) := by
  unfold claimTurn
  split
  · next active => exact ⟨fun _ d => d, fun _ d => .inl d, fun _ d => d, fun _ => active, nofun⟩
  · split
    · next queued => exact ⟨fun _ d => d, fun _ d => .inl d, fun _ d => d, nofun, fun _ => queued⟩
    · split
      · exact ⟨fun d active => Finset.mem_insert_of_mem active, fun _ d => .inl d, fun _ d => d,
          fun _ => Finset.mem_insert_self c s.turnActive, nofun⟩
      · refine ⟨fun _ d => d, ?_, fun d queued => mem_append_left _ queued, nofun, fun _ => ?_⟩
        · intro d queued
          rcases mem_append.mp queued with before | last
          · exact .inl before
          · exact .inr (mem_singleton.mp last)
        · exact mem_append_right _ (mem_singleton_self c)

theorem claim_sound (sound : s.Sound turnLimit) (c : String) : (claimTurn turnLimit s c).2.Sound turnLimit := by
  unfold claimTurn
  split
  · exact sound
  · next idle =>
    split
    · exact sound
    · next absent =>
      split
      · next =>
        refine ⟨?_, sound.nodup, ?_⟩
        · have counted := Finset.card_insert_of_notMem idle
          dsimp only
          omega
        · intro d queued active
          rcases Finset.mem_insert.mp active with rfl | active
          · exact absent queued
          · exact sound.apart d queued active
      · refine ⟨sound.bounded, ?_, ?_⟩
        · exact nodup_append.mpr ⟨sound.nodup, nodup_singleton c, by
            rintro d queued e last rfl
            rw [mem_singleton.mp last] at queued
            exact absent queued⟩
        · intro d queued
          rcases mem_append.mp queued with before | last
          · exact sound.apart d before
          · rw [mem_singleton.mp last]
            exact idle

structure Released (s : Slots) (c : String) (answer : Slots × Option String) : Prop where
  active : ∀ d ∈ s.turnActive, d ≠ c → d ∈ answer.1.turnActive
  queued : ∀ d ∈ answer.1.turnQueue, d ∈ s.turnQueue ∧ d ≠ c
  kept : ∀ d ∈ s.turnQueue, d ≠ c → d ∈ answer.1.turnQueue ∨ answer.2 = some d
  promoted : ∀ d, answer.2 = some d → d ∈ answer.1.turnActive ∧ d ∈ s.turnQueue ∧ d ∉ answer.1.turnQueue

theorem release_released (sound : s.Sound turnLimit) (c : String) : Released s c (releaseRound turnLimit s c) := by
  have left : ∀ d, d ∈ s.turnQueue.erase c ↔ d ≠ c ∧ d ∈ s.turnQueue := fun d => sound.nodup.mem_erase_iff
  have once := sound.nodup.erase c
  have active : ∀ d ∈ s.turnActive, d ≠ c → d ∈ s.turnActive.erase c := fun d member apart =>
    Finset.mem_erase.mpr ⟨apart, member⟩
  unfold releaseRound
  dsimp only
  cases same : s.turnQueue.erase c with
  | nil =>
    rw [same] at left
    refine ⟨active, (fun d queued => by cases queued), ?_, fun d promoted => by cases promoted⟩
    intro d queued apart
    cases (left d).mpr ⟨apart, queued⟩
  | cons next =>
    rw [same] at left once
    dsimp only
    split
    · refine ⟨active, ?_, ?_, fun d promoted => by cases promoted⟩
      · intro d queued
        exact ⟨((left d).mp queued).2, ((left d).mp queued).1⟩
      · intro d queued apart
        exact .inl ((left d).mpr ⟨apart, queued⟩)
    · refine ⟨?_, ?_, ?_, ?_⟩
      · intro d member apart
        exact Finset.mem_insert_of_mem (active d member apart)
      · intro d queued
        obtain ⟨apart, before⟩ := (left d).mp (mem_cons_of_mem next queued)
        exact ⟨before, apart⟩
      · intro d queued apart
        rcases mem_cons.mp ((left d).mpr ⟨apart, queued⟩) with rfl | behind
        · exact .inr rfl
        · exact .inl behind
      · rintro d ⟨⟩
        obtain ⟨fresh, -⟩ := nodup_cons.mp once
        exact ⟨Finset.mem_insert_self _ _, ((left next).mp mem_cons_self).2, fresh⟩

theorem release_sound (sound : s.Sound turnLimit) (c : String) : (releaseRound turnLimit s c).1.Sound turnLimit := by
  have fewer := Finset.card_erase_le (a := c) (s := s.turnActive)
  have once := sound.nodup.erase c
  have apart : ∀ d ∈ s.turnQueue.erase c, d ∉ s.turnActive.erase c := by
    intro d queued active
    exact sound.apart d (mem_of_mem_erase queued) (Finset.mem_of_mem_erase active)
  have bounded := sound.bounded
  unfold releaseRound
  dsimp only
  cases same : s.turnQueue.erase c with
  | nil => exact ⟨by dsimp only; omega, nodup_nil, fun d queued => by cases queued⟩
  | cons next =>
    rw [same] at once apart
    obtain ⟨fresh, unique⟩ := nodup_cons.mp once
    dsimp only
    split
    · exact ⟨by dsimp only; omega, once, apart⟩
    · refine ⟨?_, unique, ?_⟩
      · have counted := Finset.card_insert_le next (s.turnActive.erase c)
        dsimp only
        omega
      · intro d queued active
        rcases Finset.mem_insert.mp active with rfl | active
        · exact fresh queued
        · exact apart d (mem_cons_of_mem next queued) active

def View.Idle (v : View) (c : String) : Prop := ∀ call phase, v.calls call = some phase → phase.inside ≠ some c

def View.Alone (v : View) (c call : String) : Prop :=
  ∀ other phase, v.calls other = some phase → phase.inside = some c → other = call

def View.aim (v : View) : Phase → Option (String × String)
  | .promoting c => (v.peers c).map fun p => (c, p)
  | .waking c p => some (c, p)
  | _ => none

structure Orderly (turnLimit : Nat) (v : View) : Prop where
  slots : v.slots.Sound turnLimit
  owned : ∀ call phase c p, v.calls call = some phase → phase.target = some (c, p) →
    ∃ peer, v.heap p = some peer ∧ peer.convID = c
  published : ∀ c p, v.peers c = some p → ∃ peer, v.heap p = some peer ∧ peer.convID = c
  locked : ∀ p peer, v.heap p = some peer → peer.locked →
    ∃ call send, v.calls call = some (.claiming peer.convID p send)
  leased : ∀ p peer, v.heap p = some peer → peer.turnLease →
    peer.convID ∈ v.slots.turnActive ∧ v.Idle peer.convID
  single : ∀ p q peer other, v.heap p = some peer → v.heap q = some other → peer.holding →
    other.holding → peer.convID = other.convID → p = q
  queued : ∀ p peer, v.heap p = some peer → peer.holding → peer.convID ∈ v.slots.turnQueue →
    v.Idle peer.convID
  aimed : ∀ call phase c p peer, v.calls call = some phase → v.aim phase = some (c, p) → v.heap p = some peer →
    peer.holding → c ∈ v.slots.turnActive ∧ v.Alone c call
  waiting : ∀ c p peer, v.peers c = some p → v.heap p = some peer → peer.activeChat ≠ "" → peer.locked = false →
    peer.turnLease = false → c ∈ v.slots.turnQueue ∨ ∃ call phase, v.calls call = some phase ∧ v.aim phase = some (c, p)

@[simp] theorem move_calls (v : View) (call other : String) (phase : Option Phase) :
    (v.move call phase).calls other = if other = call then phase else v.calls other := update_apply ..

@[simp] theorem set_heap (v : View) (p q : String) (peer : Peer) :
    (v.set p peer).heap q = if q = p then some peer else v.heap q := update_apply ..

@[simp] theorem move_aim (v : View) (call : String) (phase : Option Phase) (other : Phase) :
    (v.move call phase).aim other = v.aim other := by
  cases other <;> rfl

@[simp] theorem set_aim (v : View) (p : String) (peer : Peer) (other : Phase) :
    (v.set p peer).aim other = v.aim other := by
  cases other <;> rfl

theorem quiet_inside {phase : Phase} (quiet : phase.quiet) : phase.inside = none := by
  cases phase <;> first | rfl | cases quiet

theorem aim_inside {v : View} {phase : Phase} (aims : v.aim phase = some (c, p)) : phase.inside = some c := by
  cases phase with
  | promoting =>
    obtain ⟨q, -, same⟩ := map_eq_some_iff.mp aims
    cases same
    rfl
  | waking =>
    cases aims
    rfl
  | _ => cases aims

/-- A step that leaves the slots alone and brings no turn anywhere: nobody holds more than before, and who gets
    inside of `releaseTurn` does so for a conversation that nobody holds a turn of. -/
structure Calm (v next : View) : Prop where
  slots : next.slots = v.slots
  holders : ∀ p peer, next.heap p = some peer → peer.holding → ∃ before, v.heap p = some before ∧
    before.holding ∧ before.convID = peer.convID ∧ (peer.turnLease → before.turnLease)
  inside : ∀ p peer, next.heap p = some peer → peer.holding → ∀ call phase, next.calls call = some phase →
    phase.inside = some peer.convID → ∃ before, v.calls call = some before ∧ before.inside = some peer.convID
  aims : ∀ call phase c p, next.calls call = some phase → next.aim phase = some (c, p) →
    (∃ peer, next.heap p = some peer ∧ peer.holding) →
    ∃ before, v.calls call = some before ∧ v.aim before = some (c, p)

section Keeping
variable {turnLimit : Nat} {v next : View}

theorem lease_holding (leased : peer.turnLease) : peer.holding :=
  decide_eq_true (.inl leased)

section
variable (calm : Calm v next)
include calm

theorem Calm.idle (known : next.heap p = some peer)
    (holding : peer.holding) (idle : v.Idle peer.convID) : next.Idle peer.convID := by
  intro call phase there inside
  obtain ⟨before, here, same⟩ := calm.inside p peer known holding call phase there inside
  exact idle call before here same

section
variable (orderly : Orderly turnLimit v)
include orderly

theorem Calm.leased : ∀ p peer, next.heap p = some peer →
    peer.turnLease → peer.convID ∈ next.slots.turnActive ∧ next.Idle peer.convID := by
  intro p peer known leased
  obtain ⟨before, here, -, same, lease⟩ := calm.holders p peer known (lease_holding leased)
  obtain ⟨active, idle⟩ := orderly.leased p before here (lease leased)
  rw [calm.slots, ← same]
  refine ⟨active, ?_⟩
  rw [same] at idle ⊢
  exact calm.idle known (lease_holding leased) idle

theorem Calm.single : ∀ p q peer other, next.heap p = some peer →
    next.heap q = some other → peer.holding → other.holding → peer.convID = other.convID → p = q := by
  intro p q peer other known beside holding too same
  obtain ⟨before, here, held, conv, -⟩ := calm.holders p peer known holding
  obtain ⟨second, there, also, convs, -⟩ := calm.holders q other beside too
  exact orderly.single p q before second here there held also (conv.trans (same.trans convs.symm))

theorem Calm.queued : ∀ p peer, next.heap p = some peer →
    peer.holding → peer.convID ∈ next.slots.turnQueue → next.Idle peer.convID := by
  intro p peer known holding queued
  obtain ⟨before, here, held, same, -⟩ := calm.holders p peer known holding
  rw [calm.slots, ← same] at queued
  have idle := orderly.queued p before here held queued
  rw [same] at idle
  exact calm.idle known holding idle

theorem Calm.aimed (owned : ∀ call phase c p, next.calls call = some phase → next.aim phase = some (c, p) →
      ∃ peer, next.heap p = some peer ∧ peer.convID = c) : ∀ call phase c p peer,
    next.calls call = some phase → next.aim phase = some (c, p) → next.heap p = some peer → peer.holding →
    c ∈ next.slots.turnActive ∧ next.Alone c call := by
  intro call phase c p peer there aims known holding
  obtain ⟨before, here, aimed⟩ := calm.aims call phase c p there aims ⟨peer, known, holding⟩
  obtain ⟨old, stored, held, -⟩ := calm.holders p peer known holding
  obtain ⟨active, alone⟩ := orderly.aimed call before c p old here aimed stored held
  obtain ⟨same, found, conv⟩ := owned call phase c p there aims
  cases found.symm.trans known
  rw [calm.slots]
  refine ⟨active, fun other later beside inside => ?_⟩
  rw [← conv] at inside
  obtain ⟨early, was, same⟩ := calm.inside p peer known holding other later beside inside
  rw [conv] at same
  exact alone other early was same

end

end

end Keeping

section Steps
variable {turnLimit : Nat} {v next : View}
variable {call : String} {phase : Option Phase} {before : Phase}

theorem aim_owned (owned : ∀ call phase c p, next.calls call = some phase → phase.target = some (c, p) →
      ∃ peer, next.heap p = some peer ∧ peer.convID = c)
    (published : ∀ c p, next.peers c = some p → ∃ peer, next.heap p = some peer ∧ peer.convID = c) :
    ∀ call phase c p, next.calls call = some phase → next.aim phase = some (c, p) →
      ∃ peer, next.heap p = some peer ∧ peer.convID = c := by
  intro call phase c p there aims
  cases phase with
  | promoting =>
    obtain ⟨q, known, same⟩ := map_eq_some_iff.mp aims
    cases same
    exact published c p known
  | waking =>
    cases aims
    exact owned call _ c p there rfl
  | _ => cases aims

theorem Calm.orderly (calm : Calm v next) (orderly : Orderly turnLimit v)
    (owned : ∀ call phase c p, next.calls call = some phase → phase.target = some (c, p) →
      ∃ peer, next.heap p = some peer ∧ peer.convID = c)
    (published : ∀ c p, next.peers c = some p → ∃ peer, next.heap p = some peer ∧ peer.convID = c)
    (locked : ∀ p peer, next.heap p = some peer → peer.locked →
      ∃ call send, next.calls call = some (.claiming peer.convID p send))
    (waiting : ∀ c p peer, next.peers c = some p → next.heap p = some peer → peer.activeChat ≠ "" →
      peer.locked = false → peer.turnLease = false → c ∈ next.slots.turnQueue ∨
        ∃ call phase, next.calls call = some phase ∧ next.aim phase = some (c, p)) : Orderly turnLimit next where
  slots := calm.slots ▸ orderly.slots
  owned := owned
  published := published
  locked := locked
  leased := calm.leased orderly
  single := calm.single orderly
  queued := calm.queued orderly
  aimed := calm.aimed orderly (aim_owned owned published)
  waiting := waiting

theorem calm_refl (v : View) : Calm v v where
  slots := rfl
  holders _ peer known holding := ⟨peer, known, holding, rfl, fun leased => leased⟩
  inside _ _ _ _ _ phase there inside := ⟨phase, there, inside⟩
  aims _ phase _ _ there aims _ := ⟨phase, there, aims⟩

theorem calm_set {before : Peer} (known : v.heap p = some before) (conv : peer.convID = before.convID)
    (holding : peer.holding → before.holding) (lease : peer.turnLease → before.turnLease) :
    Calm v (v.set p peer) where
  slots := rfl
  holders q other found held := by
    rw [set_heap] at found
    split at found
    · next here =>
      cases found
      exact ⟨before, here ▸ known, holding held, conv.symm, lease⟩
    · exact ⟨other, found, held, rfl, fun leased => leased⟩
  inside _ _ _ _ _ phase there inside := ⟨phase, there, inside⟩
  aims _ phase _ _ there aims _ := ⟨phase, there, set_aim v p peer phase ▸ aims⟩

theorem Calm.move (calm : Calm v next) (call : String) (phase : Option Phase)
    (enters : ∀ after c, phase = some after → after.inside = some c →
      (∃ before, v.calls call = some before ∧ before.inside = some c ∧
        ∀ d p, next.aim after = some (d, p) → v.aim before = some (d, p)) ∨
      next.aim after = none ∧ ∀ p peer, next.heap p = some peer → peer.holding → peer.convID ≠ c) :
    Calm v (next.move call phase) where
  slots := calm.slots
  holders := calm.holders
  inside p peer known holding other after there inside := by
    rw [move_calls] at there
    split at there
    · next here =>
      subst here
      rcases enters after peer.convID there inside with ⟨before, was, within, -⟩ | ⟨-, none⟩
      · exact ⟨before, was, within⟩
      · exact absurd rfl (none p peer known holding)
    · exact calm.inside p peer known holding other after there inside
  aims other after c p there aims held := by
    rw [move_aim] at aims
    rw [move_calls] at there
    split at there
    · next here =>
      subst here
      rcases enters after c there (aim_inside aims) with ⟨before, was, -, aimed⟩ | ⟨none, -⟩
      · exact ⟨before, was, aimed c p aims⟩
      · rw [none] at aims
        cases aims
    · exact calm.aims other after c p there aims held

theorem move_keeps {other : String}
    (there : v.calls other = some after) (apart : ∀ before, v.calls call = some before → before ≠ after) :
    (v.move call phase).calls other = some after := by
  have beside : other ≠ call := by
    rintro rfl
    exact apart after there rfl
  rw [move_calls, if_neg beside]
  exact there

theorem quiet_apart (quiet : before.quiet) (c p : String) (send : Option String) : before ≠ .claiming c p send := by
  rintro rfl
  cases quiet

theorem quiet_unaimed {v : View} (quiet : before.quiet) (aims : v.aim after = some (c, p)) : before ≠ after := by
  rintro rfl
  have inside := aim_inside aims
  rw [quiet_inside quiet] at inside
  cases inside

theorem pass_orderly (orderly : Orderly turnLimit v) (outside : ∀ before, v.calls call = some before → before.quiet)
    (onward : ∀ after, phase = some after → after.quiet ∧
      ∀ c p, after.target = some (c, p) → ∃ peer, v.heap p = some peer ∧ peer.convID = c) :
    Orderly turnLimit (v.move call phase) := by
  have calm : Calm v (v.move call phase) := by
    refine (calm_refl v).move call phase fun after c moved inside => ?_
    rw [quiet_inside (onward after moved).1] at inside
    cases inside
  refine calm.orderly orderly ?_ orderly.published ?_ ?_
  · intro other after c p there target
    rw [move_calls] at there
    split at there
    · exact (onward after there).2 c p target
    · exact orderly.owned other after c p there target
  · intro p peer known locked
    obtain ⟨other, send, there⟩ := orderly.locked p peer known locked
    exact ⟨other, send, move_keeps there fun before here => quiet_apart (outside before here) _ _ _⟩
  · intro c p peer published known busy free unleased
    rcases orderly.waiting c p peer published known busy free unleased with queued | ⟨other, after, there, aims⟩
    · exact .inl queued
    · refine .inr ⟨other, after, move_keeps there fun before here => quiet_unaimed (outside before here) aims, ?_⟩
      rw [move_aim]
      exact aims

theorem unpublish_orderly (orderly : Orderly turnLimit v) (idle : v.calls call = none) (known : v.peers c = some p) :
    Orderly turnLimit ({ v with peers := update v.peers c none }.move call (some (.stopping c p))) := by
  have fewer : ∀ d q, update v.peers c none d = some q → d ≠ c ∧ v.peers d = some q := by
    intro d q found
    by_cases here : d = c
    · subst here
      rw [update_self] at found
      cases found
    · rw [update_of_ne here] at found
      exact ⟨here, found⟩
  have stay : ∀ phase d q, v.aim phase = some (d, q) → update v.peers c none d = some q →
      View.aim { v with peers := update v.peers c none } phase = some (d, q) := by
    intro phase d q aims found
    cases phase with
    | promoting =>
      obtain ⟨r, -, same⟩ := map_eq_some_iff.mp aims
      cases same
      exact map_eq_some_iff.mpr ⟨q, found, rfl⟩
    | waking => exact aims
    | _ => cases aims
  have calm : Calm v { v with peers := update v.peers c none } := by
    refine ⟨rfl, (calm_refl v).holders, (calm_refl v).inside, ?_⟩
    intro other phase d q there aims _
    refine ⟨phase, there, ?_⟩
    cases phase with
    | promoting =>
      obtain ⟨r, found, same⟩ := map_eq_some_iff.mp aims
      cases same
      exact map_eq_some_iff.mpr ⟨q, (fewer d q found).2, rfl⟩
    | waking => exact aims
    | _ => cases aims
  refine (calm.move call _ ?_).orderly orderly ?_ ?_ ?_ ?_
  · rintro _ d ⟨⟩ ⟨⟩
  · intro other after d q there target
    rw [move_calls] at there
    split at there
    · cases there
      cases target
      exact orderly.published _ _ known
    · exact orderly.owned other after d q there target
  · intro d q found
    exact orderly.published d q (fewer d q found).2
  · intro q peer stored locked
    obtain ⟨other, send, there⟩ := orderly.locked q peer stored locked
    refine ⟨other, send, ?_⟩
    refine move_keeps (v := { v with peers := update v.peers c none }) there fun before here => ?_
    cases idle.symm.trans here
  · intro d q peer found stored busy free unleased
    rcases orderly.waiting d q peer (fewer d q found).2 stored busy free unleased with queued | ⟨other, after, there, aims⟩
    · exact .inl queued
    · refine .inr ⟨other, after, ?_, ?_⟩
      · refine move_keeps (v := { v with peers := update v.peers c none }) there fun before here => ?_
        cases idle.symm.trans here
      · rw [move_aim]
        exact stay after d q aims found

theorem publish_orderly (orderly : Orderly turnLimit v) {fresh : String} {pending : Option String}
    (here : v.calls call = some (.ensuring c pending send)) (free : v.peers c = none) (new : v.heap fresh = none) :
    Orderly turnLimit (({ v with peers := update v.peers c (some fresh) }.set fresh
      ⟨c, pending.getD "", false, pending.isSome⟩).move call
        (if pending.isSome then some (.claiming c fresh send) else afterEnsure c send)) := by
  have unheld : Peer.holding ⟨c, pending.getD "", false, pending.isSome⟩ = false := by
    cases pending with
    | none => rfl
    | some => simp [Peer.holding]
  have stored : ∀ q peer, v.heap q = some peer → (v.set fresh ⟨c, pending.getD "", false, pending.isSome⟩).heap q =
      some peer := by
    intro q peer known
    rw [set_heap, if_neg]
    · exact known
    · rintro rfl
      cases new.symm.trans known
  have found : ∀ q peer, (v.set fresh ⟨c, pending.getD "", false, pending.isSome⟩).heap q = some peer →
      (q = fresh ∧ peer = ⟨c, pending.getD "", false, pending.isSome⟩) ∨ v.heap q = some peer := by
    intro q peer known
    rw [set_heap] at known
    split at known
    · next same =>
      cases known
      exact .inl ⟨same, rfl⟩
    · exact .inr known
  have known : ∀ d q, update v.peers c (some fresh) d = some q → (d = c ∧ q = fresh) ∨ v.peers d = some q := by
    intro d q found
    by_cases same : d = c
    · subst same
      rw [update_self] at found
      cases found
      exact .inl ⟨rfl, rfl⟩
    · rw [update_of_ne same] at found
      exact .inr found
  have more : ∀ d q, v.peers d = some q → update v.peers c (some fresh) d = some q := by
    intro d q published
    rw [update_of_ne]
    · exact published
    · rintro rfl
      cases free.symm.trans published
  have stay : ∀ phase d q, v.aim phase = some (d, q) →
      View.aim { v with peers := update v.peers c (some fresh) } phase = some (d, q) := by
    intro phase d q aims
    cases phase with
    | promoting =>
      obtain ⟨r, published, same⟩ := map_eq_some_iff.mp aims
      cases same
      exact map_eq_some_iff.mpr ⟨q, more d q published, rfl⟩
    | waking => exact aims
    | _ => cases aims
  have calm : Calm v ({ v with peers := update v.peers c (some fresh) }.set fresh
      ⟨c, pending.getD "", false, pending.isSome⟩) := by
    refine ⟨rfl, ?_, (fun _ _ _ _ _ phase there inside => ⟨phase, there, inside⟩), ?_⟩
    · intro q peer there held
      rcases found q peer there with ⟨-, rfl⟩ | old
      · rw [unheld] at held
        cases held
      · exact ⟨peer, old, held, rfl, fun leased => leased⟩
    · rintro other phase d q there aims ⟨peer, there', held⟩
      refine ⟨phase, there, ?_⟩
      rcases found q peer there' with ⟨-, rfl⟩ | old
      · rw [unheld] at held
        cases held
      · rw [set_aim] at aims
        cases phase with
        | promoting =>
          obtain ⟨r, published, same⟩ := map_eq_some_iff.mp aims
          cases same
          rcases known d q published with ⟨-, rfl⟩ | published
          · cases new.symm.trans old
          · exact map_eq_some_iff.mpr ⟨q, published, rfl⟩
        | waking => exact aims
        | _ => cases aims
  have leaves : ∀ before after, v.calls call = some before → after.quiet = false → before ≠ after := by
    rintro before after there loud rfl
    cases here.symm.trans there
    cases loud
  have kept : ∀ other after, v.calls other = some after → after.quiet = false →
      (View.move ({ v with peers := update v.peers c (some fresh) }.set fresh
        ⟨c, pending.getD "", false, pending.isSome⟩) call
        (if pending.isSome then some (.claiming c fresh send) else afterEnsure c send)).calls other = some after := by
    intro other after there loud
    exact move_keeps (v := { v with peers := update v.peers c (some fresh) }.set fresh
      ⟨c, pending.getD "", false, pending.isSome⟩) there fun before was => leaves before after was loud
  refine (calm.move call _ ?_).orderly orderly ?_ ?_ ?_ ?_
  · intro after d moved inside
    split at moved
    · cases moved
      cases inside
    · rw [quiet_inside (after_ensure_quiet (v := v) moved).1] at inside
      cases inside
  · intro other after d q there target
    rw [move_calls] at there
    split at there
    · split at there
      · cases there
        cases target
        exact ⟨_, (set_heap _ _ _ _).trans (if_pos rfl), rfl⟩
      · obtain ⟨request, -, rfl⟩ := map_eq_some_iff.mp there
        cases target
    · obtain ⟨peer, old, conv⟩ := orderly.owned other after d q there target
      exact ⟨peer, stored q peer old, conv⟩
  · intro d q published
    rcases known d q published with ⟨rfl, rfl⟩ | published
    · exact ⟨_, (set_heap _ _ _ _).trans (if_pos rfl), rfl⟩
    · obtain ⟨peer, old, conv⟩ := orderly.published d q published
      exact ⟨peer, stored q peer old, conv⟩
  · intro q peer there locked
    rcases found q peer there with ⟨rfl, rfl⟩ | old
    · refine ⟨call, send, ?_⟩
      rw [move_calls, if_pos rfl]
      exact if_pos locked
    · obtain ⟨other, later, claiming⟩ := orderly.locked q peer old locked
      exact ⟨other, later, kept other _ claiming rfl⟩
  · intro d q peer published there busy unlocked unleased
    rcases found q peer there with ⟨rfl, rfl⟩ | old
    · have none : Peer.holding ⟨c, pending.getD "", false, pending.isSome⟩ = true :=
        decide_eq_true (.inr ⟨busy, unlocked⟩)
      rw [unheld] at none
      cases none
    · rcases known d q published with ⟨-, rfl⟩ | published
      · cases new.symm.trans old
      · rcases orderly.waiting d q peer published old busy unlocked unleased with queued | ⟨other, after, was, aims⟩
        · exact .inl queued
        · refine .inr ⟨other, after, kept other after was ?_, ?_⟩
          · cases quiet : after.quiet with
            | false => rfl
            | true => exact absurd rfl (quiet_unaimed quiet aims)
          · rw [move_aim, set_aim]
            exact stay after d q aims

theorem set_owned {q : String} {before : Peer} (known : v.heap p = some before)
    (conv : peer.convID = before.convID) (owned : ∃ other, v.heap q = some other ∧ other.convID = c) :
    ∃ other, (v.set p peer).heap q = some other ∧ other.convID = c := by
  obtain ⟨other, found, same⟩ := owned
  rw [set_heap]
  split
  · next here =>
    subst here
    cases found.symm.trans known
    exact ⟨peer, rfl, conv.trans same⟩
  · exact ⟨other, found, same⟩

section
variable (orderly : Orderly turnLimit v)
include orderly

theorem accept_orderly {request : String}
    (here : v.calls call = some (.sending c p request)) (known : v.heap p = some peer) :
    Orderly turnLimit ((v.set p { peer with activeChat := request, locked := true }).move call
      (some (.claiming c p none))) := by
  have conv : peer.convID = c := by
    obtain ⟨same, found, conv⟩ := orderly.owned call _ c p here rfl
    cases known.symm.trans found
    exact conv
  have calm : Calm v (v.set p { peer with activeChat := request, locked := true }) := by
    refine calm_set known rfl ?_ fun leased => leased
    intro held
    refine lease_holding ?_
    simpa [Peer.holding] using held
  have leaves : ∀ before after, v.calls call = some before → after.quiet = false → before ≠ after := by
    rintro before after there loud rfl
    cases here.symm.trans there
    cases loud
  refine (calm.move call _ ?_).orderly orderly ?_ ?_ ?_ ?_
  · rintro _ d ⟨⟩ ⟨⟩
  · intro other after d q there target
    rw [move_calls] at there
    split at there
    · cases there
      cases target
      exact set_owned known rfl ⟨peer, known, conv⟩
    · exact set_owned known rfl (orderly.owned other after d q there target)
  · intro d q published
    exact set_owned known rfl (orderly.published d q published)
  · intro q other stored locked
    change (v.set p _).heap q = some other at stored
    rw [set_heap] at stored
    split at stored
    · next same =>
      cases stored
      refine ⟨call, none, ?_⟩
      rw [move_calls, if_pos rfl, same]
      exact congrArg (fun d => some (Phase.claiming d p none)) conv.symm
    · obtain ⟨beside, send, claiming⟩ := orderly.locked q other stored locked
      exact ⟨beside, send, move_keeps (v := v.set p _) claiming fun before was => leaves before _ was rfl⟩
  · intro d q other published stored busy unlocked unleased
    change (v.set p _).heap q = some other at stored
    rw [set_heap] at stored
    split at stored
    · cases stored
      cases unlocked
    · rcases orderly.waiting d q other published stored busy unlocked unleased with queued | ⟨beside, after, was, aims⟩
      · exact .inl queued
      · refine .inr ⟨beside, after, move_keeps (v := v.set p _) was fun before now => ?_, ?_⟩
        · cases here.symm.trans now
          exact quiet_unaimed rfl aims
        · rw [move_aim, set_aim]
          exact aims

theorem clear_orderly (outside : ∀ before, v.calls call = some before → before.quiet)
    (known : v.heap p = some peer) (free : peer.locked = false)
    (onward : phase = none ∨ phase = some (.releasing peer.convID) ∧ peer.holding) :
    Orderly turnLimit ((v.set p (cleared peer)).move call phase) := by
  have unheld : (cleared peer).holding = false := by simp [cleared, Peer.holding]
  have calm : Calm v (v.set p (cleared peer)) := by
    refine calm_set known rfl ?_ ?_
    · intro held
      rw [unheld] at held
      cases held
    · rintro ⟨⟩
  refine (calm.move call _ ?_).orderly orderly ?_ ?_ ?_ ?_
  · intro after d moved inside
    rcases onward with rfl | ⟨rfl, held⟩
    · cases moved
    · cases moved
      cases inside
      refine .inr ⟨rfl, fun q other stored holding same => ?_⟩
      -- Nobody else held a turn of this conversation.
      rw [set_heap] at stored
      split at stored
      · cases stored
        rw [unheld] at holding
        cases holding
      · next apart => exact apart (orderly.single q p other peer stored known holding held same)
  · intro other after d q there target
    rw [move_calls] at there
    split at there
    · rcases onward with rfl | ⟨rfl, -⟩
      · cases there
      · cases there
        cases target
    · exact set_owned known rfl (orderly.owned other after d q there target)
  · intro d q published
    exact set_owned known rfl (orderly.published d q published)
  · intro q other stored locked
    change (v.set p _).heap q = some other at stored
    rw [set_heap] at stored
    split at stored
    · cases stored
      rw [show (cleared peer).locked = peer.locked from rfl, free] at locked
      cases locked
    · obtain ⟨beside, send, claiming⟩ := orderly.locked q other stored locked
      refine ⟨beside, send, move_keeps (v := v.set p _) claiming fun before was => ?_⟩
      exact quiet_apart (outside before was) _ _ _
  · intro d q other published stored busy unlocked unleased
    change (v.set p _).heap q = some other at stored
    rw [set_heap] at stored
    split at stored
    · cases stored
      exact absurd rfl busy
    · rcases orderly.waiting d q other published stored busy unlocked unleased with queued | ⟨beside, after, was, aims⟩
      · exact .inl queued
      · refine .inr ⟨beside, after, move_keeps (v := v.set p _) was fun before now => ?_, ?_⟩
        · exact quiet_unaimed (outside before now) aims
        · rw [move_aim, set_aim]
          exact aims

theorem hand_orderly (here : v.calls call = some before) (within : before.inside = some c) (still : after.inside = some c)
    (aimed : ∀ d p, v.aim after = some (d, p) → v.aim before = some (d, p))
    (owned : ∀ d p, after.target = some (d, p) → v.peers d = some p)
    (serves : ∀ p peer, v.peers c = some p → v.heap p = some peer → peer.activeChat ≠ "" → peer.locked = false →
      v.aim before = some (c, p) → v.aim after = some (c, p)) : Orderly turnLimit (v.move call (some after)) := by
  have loud : ∀ d q send, before ≠ .claiming d q send := by
    rintro d q send rfl
    cases within
  have calm : Calm v (v.move call (some after)) := by
    refine (calm_refl v).move call _ fun phase d moved inside => ?_
    cases moved
    cases still.symm.trans inside
    exact .inl ⟨before, here, within, aimed⟩
  refine calm.orderly orderly ?_ orderly.published ?_ ?_
  · intro other phase d q there target
    rw [move_calls] at there
    split at there
    · cases there
      exact orderly.published d q (owned d q target)
    · exact orderly.owned other phase d q there target
  · intro q peer known locked
    obtain ⟨other, send, there⟩ := orderly.locked q peer known locked
    refine ⟨other, send, move_keeps there fun phase was => ?_⟩
    cases here.symm.trans was
    exact loud _ _ _
  · intro d q peer published known busy free unleased
    rcases orderly.waiting d q peer published known busy free unleased with queued | ⟨other, phase, there, aims⟩
    · exact .inl queued
    · by_cases same : other = call
      · subst same
        cases here.symm.trans there
        cases within.symm.trans (aim_inside aims)
        refine .inr ⟨other, after, ?_, ?_⟩
        · rw [move_calls, if_pos rfl]
        · rw [move_aim]
          exact serves q peer published known busy free aims
      · refine .inr ⟨other, phase, ?_, ?_⟩
        · rw [move_calls, if_neg same]
          exact there
        · rw [move_aim]
          exact aims

theorem release_orderly (here : v.calls call = some (.releasing c)) :
    Orderly turnLimit ({ v with slots := (releaseRound turnLimit v.slots c).1 }.move call
      ((releaseRound turnLimit v.slots c).2.map .promoting)) := by
  have released := release_released orderly.slots c
  have sound := release_sound orderly.slots c
  generalize releaseRound turnLimit v.slots c = round at released sound ⊢
  have busy : ∀ d, v.Idle d → d ≠ c := by
    rintro d idle rfl
    exact idle call _ here rfl
  -- Who is inside afterwards was so before, or is this handler with the conversation that it promotes.
  have inside : ∀ other after d, (View.move { v with slots := round.1 } call (round.2.map .promoting)).calls other =
      some after → after.inside = some d → (other ≠ call ∧ v.calls other = some after) ∨
        (other = call ∧ round.2 = some d ∧ after = .promoting d) := by
    intro other after d there inside
    rw [move_calls] at there
    split at there
    · next same =>
      obtain ⟨e, promoted, rfl⟩ := map_eq_some_iff.mp there
      cases inside
      exact .inr ⟨same, promoted, rfl⟩
    · next apart => exact .inl ⟨apart, there⟩
  have idle : ∀ d, v.Idle d → round.2 ≠ some d →
      View.Idle (View.move { v with slots := round.1 } call (round.2.map .promoting)) d := by
    intro d idle passed other after there within
    rcases inside other after d there within with ⟨-, was⟩ | ⟨-, promoted, -⟩
    · exact idle other after was within
    · exact passed promoted
  have promoted : ∀ d ∈ v.slots.turnActive, round.2 ≠ some d := by
    intro d active chosen
    exact orderly.slots.apart d (released.promoted d chosen).2.1 active
  refine ⟨sound, ?_, orderly.published, ?_, ?_, orderly.single, ?_, ?_, ?_⟩
  · intro other after d q there target
    rw [move_calls] at there
    split at there
    · obtain ⟨e, -, rfl⟩ := map_eq_some_iff.mp there
      cases target
    · exact orderly.owned other after d q there target
  · intro q peer known locked
    obtain ⟨other, send, claiming⟩ := orderly.locked q peer known locked
    refine ⟨other, send, move_keeps (v := { v with slots := round.1 }) claiming fun before was => ?_⟩
    cases here.symm.trans was
    intro same
    cases same
  · intro q peer known leased
    obtain ⟨active, nobody⟩ := orderly.leased q peer known leased
    exact ⟨released.active _ active (busy _ nobody), idle _ nobody (promoted _ active)⟩
  · intro q peer known holding queued
    have before := (released.queued _ queued).1
    refine idle _ (orderly.queued q peer known holding before) fun chosen => ?_
    exact (released.promoted _ chosen).2.2 queued
  · intro other after d q peer there aims known holding
    have aimed : v.aim after = some (d, q) := aims
    rcases inside other after d there (aim_inside aimed) with ⟨apart, was⟩ | ⟨rfl, chosen, rfl⟩
    · obtain ⟨active, alone⟩ := orderly.aimed other after d q peer was aimed known holding
      have beside : d ≠ c := by
        rintro rfl
        exact apart (alone call _ here rfl).symm
      refine ⟨released.active d active beside, fun third later beside within => ?_⟩
      rcases inside third later d beside within with ⟨-, was⟩ | ⟨-, chosen, -⟩
      · exact alone third later was within
      · exact absurd chosen (promoted d active)
    · obtain ⟨active, queued, -⟩ := released.promoted d chosen
      refine ⟨active, fun third later beside within => ?_⟩
      rcases inside third later d beside within with ⟨-, was⟩ | ⟨same, -⟩
      · obtain ⟨r, published, same⟩ := map_eq_some_iff.mp aimed
        cases same
        obtain ⟨same, found, conv⟩ := orderly.published d q published
        cases found.symm.trans known
        subst conv
        exact absurd within (orderly.queued q peer known holding queued third later was)
      · exact same
  · intro d q peer published known active free unleased
    rcases orderly.waiting d q peer published known active free unleased with queued | ⟨other, after, there, aims⟩
    · obtain ⟨same, found, conv⟩ := orderly.published d q published
      cases found.symm.trans known
      subst conv
      have nobody := orderly.queued q peer known (decide_eq_true (.inr ⟨active, free⟩)) queued
      rcases released.kept _ queued (busy _ nobody) with still | chosen
      · exact .inl still
      · refine .inr ⟨call, .promoting peer.convID, ?_, ?_⟩
        · rw [move_calls, if_pos rfl, chosen]
          rfl
        · exact map_eq_some_iff.mpr ⟨q, published, rfl⟩
    · refine .inr ⟨other, after, move_keeps (v := { v with slots := round.1 }) there fun before was => ?_, aims⟩
      cases here.symm.trans was
      rintro rfl
      cases aims

theorem wake_orderly (here : v.calls call = some (.waking c p)) (known : v.heap p = some peer) (free : peer.locked = false)
    (busy : peer.activeChat ≠ "") :
    Orderly turnLimit ((v.set p { peer with turnLease := true }).move call none) := by
  have held : peer.holding := decide_eq_true (.inr ⟨busy, free⟩)
  obtain ⟨active, alone⟩ := orderly.aimed call _ c p peer here rfl known held
  have conv : peer.convID = c := by
    obtain ⟨same, found, conv⟩ := orderly.owned call _ c p here rfl
    cases known.symm.trans found
    exact conv
  have fewer : ∀ other after, ((v.set p { peer with turnLease := true }).move call none).calls other = some after →
      other ≠ call ∧ v.calls other = some after := by
    intro other after there
    rw [move_calls] at there
    split at there
    · cases there
    · next apart => exact ⟨apart, there⟩
  have stored : ∀ q other, ((v.set p { peer with turnLease := true }).move call none).heap q = some other →
      (q = p ∧ other = { peer with turnLease := true }) ∨ (q ≠ p ∧ v.heap q = some other) := by
    intro q other there
    change (v.set p _).heap q = some other at there
    rw [set_heap] at there
    split at there
    · next same =>
      cases there
      exact .inl ⟨same, rfl⟩
    · next apart => exact .inr ⟨apart, there⟩
  have holders : ∀ q other, ((v.set p { peer with turnLease := true }).move call none).heap q = some other →
      other.holding → ∃ before, v.heap q = some before ∧ before.holding ∧ before.convID = other.convID := by
    intro q other there holding
    rcases stored q other there with ⟨rfl, rfl⟩ | ⟨-, old⟩
    · exact ⟨peer, known, held, rfl⟩
    · exact ⟨other, old, holding, rfl⟩
  have idle : ∀ d, v.Idle d → View.Idle ((v.set p { peer with turnLease := true }).move call none) d :=
    fun d idle other after there => idle other after (fewer other after there).2
  refine ⟨orderly.slots, ?_, ?_, ?_, ?_, ?_, ?_, ?_, ?_⟩
  · intro other after d q there target
    exact set_owned known rfl (orderly.owned other after d q (fewer other after there).2 target)
  · intro d q published
    exact set_owned known rfl (orderly.published d q published)
  · intro q other there locked
    rcases stored q other there with ⟨rfl, rfl⟩ | ⟨-, old⟩
    · rw [show ({ peer with turnLease := true } : Peer).locked = peer.locked from rfl, free] at locked
      cases locked
    · obtain ⟨beside, send, claiming⟩ := orderly.locked q other old locked
      refine ⟨beside, send, move_keeps (v := v.set p _) claiming fun before was => ?_⟩
      cases here.symm.trans was
      intro same
      cases same
  · intro q other there leased
    rcases stored q other there with ⟨rfl, rfl⟩ | ⟨-, old⟩
    · refine ⟨conv ▸ active, fun third after there inside => ?_⟩
      obtain ⟨apart, was⟩ := fewer third after there
      exact apart (alone third after was (inside.trans (congrArg some conv)))
    · exact ⟨(orderly.leased q other old leased).1, idle _ (orderly.leased q other old leased).2⟩
  · intro q r first second there also holding too same
    obtain ⟨before, old, was, convs⟩ := holders q first there holding
    obtain ⟨early, older, as, convs'⟩ := holders r second also too
    exact orderly.single q r before early old older was as (convs.trans (same.trans convs'.symm))
  · intro q other there holding queued
    obtain ⟨before, old, was, convs⟩ := holders q other there holding
    rw [← convs] at queued ⊢
    exact idle _ (orderly.queued q before old was queued)
  · intro other after d q third there aims known' holding
    obtain ⟨before, old, was, -⟩ := holders q third known' holding
    obtain ⟨apart, already⟩ := fewer other after there
    rw [move_aim, set_aim] at aims
    obtain ⟨active, alone⟩ := orderly.aimed other after d q before already aims old was
    refine ⟨active, fun fourth later beside inside => ?_⟩
    exact alone fourth later (fewer fourth later beside).2 inside
  · intro d q other published there active unlocked unleased
    rcases stored q other there with ⟨rfl, rfl⟩ | ⟨apart, old⟩
    · cases unleased
    · rcases orderly.waiting d q other published old active unlocked unleased with queued | ⟨beside, after, was, aims⟩
      · exact .inl queued
      · refine .inr ⟨beside, after, move_keeps (v := v.set p _) was fun before now => ?_, ?_⟩
        · cases here.symm.trans now
          rintro rfl
          cases aims
          exact apart rfl
        · rw [move_aim, set_aim]
          exact aims

theorem claim_orderly (here : v.calls call = some (.claiming c p send)) (known : v.heap p = some peer) (idle : v.Idle c)
    (others : ∀ q other, q ≠ p → v.heap q = some other → other.convID = c → other.holding = false) :
    Orderly turnLimit (({ v with slots := (claimTurn turnLimit v.slots c).2 }.set p
      { peer with turnLease := (claimTurn turnLimit v.slots c).1, locked := false }).move call
        (afterEnsure c send)) := by
  have claimed := claim_claimed turnLimit v.slots c
  have sound := claim_sound orderly.slots c
  generalize claimTurn turnLimit v.slots c = answer at claimed sound ⊢
  have conv : peer.convID = c := by
    obtain ⟨same, found, conv⟩ := orderly.owned call _ c p here rfl
    cases known.symm.trans found
    exact conv
  have stored : ∀ q other, (View.set { v with slots := answer.2 } p
      { peer with turnLease := answer.1, locked := false }).heap q = some other →
      (q = p ∧ other = { peer with turnLease := answer.1, locked := false }) ∨ (q ≠ p ∧ v.heap q = some other) := by
    intro q other there
    rw [set_heap] at there
    split at there
    · next same =>
      cases there
      exact .inl ⟨same, rfl⟩
    · next apart => exact .inr ⟨apart, there⟩
  have inside : ∀ other after d, (View.move (View.set { v with slots := answer.2 } p
      { peer with turnLease := answer.1, locked := false }) call (afterEnsure c send)).calls other = some after →
      after.inside = some d → v.calls other = some after := by
    intro other after d there inside
    rw [move_calls] at there
    split at there
    · rw [quiet_inside (after_ensure_quiet (v := v) there).1] at inside
      cases inside
    · exact there
  have stays : ∀ d, v.Idle d → View.Idle (View.move (View.set { v with slots := answer.2 } p
      { peer with turnLease := answer.1, locked := false }) call (afterEnsure c send)) d := by
    intro d idle other after there within
    exact idle other after (inside other after d there within) within
  refine ⟨sound, ?_, ?_, ?_, ?_, ?_, ?_, ?_, ?_⟩
  · intro other after d q there target
    rw [move_calls] at there
    split at there
    · obtain ⟨request, -, rfl⟩ := map_eq_some_iff.mp there
      cases target
    · exact set_owned (v := { v with slots := answer.2 }) known rfl (orderly.owned other after d q there target)
  · intro d q published
    exact set_owned (v := { v with slots := answer.2 }) known rfl (orderly.published d q published)
  · intro q other there locked
    rcases stored q other there with ⟨-, rfl⟩ | ⟨apart, old⟩
    · cases locked
    · obtain ⟨beside, later, claiming⟩ := orderly.locked q other old locked
      refine ⟨beside, later, move_keeps (v := View.set { v with slots := answer.2 } p _) claiming fun before was => ?_⟩
      cases here.symm.trans was
      intro same
      cases same
      exact apart rfl
  · intro q other there leased
    rcases stored q other there with ⟨-, rfl⟩ | ⟨-, old⟩
    · refine ⟨conv ▸ claimed.granted leased, ?_⟩
      rw [show ({ peer with turnLease := answer.1, locked := false } : Peer).convID = peer.convID from rfl, conv]
      exact stays c idle
    · obtain ⟨active, nobody⟩ := orderly.leased q other old leased
      exact ⟨claimed.active _ active, stays _ nobody⟩
  · intro q r first second there also holding too same
    rcases stored q first there with ⟨rfl, rfl⟩ | ⟨apart, old⟩
    · rcases stored r second also with ⟨rfl, rfl⟩ | ⟨beside, older⟩
      · rfl
      · rw [others r second beside older (same.symm.trans conv)] at too
        cases too
    · rcases stored r second also with ⟨rfl, rfl⟩ | ⟨-, older⟩
      · rw [others q first apart old (same.trans conv)] at holding
        cases holding
      · exact orderly.single q r first second old older holding too same
  · intro q other there holding queued
    rcases stored q other there with ⟨-, rfl⟩ | ⟨apart, old⟩
    · rw [show ({ peer with turnLease := answer.1, locked := false } : Peer).convID = peer.convID from rfl, conv]
      exact stays c idle
    · rcases claimed.queued _ queued with before | same
      · exact stays _ (orderly.queued q other old holding before)
      · rw [others q other apart old same] at holding
        cases holding
  · intro other after d q third there aims known' holding
    rw [move_aim, set_aim] at aims
    have aimed : v.aim after = some (d, q) := aims
    have was := inside other after d there (aim_inside aimed)
    rcases stored q third known' with ⟨rfl, rfl⟩ | ⟨apart, old⟩
    · obtain ⟨found, same, convs⟩ := aim_owned orderly.owned orderly.published other after d q was aimed
      cases same.symm.trans known
      exact absurd ((aim_inside aimed).trans (congrArg some (convs.symm.trans conv))) (idle other after was)
    · obtain ⟨active, alone⟩ := orderly.aimed other after d q third was aimed old holding
      refine ⟨claimed.active d active, fun fourth later beside within => ?_⟩
      exact alone fourth later (inside fourth later d beside within) within
  · intro d q other published there active unlocked unleased
    rcases stored q other there with ⟨rfl, rfl⟩ | ⟨-, old⟩
    · obtain ⟨found, same, convs⟩ := orderly.published d q published
      cases same.symm.trans known
      refine .inl ?_
      rw [← convs, conv]
      exact claimed.waits unleased
    · rcases orderly.waiting d q other published old active unlocked unleased with queued | ⟨beside, after, was, aims⟩
      · exact .inl (claimed.kept d queued)
      · refine .inr ⟨beside, after, ?_, ?_⟩
        · refine move_keeps (v := View.set { v with slots := answer.2 } p _) was fun before now => ?_
          cases here.symm.trans now
          rintro rfl
          cases aims
        · rw [move_aim, set_aim]
          exact aims

end

end Steps

/-- A turn is claimed when nobody else deals with one of the same conversation: no handler is inside of
    `releaseTurn` for it, and no other peer of it has a lease or waits for one. -/
def unshared (w : World) : Action → Bool
  | .claim call =>
    match w.calls.lookup call with
    | some (.claiming c p _) =>
      (values w.calls).all (fun phase => phase.inside ≠ some c) ∧
        w.heap.entries.all (fun entry => entry.1 = p ∨ entry.2.convID ≠ c ∨ entry.2.holding = false)
    | _ => true
  | _ => true

theorem unshared_claim {call : String} (alone : unshared w (.claim call))
    (here : (view w).calls call = some (.claiming c p send)) : (view w).Idle c ∧
      ∀ q other, q ≠ p → (view w).heap q = some other → other.convID = c → other.holding = false := by
  have found : w.calls.lookup call = some (.claiming c p send) := here
  simp only [unshared, found, List.all_eq_true, decide_eq_true_eq] at alone
  refine ⟨fun other phase there => ?_, fun q other apart stored same => ?_⟩
  · exact alone.1 phase (ControlPlane.mem_values.mpr ⟨other, there⟩)
  · have listed := alone.2 ⟨q, other⟩ (AList.mem_lookup_iff.mp stored)
    exact (listed.resolve_left apart).resolve_left (not_not.mpr same)

theorem step_orderly {next : World} {action : Action} (alone : unshared w action)
    (orderly : Orderly turnLimit (view w)) (stepped : step turnLimit w action = some next) :
    Orderly turnLimit (view next) := by
  have moved := step_moves stepped
  generalize view next = after at moved ⊢
  cases moved with
  | rest => exact orderly
  | pass outside onward =>
    refine pass_orderly orderly outside fun phase moved => ⟨(onward phase moved).1, fun c p target => ?_⟩
    exact orderly.published c p ((onward phase moved).2 c p target)
  | unpublish idle known => exact unpublish_orderly orderly idle known
  | publish here free new => exact publish_orderly orderly here free new
  | claim here known =>
    obtain ⟨idle, others⟩ := unshared_claim alone here
    exact claim_orderly orderly here known idle others
  | accept here known => exact accept_orderly orderly here known
  | clear outside known free onward => exact clear_orderly orderly outside known free onward
  | release here => exact release_orderly orderly here
  | lose here none =>
    refine hand_orderly orderly here rfl rfl ?_ ?_ ?_
    · rintro d p ⟨⟩
    · rintro d p ⟨⟩
    · intro p peer published
      rw [none] at published
      cases published
  | aim here known =>
    refine hand_orderly orderly here rfl rfl ?_ ?_ ?_
    · rintro d p ⟨⟩
      exact map_eq_some_iff.mpr ⟨_, known, rfl⟩
    · rintro d p ⟨⟩
      exact known
    · intro p peer published _ _ _ _
      rw [known] at published
      cases published
      rfl
  | drop here known _ none =>
    refine hand_orderly orderly here rfl rfl ?_ ?_ ?_
    · rintro d p ⟨⟩
    · rintro d p ⟨⟩
    · rintro p peer _ found busy _ ⟨⟩
      cases known.symm.trans found
      exact absurd none busy
  | wake here known free busy => exact wake_orderly orderly here known free busy

def opened : World := ⟨fun _ => none, ∅, ⟨∅, []⟩, ∅⟩

theorem opened_orderly (turnLimit : Nat) : Orderly turnLimit (view opened) where
  slots := ⟨Nat.zero_le turnLimit, nodup_nil, nofun⟩
  owned _ _ _ _ there := by cases there
  published _ _ there := by cases there
  locked _ _ there := by cases there
  leased _ _ there := by cases there
  single _ _ _ _ there := by cases there
  queued _ _ there := by cases there
  aimed _ _ _ _ _ there := by cases there
  waiting _ _ _ there := by cases there

structure Fair (turnLimit : Nat) (w : World) : Prop where
  bounded : ∀ leasing : Finset String, (∀ c ∈ leasing, ∃ p peer, w.peers c = some p ∧ w.heap.lookup p = some peer ∧
    peer.turnLease) → leasing.card ≤ turnLimit
  slotted : ∀ c p peer, w.peers c = some p → w.heap.lookup p = some peer → peer.turnLease →
    c ∈ w.slots.turnActive
  apart : ∀ c ∈ w.slots.turnQueue, c ∉ w.slots.turnActive
  nodup : w.slots.turnQueue.Nodup
  served : ∀ c p peer, w.peers c = some p → w.heap.lookup p = some peer → peer.activeChat ≠ "" →
    peer.turnLease ∨ c ∈ w.slots.turnQueue

theorem orderly_fair (orderly : Orderly turnLimit (view w))
    (quiet : ∀ call, w.calls.lookup call = none) : Fair turnLimit w := by
  have slotted : ∀ c p peer, w.peers c = some p → w.heap.lookup p = some peer → peer.turnLease →
      c ∈ w.slots.turnActive := by
    intro c p peer published known leased
    obtain ⟨same, found, conv⟩ := orderly.published c p published
    cases found.symm.trans known
    exact conv ▸ (orderly.leased p peer known leased).1
  refine ⟨fun leasing each => ?_, slotted, orderly.slots.apart, orderly.slots.nodup, ?_⟩
  · have inside : leasing ⊆ w.slots.turnActive := by
      intro c member
      obtain ⟨p, peer, published, known, leased⟩ := each c member
      exact slotted c p peer published known leased
    exact Nat.le_trans (Finset.card_le_card inside) orderly.slots.bounded
  · intro c p peer published known busy
    have free : peer.locked = false := by
      cases locked : peer.locked with
      | false => rfl
      | true =>
        obtain ⟨call, send, claiming⟩ := orderly.locked p peer known locked
        cases (quiet call).symm.trans claiming
    cases leased : peer.turnLease with
    | true => exact .inl rfl
    | false =>
      rcases orderly.waiting c p peer published known busy free leased with queued | ⟨call, phase, there, -⟩
      · exact .inr queued
      · cases (quiet call).symm.trans there

/-- Where turns are claimed only while nobody else deals with one of the same conversation, the slots are in order
    whenever no handler is under way. -/
theorem turn_slots_kept (turnLimit : Nat) (actions : List Action) (w : World)
    (alone : Guarded (step turnLimit) (fun w action => unshared w action) opened actions)
    (ran : run (step turnLimit) opened actions = some w) (quiet : ∀ call, w.calls.lookup call = none) :
    Fair turnLimit w := by
  refine orderly_fair ?_ quiet
  refine guarded_run_invariant (fun w => Orderly turnLimit (view w)) ?_ alone ran (opened_orderly turnLimit)
  exact fun _ _ _ alone orderly stepped => step_orderly alone orderly stepped

def firstTurn : List Action :=
  [.ensure "send" "a" none (some "r1"), .publish "send" "p", .seek "send", .accept "send" true, .claim "send"]

/-- The next request comes after the completion of the first one has cleared the peer and before it releases the
    turn. -/
def overtaken : List Action :=
  firstTurn ++ [.complete "loop" "p" true, .ensure "next" "a" none (some "r2"), .publish "next" "q", .seek "next",
    .accept "next" true, .claim "next", .release "loop"]

theorem no_calls (empty : w.calls.keys = []) : ∀ call, w.calls.lookup call = none := by
  intro call
  refine AList.lookup_eq_none.mpr fun member => ?_
  have listed := AList.mem_keys.mp member
  rw [empty] at listed
  cases listed

theorem first_turn_kept : ∃ w, run (step 1) opened firstTurn = some w ∧ Fair 1 w := by
  obtain ⟨w, ran, empty⟩ := map_eq_some_iff.mp (show (run (step 1) opened firstTurn).map
    (fun w => w.calls.keys) = some [] by decide +kernel)
  refine ⟨w, ran, turn_slots_kept 1 firstTurn w ?_ ran (no_calls empty)⟩
  exact checked_guarded unshared (fun _ _ passed => passed) _ _ (by decide +kernel)

theorem lease_without_slot : ¬ ∀ (turnLimit : Nat) (actions : List Action) (w : World),
    run (step turnLimit) opened actions = some w → (∀ call, w.calls.lookup call = none) → Fair turnLimit w := by
  intro claimed
  obtain ⟨w, ran, outcome⟩ := map_eq_some_iff.mp (show (run (step 1) opened overtaken).map (fun w =>
    (w.calls.keys, w.peers "a", (w.heap.lookup "p").map Peer.turnLease, decide ("a" ∈ w.slots.turnActive))) =
    some ([], some "p", some true, false) by decide +kernel)
  simp only [Prod.mk.injEq, decide_eq_false_iff_not] at outcome
  obtain ⟨empty, published, leased, idle⟩ := outcome
  obtain ⟨peer, known, leased⟩ := map_eq_some_iff.mp leased
  exact idle ((claimed 1 overtaken w ran (no_calls empty)).slotted "a" "p" peer published known leased)

end PieRelay.ChatTurns
