import PieRelay.ChatMoves

/-!
The locks of the peers of a conversation. Who has one is alone with it, and a peer that is found idle stays
idle until the lock is let go. A peer is never published twice.
-/
namespace PieRelay.ChatLocks
open ChatConversation
open ChatMoves
open Executions
open Function

def Phase.calm : Phase → Bool
  | .checked _ message => message.type = "chat"
  | .inactive .. => true
  | .closing .. => true
  | _ => false

structure Held (published : Option String) (heap : String → Option Peer) (calls : String → Option Phase) : Prop where
  locked : ∀ call phase p, calls call = some phase → Phase.holds phase = some p →
    ∃ peer, heap p = some peer ∧ peer.locked ∧ (Phase.calm phase → peer.activeChat = "")
  alone : ∀ first second phase other p, calls first = some phase → calls second = some other →
    Phase.holds phase = some p → Phase.holds other = some p → first = second
  shown : ∀ p, published = some p → ∃ peer, heap p = some peer
  stopped : ∀ call phase p, calls call = some phase → Phase.stops phase = some p →
    published ≠ some p ∧ ∃ peer, heap p = some peer
  named : ∀ call phase message, calls call = some phase → Phase.message phase = some message →
    message.requestID ≠ ""

variable {published : Option String} {heap : String → Option Peer} {calls : String → Option Phase}
variable {p call : String} {next peer : Peer} {action : Action}

theorem stored_update {q : String} (known : ∃ peer, heap q = some peer) :
    ∃ peer, update heap p (some next) q = some peer := by
  obtain ⟨peer, stored⟩ := known
  by_cases same : q = p
  · subst same
    exact ⟨next, update_self ..⟩
  · exact ⟨peer, (update_of_ne same ..).trans stored⟩

theorem moved_cases {other : String} {phase : Option Phase} {after : Phase}
    (there : update calls call phase other = some after) :
    (other = call ∧ phase = some after) ∨ (other ≠ call ∧ calls other = some after) := by
  rw [update_apply] at there
  split at there
  · next same => exact .inl ⟨same, there⟩
  · next apart => exact .inr ⟨apart, there⟩

section
variable (held : Held published heap calls)
include held

theorem held_set (known : heap p = some peer)
    (lock : next.locked = peer.locked) (chat : next.activeChat = peer.activeChat ∨ next.activeChat = "") :
    Held published (update heap p (some next)) calls where
  locked call phase q there holds := by
    obtain ⟨other, stored, locked, idle⟩ := held.locked call phase q there holds
    by_cases same : q = p
    · subst same
      cases known.symm.trans stored
      refine ⟨next, update_self .., lock.trans locked, fun calm => ?_⟩
      rcases chat with kept | empty
      · exact kept.trans (idle calm)
      · exact empty
    · exact ⟨other, (update_of_ne same ..).trans stored, locked, idle⟩
  alone := held.alone
  shown q shown := stored_update (held.shown q shown)
  stopped call phase q there stops := by
    obtain ⟨unshown, stored⟩ := held.stopped call phase q there stops
    exact ⟨unshown, stored_update stored⟩
  named := held.named

theorem held_move {phase : Option Phase} (onward : ∀ after, phase = some after → Phase.holds after = none ∧
      (∀ p, Phase.stops after = some p → published ≠ some p ∧ ∃ peer, heap p = some peer) ∧
      ∀ message, Phase.message after = some message → message.requestID ≠ "") :
    Held published heap (update calls call phase) where
  locked other after q there holds := by
    rcases moved_cases there with ⟨-, moved⟩ | ⟨-, before⟩
    · rw [(onward after moved).1] at holds
      cases holds
    · exact held.locked other after q before holds
  alone first second after other q there beside holds also := by
    rcases moved_cases there with ⟨-, moved⟩ | ⟨-, before⟩
    · rw [(onward after moved).1] at holds
      cases holds
    · rcases moved_cases beside with ⟨-, moved⟩ | ⟨-, older⟩
      · rw [(onward other moved).1] at also
        cases also
      · exact held.alone first second after other q before older holds also
  shown := held.shown
  stopped other after q there stops := by
    rcases moved_cases there with ⟨-, moved⟩ | ⟨-, before⟩
    · exact (onward after moved).2.1 q stops
    · exact held.stopped other after q before stops
  named other after message there carries := by
    rcases moved_cases there with ⟨-, moved⟩ | ⟨-, before⟩
    · exact (onward after moved).2.2 message carries
    · exact held.named other after message before carries

theorem held_hold {after : Phase} (known : heap p = some peer)
    (others : ∀ other phase, other ≠ call → calls other = some phase → Phase.holds phase ≠ some p)
    (lock : next.locked) (holds : Phase.holds after = some p)
    (idle : Phase.calm after → next.activeChat = "") (goes : Phase.stops after = none)
    (named : ∀ message, Phase.message after = some message → message.requestID ≠ "") :
    Held published (update heap p (some next)) (update calls call (some after)) where
  locked other phase q there has := by
    rcases moved_cases there with ⟨-, moved⟩ | ⟨apart, before⟩
    · cases moved
      cases holds.symm.trans has
      exact ⟨next, update_self .., lock, idle⟩
    · obtain ⟨stored, found, locked, calm⟩ := held.locked other phase q before has
      have apart : q ≠ p := by
        rintro rfl
        exact others other phase apart before has
      exact ⟨stored, (update_of_ne apart ..).trans found, locked, calm⟩
  alone first second phase other q there beside has also := by
    rcases moved_cases there with ⟨same, moved⟩ | ⟨apart, before⟩
    · cases moved
      cases holds.symm.trans has
      rcases moved_cases beside with ⟨too, -⟩ | ⟨aside, older⟩
      · exact same.trans too.symm
      · exact absurd also (others second other aside older)
    · rcases moved_cases beside with ⟨-, moved⟩ | ⟨-, older⟩
      · cases moved
        cases holds.symm.trans also
        exact absurd has (others first phase apart before)
      · exact held.alone first second phase other q before older has also
  shown q shown := stored_update (held.shown q shown)
  stopped other phase q there stops := by
    rcases moved_cases there with ⟨-, moved⟩ | ⟨-, before⟩
    · cases moved
      rw [goes] at stops
      cases stops
    · obtain ⟨unshown, stored⟩ := held.stopped other phase q before stops
      exact ⟨unshown, stored_update stored⟩
  named other phase message there carries := by
    rcases moved_cases there with ⟨-, moved⟩ | ⟨-, before⟩
    · cases moved
      exact named message carries
    · exact held.named other phase message before carries

theorem held_release {phase : Phase} {p : Option String}
    (here : calls call = some phase) (holds : Phase.holds phase = p) :
    Held published (fun q => if p = some q then (heap q).map fun peer => { peer with locked := false } else heap q)
      (update calls call none) where
  locked other after q there has := by
    rcases moved_cases there with ⟨-, moved⟩ | ⟨apart, before⟩
    · cases moved
    · have free : p ≠ some q := by
        intro same
        exact apart (held.alone other call after phase q before here has (holds.trans same))
      rw [if_neg free]
      exact held.locked other after q before has
  alone first second after other q there beside has also := by
    rcases moved_cases there with ⟨-, moved⟩ | ⟨-, before⟩
    · cases moved
    · rcases moved_cases beside with ⟨-, moved⟩ | ⟨-, older⟩
      · cases moved
      · exact held.alone first second after other q before older has also
  shown q shown := by
    obtain ⟨peer, stored⟩ := held.shown q shown
    rw [stored]
    split
    · exact ⟨_, rfl⟩
    · exact ⟨peer, rfl⟩
  stopped other after q there stops := by
    rcases moved_cases there with ⟨-, moved⟩ | ⟨-, before⟩
    · cases moved
    · obtain ⟨unshown, peer, stored⟩ := held.stopped other after q before stops
      rw [stored]
      refine ⟨unshown, ?_⟩
      split
      · exact ⟨_, rfl⟩
      · exact ⟨peer, rfl⟩
  named other after message there carries := by
    rcases moved_cases there with ⟨-, moved⟩ | ⟨-, before⟩
    · cases moved
    · exact held.named other after message before carries

theorem held_publish {fresh : String} (new : heap fresh = none) (peer : Peer) :
    Held (some fresh) (update heap fresh (some peer)) calls where
  locked call phase q there holds := by
    obtain ⟨other, stored, rest⟩ := held.locked call phase q there holds
    have apart : q ≠ fresh := by
      rintro rfl
      cases new.symm.trans stored
    exact ⟨other, (update_of_ne apart ..).trans stored, rest⟩
  alone := held.alone
  shown q shown := by
    cases shown
    exact ⟨peer, update_self ..⟩
  stopped call phase q there stops := by
    obtain ⟨-, other, stored⟩ := held.stopped call phase q there stops
    refine ⟨?_, stored_update ⟨other, stored⟩⟩
    rintro ⟨⟩
    cases new.symm.trans stored
  named := held.named

theorem held_unpublish : Held none heap calls where
  locked := held.locked
  alone := held.alone
  shown q shown := by cases shown
  stopped call phase q there stops := ⟨nofun, (held.stopped call phase q there stops).2⟩
  named := held.named

theorem unheld (known : heap p = some peer)
    (free : peer.locked = false) (other : String) (phase : Phase) (there : calls other = some phase) :
    Phase.holds phase ≠ some p := by
  intro holds
  obtain ⟨stored, found, locked, -⟩ := held.locked other phase p there holds
  cases known.symm.trans found
  rw [free] at locked
  cases locked

end

theorem turn_kept {shut : Bool} {journal after : ChatJournal.Journal}
    (turned : Turns shut journal p peer action next after) :
    next.locked = peer.locked ∧ next.cancelled = peer.cancelled ∧
      (next.activeChat = peer.activeChat ∨ next.activeChat = "") := by
  cases turned with
  | complete => exact ⟨rfl, rfl, .inr rfl⟩
  | _ => exact ⟨rfl, rfl, .inl rfl⟩

def View.Held (v : View) : Prop := ChatLocks.Held v.published v.heap v.calls

theorem moves_held {v next : View} (held : View.Held v) (moved : Moves v action next) : View.Held next := by
  cases moved with
  | rest => exact held
  | pass own outside onward =>
    refine held_move held fun after moved => ?_
    obtain ⟨free, goes, named⟩ := onward after moved
    refine ⟨free, fun p stops => ?_, fun message carries => ?_⟩
    · rw [goes] at stops
      cases stops
    · rcases named message carries with fresh | ⟨before, there, carried⟩
      · exact fresh
      · exact held.named _ before message there carried
  | publish here free new =>
    refine held_move (held_publish held new _) fun after moved => ?_
    obtain ⟨message, rfl, rfl⟩ := Option.map_eq_some_iff.mp moved
    refine ⟨rfl, ?_, ?_⟩
    · rintro p ⟨⟩
    · rintro request ⟨⟩
      exact held.named _ _ _ here rfl
  | enter here known free unshut idle =>
    refine held_hold held known ?_ rfl rfl ?_ rfl ?_
    · intro other phase _ there
      exact unheld held known free other phase there
    · exact fun calm => idle (of_decide_eq_true calm)
    · rintro request ⟨⟩
      exact held.named _ _ _ here rfl
  | accept here known =>
    refine held_hold held known ?_ ?_ rfl ?_ rfl ?_
    · intro other phase apart there holds
      exact apart (held.alone other _ phase _ _ there here holds rfl)
    · obtain ⟨stored, found, locked, -⟩ := held.locked _ _ _ here rfl
      cases known.symm.trans found
      unfold taken
      split
      · exact locked
      · exact locked
    · rintro ⟨⟩
    · rintro request ⟨⟩
  | release own here => exact held_release held here rfl
  | @unpublish call p peer idle shown known =>
    have kept : Held none (update v.heap p (some { peer with cancelled := true })) v.calls :=
      held_set (held_unpublish held) known rfl (.inl rfl)
    refine held_move kept ?_
    rintro after ⟨⟩
    refine ⟨rfl, ?_, ?_⟩
    · rintro p ⟨⟩
      exact ⟨nofun, _, update_self ..⟩
    · rintro request ⟨⟩
  | @abandon call p peer here known free =>
    have kept : Held v.published (update v.heap p (some (cleared peer))) v.calls :=
      held_set held known rfl (.inr rfl)
    refine held_move kept ?_
    rintro after ⟨⟩
  | seize here known free idle =>
    refine held_hold held known ?_ rfl rfl (fun _ => idle) rfl ?_
    · intro other phase _ there
      exact unheld held known free other phase there
    · rintro request ⟨⟩
  | @keep call p cutoff value here =>
    cases p with
    | none =>
      refine held_move held ?_
      rintro after ⟨⟩
      refine ⟨rfl, ?_, ?_⟩
      · rintro p ⟨⟩
      · rintro request ⟨⟩
    | some p =>
      obtain ⟨peer, known, locked, idle⟩ := held.locked _ _ p here rfl
      have kept : Held v.published (update v.heap p (some peer))
          (update v.calls call (some (.closing (some p) value))) := by
        refine held_hold held known ?_ locked rfl (fun _ => idle rfl) rfl ?_
        · intro other phase apart there holds
          exact apart (held.alone other _ phase _ _ there here holds rfl)
        · rintro request ⟨⟩
      rw [update_eq_self_iff.mpr known.symm] at kept
      exact kept
  | close here => exact held_release held here rfl
  | turn known turned =>
    obtain ⟨lock, -, chat⟩ := turn_kept turned
    exact held_set held known lock chat
  | update => exact held
  | restart =>
    exact ⟨fun _ _ _ there => (by cases there), fun _ _ _ _ _ there => (by cases there),
      fun _ shown => (by cases shown), fun _ _ _ there => (by cases there), fun _ _ _ there => (by cases there)⟩

theorem step_held {w next : World} (held : View.Held (view w)) (stepped : step w action = some next) :
    View.Held (view next) :=
  moves_held held (step_moves stepped)

end PieRelay.ChatLocks
