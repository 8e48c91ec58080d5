import Mathlib.Data.Finset.Basic
import Mathlib.Data.List.Pairwise
import PieRelay.Executions

/-!
The open rooms of the shell: `roomsReducer` of desktop/src/rooms.ts. Of a session there is what the reducer looks at. A
room that is added has an id that no open room has.
-/
namespace PieRelay.RoomsReducer
open Executions List Option

inductive RoomMode where
  | chat
  | terminal
  deriving DecidableEq

structure Room where
  id : String
  wsUrl : String
  token : String
  room : String
  name : String
  asHost : Bool
  label : Option String
  mode : Option RoomMode
  deriving DecidableEq

structure State where
  rooms : List Room
  activeRoomId : Option String
  unread : Finset String

def initialRoomsState : State := ⟨[], none, ∅⟩

inductive Action where
  | add (room : Room)
  | close (id : String)
  | activate (id : Option String)
  | activity (id : String)
  | setMode (id : String) (mode : RoomMode)
  | rename (id label name : Option String)

def sameRoomIdentity (a b : Room) : Bool := a.wsUrl = b.wsUrl ∧ a.room = b.room ∧ a.name = b.name ∧ a.asHost = b.asHost

def findRoom (rooms : List Room) (session : Room) : Option Room := rooms.find? fun r => sameRoomIdentity r session

def renamed (target : Room) (label name : Option String) : Room :=
  { target with label := label.or target.label, name := name.getD target.name }

def target (rooms : List Room) : Option String → Option Room
  | some id => rooms.find? fun r => r.id = id
  | none => rooms.reverse.find? fun r => r.asHost

def roomsReducer (state : State) : Action → State
  | .add room =>
    match findRoom state.rooms room with
    | some existing =>
      let nextLabel := room.label.or existing.label
      { rooms :=
          if existing.token ≠ room.token ∨ nextLabel ≠ existing.label then
            state.rooms.map fun r => if r.id = existing.id then { r with token := room.token, label := nextLabel } else r
          else state.rooms
        activeRoomId := some existing.id
        unread := state.unread.erase existing.id }
    | none => ⟨state.rooms ++ [room], some room.id, state.unread.erase room.id⟩
  | .close id =>
    let rooms := state.rooms.filter fun r => r.id ≠ id
    { rooms := rooms
      activeRoomId := if state.activeRoomId = some id then rooms.head?.map Room.id else state.activeRoomId
      unread := state.unread.erase id }
  | .activate none => { state with activeRoomId := none }
  | .activate (some id) => { state with activeRoomId := some id, unread := state.unread.erase id }
  | .activity id =>
    if state.activeRoomId = some id ∨ id ∈ state.unread then state
    else { state with unread := insert id state.unread }
  | .setMode id mode =>
    { state with rooms := state.rooms.map fun r => if r.id = id ∧ r.mode ≠ some mode then { r with mode := some mode } else r }
  | .rename id label name =>
    match target state.rooms id with
    | none => state
    | some target =>
      if (renamed target label name).label = target.label ∧ (renamed target label name).name = target.name then state
      else { state with rooms := state.rooms.map fun r =>
        if r.id = target.id then
          { r with label := (renamed target label name).label, name := (renamed target label name).name }
        else r }

def step (state : State) (action : Action) : Option State :=
  match action with
  | .add room => if state.rooms.all fun r => r.id ≠ room.id then some (roomsReducer state action) else none
  | _ => some (roomsReducer state action)

structure Good (state : State) : Prop where
  active : ∀ id, state.activeRoomId = some id → ∃ r ∈ state.rooms, r.id = id
  unread : ∀ id ∈ state.unread, (∃ r ∈ state.rooms, r.id = id) ∧ state.activeRoomId ≠ some id
  unique : state.rooms.Pairwise fun a b => a.id ≠ b.id
  apart : state.rooms.Pairwise fun a b => sameRoomIdentity a b = false

/-- The room is open that is activated or has something new; nothing new is in the room that follows on an active one
    that is closed; and nobody else is in the room under the name that is chosen. -/
def careful (state : State) : Action → Bool
  | .activate (some id) | .activity id => state.rooms.any fun r => r.id = id
  | .close id => state.activeRoomId ≠ some id ∨
    (state.rooms.filter fun r => r.id ≠ id).head?.all fun r => r.id ∉ state.unread
  | .rename id label name => (target state.rooms id).all fun target => state.rooms.all fun r =>
    r.id = target.id ∨ sameRoomIdentity r (renamed target label name) = false
  | _ => true

section Steps
variable {state : State} {id : String} {room : Room} {rooms : List Room} {change : Room → Room}

theorem identity_comm (a b : Room) : sameRoomIdentity a b = sameRoomIdentity b a := by
  simp only [sameRoomIdentity, eq_comm]

theorem changed_good_iff (good : Good state) (ids : ∀ r, (change r).id = r.id) :
    Good { state with rooms := state.rooms.map change } ↔
      state.rooms.Pairwise fun a b => sameRoomIdentity (change a) (change b) = false := by
  have open_ : ∀ id, (∃ r ∈ state.rooms.map change, r.id = id) ↔ ∃ r ∈ state.rooms, r.id = id := by
    intro id
    simp [ids]
  constructor
  · intro good
    exact pairwise_map.mp good.apart
  · intro apart
    refine ⟨fun id here => (open_ id).mpr (good.active id here),
      fun id new => ⟨(open_ id).mpr (good.unread id new).1, (good.unread id new).2⟩, ?_, pairwise_map.mpr apart⟩
    refine pairwise_map.mpr (good.unique.imp fun different => ?_)
    rw [ids, ids]
    exact different

theorem kept_good (good : Good state) (ids : ∀ r, (change r).id = r.id)
    (identity : ∀ a b, sameRoomIdentity (change a) (change b) = sameRoomIdentity a b) :
    Good { state with rooms := state.rooms.map change } :=
  (changed_good_iff good ids).mpr (good.apart.imp fun different => (identity _ _).trans different)

theorem activated_good (good : Good state) (here : ∃ r ∈ state.rooms, r.id = id) :
    Good { state with activeRoomId := some id, unread := state.unread.erase id } := by
  refine ⟨?_, fun other new => ?_, good.unique, good.apart⟩
  · rintro _ ⟨⟩
    exact here
  · obtain ⟨different, new⟩ := Finset.mem_erase.mp new
    exact ⟨(good.unread other new).1, fun same => different (some.inj same).symm⟩

theorem add_good (good : Good state) (fresh : ∀ r ∈ state.rooms, r.id ≠ room.id) :
    Good (roomsReducer state (.add room)) := by
  simp only [roomsReducer]
  split
  · next existing found =>
    have here := mem_of_find?_eq_some found
    split
    · refine activated_good (kept_good good ?_ ?_) ?_
      · intro r
        split <;> rfl
      · intro a b
        simp only [sameRoomIdentity]
        split <;> split <;> rfl
      · exact ⟨_, mem_map_of_mem here, by rw [if_pos rfl]⟩
    · exact activated_good good ⟨existing, here, rfl⟩
  · next none =>
    have added : Good { state with rooms := state.rooms ++ [room] } := by
      have more : ∀ id, (∃ r ∈ state.rooms, r.id = id) → ∃ r ∈ state.rooms ++ [room], r.id = id :=
        fun _ ⟨r, member, same⟩ => ⟨r, mem_append_left _ member, same⟩
      refine ⟨fun id here => more id (good.active id here),
        fun id new => ⟨more id (good.unread id new).1, (good.unread id new).2⟩, ?_, ?_⟩
      · refine pairwise_append.mpr ⟨good.unique, pairwise_singleton _ _, fun r member other last => ?_⟩
        rw [mem_singleton.mp last]
        exact fresh r member
      · refine pairwise_append.mpr ⟨good.apart, pairwise_singleton _ _, fun r member other last => ?_⟩
        rw [mem_singleton.mp last]
        simpa using find?_eq_none.mp none r member
    exact activated_good added ⟨room, by simp, rfl⟩

theorem close_good_iff (good : Good state) : Good (roomsReducer state (.close id)) ↔ careful state (.close id) := by
  have stays : ∀ other, other ≠ id → (∃ r ∈ state.rooms, r.id = other) →
      ∃ r ∈ state.rooms.filter fun r => r.id ≠ id, r.id = other := by
    rintro _ different ⟨r, member, rfl⟩
    exact ⟨r, List.mem_filter.mpr ⟨member, decide_eq_true different⟩, rfl⟩
  simp only [careful, Bool.decide_or, Bool.or_eq_true, decide_eq_true_eq, Option.all_eq_true]
  constructor
  · intro closed
    by_cases active : state.activeRoomId = some id
    · refine .inr fun r first new => ?_
      have member : r ∈ state.rooms.filter fun r => r.id ≠ id := List.mem_of_mem_head? first
      have other := of_decide_eq_true (List.mem_filter.mp member).2
      refine (closed.unread r.id (Finset.mem_erase.mpr ⟨other, new⟩)).2 ?_
      simp only [roomsReducer]
      rw [if_pos active, first]
      rfl
    · exact .inl active
  · intro fits
    refine ⟨?_, fun other new => ?_, good.unique.filter _, good.apart.filter _⟩
    · intro other here
      simp only [roomsReducer] at here ⊢
      split at here
      · obtain ⟨r, first, rfl⟩ := Option.map_eq_some_iff.mp here
        exact ⟨r, List.mem_of_mem_head? first, rfl⟩
      · next active =>
        refine stays other (fun same => active (same ▸ here)) (good.active other here)
    · obtain ⟨different, new⟩ := Finset.mem_erase.mp new
      refine ⟨stays other different (good.unread other new).1, fun here => ?_⟩
      simp only [roomsReducer] at here
      split at here
      · next active =>
        obtain ⟨r, first, rfl⟩ := Option.map_eq_some_iff.mp here
        exact fits.resolve_left (not_not.mpr active) r first new
      · exact (good.unread other new).2 here

theorem changed_apart (apart : rooms.Pairwise fun a b => sameRoomIdentity (change a) (change b) = false) {a b : Room}
    (first : a ∈ rooms) (second : b ∈ rooms) (different : a ≠ b) : sameRoomIdentity (change a) (change b) = false := by
  have mirrored : Std.Symm fun a b => sameRoomIdentity (change a) (change b) = false :=
    ⟨fun a b apart => identity_comm (change a) (change b) ▸ apart⟩
  exact apart.forall first second different

theorem target_mem {chosen : Option String} (found : target rooms chosen = some room) : room ∈ rooms := by
  cases chosen with
  | some id => exact mem_of_find?_eq_some found
  | none => exact mem_reverse.mp (mem_of_find?_eq_some found)

theorem rename_good_iff (good : Good state) {chosen label name : Option String} :
    Good (roomsReducer state (.rename chosen label name)) ↔ careful state (.rename chosen label name) := by
  have unlike : Std.Symm fun a b : Room => a.id ≠ b.id := ⟨fun _ _ => Ne.symm⟩
  simp only [roomsReducer, careful]
  cases found : target state.rooms chosen with
  | none => exact iff_of_true good rfl
  | some goal =>
    have member := target_mem found
    have others : ∀ r, r.id ≠ goal.id → r ≠ goal := fun r different same => different (congrArg Room.id same)
    have only : ∀ r ∈ state.rooms, r.id = goal.id → r = goal := fun r here same => by
      by_contra different
      exact good.unique.forall here member different same
    simp only [Option.all_some, List.all_eq_true, decide_eq_true_eq]
    split
    · next same =>
      refine iff_of_true good fun r here => or_iff_not_imp_left.mpr fun different => ?_
      rw [← @changed_apart state.rooms (fun r => r) good.apart r goal here member (others r different)]
      simp only [sameRoomIdentity]
      rw [same.2]
      rfl
    · refine (changed_good_iff good fun r => ?_).trans ⟨fun apart r here => ?_, fun free => ?_⟩
      · split <;> rfl
      · refine or_iff_not_imp_left.mpr fun different => ?_
        have changed := changed_apart apart here member (others r different)
        rw [if_neg different, if_pos rfl] at changed
        exact changed
      · refine (good.unique.and good.apart).imp_of_mem fun {a b} first second both => ?_
        by_cases mine : a.id = goal.id
        · have different : b.id ≠ goal.id := fun same => both.1 (mine.trans same.symm)
          rw [if_pos mine, if_neg different, only a first mine, identity_comm]
          exact (free b second).resolve_left different
        · rw [if_neg mine]
          split
          · next yours =>
            rw [only b second yours]
            exact (free a first).resolve_left mine
          · exact both.2

theorem step_good_iff {next : State} {action : Action} (good : Good state) (stepped : step state action = some next) :
    Good next ↔ careful state action := by
  cases action with
  | add room =>
    obtain ⟨fresh, same⟩ := Option.ite_none_right_eq_some.mp stepped
    cases same
    refine iff_of_true (add_good good fun r member => ?_) rfl
    exact of_decide_eq_true (List.all_eq_true.mp fresh r member)
  | close id =>
    cases stepped
    exact close_good_iff good
  | activate chosen =>
    cases stepped
    cases chosen with
    | none => exact iff_of_true ⟨nofun, fun id new => ⟨(good.unread id new).1, nofun⟩, good.unique, good.apart⟩ rfl
    | some id =>
      simp only [careful, List.any_eq_true, decide_eq_true_eq]
      exact ⟨fun next => next.active id rfl, activated_good good⟩
  | activity id =>
    cases stepped
    simp only [roomsReducer, careful, List.any_eq_true, decide_eq_true_eq]
    split
    · next known => exact iff_of_true good (known.elim (good.active id) fun new => (good.unread id new).1)
    · next unknown =>
      refine ⟨fun next => (next.unread id (Finset.mem_insert_self _ _)).1, fun here =>
        ⟨good.active, fun other new => ?_, good.unique, good.apart⟩⟩
      rcases Finset.mem_insert.mp new with rfl | old
      · exact ⟨here, fun active => unknown (.inl active)⟩
      · exact good.unread other old
  | setMode id mode =>
    cases stepped
    refine iff_of_true (kept_good good (fun r => ?_) fun a b => ?_) rfl
    · split <;> rfl
    · simp only [sameRoomIdentity]
      split <;> split <;> rfl
  | rename id label name =>
    cases stepped
    exact rename_good_iff good

end Steps

/-- From an empty list every state reached is as it should be exactly if every step is careful. -/
theorem rooms_good_iff (actions : List Action) (state : State) (ran : run step initialRoomsState actions = some state) :
    Along step (fun _ next => Good next) initialRoomsState actions ↔
      Guarded step (fun state action => careful state action) initialRoomsState actions :=
  along_good_iff (fun _ => True) Good (fun _ _ _ _ _ => trivial) (fun _ _ _ _ good stepped => step_good_iff good stepped)
    ran trivial ⟨nofun, nofun, .nil, .nil⟩

def lobby : Room := ⟨"r1", "wss://relay", "t1", "lobby", "ann", false, none, none⟩

theorem opened_good : Along step (fun _ next => Good next) initialRoomsState [.add lobby, .activate none, .activity "r1"] ↔
    Guarded step (fun state action => careful state action) initialRoomsState
      [.add lobby, .activate none, .activity "r1"] :=
  rooms_good_iff _ _ rfl

/-- Something comes late for a room that has been closed. -/
theorem late_activity_bad : ¬ Along step (fun _ next => Good next) initialRoomsState
    [.add lobby, .close "r1", .activity "r1"] := by
  intro along
  obtain ⟨⟨_, member, _⟩, _⟩ := (((along.2 _ rfl).2 _ rfl).1 _ rfl).unread "r1" (by decide)
  cases member

end PieRelay.RoomsReducer
