import Mathlib.Tactic.Common
import PieRelay.TerminalViewer

/-!
The scheduler of desktop/src/terminal-output-scheduler.ts on its own, under calls, callbacks of the terminal, timeouts and
timers in any order. A callback comes once or never, and however late. Beside the scheduler there is what it has accepted
in its generation and what it has written in which one.
-/
namespace PieRelay.OutputScheduler
open Executions TerminalViewer List Option
open JsonScanner (Bytes)

structure Traced where
  world : World
  accepted : Bytes
  writes : List (Nat × Bytes)

def started : Traced := ⟨TerminalViewer.start, [], []⟩

def chunkOf (o : SchedulerOptions) (w : World) : Option Bytes :=
  match w.scheduler.queue with
  | [] => none
  | head :: _ => if w.scheduler.disposed ∨ w.scheduler.writing then none else some (head.take o.chunkBytes)

def pumped (o : SchedulerOptions) (x : Traced) (w : World) : Traced where
  world := TerminalViewer.pump o w
  accepted := x.accepted
  writes := x.writes ++ ((chunkOf o w).map fun chunk => (w.scheduler.generation, chunk)).toList

def anew (x : Traced) (w : World) : Traced := { x with world := w, accepted := [] }

inductive Action where
  | enqueue (data : Bytes) (background : Bool)
  | recover
  | dispose
  | callback (generation : Nat)
  | pump
  | stall

def queued (w : World) (data : Bytes) : World := { w with scheduler := { w.scheduler with
  queue := w.scheduler.queue ++ [data], queuedBytes := w.scheduler.queuedBytes + data.length } }

def step (o : SchedulerOptions) (x : Traced) : Action → Option Traced
  | .enqueue data background =>
    if x.world.scheduler.disposed ∨ data = [] then some x
    else if Overflows o x.world data background then some (anew x (onOverflow (TerminalViewer.recover x.world)))
    else some (pumped o { x with accepted := x.accepted ++ data } (queued x.world data))
  | .recover => some (anew x (TerminalViewer.recover x.world))
  | .dispose => some (anew x
      (TerminalViewer.recover { x.world with scheduler := { x.world.scheduler with disposed := true } }))
  | .callback generation => (TerminalViewer.step o x.world (.written generation)).map fun w => { x with world := w }
  | .pump => if 0 < x.world.pumps then some (pumped o x { x.world with pumps := x.world.pumps - 1 }) else none
  | .stall => (TerminalViewer.step o x.world .stall).map fun w =>
      if w.scheduler.generation = x.world.scheduler.generation then { x with world := w } else anew x w

def written (x : Traced) (generation : Nat) : Bytes :=
  (x.writes.filter fun write => write.1 = generation).flatMap Prod.snd

structure Orderly (o : SchedulerOptions) (x : Traced) : Prop where
  counted : x.world.scheduler.queuedBytes = x.world.scheduler.queue.flatten.length
  room : x.world.scheduler.queuedBytes ≤ max o.maxForegroundBytes o.maxBackgroundBytes
  chunks : ∀ write ∈ x.writes, write.2 ≠ [] ∧ write.2.length ≤ o.chunkBytes
  single : ∀ generation, x.world.callbacks.count generation ≤ 1
  /-- What has been accepted has been written, or is in the queue behind that. -/
  whole : written x x.world.scheduler.generation ++ x.world.scheduler.queue.flatten = x.accepted

structure Stale (o : SchedulerOptions) (x : Traced) : Prop where
  callback : ∀ generation next, generation ≠ x.world.scheduler.generation →
    step o x (.callback generation) = some next →
    next.accepted = x.accepted ∧ next.writes = x.writes ∧ next.world.scheduler = x.world.scheduler
  pump : ∀ next, step o x .pump = some next → next.accepted = x.accepted ∧ x.writes <+: next.writes ∧
    next.world.scheduler.generation = x.world.scheduler.generation
  timer : ∀ generation ∈ x.world.scheduler.stallTimer, generation = x.world.scheduler.generation

section Scheduling
variable {o : SchedulerOptions} {x next : Traced} {w : World}

/-- `enqueue` of the scheduler is the step here. -/
theorem step_enqueue (data : Bytes) (background : Bool) (stepped : step o x (.enqueue data background) = some next) :
    next.world = enqueue o x.world data background := by
  simp only [step] at stepped
  unfold enqueue
  split_ifs at stepped ⊢ <;> cases stepped <;> rfl

structure Sound (o : SchedulerOptions) (x : Traced) : Prop where
  orderly : Orderly o x
  pieces : ∀ piece ∈ x.world.scheduler.queue, piece ≠ []
  past : ∀ write ∈ x.writes, write.1 ≤ x.world.scheduler.generation
  /-- A callback of this generation is waited for. -/
  waited : ∀ generation ∈ x.world.callbacks, generation ≤ x.world.scheduler.generation ∧
    (generation = x.world.scheduler.generation → x.world.scheduler.writing)
  timer : ∀ generation ∈ x.world.scheduler.stallTimer, generation = x.world.scheduler.generation

theorem anew_sound (sound : Sound o x) (next : World) (queue : next.scheduler.queue = [])
    (bytes : next.scheduler.queuedBytes = 0) (generation : next.scheduler.generation = x.world.scheduler.generation + 1)
    (callbacks : next.callbacks = x.world.callbacks) (timer : next.scheduler.stallTimer = none) :
    Sound o (anew x next) := by
  obtain ⟨orderly, pieces, past, waited, _⟩ := sound
  have none_ : written x (x.world.scheduler.generation + 1) = [] := by
    rw [written, filter_eq_nil_iff.mpr, flatMap_nil]
    intro write member same
    have := past write member
    have := of_decide_eq_true same
    omega
  refine ⟨⟨?_, ?_, orderly.chunks, ?_, ?_⟩, ?_, fun write member => ?_, fun generation' member => ?_, ?_⟩
  · exact bytes.trans (by rw [show (anew x next).world = next from rfl, queue]; rfl)
  · exact bytes ▸ Nat.zero_le _
  · exact callbacks ▸ orderly.single
  · show written x next.scheduler.generation ++ next.scheduler.queue.flatten = []
    rw [generation, none_, queue]
    rfl
  · intro piece member
    rw [show (anew x next).world = next from rfl, queue] at member
    cases member
  · show write.1 ≤ next.scheduler.generation
    have := past write member
    omega
  · have := (waited generation' (callbacks ▸ member)).1
    show _ ≤ next.scheduler.generation ∧ (_ = next.scheduler.generation → _)
    rw [generation]
    exact ⟨by omega, fun same => by omega⟩
  · intro generation' member
    rw [show (anew x next).world = next from rfl, timer] at member
    cases member

theorem pumped_cases (o : SchedulerOptions) (x : Traced) (w : World) : pumped o x w = { x with world := w } ∨
    ∃ head rest, w.scheduler.queue = head :: rest ∧ w.scheduler.writing = false ∧
      (pumped o x w).writes = x.writes ++ [(w.scheduler.generation, head.take o.chunkBytes)] ∧
      TerminalViewer.pump o w = { w with
        scheduler := { w.scheduler with
          queue := if (head.take o.chunkBytes).length = head.length then rest
            else head.drop (head.take o.chunkBytes).length :: rest
          queuedBytes := w.scheduler.queuedBytes - (head.take o.chunkBytes).length
          writing := true
          stallTimer := some w.scheduler.generation }
        terminal := w.terminal ++ head.take o.chunkBytes
        callbacks := w.callbacks ++ [w.scheduler.generation] } := by
  cases queue : w.scheduler.queue with
  | nil =>
    exact .inl (by
      simp only [pumped, chunkOf, TerminalViewer.pump, queue, map_none, toList_none, append_nil])
  | cons head rest =>
    simp only [pumped, chunkOf, TerminalViewer.pump, queue]
    by_cases busy : w.scheduler.disposed ∨ w.scheduler.writing
    · exact .inl (by simp only [if_pos busy, map_none, toList_none, append_nil])
    · rw [if_neg busy, if_neg busy]
      rw [not_or, Bool.not_eq_true, Bool.not_eq_true] at busy
      exact .inr ⟨head, rest, rfl, busy.2, rfl, rfl⟩

theorem pumped_sound (positive : 0 < o.chunkBytes) (sound : Sound o { x with world := w }) : Sound o (pumped o x w) := by
  rcases pumped_cases o x w with same | ⟨head, rest, queue, free, writes, pump⟩
  · rwa [same]
  obtain ⟨⟨counted, room, chunks, single, whole⟩, pieces, past, waited, timer⟩ := sound
  dsimp only at *
  rw [queue] at counted whole pieces
  have some_ : head ≠ [] := pieces head mem_cons_self
  have long : 0 < head.length := length_pos_iff.mpr some_
  have cut := pump_bytes o w
  rw [pump, queue, append_assoc] at cut
  replace cut := append_cancel_left cut
  dsimp only at cut
  have idle : w.scheduler.generation ∉ w.callbacks := fun member => by
    rw [(waited _ member).2 rfl] at free
    cases free
  have sizes := congrArg length cut
  rw [length_append] at sizes
  have world : (pumped o x w).world = TerminalViewer.pump o w := rfl
  have accepted : (pumped o x w).accepted = x.accepted := rfl
  refine ⟨⟨?_, ?_, ?_, ?_, ?_⟩, ?_, ?_, ?_, ?_⟩
  · rw [world, pump]
    dsimp only
    omega
  · rw [world, pump]
    exact Nat.le_trans (Nat.sub_le _ _) room
  · rw [writes, forall_mem_append]
    refine ⟨chunks, forall_mem_singleton.mpr ⟨fun none_ => ?_, length_take_le _ _⟩⟩
    have := congrArg length (none_ : head.take o.chunkBytes = [])
    rw [length_take, length_nil] at this
    omega
  · rw [world, pump]
    intro generation
    rw [count_append, count_singleton]
    split
    · next same =>
      have none := count_eq_zero_of_not_mem idle
      rw [eq_of_beq same] at none
      omega
    · exact single generation
  · rw [world, pump, accepted]
    dsimp only
    rw [written, writes, filter_append, flatMap_append, append_assoc, ← whole]
    refine congrArg (written { x with world := w } _ ++ ·) ?_
    rw [← cut]
    simp
  · rw [world, pump]
    intro piece member
    dsimp only at member
    split at member
    · exact pieces piece (mem_cons_of_mem head member)
    · next =>
      rcases mem_cons.mp member with rfl | later
      · intro none_
        have := congrArg length none_
        rw [length_drop, length_nil] at this
        have := length_take_le o.chunkBytes head
        have : (head.take o.chunkBytes).length ≤ head.length := length_take_le' _ _
        omega
      · exact pieces piece (mem_cons_of_mem head later)
  · rw [world, pump, writes, forall_mem_append]
    exact ⟨past, forall_mem_singleton.mpr (Nat.le_refl _)⟩
  · rw [world, pump]
    intro generation member
    rcases mem_append.mp member with old | new
    · exact ⟨(waited generation old).1, fun _ => rfl⟩
    · rw [mem_singleton.mp new]
      exact ⟨Nat.le_refl _, fun _ => rfl⟩
  · rw [world, pump]
    intro generation member
    exact (mem_some.mp member).symm

theorem same_sound (sound : Sound o x) (next : World) (scheduler : next.scheduler = x.world.scheduler)
    (fewer : Sublist next.callbacks x.world.callbacks) : Sound o { x with world := next } := by
  obtain ⟨⟨counted, room, chunks, single, whole⟩, pieces, past, waited, timer⟩ := sound
  rw [← scheduler] at *
  exact ⟨⟨counted, room, chunks, fun g => Nat.le_trans (fewer.count_le g) (single g), whole⟩, pieces, past,
    fun g member => waited g (fewer.subset member), timer⟩

theorem step_sound (positive : 0 < o.chunkBytes) (x : Traced) (action : Action) (next : Traced) (sound : Sound o x)
    (stepped : step o x action = some next) : Sound o next := by
  cases action with
  | enqueue data background =>
    simp only [step] at stepped
    split_ifs at stepped with idle large
    · cases stepped
      exact sound
    · cases stepped
      exact anew_sound sound _ rfl rfl rfl rfl rfl
    · cases stepped
      rw [not_or] at idle
      refine pumped_sound positive ?_
      obtain ⟨⟨counted, room, chunks, single, whole⟩, pieces, past, waited, timer⟩ := sound
      refine ⟨⟨?_, ?_, chunks, single, ?_⟩, ?_, past, waited, timer⟩
      · show _ + data.length = (_ ++ [data]).flatten.length
        rw [counted, flatten_append, length_append, flatten_singleton]
      · have fits : _ ≤ limit o background := Nat.not_lt.mp large
        refine Nat.le_trans fits ?_
        unfold limit
        split
        · exact Nat.le_max_right _ _
        · exact Nat.le_max_left _ _
      · show written x x.world.scheduler.generation ++ (x.world.scheduler.queue ++ [data]).flatten = x.accepted ++ data
        rw [flatten_append, ← append_assoc, whole, flatten_singleton]
      · exact forall_mem_append.mpr ⟨pieces, forall_mem_singleton.mpr idle.2⟩
  | recover | dispose =>
    cases stepped
    exact anew_sound sound _ rfl rfl rfl rfl rfl
  | callback generation =>
    obtain ⟨w, called, rfl⟩ := map_eq_some_iff.mp stepped
    simp only [TerminalViewer.step] at called
    split_ifs at called with member late
    · cases called
      exact same_sound sound _ rfl (erase_sublist)
    · cases called
      rw [not_or, not_not] at late
      obtain ⟨⟨counted, room, chunks, single, whole⟩, pieces, past, waited, timer⟩ := sound
      refine ⟨⟨counted, room, chunks, fun g => ?_, whole⟩, pieces, past, fun g kept => ?_, fun g absurd => by cases absurd⟩
      · exact Nat.le_trans (erase_sublist.count_le g) (single g)
      · refine ⟨(waited g (mem_of_mem_erase kept)).1, fun same => ?_⟩
        -- The only callback of this generation has come.
        have twice : 1 < x.world.callbacks.count g := by
          have again := count_pos_iff.mpr kept
          rw [same.trans late.1.symm, count_erase_self] at again
          rw [same.trans late.1.symm]
          omega
        exact absurd (single g) (Nat.not_le.mpr twice)
  | pump =>
    simp only [step] at stepped
    split_ifs at stepped
    cases stepped
    exact pumped_sound positive (same_sound sound _ rfl (Sublist.refl _))
  | stall =>
    obtain ⟨w, stalls, rfl⟩ := map_eq_some_iff.mp stepped
    simp only [TerminalViewer.step] at stalls
    split at stalls
    · split_ifs at stalls
      · cases stalls
        rw [if_pos rfl]
        obtain ⟨orderly, pieces, past, waited, _⟩ := sound
        exact ⟨⟨orderly.counted, orderly.room, orderly.chunks, orderly.single, orderly.whole⟩, pieces, past, waited,
          fun g absurd => by cases absurd⟩
      · cases stalls
        rw [if_neg (show ¬ (stalled x.world).scheduler.generation = _ from Nat.succ_ne_self _)]
        exact anew_sound sound _ rfl rfl rfl rfl rfl
    · cases stalls

theorem started_sound (o : SchedulerOptions) : Sound o started where
  orderly := ⟨rfl, Nat.zero_le _, fun _ absurd => (by cases absurd), fun _ => Nat.zero_le _, rfl⟩
  pieces := fun _ absurd => (by cases absurd)
  past := fun _ absurd => (by cases absurd)
  waited := fun _ absurd => (by cases absurd)
  timer := fun _ absurd => (by cases absurd)

theorem sound_stale (sound : Sound o x) : Stale o x := by
  constructor
  · intro generation next other stepped
    obtain ⟨w, called, rfl⟩ := map_eq_some_iff.mp stepped
    simp only [TerminalViewer.step] at called
    split_ifs at called with member late
    · cases called
      exact ⟨rfl, rfl, rfl⟩
    · exact absurd (Or.inl other) late
  · intro next stepped
    simp only [step] at stepped
    split_ifs at stepped
    cases stepped
    refine ⟨rfl, prefix_append _ _, ?_⟩
    rcases pumped_cases o x { x.world with pumps := x.world.pumps - 1 } with same | ⟨_, _, _, _, _, pump⟩
    · rw [same]
    · rw [show (pumped o x _).world = TerminalViewer.pump o _ from rfl, pump]
  · exact sound.timer

theorem scheduler_orderly (o : SchedulerOptions) (positive : 0 < o.chunkBytes) {actions : List Action} {x : Traced}
    (ran : run (step o) started actions = some x) : Orderly o x ∧ Stale o x :=
  have sound := run_invariant (Sound o) (step_sound positive) ran (started_sound o)
  ⟨sound.orderly, sound_stale sound⟩

end Scheduling

def late : List Action :=
  [.enqueue [1, 2, 3] false, .recover, .enqueue [4, 5] false, .callback 0, .callback 1, .pump]

theorem late_orderly : 0 < defaults.chunkBytes ∧ ∃ x, run (step defaults) started late = some x ∧
    Orderly defaults x ∧ Stale defaults x := by
  have there : (run (step defaults) started late).isSome := rfl
  obtain ⟨x, ran⟩ := isSome_iff_exists.mp there
  exact ⟨by decide, x, ran, scheduler_orderly defaults (by decide) ran⟩

end PieRelay.OutputScheduler
