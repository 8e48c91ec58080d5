import Mathlib.Data.List.Basic
import Mathlib.Data.List.Nodup

/-!
The supervisors of the client daemon, client/internal/chatagent/agent.go and client/internal/ptyagent/ptyagent.go: a
loop around the pump of a child process, which ends for reasons of the pump's own, and the budget of restarts. Processes
are numbered in the order they are started in; several may be alive. Times are nanoseconds.
-/
namespace PieRelay.ChildSupervisor
open List Option

def maxChildRestarts : Nat := 5

def childRestartWindow : Int := 30000000000

structure ChildRestartTracker where
  restarts : Nat
  windowStart : Option Int
  deriving DecidableEq

/-- `allow`; the delay before a restart, which `windowReset` is for, is left out. -/
def allow (t : ChildRestartTracker) (now : Int) : ChildRestartTracker × Bool :=
  let fresh : Bool := t.windowStart.all fun start => childRestartWindow < now - start
  let restarts := (if fresh then 0 else t.restarts) + 1
  (⟨restarts, if fresh then some now else t.windowStart⟩, restarts ≤ maxChildRestarts)

/-- Where the loop is: in the pump of a process, behind it, behind `resetActive` where there is one, behind
    `setCurrent(nil)`, about to start a process, with one that is not the current one yet, or over. -/
inductive Phase where
  | pumping (child : Nat)
  | ended (child : Nat)
  | reset (child : Nat)
  | waiting
  | starting
  | started (child : Nat)
  | gone
  deriving DecidableEq

structure Supervisor where
  phase : Phase
  tracker : ChildRestartTracker
  alive : List Nat
  current : Option Nat
  next : Nat
  deriving DecidableEq

def start : Supervisor := ⟨.pumping 0, ⟨0, none⟩, [0], some 0, 1⟩

inductive Event where
  | exit (child : Nat)
  | pumpEnds
  | resetActive
  | setNil
  | attempt (now : Int)
  | spawn (works : Bool)
  | setCurrent
  deriving DecidableEq

def supervise (resets : Bool) (s : Supervisor) : Event → Option Supervisor
  | .exit child => if child ∈ s.alive then some { s with alive := s.alive.erase child } else none
  | .pumpEnds => match s.phase with
    | .pumping child => some { s with phase := .ended child }
    | _ => none
  | .resetActive => match s.phase with
    | .ended child => if resets then some { s with phase := .reset child } else none
    | _ => none
  | .setNil => match s.phase with
    | .ended _ => if resets then none else some { s with phase := .waiting, current := none }
    | .reset _ => if resets then some { s with phase := .waiting, current := none } else none
    | _ => none
  | .attempt now => match s.phase with
    | .waiting =>
      let allowed := allow s.tracker now
      some { s with phase := if allowed.2 then .starting else .gone, tracker := allowed.1 }
    | _ => none
  | .spawn works => match s.phase with
    | .starting =>
      if works then some { s with phase := .started s.next, alive := s.next :: s.alive, next := s.next + 1 }
      else some { s with phase := .waiting }
    | _ => none
  | .setCurrent => match s.phase with
    | .started child => some { s with phase := .pumping child, current := some child }
    | _ => none

def Phase.child : Phase → Option Nat
  | .pumping child => some child
  | .ended child => some child
  | .reset child => some child
  | .started child => some child
  | _ => none

structure Alone (s : Supervisor) : Prop where
  nodup : s.alive.Nodup
  mine : ∀ child ∈ s.alive, s.phase = .pumping child ∨ s.phase = .started child
  older : ∀ child ∈ s.alive, child < s.next
  current : ∀ child, s.current = some child → s.phase = .pumping child ∨ s.phase = .ended child ∨ s.phase = .reset child

theorem start_alone : Alone start where
  nodup := nodup_singleton 0
  mine child member := .inl (by rw [mem_singleton.mp member]; rfl)
  older child member := by rw [mem_singleton.mp member]; decide
  current child same := by
    cases same
    exact .inl rfl

variable {resets : Bool} {s next : Supervisor} {event : Event}

theorem none_alive (alone : Alone s) (idle : ∀ child, s.phase ≠ .pumping child ∧ s.phase ≠ .started child) :
    s.alive = [] := by
  refine eq_nil_iff_forall_not_mem.mpr fun child member => ?_
  rcases alone.mine child member with pumping | started
  · exact (idle child).1 pumping
  · exact (idle child).2 started

theorem alone_idle (alone : Alone s) {phase : Phase} {tracker : ChildRestartTracker} {current : Option Nat}
    (idle : s.alive = []) (kept : ∀ child, current = some child → phase = .ended child ∨ phase = .reset child) :
    Alone { s with phase, tracker, current } where
  nodup := alone.nodup
  mine child member := by
    rw [idle] at member
    cases member
  older := alone.older
  current child same := .inr (kept child same)

theorem supervise_alone (alone : Alone s) (careful : event = .pumpEnds → ∀ child, s.phase = .pumping child → child ∉ s.alive)
    (stepped : supervise resets s event = some next) : Alone next := by
  cases event with
  | exit child =>
    simp only [supervise, ite_none_right_eq_some, some.injEq] at stepped
    obtain ⟨_, rfl⟩ := stepped
    exact ⟨alone.nodup.erase child, fun other member => alone.mine other (mem_of_mem_erase member),
      fun other member => alone.older other (mem_of_mem_erase member), alone.current⟩
  | pumpEnds =>
    cases phase : s.phase with
    | pumping child =>
      simp only [supervise, phase, some.injEq] at stepped
      subst stepped
      have idle : s.alive = [] := by
        refine eq_nil_iff_forall_not_mem.mpr fun other member => ?_
        have dead := careful rfl child phase
        rcases alone.mine other member with pumping | started
        · cases phase.symm.trans pumping
          exact dead member
        · cases phase.symm.trans started
      refine alone_idle alone idle fun other same => ?_
      rcases alone.current other same with pumping | ended | reset
      · cases phase.symm.trans pumping
        exact .inl rfl
      · cases phase.symm.trans ended
      · cases phase.symm.trans reset
    | _ => simp [supervise, phase] at stepped
  | resetActive =>
    cases phase : s.phase with
    | ended =>
      simp only [supervise, phase, ite_none_right_eq_some, some.injEq] at stepped
      obtain ⟨_, rfl⟩ := stepped
      have idle := none_alive alone fun other => (by rw [phase]; exact ⟨nofun, nofun⟩)
      refine alone_idle alone idle fun other same => ?_
      rcases alone.current other same with pumping | ended | reset
      · cases phase.symm.trans pumping
      · cases phase.symm.trans ended
        exact .inr rfl
      · cases phase.symm.trans reset
    | _ => simp [supervise, phase] at stepped
  | setNil =>
    have idle : s.alive = [] ∧ ∃ phase, next = { s with phase := phase, current := none } := by
      cases phase : s.phase with
      | ended =>
        simp only [supervise, phase, ite_none_left_eq_some, some.injEq] at stepped
        exact ⟨none_alive alone fun other => (by rw [phase]; exact ⟨nofun, nofun⟩), .waiting, stepped.2.symm⟩
      | reset =>
        simp only [supervise, phase, ite_none_right_eq_some, some.injEq] at stepped
        exact ⟨none_alive alone fun other => (by rw [phase]; exact ⟨nofun, nofun⟩), .waiting, stepped.2.symm⟩
      | _ => simp [supervise, phase] at stepped
    obtain ⟨idle, phase, rfl⟩ := idle
    exact alone_idle alone idle fun other same => (by cases same)
  | attempt =>
    cases phase : s.phase with
    | waiting =>
      simp only [supervise, phase, some.injEq] at stepped
      subst stepped
      have idle := none_alive alone fun other => (by rw [phase]; exact ⟨nofun, nofun⟩)
      refine alone_idle alone idle fun other same => ?_
      rcases alone.current other same with pumping | ended | reset
      · cases phase.symm.trans pumping
      · cases phase.symm.trans ended
      · cases phase.symm.trans reset
    | _ => simp [supervise, phase] at stepped
  | spawn =>
    cases phase : s.phase with
    | starting =>
      have idle := none_alive alone fun other => (by rw [phase]; exact ⟨nofun, nofun⟩)
      have no_current : ∀ other, s.current ≠ some other := by
        intro other same
        rcases alone.current other same with pumping | ended | reset
        · cases phase.symm.trans pumping
        · cases phase.symm.trans ended
        · cases phase.symm.trans reset
      simp only [supervise, phase] at stepped
      split at stepped
      · cases stepped
        have only : ∀ child ∈ s.next :: s.alive, child = s.next := by
          intro child member
          rw [idle] at member
          exact mem_singleton.mp member
        refine ⟨?_, fun child member => ?_, fun child member => ?_, fun child same => absurd same (no_current child)⟩
        · change (s.next :: s.alive).Nodup
          rw [idle]
          exact nodup_singleton _
        · exact .inr (only child member ▸ rfl)
        · exact only child member ▸ Nat.lt_succ_self _
      · cases stepped
        exact alone_idle alone idle fun other same => absurd same (no_current other)
    | _ => simp [supervise, phase] at stepped
  | setCurrent =>
    cases phase : s.phase with
    | started =>
      simp only [supervise, phase, some.injEq] at stepped
      subst stepped
      refine ⟨alone.nodup, fun other member => ?_, alone.older, fun other same => ?_⟩
      · rcases alone.mine other member with pumping | started
        · cases phase.symm.trans pumping
        · cases phase.symm.trans started
          exact .inl rfl
      · cases same
        exact .inl rfl
    | _ => simp [supervise, phase] at stepped

theorem supervise_waits {child : Nat} (stepped : supervise true s event = some next) (unreset : event ≠ .resetActive)
    (waits : s.phase = .pumping child ∨ s.phase = .ended child) :
    (next.phase = .pumping child ∨ next.phase = .ended child) ∧ (child ∈ next.alive → child ∈ s.alive) := by
  cases event with
  | exit =>
    simp only [supervise, ite_none_right_eq_some, some.injEq] at stepped
    obtain ⟨_, rfl⟩ := stepped
    exact ⟨waits, mem_of_mem_erase⟩
  | resetActive => exact absurd rfl unreset
  | pumpEnds =>
    rcases waits with phase | phase
    · simp only [supervise, phase, some.injEq] at stepped
      subst stepped
      exact ⟨.inr rfl, id⟩
    · simp [supervise, phase] at stepped
  | _ => rcases waits with phase | phase <;> simp [supervise, phase] at stepped

theorem supervise_alive (stepped : supervise resets s event = some next) :
    (event = .spawn true ∧ s.phase = .starting ∧ next.phase = .started s.next ∧ next.alive = s.next :: s.alive) ∨
    event ≠ .spawn true ∧ next.alive.Sublist s.alive ∧
      (event ≠ .pumpEnds → ∀ child, s.phase = .pumping child ∨ s.phase = .started child →
        next.phase = .pumping child ∨ next.phase = .started child) := by
  cases event with
  | exit =>
    simp only [supervise, ite_none_right_eq_some, some.injEq] at stepped
    obtain ⟨_, rfl⟩ := stepped
    exact .inr ⟨nofun, erase_sublist, fun _ _ same => same⟩
  | pumpEnds =>
    cases phase : s.phase with
    | pumping =>
      simp only [supervise, phase, some.injEq] at stepped
      subst stepped
      exact .inr ⟨nofun, Sublist.refl _, fun ends => absurd rfl ends⟩
    | _ => simp [supervise, phase] at stepped
  | resetActive =>
    cases phase : s.phase with
    | ended =>
      simp only [supervise, phase, ite_none_right_eq_some, some.injEq] at stepped
      obtain ⟨_, rfl⟩ := stepped
      exact .inr ⟨nofun, Sublist.refl _, fun _ other same => by simp at same⟩
    | _ => simp [supervise, phase] at stepped
  | setNil =>
    cases phase : s.phase with
    | ended =>
      simp only [supervise, phase, ite_none_left_eq_some, some.injEq] at stepped
      obtain ⟨_, rfl⟩ := stepped
      exact .inr ⟨nofun, Sublist.refl _, fun _ other same => by simp at same⟩
    | reset =>
      simp only [supervise, phase, ite_none_right_eq_some, some.injEq] at stepped
      obtain ⟨_, rfl⟩ := stepped
      exact .inr ⟨nofun, Sublist.refl _, fun _ other same => by simp at same⟩
    | _ => simp [supervise, phase] at stepped
  | attempt =>
    cases phase : s.phase with
    | waiting =>
      simp only [supervise, phase, some.injEq] at stepped
      subst stepped
      exact .inr ⟨nofun, Sublist.refl _, fun _ other same => by simp at same⟩
    | _ => simp [supervise, phase] at stepped
  | spawn works =>
    cases phase : s.phase with
    | starting =>
      cases works with
      | true =>
        simp only [supervise, phase, ↓reduceIte, some.injEq] at stepped
        subst stepped
        exact .inl ⟨rfl, rfl, rfl, rfl⟩
      | false =>
        simp only [supervise, phase, Bool.false_eq_true, ↓reduceIte, some.injEq] at stepped
        subst stepped
        exact .inr ⟨nofun, Sublist.refl _, fun _ other same => by simp at same⟩
    | _ => simp [supervise, phase] at stepped
  | setCurrent =>
    cases phase : s.phase with
    | started =>
      simp only [supervise, phase, some.injEq] at stepped
      subst stepped
      refine .inr ⟨nofun, Sublist.refl _, fun _ other same => ?_⟩
      rcases same with pumping | started
      · cases pumping
      · cases started
        exact .inl rfl
    | _ => simp [supervise, phase] at stepped

end PieRelay.ChildSupervisor
