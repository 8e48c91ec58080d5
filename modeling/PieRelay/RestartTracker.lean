import Mathlib.Data.List.Induction

/-!
The crash-loop guard `childRestartTracker` of client/internal/ptyagent/ptyagent.go, which client/internal/chatagent/agent.go
has in the same words. A time is a reading of the clock, never the zero time.
-/
namespace PieRelay.RestartTracker
open List

structure Budget where
  maxChildRestarts : Nat
  childRestartWindow : Nat

structure Tracker where
  restarts : Nat
  windowStart : Option Nat
  windowReset : Bool

def newTracker : Tracker := ⟨0, none, false⟩

section Calls
variable (b : Budget)

def opens (t : Tracker) (now : Nat) : Bool :=
  t.windowStart.all fun windowStart => b.childRestartWindow < now - windowStart

def allow (t : Tracker) (now : Nat) : Bool × Tracker :=
  let t := { t with windowReset := false }
  let t := if opens b t now then ⟨0, some now, true⟩ else t
  let t := { t with restarts := t.restarts + 1 }
  (t.restarts ≤ b.maxChildRestarts, t)

def after (t : Tracker) (times : List Nat) : Tracker := times.foldl (fun t now => (allow b t now).2) t

def answers (t : Tracker) : List Nat → List Bool
  | [] => []
  | now :: rest => (allow b t now).1 :: answers (allow b t now).2 rest

def Within (span : List Nat) : Prop := ∀ first ∈ span, ∀ last ∈ span, last - first ≤ b.childRestartWindow

/-- More calls than the budget within a window are not all allowed, and where there are never more all are. -/
structure Guards (times : List Nat) : Prop where
  stops : ∀ before span rest, times = before ++ span ++ rest → b.maxChildRestarts < span.length → Within b span →
    false ∈ answers b (after b newTracker before) span
  lets : (∀ before span rest, times = before ++ span ++ rest → Within b span → span.length ≤ b.maxChildRestarts) →
    ∀ answer ∈ answers b newTracker times, answer

def Exhausted (times : List Nat) : Prop := ∀ before early now late rest,
  times = before ++ (early ++ now :: late) ++ rest → early ≠ [] → b.maxChildRestarts < (early ++ now :: late).length →
    Within b (early ++ now :: late) → opens b (after b newTracker (before ++ early)) now →
    b.maxChildRestarts < (after b newTracker (before ++ early)).restarts

variable {b} {t : Tracker} {now start : Nat} {times span : List Nat}

theorem allow_opens (opening : opens b t now) :
    allow b t now = (decide (1 ≤ b.maxChildRestarts), ⟨1, some now, true⟩) := by
  have same : opens b { t with windowReset := false } now := opening
  simp [allow, same]

theorem allow_stays (staying : opens b t now = false) :
    allow b t now = (decide (t.restarts + 1 ≤ b.maxChildRestarts), ⟨t.restarts + 1, t.windowStart, false⟩) := by
  have same : opens b { t with windowReset := false } now = false := staying
  simp [allow, same]

theorem after_append (early late : List Nat) : after b t (early ++ late) = after b (after b t early) late := foldl_append

theorem answers_append (early late : List Nat) :
    answers b t (early ++ late) = answers b t early ++ answers b (after b t early) late := by
  induction early generalizing t with
  | nil => rfl
  | cons now rest ih => exact congrArg (_ :: ·) ih

theorem last_answer (early : List Nat) (now : Nat) : answers b t (early ++ [now]) =
    answers b t early ++ [decide ((after b t (early ++ [now])).restarts ≤ b.maxChildRestarts)] := by
  rw [answers_append, after_append]
  rfl

theorem refused_last (called : span ≠ []) (spent : b.maxChildRestarts < (after b t span).restarts) :
    false ∈ answers b t span := by
  rw [← dropLast_concat_getLast called] at spent ⊢
  rw [last_answer]
  exact mem_append_right _ (mem_singleton.mpr (decide_eq_false (Nat.not_le_of_lt spent)).symm)

theorem same_window (here : t.windowStart = some start) (close : ∀ a ∈ span, a - start ≤ b.childRestartWindow) :
    (after b t span).windowStart = some start ∧ (after b t span).restarts = t.restarts + span.length ∧
      (t.restarts + span.length ≤ b.maxChildRestarts → ∀ answer ∈ answers b t span, answer) := by
  induction span generalizing t with
  | nil => exact ⟨here, rfl, nofun⟩
  | cons now rest ih =>
    have staying : opens b t now = false := by
      have near := close now mem_cons_self
      simpa [opens, here] using near
    rw [answers, after, foldl_cons, allow_stays staying, length_cons]
    obtain ⟨window, counted, allowed⟩ := @ih ⟨t.restarts + 1, t.windowStart, false⟩ here fun a member =>
      close a (mem_cons_of_mem now member)
    refine ⟨window, counted.trans (by dsimp only; omega), fun enough answer given => ?_⟩
    rcases mem_cons.mp given with rfl | later
    · exact decide_eq_true (by omega)
    · exact allowed (by dsimp only; omega) answer later

theorem window_open (called : times ≠ []) : ∃ outer start inner, times = outer ++ start :: inner ∧
    (∀ a ∈ inner, a - start ≤ b.childRestartWindow) ∧ after b newTracker (outer ++ [start]) = ⟨1, some start, true⟩ := by
  induction times using reverseRecOn with
  | nil => exact absurd rfl called
  | append_singleton before now ih =>
    cases opening : opens b (after b newTracker before) now with
    | true =>
      refine ⟨before, now, [], rfl, nofun, ?_⟩
      rw [after_append]
      exact congrArg Prod.snd (allow_opens opening)
    | false =>
      by_cases first : before = []
      · subst first
        cases opening
      · obtain ⟨outer, start, inner, rfl, close, opened⟩ := ih first
        refine ⟨outer, start, inner ++ [now], by simp, fun a member => ?_, opened⟩
        rcases mem_append.mp member with old | new
        · exact close a old
        · have here := (@same_window b ⟨1, some start, true⟩ start inner rfl close).1
          rw [append_cons, after_append, opened, opens, here] at opening
          rw [mem_singleton.mp new]
          simpa using opening

theorem window_counted {outer inner : List Nat} (close : ∀ a ∈ inner, a - start ≤ b.childRestartWindow)
    (opened : after b newTracker (outer ++ [start]) = ⟨1, some start, true⟩) :
    (after b newTracker (outer ++ start :: inner)).windowStart = some start ∧
      (after b newTracker (outer ++ start :: inner)).restarts = inner.length + 1 := by
  obtain ⟨window, counted, -⟩ := @same_window b ⟨1, some start, true⟩ start inner rfl close
  rw [append_cons, after_append, opened]
  exact ⟨window, counted.trans (Nat.add_comm _ _)⟩

/-- No window opens inside, so that all calls count. -/
theorem all_counted (called : span ≠ []) (steady : ∀ early now late, span = early ++ now :: late → early ≠ [] →
    opens b (after b t early) now = false) : span.length ≤ (after b t span).restarts := by
  induction span using reverseRecOn with
  | nil => exact absurd rfl called
  | append_singleton early now ih =>
    rw [after_append, length_append]
    by_cases first : early = []
    · subst first
      cases opening : opens b t now with
      | true => exact Nat.le_of_eq (congrArg (Tracker.restarts ∘ Prod.snd) (allow_opens opening)).symm
      | false =>
        have counted : (allow b t now).2.restarts = t.restarts + 1 := congrArg (Tracker.restarts ∘ Prod.snd) (allow_stays opening)
        exact counted ▸ Nat.le_add_left 1 t.restarts
    · have counted : (allow b (after b t early) now).2.restarts = (after b t early).restarts + 1 :=
        congrArg (Tracker.restarts ∘ Prod.snd) (allow_stays (steady early now [] rfl first))
      have before := ih first fun front next late same some =>
        steady front next (late ++ [now]) (by rw [same]; simp) some
      exact counted ▸ Nat.succ_le_succ before

theorem exhausted_stops (exhausted : Exhausted b times) {before rest : List Nat} (parts : times = before ++ span ++ rest)
    (many : b.maxChildRestarts < span.length) (within : Within b span) :
    false ∈ answers b (after b newTracker before) span := by
  have called : span ≠ [] := ne_nil_of_length_pos (Nat.zero_lt_of_lt many)
  by_cases inside : ∃ early now late, span = early ++ now :: late ∧ early ≠ [] ∧
      opens b (after b (after b newTracker before) early) now
  · obtain ⟨early, now, late, rfl, some, opening⟩ := inside
    rw [← after_append] at opening
    have spent := exhausted before early now late rest parts some many within opening
    rw [after_append] at spent
    rw [answers_append]
    exact mem_append_left _ (refused_last some spent)
  · refine refused_last called (Nat.lt_of_lt_of_le many (all_counted called fun early now late same some => ?_))
    exact Bool.eq_false_iff.mpr fun opening => inside ⟨early, now, late, same, some, opening⟩

-- Were the budget not used up, the calls up to the new window and the first ones in it would all pass.
theorem stops_exhausted (stops : ∀ before span rest, times = before ++ span ++ rest →
    b.maxChildRestarts < span.length → Within b span → false ∈ answers b (after b newTracker before) span) :
    Exhausted b times := by
  intro before early now late rest parts called many within opening
  by_contra left
  obtain ⟨outer, start, inner, same, close, opened⟩ :=
    window_open (b := b) (append_ne_nil_of_right_ne_nil before called)
  obtain ⟨window, counted⟩ := window_counted close opened
  rw [← same] at window counted
  rw [counted] at left
  have past : b.childRestartWindow < now - start := by simpa [opens, window] using opening
  have apart : start ∉ early := fun member =>
    absurd (within start (mem_append_left _ member) now (by simp)) (Nat.not_le_of_lt past)
  obtain ⟨middle, rfl, rfl⟩ : ∃ middle, before = outer ++ start :: middle ∧ inner = middle ++ early := by
    rcases append_eq_append_iff.mp same with ⟨front, rfl, both⟩ | ⟨front, rfl, both⟩
    · rw [both] at apart
      exact absurd (by simp) apart
    · cases front with
      | nil =>
        rw [nil_append] at both
        rw [← both] at apart
        exact absurd (by simp) apart
      | cons head middle =>
        cases both
        exact ⟨middle, rfl, rfl⟩
  obtain ⟨found, passed⟩ := window_counted (fun a member => close a (mem_append_left _ member)) opened
  generalize chosen : late.take (b.maxChildRestarts - early.length) = next
  have taken : (early ++ now :: next).Sublist (early ++ now :: late) :=
    (Sublist.refl early).append ((chosen ▸ take_sublist _ late).cons_cons now)
  obtain ⟨behind, whole⟩ : ∃ behind, late = next ++ behind := ⟨_, (chosen ▸ take_append_drop _ late).symm⟩
  have length := congrArg length chosen
  have filled := length_pos_iff.mpr called
  rw [length_append] at left
  rw [length_append, length_cons] at many
  rw [length_take] at length
  obtain ⟨-, -, first⟩ := same_window found fun a member => close a (mem_append_right _ member)
  obtain ⟨-, -, second⟩ := @same_window b ⟨1, some now, true⟩ now next rfl fun a member =>
    within now (by simp) a (taken.subset (by simp [member]))
  have refused := stops (outer ++ start :: middle) (early ++ now :: next) (behind ++ rest) (by rw [parts, whole]; simp)
    (by rw [length_append, length_cons]; omega)
    fun a one c two => within a (taken.subset one) c (taken.subset two)
  rw [answers_append, ← after_append, answers, allow_opens opening] at refused
  rcases mem_append.mp refused with old | new
  · cases first (by rw [passed]; omega) false old
  · rcases mem_cons.mp new with now | later
    · exact absurd now (by simp; omega)
    · cases second (by dsimp only; omega) false later

theorem few_let (ordered : times.Pairwise (· ≤ ·)) (few : ∀ before span rest, times = before ++ span ++ rest →
    Within b span → span.length ≤ b.maxChildRestarts) : ∀ answer ∈ answers b newTracker times, answer := by
  induction times using reverseRecOn with
  | nil => exact nofun
  | append_singleton before now ih =>
    intro answer given
    rw [last_answer] at given
    rcases mem_append.mp given with old | new
    · refine ih (pairwise_append.mp ordered).1 (fun early span rest same => ?_) answer old
      exact few early span (rest ++ [now]) (by rw [same]; simp)
    · obtain ⟨outer, start, inner, same, close, opened⟩ := window_open (b := b) (append_ne_nil_of_right_ne_nil before
        (cons_ne_nil now []))
      rw [mem_singleton.mp new, same, (window_counted close opened).2]
      refine decide_eq_true (few outer (start :: inner) [] (by simp [same]) fun first one last two => ?_)
      have begins : ∀ a ∈ start :: inner, start ≤ a := by
        rw [same, pairwise_append, pairwise_cons] at ordered
        exact forall_mem_cons.mpr ⟨Nat.le_refl start, ordered.2.1.1⟩
      have late := begins first one
      rcases mem_cons.mp two with rfl | inside
      · omega
      · have near := close last inside
        omega

end Calls

/-- The guard does its part exactly when no window opens inside of a span that holds too many calls, unless the budget
    of the one before is used up. -/
theorem guards_iff (b : Budget) (times : List Nat) (ordered : times.Pairwise (· ≤ ·)) :
    Guards b times ↔ Exhausted b times := by
  constructor
  · intro guards
    exact stops_exhausted guards.stops
  · intro exhausted
    exact ⟨fun _ _ _ => exhausted_stops exhausted, few_let ordered⟩

def shipped : Budget := ⟨5, 30⟩

theorem crowded_stopped : Guards shipped [0, 1, 2, 3, 4, 5] ↔ Exhausted shipped [0, 1, 2, 3, 4, 5] :=
  guards_iff shipped [0, 1, 2, 3, 4, 5] (by decide)

/-- Six calls within six seconds, three on either side of the end of a window. -/
theorem straddling_unguarded : ¬ Guards shipped [0, 27, 28, 29, 31, 32, 33] := fun guards =>
  absurd (guards.stops [0] [27, 28, 29, 31, 32, 33] [] rfl (by decide) (by unfold Within; decide)) (by decide)

end PieRelay.RestartTracker
