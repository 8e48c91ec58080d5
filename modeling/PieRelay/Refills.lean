import Mathlib.Algebra.Order.Ring.Defs
import Mathlib.Tactic.Linarith

/-! A balance that grows with time up to a limit, and that is drawn on. Of one step it is known how much time has passed
before it and what has been taken. -/
namespace PieRelay.Refills
variable {K : Type} [CommRing K] [LinearOrder K] [IsStrictOrderedRing K]

def refilled (rate limit balance elapsed : K) : K := min limit (balance + elapsed * rate)

structure Draw (K : Type) where
  elapsed : K
  amount : K

def after (rate limit : K) : K → List (Draw K) → K
  | balance, [] => balance
  | balance, draw :: rest => after rate limit (refilled rate limit balance draw.elapsed - draw.amount) rest

def taken (draws : List (Draw K)) : K := (draws.map Draw.amount).sum

def passed (draws : List (Draw K)) : K := (draws.map Draw.elapsed).sum

section Refill
variable {rate limit balance elapsed : K}

omit [IsStrictOrderedRing K] in
theorem refilled_limit : refilled rate limit balance elapsed ≤ limit := min_le_left _ _

theorem refilled_grows (below : balance ≤ limit) (forward : 0 ≤ elapsed) (rising : 0 ≤ rate) :
    balance ≤ refilled rate limit balance elapsed :=
  le_min below (le_add_of_nonneg_right (mul_nonneg forward rising))

end Refill

section Draws
variable {rate limit : K}

omit [LinearOrder K] [IsStrictOrderedRing K] in
theorem taken_cons (draw : Draw K) (draws : List (Draw K)) : taken (draw :: draws) = draw.amount + taken draws :=
  List.sum_cons

omit [LinearOrder K] [IsStrictOrderedRing K] in
theorem passed_cons (draw : Draw K) (draws : List (Draw K)) : passed (draw :: draws) = draw.elapsed + passed draws :=
  List.sum_cons

/-- What has been taken is paid for by the balance before and the time that has passed. -/
theorem taken_paid (balance : K) (draws : List (Draw K)) :
    after rate limit balance draws + taken draws ≤ balance + passed draws * rate := by
  induction draws generalizing balance with
  | nil => simp [after, taken, passed]
  | cons draw draws ih =>
    have rest := ih (refilled rate limit balance draw.elapsed - draw.amount)
    have first : refilled rate limit balance draw.elapsed ≤ balance + draw.elapsed * rate := min_le_right _ _
    rw [after, taken_cons, passed_cons, add_mul]
    linarith

/-- However much time has passed before the first draw, no more can be there than the limit. -/
theorem taken_limited (balance : K) (draw : Draw K) (draws : List (Draw K)) :
    after rate limit balance (draw :: draws) + taken (draw :: draws) ≤ limit + passed draws * rate := by
  have rest := @taken_paid _ _ _ _ rate limit (refilled rate limit balance draw.elapsed - draw.amount) draws
  have first : refilled rate limit balance draw.elapsed ≤ limit := refilled_limit
  rw [after, taken_cons]
  linarith

end Draws

end PieRelay.Refills
