import Mathlib.Algebra.Order.BigOperators.Group.List
import Mathlib.Algebra.Order.Ring.Rat
import Mathlib.Data.Rat.Cast.Order
import Mathlib.Tactic.Ring
import PieRelay.Refills

/-!
The rate limiter of a relay connection, server/internal/relay/limits.go. The amounts are exact rationals; a time is a
number of nanoseconds, and a difference of times saturates like a `time.Duration`.
-/
namespace PieRelay.RateLimits
open List
open Refills (Draw refilled)

structure Limits where
  maxParticipantsPerRoom : Int
  framesPerSecond : ℚ
  frameBurst : ℚ
  bytesPerSecond : ℚ
  byteBurst : ℚ

def defaultLimits : Limits := ⟨64, 240, 480, 8388608, 16777216⟩

def normalizeLimits (l : Limits) : Limits where
  maxParticipantsPerRoom :=
    if 0 < l.maxParticipantsPerRoom then l.maxParticipantsPerRoom else defaultLimits.maxParticipantsPerRoom
  framesPerSecond := if 0 < l.framesPerSecond then l.framesPerSecond else defaultLimits.framesPerSecond
  frameBurst := if 0 < l.frameBurst then l.frameBurst else defaultLimits.frameBurst
  bytesPerSecond := if 0 < l.bytesPerSecond then l.bytesPerSecond else defaultLimits.bytesPerSecond
  byteBurst := if 0 < l.byteBurst then l.byteBurst else defaultLimits.byteBurst

structure TokenBucket where
  frameRate : ℚ
  frameBurst : ℚ
  frameTokens : ℚ
  byteRate : ℚ
  byteBurst : ℚ
  byteTokens : ℚ
  last : Int

def newTokenBucket (l : Limits) (now : Int) : TokenBucket :=
  ⟨l.framesPerSecond, l.frameBurst, l.frameBurst, l.bytesPerSecond, l.byteBurst, l.byteBurst, now⟩

def sub (later earlier : Int) : Int := max (-2 ^ 63) (min (2 ^ 63 - 1) (later - earlier))

def seconds (d : Int) : ℚ := d / 1000000000

def refill (b : TokenBucket) (now : Int) : TokenBucket :=
  let now := if now < b.last then b.last else now
  let elapsed := seconds (sub now b.last)
  { b with
    last := now
    frameTokens := refilled b.frameRate b.frameBurst b.frameTokens elapsed
    byteTokens := refilled b.byteRate b.byteBurst b.byteTokens elapsed }

def allow (b : TokenBucket) (bytes : Int) (now : Int) : TokenBucket × Bool :=
  let b := refill b now
  if b.frameTokens < 1 ∨ b.byteTokens < bytes then (b, false)
  else ({ b with frameTokens := b.frameTokens - 1, byteTokens := b.byteTokens - bytes }, true)

structure Call where
  bytes : Int
  now : Int

def run (b : TokenBucket) : List Call → TokenBucket × List Int
  | [] => (b, [])
  | call :: rest =>
    let (b, admitted) := allow b call.bytes call.now
    let (b, sizes) := run b rest
    (b, if admitted then call.bytes :: sizes else sizes)

def clock (start : Int) (calls : List Call) : Int := calls.foldl (fun latest call => max latest call.now) start

structure Usable (l : Limits) : Prop where
  frameRate : 0 ≤ l.framesPerSecond
  frameBurst : 0 ≤ l.frameBurst
  byteRate : 0 ≤ l.bytesPerSecond
  byteBurst : 0 ≤ l.byteBurst

structure Balanced (l : Limits) (b : TokenBucket) : Prop where
  frameRate : b.frameRate = l.framesPerSecond
  frameBurst : b.frameBurst = l.frameBurst
  byteRate : b.byteRate = l.bytesPerSecond
  byteBurst : b.byteBurst = l.byteBurst
  frames : 0 ≤ b.frameTokens ∧ b.frameTokens ≤ l.frameBurst
  bytes : 0 ≤ b.byteTokens

section Calls
variable {l : Limits} {b : TokenBucket}

theorem forward_seconds (b : TokenBucket) (now : Int) : 0 ≤ seconds (sub (refill b now).last b.last) ∧
      seconds (sub (refill b now).last b.last) ≤ seconds ((refill b now).last - b.last) := by
  have later : b.last ≤ (refill b now).last := by
    change b.last ≤ if now < b.last then b.last else now
    split <;> omega
  have span : 0 ≤ sub (refill b now).last b.last ∧ sub (refill b now).last b.last ≤ (refill b now).last - b.last := by
    unfold sub
    omega
  unfold seconds
  refine ⟨div_nonneg (Int.cast_nonneg span.1) (by norm_num), ?_⟩
  exact div_le_div_of_nonneg_right (Int.cast_le.mpr span.2) (by norm_num)

theorem refill_last (b : TokenBucket) (now : Int) : (refill b now).last = max b.last now := by
  change (if now < b.last then b.last else now) = max b.last now
  split <;> omega

/-- Of a call that is denied nothing remains but the refill. -/
theorem allow_denied {bytes : Int} {now : Int} (denied : (allow b bytes now).2 = false) :
    (allow b bytes now).1 = refill b now := by
  unfold allow at denied ⊢
  dsimp only at denied ⊢
  split
  · rfl
  next taken =>
    rw [if_neg taken] at denied
    cases denied

theorem allow_admitted {bytes : Int} {now : Int} (admitted : (allow b bytes now).2) :
    1 ≤ (refill b now).frameTokens ∧ bytes ≤ (refill b now).byteTokens ∧ (allow b bytes now).1 = { refill b now with
      frameTokens := (refill b now).frameTokens - 1
      byteTokens := (refill b now).byteTokens - bytes } := by
  unfold allow at admitted ⊢
  dsimp only at admitted ⊢
  split at admitted
  · cases admitted
  next room =>
    rw [if_neg room]
    exact ⟨not_lt.mp fun few => room (.inl few), not_lt.mp fun few => room (.inr few), rfl⟩

section
variable (usable : Usable l) (balanced : Balanced l b)
include usable balanced

theorem refill_balanced (now : Int) : Balanced l (refill b now) := by
  obtain ⟨forward, _⟩ := forward_seconds b now
  refine ⟨balanced.frameRate, balanced.frameBurst, balanced.byteRate, balanced.byteBurst, ⟨?_, ?_⟩, ?_⟩
  · exact le_min (balanced.frameBurst ▸ usable.frameBurst)
      (add_nonneg balanced.frames.1 (mul_nonneg forward (balanced.frameRate ▸ usable.frameRate)))
  · exact balanced.frameBurst ▸ Refills.refilled_limit
  · exact le_min (balanced.byteBurst ▸ usable.byteBurst)
      (add_nonneg balanced.bytes (mul_nonneg forward (balanced.byteRate ▸ usable.byteRate)))

theorem allow_balanced (bytes : Int) (now : Int) : Balanced l (allow b bytes now).1 := by
  have filled := refill_balanced usable balanced now
  cases result : (allow b bytes now).2 with
  | false =>
    rw [allow_denied result]
    exact filled
  | true =>
    obtain ⟨frame, enough, after⟩ := allow_admitted result
    rw [after]
    refine ⟨filled.frameRate, filled.frameBurst, filled.byteRate, filled.byteBurst, ⟨?_, ?_⟩, ?_⟩
    · exact sub_nonneg.mpr frame
    · exact le_trans (sub_le_self _ zero_le_one) filled.frames.2
    · exact sub_nonneg.mpr enough

theorem run_balanced (calls : List Call) : Balanced l (run b calls).1 := by
  induction calls generalizing b with
  | nil => exact balanced
  | cons call calls ih => exact ih (allow_balanced usable balanced call.bytes call.now)

end

theorem allow_within {bytes : Int} (size : 0 ≤ bytes) (now : Int) : (allow b bytes now).1.byteTokens ≤ b.byteBurst := by
  have filled : (refill b now).byteTokens ≤ b.byteBurst := Refills.refilled_limit
  cases result : (allow b bytes now).2 with
  | false =>
    rw [allow_denied result]
    exact filled
  | true =>
    obtain ⟨_, _, after⟩ := allow_admitted result
    rw [after]
    exact le_trans (sub_le_self _ (Int.cast_nonneg size)) filled

def draws (amount : Int → ℚ) (b : TokenBucket) : List Call → List (Draw ℚ)
  | [] => []
  | call :: rest =>
    ⟨seconds (sub (refill b call.now).last b.last), if (allow b call.bytes call.now).2 then amount call.bytes else 0⟩ ::
      draws amount (allow b call.bytes call.now).1 rest

theorem allow_frames (b : TokenBucket) (bytes : Int) (now : Int) : (allow b bytes now).1.frameTokens =
    (refill b now).frameTokens - if (allow b bytes now).2 then 1 else 0 := by
  cases result : (allow b bytes now).2 with
  | false => rw [allow_denied result, if_neg Bool.false_ne_true, sub_zero]
  | true => rw [(allow_admitted result).2.2, if_pos rfl]

theorem allow_bytes (b : TokenBucket) (bytes : Int) (now : Int) : (allow b bytes now).1.byteTokens =
    (refill b now).byteTokens - if (allow b bytes now).2 then (bytes : ℚ) else 0 := by
  cases result : (allow b bytes now).2 with
  | false => rw [allow_denied result, if_neg Bool.false_ne_true, sub_zero]
  | true => rw [(allow_admitted result).2.2, if_pos rfl]

theorem allow_rates (b : TokenBucket) (bytes : Int) (now : Int) :
    (allow b bytes now).1.frameRate = b.frameRate ∧ (allow b bytes now).1.frameBurst = b.frameBurst ∧
      (allow b bytes now).1.byteRate = b.byteRate ∧ (allow b bytes now).1.byteBurst = b.byteBurst ∧
      (allow b bytes now).1.last = max b.last now := by
  have last := refill_last b now
  cases result : (allow b bytes now).2 with
  | false =>
    rw [allow_denied result]
    exact ⟨rfl, rfl, rfl, rfl, last⟩
  | true =>
    rw [(allow_admitted result).2.2]
    exact ⟨rfl, rfl, rfl, rfl, last⟩

theorem run_frames (b : TokenBucket) (calls : List Call) :
    (run b calls).1.frameTokens = Refills.after b.frameRate b.frameBurst b.frameTokens (draws (fun _ => 1) b calls) := by
  induction calls generalizing b with
  | nil => rfl
  | cons call calls ih =>
    obtain ⟨rate, burst, _⟩ := allow_rates b call.bytes call.now
    have rest := ih (allow b call.bytes call.now).1
    rw [rate, burst, allow_frames] at rest
    exact rest

theorem run_bytes (b : TokenBucket) (calls : List Call) :
    (run b calls).1.byteTokens = Refills.after b.byteRate b.byteBurst b.byteTokens (draws (fun bytes => bytes) b calls) := by
  induction calls generalizing b with
  | nil => rfl
  | cons call calls ih =>
    obtain ⟨_, _, rate, burst, _⟩ := allow_rates b call.bytes call.now
    have rest := ih (allow b call.bytes call.now).1
    rw [rate, burst, allow_bytes] at rest
    exact rest

theorem run_cons (b : TokenBucket) (call : Call) (calls : List Call) :
    run b (call :: calls) = ((run (allow b call.bytes call.now).1 calls).1,
      if (allow b call.bytes call.now).2 then call.bytes :: (run (allow b call.bytes call.now).1 calls).2
      else (run (allow b call.bytes call.now).1 calls).2) := by
  rw [run]

theorem draws_taken (amount : Int → ℚ) (b : TokenBucket) (calls : List Call) :
    Refills.taken (draws amount b calls) = ((run b calls).2.map amount).sum := by
  induction calls generalizing b with
  | nil => rfl
  | cons call calls ih =>
    rw [draws, Refills.taken_cons, ih, run_cons]
    cases (allow b call.bytes call.now).2 with
    | false => exact zero_add _
    | true => exact sum_cons.symm

theorem draws_passed (amount : Int → ℚ) (b : TokenBucket) (calls : List Call) :
    Refills.passed (draws amount b calls) ≤ seconds (clock b.last calls - b.last) := by
  induction calls generalizing b with
  | nil => simp [draws, Refills.passed, clock, seconds]
  | cons call calls ih =>
    have rest := ih (allow b call.bytes call.now).1
    have here := (forward_seconds b call.now).2
    rw [(allow_rates b call.bytes call.now).2.2.2.2] at rest
    rw [refill_last] at here
    have whole : seconds (clock b.last (call :: calls) - b.last) =
        seconds (max b.last call.now - b.last) + seconds (clock (max b.last call.now) calls - max b.last call.now) := by
      rw [clock, foldl_cons, ← clock]
      unfold seconds
      push_cast
      ring
    rw [draws, Refills.passed_cons, whole, refill_last]
    exact add_le_add here rest

theorem stretch_bound (amount : Int → ℚ) {rate burst level : ℚ} (rising : 0 ≤ rate) (b : TokenBucket) (first : Call)
    (rest : List Call) (left : 0 ≤ Refills.after rate burst level (draws amount b (first :: rest))) :
    ((run b (first :: rest)).2.map amount).sum ≤
      burst + rate * seconds (clock b.last (first :: rest) - clock b.last [first]) := by
  have limited := @Refills.taken_limited _ _ _ _ rate burst level
    ⟨seconds (sub (refill b first.now).last b.last), if (allow b first.bytes first.now).2 then amount first.bytes else 0⟩
    (draws amount (allow b first.bytes first.now).1 rest)
  have span := draws_passed amount (allow b first.bytes first.now).1 rest
  rw [(allow_rates b first.bytes first.now).2.2.2.2] at span
  rw [← draws_taken amount b (first :: rest)]
  calc Refills.taken (draws amount b (first :: rest))
      ≤ burst + Refills.passed (draws amount (allow b first.bytes first.now).1 rest) * rate :=
        le_trans (le_add_of_nonneg_left left) limited
    _ ≤ burst + seconds (clock b.last (first :: rest) - clock b.last [first]) * rate :=
        add_le_add_right (mul_le_mul_of_nonneg_right span rising) burst
    _ = burst + rate * seconds (clock b.last (first :: rest) - clock b.last [first]) := by rw [mul_comm]

theorem run_last (b : TokenBucket) (calls : List Call) : (run b calls).1.last = clock b.last calls := by
  induction calls generalizing b with
  | nil => rfl
  | cons call calls ih =>
    have rest := ih (allow b call.bytes call.now).1
    rw [(allow_rates b call.bytes call.now).2.2.2.2] at rest
    exact rest

theorem run_within {calls : List Call} (sizes : ∀ call ∈ calls, 0 ≤ call.bytes) (within : b.byteTokens ≤ b.byteBurst) :
    (run b calls).1.byteTokens ≤ b.byteBurst := by
  induction calls generalizing b with
  | nil => exact within
  | cons call calls ih =>
    have one := allow_within (b := b) (sizes call mem_cons_self) call.now
    obtain ⟨_, _, _, burst, _⟩ := allow_rates b call.bytes call.now
    have rest := ih (b := (allow b call.bytes call.now).1) (fun other member => sizes other (mem_cons_of_mem _ member))
      (burst ▸ one)
    rw [burst] at rest
    exact rest

end Calls

/-- The balances stay between nothing and their bursts, the bytes' one as long as no size is negative; what a stretch of
    calls admits is bounded by a burst and the time from its first call on; a call that is denied takes nothing. -/
theorem limiter_bounds (l : Limits) (usable : Usable l) (start : Int) (before : List Call) :
    let b := (run (newTokenBucket l start) before).1
    (0 ≤ b.frameTokens ∧ b.frameTokens ≤ l.frameBurst) ∧ 0 ≤ b.byteTokens ∧
      ((∀ call ∈ before, 0 ≤ call.bytes) → b.byteTokens ≤ l.byteBurst) ∧
      (∀ (first : Call) (rest : List Call),
        let elapsed := seconds (clock start (before ++ first :: rest) - clock start (before ++ [first]))
        ((run b (first :: rest)).2.length : ℚ) ≤ l.frameBurst + l.framesPerSecond * elapsed ∧
          (((run b (first :: rest)).2.sum : Int) : ℚ) ≤ l.byteBurst + l.bytesPerSecond * elapsed) ∧
      ∀ (bytes now : Int), (allow b bytes now).2 = false → (allow b bytes now).1 = refill b now ∧
        b.frameTokens ≤ (refill b now).frameTokens ∧
        (b.byteTokens ≤ l.byteBurst → b.byteTokens ≤ (refill b now).byteTokens) := by
  have fresh : Balanced l (newTokenBucket l start) :=
    ⟨rfl, rfl, rfl, rfl, ⟨usable.frameBurst, le_refl _⟩, usable.byteBurst⟩
  have balanced := run_balanced usable fresh before
  have last : (run (newTokenBucket l start) before).1.last = clock start before := run_last _ before
  have within (sizes : ∀ call ∈ before, 0 ≤ call.bytes) : (run (newTokenBucket l start) before).1.byteTokens ≤ l.byteBurst :=
    run_within (b := newTokenBucket l start) sizes (le_refl _)
  generalize (run (newTokenBucket l start) before).1 = b at *
  refine ⟨balanced.frames, balanced.bytes, within, fun first rest => ?_, fun bytes now denied => ⟨allow_denied denied, ?_, ?_⟩⟩
  · have after := run_balanced usable balanced (first :: rest)
    have whole : clock start (before ++ first :: rest) = clock b.last (first :: rest) := by
      rw [last, clock, foldl_append, ← clock, ← clock]
    have head : clock start (before ++ [first]) = clock b.last [first] := by
      rw [last, clock, foldl_append, ← clock, ← clock]
    rw [whole, head]
    constructor
    · have left := after.frames.1
      rw [run_frames, balanced.frameRate, balanced.frameBurst] at left
      have bound := stretch_bound (fun _ => 1) usable.frameRate b first rest left
      rw [map_const', sum_replicate, nsmul_eq_mul, mul_one] at bound
      exact bound
    · have left := after.bytes
      rw [run_bytes, balanced.byteRate, balanced.byteBurst] at left
      have bound := stretch_bound (fun bytes => bytes) usable.byteRate b first rest left
      have cast : ((run b (first :: rest)).2.map fun bytes : Int => (bytes : ℚ)).sum =
          (((run b (first :: rest)).2.sum : Int) : ℚ) :=
        (map_list_sum (Int.castRingHom ℚ) _).symm
      rw [cast] at bound
      exact bound
  · exact Refills.refilled_grows (balanced.frameBurst ▸ balanced.frames.2) (forward_seconds b now).1
      (balanced.frameRate ▸ usable.frameRate)
  · intro below
    exact Refills.refilled_grows (balanced.byteBurst ▸ below) (forward_seconds b now).1 (balanced.byteRate ▸ usable.byteRate)

theorem defaults_bound :
    let b := (run (newTokenBucket defaultLimits 0) [⟨20, 0⟩]).1
    (0 ≤ b.frameTokens ∧ b.frameTokens ≤ defaultLimits.frameBurst) ∧ 0 ≤ b.byteTokens ∧
      ((∀ call ∈ [Call.mk 20 0], 0 ≤ call.bytes) → b.byteTokens ≤ defaultLimits.byteBurst) ∧
      (∀ (first : Call) (rest : List Call),
        let elapsed := seconds (clock 0 ([⟨20, 0⟩] ++ first :: rest) - clock 0 ([⟨20, 0⟩] ++ [first]))
        ((run b (first :: rest)).2.length : ℚ) ≤ defaultLimits.frameBurst + defaultLimits.framesPerSecond * elapsed ∧
          (((run b (first :: rest)).2.sum : Int) : ℚ) ≤ defaultLimits.byteBurst + defaultLimits.bytesPerSecond * elapsed) ∧
      ∀ (bytes now : Int), (allow b bytes now).2 = false → (allow b bytes now).1 = refill b now ∧
        b.frameTokens ≤ (refill b now).frameTokens ∧
        (b.byteTokens ≤ defaultLimits.byteBurst → b.byteTokens ≤ (refill b now).byteTokens) :=
  limiter_bounds defaultLimits ⟨by decide, by decide, by decide, by decide⟩ 0 [⟨20, 0⟩]

/-- A negative size, a negative burst, and a negative rate. -/
theorem limiter_oversteps : defaultLimits.byteBurst < (run (newTokenBucket defaultLimits 0) [⟨-5, 0⟩]).1.byteTokens ∧
      (newTokenBucket { defaultLimits with frameBurst := -1 } 0).frameTokens < 0 ∧
      (run (newTokenBucket { defaultLimits with framesPerSecond := -1 } 0) [⟨20, 481000000000⟩]).1.frameTokens < 0 := by
  decide +kernel

end PieRelay.RateLimits
