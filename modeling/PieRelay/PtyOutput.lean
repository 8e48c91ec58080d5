import Mathlib.Data.List.Basic
import PieRelay.Executions
import PieRelay.JsonScanner

/-!
The two buffers on the way from a PTY to stdout, client/node-executor/pty-host.mjs: `PtyOutputBatcher` and `NDJSONWriter`.
What makes a line of a chunk is a parameter, as is which writes stdout takes. An exception that nobody catches ends the
process.
-/
namespace PieRelay.PtyOutput
open Executions List
open JsonScanner (Bytes)

def stdoutQueueBytes : Nat := 16 * 1024 * 1024

structure Options where
  chunkBytes : Nat
  /-- The line of a chunk, with its number. -/
  line : Nat → Bytes → Bytes
  /-- Whether `process.stdout.write` returns true for the line of that index. -/
  takes : Nat → Bool

structure Host where
  /-- `PtyOutputBatcher` -/
  parts : List Bytes
  bytes : Nat
  timer : Bool
  /-- `NDJSONWriter`, and whether the PTY is paused; `drains` are the listeners for `drain`. -/
  queue : List Bytes
  queuedBytes : Nat
  blocked : Bool
  paused : Bool
  drains : Nat
  ended : Bool
  /-- What has been pushed, the chunks that were emitted for it, the lines in the order they were written to the writer,
      and those that were handed to stdout. -/
  pushed : Bytes
  emitted : List Bytes
  written : List Bytes
  stdout : List Bytes

def started : Host := ⟨[], 0, false, [], 0, false, false, 0, false, [], [], [], []⟩

section Host
variable (o : Options)

def setBlocked (value : Bool) (h : Host) : Host :=
  if h.blocked = value then h
  else { h with blocked := value, paused := value, drains := if value then h.drains + 1 else h.drains }

def hand (line : Bytes) (h : Host) : Host × Bool := ({ h with stdout := h.stdout ++ [line] }, o.takes h.stdout.length)

def write (line : Bytes) (h : Host) : Host × Bool :=
  let h := { h with written := h.written ++ [line] }
  if h.blocked ∨ h.queue ≠ [] then
    let h := { h with queue := h.queue ++ [line], queuedBytes := h.queuedBytes + line.length }
    (h, stdoutQueueBytes < h.queuedBytes)
  else if (hand o line h).2 then ((hand o line h).1, false)
  else (setBlocked true (hand o line h).1, false)

def drainLines : List Bytes → Host → Host
  | [], h => { h with queue := [] }
  | line :: rest, h =>
    let h := { h with queue := rest, queuedBytes := h.queuedBytes - line.length }
    if (hand o line h).2 then drainLines rest (hand o line h).1 else setBlocked true (hand o line h).1

def drain (h : Host) : Host := drainLines o h.queue { h with blocked := false, paused := false }

def flush (h : Host) : Host × Bool :=
  let h := { h with timer := false }
  if h.bytes = 0 then (h, false)
  else write o (o.line (h.emitted.length + 1) h.parts.flatten)
    { h with parts := [], bytes := 0, emitted := h.emitted ++ [h.parts.flatten] }

def pushParts : Nat → Bytes → Host → Host × Bool
  | 0, _, h => (h, false)
  | fuel + 1, buf, h =>
    if buf = [] then (h, false)
    else
      let take := min (o.chunkBytes - h.bytes) buf.length
      let h := { h with parts := h.parts ++ [buf.take take], bytes := h.bytes + take }
      if h.bytes = o.chunkBytes then
        if (flush o h).2 then flush o h else pushParts fuel (buf.drop take) (flush o h).1
      else pushParts fuel (buf.drop take) h

def push (data : Bytes) (h : Host) : Host × Bool :=
  let done := pushParts o (data.length + 1) data { h with pushed := h.pushed ++ data }
  if done.2 then done else ({ done.1 with timer := done.1.timer ∨ 0 < done.1.bytes }, false)

def ends (done : Host × Bool) : Host := if done.2 then { done.1 with ended := true } else done.1

inductive Action where
  | push (data : Bytes)
  | timer
  | flush
  | write (line : Bytes) (caught : Bool)
  | drain

def step (h : Host) (action : Action) : Option Host :=
  if h.ended then none
  else match action with
    | .push data => some (ends (push o data h))
    | .timer => if h.timer then some (ends (flush o h)) else none
    | .flush => some (ends (flush o h))
    | .write line caught => some (if caught then (write o line h).1 else ends (write o line h))
    | .drain => if 0 < h.drains then some (drain o { h with drains := h.drains - 1 }) else none

/-- Nothing is lost or out of order; where the process has ended, what had been pushed last may be. -/
structure Lossless (h : Host) : Prop where
  bytes : h.emitted.flatten ++ h.parts.flatten <+: h.pushed
  all : h.ended = false → h.emitted.flatten ++ h.parts.flatten = h.pushed
  chunks : ∀ chunk ∈ h.emitted, chunk ≠ [] ∧ chunk.length ≤ o.chunkBytes
  armed : h.ended = false → h.parts.flatten ≠ [] → h.timer
  lines : h.stdout ++ h.queue = h.written
  counted : h.queuedBytes = h.queue.flatten.length
  paused : h.paused = h.blocked

end Host

section Runs
variable {o : Options} {h : Host} {rest : Bytes}

structure Same (h next : Host) : Prop where
  parts : next.parts = h.parts
  bytes : next.bytes = h.bytes
  timer : next.timer = h.timer
  pushed : next.pushed = h.pushed
  emitted : next.emitted = h.emitted
  ended : next.ended = h.ended

structure Writes (h : Host) : Prop where
  lines : h.stdout ++ h.queue = h.written
  counted : h.queuedBytes = h.queue.flatten.length
  paused : h.paused = h.blocked

theorem set_blocked_writes (value : Bool) (writes : Writes h) :
    Writes (setBlocked value h) ∧ Same h (setBlocked value h) := by
  unfold setBlocked
  split
  · exact ⟨writes, rfl, rfl, rfl, rfl, rfl, rfl⟩
  · exact ⟨⟨writes.lines, writes.counted, rfl⟩, rfl, rfl, rfl, rfl, rfl, rfl⟩

theorem write_writes (line : Bytes) (writes : Writes h) : Writes (write o line h).1 ∧ Same h (write o line h).1 := by
  obtain ⟨lines, counted, paused⟩ := writes
  unfold write
  dsimp only
  split
  · refine ⟨⟨?_, ?_, paused⟩, rfl, rfl, rfl, rfl, rfl, rfl⟩
    · rw [← lines, append_assoc]
    · rw [flatten_append, length_append, counted, flatten_singleton]
  · next free =>
    rw [not_or, not_not] at free
    have handed : Writes { h with written := h.written ++ [line], stdout := h.stdout ++ [line] } := by
      refine ⟨?_, counted, paused⟩
      show h.stdout ++ [line] ++ h.queue = h.written ++ [line]
      rw [← lines, free.2, append_nil, append_nil]
    split
    · exact ⟨handed, rfl, rfl, rfl, rfl, rfl, rfl⟩
    · obtain ⟨blocks, same⟩ := set_blocked_writes true handed
      exact ⟨blocks, same.parts, same.bytes, same.timer, same.pushed, same.emitted, same.ended⟩

theorem drain_lines_writes (queue : List Bytes) (lines : h.stdout ++ queue = h.written)
    (counted : h.queuedBytes = queue.flatten.length) (paused : h.paused = h.blocked) :
    Writes (drainLines o queue h) ∧ Same h (drainLines o queue h) := by
  induction queue generalizing h with
  | nil => exact ⟨⟨lines, counted, paused⟩, rfl, rfl, rfl, rfl, rfl, rfl⟩
  | cons line rest ih =>
    have left : h.queuedBytes - line.length = rest.flatten.length := by
      rw [counted, flatten_cons, length_append, Nat.add_sub_cancel_left]
    have order : h.stdout ++ [line] ++ rest = h.written := by rw [append_assoc, ← lines]; rfl
    rw [drainLines]
    split
    · obtain ⟨writes, same⟩ := ih (h := { h with
        queue := rest, queuedBytes := h.queuedBytes - line.length, stdout := h.stdout ++ [line] }) order left paused
      exact ⟨writes, same.parts, same.bytes, same.timer, same.pushed, same.emitted, same.ended⟩
    · obtain ⟨writes, same⟩ := set_blocked_writes (h := { h with
        queue := rest, queuedBytes := h.queuedBytes - line.length, stdout := h.stdout ++ [line] }) true
        ⟨order, left, paused⟩
      exact ⟨writes, same.parts, same.bytes, same.timer, same.pushed, same.emitted, same.ended⟩

/-- What has been pushed has been emitted, is in the batch, or is the rest that has not been looked at. -/
structure Kept (o : Options) (h : Host) (rest : Bytes) : Prop where
  total : h.emitted.flatten ++ h.parts.flatten ++ rest = h.pushed
  size : h.bytes = h.parts.flatten.length
  room : h.bytes ≤ o.chunkBytes
  chunks : ∀ chunk ∈ h.emitted, chunk ≠ [] ∧ chunk.length ≤ o.chunkBytes
  writes : Writes h

theorem flush_kept (kept : Kept o h rest) : Kept o (flush o h).1 rest ∧ (flush o h).1.bytes = 0 := by
  obtain ⟨total, size, room, chunks, writes⟩ := kept
  unfold flush
  dsimp only
  split
  · next none_ => exact ⟨⟨total, size, room, chunks, writes.lines, writes.counted, writes.paused⟩, none_⟩
  · next some_ =>
    obtain ⟨written, same⟩ := write_writes (o := o) (o.line (h.emitted.length + 1) h.parts.flatten)
      (h := { h with timer := false, parts := [], bytes := 0, emitted := h.emitted ++ [h.parts.flatten] })
      ⟨writes.lines, writes.counted, writes.paused⟩
    refine ⟨⟨?_, ?_, ?_, ?_, written⟩, same.bytes⟩
    · rw [same.emitted, same.parts, same.pushed]
      simpa using total
    · rw [same.bytes, same.parts]
      rfl
    · rw [same.bytes]
      exact Nat.zero_le _
    · rw [same.emitted, forall_mem_append]
      refine ⟨chunks, forall_mem_singleton.mpr ⟨fun none_ => some_ ?_, size ▸ room⟩⟩
      rw [size, none_]
      rfl

theorem push_parts_kept (positive : 0 < o.chunkBytes) (fuel : Nat) {buf : Bytes} (enough : buf.length < fuel)
    (kept : Kept o h buf) (room : h.bytes < o.chunkBytes) :
    ∃ rest, Kept o (pushParts o fuel buf h).1 rest ∧
      ((pushParts o fuel buf h).2 = false → rest = [] ∧ (pushParts o fuel buf h).1.bytes < o.chunkBytes) := by
  induction fuel generalizing h buf with
  | zero => exact absurd enough (Nat.not_lt_zero _)
  | succ fuel ih =>
    rw [pushParts]
    split
    · next empty => exact ⟨[], empty ▸ kept, fun _ => ⟨rfl, room⟩⟩
    · next some_ =>
      have long := length_pos_iff.mpr some_
      obtain ⟨total, size, _, chunks, writes⟩ := kept
      have shorter : (buf.drop (min (o.chunkBytes - h.bytes) buf.length)).length < fuel := by
        rw [length_drop]
        omega
      have taken : Kept o { h with
          parts := h.parts ++ [buf.take (min (o.chunkBytes - h.bytes) buf.length)]
          bytes := h.bytes + min (o.chunkBytes - h.bytes) buf.length }
          (buf.drop (min (o.chunkBytes - h.bytes) buf.length)) := by
        refine ⟨?_, ?_, ?_, chunks, writes.lines, writes.counted, writes.paused⟩
        · rw [← total]
          simp [append_assoc, take_append_drop]
        · rw [flatten_append, length_append, flatten_singleton, length_take, ← size]
          dsimp only
          omega
        · dsimp only
          omega
      dsimp only
      split
      · obtain ⟨flushed, empty⟩ := flush_kept taken
        split
        · next threw => exact ⟨_, flushed, fun fine => absurd (threw.symm.trans fine) (by decide)⟩
        · exact ih shorter flushed (by omega)
      · next part => exact ih shorter taken (by dsimp only at part ⊢; omega)

structure Sound (o : Options) (h : Host) : Prop where
  kept : ∃ rest, Kept o h rest ∧ (h.ended = false → rest = [] ∧ h.bytes < o.chunkBytes)
  armed : h.ended = false → h.bytes ≠ 0 → h.timer

theorem ends_sound (done : Host × Bool) (kept : Kept o done.1 rest)
    (fine : done.2 = false → rest = [] ∧ done.1.bytes < o.chunkBytes ∧ (done.1.bytes ≠ 0 → done.1.timer)) :
    Sound o (ends done) := by
  unfold ends
  split
  · exact ⟨⟨rest, ⟨kept.total, kept.size, kept.room, kept.chunks, kept.writes.lines, kept.writes.counted,
      kept.writes.paused⟩, nofun⟩, nofun⟩
  · next returned =>
    obtain ⟨none_, room, armed⟩ := fine (Bool.eq_false_iff.mpr returned)
    exact ⟨⟨rest, kept, fun _ => ⟨none_, room⟩⟩, fun _ => armed⟩

theorem flush_sound (positive : 0 < o.chunkBytes) (kept : Kept o h []) : Sound o (ends (flush o h)) := by
  obtain ⟨flushed, empty⟩ := flush_kept kept
  refine ends_sound _ flushed fun _ => ⟨rfl, ?_, fun some_ => absurd empty some_⟩
  rw [empty]
  exact positive

theorem same_kept {next : Host} (kept : Kept o h rest) (same : Same h next) (writes : Writes next) : Kept o next rest := by
  obtain ⟨total, size, room, chunks, _⟩ := kept
  rw [← same.emitted, ← same.parts, ← same.pushed] at total
  rw [← same.bytes, ← same.parts] at size
  rw [← same.bytes] at room
  rw [← same.emitted] at chunks
  exact ⟨total, size, room, chunks, writes⟩

theorem step_sound (positive : 0 < o.chunkBytes) (h : Host) (action : Action) (next : Host) (sound : Sound o h)
    (stepped : step o h action = some next) : Sound o next := by
  unfold step at stepped
  split at stepped
  · cases stepped
  next running =>
  rw [Bool.not_eq_true] at running
  obtain ⟨⟨rest, kept, fine⟩, armed⟩ := sound
  obtain ⟨rfl, room⟩ := fine running
  cases action with
  | push data =>
    cases stepped
    have begun : Kept o { h with pushed := h.pushed ++ data } data := by
      obtain ⟨total, size, room, chunks, writes⟩ := kept
      refine ⟨?_, size, room, chunks, writes.lines, writes.counted, writes.paused⟩
      rw [append_nil] at total
      exact congrArg (· ++ data) total
    obtain ⟨rest, kept, fine⟩ := push_parts_kept positive (data.length + 1) (Nat.lt_succ_self _) begun room
    unfold push
    dsimp only
    split
    · next threw => exact ends_sound _ kept fun fine => absurd (threw.symm.trans fine) (by decide)
    · next returned =>
      obtain ⟨none_, room⟩ := fine (Bool.eq_false_iff.mpr returned)
      obtain ⟨total, size, small, chunks, writes⟩ := kept
      refine ends_sound _ ⟨total, size, small, chunks, writes.lines, writes.counted, writes.paused⟩
        fun _ => ⟨none_, room, fun some_ => ?_⟩
      exact decide_eq_true (.inr (Nat.pos_of_ne_zero some_))
  | timer =>
    simp only at stepped
    split at stepped
    · cases stepped
      exact flush_sound positive kept
    · cases stepped
  | flush =>
    cases stepped
    exact flush_sound positive kept
  | write line =>
    cases stepped
    obtain ⟨writes, same⟩ := write_writes (o := o) line kept.writes
    have onward := same_kept kept same writes
    have fine : (write o line h).1.bytes < o.chunkBytes ∧
        ((write o line h).1.bytes ≠ 0 → (write o line h).1.timer) := by
      rw [same.bytes, same.timer]
      exact ⟨room, armed running⟩
    split
    · exact ⟨⟨[], onward, fun _ => ⟨rfl, fine.1⟩⟩, fun _ => fine.2⟩
    · exact ends_sound _ onward fun _ => ⟨rfl, fine⟩
  | drain =>
    simp only at stepped
    split at stepped
    · cases stepped
      obtain ⟨writes, same⟩ := drain_lines_writes (o := o)
        (h := { h with drains := h.drains - 1, blocked := false, paused := false }) h.queue kept.writes.lines
        kept.writes.counted rfl
      refine ⟨⟨[], same_kept (h := h) kept ⟨same.parts, same.bytes, same.timer, same.pushed, same.emitted, same.ended⟩
        writes, fun _ => ⟨rfl, ?_⟩⟩, fun _ => ?_⟩
      · rw [drain, same.bytes]
        exact room
      · rw [drain, same.bytes, same.timer]
        exact armed running
    · cases stepped

theorem output_lossless (o : Options) (positive : 0 < o.chunkBytes) {actions : List Action} {h : Host}
    (ran : run (step o) started actions = some h) : Lossless o h := by
  have begun : Sound o started :=
    ⟨⟨[], ⟨rfl, rfl, Nat.zero_le _, nofun, rfl, rfl, rfl⟩, fun _ => ⟨rfl, positive⟩⟩, fun _ some_ => absurd rfl some_⟩
  obtain ⟨⟨rest, kept, fine⟩, armed⟩ := run_invariant (Sound o) (step_sound positive) ran begun
  refine ⟨⟨rest, kept.total⟩, fun running => ?_, kept.chunks, fun running some_ => armed running fun none_ => some_ ?_,
    kept.writes.lines, kept.writes.counted, kept.writes.paused⟩
  · have total := kept.total
    rwa [(fine running).1, append_nil] at total
  · exact eq_nil_of_length_eq_zero (kept.size.symm.trans none_)

end Runs

def small : Options := ⟨2, fun _ chunk => chunk, fun _ => false⟩

theorem small_lossless : 0 < small.chunkBytes ∧ ∃ h, run (step small) started [.push [1, 2, 3], .timer, .drain] = some h ∧
    Lossless small h := by
  have there : (run (step small) started [.push [1, 2, 3], .timer, .drain]).isSome := rfl
  obtain ⟨h, ran⟩ := Option.isSome_iff_exists.mp there
  exact ⟨by decide, h, ran, output_lossless small (by decide) ran⟩

/-- The queue is full, and the rest of what is pushed is never looked at. -/
theorem overflow_loses : ∃ h, run (step small) started
      [.write [123, 125] false, .write (replicate stdoutQueueBytes 32) false, .push [1, 2, 3]] = some h ∧
    h.pushed = [1, 2, 3] ∧ h.emitted.flatten ++ h.parts.flatten = [1, 2] := by
  have facts (large : Bytes) (full : large.length = stdoutQueueBytes) :
      (run (step small) started [.write [123, 125] false, .write large false, .push [1, 2, 3]]).map (fun h =>
        (h.pushed, h.emitted.flatten ++ h.parts.flatten)) = some ([1, 2, 3], [1, 2]) := by
    simp [run, step, started, small, ends, write, hand, setBlocked, push, pushParts, flush, full]
  obtain ⟨h, ran, facts⟩ := Option.map_eq_some_iff.mp (facts _ length_replicate)
  exact ⟨h, ran, congrArg Prod.fst facts, congrArg Prod.snd facts⟩

end PieRelay.PtyOutput
