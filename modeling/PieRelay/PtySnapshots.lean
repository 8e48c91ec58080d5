import PieRelay.Executions
import PieRelay.ScrollFrames

/-!
The output of a terminal and its snapshots, client/node-executor/pty-host.mjs. The bytes of the PTY go two ways: into
batches, which are sent and numbered, and through a chain of promises into the emulator, one chunk after the other. A
request flushes the batch and waits for the chunks that are in the chain by then; what waits for a chunk runs right
behind it, before anything else happens. The emulator is a parameter. Left out: `streamId` and `incarnationId`, which do
not change, and the queue of stdout, which ends the process when it is full.
-/
namespace PieRelay.PtySnapshots
open Executions List Option
open JsonScanner (Bytes)

structure Emulator where
  State : Type
  initial : Int → Int → State
  write : State → Bytes → State
  resize : State → Int → Int → State
  serialize : State → Bytes

/-- A parsed line: members that are not of their type are none. Numbers are cut to integers. -/
structure Frame where
  type : String
  source : Option String
  target : Option String
  data : Option (List Nat)
  cols : Option Int
  rows : Option Int

inductive Route where
  | write (data : List Nat)
  | resize (cols rows : Int)
  | replay (viewer : String)
  | setDriver (target : String)
  | drop
  deriving DecidableEq

def routeFrame (frame : Frame) (driver : String) : Route :=
  if frame.type = "pty_input" then
    match frame.data with
    | some data => if driver ≠ "" ∧ frame.source = some driver then .write data else .drop
    | none => .drop
  else if frame.type = "pty_scroll" then
    match frame.data with
    | some data => if ScrollFrames.isScrollSequence data then .write data else .drop
    | none => .drop
  else if frame.type = "pty_resize" then
    match frame.cols, frame.rows with
    | some cols, some rows =>
      if driver ≠ "" ∧ frame.source = some driver then .resize (cols.bmod 4294967296) (rows.bmod 4294967296) else .drop
    | _, _ => .drop
  else if frame.type = "set_driver" then .setDriver (frame.target.getD "")
  else if frame.type = "request_screen" then
    match frame.source with
    | some viewer => if viewer = "" then .drop else .replay viewer
    | none => .drop
  else .drop

def chunkBytes : Nat := 16384

structure Batcher where
  parts : List Bytes
  bytes : Nat
  timer : Bool

/-- `consumed` is what the emulator has consumed, and `asked` how many frames had been sent behind the flush of the
    request. -/
structure Snapshot where
  viewer : String
  seq : Nat
  cols : Int
  rows : Int
  data : Bytes
  consumed : Bytes
  asked : Nat

inductive Out where
  | roomMode
  | driver (source : String)
  | size (cols rows : Int)
  | output (seq : Nat) (data : Bytes)
  | snapshot (s : Snapshot)
  | exit (code : Int)

structure Request where
  viewer : String
  left : Nat
  asked : Nat

structure World (E : Emulator) where
  headless : E.State
  cols : Int
  rows : Int
  driver : String
  batcher : Batcher
  outputSeq : Nat
  /-- The chunks in the chain that have not been consumed, and the bytes of those that have. -/
  pending : List Bytes
  consumed : Bytes
  waiting : List Request
  emitted : List Out

variable {E : Emulator}

def announcement (w : World E) : List Out := [.roomMode, .driver w.driver, .size w.cols w.rows]

def emit (w : World E) (frames : List Out) : World E := { w with emitted := w.emitted ++ frames }

def blank (E : Emulator) (driver : String) : World E :=
  ⟨E.initial 120 34, 120, 34, driver, ⟨[], 0, false⟩, 0, [], [], [], []⟩

def start (E : Emulator) (driver : String) : World E := emit (blank E driver) (announcement (blank E driver))

def flush (w : World E) : World E :=
  if w.batcher.bytes = 0 then { w with batcher := { w.batcher with timer := false } }
  else emit { w with batcher := ⟨[], 0, false⟩, outputSeq := w.outputSeq + 1 }
    [.output (w.outputSeq + 1) w.batcher.parts.flatten]

def pushParts : Nat → World E → Bytes → World E
  | 0, w, _ => w
  | fuel + 1, w, buf =>
    if buf = [] then w
    else
      let take := min (chunkBytes - w.batcher.bytes) buf.length
      let w := { w with batcher := { w.batcher with
        parts := w.batcher.parts ++ [buf.take take], bytes := w.batcher.bytes + take } }
      pushParts fuel (if w.batcher.bytes = chunkBytes then flush w else w) (buf.drop take)

def push (w : World E) (data : Bytes) : World E :=
  let w := pushParts (data.length + 1) w data
  { w with batcher := { w.batcher with timer := w.batcher.timer ∨ 0 < w.batcher.bytes } }

def snapshot (w : World E) (request : Request) : Out :=
  .snapshot ⟨request.viewer, w.outputSeq, w.cols, w.rows, E.serialize w.headless, w.consumed, request.asked⟩

def settle (w : World E) : World E :=
  emit { w with waiting := w.waiting.filter fun request => request.left ≠ 0 }
    ((w.waiting.filter fun request => request.left = 0).map (snapshot w))

def handle (resizes : Bool) (w : World E) (frame : Frame) : World E :=
  match routeFrame frame w.driver with
  | .write _ => w
  | .resize cols rows =>
    if resizes then
      emit { w with headless := E.resize w.headless (max 1 cols) (max 1 rows), cols := max 1 cols, rows := max 1 rows }
        [.size (max 1 cols) (max 1 rows)]
    else w
  | .replay viewer =>
    let w := flush w
    { w with waiting := w.waiting ++ [⟨viewer, w.pending.length, w.outputSeq⟩] }
  | .setDriver target => emit { w with driver := target } [.driver target]
  | .drop => w

inductive Action where
  | data (data : Bytes)
  | timer
  | consume
  | input (frames : List Frame) (resizes : Bool)
  | heartbeat
  | exit (code : Int)
  | close

def step (w : World E) : Action → Option (World E)
  | .data data => some (push { w with pending := w.pending ++ [data] } data)
  | .timer => if w.batcher.timer then some (flush w) else none
  | .consume => match w.pending with
    | data :: rest => some (settle { w with
      headless := E.write w.headless data, consumed := w.consumed ++ data, pending := rest
      waiting := w.waiting.map fun request => { request with left := request.left - 1 } })
    | [] => none
  | .input frames resizes => some (settle (frames.foldl (handle resizes) w))
  | .heartbeat => some (emit w (announcement w))
  | .exit code => some (emit (flush w) [.exit code])
  | .close => some (flush w)

def Out.output? : Out → Option (Nat × Bytes)
  | .output seq data => some (seq, data)
  | _ => none

def outputs (w : World E) : List (Nat × Bytes) := w.emitted.filterMap Out.output?

def sent (w : World E) (n : Nat) : Bytes := ((outputs w).filter fun frame => frame.1 ≤ n).flatMap Prod.snd

def after (w : World E) (n : Nat) : Bytes := ((outputs w).filter fun frame => n < frame.1).flatMap Prod.snd

def Exact (w : World E) (s : Snapshot) : Prop := s.consumed = sent w s.seq

def Careful (w : World E) : Action → Prop
  | .data data => w.waiting ≠ [] → w.batcher.bytes + data.length < chunkBytes
  | .input frames _ => w.waiting ≠ [] → w.batcher.bytes = 0 ∨
      ∀ frame ∈ frames, ∀ driver viewer, routeFrame frame driver ≠ .replay viewer
  | .consume => True
  | .heartbeat => True
  | _ => w.waiting ≠ [] → w.batcher.bytes = 0

section Frames
variable {w : World E}
variable {rest : Bytes}

theorem outputs_emit (w : World E) (frames : List Out) :
    outputs (emit w frames) = outputs w ++ frames.filterMap Out.output? := filterMap_append

theorem sent_emit (w : World E) {frames : List Out} (none_ : frames.filterMap Out.output? = []) (n : Nat) :
    sent (emit w frames) n = sent w n := by
  rw [sent, outputs_emit, none_, append_nil]
  rfl

structure Kept (w : World E) (rest : Bytes) : Prop where
  numbers : (outputs w).map Prod.fst = range' 1 w.outputSeq
  nonempty : ∀ frame ∈ outputs w, frame.2 ≠ []
  bytes : w.batcher.bytes = w.batcher.parts.flatten.length
  /-- The bytes go both ways; `rest` has not been pushed yet. -/
  produced : w.consumed ++ w.pending.flatten = sent w w.outputSeq ++ w.batcher.parts.flatten ++ rest
  asked : ∀ r ∈ w.waiting, r.left ≤ w.pending.length ∧ r.asked ≤ w.outputSeq ∧
    w.consumed ++ (w.pending.take r.left).flatten = sent w r.asked
  snapshots : ∀ s, Out.snapshot s ∈ w.emitted → s.asked ≤ s.seq ∧ s.seq ≤ w.outputSeq ∧ s.consumed = sent w s.asked

theorem frame_bounded (kept : Kept w rest) {frame : Nat × Bytes} (member : frame ∈ outputs w) :
    1 ≤ frame.1 ∧ frame.1 ≤ w.outputSeq := by
  have number : frame.1 ∈ range' 1 w.outputSeq := kept.numbers ▸ mem_map_of_mem member
  rw [mem_range'_1] at number
  omega

theorem sent_output (kept : Kept w rest) {next : World E} {data : Bytes}
    (sends : outputs next = outputs w ++ [(w.outputSeq + 1, data)]) :
    (∀ n, n ≤ w.outputSeq → sent next n = sent w n) ∧ sent next (w.outputSeq + 1) = sent w w.outputSeq ++ data := by
  have all (n : Nat) (large : w.outputSeq ≤ n) : (outputs w).filter (fun frame => frame.1 ≤ n) = outputs w :=
    filter_eq_self.mpr fun frame member => decide_eq_true (Nat.le_trans (frame_bounded kept member).2 large)
  constructor
  · intro n small
    have past : ¬ w.outputSeq + 1 ≤ n := by omega
    rw [sent, sends, filter_append, filter_singleton, decide_eq_false past]
    simp [sent]
  · rw [sent, sends, filter_append, all _ (Nat.le_succ _), sent, all _ (Nat.le_refl _)]
    simp

theorem flush_kept (kept : Kept w rest) : Kept (flush w) rest ∧ (flush w).batcher.bytes = 0 := by
  unfold flush
  split
  · next none_ =>
    exact ⟨⟨kept.numbers, kept.nonempty, kept.bytes, kept.produced, kept.asked, kept.snapshots⟩, none_⟩
  · next some_ =>
    have sends : outputs (emit { w with batcher := ⟨[], 0, false⟩, outputSeq := w.outputSeq + 1 }
        [.output (w.outputSeq + 1) w.batcher.parts.flatten]) = outputs w ++ [(w.outputSeq + 1, w.batcher.parts.flatten)] :=
      outputs_emit _ _
    obtain ⟨old, new⟩ := sent_output kept sends
    refine ⟨⟨?_, ?_, rfl, ?_, ?_, ?_⟩, rfl⟩
    · change _ = range' 1 (w.outputSeq + 1)
      rw [sends, map_append, kept.numbers, range'_1_concat, Nat.add_comm 1]
      rfl
    · intro frame member
      rw [sends] at member
      rcases mem_append.mp member with before | last
      · exact kept.nonempty frame before
      · rw [mem_singleton.mp last]
        intro empty
        rw [kept.bytes] at some_
        exact some_ (congrArg length (empty : w.batcher.parts.flatten = []))
    · change w.consumed ++ w.pending.flatten = sent _ (w.outputSeq + 1) ++ [] ++ rest
      rw [new, append_nil]
      exact kept.produced
    · intro r member
      obtain ⟨left, before, same⟩ := kept.asked r member
      exact ⟨left, Nat.le_succ_of_le before, same.trans (old _ before).symm⟩
    · intro s member
      rcases mem_append.mp member with before | last
      · obtain ⟨ordered, bounded, same⟩ := kept.snapshots s before
        exact ⟨ordered, Nat.le_succ_of_le bounded, same.trans (old _ (Nat.le_trans ordered bounded)).symm⟩
      · cases mem_singleton.mp last

theorem flush_rest (w : World E) : (flush w).pending = w.pending ∧ (flush w).waiting = w.waiting ∧
    (flush w).driver = w.driver ∧ (w.batcher.bytes = 0 → (flush w).outputSeq = w.outputSeq) ∧
    ∀ s, Out.snapshot s ∈ (flush w).emitted ↔ Out.snapshot s ∈ w.emitted := by
  unfold flush
  split
  · exact ⟨rfl, rfl, rfl, fun _ => rfl, fun _ => Iff.rfl⟩
  · next some_ =>
    refine ⟨rfl, rfl, rfl, fun none_ => absurd none_ some_, fun s => ?_⟩
    rw [emit, mem_append, mem_singleton, or_iff_left nofun]

theorem push_parts_kept (fuel : Nat) {buf : Bytes} (enough : buf.length < fuel) (kept : Kept w buf)
    (room : w.batcher.bytes < chunkBytes) :
    Kept (pushParts fuel w buf) [] ∧ (pushParts fuel w buf).batcher.bytes < chunkBytes := by
  induction fuel generalizing w buf with
  | zero => exact absurd enough (Nat.not_lt_zero _)
  | succ fuel ih =>
    unfold pushParts
    split
    · next empty =>
      subst empty
      exact ⟨kept, room⟩
    · next some_ =>
      have long : 0 < buf.length := length_pos_iff.mpr some_
      have taken : Kept { w with batcher := { w.batcher with
          parts := w.batcher.parts ++ [buf.take (min (chunkBytes - w.batcher.bytes) buf.length)]
          bytes := w.batcher.bytes + min (chunkBytes - w.batcher.bytes) buf.length } }
          (buf.drop (min (chunkBytes - w.batcher.bytes) buf.length)) := by
        refine ⟨kept.numbers, kept.nonempty, ?_, ?_, kept.asked, kept.snapshots⟩
        · change w.batcher.bytes + _ = (w.batcher.parts ++ [_]).flatten.length
          rw [flatten_append, length_append, ← kept.bytes, flatten_singleton, length_take]
          omega
        · refine kept.produced.trans ?_
          change _ = sent w w.outputSeq ++ (w.batcher.parts ++ [_]).flatten ++ _
          rw [flatten_append, flatten_singleton, ← append_assoc, append_assoc _ (buf.take _), take_append_drop]
      have shorter : (buf.drop (min (chunkBytes - w.batcher.bytes) buf.length)).length < fuel := by
        rw [length_drop]
        omega
      dsimp only
      split
      · obtain ⟨flushed, none_⟩ := flush_kept taken
        exact ih shorter flushed (by rw [none_]; decide)
      · next part => exact ih shorter taken (by dsimp only at part ⊢; omega)

theorem push_kept {data : Bytes} (kept : Kept w data) (room : w.batcher.bytes < chunkBytes) :
    Kept (push w data) [] ∧ (push w data).batcher.bytes < chunkBytes := by
  obtain ⟨pushed, small⟩ := push_parts_kept (data.length + 1) (Nat.lt_succ_self _) kept room
  exact ⟨⟨pushed.numbers, pushed.nonempty, pushed.bytes, pushed.produced, pushed.asked, pushed.snapshots⟩, small⟩

theorem emit_kept (kept : Kept w rest) {frames : List Out} (none_ : frames.filterMap Out.output? = [])
    (fine : ∀ s, Out.snapshot s ∈ frames → s.asked ≤ s.seq ∧ s.seq ≤ w.outputSeq ∧ s.consumed = sent w s.asked) :
    Kept (emit w frames) rest := by
  have same : outputs (emit w frames) = outputs w := by rw [outputs_emit, none_, append_nil]
  have bytes (n : Nat) : sent (emit w frames) n = sent w n := sent_emit w none_ n
  refine ⟨?_, ?_, kept.bytes, ?_, ?_, ?_⟩
  · rw [same]
    exact kept.numbers
  · rw [same]
    exact kept.nonempty
  · rw [bytes]
    exact kept.produced
  · intro r member
    rw [bytes]
    exact kept.asked r member
  · intro s member
    rw [bytes]
    rcases mem_append.mp member with before | now
    · exact kept.snapshots s before
    · exact fine s now

theorem settle_kept (kept : Kept w []) : Kept (settle w) [] := by
  have fewer : Kept { w with waiting := w.waiting.filter fun r => r.left ≠ 0 } [] :=
    ⟨kept.numbers, kept.nonempty, kept.bytes, kept.produced,
      fun r member => kept.asked r (mem_filter.mp member).1, kept.snapshots⟩
  refine emit_kept fewer ?_ fun s member => ?_
  · rw [filterMap_map]
    exact filterMap_eq_nil_iff.mpr fun _ _ => rfl
  · obtain ⟨r, there, same⟩ := mem_map.mp member
    obtain ⟨waits, done⟩ := mem_filter.mp there
    cases same
    obtain ⟨_, before, bytes⟩ := kept.asked r waits
    rw [of_decide_eq_true done, take_zero, flatten_nil, append_nil] at bytes
    exact ⟨before, Nat.le_refl _, bytes⟩

theorem handle_kept (resizes : Bool) (frame : Frame) (kept : Kept w []) (room : w.batcher.bytes < chunkBytes) :
    Kept (handle resizes w frame) [] ∧ (handle resizes w frame).batcher.bytes < chunkBytes := by
  unfold handle
  split
  · exact ⟨kept, room⟩
  · split
    · refine ⟨emit_kept ?_ rfl fun s member => ?_, room⟩
      · exact ⟨kept.numbers, kept.nonempty, kept.bytes, kept.produced, kept.asked, kept.snapshots⟩
      · cases mem_singleton.mp member
    · exact ⟨kept, room⟩
  · next =>
    obtain ⟨flushed, none_⟩ := flush_kept kept
    refine ⟨⟨flushed.numbers, flushed.nonempty, flushed.bytes, flushed.produced, ?_, flushed.snapshots⟩, ?_⟩
    · intro r member
      rcases mem_append.mp member with before | new
      · exact flushed.asked r before
      · rw [mem_singleton.mp new]
        refine ⟨Nat.le_refl _, Nat.le_refl _, ?_⟩
        have empty : (flush w).batcher.parts.flatten = [] := eq_nil_of_length_eq_zero (flushed.bytes.symm.trans none_)
        have produced := flushed.produced
        rw [empty, append_nil, append_nil] at produced
        rw [take_length]
        exact produced
    · change (flush w).batcher.bytes < chunkBytes
      rw [none_]
      decide
  · refine ⟨emit_kept ?_ rfl fun s member => ?_, room⟩
    · exact ⟨kept.numbers, kept.nonempty, kept.bytes, kept.produced, kept.asked, kept.snapshots⟩
    · cases mem_singleton.mp member
  · exact ⟨kept, room⟩

theorem handles_kept (resizes : Bool) (frames : List Frame) (kept : Kept w []) (room : w.batcher.bytes < chunkBytes) :
    Kept (frames.foldl (handle resizes) w) [] ∧ (frames.foldl (handle resizes) w).batcher.bytes < chunkBytes := by
  induction frames generalizing w with
  | nil => exact ⟨kept, room⟩
  | cons frame rest ih =>
    obtain ⟨kept', room'⟩ := handle_kept resizes frame kept room
    exact ih kept' room'

end Frames

section Runs
variable {w : World E}

structure Sound (w : World E) : Prop where
  kept : Kept w []
  room : w.batcher.bytes < chunkBytes
  waits : ∀ r ∈ w.waiting, r.left ≠ 0

theorem start_sound (driver : String) : Sound (start E driver) := by
  refine ⟨⟨rfl, ?_, rfl, rfl, ?_, ?_⟩, Nat.zero_lt_succ _, ?_⟩
  · intro frame member
    cases member
  · intro r member
    cases member
  · intro s member
    simp [start, emit, blank, announcement] at member
  · intro r member
    cases member

theorem settle_waits (w : World E) : ∀ r ∈ (settle w).waiting, r.left ≠ 0 :=
  fun _ member => of_decide_eq_true (mem_filter.mp member).2

theorem flush_sound (sound : Sound w) : Sound (flush w) := by
  obtain ⟨kept, none_⟩ := flush_kept sound.kept
  refine ⟨kept, by rw [none_]; decide, ?_⟩
  rw [(flush_rest w).2.1]
  exact sound.waits

theorem push_parts_waiting (fuel : Nat) (w : World E) (buf : Bytes) : (pushParts fuel w buf).waiting = w.waiting := by
  induction fuel generalizing w buf with
  | zero => rfl
  | succ fuel ih =>
    unfold pushParts
    split
    · rfl
    · dsimp only
      rw [ih]
      split
      · exact (flush_rest _).2.1
      · rfl

theorem data_kept (sound : Sound w) (data : Bytes) : Kept { w with pending := w.pending ++ [data] } data := by
  have kept := sound.kept
  refine ⟨kept.numbers, kept.nonempty, kept.bytes, ?_, ?_, kept.snapshots⟩
  · have produced := kept.produced
    rw [append_nil] at produced
    change w.consumed ++ (w.pending ++ [data]).flatten = sent w w.outputSeq ++ w.batcher.parts.flatten ++ data
    rw [flatten_append, flatten_singleton, ← append_assoc, produced]
  · intro r member
    obtain ⟨left, before, same⟩ := kept.asked r member
    refine ⟨?_, before, ?_⟩
    · change r.left ≤ (w.pending ++ [data]).length
      rw [length_append]
      exact Nat.le_add_right_of_le left
    · change w.consumed ++ ((w.pending ++ [data]).take r.left).flatten = sent w r.asked
      rw [take_append_of_le_length left]
      exact same

theorem consume_kept (sound : Sound w) {data : Bytes} {rest : List Bytes} (chain : w.pending = data :: rest) :
    Kept { w with
      headless := E.write w.headless data, consumed := w.consumed ++ data, pending := rest
      waiting := w.waiting.map fun request => { request with left := request.left - 1 } } [] := by
  have kept := sound.kept
  refine ⟨kept.numbers, kept.nonempty, kept.bytes, ?_, ?_, kept.snapshots⟩
  · refine Eq.trans ?_ kept.produced
    change (w.consumed ++ data) ++ rest.flatten = w.consumed ++ w.pending.flatten
    rw [chain, flatten_cons, append_assoc]
  · intro r member
    obtain ⟨old, there, rfl⟩ := mem_map.mp member
    obtain ⟨left, before, same⟩ := kept.asked old there
    have positive := sound.waits old there
    rw [chain] at left same
    obtain ⟨k, counts⟩ := Nat.exists_eq_succ_of_ne_zero positive
    rw [counts] at left same
    refine ⟨?_, before, ?_⟩
    · change old.left - 1 ≤ rest.length
      rw [counts]
      exact Nat.le_of_succ_le_succ left
    · change (w.consumed ++ data) ++ (rest.take (old.left - 1)).flatten = sent w old.asked
      rw [counts, ← same, take_succ_cons, flatten_cons, append_assoc]
      rfl

theorem step_sound (w : World E) (action : Action) (next : World E) (sound : Sound w) (stepped : step w action = some next) :
    Sound next := by
  cases action with
  | data data =>
    cases stepped
    obtain ⟨kept, room⟩ := push_kept (data_kept sound data) sound.room
    refine ⟨kept, room, ?_⟩
    change ∀ r ∈ (pushParts (data.length + 1) { w with pending := w.pending ++ [data] } data).waiting, _
    rw [push_parts_waiting]
    exact sound.waits
  | timer =>
    simp only [step, ite_none_right_eq_some, some.injEq] at stepped
    obtain ⟨_, rfl⟩ := stepped
    exact flush_sound sound
  | consume =>
    cases chain : w.pending with
    | nil => simp [step, chain] at stepped
    | cons =>
      simp only [step, chain, some.injEq] at stepped
      subst stepped
      exact ⟨settle_kept (consume_kept sound chain), sound.room, settle_waits _⟩
  | input frames resizes =>
    cases stepped
    obtain ⟨kept, room⟩ := handles_kept resizes frames sound.kept sound.room
    exact ⟨settle_kept kept, room, settle_waits _⟩
  | heartbeat =>
    cases stepped
    exact ⟨emit_kept sound.kept rfl (fun s member => by simp [announcement] at member), sound.room, sound.waits⟩
  | exit =>
    cases stepped
    have flushed := flush_sound sound
    exact ⟨emit_kept flushed.kept rfl (fun s member => by simp at member), flushed.room, flushed.waits⟩
  | close =>
    cases stepped
    exact flush_sound sound

theorem filter_bytes_le {p q : Nat × Bytes → Bool} (weaker : ∀ x, p x → q x) (frames : List (Nat × Bytes)) :
    ((frames.filter p).flatMap Prod.snd).length ≤ ((frames.filter q).flatMap Prod.snd).length := by
  induction frames with
  | nil => exact Nat.le_refl _
  | cons frame rest ih =>
    rw [filter_cons, filter_cons]
    by_cases first : p frame
    · rw [if_pos first, if_pos (weaker frame first), flatMap_cons, flatMap_cons, length_append, length_append]
      omega
    · rw [if_neg first]
      split
      · rw [flatMap_cons, length_append]
        omega
      · exact ih

theorem filter_bytes_lt {p q : Nat × Bytes → Bool} (weaker : ∀ x, p x → q x) {frames : List (Nat × Bytes)}
    (nonempty : ∀ frame ∈ frames, frame.2 ≠ []) (more : ∃ frame ∈ frames, q frame ∧ p frame = false) :
    ((frames.filter p).flatMap Prod.snd).length < ((frames.filter q).flatMap Prod.snd).length := by
  induction frames with
  | nil =>
    obtain ⟨_, member, _⟩ := more
    cases member
  | cons frame rest ih =>
    have onward := ih fun other member => nonempty other (mem_cons_of_mem frame member)
    have long := length_pos_iff.mpr (nonempty frame mem_cons_self)
    have below := filter_bytes_le weaker rest
    obtain ⟨other, member, takes, leaves⟩ := more
    rw [filter_cons, filter_cons]
    rcases mem_cons.mp member with rfl | member
    · rw [if_pos takes, if_neg (by rw [leaves]; exact Bool.false_ne_true), flatMap_cons, length_append]
      omega
    · have less := onward ⟨other, member, takes, leaves⟩
      by_cases first : p frame
      · rw [if_pos first, if_pos (weaker frame first), flatMap_cons, flatMap_cons, length_append, length_append]
        omega
      · rw [if_neg first]
        split
        · rw [flatMap_cons, length_append]
          omega
        · exact less

theorem sent_grows {rest : Bytes} (kept : Kept w rest) {m n : Nat} (less : m < n) (inside : n ≤ w.outputSeq) :
    sent w m ≠ sent w n := by
  have number : n ∈ (outputs w).map Prod.fst := by
    rw [kept.numbers, mem_range'_1]
    omega
  obtain ⟨frame, member, same⟩ := mem_map.mp number
  have longer := filter_bytes_lt (p := fun frame => frame.1 ≤ m) (q := fun frame => frame.1 ≤ n)
    (fun x small => decide_eq_true (Nat.le_trans (of_decide_eq_true small) (Nat.le_of_lt less))) kept.nonempty
    ⟨frame, member, decide_eq_true (Nat.le_of_eq same), decide_eq_false (by omega)⟩
  exact fun equal => absurd (congrArg length equal) (Nat.ne_of_lt longer)

theorem exact_iff (sound : Sound w) {s : Snapshot} (there : Out.snapshot s ∈ w.emitted) : Exact w s ↔ s.seq = s.asked := by
  obtain ⟨ordered, bounded, same⟩ := sound.kept.snapshots s there
  rw [Exact, same]
  constructor
  · intro equal
    by_contra apart
    exact sent_grows sound.kept (Nat.lt_of_le_of_ne ordered (Ne.symm apart)) bounded equal
  · intro equal
    rw [equal]

structure Quiet (w : World E) : Prop where
  waits : ∀ r ∈ w.waiting, r.asked = w.outputSeq
  snapshots : ∀ s, Out.snapshot s ∈ w.emitted → s.seq = s.asked

theorem flush_quiet (quiet : Quiet w) (careful : w.waiting ≠ [] → w.batcher.bytes = 0) : Quiet (flush w) := by
  obtain ⟨_, same, _, still, snapshots⟩ := flush_rest w
  constructor
  · intro r member
    rw [same] at member
    rw [still (careful (ne_nil_of_mem member))]
    exact quiet.waits r member
  · intro s member
    exact quiet.snapshots s ((snapshots s).mp member)

theorem push_parts_quiet (fuel : Nat) {buf : Bytes} (quiet : Quiet w) (room : w.batcher.bytes < chunkBytes)
    (careful : w.waiting ≠ [] → w.batcher.bytes + buf.length < chunkBytes) : Quiet (pushParts fuel w buf) := by
  induction fuel generalizing w buf with
  | zero => exact quiet
  | succ fuel ih =>
    unfold pushParts
    split
    · exact quiet
    · next =>
      have taken : Quiet { w with batcher := { w.batcher with
          parts := w.batcher.parts ++ [buf.take (min (chunkBytes - w.batcher.bytes) buf.length)]
          bytes := w.batcher.bytes + min (chunkBytes - w.batcher.bytes) buf.length } } :=
        ⟨quiet.waits, quiet.snapshots⟩
      dsimp only
      split
      · next full =>
        -- A full batch means that nothing waits.
        have idle : w.waiting = [] := by
          by_contra waits
          have fits := careful waits
          omega
        have flushed := flush_quiet taken fun waits => absurd idle waits
        refine ih flushed ?_ fun waits => ?_
        · rw [flush, if_neg (full.trans_ne (by decide))]
          exact Nat.zero_lt_succ _
        · rw [(flush_rest _).2.1] at waits
          exact absurd idle waits
      · next part =>
        refine ih taken (by dsimp only at part ⊢; omega) fun waits => ?_
        have fits := careful waits
        change w.batcher.bytes + min (chunkBytes - w.batcher.bytes) buf.length + (buf.drop _).length < chunkBytes
        rw [length_drop]
        omega

theorem emit_quiet (quiet : Quiet w) {frames : List Out} (fine : ∀ s, Out.snapshot s ∈ frames → s.seq = s.asked) :
    Quiet (emit w frames) := by
  refine ⟨quiet.waits, fun s member => ?_⟩
  rcases mem_append.mp member with before | now
  · exact quiet.snapshots s before
  · exact fine s now

theorem settle_quiet (quiet : Quiet w) : Quiet (settle w) := by
  have fewer : Quiet { w with waiting := w.waiting.filter fun r => r.left ≠ 0 } :=
    ⟨fun r member => quiet.waits r (mem_filter.mp member).1, quiet.snapshots⟩
  refine emit_quiet fewer fun s member => ?_
  obtain ⟨r, there, same⟩ := mem_map.mp member
  cases same
  exact (quiet.waits r (mem_filter.mp there).1).symm

def Asks (frames : List Frame) : Prop := ∃ frame ∈ frames, ∃ driver viewer, routeFrame frame driver = .replay viewer

theorem handle_quiet (resizes : Bool) (frame : Frame) (quiet : Quiet w)
    (careful : w.waiting ≠ [] → w.batcher.bytes = 0 ∨ ¬ Asks [frame]) :
    Quiet (handle resizes w frame) ∧
      ((handle resizes w frame).waiting ≠ [] → (handle resizes w frame).batcher.bytes = 0 ∨
        ¬ Asks [frame] ∧ (handle resizes w frame).waiting = w.waiting ∧
          (handle resizes w frame).batcher = w.batcher) := by
  unfold handle
  split
  · next => exact ⟨quiet, fun waits => (careful waits).imp_right fun asks => ⟨asks, rfl, rfl⟩⟩
  · next =>
    split
    · refine ⟨emit_quiet ?_ fun s member => ?_, fun waits => (careful waits).imp_right fun asks => ⟨asks, rfl, rfl⟩⟩
      · exact ⟨quiet.waits, quiet.snapshots⟩
      · cases mem_singleton.mp member
    · exact ⟨quiet, fun waits => (careful waits).imp_right fun asks => ⟨asks, rfl, rfl⟩⟩
  · next viewer route =>
    have asks : Asks [frame] := ⟨frame, mem_singleton_self frame, w.driver, viewer, route⟩
    have flushed := flush_quiet quiet fun waits => (careful waits).resolve_right fun not_ => not_ asks
    refine ⟨⟨fun r member => ?_, flushed.snapshots⟩, fun _ => .inl ?_⟩
    · rcases mem_append.mp member with before | new
      · exact flushed.waits r before
      · rw [mem_singleton.mp new]
    · change (flush w).batcher.bytes = 0
      unfold flush
      split
      · next none_ => exact none_
      · rfl
  · refine ⟨emit_quiet ?_ fun s member => ?_, fun waits => (careful waits).imp_right fun asks => ⟨asks, rfl, rfl⟩⟩
    · exact ⟨quiet.waits, quiet.snapshots⟩
    · cases mem_singleton.mp member
  · exact ⟨quiet, fun waits => (careful waits).imp_right fun asks => ⟨asks, rfl, rfl⟩⟩

theorem handles_quiet (resizes : Bool) (frames : List Frame) (quiet : Quiet w)
    (careful : w.waiting ≠ [] → w.batcher.bytes = 0 ∨ ¬ Asks frames) : Quiet (frames.foldl (handle resizes) w) := by
  induction frames generalizing w with
  | nil => exact quiet
  | cons frame rest ih =>
    have first (asks : Asks [frame]) : Asks (frame :: rest) := by
      obtain ⟨other, member, asks⟩ := asks
      exact ⟨other, mem_cons.mpr (.inl (mem_singleton.mp member)), asks⟩
    have later (asks : Asks rest) : Asks (frame :: rest) := by
      obtain ⟨other, member, asks⟩ := asks
      exact ⟨other, mem_cons_of_mem frame member, asks⟩
    obtain ⟨quiet', onward⟩ := handle_quiet resizes frame quiet fun waits => (careful waits).imp_right (mt first)
    refine ih quiet' fun waits => ?_
    rcases onward waits with none_ | ⟨_, same, batch⟩
    · exact .inl none_
    · rw [same] at waits
      rw [batch]
      exact (careful waits).imp_right (mt later)

theorem step_quiet (w : World E) (action : Action) (next : World E) (careful : Careful w action) (sound : Sound w)
    (quiet : Quiet w) (stepped : step w action = some next) : Quiet next := by
  cases action with
  | data data =>
    cases stepped
    have pushed := push_parts_quiet (data.length + 1) (w := { w with pending := w.pending ++ [data] })
      ⟨quiet.waits, quiet.snapshots⟩ sound.room careful
    exact ⟨pushed.waits, pushed.snapshots⟩
  | timer =>
    simp only [step, ite_none_right_eq_some, some.injEq] at stepped
    obtain ⟨_, rfl⟩ := stepped
    exact flush_quiet quiet careful
  | consume =>
    cases chain : w.pending with
    | nil => simp [step, chain] at stepped
    | cons =>
      simp only [step, chain, some.injEq] at stepped
      subst stepped
      refine settle_quiet ⟨fun r member => ?_, quiet.snapshots⟩
      obtain ⟨old, there, rfl⟩ := mem_map.mp member
      exact quiet.waits old there
  | input frames resizes =>
    cases stepped
    refine settle_quiet (handles_quiet resizes frames quiet fun waits => (careful waits).imp_right fun none_ asks => ?_)
    obtain ⟨frame, member, driver, viewer, route⟩ := asks
    exact none_ frame member driver viewer route
  | heartbeat =>
    cases stepped
    exact emit_quiet quiet fun s member => by simp [announcement] at member
  | exit =>
    cases stepped
    exact emit_quiet (flush_quiet quiet careful) fun s member => by simp at member
  | close =>
    cases stepped
    exact flush_quiet quiet careful

theorem split_frames {frames : List (Nat × Bytes)} (sorted : frames.Pairwise fun a b => a.1 < b.1) (n : Nat) :
    (frames.filter fun frame => frame.1 ≤ n) ++ (frames.filter fun frame => n < frame.1) = frames := by
  induction frames with
  | nil => rfl
  | cons frame rest ih =>
    obtain ⟨first, onward⟩ := pairwise_cons.mp sorted
    by_cases small : frame.1 ≤ n
    · rw [filter_cons, filter_cons, if_pos (decide_eq_true small), if_neg (by simpa using small),
        cons_append, ih onward]
    · have none_ : (frame :: rest).filter (fun frame => frame.1 ≤ n) = [] := by
        refine filter_eq_nil_iff.mpr fun other member => ?_
        rw [decide_eq_true_eq]
        rcases mem_cons.mp member with rfl | member
        · exact small
        · exact fun reaches => small (Nat.le_trans (Nat.le_of_lt (first other member)) reaches)
      have all : (frame :: rest).filter (fun frame => n < frame.1) = frame :: rest := by
        refine filter_eq_self.mpr fun other member => decide_eq_true ?_
        rcases mem_cons.mp member with rfl | member
        · exact Nat.lt_of_not_le small
        · exact Nat.lt_trans (Nat.lt_of_not_le small) (first other member)
      rw [none_, all, nil_append]

/-- What has been sent is what has been sent up to a number and what has been sent behind it. -/
theorem sent_after {rest : Bytes} (kept : Kept w rest) (n : Nat) : sent w n ++ after w n = sent w w.outputSeq := by
  have sorted : (outputs w).Pairwise fun a b => a.1 < b.1 := by
    refine pairwise_map.mp ?_
    rw [kept.numbers]
    exact pairwise_lt_range'
  have all : (outputs w).filter (fun frame => frame.1 ≤ w.outputSeq) = outputs w :=
    filter_eq_self.mpr fun frame member => decide_eq_true (frame_bounded kept member).2
  rw [sent, after, ← flatMap_append, split_frames sorted, sent, all]

/-- A viewer that applies the snapshot and the outputs behind it has every byte once. -/
theorem exact_complete (sound : Sound w) (s : Snapshot) :
    Exact w s ↔ s.consumed ++ after w s.seq = sent w w.outputSeq := by
  rw [← sent_after sound.kept s.seq, append_left_inj]
  exact Iff.rfl

/-- Output frames carry what is produced, in order. A snapshot is exact when no frame was sent between the flush of its
    request and it; this is so in every run in which none is sent while a request waits. -/
theorem snapshots_exact {driver : String} {actions : List Action} {w : World E}
    (ran : run step (start E driver) actions = some w) :
    (outputs w).map Prod.fst = range' 1 w.outputSeq ∧
    w.consumed ++ w.pending.flatten = sent w w.outputSeq ++ w.batcher.parts.flatten ∧
    (∀ s, Out.snapshot s ∈ w.emitted →
      (Exact w s ↔ s.seq = s.asked) ∧ (Exact w s ↔ s.consumed ++ after w s.seq = sent w w.outputSeq)) ∧
    (Guarded step Careful (start E driver) actions → ∀ s, Out.snapshot s ∈ w.emitted → Exact w s) := by
  have sound := run_invariant Sound step_sound ran (start_sound driver)
  refine ⟨sound.kept.numbers, ?_, fun s there => ⟨exact_iff sound there, exact_complete sound s⟩, ?_⟩
  · rw [sound.kept.produced, append_nil]
  · intro guarded s there
    have quiet : Quiet (start E driver) := by
      constructor
      · intro r member
        cases member
      · intro s member
        simp [start, emit, blank, announcement] at member
    have both := guarded_run_invariant (fun w => Sound w ∧ Quiet w) (fun w action next careful inv stepped =>
        ⟨step_sound w action next inv.1 stepped, step_quiet w action next careful inv.1 inv.2 stepped⟩)
      guarded ran ⟨start_sound driver, quiet⟩
    exact (exact_iff sound there).mpr (both.2.snapshots s there)

def paper : Emulator := ⟨Bytes, fun _ _ => [], fun shown data => shown ++ data, fun shown _ _ => shown, id⟩

def screenRequest : Frame := ⟨"request_screen", some "viewer", none, none, none, none⟩

def Out.snapshot? : Out → Option Snapshot
  | .snapshot s => some s
  | _ => none

def snapshots (w : World E) : List Snapshot := w.emitted.filterMap Out.snapshot?

theorem snapshot_there {s : Snapshot} (member : s ∈ snapshots w) : Out.snapshot s ∈ w.emitted := by
  obtain ⟨out, there, same⟩ := mem_filterMap.mp member
  cases out with
  | snapshot =>
    cases same
    exact there
  | _ => cases same

theorem snapshot_exact : ∃ w : World paper,
    run step (start paper "driver") [.data [97], .input [screenRequest] true, .consume] = some w ∧
    ∃ s, Out.snapshot s ∈ w.emitted ∧ s.seq = 1 ∧ Exact w s := by
  obtain ⟨w, ran, shown⟩ := map_eq_some_iff.mp
    (show (run step (start paper "driver") [.data [97], .input [screenRequest] true, .consume]).map
      (fun w => (snapshots w).map fun s => s.seq) = some [1] from by decide +kernel)
  obtain ⟨s, there, number⟩ := mem_map.mp
    (show 1 ∈ (snapshots w).map fun s => s.seq from by rw [shown]; exact mem_singleton_self _)
  refine ⟨w, ran, s, snapshot_there there, number, (snapshots_exact ran).2.2.2 ?_ s (snapshot_there there)⟩
  refine ⟨fun waits => absurd rfl waits, fun next stepped => ?_⟩
  cases stepped
  refine ⟨fun waits => absurd rfl waits, fun next stepped => ?_⟩
  cases stepped
  exact ⟨trivial, fun _ _ => trivial⟩

/-- The second chunk is sent while the request waits for the first: the snapshot has its number and not its byte. -/
theorem snapshot_skips : ¬ ∀ (E : Emulator) (driver : String) (actions : List Action) (w : World E),
    run step (start E driver) actions = some w → ∀ s, Out.snapshot s ∈ w.emitted → Exact w s := by
  intro exact_
  obtain ⟨w, ran, shown⟩ := map_eq_some_iff.mp
    (show (run step (start paper "driver") [.data [97], .input [screenRequest] true, .data [98], .timer, .consume]).map
      (fun w => (snapshots w).map fun s => (s.consumed, sent w s.seq)) = some [([97], [97, 98])] from by decide +kernel)
  obtain ⟨s, there, same⟩ := mem_map.mp
    (show ([97], [97, 98]) ∈ (snapshots w).map fun s => (s.consumed, sent w s.seq) from by
      rw [shown]
      exact mem_singleton_self _)
  obtain ⟨consumed, bytes⟩ := Prod.mk.injEq .. ▸ same
  have equal := exact_ paper "driver" _ w ran s (snapshot_there there)
  rw [Exact, consumed, bytes] at equal
  exact absurd equal (by decide)

end Runs

end PieRelay.PtySnapshots
