import PieRelay.Executions
import PieRelay.JsonScanner

/-!
The terminal of the desktop, desktop/src/TerminalScreen.tsx, with terminal-stream.ts and terminal-output-scheduler.ts.
Frames are parsed and their payloads decoded; they come in any order, any number of times or never. xterm calls back
when it likes. A timer is an action that is enabled as long as it is set. Left out: layout, drivers and the side chat.
-/
namespace PieRelay.TerminalViewer
open Executions List Option
open JsonScanner (Bytes)

/-! terminal-stream.ts -/

structure SequencedTerminalFrame where
  incarnationId : Option String
  seq : Option Int

inductive StreamDecision where
  | apply | snapshot | duplicate | gap
  deriving DecidableEq

structure TerminalStreamTracker where
  incarnationId : String
  lastSeq : Int
  awaitingSnapshot : Bool

def isSafeInteger (n : Int) : Bool := n.natAbs ≤ 9007199254740991

def sequence (least : Int) (frame : SequencedTerminalFrame) : Option (String × Int) :=
  match frame.incarnationId, frame.seq with
  | some incarnationId, some seq =>
    if incarnationId ≠ "" ∧ isSafeInteger seq ∧ least ≤ seq then some (incarnationId, seq) else none
  | _, _ => none

def acceptOutput (t : TerminalStreamTracker) (frame : SequencedTerminalFrame) : TerminalStreamTracker × StreamDecision :=
  match sequence 1 frame with
  | none => (t, .apply)
  | some (incarnationId, seq) =>
    if t.incarnationId = "" then
      if seq ≠ 1 then ({ t with incarnationId := incarnationId, awaitingSnapshot := true }, .gap)
      else ({ t with incarnationId := incarnationId, lastSeq := seq }, .apply)
    else if incarnationId ≠ t.incarnationId then (⟨incarnationId, 0, true⟩, .gap)
    else if t.awaitingSnapshot then (t, .duplicate)
    else if seq ≤ t.lastSeq then (t, .duplicate)
    else if seq ≠ t.lastSeq + 1 then ({ t with awaitingSnapshot := true }, .gap)
    else ({ t with lastSeq := seq }, .apply)

def acceptSnapshot (t : TerminalStreamTracker) (frame : SequencedTerminalFrame) : TerminalStreamTracker :=
  match sequence 0 frame with
  | some (incarnationId, seq) => ⟨incarnationId, seq, false⟩
  | none => { t with awaitingSnapshot := false }

def resumeCursor (t : TerminalStreamTracker) : Option (String × Int) :=
  if t.incarnationId = "" then none else some (t.incarnationId, t.lastSeq)

/-! terminal-output-scheduler.ts -/

structure SchedulerOptions where
  maxForegroundBytes : Nat
  maxBackgroundBytes : Nat
  chunkBytes : Nat

def defaults : SchedulerOptions := ⟨4 * 1024 * 1024, 1024 * 1024, 16 * 1024⟩

structure TerminalOutputScheduler where
  queue : List Bytes
  queuedBytes : Nat
  writing : Bool
  disposed : Bool
  generation : Nat
  stallTimer : Option Nat

inductive Lost where
  | nothing | overflow | stall | unmount
  deriving DecidableEq

structure Snapshot where
  incarnationId : String
  seq : Int
  data : Bytes

structure World where
  tracker : TerminalStreamTracker
  scheduler : TerminalOutputScheduler
  /-- The bytes passed to the terminal since its last reset. -/
  terminal : Bytes
  /-- The generations of the writes that xterm has not called back for, and the timeouts that pump. -/
  callbacks : List Nat
  pumps : Nat
  /-- The cursors of the snapshots asked for. -/
  requests : List (Option (String × Int))
  /-- History: the snapshot last accepted, the outputs received, and what has been lost since. -/
  accepted : Option Snapshot
  received : List (String × Int × Bytes)
  lost : Lost

def mounted (received : List (String × Int × Bytes)) : World where
  tracker := ⟨"", 0, false⟩
  scheduler := ⟨[], 0, false, false, 0, none⟩
  terminal := []
  callbacks := []
  pumps := 0
  requests := []
  accepted := none
  received := received
  lost := .nothing

def start : World := mounted []

def pump (o : SchedulerOptions) (w : World) : World :=
  match w.scheduler.queue with
  | [] => w
  | head :: rest =>
    if w.scheduler.disposed ∨ w.scheduler.writing then w
    else
      let chunk := head.take o.chunkBytes
      { w with
        scheduler := { w.scheduler with
          queue := if chunk.length = head.length then rest else head.drop chunk.length :: rest
          queuedBytes := w.scheduler.queuedBytes - chunk.length
          writing := true
          stallTimer := some w.scheduler.generation }
        terminal := w.terminal ++ chunk
        callbacks := w.callbacks ++ [w.scheduler.generation] }

def recover (w : World) : World :=
  { w with scheduler := { w.scheduler with
      generation := w.scheduler.generation + 1, queue := [], queuedBytes := 0, writing := false, stallTimer := none } }

def requestSnapshot (w : World) : World := { w with requests := w.requests ++ [resumeCursor w.tracker] }

def reset (w : World) : World := { w with terminal := [] }

def onOverflow (w : World) : World := { requestSnapshot (reset w) with lost := .overflow }

def limit (o : SchedulerOptions) (background : Bool) : Nat :=
  if background then o.maxBackgroundBytes else o.maxForegroundBytes

def Overflows (o : SchedulerOptions) (w : World) (data : Bytes) (background : Bool) : Prop :=
  limit o background < w.scheduler.queuedBytes + data.length

instance (o : SchedulerOptions) (w : World) (data : Bytes) (background : Bool) : Decidable (Overflows o w data background) :=
  inferInstanceAs (Decidable (_ < _))

def enqueue (o : SchedulerOptions) (w : World) (data : Bytes) (background : Bool) : World :=
  if w.scheduler.disposed ∨ data = [] then w
  else if Overflows o w data background then onOverflow (recover w)
  else pump o { w with scheduler := { w.scheduler with
    queue := w.scheduler.queue ++ [data], queuedBytes := w.scheduler.queuedBytes + data.length } }

/-! TerminalScreen.tsx -/

def ptyOutput (o : SchedulerOptions) (w : World) (frame : SequencedTerminalFrame) (data : Bytes) (hidden : Bool) : World :=
  let w' := { w with
    tracker := (acceptOutput w.tracker frame).1
    received := w.received ++ ((sequence 1 frame).map fun s => (s.1, s.2, data)).toList }
  match (acceptOutput w.tracker frame).2 with
  | .gap => requestSnapshot w'
  | .duplicate => w'
  | _ => enqueue o w' data hidden

def ptySnapshot (o : SchedulerOptions) (w : World) (frame : SequencedTerminalFrame) (data : Bytes) (hidden : Bool) : World :=
  let tracker := acceptSnapshot w.tracker frame
  let w := { w with
    tracker := tracker, accepted := some ⟨tracker.incarnationId, tracker.lastSeq, data⟩, lost := .nothing }
  enqueue o (reset (recover w)) data hidden

/-- `onStall` mounts everything anew; the screen is unmounted some time later. -/
def stalled (w : World) : World := { recover w with lost := .stall }

inductive Action where
  | output (frame : SequencedTerminalFrame) (data : Bytes) (hidden : Bool)
  | snapshot (frame : SequencedTerminalFrame) (data : Bytes) (hidden : Bool)
  | exit (text : Bytes) (hidden : Bool)
  | opened
  | written (generation : Nat)
  | pump
  | stall
  | unmount
  | mount

def step (o : SchedulerOptions) (w : World) : Action → Option World
  | .output frame data hidden => if w.scheduler.disposed then none else some (ptyOutput o w frame data hidden)
  | .snapshot frame data hidden => if w.scheduler.disposed then none else some (ptySnapshot o w frame data hidden)
  | .exit text hidden => if w.scheduler.disposed then none else some (enqueue o w text hidden)
  | .opened => if w.scheduler.disposed then none else some (requestSnapshot w)
  | .written generation =>
    if generation ∈ w.callbacks then
      let w := { w with callbacks := w.callbacks.erase generation }
      if generation ≠ w.scheduler.generation ∨ w.scheduler.disposed then some w
      else some { w with scheduler := { w.scheduler with stallTimer := none, writing := false }, pumps := w.pumps + 1 }
    else none
  | .pump => if 0 < w.pumps then some (pump o { w with pumps := w.pumps - 1 }) else none
  | .stall => match w.scheduler.stallTimer with
    | some generation =>
      if w.scheduler.disposed ∨ generation ≠ w.scheduler.generation ∨ ¬ w.scheduler.writing then
        some { w with scheduler := { w.scheduler with stallTimer := none } }
      else some (stalled w)
    | none => none
  | .unmount =>
    if w.scheduler.disposed then none
    else some { recover { w with scheduler := { w.scheduler with disposed := true } } with lost := .unmount }
  | .mount => if w.scheduler.disposed then some (mounted w.received) else none

def Sequenced : Action → Prop
  | .output frame _ _ => (sequence 1 frame).isSome
  | .snapshot frame _ _ => (sequence 0 frame).isSome
  | .exit _ _ => False
  | _ => True

def Consecutive : Int → List (Int × Bytes) → Prop
  | _, [] => True
  | last, output :: rest => output.1 = last + 1 ∧ Consecutive output.1 rest

def base (w : World) : Int := (w.accepted.map Snapshot.seq).getD 0

def content (w : World) : Bytes := (w.accepted.map Snapshot.data).getD []

/-- What the terminal was passed is a prefix of the snapshot and of outputs that follow it without a gap. -/
def Whole (w : World) : Prop :=
  ∃ (incarnationId : String) (outputs : List (Int × Bytes)), (∀ s ∈ w.accepted, s.incarnationId = incarnationId) ∧
    (∀ output ∈ outputs, (incarnationId, output) ∈ w.received) ∧ Consecutive (base w) outputs ∧
    w.terminal <+: content w ++ outputs.flatMap Prod.snd

def Careful (o : SchedulerOptions) (w : World) : Action → Prop
  | .output frame data hidden => w.lost = .nothing ∨ (acceptOutput w.tracker frame).2 ≠ .apply ∨ data = [] ∨
      Overflows o w data hidden
  | _ => True

section Tracker
variable {t : TerminalStreamTracker} {frame : SequencedTerminalFrame} {incarnationId : String} {seq : Int}

theorem sequence_named {least : Int} (numbered : sequence least frame = some (incarnationId, seq)) :
    incarnationId ≠ "" ∧ least ≤ seq := by
  unfold sequence at numbered
  split at numbered
  · split at numbered
    · next fine =>
      cases numbered
      exact ⟨fine.1, fine.2.2⟩
    · cases numbered
  · cases numbered

/-- Only the next output is applied, and the first one where there has been nothing. -/
theorem accept_output_cases (numbered : sequence 1 frame = some (incarnationId, seq)) :
    ((acceptOutput t frame).2 = .gap ∧ (acceptOutput t frame).1.awaitingSnapshot ∧
      (acceptOutput t frame).1.incarnationId ≠ "") ∨
    ((acceptOutput t frame).2 = .duplicate ∧ (acceptOutput t frame).1 = t) ∨
    ((acceptOutput t frame).2 = .apply ∧ (acceptOutput t frame).1 = { t with incarnationId := incarnationId, lastSeq := seq } ∧
      (t.incarnationId = "" ∧ seq = 1 ∨
        t.incarnationId = incarnationId ∧ t.awaitingSnapshot = false ∧ seq = t.lastSeq + 1)) := by
  have named := (sequence_named numbered).1
  unfold acceptOutput
  rw [numbered]
  dsimp only
  split
  · next fresh =>
    split
    · exact .inl ⟨rfl, rfl, named⟩
    · next first => exact .inr (.inr ⟨rfl, rfl, .inl ⟨fresh, not_not.mp first⟩⟩)
  · next old =>
    split
    · exact .inl ⟨rfl, rfl, named⟩
    · next same =>
      have same := not_not.mp same
      split
      · exact .inr (.inl ⟨rfl, rfl⟩)
      · next takes =>
        split
        · exact .inr (.inl ⟨rfl, rfl⟩)
        · split
          · exact .inl ⟨rfl, rfl, old⟩
          · next follows =>
            refine .inr (.inr ⟨rfl, ?_, .inr ⟨same.symm, Bool.eq_false_iff.mpr takes, not_not.mp follows⟩⟩)
            rw [same]

theorem accept_snapshot (numbered : sequence 0 frame = some (incarnationId, seq)) :
    acceptSnapshot t frame = ⟨incarnationId, seq, false⟩ := by rw [acceptSnapshot, numbered]

end Tracker

section Runs
variable {o : SchedulerOptions} {w : World} {incarnationId : String} {outputs : List (Int × Bytes)}
variable {data : Bytes}

theorem consecutive_concat {last : Int} {outputs : List (Int × Bytes)} (follow : Consecutive last outputs) (data : Bytes) :
    Consecutive last (outputs ++ [(last + outputs.length + 1, data)]) := by
  induction outputs generalizing last with
  | nil => exact ⟨by simp, trivial⟩
  | cons output rest ih =>
    obtain ⟨next, onward⟩ := follow
    refine ⟨next, ?_⟩
    have more := ih onward
    rw [next] at more ⊢
    rw [length_cons, show last + ((rest.length + 1 : Nat) : Int) + 1 = last + 1 + rest.length + 1 from by omega]
    exact more

structure Follows (w : World) (incarnationId : String) (outputs : List (Int × Bytes)) : Prop where
  named : (∀ s ∈ w.accepted, s.incarnationId ≠ "") ∧ ∀ r ∈ w.received, r.1 ≠ ""
  fresh : w.tracker.incarnationId = "" → w.tracker.awaitingSnapshot = false
  accepted : ∀ s ∈ w.accepted, s.incarnationId = incarnationId
  received : ∀ output ∈ outputs, (incarnationId, output) ∈ w.received
  consecutive : Consecutive (base w) outputs
  next : w.tracker.awaitingSnapshot = false → w.lost = .nothing →
    w.tracker.incarnationId = incarnationId ∧ w.tracker.lastSeq = base w + outputs.length
  queued : w.lost = .nothing → w.terminal ++ w.scheduler.queue.flatten = content w ++ outputs.flatMap Prod.snd
  gone : w.lost ≠ .nothing → w.scheduler.queue = [] ∧ w.terminal <+: content w ++ outputs.flatMap Prod.snd
  overflow : w.lost = .overflow → w.terminal = []

theorem follows_prefix (follows : Follows w incarnationId outputs) :
    w.terminal <+: content w ++ outputs.flatMap Prod.snd := by
  by_cases whole : w.lost = .nothing
  · exact ⟨_, follows.queued whole⟩
  · exact (follows.gone whole).2

theorem mounted_follows {received : List (String × Int × Bytes)} (named : ∀ r ∈ received, r.1 ≠ "") :
    Follows (mounted received) "" [] where
  named := ⟨fun _ there => (by cases there), named⟩
  fresh := fun _ => rfl
  accepted := fun _ there => (by cases there)
  received := fun _ member => (by cases member)
  consecutive := trivial
  next := fun _ _ => ⟨rfl, rfl⟩
  queued := fun _ => rfl
  gone := fun lost => absurd rfl lost
  overflow := fun lost => (by cases lost)

theorem pump_bytes (o : SchedulerOptions) (w : World) :
    (pump o w).terminal ++ (pump o w).scheduler.queue.flatten = w.terminal ++ w.scheduler.queue.flatten := by
  unfold pump
  split
  · rfl
  · next head rest queue =>
    split
    · rfl
    · show (w.terminal ++ head.take o.chunkBytes) ++ (if (head.take o.chunkBytes).length = head.length then rest
          else head.drop (head.take o.chunkBytes).length :: rest).flatten = w.terminal ++ w.scheduler.queue.flatten
      rw [queue, flatten_cons]
      split
      · next all =>
        have same : head.take o.chunkBytes = head := (List.take_prefix _ _).eq_of_length all
        rw [same, append_assoc]
      · rw [flatten_cons, append_assoc, ← append_assoc (head.take _), prefix_iff_eq_append.mp (List.take_prefix _ _)]

theorem pump_follows (follows : Follows w incarnationId outputs) : Follows (pump o w) incarnationId outputs := by
  by_cases whole : w.lost = .nothing
  · have queued := (pump_bytes o w).trans (follows.queued whole)
    have never {P : Prop} (lost : w.lost = .overflow) : P := by
      rw [whole] at lost
      cases lost
    revert queued
    unfold pump
    split
    · exact fun _ => follows
    · split
      · exact fun _ => follows
      · intro queued
        exact ⟨follows.named, follows.fresh, follows.accepted, follows.received, follows.consecutive, follows.next,
          fun _ => queued, fun lost => absurd whole lost, never⟩
  · unfold pump
    rw [(follows.gone whole).1]
    exact follows

structure Ready (w : World) (incarnationId : String) (outputs : List (Int × Bytes)) : Prop where
  named : (∀ s ∈ w.accepted, s.incarnationId ≠ "") ∧ ∀ r ∈ w.received, r.1 ≠ ""
  fresh : w.tracker.incarnationId = "" → w.tracker.awaitingSnapshot = false
  accepted : ∀ s ∈ w.accepted, s.incarnationId = incarnationId
  received : ∀ output ∈ outputs, (incarnationId, output) ∈ w.received
  consecutive : Consecutive (base w) outputs
  next : w.tracker.awaitingSnapshot = false →
    w.tracker.incarnationId = incarnationId ∧ w.tracker.lastSeq = base w + outputs.length
  whole : w.lost = .nothing

/-- What goes into the queue is applied behind all the rest, or it is lost and the terminal is empty. -/
theorem enqueue_follows {background : Bool} (ready : Ready w incarnationId outputs)
    (open_ : w.scheduler.disposed = false)
    (queued : w.terminal ++ w.scheduler.queue.flatten ++ data = content w ++ outputs.flatMap Prod.snd) :
    Follows (enqueue o w data background) incarnationId outputs := by
  obtain ⟨named, fresh, accepted, received, consecutive, next, whole⟩ := ready
  have never {P : Prop} (lost : w.lost = .overflow) : P := by
    rw [whole] at lost
    cases lost
  unfold enqueue
  split
  · next idle =>
    have empty : data = [] := idle.resolve_left (by rw [open_]; exact Bool.false_ne_true)
    rw [empty, append_nil] at queued
    exact ⟨named, fresh, accepted, received, consecutive, fun takes _ => next takes, fun _ => queued,
      fun lost => absurd whole lost, never⟩
  · split
    · exact ⟨named, fresh, accepted, received, consecutive, fun _ lost => (by cases lost), fun lost => (by cases lost),
        fun _ => ⟨rfl, List.nil_prefix⟩, fun _ => rfl⟩
    · refine pump_follows ⟨named, fresh, accepted, received, consecutive, fun takes _ => next takes, fun _ => ?_,
        fun lost => absurd whole lost, never⟩
      change w.terminal ++ (w.scheduler.queue ++ [data]).flatten = _
      rw [flatten_append, flatten_singleton, ← append_assoc]
      exact queued

theorem unnamed_empty (follows : Follows w "" outputs) : w.accepted = none ∧ outputs = [] := by
  constructor
  · cases there : w.accepted with
    | none => rfl
    | some s => exact absurd (follows.accepted s there) (follows.named.1 s there)
  · cases outputs with
    | nil => rfl
    | cons output => exact absurd rfl (follows.named.2 _ (follows.received output mem_cons_self))

def applied (w : World) (i : String) (s : Int) (data : Bytes) : World :=
  { w with tracker := { w.tracker with incarnationId := i, lastSeq := s }, received := w.received ++ [(i, s, data)] }

section Applied
variable {i : String} {s : Int} {data : Bytes}

theorem applied_named (follows : Follows w incarnationId outputs) (names : i ≠ "") :
    (∀ s ∈ w.accepted, s.incarnationId ≠ "") ∧ ∀ r ∈ w.received ++ [(i, s, data)], r.1 ≠ "" := by
  refine ⟨follows.named.1, fun r member => ?_⟩
  rcases mem_append.mp member with before | now
  · exact follows.named.2 r before
  · rw [mem_singleton.mp now]
    exact names

theorem first_ready (data : Bytes) (follows : Follows w incarnationId outputs) (whole : w.lost = .nothing)
    (fresh : w.tracker.incarnationId = "") (names : i ≠ "") :
    Ready (applied w i 1 data) i [(1, data)] ∧
      w.terminal ++ w.scheduler.queue.flatten ++ data = content w ++ [((1 : Int), data)].flatMap Prod.snd := by
  obtain ⟨unnamed, _⟩ := follows.next (follows.fresh fresh) whole
  rw [fresh] at unnamed
  subst unnamed
  obtain ⟨none_, empty⟩ := unnamed_empty follows
  subst empty
  have first : base w = 0 := by rw [base, none_, map_none, getD_none]
  refine ⟨⟨applied_named follows names, fun none_ => absurd none_ names, ?_, ?_, ?_, ?_, whole⟩, ?_⟩
  · intro s there
    change s ∈ w.accepted at there
    rw [none_] at there
    cases there
  · intro output member
    rw [mem_singleton.mp member]
    exact mem_append_right _ (mem_singleton_self _)
  · change Consecutive (base w) _
    rw [first]
    exact ⟨rfl, trivial⟩
  · intro _
    refine ⟨rfl, ?_⟩
    change 1 = base w + _
    rw [first]
    rfl
  · rw [follows.queued whole, flatMap_nil, append_nil, flatMap_singleton]

theorem next_ready (data : Bytes) (follows : Follows w i outputs) (whole : w.lost = .nothing)
    (takes : w.tracker.awaitingSnapshot = false) (names : i ≠ "") :
    Ready (applied w i (w.tracker.lastSeq + 1) data) i (outputs ++ [(w.tracker.lastSeq + 1, data)]) ∧
      w.terminal ++ w.scheduler.queue.flatten ++ data =
        content w ++ (outputs ++ [(w.tracker.lastSeq + 1, data)]).flatMap Prod.snd := by
  obtain ⟨_, last⟩ := follows.next takes whole
  refine ⟨⟨applied_named follows names, fun none_ => absurd none_ names, follows.accepted, ?_, ?_, ?_, whole⟩, ?_⟩
  · intro output member
    rcases mem_append.mp member with before | now
    · exact mem_append_left _ (follows.received output before)
    · rw [mem_singleton.mp now]
      exact mem_append_right _ (mem_singleton_self _)
  · change Consecutive (base w) _
    rw [last]
    exact consecutive_concat follows.consecutive data
  · intro _
    refine ⟨rfl, ?_⟩
    change w.tracker.lastSeq + 1 = base w + _
    rw [last, length_append, length_singleton]
    omega
  · rw [follows.queued whole, flatMap_append, flatMap_singleton, append_assoc]

/-- Where bytes have been lost the screen stays as it is, or it is empty. -/
theorem lost_follows {hidden : Bool} (follows : Follows w incarnationId outputs) (lost : w.lost ≠ .nothing) (names : i ≠ "")
    (fine : data = [] ∨ Overflows o w data hidden) :
    Follows (enqueue o (applied w i s data) data hidden) incarnationId outputs := by
  have before : Follows (applied w i s data) incarnationId outputs :=
    ⟨applied_named follows names, fun none_ => absurd none_ names, follows.accepted,
      fun output member => mem_append_left _ (follows.received output member), follows.consecutive,
      fun _ whole => absurd whole lost, fun whole => absurd whole lost, follows.gone, follows.overflow⟩
  unfold enqueue
  split
  · exact before
  · next some_ =>
    have large : Overflows o w data hidden := fine.resolve_left fun empty => some_ (.inr empty)
    split
    · exact ⟨before.named, before.fresh, before.accepted, before.received, before.consecutive,
        fun _ lost => (by cases lost), fun lost => (by cases lost), fun _ => ⟨rfl, List.nil_prefix⟩, fun _ => rfl⟩
    · next fits => exact absurd large fits

end Applied

theorem output_follows {frame : SequencedTerminalFrame} {hidden : Bool}
    (sequenced : (sequence 1 frame).isSome) (careful : Careful o w (.output frame data hidden))
    (open_ : w.scheduler.disposed = false) (follows : Follows w incarnationId outputs) :
    ∃ incarnationId outputs, Follows (ptyOutput o w frame data hidden) incarnationId outputs := by
  obtain ⟨⟨i, s⟩, numbered⟩ := isSome_iff_exists.mp sequenced
  have names := (sequence_named numbered).1
  have received : ∀ output ∈ outputs, (incarnationId, output) ∈ w.received ++ [(i, s, data)] :=
    fun output member => mem_append_left _ (follows.received output member)
  unfold ptyOutput
  rw [numbered]
  rcases accept_output_cases (t := w.tracker) numbered with ⟨decision, waits, later⟩ | ⟨decision, same⟩ | ⟨decision, same, why⟩
  · rw [decision]
    refine ⟨incarnationId, outputs, applied_named follows names, fun none_ => absurd none_ later, follows.accepted, received,
      follows.consecutive, fun takes => ?_, follows.queued, follows.gone, follows.overflow⟩
    exact absurd (waits.symm.trans takes) (by decide)
  · rw [decision, same]
    exact ⟨incarnationId, outputs, applied_named follows names, follows.fresh, follows.accepted, received,
      follows.consecutive, follows.next, follows.queued, follows.gone, follows.overflow⟩
  · rw [decision, same]
    by_cases whole : w.lost = .nothing
    · rcases why with ⟨fresh, rfl⟩ | ⟨mine, takes, rfl⟩
      · obtain ⟨ready, queued⟩ := first_ready data follows whole fresh names
        exact ⟨i, _, enqueue_follows ready open_ queued⟩
      · obtain ⟨same, _⟩ := follows.next takes whole
        cases mine.symm.trans same
        obtain ⟨ready, queued⟩ := next_ready data follows whole takes names
        exact ⟨_, _, enqueue_follows ready open_ queued⟩
    · exact ⟨incarnationId, outputs, lost_follows follows whole names
        ((careful.resolve_left whole).resolve_left (not_not.mpr decision))⟩

theorem snapshot_follows {frame : SequencedTerminalFrame} {hidden : Bool}
    (sequenced : (sequence 0 frame).isSome) (open_ : w.scheduler.disposed = false)
    (follows : Follows w incarnationId outputs) :
    ∃ incarnationId, Follows (ptySnapshot o w frame data hidden) incarnationId [] := by
  obtain ⟨⟨i, s⟩, numbered⟩ := isSome_iff_exists.mp sequenced
  have names := (sequence_named numbered).1
  unfold ptySnapshot
  rw [accept_snapshot numbered]
  refine ⟨i, enqueue_follows ⟨⟨?_, follows.named.2⟩, fun none_ => absurd none_ names, ?_, ?_, trivial, ?_, rfl⟩ open_ ?_⟩
  · rintro _ ⟨⟩
    exact names
  · rintro _ ⟨⟩
    rfl
  · intro output member
    cases member
  · intro _
    exact ⟨rfl, (Int.add_zero s).symm⟩
  · exact (append_nil data).symm

theorem recover_follows {lost : Lost} (follows : Follows w incarnationId outputs) (some_ : lost ≠ .nothing)
    (still : lost ≠ .overflow) : Follows { recover w with lost := lost } incarnationId outputs := by
  have painted := follows_prefix follows
  exact ⟨follows.named, follows.fresh, follows.accepted, follows.received, follows.consecutive,
    fun _ whole => absurd whole some_, fun whole => absurd whole some_, fun _ => ⟨rfl, painted⟩,
    fun large => absurd large still⟩

theorem same_follows {next : World} (follows : Follows w incarnationId outputs) (tracker : next.tracker = w.tracker)
    (queue : next.scheduler.queue = w.scheduler.queue) (terminal : next.terminal = w.terminal)
    (ghosts : next.accepted = w.accepted ∧ next.received = w.received ∧ next.lost = w.lost) :
    Follows next incarnationId outputs := by
  obtain ⟨accepted, received, lost⟩ := ghosts
  obtain ⟨named, fresh, mine, known, consecutive, onward, queued, gone, overflow⟩ := follows
  constructor
  · rw [accepted, received]
    exact named
  · rw [tracker]
    exact fresh
  · rw [accepted]
    exact mine
  · rw [received]
    exact known
  · rw [base, accepted]
    exact consecutive
  · rw [tracker, lost, base, accepted]
    exact onward
  · rw [lost, terminal, queue, content, accepted]
    exact queued
  · rw [lost, terminal, queue, content, accepted]
    exact gone
  · rw [lost, terminal]
    exact overflow

theorem step_follows (w : World) (action : Action) (next : World)
    (fine : Careful o w action ∧ Sequenced action) (before : ∃ incarnationId outputs, Follows w incarnationId outputs)
    (stepped : step o w action = some next) : ∃ incarnationId outputs, Follows next incarnationId outputs := by
  obtain ⟨incarnationId, outputs, follows⟩ := before
  cases action with
  | output =>
    simp only [step, ite_none_left_eq_some, some.injEq, Bool.not_eq_true] at stepped
    obtain ⟨open_, rfl⟩ := stepped
    exact output_follows fine.2 fine.1 open_ follows
  | snapshot =>
    simp only [step, ite_none_left_eq_some, some.injEq, Bool.not_eq_true] at stepped
    obtain ⟨open_, rfl⟩ := stepped
    obtain ⟨i, follows⟩ := snapshot_follows fine.2 open_ follows
    exact ⟨i, [], follows⟩
  | exit => exact absurd fine.2 id
  | opened =>
    simp only [step, ite_none_left_eq_some, some.injEq] at stepped
    obtain ⟨_, rfl⟩ := stepped
    exact ⟨incarnationId, outputs, same_follows follows rfl rfl rfl ⟨rfl, rfl, rfl⟩⟩
  | written =>
    refine ⟨incarnationId, outputs, ?_⟩
    simp only [step, ite_none_right_eq_some] at stepped
    obtain ⟨_, stepped⟩ := stepped
    split at stepped
    · cases stepped
      exact same_follows follows rfl rfl rfl ⟨rfl, rfl, rfl⟩
    · cases stepped
      exact same_follows follows rfl rfl rfl ⟨rfl, rfl, rfl⟩
  | pump =>
    simp only [step, ite_none_right_eq_some, some.injEq] at stepped
    obtain ⟨_, rfl⟩ := stepped
    exact ⟨incarnationId, outputs, pump_follows (same_follows follows rfl rfl rfl ⟨rfl, rfl, rfl⟩)⟩
  | stall =>
    refine ⟨incarnationId, outputs, ?_⟩
    simp only [step] at stepped
    split at stepped
    · split at stepped
      · cases stepped
        exact same_follows follows rfl rfl rfl ⟨rfl, rfl, rfl⟩
      · cases stepped
        exact recover_follows follows (by decide) (by decide)
    · cases stepped
  | unmount =>
    simp only [step, ite_none_left_eq_some, some.injEq] at stepped
    obtain ⟨_, rfl⟩ := stepped
    have same : Follows { w with scheduler := { w.scheduler with disposed := true } } incarnationId outputs :=
      same_follows follows rfl rfl rfl ⟨rfl, rfl, rfl⟩
    exact ⟨incarnationId, outputs, recover_follows same (by decide) (by decide)⟩
  | mount =>
    simp only [step, ite_none_right_eq_some, some.injEq] at stepped
    obtain ⟨_, rfl⟩ := stepped
    exact ⟨"", [], mounted_follows follows.named.2⟩

/-- Where no output is painted once bytes have been lost, the terminal never has a gap, and after an overflow it stays
    empty. -/
theorem paints_whole {actions : List Action} (ran : run (step o) start actions = some w)
    (sequenced : ∀ action ∈ actions, Sequenced action) (careful : Guarded (step o) (Careful o) start actions) :
    Whole w ∧ (w.lost = .overflow → w.terminal = []) := by
  have begins : ∃ incarnationId outputs, Follows start incarnationId outputs :=
    ⟨"", [], mounted_follows fun _ member => (by cases member)⟩
  obtain ⟨incarnationId, outputs, follows⟩ := guarded_run_invariant
    (fun w => ∃ incarnationId outputs, Follows w incarnationId outputs) step_follows
    (guarded_all Sequenced careful sequenced) ran begins
  exact ⟨⟨incarnationId, outputs, follows.accepted, follows.received, follows.consecutive, follows_prefix follows⟩,
    follows.overflow⟩

def numbered (seq : Int) : SequencedTerminalFrame := ⟨some "incarnation", some seq⟩

theorem snapshot_painted : ∃ w, run (step defaults) start
    [.snapshot (numbered 4) [97] false, .output (numbered 5) [98] false, .written 1, .pump] = some w ∧
    w.terminal = [97, 98] ∧ Whole w := by
  obtain ⟨w, ran, painted⟩ := map_eq_some_iff.mp (show (run (step defaults) start
    [.snapshot (numbered 4) [97] false, .output (numbered 5) [98] false, .written 1, .pump]).map World.terminal =
      some [97, 98] from by decide +kernel)
  refine ⟨w, ran, painted, (paints_whole ran ?_ ?_).1⟩
  · intro action member
    simp only [mem_cons, not_mem_nil, or_false] at member
    rcases member with rfl | rfl | rfl | rfl
    · exact (by decide : (sequence 0 (numbered 4)).isSome)
    · exact (by decide : (sequence 1 (numbered 5)).isSome)
    · trivial
    · trivial
  · refine ⟨trivial, fun next stepped => ?_⟩
    cases stepped
    exact ⟨.inl (by decide), fun _ _ => ⟨trivial, fun _ _ => ⟨trivial, fun _ _ => trivial⟩⟩⟩

/-- What does not fit takes the queue with it. -/
theorem enqueue_large {background : Bool} (open_ : w.scheduler.disposed = false) (some_ : data ≠ [])
    (large : Overflows o w data background) : enqueue o w data background = onOverflow (recover w) := by
  rw [enqueue, if_neg, if_pos large]
  rw [open_]
  exact fun idle => idle.elim Bool.false_ne_true some_

/-- A snapshot that does not fit is dropped, and the output behind it is painted on the empty terminal. -/
theorem gap_painted : ¬ ∀ (actions : List Action) (w : World), run (step defaults) start actions = some w →
    (∀ action ∈ actions, Sequenced action) → Whole w := by
  intro whole
  have dropped (data : Bytes) (large : 1048576 < data.length) : ∃ w, run (step defaults) start
      [.snapshot (numbered 4) data true, .output (numbered 5) [98] true] = some w ∧ content w = data ∧ w.terminal = [98] := by
    have some_ : data ≠ [] := ne_nil_of_length_pos (Nat.lt_of_le_of_lt (Nat.zero_le _) large)
    have first : step defaults start (.snapshot (numbered 4) data true) = some _ := rfl
    rw [run, first, bind_some, ptySnapshot,
      enqueue_large rfl some_ (by simpa [Overflows, limit, defaults, reset, recover] using large)]
    exact ⟨_, rfl, rfl, rfl⟩
  have large : 1048576 < (97 :: replicate 1048576 97 : Bytes).length := by
    rw [length_cons, length_replicate]
    decide
  obtain ⟨w, ran, held, painted⟩ := dropped (97 :: replicate 1048576 97) large
  have sequenced : ∀ action ∈ [Action.snapshot (numbered 4) (97 :: replicate 1048576 97) true,
      .output (numbered 5) [98] true], Sequenced action := by
    intro action member
    simp only [mem_cons, not_mem_nil, or_false] at member
    rcases member with rfl | rfl
    · exact (by decide : (sequence 0 (numbered 4)).isSome)
    · exact (by decide : (sequence 1 (numbered 5)).isSome)
  obtain ⟨_, outputs, _, _, _, before⟩ := whole _ w ran sequenced
  rw [painted, held, cons_append] at before
  exact absurd (cons_prefix_cons.mp before).1 (by decide)

end Runs

end PieRelay.TerminalViewer
