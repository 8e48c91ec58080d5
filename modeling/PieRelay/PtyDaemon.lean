import PieRelay.ChildSupervisor
import PieRelay.Executions
import PieRelay.JournalFile

/-!
How the client daemon keeps a pty-host, client/internal/ptyagent/ptyagent.go. A pump scans the output of a process line
by line; when it returns, the supervisor takes the process for dead and starts another. Frames from the relay go to the
process that is the current one by the time they come. The scanner looks at one byte after the other here: how much it
reads at a time cannot be seen. The reconnecting to the relay is left out, and the end of the daemon.
-/
namespace PieRelay.PtyDaemon
open List Option
open ChildSupervisor (Supervisor Phase Event supervise)
open Executions
open JournalFile (bytes dropCR lineFeed)
open JsonScanner (Bytes)

def maxLine : Nat := 8 * 1024 * 1024

/-- `bufio.Scanner` over what has been read: the lines, and the part of one that is left, or nothing where the buffer is
    full and holds no line. -/
def scanLines : Bytes → Bytes → List Bytes × Option Bytes
  | buffer, [] => ([], some buffer)
  | buffer, byte :: rest =>
    if byte = lineFeed then
      let scanned := scanLines [] rest
      (dropCR buffer :: scanned.1, scanned.2)
    else if maxLine ≤ buffer.length + 1 then ([], none)
    else scanLines (buffer ++ [byte]) rest

structure Write where
  child : Nat
  frame : Bytes
  alive : List Nat

structure World where
  supervisor : Supervisor
  /-- What a process has written and nobody has read. -/
  pipe : Nat → Bytes
  /-- The part of a line that the pump has, until it stops at one that is too long. -/
  scanner : Option Bytes
  connected : Bool
  sent : List Bytes
  /-- The frame that is being written and the process that was the current one. -/
  writing : Option (Nat × Bytes)
  /-- What has been written, and which processes were alive. -/
  written : List Write
  /-- The processes whose pump ended at a line that is too long. -/
  overlong : List Nat

def start : World := ⟨ChildSupervisor.start, fun _ => [], some [], false, [], none, [], []⟩

inductive Action where
  | print (child : Nat) (data : Bytes)
  | scan (count : Nat)
  | connect (up : Bool)
  | getHost (frame : Bytes)
  | write
  | supervise (event : Event)

def send (w : World) (lines : List Bytes) : World :=
  if w.connected then { w with sent := w.sent ++ lines.filter (· ≠ []) } else w

def pumpEnds (w : World) (child : Nat) : Option World :=
  match w.scanner with
  | none => some { w with overlong := child :: w.overlong }
  | some buffer =>
    if child ∈ w.supervisor.alive ∨ w.pipe child ≠ [] then none
    else some (send w (if buffer = [] then [] else [dropCR buffer]))

def loop (w : World) (event : Event) : Option World :=
  (supervise false w.supervisor event).bind fun supervisor =>
    match event, w.supervisor.phase with
    | .pumpEnds, .pumping child => (pumpEnds w child).map fun w => { w with supervisor }
    | .setCurrent, _ => some { w with supervisor, scanner := some [] }
    | _, _ => some { w with supervisor }

def step (w : World) : Action → Option World
  | .print child data =>
    if child ∈ w.supervisor.alive then some { w with pipe := Function.update w.pipe child (w.pipe child ++ data) } else none
  | .scan count => match w.supervisor.phase, w.scanner with
    | .pumping child, some buffer =>
      let scanned := scanLines buffer ((w.pipe child).take count)
      some (send { w with
        pipe := Function.update w.pipe child ((w.pipe child).drop count), scanner := scanned.2 } scanned.1)
    | _, _ => none
  | .connect up => some { w with connected := up }
  | .getHost frame => match w.writing with
    | none => some { w with writing := w.supervisor.current.map fun child => (child, frame) }
    | some _ => none
  | .write => match w.writing with
    | some (child, frame) => some { w with
      writing := none
      written := if child ∈ w.supervisor.alive then w.written ++ [⟨child, frame, w.supervisor.alive⟩] else w.written }
    | none => none
  | .supervise event => loop w event

def OneShell (w : World) : Prop := w.supervisor.alive.length ≤ 1 ∧ ∀ r ∈ w.written, r.alive = [r.child]

/-- A process whose output held a line that is too long has ended before another is started. -/
def Careful (w : World) : Action → Prop
  | .supervise (.spawn true) => ∀ child ∈ w.overlong, child ∉ w.supervisor.alive
  | _ => True

/-- A process that is alive is the one the supervisor is about, or its output held a line that is too long. -/
def Known (w : World) : Prop :=
  ∀ child ∈ w.supervisor.alive,
    w.supervisor.phase = .pumping child ∨ w.supervisor.phase = .started child ∨ child ∈ w.overlong

section Loop
variable {w next : World}
variable {event : Event}

theorem send_rest (w : World) (lines : List Bytes) : (send w lines).supervisor = w.supervisor ∧
    (send w lines).written = w.written ∧ (send w lines).overlong = w.overlong := by
  unfold send
  split
  · exact ⟨rfl, rfl, rfl⟩
  · exact ⟨rfl, rfl, rfl⟩

theorem loop_cases (stepped : loop w event = some next) :
    supervise false w.supervisor event = some next.supervisor ∧ next.written = w.written ∧
      (∀ child ∈ w.overlong, child ∈ next.overlong) ∧
      (event = .pumpEnds → ∀ child ∈ w.supervisor.alive, w.supervisor.phase = .pumping child → child ∈ next.overlong) := by
  rw [loop, bind_eq_some_iff] at stepped
  obtain ⟨supervisor, supervised, stepped⟩ := stepped
  split at stepped
  · next child pumping =>
    obtain ⟨ended, ends, rfl⟩ := map_eq_some_iff.mp stepped
    unfold pumpEnds at ends
    split at ends
    · cases ends
      refine ⟨supervised, rfl, fun other member => mem_cons_of_mem child member, fun _ other _ same => ?_⟩
      cases pumping.symm.trans same
      exact mem_cons_self
    · next buffer _ =>
      rw [ite_none_left_eq_some, some.injEq] at ends
      obtain ⟨dead, rfl⟩ := ends
      obtain ⟨_, written, overlong⟩ := send_rest w (if buffer = [] then [] else [dropCR buffer])
      refine ⟨supervised, written, fun other member => ?_, fun _ other alive same => ?_⟩
      · rw [overlong]
        exact member
      · cases pumping.symm.trans same
        exact absurd (.inl alive) dead
  · cases stepped
    exact ⟨supervised, rfl, fun _ member => member, nofun⟩
  · next other =>
    cases stepped
    exact ⟨supervised, rfl, fun _ member => member, fun ends child _ same => absurd same (other child ends)⟩

theorem loop_known (known : Known w) (stepped : loop w event = some next) : Known next := by
  obtain ⟨supervised, _, older, ended⟩ := loop_cases stepped
  intro child member
  rcases ChildSupervisor.supervise_alive supervised with ⟨_, phase, started, alive⟩ | ⟨_, fewer, kept⟩
  · rw [alive] at member
    rcases mem_cons.mp member with rfl | member
    · exact .inr (.inl started)
    · rcases known child member with pumping | started | overlong
      · cases phase.symm.trans pumping
      · cases phase.symm.trans started
      · exact .inr (.inr (older child overlong))
  · have before := fewer.subset member
    by_cases ends : event = .pumpEnds
    · subst ends
      rcases known child before with pumping | started | overlong
      · exact .inr (.inr (ended rfl child before pumping))
      · rw [supervise, started] at supervised
        cases supervised
      · exact .inr (.inr (older child overlong))
    · rcases known child before with pumping | started | overlong
      · rcases kept ends child (.inl pumping) with pumping | started
        · exact .inl pumping
        · exact .inr (.inl started)
      · rcases kept ends child (.inr started) with pumping | started
        · exact .inl pumping
        · exact .inr (.inl started)
      · exact .inr (.inr (older child overlong))

theorem loop_one (known : Known w) (one : OneShell w) (stepped : loop w event = some next) :
    OneShell next ↔ Careful w (.supervise event) := by
  obtain ⟨supervised, written, _⟩ := loop_cases stepped
  rcases ChildSupervisor.supervise_alive supervised with ⟨rfl, phase, _, alive⟩ | ⟨other, fewer, _⟩
  · rw [OneShell, written, alive, length_cons]
    constructor
    · intro one child _ member
      have := length_pos_of_mem member
      omega
    · intro ended
      have idle : w.supervisor.alive = [] := by
        refine eq_nil_iff_forall_not_mem.mpr fun child member => ?_
        rcases known child member with pumping | started | overlong
        · cases phase.symm.trans pumping
        · cases phase.symm.trans started
        · exact ended child overlong member
      rw [idle]
      exact ⟨Nat.le_refl _, one.2⟩
  · have careful : Careful w (.supervise event) := by
      unfold Careful
      split
      · next same =>
        cases same
        exact absurd rfl other
      · trivial
    refine iff_of_true ?_ careful
    rw [OneShell, written]
    exact ⟨Nat.le_trans fewer.length_le one.1, one.2⟩

theorem step_known (w : World) (action : Action) (next : World) (known : Known w) (stepped : step w action = some next) :
    Known next := by
  cases action with
  | print =>
    simp only [step, ite_none_right_eq_some, some.injEq] at stepped
    obtain ⟨_, rfl⟩ := stepped
    exact known
  | scan count =>
    simp only [step] at stepped
    split at stepped
    · cases stepped
      obtain ⟨supervisor, _, overlong⟩ := send_rest { w with
        pipe := Function.update w.pipe _ ((w.pipe _).drop count), scanner := (scanLines _ ((w.pipe _).take count)).2 }
        (scanLines _ ((w.pipe _).take count)).1
      rw [Known, supervisor, overlong]
      exact known
    · cases stepped
  | connect =>
    cases stepped
    exact known
  | getHost | write =>
    simp only [step] at stepped
    split at stepped
    · cases stepped
      exact known
    · cases stepped
  | supervise => exact loop_known known stepped

theorem step_one (w : World) (action : Action) (next : World) (known : Known w) (one : OneShell w)
    (stepped : step w action = some next) : OneShell next ↔ Careful w action := by
  cases action with
  | print =>
    simp only [step, ite_none_right_eq_some, some.injEq] at stepped
    obtain ⟨_, rfl⟩ := stepped
    exact iff_of_true one trivial
  | scan count =>
    simp only [step] at stepped
    split at stepped
    · cases stepped
      obtain ⟨supervisor, written, _⟩ := send_rest { w with
        pipe := Function.update w.pipe _ ((w.pipe _).drop count), scanner := (scanLines _ ((w.pipe _).take count)).2 }
        (scanLines _ ((w.pipe _).take count)).1
      rw [OneShell, supervisor, written]
      exact iff_of_true one trivial
    · cases stepped
  | connect =>
    cases stepped
    exact iff_of_true one trivial
  | getHost =>
    simp only [step] at stepped
    split at stepped
    · cases stepped
      exact iff_of_true one trivial
    · cases stepped
  | write =>
    simp only [step] at stepped
    split at stepped
    · next =>
      cases stepped
      refine iff_of_true ⟨one.1, fun r member => ?_⟩ trivial
      dsimp only at member
      split at member
      · next alive =>
        rcases mem_append.mp member with before | now
        · exact one.2 r before
        · rw [mem_singleton.mp now]
          obtain ⟨only, same⟩ := length_eq_one_iff.mp (Nat.le_antisymm one.1 (length_pos_of_mem alive))
          dsimp only
          rw [same] at alive ⊢
          rw [mem_singleton.mp alive]
      · exact one.2 r member
    · cases stepped
  | supervise => exact loop_one known one stepped

theorem start_known : Known start := fun child member => .inl (by rw [mem_singleton.mp member]; rfl)

theorem start_one : OneShell start := ⟨Nat.le_refl _, fun _ member => (by cases member)⟩

/-- One process at most is alive in all of a run, and written to, if and only if every process whose output held a line
    that is too long has ended before the next one is started. -/
theorem one_shell {actions : List Action} (ran : run step start actions = some w) :
    Along step (fun _ next => OneShell next) start actions ↔ Guarded step Careful start actions :=
  along_good_iff Known OneShell step_known step_one ran start_known start_one

theorem scan_overlong {buffer line : Bytes} (single : lineFeed ∉ line) (some_ : line ≠ [])
    (long : maxLine ≤ buffer.length + line.length) : scanLines buffer line = ([], none) := by
  induction line generalizing buffer with
  | nil => exact absurd rfl some_
  | cons byte rest ih =>
    rw [mem_cons, not_or] at single
    rw [scanLines, if_neg (Ne.symm single.1)]
    split
    · rfl
    · next fits =>
      have more : rest ≠ [] := by
        rintro rfl
        exact fits long
      refine ih single.2 more ?_
      rw [length_append, length_singleton]
      rw [length_cons] at long
      omega

def replacement : List Action :=
  [.print 0 [120, lineFeed], .connect true, .scan 2, .supervise (.exit 0), .supervise .pumpEnds, .supervise .setNil,
    .supervise (.attempt 0), .supervise (.spawn true), .supervise .setCurrent, .getHost [121], .write]

theorem shell_replaced : ∃ w, run step start replacement = some w ∧ w.written.map Write.child = [1] ∧
    Along step (fun _ next => OneShell next) start replacement := by
  obtain ⟨w, ran, written⟩ := map_eq_some_iff.mp
    (show (run step start replacement).map (fun w => w.written.map Write.child) = some [1] from by decide +kernel)
  refine ⟨w, ran, written, (one_shell ran).mpr ?_⟩
  refine checked_guarded (fun w _ => decide (∀ child ∈ w.overlong, child ∉ w.supervisor.alive)) ?_ _ _ (by decide +kernel)
  intro w action passed
  unfold Careful
  split
  · exact of_decide_eq_true passed
  · trivial

def snapshotLine (size : Nat) : Bytes :=
  bytes "\x7b\"type\":\"pty_snapshot\",\"to\":\"viewer\",\"seq\":1,\"cols\":120,\"rows\":34,\"data\":\"" ++
    (replicate size 65 ++ bytes "\"\x7d")

theorem snapshot_single (size : Nat) : lineFeed ∉ snapshotLine size := by
  unfold snapshotLine
  rw [mem_append, mem_append, not_or, not_or]
  refine ⟨by decide +kernel, fun member => ?_, by decide +kernel⟩
  exact absurd (eq_of_mem_replicate member) (by decide)

/-- A process that shows that much is left alive beside the one that takes its place. -/
theorem shell_left : ¬ ∀ (actions : List Action) (w : World), run step start actions = some w → OneShell w := by
  intro one
  have left (line : Bytes) (single : lineFeed ∉ line) (some_ : line ≠ []) (long : maxLine ≤ line.length) :
      ∃ w, run step start [.print 0 (line ++ [lineFeed]), .scan line.length, .supervise .pumpEnds, .supervise .setNil,
        .supervise (.attempt 0), .supervise (.spawn true)] = some w ∧ w.supervisor.alive = [1, 0] := by
    have stops : scanLines [] ((line ++ [lineFeed]).take line.length) = ([], none) := by
      rw [take_left']
      · exact scan_overlong single some_ ((Nat.zero_add _).symm ▸ long)
      · rfl
    have scanned : step { start with pipe := Function.update start.pipe 0 ([] ++ (line ++ [lineFeed])) } (.scan line.length) =
        some { start with
          pipe := Function.update (Function.update start.pipe 0 ([] ++ (line ++ [lineFeed]))) 0
            ((line ++ [lineFeed]).drop line.length)
          scanner := none } := by
      simp only [step, start, ChildSupervisor.start, Function.update_self, nil_append, stops]
      rfl
    have printed : step start (.print 0 (line ++ [lineFeed])) =
      some { start with pipe := Function.update start.pipe 0 ([] ++ (line ++ [lineFeed])) } := rfl
    rw [run, printed, bind_some, run, scanned, bind_some]
    exact ⟨_, rfl, rfl⟩
  have long : maxLine ≤ (snapshotLine maxLine).length := by
    unfold snapshotLine
    rw [length_append, length_append, length_replicate]
    omega
  have some_ : snapshotLine maxLine ≠ [] := ne_nil_of_length_pos (Nat.lt_of_lt_of_le (by decide) long)
  obtain ⟨w, ran, alive⟩ := left _ (snapshot_single maxLine) some_ long
  have one := (one _ w ran).1
  rw [alive] at one
  exact absurd one (by decide)

end Loop

end PieRelay.PtyDaemon
