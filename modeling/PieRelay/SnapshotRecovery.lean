import Mathlib.Logic.Function.Iterate
import PieRelay.PtySnapshots
import PieRelay.TerminalViewer

/-!
Whether a screen that has asked for a snapshot comes to rest: the host of client/node-executor/pty-host.mjs answers with
what its emulator serializes, and desktop/src/TerminalScreen.tsx puts that into the queue for the terminal. The emulator
is a parameter.
-/
namespace PieRelay.SnapshotRecovery
open TerminalViewer
open JsonScanner (Bytes)

structure Exchange where
  viewer : World
  asked : Nat

def answer (frame : SequencedTerminalFrame) (data : Bytes) (hidden : Bool) (x : Exchange) : Exchange :=
  if x.asked = 0 then x
  else
    let next := ptySnapshot defaults x.viewer frame data hidden
    ⟨next, x.asked - 1 + (next.requests.length - x.viewer.requests.length)⟩

def Settles (w : World) (frame : SequencedTerminalFrame) (data : Bytes) (hidden : Bool) : Prop :=
  ∀ asked, ∃ rounds, ((answer frame data hidden)^[rounds] ⟨w, asked⟩).asked = 0

section Recovery
variable {o : SchedulerOptions} {w : World} {frame : SequencedTerminalFrame} {data : Bytes} {hidden : Bool} {x : Exchange}

end Recovery

def printer : PtySnapshots.Emulator := ⟨Bytes, fun _ _ => [], fun shown data => shown ++ data, fun shown _ _ => shown, id⟩

def filled : PtySnapshots.World printer :=
  { PtySnapshots.start printer "" with headless := (List.replicate 1057140 32 : Bytes) }

end PieRelay.SnapshotRecovery
