import PieRelay.ChildSupervisor
import PieRelay.ControlPlane
import PieRelay.Executions
import PieRelay.JournalFile

/-!
How the client daemon passes chat requests on to its executor, client/internal/chatagent. The relay loop marks a request
before it writes it, and writes it to the process that is the current one by then; the supervisor clears the mark and
changes the current process at moments of its own. A frame that is written to a process that has ended is lost.
-/
namespace PieRelay.RequestReplay
open List Option
open ChildSupervisor (Supervisor Phase Alone supervise)
open ControlPlane (Table)
open Executions
open JsonScanner (Bytes)

def maxReplayRequests : Nat := 64

def maxReplayBytes : Nat := 16777216

def maxReplayTotal : Nat := 33554432

structure Replay where
  activeID : String
  activeFrames : List Bytes
  activeBytes : Nat
  activeTruncated : Bool
  completed : Table (List Bytes)
  completedOrder : List String
  completedBytes : Nat
  deriving DecidableEq

def newRequestReplay : Replay := ⟨"", [], 0, false, ∅, [], 0⟩

/-- The text members of those names, whatever their case; a member that is no text is an error. -/
def readTexts (names : List String) (texts : String → String) (field : String × Bytes) : Option (String → String) :=
  match names.find? (JournalFile.isField field.1) with
  | none => some texts
  | some name =>
    if field.2 = JsonRecords.nullWord then some texts
    else (JournalFile.readText field.2 JsonStrings.unquote).map fun text => Function.update texts name text

def unmarshalTexts (names : List String) (raw : Bytes) : Option (String → String) :=
  (JsonRecords.unmarshalRecord raw).bind fun fields => fields.foldlM (readTexts names) fun _ => ""

def peekMessageType (raw : Bytes) : String := ((unmarshalTexts ["type"] raw).map fun texts => texts "type").getD ""

def chatRequestID (raw : Bytes) : String :=
  match unmarshalTexts ["type", "requestId"] raw with
  | none => ""
  | some texts =>
    if texts "type" ≠ "chat" ∨ texts "requestId" = "" ∨ 160 < (texts "requestId").utf8ByteSize then ""
    else texts "requestId"

def framesSize (frames : List Bytes) : Nat := (frames.map length).foldl (· + ·) 0

/-- The frames that are answered to a request that has been accepted before, and what becomes of any other. -/
def begin_ (r : Replay) (raw : Bytes) : Replay × Option (List Bytes) :=
  let requestID := chatRequestID raw
  if requestID = "" then (r, none)
  else match r.completed.lookup requestID with
    | some frames => (r, some frames)
    | none =>
      if r.activeID = requestID then (r, some r.activeFrames)
      else if r.activeID ≠ "" then (r, none)
      else ({ r with activeID := requestID, activeFrames := [], activeBytes := 0, activeTruncated := false }, none)

def evict : List String → Replay → Replay
  | [], r => { r with completedOrder := [] }
  | oldest :: rest, r =>
    if maxReplayRequests < (oldest :: rest).length ∨ maxReplayTotal < r.completedBytes then
      evict rest { r with
        completedBytes := r.completedBytes - framesSize ((r.completed.lookup oldest).getD [])
        completed := r.completed.erase oldest }
    else { r with completedOrder := oldest :: rest }

def resetActive (r : Replay) : Replay :=
  { r with activeID := "", activeFrames := [], activeBytes := 0, activeTruncated := false }

def observe (r : Replay) (raw : Bytes) (terminal : Bool) : Replay :=
  if r.activeID = "" then r
  else
    let r := if ¬ r.activeTruncated ∧ r.activeBytes + raw.length ≤ maxReplayBytes then
        { r with activeFrames := r.activeFrames ++ [raw], activeBytes := r.activeBytes + raw.length }
      else { r with activeTruncated := true }
    if ¬ terminal then r
    else
      let frames := if r.activeTruncated then [raw] else r.activeFrames
      resetActive (evict (r.completedOrder ++ [r.activeID]) { r with
        completed := r.completed.insert r.activeID frames
        completedBytes := r.completedBytes + framesSize frames })

def terminal (type : String) : Bool := type ∈ ["done", "error", "aborted"]

/-- The relay loop: between two frames, with a frame it has looked at, or with one and the process it is for. -/
inductive Forwarder where
  | idle
  | holds (raw : Bytes)
  | writes (raw : Bytes) (child : Option Nat)
  deriving DecidableEq

structure World where
  supervisor : Supervisor
  replay : Replay
  forwarder : Forwarder
  /-- What the processes have been sent. -/
  written : List (Nat × Bytes)
  /-- How much of it was there when the active request was marked. -/
  since : Nat

def start : World := ⟨ChildSupervisor.start, newRequestReplay, .idle, [], 0⟩

inductive Action where
  | receive (raw : Bytes)
  | choose
  | write (accepts : Bool)
  | event (type : String) (raw : Bytes)
  | supervise (event : ChildSupervisor.Event)

def receive (w : World) (raw : Bytes) : World :=
  if peekMessageType raw = "chat" then
    match begin_ w.replay raw with
    | (_, some _) => w
    | (replay, none) => { w with
      replay, forwarder := .holds raw
      since := if replay.activeID = w.replay.activeID then w.since else w.written.length }
  else { w with forwarder := .holds raw }

def step (w : World) : Action → Option World
  | .receive raw => match w.forwarder with
    | .idle => some (receive w raw)
    | _ => none
  | .choose => match w.forwarder with
    | .holds raw => some { w with forwarder := .writes raw w.supervisor.current }
    | _ => none
  | .write accepts => match w.forwarder with
    | .writes raw (some child) => some { w with
      forwarder := .idle
      written := if child ∈ w.supervisor.alive ∧ accepts then w.written ++ [(child, raw)] else w.written }
    | .writes _ none => some { w with forwarder := .idle }
    | _ => none
  | .event type raw => match w.supervisor.phase with
    | .pumping _ => some (if raw = [] then w else { w with replay := observe w.replay raw (terminal type) })
    | _ => none
  | .supervise event =>
    -- The events of a process end once it has been waited for.
    if event = .pumpEnds ∧ w.supervisor.alive.any fun child => w.supervisor.phase = .pumping child then none
    else (supervise true w.supervisor event).map fun supervisor => { w with
      supervisor, replay := if event = .resetActive then resetActive w.replay else w.replay }

def Holding (w : World) (requestID : String) : Prop :=
  ∃ raw, (w.forwarder = .holds raw ∨ ∃ child, w.forwarder = .writes raw child) ∧ chatRequestID raw = requestID

def Sent (w : World) (child : Nat) : Prop :=
  ∃ raw, (child, raw) ∈ w.written.drop w.since ∧ chatRequestID raw = w.replay.activeID

/-- Between two frames the active request has been written, since it was marked, to the process that is alive. -/
def Forwarded (w : World) : Prop :=
  w.forwarder = .idle → w.replay.activeID ≠ "" → ∀ child ∈ w.supervisor.alive, Sent w child

/-- The frame of the active request goes to a process that the supervisor has not answered the end of, and reaches it
    if it is alive. -/
def Careful (w : World) : Action → Prop
  | .write accepts => ∀ raw child, w.forwarder = .writes raw child → chatRequestID raw = w.replay.activeID →
      w.replay.activeID ≠ "" → ∃ e, child = some e ∧
        (w.supervisor.phase = .pumping e ∨ w.supervisor.phase = .ended e) ∧ (e ∈ w.supervisor.alive → accepts)
  | _ => True

section Requests
variable {r : Replay} {raw : Bytes}

theorem begin_cases : (∃ frames, begin_ r raw = (r, some frames)) ∨ begin_ r raw = (r, none) ∨
    ∃ replay, begin_ r raw = (replay, none) ∧ r.activeID = "" ∧ replay.activeID = chatRequestID raw ∧ replay.activeID ≠ "" := by
  unfold begin_
  dsimp only
  split
  · exact .inr (.inl rfl)
  · next some_ =>
    split
    · exact .inl ⟨_, rfl⟩
    · split
      · exact .inl ⟨_, rfl⟩
      · split
        · exact .inr (.inl rfl)
        · next idle => exact .inr (.inr ⟨_, rfl, by simpa using idle, rfl, some_⟩)

theorem observe_active (r : Replay) (raw : Bytes) (terminal : Bool) :
    (observe r raw terminal).activeID = r.activeID ∨ (observe r raw terminal).activeID = "" := by
  unfold observe
  split
  · exact .inl rfl
  · dsimp only
    split
    · left
      split <;> rfl
    · exact .inr rfl

end Requests

section Runs
variable {w next : World}

/-- A request that is active is in hand, or has been sent to the process that the supervisor still waits for. -/
structure Kept (w : World) : Prop where
  alone : Alone w.supervisor
  since : w.since ≤ w.written.length
  sent : w.replay.activeID ≠ "" → Holding w w.replay.activeID ∨
    ∃ e, (w.supervisor.phase = .pumping e ∨ w.supervisor.phase = .ended e) ∧ (e ∈ w.supervisor.alive → Sent w e)

theorem start_kept : Kept start := ⟨ChildSupervisor.start_alone, Nat.le_refl 0, fun active => absurd rfl active⟩

theorem idle_holds_nothing (idle : w.forwarder = .idle) (requestID : String) : ¬ Holding w requestID := by
  rintro ⟨raw, holds | ⟨child, writes⟩, _⟩
  · cases idle.symm.trans holds
  · cases idle.symm.trans writes

theorem kept_forwarded (kept : Kept w) : Forwarded w := by
  intro idle active child alive
  rcases kept.sent active with holding | ⟨e, phase, sent⟩
  · exact absurd holding (idle_holds_nothing idle _)
  · have same : e = child := by
      rcases kept.alone.mine child alive with pumping | started <;> rcases phase with here | here
      · cases here.symm.trans pumping
        rfl
      · cases here.symm.trans pumping
      · cases here.symm.trans started
      · cases here.symm.trans started
    subst same
    exact sent alive

theorem receive_kept (kept : Kept w) (idle : w.forwarder = .idle) (raw : Bytes) : Kept (receive w raw) := by
  have waits : w.replay.activeID ≠ "" →
      ∃ e, (w.supervisor.phase = .pumping e ∨ w.supervisor.phase = .ended e) ∧ (e ∈ w.supervisor.alive → Sent w e) :=
    fun active => (kept.sent active).resolve_left (idle_holds_nothing idle _)
  unfold receive
  split
  · obtain ⟨frames, repeated⟩ | same | ⟨replay, marked, _, active, some_⟩ := @begin_cases w.replay raw
    · rw [repeated]
      exact kept
    · rw [same]
      dsimp only
      rw [if_pos rfl]
      exact ⟨kept.alone, kept.since, fun active => .inr (waits active)⟩
    · rw [marked]
      refine ⟨kept.alone, ?_, fun _ => .inl ⟨raw, .inl rfl, active.symm⟩⟩
      dsimp only
      split
      · exact kept.since
      · exact Nat.le_refl _
  · exact ⟨kept.alone, kept.since, fun active => .inr (waits active)⟩

theorem write_kept (kept : Kept w) {accepts : Bool} (careful : Careful w (.write accepts))
    (stepped : step w (.write accepts) = some next) : Kept next := by
  have grown : ∀ entry, w.since ≤ w.written.length → ∀ child, Sent w child → Sent
      { w with forwarder := .idle, written := w.written ++ [entry] } child := by
    rintro entry enough child ⟨raw, member, same⟩
    refine ⟨raw, ?_, same⟩
    rw [drop_append_of_le_length enough]
    exact mem_append_left _ member
  cases forwarder : w.forwarder with
  | idle | holds => simp [step, forwarder] at stepped
  | writes raw child =>
    -- The other active request has been sent before.
    have other : chatRequestID raw ≠ w.replay.activeID → ¬ Holding w w.replay.activeID := by
      rintro apart ⟨raw', holds | ⟨child', writes⟩, same⟩
      · cases forwarder.symm.trans holds
      · cases forwarder.symm.trans writes
        exact apart same
    cases child with
    | none =>
      simp only [step, forwarder, some.injEq] at stepped
      subst stepped
      refine ⟨kept.alone, kept.since, fun active => ?_⟩
      by_cases mine : chatRequestID raw = w.replay.activeID
      · obtain ⟨e, none_, _⟩ := careful raw none forwarder mine active
        cases none_
      · exact .inr ((kept.sent active).resolve_left (other mine))
    | some child =>
      simp only [step, forwarder, some.injEq] at stepped
      subst stepped
      refine ⟨kept.alone, ?_, fun active => .inr ?_⟩
      · dsimp only
        split
        · rw [length_append]
          exact Nat.le_add_right_of_le kept.since
        · exact kept.since
      · by_cases mine : chatRequestID raw = w.replay.activeID
        · obtain ⟨e, same, phase, reaches⟩ := careful raw (some child) forwarder mine active
          cases same
          refine ⟨child, phase, fun alive => ?_⟩
          have written : child ∈ w.supervisor.alive ∧ accepts := ⟨alive, reaches alive⟩
          rw [if_pos written]
          refine ⟨raw, ?_, mine⟩
          rw [drop_append_of_le_length kept.since]
          exact mem_append_right _ (mem_singleton_self _)
        · obtain ⟨e, phase, sent⟩ := (kept.sent active).resolve_left (other mine)
          refine ⟨e, phase, fun alive => ?_⟩
          split
          · exact grown (child, raw) kept.since e (sent alive)
          · exact sent alive

theorem supervise_kept (kept : Kept w) {event : ChildSupervisor.Event} (stepped : step w (.supervise event) = some next) :
    Kept next := by
  simp only [step, ite_none_left_eq_some, map_eq_some_iff] at stepped
  obtain ⟨waited, supervisor, stepped, rfl⟩ := stepped
  have dead : event = .pumpEnds → ∀ child, w.supervisor.phase = .pumping child → child ∉ w.supervisor.alive := by
    intro ends child phase alive
    exact waited ⟨ends, any_eq_true.mpr ⟨child, alive, decide_eq_true phase⟩⟩
  refine ⟨ChildSupervisor.supervise_alone kept.alone dead stepped, kept.since, fun active => ?_⟩
  dsimp only at active ⊢
  by_cases reset : event = .resetActive
  · rw [if_pos reset] at active
    exact absurd rfl active
  rw [if_neg reset] at active ⊢
  rcases kept.sent active with holding | ⟨e, phase, sent⟩
  · exact .inl holding
  · -- The supervisor leaves the process alone, or is through with it and clears the mark first.
    obtain ⟨stays, fewer⟩ := ChildSupervisor.supervise_waits stepped reset phase
    exact .inr ⟨e, stays, fun alive => sent (fewer alive)⟩

theorem step_kept (w : World) (action : Action) (next : World) (careful : Careful w action) (kept : Kept w)
    (stepped : step w action = some next) : Kept next := by
  cases action with
  | receive raw =>
    cases forwarder : w.forwarder with
    | idle =>
      simp only [step, forwarder, some.injEq] at stepped
      subst stepped
      exact receive_kept kept forwarder raw
    | _ => simp [step, forwarder] at stepped
  | choose =>
    cases forwarder : w.forwarder with
    | holds raw =>
      simp only [step, forwarder, some.injEq] at stepped
      subst stepped
      refine ⟨kept.alone, kept.since, fun active => (kept.sent active).imp ?_ id⟩
      rintro ⟨raw', holds | ⟨child, writes⟩, same⟩
      · cases forwarder.symm.trans holds
        exact ⟨raw, .inr ⟨_, rfl⟩, same⟩
      · cases forwarder.symm.trans writes
    | _ => simp [step, forwarder] at stepped
  | write => exact write_kept kept careful stepped
  | event type raw =>
    cases phase : w.supervisor.phase with
    | pumping =>
      simp only [step, phase, some.injEq] at stepped
      subst stepped
      split
      · exact kept
      · refine ⟨kept.alone, kept.since, fun active => ?_⟩
        dsimp only at active ⊢
        rcases observe_active w.replay raw (terminal type) with same | cleared
        · rw [same] at active
          rcases kept.sent active with ⟨raw', holds, mine⟩ | ⟨e, here, sent⟩
          · exact .inl ⟨raw', holds, mine.trans same.symm⟩
          · refine .inr ⟨e, here, fun alive => ?_⟩
            obtain ⟨raw', member, mine⟩ := sent alive
            exact ⟨raw', member, mine.trans same.symm⟩
        · exact absurd cleared active
    | _ => simp [step, phase] at stepped
  | supervise => exact supervise_kept kept stepped

/-- Where every chat frame that is marked reaches the process that the supervisor waits for, the active request is
    always with the process that is alive. -/
theorem requests_forwarded {actions : List Action} (careful : Guarded step Careful start actions)
    (ran : run step start actions = some w) : Forwarded w :=
  kept_forwarded (guarded_run_invariant Kept step_kept careful ran start_kept)

end Runs

def chat : Bytes := JournalFile.bytes "\x7b\"type\":\"chat\",\"requestId\":\"r1\"\x7d"

def carefully (w : World) : Action → Bool
  | .write accepts => match w.forwarder with
    | .writes raw (some e) => chatRequestID raw ≠ w.replay.activeID ∨
        (w.supervisor.phase = .pumping e ∨ w.supervisor.phase = .ended e) ∧ (e ∈ w.supervisor.alive → accepts)
    | .writes raw none => chatRequestID raw ≠ w.replay.activeID
    | _ => true
  | _ => true

theorem carefully_sound (w : World) (action : Action) (checked : carefully w action) : Careful w action := by
  cases action with
  | write =>
    intro raw child writes mine active
    cases child with
    | none =>
      simp only [carefully, writes, decide_eq_true_eq] at checked
      exact absurd mine checked
    | some e =>
      simp only [carefully, writes, decide_eq_true_eq] at checked
      obtain ⟨phase, reaches⟩ := checked.resolve_left fun apart => apart mine
      exact ⟨e, rfl, phase, reaches⟩
  | _ => trivial

def retried : List Action :=
  [.receive chat, .choose, .write true, .receive chat, .supervise (.exit 0), .supervise .pumpEnds, .supervise .resetActive,
    .supervise .setNil, .supervise (.attempt 0), .supervise (.spawn true), .supervise .setCurrent,
    .receive chat, .choose, .write true]

theorem retried_forwarded : ∃ w, run step start retried = some w ∧ Forwarded w ∧ w.replay.activeID = "r1" ∧
    w.supervisor.alive = [1] ∧ w.written = [(0, chat), (1, chat)] := by
  obtain ⟨w, ran, facts⟩ := map_eq_some_iff.mp
    (show (run step start retried).map (fun w => (w.replay.activeID, w.supervisor.alive, w.written)) =
      some ("r1", [1], [(0, chat), (1, chat)]) from by decide +kernel)
  simp only [Prod.mk.injEq] at facts
  obtain ⟨active, alive, written⟩ := facts
  have careful : Guarded step Careful start retried :=
    checked_guarded carefully carefully_sound start retried (by decide +kernel)
  exact ⟨w, ran, requests_forwarded careful ran, active, alive, written⟩

def between : List Action :=
  [.supervise (.exit 0), .supervise .pumpEnds, .supervise .resetActive, .supervise .setNil, .receive chat, .choose, .write true,
    .supervise (.attempt 0), .supervise (.spawn true), .supervise .setCurrent]

/-- It is marked and skipped; the new process never sees it, and its retries are answered with nothing. -/
theorem request_lost : ∃ w, run step start between = some w ∧ ¬ Forwarded w ∧ (begin_ w.replay chat).2 = some [] := by
  obtain ⟨w, ran, facts⟩ := map_eq_some_iff.mp
    (show (run step start between).map (fun w => (decide (w.forwarder = .idle), w.replay.activeID, w.supervisor.alive,
      w.written.isEmpty, decide ((begin_ w.replay chat).2 = some []))) = some (true, "r1", [1], true, true) from by
      decide +kernel)
  simp only [Prod.mk.injEq, decide_eq_true_eq, List.isEmpty_iff] at facts
  obtain ⟨idle, active, alive, written, answered⟩ := facts
  refine ⟨w, ran, fun forwarded => ?_, answered⟩
  have some_ : w.replay.activeID ≠ "" := by rw [active]; decide
  obtain ⟨raw, member, _⟩ := forwarded idle some_ 1 (by rw [alive]; exact mem_singleton_self 1)
  rw [written, List.drop_nil] at member
  cases member

end PieRelay.RequestReplay
