import PieRelay.TerminalViewer
import Mathlib.Data.List.Induction

/-!
What the tracker of desktop/src/terminal-stream.ts lets through: any sequence of numbered outputs and snapshots, of any
incarnations and in any order.
-/
namespace PieRelay.TerminalStream
open TerminalViewer List Option

inductive Call where
  | output (frame : SequencedTerminalFrame)
  | snapshot (frame : SequencedTerminalFrame)

def number : Call → Option (String × Int)
  | .output frame => sequence 1 frame
  | .snapshot frame => sequence 0 frame

def isOutput : Call → Bool
  | .output _ => true
  | .snapshot _ => false

def accept (t : TerminalStreamTracker) : Call → TerminalStreamTracker × StreamDecision
  | .output frame => acceptOutput t frame
  | .snapshot frame => (acceptSnapshot t frame, .snapshot)

structure Seen where
  tracker : TerminalStreamTracker
  last : Option (String × Int)

def fresh : Seen := ⟨⟨"", 0, false⟩, none⟩

def see (seen : Seen) (call : Call) : Seen where
  tracker := (accept seen.tracker call).1
  last := match (accept seen.tracker call).2 with
    | .apply | .snapshot => number call
    | .duplicate | .gap => seen.last

def after (calls : List Call) : Seen := calls.foldl see fresh

def answer (before : List Call) (call : Call) : StreamDecision := (accept (after before).tracker call).2

structure Tracked (calls : List Call) : Prop where
  /-- Only the first frame of all and the one behind the last accepted one are applied. -/
  applied : ∀ before frame rest i s, calls = before ++ .output frame :: rest → number (.output frame) = some (i, s) →
    answer before (.output frame) = .apply → before = [] ∧ s = 1 ∨ (after before).last = some (i, s - 1)
  /-- Behind a gap nothing is applied before the next snapshot. -/
  waits : ∀ before gap outputs frame rest, calls = before ++ gap :: (outputs ++ .output frame :: rest) →
    answer before gap = .gap → (∀ call ∈ outputs, isOutput call) →
    answer (before ++ gap :: outputs) (.output frame) ≠ .apply
  /-- What is applied once more comes behind a snapshot that has gone back. -/
  once : ∀ before first between second rest i s,
    calls = before ++ .output first :: (between ++ .output second :: rest) →
    number (.output first) = some (i, s) → number (.output second) = some (i, s) →
    answer before (.output first) = .apply → answer (before ++ .output first :: between) (.output second) = .apply →
    ∃ frame back, Call.snapshot frame ∈ between ∧ number (.snapshot frame) = some (i, back) ∧ back < s

section Streams
variable {calls : List Call} {call : Call} {frame : SequencedTerminalFrame} {t : TerminalStreamTracker} {seen : Seen}
variable {i j : String} {s n : Int}

theorem after_append (before rest : List Call) : after (before ++ rest) = rest.foldl see (after before) := foldl_append

theorem output_named (numbered : sequence 1 frame = some (i, s)) : (acceptOutput t frame).1.incarnationId ≠ "" := by
  have named := (sequence_named numbered).1
  unfold acceptOutput
  rw [numbered]
  dsimp only
  split_ifs <;> assumption

structure Kept (calls : List Call) : Prop where
  named : calls ≠ [] → (after calls).tracker.incarnationId ≠ ""
  taken : calls ≠ [] → (after calls).tracker.awaitingSnapshot = false →
    (after calls).last = some ((after calls).tracker.incarnationId, (after calls).tracker.lastSeq)

theorem see_kept (kept : Kept calls) (numbered : number call = some (i, s)) : Kept (calls ++ [call]) := by
  have seen : after (calls ++ [call]) = see (after calls) call := after_append calls [call]
  constructor
  · intro _
    rw [seen]
    cases call with
    | output => exact output_named numbered
    | snapshot frame =>
      show (acceptSnapshot _ frame).incarnationId ≠ ""
      rw [accept_snapshot numbered]
      exact (sequence_named numbered).1
  · intro _ takes
    rw [seen] at takes ⊢
    cases call with
    | output =>
      have named := output_named (t := (after calls).tracker) numbered
      simp only [see, accept] at takes ⊢
      rcases accept_output_cases (t := (after calls).tracker) numbered with gap | ⟨decided, same⟩ | ⟨decided, same, _⟩
      · exact absurd (gap.2.1.symm.trans takes) (by decide)
      · rw [same] at takes named
        rw [decided, same]
        refine kept.taken (fun none_ => ?_) takes
        subst none_
        exact named rfl
      · rw [decided, same]
        exact numbered
    | snapshot =>
      simp only [see, accept, accept_snapshot numbered]
      exact numbered

theorem all_kept (numbered : ∀ call ∈ calls, (number call).isSome) : Kept calls := by
  induction calls using reverseRecOn with
  | nil => exact ⟨fun some_ => absurd rfl some_, fun some_ => absurd rfl some_⟩
  | append_singleton calls call ih =>
    rw [forall_mem_append] at numbered
    obtain ⟨⟨i, s⟩, this⟩ := isSome_iff_exists.mp (numbered.2 call mem_cons_self)
    exact see_kept (ih numbered.1) this

def Waiting (t : TerminalStreamTracker) : Prop := t.awaitingSnapshot ∧ t.incarnationId ≠ ""

theorem waiting_output (waiting : Waiting t) (numbered : sequence 1 frame = some (i, s)) :
    (acceptOutput t frame).2 ≠ .apply ∧ Waiting (acceptOutput t frame).1 := by
  rcases accept_output_cases (t := t) numbered with gap | ⟨decided, same⟩ | ⟨decided, _, first | follows⟩
  · exact ⟨by rw [gap.1]; decide, gap.2⟩
  · refine ⟨by rw [decided]; decide, ?_⟩
    rw [same]
    exact waiting
  · exact absurd first.1 waiting.2
  · exact absurd (waiting.1.symm.trans follows.2.1) (by decide)

theorem waiting_outputs (waiting : Waiting seen.tracker)
    (outputs : ∀ call ∈ calls, isOutput call ∧ (number call).isSome) :
    Waiting (calls.foldl see seen).tracker := by
  induction calls generalizing seen with
  | nil => exact waiting
  | cons call rest ih =>
    rw [forall_mem_cons] at outputs
    obtain ⟨⟨i, s⟩, numbered⟩ := isSome_iff_exists.mp outputs.1.2
    refine ih ?_ outputs.2
    cases call with
    | output => exact (waiting_output waiting numbered).2
    | snapshot => exact absurd outputs.1.1 Bool.false_ne_true

theorem gap_waiting (numbered : number call = some (i, s)) (gap : (accept t call).2 = .gap) : Waiting (accept t call).1 := by
  cases call with
  | output =>
    rcases accept_output_cases (t := t) numbered with waits | ⟨decided, _⟩ | ⟨decided, _⟩
    · exact waits.2
    · exact absurd (decided.symm.trans gap) (by decide)
    · exact absurd (decided.symm.trans gap) (by decide)
  | snapshot => cases gap

def Passed (i : String) (s : Int) (t : TerminalStreamTracker) : Prop :=
  t.incarnationId ≠ "" ∧ (t.awaitingSnapshot = false → t.incarnationId = i → s ≤ t.lastSeq)

theorem passed_accept (passed : Passed i s t) (numbered : number call = some (j, n))
    (forward : isOutput call = false → j = i → s ≤ n) : Passed i s (accept t call).1 := by
  cases call with
  | output =>
    refine ⟨output_named numbered, fun takes mine => ?_⟩
    simp only [accept] at takes mine ⊢
    rcases accept_output_cases (t := t) numbered with gap | ⟨_, same⟩ | ⟨_, same, first | ⟨old, takes', follows⟩⟩
    · exact absurd (gap.2.1.symm.trans takes) (by decide)
    · rw [same] at takes mine ⊢
      exact passed.2 takes mine
    · exact absurd first.1 passed.1
    · rw [same] at mine ⊢
      have before := passed.2 takes' (old.trans mine)
      show s ≤ n
      omega
  | snapshot =>
    simp only [accept, accept_snapshot numbered]
    exact ⟨(sequence_named numbered).1, fun _ mine => forward rfl mine⟩

theorem passed_all (passed : Passed i s seen.tracker) (numbered : ∀ call ∈ calls, (number call).isSome)
    (forward : ∀ frame back, Call.snapshot frame ∈ calls → number (.snapshot frame) = some (i, back) → s ≤ back) :
    Passed i s (calls.foldl see seen).tracker := by
  induction calls generalizing seen with
  | nil => exact passed
  | cons call rest ih =>
    rw [forall_mem_cons] at numbered
    obtain ⟨⟨j, n⟩, mine⟩ := isSome_iff_exists.mp numbered.1
    refine ih (passed_accept passed mine fun snapshot same => ?_) numbered.2 fun frame back member =>
      forward frame back (mem_cons_of_mem call member)
    cases call with
    | output => cases snapshot
    | snapshot frame => exact forward frame n mem_cons_self (same ▸ mine)

theorem applied_cases (numbered : sequence 1 frame = some (i, s)) (applied : (acceptOutput t frame).2 = .apply) :
    (acceptOutput t frame).1 = { t with incarnationId := i, lastSeq := s } ∧ (t.incarnationId = "" ∧ s = 1 ∨
      t.incarnationId = i ∧ t.awaitingSnapshot = false ∧ s = t.lastSeq + 1) := by
  rcases accept_output_cases (t := t) numbered with gap | ⟨decided, _⟩ | ⟨_, fine⟩
  · exact absurd (gap.1.symm.trans applied) (by decide)
  · exact absurd (decided.symm.trans applied) (by decide)
  · exact fine

theorem stream_tracked (calls : List Call) (numbered : ∀ call ∈ calls, (number call).isSome) : Tracked calls := by
  constructor
  · intro before frame rest i s same mine applied
    subst same
    rw [forall_mem_append] at numbered
    have kept := all_kept numbered.1
    rcases (applied_cases mine applied).2 with ⟨unnamed, first⟩ | ⟨named, takes, follows⟩
    · exact .inl ⟨by_contra fun some_ => kept.named some_ unnamed, first⟩
    · refine .inr ((kept.taken (fun none_ => ?_) takes).trans ?_)
      · subst none_
        exact (sequence_named mine).1 named.symm
      · rw [named, follows, Int.add_sub_cancel]
  · intro before gap outputs frame rest same waits only
    subst same
    simp only [forall_mem_append, forall_mem_cons] at numbered
    obtain ⟨_, first, middle, mine, _⟩ := numbered
    obtain ⟨⟨i, s⟩, numbered⟩ := isSome_iff_exists.mp first
    obtain ⟨⟨j, n⟩, mine⟩ := isSome_iff_exists.mp mine
    rw [answer, after_append]
    refine (waiting_output ?_ mine).1
    rw [foldl_cons]
    refine waiting_outputs ?_ fun call member => ⟨only call member, middle call member⟩
    exact gap_waiting numbered waits
  · intro before first between second rest i s same mine also applied again
    subst same
    simp only [forall_mem_append, forall_mem_cons] at numbered
    obtain ⟨_, _, middle, _⟩ := numbered
    by_contra forward
    have passed : Passed i s (see (after before) (.output first)).tracker := by
      refine ⟨output_named mine, fun _ _ => ?_⟩
      show s ≤ (acceptOutput _ first).1.lastSeq
      exact Int.le_of_eq (congrArg TerminalStreamTracker.lastSeq (applied_cases mine applied).1).symm
    have behind : Passed i s (after (before ++ .output first :: between)).tracker := by
      rw [after_append, foldl_cons]
      refine passed_all passed middle fun frame back member numbered => ?_
      by_contra less
      exact forward ⟨frame, back, member, numbered, Int.not_le.mp less⟩
    rcases (applied_cases also again).2 with ⟨unnamed, _⟩ | ⟨named, takes, follows⟩
    · exact behind.1 unnamed
    · have past := behind.2 takes named
      omega

end Streams

def recovery : List Call :=
  [.output ⟨some "a", some 4⟩, .snapshot ⟨some "a", some 4⟩, .output ⟨some "a", some 5⟩, .output ⟨some "b", some 1⟩]

theorem recovery_tracked : (∀ call ∈ recovery, (number call).isSome) ∧ Tracked recovery :=
  have numbered : ∀ call ∈ recovery, (number call).isSome := by decide
  ⟨numbered, stream_tracked recovery numbered⟩

end PieRelay.TerminalStream
