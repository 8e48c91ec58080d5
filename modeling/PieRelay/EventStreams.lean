import PieRelay.Executions
import PieRelay.JournalReplay

/-!
The event stream of a conversation, `integrationConversationEvents` of integration_api.go, and a client that connects
again with the id of the last event it has received. Handlers append events and notify; processes end. A page that finds
a line half written fails, and the connection ends. Left out are heartbeats and what `publicChatEvent` takes off the data.
-/
namespace PieRelay.EventStreams
open List Executions
open JournalFile hiding append
open JournalReplay (Whole fits)

inductive Phase where
  | entered
  | replaying
  | waiting
  | returned
  deriving DecidableEq

/-- `unnotified` handlers have appended an event and not notified yet; `completed` is the number in `replay_complete`.
    `sent` is for this connection, `received` is what has arrived of those before. -/
structure World where
  journal : Journal
  accepted : List Event
  unnotified : Nat
  phase : Phase
  changes : Bool
  after : Nat
  completed : Option Nat
  sent : List Event
  received : List Event

def start : World := ⟨⟨none, 0, none⟩, [], 0, .returned, false, 0, none, [], []⟩

def integrationEventReplayBatch : Int := 200

inductive Action where
  | append (r : Request) (stat : Bool)
  | notify
  | restart
  | connect (arrived : Nat)
  | subscribe
  | backlog (written : Option Nat)
  | change
  | leave

def lastSequence (es : List Event) (after : Nat) : Nat := (es.map Event.sequence).getLastD after

/-- One round of the loop of `sendIntegrationEventBacklog`; `written` is how many of the frames a connection that breaks
    has taken. -/
def backlog (o : Options) (conversation : String) (w : World) (written : Option Nat) : World :=
  match events o conversation w.journal w.after integrationEventReplayBatch with
  | (_, some _) => { w with phase := .returned }
  | (values, none) => match written with
    | some n => { w with phase := .returned, sent := w.sent ++ values.take n }
    | none =>
      let after := lastSequence values w.after
      if values.length < integrationEventReplayBatch then
        { w with sent := w.sent ++ values, after := after, phase := .waiting, completed := w.completed.or (some after) }
      else { w with sent := w.sent ++ values, after := after }

def step (o : Options) (conversation : String) (w : World) : Action → Option World
  | .append r stat =>
    let next := JournalReplay.step o conversation w.journal (.append r stat)
    some { w with
      journal := next.1, accepted := w.accepted ++ next.2, unnotified := w.unnotified + next.2.length }
  | .notify => if 0 < w.unnotified then some { w with unnotified := w.unnotified - 1, changes := true } else none
  | .restart => some { w with
      journal := (JournalReplay.step o conversation w.journal .restart).1, unnotified := 0, phase := .returned }
  | .connect arrived =>
    if w.phase = .returned then
      let received := w.received ++ w.sent.take arrived
      some { w with
        phase := .entered, after := lastSequence received 0, completed := none, sent := [], received := received }
    else none
  | .subscribe => if w.phase = .entered then some { w with phase := .replaying, changes := false } else none
  | .backlog written => if w.phase = .replaying then some (backlog o conversation w written) else none
  | .change =>
    if w.phase = .waiting ∧ w.changes then some { w with phase := .replaying, changes := false } else none
  | .leave => if w.phase = .returned then none else some { w with phase := .returned }

structure Inv (o : Options) (w : World) : Prop where
  whole : Whole o w.journal w.accepted
  shown : w.received ++ w.sent <+: w.accepted.map readOf
  after : w.phase ≠ .returned → w.after = (w.received ++ w.sent).length
  completed : ∀ n ∈ w.completed, n ≤ (w.received ++ w.sent).length
  /-- No change goes unnoticed. -/
  noticed : w.phase = .waiting → w.changes = false → w.unnotified = 0 → w.after = w.accepted.length

section Runs
variable {o : Options} {conversation : String} {w next : World}

/-- What has been read is numbered through. -/
theorem last_sequence {es before values : List Event} (numbers : es.map Event.sequence = range' 1 es.length)
    (part : before ++ values <+: es.map readOf) : lastSequence values before.length = before.length + values.length := by
  obtain ⟨rest, same⟩ := part
  have all : range' 1 es.length = before.map Event.sequence ++ (values.map Event.sequence ++ rest.map Event.sequence) := by
    rw [← numbers, ← JournalReplay.read_sequences, ← same, map_append, map_append, append_assoc]
  obtain ⟨m, -, first, later⟩ := range'_eq_append_iff.mp all
  obtain ⟨n, -, here, -⟩ := range'_eq_append_iff.mp later.symm
  have start : before.length = m := by simpa using congrArg length first
  have count : values.length = n := by simpa using congrArg length here
  rw [lastSequence, here, start, count, getLastD_eq_getLast?, getLast?_range']
  split <;> simp <;> omega

theorem inv_backlog (safe : safeJournalID conversation) (written : Option Nat) (inv : Inv o w)
    (replaying : w.phase = .replaying) : Inv o (backlog o conversation w written) := by
  have after := inv.after (by rw [replaying]; exact nofun)
  have read : events o conversation w.journal w.after integrationEventReplayBatch =
      (((w.accepted.map readOf).drop w.after).take 200, none) := JournalReplay.events_whole inv.whole safe _ _
  have part : w.received ++ w.sent ++ ((w.accepted.map readOf).drop w.after).take 200 <+: w.accepted.map readOf := by
    rw [prefix_iff_eq_take.mp inv.shown, ← after, ← take_add]
    exact take_prefix _ _
  have last := last_sequence inv.whole.numbers part
  have count : (((w.accepted.map readOf).drop w.after).take 200).length = min 200 (w.accepted.length - w.after) := by
    rw [length_take, length_drop, length_map]
  generalize ((w.accepted.map readOf).drop w.after).take 200 = values at read part last count
  rw [← after, after, ← length_append, append_assoc, ← after] at last
  rw [append_assoc] at part
  have told {n : Nat} (more : List Event) (early : n ≤ (w.received ++ w.sent).length) :
      n ≤ (w.received ++ (w.sent ++ more)).length := by
    rw [← append_assoc, length_append]
    exact Nat.le_add_right_of_le early
  unfold backlog
  rw [read]
  cases written with
  | some n =>
    refine ⟨inv.whole, IsPrefix.trans ?_ part, fun here => absurd rfl here,
      fun m known => told _ (inv.completed m known), nofun⟩
    exact (prefix_append_right_inj _).mpr ((prefix_append_right_inj _).mpr (List.take_prefix n values))
  | none =>
    dsimp only
    split
    · next few =>
      have few : values.length < 200 := Int.ofNat_lt.mp few
      refine ⟨inv.whole, part, fun _ => last, fun m known => ?_, fun _ _ _ => ?_⟩
      · rcases Option.or_eq_some_iff.mp known with old | ⟨-, new⟩
        · exact told _ (inv.completed m old)
        · rw [← Option.some_inj.mp new, last]
      · have inside := inv.shown.length_le
        rw [← after, length_map] at inside
        change lastSequence values w.after = w.accepted.length
        rw [last, ← append_assoc, length_append, ← after]
        omega
    · refine ⟨inv.whole, part, fun _ => last, fun m known => told _ (inv.completed m known), fun waiting => ?_⟩
      rw [replaying] at waiting
      cases waiting

theorem step_inv (safe : safeJournalID conversation) (w : World) (action : Action) (next : World)
    (inv : (∀ e ∈ w.accepted, fits o e) → Inv o w) (stepped : step o conversation w action = some next)
    (room : ∀ e ∈ next.accepted, fits o e) : Inv o next := by
  cases action with
  | append r stat =>
    cases stepped
    have inv := inv fun e member => room e (mem_append_left _ member)
    have whole := JournalReplay.step_whole inv.whole _ fun e member => room e (mem_append_right _ member)
    refine ⟨whole, ?_, inv.after, inv.completed, fun waiting quiet notified => ?_⟩
    · rw [map_append]
      exact inv.shown.trans (prefix_append _ _)
    · obtain ⟨before, none_⟩ := Nat.add_eq_zero_iff.mp notified
      rw [length_append, none_]
      exact inv.noticed waiting quiet before
  | notify =>
    obtain ⟨-, same⟩ := Option.ite_none_right_eq_some.mp stepped
    cases same
    have inv := inv room
    exact ⟨inv.whole, inv.shown, inv.after, inv.completed, nofun⟩
  | restart =>
    cases stepped
    have inv := inv room
    have whole : Whole o (JournalReplay.step o conversation w.journal .restart).1 _ :=
      JournalReplay.step_whole inv.whole .restart nofun
    exact ⟨append_nil w.accepted ▸ whole, inv.shown, fun here => absurd rfl here, inv.completed, nofun⟩
  | connect arrived =>
    obtain ⟨-, same⟩ := Option.ite_none_right_eq_some.mp stepped
    cases same
    have inv := inv room
    have part : [] ++ (w.received ++ w.sent.take arrived) <+: w.accepted.map readOf :=
      ((prefix_append_right_inj _).mpr (List.take_prefix _ _)).trans inv.shown
    have last := last_sequence inv.whole.numbers part
    rw [length_nil, Nat.zero_add] at last
    rw [nil_append] at part
    exact ⟨inv.whole, by rwa [append_nil], fun _ => by rwa [append_nil], nofun, nofun⟩
  | subscribe =>
    obtain ⟨entered, same⟩ := Option.ite_none_right_eq_some.mp stepped
    cases same
    have inv := inv room
    exact ⟨inv.whole, inv.shown, fun _ => inv.after (by rw [entered]; exact nofun), inv.completed, nofun⟩
  | backlog written =>
    obtain ⟨replaying, same⟩ := Option.ite_none_right_eq_some.mp stepped
    cases same
    have same : (backlog o conversation w written).accepted = w.accepted := by
      unfold backlog
      split
      · rfl
      · split
        · rfl
        · dsimp only
          split <;> rfl
    exact inv_backlog safe written (inv (same ▸ room)) replaying
  | change =>
    obtain ⟨waits, same⟩ := Option.ite_none_right_eq_some.mp stepped
    cases same
    have inv := inv room
    exact ⟨inv.whole, inv.shown, fun _ => inv.after (by rw [waits.1]; exact nofun), inv.completed, nofun⟩
  | leave =>
    obtain ⟨-, same⟩ := Option.ite_none_left_eq_some.mp stepped
    cases same
    have inv := inv room
    exact ⟨inv.whole, inv.shown, fun here => absurd rfl here, inv.completed, nofun⟩

end Runs

end PieRelay.EventStreams
