import PieRelay.PtySnapshots
import PieRelay.TerminalViewer

/-!
A terminal from the shell to the screen, pty-host.mjs and TerminalScreen.tsx together. Every incarnation has a host of
its own. On the way frames may be lost, repeated and reordered, and those of several incarnations mixed.
-/
namespace PieRelay.TerminalScreens
open Executions List Option
open JsonScanner (Bytes)
open PtySnapshots (Emulator Exact Out outputs sent)
open TerminalViewer
variable {E : Emulator}

/-- The bytes of the output frames behind one number, up to another. -/
def between (host : PtySnapshots.World E) (m n : Nat) : Bytes :=
  ((outputs host).filter fun frame => m < frame.1 ∧ frame.1 ≤ n).flatMap Prod.snd

/-- The frame is one that the host of its incarnation has sent. -/
def Carried (hosts : String → PtySnapshots.World E) : Action → Prop
  | .output frame data _ => ∃ i n, sequence 1 frame = some (i, Int.ofNat n) ∧ (n, data) ∈ outputs (hosts i)
  | .snapshot frame data _ => ∃ i s, sequence 0 frame = some (i, Int.ofNat s.seq) ∧
      Out.snapshot s ∈ (hosts i).emitted ∧ s.data = data
  | .exit _ _ => False
  | _ => True

/-- What a screen begins with: nothing, or the host's terminal when it has consumed the frames up to a number. -/
def Begins (host : PtySnapshots.World E) (m : Nat) (head : Bytes) : Prop :=
  m = 0 ∧ head = [] ∨ ∃ s, Out.snapshot s ∈ host.emitted ∧ s.seq = m ∧ s.data = head ∧ Exact host s

structure Shows (host : PtySnapshots.World E) (w : World) (m n : Nat) (head : Bytes) : Prop where
  begins : Begins host m head
  onward : sent host n = sent host m ++ between host m n
  produced : sent host n <+: host.consumed ++ host.pending.flatten
  everything : host.batcher.bytes = 0 → n = host.outputSeq → sent host n = host.consumed ++ host.pending.flatten
  painted : w.terminal <+: head ++ between host m n
  current : w.lost = .nothing → w.scheduler.queue = [] → w.terminal = head ++ between host m n
  latest : w.lost = .nothing → w.tracker.awaitingSnapshot = false → w.tracker.lastSeq = n

section Frames
variable {frames : List (Nat × Bytes)} {m n : Nat} {data : Bytes}

theorem filter_first (sorted : frames.Pairwise fun a b => a.1 < b.1) (there : (m + 1, data) ∈ frames)
    (below : m + 1 ≤ n) :
    frames.filter (fun frame => m < frame.1 ∧ frame.1 ≤ n) =
      (m + 1, data) :: frames.filter fun frame => m + 1 < frame.1 ∧ frame.1 ≤ n := by
  induction frames with
  | nil => cases there
  | cons frame rest ih =>
    obtain ⟨later, sorted⟩ := pairwise_cons.mp sorted
    rcases mem_cons.mp there with rfl | there
    · rw [filter_cons_of_pos (by simpa using below), filter_cons_of_neg (by simp)]
      refine congrArg _ (filter_congr fun other member => ?_)
      have behind : m + 1 < other.1 := later other member
      exact decide_eq_decide.mpr ⟨fun both => ⟨behind, both.2⟩, fun both => ⟨by omega, both.2⟩⟩
    · have before : frame.1 < m + 1 := later _ there
      rw [filter_cons_of_neg (by simp; omega), filter_cons_of_neg (by simp; omega)]
      exact ih sorted there

theorem filter_parts (sorted : frames.Pairwise fun a b => a.1 < b.1) (ordered : m ≤ n) :
    frames.filter (fun frame => frame.1 ≤ n) =
      frames.filter (fun frame => frame.1 ≤ m) ++ frames.filter fun frame => m < frame.1 ∧ frame.1 ≤ n := by
  rw [← PtySnapshots.split_frames (sorted.filter _) m, List.filter_filter, List.filter_filter]
  refine congrArg₂ _ (filter_congr fun frame _ => ?_) (filter_congr fun frame _ => ?_)
  · rw [← Bool.decide_and]
    exact decide_eq_decide.mpr ⟨And.left, fun early => ⟨early, early.trans ordered⟩⟩
  · rw [← Bool.decide_and]

end Frames

section Hosts
variable {host : PtySnapshots.World E} {m : Nat}

theorem outputs_sorted (sound : PtySnapshots.Sound host) : (outputs host).Pairwise fun a b => a.1 < b.1 :=
  pairwise_map.mp (sound.kept.numbers ▸ pairwise_lt_range')

/-- Outputs that follow each other are all that is between the numbers. -/
theorem consecutive_between (sound : PtySnapshots.Sound host) {received : List (Int × Bytes)}
    (follow : Consecutive (Int.ofNat m) received)
    (known : ∀ output ∈ received, ∃ n, output.1 = Int.ofNat n ∧ (n, output.2) ∈ outputs host) :
    received.flatMap Prod.snd = between host m (m + received.length) := by
  induction received generalizing m with
  | nil =>
    rw [between, filter_eq_nil_iff.mpr]
    · rfl
    · intro frame _
      simp only [length_nil, decide_eq_true_eq]
      omega
  | cons output rest ih =>
    obtain ⟨number, follow⟩ := follow
    obtain ⟨n, same, there⟩ := known output mem_cons_self
    have next : n = m + 1 := by
      rw [same] at number
      exact Int.ofNat.inj number
    subst next
    rw [same] at follow
    have onward := ih follow fun other member => known other (mem_cons_of_mem _ member)
    rw [between, filter_first (outputs_sorted sound) there (by rw [length_cons]; omega), flatMap_cons, flatMap_cons,
      onward, between, length_cons, show m + 1 + rest.length = m + (rest.length + 1) from by omega]

/-- What has been sent is what the shell has written, but for what waits in the batcher. -/
theorem sent_produced (sound : PtySnapshots.Sound host) (n : Nat) :
    sent host n <+: host.consumed ++ host.pending.flatten ∧
    (host.batcher.bytes = 0 → n = host.outputSeq → sent host n = host.consumed ++ host.pending.flatten) := by
  have kept := sound.kept
  constructor
  · rw [kept.produced, ← PtySnapshots.sent_after kept n, append_nil, append_assoc]
    exact prefix_append _ _
  · rintro empty rfl
    rw [kept.produced, eq_nil_of_length_eq_zero (kept.bytes.symm.trans empty), append_nil, append_nil]

/-- A host whose snapshots are exact. -/
structure Honest (host : PtySnapshots.World E) : Prop where
  sound : PtySnapshots.Sound host
  exact_ : ∀ s, Out.snapshot s ∈ host.emitted → Exact host s

theorem run_honest {driver : String} {actions : List PtySnapshots.Action}
    (ran : run PtySnapshots.step (PtySnapshots.start E driver) actions = some host)
    (careful : Guarded PtySnapshots.step PtySnapshots.Careful (PtySnapshots.start E driver) actions) : Honest host := by
  have quiet : PtySnapshots.Quiet (PtySnapshots.start E driver) := by
    refine ⟨nofun, fun s member => ?_⟩
    simp [PtySnapshots.start, PtySnapshots.emit, PtySnapshots.blank, PtySnapshots.announcement] at member
  obtain ⟨sound, quiet⟩ := guarded_run_invariant (fun w => PtySnapshots.Sound w ∧ PtySnapshots.Quiet w)
    (fun w action next careful inv stepped => ⟨PtySnapshots.step_sound w action next inv.1 stepped,
      PtySnapshots.step_quiet w action next careful inv.1 inv.2 stepped⟩)
    careful ran ⟨PtySnapshots.start_sound driver, quiet⟩
  exact ⟨sound, fun s there => (PtySnapshots.exact_iff sound there).mpr (quiet.snapshots s there)⟩

end Hosts

section Screens
variable {hosts : String → PtySnapshots.World E} {o : SchedulerOptions} {w next : World}

/-- What the screen has received, a host has sent. -/
structure Known (hosts : String → PtySnapshots.World E) (w : World) : Prop where
  accepted : ∀ s ∈ w.accepted, ∃ sent, Out.snapshot sent ∈ (hosts s.incarnationId).emitted ∧
    Int.ofNat sent.seq = s.seq ∧ sent.data = s.data
  received : ∀ r ∈ w.received, ∃ n, r.2.1 = Int.ofNat n ∧ (n, r.2.2) ∈ outputs (hosts r.1)

theorem same_known (known : Known hosts w) (accepted : next.accepted = w.accepted)
    (received : next.received = w.received) :
    Known hosts next := ⟨accepted ▸ known.accepted, received ▸ known.received⟩

theorem pump_known (known : Known hosts w) : Known hosts (pump o w) := by
  unfold pump
  split
  · exact known
  · split
    · exact known
    · exact same_known known rfl rfl

theorem enqueue_known {data : Bytes} {hidden : Bool} (known : Known hosts w) :
    Known hosts (enqueue o w data hidden) := by
  unfold enqueue
  split
  · exact known
  · split
    · exact same_known known rfl rfl
    · exact pump_known (same_known known rfl rfl)

theorem step_known (w : World) (action : Action) (next : World)
    (carried : Carried hosts action) (known : Known hosts w) (stepped : step o w action = some next) :
    Known hosts next := by
  cases action with
  | output frame data hidden =>
    obtain ⟨-, ⟨⟩⟩ := ite_none_left_eq_some.mp stepped
    obtain ⟨i, n, numbered, there⟩ := carried
    have received : Known hosts { w with
        tracker := (acceptOutput w.tracker frame).1, received := w.received ++ [(i, Int.ofNat n, data)] } := by
      refine ⟨known.accepted, fun r member => ?_⟩
      rcases mem_append.mp member with old | new
      · exact known.received r old
      · rw [mem_singleton.mp new]
        exact ⟨n, rfl, there⟩
    unfold ptyOutput
    rw [numbered]
    dsimp only [map_some, toList_some]
    split
    · exact same_known received rfl rfl
    · exact received
    · exact enqueue_known received
  | snapshot frame data hidden =>
    obtain ⟨-, ⟨⟩⟩ := ite_none_left_eq_some.mp stepped
    obtain ⟨i, s, numbered, there, same⟩ := carried
    refine enqueue_known ⟨?_, known.received⟩
    rintro _ ⟨⟩
    rw [accept_snapshot numbered]
    exact ⟨s, there, rfl, same⟩
  | exit => exact absurd carried id
  | written =>
    obtain ⟨-, stepped⟩ := ite_none_right_eq_some.mp stepped
    dsimp only at stepped
    split at stepped <;> cases stepped <;> exact same_known known rfl rfl
  | pump =>
    obtain ⟨-, ⟨⟩⟩ := ite_none_right_eq_some.mp stepped
    exact pump_known (same_known known rfl rfl)
  | stall =>
    simp only [step] at stepped
    split at stepped
    · split at stepped <;> cases stepped <;> exact same_known known rfl rfl
    · cases stepped
  | opened | unmount =>
    obtain ⟨-, ⟨⟩⟩ := ite_none_left_eq_some.mp stepped
    exact same_known known rfl rfl
  | mount =>
    obtain ⟨-, ⟨⟩⟩ := ite_none_right_eq_some.mp stepped
    exact ⟨fun _ there => (by cases there), known.received⟩

theorem carried_sequenced {action : Action} (carried : Carried hosts action) :
    Sequenced action := by
  cases action with
  | output | snapshot =>
    obtain ⟨i, n, numbered, -⟩ := carried
    exact isSome_of_eq_some numbered
  | exit => exact carried
  | _ => trivial

theorem follows_shows {i : String} {received : List (Int × Bytes)} (honest : Honest (hosts i)) (known : Known hosts w)
    (follows : Follows w i received) : ∃ m n head, Shows (hosts i) w m n head := by
  obtain ⟨m, begins, number⟩ : ∃ m, Begins (hosts i) m (content w) ∧ base w = Int.ofNat m := by
    cases accepted : w.accepted with
    | none => exact ⟨0, .inl ⟨rfl, by rw [content, accepted]; rfl⟩, by rw [base, accepted]; rfl⟩
    | some s =>
      obtain ⟨sent, there, number, data⟩ := known.accepted s accepted
      rw [follows.accepted s accepted] at there
      refine ⟨sent.seq, .inr ⟨sent, there, rfl, ?_, honest.exact_ sent there⟩, ?_⟩
      · rw [content, accepted]
        exact data
      · rw [base, accepted]
        exact number.symm
  have consecutive := follows.consecutive
  rw [number] at consecutive
  have all := consecutive_between honest.sound consecutive fun output member =>
    known.received _ (follows.received output member)
  obtain ⟨produced, everything⟩ := sent_produced honest.sound (m + received.length)
  refine ⟨m, m + received.length, content w, begins, ?_, produced, everything, ?_, fun whole empty => ?_,
    fun whole takes => ?_⟩
  · rw [sent, filter_parts (outputs_sorted honest.sound) (Nat.le_add_right m _), flatMap_append]
    rfl
  · exact all ▸ follows_prefix follows
  · have queued := follows.queued whole
    rwa [empty, flatten_nil, append_nil, all] at queued
  · rw [(follows.next takes whole).2, number]
    rfl

/-- What a screen shows begins with nothing or with the terminal of a host that has consumed the frames up to some number,
    and goes on with the frames behind it, without a gap. When nothing has been lost and nothing waits to be painted, it
    shows all of them, up to the last one that has been applied. -/
theorem screens_agree {actions : List Action}
    (honest : ∀ i, ∃ driver actions, run PtySnapshots.step (PtySnapshots.start E driver) actions = some (hosts i) ∧
      Guarded PtySnapshots.step PtySnapshots.Careful (PtySnapshots.start E driver) actions)
    (ran : run (step o) start actions = some w)
    (carried : ∀ action ∈ actions, Carried hosts action)
    (careful : Guarded (step o) (Careful o) start actions) :
    ∃ i m n head, Shows (hosts i) w m n head := by
  have begins : (∃ i received, Follows start i received) ∧ Known hosts start :=
    ⟨⟨"", [], mounted_follows nofun⟩, nofun, nofun⟩
  obtain ⟨⟨i, received, follows⟩, known⟩ := guarded_run_invariant
    (fun w => (∃ i received, Follows w i received) ∧ Known hosts w)
    (fun w action next fine inv stepped => ⟨step_follows w action next
      ⟨fine.1, carried_sequenced fine.2⟩ inv.1 stepped, step_known w action next fine.2 inv.2 stepped⟩)
    (guarded_all (Carried hosts) careful carried) ran begins
  obtain ⟨driver, actions, hosted, guarded⟩ := honest i
  exact ⟨i, follows_shows (run_honest hosted guarded) known follows⟩

/-- A frame that was sent behind a snapshot is painted behind it. -/
theorem screen_agrees : ∃ (host : PtySnapshots.World PtySnapshots.paper) (w : World),
    run PtySnapshots.step (PtySnapshots.start PtySnapshots.paper "driver")
      [.data [97], .input [PtySnapshots.screenRequest] true, .consume, .data [98], .timer] = some host ∧
    run (step defaults) start
      [.snapshot (numbered 1) [97] false, .output (numbered 2) [98] false] = some w ∧
    ∃ m n head, Shows host w m n head := by
  obtain ⟨host, ran, shown⟩ := map_eq_some_iff.mp
    (show (run PtySnapshots.step (PtySnapshots.start PtySnapshots.paper "driver")
        [.data [97], .input [PtySnapshots.screenRequest] true, .consume, .data [98], .timer]).map
      (fun w => ((PtySnapshots.snapshots w).map fun s => (s.seq, s.data), outputs w)) =
        some ([(1, [97])], [(1, [97]), (2, [98])]) from by decide +kernel)
  obtain ⟨snapshots, frames⟩ := Prod.mk.injEq .. ▸ shown
  obtain ⟨s, there, same⟩ := mem_map.mp (snapshots ▸ mem_singleton_self ((1, [97]) : Nat × Bytes))
  obtain ⟨number, data⟩ := Prod.mk.injEq .. ▸ same
  obtain ⟨w, viewed⟩ : ∃ w, run (step defaults) start
    [.snapshot (numbered 1) [97] false, .output (numbered 2) [98] false] = some w := ⟨_, rfl⟩
  refine ⟨host, w, ran, viewed,
    (@screens_agree _ (fun _ => host) _ w _ (fun _ => ⟨_, _, ran, ?_⟩) viewed ?_ ?_).choose_spec⟩
  · refine ⟨fun waits => absurd rfl waits, fun next stepped => ?_⟩
    cases stepped
    refine ⟨fun waits => absurd rfl waits, fun next stepped => ?_⟩
    cases stepped
    refine ⟨trivial, fun next stepped => ?_⟩
    cases stepped
    refine ⟨fun waits => absurd rfl waits, fun next stepped => ?_⟩
    cases stepped
    exact ⟨fun waits => absurd rfl waits, fun _ _ => trivial⟩
  · intro action member
    simp only [mem_cons, not_mem_nil, or_false] at member
    rcases member with rfl | rfl
    · exact ⟨"incarnation", s, by rw [number]; rfl, PtySnapshots.snapshot_there there, data⟩
    · exact ⟨"incarnation", 2, rfl, by rw [frames]; simp⟩
  · refine ⟨trivial, fun next stepped => ?_⟩
    cases stepped
    exact ⟨.inl (by decide), fun _ _ => trivial⟩

end Screens

section Painting
variable {o : SchedulerOptions} {w next : World}

/-- xterm calls back, or a timeout comes. -/
def Paints : Action → Prop
  | .written _ | .pump => True
  | _ => False

/-- What waits in the queue waits for a callback or for a timeout. -/
structure Pending (w : World) : Prop where
  waits : w.scheduler.queue ≠ [] → w.scheduler.writing ∨ 0 < w.pumps
  written : w.scheduler.writing → w.scheduler.generation ∈ w.callbacks
  disposed : w.scheduler.disposed → w.scheduler.queue = [] ∧ w.scheduler.writing = false

theorem empty_pending (queue : w.scheduler.queue = []) (writing : w.scheduler.writing = false) : Pending w :=
  ⟨fun some_ => absurd queue some_, fun waits => by simp [writing] at waits, fun _ => ⟨queue, writing⟩⟩

theorem pump_pending (written : w.scheduler.writing → w.scheduler.generation ∈ w.callbacks)
    (disposed : w.scheduler.disposed → w.scheduler.queue = [] ∧ w.scheduler.writing = false) :
    Pending (pump o w) := by
  unfold pump
  split
  · next empty => exact ⟨fun some_ => absurd empty some_, written, disposed⟩
  · next head rest queue =>
    split
    · next busy =>
      refine ⟨fun _ => .inl ?_, written, disposed⟩
      refine busy.resolve_left fun gone => ?_
      have empty := (disposed gone).1
      rw [queue] at empty
      cases empty
    · next idle =>
      exact ⟨fun _ => .inl rfl, fun _ => mem_append_right _ (mem_singleton_self _), fun gone => absurd (.inl gone) idle⟩

theorem enqueue_pending {data : Bytes} {hidden : Bool} (pending : Pending w) :
    Pending (enqueue o w data hidden) := by
  unfold enqueue
  split
  · exact pending
  · next open_ =>
    split
    · exact empty_pending rfl rfl
    · exact pump_pending pending.written fun gone => absurd (.inl gone) open_

theorem step_pending (w : World) (action : Action) (next : World)
    (pending : Pending w) (stepped : step o w action = some next) : Pending next := by
  have same : Pending { w with requests := w.requests ++ [resumeCursor w.tracker] } :=
    ⟨pending.waits, pending.written, pending.disposed⟩
  cases action with
  | output frame data hidden =>
    obtain ⟨-, ⟨⟩⟩ := ite_none_left_eq_some.mp stepped
    unfold ptyOutput
    dsimp only
    split
    · exact ⟨pending.waits, pending.written, pending.disposed⟩
    · exact ⟨pending.waits, pending.written, pending.disposed⟩
    · exact enqueue_pending ⟨pending.waits, pending.written, pending.disposed⟩
  | snapshot =>
    obtain ⟨-, ⟨⟩⟩ := ite_none_left_eq_some.mp stepped
    exact enqueue_pending (empty_pending rfl rfl)
  | exit =>
    obtain ⟨-, ⟨⟩⟩ := ite_none_left_eq_some.mp stepped
    exact enqueue_pending pending
  | opened =>
    obtain ⟨-, ⟨⟩⟩ := ite_none_left_eq_some.mp stepped
    exact same
  | written generation =>
    obtain ⟨-, stepped⟩ := ite_none_right_eq_some.mp stepped
    dsimp only at stepped
    split at stepped
    · next stale =>
      cases stepped
      refine ⟨pending.waits, fun writing => ?_, pending.disposed⟩
      refine (mem_erase_of_ne (stale.resolve_right fun gone => ?_).symm).mpr (pending.written writing)
      exact Bool.false_ne_true ((pending.disposed gone).2.symm.trans writing)
    · next fresh =>
      cases stepped
      exact ⟨fun _ => .inr (Nat.succ_pos _), nofun, fun gone => absurd (.inr gone) fresh⟩
  | pump =>
    obtain ⟨-, ⟨⟩⟩ := ite_none_right_eq_some.mp stepped
    exact pump_pending pending.written pending.disposed
  | stall =>
    simp only [step] at stepped
    split at stepped
    · split at stepped <;> cases stepped
      · exact ⟨pending.waits, pending.written, pending.disposed⟩
      · exact empty_pending rfl rfl
    · cases stepped
  | unmount =>
    obtain ⟨-, ⟨⟩⟩ := ite_none_left_eq_some.mp stepped
    exact empty_pending rfl rfl
  | mount =>
    obtain ⟨-, ⟨⟩⟩ := ite_none_right_eq_some.mp stepped
    exact empty_pending rfl rfl

/-- How much there is to paint. -/
def work (w : World) : Nat :=
  2 * (w.scheduler.queue.flatten.length + w.scheduler.queue.length) + w.scheduler.writing.toNat

theorem pump_work (large : 0 < o.chunkBytes) (queue : w.scheduler.queue ≠ [])
    (idle : ¬ (w.scheduler.disposed ∨ w.scheduler.writing)) : work (pump o w) < work w := by
  unfold pump
  split
  · next empty => exact absurd empty queue
  · next head rest queue =>
    rw [if_neg idle]
    simp only [work, queue, length_take]
    split
    · simp only [flatten_cons, length_append, length_cons, Bool.toNat_true]
      omega
    · simp only [flatten_cons, length_append, length_cons, length_drop, Bool.toNat_true]
      omega

theorem pending_progress (large : 0 < o.chunkBytes) (pending : Pending w) (left : work w ≠ 0) :
    ∃ action next, Paints action ∧ step o w action = some next ∧ work next < work w := by
  by_cases writing : w.scheduler.writing
  · have open_ : ¬ w.scheduler.disposed := fun gone => Bool.false_ne_true ((pending.disposed gone).2.symm.trans writing)
    have stepped : step o w (.written w.scheduler.generation) = some { w with
        callbacks := w.callbacks.erase w.scheduler.generation, pumps := w.pumps + 1
        scheduler := { w.scheduler with stallTimer := none, writing := false } } := by
      rw [step, if_pos (pending.written writing)]
      exact if_neg (by simpa using open_)
    exact ⟨.written _, _, trivial, stepped, by simp [work, writing]⟩
  · have queue : w.scheduler.queue ≠ [] := fun empty => left (by simp [work, empty, writing])
    have open_ : ¬ w.scheduler.disposed := fun gone => queue (pending.disposed gone).1
    refine ⟨.pump, _, trivial, if_pos ((pending.waits queue).resolve_left writing), ?_⟩
    exact pump_work large queue fun busy => busy.elim open_ writing

theorem step_bytes (w : World) (action : Action) (next : World) (paints : Paints action)
    (stepped : step o w action = some next) :
    next.terminal ++ next.scheduler.queue.flatten = w.terminal ++ w.scheduler.queue.flatten := by
  cases action with
  | written =>
    obtain ⟨-, stepped⟩ := ite_none_right_eq_some.mp stepped
    dsimp only at stepped
    split at stepped <;> cases stepped <;> rfl
  | pump =>
    obtain ⟨-, ⟨⟩⟩ := ite_none_right_eq_some.mp stepped
    exact pump_bytes o _
  | _ => exact absurd paints id

/-- Whatever waits to be painted is painted by callbacks and timeouts alone. -/
theorem queue_painted {actions : List Action} (large : 0 < o.chunkBytes) (ran : run (step o) start actions = some w) :
    ∃ later done, run (step o) w later = some done ∧ (∀ action ∈ later, Paints action) ∧
      done.scheduler.queue = [] ∧ done.terminal = w.terminal ++ w.scheduler.queue.flatten := by
  have pending := run_invariant Pending step_pending ran (empty_pending rfl rfl)
  obtain ⟨later, done, went, finished, paints⟩ := run_done Pending work Paints step_pending
    (fun w pending left => pending_progress large pending left) w pending
  have bytes := guarded_run_invariant
    (fun next => next.terminal ++ next.scheduler.queue.flatten = w.terminal ++ w.scheduler.queue.flatten)
    (fun middle action next paints same stepped => (step_bytes middle action next paints stepped).trans same)
    (each_guarded w later fun _ action member => paints action member) went rfl
  have empty : done.scheduler.queue = [] := by
    rw [work] at finished
    exact eq_nil_of_length_eq_zero (by omega)
  rw [empty, flatten_nil, append_nil] at bytes
  exact ⟨later, done, went, paints, empty, bytes⟩

/-- The terminal takes two bytes at a time, and the stream has gone on meanwhile. -/
theorem chunks_painted : ∃ w later done, run (step ⟨8, 8, 2⟩) start
      [.output (numbered 1) [97, 98, 99] false, .output (numbered 2) [100] false] = some w ∧
    run (step ⟨8, 8, 2⟩) w later = some done ∧ (∀ action ∈ later, Paints action) ∧
    done.scheduler.queue = [] ∧ done.terminal = w.terminal ++ w.scheduler.queue.flatten := by
  obtain ⟨w, ran⟩ : ∃ w, run (step ⟨8, 8, 2⟩) start
    [.output (numbered 1) [97, 98, 99] false, .output (numbered 2) [100] false] = some w := ⟨_, rfl⟩
  obtain ⟨later, done, painted⟩ := queue_painted (by decide) ran
  exact ⟨w, later, done, ran, painted⟩

end Painting
end PieRelay.TerminalScreens
