import PieRelay.RequestReplay

/-!
What the replay buffer of the client daemon keeps over any sequence of calls, client/internal/chatagent/replay.go: the order
and the sizes of the finished requests, and the frames of the request that began last.
-/
namespace PieRelay.ReplayBuffer
open Executions RequestReplay List Option
open ControlPlane (Table)
open JsonScanner (Bytes)

inductive Status where
  | running
  | finished
  | reset
  deriving DecidableEq

structure Latest where
  requestID : String
  observed : List Bytes
  status : Status
  deriving DecidableEq

structure World where
  replay : Replay
  latest : Option Latest
  deriving DecidableEq

inductive Call where
  | begin_ (raw : Bytes)
  | observe (raw : Bytes) (terminal : Bool)
  | resetActive

def begins (r : Replay) (raw : Bytes) : Bool := chatRequestID raw ≠ "" && (begin_ r raw).2 = none

def Latest.see (l : Latest) (raw : Bytes) (terminal : Bool) : Latest :=
  if l.status = .running then { l with observed := l.observed ++ [raw], status := if terminal then .finished else .running } else l

def Latest.drop (l : Latest) : Latest := if l.status = .running then { l with status := .reset } else l

def step (w : World) : Call → Option World
  | .begin_ raw => some ⟨(begin_ w.replay raw).1,
      if begins w.replay raw then some ⟨chatRequestID raw, [], .running⟩ else w.latest⟩
  | .observe raw terminal => some ⟨observe w.replay raw terminal, w.latest.map (·.see raw terminal)⟩
  | .resetActive => some ⟨resetActive w.replay, w.latest.map Latest.drop⟩

def start : World := ⟨newRequestReplay, none⟩

def stored (completed : Table (List Bytes)) : Nat := completed.entries.foldr (fun entry sum => framesSize entry.2 + sum) 0

structure Bounded (r : Replay) : Prop where
  distinct : r.completedOrder.Nodup
  listed : ∀ requestID, requestID ∈ r.completedOrder ↔ requestID ∈ r.completed
  few : r.completedOrder.length ≤ maxReplayRequests
  bytes : r.completedBytes = stored r.completed
  small : r.completedBytes ≤ maxReplayTotal

def Answer (l : Latest) (frames : List Bytes) : Prop :=
  if framesSize l.observed ≤ maxReplayBytes then frames = l.observed
  else if l.status = .finished then ∃ last, l.observed.getLast? = some last ∧ frames = [last]
  else frames <+: l.observed

/-- A retry of the latest request is a duplicate, unless the request has been reset: then it begins again. -/
def Retried (w : World) : Prop := ∀ l, w.latest = some l → ∀ raw, chatRequestID raw = l.requestID →
  if l.status = .reset then begins w.replay raw ∧ (begin_ w.replay raw).1.activeID = l.requestID
  else ∃ frames, begin_ w.replay raw = (w.replay, some frames) ∧ Answer l frames

def Alone (w : World) : Call → Prop
  | .begin_ raw => begins w.replay raw → ∀ l, w.latest = some l → l.status ≠ .running
  | .observe raw terminal => terminal → raw.length ≤ maxReplayTotal
  | .resetActive => True

section Sizes
variable {order : List String} {completed : Table (List Bytes)} {requestID : String}

theorem size_append (frames : List Bytes) (raw : Bytes) : framesSize (frames ++ [raw]) = framesSize frames + raw.length := by
  simp [framesSize, foldl_append]

def sizeOf (completed : Table (List Bytes)) (requestID : String) : Nat := framesSize ((completed.lookup requestID).getD [])

def total (order : List String) (completed : Table (List Bytes)) : Nat :=
  order.foldr (fun requestID sum => sizeOf completed requestID + sum) 0

theorem total_cons : total (requestID :: order) completed = sizeOf completed requestID + total order completed := rfl

theorem total_append (others : List String) :
    total (order ++ others) completed = total order completed + total others completed := by
  induction order with
  | nil => exact (Nat.zero_add _).symm
  | cons first rest ih => rw [cons_append, total_cons, total_cons, ih, Nat.add_assoc]

theorem total_perm {others : List String} (same : order.Perm others) : total order completed = total others completed := by
  induction same with
  | nil => rfl
  | cons requestID _ ih => rw [total_cons, total_cons, ih]
  | swap => simp only [total_cons, Nat.add_left_comm]
  | trans _ _ ih ih' => exact ih.trans ih'

theorem total_congr {other : Table (List Bytes)}
    (same : ∀ requestID ∈ order, completed.lookup requestID = other.lookup requestID) :
    total order completed = total order other := by
  induction order with
  | nil => rfl
  | cons first rest ih =>
    rw [total_cons, total_cons, sizeOf, sizeOf, same first mem_cons_self,
      ih fun requestID member => same requestID (mem_cons_of_mem _ member)]

theorem total_keys (entries : List (Sigma fun _ : String => List Bytes))
    (found : ∀ entry ∈ entries, completed.lookup entry.1 = some entry.2) :
    total (entries.map Sigma.fst) completed = entries.foldr (fun entry sum => framesSize entry.2 + sum) 0 := by
  induction entries with
  | nil => rfl
  | cons entry rest ih =>
    rw [map_cons, total_cons, ih fun entry member => found entry (mem_cons_of_mem _ member), sizeOf,
      found entry mem_cons_self]
    rfl

theorem total_stored (distinct : order.Nodup) (listed : ∀ requestID, requestID ∈ order ↔ requestID ∈ completed) :
    total order completed = stored completed := by
  have same : order.Perm completed.keys := by
    rw [perm_ext_iff_of_nodup distinct completed.keys_nodup]
    exact fun requestID => (listed requestID).trans AList.mem_keys
  exact (total_perm same).trans (total_keys completed.entries fun entry member => AList.mem_lookup_iff.mpr member)

theorem total_erase (fresh : requestID ∉ order) : total order (completed.erase requestID) = total order completed :=
  total_congr fun _ member => AList.lookup_erase_ne fun same => fresh (same ▸ member)

theorem total_insert (fresh : requestID ∉ order) (frames : List Bytes) :
    total (order ++ [requestID]) (completed.insert requestID frames) = total order completed + framesSize frames := by
  have before : total order (completed.insert requestID frames) = total order completed :=
    total_congr fun _ member => AList.lookup_insert_ne fun same => fresh (same ▸ member)
  rw [total_append, before, total_cons, sizeOf, AList.lookup_insert]
  rfl

end Sizes

section Eviction
variable {r : Replay} {order : List String}

structure Counted (order : List String) (r : Replay) : Prop where
  distinct : order.Nodup
  listed : ∀ requestID, requestID ∈ order ↔ requestID ∈ r.completed
  bytes : r.completedBytes = total order r.completed

theorem counted_evicted {oldest : String} {rest : List String} (counted : Counted (oldest :: rest) r) :
    Counted rest { r with completedBytes := r.completedBytes - sizeOf r.completed oldest, completed := r.completed.erase oldest } := by
  obtain ⟨fresh, distinct⟩ := nodup_cons.mp counted.distinct
  refine ⟨distinct, fun requestID => ?_, ?_⟩
  · rw [AList.mem_erase, ← counted.listed, mem_cons]
    constructor
    · exact fun member => ⟨fun same => fresh (same ▸ member), Or.inr member⟩
    · rintro ⟨differs, same | member⟩
      · exact absurd same differs
      · exact member
  · have bytes := counted.bytes
    rw [total_cons] at bytes
    rw [total_erase fresh]
    show r.completedBytes - sizeOf r.completed oldest = total rest r.completed
    omega

structure Evicted (order : List String) (r after : Replay) : Prop where
  bounded : Bounded after
  ends : after.completedOrder <:+ order
  kept : ∀ requestID ∈ after.completedOrder, after.completed.lookup requestID = r.completed.lookup requestID
  last : ∀ last, order.getLast? = some last → sizeOf r.completed last ≤ maxReplayTotal → last ∈ after.completedOrder

theorem evict_evicted (counted : Counted order r) : Evicted order r (evict order r) := by
  induction order generalizing r with
  | nil =>
    have empty : r.completedBytes = 0 := counted.bytes
    refine ⟨⟨nodup_nil, counted.listed, Nat.zero_le _, ?_, ?_⟩, suffix_rfl, fun _ _ => rfl,
      fun last absurd => by cases absurd⟩
    · exact counted.bytes.trans (total_stored counted.distinct counted.listed)
    · exact empty.le.trans (Nat.zero_le _)
  | cons oldest rest ih =>
    obtain ⟨fresh, _⟩ := nodup_cons.mp counted.distinct
    rw [evict]
    split
    · next full =>
      have evicted := ih (counted_evicted counted)
      refine ⟨evicted.bounded, evicted.ends.trans (suffix_cons oldest rest), fun requestID member => ?_,
        fun last final fits => ?_⟩
      · have differs : requestID ≠ oldest := fun same => fresh (same ▸ evicted.ends.subset member)
        exact (evicted.kept requestID member).trans (AList.lookup_erase_ne differs)
      · cases rest with
        | nil =>
          -- A single request that fits is no reason to evict.
          cases final
          have bytes : r.completedBytes = sizeOf r.completed oldest := counted.bytes
          have one : ¬ maxReplayRequests < [oldest].length := by
            rw [length_singleton]
            decide
          have large := full.resolve_left one
          have fits : sizeOf r.completed oldest ≤ maxReplayTotal := fits
          omega
        | cons second others =>
          have final : (second :: others).getLast? = some last := by simpa using final
          have differs : last ≠ oldest := fun same => fresh (same ▸ mem_of_getLast? final)
          refine evicted.last last final ?_
          rw [sizeOf] at fits ⊢
          rwa [AList.lookup_erase_ne differs]
    · next room =>
      rw [not_or, Nat.not_lt, Nat.not_lt] at room
      refine ⟨⟨counted.distinct, counted.listed, room.1, ?_, room.2⟩, suffix_rfl, fun _ _ => rfl,
        fun last final _ => ?_⟩
      · exact counted.bytes.trans (total_stored counted.distinct counted.listed)
      · exact mem_of_getLast? final

end Eviction

section Calls
variable {r : Replay} {raw : Bytes}

def see (r : Replay) (raw : Bytes) : Replay :=
  if ¬ r.activeTruncated ∧ r.activeBytes + raw.length ≤ maxReplayBytes then
    { r with activeFrames := r.activeFrames ++ [raw], activeBytes := r.activeBytes + raw.length }
  else { r with activeTruncated := true }

def final (r : Replay) (raw : Bytes) : List Bytes := if (see r raw).activeTruncated then [raw] else (see r raw).activeFrames

theorem see_fields (r : Replay) (raw : Bytes) : (see r raw).activeID = r.activeID ∧ (see r raw).completed = r.completed ∧
    (see r raw).completedOrder = r.completedOrder ∧ (see r raw).completedBytes = r.completedBytes := by
  unfold see
  split <;> exact ⟨rfl, rfl, rfl, rfl⟩

def finish (r : Replay) (raw : Bytes) : Replay := { see r raw with
  completed := r.completed.insert r.activeID (final r raw)
  completedBytes := r.completedBytes + framesSize (final r raw) }

theorem observe_running (active : r.activeID ≠ "") : observe r raw false = see r raw := by
  rw [observe, if_neg active]
  rfl

theorem observe_terminal (active : r.activeID ≠ "") :
    observe r raw true = resetActive (evict (r.completedOrder ++ [r.activeID]) (finish r raw)) := by
  obtain ⟨id, completed, order, bytes⟩ := see_fields r raw
  rw [finish, ← id, ← completed, ← order, ← bytes, observe, if_neg active]
  rfl

end Calls

section Bounds
variable {r : Replay} {raw : Bytes}

structure Ready (r : Replay) : Prop where
  bounded : Bounded r
  nameless : "" ∉ r.completed
  fresh : r.activeID ∉ r.completed

theorem newRequestReplay_ready : Ready newRequestReplay := by
  have none : ∀ requestID, requestID ∉ newRequestReplay.completed := fun requestID => AList.notMem_empty requestID
  refine ⟨⟨nodup_nil, fun requestID => ?_, Nat.zero_le _, rfl, Nat.zero_le _⟩, none "", none ""⟩
  exact ⟨fun member => absurd member not_mem_nil, fun member => absurd member (none requestID)⟩

theorem reset_ready (ready : Ready r) : Ready (resetActive r) :=
  ⟨⟨ready.bounded.distinct, ready.bounded.listed, ready.bounded.few, ready.bounded.bytes, ready.bounded.small⟩,
    ready.nameless, ready.nameless⟩

theorem see_ready (ready : Ready r) : Ready (see r raw) := by
  obtain ⟨id, completed, order, bytes⟩ := see_fields r raw
  obtain ⟨⟨distinct, listed, few, counted, small⟩, nameless, fresh⟩ := ready
  rw [← completed] at listed counted nameless fresh
  rw [← order] at distinct listed few
  rw [← bytes] at counted small
  rw [← id] at fresh
  exact ⟨⟨distinct, listed, few, counted, small⟩, nameless, fresh⟩

theorem finish_counted (raw : Bytes) (ready : Ready r) : Counted (r.completedOrder ++ [r.activeID]) (finish r raw) := by
  have bounded := ready.bounded
  have unlisted : r.activeID ∉ r.completedOrder := fun member => ready.fresh ((bounded.listed _).mp member)
  refine ⟨?_, fun requestID => ?_, ?_⟩
  · exact nodup_append.mpr ⟨bounded.distinct, nodup_singleton _,
      fun other member last same same' => unlisted (by rwa [← mem_singleton.mp same, ← same'])⟩
  · rw [mem_append, mem_singleton, bounded.listed, finish, AList.mem_insert, or_comm]
  · have total := total_stored bounded.distinct bounded.listed
    rw [finish, total_insert unlisted, total, bounded.bytes]

theorem observe_ready (ready : Ready r) (ended : Bool) : Ready (observe r raw ended) := by
  by_cases active : r.activeID = ""
  · rwa [observe, if_pos active]
  · cases ended with
    | false =>
      rw [observe_running active]
      exact see_ready ready
    | true =>
      rw [observe_terminal active]
      have evicted := evict_evicted (finish_counted raw ready)
      have nameless : "" ∉ (evict (r.completedOrder ++ [r.activeID]) (finish r raw)).completed := by
        intro member
        -- What is left has been finished before, or is the active request.
        have listed := evicted.ends.subset ((evicted.bounded.listed "").mpr member)
        rcases mem_append.mp listed with old | last
        · exact ready.nameless ((ready.bounded.listed "").mp old)
        · exact active (mem_singleton.mp last).symm
      exact ⟨⟨evicted.bounded.distinct, evicted.bounded.listed, evicted.bounded.few, evicted.bounded.bytes,
        evicted.bounded.small⟩, nameless, nameless⟩

theorem begin_steps (r : Replay) (raw : Bytes) : (begin_ r raw).1 = r ∧ (begins r raw → r.activeID ≠ "") ∨
    begins r raw ∧ chatRequestID raw ≠ "" ∧ r.activeID = "" ∧ chatRequestID raw ∉ r.completed ∧
      (begin_ r raw).1 = { r with activeID := chatRequestID raw, activeFrames := [], activeBytes := 0, activeTruncated := false } := by
  unfold begins begin_
  by_cases nameless : chatRequestID raw = ""
  · simp [nameless]
  · cases finished : r.completed.lookup (chatRequestID raw) with
    | some => simp [nameless, finished]
    | none =>
      by_cases mine : r.activeID = chatRequestID raw
      · simp [nameless, finished, mine]
      · by_cases idle : r.activeID = ""
        · have different : ¬ "" = chatRequestID raw := fun same => nameless same.symm
          simp [nameless, finished, idle, different, ← AList.lookup_eq_none]
        · simp [nameless, finished, mine, idle]

theorem begin_ready (ready : Ready r) : Ready (begin_ r raw).1 := by
  obtain ⟨same, _⟩ | ⟨_, _, _, fresh, begun⟩ := begin_steps r raw
  · rwa [same]
  · rw [begun]
    exact ⟨⟨ready.bounded.distinct, ready.bounded.listed, ready.bounded.few, ready.bounded.bytes, ready.bounded.small⟩,
      ready.nameless, fresh⟩

theorem step_ready (w : World) (call : Call) (next : World) (ready : Ready w.replay) (stepped : step w call = some next) :
    Ready next.replay := by
  cases call with
  | begin_ =>
    cases stepped
    exact begin_ready ready
  | observe raw ended =>
    cases stepped
    exact observe_ready ready ended
  | resetActive =>
    cases stepped
    exact reset_ready ready

end Bounds

section Latest
variable {r : Replay} {raw : Bytes} {observed : List Bytes} {l : Latest} {w : World}

structure Part (r : Replay) (observed : List Bytes) : Prop where
  part : r.activeFrames <+: observed
  bytes : r.activeBytes = framesSize r.activeFrames
  room : r.activeBytes ≤ maxReplayBytes
  whole : r.activeTruncated = false → r.activeFrames = observed
  more : r.activeTruncated → maxReplayBytes < framesSize observed

theorem see_part (raw : Bytes) (part : Part r observed) : Part (see r raw) (observed ++ [raw]) := by
  have longer := size_append observed raw
  unfold see
  split
  · next room =>
    obtain ⟨untruncated, room⟩ := room
    have whole := part.whole (by simpa using untruncated)
    refine ⟨?_, ?_, room, fun _ => ?_, fun truncated => absurd truncated untruncated⟩
    · show r.activeFrames ++ [raw] <+: observed ++ [raw]
      exact whole ▸ prefix_rfl
    · show r.activeBytes + raw.length = framesSize (r.activeFrames ++ [raw])
      rw [size_append, part.bytes]
    · show r.activeFrames ++ [raw] = observed ++ [raw]
      rw [whole]
  · next full =>
    refine ⟨part.part.trans (prefix_append observed [raw]), part.bytes, part.room, nofun, fun _ => ?_⟩
    rw [longer]
    cases truncated : r.activeTruncated with
    | true => exact Nat.lt_add_right _ (part.more truncated)
    | false =>
      have whole := part.whole truncated
      have bytes := part.bytes
      rw [whole] at bytes
      rw [truncated] at full
      simp only [Bool.false_eq_true, not_false_eq_true, true_and, Nat.not_le] at full
      omega

theorem part_answer (part : Part r l.observed) (running : l.status = .running) : Answer l r.activeFrames := by
  unfold Answer
  cases truncated : r.activeTruncated with
  | false =>
    have whole := part.whole truncated
    split
    · exact whole
    · rw [if_neg (by rw [running]; decide)]
      exact part.part
  | true =>
    rw [if_neg (Nat.not_le.mpr (part.more truncated)), if_neg (by rw [running]; decide)]
    exact part.part

theorem final_answer (part : Part r observed) (requestID : String) :
    Answer ⟨requestID, observed ++ [raw], .finished⟩ (final r raw) := by
  have seen := see_part raw part
  unfold Answer final
  dsimp only
  cases truncated : (see r raw).activeTruncated with
  | true =>
    rw [if_neg (Nat.not_le.mpr (seen.more truncated)), if_pos rfl, if_pos rfl]
    exact ⟨raw, getLast?_concat, rfl⟩
  | false =>
    have whole := seen.whole truncated
    have fits : framesSize (observed ++ [raw]) ≤ maxReplayBytes := by
      rw [← whole, ← seen.bytes]
      exact seen.room
    rw [if_pos fits, if_neg Bool.false_ne_true]
    exact whole

theorem final_fits (part : Part r observed) (small : raw.length ≤ maxReplayTotal) : framesSize (final r raw) ≤ maxReplayTotal := by
  have seen := see_part raw part
  unfold final
  split
  · have one : framesSize [raw] = raw.length := by simp [framesSize]
    rwa [one]
  · rw [← seen.bytes]
    exact seen.room.trans (by decide)

structure Followed (r : Replay) (l : Latest) : Prop where
  named : l.requestID ≠ ""
  running : l.status = .running → r.activeID = l.requestID ∧ Part r l.observed
  finished : l.status = .finished → r.activeID = "" ∧ ∃ frames, r.completed.lookup l.requestID = some frames ∧ Answer l frames
  reset : l.status = .reset → r.activeID = "" ∧ l.requestID ∉ r.completed

structure Kept (w : World) : Prop where
  ready : Ready w.replay
  idle : w.latest = none → w.replay.activeID = ""
  followed : ∀ l, w.latest = some l → Followed w.replay l

theorem kept_active (kept : Kept w) (active : w.replay.activeID ≠ "") :
    ∃ l, w.latest = some l ∧ l.status = .running ∧ w.replay.activeID = l.requestID ∧ Part w.replay l.observed := by
  cases latest : w.latest with
  | none => exact absurd (kept.idle latest) active
  | some l =>
    have followed := kept.followed l latest
    cases status : l.status with
    | running => exact ⟨l, rfl, status, followed.running status⟩
    | finished => exact absurd (followed.finished status).1 active
    | reset => exact absurd (followed.reset status).1 active

theorem kept_retried (kept : Kept w) : Retried w := by
  intro l latest raw same
  have followed := kept.followed l latest
  have named := followed.named
  rw [← same] at named
  split
  · next reset =>
    obtain ⟨idle, fresh⟩ := followed.reset reset
    rw [← same] at fresh
    have missing := AList.lookup_eq_none.mpr fresh
    have different : ¬ "" = chatRequestID raw := fun same => named same.symm
    rw [← same]
    simp [begins, begin_, named, missing, idle, different]
  · next present =>
    cases status : l.status with
    | running =>
      obtain ⟨mine, part⟩ := followed.running status
      have unfinished := AList.lookup_eq_none.mpr kept.ready.fresh
      rw [mine, ← same] at unfinished
      rw [← same] at mine
      refine ⟨w.replay.activeFrames, ?_, part_answer part status⟩
      simp only [begin_, if_neg named, unfinished, if_pos mine]
    | finished =>
      obtain ⟨_, frames, found, answer⟩ := followed.finished status
      rw [← same] at found
      refine ⟨frames, ?_, answer⟩
      simp only [begin_, if_neg named, found]
    | reset => exact absurd status present

theorem begin_kept (kept : Kept w) (alone : Alone w (.begin_ raw)) {next : World} (stepped : step w (.begin_ raw) = some next) :
    Kept next := by
  cases stepped
  obtain ⟨same, busy⟩ | ⟨begins, named, _, fresh, begun⟩ := begin_steps w.replay raw
  · have repeated : begins w.replay raw = false := by
      cases new : begins w.replay raw with
      | false => rfl
      | true =>
        obtain ⟨l, latest, running, _⟩ := kept_active kept (busy new)
        exact absurd running (alone new l latest)
    rw [same, repeated]
    exact kept
  · refine ⟨begin_ready kept.ready, ?_, ?_⟩
    · rw [begins]
      exact nofun
    · rw [begins, begun]
      rintro l ⟨⟩
      refine ⟨named, fun _ => ⟨rfl, prefix_rfl, rfl, Nat.zero_le _, fun _ => rfl, nofun⟩, ?_, ?_⟩
      · exact nofun
      · exact nofun

theorem see_followed (kept : Kept w) (active : w.replay.activeID ≠ "") {l : Latest} (latest : w.latest = some l) :
    Followed (see w.replay raw) (l.see raw false) := by
  obtain ⟨l', latest', running, mine, part⟩ := kept_active kept active
  cases latest.symm.trans latest'
  rw [Latest.see, if_pos running]
  refine ⟨(kept.followed l latest).named, fun _ => ⟨(see_fields w.replay raw).1.trans mine, see_part raw part⟩, ?_, ?_⟩
  · exact nofun
  · exact nofun

theorem finish_followed (kept : Kept w) (active : w.replay.activeID ≠ "") (small : raw.length ≤ maxReplayTotal) {l : Latest}
    (latest : w.latest = some l) : Followed (observe w.replay raw true) (l.see raw true) := by
  obtain ⟨l', latest', running, mine, part⟩ := kept_active kept active
  cases latest.symm.trans latest'
  rw [Latest.see, if_pos running, observe_terminal active]
  have evicted := evict_evicted (finish_counted raw kept.ready)
  have size : sizeOf (finish w.replay raw).completed w.replay.activeID = framesSize (final w.replay raw) := by
    rw [sizeOf, finish, AList.lookup_insert]
    rfl
  have stays := evicted.last w.replay.activeID getLast?_concat (by rw [size]; exact final_fits part small)
  refine ⟨(kept.followed l latest).named, nofun, fun _ => ⟨rfl, final w.replay raw, ?_, ?_⟩, nofun⟩
  · have found := evicted.kept w.replay.activeID stays
    rw [finish, AList.lookup_insert, mine] at found
    rw [finish, mine]
    exact found
  · exact final_answer part l.requestID

theorem step_kept (w : World) (call : Call) (next : World) (alone : Alone w call) (kept : Kept w)
    (stepped : step w call = some next) : Kept next := by
  have ready := step_ready w call next kept.ready stepped
  cases call with
  | begin_ => exact begin_kept kept alone stepped
  | observe raw ended =>
    cases stepped
    by_cases active : w.replay.activeID = ""
    · have still : ∀ l, w.latest = some l → l.see raw ended = l := by
        intro l latest
        have followed := kept.followed l latest
        rw [Latest.see, if_neg fun running => followed.named ((followed.running running).1.symm.trans active)]
      have same : w.latest.map (·.see raw ended) = w.latest := by
        cases latest : w.latest with
        | none => rfl
        | some l => rw [map_some, still l latest]
      rw [same, observe, if_pos active]
      exact kept
    · refine ⟨ready, fun none => ?_, ?_⟩
      · exact absurd (kept.idle (map_eq_none_iff.mp none)) active
      · rintro _ seen
        obtain ⟨l, latest, rfl⟩ := map_eq_some_iff.mp seen
        cases ended with
        | false =>
          show Followed (observe w.replay raw false) _
          rw [observe_running active]
          exact see_followed kept active latest
        | true => exact finish_followed kept active (alone rfl) latest
  | resetActive =>
    cases stepped
    refine ⟨ready, fun _ => rfl, ?_⟩
    rintro _ seen
    obtain ⟨l, latest, rfl⟩ := map_eq_some_iff.mp seen
    have followed := kept.followed l latest
    cases status : l.status with
    | running =>
      obtain ⟨mine, _⟩ := followed.running status
      rw [Latest.drop, if_pos status]
      refine ⟨followed.named, nofun, nofun, fun _ => ⟨rfl, ?_⟩⟩
      show l.requestID ∉ w.replay.completed
      rw [← mine]
      exact kept.ready.fresh
    | finished =>
      rw [Latest.drop, if_neg (by rw [status]; decide)]
      refine ⟨followed.named, fun running => ?_, fun finished => ⟨rfl, (followed.finished finished).2⟩, fun reset => ?_⟩
      · cases status.symm.trans running
      · cases status.symm.trans reset
    | reset =>
      rw [Latest.drop, if_neg (by rw [status]; decide)]
      refine ⟨followed.named, fun running => ?_, fun finished => ?_, fun reset => ⟨rfl, (followed.reset reset).2⟩⟩
      · cases status.symm.trans running
      · cases status.symm.trans finished

theorem start_kept : Kept start :=
  ⟨newRequestReplay_ready, fun _ => rfl, nofun⟩

/-- Every run of calls leaves the finished requests in bounds; where each request begins after the one before is over,
    a retry of the latest is answered with its frames, or begins again once it has been reset. -/
theorem replay_answers {calls : List Call} (ran : run step start calls = some w) :
    Bounded w.replay ∧ (Guarded step Alone start calls → Retried w) := by
  constructor
  · exact (run_invariant (fun w => Ready w.replay) step_ready ran newRequestReplay_ready).bounded
  · exact fun alone => kept_retried (guarded_run_invariant Kept step_kept alone ran start_kept)

end Latest

def alike (w : World) : Call → Bool
  | .begin_ raw => !begins w.replay raw || match w.latest with
    | some l => l.status ≠ .running
    | none => true
  | .observe raw ended => !ended || raw.length ≤ maxReplayTotal
  | .resetActive => true

theorem alike_sound (w : World) (call : Call) (checked : alike w call) : Alone w call := by
  cases call with
  | begin_ =>
    intro new l latest
    rw [alike, new, latest] at checked
    simpa using checked
  | observe =>
    rintro rfl
    simpa [alike] using checked
  | resetActive => trivial

def retries : List Call :=
  [.begin_ chat, .observe (JournalFile.bytes "one") false, .begin_ chat, .observe (JournalFile.bytes "two") true, .begin_ chat]

theorem retries_answered : ∃ w, run step start retries = some w ∧ Bounded w.replay ∧ Retried w ∧
    (begin_ w.replay chat).2 = some [JournalFile.bytes "one", JournalFile.bytes "two"] := by
  obtain ⟨w, ran, answered⟩ := map_eq_some_iff.mp
    (show (run step start retries).map (fun w => (begin_ w.replay chat).2) =
      some (some [JournalFile.bytes "one", JournalFile.bytes "two"]) from by decide +kernel)
  have alone : Guarded step Alone start retries := checked_guarded alike alike_sound start retries (by decide +kernel)
  obtain ⟨bounded, retried⟩ := replay_answers ran
  exact ⟨w, ran, bounded, retried alone, answered⟩

/-- After a reset the retry is no duplicate. -/
theorem retry_begins : Guarded step Alone start [.begin_ chat, .resetActive] ∧
    ∃ w, run step start [.begin_ chat, .resetActive] = some w ∧ w.latest.map Latest.requestID = some (chatRequestID chat) ∧
      (begin_ w.replay chat).2 = none :=
  ⟨checked_guarded alike alike_sound start _ (by decide +kernel), _, rfl, by decide +kernel, by decide +kernel⟩

end PieRelay.ReplayBuffer
