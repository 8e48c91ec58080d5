import Mathlib.Logic.Function.Basic
import PieRelay.GoStrings
import PieRelay.JobRuns

/-!
The event stream of a job, executor-manager/cmd/manager/main.go: `events`, with `Subscribe`, `Job` and `notifyLocked` of the
manager. A handler sends its snapshot and then, whenever its channel has a notification, what the job has become since. It
takes the notification and looks at the job in two steps. What a runtime has produced is noted beside the table. Left out:
the authorization and the slots of handlers, heartbeats, deadlines and writes that fail.
-/
namespace PieRelay.JobEvents
open Executions List Option
open Function (update)
open GoStrings (quoteBytes unquoteBytes cleaned validString)
open JobRuns
open JobTable (Job JobStatus Options RunError Work terminal maxJobLogBytes)
open JsonScanner (Bytes)
open RoomRegistry (Time)

/-- An event, its log chunks as JSON strings; a job that has finished has its time, output and error too. -/
structure Event where
  id : String
  status : JobStatus
  logs : List Bytes
  logTruncated : Bool
  finished : Option (Time × Bytes × String)
  deriving DecidableEq

inductive Phase where
  | subscribed (initial : Job)
  | waiting
  | woken
  | ended
  deriving DecidableEq

structure Stream where
  id : String
  phase : Phase
  changes : Bool
  lastStatus : Option JobStatus
  lastLogCount : Nat
  sent : List Event
  deriving DecidableEq

structure World where
  table : JobTable.World
  streams : String → Option Stream
  produced : String → Bytes

def opened (o : Options) (stored : List Job) (now : Time) : World :=
  ⟨JobTable.opened o stored now, fun _ => none, fun _ => []⟩

inductive Action where
  | table (action : JobTable.Action)
  | subscribe (stream id : String)
  | first (stream : String)
  | wake (stream : String)
  | fetch (stream : String)
  deriving DecidableEq

def notifies (w : JobTable.World) : JobTable.Action → Option String
  | .cancel id _ =>
    match w.jobs.lookup id with
    | some j => if terminal j.status ∨ id ∈ w.cancel then none else some id
    | none => none
  | .start worker _ =>
    match w.workers.lookup worker with
    | some (.taken id) => if (w.jobs.lookup id).any fun j => j.status = .queued then some id else none
    | _ => none
  | .chunk worker _ => (holds w worker).map Prod.fst
  | .finish worker _ _ _ => (holds w worker).map Prod.fst
  | _ => none

def notifyLocked (id : Option String) (s : Stream) : Stream := { s with changes := s.changes || id = some s.id }

def outputs (w : World) : JobTable.Action → String → Bytes
  | .chunk worker text =>
    match holds w.table worker with
    | some (id, _) => update w.produced id (w.produced id ++ text)
    | none => w.produced
  | _ => w.produced

def send (s : Stream) (j : Job) : Stream :=
  let lastLogCount := if j.logs.length < s.lastLogCount then 0 else s.lastLogCount
  if s.lastStatus = some j.status ∧ j.logs.length = lastLogCount then { s with lastLogCount }
  else { s with
    sent := s.sent ++ [⟨j.id, j.status, (j.logs.drop lastLogCount).map quoteBytes, j.logTruncated,
      j.finishedAt.map fun finishedAt => (finishedAt, j.output, j.err)⟩]
    lastStatus := some j.status
    lastLogCount := j.logs.length }

def advance (s : Stream) (j : Job) : Stream :=
  { send s j with phase := if terminal j.status then .ended else .waiting }

def setStream (w : World) (name : String) (s : Stream) : World := { w with streams := update w.streams name (some s) }

def step (o : Options) (w : World) : Action → Option World
  | .table action => (JobTable.step o w.table action).map fun table =>
    ⟨table, fun name => (w.streams name).map (notifyLocked (notifies w.table action)), outputs w action⟩
  | .subscribe name id =>
    match w.streams name, w.table.jobs.lookup id with
    | none, some j => some (setStream w name ⟨id, .subscribed j, false, none, 0, []⟩)
    | _, _ => none
  | .first name => (w.streams name).bind fun s =>
    match s.phase with
    | .subscribed initial => some (setStream w name (advance s initial))
    | _ => none
  | .wake name => (w.streams name).bind fun s =>
    if s.phase = .waiting ∧ s.changes then some (setStream w name { s with phase := .woken, changes := false }) else none
  | .fetch name => (w.streams name).bind fun s =>
    if s.phase = .woken then
      match w.table.jobs.lookup s.id with
      | some j => some (setStream w name (advance s j))
      | none => some (setStream w name { s with phase := .ended })
    else none

def received (s : Stream) : List Bytes := (s.sent.flatMap Event.logs).map unquoteBytes

def quiet (events : List Event) : Bool := events.all fun e => !terminal e.status

structure Complete (s : Stream) (j : Job) : Prop where
  ended : s.phase = .ended
  last : ∃ events e, s.sent = events ++ [e] ∧ quiet events ∧ terminal e.status
  whole : received s = j.logs

def own (name : String) : Action → Bool
  | .first other => other = name
  | .wake other => other = name
  | .fetch other => other = name
  | _ => false

def Completes (o : Options) (w : World) (name : String) (j : Job) : Prop :=
  ∃ actions next s, actions.all (own name) ∧ run (step o) w actions = some next ∧ next.streams name = some s ∧ Complete s j

structure Faithful (o : Options) (w : World) (name : String) (s : Stream) (j : Job) : Prop where
  logs : received s <+: j.logs
  goes : s.phase ≠ .ended → quiet s.sent
  ended : s.phase = .ended → Complete s j
  ends : terminal j.status → s.phase ≠ .ended → Completes o w name j

structure Budget (produced : Bytes) (j : Job) : Prop where
  small : j.logs.flatten.length ≤ maxJobLogBytes
  cut : j.logs.flatten <+: produced
  whole : j.logTruncated = false → j.logs.flatten = produced

structure Exact (o : Options) (loaded : List String) (w : World) : Prop where
  streams : ∀ name s j, w.streams name = some s → w.table.jobs.lookup s.id = some j → Faithful o w name s j
  budget : ∀ id j, w.table.jobs.lookup id = some j → id ∉ loaded → Budget (w.produced id) j

def noticed (s : Stream) : Bool :=
  match s.phase with
  | .subscribed initial => s.changes || terminal initial.status
  | .waiting => s.changes
  | _ => true

/-- What is logged for a subscriber is UTF-8; a job with a subscriber stays in the table, and when it is rejected its
    subscribers still have to look. -/
def Careful (o : Options) (w : World) : Action → Prop
  | .table action => (∀ next name s, JobTable.step o w.table action = some next → w.streams name = some s →
      s.phase ≠ .ended → (next.jobs.lookup s.id).isSome) ∧
    match action with
    | .reject id => ∀ name s, w.streams name = some s → s.id = id → noticed s
    | .chunk worker text => ∀ name s j, w.streams name = some s → holds w.table worker = some (s.id, j) →
        validString (text.take (maxJobLogBytes - j.logBytes))
    | _ => True
  | .subscribe _ id => ∀ j, w.table.jobs.lookup id = some j → ∀ text ∈ j.logs, validString text
  | _ => True

section Logs
variable {o : Options} {w : World} {t : JobTable.World} {id : String} {j k : Job} {produced text : Bytes}

structure Within (produced : Bytes) (j : Job) : Prop where
  counted : j.logBytes = j.logs.flatten.length
  small : j.logBytes ≤ maxJobLogBytes
  cut : j.logs.flatten <+: produced
  whole : j.logTruncated = false → j.logs.flatten = produced
  full : terminal j.status = false → j.logTruncated → j.logBytes = maxJobLogBytes

variable {action : JobTable.Action}

theorem within_bare (bare : Bare j) : Within [] j := by
  obtain ⟨logs, bytes, truncated⟩ := bare
  refine ⟨?_, ?_, ?_, fun _ => ?_, fun _ absurd => ?_⟩
  · rw [bytes, logs]
    rfl
  · rw [bytes]
    exact Nat.zero_le _
  · rw [logs]
    exact prefix_refl _
  · rw [logs]
    rfl
  · cases truncated.symm.trans absurd

theorem within_same (within : Within produced j) (logs : k.logs = j.logs) (bytes : k.logBytes = j.logBytes)
    (truncated : k.logTruncated = false → j.logTruncated = false)
    (full : terminal k.status = false → k.logTruncated → terminal j.status = false ∧ j.logTruncated) :
    Within produced k := by
  constructor
  · rw [bytes, logs]
    exact within.counted
  · rw [bytes]
    exact within.small
  · rw [logs]
    exact within.cut
  · rw [logs]
    exact fun whole => within.whole (truncated whole)
  · rw [bytes]
    exact fun live cut => within.full (full live cut).1 (full live cut).2

theorem within_logged (within : Within produced j) (live : terminal j.status = false) (text : Bytes) :
    Within (produced ++ text) (JobTable.logged j text) := by
  have small := within.small
  unfold JobTable.logged
  dsimp only
  split
  · next room =>
    -- What was cut before would have left no room.
    have uncut : j.logTruncated = false := by
      refine eq_false_of_ne_true fun truncated => ?_
      have full := within.full live truncated
      omega
    have whole := within.whole uncut
    have kept : (j.logs ++ [text.take (maxJobLogBytes - j.logBytes)]).flatten =
        produced ++ text.take (maxJobLogBytes - j.logBytes) := by
      rw [flatten_append, whole, flatten_singleton]
    refine ⟨?_, ?_, ?_, fun untruncated => ?_, fun _ truncated => ?_⟩
    · dsimp only
      rw [kept, length_append, within.counted, whole]
    · dsimp only
      rw [length_take]
      omega
    · dsimp only
      rw [kept]
      exact prefix_append_right_inj produced |>.mpr (List.take_prefix _ _)
    · dsimp only at untruncated ⊢
      rw [uncut, Bool.false_or, decide_eq_false_iff_not] at untruncated
      rw [kept, take_of_length_le (by omega)]
    · dsimp only at truncated ⊢
      rw [uncut, Bool.false_or, decide_eq_true_iff] at truncated
      rw [length_take]
      omega
  · next =>
    refine ⟨within.counted, small, within.cut.trans (prefix_append _ _), fun absurd => (by cases absurd), fun _ _ => ?_⟩
    dsimp only
    omega

theorem outputs_other (w : World) (id : String)
    (others : ∀ worker text j, action = .chunk worker text → holds w.table worker ≠ some (id, j)) :
    outputs w action id = w.produced id := by
  cases action with
  | chunk worker text =>
    unfold outputs
    dsimp only
    cases has : holds w.table worker with
    | some pair =>
      obtain ⟨other, j⟩ := pair
      refine Function.update_of_ne ?_ _ _
      rintro rfl
      exact others worker text j rfl has
    | none => rfl
  | _ => rfl

theorem held_issued (steady : Steady w.table) {worker : String} (has : holds w.table worker = some (id, j)) :
    id ∈ w.table.issued := (steady.cancels id (steady.held worker id j has).1).1

structure Silent (w : World) : Prop where
  new : ∀ id, id ∉ w.table.issued → w.produced id = []
  waits : ∀ id s, w.table.submissions.lookup id = some s → w.produced id = []

section
variable (steady : Steady w.table)
include steady

theorem outputs_new (silent : Silent w) (new : id ∉ w.table.issued) : outputs w action id = [] := by
  rw [outputs_other w id fun worker text j _ has => new (held_issued steady has), silent.new id new]

theorem outputs_waits (silent : Silent w) {s : JobTable.Submission}
    (waits : w.table.submissions.lookup id = some s) : outputs w action id = [] := by
  rw [outputs_other w id, silent.waits id s waits]
  exact fun worker text j _ has => (steady.submits id s waits).unstarted (steady.held worker id j has).1

theorem silent_step (silent : Silent w)
    (stepped : JobTable.step o w.table action = some t) (streams : String → Option Stream) :
    Silent ⟨t, streams, outputs w action⟩ := by
  constructor
  · exact fun id new => outputs_new steady silent fun known => new (step_issued stepped known)
  · intro id s waits
    rcases step_waits stepped waits with ⟨before, waited⟩ | new
    · exact outputs_waits steady silent waited
    · exact outputs_new steady silent new

theorem chunk_logs {worker : String} (has : holds w.table worker = some (id, j))
    (stepped : JobTable.step o w.table (.chunk worker text) = some t) (found : t.jobs.lookup id = some k) :
    w.table.jobs.lookup id = some j ∧ terminal j.status = false ∧ k = JobTable.logged j text ∧
      outputs w (.chunk worker text) id = w.produced id ++ text := by
  obtain ⟨_, running, stored⟩ := steady.held worker id j has
  refine ⟨stored, by rw [running]; rfl, ?_, ?_⟩
  · simp only [JobTable.step] at stepped
    split at stepped
    · next here =>
      cases stepped
      cases (holds_of here).symm.trans has
      exact some.inj (found.symm.trans (AList.lookup_insert _))
    · cases stepped
  · unfold outputs
    dsimp only
    rw [has]
    exact Function.update_self ..

theorem within_step (silent : Silent w) {loaded : List String}
    (within : ∀ id j, w.table.jobs.lookup id = some j → id ∉ loaded → Within (w.produced id) j)
    (stepped : JobTable.step o w.table action = some t) (found : t.jobs.lookup id = some k) (ours : id ∉ loaded) :
    Within (outputs w action id) k := by
  by_cases logs : ∃ worker text j, action = .chunk worker text ∧ holds w.table worker = some (id, j)
  · obtain ⟨worker, text, j, rfl, has⟩ := logs
    obtain ⟨stored, live, same, produced⟩ := chunk_logs steady has stepped found
    rw [produced, same]
    exact within_logged (within id j stored ours) live text
  · have as_before : outputs w action id = w.produced id :=
      outputs_other w id fun worker text j is has => logs ⟨worker, text, j, is, has⟩
    cases step_comes steady stepped found with
    | stays before =>
      rw [as_before]
      exact within id k before ours
    | fresh new bare =>
      rw [outputs_new steady silent new]
      exact within_bare bare
    | canceled before live unstarted same =>
      rw [as_before, same]
      exact within_same (within id _ before ours) rfl rfl (fun whole => whole) (fun absurd => by cases absurd)
    | rejected waits status bare =>
      rw [outputs_waits steady silent waits]
      exact within_bare bare
    | started here before queued same =>
      rw [as_before, same]
      refine within_same (within id _ before ours) rfl rfl (fun whole => whole) fun _ truncated => ⟨?_, truncated⟩
      rw [queued]
      rfl
    | logged here => exact absurd ⟨_, _, _, rfl, holds_of here⟩ logs
    | @finished j worker out out' err now has same =>
      obtain ⟨_, _, stored⟩ := steady.held worker id j has
      rw [as_before, same]
      refine within_same (within id j stored ours) rfl rfl (fun whole => ?_) fun live => ?_
      · exact (Bool.or_eq_false_iff.mp whole).1
      · unfold JobTable.finished at live
        dsimp only at live
        split at live
        · cases live
        · split at live <;> cases live

end

end Logs

section Streams
variable {o : Options} {w : World} {t : JobTable.World} {s : Stream} {j k : Job} {name : String}

structure Evolves (w : JobTable.World) (action : JobTable.Action) (id : String) (j k : Job) : Prop where
  grows : j.logs <+: k.logs
  final : terminal j.status → k.logs = j.logs ∧ terminal k.status
  told : notifies w action = some id ∨ k.logs = j.logs ∧ (k.status = j.status ∨ action = .reject id ∧ terminal k.status)

variable {action : JobTable.Action} {id : String} {v : JobTable.World}

theorem evolves_same {w : JobTable.World} (same : k = j) : Evolves w action id j k := by
  subst same
  exact ⟨prefix_refl _, fun closed => ⟨rfl, closed⟩, .inr ⟨rfl, .inl rfl⟩⟩

theorem evolves_live {w : JobTable.World} (live : terminal j.status = false)
    (grows : j.logs <+: k.logs) (told : notifies w action = some id) : Evolves w action id j k :=
  ⟨grows, fun closed => (by cases live.symm.trans closed), .inl told⟩

theorem step_evolves (steady : Steady t)
    (stepped : JobTable.step o t action = some v) (before : t.jobs.lookup id = some j) (after : v.jobs.lookup id = some k) :
    Evolves t action id j k := by
  cases step_comes steady stepped after with
  | stays same => exact evolves_same (some.inj (same.symm.trans before))
  | fresh new => exact absurd (steady.known id j before) new
  | canceled before' live unstarted same =>
    cases before.symm.trans before'
    subst same
    refine evolves_live live (prefix_refl _) ?_
    rw [notifies, before]
    exact if_neg (not_or.mpr ⟨ne_true_of_eq_false live, unstarted⟩)
  | rejected waits status bare =>
    have logs : k.logs = j.logs := bare.1.trans ((steady.submits id _ waits).stored j before).1.symm
    have closed : terminal k.status := by
      rw [status]
      rfl
    exact ⟨logs ▸ prefix_refl _, fun _ => ⟨logs, closed⟩, .inr ⟨logs, .inr ⟨rfl, closed⟩⟩⟩
  | started here before' queued same =>
    cases before.symm.trans before'
    subst same
    refine evolves_live (by rw [queued]; rfl) (prefix_refl _) ?_
    rw [notifies, here]
    dsimp only
    rw [before, any_some, if_pos (decide_eq_true queued)]
  | @logged copy worker text here same =>
    have has : holds t worker = some (id, copy) := holds_of here
    obtain ⟨_, running, stored⟩ := steady.held worker id copy has
    cases before.symm.trans stored
    subst same
    refine evolves_live (by rw [running]; rfl) ?_ (by rw [notifies, has]; rfl)
    unfold JobTable.logged
    dsimp only
    split
    · exact prefix_append _ _
    · exact prefix_refl _
  | @finished copy worker out out' err now has same =>
    obtain ⟨_, running, stored⟩ := steady.held worker id copy has
    cases before.symm.trans stored
    subst same
    exact evolves_live (by rw [running]; rfl) (prefix_refl _) (by rw [notifies, has]; rfl)

def Here (s : Stream) (j : Job) : Prop :=
  match s.phase with
  | .subscribed initial => (s.lastLogCount = 0 ∧ s.sent = [] ∧ s.lastStatus = none) ∧ initial.logs <+: j.logs ∧
      (terminal initial.status → j.logs = initial.logs ∧ terminal j.status) ∧
        (s.changes = false → terminal initial.status = false → initial.logs = j.logs ∧ initial.status = j.status)
  | .waiting => s.changes = false → s.lastLogCount = j.logs.length ∧ s.lastStatus = some j.status
  | .woken => True
  | .ended => False

structure Follows (s : Stream) (j : Job) : Prop where
  count : s.lastLogCount ≤ j.logs.length
  logs : s.sent.flatMap Event.logs = (j.logs.take s.lastLogCount).map quoteBytes
  valid : ∀ text ∈ j.logs, validString text
  quiet : quiet s.sent
  last : ∀ status, s.lastStatus = some status → terminal status = false
  here : Here s j

structure Over (t : JobTable.World) (s : Stream) : Prop where
  issued : s.id ∈ t.issued
  last : ∃ events e, s.sent = events ++ [e] ∧ quiet events ∧ terminal e.status
  jobs : ∀ j, t.jobs.lookup s.id = some j → terminal j.status ∧ received s = j.logs
  waits : ∀ waiting, t.submissions.lookup s.id = some waiting → received s = []

def Sound (t : JobTable.World) (s : Stream) : Prop :=
  if s.phase = .ended then Over t s else ∃ j, t.jobs.lookup s.id = some j ∧ Follows s j

theorem follows_evolves (follows : Follows s j) (evolves : Evolves t action s.id j k)
    (valid : ∀ text ∈ k.logs, validString text) (rejected : action = .reject s.id → noticed s) :
    Follows (notifyLocked (notifies t action) s) k := by
  obtain ⟨more, same⟩ := evolves.grows
  have count : s.lastLogCount ≤ k.logs.length := follows.count.trans evolves.grows.length_le
  refine ⟨count, ?_, valid, follows.quiet, follows.last, ?_⟩
  · show s.sent.flatMap Event.logs = (k.logs.take s.lastLogCount).map quoteBytes
    rw [← same, take_append_of_le_length follows.count]
    exact follows.logs
  · have here := follows.here
    unfold Here at here ⊢
    -- Without a notification the job is as it was, but for one that is rejected.
    have untold : (s.changes || decide (notifies t action = some s.id)) = false → s.changes = false ∧
        k.logs = j.logs ∧ (k.status = j.status ∨ action = .reject s.id ∧ terminal k.status) := by
      intro none_
      rw [Bool.or_eq_false_iff, decide_eq_false_iff_not] at none_
      exact ⟨none_.1, evolves.told.resolve_left none_.2⟩
    have same_phase : (notifyLocked (notifies t action) s).phase = s.phase := rfl
    cases phase : s.phase with
    | subscribed =>
      rw [phase] at here
      rw [same_phase, phase]
      obtain ⟨unsent, before, closed, fresh⟩ := here
      refine ⟨unsent, before.trans evolves.grows, fun final => ?_, fun none_ live => ?_⟩
      · obtain ⟨whole, ends⟩ := closed final
        obtain ⟨kept, still⟩ := evolves.final ends
        exact ⟨kept.trans whole, still⟩
      · obtain ⟨unchanged, logs, status⟩ := untold none_
        obtain ⟨whole, now⟩ := fresh unchanged live
        rcases status with stays | ⟨is, _⟩
        · exact ⟨whole.trans logs.symm, now.trans stays.symm⟩
        · have seen := rejected is
          rw [noticed, phase, unchanged] at seen
          cases live.symm.trans seen
    | waiting =>
      rw [phase] at here
      rw [same_phase, phase]
      intro none_
      obtain ⟨unchanged, logs, status⟩ := untold none_
      obtain ⟨whole, now⟩ := here unchanged
      rcases status with stays | ⟨is, _⟩
      · exact ⟨by rw [logs]; exact whole, now.trans (congrArg some stays.symm)⟩
      · have seen := rejected is
        rw [noticed, phase, unchanged] at seen
        cases seen
    | woken =>
      rw [same_phase, phase]
      trivial
    | ended =>
      rw [phase] at here
      exact here.elim

theorem received_valid {logs : List Bytes} (sent : s.sent.flatMap Event.logs = logs.map quoteBytes)
    (valid : ∀ text ∈ logs, validString text) : received s = logs := by
  rw [received, sent, List.map_map]
  refine (List.map_congr_left fun text member => ?_).trans (List.map_id logs)
  exact (GoStrings.unquote_quoted text).trans (of_decide_eq_true (valid text member))

theorem send_logs (follows : Follows s j) : (send s j).sent.flatMap Event.logs = j.logs.map quoteBytes ∧
    (send s j).lastLogCount = j.logs.length ∧ (send s j).lastStatus = some j.status := by
  have count := follows.count
  unfold send
  dsimp only
  rw [if_neg (Nat.not_lt.mpr count)]
  split
  · next same =>
    refine ⟨?_, same.2.symm, same.1⟩
    rw [follows.logs, ← same.2, take_length]
  · refine ⟨?_, rfl, rfl⟩
    rw [flatMap_append, follows.logs, flatMap_singleton, ← map_append, take_append_drop]

theorem send_terminal (follows : Follows s j) (closed : terminal j.status) :
    ∃ e, (send s j).sent = s.sent ++ [e] ∧ terminal e.status := by
  unfold send
  dsimp only
  rw [if_neg (Nat.not_lt.mpr follows.count)]
  split
  · next same =>
    cases closed.symm.trans (follows.last j.status same.1)
  · exact ⟨_, rfl, closed⟩

theorem send_quiet (follows : Follows s j) (live : terminal j.status = false) : quiet (send s j).sent := by
  unfold send
  dsimp only
  rw [if_neg (Nat.not_lt.mpr follows.count)]
  split
  · exact follows.quiet
  · rw [quiet, all_append, all_cons, all_nil, live]
    exact Bool.and_eq_true_iff.mpr ⟨follows.quiet, rfl⟩

theorem send_same (s : Stream) (j : Job) : (send s j).id = s.id ∧ (send s j).changes = s.changes := by
  unfold send
  dsimp only
  generalize (if j.logs.length < s.lastLogCount then 0 else s.lastLogCount) = count
  split <;> exact ⟨rfl, rfl⟩

/-- A handler sends its snapshot, or what the job is now, while the job may have gone on. -/
theorem advance_sound {i : Job} (steady : Steady t) (stored : t.jobs.lookup s.id = some j)
    (valid : ∀ text ∈ j.logs, validString text) (follows : Follows s i) (before : i.logs <+: j.logs)
    (closed : terminal i.status → j.logs = i.logs ∧ terminal j.status)
    (fresh : s.changes = false → terminal i.status = false → i.logs = j.logs ∧ i.status = j.status) :
    Sound t (advance s i) := by
  obtain ⟨logs, count, status⟩ := send_logs follows
  obtain ⟨id, changes⟩ := send_same s i
  have stored_here : t.jobs.lookup (advance s i).id = some j := by
    show t.jobs.lookup (send s i).id = some j
    rw [id]
    exact stored
  unfold Sound
  cases ends : terminal i.status with
  | true =>
    have phase : (advance s i).phase = .ended := by rw [advance, ends]; rfl
    obtain ⟨whole, past⟩ := closed ends
    obtain ⟨e, sent, final⟩ := send_terminal follows ends
    have all : received (advance s i) = j.logs := by
      rw [whole]
      exact received_valid logs follows.valid
    rw [if_pos phase]
    refine ⟨steady.known _ j stored_here, ⟨s.sent, e, sent, follows.quiet, final⟩, fun k found => ?_, fun waiting waits => ?_⟩
    · cases stored_here.symm.trans found
      exact ⟨past, all⟩
    · rw [all]
      exact ((steady.submits _ waiting waits).stored j stored_here).1
  | false =>
    have phase : (advance s i).phase = .waiting := by rw [advance, ends]; rfl
    rw [if_neg (by rw [phase]; exact fun absurd => by cases absurd)]
    obtain ⟨more, same⟩ := before
    refine ⟨j, stored_here, ?_, ?_, valid, send_quiet follows ends, fun status' last => ?_, ?_⟩
    · show (send s i).lastLogCount ≤ j.logs.length
      rw [count, ← same, length_append]
      omega
    · show (send s i).sent.flatMap Event.logs = (j.logs.take (send s i).lastLogCount).map quoteBytes
      rw [logs, count, ← same, take_left]
    · change (send s i).lastStatus = some status' at last
      cases status.symm.trans last
      exact ends
    · unfold Here
      rw [phase]
      intro none_
      change (send s i).changes = false at none_
      rw [changes] at none_
      obtain ⟨whole, now⟩ := fresh none_ ends
      show (send s i).lastLogCount = j.logs.length ∧ (send s i).lastStatus = some j.status
      rw [count, status, whole, now]
      exact ⟨rfl, rfl⟩

theorem follows_initial {initial : Job} (follows : Follows s j) (phase : s.phase = .subscribed initial) :
    Follows s initial ∧ initial.logs <+: j.logs ∧
      (terminal initial.status → j.logs = initial.logs ∧ terminal j.status) ∧
        (s.changes = false → terminal initial.status = false → initial.logs = j.logs ∧ initial.status = j.status) := by
  have here := follows.here
  rw [Here, phase] at here
  obtain ⟨⟨count, sent, status⟩, before, closed, fresh⟩ := here
  refine ⟨⟨?_, ?_, fun text member => follows.valid text (before.subset member), follows.quiet, follows.last, ?_⟩, before, closed, fresh⟩
  · rw [count]
    exact Nat.zero_le _
  · rw [sent, count]
    rfl
  · rw [Here, phase]
    exact ⟨⟨count, sent, status⟩, prefix_refl _, fun final => ⟨rfl, final⟩, fun _ _ => ⟨rfl, rfl⟩⟩

theorem sound_goes (sound : Sound t s) (goes : s.phase ≠ .ended) : ∃ j, t.jobs.lookup s.id = some j ∧ Follows s j := by
  rw [Sound, if_neg goes] at sound
  exact sound

section
variable (steady : Steady t) (stepped : JobTable.step o t action = some v)
include steady stepped

/-- Only the callback adds to a log. -/
theorem step_valid (before : t.jobs.lookup id = some j) (after : v.jobs.lookup id = some k)
    (valid : ∀ text ∈ j.logs, validString text)
    (chunk : ∀ worker text copy, action = .chunk worker text → holds t worker = some (id, copy) →
      validString (text.take (maxJobLogBytes - copy.logBytes))) : ∀ text ∈ k.logs, validString text := by
  cases step_comes steady stepped after with
  | stays same =>
    cases before.symm.trans same
    exact valid
  | fresh new => exact absurd (steady.known id j before) new
  | canceled before' _ _ same | started _ before' _ same =>
    cases before.symm.trans before'
    subst same
    exact valid
  | rejected waits status bare =>
    rw [bare.1]
    exact fun _ member => absurd member not_mem_nil
  | @logged copy worker text here same =>
    have has : holds t worker = some (id, copy) := holds_of here
    obtain ⟨_, _, stored⟩ := steady.held worker id copy has
    cases before.symm.trans stored
    subst same
    unfold JobTable.logged
    dsimp only
    split
    · intro chunk' member
      rcases mem_append.mp member with old | new
      · exact valid chunk' old
      · rw [mem_singleton.mp new]
        exact chunk worker text j rfl has
    · exact valid
  | @finished copy worker out out' err now has same =>
    obtain ⟨_, _, stored⟩ := steady.held worker id copy has
    cases before.symm.trans stored
    subst same
    exact valid

theorem over_step (past : Over t s) (n : Option String) : Over v (notifyLocked n s) := by
  refine ⟨step_issued stepped past.issued, past.last, fun k after => ?_, fun waiting waits => ?_⟩
  · cases before : t.jobs.lookup s.id with
    | some j =>
      obtain ⟨closed, whole⟩ := past.jobs j before
      obtain ⟨logs, still⟩ := (step_evolves steady stepped before after).final closed
      exact ⟨still, whole.trans logs.symm⟩
    | none =>
      -- What comes back to the table is a job that `Submit` rejects.
      cases step_comes steady stepped after with
      | stays same => cases before.symm.trans same
      | fresh new => exact absurd past.issued new
      | canceled before' | started _ before' => cases before.symm.trans before'
      | rejected waits status bare =>
        refine ⟨by rw [status]; rfl, (past.waits _ waits).trans bare.1.symm⟩
      | logged here => cases before.symm.trans (steady.held _ _ _ (holds_of here)).2.2
      | finished has => cases before.symm.trans (steady.held _ _ _ has).2.2
  · rcases step_waits stepped waits with ⟨waited, there⟩ | new
    · exact past.waits waited there
    · exact absurd past.issued new

theorem sound_step (sound : Sound t s)
    (stays : s.phase ≠ .ended → (v.jobs.lookup s.id).isSome) (rejected : action = .reject s.id → noticed s)
    (chunk : ∀ worker text copy, action = .chunk worker text → holds t worker = some (s.id, copy) →
      validString (text.take (maxJobLogBytes - copy.logBytes))) : Sound v (notifyLocked (notifies t action) s) := by
  by_cases ended : s.phase = .ended
  · rw [Sound, if_pos ended] at sound
    exact (if_pos ended).mpr (over_step steady stepped sound _)
  · obtain ⟨j, before, follows⟩ := sound_goes sound ended
    obtain ⟨k, after⟩ := isSome_iff_exists.mp (stays ended)
    have evolves := step_evolves steady stepped before after
    have valid := step_valid steady stepped before after follows.valid chunk
    refine (if_neg ended).mpr ⟨k, after, follows_evolves follows evolves valid rejected⟩

end

end Streams

section Runs
variable {o : Options} {loaded : List String} {w v : World} {s : Stream} {j : Job} {name : String}

structure Kept (loaded : List String) (w : World) : Prop where
  steady : Steady w.table
  silent : Silent w
  within : ∀ id j, w.table.jobs.lookup id = some j → id ∉ loaded → Within (w.produced id) j
  sound : ∀ name s, w.streams name = some s → Sound w.table s

theorem set_kept (kept : Kept loaded w) (sound : Sound w.table s) : Kept loaded (setStream w name s) := by
  refine ⟨kept.steady, ⟨kept.silent.new, kept.silent.waits⟩, kept.within, fun other s' there => ?_⟩
  have updated : (if other = name then some s else w.streams other) = some s' :=
    (Function.update_apply w.streams name (some s) other).symm.trans there
  split at updated
  · cases updated
    exact sound
  · exact kept.sound other s' updated

theorem table_kept (kept : Kept loaded w) {action : JobTable.Action} {t : JobTable.World} (careful : Careful o w (.table action))
    (stepped : JobTable.step o w.table action = some t) :
    Kept loaded ⟨t, fun name => (w.streams name).map (notifyLocked (notifies w.table action)), outputs w action⟩ := by
  refine ⟨step_steady kept.steady stepped, silent_step kept.steady kept.silent stepped _,
    fun id k found ours => within_step kept.steady kept.silent kept.within stepped found ours, fun name s there => ?_⟩
  obtain ⟨before, was, rfl⟩ := map_eq_some_iff.mp there
  obtain ⟨stays, rest⟩ := careful
  refine sound_step kept.steady stepped (kept.sound name before was) (stays t name before stepped was) ?_ ?_
  · rintro rfl
    exact rest name before was rfl
  · rintro worker text copy rfl has
    exact rest name before copy was has

theorem subscribe_sound {id : String} (stored : w.table.jobs.lookup id = some j)
    (valid : ∀ text ∈ j.logs, validString text) : Sound w.table ⟨id, .subscribed j, false, none, 0, []⟩ := by
  refine (if_neg (fun absurd => by cases absurd)).mpr ⟨j, stored, ⟨Nat.zero_le _, rfl, valid, rfl, (fun _ absurd => by cases absurd), ?_⟩⟩
  exact ⟨⟨rfl, rfl, rfl⟩, prefix_refl _, fun final => ⟨rfl, final⟩, fun _ _ => ⟨rfl, rfl⟩⟩

section
variable (kept : Kept loaded w) (there : w.streams name = some s)
include kept there

theorem first_sound {initial : Job} (phase : s.phase = .subscribed initial) : Sound w.table (advance s initial) := by
  obtain ⟨j, stored, follows⟩ := sound_goes (kept.sound name s there) (by rw [phase]; exact fun absurd => by cases absurd)
  obtain ⟨initially, before, closed, fresh⟩ := follows_initial follows phase
  exact advance_sound kept.steady stored follows.valid initially before closed fresh

theorem wake_sound (phase : s.phase = .waiting) : Sound w.table { s with phase := .woken, changes := false } := by
  obtain ⟨j, stored, follows⟩ := sound_goes (kept.sound name s there) (by rw [phase]; exact fun absurd => by cases absurd)
  refine (if_neg (fun absurd => by cases absurd)).mpr ⟨j, stored, ?_⟩
  exact ⟨follows.count, follows.logs, follows.valid, follows.quiet, follows.last, trivial⟩

theorem fetch_sound (phase : s.phase = .woken) :
    ∃ j, w.table.jobs.lookup s.id = some j ∧ Follows s j ∧ Sound w.table (advance s j) := by
  obtain ⟨j, stored, follows⟩ := sound_goes (kept.sound name s there) (by rw [phase]; exact fun absurd => by cases absurd)
  refine ⟨j, stored, follows, ?_⟩
  exact advance_sound kept.steady stored follows.valid follows (prefix_refl _) (fun final => ⟨rfl, final⟩) fun _ _ => ⟨rfl, rfl⟩

end

theorem step_kept (kept : Kept loaded w) {action : Action} (careful : Careful o w action) (stepped : step o w action = some v) :
    Kept loaded v := by
  cases action with
  | table =>
    obtain ⟨t, went, rfl⟩ := map_eq_some_iff.mp stepped
    exact table_kept kept careful went
  | subscribe =>
    simp only [step] at stepped
    split at stepped
    · next j _ stored =>
      cases stepped
      exact set_kept kept (subscribe_sound stored (careful j stored))
    · cases stepped
  | first =>
    obtain ⟨s, there, went⟩ := bind_eq_some_iff.mp stepped
    split at went
    · next phase =>
      cases went
      exact set_kept kept (first_sound kept there phase)
    · cases went
  | wake =>
    obtain ⟨s, there, went⟩ := bind_eq_some_iff.mp stepped
    obtain ⟨⟨phase, _⟩, same⟩ := ite_none_right_eq_some.mp went
    cases same
    exact set_kept kept (wake_sound kept there phase)
  | fetch =>
    obtain ⟨s, there, went⟩ := bind_eq_some_iff.mp stepped
    obtain ⟨phase, fetched⟩ := ite_none_right_eq_some.mp went
    obtain ⟨j, stored, _, sound⟩ := fetch_sound kept there phase
    rw [stored] at fetched
    cases fetched
    exact set_kept kept sound

theorem set_stream (w : World) (name : String) (s : Stream) : (setStream w name s).streams name = some s :=
  Function.update_self ..

theorem completes_step {action : Action} (stepped : step o w action = some v) (mine : own name action)
    (completes : Completes o v name j) : Completes o w name j := by
  obtain ⟨actions, next, s, alone, ran, there, complete⟩ := completes
  refine ⟨action :: actions, next, s, ?_, ?_, there, complete⟩
  · rw [all_cons, mine, alone]
    rfl
  · rw [run, stepped]
    exact ran

theorem over_complete (past : Over w.table s) (phase : s.phase = .ended) (stored : w.table.jobs.lookup s.id = some j) :
    Complete s j :=
  ⟨phase, past.last, (past.jobs j stored).2⟩

theorem advance_complete {i : Job} (sound : Sound w.table (advance s i)) (closed : terminal i.status)
    (stored : w.table.jobs.lookup s.id = some j) : Complete (advance s i) j := by
  have phase : (advance s i).phase = .ended := by rw [advance, closed]; rfl
  rw [Sound, if_pos phase] at sound
  refine over_complete sound phase ?_
  show w.table.jobs.lookup (send s i).id = some j
  rw [(send_same s i).1]
  exact stored

section
variable (kept : Kept loaded w) (there : w.streams name = some s)
include kept there

theorem woken_completes (phase : s.phase = .woken)
    (stored : w.table.jobs.lookup s.id = some j) (closed : terminal j.status) : Completes o w name j := by
  obtain ⟨k, found, _, sound⟩ := fetch_sound kept there phase
  cases stored.symm.trans found
  have stepped : step o w (.fetch name) = some (setStream w name (advance s j)) := by
    rw [step, there, bind_some, if_pos phase, stored]
  refine completes_step stepped (decide_eq_true rfl) ?_
  exact ⟨[], _, _, rfl, rfl, set_stream .., advance_complete sound closed stored⟩

theorem waiting_completes (phase : s.phase = .waiting)
    (stored : w.table.jobs.lookup s.id = some j) (closed : terminal j.status) : Completes o w name j := by
  obtain ⟨k, found, follows⟩ := sound_goes (kept.sound name s there) (by rw [phase]; exact fun absurd => by cases absurd)
  cases stored.symm.trans found
  have noted : s.changes := by
    by_contra none_
    have here := follows.here
    rw [Here, phase] at here
    cases closed.symm.trans (follows.last j.status (here (eq_false_of_ne_true none_)).2)
  have stepped : step o w (.wake name) = some (setStream w name { s with phase := .woken, changes := false }) := by
    rw [step, there, bind_some, if_pos ⟨phase, noted⟩]
  refine completes_step stepped (decide_eq_true rfl) ?_
  exact woken_completes (set_kept kept (wake_sound kept there phase)) (set_stream ..) rfl stored closed

theorem subscribed_completes {initial : Job}
    (phase : s.phase = .subscribed initial) (stored : w.table.jobs.lookup s.id = some j) (closed : terminal j.status) :
    Completes o w name j := by
  have sound := first_sound kept there phase
  have stepped : step o w (.first name) = some (setStream w name (advance s initial)) := by
    rw [step, there, bind_some, phase]
  refine completes_step stepped (decide_eq_true rfl) ?_
  cases ends : terminal initial.status with
  | true => exact ⟨[], _, _, rfl, rfl, set_stream .., advance_complete sound ends stored⟩
  | false =>
    refine waiting_completes (set_kept kept sound) (set_stream ..) (by rw [advance, ends]; rfl) ?_ closed
    show w.table.jobs.lookup (send s initial).id = some j
    rw [(send_same s initial).1]
    exact stored

theorem kept_faithful (stored : w.table.jobs.lookup s.id = some j) : Faithful o w name s j := by
  have sound := kept.sound name s there
  by_cases ended : s.phase = .ended
  · rw [Sound, if_pos ended] at sound
    have complete := over_complete sound ended stored
    exact ⟨complete.whole ▸ prefix_refl _, fun goes => absurd ended goes, fun _ => complete, fun _ goes => absurd ended goes⟩
  · obtain ⟨k, found, follows⟩ := sound_goes sound ended
    cases stored.symm.trans found
    refine ⟨?_, fun _ => follows.quiet, fun absurd => (ended absurd).elim, fun closed _ => ?_⟩
    · rw [received_valid follows.logs fun text member => follows.valid text (mem_of_mem_take member)]
      exact List.take_prefix _ _
    · cases phase : s.phase with
      | subscribed => exact subscribed_completes kept there phase stored closed
      | waiting => exact waiting_completes kept there phase stored closed
      | woken => exact woken_completes kept there phase stored closed
      | ended => exact absurd phase ended

end

theorem within_budget {produced : Bytes} (within : Within produced j) : Budget produced j :=
  ⟨within.counted ▸ within.small, within.cut, within.whole⟩

theorem opened_kept (o : Options) (stored : List Job) (now : Time) : Kept (stored.map Job.id) (opened o stored now) := by
  refine ⟨opened_steady o stored now, ⟨fun _ _ => rfl, fun _ _ absurd => by cases absurd⟩, fun id j found ours => ?_,
    fun _ _ absurd => by cases absurd⟩
  exact absurd (opened_known o stored now found) ours

end Runs

theorem events_exact (o : Options) (stored : List Job) (now : Time) {actions : List Action} {w : World}
    (careful : Guarded (step o) (Careful o) (opened o stored now) actions)
    (ran : run (step o) (opened o stored now) actions = some w) : Exact o (stored.map Job.id) w := by
  have kept := guarded_run_invariant (Kept (stored.map Job.id))
    (fun _ _ _ careful kept stepped => step_kept kept careful stepped) careful ran (opened_kept o stored now)
  constructor
  · exact fun name s j there found => kept_faithful kept there found
  · exact fun id j found ours => within_budget (kept.within id j found ours)

def check (o : Options) (name : String) (w : World) : Action → Bool
  | .table action => (w.streams name).all fun s =>
    (s.phase = .ended ∨ (JobTable.step o w.table action).all fun next => (next.jobs.lookup s.id).isSome) &&
      match action with
      | .reject id => s.id ≠ id || noticed s
      | .chunk worker text => (holds w.table worker).all fun held =>
        held.1 ≠ s.id || validString (text.take (maxJobLogBytes - held.2.logBytes))
      | _ => true
  | .subscribe other id => other = name && (w.table.jobs.lookup id).all fun j => j.logs.all validString
  | action => own name action

variable {w : World}

theorem check_careful {o : Options} {name : String} (alone : ∀ other, other ≠ name → w.streams other = none)
    {action : Action} (passed : check o name w action) : Careful o w action := by
  have mine {other : String} {s : Stream} (there : w.streams other = some s) : w.streams name = some s := by
    by_cases same : other = name
    · exact same ▸ there
    · cases (alone other same).symm.trans there
  cases action with
  | table action =>
    constructor
    · intro next other s went there goes
      rw [check, mine there, all_some, Bool.and_eq_true, decide_eq_true_iff, went] at passed
      exact passed.1.resolve_left goes
    · cases action with
      | reject =>
        rintro other s there rfl
        rw [check, mine there, all_some, Bool.and_eq_true] at passed
        simpa using passed.2
      | chunk =>
        intro other s j there has
        rw [check, mine there, all_some, Bool.and_eq_true] at passed
        simpa [has] using passed.2
      | _ => trivial
  | subscribe =>
    intro j stored text member
    rw [check, stored, Bool.and_eq_true] at passed
    exact all_eq_true.mp passed.2 text member
  | _ => trivial

theorem check_alone {o : Options} {name : String} {next : World} (alone : ∀ other, other ≠ name → w.streams other = none)
    {action : Action} (passed : check o name w action) (stepped : step o w action = some next) :
    ∀ other, other ≠ name → next.streams other = none := by
  have others (s : Stream) (other : String) (apart : other ≠ name) : (setStream w name s).streams other = none :=
    (Function.update_of_ne apart _ _).trans (alone other apart)
  cases action with
  | table =>
    obtain ⟨t, _, rfl⟩ := map_eq_some_iff.mp stepped
    intro other apart
    show (w.streams other).map _ = none
    rw [alone other apart, map_none]
  | subscribe =>
    cases of_decide_eq_true (Bool.and_eq_true_iff.mp passed).1
    simp only [step] at stepped
    split at stepped
    · cases stepped
      exact others _
    · cases stepped
  | first =>
    cases of_decide_eq_true passed
    obtain ⟨s, _, went⟩ := bind_eq_some_iff.mp stepped
    split at went
    · cases went
      exact others _
    · cases went
  | wake =>
    cases of_decide_eq_true passed
    obtain ⟨s, _, went⟩ := bind_eq_some_iff.mp stepped
    obtain ⟨_, same⟩ := ite_none_right_eq_some.mp went
    cases same
    exact others _
  | fetch =>
    cases of_decide_eq_true passed
    obtain ⟨s, _, went⟩ := bind_eq_some_iff.mp stepped
    obtain ⟨_, fetched⟩ := ite_none_right_eq_some.mp went
    split at fetched <;> cases fetched <;> exact others _

theorem check_guarded (o : Options) (name : String) (alone : ∀ other, other ≠ name → w.streams other = none)
    (actions : List Action) (passed : checked (step o) (check o name) w actions) :
    Guarded (step o) (Careful o) w actions := by
  induction actions generalizing w with
  | nil => trivial
  | cons action rest ih =>
    simp only [checked, Bool.and_eq_true] at passed
    refine ⟨check_careful alone passed.1, fun next stepped => ih (check_alone alone passed.1 stepped) ?_⟩
    simpa [stepped] using passed.2

def small : Options := ⟨1, 1, Nat.one_pos⟩

def listening : List Action :=
  [.table (.submit "job-1" "ada" "executor-ada" [49] [] 1), .table (.saved "job-1" true), .subscribe "reader" "job-1",
    .first "reader", .table (.enqueue "job-1"), .table (.take "worker"), .table (.start "worker" 2),
    .table (.started "worker"), .wake "reader", .table (.chunk "worker" [104]), .table (.chunk "worker" [105]),
    .fetch "reader", .table (.finish "worker" [104, 105] none 3)]

theorem listening_exact : ∃ w, run (step small) (opened small [] 0) listening = some w ∧ Exact small [] w := by
  obtain ⟨w, ran, _⟩ := map_eq_some_iff.mp
    (show (run (step small) (opened small [] 0) listening).map (fun w => (w.streams "reader").map fun s => (received s, s.changes)) =
      some (some ([[104], [105]], true)) by decide +kernel)
  exact ⟨w, ran, events_exact small [] 0 (check_guarded small "reader" (fun _ _ => rfl) listening (by decide +kernel)) ran⟩

def rejecting : List Action :=
  [.table (.submit "job-1" "ada" "executor-ada" [49] [] 1), .table (.saved "job-1" true), .table (.enqueue "job-1"),
    .table (.submit "job-2" "grace" "executor-grace" [50] [] 2), .subscribe "reader" "job-2", .first "reader",
    .table (.saved "job-2" true), .table (.enqueue "job-2"), .table (.reject "job-2")]

def splitting : List Action :=
  [.table (.submit "job-1" "ada" "executor-ada" [49] [] 1), .table (.saved "job-1" true), .table (.enqueue "job-1"),
    .table (.take "worker"), .table (.start "worker" 2), .table (.started "worker"), .table (.chunk "worker" [0xEA]),
    .subscribe "reader" "job-1", .first "reader"]

theorem events_lost : (∃ w, run (step small) (opened small [] 0) rejecting = some w ∧ ¬ Exact small [] w) ∧
    ∃ w, run (step small) (opened small [] 0) splitting = some w ∧ ¬ Exact small [] w := by
  constructor
  · obtain ⟨w, ran, shown⟩ := map_eq_some_iff.mp (show (run (step small) (opened small [] 0) rejecting).map (fun w =>
          ((w.streams "reader").map fun s => (s.id, s.phase, s.changes), (w.table.jobs.lookup "job-2").map Job.status)) =
        some (some ("job-2", .waiting, false), some .rejected) by decide +kernel)
    simp only [Prod.mk.injEq, map_eq_some_iff] at shown
    obtain ⟨⟨s, there, id, phase, untold⟩, j, stored, rejected⟩ := shown
    refine ⟨w, ran, fun exact_ => ?_⟩
    have closed : terminal j.status := by rw [rejected]; rfl
    have goes : s.phase ≠ .ended := by rw [phase]; exact fun absurd => by cases absurd
    obtain ⟨actions, next, s', alone, went, there', complete⟩ := (exact_.streams "reader" s j there (id ▸ stored)).ends closed goes
    cases actions with
    | nil =>
      cases went
      cases there.symm.trans there'
      exact goes complete.ended
    | cons action =>
      -- The handler waits for a notification that nobody sends.
      obtain ⟨_, stepped, _⟩ := run_cons went
      obtain ⟨mine, _⟩ := Bool.and_eq_true_iff.mp alone
      cases action with
      | first =>
        cases of_decide_eq_true mine
        rw [step, there, bind_some, phase] at stepped
        cases stepped
      | wake =>
        cases of_decide_eq_true mine
        rw [step, there, bind_some, if_neg (fun both => by cases untold.symm.trans both.2)] at stepped
        cases stepped
      | fetch =>
        cases of_decide_eq_true mine
        rw [step, there, bind_some, if_neg (by rw [phase]; exact fun absurd => by cases absurd)] at stepped
        cases stepped
      | _ => cases mine
  · obtain ⟨w, ran, shown⟩ := map_eq_some_iff.mp (show (run (step small) (opened small [] 0) splitting).map (fun w =>
          ((w.streams "reader").map fun s => (s.id, received s), (w.table.jobs.lookup "job-1").map Job.logs)) =
        some (some ("job-1", [[0xEF, 0xBF, 0xBD]]), some [[0xEA]]) by decide +kernel)
    simp only [Prod.mk.injEq, map_eq_some_iff] at shown
    obtain ⟨⟨s, there, id, read⟩, j, stored, logs⟩ := shown
    refine ⟨w, ran, fun exact_ => ?_⟩
    have before := (exact_.streams "reader" s j there (id ▸ stored)).logs
    rw [read, logs] at before
    revert before
    decide

end PieRelay.JobEvents
