import PieRelay.Executions
import PieRelay.PreviewRecords

/-!
Requests that wait for their response, executor-manager/internal/chatgateway/gateway.go: `Request` with its waiter,
`recordRaw` and `deliverRequest`. A conversation has one peer, which records one frame after the other; any number of
requests run beside it. Left out: the data of the events, other conversations, and what `Send` asks before it looks at the
journal, which is that it may fail.
-/
namespace PieRelay.SynchronousRequests
open Executions List Option

structure Event where
  type : String
  requestID : String
  sequence : Nat
  deriving DecidableEq

inductive Stage where
  | registered
  | looking
  | waiting
  | returned (answer : Option Event)
  deriving DecidableEq

structure Call where
  requestID : String
  responseType : String
  stage : Stage
  slot : Option Event
  ended : Bool
  due : Option Nat
  deriving DecidableEq

structure World where
  journal : List Event
  /-- What has been appended and not yet been delivered. -/
  pending : Option Event
  calls : Nat → Option Call

def start : World := ⟨[], none, fun _ => none⟩

inductive Action where
  | register (id : Nat) (requestID responseType : String)
  | send (id : Nat) (chat fails : Bool)
  | lookup (id : Nat) (fails : Bool)
  | receive (id : Nat)
  | endContext (id : Nat)
  | giveUp (id : Nat)
  | append (eventType requestID : String) (fails : Bool)
  | deliver
  deriving DecidableEq

def isIdempotencyEvent (eventType : String) : Bool := eventType = "request.accepted" ∨ eventType = "control.accepted"

def hasRequest (journal : List Event) (requestID : String) : Bool :=
  journal.any fun e => isIdempotencyEvent e.type ∧ e.requestID = requestID

def wanted (e : Event) (call : Call) : Bool := e.requestID = call.requestID ∧ e.type = call.responseType

def returned (call : Call) : Bool :=
  match call.stage with
  | .returned _ => true
  | _ => false

/-- `deliverRequest` for one waiter: the event goes into its channel if that is empty. -/
def offer (e : Event) (call : Call) : Call :=
  if returned call then call
  else { call with
    slot := if e.requestID ≠ "" ∧ e.requestID = call.requestID then call.slot.or (some e) else call.slot
    due := if wanted e call ∧ !call.ended then call.due.or (some e.sequence) else call.due }

def setCall (w : World) (id : Nat) (call : Call) : World := { w with calls := Function.update w.calls id (some call) }

def send (w : World) (id : Nat) (call : Call) (chat fails : Bool) : World :=
  if fails ∨ call.requestID = "" ∨ 160 < call.requestID.utf8ByteSize then setCall w id { call with stage := .returned none }
  else if hasRequest w.journal call.requestID then setCall w id { call with stage := .looking }
  else setCall { w with
    journal := w.journal ++ [⟨if chat then "request.accepted" else "control.accepted", call.requestID, w.journal.length + 1⟩] }
    id { call with stage := .waiting }

def lookup (w : World) (id : Nat) (call : Call) (fails : Bool) : World :=
  if fails then setCall w id { call with stage := .returned none }
  else match w.journal.find? fun e => wanted e call with
    | some e => setCall w id { call with stage := .returned (some e) }
    | none => setCall w id { call with stage := .waiting }

def receive (w : World) (id : Nat) (call : Call) (e : Event) : World :=
  setCall w id { call with slot := none, stage := if e.type = call.responseType then .returned (some e) else .waiting }

def append (w : World) (eventType requestID : String) (fails : Bool) : World :=
  let eventType := if eventType = "" then "relay.event" else eventType
  if fails ∨ requestID ≠ "" ∧ isIdempotencyEvent eventType ∧ hasRequest w.journal requestID then w
  else
    let e : Event := ⟨eventType, requestID, w.journal.length + 1⟩
    { w with journal := w.journal ++ [e], pending := some e }

def stepCall (w : World) (id : Nat) (call : Call) : Action → Option World
  | .send _ chat fails => if call.stage = .registered then some (send w id call chat fails) else none
  | .lookup _ fails => if call.stage = .looking then some (lookup w id call fails) else none
  | .receive _ => if call.stage = .waiting then call.slot.map (receive w id call) else none
  | .endContext _ => some (setCall w id { call with ended := true })
  | .giveUp _ =>
    if call.stage = .waiting ∧ call.ended then some (setCall w id { call with stage := .returned none }) else none
  | _ => none

def step (w : World) : Action → Option World
  | .register id requestID responseType =>
    if w.calls id = none ∧ PreviewRecords.trimSpace responseType ≠ "" ∧ responseType.utf8ByteSize ≤ 96 then
      some (setCall w id ⟨requestID, responseType, .registered, none, false, none⟩)
    else none
  | .append eventType requestID fails =>
    match w.pending with
    | some _ => none
    | none => some (append w eventType requestID fails)
  | .deliver => w.pending.map fun e => { w with pending := none, calls := fun id => (w.calls id).map (offer e) }
  | .send id chat fails => (w.calls id).bind fun call => stepCall w id call (.send id chat fails)
  | .lookup id fails => (w.calls id).bind fun call => stepCall w id call (.lookup id fails)
  | .receive id => (w.calls id).bind fun call => stepCall w id call (.receive id)
  | .endContext id => (w.calls id).bind fun call => stepCall w id call (.endContext id)
  | .giveUp id => (w.calls id).bind fun call => stepCall w id call (.giveUp id)

def proceeds (id : Nat) (action : Action) : Bool :=
  match action with
  | .send other _ fails => other = id ∧ !fails
  | .lookup other fails => other = id ∧ !fails
  | .receive other => other = id
  | _ => false

def Returned (w : World) (id n : Nat) : Prop :=
  ∃ call e, w.calls id = some call ∧ call.stage = .returned (some e) ∧ wanted e call ∧ e.sequence ≤ n

def Answers (w : World) (id n : Nat) : Prop :=
  ∃ actions next, actions.all (proceeds id) ∧ run step w actions = some next ∧ Returned next id n

def Delivered (w : World) : Prop := ∀ id call n, w.calls id = some call → call.due = some n →
  if returned call then Returned w id n else Answers w id n

/-- No response finds another event in the channel, and with a response recorded nothing fails, nor does the call look at
    its context. -/
def Careful (w : World) : Action → Prop
  | .send id _ fails => ∀ call, w.calls id = some call → call.due ≠ none → fails = false
  | .lookup id fails => ∀ call, w.calls id = some call → call.due ≠ none → fails = false
  | .giveUp id => ∀ call, w.calls id = some call → call.due = none
  | .deliver => ∀ e, w.pending = some e → ∀ id call, w.calls id = some call → returned call = false →
      wanted e call → call.ended = false → e.requestID ≠ "" ∧ e.requestID.utf8ByteSize ≤ 160 ∧
        ∀ other, call.slot = some other → wanted other call
  | _ => True

section Journal
variable {journal : List Event} {e : Event}

structure Ordered (journal : List Event) : Prop where
  increasing : journal.Pairwise fun a b => a.sequence < b.sequence
  bounded : ∀ e ∈ journal, e.sequence ≤ journal.length

theorem ordered_append (ordered : Ordered journal) (last : e.sequence = journal.length + 1) : Ordered (journal ++ [e]) := by
  constructor
  · refine pairwise_append.mpr ⟨ordered.increasing, pairwise_singleton _ _, fun a before b after => ?_⟩
    rw [mem_singleton.mp after, last]
    exact Nat.lt_succ_of_le (ordered.bounded a before)
  · intro a member
    rw [length_append, length_singleton]
    rcases mem_append.mp member with before | new
    · exact Nat.le_succ_of_le (ordered.bounded a before)
    · rw [mem_singleton.mp new, last]

theorem first_found {p : Event → Bool} (increasing : journal.Pairwise fun a b => a.sequence < b.sequence) (member : e ∈ journal)
    (holds : p e) : ∃ first, journal.find? p = some first ∧ p first ∧ first.sequence ≤ e.sequence := by
  induction journal with
  | nil => cases member
  | cons head rest ih =>
    obtain ⟨above, increasing⟩ := pairwise_cons.mp increasing
    by_cases here : p head
    · refine ⟨head, find?_cons_of_pos here, here, ?_⟩
      rcases mem_cons.mp member with rfl | later
      · exact Nat.le_refl _
      · exact (above e later).le
    · rcases mem_cons.mp member with rfl | later
      · exact absurd holds here
      · obtain ⟨first, found, holds, earlier⟩ := ih increasing later
        exact ⟨first, (find?_cons_of_neg here).trans found, holds, earlier⟩

end Journal

section Runs
variable {w : World} {id n : Nat} {call : Call}

structure Served (journal : List Event) (call : Call) (n : Nat) : Prop where
  known : ∃ e ∈ journal, wanted e call ∧ e.sequence = n
  named : call.requestID ≠ "" ∧ call.requestID.utf8ByteSize ≤ 160
  answer : (∃ e, call.stage = .returned (some e) ∧ wanted e call ∧ e.sequence ≤ n) ∨
    returned call = false ∧ ∃ e, call.slot = some e ∧ wanted e call ∧ e.sequence ≤ n

structure Fine (journal : List Event) (call : Call) : Prop where
  mine : ∀ e, call.slot = some e → e.requestID = call.requestID
  noted : returned call = false → call.ended = false → ∀ e, call.slot = some e → wanted e call → call.due ≠ none
  served : ∀ n, call.due = some n → Served journal call n

structure Kept (w : World) : Prop where
  ordered : Ordered w.journal
  pending : ∀ e, w.pending = some e → e ∈ w.journal
  fine : ∀ id call, w.calls id = some call → Fine w.journal call

variable {journal : List Event} {e : Event}

theorem served_grows {more : List Event} (served : Served journal call n) : Served (journal ++ more) call n := by
  obtain ⟨e, member, holds, same⟩ := served.known
  exact ⟨⟨e, mem_append_left more member, holds, same⟩, served.named, served.answer⟩

theorem fine_grows {more : List Event} (fine : Fine journal call) : Fine (journal ++ more) call :=
  ⟨fine.mine, fine.noted, fun n due => served_grows (fine.served n due)⟩

theorem kept_grows (kept : Kept w) {e : Event} (last : e.sequence = w.journal.length + 1) :
    Kept { w with journal := w.journal ++ [e] } :=
  ⟨ordered_append kept.ordered last, fun e' waits => mem_append_left _ (kept.pending e' waits),
    fun id call known => fine_grows (kept.fine id call known)⟩

theorem kept_set (kept : Kept w) (fine : Fine w.journal call) : Kept (setCall w id call) := by
  refine ⟨kept.ordered, kept.pending, fun other theirs known => ?_⟩
  have updated : (if other = id then some call else w.calls other) = some theirs :=
    (Function.update_apply w.calls id (some call) other).symm.trans known
  split at updated
  · cases updated
    exact fine
  · exact kept.fine other theirs updated

theorem fine_error (fine : Fine journal call) (nothing : call.due = none) :
    Fine journal { call with stage := .returned none } := by
  refine ⟨fine.mine, fun active => (by cases active), fun n due => ?_⟩
  cases nothing.symm.trans due

theorem fine_stage (fine : Fine journal call) (active : returned call = false) {stage : Stage}
    (still : returned { call with stage } = false) : Fine journal { call with stage } := by
  refine ⟨fine.mine, fun _ => fine.noted active, fun n due => ?_⟩
  have served := fine.served n due
  refine ⟨served.known, served.named, Or.inr ⟨still, ?_⟩⟩
  rcases served.answer with ⟨e, done, _⟩ | ⟨_, waits⟩
  · rw [returned, done] at active
    cases active
  · exact waits

theorem fine_returns (fine : Fine journal call) (holds : wanted e call)
    (earlier : ∀ n, call.due = some n → e.sequence ≤ n) (slot : Option Event) (mine : ∀ e, slot = some e → e.requestID = call.requestID) :
    Fine journal { call with slot, stage := .returned (some e) } := by
  refine ⟨mine, fun active => (by cases active), fun n due => ?_⟩
  have served := fine.served n due
  exact ⟨served.known, served.named, Or.inl ⟨e, rfl, holds, earlier n due⟩⟩

section
variable (kept : Kept w) (known : w.calls id = some call)
include kept known

theorem send_kept (stage : call.stage = .registered) {chat fails : Bool}
    (careful : call.due ≠ none → fails = false) : Kept (send w id call chat fails) := by
  have fine := kept.fine id call known
  have active : returned call = false := by rw [returned, stage]
  unfold send
  split
  · next refused =>
    apply kept_set kept (fine_error fine ?_)
    by_contra due
    obtain ⟨n, due'⟩ := ne_none_iff_exists'.mp due
    obtain ⟨some_, short⟩ := (fine.served n due').named
    rcases refused with fails | none | long
    · rw [careful due] at fails
      cases fails
    · exact some_ none
    · omega
  · split
    · exact kept_set kept (fine_stage fine active rfl)
    · exact kept_set (kept_grows kept rfl) (fine_grows (fine_stage fine active rfl))

theorem lookup_kept (stage : call.stage = .looking) {fails : Bool}
    (careful : call.due ≠ none → fails = false) : Kept (lookup w id call fails) := by
  have fine := kept.fine id call known
  have active : returned call = false := by rw [returned, stage]
  unfold lookup
  split
  · next fails =>
    apply kept_set kept (fine_error fine ?_)
    by_contra due
    rw [careful due] at fails
    cases fails
  · split
    · next e found =>
      have holds : wanted e call := @find?_some _ (fun e => wanted e call) _ _ found
      refine kept_set kept (fine_returns fine holds (fun n due => ?_) call.slot fine.mine)
      obtain ⟨other, member, due_holds, rfl⟩ := (fine.served n due).known
      obtain ⟨first, found', _, earlier⟩ := @first_found _ _ (fun e => wanted e call) kept.ordered.increasing member due_holds
      cases found.symm.trans found'
      exact earlier
    · exact kept_set kept (fine_stage fine active rfl)

theorem receive_kept (stage : call.stage = .waiting) (slot : call.slot = some e) : Kept (receive w id call e) := by
  have fine := kept.fine id call known
  have active : returned call = false := by rw [returned, stage]
  have due_slot : ∀ n, call.due = some n → wanted e call ∧ e.sequence ≤ n := by
    intro n due
    rcases (fine.served n due).answer with ⟨_, done, _⟩ | ⟨_, other, holds, right⟩
    · cases stage.symm.trans done
    · cases slot.symm.trans holds
      exact right
  unfold receive
  split
  · next same =>
    refine kept_set kept (fine_returns fine (decide_eq_true ⟨fine.mine e slot, same⟩) (fun n due => (due_slot n due).2) none ?_)
    exact nofun
  · next other =>
    refine kept_set kept ⟨fun _ absurd => (by cases absurd), fun _ _ _ absurd => (by cases absurd), fun n due => ?_⟩
    exact absurd (of_decide_eq_true (due_slot n due).1).2 other

end

theorem offer_fine (fine : Fine journal call) (member : e ∈ journal)
    (careful : returned call = false → wanted e call → call.ended = false →
      e.requestID ≠ "" ∧ e.requestID.utf8ByteSize ≤ 160 ∧ ∀ other, call.slot = some other → wanted other call) :
    Fine journal (offer e call) := by
  unfold offer
  split
  · exact fine
  · next active =>
    rw [Bool.not_eq_true] at active
    have kept_slot : ∀ other, call.slot = some other →
        (if e.requestID ≠ "" ∧ e.requestID = call.requestID then call.slot.or (some e) else call.slot) = some other := by
      intro other slot
      rw [slot]
      split <;> rfl
    have of_slot : ∀ other, (if e.requestID ≠ "" ∧ e.requestID = call.requestID then call.slot.or (some e) else call.slot) =
        some other → call.slot = some other ∨ call.slot = none ∧ other = e ∧ e.requestID = call.requestID := by
      intro other slot
      split at slot
      · next mine =>
        cases before : call.slot with
        | some =>
          rw [before, some_or] at slot
          exact .inl slot
        | none =>
          rw [before, none_or] at slot
          exact .inr ⟨rfl, (some.inj slot).symm, mine.2⟩
      · exact .inl slot
    have old (n : Nat) (due : call.due = some n) : ∃ e, call.slot = some e ∧ wanted e call ∧ e.sequence ≤ n := by
      rcases (fine.served n due).answer with ⟨_, done, _⟩ | ⟨_, waits⟩
      · rw [returned, done] at active
        cases active
      · exact waits
    refine ⟨fun other slot => ?_, fun _ ended other slot holds => ?_, fun n due => ?_⟩
    · rcases of_slot other slot with before | ⟨_, rfl, mine⟩
      · exact fine.mine other before
      · exact mine
    · show (if wanted e call ∧ !call.ended then call.due.or (some e.sequence) else call.due) ≠ none
      have open_ : call.ended = false := ended
      rcases of_slot other slot with before | ⟨_, rfl, _⟩
      · have noted := fine.noted active open_ other before holds
        split
        · cases due : call.due with
          | some => exact nofun
          | none => exact absurd due noted
        · exact noted
      · have now : wanted other call := holds
        rw [if_pos ⟨now, by rw [open_]; rfl⟩]
        cases call.due <;> exact nofun
    · -- The first response that comes in time is the one that is due.
      have served_old (due : call.due = some n) : Served journal { call with
          slot := if e.requestID ≠ "" ∧ e.requestID = call.requestID then call.slot.or (some e) else call.slot
          due := if wanted e call ∧ !call.ended then call.due.or (some e.sequence) else call.due } n := by
        obtain ⟨first, slot, holds, early⟩ := old n due
        have served := fine.served n due
        exact ⟨served.known, served.named, .inr ⟨active, first, kept_slot first slot, holds, early⟩⟩
      dsimp only at due
      split at due
      · next now =>
        obtain ⟨holds, ended⟩ := now
        have ended : call.ended = false := by simpa using ended
        rcases eq_none_or_eq_some call.due with before | ⟨m, before⟩
        · rw [before, none_or] at due
          cases due
          obtain ⟨some_, short, only⟩ := careful active holds ended
          have mine : e.requestID = call.requestID := (of_decide_eq_true holds).1
          have empty : call.slot = none := by
            cases slot : call.slot with
            | none => rfl
            | some other => exact absurd before (fine.noted active ended other slot (only other slot))
          refine ⟨⟨e, member, holds, rfl⟩, ⟨mine ▸ some_, mine ▸ short⟩, .inr ⟨active, e, ?_, holds, Nat.le_refl _⟩⟩
          show (if e.requestID ≠ "" ∧ e.requestID = call.requestID then call.slot.or (some e) else call.slot) = some e
          rw [if_pos ⟨some_, mine⟩, empty, none_or]
        · rw [before, some_or] at due
          exact served_old (before.trans due)
      · exact served_old due

theorem deliver_kept (kept : Kept w) (pending : w.pending = some e) (careful : Careful w .deliver) :
    Kept { w with pending := none, calls := fun id => (w.calls id).map (offer e) } := by
  refine ⟨kept.ordered, fun _ absurd => (by cases absurd), fun id after known => ?_⟩
  obtain ⟨call, before, rfl⟩ := map_eq_some_iff.mp known
  apply offer_fine (kept.fine id call before) (kept.pending e pending)
  exact fun active holds ended => careful e pending id call before active holds ended

theorem end_kept (kept : Kept w) (known : w.calls id = some call) : Kept (setCall w id { call with ended := true }) := by
  have fine := kept.fine id call known
  refine kept_set kept ⟨fine.mine, fun _ absurd => (by cases absurd), fun n due => ?_⟩
  have served := fine.served n due
  exact ⟨served.known, served.named, served.answer⟩

theorem append_kept (kept : Kept w) (eventType requestID : String) (fails : Bool) :
    Kept (append w eventType requestID fails) := by
  unfold append
  generalize (if eventType = "" then "relay.event" else eventType) = type
  dsimp only
  split
  · exact kept
  · have grown := @kept_grows w kept ⟨type, requestID, w.journal.length + 1⟩ rfl
    refine ⟨grown.ordered, fun e waits => ?_, grown.fine⟩
    cases waits
    exact mem_append_right _ (mem_singleton.mpr rfl)

theorem register_kept (kept : Kept w) (id : Nat) (requestID responseType : String) :
    Kept (setCall w id ⟨requestID, responseType, .registered, none, false, none⟩) := by
  apply kept_set kept
  constructor
  · exact nofun
  · exact nofun
  · exact nofun

theorem step_kept {action : Action} {next : World} (careful : Careful w action) (kept : Kept w)
    (stepped : step w action = some next) : Kept next := by
  cases action with
  | register id requestID responseType =>
    obtain ⟨_, same⟩ := ite_none_right_eq_some.mp stepped
    cases same
    exact register_kept kept id requestID responseType
  | send =>
    obtain ⟨call, known, called⟩ := bind_eq_some_iff.mp stepped
    obtain ⟨stage, same⟩ := ite_none_right_eq_some.mp called
    cases same
    exact send_kept kept known stage (careful call known)
  | lookup =>
    obtain ⟨call, known, called⟩ := bind_eq_some_iff.mp stepped
    obtain ⟨stage, same⟩ := ite_none_right_eq_some.mp called
    cases same
    exact lookup_kept kept known stage (careful call known)
  | receive =>
    obtain ⟨call, known, called⟩ := bind_eq_some_iff.mp stepped
    obtain ⟨stage, received⟩ := ite_none_right_eq_some.mp called
    obtain ⟨e, slot, rfl⟩ := map_eq_some_iff.mp received
    exact receive_kept kept known stage slot
  | endContext =>
    obtain ⟨call, known, called⟩ := bind_eq_some_iff.mp stepped
    cases called
    exact end_kept kept known
  | giveUp id =>
    obtain ⟨call, known, called⟩ := bind_eq_some_iff.mp stepped
    obtain ⟨_, same⟩ := ite_none_right_eq_some.mp called
    cases same
    exact kept_set kept (fine_error (kept.fine id call known) (careful call known))
  | append eventType requestID fails =>
    cases pending : w.pending with
    | some =>
      rw [step, pending] at stepped
      cases stepped
    | none =>
      rw [step, pending] at stepped
      cases stepped
      exact append_kept kept eventType requestID fails
  | deliver =>
    obtain ⟨e, pending, rfl⟩ := map_eq_some_iff.mp stepped
    exact deliver_kept kept pending careful

theorem set_known (w : World) (id : Nat) (call : Call) : (setCall w id call).calls id = some call := Function.update_self ..

section
variable (kept : Kept w) (known : w.calls id = some call) (due : call.due = some n)
include kept known due

theorem waiting_answers (stage : call.stage = .waiting) : Answers w id n := by
  have active : returned call = false := by rw [returned, stage]
  rcases ((kept.fine id call known).served n due).answer with ⟨_, done, _⟩ | ⟨_, e, slot, holds, earlier⟩
  · cases stage.symm.trans done
  · have stepped : step w (.receive id) = some (receive w id call e) := by
      show (w.calls id).bind (fun call => stepCall w id call (.receive id)) = _
      rw [known, bind_some, stepCall, if_pos stage, slot, map_some]
    refine ⟨[.receive id], receive w id call e, by simp [proceeds], by rw [run, stepped]; rfl, ?_⟩
    rw [receive, if_pos (of_decide_eq_true holds).2]
    exact ⟨_, e, set_known .., rfl, holds, earlier⟩

theorem looking_answers (stage : call.stage = .looking) : Answers w id n := by
  obtain ⟨other, member, due_holds, rfl⟩ := ((kept.fine id call known).served n due).known
  obtain ⟨e, found, holds, earlier⟩ := @first_found _ _ (fun e => wanted e call) kept.ordered.increasing member due_holds
  have stepped : step w (.lookup id false) = some (setCall w id { call with stage := .returned (some e) }) := by
    show (w.calls id).bind (fun call => stepCall w id call (.lookup id false)) = _
    rw [known, bind_some, stepCall, if_pos stage, lookup, if_neg Bool.false_ne_true, found]
  refine ⟨[.lookup id false], _, by simp [proceeds], by rw [run, stepped]; rfl, ?_⟩
  exact ⟨_, e, set_known .., rfl, holds, earlier⟩

theorem registered_answers (stage : call.stage = .registered) : Answers w id n := by
  have stepped : step w (.send id true false) = some (send w id call true false) := by
    show (w.calls id).bind (fun call => stepCall w id call (.send id true false)) = _
    rw [known, bind_some, stepCall, if_pos stage]
  have sent : Kept (send w id call true false) := send_kept kept known stage fun _ => rfl
  obtain ⟨some_, short⟩ := ((kept.fine id call known).served n due).named
  have onward : Answers (send w id call true false) id n := by
    unfold send at sent ⊢
    rw [if_neg (by simp [some_, Nat.not_lt.mpr short])] at sent ⊢
    by_cases duplicate : hasRequest w.journal call.requestID
    · rw [if_pos duplicate] at sent ⊢
      exact looking_answers sent (set_known ..) due rfl
    · rw [if_neg duplicate] at sent ⊢
      exact waiting_answers sent (set_known ..) due rfl
  obtain ⟨actions, next, alone, ran, answered⟩ := onward
  refine ⟨.send id true false :: actions, next, ?_, ?_, answered⟩
  · rw [all_cons, alone]
    simp [proceeds]
  · rw [run, stepped, bind_some, ran]

end

theorem kept_delivered (kept : Kept w) : Delivered w := by
  intro id call n known due
  split
  · next done =>
    rcases ((kept.fine id call known).served n due).answer with ⟨e, answer, holds, earlier⟩ | ⟨active, _⟩
    · exact ⟨call, e, known, answer, holds, earlier⟩
    · rw [active] at done
      cases done
  · next active =>
    cases stage : call.stage with
    | registered => exact registered_answers kept known due stage
    | looking => exact looking_answers kept known due stage
    | waiting => exact waiting_answers kept known due stage
    | returned => exact absurd (by rw [returned, stage]) active

theorem start_kept : Kept start := by
  constructor
  · exact ⟨Pairwise.nil, fun _ member => absurd member not_mem_nil⟩
  · exact nofun
  · exact nofun

theorem requests_delivered {actions : List Action} (careful : Guarded step Careful start actions)
    (ran : run step start actions = some w) : Delivered w := by
  apply kept_delivered
  exact guarded_run_invariant Kept (fun _ _ _ careful kept => step_kept careful kept) careful ran start_kept

/-- A response that comes before the call waits for it. -/
theorem response_delivered : ∃ w, run step start [.register 0 "r" "status", .send 0 false false,
    .append "status" "r" false, .deliver, .endContext 0] = some w ∧ Delivered w := by
  refine ⟨_, rfl, @requests_delivered _ [.register 0 "r" "status", .send 0 false false, .append "status" "r" false,
    .deliver, .endContext 0] ?_ rfl⟩
  refine ⟨trivial, fun next stepped => ?_⟩
  cases stepped
  refine ⟨fun call known _ => rfl, fun next stepped => ?_⟩
  cases stepped
  refine ⟨trivial, fun next stepped => ?_⟩
  cases stepped
  refine ⟨?_, fun next stepped => ?_⟩
  · intro e pending id call known _ _ _
    cases pending
    cases id with
    | zero =>
      cases known
      exact ⟨by decide, by decide, nofun⟩
    | succ => cases known
  · cases stepped
    exact ⟨trivial, fun _ _ => trivial⟩

/-- The second event of a request is dropped when the call has not yet taken the first. -/
theorem response_dropped : ∃ w, run step start [.register 0 "r" "status", .send 0 false false,
    .append "progress" "r" false, .deliver, .append "status" "r" false, .deliver, .receive 0] = some w ∧ ¬ Delivered w := by
  refine ⟨_, rfl, fun delivered => ?_⟩
  obtain ⟨actions, next, alone, ran, call, e, known, done, _⟩ := delivered 0 _ 3 rfl rfl
  cases actions with
  | nil =>
    cases ran
    cases known
    cases done
  | cons action =>
    -- No step of the call is enabled.
    obtain ⟨_, stepped, _⟩ := run_cons ran
    obtain ⟨own, _⟩ := Bool.and_eq_true_iff.mp alone
    cases action with
    | send | lookup =>
      cases (of_decide_eq_true own).1
      cases stepped
    | receive =>
      cases of_decide_eq_true own
      cases stepped
    | _ => cases own

end Runs

end PieRelay.SynchronousRequests
