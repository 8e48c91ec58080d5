import PieRelay.ControlPlane
import PieRelay.JsonScanner

/-!
The event journal of one conversation, executor-manager/internal/chatgateway/journal.go. Its index of
request ids is read off the file, so it is a function of the events. An event also says which function
has appended it, which the file does not. Whether there is room in the file and whether the disk works
comes with each call. Left out: the sequence numbers, which are the positions, and the times.
-/
namespace PieRelay.ChatJournal
open ControlPlane (Table)
open JsonScanner (Bytes)

/-- Who appends: `Send`, `completeActive`, or `recordRaw` for a frame or for a state of the transport. -/
inductive Writer where
  | send
  | completion
  | frame
  | transport
  deriving DecidableEq

structure Event where
  type : String
  requestID : String
  data : Bytes
  writer : Writer
  deriving DecidableEq

abbrev Journal := List Event

structure Disk where
  maxEvent : Nat
  room : Bool
  works : Bool

inductive AppendError where
  | invalid
  | duplicate
  | full
  | failed
  deriving DecidableEq

def accepted : String := "request.accepted"

def completed : String := "request.completed"

def isIdempotencyEvent (eventType : String) : Bool := eventType = accepted ∨ eventType = "control.accepted"

def hasRequest (journal : Journal) (requestID : String) : Bool :=
  requestID ≠ "" ∧ journal.any fun event => event.requestID = requestID ∧ isIdempotencyEvent event.type

def append (disk : Disk) (journal : Journal) (event : Event) : Except AppendError Journal :=
  if event.type = "" ∨ 96 < event.type.utf8ByteSize ∨ disk.maxEvent < event.data.length then .error .invalid
  else if event.requestID ≠ "" ∧ isIdempotencyEvent event.type ∧ hasRequest journal event.requestID then
    .error .duplicate
  else if event.type ≠ completed ∧ ¬ disk.room then .error .full
  else if ¬ disk.works then .error .failed
  else .ok (journal ++ [event])

def scan (pending : Table Bytes) (event : Event) : Table Bytes :=
  if event.type = accepted then pending.insert event.requestID event.data
  else if event.type = completed then pending.erase event.requestID
  else pending

def unfinished (journal : Journal) : Table Bytes := journal.foldl scan ∅

def pendingChatRequest (journal : Journal) : Except String (Option (String × Bytes)) :=
  match (unfinished journal).entries with
  | [] => .ok none
  | [⟨requestID, data⟩] => .ok (some (requestID, data))
  | _ => .error "chat journal contains multiple unfinished requests"

variable {journal : Journal}

theorem append_ok {disk : Disk} {next : Journal} {event : Event}
    (appended : append disk journal event = .ok next) : next = journal ++ [event] := by
  unfold append at appended
  repeat' split at appended
  all_goals cases appended
  rfl

theorem unfinished_append (journal : Journal) (event : Event) :
    unfinished (journal ++ [event]) = scan (unfinished journal) event := by
  rw [unfinished, List.foldl_append]
  rfl

/-- A request that is unfinished after an event was so before, or is the one that the event accepts. -/
theorem mem_unfinished_append {event : Event} {requestID : String}
    (still : requestID ∈ unfinished (journal ++ [event])) :
    (requestID ∈ unfinished journal ∧ (event.type = completed → requestID ≠ event.requestID)) ∨
      (event.type = accepted ∧ requestID = event.requestID) := by
  rw [unfinished_append, scan] at still
  split at still
  · next taken =>
    rcases (AList.mem_insert _).mp still with rfl | before
    · exact .inr ⟨taken, rfl⟩
    · refine .inl ⟨before, fun done => ?_⟩
      rw [taken] at done
      exact absurd done (by decide)
  · split at still
    · obtain ⟨apart, before⟩ := AList.mem_erase.mp still
      exact .inl ⟨before, fun _ => apart⟩
    · next other => exact .inl ⟨still, fun done => absurd done other⟩

theorem pending_single
    (single : ∀ first second, first ∈ unfinished journal → second ∈ unfinished journal → first = second) :
    ∃ pending, pendingChatRequest journal = .ok pending ∧
      ∀ requestID, requestID ∈ unfinished journal ↔ pending.map Prod.fst = some requestID := by
  have keys : ∀ requestID, requestID ∈ unfinished journal ↔ requestID ∈ (unfinished journal).entries.map Sigma.fst :=
    fun requestID => AList.mem_keys
  have once : ((unfinished journal).entries.map Sigma.fst).Nodup := (unfinished journal).nodupKeys
  unfold pendingChatRequest
  simp only [keys] at single ⊢
  generalize (unfinished journal).entries = entries at single once ⊢
  cases entries with
  | nil => exact ⟨none, rfl, fun requestID => by simp⟩
  | cons first rest =>
    cases rest with
    | nil =>
      refine ⟨some (first.1, first.2), rfl, fun requestID => ?_⟩
      simp [eq_comm]
    | cons second =>
      have same := single first.1 second.1 (by simp) (by simp)
      simp [same] at once

end PieRelay.ChatJournal
