import PieRelay.JournalFile
import PieRelay.PreviewRecords
import PieRelay.Executions

/-!
The ledger of what the language models have cost, executor-manager/internal/usage, and the worker that brings the events
of the chat journals into it, cmd/manager/usage_reconciler.go. `unmarshal`, the arithmetic of costs and the column types
of PostgreSQL are parameters; costs are the bits of a float64. The events of a journal are what `Events` reads of a file
that is whole, as `JournalReplay` has it. Left out: the fields of an event that are only shown, and the queries.
-/
namespace PieRelay.UsageLedger
open ControlPlane (Table values)
open JsonScanner (Bytes)
open PreviewRecords (trimSpace)
open Timestamps (Instant)

structure ModelMeasurement where
  inputTokens : Int
  outputTokens : Int
  cacheReadInputTokens : Int
  cacheCreationInputTokens : Int
  webSearchRequests : Int
  costUSD : UInt64
  canonicalModel : String
  provider : String
  deriving DecidableEq

structure UsageEvent where
  type : String
  schemaVersion : Int
  resultID : String
  queryRunID : String
  sessionID : String
  subtype : String
  reportedAt : Instant
  modelUsage : Table ModelMeasurement

structure Attribution where
  integrationID : String
  integrationUserID : String
  ownerUserID : String
  projectID : String
  conversationID : String
  requestID : String
  agentSessionID : String
  receivedAt : Instant
  deriving DecidableEq

structure Price where
  id : Int
  input : UInt64
  output : UInt64
  cacheRead : UInt64
  cacheCreation : UInt64
  webSearch : UInt64
  deriving DecidableEq

abbrev Prices := String → String → Instant → Option Price

structure Row where
  attribution : Attribution
  queryRunID : String
  resultID : String
  agentSessionID : String
  subtype : String
  provider : String
  model : String
  canonicalModel : String
  measurement : ModelMeasurement
  calculatedCost : UInt64
  priceID : Option Int
  costSource : String
  rawEvent : Bytes
  reportedAt : Option Instant
  deriving DecidableEq

structure Key where
  conversationID : String
  resultID : String
  model : String
  deriving DecidableEq

def Row.key (row : Row) : Key := ⟨row.attribution.conversationID, row.resultID, row.model⟩

abbrev Ledger := List Row

structure Backend where
  unmarshal : Bytes → Option UsageEvent
  cost : ModelMeasurement → Price → UInt64
  /-- PostgreSQL can store the values in the columns they are for. -/
  fits : Row → Bool

inductive Transaction where
  | works
  | fails
  | lost
  deriving DecidableEq

inductive UsageError where
  | invalidEvent
  | database
  deriving DecidableEq

def finiteNonNegative (bits : UInt64) : Bool := bits < 0x7ff0000000000000 ∨ bits = 0x8000000000000000

def normalized (value fallback : String) : String :=
  let trimmed := trimSpace value
  if trimmed ≠ "" then trimmed else fallback

def nullableTime (value : Instant) : Option Instant := if value = JournalFile.zeroTime then none else some value

def validID (value : String) : Bool := trimSpace value ≠ "" ∧ value.utf8ByteSize ≤ 512

def validMeasurement (model : String) (value : ModelMeasurement) : Bool :=
  trimSpace model ≠ "" ∧ model.utf8ByteSize ≤ 256 ∧ value.provider.utf8ByteSize ≤ 128 ∧
    value.canonicalModel.utf8ByteSize ≤ 256 ∧ 0 ≤ value.inputTokens ∧ 0 ≤ value.outputTokens ∧
    0 ≤ value.cacheReadInputTokens ∧ 0 ≤ value.cacheCreationInputTokens ∧ 0 ≤ value.webSearchRequests ∧
    finiteNonNegative value.costUSD

def validate (attribution : Attribution) (event : UsageEvent) (raw : Bytes) : Bool :=
  [attribution.integrationID, attribution.integrationUserID, attribution.ownerUserID, attribution.projectID,
    attribution.conversationID, attribution.requestID, event.resultID, event.queryRunID].all validID ∧
  event.type = "usage" ∧ event.schemaVersion = 1 ∧ 0 < event.modelUsage.entries.length ∧
  event.modelUsage.entries.length ≤ 32 ∧ 0 < raw.length ∧ raw.length ≤ 1048576 ∧
  attribution.receivedAt ≠ JournalFile.zeroTime ∧
  event.modelUsage.entries.all fun entry => validMeasurement entry.1 entry.2

def rowFor (b : Backend) (prices : Prices) (attribution : Attribution) (event : UsageEvent) (raw : Bytes)
    (model : String) (measurement : ModelMeasurement) : Row :=
  let provider := normalized measurement.provider "unknown"
  let canonicalModel := normalized measurement.canonicalModel model
  let pricing := prices provider canonicalModel attribution.receivedAt
  { attribution, queryRunID := event.queryRunID, resultID := event.resultID
    agentSessionID := normalized event.sessionID attribution.agentSessionID, subtype := event.subtype
    provider, model, canonicalModel, measurement
    calculatedCost := (pricing.map (b.cost measurement)).getD measurement.costUSD
    priceID := pricing.map Price.id
    costSource := if pricing.isSome then "manager-price-table" else "claude-agent-sdk"
    rawEvent := raw, reportedAt := nullableTime event.reportedAt }

def rowsOf (b : Backend) (prices : Prices) (attribution : Attribution) (event : UsageEvent) (raw : Bytes) : List Row :=
  (event.modelUsage.entries.insertionSort fun x y => x.1 ≤ y.1).map fun entry =>
    rowFor b prices attribution event raw entry.1 entry.2

def insertRow (ledger : Ledger) (row : Row) : Ledger :=
  if ledger.any fun other => other.key = row.key then ledger else ledger ++ [row]

def record (b : Backend) (prices : Prices) (ledger : Ledger) (attribution : Attribution) (event : UsageEvent)
    (raw : Bytes) (transaction : Transaction) : Ledger × Option UsageError :=
  if ¬ validate attribution event raw then (ledger, some .invalidEvent)
  else if transaction = .fails ∨ ¬ (rowsOf b prices attribution event raw).all b.fits then (ledger, some .database)
  else ((rowsOf b prices attribution event raw).foldl insertRow ledger,
    if transaction = .works then none else some .database)

structure Conversation where
  id : String
  integrationID : String
  integrationUserID : String
  ownerUserID : String
  projectID : String
  agentSessionID : String
  deriving DecidableEq

def attributionOf (conversation : Conversation) (requestID : String) (receivedAt : Instant) : Attribution :=
  ⟨conversation.integrationID, conversation.integrationUserID, conversation.ownerUserID, conversation.projectID,
    conversation.id, requestID, conversation.agentSessionID, receivedAt⟩

def recordUsageAt (b : Backend) (prices : Prices) (ledger : Ledger) (conversation : Conversation) (requestID : String)
    (raw : Bytes) (receivedAt : Instant) (transaction : Transaction) : Ledger × Option UsageError :=
  if receivedAt = JournalFile.zeroTime then (ledger, some .invalidEvent)
  else match b.unmarshal raw with
    | none => (ledger, some .invalidEvent)
    | some event => record b prices ledger (attributionOf conversation requestID receivedAt) event raw transaction

structure Event where
  sequence : Nat
  type : String
  requestID : String
  data : Bytes
  time : Instant
  deriving DecidableEq

abbrev Journal := List Event

def lastSequence (journal : Journal) : Nat := (journal.getLast?.map Event.sequence).getD 0

def append (journal : Journal) (event : Event) : Journal :=
  journal ++ [{ event with sequence := lastSequence journal + 1 }]

def eventsAfter (journal : Journal) (after limit : Nat) : List Event :=
  (journal.filter fun event => after < event.sequence).take limit

structure World where
  conversations : Table Conversation
  journals : Table Journal
  ledger : Ledger
  /-- How far the worker has come with each conversation. -/
  cursors : Table Nat
  prices : Prices

def journalOf (w : World) (id : String) : Journal := (w.journals.lookup id).getD []

def cursorOf (w : World) (id : String) : Nat := (w.cursors.lookup id).getD 0

/-- What becomes of the reads of journals, by where they start, and of the transactions for their events. -/
structure Outcomes where
  reads : String → Nat → Bool
  writes : String → Nat → Transaction

def working : Outcomes := ⟨fun _ _ => true, fun _ _ => .works⟩

def recordPage (b : Backend) (o : Outcomes) (conversation : Conversation) : World → List Event → World × Bool
  | w, [] => (w, true)
  | w, event :: rest =>
    let recorded : Ledger × Option UsageError :=
      if event.type = "usage" then
        recordUsageAt b w.prices w.ledger conversation event.requestID event.data event.time
          (o.writes conversation.id event.sequence)
      else (w.ledger, none)
    if recorded.2 = none then
      recordPage b o conversation
        { w with ledger := recorded.1, cursors := w.cursors.insert conversation.id event.sequence } rest
    else ({ w with ledger := recorded.1 }, false)

def pageSize : Nat := 1000

/-- The loop over the pages of a conversation; each round comes further in its journal. -/
def reconcileConversation (b : Backend) (o : Outcomes) (conversation : Conversation) : Nat → World → World
  | 0, w => w
  | fuel + 1, w =>
    if o.reads conversation.id (cursorOf w conversation.id) then
      let page := eventsAfter (journalOf w conversation.id) (cursorOf w conversation.id) pageSize
      let done := recordPage b o conversation w page
      if done.2 ∧ page.length = pageSize then reconcileConversation b o conversation fuel done.1 else done.1
    else w

def reconcile (b : Backend) (o : Outcomes) (w : World) : World :=
  (values w.conversations).foldl
    (fun w conversation => reconcileConversation b o conversation ((journalOf w conversation.id).length + 1) w) w

inductive Step where
  | put (conversation : Conversation)
  | delete (id : String)
  | append (id : String) (event : Event)
  | remove (id : String)
  | direct (id requestID : String) (data : Bytes) (now : Instant) (transaction : Transaction)
  | reprice (prices : Prices)
  | restart
  | pass (outcomes : Outcomes)

def step (b : Backend) (w : World) : Step → Option World
  | .put conversation => some { w with conversations := w.conversations.insert conversation.id conversation }
  | .delete id => some { w with conversations := w.conversations.erase id }
  | .append id event =>
    if JournalFile.safeJournalID id then
      some { w with journals := w.journals.insert id (append (journalOf w id) event) }
    else none
  | .remove id => some { w with journals := w.journals.erase id }
  | .direct id requestID data now transaction =>
    match w.conversations.lookup id with
    | some conversation =>
      if requestID = "" then some w
      else some { w with
        ledger := (recordUsageAt b w.prices w.ledger conversation requestID data now transaction).1 }
    | none => some w
  | .reprice prices => some { w with prices }
  | .restart => some { w with cursors := ∅ }
  | .pass outcomes => some (reconcile b outcomes w)

def start (prices : Prices) : World := ⟨∅, ∅, [], ∅, prices⟩

section Recording
variable {b : Backend} {prices : Prices} {ledger : Ledger}

def keysOf (conversation : String) (event : UsageEvent) : List Key :=
  event.modelUsage.keys.map fun model => ⟨conversation, event.resultID, model⟩

def acceptedEvent (b : Backend) (conversation : Conversation) (requestID : String) (raw : Bytes) (receivedAt : Instant) :
    Option UsageEvent :=
  if receivedAt = JournalFile.zeroTime then none
  else (b.unmarshal raw).filter fun event => validate (attributionOf conversation requestID receivedAt) event raw

def storable (b : Backend) (prices : Prices) (conversation : Conversation) (requestID : String) (raw : Bytes)
    (receivedAt : Instant) : Option UsageEvent :=
  (acceptedEvent b conversation requestID raw receivedAt).filter fun event =>
    (rowsOf b prices (attributionOf conversation requestID receivedAt) event raw).all b.fits

theorem rows_keys (attribution : Attribution) (event : UsageEvent) (raw : Bytes) (key : Key) :
    key ∈ (rowsOf b prices attribution event raw).map Row.key ↔ key ∈ keysOf attribution.conversationID event := by
  simp only [rowsOf, keysOf, AList.keys, List.keys, List.map_map, List.mem_map, List.mem_insertionSort]
  rfl

theorem insert_row_keys (row : Row) (key : Key) :
    key ∈ (insertRow ledger row).map Row.key ↔ key ∈ ledger.map Row.key ∨ key = row.key := by
  unfold insertRow
  split
  · next present =>
    constructor
    · exact Or.inl
    · rintro (known | rfl)
      · exact known
      · obtain ⟨other, member, same⟩ := List.any_eq_true.mp present
        exact List.mem_map.mpr ⟨other, member, of_decide_eq_true same⟩
  · simp [or_comm]

theorem insert_row_nodup (row : Row) (nodup : (ledger.map Row.key).Nodup) : ((insertRow ledger row).map Row.key).Nodup := by
  unfold insertRow
  split
  · exact nodup
  · next absent =>
    rw [List.map_append, List.map_singleton, List.nodup_append]
    refine ⟨nodup, List.nodup_singleton _, ?_⟩
    rintro _ member _ here rfl
    rw [List.mem_singleton] at here
    obtain ⟨other, there, same⟩ := List.mem_map.mp member
    exact absent (List.any_eq_true.mpr ⟨other, there, decide_eq_true (same.trans here)⟩)

theorem insert_rows_keys (rows : List Row) (key : Key) :
    key ∈ (rows.foldl insertRow ledger).map Row.key ↔ key ∈ ledger.map Row.key ∨ key ∈ rows.map Row.key := by
  induction rows generalizing ledger with
  | nil => simp
  | cons row rest ih =>
    rw [List.foldl_cons, ih, insert_row_keys, List.map_cons, List.mem_cons, or_assoc]

theorem insert_rows_nodup (rows : List Row) (nodup : (ledger.map Row.key).Nodup) :
    ((rows.foldl insertRow ledger).map Row.key).Nodup := by
  induction rows generalizing ledger with
  | nil => exact nodup
  | cons row rest ih => exact ih (insert_row_nodup row nodup)

variable {conversation : Conversation} {requestID : String} {raw : Bytes} {receivedAt : Instant}

theorem accepted_read {event : UsageEvent}
    (accepted : acceptedEvent b conversation requestID raw receivedAt = some event) : b.unmarshal raw = some event := by
  unfold acceptedEvent at accepted
  split at accepted
  · cases accepted
  · exact (Option.filter_eq_some_iff.mp accepted).1

theorem storable_accepted {event : UsageEvent}
    (stored : storable b prices conversation requestID raw receivedAt = some event) :
    acceptedEvent b conversation requestID raw receivedAt = some event := (Option.filter_eq_some_iff.mp stored).1

/-- A recording leaves the ledger as it is, or adds the rows of the event. -/
theorem record_usage_cases (transaction : Transaction) :
    (∃ error, recordUsageAt b prices ledger conversation requestID raw receivedAt transaction = (ledger, some error) ∧
      (transaction = .works → storable b prices conversation requestID raw receivedAt = none)) ∨
    ∃ event, storable b prices conversation requestID raw receivedAt = some event ∧
      recordUsageAt b prices ledger conversation requestID raw receivedAt transaction =
        ((rowsOf b prices (attributionOf conversation requestID receivedAt) event raw).foldl insertRow ledger,
          if transaction = .works then none else some .database) := by
  unfold recordUsageAt storable acceptedEvent
  by_cases zero : receivedAt = JournalFile.zeroTime
  · exact .inl ⟨.invalidEvent, by rw [if_pos zero], fun _ => by rw [if_pos zero]; rfl⟩
  rw [if_neg zero, if_neg zero]
  cases read : b.unmarshal raw with
  | none => exact .inl ⟨.invalidEvent, rfl, fun _ => rfl⟩
  | some event =>
    by_cases valid : validate (attributionOf conversation requestID receivedAt) event raw
    · by_cases stores : (rowsOf b prices (attributionOf conversation requestID receivedAt) event raw).all b.fits
      · by_cases failed : transaction = .fails
        · refine .inl ⟨.database, ?_, ?_⟩
          · simp [record, valid, failed]
          · rintro rfl
            cases failed
        · refine .inr ⟨event, ?_, ?_⟩
          · simp only [Option.filter, valid, stores, ↓reduceIte]
          · simp [record, valid, failed, stores]
      · refine .inl ⟨.database, ?_, fun _ => ?_⟩
        · simp [record, valid, stores]
        · simp [Option.filter, valid, stores]
    · refine .inl ⟨.invalidEvent, ?_, fun _ => ?_⟩
      · simp [record, valid]
      · simp [Option.filter, valid]

end Recording
end PieRelay.UsageLedger
