import PieRelay.ControlPlane
import PieRelay.JsonRecords
import PieRelay.Timestamps

/-!
The journal file of a conversation, executor-manager/internal/chatgateway/journal.go, byte for byte: what `Append`
writes, what the readers make of it, and the index that a process keeps. Strings are bytes. Every call comes with what
the disk does. A file has at most 2^63 - 1 bytes. Left out: other conversations, whose files and indexes are their own,
contexts that are cancelled while a file is read, and `EventByRequestType`, which reads like `PendingChatRequest`.
-/
namespace PieRelay.JournalFile
open List Option
open JsonScanner (Bytes quote)
open JsonObjects (Fields Solid writeObject)
open JsonStrings (quoteString)
open JsonNumbers (readNat writeNat)
open JsonRecords (compacted nests nullWord readRecord unmarshalRecord)
open GoStrings (cleaned quoteBytes unquoteBytes validString)
open Timestamps (Instant readInstant writeInstant)

structure Event where
  sequence : Nat
  conversationID : String
  type : Bytes
  requestID : Bytes
  data : Bytes
  time : Instant
  deriving DecidableEq

def zeroTime : Instant := ⟨⟨1, 1, 1, 0, 0, 0, 0⟩, by decide⟩

def zeroEvent : Event := ⟨0, "", [], [], [], zeroTime⟩

def dataText (data : Bytes) : Option Bytes := if data = [] then some [] else compacted data

def fieldsOf (e : Event) (text : Bytes) : Fields :=
  [("sequence", writeNat e.sequence), ("conversationId", quoteString e.conversationID), ("type", quoteBytes e.type)] ++
    (if e.requestID = [] then [] else [("requestId", quoteBytes e.requestID)]) ++
    (if text = [] then [] else [("data", text)]) ++ [("at", writeInstant e.time)]

def marshal (e : Event) : Option Bytes := (dataText e.data).map fun text => writeObject (fieldsOf e text)

def foldRune (c : Char) : Char :=
  if 'a' ≤ c ∧ c ≤ 'z' then Char.ofNat (c.toNat - 32)
  else if c.toNat = 0x17f then 'S'
  else if c.toNat = 0x212a then 'K'
  else c

def isField (key name : String) : Bool := key = name ∨ key.toList.map foldRune = name.toList.map foldRune

def readUint (raw : Bytes) : Option Nat := (readNat raw).filter fun n => n < 2 ^ 64

def readText {α : Type} (raw : Bytes) (text : Bytes → α) : Option α := if raw.head? = some quote then some (text raw) else none

def assign (e : Event) (field : String × Bytes) : Option Event :=
  if isField field.1 "data" then some { e with data := field.2 }
  else if field.2 = nullWord then some e
  else if isField field.1 "sequence" then (readUint field.2).map fun sequence => { e with sequence }
  else if isField field.1 "conversationId" then
    (readText field.2 JsonStrings.unquote).map fun conversationID => { e with conversationID }
  else if isField field.1 "type" then (readText field.2 unquoteBytes).map fun type => { e with type }
  else if isField field.1 "requestId" then (readText field.2 unquoteBytes).map fun requestID => { e with requestID }
  else if isField field.1 "at" then (readInstant field.2).map fun time => { e with time }
  else some e

def eventOf (fields : Fields) : Option Event := fields.foldlM assign zeroEvent

def decodeEvents : Nat → Bytes → List Event × Bool
  | 0, _ => ([], false)
  | fuel + 1, data =>
    if JsonScanner.skipSpace data = [] then ([], true)
    else match readRecord data with
      | none => ([], false)
      | some (fields, rest) =>
        match eventOf fields with
        | none => ([], false)
        | some e =>
          let later := decodeEvents fuel rest
          (e :: later.1, later.2)

def decode (content : Bytes) : List Event × Bool := decodeEvents (content.length + 1) content

abbrev lineFeed : UInt8 := 0x0a
abbrev carriageReturn : UInt8 := 0x0d

def dropCR (line : Bytes) : Bytes := if line.getLast? = some carriageReturn then line.dropLast else line

/-- The lines that a scanner reads whose buffer takes so many bytes, and whether it comes to the end of the file. -/
def scanLines (buffer : Nat) : Nat → Bytes → List Bytes × Bool
  | 0, _ => ([], false)
  | fuel + 1, data =>
    if data = [] then ([], true)
    else
      let line := data.takeWhile (· ≠ lineFeed)
      if buffer ≤ line.length then ([], false)
      else
        let later := scanLines buffer fuel (data.drop (line.length + 1))
        (dropCR line :: later.1, later.2)

structure Options where
  maxBytes : Nat
  maxEvent : Nat
  small : maxEvent < 2 ^ 63

/-- `int(j.maxEvent+1024)`, which may wrap around; the buffer starts with 64 KiB. -/
def Options.buffer (o : Options) : Nat := max 65536 ((o.maxEvent + 1024 : Int).bmod 18446744073709551616).toNat

structure Journal where
  file : Option Bytes
  sequence : Nat
  requestIDs : Option (List Bytes)
  deriving DecidableEq

inductive Failure where
  | invalid
  | cancelled
  | duplicate
  | full
  | disk
  | decode
  | unfinished
  | tooLong
  deriving DecidableEq

/-- What becomes of a file that is opened and read: all of it, none, or only so many bytes. -/
inductive Reading where
  | whole
  | unopened
  | broken (read : Nat)
  deriving DecidableEq

/-- What becomes of a line: it is written, or the file is not opened, which may leave it empty, or only so many of its
    bytes are written, or all of them and then `Sync` or `Close` fails. -/
inductive Writing where
  | done
  | unopened (created : Bool)
  | failed (written : Nat)
  deriving DecidableEq

def bytes (text : String) : Bytes := text.toUTF8.toList

def accepted : Bytes := bytes "request.accepted"

def completed : Bytes := bytes "request.completed"

def isIdempotencyEvent (eventType : Bytes) : Bool := eventType = accepted ∨ eventType = bytes "control.accepted"

def noteEvent (j : Journal) (e : Event) : Journal := { j with
  sequence := max j.sequence e.sequence
  requestIDs := j.requestIDs.map fun ids =>
    if e.requestID ≠ [] ∧ isIdempotencyEvent e.type then e.requestID :: ids else ids }

def loadIndex (j : Journal) (reading : Reading) : Journal × Option Failure :=
  match j.requestIDs with
  | some _ => (j, none)
  | none =>
    let j := { j with requestIDs := some [] }
    match reading with
    | .unopened => (j, some .disk)
    | .whole =>
      match j.file with
      | none => (j, none)
      | some content =>
        let (events, ended) := decode content
        (events.foldl noteEvent j, if ended then none else some .decode)
    | .broken read =>
      match j.file with
      | none => (j, none)
      | some content => ((decode (content.take read)).1.foldl noteEvent j, some .disk)

def safeJournalID (value : String) : Bool :=
  value ≠ "" ∧ value.utf8ByteSize ≤ 160 ∧ value.toList.all fun c =>
    ('a' ≤ c ∧ c ≤ 'z') ∨ ('A' ≤ c ∧ c ≤ 'Z') ∨ ('0' ≤ c ∧ c ≤ '9') ∨ c = '-' ∨ c = '_' ∨ c = '.'

structure Request where
  type : Bytes
  requestID : Bytes
  data : Bytes
  time : Instant
  deriving DecidableEq

structure Disk where
  cancelled : Bool
  reading : Reading
  stat : Bool
  writing : Writing
  deriving DecidableEq

def healthy : Disk := ⟨false, .whole, true, .done⟩

def contentOf (j : Journal) : Bytes := j.file.getD []

def validRequest (o : Options) (conversation : String) (r : Request) : Bool :=
  safeJournalID conversation ∧ r.type ≠ [] ∧ r.type.length ≤ 96 ∧ r.data.length ≤ o.maxEvent

def isDuplicate (j : Journal) (r : Request) : Bool :=
  r.requestID ≠ [] ∧ isIdempotencyEvent r.type ∧ (j.requestIDs.getD []).contains r.requestID

def isFull (o : Options) (j : Journal) (stat : Bool) (r : Request) : Bool :=
  stat ∧ j.file.isSome ∧ r.type ≠ completed ∧ o.maxBytes < (contentOf j).length + r.data.length + 1024

def eventFor (conversation : String) (j : Journal) (r : Request) : Event :=
  ⟨(j.sequence + 1) % 2 ^ 64, conversation, r.type, r.requestID, r.data, r.time⟩

def written (j : Journal) (text : Bytes) : Journal := { j with file := some (contentOf j ++ text) }

def indexed (j : Journal) (e : Event) : Journal := { j with
  sequence := e.sequence
  requestIDs := j.requestIDs.map fun ids =>
    if e.requestID ≠ [] ∧ isIdempotencyEvent e.type then e.requestID :: ids else ids }

def lineOf (encoded : Bytes) : Bytes := encoded ++ [lineFeed]

def writeLine (j : Journal) (line : Bytes) : Writing → Journal × Bool
  | .done => if (contentOf j).length + line.length < 2 ^ 63 then (written j line, true) else (j, false)
  | .unopened created => (if created then written j [] else j, false)
  | .failed count => (if (contentOf j).length + count < 2 ^ 63 then written j (line.take count) else j, false)

def append (o : Options) (conversation : String) (j : Journal) (r : Request) (disk : Disk) :
    Journal × Except Failure Event :=
  if !validRequest o conversation r then (j, .error .invalid)
  else if disk.cancelled then (j, .error .cancelled)
  else match loadIndex j disk.reading with
    | (j, some failure) => (j, .error failure)
    | (j, none) =>
      if isDuplicate j r then (j, .error .duplicate)
      else if isFull o j disk.stat r then (j, .error .full)
      else
        let e := eventFor conversation j r
        match marshal e with
        | none => (j, .error .invalid)
        | some encoded =>
          match writeLine j (lineOf encoded) disk.writing with
          | (j, true) => (indexed j e, .ok e)
          | (j, false) => (j, .error .disk)

def hasRequest (j : Journal) (requestID : Bytes) (reading : Reading) : Journal × Except Failure Bool :=
  if requestID = [] then (j, .ok false)
  else match loadIndex j reading with
    | (j, some failure) => (j, .error failure)
    | (j, none) => (j, .ok ((j.requestIDs.getD []).contains requestID))

def lastSequence (j : Journal) (reading : Reading) : Journal × Except Failure Nat :=
  match loadIndex j reading with
  | (j, some failure) => (j, .error failure)
  | (j, none) => (j, .ok j.sequence)

structure PendingRequest where
  requestID : Bytes
  data : Bytes
  sequence : Nat
  deriving DecidableEq

abbrev Pending := AList (fun _ : Bytes => PendingRequest)

def scanPending (pending : Pending) (e : Event) : Pending :=
  if e.type = accepted then pending.insert e.requestID ⟨e.requestID, e.data, e.sequence⟩
  else if e.type = completed then pending.erase e.requestID
  else pending

def unfinished (events : List Event) : Pending := events.foldl scanPending ∅

def onlyPending (pending : Pending) : Except Failure (Option PendingRequest) :=
  match pending.entries with
  | [] => .ok none
  | [entry] => .ok (some entry.2)
  | _ => .error .unfinished

def pendingChatRequest (conversation : String) (j : Journal) (reading : Reading) :
    Except Failure (Option PendingRequest) :=
  if !safeJournalID conversation then .error .invalid
  else match reading, j.file with
    | .unopened, _ => .error .disk
    | _, none => .ok none
    | .broken _, some _ => .error .disk
    | .whole, some content =>
      let (events, ended) := decode content
      if ended then onlyPending (unfinished events) else .error .decode

def remove (conversation : String) (j : Journal) (works : Bool) : Journal × Option Failure :=
  if !safeJournalID conversation then (j, some .invalid)
  else if works then (⟨none, 0, none⟩, none)
  else (j, some .disk)

def pageLimit (limit : Int) : Nat := if limit < 1 ∨ 1000 < limit then 200 else limit.toNat

def collect (after limit : Nat) : List Bytes → List Event → Bool → List Event × Option Failure
  | [], values, ended => (values, if ended then none else some .tooLong)
  | line :: rest, values, ended =>
    match (unmarshalRecord line).bind eventOf with
    | none => ([], some .decode)
    | some e =>
      if after < e.sequence then
        if values.length + 1 = limit then (values ++ [e], none)
        else collect after limit rest (values ++ [e]) ended
      else collect after limit rest values ended

def events (o : Options) (conversation : String) (j : Journal) (after : Nat) (limit : Int) :
    List Event × Option Failure :=
  if !safeJournalID conversation then ([], some .invalid)
  else match j.file with
    | none => ([], none)
    | some content =>
      let (lines, ended) := scanLines o.buffer (content.length + 1) content
      collect after (pageLimit limit) lines [] ended

def seen (e : Event) (text : Bytes) : Event := { e with
  type := cleaned e.type
  requestID := cleaned e.requestID
  data := text }

def SameData (data text : Bytes) : Prop := (data = [] ∧ text = []) ∨ JsonRecords.sameValue text data

def Reads (e read : Event) : Prop := read = { e with data := read.data } ∧ SameData e.data read.data

def readable (r : Request) : Bool :=
  (r.data = [] ∨ nests r.data) ∧ validString r.type ∧ validString r.requestID

def requestOf (e : Event) : Request := ⟨e.type, e.requestID, e.data, e.time⟩

structure Encoded (e : Event) (encoded : Bytes) : Prop where
  number : e.sequence < 2 ^ 64
  fits : readable (requestOf e)
  text : marshal e = some encoded

variable {e : Event} {encoded : Bytes} {j : Journal}

theorem data_text_cases {data text : Bytes} (known : dataText data = some text) :
    (data = [] ∧ text = []) ∨ (text ≠ [] ∧ compacted data = some text) := by
  unfold dataText at known
  split at known
  · next none_ =>
    cases known
    exact .inl ⟨none_, rfl⟩
  · refine .inr ⟨?_, known⟩
    rintro rfl
    obtain ⟨raw, rest, scanned, _, same⟩ := JsonRecords.compacted_raw known
    obtain ⟨whole, _⟩ := JsonRecords.compact_shape (Nat.le_refl _) scanned
    obtain ⟨c, _, _, _, shape, _⟩ := JsonObjects.value_head whole
    rw [← same] at shape
    cases shape

theorem data_text_same {data text : Bytes} (known : dataText data = some text) : SameData data text := by
  rcases data_text_cases known with none_ | ⟨_, compact⟩
  · exact .inl none_
  · exact .inr (JsonRecords.compacted_same compact)

section Members
variable {e : Event} {text : Bytes}

theorem fields_mem {field : String × Bytes} (member : field ∈ fieldsOf e text) :
    field.2 = writeNat e.sequence ∨ field.2 = quoteString e.conversationID ∨ field.2 = quoteBytes e.type ∨
      field.2 = quoteBytes e.requestID ∨ (text ≠ [] ∧ field.2 = text) ∨ field.2 = writeInstant e.time := by
  simp only [fieldsOf, mem_append, mem_cons, not_mem_nil, or_false] at member
  rcases member with (((rfl | rfl | rfl) | member) | member) | rfl
  · exact .inl rfl
  · exact .inr (.inl rfl)
  · exact .inr (.inr (.inl rfl))
  · split at member
    · cases member
    · rcases mem_singleton.mp member with rfl
      exact .inr (.inr (.inr (.inl rfl)))
  · split at member
    · cases member
    · next some_ =>
      rcases mem_singleton.mp member with rfl
      exact .inr (.inr (.inr (.inr (.inl ⟨some_, rfl⟩))))
  · exact .inr (.inr (.inr (.inr (.inr rfl))))

theorem fields_solid (known : dataText e.data = some text) (inside : e.data = [] ∨ nests e.data) :
    ∀ field ∈ fieldsOf e text, Solid (JsonScanner.maxNestingDepth - 1) field.2 := by
  intro field member
  rcases fields_mem member with same | same | same | same | ⟨some_, same⟩ | same
  · rw [same]
    exact JsonNumbers.int_solid _ (.ofNat e.sequence)
  · rw [same]
    exact JsonObjects.quote_solid _ _
  · rw [same]
    exact GoStrings.quote_bytes_solid _ _
  · rw [same]
    exact GoStrings.quote_bytes_solid _ _
  · rw [same]
    rcases data_text_cases known with ⟨_, none_⟩ | ⟨_, compact⟩
    · exact absurd none_ some_
    · rcases inside with none_ | nested
      · rw [dataText, if_pos none_] at known
        exact absurd (some.inj known).symm some_
      · exact JsonRecords.compacted_solid compact nested
  · rw [same]
    exact Timestamps.instant_solid _ _

theorem fields_line (known : dataText e.data = some text) : ∀ field ∈ fieldsOf e text, lineFeed ∉ field.2 := by
  have decimal : lineFeed ∉ writeNat e.sequence := by
    intro member
    have digit := all_eq_true.mp (JsonNumbers.write_nat_digits e.sequence) _ member
    cases digit
  intro field member
  rcases fields_mem member with same | same | same | same | ⟨some_, same⟩ | same
  · rw [same]
    exact decimal
  · rw [same]
    exact JsonRecords.quote_line _
  · rw [same]
    exact JsonRecords.printable_line (GoStrings.quote_bytes_printable _)
  · rw [same]
    exact JsonRecords.printable_line (GoStrings.quote_bytes_printable _)
  · rw [same]
    rcases data_text_cases known with ⟨_, none_⟩ | ⟨_, compact⟩
    · exact absurd none_ some_
    · exact JsonRecords.compacted_line compact
  · rw [same]
    exact Timestamps.instant_line _

theorem quoted_not_null {rest : Bytes} : quote :: rest ≠ nullWord := fun same => absurd (cons.inj same).1 (by decide)

theorem number_not_null (n : Nat) : writeNat n ≠ nullWord := by
  intro same
  have digits := JsonNumbers.write_nat_digits n
  rw [same] at digits
  exact absurd digits (by decide)

theorem int_not_null (n : Int) : JsonNumbers.writeInt n ≠ nullWord := by
  intro same
  have read := JsonNumbers.read_write_signed n
  rw [same] at read
  cases read

theorem assign_sequence (e : Event) {n : Nat} (small : n < 2 ^ 64) :
    assign e ("sequence", writeNat n) = some { e with sequence := n } := by
  have other : isField "sequence" "data" = false := by decide
  have mine : isField "sequence" "sequence" = true := by decide
  have read : readUint (writeNat n) = some n := by
    rw [readUint, JsonNumbers.read_write_nat, Option.filter, if_pos (decide_eq_true small)]
  simp only [assign, other, mine, read, if_neg (number_not_null n), Bool.false_eq_true, if_false, if_true, map_some]

theorem assign_conversation (e : Event) (conversationID : String) :
    assign e ("conversationId", quoteString conversationID) = some { e with conversationID } := by
  have others : isField "conversationId" "data" = false ∧ isField "conversationId" "sequence" = false := by decide
  have mine : isField "conversationId" "conversationId" = true := by decide
  have read : JsonStrings.unquote (quoteString conversationID) = conversationID := (JsonStrings.quoted_literal _).2
  have text : (quoteString conversationID).head? = some quote := rfl
  have apart : quoteString conversationID ≠ nullWord := quoted_not_null
  simp only [assign, others, mine, readText, text, read, if_neg apart, Bool.false_eq_true, if_false, if_true, map_some]

theorem assign_type (e : Event) (type : Bytes) : assign e ("type", quoteBytes type) = some { e with type := cleaned type } := by
  have others : isField "type" "data" = false ∧ isField "type" "sequence" = false ∧
      isField "type" "conversationId" = false := by decide
  have mine : isField "type" "type" = true := by decide
  have apart : quoteBytes type ≠ nullWord := quoted_not_null
  simp only [assign, others, mine, readText, GoStrings.quote_bytes_head, GoStrings.unquote_quoted, if_neg apart,
    Bool.false_eq_true, if_false, if_true, map_some]

theorem assign_request (e : Event) (requestID : Bytes) :
    assign e ("requestId", quoteBytes requestID) = some { e with requestID := cleaned requestID } := by
  have others : isField "requestId" "data" = false ∧ isField "requestId" "sequence" = false ∧
      isField "requestId" "conversationId" = false ∧ isField "requestId" "type" = false := by decide
  have mine : isField "requestId" "requestId" = true := by decide
  have apart : quoteBytes requestID ≠ nullWord := quoted_not_null
  simp only [assign, others, mine, readText, GoStrings.quote_bytes_head, GoStrings.unquote_quoted, if_neg apart,
    Bool.false_eq_true, if_false, if_true, map_some]

theorem assign_data (e : Event) (text : Bytes) : assign e ("data", text) = some { e with data := text } := by
  have mine : isField "data" "data" = true := by decide
  simp only [assign, mine, if_true]

theorem assign_time (e : Event) (time : Instant) : assign e ("at", writeInstant time) = some { e with time } := by
  have others : isField "at" "data" = false ∧ isField "at" "sequence" = false ∧ isField "at" "conversationId" = false ∧
      isField "at" "type" = false ∧ isField "at" "requestId" = false := by decide
  have mine : isField "at" "at" = true := by decide
  have apart : writeInstant time ≠ nullWord := quoted_not_null
  simp only [assign, others, mine, Timestamps.read_write_instant, if_neg apart, Bool.false_eq_true, if_false, if_true,
    map_some]

/-- The members of an event are read as they were written, but for bytes of strings that are not UTF-8. -/
theorem event_of_fields (small : e.sequence < 2 ^ 64) : eventOf (fieldsOf e text) = some (seen e text) := by
  have empty : cleaned [] = [] := rfl
  simp only [eventOf, fieldsOf, foldlM_append, foldlM_cons, foldlM_nil, assign_sequence _ small,
    assign_conversation, assign_type, bind, bind_some, pure]
  by_cases anonymous : e.requestID = [] <;> by_cases bare : text = [] <;>
    simp [anonymous, bare, assign_request, assign_data, assign_time, seen, empty, zeroEvent, bind, pure]

end Members

structure Entry where
  event : Event
  encoded : Bytes
  ended : Bool

def Entry.text (entry : Entry) : Bytes := entry.encoded ++ if entry.ended then [lineFeed] else []

def fileOf (entries : List Entry) : Bytes := entries.flatMap Entry.text

def readOf (e : Event) : Event := seen e ((dataText e.data).getD [])

variable {entries : List Entry}

theorem encoded_cases (known : Encoded e encoded) :
    ∃ text, dataText e.data = some text ∧ readOf e = seen e text ∧ encoded = writeObject (fieldsOf e text) ∧
      ∀ field ∈ fieldsOf e text, Solid (JsonScanner.maxNestingDepth - 1) field.2 := by
  obtain ⟨text, data, same⟩ := map_eq_some_iff.mp known.text
  have inside := (of_decide_eq_true known.fits).1
  refine ⟨text, data, ?_, same.symm, fields_solid data inside⟩
  rw [readOf, data]
  rfl

theorem read_reads (known : Encoded e encoded) : Reads e (readOf e) := by
  obtain ⟨text, data, same, _⟩ := encoded_cases known
  obtain ⟨_, type, request⟩ := of_decide_eq_true known.fits
  have type' : cleaned e.type = e.type := of_decide_eq_true type
  have request' : cleaned e.requestID = e.requestID := of_decide_eq_true request
  rw [same]
  refine ⟨?_, data_text_same data⟩
  rw [seen, type', request']

theorem encoded_nonempty (known : Encoded e encoded) : 0 < encoded.length := by
  obtain ⟨text, _, _, rfl, _⟩ := encoded_cases known
  exact Nat.succ_pos _

theorem file_cons (entry : Entry) (entries : List Entry) : fileOf (entry :: entries) = entry.text ++ fileOf entries :=
  flatMap_cons

theorem file_append (first second : List Entry) : fileOf (first ++ second) = fileOf first ++ fileOf second :=
  flatMap_append

theorem file_length (good : ∀ entry ∈ entries, Encoded entry.event entry.encoded) :
    entries.length ≤ (fileOf entries).length := by
  induction entries with
  | nil => exact Nat.le_refl 0
  | cons entry entries ih =>
    have first := encoded_nonempty (good entry mem_cons_self)
    have rest := ih fun other member => good other (mem_cons_of_mem entry member)
    rw [file_cons, length_append, Entry.text, length_append, length_cons]
    omega

theorem decode_entry {entry : Entry} (known : Encoded entry.event entry.encoded) {blanks : Bytes}
    (blank : blanks.all JsonScanner.isSpace) (fuel : Nat) (rest : Bytes) :
    decodeEvents (fuel + 1) (blanks ++ (entry.encoded ++ rest)) =
      (readOf entry.event :: (decodeEvents fuel rest).1, (decodeEvents fuel rest).2) := by
  obtain ⟨text, _, same, shape, solid⟩ := encoded_cases known
  have read := JsonRecords.read_written _ solid blank rest
  have some_ : JsonScanner.skipSpace (blanks ++ (entry.encoded ++ rest)) ≠ [] := by
    rw [JsonRecords.skip_blanks blank, shape]
    exact cons_ne_nil _ _
  rw [decodeEvents, if_neg some_, shape, read]
  dsimp only
  rw [event_of_fields known.number, same]

theorem decode_file (good : ∀ entry ∈ entries, Encoded entry.event entry.encoded) {fuel : Nat}
    (enough : entries.length < fuel) {blanks : Bytes} (blank : blanks.all JsonScanner.isSpace) :
    decodeEvents fuel (blanks ++ fileOf entries) = (entries.map fun entry => readOf entry.event, true) := by
  induction entries generalizing fuel blanks with
  | nil =>
    cases fuel with
    | zero => cases enough
    | succ =>
      have blank_only : JsonScanner.skipSpace (blanks ++ fileOf []) = [] := JsonRecords.skip_blanks blank []
      rw [decodeEvents, if_pos blank_only]
      rfl
  | cons entry entries ih =>
    cases fuel with
    | zero => cases enough
    | succ =>
      have ending : (if entry.ended then [lineFeed] else []).all JsonScanner.isSpace := by
        cases entry.ended <;> rfl
      have later := ih (fun other member => good other (mem_cons_of_mem entry member))
        (Nat.lt_of_succ_lt_succ enough) ending
      rw [file_cons, Entry.text, append_assoc, decode_entry (good entry mem_cons_self) blank, later]
      rfl

theorem decode_entries (good : ∀ entry ∈ entries, Encoded entry.event entry.encoded) :
    decode (fileOf entries) = (entries.map fun entry => readOf entry.event, true) :=
  decode_file good (Nat.lt_succ_of_le (file_length good)) (show ([] : Bytes).all JsonScanner.isSpace from rfl)

def counts (e : Event) : Bool := e.requestID ≠ [] ∧ isIdempotencyEvent e.type

structure Covers (j : Journal) (events : List Event) : Prop where
  sequence : ∀ e ∈ events, e.sequence ≤ j.sequence
  requests : ∀ e ∈ events, counts e → ∃ ids, j.requestIDs = some ids ∧ e.requestID ∈ ids

theorem note_file (j : Journal) (events : List Event) : (events.foldl noteEvent j).file = j.file := by
  induction events generalizing j with
  | nil => rfl
  | cons e events ih => exact ih (noteEvent j e)

theorem note_loaded (j : Journal) (events : List Event) :
    (events.foldl noteEvent j).requestIDs.isSome = j.requestIDs.isSome := by
  induction events generalizing j with
  | nil => rfl
  | cons e events ih =>
    rw [foldl_cons, ih]
    exact isSome_map

theorem note_bound {events : List Event} {bound : Nat} (start : j.sequence ≤ bound)
    (each : ∀ e ∈ events, e.sequence ≤ bound) : (events.foldl noteEvent j).sequence ≤ bound := by
  induction events generalizing j with
  | nil => exact start
  | cons e events ih =>
    refine ih ?_ fun other member => each other (mem_cons_of_mem e member)
    exact Nat.max_le.mpr ⟨start, each e mem_cons_self⟩

theorem note_covers {before : List Event} (covers : Covers j before) (loaded : j.requestIDs.isSome)
    (events : List Event) : Covers (events.foldl noteEvent j) (before ++ events) := by
  induction events generalizing j before with
  | nil =>
    rw [append_nil]
    exact covers
  | cons e events ih =>
    have once : Covers (noteEvent j e) (before ++ [e]) := by
      obtain ⟨ids, here⟩ := isSome_iff_exists.mp loaded
      have now : (noteEvent j e).requestIDs = some (if counts e then e.requestID :: ids else ids) := by
        rw [noteEvent, here, map_some]
        simp [counts]
      refine ⟨fun other member => ?_, fun other member counted => ⟨_, now, ?_⟩⟩
      · rcases mem_append.mp member with member | member
        · exact Nat.le_trans (covers.sequence other member) (Nat.le_max_left _ _)
        · rcases mem_singleton.mp member with rfl
          exact Nat.le_max_right _ _
      · rcases mem_append.mp member with member | member
        · obtain ⟨others, there, known⟩ := covers.requests other member counted
          cases here.symm.trans there
          split
          · exact mem_cons_of_mem _ known
          · exact known
        · rcases mem_singleton.mp member with rfl
          rw [if_pos counted]
          exact mem_cons_self
    have later := ih once (by rw [noteEvent, isSome_map, loaded])
    rw [append_assoc] at later
    exact later

theorem load_file (j : Journal) (reading : Reading) : (loadIndex j reading).1.file = j.file := by
  obtain ⟨file, sequence, requestIDs⟩ := j
  cases requestIDs with
  | some => rfl
  | none =>
    cases reading with
    | unopened => rfl
    | whole | broken =>
      cases file with
      | none => rfl
      | some => exact note_file _ _

theorem append_ok {o : Options} {conversation : String} {after : Journal} {r : Request} {disk : Disk}
    (done : append o conversation j r disk = (after, .ok e)) :
    ∃ loaded encoded, validRequest o conversation r ∧ loadIndex j disk.reading = (loaded, none) ∧
      isDuplicate loaded r = false ∧ isFull o loaded disk.stat r = false ∧ e = eventFor conversation loaded r ∧
      marshal e = some encoded ∧ disk.writing = .done ∧ (contentOf loaded).length + (lineOf encoded).length < 2 ^ 63 ∧
      after = indexed (written loaded (lineOf encoded)) e := by
  unfold append at done
  split at done
  · cases done
  next valid =>
    split at done
    · cases done
    · split at done
      · cases done
      next loaded load =>
        split at done
        · cases done
        next fresh =>
          split at done
          · cases done
          next room =>
            dsimp only at done
            split at done
            · cases done
            next encoded text =>
              split at done
              next success =>
                cases done
                unfold writeLine at success
                split at success
                next writing =>
                  split at success
                  next small =>
                    cases success
                    exact ⟨loaded, encoded, by simpa using valid, load, by simpa using fresh, by simpa using room, rfl, text,
                      writing, small, rfl⟩
                  · cases success
                · cases success
                · cases success
              · cases done

theorem append_error {o : Options} {conversation : String} {after : Journal} {r : Request} {disk : Disk}
    {failure : Failure} (failed : append o conversation j r disk = (after, .error failure)) :
    after = j ∨ after = (loadIndex j disk.reading).1 ∨ ∃ loaded encoded, validRequest o conversation r ∧
      loadIndex j disk.reading = (loaded, none) ∧ isDuplicate loaded r = false ∧ isFull o loaded disk.stat r = false ∧
      marshal (eventFor conversation loaded r) = some encoded ∧ writeLine loaded (lineOf encoded) disk.writing = (after, false) := by
  unfold append at failed
  split at failed
  · cases failed
    exact .inl rfl
  next valid =>
    split at failed
    · cases failed
      exact .inl rfl
    · split at failed
      next load =>
        cases failed
        exact .inr (.inl (by rw [load]))
      next loaded load =>
        have here : loaded = (loadIndex j disk.reading).1 := by rw [load]
        split at failed
        · cases failed
          exact .inr (.inl here)
        next fresh =>
          split at failed
          · cases failed
            exact .inr (.inl here)
          next room =>
            dsimp only at failed
            split at failed
            · cases failed
              exact .inr (.inl here)
            next encoded text =>
              split at failed
              · cases failed
              next unsuccessful =>
                cases failed
                exact .inr (.inr ⟨loaded, encoded, by simpa using valid, load, by simpa using fresh, by simpa using room, text,
                  unsuccessful⟩)

theorem append_works {o : Options} {conversation : String} {j loaded : Journal} {r : Request} {disk : Disk} {encoded : Bytes}
    (valid : validRequest o conversation r) (willing : disk.cancelled = false)
    (load : loadIndex j disk.reading = (loaded, none)) (fresh : isDuplicate loaded r = false)
    (room : isFull o loaded disk.stat r = false) (text : marshal (eventFor conversation loaded r) = some encoded)
    (works : disk.writing = .done) (small : (contentOf loaded).length + (lineOf encoded).length < 2 ^ 63) :
    append o conversation j r disk = (indexed (written loaded (lineOf encoded)) (eventFor conversation loaded r),
      .ok (eventFor conversation loaded r)) := by
  have wrote : writeLine loaded (lineOf encoded) .done = (written loaded (lineOf encoded), true) := if_pos small
  unfold append
  simp only [valid, willing, load, fresh, room, text, works, wrote, Bool.not_true, Bool.false_eq_true, if_false]

end PieRelay.JournalFile
