import PieRelay.Executions
import PieRelay.JournalReplay

/-!
A conversation's journal on a disk that fails. Any step of any call may fail, and the process may start again at any
time. What `PendingChatRequest` reads changes nothing.
-/
namespace PieRelay.JournalFaults
open Executions List Option
open JournalFile
open JournalReplay (defaults idsOf note_ids noon)
open JsonScanner (Bytes)

/-- The events that have been accepted and those that have failed since the file was removed, and what the file held when
    the index came into being. -/
structure World where
  journal : Journal
  accepted : List Event
  failed : List Event
  loadedFrom : Bytes

def start : World := ⟨⟨none, 0, none⟩, [], [], []⟩

inductive Action where
  | append (r : Request) (disk : Disk)
  | hasRequest (requestID : Bytes) (reading : Reading)
  | lastSequence (reading : Reading)
  | pendingChatRequest (reading : Reading)
  | remove (works : Bool)
  | restart

def onward (w : World) (j : Journal) : World := { w with
  journal := j
  loadedFrom := if w.journal.requestIDs.isNone ∧ j.requestIDs.isSome then contentOf w.journal else w.loadedFrom }

def step (o : Options) (conversation : String) (w : World) : Action → Option World
  | .append r disk =>
    match append o conversation w.journal r disk with
    | (j, .ok e) => some { onward w j with accepted := w.accepted ++ [e] }
    | (j, .error _) => some { onward w j with
      failed := w.failed ++ [eventFor conversation (loadIndex w.journal disk.reading).1 r] }
  | .hasRequest requestID reading => some (onward w (hasRequest w.journal requestID reading).1)
  | .lastSequence reading => some (onward w (lastSequence w.journal reading).1)
  | .pendingChatRequest _ => some w
  | .remove works =>
    match remove conversation w.journal works with
    | (j, none) => some ⟨j, [], [], []⟩
    | (j, some _) => some (onward w j)
  | .restart => some { w with journal := ⟨w.journal.file, 0, none⟩ }

def idsAccepted (w : World) : List Bytes := (w.accepted.filter counts).map Event.requestID

def Decodes (w : World) : Prop :=
  ∃ log : List (Event × Bool), decode (contentOf w.journal) = (log.map fun l => readOf l.1, true) ∧
    (∀ l ∈ log, Reads l.1 (readOf l.1)) ∧ (log.filter fun l => l.2).map Prod.fst = w.accepted ∧
    ((log.filter fun l => !l.2).map Prod.fst).Sublist w.failed

def Works (o : Options) (conversation : String) (w : World) : Prop :=
  ∀ (r : Request) (stat : Bool) (encoded : Bytes), validRequest o conversation r →
    marshal (eventFor conversation (loadIndex w.journal .whole).1 r) = some encoded →
    r.requestID ∉ idsAccepted w →
    isFull o w.journal stat r = false → (contentOf w.journal).length + (lineOf encoded).length < 2 ^ 63 →
    ∃ j e, append o conversation w.journal r ⟨false, .whole, stat, .done⟩ = (j, .ok e)

structure Intact (o : Options) (conversation : String) (w : World) : Prop where
  increasing : (w.accepted.map Event.sequence).Pairwise (· < ·)
  once : (idsAccepted w).Nodup
  index : w.journal.requestIDs.isSome → Covers w.journal (decode w.loadedFrom).1
  decodes : Decodes w
  works : Works o conversation w

def readFrom (content : Bytes) : Reading → List Event
  | .unopened => []
  | .whole => (decode content).1
  | .broken read => (decode (content.take read)).1

def LoadsAll (j : Journal) (reading : Reading) : Prop :=
  j.requestIDs = none → ∀ content, j.file = some content → readFrom content reading = (decode content).1

/-- A line is written, all of it or all but its end, or nothing is; and what is written can be read. -/
def WritesWhole (o : Options) (conversation : String) (j : Journal) (r : Request) (disk : Disk) : Prop :=
  ∀ loaded encoded, loadIndex j disk.reading = (loaded, none) → isDuplicate loaded r = false →
    isFull o loaded disk.stat r = false → marshal (eventFor conversation loaded r) = some encoded →
    disk.writing = .failed 0 ∨ (∃ created, disk.writing = .unopened created) ∨
      readable r ∧ ∀ count, disk.writing = .failed count → encoded.length ≤ count

def Retried (w : World) : Prop := ∀ e ∈ (decode (contentOf w.journal)).1, counts e → e.requestID ∈ idsAccepted w

def Careful (o : Options) (conversation : String) (w : World) : Action → Prop
  | .append r disk => validRequest o conversation r → disk.cancelled = false →
      LoadsAll w.journal disk.reading ∧ WritesWhole o conversation w.journal r disk
  | .hasRequest requestID reading => requestID ≠ [] → LoadsAll w.journal reading
  | .lastSequence reading => LoadsAll w.journal reading
  | .restart => Retried w
  | _ => True

structure Log (w : World) (log : List (Entry × Bool)) : Prop where
  good : ∀ l ∈ log, Encoded l.1.event l.1.encoded
  file : contentOf w.journal = fileOf (log.map Prod.fst)
  small : (contentOf w.journal).length < 2 ^ 63
  mine : (log.filter fun l => l.2).map (fun l => l.1.event) = w.accepted
  others : ((log.filter fun l => !l.2).map fun l => l.1.event).Sublist w.failed
  numbers : ∀ l ∈ log, l.1.event.sequence ≤ log.length
  sequence : w.journal.sequence ≤ log.length
  increasing : (w.accepted.map Event.sequence).Pairwise (· < ·)
  once : (idsAccepted w).Nodup
  covers : w.journal.requestIDs.isSome → Covers w.journal (w.accepted ++ (decode w.loadedFrom).1)
  known : ∀ ids, w.journal.requestIDs = some ids → ∀ id ∈ ids, id ∈ idsAccepted w
  unread : w.journal.requestIDs = none → ∀ l ∈ log, counts l.1.event → l.1.event.requestID ∈ idsAccepted w

section Loading
variable {w : World} {log : List (Entry × Bool)} {reading : Reading}
variable {j : Journal}

theorem log_good (held : Log w log) : ∀ entry ∈ log.map Prod.fst, Encoded entry.event entry.encoded := by
  intro entry member
  obtain ⟨l, there, rfl⟩ := mem_map.mp member
  exact held.good l there

theorem log_decodes (held : Log w log) : decode (contentOf w.journal) = (log.map fun l => readOf l.1.event, true) := by
  rw [held.file, decode_entries (log_good held), List.map_map]
  rfl

theorem log_length (held : Log w log) : log.length < 2 ^ 63 := by
  have entries := file_length (log_good held)
  rw [← held.file, length_map] at entries
  exact Nat.lt_of_le_of_lt entries held.small

theorem read_same (held : Log w log) {l : Entry × Bool} (member : l ∈ log) :
    (readOf l.1.event).sequence = l.1.event.sequence ∧ (readOf l.1.event).requestID = l.1.event.requestID ∧
      counts (readOf l.1.event) = counts l.1.event := by
  obtain ⟨same, _⟩ := read_reads (held.good l member)
  rw [same]
  exact ⟨rfl, rfl, rfl⟩

theorem accepted_there (held : Log w log) {e : Event} (member : e ∈ w.accepted) : ∃ l ∈ log, l.1.event = e := by
  rw [← held.mine] at member
  obtain ⟨l, there, same⟩ := mem_map.mp member
  exact ⟨l, (mem_filter.mp there).1, same⟩

theorem load_reads (unloaded : j.requestIDs = none) (reading : Reading) : (loadIndex j reading).1 =
    ((j.file.map fun content => readFrom content reading).getD []).foldl noteEvent { j with requestIDs := some [] } := by
  obtain ⟨file, sequence, requestIDs⟩ := j
  cases unloaded
  cases file with
  | none | some => cases reading <;> rfl

theorem load_ends {events : List Event} (ended : decode (contentOf j) = (events, true)) :
    (loadIndex j .whole).2 = none := by
  obtain ⟨file, sequence, requestIDs⟩ := j
  cases requestIDs with
  | some => rfl
  | none =>
    cases file with
    | none => rfl
    | some content =>
      change decode content = (events, true) at ended
      change (if (decode content).2 then none else some Failure.decode) = none
      rw [ended]
      rfl

theorem load_notes (held : Log w log) (all : LoadsAll w.journal reading) (unloaded : w.journal.requestIDs = none) :
    (loadIndex w.journal reading).1 =
      (log.map fun l => readOf l.1.event).foldl noteEvent { w.journal with requestIDs := some [] } := by
  have read : (decode (contentOf w.journal)).1 = log.map fun l => readOf l.1.event := congrArg Prod.fst (log_decodes held)
  have here : (w.journal.file.map fun content => readFrom content reading).getD [] = (decode (contentOf w.journal)).1 := by
    cases file : w.journal.file with
    | none =>
      rw [contentOf, file]
      rfl
    | some content =>
      rw [contentOf, file, map_some, getD_some, all unloaded content file]
      rfl
  rw [load_reads unloaded, here, read]

theorem note_notes (held : Log w log) (unloaded : w.journal.requestIDs = none)
    (notes : j = (log.map fun l => readOf l.1.event).foldl noteEvent { w.journal with requestIDs := some [] }) :
    Log (onward w j) log := by
  have file : j.file = w.journal.file := by rw [notes, note_file]
  have loaded : j.requestIDs.isSome := by rw [notes, note_loaded]; rfl
  have content : contentOf j = contentOf w.journal := by rw [contentOf, file]; rfl
  have from_ : (onward w j).loadedFrom = contentOf w.journal := if_pos ⟨by rw [unloaded]; rfl, loaded⟩
  have nothing : Covers { w.journal with requestIDs := some [] } [] := by
    constructor
    · intro e member
      cases member
    · intro e member
      cases member
  have noted := note_covers nothing rfl (log.map fun l => readOf l.1.event)
  rw [← notes, nil_append] at noted
  refine ⟨held.good, ?_, ?_, held.mine, held.others, held.numbers, ?_, held.increasing, held.once, fun _ => ?_, ?_,
    fun none_ => ?_⟩
  · exact content.trans held.file
  · rw [show contentOf (onward w j).journal = contentOf w.journal from content]
    exact held.small
  · change j.sequence ≤ log.length
    rw [notes]
    refine note_bound held.sequence fun e member => ?_
    obtain ⟨l, there, rfl⟩ := mem_map.mp member
    rw [(read_same held there).1]
    exact held.numbers l there
  · rw [from_, log_decodes held]
    have mine {e : Event} (member : e ∈ w.accepted) : ∃ read ∈ log.map fun l => readOf l.1.event,
        read.sequence = e.sequence ∧ read.requestID = e.requestID ∧ counts read = counts e := by
      obtain ⟨l, there, rfl⟩ := accepted_there held member
      exact ⟨_, mem_map_of_mem (f := fun l : Entry × Bool => readOf l.1.event) there, read_same held there⟩
    constructor
    · intro e member
      rcases mem_append.mp member with accepted | read
      · obtain ⟨read, there, number, _⟩ := mine accepted
        exact number ▸ noted.sequence read there
      · exact noted.sequence e read
    · intro e member counted
      rcases mem_append.mp member with accepted | read
      · obtain ⟨read, there, _, request, same⟩ := mine accepted
        exact request ▸ noted.requests read there (same.trans counted)
      · exact noted.requests e read counted
  · intro ids here id member
    have noted := note_ids { w.journal with requestIDs := some [] } (log.map fun l => readOf l.1.event)
    rw [← notes, show j.requestIDs = some ids from here, map_some, append_nil] at noted
    rw [some.inj noted, idsOf, mem_reverse] at member
    obtain ⟨read, there, rfl⟩ := mem_map.mp member
    obtain ⟨inFile, counted⟩ := mem_filter.mp there
    obtain ⟨l, inLog, rfl⟩ := mem_map.mp inFile
    obtain ⟨_, request, same⟩ := read_same held inLog
    rw [request]
    exact held.unread unloaded l inLog (same ▸ counted)
  · rw [show j.requestIDs = none from none_] at loaded
    cases loaded

theorem load_log (held : Log w log) (all : LoadsAll w.journal reading) :
    Log (onward w (loadIndex w.journal reading).1) log ∧ (loadIndex w.journal reading).1.requestIDs.isSome := by
  cases index : w.journal.requestIDs with
  | none =>
    have notes := load_notes held all index
    refine ⟨note_notes held index notes, ?_⟩
    rw [notes, note_loaded]
    rfl
  | some =>
    have same : (loadIndex w.journal reading).1 = w.journal := by
      rw [loadIndex, index]
    have still : onward w w.journal = w := by
      rw [onward, if_neg]
      rw [index]
      exact fun none_ => Bool.false_ne_true none_.1
    rw [same, still]
    exact ⟨held, by rw [index]; rfl⟩

end Loading

section Lines
variable {conversation : String} {w : World} {log : List (Entry × Bool)} {r : Request} {encoded : Bytes}

section
variable (held : Log w log)
include held

theorem next_sequence : (eventFor conversation w.journal r).sequence = w.journal.sequence + 1 := by
  have most := log_length held
  have small := held.sequence
  exact Nat.mod_eq_of_lt (by omega)

theorem next_encoded (fits : readable r) (text : marshal (eventFor conversation w.journal r) = some encoded) :
    Encoded (eventFor conversation w.journal r) encoded := by
  have most := log_length held
  have small := held.sequence
  refine ⟨?_, fits, text⟩
  rw [next_sequence held]
  omega

theorem line_good {entry : Entry} (known : Encoded entry.event entry.encoded) (mine : Bool) :
    ∀ l ∈ log ++ [(entry, mine)], Encoded l.1.event l.1.encoded := by
  intro l member
  rcases mem_append.mp member with member | member
  · exact held.good l member
  · rcases mem_singleton.mp member with rfl
    exact known

theorem line_file (entry : Entry) (mine : Bool) :
    contentOf (written w.journal entry.text) = fileOf ((log ++ [(entry, mine)]).map Prod.fst) := by
  rw [map_append, file_append, ← held.file, map_singleton, file_cons]
  change contentOf w.journal ++ entry.text = _
  rw [fileOf, flatMap_nil, append_nil]

theorem line_numbers {entry : Entry} (next : entry.event.sequence = w.journal.sequence + 1) (mine : Bool) :
    ∀ l ∈ log ++ [(entry, mine)], l.1.event.sequence ≤ (log ++ [(entry, mine)]).length := by
  intro l member
  rw [length_append, length_singleton]
  rcases mem_append.mp member with member | member
  · exact Nat.le_succ_of_le (held.numbers l member)
  · rcases mem_singleton.mp member with rfl
    rw [next]
    exact Nat.succ_le_succ held.sequence

/-- A request that is no duplicate has no accepted event. -/
theorem fresh_once (loaded : w.journal.requestIDs.isSome) (fresh : isDuplicate w.journal r = false)
    (counted : counts (eventFor conversation w.journal r)) :
    r.requestID ∉ idsAccepted w := by
  intro member
  obtain ⟨e, there, same⟩ := mem_map.mp member
  obtain ⟨mine, counts_⟩ := mem_filter.mp there
  obtain ⟨ids, here, known⟩ := (held.covers loaded).requests e (mem_append_left _ mine) counts_
  have both : r.requestID ≠ [] ∧ isIdempotencyEvent r.type := of_decide_eq_true counted
  refine of_decide_eq_false fresh ⟨both.1, both.2, ?_⟩
  rw [here, getD_some, ← same]
  exact contains_iff_mem.mpr known

end

theorem indexed_ids {j : Journal} {ids : List Bytes} (here : j.requestIDs = some ids) (e : Event) :
    (indexed j e).requestIDs = some (if counts e then e.requestID :: ids else ids) := by
  rw [indexed, here, map_some]
  simp [counts]

theorem indexed_covers {j : Journal} {e : Event} {before : List Event} (covers : Covers j before) (ahead : j.sequence ≤ e.sequence)
    (loaded : j.requestIDs.isSome) : ∀ other, other ∈ before ∨ other = e → other.sequence ≤ (indexed j e).sequence ∧
        (counts other → ∃ ids, (indexed j e).requestIDs = some ids ∧ other.requestID ∈ ids) := by
  obtain ⟨ids, here⟩ := isSome_iff_exists.mp loaded
  have now := indexed_ids here e
  rintro other (member | rfl)
  · refine ⟨Nat.le_trans (covers.sequence other member) ahead, fun counted => ⟨_, now, ?_⟩⟩
    obtain ⟨others, there, known⟩ := covers.requests other member counted
    cases here.symm.trans there
    split
    · exact mem_cons_of_mem _ known
    · exact known
  · refine ⟨Nat.le_refl _, fun counted => ⟨_, now, ?_⟩⟩
    rw [if_pos counted]
    exact mem_cons_self

theorem ids_accepted (w : World) (j : Journal) (e : Event) :
    idsAccepted { w with journal := j, accepted := w.accepted ++ [e] } =
      idsAccepted w ++ if counts e then [e.requestID] else [] := by
  rw [idsAccepted, filter_append, map_append, idsAccepted]
  cases counted : counts e <;> simp [counted]

theorem append_log (held : Log w log) (loaded : w.journal.requestIDs.isSome) (fresh : isDuplicate w.journal r = false)
    (fits : readable r) (text : marshal (eventFor conversation w.journal r) = some encoded)
    (small : (contentOf w.journal).length + (lineOf encoded).length < 2 ^ 63) :
    Log { w with
      journal := indexed (written w.journal (lineOf encoded)) (eventFor conversation w.journal r)
      accepted := w.accepted ++ [eventFor conversation w.journal r] }
      (log ++ [(⟨eventFor conversation w.journal r, encoded, true⟩, true)]) := by
  have next := @next_sequence conversation _ _ r held
  have covered := held.covers loaded
  have before : Covers (written w.journal (lineOf encoded)) (w.accepted ++ (decode w.loadedFrom).1) :=
    ⟨covered.sequence, covered.requests⟩
  have after := indexed_covers before (e := eventFor conversation w.journal r) (next ▸ Nat.le_succ _) loaded
  refine ⟨line_good held (next_encoded held fits text) true, line_file held ⟨_, encoded, true⟩ true, ?_, ?_, ?_,
    line_numbers held next true, ?_, ?_, ?_, fun _ => ?_, ?_, ?_⟩
  · change (contentOf w.journal ++ lineOf encoded).length < 2 ^ 63
    rw [length_append]
    exact small
  · rw [filter_append, map_append, held.mine]
    rfl
  · rw [filter_append, map_append]
    refine Sublist.trans ?_ held.others
    exact append_nil _ ▸ Sublist.refl _
  · change (eventFor conversation w.journal r).sequence ≤ _
    rw [next, length_append, length_singleton]
    exact Nat.succ_le_succ held.sequence
  · rw [map_append]
    refine pairwise_append.mpr ⟨held.increasing, pairwise_singleton _ _, fun number earlier last here => ?_⟩
    obtain ⟨e, mine, rfl⟩ := mem_map.mp earlier
    rcases mem_singleton.mp here with rfl
    rw [next]
    exact Nat.lt_succ_of_le (covered.sequence e (mem_append_left _ mine))
  · rw [ids_accepted]
    split
    next counted =>
      refine Nodup.append held.once (nodup_singleton _) fun id earlier last => ?_
      rcases mem_singleton.mp last with rfl
      exact fresh_once held loaded fresh counted earlier
    · rw [append_nil]
      exact held.once
  · have each : ∀ e ∈ w.accepted ++ [eventFor conversation w.journal r] ++ (decode w.loadedFrom).1,
        e ∈ w.accepted ++ (decode w.loadedFrom).1 ∨ e = eventFor conversation w.journal r := by
      intro e member
      simp only [mem_append, mem_singleton] at member ⊢
      tauto
    exact ⟨fun e member => (after e (each e member)).1, fun e member => (after e (each e member)).2⟩
  · intro ids here id member
    obtain ⟨earlier, there⟩ := isSome_iff_exists.mp loaded
    have whole : (written w.journal (lineOf encoded)).requestIDs = some earlier := there
    cases here.symm.trans (indexed_ids whole (eventFor conversation w.journal r))
    rw [ids_accepted]
    split at member
    next counted =>
      rw [if_pos counted]
      rcases mem_cons.mp member with rfl | old
      · exact mem_append_right _ mem_cons_self
      · exact mem_append_left _ (held.known earlier there id old)
    · exact mem_append_left _ (held.known earlier there id member)
  · intro none_
    obtain ⟨earlier, there⟩ := isSome_iff_exists.mp loaded
    have whole : (written w.journal (lineOf encoded)).requestIDs = some earlier := there
    cases (show (indexed _ _).requestIDs = none from none_).symm.trans (indexed_ids whole (eventFor conversation w.journal r))

theorem left_log (held : Log w log) (loaded : w.journal.requestIDs.isSome) (fits : readable r)
    (text : marshal (eventFor conversation w.journal r) = some encoded) (ended : Bool)
    (small : (contentOf w.journal).length + (Entry.text ⟨eventFor conversation w.journal r, encoded, ended⟩).length < 2 ^ 63) :
    Log { w with
      journal := written w.journal (Entry.text ⟨eventFor conversation w.journal r, encoded, ended⟩)
      failed := w.failed ++ [eventFor conversation w.journal r] }
      (log ++ [(⟨eventFor conversation w.journal r, encoded, ended⟩, false)]) := by
  have next := @next_sequence conversation _ _ r held
  refine ⟨line_good held (next_encoded held fits text) false, line_file held ⟨_, encoded, ended⟩ false, ?_, ?_, ?_,
    line_numbers held next false, ?_, held.increasing, held.once, fun _ => ?_, held.known, fun none_ => ?_⟩
  · change (contentOf w.journal ++ Entry.text _).length < 2 ^ 63
    rw [length_append]
    exact small
  · rw [filter_append, map_append, held.mine]
    exact append_nil _
  · rw [filter_append, map_append]
    exact held.others.append (Sublist.refl _)
  · rw [length_append]
    exact Nat.le_trans held.sequence (Nat.le_add_right _ _)
  · have covered := held.covers loaded
    exact ⟨covered.sequence, covered.requests⟩
  · rw [show w.journal.requestIDs = none from none_] at loaded
    cases loaded

theorem kept_log (held : Log w log) {file : Option Bytes} (same : file.getD [] = contentOf w.journal) (failed : List Event) :
    Log { w with journal := { w.journal with file := file }, failed := w.failed ++ failed } log := by
  refine ⟨held.good, same.trans held.file, ?_, held.mine, held.others.trans (sublist_append_left _ _), held.numbers,
    held.sequence, held.increasing, held.once, fun loaded => ?_, held.known, held.unread⟩
  · change (file.getD []).length < 2 ^ 63
    rw [same]
    exact held.small
  · have covered := held.covers loaded
    exact ⟨covered.sequence, covered.requests⟩

end Lines

theorem log_start : Log start [] := by
  refine ⟨?_, rfl, by decide, rfl, Sublist.refl _, ?_, Nat.le_refl 0, .nil, .nil, ?_, ?_, fun _ => ?_⟩
  · intro l member
    cases member
  · intro l member
    cases member
  · intro loaded
    cases loaded
  · intro ids here
    cases here
  · intro l member
    cases member

section Steps
variable {o : Options} {conversation : String} {w : World} {log : List (Entry × Bool)}
variable {r : Request} {disk : Disk}

theorem onward_self (w : World) : onward w w.journal = w := by
  rw [onward, if_neg]
  rintro ⟨unloaded, loaded⟩
  cases index : w.journal.requestIDs <;> simp [index] at unloaded loaded

theorem onward_after {j loaded : Journal} (index : loaded.requestIDs.isSome) (same : j.requestIDs.isSome) :
    onward w j = { onward w loaded with journal := j } := by
  rw [onward, onward, index, same]

theorem append_unasked (unasked : ¬ (validRequest o conversation r ∧ disk.cancelled = false)) :
    ∃ failure, append o conversation w.journal r disk = (w.journal, .error failure) := by
  unfold append
  cases valid : validRequest o conversation r with
  | false => exact ⟨.invalid, rfl⟩
  | true =>
    cases cancelled : disk.cancelled with
    | false => exact absurd ⟨valid, cancelled⟩ unasked
    | true => exact ⟨.cancelled, rfl⟩

theorem ok_log (held : Log w log) {after : Journal} {e : Event}
    (all : LoadsAll w.journal disk.reading) (careful : WritesWhole o conversation w.journal r disk)
    (done : append o conversation w.journal r disk = (after, .ok e)) :
    ∃ log', Log { onward w after with accepted := w.accepted ++ [e] } log' := by
  obtain ⟨now, index⟩ := load_log held all
  obtain ⟨loaded, encoded, _, load, fresh, room, rfl, text, writing, small, rfl⟩ := append_ok done
  rw [load] at now index
  have fits : readable r := by
    rcases careful loaded encoded load fresh room text with none_ | ⟨_, unopened⟩ | ⟨fits, _⟩
    · cases writing.symm.trans none_
    · cases writing.symm.trans unopened
    · exact fits
  have same : (indexed (written loaded (lineOf encoded)) (eventFor conversation loaded r)).requestIDs.isSome := by
    obtain ⟨ids, here⟩ := isSome_iff_exists.mp index
    have whole : (written loaded (lineOf encoded)).requestIDs = some ids := here
    rw [indexed_ids whole]
    rfl
  rw [onward_after index same]
  exact ⟨_, append_log now index fresh fits text small⟩

theorem torn_log (held : Log w log) (loaded : w.journal.requestIDs.isSome) {encoded : Bytes} {count : Nat} (fits : readable r)
    (text : marshal (eventFor conversation w.journal r) = some encoded) (much : encoded.length ≤ count)
    (small : (contentOf w.journal).length + count < 2 ^ 63) : ∃ log', Log { w with
      journal := written w.journal ((lineOf encoded).take count)
      failed := w.failed ++ [eventFor conversation w.journal r] } log' := by
  rcases Nat.eq_or_lt_of_le much with rfl | more
  · have torn : (lineOf encoded).take encoded.length =
        Entry.text ⟨eventFor conversation w.journal r, encoded, false⟩ := by
      rw [lineOf, take_left]
      exact (append_nil _).symm
    rw [torn]
    refine ⟨_, left_log held loaded fits text false ?_⟩
    rw [← torn, lineOf, take_left]
    exact small
  · have whole : (lineOf encoded).take count = Entry.text ⟨eventFor conversation w.journal r, encoded, true⟩ := by
      refine take_of_length_le ?_
      rw [lineOf, length_append]
      exact more
    rw [whole]
    refine ⟨_, left_log held loaded fits text true ?_⟩
    rw [← whole]
    exact Nat.lt_of_le_of_lt (Nat.add_le_add_left (length_take_le _ _) _) small

theorem error_log (held : Log w log) {after : Journal} {failure : Failure}
    (all : LoadsAll w.journal disk.reading) (careful : WritesWhole o conversation w.journal r disk)
    (failed : append o conversation w.journal r disk = (after, .error failure)) : ∃ log', Log { onward w after with
      failed := w.failed ++ [eventFor conversation (loadIndex w.journal disk.reading).1 r] } log' := by
  obtain ⟨now, index⟩ := load_log held all
  rcases append_error failed with rfl | rfl | ⟨loaded, encoded, _, load, fresh, room, text, wrote⟩
  · rw [onward_self]
    exact ⟨log, kept_log held rfl _⟩
  · exact ⟨log, kept_log now rfl _⟩
  · rw [load] at now index ⊢
    have choice := careful loaded encoded load fresh room text
    cases writing : disk.writing with
    | done =>
      rw [writing, writeLine] at wrote
      split at wrote
      · cases wrote
      · cases wrote
        exact ⟨log, kept_log now rfl _⟩
    | unopened created =>
      rw [writing] at wrote
      cases wrote
      cases created with
      | false => exact ⟨log, kept_log now rfl _⟩
      | true =>
        rw [if_pos rfl, onward_after index (j := written loaded []) index]
        exact ⟨log, kept_log now (append_nil _) _⟩
    | failed count =>
      rw [writing] at wrote choice
      cases wrote
      split
      next small =>
        rw [onward_after index (j := written loaded ((lineOf encoded).take count)) index]
        rcases choice with none_ | ⟨_, unopened⟩ | ⟨fits, much⟩
        · cases none_
          exact ⟨log, kept_log now (append_nil _) _⟩
        · cases unopened
        · exact torn_log now index fits text (much count rfl) small
      · exact ⟨log, kept_log now rfl _⟩

theorem step_log (held : Log w log) {action : Action} {after : World} (careful : Careful o conversation w action)
    (stepped : step o conversation w action = some after) : ∃ log', Log after log' := by
  cases action with
  | append r disk =>
    by_cases asked : validRequest o conversation r ∧ disk.cancelled = false
    · obtain ⟨all, whole⟩ := careful asked.1 asked.2
      cases result : append o conversation w.journal r disk with
      | mk j answer =>
        cases answer with
        | ok =>
          rw [step, result] at stepped
          cases stepped
          exact ok_log held all whole result
        | error =>
          rw [step, result] at stepped
          cases stepped
          exact error_log held all whole result
    · obtain ⟨failure, same⟩ := append_unasked asked
      rw [step, same] at stepped
      cases stepped
      rw [onward_self]
      exact ⟨log, kept_log held rfl _⟩
  | hasRequest requestID reading =>
    cases stepped
    by_cases nameless : requestID = []
    · rw [hasRequest, if_pos nameless, onward_self]
      exact ⟨log, held⟩
    · have loads : (hasRequest w.journal requestID reading).1 = (loadIndex w.journal reading).1 := by
        rw [hasRequest, if_neg nameless]
        split
        next load => rw [load]
        next load => rw [load]
      rw [loads]
      exact ⟨log, (load_log held (careful nameless)).1⟩
  | lastSequence reading =>
    cases stepped
    have loads : (lastSequence w.journal reading).1 = (loadIndex w.journal reading).1 := by
      rw [lastSequence]
      split
      next load => rw [load]
      next load => rw [load]
    rw [loads]
    exact ⟨log, (load_log held careful).1⟩
  | pendingChatRequest =>
    cases stepped
    exact ⟨log, held⟩
  | remove works =>
    rw [step] at stepped
    unfold remove at stepped
    cases safe : safeJournalID conversation with
    | false =>
      rw [safe] at stepped
      cases stepped
      rw [onward_self]
      exact ⟨log, held⟩
    | true =>
      rw [safe] at stepped
      cases works with
      | true =>
        cases stepped
        exact ⟨[], log_start⟩
      | false =>
        cases stepped
        rw [onward_self]
        exact ⟨log, held⟩
  | restart =>
    cases stepped
    refine ⟨log, held.good, held.file, held.small, held.mine, held.others, held.numbers, Nat.zero_le _, held.increasing,
      held.once, fun loaded => ?_, fun ids here => ?_, fun _ l member counted => ?_⟩
    · cases loaded
    · cases here
    · obtain ⟨_, request, same⟩ := read_same held member
      rw [← request]
      refine careful (readOf l.1.event) ?_ (same.trans counted)
      rw [log_decodes held]
      exact mem_map_of_mem (f := fun l : Entry × Bool => readOf l.1.event) member

theorem log_intact (held : Log w log) : Intact o conversation w := by
  refine ⟨held.increasing, held.once, fun loaded => ?_, ?_, fun r stat encoded valid text fresh room small => ?_⟩
  · have covered := held.covers loaded
    exact ⟨fun e member => covered.sequence e (mem_append_right _ member),
      fun e member => covered.requests e (mem_append_right _ member)⟩
  · refine ⟨log.map fun l => (l.1.event, l.2), ?_, ?_, ?_, ?_⟩
    · rw [log_decodes held, List.map_map]
      rfl
    · intro l member
      obtain ⟨line, inLog, rfl⟩ := mem_map.mp member
      exact read_reads (held.good line inLog)
    · rw [List.filter_map, List.map_map]
      exact held.mine
    · rw [List.filter_map, List.map_map]
      exact held.others
  · have all : LoadsAll w.journal .whole := fun _ content _ => rfl
    obtain ⟨now, index⟩ := load_log held all
    have load : loadIndex w.journal .whole = ((loadIndex w.journal .whole).1, none) :=
      Prod.ext rfl (load_ends (log_decodes held))
    have file := load_file w.journal .whole
    generalize (loadIndex w.journal .whole).1 = loaded at *
    have unknown : isDuplicate loaded r = false := by
      obtain ⟨ids, here⟩ := isSome_iff_exists.mp index
      refine decide_eq_false fun both => fresh (now.known ids here r.requestID ?_)
      have known := both.2.2
      rw [here, getD_some] at known
      exact contains_iff_mem.mp known
    have room' : isFull o loaded stat r = false := by
      rw [isFull, contentOf, file]
      exact room
    have small' : (contentOf loaded).length + (lineOf encoded).length < 2 ^ 63 := by
      rw [contentOf, file]
      exact small
    exact ⟨_, _, append_works valid rfl load unknown room' text rfl small'⟩

end Steps

/-- As long as no load stops before the end of the file, every line is written whole or not at all, and no process starts
    again before what was left behind has been accepted, the journal stays as it should be. -/
theorem journal_intact {o : Options} {conversation : String} {actions : List Action} {w : World}
    (ran : run (step o conversation) start actions = some w)
    (careful : Guarded (step o conversation) (Careful o conversation) start actions) : Intact o conversation w := by
  have held := guarded_run_invariant (fun w => ∃ log, Log w log)
    (fun _ _ _ careful held stepped => held.elim fun _ held => step_log held careful stepped) careful ran ⟨[], log_start⟩
  obtain ⟨log, held⟩ := held
  exact log_intact held

def greeting : Request := ⟨accepted, bytes "r1", [], noon⟩

def retried : List Action :=
  [.append greeting ⟨false, .whole, true, .failed 0⟩, .append greeting healthy, .lastSequence .whole]

theorem retried_intact : ∃ w, run (step defaults "c1") start retried = some w ∧ Intact defaults "c1" w := by
  have ran : (run (step defaults "c1") start retried).isSome := by decide +kernel
  obtain ⟨w, ran⟩ := isSome_iff_exists.mp ran
  refine ⟨w, ran, journal_intact ran ⟨fun _ _ => ⟨fun _ _ _ => rfl, fun _ _ _ _ _ _ => .inl rfl⟩, fun _ _ => ?_⟩⟩
  refine ⟨fun _ _ => ⟨fun _ _ _ => rfl, fun _ _ _ _ _ _ => .inr (.inr ⟨by decide +kernel, ?_⟩)⟩, fun _ _ => ?_⟩
  · intro count failed
    cases failed
  · exact ⟨fun _ _ _ => rfl, fun _ _ => trivial⟩

def halfLoaded : List Action :=
  [.append greeting healthy, .restart, .lastSequence .unopened, .append greeting healthy]

def cutShort : List Action := [.append greeting ⟨false, .whole, true, .failed 5⟩, .append greeting healthy]

def leftBehind : List Action := [.append greeting ⟨false, .whole, true, .failed 1000⟩, .restart]

theorem half_loaded_twice : ∃ w, run (step defaults "c1") start halfLoaded = some w ∧ ¬ Intact defaults "c1" w := by
  have numbers : (run (step defaults "c1") start halfLoaded).map (fun w => w.accepted.map Event.sequence) = some [1, 1] := by
    decide +kernel
  obtain ⟨w, ran, twice⟩ := map_eq_some_iff.mp numbers
  refine ⟨w, ran, fun intact => ?_⟩
  have increasing := intact.increasing
  rw [twice] at increasing
  exact absurd increasing (by decide)

theorem cut_short_undecoded : ∃ w, run (step defaults "c1") start cutShort = some w ∧ ¬ Intact defaults "c1" w := by
  have undecoded : (run (step defaults "c1") start cutShort).map (fun w => (decode (contentOf w.journal)).2) = some false := by
    decide +kernel
  obtain ⟨w, ran, stuck⟩ := map_eq_some_iff.mp undecoded
  refine ⟨w, ran, fun intact => ?_⟩
  obtain ⟨log, decodes, _⟩ := intact.decodes
  rw [decodes] at stuck
  cases stuck

theorem left_behind_refused : ∃ w, run (step defaults "c1") start leftBehind = some w ∧ ¬ Intact defaults "c1" w := by
  have refused : (run (step defaults "c1") start leftBehind).map (fun w => (w.accepted,
      validRequest defaults "c1" greeting, (marshal (eventFor "c1" (loadIndex w.journal .whole).1 greeting)).map length,
      isFull defaults w.journal true greeting, (contentOf w.journal).length,
      (append defaults "c1" w.journal greeting healthy).2.isOk)) = some ([], true, some 107, false, 108, false) := by
    decide +kernel
  obtain ⟨w, ran, facts⟩ := map_eq_some_iff.mp refused
  simp only [Prod.mk.injEq] at facts
  obtain ⟨none_, valid, long, room, small, duplicate⟩ := facts
  obtain ⟨encoded, text, length⟩ := map_eq_some_iff.mp long
  refine ⟨w, ran, fun intact => ?_⟩
  have fresh : greeting.requestID ∉ idsAccepted w := by
    rw [idsAccepted, none_]
    exact not_mem_nil
  have fits : (contentOf w.journal).length + (lineOf encoded).length < 2 ^ 63 := by
    rw [lineOf, length_append, small, length]
    decide
  obtain ⟨j, e, appended⟩ := intact.works greeting true encoded valid text fresh room fits
  rw [show append defaults "c1" w.journal greeting healthy = (j, .ok e) from appended] at duplicate
  cases duplicate

/-- A file that cannot be opened once, a line that is cut short, and a line that is left behind each do harm. -/
theorem journal_breaks : (∃ w, run (step defaults "c1") start halfLoaded = some w ∧ ¬ Intact defaults "c1" w) ∧
    (∃ w, run (step defaults "c1") start cutShort = some w ∧ ¬ Intact defaults "c1" w) ∧
    ∃ w, run (step defaults "c1") start leftBehind = some w ∧ ¬ Intact defaults "c1" w :=
  ⟨half_loaded_twice, cut_short_undecoded, left_behind_refused⟩

end PieRelay.JournalFaults
