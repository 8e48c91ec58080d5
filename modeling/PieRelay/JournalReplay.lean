import PieRelay.JournalFile

/-!
Reading a journal back. A conversation's events are appended on a disk that works, by one process after another, and are
read page by page, by the index, and for an unfinished request. The readers agree with the writer about every event
whose line the scanner of `Events` has room for and whose type, request id and data survive being written as JSON.
-/
namespace PieRelay.JournalReplay
open List Option
open JsonScanner (Bytes quote)
open JournalFile

inductive Step where
  | append (r : Request) (stat : Bool)
  | restart
  deriving DecidableEq

def step (o : Options) (conversation : String) (j : Journal) : Step → Journal × List Event
  | .append r stat =>
    match append o conversation j r ⟨false, .whole, stat, .done⟩ with
    | (j, .ok e) => (j, [e])
    | (j, .error _) => (j, [])
  | .restart => (⟨j.file, 0, none⟩, [])

def follow (o : Options) (conversation : String) (now : Journal × List Event) (s : Step) : Journal × List Event :=
  let next := step o conversation now.1 s
  (next.1, now.2 ++ next.2)

def run (o : Options) (conversation : String) (steps : List Step) : Journal × List Event :=
  steps.foldl (follow o conversation) (⟨none, 0, none⟩, [])

def pages (o : Options) (conversation : String) (j : Journal) : Nat → List Int → Option (List Event)
  | _, [] => some []
  | after, limit :: limits =>
    match events o conversation j after limit with
    | (_, some _) => none
    | (page, none) =>
      (pages o conversation j ((page.map Event.sequence).getLastD after) limits).map fun later => page ++ later

def total : List Int → Nat
  | [] => 0
  | limit :: limits => pageLimit limit + total limits

def lineFor (e : Event) : Bytes := (marshal e).getD []

def fits (o : Options) (e : Event) : Bool := readable (requestOf e) ∧ (lineFor e).length < o.buffer

def entryFor (e : Event) : Entry := ⟨e, lineFor e, true⟩

def idsOf (es : List Event) : List Bytes := ((es.filter counts).map Event.requestID).reverse

structure Whole (o : Options) (j : Journal) (es : List Event) : Prop where
  file : contentOf j = fileOf (es.map entryFor)
  good : ∀ e ∈ es, Encoded e (lineFor e) ∧ (lineFor e).length < o.buffer
  numbers : es.map Event.sequence = range' 1 es.length
  index : (j.sequence = 0 ∧ j.requestIDs = none) ∨ (j.sequence = es.length ∧ j.requestIDs = some (idsOf es))

section Index
variable {es : List Event}

theorem note_ids (j : Journal) (es : List Event) :
    (es.foldl noteEvent j).requestIDs = j.requestIDs.map fun ids => idsOf es ++ ids := by
  induction es generalizing j with
  | nil => simp [idsOf]
  | cons e es ih =>
    rw [List.foldl_cons, ih, noteEvent, Option.map_map]
    refine congrArg (fun change => j.requestIDs.map change) (funext fun ids => ?_)
    by_cases counted : counts e
    · have counted' : e.requestID ≠ [] ∧ isIdempotencyEvent e.type := of_decide_eq_true counted
      simp [idsOf, counted, counted']
    · have counted' : ¬ (e.requestID ≠ [] ∧ isIdempotencyEvent e.type) := fun both => counted (decide_eq_true both)
      simp only [Function.comp_apply, if_neg counted', idsOf, filter_cons_of_neg counted]

theorem note_numbers {j : Journal} {start : Nat} (here : j.sequence = start)
    (numbers : es.map Event.sequence = range' (start + 1) es.length) :
    (es.foldl noteEvent j).sequence = start + es.length := by
  induction es generalizing j start with
  | nil => exact here
  | cons e es ih =>
    rw [map_cons, length_cons, range'_succ] at numbers
    obtain ⟨first, later⟩ := cons.inj numbers
    have next : (noteEvent j e).sequence = start + 1 := by
      rw [noteEvent, here, first]
      exact Nat.max_eq_right (Nat.le_succ _)
    rw [foldl_cons, ih next later, length_cons]
    omega

theorem reads_same (good : ∀ e ∈ es, Encoded e (lineFor e)) : Forall₂ Reads es (es.map readOf) := by
  induction es with
  | nil => exact .nil
  | cons e es ih =>
    exact .cons (read_reads (good e mem_cons_self)) (ih fun other member => good other (mem_cons_of_mem _ member))

theorem read_sequences (es : List Event) : (es.map readOf).map Event.sequence = es.map Event.sequence := by
  rw [List.map_map]
  rfl

theorem read_ids (good : ∀ e ∈ es, Encoded e (lineFor e)) : idsOf (es.map readOf) = idsOf es := by
  have each : ∀ e ∈ es, (readOf e).requestID = e.requestID ∧ counts (readOf e) = counts e := by
    intro e member
    obtain ⟨same, _⟩ := read_reads (good e member)
    rw [same]
    exact ⟨rfl, rfl⟩
  have kept : (es.map readOf).filter counts = (es.filter counts).map readOf := by
    rw [List.filter_map]
    exact congrArg _ (List.filter_congr fun e member => (each e member).2)
  rw [idsOf, kept, List.map_map, idsOf]
  refine congrArg List.reverse (List.map_congr_left fun e member => ?_)
  exact (each e (List.mem_of_mem_filter member)).1

end Index

section Steps
variable {o : Options} {conversation : String} {j : Journal} {es : List Event}

theorem entries_good (whole : Whole o j es) : ∀ entry ∈ es.map entryFor, Encoded entry.event entry.encoded := by
  intro entry member
  obtain ⟨e, known, rfl⟩ := mem_map.mp member
  exact (whole.good e known).1

theorem read_all (es : List Event) : ((es.map entryFor).map fun entry => readOf entry.event) = es.map readOf := by
  rw [List.map_map]
  rfl

section
variable (whole : Whole o j es)
include whole

theorem load_whole : loadIndex j .whole = (⟨j.file, es.length, some (idsOf es)⟩, none) := by
  obtain ⟨file, sequence, requestIDs⟩ := j
  rcases whole.index with ⟨rfl, rfl⟩ | ⟨rfl, rfl⟩
  · cases file with
    | none =>
      cases es with
      | nil => rfl
      | cons =>
        have short := file_length (entries_good whole)
        rw [← whole.file] at short
        cases short
    | some content =>
      have same : content = fileOf (es.map entryFor) := whole.file
      have read := decode_entries (entries_good whole)
      rw [read_all, ← same] at read
      have numbers := whole.numbers
      rw [← read_sequences, ← length_map readOf] at numbers
      have loaded : ((es.map readOf).foldl noteEvent ⟨some content, 0, some []⟩) =
          ⟨some content, es.length, some (idsOf es)⟩ := by
        have first := note_file ⟨some content, 0, some []⟩ (es.map readOf)
        have second := note_numbers (j := ⟨some content, 0, some []⟩) rfl numbers
        have third := note_ids ⟨some content, 0, some []⟩ (es.map readOf)
        rw [length_map, Nat.zero_add] at second
        rw [read_ids fun e member => (whole.good e member).1] at third
        generalize (es.map readOf).foldl noteEvent ⟨some content, 0, some []⟩ = j at first second third
        obtain ⟨file, sequence, requestIDs⟩ := j
        rw [map_some, append_nil] at third
        cases first
        cases second
        cases third
        rfl
      unfold loadIndex
      simp only [read, loaded, if_true]
  · rfl

theorem whole_loaded : Whole o ⟨j.file, es.length, some (idsOf es)⟩ es :=
  ⟨whole.file, whole.good, whole.numbers, .inr ⟨rfl, rfl⟩⟩

theorem pending_whole (safe : safeJournalID conversation) :
    pendingChatRequest conversation j .whole = onlyPending (unfinished (es.map readOf)) := by
  have read := decode_entries (entries_good whole)
  rw [read_all, ← whole.file] at read
  unfold pendingChatRequest
  simp only [safe, Bool.not_true, Bool.false_eq_true, if_false]
  cases here : j.file with
  | none =>
    have count := file_length (entries_good whole)
    rw [← whole.file, length_map, contentOf, here] at count
    rw [eq_nil_of_length_eq_zero (Nat.le_zero.mp count)]
    rfl
  | some =>
    rw [contentOf, here, getD_some] at read
    simp only [read, if_true]

theorem append_whole {r : Request} {stat : Bool} {after : Journal} {e : Event}
    (done : append o conversation j r ⟨false, .whole, stat, .done⟩ = (after, .ok e)) (room : fits o e) :
    Whole o after (es ++ [e]) := by
  obtain ⟨loaded, encoded, _, load, _, _, named, text, _, small, rfl⟩ := append_ok done
  obtain ⟨inside, short⟩ := of_decide_eq_true room
  cases load.symm.trans (load_whole whole)
  have line : lineFor e = encoded := by rw [lineFor, text, getD_some]
  have count : es.length ≤ (contentOf j).length := by
    have entries := file_length (entries_good whole)
    rw [← whole.file, length_map] at entries
    exact entries
  have little : es.length + 1 < 2 ^ 64 := by
    have most : (contentOf j).length < 2 ^ 63 := Nat.lt_of_le_of_lt (Nat.le_add_right _ _) small
    omega
  have next : e.sequence = es.length + 1 := by
    rw [named]
    exact Nat.mod_eq_of_lt little
  have encodes : Encoded e (lineFor e) := ⟨by rw [next]; exact little, inside, by rw [line, text]⟩
  refine ⟨?_, ?_, ?_, .inr ⟨?_, ?_⟩⟩
  · have before : contentOf ⟨j.file, es.length, some (idsOf es)⟩ = fileOf (es.map entryFor) := whole.file
    have last : fileOf [entryFor e] = lineOf encoded := by
      rw [file_cons]
      change (lineFor e ++ [lineFeed]) ++ [] = lineOf encoded
      rw [append_nil, line, lineOf]
    rw [map_append, file_append, map_singleton, last, ← before]
    rfl
  · intro other member
    rcases mem_append.mp member with member | member
    · exact whole.good other member
    · rcases mem_singleton.mp member with rfl
      exact ⟨encodes, short⟩
  · rw [map_append, map_singleton, whole.numbers, next, length_append, length_singleton,
      range'_concat, Nat.one_mul, Nat.add_comm 1]
  · rw [length_append, length_singleton, ← next]
    rfl
  · by_cases counted : counts e
    · have counted' : e.requestID ≠ [] ∧ isIdempotencyEvent e.type := of_decide_eq_true counted
      simp [indexed, written, idsOf, counted, counted']
    · have counted' : ¬ (e.requestID ≠ [] ∧ isIdempotencyEvent e.type) := fun both => counted (decide_eq_true both)
      simp only [indexed, written, map_some, if_neg counted', idsOf, filter_append,
        filter_cons_of_neg counted, filter_nil, append_nil]

theorem refused_whole {r : Request} {stat : Bool} {after : Journal} {failure : Failure}
    (failed : append o conversation j r ⟨false, .whole, stat, .done⟩ = (after, .error failure)) : Whole o after es := by
  have load := load_whole whole
  rcases append_error failed with rfl | rfl | ⟨loaded, encoded, _, known, _, _, _, wrote⟩
  · exact whole
  · rw [load]
    exact whole_loaded whole
  · cases known.symm.trans load
    unfold writeLine at wrote
    dsimp only at wrote
    split at wrote
    · cases wrote
    · cases wrote
      exact whole_loaded whole

/-- One step appends at most an event to a whole journal. -/
theorem step_whole (s : Step) (room : ∀ e ∈ (step o conversation j s).2, fits o e) :
    Whole o (step o conversation j s).1 (es ++ (step o conversation j s).2) := by
  cases s with
  | restart =>
    have fresh : Whole o ⟨j.file, 0, none⟩ es := ⟨whole.file, whole.good, whole.numbers, .inl ⟨rfl, rfl⟩⟩
    rw [step, append_nil]
    exact fresh
  | append r stat =>
    cases result : append o conversation j r ⟨false, .whole, stat, .done⟩ with
    | mk after answer =>
      cases answer with
      | ok e =>
        have shape : step o conversation j (.append r stat) = (after, [e]) := by rw [step, result]
        rw [shape] at room ⊢
        exact append_whole whole result (room e (mem_singleton_self e))
      | error =>
        have shape : step o conversation j (.append r stat) = (after, []) := by rw [step, result]
        rw [shape, append_nil]
        exact refused_whole whole result

end

theorem run_whole (steps : List Step) (room : ∀ e ∈ (run o conversation steps).2, fits o e) :
    Whole o (run o conversation steps).1 (run o conversation steps).2 := by
  induction steps using reverseRecOn with
  | nil => exact ⟨rfl, fun e member => absurd member not_mem_nil, rfl, .inl ⟨rfl, rfl⟩⟩
  | append_singleton steps s ih =>
    have onward : run o conversation (steps ++ [s]) = follow o conversation (run o conversation steps) s := by
      rw [run, foldl_append]
      rfl
    rw [onward] at room ⊢
    exact step_whole (ih fun e member => room e (mem_append_left _ member)) s
      fun e member => room e (mem_append_right _ member)

end Steps

section Pages
variable {o : Options} {conversation : String} {j : Journal} {es : List Event}

theorem written_line {e : Event} {encoded : Bytes} (known : Encoded e encoded) :
    lineFeed ∉ encoded ∧ dropCR encoded = encoded := by
  obtain ⟨text, data, _, rfl, _⟩ := encoded_cases known
  refine ⟨JsonRecords.write_line (fields_line data), ?_⟩
  have last : (JsonObjects.writeObject (fieldsOf e text)).getLast? = some JsonScanner.closeBrace :=
    JsonRecords.write_last _
  rw [dropCR, last, if_neg (by decide)]

theorem scan_lines (good : ∀ e ∈ es, Encoded e (lineFor e) ∧ (lineFor e).length < o.buffer) {fuel : Nat}
    (enough : es.length < fuel) :
    scanLines o.buffer fuel (fileOf (es.map entryFor)) = (es.map lineFor, true) := by
  induction es generalizing fuel with
  | nil =>
    cases fuel with
    | zero => cases enough
    | succ => rfl
  | cons e es ih =>
    cases fuel with
    | zero => cases enough
    | succ =>
      obtain ⟨known, short⟩ := good e mem_cons_self
      obtain ⟨plain, kept⟩ := written_line known
      have later := ih (fun other member => good other (mem_cons_of_mem e member)) (Nat.lt_of_succ_lt_succ enough)
      have shape : fileOf ((e :: es).map entryFor) = lineFor e ++ (lineFeed :: fileOf (es.map entryFor)) := by
        rw [map_cons, file_cons]
        exact append_assoc _ _ _
      have some_ : lineFor e ++ (lineFeed :: fileOf (es.map entryFor)) ≠ [] := by simp
      have line : (lineFor e ++ (lineFeed :: fileOf (es.map entryFor))).takeWhile (· ≠ lineFeed) = lineFor e := by
        have each : ∀ c ∈ lineFor e, decide (c ≠ lineFeed) := fun c member =>
          decide_eq_true fun same => plain (same ▸ member)
        rw [takeWhile_append_of_pos each]
        simp
      have behind : (lineFor e ++ (lineFeed :: fileOf (es.map entryFor))).drop ((lineFor e).length + 1) =
          fileOf (es.map entryFor) := by
        rw [← drop_drop, drop_left]
        rfl
      rw [shape, scanLines, if_neg some_]
      dsimp only
      rw [line, if_neg (Nat.not_le_of_lt short), behind, later, kept]
      rfl

theorem line_event {e : Event} {encoded : Bytes} (known : Encoded e encoded) :
    (JsonRecords.unmarshalRecord encoded).bind eventOf = some (readOf e) := by
  obtain ⟨text, _, same, rfl, solid⟩ := encoded_cases known
  rw [JsonRecords.unmarshal_written _ solid, bind_some, event_of_fields known.number, same]

theorem collect_lines (good : ∀ e ∈ es, Encoded e (lineFor e)) (after limit : Nat) {values : List Event}
    (short : values.length < limit) : collect after limit (es.map lineFor) values true =
      (values ++ ((es.map readOf).filter fun e => after < e.sequence).take (limit - values.length), none) := by
  induction es generalizing values with
  | nil => simp [collect]
  | cons e es ih =>
    have later := fun other member => good other (mem_cons_of_mem e member)
    have read := line_event (good e mem_cons_self)
    rw [map_cons, collect, read, map_cons]
    dsimp only
    by_cases behind : after < (readOf e).sequence
    · rw [if_pos behind, filter_cons, if_pos (decide_eq_true behind)]
      by_cases last : values.length + 1 = limit
      · have one : limit - values.length = 1 := by omega
        rw [if_pos last, one, take_succ_cons, take_zero]
      · have shorter : (values ++ [readOf e]).length < limit := by
          rw [length_append, length_singleton]
          omega
        have onward := ih later shorter
        have fewer : limit - values.length = limit - (values ++ [readOf e]).length + 1 := by
          rw [length_append, length_singleton]
          omega
        rw [if_neg last, onward, fewer, take_succ_cons, append_assoc]
        rfl
    · rw [if_neg behind, filter_cons, if_neg (by simpa using behind)]
      exact ih later short

theorem behind_number {α : Type} {number : α → Nat} {read : List α} {start : Nat}
    (numbers : read.map number = range' (start + 1) read.length) (after : Nat) :
    (read.filter fun e => start + after < number e) = read.drop after := by
  induction read generalizing start after with
  | nil => simp
  | cons e read ih =>
    rw [map_cons, length_cons, range'_succ] at numbers
    obtain ⟨first, later⟩ := cons.inj numbers
    cases after with
    | zero =>
      have mine : start + 0 < number e := by omega
      have weaker : (read.filter fun e => start + 0 < number e) = read := by
        refine filter_eq_self.mpr fun other member => ?_
        have bound : number other ∈ range' (start + 1 + 1) read.length := later ▸ mem_map_of_mem member
        rw [mem_range'_1] at bound
        exact decide_eq_true (by omega)
      rw [filter_cons, if_pos (decide_eq_true mine), weaker, drop_zero]
    | succ after =>
      have mine : ¬ start + (after + 1) < number e := by omega
      have same : (fun e : α => decide (start + (after + 1) < number e)) =
          fun e => decide (start + 1 + after < number e) := by
        funext other
        rw [Nat.add_right_comm, Nat.add_assoc]
      rw [filter_cons, if_neg (by simpa using mine), same, ih later after, drop_succ_cons]

theorem limit_positive (limit : Int) : 0 < pageLimit limit := by
  unfold pageLimit
  split
  · decide
  · omega

theorem events_whole (whole : Whole o j es) (safe : safeJournalID conversation) (after : Nat) (limit : Int) :
    events o conversation j after limit = (((es.map readOf).drop after).take (pageLimit limit), none) := by
  have count := file_length (entries_good whole)
  rw [← whole.file, length_map] at count
  have numbers := whole.numbers
  rw [← read_sequences, ← length_map readOf] at numbers
  have behind := behind_number numbers after
  rw [Nat.zero_add] at behind
  unfold events
  simp only [safe, Bool.not_true, Bool.false_eq_true, if_false]
  cases here : j.file with
  | none =>
    have empty : es = [] := by
      rw [contentOf, here] at count
      exact eq_nil_of_length_eq_zero (Nat.le_zero.mp count)
    rw [empty]
    simp
  | some content =>
    have same : content = fileOf (es.map entryFor) := by
      have file := whole.file
      rw [contentOf, here] at file
      exact file
    rw [contentOf, here] at count
    have lines := scan_lines whole.good (Nat.lt_succ_of_le count)
    have none_ : ([] : List Event).length < pageLimit limit := limit_positive limit
    have page := collect_lines (fun e member => (whole.good e member).1) after (pageLimit limit) none_
    rw [← same] at lines
    simp only [getD_some] at lines
    rw [behind] at page
    dsimp only
    rw [lines]
    exact page

theorem take_numbers (start count limit : Nat) : (range' start count).take limit = range' start (min limit count) := by
  rcases Nat.le_total limit count with few | all
  · rw [take_range'_of_length_ge few, Nat.min_eq_left few]
  · rw [take_range'_of_length_le all, Nat.min_eq_right all]

theorem pages_whole (whole : Whole o j es) (safe : safeJournalID conversation) (limits : List Int) {after : Nat}
    (inside : after ≤ es.length) :
    pages o conversation j after limits = some (((es.map readOf).drop after).take (total limits)) := by
  induction limits generalizing after with
  | nil => rfl
  | cons limit limits ih =>
    have numbers : (((es.map readOf).drop after).take (pageLimit limit)).map Event.sequence =
        ((range' 1 es.length).drop after).take (pageLimit limit) := by
      rw [map_take, map_drop, read_sequences, whole.numbers]
    have next : ((((es.map readOf).drop after).take (pageLimit limit)).map Event.sequence).getLastD after =
        after + min (pageLimit limit) (es.length - after) := by
      rw [numbers, drop_range', take_numbers, getLastD_eq_getLast?, getLast?_range']
      split <;> simp <;> omega
    have onward := @ih (after + min (pageLimit limit) (es.length - after)) (by omega)
    rw [pages, events_whole whole safe]
    dsimp only
    rw [next, onward, map_some, total, take_add, drop_drop]
    rcases Nat.le_total (pageLimit limit) (es.length - after) with few | all
    · rw [Nat.min_eq_left few]
    · have far : es.length ≤ after + min (pageLimit limit) (es.length - after) := by omega
      have far' : es.length ≤ after + pageLimit limit := by omega
      have none_ : (es.map readOf).drop (after + min (pageLimit limit) (es.length - after)) = [] :=
        drop_eq_nil_of_le (by rw [length_map]; exact far)
      have none_' : (es.map readOf).drop (after + pageLimit limit) = [] :=
        drop_eq_nil_of_le (by rw [length_map]; exact far')
      rw [none_, none_']

theorem limits_reach (limits : List Int) : limits.length ≤ total limits := by
  induction limits with
  | nil => exact Nat.le_refl 0
  | cons limit =>
    have one := limit_positive limit
    rw [total, length_cons]
    omega

end Pages

/-- The accepted events are read back, each once and in order, however many are asked for at a time; the index has them
    all; and an unfinished request is looked for among them, which fails only where there are several. -/
theorem journal_replays (o : Options) {conversation : String} (safe : safeJournalID conversation) (steps : List Step)
    (room : ∀ e ∈ (run o conversation steps).2, fits o e) :
    ∃ reads, Forall₂ Reads (run o conversation steps).2 reads ∧
      (∀ limits, pages o conversation (run o conversation steps).1 0 limits = some (reads.take (total limits)) ∧
        (reads.length ≤ limits.length → pages o conversation (run o conversation steps).1 0 limits = some reads)) ∧
      loadIndex ⟨(run o conversation steps).1.file, 0, none⟩ .whole =
        (⟨(run o conversation steps).1.file, reads.length, some (idsOf (run o conversation steps).2)⟩, none) ∧
      pendingChatRequest conversation (run o conversation steps).1 .whole = onlyPending (unfinished reads) ∧
      ((unfinished reads).entries.length ≤ 1 →
        ∃ found, pendingChatRequest conversation (run o conversation steps).1 .whole = .ok found) := by
  have whole := run_whole steps room
  generalize run o conversation steps = now at whole
  obtain ⟨j, es⟩ := now
  replace whole : Whole o j es := whole
  have good : ∀ e ∈ es, Encoded e (lineFor e) := fun e member => (whole.good e member).1
  have all := fun limits => pages_whole whole safe limits (Nat.zero_le _)
  have pending := pending_whole whole safe
  refine ⟨es.map readOf, reads_same good, fun limits => ⟨all limits, fun enough => ?_⟩, ?_, pending, fun few => ?_⟩
  · rw [all limits, drop_zero, take_of_length_le (Nat.le_trans enough (limits_reach limits))]
  · have fresh : Whole o ⟨j.file, 0, none⟩ es := ⟨whole.file, whole.good, whole.numbers, .inl ⟨rfl, rfl⟩⟩
    rw [length_map]
    exact load_whole fresh
  · rw [pending, onlyPending]
    cases entries : (unfinished (es.map readOf)).entries with
    | nil => exact ⟨_, rfl⟩
    | cons entry others =>
      cases others with
      | nil => exact ⟨_, rfl⟩
      | cons =>
        rw [entries] at few
        exact absurd few (by simp)

def defaults : Options := ⟨67108864, 8388608, by decide⟩

def noon : Timestamps.Instant := ⟨⟨2026, 1, 2, 12, 0, 0, 0⟩, by decide⟩

def turn : List Step :=
  [.append ⟨accepted, bytes "r1", bytes "\x7b\"text\": \"<hi>\"\x7d", noon⟩ true, .restart,
    .append ⟨completed, bytes "r1", [], noon⟩ true]

theorem turn_replays : (run defaults "c1" turn).2.length = 2 ∧ ∃ reads, Forall₂ Reads (run defaults "c1" turn).2 reads ∧
      (∀ limits, pages defaults "c1" (run defaults "c1" turn).1 0 limits = some (reads.take (total limits)) ∧
        (reads.length ≤ limits.length → pages defaults "c1" (run defaults "c1" turn).1 0 limits = some reads)) ∧
      loadIndex ⟨(run defaults "c1" turn).1.file, 0, none⟩ .whole =
        (⟨(run defaults "c1" turn).1.file, reads.length, some (idsOf (run defaults "c1" turn).2)⟩, none) ∧
      pendingChatRequest "c1" (run defaults "c1" turn).1 .whole = onlyPending (unfinished reads) ∧
      ((unfinished reads).entries.length ≤ 1 →
        ∃ found, pendingChatRequest "c1" (run defaults "c1" turn).1 .whole = .ok found) :=
  ⟨by decide +kernel, journal_replays defaults (by decide) turn (by decide +kernel)⟩

section Limits
variable {o : Options} {conversation : String}

theorem long_line {j : Journal} (safe : safeJournalID conversation) {encoded rest : Bytes}
    (here : j.file = some (encoded ++ lineFeed :: rest)) (plain : lineFeed ∉ encoded) (long : o.buffer ≤ encoded.length)
    (after : Nat) (limit : Int) : events o conversation j after limit = ([], some .tooLong) := by
  have each : ∀ c ∈ encoded, decide (c ≠ lineFeed) := fun c member => decide_eq_true fun same => plain (same ▸ member)
  have line : (encoded ++ lineFeed :: rest).takeWhile (· ≠ lineFeed) = encoded := by
    rw [takeWhile_append_of_pos each]
    simp
  have scanned : scanLines o.buffer ((encoded ++ lineFeed :: rest).length + 1) (encoded ++ lineFeed :: rest) = ([], false) := by
    rw [scanLines, if_neg (by simp)]
    dsimp only
    rw [line, if_pos long]
  unfold events
  simp only [safe, Bool.not_true, Bool.false_eq_true, if_false, here, scanned, collect]

end Limits

def remark (data : Bytes) : Request := ⟨bytes "note", [], data, noon⟩

def remarked (data : Bytes) : Event := ⟨1, "c1", bytes "note", [], data, noon⟩

def remarkLine (data text : Bytes) : Bytes := JsonObjects.writeObject (fieldsOf (remarked data) text)

def remarkHead : JsonObjects.Fields :=
  [("sequence", JsonNumbers.writeNat 1), ("conversationId", JsonStrings.quoteString "c1"), ("type", GoStrings.quoteBytes (bytes "note"))]

variable {text : Bytes}

theorem remark_fields (data : Bytes) (some_ : text ≠ []) :
    fieldsOf (remarked data) text = remarkHead ++ ("data", text) :: [("at", Timestamps.writeInstant noon)] := by
  rw [fieldsOf, if_neg some_]
  rfl

theorem remark_length (data : Bytes) (some_ : text ≠ []) : (remarkLine data text).length = text.length + 86 := by
  have around : (JsonObjects.writeFields (remarkHead ++ ("data", []) :: [("at", Timestamps.writeInstant noon)])).length = 85 := by
    decide +kernel
  rw [remarkLine, remark_fields data some_, JsonObjects.writeObject, length_cons, JsonRecords.write_room, around]

theorem remark_first {data : Bytes} (valid : data.length ≤ 8388608) (known : dataText data = some text)
    (some_ : text ≠ []) (small : text.length < 2 ^ 32) :
    run defaults "c1" [.append (remark data) true] = (⟨some (lineOf (remarkLine data text)), 1, some []⟩, [remarked data]) := by
  have head : safeJournalID "c1" = true ∧ bytes "note" ≠ [] ∧ (bytes "note").length ≤ 96 := by decide +kernel
  have marshalled : marshal (remarked data) = some (remarkLine data text) := by
    have same : (remarked data).data = data := rfl
    rw [marshal, same, known, map_some]
    rfl
  have fits : (contentOf ⟨none, 0, some []⟩).length + (lineOf (remarkLine data text)).length < 2 ^ 63 := by
    rw [contentOf, getD_none, length_nil, lineOf, length_append, remark_length data some_, length_singleton]
    omega
  have done := @append_works defaults "c1" ⟨none, 0, none⟩ ⟨none, 0, some []⟩ (remark data) ⟨false, .whole, true, .done⟩ _
    (decide_eq_true ⟨head.1, head.2.1, head.2.2, valid⟩) rfl rfl rfl rfl marshalled rfl fits
  have shape : step defaults "c1" ⟨none, 0, none⟩ (.append (remark data) true) =
      (⟨some (lineOf (remarkLine data text)), 1, some []⟩, [remarked data]) := by
    rw [step, done]
    rfl
  have alone : run defaults "c1" [.append (remark data) true] =
      step defaults "c1" ⟨none, 0, none⟩ (.append (remark data) true) := rfl
  rw [alone, shape]

def twice : List Step := [.append ⟨accepted, bytes "r1", [], noon⟩ true, .append ⟨accepted, bytes "r2", [], noon⟩ true]

def unclean : List Step := [.append ⟨bytes "note", [0xff], [], noon⟩ true]

def long : List Step := [.append (remark (quote :: JsonRecords.angles 1500000)) true]

def deep : List Step := [.append (remark (JsonRecords.nested 9999)) true]

theorem long_lost : ∃ j e, run defaults "c1" long = (j, [e]) ∧ events defaults "c1" j 0 1 = ([], some .tooLong) := by
  have compact := JsonRecords.string_compacted (JsonRecords.angles_literal 1500000)
  have size := JsonRecords.angles_escaped 1500000
  have taken : (JsonRecords.angles 1500000).length = 1500001 := by
    rw [JsonRecords.angles, length_append, length_replicate, length_singleton]
  unfold long
  generalize JsonRecords.angles 1500000 = data at compact size taken
  generalize JsonStrings.escapeHTML 0 data = text at compact size
  have known : dataText (quote :: data) = some (quote :: text) := by rw [dataText, if_neg (cons_ne_nil _ _), compact]
  have first := remark_first (by rw [length_cons, taken]; omega) known (cons_ne_nil _ _)
    (by rw [length_cons, size]; omega)
  have plain : lineFeed ∉ remarkLine (quote :: data) (quote :: text) :=
    JsonRecords.write_line (@fields_line (remarked (quote :: data)) _ known)
  refine ⟨_, _, first, long_line (by decide) rfl plain ?_ 0 1⟩
  rw [remark_length _ (cons_ne_nil _ _), length_cons, size]
  decide

theorem remark_unread {data : Bytes} (compact : JsonRecords.compacted data = some data) (size : data.length = 20000)
    (stuck : ∀ tail, JsonScanner.scanValue (JsonScanner.maxNestingDepth - 1) (data ++ tail) = none) :
    ∃ j e, run defaults "c1" [.append (remark data) true] = (j, [e]) ∧ (loadIndex ⟨j.file, 0, none⟩ .whole).2 = some .decode := by
  have some_ : data ≠ [] := by
    rintro rfl
    cases size
  have known : dataText data = some data := by rw [dataText, if_neg some_, compact]
  have first := remark_first (by rw [size]; omega) known some_ (by rw [size]; omega)
  have solid : ∀ field ∈ remarkHead, JsonObjects.Solid (JsonScanner.maxNestingDepth - 1) field.2 := by
    simp only [remarkHead, forall_mem_cons]
    exact ⟨JsonNumbers.int_solid _ (.ofNat 1), JsonObjects.quote_solid _ _, GoStrings.quote_bytes_solid _ _,
      fun field member => absurd member not_mem_nil⟩
  have unread := @JsonRecords.record_stuck remarkHead solid "data" data (fun sep tail _ => stuck (sep :: tail))
    [("at", Timestamps.writeInstant noon)] [lineFeed]
  rw [← remark_fields data some_] at unread
  have visible : JsonScanner.skipSpace (lineOf (remarkLine data data)) ≠ [] := cons_ne_nil _ _
  have undecoded : decode (lineOf (remarkLine data data)) = ([], false) := by
    rw [decode, decodeEvents, if_neg visible]
    unfold lineOf remarkLine
    rw [unread]
  refine ⟨_, _, first, ?_⟩
  unfold loadIndex
  simp only [undecoded]
  rfl

theorem deep_lost : ∃ j e, run defaults "c1" deep = (j, [e]) ∧ (loadIndex ⟨j.file, 0, none⟩ .whole).2 = some .decode :=
  remark_unread (JsonRecords.nested_compacted (by decide)) (JsonRecords.nested_length 9999) (JsonRecords.nested_value_stuck (by decide))

/-- Two requests that are both unfinished are refused; a request id that is not UTF-8 is changed; a line may be too long
    for `Events`, and data too deep for the index. -/
theorem replay_incomplete : pendingChatRequest "c1" (run defaults "c1" twice).1 .whole = .error .unfinished ∧
      ((run defaults "c1" unclean).2.map Event.requestID = [[0xff]] ∧
        (pages defaults "c1" (run defaults "c1" unclean).1 0 [1]).map (fun es => es.map Event.requestID) =
          some [[0xef, 0xbf, 0xbd]]) ∧
      (∃ j e, run defaults "c1" long = (j, [e]) ∧ events defaults "c1" j 0 1 = ([], some .tooLong)) ∧
      ∃ j e, run defaults "c1" deep = (j, [e]) ∧ (loadIndex ⟨j.file, 0, none⟩ .whole).2 = some .decode :=
  ⟨by decide +kernel, by decide +kernel, long_lost, deep_lost⟩

end PieRelay.JournalReplay
