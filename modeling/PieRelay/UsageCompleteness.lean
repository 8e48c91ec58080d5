import PieRelay.JournalReplay
import PieRelay.UsageLedger

/-!
What a pass of the worker brings into the ledger. A pass goes through a journal from its cursor on and stops at the first
usage event that cannot be recorded; an event at or below the cursor is taken for one that is in the ledger.
-/
namespace PieRelay.UsageCompleteness
open ControlPlane (Table values Filed filed_insert filed_erase filed_empty filed_mem)
open Executions
open JsonScanner (Bytes)
open JournalReplay (behind_number)
open Timestamps (Instant)
open UsageLedger

def keys (w : World) : List Key := w.ledger.map Row.key

def accepts (b : Backend) (conversation : Conversation) (event : Event) : Option UsageEvent :=
  acceptedEvent b conversation event.requestID event.data event.time

def stores (b : Backend) (w : World) (conversation : Conversation) (event : Event) : Option UsageEvent :=
  storable b w.prices conversation event.requestID event.data event.time

def Complete (b : Backend) (w : World) : Prop :=
  ∀ conversation ∈ values w.conversations, ∀ event ∈ journalOf w conversation.id, event.type = "usage" →
    ∀ usage, accepts b conversation event = some usage → ∀ key ∈ keysOf conversation.id usage, key ∈ keys w

def Works (o : Outcomes) : Prop := (∀ id after, o.reads id after) ∧ ∀ id sequence, o.writes id sequence = .works

/-- A usage event past the cursor, and no usage event up to it that cannot be recorded. -/
structure Reached (b : Backend) (w : World) (conversation : Conversation) (event : Event) : Prop where
  there : event ∈ journalOf w conversation.id
  usage : event.type = "usage"
  past : cursorOf w conversation.id < event.sequence
  free : ∀ other ∈ journalOf w conversation.id, other.type = "usage" → cursorOf w conversation.id < other.sequence →
    other.sequence ≤ event.sequence → (stores b w conversation other).isSome

def Ready (b : Backend) (w : World) : Prop :=
  ∀ conversation ∈ values w.conversations, ∀ event ∈ journalOf w conversation.id, event.type = "usage" →
    ∀ usage, accepts b conversation event = some usage → ∀ key ∈ keysOf conversation.id usage,
      key ∈ keys w ∨ ∃ other found, Reached b w conversation other ∧ stores b w conversation other = some found ∧
        key ∈ keysOf conversation.id found

/-- No accepted usage event that is missing has one before it, past the cursor, that cannot be recorded. -/
def Clear (b : Backend) (w : World) : Prop :=
  ∀ conversation ∈ values w.conversations, ∀ event ∈ journalOf w conversation.id, event.type = "usage" →
    ∀ usage, accepts b conversation event = some usage → (∃ key ∈ keysOf conversation.id usage, key ∉ keys w) →
      ∀ other ∈ journalOf w conversation.id, other.type = "usage" → cursorOf w conversation.id < other.sequence →
        other.sequence ≤ event.sequence → (stores b w conversation other).isSome

def Careful (w : World) : Step → Prop
  | .append id event => event.type = "usage" → cursorOf w id ≤ lastSequence (journalOf w id)
  | _ => True

structure Sound (w : World) : Prop where
  filed : Filed Conversation.id w.conversations
  numbered : ∀ id, (journalOf w id).map Event.sequence = List.range' 1 (journalOf w id).length
  unique : (keys w).Nodup

def Noted (b : Backend) (w : World) : Prop :=
  ∀ id, ∀ event ∈ journalOf w id, event.type = "usage" → event.sequence ≤ cursorOf w id →
    ∃ usage, b.unmarshal event.data = some usage ∧ ∀ key ∈ keysOf id usage, key ∈ keys w

section Journals
variable {journal : Journal}

section
variable (numbered : journal.map Event.sequence = List.range' 1 journal.length)
include numbered

theorem last_sequence : lastSequence journal = journal.length := by
  have last : journal.getLast?.map Event.sequence = (List.range' 1 journal.length).getLast? := by
    rw [← numbered, List.getLast?_map]
  rw [lastSequence, last, List.getLast?_range']
  split
  · next empty => simp [empty]
  · simp

theorem append_numbered (event : Event) :
    (append journal event).map Event.sequence = List.range' 1 (append journal event).length := by
  rw [append, List.map_append, numbered, List.length_append, List.length_singleton, List.range'_concat, List.map_singleton,
    last_sequence numbered]
  simp [Nat.add_comm]

theorem events_after (after limit : Nat) : eventsAfter journal after limit = (journal.drop after).take limit := by
  have behind := behind_number numbered after
  rw [Nat.zero_add] at behind
  rw [eventsAfter, behind]

theorem numbered_at {event : Event} {k : Nat} (here : journal[k]? = some event) : event.sequence = k + 1 := by
  have inside := (List.getElem?_eq_some_iff.mp here).1
  have known : (journal.map Event.sequence)[k]? = some event.sequence := by rw [List.getElem?_map, here]; rfl
  rw [numbered, List.getElem?_range' inside] at known
  have same := Option.some.inj known
  omega

theorem numbered_same {event : Event} {k : Nat}
    (member : event ∈ journal) (number : event.sequence = k + 1) : journal[k]? = some event := by
  obtain ⟨place, here⟩ := List.mem_iff_getElem?.mp member
  have same : place = k := by
    have known := numbered_at numbered here
    omega
  exact same ▸ here

theorem numbered_ordered : journal.Pairwise fun x y => x.sequence < y.sequence := by
  rw [← List.pairwise_map, numbered]
  exact List.pairwise_lt_range'

theorem mem_drop_number (after : Nat) (event : Event) :
    event ∈ journal.drop after ↔ event ∈ journal ∧ after < event.sequence := by
  have behind := behind_number numbered after
  rw [Nat.zero_add] at behind
  rw [← behind, List.mem_filter, decide_eq_true_iff]

end

theorem mem_take_while {α : Type} {number : α → Nat} {pass : α → Bool} {list : List α}
    (ordered : list.Pairwise fun x y => number x < number y) (x : α) :
    x ∈ list.takeWhile pass ↔ x ∈ list ∧ ∀ y ∈ list, number y ≤ number x → pass y := by
  induction list with
  | nil => simp
  | cons first rest ih =>
    obtain ⟨before, ordered⟩ := List.pairwise_cons.mp ordered
    by_cases passed : pass first
    · rw [List.takeWhile_cons_of_pos passed, List.mem_cons, List.mem_cons, ih ordered]
      constructor
      · rintro (rfl | ⟨later, each⟩)
        · refine ⟨.inl rfl, fun y member little => ?_⟩
          rcases List.mem_cons.mp member with rfl | member
          · exact passed
          · exact absurd little (Nat.not_le_of_lt (before y member))
        · refine ⟨.inr later, fun y member little => ?_⟩
          rcases List.mem_cons.mp member with rfl | member
          · exact passed
          · exact each y member little
      · rintro ⟨rfl | later, each⟩
        · exact .inl rfl
        · exact .inr ⟨later, fun y member => each y (List.mem_cons_of_mem first member)⟩
    · rw [List.takeWhile_cons_of_neg passed]
      refine iff_of_false List.not_mem_nil ?_
      rintro ⟨member, each⟩
      refine passed (each first List.mem_cons_self ?_)
      rcases List.mem_cons.mp member with rfl | later
      · exact Nat.le_refl _
      · exact Nat.le_of_lt (before x later)

end Journals

section Pages
variable {b : Backend} {o : Outcomes} {conversation : Conversation} {w : World}

structure Onward (id : String) (w next : World) : Prop where
  conversations : next.conversations = w.conversations
  journals : next.journals = w.journals
  prices : next.prices = w.prices
  keeps : ∀ key ∈ keys w, key ∈ keys next
  unique : (keys w).Nodup → (keys next).Nodup
  others : ∀ other, other ≠ id → cursorOf next other = cursorOf w other

variable {id : String} {next : World}

theorem onward_refl (id : String) (w : World) : Onward id w w := ⟨rfl, rfl, rfl, fun _ member => member, fun nodup => nodup, fun _ _ => rfl⟩

theorem onward_trans {w middle : World} (first : Onward id w middle) (second : Onward id middle next) :
    Onward id w next where
  conversations := second.conversations.trans first.conversations
  journals := second.journals.trans first.journals
  prices := second.prices.trans first.prices
  keeps key member := second.keeps key (first.keeps key member)
  unique nodup := second.unique (first.unique nodup)
  others other apart := (second.others other apart).trans (first.others other apart)

def recorded (b : Backend) (o : Outcomes) (conversation : Conversation) (w : World) (event : Event) :
    Ledger × Option UsageError :=
  if event.type = "usage" then
    recordUsageAt b w.prices w.ledger conversation event.requestID event.data event.time
      (o.writes conversation.id event.sequence)
  else (w.ledger, none)

def moved (w : World) (id : String) (event : Event) (ledger : Ledger) : World :=
  { w with ledger, cursors := w.cursors.insert id event.sequence }

theorem page_cons (event : Event) (rest : List Event) : recordPage b o conversation w (event :: rest) =
      if (recorded b o conversation w event).2 = none then
        recordPage b o conversation (moved w conversation.id event (recorded b o conversation w event).1) rest
      else ({ w with ledger := (recorded b o conversation w event).1 }, false) := rfl

@[simp] theorem moved_cursor (w : World) (id : String) (event : Event) (ledger : Ledger) :
    cursorOf (moved w id event ledger) id = event.sequence := by
  rw [cursorOf, moved, AList.lookup_insert]
  rfl

theorem recorded_grows (event : Event) : (∀ key ∈ keys w, key ∈ (recorded b o conversation w event).1.map Row.key) ∧
    ((keys w).Nodup → ((recorded b o conversation w event).1.map Row.key).Nodup) := by
  unfold recorded
  split
  · obtain ⟨error, failed, _⟩ | ⟨usage, _, went⟩ :=
      @record_usage_cases b w.prices w.ledger _ _ _ _ (o.writes conversation.id event.sequence)
    · rw [failed]
      exact ⟨fun _ => id, id⟩
    · rw [went]
      exact ⟨fun key member => (insert_rows_keys _ key).mpr (.inl member), insert_rows_nodup _⟩
  · exact ⟨fun _ => id, id⟩

theorem onward_recorded (event : Event) :
    Onward conversation.id w { w with ledger := (recorded b o conversation w event).1 } :=
  ⟨rfl, rfl, rfl, (recorded_grows event).1, (recorded_grows event).2, fun _ _ => rfl⟩

theorem onward_moved (event : Event) :
    Onward conversation.id w (moved w conversation.id event (recorded b o conversation w event).1) := by
  refine ⟨rfl, rfl, rfl, (recorded_grows event).1, (recorded_grows event).2, fun other apart => ?_⟩
  rw [cursorOf, moved, AList.lookup_insert_ne apart]
  rfl

theorem page_onward (es : List Event) : Onward conversation.id w (recordPage b o conversation w es).1 := by
  induction es generalizing w with
  | nil => exact onward_refl conversation.id w
  | cons event rest ih =>
    rw [page_cons]
    split
    · exact onward_trans (onward_moved event) ih
    · exact onward_recorded event

theorem loop_onward (fuel : Nat) : Onward conversation.id w (reconcileConversation b o conversation fuel w) := by
  induction fuel generalizing w with
  | zero => exact onward_refl conversation.id w
  | succ fuel ih =>
    unfold reconcileConversation
    split
    · dsimp only
      split
      · exact onward_trans (page_onward _) ih
      · exact page_onward _
    · exact onward_refl conversation.id w

theorem onward_journal {other : String} (onward : Onward id w next) : journalOf next other = journalOf w other := by
  rw [journalOf, journalOf, onward.journals]

theorem onward_sound (onward : Onward id w next) (sound : Sound w) : Sound next := by
  refine ⟨?_, fun other => ?_, onward.unique sound.unique⟩
  · rw [onward.conversations]
    exact sound.filed
  · rw [onward_journal onward]
    exact sound.numbered other

theorem recorded_noted {event : Event} (usage : event.type = "usage") (fine : (recorded b o conversation w event).2 = none) :
    ∃ found, b.unmarshal event.data = some found ∧ stores b w conversation event = some found ∧
      ∀ key ∈ keysOf conversation.id found, key ∈ (recorded b o conversation w event).1.map Row.key := by
  rw [recorded, if_pos usage] at fine ⊢
  obtain ⟨error, failed, _⟩ | ⟨found, stored, went⟩ :=
    @record_usage_cases b w.prices w.ledger _ _ _ _ (o.writes conversation.id event.sequence)
  · rw [failed] at fine
    cases fine
  · refine ⟨found, accepted_read (storable_accepted stored), stored, fun key member => ?_⟩
    rw [went, insert_rows_keys, rows_keys]
    exact .inr member

theorem noted_keeps (noted : Noted b w) (journals : next.journals = w.journals)
    (keeps : ∀ key ∈ keys w, key ∈ keys next) (cursors : ∀ id, cursorOf next id = cursorOf w id) : Noted b next := by
  intro id event member usage below
  rw [journalOf, journals] at member
  rw [cursors] at below
  obtain ⟨found, read, each⟩ := noted id event member usage below
  exact ⟨found, read, fun key known => keeps key (each key known)⟩

theorem moved_noted (sound : Sound w) (noted : Noted b w) {event : Event}
    (here : (journalOf w conversation.id)[cursorOf w conversation.id]? = some event)
    (fine : (recorded b o conversation w event).2 = none) :
    Noted b (moved w conversation.id event (recorded b o conversation w event).1) := by
  have number := numbered_at (sound.numbered conversation.id) here
  intro id other member usage below
  rw [onward_journal (onward_moved event)] at member
  by_cases same : id = conversation.id
  · subst same
    rw [moved_cursor, number] at below
    rcases Nat.lt_or_ge (cursorOf w conversation.id) other.sequence with past | old
    · have placed := numbered_same (sound.numbered conversation.id) member (Nat.le_antisymm below past)
      cases here.symm.trans placed
      obtain ⟨found, read, _, each⟩ := recorded_noted usage fine
      exact ⟨found, read, each⟩
    · obtain ⟨found, read, each⟩ := noted conversation.id other member usage old
      exact ⟨found, read, fun key known => (recorded_grows event).1 key (each key known)⟩
  · rw [(onward_moved event).others id same] at below
    obtain ⟨found, read, each⟩ := noted id other member usage below
    exact ⟨found, read, fun key known => (recorded_grows event).1 key (each key known)⟩

theorem page_noted (count : Nat) (sound : Sound w) (noted : Noted b w) : Noted b (recordPage b o conversation w
    (((journalOf w conversation.id).drop (cursorOf w conversation.id)).take count)).1 := by
  induction count generalizing w with
  | zero =>
    rw [List.take_zero]
    exact noted
  | succ count ih =>
    cases rest : (journalOf w conversation.id).drop (cursorOf w conversation.id) with
    | nil => exact noted
    | cons event =>
      have here : (journalOf w conversation.id)[cursorOf w conversation.id]? = some event := by
        rw [← List.head?_drop, rest]
        rfl
      rw [List.take_succ_cons, page_cons]
      split
      · next fine =>
        have onward := @onward_moved b o conversation w event
        have again := ih (onward_sound onward sound) (moved_noted sound noted here fine)
        rw [onward_journal onward, moved_cursor, numbered_at (sound.numbered conversation.id) here,
          ← List.tail_drop, rest] at again
        exact again
      · exact noted_keeps noted rfl (recorded_grows event).1 fun _ => rfl

theorem loop_noted (fuel : Nat) (sound : Sound w) (noted : Noted b w) :
    Noted b (reconcileConversation b o conversation fuel w) := by
  induction fuel generalizing w with
  | zero => exact noted
  | succ fuel ih =>
    unfold reconcileConversation
    split
    · have page := @page_noted b o conversation w pageSize sound noted
      dsimp only
      rw [events_after (sound.numbered conversation.id)]
      split
      · exact ih (onward_sound (page_onward _) sound) page
      · exact page
    · exact noted

theorem reconcile_keeps (o : Outcomes) (sound : Sound w) :
    Sound (reconcile b o w) ∧ (Noted b w → Noted b (reconcile b o w)) ∧
      (reconcile b o w).conversations = w.conversations ∧ (reconcile b o w).journals = w.journals := by
  unfold reconcile
  generalize values w.conversations = conversations
  induction conversations generalizing w with
  | nil => exact ⟨sound, fun noted => noted, rfl, rfl⟩
  | cons conversation rest ih =>
    have onward := @loop_onward b o conversation w ((journalOf w conversation.id).length + 1)
    obtain ⟨sound', noted', same, files⟩ := ih (onward_sound onward sound)
    exact ⟨sound', fun noted => noted' (loop_noted _ sound noted), same.trans onward.conversations,
      files.trans onward.journals⟩

end Pages

section Working
variable {b : Backend} {o : Outcomes} {conversation : Conversation} {w : World}

def passes (b : Backend) (w : World) (conversation : Conversation) (event : Event) : Bool :=
  event.type ≠ "usage" ∨ (stores b w conversation event).isSome

def Brings (b : Backend) (w : World) (conversation : Conversation) (es : List Event) (key : Key) : Prop :=
  ∃ event ∈ es, ∃ found, event.type = "usage" ∧ stores b w conversation event = some found ∧
    key ∈ keysOf conversation.id found

theorem recorded_works (works : Works o) (event : Event) :
    ((recorded b o conversation w event).2 = none ↔ passes b w conversation event) ∧
    ∀ key, key ∈ (recorded b o conversation w event).1.map Row.key ↔
      key ∈ keys w ∨ Brings b w conversation [event] key := by
  unfold recorded
  split
  · next usage =>
    rw [works.2]
    obtain ⟨error, failed, refused⟩ | ⟨found, stored, went⟩ :=
      @record_usage_cases b w.prices w.ledger _ _ _ _ Transaction.works
    · have unstored : stores b w conversation event = none := refused rfl
      rw [failed]
      refine ⟨by simp [passes, usage, unstored], fun key => ⟨.inl, ?_⟩⟩
      rintro (known | ⟨other, member, found, _, stored, _⟩)
      · exact known
      · rw [List.mem_singleton.mp member, unstored] at stored
        cases stored
    · have stored_ : stores b w conversation event = some found := stored
      rw [went]
      refine ⟨by simp [passes, stored_], fun key => ?_⟩
      rw [insert_rows_keys, rows_keys]
      refine or_congr Iff.rfl ⟨fun member => ⟨event, List.mem_singleton_self event, found, usage, stored, member⟩, ?_⟩
      rintro ⟨other, member, found', _, stored', known⟩
      rw [List.mem_singleton.mp member] at stored'
      cases stored.symm.trans stored'
      exact known
  · next other =>
    refine ⟨by simp [passes, other], fun key => ⟨.inl, ?_⟩⟩
    rintro (known | ⟨event', member, _, usage, _⟩)
    · exact known
    · exact absurd (List.mem_singleton.mp member ▸ usage) other

variable {id : String} {next : World}

theorem brings_cons (event : Event) (rest : List Event) (key : Key) :
    Brings b w conversation (event :: rest) key ↔ Brings b w conversation [event] key ∨ Brings b w conversation rest key := by
  simp only [Brings, List.exists_mem_cons_iff, List.not_mem_nil, false_and, exists_false, or_false]

theorem page_works (works : Works o) (es : List Event) :
    ((recordPage b o conversation w es).2 = es.all (passes b w conversation)) ∧
    (∀ key, key ∈ keys (recordPage b o conversation w es).1 ↔
      key ∈ keys w ∨ Brings b w conversation (es.takeWhile (passes b w conversation)) key) ∧
    (es.all (passes b w conversation) → cursorOf (recordPage b o conversation w es).1 conversation.id =
      (es.getLast?.map Event.sequence).getD (cursorOf w conversation.id)) := by
  induction es generalizing w with
  | nil =>
    refine ⟨rfl, fun key => ⟨.inl, ?_⟩, fun _ => rfl⟩
    rintro (known | ⟨event, member, _⟩)
    · exact known
    · cases member
  | cons event rest ih =>
    obtain ⟨fine, rows⟩ := @recorded_works b o conversation w works event
    rw [page_cons]
    by_cases passed : passes b w conversation event
    · obtain ⟨done, later, cursor⟩ := ih (w := moved w conversation.id event (recorded b o conversation w event).1)
      rw [if_pos (fine.mpr passed), List.all_cons, passed, Bool.true_and, List.takeWhile_cons_of_pos passed]
      refine ⟨done, fun key => ?_, fun each => ?_⟩
      · rw [brings_cons, ← or_assoc, ← rows]
        exact later key
      · rw [cursor each, moved_cursor, List.getLast?_cons]
        cases rest.getLast? <;> rfl
    · rw [if_neg fun went => passed (fine.mp went), List.all_cons, List.takeWhile_cons_of_neg passed]
      have stopped : passes b w conversation event = false := Bool.eq_false_iff.mpr passed
      refine ⟨by rw [stopped, Bool.false_and], fun key => ?_, fun each => ?_⟩
      · have unstored : stores b w conversation event = none := by
          have refused := mt (fun stored => decide_eq_true (Or.inr stored)) passed
          exact Option.not_isSome_iff_eq_none.mp refused
        refine (rows key).trans (or_congr Iff.rfl ⟨?_, ?_⟩)
        · rintro ⟨other, member, found, _, stored, _⟩
          rw [List.mem_singleton.mp member, unstored] at stored
          cases stored
        · rintro ⟨other, member, _⟩
          cases member
      · rw [stopped, Bool.false_and] at each
        cases each

theorem takes_while_page {list : List Event} {pass : Event → Bool} (count : Nat) :
    list.takeWhile pass = (list.take count).takeWhile pass ++
      if (list.take count).all pass then (list.drop count).takeWhile pass else [] := by
  conv_lhs => rw [← List.take_append_drop count list]
  split
  · next each => rw [List.takeWhile_append_of_pos (fun x member => List.all_eq_true.mp each x member),
      List.takeWhile_eq_self_iff.mpr (fun x member => List.all_eq_true.mp each x member)]
  · next stops =>
    rw [List.takeWhile_append, if_neg, List.append_nil]
    intro whole
    refine stops (List.all_eq_true.mpr ?_)
    exact List.takeWhile_eq_self_iff.mp ((List.takeWhile_prefix pass).eq_of_length whole)

theorem onward_stores (onward : Onward id w next) (conversation : Conversation) :
    stores b next conversation = stores b w conversation ∧ passes b next conversation = passes b w conversation := by
  have same : stores b next conversation = stores b w conversation := by
    funext event
    rw [stores, stores, onward.prices]
  refine ⟨same, ?_⟩
  funext event
  rw [passes, passes, same]

theorem onward_brings (onward : Onward id w next) (conversation : Conversation)
    (es : List Event) (key : Key) : Brings b next conversation es key ↔ Brings b w conversation es key := by
  rw [Brings, Brings, (onward_stores onward conversation).1]

theorem brings_append (first second : List Event) (key : Key) : Brings b w conversation (first ++ second) key ↔
    Brings b w conversation first key ∨ Brings b w conversation second key := by
  simp only [Brings, List.mem_append, or_and_right, exists_or]

theorem full_page_last {journal : Journal} (numbered : journal.map Event.sequence = List.range' 1 journal.length)
    {after count : Nat} (some_ : 0 < count) (full : ((journal.drop after).take count).length = count) :
    ((journal.drop after).take count).getLast?.map Event.sequence = some (after + count) := by
  rw [List.length_take, List.length_drop] at full
  have inside : after + (count - 1) < journal.length := by omega
  have here : journal[after + (count - 1)]? = some (journal.get ⟨after + (count - 1), inside⟩) := List.getElem?_eq_getElem inside
  have last : ((journal.drop after).take count).getLast? = some (journal.get ⟨after + (count - 1), inside⟩) := by
    rw [List.getLast?_eq_getElem?, List.length_take, List.length_drop, full, List.getElem?_take_of_lt (by omega),
      List.getElem?_drop, here]
  rw [last, Option.map_some, numbered_at numbered here]
  congr 1
  omega

theorem loop_works (works : Works o) (fuel : Nat) (sound : Sound w)
    (enough : (journalOf w conversation.id).length < cursorOf w conversation.id + fuel) (key : Key) :
    key ∈ keys (reconcileConversation b o conversation fuel w) ↔ key ∈ keys w ∨ Brings b w conversation
      (((journalOf w conversation.id).drop (cursorOf w conversation.id)).takeWhile (passes b w conversation)) key := by
  induction fuel generalizing w with
  | zero =>
    have past : (journalOf w conversation.id).length ≤ cursorOf w conversation.id := Nat.le_of_lt enough
    rw [List.drop_eq_nil_of_le past]
    refine ⟨.inl, ?_⟩
    rintro (known | ⟨event, member, _⟩)
    · exact known
    · cases member
  | succ fuel ih =>
    have numbered := sound.numbered conversation.id
    obtain ⟨done, rows, cursor⟩ := @page_works b o conversation w works
      (((journalOf w conversation.id).drop (cursorOf w conversation.id)).take pageSize)
    have onward := @page_onward b o conversation w
      (((journalOf w conversation.id).drop (cursorOf w conversation.id)).take pageSize)
    rw [reconcileConversation, if_pos (works.1 _ _), events_after numbered, takes_while_page pageSize, brings_append,
      ← or_assoc, ← rows]
    dsimp only
    rw [done]
    split
    · next goes =>
      have last := full_page_last numbered (by decide) goes.2
      have further := cursor goes.1
      rw [last, Option.getD_some] at further
      have again := ih (onward_sound onward sound) (by
        rw [onward_journal onward, further]
        have one : 0 < pageSize := by decide
        omega)
      rw [again, onward_journal onward, further, onward_brings onward, (onward_stores onward conversation).2,
        if_pos goes.1, List.drop_drop]
    · next stops =>
      refine ⟨.inl, ?_⟩
      rintro (known | ⟨event, member, _⟩)
      · exact known
      · exfalso
        split at member
        · next each =>
          have short : ((journalOf w conversation.id).drop (cursorOf w conversation.id)).length ≤ pageSize := by
            by_contra long
            refine stops ⟨each, ?_⟩
            rw [List.length_take]
            omega
          rw [List.drop_eq_nil_of_le short] at member
          cases member
        · cases member

def Fetches (b : Backend) (w : World) (conversation : Conversation) (key : Key) : Prop :=
  ∃ event found, Reached b w conversation event ∧ stores b w conversation event = some found ∧
    key ∈ keysOf conversation.id found

theorem reached_iff (sound : Sound w) (event : Event) : Reached b w conversation event ↔ event.type = "usage" ∧
    event ∈ ((journalOf w conversation.id).drop (cursorOf w conversation.id)).takeWhile (passes b w conversation) := by
  have numbered := sound.numbered conversation.id
  have ordered := (numbered_ordered numbered).drop (i := cursorOf w conversation.id)
  rw [mem_take_while ordered]
  simp only [mem_drop_number numbered, passes, decide_eq_true_eq]
  constructor
  · rintro ⟨there, usage, past, free⟩
    refine ⟨usage, ⟨there, past⟩, fun other member little => ?_⟩
    rcases eq_or_ne other.type "usage" with mine | apart
    · exact .inr (free other member.1 mine member.2 little)
    · exact .inl apart
  · rintro ⟨usage, ⟨there, past⟩, free⟩
    refine ⟨there, usage, past, fun other member mine beyond little => ?_⟩
    exact (free other ⟨member, beyond⟩ little).resolve_left fun apart => apart mine

theorem brings_fetches (sound : Sound w) (key : Key) : Brings b w conversation
    (((journalOf w conversation.id).drop (cursorOf w conversation.id)).takeWhile (passes b w conversation)) key ↔
      Fetches b w conversation key := by
  simp only [Brings, Fetches, reached_iff sound]
  constructor
  · rintro ⟨event, member, found, usage, stored, known⟩
    exact ⟨event, found, ⟨usage, member⟩, stored, known⟩
  · rintro ⟨event, found, ⟨usage, member⟩, stored, known⟩
    exact ⟨event, member, found, usage, stored, known⟩

theorem onward_fetches (onward : Onward id w next) (apart : conversation.id ≠ id) (key : Key) :
    Fetches b next conversation key ↔ Fetches b w conversation key := by
  have same (event : Event) : Reached b next conversation event ↔ Reached b w conversation event := by
    constructor
    · rintro ⟨there, usage, past, free⟩
      rw [onward_journal onward, onward.others _ apart, (onward_stores onward conversation).1] at *
      exact ⟨there, usage, past, free⟩
    · rintro ⟨there, usage, past, free⟩
      rw [← onward_journal onward, ← onward.others _ apart, ← (onward_stores onward conversation).1] at *
      exact ⟨there, usage, past, free⟩
  simp only [Fetches, same, (onward_stores onward conversation).1]

theorem fold_works (works : Works o) {conversations : List Conversation} (sound : Sound w)
    (distinct : (conversations.map Conversation.id).Nodup) (key : Key) :
    key ∈ keys (conversations.foldl (fun w conversation =>
      reconcileConversation b o conversation ((journalOf w conversation.id).length + 1) w) w) ↔
      key ∈ keys w ∨ ∃ conversation ∈ conversations, Fetches b w conversation key := by
  induction conversations generalizing w with
  | nil => simp
  | cons conversation rest ih =>
    have onward := @loop_onward b o conversation w ((journalOf w conversation.id).length + 1)
    rw [List.map_cons, List.nodup_cons] at distinct
    have mine := @loop_works b o conversation w works ((journalOf w conversation.id).length + 1) sound (by omega) key
    rw [brings_fetches sound] at mine
    rw [List.foldl_cons, ih (onward_sound onward sound) distinct.2, mine, List.exists_mem_cons_iff, or_assoc]
    refine or_congr Iff.rfl (or_congr Iff.rfl ?_)
    refine exists_congr fun other => and_congr_right fun member => onward_fetches onward ?_ key
    intro same
    exact distinct.1 (List.mem_map.mpr ⟨other, member, same⟩)

theorem reconcile_works (works : Works o) (sound : Sound w) (key : Key) : key ∈ keys (reconcile b o w) ↔
    key ∈ keys w ∨ ∃ conversation ∈ values w.conversations, Fetches b w conversation key :=
  fold_works works sound (ControlPlane.filed_keys_nodup sound.filed) key

/-- A working pass completes the ledger exactly where all that is missing is reached. -/
theorem complete_iff (works : Works o) (sound : Sound w) : Complete b (reconcile b o w) ↔ Ready b w := by
  obtain ⟨_, _, conversations, journals⟩ := reconcile_keeps (b := b) o sound
  have files (id : String) : journalOf (reconcile b o w) id = journalOf w id := by rw [journalOf, journalOf, journals]
  simp only [Complete, Ready, conversations, files, reconcile_works works sound]
  refine forall_congr' fun conversation => forall_congr' fun listed => ?_
  refine forall_congr' fun event => imp_congr_right fun _ => imp_congr_right fun _ => ?_
  refine forall_congr' fun usage => imp_congr_right fun _ => forall_congr' fun key => imp_congr_right fun mine => ?_
  refine or_congr Iff.rfl ⟨?_, fun reached => ⟨conversation, listed, reached⟩⟩
  -- The conversation is part of the key.
  rintro ⟨other, listed', event', found, reached, stored, known⟩
  have same : other.id = conversation.id := by
    obtain ⟨_, _, rfl⟩ := List.mem_map.mp mine
    obtain ⟨_, _, same⟩ := List.mem_map.mp known
    exact congrArg Key.conversationID same
  have one : other = conversation := by
    have first := (filed_mem sound.filed).mp listed'
    rw [same, (filed_mem sound.filed).mp listed] at first
    exact (Option.some.inj first).symm
  subst one
  exact ⟨event', found, reached, stored, known⟩

theorem clear_ready (noted : Noted b w) (clear : Clear b w) : Ready b w := by
  intro conversation listed event there usage found accepted key mine
  by_cases known : key ∈ keys w
  · exact .inl known
  refine .inr ⟨event, ?_⟩
  have free := clear conversation listed event there usage found accepted ⟨key, mine, known⟩
  rcases Nat.lt_or_ge (cursorOf w conversation.id) event.sequence with past | old
  · obtain ⟨found', stored⟩ := Option.isSome_iff_exists.mp (free event there usage past (Nat.le_refl _))
    have same : found' = found := Option.some.inj ((storable_accepted stored).symm.trans accepted)
    exact ⟨found, ⟨there, usage, past, free⟩, same ▸ stored, mine⟩
  · obtain ⟨found', read, each⟩ := noted conversation.id event there usage old
    cases read.symm.trans (accepted_read accepted)
    exact absurd (each key mine) known

end Working

section Runs
variable {b : Backend} {w : World}

theorem start_sound (prices : Prices) : Sound (start prices) := by
  refine ⟨filed_empty, fun id => ?_, List.nodup_nil⟩
  rw [journalOf, start, AList.lookup_empty]
  rfl

theorem start_noted (prices : Prices) : Noted b (start prices) := by
  intro id event member
  rw [journalOf, start, AList.lookup_empty] at member
  cases member

theorem direct_grows {w next : World} {id requestID : String} {data : Bytes} {now : Instant} {transaction : Transaction}
    (stepped : step b w (.direct id requestID data now transaction) = some next) :
    ∃ ledger, next = { w with ledger } ∧ (∀ key ∈ keys w, key ∈ ledger.map Row.key) ∧
      ((keys w).Nodup → (ledger.map Row.key).Nodup) := by
  have same : ∃ ledger, w = { w with ledger } ∧ (∀ key ∈ keys w, key ∈ ledger.map Row.key) ∧
      ((keys w).Nodup → (ledger.map Row.key).Nodup) := ⟨w.ledger, rfl, fun _ known => known, fun nodup => nodup⟩
  simp only [step] at stepped
  split at stepped
  · next conversation _ =>
    split at stepped
    · cases stepped
      exact same
    · cases stepped
      refine ⟨_, rfl, ?_⟩
      obtain ⟨error, failed, _⟩ | ⟨usage, _, went⟩ :=
        @record_usage_cases b w.prices w.ledger conversation requestID data now transaction
      · rw [failed]
        exact ⟨fun _ known => known, fun nodup => nodup⟩
      · rw [went]
        exact ⟨fun key member => (insert_rows_keys _ key).mpr (.inl member), insert_rows_nodup _⟩
  · cases stepped
    exact same

theorem journal_insert (w : World) (id : String) (journal : Journal) (other : String) :
    journalOf { w with journals := w.journals.insert id journal } other = if other = id then journal else journalOf w other := by
  unfold journalOf
  split
  · next same => rw [same, AList.lookup_insert, Option.getD_some]
  · next apart => rw [AList.lookup_insert_ne apart]

theorem journal_erase (w : World) (id other : String) :
    journalOf { w with journals := w.journals.erase id } other = if other = id then [] else journalOf w other := by
  unfold journalOf
  split
  · next same => rw [same, AList.lookup_erase, Option.getD_none]
  · next apart => rw [AList.lookup_erase_ne apart]

theorem step_sound (w : World) (action : Step) (next : World) (sound : Sound w) (stepped : step b w action = some next) :
    Sound next := by
  cases action with
  | put =>
    cases stepped
    exact ⟨filed_insert sound.filed rfl, sound.numbered, sound.unique⟩
  | delete id =>
    cases stepped
    exact ⟨filed_erase sound.filed id, sound.numbered, sound.unique⟩
  | append id event =>
    simp only [step] at stepped
    split at stepped
    · cases stepped
      refine ⟨sound.filed, fun other => ?_, sound.unique⟩
      rw [journal_insert]
      split
      · exact append_numbered (sound.numbered id) event
      · exact sound.numbered other
    · cases stepped
  | remove =>
    cases stepped
    refine ⟨sound.filed, fun other => ?_, sound.unique⟩
    rw [journal_erase]
    split
    · rfl
    · exact sound.numbered other
  | direct =>
    obtain ⟨ledger, rfl, _, unique⟩ := direct_grows stepped
    exact ⟨sound.filed, sound.numbered, unique sound.unique⟩
  | reprice | restart =>
    cases stepped
    exact ⟨sound.filed, sound.numbered, sound.unique⟩
  | pass outcomes =>
    cases stepped
    exact (reconcile_keeps outcomes sound).1

theorem step_noted (w : World) (action : Step) (next : World) (careful : Careful w action) (kept : Sound w ∧ Noted b w)
    (stepped : step b w action = some next) : Sound next ∧ Noted b next := by
  obtain ⟨sound, noted⟩ := kept
  refine ⟨step_sound w action next sound stepped, ?_⟩
  cases action with
  | put | delete | reprice =>
    cases stepped
    exact noted
  | append =>
    simp only [step] at stepped
    split at stepped
    · cases stepped
      intro other old member usage below
      rw [journal_insert] at member
      split at member
      · next same =>
        subst same
        rcases List.mem_append.mp member with before | new
        · exact noted other old before usage below
        · rw [List.mem_singleton.mp new] at usage below
          exact absurd (careful usage) (Nat.not_le_of_lt below)
      · exact noted other old member usage below
    · cases stepped
  | remove =>
    cases stepped
    intro other old member usage below
    rw [journal_erase] at member
    split at member
    · cases member
    · exact noted other old member usage below
  | direct =>
    obtain ⟨ledger, rfl, grows, _⟩ := direct_grows stepped
    exact noted_keeps noted rfl grows fun _ => rfl
  | restart =>
    cases stepped
    intro other old member _ below
    obtain ⟨k, here⟩ := List.mem_iff_getElem?.mp member
    rw [numbered_at (sound.numbered other) here] at below
    exact absurd below (Nat.not_succ_le_zero k)
  | pass outcomes =>
    cases stepped
    exact (reconcile_keeps outcomes sound).2.1 noted

/-- No two rows have the same key; a working pass completes the ledger exactly where every accepted usage event that is
    missing is reached, which it is unless it was appended below the cursor or an event that cannot be recorded is before
    it. -/
theorem ledger_complete (b : Backend) (prices : Prices) {steps : List Step} {w : World}
    (ran : run (step b) (start prices) steps = some w) :
    (keys w).Nodup ∧
    (∀ o, Works o → (Complete b (reconcile b o w) ↔ Ready b w)) ∧
    (Guarded (step b) Careful (start prices) steps → Clear b w → ∀ o, Works o → Complete b (reconcile b o w)) := by
  have sound := run_invariant Sound step_sound ran (start_sound prices)
  refine ⟨sound.unique, fun o works => complete_iff works sound, fun careful clear o works => ?_⟩
  have noted := (guarded_run_invariant (fun w => Sound w ∧ Noted b w) step_noted careful ran
    ⟨start_sound prices, start_noted prices⟩).2
  exact (complete_iff works sound).mpr (clear_ready noted clear)

end Runs

section Samples

def measurement : ModelMeasurement := ⟨12, 3, 0, 0, 0, 0, "", ""⟩

def usageText (resultID : String) : Bytes :=
  JournalFile.bytes ("\x7b\"type\":\"usage\",\"schemaVersion\":1,\"resultId\":\"" ++ resultID ++
    "\",\"queryRunId\":\"q1\",\"modelUsage\":\x7b\"m\":\x7b\"inputTokens\":12,\"outputTokens\":3\x7d\x7d\x7d")

def usageOf (resultID : String) : UsageEvent where
  type := "usage"
  schemaVersion := 1
  resultID
  queryRunID := "q1"
  sessionID := ""
  subtype := ""
  reportedAt := JournalFile.zeroTime
  modelUsage := (∅ : Table ModelMeasurement).insert "m" measurement

def unversionedText : Bytes := JournalFile.bytes "\x7b\"type\":\"usage\"\x7d"

def unversioned : UsageEvent := ⟨"usage", 0, "", "", "", "", JournalFile.zeroTime, ∅⟩

def sample : Backend where
  unmarshal raw :=
    if raw = usageText "r1" then some (usageOf "r1") else if raw = usageText "r2" then some (usageOf "r2")
    else if raw = unversionedText then some unversioned else none
  cost _ _ := 0
  fits _ := true

def noPrices : Prices := fun _ _ _ => none

def conversation : Conversation := ⟨"c1", "i1", "u1", "o1", "p1", "s1"⟩

def usage (data : Bytes) : Event := ⟨1, "usage", "q1", data, JournalReplay.noon⟩

def second (data : Bytes) : Event := { usage data with sequence := 2 }

def served : List Step :=
  [.put conversation, .append "c1" (usage (usageText "r1")), .pass ⟨fun _ _ => true, fun _ _ => .fails⟩,
    .append "c1" (usage (usageText "r2")), .direct "c1" "q1" (usageText "r1") JournalReplay.noon .lost]

def carefully (w : World) : Step → Bool
  | .append id event => event.type ≠ "usage" ∨ cursorOf w id ≤ lastSequence (journalOf w id)
  | _ => true

theorem carefully_sound (w : World) (action : Step) (checked : carefully w action) : Careful w action := by
  cases action with
  | append =>
    intro usage
    rcases of_decide_eq_true checked with apart | fine
    · exact absurd usage apart
    · exact fine
  | _ => trivial

/-- A write that has failed is made up for. -/
theorem served_complete : ∃ w, run (step sample) (start noPrices) served = some w ∧
    Complete sample (reconcile sample working w) ∧ (keys (reconcile sample working w)).length = 2 := by
  obtain ⟨w, ran, facts⟩ := Option.map_eq_some_iff.mp
    (show (run (step sample) (start noPrices) served).map (fun w => (values w.conversations, journalOf w "c1",
      (stores sample w conversation (usage (usageText "r1"))).isSome,
      (stores sample w conversation (second (usageText "r2"))).isSome,
      (keys (reconcile sample working w)).length)) =
      some ([conversation], [usage (usageText "r1"), second (usageText "r2")], true, true, 2) from by decide +kernel)
  simp only [Prod.mk.injEq] at facts
  obtain ⟨listed, journal, first, next, count⟩ := facts
  refine ⟨w, ran, ?_, count⟩
  refine (ledger_complete sample noPrices ran).2.2 (checked_guarded carefully carefully_sound _ _ (by decide +kernel)) ?_
    working ⟨fun _ _ => rfl, fun _ _ => rfl⟩
  intro one member _ _ _ _ _ _ other there _ _ _
  rw [listed, List.mem_singleton] at member
  subst member
  have there : other ∈ journalOf w "c1" := there
  rw [journal, List.mem_pair] at there
  rcases there with rfl | rfl
  · exact first
  · exact next

def blocked : List Step :=
  [.put conversation, .append "c1" (usage unversionedText), .append "c1" (usage (usageText "r1"))]

def recreated : List Step :=
  [.put conversation, .append "c1" (usage (usageText "r1")), .pass working, .remove "c1",
    .append "c1" (usage (usageText "r2"))]

def missing (event : Event) (key : Key) (w : World) : Bool :=
  conversation ∈ values w.conversations ∧ event ∈ journalOf w "c1" ∧ event.type = "usage" ∧
    ((accepts sample conversation event).map fun found => decide (key ∈ keysOf "c1" found)) = some true ∧ key ∉ keys w

theorem missing_incomplete {event : Event} {key : Key} {w : World} (missed : missing event key w) :
    ¬ Complete sample w := by
  obtain ⟨listed, there, usage, accepted, absent⟩ := of_decide_eq_true missed
  obtain ⟨found, known, mine⟩ := Option.map_eq_some_iff.mp accepted
  exact fun complete => absent (complete conversation listed event there usage found known key (of_decide_eq_true mine))

/-- The event behind one that is never recorded, and the one below the cursor. -/
theorem ledger_incomplete :
    (∃ w, run (step sample) (start noPrices) blocked = some w ∧ ¬ Complete sample (reconcile sample working w)) ∧
    ∃ w, run (step sample) (start noPrices) recreated = some w ∧ ¬ Complete sample (reconcile sample working w) := by
  constructor
  · obtain ⟨w, ran, missed⟩ := Option.map_eq_some_iff.mp
      (show (run (step sample) (start noPrices) blocked).map (fun w =>
        missing (second (usageText "r1")) ⟨"c1", "r1", "m"⟩ (reconcile sample working w)) = some true from by decide +kernel)
    exact ⟨w, ran, missing_incomplete missed⟩
  · obtain ⟨w, ran, missed⟩ := Option.map_eq_some_iff.mp
      (show (run (step sample) (start noPrices) recreated).map (fun w =>
        missing (usage (usageText "r2")) ⟨"c1", "r2", "m"⟩ (reconcile sample working w)) = some true from by decide +kernel)
    exact ⟨w, ran, missing_incomplete missed⟩

end Samples
end PieRelay.UsageCompleteness
