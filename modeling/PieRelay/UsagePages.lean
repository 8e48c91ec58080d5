import Mathlib.Data.Prod.Lex
import PieRelay.Base64Url
import PieRelay.KeysetPages
import PieRelay.UsageLedger

/-!
How the ledger of model costs is listed page by page, executor-manager/internal/usage: `List` of the store and of the
service, and the text of the cursor. `column` is what the database makes of a time that it is handed. Left out: a
database that fails, and the fields of a row that are not selected.
-/
namespace PieRelay.UsagePages
open List Option
open JsonScanner (Bytes)
open JsonNumbers (int64 readInt writeInt)
open JsonObjects (Fields writeObject)
open JsonRecords (nullWord unmarshalRecord)
open JournalFile (isField zeroTime)
open Timestamps (Civil Instant daysIn readInstant writeInstant)
open UsageLedger (Row)

def stamp (t : Instant) : Nat :=
  (((((t.1.year * 13 + t.1.month) * 32 + t.1.day) * 24 + t.1.hour) * 60 + t.1.minute) * 60 + t.1.second) * 1000000000 +
    t.1.nanos

structure Stored where
  id : Int
  row : Row
  positive : 1 ≤ id
  fits : int64 id
  received : row.attribution.receivedAt ≠ zeroTime
  deriving DecidableEq

def Stored.receivedAt (stored : Stored) : Instant := stored.row.attribution.receivedAt

structure Ledger (column : Instant → Instant) where
  rows : List Stored
  primary : (rows.map Stored.id).Nodup
  kept : ∀ stored ∈ rows, column stored.receivedAt = stored.receivedAt

structure ListItem where
  databaseID : Int
  occurredAt : Instant
  projectID : String
  conversationID : String
  requestID : String
  resultStatus : String
  provider : String
  model : String
  canonicalModel : String
  inputTokens : Int
  outputTokens : Int
  cacheReadInputTokens : Int
  cacheCreationInputTokens : Int
  webSearchRequests : Int
  totalTokens : Int
  costUSD : UInt64
  costSource : String
  deriving DecidableEq

def item (stored : Stored) : ListItem :=
  let value := stored.row.measurement
  { databaseID := stored.id, occurredAt := stored.receivedAt
    projectID := stored.row.attribution.projectID, conversationID := stored.row.attribution.conversationID
    requestID := stored.row.attribution.requestID, resultStatus := stored.row.subtype
    provider := stored.row.provider, model := stored.row.model, canonicalModel := stored.row.canonicalModel
    inputTokens := value.inputTokens, outputTokens := value.outputTokens
    cacheReadInputTokens := value.cacheReadInputTokens, cacheCreationInputTokens := value.cacheCreationInputTokens
    webSearchRequests := value.webSearchRequests
    totalTokens := (value.inputTokens + value.outputTokens + value.cacheReadInputTokens +
      value.cacheCreationInputTokens).bmod (2 ^ 64)
    costUSD := stored.row.calculatedCost, costSource := stored.row.costSource }

structure ListCursor where
  version : Int
  occurredAt : Instant
  databaseID : Int
  deriving DecidableEq

def cursorFields (c : ListCursor) : Fields :=
  [("v", writeInt c.version), ("at", writeInstant c.occurredAt), ("id", writeInt c.databaseID)]

def encodeListCursor (item : ListItem) : Bytes :=
  Base64Url.encode (writeObject (cursorFields ⟨1, item.occurredAt, item.databaseID⟩))

def assign (c : ListCursor) (field : String × Bytes) : Option ListCursor :=
  if isField field.1 "v" then
    if field.2 = nullWord then some c else (readInt field.2).map fun version => { c with version }
  else if isField field.1 "at" then
    if field.2 = nullWord then some c else (readInstant field.2).map fun occurredAt => { c with occurredAt }
  else if isField field.1 "id" then
    if field.2 = nullWord then some c else (readInt field.2).map fun databaseID => { c with databaseID }
  else none

inductive ListError where
  | unavailable
  | invalidLimit
  | invalidCursor
  | invalidScope
  deriving DecidableEq

def blank (raw : Bytes) : Bool := (GoStrings.runes 0 raw).all PreviewRecords.isSpace

def decodeListCursor (raw : Bytes) : Except ListError (Option ListCursor) :=
  if blank raw then .ok none
  else if 1024 < raw.length then .error .invalidCursor
  else match Base64Url.decode raw with
    | none => .error .invalidCursor
    | some decoded =>
      match (unmarshalRecord decoded).bind fun fields => fields.foldlM assign ⟨0, zeroTime, 0⟩ with
      | none => .error .invalidCursor
      | some cursor =>
        if cursor.version ≠ 1 ∨ cursor.occurredAt = zeroTime ∨ cursor.databaseID < 1 then .error .invalidCursor
        else .ok (some cursor)

section Cursors
variable {t : Instant}
variable {n : Int}

theorem last_digit {base x y a b : Nat} (small : a < base) (small' : b < base) (same : x * base + a = y * base + b) :
    x = y ∧ a = b := by
  have quotient := congrArg (· / base) same
  have rest := congrArg (· % base) same
  have positive : 0 < base := Nat.zero_lt_of_lt small
  simp only [Nat.mul_comm _ base, Nat.mul_add_div positive, Nat.div_eq_of_lt small, Nat.div_eq_of_lt small',
    Nat.add_zero] at quotient
  simp only [Nat.mul_comm _ base, Nat.mul_add_mod, Nat.mod_eq_of_lt small, Nat.mod_eq_of_lt small'] at rest
  exact ⟨quotient, rest⟩

theorem days_few (month year : Nat) : daysIn month year < 32 := by
  unfold daysIn
  split
  · split <;> omega
  · split <;> omega

/-- The civil date and time are the digits of the stamp. -/
theorem stamp_injective {a b : Instant} (same : stamp a = stamp b) : a = b := by
  obtain ⟨_, _, month, _, day, hour, minute, second, nanos⟩ := of_decide_eq_true a.2
  obtain ⟨_, _, month', _, day', hour', minute', second', nanos'⟩ := of_decide_eq_true b.2
  have days := days_few a.1.month a.1.year
  have days' := days_few b.1.month b.1.year
  obtain ⟨same, nanos⟩ := last_digit nanos nanos' same
  obtain ⟨same, second⟩ := last_digit second second' same
  obtain ⟨same, minute⟩ := last_digit minute minute' same
  obtain ⟨same, hour⟩ := last_digit hour hour' same
  obtain ⟨same, day⟩ := last_digit (by omega) (by omega) same
  obtain ⟨year, month⟩ := last_digit (by omega) (by omega) same
  have fields (t : Civil) : t = ⟨t.year, t.month, t.day, t.hour, t.minute, t.second, t.nanos⟩ := rfl
  apply Subtype.ext
  rw [fields a.1, fields b.1, year, month, day, hour, minute, second, nanos]

theorem write_digits_length (fuel n : Nat) (written : Bytes) (room : Nat) (small : n < 10 ^ (room + 1)) :
    (JsonNumbers.writeDigits fuel n written).length ≤ written.length + (room + 1) := by
  induction fuel generalizing n written room with
  | zero => exact Nat.le_add_right _ _
  | succ fuel ih =>
    unfold JsonNumbers.writeDigits
    split
    · rw [length_cons]
      omega
    · next large =>
      cases room with
      | zero => exact absurd small large
      | succ room =>
        have shorter : n / 10 < 10 ^ (room + 1) := by
          rw [Nat.div_lt_iff_lt_mul (by decide), ← Nat.pow_succ]
          exact small
        have tail := ih (n / 10) (JsonNumbers.digit n :: written) room shorter
        rw [length_cons] at tail
        omega

theorem int_length (fits : int64 n) : (writeInt n).length ≤ 20 := by
  obtain ⟨least, most⟩ := fits
  cases n with
  | ofNat n =>
    have most : (n : Int) < 9223372036854775808 := most
    have short := write_digits_length (n + 1) n [] 18 (by omega)
    rw [length_nil] at short
    exact short.trans (by decide)
  | negSucc n =>
    have short := write_digits_length (n + 1 + 1) (n + 1) [] 18 (by omega)
    rw [length_nil] at short
    exact Nat.succ_le_succ short

theorem fraction_length (nanos : Nat) : (Timestamps.fraction nanos).length ≤ 10 := by
  unfold Timestamps.fraction
  split
  · exact Nat.zero_le _
  · have short := (List.rdropWhile_prefix (· == Timestamps.zero) (Timestamps.pad 9 nanos)).length_le
    rw [Timestamps.pad_length] at short
    exact Nat.succ_le_succ short

theorem instant_length (t : Instant) : (writeInstant t).length ≤ 32 := by
  have short := fraction_length t.1.nanos
  simp only [writeInstant, Timestamps.formatRFC3339, length_cons, length_append, length_nil, Timestamps.pad_length]
  omega

theorem sextets_length (data : Bytes) : (Base64Url.sextets data).length ≤ 2 * data.length := by
  fun_induction Base64Url.sextets data with
  | case1 => exact Nat.le_refl 0
  | case2 => exact Nat.le_refl 2
  | case3 => exact Nat.le_succ 3
  | case4 =>
    simp only [length_cons]
    omega

theorem encoded_length {item : ListItem} (fits : int64 item.databaseID) : (encodeListCursor item).length ≤ 1024 := by
  have at_ := instant_length item.occurredAt
  have id := int_length fits
  have version : (writeInt 1).length = 1 := rfl
  have names : (JsonStrings.quoteString "v").length = 3 ∧ (JsonStrings.quoteString "at").length = 4 ∧
      (JsonStrings.quoteString "id").length = 4 := by decide
  have size : (writeObject (cursorFields ⟨1, item.occurredAt, item.databaseID⟩)).length ≤ 100 := by
    simp only [cursorFields, writeObject, JsonObjects.writeFields, length_cons, length_append, length_nil,
      names, version]
    omega
  have twice := sextets_length (writeObject (cursorFields ⟨1, item.occurredAt, item.databaseID⟩))
  rw [encodeListCursor, Base64Url.encode, length_map]
  omega

theorem digit_visible {n : Nat} (small : n < 64) (rest : Bytes) : blank (Base64Url.digit n :: rest) = false := by
  have ascii : ∀ n, n < 64 → (Base64Url.digit n) < 0x80 ∧
      PreviewRecords.isSpace (Char.ofNat (Base64Url.digit n).toNat) = false := by decide +kernel
  obtain ⟨single, visible⟩ := ascii n small
  have read : JsonStrings.decodeRune (Base64Url.digit n) rest = (Char.ofNat (Base64Url.digit n).toNat, 0) := by
    exact if_pos single
  rw [blank, GoStrings.runes, read, all_cons, visible]
  rfl

theorem encoded_visible (item : ListItem) : encodeListCursor item ≠ [] ∧ blank (encodeListCursor item) = false := by
  have some_ := Base64Url.encode_nonempty (cons_ne_nil JsonScanner.openBrace
    (JsonObjects.writeFields (cursorFields ⟨1, item.occurredAt, item.databaseID⟩)))
  refine ⟨some_, ?_⟩
  have small := Base64Url.sextets_small (writeObject (cursorFields ⟨1, item.occurredAt, item.databaseID⟩))
  rw [Base64Url.encode] at some_
  rw [encodeListCursor, Base64Url.encode]
  cases digits : Base64Url.sextets (writeObject (cursorFields ⟨1, item.occurredAt, item.databaseID⟩)) with
  | nil => exact absurd (congrArg (map Base64Url.digit) digits) some_
  | cons n => exact digit_visible (small n (by rw [digits]; exact mem_cons_self)) _

section Assign
variable (c : ListCursor)

theorem assign_version (fits : int64 n) : assign c ("v", writeInt n) = some { c with version := n } := by
  have mine : isField "v" "v" = true := by decide
  simp only [assign, mine, JsonNumbers.read_write_int n fits, if_neg (JournalFile.int_not_null n), if_true, map_some]

theorem assign_at (t : Instant) : assign c ("at", writeInstant t) = some { c with occurredAt := t } := by
  have other : isField "at" "v" = false := by decide
  have mine : isField "at" "at" = true := by decide
  have apart : writeInstant t ≠ nullWord := JournalFile.quoted_not_null
  simp only [assign, other, mine, Timestamps.read_write_instant, if_neg apart, Bool.false_eq_true, if_false, if_true,
    map_some]

theorem assign_id (fits : int64 n) : assign c ("id", writeInt n) = some { c with databaseID := n } := by
  have others : isField "id" "v" = false ∧ isField "id" "at" = false := by decide
  have mine : isField "id" "id" = true := by decide
  simp only [assign, others, mine, JsonNumbers.read_write_int n fits, if_neg (JournalFile.int_not_null n), Bool.false_eq_true, if_false,
    if_true, map_some]

end Assign

theorem fields_solid (c : ListCursor) :
    ∀ field ∈ cursorFields c, JsonObjects.Solid (JsonScanner.maxNestingDepth - 1) field.2 := by
  simp only [cursorFields, forall_mem_cons, not_mem_nil, false_implies, implies_true, and_true]
  exact ⟨JsonNumbers.int_solid _ _, Timestamps.instant_solid _ _, JsonNumbers.int_solid _ _⟩

/-- The cursor of an item is read back. -/
theorem decode_encoded {item : ListItem} (positive : 1 ≤ item.databaseID) (fits : int64 item.databaseID)
    (received : item.occurredAt ≠ zeroTime) :
    decodeListCursor (encodeListCursor item) = .ok (some ⟨1, item.occurredAt, item.databaseID⟩) := by
  have short := encoded_length fits
  have read : (unmarshalRecord (writeObject (cursorFields ⟨1, item.occurredAt, item.databaseID⟩))).bind
      (fun fields => fields.foldlM assign ⟨0, zeroTime, 0⟩) = some ⟨1, item.occurredAt, item.databaseID⟩ := by
    rw [JsonRecords.unmarshal_written _ (fields_solid _), bind_some]
    simp only [cursorFields, foldlM_cons, foldlM_nil, assign_version _ (show int64 1 by decide), assign_at,
      assign_id _ fits, bind, bind_some, pure]
  rw [decodeListCursor, (encoded_visible item).2, if_neg Bool.false_ne_true, if_neg (Nat.not_lt.mpr short), encodeListCursor,
    Base64Url.decode_encode]
  dsimp only
  rw [read]
  have valid : ¬ ((1 : Int) ≠ 1 ∨ item.occurredAt = zeroTime ∨ item.databaseID < 1) := by
    rintro (version | zero | small)
    · exact version rfl
    · exact received zero
    · omega
  exact if_neg valid

end Cursors

structure Scope where
  integrationID : String
  integrationUserID : String
  from_ : Instant
  to_ : Instant
  deriving DecidableEq

variable (column : Instant → Instant)

/-- The rows of the user in the window, as the database compares their times. -/
def Scope.holds (s : Scope) (stored : Stored) : Bool :=
  stored.row.attribution.integrationID = s.integrationID ∧ stored.row.attribution.integrationUserID = s.integrationUserID ∧
    stamp (column s.from_) ≤ stamp stored.receivedAt ∧ stamp stored.receivedAt < stamp (column s.to_)

def before (cursor : Option ListCursor) (stored : Stored) : Bool :=
  match cursor with
  | none => true
  | some c => stamp stored.receivedAt < stamp (column c.occurredAt) ∨
      stored.receivedAt = column c.occurredAt ∧ stored.id < c.databaseID

def newer (a b : Stored) : Prop :=
  stamp b.receivedAt < stamp a.receivedAt ∨ a.receivedAt = b.receivedAt ∧ b.id ≤ a.id

instance : DecidableRel newer := fun _ _ => inferInstanceAs (Decidable (_ ∨ _))

def PostgresStore.list (ledger : Ledger column) (s : Scope) (limit : Nat) (cursor : Option ListCursor) :
    Except ListError (List ListItem × Bool) :=
  if s.integrationID = "" ∨ s.integrationUserID = "" ∨ s.from_ = zeroTime ∨ stamp s.to_ ≤ stamp s.from_ ∨ limit < 1 ∨
      100 < limit then .error .invalidScope
  else
    let items := (((ledger.rows.filter fun stored => s.holds column stored && before column cursor stored).insertionSort
      newer).take (limit + 1)).map item
    let hasMore := limit < items.length
    .ok (if hasMore then items.take limit else items, hasMore)

structure ListPage where
  items : List ListItem
  nextCursor : Bytes
  deriving DecidableEq

def list (enabled : Bool) (ledger : Ledger column) (s : Scope) (limit : Int) (cursor : Bytes) : Except ListError ListPage :=
  if !enabled then .error .unavailable
  else
    let limit := if limit = 0 then 30 else limit
    if limit < 1 ∨ 100 < limit then .error .invalidLimit
    else match decodeListCursor cursor with
      | .error failure => .error failure
      | .ok before => match PostgresStore.list column ledger s limit.toNat before with
        | .error failure => .error failure
        | .ok (items, hasMore) => .ok ⟨items, match items.getLast? with
          | some last => if hasMore then encodeListCursor last else []
          | none => []⟩

/-- A client that asks for one page after the other until there is no cursor; the table may change in between. -/
def follow (ledgers : Nat → Ledger column) (s : Scope) (limit : Int) : Nat → Nat → Bytes → Option (List ListItem)
  | 0, _, _ => none
  | fuel + 1, n, cursor =>
    match list column true (ledgers n) s limit cursor with
    | .error _ => none
    | .ok page =>
      if page.nextCursor = [] then some page.items
      else (follow ledgers s limit fuel (n + 1) page.nextCursor).map (page.items ++ ·)

structure Asked (s : Scope) (limit : Int) : Prop where
  integration : s.integrationID ≠ ""
  user : s.integrationUserID ≠ ""
  begins : s.from_ ≠ zeroTime
  window : stamp s.from_ < stamp s.to_
  least : 0 ≤ limit
  most : limit ≤ 100

def pageLimit (limit : Int) : Nat := if limit = 0 then 30 else limit.toNat

def key (stored : Stored) : Nat ×ₗ Int := toLex (stamp stored.receivedAt, stored.id)

def position (c : ListCursor) : Nat ×ₗ Int := toLex (stamp c.occurredAt, c.databaseID)

def Scope.rows (s : Scope) (ledger : Ledger column) : List Stored := ledger.rows.filter fun stored => s.holds column stored

section Listing
variable {column} {ledger : Ledger column} {s : Scope} {limit : Int} {cursor : Option ListCursor} {raw : Bytes}

theorem newer_key (a b : Stored) : newer a b ↔ key b ≤ key a := by
  rw [key, key, Prod.Lex.toLex_le_toLex]
  refine or_congr_right (and_congr_left fun _ => ?_)
  exact ⟨fun same => congrArg stamp same.symm, fun same => stamp_injective same.symm⟩

theorem sort_newest (rows : List Stored) : rows.insertionSort newer = KeysetPages.newest key rows := by
  have same : newer = fun a b => key b ≤ key a := funext₂ fun a b => propext (newer_key a b)
  unfold KeysetPages.newest
  congr!

theorem before_behind (known : ∀ c, cursor = some c → column c.occurredAt = c.occurredAt) (stored : Stored) :
    before column cursor stored = KeysetPages.behind (cursor.map position) (key stored) := by
  cases cursor with
  | none => rfl
  | some c =>
    refine decide_eq_decide.mpr ?_
    rw [known c rfl, key, position, Prod.Lex.toLex_lt_toLex]
    refine or_congr_right (and_congr_left fun _ => ?_)
    exact ⟨congrArg stamp, stamp_injective⟩

theorem key_distinct (s : Scope) (ledger : Ledger column) : ((s.rows column ledger).map key).Nodup := by
  have distinct := (pairwise_map.mp ledger.primary).filter fun stored => s.holds column stored
  refine pairwise_map.mpr (distinct.imp fun different same => different ?_)
  exact congrArg (fun k : Nat ×ₗ Int => (ofLex k).2) same

theorem limit_positive (asked : Asked s limit) : 1 ≤ pageLimit limit ∧ pageLimit limit ≤ 100 := by
  have least := asked.least
  have most := asked.most
  unfold pageLimit
  split <;> omega

/-- The store answers with a page of the rows in the window. -/
theorem store_page (asked : Asked s limit) (known : ∀ c, cursor = some c → column c.occurredAt = c.occurredAt) :
    PostgresStore.list column ledger s (pageLimit limit) cursor = .ok
      (((KeysetPages.page key (pageLimit limit) (cursor.map position) (s.rows column ledger)).1.map item),
        (KeysetPages.page key (pageLimit limit) (cursor.map position) (s.rows column ledger)).2) := by
  obtain ⟨least, most⟩ := limit_positive asked
  have valid : ¬ (s.integrationID = "" ∨ s.integrationUserID = "" ∨ s.from_ = zeroTime ∨ stamp s.to_ ≤ stamp s.from_ ∨
      pageLimit limit < 1 ∨ 100 < pageLimit limit) := by
    have window := asked.window
    rintro (integration | user | begins | window' | small | large)
    · exact asked.integration integration
    · exact asked.user user
    · exact asked.begins begins
    · omega
    · omega
    · omega
  have found : (ledger.rows.filter fun stored => s.holds column stored && before column cursor stored) =
      (s.rows column ledger).filter fun stored => KeysetPages.behind (cursor.map position) (key stored) := by
    rw [Scope.rows, List.filter_filter]
    refine filter_congr fun stored _ => ?_
    rw [before_behind known, Bool.and_comm]
  rw [PostgresStore.list, if_neg valid, found, sort_newest, KeysetPages.page]
  simp only [length_map, ← map_take]
  split
  · next more => rw [decide_eq_true more]
  · next all => rw [decide_eq_false all]

theorem list_page (asked : Asked s limit) (decoded : decodeListCursor raw = .ok cursor)
    (known : ∀ c, cursor = some c → column c.occurredAt = c.occurredAt) {rows : List Stored} {more : Bool}
    (found : KeysetPages.page key (pageLimit limit) (cursor.map position) (s.rows column ledger) = (rows, more)) :
    list column true ledger s limit raw = .ok ⟨rows.map item, match rows.getLast? with
      | some last => if more then encodeListCursor (item last) else []
      | none => []⟩ := by
  obtain ⟨least, most⟩ := limit_positive asked
  have natural : (if limit = 0 then 30 else limit).toNat = pageLimit limit := by
    unfold pageLimit
    split <;> rfl
  have bounds : ¬ ((if limit = 0 then 30 else limit) < 1 ∨ 100 < if limit = 0 then 30 else limit) := by omega
  have page := @store_page column ledger s limit cursor asked known
  rw [found] at page
  simp only [list, Bool.not_true, Bool.false_eq_true, if_false, if_neg bounds, decoded, natural, page]
  cases final : rows.getLast? with
  | none | some => rw [getLast?_map, final]; rfl

theorem list_asked {page : ListPage} (listed : list column true ledger s limit raw = .ok page) : Asked s limit := by
  obtain ⟨count, same⟩ : ∃ count, (if limit = 0 then 30 else limit) = count := ⟨_, rfl⟩
  simp only [list, Bool.not_true, Bool.false_eq_true, if_false, same] at listed
  split at listed
  · cases listed
  · next =>
    split at listed
    · cases listed
    · split at listed
      · cases listed
      · next stored =>
        unfold PostgresStore.list at stored
        split at stored
        · cases stored
        · next valid =>
          simp only [not_or, Nat.not_le] at valid
          obtain ⟨integration, user, begins, window, _⟩ := valid
          split at same
          · exact ⟨integration, user, begins, window, by omega, by omega⟩
          · exact ⟨integration, user, begins, window, by omega, by omega⟩

/-- Following the cursors goes through the keyset pages of the rows in the window. -/
theorem follow_pages {ledgers : Nat → Ledger column} (asked : Asked s limit) (decoded : decodeListCursor raw = .ok cursor)
    (known : ∀ c, cursor = some c → column c.occurredAt = c.occurredAt) (fuel n : Nat) :
    follow column ledgers s limit fuel n raw =
      (KeysetPages.pages key (pageLimit limit) (fun n => s.rows column (ledgers n)) fuel n (cursor.map position)).map
        (·.map item) := by
  induction fuel generalizing n raw cursor with
  | zero => rfl
  | succ fuel ih =>
    rcases found : KeysetPages.page key (pageLimit limit) (cursor.map position) (s.rows column (ledgers n)) with ⟨rows, more⟩
    rw [follow, KeysetPages.pages, list_page asked decoded known found, found]
    cases more with
    | false =>
      have ends : (match rows.getLast? with
          | some last => if false then encodeListCursor (item last) else []
          | none => []) = [] := by split <;> rfl
      simp only [ends, if_true, map_some]
    | true =>
      obtain ⟨last, final⟩ := KeysetPages.page_more (limit_positive asked).1 (congrArg Prod.snd found)
      have present := (KeysetPages.page_mem (mem_of_getLast? final)).1
      have stored := mem_of_mem_filter present
      rw [found] at final
      have onward := @decode_encoded (item last) last.positive last.fits last.received
      have kept : ∀ c, some (⟨1, last.receivedAt, last.id⟩ : ListCursor) = some c →
          column c.occurredAt = c.occurredAt := by
        rintro c ⟨⟩
        exact (ledgers n).kept last stored
      simp only [final, if_true, if_neg (encoded_visible (item last)).1, map_some]
      rw [ih onward kept, Option.map_map, Option.map_map]
      simp only [map_some]
      congr 1
      funext later
      exact (map_append ..).symm

end Listing

section Following
variable {column} {ledgers : Nat → Ledger column} {s : Scope} {limit : Int}

def ListItem.newer (a b : ListItem) : Prop :=
  stamp b.occurredAt < stamp a.occurredAt ∨ a.occurredAt = b.occurredAt ∧ b.databaseID < a.databaseID

theorem follow_asked {fuel : Nat} {items : List ListItem} (followed : follow column ledgers s limit fuel 0 [] = some items) :
    Asked s limit := by
  cases fuel with
  | zero => cases followed
  | succ =>
    rw [follow] at followed
    split at followed
    · cases followed
    · next listed => exact list_asked listed

theorem follow_start (asked : Asked s limit) (fuel : Nat) : follow column ledgers s limit fuel 0 [] =
    (KeysetPages.pages key (pageLimit limit) (fun n => s.rows column (ledgers n)) fuel 0 none).map (·.map item) := by
  have start : decodeListCursor [] = .ok none := rfl
  exact follow_pages asked start nofun fuel 0

theorem key_newer {a b : Stored} (older : key b < key a) : (item a).newer (item b) := by
  rw [key, key, Prod.Lex.toLex_lt_toLex] at older
  exact older.imp id fun same => ⟨(stamp_injective same.1).symm, same.2⟩

theorem newer_irrefl (a : ListItem) : ¬ a.newer a := by
  rintro (less | ⟨_, less⟩)
  · exact lt_irrefl _ less
  · exact lt_irrefl _ less

/-- Following the cursors through a table that changes in between: what comes is from the window, newest first; a row
    that is there all the time comes once; where only so many rows ever come up, there is an end; and a cursor is read
    as it was written. -/
theorem usage_pages (ledgers : Nat → Ledger column) (s : Scope) (limit : Int) :
    (∀ fuel items, follow column ledgers s limit fuel 0 [] = some items → items.Pairwise ListItem.newer ∧
      (∀ found ∈ items, ∃ n, ∃ stored ∈ (ledgers n).rows, s.holds column stored ∧ item stored = found) ∧
      ∀ stored, (∀ n, stored ∈ (ledgers n).rows) → s.holds column stored → items.count (item stored) = 1) ∧
    (Asked s limit → ∀ all : List Stored, (∀ n, (ledgers n).rows ⊆ all) →
      ∃ items, follow column ledgers s limit (all.length + 1) 0 [] = some items) ∧
    ∀ stored : Stored, decodeListCursor (encodeListCursor (item stored)) = .ok (some ⟨1, stored.receivedAt, stored.id⟩) := by
  refine ⟨fun fuel items followed => ?_, fun asked all finite => ?_, fun stored => ?_⟩
  · have asked := follow_asked followed
    have positive := (limit_positive asked).1
    have distinct := fun n => key_distinct s (ledgers n)
    rw [follow_start asked] at followed
    obtain ⟨rows, listed, rfl⟩ := map_eq_some_iff.mp followed
    obtain ⟨descending, known⟩ := KeysetPages.pages_descending positive distinct listed
    have ordered : (rows.map item).Pairwise ListItem.newer := pairwise_map.mpr (descending.imp key_newer)
    refine ⟨ordered, fun found member => ?_, fun stored always holds => ?_⟩
    · obtain ⟨stored, inside, rfl⟩ := mem_map.mp member
      obtain ⟨_, n, there⟩ := known stored inside
      obtain ⟨there, holds⟩ := mem_filter.mp there
      exact ⟨n, stored, there, holds, rfl⟩
    · have present := fun n => mem_filter.mpr ⟨always n, holds⟩
      have covered := KeysetPages.pages_cover positive distinct present rfl listed
      have once : (rows.map item).Nodup := by
        refine Pairwise.imp ?_ ordered
        rintro a _ newer rfl
        exact newer_irrefl a newer
      exact count_eq_one_of_mem once (mem_map_of_mem covered)
  · rw [follow_start asked]
    have keys : ∀ n, ∀ stored ∈ s.rows column (ledgers n), key stored ∈ (all.map key).toFinset := by
      intro n stored member
      rw [List.mem_toFinset]
      exact mem_map_of_mem (finite n (mem_of_mem_filter member))
    have few : ((all.map key).toFinset.filter fun k => KeysetPages.behind none k).card < all.length + 1 := by
      refine Nat.lt_succ_of_le ((Finset.card_filter_le _ _).trans ((toFinset_card_le _).trans ?_))
      rw [length_map]
    obtain ⟨rows, followed⟩ := KeysetPages.pages_end (limit_positive asked).1 _ keys (all.length + 1) 0 none few
    exact ⟨_, congrArg (Option.map (·.map item)) followed⟩
  · exact decode_encoded stored.positive stored.fits stored.received

end Following

end PieRelay.UsagePages
