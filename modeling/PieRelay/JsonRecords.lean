import PieRelay.GoStrings

/-!
JSON texts one after the other. A `json.Decoder` reads a value, and goes on behind it; `json.Unmarshal` wants
nothing behind it. What `Marshal` makes of a raw member, `compact`, has no blanks between its tokens and nothing left
to escape, so compacting it again changes nothing.
-/
namespace PieRelay.JsonRecords
open JsonScanner JsonStrings JsonObjects

def nullWord : Bytes := [0x6e, 0x75, 0x6c, 0x6c]

def readRecord (data : Bytes) : Option (Fields × Bytes) :=
  match expect openBrace data with
  | some rest =>
    match expect closeBrace rest with
    | some rest => some ([], rest)
    | none => members (maxNestingDepth - 1) data.length rest
  | none => (scanValue maxNestingDepth data).bind fun found =>
    if found.1 = nullWord then some ([], found.2) else none

def unmarshalRecord (data : Bytes) : Option Fields :=
  (readRecord data).bind fun found => if skipSpace found.2 = [] then some found.1 else none

def compacted (data : Bytes) : Option Bytes :=
  (scanValue maxNestingDepth data).bind fun found => if skipSpace found.2 = [] then some (compact found.1) else none

/-- Two texts of one value: the same once blanks are gone and the same characters are escaped. -/
def sameValue (a b : Bytes) : Prop := ∃ text, compacted a = some text ∧ compacted b = some text

def nests (data : Bytes) : Bool := (scanValue (maxNestingDepth - 1) data).isSome

def tight (limit : Nat) : Scan → Bytes → Bool
  | _, [] => true
  | st, c :: rest =>
    match step limit st c with
    | .skip _ => false
    | .next next => tight limit next rest
    | _ => true

variable {limit n : Nat} {st : Scan} {input raw rest data text : Bytes} {c : UInt8}

theorem strip_tight {kept : Scan} (behind : Behind st kept)
    (scanned : scanFrom limit st input = some (raw, rest)) : tight limit kept (strip limit st raw) := by
  induction input generalizing st kept raw with
  | nil =>
    simp only [scanFrom, Option.ite_none_right_eq_some, Option.some.injEq, Prod.mk.injEq] at scanned
    rw [← scanned.2.1]
    rfl
  | cons c input ih =>
    obtain ⟨skips, takes, closes⟩ := @behind_step limit st kept c behind
    simp only [scanFrom] at scanned
    split at scanned
    · contradiction
    · cases scanned
      rfl
    · next closed =>
      cases scanned
      simp [strip, closed, tight, closes closed]
    · next next skipped =>
      obtain ⟨found, onward, pair⟩ := Option.map_eq_some_iff.mp scanned
      cases pair
      simp only [strip, skipped]
      exact ih (skips next skipped) onward
    · next next taken =>
      obtain ⟨found, onward, pair⟩ := Option.map_eq_some_iff.mp scanned
      cases pair
      simp only [strip, taken, tight, takes next taken]
      exact ih (.inl rfl) onward

theorem tight_strip (dense : tight limit st raw) : strip limit st raw = raw := by
  induction raw generalizing st with
  | nil => rfl
  | cons c raw ih =>
    cases moved : step limit st c with
    | skip =>
      rw [tight, moved] at dense
      cases dense
    | next =>
      rw [tight, moved] at dense
      rw [strip, moved]
      exact congrArg (c :: ·) (ih dense)
    | _ => rw [strip, moved]

theorem tight_escape (limit : Nat) (stack : List Parse) (n : Nat) (input : Bytes) :
    tight limit ⟨.inString, stack⟩ (unicodeEscape n ++ input) = tight limit ⟨.inString, stack⟩ input := by
  have digit (k : Nat) : isHex (hexDigit (k % 16)) := (hex_digit _ (Nat.mod_lt _ (by decide))).1
  have opened : step limit ⟨.inString, stack⟩ backslash = .next ⟨.inStringEsc, stack⟩ := rfl
  have marked : step limit ⟨.inStringEsc, stack⟩ 0x75 = .next ⟨.inStringEscU 4, stack⟩ := rfl
  simp only [unicodeEscape, List.cons_append, List.nil_append, tight, opened, marked,
    step_hex limit stack (digit _) 2, step_hex limit stack (digit _) 1, step_hex limit stack (digit _) 0,
    step_last_hex limit stack (digit _)]

-- `skip` bytes belong to an escape that has already been written.
theorem escape_tight {tail : Bytes} (skip : Nat)
    (covered : skip = 0 ∨ st.mode = .inString ∧ skip ≤ (raw.takeWhile isCont).length)
    (scanned : scanFrom limit st (raw ++ tail) = some (raw, tail)) (dense : tight limit st raw) :
    tight limit st (escapeHTML skip raw) := by
  induction raw generalizing st skip with
  | nil => cases skip <;> exact dense
  | cons c raw ih =>
    have inside : isSpecial c → ∃ stack, st = ⟨.inString, stack⟩ ∧
        scanFrom limit ⟨.inString, stack⟩ (raw ++ tail) = some (raw, tail) ∧
        tight limit ⟨.inString, stack⟩ raw := by
      intro special
      have here : st = ⟨.inString, st.stack⟩ := by
        rcases scan_cons_cases scanned with ⟨closed, -⟩ | ⟨next, skipped | taken, -⟩
        · exact special_inside limit special (by simp [closed]) (by simp [closed])
        · exact special_inside limit special (by simp [skipped]) (by simp [skipped])
        · exact special_inside limit special (by simp [taken]) (by simp [taken])
      rw [here] at scanned dense
      have kept := special_step limit st.stack special
      refine ⟨st.stack, here, scan_inside kept scanned, ?_⟩
      rw [tight, kept] at dense
      exact dense
    cases skip with
    | succ skip =>
      rcases covered with none | ⟨mode, bound⟩
      · contradiction
      · obtain ⟨mode', stack⟩ := st
        cases mode
        have cont : isCont c := by
          by_cases cont : isCont c
          · exact cont
          · simp [List.takeWhile, cont] at bound
        have fewer : skip ≤ (raw.takeWhile isCont).length := by
          simpa [List.takeWhile, cont] using bound
        have kept := cont_step limit stack cont
        rw [tight, kept] at dense
        exact ih skip (.inr ⟨rfl, fewer⟩) (scan_inside kept scanned) dense
    | zero =>
      simp only [escapeHTML]
      split
      · next html =>
        obtain ⟨stack, rfl, onward, denser⟩ := inside (by simp [isSpecial, html])
        rw [tight_escape]
        exact ih 0 (.inl rfl) onward denser
      · split
        · next separator =>
          obtain ⟨stack, rfl, onward, denser⟩ := inside (by simp [isSpecial, separator.1])
          rw [tight_escape]
          exact ih 2 (.inr ⟨rfl, line_separator_conts separator.2⟩) onward denser
        · unfold tight at dense ⊢
          rcases scan_cons_cases scanned with ⟨closed, -⟩ | ⟨next, skipped | taken, onward⟩
          · rw [closed]
          · rw [skipped] at dense
            cases dense
          · rw [taken] at dense ⊢
            exact ih 0 (.inl rfl) onward dense

theorem separator_conts {left right : Bytes} (same : left.takeWhile isCont = right.takeWhile isCont) :
    isLineSeparator left = isLineSeparator right := by
  have through (rest : Bytes) : isLineSeparator rest = isLineSeparator (rest.takeWhile isCont) := by
    rcases rest with _ | ⟨a, _ | ⟨b, rest⟩⟩
    · rfl
    · by_cases first : isCont a <;> simp [List.takeWhile, isLineSeparator, first]
    · by_cases first : isCont a
      · by_cases second : isCont b
        · simp [List.takeWhile, isLineSeparator, first, second]
        · have apart : b ≠ 0xa8 ∧ b ≠ 0xa9 := by
            refine ⟨?_, ?_⟩ <;> rintro rfl <;> exact second rfl
          simp [List.takeWhile, isLineSeparator, first, second, apart]
      · have apart : a ≠ 0x80 := by
          rintro rfl
          exact first rfl
        simp [List.takeWhile, isLineSeparator, first, apart]
  rw [through left, through right, same]

theorem escape_written (n : Nat) (rest : Bytes) :
    escapeHTML 0 (unicodeEscape n ++ rest) = unicodeEscape n ++ escapeHTML 0 rest := by
  have digit (k : Nat) : isSpecial (hexDigit (k % 16)) = false := hex_ordinary (hex_digit _ (Nat.mod_lt _ (by decide))).1
  have slash : isSpecial backslash = false := rfl
  have mark : isSpecial 0x75 = false := rfl
  simp only [unicodeEscape, List.cons_append, List.nil_append, escape_ordinary slash, escape_ordinary mark,
    escape_ordinary (digit _)]

theorem escape_again (skip : Nat) (raw : Bytes) : escapeHTML 0 (escapeHTML skip raw) = escapeHTML skip raw := by
  induction raw generalizing skip with
  | nil => cases skip <;> rfl
  | cons c raw ih =>
    cases skip with
    | succ skip => exact ih skip
    | zero =>
      simp only [escapeHTML]
      split
      · rw [escape_written, ih]
      · split
        · rw [escape_written, ih]
        · next plain whole =>
          have same := separator_conts (escape_conts raw)
          have still : ¬ (c = 0xe2 ∧ isLineSeparator (escapeHTML 0 raw)) := by
            rw [same]
            exact whole
          rw [escapeHTML, if_neg plain, if_neg still, ih]

/-- What has been scanned is scanned by itself. -/
theorem scan_alone (scanned : scanFrom limit st input = some (raw, rest)) : scanFrom limit st raw = some (raw, []) := by
  induction input generalizing st raw with
  | nil =>
    simp only [scanFrom, Option.ite_none_right_eq_some, Option.some.injEq, Prod.mk.injEq] at scanned
    obtain ⟨complete, rfl, _⟩ := scanned
    rw [scanFrom, if_pos complete]
  | cons c input ih =>
    rw [scanFrom] at scanned
    split at scanned
    · cases scanned
    · next ended =>
      cases scanned
      rw [scanFrom, if_pos (step_ended ended)]
    · next closed =>
      cases scanned
      rw [scanFrom, closed]
    · next skipped =>
      obtain ⟨found, onward, pair⟩ := Option.map_eq_some_iff.mp scanned
      cases pair
      rw [scanFrom, skipped]
      dsimp only
      rw [ih onward]
      rfl
    · next taken =>
      obtain ⟨found, onward, pair⟩ := Option.map_eq_some_iff.mp scanned
      cases pair
      rw [scanFrom, taken]
      dsimp only
      rw [ih onward]
      rfl

theorem value_alone (scanned : scanValue limit input = some (raw, rest)) : scanValue limit raw = some (raw, []) := by
  obtain ⟨c, behind, _, _, shape, visible, _⟩ := value_head scanned
  have alone := scan_alone scanned
  rw [scanValue, shape, skip_space_head visible, ← shape]
  exact alone

theorem solid_end (shape : raw = c :: rest)
    (visible : isSpace c = false) (solid : Solid limit raw) : scanValue limit raw = some (raw, []) := by
  have scanned := solid comma [] rfl
  subst shape
  rw [scanValue, List.cons_append, skip_space_head visible] at scanned
  rw [scanValue, skip_space_head visible]
  exact scan_alone scanned

/-- How a value looks once it is compacted. -/
theorem compact_shape (within : limit ≤ maxNestingDepth) (scanned : scanValue limit input = some (raw, rest)) :
    scanValue limit (compact raw) = some (compact raw, []) ∧ tight maxNestingDepth ⟨.beginValue, []⟩ (compact raw) ∧
      compact (compact raw) = compact raw := by
  obtain ⟨c, behind, next, more, rfl, visible, taken, -⟩ := value_head scanned
  have wide : step maxNestingDepth ⟨.beginValue, []⟩ c = .next next := by
    rw [step_limit within _ _ (by simp [taken]), taken]
  have whole := value_limit within _ _ _ scanned
  have stripped := strip_scan (.inl rfl) whole comma [] rfl
  have dense : tight maxNestingDepth ⟨.beginValue, []⟩ (compact (c :: behind)) :=
    escape_tight 0 (.inl rfl) stripped (strip_tight (.inl rfl) whole)
  refine ⟨solid_end (compact_head wide) visible (compact_solid within scanned), dense, ?_⟩
  have same := tight_strip dense
  conv_lhs => rw [compact, same]
  exact escape_again 0 _

theorem compacted_raw (known : compacted data = some text) :
    ∃ raw rest, scanValue maxNestingDepth data = some (raw, rest) ∧ skipSpace rest = [] ∧ text = compact raw := by
  obtain ⟨⟨raw, rest⟩, scanned, taken⟩ := Option.bind_eq_some_iff.mp known
  obtain ⟨blank, same⟩ := Option.ite_none_right_eq_some.mp taken
  exact ⟨raw, rest, scanned, blank, (Option.some.inj same).symm⟩

/-- What has been compacted is the same value, and compacted. -/
theorem compacted_same (known : compacted data = some text) : sameValue text data := by
  obtain ⟨raw, rest, scanned, _, rfl⟩ := compacted_raw known
  obtain ⟨whole, _, again⟩ := compact_shape (Nat.le_refl _) scanned
  refine ⟨compact raw, ?_, known⟩
  rw [compacted, whole]
  exact congrArg some again

/-- A value that has been scanned is compacted as it is. -/
theorem raw_compacted (within : limit ≤ maxNestingDepth)
    (scanned : scanValue limit input = some (raw, rest)) : compacted raw = some (compact raw) := by
  have alone := value_alone (value_limit within _ _ _ scanned)
  rw [compacted, alone]
  rfl

theorem compacted_solid (known : compacted data = some text) (inside : nests data) :
    Solid (maxNestingDepth - 1) text := by
  obtain ⟨raw, rest, scanned, _, rfl⟩ := compacted_raw known
  obtain ⟨⟨other, behind⟩, nested⟩ := Option.isSome_iff_exists.mp inside
  have wide := value_limit (Nat.sub_le _ 1) _ _ _ nested
  cases scanned.symm.trans wide
  exact compact_solid (Nat.sub_le _ 1) nested

theorem line_feed_step (limit : Nat) (st next : Scan) : step limit st 0x0a ≠ .next next ∧ step limit st 0x0a ≠ .closed := by
  obtain ⟨mode, stack⟩ := st
  have ending : stateEndValue stack 0x0a ≠ .next next ∧ stateEndValue stack 0x0a ≠ .closed := by
    cases stack <;> refine ⟨?_, ?_⟩ <;> rintro ⟨⟩
  cases mode with
  | endValue | int1 | int0 | dot0 | exp0 => exact ending
  | word left => cases left <;> refine ⟨?_, ?_⟩ <;> rintro ⟨⟩
  | _ => refine ⟨?_, ?_⟩ <;> rintro ⟨⟩

theorem tight_line (scanned : scanFrom limit st raw = some (raw, rest))
    (dense : tight limit st raw) : (0x0a : UInt8) ∉ raw := by
  induction raw generalizing st with
  | nil => exact List.not_mem_nil
  | cons c raw ih =>
    unfold tight at dense
    intro member
    rcases scan_cons_cases scanned with ⟨closed, rfl, -⟩ | ⟨next, skipped | taken, onward⟩
    · rcases List.mem_singleton.mp member with rfl
      exact (line_feed_step limit st st).2 closed
    · rw [skipped] at dense
      cases dense
    · rw [taken] at dense
      rcases List.mem_cons.mp member with rfl | later
      · exact (line_feed_step limit st next).1 taken
      · exact ih onward dense later

theorem compacted_line (known : compacted data = some text) : (0x0a : UInt8) ∉ text := by
  obtain ⟨raw, rest, scanned, _, rfl⟩ := compacted_raw known
  obtain ⟨whole, dense, _⟩ := compact_shape (Nat.le_refl _) scanned
  obtain ⟨c, behind, next, more, shape, visible, _⟩ := value_head whole
  rw [shape, scanValue, skip_space_head visible, ← shape] at whole
  exact tight_line whole dense

theorem write_members_behind {fuel : Nat} (fields : Fields) (nonempty : fields ≠ [])
    (solid : ∀ field ∈ fields, Solid limit field.2) (enough : fields.length ≤ fuel) (tail : Bytes) :
    members limit fuel (writeFields fields ++ tail) = some (fields, tail) := by
  induction fields generalizing fuel with
  | nil => contradiction
  | cons field rest ih =>
    obtain ⟨name, value⟩ := field
    have first := solid (name, value) List.mem_cons_self
    cases fuel with
    | zero => cases enough
    | succ =>
      cases rest with
      | nil =>
        have read := write_member name first closeBrace tail rfl
        have apart : closeBrace ≠ comma := by decide
        simp [writeFields, members, read, apart, skip_space_head (show isSpace closeBrace = false from rfl)]
      | cons other rest =>
        have read := write_member name first comma (writeFields (other :: rest) ++ tail) rfl
        have onward := ih (List.cons_ne_nil _ _)
          (fun field known => solid field (List.mem_cons_of_mem _ known)) (Nat.le_of_succ_le_succ enough)
        simp [writeFields, members, read, onward, skip_space_head (show isSpace comma = false from rfl)]

theorem skip_blanks {blanks : Bytes} (blank : blanks.all isSpace) (rest : Bytes) :
    skipSpace (blanks ++ rest) = skipSpace rest := by
  induction blanks with
  | nil => rfl
  | cons c blanks ih =>
    rw [List.all_cons, Bool.and_eq_true] at blank
    rw [List.cons_append, skipSpace, if_pos blank.1]
    exact ih blank.2

section
variable (fields : Fields) (solid : ∀ field ∈ fields, Solid (maxNestingDepth - 1) field.2)
include fields solid

/-- A written object is read back, whatever is behind it, and whatever blanks are before it. -/
theorem read_written {blanks : Bytes} (blank : blanks.all isSpace) (tail : Bytes) :
    readRecord (blanks ++ (writeObject fields ++ tail)) = some (fields, tail) := by
  have opened : expect openBrace (blanks ++ (writeObject fields ++ tail)) = some (writeFields fields ++ tail) := by
    rw [expect, skip_blanks blank]
    rfl
  rw [readRecord, opened]
  dsimp only
  cases fields with
  | nil => rfl
  | cons field rest =>
    have unclosed : expect closeBrace (writeFields (field :: rest) ++ tail) = none := by
      cases rest <;> rfl
    have room : (field :: rest).length ≤ (blanks ++ (writeObject (field :: rest) ++ tail)).length := by
      refine Nat.le_trans (write_length (field :: rest)) ?_
      simp only [writeObject, List.cons_append, List.length_cons, List.length_append]
      omega
    rw [unclosed]
    exact write_members_behind (field :: rest) (List.cons_ne_nil _ _) solid room tail

theorem unmarshal_written : unmarshalRecord (writeObject fields) = some fields := by
  have read := read_written fields solid (show ([] : Bytes).all isSpace from rfl) []
  rw [List.append_nil, List.nil_append] at read
  rw [unmarshalRecord, read]
  rfl

end

theorem printable_line (printable : ∀ c ∈ text, ¬ c < 0x20) : (0x0a : UInt8) ∉ text :=
  fun member => printable 0x0a member (by decide)

theorem quote_line (name : String) : (0x0a : UInt8) ∉ quoteString name :=
  printable_line (List.forall_mem_cons.mpr ⟨by decide, GoStrings.literal_printable (quoted_literal name).1⟩)

/-- A record is one line if its members are. -/
theorem write_line {fields : Fields} (lines : ∀ field ∈ fields, (0x0a : UInt8) ∉ field.2) :
    (0x0a : UInt8) ∉ writeObject fields := by
  have apart : ∀ c : UInt8, c = closeBrace ∨ c = comma ∨ c = colon ∨ c = openBrace → 0x0a ≠ c := by
    rintro c (rfl | rfl | rfl | rfl) <;> decide
  have inner : (0x0a : UInt8) ∉ writeFields fields := by
    induction fields with
    | nil => exact fun member => apart closeBrace (.inl rfl) (List.mem_singleton.mp member)
    | cons field rest ih =>
      have name := quote_line field.1
      have value := lines field List.mem_cons_self
      have later := ih fun other member => lines other (List.mem_cons_of_mem field member)
      cases rest with
      | nil =>
        simp only [writeFields, List.mem_append, List.mem_cons, List.not_mem_nil, or_false, not_or]
        exact ⟨name, apart colon (.inr (.inr (.inl rfl))), value, apart closeBrace (.inl rfl)⟩
      | cons =>
        simp only [writeFields, List.mem_append, List.mem_cons, not_or] at later ⊢
        exact ⟨name, apart colon (.inr (.inr (.inl rfl))), value, apart comma (.inr (.inl rfl)), later⟩
  rw [writeObject, List.mem_cons, not_or]
  exact ⟨apart openBrace (.inr (.inr (.inr rfl))), inner⟩

theorem write_last (fields : Fields) : (writeObject fields).getLast? = some closeBrace := by
  have inner : (writeFields fields).getLast? = some closeBrace := by
    induction fields with
    | nil => rfl
    | cons field rest ih =>
      cases rest with
      | nil => simp [writeFields, List.getLast?_append, List.getLast?_cons]
      | cons => simp [writeFields, List.getLast?_append, List.getLast?_cons, ih]
  rw [writeObject, List.getLast?_cons, inner, Option.getD_some]

theorem skip_blank {next : Scan} (skipped : step limit st c = .skip next) : isSpace c := by
  by_contra visible
  have visible' : isSpace c = false := by simpa using visible
  obtain ⟨mode, stack⟩ := st
  cases mode <;>
    simp only [step, stateBeginValue, stateBeginString, stateEndValue, stateESign, state0, stateWord, push, pop, visible'] at skipped
      <;> grind

theorem strip_visible (visible : ∀ c ∈ raw, isSpace c = false) (limit : Nat) (st : Scan) :
    strip limit st raw = raw := by
  induction raw generalizing st with
  | nil => rfl
  | cons c raw ih =>
    have later := fun st => ih (fun other member => visible other (List.mem_cons_of_mem c member)) st
    unfold strip
    split
    · next skipped => exact absurd (skip_blank skipped) (by simp [visible c List.mem_cons_self])
    · next => rw [later]
    · rfl

theorem escape_plain (ordinary : ∀ c ∈ raw, isSpecial c = false) : escapeHTML 0 raw = raw := by
  induction raw with
  | nil => rfl
  | cons c raw ih =>
    rw [escape_ordinary (ordinary c List.mem_cons_self), ih fun other member => ordinary other (List.mem_cons_of_mem c member)]

theorem string_compacted (literal : Literal raw) : compacted (quote :: raw) = some (quote :: escapeHTML 0 raw) := by
  have opened : step maxNestingDepth ⟨.beginValue, []⟩ quote = .next ⟨.inString, []⟩ := rfl
  have scanned : scanValue maxNestingDepth (quote :: raw) = some (quote :: raw, []) := by
    have inner := literal_scan maxNestingDepth literal []
    rw [List.append_nil] at inner
    rw [scanValue, skip_space_head rfl, scan_next opened, inner]
    rfl
  have same : compact (quote :: raw) = quote :: escapeHTML 0 raw := by
    rw [compact, strip, opened]
    dsimp only
    rw [strip_literal _ literal]
    exact escape_ordinary rfl raw
  rw [compacted, scanned, Option.bind_some, same]
  rfl

def angles (n : Nat) : Bytes := List.replicate n 0x3c ++ [quote]

theorem angles_literal (n : Nat) : Literal (angles n) := by
  induction n with
  | zero => exact .close
  | succ n ih => exact .plain 0x3c _ (by decide) (by decide) (by decide) ih

theorem angles_escaped (n : Nat) : (escapeHTML 0 (angles n)).length = 6 * n + 1 := by
  induction n with
  | zero => rfl
  | succ n ih =>
    have next : escapeHTML 0 (angles (n + 1)) = unicodeEscape (0x3c : UInt8).toNat ++ escapeHTML 0 (angles n) := rfl
    have six : (unicodeEscape (0x3c : UInt8).toNat).length = 6 := rfl
    rw [next, List.length_append, ih, six]
    omega

def nested : Nat → Bytes
  | 0 => [openBracket, closeBracket]
  | n + 1 => openBracket :: (nested n ++ [closeBracket])

theorem nested_mem (member : c ∈ nested n) : c = openBracket ∨ c = closeBracket := by
  induction n with
  | zero => simpa [nested] using member
  | succ n ih =>
    rw [nested, List.mem_cons, List.mem_append, List.mem_singleton] at member
    rcases member with same | inner | same
    · exact .inl same
    · exact ih inner
    · exact .inr same

theorem nested_length (n : Nat) : (nested n).length = 2 * n + 2 := by
  induction n with
  | zero => rfl
  | succ n ih =>
    rw [nested, List.length_cons, List.length_append, ih, List.length_singleton]
    omega

theorem open_bracket (limit : Nat) {mode : Mode} (begins : mode = .beginValue ∨ mode = .beginValueOrEmpty)
    (stack : List Parse) : step limit ⟨mode, stack⟩ openBracket = push limit stack .arrayValue .beginValueOrEmpty := by
  rcases begins with rfl | rfl <;> rfl

theorem nested_inside {limit n : Nat} {mode : Mode} (begins : mode = .beginValue ∨ mode = .beginValueOrEmpty)
    {top : Parse} {below : List Parse} (room : below.length + n + 2 ≤ limit) (tail : Bytes) :
    scanFrom limit ⟨mode, top :: below⟩ (nested n ++ tail) =
      (scanFrom limit ⟨.endValue, top :: below⟩ tail).map fun found => (nested n ++ found.1, found.2) := by
  induction n generalizing mode top below tail with
  | zero =>
    have opened := open_bracket limit begins (top :: below)
    rw [push, if_pos (by rw [List.length_cons]; omega)] at opened
    have closed : step limit ⟨.beginValueOrEmpty, .arrayValue :: top :: below⟩ closeBracket =
        .next ⟨.endValue, top :: below⟩ := rfl
    rw [nested, List.cons_append, List.singleton_append, scan_next opened, scan_next closed, Option.map_map]
    rfl
  | succ n ih =>
    have opened := open_bracket limit begins (top :: below)
    rw [push, if_pos (by rw [List.length_cons]; omega)] at opened
    have closed : step limit ⟨.endValue, .arrayValue :: top :: below⟩ closeBracket = .next ⟨.endValue, top :: below⟩ := rfl
    have inner := @ih .beginValueOrEmpty (.inr rfl) .arrayValue (top :: below) (by rw [List.length_cons]; omega)
      (closeBracket :: tail)
    rw [nested, List.cons_append, List.append_assoc, List.singleton_append, scan_next opened, inner, scan_next closed,
      Option.map_map, Option.map_map]
    refine congrArg (fun change => Option.map change (scanFrom limit ⟨.endValue, top :: below⟩ tail)) (funext fun found => ?_)
    simp

theorem nested_scan (room : n + 1 ≤ limit) (tail : Bytes) :
    scanValue limit (nested n ++ tail) = some (nested n, tail) := by
  have opened := open_bracket limit (.inl rfl : Mode.beginValue = .beginValue ∨ _) []
  rw [push, if_pos (by rw [List.length_nil]; omega)] at opened
  cases n with
  | zero =>
    have closed : step limit ⟨.beginValueOrEmpty, [.arrayValue]⟩ closeBracket = .closed := rfl
    rw [nested, scanValue, List.cons_append, skip_space_head rfl, scan_next opened, List.singleton_append, scanFrom, closed]
    rfl
  | succ n =>
    have closed : step limit ⟨.endValue, [.arrayValue]⟩ closeBracket = .closed := rfl
    have inner := @nested_inside limit n .beginValueOrEmpty (.inr rfl) .arrayValue [] (by rw [List.length_nil]; omega)
      (closeBracket :: tail)
    rw [nested, scanValue, List.cons_append, skip_space_head rfl, scan_next opened, List.append_assoc, List.singleton_append,
      inner, scanFrom, closed]
    rfl

theorem nested_stuck {mode : Mode} (begins : mode = .beginValue ∨ mode = .beginValueOrEmpty)
    {stack : List Parse} (deep : limit ≤ stack.length + n) (tail : Bytes) :
    scanFrom limit ⟨mode, stack⟩ (nested n ++ tail) = none := by
  have opened := open_bracket limit begins stack
  rw [push] at opened
  induction n generalizing mode stack tail with
  | zero =>
    rw [if_neg (by omega)] at opened
    rw [nested, List.cons_append, scanFrom, opened]
  | succ n ih =>
    by_cases room : stack.length < limit
    · rw [if_pos room] at opened
      have inner := @ih .beginValueOrEmpty (.inr rfl) (.arrayValue :: stack) (by rw [List.length_cons]; omega)
        ([closeBracket] ++ tail) (open_bracket limit (.inr rfl) _)
      rw [nested, List.cons_append, List.append_assoc, scan_next opened, inner]
      rfl
    · rw [if_neg room] at opened
      rw [nested, List.cons_append, scanFrom, opened]

theorem nested_value_stuck (deep : limit ≤ n) (tail : Bytes) : scanValue limit (nested n ++ tail) = none := by
  have visible : skipSpace (nested n ++ tail) = nested n ++ tail := by cases n <;> rfl
  rw [scanValue, visible]
  exact nested_stuck (.inl rfl) (by rw [List.length_nil, Nat.zero_add]; exact deep) tail

theorem nested_compacted (room : n + 1 ≤ maxNestingDepth) : compacted (nested n) = some (nested n) := by
  have scanned := nested_scan room []
  have visible : ∀ c ∈ nested n, isSpace c = false := by
    intro c member
    rcases nested_mem member with rfl | rfl <;> rfl
  have ordinary : ∀ c ∈ nested n, isSpecial c = false := by
    intro c member
    rcases nested_mem member with rfl | rfl <;> rfl
  rw [List.append_nil] at scanned
  have same : compact (nested n) = nested n := by rw [compact, strip_visible visible, escape_plain ordinary]
  rw [compacted, scanned, Option.bind_some, same]
  rfl

theorem members_stuck {limit fuel : Nat} {before : Fields} (solid : ∀ field ∈ before, Solid limit field.2) {name : String}
    {text : Bytes} (stuck : ∀ sep tail, isSeparator sep → scanValue limit (text ++ sep :: tail) = none) (after : Fields)
    (tail : Bytes) : members limit fuel (writeFields (before ++ (name, text) :: after) ++ tail) = none := by
  have here : ∀ sep rest, isSeparator sep → member limit (quoteString name ++ colon :: (text ++ sep :: rest)) = none := by
    intro sep rest separates
    have colons : expect colon (colon :: (text ++ sep :: rest)) = some (text ++ sep :: rest) := rfl
    have head : (quoteString name).head? = some quote := rfl
    simp [member, quote_scan limit name, head, colons, stuck sep rest separates, guard]
  have ends : isSeparator closeBrace := rfl
  have goes : isSeparator comma := rfl
  induction before generalizing fuel with
  | nil =>
    cases fuel with
    | zero => rfl
    | succ => cases after <;> simp [writeFields, members, here, ends, goes]
  | cons field before ih =>
    cases fuel with
    | zero => rfl
    | succ fuel =>
      obtain ⟨other, value⟩ := field
      have onward := @ih fuel fun field known => solid field (List.mem_cons_of_mem _ known)
      cases shape : before ++ (name, text) :: after with
      | nil => simp at shape
      | cons next rest =>
        have read := write_member other (solid (other, value) List.mem_cons_self) comma (writeFields (next :: rest) ++ tail) rfl
        rw [shape] at onward
        rw [List.cons_append, shape]
        simp [writeFields, members, read, onward, skip_space_head (show isSpace comma = false from rfl)]

theorem record_stuck {before : Fields} (solid : ∀ field ∈ before, Solid (maxNestingDepth - 1) field.2) {name : String}
    {text : Bytes} (stuck : ∀ sep tail, isSeparator sep → scanValue (maxNestingDepth - 1) (text ++ sep :: tail) = none)
    (after : Fields) (tail : Bytes) : readRecord (writeObject (before ++ (name, text) :: after) ++ tail) = none := by
  have opened : expect openBrace (writeObject (before ++ (name, text) :: after) ++ tail) =
      some (writeFields (before ++ (name, text) :: after) ++ tail) := rfl
  have unclosed : expect closeBrace (writeFields (before ++ (name, text) :: after) ++ tail) = none := by
    cases shape : before ++ (name, text) :: after with
    | nil => simp at shape
    | cons next rest => cases rest <;> rfl
  rw [readRecord, opened]
  dsimp only
  rw [unclosed]
  exact members_stuck solid stuck after tail

theorem deep_stuck (known : compacted data = some text) (deep : nests text = false) {sep : UInt8}
    (separates : isSeparator sep) (tail : Bytes) : scanValue (maxNestingDepth - 1) (text ++ sep :: tail) = none := by
  obtain ⟨raw, rest, scanned, _, rfl⟩ := compacted_raw known
  have solid := compact_solid (Nat.le_refl _) scanned sep tail separates
  cases inner : scanValue (maxNestingDepth - 1) (compact raw ++ sep :: tail) with
  | none => rfl
  | some found =>
    obtain ⟨value, behind⟩ := found
    have wide := value_limit (Nat.sub_le _ 1) _ _ _ inner
    cases solid.symm.trans wide
    rw [nests, value_alone inner] at deep
    cases deep

/-- A member's value takes its own room. -/
theorem write_room (before after : Fields) (name : String) (text : Bytes) :
    (writeFields (before ++ (name, text) :: after)).length =
      text.length + (writeFields (before ++ (name, []) :: after)).length := by
  induction before with
  | nil =>
    cases after <;> simp only [List.nil_append, writeFields, List.length_append, List.length_cons, List.length_nil] <;> omega
  | cons field before ih =>
    obtain ⟨other, value⟩ := field
    cases shape : before ++ (name, text) :: after with
    | nil => simp at shape
    | cons =>
      cases bare : before ++ (name, []) :: after with
      | nil => simp at bare
      | cons =>
        rw [shape, bare] at ih
        rw [List.cons_append, List.cons_append, shape, bare]
        simp only [writeFields, List.length_append, List.length_cons, ih]
        omega

end PieRelay.JsonRecords
