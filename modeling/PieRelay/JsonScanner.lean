import Mathlib.Logic.Function.Basic

/-!
The byte scanner of Go's encoding/json: one state per step function, a stack of
enclosing objects and arrays, and a nesting limit. `scanFrom` runs it over one
value, exactly as far as the value reaches. A number or a word ends before the
first byte that cannot belong to it; a string, object or array ends with its own
last byte. Nothing of this module is about a particular message format.
-/
namespace PieRelay.JsonScanner
open Option

abbrev Bytes := List UInt8

abbrev quote : UInt8 := 0x22
abbrev backslash : UInt8 := 0x5c
abbrev comma : UInt8 := 0x2c
abbrev colon : UInt8 := 0x3a
abbrev openBrace : UInt8 := 0x7b
abbrev closeBrace : UInt8 := 0x7d
abbrev openBracket : UInt8 := 0x5b
abbrev closeBracket : UInt8 := 0x5d

def isSpace (c : UInt8) : Bool := c == 0x20 || c == 0x09 || c == 0x0d || c == 0x0a

def isDigit (c : UInt8) : Bool := 0x30 ≤ c && c ≤ 0x39

def isHex (c : UInt8) : Bool :=
  isDigit c || (0x61 ≤ c && c ≤ 0x66) || (0x41 ≤ c && c ≤ 0x46)

def isShortEscape (c : UInt8) : Bool :=
  c == 0x62 || c == 0x66 || c == 0x6e || c == 0x72 || c == 0x74 || c == backslash || c == 0x2f ||
    c == quote

inductive Parse where
  | objectKey
  | objectValue
  | arrayValue
  deriving DecidableEq

inductive Word where
  | rue
  | ue
  | e
  | alse
  | lse
  | se
  | ull
  | ll
  | l
  deriving DecidableEq

def Word.expected : Word → UInt8
  | .rue => 0x72
  | .ue => 0x75
  | .e => 0x65
  | .alse => 0x61
  | .lse => 0x6c
  | .se => 0x73
  | .ull => 0x75
  | .ll => 0x6c
  | .l => 0x6c

def Word.rest : Word → Option Word
  | .rue => some .ue
  | .ue => some .e
  | .alse => some .lse
  | .lse => some .se
  | .se => some .e
  | .ull => some .ll
  | .ll => some .l
  | .e => none
  | .l => none

inductive Mode where
  | beginValue
  | beginValueOrEmpty
  | beginString
  | beginStringOrEmpty
  | endValue
  | inString
  | inStringEsc
  | inStringEscU (missing : Nat)
  | neg
  | int1
  | int0
  | dot
  | dot0
  | exp
  | expSign
  | exp0
  | word (left : Word)
  deriving DecidableEq

structure Scan where
  mode : Mode
  stack : List Parse
  deriving DecidableEq

inductive Signal where
  | error
  | ended
  | closed
  | skip (next : Scan)
  | next (next : Scan)
  deriving DecidableEq

def pop : List Parse → Signal
  | [] => .closed
  | below => .next ⟨.endValue, below⟩

def stateEndValue (stack : List Parse) (c : UInt8) : Signal :=
  match stack with
  | [] => .ended
  | top :: below =>
    if isSpace c then .skip ⟨.endValue, top :: below⟩
    else match top with
      | .objectKey => if c = colon then .next ⟨.beginValue, .objectValue :: below⟩ else .error
      | .objectValue =>
        if c = comma then .next ⟨.beginString, .objectKey :: below⟩
        else if c = closeBrace then pop below else .error
      | .arrayValue =>
        if c = comma then .next ⟨.beginValue, .arrayValue :: below⟩
        else if c = closeBracket then pop below else .error

def push (limit : Nat) (stack : List Parse) (parse : Parse) (mode : Mode) : Signal :=
  if stack.length < limit then .next ⟨mode, parse :: stack⟩ else .error

def beginLiteral (c : UInt8) : Option Mode :=
  if c = quote then some .inString
  else if c = 0x2d then some .neg
  else if c = 0x30 then some .int0
  else if c = 0x74 then some (.word .rue)
  else if c = 0x66 then some (.word .alse)
  else if c = 0x6e then some (.word .ull)
  else if isDigit c then some .int1
  else none

def stateBeginValue (limit : Nat) (stack : List Parse) (c : UInt8) : Signal :=
  if isSpace c then .skip ⟨.beginValue, stack⟩
  else if c = openBrace then push limit stack .objectKey .beginStringOrEmpty
  else if c = openBracket then push limit stack .arrayValue .beginValueOrEmpty
  else match beginLiteral c with
    | some mode => .next ⟨mode, stack⟩
    | none => .error

def stateBeginString (stack : List Parse) (mode : Mode) (c : UInt8) : Signal :=
  if isSpace c then .skip ⟨mode, stack⟩
  else if c = quote then .next ⟨.inString, stack⟩
  else .error

def state0 (stack : List Parse) (c : UInt8) : Signal :=
  if c = 0x2e then .next ⟨.dot, stack⟩
  else if c = 0x65 ∨ c = 0x45 then .next ⟨.exp, stack⟩
  else stateEndValue stack c

def stateESign (stack : List Parse) (c : UInt8) : Signal :=
  if isDigit c then .next ⟨.exp0, stack⟩ else .error

def stateWord (stack : List Parse) (left : Word) (c : UInt8) : Signal :=
  if c = left.expected then .next ⟨(left.rest.map Mode.word).getD .endValue, stack⟩ else .error

def step (limit : Nat) (st : Scan) (c : UInt8) : Signal :=
  match st.mode with
  | .beginValue => stateBeginValue limit st.stack c
  | .beginValueOrEmpty =>
    if isSpace c then .skip st
    else if c = closeBracket then
      match st.stack with
      | [] => .error
      | top :: below => stateEndValue (top :: below) c
    else stateBeginValue limit st.stack c
  | .beginString => stateBeginString st.stack .beginString c
  | .beginStringOrEmpty =>
    if isSpace c then .skip st
    else if c = closeBrace then
      match st.stack with
      | [] => .error
      | _ :: below => stateEndValue (.objectValue :: below) c
    else stateBeginString st.stack .beginString c
  | .endValue => stateEndValue st.stack c
  | .inString =>
    if c = quote then .next ⟨.endValue, st.stack⟩
    else if c = backslash then .next ⟨.inStringEsc, st.stack⟩
    else if c < 0x20 then .error
    else .next st
  | .inStringEsc =>
    if isShortEscape c then .next ⟨.inString, st.stack⟩
    else if c = 0x75 then .next ⟨.inStringEscU 4, st.stack⟩
    else .error
  | .inStringEscU missing =>
    if isHex c then .next ⟨if missing ≤ 1 then .inString else .inStringEscU (missing - 1), st.stack⟩
    else .error
  | .neg =>
    if c = 0x30 then .next ⟨.int0, st.stack⟩
    else if isDigit c then .next ⟨.int1, st.stack⟩
    else .error
  | .int1 => if isDigit c then .next st else state0 st.stack c
  | .int0 => state0 st.stack c
  | .dot => if isDigit c then .next ⟨.dot0, st.stack⟩ else .error
  | .dot0 =>
    if isDigit c then .next st
    else if c = 0x65 ∨ c = 0x45 then .next ⟨.exp, st.stack⟩
    else stateEndValue st.stack c
  | .exp =>
    if c = 0x2b ∨ c = 0x2d then .next ⟨.expSign, st.stack⟩ else stateESign st.stack c
  | .expSign => stateESign st.stack c
  | .exp0 => if isDigit c then .next st else stateEndValue st.stack c
  | .word left => stateWord st.stack left c

def Mode.final : Mode → Bool
  | .endValue => true
  | .int1 => true
  | .int0 => true
  | .dot0 => true
  | .exp0 => true
  | _ => false

def Scan.complete (st : Scan) : Bool := st.mode.final && st.stack.isEmpty

def scanFrom (limit : Nat) (st : Scan) : Bytes → Option (Bytes × Bytes)
  | [] => if st.complete then some ([], []) else none
  | c :: rest =>
    match step limit st c with
    | .error => none
    | .ended => some ([], c :: rest)
    | .closed => some ([c], rest)
    | .skip next => (scanFrom limit next rest).map fun found => (c :: found.1, found.2)
    | .next next => (scanFrom limit next rest).map fun found => (c :: found.1, found.2)

def skipSpace : Bytes → Bytes
  | [] => []
  | c :: rest => if isSpace c then skipSpace rest else c :: rest

def maxNestingDepth : Nat := 10000

def scanValue (limit : Nat) (input : Bytes) : Option (Bytes × Bytes) :=
  scanFrom limit ⟨.beginValue, []⟩ (skipSpace input)

variable {limit larger : Nat} {c : UInt8} {st next : Scan} {stack : List Parse}

section
variable (wider : limit ≤ larger)
include wider

theorem push_limit (stack : List Parse) (parse : Parse) (mode : Mode) (fits : push limit stack parse mode ≠ .error) :
    push larger stack parse mode = push limit stack parse mode := by
  unfold push at fits ⊢
  split at fits
  · rename_i room
    rw [if_pos room, if_pos (Nat.lt_of_lt_of_le room wider)]
  · contradiction

theorem step_limit (st : Scan) (c : UInt8) (fits : step limit st c ≠ .error) : step larger st c = step limit st c := by
  have values : stateBeginValue limit st.stack c ≠ .error →
      stateBeginValue larger st.stack c = stateBeginValue limit st.stack c := by
    intro accepted
    unfold stateBeginValue at accepted ⊢
    split
    · rfl
    · rename_i blank
      rw [if_neg blank] at accepted
      split
      · rename_i brace
        rw [if_pos brace] at accepted
        exact push_limit wider _ _ _ accepted
      · rename_i brace
        rw [if_neg brace] at accepted
        split
        · rename_i bracket
          rw [if_pos bracket] at accepted
          exact push_limit wider _ _ _ accepted
        · rfl
  unfold step at fits ⊢
  cases mode : st.mode with
  | beginValue =>
    simp only [mode] at fits
    exact values fits
  | beginValueOrEmpty =>
    simp only [mode] at fits
    dsimp only
    split
    · rfl
    · rename_i blank
      rw [if_neg blank] at fits
      split
      · rfl
      · rename_i bracket
        rw [if_neg bracket] at fits
        exact values fits
  | _ => rfl

-- A deeper limit never changes a value that was accepted.
theorem scan_limit (st : Scan) (input raw rest : Bytes)
    (scanned : scanFrom limit st input = some (raw, rest)) : scanFrom larger st input = some (raw, rest) := by
  induction input generalizing st raw with
  | nil => exact scanned
  | cons c input ih =>
    have fits : step limit st c ≠ .error := by
      intro failed
      simp [scanFrom, failed] at scanned
    simp only [scanFrom, step_limit wider st c fits] at scanned ⊢
    split at scanned
    · contradiction
    · exact scanned
    · exact scanned
    all_goals
      obtain ⟨found, tail, pair⟩ := map_eq_some_iff.mp scanned
      cases pair
      rw [ih _ _ tail]
      rfl

theorem value_limit (input raw rest : Bytes)
    (scanned : scanValue limit input = some (raw, rest)) : scanValue larger input = some (raw, rest) :=
  scan_limit wider _ _ raw rest scanned

end

def strip (limit : Nat) (st : Scan) : Bytes → Bytes
  | [] => []
  | c :: rest =>
    match step limit st c with
    | .skip next => strip limit next rest
    | .next next => c :: strip limit next rest
    | _ => c :: rest

/-- `st` has read blanks that `kept` has not: a number may still be open in `kept`. -/
def Behind (st kept : Scan) : Prop :=
  st = kept ∨ (st.mode = .endValue ∧ kept.mode.final ∧ st.stack = kept.stack ∧ st.stack ≠ [])

def isSeparator (c : UInt8) : Bool := c == comma || c == closeBrace

def isTerminal (c : UInt8) : Bool :=
  isSpace c || c == colon || c == comma || c == closeBrace || c == closeBracket

theorem separator_terminal (sep : isSeparator c) : isTerminal c := by
  simp only [isSeparator, Bool.or_eq_true, beq_iff_eq] at sep
  rcases sep with rfl | rfl <;> rfl

theorem terminal_other (terminal : isTerminal c) : isDigit c = false ∧ c ≠ 0x2e ∧ c ≠ 0x65 ∧ c ≠ 0x45 := by
  simp only [isTerminal, isSpace, Bool.or_eq_true, beq_iff_eq] at terminal
  rcases terminal with ((((((rfl | rfl) | rfl) | rfl) | rfl) | rfl) | rfl) | rfl <;> decide

theorem final_terminal (limit : Nat) (final : st.mode.final)
    (terminal : isTerminal c) : step limit st c = stateEndValue st.stack c := by
  obtain ⟨digit, point, lower, upper⟩ := terminal_other terminal
  unfold step
  cases mode : st.mode with
  | endValue => rfl
  | int1 => simp [digit, state0, point, lower, upper]
  | int0 => simp [state0, point, lower, upper]
  | dot0 => simp [digit, lower, upper]
  | exp0 => simp [digit]
  | _ => simp [mode, Mode.final] at final

theorem end_value_terminal (nonempty : stack ≠ []) (accepted : stateEndValue stack c ≠ .error) : isTerminal c := by
  cases stack with
  | nil => contradiction
  | cons top =>
    unfold stateEndValue at accepted
    unfold isTerminal
    by_cases blank : isSpace c
    · simp [blank]
    · by_cases atColon : c = colon
      · simp [atColon]
      · by_cases atComma : c = comma
        · simp [atComma]
        · by_cases atBrace : c = closeBrace
          · simp [atBrace]
          · by_cases atBracket : c = closeBracket
            · simp [atBracket]
            · cases top <;> simp [blank, atColon, atComma, atBrace, atBracket] at accepted

theorem end_value_blank (blank : isSpace c)
    (nonempty : stack ≠ []) : stateEndValue stack c = .skip ⟨.endValue, stack⟩ := by
  cases stack with
  | nil => contradiction
  | cons => simp [stateEndValue, blank]

theorem end_value_skip (skipped : stateEndValue stack c = .skip next) : isSpace c ∧ stack ≠ [] := by
  cases stack with
  | nil => simp [stateEndValue] at skipped
  | cons top below =>
    refine ⟨?_, List.cons_ne_nil _ _⟩
    by_cases blank : isSpace c
    · exact blank
    · have popped : pop below ≠ .skip next := by
        unfold pop
        split <;> simp
      unfold stateEndValue at skipped
      cases top <;> simp only [blank, Bool.false_eq_true, if_false] at skipped <;> grind

theorem begin_value_signal (limit : Nat) (stack : List Parse) (c : UInt8) :
    (isSpace c ∧ stateBeginValue limit stack c = .skip ⟨.beginValue, stack⟩) ∨
      stateBeginValue limit stack c = .error ∨ ∃ next, stateBeginValue limit stack c = .next next := by
  unfold stateBeginValue push
  by_cases blank : isSpace c
  · exact Or.inl ⟨blank, by simp [blank]⟩
  · simp only [blank, Bool.false_eq_true, if_false, false_and, false_or]
    repeat' split
    all_goals simp

theorem begin_value_skip (skipped : stateBeginValue limit stack c = .skip next) : isSpace c := by
  rcases begin_value_signal limit stack c with ⟨blank, -⟩ | failed | ⟨other, taken⟩
  · exact blank
  · simp [failed] at skipped
  · simp [taken] at skipped

theorem step_skip (skipped : step limit st c = .skip next) : isSpace c ∧ Behind next st := by
  have ending : st.mode.final → stateEndValue st.stack c = .skip next → isSpace c ∧ Behind next st := by
    intro final ended
    obtain ⟨blank, nonempty⟩ := end_value_skip ended
    rw [end_value_blank blank nonempty] at ended
    cases ended
    exact ⟨blank, Or.inr ⟨rfl, final, rfl, nonempty⟩⟩
  obtain ⟨mode, stack⟩ := st
  unfold step at skipped
  cases mode with
  | beginValue =>
    have blank := begin_value_skip skipped
    simp [stateBeginValue, blank] at skipped
    exact ⟨blank, Or.inl skipped.symm⟩
  | beginValueOrEmpty =>
    by_cases blank : isSpace c
    · simp only [blank, if_true, Signal.skip.injEq] at skipped
      exact ⟨blank, Or.inl skipped.symm⟩
    · simp only [blank, Bool.false_eq_true, if_false] at skipped
      split at skipped
      · split at skipped
        · contradiction
        · exact absurd (end_value_skip skipped).1 blank
      · exact absurd (begin_value_skip skipped) blank
  | beginString =>
    simp only [stateBeginString] at skipped
    split at skipped
    · rename_i blank
      exact ⟨blank, Or.inl (Signal.skip.inj skipped).symm⟩
    · split at skipped <;> contradiction
  | beginStringOrEmpty =>
    by_cases blank : isSpace c
    · simp only [blank, if_true, Signal.skip.injEq] at skipped
      exact ⟨blank, Or.inl skipped.symm⟩
    · simp only [blank, Bool.false_eq_true, if_false] at skipped
      split at skipped
      · split at skipped
        · contradiction
        · exact absurd (end_value_skip skipped).1 blank
      · simp only [stateBeginString, blank, Bool.false_eq_true, if_false] at skipped
        split at skipped <;> contradiction
  | endValue => exact ending rfl skipped
  | int1 | int0 =>
    dsimp only [state0] at skipped
    repeat' split at skipped
    all_goals first | contradiction | exact ending rfl skipped
  | dot0 =>
    dsimp only at skipped
    repeat' split at skipped
    all_goals first | contradiction | exact ending rfl skipped
  | exp0 =>
    dsimp only at skipped
    split at skipped
    · contradiction
    · exact ending rfl skipped
  | _ =>
    dsimp only [stateESign, stateWord] at skipped
    repeat' split at skipped
    all_goals contradiction

/-- The two scanners do the same on every byte that is kept. -/
theorem behind_step {limit : Nat} {st kept : Scan} {c : UInt8} (behind : Behind st kept) :
    (∀ next, step limit st c = .skip next → Behind next kept) ∧
    (∀ next, step limit st c = .next next → step limit kept c = .next next) ∧
    (step limit st c = .closed → step limit kept c = .closed) := by
  rcases behind with same | ⟨mode, final, stack, nonempty⟩
  · subst same
    exact ⟨fun next skipped => (step_skip skipped).2, fun next taken => taken, fun closed => closed⟩
  · have plain : step limit st c = stateEndValue st.stack c := by simp [step, mode]
    have kept_plain : stateEndValue st.stack c ≠ .error → step limit kept c = stateEndValue st.stack c := by
      intro accepted
      rw [stack]
      exact final_terminal limit final (end_value_terminal nonempty accepted)
    rw [plain]
    refine ⟨?_, ?_, ?_⟩
    · intro next skipped
      rw [end_value_blank (end_value_skip skipped).1 nonempty] at skipped
      cases skipped
      exact Or.inr ⟨rfl, final, stack, nonempty⟩
    · intro next taken
      rw [kept_plain (by simp [taken]), taken]
    · intro closed
      rw [kept_plain (by simp [closed]), closed]

theorem end_value_ended (ended : stateEndValue stack c = .ended) : stack = [] := by
  cases stack with
  | nil => rfl
  | cons top below =>
    have popped : pop below ≠ .ended := by
      unfold pop
      split <;> simp
    unfold stateEndValue at ended
    cases top <;> dsimp only at ended <;> grind

theorem step_ended (ended : step limit st c = .ended) : st.complete := by
  have begins : stateBeginValue limit st.stack c ≠ .ended := by
    rcases begin_value_signal limit st.stack c with ⟨-, skipped⟩ | failed | ⟨next, taken⟩
    · simp [skipped]
    · simp [failed]
    · simp [taken]
  have opens : stateBeginString st.stack .beginString c ≠ .ended := by
    unfold stateBeginString
    repeat' split
    all_goals simp
  have ending : st.mode.final → stateEndValue st.stack c = .ended → st.complete := by
    intro final ended
    simp [Scan.complete, final, end_value_ended ended]
  obtain ⟨mode, stack⟩ := st
  unfold step at ended
  cases mode with
  | beginValue => exact absurd ended begins
  | beginValueOrEmpty =>
    dsimp only at ended
    repeat' split at ended
    all_goals first
      | contradiction
      | exact absurd ended begins
      | exact absurd (end_value_ended ended) (List.cons_ne_nil _ _)
  | beginString => exact absurd ended opens
  | beginStringOrEmpty =>
    dsimp only at ended
    repeat' split at ended
    all_goals first
      | contradiction
      | exact absurd ended opens
      | exact absurd (end_value_ended ended) (List.cons_ne_nil _ _)
  | endValue => exact ending rfl ended
  | int1 | int0 =>
    dsimp only [state0] at ended
    repeat' split at ended
    all_goals first | contradiction | exact ending rfl ended
  | dot0 =>
    dsimp only at ended
    repeat' split at ended
    all_goals first | contradiction | exact ending rfl ended
  | exp0 =>
    dsimp only at ended
    split at ended
    · contradiction
    · exact ending rfl ended
  | _ =>
    dsimp only [stateESign, stateWord] at ended
    repeat' split at ended
    all_goals contradiction

theorem complete_separator (limit : Nat) {sep : UInt8} (complete : st.complete)
    (separator : isSeparator sep) : step limit st sep = .ended := by
  simp only [Scan.complete, Bool.and_eq_true, List.isEmpty_iff] at complete
  rw [final_terminal limit complete.1 (separator_terminal separator), complete.2]
  rfl

theorem complete_scan (limit : Nat) {kept : Scan} {sep : UInt8} (behind : Behind st kept)
    (complete : st.complete) (separator : isSeparator sep) (tail : Bytes) :
    scanFrom limit kept (sep :: tail) = some ([], sep :: tail) := by
  rcases behind with same | ⟨-, -, -, nonempty⟩
  · simp [scanFrom, ← same, complete_separator limit complete separator]
  · simp [Scan.complete, nonempty] at complete

-- Behind a separator the stripped value scans again, whatever follows.
theorem strip_scan {kept : Scan} {input raw rest : Bytes} (behind : Behind st kept)
    (scanned : scanFrom limit st input = some (raw, rest)) (sep : UInt8) (tail : Bytes)
    (separator : isSeparator sep) : scanFrom limit kept (strip limit st raw ++ sep :: tail) =
      some (strip limit st raw, sep :: tail) := by
  induction input generalizing st kept raw with
  | nil =>
    simp only [scanFrom, ite_none_right_eq_some, some.injEq, Prod.mk.injEq] at scanned
    rw [← scanned.2.1]
    exact complete_scan limit behind scanned.1 separator tail
  | cons c input ih =>
    obtain ⟨skips, takes, closes⟩ := @behind_step limit st kept c behind
    simp only [scanFrom] at scanned
    split at scanned
    · contradiction
    · rename_i ended
      cases scanned
      exact complete_scan limit behind (step_ended ended) separator tail
    · rename_i closed
      cases scanned
      simp [strip, closed, scanFrom, closes closed]
    · rename_i next skipped
      obtain ⟨found, onward, pair⟩ := map_eq_some_iff.mp scanned
      cases pair
      simp only [strip, skipped]
      exact ih (skips next skipped) onward
    · rename_i next taken
      obtain ⟨found, onward, pair⟩ := map_eq_some_iff.mp scanned
      cases pair
      simp only [strip, taken, List.cons_append, scanFrom, takes next taken]
      rw [ih (Or.inl rfl) onward]
      rfl

end PieRelay.JsonScanner
