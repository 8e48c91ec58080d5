import Mathlib.Data.List.Basic
import PieRelay.JsonScanner

/-!
String literals of encoding/json, byte by byte: what `unquote` reads, what
`appendString` writes, and the HTML-safe form that `Marshal` gives to values it only
copies. Bytes that are no UTF-8 read as U+FFFD, one at a time. Both directions work
on the bytes behind the opening quote; a literal ends with its closing quote.
-/
namespace PieRelay.JsonStrings
open JsonScanner

def isCont (c : UInt8) : Bool := 0x80 ≤ c && c ≤ 0xbf

def replacement : Char := Char.ofNat 0xfffd

/-- `utf8.DecodeRune`: the character, and how many bytes behind the first one it takes. -/
def decodeRune (lead : UInt8) (rest : Bytes) : Char × Nat :=
  let n := lead.toNat
  let conts := (rest.takeWhile isCont).map UInt8.toNat
  if n < 0x80 then (Char.ofNat n, 0)
  else if n < 0xc2 then (replacement, 0)
  else if n < 0xe0 then
    match conts with
    | a :: _ => (Char.ofNat ((n - 0xc0) * 64 + (a - 0x80)), 1)
    | _ => (replacement, 0)
  else if n < 0xf0 then
    match conts with
    | a :: b :: _ =>
      let value := (n - 0xe0) * 4096 + (a - 0x80) * 64 + (b - 0x80)
      if 0x800 ≤ value ∧ ¬ (0xd800 ≤ value ∧ value ≤ 0xdfff) then (Char.ofNat value, 2)
      else (replacement, 0)
    | _ => (replacement, 0)
  else if n < 0xf5 then
    match conts with
    | a :: b :: c :: _ =>
      let value := (n - 0xf0) * 262144 + (a - 0x80) * 4096 + (b - 0x80) * 64 + (c - 0x80)
      if 0x10000 ≤ value ∧ value ≤ 0x10ffff then (Char.ofNat value, 3) else (replacement, 0)
    | _ => (replacement, 0)
  else (replacement, 0)

def hexValue (c : UInt8) : Nat :=
  let n := c.toNat
  if n ≤ 0x39 then n - 0x30 else if n ≤ 0x46 then n - 0x41 + 10 else n - 0x61 + 10

def getu4 : Bytes → Option Nat
  | a :: b :: c :: d :: _ =>
    if isHex a && isHex b && isHex c && isHex d then
      some (hexValue a * 4096 + hexValue b * 256 + hexValue c * 16 + hexValue d)
    else none
  | _ => none

def isHighSurrogate (n : Nat) : Bool := 0xd800 ≤ n && n < 0xdc00
def isLowSurrogate (n : Nat) : Bool := 0xdc00 ≤ n && n < 0xe000

def lowSurrogate : Bytes → Option Nat
  | slash :: u :: digits =>
    if slash = backslash ∧ u = 0x75 then (getu4 digits).filter isLowSurrogate else none
  | _ => none

def shortEscape (c : UInt8) : Char :=
  if c = 0x62 then Char.ofNat 8
  else if c = 0x66 then Char.ofNat 12
  else if c = 0x6e then Char.ofNat 10
  else if c = 0x72 then Char.ofNat 13
  else if c = 0x74 then Char.ofNat 9
  else Char.ofNat c.toNat

/-- What a backslash stands for, and how many bytes behind it belong to it. A surrogate
    counts only as the first half of a pair. -/
def readEscape : Bytes → Char × Nat
  | [] => (replacement, 0)
  | c :: rest =>
    if c = 0x75 then
      match getu4 rest with
      | none => (replacement, 0)
      | some n =>
        if isHighSurrogate n then
          match lowSurrogate (rest.drop 4) with
          | some low => (Char.ofNat (0x10000 + (n - 0xd800) * 1024 + (low - 0xdc00)), 11)
          | none => (replacement, 5)
        else if isLowSurrogate n then (replacement, 5)
        else (Char.ofNat n, 5)
    else (shortEscape c, 1)

def unquoteFrom : Nat → Bytes → List Char
  | _, [] => []
  | skip + 1, _ :: rest => unquoteFrom skip rest
  | 0, c :: rest =>
    if c = quote then []
    else if c = backslash then (readEscape rest).1 :: unquoteFrom (readEscape rest).2 rest
    else (decodeRune c rest).1 :: unquoteFrom (decodeRune c rest).2 rest

def unquote (raw : Bytes) : String :=
  match raw with
  | [] => ""
  | _ :: rest => String.ofList (unquoteFrom 0 rest)

def hexDigit (n : Nat) : UInt8 := UInt8.ofNat (if n < 10 then 0x30 + n else 0x57 + n)

def unicodeEscape (n : Nat) : Bytes :=
  [backslash, 0x75, hexDigit (n / 4096 % 16), hexDigit (n / 256 % 16), hexDigit (n / 16 % 16),
    hexDigit (n % 16)]

def isHTML (c : UInt8) : Bool := c == 0x3c || c == 0x3e || c == 0x26

def isLineSeparator : Bytes → Bool
  | a :: b :: _ => a == 0x80 && (b == 0xa8 || b == 0xa9)
  | _ => false

def escapeHTML : Nat → Bytes → Bytes
  | _, [] => []
  | skip + 1, _ :: rest => escapeHTML skip rest
  | 0, c :: rest =>
    if isHTML c then unicodeEscape c.toNat ++ escapeHTML 0 rest
    else if c = 0xe2 ∧ isLineSeparator rest then
      unicodeEscape (0x2000 + (rest.getD 1 0).toNat - 0x80) ++ escapeHTML 2 rest
    else c :: escapeHTML 0 rest

def quoteChar (c : Char) : Bytes :=
  if c = '"' ∨ c = '\\' then [backslash, UInt8.ofNat c.toNat]
  else if c.toNat = 8 then [backslash, 0x62]
  else if c.toNat = 12 then [backslash, 0x66]
  else if c.toNat = 10 then [backslash, 0x6e]
  else if c.toNat = 13 then [backslash, 0x72]
  else if c.toNat = 9 then [backslash, 0x74]
  else if c.toNat < 0x20 ∨ c = '<' ∨ c = '>' ∨ c = '&' ∨ c.toNat = 0x2028 ∨ c.toNat = 0x2029 then
    unicodeEscape c.toNat
  else String.utf8EncodeChar c

def quoteString (text : String) : Bytes := quote :: (text.toList.flatMap quoteChar ++ [quote])

inductive Literal : Bytes → Prop where
  | close : Literal [quote]
  | plain (c : UInt8) (rest : Bytes) (unquoted : c ≠ quote) (unescaped : c ≠ backslash)
      (printable : ¬ c < 0x20) (tail : Literal rest) : Literal (c :: rest)
  | short (c : UInt8) (rest : Bytes) (known : isShortEscape c) (tail : Literal rest) :
      Literal (backslash :: c :: rest)
  | unicode (a b c d : UInt8) (rest : Bytes) (first : isHex a) (second : isHex b)
      (third : isHex c) (fourth : isHex d) (tail : Literal rest) :
      Literal (backslash :: 0x75 :: a :: b :: c :: d :: rest)

variable {limit : Nat} {st : Scan} {c : UInt8} {raw input rest tail : Bytes}

theorem scan_next {next : Scan} (taken : step limit st c = .next next)
    (input : Bytes) : scanFrom limit st (c :: input) =
      (scanFrom limit next input).map fun found => (c :: found.1, found.2) := by
  simp [scanFrom, taken]

section Steps
variable (limit : Nat) (stack : List Parse)

theorem step_plain (unquoted : c ≠ quote) (unescaped : c ≠ backslash)
    (printable : ¬ c < 0x20) : step limit ⟨.inString, stack⟩ c = .next ⟨.inString, stack⟩ := by
  simp [step, unquoted, unescaped, printable]

theorem step_short (known : isShortEscape c) : step limit ⟨.inStringEsc, stack⟩ c = .next ⟨.inString, stack⟩ := by
  simp [step, known]

theorem step_hex (digit : isHex c) (missing : Nat) :
    step limit ⟨.inStringEscU (missing + 2), stack⟩ c = .next ⟨.inStringEscU (missing + 1), stack⟩ := by
  simp [step, digit]

theorem step_last_hex (digit : isHex c) : step limit ⟨.inStringEscU 1, stack⟩ c = .next ⟨.inString, stack⟩ := by
  simp [step, digit]

theorem scan_short (known : isShortEscape c) (input : Bytes) :
    scanFrom limit ⟨.inString, stack⟩ (backslash :: c :: input) =
      (scanFrom limit ⟨.inString, stack⟩ input).map fun found => (backslash :: c :: found.1, found.2) := by
  have opened : step limit ⟨.inString, stack⟩ backslash = .next ⟨.inStringEsc, stack⟩ := rfl
  rw [scan_next opened, scan_next (step_short limit stack known), Option.map_map]
  rfl

theorem scan_unicode {a b d : UInt8} (first : isHex a) (second : isHex b)
    (third : isHex c) (fourth : isHex d) (input : Bytes) :
    scanFrom limit ⟨.inString, stack⟩ (backslash :: 0x75 :: a :: b :: c :: d :: input) =
      (scanFrom limit ⟨.inString, stack⟩ input).map fun found =>
        (backslash :: 0x75 :: a :: b :: c :: d :: found.1, found.2) := by
  have opened : step limit ⟨.inString, stack⟩ backslash = .next ⟨.inStringEsc, stack⟩ := rfl
  have marked : step limit ⟨.inStringEsc, stack⟩ 0x75 = .next ⟨.inStringEscU 4, stack⟩ := rfl
  rw [scan_next opened, scan_next marked, scan_next (step_hex limit stack first 2),
    scan_next (step_hex limit stack second 1), scan_next (step_hex limit stack third 0),
    scan_next (step_last_hex limit stack fourth)]
  simp only [Option.map_map]
  rfl

end Steps

theorem literal_scan (limit : Nat) (literal : Literal raw) (rest : Bytes) :
    scanFrom limit ⟨.inString, []⟩ (raw ++ rest) = some (raw, rest) := by
  induction literal with
  | close =>
    cases rest with
    | nil => rfl
    | cons => rfl
  | plain c tail unquoted unescaped printable _ ih =>
    rw [List.cons_append, scan_next (step_plain limit [] unquoted unescaped printable), ih]
    rfl
  | short c tail known _ ih =>
    rw [List.cons_append, List.cons_append, scan_short limit [] known, ih]
    rfl
  | unicode a b c d tail first second third fourth _ ih =>
    simp only [List.cons_append]
    rw [scan_unicode limit [] first second third fourth, ih]
    rfl

theorem scan_next_some {next : Scan} (taken : step limit st c = .next next)
    (scanned : scanFrom limit st (c :: input) = some (raw, rest)) :
    ∃ tail, raw = c :: tail ∧ scanFrom limit next input = some (tail, rest) := by
  rw [scan_next taken] at scanned
  obtain ⟨found, onward, pair⟩ := Option.map_eq_some_iff.mp scanned
  cases pair
  exact ⟨found.1, rfl, onward⟩

theorem scan_error (failed : step limit st c = .error) (input : Bytes) : scanFrom limit st (c :: input) = none := by
  simp [scanFrom, failed]

theorem scan_over (scanned : scanFrom limit ⟨.endValue, []⟩ input = some (raw, rest)) : raw = [] := by
  cases input with
  | nil | cons =>
    cases scanned
    rfl

-- One statement for the three places inside a literal, by what has been read of an escape.
theorem scan_literal_at (limit : Nat) (input raw rest : Bytes) :
    (scanFrom limit ⟨.inString, []⟩ input = some (raw, rest) → Literal raw) ∧
    (scanFrom limit ⟨.inStringEsc, []⟩ input = some (raw, rest) → Literal (backslash :: raw)) ∧
    (∀ seen missing, seen.all isHex → seen.length + missing = 3 →
      scanFrom limit ⟨.inStringEscU (missing + 1), []⟩ input = some (raw, rest) →
      Literal (backslash :: 0x75 :: (seen ++ raw))) := by
  induction input generalizing raw with
  | nil => simp [scanFrom, Scan.complete, Mode.final]
  | cons c input ih =>
    refine ⟨?_, ?_, ?_⟩
    · intro scanned
      by_cases closing : c = quote
      · subst closing
        obtain ⟨tail, rfl, onward⟩ := scan_next_some rfl scanned
        rw [scan_over onward]
        exact .close
      · by_cases escape : c = backslash
        · subst escape
          obtain ⟨tail, rfl, onward⟩ := scan_next_some rfl scanned
          exact (ih tail).2.1 onward
        · by_cases control : c < 0x20
          · rw [scan_error (by simp [step, closing, escape, control])] at scanned
            contradiction
          · obtain ⟨tail, rfl, onward⟩ :=
              scan_next_some (step_plain limit [] closing escape control) scanned
            exact .plain c tail closing escape control ((ih tail).1 onward)
    · intro scanned
      by_cases known : isShortEscape c
      · obtain ⟨tail, rfl, onward⟩ := scan_next_some (step_short limit [] known) scanned
        exact .short c tail known ((ih tail).1 onward)
      · by_cases marked : c = 0x75
        · subst marked
          obtain ⟨tail, rfl, onward⟩ := scan_next_some rfl scanned
          exact (ih tail).2.2 [] 3 rfl rfl onward
        · rw [scan_error (by simp [step, known, marked])] at scanned
          contradiction
    · intro seen missing digits length scanned
      by_cases digit : isHex c
      · cases missing with
        | succ missing =>
          obtain ⟨tail, rfl, onward⟩ := scan_next_some (step_hex limit [] digit missing) scanned
          have longer := (ih tail).2.2 (seen ++ [c]) missing (by simp [digits, digit]) (by simp; omega) onward
          simpa using longer
        | zero =>
          obtain ⟨tail, rfl, onward⟩ := scan_next_some (step_last_hex limit [] digit) scanned
          obtain ⟨x, y, z, rfl⟩ := List.length_eq_three.mp length
          simp only [List.all_cons, List.all_nil, Bool.and_true, Bool.and_eq_true] at digits
          exact .unicode x y z c tail digits.1 digits.2.1 digits.2.2 digit ((ih tail).1 onward)
      · rw [scan_error (by simp [step, digit])] at scanned
        contradiction

theorem scan_literal (scanned : scanFrom limit ⟨.inString, []⟩ input = some (raw, rest)) : Literal raw :=
  (scan_literal_at limit input raw rest).1 scanned

/-! Escaping inside a scanned value. The bytes that are escaped are accepted only inside a
string, where every byte leaves the scanner in the same place. -/

def isSpecial (c : UInt8) : Bool := isHTML c || c == 0xe2

theorem special_cases (special : isSpecial c) : c = 0x3c ∨ c = 0x3e ∨ c = 0x26 ∨ c = 0xe2 := by
  simpa [isSpecial, isHTML, or_assoc] using special

theorem end_value_special {stack : List Parse} (special : isSpecial c) :
    stateEndValue stack c = .ended ∨ stateEndValue stack c = .error := by
  cases stack with
  | nil => exact Or.inl rfl
  | cons top =>
    refine Or.inr ?_
    rcases special_cases special with rfl | rfl | rfl | rfl <;> cases top <;> rfl

theorem special_inside (limit : Nat) {st : Scan} {c : UInt8} (special : isSpecial c)
    (accepted : step limit st c ≠ .error) (unended : step limit st c ≠ .ended) :
    st = ⟨.inString, st.stack⟩ := by
  obtain ⟨mode, stack⟩ := st
  have ending : ∀ signal, signal = stateEndValue stack c → signal = .ended ∨ signal = .error := by
    intro signal same
    rw [same]
    exact end_value_special special
  have outside : mode ≠ .inString → step limit ⟨mode, stack⟩ c = .ended ∨ step limit ⟨mode, stack⟩ c = .error := by
    intro elsewhere
    rcases special_cases special with rfl | rfl | rfl | rfl <;> cases mode with
    | inString => contradiction
    | word left => exact Or.inr (by cases left <;> rfl)
    | endValue | int1 | int0 | dot0 | exp0 => exact ending _ rfl
    | _ => exact Or.inr rfl
  by_cases inside : mode = .inString
  · rw [inside]
  · rcases outside inside with ended | failed
    · exact absurd ended unended
    · exact absurd failed accepted

theorem special_step (limit : Nat) (stack : List Parse) (special : isSpecial c) :
    step limit ⟨.inString, stack⟩ c = .next ⟨.inString, stack⟩ := by
  rcases special_cases special with rfl | rfl | rfl | rfl <;> rfl

theorem cont_step (limit : Nat) (stack : List Parse) (cont : isCont c) :
    step limit ⟨.inString, stack⟩ c = .next ⟨.inString, stack⟩ := by
  have high : 0x80 ≤ c.toNat := by
    simp only [isCont, Bool.and_eq_true, decide_eq_true_eq] at cont
    exact cont.1
  refine step_plain limit stack ?_ ?_ ?_
  · rintro rfl
    exact absurd high (by decide)
  · rintro rfl
    exact absurd high (by decide)
  · intro control
    have low : c.toNat < 0x20 := control
    omega

theorem hex_digit : ∀ n, n < 16 → isHex (hexDigit n) ∧ hexValue (hexDigit n) = n := by
  decide

theorem unicode_escape_scan (limit : Nat) (stack : List Parse) (n : Nat) (input : Bytes) :
    scanFrom limit ⟨.inString, stack⟩ (unicodeEscape n ++ input) =
      (scanFrom limit ⟨.inString, stack⟩ input).map fun found =>
        (unicodeEscape n ++ found.1, found.2) :=
  scan_unicode limit stack (hex_digit _ (Nat.mod_lt _ (by decide))).1
    (hex_digit _ (Nat.mod_lt _ (by decide))).1 (hex_digit _ (Nat.mod_lt _ (by decide))).1
    (hex_digit _ (Nat.mod_lt _ (by decide))).1 input

theorem scan_cons_cases (scanned : scanFrom limit st (c :: input) = some (c :: raw, tail)) :
    (step limit st c = .closed ∧ raw = [] ∧ tail = input) ∨
      ∃ next, (step limit st c = .skip next ∨ step limit st c = .next next) ∧
        scanFrom limit next input = some (raw, tail) := by
  simp only [scanFrom] at scanned
  split at scanned
  · contradiction
  · cases scanned
  · rename_i closed
    cases scanned
    exact Or.inl ⟨closed, rfl, rfl⟩
  · rename_i next skipped
    obtain ⟨found, onward, pair⟩ := Option.map_eq_some_iff.mp scanned
    cases pair
    exact Or.inr ⟨next, Or.inl skipped, onward⟩
  · rename_i next taken
    obtain ⟨found, onward, pair⟩ := Option.map_eq_some_iff.mp scanned
    cases pair
    exact Or.inr ⟨next, Or.inr taken, onward⟩

theorem scan_inside {stack : List Parse} (kept : step limit ⟨.inString, stack⟩ c = .next ⟨.inString, stack⟩)
    (scanned : scanFrom limit ⟨.inString, stack⟩ (c :: input) = some (c :: raw, tail)) :
    scanFrom limit ⟨.inString, stack⟩ input = some (raw, tail) := by
  obtain ⟨found, same, onward⟩ := scan_next_some kept scanned
  cases same
  exact onward

theorem line_separator_conts (separator : isLineSeparator rest) : 2 ≤ (rest.takeWhile isCont).length := by
  match rest, separator with
  | a :: b :: rest, separator =>
    simp only [isLineSeparator, Bool.and_eq_true, Bool.or_eq_true, beq_iff_eq] at separator
    obtain ⟨rfl, rfl | rfl⟩ := separator <;> simp [List.takeWhile, isCont]

-- `skip` bytes belong to an escape that has already been written.
theorem escape_scan (skip : Nat) (covered : skip = 0 ∨ st.mode = .inString ∧ skip ≤ (raw.takeWhile isCont).length)
    (scanned : scanFrom limit st (raw ++ tail) = some (raw, tail)) :
    scanFrom limit st (escapeHTML skip raw ++ tail) = some (escapeHTML skip raw, tail) := by
  induction raw generalizing st skip with
  | nil => cases skip <;> exact scanned
  | cons c raw ih =>
    have replaced : isSpecial c → ∃ stack, st = ⟨.inString, stack⟩ ∧
        scanFrom limit ⟨.inString, stack⟩ (raw ++ tail) = some (raw, tail) := by
      intro special
      have inside : st = ⟨.inString, st.stack⟩ := by
        rcases scan_cons_cases scanned with ⟨closed, -⟩ | ⟨next, skipped | taken, -⟩
        · exact special_inside limit special (by simp [closed]) (by simp [closed])
        · exact special_inside limit special (by simp [skipped]) (by simp [skipped])
        · exact special_inside limit special (by simp [taken]) (by simp [taken])
      rw [inside] at scanned
      exact ⟨st.stack, inside, scan_inside (special_step limit st.stack special) scanned⟩
    cases skip with
    | succ skip =>
      rcases covered with none | ⟨mode, bound⟩
      · contradiction
      · obtain ⟨mode', stack⟩ := st
        cases mode
        have cont : isCont c := by
          by_cases cont : isCont c
          · exact cont
          · simp [List.takeWhile, cont] at bound
        have fewer : skip ≤ (raw.takeWhile isCont).length := by
          simpa [List.takeWhile, cont] using bound
        exact ih skip (Or.inr ⟨rfl, fewer⟩) (scan_inside (cont_step limit stack cont) scanned)
    | zero =>
      simp only [escapeHTML]
      split
      · rename_i html
        obtain ⟨stack, rfl, onward⟩ := replaced (by simp [isSpecial, html])
        rw [List.append_assoc, unicode_escape_scan, ih 0 (Or.inl rfl) onward]
        rfl
      · split
        · rename_i separator
          obtain ⟨stack, rfl, onward⟩ := replaced (by simp [isSpecial, separator.1])
          rw [List.append_assoc, unicode_escape_scan, ih 2 (Or.inr ⟨rfl, line_separator_conts separator.2⟩) onward]
          rfl
        · rcases scan_cons_cases scanned with ⟨closed, rfl, -⟩ | ⟨next, skipped | taken, onward⟩
          · simp [escapeHTML, scanFrom, closed]
          · simp [scanFrom, skipped, ih 0 (Or.inl rfl) onward]
          · simp [scanFrom, taken, ih 0 (Or.inl rfl) onward]

theorem escape_ordinary (ordinary : isSpecial c = false) (rest : Bytes) :
    escapeHTML 0 (c :: rest) = c :: escapeHTML 0 rest := by
  simp only [isSpecial, Bool.or_eq_false_iff, beq_eq_false_iff_ne] at ordinary
  simp [escapeHTML, ordinary.1, ordinary.2]

theorem cont_ordinary (cont : isCont c) : isSpecial c = false := by
  by_cases special : isSpecial c
  · rcases special_cases special with rfl | rfl | rfl | rfl <;> contradiction
  · simpa using special

theorem hex_ordinary (digit : isHex c) : isSpecial c = false := by
  by_cases special : isSpecial c
  · rcases special_cases special with rfl | rfl | rfl | rfl <;> contradiction
  · simpa using special

theorem short_ordinary (known : isShortEscape c) : isSpecial c = false ∧ c ≠ 0x75 := by
  simp only [isShortEscape, Bool.or_eq_true, beq_iff_eq] at known
  rcases known with ((((((rfl | rfl) | rfl) | rfl) | rfl) | rfl) | rfl) | rfl <;> decide

theorem backslash_open : backslash ≠ quote := by decide

theorem escape_conts (rest : Bytes) : (escapeHTML 0 rest).takeWhile isCont = rest.takeWhile isCont := by
  induction rest with
  | nil => rfl
  | cons c rest ih =>
    by_cases cont : isCont c
    · rw [escape_ordinary (cont_ordinary cont)]
      simp [List.takeWhile, cont, ih]
    · have stops : List.takeWhile isCont (c :: rest) = [] := by simp [List.takeWhile, cont]
      rw [stops]
      simp only [escapeHTML]
      split
      · rfl
      · split
        · rfl
        · simp [List.takeWhile, cont]

theorem getu4_escape (n : Nat) (small : n < 65536) (rest : Bytes) :
    getu4 (hexDigit (n / 4096 % 16) :: hexDigit (n / 256 % 16) :: hexDigit (n / 16 % 16) ::
      hexDigit (n % 16) :: rest) = some n := by
  have digits := fun k => hex_digit (k % 16) (Nat.mod_lt _ (by decide))
  simp only [getu4, (digits _).1, (digits _).2, Bool.and_self, if_true, Option.some.injEq]
  omega

theorem read_unicode_escape (n : Nat) (small : n < 0xd800) (rest : Bytes) :
    unquoteFrom 0 (unicodeEscape n ++ rest) = Char.ofNat n :: unquoteFrom 0 rest := by
  have digits := getu4_escape n (by omega) rest
  have high : isHighSurrogate n = false := by simp [isHighSurrogate]; omega
  have low : isLowSurrogate n = false := by simp [isLowSurrogate]; omega
  simp [unicodeEscape, unquoteFrom, backslash_open, readEscape, digits, high, low]

theorem rune_used (lead : UInt8) (rest : Bytes) : (decodeRune lead rest).2 ≤ (rest.takeWhile isCont).length := by
  unfold decodeRune
  dsimp only
  rcases rest.takeWhile isCont with _ | ⟨a, _ | ⟨b, _ | ⟨c, more⟩⟩⟩
  all_goals
    simp only [List.map_nil, List.map_cons, List.length_nil, List.length_cons]
    repeat' split
    all_goals omega

theorem rune_conts {left right : Bytes} (same : left.takeWhile isCont = right.takeWhile isCont)
    (lead : UInt8) : decodeRune lead left = decodeRune lead right := by
  simp only [decodeRune, same]

theorem low_surrogate_escape (literal : Literal rest) : lowSurrogate (escapeHTML 0 rest) = lowSurrogate rest := by
  have apart : ∀ n, n < 0xd800 → ∀ tail, lowSurrogate (unicodeEscape n ++ tail) = none := by
    intro n small tail
    have digits := getu4_escape n (by omega) tail
    have low : isLowSurrogate n = false := by simp [isLowSurrogate]; omega
    simp [unicodeEscape, lowSurrogate, digits, Option.filter, low]
  cases literal with
  | close => rfl
  | plain c tail unquoted unescaped =>
    have none_here : lowSurrogate (c :: tail) = none := by
      cases tail <;> simp [lowSurrogate, unescaped]
    rw [none_here]
    simp only [escapeHTML]
    split
    · rename_i html
      refine apart _ ?_ _
      have byte := c.toNat_lt
      omega
    · split
      · refine apart _ ?_ _
        have byte := (tail.getD 1 0).toNat_lt
        omega
      · cases escapeHTML 0 tail <;> simp [lowSurrogate, unescaped]
  | short c tail known =>
    obtain ⟨ordinary, other⟩ := short_ordinary known
    rw [escape_ordinary (by decide), escape_ordinary ordinary]
    simp [lowSurrogate, other]
  | unicode a b c d tail first second third fourth =>
    rw [escape_ordinary (by decide), escape_ordinary (by decide),
      escape_ordinary (hex_ordinary first), escape_ordinary (hex_ordinary second),
      escape_ordinary (hex_ordinary third), escape_ordinary (hex_ordinary fourth)]
    rfl

def Aligned (raw : Bytes) (skip : Nat) : Prop :=
  skip ≤ (raw.takeWhile isCont).length ∨ skip = 6 ∧ (lowSurrogate raw).isSome

theorem unquote_plain (unquoted : c ≠ quote) (unescaped : c ≠ backslash) (rest : Bytes) :
    unquoteFrom 0 (c :: rest) = (decodeRune c rest).1 :: unquoteFrom (decodeRune c rest).2 rest := by
  simp [unquoteFrom, unquoted, unescaped]

theorem unquote_escape (rest : Bytes) : unquoteFrom 0 (backslash :: rest) =
    (readEscape rest).1 :: unquoteFrom (readEscape rest).2 rest := by
  simp [unquoteFrom, backslash_open]

theorem rune_html (html : isHTML c) (rest : Bytes) : decodeRune c rest = (Char.ofNat c.toNat, 0) := by
  have small : c.toNat < 0x80 := by
    simp only [isHTML, Bool.or_eq_true, beq_iff_eq] at html
    rcases html with (rfl | rfl) | rfl <;> decide
  simp [decodeRune, small]

theorem rune_line_separator (separator : isLineSeparator rest) :
    decodeRune 0xe2 rest = (Char.ofNat (0x2000 + (rest.getD 1 0).toNat - 0x80), 2) ∧
      unquoteFrom 0 (escapeHTML 2 rest) = unquoteFrom 2 (escapeHTML 0 rest) := by
  match rest, separator with
  | a :: b :: rest, separator =>
    simp only [isLineSeparator, Bool.and_eq_true, Bool.or_eq_true, beq_iff_eq] at separator
    obtain ⟨rfl, rfl | rfl⟩ := separator
    · exact ⟨by simp [decodeRune, List.takeWhile, isCont], rfl⟩
    · exact ⟨by simp [decodeRune, List.takeWhile, isCont], rfl⟩

theorem read_escape_kept (literal : Literal tail) {a b d : UInt8} :
    readEscape (0x75 :: a :: b :: c :: d :: escapeHTML 0 tail) = readEscape (0x75 :: a :: b :: c :: d :: tail) := by
  have digits : getu4 (a :: b :: c :: d :: escapeHTML 0 tail) = getu4 (a :: b :: c :: d :: tail) := rfl
  simp only [readEscape, digits, List.drop_succ_cons, List.drop_zero, low_surrogate_escape literal]

theorem literal_unquote (literal : Literal raw) (skip : Nat) (aligned : Aligned raw skip) :
    unquoteFrom skip (escapeHTML 0 raw) = unquoteFrom skip raw := by
  induction literal generalizing skip with
  | close =>
    rcases aligned with none | ⟨-, pair⟩
    · have zero : skip = 0 := Nat.le_zero.mp none
      subst zero
      rfl
    · contradiction
  | plain c tail unquoted unescaped printable literal ih =>
    cases skip with
    | succ skip =>
      rcases aligned with conts | ⟨-, pair⟩
      · have cont : isCont c := by
          by_cases cont : isCont c
          · exact cont
          · simp [List.takeWhile, cont] at conts
        have fewer : skip ≤ (tail.takeWhile isCont).length := by
          simpa [List.takeWhile, cont] using conts
        rw [escape_ordinary (cont_ordinary cont)]
        exact ih skip (Or.inl fewer)
      · cases tail <;> simp [lowSurrogate, unescaped] at pair
    | zero =>
      have start := ih 0 (Or.inl (Nat.zero_le _))
      rw [unquote_plain unquoted unescaped]
      simp only [escapeHTML]
      split
      · rename_i html
        rw [read_unicode_escape _ (by have := c.toNat_lt; omega), rune_html html, start]
      · split
        · rename_i separator
          obtain ⟨rfl, separator⟩ := separator
          obtain ⟨rune, shifted⟩ := rune_line_separator separator
          rw [read_unicode_escape _ (by have := (tail.getD 1 0).toNat_lt; omega), rune, shifted,
            ih 2 (Or.inl (line_separator_conts separator))]
        · rw [unquote_plain unquoted unescaped, rune_conts (escape_conts tail), ih _ (Or.inl (rune_used c tail))]
  | short c tail known literal ih =>
    obtain ⟨ordinary, other⟩ := short_ordinary known
    rcases aligned with none | ⟨-, pair⟩
    · have zero : skip = 0 := Nat.le_zero.mp none
      subst zero
      rw [escape_ordinary (by decide), escape_ordinary ordinary, unquote_escape, unquote_escape]
      simp only [readEscape, if_neg other, unquoteFrom, ih 0 (Or.inl (Nat.zero_le _))]
    · simp [lowSurrogate, other] at pair
  | unicode a b c d tail first second third fourth literal ih =>
    have start := ih 0 (Or.inl (Nat.zero_le _))
    rw [escape_ordinary (by decide), escape_ordinary (by decide),
      escape_ordinary (hex_ordinary first), escape_ordinary (hex_ordinary second),
      escape_ordinary (hex_ordinary third), escape_ordinary (hex_ordinary fourth)]
    rcases aligned with none | ⟨rfl, -⟩
    · have zero : skip = 0 := Nat.le_zero.mp none
      subst zero
      rw [unquote_escape, unquote_escape, read_escape_kept literal]
      congr 1
      have used : (readEscape (0x75 :: a :: b :: c :: d :: tail)).2 = 5 ∨
          (readEscape (0x75 :: a :: b :: c :: d :: tail)).2 = 11 ∧ (lowSurrogate tail).isSome := by
        have digits : ∃ n, getu4 (a :: b :: c :: d :: tail) = some n :=
          ⟨hexValue a * 4096 + hexValue b * 256 + hexValue c * 16 + hexValue d,
            by simp [getu4, first, second, third, fourth]⟩
        obtain ⟨n, read⟩ := digits
        simp only [readEscape, if_true, read, List.drop_succ_cons, List.drop_zero]
        split
        · split
          · rename_i paired
            exact Or.inr ⟨rfl, by simp [paired]⟩
          · exact Or.inl rfl
        · split
          · exact Or.inl rfl
          · exact Or.inl rfl
      rcases used with five | ⟨eleven, pair⟩
      · rw [five]
        exact start
      · rw [eleven]
        exact ih 6 (Or.inr ⟨rfl, pair⟩)
    · exact start

theorem cont_byte : ∀ k, k < 64 → isCont (UInt8.ofNat (k + 0x80)) ∧ (UInt8.ofNat (k + 0x80)).toNat = k + 0x80 := by
  decide

theorem lead_byte (n : Nat) (high : 0x80 ≤ n) (byte : n < 256) :
    (UInt8.ofNat n).toNat = n ∧ UInt8.ofNat n ≠ quote ∧ UInt8.ofNat n ≠ backslash ∧ ¬ UInt8.ofNat n < 0x20 := by
  have value : (UInt8.ofNat n).toNat = n := by simp [Nat.mod_eq_of_lt byte]
  refine ⟨value, ?_, ?_, ?_⟩
  · intro same
    have : n = quote.toNat := by rw [← same, value]
    exact absurd (this ▸ high) (by decide)
  · intro same
    have : n = backslash.toNat := by rw [← same, value]
    exact absurd (this ▸ high) (by decide)
  · intro control
    have low : (UInt8.ofNat n).toNat < 0x20 := control
    omega

theorem char_range (c : Char) : c.toNat < 0xd800 ∨ (0xdfff < c.toNat ∧ c.toNat < 0x110000) := c.valid

theorem encode_two (c : Char) (above : 0x7f < c.toNat) (below : c.toNat ≤ 0x7ff) (rest : Bytes) :
    decodeRune (UInt8.ofNat (c.toNat / 64 % 32 + 0xc0)) (UInt8.ofNat (c.toNat % 64 + 0x80) :: rest) = (c, 1) := by
  obtain ⟨lead, -⟩ := lead_byte (c.toNat / 64 % 32 + 0xc0) (by omega) (by omega)
  obtain ⟨cont, value⟩ := cont_byte (c.toNat % 64) (by omega)
  simp only [decodeRune, lead, List.takeWhile, cont, List.map_cons, value]
  rw [if_neg (by omega), if_neg (by omega), if_pos (by omega)]
  have whole : (c.toNat / 64 % 32 + 0xc0 - 0xc0) * 64 + (c.toNat % 64 + 0x80 - 0x80) = c.toNat := by
    omega
  rw [whole, Char.ofNat_toNat]

theorem encode_three (c : Char) (above : 0x7ff < c.toNat) (below : c.toNat ≤ 0xffff) (rest : Bytes) :
    decodeRune (UInt8.ofNat (c.toNat / 4096 % 16 + 0xe0)) (UInt8.ofNat (c.toNat / 64 % 64 + 0x80) ::
      UInt8.ofNat (c.toNat % 64 + 0x80) :: rest) = (c, 2) := by
  obtain ⟨lead, -⟩ := lead_byte (c.toNat / 4096 % 16 + 0xe0) (by omega) (by omega)
  obtain ⟨firstCont, first⟩ := cont_byte (c.toNat / 64 % 64) (by omega)
  obtain ⟨lastCont, last⟩ := cont_byte (c.toNat % 64) (by omega)
  have range := char_range c
  simp only [decodeRune, lead, List.takeWhile, firstCont, lastCont, List.map_cons, first, last]
  have whole : (c.toNat / 4096 % 16 + 0xe0 - 0xe0) * 4096 + (c.toNat / 64 % 64 + 0x80 - 0x80) * 64 +
      (c.toNat % 64 + 0x80 - 0x80) = c.toNat := by omega
  rw [if_neg (by omega), if_neg (by omega), if_neg (by omega), if_pos (by omega), whole,
    if_pos (by omega), Char.ofNat_toNat]

theorem encode_four (c : Char) (above : 0xffff < c.toNat) (rest : Bytes) :
    decodeRune (UInt8.ofNat (c.toNat / 262144 % 8 + 0xf0)) (UInt8.ofNat (c.toNat / 4096 % 64 + 0x80) ::
      UInt8.ofNat (c.toNat / 64 % 64 + 0x80) :: UInt8.ofNat (c.toNat % 64 + 0x80) :: rest) = (c, 3) := by
  have range := char_range c
  obtain ⟨lead, -⟩ := lead_byte (c.toNat / 262144 % 8 + 0xf0) (by omega) (by omega)
  obtain ⟨firstCont, first⟩ := cont_byte (c.toNat / 4096 % 64) (by omega)
  obtain ⟨nextCont, next⟩ := cont_byte (c.toNat / 64 % 64) (by omega)
  obtain ⟨lastCont, last⟩ := cont_byte (c.toNat % 64) (by omega)
  simp only [decodeRune, lead, List.takeWhile, firstCont, nextCont, lastCont, List.map_cons, first, next, last]
  have whole : (c.toNat / 262144 % 8 + 0xf0 - 0xf0) * 262144 +
      (c.toNat / 4096 % 64 + 0x80 - 0x80) * 4096 + (c.toNat / 64 % 64 + 0x80 - 0x80) * 64 +
      (c.toNat % 64 + 0x80 - 0x80) = c.toNat := by omega
  rw [if_neg (by omega), if_neg (by omega), if_neg (by omega), if_neg (by omega), if_pos (by omega),
    whole, if_pos (by omega), Char.ofNat_toNat]

def Spells (piece : Bytes) (c : Char) : Prop :=
  ∀ rest, Literal rest →
    Literal (piece ++ rest) ∧ unquoteFrom 0 (piece ++ rest) = c :: unquoteFrom 0 rest

theorem spells_short {byte : UInt8} (known : isShortEscape byte) : Spells [backslash, byte] (shortEscape byte) := by
  intro rest literal
  obtain ⟨-, other⟩ := short_ordinary known
  refine ⟨.short byte rest known literal, ?_⟩
  show unquoteFrom 0 (backslash :: byte :: rest) = _
  rw [unquote_escape]
  simp only [readEscape, if_neg other, unquoteFrom]

theorem spells_unicode (c : Char) (small : c.toNat < 0xd800) : Spells (unicodeEscape c.toNat) c := by
  intro rest literal
  constructor
  · exact .unicode _ _ _ _ rest (hex_digit _ (Nat.mod_lt _ (by decide))).1
      (hex_digit _ (Nat.mod_lt _ (by decide))).1 (hex_digit _ (Nat.mod_lt _ (by decide))).1
      (hex_digit _ (Nat.mod_lt _ (by decide))).1 literal
  · rw [read_unicode_escape _ small, Char.ofNat_toNat]

theorem cont_plain (k : Nat) (small : k < 64) (literal : Literal rest) : Literal (UInt8.ofNat (k + 0x80) :: rest) := by
  obtain ⟨-, unquoted, unescaped, printable⟩ := lead_byte (k + 0x80) (by omega) (by omega)
  exact .plain _ rest unquoted unescaped printable literal

theorem spells_ascii (c : Char) (ascii : c.toNat ≤ 0x7f) (unquoted : c ≠ '"') (unescaped : c ≠ '\\')
    (printable : ¬ c.toNat < 0x20) : Spells [UInt8.ofNat c.toNat] c := by
  intro rest literal
  have value : (UInt8.ofNat c.toNat).toNat = c.toNat := by simp; omega
  have other : ∀ d : Char, d.toNat < 256 → c ≠ d → UInt8.ofNat c.toNat ≠ UInt8.ofNat d.toNat := by
    intro d byte different same
    have values := congrArg UInt8.toNat same
    rw [value] at values
    have known : (UInt8.ofNat d.toNat).toNat = d.toNat := by simp; omega
    exact different (Char.toNat_inj.mp (values.trans known))
  have plain : UInt8.ofNat c.toNat ≠ quote := other '"' (by decide) unquoted
  have kept : UInt8.ofNat c.toNat ≠ backslash := other '\\' (by decide) unescaped
  have visible : ¬ UInt8.ofNat c.toNat < 0x20 := by
    intro control
    have low : (UInt8.ofNat c.toNat).toNat < 0x20 := control
    omega
  refine ⟨.plain _ rest plain kept visible literal, ?_⟩
  show unquoteFrom 0 (UInt8.ofNat c.toNat :: rest) = _
  rw [unquote_plain plain kept]
  have rune : decodeRune (UInt8.ofNat c.toNat) rest = (c, 0) := by
    simp only [decodeRune, value]
    rw [if_pos (by omega), Char.ofNat_toNat]
  rw [rune]

theorem spells_encoded (c : Char) (unquoted : c ≠ '"') (unescaped : c ≠ '\\')
    (printable : ¬ c.toNat < 0x20) : Spells (String.utf8EncodeChar c) c := by
  have valueNat : c.val.toNat = c.toNat := rfl
  unfold String.utf8EncodeChar
  simp only [valueNat]
  split
  · rename_i ascii
    exact spells_ascii c ascii unquoted unescaped printable
  · rename_i above
    split
    · rename_i below
      intro rest literal
      obtain ⟨-, lead, raw, visible⟩ :=
        lead_byte (c.toNat / 64 % 32 + 0xc0) (by omega) (by omega)
      refine ⟨.plain _ _ lead raw visible (cont_plain _ (by omega) literal), ?_⟩
      simp only [List.cons_append, List.nil_append]
      rw [unquote_plain lead raw, encode_two c (by omega) below]
      rfl
    · rename_i beyond
      split
      · rename_i below
        intro rest literal
        obtain ⟨-, lead, raw, visible⟩ :=
          lead_byte (c.toNat / 4096 % 16 + 0xe0) (by omega) (by omega)
        refine ⟨.plain _ _ lead raw visible (cont_plain _ (by omega) (cont_plain _ (by omega) literal)), ?_⟩
        simp only [List.cons_append, List.nil_append]
        rw [unquote_plain lead raw, encode_three c (by omega) below]
        rfl
      · intro rest literal
        obtain ⟨-, lead, raw, visible⟩ :=
          lead_byte (c.toNat / 262144 % 8 + 0xf0) (by omega) (by omega)
        refine ⟨.plain _ _ lead raw visible (cont_plain _ (by omega) (cont_plain _ (by omega)
          (cont_plain _ (by omega) literal))), ?_⟩
        simp only [List.cons_append, List.nil_append]
        rw [unquote_plain lead raw, encode_four c (by omega)]
        rfl

theorem quote_char_spells (c : Char) : Spells (quoteChar c) c := by
  have control : ∀ byte n, isShortEscape byte → shortEscape byte = Char.ofNat n →
      c.toNat = n → Spells [backslash, byte] c := by
    intro byte n known spelled value
    have same : shortEscape byte = c := by rw [spelled, ← value, Char.ofNat_toNat]
    exact same ▸ spells_short known
  unfold quoteChar
  split
  · rename_i punctuation
    rcases punctuation with rfl | rfl
    · exact control _ 0x22 rfl rfl rfl
    · exact control _ 0x5c rfl rfl rfl
  · rename_i plain
    split
    · exact control _ 8 rfl rfl (by assumption)
    · split
      · exact control _ 12 rfl rfl (by assumption)
      · split
        · exact control _ 10 rfl rfl (by assumption)
        · split
          · exact control _ 13 rfl rfl (by assumption)
          · split
            · exact control _ 9 rfl rfl (by assumption)
            · split
              · rename_i special
                refine spells_unicode c ?_
                rcases special with low | rfl | rfl | rfl | first | second
                · omega
                · decide
                · decide
                · decide
                · omega
                · omega
              · rename_i ordinary
                exact spells_encoded c (fun same => plain (Or.inl same)) (fun same => plain (Or.inr same))
                  (fun low => ordinary (Or.inl low))

/-- The rest of a quoted text: a literal, and the text itself when it is read. -/
theorem quoted_literal (text : String) :
    Literal (text.toList.flatMap quoteChar ++ [quote]) ∧ unquote (quoteString text) = text := by
  have chars : ∀ chars : List Char, Literal (chars.flatMap quoteChar ++ [quote]) ∧
      unquoteFrom 0 (chars.flatMap quoteChar ++ [quote]) = chars := by
    intro chars
    induction chars with
    | nil => exact ⟨.close, rfl⟩
    | cons c chars ih =>
      rw [List.flatMap_cons, List.append_assoc]
      obtain ⟨literal, read⟩ := quote_char_spells c _ ih.1
      exact ⟨literal, by rw [read, ih.2]⟩
  refine ⟨(chars text.toList).1, ?_⟩
  simp only [unquote, quoteString, (chars text.toList).2, String.ofList_toList]

end PieRelay.JsonStrings
