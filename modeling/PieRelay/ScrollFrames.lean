import Mathlib.Data.List.TakeDrop
import Mathlib.Data.List.TakeWhile
import Mathlib.Data.Nat.Bitwise
import PieRelay.RelayFrames
import PieRelay.RelayToken

/-!
The three checks of a scroll: the relay's, validPtyScrollMessage of server/internal/relay/server.go, which works on runes,
and isScrollSequence of client/node-executor/pty-host.mjs and isScrollSeq of desktop/src/protocol.ts, which work on the
UTF-16 units of a string, given as numbers here, and on numbers that are doubles.
-/
namespace PieRelay.ScrollFrames
open List Option
open JsonObjects (peekStringField)
open JsonScanner (Bytes)
open RelayFrames (escape sgrScrollSequence atoi)
open RelayToken (roundDouble)

def wheel (button : Nat) : Bool := (BitVec.ofNat 32 button - 32#32) &&& 0x40#32 ≠ 0#32

def validScroll (sequence : List Char) : Bool :=
  match sgrScrollSequence sequence with
  | some button =>
    match atoi button with
    | some button => button &&& 0x40 ≠ 0
    | none => false
  | none =>
    match sequence with
    | [first, '[', 'M', button, _, _] => first = escape && wheel button.toNat
    | [first, second, third] =>
      first = escape && (second = 'O' || second = '[') && (third = 'A' || third = 'B')
    | _ => false

def encode (c : Char) : List Nat :=
  if c.toNat < 0x10000 then [c.toNat]
  else [0xd800 + (c.toNat - 0x10000) / 0x400, 0xdc00 + (c.toNat - 0x10000) % 0x400]

def units (text : List Char) : List Nat := text.flatMap encode

def isDigit (unit : Nat) : Bool := 0x30 ≤ unit ∧ unit ≤ 0x39

def threeNumbers (data : List Nat) : Option (List Nat) :=
  match data.span isDigit with
  | (button, 0x3b :: rest) =>
    match rest.span isDigit with
    | (column, 0x3b :: rest) =>
      match rest.span isDigit with
      | (row, [final]) =>
        if button ≠ [] ∧ column ≠ [] ∧ row ≠ [] ∧ (final = 0x4d ∨ final = 0x6d) then some button else none
      | _ => none
    | _ => none
  | _ => none

def sgr : List Nat → Option (List Nat)
  | 0x1b :: 0x5b :: 0x3c :: rest => threeNumbers rest
  | _ => none

def digitsValue (digits : List Nat) : Nat := digits.foldl (fun value digit => value * 10 + (digit - 0x30)) 0

def number (digits : List Nat) : Option Nat :=
  if roundDouble (digitsValue digits) < 2 ^ 1024 then some (roundDouble (digitsValue digits)) else none

def toInt32 : Option Nat → BitVec 32
  | some n => BitVec.ofNat 32 n
  | none => 0#32

def scrollSequence (data : List Nat) : Bool :=
  match sgr data with
  | some button => toInt32 (number button) &&& 0x40#32 ≠ 0#32
  | none =>
    match data with
    | [0x1b, 0x5b, 0x4d, button, _, _] => wheel button
    | [0x1b, second, third] => (second = 0x4f || second = 0x5b) && (third = 0x41 || third = 0x42)
    | _ => false

def isScrollSequence (data : List Nat) : Bool := scrollSequence data

def isScrollSeq (data : List Nat) : Bool := scrollSequence data

def isControl (code : Nat) : Bool := code < 0x20 ∨ code = 0x7f

def Clean (codes : List Nat) : Prop := codes.head? = some 0x1b ∧ ∀ code ∈ codes.tail, isControl code = false

structure Sound (text : List Char) : Prop where
  relay : validScroll text → Clean (text.map Char.toNat)
  host : isScrollSequence (units text) → Clean (text.map Char.toNat)
  same : validScroll text = isScrollSequence (units text) ∧ isScrollSequence (units text) = isScrollSeq (units text)

def astral (c : Char) : Bool := 0x10000 ≤ c.toNat

/-- A button number that rounding to a double leaves its wheel bit; a wheel report whose three characters are neither
    control characters nor beyond the basic plane; no character and one beyond it that make up a wheel report. -/
def Plain (text : List Char) : Prop :=
  match sgrScrollSequence text with
  | some button => ∀ n, atoi button = some n → n.testBit 6 = (roundDouble n).testBit 6
  | none => match text with
    | [first, '[', 'M', button, column, row] => first = escape → wheel button.toNat →
        ∀ c ∈ [button, column, row], isControl c.toNat = false ∧ astral c = false
    | [first, '[', 'M', button, last] => first = escape → astral button ≠ astral last →
        (encode button).head?.map wheel = some false
    | _ => True

theorem valid_scroll (data : Bytes) :
    RelayFrames.validPtyScrollMessage data = validScroll (peekStringField data "data").toList := rfl

section Reports

variable {data : List Nat}

theorem span_map {α β : Type} (f : α → β) (p : β → Bool) (list : List α) :
    (list.map f).span p = ((list.span fun x => p (f x)).1.map f, (list.span fun x => p (f x)).2.map f) := by
  rw [span_eq_takeWhile_dropWhile, span_eq_takeWhile_dropWhile, takeWhile_map, dropWhile_map]
  rfl

def runeNumbers (text : List Char) : Option (List Char) :=
  match text.span Char.isDigit with
  | (button, ';' :: rest) =>
    match rest.span Char.isDigit with
    | (column, ';' :: rest) =>
      match rest.span Char.isDigit with
      | (row, [final]) =>
        if button ≠ [] ∧ column ≠ [] ∧ row ≠ [] ∧ (final = 'M' ∨ final = 'm') then some button else none
      | _ => none
    | _ => none
  | _ => none

theorem sgr_head (c : Char) (rest : List Char) :
    sgrScrollSequence (c :: '[' :: '<' :: rest) = if c = escape then runeNumbers rest else none := by
  simp only [sgrScrollSequence, RelayFrames.digits, runeNumbers]
  by_cases first : c = escape
  · simp only [first, true_and, if_true] <;> rfl
  · simp only [first, false_and, if_false]
    split
    · split
      · split <;> rfl
      · rfl
    · rfl

theorem digit_code (c : Char) : isDigit c.toNat = c.isDigit := by
  rw [Bool.eq_iff_iff, isDigit, Char.isDigit]
  simp only [decide_eq_true_eq, Bool.and_eq_true]
  exact Iff.rfl

theorem code_char {c d : Char} : c.toNat = d.toNat ↔ c = d := ⟨fun same => Char.toNat_inj.mp same, congrArg Char.toNat⟩

theorem numbers_map (text : List Char) : threeNumbers (text.map Char.toNat) = (runeNumbers text).map (map Char.toNat) := by
  have span (list : List Char) : (list.map Char.toNat).span isDigit =
      ((list.span Char.isDigit).1.map Char.toNat, (list.span Char.isDigit).2.map Char.toNat) := by
    rw [span_map]
    simp only [digit_code]
  have semicolon (c : Char) : c.toNat = 0x3b ↔ c = ';' := @code_char c ';'
  have last (c : Char) : (c.toNat = 0x4d ∨ c.toNat = 0x6d) ↔ (c = 'M' ∨ c = 'm') := or_congr (@code_char c 'M') (@code_char c 'm')
  have none_ (list : List Char) : list.map Char.toNat ≠ [] ↔ list ≠ [] := not_congr map_eq_nil_iff
  have code : ';'.toNat = 0x3b := rfl
  rw [threeNumbers, runeNumbers, span]
  generalize text.span Char.isDigit = first
  obtain ⟨button, _ | ⟨c, rest⟩⟩ := first
  · rfl
  by_cases separated : c = ';'
  swap
  · simp [separated, mt (semicolon c).mp separated]
  subst separated
  rw [map_cons, code]
  simp only [span]
  generalize rest.span Char.isDigit = second
  obtain ⟨column, _ | ⟨d, rest⟩⟩ := second
  · rfl
  by_cases separated : d = ';'
  swap
  · simp [separated, mt (semicolon d).mp separated]
  subst separated
  rw [map_cons, code]
  simp only [span]
  generalize rest.span Char.isDigit = third
  obtain ⟨row, _ | ⟨final, _ | ⟨more, rest⟩⟩⟩ := third
  · rfl
  · simp only [map_cons, map_nil, last, none_]
    split <;> rfl
  · rfl

theorem sgr_map (text : List Char) : sgr (text.map Char.toNat) = (sgrScrollSequence text).map (map Char.toNat) := by
  have escape_ (c : Char) : c.toNat = 0x1b ↔ c = escape := @code_char c escape
  have bracket (c : Char) : c.toNat = 0x5b ↔ c = '[' := @code_char c '['
  have less (c : Char) : c.toNat = 0x3c ↔ c = '<' := @code_char c '<'
  rcases text with _ | ⟨first, _ | ⟨second, _ | ⟨third, rest⟩⟩⟩
  · rfl
  · simp [sgr, sgrScrollSequence]
  · simp [sgr, sgrScrollSequence]
  by_cases shape : second = '[' ∧ third = '<'
  · obtain ⟨rfl, rfl⟩ := shape
    rw [sgr_head]
    by_cases mine : first = escape
    · subst mine
      rw [if_pos rfl, ← numbers_map]
      rfl
    · rw [if_neg mine]
      have other := mt (escape_ first).mp mine
      simp [sgr, other]
  · have none_ : sgrScrollSequence (first :: second :: third :: rest) = none := by
      unfold sgrScrollSequence
      split
      · next same =>
        simp only [cons.injEq] at same
        exact absurd ⟨same.2.1, same.2.2.1⟩ shape
      · rfl
    rw [none_]
    have other : ¬ (second.toNat = 0x5b ∧ third.toNat = 0x3c) := by rwa [bracket, less]
    unfold sgr
    split
    · next same =>
      simp only [map_cons, cons.injEq] at same
      exact absurd ⟨same.2.1, same.2.2.1⟩ other
    · rfl

theorem span_parts {first rest : List Nat} (parts : data.span isDigit = (first, rest)) :
    data = first ++ rest ∧ ∀ unit ∈ first, 0x20 ≤ unit ∧ unit < 0x7f := by
  rw [span_eq_takeWhile_dropWhile] at parts
  obtain ⟨rfl, rfl⟩ := Prod.mk.inj parts
  refine ⟨takeWhile_append_dropWhile.symm, fun unit member => ?_⟩
  have digit : 0x30 ≤ unit ∧ unit ≤ 0x39 := of_decide_eq_true (mem_takeWhile_imp (p := isDigit) member)
  omega

theorem numbers_clean {button : List Nat} (known : threeNumbers data = some button) :
    ∀ unit ∈ data, 0x20 ≤ unit ∧ unit < 0x7f := by
  unfold threeNumbers at known
  split at known
  · next parts =>
    split at known
    · next parts' =>
      split at known
      · next final parts'' =>
        obtain ⟨rfl, one⟩ := span_parts parts
        obtain ⟨rfl, two⟩ := span_parts parts'
        obtain ⟨rfl, three⟩ := span_parts parts''
        have last : final = 0x4d ∨ final = 0x6d := by
          split at known
          · next all => exact all.2.2.2
          · cases known
        intro unit member
        simp only [mem_append, mem_cons, not_mem_nil, or_false] at member
        rcases member with member | rfl | member | rfl | member | rfl
        · exact one unit member
        · omega
        · exact two unit member
        · omega
        · exact three unit member
        · omega
      · cases known
    · cases known
  · cases known

theorem sgr_clean {button : List Nat} (known : sgr data = some button) : Clean data ∧ ∀ unit ∈ data, unit < 0x80 := by
  unfold sgr at known
  split at known
  · next =>
    have clean := numbers_clean known
    refine ⟨⟨rfl, fun unit member => ?_⟩, fun unit member => ?_⟩
    · have printable : 0x20 ≤ unit ∧ unit < 0x7f := by
        rcases mem_cons.mp member with rfl | member
        · omega
        · rcases mem_cons.mp member with rfl | member
          · omega
          · exact clean unit member
      simp only [isControl, decide_eq_false_iff_not]
      omega
    · rcases mem_cons.mp member with rfl | member
      · omega
      · rcases mem_cons.mp member with rfl | member
        · omega
        · rcases mem_cons.mp member with rfl | member
          · omega
          · exact Nat.lt_succ_of_lt (clean unit member).2
  · cases known

end Reports

section Numbers

theorem and_wheel (n : Nat) : n &&& 0x40 ≠ 0 ↔ n.testBit 6 := by
  have same : n &&& 0x40 = (n.testBit 6).toNat * 2 ^ 6 := Nat.and_two_pow n 6
  rw [same]
  cases n.testBit 6 <;> simp

theorem word_wheel (n : Nat) : BitVec.ofNat 32 n &&& 0x40#32 ≠ 0#32 ↔ n.testBit 6 := by
  have bit : (n % 2 ^ 32).testBit 6 = n.testBit 6 := by rw [Nat.testBit_mod_two_pow]; rfl
  rw [← bit, ← and_wheel]
  refine not_congr ⟨fun same => ?_, fun same => ?_⟩
  · have values := congrArg BitVec.toNat same
    simpa using values
  · refine BitVec.eq_of_toNat_eq ?_
    simpa using same

theorem round_bound {n limit : Nat} (small : n < 2 ^ 63) (room : 64 < limit) : roundDouble n < 2 ^ limit := by
  refine Nat.lt_of_le_of_lt (?_ : _ ≤ 2 ^ 64) (Nat.pow_lt_pow_right (by decide) room)
  unfold roundDouble
  split
  · omega
  · next =>
    have positive : n ≠ 0 := by omega
    have unit_le : 2 ^ (n.log2 - 52) ≤ n :=
      Nat.le_trans (Nat.pow_le_pow_right (by decide) (Nat.sub_le _ _)) (Nat.log2_self_le positive)
    have kept_le : n / 2 ^ (n.log2 - 52) * 2 ^ (n.log2 - 52) ≤ n := Nat.div_mul_le_self _ _
    have twice : 2 ^ 64 = 2 * 2 ^ 63 := by decide
    dsimp only
    split
    · rw [Nat.add_mul]
      omega
    · omega

theorem round_wheel {n : Nat} (big : 2 ^ 63 ≤ n) : (roundDouble n).testBit 6 = false := by
  have positive : n ≠ 0 := by
    rintro rfl
    exact absurd big (by decide)
  have long : 63 ≤ n.log2 := (Nat.le_log2 positive).mpr big
  have unit : 2 ^ (n.log2 - 52) = 2 ^ 7 * 2 ^ (n.log2 - 59) := by
    rw [← Nat.pow_add]
    congr 1
    omega
  have large : ¬ n < 2 ^ 53 := by
    have less : (2 : Nat) ^ 53 ≤ 2 ^ 63 := Nat.pow_le_pow_right (by decide) (by decide)
    omega
  have multiple : ∃ k, roundDouble n = 2 ^ 7 * k := by
    rw [roundDouble, if_neg large]
    dsimp only
    rw [unit]
    exact ⟨_, by rw [Nat.mul_left_comm]⟩
  obtain ⟨k, same⟩ := multiple
  rw [same, Nat.testBit_two_pow_mul]
  rfl

theorem atoi_value (button : List Char) :
    atoi button = if digitsValue (button.map Char.toNat) < 2 ^ 63 then some (digitsValue (button.map Char.toNat)) else none := by
  have same : button.foldl (fun value c => value * 10 + (c.toNat - 48)) 0 = digitsValue (button.map Char.toNat) := by
    rw [digitsValue, foldl_map]
  rw [atoi, same]

theorem number_wheel (digits : List Nat) : toInt32 (number digits) &&& 0x40#32 ≠ 0#32 ↔
    digitsValue digits < 2 ^ 63 ∧ (roundDouble (digitsValue digits)).testBit 6 := by
  unfold number
  split
  · next =>
    rw [toInt32, word_wheel]
    constructor
    · intro wheel
      refine ⟨?_, wheel⟩
      by_contra big
      rw [round_wheel (Nat.le_of_not_lt big)] at wheel
      cases wheel
    · exact And.right
  · next infinite =>
    refine iff_of_false (fun some_ => some_ rfl) ?_
    rintro ⟨small, _⟩
    exact infinite (round_bound small (by decide))

end Numbers

section Units
variable {text : List Char}

theorem encode_basic {c : Char} (basic : astral c = false) : encode c = [c.toNat] := by
  have small : c.toNat < 0x10000 := Nat.lt_of_not_le (of_decide_eq_false basic)
  rw [encode, if_pos small]

theorem encode_astral {c : Char} (beyond : astral c) : ∃ high low, encode c = [high, low] ∧ 0xd800 ≤ high := by
  have large : ¬ c.toNat < 0x10000 := Nat.not_lt_of_le (of_decide_eq_true beyond)
  rw [encode, if_neg large]
  exact ⟨_, _, rfl, Nat.le_add_right _ _⟩

theorem units_cons (c : Char) (rest : List Char) : units (c :: rest) = encode c ++ units rest := rfl

theorem units_basic (basic : ∀ c ∈ text, astral c = false) : units text = text.map Char.toNat := by
  induction text with
  | nil => rfl
  | cons c rest ih =>
    rw [units_cons, encode_basic (basic c mem_cons_self), ih fun d member => basic d (mem_cons_of_mem c member)]
    rfl

theorem units_small (small : ∀ unit ∈ units text, unit < 0xd800) : units text = text.map Char.toNat := by
  refine units_basic fun c member => ?_
  cases beyond : astral c with
  | false => rfl
  | true =>
    obtain ⟨high, low, both, large⟩ := encode_astral beyond
    have there : high ∈ units text := mem_flatMap.mpr ⟨c, member, both ▸ mem_cons_self⟩
    exact absurd (small high there) (Nat.not_lt_of_le large)

theorem units_first {unit : Nat} {rest : List Nat} (known : units text = unit :: rest) (small : unit < 0xd800) :
    ∃ c tail, text = c :: tail ∧ c.toNat = unit ∧ astral c = false ∧ units tail = rest := by
  cases text with
  | nil => cases known
  | cons c tail =>
    rw [units_cons] at known
    cases beyond : astral c with
    | false =>
      rw [encode_basic beyond] at known
      obtain ⟨first, later⟩ := cons.inj known
      exact ⟨c, tail, rfl, first, beyond, later⟩
    | true =>
      obtain ⟨high, low, both, large⟩ := encode_astral beyond
      rw [both] at known
      obtain ⟨first, _⟩ := cons.inj known
      exact absurd (first ▸ small) (Nat.not_lt_of_le large)

theorem encode_nonempty (c : Char) : encode c ≠ [] := by
  unfold encode
  split <;> rintro ⟨⟩

theorem units_length (text : List Char) : (units text).length = text.length + text.countP astral := by
  induction text with
  | nil => rfl
  | cons c rest ih =>
    rw [units_cons, length_append, ih, countP_cons, length_cons]
    cases beyond : astral c with
    | false =>
      rw [encode_basic beyond, length_singleton, if_neg Bool.false_ne_true]
      omega
    | true =>
      obtain ⟨high, low, both, _⟩ := encode_astral beyond
      rw [both, if_pos rfl, length_cons, length_singleton]
      omega

theorem units_three {button column row : Nat} (known : units text = [button, column, row]) :
    (∃ c d e, text = [c, d, e] ∧ (∀ x ∈ text, astral x = false) ∧ [c, d, e].map Char.toNat = [button, column, row]) ∨
    ∃ c d, text = [c, d] ∧ astral c ≠ astral d ∧ (encode c).head? = some button := by
  have total := congrArg length known
  rw [units_length] at total
  rcases text with _ | ⟨c, _ | ⟨d, _ | ⟨e, _ | ⟨f, rest⟩⟩⟩⟩
  · cases known
  · have few := countP_le_length (p := astral) (l := [c])
    simp only [length_cons, length_nil] at total few
    omega
  · right
    refine ⟨c, d, rfl, fun same => ?_, ?_⟩
    · cases beyond : astral d <;> simp [same, beyond] at total
    · rw [units_cons] at known
      rw [← head?_append_of_ne_nil _ (encode_nonempty c), known]
      rfl
  · left
    have none_ : [c, d, e].countP astral = 0 := by
      simp only [length_cons, length_nil] at total
      omega
    have basic : ∀ x ∈ [c, d, e], astral x = false := fun x member =>
      Bool.eq_false_iff.mpr (countP_eq_zero.mp none_ x member)
    exact ⟨c, d, e, rfl, basic, (units_basic basic).symm.trans known⟩
  · simp only [length_cons, length_nil] at total
    omega

theorem sgr_units (text : List Char) : sgr (units text) = (sgrScrollSequence text).map (map Char.toNat) := by
  cases known : sgr (units text) with
  | some =>
    have small : ∀ unit ∈ units text, unit < 0xd800 := fun unit member =>
      Nat.lt_trans ((sgr_clean known).2 unit member) (by decide)
    rw [← sgr_map, ← units_small small, known]
  | none =>
    cases there : sgrScrollSequence text with
    | none => rfl
    | some =>
      have mapped := sgr_map text
      rw [there] at mapped
      have basic : ∀ c ∈ text, astral c = false := by
        intro c member
        have small := (sgr_clean mapped).2 c.toNat (mem_map_of_mem member)
        exact decide_eq_false (by omega)
      rw [units_basic basic, mapped] at known
      cases known

end Units

section Reports
variable {text : List Char}

theorem wheel_report_iff (unmatched : sgrScrollSequence text = none) : validScroll text ↔
    (∃ button column row, text = [escape, '[', 'M', button, column, row] ∧ wheel button.toNat) ∨
    ∃ second third, text = [escape, second, third] ∧ (second = 'O' ∨ second = '[') ∧ (third = 'A' ∨ third = 'B') := by
  unfold validScroll
  rw [unmatched]
  dsimp only
  split
  · next button column row =>
    simp only [Bool.and_eq_true, decide_eq_true_eq]
    constructor
    · rintro ⟨rfl, turned⟩
      exact .inl ⟨button, column, row, rfl, turned⟩
    · rintro (⟨b, c, r, same, turned⟩ | ⟨s, t, same, _⟩)
      · cases same
        exact ⟨rfl, turned⟩
      · cases same
  · next second third =>
    simp only [Bool.and_eq_true, Bool.or_eq_true, decide_eq_true_eq]
    constructor
    · rintro ⟨⟨rfl, up⟩, down⟩
      exact .inr ⟨second, third, rfl, up, down⟩
    · rintro (⟨b, c, r, same, turned⟩ | ⟨s, t, same, up, down⟩)
      · cases same
      · cases same
        exact ⟨⟨rfl, up⟩, down⟩
  · next not_report not_arrow =>
    refine iff_of_false Bool.false_ne_true ?_
    rintro (⟨b, c, r, same, _⟩ | ⟨s, t, same, _⟩)
    · exact not_report _ _ _ _ same
    · exact not_arrow _ _ _ same

theorem host_report_iff {data : List Nat} (unmatched : sgr data = none) : isScrollSequence data ↔
    (∃ button column row, data = [0x1b, 0x5b, 0x4d, button, column, row] ∧ wheel button) ∨
    ∃ second third, data = [0x1b, second, third] ∧ (second = 0x4f ∨ second = 0x5b) ∧ (third = 0x41 ∨ third = 0x42) := by
  unfold isScrollSequence scrollSequence
  rw [unmatched]
  dsimp only
  split
  · next button column row =>
    constructor
    · intro turned
      exact .inl ⟨button, column, row, rfl, turned⟩
    · rintro (⟨b, c, r, same, turned⟩ | ⟨s, t, same, _⟩)
      · cases same
        exact turned
      · cases same
  · next second third =>
    simp only [Bool.and_eq_true, Bool.or_eq_true, decide_eq_true_eq]
    constructor
    · rintro ⟨up, down⟩
      exact .inr ⟨second, third, rfl, up, down⟩
    · rintro (⟨b, c, r, same, turned⟩ | ⟨s, t, same, up, down⟩)
      · cases same
      · cases same
        exact ⟨up, down⟩
  · next not_report not_arrow =>
    refine iff_of_false Bool.false_ne_true ?_
    rintro (⟨b, c, r, same, _⟩ | ⟨s, t, same, _⟩)
    · exact not_report _ _ _ same
    · exact not_arrow _ _ same

theorem units_char (d : Char) {rest : List Nat} (known : units text = d.toNat :: rest) (small : d.toNat < 0xd800) :
    ∃ tail, text = d :: tail ∧ units tail = rest := by
  obtain ⟨c, tail, same, code, _, later⟩ := units_first known small
  exact ⟨tail, by rw [same, code_char.mp code], later⟩

theorem units_end (known : units text = []) : text = [] := by
  cases text with
  | nil => rfl
  | cons c =>
    rw [units_cons] at known
    cases beyond : astral c with
    | false => rw [encode_basic beyond] at known; cases known
    | true =>
      obtain ⟨high, low, both, _⟩ := encode_astral beyond
      rw [both] at known
      cases known

theorem host_text_iff (unmatched : sgrScrollSequence text = none) : isScrollSequence (units text) ↔
    (∃ button column row, text = [escape, '[', 'M', button, column, row] ∧ wheel button.toNat ∧
      ∀ c ∈ [button, column, row], astral c = false) ∨
    (∃ button last, text = [escape, '[', 'M', button, last] ∧ astral button ≠ astral last ∧
      (encode button).head?.map wheel = some true) ∨
    ∃ second third, text = [escape, second, third] ∧ (second = 'O' ∨ second = '[') ∧ (third = 'A' ∨ third = 'B') := by
  have none_ : sgr (units text) = none := by rw [sgr_units, unmatched]; rfl
  rw [host_report_iff none_]
  constructor
  · rintro (⟨b, c, r, same, turned⟩ | ⟨s, t, same, up, down⟩)
    · obtain ⟨tail, rfl, first⟩ := units_char escape same (by decide)
      obtain ⟨tail, rfl, second⟩ := units_char '[' first (by decide)
      obtain ⟨tail, rfl, third⟩ := units_char 'M' second (by decide)
      rcases units_three third with ⟨x, y, z, rfl, basic, codes⟩ | ⟨x, y, rfl, apart, head⟩
      · simp only [map_cons, map_nil, cons.injEq, and_true] at codes
        exact .inl ⟨x, y, z, rfl, codes.1 ▸ turned, basic⟩
      · exact .inr (.inl ⟨x, y, rfl, apart, by rw [head, map_some, turned]⟩)
    · obtain ⟨tail, rfl, first⟩ := units_char escape same (by decide)
      obtain ⟨c, tail, rfl, code, _, second⟩ := units_first first (by omega)
      obtain ⟨d, tail, rfl, code', _, third⟩ := units_first second (by omega)
      cases units_end third
      refine .inr (.inr ⟨c, d, rfl, ?_, ?_⟩)
      · exact up.imp (fun o => (@code_char c 'O').mp (code.trans o)) fun o => (@code_char c '[').mp (code.trans o)
      · exact down.imp (fun o => (@code_char d 'A').mp (code'.trans o)) fun o => (@code_char d 'B').mp (code'.trans o)
  · have plain : astral escape = false ∧ astral '[' = false ∧ astral 'M' = false := by decide
    rintro (⟨x, y, z, rfl, turned, basic⟩ | ⟨x, y, rfl, apart, turned⟩ | ⟨s, t, rfl, up, down⟩)
    · have flat : units [escape, '[', 'M', x, y, z] = [0x1b, 0x5b, 0x4d, x.toNat, y.toNat, z.toNat] := by
        refine units_basic fun c member => ?_
        simp only [mem_cons, not_mem_nil, or_false] at member basic
        rcases member with rfl | rfl | rfl | member
        · exact plain.1
        · exact plain.2.1
        · exact plain.2.2
        · exact basic c member
      exact .inl ⟨_, _, _, flat, turned⟩
    · cases first : astral x with
      | false =>
        have second : astral y := by
          cases beyond : astral y with
          | false => exact absurd (first.trans beyond.symm) apart
          | true => rfl
        obtain ⟨high, low, both, _⟩ := encode_astral second
        rw [encode_basic first] at turned
        refine .inl ⟨x.toNat, high, low, ?_, some.inj turned⟩
        simp only [units_cons, encode_basic plain.1, encode_basic plain.2.1, encode_basic plain.2.2, encode_basic first, both]
        rfl
      | true =>
        have second : astral y = false := by
          cases beyond : astral y with
          | false => rfl
          | true => exact absurd (first.trans beyond.symm) apart
        obtain ⟨high, low, both, _⟩ := encode_astral first
        rw [both] at turned
        refine .inl ⟨high, low, y.toNat, ?_, some.inj turned⟩
        simp only [units_cons, encode_basic plain.1, encode_basic plain.2.1, encode_basic plain.2.2, encode_basic second, both]
        rfl
    · right
      rcases up with rfl | rfl <;> rcases down with rfl | rfl <;> exact ⟨_, _, rfl, by decide, by decide⟩

theorem arrow_clean {second third : Char} (up : second = 'O' ∨ second = '[') (down : third = 'A' ∨ third = 'B') :
    Clean ([escape, second, third].map Char.toNat) := by
  rcases up with rfl | rfl <;> rcases down with rfl | rfl <;> exact ⟨rfl, by decide⟩

theorem report_clean_iff (button column row : Char) : Clean ([escape, '[', 'M', button, column, row].map Char.toNat) ↔
    ∀ c ∈ [button, column, row], isControl c.toNat = false := by
  have plain : isControl ('[').toNat = false ∧ isControl ('M').toNat = false := by decide
  simp only [Clean, map_cons, map_nil, tail_cons, forall_mem_cons, plain, true_and, head?_cons,
    not_mem_nil, false_imp_iff, implies_true, and_true]
  exact and_iff_right rfl

theorem sound_numbers {button : List Char} (matched : sgrScrollSequence text = some button) :
    Sound text ↔ ∀ n, atoi button = some n → n.testBit 6 = (roundDouble n).testBit 6 := by
  have host := sgr_units text
  rw [matched, map_some] at host
  have clean : Clean (text.map Char.toNat) := by
    have mapped := sgr_map text
    rw [matched] at mapped
    exact (sgr_clean mapped).1
  have theirs : isScrollSequence (units text) ↔ digitsValue (button.map Char.toNat) < 2 ^ 63 ∧
      (roundDouble (digitsValue (button.map Char.toNat))).testBit 6 := by
    rw [← number_wheel]
    unfold isScrollSequence scrollSequence
    rw [host]
    exact decide_eq_true_iff
  have mine : validScroll text ↔ digitsValue (button.map Char.toNat) < 2 ^ 63 ∧
      (digitsValue (button.map Char.toNat)).testBit 6 := by
    rw [← and_wheel]
    unfold validScroll
    rw [matched]
    dsimp only
    rw [atoi_value]
    by_cases small : digitsValue (button.map Char.toNat) < 2 ^ 63
    · rw [if_pos small, and_iff_right small]
      exact decide_eq_true_iff
    · rw [if_neg small]
      exact iff_of_false Bool.false_ne_true fun both => small both.1
  have same : Sound text ↔ validScroll text = isScrollSequence (units text) :=
    ⟨fun sound => sound.same.1, fun same => ⟨fun _ => clean, fun _ => clean, same, rfl⟩⟩
  rw [same, Bool.eq_iff_iff, mine, theirs, atoi_value]
  generalize digitsValue (button.map Char.toNat) = n
  by_cases small : n < 2 ^ 63
  · simp only [small, true_and, if_true, some.injEq, forall_eq', ← Bool.eq_iff_iff]
  · simp only [small, false_and, if_false, true_iff]
    intro m none_
    cases none_

theorem sound_report {first button column row : Char}
    (unmatched : sgrScrollSequence [first, '[', 'M', button, column, row] = none) :
    Sound [first, '[', 'M', button, column, row] ↔ (first = escape → wheel button.toNat →
      ∀ c ∈ [button, column, row], isControl c.toNat = false ∧ astral c = false) := by
  have relay : validScroll [first, '[', 'M', button, column, row] ↔ first = escape ∧ wheel button.toNat := by
    rw [wheel_report_iff unmatched]
    constructor
    · rintro (⟨b, c, r, same, turned⟩ | ⟨s, t, same, _⟩)
      · cases same
        exact ⟨rfl, turned⟩
      · cases same
    · rintro ⟨rfl, turned⟩
      exact .inl ⟨button, column, row, rfl, turned⟩
  have host : isScrollSequence (units [first, '[', 'M', button, column, row]) ↔
      (first = escape ∧ wheel button.toNat) ∧ ∀ c ∈ [button, column, row], astral c = false := by
    rw [host_text_iff unmatched]
    constructor
    · rintro (⟨b, c, r, same, turned, basic⟩ | ⟨b, l, same, _⟩ | ⟨s, t, same, _⟩)
      · cases same
        exact ⟨⟨rfl, turned⟩, basic⟩
      · cases same
      · cases same
    · rintro ⟨⟨rfl, turned⟩, basic⟩
      exact .inl ⟨button, column, row, rfl, turned, basic⟩
  constructor
  · rintro sound rfl turned
    have accepted := relay.mpr ⟨rfl, turned⟩
    have clean := (report_clean_iff button column row).mp (sound.relay accepted)
    have basic := (host.mp (sound.same.1 ▸ accepted)).2
    exact fun c member => ⟨clean c member, basic c member⟩
  · intro plain
    have clean : first = escape ∧ wheel button.toNat →
        Clean ([first, '[', 'M', button, column, row].map Char.toNat) := by
      rintro ⟨rfl, turned⟩
      exact (report_clean_iff button column row).mpr fun c member => (plain rfl turned c member).1
    refine ⟨fun accepted => clean (relay.mp accepted), fun accepted => clean (host.mp accepted).1, ?_, rfl⟩
    rw [Bool.eq_iff_iff, relay, host]
    exact ⟨fun report => ⟨report, fun c member => (plain report.1 report.2 c member).2⟩, And.left⟩

theorem sound_pair {first button last : Char} (unmatched : sgrScrollSequence [first, '[', 'M', button, last] = none) :
    Sound [first, '[', 'M', button, last] ↔ (first = escape → astral button ≠ astral last →
      (encode button).head?.map wheel = some false) := by
  have relay : validScroll [first, '[', 'M', button, last] = false := by
    refine Bool.eq_false_iff.mpr fun accepted => ?_
    rcases (wheel_report_iff unmatched).mp accepted with ⟨b, c, r, same, _⟩ | ⟨s, t, same, _⟩ <;> cases same
  have host : isScrollSequence (units [first, '[', 'M', button, last]) ↔
      first = escape ∧ astral button ≠ astral last ∧ (encode button).head?.map wheel = some true := by
    rw [host_text_iff unmatched]
    constructor
    · rintro (⟨b, c, r, same, _⟩ | ⟨b, l, same, apart, turned⟩ | ⟨s, t, same, _⟩)
      · cases same
      · cases same
        exact ⟨rfl, apart, turned⟩
      · cases same
    · rintro ⟨rfl, apart, turned⟩
      exact .inr (.inl ⟨button, last, rfl, apart, turned⟩)
  obtain ⟨unit, head⟩ : ∃ unit, (encode button).head? = some unit :=
    isSome_iff_exists.mp (isSome_head?.mpr (encode_nonempty button))
  have sound_ : Sound [first, '[', 'M', button, last] ↔ isScrollSequence (units [first, '[', 'M', button, last]) = false := by
    constructor
    · exact fun sound => sound.same.1.symm.trans relay
    · intro refused
      refine ⟨fun accepted => ?_, fun accepted => ?_, relay.trans refused.symm, rfl⟩
      · rw [relay] at accepted
        cases accepted
      · rw [refused] at accepted
        cases accepted
  rw [sound_, ← Bool.not_eq_true, host, head, map_some]
  cases wheel unit <;> simp

/-- The checks accept the same texts, and no control characters behind the escape, exactly where the text is plain. -/
theorem sound_iff (text : List Char) : Sound text ↔ Plain text := by
  unfold Plain
  cases matched : sgrScrollSequence text with
  | some => exact sound_numbers matched
  | none =>
    dsimp only
    split
    · exact sound_report matched
    · exact sound_pair matched
    · next no_report no_pair =>
      have accepts : validScroll text ↔ isScrollSequence (units text) := by
        rw [wheel_report_iff matched, host_text_iff matched]
        constructor
        · rintro (⟨b, c, r, same, _⟩ | arrow)
          · exact absurd same (no_report _ _ _ _)
          · exact .inr (.inr arrow)
        · rintro (⟨b, c, r, same, _⟩ | ⟨b, l, same, _⟩ | arrow)
          · exact absurd same (no_report _ _ _ _)
          · exact absurd same (no_pair _ _ _)
          · exact .inr arrow
      have clean (accepted : validScroll text) : Clean (text.map Char.toNat) := by
        rcases (wheel_report_iff matched).mp accepted with ⟨b, c, r, same, _⟩ | ⟨s, t, same, up, down⟩
        · exact absurd same (no_report _ _ _ _)
        · rw [same]
          exact arrow_clean up down
      exact iff_of_true ⟨clean, fun accepted => clean (accepts.mpr accepted), Bool.eq_iff_iff.mpr accepts, rfl⟩ trivial

/-- The host takes any string of JavaScript. -/
theorem host_clean_iff (data : List Nat) : (isScrollSequence data → Clean data) ↔
    ∀ button column row, data = [0x1b, 0x5b, 0x4d, button, column, row] → wheel button →
      ∀ unit ∈ [button, column, row], isControl unit = false := by
  have plain : isControl 0x5b = false ∧ isControl 0x4d = false := by decide
  constructor
  · rintro clean button column row rfl turned
    have accepted := (@host_report_iff [0x1b, 0x5b, 0x4d, button, column, row] rfl).mpr
      (.inl ⟨button, column, row, rfl, turned⟩)
    have each := (clean accepted).2
    simp only [tail_cons, forall_mem_cons, plain, true_and] at each
    simpa only [forall_mem_cons] using each
  · intro each accepted
    cases matched : sgr data with
    | some => exact (sgr_clean matched).1
    | none =>
      rcases (host_report_iff matched).mp accepted with ⟨b, c, r, rfl, turned⟩ | ⟨s, t, rfl, up, down⟩
      · refine ⟨rfl, ?_⟩
        simp only [tail_cons, forall_mem_cons, plain, true_and]
        simpa only [forall_mem_cons] using each b c r rfl turned
      · refine ⟨rfl, ?_⟩
        rcases up with rfl | rfl <;> rcases down with rfl | rfl <;> decide

end Reports

/-- The relay looks at the text of the frame; what the three accept is the same, and free of control characters, exactly
    for the plain texts; for the host and the desktop that is so of every string. -/
theorem scrolls_cannot_type (frame : Bytes) (text : List Char) (data : List Nat) :
    RelayFrames.validPtyScrollMessage frame = validScroll (peekStringField frame "data").toList ∧
    (Sound text ↔ Plain text) ∧
    isScrollSequence data = isScrollSeq data ∧ ((isScrollSequence data → Clean data) ↔
      ∀ button column row, data = [0x1b, 0x5b, 0x4d, button, column, row] → wheel button →
        ∀ unit ∈ [button, column, row], isControl unit = false) :=
  ⟨valid_scroll frame, sound_iff text, rfl, host_clean_iff data⟩

def typing : List Char := [escape, '[', 'M', '\r', '\r', Char.ofNat 3]

def beyond : List Char := [escape, '[', 'M', '\x60', Char.ofNat 0x1f600, '!']

def rounded : List Char := escape :: ("[<" ++ "288230376151711807" ++ ";1;1M").toList

theorem scrolls_type : (validScroll typing ∧ isScrollSequence (units typing) ∧ '\r' ∈ typing ∧ ¬ Sound typing) ∧
    (validScroll beyond ∧ isScrollSequence (units beyond) = false ∧ ¬ Sound beyond) ∧
    (validScroll rounded = false ∧ isScrollSequence (units rounded) ∧ ¬ Sound rounded) := by
  have first : validScroll typing ∧ isScrollSequence (units typing) := by decide +kernel
  have second : validScroll beyond ∧ isScrollSequence (units beyond) = false := by decide +kernel
  have third : validScroll rounded = false ∧ isScrollSequence (units rounded) := by decide +kernel
  refine ⟨⟨first.1, first.2, by decide, fun sound => ?_⟩, ⟨second.1, second.2, fun sound => ?_⟩,
    third.1, third.2, fun sound => ?_⟩
  · have clean := (sound.relay first.1).2 0xd (by decide)
    revert clean
    decide
  · have same := sound.same.1
    rw [second.1, second.2] at same
    cases same
  · have same := sound.same.1
    rw [third.1, third.2] at same
    cases same
end PieRelay.ScrollFrames
