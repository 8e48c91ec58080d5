import Mathlib.Algebra.Group.Nat.Defs
import Mathlib.Data.List.DropRight
import PieRelay.JsonNumbers

/-!
Instants of time in JSON texts: `time.Time` is written as RFC 3339 with as many digits of the second as it has, and
`UnmarshalJSON` reads it strictly. An instant is its civil date and time in UTC, from the year 0 to the year 9999,
which is what `MarshalJSON` takes. Left out: texts with another zone.
-/
namespace PieRelay.Timestamps
open JsonScanner JsonStrings JsonObjects JsonNumbers List

def leapYear (year : Nat) : Bool := year % 4 = 0 ∧ (year % 100 ≠ 0 ∨ year % 400 = 0)

def daysIn (month year : Nat) : Nat :=
  if month = 2 then (if leapYear year then 29 else 28)
  else if month = 4 ∨ month = 6 ∨ month = 9 ∨ month = 11 then 30 else 31

structure Civil where
  year : Nat
  month : Nat
  day : Nat
  hour : Nat
  minute : Nat
  second : Nat
  nanos : Nat
  deriving DecidableEq

def Civil.valid (t : Civil) : Bool :=
  t.year ≤ 9999 ∧ 1 ≤ t.month ∧ t.month ≤ 12 ∧ 1 ≤ t.day ∧ t.day ≤ daysIn t.month t.year ∧ t.hour < 24 ∧
    t.minute < 60 ∧ t.second < 60 ∧ t.nanos < 1000000000

def Instant : Type := { t : Civil // t.valid }

instance : DecidableEq Instant := inferInstanceAs (DecidableEq { t : Civil // t.valid })

abbrev dash : UInt8 := 0x2d
abbrev point : UInt8 := 0x2e
abbrev letterT : UInt8 := 0x54
abbrev letterZ : UInt8 := 0x5a
abbrev zero : UInt8 := 0x30

def pad : Nat → Nat → Bytes
  | 0, _ => []
  | room + 1, n => pad room (n / 10) ++ [digit n]

def fraction (nanos : Nat) : Bytes :=
  if nanos = 0 then [] else point :: (pad 9 nanos).rdropWhile (· == zero)

def formatRFC3339 (t : Civil) : Bytes :=
  pad 4 t.year ++ dash :: (pad 2 t.month ++ dash :: (pad 2 t.day ++ letterT :: (pad 2 t.hour ++ colon ::
    (pad 2 t.minute ++ colon :: (pad 2 t.second ++ (fraction t.nanos ++ [letterZ]))))))

def readFixed (width : Nat) (data : Bytes) : Option (Nat × Bytes) :=
  if width ≤ data.length then (readDigits 0 (data.take width)).map fun n => (n, data.drop width) else none

def readByte (c : UInt8) : Bytes → Option Bytes
  | found :: rest => if found = c then some rest else none
  | [] => none

def readFraction (data : Bytes) : Option (Nat × Bytes) :=
  match readByte point data with
  | some rest =>
    let digits := rest.takeWhile isDigit
    if digits = [] then some (0, data)
    else (readDigits 0 ((digits ++ replicate 9 zero).take 9)).map fun n => (n, rest.drop digits.length)
  | none => some (0, data)

def parseCivil (data : Bytes) : Option Civil := do
  let (year, rest) ← readFixed 4 data
  let rest ← readByte dash rest
  let (month, rest) ← readFixed 2 rest
  let rest ← readByte dash rest
  let (day, rest) ← readFixed 2 rest
  let rest ← readByte letterT rest
  let (hour, rest) ← readFixed 2 rest
  let rest ← readByte colon rest
  let (minute, rest) ← readFixed 2 rest
  let rest ← readByte colon rest
  let (second, rest) ← readFixed 2 rest
  let (nanos, rest) ← readFraction rest
  if rest = [letterZ] then some ⟨year, month, day, hour, minute, second, nanos⟩ else none

def parseStrictRFC3339 (data : Bytes) : Option Instant :=
  (parseCivil data).bind fun t => if valid : t.valid then some ⟨t, valid⟩ else none

def writeInstant (t : Instant) : Bytes := quote :: (formatRFC3339 t.1 ++ [quote])

def readInstant (raw : Bytes) : Option Instant :=
  match raw with
  | c :: rest => if c = quote ∧ rest.getLast? = some quote then parseStrictRFC3339 rest.dropLast else none
  | [] => none

theorem read_digits_append (start : Nat) (first second : Bytes) :
    readDigits start (first ++ second) = (readDigits start first).bind fun n => readDigits n second := by
  induction first generalizing start with
  | nil => rfl
  | cons c first ih =>
    rw [cons_append, readDigits, readDigits]
    split
    · exact ih _
    · rfl

theorem pad_length (room n : Nat) : (pad room n).length = room := by
  induction room generalizing n with
  | zero => rfl
  | succ room ih => rw [pad, length_append, ih, length_singleton]

theorem pad_digits (room n : Nat) : (pad room n).all isDigit := by
  induction room generalizing n with
  | zero => rfl
  | succ room ih => rw [pad, all_append, ih, all_cons, (digit_spec n).1]; rfl

theorem read_pad (room n start : Nat) : readDigits start (pad room n) = some (start * 10 ^ room + n % 10 ^ room) := by
  induction room generalizing n with
  | zero => simp [pad, readDigits, Nat.mod_one]
  | succ room ih =>
    obtain ⟨decimal, value⟩ := digit_spec n
    have split_ : n % 10 ^ (room + 1) = n / 10 % 10 ^ room * 10 + n % 10 := by
      rw [Nat.pow_succ', Nat.mod_mul]
      omega
    rw [pad, read_digits_append, ih, Option.bind_some, readDigits, if_pos decimal, value, readDigits, split_]
    congr 1
    rw [Nat.pow_succ, Nat.add_mul, Nat.mul_assoc]
    omega

theorem read_fixed_pad {room n : Nat} (small : n < 10 ^ room) (rest : Bytes) :
    readFixed room (pad room n ++ rest) = some (n, rest) := by
  have size := pad_length room n
  have room_ : room ≤ (pad room n ++ rest).length := by
    rw [length_append, size]
    omega
  rw [readFixed, if_pos room_, take_left' size, drop_left' size, read_pad, Nat.mod_eq_of_lt small]
  simp

theorem drop_zeros (digits : Bytes) : ∃ count, digits = digits.rdropWhile (· == zero) ++ replicate count zero := by
  induction digits using reverseRecOn with
  | nil => exact ⟨0, rfl⟩
  | append_singleton digits c ih =>
    by_cases last : c = zero
    · subst last
      obtain ⟨count, same⟩ := ih
      refine ⟨count + 1, ?_⟩
      rw [rdropWhile_concat_pos _ _ _ (by rfl), replicate_succ', ← append_assoc, ← same]
    · refine ⟨0, ?_⟩
      rw [rdropWhile_concat_neg _ _ _ (by simpa using last), replicate_zero, append_nil]

theorem read_fraction {nanos : Nat} (small : nanos < 1000000000) :
    readFraction (fraction nanos ++ [letterZ]) = some (nanos, [letterZ]) := by
  by_cases none_ : nanos = 0
  · subst none_
    rfl
  · obtain ⟨count, same⟩ := drop_zeros (pad 9 nanos)
    have value : readDigits 0 (pad 9 nanos) = some nanos := by
      rw [read_pad, Nat.mod_eq_of_lt (by omega)]
      simp
    have size := pad_length 9 nanos
    have decimal := pad_digits 9 nanos
    rw [fraction, if_neg none_]
    generalize (pad 9 nanos).rdropWhile (· == zero) = digits at same ⊢
    rw [same] at size value decimal
    rw [all_append, Bool.and_eq_true] at decimal
    rw [length_append, length_replicate] at size
    have some_ : digits ≠ [] := by
      rintro rfl
      have nine : count = 9 := by
        simpa using size
      subst nine
      exact none_ (Option.some.inj value).symm
    have taken : (digits ++ [letterZ]).takeWhile isDigit = digits := by
      have stops : [letterZ].takeWhile isDigit = [] := by decide
      rw [takeWhile_append_of_pos fun c member => all_eq_true.mp decimal.1 c member, stops, append_nil]
    have padded : (digits ++ replicate 9 zero).take 9 = digits ++ replicate count zero := by
      rw [take_append, take_of_length_le (by omega), take_replicate]
      congr 2
      omega
    show (let read := (digits ++ [letterZ]).takeWhile isDigit
      if read = [] then some (0, point :: digits ++ [letterZ])
      else (readDigits 0 ((read ++ replicate 9 zero).take 9)).map fun n =>
        (n, (digits ++ [letterZ]).drop read.length)) = _
    rw [taken]
    dsimp only
    rw [if_neg some_, padded, value, drop_left]
    rfl

theorem parse_format (t : Instant) : parseStrictRFC3339 (formatRFC3339 t.1) = some t := by
  obtain ⟨t, valid⟩ := t
  have bounds := of_decide_eq_true valid
  obtain ⟨year, _, month, _, day, hour, minute, second, nanos⟩ := bounds
  have days : t.day < 100 := by
    unfold daysIn at day
    split at day
    · split at day <;> omega
    · split at day <;> omega
  have civil : parseCivil (formatRFC3339 t) = some t := by
    simp only [parseCivil, formatRFC3339, readByte, if_true, bind, Option.bind_some,
      read_fixed_pad (show t.year < 10 ^ 4 by omega), read_fixed_pad (show t.month < 10 ^ 2 by omega),
      read_fixed_pad (show t.day < 10 ^ 2 by omega), read_fixed_pad (show t.hour < 10 ^ 2 by omega),
      read_fixed_pad (show t.minute < 10 ^ 2 by omega), read_fixed_pad (show t.second < 10 ^ 2 by omega),
      read_fraction nanos]
  show (parseCivil (formatRFC3339 t)).bind _ = _
  rw [civil]
  exact dif_pos valid

def isStamp (c : UInt8) : Bool :=
  isDigit c || c == dash || c == point || c == letterT || c == letterZ || c == colon

theorem stamp_plain {c : UInt8} (stamp : isStamp c) : c ≠ quote ∧ c ≠ backslash ∧ ¬ c < 0x20 := by
  have all : ∀ k, k < 256 → isStamp (UInt8.ofNat k) →
      UInt8.ofNat k ≠ quote ∧ UInt8.ofNat k ≠ backslash ∧ ¬ UInt8.ofNat k < 0x20 := by
    decide +kernel
  have here := all c.toNat c.toNat_lt
  rw [UInt8.ofNat_toNat] at here
  exact here stamp

theorem pad_stamps (room n : Nat) : ∀ c ∈ pad room n, isStamp c := by
  intro c member
  have decimal := all_eq_true.mp (pad_digits room n) c member
  rw [isStamp, decimal]
  rfl

theorem format_stamps (t : Civil) : ∀ c ∈ formatRFC3339 t, isStamp c := by
  have fractions : ∀ c ∈ fraction t.nanos, isStamp c := by
    unfold fraction
    split
    · exact fun c member => absurd member not_mem_nil
    · obtain ⟨count, same⟩ := drop_zeros (pad 9 t.nanos)
      refine forall_mem_cons.mpr ⟨rfl, fun c member => pad_stamps 9 t.nanos c ?_⟩
      rw [same]
      exact mem_append_left _ member
  intro c member
  simp only [formatRFC3339, mem_append, mem_cons, not_mem_nil, or_false] at member
  rcases member with h | rfl | h | rfl | h | rfl | h | rfl | h | rfl | h | h | rfl
  all_goals first | exact pad_stamps _ _ _ h | exact fractions _ h | rfl

theorem stamps_literal {text : Bytes} (stamps : ∀ c ∈ text, isStamp c) : Literal (text ++ [quote]) := by
  induction text with
  | nil => exact .close
  | cons c text ih =>
    obtain ⟨unquoted, unescaped, printable⟩ := stamp_plain (stamps c mem_cons_self)
    exact .plain c _ unquoted unescaped printable (ih fun other member => stamps other (mem_cons_of_mem c member))

theorem instant_solid (limit : Nat) (t : Instant) : Solid limit (writeInstant t) := by
  intro sep tail _
  have opened : step limit ⟨.beginValue, []⟩ quote = .next ⟨.inString, []⟩ := rfl
  rw [writeInstant, scanValue, cons_append, skip_space_head rfl, scan_next opened,
    literal_scan limit (stamps_literal (format_stamps t.1))]
  rfl

theorem read_write_instant (t : Instant) : readInstant (writeInstant t) = some t := by
  have last : (formatRFC3339 t.1 ++ [quote]).getLast? = some quote := by simp
  rw [writeInstant, readInstant, if_pos ⟨rfl, last⟩, dropLast_concat]
  exact parse_format t

theorem instant_line (t : Instant) : (0x0a : UInt8) ∉ writeInstant t := by
  have literal := stamps_literal (format_stamps t.1)
  intro member
  rcases mem_cons.mp member with same | member
  · exact absurd same (by decide)
  · rcases mem_append.mp member with inside | last
    · exact (stamp_plain (format_stamps t.1 _ inside)).2.2 (by decide)
    · exact absurd (mem_singleton.mp last) (by decide)

end PieRelay.Timestamps
