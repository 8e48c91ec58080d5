import PieRelay.JsonObjects

/-! Integers in JSON texts: `strconv.AppendInt` writes them, and a member of type int64 is read with
`strconv.ParseInt`, which refuses a fraction, an exponent and what does not fit into 64 bits. -/
namespace PieRelay.JsonNumbers
open JsonScanner JsonObjects JsonStrings List

def minus : UInt8 := 0x2d

def digit (n : Nat) : UInt8 := UInt8.ofNat (0x30 + n % 10)

def writeDigits : Nat → Nat → Bytes → Bytes
  | 0, _, written => written
  | fuel + 1, n, written => if n < 10 then digit n :: written else writeDigits fuel (n / 10) (digit n :: written)

def writeNat (n : Nat) : Bytes := writeDigits (n + 1) n []

def writeInt : Int → Bytes
  | .ofNat n => writeNat n
  | .negSucc n => minus :: writeNat (n + 1)

def readDigits (read : Nat) : Bytes → Option Nat
  | [] => some read
  | c :: rest => if isDigit c then readDigits (read * 10 + (c.toNat - 0x30)) rest else none

def readNat (raw : Bytes) : Option Nat := if raw = [] then none else readDigits 0 raw

def int64 (n : Int) : Prop := -9223372036854775808 ≤ n ∧ n < 9223372036854775808

instance (n : Int) : Decidable (int64 n) := inferInstanceAs (Decidable (_ ∧ _))

def readSigned : Bytes → Option Int
  | [] => none
  | c :: rest => if c = minus then (readNat rest).map fun n : Nat => -(Int.ofNat n) else (readNat (c :: rest)).map Int.ofNat

def readInt (raw : Bytes) : Option Int := (readSigned raw).filter fun n => int64 n

theorem digit_spec (n : Nat) : isDigit (digit n) ∧ (digit n).toNat - 0x30 = n % 10 := by
  have all : ∀ k, k < 10 → isDigit (UInt8.ofNat (0x30 + k)) ∧ (UInt8.ofNat (0x30 + k)).toNat - 0x30 = k := by
    decide
  exact all (n % 10) (Nat.mod_lt n (by decide))

theorem write_digits_nonempty (fuel n : Nat) (written : Bytes) : writeDigits (fuel + 1) n written ≠ [] := by
  induction fuel generalizing n written with
  | zero =>
    unfold writeDigits
    split <;> simp [writeDigits]
  | succ fuel ih =>
    unfold writeDigits
    split
    · simp
    · exact ih (n / 10) (digit n :: written)

theorem write_digits_all (fuel n : Nat) {written : Bytes} (digits : written.all isDigit) :
    (writeDigits fuel n written).all isDigit := by
  induction fuel generalizing n written with
  | zero => exact digits
  | succ fuel ih =>
    unfold writeDigits
    have more : (digit n :: written).all isDigit := by
      rw [all_cons, (digit_spec n).1, digits]
      rfl
    split
    · exact more
    · exact ih (n / 10) more

theorem read_write_digits (fuel n : Nat) (enough : n < fuel) (written : Bytes) :
    readDigits 0 (writeDigits fuel n written) = readDigits n written := by
  induction fuel generalizing n written with
  | zero => omega
  | succ fuel ih =>
    unfold writeDigits
    split
    · next small =>
      rw [readDigits, (digit_spec n).1, if_pos rfl, (digit_spec n).2, Nat.mod_eq_of_lt small]
      simp
    · next =>
      rw [ih (n / 10) (by omega), readDigits, (digit_spec n).1, if_pos rfl, (digit_spec n).2]
      congr 1
      omega

theorem read_write_nat (n : Nat) : readNat (writeNat n) = some n := by
  have nonempty : writeNat n ≠ [] := write_digits_nonempty n n []
  rw [readNat, if_neg nonempty, writeNat, read_write_digits (n + 1) n (Nat.lt_succ_self n)]
  rfl

theorem write_nat_digits (n : Nat) : (writeNat n).all isDigit := write_digits_all (n + 1) n rfl

theorem digit_not_minus {c : UInt8} (digit : isDigit c) : c ≠ minus := by
  rintro rfl
  revert digit
  decide

theorem read_write_signed (n : Int) : readSigned (writeInt n) = some n := by
  cases n with
  | ofNat n =>
    have digits := write_nat_digits n
    have read := read_write_nat n
    have nonempty : writeNat n ≠ [] := write_digits_nonempty n n []
    unfold writeInt
    dsimp only
    cases shape : writeNat n with
    | nil => exact absurd shape nonempty
    | cons =>
      rw [shape, all_cons, Bool.and_eq_true] at digits
      rw [shape] at read
      rw [readSigned, if_neg (digit_not_minus digits.1), read]
      rfl
  | negSucc =>
    rw [writeInt, readSigned, if_pos rfl, read_write_nat]
    rfl

/-- An integer of 64 bits is read back. -/
theorem read_write_int (n : Int) (fits : int64 n) : readInt (writeInt n) = some n := by
  rw [readInt, read_write_signed, Option.filter, if_pos (decide_eq_true fits)]

theorem scan_digits {limit : Nat} {digits : Bytes} (all : digits.all isDigit) {sep : UInt8}
    (separator : isSeparator sep) (tail : Bytes) :
    scanFrom limit ⟨.int1, []⟩ (digits ++ sep :: tail) = some (digits, sep :: tail) := by
  induction digits with
  | nil =>
    have ended : step limit ⟨.int1, []⟩ sep = .ended := by
      simp only [isSeparator, Bool.or_eq_true, beq_iff_eq] at separator
      rcases separator with rfl | rfl <;> rfl
    simp [scanFrom, ended]
  | cons c rest ih =>
    rw [all_cons, Bool.and_eq_true] at all
    have taken : step limit ⟨.int1, []⟩ c = .next ⟨.int1, []⟩ := by
      simp [step, all.1]
    simp [scanFrom, taken, ih all.2]

theorem write_digits_head (fuel n : Nat) (positive : 0 < n) (enough : n < fuel) (written : Bytes)
    (digits : written.all isDigit) :
    ∃ c rest, writeDigits fuel n written = c :: rest ∧ isDigit c ∧ c ≠ 0x30 ∧ rest.all isDigit := by
  induction fuel generalizing n written with
  | zero => omega
  | succ fuel ih =>
    unfold writeDigits
    split
    · next small =>
      refine ⟨digit n, written, rfl, (digit_spec n).1, fun zero => ?_, digits⟩
      have value := (digit_spec n).2
      rw [zero, Nat.mod_eq_of_lt small] at value
      have none : (0x30 : UInt8).toNat - 0x30 = 0 := rfl
      omega
    · next =>
      refine ih (n / 10) (by omega) (by omega) (digit n :: written) ?_
      rw [all_cons, (digit_spec n).1, digits]
      rfl

theorem digit_begins (limit : Nat) {c : UInt8} (digit : isDigit c) (positive : c ≠ 0x30) :
    JsonScanner.step limit ⟨.beginValue, []⟩ c = .next ⟨.int1, []⟩ ∧
      JsonScanner.step limit ⟨.neg, []⟩ c = .next ⟨.int1, []⟩ ∧ isSpace c = false := by
  have all : ∀ k, k < 256 → isDigit (UInt8.ofNat k) → UInt8.ofNat k ≠ 0x30 →
      isSpace (UInt8.ofNat k) = false ∧ UInt8.ofNat k ≠ openBrace ∧ UInt8.ofNat k ≠ openBracket ∧
        beginLiteral (UInt8.ofNat k) = some .int1 := by
    decide +kernel
  have here := all c.toNat c.toNat_lt
  rw [UInt8.ofNat_toNat] at here
  obtain ⟨visible, brace, bracket, begins⟩ := here digit positive
  refine ⟨?_, ?_, visible⟩
  · simp [step, stateBeginValue, visible, brace, bracket, begins]
  · simp [step, positive, digit]

theorem int_solid (limit : Nat) (n : Int) : Solid limit (writeInt n) := by
  intro sep tail separator
  have positive : ∀ n : Nat, 0 < n → ∃ c rest, writeNat n = c :: rest ∧ isDigit c ∧ c ≠ 0x30 ∧
      rest.all isDigit := fun n positive =>
    write_digits_head (n + 1) n positive (Nat.lt_succ_self n) [] rfl
  cases n with
  | ofNat n =>
    by_cases zero : n = 0
    · subst zero
      simp only [isSeparator, Bool.or_eq_true, beq_iff_eq] at separator
      rcases separator with rfl | rfl <;> rfl
    · obtain ⟨c, rest, shape, digit, nonzero, digits⟩ := positive n (by omega)
      obtain ⟨begins, -, visible⟩ := digit_begins limit digit nonzero
      rw [writeInt, shape, cons_append, scanValue, skip_space_head visible, scan_next begins,
        scan_digits digits separator]
      rfl
  | negSucc n =>
    obtain ⟨c, rest, shape, digit, nonzero, digits⟩ := positive (n + 1) (by omega)
    obtain ⟨-, begins, -⟩ := digit_begins limit digit nonzero
    have sign : JsonScanner.step limit ⟨.beginValue, []⟩ minus = .next ⟨.neg, []⟩ := rfl
    rw [writeInt, shape, cons_append, cons_append, scanValue, skip_space_head rfl, scan_next sign,
      scan_next begins, scan_digits digits separator]
    rfl

end PieRelay.JsonNumbers
