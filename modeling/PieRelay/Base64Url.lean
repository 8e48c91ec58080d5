import Mathlib.Tactic.Common
import PieRelay.JsonScanner

/-! Unpadded URL-safe base64 as Go writes and reads it: three bytes are four digits, a rest of one
or two bytes is two or three digits. The reader skips line breaks and does not look at the bits
that a short rest leaves over. -/
namespace PieRelay.Base64Url
open List
open JsonScanner (Bytes)

def digit (n : Nat) : UInt8 :=
  UInt8.ofNat (if n < 26 then 0x41 + n else if n < 52 then 0x47 + n else if n < 62 then n - 4
    else if n = 62 then 0x2d else 0x5f)

def digitValue (c : UInt8) : Option Nat :=
  if 0x41 ≤ c ∧ c ≤ 0x5a then some (c.toNat - 0x41)
  else if 0x61 ≤ c ∧ c ≤ 0x7a then some (c.toNat - 0x47)
  else if 0x30 ≤ c ∧ c ≤ 0x39 then some (c.toNat + 4)
  else if c = 0x2d then some 62
  else if c = 0x5f then some 63
  else none

def isBreak (c : UInt8) : Bool := c = 0x0a ∨ c = 0x0d

def sextets : Bytes → List Nat
  | [] => []
  | [a] => [a.toNat / 4, a.toNat % 4 * 16]
  | [a, b] => [a.toNat / 4, a.toNat % 4 * 16 + b.toNat / 16, b.toNat % 16 * 4]
  | a :: b :: c :: rest =>
    a.toNat / 4 :: (a.toNat % 4 * 16 + b.toNat / 16) :: (b.toNat % 16 * 4 + c.toNat / 64) :: c.toNat % 64 ::
      sextets rest

def octets : List Nat → Option Bytes
  | [] => some []
  | [_] => none
  | [a, b] => some [UInt8.ofNat (a * 4 + b / 16)]
  | [a, b, c] => some [UInt8.ofNat (a * 4 + b / 16), UInt8.ofNat (b % 16 * 16 + c / 4)]
  | a :: b :: c :: d :: rest => (octets rest).map fun bytes =>
    UInt8.ofNat (a * 4 + b / 16) :: UInt8.ofNat (b % 16 * 16 + c / 4) :: UInt8.ofNat (c % 4 * 64 + d) :: bytes

def encode (data : Bytes) : Bytes := (sextets data).map digit

def decode (text : Bytes) : Option Bytes :=
  ((text.filter fun c => ! isBreak c).mapM digitValue).bind octets

theorem digit_spec : ∀ n, n < 64 → digitValue (digit n) = some n ∧ isBreak (digit n) = false ∧ digit n ≠ 0x2e := by
  decide +kernel

theorem sextets_small (data : Bytes) : ∀ n ∈ sextets data, n < 64 := by
  fun_induction sextets data with
  | case1 => simp
  | case2 a =>
    have byte := a.toNat_lt
    simp only [mem_cons, not_mem_nil, or_false]
    rintro n (rfl | rfl) <;> omega
  | case3 a b =>
    have first := a.toNat_lt
    have second := b.toNat_lt
    simp only [mem_cons, not_mem_nil, or_false]
    rintro n (rfl | rfl | rfl) <;> omega
  | case4 a b c rest ih =>
    have first := a.toNat_lt
    have second := b.toNat_lt
    have third := c.toNat_lt
    simp only [mem_cons]
    rintro n (rfl | rfl | rfl | rfl | later)
    · omega
    · omega
    · omega
    · omega
    · exact ih n later

theorem of_nat_eq {byte : UInt8} {n : Nat} (same : n = byte.toNat) : UInt8.ofNat n = byte := by
  rw [same, UInt8.ofNat_toNat]

theorem octets_sextets (data : Bytes) : octets (sextets data) = some data := by
  fun_induction sextets data with
  | case1 => rfl
  | case2 a =>
    have whole : UInt8.ofNat (a.toNat / 4 * 4 + a.toNat % 4 * 16 / 16) = a := of_nat_eq (by omega)
    simp only [octets, whole]
  | case3 a b =>
    have second := b.toNat_lt
    have first : UInt8.ofNat (a.toNat / 4 * 4 + (a.toNat % 4 * 16 + b.toNat / 16) / 16) = a :=
      of_nat_eq (by omega)
    have last : UInt8.ofNat ((a.toNat % 4 * 16 + b.toNat / 16) % 16 * 16 + b.toNat % 16 * 4 / 4) = b :=
      of_nat_eq (by omega)
    simp only [octets, first, last]
  | case4 a b c rest ih =>
    have second := b.toNat_lt
    have third := c.toNat_lt
    have first : UInt8.ofNat (a.toNat / 4 * 4 + (a.toNat % 4 * 16 + b.toNat / 16) / 16) = a :=
      of_nat_eq (by omega)
    have middle : UInt8.ofNat ((a.toNat % 4 * 16 + b.toNat / 16) % 16 * 16 +
        (b.toNat % 16 * 4 + c.toNat / 64) / 4) = b := of_nat_eq (by omega)
    have last : UInt8.ofNat ((b.toNat % 16 * 4 + c.toNat / 64) % 4 * 64 + c.toNat % 64) = c :=
      of_nat_eq (by omega)
    simp only [octets, ih, Option.map_some, first, middle, last]

theorem values_digits {digits : List Nat} (small : ∀ n ∈ digits, n < 64) :
    (digits.map digit).mapM digitValue = some digits := by
  induction digits with
  | nil => rfl
  | cons n rest ih =>
    have onward := ih fun later member => small later (mem_cons_of_mem n member)
    simp [(digit_spec n (small n mem_cons_self)).1, onward]

/-- What is written is read back. -/
theorem decode_encode (data : Bytes) : decode (encode data) = some data := by
  have small := sextets_small data
  have kept : (encode data).filter (fun c => ! isBreak c) = encode data := by
    refine filter_eq_self.mpr fun c member => ?_
    obtain ⟨n, inside, rfl⟩ := mem_map.mp member
    simp [(digit_spec n (small n inside)).2.1]
  rw [decode, kept, encode, values_digits small, Option.bind_some, octets_sextets]

theorem encode_dot (data : Bytes) : (0x2e : UInt8) ∉ encode data := by
  intro member
  obtain ⟨n, inside, same⟩ := mem_map.mp member
  exact (digit_spec n (sextets_small data n inside)).2.2 same

theorem encode_nonempty {data : Bytes} (nonempty : data ≠ []) : encode data ≠ [] := by
  fun_cases sextets data <;> simp_all [encode, sextets]

end PieRelay.Base64Url
