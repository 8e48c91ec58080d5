import PieRelay.JsonObjects

/-!
Go strings, which are any bytes, in JSON texts. `range` reads them rune by rune and takes a byte that starts no
rune for U+FFFD; `json.Marshal` writes the runes, and that byte as an escape. Reading the text again gives the
string back exactly where it is UTF-8.
-/
namespace PieRelay.GoStrings
open JsonScanner JsonStrings JsonObjects List

def runes : Nat → Bytes → List Char
  | _, [] => []
  | skip + 1, _ :: rest => runes skip rest
  | 0, c :: rest => (decodeRune c rest).1 :: runes (decodeRune c rest).2 rest

def ofRunes (text : List Char) : Bytes := text.flatMap String.utf8EncodeChar

def cleaned (text : Bytes) : Bytes := ofRunes (runes 0 text)

def validString (text : Bytes) : Bool := cleaned text = text

def badByte (c : UInt8) (rest : Bytes) : Bool :=
  (decodeRune c rest).1 = replacement ∧ (decodeRune c rest).2 = 0 ∧ 0x80 ≤ c

def quoteBody : Nat → Bytes → Bytes
  | _, [] => []
  | skip + 1, _ :: rest => quoteBody skip rest
  | 0, c :: rest =>
    (if badByte c rest then unicodeEscape replacement.toNat else quoteChar (decodeRune c rest).1) ++
      quoteBody (decodeRune c rest).2 rest

def quoteBytes (text : Bytes) : Bytes := quote :: (quoteBody 0 text ++ [quote])

def unquoteBytes (raw : Bytes) : Bytes := ofRunes (unquote raw).toList

theorem spells_replacement : Spells (unicodeEscape replacement.toNat) replacement := by
  intro rest literal
  constructor
  · exact .unicode _ _ _ _ rest rfl rfl rfl rfl literal
  · have digits := getu4_escape replacement.toNat (by decide) rest
    have high : isHighSurrogate replacement.toNat = false := by decide
    have low : isLowSurrogate replacement.toNat = false := by decide
    have whole : Char.ofNat replacement.toNat = replacement := Char.ofNat_toNat replacement
    generalize replacement.toNat = n at digits high low whole ⊢
    simp [unicodeEscape, unquoteFrom, backslash_open, readEscape, digits, high, low, whole]

theorem quote_body_literal (skip : Nat) (text : Bytes) : Literal (quoteBody skip text ++ [quote]) ∧
    unquoteFrom 0 (quoteBody skip text ++ [quote]) = runes skip text := by
  induction text generalizing skip with
  | nil => cases skip <;> exact ⟨.close, rfl⟩
  | cons c rest ih =>
    cases skip with
    | succ skip => exact ih skip
    | zero =>
      have spelled : Spells (if badByte c rest then unicodeEscape replacement.toNat
          else quoteChar (decodeRune c rest).1) (decodeRune c rest).1 := by
        split
        · next bad =>
          have same := (of_decide_eq_true bad).1
          rw [same]
          exact spells_replacement
        · exact quote_char_spells (decodeRune c rest).1
      obtain ⟨literal, read⟩ := ih (decodeRune c rest).2
      obtain ⟨whole, first⟩ := spelled _ literal
      rw [quoteBody, append_assoc]
      exact ⟨whole, by rw [first, read]; rfl⟩

theorem unquote_quoted (text : Bytes) : unquoteBytes (quoteBytes text) = cleaned text := by
  rw [unquoteBytes, quoteBytes, unquote, (quote_body_literal 0 text).2, String.toList_ofList]
  rfl

theorem quote_bytes_solid (limit : Nat) (text : Bytes) : Solid limit (quoteBytes text) := by
  intro sep tail _
  have literal := (quote_body_literal 0 text).1
  have opened : step limit ⟨.beginValue, []⟩ quote = .next ⟨.inString, []⟩ := rfl
  rw [quoteBytes, scanValue, cons_append, skip_space_head rfl, scan_next opened, literal_scan limit literal]
  rfl

theorem quote_bytes_head (text : Bytes) : (quoteBytes text).head? = some quote := rfl

/-- A literal has no byte below the blank. -/
theorem literal_printable {raw : Bytes} (literal : Literal raw) : ∀ c ∈ raw, ¬ c < 0x20 := by
  have hex : ∀ k, k < 256 → isHex (UInt8.ofNat k) → ¬ UInt8.ofNat k < 0x20 := by decide +kernel
  have short : ∀ k, k < 256 → isShortEscape (UInt8.ofNat k) → ¬ UInt8.ofNat k < 0x20 := by decide +kernel
  have digit (c : UInt8) (known : isHex c) : ¬ c < 0x20 := by
    have here := hex c.toNat c.toNat_lt
    rw [UInt8.ofNat_toNat] at here
    exact here known
  induction literal with
  | close =>
    intro c member
    rcases mem_singleton.mp member with rfl
    decide
  | plain c rest unquoted unescaped printable tail ih =>
    exact forall_mem_cons.mpr ⟨printable, ih⟩
  | short c rest known tail ih =>
    have here := short c.toNat c.toNat_lt
    rw [UInt8.ofNat_toNat] at here
    exact forall_mem_cons.mpr ⟨by decide, forall_mem_cons.mpr ⟨here known, ih⟩⟩
  | unicode a b c d rest first second third fourth tail ih =>
    refine forall_mem_cons.mpr ⟨by decide, forall_mem_cons.mpr ⟨by decide, ?_⟩⟩
    refine forall_mem_cons.mpr ⟨digit a first, forall_mem_cons.mpr ⟨digit b second, ?_⟩⟩
    exact forall_mem_cons.mpr ⟨digit c third, forall_mem_cons.mpr ⟨digit d fourth, ih⟩⟩

theorem quote_bytes_printable (text : Bytes) : ∀ c ∈ quoteBytes text, ¬ c < 0x20 :=
  forall_mem_cons.mpr ⟨by decide, literal_printable (quote_body_literal 0 text).1⟩

end PieRelay.GoStrings
