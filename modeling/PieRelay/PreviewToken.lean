import PieRelay.Base64Url
import PieRelay.JsonNumbers
import PieRelay.PreviewRecords
import PieRelay.RelayToken

/-!
Access tokens of previews: `Issue` and `Verify` of executor-manager/internal/previewtoken/token.go,
with the JSON and base64 texts they write and read. The keyed hash is a parameter, and so is the
nonce that `Issue` draws. A payload that is not a JSON object is refused at once; Go would go on
with empty claims for null and refuse those.
-/
namespace PieRelay.PreviewToken
open JsonNumbers JsonObjects List Option
open JsonScanner (Bytes quote openBrace closeBrace maxNestingDepth)
open JsonStrings (unquote quoteString quoted_literal)
open PreviewRecords (toLower trimSpace)
open RelayToken (Secret second)
open RoomRegistry (Time)

def audience : String := "pie-preview"

structure Claims where
  audience : String
  type : String
  previewID : String
  hostname : String
  accessVersion : Int
  nonce : String
  expiresAt : Int
  deriving DecidableEq

def zeroClaims : Claims := ⟨"", "", "", "", 0, "", 0⟩

def fieldsOf (claims : Claims) : Fields :=
  [("aud", quoteString claims.audience), ("typ", quoteString claims.type),
    ("previewId", quoteString claims.previewID), ("hostname", quoteString claims.hostname)] ++
  (if claims.accessVersion = 0 then [] else [("accessVersion", writeInt claims.accessVersion)]) ++
  [("nonce", quoteString claims.nonce), ("exp", writeInt claims.expiresAt)]

def marshalClaims (claims : Claims) : Bytes := writeObject (fieldsOf claims)

/-- Letters as they are compared in names; only these two others fold to an ASCII letter. -/
def fold (c : Char) : Char :=
  if c.toNat = 0x17f then 's' else if c.toNat = 0x212a then 'k' else c.toLower

def equalFold (left right : String) : Bool := left.toList.map fold = right.toList.map fold

def memberNames : List String := ["aud", "typ", "previewId", "hostname", "accessVersion", "nonce", "exp"]

def memberNamed (name : String) : Option String :=
  (memberNames.find? fun known => known = name).or (memberNames.find? fun known => equalFold known name)

def null : Bytes := [0x6e, 0x75, 0x6c, 0x6c]

def textMember (raw : Bytes) (old : String) : Option String :=
  if raw.head? = some quote then some (unquote raw) else if raw = null then some old else none

def intMember (raw : Bytes) (old : Int) : Option Int :=
  match readInt raw with
  | some n => some n
  | none => if raw = null then some old else none

def setMember (claims : Claims) (member : String × Bytes) : Option Claims :=
  match memberNamed member.1 with
  | some "aud" => (textMember member.2 claims.audience).map fun text => { claims with audience := text }
  | some "typ" => (textMember member.2 claims.type).map fun text => { claims with type := text }
  | some "previewId" => (textMember member.2 claims.previewID).map fun text => { claims with previewID := text }
  | some "hostname" => (textMember member.2 claims.hostname).map fun text => { claims with hostname := text }
  | some "accessVersion" => (intMember member.2 claims.accessVersion).map fun n => { claims with accessVersion := n }
  | some "nonce" => (textMember member.2 claims.nonce).map fun text => { claims with nonce := text }
  | some "exp" => (intMember member.2 claims.expiresAt).map fun n => { claims with expiresAt := n }
  | _ => none

def decodeObject (data : Bytes) : Option Fields := do
  let rest ← expect openBrace data
  let (fields, _) ←
    match expect closeBrace rest with
    | some rest => some ([], rest)
    | none => members (maxNestingDepth - 1) data.length rest
  some fields

def decodeClaims (data : Bytes) : Option Claims := (decodeObject data).bind fun fields =>
  fields.foldlM setMember zeroClaims

abbrev Mac := Secret → Bytes → Bytes

def dot : UInt8 := 0x2e

def unix (time : Time) : Int := time / second

def issuable (secret : Secret) (claims : Claims) (ttl : Time) : Bool :=
  32 ≤ secret.length ∧ 0 < ttl ∧ claims.previewID ≠ "" ∧ claims.hostname ≠ "" ∧
    (claims.type = "launch" ∨ claims.type = "session")

def signedClaims (claims : Claims) (ttl now : Time) (nonce : String) : Claims :=
  { claims with
    audience := audience
    hostname := toLower (trimSpace claims.hostname)
    expiresAt := unix (now + ttl)
    nonce := if claims.nonce = "" then nonce else claims.nonce }

def issue (mac : Mac) (secret : Secret) (claims : Claims) (ttl now : Time) (nonce : String) : Option Bytes :=
  if issuable secret claims ttl then
    let encoded := Base64Url.encode (marshalClaims (signedClaims claims ttl now nonce))
    some (encoded ++ dot :: Base64Url.encode (mac secret encoded))
  else none

def parts (token : Bytes) : Option (Bytes × Bytes) :=
  if token.count dot = 1 then some (token.takeWhile (· ≠ dot), (token.dropWhile (· ≠ dot)).tail) else none

def validClaims (expectedType : String) (now : Time) (claims : Claims) : Bool :=
  claims.audience = audience ∧ claims.type = expectedType ∧ claims.previewID ≠ "" ∧ claims.hostname ≠ "" ∧
    claims.nonce ≠ "" ∧ unix now < claims.expiresAt

def verify (mac : Mac) (secret : Secret) (token : Bytes) (expectedType : String) (now : Time) : Option Claims := do
  guard (32 ≤ secret.length)
  let (encoded, signed) ← parts token
  guard (encoded ≠ [] ∧ signed ≠ [])
  let signature ← Base64Url.decode signed
  guard (signature = mac secret encoded)
  let payload ← Base64Url.decode encoded
  (decodeClaims payload).filter (validClaims expectedType now)

theorem text_member (text old : String) : textMember (quoteString text) old = some text := by
  have quoted : (quoteString text).head? = some quote := rfl
  rw [textMember, if_pos quoted, (quoted_literal text).2]

theorem write_int_not_null (n : Int) : writeInt n ≠ null := by
  intro same
  have read := read_write_signed n
  rw [same] at read
  cases read

theorem int_member (n old : Int) : intMember (writeInt n) old = if int64 n then some n else none := by
  unfold intMember readInt
  rw [read_write_signed, Option.filter]
  by_cases fits : int64 n
  · rw [if_pos (decide_eq_true fits), if_pos fits]
  · rw [if_neg fun passed => fits (of_decide_eq_true passed), if_neg fits]
    exact if_neg (write_int_not_null n)

theorem decode_object {data : Bytes} {fields : Fields} (read : unmarshalObject data = some fields) :
    decodeObject data = some fields := by
  unfold unmarshalObject at read
  obtain ⟨behind, opened, inner⟩ := bind_eq_some_iff.mp read
  cases closed : expect closeBrace behind with
  | some =>
    simp only [closed, bind, bind_some, ite_none_right_eq_some] at inner
    simp only [decodeObject, bind, opened, closed, bind_some]
    exact inner.2
  | none =>
    simp only [closed] at inner
    obtain ⟨⟨found, rest⟩, listed, ended⟩ := bind_eq_some_iff.mp inner
    obtain ⟨-, same⟩ := ite_none_right_eq_some.mp ended
    simp only [decodeObject, bind, opened, closed, listed, bind_some]
    exact same

theorem fields_solid (claims : Claims) : ∀ field ∈ fieldsOf claims, Solid (maxNestingDepth - 1) field.2 := by
  intro field member
  simp only [fieldsOf, mem_append, mem_cons, not_mem_nil, or_false] at member
  rcases member with ((rfl | rfl | rfl | rfl) | version) | (rfl | rfl)
  · exact quote_solid _ _
  · exact quote_solid _ _
  · exact quote_solid _ _
  · exact quote_solid _ _
  · split at version
    · cases version
    · cases mem_singleton.mp version
      exact int_solid _ _
  · exact quote_solid _ _
  · exact int_solid _ _

theorem decode_marshal (claims : Claims) : decodeClaims (marshalClaims claims) =
    if int64 claims.accessVersion ∧ int64 claims.expiresAt then some claims else none := by
  rw [decodeClaims, marshalClaims, decode_object (read_object (fieldsOf claims) (fields_solid claims)), bind_some]
  unfold fieldsOf
  have aud : memberNamed "aud" = some "aud" := by decide +kernel
  have typ : memberNamed "typ" = some "typ" := by decide +kernel
  have previewId : memberNamed "previewId" = some "previewId" := by decide +kernel
  have hostname : memberNamed "hostname" = some "hostname" := by decide +kernel
  have accessVersion : memberNamed "accessVersion" = some "accessVersion" := by decide +kernel
  have nonce : memberNamed "nonce" = some "nonce" := by decide +kernel
  have exp : memberNamed "exp" = some "exp" := by decide +kernel
  obtain ⟨audience, type, previewID, host, access, nonceText, expiresAt⟩ := claims
  dsimp only
  split
  · next zero =>
    subst zero
    have small : int64 0 := by decide
    simp only [append_nil, cons_append, nil_append, foldlM_cons, foldlM_nil, setMember,
      aud, typ, previewId, hostname, nonce, exp, text_member, int_member, zeroClaims, map_some, bind,
      bind_some, small, true_and]
    split <;> rfl
  · simp only [cons_append, nil_append, foldlM_cons, foldlM_nil, setMember, aud, typ, previewId,
      hostname, accessVersion, nonce, exp, text_member, int_member, zeroClaims, map_some, bind,
      bind_some]
    by_cases version : int64 access
    · by_cases expiry : int64 expiresAt
      · simp [version, expiry]
      · simp [version, expiry]
    · simp [version]

theorem issued_parts (encoded signed : Bytes) (first : dot ∉ encoded) (second : dot ∉ signed) :
    parts (encoded ++ dot :: signed) = some (encoded, signed) := by
  have one : (encoded ++ dot :: signed).count dot = 1 := by
    rw [count_append, count_cons_self, count_eq_zero.mpr first, count_eq_zero.mpr second]
  have apart : ∀ c ∈ encoded, decide (c ≠ dot) := by
    intro c inside
    refine decide_eq_true ?_
    rintro rfl
    exact first inside
  have front : (encoded ++ dot :: signed).takeWhile (· ≠ dot) = encoded := by
    rw [takeWhile_append_of_pos apart]
    simp
  have back : (encoded ++ dot :: signed).dropWhile (· ≠ dot) = dot :: signed := by
    rw [dropWhile_append_of_pos apart]
    simp
  rw [parts, if_pos one, front, back]
  rfl

/-- Who verifies an issued token reads the claims that were signed. -/
theorem verify_issued {mac : Mac} {secret : Secret} {claims read : Claims} {ttl now later : Time} {nonce : String}
    {expectedType : String} {token : Bytes} (issued : issue mac secret claims ttl now nonce = some token)
    (verified : verify mac secret token expectedType later = some read) :
    read = signedClaims claims ttl now nonce ∧ validClaims expectedType later read := by
  unfold issue at issued
  split at issued
  · cases issued
    have split := issued_parts (Base64Url.encode (marshalClaims (signedClaims claims ttl now nonce))) _
      (Base64Url.encode_dot _) (Base64Url.encode_dot (mac secret
        (Base64Url.encode (marshalClaims (signedClaims claims ttl now nonce)))))
    simp only [verify, split, bind, bind_eq_some_iff, some.injEq] at verified
    obtain ⟨-, -, ⟨encoded, signed⟩, same, -, -, signature, -, -, -, payload, decoded, accepted⟩ := verified
    cases same
    rw [Base64Url.decode_encode] at decoded
    cases decoded
    obtain ⟨written, valid⟩ := filter_eq_some_iff.mp accepted
    rw [decode_marshal] at written
    split at written
    · cases written
      exact ⟨rfl, valid⟩
    · cases written
  · cases issued

end PieRelay.PreviewToken
