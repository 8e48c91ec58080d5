import Mathlib.Algebra.Ring.Nat
import PieRelay.JsonObjects
import PieRelay.RoomRegistry

/-!
The frames of server/internal/relay/server.go: how the relay looks into a participant's
message, how it rewrites one, and the frames it writes itself. Only the top-level object
of a message is read; nested values stay raw. A struct is marshalled in the order of its
fields, a map in the order of its keys.
-/
namespace PieRelay.RelayFrames
open JsonScanner JsonStrings JsonObjects RoomRegistry

def peekMessageType (data : Bytes) : String := peekStringField data "type"

def injectFrom (data : Bytes) (sub : String) : Option Bytes :=
  (unmarshalObject data).map fun fields =>
    marshalObject (setField (objectOf fields) "from" (quoteString sub))

def guestUnsafeFields : List String :=
  ["permissionMode", "claudePath", "systemPrompt", "disallowedTools", "cwd", "projectPath"]

def participantInputTypes : List String :=
  ["chat", "pty_input", "pty_resize", "set_driver", "driver_request", "driver_heartbeat",
    "permission_response", "abort"]

def sanitizeGuest (data : Bytes) : Bytes :=
  match unmarshalObject data with
  | none => data
  | some fields =>
    let object := objectOf fields
    if guestUnsafeFields.any fun name => (object.lookup name).isSome then
      marshalObject (guestUnsafeFields.foldl deleteField object)
    else data

def escape : Char := Char.ofNat 0x1b

def digits (text : List Char) : List Char × List Char := text.span Char.isDigit

def atoi (text : List Char) : Option Nat :=
  let value := text.foldl (fun value c => value * 10 + (c.toNat - 48)) 0
  if value < 2 ^ 63 then some value else none

/-- The first submatch of `sgrScrollSequence`, an escape, [<, three numbers between
    semicolons and an M or m at the very end. -/
def sgrScrollSequence (text : List Char) : Option (List Char) :=
  match text with
  | c :: '[' :: '<' :: rest =>
    match digits rest with
    | (button, ';' :: rest) =>
      match digits rest with
      | (column, ';' :: rest) =>
        match digits rest with
        | (row, [final]) =>
          if c = escape ∧ button ≠ [] ∧ column ≠ [] ∧ row ≠ [] ∧ (final = 'M' ∨ final = 'm')
          then some button else none
        | _ => none
      | _ => none
    | _ => none
  | _ => none

def validPtyScrollMessage (data : Bytes) : Bool :=
  let sequence := (peekStringField data "data").toList
  match sgrScrollSequence sequence with
  | some button =>
    match atoi button with
    | some button => button &&& 0x40 ≠ 0
    | none => false
  | none =>
    match sequence with
    -- The older report: the button is one character, offset by 32 in a 32-bit rune.
    | [first, '[', 'M', button, _, _] =>
      first = escape && (BitVec.ofNat 32 button.toNat - 32#32) &&& 0x40#32 ≠ 0#32
    | [first, second, third] =>
      first = escape && (second = 'O' || second = '[') && (third = 'A' || third = 'B')
    | _ => false

def peerChatMsg (sub : String) (data : Bytes) : Bytes :=
  let object := ((unmarshalObject data).map objectOf).getD []
  let text := (object.lookup "prompt").or (object.lookup "text")
  writeObject ([("type", quoteString "peer_chat"), ("from", quoteString sub)] ++
    (text.map fun raw => ("text", compact raw)).toList)

def setDriverMsg (target : String) : Bytes :=
  writeObject [("type", quoteString "set_driver"), ("target", quoteString target),
    ("driver", quoteString target)]

def number (n : Int) : Bytes := (toString n).toList.map fun c => UInt8.ofNat c.toNat

def unixEpochMillis : Int := 62135596800000

def leaseExpiryMillis (lease : DriverLease) : Int :=
  if lease.expiresAt = 0 then 0 else lease.expiresAt / 1000000 - unixEpochMillis

def driverStateMsg (lease : DriverLease) : Bytes :=
  let expiresAt := leaseExpiryMillis lease
  writeObject ([("type", quoteString "driver_state"), ("driver", quoteString lease.userID),
    ("generation", number lease.generation)] ++
    if expiresAt = 0 then [] else [("expiresAt", number expiresAt)])

def driverErrorMsg : Bytes :=
  writeObject [("type", quoteString "driver_error"),
    ("reason", quoteString "target-not-present-or-control-disabled")]

def agentUnavailableMsg : Bytes :=
  writeObject [("type", quoteString "agent:unavailable"), ("reason", quoteString "no-agent-connected")]

def OneType (data : Bytes) : Prop :=
  ∀ fields, unmarshalObject data = some fields →
    textField fields "type" = textField (objectOf fields) "type"

variable {data : Bytes} {name : String}

/-! A rewritten message keeps every text member that the rewriting does not name, for a
reader that takes the whole object. -/

theorem frame_read {fields : Fields} (read : unmarshalObject data = some fields)
    (name : String) : frameField data name = textField (objectOf fields) name := by
  simp [frameField, read]

-- What the relay peeks is what a reader of the whole object finds.
theorem peek_one_type {fields : Fields} (read : unmarshalObject data = some fields)
    (single : OneType data) : peekMessageType data = frameField data "type" := by
  rw [frame_read read, ← single fields read]
  exact peek_object read "type"

theorem inject_field {injected : Bytes} {sub : String}
    (rewritten : injectFrom data sub = some injected) (kept : "from" ≠ name) :
    frameField injected name = frameField data name := by
  obtain ⟨fields, read, rfl⟩ := Option.map_eq_some_iff.mp rewritten
  rw [marshal_field (set_formed (object_formed read) "from" sub), set_text _ _ kept, frame_read read]

theorem deletes_formed {object : Fields} (formed : WellFormed object) (names : List String) :
    WellFormed (names.foldl deleteField object) := by
  induction names generalizing object with
  | nil => exact formed
  | cons name names ih => exact ih (delete_formed formed name)

theorem deletes_text (object : Fields) (names : List String) (kept : name ∉ names) :
    textField (names.foldl deleteField object) name = textField object name := by
  induction names generalizing object with
  | nil => rfl
  | cons removed names ih =>
    have apart := not_or.mp (fun known => kept (List.mem_cons.mpr known))
    rw [List.foldl_cons, ih _ apart.2, delete_text object (Ne.symm apart.1)]

theorem sanitize_field (data : Bytes) (kept : name ∉ guestUnsafeFields) :
    frameField (sanitizeGuest data) name = frameField data name := by
  unfold sanitizeGuest
  split
  · rfl
  · rename_i read
    dsimp only
    split
    · rw [marshal_field (deletes_formed (object_formed read) guestUnsafeFields), deletes_text _ _ kept, frame_read read]
    · rfl

theorem set_driver_type (target : String) : frameField (setDriverMsg target) "type" = "set_driver" := by
  have read : unmarshalObject (setDriverMsg target) = some _ := read_object _ (by
    simp only [List.mem_cons, List.not_mem_nil, or_false]
    rintro field (rfl | rfl | rfl) <;> exact quote_solid _ _)
  have distinct : Distinct [("type", quoteString "set_driver"), ("target", quoteString target),
      ("driver", quoteString target)] := by
    simp [Distinct]
  rw [frame_read read, distinct_object distinct, text_field_cons, if_pos rfl, quote_literal]

-- Every command names its kind, also the one that carries the operator's name.
theorem set_driver_injected (target sub : String) : ∃ command, injectFrom (setDriverMsg target) sub = some command ∧
      frameField command "type" = "set_driver" := by
  cases rewritten : injectFrom (setDriverMsg target) sub with
  | none =>
    have failed : unmarshalObject (setDriverMsg target) = none := Option.map_eq_none_iff.mp rewritten
    have known := set_driver_type target
    simp [frameField, failed] at known
  | some command =>
    refine ⟨command, rfl, ?_⟩
    rw [inject_field rewritten (by decide), set_driver_type]

end PieRelay.RelayFrames
