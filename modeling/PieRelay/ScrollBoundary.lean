import PieRelay.ParticipantRouting
import PieRelay.ScrollFrames

/-!
What a participant can have the host read as a scroll. `routeFromParticipant` looks at the first members of the names
`type` and `data`; whoever reads the frame that it forwards takes the last ones.
-/
namespace PieRelay.ScrollBoundary
open JsonObjects JsonScanner JsonStrings ParticipantRouting RelayFrames RoomRegistry List
open ScrollFrames (digitsValue runeNumbers validScroll wheel)
variable {Sender : Type} [DecidableEq Sender]

def Digits (text : List Char) : Prop := text ≠ [] ∧ ∀ c ∈ text, c.isDigit

/-- A wheel report of xterm, in one of its two forms, or a key of the alternate screen. -/
def ScrollReport (text : List Char) : Prop :=
  (∃ button column row final, Digits button ∧ Digits column ∧ Digits row ∧ (final = 'M' ∨ final = 'm') ∧
      text = [escape, '[', '<'] ++ button ++ ';' :: column ++ ';' :: row ++ [final] ∧
      (digitsValue (button.map Char.toNat)).testBit 6) ∨
    (∃ button column row, text = [escape, '[', 'M', button, column, row] ∧ wheel button.toNat) ∨
    text = [escape, 'O', 'A'] ∨ text = [escape, 'O', 'B'] ∨ text = [escape, '[', 'A'] ∨ text = [escape, '[', 'B']

/-- Whoever sends the frame, the host is not forwarded anything but scrolls for a scroll. -/
def ScrollsOnly (Sender : Type) [DecidableEq Sender] (data : Bytes) : Prop :=
  ∀ (reg : Registry Sender) (clock : Nat → Time) (room sub role access : String) (self h : Sender) (frame : Bytes),
    ⟨.host h, frame⟩ ∈ (routeFromParticipant reg clock room sub role access self data).2 →
      frameField frame "type" = "pty_scroll" → ScrollReport (frameField frame "data").toList

def keptTypes : List String := ["room_chat", "driver_request", "driver_heartbeat", "set_driver"]

def Smuggled (data : Bytes) : Prop :=
  frameField data "type" = "pty_scroll" ∧ ¬ ScrollReport (frameField data "data").toList ∧
    peekMessageType data ∉ keptTypes ∧ (peekMessageType data = "pty_scroll" → validPtyScrollMessage data)

section Check

variable {text : List Char}

theorem span_digits {digits rest : List Char} (parts : text.span Char.isDigit = (digits, rest)) :
    text = digits ++ rest ∧ ∀ c ∈ digits, c.isDigit := by
  rw [span_eq_takeWhile_dropWhile] at parts
  obtain ⟨rfl, rfl⟩ := Prod.mk.inj parts
  exact ⟨takeWhile_append_dropWhile.symm, fun c member => mem_takeWhile_imp (p := Char.isDigit) member⟩

theorem rune_numbers {button : List Char} (known : runeNumbers text = some button) :
    ∃ column row final, Digits button ∧ Digits column ∧ Digits row ∧ (final = 'M' ∨ final = 'm') ∧
      text = button ++ ';' :: column ++ ';' :: row ++ [final] := by
  unfold runeNumbers at known
  split at known
  · next parts =>
    split at known
    · next second rest' parts' =>
      split at known
      · next third final parts'' =>
        obtain ⟨rfl, one⟩ := span_digits parts
        obtain ⟨rfl, two⟩ := span_digits parts'
        obtain ⟨rfl, three⟩ := span_digits parts''
        split at known
        · next all =>
          cases known
          refine ⟨second, third, final, ⟨all.1, one⟩, ⟨all.2.1, two⟩, ⟨all.2.2.1, three⟩, all.2.2.2, ?_⟩
          simp only [append_assoc, cons_append]
        · cases known
      · cases known
    · cases known
  · cases known

theorem sgr_numbers {button : List Char} (matched : sgrScrollSequence text = some button) :
    ∃ rest, text = escape :: '[' :: '<' :: rest ∧ runeNumbers rest = some button := by
  have shape := matched
  unfold sgrScrollSequence at shape
  split at shape
  · next rest =>
    rw [ScrollFrames.sgr_head] at matched
    split at matched
    · next first => exact ⟨rest, by rw [first], matched⟩
    · cases matched
  · cases shape

theorem valid_report (valid : validScroll text) : ScrollReport text := by
  cases matched : sgrScrollSequence text with
  | none =>
    rcases (ScrollFrames.wheel_report_iff matched).mp valid with report | ⟨second, third, rfl, up, down⟩
    · exact .inr (.inl report)
    · right
      right
      rcases up with rfl | rfl <;> rcases down with rfl | rfl <;> simp
  | some button =>
    obtain ⟨rest, rfl, numbers⟩ := sgr_numbers matched
    obtain ⟨column, row, final, one, two, three, last, rfl⟩ := rune_numbers numbers
    refine .inl ⟨button, column, row, final, one, two, three, last, ?_, ?_⟩
    · simp only [cons_append, nil_append, append_assoc]
    · unfold validScroll at valid
      rw [matched] at valid
      dsimp only at valid
      rw [ScrollFrames.atoi_value] at valid
      by_cases small : digitsValue (button.map Char.toNat) < 2 ^ 63
      · rw [if_pos small] at valid
        exact (ScrollFrames.and_wheel _).mp (of_decide_eq_true valid)
      · rw [if_neg small] at valid
        cases valid

end Check

section Way
variable {reg : Registry Sender} {clock : Nat → Time} {room sub role access : String} {self h : Sender}
  {data frame : Bytes}

section
variable (sent : ⟨.host h, frame⟩ ∈ (routeFromParticipant reg clock room sub role access self data).2)
include sent

/-- What reaches the host has not been answered before, and is no scroll that has been refused. -/
theorem gates_passed : peekMessageType data ≠ "driver_heartbeat" ∧
      (peekMessageType data = "pty_scroll" → validPtyScrollMessage data) := by
  unfold routeFromParticipant at sent
  dsimp only at sent
  split at sent
  · contradiction
  split at sent
  · contradiction
  next unrefused =>
    have valid : peekMessageType data = "pty_scroll" → validPtyScrollMessage data := fun scroll =>
      Bool.not_eq_false _ ▸ fun refused => unrefused ⟨scroll, refused⟩
    split at sent
    next pressed =>
      refine ⟨fun beat => ?_, valid⟩
      rw [beat] at pressed
      exact absurd pressed (by decide)
    · split at sent
      · split at sent
        · split at sent
          · contradiction
          · simp at sent
        · contradiction
      next unbeaten => exact ⟨unbeaten, valid⟩

theorem forwarded_fields (scroll : frameField frame "type" = "pty_scroll") :
    peekMessageType data ∉ keptTypes ∧ frameField data "type" = "pty_scroll" ∧
      frameField frame "data" = frameField data "data" := by
  obtain ⟨unbeaten, _⟩ := gates_passed sent
  obtain ⟨_, _, parsed⟩ := routed_host sent
  obtain ⟨fields, injected, read, same, routed⟩ := parsed_host parsed
  rcases injected_host routed with ⟨_, _, _, rfl⟩ | ⟨_, _, target, rfl⟩ | ⟨rfl, passed, _⟩
  · rw [set_driver_type] at scroll
    exact absurd scroll (by decide)
  · obtain ⟨command, rewritten, kind⟩ := set_driver_injected target sub
    rw [rewritten, Option.getD_some, kind] at scroll
    exact absurd scroll (by decide)
  · refine ⟨?_, same "type" (by decide) (by decide) ▸ scroll, same "data" (by decide) (by decide)⟩
    simp only [keptTypes, mem_cons, not_mem_nil, or_false, not_or] at passed ⊢
    exact ⟨passed.1, passed.2.1, unbeaten, passed.2.2⟩

end

end Way

def operatorRoom (h : Sender) : Registry Sender where
  hosts := fun _ => some h
  hostEpochs := fun _ => 1
  participants := fun _ => none
  drivers := fun _ => some ⟨"op", 1, 1⟩
  driverSeq := fun _ => 1

/-- The operator's messages are forwarded, but for those that are kept, or refused, or no objects. -/
theorem operator_forwards (h : Sender) {data : Bytes} {fields : Fields} (read : unmarshalObject data = some fields)
    (passes : peekMessageType data ∉ keptTypes)
    (valid : peekMessageType data = "pty_scroll" → validPtyScrollMessage data) :
    ∃ frame, injectFrom data "op" = some frame ∧
      ⟨.host h, frame⟩ ∈ (routeFromParticipant (operatorRoom h) (fun _ => 0) "room" "op" roleHost accessControl h data).2 := by
  have rewritten : injectFrom data "op" = some (marshalObject (setField (objectOf fields) "from" (quoteString "op"))) := by
    rw [injectFrom, read]
    rfl
  simp only [keptTypes, mem_cons, not_mem_nil, or_false, not_or] at passes
  obtain ⟨unsaid, unrequested, unbeaten, unassigned⟩ := passes
  refine ⟨_, rewritten, ?_⟩
  have parsed : ⟨.host h, marshalObject (setField (objectOf fields) "from" (quoteString "op"))⟩ ∈
      (routeParsed (operatorRoom h) (fun _ => 0) "room" "op" roleHost accessControl h (peekMessageType data) data).2 := by
    unfold routeParsed
    rw [rewritten]
    dsimp only
    rw [if_neg (not_not_intro rfl), routeInjected, if_neg unsaid, if_neg unrequested, if_neg unassigned]
    split
    · rw [if_neg (not_not_intro rfl)]
      exact mem_singleton_self _
    · exact mem_cons_self
  have unviewed : ¬ (accessControl = accessView ∧ peekMessageType data ∈ participantInputTypes) := fun viewed =>
    absurd viewed.1 (by decide)
  have unrefused : ¬ (peekMessageType data = "pty_scroll" ∧ validPtyScrollMessage data = false) := fun refused => by
    rw [valid refused.1] at refused
    cases refused.2
  unfold routeFromParticipant
  dsimp only
  rw [if_neg unviewed, if_neg unrefused]
  by_cases pressed : peekMessageType data = "pty_input" ∨ peekMessageType data = "pty_resize"
  · rw [if_pos pressed]
    exact parsed
  · rw [if_neg pressed, if_neg unbeaten]
    exact parsed

/-- Only scrolls are forwarded for scrolls exactly where no scroll is smuggled, which takes two members of the name `type`
    or `data` that differ. -/
theorem scrolls_only_iff [Inhabited Sender] (data : Bytes) : (ScrollsOnly Sender data ↔ ¬ Smuggled data) ∧
      (Smuggled data → peekMessageType data ≠ frameField data "type" ∨
        peekStringField data "data" ≠ frameField data "data") := by
  refine ⟨⟨fun only smuggled => ?_, fun clean reg clock room sub role access self h frame sent scroll => ?_⟩, fun smuggled => ?_⟩
  · obtain ⟨scroll, unfit, passes, valid⟩ := smuggled
    cases read : unmarshalObject data with
    | none =>
      rw [frameField, read] at scroll
      exact absurd scroll (by decide)
    | some =>
      obtain ⟨frame, rewritten, sent⟩ := operator_forwards (default : Sender) read passes valid
      have type := inject_field rewritten (show "from" ≠ "type" by decide)
      have text := inject_field rewritten (show "from" ≠ "data" by decide)
      have report := only _ _ _ _ _ _ _ _ _ sent (type.trans scroll)
      rw [text] at report
      exact unfit report
  · obtain ⟨passes, type, text⟩ := forwarded_fields sent scroll
    by_contra unfit
    rw [text] at unfit
    exact clean ⟨type, unfit, passes, (gates_passed sent).2⟩
  · obtain ⟨scroll, unfit, _, valid⟩ := smuggled
    by_contra same
    rw [not_or, not_not, not_not] at same
    have checked := valid (same.1.trans scroll)
    rw [ScrollFrames.valid_scroll, same.2] at checked
    exact unfit (valid_report checked)

def twoTexts : Bytes := writeObject
  [("type", quoteString "pty_scroll"), ("data", quoteString "\x1b[A"), ("data", quoteString "rm -r .\r")]

def twoTypes : Bytes := writeObject
  [("type", quoteString "request_screen"), ("type", quoteString "pty_scroll"), ("data", quoteString "rm -r .\r")]

/-- A spectator has the host read a command for a scroll. -/
theorem spectator_types : (∃ frame, ⟨.host 1, frame⟩ ∈
        (routeFromParticipant (guestRoom none) (fun _ => 50) "room" "eve" roleParticipant accessView 3 twoTexts).2 ∧
      frameField frame "type" = "pty_scroll" ∧ frameField frame "data" = "rm -r .\r" ∧
      ¬ ScrollReport (frameField frame "data").toList) ∧
    ∃ frame, ⟨.host 1, frame⟩ ∈
        (routeFromParticipant (guestRoom none) (fun _ => 50) "room" "eve" roleParticipant accessView 3 twoTypes).2 ∧
      frameField frame "type" = "pty_scroll" ∧ frameField frame "data" = "rm -r .\r" ∧
      ¬ ScrollReport (frameField frame "data").toList := by
  have unfit : ¬ ScrollReport "rm -r .\r".toList := by
    rintro (⟨button, column, row, final, _, _, _, _, same, _⟩ | ⟨button, column, row, same, _⟩ | same | same | same | same)
    · cases (cons.inj same).1
    all_goals exact absurd (cons.inj same).1 (by decide)
  refine ⟨⟨_, mem_singleton.mpr rfl, rfl, ?_, ?_⟩, ⟨_, mem_singleton.mpr rfl, rfl, ?_, ?_⟩⟩
  · rfl
  · exact unfit
  · rfl
  · exact unfit

end PieRelay.ScrollBoundary
