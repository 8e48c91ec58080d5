import PieRelay.JsonRecords
import PieRelay.ParticipantRouting

/-!
The frames that `routeFromParticipant` derives from a participant's message: who sent it is put in, and what a guest must
not say is taken out. Each is read back as the members of the message, and is one line.
-/
namespace PieRelay.IdentityInjection
open JsonObjects JsonRecords JsonScanner JsonStrings ParticipantRouting RelayFrames RoomRegistry List Option
variable {Sender : Type} [DecidableEq Sender]

def objectWithin (limit : Nat) (data : Bytes) : Option Fields := do
  let rest ← expect openBrace data
  let (fields, rest) ←
    match expect closeBrace rest with
    | some rest => some ([], rest)
    | none => members (limit - 1) data.length rest
  if skipSpace rest = [] then some fields else none

def IsObject (data : Bytes) : Prop := ∃ limit, (objectWithin limit data).isSome

def derived (role sub : String) (data : Bytes) : Option Bytes :=
  (injectFrom data sub).map fun injected => if role ≠ roleHost then sanitizeGuest injected else injected

def lastOf (fields : Fields) (name : String) : Option Bytes := fields.reverse.lookup name

def Allowed (role name : String) : Prop := role = roleHost ∨ name ∉ guestUnsafeFields

/-- The members `out` of a frame derived from a message with the members `fields`. -/
structure Identified (role sub : String) (fields out : Fields) : Prop where
  distinct : Distinct out
  sender : ∃ raw, ("from", raw) ∈ out ∧ sameValue raw (quoteString sub) ∧ literalString raw = sub
  allowed : ∀ field ∈ out, Allowed role field.1
  kept : ∀ name given, name ≠ "from" → Allowed role name → lastOf fields name = some given →
    ∃ raw, (name, raw) ∈ out ∧ sameValue raw given
  given : ∀ field ∈ out, field.1 ≠ "from" → ∃ given, lastOf fields field.1 = some given ∧ sameValue field.2 given

def Echo (sub : String) (fields out : Fields) : Prop :=
  ∃ text : Option Bytes, out = [("type", quoteString "peer_chat"), ("from", quoteString sub)] ++
      (text.map fun raw => ("text", raw)).toList ∧
    Rel sameValue text ((lastOf fields "prompt").or (lastOf fields "text"))

def OwnFrame (sub : String) (frame : Bytes) : Prop :=
  (∃ lease, frame = driverStateMsg lease) ∨
    (∃ target, frame = setDriverMsg target ∨ injectFrom (setDriverMsg target) sub = some frame) ∨
    frame = driverErrorMsg ∨ frame = agentUnavailableMsg

section Maps
variable {fields object : Fields} {name : String} {raw : Bytes}

theorem last_cons (field : String × Bytes) (rest : Fields) (name : String) :
    lastOf (field :: rest) name = (lastOf rest name).or (if field.1 = name then some field.2 else none) := by
  rw [lastOf, reverse_cons, lookup_append]
  refine congrArg (Option.or _) ?_
  rw [lookup_cons]
  by_cases same : field.1 = name
  · rw [if_pos same, beq_iff_eq.mpr same.symm]
  · rw [if_neg same, beq_eq_false_iff_ne.mpr (Ne.symm same)]
    rfl

theorem last_none (fields : Fields) (name : String) : lastOf fields name = none ↔ ∀ field ∈ fields, field.1 ≠ name := by
  rw [lastOf, lookup_eq_none_iff]
  simp only [mem_reverse, bne_iff_ne, ne_eq]
  exact forall₂_congr fun field _ => not_congr eq_comm

/-- A decoded map has the last member of each name. -/
theorem object_last : (name, raw) ∈ objectOf fields ↔ lastOf fields name = some raw := by
  induction fields with
  | nil => exact iff_of_false not_mem_nil (some_ne_none raw).symm
  | cons field rest ih =>
    rw [last_cons, objectOf]
    split
    next repeated =>
      obtain ⟨other, member, same⟩ := any_eq_true.mp repeated
      have same' : other.1 = field.1 := of_decide_eq_true same
      rw [ih]
      cases later : lastOf rest name with
      | some => rfl
      | none =>
        have apart : field.1 ≠ name := fun here => (last_none rest name).mp later other member (same'.trans here)
        rw [none_or, if_neg apart]
    next single =>
      rw [mem_cons, ih]
      have none_ (here : field.1 = name) : lastOf rest name = none := by
        refine (last_none rest name).mpr fun other member same => single ?_
        exact any_eq_true.mpr ⟨other, member, decide_eq_true (same.trans here.symm)⟩
      by_cases here : field.1 = name
      · rw [none_ here, if_pos here, none_or, some.injEq]
        constructor
        · rintro (same | same)
          · exact congrArg Prod.snd same.symm
          · cases same
        · exact fun same => .inl (Prod.ext here.symm same.symm)
      · rw [if_neg here, or_none]
        exact or_iff_right fun same => here (congrArg Prod.fst same).symm

theorem deletes_mem (names : List String) {field : String × Bytes} :
    field ∈ names.foldl deleteField object ↔ field ∈ object ∧ field.1 ∉ names := by
  induction names generalizing object with
  | nil => simp
  | cons first names ih =>
    rw [foldl_cons, ih, deleteField, mem_filter, mem_cons, not_or, and_assoc]
    simp

theorem marshal_mem (formed : WellFormed object) : ∃ out, unmarshalObject (marshalObject object) = some out ∧ Distinct out ∧
    ∀ field, field ∈ out ↔ ∃ source ∈ object, field = (source.1, compact source.2) := by
  refine ⟨_, marshal_read formed, List.pairwise_map.mpr (sort_distinct formed.distinct), fun field => ?_⟩
  rw [List.mem_map]
  constructor
  · rintro ⟨source, member, rfl⟩
    exact ⟨source, sort_mem.mp member, rfl⟩
  · rintro ⟨source, member, rfl⟩
    exact ⟨source, sort_mem.mpr member, rfl⟩

theorem marshal_line (formed : WellFormed object) : (0x0a : UInt8) ∉ marshalObject object := by
  refine write_line fun field known => ?_
  obtain ⟨source, listed, rfl⟩ := mem_map.mp known
  obtain ⟨behind, after, value⟩ := formed.scanned source (sort_mem.mp listed)
  exact compacted_line (raw_compacted (Nat.sub_le _ _) value)

end Maps

section Derived
variable {role sub : String} {data frame : Bytes} {fields object : Fields}
variable {out : Fields}

theorem set_mem {value : Bytes} {field : String × Bytes} :
    field ∈ setField object "from" value ↔ field = ("from", value) ∨ field ∈ object ∧ field.1 ≠ "from" := by
  rw [setField, mem_cons, mem_filter]
  simp

theorem scanned_same {raw : Bytes}
    (scanned : ∃ behind after, scanValue (maxNestingDepth - 1) behind = some (raw, after)) :
    sameValue (compact raw) raw ∧ compact (compact raw) = compact raw := by
  obtain ⟨behind, after, value⟩ := scanned
  exact ⟨compacted_same (raw_compacted (Nat.sub_le _ _) value), (compact_shape (Nat.sub_le _ _) value).2.2⟩

theorem written_identified (read : unmarshalObject data = some fields) (distinct : Distinct out)
    (members : ∀ field, field ∈ out ↔ Allowed role field.1 ∧
      ∃ source ∈ setField (objectOf fields) "from" (quoteString sub), field = (source.1, compact source.2)) :
    Identified role sub fields out := by
  have formed := object_formed read
  have free : Allowed role "from" := .inr (by decide)
  have sent := scanned_same ⟨quoteString sub ++ [], [], quote_scan (maxNestingDepth - 1) sub []⟩
  refine ⟨distinct, ?_, fun field member => ((members field).mp member).1, fun name given other allowed last => ?_,
    fun field member other => ?_⟩
  · refine ⟨compact (quoteString sub), (members _).mpr ⟨free, _, set_mem.mpr (.inl rfl), rfl⟩, sent.1, ?_⟩
    rw [compact_literal (Nat.sub_le _ 1) (quote_scan (maxNestingDepth - 1) sub []), quote_literal]
  · have there := object_last.mpr last
    refine ⟨compact given, (members _).mpr ⟨allowed, _, set_mem.mpr (.inr ⟨there, other⟩), rfl⟩, ?_⟩
    exact (scanned_same (formed.scanned _ there)).1
  · obtain ⟨_, source, known, rfl⟩ := (members field).mp member
    rcases set_mem.mp known with rfl | ⟨there, _⟩
    · exact absurd rfl other
    · exact ⟨source.2, object_last.mp there, (scanned_same (formed.scanned _ there)).1⟩

theorem injected_formed (read : unmarshalObject data = some fields) :
    WellFormed (setField (objectOf fields) "from" (quoteString sub)) := set_formed (object_formed read) "from" sub

theorem rewritten_formed (read : unmarshalObject data = some out) (distinct : Distinct out) : WellFormed out := by
  have formed := object_formed read
  rwa [distinct_object distinct] at formed

theorem sanitized_members (read : unmarshalObject data = some out) (distinct : Distinct out)
    (line : (0x0a : UInt8) ∉ data) (dense : ∀ field ∈ out, compact field.2 = field.2) :
    ∃ left, unmarshalObject (sanitizeGuest data) = some left ∧ Distinct left ∧ (0x0a : UInt8) ∉ sanitizeGuest data ∧
      ∀ field, field ∈ left ↔ field ∈ out ∧ field.1 ∉ guestUnsafeFields := by
  have formed := rewritten_formed read distinct
  unfold sanitizeGuest
  rw [read]
  dsimp only
  rw [distinct_object distinct]
  split
  · have deleted := deletes_formed formed guestUnsafeFields
    obtain ⟨left, again, apart, members⟩ := marshal_mem deleted
    refine ⟨left, again, apart, marshal_line deleted, fun field => (members field).trans ⟨?_, fun known => ?_⟩⟩
    · rintro ⟨source, known, rfl⟩
      have both := (deletes_mem guestUnsafeFields).mp known
      rw [dense source both.1]
      exact both
    · exact ⟨field, (deletes_mem guestUnsafeFields).mpr known, by rw [dense field known.1]⟩
  next harmless =>
    refine ⟨out, read, distinct, line, fun field => ⟨fun member => ⟨member, fun unsafe_ => harmless ?_⟩, And.left⟩⟩
    refine any_eq_true.mpr ⟨field.1, unsafe_, isSome_iff_ne_none.mpr fun none_ => ?_⟩
    have absent := lookup_eq_none_iff.mp none_ field member
    exact absurd absent (by simp)

/-- A message that is read has a frame derived from it, which is one line of its own members. -/
theorem derived_identified (read : unmarshalObject data = some fields) : ∃ frame out, derived role sub data = some frame ∧
    unmarshalObject frame = some out ∧ Identified role sub fields out ∧ (0x0a : UInt8) ∉ frame := by
  have formed := @injected_formed sub _ _ read
  obtain ⟨out, again, distinct, members⟩ := marshal_mem formed
  have line := marshal_line formed
  have rewritten : injectFrom data sub = some (marshalObject (setField (objectOf fields) "from" (quoteString sub))) := by
    rw [injectFrom, read]
    rfl
  by_cases host : role = roleHost
  · refine ⟨_, out, ?_, again, written_identified read distinct fun field => (members field).trans ?_, line⟩
    · rw [derived, rewritten, map_some, if_neg (not_not_intro host)]
    · exact (and_iff_right (.inl host)).symm
  · have dense : ∀ field ∈ out, compact field.2 = field.2 := by
      intro field member
      obtain ⟨source, known, rfl⟩ := (members field).mp member
      exact (scanned_same (formed.scanned source known)).2
    obtain ⟨left, read', apart, line', rest⟩ := sanitized_members again distinct line dense
    refine ⟨_, left, ?_, read', written_identified read apart fun field => (rest field).trans ?_, line'⟩
    · rw [derived, rewritten, map_some, if_pos host]
    · rw [members field, and_comm]
      exact and_congr_left' (or_iff_right host).symm

theorem derived_none : derived role sub data = none ↔ unmarshalObject data = none := by
  rw [derived, map_eq_none_iff, injectFrom, map_eq_none_iff]

theorem same_trans {a b c : Bytes} (first : sameValue a b) (second : sameValue b c) : sameValue a c := by
  obtain ⟨text, left, middle⟩ := first
  obtain ⟨other, again, right⟩ := second
  cases middle.symm.trans again
  exact ⟨text, left, right⟩

theorem distinct_lookup (distinct : Distinct out) (name : String) : out.lookup name = lastOf out name := by
  induction distinct with
  | nil => rfl
  | @cons field rest apart _ ih =>
    rw [last_cons, ← ih, lookup_cons]
    by_cases same : field.1 = name
    · have absent : rest.lookup name = none := by
        rw [ih]
        exact (last_none rest name).mpr fun other member here => apart other member (same.trans here.symm)
      rw [absent, none_or, if_pos same, beq_iff_eq.mpr same.symm]
    · rw [if_neg same, beq_eq_false_iff_ne.mpr (Ne.symm same), or_none]

/-- What the frame has under an allowed name is what the message had. -/
theorem identified_last {out : Fields} (known : Identified role sub fields out) {name : String} (other : name ≠ "from")
    (allowed : Allowed role name) : Rel sameValue (out.lookup name) (lastOf fields name) := by
  have listed (raw : Bytes) : out.lookup name = some raw ↔ (name, raw) ∈ out := by
    rw [distinct_lookup known.distinct, ← object_last, distinct_object known.distinct]
  cases found : out.lookup name with
  | some raw =>
    obtain ⟨given, last, same⟩ := known.given _ ((listed raw).mp found) other
    rw [last]
    exact .some same
  | none =>
    cases last : lastOf fields name with
    | none => exact .none
    | some given =>
      obtain ⟨raw, member, _⟩ := known.kept name given other allowed last
      cases found.symm.trans ((listed raw).mpr member)

theorem either_related {α : Type} {r : α → α → Prop} {a b c d : Option α} (first : Rel r a b)
    (second : Rel r c d) : Rel r (a.or c) (b.or d) := by
  cases first with
  | some same => exact .some same
  | none => exact second

theorem echo_read (read : unmarshalObject frame = some out) (known : Identified role sub fields out) :
    ∃ echo, unmarshalObject (peerChatMsg sub frame) = some echo ∧ Echo sub fields echo := by
  have formed := rewritten_formed read known.distinct
  have prompt := @identified_last _ _ _ _ known "prompt" (by decide) (.inr (by decide))
  have text := @identified_last _ _ _ _ known "text" (by decide) (.inr (by decide))
  have chosen : Option.Rel sameValue ((out.lookup "prompt").or (out.lookup "text"))
      ((lastOf fields "prompt").or (lastOf fields "text")) := either_related prompt text
  have scanned {raw : Bytes} (found : (out.lookup "prompt").or (out.lookup "text") = some raw) :
      ∃ behind after, scanValue (maxNestingDepth - 1) behind = some (raw, after) := by
    have there : ∃ name, out.lookup name = some raw := by
      rcases Option.or_eq_some_iff.mp found with first | ⟨_, second⟩
      · exact ⟨_, first⟩
      · exact ⟨_, second⟩
    obtain ⟨name, there⟩ := there
    rw [distinct_lookup known.distinct, ← object_last, distinct_object known.distinct] at there
    exact formed.scanned _ there
  have written : peerChatMsg sub frame = writeObject ([("type", quoteString "peer_chat"), ("from", quoteString sub)] ++
      (((out.lookup "prompt").or (out.lookup "text")).map fun raw => ("text", compact raw)).toList) := by
    rw [peerChatMsg, read, Option.map_some, Option.getD_some, distinct_object known.distinct]
  have solid : ∀ field ∈ [("type", quoteString "peer_chat"), ("from", quoteString sub)] ++
      (((out.lookup "prompt").or (out.lookup "text")).map fun raw => ("text", compact raw)).toList,
      Solid (maxNestingDepth - 1) field.2 := by
    intro field known
    rcases List.mem_append.mp known with head | tail
    · simp only [List.mem_cons, List.not_mem_nil, or_false] at head
      rcases head with rfl | rfl <;> exact quote_solid _ _
    · obtain ⟨raw, found, rfl⟩ := Option.map_eq_some_iff.mp (Option.mem_toList.mp tail)
      obtain ⟨behind, after, value⟩ := scanned found
      exact compact_solid (Nat.sub_le _ _) value
  have same : Option.Rel sameValue (((out.lookup "prompt").or (out.lookup "text")).map compact)
      ((lastOf fields "prompt").or (lastOf fields "text")) := by
    cases found : (out.lookup "prompt").or (out.lookup "text") with
    | none =>
      rw [found] at chosen
      exact chosen
    | some =>
      rw [found] at chosen
      obtain ⟨again, _⟩ := scanned_same (scanned found)
      generalize (lastOf fields "prompt").or (lastOf fields "text") = last at chosen
      cases chosen with
      | some given => exact .some (same_trans again given)
  refine ⟨_, written ▸ read_object _ solid, _, ?_, same⟩
  rw [Option.map_map]
  rfl

end Derived

section Route
variable {reg : Registry Sender} {clock : Nat → Time} {room sub role access : String} {self : Sender}
variable {d : Delivery Sender}

omit [DecidableEq Sender] in
theorem participants_frame {participants : List Sender} {frame : Bytes}
    (sent : d ∈ toParticipants participants frame) : d.frame = frame := by
  obtain ⟨p, _, rfl⟩ := mem_map.mp sent
  rfl

omit [DecidableEq Sender] in
theorem to_host_frame {frame : Bytes} (sent : d ∈ toHost reg room frame) : d.frame = frame := by
  unfold toHost at sent
  split at sent
  · rcases mem_singleton.mp sent with rfl
    rfl
  · cases sent

theorem injected_frames {mt : String} {injected : Bytes}
    (sent : d ∈ (routeInjected reg clock room sub role access self mt injected).2) :
    OwnFrame sub d.frame ∨ d.frame = injected ∨ d.frame = peerChatMsg sub injected := by
  have state {lease : DriverLease} {r : Registry Sender} (sent : d ∈ notifyDriverState r room lease) : OwnFrame sub d.frame :=
    .inl ⟨lease, participants_frame sent⟩
  unfold routeInjected at sent
  split at sent
  · exact .inr (.inl (participants_frame sent))
  split at sent
  · split at sent
    · cases sent
    dsimp only at sent
    split at sent
    · rcases mem_append.mp sent with sent | sent
      · exact .inl (.inr (.inl ⟨_, .inl (to_host_frame sent)⟩))
      · exact .inl (state sent)
    · exact .inr (.inl (participants_frame sent))
  split at sent
  · split at sent
    · cases sent
    dsimp only at sent
    split at sent
    · rcases mem_append.mp sent with sent | sent
      · obtain ⟨command, rewritten, _⟩ := set_driver_injected (requestedDriver injected) sub
        rw [rewritten] at sent
        exact .inl (.inr (.inl ⟨_, .inr (rewritten.trans (congrArg some (to_host_frame sent).symm))⟩))
      · exact .inl (state sent)
    · rcases mem_singleton.mp sent with rfl
      exact .inl (.inr (.inr (.inl rfl)))
  split at sent
  · split at sent
    · cases sent
    · exact .inr (.inl (to_host_frame sent))
  dsimp only at sent
  rcases mem_cons.mp sent with answer | echo
  · split at answer
    · exact .inr (.inl (congrArg Delivery.frame answer))
    · exact .inl (.inr (.inr (.inr (congrArg Delivery.frame answer))))
  · split at echo
    · exact .inr (.inr (participants_frame echo))
    · cases echo

theorem parsed_frames {mt : String} {data : Bytes}
    (sent : d ∈ (routeParsed reg clock room sub role access self mt data).2) :
    OwnFrame sub d.frame ∨ ∃ frame, derived role sub data = some frame ∧ (d.frame = frame ∨ d.frame = peerChatMsg sub frame) := by
  unfold routeParsed at sent
  split at sent
  · cases sent
  next rewritten =>
    refine (injected_frames sent).imp_right fun frame => ⟨_, ?_, frame⟩
    rw [derived, rewritten, map_some]

/-- Whatever is sent is a frame of the relay's own, or derived from the message, or the echo of that. -/
theorem routed_frames {data : Bytes} (sent : d ∈ (routeFromParticipant reg clock room sub role access self data).2) :
    OwnFrame sub d.frame ∨ ∃ frame, derived role sub data = some frame ∧ (d.frame = frame ∨ d.frame = peerChatMsg sub frame) := by
  unfold routeFromParticipant at sent
  dsimp only at sent
  split at sent
  · cases sent
  split at sent
  · cases sent
  split at sent
  · split at sent
    · split at sent
      · cases sent
      · exact .inl (.inl ⟨_, participants_frame sent⟩)
    · exact parsed_frames sent
  split at sent
  · split at sent
    · split at sent
      · cases sent
      · exact .inl (.inl ⟨_, participants_frame sent⟩)
    · cases sent
  · exact parsed_frames sent

end Route

/-- The frames that are derived from a message, but for those of the relay's own: nothing where the message is not an object
    nested at most as deep as the decoder goes, and otherwise one line with its members. -/
theorem identity_injected (reg : Registry Sender) (clock : Nat → Time) (room sub role access : String) (self : Sender)
    (data : Bytes) :
    (derived role sub data = none ↔ objectWithin maxNestingDepth data = none) ∧
      (∀ fields, objectWithin maxNestingDepth data = some fields → ∃ frame out, derived role sub data = some frame ∧
        unmarshalObject frame = some out ∧ Identified role sub fields out ∧ (0x0a : UInt8) ∉ frame ∧
        ∃ echo, unmarshalObject (peerChatMsg sub frame) = some echo ∧ Echo sub fields echo) ∧
      ∀ d ∈ (routeFromParticipant reg clock room sub role access self data).2, OwnFrame sub d.frame ∨
        ∃ frame, derived role sub data = some frame ∧ (d.frame = frame ∨ d.frame = peerChatMsg sub frame) := by
  refine ⟨derived_none, fun fields read => ?_, fun d sent => routed_frames sent⟩
  obtain ⟨frame, out, here, again, known, line⟩ := @derived_identified role sub _ _ read
  exact ⟨frame, out, here, again, known, line, echo_read again known⟩

def deepObject (n : Nat) : Bytes := writeObject [("a", nested n)]

theorem deep_object (n : Nat) : IsObject (deepObject n) := by
  have opened : expect openBrace (deepObject n) = some (writeFields [("a", nested n)]) := rfl
  have unclosed : expect closeBrace (writeFields [("a", nested n)]) = none := rfl
  have solid : ∀ field ∈ [("a", nested n)], Solid (n + 2 - 1) field.2 := by
    intro field member sep tail _
    rcases mem_singleton.mp member with rfl
    exact nested_scan (Nat.le_refl (n + 1)) (sep :: tail)
  have listed := write_members [("a", nested n)] (cons_ne_nil _ _) solid
    (show 1 ≤ (deepObject n).length from Nat.succ_le_succ (Nat.zero_le _))
  refine ⟨n + 2, ?_⟩
  rw [objectWithin, opened]
  simp only [bind_eq_bind, bind_some, unclosed, listed, skipSpace, if_true, isSome_some]

theorem deep_unread {n : Nat} (deep : maxNestingDepth - 1 ≤ n) : unmarshalObject (deepObject n) = none := by
  have opened : expect openBrace (deepObject n) = some (writeFields [("a", nested n)]) := rfl
  have unclosed : expect closeBrace (writeFields [("a", nested n)]) = none := rfl
  have stuck := @members_stuck (maxNestingDepth - 1) (deepObject n).length [] (fun field member => absurd member not_mem_nil)
    "a" (nested n) (fun sep tail _ => nested_value_stuck deep (sep :: tail)) [] []
  rw [append_nil, nil_append] at stuck
  rw [unmarshalObject, opened]
  simp only [bind_eq_bind, bind_some, unclosed, stuck, bind_none]

/-- An object that is nested too deep is dropped. -/
theorem deep_dropped : IsObject (deepObject 9999) ∧ derived roleParticipant "ann" (deepObject 9999) = none :=
  ⟨deep_object 9999, derived_none.mpr (deep_unread (Nat.le_refl 9999))⟩

end PieRelay.IdentityInjection
