import Mathlib.Data.List.Basic
import PieRelay.JsonScanner

/-!
The lines of an agent, `onData` of client/node-executor/acp-executor.mjs. What a line says (`toString`, `trim` and
`JSON.parse`) is a parameter. Of a message there is what decides whether `onMessage` throws; an exception in a handler of
the stream ends the process.
-/
namespace PieRelay.AcpFraming
open List
open JsonScanner (Bytes)

def maxLineBytes : Nat := 32 * 1024 * 1024

/-- The members of an object have different names. Of a number there is whether it is zero. -/
inductive Json where
  | null
  | bool (value : Bool)
  | number (zero : Bool)
  | string (value : String)
  | array (items : List Json)
  | object (members : List (String × Json))

def Json.truthy : Json → Bool
  | .null => false
  | .bool value => value
  | .number zero => !zero
  | .string value => value ≠ ""
  | .array _ | .object _ => true

def Json.get (message : Json) (name : String) : Option Json :=
  match message with
  | .object members => members.lookup name
  | _ => none

/-- The conversion to a string throws: a `toString` of one's own is no function, and `valueOf` gives no primitive value.
    An array asks its items. -/
def Json.unprintable : Json → Bool
  | .object members => (members.lookup "toString").isSome
  | .array items => unprintables items
  | _ => false
where
  unprintables : List Json → Bool
  | [] => false
  | item :: rest => item.unprintable || unprintables rest

def throws (pending : Bool) (message : Json) : Bool :=
  match message with
  | .null => true
  | message =>
    if (message.get "id").isSome && ((message.get "result").isSome || (message.get "error").isSome) then
      pending && match message.get "error" with
        | some error => error.truthy && match error.get "message" with
          | some text => if text.truthy then text.unprintable else ((error.get "code").map Json.unprintable).getD false
          | none => ((error.get "code").map Json.unprintable).getD false
        | none => false
    else match message.get "method" with
      | some method => method.truthy && (message.get "id").isSome && method.unprintable
      | none => false

structure AcpBridge where
  stdoutBuffer : Bytes
  /-- The messages that `onMessage` has been called with. -/
  messages : List Json
  closed : Bool

def started : AcpBridge := ⟨[], [], false⟩

section Framing
variable (parse : Bytes → Option Json) (pending : Nat → Bool)

def drain : Nat → AcpBridge → Option AcpBridge
  | 0, b => some b
  | fuel + 1, b =>
    match b.stdoutBuffer.idxOf? 10 with
    | none => some b
    | some newline =>
      let line := b.stdoutBuffer.take newline
      let b := { b with stdoutBuffer := b.stdoutBuffer.drop (newline + 1) }
      if maxLineBytes < line.length then some { b with closed := true }
      else match parse line with
        | none => drain fuel b
        | some message =>
          if throws (pending b.messages.length) message then none
          else drain fuel { b with messages := b.messages ++ [message] }

def onData (b : AcpBridge) (chunk : Bytes) : Option AcpBridge :=
  let b := { b with stdoutBuffer := b.stdoutBuffer ++ chunk }
  if maxLineBytes < b.stdoutBuffer.length ∧ b.stdoutBuffer.idxOf? 10 = none then some { b with closed := true }
  else drain parse pending b.stdoutBuffer.length b

def feed (chunks : List Bytes) : Option AcpBridge := chunks.foldlM (onData parse pending) started

def lines : Bytes → List Bytes × Bytes
  | [] => ([], [])
  | byte :: rest =>
    if byte = 10 then ([] :: (lines rest).1, (lines rest).2)
    else match (lines rest).1 with
      | [] => ([], byte :: (lines rest).2)
      | line :: more => ((byte :: line) :: more, (lines rest).2)

def values (stream : Bytes) : List Json := (lines stream).1.filterMap parse

def Bounded (stream : Bytes) : Prop := ∀ line ∈ (lines stream).2 :: (lines stream).1, line.length ≤ maxLineBytes

instance (stream : Bytes) : Decidable (Bounded stream) := inferInstanceAs (Decidable (∀ line ∈ _, _))

/-- However the stream is split, its messages are dispatched in order and once, and the rest is kept. -/
def Framed (stream : Bytes) : Prop :=
  ∀ chunks : List Bytes, chunks.flatten = stream →
    feed parse pending chunks = some ⟨(lines stream).2, values parse stream, false⟩

def Harmless (stream : Bytes) : Prop :=
  ∀ (index : Nat) (message : Json), (values parse stream)[index]? = some message → throws (pending index) message = false

end Framing

section Lines
variable {stream : Bytes} {newline : Nat}

theorem lines_whole (none_ : stream.idxOf? 10 = none) : lines stream = ([], stream) := by
  induction stream with
  | nil => rfl
  | cons byte rest ih =>
    rw [idxOf?_cons] at none_
    split at none_
    · cases none_
    · next other =>
      have onward := ih (Option.map_eq_none_iff.mp none_)
      rw [lines, if_neg (by simpa using other), onward]

theorem lines_first (found : stream.idxOf? 10 = some newline) : newline < stream.length ∧ lines stream =
      (stream.take newline :: (lines (stream.drop (newline + 1))).1, (lines (stream.drop (newline + 1))).2) := by
  induction stream generalizing newline with
  | nil => cases found
  | cons byte rest ih =>
    rw [idxOf?_cons] at found
    split at found
    · next here =>
      cases found
      exact ⟨Nat.succ_pos _, by rw [lines, if_pos (by simpa using here)]; rfl⟩
    · next other =>
      obtain ⟨later, there, rfl⟩ := Option.map_eq_some_iff.mp found
      obtain ⟨inside, onward⟩ := ih there
      refine ⟨Nat.succ_lt_succ inside, ?_⟩
      rw [lines, if_neg (by simpa using other), onward]
      rfl

theorem lines_append (first rest : Bytes) : lines (first ++ rest) =
    ((lines first).1 ++ (lines ((lines first).2 ++ rest)).1, (lines ((lines first).2 ++ rest)).2) := by
  induction first with
  | nil => rfl
  | cons byte first ih =>
    rw [cons_append, lines, lines, ih]
    split
    · rfl
    · next other =>
      cases (lines first).1 with
      | nil =>
        show _ = ([] ++ (lines (byte :: ((lines first).2 ++ rest))).1, (lines (byte :: ((lines first).2 ++ rest))).2)
        rw [lines, if_neg other]
        rfl
      | cons => rfl

theorem plain_tail (stream : Bytes) : 10 ∉ (lines stream).2 := by
  induction stream with
  | nil => exact not_mem_nil
  | cons byte rest ih =>
    rw [lines]
    split
    · exact ih
    · next other =>
      split
      · exact fun member => (mem_cons.mp member).elim (fun same => other same.symm) ih
      · exact ih

def firstOf (stream : Bytes) : Bytes := (lines stream).1.headD (lines stream).2

theorem first_longer (line rest : Bytes) (plain : 10 ∉ line) : line.length ≤ (firstOf (line ++ rest)).length := by
  induction line with
  | nil => exact Nat.zero_le _
  | cons byte line ih =>
    rw [mem_cons, not_or] at plain
    have onward := ih plain.2
    rw [firstOf] at onward ⊢
    rw [cons_append, lines, if_neg (Ne.symm plain.1)]
    cases more : (lines (line ++ rest)).1 with
    | nil | cons =>
      rw [more] at onward
      exact Nat.succ_le_succ onward

theorem bounded_begins {rest : Bytes} (bounded : Bounded (stream ++ rest)) : Bounded stream := by
  rw [Bounded, lines_append, forall_mem_cons] at bounded
  obtain ⟨tail, all⟩ := bounded
  rw [forall_mem_append] at all
  refine forall_mem_cons.mpr ⟨?_, all.1⟩
  refine Nat.le_trans (first_longer _ rest (plain_tail stream)) ?_
  rw [firstOf]
  cases more : (lines ((lines stream).2 ++ rest)).1 with
  | nil => exact tail
  | cons line => exact all.2 line (more ▸ mem_cons_self)

end Lines

section Dispatch
variable {parse : Bytes → Option Json} {pending : Nat → Bool}
variable {stream : Bytes} {b : AcpBridge}

def dispatch (parse : Bytes → Option Json) (pending : Nat → Bool) : List Json → List Bytes → Option (List Json)
  | messages, [] => some messages
  | messages, line :: rest =>
    match parse line with
    | none => dispatch parse pending messages rest
    | some message =>
      if throws (pending messages.length) message then none else dispatch parse pending (messages ++ [message]) rest

theorem drain_lines (fuel : Nat) (enough : b.stdoutBuffer.length ≤ fuel)
    (bounded : ∀ line ∈ (lines b.stdoutBuffer).1, line.length ≤ maxLineBytes) :
    drain parse pending fuel b = (dispatch parse pending b.messages (lines b.stdoutBuffer).1).map fun messages =>
      ⟨(lines b.stdoutBuffer).2, messages, b.closed⟩ := by
  induction fuel generalizing b with
  | zero =>
    obtain ⟨buffer, messages, closed⟩ := b
    cases eq_nil_of_length_eq_zero (Nat.le_zero.mp enough)
    rfl
  | succ fuel ih =>
    rw [drain]
    cases found : b.stdoutBuffer.idxOf? 10 with
    | none =>
      rw [lines_whole found]
      rfl
    | some newline =>
      obtain ⟨inside, cut⟩ := lines_first found
      rw [cut, forall_mem_cons] at bounded
      have shorter : (b.stdoutBuffer.drop (newline + 1)).length ≤ fuel := by
        rw [length_drop]
        omega
      dsimp only
      rw [if_neg (Nat.not_lt.mpr bounded.1), cut, dispatch]
      cases parse (b.stdoutBuffer.take newline) with
      | none => exact ih shorter bounded.2
      | some =>
        dsimp only
        split
        · rfl
        · exact ih shorter bounded.2

theorem dispatch_iff (messages all : List Json) (rest : List Bytes) :
    dispatch parse pending messages rest = some all ↔ messages ++ rest.filterMap parse = all ∧
      ∀ index message, (rest.filterMap parse)[index]? = some message →
        throws (pending (messages.length + index)) message = false := by
  induction rest generalizing messages with
  | nil => simp [dispatch]
  | cons line rest ih =>
    rw [dispatch]
    cases here : parse line with
    | none =>
      rw [filterMap_cons_none here]
      exact ih messages
    | some message =>
      rw [filterMap_cons_some here]
      dsimp only
      split
      · next bad =>
        refine iff_of_false nofun fun fine => ?_
        exact absurd (bad.symm.trans (fine.2 0 message rfl)) (by decide)
      · next good =>
        rw [ih, append_assoc, length_append, length_singleton]
        refine and_congr_right fun _ => ⟨fun later index other there => ?_, fun all index other there => ?_⟩
        · cases index with
          | zero =>
            cases there
            exact Bool.eq_false_iff.mpr good
          | succ index => 
            have := later index other there
            rwa [Nat.add_right_comm] at this
        · rw [Nat.add_right_comm]
          exact all (index + 1) other there

theorem on_data_lines (chunk : Bytes) (bounded : Bounded (b.stdoutBuffer ++ chunk)) :
    onData parse pending b chunk = (dispatch parse pending b.messages (lines (b.stdoutBuffer ++ chunk)).1).map
      fun messages => ⟨(lines (b.stdoutBuffer ++ chunk)).2, messages, b.closed⟩ := by
  rw [Bounded, forall_mem_cons] at bounded
  rw [onData]
  dsimp only
  split
  · next long =>
    rw [lines_whole long.2] at bounded
    exact absurd long.1 (Nat.not_lt.mpr bounded.1)
  · exact drain_lines _ (Nat.le_refl _) bounded.2

theorem values_append (first rest : Bytes) :
    values parse (first ++ rest) = values parse first ++ values parse ((lines first).2 ++ rest) := by
  rw [values, lines_append, filterMap_append]
  rfl

theorem on_data_framed {chunk : Bytes} (bounded : Bounded (stream ++ chunk)) (harmless : Harmless parse pending (stream ++ chunk)) :
    onData parse pending ⟨(lines stream).2, values parse stream, false⟩ chunk =
      some ⟨(lines (stream ++ chunk)).2, values parse (stream ++ chunk), false⟩ := by
  have cut := lines_append stream chunk
  have small : Bounded ((lines stream).2 ++ chunk) := by
    rw [Bounded, cut] at bounded
    intro line member
    refine bounded line ?_
    rcases mem_cons.mp member with same | complete
    · exact mem_cons.mpr (.inl same)
    · exact mem_cons_of_mem _ (mem_append_right _ complete)
  rw [on_data_lines chunk small, (dispatch_iff _ (values parse (stream ++ chunk)) _).mpr ⟨(values_append stream chunk).symm, ?_⟩, cut]
  · rfl
  · intro index message there
    refine harmless (_ + index) message ?_
    rw [values_append, getElem?_append_right (Nat.le_add_right _ _), Nat.add_sub_cancel_left]
    exact there

theorem feed_framed (chunks : List Bytes) (bounded : Bounded (stream ++ chunks.flatten))
    (harmless : Harmless parse pending (stream ++ chunks.flatten)) :
    chunks.foldlM (onData parse pending) ⟨(lines stream).2, values parse stream, false⟩ =
      some ⟨(lines (stream ++ chunks.flatten)).2, values parse (stream ++ chunks.flatten), false⟩ := by
  induction chunks generalizing stream with
  | nil => rw [flatten_nil, append_nil]; rfl
  | cons chunk rest ih =>
    rw [flatten_cons, ← append_assoc] at bounded harmless ⊢
    have first : Harmless parse pending (stream ++ chunk) := by
      intro index message there
      refine harmless index message ?_
      rw [values_append, List.getElem?_append_left (List.getElem?_eq_some_iff.mp there).1]
      exact there
    rw [foldlM_cons, on_data_framed (bounded_begins bounded) first]
    exact ih bounded harmless

/-- The framing does not depend on the chunks exactly when no message makes `onMessage` throw. -/
theorem framed_iff (parse : Bytes → Option Json) (pending : Nat → Bool) (stream : Bytes) (bounded : Bounded stream) :
    Framed parse pending stream ↔ Harmless parse pending stream := by
  constructor
  · intro framed
    have whole := framed [stream] flatten_singleton
    rw [feed, foldlM_cons, on_data_lines (b := started) stream bounded] at whole
    obtain ⟨_, there, same⟩ := Option.bind_eq_some_iff.mp whole
    cases same
    obtain ⟨messages, dispatched, same⟩ := Option.map_eq_some_iff.mp there
    intro index message there
    have fine := ((dispatch_iff _ _ _).mp dispatched).2 index message there
    rwa [show started.messages.length = 0 from rfl, Nat.zero_add] at fine
  · intro harmless chunks whole
    subst whole
    exact @feed_framed parse pending [] chunks bounded harmless

end Dispatch

def parseSome (line : Bytes) : Option Json :=
  if line = [110, 117, 108, 108] then some .null else if line = [123, 125] then some (.object []) else none

theorem objects_framed : Bounded [123, 125, 10, 13, 10, 123] ∧
    (Framed parseSome (fun _ => false) [123, 125, 10, 13, 10, 123] ↔
      Harmless parseSome (fun _ => false) [123, 125, 10, 13, 10, 123]) :=
  have bounded : Bounded [123, 125, 10, 13, 10, 123] := by decide
  ⟨bounded, framed_iff parseSome _ _ bounded⟩

/-- The agent writes `null` and a message behind it. -/
theorem null_ends : Bounded [110, 117, 108, 108, 10, 123, 125, 10] ∧
    values parseSome [110, 117, 108, 108, 10, 123, 125, 10] = [.null, .object []] ∧
    feed parseSome (fun _ => false) [[110, 117, 108, 108, 10, 123, 125, 10]] = none ∧
    ¬ Framed parseSome (fun _ => false) [110, 117, 108, 108, 10, 123, 125, 10] := by
  have ends : feed parseSome (fun _ => false) [[110, 117, 108, 108, 10, 123, 125, 10]] = none := rfl
  refine ⟨by decide, rfl, ends, fun framed => ?_⟩
  have whole := framed [[110, 117, 108, 108, 10, 123, 125, 10]] rfl
  rw [ends] at whole
  cases whole

end PieRelay.AcpFraming
