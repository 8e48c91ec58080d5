import PieRelay.RelayToken

/-!
Who shares a routing key. The key joins room, device, session and generation with
U+001F. Device and session are checked against `streamIDPattern` and the
generation is decimal, so these never hold the separator; the room is only checked
not to be empty, and a room that holds it can spell another identity's whole scope.
-/
namespace PieRelay.RoutingIsolation
open RelayToken List

def Clean (text : String) : Prop := unitSeparator ∉ text.toList

variable {id a b : Identity}

theorem append_separator_inj {α : Type} {sep : α} {a b c d : List α} (left : sep ∉ b)
    (right : sep ∉ d) (same : a ++ sep :: b = c ++ sep :: d) : a = c ∧ b = d := by
  rcases append_eq_append_iff.mp same with ⟨gap, longer, tail⟩ | ⟨gap, longer, tail⟩
  · cases gap with
    | nil => simpa [eq_comm, longer] using tail
    | cons c rest =>
      simp only [cons_append, cons.injEq] at tail
      exact absurd (tail.2 ▸ mem_append_right rest mem_cons_self) left
  · cases gap with
    | nil => simpa [eq_comm, longer] using tail
    | cons c rest =>
      simp only [cons_append, cons.injEq] at tail
      exact absurd (tail.2 ▸ mem_append_right rest mem_cons_self) right

theorem separated_inj {a b c d : String} (left : Clean b) (right : Clean d) :
    separated a b = separated c d ↔ a = c ∧ b = d := by
  constructor
  · intro same
    have lists := congrArg String.toList same
    simp only [separated, String.toList_append, String.toList_singleton, append_assoc, singleton_append] at lists
    obtain ⟨front, back⟩ := append_separator_inj left right lists
    exact ⟨String.toList_inj.mp front, String.toList_inj.mp back⟩
  · rintro ⟨rfl, rfl⟩
    rfl

theorem alphanumeric_separator : isAlphanumeric unitSeparator = false := by decide

theorem stream_id_separator : isStreamIDChar unitSeparator = false := by decide

theorem stream_id_clean {text : String} (fits : streamIDPattern text) : Clean text := by
  unfold streamIDPattern at fits
  unfold Clean
  cases spelled : text.toList with
  | nil => simp
  | cons =>
    simp only [spelled, Bool.and_eq_true, all_eq_true] at fits
    intro member
    rcases mem_cons.mp member with here | there
    · simp [← here, alphanumeric_separator] at fits
    · exact absurd (fits.2 _ there) (by simp [stream_id_separator])

theorem decimal_clean (n : Nat) : Clean (toString (n : Int)) := by
  intro member
  have digit : unitSeparator ∈ Nat.toDigits 10 n := by
    rw [← Nat.toList_repr]
    exact member
  exact absurd (Nat.isDigit_of_mem_toDigits (by decide) (by decide) digit) (by decide)

theorem decimal_inj (m n : Nat) (same : toString (m : Int) = toString (n : Int)) : m = n := by
  have lists : (Nat.repr m).toList = (Nat.repr n).toList := congrArg String.toList same
  rw [Nat.toList_repr, Nat.toList_repr] at lists
  have values := congrArg (fun digits => Nat.ofDigitChars 10 digits 0) lists
  simpa [Nat.ofDigitChars_toDigits] using values

def Scoped (id : Identity) : Prop := ¬ (id.deviceID = "" ∧ id.sessionID = "")

instance (id : Identity) : Decidable (Scoped id) := inferInstanceAs (Decidable (¬ _))

structure Routable (id : Identity) : Prop where
  device : Clean id.deviceID
  session : Clean id.sessionID
  generation : 0 ≤ id.relayGeneration

theorem verified_routable {Token : Type} (jwt : Jwt Token) (j : JWTAuth) (clock : Nat) (token : Token)
    (id : Identity) (accepted : verify jwt j clock token = some id) : Routable id := by
  obtain ⟨claims, -, checks⟩ := Option.bind_eq_some_iff.mp accepted
  obtain ⟨generation, version, -, -, -, acceptable⟩ := (verify_claims_iff j claims id).mp checks
  rcases acceptable.session with ⟨device, session⟩ | ⟨-, -, device, session⟩
  · refine ⟨?_, ?_, acceptable.generation⟩
    · simp [Clean, device]
    · simp [Clean, session]
  · exact ⟨stream_id_clean device, stream_id_clean session, acceptable.generation⟩

/-- Equal keys mean the same room and, with a scope, the same scope; and a scoped identity
    never meets an unscoped one. -/
def Isolated (a b : Identity) : Prop :=
  (routingKey a = routingKey b → a.room = b.room ∧
    (Scoped a ∨ Scoped b → a.deviceID = b.deviceID ∧ a.sessionID = b.sessionID ∧
      a.relayGeneration = b.relayGeneration)) ∧
  ((Scoped a ∧ ¬ Scoped b ∨ ¬ Scoped a ∧ Scoped b) → routingKey a ≠ routingKey b)

/-- The room of `a` spells fields of the scope of `b`, separators included. Either `a` has no
    scope and its room spells all of `b`, or `a` is scoped without a generation and its
    fields lie one place behind those of `b`. -/
def Impersonates (a b : Identity) : Prop :=
  (¬ Scoped a ∧ Scoped b ∧ b.relayGeneration = 0 ∧
    a.room = separated (separated b.room b.deviceID) b.sessionID) ∨
  (¬ Scoped a ∧ Scoped b ∧ 0 < b.relayGeneration ∧
    a.room = separated (separated (separated b.room b.deviceID) b.sessionID)
      (toString b.relayGeneration)) ∨
  (Scoped a ∧ a.relayGeneration = 0 ∧ Scoped b ∧ 0 < b.relayGeneration ∧
    a.room = separated b.room b.deviceID ∧ a.deviceID = b.sessionID ∧
    a.sessionID = toString b.relayGeneration)

instance (a b : Identity) : Decidable (Impersonates a b) := inferInstanceAs (Decidable (_ ∨ _ ∨ _))

theorem key_unscoped (unscoped : ¬ Scoped id) : routingKey id = id.room := by
  unfold routingKey
  rw [if_pos (Decidable.not_not.mp unscoped)]

theorem key_scoped (scope : Scoped id) (zero : id.relayGeneration = 0) :
    routingKey id = separated (separated id.room id.deviceID) id.sessionID := by
  unfold routingKey
  rw [if_neg scope, zero]
  rfl

theorem key_generation (scope : Scoped id) (positive : 0 < id.relayGeneration) :
    routingKey id = separated (separated (separated id.room id.deviceID) id.sessionID)
      (toString id.relayGeneration) := by
  unfold routingKey
  rw [if_neg scope, if_pos positive]

theorem generation_clean (routable : Routable id) : Clean (toString id.relayGeneration) := by
  obtain ⟨n, generation⟩ := Int.eq_ofNat_of_zero_le routable.generation
  rw [generation]
  exact decimal_clean n

/-- The three shapes of a key: no scope, a scope, a scope with a generation. -/
theorem key_shapes (routable : Routable id) :
    ¬ Scoped id ∨ (Scoped id ∧ id.relayGeneration = 0) ∨ (Scoped id ∧ 0 < id.relayGeneration) := by
  have nonnegative := routable.generation
  by_cases scope : Scoped id
  · rcases Int.lt_or_eq_of_le nonnegative with positive | zero
    · exact Or.inr (Or.inr ⟨scope, positive⟩)
    · exact Or.inr (Or.inl ⟨scope, zero.symm⟩)
  · exact Or.inl scope

theorem isolated_symm (isolated : Isolated a b) : Isolated b a := by
  constructor
  · intro same
    obtain ⟨room, fields⟩ := isolated.1 same.symm
    refine ⟨room.symm, fun scope => ?_⟩
    obtain ⟨device, session, generation⟩ := fields scope.symm
    exact ⟨device.symm, session.symm, generation.symm⟩
  · intro mixed same
    exact isolated.2 (mixed.symm.imp And.symm And.symm) same.symm

-- Shapes that differ: the keys meet exactly when the shorter one impersonates the longer.
theorem isolated_unscoped (unscoped : ¬ Scoped a) (scope : Scoped b)
    (routable : Routable b) : Isolated a b ↔ ¬ Impersonates a b ∧ ¬ Impersonates b a := by
  have back : ¬ Impersonates b a := by simp [Impersonates, unscoped]
  have mixed : Isolated a b ↔ routingKey a ≠ routingKey b := by
    refine ⟨fun isolated => isolated.2 (Or.inr ⟨unscoped, scope⟩), fun different => ⟨?_, ?_⟩⟩
    · exact fun same => absurd same different
    · exact fun _ => different
  rw [mixed, key_unscoped unscoped]
  rcases key_shapes routable with missing | ⟨-, zero⟩ | ⟨-, positive⟩
  · exact absurd scope missing
  · simp [key_scoped scope zero, Impersonates, unscoped, scope, zero]
  · have nonzero : b.relayGeneration ≠ 0 := by omega
    simp [key_generation scope positive, Impersonates, unscoped, scope, positive, nonzero]

theorem isolated_generation (left : Scoped a) (zero : a.relayGeneration = 0)
    (right : Scoped b) (positive : 0 < b.relayGeneration) (first : Routable a)
    (other : Routable b) : Isolated a b ↔ ¬ Impersonates a b ∧ ¬ Impersonates b a := by
  have nonzero : b.relayGeneration ≠ 0 := by omega
  have back : ¬ Impersonates b a := by simp [Impersonates, left, right, zero]
  have apart : Isolated a b ↔ routingKey a ≠ routingKey b := by
    refine ⟨fun isolated same => ?_, fun different => ⟨fun same => absurd same different, fun _ => different⟩⟩
    obtain ⟨-, fields⟩ := isolated.1 same
    have generations := (fields (Or.inl left)).2.2
    omega
  rw [apart, key_scoped left zero, key_generation right positive]
  simp only [ne_eq, separated_inj first.session (generation_clean other), separated_inj first.device other.session]
  simp [Impersonates, left, right, zero, positive, nonzero, and_assoc]

-- Shapes that agree: the separators line up and the key is injective.
theorem isolated_same_shape (first : Routable a) (other : Routable b)
    (shape : (¬ Scoped a ∧ ¬ Scoped b) ∨ (Scoped a ∧ Scoped b ∧ a.relayGeneration = 0 ∧
      b.relayGeneration = 0) ∨ (Scoped a ∧ Scoped b ∧ 0 < a.relayGeneration ∧ 0 < b.relayGeneration)) :
    Isolated a b ↔ ¬ Impersonates a b ∧ ¬ Impersonates b a := by
  rcases shape with ⟨left, right⟩ | ⟨left, right, zero, none⟩ | ⟨left, right, positive, above⟩
  · simp [Isolated, Impersonates, left, right, key_unscoped left, key_unscoped right]
  · have inner : Isolated a b := by
      refine ⟨fun same => ?_, by simp [left, right]⟩
      rw [key_scoped left zero, key_scoped right none, separated_inj first.session other.session,
        separated_inj first.device other.device] at same
      exact ⟨same.1.1, fun _ => ⟨same.1.2, same.2, zero.trans none.symm⟩⟩
    simp [inner, Impersonates, left, right, zero, none]
  · have inner : Isolated a b := by
      refine ⟨fun same => ?_, by simp [left, right]⟩
      rw [key_generation left positive, key_generation right above,
        separated_inj (generation_clean first) (generation_clean other),
        separated_inj first.session other.session, separated_inj first.device other.device] at same
      obtain ⟨m, generation⟩ := Int.eq_ofNat_of_zero_le first.generation
      obtain ⟨n, counterpart⟩ := Int.eq_ofNat_of_zero_le other.generation
      have decimals := same.2
      rw [generation, counterpart] at decimals
      refine ⟨same.1.1.1, fun _ => ⟨same.1.1.2, same.1.2, ?_⟩⟩
      rw [generation, counterpart, decimal_inj m n decimals]
    have nonzero : a.relayGeneration ≠ 0 := by omega
    have other : b.relayGeneration ≠ 0 := by omega
    simp [inner, Impersonates, left, right, nonzero, other]

/-- Two accepted identities are kept apart by their routing keys unless the room of one
    impersonates the other. -/
theorem routing_isolation {Token : Type} (jwt : Jwt Token) (j : JWTAuth) (clock later : Nat)
    (token other : Token) (a b : Identity) (accepted : verify jwt j clock token = some a)
    (admitted : verify jwt j later other = some b) :
    Isolated a b ↔ ¬ Impersonates a b ∧ ¬ Impersonates b a := by
  have first := verified_routable jwt j clock token a accepted
  have second := verified_routable jwt j later other b admitted
  have swapped : (Isolated b a ↔ ¬ Impersonates b a ∧ ¬ Impersonates a b) →
      (Isolated a b ↔ ¬ Impersonates a b ∧ ¬ Impersonates b a) := by
    intro mirrored
    rw [and_comm, ← mirrored]
    exact ⟨isolated_symm, isolated_symm⟩
  rcases key_shapes first with left | ⟨left, zero⟩ | ⟨left, positive⟩ <;>
    rcases key_shapes second with right | ⟨right, none⟩ | ⟨right, above⟩
  · exact isolated_same_shape first second (Or.inl ⟨left, right⟩)
  · exact isolated_unscoped left right second
  · exact isolated_unscoped left right second
  · exact swapped (isolated_unscoped right left first)
  · exact isolated_same_shape first second (Or.inr (Or.inl ⟨left, right, zero, none⟩))
  · exact isolated_generation left zero right above first second
  · exact swapped (isolated_unscoped right left first)
  · exact swapped (isolated_generation right none left positive second first)
  · exact isolated_same_shape first second (Or.inr (Or.inr ⟨left, right, positive, above⟩))

def plainAuth : JWTAuth := ⟨[], false, false, false, "", "", []⟩

def signedFor (sub room : String) : Claims :=
  ((Claims.empty.set "exp" (.int 60)).set "sub" (.string sub)).set "room" (.string room)

def signedScope (sub room device session : String) : Claims :=
  ((signedFor sub room).set "device_id" (.string device)).set "session_id" (.string session)

theorem routing_isolation_sessions :
    ∃ a b, verify recordingJwt plainAuth 0 ([], signedScope "ann" "r" "d" "one") = some a ∧
      verify recordingJwt plainAuth 5 ([], signedScope "bob" "r" "d" "two") = some b ∧
      Isolated a b := by
  refine ⟨_, _, rfl, rfl, ?_⟩
  exact (routing_isolation recordingJwt plainAuth 0 5 ([], signedScope "ann" "r" "d" "one")
    ([], signedScope "bob" "r" "d" "two") _ _ rfl rfl).mpr ⟨by decide, by decide⟩

/-- A room that spells the scope of someone else's session. -/
theorem routing_isolation_spelled : ∃ a b, verify recordingJwt plainAuth 0
        ([], signedFor "eve" (separated (separated "r" "d") "one")) = some a ∧
      verify recordingJwt plainAuth 0 ([], signedScope "ann" "r" "d" "one") = some b ∧
      ¬ Isolated a b := by
  refine ⟨_, _, rfl, rfl, ?_⟩
  intro isolated
  exact isolated.2 (Or.inr ⟨by decide, by decide⟩) (by decide)

end PieRelay.RoutingIsolation
