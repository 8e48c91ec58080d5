import Mathlib.Logic.Function.Basic

/-! The values one record of a version-checked store has had, newest first. A value is
created at version one and replaced by its successor at the next version; what may
follow what is the relation `link`. Readers hold values of such a history, however old:
a version names at most one of them, so whoever replaces a value by naming its version
has really seen that value. -/
namespace PieRelay.VersionHistory
open List
variable {Value : Type} {version : Value → Nat} {first : Value → Prop} {link : Value → Value → Prop}

inductive History (version : Value → Nat) (first : Value → Prop) (link : Value → Value → Prop) :
    List Value → Prop where
  | created (value : Value) (one : version value = 1) (begun : first value) :
      History version first link [value]
  | replaced (value previous : Value) (rest : List Value)
      (next : version value = version previous + 1) (linked : link previous value)
      (earlier : History version first link (previous :: rest)) :
      History version first link (value :: previous :: rest)

variable {values older : List Value} {newest : Value}

theorem version_positive (history : History version first link values) : ∀ value ∈ values, 0 < version value := by
  induction history with
  | created value one =>
    intro other member
    rw [mem_singleton.mp member, one]
    exact Nat.one_pos
  | replaced value previous rest next _ _ ih =>
    intro other member
    rcases mem_cons.mp member with rfl | old
    · omega
    · exact ih other old

theorem version_le_head (history : History version first link (newest :: older)) :
    ∀ value ∈ newest :: older, version value ≤ version newest := by
  generalize same : newest :: older = values at history
  induction history generalizing newest older with
  | created =>
    cases same
    intro other member
    exact Nat.le_of_eq (congrArg version (mem_singleton.mp member))
  | replaced value previous rest next _ _ ih =>
    cases same
    intro other member
    rcases mem_cons.mp member with rfl | old
    · exact Nat.le_refl _
    · have below := ih rfl other old
      omega

theorem version_unique (history : History version first link values)
    {left right : Value} (leftMember : left ∈ values) (rightMember : right ∈ values)
    (same : version left = version right) : left = right := by
  induction history with
  | created =>
    rw [mem_singleton.mp leftMember, mem_singleton.mp rightMember]
  | replaced value previous rest next _ earlier ih =>
    have below := version_le_head earlier
    rcases mem_cons.mp leftMember with rfl | leftOld
    · rcases mem_cons.mp rightMember with rfl | rightOld
      · rfl
      · have bound := below right rightOld
        omega
    · rcases mem_cons.mp rightMember with rfl | rightOld
      · have bound := below left leftOld
        omega
      · exact ih leftOld rightOld

/-- What holds of a created value and is passed on by `link` holds of every value. -/
theorem history_all (holds : Value → Prop) (begin : ∀ value, first value → holds value)
    (passed : ∀ previous value, link previous value → holds previous → holds value) (history : History version first link values) :
    ∀ value ∈ values, holds value := by
  induction history with
  | created value _ begun =>
    intro other member
    rw [mem_singleton.mp member]
    exact begin value begun
  | replaced value previous rest _ linked _ ih =>
    intro other member
    rcases mem_cons.mp member with rfl | old
    · exact passed previous other linked (ih previous mem_cons_self)
    · exact ih other old

/-- A preorder that `link` respects relates every value to the newest. -/
theorem history_to_head (rel : Value → Value → Prop) (reflexive : ∀ value, rel value value)
    (transitive : ∀ a b c, rel a b → rel b c → rel a c)
    (respected : ∀ previous value, link previous value → rel previous value)
    (history : History version first link (newest :: older)) : ∀ value ∈ newest :: older, rel value newest := by
  generalize same : newest :: older = values at history
  induction history generalizing newest older with
  | created value =>
    cases same
    intro other member
    rw [mem_singleton.mp member]
    exact reflexive value
  | replaced value previous rest _ linked _ ih =>
    cases same
    intro other member
    rcases mem_cons.mp member with rfl | old
    · exact reflexive other
    · exact transitive other previous value (ih rfl other old) (respected previous value linked)

/-- Every value but the newest has been replaced. -/
theorem newest_or_replaced (history : History version first link (newest :: older)) :
    ∀ value ∈ older, ∃ successor ∈ newest :: older, link value successor := by
  generalize same : newest :: older = values at history
  induction history generalizing newest older with
  | created =>
    cases same
    intro other member
    cases member
  | replaced value previous rest _ linked _ ih =>
    cases same
    intro other member
    rcases mem_cons.mp member with rfl | old
    · exact ⟨value, mem_cons_self, linked⟩
    · obtain ⟨successor, there, follows⟩ := ih rfl other old
      exact ⟨successor, mem_cons_of_mem value there, follows⟩

end PieRelay.VersionHistory
