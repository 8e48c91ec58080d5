import PieRelay.ExecutorRegistry

/-!
The registry, the store and the runtime of one user. Each operation commits in steps of its own: what it has done
to the runtime, its save and its write of the registry come one after the other, whatever others do in between.
A provisioning that has still to run will write all three.
-/
namespace PieRelay.ExecutorAgreement
open ExecutorRegistry
open Executions
open RoomRegistry (Time)

def Fits (last : Option RuntimeAction) (status : Status) : Prop :=
  (status = .ready → last = some .ensure) ∧ (status = .stopped ∨ status = .quotaExceeded → last = some .stop)

theorem fits_between {last : Option RuntimeAction} {status : Status}
    (between : status = .provisioning ∨ status = .failed) : Fits last status := by
  rcases between with rfl | rfl
  all_goals
    refine ⟨fun ready => (by cases ready), fun stopped => ?_⟩
    rcases stopped with stopped | stopped <;> cases stopped

theorem fits_stop {status : Status} (stops : status = .stopped ∨ status = .quotaExceeded) :
    Fits (some .stop) status := by
  refine ⟨fun ready => ?_, fun _ => rfl⟩
  subst ready
  rcases stops with stopped | stopped <;> cases stopped

structure Agreement (w : World) (user : String) : Prop where
  stored : w.store.lookup user = w.executors.lookup user
  fits : ∀ e, w.executors.lookup user = some e → Fits (w.lastAction.lookup user) e.status

/-- Between what it does first to the runtime, the registry or the store and what it does last. The first of
    a scan that saw `quota_exceeded` is its snapshot; a provisioning that has not run yet writes everything anew. -/
def Phase.commits : Phase → Bool
  | .settling _ _ _ _ => true
  | .finishing _ _ _ _ => true
  | .stopSaving _ _ => true
  | .stopWriting _ _ => true
  | .scanning e => e.status = .quotaExceeded
  | .noting e => e.status = .quotaExceeded
  | .storing _ => true
  | _ => false

def alone (w : World) (call : String) : Bool :=
  w.calls.entries.all fun entry => !Phase.commits entry.2 || entry.1 = call

/-- The handlers are the user's, nobody goes on committing while somebody else does, and a save is carried out. -/
def careful (user : String) (w : World) : Action → Bool
  | .ensure _ asked _ _ => asked = user
  | .reconciled _ outcome => outcome ≠ some .diskQuota
  | .save call answer => answer ≠ .lost &&
      match w.calls.lookup call with
      | some (.saving _ _) => true
      | some (.stopSaving _ _) => alone w call && answer = .done
      | _ => alone w call
  | .ran _ outcome => outcome ≠ some .diskQuota
  | .finish call => alone w call
  | .stop _ asked => asked = user
  | .write call => alone w call
  | .scan _ asked => asked = user
  | .note call => alone w call
  | .unavailable _ asked => asked = user
  | _ => true

def Named (user : String) (e : Executor) : Prop := e.userID = user ∧ e.id = "executor-" ++ user

def About (user : String) (known : Prop) : Phase → Prop
  | .reconciling asked _ _ => asked = user
  | .observing asked _ _ => asked = user
  | .marking _ => False
  | .markSaving _ => False
  | .waiting _ _ => True
  | .saving asked e => asked = user ∧ Named user e ∧ e.status = .provisioning
  | .queueing asked e => asked = user ∧ Named user e
  | .running asked e => asked = user ∧ Named user e
  | .settling asked e _ _ => asked = user ∧ Named user e
  | .finishing asked e _ _ => asked = user ∧ Named user e
  | .leaving _ _ => True
  | .stopping asked e => asked = user ∧ Named user e
  | .stopSaving asked e => asked = user ∧ Named user e
  | .stopWriting asked e => asked = user ∧ Named user e
  | .scanning e => Named user e ∧ known
  | .cutting e => Named user e ∧ known
  | .noting e => Named user e ∧ known
  | .storing e => Named user e

def Phase.pending : Phase → Bool
  | .saving _ _ => true
  | .queueing _ _ => true
  | .running _ _ => true
  | _ => false

def Reads (w : World) (user : String) : Phase → Prop
  | .settling _ _ _ _ => False
  | .finishing _ _ _ _ => False
  | .stopSaving _ _ => False
  | .stopWriting _ _ => False
  | .storing _ => False
  | .scanning e => e.status = .quotaExceeded → w.lastAction.lookup user = some .stop
  | .noting e => e.status = .quotaExceeded → w.lastAction.lookup user = some .stop
  | _ => True

def Writes (w : World) (user : String) : Phase → Prop
  | .settling _ e _ _ => Fits (w.lastAction.lookup user) e.status
  | .finishing _ e _ _ => w.store.lookup user = some e ∧ Fits (w.lastAction.lookup user) e.status
  | .stopSaving _ e => e.status = .stopped ∧ w.lastAction.lookup user = some .stop
  | .stopWriting _ e => w.store.lookup user = some e ∧ e.status = .stopped ∧ w.lastAction.lookup user = some .stop
  | .noting e => e.status = .quotaExceeded ∧ w.lastAction.lookup user = some .stop
  | .storing e => w.executors.lookup user = some e ∧ Fits (w.lastAction.lookup user) e.status
  | _ => False

def State (user : String) (w : World) : Prop :=
  (∃ call phase, w.calls.lookup call = some phase ∧ Phase.pending phase) ∨
    (Agreement w user ∧ ∀ call phase, w.calls.lookup call = some phase → Reads w user phase) ∨
      ∃ call phase, w.calls.lookup call = some phase ∧ Writes w user phase

structure Keeps (user : String) (w : World) : Prop where
  named : ∀ e, w.executors.lookup user = some e → Named user e
  about : ∀ call phase, w.calls.lookup call = some phase → About user (∃ e, w.executors.lookup user = some e) phase
  state : State user w

section Steps
variable {o : Options} {user : String} {w : World} {call : String}
variable {phase : Phase} {e : Executor} {asked : String}

theorem alone_only (only : alone w call) {other : String}
    (here : w.calls.lookup other = some phase) (commits : Phase.commits phase) : other = call := by
  have each := List.all_eq_true.mp only ⟨other, phase⟩ (AList.mem_lookup_iff.mp here)
  simpa [commits] using each

theorem writes_commits (writes : Writes w user phase) : Phase.commits phase := by
  cases phase with
  | noting => exact decide_eq_true writes.1
  | _ => first | rfl | cases writes

theorem reads_idle (idle : Phase.commits phase = false) : Reads w user phase := by
  cases phase with
  | scanning | noting => exact fun exceeded => absurd exceeded (of_decide_eq_false idle)
  | _ => trivial

theorem about_known {known known' : Prop} (still : known → known') (about : About user known phase) :
    About user known' phase := by
  cases phase with
  | scanning | cutting | noting => exact ⟨about.1, still about.2⟩
  | _ => exact about

theorem move_record (w : World) (call : String) (after : Option Phase) :
    (moveTo w call after).executors = w.executors ∧ (moveTo w call after).store = w.store ∧
      (moveTo w call after).lastAction = w.lastAction := by
  cases after <;> exact ⟨rfl, rfl, rfl⟩

section Record
variable {w' : World} (executors : w'.executors = w.executors) (store : w'.store = w.store)
  (last : w'.lastAction = w.lastAction)

theorem record_reads (last : w'.lastAction = w.lastAction) : Reads w' user phase ↔ Reads w user phase := by
  cases phase <;> simp only [Reads, last]

include executors store last

theorem record_writes : Writes w' user phase ↔ Writes w user phase := by
  cases phase <;> simp only [Writes, executors, store, last]

theorem record_agreement (agree : Agreement w user) : Agreement w' user := by
  constructor
  · rw [executors, store]
    exact agree.stored
  · rw [executors, last]
    exact agree.fits

theorem keeps_alike (keeps : Keeps user w) (calls : w'.calls = w.calls) : Keeps user w' := by
  refine ⟨?_, ?_, ?_⟩
  · rw [executors]
    exact keeps.named
  · rw [calls, executors]
    exact keeps.about
  · rcases keeps.state with ahead | ⟨agree, each⟩ | ⟨other, phase, there, writes⟩
    · refine .inl ?_
      rw [calls]
      exact ahead
    · refine .inr (.inl ⟨record_agreement executors store last agree, ?_⟩)
      rw [calls]
      exact fun other phase here => (record_reads last).mpr (each other phase here)
    · refine .inr (.inr ⟨other, phase, ?_, (record_writes executors store last).mpr writes⟩)
      rw [calls]
      exact there

end Record

def Ahead (w : World) (call : String) : Prop :=
  ∃ other phase, other ≠ call ∧ w.calls.lookup other = some phase ∧ Phase.pending phase

theorem alone_knows (keeps : Keeps user w) (only : alone w call)
    (here : w.calls.lookup call = some phase) (run : Phase.pending phase = false) :
    Ahead w call ∨ Agreement w user ∧ Reads w user phase ∨ Writes w user phase := by
  rcases keeps.state with ⟨other, phase', there, ahead⟩ | ⟨agree, reads⟩ | ⟨other, phase', there, writes⟩
  · refine .inl ⟨other, phase', ?_, there, ahead⟩
    rintro rfl
    cases here.symm.trans there
    cases run.symm.trans ahead
  · exact .inr (.inl ⟨agree, reads call phase here⟩)
  · cases alone_only only there (writes_commits writes)
    cases here.symm.trans there
    exact .inr (.inr writes)

theorem state_goes {w' : World} {after : Phase} (goes : Phase.pending after ∨ Writes w' user after) :
    State user (moveTo w' call (some after)) := by
  have here : (moveTo w' call (some after)).calls.lookup call = some after := by
    rw [move_lookup, if_pos rfl]
  rcases goes with run | writes
  · exact .inl ⟨call, after, here, run⟩
  · exact .inr (.inr ⟨call, after, here, (record_writes rfl rfl rfl).mpr writes⟩)

section Moving
variable {w' : World} (same : w'.calls = w.calls)
include same

theorem state_ahead (ahead : Ahead w call) (after : Option Phase) : State user (moveTo w' call after) := by
  obtain ⟨other, phase, apart, there, run⟩ := ahead
  refine .inl ⟨other, phase, ?_, run⟩
  rw [move_lookup, if_neg apart, same]
  exact there

theorem state_agrees (only : alone w call) (agree : Agreement w' user) {after : Option Phase}
    (idle : ∀ phase, after = some phase → Phase.commits phase = false) : State user (moveTo w' call after) := by
  obtain ⟨executors, store, last⟩ := move_record w' call after
  refine .inr (.inl ⟨record_agreement executors store last agree, fun other phase here => ?_⟩)
  rw [move_lookup, same] at here
  split at here
  · exact reads_idle (idle phase here)
  · next apart =>
    refine reads_idle (eq_false_of_ne_true fun commits => ?_)
    exact apart (alone_only only here commits)

theorem keeps_move (keeps : Keeps user w) {after : Option Phase}
    (named : ∀ e, w'.executors.lookup user = some e → Named user e)
    (known : (∃ e, w.executors.lookup user = some e) → ∃ e, w'.executors.lookup user = some e)
    (about : ∀ phase, after = some phase → About user (∃ e, w'.executors.lookup user = some e) phase)
    (state : State user (moveTo w' call after)) : Keeps user (moveTo w' call after) := by
  obtain ⟨executors, _⟩ := move_record w' call after
  refine ⟨?_, fun other phase here => ?_, state⟩
  · rw [executors]
    exact named
  · rw [executors]
    rw [move_lookup, same] at here
    split at here
    · exact about phase here
    · exact about_known known (keeps.about other phase here)

end Moving

theorem keeps_read (keeps : Keeps user w) {after : Option Phase}
    (about : ∀ phase, after = some phase → About user (∃ e, w.executors.lookup user = some e) phase)
    (reads : Agreement w user → (∀ phase, w.calls.lookup call = some phase → Reads w user phase) →
      ∀ phase, after = some phase → Reads w user phase)
    (idle : ∀ phase, w.calls.lookup call = some phase → Phase.pending phase = false ∧ ¬ Writes w user phase) :
    Keeps user (moveTo w call after) := by
  obtain ⟨executors, store, last⟩ := move_record w call after
  refine keeps_move rfl keeps keeps.named id about ?_
  rcases keeps.state with ⟨other, phase, there, run⟩ | ⟨agree, each⟩ | ⟨other, phase, there, writes⟩
  · refine state_ahead rfl ⟨other, phase, ?_, there, run⟩ after
    rintro rfl
    cases (idle phase there).1.symm.trans run
  · refine .inr (.inl ⟨record_agreement executors store last agree, fun other phase here => ?_⟩)
    rw [record_reads last]
    rw [move_lookup] at here
    split at here
    · exact reads agree (each call) phase here
    · exact each other phase here
  · refine .inr (.inr ⟨other, phase, ?_, (record_writes executors store last).mpr writes⟩)
    rw [move_lookup, if_neg]
    · exact there
    · rintro rfl
      exact (idle phase there).2 writes

theorem new_free (new : unused w call) (phase : Phase) (here : w.calls.lookup call = some phase) :
    Phase.pending phase = false ∧ ¬ Writes w user phase := by
  have absent : w.calls.lookup call = none := by
    simp only [unused, Bool.decide_and, Bool.and_eq_true, decide_eq_true_eq] at new
    exact new.1
  cases absent.symm.trans here

theorem placed_free {phase : Phase} (here : w.calls.lookup call = some phase)
    (free : Phase.pending phase = false ∧ ¬ Writes w user phase) (other : Phase)
    (there : w.calls.lookup call = some other) : Phase.pending other = false ∧ ¬ Writes w user other := by
  cases here.symm.trans there
  exact free

theorem keeps_aside (keeps : Keeps user w) {after : Option Phase}
    (free : ∀ phase, w.calls.lookup call = some phase → Phase.pending phase = false ∧ ¬ Writes w user phase)
    (about : ∀ phase, after = some phase → About user (∃ e, w.executors.lookup user = some e) phase ∧
      Phase.commits phase = false) : Keeps user (moveTo w call after) := by
  refine keeps_read keeps (fun phase same => (about phase same).1) ?_ free
  exact fun _ _ phase same => reads_idle (about phase same).2

theorem keeps_return (keeps : Keeps user w) (answer : Answer)
    (free : ∀ phase, w.calls.lookup call = some phase → Phase.pending phase = false ∧ ¬ Writes w user phase) :
    Keeps user (returns w call answer) := by
  have left : Keeps user (moveTo w call none) := keeps_aside keeps free fun phase absent => by cases absent
  refine keeps_alike (w := moveTo w call none) ?_ ?_ ?_ left ?_ <;> rfl

theorem claimed_named (keeps : Keeps user w) (limits : Option ExecutorLimits) (now : Time) :
    Named user (claimed (w.executors.lookup user) user limits now) := by
  cases found : w.executors.lookup user with
  | none => cases limits <;> exact ⟨rfl, rfl⟩
  | some e => cases limits <;> exact keeps.named e found

theorem inserted_named {table : ControlPlane.Table Executor} (named : Named user e) (other : Executor)
    (found : (table.insert user e).lookup user = some other) : Named user other := by
  cases (AList.lookup_insert table).symm.trans found
  exact named

theorem keeps_claim (keeps : Keeps user w) {limits : Option ExecutorLimits} {now : Time}
    (free : ∀ phase, w.calls.lookup call = some phase → Phase.pending phase = false ∧ ¬ Writes w user phase) :
    Keeps user (claim o w call user limits now) := by
  unfold claim
  split
  · refine keeps_aside keeps free ?_
    rintro phase ⟨⟩
    exact ⟨trivial, rfl⟩
  · dsimp only
    split
    · exact keeps_return keeps _ free
    · have named := claimed_named keeps limits now
      refine keeps_move ?_ keeps (inserted_named named) ?_ ?_ (state_goes (.inl rfl))
      · rfl
      · exact fun _ => ⟨_, AList.lookup_insert w.executors⟩
      · rintro phase ⟨⟩
        exact ⟨rfl, named, rfl⟩

theorem stored_lookup {answer : Saved} (carried_out : answer ≠ .lost) (e : Executor) :
    (written w e answer).store.lookup e.userID = some e := by
  cases answer with
  | lost => exact absurd rfl carried_out
  | done | half => exact AList.lookup_insert w.store

theorem written_rest (e : Executor) (answer : Saved) : (written w e answer).executors = w.executors ∧
    (written w e answer).lastAction = w.lastAction ∧ (written w e answer).calls = w.calls := by
  cases answer <;> exact ⟨rfl, rfl, rfl⟩

def carefulSave (w : World) (call : String) (answer : Saved) : Phase → Prop
  | .saving _ _ => answer ≠ .lost
  | .stopSaving _ _ => answer = .done ∧ alone w call
  | _ => answer ≠ .lost ∧ alone w call

theorem careful_save {answer : Saved} (here : w.calls.lookup call = some phase)
    (guard : careful user w (.save call answer)) : carefulSave w call answer phase := by
  simp only [careful, here, Bool.and_eq_true, decide_eq_true_eq] at guard
  cases phase with
  | saving => exact guard.1
  | stopSaving =>
    simp only [Bool.and_eq_true, decide_eq_true_eq] at guard
    exact ⟨guard.2.2, guard.2.1⟩
  | _ => exact guard

section
variable (keeps : Keeps user w)
include keeps

theorem keeps_saved {answer : Saved} {next : World}
    (here : w.calls.lookup call = some phase) (guard : carefulSave w call answer phase)
    (went : saved w call answer phase = some next) : Keeps user next := by
  have about := keeps.about call phase here
  cases phase with
  | markSaving => exact about.elim
  | saving asked e =>
    obtain ⟨rfl, named, status⟩ := about
    obtain ⟨executors, _, calls⟩ := @written_rest w e answer
    cases went
    refine keeps_move calls keeps ?_ ?_ ?_ ?_
    · rw [executors]
      exact keeps.named
    · rw [executors]
      exact id
    · rintro phase ⟨⟩
      split <;> exact ⟨rfl, named⟩
    · split
      · exact state_goes (.inl rfl)
      · refine state_goes (.inr ⟨?_, ?_⟩)
        · have kept := stored_lookup (w := w) guard e
          rwa [named.1] at kept
        · exact fits_between (Or.inl status)
  | settling asked e =>
    obtain ⟨rfl, named⟩ := about
    obtain ⟨carried_out, only⟩ := guard
    obtain ⟨executors, last, calls⟩ := @written_rest w e answer
    cases went
    refine keeps_move calls keeps ?_ ?_ ?_ ?_
    · rw [executors]
      exact keeps.named
    · rw [executors]
      exact id
    · rintro phase ⟨⟩
      exact ⟨rfl, named⟩
    · rcases alone_knows keeps only here rfl with ahead | ⟨_, absurdly⟩ | fits
      · exact state_ahead calls ahead _
      · exact absurdly.elim
      · refine state_goes (.inr ⟨?_, ?_⟩)
        · have kept := stored_lookup (w := w) carried_out e
          rwa [named.1] at kept
        · rw [last]
          exact fits
  | stopSaving asked e =>
    obtain ⟨rfl, named⟩ := about
    obtain ⟨rfl, only⟩ := guard
    cases went
    refine keeps_move ?_ keeps keeps.named id ?_ ?_
    · rfl
    · rintro phase ⟨⟩
      exact ⟨rfl, named⟩
    · rcases alone_knows keeps only here rfl with ahead | ⟨_, absurdly⟩ | ⟨status, last⟩
      · exact state_ahead (by rfl) ahead _
      · exact absurdly.elim
      · refine state_goes (.inr ⟨?_, status, last⟩)
        have kept := @stored_lookup w .done nofun e
        rwa [named.1] at kept
  | storing e =>
    obtain ⟨carried_out, only⟩ := guard
    obtain ⟨executors, last, calls⟩ := @written_rest w e answer
    have kept := stored_lookup (w := w) carried_out e
    rw [about.1] at kept
    cases went
    refine keeps_move calls keeps ?_ ?_ (fun phase absent => by cases absent) ?_
    · rw [executors]
      exact keeps.named
    · rw [executors]
      exact id
    · rcases alone_knows keeps only here rfl with ahead | ⟨_, absurdly⟩ | ⟨recorded, fits⟩
      · exact state_ahead calls ahead none
      · exact absurdly.elim
      · refine state_agrees calls only ⟨?_, ?_⟩ fun phase absent => by cases absent
        · rw [kept, executors, recorded]
        · rw [executors, last]
          intro other found
          cases recorded.symm.trans found
          exact fits
  | _ => cases went

theorem keeps_finish {failure : Option Failure} {slot : Bool}
    (here : w.calls.lookup call = some (.finishing asked e failure slot)) (only : alone w call) :
    Keeps user (finishProvision w call asked e failure slot) := by
  obtain ⟨rfl, named⟩ := keeps.about call _ here
  unfold finishProvision
  refine keeps_move (w := w) ?_ keeps (inserted_named named) ?_ ?_ ?_
  · rfl
  · exact fun _ => ⟨e, AList.lookup_insert w.executors⟩
  · rintro phase ⟨⟩
    trivial
  · rcases alone_knows keeps only here rfl with ahead | ⟨_, absurdly⟩ | ⟨stored, fits⟩
    · exact state_ahead (by rfl) ahead _
    · exact absurdly.elim
    · refine state_agrees (by rfl) only ⟨?_, ?_⟩ ?_
      · exact stored.trans (AList.lookup_insert w.executors).symm
      · intro other found
        cases (AList.lookup_insert w.executors).symm.trans found
        exact fits
      · rintro phase ⟨⟩
        rfl

theorem keeps_write (here : w.calls.lookup call = some (.stopWriting asked e)) (only : alone w call) :
    Keeps user (moveTo { w with executors := w.executors.insert asked e } call none) := by
  obtain ⟨rfl, named⟩ := keeps.about call _ here
  refine keeps_move (w := w) ?_ keeps (inserted_named named) ?_ (fun phase absent => by cases absent) ?_
  · rfl
  · exact fun _ => ⟨e, AList.lookup_insert w.executors⟩
  · rcases alone_knows keeps only here rfl with ahead | ⟨_, absurdly⟩ | ⟨stored, status, last⟩
    · exact state_ahead (by rfl) ahead none
    · exact absurdly.elim
    · refine state_agrees (by rfl) only ⟨?_, ?_⟩ fun phase absent => by cases absent
      · exact stored.trans (AList.lookup_insert w.executors).symm
      · intro other found
        cases (AList.lookup_insert w.executors).symm.trans found
        show Fits (w.lastAction.lookup asked) e.status
        rw [last]
        exact fits_stop (.inl status)

theorem keeps_note (here : w.calls.lookup call = some (.noting e))
    (only : alone w call) : Keeps user (note w call e) := by
  obtain ⟨named, current, found⟩ := keeps.about call _ here
  have ours := keeps.named current found
  unfold note
  rw [named.1, found]
  dsimp only
  rw [if_pos (ours.2.trans named.2.symm)]
  refine keeps_move (w := w) ?_ keeps (inserted_named ours) ?_ ?_ ?_
  · rfl
  · exact fun _ => ⟨_, AList.lookup_insert w.executors⟩
  · rintro phase ⟨⟩
    exact ours
  · rcases alone_knows keeps only here rfl with ahead | ⟨agree, reads⟩ | ⟨exceeded, last⟩
    · exact state_ahead (by rfl) ahead _
    · refine state_goes (.inr ⟨AList.lookup_insert w.executors, ?_⟩)
      show Fits (w.lastAction.lookup user) (if e.status = .quotaExceeded then .quotaExceeded else current.status)
      split
      · next exceeded =>
        rw [reads exceeded]
        exact fits_stop (.inr rfl)
      · exact agree.fits current found
    · refine state_goes (.inr ⟨AList.lookup_insert w.executors, ?_⟩)
      show Fits (w.lastAction.lookup user) (if e.status = .quotaExceeded then .quotaExceeded else current.status)
      rw [if_pos exceeded, last]
      exact fits_stop (.inr rfl)

theorem keeps_ran {outcome : Option Failure}
    (here : w.calls.lookup call = some (.running asked e)) (within : outcome ≠ some .diskQuota) :
    Keeps user (ran w call asked e outcome) := by
  obtain ⟨rfl, named⟩ := keeps.about call _ here
  unfold ran
  split
  · refine keeps_move (w := w) ?_ keeps keeps.named id ?_ ?_
    · rfl
    · rintro phase ⟨⟩
      exact ⟨rfl, named⟩
    · refine state_goes (.inr ?_)
      refine ⟨fun _ => AList.lookup_insert w.lastAction, fun stopped => ?_⟩
      rcases stopped with stopped | stopped <;> cases stopped
  · next failure =>
    have other : failure ≠ .diskQuota := fun same => within (congrArg some same)
    refine keeps_move rfl keeps keeps.named id ?_ ?_
    · rintro phase ⟨⟩
      exact ⟨rfl, named⟩
    · refine state_goes (.inr ?_)
      show Fits _ (if failure = .diskQuota then .quotaExceeded else .failed)
      rw [if_neg other]
      exact fits_between (.inr rfl)

theorem keeps_step {action : Action} {next : World} (guard : careful user w action)
    (stepped : step o w action = some next) : Keeps user next := by
  cases step_cases stepped with
  | @ensure call asked limits now new =>
    obtain rfl : asked = user := of_decide_eq_true guard
    have free := @new_free asked w call new
    unfold ensure
    split
    · split
      · refine keeps_aside keeps free ?_
        rintro phase ⟨⟩
        exact ⟨rfl, rfl⟩
      · exact keeps_claim keeps free
    · exact keeps_return keeps _ free
  | @reconciled call asked limits e outcome here =>
    obtain rfl : asked = user := keeps.about call _ here
    have within : outcome ≠ some .diskQuota := of_decide_eq_true guard
    have free := @placed_free asked w call _ here ⟨rfl, id⟩
    unfold reconciled
    split
    · refine keeps_aside keeps free ?_
      rintro phase ⟨⟩
      exact ⟨rfl, rfl⟩
    · exact absurd rfl within
    · exact keeps_return keeps _ free
  | @observed call asked limits e seen now here =>
    obtain rfl : asked = user := keeps.about call _ here
    have free := @placed_free asked w call _ here ⟨rfl, id⟩
    unfold observed
    split
    · split
      · exact keeps_claim keeps free
      · exact keeps_return keeps _ free
    · exact keeps_claim keeps free
    · exact keeps_return keeps _ free
  | @mark call e here => exact (keeps.about call _ here).elim
  | save here went => exact keeps_saved keeps here (careful_save here guard) went
  | @slot call asked e here room =>
    obtain ⟨rfl, named⟩ := keeps.about call _ here
    refine keeps_move (w := w) ?_ keeps keeps.named id ?_ (state_goes (.inl rfl))
    · rfl
    · rintro phase ⟨⟩
      exact ⟨rfl, named⟩
  | @cancel call asked e here =>
    obtain ⟨rfl, named⟩ := keeps.about call _ here
    refine keeps_move rfl keeps keeps.named id ?_ (state_goes (.inr (fits_between (.inr rfl))))
    rintro phase ⟨⟩
    exact ⟨rfl, named⟩
  | ran here => exact keeps_ran keeps here (of_decide_eq_true guard)
  | finish here => exact keeps_finish keeps here guard
  | @leave call result slot here =>
    have left := keeps_return keeps (.own result) (placed_free here ⟨rfl, id⟩)
    refine keeps_alike (w := returns w call (.own result)) ?_ ?_ ?_ left ?_ <;> rfl
  | wake here | giveUp here => exact keeps_return keeps _ (placed_free here ⟨rfl, id⟩)
  | @stop call asked e new valid found =>
    obtain rfl : asked = user := of_decide_eq_true guard
    refine keeps_aside keeps (new_free new) ?_
    rintro phase ⟨⟩
    exact ⟨⟨rfl, keeps.named e found⟩, rfl⟩
  | @stopped call asked e now here =>
    obtain ⟨rfl, named⟩ := keeps.about call _ here
    refine keeps_move (w := w) ?_ keeps keeps.named id ?_ ?_
    · rfl
    · rintro phase ⟨⟩
      exact ⟨rfl, named⟩
    · exact state_goes (.inr ⟨rfl, AList.lookup_insert w.lastAction⟩)
  | unstopped here => exact keeps_aside keeps (placed_free here ⟨rfl, id⟩) fun phase absent => by cases absent
  | write here => exact keeps_write keeps here guard
  | @scan call asked e new found =>
    obtain rfl : asked = user := of_decide_eq_true guard
    refine keeps_read keeps ?_ ?_ (new_free new)
    · rintro phase ⟨⟩
      exact ⟨keeps.named e found, e, found⟩
    · rintro agree _ phase ⟨⟩
      exact fun exceeded => (agree.fits e found).2 (.inr exceeded)
  | @scanned call e observation now here =>
    obtain ⟨named, known⟩ := keeps.about call _ here
    unfold scanned
    refine keeps_read keeps ?_ ?_ (placed_free here ⟨rfl, id⟩)
    · intro phase same
      split at same
      all_goals
        cases same
        exact ⟨named, known⟩
    · intro _ reads phase same
      have seen := reads _ here
      split at same
      · cases same
        trivial
      · cases same
        exact seen
  | unscanned here => exact keeps_aside keeps (placed_free here ⟨rfl, id⟩) fun phase absent => by cases absent
  | @cut call e here =>
    obtain ⟨named, known⟩ := keeps.about call _ here
    refine keeps_move (w := w) ?_ keeps keeps.named id ?_ ?_
    · rfl
    · rintro phase ⟨⟩
      exact ⟨named, known⟩
    · refine state_goes (.inr ⟨rfl, ?_⟩)
      rw [named.1]
      exact AList.lookup_insert w.lastAction
  | uncut here => exact keeps_aside keeps (placed_free here ⟨rfl, id⟩) fun phase absent => by cases absent
  | note here => exact keeps_note keeps here guard
  | @unavailable call asked e new found =>
    obtain rfl : asked = user := of_decide_eq_true guard
    have named : Named asked { e with status := .failed } := keeps.named e found
    refine keeps_move (w := w) ?_ keeps (inserted_named named) ?_ ?_ ?_
    · rfl
    · exact fun _ => ⟨_, AList.lookup_insert w.executors⟩
    · rintro phase ⟨⟩
      exact named
    · exact state_goes (.inr ⟨AList.lookup_insert w.executors, fits_between (.inr rfl)⟩)

end

end Steps

theorem keeps_empty (user : String) : Keeps user empty := by
  refine ⟨?_, ?_, .inr (.inl ⟨⟨rfl, ?_⟩, ?_⟩)⟩
  · rintro e ⟨⟩
  · rintro call phase ⟨⟩
  · rintro e ⟨⟩
  · rintro call phase ⟨⟩

/-- Once nobody is at work, the status in the registry is that of the last action, and it is the stored one. -/
theorem registry_agrees (o : Options) (user : String) {w : World} {actions : List Action}
    (guarded : Guarded (step o) (fun w action => careful user w action) empty actions)
    (ran : run (step o) empty actions = some w)
    (idle : ∀ call phase, w.calls.lookup call = some phase →
      Phase.pending phase = false ∧ Phase.commits phase = false) : Agreement w user := by
  have keeps : Keeps user w :=
    guarded_run_invariant (Keeps user) (fun _ _ _ guard keeps stepped => keeps_step keeps guard stepped) guarded ran
      (keeps_empty user)
  rcases keeps.state with ⟨call, phase, here, run⟩ | ⟨agree, _⟩ | ⟨call, phase, here, writes⟩
  · cases (idle call phase here).1.symm.trans run
  · exact agree
  · cases (idle call phase here).2.symm.trans (writes_commits writes)

def unlimited : Options := ⟨2, Nat.two_pos, 0⟩

def overtaking : List Action :=
  [.ensure "first" "ada" none 1, .save "first" .done, .slot "first", .ran "first" none, .stop "second" "ada",
    .stopped "second" true 2, .save "second" .done, .write "second", .save "first" .done, .finish "first", .leave "first"]

theorem stop_overtaken : ∃ w, run (step unlimited) empty overtaking = some w ∧ w.calls.keys = [] ∧
    ¬ Agreement w "ada" := by
  obtain ⟨w, ran, left⟩ := Option.map_eq_some_iff.mp (show (run (step unlimited) empty overtaking).map (fun w =>
        (w.calls.keys, (w.executors.lookup "ada").map Executor.status, w.lastAction.lookup "ada")) =
      some ([], some .ready, some .stop) by decide +kernel)
  simp only [Prod.mk.injEq, Option.map_eq_some_iff] at left
  obtain ⟨nobody, ⟨e, found, ready⟩, last⟩ := left
  refine ⟨w, ran, nobody, fun agree => ?_⟩
  cases last.symm.trans ((agree.fits e found).1 ready)

def carefulOperations : List Action :=
  [.ensure "first" "ada" none 1, .save "first" .done, .slot "first", .ran "first" none, .save "first" .done,
    .finish "first", .leave "first", .scan "second" "ada", .scanned "second" (some ⟨9, 8⟩) 2, .cut "second" true,
    .note "second", .save "second" .done, .ensure "third" "ada" none 3, .scan "fourth" "ada", .save "third" .done,
    .slot "third", .scanned "fourth" (some ⟨7, 8⟩) 4, .ran "third" none, .save "third" .done, .finish "third",
    .leave "third", .note "fourth", .save "fourth" .done, .stop "fifth" "ada", .stopped "fifth" true 5,
    .save "fifth" .done, .write "fifth"]

theorem careful_agree : ∃ w, run (step unlimited) empty carefulOperations = some w ∧ Agreement w "ada" := by
  obtain ⟨w, ran, nobody⟩ := Option.map_eq_some_iff.mp
    (show (run (step unlimited) empty carefulOperations).map (fun w => w.calls.keys) = some [] by decide +kernel)
  have guarded : Guarded (step unlimited) (fun w action => careful "ada" w action) empty carefulOperations :=
    checked_guarded (careful "ada") (fun _ _ passed => passed) empty carefulOperations (by decide +kernel)
  refine ⟨w, ran, registry_agrees unlimited "ada" guarded ran fun call phase here => ?_⟩
  have member : call ∈ w.calls.keys := AList.lookup_isSome.mp (Option.isSome_of_eq_some here)
  rw [nobody] at member
  cases member

end PieRelay.ExecutorAgreement
