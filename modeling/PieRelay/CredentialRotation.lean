import Mathlib.Data.List.Basic
import Mathlib.Data.List.Induction
import PieRelay.InstallStatus

/-!
The installs of one device's credential, one after the other, whatever the clock says in between: `handleCredentialInstall`
of server/internal/relay/mobile.go, and what `resolveResumeLocked` then takes for the device.
-/
namespace PieRelay.CredentialRotation
open Function InstallStatus MobileRevocation RoomRegistry List Option

structure Call where
  request : InstallRequest
  written : Bool
  now : Time

abbrev Rotation := String × Time

section Installs
variable (stateFile : Bool) (hostID deviceID : String)

def requestOf (call : Call) : InstallRequest := { call.request with relayDeviceID := deviceID }

def keyOf (call : Call) : String := installKey hostID deviceID call.request.reqID

def install (w : World) (call : Call) : World × Option Reply :=
  handleCredentialInstall stateFile w hostID (requestOf deviceID call) call.written call.now

def follow (now : World × List Rotation) (call : Call) : World × List Rotation :=
  let (next, _) := install stateFile hostID deviceID now.1 call
  (next, if now.1.installs (keyOf hostID deviceID call) = none ∧ (next.installs (keyOf hostID deviceID call)).isSome
    then now.2 ++ [(call.request.newResumeTokenHash, call.now)] else now.2)

def run (w : World) (calls : List Call) : World × List Rotation :=
  calls.foldl (follow stateFile hostID deviceID) (w, [])

end Installs

def credentialOf (installed : List Rotation) : Option Credential :=
  installed.foldl (fun previous rotation => some (newCredential previous rotation.1 rotation.2)) none

def Holds (w : World) (hostID deviceID : String) (credential : Option Credential) : Prop :=
  ((w.credentials hostID).filter fun entry => entry.1 = deviceID) = (credential.map fun c => (deviceID, c)).toList

def Accepts (w : World) (hostID deviceID hash : String) (time : Time) : Prop :=
  ∃ credential, (deviceID, credential) ∈ w.credentials hostID ∧ (acceptedAs credential hash time).isSome

def Latest (installed : List Rotation) (hash : String) (time : Time) : Prop :=
  (∃ before newTime, installed = before ++ [(hash, newTime)] ∧ time < newTime + mobileResumeTTL) ∨
    ∃ before oldTime new newTime, installed = before ++ [(hash, oldTime), (new, newTime)] ∧
      newTime + mobileGraceTTL ≠ 0 ∧ time < newTime + mobileGraceTTL

def ownExpiry (installed : List Rotation) (hash : String) : Option Time :=
  (installed.reverse.find? fun rotation => rotation.1 = hash).map fun rotation => rotation.2 + mobileResumeTTL

def NeverRevived (w : World) (hostID deviceID : String) (installed : List Rotation) : Prop :=
  ∀ hash time, Accepts w hostID deviceID hash time → ∃ expiry, ownExpiry installed hash = some expiry ∧ time < expiry

def Timely (installed : List Rotation) : Prop :=
  ∀ before old oldTime new newTime, installed = before ++ [(old, oldTime), (new, newTime)] → old ≠ new →
    newTime + mobileGraceTTL = 0 ∨ newTime + mobileGraceTTL ≤ oldTime + mobileResumeTTL

inductive Outcome (w next : World) (hostID deviceID : String) (call : Call) (reply : Option Reply) : Prop where
  | failed (same : next = w) (refused : ∀ result, reply ≠ some (.credentialInstalled result))
  | repeated (result : Installed) (same : next = w) (known : w.installs (keyOf hostID deviceID call) = some result)
      (answer : reply = some (.credentialInstalled result))
  | performed (result : Installed) (unknown : w.installs (keyOf hostID deviceID call) = none)
      (answer : reply = some (.credentialInstalled result))
      (credentials : next.credentials = update w.credentials hostID ((w.credentials hostID).assign deviceID
        (newCredential ((w.credentials hostID).lookup deviceID) call.request.newResumeTokenHash call.now)))
      (installs : next.installs = update w.installs (keyOf hostID deviceID call) (some result))
      (version : result.currentVersion = (newCredential ((w.credentials hostID).lookup deviceID)
        call.request.newResumeTokenHash call.now).currentVersion)

section Install
variable {stateFile : Bool} {hostID deviceID : String} {w : World} {call : Call}
variable {previous : Option Credential}

theorem commit_outcome (w : World) (call : Call) :
    Outcome w (commitInstall stateFile w hostID (requestOf deviceID call) call.written call.now).1 hostID deviceID call
      (some (commitInstall stateFile w hostID (requestOf deviceID call) call.written call.now).2) := by
  unfold commitInstall
  dsimp only
  split
  next result known => exact .repeated result rfl known rfl
  next unknown =>
    split
    · exact .failed rfl (by simp)
    · cases stateFile with
      | false => exact .performed _ unknown rfl rfl rfl rfl
      | true =>
        cases written : call.written with
        | true => exact .performed _ unknown rfl rfl rfl rfl
        | false =>
          refine .failed ?_ (by simp [saveStateLocked])
          simp only [saveStateLocked, setDevices, update_self, update_idem, not_true_eq_false, Bool.false_eq_true, if_false]
          have installs : update w.installs (installKey hostID (requestOf deviceID call).relayDeviceID
              (requestOf deviceID call).reqID) none = w.installs := by rw [← unknown, update_eq_self]
          rw [installs]
          have restored (devices : Devices) (same : devices = w.credentials hostID) :
              { w with credentials := update w.credentials hostID devices } = w := by rw [same, update_eq_self]
          refine restored _ ?_
          cases found : (w.credentials hostID).lookup (requestOf deviceID call).relayDeviceID with
          | none => exact delete_assigned _ _ _ found
          | some => exact assign_previous _ _ _ _ found

theorem install_outcome (w : World) (call : Call) : Outcome w (install stateFile hostID deviceID w call).1 hostID deviceID call
    (install stateFile hostID deviceID w call).2 := by
  unfold install handleCredentialInstall
  split
  · exact .failed rfl (by simp)
  · split
    · split
      · split
        · exact .failed rfl (by simp)
        · exact commit_outcome w call
      · exact .failed rfl (by simp)
    · split
      · exact commit_outcome w call
      · exact .failed rfl (by simp)

theorem assign_holds {devices : Devices} (credential : Credential)
    (holds : (devices.filter fun entry => entry.1 = deviceID) = (previous.map fun c => (deviceID, c)).toList) :
    ((devices.assign deviceID credential).filter fun entry => entry.1 = deviceID) = [(deviceID, credential)] := by
  induction devices with
  | nil => simp [Devices.assign]
  | cons entry rest ih =>
    by_cases same : entry.1 = deviceID
    · have none_ : (rest.filter fun entry => entry.1 = deviceID) = [] := by
        rw [filter_cons_of_pos (by simpa using same)] at holds
        cases previous with
        | none => cases holds
        | some => exact (cons.inj holds).2
      rw [Devices.assign, if_pos same, filter_cons_of_pos (by simp), none_]
    · rw [filter_cons_of_neg (by simpa using same)] at holds
      rw [Devices.assign, if_neg same, filter_cons_of_neg (by simpa using same), ih holds]

theorem holds_mem (holds : Holds w hostID deviceID previous) (credential : Credential) :
    (deviceID, credential) ∈ w.credentials hostID ↔ previous = some credential := by
  have filtered : (deviceID, credential) ∈ w.credentials hostID ↔
      (deviceID, credential) ∈ (w.credentials hostID).filter fun entry => entry.1 = deviceID := by simp
  rw [filtered, holds]
  cases previous <;> simp [eq_comm]

theorem holds_lookup (holds : Holds w hostID deviceID previous) :
    (w.credentials hostID).lookup deviceID = previous := by
  cases found : (w.credentials hostID).lookup deviceID with
  | some credential => exact ((holds_mem holds credential).mp (lookup_member _ _ _ found)).symm
  | none =>
    cases previous with
    | none => rfl
    | some credential =>
      have absent := lookup_eq_none_iff.mp found _ ((holds_mem holds credential).mpr rfl)
      simp at absent

theorem credential_snoc (installed : List Rotation) (rotation : Rotation) : credentialOf (installed ++ [rotation]) =
    some (newCredential (credentialOf installed) rotation.1 rotation.2) := by
  rw [credentialOf, foldl_append, ← credentialOf]
  rfl

theorem follow_holds {installed : List Rotation} (holds : Holds w hostID deviceID (credentialOf installed)) (call : Call) :
    Holds (follow stateFile hostID deviceID (w, installed) call).1 hostID deviceID
      (credentialOf (follow stateFile hostID deviceID (w, installed) call).2) := by
  have outcome := @install_outcome stateFile hostID deviceID w call
  unfold follow
  generalize install stateFile hostID deviceID w call = result at outcome
  obtain ⟨next, reply⟩ := result
  dsimp only at outcome ⊢
  cases outcome with
  | failed same =>
    have still : ¬ (w.installs (keyOf hostID deviceID call) = none ∧ (next.installs (keyOf hostID deviceID call)).isSome) := by
      rintro ⟨unknown, known⟩
      rw [same, unknown] at known
      cases known
    rw [if_neg still, same]
    exact holds
  | repeated result same known =>
    rw [if_neg fun both => some_ne_none result (known.symm.trans both.1), same]
    exact holds
  | performed result unknown answer credentials installs =>
    have known : (next.installs (keyOf hostID deviceID call)).isSome := by rw [installs, update_self]; rfl
    rw [if_pos ⟨unknown, known⟩, credential_snoc, Holds, credentials, update_self, holds_lookup holds]
    exact assign_holds _ holds

theorem run_holds (unknown : Holds w hostID deviceID none) (calls : List Call) :
    Holds (run stateFile hostID deviceID w calls).1 hostID deviceID (credentialOf (run stateFile hostID deviceID w calls).2) := by
  induction calls using reverseRecOn with
  | nil => exact unknown
  | append_singleton calls call ih =>
    rw [run, foldl_append, ← run]
    exact follow_holds ih call

end Install

section Acceptance
variable {installed before : List Rotation} {hash old new : String} {time oldTime newTime : Time}

theorem version_length (installed : List Rotation) :
    ((credentialOf installed).map Credential.currentVersion).getD 0 = installed.length := by
  induction installed using reverseRecOn with
  | nil => rfl
  | append_singleton installed rotation ih =>
    rw [credential_snoc, length_append, length_singleton, map_some, getD_some]
    cases before : credentialOf installed with
    | none =>
      rw [before] at ih
      rw [← ih]
      rfl
    | some =>
      rw [before] at ih
      exact congrArg (· + 1) ih

theorem accepted_iff (credential : Credential) (hash : String) (time : Time) :
    (acceptedAs credential hash time).isSome ↔ (time < credential.resumeExpiresAt ∧ hash = credential.currentHash) ∨
      (credential.graceExpiresAt ≠ 0 ∧ time < credential.graceExpiresAt ∧ hash = credential.graceHash) := by
  unfold acceptedAs
  split
  next current => simp [current]
  next other =>
    split
    next grace => simp [grace]
    next none_ => exact iff_of_false Bool.false_ne_true fun either => either.elim other none_

/-- After one install only its token is accepted. -/
theorem first_accepted : (acceptedAs (newCredential none new newTime) hash time).isSome ↔
    time < newTime + mobileResumeTTL ∧ hash = new := by
  rw [accepted_iff]
  exact or_iff_left fun grace => grace.1 rfl

theorem later_accepted (credential : Credential) :
    (acceptedAs (newCredential (some credential) new newTime) hash time).isSome ↔
      (time < newTime + mobileResumeTTL ∧ hash = new) ∨
      (newTime + mobileGraceTTL ≠ 0 ∧ time < newTime + mobileGraceTTL ∧ hash = credential.currentHash) :=
  accepted_iff _ hash time

theorem own_newest : ownExpiry (before ++ [(new, newTime)]) new = some (newTime + mobileResumeTTL) := by
  rw [ownExpiry, reverse_append, reverse_singleton, singleton_append, find?_cons_of_pos (by simp)]
  rfl

theorem own_previous (other : old ≠ new) :
    ownExpiry (before ++ [(old, oldTime), (new, newTime)]) old = some (oldTime + mobileResumeTTL) := by
  rw [ownExpiry, reverse_append, reverse_cons, reverse_singleton, singleton_append, cons_append,
    find?_cons_of_neg (by simpa using other.symm), singleton_append, find?_cons_of_pos (by simp)]
  rfl

theorem credential_accepts (installed : List Rotation) (hash : String) (time : Time) :
    (∃ credential, credentialOf installed = some credential ∧ (acceptedAs credential hash time).isSome) ↔
      Latest installed hash time := by
  rcases installed.eq_nil_or_concat' with rfl | ⟨rest, ⟨new, newTime⟩, rfl⟩
  · refine iff_of_false ?_ ?_
    · rintro ⟨credential, none_, _⟩
      cases none_
    · rintro (⟨before, newTime, same, _⟩ | ⟨before, oldTime, new, newTime, same, _⟩) <;> simp at same
  have newest : (∃ before time', rest ++ [(new, newTime)] = before ++ [(hash, time')] ∧ time < time' + mobileResumeTTL) ↔
      time < newTime + mobileResumeTTL ∧ hash = new := by
    constructor
    · rintro ⟨before, time', same, fresh⟩
      obtain ⟨_, last⟩ := append_inj' same rfl
      cases last
      exact ⟨fresh, rfl⟩
    · rintro ⟨fresh, rfl⟩
      exact ⟨rest, newTime, rfl, fresh⟩
  rw [Latest, newest]
  simp only [credential_snoc, some.injEq, exists_eq_left']
  rcases rest.eq_nil_or_concat' with rfl | ⟨before, ⟨old, oldTime⟩, rfl⟩
  · refine first_accepted.trans (or_iff_left ?_).symm
    rintro ⟨before, oldTime, other, time', same, _⟩
    have lengths := congrArg length same
    simp at lengths
  · have previous : credentialOf (before ++ [(old, oldTime)]) = some (newCredential (credentialOf before) old oldTime) :=
      credential_snoc before (old, oldTime)
    have hash_ : (newCredential (credentialOf before) old oldTime).currentHash = old := by
      cases credentialOf before <;> rfl
    rw [previous, later_accepted, hash_]
    refine or_congr_right ⟨?_, ?_⟩
    · rintro ⟨some_, fresh, rfl⟩
      exact ⟨before, oldTime, new, newTime, by rw [append_assoc]; rfl, some_, fresh⟩
    · rintro ⟨others, oldTime', new', newTime', same, some_, fresh⟩
      rw [append_assoc] at same
      obtain ⟨_, last⟩ := append_inj' same rfl
      cases last
      exact ⟨some_, fresh, rfl⟩

/-- Nothing is accepted after it has expired exactly where the last token has not come too late. -/
theorem latest_timely (installed : List Rotation) :
    (∀ hash time, Latest installed hash time → ∃ expiry, ownExpiry installed hash = some expiry ∧ time < expiry) ↔
      Timely installed := by
  constructor
  · rintro within before old oldTime new newTime rfl other
    by_contra late
    rw [not_or, Int.not_le] at late
    obtain ⟨expiry, own, fresh⟩ := within old (oldTime + mobileResumeTTL)
      (.inr ⟨before, oldTime, new, newTime, rfl, late.1, late.2⟩)
    cases own.symm.trans (own_previous other)
    exact Int.lt_irrefl _ fresh
  · rintro timely hash time (⟨before, newTime, rfl, fresh⟩ | ⟨before, oldTime, new, newTime, rfl, some_, fresh⟩)
    · exact ⟨_, own_newest, fresh⟩
    · by_cases other : hash = new
      · subst other
        have newest : ownExpiry (before ++ [(hash, oldTime), (hash, newTime)]) hash = some (newTime + mobileResumeTTL) := by
          rw [← singleton_append, ← append_assoc]
          exact own_newest
        have longer : mobileGraceTTL < mobileResumeTTL := by decide
        exact ⟨_, newest, Int.lt_trans fresh (Int.add_lt_add_left longer newTime)⟩
      · refine ⟨_, own_previous other, ?_⟩
        rcases timely before hash oldTime new newTime rfl other with none_ | early
        · exact absurd none_ some_
        · exact Int.lt_of_lt_of_le fresh early

theorem resolve_accepts (credentialHash : String → String) (w : World) (hostID token : String) (time : Time) :
    (resolveResumeLocked credentialHash w hostID token time).isSome ↔
      ∃ deviceID, Accepts w hostID deviceID (credentialHash token) time := by
  rw [resolveResumeLocked, findSome?_isSome_iff]
  simp only [isSome_map]
  constructor
  · rintro ⟨⟨deviceID, credential⟩, member, accepted⟩
    exact ⟨deviceID, credential, member, accepted⟩
  · rintro ⟨deviceID, credential, member, accepted⟩
    exact ⟨(deviceID, credential), member, accepted⟩

end Acceptance

/-- The installs of a device that is new. An install that fails changes nothing; one that succeeds is a repeated one, or
    the next version. What is accepted of the device is its last token and, in its grace, the one before, and never one
    that has expired exactly where the last install came early enough. -/
theorem rotation_exact (stateFile : Bool) {w : World} {hostID deviceID : String} (unknown : Holds w hostID deviceID none)
    (calls : List Call) :
    let s := run stateFile hostID deviceID w calls
    (∀ call, (∀ result, (install stateFile hostID deviceID s.1 call).2 ≠ some (.credentialInstalled result)) →
      (install stateFile hostID deviceID s.1 call).1 = s.1) ∧
    (∀ call result, (install stateFile hostID deviceID s.1 call).2 = some (.credentialInstalled result) →
      (s.1.installs (keyOf hostID deviceID call) = some result ∧ (install stateFile hostID deviceID s.1 call).1 = s.1) ∨
      (s.1.installs (keyOf hostID deviceID call) = none ∧ result.currentVersion = s.2.length + 1 ∧
        (follow stateFile hostID deviceID s call).2 = s.2 ++ [(call.request.newResumeTokenHash, call.now)])) ∧
    (∀ credential, (deviceID, credential) ∈ s.1.credentials hostID → credential.currentVersion = s.2.length) ∧
    (∀ credentialHash token time, (resolveResumeLocked credentialHash s.1 hostID token time).isSome ↔
      ∃ device, Accepts s.1 hostID device (credentialHash token) time) ∧
    (∀ hash time, Accepts s.1 hostID deviceID hash time ↔ Latest s.2 hash time) ∧
    (NeverRevived s.1 hostID deviceID s.2 ↔ Timely s.2) := by
  have holds := @run_holds stateFile _ _ _ unknown calls
  generalize run stateFile hostID deviceID w calls = s at holds
  obtain ⟨now, installed⟩ := s
  have length := version_length installed
  have latest (hash : String) (time : Time) : Accepts now hostID deviceID hash time ↔ Latest installed hash time := by
    rw [← credential_accepts]
    exact exists_congr fun credential => and_congr_left' (holds_mem holds credential)
  refine ⟨fun call refused => ?_, fun call result answered => ?_, fun credential member => ?_, fun credentialHash token time =>
    resolve_accepts credentialHash now hostID token time, latest, ?_⟩
  · cases @install_outcome stateFile hostID deviceID now call with
    | failed same => exact same
    | repeated result _ _ answer | performed result _ answer => exact absurd answer (refused result)
  · cases @install_outcome stateFile hostID deviceID now call with
    | failed _ refused => exact absurd answered (refused result)
    | repeated other same known answer =>
      cases answer.symm.trans answered
      exact .inl ⟨known, same⟩
    | performed other unknown answer _ installs version =>
      cases answer.symm.trans answered
      refine .inr ⟨unknown, ?_, ?_⟩
      · rw [version, holds_lookup holds, ← length]
        cases credentialOf installed <;> rfl
      · have known : ((install stateFile hostID deviceID now call).1.installs (keyOf hostID deviceID call)).isSome := by
          rw [installs, update_self]
          rfl
        exact if_pos ⟨unknown, known⟩
  · have current := (holds_mem holds credential).mp member
    rw [current] at length
    exact length
  · rw [← latest_timely]
    exact forall₂_congr fun hash time => by rw [latest hash time]

def firstCall : Call := ⟨phoneInstall, true, 1⟩

def otherHash : String := "AAAAAAAAAAAAAAAAAAAAAAAAAAAAAAAAAAAAAAAAAAA"

def lateCall : Call := ⟨{ phoneInstall with reqID := "r2", newResumeTokenHash := otherHash }, true, mobileResumeTTL + 1⟩

theorem first_never_revived : (run true "desk" "phone" newMobileRelay [firstCall]).2 = [(phoneHash, 1)] ∧
    NeverRevived (run true "desk" "phone" newMobileRelay [firstCall]).1 "desk" "phone"
      (run true "desk" "phone" newMobileRelay [firstCall]).2 := by
  have installed : (run true "desk" "phone" newMobileRelay [firstCall]).2 = [(phoneHash, 1)] := by decide +kernel
  refine ⟨installed, (rotation_exact true (w := newMobileRelay) rfl [firstCall]).2.2.2.2.2.mpr ?_⟩
  intro before old oldTime new newTime same
  have lengths := congrArg length (installed.symm.trans same)
  simp at lengths

/-- The first token is accepted again after it has expired. -/
theorem expired_revived :
    ownExpiry (run true "desk" "phone" newMobileRelay [firstCall, lateCall]).2 phoneHash = some (mobileResumeTTL + 1) ∧
      resolveResumeLocked phoneDigest (run true "desk" "phone" newMobileRelay [firstCall]).1 "desk" phoneToken
        (mobileResumeTTL + 1) = none ∧
      (resolveResumeLocked phoneDigest (run true "desk" "phone" newMobileRelay [firstCall, lateCall]).1 "desk" phoneToken
        (mobileResumeTTL + 2)).isSome := by
  decide +kernel

end PieRelay.CredentialRotation
