import PieRelay.MobileRevocation

/-!
What the relay says about credential installs, server/internal/relay/mobile.go. Two
maps are involved: `installs` remembers the result of an install under its request id
and answers repeated installs and status queries, `credentials` is the store itself.
An install writes both, `revokeDevice` only the second. The ledger beside the relay's
state notes for every remembered result the device it was made for, until that device
is revoked.
-/
namespace PieRelay.InstallStatus
open Function Executions RoomRegistry MobileRevocation

/-- `origin` is history: the host and device a remembered install was made for, as long as the
    device has not been revoked since. -/
structure Ledger where
  world : World
  origin : String → Option (String × String)

def newLedger : Ledger := ⟨newMobileRelay, fun _ => none⟩

def note (before after : World) (origin : String → Option (String × String)) :
    Action → String → Option (String × String)
  | .control hostID (.credentialInstall request) _ _ _ =>
    let key := installKey hostID request.relayDeviceID request.reqID
    if before.installs key = none ∧ (after.installs key).isSome then
      update origin key (some (hostID, request.relayDeviceID))
    else origin
  | .control hostID (.deviceRevoke reqID deviceID) _ _ _ =>
    if reqID = "" ∨ deviceID = "" then origin
    else fun key => if origin key = some (hostID, deviceID) then none else origin key
  | .restart => fun _ => none
  | _ => origin

def ledgerStep (stateFile : Bool) (credentialHash : String → String) (ledger : Ledger)
    (action : Action) : Option Ledger :=
  (step stateFile credentialHash ledger.world action).map fun next =>
    ⟨next, note ledger.world next ledger.origin action⟩

def asked : ControlMessage → Option (String × String)
  | .credentialInstall request => some (request.relayDeviceID, request.reqID)
  | .installStatus _ reqID relayDeviceID => some (relayDeviceID, reqID)
  | _ => none

def committedVersion : Reply → Option Nat
  | .credentialInstalled result => some result.currentVersion
  | .installStatus _ (some result) => some result.currentVersion
  | _ => none

def Holds (w : World) (hostID deviceID : String) (version : Nat) : Prop :=
  ∃ credential, (w.credentials hostID).lookup deviceID = some credential ∧
    version ≤ credential.currentVersion

theorem lookup_assigned (devices : Devices) (deviceID : String) (credential : Credential) :
    (devices.assign deviceID credential).lookup deviceID = some credential := by
  induction devices with
  | nil => simp [Devices.assign]
  | cons first rest ih =>
    obtain ⟨key, value⟩ := first
    by_cases same : key = deviceID
    · simp [Devices.assign, same]
    · have other : (deviceID == key) = false := by simpa using Ne.symm same
      simp [Devices.assign, same, List.lookup_cons, other, ih]

theorem lookup_other (devices : Devices) (deviceID device : String) (credential : Credential)
    (different : device ≠ deviceID) :
    (devices.assign deviceID credential).lookup device = devices.lookup device := by
  have apart : (device == deviceID) = false := by simpa using different
  induction devices with
  | nil => simp [Devices.assign, List.lookup_cons, apart]
  | cons first rest ih =>
    obtain ⟨key, value⟩ := first
    by_cases same : key = deviceID
    · subst same
      simp [Devices.assign, List.lookup_cons, apart]
    · simp [Devices.assign, same, List.lookup_cons, ih]

theorem lookup_deleted (devices : Devices) (deviceID device : String) (different : device ≠ deviceID) :
    (devices.delete deviceID).lookup device = devices.lookup device := by
  have apart : (device == deviceID) = false := by simpa using different
  unfold Devices.delete
  induction devices with
  | nil => rfl
  | cons first rest ih =>
    obtain ⟨key, value⟩ := first
    by_cases same : key = deviceID
    · subst same
      simpa [List.lookup_cons, apart] using ih
    · simp only [ne_eq, decide_not] at ih
      simp [same, List.lookup_cons, ih]

-- A rotation only raises the version of the device it is for.
theorem assigned_holds (w next : World) (hostID : String) (request : InstallRequest) (now : Time)
    (credentials : next.credentials = update w.credentials hostID ((w.credentials hostID).assign
      request.relayDeviceID (newCredential ((w.credentials hostID).lookup request.relayDeviceID)
        request.newResumeTokenHash now)))
    (host device : String) (version : Nat) (held : Holds w host device version) :
    Holds next host device version := by
  obtain ⟨credential, found, enough⟩ := held
  unfold Holds
  rw [credentials]
  by_cases here : host = hostID
  · subst here
    rw [update_self]
    by_cases same : device = request.relayDeviceID
    · subst same
      refine ⟨_, lookup_assigned _ _ _, ?_⟩
      rw [found]
      simp only [newCredential]
      omega
    · exact ⟨credential, by rw [lookup_other _ _ _ _ same, found], enough⟩
  · exact ⟨credential, by rw [update_of_ne here, found], enough⟩

theorem just_assigned (w next : World) (hostID : String) (request : InstallRequest) (now : Time)
    (credentials : next.credentials = update w.credentials hostID ((w.credentials hostID).assign
      request.relayDeviceID (newCredential ((w.credentials hostID).lookup request.relayDeviceID)
        request.newResumeTokenHash now))) :
    Holds next hostID request.relayDeviceID (newCredential ((w.credentials hostID).lookup request.relayDeviceID)
        request.newResumeTokenHash now).currentVersion := by
  refine ⟨_, ?_, Nat.le_refl _⟩
  rw [credentials, update_self, lookup_assigned]

inductive Effect (w next : World) : Action → Prop where
  | kept (action : Action) (credentials : next.credentials = w.credentials)
      (installs : next.installs = w.installs) : Effect w next action
  | installed (hostID : String) (request : InstallRequest) (written delivered : Bool) (now : Time)
      (result : Installed)
      (unknown : w.installs (installKey hostID request.relayDeviceID request.reqID) = none)
      (credentials : next.credentials = update w.credentials hostID ((w.credentials hostID).assign
        request.relayDeviceID (newCredential ((w.credentials hostID).lookup request.relayDeviceID)
          request.newResumeTokenHash now)))
      (installs : next.installs =
        update w.installs (installKey hostID request.relayDeviceID request.reqID) (some result))
      (version : Holds next hostID request.relayDeviceID result.currentVersion) :
      Effect w next (.control hostID (.credentialInstall request) written delivered now)
  | revoked (hostID reqID deviceID : String) (written delivered : Bool) (now : Time)
      (named : ¬ (reqID = "" ∨ deviceID = ""))
      (credentials : next.credentials =
        update w.credentials hostID ((w.credentials hostID).delete deviceID))
      (installs : next.installs = w.installs) :
      Effect w next (.control hostID (.deviceRevoke reqID deviceID) written delivered now)
  | restarted (installs : next.installs = fun _ => none) : Effect w next .restart

variable {stateFile : Bool} {credentialHash : String → String}

/-- The locked part of an install: what it answers is remembered already, or is what it has just
    written. -/
theorem commit_effect (w : World) (hostID : String) (request : InstallRequest)
    (written delivered : Bool) (now : Time) (sent : List (String × Reply)) :
    Effect w { (commitInstall stateFile w hostID request written now).1 with sent := sent }
      (.control hostID (.credentialInstall request) written delivered now) := by
  unfold commitInstall
  dsimp only
  split
  · exact .kept _ rfl rfl
  · rename_i unknown
    split
    · exact .kept _ rfl rfl
    · cases stateFile with
      | false =>
        exact .installed hostID request written delivered now _ unknown rfl rfl
          (just_assigned w _ hostID request now rfl)
      | true =>
        cases written with
        | true =>
          exact .installed hostID request true delivered now _ unknown rfl rfl
            (just_assigned w _ hostID request now rfl)
        | false =>
          refine .kept _ ?_ ?_
          · simp only [saveStateLocked, setDevices, update_self, update_idem,
              not_true_eq_false, Bool.false_eq_true, if_false]
            cases found : (w.credentials hostID).lookup request.relayDeviceID with
            | none => simp [delete_assigned _ _ _ found]
            | some => simp [assign_previous _ _ _ _ found]
          · simp only [saveStateLocked, setDevices, update_idem, not_true_eq_false, Bool.false_eq_true, if_false]
            rw [← unknown, update_eq_self]

theorem install_effect (w : World) (hostID : String) (request : InstallRequest)
    (written delivered : Bool) (now : Time) (sent : List (String × Reply)) :
    Effect w { (handleCredentialInstall stateFile w hostID request written now).1 with sent := sent }
      (.control hostID (.credentialInstall request) written delivered now) := by
  unfold handleCredentialInstall
  split
  · exact .kept _ rfl rfl
  · split
    · split
      · split
        · exact .kept _ rfl rfl
        · exact commit_effect w hostID request written delivered now sent
      · exact .kept _ rfl rfl
    · split
      · exact commit_effect w hostID request written delivered now sent
      · exact .kept _ rfl rfl

theorem revoke_effect (w : World) (hostID reqID deviceID : String) (written delivered : Bool)
    (now : Time) (sent : List (String × Reply)) (named : ¬ (reqID = "" ∨ deviceID = "")) :
    Effect w { revokeDevice stateFile w hostID deviceID written with sent := sent }
      (.control hostID (.deviceRevoke reqID deviceID) written delivered now) := by
  refine .revoked hostID reqID deviceID written delivered now named ?_ ?_
  · exact revoke_credentials w hostID deviceID written
  · cases stateFile <;> cases written <;> rfl

theorem control_effect (w : World) (hostID : String) (message : ControlMessage)
    (written delivered : Bool) (now : Time) (sent : List (String × Reply)) :
    Effect w { (handleControlMessage stateFile credentialHash w hostID message written now).1 with sent := sent }
      (.control hostID message written delivered now) := by
  cases message with
  | invalid | pong | authRefresh => exact .kept _ rfl rfl
  | inviteCreate | installStatus =>
    simp only [handleControlMessage]
    split <;> exact .kept _ rfl rfl
  | credentialInstall request => exact install_effect w hostID request written delivered now sent
  | resumeConfirm =>
    simp only [handleControlMessage]
    split
    · exact .kept _ rfl rfl
    · split
      · split <;> exact .kept _ rfl rfl
      · exact .kept _ rfl rfl
  | deviceRevoke reqID relayDeviceID =>
    simp only [handleControlMessage]
    split
    · exact .kept _ rfl rfl
    · rename_i named
      exact revoke_effect w hostID reqID relayDeviceID written delivered now sent named

theorem step_effect (w : World) (action : Action) (next : World)
    (stepped : step stateFile credentialHash w action = some next) : Effect w next action := by
  cases action with
  | control hostID message written delivered now =>
    simp only [step] at stepped
    split at stepped
    · cases stepped
      exact control_effect w hostID message written delivered now _
    · cases stepped
      exact control_effect w hostID message written delivered now _
  | phone hostID token connID now =>
    cases stepped
    have credentials := (@invite_kept credentialHash w hostID token now).1
    have installs : (resolveInviteLocked credentialHash w hostID token now).1.installs = w.installs := by
      unfold resolveInviteLocked
      dsimp only
      split
      · split <;> rfl
      · rfl
    simp only [admitPhone]
    split
    · split <;> exact .kept _ credentials installs
    · exact .kept _ credentials installs
  | closeConnection =>
    cases stepped
    exact .kept _ rfl rfl
  | restart =>
    cases stepped
    exact .restarted rfl

def Backed (ledger : Ledger) : Prop :=
  ∀ key hostID deviceID result, ledger.origin key = some (hostID, deviceID) →
    ledger.world.installs key = some result →
    Holds ledger.world hostID deviceID result.currentVersion

section
variable (w next : World) (origin : String → Option (String × String))
include w next origin

theorem installed_backed (hostID : String) (request : InstallRequest) (written delivered : Bool) (now : Time)
    (result : Installed) (backed : Backed ⟨w, origin⟩)
    (unknown : w.installs (installKey hostID request.relayDeviceID request.reqID) = none)
    (credentials : next.credentials = update w.credentials hostID ((w.credentials hostID).assign
      request.relayDeviceID (newCredential ((w.credentials hostID).lookup request.relayDeviceID)
        request.newResumeTokenHash now)))
    (installs : next.installs = update w.installs (installKey hostID request.relayDeviceID request.reqID) (some result))
    (version : Holds next hostID request.relayDeviceID result.currentVersion) :
    Backed ⟨next, note w next origin (.control hostID (.credentialInstall request) written delivered now)⟩ := by
  have noted : note w next origin (.control hostID (.credentialInstall request) written delivered now) =
      update origin (installKey hostID request.relayDeviceID request.reqID) (some (hostID, request.relayDeviceID)) := by
    simp [note, unknown, installs]
  intro key host device remembered origined found
  simp only [noted, installs] at origined found
  by_cases same : key = installKey hostID request.relayDeviceID request.reqID
  · subst same
    simp only [update_self, Option.some.injEq, Prod.mk.injEq] at origined found
    obtain ⟨rfl, rfl⟩ := origined
    subst found
    exact version
  · rw [update_of_ne same] at origined found
    exact assigned_holds w next hostID request now credentials host device _
      (backed key host device remembered origined found)

theorem revoked_backed (hostID reqID deviceID : String) (written delivered : Bool) (now : Time)
    (backed : Backed ⟨w, origin⟩) (named : ¬ (reqID = "" ∨ deviceID = ""))
    (credentials : next.credentials = update w.credentials hostID ((w.credentials hostID).delete deviceID))
    (installs : next.installs = w.installs) :
    Backed ⟨next, note w next origin (.control hostID (.deviceRevoke reqID deviceID) written delivered now)⟩ := by
  intro key host device remembered origined found
  simp only [note, if_neg named] at origined
  split at origined
  · contradiction
  · rename_i elsewhere
    simp only [installs] at found
    obtain ⟨credential, known, enough⟩ := backed key host device remembered origined found
    refine ⟨credential, ?_, enough⟩
    simp only [credentials]
    by_cases here : host = hostID
    · subst here
      have different : device ≠ deviceID := by
        intro same
        subst same
        exact elsewhere origined
      rw [update_self, lookup_deleted _ _ _ different, known]
    · rw [update_of_ne here, known]

-- An action that touches neither map can only shorten the ledger.
theorem note_kept (action : Action) (installs : next.installs = w.installs) (key : String) (made : String × String)
    (noted : note w next origin action key = some made) : origin key = some made := by
  unfold note at noted
  split at noted
  · dsimp only at noted
    split at noted
    · rename_i fresh
      rw [installs, fresh.1] at fresh
      simp at fresh
    · exact noted
  · split at noted
    · exact noted
    · dsimp only at noted
      split at noted
      · contradiction
      · exact noted
  · contradiction
  · exact noted

end

theorem step_backed (ledger : Ledger) (action : Action) (next : Ledger) (backed : Backed ledger)
    (stepped : ledgerStep stateFile credentialHash ledger action = some next) : Backed next := by
  obtain ⟨after, moved, rfl⟩ := Option.map_eq_some_iff.mp stepped
  cases step_effect ledger.world action after moved with
  | kept _ credentials installs =>
    intro key host device remembered origined found
    have earlier := note_kept ledger.world after ledger.origin action installs key _ origined
    obtain ⟨credential, known, enough⟩ :=
      backed key host device remembered earlier (installs ▸ found)
    exact ⟨credential, by rw [credentials, known], enough⟩
  | installed hostID request written delivered now result unknown credentials installs version =>
    exact installed_backed ledger.world after ledger.origin hostID request written delivered now
      result backed unknown credentials installs version
  | revoked hostID reqID deviceID written delivered now named credentials installs =>
    exact revoked_backed ledger.world after ledger.origin hostID reqID deviceID written delivered
      now backed named credentials installs
  | restarted =>
    intro key host device remembered origined _
    simp [note] at origined

theorem commit_answer (w next : World) (hostID : String) (request : InstallRequest) (written : Bool)
    (now : Time) (reply : Reply) (version : Nat)
    (committed : commitInstall stateFile w hostID request written now = (next, reply))
    (answer : committedVersion reply = some version) :
    (next = w ∧ ∃ result, result.currentVersion = version ∧
        w.installs (installKey hostID request.relayDeviceID request.reqID) = some result) ∨
      Holds next hostID request.relayDeviceID version := by
  unfold commitInstall at committed
  dsimp only at committed
  split at committed
  · rename_i existing found
    cases committed
    exact Or.inl ⟨rfl, existing, by simpa [committedVersion] using answer, found⟩
  · split at committed
    · cases committed
      simp [committedVersion] at answer
    · cases stateFile with
      | false =>
        cases committed
        cases answer
        exact Or.inr (just_assigned w _ hostID request now rfl)
      | true =>
        cases written with
        | true =>
          cases committed
          cases answer
          exact Or.inr (just_assigned w _ hostID request now rfl)
        | false =>
          cases committed
          cases answer

/-- An answer repeats a remembered install, or tells of one the store has just taken. -/
theorem control_answer (w next : World) (hostID : String) (message : ControlMessage) (written : Bool)
    (now : Time) (reply : Reply) (deviceID reqID : String) (version : Nat)
    (handled : handleControlMessage stateFile credentialHash w hostID message written now = (next, some reply))
    (subject : asked message = some (deviceID, reqID)) (answer : committedVersion reply = some version) :
    (next = w ∧ ∃ result, result.currentVersion = version ∧
        w.installs (installKey hostID deviceID reqID) = some result) ∨
      Holds next hostID deviceID version := by
  cases message with
  | credentialInstall request =>
    cases subject
    simp only [handleControlMessage, handleCredentialInstall] at handled
    split at handled
    · cases handled
    · split at handled
      · split at handled
        · split at handled
          · cases handled
            simp [committedVersion] at answer
          · cases handled
            exact commit_answer w _ hostID request written now _ version rfl answer
        · cases handled
          simp [committedVersion] at answer
      · split at handled
        · cases handled
          exact commit_answer w _ hostID request written now _ version rfl answer
        · cases handled
  | installStatus =>
    cases subject
    simp only [handleControlMessage] at handled
    split at handled
    · cases handled
    · cases handled
      cases found : w.installs (installKey hostID deviceID reqID) with
      | none => simp [committedVersion, found] at answer
      | some result => exact Or.inl ⟨rfl, result, by simpa [committedVersion, found] using answer, rfl⟩
  | _ => cases subject

/-- Whatever the relay remembers of the install a message asks about was made for that very
    device, and the device has not been revoked since. -/
def UnrevokedSince (ledger : Ledger) (hostID : String) (message : ControlMessage) : Prop :=
  ∀ deviceID reqID, asked message = some (deviceID, reqID) →
    (ledger.world.installs (installKey hostID deviceID reqID)).isSome →
    ledger.origin (installKey hostID deviceID reqID) = some (hostID, deviceID)

/-- After any run, an answer to a request about an install that was made for the device since its
    last revocation is true of the store. -/
theorem install_answer_truthful (stateFile : Bool) (credentialHash : String → String)
    (actions : List Action) (ledger : Ledger) (hostID : String) (message : ControlMessage)
    (written : Bool) (now : Time) (next : World) (reply : Reply) (deviceID reqID : String)
    (version : Nat)
    (ran : run (ledgerStep stateFile credentialHash) newLedger actions = some ledger)
    (unrevoked : UnrevokedSince ledger hostID message)
    (handled : handleControlMessage stateFile credentialHash ledger.world hostID message written now =
      (next, some reply))
    (subject : asked message = some (deviceID, reqID))
    (answer : committedVersion reply = some version) :
    Holds next hostID deviceID version := by
  have backed : Backed ledger := by
    refine run_invariant Backed step_backed ran ?_
    intro key host device result origined
    cases origined
  rcases control_answer ledger.world next hostID message written now reply deviceID reqID version
    handled subject answer with ⟨rfl, result, rfl, found⟩ | stored
  · have origined := unrevoked deviceID reqID subject (by rw [found]; rfl)
    exact backed _ hostID deviceID result origined found
  · exact stored

def askPhone : ControlMessage := .installStatus 1 "r1" "phone"

theorem install_answer_truthful_status : ∃ ledger reply,
      run (ledgerStep true phoneDigest) newLedger [installPhone] = some ledger ∧
      handleControlMessage true phoneDigest ledger.world "desk" askPhone true 3 = (ledger.world, some reply) ∧
      committedVersion reply = some 1 ∧ Holds ledger.world "desk" "phone" 1 := by
  refine ⟨_, _, rfl, rfl, rfl, ?_⟩
  refine install_answer_truthful true phoneDigest [installPhone] _ "desk" askPhone true 3 _ _ "phone" "r1"
    1 rfl ?_ rfl rfl rfl
  intro deviceID reqID subject _
  cases subject
  rfl

/-- The device is revoked and the status of its install is still "committed" at version 1, with no
    credential of the device left. -/
theorem install_answer_after_revocation : ∃ ledger reply,
      run (ledgerStep true phoneDigest) newLedger [installPhone, revokePhone true] = some ledger ∧
      handleControlMessage true phoneDigest ledger.world "desk" askPhone true 9 = (ledger.world, some reply) ∧
      committedVersion reply = some 1 ∧ ¬ Holds ledger.world "desk" "phone" 1 := by
  refine ⟨_, _, rfl, rfl, rfl, ?_⟩
  rintro ⟨credential, found, _⟩
  have gone : (none : Option Credential) = some credential := found
  cases gone

end PieRelay.InstallStatus
