import PieRelay.Executions
import PieRelay.RoomRegistry

/-!
Device credentials of the mobile relay over its state file,
server/internal/relay/mobile.go. Memory, file and acknowledgement are three things:
every change of the credentials is saved while the lock is held, a save replaces the
whole file or leaves it, and a restart keeps nothing but what `loadState` finds in
it. `handleCredentialInstall` takes a failed save back; `revokeDevice` does not look
at the result and is acknowledged either way. The token hash is a parameter. Texts
and times of the replies that no credential depends on are left out.
-/
namespace PieRelay.MobileRevocation
open Function Executions RoomRegistry List Option

def millisecond : Duration := 1000000
def mobileInviteTTL : Duration := 300000 * millisecond
def mobileResumeTTL : Duration := 2592000000 * millisecond
def mobileGraceTTL : Duration := 86400000 * millisecond

structure Credential where
  currentHash : String
  currentVersion : Nat
  resumeExpiresAt : Time
  graceHash : String
  graceVersion : Nat
  graceExpiresAt : Time
  deriving DecidableEq

structure Invite where
  hostID : String
  deviceID : String
  expiresAt : Time
  attempts : Nat
  maxAttempts : Nat
  deriving DecidableEq

structure Connection where
  id : String
  hostID : String
  deviceID : String
  kind : String
  credentialVersion : Nat
  acceptedAs : String
  leaseExpiresAt : Time
  deriving DecidableEq

structure Installed where
  reqID : String
  authorizationMode : String
  currentVersion : Nat
  resumeExpiresAt : Time
  graceExpiresAt : Option Time
  deriving DecidableEq

inductive Reply where
  | inviteCreated (reqID inviteToken : String) (expiresAt : Time)
  | credentialInstalled (result : Installed)
  | installStatus (reqID : String) (result : Option Installed)
  | resumeConfirmed (reqID : String) (currentVersion : Nat) (acceptedAs : String) (resumeExpiresAt : Time)
  | deviceRevoked (reqID : String)
  | controlError (reqID code : String)
  deriving DecidableEq

abbrev Devices := List (String × Credential)

def Devices.assign : Devices → String → Credential → Devices
  | [], deviceID, credential => [(deviceID, credential)]
  | entry :: rest, deviceID, credential =>
    if entry.1 = deviceID then (deviceID, credential) :: rest
    else entry :: Devices.assign rest deviceID credential

def Devices.delete (devices : Devices) (deviceID : String) : Devices :=
  devices.filter fun entry => entry.1 ≠ deviceID

structure World where
  credentials : String → Devices
  installs : String → Option Installed
  invites : List (String × Invite)
  connections : List Connection
  disk : Option (String → Devices)
  sent : List (String × Reply)
  issued : List (String × String × String)
  unsaved : Bool

def newMobileRelay : World where
  credentials := fun _ => []
  installs := fun _ => none
  invites := []
  connections := []
  disk := none
  sent := []
  issued := []
  unsaved := false

structure InstallRequest where
  v : Int
  reqID : String
  relayDeviceID : String
  newResumeTokenHash : String
  expectedCurrentHash : String
  mode : String
  basisConnID : String
  directAuthID : String

/-- The control messages of a host, after `json.Unmarshal`; anything else is `invalid`. -/
inductive ControlMessage where
  | invalid
  | pong
  | authRefresh (accepted : Bool)
  | inviteCreate (reqID relayDeviceID inviteToken : String)
  | credentialInstall (request : InstallRequest)
  | installStatus (v : Int) (reqID relayDeviceID : String)
  | resumeConfirm (v : Int) (reqID basisConnID : String)
  | deviceRevoke (reqID relayDeviceID : String)

def base64Value (c : Char) : Option Nat :=
  if 'A' ≤ c ∧ c ≤ 'Z' then some (c.toNat - 0x41)
  else if 'a' ≤ c ∧ c ≤ 'z' then some (c.toNat - 0x61 + 26)
  else if '0' ≤ c ∧ c ≤ '9' then some (c.toNat - 0x30 + 52)
  else if c = '-' then some 62
  else if c = '_' then some 63
  else none

/-- 43 digits spell 32 bytes and two spare bits, which a canonical spelling leaves zero. -/
def validBase64URL32 (value : String) : Bool :=
  value.length = 43 ∧ value.toList.all (fun c => (base64Value c).isSome) ∧
    (value.toList.getLast?.bind base64Value).any fun digit => digit % 4 = 0

def installKey (hostID deviceID requestID : String) : String :=
  hostID ++ String.singleton (Char.ofNat 0) ++ deviceID ++ String.singleton (Char.ofNat 0) ++ requestID

section Relay
variable (stateFile : Bool) (credentialHash : String → String)

def acceptedAs (credential : Credential) (hash : String) (now : Time) : Option String :=
  if now < credential.resumeExpiresAt ∧ hash = credential.currentHash then some "current"
  else if credential.graceExpiresAt ≠ 0 ∧ now < credential.graceExpiresAt ∧ hash = credential.graceHash
    then some "grace"
  else none

def resolveResumeLocked (w : World) (hostID token : String) (now : Time) :
    Option (String × String × Credential) :=
  (w.credentials hostID).findSome? fun entry =>
    (acceptedAs entry.2 (credentialHash token) now).map fun kind => (entry.1, kind, entry.2)

def resolveInviteLocked (w : World) (hostID token : String) (now : Time) : World × Option Invite :=
  let key := credentialHash token
  match w.invites.lookup key with
  | some invite =>
    if invite.hostID ≠ hostID ∨ ¬ now < invite.expiresAt ∨ invite.maxAttempts ≤ invite.attempts then
      ({ w with invites := w.invites.filter fun entry => entry.1 ≠ key }, none)
    else
      let tried := { invite with attempts := invite.attempts + 1 }
      ({ w with invites := (key, tried) :: w.invites.filter fun entry => entry.1 ≠ key }, some tried)
  | none => (w, none)

def saveStateLocked (w : World) (written : Bool) : World × Bool :=
  if ¬ stateFile then ({ w with unsaved := false }, true)
  else if written then ({ w with disk := some w.credentials, unsaved := false }, true)
  else (w, false)

def restart (w : World) : World :=
  { w with
    credentials := if stateFile then w.disk.getD fun _ => [] else fun _ => []
    installs := fun _ => none
    invites := []
    connections := []
    unsaved := false }

def setDevices (w : World) (hostID : String) (devices : Devices) : World :=
  { w with credentials := update w.credentials hostID devices }

def newCredential (previous : Option Credential) (hash : String) (now : Time) : Credential :=
  match previous with
  | none => ⟨hash, 1, now + mobileResumeTTL, "", 0, 0⟩
  | some old => ⟨hash, old.currentVersion + 1, now + mobileResumeTTL, old.currentHash,
      old.currentVersion, now + mobileGraceTTL⟩

def commitInstall (w : World) (hostID : String) (request : InstallRequest) (written : Bool) (now : Time) :
    World × Reply :=
  let key := installKey hostID request.relayDeviceID request.reqID
  match w.installs key with
  | some existing => (w, .credentialInstalled existing)
  | none =>
    let devices := w.credentials hostID
    let previous := devices.lookup request.relayDeviceID
    if request.expectedCurrentHash ≠ "" ∧
        ¬ (previous.any fun old => old.currentHash = request.expectedCurrentHash) then
      (w, .controlError request.reqID "credential_conflict")
    else
      let credential := newCredential previous request.newResumeTokenHash now
      let result : Installed :=
        { reqID := request.reqID, authorizationMode := request.mode
          currentVersion := credential.currentVersion, resumeExpiresAt := credential.resumeExpiresAt
          graceExpiresAt := if credential.graceExpiresAt = 0 then none else some credential.graceExpiresAt }
      let assigned := setDevices w hostID (devices.assign request.relayDeviceID credential)
      let (saved, ok) := saveStateLocked stateFile
        { assigned with installs := update w.installs key (some result) } written
      if ok then
        ({ saved with issued := saved.issued ++ [(hostID, request.relayDeviceID,
            request.newResumeTokenHash)] }, .credentialInstalled result)
      else
        let devices := saved.credentials hostID
        let restored := match previous with
          | none => devices.delete request.relayDeviceID
          | some old => devices.assign request.relayDeviceID old
        ({ setDevices saved hostID restored with installs := update saved.installs key none },
          .controlError request.reqID "credential_store_failed")

def handleCredentialInstall (w : World) (hostID : String) (request : InstallRequest) (written : Bool)
    (now : Time) : World × Option Reply :=
  if request.v ≠ 1 ∨ request.reqID = "" ∨ request.relayDeviceID = "" ∨
      ¬ validBase64URL32 request.newResumeTokenHash then (w, none)
  else if request.mode = "relay-basis" then
    match w.connections.find? fun connection => connection.id = request.basisConnID with
    | some basis =>
      if basis.hostID ≠ hostID ∨ basis.deviceID ≠ request.relayDeviceID ∨ basis.kind ≠ "invite" then
        (w, some (.controlError request.reqID "invalid_relay_basis"))
      else
        let (next, reply) := commitInstall stateFile w hostID request written now
        (next, some reply)
    | none => (w, some (.controlError request.reqID "invalid_relay_basis"))
  else if request.mode = "authenticated-direct" ∧ request.directAuthID ≠ "" then
    let (next, reply) := commitInstall stateFile w hostID request written now
    (next, some reply)
  else (w, none)

/-- The result of the save is dropped, as in the source. -/
def revokeDevice (w : World) (hostID deviceID : String) (written : Bool) : World :=
  let revoked := { setDevices w hostID ((w.credentials hostID).delete deviceID) with
    invites := w.invites.filter fun entry => ¬ (entry.2.hostID = hostID ∧ entry.2.deviceID = deviceID)
    unsaved := true }
  let (saved, _) := saveStateLocked stateFile revoked written
  -- the device's connections are closed outside the lock
  { saved with connections := saved.connections.filter fun connection =>
      ¬ (connection.hostID = hostID ∧ connection.deviceID = deviceID) }

def handleControlMessage (w : World) (hostID : String) (message : ControlMessage) (written : Bool)
    (now : Time) : World × Option Reply :=
  match message with
  | .invalid => (w, none)
  | .pong => (w, none)
  | .authRefresh _ => (w, none)
  | .inviteCreate reqID relayDeviceID inviteToken =>
    if reqID = "" ∨ relayDeviceID = "" then (w, none)
    else
      let expires := now + mobileInviteTTL
      ({ w with invites := (credentialHash inviteToken, ⟨hostID, relayDeviceID, expires, 0, 8⟩) ::
          w.invites.filter fun entry => entry.1 ≠ credentialHash inviteToken },
        some (.inviteCreated reqID inviteToken expires))
  | .credentialInstall request => handleCredentialInstall stateFile w hostID request written now
  | .installStatus v reqID relayDeviceID =>
    if v ≠ 1 ∨ reqID = "" then (w, none)
    else (w, some (.installStatus reqID (w.installs (installKey hostID relayDeviceID reqID))))
  | .resumeConfirm v reqID basisConnID =>
    if v ≠ 1 ∨ reqID = "" then (w, none)
    else match w.connections.find? fun connection => connection.id = basisConnID with
      | some connection =>
        if connection.hostID ≠ hostID ∨ connection.kind ≠ "resume" then
          (w, some (.controlError reqID "resume_basis_not_found"))
        else (w, some (.resumeConfirmed reqID connection.credentialVersion connection.acceptedAs
          connection.leaseExpiresAt))
      | none => (w, some (.controlError reqID "resume_basis_not_found"))
  | .deviceRevoke reqID relayDeviceID =>
    if reqID = "" ∨ relayDeviceID = "" then (w, none)
    else (revokeDevice stateFile w hostID relayDeviceID written, some (.deviceRevoked reqID))

def admitPhone (w : World) (hostID token connID : String) (now : Time) : World :=
  let (next, invite) := resolveInviteLocked credentialHash w hostID token now
  let connection := match invite with
    | some invite => some (⟨connID, hostID, invite.deviceID, "invite", 0, "", invite.expiresAt⟩ : Connection)
    | none => (resolveResumeLocked credentialHash next hostID token now).map fun found =>
      if found.2.1 = "current" then
        ⟨connID, hostID, found.1, "resume", found.2.2.currentVersion, found.2.1,
          found.2.2.resumeExpiresAt⟩
      else ⟨connID, hostID, found.1, "resume", found.2.2.graceVersion, found.2.1,
        found.2.2.graceExpiresAt⟩
  match connection with
  | some connection =>
    if 1024 ≤ next.connections.length then next
    else { next with connections := connection :: next.connections }
  | none => next

/-- What happens next. A control message meets a save that is written or fails, and a reply
    that is delivered or not. -/
inductive Action where
  | control (hostID : String) (message : ControlMessage) (written delivered : Bool) (now : Time)
  | phone (hostID token connID : String) (now : Time)
  | closeConnection (connID : String)
  | restart

def step (w : World) : Action → Option World
  | .control hostID message written delivered now =>
    let (next, reply) := handleControlMessage stateFile credentialHash w hostID message written now
    match reply with
    | some reply =>
      some { next with sent := if delivered then next.sent ++ [(hostID, reply)] else next.sent }
    | none => some next
  | .phone hostID token connID now => some (admitPhone credentialHash w hostID token connID now)
  | .closeConnection connID =>
    some { w with connections := w.connections.filter fun connection => connection.id ≠ connID }
  | .restart => some (restart stateFile w)

end Relay

section
variable (devices : Devices) (deviceID : String)
include devices deviceID

theorem assign_members (credential : Credential)
    (entry : String × Credential) (member : entry ∈ devices.assign deviceID credential) :
    entry = (deviceID, credential) ∨ entry ∈ devices := by
  induction devices with
  | nil => exact Or.inl (mem_singleton.mp member)
  | cons first rest ih =>
    unfold Devices.assign at member
    split at member
    · rcases mem_cons.mp member with new | old
      · exact Or.inl new
      · exact Or.inr (mem_cons_of_mem first old)
    · rcases mem_cons.mp member with here | there
      · exact Or.inr (here ▸ mem_cons_self)
      · exact (ih there).imp_right (mem_cons_of_mem first)

theorem lookup_member (credential : Credential)
    (found : devices.lookup deviceID = some credential) : (deviceID, credential) ∈ devices := by
  obtain ⟨before, after, split, -⟩ := lookup_eq_some_iff.mp found
  rw [split]
  simp

-- A failed install leaves the devices exactly as they were.
theorem assign_previous (old credential : Credential) (found : devices.lookup deviceID = some old) :
    (devices.assign deviceID credential).assign deviceID old = devices := by
  induction devices with
  | nil => simp at found
  | cons first rest ih =>
    obtain ⟨key, value⟩ := first
    by_cases same : key = deviceID
    · subst same
      simp only [lookup_cons_self, some.injEq] at found
      simp [Devices.assign, found]
    · have other : (deviceID == key) = false := by simpa using Ne.symm same
      simp only [lookup_cons, other] at found
      simp [Devices.assign, same, ih found]

theorem delete_assigned (credential : Credential) (missing : devices.lookup deviceID = none) :
    (devices.assign deviceID credential).delete deviceID = devices := by
  induction devices with
  | nil => simp [Devices.assign, Devices.delete]
  | cons first rest ih =>
    obtain ⟨key, value⟩ := first
    by_cases same : key = deviceID
    · subst same
      simp at missing
    · have other : (deviceID == key) = false := by simpa using Ne.symm same
      simp only [lookup_cons, other] at missing
      have rest := ih missing
      unfold Devices.delete at rest ⊢
      simpa [Devices.assign, same] using rest

end

variable {stateFile : Bool} {credentialHash : String → String}

inductive Change (stateFile : Bool) (w next : World) : Action → Prop where
  | kept (action : Action) (credentials : next.credentials = w.credentials)
      (disk : next.disk = w.disk) (issued : next.issued = w.issued)
      (unsaved : next.unsaved = w.unsaved) : Change stateFile w next action
  | installed (hostID : String) (request : InstallRequest) (written delivered : Bool) (now : Time)
      (credentials : next.credentials = update w.credentials hostID ((w.credentials hostID).assign
        request.relayDeviceID (newCredential ((w.credentials hostID).lookup request.relayDeviceID)
          request.newResumeTokenHash now)))
      (disk : stateFile → next.disk = some next.credentials)
      (issued : next.issued =
        w.issued ++ [(hostID, request.relayDeviceID, request.newResumeTokenHash)]) :
      Change stateFile w next (.control hostID (.credentialInstall request) written delivered now)
  | revoked (hostID reqID deviceID : String) (written delivered : Bool) (now : Time)
      (credentials : next.credentials =
        update w.credentials hostID ((w.credentials hostID).delete deviceID))
      (disk : next.unsaved = false → stateFile → next.disk = some next.credentials)
      (issued : next.issued = w.issued) :
      Change stateFile w next (.control hostID (.deviceRevoke reqID deviceID) written delivered now)
  | restarted (credentials : next.credentials =
        if stateFile then w.disk.getD fun _ => [] else fun _ => [])
      (disk : next.disk = w.disk) (issued : next.issued = w.issued) :
      Change stateFile w next .restart

theorem commit_change (w : World) (hostID : String) (request : InstallRequest)
    (written delivered : Bool) (now : Time) (sent : List (String × Reply)) :
    Change stateFile w { (commitInstall stateFile w hostID request written now).1 with sent := sent }
      (.control hostID (.credentialInstall request) written delivered now) := by
  unfold commitInstall
  dsimp only
  split
  · exact .kept _ rfl rfl rfl rfl
  · split
    · exact .kept _ rfl rfl rfl rfl
    · cases stateFile with
      | false => exact .installed hostID request written delivered now rfl (fun file => nomatch file) rfl
      | true =>
        cases written with
        | true => exact .installed hostID request true delivered now rfl (fun _ => rfl) rfl
        | false =>
          refine .kept _ ?_ rfl rfl rfl
          simp only [saveStateLocked, setDevices, update_self, update_idem,
            not_true_eq_false, Bool.false_eq_true, if_false]
          cases found : (w.credentials hostID).lookup request.relayDeviceID with
          | none => simp [delete_assigned _ _ _ found]
          | some => simp [assign_previous _ _ _ _ found]

theorem install_change (w : World) (hostID : String) (request : InstallRequest)
    (written delivered : Bool) (now : Time) (sent : List (String × Reply)) :
    Change stateFile w { (handleCredentialInstall stateFile w hostID request written now).1 with sent := sent }
      (.control hostID (.credentialInstall request) written delivered now) := by
  unfold handleCredentialInstall
  split
  · exact .kept _ rfl rfl rfl rfl
  · split
    · split
      · split
        · exact .kept _ rfl rfl rfl rfl
        · exact commit_change w hostID request written delivered now sent
      · exact .kept _ rfl rfl rfl rfl
    · split
      · exact commit_change w hostID request written delivered now sent
      · exact .kept _ rfl rfl rfl rfl

theorem revoke_change (w : World) (hostID reqID deviceID : String) (written delivered : Bool)
    (now : Time) (sent : List (String × Reply)) :
    Change stateFile w { revokeDevice stateFile w hostID deviceID written with sent := sent }
      (.control hostID (.deviceRevoke reqID deviceID) written delivered now) := by
  cases stateFile with
  | false => exact .revoked hostID reqID deviceID written delivered now rfl (fun _ file => nomatch file) rfl
  | true =>
    cases written with
    | true => exact .revoked hostID reqID deviceID true delivered now rfl (fun _ _ => rfl) rfl
    | false =>
      exact .revoked hostID reqID deviceID false delivered now rfl (fun saved => nomatch saved) rfl

theorem control_change (w : World) (hostID : String) (message : ControlMessage)
    (written delivered : Bool) (now : Time) (sent : List (String × Reply)) :
    Change stateFile w
      { (handleControlMessage stateFile credentialHash w hostID message written now).1 with sent := sent }
      (.control hostID message written delivered now) := by
  cases message with
  | invalid | pong | authRefresh => exact .kept _ rfl rfl rfl rfl
  | inviteCreate | installStatus =>
    simp only [handleControlMessage]
    split <;> exact .kept _ rfl rfl rfl rfl
  | credentialInstall request => exact install_change w hostID request written delivered now sent
  | resumeConfirm =>
    simp only [handleControlMessage]
    split
    · exact .kept _ rfl rfl rfl rfl
    · split
      · split <;> exact .kept _ rfl rfl rfl rfl
      · exact .kept _ rfl rfl rfl rfl
  | deviceRevoke reqID relayDeviceID =>
    simp only [handleControlMessage]
    split
    · exact .kept _ rfl rfl rfl rfl
    · exact revoke_change w hostID reqID relayDeviceID written delivered now sent

theorem invite_kept (w : World) (hostID token : String) (now : Time) :
    (resolveInviteLocked credentialHash w hostID token now).1.credentials = w.credentials ∧
      (resolveInviteLocked credentialHash w hostID token now).1.disk = w.disk ∧
      (resolveInviteLocked credentialHash w hostID token now).1.issued = w.issued ∧
      (resolveInviteLocked credentialHash w hostID token now).1.unsaved = w.unsaved := by
  unfold resolveInviteLocked
  dsimp only
  split
  · split <;> exact ⟨rfl, rfl, rfl, rfl⟩
  · exact ⟨rfl, rfl, rfl, rfl⟩

theorem step_change (w : World) (action : Action) (next : World)
    (stepped : step stateFile credentialHash w action = some next) : Change stateFile w next action := by
  cases action with
  | control hostID message written delivered now =>
    simp only [step] at stepped
    split at stepped
    · cases stepped
      exact control_change w hostID message written delivered now _
    · cases stepped
      exact control_change w hostID message written delivered now _
  | phone hostID token connID now =>
    cases stepped
    obtain ⟨credentials, disk, issued, unsaved⟩ :=
      @invite_kept credentialHash w hostID token now
    simp only [admitPhone]
    split
    · split <;> exact .kept _ credentials disk issued unsaved
    · exact .kept _ credentials disk issued unsaved
  | closeConnection =>
    cases stepped
    exact .kept _ rfl rfl rfl rfl
  | restart =>
    cases stepped
    exact .restarted rfl rfl rfl

def Credential.hashes (credential : Credential) : List String :=
  if credential.graceExpiresAt = 0 then [credential.currentHash]
  else [credential.currentHash, credential.graceHash]

theorem accepted_hash {credential : Credential} {hash kind : String} {now : Time}
    (accepted : acceptedAs credential hash now = some kind) : hash ∈ credential.hashes := by
  unfold acceptedAs at accepted
  unfold Credential.hashes
  split at accepted
  · rename_i current
    split <;> simp [current.2]
  · split at accepted
    · rename_i grace
      simp [grace.1, grace.2.2]
    · contradiction

theorem new_credential_hashes (previous : Option Credential) (hash other : String) (now : Time)
    (member : other ∈ (newCredential previous hash now).hashes) :
    other = hash ∨ ∃ old, previous = some old ∧ other ∈ old.hashes := by
  cases previous with
  | none =>
    refine Or.inl ?_
    simpa [newCredential, Credential.hashes] using member
  | some old =>
    have among : other = hash ∨ other = old.currentHash := by
      unfold Credential.hashes at member
      split at member
      · exact Or.inl (mem_singleton.mp member)
      · simpa [newCredential] using member
    refine among.imp_right fun same => ⟨old, rfl, ?_⟩
    unfold Credential.hashes
    split <;> simp [same]

/-- The condition on a single action: no restart while a revocation is missing from the file,
    and no device of a host is given a hash that another one was given. -/
def Careful (w : World) : Action → Prop
  | .restart => w.unsaved = false
  | .control hostID (.credentialInstall request) _ _ _ =>
    ∀ other, (hostID, other, request.newResumeTokenHash) ∈ w.issued → other = request.relayDeviceID
  | _ => True

structure Tidy (stateFile : Bool) (w : World) : Prop where
  recorded : ∀ host, ∀ entry ∈ w.credentials host, ∀ hash ∈ entry.2.hashes,
    (host, entry.1, hash) ∈ w.issued
  stored : w.unsaved = false → stateFile → (w.disk.getD fun _ => []) = w.credentials
  owner : ∀ host device other hash, (host, device, hash) ∈ w.issued →
    (host, other, hash) ∈ w.issued → device = other

theorem new_tidy : Tidy stateFile newMobileRelay :=
  ⟨fun _ _ member => (not_mem_nil member).elim, fun _ _ => rfl, fun _ _ _ _ member => (not_mem_nil member).elim⟩

theorem installed_entry {w : World} {hostID : String} {request : InstallRequest} {now : Time}
    {host : String} {entry : String × Credential} {hash : String}
    (member : entry ∈ update w.credentials hostID ((w.credentials hostID).assign
      request.relayDeviceID (newCredential ((w.credentials hostID).lookup request.relayDeviceID)
        request.newResumeTokenHash now)) host) (held : hash ∈ entry.2.hashes) :
    (host = hostID ∧ entry.1 = request.relayDeviceID ∧ hash = request.newResumeTokenHash) ∨
      ∃ old, (entry.1, old) ∈ w.credentials host ∧ hash ∈ old.hashes := by
  by_cases same : host = hostID
  · subst same
    rw [update_self] at member
    rcases assign_members _ _ _ _ member with new | known
    · subst new
      rcases new_credential_hashes _ _ _ _ held with given | ⟨old, found, earlier⟩
      · exact Or.inl ⟨rfl, rfl, given⟩
      · exact Or.inr ⟨old, lookup_member _ _ _ found, earlier⟩
    · exact Or.inr ⟨entry.2, known, held⟩
  · rw [update_of_ne same] at member
    exact Or.inr ⟨entry.2, member, held⟩

theorem deleted_entry {credentials : String → Devices} {hostID deviceID host : String} {entry : String × Credential}
    (member : entry ∈ update credentials hostID ((credentials hostID).delete deviceID) host) :
    entry ∈ credentials host ∧ ¬ (host = hostID ∧ entry.1 = deviceID) := by
  by_cases same : host = hostID
  · subst same
    rw [update_self] at member
    have kept := mem_filter.mp member
    exact ⟨kept.1, by simpa using kept.2⟩
  · rw [update_of_ne same] at member
    exact ⟨member, fun both => same both.1⟩

theorem step_tidy (w : World) (action : Action) (next : World) (careful : Careful w action)
    (tidy : Tidy stateFile w) (stepped : step stateFile credentialHash w action = some next) :
    Tidy stateFile next := by
  cases step_change w action next stepped with
  | kept _ credentials disk issued unsaved =>
    refine ⟨?_, ?_, ?_⟩
    · rw [credentials, issued]
      exact tidy.recorded
    · rw [unsaved, disk, credentials]
      exact tidy.stored
    · rw [issued]
      exact tidy.owner
  | installed hostID request written delivered now credentials disk issued =>
    refine ⟨?_, ?_, ?_⟩
    · intro host entry member hash held
      rw [credentials] at member
      rw [issued]
      rcases installed_entry member held with ⟨rfl, device, rfl⟩ | ⟨old, known, earlier⟩
      · exact mem_append_right _ (by simp [device])
      · exact mem_append_left _ (tidy.recorded host (entry.1, old) known hash earlier)
    · intro _ file
      rw [disk file]
      rfl
    · intro host device other hash first second
      rw [issued] at first second
      simp only [mem_append, mem_singleton, Prod.mk.injEq] at first second
      rcases first with first | ⟨here, mine, given⟩ <;> rcases second with second | ⟨there, its, known⟩
      · exact tidy.owner host device other hash first second
      · subst there its known
        exact careful device first
      · subst here mine given
        exact (careful other second).symm
      · exact mine.trans its.symm
  | revoked hostID reqID deviceID written delivered now credentials disk issued =>
    refine ⟨?_, ?_, ?_⟩
    · intro host entry member hash held
      rw [credentials] at member
      rw [issued]
      exact tidy.recorded host entry (deleted_entry member).1 hash held
    · intro saved file
      rw [disk saved file]
      rfl
    · rw [issued]
      exact tidy.owner
  | restarted credentials disk issued =>
    have same : stateFile → next.credentials = w.credentials := by
      intro file
      rw [credentials, if_pos file, tidy.stored careful file]
    refine ⟨?_, ?_, ?_⟩
    · intro host entry member hash held
      rw [issued]
      cases stateFile with
      | true => exact tidy.recorded host entry (same rfl ▸ member) hash held
      | false => simp [credentials] at member
    · intro _ file
      rw [disk, credentials, if_pos file]
    · rw [issued]
      exact tidy.owner

def ValidFor (credentialHash : String → String) (w : World) (hostID deviceID token : String)
    (now : Time) : Prop :=
  ∃ credential, (deviceID, credential) ∈ w.credentials hostID ∧
    (acceptedAs credential (credentialHash token) now).isSome

def PutsBack (hostID deviceID hash : String) : Action → Prop
  | .control host (.credentialInstall request) _ _ _ =>
    host = hostID ∧ request.relayDeviceID = deviceID ∧ request.newResumeTokenHash = hash
  | _ => False

def Barred (hostID deviceID hash : String) (w : World) : Prop :=
  ∀ entry ∈ w.credentials hostID, entry.1 = deviceID → hash ∉ entry.2.hashes

theorem issued_kept (w : World) (action : Action) (next : World)
    (stepped : step stateFile credentialHash w action = some next) :
    ∀ record ∈ w.issued, record ∈ next.issued := by
  cases step_change w action next stepped with
  | kept _ _ _ issued | revoked _ _ _ _ _ _ _ _ issued | restarted _ _ issued =>
    exact fun record member => issued ▸ member
  | installed _ _ _ _ _ _ _ issued => exact fun record member => issued ▸ mem_append_left _ member

theorem step_barred (hostID deviceID hash : String) (w : World) (action : Action) (next : World)
    (allowed : Careful w action ∧ ¬ PutsBack hostID deviceID hash action)
    (held : Tidy stateFile w ∧ Barred hostID deviceID hash w)
    (stepped : step stateFile credentialHash w action = some next) :
    Tidy stateFile next ∧ Barred hostID deviceID hash next := by
  refine ⟨step_tidy w action next allowed.1 held.1 stepped, ?_⟩
  intro entry member device answers
  have absent : ∀ credential, (entry.1, credential) ∈ w.credentials hostID →
      hash ∉ credential.hashes := fun credential known => held.2 (entry.1, credential) known device
  cases step_change w action next stepped with
  | kept _ credentials =>
    exact absent entry.2 (credentials ▸ member) answers
  | installed host request written delivered now credentials =>
    rw [credentials] at member
    rcases installed_entry member answers with ⟨here, mine, given⟩ | ⟨old, known, earlier⟩
    · exact allowed.2 ⟨here.symm, mine.symm.trans device, given.symm⟩
    · exact absent old known earlier
  | revoked host reqID other written delivered now credentials =>
    rw [credentials] at member
    exact absent entry.2 (deleted_entry member).1 answers
  | restarted credentials =>
    rw [credentials] at member
    cases stateFile with
    | true =>
      rw [if_pos rfl, held.1.stored allowed.1 rfl] at member
      exact absent entry.2 member answers
    | false => simp at member

theorem revoke_credentials (w : World) (hostID deviceID : String) (written : Bool) :
    (revokeDevice stateFile w hostID deviceID written).credentials =
      update w.credentials hostID ((w.credentials hostID).delete deviceID) := by
  cases stateFile <;> cases written <;> rfl

-- An acknowledged revocation has taken the device out of memory.
theorem revoke_bars (w next : World) (hostID deviceID reqID hash : String) (written delivered : Bool) (now : Time)
    (stepped : step stateFile credentialHash w
      (.control hostID (.deviceRevoke reqID deviceID) written delivered now) = some next)
    (acknowledged : next.sent = w.sent ++ [(hostID, .deviceRevoked reqID)]) :
    Barred hostID deviceID hash next := by
  by_cases invalid : reqID = "" ∨ deviceID = ""
  · simp only [step, handleControlMessage, if_pos invalid, some.injEq] at stepped
    subst stepped
    simp at acknowledged
  · simp only [step, handleControlMessage, if_neg invalid, some.injEq] at stepped
    subst stepped
    intro entry member device
    rw [revoke_credentials] at member
    exact absurd ⟨rfl, device⟩ (deleted_entry member).2

/-- In every run whose restarts find the last revocation in the file, an acknowledged
    revocation is final: a token that was valid for the device is never accepted again,
    unless a new install for the device puts its hash back. -/
theorem revocation_durable (stateFile : Bool) (credentialHash : String → String)
    (early late after : List Action) (hostID deviceID reqID token : String)
    (written delivered : Bool) (clock now : Time) (valid revoking revoked last : World)
    (first : run (step stateFile credentialHash) newMobileRelay early = some valid)
    (accepted : ValidFor credentialHash valid hostID deviceID token clock)
    (second : run (step stateFile credentialHash) valid late = some revoking)
    (revocation : step stateFile credentialHash revoking
      (.control hostID (.deviceRevoke reqID deviceID) written delivered now) = some revoked)
    (acknowledged : revoked.sent = revoking.sent ++ [(hostID, .deviceRevoked reqID)])
    (third : run (step stateFile credentialHash) revoked after = some last)
    (careful : Guarded (step stateFile credentialHash) Careful newMobileRelay (early ++ (late ++
        .control hostID (.deviceRevoke reqID deviceID) written delivered now :: after)))
    (notPutBack : ∀ action ∈ after, ¬ PutsBack hostID deviceID (credentialHash token) action) :
    ∀ later, resolveResumeLocked credentialHash last hostID token later = none := by
  obtain ⟨begun, rest⟩ := guarded_append early _ careful first
  obtain ⟨continued, closing⟩ := guarded_append late _ rest second
  have tidyValid := guarded_run_invariant (Tidy stateFile) step_tidy begun first new_tidy
  have tidyRevoking := guarded_run_invariant (Tidy stateFile) step_tidy continued second tidyValid
  have tidyRevoked := step_tidy revoking _ revoked closing.1 tidyRevoking revocation
  have barred := revoke_bars revoking revoked hostID deviceID reqID (credentialHash token) written
    delivered now revocation acknowledged
  have ended := guarded_run_invariant (fun w => Tidy stateFile w ∧ Barred hostID deviceID (credentialHash token) w)
    (step_barred hostID deviceID (credentialHash token))
    (guarded_all (fun action => ¬ PutsBack hostID deviceID (credentialHash token) action)
      (closing.2 revoked revocation) notPutBack) third ⟨tidyRevoked, barred⟩
  have given : (hostID, deviceID, credentialHash token) ∈ last.issued := by
    obtain ⟨credential, member, answers⟩ := accepted
    obtain ⟨kind, resumed⟩ := isSome_iff_exists.mp answers
    have recorded := tidyValid.recorded hostID _ member _ (accepted_hash resumed)
    have monotone := fun (w w' : World) actions (ran : run (step stateFile credentialHash) w actions = some w') =>
      run_relation (fun w w' : World => ∀ record ∈ w.issued, record ∈ w'.issued)
        (fun _ _ member => member) (fun _ _ _ left right record member => right record (left record member))
        issued_kept ran
    exact monotone _ _ _ third _ (issued_kept _ _ _ revocation _ (monotone _ _ _ second _ recorded))
  intro later
  refine findSome?_eq_none_iff.mpr ?_
  intro entry member
  refine map_eq_none_iff.mpr (eq_none_iff_forall_ne_some.mpr ?_)
  intro kind resumed
  have answers := accepted_hash resumed
  have recorded := ended.1.recorded hostID entry member _ answers
  exact ended.2 entry member (ended.1.owner hostID entry.1 deviceID _ recorded given) answers

def phoneToken : String := "AAAAAAAAAAAAAAAAAAAAAAAAAAAAAAAAAAAAAAAAAAA"

def phoneHash : String := "DwBzhbb51LfusnSGBa_hqYSgo7-j8BTQnip4TOnlzRo"

def phoneDigest (token : String) : String := if token = phoneToken then phoneHash else ""

def phoneInstall : InstallRequest where
  v := 1
  reqID := "r1"
  relayDeviceID := "phone"
  newResumeTokenHash := phoneHash
  expectedCurrentHash := ""
  mode := "authenticated-direct"
  basisConnID := ""
  directAuthID := "d1"

def installPhone : Action := .control "desk" (.credentialInstall phoneInstall) true true 1

def revokePhone (written : Bool) : Action :=
  .control "desk" (.deviceRevoke "r2" "phone") written true 5

def carefulCheck (w : World) : Action → Bool
  | .restart => !w.unsaved
  | .control hostID (.credentialInstall request) _ _ _ =>
    w.issued.all fun record => record.1 != hostID || record.2.2 != request.newResumeTokenHash ||
      record.2.1 == request.relayDeviceID
  | _ => true

theorem careful_check (w : World) (action : Action) (passed : carefulCheck w action) : Careful w action := by
  unfold carefulCheck at passed
  unfold Careful
  split at passed
  · simpa using passed
  · intro other member
    have each := all_eq_true.mp passed _ member
    simpa using each
  · trivial

theorem revocation_durable_restart : ∃ last, run (step true phoneDigest) newMobileRelay
        [installPhone, revokePhone true, .restart] = some last ∧
      resolveResumeLocked phoneDigest last "desk" phoneToken 9 = none := by
  refine ⟨_, rfl, ?_⟩
  refine revocation_durable true phoneDigest [installPhone] [] [.restart] "desk" "phone" "r2" phoneToken
    true true 3 5 _ _ _ _ rfl ?_ rfl rfl rfl rfl ?_ ?_ 9
  · exact ⟨newCredential none phoneHash 1, mem_singleton.mpr rfl, by decide⟩
  · exact checked_guarded carefulCheck careful_check newMobileRelay _ rfl
  · intro action member
    cases mem_singleton.mp member
    exact id

/-- The save of the revocation fails, the host is told "device-revoked" all the same, and the
    next start of the relay takes the token. -/
theorem revocation_durable_unsaved : ∃ valid revoked last,
      run (step true phoneDigest) newMobileRelay [installPhone] = some valid ∧
      ValidFor phoneDigest valid "desk" "phone" phoneToken 3 ∧
      step true phoneDigest valid (revokePhone false) = some revoked ∧
      ("desk", .deviceRevoked "r2") ∈ revoked.sent ∧
      run (step true phoneDigest) revoked [.restart] = some last ∧
      (resolveResumeLocked phoneDigest last "desk" phoneToken 9).isSome := by
  refine ⟨_, _, _, rfl, ?_, rfl, by decide, rfl, by decide⟩
  exact ⟨newCredential none phoneHash 1, mem_singleton.mpr rfl, by decide⟩

end PieRelay.MobileRevocation
