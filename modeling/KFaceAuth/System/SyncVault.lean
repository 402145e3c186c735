import KFaceAuth.System.Freshness

/-!
# Installing system profiles

The operations of `kfaceauth-sync-vault`, run as root for one user: copying the
profile of the user to the system vault and turning a target on
(`syncProfile`), turning a target off (`disableTarget`), and deleting the
system profile (`deleteSystemProfile`).

What the system answers beside the state of its files is an argument
(`Answers`): the times and random bytes that names are made of, the key that is
generated, and what the external setup command returns. Values with a
destructor are scopes, whose last program is the destructor.
-/

namespace KFaceAuth

open Prog Fs

/-! ## Names -/

/-- Two hexadecimal digits for each byte. -/
def hex (bs : List UInt8) : List UInt8 :=
  bs.flatMap fun b => [digit (b / 16), digit (b % 16)]
where
  digit (n : UInt8) : UInt8 := if n < 10 then 48 + n else 87 + n

/-- A name as the bytes of its text. -/
def Name.text : Name → List UInt8
  | .varLib => ascii "lib"
  | .etc => ascii "etc"
  | .kfaceauth => ascii "kfaceauth"
  | .keys => ascii "keys"
  | .policyJson => ascii "policy.json"
  | .policyLock => ascii ".policy.lock"
  | .policyTmp pid nonce =>
    ascii ".policy.json." ++ decimal pid ++ ascii "." ++ decimal nonce ++ ascii ".tmp"
  | .uid user => decimal user.toNat
  | .key user => decimal user.toNat ++ ascii ".key"
  | .syncLock user => ascii ".sync-" ++ decimal user.toNat ++ ascii ".lock"
  | .keyTmp suffix => ascii ".key_" ++ hex suffix ++ ascii ".tmp"
  | .staging pid nonce => ascii ".kfaceauth-sync-" ++ decimal pid ++ ascii "-" ++ decimal nonce
  | .previous user nonce =>
    ascii ".kfaceauth-previous-" ++ decimal user.toNat ++ ascii "-" ++ decimal nonce
  | .revoked user stem isKey =>
    ascii ".revoked-" ++ decimal user.toNat ++ ascii "-" ++ stem.toUTF8.data.toList ++
      if isKey then ascii ".key" else []
  | .identityVault => ascii "identity.vault"
  | .identityLock => ascii "identity.lock"
  | .identityTmp suffix => ascii ".identity.vault." ++ hex suffix ++ ascii ".tmp"
  | .identityFreshness => ascii "identity.freshness"
  | .other text => text.toUTF8.data.toList

/-- `Path::extension`: what follows the last dot, unless nothing is before it. -/
def extension (name : List UInt8) : Option (List UInt8) :=
  let reversed := name.reverse.takeWhile (· ≠ 46)
  if reversed.length + 1 < name.length then some reversed.reverse else none

/-- `.revoked-<uid>-` -/
def revokedPrefix (uid : UInt32) : List UInt8 :=
  ascii ".revoked-" ++ decimal uid.toNat ++ ascii "-"

namespace SyncVault

/-- `AnchoredDirectories::system_root` -/
def systemRoot : Path := [.varLib, .kfaceauth]

/-- `AnchoredDirectories::config_dir` -/
def configDir : Path := [.etc, .kfaceauth]

/-- `AnchoredDirectories::keys_dir` -/
def keysDir : Path := [.etc, .kfaceauth, .keys]

def profilePath (uid : UInt32) : Path := systemRoot ++ [Name.uid uid]

def keyPath (uid : UInt32) : Path := keysDir ++ [Name.key uid]

def policyLock : Path := configDir ++ [Name.policyLock]

/-! ## Shared helpers -/

/-- What the system answers to a run. -/
structure Answers where
  pid : ℕ
  /-- The time at each replacement of the policy. -/
  policyNonce : ℕ → ℕ
  stagingNonce : ℕ
  previousNonce : ℕ
  revokedNonce : ℕ
  /-- The random bytes in the name of the temporary key file. -/
  keySuffix : List UInt8
  /-- `MasterKey::generate` -/
  generated : MasterKey
  draws : Vault.Draws
  retries : ℕ
  /-- The setup command, if it could be started, reports success. -/
  setupSucceeds : Bool

/-- The value of a program, unless it failed. -/
def value? {ε α : Type} (x : ExceptT ε FileProg α) : FileProg (Option α) := do
  match ← x.run with
  | .ok a => return some a
  | .error _ => return none

/-- `is_ok` -/
def isOk {ε α : Type} (x : ExceptT ε FileProg α) : FileProg Bool := do
  match ← x.run with
  | .ok _ => return true
  | .error _ => return false

variable (env : Env) (a : Answers)

/-- `lock_child_file_nonblocking`, as root. -/
def lockChildFileNonblocking (p : Path) : ExceptT Unit FileProg Unit := do
  demand (.openCreate p 0o600)
  let m ← demand (.fstat p)
  if m.kind ≠ .file ∨ m.nlink ≠ 1 ∨ m.uid ≠ 0 then throw ()
  else do
    demand (.chmod p 0o600)
    demand (.lock p)

/-- Running `body` with a lock, which is released after it. -/
def withFileLock {α : Type} (p : Path) (body : ExceptT Unit FileProg α) :
    ExceptT Unit FileProg α := do
  lockChildFileNonblocking p
  inScope body (ignore (.unlock p))

/-- `load_policy` -/
def loadPolicy : ExceptT Unit FileProg AuthPolicy := orFail (loadFromDirectory configDir)

/-- `write_policy`, at the `i`-th time. -/
def writePolicy (i : ℕ) (policy : AuthPolicy) : ExceptT Unit FileProg Unit := do
  orFail (writeAtomic env 0 a.pid (a.policyNonce i) configDir policy)
  let read ← loadPolicy
  if read ≠ policy then throw () else return ()

/-- `revoke_user_targets` -/
def revoke (policy : AuthPolicy) (uid : UInt32) : ExceptT Unit FileProg AuthPolicy :=
  orFail (ExceptT.mk (return policy.revokeUserTargets uid))

/-- `ensure_child_directory` -/
def ensureChildDirectory (p : Path) (mode : ℕ) (group : Group) : ExceptT Unit FileProg Unit := do
  match ← reply (.mkdir p 0o777 : FileCall) with
  | .ok _ | .error .alreadyExists => do
    demand (.openDir p)
    setFdPermissions env p 0 mode group
    let m ← demand (.fstat p)
    let gid ← groupId env [] group
    if m.uid ≠ 0 ∨ m.gid ≠ gid ∨ m.mode &&& 0o777 ≠ mode then throw () else return ()
  | .error _ => throw ()

/-- `AnchoredDirectories::production` -/
def anchorDirectories : ExceptT Unit FileProg Unit := do
  demand (.openDir [.varLib])
  ensureChildDirectory env systemRoot 0o750 .kfaceauth
  demand (.openDir [.etc])
  ensureChildDirectory env configDir 0o755 .root
  ensureChildDirectory env keysDir 0o750 .kfaceauth

/-! ## Keys -/

/-- The user directory and the key that the user session sent. -/
structure UserInput where
  dataHome : Path
  key : MasterKey

/-- `read_user_session_input`, of an input that could be parsed. -/
def readUserSessionInput (uid : UInt32) : Option UserInput → ExceptT Unit FileProg UserInput
  | none => throw ()
  | some input => do
    demand (.openDir input.dataHome)
    let m ← demand (.fstat input.dataHome)
    if m.kind ≠ .dir ∨ m.uid ≠ uid.toNat ∨ m.mode &&& 0o022 ≠ 0 then throw () else return input

/-- `read_key_file` -/
def readKeyFile (p : Path) : ExceptT Unit FileProg MasterKey := do
  demand (.openFile p)
  let m ← demand (.fstat p)
  if m.kind ≠ .file ∨ m.len ≠ keyBytes ∨ m.nlink ≠ 1 then throw ()
  else if m.mode &&& 0o777 ≠ 0o600 ∧ m.mode &&& 0o777 ≠ 0o640 then throw ()
  else do
    let bytes ← demand (.read p)
    if h : (bytes.take keyBytes).length = keyBytes then return ⟨bytes.take keyBytes, h⟩
    else throw ()

/-- The metadata of a key is as the program leaves it. -/
def KeyValid (m : Stat) (gid : ℕ) : Prop :=
  m.kind = .file ∧ m.uid = 0 ∧ m.gid = gid ∧ m.mode &&& 0o777 = 0o640 ∧ m.nlink = 1 ∧
    m.len = keyBytes

instance (m : Stat) (gid : ℕ) : Decidable (KeyValid m gid) :=
  inferInstanceAs (Decidable (_ ∧ _))

/-- `load_or_generate_system_key`: the key, and whether it is new. -/
def loadOrGenerateSystemKey (uid : UInt32) : ExceptT Unit FileProg (MasterKey × Bool) := do
  match ← reply (.lstat (keyPath uid) : FileCall) with
  | .ok _ => do
    demand (.openFile (keyPath uid))
    let m ← demand (.fstat (keyPath uid))
    let gid ← groupId env [] .kfaceauth
    if ¬ KeyValid m gid then throw ()
    else do
      let key ← readKeyFile (keyPath uid)
      return (key, false)
  | .error .notFound =>
    match ← reply (.lstat (profilePath uid) : FileCall) with
    | .error .notFound => do
      demand (.query [])
      return (a.generated, true)
    | _ => throw ()
  | .error _ => throw ()

/-- `ensure_dir_exists`, of a directory that is open. Its parents exist as long
    as it is. -/
def ensureDirExists (dir : Path) : FileProg Unit := do
  match ← reply (.lstat dir : FileCall) with
  | .ok _ => return ()
  | .error _ => do
    let group ← value? (groupId env [] .kfaceauth)
    match ← reply (.mkdir dir 0o750 : FileCall) with
    | .ok _ | .error .alreadyExists =>
      match group with
      | some gid => do
        ignore (.chown dir none gid)
        ignore (.chmod dir 0o750)
      | none => return ()
    | .error _ => return ()

/-- The group of the temporary key file, which may not be permitted. -/
def shareKey (p : Path) : Option ℕ → FileProg Unit
  | some gid => ignore (.chown p none gid)
  | none => return ()

/-- The synchronization of the directory of keys, which may fail. -/
def syncKeys : FileProg Unit := do
  match ← reply (.openDir keysDir : FileCall) with
  | .ok _ => ignore (.fsync keysDir)
  | .error _ => return ()

/-- `write_key_file` -/
def writeKeyFile (uid : UInt32) (key : MasterKey) : ExceptT Unit FileProg Unit := do
  let tmp := keysDir ++ [Name.keyTmp a.keySuffix]
  demand (.query [])
  demand (.createNew tmp 0o640)
  let group ← value? (groupId env tmp .kfaceauth)
  shareKey tmp group
  onError (do
    demand (.write tmp key.bytes)
    shareKey tmp group
    demand (.chmod tmp 0o640)
    demand (.fsync tmp)
    demand (.rename tmp (keyPath uid))) (ignore (.unlink tmp))
  syncKeys

/-- `seal_master_key` -/
def sealMasterKey (uid : UInt32) (key : MasterKey) : ExceptT Unit FileProg Unit := do
  ensureDirExists env keysDir
  writeKeyFile env a uid key

/-- The check of a key that was just stored. -/
def verifyNewKey (uid : UInt32) : ExceptT Unit FileProg Unit := do
  demand (.openFile (keyPath uid))
  let m ← demand (.fstat (keyPath uid))
  let gid ← groupId env [] .kfaceauth
  if m.uid ≠ 0 ∨ m.gid ≠ gid ∨ m.mode &&& 0o777 ≠ 0o640 ∨ m.len ≠ keyBytes then throw ()
  else return ()

/-! ## Profiles -/

/-- `Vault::system_with_root` -/
def systemVault (root : Path) (uid : UInt32) : Vault := ⟨root ++ [Name.uid uid], uid, .system⟩

/-- `locate_legacy_vault` -/
def legacyVault (uid : UInt32) (dataHome : Path) : Vault :=
  ⟨dataHome ++ [Name.kfaceauth], uid, .userSession⟩

/-- `apply_system_profile_permissions`, of the profile in `root`. -/
def applySystemProfilePermissions (uid : UInt32) (root : Path) : ExceptT Unit FileProg Unit := do
  let dir := root ++ [Name.uid uid]
  let file := dir ++ [Name.identityVault]
  demand (.openDir dir)
  demand (.openFile file)
  setFdPermissions env dir 0 0o750 .kfaceauth
  setFdPermissions env file 0 0o640 .kfaceauth
  let gid ← groupId env [] .kfaceauth
  let d ← demand (.fstat dir)
  let f ← demand (.fstat file)
  if d.uid ≠ 0 ∨ d.gid ≠ gid ∨ d.mode &&& 0o777 ≠ 0o750 ∨ f.uid ≠ 0 ∨ f.gid ≠ gid ∨
      f.mode &&& 0o777 ≠ 0o640 ∨ f.kind ≠ .file ∨ f.nlink ≠ 1 then
    throw ()
  else return ()

/-- The staging directory of the run. -/
def stagingPath : Path := systemRoot ++ [Name.staging a.pid a.stagingNonce]

/-- `create_staging_directory` -/
def createStagingDirectory : ExceptT Unit FileProg Unit := do
  demand (.query [])
  demand (.mkdir (stagingPath a) 0o777)
  demand (.openDir (stagingPath a))
  setFdPermissions env (stagingPath a) 0 0o700 .kfaceauth

/-- `validate_and_harden_existing_profile`: whether there is a profile. -/
def validateAndHardenExistingProfile (uid : UInt32) : ExceptT Unit FileProg Bool := do
  let dir := profilePath uid
  let file := dir ++ [Name.identityVault]
  match ← reply (.lstat dir : FileCall) with
  | .error .notFound => return false
  | .error _ => throw ()
  | .ok entry =>
    if entry.kind ≠ .dir then throw ()
    else do
      demand (.openDir dir)
      let d ← demand (.fstat dir)
      if (d.uid ≠ uid.toNat ∧ d.uid ≠ 0) ∨
          (d.mode &&& 0o777 ≠ 0o750 ∧ d.mode &&& 0o777 ≠ 0o700) then
        throw ()
      else do
        demand (.openFile file)
        let f ← demand (.fstat file)
        if f.kind ≠ .file ∨ (f.uid ≠ uid.toNat ∧ f.uid ≠ 0) ∨
            (f.mode &&& 0o777 ≠ 0o640 ∧ f.mode &&& 0o777 ≠ 0o600) ∨ f.nlink ≠ 1 ∨
            f.len > 16 * 1024 then
          throw ()
        else do
          setFdPermissions env dir 0 0o750 .kfaceauth
          setFdPermissions env file 0 0o640 .kfaceauth
          return true

/-- `fs::remove_dir_all`, whose error is dropped. -/
def removeQuietly (p : Path) : FileProg Unit := do
  let _ ← isOk (removeDirAll p)

/-- A rename, which may be skipped: whether it did not fail. -/
def renameIf (needed : Bool) (p q : Path) : FileProg Bool :=
  if needed then isOk (demand (.rename p q)) else return true

/-- `ProfileSwap::rollback`, of a swap that is not committed. -/
def rollback (uid : UInt32) (backup : Option Path) : ExceptT Unit FileProg Unit := do
  if ← demand (.pathExists (profilePath uid)) then do
    orFail (removeDirAll (profilePath uid))
    restore backup
  else restore backup
where
  restore : Option Path → ExceptT Unit FileProg Unit
    | some backup => demand (.rename backup (profilePath uid))
    | none => return ()

/-- `ProfileSwap::commit` -/
def commitSwap : Option Path → FileProg Unit
  | some backup => removeQuietly backup
  | none => return ()

/-- `install_staged_profile`: the path of the profile that was replaced. -/
def installStagedProfile (uid : UInt32) : ExceptT Unit FileProg (Option Path) := do
  let hadPrevious ← validateAndHardenExistingProfile env uid
  let backup := systemRoot ++ [Name.previous uid a.previousNonce]
  if ← renameIf hadPrevious (profilePath uid) backup then
    if ← renameIf true (stagingPath a ++ [Name.uid uid]) (profilePath uid) then
      return if hadPrevious then some backup else none
    else do
      let _ ← renameIf hadPrevious backup (profilePath uid)
      throw ()
  else throw ()

/-! ## Operations -/

/-- `run_setup`: the second place is tried if the command cannot be started at
    the first. -/
def runSetup : FileProg Bool := do
  match ← reply (.spawn : FileCall) with
  | .ok _ => return a.setupSucceeds
  | .error _ =>
    match ← reply (.spawn : FileCall) with
    | .ok _ => return a.setupSucceeds
    | .error _ => return false

/-- `restore_previous_policy`, at the `i`-th replacement of the policy. -/
def restorePreviousPolicy (uid : UInt32) (key : MasterKey) (i : ℕ) (policy : AuthPolicy) :
    ExceptT Unit FileProg Unit := do
  if policy.Enables uid then do
    let _ ← orFail ((systemVault systemRoot uid).validateIntegrity env key)
    restore
  else restore
where
  restore : ExceptT Unit FileProg Unit := do
    demand (.fsync systemRoot)
    writePolicy env a i policy

/-- Undoing an installed profile: the previous policy is only restored after the
    previous profile, and the destructor of the swap tries once more. -/
def undoSwap (uid : UInt32) (key : MasterKey) (i : ℕ) (previous : AuthPolicy)
    (backup : Option Path) : FileProg Unit := do
  if ← isOk (rollback uid backup) then do
    let _ ← isOk (restorePreviousPolicy env a uid key i previous)
  else do
    let _ ← isOk (rollback uid backup)

/-- The checks of the profile that was installed. -/
def verifyInstalled (uid : UInt32) (key : MasterKey) : ExceptT Unit FileProg Unit := do
  let _ ← orFail ((systemVault systemRoot uid).validateIntegrity env key)
  let _ ← Freshness.verifiedSourceAt env (profilePath uid) uid
  demand (.fsync systemRoot)

/-- A change of the mode of a target. -/
abbrev TargetChange := AuthTarget × AuthPolicyMode

/-- The policy with the requested change. -/
def enabledPolicy (uid : UInt32) (policy : AuthPolicy) :
    Option TargetChange → Except AuthPolicyError AuthPolicy
  | none => .ok policy
  | some (target, mode) => policy.setMode uid target mode

/-- Writing the policy with the requested change. -/
def writeEnabled (uid : UInt32) (change : Option TargetChange) (previous : AuthPolicy) :
    ExceptT Unit FileProg Unit := do
  let enabled ← orFail (ExceptT.mk (return enabledPolicy uid previous change))
  writePolicy env a 1 enabled

/-- `commit_verified_profile`, once the staged profile is installed. If the
    policy cannot be revoked again, the installed profile stays. -/
def activateProfile (uid : UInt32) (change : Option TargetChange) (key : MasterKey)
    (previous revoked : AuthPolicy) (backup : Option Path) : ExceptT Unit FileProg Unit := do
  if ← isOk (verifyInstalled env uid key) then
    if ← isOk (writeEnabled env a uid change previous) then
      commitSwap backup
    else
      if ← isOk (writePolicy env a 2 revoked) then do
        undoSwap env a uid key 3 previous backup
        throw ()
      else throw ()
  else do
    undoSwap env a uid key 1 previous backup
    throw ()

/-- `commit_verified_profile`, with the lock of the policy. -/
def replaceProfile (uid : UInt32) (change : Option TargetChange) (key : MasterKey) :
    ExceptT Unit FileProg Unit := do
  let previous ← loadPolicy
  let revoked ← revoke previous uid
  if ← isOk (writePolicy env a 0 revoked) then do
    match ← value? (installStagedProfile env a uid) with
    | some backup => activateProfile env a uid change key previous revoked backup
    | none => do
      let _ ← isOk (restorePreviousPolicy env a uid key 1 previous)
      throw ()
  else do
    let _ ← isOk (writePolicy env a 1 previous)
    throw ()

/-- `commit_verified_profile` -/
def commitVerifiedProfile (uid : UInt32) (change : Option TargetChange) (key : MasterKey) :
    ExceptT Unit FileProg Unit := do
  if ← prepared then withFileLock policyLock (replaceProfile env a uid change key)
  else throw ()
where
  prepared : FileProg Bool := if change.isSome then runSetup a else return true

/-- `sync_profile`, with its staging directory. -/
def stageProfile (uid : UInt32) (change : Option TargetChange) (input : UserInput)
    (key : MasterKey) : ExceptT Unit FileProg Unit := do
  let dir := stagingPath a ++ [Name.uid uid]
  demand (.mkdir dir 0o777)
  demand (.openDir dir)
  setFdPermissions env dir 0 0o750 .kfaceauth
  demand (.openDir (input.dataHome ++ [Name.kfaceauth]))
  let (profile, digest) ← orFail ((legacyVault uid input.dataHome).openAnchoredProfileSnapshot env
    input.key (input.dataHome ++ [Name.kfaceauth]))
  orFail ((systemVault (stagingPath a) uid).commitProfile env key profile a.retries a.draws)
  applySystemProfilePermissions env uid (stagingPath a)
  let _ ← orFail ((systemVault (stagingPath a) uid).validateIntegrity env key)
  Freshness.writeStagedMetadata env dir uid digest
  commitVerifiedProfile env a uid change key

/-- Storing a new key, and checking it. -/
def storeNewKey (uid : UInt32) (key : MasterKey) : Bool → ExceptT Unit FileProg Unit
  | true => do
    sealMasterKey env a uid key
    verifyNewKey env uid
  | false => return ()

/-- The destructor of `NewKeyGuard`. -/
def dropNewKey (uid : UInt32) : Bool → FileProg Unit
  | true => ignore (.unlink (keyPath uid))
  | false => return ()

/-- `sync_profile`. A new key is removed unless the operation succeeds, after
    the staging directory. -/
def syncProfile (uid : UInt32) (change : Option TargetChange) (input : Option UserInput) :
    ExceptT Unit FileProg Unit := do
  let input ← readUserSessionInput uid input
  let (key, isNew) ← loadOrGenerateSystemKey env a uid
  onError (do
    storeNewKey env a uid key isNew
    createStagingDirectory env a
    inScope (stageProfile env a uid change input key) (removeQuietly (stagingPath a)))
    (dropNewKey uid isNew)

/-- `disable_target` -/
def disableTarget (uid : UInt32) (target : AuthTarget) : ExceptT Unit FileProg Unit :=
  withFileLock policyLock do
    let policy ← loadPolicy
    let disabled ← orFail (ExceptT.mk (return policy.setMode uid target .off))
    writePolicy env a 0 disabled

/-- `validate_system_key_for_deletion`: whether there is a key. -/
def validateSystemKeyForDeletion (uid : UInt32) : ExceptT Unit FileProg Bool := do
  match ← reply (.lstat (keyPath uid) : FileCall) with
  | .error .notFound => return false
  | .error _ => throw ()
  | .ok entry =>
    if entry.kind ≠ .file then throw ()
    else do
      demand (.openFile (keyPath uid))
      let m ← demand (.fstat (keyPath uid))
      let gid ← groupId env [] .kfaceauth
      if ¬ KeyValid m gid then throw () else return true

/-- The loop of `clear_revoked_copies` over the entries of a directory. -/
def clearEntries (selected : Name → Bool) (valid : Stat → Bool)
    (remove : Path → ExceptT Unit FileProg Unit) (dir : Path) :
    List Path → ExceptT Unit FileProg Unit
  | [] => return ()
  | p :: ps =>
    match p.getLast? with
    | some name =>
      if selected name then do
        let m ← demand (.lstat (dir ++ [name]))
        if valid m then do
          remove (dir ++ [name])
          clearEntries selected valid remove dir ps
        else throw ()
      else clearEntries selected valid remove dir ps
    | none => clearEntries selected valid remove dir ps

/-- The name is that of a revoked profile of the user. -/
def isRevoked (uid : UInt32) (name : Name) : Bool := (revokedPrefix uid).isPrefixOf name.text

/-- The name is that of a revoked key of the user. -/
def isRevokedKey (uid : UInt32) (name : Name) : Bool :=
  isRevoked uid name && extension name.text = some (ascii "key")

/-- `clear_revoked_copies` -/
def clearRevokedCopies (uid : UInt32) : ExceptT Unit FileProg Unit := do
  let gid ← groupId env [] .kfaceauth
  let profiles ← demand (.readDir systemRoot)
  clearEntries (isRevoked uid)
    (fun m => m.kind = .dir && m.uid = 0 && m.gid = gid && m.mode &&& 0o777 = 0o750)
    (fun p => orFail (removeDirAll p)) systemRoot profiles
  let keys ← demand (.readDir keysDir)
  clearEntries (isRevokedKey uid) (fun m => KeyValid m gid) (fun p => demand (.unlink p))
    keysDir keys

/-- `delete_system_profile`, with the lock of the policy. -/
def revokeProfile (uid : UInt32) (profileExists keyExists : Bool) :
    ExceptT Unit FileProg Unit := do
  let previous ← loadPolicy
  let revoked ← revoke previous uid
  writePolicy env a 0 revoked
  let profileBackup := systemRoot ++ [Name.revoked uid (toString a.revokedNonce) false]
  let keyBackup := keysDir ++ [Name.revoked uid (toString a.revokedNonce) true]
  if ← renameIf profileExists (profilePath uid) profileBackup then
    if ← renameIf keyExists (keyPath uid) keyBackup then do
      demand (.fsync systemRoot)
      demand (.fsync keysDir)
      clearRevokedCopies env uid
      demand (.fsync systemRoot)
      demand (.fsync keysDir)
    else
      if ← renameIf profileExists profileBackup (profilePath uid) then do
        let _ ← isOk (writePolicy env a 1 previous)
        throw ()
      else throw ()
  else do
    let _ ← isOk (writePolicy env a 1 previous)
    throw ()

/-- `delete_system_profile` -/
def deleteSystemProfile (uid : UInt32) : ExceptT Unit FileProg Unit := do
  let profileExists ← validateAndHardenExistingProfile env uid
  let keyExists ← validateSystemKeyForDeletion env uid
  withFileLock policyLock (revokeProfile env a uid profileExists keyExists)

/-- `Operation` -/
inductive Operation
  | enable (target : AuthTarget) (mode : AuthPolicyMode)
  | disable (target : AuthTarget)
  | deleteProfile
  | resyncProfile

/-- An operation, once the directories are anchored and the user is locked. -/
def perform (uid : UInt32) (input : Option UserInput) : Operation → ExceptT Unit FileProg Unit
  | .enable target mode => syncProfile env a uid (some (target, mode)) input
  | .disable target => disableTarget env a uid target
  | .deleteProfile => deleteSystemProfile env a uid
  | .resyncProfile => syncProfile env a uid none input

/-- `main`, as root and with its arguments parsed. -/
def main (uid : UInt32) (input : Option UserInput) (op : Operation) :
    ExceptT Unit FileProg Unit := do
  anchorDirectories env
  withFileLock (keysDir ++ [Name.syncLock uid]) (perform env a uid input op)

end SyncVault

end KFaceAuth
