import KFaceAuth.System.SyncVault

/-!
# Changing the policy

`kfaceauth-policy --set`, run as root: the mode of one target of a user is
changed in the policy. A target is only turned on if the system profile and the
key of the user are in place, which is told from their metadata.
-/

namespace KFaceAuth

open Prog Fs

namespace PolicyTool

open SyncVault

variable (env : Env) (a : Answers)

/-- `config_directory`: whether there is one. -/
def configDirectory : ExceptT Unit FileProg Bool := do
  demand (.openDir [.etc])
  let m ← demand (.fstat [.etc])
  if m.uid ≠ 0 ∨ m.mode &&& 0o022 ≠ 0 then throw ()
  else do
    match ← reply (.lstat configDir : FileCall) with
    | .error .notFound => return false
    | .error _ => throw ()
    | .ok entry =>
      if entry.kind ≠ .dir then throw ()
      else do
        demand (.openDir configDir)
        let d ← demand (.fstat configDir)
        if d.uid ≠ 0 ∨ d.gid ≠ 0 ∨ d.mode &&& 0o777 ≠ 0o755 then throw () else return true

/-- The policy to begin with. -/
def currentPolicy : Bool → ExceptT Unit FileProg AuthPolicy
  | true => loadPolicy
  | false => return default

/-- The metadata of a file is as expected of a vault or a key. -/
def IsReady (m : Stat) (gid : ℕ) : Prop :=
  m.kind = .file ∧ m.uid = 0 ∧ m.gid = gid ∧ m.mode &&& 0o777 = 0o640 ∧ m.nlink = 1 ∧ m.len > 0

instance (m : Stat) (gid : ℕ) : Decidable (IsReady m gid) :=
  inferInstanceAs (Decidable (_ ∧ _))

/-- `profile_is_ready`, where a failure is a negative answer. -/
def profileIsReady (uid : UInt32) : ExceptT Unit FileProg Unit := do
  demand (.openDir systemRoot)
  demand (.openDir (profilePath uid))
  demand (.openFile (profilePath uid ++ [Name.identityVault]))
  let vault ← demand (.fstat (profilePath uid ++ [Name.identityVault]))
  demand (.openDir [.etc])
  demand (.openDir configDir)
  demand (.openDir keysDir)
  demand (.openFile (keyPath uid))
  let key ← demand (.fstat (keyPath uid))
  let gid ← groupId env [] .kfaceauth
  if IsReady vault gid ∧ IsReady key gid then return () else throw ()

/-- `prepare_target`: the two places are tried as `run_setup` does. -/
def prepareTarget : FileProg Bool := runSetup a

/-- The change, with the lock of the policy. -/
def changePolicy (uid : UInt32) (target : AuthTarget) (mode : AuthPolicyMode) :
    ExceptT Unit FileProg Unit := do
  let policy ← loadPolicy
  let updated ← orFail (ExceptT.mk (return policy.setMode uid target mode))
  if ← isOk (writeAtomic env 0 a.pid (a.policyNonce 0) configDir updated) then return ()
  else
    if mode ≠ .off then do
      let _ ← isOk (writeAtomic env 0 a.pid (a.policyNonce 1) configDir policy)
      throw ()
    else throw ()

/-- The checks before a target is turned on, with the lock of the user. -/
def checkReady (uid : UInt32) (mode : AuthPolicyMode) : ExceptT Unit FileProg Unit := do
  if mode ≠ .off then do
    profileIsReady env uid
    if ← prepareTarget a then return () else throw ()
  else return ()

/-- `profile_operation_lock`, and what is done with it. -/
def withProfileLock (uid : UInt32) (body : ExceptT Unit FileProg Unit) :
    ExceptT Unit FileProg Unit := do
  demand (.openDir [.etc])
  demand (.openDir configDir)
  demand (.openDir keysDir)
  withFileLock (keysDir ++ [Name.syncLock uid]) body

/-- `run`, with `--set` and once it is authorized. -/
def run (uid : UInt32) (target : AuthTarget) (mode : AuthPolicyMode) :
    ExceptT Unit FileProg Unit := do
  let present ← configDirectory
  let policy ← currentPolicy present
  if mode = .off ∧ policy.modeFor uid target = .off then return ()
  else if present = false then throw ()
  else withProfileLock uid do
    checkReady env a uid mode
    withFileLock policyLock (changePolicy env a uid target mode)

end PolicyTool

end KFaceAuth
