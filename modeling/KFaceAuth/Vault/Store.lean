import KFaceAuth.Vault.Files

/-!
# Vault operations

The operations on a vault, as programs: committing a profile, changing the key,
deleting the profile, and reading it. The operations that write hold a lock,
which is a file removed when the operation ends (`VaultLock`).

What the system answers beside the state of its files is an argument: random
bytes, and how often the lock is tried before the deadline.
-/

namespace KFaceAuth

inductive VaultKind
  | userSession
  | system
  deriving DecidableEq, Repr

/-- `Vault`. -/
structure Vault where
  root : Path
  uid : UInt32
  kind : VaultKind
  deriving DecidableEq

def VaultKind.directoryMode : VaultKind → ℕ
  | userSession => 0o700
  | system => 0o750

def VaultKind.fileMode : VaultKind → ℕ
  | userSession => 0o600
  | system => 0o640

/-- `From<io::Error> for VaultError`. -/
def VaultError.ofIo : IoError → VaultError
  | .notFound => .notFound
  | _ => .io

/-- A failure to be told as unsafe. -/
def orUnsafe {α : Type} (x : ExceptT Unit FileProg α) : ExceptT VaultError FileProg α :=
  ExceptT.mk do
    match ← x.run with
    | .ok a => return .ok a
    | .error _ => return .error .unsafeFilesystem

/-- `is_owner_valid`. -/
def isOwnerValid (env : Env) (m : Stat) (uid : UInt32) : VaultKind → FileProg Bool
  | .userSession => return m.uid = uid.toNat
  | .system =>
    if m.uid = 0 then do
      match ← (groupId env [] .kfaceauth).run with
      | .ok gid => return m.gid = gid
      | .error _ => return false
    else return false

namespace Vault

variable (env : Env) (v : Vault)

def file : Path := v.root ++ [Name.identityVault]

def lock : Path := v.root ++ [Name.identityLock]

def temporary (suffix : List UInt8) : Path := v.root ++ [Name.identityTmp suffix]

/-- `validate_directory`. -/
def validateDirectory : ExceptT VaultError FileProg Unit := do
  let m ← io .ofIo (.lstat v.root)
  if m.kind ≠ .dir then throw .unsafeFilesystem
  else do
    let owner ← isOwnerValid env m v.uid v.kind
    if owner = false ∨ m.mode &&& 0o777 ≠ v.kind.directoryMode then throw .unsafeFilesystem
    else return ()

/-- `DirBuilder::create`, recursive, on a path from its last name. -/
def createDirAll (mode : ℕ) : List Name → ExceptT VaultError FileProg Unit
  | [] => return ()
  | name :: parents => do
    let p := (name :: parents).reverse
    match ← reply (.mkdir p mode : FileCall) with
    | .ok _ => return ()
    | .error .notFound => do
      createDirAll mode parents
      match ← reply (.mkdir p mode : FileCall) with
      | .ok _ => return ()
      | .error e => if ← io .ofIo (.isDir p) then return () else throw (.ofIo e)
    | .error e => if ← io .ofIo (.isDir p) then return () else throw (.ofIo e)

/-- `ensure_directory`. -/
def ensureDirectory : ExceptT VaultError FileProg Unit := do
  if ← io .ofIo (.pathExists v.root) then v.validateDirectory env
  else do
    createDirAll v.kind.directoryMode v.root.reverse
    match v.kind with
    | .userSession => v.validateDirectory env
    | .system => do
      io (fun _ => .unsafeFilesystem) (.openDir v.root)
      orUnsafe (setFdPermissions env v.root 0 v.kind.directoryMode .kfaceauth)
      v.validateDirectory env

/-- `validate_secure_path`. -/
def validateSecurePath (p : Path) : ExceptT VaultError FileProg Stat := do
  let m ← io .ofIo (.lstat p)
  if m.kind ≠ .file then throw .unsafeFilesystem
  else do
    let owner ← isOwnerValid env m v.uid v.kind
    if owner = false ∨ m.nlink ≠ 1 ∨ m.mode &&& 0o777 ≠ v.kind.fileMode then throw .unsafeFilesystem
    else return m

/-- `read_secure_file`. -/
def readSecureFile (p : Path) : ExceptT VaultError FileProg (List UInt8) := do
  let before ← v.validateSecurePath env p
  if before.len > maximumVaultBytes then throw .oversized
  else do
    io .ofIo (.openFile p)
    let after ← io .ofIo (.fstat p)
    if before.ino ≠ after.ino then throw .unsafeFilesystem
    else do
      let owner ← isOwnerValid env after v.uid v.kind
      if owner = false ∨ after.mode &&& 0o777 ≠ v.kind.fileMode ∨ after.nlink ≠ 1 then
        throw .unsafeFilesystem
      else do
        let bytes ← io .ofIo (.read p)
        if bytes.length > maximumVaultBytes then throw .oversized else return bytes

/-- The permissions of a new file, which are set only in a system vault. -/
def setPermissions (p : Path) : ExceptT VaultError FileProg Unit :=
  match v.kind with
  | .userSession => return ()
  | .system => orUnsafe (setFdPermissions env p 0 v.kind.fileMode .kfaceauth)

/-- `decode_vault`, giving up if it fails. -/
def decode (bytes : List UInt8) (key : MasterKey) : ExceptT VaultError FileProg Profile :=
  ExceptT.mk (return decodeVault env.crypto bytes key v.uid)

/-! ## The lock -/

/-- `VaultLock::acquire`, once the lock file is created. -/
def secureLock : ExceptT VaultError FileProg Unit := do
  v.setPermissions env v.lock
  let m ← io .ofIo (.fstat v.lock)
  let owner ← isOwnerValid env m v.uid v.kind
  if owner = false ∨ m.mode &&& 0o777 ≠ v.kind.fileMode ∨ m.nlink ≠ 1 then do
    ignore (.unlink v.lock : FileCall)
    throw .unsafeFilesystem
  else io .ofIo (.fsync v.lock)

/-- The loop of `VaultLock::acquire`, with the number of retries before the
    deadline. -/
def tryLock (retries : ℕ) : ExceptT VaultError FileProg Unit := do
  match ← reply (.createNew v.lock v.kind.fileMode : FileCall) with
  | .ok _ => v.secureLock env
  | .error .alreadyExists =>
    match retries with
    | 0 => throw .lockTimeout
    | n + 1 => tryLock n
  | .error _ => throw .io

/-- `VaultLock::acquire`. -/
def acquire (retries : ℕ) : ExceptT VaultError FileProg Unit := do
  v.validateDirectory env
  v.tryLock env retries

/-- Running `body` with the lock, which is removed after it. -/
def withLock (retries : ℕ) (body : ExceptT VaultError FileProg Unit) :
    ExceptT VaultError FileProg Unit := do
  v.acquire env retries
  inScope body (ignore (.unlink v.lock))

/-! ## Writing -/

/-- `sync_directory`. -/
def syncDirectory : ExceptT VaultError FileProg Unit := do
  io .ofIo (.openFile v.root)
  io .ofIo (.fsync v.root)

/-- `write_verified_atomic` while its temporary file is to be cleaned up. -/
def replaceFile (bytes : List UInt8) (key : MasterKey) (suffix : List UInt8) :
    ExceptT VaultError FileProg Unit := do
  io .ofIo (.createNew (v.temporary suffix) v.kind.fileMode)
  v.setPermissions env (v.temporary suffix)
  io .ofIo (.write (v.temporary suffix) bytes)
  io .ofIo (.fsync (v.temporary suffix))
  let verified ← v.readSecureFile env (v.temporary suffix)
  let _ ← v.decode env verified key
  io .ofIo (.rename (v.temporary suffix) v.file)

/-- `write_verified_atomic`, before it synchronizes the directory. -/
def writeVerified (bytes : List UInt8) (key : MasterKey) (suffix : List UInt8) :
    ExceptT VaultError FileProg Unit := do
  if bytes = [] ∨ bytes.length > maximumVaultBytes then throw .oversized
  else do
    io (fun _ => .crypto .providerFailure) (.query [])
    onError (v.replaceFile env bytes key suffix) (ignore (.unlink (v.temporary suffix)))

/-- The check of `commit_profile` that a profile in place is readable. -/
def checkExisting (key : MasterKey) : ExceptT VaultError FileProg Unit := do
  if ← io .ofIo (.pathExists v.file) then do
    let existing ← v.readSecureFile env v.file
    let _ ← v.decode env existing key
  else return ()

/-- Random bytes drawn by an operation. -/
structure Draws where
  nonce : List UInt8
  suffix : List UInt8

/-- Encoding a profile and writing it, before the directory is synchronized. -/
def writeProfile (profile : Profile) (key : MasterKey) (draws : Draws) :
    ExceptT VaultError FileProg Unit := do
  io (fun _ => .crypto .providerFailure) (.query [])
  let encoded ← ExceptT.mk (return encodeVault env.crypto profile key v.uid draws.nonce)
  v.writeVerified env encoded key draws.suffix

/-- What an operation does to the vault, before the directory is synchronized. -/
inductive Change
  | commit (key : MasterKey) (profile : Profile)
  | rotate (old new : MasterKey)
  | delete (key : MasterKey)
  | reset

/-- The operation up to the synchronization of the directory. -/
def change (draws : Draws) : Change → ExceptT VaultError FileProg Unit
  | .commit key profile => do
    v.checkExisting env key
    v.writeProfile env profile key draws
  | .rotate old new => do
    let bytes ← v.readSecureFile env v.file
    let profile ← v.decode env bytes old
    v.writeProfile env profile new draws
  | .delete key => do
    let bytes ← v.readSecureFile env v.file
    let _ ← v.decode env bytes key
    io .ofIo (.unlink v.file)
  | .reset => do
    let _ ← v.validateSecurePath env v.file
    io .ofIo (.unlink v.file)

/-- The check of the directory an operation begins with. -/
def prepare : Change → ExceptT VaultError FileProg Unit
  | .commit _ _ => v.ensureDirectory env
  | _ => v.validateDirectory env

/-- An operation. All four have this shape, and differ in the first check and
    in the change. -/
def operate (retries : ℕ) (draws : Draws) (c : Change) : ExceptT VaultError FileProg Unit := do
  v.prepare env c
  v.withLock env retries do
    v.change env draws c
    v.syncDirectory

/-- `commit_profile`. -/
def commitProfile (key : MasterKey) (profile : Profile) (retries : ℕ) (draws : Draws) :
    ExceptT VaultError FileProg Unit :=
  v.operate env retries draws (.commit key profile)

/-- `rotate_key`. -/
def rotateKey (old new : MasterKey) (retries : ℕ) (draws : Draws) :
    ExceptT VaultError FileProg Unit :=
  v.operate env retries draws (.rotate old new)

/-- `delete_profile`. -/
def deleteProfile (key : MasterKey) (retries : ℕ) (draws : Draws) :
    ExceptT VaultError FileProg Unit :=
  v.operate env retries draws (.delete key)

/-- `reset_unreadable`. -/
def resetUnreadable (retries : ℕ) (draws : Draws) : ExceptT VaultError FileProg Unit :=
  v.operate env retries draws .reset

/-! ## Reading -/

/-- `open_profile_snapshot`. -/
def openProfileSnapshot (key : MasterKey) :
    ExceptT VaultError FileProg (Profile × List UInt8) := do
  v.validateDirectory env
  let bytes ← v.readSecureFile env v.file
  let profile ← v.decode env bytes key
  match env.crypto.sha256 bytes with
  | .ok digest => return (profile, digest)
  | .error e => throw (.crypto e)

/-- `validate_integrity`. The number of samples always fits a byte. -/
def validateIntegrity (key : MasterKey) : ExceptT VaultError FileProg ℕ := do
  let (profile, _) ← v.openProfileSnapshot env key
  return profile.samples.length

/-- The checks of `open_anchored_profile_snapshot` on the open file. -/
def checkAnchored (before : Stat) : ExceptT VaultError FileProg Unit := do
  if before.kind ≠ .file then throw .unsafeFilesystem
  else do
    let owner ← isOwnerValid env before v.uid v.kind
    if owner = false ∨ before.mode &&& 0o777 ≠ v.kind.fileMode ∨ before.nlink ≠ 1 ∨
        before.len > maximumVaultBytes then
      throw .unsafeFilesystem
    else return ()

/-- `open_anchored_profile_snapshot`, of the vault in an open directory. -/
def openAnchoredProfileSnapshot (key : MasterKey) (directory : Path) :
    ExceptT VaultError FileProg (Profile × List UInt8) := do
  let d ← io .ofIo (.fstat directory)
  if d.kind ≠ .dir then throw .unsafeFilesystem
  else do
    let owner ← isOwnerValid env d v.uid v.kind
    if owner = false ∨ d.mode &&& 0o777 ≠ v.kind.directoryMode then throw .unsafeFilesystem
    else do
      let p := directory ++ [Name.identityVault]
      io .ofIo (.openFile p)
      let before ← io .ofIo (.fstat p)
      v.checkAnchored env before
      let bytes ← io .ofIo (.read p)
      let after ← io .ofIo (.fstat p)
      io .ofIo (.openFile p)
      let current ← io .ofIo (.fstat p)
      if bytes.length > maximumVaultBytes ∨ before.ino ≠ current.ino ∨ before.len ≠ after.len then
        throw .unsafeFilesystem
      else do
        let profile ← v.decode env bytes key
        match env.crypto.sha256 bytes with
        | .ok digest => return (profile, digest)
        | .error e => throw (.crypto e)

end Vault

end KFaceAuth
