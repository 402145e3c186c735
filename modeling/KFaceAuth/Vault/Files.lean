import KFaceAuth.Lib.FsProg
import KFaceAuth.Vault.Format

/-!
# The files of the program

The names of the files and directories the program uses (`Name`), and the
programs on them that its parts share: looking up a group, and setting the
owner, the group and the mode of an open file.
-/

namespace KFaceAuth

/-- The names the program gives to files and directories. Those it only comes
    across are `other`. -/
inductive Name
  /-- `/var/lib` -/
  | varLib
  /-- `/etc` -/
  | etc
  | kfaceauth
  | keys
  /-- `policy.json` -/
  | policyJson
  /-- `.policy.lock` -/
  | policyLock
  /-- `.policy.json.<pid>.<nonce>.tmp` -/
  | policyTmp (pid nonce : ℕ)
  /-- `<uid>`, the directory of a system profile -/
  | uid (uid : UInt32)
  /-- `<uid>.key` -/
  | key (uid : UInt32)
  /-- `.sync-<uid>.lock` -/
  | syncLock (uid : UInt32)
  /-- `.key_<suffix>.tmp` -/
  | keyTmp (suffix : List UInt8)
  /-- `.kfaceauth-sync-<pid>-<nonce>` -/
  | staging (pid nonce : ℕ)
  /-- `.kfaceauth-previous-<uid>-<nonce>` -/
  | previous (uid : UInt32) (nonce : ℕ)
  /-- `.revoked-<uid>-<stem>`, and `.key` after it if `isKey` -/
  | revoked (uid : UInt32) (stem : String) (isKey : Bool)
  /-- `identity.vault` -/
  | identityVault
  /-- `identity.lock` -/
  | identityLock
  /-- `.identity.vault.<suffix>.tmp` -/
  | identityTmp (suffix : List UInt8)
  /-- `identity.freshness` -/
  | identityFreshness
  | other (text : String)
  deriving DecidableEq

abbrev Path := List Name

instance : Content (List UInt8) := ⟨List.length, []⟩

/-- The file system of the program. -/
abbrev Files := Fs Name (List UInt8)

abbrev FileCall := FsCall Name (List UInt8)

abbrev FileProg (α : Type) := FsProg Name (List UInt8) α

/-- The cipher, and the number of the group `kfaceauth`, if there is one. -/
structure Env where
  crypto : Crypto
  group : Option ℕ

/-- The groups the program looks up. -/
inductive Group
  | kfaceauth
  | root
  deriving DecidableEq

/-- The number of a group. -/
def Env.gid (env : Env) : Group → Option ℕ
  | .kfaceauth => env.group
  | .root => some 0

/-- `group_id`, for the sake of a path. -/
def groupId (env : Env) (p : Path) (group : Group) : ExceptT Unit FileProg ℕ := do
  io (fun _ => ()) (.query p)
  match env.gid group with
  | some gid => return gid
  | none => throw ()

/-- `kfaceauth_set_fd_permissions`. -/
def setFdPermissions (env : Env) (p : Path) (owner mode : ℕ) (group : Group) :
    ExceptT Unit FileProg Unit := do
  let st ← io (fun _ => ()) (.fstat p)
  if st.kind = .symlink then throw ()
  else do
    let gid ← groupId env p group
    io (fun _ => ()) (.chown p (some owner) gid)
    io (fun _ => ()) (.chmod p mode)

end KFaceAuth
