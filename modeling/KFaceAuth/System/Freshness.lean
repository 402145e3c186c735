import KFaceAuth.Policy.Store

/-!
# Freshness of a system profile

Beside the vault of a system profile stands a file with two digests: that of
the vault of the user it was made from, and that of the vault itself. The
digests are written when the profile is staged (`writeStagedMetadata`), and
checked against the installed vault (`verifiedSourceAt`).

Times of files are left out: in the run of one program nothing is changed
between two looks at a file.
-/

namespace KFaceAuth

open Prog Fs

/-- A call that may fail, without a reason given. -/
def demand (c : FileCall) : ExceptT Unit FileProg c.Value := io (fun _ => ()) c

/-- A failure of any kind. -/
def orFail {ε α : Type} (x : ExceptT ε FileProg α) : ExceptT Unit FileProg α :=
  ExceptT.mk do
    match ← x.run with
    | .ok a => return .ok a
    | .error _ => return .error ()

namespace Freshness

/-- `MAGIC` -/
def magic : List UInt8 := ascii "KFAFRS01"

/-- `METADATA_BYTES` -/
def metadataBytes : ℕ := 78

/-- `MAX_VAULT_BYTES` -/
def maxVaultBytes : ℕ := 16 * 1024

variable (env : Env)

/-- `read_protected` -/
def readProtected (p : Path) (maximum : ℕ) : ExceptT Unit FileProg (List UInt8) := do
  demand (.openFile p)
  let before ← demand (.fstat p)
  let gid ← groupId env [] .kfaceauth
  if before.kind ≠ .file ∨ before.uid ≠ 0 ∨ before.gid ≠ gid ∨ before.mode &&& 0o777 ≠ 0o640 ∨
      before.nlink ≠ 1 ∨ before.len = 0 ∨ before.len > maximum then
    throw ()
  else do
    let bytes ← demand (.read p)
    let after ← demand (.fstat p)
    demand (.openFile p)
    let current ← demand (.fstat p)
    if bytes.length > maximum ∨ before.len ≠ after.len ∨ before.ino ≠ current.ino then throw ()
    else return bytes

/-- `decode`: the digests of the source and of the installed vault. -/
def decode (bytes : List UInt8) (uid : UInt32) : Option (List UInt8 × List UInt8) :=
  if bytes.length ≠ metadataBytes ∨ bytes.take 8 ≠ magic ∨ (bytes.drop 8).take 2 ≠ be16 1 ∨
      (bytes.drop 10).take 4 ≠ be32 uid.toNat then
    none
  else some ((bytes.drop 14).take 32, (bytes.drop 46).take 32)

/-- The content of the metadata file. -/
def encode (uid : UInt32) (source installed : List UInt8) : List UInt8 :=
  magic ++ be16 1 ++ be32 uid.toNat ++ source ++ installed

/-- `write_staged_metadata` -/
def writeStagedMetadata (dir : Path) (uid : UInt32) (source : List UInt8) :
    ExceptT Unit FileProg Unit := do
  let p := dir ++ [Name.identityFreshness]
  let vault ← readProtected env (dir ++ [Name.identityVault]) maxVaultBytes
  let installed ← orFail (ExceptT.mk (return env.crypto.sha256 vault))
  let bytes := encode uid source installed
  demand (.createNew p 0o600)
  demand (.write p bytes)
  setFdPermissions env p 0 0o640 .kfaceauth
  demand (.fsync p)
  demand (.fsync dir)
  let read ← readProtected env p metadataBytes
  if read ≠ bytes then throw () else return ()

/-- `verified_source_at`, of the profile in `dir`. -/
def verifiedSourceAt (dir : Path) (uid : UInt32) : ExceptT Unit FileProg (List UInt8) := do
  demand (.openDir dir)
  let before ← demand (.fstat dir)
  let gid ← groupId env [] .kfaceauth
  if before.uid ≠ 0 ∨ before.gid ≠ gid ∨ before.mode &&& 0o777 ≠ 0o750 then throw ()
  else do
    let metadata ← readProtected env (dir ++ [Name.identityFreshness]) metadataBytes
    match decode metadata uid with
    | none => throw ()
    | some (source, expected) => do
      let vault ← readProtected env (dir ++ [Name.identityVault]) maxVaultBytes
      let actual ← orFail (ExceptT.mk (return env.crypto.sha256 vault))
      if actual ≠ expected then throw ()
      else do
        let again ← readProtected env (dir ++ [Name.identityFreshness]) metadataBytes
        if again ≠ metadata then throw ()
        else do
          demand (.openDir dir)
          let after ← demand (.fstat dir)
          if before.ino ≠ after.ino then throw () else return source

end Freshness

end KFaceAuth
