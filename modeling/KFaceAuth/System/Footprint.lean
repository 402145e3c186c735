import KFaceAuth.System.Scope

/-!
# What the operations may change

One lemma for each part of the operations of `kfaceauth-sync-vault`: it stays
aside of what belongs to other users, and of the policy.
-/

namespace KFaceAuth

open Prog Fs

namespace SyncVault

variable {sys : Sys Name} {env : Env} {a : Answers} {uid : UInt32}
  {G : Step FileCall Files → Prop} {P : FileCall → Prop} {S : Path → Prop} {ε α : Type}

/-! ## Helpers -/

@[simp] theorem calls_demand {c : FileCall} : (demand c).run.Calls P ↔ P c := calls_io

theorem stays_orFail {x : ExceptT ε FileProg α} (h : Stays sys G S x.run) :
    Stays sys G S (orFail x).run := by
  refine h.bind fun r => ?_
  cases r <;> exact stays_pure _

theorem stays_value? {x : ExceptT ε FileProg α} (h : Stays sys G S x.run) :
    Stays sys G S (value? x) := by
  refine h.bind fun r => ?_
  cases r <;> exact stays_pure _

theorem stays_isOk {x : ExceptT ε FileProg α} (h : Stays sys G S x.run) :
    Stays sys G S (isOk x) := by
  refine h.bind fun r => ?_
  cases r <;> exact stays_pure _

/-- A program that only looks at files stays anywhere. -/
theorem stays_of_readOnly {p : FileProg α} (h : p.Calls ReadOnly) : Stays sys G S p :=
  stays_of_calls (h.mono fun _ hc => in_of_readOnly hc)

theorem stays_demand {c : FileCall} (h : In S c) : Stays sys G S (demand c).run :=
  stays_of_calls (calls_demand.2 h)

theorem stays_ignore {c : FileCall} (h : In S c) : Stays sys G S (ignore c) :=
  stays_of_calls (calls_ignore.2 h)

/-- A call that looks at files. -/
theorem stays_look {c : FileCall} (h : ReadOnly c) : Stays sys G S (demand c).run :=
  stays_demand (in_of_readOnly h)

theorem stays_groupId {p : Path} {group : Group} : Stays sys G S (groupId env p group).run :=
  stays_of_calls (calls_groupId (in_of_readOnly trivial))

theorem stays_setFdPermissions {p : Path} {owner mode : ℕ} {group : Group} (hp : S p) :
    Stays sys G S (setFdPermissions env p owner mode group).run :=
  stays_of_calls (calls_setFdPermissions (in_of_readOnly trivial) (in_of_readOnly trivial)
    (fun _ _ _ hq => hq ▸ hp) fun _ hq => hq ▸ hp)

theorem stays_lockChildFileNonblocking {p : Path} (hp : S p) :
    Stays sys G S (lockChildFileNonblocking p).run := by
  refine Stays.bindE (stays_demand fun q hq => hq ▸ hp) fun _ => ?_
  refine Stays.bindE (stays_look trivial) fun m => ?_
  split_ifs
  · exact stays_pure _
  refine Stays.bindE (stays_demand fun q hq => hq ▸ hp) fun _ => ?_
  exact stays_demand fun _ hq => hq.elim

/-! ## Looking -/

theorem stays_readUserSessionInput {input : Option UserInput} :
    Stays sys G S (readUserSessionInput uid input).run := by
  cases input with
  | none => exact stays_pure _
  | some input =>
    refine Stays.bindE (stays_look trivial) fun _ => ?_
    refine Stays.bindE (stays_look trivial) fun m => ?_
    split_ifs <;> exact stays_pure _

theorem stays_readKeyFile {p : Path} : Stays sys G S (readKeyFile p).run := by
  refine Stays.bindE (stays_look trivial) fun _ => ?_
  refine Stays.bindE (stays_look trivial) fun m => ?_
  split_ifs
  · exact stays_pure _
  · exact stays_pure _
  refine Stays.bindE (stays_look trivial) fun bytes => ?_
  split_ifs <;> exact stays_pure _

theorem stays_loadOrGenerateSystemKey :
    Stays sys G S (loadOrGenerateSystemKey env a uid).run := by
  refine Stays.liftE (stays_of_readOnly (calls_reply.2 trivial)) fun r => ?_
  match r with
  | .ok _ =>
    refine Stays.bindE (stays_look trivial) fun _ => ?_
    refine Stays.bindE (stays_look trivial) fun m => ?_
    refine Stays.bindE stays_groupId fun gid => ?_
    split_ifs
    · exact Stays.bindE stays_readKeyFile fun key => stays_pure _
    · exact stays_pure _
  | .error .notFound =>
    refine Stays.liftE (stays_of_readOnly (calls_reply.2 trivial)) fun r => ?_
    match r with
    | .ok _ => exact stays_pure _
    | .error .notFound => exact Stays.bindE (stays_look trivial) fun _ => stays_pure _
    | .error .alreadyExists => exact stays_pure _
    | .error .other => exact stays_pure _
  | .error .alreadyExists => exact stays_pure _
  | .error .other => exact stays_pure _

theorem stays_verifyNewKey : Stays sys G S (verifyNewKey env uid).run := by
  refine Stays.bindE (stays_look trivial) fun _ => ?_
  refine Stays.bindE (stays_look trivial) fun m => ?_
  refine Stays.bindE stays_groupId fun gid => ?_
  split_ifs <;> exact stays_pure _

theorem stays_validateSystemKeyForDeletion :
    Stays sys G S (validateSystemKeyForDeletion env uid).run := by
  refine Stays.liftE (stays_of_readOnly (calls_reply.2 trivial)) fun r => ?_
  match r with
  | .error .notFound => exact stays_pure _
  | .error .alreadyExists => exact stays_pure _
  | .error .other => exact stays_pure _
  | .ok entry =>
    dsimp only
    split_ifs
    · exact stays_pure _
    refine Stays.bindE (stays_look trivial) fun _ => ?_
    refine Stays.bindE (stays_look trivial) fun m => ?_
    refine Stays.bindE stays_groupId fun gid => ?_
    split_ifs <;> exact stays_pure _

theorem stays_isOwnerValid {m : Stat} {uid : UInt32} {kind : VaultKind} :
    Stays sys G S (isOwnerValid env m uid kind) :=
  stays_of_calls (calls_isOwnerValid (in_of_readOnly trivial))

theorem stays_validateDirectory {v : Vault} : Stays sys G S (v.validateDirectory env).run :=
  stays_of_calls (Vault.calls_validateDirectory.mono fun _ h => h.1)

theorem stays_openProfileSnapshot {v : Vault} {key : MasterKey} :
    Stays sys G S (v.openProfileSnapshot env key).run := by
  refine Stays.bindE stays_validateDirectory fun _ => ?_
  refine Stays.bindE (stays_of_calls ((Vault.calls_readSecureFile Vault.file_ne_root).mono
    fun _ h => h.1)) fun bytes => ?_
  refine Stays.bindE (stays_pure _) fun profile => ?_
  cases env.crypto.sha256 bytes <;> exact stays_pure _

theorem stays_validateIntegrity {v : Vault} {key : MasterKey} :
    Stays sys G S (v.validateIntegrity env key).run :=
  Stays.bindE stays_openProfileSnapshot fun _ => stays_pure _

theorem stays_openAnchoredProfileSnapshot {v : Vault} {key : MasterKey} {dir : Path} :
    Stays sys G S (v.openAnchoredProfileSnapshot env key dir).run := by
  have look : ∀ {c : FileCall} {conv : IoError → VaultError}, ReadOnly c →
      Stays sys G S (io conv c).run := fun h => stays_of_calls (calls_io.2 (in_of_readOnly h))
  refine Stays.bindE (look trivial) fun d => ?_
  split_ifs
  · exact stays_pure _
  refine Stays.liftE stays_isOwnerValid fun owner => ?_
  split_ifs
  · exact stays_pure _
  refine Stays.bindE (look trivial) fun _ => ?_
  refine Stays.bindE (look trivial) fun before => ?_
  refine Stays.bindE ?_ fun _ => ?_
  · unfold Vault.checkAnchored
    split_ifs
    · exact stays_pure _
    refine Stays.liftE stays_isOwnerValid fun owner => ?_
    split_ifs <;> exact stays_pure _
  refine Stays.bindE (look trivial) fun bytes => ?_
  refine Stays.bindE (look trivial) fun after => ?_
  refine Stays.bindE (look trivial) fun _ => ?_
  refine Stays.bindE (look trivial) fun current => ?_
  split_ifs
  · exact stays_pure _
  refine Stays.bindE (stays_pure _) fun profile => ?_
  cases env.crypto.sha256 bytes <;> exact stays_pure _

theorem stays_readProtected {p : Path} {maximum : ℕ} :
    Stays sys G S (Freshness.readProtected env p maximum).run := by
  refine Stays.bindE (stays_look trivial) fun _ => ?_
  refine Stays.bindE (stays_look trivial) fun before => ?_
  refine Stays.bindE stays_groupId fun gid => ?_
  split_ifs
  · exact stays_pure _
  refine Stays.bindE (stays_look trivial) fun bytes => ?_
  refine Stays.bindE (stays_look trivial) fun after => ?_
  refine Stays.bindE (stays_look trivial) fun _ => ?_
  refine Stays.bindE (stays_look trivial) fun current => ?_
  split_ifs <;> exact stays_pure _

theorem stays_verifiedSourceAt {dir : Path} :
    Stays sys G S (Freshness.verifiedSourceAt env dir uid).run := by
  refine Stays.bindE (stays_look trivial) fun _ => ?_
  refine Stays.bindE (stays_look trivial) fun before => ?_
  refine Stays.bindE stays_groupId fun gid => ?_
  split_ifs
  · exact stays_pure _
  refine Stays.bindE stays_readProtected fun metadata => ?_
  cases Freshness.decode metadata uid with
  | none => exact stays_pure _
  | some digests =>
    refine Stays.bindE stays_readProtected fun vault => ?_
    refine Stays.bindE (stays_orFail (stays_pure _)) fun actual => ?_
    split_ifs
    · exact stays_pure _
    refine Stays.bindE stays_readProtected fun again => ?_
    split_ifs
    · exact stays_pure _
    refine Stays.bindE (stays_look trivial) fun _ => ?_
    refine Stays.bindE (stays_look trivial) fun after => ?_
    split_ifs <;> exact stays_pure _

theorem stays_loadPolicy : Stays sys G S loadPolicy.run := by
  refine stays_orFail fun w w₁ h₁ => ?_
  exact (safe_loadFromDirectory h₁).post fun r w' h => h.1 ▸ h₁

theorem stays_verifyInstalled {key : MasterKey} :
    Stays sys G S (verifyInstalled env uid key).run := by
  refine Stays.bindE (stays_orFail stays_validateIntegrity) fun _ => ?_
  refine Stays.bindE stays_verifiedSourceAt fun _ => ?_
  exact stays_look trivial

/-! ## Changing -/

theorem stays_ensureChildDirectory {p : Path} {mode : ℕ} {group : Group} (hp : S p) :
    Stays sys G S (ensureChildDirectory env p mode group).run := by
  have hopen : Stays sys G S (do
      demand (.openDir p)
      setFdPermissions env p 0 mode group
      let m ← demand (.fstat p)
      let gid ← groupId env [] group
      if m.uid ≠ 0 ∨ m.gid ≠ gid ∨ m.mode &&& 0o777 ≠ mode then throw () else return () :
      ExceptT Unit FileProg Unit).run := by
    refine Stays.bindE (stays_look trivial) fun _ => ?_
    refine Stays.bindE (stays_setFdPermissions hp) fun _ => ?_
    refine Stays.bindE (stays_look trivial) fun m => ?_
    refine Stays.bindE stays_groupId fun gid => ?_
    exact .ite (stays_pure _) (stays_pure _)
  refine Stays.liftE (stays_of_calls (calls_reply.2 fun q hq => hq ▸ hp)) fun r => ?_
  match r with
  | .ok _ => exact hopen
  | .error .alreadyExists => exact hopen
  | .error .notFound => exact stays_pure _
  | .error .other => exact stays_pure _

theorem stays_anchorDirectories (hroot : S systemRoot) (hconfig : S configDir) (hkeys : S keysDir) :
    Stays sys G S (anchorDirectories env).run := by
  refine Stays.bindE (stays_look trivial) fun _ => ?_
  refine Stays.bindE (stays_ensureChildDirectory hroot) fun _ => ?_
  refine Stays.bindE (stays_look trivial) fun _ => ?_
  refine Stays.bindE (stays_ensureChildDirectory hconfig) fun _ => ?_
  exact stays_ensureChildDirectory hkeys

theorem stays_ensureDirExists {dir : Path} (hd : S dir) :
    Stays sys G S (ensureDirExists env dir) := by
  have hin : ∀ {c : FileCall}, (∀ q, c.Touches q → q = dir) → In S c :=
    fun h q hq => h q hq ▸ hd
  have share : ∀ gid : ℕ, Stays sys G S (do
      ignore (.chown dir none gid)
      ignore (.chmod dir 0o750) : FileProg Unit) := by
    intro gid
    refine Stays.bind ?_ fun _ => ?_
    · exact stays_ignore (hin fun _ h => h)
    · exact stays_ignore (hin fun _ h => h)
  refine Stays.bind (stays_of_readOnly (calls_reply.2 trivial)) fun r => ?_
  cases r with
  | ok _ => exact stays_pure _
  | error _ =>
    refine Stays.bind (stays_value? stays_groupId) fun group => ?_
    refine Stays.bind (stays_of_calls (calls_reply.2 (hin fun _ h => h))) fun r => ?_
    rcases r with (_ | _ | _) | _
    · exact stays_pure _
    · cases group with
      | none => exact stays_pure _
      | some gid => exact share gid
    · exact stays_pure _
    · cases group with
      | none => exact stays_pure _
      | some gid => exact share gid

theorem stays_shareKey {p : Path} (hp : S p) (group : Option ℕ) :
    Stays sys G S (shareKey p group) := by
  cases group with
  | none => exact stays_pure _
  | some gid => exact stays_ignore fun q hq => hq ▸ hp

theorem stays_syncKeys : Stays sys G S syncKeys := by
  refine Stays.bind (stays_of_readOnly (calls_reply.2 trivial)) fun r => ?_
  cases r with
  | ok _ => exact stays_ignore (in_of_readOnly trivial)
  | error _ => exact stays_pure _

theorem stays_writeKeyFile {key : MasterKey}
    (htmp : ∀ q, keysDir ++ [Name.keyTmp a.keySuffix] <+: q → S q)
    (hkey : ∀ q, keyPath uid <+: q → S q) : Stays sys G S (writeKeyFile env a uid key).run := by
  refine Stays.bindE (stays_look trivial) fun _ => ?_
  refine Stays.bindE (stays_demand fun q hq => htmp q (hq ▸ List.prefix_rfl)) fun _ => ?_
  refine Stays.liftE (stays_value? stays_groupId) fun group => ?_
  refine Stays.liftE (stays_shareKey (htmp _ List.prefix_rfl) group) fun _ => ?_
  refine Stays.bindE (Stays.onError ?_ ?_) fun _ => ?_
  · refine Stays.bindE (stays_demand fun q hq => htmp q (hq ▸ List.prefix_rfl)) fun _ => ?_
    refine Stays.liftE (stays_shareKey (htmp _ List.prefix_rfl) group) fun _ => ?_
    refine Stays.bindE (stays_demand fun q hq => htmp q (hq ▸ List.prefix_rfl)) fun _ => ?_
    refine Stays.bindE (stays_look trivial) fun _ => ?_
    exact stays_demand fun q hq => hq.elim (htmp q) (hkey q)
  · exact stays_ignore fun q hq => htmp q (hq ▸ List.prefix_rfl)
  · exact Stays.lift stays_syncKeys

theorem stays_storeNewKey {key : MasterKey} (hdir : S keysDir)
    (htmp : ∀ q, keysDir ++ [Name.keyTmp a.keySuffix] <+: q → S q)
    (hkey : ∀ q, keyPath uid <+: q → S q) (isNew : Bool) :
    Stays sys G S (storeNewKey env a uid key isNew).run := by
  cases isNew with
  | false => exact stays_pure _
  | true =>
    refine Stays.bindE ?_ fun _ => stays_verifyNewKey
    exact Stays.liftE (stays_ensureDirExists hdir) fun _ => stays_writeKeyFile htmp hkey

theorem stays_dropNewKey (isNew : Bool) : Stays sys G (Aside uid) (dropNewKey uid isNew) := by
  cases isNew with
  | false => exact stays_pure _
  | true => exact stays_ignore fun q hq => .key (.inl rfl) (hq ▸ List.prefix_rfl)

/-- What is below the staging directory. -/
theorem aside_staging {q : Path} (hq : stagingPath a <+: q) : Aside uid q :=
  .profile (.inr (.inr (.inl ⟨_, _, rfl⟩))) hq

/-- A file of the staged profile is below the staging directory. -/
theorem staging_above (n : Name) : stagingPath a <+: stagingPath a ++ [Name.uid uid] ++ [n] := by
  rw [List.append_assoc]
  exact List.prefix_append _ _

theorem aside_profilePath {q : Path} (hq : profilePath uid <+: q) : Aside uid q :=
  .profile (.inl rfl) hq

theorem stays_createStagingDirectory (hS : ∀ q, stagingPath a <+: q → S q) :
    Stays sys G S (createStagingDirectory env a).run := by
  refine Stays.bindE (stays_look trivial) fun _ => ?_
  refine Stays.bindE (stays_demand ?_) fun _ => ?_
  · rintro q rfl
    exact hS _ List.prefix_rfl
  refine Stays.bindE (stays_look trivial) fun _ => ?_
  exact stays_setFdPermissions (hS _ List.prefix_rfl)

theorem stays_removeQuietly {p : Path} (hp : ∀ q, p <+: q → S q) :
    Stays sys G S (removeQuietly p) :=
  (stays_isOk (stays_removeDirAll hp)).bind fun _ => stays_pure _

theorem stays_renameIf {p q : Path} (needed : Bool) (hp : ∀ r, p <+: r → S r)
    (hq : ∀ r, q <+: r → S r) : Stays sys G S (renameIf needed p q) := by
  unfold renameIf
  split_ifs
  · exact stays_isOk (stays_demand fun r hr => hr.elim (hp r) (hq r))
  · exact stays_pure _

theorem stays_validateAndHardenExistingProfile :
    Stays sys G (Aside uid) (validateAndHardenExistingProfile env uid).run := by
  have hdir : ∀ q, profilePath uid <+: q → Aside uid q := fun q hq => aside_profilePath hq
  refine Stays.liftE (stays_of_readOnly (calls_reply.2 trivial)) fun r => ?_
  match r with
  | .error .notFound => exact stays_pure _
  | .error .alreadyExists => exact stays_pure _
  | .error .other => exact stays_pure _
  | .ok entry =>
    dsimp only
    split_ifs
    · exact stays_pure _
    refine Stays.bindE (stays_look trivial) fun _ => ?_
    refine Stays.bindE (stays_look trivial) fun d => ?_
    split_ifs
    · exact stays_pure _
    refine Stays.bindE (stays_look trivial) fun _ => ?_
    refine Stays.bindE (stays_look trivial) fun f => ?_
    split_ifs
    · exact stays_pure _
    refine Stays.bindE (stays_setFdPermissions (hdir _ List.prefix_rfl)) fun _ => ?_
    refine Stays.bindE (stays_setFdPermissions (hdir _ (List.prefix_append _ _))) fun _ => ?_
    exact stays_pure _

/-- What is below the backup of the previous profile. -/
theorem aside_previous {q : Path} {nonce : ℕ} (hq : systemRoot ++ [Name.previous uid nonce] <+: q) :
    Aside uid q :=
  .profile (.inr (.inl ⟨_, rfl⟩)) hq

theorem stays_installStagedProfile :
    Stays sys G (Aside uid) (installStagedProfile env a uid).run := by
  have hprofile : ∀ q, profilePath uid <+: q → Aside uid q := fun q hq => aside_profilePath hq
  have hbackup : ∀ q, systemRoot ++ [Name.previous uid a.previousNonce] <+: q → Aside uid q :=
    fun q hq => aside_previous hq
  have hstaged : ∀ q, stagingPath a ++ [Name.uid uid] <+: q → Aside uid q :=
    fun q hq => aside_staging ((List.prefix_append _ _).trans hq)
  refine Stays.bindE stays_validateAndHardenExistingProfile fun hadPrevious => ?_
  refine Stays.liftE (stays_renameIf _ hprofile hbackup) fun b => .ite ?_ (stays_pure _)
  refine Stays.liftE (stays_renameIf _ hstaged hprofile) fun b => .ite (stays_pure _) ?_
  exact Stays.liftE (stays_renameIf _ hbackup hprofile) fun _ => stays_pure _

theorem stays_rollback {backup : Option Path}
    (hb : ∀ p ∈ backup, ∀ q, p <+: q → Aside uid q) :
    Stays sys G (Aside uid) (rollback uid backup).run := by
  have hprofile : ∀ q, profilePath uid <+: q → Aside uid q := fun q hq => aside_profilePath hq
  have hrestore : Stays sys G (Aside uid) (rollback.restore uid backup).run := by
    cases backup with
    | none => exact stays_pure _
    | some p => exact stays_demand fun q hq => hq.elim (hb p rfl q) (hprofile q)
  refine Stays.bindE (stays_look trivial) fun b => .ite ?_ hrestore
  exact Stays.bindE (stays_orFail (stays_removeDirAll hprofile)) fun _ => hrestore

theorem stays_commitSwap {backup : Option Path} (hb : ∀ p ∈ backup, ∀ q, p <+: q → S q) :
    Stays sys G S (commitSwap backup) := by
  cases backup with
  | none => exact stays_pure _
  | some p => exact stays_removeQuietly (hb p rfl)

theorem stays_runSetup : Stays sys G S (runSetup a) := by
  refine Stays.bind (stays_of_readOnly (calls_reply.2 trivial)) fun r => ?_
  cases r with
  | ok _ => exact stays_pure _
  | error _ =>
    refine Stays.bind (stays_of_readOnly (calls_reply.2 trivial)) fun r => ?_
    cases r <;> exact stays_pure _

theorem stays_applySystemProfilePermissions (hS : ∀ q, stagingPath a <+: q → S q) :
    Stays sys G S (applySystemProfilePermissions env uid (stagingPath a)).run := by
  refine Stays.bindE (stays_look trivial) fun _ => ?_
  refine Stays.bindE (stays_look trivial) fun _ => ?_
  refine Stays.bindE (stays_setFdPermissions (hS _ (List.prefix_append _ _))) fun _ => ?_
  refine Stays.bindE (stays_setFdPermissions (hS _ (staging_above _))) fun _ => ?_
  refine Stays.bindE stays_groupId fun gid => ?_
  refine Stays.bindE (stays_look trivial) fun d => ?_
  refine Stays.bindE (stays_look trivial) fun f => ?_
  exact .ite (stays_pure _) (stays_pure _)

theorem stays_writeStagedMetadata {source : List UInt8}
    (hfile : S (stagingPath a ++ [Name.uid uid] ++ [Name.identityFreshness])) :
    Stays sys G S
      (Freshness.writeStagedMetadata env (stagingPath a ++ [Name.uid uid]) uid source).run := by
  refine Stays.bindE stays_readProtected fun vault => ?_
  refine Stays.bindE (stays_orFail (stays_pure _)) fun installed => ?_
  refine Stays.bindE (stays_demand fun q hq => hq ▸ hfile) fun _ => ?_
  refine Stays.bindE (stays_demand fun q hq => hq ▸ hfile) fun _ => ?_
  refine Stays.bindE (stays_setFdPermissions hfile) fun _ => ?_
  refine Stays.bindE (stays_look trivial) fun _ => ?_
  refine Stays.bindE (stays_look trivial) fun _ => ?_
  refine Stays.bindE stays_readProtected fun read => ?_
  exact .ite (stays_pure _) (stays_pure _)

/-- Committing a profile in the staging directory. -/
theorem stays_commitStaged {key : MasterKey} {profile : Profile}
    (hS : ∀ q, stagingPath a <+: q → S q) (hroot : ∀ q, q <+: systemRoot → S q) :
    Stays sys G S ((systemVault (stagingPath a) uid).commitProfile env key profile
      a.retries a.draws).run := by
  refine stays_of_calls ((Vault.calls_operate _).mono fun c hc q hq => ?_)
  rcases hc q hq with h | h
  · -- a directory on the way to the staged profile
    rcases List.prefix_concat_iff.1 h with rfl | h
    · exact hS _ (List.prefix_append _ _)
    rcases List.prefix_concat_iff.1 h with rfl | h
    · exact hS _ List.prefix_rfl
    · exact hroot q h
  · exact hS q ((List.prefix_append _ _).trans h)

theorem stays_clearEntries {selected : Name → Bool} {valid : Stat → Bool}
    {remove : Path → ExceptT Unit FileProg Unit} {dir : Path}
    (hr : ∀ n, selected n → Stays sys G S (remove (dir ++ [n])).run) (ps : List Path) :
    Stays sys G S (clearEntries selected valid remove dir ps).run := by
  induction ps with
  | nil => exact stays_pure _
  | cons p ps ih =>
    unfold clearEntries
    cases p.getLast? with
    | none => exact ih
    | some name =>
      dsimp only
      split_ifs with hs
      · refine Stays.bindE (stays_look trivial) fun m => .ite ?_ (stays_pure _)
        exact Stays.bindE (hr name hs) fun _ => ih
      · exact ih

theorem stays_clearRevokedCopies
    (hp : ∀ n q, revokedPrefix uid <+: n.text → systemRoot ++ [n] <+: q → S q)
    (hk : ∀ n q, isRevokedKey uid n → keysDir ++ [n] <+: q → S q) :
    Stays sys G S (clearRevokedCopies env uid).run := by
  refine Stays.bindE stays_groupId fun gid => ?_
  refine Stays.bindE (stays_look trivial) fun profiles => ?_
  refine Stays.bindE (stays_clearEntries (fun n hn => ?_) profiles) fun _ => ?_
  · exact stays_orFail (stays_removeDirAll fun q hq => hp n q (List.isPrefixOf_iff_prefix.1 hn) hq)
  refine Stays.bindE (stays_look trivial) fun keys => ?_
  refine stays_clearEntries (fun n hn => ?_) keys
  exact stays_demand fun q hq => hk n q hn (hq ▸ List.prefix_rfl)

/-! ## With the lock of the policy -/

section Keeps

variable {J : Files → Prop}

theorem keeps_orFail {x : ExceptT ε FileProg α} (h : Keeps (handler sys) G J x.run) :
    Keeps (handler sys) G J (orFail x).run := by
  refine h.bind fun r => ?_
  cases r <;> exact keeps_pure _

theorem keeps_isOk {x : ExceptT ε FileProg α} (h : Keeps (handler sys) G J x.run) :
    Keeps (handler sys) G J (isOk x) := by
  refine h.bind fun r => ?_
  cases r <;> exact keeps_pure _

/-- What is kept while the policy is replaced by some, and by what stays aside. -/
structure KeptBy (sys : Sys Name) (G : Step FileCall Files → Prop) (env : Env) (a : Answers)
    (uid : UInt32) (J : Files → Prop) (W : AuthPolicy → Prop) : Prop where
  within : ∀ w w', Within (Aside uid) w w' → J w → J w'
  write : ∀ i policy, W policy → Keeps (handler sys) G J (writePolicy env a i policy).run

variable {W : AuthPolicy → Prop} {previous policy : AuthPolicy} {key : MasterKey}

theorem keeps_restorePreviousPolicy {i : ℕ} (h : KeptBy sys G env a uid J W) (hp : W policy) :
    Keeps (handler sys) G J (restorePreviousPolicy env a uid key i policy).run := by
  have hrestore : Keeps (handler sys) G J (restorePreviousPolicy.restore env a i policy).run := by
    refine Keeps.bindE (Stays.keeps ?_ h.within) fun _ => h.write i policy hp
    exact stays_look trivial
  refine Keeps.ite ?_ hrestore
  exact Keeps.bindE ((stays_orFail stays_validateIntegrity).keeps h.within) fun _ => hrestore

theorem keeps_undoSwap {i : ℕ} {backup : Option Path} (h : KeptBy sys G env a uid J W)
    (hp : W policy) (hb : ∀ p ∈ backup, ∀ q, p <+: q → Aside uid q) :
    Keeps (handler sys) G J (undoSwap env a uid key i policy backup) := by
  have hrollback : Keeps (handler sys) G J (isOk (rollback uid backup)) :=
    (stays_isOk (stays_rollback hb)).keeps h.within
  refine hrollback.bind fun b => ?_
  cases b with
  | true => exact (keeps_isOk (keeps_restorePreviousPolicy h hp)).bind fun _ => keeps_pure _
  | false => exact hrollback.bind fun _ => keeps_pure _

theorem keeps_activateProfile {change : Option TargetChange} {revoked : AuthPolicy}
    {backup : Option Path} (h : KeptBy sys G env a uid J W) (hprevious : W previous)
    (hrevoked : W revoked) (henabled : ∀ q, enabledPolicy uid previous change = .ok q → W q)
    (hb : ∀ p ∈ backup, ∀ q, p <+: q → Aside uid q) :
    Keeps (handler sys) G J
      (activateProfile env a uid change key previous revoked backup).run := by
  have hwrite : Keeps (handler sys) G J (writeEnabled env a uid change previous).run := by
    cases he : enabledPolicy uid previous change with
    | error e =>
      simp only [writeEnabled, he]
      exact keeps_pure _
    | ok enabled =>
      simp only [writeEnabled, he]
      exact h.write 1 enabled (henabled enabled he)
  refine Keeps.liftE ((stays_isOk stays_verifyInstalled).keeps h.within) fun b => .ite ?_ ?_
  · refine Keeps.liftE (keeps_isOk hwrite) fun b => .ite ?_ ?_
    · exact ((stays_commitSwap hb).keeps h.within).lift
    · refine Keeps.liftE (keeps_isOk (h.write 2 revoked hrevoked)) fun b => .ite ?_ (keeps_pure _)
      exact Keeps.liftE (keeps_undoSwap h hprevious hb) fun _ => keeps_pure _
  · exact Keeps.liftE (keeps_undoSwap h hprevious hb) fun _ => keeps_pure _

/-- The profile that was replaced is in its backup. -/
theorem returns_installStagedProfile :
    (value? (installStagedProfile env a uid)).Returns fun r => ∀ backup ∈ r, ∀ p ∈ backup,
      p = systemRoot ++ [Name.previous uid a.previousNonce] := by
  have hvalue : (installStagedProfile env a uid).run.Returns fun r => ∀ backup, r = .ok backup →
      ∀ p ∈ backup, p = systemRoot ++ [Name.previous uid a.previousNonce] := by
    have hnone : ∀ e : Unit, ∀ backup, (Except.error e : Except Unit (Option Path)) = .ok backup →
        ∀ p ∈ backup, p = systemRoot ++ [Name.previous uid a.previousNonce] := by simp
    refine returns_bindE (fun hadPrevious => ?_) hnone
    refine returns_bindE (fun b => returns_ite ?_ (hnone ())) hnone
    refine returns_bindE (fun b => returns_ite ?_ ?_) hnone
    · rintro _ ⟨⟩ p hp
      split_ifs at hp
      · exact (Option.some.inj hp).symm
      · cases hp
    · exact returns_bindE (fun _ => hnone ()) hnone
  refine hvalue.bind fun r hr => ?_
  cases r with
  | error e => exact fun _ h => by cases h
  | ok backup =>
    rintro _ ⟨⟩
    exact hr backup rfl

theorem revoke_bind {revoked : AuthPolicy} {f : AuthPolicy → ExceptT Unit FileProg α}
    (h : previous.revokeUserTargets uid = .ok revoked) :
    (revoke previous uid >>= f) = f revoked := by
  rw [revoke, h]
  rfl

/-- `replaceProfile`, from the policy it found. -/
def replaceFrom (env : Env) (a : Answers) (uid : UInt32) (change : Option TargetChange)
    (key : MasterKey) (previous : AuthPolicy) : ExceptT Unit FileProg Unit := do
  let revoked ← revoke previous uid
  if ← isOk (writePolicy env a 0 revoked) then do
    match ← value? (installStagedProfile env a uid) with
    | some backup => activateProfile env a uid change key previous revoked backup
    | none => do
      let _ ← isOk (restorePreviousPolicy env a uid key 1 previous)
      throw ()
  else do
    let _ ← isOk (writePolicy env a 1 previous)
    throw ()

theorem keeps_replaceFrom {change : Option TargetChange} (h : KeptBy sys G env a uid J W)
    (hprevious : W previous) (hrevoked : ∀ q, previous.revokeUserTargets uid = .ok q → W q)
    (henabled : ∀ q, enabledPolicy uid previous change = .ok q → W q) :
    Keeps (handler sys) G J (replaceFrom env a uid change key previous).run := by
  cases hr : previous.revokeUserTargets uid with
  | error e =>
    simp only [replaceFrom, revoke, hr]
    exact keeps_pure _
  | ok revoked =>
    rw [replaceFrom, revoke_bind hr]
    refine Keeps.liftE (keeps_isOk (h.write 0 revoked (hrevoked revoked hr))) fun b => .ite ?_ ?_
    · refine Keeps.liftE_returns ((stays_value? stays_installStagedProfile).keeps h.within)
        returns_installStagedProfile fun r hbackup => ?_
      cases r with
      | some backup =>
        refine keeps_activateProfile h hprevious (hrevoked revoked hr) henabled fun p hp q hq => ?_
        exact aside_previous (hbackup backup rfl p hp ▸ hq)
      | none =>
        exact Keeps.liftE (keeps_isOk (keeps_restorePreviousPolicy h hprevious))
          fun _ => keeps_pure _
    · exact Keeps.liftE (keeps_isOk (h.write 1 previous hprevious)) fun _ => keeps_pure _

/-- `revokeProfile`, from the policy it found. -/
def revokeFrom (env : Env) (a : Answers) (uid : UInt32) (profileExists keyExists : Bool)
    (previous : AuthPolicy) : ExceptT Unit FileProg Unit := do
  let revoked ← revoke previous uid
  writePolicy env a 0 revoked
  let profileBackup := systemRoot ++ [Name.revoked uid (toString a.revokedNonce) false]
  let keyBackup := keysDir ++ [Name.revoked uid (toString a.revokedNonce) true]
  if ← renameIf profileExists (profilePath uid) profileBackup then
    if ← renameIf keyExists (keyPath uid) keyBackup then do
      demand (.fsync systemRoot)
      demand (.fsync keysDir)
      clearRevokedCopies env uid
      demand (.fsync systemRoot)
      demand (.fsync keysDir)
    else
      if ← renameIf profileExists profileBackup (profilePath uid) then do
        let _ ← isOk (writePolicy env a 1 previous)
        throw ()
      else throw ()
  else do
    let _ ← isOk (writePolicy env a 1 previous)
    throw ()

theorem keeps_revokeFrom {profileExists keyExists : Bool} (h : KeptBy sys G env a uid J W)
    (hprevious : W previous) (hrevoked : ∀ q, previous.revokeUserTargets uid = .ok q → W q) :
    Keeps (handler sys) G J (revokeFrom env a uid profileExists keyExists previous).run := by
  have hprofile : ∀ q, profilePath uid <+: q → Aside uid q := fun q hq => aside_profilePath hq
  have hkey : ∀ q, keyPath uid <+: q → Aside uid q := fun q hq => .key (.inl rfl) hq
  have hprofileBackup : ∀ q,
      systemRoot ++ [Name.revoked uid (toString a.revokedNonce) false] <+: q → Aside uid q :=
    fun q hq => .profile (ownProfile_revoked _ _) hq
  have hkeyBackup : ∀ q, keysDir ++ [Name.revoked uid (toString a.revokedNonce) true] <+: q →
      Aside uid q := fun q hq => .key (ownKey_revoked _) hq
  have hsync : ∀ p, Keeps (handler sys) G J (demand (.fsync p)).run :=
    fun p => Stays.keeps (stays_demand (in_of_readOnly (by trivial))) h.within
  have hclear : Stays sys G (Aside uid) (clearRevokedCopies env uid).run :=
    stays_clearRevokedCopies (fun _ _ hn hq => .profile (.inr (.inr (.inr hn))) hq)
      fun _ _ hn hq => .key (.inr (.inr hn)) hq
  have hrestore : Keeps (handler sys) G J (isOk (writePolicy env a 1 previous)) :=
    keeps_isOk (h.write 1 previous hprevious)
  cases hr : previous.revokeUserTargets uid with
  | error e =>
    simp only [revokeFrom, revoke, hr]
    exact keeps_pure _
  | ok revoked =>
    rw [revokeFrom, revoke_bind hr]
    refine Keeps.bindE (h.write 0 revoked (hrevoked revoked hr)) fun _ => ?_
    refine Keeps.liftE ((stays_renameIf _ hprofile hprofileBackup).keeps h.within)
      fun b => .ite ?_ ?_
    · refine Keeps.liftE ((stays_renameIf _ hkey hkeyBackup).keeps h.within) fun b => .ite ?_ ?_
      · refine Keeps.bindE (hsync _) fun _ => ?_
        refine Keeps.bindE (hsync _) fun _ => ?_
        refine Keeps.bindE (hclear.keeps h.within) fun _ => ?_
        exact Keeps.bindE (hsync _) fun _ => hsync _
      · refine Keeps.liftE ((stays_renameIf _ hprofileBackup hprofile).keeps h.within)
          fun b => .ite ?_ (keeps_pure _)
        exact Keeps.liftE hrestore fun _ => keeps_pure _
    · exact Keeps.liftE hrestore fun _ => keeps_pure _

end Keeps

end SyncVault

end KFaceAuth
