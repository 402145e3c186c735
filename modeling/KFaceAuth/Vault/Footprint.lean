import KFaceAuth.Vault.Spec

/-!
# The calls of the vault programs

Which paths each program touches, and that only `syncDirectory` opens or
synchronizes the directory of the vault (`Vault.Allowed`).
-/

namespace KFaceAuth

open Prog Fs

variable {env : Env} {p : Path} {S : Path → Prop}

theorem calls_groupId {P : FileCall → Prop} {group : Group} (h : P (.query p)) :
    (groupId env p group).run.Calls P := by
  refine Calls.bindE (calls_io.2 h) fun _ => ?_
  split <;> trivial

theorem calls_setFdPermissions {P : FileCall → Prop} {owner mode : ℕ} {group : Group}
    (h₁ : P (.fstat p)) (h₂ : P (.query p)) (h₃ : ∀ uid gid, P (.chown p uid gid))
    (h₄ : P (.chmod p mode)) : (setFdPermissions env p owner mode group).run.Calls P := by
  refine Calls.bindE (calls_io.2 h₁) fun st => ?_
  split_ifs
  · trivial
  · exact Calls.bindE (calls_groupId h₂) fun gid =>
      Calls.bindE (calls_io.2 (h₃ _ _)) fun _ => calls_io.2 h₄

theorem calls_orUnsafe {P : FileCall → Prop} {α : Type} {x : ExceptT Unit FileProg α}
    (h : x.run.Calls P) : (orUnsafe x).run.Calls P := by
  refine h.bind fun r => ?_
  cases r <;> trivial

theorem calls_isOwnerValid {P : FileCall → Prop} {m : Stat} {uid : UInt32} {kind : VaultKind}
    (h : P (.query [])) : (isOwnerValid env m uid kind).Calls P := by
  cases kind with
  | userSession => trivial
  | system =>
    simp only [isOwnerValid]
    split_ifs
    · refine (calls_groupId h).bind fun r => ?_
      cases r <;> trivial
    · trivial

namespace Vault

variable {v : Vault}

/-- The call is one of those that synchronize the directory `p`. -/
def Syncs (p : Path) : FileCall → Prop
  | .openFile q | .fsync q => q = p
  | _ => False

/-- A call that touches only paths in `S`, and does not synchronize the
    directory. -/
def Allowed (v : Vault) (S : Path → Prop) (c : FileCall) : Prop :=
  (∀ q, c.Touches q → S q) ∧ ¬ Syncs v.root c

/-- A call that changes nothing. -/
theorem allowed_of_readOnly {c : FileCall} (h : ReadOnly c) (hs : ¬ Syncs v.root c) :
    v.Allowed S c := by
  refine ⟨fun q hq => ?_, hs⟩
  cases c <;> first | exact hq.elim | exact h.elim

/-- A call on a path in `S`. -/
theorem allowed_of_mem {c : FileCall} (hs : ¬ Syncs v.root c) (hp : S p)
    (h : ∀ q, c.Touches q → q = p) : v.Allowed S c :=
  ⟨fun q hq => h q hq ▸ hp, hs⟩

/-- A call that changes nothing, and does not synchronize the directory. -/
def Looks (v : Vault) (c : FileCall) : Prop := ReadOnly c ∧ ¬ Syncs v.root c

theorem Looks.allowed {c : FileCall} (h : v.Looks c) : v.Allowed S c := allowed_of_readOnly h.1 h.2

theorem looks_validateDirectory : (v.validateDirectory env).run.Calls v.Looks := by
  refine Calls.bindE (calls_io.2 ⟨trivial, not_false⟩) fun m => ?_
  split_ifs
  · trivial
  refine Calls.liftE (calls_isOwnerValid ⟨trivial, not_false⟩) fun owner => ?_
  split_ifs <;> trivial

theorem calls_validateDirectory : (v.validateDirectory env).run.Calls (v.Allowed S) :=
  looks_validateDirectory.mono fun _ h => h.allowed

/-- A call that looks, creates the directory or one above it, or sets the
    permissions of the directory. -/
def Prepares (v : Vault) : FileCall → Prop
  | .mkdir p _ => p <+: v.root
  | .chown p _ _ | .chmod p _ => p = v.root
  | c => v.Looks c

theorem Looks.prepares {c : FileCall} (h : v.Looks c) : v.Prepares c := by
  cases c <;> first | exact h | exact h.1.elim

theorem Prepares.allowed {c : FileCall} (h : v.Prepares c) : v.Allowed (· <+: v.root) c := by
  cases c with
  | mkdir p mode => exact allowed_of_mem not_false h fun _ hq => hq
  | chown p uid gid => exact allowed_of_mem not_false (h ▸ List.prefix_rfl) fun _ hq => hq
  | chmod p mode => exact allowed_of_mem not_false (h ▸ List.prefix_rfl) fun _ hq => hq
  | _ => exact Looks.allowed h

theorem prepares_createDirAll {mode : ℕ} {names : List Name} (h : names.reverse <+: v.root) :
    (createDirAll mode names).run.Calls v.Prepares := by
  induction names with
  | nil => trivial
  | cons name parents ih =>
    have hdir : ∀ e, (do
        if ← io .ofIo (.isDir (name :: parents).reverse) then return ()
        else throw (.ofIo e) : ExceptT VaultError FileProg Unit).run.Calls v.Prepares := by
      intro e
      refine Calls.bindE (calls_io.2 ⟨trivial, not_false⟩) fun b => ?_
      cases b <;> trivial
    refine Calls.liftE (calls_reply.2 h) fun r => ?_
    match r with
    | .ok _ => trivial
    | .error .notFound =>
      refine Calls.bindE (ih ?_) fun _ => ?_
      · rw [List.reverse_cons] at h
        exact (List.prefix_append _ _).trans h
      · refine Calls.liftE (calls_reply.2 h) fun r => ?_
        cases r with
        | ok _ => trivial
        | error e => exact hdir e
    | .error .alreadyExists => exact hdir _
    | .error .other => exact hdir _

theorem prepares_validateDirectory : (v.validateDirectory env).run.Calls v.Prepares :=
  looks_validateDirectory.mono fun _ h => h.prepares

theorem prepares_ensureDirectory : (v.ensureDirectory env).run.Calls v.Prepares := by
  refine Calls.bindE (calls_io.2 ⟨trivial, not_false⟩) fun b => ?_
  split_ifs
  · exact prepares_validateDirectory
  · refine Calls.bindE (prepares_createDirAll (by simp)) fun _ => ?_
    cases v.kind with
    | userSession => exact prepares_validateDirectory
    | system =>
      refine Calls.bindE (calls_io.2 ⟨trivial, not_false⟩) fun _ => ?_
      refine Calls.bindE (calls_orUnsafe (calls_setFdPermissions ⟨trivial, not_false⟩
        ⟨trivial, not_false⟩ (fun _ _ => rfl) rfl)) fun _ => ?_
      exact prepares_validateDirectory

theorem looks_validateSecurePath : (v.validateSecurePath env p).run.Calls v.Looks := by
  refine Calls.bindE (calls_io.2 ⟨trivial, not_false⟩) fun m => ?_
  split_ifs
  · trivial
  refine Calls.liftE (calls_isOwnerValid ⟨trivial, not_false⟩) fun owner => ?_
  split_ifs <;> trivial

theorem looks_readSecureFile (hp : p ≠ v.root) : (v.readSecureFile env p).run.Calls v.Looks := by
  refine Calls.bindE looks_validateSecurePath fun before => ?_
  split_ifs
  · trivial
  refine Calls.bindE (calls_io.2 ⟨trivial, hp⟩) fun _ => ?_
  refine Calls.bindE (calls_io.2 ⟨trivial, not_false⟩) fun after => ?_
  split_ifs
  · trivial
  refine Calls.liftE (calls_isOwnerValid ⟨trivial, not_false⟩) fun owner => ?_
  split_ifs
  · trivial
  refine Calls.bindE (calls_io.2 ⟨trivial, not_false⟩) fun bytes => ?_
  split_ifs <;> trivial

theorem calls_validateSecurePath : (v.validateSecurePath env p).run.Calls (v.Allowed S) :=
  looks_validateSecurePath.mono fun _ h => h.allowed

theorem calls_readSecureFile (hp : p ≠ v.root) :
    (v.readSecureFile env p).run.Calls (v.Allowed S) :=
  (looks_readSecureFile hp).mono fun _ h => h.allowed

theorem calls_setPermissions (hp : S p) : (v.setPermissions env p).run.Calls (v.Allowed S) := by
  unfold setPermissions
  cases v.kind with
  | userSession => trivial
  | system =>
    exact calls_orUnsafe (calls_setFdPermissions (allowed_of_readOnly trivial not_false)
      (allowed_of_readOnly trivial not_false) (fun _ _ => allowed_of_mem not_false hp fun _ hq => hq)
      (allowed_of_mem not_false hp fun _ hq => hq))

@[simp] theorem file_ne_root : v.file ≠ v.root := by simp [file]

@[simp] theorem lock_ne_root : v.lock ≠ v.root := by simp [lock]

@[simp] theorem temporary_ne_root {suffix : List UInt8} : v.temporary suffix ≠ v.root := by
  simp [temporary]

@[simp] theorem file_ne_lock : v.file ≠ v.lock := by simp [file, lock]

@[simp] theorem temporary_ne_lock {suffix : List UInt8} : v.temporary suffix ≠ v.lock := by
  simp [temporary, lock]

@[simp] theorem temporary_ne_file {suffix : List UInt8} : v.temporary suffix ≠ v.file := by
  simp [temporary, file]

theorem calls_secureLock (h : S v.lock) : (v.secureLock env).run.Calls (v.Allowed S) := by
  refine Calls.bindE (calls_setPermissions h) fun _ => ?_
  refine Calls.bindE (calls_io.2 (allowed_of_readOnly trivial not_false)) fun m => ?_
  refine Calls.liftE (calls_isOwnerValid (allowed_of_readOnly trivial not_false)) fun owner => ?_
  split_ifs
  · exact Calls.liftE (calls_ignore.2 (allowed_of_mem not_false h fun _ hq => hq)) fun _ => trivial
  · exact calls_io.2 (allowed_of_readOnly trivial (by simp [Syncs]))

theorem calls_tryLock (h : S v.lock) (retries : ℕ) :
    (v.tryLock env retries).run.Calls (v.Allowed S) := by
  have hc : v.Allowed S (.createNew v.lock v.kind.fileMode) := allowed_of_mem not_false h fun _ hq => hq
  induction retries with
  | zero =>
    unfold tryLock
    refine Calls.liftE (calls_reply.2 hc) fun r => ?_
    match r with
    | .ok _ => exact calls_secureLock h
    | .error .alreadyExists => trivial
    | .error .notFound => trivial
    | .error .other => trivial
  | succ n ih =>
    unfold tryLock
    refine Calls.liftE (calls_reply.2 hc) fun r => ?_
    match r with
    | .ok _ => exact calls_secureLock h
    | .error .alreadyExists => exact ih
    | .error .notFound => trivial
    | .error .other => trivial

theorem calls_acquire (h : S v.lock) (retries : ℕ) :
    (v.acquire env retries).run.Calls (v.Allowed S) :=
  Calls.bindE calls_validateDirectory fun _ => calls_tryLock h retries

/-- The files an operation works on. -/
def Works (v : Vault) (suffix : List UInt8) (q : Path) : Prop :=
  v.file <+: q ∨ v.temporary suffix <+: q

theorem calls_replaceFile {bytes suffix : List UInt8} {key : MasterKey} :
    (v.replaceFile env bytes key suffix).run.Calls (v.Allowed (v.Works suffix)) := by
  have ht : v.Works suffix (v.temporary suffix) := .inr List.prefix_rfl
  refine Calls.bindE (calls_io.2 (allowed_of_mem not_false ht fun _ hq => hq)) fun _ => ?_
  refine Calls.bindE (calls_setPermissions ht) fun _ => ?_
  refine Calls.bindE (calls_io.2 (allowed_of_mem not_false ht fun _ hq => hq)) fun _ => ?_
  refine Calls.bindE (calls_io.2 (allowed_of_readOnly trivial (by simp [Syncs]))) fun _ => ?_
  refine Calls.bindE (calls_readSecureFile temporary_ne_root) fun verified => ?_
  refine Calls.bindE trivial fun _ => calls_io.2 ⟨fun q hq => ?_, not_false⟩
  exact hq.symm

theorem calls_writeVerified {bytes suffix : List UInt8} {key : MasterKey} :
    (v.writeVerified env bytes key suffix).run.Calls (v.Allowed (v.Works suffix)) := by
  unfold writeVerified
  split_ifs
  · trivial
  · refine Calls.bindE (calls_io.2 (allowed_of_readOnly trivial not_false)) fun _ => ?_
    exact Calls.onError calls_replaceFile
      (calls_ignore.2 (allowed_of_mem not_false (.inr List.prefix_rfl) fun _ hq => hq))

theorem calls_writeProfile {profile : Profile} {key : MasterKey} {draws : Draws} :
    (v.writeProfile env profile key draws).run.Calls (v.Allowed (v.Works draws.suffix)) :=
  Calls.bindE (calls_io.2 (allowed_of_readOnly trivial not_false)) fun _ =>
    Calls.bindE trivial fun _ => calls_writeVerified

theorem calls_change {draws : Draws} (c : Change) :
    (v.change env draws c).run.Calls (v.Allowed (v.Works draws.suffix)) := by
  have hunlink : v.Allowed (v.Works draws.suffix) (.unlink v.file) :=
    allowed_of_mem not_false (.inl List.prefix_rfl) fun _ hq => hq
  cases c with
  | commit key profile =>
    refine Calls.bindE ?_ fun _ => calls_writeProfile
    refine Calls.bindE (calls_io.2 (allowed_of_readOnly trivial not_false)) fun b => ?_
    split_ifs
    · exact Calls.bindE (calls_readSecureFile file_ne_root) fun _ =>
        Calls.bindE trivial fun _ => trivial
    · trivial
  | rotate old new =>
    exact Calls.bindE (calls_readSecureFile file_ne_root) fun _ =>
      Calls.bindE trivial fun _ => calls_writeProfile
  | delete key =>
    exact Calls.bindE (calls_readSecureFile file_ne_root) fun _ =>
      Calls.bindE trivial fun _ => calls_io.2 hunlink
  | reset => exact Calls.bindE calls_validateSecurePath fun _ => calls_io.2 hunlink

theorem prepares_prepare (c : Change) : (v.prepare env c).run.Calls v.Prepares := by
  cases c with
  | commit key profile => exact prepares_ensureDirectory
  | rotate old new => exact prepares_validateDirectory
  | delete key => exact prepares_validateDirectory
  | reset => exact prepares_validateDirectory

theorem calls_prepare (c : Change) : (v.prepare env c).run.Calls (v.Allowed (· <+: v.root)) :=
  (prepares_prepare c).mono fun _ h => h.allowed

/-- An operation works above and below the directory of the vault. -/
theorem calls_operate {retries : ℕ} {draws : Draws} (c : Change) :
    (v.operate env retries draws c).run.Calls fun call =>
      ∀ q, call.Touches q → q <+: v.root ∨ v.root <+: q := by
  have hlock : v.root <+: v.lock := List.prefix_append _ _
  have hwork : ∀ {q}, v.Works draws.suffix q → v.root <+: q := fun h =>
    h.elim (List.prefix_append _ _).trans (List.prefix_append _ _).trans
  refine Calls.bindE ((calls_prepare c).mono fun _ h q hq => .inl (h.1 q hq)) fun _ => ?_
  refine Calls.bindE ((calls_acquire (S := (· = v.lock)) rfl retries).mono
    fun _ h q hq => .inr (h.1 q hq ▸ hlock)) fun _ => ?_
  refine Calls.inScope ?_ (calls_ignore.2 fun q hq => .inr (hq ▸ hlock))
  refine Calls.bindE ((calls_change c).mono fun _ h q hq => .inr (hwork (h.1 q hq))) fun _ => ?_
  exact Calls.bindE (calls_io.2 fun _ => False.elim) fun _ => calls_io.2 fun _ => False.elim

end Vault

end KFaceAuth
