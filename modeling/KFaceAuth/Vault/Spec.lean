import KFaceAuth.Vault.Store

/-!
# What the vault programs do

For each program that the operations on vaults and on system profiles share,
what it leaves unchanged, what its success says of the file system, and why it
may fail.
-/

namespace KFaceAuth

open Prog Fs

variable {sys : Sys Name} {env : Env} {G : Step FileCall Files → Prop} {I : Files → Prop}
  {w w' : Files} {p q : Path}

/-! ## Groups and permissions -/

theorem safe_groupId {group : Group} (hI : I w) :
    (groupId env p group).run.Safe (handler sys) G I (fun r w' => w' = w ∧
      match r with
      | .ok gid => env.gid group = some gid
      | .error _ => G ⟨.query p, .fault, w⟩ ∨ env.gid group = none) w := by
  refine Safe.look trivial hI (fun _ _ => ?_) fun e he => ⟨rfl, .inl (he.resolve_right nofun)⟩
  cases hg : env.gid group with
  | none => exact ⟨rfl, .inr rfl⟩
  | some gid => exact ⟨rfl, rfl⟩

/-- The owner, the group and the mode of `p` are being set, in this order. -/
structure Permits (env : Env) (p : Path) (owner mode : ℕ) (group : Group) (w w' : Files) :
    Prop where
  same : ∀ q, q ≠ p → w'.get q = w.get q
  node : w'.get p = w.get p ∨ ∃ n gid, w.get p = some n ∧ env.gid group = some gid ∧
    (w'.get p = some { n with uid := owner, gid } ∨ w'.get p = some { n with uid := owner, gid, mode })
  locks : w'.locks = w.locks
  log : w'.log = w.log
  wf : w.WF → w'.WF

theorem Permits.refl {owner mode : ℕ} {group : Group} : Permits env p owner mode group w w :=
  ⟨fun _ _ => rfl, .inl rfl, rfl, rfl, id⟩

/-- The permissions of `p` are set. -/
def Permitted (env : Env) (p : Path) (owner mode : ℕ) (group : Group) (w w' : Files) : Prop :=
  ∃ n gid, w.get p = some n ∧ n.kind ≠ .symlink ∧ env.gid group = some gid ∧
    w'.get p = some { n with uid := owner, gid, mode }

theorem safe_setFdPermissions {owner mode : ℕ} {group : Group} :
    (setFdPermissions env p owner mode group).run.Safe (handler sys) G
      (Permits env p owner mode group w) (fun r w' => Permits env p owner mode group w w' ∧
        match r with
        | .ok _ => Permitted env p owner mode group w w'
        | .error _ => Disturbs G p ∨ env.gid group = none ∨
            ∀ n, w.get p = some n → n.kind = .symlink) w := by
  refine Safe.look trivial .refl (fun st hst => ?_) fun e he => ⟨.refl, ?_⟩
  swap
  · cases hp : w.get p with
    | none => exact .inr (.inr fun _ hn => by cases hn)
    | some n =>
      refine .inl ⟨.fstat p, w, rfl, by simp [hp], he.resolve_right fun h => ?_⟩
      simp [exec, hp] at h
  obtain ⟨n, hn, rfl⟩ := hst.fstat
  split_ifs with hk
  · exact ⟨.refl, .inr (.inr fun m hm => by rw [hn] at hm; cases hm; exact hk)⟩
  refine Safe.bindE (safe_groupId .refl) ?_ ?_
  · rintro gid w ⟨rfl, hg⟩
    refine Safe.act trivial .refl (fun v w₁ h₁ => ?_) fun e he => ⟨.refl, ?_⟩
    · obtain ⟨m, hm, hs₁, hl₁⟩ := exec_chown h₁
      rw [hn] at hm
      cases hm
      have hp₁ : Permits env p owner mode group w w₁ :=
        ⟨fun q hq => hs₁.of_ne hq, .inr ⟨n, gid, hn, hg, .inl hs₁.self⟩, hs₁.locks, hl₁,
          wf_of_exec h₁⟩
      refine Safe.io (fun _ => hp₁) (fun v w₂ _ h₂ => ?_) (fun _ _ h => by cases h)
        fun e he => ⟨hp₁, ?_⟩
      · obtain ⟨m, hm, hs₂, hl₂⟩ := exec_chmod h₂
        rw [hs₁.self] at hm
        cases hm
        exact ⟨⟨fun q hq => (hs₂.of_ne hq).trans (hs₁.of_ne hq),
          .inr ⟨n, gid, hn, hg, .inr hs₂.self⟩, hs₂.locks.trans hs₁.locks, hl₂.trans hl₁,
          fun hw => wf_of_exec h₂ (wf_of_exec h₁ hw)⟩, n, gid, hn, hk, hg, hs₂.self⟩
      · refine .inl ⟨.chmod p mode, w₁, rfl, by simp [hs₁.self], he.resolve_right fun h => ?_⟩
        have := update_error h
        rw [hs₁.self] at this
        cases this
    · refine .inl ⟨.chown p (some owner) gid, w, rfl, by simp [hn], he.resolve_right fun h => ?_⟩
      have := update_error h
      rw [hn] at this
      cases this
  · rintro e w ⟨rfl, he⟩
    exact ⟨.refl, he.imp (fun g => ⟨.query p, w, rfl, by simp [hn], g⟩) .inl⟩

theorem safe_orUnsafe {α : Type} {x : ExceptT Unit FileProg α} {Q : Except Unit α → Files → Prop}
    {T : Except VaultError α → Files → Prop} (h : x.run.Safe (handler sys) G I Q w)
    (hok : ∀ a w, Q (.ok a) w → T (.ok a) w)
    (herr : ∀ e w, Q (.error e) w → T (.error .unsafeFilesystem) w) :
    (orUnsafe x).run.Safe (handler sys) G I T w := by
  refine h.bind fun r w hw => ?_
  cases r with
  | ok a => exact hok a w hw
  | error e => exact herr e w hw

/-! ## Ownership -/

/-- The owner is the one expected of a vault. -/
def OwnerValid (env : Env) (uid : UInt32) (owner group : ℕ) : VaultKind → Prop
  | .userSession => owner = uid.toNat
  | .system => owner = 0 ∧ env.group = some group

theorem safe_isOwnerValid {m : Stat} {uid : UInt32} {kind : VaultKind} (hI : I w) :
    (isOwnerValid env m uid kind).Safe (handler sys) G I (fun b w' => w' = w ∧
      match b with
      | true => OwnerValid env uid m.uid m.gid kind
      | false => MayFail G ∨ ¬ OwnerValid env uid m.uid m.gid kind) w := by
  cases kind with
  | userSession =>
    refine ⟨rfl, ?_⟩
    by_cases h : m.uid = uid.toNat
    · simp [h, OwnerValid]
    · simp [h, OwnerValid]
  | system =>
    simp only [isOwnerValid]
    split_ifs with h
    · refine (safe_groupId hI).bind fun r _ hr => ?_
      obtain ⟨rfl, hr⟩ := hr
      cases r with
      | ok gid =>
        refine ⟨rfl, ?_⟩
        have hg : env.group = some gid := hr
        by_cases he : m.gid = gid
        · simp [he, OwnerValid, h, hg]
        · simp [he, OwnerValid, hg, Ne.symm he]
      | error e =>
        refine ⟨rfl, hr.imp (fun g => ⟨_, _, g⟩) fun hg hv => ?_⟩
        have hn : env.group = none := hg
        rw [hv.2] at hn
        cases hn
    · exact ⟨rfl, .inr fun hv => h hv.1⟩

/-! ## Reading -/

namespace Vault

variable {v : Vault}

/-- The directory of the vault is as it should be. -/
def DirectoryValid (env : Env) (v : Vault) (w : Files) : Prop :=
  ∃ n, w.get v.root = some n ∧ n.kind = .dir ∧ OwnerValid env v.uid n.uid n.gid v.kind ∧
    n.mode &&& 0o777 = v.kind.directoryMode

/-- A file of the vault is as it should be. -/
structure FileValid (env : Env) (v : Vault) (n : Node (List UInt8)) : Prop where
  kind : n.kind = .file
  owner : OwnerValid env v.uid n.uid n.gid v.kind
  nlink : n.nlink = 1
  mode : n.mode &&& 0o777 = v.kind.fileMode

theorem DirectoryValid.isDir (h : v.DirectoryValid env w) : w.IsDir v.root := by
  obtain ⟨n, hn, hk, -⟩ := h
  exact ⟨n, hn, hk⟩

theorem safe_validateDirectory (hI : I w) :
    (v.validateDirectory env).run.Safe (handler sys) G I (fun r w' => w' = w ∧
      match r with
      | .ok _ => v.DirectoryValid env w
      | .error e => e ≠ .lockTimeout ∧ (MayFail G ∨ ¬ v.DirectoryValid env w)) w := by
  refine Safe.look trivial hI (fun m hm => ?_) fun e he => ⟨rfl, ?_, ?_⟩
  · obtain ⟨n, hn, rfl⟩ := hm.lstat
    split_ifs with hk
    · refine ⟨rfl, nofun, .inr ?_⟩
      rintro ⟨m, hm, hd, -⟩
      rw [hn] at hm
      cases hm
      exact hk hd
    refine Safe.liftE (safe_isOwnerValid hI) fun b w hb => ?_
    obtain ⟨rfl, hb⟩ := hb
    split_ifs with hc
    · refine ⟨rfl, nofun, ?_⟩
      cases b with
      | false =>
        refine hb.imp_right fun ho => ?_
        rintro ⟨m, hm, -, hv, -⟩
        rw [hn] at hm
        cases hm
        exact ho hv
      | true =>
        refine .inr ?_
        rintro ⟨m, hm, -, -, hmode⟩
        rw [hn] at hm
        cases hm
        exact (hc.resolve_left nofun) hmode
    · cases b with
      | false => simp at hc
      | true =>
        exact ⟨rfl, n, hn, not_not.1 hk, hb, not_not.1 (not_or.1 hc).2⟩
  · cases e <;> nofun
  · refine he.lstat.imp_right fun h => ?_
    rintro ⟨m, hm, -⟩
    rw [h.1] at hm
    cases hm

theorem safe_validateSecurePath (hI : I w) :
    (v.validateSecurePath env p).run.Safe (handler sys) G I (fun r w' => w' = w ∧
      ∀ st, r = .ok st → ∃ n, w.get p = some n ∧ v.FileValid env n ∧ st = n.stat) w := by
  refine Safe.look trivial hI (fun m hm => ?_) fun e he => ⟨rfl, fun _ h => by cases h⟩
  obtain ⟨n, hn, rfl⟩ := hm.lstat
  split_ifs with hk
  · exact ⟨rfl, fun _ h => by cases h⟩
  refine Safe.liftE (safe_isOwnerValid hI) fun b w hb => ?_
  obtain ⟨rfl, hb⟩ := hb
  split_ifs with hc
  · exact ⟨rfl, fun _ h => by cases h⟩
  · cases b with
    | false => simp at hc
    | true =>
      push Not at hc
      refine ⟨rfl, ?_⟩
      rintro st ⟨⟩
      exact ⟨n, hn, ⟨not_not.1 hk, hb, hc.2.1, hc.2.2⟩, rfl⟩

theorem safe_readSecureFile (hI : I w) :
    (v.readSecureFile env p).run.Safe (handler sys) G I (fun r w' => w' = w ∧
      ∀ bytes, r = .ok bytes → ∃ n, w.get p = some n ∧ v.FileValid env n ∧
        n.data.length ≤ maximumVaultBytes ∧ bytes = n.data) w := by
  refine Safe.bindE (safe_validateSecurePath hI) ?_ fun e w h => ⟨h.1, fun _ h => by cases h⟩
  rintro st w ⟨rfl, hst⟩
  obtain ⟨n, hn, hv, rfl⟩ := hst st rfl
  split_ifs with hlen
  · exact ⟨rfl, fun _ h => by cases h⟩
  refine Safe.look trivial hI (fun _ _ => ?_) fun e _ => ⟨rfl, fun _ h => by cases h⟩
  refine Safe.look trivial hI (fun after _ => ?_) fun e _ => ⟨rfl, fun _ h => by cases h⟩
  split_ifs with hino
  · exact ⟨rfl, fun _ h => by cases h⟩
  refine Safe.liftE (safe_isOwnerValid hI) fun b w hb => ?_
  obtain ⟨rfl, hb⟩ := hb
  split_ifs with hc
  · exact ⟨rfl, fun _ h => by cases h⟩
  refine Safe.look trivial hI (fun bytes hbytes => ?_) fun e _ => ⟨rfl, fun _ h => by cases h⟩
  obtain ⟨m, hm, -, rfl⟩ := hbytes.read
  rw [hn] at hm
  cases hm
  split_ifs with hmax
  · exact ⟨rfl, fun _ h => by cases h⟩
  · refine ⟨rfl, ?_⟩
    rintro _ ⟨⟩
    exact ⟨n, hn, hv, not_lt.1 hmax, rfl⟩

theorem safe_setPermissions :
    (v.setPermissions env p).run.Safe (handler sys) G
      (Permits env p 0 v.kind.fileMode .kfaceauth w) (fun r w' =>
        Permits env p 0 v.kind.fileMode .kfaceauth w w' ∧
        match r with
        | .ok _ => v.kind = .system → Permitted env p 0 v.kind.fileMode .kfaceauth w w'
        | .error e => v.kind = .system ∧ e ≠ .lockTimeout ∧ (Disturbs G p ∨ env.group = none ∨
            ∀ n, w.get p = some n → n.kind = .symlink)) w := by
  unfold setPermissions
  cases hk : v.kind with
  | userSession => exact ⟨.refl, nofun⟩
  | system =>
    exact safe_orUnsafe safe_setFdPermissions (fun _ _ h => ⟨h.1, fun _ => h.2⟩)
      fun _ _ h => ⟨h.1, rfl, nofun, h.2⟩

theorem safe_decode {bytes : List UInt8} {key : MasterKey} :
    (v.decode env bytes key).run.Safe (handler sys) G I (fun r w' => w' = w ∧
      r = decodeVault env.crypto bytes key v.uid) w :=
  ⟨rfl, rfl⟩

/-- The vault decodes under the key. -/
def Decodes (env : Env) (v : Vault) (key : MasterKey) (w : Files) : Prop :=
  ∃ n, w.get v.file = some n ∧ (decodeVault env.crypto n.data key v.uid).isOk

theorem safe_openProfileSnapshot {key : MasterKey} (hI : I w) :
    (v.openProfileSnapshot env key).run.Safe (handler sys) G I (fun r w' => w' = w ∧
      (r.isOk → v.DirectoryValid env w ∧ v.Decodes env key w ∧
        ∃ n, w.get v.file = some n ∧ v.FileValid env n ∧ n.data.length ≤ maximumVaultBytes)) w := by
  refine Safe.bindE (safe_validateDirectory hI) ?_ fun e w h => ⟨h.1, nofun⟩
  rintro _ w ⟨rfl, hdir⟩
  refine Safe.bindE (safe_readSecureFile hI) ?_ fun e w h => ⟨h.1, nofun⟩
  rintro bytes w ⟨rfl, hbytes⟩
  obtain ⟨n, hn, hv, hlen, rfl⟩ := hbytes bytes rfl
  refine Safe.bindE safe_decode ?_ fun e w h => ⟨h.1, nofun⟩
  rintro profile w ⟨rfl, hprofile⟩
  cases env.crypto.sha256 n.data with
  | ok digest => exact ⟨rfl, fun _ => ⟨hdir, ⟨n, hn, by rw [← hprofile]; rfl⟩, n, hn, hv, hlen⟩⟩
  | error e => exact ⟨rfl, nofun⟩

theorem safe_validateIntegrity {key : MasterKey} (hI : I w) :
    (v.validateIntegrity env key).run.Safe (handler sys) G I (fun r w' => w' = w ∧
      (r.isOk → v.DirectoryValid env w ∧ v.Decodes env key w ∧
        ∃ n, w.get v.file = some n ∧ v.FileValid env n ∧ n.data.length ≤ maximumVaultBytes)) w :=
  Safe.bindE (safe_openProfileSnapshot hI) (fun _ _ h => ⟨h.1, fun _ => h.2 rfl⟩)
    fun _ _ h => ⟨h.1, nofun⟩

end Vault

end KFaceAuth
