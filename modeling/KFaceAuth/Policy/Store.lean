import KFaceAuth.Policy.Json
import KFaceAuth.Vault.Footprint

/-!
# The policy file

Loading the policy from the configuration directory, and replacing it: the new
policy is written to a temporary file, which is then renamed.

A file that is too large is refused when it is loaded, but not when it is
written, so that a policy with many users is lost.

* `load_after_write_iff`: after a successful replacement the policy is loaded
  back if and only if its serialization is within the size limit.
-/

namespace KFaceAuth

open Prog Fs

/-- The permissions of an open file, failing as an I/O error. -/
def orIo {α : Type} (x : ExceptT Unit FileProg α) : ExceptT AuthPolicyError FileProg α :=
  ExceptT.mk do
    match ← x.run with
    | .ok a => return .ok a
    | .error _ => return .error .io

/-- `validate_root_directory`. -/
def validateRootDirectory (dir : Path) (requireConfigMode : Bool) :
    ExceptT AuthPolicyError FileProg Unit := do
  let m ← io (fun _ => .unsafeFilesystem) (.fstat dir)
  if m.kind ≠ .dir ∨ m.uid ≠ 0 ∨ m.gid ≠ 0 ∨ m.mode &&& 0o7777 ≠ m.mode &&& 0o777 ∨
      (requireConfigMode = true ∧ m.mode &&& 0o777 ≠ 0o755) then
    throw .unsafeFilesystem
  else return ()

def policyPath (dir : Path) : Path := dir ++ [Name.policyJson]

def policyStaging (dir : Path) (pid nonce : ℕ) : Path := dir ++ [Name.policyTmp pid nonce]

/-- `policy_identity`, but for the times: in the run of one program the file is
    not touched between two looks at it. -/
def Stat.identity (m : Stat) : ℕ × ℕ := (m.ino, m.len)

/-- `AuthPolicySnapshot::load_from_directory`. -/
def loadSnapshot (dir : Path) : ExceptT AuthPolicyError FileProg AuthPolicy := do
  validateRootDirectory dir true
  let entry ← io (fun _ => .io) (.lstat (policyPath dir))
  if entry.kind ≠ .file then throw .unsafeFilesystem
  else do
    io (fun _ => .unsafeFilesystem) (.openFile (policyPath dir))
    let m ← io (fun _ => .io) (.fstat (policyPath dir))
    if m.kind ≠ .file ∨ m.uid ≠ 0 ∨ m.gid ≠ 0 ∨ m.mode &&& 0o7777 ≠ 0o644 ∨ m.nlink ≠ 1 ∨
        m.len > maxPolicyBytes then
      throw .unsafeFilesystem
    else do
      let bytes ← io (fun _ => .io) (.read (policyPath dir))
      let policy ← ExceptT.mk (return AuthPolicy.parseJson (bytes.take (maxPolicyBytes + 1)))
      let m' ← io (fun _ => .io) (.fstat (policyPath dir))
      if m'.identity ≠ m.identity then throw .unsafeFilesystem else return policy

/-- `AuthPolicy::load_from_directory`: without a file, everything is off. -/
def loadFromDirectory (dir : Path) : ExceptT AuthPolicyError FileProg AuthPolicy := do
  validateRootDirectory dir true
  match ← reply (.lstat (policyPath dir) : FileCall) with
  | .error .notFound => return default
  | .error _ => throw .io
  | .ok entry => if entry.kind ≠ .file then throw .unsafeFilesystem else loadSnapshot dir

/-- `AuthPolicy::write_atomic`, by a process of the user `euid`. -/
def writeAtomic (env : Env) (euid pid nonce : ℕ) (dir : Path) (policy : AuthPolicy) :
    ExceptT AuthPolicyError FileProg Unit := do
  validateRootDirectory dir true
  if euid ≠ 0 then throw .unsafeFilesystem
  else do
    io (fun _ => .io) (.query [])
    io (fun _ => .io) (.createNew (policyStaging dir pid nonce) 0o600)
    onError (do
      io (fun _ => .io) (.write (policyStaging dir pid nonce) policy.toJson)
      io (fun _ => .io) (.fsync (policyStaging dir pid nonce))
      orIo (setFdPermissions env (policyStaging dir pid nonce) 0 0o644 .root)
      io (fun _ => .io) (.rename (policyStaging dir pid nonce) (policyPath dir))
      io (fun _ => .io) (.fsync dir)) (ignore (.unlink (policyStaging dir pid nonce)))

variable {sys : Sys Name} {env : Env} {G : Step FileCall Files → Prop} {I : Files → Prop}
  {w w' : Files} {dir : Path}

/-! ## Loading -/

/-- The directory belongs to root, with the mode of the configuration directory. -/
def ConfigDirectory (w : Files) (dir : Path) : Prop :=
  ∃ n, w.get dir = some n ∧ n.kind = .dir ∧ n.uid = 0 ∧ n.gid = 0 ∧
    n.mode &&& 0o7777 = n.mode &&& 0o777 ∧ n.mode &&& 0o777 = 0o755

theorem ConfigDirectory.isDir (h : ConfigDirectory w dir) : w.IsDir dir := by
  obtain ⟨n, hn, hk, -⟩ := h
  exact ⟨n, hn, hk⟩

theorem configDirectory_congr (h : w'.get dir = w.get dir) :
    ConfigDirectory w' dir ↔ ConfigDirectory w dir := by
  simp only [ConfigDirectory, h]

/-- The metadata of the policy file is as checked. -/
structure SecurePolicyFile (n : Node (List UInt8)) : Prop where
  kind : n.kind = .file
  uid : n.uid = 0
  gid : n.gid = 0
  mode : n.mode &&& 0o7777 = 0o644
  nlink : n.nlink = 1
  size : n.data.length ≤ maxPolicyBytes

/-- A policy file is in place and read as `policy`. -/
def Installed (w : Files) (dir : Path) (policy : AuthPolicy) : Prop :=
  ConfigDirectory w dir ∧ ∃ n, w.get (policyPath dir) = some n ∧ SecurePolicyFile n ∧
    AuthPolicy.parseJson n.data = .ok policy

/-- The policy on disk is `policy`: that of the file, or the default. -/
def OnDisk (w : Files) (dir : Path) (policy : AuthPolicy) : Prop :=
  Installed w dir policy ∨
    ConfigDirectory w dir ∧ w.get (policyPath dir) = none ∧ policy = default

theorem Installed.unique {p q : AuthPolicy} (hp : Installed w dir p) (hq : Installed w dir q) :
    p = q := by
  obtain ⟨-, n, hn, -, hp⟩ := hp
  obtain ⟨-, m, hm, -, hq⟩ := hq
  rw [hn] at hm
  cases hm
  rw [hp] at hq
  cases hq
  rfl

theorem safe_validateRootDirectory (hI : I w) :
    (validateRootDirectory dir true).run.Safe (handler sys) G I (fun r w' => w' = w ∧
      match r with
      | .ok _ => ConfigDirectory w dir
      | .error _ => MayFail G ∨ ¬ ConfigDirectory w dir) w := by
  refine Safe.look trivial hI (fun m hm => ?_) fun e he => ⟨rfl, he.fstat.imp_right ?_⟩
  · obtain ⟨n, hn, rfl⟩ := hm.fstat
    split_ifs with hc
    · refine ⟨rfl, .inr ?_⟩
      rintro ⟨m, hm, hk, hu, hg, hmode, hconfig⟩
      rw [hn] at hm
      cases hm
      simp [Node.stat, hk, hu, hg, hmode, hconfig] at hc
    · push Not at hc
      exact ⟨rfl, n, hn, hc.1, hc.2.1, hc.2.2.1, hc.2.2.2.1, hc.2.2.2.2 rfl⟩
  · rintro h ⟨n, hn, -⟩
    rw [h] at hn
    cases hn

theorem safe_loadSnapshot (hI : I w) :
    (loadSnapshot dir).run.Safe (handler sys) G I (fun r w' => w' = w ∧
      match r with
      | .ok policy => Installed w dir policy
      | .error _ => MayFail G ∨ ∀ policy, ¬ Installed w dir policy) w := by
  -- an installed policy has a node, whatever is found out about it is of that node
  have refuse : ∀ {n : Node (List UInt8)}, w.get (policyPath dir) = some n →
      (∀ policy, SecurePolicyFile n → AuthPolicy.parseJson n.data = .ok policy → False) →
      ∀ policy, ¬ Installed w dir policy := by
    rintro n hn h policy ⟨-, m, hm, hf, hp⟩
    rw [hn] at hm
    cases hm
    exact h policy hf hp
  refine Safe.bindE (safe_validateRootDirectory hI) ?_ ?_
  swap
  · rintro e w₁ ⟨rfl, h⟩
    exact ⟨rfl, h.imp_right fun h policy hp => h hp.1⟩
  rintro _ w₁ ⟨rfl, hdir⟩
  refine Safe.look trivial hI (fun entry hentry => ?_) fun e he => ⟨rfl, he.lstat.imp_right ?_⟩
  swap
  · rintro ⟨h, -⟩ policy ⟨-, n, hn, -⟩
    rw [h] at hn
    cases hn
  obtain ⟨n, hn, rfl⟩ := hentry.lstat
  split_ifs with hk
  · exact ⟨rfl, .inr (refuse hn fun _ hf _ => hk hf.kind)⟩
  have hkind : n.kind = .file := not_not.1 hk
  refine Safe.look trivial hI (fun _ _ => ?_) fun e he => ⟨rfl, he.openFile.imp_right ?_⟩
  swap
  · intro h
    have := h n hn
    rw [hkind] at this
    cases this
  refine Safe.look trivial hI (fun m hm => ?_) fun e he => ⟨rfl, he.fstat.imp_right ?_⟩
  swap
  · intro h
    rw [hn] at h
    cases h
  obtain ⟨n', hn', rfl⟩ := hm.fstat
  rw [hn] at hn'
  cases hn'
  split_ifs with hc
  · refine ⟨rfl, .inr (refuse hn fun _ hf _ => ?_)⟩
    rcases hc with h | h | h | h | h | h
    · exact h hf.kind
    · exact h hf.uid
    · exact h hf.gid
    · exact h hf.mode
    · exact h hf.nlink
    · exact Nat.not_lt.2 hf.size h
  push Not at hc
  have hfile : SecurePolicyFile n := ⟨hkind, hc.2.1, hc.2.2.1, hc.2.2.2.1, hc.2.2.2.2.1, hc.2.2.2.2.2⟩
  refine Safe.look trivial hI (fun bytes hbytes => ?_) fun e he => ⟨rfl, he.read.imp_right ?_⟩
  swap
  · exact fun h => absurd hkind (h n hn)
  obtain ⟨n', hn', -, rfl⟩ := hbytes.read
  rw [hn] at hn'
  cases hn'
  have htake : n.data.take (maxPolicyBytes + 1) = n.data :=
    List.take_of_length_le (hfile.size.trans (Nat.le_succ _))
  rw [htake]
  cases hp : AuthPolicy.parseJson n.data with
  | error e =>
    refine ⟨rfl, .inr (refuse hn fun policy _ h => ?_)⟩
    rw [hp] at h
    cases h
  | ok policy =>
    refine Safe.look trivial hI (fun m' hm' => ?_) fun e he => ⟨rfl, he.fstat.imp_right ?_⟩
    · obtain ⟨n', hn', rfl⟩ := hm'.fstat
      rw [hn] at hn'
      cases hn'
      rw [if_neg (not_not.2 rfl)]
      exact ⟨rfl, hdir, n, hn, hfile, hp⟩
    · intro h
      rw [hn] at h
      cases h

theorem safe_loadFromDirectory (hI : I w) :
    (loadFromDirectory dir).run.Safe (handler sys) G I (fun r w' => w' = w ∧
      match r with
      | .ok policy => OnDisk w dir policy
      | .error _ => MayFail G ∨ ∀ policy, ¬ OnDisk w dir policy) w := by
  refine Safe.bindE (safe_validateRootDirectory hI) ?_ ?_
  swap
  · rintro e w₁ ⟨rfl, h⟩
    refine ⟨rfl, h.imp_right fun h policy hp => h ?_⟩
    exact hp.elim (fun hp => hp.1) fun hp => hp.1
  rintro _ w₁ ⟨rfl, hdir⟩
  refine Safe.liftE (Q := Post
    (fun entry w' => w' = w₁ ∧ ∃ n, w₁.get (policyPath dir) = some n ∧ entry = n.stat)
    fun e w' => w' = w₁ ∧ (e = .notFound → w₁.get (policyPath dir) = none) ∧
      (e ≠ .notFound → MayFail G)) ⟨fun _ => hI, fun _ => ?_, ?_⟩ ?_
  · cases hp : w₁.get (policyPath dir) with
    | none =>
      simp only [handler, exec, hp]
      exact ⟨rfl, fun _ => trivial, fun h => absurd rfl h⟩
    | some n =>
      simp only [handler, exec, hp]
      exact ⟨rfl, n, rfl, rfl⟩
  · rintro r ⟨⟩ hg
    exact ⟨rfl, (fun h => by cases h), fun _ => ⟨_, _, hg⟩⟩
  · rintro r w₂ hr
    cases r with
    | error e =>
      obtain ⟨rfl, hnone, hfail⟩ := hr
      cases e with
      | notFound => exact ⟨rfl, .inr ⟨hdir, hnone rfl, rfl⟩⟩
      | alreadyExists => exact ⟨rfl, .inl (hfail (by decide))⟩
      | other => exact ⟨rfl, .inl (hfail (by decide))⟩
    | ok entry =>
      obtain ⟨rfl, n, hn, rfl⟩ := hr
      have hne : ∀ policy, OnDisk w₂ dir policy → Installed w₂ dir policy := by
        rintro policy (hp | ⟨-, hp, -⟩)
        · exact hp
        · rw [hn] at hp
          cases hp
      dsimp only
      split_ifs with hk
      · refine ⟨rfl, .inr fun policy hp => ?_⟩
        obtain ⟨-, m, hm, hf, -⟩ := hne policy hp
        rw [hn] at hm
        cases hm
        exact hk hf.kind
      · refine (safe_loadSnapshot hI).post fun r w₃ h => ?_
        cases r with
        | ok policy => exact ⟨h.1, .inl h.2⟩
        | error e => exact ⟨h.1, h.2.imp_right fun h policy hp => h policy (hne policy hp)⟩

/-! ## Replacing -/

/-- The policy file holds the serialization of `policy`. -/
def Written (w : Files) (dir : Path) (policy : AuthPolicy) : Prop :=
  ∃ n, w.get (policyPath dir) = some n ∧ n.kind = .file ∧ n.uid = 0 ∧ n.gid = 0 ∧
    n.mode = 0o644 ∧ n.nlink = 1 ∧ n.data = policy.toJson

/-- What the replacement of a policy may touch. -/
def PolicyScope (dir : Path) (pid nonce : ℕ) (q : Path) : Prop :=
  policyStaging dir pid nonce <+: q ∨ policyPath dir <+: q

theorem staging_ne_policy {pid nonce : ℕ} : policyStaging dir pid nonce ≠ policyPath dir := by
  simp [policyStaging, policyPath]

theorem calls_orIo {P : FileCall → Prop} {α : Type} {x : ExceptT Unit FileProg α}
    (h : x.run.Calls P) : (orIo x).run.Calls P := by
  refine h.bind fun r => ?_
  cases r <;> trivial

theorem safe_orIo {α : Type} {x : ExceptT Unit FileProg α} {Q : Except Unit α → Files → Prop}
    {T : Except AuthPolicyError α → Files → Prop} (h : x.run.Safe (handler sys) G I Q w)
    (hok : ∀ a w, Q (.ok a) w → T (.ok a) w)
    (herr : ∀ e w, Q (.error e) w → T (.error .io) w) :
    (orIo x).run.Safe (handler sys) G I T w := by
  refine h.bind fun r w hw => ?_
  cases r with
  | ok a => exact hok a w hw
  | error e => exact herr e w hw

theorem calls_writeAtomic {euid pid nonce : ℕ} {policy : AuthPolicy} :
    (writeAtomic env euid pid nonce dir policy).run.Calls
      fun c => ∀ q, c.Touches q → PolicyScope dir pid nonce q := by
  have hstaging : ∀ q, q = policyStaging dir pid nonce → PolicyScope dir pid nonce q :=
    fun q hq => .inl (hq ▸ List.prefix_rfl)
  refine Calls.bindE (Calls.bindE (calls_io.2 fun _ => False.elim) fun m => ?_) fun _ => ?_
  · split_ifs <;> trivial
  split_ifs
  · trivial
  refine Calls.bindE (calls_io.2 fun _ => False.elim) fun _ => ?_
  refine Calls.bindE (calls_io.2 hstaging) fun _ => ?_
  refine Calls.onError ?_ (calls_ignore.2 hstaging)
  refine Calls.bindE (calls_io.2 hstaging) fun _ => ?_
  refine Calls.bindE (calls_io.2 fun _ => False.elim) fun _ => ?_
  refine Calls.bindE (calls_orIo (calls_setFdPermissions (fun _ => False.elim)
    (fun _ => False.elim) (fun _ _ => hstaging) hstaging)) fun _ => ?_
  refine Calls.bindE (calls_io.2 fun q hq => hq) fun _ => ?_
  exact calls_io.2 fun _ => False.elim

theorem written_congr {policy : AuthPolicy}
    (h : w'.get (policyPath dir) = w.get (policyPath dir)) :
    Written w' dir policy ↔ Written w dir policy := by
  simp only [Written, h]

/-- The body of `writeAtomic`, once its temporary file is created. -/
theorem safe_replacePolicy {pid nonce : ℕ} {policy : AuthPolicy} {w₀ : Files}
    (hw : w.get (policyStaging dir pid nonce) = some (w₀.newNode sys .file 0o600))
    (hdir : w.IsDir dir) :
    (do
      io (fun _ => .io) (.write (policyStaging dir pid nonce) policy.toJson)
      io (fun _ => .io) (.fsync (policyStaging dir pid nonce))
      orIo (setFdPermissions env (policyStaging dir pid nonce) 0 0o644 .root)
      io (fun _ => .io) (.rename (policyStaging dir pid nonce) (policyPath dir))
      io (fun _ => .io) (.fsync dir) : ExceptT AuthPolicyError FileProg Unit).run.Safe
      (handler sys) G
      (fun w' => w'.get (policyPath dir) = w.get (policyPath dir) ∨ Written w' dir policy)
      (fun r w' =>
        match r with
        | .ok _ => Written w' dir policy
        | .error _ => (w'.get (policyPath dir) = w.get (policyPath dir) ∨ Written w' dir policy) ∧
            (MayFail G ∨ ∃ n, w.get (policyPath dir) = some n ∧ n.kind = .dir)) w := by
  have hne : policyPath dir ≠ policyStaging dir pid nonce := staging_ne_policy.symm
  have hdne : dir ≠ policyStaging dir pid nonce := by simp [policyStaging]
  refine Safe.act trivial (.inl rfl) (fun _ w₁ h₁ => ?_) fun e he => ⟨.inl rfl, .inl ?_⟩
  swap
  · refine he.write.resolve_right fun h => ?_
    rw [hw] at h
    cases h
  obtain ⟨n, hn, hs₁, -⟩ := exec_write h₁
  rw [hw] at hn
  cases hn
  have hp₁ := hs₁.of_ne hne
  refine Safe.look trivial (.inl hp₁) (fun _ _ => ?_) fun e he => ⟨.inl hp₁, .inl ?_⟩
  swap
  · refine he.fsync.resolve_right fun h => ?_
    rw [hs₁.self] at h
    cases h
  refine Safe.bindE (safe_orIo (T := fun r w₂ => Permits env (policyStaging dir pid nonce) 0 0o644
    .root w₁ w₂ ∧ (r.isOk → Permitted env (policyStaging dir pid nonce) 0 0o644 .root w₁ w₂) ∧
    (r.isOk ∨ MayFail G)) (safe_setFdPermissions.mono (fun w₂ h => .inl ((h.same _ hne).trans hp₁))
    fun _ _ h => h) ?_ ?_) ?_ ?_
  · exact fun _ w₂ h => ⟨h.1, fun _ => h.2, .inl rfl⟩
  · rintro _ w₂ ⟨hp, hd | hg | hl⟩
    · exact ⟨hp, fun h => (by cases h), .inr hd.mayFail⟩
    · cases hg
    · cases hl _ hs₁.self
  · rintro _ w₂ ⟨hperm, hok, -⟩
    obtain ⟨n, gid, hn, -, hg, hn₂⟩ := hok rfl
    rw [hs₁.self] at hn
    cases hn
    cases hg
    have hp₂ : w₂.get (policyPath dir) = w.get (policyPath dir) := (hperm.same _ hne).trans hp₁
    have hd₂ : w₂.IsDir dir :=
      (isDir_congr ((hperm.same _ hdne).trans (hs₁.of_ne hdne))).2 hdir
    refine Safe.act trivial (.inl hp₂) (fun _ w₃ h₃ => ?_) fun e he => ⟨.inl hp₂, ?_⟩
    · obtain ⟨m, hm, -, -, hmove⟩ := exec_rename h₃
      rw [hn₂] at hm
      cases hm
      have hwritten : Written w₃ dir policy := by
        exact ⟨_, hmove.target.trans hn₂, rfl, rfl, rfl, rfl, rfl, rfl⟩
      refine Safe.last (c := .fsync _) trivial (.inr hwritten) (fun _ w₄ h₄ => ?_) fun e he => ?_
      · obtain rfl := exec_readOnly h₄ trivial
        exact hwritten
      · refine ⟨.inr hwritten, .inl (he.fsync.resolve_right fun h => ?_)⟩
        rw [hmove.of_not_prefix (child_not_above _ _) (child_not_above _ _)] at h
        exact absurd hd₂.isSome (by simp [h])
    · have hpq : ¬ policyStaging dir pid nonce <+: policyPath dir :=
        sibling_not_above (by simp) dir []
      have hqp : ¬ policyPath dir <+: policyStaging dir pid nonce :=
        sibling_not_above (by simp) dir []
      rcases he.rename hpq hqp with h | h | h | ⟨m, hm, hc⟩
      · exact .inl h
      · rw [hn₂] at h
        cases h
      · exact absurd (by simpa [policyPath] using hd₂) h
      · rw [hn₂] at hm
        cases hm
        unfold CanReplace at hc
        rw [hp₂] at hc
        split at hc
        · exact absurd trivial hc
        · next m hm =>
          refine .inr ⟨m, hm, ?_⟩
          rw [if_neg fun h => by cases h] at hc
          exact not_not.1 hc
  · rintro e w₂ ⟨hperm, -, h⟩
    exact ⟨.inl ((hperm.same _ hne).trans hp₁), .inl (h.resolve_left fun h => by cases h)⟩

/-- The policy file is replaced as a whole, or not at all. -/
theorem safe_writeAtomic_policy {euid pid nonce : ℕ} {policy : AuthPolicy} :
    (writeAtomic env euid pid nonce dir policy).run.Safe (handler sys) G
      (fun w' => w'.get (policyPath dir) = w.get (policyPath dir) ∨ Written w' dir policy)
      (fun r w' => (w'.get (policyPath dir) = w.get (policyPath dir) ∨ Written w' dir policy) ∧
        match r with
        | .ok _ => ConfigDirectory w dir ∧ Written w' dir policy
        | .error _ => MayFail G ∨ ¬ ConfigDirectory w dir ∨ euid ≠ 0 ∨
            (w.get (policyStaging dir pid nonce)).isSome ∨
            ∃ n, w.get (policyPath dir) = some n ∧ n.kind = .dir) w := by
  have hne : policyPath dir ≠ policyStaging dir pid nonce := staging_ne_policy.symm
  have hdne : dir ≠ policyStaging dir pid nonce := by simp [policyStaging]
  refine Safe.bindE (safe_validateRootDirectory (.inl rfl)) ?_ ?_
  swap
  · rintro e w₁ ⟨rfl, h⟩
    exact ⟨.inl rfl, h.imp_right .inl⟩
  rintro _ w₁ ⟨rfl, hdir⟩
  split_ifs with heuid
  · exact ⟨.inl rfl, .inr (.inr (.inl heuid))⟩
  refine Safe.look trivial (.inl rfl) (fun _ _ => ?_) fun e he => ⟨.inl rfl, .inl he.query⟩
  refine Safe.act trivial (.inl rfl) (fun _ w₂ h₂ => ?_) fun e he => ⟨.inl rfl, ?_⟩
  swap
  · rcases he.createNew with h | ⟨h, -⟩ | ⟨h, -⟩
    · exact .inl h
    · exact .inr (.inr (.inr (.inl h)))
    · exact absurd (by simpa [policyStaging] using hdir.isDir) h
  obtain ⟨hnone, -, hs₂, -⟩ := exec_createNew h₂
  have hp₂ : w₂.get (policyPath dir) = w₁.get (policyPath dir) := hs₂.of_ne hne
  have hd₂ : w₂.IsDir dir := (isDir_congr (hs₂.of_ne hdne)).2 hdir.isDir
  refine Safe.onError ((safe_replacePolicy hs₂.self hd₂).mono (fun _ h => hp₂ ▸ h) fun _ _ h => h)
    ?_ fun e w₃ h₃ => ?_
  · rintro _ w₃ h₃
    exact ⟨.inr h₃, hdir, h₃⟩
  · rw [hp₂] at h₃
    have hclean : ∀ {w₄ : Files}, w₄.get (policyPath dir) = w₃.get (policyPath dir) →
        w₄.get (policyPath dir) = w₁.get (policyPath dir) ∨ Written w₄ dir policy :=
      fun h => h₃.1.imp h.trans (written_congr h).2
    have hwhy : MayFail G ∨ ¬ ConfigDirectory w₁ dir ∨ euid ≠ 0 ∨
        (w₁.get (policyStaging dir pid nonce)).isSome ∨
        ∃ n, w₁.get (policyPath dir) = some n ∧ n.kind = .dir :=
      h₃.2.imp_right fun h => .inr (.inr (.inr h))
    refine Safe.ignore (hclean rfl) (fun _ w₄ h₄ => ⟨?_, hwhy⟩) fun _ _ => ⟨hclean rfl, hwhy⟩
    obtain ⟨-, -, -, hs₄, -⟩ := exec_unlink h₄
    exact hclean (hs₄.of_ne hne)

/-! ## Loading what was written -/

/-- The policies the program comes by: the default, what it reads, and what
    successful calls of `setMode` make of these. -/
inductive AuthPolicy.Obtained : AuthPolicy → Prop
  | default : Obtained default
  | parse {bs : List UInt8} {policy : AuthPolicy} (h : parseJson bs = .ok policy) : Obtained policy
  | setMode {policy policy' : AuthPolicy} {uid : UInt32} {target : AuthTarget}
      {mode : AuthPolicyMode} (h : Obtained policy)
      (hs : policy.setMode uid target mode = .ok policy') : Obtained policy'

theorem AuthPolicy.Obtained.wellFormed {policy : AuthPolicy} (h : policy.Obtained) :
    policy.WellFormed := by
  induction h with
  | default => exact wellFormed_default
  | parse h => exact wellFormed_of_parseJson h
  | setMode _ hs ih => exact ih.setMode hs

/-- A policy that was written is installed if its serialization is not too large. -/
theorem installed_iff_of_written {policy : AuthPolicy} (hp : policy.WellFormed)
    (hdir : ConfigDirectory w dir) (h : Written w dir policy) :
    Installed w dir policy ↔ policy.toJson.length ≤ maxPolicyBytes := by
  obtain ⟨n, hn, hk, hu, hg, hm, hl, hd⟩ := h
  constructor
  · rintro ⟨-, m, hm', hf, -⟩
    rw [hn] at hm'
    cases hm'
    exact hd ▸ hf.size
  · intro hlen
    refine ⟨hdir, n, hn, ⟨hk, hu, hg, by rw [hm]; rfl, hl, hd ▸ hlen⟩, ?_⟩
    rw [hd]
    exact AuthPolicy.parseJson_toJson hp hlen

/-- What a successful `writeAtomic` leaves. -/
theorem written_of_writeAtomic {euid pid nonce : ℕ} {policy : AuthPolicy} {s : List Choice}
    (hrun : (writeAtomic env euid pid nonce dir policy).run.run (handler sys) s w =
      (some (.ok ()), w')) : ConfigDirectory w' dir ∧ Written w' dir policy := by
  have hw := Safe.ends (G := fun _ => True) hrun safe_writeAtomic_policy fun _ _ => trivial
  have hin := Safe.ends (G := fun _ => True) hrun (safe_within calls_writeAtomic)
    fun _ _ => trivial
  have hdir : w'.get dir = w.get dir := hin.get _ fun h =>
    h.elim (child_not_above _ _) (child_not_above _ _)
  exact ⟨(configDirectory_congr hdir).2 hw.2.1, hw.2.2⟩

/-- Without faults, the policy that is loaded is the one installed. -/
theorem loadSnapshot_iff {policy : AuthPolicy} :
    ((loadSnapshot dir).run.run (handler sys) [] w).1 = some (.ok policy) ↔
      Installed w dir policy := by
  obtain ⟨r, w₁, hr⟩ := run_ends (H := handler sys) (loadSnapshot dir).run (s := [])
    List.not_mem_nil w
  have h := Safe.ends hr (safe_loadSnapshot (I := fun _ => True) trivial)
    fun st hst => choice_of_steps_nil hst
  rw [hr]
  cases r with
  | ok p =>
    constructor
    · rintro ⟨⟩
      exact h.2
    · intro hi
      rw [h.2.unique hi]
  | error e =>
    constructor
    · rintro ⟨⟩
    · exact fun hi => absurd hi ((h.2.resolve_left not_mayFail_ok) policy)

/-- Without faults, a policy is written if nothing is in the way. -/
theorem writeAtomic_succeeds {pid nonce : ℕ} (policy : AuthPolicy) (hdir : ConfigDirectory w dir)
    (hstaging : w.get (policyStaging dir pid nonce) = none)
    (hfile : ∀ n, w.get (policyPath dir) = some n → n.kind ≠ .dir) :
    ∃ w', (writeAtomic env 0 pid nonce dir policy).run.run (handler sys) [] w =
      (some (.ok ()), w') := by
  obtain ⟨r, w', hr⟩ := run_ends (H := handler sys) (writeAtomic env 0 pid nonce dir policy).run
    (s := []) List.not_mem_nil w
  cases r with
  | ok _ => exact ⟨w', hr⟩
  | error e =>
    exfalso
    have h := (Safe.ends hr safe_writeAtomic_policy fun st hst => choice_of_steps_nil hst).2
    rcases h with ⟨c, w₁, hc⟩ | h | h | h | ⟨n, hn, hk⟩
    · cases hc
    · exact h hdir
    · exact h rfl
    · simp [hstaging] at h
    · exact hfile n hn hk

/-! ## Policies of many users -/

/-- A policy with a target on for each of the users `1` to `n`. -/
def manyUsers : ℕ → AuthPolicy
  | 0 => default
  | n + 1 =>
    match (manyUsers n).setMode (.ofNat (n + 1)) .sddm .manual with
    | .ok policy => policy
    | .error _ => manyUsers n

theorem setMode_manyUsers {n : ℕ} (hn : n + 1 < 2 ^ 32) :
    (manyUsers n).setMode (.ofNat (n + 1)) .sddm .manual = .ok (manyUsers (n + 1)) := by
  have hne : UInt32.ofNat (n + 1) ≠ 0 := by
    intro h
    have := congrArg UInt32.toNat h
    rw [UInt32.toNat_ofNat_of_lt' hn] at this
    cases this
  obtain ⟨policy, h⟩ : ∃ policy, (manyUsers n).setMode (.ofNat (n + 1)) .sddm .manual =
      .ok policy := AuthPolicy.setMode_isOk hne
  simp only [manyUsers, h]

theorem obtained_manyUsers {n : ℕ} (hn : n < 2 ^ 32) : (manyUsers n).Obtained := by
  induction n with
  | zero => exact .default
  | succ n ih => exact .setMode (ih (Nat.lt_of_succ_lt hn)) (setMode_manyUsers hn)

theorem modeFor_manyUsers {n i : ℕ} (hn : n < 2 ^ 32) (h₁ : 1 ≤ i) (h₂ : i ≤ n) :
    (manyUsers n).modeFor (.ofNat i) .sddm = .manual := by
  induction n with
  | zero => omega
  | succ n ih =>
    rw [AuthPolicy.modeFor_setMode (setMode_manyUsers hn)]
    split_ifs with h
    · rfl
    · have hne : i ≠ n + 1 := fun hi => h ⟨by rw [hi], rfl⟩
      exact ih (Nat.lt_of_succ_lt hn) (by omega)

/-- Each user takes at least a byte. -/
theorem length_toJson_manyUsers {n : ℕ} (hn : n < 2 ^ 32) : n ≤ (manyUsers n).toJson.length := by
  have husers : n ≤ (manyUsers n).users.toList.length := by
    let uids := (List.range n).map fun i => UInt32.ofNat (i + 1)
    have hnodup : uids.Nodup := by
      refine List.Nodup.map_on (fun i hi j hj h => ?_) List.nodup_range
      have hi' := List.mem_range.1 hi
      have hj' := List.mem_range.1 hj
      have := congrArg UInt32.toNat h
      rw [UInt32.toNat_ofNat_of_lt' (by simp [UInt32.size]; omega),
        UInt32.toNat_ofNat_of_lt' (by simp [UInt32.size]; omega)] at this
      omega
    have hsub : uids ⊆ (manyUsers n).users.toList.map Prod.fst := by
      intro uid huid
      obtain ⟨i, hi, rfl⟩ := List.mem_map.1 huid
      have hmode := modeFor_manyUsers hn (Nat.le_add_left 1 i) (List.mem_range.1 hi)
      rw [Std.ExtTreeMap.map_fst_toList_eq_keys, Std.ExtTreeMap.mem_keys,
        ← Std.ExtTreeMap.isSome_getElem?_iff_mem]
      by_contra hnone
      rw [Option.not_isSome_iff_eq_none] at hnone
      rw [AuthPolicy.modeFor, hnone] at hmode
      cases hmode
    have := (hnodup.subperm hsub).length_le
    simpa [uids] using this
  have hlen : (manyUsers n).users.toList.length ≤
      ([44].intercalate ((manyUsers n).users.toList.map AuthPolicy.userMember)).length :=
    PolicyParser.length_le_intercalate (fun e => ⟨_, rfl⟩) _
  simp only [AuthPolicy.toJson, AuthPolicy.object, List.length_cons, List.length_append]
  omega

/-! ## What is loaded after it was written -/

/-- After a successful replacement, the policy is loaded back if and only if its
    serialization is within the limit of the loader. -/
theorem load_after_write_iff (env : Env) (euid pid nonce : ℕ) (dir : Path) (policy : AuthPolicy)
    (hp : policy.Obtained) (sys : Sys Name) (s : List Choice) (w w' : Files)
    (hrun : (writeAtomic env euid pid nonce dir policy).run.run (handler sys) s w =
      (some (.ok ()), w')) (sys' : Sys Name) :
    ((loadSnapshot dir).run.run (handler sys') [] w').1 = some (.ok policy) ↔
      policy.toJson.length ≤ maxPolicyBytes := by
  obtain ⟨hdir, hw⟩ := written_of_writeAtomic hrun
  rw [loadSnapshot_iff]
  exact installed_iff_of_written hp.wellFormed hdir hw

/-- A configuration directory without a policy. -/
def configFiles : Files where
  entries := [([.etc], ⟨.dir, 0, 0, 0o755, 1, 1, []⟩)]
  next := 2
  locks := []
  log := []

theorem configDirectory_configFiles : ConfigDirectory configFiles [.etc] :=
  ⟨⟨.dir, 0, 0, 0o755, 1, 1, []⟩, rfl, rfl, rfl, rfl, rfl, rfl⟩

/-- A policy of two users is loaded back. -/
theorem load_after_write_twoUsers : ∃ w',
    (writeAtomic ⟨plainCrypto, none⟩ 0 1 1 [.etc] (manyUsers 2)).run.run
      (handler (.byDepth 0 0 0o22)) [] configFiles = (some (.ok ()), w') ∧
    ((loadSnapshot [.etc]).run.run (handler (.byDepth 0 0 0o22)) [] w').1 =
      some (.ok (manyUsers 2)) := by
  obtain ⟨w', hrun⟩ : ∃ w', (writeAtomic ⟨plainCrypto, none⟩ 0 1 1 [.etc] (manyUsers 2)).run.run
      (handler (.byDepth 0 0 0o22)) [] configFiles = (some (.ok ()), w') :=
    writeAtomic_succeeds (manyUsers 2) configDirectory_configFiles rfl nofun
  exact ⟨w', hrun, (load_after_write_iff _ _ _ _ _ _ (obtained_manyUsers (by decide)) _ _ _ _ hrun
    _).2 (by decide)⟩

/-- A policy that was installed with success, and is refused from then on. -/
theorem load_after_write_fails : ∃ (policy : AuthPolicy) (w' : Files), policy.Obtained ∧
    (writeAtomic ⟨plainCrypto, none⟩ 0 1 1 [.etc] policy).run.run (handler (.byDepth 0 0 0o22)) []
      configFiles = (some (.ok ()), w') ∧
    ∀ policy', ((loadSnapshot [.etc]).run.run (handler (.byDepth 0 0 0o22)) [] w').1 ≠
      some (.ok policy') := by
  have hn : maxPolicyBytes + 1 < 2 ^ 32 := by decide
  obtain ⟨w', hrun⟩ : ∃ w', (writeAtomic ⟨plainCrypto, none⟩ 0 1 1 [.etc]
      (manyUsers (maxPolicyBytes + 1))).run.run (handler (.byDepth 0 0 0o22)) [] configFiles =
      (some (.ok ()), w') :=
    writeAtomic_succeeds _ configDirectory_configFiles rfl nofun
  refine ⟨_, w', obtained_manyUsers hn, hrun, fun policy' h => ?_⟩
  obtain ⟨-, n, hget, -, -, -, -, -, hdata⟩ := written_of_writeAtomic hrun
  obtain ⟨-, m, hm, hf, -⟩ := loadSnapshot_iff.1 h
  rw [hget] at hm
  cases hm
  have hsize := hf.size
  rw [hdata] at hsize
  exact absurd (length_toJson_manyUsers hn) (by omega)

end KFaceAuth
