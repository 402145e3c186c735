import KFaceAuth.System.Footprint

/-!
# Operations and other users

An operation of `kfaceauth-sync-vault` for one user changes nothing of another
user: not the files, which are told apart by name, and not the policy, although
it is replaced as a whole up to four times, with other contents in between.

The policy of every user is lost, however, while the policy file is too large to
be loaded: the size is not checked when it is written.

* `perform_keeps_others`: at whatever point a run ends, the files of another
  user and the modes of the targets of that user are as before, if the policies
  that the operation may write are within the size limit;
* `perform_loses_others`: turning off a target that is off can lose the modes of
  every other user, as the policy is written with one byte more than it had.
-/

namespace KFaceAuth

open Prog Fs

/-! ## The policy on disk -/

section

variable {sys : Sys Name} {w w' : Files} {dir : Path} {p q : AuthPolicy}

theorem onDisk_congr (hd : w'.get dir = w.get dir)
    (hp : w'.get (policyPath dir) = w.get (policyPath dir)) : OnDisk w' dir p ↔ OnDisk w dir p := by
  simp only [OnDisk, Installed, configDirectory_congr hd, hp]

theorem OnDisk.configDirectory (h : OnDisk w dir p) : ConfigDirectory w dir :=
  h.elim (fun h => h.1) fun h => h.1

theorem OnDisk.unique (hp : OnDisk w dir p) (hq : OnDisk w dir q) : p = q := by
  rcases hp with hp | ⟨-, hp, rfl⟩
  · rcases hq with hq | ⟨-, hq, -⟩
    · exact hp.unique hq
    · obtain ⟨-, n, hn, -⟩ := hp
      rw [hn] at hq
      cases hq
  · rcases hq with ⟨-, n, hn, -⟩ | ⟨-, -, rfl⟩
    · rw [hn] at hp
      cases hp
    · rfl

theorem OnDisk.wellFormed (h : OnDisk w dir p) : p.WellFormed := by
  rcases h with ⟨-, n, -, -, hp⟩ | ⟨-, -, rfl⟩
  · exact AuthPolicy.wellFormed_of_parseJson hp
  · exact AuthPolicy.wellFormed_default

/-- Without faults, the policy that is loaded is the one on disk. -/
theorem loadFromDirectory_iff :
    ((loadFromDirectory dir).run.run (handler sys) [] w).1 = some (.ok p) ↔ OnDisk w dir p := by
  obtain ⟨r, w₁, hr⟩ := run_ends (H := handler sys) (loadFromDirectory dir).run (s := [])
    List.not_mem_nil w
  have h := Safe.ends hr (safe_loadFromDirectory (I := fun _ => True) trivial)
    fun st hst => choice_of_steps_nil hst
  rw [hr]
  cases r with
  | ok policy =>
    constructor
    · rintro ⟨⟩
      exact h.2
    · intro hp
      rw [OnDisk.unique h.2 hp]
  | error e =>
    constructor
    · rintro ⟨⟩
    · exact fun hp => absurd hp ((h.2.resolve_left not_mayFail_ok) p)

end

namespace SyncVault

variable {sys : Sys Name} {env : Env} {a : Answers} {uid v : UInt32}
  {G : Step FileCall Files → Prop} {w₀ w w' : Files} {policy previous : AuthPolicy} {ε α : Type}

/-- The policy that is loaded, if no call fails. -/
def Loaded (sys : Sys Name) (policy : AuthPolicy) (w : Files) : Prop :=
  ((loadFromDirectory configDir).run.run (handler sys) [] w).1 = some (.ok policy)

/-- The mode of a target of a user, as it is loaded. -/
def ModeLoaded (sys : Sys Name) (v : UInt32) (target : AuthTarget) (mode : AuthPolicyMode)
    (w : Files) : Prop :=
  ∃ policy, Loaded sys policy w ∧ policy.modeFor v target = mode

theorem loaded_iff : Loaded sys policy w ↔ OnDisk w configDir policy := loadFromDirectory_iff

/-! ## Invariants -/

/-- The files of a user are the same, and the configuration directory. -/
structure SameFiles (v : UInt32) (w w' : Files) : Prop where
  files : ∀ q, Belongs v q → w'.get q = w.get q
  directory : w'.get configDir = w.get configDir

/-- Nothing of a user has changed, and not the policy. -/
def Untouched (v : UInt32) (w w' : Files) : Prop :=
  SameFiles v w w' ∧ w'.get (policyPath configDir) = w.get (policyPath configDir)

/-- Two policies with the same modes for a user. -/
def SameModes (v : UInt32) (p q : AuthPolicy) : Prop :=
  ∀ target, q.modeFor v target = p.modeFor v target

/-- Nothing of a user has changed, and the policy on disk is as `previous` for that user. -/
def Kept (v : UInt32) (previous : AuthPolicy) (w w' : Files) : Prop :=
  SameFiles v w w' ∧ ∃ policy, OnDisk w' configDir policy ∧ SameModes v previous policy

/-- Nothing of a user has changed, but for the policies of others. -/
def Same (v : UInt32) (w w' : Files) : Prop :=
  SameFiles v w w' ∧ ∀ (sys : Sys Name) (target : AuthTarget) (mode : AuthPolicyMode),
    ModeLoaded sys v target mode w' ↔ ModeLoaded sys v target mode w

theorem SameFiles.trans {w₁ w₂ w₃ : Files} (h₁ : SameFiles v w₁ w₂) (h₂ : SameFiles v w₂ w₃) :
    SameFiles v w₁ w₃ :=
  ⟨fun q hq => (h₂.files q hq).trans (h₁.files q hq), h₂.directory.trans h₁.directory⟩

theorem sameFiles_of_within (hv : v ≠ uid) (h : Within (Aside uid) w w') : SameFiles v w w' :=
  ⟨fun q hq => h.get q fun ha => hv (ha.owner v hq), h.get _ fun ha => ha.directory rfl⟩

theorem Untouched.within (hv : v ≠ uid) (w w' : Files) (h : Within (Aside uid) w w')
    (hw : Untouched v w₀ w) : Untouched v w₀ w' :=
  ⟨hw.1.trans (sameFiles_of_within hv h), (h.get _ fun ha => ha.policy rfl).trans hw.2⟩

theorem Kept.within (hv : v ≠ uid) (w w' : Files) (h : Within (Aside uid) w w')
    (hw : Kept v previous w₀ w) : Kept v previous w₀ w' := by
  obtain ⟨hf, policy, hp, hm⟩ := hw
  have hsame := sameFiles_of_within hv h
  refine ⟨hf.trans hsame, policy, ?_, hm⟩
  exact (onDisk_congr hsame.directory (h.get _ fun ha => ha.policy rfl)).2 hp

theorem modeLoaded_congr (hd : w'.get configDir = w.get configDir)
    (hp : w'.get (policyPath configDir) = w.get (policyPath configDir)) {target : AuthTarget}
    {mode : AuthPolicyMode} :
    ModeLoaded sys v target mode w' ↔ ModeLoaded sys v target mode w := by
  simp only [ModeLoaded, loaded_iff, onDisk_congr hd hp]

theorem Untouched.same (h : Untouched v w w') : Same v w w' :=
  ⟨h.1, fun _ _ _ => modeLoaded_congr h.1.directory h.2⟩

theorem Kept.same (hw : OnDisk w configDir previous) (h : Kept v previous w w') : Same v w w' := by
  obtain ⟨hf, policy, hp, hm⟩ := h
  refine ⟨hf, fun sys target mode => ?_⟩
  simp only [ModeLoaded, loaded_iff]
  constructor
  · rintro ⟨p, hp', rfl⟩
    obtain rfl := hp.unique hp'
    exact ⟨previous, hw, (hm target).symm⟩
  · rintro ⟨p, hp', rfl⟩
    obtain rfl := hw.unique hp'
    exact ⟨policy, hp, hm target⟩

theorem Same.within (hv : v ≠ uid) (w w' : Files) (h : Within (Aside uid) w w')
    (hw : Same v w₀ w) : Same v w₀ w' := by
  have hsame := sameFiles_of_within hv h
  refine ⟨hw.1.trans hsame, fun sys target mode => ?_⟩
  rw [← hw.2 sys target mode]
  exact modeLoaded_congr hsame.directory (h.get _ fun ha => ha.policy rfl)

/-! ## Replacing the policy -/

/-- A policy that may be written: it can be loaded back, and is as `previous` for the user. -/
structure Loadable (v : UInt32) (previous policy : AuthPolicy) : Prop where
  wellFormed : policy.WellFormed
  size : policy.toJson.length ≤ maxPolicyBytes
  modes : SameModes v previous policy

/-- Nothing of a user is in the scope of a replacement of the policy. -/
theorem sameFiles_of_policyScope {pid nonce : ℕ}
    (h : Within (PolicyScope configDir pid nonce) w w') : SameFiles v w w' := by
  constructor
  · intro q hq
    refine h.get q fun hs => ?_
    have habove : ∃ n, n ≠ .keys ∧ configDir ++ [n] <+: q := by
      rcases hs with h | h
      · exact ⟨.policyTmp pid nonce, by simp, h⟩
      · exact ⟨.policyJson, by simp, h⟩
    obtain ⟨n, hn, x, rfl⟩ := habove
    rcases hq with ⟨m, ⟨y, hy⟩, -⟩ | ⟨m, ⟨y, hy⟩, -⟩
    · simp [systemRoot, configDir] at hy
    · simp [keysDir, configDir, hn.symm] at hy
  · exact h.get _ fun hs => hs.elim (child_not_above _ _) (child_not_above _ _)

theorem keeps_writeAtomic {euid pid nonce : ℕ} (hp : Loadable v previous policy) :
    Keeps (handler sys) G (Kept v previous w₀)
      (writeAtomic env euid pid nonce configDir policy).run := by
  rintro w ⟨hf, current, hcurrent, hm⟩
  have hkept : ∀ w', (w'.get (policyPath configDir) = w.get (policyPath configDir) ∨
      Written w' configDir policy) → Within (PolicyScope configDir pid nonce) w w' →
      Kept v previous w₀ w' := by
    intro w' hpol hin
    have hsame : SameFiles v w w' := sameFiles_of_policyScope hin
    refine ⟨hf.trans hsame, ?_⟩
    rcases hpol with hpol | hpol
    · exact ⟨current, (onDisk_congr hsame.directory hpol).2 hcurrent, hm⟩
    · have hdir : ConfigDirectory w' configDir :=
        (configDirectory_congr hsame.directory).2 hcurrent.configDirectory
      exact ⟨policy, .inl ((installed_iff_of_written hp.wellFormed hdir hpol).2 hp.size), hp.modes⟩
  exact (safe_writeAtomic_policy.and (safe_within calls_writeAtomic)).mono
    (fun w' h => hkept w' h.1 h.2) fun r w' h => hkept w' h.1.1 h.2

theorem keeps_writePolicy {i : ℕ} (hv : v ≠ uid) (hp : Loadable v previous policy) :
    Keeps (handler sys) G (Kept v previous w₀) (writePolicy env a i policy).run := by
  refine Keeps.bindE (keeps_orFail (keeps_writeAtomic hp)) fun _ => ?_
  refine Keeps.bindE (stays_loadPolicy.keeps (Kept.within hv)) fun read => ?_
  exact .ite (keeps_pure _) (keeps_pure _)

/-! ## With the lock of the policy -/

theorem safe_loadPolicy {I : Files → Prop} (hI : I w) :
    loadPolicy.run.Safe (handler sys) G I (fun r w' => w' = w ∧
      match r with
      | .ok policy => OnDisk w configDir policy
      | .error _ => MayFail G ∨ ∀ policy, ¬ OnDisk w configDir policy) w := by
  refine Safe.bind (safe_loadFromDirectory hI) fun r w' h => ?_
  cases r with
  | ok policy => exact h
  | error e => exact h

/-- The policies that an operation may write, from the one it finds. -/
def Operation.Writes (uid : UInt32) (previous : AuthPolicy) : Operation → AuthPolicy → Prop
  | .enable target mode, policy => previous.revokeUserTargets uid = .ok policy ∨
      previous.setMode uid target mode = .ok policy ∨ policy = previous
  | .disable target, policy => previous.setMode uid target .off = .ok policy
  | .deleteProfile, policy | .resyncProfile, policy =>
    previous.revokeUserTargets uid = .ok policy ∨ policy = previous

theorem sameModes_setMode {target : AuthTarget} {mode : AuthPolicyMode} (hv : v ≠ uid)
    (h : previous.setMode uid target mode = .ok policy) : SameModes v previous policy := by
  intro t
  rw [AuthPolicy.modeFor_setMode h, if_neg fun hc => hv hc.1]

theorem sameModes_revoke (hv : v ≠ uid) (h : previous.revokeUserTargets uid = .ok policy) :
    SameModes v previous policy := by
  intro t
  rw [AuthPolicy.modeFor_revokeUserTargets h, if_neg hv]

/-- What an operation writes for one user is loaded for another as before. -/
theorem loadable_of_writes {op : Operation} (hv : v ≠ uid) (hp : previous.WellFormed)
    (h : op.Writes uid previous policy) (hsize : policy.toJson.length ≤ maxPolicyBytes) :
    Loadable v previous policy := by
  have hrevoke : previous.revokeUserTargets uid = .ok policy → Loadable v previous policy :=
    fun h => ⟨hp.revokeUserTargets h, hsize, sameModes_revoke hv h⟩
  have hset : ∀ {target mode}, previous.setMode uid target mode = .ok policy →
      Loadable v previous policy :=
    fun h => ⟨hp.setMode h, hsize, sameModes_setMode hv h⟩
  have hself : policy = previous → Loadable v previous policy := by
    rintro rfl
    exact ⟨hp, hsize, fun _ => rfl⟩
  cases op with
  | enable target mode => exact h.elim hrevoke fun h => h.elim hset hself
  | disable target => exact hset h
  | deleteProfile => exact h.elim hrevoke hself
  | resyncProfile => exact h.elim hrevoke hself

/-- The requested operation of `sync_profile`. -/
def syncOperation : Option TargetChange → Operation
  | some (target, mode) => .enable target mode
  | none => .resyncProfile

/-- Every policy the operation may write can be loaded back. -/
def Fits (uid : UInt32) (op : Operation) (w : Files) : Prop :=
  ∀ previous policy, OnDisk w configDir previous → op.Writes uid previous policy →
    policy.toJson.length ≤ maxPolicyBytes

theorem keeps_replaceProfile {J : Files → Prop} {change : Option TargetChange} {key : MasterKey}
    (h : KeptBy sys G env a uid J ((syncOperation change).Writes uid previous)) :
    Keeps (handler sys) G J (replaceFrom env a uid change key previous).run := by
  cases change with
  | none =>
    refine keeps_replaceFrom h (.inr rfl) (fun _ hr => .inl hr) fun q hq => ?_
    cases hq
    exact .inr rfl
  | some change =>
    exact keeps_replaceFrom h (.inr (.inr rfl)) (fun _ hr => .inl hr) fun _ hq => .inr (.inl hq)

/-! ## Whole operations -/

/-- `I` is kept until the policy is loaded, and `K` to the end. -/
structure CarriedBy (sys : Sys Name) (G : Step FileCall Files → Prop) (env : Env) (a : Answers)
    (uid : UInt32) (op : Operation) (I K : Files → Prop) : Prop where
  before : ∀ w w', Within (Aside uid) w w' → I w → I w'
  after : ∀ w w', Within (Aside uid) w w' → K w → K w'
  imp : ∀ w, I w → K w
  loaded : ∀ previous w, I w → OnDisk w configDir previous →
    ∃ J, J w ∧ (∀ w, J w → K w) ∧ KeptBy sys G env a uid J (op.Writes uid previous)

section Carried

variable {I K : Files → Prop} {op : Operation} {change : Option TargetChange}

/-- Before the policy is loaded, a program that stays aside. -/
theorem CarriedBy.safe_aside (h : CarriedBy sys G env a uid op I K) {x : ExceptT Unit FileProg ε}
    {f : ε → ExceptT Unit FileProg α} (hx : Stays sys G (Aside uid) x.run) (hw : I w)
    (hf : ∀ a w, I w → (f a).run.Safe (handler sys) G K (fun _ => K) w) :
    (x >>= f).run.Safe (handler sys) G K (fun _ => K) w := by
  refine Safe.bindE (Q := fun _ => I) ?_ hf fun _ _ h' => h.imp _ h'
  exact (hx.keeps h.before w hw).mono h.imp fun _ _ h => h

/-- A program that begins by loading the policy. -/
theorem CarriedBy.safe_withPolicy (h : CarriedBy sys G env a uid op I K)
    {f : AuthPolicy → ExceptT Unit FileProg α} (hw : I w)
    (hf : ∀ previous J, KeptBy sys G env a uid J (op.Writes uid previous) →
      Keeps (handler sys) G J (f previous).run) :
    (loadPolicy >>= f).run.Safe (handler sys) G K (fun _ => K) w := by
  refine Safe.bindE (safe_loadPolicy (h.imp _ hw)) ?_ ?_
  · rintro previous w₁ ⟨rfl, hp⟩
    obtain ⟨J, hJ, hK, hkept⟩ := h.loaded previous w₁ hw hp
    exact (hf previous J hkept w₁ hJ).mono hK fun _ => hK
  · rintro e w₁ ⟨rfl, -⟩
    exact h.imp _ hw

theorem CarriedBy.safe_withPolicyLock (h : CarriedBy sys G env a uid op I K)
    {body : ExceptT Unit FileProg α} (hw : I w)
    (hbody : ∀ w, I w → body.run.Safe (handler sys) G K (fun _ => K) w) :
    (withFileLock policyLock body).run.Safe (handler sys) G K (fun _ => K) w := by
  have hlock : Aside uid policyLock := .config (by simp) List.prefix_rfl
  refine h.safe_aside (stays_lockChildFileNonblocking hlock) hw fun _ w₁ h₁ => ?_
  refine Safe.inScope (hbody w₁ h₁) fun r w₂ h₂ => ?_
  have hunlock : Stays sys G (Aside uid) (ignore (.unlock policyLock) : FileProg Unit) :=
    stays_ignore fun _ hq => hq.elim
  exact hunlock.keeps h.after w₂ h₂

theorem CarriedBy.safe_commitVerifiedProfile {key : MasterKey}
    (h : CarriedBy sys G env a uid (syncOperation change) I K) (hw : I w) :
    (commitVerifiedProfile env a uid change key).run.Safe (handler sys) G K (fun _ => K) w := by
  have hprepared : Stays sys G (Aside uid) (commitVerifiedProfile.prepared a change) := by
    unfold commitVerifiedProfile.prepared
    split_ifs
    · exact stays_runSetup
    · exact stays_pure _
  refine h.safe_aside hprepared.lift hw fun b w₂ h₂ => ?_
  split_ifs
  · refine h.safe_withPolicyLock h₂ fun w₃ h₃ => ?_
    exact h.safe_withPolicy h₃ fun previous J hkept => keeps_replaceProfile hkept
  · exact h.imp _ h₂

theorem CarriedBy.safe_stageProfile {input : UserInput} {key : MasterKey}
    (h : CarriedBy sys G env a uid (syncOperation change) I K) (hw : I w) :
    (stageProfile env a uid change input key).run.Safe (handler sys) G K (fun _ => K) w := by
  have hstaging : ∀ q, stagingPath a <+: q → Aside uid q := fun _ hq => aside_staging hq
  have hdir : Aside uid (stagingPath a ++ [Name.uid uid]) := hstaging _ (List.prefix_append _ _)
  refine h.safe_aside (stays_demand fun q hq => hq ▸ hdir) hw fun _ w₂ h₂ => ?_
  refine h.safe_aside (stays_look trivial) h₂ fun _ w₃ h₃ => ?_
  refine h.safe_aside (stays_setFdPermissions hdir) h₃ fun _ w₄ h₄ => ?_
  refine h.safe_aside (stays_look trivial) h₄ fun _ w₅ h₅ => ?_
  refine h.safe_aside (stays_orFail stays_openAnchoredProfileSnapshot) h₅ fun r w₆ h₆ => ?_
  refine h.safe_aside
    (stays_orFail (stays_commitStaged hstaging fun _ hq => .root hq)) h₆
    fun _ w₇ h₇ => ?_
  refine h.safe_aside (stays_applySystemProfilePermissions hstaging) h₇ fun _ w₈ h₈ => ?_
  refine h.safe_aside (stays_orFail stays_validateIntegrity) h₈ fun _ w₉ h₉ => ?_
  exact h.safe_aside (stays_writeStagedMetadata (hstaging _ (staging_above _))) h₉ fun _ w₁₀ h₁₀ =>
    h.safe_commitVerifiedProfile h₁₀

theorem CarriedBy.safe_syncProfile {input : Option UserInput}
    (h : CarriedBy sys G env a uid (syncOperation change) I K) (hw : I w) :
    (syncProfile env a uid change input).run.Safe (handler sys) G K (fun _ => K) w := by
  have hremove : Stays sys G (Aside uid) (removeQuietly (stagingPath a)) :=
    stays_removeQuietly fun q hq => aside_staging hq
  refine h.safe_aside stays_readUserSessionInput hw fun input w₁ h₁ => ?_
  refine h.safe_aside stays_loadOrGenerateSystemKey h₁ fun r w₂ h₂ => ?_
  obtain ⟨key, isNew⟩ := r
  refine Safe.onError (Q := fun _ => K) ?_ (fun _ _ h => h) fun e w₃ h₃ =>
    (stays_dropNewKey isNew).keeps h.after w₃ h₃
  refine h.safe_aside (stays_storeNewKey (.keys rfl)
    (fun _ hq => .key (.inr (.inl ⟨_, rfl⟩)) hq) (fun _ hq => .key (.inl rfl) hq) isNew) h₂
    fun _ w₃ h₃ => ?_
  refine h.safe_aside (stays_createStagingDirectory fun _ hq => aside_staging hq) h₃
    fun _ w₄ h₄ => ?_
  exact Safe.inScope (h.safe_stageProfile h₄) fun r w₅ h₅ => hremove.keeps h.after w₅ h₅

theorem CarriedBy.safe_disableTarget {target : AuthTarget}
    (h : CarriedBy sys G env a uid (.disable target) I K) (hw : I w) :
    (disableTarget env a uid target).run.Safe (handler sys) G K (fun _ => K) w := by
  refine h.safe_withPolicyLock hw fun w₁ h₁ => ?_
  refine h.safe_withPolicy h₁ fun previous J hkept => ?_
  cases hs : previous.setMode uid target .off with
  | error e => exact keeps_pure _
  | ok disabled => exact hkept.write 0 disabled hs

theorem CarriedBy.safe_deleteSystemProfile (h : CarriedBy sys G env a uid .deleteProfile I K)
    (hw : I w) : (deleteSystemProfile env a uid).run.Safe (handler sys) G K (fun _ => K) w := by
  refine h.safe_aside stays_validateAndHardenExistingProfile hw fun _ w₁ h₁ => ?_
  refine h.safe_aside stays_validateSystemKeyForDeletion h₁ fun _ w₂ h₂ => ?_
  refine h.safe_withPolicyLock h₂ fun w₃ h₃ => ?_
  exact h.safe_withPolicy h₃ fun previous J hkept =>
    keeps_revokeFrom hkept (.inr rfl) fun _ hr => .inl hr

end Carried

/-- Another user is carried by an operation whose policies are within the size limit. -/
theorem carriedBy_same {op : Operation} (hv : v ≠ uid) (hfits : Fits uid op w₀) :
    CarriedBy sys G env a uid op (Untouched v w₀) (Same v w₀) := by
  refine ⟨Untouched.within hv, Same.within hv, fun _ h => h.same, fun previous w hw hp => ?_⟩
  have honDisk : OnDisk w₀ configDir previous := (onDisk_congr hw.1.directory hw.2).1 hp
  refine ⟨Kept v previous w₀, ⟨hw.1, previous, hp, fun _ => rfl⟩, fun _ h => h.same honDisk,
    Kept.within hv, fun i policy h => keeps_writePolicy hv ?_⟩
  exact loadable_of_writes hv honDisk.wellFormed h (hfits previous policy honDisk h)

theorem Untouched.refl : Untouched v w w := ⟨⟨fun _ _ => rfl, rfl⟩, rfl⟩

theorem safe_syncProfile {change : Option TargetChange} {input : Option UserInput} (hv : v ≠ uid)
    (hfits : Fits uid (syncOperation change) w) :
    (syncProfile env a uid change input).run.Safe (handler sys) G (Same v w) (fun _ => Same v w)
      w :=
  (carriedBy_same hv hfits).safe_syncProfile .refl

theorem safe_disableTarget {target : AuthTarget} (hv : v ≠ uid)
    (hfits : Fits uid (.disable target) w) :
    (disableTarget env a uid target).run.Safe (handler sys) G (Same v w) (fun _ => Same v w) w :=
  (carriedBy_same hv hfits).safe_disableTarget .refl

theorem safe_deleteSystemProfile (hv : v ≠ uid) (hfits : Fits uid .deleteProfile w) :
    (deleteSystemProfile env a uid).run.Safe (handler sys) G (Same v w) (fun _ => Same v w) w :=
  (carriedBy_same hv hfits).safe_deleteSystemProfile .refl

/-- At whatever point a run of an operation ends, the profile, the key and the
    revoked copies of another user are as before, and so are the modes that are
    loaded for that user, if the policies it may write are within the size limit. -/
theorem perform_keeps_others (env : Env) (a : Answers) (sys : Sys Name) {uid v : UInt32}
    (hv : v ≠ uid) (input : Option UserInput) (op : Operation) (s : List Choice) (w : Files)
    (hfits : ∀ previous policy, Loaded sys previous w → op.Writes uid previous policy →
      policy.toJson.length ≤ maxPolicyBytes) :
    let w' := ((perform env a uid input op).run.run (handler sys) s w).2
    (∀ target mode, ModeLoaded sys v target mode w' ↔ ModeLoaded sys v target mode w) ∧
      (∀ q, Belongs v q → w'.get q = w.get q) ∧
      ∀ text, ¬ (revokedPrefix uid <+: text ∧ revokedPrefix v <+: text) := by
  have hfits' : Fits uid op w := fun previous policy hp => hfits previous policy (loaded_iff.2 hp)
  have hsafe : (perform env a uid input op).run.Safe (handler sys) (fun _ => True) (Same v w)
      (fun _ => Same v w) w := by
    cases op with
    | enable target mode => exact safe_syncProfile hv hfits'
    | disable target => exact safe_disableTarget hv hfits'
    | deleteProfile => exact safe_deleteSystemProfile hv hfits'
    | resyncProfile => exact safe_syncProfile hv hfits'
  have hsame : Same v w ((perform env a uid input op).run.run (handler sys) s w).2 := by
    have hrun := hsafe.run s fun _ _ => trivial
    rcases hr : (perform env a uid input op).run.run (handler sys) s w with ⟨_ | r, w'⟩
    · rw [hr] at hrun
      exact hrun
    · rw [hr] at hrun
      exact hrun
  exact ⟨hsame.2 sys, hsame.1.files, fun text h => hv (revokedPrefix_unique h.2 h.1)⟩

/-- A configuration directory with a policy file of the given bytes. -/
def policyFiles (bytes : List UInt8) : Files where
  entries := [([.etc], ⟨.dir, 0, 0, 0o755, 1, 1, []⟩), (configDir, ⟨.dir, 0, 0, 0o755, 1, 2, []⟩),
    (policyPath configDir, ⟨.file, 0, 0, 0o644, 1, 3, bytes⟩)]
  next := 4
  locks := []
  log := []

theorem onDisk_policyFiles {bytes : List UInt8} (h : AuthPolicy.parseJson bytes = .ok policy)
    (hlen : bytes.length ≤ maxPolicyBytes) : OnDisk (policyFiles bytes) configDir policy := by
  have hmode : 0o644 &&& 0o7777 = 0o644 := by decide
  exact .inl ⟨⟨_, rfl, rfl, rfl, rfl, rfl, rfl⟩, _, rfl, ⟨rfl, rfl, rfl, hmode, rfl, hlen⟩, h⟩

theorem length_zeroBytes : (List.replicate keyBytes (0 : UInt8)).length = keyBytes :=
  List.length_replicate

def exampleAnswers : Answers where
  pid := 1
  policyNonce := id
  stagingNonce := 0
  previousNonce := 0
  revokedNonce := 0
  keySuffix := []
  generated := ⟨List.replicate keyBytes 0, length_zeroBytes⟩
  draws := ⟨[], []⟩
  retries := 0
  setupSucceeds := false

/-- A policy that turns the login screen of users 1000 and 1001 on. -/
def twoUsers : AuthPolicy :=
  ⟨(∅ : Std.ExtTreeMap UInt32 Targets).insert 1000 ((∅ : Targets).insert .sddm .manual)
    |>.insert 1001 ((∅ : Targets).insert .sddm .onActivity)⟩

/-- Turning the login screen of user 1000 off leaves it on for user 1001. -/
theorem perform_keeps_others_twoUsers :
    ModeLoaded (.byDepth 0 0 0o22) 1001 .sddm .onActivity
      ((perform ⟨plainCrypto, none⟩ exampleAnswers 1000 none (.disable .sddm)).run.run
        (handler (.byDepth 0 0 0o22)) [] (policyFiles twoUsers.toJson)).2 := by
  have hloaded : Loaded (.byDepth 0 0 0o22) twoUsers (policyFiles twoUsers.toJson) :=
    loaded_iff.2 (onDisk_policyFiles (by decide) (by decide))
  refine ((perform_keeps_others _ _ _ (by decide) _ _ _ _ ?_).1 _ _).2
    ⟨twoUsers, hloaded, by decide⟩
  intro previous policy hp hs
  obtain rfl := (loaded_iff.1 hp).unique (loaded_iff.1 hloaded)
  have hset : twoUsers.setMode 1000 .sddm .off = .ok ⟨(∅ : Std.ExtTreeMap UInt32 Targets).insert
      1001 ((∅ : Targets).insert .sddm .onActivity)⟩ := by decide
  cases hset.symm.trans hs
  decide

/-! ## A policy that is too large -/

/-- Without faults, root gets a lock whose file is not there yet. -/
theorem safe_lockChildFileNonblocking {p : Path} (hdir : w.IsDir p.dropLast)
    (hp : w.get p = none) (hroot : sys.uid = 0) (hfree : p ∉ w.locks) :
    (lockChildFileNonblocking p).run.Safe (handler sys) (fun st => st.choice = .ok)
      (fun _ => True) (fun r w' => r = .ok () ∧ ∀ q, q ≠ p → w'.get q = w.get q) w := by
  refine Safe.act trivial trivial (fun _ w₁ h₁ => ?_) fun e he => ?_
  swap
  · rcases he.openCreate.resolve_left not_mayFail_ok with h | ⟨n, hn, -⟩
    · exact absurd hdir h
    · rw [hp] at hn
      cases hn
  obtain ⟨-, n, hn, -⟩ | ⟨-, hs₁, -⟩ := exec_openCreate h₁
  · rw [hp] at hn
    cases hn
  have hthere : w₁.get p ≠ none := by
    rw [hs₁.self]
    simp
  refine Safe.look trivial trivial (fun m hm => ?_) fun e he =>
    absurd (he.fstat.resolve_left not_mayFail_ok) hthere
  obtain ⟨n, hn, rfl⟩ := hm.fstat
  rw [hs₁.self] at hn
  cases hn
  rw [if_neg (by simp [Fs.newNode, Node.stat, hroot])]
  refine Safe.act trivial trivial (fun _ w₂ h₂ => ?_) fun e he =>
    absurd (he.chmod.resolve_left not_mayFail_ok) hthere
  obtain ⟨n, -, hs₂, -⟩ := exec_chmod h₂
  refine Safe.last (c := .lock p) trivial trivial (fun _ w₃ h₃ => ?_) fun e he => ?_
  · obtain ⟨-, rfl⟩ := exec_lock h₃
    exact ⟨rfl, fun q hq => (hs₂.of_ne hq).trans (hs₁.of_ne hq)⟩
  · have hlocked := he.lock.resolve_left not_mayFail_ok
    rw [hs₂.locks, hs₁.locks] at hlocked
    exact absurd hlocked hfree

/-- Without faults, the policy that turns a target off replaces the one on disk,
    of whatever size it is. -/
theorem written_of_disableTarget (env : Env) (a : Answers) (sys : Sys Name) {target : AuthTarget}
    (hp : OnDisk w configDir previous)
    (hs : previous.setMode uid target .off = .ok policy) (hroot : sys.uid = 0)
    (hlock : w.get policyLock = none) (hfree : policyLock ∉ w.locks)
    (hstaging : w.get (policyStaging configDir a.pid (a.policyNonce 0)) = none) :
    Written ((disableTarget env a uid target).run.run (handler sys) [] w).2 configDir policy := by
  have hwritten : ∀ w₁ w₂ : Files, Within (fun _ => False) w₁ w₂ → Written w₁ configDir policy →
      Written w₂ configDir policy := fun w₁ w₂ h hw => (written_congr (h.get _ id)).2 hw
  have hwrite : ∀ w₁ : Files, (∀ q, q ≠ policyLock → w₁.get q = w.get q) →
      (writePolicy env a 0 policy).run.Safe (handler sys) (fun st => st.choice = .ok)
        (fun _ => True) (fun _ w' => Written w' configDir policy) w₁ := by
    intro w₁ h₁
    have hpolicy : w₁.get (policyPath configDir) = w.get (policyPath configDir) := h₁ _ (by decide)
    refine Safe.bindE (Q := fun _ w' => Written w' configDir policy) ?_ (fun _ w₂ h₂ => ?_)
      fun _ _ h => h
    · refine Safe.bind (safe_writeAtomic_policy.mono (fun _ _ => trivial) fun _ _ h => h)
        fun r w₂ h₂ => ?_
      cases r with
      | ok _ => exact h₂.2.2
      | error e =>
        rcases h₂.2 with h | h | h | h | ⟨n, hn, hk⟩
        · exact absurd h not_mayFail_ok
        · exact absurd ((configDirectory_congr (h₁ _ (by decide))).2 hp.configDirectory) h
        · exact absurd rfl h
        · rw [h₁ _ (by simp [policyStaging, policyLock]), hstaging] at h
          cases h
        · rw [hpolicy] at hn
          rcases hp with ⟨-, m, hm, hf, -⟩ | ⟨-, hnone, -⟩
          · rw [hn] at hm
            cases hm
            rw [hf.kind] at hk
            cases hk
          · rw [hn] at hnone
            cases hnone
    · have hload : Stays sys (fun st => st.choice = .ok) (fun _ => False) loadPolicy.run :=
        stays_loadPolicy
      refine Safe.bindE ((hload.keeps hwritten w₂ h₂).mono (fun _ _ => trivial) fun _ _ h => h)
        (fun read w₃ h₃ => ?_) fun _ _ h => h
      split_ifs <;> exact h₃
  have hsafe : (disableTarget env a uid target).run.Safe (handler sys) (fun st => st.choice = .ok)
      (fun _ => True) (fun _ w' => Written w' configDir policy) w := by
    refine Safe.bindE (safe_lockChildFileNonblocking hp.configDirectory.isDir hlock hroot hfree)
      (fun _ w₁ h₁ => ?_) fun e w₁ h₁ => ?_
    swap
    · cases h₁.1
    have hunlock : Stays sys (fun st => st.choice = .ok) (fun _ => False)
        (ignore (.unlock policyLock) : FileProg Unit) := stays_ignore fun _ hq => hq.elim
    refine Safe.inScope (Q := fun _ w' => Written w' configDir policy) ?_ fun r w₂ h₂ =>
      (hunlock.keeps hwritten w₂ h₂).mono (fun _ _ => trivial) fun _ _ h => h
    have hsame : ∀ policy, OnDisk w₁ configDir policy ↔ OnDisk w configDir policy :=
      fun policy => onDisk_congr (h₁.2 _ (by decide)) (h₁.2 _ (by decide))
    refine Safe.bindE (safe_loadPolicy trivial) ?_ ?_
    · rintro found w₂ ⟨rfl, hfound⟩
      obtain rfl := hp.unique ((hsame found).1 hfound)
      rw [hs]
      exact hwrite w₂ h₁.2
    · rintro e w₂ ⟨rfl, h⟩
      exact absurd ((hsame previous).2 hp) (h.resolve_left not_mayFail_ok previous)
  obtain ⟨r, w', hr⟩ := run_ends (H := handler sys) (disableTarget env a uid target).run (s := [])
    List.not_mem_nil w
  have := hsafe.ends hr fun st hst => choice_of_steps_nil hst
  rw [hr]
  exact this

section

open AuthPolicy

/-- A policy with `n` users, some of whose modes have longer names. -/
def crowd : ℕ → AuthPolicy
  | 0 => default
  | n + 1 => ⟨(crowd n).users.insert (.ofNat (10000 + n))
      ((∅ : Targets).insert .sddm (if n < 9 then .onActivity else .manual))⟩

theorem toNat_crowd {n : ℕ} (hn : n ≤ 2518) : (UInt32.ofNat (10000 + n)).toNat = 10000 + n :=
  UInt32.toNat_ofNat_of_lt' (by simp only [UInt32.size]; omega)

/-- The users of the crowd. -/
theorem crowd_users {n : ℕ} (hn : n ≤ 2518) {uid : UInt32} {targets : Targets}
    (h : (crowd n).users[uid]? = some targets) : 10000 ≤ uid.toNat ∧ uid.toNat < 10000 + n := by
  induction n with
  | zero => simp [crowd, default] at h
  | succ n ih =>
    rw [crowd, Std.ExtTreeMap.getElem?_insert] at h
    by_cases he : compare (UInt32.ofNat (10000 + n)) uid = .eq
    · rw [← Std.LawfulEqOrd.eq_of_compare he, toNat_crowd (by omega)]
      omega
    · rw [if_neg he] at h
      have := ih (by omega) h
      omega

theorem crowd_fresh {n : ℕ} (hn : n ≤ 2518) :
    (crowd n).users[UInt32.ofNat (10000 + n)]? = none := by
  cases h : (crowd n).users[UInt32.ofNat (10000 + n)]? with
  | none => rfl
  | some targets =>
    have := crowd_users hn h
    rw [toNat_crowd hn] at this
    omega

/-- The first user of the crowd. -/
theorem crowd_first {n : ℕ} (hn : n + 1 ≤ 2518) :
    (crowd (n + 1)).users[(10000 : UInt32)]? = some ((∅ : Targets).insert .sddm .onActivity) := by
  induction n with
  | zero => simp [crowd]
  | succ n ih =>
    have hne : compare (UInt32.ofNat (10000 + (n + 1))) 10000 ≠ .eq := by
      intro h
      have := congrArg UInt32.toNat (Std.LawfulEqOrd.eq_of_compare h)
      rw [toNat_crowd (by omega)] at this
      have h0 : (10000 : UInt32).toNat = 10000 := rfl
      omega
    rw [crowd, Std.ExtTreeMap.getElem?_insert, if_neg hne]
    exact ih (by omega)

theorem wellFormed_crowd {n : ℕ} (hn : n ≤ 2518) : (crowd n).WellFormed := by
  induction n with
  | zero => exact wellFormed_default
  | succ n ih =>
    have hz : UInt32.ofNat (10000 + n) ≠ 0 := by
      intro h
      have := congrArg UInt32.toNat h
      rw [toNat_crowd (by omega)] at this
      have h0 : (0 : UInt32).toNat = 0 := rfl
      omega
    have hmode : (if n < 9 then AuthPolicyMode.onActivity else .manual) ≠ .off := by
      split_ifs <;> decide
    exact (ih (by omega)).insert hz (noOff_empty.insert hmode)

theorem weight_crowd {n : ℕ} (hn : n ≤ 2518) :
    weight (.ofNat (10000 + n), (∅ : Targets).insert .sddm
      (if n < 9 then .onActivity else .manual)) = if n < 9 then 31 else 26 := by
  have hd : (decimal (10000 + n)).length = 5 := length_decimal (by omega) (by omega)
  have hlong : (object (((∅ : Targets).insert .sddm .onActivity).toList.map targetMember)).length =
      22 := by decide
  have hshort : (object (((∅ : Targets).insert .sddm .manual).toList.map targetMember)).length =
      17 := by decide
  simp only [weight, userMember, quoted, toNat_crowd hn, List.length_append, List.length_cons, hd,
    List.length_nil]
  split_ifs
  · rw [hlong]
  · rw [hshort]

theorem sum_crowd {n : ℕ} (hn : n ≤ 2518) :
    ((crowd n).users.toList.map weight).sum = 26 * n + 5 * min n 9 := by
  induction n with
  | zero => rfl
  | succ n ih =>
    have hperm : (crowd (n + 1)).users.toList.Perm _ := toList_insert_perm (crowd_fresh (by omega))
    rw [(hperm.map weight).sum_eq, List.map_cons, List.sum_cons, ih (by omega),
      weight_crowd (by omega)]
    split_ifs <;> omega

/-- The policy is one byte too large. -/
theorem length_toJson_crowd : (crowd 2518).toJson.length = maxPolicyBytes + 1 := by
  have hsum := sum_crowd (n := 2518) le_rfl
  have hne : (crowd 2518).users.toList ≠ [] := by
    intro h
    rw [h] at hsum
    simp at hsum
  rw [length_toJson hne, hsum]
  rfl

end

/-- The policy file holds the crowd, without a line end. -/
def crowdFiles : Files :=
  policyFiles (AuthPolicy.object ([true, false].map (crowd 2518).policyMember))

/-- A target is turned off for a user for whom it is off, which rewrites the
    policy file with a line end: the modes of another user are lost. -/
theorem perform_loses_others :
    ModeLoaded (.byDepth 0 0 0o22) 10000 .sddm .onActivity crowdFiles ∧
    ¬ ModeLoaded (.byDepth 0 0 0o22) 10000 .sddm .onActivity
      ((perform ⟨plainCrypto, none⟩ exampleAnswers 1 none (.disable .sddm)).run.run
        (handler (.byDepth 0 0 0o22)) [] crowdFiles).2 := by
  have hwf : (crowd 2518).WellFormed := wellFormed_crowd le_rfl
  have hlen : (crowd 2518).toJson.length = maxPolicyBytes + 1 := length_toJson_crowd
  have hdisk : OnDisk crowdFiles configDir (crowd 2518) := by
    refine onDisk_policyFiles (AuthPolicy.parseJson_object hwf hlen.le) ?_
    rw [AuthPolicy.toJson_eq, List.length_append, List.length_singleton] at hlen
    exact (Nat.add_right_cancel hlen).le
  have hoff : (crowd 2518).setMode 1 .sddm .off = .ok (crowd 2518) := by
    have hnone : (crowd 2518).users[(1 : UInt32)]? = none := by
      cases h : (crowd 2518).users[(1 : UInt32)]? with
      | none => rfl
      | some targets => exact absurd (crowd_users le_rfl h).1 (by decide)
    simp [AuthPolicy.setMode, hnone]
  have hmode : (crowd 2518).modeFor 10000 .sddm = .onActivity := by
    rw [AuthPolicy.modeFor, crowd_first le_rfl]
    rfl
  refine ⟨⟨_, loaded_iff.2 hdisk, hmode⟩, ?_⟩
  rintro ⟨policy, hload, -⟩
  have hw := written_of_disableTarget ⟨plainCrypto, none⟩ exampleAnswers (.byDepth 0 0 0o22)
    hdisk hoff rfl rfl (by simp [crowdFiles, policyFiles]) rfl
  obtain ⟨n, hn, -, -, -, -, -, hdata⟩ := hw
  rcases loaded_iff.1 hload with ⟨-, m, hm, hf, -⟩ | ⟨-, hnone, -⟩
  · cases hn.symm.trans hm
    have hsize := hf.size
    rw [hdata, hlen] at hsize
    omega
  · cases hn.symm.trans hnone

end SyncVault

end KFaceAuth
