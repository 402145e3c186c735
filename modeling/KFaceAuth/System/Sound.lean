import KFaceAuth.System.Frame
import KFaceAuth.System.PolicyTool

/-!
# Enabled users have a profile

Three files tell whether a user can log in: the policy, the system profile and
the key. They are changed one after the other, by operations that may fail or
stop at any call, and that undo what they did.

What matters of the files is a `View`. It is sound if a vault always opens with
the key beside it, and if both are there while the policy enables the user
(`View.Sound`). Replacing a profile passes through views that are sound
(`good_commitVerifiedProfile`): before the profile is touched the policy is revoked,
and it is only restored or enabled for a vault that was read again.
-/

namespace KFaceAuth

open Prog Fs

/-- The bytes of the file at a path. -/
def contentAt (w : Files) (p : Path) : Option (List UInt8) := (w.get p).map Node.data

theorem contentAt_of_get {w : Files} {p : Path} {n : Node (List UInt8)} (h : w.get p = some n) :
    contentAt w p = some n.data := by
  rw [contentAt, h]
  rfl

theorem contentAt_congr {w w' : Files} {p q : Path} (h : w'.get p = w.get q) :
    contentAt w' p = contentAt w q := by
  rw [contentAt, h]
  rfl

namespace SyncVault

/-- `identity.vault` of the system profile of a user. -/
def vaultPath (uid : UInt32) : Path := profilePath uid ++ [Name.identityVault]

/-! ## Views -/

/-- What matters of the files for a user. -/
structure View where
  vault : Option (List UInt8)
  key : Option (List UInt8)
  policy : Option (List UInt8)

def view (uid : UInt32) (w : Files) : View :=
  ⟨contentAt w (vaultPath uid), contentAt w (keyPath uid), contentAt w (policyPath configDir)⟩

namespace View

/-- The policy file holds a policy that can be loaded. -/
def Gives (s : View) (policy : AuthPolicy) : Prop :=
  ∃ bytes, s.policy = some bytes ∧ bytes.length ≤ maxPolicyBytes ∧
    AuthPolicy.parseJson bytes = .ok policy

/-- No target of the user is on. -/
def Off (uid : UInt32) (s : View) : Prop := ∀ policy, s.Gives policy → ¬ policy.Enables uid

/-- There is a vault, and a key. -/
structure Complete (s : View) : Prop where
  vault : s.vault ≠ none
  key : s.key ≠ none

/-- A vault opens with the key beside it, and both are there if a target is on. -/
structure Sound (env : Env) (uid : UInt32) (s : View) : Prop where
  opens : ∀ vault, s.vault = some vault → ∀ bytes, s.key = some bytes →
    ∃ key : MasterKey, key.bytes = bytes ∧ (decodeVault env.crypto vault key uid).isOk
  enabled : s.Off uid ∨ s.Complete

end View

variable {sys : Sys Name} {env : Env} {a : Answers} {uid : UInt32}
  {G : Step FileCall Files → Prop} {w₀ w w' : Files} {policy previous : AuthPolicy}
  {key : MasterKey} {fresh : Prop} {ε α : Type}

/-- The policy on disk is given by the view, unless it is the default. -/
theorem gives_of_onDisk (h : OnDisk w configDir policy) (hp : policy.Enables uid) :
    (view uid w).Gives policy := by
  rcases h with ⟨-, n, hn, hf, hparse⟩ | ⟨-, -, rfl⟩
  · exact ⟨n.data, contentAt_of_get hn, hf.size, hparse⟩
  · obtain ⟨target, htarget⟩ := hp
    exact absurd rfl htarget

/-- The state between two calls: the view is sound, and nothing is on while the key
    is `fresh`. -/
structure Good (env : Env) (uid : UInt32) (fresh : Prop) (w : Files) : Prop where
  wf : w.WF
  sound : (view uid w).Sound env uid
  off : fresh → (view uid w).Off uid

theorem Good.complete (h : Good env uid fresh w) (hdisk : OnDisk w configDir policy)
    (hp : policy.Enables uid) : (view uid w).Complete :=
  h.sound.enabled.resolve_left fun hoff => hoff policy (gives_of_onDisk hdisk hp) hp

theorem Good.of_view (h : Good env uid fresh w) (hwf : w'.WF) (hview : view uid w' = view uid w) :
    Good env uid fresh w' := by
  refine ⟨hwf, ?_, fun hfresh => ?_⟩
  · rw [hview]
    exact h.sound
  · rw [hview]
    exact h.off hfresh

/-! ## What is out of view -/

/-- The path is not in view. -/
structure Calm (uid : UInt32) (q : Path) : Prop where
  profile : ¬ profilePath uid <+: q
  key : q ≠ keyPath uid
  policy : q ≠ policyPath configDir

theorem view_of_within (h : Within (Calm uid) w w') : view uid w' = view uid w := by
  have hvault : ¬ Calm uid (vaultPath uid) := fun hc => hc.profile (List.prefix_append _ _)
  have hkey : ¬ Calm uid (keyPath uid) := fun hc => hc.key rfl
  have hpolicy : ¬ Calm uid (policyPath configDir) := fun hc => hc.policy rfl
  rw [view, contentAt_congr (h.get _ hvault), contentAt_congr (h.get _ hkey),
    contentAt_congr (h.get _ hpolicy)]
  rfl

theorem Good.within (w w' : Files) (h : Within (Calm uid) w w') (hw : Good env uid fresh w) :
    Good env uid fresh w' :=
  hw.of_view (h.wf hw.wf) (view_of_within h)

/-- What is in the system vault, under another name than that of the profile. -/
theorem calm_root {n : Name} {q : Path} (hn : n ≠ .uid uid) (hq : systemRoot ++ [n] <+: q) :
    Calm uid q := by
  refine ⟨fun hp => ?_, ?_, ?_⟩
  · have hname := child_unique hq hp
    exact hn hname
  all_goals
    rintro rfl
    obtain ⟨x, hx⟩ := hq
    simp [systemRoot, keyPath, keysDir, policyPath, configDir] at hx

/-- What is in the directory of keys, under another name than that of the key. -/
theorem calm_keys {n : Name} {q : Path} (hn : n ≠ .key uid) (hq : keysDir ++ [n] <+: q) :
    Calm uid q := by
  refine ⟨fun hp => not_systemRoot_of_keysDir hp hq, ?_, ?_⟩
  · rintro rfl
    obtain ⟨x, hx⟩ := hq
    simp only [keyPath, List.append_assoc, List.append_cancel_left_eq, List.singleton_append,
      List.cons.injEq] at hx
    exact hn hx.1
  · rintro rfl
    obtain ⟨x, hx⟩ := hq
    simp [keysDir, policyPath, configDir] at hx

/-- What is in the configuration directory, but for the policy and the keys. -/
theorem calm_config {n : Name} {q : Path} (hn : n ≠ .policyJson ∧ n ≠ .keys)
    (hq : configDir ++ [n] <+: q) : Calm uid q := by
  obtain ⟨x, rfl⟩ := hq
  refine ⟨?_, ?_, ?_⟩
  · rintro ⟨y, hy⟩
    simp [profilePath, systemRoot, configDir] at hy
  · intro h
    simp [keyPath, keysDir, configDir, hn.2] at h
  · intro h
    simp [policyPath, configDir, hn.1] at h

theorem calm_systemRoot {q : Path} (hq : q <+: systemRoot) : Calm uid q := by
  refine ⟨fun hp => child_not_above _ _ (hp.trans hq), ?_, ?_⟩
  all_goals
    rintro rfl
    obtain ⟨x, hx⟩ := hq
    simp [systemRoot, keyPath, keysDir, policyPath, configDir] at hx

theorem calm_configDir : Calm uid configDir := by
  refine ⟨?_, by simp [configDir, keyPath, keysDir], by simp [configDir, policyPath]⟩
  rintro ⟨x, hx⟩
  simp [profilePath, systemRoot, configDir] at hx

theorem calm_keysDir : Calm uid keysDir := by
  refine ⟨?_, by simp [keysDir, keyPath], by simp [keysDir, configDir, policyPath]⟩
  rintro ⟨x, hx⟩
  simp [profilePath, systemRoot, keysDir] at hx

theorem calm_staging {q : Path} (hq : stagingPath a <+: q) : Calm uid q :=
  calm_root (n := .staging a.pid a.stagingNonce) (by simp) hq

theorem calm_policyLock : Calm uid policyLock := calm_config (by simp) List.prefix_rfl

/-! ## Rules -/

section Rules

variable {I : Files → Prop} {Q : Except ε α → Files → Prop}

theorem safe_orFail {x : ExceptT ε FileProg α} {T : Except Unit α → Files → Prop}
    (h : x.run.Safe (handler sys) G I Q w) (hok : ∀ a w, Q (.ok a) w → T (.ok a) w)
    (herr : ∀ e w, Q (.error e) w → T (.error ()) w) :
    (orFail x).run.Safe (handler sys) G I T w := by
  refine h.bind fun r w hw => ?_
  cases r with
  | ok a => exact hok a w hw
  | error e => exact herr e w hw

theorem safe_isOk {x : ExceptT ε FileProg α} {T : Bool → Files → Prop}
    (h : x.run.Safe (handler sys) G I Q w) (hok : ∀ a w, Q (.ok a) w → T true w)
    (herr : ∀ e w, Q (.error e) w → T false w) : (isOk x).Safe (handler sys) G I T w := by
  refine h.bind fun r w hw => ?_
  cases r with
  | ok a => exact hok a w hw
  | error e => exact herr e w hw

theorem safe_value? {x : ExceptT ε FileProg α} {T : Option α → Files → Prop}
    (h : x.run.Safe (handler sys) G I Q w) (hok : ∀ a w, Q (.ok a) w → T (some a) w)
    (herr : ∀ e w, Q (.error e) w → T none w) : (value? x).Safe (handler sys) G I T w := by
  refine h.bind fun r w hw => ?_
  cases r with
  | ok a => exact hok a w hw
  | error e => exact herr e w hw

/-- A file that is reported missing is. -/
theorem safe_lstat {p : Path} {I : Files → Prop} (hI : I w) :
    (reply (.lstat p : FileCall)).Safe (handler sys) G I
      (fun r w' => w' = w ∧ (r = .error .notFound → w.get p = none)) w := by
  refine ⟨fun _ => hI, fun _ => ⟨rfl, fun h => ?_⟩, ?_⟩
  · cases hget : w.get p with
    | none => rfl
    | some n => simp [handler, exec, hget] at h
  · rintro r ⟨⟩ _
    exact ⟨rfl, fun h => by cases h⟩

/-- A program that changes nothing in `S`, before one that relies on it. -/
theorem safe_stays {S : Path → Prop} {x : ExceptT ε FileProg α} {β : Type}
    {f : α → ExceptT ε FileProg β} {J : Files → Prop} {T : Except ε β → Files → Prop}
    (hx : Stays sys G S x.run) (hJ : ∀ w w', Within S w w' → J w → J w') (hI : ∀ w, J w → I w)
    (hw : J w) (hf : ∀ a w, J w → (f a).run.Safe (handler sys) G I T w)
    (herr : ∀ e w, J w → T (.error e) w) : (x >>= f).run.Safe (handler sys) G I T w :=
  Safe.bindE ((hx.keeps hJ w hw).mono hI fun _ _ h => h) hf herr

end Rules

/-! ## Writing the policy -/

/-- What is in the configuration directory, but for the keys. -/
def InPolicy (q : Path) : Prop := ∃ n, n ≠ Name.keys ∧ configDir ++ [n] <+: q

theorem inPolicy_of_scope {pid nonce : ℕ} {q : Path} (h : PolicyScope configDir pid nonce q) :
    InPolicy q := by
  rcases h with h | h
  · exact ⟨.policyTmp pid nonce, by simp, h⟩
  · exact ⟨.policyJson, by simp, h⟩

theorem not_inPolicy_root {n : Name} {r : Path} : ¬ InPolicy (systemRoot ++ n :: r) := by
  rintro ⟨m, -, x, hx⟩
  simp [systemRoot, configDir] at hx

theorem not_inPolicy_key : ¬ InPolicy (keyPath uid) := by
  rintro ⟨m, hm, x, hx⟩
  simp [keyPath, keysDir, configDir] at hx
  exact hm hx.1

/-- The policy may have been replaced, and nothing else in view. -/
structure Wrote (policy : AuthPolicy) (w w' : Files) : Prop where
  within : Within InPolicy w w'
  policy : contentAt w' (policyPath configDir) = contentAt w (policyPath configDir) ∨
    contentAt w' (policyPath configDir) = some policy.toJson

theorem Wrote.refl : Wrote policy w w := ⟨.refl _ _, .inl rfl⟩

theorem Wrote.root (h : Wrote policy w w') (n : Name) (r : Path) :
    w'.get (systemRoot ++ n :: r) = w.get (systemRoot ++ n :: r) :=
  h.within.get _ not_inPolicy_root

theorem Wrote.vault_eq (h : Wrote policy w w') : (view uid w').vault = (view uid w).vault :=
  contentAt_congr (h.root (.uid uid) [.identityVault])

theorem Wrote.key_eq (h : Wrote policy w w') : (view uid w').key = (view uid w).key :=
  contentAt_congr (h.within.get _ not_inPolicy_key)

theorem Wrote.complete (h : Wrote policy w w') (hw : (view uid w).Complete) :
    (view uid w').Complete := by
  refine ⟨?_, ?_⟩
  · rw [h.vault_eq]
    exact hw.vault
  · rw [h.key_eq]
    exact hw.key

/-- A policy that was written gives itself, and no other. -/
theorem eq_of_gives (hp : policy.WellFormed) {s : View} (hs : s.policy = some policy.toJson)
    (h : s.Gives previous) : previous = policy := by
  obtain ⟨bytes, hbytes, hlen, hparse⟩ := h
  rw [hs, Option.some.injEq] at hbytes
  subst hbytes
  rw [AuthPolicy.parseJson_toJson hp hlen] at hparse
  exact (Except.ok.inj hparse).symm

theorem off_of_written (hp : policy.WellFormed) (hoff : ¬ policy.Enables uid) {s : View}
    (hs : s.policy = some policy.toJson) : s.Off uid := by
  intro found hfound
  rwa [eq_of_gives hp hs hfound]

theorem Wrote.off (h : Wrote policy w w') (hp : policy.WellFormed) (hoff : ¬ policy.Enables uid)
    (hw : (view uid w).Off uid) : (view uid w').Off uid := by
  rcases h.policy with hsame | hnew
  · intro found hfound
    refine hw found ?_
    obtain ⟨bytes, hbytes, hrest⟩ := hfound
    exact ⟨bytes, hsame.symm.trans hbytes, hrest⟩
  · exact off_of_written hp hoff hnew

/-- A policy may be written if it only enables a user who has a vault and a key. -/
theorem Wrote.good (h : Wrote policy w w') (hp : policy.WellFormed)
    (hfresh : fresh → ¬ policy.Enables uid)
    (hcomplete : policy.Enables uid → (view uid w).Complete) (hw : Good env uid fresh w) :
    Good env uid fresh w' := by
  refine ⟨h.within.wf hw.wf, ⟨?_, ?_⟩, fun hf => h.off hp (hfresh hf) (hw.off hf)⟩
  · rw [h.vault_eq, h.key_eq]
    exact hw.sound.opens
  · rcases hw.sound.enabled with hoff | hc
    · by_cases hen : policy.Enables uid
      · exact .inr (h.complete (hcomplete hen))
      · exact .inl (h.off hp hen hoff)
    · exact .inr (h.complete hc)

theorem safe_writeAtomic {euid pid nonce : ℕ} :
    (writeAtomic env euid pid nonce configDir policy).run.Safe (handler sys) G (Wrote policy w)
      (fun r w' => Wrote policy w w' ∧
        (r.isOk → contentAt w' (policyPath configDir) = some policy.toJson)) w := by
  have hwrote : ∀ w', (w'.get (policyPath configDir) = w.get (policyPath configDir) ∨
      Written w' configDir policy) → Within (PolicyScope configDir pid nonce) w w' →
      Wrote policy w w' := by
    refine fun w' hpol hin => ⟨hin.mono fun _ hq => inPolicy_of_scope hq, ?_⟩
    refine hpol.imp contentAt_congr ?_
    rintro ⟨n, hn, -, -, -, -, -, hdata⟩
    rw [contentAt_of_get hn, hdata]
  refine (safe_writeAtomic_policy.and (safe_within calls_writeAtomic)).mono
    (fun w' h => hwrote w' h.1 h.2) fun r w' h => ⟨hwrote w' h.1.1 h.2, fun hr => ?_⟩
  cases r with
  | error e => cases hr
  | ok _ =>
    obtain ⟨-, n, hn, -, -, -, -, -, hdata⟩ := h.1.2
    rw [contentAt_of_get hn, hdata]

theorem safe_writePolicy {i : ℕ} :
    (writePolicy env a i policy).run.Safe (handler sys) G (Wrote policy w)
      (fun r w' => Wrote policy w w' ∧
        (r.isOk → contentAt w' (policyPath configDir) = some policy.toJson)) w := by
  refine Safe.bindE (safe_orFail (T := fun r w' => Wrote policy w w' ∧
    (r.isOk → contentAt w' (policyPath configDir) = some policy.toJson)) safe_writeAtomic
    (fun _ _ h => h) fun _ _ h => ⟨h.1, fun h => by cases h⟩) (fun _ w₁ h₁ => ?_)
    fun _ _ h => ⟨h.1, fun h => by cases h⟩
  refine Safe.bindE (safe_loadPolicy h₁.1) (fun read w₂ h₂ => ?_) fun e w₂ h₂ => ?_
  · rw [h₂.1]
    split_ifs
    · exact ⟨h₁.1, fun h => by cases h⟩
    · exact ⟨h₁.1, fun _ => h₁.2 rfl⟩
  · rw [h₂.1]
    exact ⟨h₁.1, fun h => by cases h⟩

/-! ## Replacing the profile -/

/-- The user has the key, and a vault that is there opens with it. -/
structure Holds (env : Env) (uid : UInt32) (key : MasterKey) (w : Files) : Prop where
  wf : w.WF
  key_eq : (view uid w).key = some key.bytes
  opens : ∀ vault, (view uid w).vault = some vault → (decodeVault env.crypto vault key uid).isOk

/-- Moreover nothing is on for the user. -/
structure Shut (env : Env) (uid : UInt32) (key : MasterKey) (w : Files) : Prop extends
    Holds env uid key w where
  off : (view uid w).Off uid

/-- The vault at a path, if there is one, opens with the key. -/
def OpensAt (env : Env) (uid : UInt32) (key : MasterKey) (p : Path) (w : Files) : Prop :=
  ∀ vault, contentAt w p = some vault → (decodeVault env.crypto vault key uid).isOk

theorem Good.holds (h : Good env uid fresh w) (hkey : (view uid w).key = some key.bytes) :
    Holds env uid key w := by
  refine ⟨h.wf, hkey, fun vault hvault => ?_⟩
  obtain ⟨key', hbytes, hopen⟩ := h.sound.opens vault hvault _ hkey
  have hsame : key' = key := by
    cases key'
    cases key
    congr
  rwa [← hsame]

theorem Holds.good (h : Holds env uid key w) (hfresh : fresh → (view uid w).Off uid)
    (henabled : (view uid w).Off uid ∨ (view uid w).vault ≠ none) : Good env uid fresh w := by
  refine ⟨h.wf, ⟨fun vault hvault bytes hbytes => ⟨key, ?_, h.opens vault hvault⟩, ?_⟩, hfresh⟩
  · rw [h.key_eq, Option.some.injEq] at hbytes
    exact hbytes
  · refine henabled.imp_right fun hvault => ⟨hvault, ?_⟩
    rw [h.key_eq]
    exact Option.some_ne_none _

theorem Shut.good (h : Shut env uid key w) : Good env uid fresh w :=
  h.toHolds.good (fun _ => h.off) (.inl h.off)

theorem Wrote.holds (h : Wrote policy w w') (hw : Holds env uid key w) : Holds env uid key w' := by
  refine ⟨h.within.wf hw.wf, ?_, ?_⟩
  · rw [h.key_eq]
    exact hw.key_eq
  · rw [h.vault_eq]
    exact hw.opens

/-- The paths of the vault and of the key are apart, and from that of the policy. -/
theorem not_calm_vault : ¬ Calm uid (vaultPath uid) := fun h => h.profile (List.prefix_append _ _)

theorem not_calm_key : ¬ Calm uid (keyPath uid) := fun h => h.key rfl

theorem not_calm_policy : ¬ Calm uid (policyPath configDir) := fun h => h.policy rfl

theorem profile_not_above_key : ¬ profilePath uid <+: keyPath uid := by
  rintro ⟨x, hx⟩
  simp [profilePath, systemRoot, keyPath, keysDir] at hx

theorem profile_not_above_policy : ¬ profilePath uid <+: policyPath configDir := by
  rintro ⟨x, hx⟩
  simp [profilePath, systemRoot, policyPath, configDir] at hx

theorem contentAt_moves {p q : Path} (h : Moves w p q w') (r : Path) :
    contentAt w' (q ++ r) = contentAt w (p ++ r) := by
  refine contentAt_congr ?_
  rw [h.get, if_pos (List.prefix_append _ _), List.drop_left]

/-- What is neither moved nor replaced is as before. -/
theorem contentAt_of_moves {p q r : Path} (h : Moves w p q w') (hp : ¬ p <+: r) (hq : ¬ q <+: r) :
    contentAt w' r = contentAt w r :=
  contentAt_congr (h.of_not_prefix hp hq)

/-- A profile is moved out of view. -/
theorem view_moveOut {q : Path} (h : Moves w (profilePath uid) q w')
    (hq : ∀ r, q <+: r → Calm uid r) :
    view uid w' = { view uid w with vault := none } := by
  have habove : profilePath uid <+: vaultPath uid := List.prefix_append _ _
  have hvault : contentAt w' (vaultPath uid) = none := by
    rw [contentAt, h.get, if_neg fun hv => not_calm_vault (hq _ hv), if_pos habove]
    rfl
  rw [view, hvault, contentAt_of_moves h profile_not_above_key fun hk => not_calm_key (hq _ hk),
    contentAt_of_moves h profile_not_above_policy fun hk => not_calm_policy (hq _ hk)]
  rfl

/-- A profile is moved into view. -/
theorem view_moveIn {p : Path} (h : Moves w p (profilePath uid) w')
    (hp : ∀ r, p <+: r → Calm uid r) :
    view uid w' = { view uid w with vault := contentAt w (p ++ [Name.identityVault]) } := by
  rw [view, vaultPath, contentAt_moves h,
    contentAt_of_moves h (fun hk => not_calm_key (hp _ hk)) profile_not_above_key,
    contentAt_of_moves h (fun hk => not_calm_policy (hp _ hk)) profile_not_above_policy]
  rfl

theorem Shut.moveOut {q : Path} (hw : Shut env uid key w) (h : Moves w (profilePath uid) q w')
    (hwf : w'.WF) (hq : ∀ r, q <+: r → Calm uid r) : Shut env uid key w' := by
  have hview := view_moveOut h hq
  refine ⟨⟨hwf, ?_, ?_⟩, ?_⟩
  · rw [hview]
    exact hw.key_eq
  · rw [hview]
    exact fun _ h => by cases h
  · rw [hview]
    exact hw.off

theorem Shut.moveIn {p : Path} (hw : Shut env uid key w) (h : Moves w p (profilePath uid) w')
    (hwf : w'.WF) (hp : ∀ r, p <+: r → Calm uid r)
    (hopen : OpensAt env uid key (p ++ [Name.identityVault]) w) : Shut env uid key w' := by
  have hview := view_moveIn h hp
  refine ⟨⟨hwf, ?_, ?_⟩, ?_⟩
  · rw [hview]
    exact hw.key_eq
  · rw [hview]
    exact hopen
  · rw [hview]
    exact hw.off

/-- A rename, if it is needed. -/
theorem safe_renameIf {I : Files → Prop} {needed : Bool} {p q : Path} (hI : I w) :
    (renameIf needed p q).Safe (handler sys) G I (fun b w' =>
      match b with
      | true => (needed = false ∧ w' = w) ∨ (needed = true ∧ Moves w p q w' ∧ (w.WF → w'.WF))
      | false => w' = w) w := by
  cases needed with
  | false => exact .inl ⟨rfl, rfl⟩
  | true =>
    refine safe_isOk (Q := Post (fun _ w' => Moves w p q w' ∧ (w.WF → w'.WF))
      fun _ w' => w' = w) ?_ (fun _ _ h => .inr ⟨rfl, h⟩) fun _ _ h => h
    refine Safe.last (c := .rename p q) trivial hI (fun _ w₁ h₁ => ?_) fun _ _ => rfl
    obtain ⟨-, -, -, -, hmoves⟩ := exec_rename h₁
    exact ⟨hmoves, wf_of_exec h₁⟩

/-- The bytes of every file are the same. -/
structure SameData (w w' : Files) : Prop where
  wf : w.WF → w'.WF
  data : ∀ q, contentAt w' q = contentAt w q

theorem SameData.refl : SameData w w := ⟨id, fun _ => rfl⟩

theorem SameData.trans {w₁ w₂ w₃ : Files} (h₁ : SameData w₁ w₂) (h₂ : SameData w₂ w₃) :
    SameData w₁ w₃ :=
  ⟨fun h => h₂.wf (h₁.wf h), fun q => (h₂.data q).trans (h₁.data q)⟩

theorem SameData.view_eq (h : SameData w w') : view uid w' = view uid w := by
  rw [view, h.data, h.data, h.data]
  rfl

theorem SameData.shut (h : SameData w w') (hw : Shut env uid key w) : Shut env uid key w' := by
  refine ⟨⟨h.wf hw.wf, ?_, ?_⟩, ?_⟩
  · rw [h.view_eq]
    exact hw.key_eq
  · rw [h.view_eq]
    exact hw.opens
  · rw [h.view_eq]
    exact hw.off

theorem sameData_of_permits {p : Path} {owner mode : ℕ} {group : Group}
    (h : Permits env p owner mode group w w') : SameData w w' := by
  refine ⟨h.wf, fun q => ?_⟩
  rcases eq_or_ne q p with rfl | hq
  · rcases h.node with hsame | ⟨n, gid, hn, -, hn' | hn'⟩
    · exact contentAt_congr hsame
    · rw [contentAt_of_get hn, contentAt_of_get hn']
    · rw [contentAt_of_get hn, contentAt_of_get hn']
  · exact contentAt_congr (h.same q hq)

/-- The permissions of a profile are set, and its bytes are kept. -/
theorem safe_validateAndHardenExistingProfile :
    (validateAndHardenExistingProfile env uid).run.Safe (handler sys) G (SameData w)
      (fun r w' => SameData w w' ∧ (r = .ok false → w.get (profilePath uid) = none)) w := by
  have hset : ∀ {w₁ : Files} {p : Path} {mode : ℕ} {f : Unit → ExceptT Unit FileProg Bool},
      SameData w w₁ → (∀ w₂, SameData w w₂ → (f ()).run.Safe (handler sys) G (SameData w)
        (fun r w' => SameData w w' ∧ (r = .ok false → w.get (profilePath uid) = none)) w₂) →
      (setFdPermissions env p 0 mode .kfaceauth >>= f).run.Safe (handler sys) G (SameData w)
        (fun r w' => SameData w w' ∧ (r = .ok false → w.get (profilePath uid) = none)) w₁ := by
    intro w₁ p mode f h₁ hf
    refine Safe.bindE (Q := fun _ => SameData w) (safe_setFdPermissions.mono
      (fun w₂ h₂ => h₁.trans (sameData_of_permits h₂))
      fun _ w₂ h₂ => h₁.trans (sameData_of_permits h₂.1)) (fun _ w₂ h₂ => hf w₂ h₂) fun _ _ h => ?_
    exact ⟨h, not_ok⟩
  refine Safe.liftE (safe_lstat .refl) ?_
  rintro r w₁ ⟨rfl, hnone⟩
  rcases r with e | entry
  · cases e with
    | notFound => exact ⟨.refl, fun _ => hnone rfl⟩
    | alreadyExists => exact ⟨.refl, not_ok⟩
    | other => exact ⟨.refl, not_ok⟩
  · dsimp only
    split_ifs
    · exact ⟨.refl, not_ok⟩
    refine Safe.look trivial .refl (fun _ _ => ?_) fun e _ => ⟨.refl, not_ok⟩
    refine Safe.look trivial .refl (fun d _ => ?_) fun e _ => ⟨.refl, not_ok⟩
    split_ifs
    · exact ⟨.refl, not_ok⟩
    refine Safe.look trivial .refl (fun _ _ => ?_) fun e _ => ⟨.refl, not_ok⟩
    refine Safe.look trivial .refl (fun f _ => ?_) fun e _ => ⟨.refl, not_ok⟩
    split_ifs
    · exact ⟨.refl, not_ok⟩
    exact hset .refl fun w₂ h₂ => hset h₂ fun w₃ h₃ => ⟨h₃, fun h => by cases h⟩

/-- What is below one entry of the system vault is not below another. -/
theorem root_apart {m n : Name} {p q : Path} (hne : m ≠ n) (hp : systemRoot ++ [m] <+: p)
    (hq : systemRoot ++ [n] <+: q) : ¬ p <+: q := by
  intro h
  have hname := child_unique (hp.trans h) hq
  exact hne hname

/-- The backup of a profile has a name of its own, and its vault opens with the key. -/
def Backed (env : Env) (uid : UInt32) (key : MasterKey) (backup : Option Path) (w : Files) :
    Prop :=
  ∀ p ∈ backup, (∃ n, n ≠ .uid uid ∧ p = systemRoot ++ [n]) ∧
    OpensAt env uid key (p ++ [Name.identityVault]) w

theorem Backed.calm {backup : Option Path} (hb : Backed env uid key backup w) {p q : Path}
    (hp : p ∈ backup) (hq : p <+: q) : Calm uid q := by
  obtain ⟨n, hn, rfl⟩ := (hb p hp).1
  exact calm_root hn hq

theorem Backed.congr {backup : Option Path} (hb : Backed env uid key backup w)
    (h : ∀ p ∈ backup,
      contentAt w' (p ++ [Name.identityVault]) = contentAt w (p ++ [Name.identityVault])) :
    Backed env uid key backup w' := by
  refine fun p hp => ⟨(hb p hp).1, fun vault hvault => (hb p hp).2 vault ?_⟩
  rw [← h p hp]
  exact hvault

/-- The staged profile takes the place of the one there is. -/
theorem safe_installStagedProfile (hw : Shut env uid key w)
    (hstaged : OpensAt env uid key (stagingPath a ++ [Name.uid uid] ++ [Name.identityVault]) w) :
    (installStagedProfile env a uid).run.Safe (handler sys) G (Good env uid fresh)
      (fun r w' => Shut env uid key w' ∧
        ∀ backup, r = .ok backup → Backed env uid key backup w') w := by
  have hprevious : ∀ q, systemRoot ++ [Name.previous uid a.previousNonce] <+: q → Calm uid q :=
    fun q hq => calm_root (by simp) hq
  have hstagedPath :
      systemRoot ++ [Name.staging a.pid a.stagingNonce] <+: stagingPath a ++ [Name.uid uid] :=
    List.prefix_append _ _
  have hstagedCalm : ∀ q, stagingPath a ++ [Name.uid uid] <+: q → Calm uid q :=
    fun q hq => calm_staging ((List.prefix_append _ _).trans hq)
  refine Safe.bindE (safe_validateAndHardenExistingProfile.mono (fun w₁ h₁ => (h₁.shut hw).good)
    fun _ _ h => h) (fun had w₁ h₁ => ?_) fun e w₁ h₁ => ⟨h₁.1.shut hw, fun _ => not_ok⟩
  have hshut₁ := h₁.1.shut hw
  refine Safe.liftE (safe_renameIf hshut₁.good) fun b w₂ h₂ => ?_
  cases b with
  | false =>
    rw [h₂]
    exact ⟨hshut₁, fun _ => not_ok⟩
  | true =>
  -- the profile there was, if any, is in its backup now
  have hstep : Shut env uid key w₂ ∧
      Backed env uid key (if had then some (systemRoot ++ [Name.previous uid a.previousNonce])
        else none) w₂ ∧
      OpensAt env uid key (stagingPath a ++ [Name.uid uid] ++ [Name.identityVault]) w₂ := by
    have hstaged₁ :
        OpensAt env uid key (stagingPath a ++ [Name.uid uid] ++ [Name.identityVault]) w₁ := by
      intro vault hvault
      rw [h₁.1.data] at hvault
      exact hstaged vault hvault
    rcases h₂ with ⟨rfl, rfl⟩ | ⟨rfl, hmoves, hwf⟩
    · exact ⟨hshut₁, (fun _ h => by cases h), hstaged₁⟩
    · refine ⟨hshut₁.moveOut hmoves (hwf hshut₁.wf) hprevious, fun p hp => ?_, ?_⟩
      · obtain rfl := Option.some.inj hp
        refine ⟨⟨_, by simp, rfl⟩, fun vault hvault => hshut₁.opens vault ?_⟩
        rw [contentAt_moves hmoves] at hvault
        exact hvault
      · intro vault hvault
        have habove := hstagedPath.trans (List.prefix_append _ [Name.identityVault])
        rw [contentAt_of_moves hmoves (root_apart (by simp) List.prefix_rfl habove)
          (root_apart (by simp) List.prefix_rfl habove)] at hvault
        exact hstaged₁ vault hvault
  obtain ⟨hshut₂, hbacked, hstaged₂⟩ := hstep
  refine Safe.liftE (safe_renameIf hshut₂.good) fun b w₃ h₃ => ?_
  cases b with
  | true =>
    rcases h₃ with ⟨h, -⟩ | ⟨-, hmoves, hwf⟩
    · cases h
    refine ⟨hshut₂.moveIn hmoves (hwf hshut₂.wf) hstagedCalm hstaged₂, fun backup hr => ?_⟩
    obtain rfl := Except.ok.inj hr
    refine hbacked.congr fun p hp => ?_
    split_ifs at hp
    · obtain rfl := Option.some.inj hp
      have habove := List.prefix_append (systemRoot ++ [Name.previous uid a.previousNonce])
        [Name.identityVault]
      exact contentAt_of_moves hmoves (root_apart (by simp) hstagedPath habove)
        (root_apart (by simp) List.prefix_rfl habove)
    · cases hp
  | false =>
    subst h₃
    refine Safe.liftE (safe_renameIf hshut₂.good) fun b w₄ h₄ => ?_
    refine ⟨?_, fun _ => not_ok⟩
    cases b with
    | false =>
      rw [h₄]
      exact hshut₂
    | true =>
      rcases h₄ with ⟨-, rfl⟩ | ⟨rfl, hmoves, hwf⟩
      · exact hshut₂
      · exact hshut₂.moveIn hmoves (hwf hshut₂.wf) hprevious (hbacked _ rfl).2

/-- Part of a profile is removed. -/
theorem Shut.pruned (hw : Shut env uid key w) (h : Pruned (profilePath uid) w w') :
    Shut env uid key w' := by
  have hkey : contentAt w' (keyPath uid) = contentAt w (keyPath uid) :=
    contentAt_congr (h.of_not_prefix profile_not_above_key)
  have hpolicy : contentAt w' (policyPath configDir) = contentAt w (policyPath configDir) :=
    contentAt_congr (h.of_not_prefix profile_not_above_policy)
  refine ⟨⟨h.wf hw.wf, hkey.trans hw.key_eq, fun vault hvault => ?_⟩, fun found hfound => ?_⟩
  · rcases h.get (vaultPath uid) with hsame | ⟨-, hnone⟩
    · exact hw.opens vault ((contentAt_congr hsame).symm.trans hvault)
    · rw [view, contentAt, hnone] at hvault
      cases hvault
  · obtain ⟨bytes, hbytes, hrest⟩ := hfound
    exact hw.off found ⟨bytes, hpolicy.symm.trans hbytes, hrest⟩

theorem Wrote.backed {backup : Option Path} (h : Wrote policy w w')
    (hb : Backed env uid key backup w) : Backed env uid key backup w' := by
  refine hb.congr fun p hp => ?_
  obtain ⟨n, -, rfl⟩ := (hb p hp).1
  rw [List.append_assoc]
  exact contentAt_congr (h.root n [.identityVault])

theorem safe_rollback {backup : Option Path} (hw : Shut env uid key w)
    (hb : Backed env uid key backup w) :
    (rollback uid backup).run.Safe (handler sys) G (Good env uid fresh)
      (fun r w' => Shut env uid key w' ∧ (¬ r.isOk → Backed env uid key backup w')) w := by
  have hrestore : ∀ w, Shut env uid key w → Backed env uid key backup w →
      (rollback.restore uid backup).run.Safe (handler sys) G (Good env uid fresh)
        (fun r w' => Shut env uid key w' ∧ (¬ r.isOk → Backed env uid key backup w')) w := by
    intro w hw hb
    cases backup with
    | none => exact ⟨hw, fun h => absurd rfl h⟩
    | some p =>
      refine Safe.last (c := .rename p (profilePath uid)) trivial hw.good (fun _ w₁ h₁ => ?_)
        fun e _ => ⟨hw, fun _ => hb⟩
      obtain ⟨-, -, -, -, hmoves⟩ := exec_rename h₁
      exact ⟨hw.moveIn hmoves (wf_of_exec h₁ hw.wf) (fun _ hq => hb.calm rfl hq) (hb p rfl).2,
        fun h => absurd rfl h⟩
  refine Safe.look trivial hw.good (fun b _ => ?_) fun e _ => ⟨hw, fun _ => hb⟩
  split_ifs
  · have hpruned : ∀ w', Pruned (profilePath uid) w w' → Backed env uid key backup w' :=
      fun w' h => hb.congr fun p hp => contentAt_congr (h.of_not_prefix
        (hb.calm hp (List.prefix_append _ _)).profile)
    refine Safe.bindE (Q := fun _ w' => Pruned (profilePath uid) w w') ?_
      (fun _ w₁ h₁ => hrestore w₁ (hw.pruned h₁) (hpruned w₁ h₁))
      fun e w₁ h₁ => ⟨hw.pruned h₁, fun _ => hpruned w₁ h₁⟩
    exact safe_orFail ((safe_removeDirAll _).mono (fun w₁ h₁ => (hw.pruned h₁).good) fun _ _ h => h)
      (fun _ _ h => h.1) fun _ _ h => h.1
  · exact hrestore w hw hb

/-- A vault that passes the check of its integrity is there. -/
theorem safe_checkIntegrity {I : Files → Prop} (hI : I w) :
    (orFail ((systemVault systemRoot uid).validateIntegrity env key)).run.Safe (handler sys) G I
      (fun r w' => w' = w ∧ (r.isOk → (view uid w).vault ≠ none)) w := by
  refine safe_orFail (Vault.safe_validateIntegrity hI) (fun _ w₁ h₁ => ?_)
    fun _ w₁ h₁ => ⟨h₁.1, fun h => by cases h⟩
  refine ⟨h₁.1, fun _ => ?_⟩
  obtain ⟨-, -, n, hn, -⟩ := h₁.2 rfl
  have hvault : contentAt w (vaultPath uid) = some n.data := contentAt_of_get hn
  rw [view, hvault]
  exact Option.some_ne_none _

theorem safe_restorePreviousPolicy {i : ℕ} (hw : Shut env uid key w) (hp : policy.WellFormed)
    (hfresh : fresh → ¬ policy.Enables uid) :
    (restorePreviousPolicy env a uid key i policy).run.Safe (handler sys) G (Good env uid fresh)
      (fun _ => Good env uid fresh) w := by
  have hrestore : (policy.Enables uid → (view uid w).vault ≠ none) →
      (restorePreviousPolicy.restore env a i policy).run.Safe (handler sys) G (Good env uid fresh)
        (fun _ => Good env uid fresh) w := by
    intro hvault
    have hgood : ∀ w', Wrote policy w w' → Good env uid fresh w' := by
      refine fun w' h => h.good hp hfresh (fun hen => ⟨hvault hen, ?_⟩) hw.good
      rw [hw.key_eq]
      exact Option.some_ne_none _
    refine Safe.look trivial hw.good (fun _ _ => ?_) fun e _ => hw.good
    exact safe_writePolicy.mono (fun w' h => hgood w' h) fun _ w' h => hgood w' h.1
  unfold restorePreviousPolicy
  split_ifs with hen
  · refine Safe.bindE (safe_checkIntegrity hw.good) (fun _ w₁ h₁ => ?_) fun e w₁ h₁ => ?_
    · rw [h₁.1]
      exact hrestore fun _ => h₁.2 rfl
    · rw [h₁.1]
      exact hw.good
  · exact hrestore fun h => absurd h hen

theorem safe_undoSwap {i : ℕ} {backup : Option Path} (hw : Shut env uid key w)
    (hb : Backed env uid key backup w) (hp : policy.WellFormed)
    (hfresh : fresh → ¬ policy.Enables uid) :
    (undoSwap env a uid key i policy backup).Safe (handler sys) G (Good env uid fresh)
      (fun _ => Good env uid fresh) w := by
  refine Safe.bind (safe_isOk (T := fun b w' => Shut env uid key w' ∧
    (b = false → Backed env uid key backup w')) (safe_rollback hw hb)
    (fun _ _ h => ⟨h.1, fun h => by cases h⟩)
    fun _ _ h => ⟨h.1, fun _ => h.2 fun h => by cases h⟩) fun b w₁ h₁ => ?_
  cases b with
  | true =>
    refine Safe.bind (safe_isOk (T := fun _ => Good env uid fresh)
      (safe_restorePreviousPolicy h₁.1 hp hfresh) (fun _ _ h => h) fun _ _ h => h) fun _ _ h => h
  | false =>
    refine Safe.bind (safe_isOk (T := fun _ => Good env uid fresh)
      (safe_rollback h₁.1 (h₁.2 rfl)) (fun _ _ h => h.1.good) fun _ _ h => h.1.good) fun _ _ h => h

theorem safe_verifyInstalled (hw : Shut env uid key w) :
    (verifyInstalled env uid key).run.Safe (handler sys) G (Good env uid fresh)
      (fun r w' => (∀ q, w'.get q = w.get q) ∧ (w.WF → w'.WF) ∧
        (r.isOk → (view uid w).vault ≠ none)) w := by
  refine Safe.bindE (safe_checkIntegrity hw.good) (fun _ w₁ h₁ => ?_) fun e w₁ h₁ => ?_
  · obtain ⟨rfl, hvault⟩ := h₁
    have hrest : Stays sys G (fun _ => False) (do
        let _ ← Freshness.verifiedSourceAt env (profilePath uid) uid
        demand (.fsync systemRoot) : ExceptT Unit FileProg Unit).run :=
      Stays.bindE stays_verifiedSourceAt fun _ => stays_look trivial
    refine (hrest w₁ w₁ (.refl _ _)).mono (fun w₂ h₂ => ?_) fun r w₂ h₂ => ?_
    · exact hw.good.of_view (h₂.wf hw.wf) (view_of_within (h₂.mono fun _ h => h.elim))
    · exact ⟨fun q => h₂.get q id, h₂.wf, fun _ => hvault rfl⟩
  · rw [h₁.1]
    exact ⟨fun _ => rfl, id, fun h => by cases h⟩

/-- The policies that `commit_verified_profile` writes for a user whose key may be
    fresh. -/
structure Writable (uid : UInt32) (change : Option TargetChange) (fresh : Prop)
    (previous revoked : AuthPolicy) : Prop where
  previous_wf : previous.WellFormed
  previous_off : fresh → ¬ previous.Enables uid
  revoked_wf : revoked.WellFormed
  revoked_off : ¬ revoked.Enables uid
  enabled_wf : ∀ enabled, enabledPolicy uid previous change = .ok enabled → enabled.WellFormed
  enabled_off : ∀ enabled, enabledPolicy uid previous change = .ok enabled → fresh →
    ¬ enabled.Enables uid

theorem safe_writeEnabled {change : Option TargetChange} {revoked : AuthPolicy}
    (hp : Writable uid change fresh previous revoked) (hw : Shut env uid key w)
    (hvault : (view uid w).vault ≠ none) :
    (writeEnabled env a uid change previous).run.Safe (handler sys) G (Good env uid fresh)
      (fun _ w' => Good env uid fresh w' ∧ ∃ enabled, Wrote enabled w w') w := by
  cases he : enabledPolicy uid previous change with
  | error e =>
    simp only [writeEnabled, he]
    exact ⟨hw.good, previous, .refl⟩
  | ok enabled =>
    have hgood : ∀ w', Wrote enabled w w' → Good env uid fresh w' := by
      refine fun w' h => h.good (hp.enabled_wf _ he) (hp.enabled_off _ he)
        (fun _ => ⟨hvault, ?_⟩) hw.good
      rw [hw.key_eq]
      exact Option.some_ne_none _
    simp only [writeEnabled, he]
    exact safe_writePolicy.mono (fun w' h => hgood w' h) fun _ w' h => ⟨hgood w' h.1, _, h.1⟩

theorem safe_activateProfile {change : Option TargetChange} {revoked : AuthPolicy}
    {backup : Option Path} (hp : Writable uid change fresh previous revoked)
    (hw : Shut env uid key w) (hb : Backed env uid key backup w) :
    (activateProfile env a uid change key previous revoked backup).run.Safe (handler sys) G
      (Good env uid fresh) (fun _ => Good env uid fresh) w := by
  have hundo : ∀ {i : ℕ} {w : Files}, Shut env uid key w → Backed env uid key backup w →
      (do undoSwap env a uid key i previous backup; throw () :
        ExceptT Unit FileProg Unit).run.Safe (handler sys) G (Good env uid fresh)
        (fun _ => Good env uid fresh) w := fun hw hb =>
    Safe.liftE (safe_undoSwap hw hb hp.previous_wf hp.previous_off) fun _ _ h => h
  refine Safe.liftE (safe_isOk (T := fun b w' => (∀ q, w'.get q = w.get q) ∧ (w.WF → w'.WF) ∧
    (b = true → (view uid w).vault ≠ none)) (safe_verifyInstalled hw)
    (fun _ _ h => ⟨h.1, h.2.1, fun _ => h.2.2 rfl⟩) fun _ _ h => ⟨h.1, h.2.1, fun h => by cases h⟩)
    ?_
  rintro b w₁ ⟨hget, hwf, hvault⟩
  have hsame : SameData w w₁ := ⟨hwf, fun q => contentAt_congr (hget q)⟩
  have hshut₁ := hsame.shut hw
  have hbacked₁ : Backed env uid key backup w₁ := hb.congr fun p _ => hsame.data _
  cases b with
  | false => exact hundo hshut₁ hbacked₁
  | true =>
  have hvault₁ : (view uid w₁).vault ≠ none := by
    rw [hsame.view_eq]
    exact hvault rfl
  refine Safe.liftE (safe_isOk (T := fun _ w' => Good env uid fresh w' ∧
    ∃ enabled, Wrote enabled w₁ w') (safe_writeEnabled hp hshut₁ hvault₁)
    (fun _ _ h => h) fun _ _ h => h) ?_
  rintro b w₂ ⟨hgood₂, enabled, hwrote₂⟩
  cases b with
  | true =>
    have hcommit : Stays sys G (Calm uid) (commitSwap backup) :=
      stays_commitSwap fun p hp q hq => hb.calm hp hq
    exact hcommit.lift.keeps Good.within w₂ hgood₂
  | false =>
  -- the new policy may be in place: it is revoked again before the profile is touched
  have hcomplete₂ : (view uid w₂).Complete := by
    refine hwrote₂.complete ⟨hvault₁, ?_⟩
    rw [hshut₁.key_eq]
    exact Option.some_ne_none _
  have hgood₃ : ∀ w', Wrote revoked w₂ w' → Good env uid fresh w' := fun w' h =>
    h.good hp.revoked_wf (fun _ => hp.revoked_off) (fun _ => hcomplete₂) hgood₂
  refine Safe.liftE (safe_isOk (T := fun b w' => Wrote revoked w₂ w' ∧
    (b = true → contentAt w' (policyPath configDir) = some revoked.toJson))
    (safe_writePolicy.mono (fun w' h => hgood₃ w' h) fun _ _ h => h)
    (fun _ _ h => ⟨h.1, fun _ => h.2 rfl⟩) fun _ _ h => ⟨h.1, fun h => by cases h⟩)
    ?_
  rintro b w₃ ⟨hwrote₃, hrevoked⟩
  cases b with
  | false => exact hgood₃ w₃ hwrote₃
  | true =>
    refine hundo ⟨hwrote₃.holds (hwrote₂.holds hshut₁.toHolds), ?_⟩
      (hwrote₃.backed (hwrote₂.backed hbacked₁))
    exact off_of_written hp.revoked_wf hp.revoked_off (hrevoked rfl)

theorem safe_replaceProfile {change : Option TargetChange} (hw : Good env uid fresh w)
    (hkey : (view uid w).key = some key.bytes)
    (hstaged : OpensAt env uid key (stagingPath a ++ [Name.uid uid] ++ [Name.identityVault]) w)
    (hchange : fresh → change = none) :
    (replaceProfile env a uid change key).run.Safe (handler sys) G (Good env uid fresh)
      (fun _ => Good env uid fresh) w := by
  refine Safe.bindE (safe_loadPolicy hw) (fun previous w₁ h₁ => ?_) fun e w₁ h₁ => ?_
  swap
  · rw [h₁.1]
    exact hw
  obtain ⟨rfl, hdisk⟩ := h₁
  cases hr : previous.revokeUserTargets uid with
  | error e =>
    simp only [revoke, hr]
    exact hw
  | ok revoked =>
  rw [revoke_bind hr]
  have hprevious_off : fresh → ¬ previous.Enables uid := fun hf hen =>
    hw.off hf previous (gives_of_onDisk hdisk hen) hen
  have hp : Writable uid change fresh previous revoked := by
    refine ⟨hdisk.wellFormed, hprevious_off, hdisk.wellFormed.revokeUserTargets hr,
      AuthPolicy.not_enables_revokeUserTargets hr, fun enabled he => ?_, fun enabled he hf => ?_⟩
    · cases change with
      | none =>
        cases he
        exact hdisk.wellFormed
      | some change => exact hdisk.wellFormed.setMode he
    · rw [hchange hf] at he
      cases he
      exact hprevious_off hf
  have hcomplete := hw.complete hdisk
  have hrevoke : ∀ w', Wrote revoked w₁ w' → Good env uid fresh w' := fun w' h =>
    h.good hp.revoked_wf (fun _ => hp.revoked_off) (fun hen => absurd hen hp.revoked_off) hw
  refine Safe.liftE (safe_isOk (T := fun b w' => Wrote revoked w₁ w' ∧
    (b = true → contentAt w' (policyPath configDir) = some revoked.toJson))
    (safe_writePolicy.mono (fun w' h => hrevoke w' h) fun _ _ h => h)
    (fun _ _ h => ⟨h.1, fun _ => h.2 rfl⟩) fun _ _ h => ⟨h.1, fun h => by cases h⟩)
    ?_
  rintro b w₂ ⟨hwrote, hrevoked⟩
  have hgood₂ := hrevoke w₂ hwrote
  cases b with
  | false =>
    have hrestore : ∀ w', Wrote previous w₂ w' → Good env uid fresh w' := fun w' h =>
      h.good hp.previous_wf hp.previous_off (fun hen => hwrote.complete (hcomplete hen)) hgood₂
    refine Safe.liftE (safe_isOk (T := fun _ => Good env uid fresh)
      (safe_writePolicy.mono (fun w' h => hrestore w' h) fun _ w' h => hrestore w' h.1)
      (fun _ _ h => h) fun _ _ h => h) fun _ _ h => h
  | true =>
    have hshut : Shut env uid key w₂ := by
      refine ⟨hwrote.holds (hw.holds hkey), ?_⟩
      exact off_of_written hp.revoked_wf hp.revoked_off (hrevoked rfl)
    have hstaged₂ :
        OpensAt env uid key (stagingPath a ++ [Name.uid uid] ++ [Name.identityVault]) w₂ := by
      have hpath : stagingPath a ++ [Name.uid uid] ++ [Name.identityVault] =
          systemRoot ++ [Name.staging a.pid a.stagingNonce, Name.uid uid, Name.identityVault] := by
        simp [stagingPath]
      intro vault hvault
      rw [hpath, contentAt_congr (hwrote.root _ _), ← hpath] at hvault
      exact hstaged vault hvault
    refine Safe.liftE (safe_value? (T := fun r w' => Shut env uid key w' ∧
      ∀ backup, r = some backup → Backed env uid key backup w')
      (safe_installStagedProfile hshut hstaged₂) (fun backup _ h => ⟨h.1, fun _ hb => ?_⟩)
      fun _ _ h => ⟨h.1, fun _ h => by cases h⟩) fun r w₃ h₃ => ?_
    · obtain rfl := Option.some.inj hb
      exact h.2 _ rfl
    cases r with
    | some backup => exact safe_activateProfile hp h₃.1 (h₃.2 backup rfl)
    | none =>
      exact Safe.liftE (safe_isOk (T := fun _ => Good env uid fresh)
        (safe_restorePreviousPolicy h₃.1 hp.previous_wf hp.previous_off)
        (fun _ _ h => h) fun _ _ h => h) fun _ _ h => h

/-! ## Staging a profile -/

/-- The setup command only succeeds for a user with a profile:
    `[[ -f …/identity.vault ]] || fail`. -/
def Answered (uid : UInt32) (a : Answers) (st : Step FileCall Files) : Prop :=
  st.call = .spawn → st.choice = .ok → a.setupSucceeds = true →
    (view uid st.before).vault ≠ none

theorem safe_runSetup {I : Files → Prop} (hG : ∀ st, G st → Answered uid a st) (hI : I w) :
    (runSetup a).Safe (handler sys) G I (fun b w' => w' = w ∧
      (b = true → (view uid w).vault ≠ none)) w := by
  have hspawn : ∀ {f : FsCall.Reply (.spawn : FileCall) → FileProg Bool},
      (G ⟨.spawn, .ok, w⟩ → (f (.ok ())).Safe (handler sys) G I (fun b w' => w' = w ∧
        (b = true → (view uid w).vault ≠ none)) w) →
      (f (.error .other)).Safe (handler sys) G I (fun b w' => w' = w ∧
        (b = true → (view uid w).vault ≠ none)) w →
      (reply (.spawn : FileCall) >>= f).Safe (handler sys) G I (fun b w' => w' = w ∧
        (b = true → (view uid w).vault ≠ none)) w := by
    refine fun hok herr => ⟨fun _ => hI, hok, ?_⟩
    rintro r ⟨⟩ _
    exact herr
  have hanswer : G ⟨.spawn, .ok, w⟩ → a.setupSucceeds = true → (view uid w).vault ≠ none :=
    fun g => hG _ g rfl rfl
  refine hspawn (fun g => ⟨rfl, hanswer g⟩) (hspawn (fun g => ⟨rfl, hanswer g⟩) ?_)
  exact ⟨rfl, fun h => by cases h⟩

/-- The user has the key, and no profile yet if the key is fresh. -/
structure Keyed (env : Env) (uid : UInt32) (key : MasterKey) (fresh : Prop) (w : Files) : Prop
    where
  good : Good env uid fresh w
  key_eq : (view uid w).key = some key.bytes
  vault_none : fresh → (view uid w).vault = none

theorem Keyed.of_view (h : Keyed env uid key fresh w) (hwf : w'.WF)
    (hview : view uid w' = view uid w) : Keyed env uid key fresh w' := by
  refine ⟨h.good.of_view hwf hview, ?_, ?_⟩
  · rw [hview]
    exact h.key_eq
  · rw [hview]
    exact h.vault_none

theorem Keyed.within (w w' : Files) (h : Within (Calm uid) w w') (hw : Keyed env uid key fresh w) :
    Keyed env uid key fresh w' :=
  hw.of_view (h.wf hw.good.wf) (view_of_within h)

/-- With a lock, which is out of view. -/
theorem safe_withFileLock {body : ExceptT Unit FileProg α} {p : Path} {J : Files → Prop}
    (hJ : ∀ w w', Within (· = p) w w' → J w → J w')
    (hgood : ∀ w, J w → Good env uid fresh w) (hw : J w)
    (hbody : ∀ w, J w → body.run.Safe (handler sys) G (Good env uid fresh)
      (fun _ => Good env uid fresh) w) :
    (withFileLock p body).run.Safe (handler sys) G (Good env uid fresh)
      (fun _ => Good env uid fresh) w := by
  refine safe_stays (stays_lockChildFileNonblocking (S := (· = p)) rfl) hJ hgood hw
    (fun _ w₁ h₁ => ?_) fun _ w₁ h₁ => hgood w₁ h₁
  refine Safe.inScope (hbody w₁ h₁) fun r w₂ h₂ => ?_
  have hunlock : Stays sys G (Calm uid) (ignore (.unlock p) : FileProg Unit) :=
    stays_ignore fun _ hq => hq.elim
  exact hunlock.keeps Good.within w₂ h₂

theorem good_commitVerifiedProfile {change : Option TargetChange}
    (hG : ∀ st, G st → Answered uid a st) (hw : Keyed env uid key fresh w)
    (hstaged : OpensAt env uid key (stagingPath a ++ [Name.uid uid] ++ [Name.identityVault]) w) :
    (commitVerifiedProfile env a uid change key).run.Safe (handler sys) G (Good env uid fresh)
      (fun _ => Good env uid fresh) w := by
  have hprepared : (commitVerifiedProfile.prepared a change).Safe (handler sys) G
      (Good env uid fresh) (fun b w' => w' = w ∧ (b = true → fresh → change = none)) w := by
    cases change with
    | none => exact ⟨rfl, fun _ _ => rfl⟩
    | some change =>
      -- without a profile the target is not prepared
      refine (safe_runSetup hG hw.good).post fun b w₁ h₁ => ⟨h₁.1, fun hb hf => ?_⟩
      exact absurd (hw.vault_none hf) (h₁.2 hb)
  refine Safe.liftE hprepared fun b w₁ h₁ => ?_
  obtain ⟨rfl, hchange⟩ := h₁
  cases b with
  | false => exact hw.good
  | true =>
    refine safe_withFileLock (J := fun w => Keyed env uid key fresh w ∧
      OpensAt env uid key (stagingPath a ++ [Name.uid uid] ++ [Name.identityVault]) w) ?_
      (fun _ h => h.1.good) ⟨hw, hstaged⟩
      fun w₂ h₂ => safe_replaceProfile h₂.1.good h₂.1.key_eq h₂.2 (hchange rfl)
    refine fun w₂ w₃ h₃ h₂ => ⟨h₂.1.within _ _ (h₃.mono fun q hq => hq ▸ calm_policyLock), ?_⟩
    intro vault hvault
    rw [contentAt_congr (h₃.get _ (by simp [stagingPath, systemRoot, policyLock, configDir]))]
      at hvault
    exact h₂.2 vault hvault

end SyncVault

end KFaceAuth
