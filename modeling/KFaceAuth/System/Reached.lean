import KFaceAuth.System.Sound
import KFaceAuth.Vault.RoundTrip

/-!
# Whatever operations were run

`kfaceauth-sync-vault` and `kfaceauth-policy` are run again and again, for any
user, and any of their runs may fail or stop. The states this leads to are those
that are `Reached`.

* `enabled_of_reached`: whatever operations were run, and however they ended, if
  the policy enables a user there is a vault that opens with the key.
* `opens_of_reachedFor`: the same for the operations of one user, from a state that
  may have other users in it.
-/

namespace KFaceAuth

open Prog Fs

namespace SyncVault

variable {sys : Sys Name} {env : Env} {a : Answers} {uid v : UInt32}
  {G : Step FileCall Files → Prop} {w₀ w w' : Files} {policy previous : AuthPolicy}
  {key : MasterKey} {fresh : Prop} {ε α : Type}

/-! ## The staged profile -/

theorem OpensAt.of_content {p : Path} (h : OpensAt env uid key p w)
    (hsame : contentAt w' p = contentAt w p) : OpensAt env uid key p w' := by
  intro vault hvault
  rw [hsame] at hvault
  exact h vault hvault

/-- The staged vault was read again, and opens with the key. -/
theorem safe_checkStaged {I : Files → Prop} (hI : I w) :
    (orFail ((systemVault (stagingPath a) uid).validateIntegrity env key)).run.Safe
      (handler sys) G I (fun r w' => w' = w ∧ (r.isOk →
        OpensAt env uid key (stagingPath a ++ [Name.uid uid] ++ [Name.identityVault]) w)) w := by
  refine safe_orFail (Vault.safe_validateIntegrity hI) (fun _ w₁ h₁ => ⟨h₁.1, fun _ => ?_⟩)
    fun _ w₁ h₁ => ⟨h₁.1, fun h => by cases h⟩
  obtain ⟨-, ⟨n, hn, hdecode⟩, -⟩ := h₁.2 rfl
  have hfile :
      contentAt w (stagingPath a ++ [Name.uid uid] ++ [Name.identityVault]) = some n.data :=
    contentAt_of_get hn
  intro vault hvault
  rw [hfile, Option.some.injEq] at hvault
  exact hvault ▸ hdecode

theorem good_stageProfile {change : Option TargetChange} {input : UserInput}
    (hG : ∀ st, G st → Answered uid a st) (hw : Keyed env uid key fresh w) :
    (stageProfile env a uid change input key).run.Safe (handler sys) G (Good env uid fresh)
      (fun _ => Good env uid fresh) w := by
  have hcalm : ∀ q, stagingPath a <+: q → Calm uid q := fun _ hq => calm_staging hq
  have hdir : Calm uid (stagingPath a ++ [Name.uid uid]) := hcalm _ (List.prefix_append _ _)
  have stays : ∀ {β : Type} {x : ExceptT Unit FileProg β} {f : β → ExceptT Unit FileProg Unit}
      {w : Files}, Stays sys G (Calm uid) x.run → Keyed env uid key fresh w →
      (∀ b w, Keyed env uid key fresh w → (f b).run.Safe (handler sys) G (Good env uid fresh)
        (fun _ => Good env uid fresh) w) →
      (x >>= f).run.Safe (handler sys) G (Good env uid fresh) (fun _ => Good env uid fresh) w :=
    fun hx hw hf => safe_stays hx Keyed.within (fun _ h => h.good) hw hf fun _ _ h => h.good
  refine stays (stays_demand fun q hq => hq ▸ hdir) hw fun _ w₁ h₁ => ?_
  refine stays (stays_look trivial) h₁ fun _ w₂ h₂ => ?_
  refine stays (stays_setFdPermissions hdir) h₂ fun _ w₃ h₃ => ?_
  refine stays (stays_look trivial) h₃ fun _ w₄ h₄ => ?_
  refine stays (stays_orFail stays_openAnchoredProfileSnapshot) h₄ fun r w₅ h₅ => ?_
  refine stays (stays_orFail (stays_commitStaged hcalm fun _ hq => calm_systemRoot hq)) h₅
    fun _ w₆ h₆ => ?_
  refine stays (stays_applySystemProfilePermissions hcalm) h₆ fun _ w₇ h₇ => ?_
  refine Safe.bindE (safe_checkStaged h₇.good) (fun _ w₈ h₈ => ?_) fun e w₈ h₈ => ?_
  swap
  · rw [h₈.1]
    exact h₇.good
  obtain ⟨rfl, hstaged⟩ := h₈
  -- the record of the digests is written beside the vault
  refine safe_stays (S := (· = stagingPath a ++ [Name.uid uid] ++ [Name.identityFreshness]))
    (J := fun w => Keyed env uid key fresh w ∧
      OpensAt env uid key (stagingPath a ++ [Name.uid uid] ++ [Name.identityVault]) w)
    (stays_writeStagedMetadata rfl) ?_ (fun _ h => h.1.good) ⟨h₇, hstaged rfl⟩
    (fun _ w₉ h₉ => good_commitVerifiedProfile hG h₉.1 h₉.2) fun _ _ h => h.1.good
  refine fun w w' h hw => ⟨hw.1.within _ _ (h.mono fun q hq => hq ▸ hcalm _ (staging_above _)),
    hw.2.of_content (contentAt_congr (h.get _ (by simp)))⟩

/-! ## Keys -/

/-- A profile that is missing has no vault. -/
theorem vault_of_noProfile (hw : w.WF) (h : w.get (profilePath uid) = none) :
    (view uid w).vault = none := by
  cases hvault : w.get (vaultPath uid) with
  | none => exact congrArg (Option.map Node.data) hvault
  | some n =>
    have hsome : (w.get (profilePath uid ++ [Name.identityVault])).isSome := by
      change (w.get (vaultPath uid)).isSome
      rw [hvault]
      rfl
    obtain ⟨m, hm, -⟩ := hw.isDir_of_prefix [.identityVault] (by simp) hsome
    rw [h] at hm
    cases hm

/-- There is neither a key nor a vault, and nothing is on. -/
structure Bare (uid : UInt32) (w : Files) : Prop where
  wf : w.WF
  off : (view uid w).Off uid
  key_none : (view uid w).key = none
  vault_none : (view uid w).vault = none

theorem Bare.good (hw : Bare uid w) : Good env uid fresh w := by
  refine ⟨hw.wf, ⟨fun vault hvault => ?_, .inl hw.off⟩, fun _ => hw.off⟩
  rw [hw.vault_none] at hvault
  cases hvault

theorem Bare.of_view (hw : Bare uid w) (hwf : w'.WF) (hview : view uid w' = view uid w) :
    Bare uid w' := by
  refine ⟨hwf, ?_, ?_, ?_⟩
  · rw [hview]
    exact hw.off
  · rw [hview]
    exact hw.key_none
  · rw [hview]
    exact hw.vault_none

theorem Bare.within (w w' : Files) (h : Within (Calm uid) w w') (hw : Bare uid w) : Bare uid w' :=
  hw.of_view (h.wf hw.wf) (view_of_within h)

/-- The key that is read is the one there is. -/
theorem safe_readKeyFile {I : Files → Prop} (hI : I w) :
    (readKeyFile (keyPath uid)).run.Safe (handler sys) G I (fun r w' => w' = w ∧
      ∀ key, r = .ok key → (view uid w).key = some key.bytes) w := by
  refine Safe.look trivial hI (fun _ _ => ?_) fun e _ => ⟨rfl, fun _ => not_ok⟩
  refine Safe.look trivial hI (fun m hm => ?_) fun e _ => ⟨rfl, fun _ => not_ok⟩
  obtain ⟨n, hn, rfl⟩ := hm.fstat
  split_ifs with hbad hmode
  · exact ⟨rfl, fun _ => not_ok⟩
  · exact ⟨rfl, fun _ => not_ok⟩
  refine Safe.look trivial hI (fun bytes hbytes => ?_) fun e _ => ⟨rfl, fun _ => not_ok⟩
  obtain ⟨n', hn', -, rfl⟩ := hbytes.read
  obtain rfl : n = n' := Option.some.inj (hn.symm.trans hn')
  split_ifs with hlen
  · refine ⟨rfl, fun key hkey => ?_⟩
    obtain rfl := Except.ok.inj hkey
    have hsize : n.data.length = keyBytes := by
      simp only [Node.stat, not_or, not_not] at hbad
      exact hbad.2.1
    have hcontent : contentAt w (keyPath uid) = some n.data := contentAt_of_get hn
    rw [view, hcontent]
    exact congrArg some (List.take_of_length_le hsize.le).symm
  · exact ⟨rfl, fun _ => not_ok⟩

/-- A key is loaded, or generated for a user who has neither a key nor a profile. -/
theorem safe_loadOrGenerateSystemKey {I : Files → Prop} (hI : I w) :
    (loadOrGenerateSystemKey env a uid).run.Safe (handler sys) G I (fun r w' => w' = w ∧
      (∀ key, r = .ok (key, false) → (view uid w).key = some key.bytes) ∧
      ∀ key, r = .ok (key, true) →
        w.get (keyPath uid) = none ∧ w.get (profilePath uid) = none) w := by
  refine Safe.liftE (safe_lstat hI) ?_
  rintro r w₁ ⟨rfl, hnone⟩
  rcases r with (_ | _ | _) | _
  rotate_right
  · refine Safe.look trivial hI (fun _ _ => ?_) fun e _ => ⟨rfl, fun _ => not_ok, fun _ => not_ok⟩
    refine Safe.look trivial hI (fun m _ => ?_) fun e _ => ⟨rfl, fun _ => not_ok, fun _ => not_ok⟩
    refine Safe.bindE (safe_groupId hI) (fun gid w₂ h₂ => ?_)
      fun e w₂ h₂ => ⟨h₂.1, fun _ => not_ok, fun _ => not_ok⟩
    rw [h₂.1]
    split_ifs
    · refine Safe.bindE (safe_readKeyFile hI) (fun key w₃ h₃ => ?_)
        fun e w₃ h₃ => ⟨h₃.1, fun _ => not_ok, fun _ => not_ok⟩
      refine ⟨h₃.1, fun key' hkey => ?_, fun _ h => by cases h⟩
      cases hkey
      exact h₃.2 key rfl
    · exact ⟨rfl, fun _ => not_ok, fun _ => not_ok⟩
  · refine Safe.liftE (safe_lstat hI) ?_
    rintro r w₂ ⟨rfl, hprofile⟩
    rcases r with (_ | _ | _) | _
    · refine Safe.look trivial hI (fun _ _ => ?_) fun e _ => ⟨rfl, fun _ => not_ok, fun _ => not_ok⟩
      exact ⟨rfl, (fun _ h => by cases h), fun _ _ => ⟨hnone rfl, hprofile rfl⟩⟩
    · exact ⟨rfl, fun _ => not_ok, fun _ => not_ok⟩
    · exact ⟨rfl, fun _ => not_ok, fun _ => not_ok⟩
    · exact ⟨rfl, fun _ => not_ok, fun _ => not_ok⟩
  · exact ⟨rfl, fun _ => not_ok, fun _ => not_ok⟩
  · exact ⟨rfl, fun _ => not_ok, fun _ => not_ok⟩

/-- Without a key and a profile, nothing is on. -/
theorem Good.bare (hw : Good env uid fresh w) (hkey : w.get (keyPath uid) = none)
    (hprofile : w.get (profilePath uid) = none) : Bare uid w := by
  have hvault := vault_of_noProfile hw.wf hprofile
  have hoff : (view uid w).Off uid := hw.sound.enabled.resolve_right fun hc => hc.vault hvault
  exact ⟨hw.wf, hoff, congrArg (Option.map Node.data) hkey, hvault⟩

theorem key_not_above_vault : ¬ keyPath uid <+: vaultPath uid := by
  rintro ⟨x, hx⟩
  simp [vaultPath, profilePath, systemRoot, keyPath, keysDir] at hx

theorem key_not_above_policy : ¬ keyPath uid <+: policyPath configDir := by
  rintro ⟨x, hx⟩
  simp [keyPath, keysDir, policyPath, configDir] at hx

/-- A key is moved into view. -/
theorem view_moveKeyIn {p : Path} (h : Moves w p (keyPath uid) w')
    (hp : ∀ r, p <+: r → Calm uid r) :
    view uid w' = { view uid w with key := contentAt w p } := by
  have hkey : contentAt w' (keyPath uid) = contentAt w p := by
    have := contentAt_moves h []
    simpa using this
  rw [view, hkey, contentAt_of_moves h (fun hk => not_calm_vault (hp _ hk)) key_not_above_vault,
    contentAt_of_moves h (fun hk => not_calm_policy (hp _ hk)) key_not_above_policy]
  rfl

/-- A key is moved out of view. -/
theorem view_moveKeyOut {q : Path} (h : Moves w (keyPath uid) q w')
    (hq : ∀ r, q <+: r → Calm uid r) :
    view uid w' = { view uid w with key := none } := by
  have hkey : contentAt w' (keyPath uid) = none := by
    rw [contentAt, h.get, if_neg fun hk => not_calm_key (hq _ hk), if_pos List.prefix_rfl]
    rfl
  rw [view, hkey, contentAt_of_moves h key_not_above_vault fun hk => not_calm_vault (hq _ hk),
    contentAt_of_moves h key_not_above_policy fun hk => not_calm_policy (hq _ hk)]
  rfl

theorem Bare.keyed {p : Path} (hw : Bare uid w) (h : Moves w p (keyPath uid) w') (hwf : w'.WF)
    (hp : ∀ r, p <+: r → Calm uid r) (hkey : contentAt w p = some key.bytes) :
    Keyed env uid key fresh w' := by
  have hview := view_moveKeyIn h hp
  have hvault : (view uid w').vault = none := by
    rw [hview]
    exact hw.vault_none
  have hoff : (view uid w').Off uid := by
    rw [hview]
    exact hw.off
  refine ⟨⟨hwf, ⟨fun vault hv => ?_, .inl hoff⟩, fun _ => hoff⟩, ?_, fun _ => hvault⟩
  · rw [hvault] at hv
    cases hv
  · rw [hview]
    exact hkey

/-- Changing the owner of a file keeps the bytes. -/
theorem sameData_of_chown {p : Path} {owner : Option ℕ} {gid : ℕ} {v : Unit}
    (h : exec sys (.chown p owner gid) w = (.ok v, w')) : SameData w w' := by
  obtain ⟨n, hn, hs, -⟩ := exec_chown h
  refine ⟨wf_of_exec h, fun q => ?_⟩
  rcases eq_or_ne q p with rfl | hq
  · rw [contentAt_of_get hn, contentAt_of_get hs.self]
  · exact contentAt_congr (hs.of_ne hq)

theorem sameData_of_chmod {p : Path} {mode : ℕ} {v : Unit}
    (h : exec sys (.chmod p mode) w = (.ok v, w')) : SameData w w' := by
  obtain ⟨n, hn, hs, -⟩ := exec_chmod h
  refine ⟨wf_of_exec h, fun q => ?_⟩
  rcases eq_or_ne q p with rfl | hq
  · rw [contentAt_of_get hn, contentAt_of_get hs.self]
  · exact contentAt_congr (hs.of_ne hq)

theorem safe_shareKey {p : Path} {group : Option ℕ} {I : Files → Prop} (hI : I w) :
    (shareKey p group).Safe (handler sys) G I (fun _ w' => SameData w w') w := by
  cases group with
  | none => exact .refl
  | some gid => exact Safe.ignore hI (fun _ _ h => sameData_of_chown h) fun _ _ => .refl

theorem Bare.sameData (hw : Bare uid w) (h : SameData w w') : Bare uid w' :=
  hw.of_view (h.wf hw.wf) h.view_eq

/-- A new key is written beside its place, and moved there. -/
theorem safe_writeKeyFile (hw : Bare uid w) :
    (writeKeyFile env a uid key).run.Safe (handler sys) G (Good env uid fresh)
      (fun r w' => Good env uid fresh w' ∧ (r.isOk → Keyed env uid key fresh w')) w := by
  have hcalm : ∀ q, keysDir ++ [Name.keyTmp a.keySuffix] <+: q → Calm uid q :=
    fun q hq => calm_keys (by simp) hq
  have htmp : Calm uid (keysDir ++ [Name.keyTmp a.keySuffix]) := hcalm _ List.prefix_rfl
  have hbare : ∀ w, Bare uid w → Good env uid fresh w := fun _ h => h.good
  refine safe_stays (S := Calm uid) (stays_look trivial) Bare.within hbare hw (fun _ w₁ h₁ => ?_)
    fun _ _ h => ⟨h.good, fun h => by cases h⟩
  refine safe_stays (S := Calm uid) (stays_demand fun q hq => hq ▸ htmp) Bare.within hbare h₁
    (fun _ w₂ h₂ => ?_) fun _ _ h => ⟨h.good, fun h => by cases h⟩
  refine Safe.liftE (((stays_value? stays_groupId).keeps Bare.within w₂ h₂).mono hbare
    fun _ _ h => h) fun group w₃ h₃ => ?_
  refine Safe.liftE (((stays_shareKey htmp group).keeps Bare.within w₃ h₃).mono hbare
    fun _ _ h => h) fun _ w₄ h₄ => ?_
  refine Safe.bindE (Q := fun r w' => Good env uid fresh w' ∧ (r.isOk → Keyed env uid key fresh w'))
    (Safe.onError (Q := Post (fun _ w' => Keyed env uid key fresh w') fun _ w' => Bare uid w')
      ?_ (fun _ _ h => ⟨h.good, fun _ => h⟩) fun _ w₅ h₅ => ?_) (fun _ w₅ h₅ => ?_)
    fun _ _ h => ⟨h.1, fun h => by cases h⟩
  · -- the file that is moved has the bytes of the key
    have hstep : ∀ w₅ w₆, SameData w₅ w₆ → Bare uid w₅ ∧
        contentAt w₅ (keysDir ++ [Name.keyTmp a.keySuffix]) = some key.bytes → Bare uid w₆ ∧
        contentAt w₆ (keysDir ++ [Name.keyTmp a.keySuffix]) = some key.bytes :=
      fun w₅ w₆ h h₅ => ⟨h₅.1.sameData h, (h.data _).trans h₅.2⟩
    refine Safe.act trivial h₄.good (fun _ w₅ hx => ?_) fun _ _ => h₄
    obtain ⟨n, -, hset, hlog⟩ := exec_write hx
    have h₅ : Bare uid w₅ ∧
        contentAt w₅ (keysDir ++ [Name.keyTmp a.keySuffix]) = some key.bytes := by
      refine ⟨Bare.within w₄ w₅ ⟨fun q hq => hset.of_ne fun he => hq (he ▸ htmp),
        ⟨[_], hlog, ?_⟩, wf_of_exec hx⟩ h₄, contentAt_of_get hset.self⟩
      rintro e he
      rw [List.mem_singleton.1 he]
      exact htmp
    refine Safe.liftE (safe_shareKey h₅.1.good) fun _ w₆ hd => ?_
    have h₆ := hstep w₅ w₆ hd h₅
    refine Safe.act trivial h₆.1.good (fun _ w₇ hx => ?_) fun _ _ => h₆.1
    have h₇ := hstep w₆ w₇ (sameData_of_chmod hx) h₆
    refine Safe.look trivial h₇.1.good (fun _ _ => ?_) fun _ _ => h₇.1
    refine Safe.last (c := .rename _ _) trivial h₇.1.good (fun _ w₈ hx => ?_) fun _ _ => h₇.1
    obtain ⟨-, -, -, -, hmoves⟩ := exec_rename hx
    exact h₇.1.keyed hmoves (wf_of_exec hx h₇.1.wf) hcalm h₇.2
  · have hunlink : Stays sys G (Calm uid)
        (ignore (.unlink (keysDir ++ [Name.keyTmp a.keySuffix])) : FileProg Unit) :=
      stays_ignore fun q hq => hq ▸ htmp
    exact (hunlink.keeps Bare.within w₅ h₅).mono hbare fun _ _ h => ⟨h.good, fun h => by cases h⟩
  · have hsync : Stays sys G (Calm uid) syncKeys := stays_syncKeys
    have hkeyed := h₅.2 rfl
    exact (hsync.lift.keeps Keyed.within w₅ hkeyed).mono (fun _ h => h.good)
      fun _ _ h => ⟨h.good, fun _ => h⟩

/-- A new key is stored for a user who has nothing; another key is there. -/
theorem safe_storeNewKey {isNew : Bool} (hw : Good env uid fresh w) (hfresh : fresh → isNew = true)
    (hold : isNew = false → (view uid w).key = some key.bytes) (hnew : isNew = true → Bare uid w) :
    (storeNewKey env a uid key isNew).run.Safe (handler sys) G (Good env uid fresh)
      (fun r w' => Good env uid fresh w' ∧ (r.isOk → Keyed env uid key fresh w')) w := by
  cases isNew with
  | false => exact ⟨hw, fun _ => ⟨hw, hold rfl, fun hf => by cases hfresh hf⟩⟩
  | true =>
    have hensure : Stays sys G (Calm uid) (ensureDirExists env keysDir) :=
      stays_ensureDirExists calm_keysDir
    have hverify : Stays sys G (Calm uid) (verifyNewKey env uid).run := stays_verifyNewKey
    refine Safe.bindE (Q := fun r w' => Good env uid fresh w' ∧
      (r.isOk → Keyed env uid key fresh w')) ?_ (fun _ w₁ h₁ => ?_)
      fun _ _ h => ⟨h.1, fun h => by cases h⟩
    · exact Safe.liftE ((hensure.keeps Bare.within w (hnew rfl)).mono (fun _ h => h.good)
        fun _ _ h => h) fun _ w₁ h₁ => safe_writeKeyFile h₁
    · exact (hverify.keeps Keyed.within w₁ (h₁.2 rfl)).mono (fun _ h => h.good)
        fun _ _ h => ⟨h.good, fun _ => h⟩

/-- A fresh key is removed. -/
theorem safe_dropNewKey {isNew : Bool} (hw : Good env uid fresh w) (hnew : isNew = true → fresh) :
    (dropNewKey uid isNew).Safe (handler sys) G (Good env uid False) (fun _ => Good env uid False)
      w := by
  have hold : Good env uid False w := ⟨hw.wf, hw.sound, False.elim⟩
  cases isNew with
  | false => exact hold
  | true =>
    refine Safe.ignore hold (fun _ w₁ hx => ?_) fun _ _ => hold
    obtain ⟨n, -, -, hset, -⟩ := exec_unlink hx
    have hne : vaultPath uid ≠ keyPath uid ∧ policyPath configDir ≠ keyPath uid := by
      constructor <;>
        simp [vaultPath, profilePath, systemRoot, keyPath, keysDir, policyPath, configDir]
    have hview : view uid w₁ = { view uid w with key := none } := by
      have hkey : contentAt w₁ (keyPath uid) = none := congrArg (Option.map Node.data) hset.self
      rw [view, hkey, contentAt_congr (hset.of_ne hne.1), contentAt_congr (hset.of_ne hne.2)]
      rfl
    refine ⟨wf_of_exec hx hw.wf, ⟨?_, .inl ?_⟩, False.elim⟩
    · rw [hview]
      exact fun _ _ _ h => by cases h
    · rw [hview]
      exact hw.off (hnew rfl)

theorem good_syncProfile {change : Option TargetChange} {input : Option UserInput}
    (hG : ∀ st, G st → Answered uid a st) (hw : Good env uid False w) :
    (syncProfile env a uid change input).run.Safe (handler sys) G (Good env uid False)
      (fun _ => Good env uid False) w := by
  have hgood : ∀ {fresh : Prop} w, Good env uid fresh w → Good env uid False w :=
    fun _ h => ⟨h.wf, h.sound, False.elim⟩
  refine safe_stays (S := Calm uid) stays_readUserSessionInput Good.within (fun _ h => h) hw
    (fun input w₁ h₁ => ?_) fun _ _ h => h
  refine Safe.bindE (safe_loadOrGenerateSystemKey h₁) (fun r w₂ h₂ => ?_) fun _ w₂ h₂ => ?_
  swap
  · rw [h₂.1]
    exact h₁
  obtain ⟨key, isNew⟩ := r
  obtain ⟨rfl, hold, hnew⟩ := h₂
  have hbare : isNew = true → Bare uid w₂ := by
    rintro rfl
    exact h₁.bare (hnew key rfl).1 (hnew key rfl).2
  -- until the operation succeeds, a new key counts as fresh
  have hfresh : Good env uid (isNew = true) w₂ := ⟨h₁.wf, h₁.sound, fun hf => (hbare hf).off⟩
  refine Safe.onError (Q := fun _ => Good env uid (isNew = true)) ?_ (fun _ _ h => hgood _ h)
    fun _ w₃ h₃ => safe_dropNewKey h₃ id
  have hremove : Stays sys G (Calm uid) (removeQuietly (stagingPath a)) :=
    stays_removeQuietly fun _ hq => calm_staging hq
  have hbody : (do
      storeNewKey env a uid key isNew
      createStagingDirectory env a
      inScope (stageProfile env a uid change input key) (removeQuietly (stagingPath a)) :
      ExceptT Unit FileProg Unit).run.Safe (handler sys) G (Good env uid (isNew = true))
      (fun _ => Good env uid (isNew = true)) w₂ := by
    refine Safe.bindE (safe_storeNewKey hfresh id (fun hf => hold key (by rw [hf])) hbare)
      (fun _ w₃ h₃ => ?_) fun _ _ h => h.1
    refine safe_stays (S := Calm uid) (stays_createStagingDirectory fun _ hq => calm_staging hq)
      Keyed.within (fun _ h => h.good) (h₃.2 rfl) (fun _ w₄ h₄ => ?_) fun _ _ h => h.good
    exact Safe.inScope (good_stageProfile hG h₄) fun _ w₅ h₅ => hremove.keeps Good.within w₅ h₅
  exact hbody.mono (fun _ h => hgood _ h) fun _ _ h => h

/-! ## Turning a target off, and deleting the profile -/

/-- A change of one mode of the user turns nothing on but the target. -/
theorem enables_of_setMode {target : AuthTarget} {mode : AuthPolicyMode}
    (h : previous.setMode uid target mode = .ok policy) (hp : policy.Enables v) :
    previous.Enables v ∨ (v = uid ∧ mode ≠ .off) := by
  obtain ⟨t, ht⟩ := hp
  rw [AuthPolicy.modeFor_setMode h] at ht
  split_ifs at ht with hc
  · exact .inr ⟨hc.1, ht⟩
  · exact .inl ⟨t, ht⟩

theorem good_disableTarget {target : AuthTarget} (hw : Good env uid False w) :
    (disableTarget env a uid target).run.Safe (handler sys) G (Good env uid False)
      (fun _ => Good env uid False) w := by
  refine safe_withFileLock
    (fun w w' h hw => hw.within _ _ (h.mono fun q hq => hq ▸ calm_policyLock))
    (fun _ h => h) hw fun w₁ h₁ => ?_
  refine Safe.bindE (safe_loadPolicy h₁) (fun previous w₂ h₂ => ?_) fun e w₂ h₂ => ?_
  swap
  · rw [h₂.1]
    exact h₁
  obtain ⟨rfl, hdisk⟩ := h₂
  cases hs : previous.setMode uid target .off with
  | error e => exact h₁
  | ok disabled =>
    have hgood : ∀ w', Wrote disabled w₂ w' → Good env uid False w' := by
      refine fun w' h => h.good (hdisk.wellFormed.setMode hs) False.elim (fun hen => ?_) h₁
      exact h₁.complete hdisk ((enables_of_setMode hs hen).resolve_right fun h => h.2 rfl)
    exact safe_writePolicy.mono hgood fun _ w' h => hgood w' h.1

/-- The names of revoked copies are out of view. -/
theorem ne_of_revoked {n : Name} (h : revokedPrefix v <+: n.text) :
    n ≠ .uid uid ∧ n ≠ .key uid := by
  constructor
  · rintro rfl
    rw [Name.text, ← List.append_nil (decimal _)] at h
    exact not_revoked_of_decimal h
  · rintro rfl
    exact not_revoked_of_decimal h

/-- With nothing on, the vault may be moved out of view, and the key. -/
theorem Good.moveOut {q : Path} (hw : Good env uid True w) (h : Moves w (profilePath uid) q w')
    (hwf : w'.WF) (hq : ∀ r, q <+: r → Calm uid r) : Good env uid True w' := by
  have hview := view_moveOut h hq
  have hoff : (view uid w').Off uid := by
    rw [hview]
    exact hw.off trivial
  refine ⟨hwf, ⟨?_, .inl hoff⟩, fun _ => hoff⟩
  rw [hview]
  exact fun _ h => by cases h

theorem Good.moveKeyOut {q : Path} (hw : Good env uid True w) (h : Moves w (keyPath uid) q w')
    (hwf : w'.WF) (hq : ∀ r, q <+: r → Calm uid r) : Good env uid True w' := by
  have hview := view_moveKeyOut h hq
  have hoff : (view uid w').Off uid := by
    rw [hview]
    exact hw.off trivial
  refine ⟨hwf, ⟨?_, .inl hoff⟩, fun _ => hoff⟩
  rw [hview]
  exact fun _ _ _ h => by cases h

theorem Good.forget (hw : Good env uid fresh w) : Good env uid False w :=
  ⟨hw.wf, hw.sound, False.elim⟩

/-- A profile is moved out of view and back. -/
theorem view_moveBack {q : Path} {w₁ w₂ w₃ : Files} (hout : Moves w₁ (profilePath uid) q w₂)
    (hback : Moves w₂ q (profilePath uid) w₃) (hq : ∀ r, q <+: r → Calm uid r) :
    view uid w₃ = view uid w₁ := by
  rw [view_moveIn hback hq, contentAt_moves hout, view_moveOut hout hq]
  rfl

theorem good_revokeProfile {profileExists keyExists : Bool} (hw : Good env uid False w) :
    (revokeProfile env a uid profileExists keyExists).run.Safe (handler sys) G
      (Good env uid False) (fun _ => Good env uid False) w := by
  have hprofile : ∀ q, systemRoot ++ [Name.revoked uid (toString a.revokedNonce) false] <+: q →
      Calm uid q := fun q hq => calm_root (by simp) hq
  have hkey : ∀ q, keysDir ++ [Name.revoked uid (toString a.revokedNonce) true] <+: q →
      Calm uid q := fun q hq => calm_keys (by simp) hq
  refine Safe.bindE (safe_loadPolicy hw) (fun previous w₁ h₁ => ?_) fun e w₁ h₁ => ?_
  swap
  · rw [h₁.1]
    exact hw
  obtain ⟨rfl, hdisk⟩ := h₁
  cases hr : previous.revokeUserTargets uid with
  | error e =>
    simp only [revoke, hr]
    exact hw
  | ok revoked =>
  rw [revoke_bind hr]
  have hoff := AuthPolicy.not_enables_revokeUserTargets hr
  have hwf := hdisk.wellFormed.revokeUserTargets hr
  have hrevoke : ∀ w', Wrote revoked w₁ w' → Good env uid False w' := fun w' h =>
    h.good hwf False.elim (fun hen => absurd hen hoff) hw
  refine Safe.bindE (safe_writePolicy.mono hrevoke fun _ _ h => h) (fun _ w₂ h₂ => ?_)
    fun _ w₂ h₂ => hrevoke w₂ h₂.1
  have hgood₂ : Good env uid True w₂ := by
    have hgood := hrevoke w₂ h₂.1
    exact ⟨hgood.wf, hgood.sound, fun _ => off_of_written hwf hoff (h₂.2 rfl)⟩
  have hrestore : ∀ w, w.WF → view uid w = view uid w₂ →
      (isOk (writePolicy env a 1 previous)).Safe (handler sys) G (Good env uid False)
        (fun _ => Good env uid False) w := by
    intro w hwf hview
    have hback : ∀ w', Wrote previous w w' → Good env uid False w' := by
      refine fun w' h => h.good hdisk.wellFormed False.elim (fun hen => ?_)
        (hgood₂.of_view hwf hview).forget
      rw [hview]
      exact h₂.1.complete (hw.complete hdisk hen)
    exact safe_isOk (safe_writePolicy.mono hback fun _ w' h => hback w' h.1) (fun _ _ h => h)
      fun _ _ h => h
  refine Safe.liftE (safe_renameIf hgood₂.forget) fun b w₃ h₃ => ?_
  cases b with
  | false =>
    subst h₃
    exact Safe.liftE (hrestore w₃ hgood₂.wf rfl) fun _ _ h => h
  | true =>
  have hgood₃ : Good env uid True w₃ := by
    rcases h₃ with ⟨-, rfl⟩ | ⟨-, hmoves, hwf⟩
    · exact hgood₂
    · exact hgood₂.moveOut hmoves (hwf hgood₂.wf) hprofile
  refine Safe.liftE (safe_renameIf hgood₃.forget) fun b w₄ h₄ => ?_
  cases b with
  | true =>
    have hgood₄ : Good env uid True w₄ := by
      rcases h₄ with ⟨-, rfl⟩ | ⟨-, hmoves, hwf⟩
      · exact hgood₃
      · exact hgood₃.moveKeyOut hmoves (hwf hgood₃.wf) hkey
    have hclear : Stays sys G (Calm uid) (do
        demand (.fsync systemRoot)
        demand (.fsync keysDir)
        clearRevokedCopies env uid
        demand (.fsync systemRoot)
        demand (.fsync keysDir) : ExceptT Unit FileProg Unit).run := by
      refine Stays.bindE (stays_look trivial) fun _ => ?_
      refine Stays.bindE (stays_look trivial) fun _ => ?_
      refine Stays.bindE (stays_clearRevokedCopies
        (fun n q hn hq => calm_root (ne_of_revoked hn).1 hq)
        fun n q hn hq => calm_keys (ne_of_revoked (prefix_of_isRevokedKey hn)).2 hq) fun _ => ?_
      exact Stays.bindE (stays_look trivial) fun _ => stays_look trivial
    exact hclear.keeps Good.within w₄ hgood₄.forget
  | false =>
    subst h₄
    refine Safe.liftE (safe_renameIf hgood₃.forget) fun b w₅ h₅ => ?_
    cases b with
    | false =>
      rw [h₅]
      exact hgood₃.forget
    | true =>
      -- the profile is where it was, or never left
      have hview : w₅.WF ∧ view uid w₅ = view uid w₂ := by
        rcases h₃ with ⟨hno, rfl⟩ | ⟨hyes, hmoves, -⟩
        · rcases h₅ with ⟨-, rfl⟩ | ⟨hyes, -⟩
          · exact ⟨hgood₂.wf, rfl⟩
          · cases hno.symm.trans hyes
        · rcases h₅ with ⟨hno, -⟩ | ⟨-, hback, hwf⟩
          · cases hno.symm.trans hyes
          · exact ⟨hwf hgood₃.wf, view_moveBack hmoves hback hprofile⟩
      exact Safe.liftE (hrestore w₅ hview.1 hview.2) fun _ _ h => h

theorem good_deleteSystemProfile (hw : Good env uid False w) :
    (deleteSystemProfile env a uid).run.Safe (handler sys) G (Good env uid False)
      (fun _ => Good env uid False) w := by
  have hsame : ∀ w', SameData w w' → Good env uid False w' :=
    fun w' h => hw.of_view (h.wf hw.wf) h.view_eq
  refine Safe.bindE (safe_validateAndHardenExistingProfile.mono hsame fun _ _ h => h)
    (fun profileExists w₁ h₁ => ?_) fun _ w₁ h₁ => hsame w₁ h₁.1
  refine safe_stays (S := Calm uid) stays_validateSystemKeyForDeletion Good.within (fun _ h => h)
    (hsame w₁ h₁.1) (fun keyExists w₂ h₂ => ?_) fun _ _ h => h
  exact safe_withFileLock
    (fun w w' h hw => hw.within _ _ (h.mono fun q hq => hq ▸ calm_policyLock)) (fun _ h => h) h₂
    fun w₃ h₃ => good_revokeProfile h₃

/-! ## Operations for another user -/

theorem view_of_aside (hv : uid ≠ v) (h : Within (Aside v) w w') : view uid w' = view uid w := by
  have hvault : ¬ Aside v (vaultPath uid) := fun ha =>
    hv (ha.owner uid (.inl ⟨.uid uid, List.prefix_append _ _, .inl rfl⟩))
  have hkey : ¬ Aside v (keyPath uid) := fun ha =>
    hv (ha.owner uid (.inr ⟨.key uid, List.prefix_rfl, .inl rfl⟩))
  have hpolicy : ¬ Aside v (policyPath configDir) := fun ha => ha.policy rfl
  rw [view, contentAt_congr (h.get _ hvault), contentAt_congr (h.get _ hkey),
    contentAt_congr (h.get _ hpolicy)]
  rfl

/-- The policies that an operation writes turn nothing on for another user. -/
theorem enables_of_writes {op : Operation} (hv : uid ≠ v) (h : op.Writes v previous policy)
    (hp : policy.Enables uid) : previous.Enables uid := by
  have hrevoke : previous.revokeUserTargets v = .ok policy → previous.Enables uid := by
    intro hr
    obtain ⟨t, ht⟩ := hp
    rw [AuthPolicy.modeFor_revokeUserTargets hr, if_neg hv] at ht
    exact ⟨t, ht⟩
  have hset : ∀ {target mode}, previous.setMode v target mode = .ok policy →
      previous.Enables uid := fun hs => (enables_of_setMode hs hp).resolve_right fun h => hv h.1
  have hself : policy = previous → previous.Enables uid := fun h => h ▸ hp
  cases op with
  | enable target mode => exact h.elim hrevoke fun h => h.elim hset hself
  | disable target => exact hset h
  | deleteProfile => exact h.elim hrevoke hself
  | resyncProfile => exact h.elim hrevoke hself

theorem wellFormed_of_writes {op : Operation} (hp : previous.WellFormed)
    (h : op.Writes v previous policy) : policy.WellFormed := by
  have hself : policy = previous → policy.WellFormed := fun h => h ▸ hp
  cases op with
  | enable target mode => exact h.elim hp.revokeUserTargets fun h => h.elim hp.setMode hself
  | disable target => exact hp.setMode h
  | deleteProfile => exact h.elim hp.revokeUserTargets hself
  | resyncProfile => exact h.elim hp.revokeUserTargets hself

theorem carriedBy_good (hv : uid ≠ v) (op : Operation) :
    CarriedBy sys G env a v op (Good env uid False) (Good env uid False) := by
  have hwithin : ∀ w w', Within (Aside v) w w' → Good env uid False w → Good env uid False w' :=
    fun w w' h hw => hw.of_view (h.wf hw.wf) (view_of_aside hv h)
  refine ⟨hwithin, hwithin, fun _ h => h, fun previous w hw hdisk => ?_⟩
  refine ⟨fun w => Good env uid False w ∧ (previous.Enables uid → (view uid w).Complete),
    ⟨hw, hw.complete hdisk⟩, fun _ h => h.1, fun w₁ w₂ h h₁ => ⟨hwithin w₁ w₂ h h₁.1, ?_⟩,
    fun i policy hwrites w₁ h₁ => ?_⟩
  · rw [view_of_aside hv h]
    exact h₁.2
  · have hkept : ∀ w₂, Wrote policy w₁ w₂ → Good env uid False w₂ ∧
        (previous.Enables uid → (view uid w₂).Complete) := by
      refine fun w₂ h => ⟨h.good (wellFormed_of_writes hdisk.wellFormed hwrites) False.elim
        (fun hen => h₁.2 (enables_of_writes hv hwrites hen)) h₁.1, fun hen => ?_⟩
      exact h.complete (h₁.2 hen)
    exact safe_writePolicy.mono hkept fun _ w₂ h => hkept w₂ h.1

/-- An operation for whatever user keeps the view of a user sound. -/
theorem good_perform {input : Option UserInput} {op : Operation}
    (hG : ∀ st, G st → Answered v a st) (hw : Good env uid False w) :
    (perform env a v input op).run.Safe (handler sys) G (Good env uid False)
      (fun _ => Good env uid False) w := by
  rcases eq_or_ne uid v with rfl | hv
  · cases op with
    | enable target mode => exact good_syncProfile hG hw
    | disable target => exact good_disableTarget hw
    | deleteProfile => exact good_deleteSystemProfile hw
    | resyncProfile => exact good_syncProfile hG hw
  · cases op with
    | enable target mode =>
      exact (carriedBy_good hv (syncOperation (some (target, mode)))).safe_syncProfile hw
    | disable target => exact (carriedBy_good hv _).safe_disableTarget hw
    | deleteProfile => exact (carriedBy_good hv _).safe_deleteSystemProfile hw
    | resyncProfile => exact (carriedBy_good hv (syncOperation none)).safe_syncProfile hw

theorem good_main {input : Option UserInput} {op : Operation}
    (hG : ∀ st, G st → Answered v a st) (hw : Good env uid False w) :
    (main env a v input op).run.Safe (handler sys) G (Good env uid False)
      (fun _ => Good env uid False) w := by
  have hanchor : Stays sys G (Calm uid) (anchorDirectories env).run :=
    stays_anchorDirectories (calm_systemRoot List.prefix_rfl) calm_configDir calm_keysDir
  refine safe_stays hanchor Good.within (fun _ h => h) hw (fun _ w₁ h₁ => ?_) fun _ _ h => h
  have hlock : Calm uid (keysDir ++ [Name.syncLock v]) := calm_keys (by simp) List.prefix_rfl
  exact safe_withFileLock (fun w w' h hw => hw.within _ _ (h.mono fun q hq => hq ▸ hlock))
    (fun _ h => h) h₁ fun w₂ h₂ => good_perform hG h₂

end SyncVault

/-! ## Changing the policy -/

namespace PolicyTool

open SyncVault

variable {sys : Sys Name} {env : Env} {a : Answers} {uid v : UInt32}
  {G : Step FileCall Files → Prop} {w w' : Files} {policy previous : AuthPolicy} {S : Path → Prop}
  {target : AuthTarget} {mode : AuthPolicyMode}

theorem stays_configDirectory : Stays sys G S configDirectory.run := by
  refine Stays.bindE (stays_look trivial) fun _ => ?_
  refine Stays.bindE (stays_look trivial) fun m => ?_
  split_ifs
  · exact stays_pure _
  refine Stays.liftE (stays_of_readOnly (calls_reply.2 trivial)) fun r => ?_
  rcases r with e | entry
  · cases e <;> exact stays_pure _
  · dsimp only
    split_ifs
    · exact stays_pure _
    refine Stays.bindE (stays_look trivial) fun _ => ?_
    refine Stays.bindE (stays_look trivial) fun d => ?_
    split_ifs <;> exact stays_pure _

theorem stays_currentPolicy (present : Bool) : Stays sys G S (currentPolicy present).run := by
  cases present with
  | true => exact stays_loadPolicy
  | false => exact stays_pure _

/-- A profile that is ready has a vault and a key. -/
theorem safe_profileIsReady {I : Files → Prop} (hI : I w) :
    (profileIsReady env uid).run.Safe (handler sys) G I
      (fun r w' => w' = w ∧ (r.isOk → (view uid w).Complete)) w := by
  refine Safe.look trivial hI (fun _ _ => ?_) fun e _ => ⟨rfl, fun h => by cases h⟩
  refine Safe.look trivial hI (fun _ _ => ?_) fun e _ => ⟨rfl, fun h => by cases h⟩
  refine Safe.look trivial hI (fun _ _ => ?_) fun e _ => ⟨rfl, fun h => by cases h⟩
  refine Safe.look trivial hI (fun vault hvault => ?_) fun e _ => ⟨rfl, fun h => by cases h⟩
  refine Safe.look trivial hI (fun _ _ => ?_) fun e _ => ⟨rfl, fun h => by cases h⟩
  refine Safe.look trivial hI (fun _ _ => ?_) fun e _ => ⟨rfl, fun h => by cases h⟩
  refine Safe.look trivial hI (fun _ _ => ?_) fun e _ => ⟨rfl, fun h => by cases h⟩
  refine Safe.look trivial hI (fun _ _ => ?_) fun e _ => ⟨rfl, fun h => by cases h⟩
  refine Safe.look trivial hI (fun key hkey => ?_) fun e _ => ⟨rfl, fun h => by cases h⟩
  refine Safe.bindE (safe_groupId hI) (fun gid w₁ h₁ => ?_)
    fun e w₁ h₁ => ⟨h₁.1, fun h => by cases h⟩
  obtain ⟨n, hn, -⟩ := hvault.fstat
  obtain ⟨m, hm, -⟩ := hkey.fstat
  have hcomplete : (view uid w).Complete := by
    have hvault : (view uid w).vault = some n.data := contentAt_of_get hn
    have hkey : (view uid w).key = some m.data := contentAt_of_get hm
    refine ⟨?_, ?_⟩
    · rw [hvault]
      exact Option.some_ne_none _
    · rw [hkey]
      exact Option.some_ne_none _
  split_ifs
  · exact ⟨h₁.1, fun _ => hcomplete⟩
  · exact ⟨h₁.1, fun h => by cases h⟩

/-- What is in view is sound, and complete if a target of the user is turned on. -/
def Ready (env : Env) (uid v : UInt32) (mode : AuthPolicyMode) (w : Files) : Prop :=
  Good env uid False w ∧ (uid = v → mode ≠ .off → (view uid w).Complete)

theorem Ready.within (w w' : Files) (h : Within (Calm uid) w w') (hw : Ready env uid v mode w) :
    Ready env uid v mode w' := by
  refine ⟨hw.1.within _ _ h, ?_⟩
  rw [view_of_within h]
  exact hw.2

theorem safe_checkReady (hw : Good env uid False w) :
    (checkReady env a v mode).run.Safe (handler sys) G (Good env uid False)
      (fun r w' => Good env uid False w' ∧ (r.isOk → Ready env uid v mode w')) w := by
  unfold checkReady
  split_ifs with hmode
  · refine Safe.bindE (safe_profileIsReady hw) (fun _ w₁ h₁ => ?_) fun e w₁ h₁ => ?_
    swap
    · rw [h₁.1]
      exact ⟨hw, fun h => by cases h⟩
    obtain ⟨rfl, hcomplete⟩ := h₁
    have hready : Ready env uid v mode w₁ := by
      refine ⟨hw, ?_⟩
      rintro rfl -
      exact hcomplete rfl
    have hprepare : Stays sys G (Calm uid) (prepareTarget a) := stays_runSetup
    refine Safe.liftE ((hprepare.keeps Ready.within w₁ hready).mono (fun _ h => h.1)
      fun _ _ h => h) fun b w₂ h₂ => ?_
    split_ifs
    · exact ⟨h₂.1, fun _ => h₂⟩
    · exact ⟨h₂.1, fun h => by cases h⟩
  · exact ⟨hw, fun _ => ⟨hw, fun _ h => absurd h hmode⟩⟩

theorem good_changePolicy (hw : Ready env uid v mode w) :
    (changePolicy env a v target mode).run.Safe (handler sys) G (Good env uid False)
      (fun _ => Good env uid False) w := by
  refine Safe.bindE (safe_loadPolicy hw.1) (fun previous w₁ h₁ => ?_) fun e w₁ h₁ => ?_
  swap
  · rw [h₁.1]
    exact hw.1
  obtain ⟨rfl, hdisk⟩ := h₁
  cases hs : previous.setMode v target mode with
  | error e => exact hw.1
  | ok updated =>
  have hcomplete : updated.Enables uid → (view uid w₁).Complete := by
    intro hen
    rcases enables_of_setMode hs hen with hen | ⟨hu, hmode⟩
    · exact hw.1.complete hdisk hen
    · exact hw.2 hu hmode
  have hupdate : ∀ w', Wrote updated w₁ w' → Good env uid False w' := fun w' h =>
    h.good (hdisk.wellFormed.setMode hs) False.elim hcomplete hw.1
  refine Safe.liftE (safe_isOk (T := fun _ w' => Wrote updated w₁ w')
    (safe_writeAtomic.mono hupdate fun _ _ h => h) (fun _ _ h => h.1) fun _ _ h => h.1)
    fun b w₂ h₂ => ?_
  cases b with
  | true => exact hupdate w₂ h₂
  | false =>
    simp only [Bool.false_eq_true, if_false]
    split_ifs
    · have hrestore : ∀ w', Wrote previous w₂ w' → Good env uid False w' := fun w' h =>
        h.good hdisk.wellFormed False.elim (fun hen => h₂.complete (hw.1.complete hdisk hen))
          (hupdate w₂ h₂)
      exact Safe.liftE (safe_isOk (T := fun _ => Good env uid False)
        (safe_writeAtomic.mono hrestore fun _ w' h => hrestore w' h.1) (fun _ _ h => h)
        fun _ _ h => h) fun _ _ h => h
    · exact hupdate w₂ h₂

theorem good_run (hw : Good env uid False w) :
    (run env a v target mode).run.Safe (handler sys) G (Good env uid False)
      (fun _ => Good env uid False) w := by
  have hlock : Calm uid (keysDir ++ [Name.syncLock v]) := calm_keys (by simp) List.prefix_rfl
  refine safe_stays (S := Calm uid) stays_configDirectory Good.within (fun _ h => h) hw
    (fun present w₁ h₁ => ?_) fun _ _ h => h
  refine safe_stays (S := Calm uid) (stays_currentPolicy present) Good.within (fun _ h => h) h₁
    (fun policy w₂ h₂ => ?_) fun _ _ h => h
  split_ifs
  · exact h₂
  · exact h₂
  refine safe_stays (S := Calm uid) (stays_look trivial) Good.within (fun _ h => h) h₂
    (fun _ w₃ h₃ => ?_) fun _ _ h => h
  refine safe_stays (S := Calm uid) (stays_look trivial) Good.within (fun _ h => h) h₃
    (fun _ w₄ h₄ => ?_) fun _ _ h => h
  refine safe_stays (S := Calm uid) (stays_look trivial) Good.within (fun _ h => h) h₄
    (fun _ w₅ h₅ => ?_) fun _ _ h => h
  refine safe_withFileLock (fun w w' h hw => hw.within _ _ (h.mono fun q hq => hq ▸ hlock))
    (fun _ h => h) h₅ fun w₆ h₆ => ?_
  refine Safe.bindE (safe_checkReady h₆) (fun _ w₇ h₇ => ?_) fun _ _ h => h.1
  exact safe_withFileLock
    (fun w w' h hw => Ready.within w w' (h.mono fun q hq => hq ▸ calm_policyLock) hw)
    (fun _ h => h.1) (h₇.2 rfl) fun w₈ h₈ => good_changePolicy h₈

end PolicyTool

/-! ## Reached states -/

open SyncVault

/-- Nothing was installed yet. -/
structure Pristine (w : Files) : Prop where
  wf : w.WF
  policy : w.get (policyPath configDir) = none
  profile : ∀ uid, w.get (profilePath uid) = none
  key : ∀ uid, w.get (keyPath uid) = none

/-- The states that runs of `kfaceauth-sync-vault` and `kfaceauth-policy` lead to,
    whatever happens to other files between them. -/
inductive Reached (env : Env) : Files → Prop
  | start {w : Files} : Pristine w → Reached env w
  | sync {w : Files} (a : Answers) (sys : Sys Name) (uid : UInt32) (input : Option UserInput)
      (op : Operation) (s : List Choice) : Reached env w →
      (∀ st ∈ (main env a uid input op).run.steps (handler sys) s w, Answered uid a st) →
      Reached env ((main env a uid input op).run.run (handler sys) s w).2
  | policy {w : Files} (a : Answers) (sys : Sys Name) (uid : UInt32) (target : AuthTarget)
      (mode : AuthPolicyMode) (s : List Choice) : Reached env w →
      Reached env ((PolicyTool.run env a uid target mode).run.run (handler sys) s w).2
  | other {w w' : Files} : Reached env w → w'.WF →
      (∀ uid q, ¬ Calm uid q → w'.get q = w.get q) → Reached env w'

variable {env : Env} {uid : UInt32} {w : Files}

/-- No target of the user is on, and there is neither a profile nor a key. -/
structure Unprovisioned (uid : UInt32) (w : Files) : Prop where
  wf : w.WF
  policy : ∀ bytes, contentAt w (policyPath configDir) = some bytes →
    ∀ policy, AuthPolicy.parseJson bytes = .ok policy → ¬ policy.Enables uid
  profile : w.get (profilePath uid) = none
  key : w.get (keyPath uid) = none

theorem Pristine.unprovisioned (h : Pristine w) (uid : UInt32) : Unprovisioned uid w := by
  refine ⟨h.wf, fun bytes hbytes => ?_, h.profile uid, h.key uid⟩
  have hnone : contentAt w (policyPath configDir) = none :=
    congrArg (Option.map Node.data) h.policy
  rw [hnone] at hbytes
  cases hbytes

theorem good_of_unprovisioned (h : Unprovisioned uid w) : Good env uid False w := by
  have hvault := vault_of_noProfile h.wf h.profile
  refine ⟨h.wf, ⟨fun vault hv => ?_, .inl fun policy hp => ?_⟩, False.elim⟩
  · rw [hvault] at hv
    cases hv
  · obtain ⟨bytes, hbytes, -, hparse⟩ := hp
    exact h.policy bytes hbytes policy hparse

/-- What holds of the outcome of a run holds of the files it leaves. -/
theorem outcome_files {α : Type} {J : Files → Prop} {r : Option α × Files}
    (h : Outcome J (fun _ => J) r) : J r.2 := by
  rcases r with ⟨_ | _, _⟩ <;> exact h

theorem good_after_main {a : Answers} {sys : Sys Name} {v : UInt32} {input : Option UserInput}
    {op : Operation} {s : List Choice} (hw : Good env uid False w)
    (hsteps : ∀ st ∈ (main env a v input op).run.steps (handler sys) s w, Answered v a st) :
    Good env uid False ((main env a v input op).run.run (handler sys) s w).2 :=
  outcome_files ((good_main (fun _ h => h) hw).run s hsteps)

theorem good_after_policy {a : Answers} {sys : Sys Name} {v : UInt32} {target : AuthTarget}
    {mode : AuthPolicyMode} {s : List Choice} (hw : Good env uid False w) :
    Good env uid False ((PolicyTool.run env a v target mode).run.run (handler sys) s w).2 :=
  outcome_files ((PolicyTool.good_run (G := fun _ => True) hw).run s fun _ _ => trivial)

/-- Other files change. -/
theorem good_of_calm {w' : Files} (hw : Good env uid False w) (hwf : w'.WF)
    (hsame : ∀ q, ¬ Calm uid q → w'.get q = w.get q) : Good env uid False w' := by
  refine hw.of_view hwf ?_
  rw [view, contentAt_congr (hsame _ not_calm_vault), contentAt_congr (hsame _ not_calm_key),
    contentAt_congr (hsame _ not_calm_policy)]
  rfl

theorem good_of_reached (h : Reached env w) : Good env uid False w := by
  induction h with
  | start h => exact good_of_unprovisioned (h.unprovisioned uid)
  | sync a sys v input op s _ hsteps ih => exact good_after_main ih hsteps
  | policy a sys v target mode s _ ih => exact good_after_policy ih
  | other _ hwf hsame ih => exact good_of_calm ih hwf (hsame uid)

/-- A vault and a key that are there open one another. -/
theorem SyncVault.Good.opens (h : Good env uid False w) (hc : (view uid w).Complete) :
    ∃ vault bytes : Node (List UInt8), w.get (vaultPath uid) = some vault ∧
      w.get (keyPath uid) = some bytes ∧
      ∃ key : MasterKey, key.bytes = bytes.data ∧
        (decodeVault env.crypto vault.data key uid).isOk := by
  have hsome : ∀ {p : Path}, contentAt w p ≠ none → ∃ n, w.get p = some n := by
    intro p hp
    cases hn : w.get p with
    | none => exact absurd (congrArg (Option.map Node.data) hn) hp
    | some n => exact ⟨n, rfl⟩
  obtain ⟨vault, hvault⟩ := hsome hc.vault
  obtain ⟨bytes, hbytes⟩ := hsome hc.key
  refine ⟨vault, bytes, hvault, hbytes, ?_⟩
  exact h.sound.opens _ (contentAt_of_get hvault) _ (contentAt_of_get hbytes)

/-- Whatever operations were run, for whatever users, and wherever they failed or
    stopped: if the policy that is loaded turns a target of a user on, the user has a
    vault that opens with the key of the user. -/
theorem enabled_of_reached (h : Reached env w) (sys : Sys Name) (target : AuthTarget)
    {mode : AuthPolicyMode} (hmode : ModeLoaded sys uid target mode w) (hon : mode ≠ .off) :
    ∃ vault bytes : Node (List UInt8), w.get (vaultPath uid) = some vault ∧
      w.get (keyPath uid) = some bytes ∧
      ∃ key : MasterKey, key.bytes = bytes.data ∧
        (decodeVault env.crypto vault.data key uid).isOk := by
  obtain ⟨policy, hload, rfl⟩ := hmode
  have hgood : Good env uid False w := good_of_reached h
  exact hgood.opens (hgood.complete (loaded_iff.1 hload) ⟨target, hon⟩)

/-- Files, each in a directory. -/
theorem wf_of_entries (h : ∀ e ∈ w.entries, e.1 = [] ∨ w.IsDir e.1.dropLast) : w.WF := by
  intro p n hs
  obtain ⟨node, hnode⟩ := isSome_get.1 hs
  rcases h _ hnode with hnil | hdir
  · simp at hnil
  · rwa [List.dropLast_concat] at hdir

/-- A home with a vault in it, and nothing installed. -/
def homeFiles : Files where
  entries := [([], ⟨.dir, 0, 0, 0o755, 1, 0, []⟩), ([.varLib], ⟨.dir, 0, 0, 0o755, 1, 1, []⟩),
    ([.etc], ⟨.dir, 0, 0, 0o755, 1, 2, []⟩),
    ([.other "home"], ⟨.dir, 1000, 1000, 0o700, 1, 3, []⟩),
    ([.other "home", .kfaceauth], ⟨.dir, 1000, 1000, 0o700, 1, 4, []⟩),
    ([.other "home", .kfaceauth, .identityVault], ⟨.file, 1000, 1000, 0o600, 1, 5,
      ((encodeVault plainCrypto threeSamples zeroKey 1000 (List.replicate 12 0)).toOption.getD [])⟩)]
  next := 6
  locks := []
  log := []

theorem pristine_homeFiles : Pristine homeFiles :=
  ⟨wf_of_entries (by decide), rfl, fun _ => rfl, fun _ => rfl⟩

def groupEnv : Env := ⟨plainCrypto, some 5⟩

def syncAnswers (setupSucceeds : Bool) : Answers :=
  { exampleAnswers with draws := ⟨List.replicate 12 0, []⟩, setupSucceeds }

/-- What a run leaves. -/
def filesAfter {α : Type} (r : Option α × Files) : Files := r.2

/-- The profile of the home is installed. -/
def installedFiles : Files :=
  filesAfter ((main groupEnv (syncAnswers false) 1000 (some ⟨[.other "home"], zeroKey⟩)
    .resyncProfile).run.run (handler (.byDepth 0 0 0o22)) [] homeFiles)

/-- The login screen is turned on. -/
def enabledFiles : Files :=
  filesAfter ((PolicyTool.run groupEnv (syncAnswers true) 1000 .sddm .manual).run.run
    (handler (.byDepth 0 0 0o22)) [] installedFiles)

theorem reached_filesAfter {α : Type} {r : Option α × Files} (h : Reached env r.2) :
    Reached env (filesAfter r) := h

theorem reached_installedFiles : Reached groupEnv installedFiles := by
  refine reached_filesAfter (.sync _ _ _ _ _ _ (.start pristine_homeFiles) ?_)
  intro st _ _ _ hsetup
  cases hsetup

theorem reached_enabledFiles : Reached groupEnv enabledFiles :=
  reached_filesAfter (.policy _ _ _ _ _ _ reached_installedFiles)

/-- The mode in a policy that was loaded. -/
def loadedMode (uid : UInt32) (target : AuthTarget) :
    Option (Except AuthPolicyError AuthPolicy) → Option AuthPolicyMode
  | some (.ok policy) => some (policy.modeFor uid target)
  | _ => none

theorem modeLoaded_of_run (h : loadedMode uid target
    ((loadFromDirectory configDir).run.run (handler sys) [] w).1 = some mode) :
    ModeLoaded sys uid target mode w := by
  rcases hr : ((loadFromDirectory configDir).run.run (handler sys) [] w).1 with _ | _ | policy
  · rw [hr] at h
    cases h
  · rw [hr] at h
    cases h
  · rw [hr] at h
    exact ⟨policy, hr, Option.some.inj h⟩

set_option maxRecDepth 100000 in
theorem modeLoaded_enabledFiles :
    ModeLoaded (.byDepth 0 0 0o22) 1000 .sddm .manual enabledFiles :=
  modeLoaded_of_run (by decide +kernel)

theorem enabled_of_reached_home :
    ∃ vault bytes : Node (List UInt8), enabledFiles.get (vaultPath 1000) = some vault ∧
      enabledFiles.get (keyPath 1000) = some bytes ∧
      ∃ key : MasterKey, key.bytes = bytes.data ∧
        (decodeVault plainCrypto vault.data key 1000).isOk :=
  enabled_of_reached reached_enabledFiles (.byDepth 0 0 0o22) .sddm modeLoaded_enabledFiles
    (by decide)

/-! ## One user -/

/-- The states that the runs for one user lead to: each may fail or stop at any call,
    and between them files that are out of view may change. -/
inductive ReachedFor (env : Env) (uid : UInt32) : Files → Prop
  | start {w : Files} : Unprovisioned uid w → ReachedFor env uid w
  | sync {w : Files} (a : Answers) (sys : Sys Name) (input : Option UserInput) (op : Operation)
      (s : List Choice) : ReachedFor env uid w →
      (∀ st ∈ (main env a uid input op).run.steps (handler sys) s w, Answered uid a st) →
      ReachedFor env uid ((main env a uid input op).run.run (handler sys) s w).2
  | policy {w : Files} (a : Answers) (sys : Sys Name) (target : AuthTarget)
      (mode : AuthPolicyMode) (s : List Choice) : ReachedFor env uid w →
      ReachedFor env uid ((PolicyTool.run env a uid target mode).run.run (handler sys) s w).2
  | other {w w' : Files} : ReachedFor env uid w → w'.WF →
      (∀ q, ¬ Calm uid q → w'.get q = w.get q) → ReachedFor env uid w'

theorem good_of_reachedFor (h : ReachedFor env uid w) : Good env uid False w := by
  induction h with
  | start h => exact good_of_unprovisioned h
  | sync a sys input op s _ hsteps ih => exact good_after_main ih hsteps
  | policy a sys target mode s _ ih => exact good_after_policy ih
  | other _ hwf hsame ih => exact good_of_calm ih hwf hsame

/-- From a state without an entry, a profile and a key of the user, whatever operations
    were run for the user and wherever they failed or stopped: if the policy file turns a
    target of the user on, there is a vault that opens with the key. -/
theorem opens_of_reachedFor (h : ReachedFor env uid w) {bytes : List UInt8}
    (hfile : contentAt w (policyPath configDir) = some bytes) {policy : AuthPolicy}
    (hparse : AuthPolicy.parseJson bytes = .ok policy) {target : AuthTarget}
    (hon : policy.modeFor uid target ≠ .off) :
    ∃ vault stored : Node (List UInt8), w.get (vaultPath uid) = some vault ∧
      w.get (keyPath uid) = some stored ∧
      ∃ key : MasterKey, key.bytes = stored.data ∧
        (decodeVault env.crypto vault.data key uid).isOk := by
  have hgood := good_of_reachedFor h
  have hgives : (view uid w).Gives policy :=
    ⟨bytes, hfile, AuthPolicy.length_le_of_parseJson hparse, hparse⟩
  exact hgood.opens (hgood.sound.enabled.resolve_left fun hoff => hoff policy hgives ⟨target, hon⟩)

/-- A mode that is loaded stands in the policy file. -/
theorem file_of_modeLoaded {target : AuthTarget} {mode : AuthPolicyMode} {sys : Sys Name}
    (h : ModeLoaded sys uid target mode w) (hon : mode ≠ .off) :
    ∃ bytes policy, contentAt w (policyPath configDir) = some bytes ∧
      AuthPolicy.parseJson bytes = .ok policy ∧ policy.modeFor uid target ≠ .off := by
  obtain ⟨policy, hload, rfl⟩ := h
  obtain ⟨bytes, hfile, -, hparse⟩ := gives_of_onDisk (loaded_iff.1 hload) ⟨target, hon⟩
  exact ⟨bytes, policy, hfile, hparse, hon⟩

theorem reachedFor_filesAfter {α : Type} {r : Option α × Files} (h : ReachedFor env uid r.2) :
    ReachedFor env uid (filesAfter r) := h

theorem reachedFor_enabledFiles : ReachedFor groupEnv 1000 enabledFiles := by
  refine reachedFor_filesAfter (.policy _ _ _ _ _ (reachedFor_filesAfter (.sync _ _ _ _ _
    (.start (pristine_homeFiles.unprovisioned 1000)) ?_)))
  intro st _ _ _ hsetup
  cases hsetup

theorem opens_of_reachedFor_home :
    ∃ vault stored : Node (List UInt8), enabledFiles.get (vaultPath 1000) = some vault ∧
      enabledFiles.get (keyPath 1000) = some stored ∧
      ∃ key : MasterKey, key.bytes = stored.data ∧
        (decodeVault plainCrypto vault.data key 1000).isOk := by
  obtain ⟨bytes, policy, hfile, hparse, hon⟩ :=
    file_of_modeLoaded modeLoaded_enabledFiles (by decide)
  exact opens_of_reachedFor reachedFor_enabledFiles hfile hparse hon

end KFaceAuth
