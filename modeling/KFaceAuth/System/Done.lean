import KFaceAuth.Lib.Succeeds
import KFaceAuth.System.Reached
import KFaceAuth.Vault.Atomic

/-!
# What a successful operation has done

An operation of `kfaceauth-sync-vault` goes on after some failures, and undoes its
work after others. When it reports success, what was asked for has been done,
whatever failed on the way.

* `policy_of_main`: the policy that is loaded has the requested change, and no other;
* `profile_of_main`: after a synchronization the system vault opens, with the key that
  is stored, to the profile of the user vault;
* `nothing_of_main`: after a deletion nothing is left of the profile, of the key and of
  their revoked copies.
-/

namespace KFaceAuth

open Prog Fs

namespace SyncVault

variable {sys : Sys Name} {env : Env} {a : Answers} {uid : UInt32} {w w' : Files}
  {policy previous : AuthPolicy} {key : MasterKey} {α β : Type} {P J : Files → Prop}
  {R : β → Files → Prop}

/-! ## Rules -/

/-- A file call that only looks. -/
theorem succeeds_look {c : FileCall} (hc : ReadOnly c) :
    Succeeds sys P (demand c) fun v w => P w ∧ Replies sys (fun _ => True) c w v := by
  intro w hw
  refine Safe.io (fun _ => trivial) (fun v w' _ hx => ?_) (fun v g h => ?_) fun e _ _ => not_ok
  · obtain rfl := exec_readOnly hx hc
    rintro _ ⟨⟩
    exact ⟨hw, .inl (by rw [hx])⟩
  · rintro _ ⟨⟩
    exact ⟨hw, .inr ⟨⟨c, w, g⟩, h⟩⟩

theorem succeeds_skip {c : FileCall} (hc : ReadOnly c) : Succeeds sys P (demand c) fun _ => P :=
  (succeeds_look hc).mono (fun _ h => h) fun _ _ h => h.1

theorem succeeds_act {c : FileCall} (hc : c.Errs) {Q : c.Value → Files → Prop}
    (h : ∀ v w w', P w → exec sys c w = (.ok v, w') → Q v w') : Succeeds sys P (demand c) Q := by
  intro w hw
  refine Safe.last hc trivial (fun v w' hx => ?_) fun _ _ => (fun _ => not_ok)
  rintro _ ⟨⟩
  exact h v w w' hw hx

/-- A branch on success, whose other branch only fails. -/
theorem succeeds_ifOk {x : ExceptT Unit FileProg α} {y z : ExceptT Unit FileProg β}
    (hx : Succeeds sys P x fun _ => J) (hy : Succeeds sys J y R)
    (hz : ∀ P, Succeeds sys P z R) :
    Succeeds sys P (do if ← isOk x then y else z) R := by
  refine Succeeds.lift (Q := fun b w => b = true → J w) (fun w hw => ?_) fun b => ?_
  · exact safe_isOk (hx w hw) (fun a _ h _ => h a rfl) fun _ _ _ => (fun h => by cases h)
  · cases b with
    | false => exact hz _
    | true => exact hy.mono (fun _ h => h rfl) fun _ _ h => h

/-- A rename that may be needed, and a branch that only fails. -/
theorem succeeds_ifRename {needed : Bool} {p q : Path} {y z : ExceptT Unit FileProg β}
    (hno : ∀ w, needed = false → P w → J w)
    (hyes : ∀ w w', needed = true → Moves w p q w' → (w.WF → w'.WF) → P w → J w')
    (hy : Succeeds sys J y R) (hz : ∀ P, Succeeds sys P z R) :
    Succeeds sys P (do if ← renameIf needed p q then y else z) R := by
  refine Succeeds.lift (Q := fun b w => b = true → J w) (fun w hw => ?_) fun b => ?_
  · refine (safe_renameIf trivial).post fun b w' h hb => ?_
    subst hb
    rcases h with ⟨hn, rfl⟩ | ⟨hn, hmoves, hwf⟩
    · exact hno w' hn hw
    · exact hyes w w' hn hmoves hwf hw
  · cases b with
    | false => exact hz _
    | true => exact hy.mono (fun _ h => h rfl) fun _ _ h => h

theorem succeeds_withFileLock {body : ExceptT Unit FileProg α} {p : Path} {Q : α → Files → Prop}
    (hP : ∀ w w', Within (· = p) w w' → P w → P w') (hbody : Succeeds sys P body Q)
    (hQ : ∀ a w w', Within (fun _ => False) w w' → Q a w → Q a w') :
    Succeeds sys P (withFileLock p body) Q := by
  have hlock : Stays sys (fun _ => True) (· = p) (lockChildFileNonblocking p).run :=
    stays_lockChildFileNonblocking rfl
  have hunlock : Stays sys (fun _ => True) (fun _ => False) (ignore (.unlock p) : FileProg Unit) :=
    stays_ignore fun _ hq => hq.elim
  exact (hlock.succeeds hP).bind fun _ => hbody.inScope hunlock hQ

theorem succeeds_orFail {ε : Type} {x : ExceptT ε FileProg α} {Q : α → Files → Prop}
    (h : Succeeds sys P x Q) : Succeeds sys P (KFaceAuth.orFail x) Q :=
  fun w hw => safe_orFail (h w hw) (fun a _ h _ hb => Except.ok.inj hb ▸ h a rfl)
    fun _ _ _ _ => not_ok

/-! ## The policy -/

/-- A policy that was written was read again. -/
theorem succeeds_writePolicy {i : ℕ} (hP : ∀ w w', Wrote policy w w' → P w → J w') :
    Succeeds sys P (writePolicy env a i policy) fun _ w => J w ∧ OnDisk w configDir policy := by
  refine Succeeds.bind (Q := fun _ => J) ?_ fun _ => ?_
  · exact succeeds_of_safe (T := fun w _ w' => Wrote policy w w') (fun w _ =>
      safe_orFail safe_writeAtomic (fun _ _ h => h.1) fun _ _ h => h.1)
      fun w hw _ w' h => hP w w' h hw
  · refine Succeeds.bind (Q := fun read w => J w ∧ OnDisk w configDir read) ?_ fun read => ?_
    · refine succeeds_of_safe (fun w hw => safe_loadPolicy hw) fun w hw read w' h => ?_
      rw [h.1]
      exact ⟨hw, h.2⟩
    · refine Succeeds.ite (fun _ => succeeds_throw) fun hread => succeeds_pure fun w hw => ?_
      rw [← not_not.1 hread]
      exact hw

/-- The policy file reads as `policy`. Without a file everything is off. -/
def Reads (policy : AuthPolicy) (w : Files) : Prop :=
  match contentAt w (policyPath configDir) with
  | some bytes => AuthPolicy.parseJson bytes = .ok policy
  | none => policy = default

theorem reads_of_onDisk (h : OnDisk w configDir policy) : Reads policy w := by
  rcases h with ⟨-, n, hn, -, hparse⟩ | ⟨-, hnone, rfl⟩
  · rw [Reads, contentAt_of_get hn]
    exact hparse
  · rw [Reads, contentAt, hnone]
    rfl

/-- The policy file reads as nothing else than `policy`. -/
def Before (policy : AuthPolicy) (w : Files) : Prop := ∀ p, Reads p w → p = policy

theorem before_of_reads (h : Reads policy w) : Before policy w := by
  intro p hp
  unfold Reads at h hp
  cases hc : contentAt w (policyPath configDir) with
  | some bytes =>
    rw [hc] at h hp
    exact Except.ok.inj (hp.symm.trans h)
  | none =>
    rw [hc] at h hp
    exact hp.trans h.symm

theorem exists_before (w : Files) : ∃ policy, Before policy w := by
  by_cases h : ∃ policy, Reads policy w
  · obtain ⟨policy, h⟩ := h
    exact ⟨policy, before_of_reads h⟩
  · exact ⟨default, fun p hp => absurd ⟨p, hp⟩ h⟩

theorem before_of_within {S : Path → Prop} (h : Within S w w') (hS : ¬ S (policyPath configDir))
    (hw : Before policy w) : Before policy w' := by
  intro p hp
  rw [Reads, contentAt_congr (h.get _ hS)] at hp
  exact hw p hp

theorem before_of_aside (w w' : Files) (h : Within (Aside uid) w w') (hw : Before policy w) :
    Before policy w' :=
  before_of_within h (fun ha => ha.policy rfl) hw

theorem before_of_lock (w w' : Files) (h : Within (· = policyLock) w w') (hw : Before policy w) :
    Before policy w' :=
  before_of_within h (by simp [policyPath, policyLock]) hw

/-- The policy that is found is the one of the policy file. -/
theorem succeeds_withPolicy {f : AuthPolicy → ExceptT Unit FileProg β}
    (hP : ∀ w, P w → Before previous w) (hf : Succeeds sys P (f previous) R) :
    Succeeds sys P (loadPolicy >>= f) R := by
  refine Succeeds.bind (Q := fun found w => P w ∧ found = previous) ?_ fun found => ?_
  · refine succeeds_of_safe (fun w hw => safe_loadPolicy hw) fun w hw found w' h => ?_
    rw [h.1]
    exact ⟨hw, hP w hw _ (reads_of_onDisk h.2)⟩
  · intro w hw
    obtain ⟨hw, rfl⟩ := hw
    exact hf w hw

/-- The policy on disk is out of reach of what stays aside. -/
theorem onDisk_of_aside (w w' : Files) (h : Within (Aside uid) w w')
    (hw : OnDisk w configDir policy) : OnDisk w' configDir policy :=
  (onDisk_congr (h.get _ fun ha => ha.directory rfl) (h.get _ fun ha => ha.policy rfl)).2 hw

theorem onDisk_of_quiet (w w' : Files) (h : Within (fun _ => False) w w')
    (hw : OnDisk w configDir policy) : OnDisk w' configDir policy :=
  (onDisk_congr (h.get _ id) (h.get _ id)).2 hw

theorem succeeds_disableTarget {target : AuthTarget} :
    Succeeds sys (Before previous) (disableTarget env a uid target)
      fun _ w => ∃ policy, previous.setMode uid target .off = .ok policy ∧
        OnDisk w configDir policy := by
  refine succeeds_withFileLock before_of_lock (succeeds_withPolicy (fun _ h => h) ?_) ?_
  · cases hs : previous.setMode uid target .off with
    | error e => exact succeeds_throw
    | ok disabled =>
      exact (succeeds_writePolicy (J := fun _ => True) fun _ _ _ _ => trivial).mono (fun _ h => h)
        fun _ w h => ⟨disabled, rfl, h.2⟩
  · rintro _ w w' h ⟨policy, hs, hdisk⟩
    exact ⟨policy, hs, onDisk_of_quiet w w' h hdisk⟩

/-! ## Deleting -/

/-- There is nothing at a path, and nothing below it. -/
def Vacant (p : Path) (w : Files) : Prop := ∀ q, p <+: q → w.get q = none

theorem vacant_of_none {p : Path} (hw : w.WF) (h : w.get p = none) : Vacant p w := by
  rintro q ⟨x, rfl⟩
  rcases eq_or_ne x [] with rfl | hx
  · rwa [List.append_nil]
  by_contra hsome
  obtain ⟨n, hn, -⟩ := hw.isDir_of_prefix x hx (Option.isSome_iff_ne_none.2 hsome)
  rw [h] at hn
  cases hn

theorem Vacant.pruned {p d : Path} (h : Vacant p w) (hp : Pruned d w w') : Vacant p w' := by
  intro q hq
  rcases hp.get q with hsame | ⟨-, hnone⟩
  · rw [hsame]
    exact h q hq
  · exact hnone

/-- Removing what is below one entry of a directory. -/
theorem pruned_of_child {d : Path} {n : Name} (h : Pruned (d ++ [n]) w w') : Pruned d w w' :=
  ⟨fun q => (h.get q).imp_right fun hq => ⟨(List.prefix_append _ _).trans hq.1, hq.2⟩, h.locks,
    h.log, h.wf⟩

/-- The loop removes the selected entries. -/
theorem safe_clearEntries {selected : Name → Bool} {valid : Stat → Bool}
    {remove : Path → ExceptT Unit FileProg Unit} {dir : Path}
    (hremove : ∀ n w, w.WF → (remove (dir ++ [n])).run.Safe (handler sys) (fun _ => True)
      (fun _ => True) (fun r w' => r = .ok () →
        Pruned (dir ++ [n]) w w' ∧ Vacant (dir ++ [n]) w') w)
    (ps : List Path) (hw : w.WF) :
    (clearEntries selected valid remove dir ps).run.Safe (handler sys) (fun _ => True)
      (fun _ => True) (fun r w' => r = .ok () → Pruned dir w w' ∧
        ∀ p ∈ ps, ∀ n, p.getLast? = some n → selected n → Vacant (dir ++ [n]) w') w := by
  induction ps generalizing w with
  | nil => exact fun _ => ⟨.refl _ _, fun _ h => by cases h⟩
  | cons p ps ih =>
    -- an entry that is passed over is not selected
    have hskip : (∀ n, p.getLast? = some n → selected n = false) →
        (clearEntries selected valid remove dir ps).run.Safe (handler sys) (fun _ => True)
          (fun _ => True) (fun r w' => r = .ok () → Pruned dir w w' ∧
            ∀ p' ∈ p :: ps, ∀ n, p'.getLast? = some n → selected n → Vacant (dir ++ [n]) w') w := by
      refine fun hp => (ih hw).post fun r w' h hr => ⟨(h hr).1, fun p' hp' n hn hs => ?_⟩
      rcases List.mem_cons.1 hp' with rfl | hp'
      · rw [hp n hn] at hs
        cases hs
      · exact (h hr).2 p' hp' n hn hs
    unfold clearEntries
    cases hlast : p.getLast? with
    | none => exact hskip (by simp [hlast])
    | some name =>
      dsimp only
      split_ifs with hs
      · refine Safe.look trivial trivial (fun m _ => ?_) fun e _ => not_ok
        split_ifs
        · refine Safe.bindE (hremove name w hw) (fun _ w₁ h₁ => ?_) fun _ _ _ => not_ok
          obtain ⟨hpruned, hvacant⟩ := h₁ rfl
          refine (ih (hpruned.wf hw)).post fun r w₂ h₂ hr => ?_
          obtain ⟨hrest, hall⟩ := h₂ hr
          refine ⟨(pruned_of_child hpruned).trans hrest, fun p' hp' n hn hsel => ?_⟩
          rcases List.mem_cons.1 hp' with rfl | hp'
          · rw [hlast, Option.some.injEq] at hn
            subst hn
            exact hvacant.pruned hrest
          · exact hall p' hp' n hn hsel
        · exact not_ok
      · refine hskip fun n hn => ?_
        rw [hlast, Option.some.injEq] at hn
        subst hn
        simpa using hs

/-- Every entry of a directory is listed. -/
theorem mem_of_readDir {ps : List Path} {d : Path} {n : Name}
    (h : Replies sys (fun _ => True) (.readDir d) w ps) (hn : (w.get (d ++ [n])).isSome) :
    d ++ [n] ∈ ps := by
  rw [h.readDir]
  refine (sys.perm _).mem_iff.2 (mem_paths.2 ⟨hn, ?_⟩)
  simp

/-- After the loop over a directory, no selected entry is left. -/
theorem safe_clearDirectory {selected : Name → Bool} {valid : Stat → Bool}
    {remove : Path → ExceptT Unit FileProg Unit} {dir : Path} {ps : List Path}
    (hremove : ∀ n w, w.WF → (remove (dir ++ [n])).run.Safe (handler sys) (fun _ => True)
      (fun _ => True) (fun r w' => r = .ok () →
        Pruned (dir ++ [n]) w w' ∧ Vacant (dir ++ [n]) w') w)
    (hw : w.WF) (hps : Replies sys (fun _ => True) (.readDir dir) w ps) :
    (clearEntries selected valid remove dir ps).run.Safe (handler sys) (fun _ => True)
      (fun _ => True) (fun r w' => r = .ok () → Pruned dir w w' ∧
        ∀ n, selected n → Vacant (dir ++ [n]) w') w := by
  refine (safe_clearEntries hremove ps hw).post fun r w' h hr => ⟨(h hr).1, fun n hn => ?_⟩
  cases hget : w.get (dir ++ [n]) with
  | none => exact (vacant_of_none hw hget).pruned (h hr).1
  | some node =>
    exact (h hr).2 _ (mem_of_readDir hps (by rw [hget]; rfl)) n List.getLast?_concat hn

theorem safe_removeTree (p : Path) (hw : w.WF) :
    (orFail (removeDirAll p)).run.Safe (handler sys) (fun _ => True) (fun _ => True)
      (fun r w' => r = .ok () → Pruned p w w' ∧ Vacant p w') w :=
  safe_orFail ((safe_removeDirAll p).mono (fun _ _ => trivial) fun _ _ h => h)
    (fun _ _ h _ => ⟨h.1, h.2 (.inr hw)⟩) fun _ _ _ => not_ok

theorem safe_removeFile (p : Path) (hw : w.WF) :
    (demand (.unlink p)).run.Safe (handler sys) (fun _ => True) (fun _ => True)
      (fun r w' => r = .ok () → Pruned p w w' ∧ Vacant p w') w := by
  refine Safe.last (c := .unlink p) trivial trivial (fun _ w₁ hx _ => ?_) fun _ _ => not_ok
  obtain ⟨n, -, -, hset, hlog⟩ := exec_unlink hx
  exact ⟨.of_sets List.prefix_rfl hset hlog (wf_of_exec hx),
    vacant_of_none (wf_of_exec hx hw) hset.self⟩

/-- No revoked copy of the profile or the key is left. -/
structure NoCopies (uid : UInt32) (w : Files) : Prop where
  profile : ∀ n, isRevoked uid n → Vacant (systemRoot ++ [n]) w
  key : ∀ n, isRevokedKey uid n → Vacant (keysDir ++ [n]) w

/-- The policy is not in the system vault, nor among the keys. -/
theorem onDisk_of_pruned {d : Path} (hd : d = systemRoot ∨ d = keysDir) (h : Pruned d w w')
    (hw : OnDisk w configDir policy) : OnDisk w' configDir policy := by
  have hnot : ¬ d <+: configDir ∧ ¬ d <+: policyPath configDir := by
    rcases hd with rfl | rfl
    · constructor <;> rintro ⟨x, hx⟩ <;> simp [systemRoot, configDir, policyPath] at hx
    · constructor <;> rintro ⟨x, hx⟩ <;> simp [keysDir, configDir, policyPath] at hx
  exact (onDisk_congr (h.of_not_prefix hnot.1) (h.of_not_prefix hnot.2)).2 hw

/-- What is kept, and what is gone, after the copies were cleared. -/
structure Deleted (uid : UInt32) (policy : AuthPolicy) (w : Files) : Prop where
  wf : w.WF
  policy : OnDisk w configDir policy
  profile : Vacant (profilePath uid) w
  key : Vacant (keyPath uid) w

theorem Deleted.pruned {d : Path} (h : Deleted uid policy w) (hd : d = systemRoot ∨ d = keysDir)
    (hp : Pruned d w w') : Deleted uid policy w' :=
  ⟨hp.wf h.wf, onDisk_of_pruned hd hp h.policy, h.profile.pruned hp, h.key.pruned hp⟩

theorem succeeds_clearRevokedCopies :
    Succeeds sys (Deleted uid policy) (clearRevokedCopies env uid)
      fun _ w => Deleted uid policy w ∧ NoCopies uid w := by
  have hgroup : Stays sys (fun _ => True) (fun _ => False) (groupId env [] .kfaceauth).run :=
    stays_groupId
  refine Succeeds.bind (hgroup.succeeds fun w w' h hw => ?_) fun gid => ?_
  · exact ⟨h.wf hw.wf, onDisk_of_quiet w w' h hw.policy,
      fun q hq => (h.get q id).trans (hw.profile q hq),
      fun q hq => (h.get q id).trans (hw.key q hq)⟩
  refine Succeeds.bind (succeeds_look trivial) fun profiles => ?_
  refine Succeeds.bind (Q := fun _ w => Deleted uid policy w ∧
    ∀ n, isRevoked uid n → Vacant (systemRoot ++ [n]) w) ?_ fun _ => ?_
  · refine succeeds_of_safe (fun w hw => safe_clearDirectory (fun n w hw => safe_removeTree _ hw)
      hw.1.wf hw.2) fun w hw _ w' h => ?_
    exact ⟨hw.1.pruned (.inl rfl) (h rfl).1, (h rfl).2⟩
  refine Succeeds.bind (succeeds_look trivial) fun keys => ?_
  refine succeeds_of_safe (fun w hw => safe_clearDirectory (fun n w hw => safe_removeFile _ hw)
    hw.1.1.wf hw.2) fun w hw _ w' h => ?_
  exact ⟨hw.1.1.pruned (.inr rfl) (h rfl).1,
    fun n hn => (hw.1.2 n hn).pruned (h rfl).1, (h rfl).2⟩

/-- What is left of a tree after it is moved. -/
theorem vacant_of_moves {p q : Path} (h : Moves w p q w') (hne : ∀ r, p <+: r → ¬ q <+: r) :
    Vacant p w' := by
  intro r hr
  rw [h.get, if_neg (hne r hr), if_pos hr]

theorem Vacant.moves {p q r : Path} (hw : Vacant r w) (h : Moves w p q w')
    (hp : ∀ x, r <+: x → ¬ p <+: x) (hq : ∀ x, r <+: x → ¬ q <+: x) : Vacant r w' := by
  intro x hx
  rw [h.of_not_prefix (hp x hx) (hq x hx)]
  exact hw x hx

theorem onDisk_of_moves {p q : Path} (h : Moves w p q w') (hp : ∀ x, p <+: x → Aside uid x)
    (hq : ∀ x, q <+: x → Aside uid x) (hw : OnDisk w configDir policy) :
    OnDisk w' configDir policy := by
  refine (onDisk_congr (h.of_not_prefix ?_ ?_) (h.of_not_prefix ?_ ?_)).2 hw
  · exact fun hx => (hp _ hx).directory rfl
  · exact fun hx => (hq _ hx).directory rfl
  · exact fun hx => (hp _ hx).policy rfl
  · exact fun hx => (hq _ hx).policy rfl

/-- What is found before the deletion. -/
structure Found (uid : UInt32) (policy : AuthPolicy) (profileExists keyExists : Bool) (w : Files) :
    Prop where
  wf : w.WF
  policy : Before policy w
  profile : profileExists = false → Vacant (profilePath uid) w
  key : keyExists = false → Vacant (keyPath uid) w

theorem Found.wrote {profileExists keyExists : Bool} {revoked : AuthPolicy}
    (hw : Found uid previous profileExists keyExists w) (h : Wrote revoked w w') :
    (w'.WF ∧ (profileExists = false → Vacant (profilePath uid) w') ∧
      (keyExists = false → Vacant (keyPath uid) w')) := by
  have hwf := h.within.wf hw.wf
  refine ⟨hwf, fun hp => vacant_of_none hwf ?_, fun hk => vacant_of_none hwf ?_⟩
  · rw [profilePath, h.root]
    exact hw.profile hp _ List.prefix_rfl
  · rw [h.within.get _ not_inPolicy_key]
    exact hw.key hk _ List.prefix_rfl

theorem succeeds_revokeProfile {profileExists keyExists : Bool} :
    Succeeds sys (Found uid previous profileExists keyExists)
      (revokeProfile env a uid profileExists keyExists) fun _ w => ∃ revoked,
        previous.revokeUserTargets uid = .ok revoked ∧ Deleted uid revoked w ∧ NoCopies uid w := by
  refine succeeds_withPolicy (fun _ h => h.policy) ?_
  cases hr : previous.revokeUserTargets uid with
  | error e =>
    simp only [revoke, hr]
    exact succeeds_throw
  | ok revoked =>
  rw [revoke_bind hr]
  have hprofile : ∀ q, profilePath uid <+: q → Aside uid q := fun q hq => aside_profilePath hq
  have hkey : ∀ q, keyPath uid <+: q → Aside uid q := fun q hq => .key (.inl rfl) hq
  have hprofileBackup : ∀ q,
      systemRoot ++ [Name.revoked uid (toString a.revokedNonce) false] <+: q → Aside uid q :=
    fun q hq => .profile (ownProfile_revoked _ _) hq
  have hkeyBackup : ∀ q, keysDir ++ [Name.revoked uid (toString a.revokedNonce) true] <+: q →
      Aside uid q := fun q hq => .key (ownKey_revoked _) hq
  refine Succeeds.bind (succeeds_writePolicy fun w w' h hw => hw.wrote h) fun _ => ?_
  -- the profile, if there is one, is moved to its copy
  refine succeeds_ifRename (J := fun w => w.WF ∧ OnDisk w configDir revoked ∧
      Vacant (profilePath uid) w ∧ (keyExists = false → Vacant (keyPath uid) w))
    (fun w hno hw => ⟨hw.1.1, hw.2, hw.1.2.1 hno, hw.1.2.2⟩)
    (fun w w' _ hm hwf hw => ⟨hwf hw.1.1, onDisk_of_moves hm hprofile hprofileBackup hw.2,
      vacant_of_moves hm fun r hr hq => ?_, fun hno => (hw.1.2.2 hno).moves hm
        (fun x hx hp => ?_) fun x hx hq => ?_⟩) ?_ fun P => succeeds_lift_throw
  · have hname := child_unique hr hq
    cases hname
  · exact not_systemRoot_of_keysDir hp hx
  · exact not_systemRoot_of_keysDir hq hx
  refine succeeds_ifRename (J := Deleted uid revoked)
    (fun w hno hw => ⟨hw.1, hw.2.1, hw.2.2.1, hw.2.2.2 hno⟩)
    (fun w w' _ hm hwf hw => ⟨hwf hw.1, onDisk_of_moves hm hkey hkeyBackup hw.2.1,
      hw.2.2.1.moves hm (fun x hx hp => ?_) (fun x hx hq => ?_),
      vacant_of_moves hm fun r hr hq => ?_⟩) ?_ fun P => ?_
  · exact not_systemRoot_of_keysDir hx hp
  · exact not_systemRoot_of_keysDir hx hq
  · have hname := child_unique hr hq
    cases hname
  · refine Succeeds.bind (succeeds_skip trivial) fun _ => ?_
    refine Succeeds.bind (succeeds_skip trivial) fun _ => ?_
    refine Succeeds.bind succeeds_clearRevokedCopies fun _ => ?_
    refine Succeeds.bind (succeeds_skip trivial) fun _ => ?_
    exact (succeeds_skip (c := .fsync keysDir) trivial).mono (fun _ h => h)
      fun _ w h => ⟨revoked, rfl, h.1, h.2⟩
  · refine Succeeds.lift (Q := fun _ _ => True) (fun w _ => safe_trivial _ w) fun b => ?_
    exact Succeeds.ite (fun _ => succeeds_lift_throw) fun _ => succeeds_throw

/-- A program that changes no file. -/
def Quiet (P : Files → Prop) : Prop := ∀ w w', Within (fun _ => False) w w' → P w → P w'

theorem succeeds_validateSystemKeyForDeletion (hP : Quiet P) :
    Succeeds sys P (validateSystemKeyForDeletion env uid)
      fun b w => P w ∧ (b = false → w.get (keyPath uid) = none) := by
  refine Succeeds.lift (Q := fun r w => P w ∧ (r = .error .notFound → w.get (keyPath uid) = none))
    (fun w hw => (safe_lstat trivial).post fun r w' h => h.1 ▸ ⟨hw, h.2⟩) fun r => ?_
  rcases r with e | entry
  · cases e with
    | notFound => exact succeeds_pure fun w hw => ⟨hw.1, fun _ => hw.2 rfl⟩
    | alreadyExists => exact succeeds_throw
    | other => exact succeeds_throw
  · dsimp only
    refine Succeeds.ite (fun _ => succeeds_throw) fun _ => ?_
    have hgroup : Stays sys (fun _ => True) (fun _ => False) (groupId env [] .kfaceauth).run :=
      stays_groupId
    refine Succeeds.mono (P := P) ?_ (fun _ h => h.1) fun _ _ h => h
    refine Succeeds.bind (succeeds_skip trivial) fun _ => ?_
    refine Succeeds.bind (succeeds_skip trivial) fun m => ?_
    refine Succeeds.bind (hgroup.succeeds hP) fun gid => ?_
    refine Succeeds.ite (fun _ => succeeds_throw) fun _ => succeeds_pure fun w hw => ?_
    exact ⟨hw, fun h => by cases h⟩

theorem Found.within {profileExists keyExists : Bool} {S : Path → Prop} (h : Within S w w')
    (hS : ∀ q, S q → q = policyLock) (hw : Found uid policy profileExists keyExists w) :
    Found uid policy profileExists keyExists w' := by
  have hlock := h.mono hS
  refine ⟨h.wf hw.wf, before_of_lock w w' hlock hw.policy, fun hp q hq => ?_, fun hk q hq => ?_⟩
  · rw [hlock.get q fun he => ?_]
    · exact hw.profile hp q hq
    · rw [he] at hq
      obtain ⟨x, hx⟩ := hq
      simp [profilePath, systemRoot, policyLock, configDir] at hx
  · rw [hlock.get q fun he => ?_]
    · exact hw.key hk q hq
    · rw [he] at hq
      obtain ⟨x, hx⟩ := hq
      simp [keyPath, keysDir, policyLock, configDir] at hx

theorem NoCopies.within (h : Within (fun _ => False) w w') (hw : NoCopies uid w) :
    NoCopies uid w' :=
  ⟨fun n hn q hq => (h.get q id).trans (hw.profile n hn q hq),
    fun n hn q hq => (h.get q id).trans (hw.key n hn q hq)⟩

theorem Deleted.within (h : Within (fun _ => False) w w') (hw : Deleted uid policy w) :
    Deleted uid policy w' :=
  ⟨h.wf hw.wf, onDisk_of_quiet w w' h hw.policy, fun q hq => (h.get q id).trans (hw.profile q hq),
    fun q hq => (h.get q id).trans (hw.key q hq)⟩

theorem succeeds_deleteSystemProfile :
    Succeeds sys (fun w => w.WF ∧ Before previous w) (deleteSystemProfile env a uid)
      fun _ w => ∃ revoked, previous.revokeUserTargets uid = .ok revoked ∧ Deleted uid revoked w ∧
        NoCopies uid w := by
  refine Succeeds.bind (Q := fun b w => Found uid previous b true w) ?_ fun profileExists => ?_
  · refine succeeds_of_safe (fun w hw => safe_validateAndHardenExistingProfile.and
      (stays_validateAndHardenExistingProfile w w (.refl _ _))) fun w hw b w' h => ?_
    obtain ⟨⟨hsame, hnone⟩, hin⟩ := h
    have hwf := hin.wf hw.1
    refine ⟨hwf, before_of_aside w w' hin hw.2, ?_, fun h => by cases h⟩
    rintro rfl
    refine vacant_of_none hwf ?_
    have hcontent := hsame.data (profilePath uid)
    rw [contentAt, contentAt, hnone rfl, Option.map_none, Option.map_eq_none_iff] at hcontent
    exact hcontent
  refine Succeeds.bind (Q := fun b w => Found uid previous profileExists b w)
    ((succeeds_validateSystemKeyForDeletion fun w w' h hw => hw.within h fun _ hq => hq.elim).mono
      (fun _ h => h) fun b w h => ⟨h.1.wf, h.1.policy, h.1.profile, fun hb =>
        vacant_of_none h.1.wf (h.2 hb)⟩) fun keyExists => ?_
  refine succeeds_withFileLock (fun w w' h hw => hw.within h fun _ hq => hq)
    succeeds_revokeProfile ?_
  rintro _ w w' h ⟨revoked, hr, hdel, hno⟩
  exact ⟨revoked, hr, hdel.within h, hno.within h⟩

/-! ## Synchronizing -/

theorem succeeds_writeKeyFile :
    Succeeds sys (fun _ => True) (writeKeyFile env a uid key)
      fun _ w => contentAt w (keyPath uid) = some key.bytes := by
  have htmp : ∀ {w w' : Files}, SameData w w' →
      contentAt w (keysDir ++ [Name.keyTmp a.keySuffix]) = some key.bytes →
      contentAt w' (keysDir ++ [Name.keyTmp a.keySuffix]) = some key.bytes :=
    fun h hw => (h.data _).trans hw
  refine Succeeds.bind (succeeds_skip trivial) fun _ => ?_
  refine Succeeds.bind (Q := fun _ _ => True)
    (succeeds_act (c := .createNew _ _) trivial fun _ _ _ _ _ => trivial)
    fun _ => ?_
  refine Succeeds.lift (fun w _ => safe_trivial _ w) fun group => ?_
  refine Succeeds.lift (fun w _ => safe_trivial _ w) fun _ => ?_
  refine Succeeds.bind (Q := fun _ w => contentAt w (keyPath uid) = some key.bytes)
    (Succeeds.onError ?_) fun _ => ?_
  · refine Succeeds.bind
      (Q := fun _ w => contentAt w (keysDir ++ [Name.keyTmp a.keySuffix]) = some key.bytes)
      (succeeds_act (c := .write _ _) trivial fun _ w w' _ hx => ?_) fun _ => ?_
    · obtain ⟨n, -, hset, -⟩ := exec_write hx
      exact contentAt_of_get hset.self
    refine Succeeds.lift (fun w hw => (safe_shareKey trivial).post fun _ w' h => htmp h hw)
      fun _ => ?_
    refine Succeeds.bind
      (Q := fun _ w => contentAt w (keysDir ++ [Name.keyTmp a.keySuffix]) = some key.bytes)
      (succeeds_act (c := .chmod _ _) trivial fun _ w w' hw hx => htmp (sameData_of_chmod hx) hw)
      fun _ => ?_
    refine Succeeds.bind (succeeds_skip trivial) fun _ => ?_
    refine succeeds_act (c := .rename _ _) trivial fun _ w w' hw hx => ?_
    obtain ⟨-, -, -, -, hmoves⟩ := exec_rename hx
    have := contentAt_moves hmoves []
    rw [List.append_nil, List.append_nil, hw] at this
    exact this
  · have hsync : Stays sys (fun _ => True) (fun _ => False) syncKeys := stays_syncKeys
    exact hsync.lift.succeeds fun w w' h hw => (contentAt_congr (h.get _ id)).trans hw

/-- Once it is stored, the key is there. -/
theorem succeeds_storeNewKey {isNew : Bool}
    (hP : isNew = false → ∀ w, P w → contentAt w (keyPath uid) = some key.bytes) :
    Succeeds sys P (storeNewKey env a uid key isNew)
      fun _ w => contentAt w (keyPath uid) = some key.bytes := by
  cases isNew with
  | false => exact succeeds_pure (hP rfl)
  | true =>
    have hverify : Stays sys (fun _ => True) (fun _ => False) (verifyNewKey env uid).run :=
      stays_verifyNewKey
    refine Succeeds.bind (Q := fun _ w => contentAt w (keyPath uid) = some key.bytes) ?_
      fun _ => hverify.succeeds fun w w' h hw => (contentAt_congr (h.get _ id)).trans hw
    exact Succeeds.lift (fun w _ => safe_trivial _ w) fun _ => succeeds_writeKeyFile

/-- The profile that is read is that of the vault. -/
theorem safe_openAnchoredProfileSnapshot {v : Vault} {d : Path} :
    (v.openAnchoredProfileSnapshot env key d).run.Safe (handler sys) (fun _ => True)
      (fun _ => True) (fun r w' => w' = w ∧ ∀ x, r = .ok x →
        ∃ bytes, contentAt w (d ++ [Name.identityVault]) = some bytes ∧
          decodeVault env.crypto bytes key v.uid = .ok x.1) w := by
  refine Safe.look trivial trivial (fun m _ => ?_) fun e _ => ⟨rfl, fun _ => not_ok⟩
  split_ifs
  · exact ⟨rfl, fun _ => not_ok⟩
  refine Safe.liftE (safe_isOwnerValid trivial) fun owner w₁ h₁ => ?_
  rw [h₁.1]
  split_ifs
  · exact ⟨rfl, fun _ => not_ok⟩
  refine Safe.look trivial trivial (fun _ _ => ?_) fun e _ => ⟨rfl, fun _ => not_ok⟩
  refine Safe.look trivial trivial (fun before _ => ?_) fun e _ => ⟨rfl, fun _ => not_ok⟩
  refine Safe.bindE (Q := fun _ w' => w' = w) ?_ (fun _ w₂ h₂ => ?_)
    fun e _ h => ⟨h, fun _ => not_ok⟩
  · unfold Vault.checkAnchored
    split_ifs
    · exact rfl
    refine Safe.liftE (safe_isOwnerValid trivial) fun owner w₂ h₂ => ?_
    split_ifs <;> exact h₂.1
  rw [h₂]
  refine Safe.look trivial trivial (fun bytes hbytes => ?_) fun e _ => ⟨rfl, fun _ => not_ok⟩
  obtain ⟨n, hn, -, rfl⟩ := hbytes.read
  refine Safe.look trivial trivial (fun after _ => ?_) fun e _ => ⟨rfl, fun _ => not_ok⟩
  refine Safe.look trivial trivial (fun _ _ => ?_) fun e _ => ⟨rfl, fun _ => not_ok⟩
  refine Safe.look trivial trivial (fun current _ => ?_) fun e _ => ⟨rfl, fun _ => not_ok⟩
  split_ifs
  · exact ⟨rfl, fun _ => not_ok⟩
  refine Safe.bindE Vault.safe_decode (fun profile w₃ h₃ => ?_) fun e _ h => ⟨h.1, fun _ => not_ok⟩
  cases env.crypto.sha256 n.data with
  | error e => exact ⟨h₃.1, fun _ => not_ok⟩
  | ok digest =>
    refine ⟨h₃.1, ?_⟩
    rintro _ ⟨⟩
    exact ⟨n.data, contentAt_of_get hn, h₃.2.symm⟩

/-- A vault that is committed is the encoding of its profile. -/
theorem succeeds_commitProfile {v : Vault} {profile : Profile} {retries : ℕ}
    {draws : Vault.Draws} :
    Succeeds sys (fun _ => True) (v.commitProfile env key profile retries draws) fun _ w =>
      contentAt w v.file = (encodeVault env.crypto profile key v.uid draws.nonce).toOption := by
  have htrivial : ∀ {x : ExceptT VaultError FileProg Unit},
      Succeeds sys (fun _ => True) x fun _ _ => True :=
    fun {x} w _ => (safe_trivial x.run w).post fun _ _ _ _ _ => trivial
  refine Succeeds.bind htrivial fun _ => ?_
  refine Succeeds.bind htrivial fun _ => ?_
  have hunlink : Stays sys (fun _ => True) (· = v.lock) (ignore (.unlink v.lock) : FileProg Unit) :=
    stays_ignore fun _ hq => hq
  refine Succeeds.inScope (Succeeds.bind (Q := fun _ w => contentAt w v.file =
      (encodeVault env.crypto profile key v.uid draws.nonce).toOption) ?_ fun _ => ?_)
    hunlink fun _ w w' h hw => (contentAt_congr (h.get _ Vault.file_ne_lock)).trans hw
  · exact succeeds_of_safe (fun w _ => Vault.safe_change (.commit key profile)) fun w _ _ w' h => h
  · have hsync : Stays sys (fun _ => True) (fun _ => False) v.syncDirectory.run := by
      refine Stays.bindE ?_ fun _ => ?_
      · exact stays_of_calls (calls_io.2 (in_of_readOnly trivial))
      · exact stays_of_calls (calls_io.2 (in_of_readOnly trivial))
    exact hsync.succeeds fun w w' h hw => (contentAt_congr (h.get _ id)).trans hw

/-- The bytes of the files are kept while the permissions of a staged profile are set. -/
theorem succeeds_applySystemProfilePermissions {root : Path}
    (hP : ∀ w w', SameData w w' → P w → P w') :
    Succeeds sys P (applySystemProfilePermissions env uid root) fun _ => P := by
  have hset : ∀ {p : Path} {mode : ℕ}, Succeeds sys P (setFdPermissions env p 0 mode .kfaceauth)
      fun _ => P := fun {p mode} => succeeds_of_safe (fun w _ => safe_setFdPermissions)
    fun w hw _ w' h => hP w w' (sameData_of_permits h.1) hw
  have hgroup : Succeeds sys P (groupId env [] .kfaceauth) fun _ => P :=
    succeeds_of_safe (fun w hw => safe_groupId hw) fun w hw _ w' h => h.1 ▸ hw
  refine Succeeds.bind (succeeds_skip trivial) fun _ => ?_
  refine Succeeds.bind (succeeds_skip trivial) fun _ => ?_
  refine Succeeds.bind hset fun _ => ?_
  refine Succeeds.bind hset fun _ => ?_
  refine Succeeds.bind hgroup fun gid => ?_
  refine Succeeds.bind (succeeds_skip trivial) fun d => ?_
  refine Succeeds.bind (succeeds_skip trivial) fun f => ?_
  exact Succeeds.ite (fun _ => succeeds_throw) fun _ => succeeds_pure fun _ h => h

/-- The vault and the key in view. -/
def InView (uid : UInt32) (vault key : List UInt8) (w : Files) : Prop :=
  (view uid w).vault = some vault ∧ (view uid w).key = some key

theorem inView_of_wrote {vault bytes : List UInt8} (h : Wrote policy w w')
    (hw : InView uid vault bytes w) : InView uid vault bytes w' :=
  ⟨h.vault_eq.trans hw.1, h.key_eq.trans hw.2⟩

theorem inView_of_calm {vault bytes : List UInt8} (w w' : Files) (h : Within (Calm uid) w w')
    (hw : InView uid vault bytes w) : InView uid vault bytes w' := by
  rw [InView, view_of_within h]
  exact hw

/-- The staged vault, and the key. -/
def Staged (a : Answers) (uid : UInt32) (vault key : List UInt8) (w : Files) : Prop :=
  contentAt w (stagingPath a ++ [Name.uid uid] ++ [Name.identityVault]) = some vault ∧
    (view uid w).key = some key

theorem staged_of_wrote {vault bytes : List UInt8} (h : Wrote policy w w')
    (hw : Staged a uid vault bytes w) : Staged a uid vault bytes w' := by
  have hpath : stagingPath a ++ [Name.uid uid] ++ [Name.identityVault] =
      systemRoot ++ [Name.staging a.pid a.stagingNonce, Name.uid uid, Name.identityVault] := by
    simp [stagingPath]
  refine ⟨?_, ?_⟩
  · rw [hpath, contentAt_congr (h.root _ _), ← hpath]
    exact hw.1
  · rw [h.key_eq]
    exact hw.2

theorem Staged.sameData {vault bytes : List UInt8} (hw : Staged a uid vault bytes w)
    (h : SameData w w') : Staged a uid vault bytes w' := by
  refine ⟨(h.data _).trans hw.1, ?_⟩
  rw [h.view_eq]
  exact hw.2

/-- The staged profile is in its place. -/
theorem succeeds_installStagedProfile {vault bytes : List UInt8} :
    Succeeds sys (Staged a uid vault bytes) (installStagedProfile env a uid) fun backup w =>
      InView uid vault bytes w ∧
        ∀ p ∈ backup, p = systemRoot ++ [Name.previous uid a.previousNonce] := by
  have hroot : ∀ {m : Name} {p : Path}, systemRoot ++ [m] <+: p → ¬ p <+: keyPath uid := by
    rintro m p ⟨x, rfl⟩ ⟨y, hy⟩
    simp [systemRoot, keyPath, keysDir] at hy
  have habove : systemRoot ++ [Name.staging a.pid a.stagingNonce] <+:
      stagingPath a ++ [Name.uid uid] ++ [Name.identityVault] := staging_above _
  refine Succeeds.bind (Q := fun _ => Staged a uid vault bytes) ?_ fun had => ?_
  · exact succeeds_of_safe (fun w _ => safe_validateAndHardenExistingProfile)
      fun w hw _ w' h => hw.sameData h.1
  refine succeeds_ifRename (J := Staged a uid vault bytes) (fun _ _ h => h)
    (fun w w' _ hm _ hw => ⟨?_, ?_⟩) ?_ fun P => succeeds_throw
  · rw [contentAt_of_moves hm (root_apart (by simp) List.prefix_rfl habove)
      (root_apart (by simp) List.prefix_rfl habove)]
    exact hw.1
  · exact (contentAt_of_moves hm (hroot List.prefix_rfl) (hroot List.prefix_rfl)).trans hw.2
  refine succeeds_ifRename (J := InView uid vault bytes) (fun _ h _ => by cases h)
    (fun w w' _ hm _ hw => ⟨?_, ?_⟩) (succeeds_pure fun w hw => ⟨hw, fun p hp => ?_⟩)
    fun P => succeeds_lift_throw
  · exact (contentAt_moves hm _).trans hw.1
  · exact (contentAt_of_moves hm (hroot (List.prefix_append _ _))
      (hroot List.prefix_rfl)).trans hw.2
  · split_ifs at hp
    · exact (Option.some.inj hp).symm
    · cases hp

/-- What the operation was asked for is done. -/
structure Installed (uid : UInt32) (vault key : List UInt8) (policy : AuthPolicy) (w : Files) :
    Prop where
  view : InView uid vault key w
  policy : OnDisk w configDir policy

theorem Installed.within {vault bytes : List UInt8} {S : Path → Prop} (h : Within S w w')
    (hcalm : ∀ q, S q → Calm uid q) (haside : ∀ q, S q → Aside uid q)
    (hw : Installed uid vault bytes policy w) : Installed uid vault bytes policy w' :=
  ⟨inView_of_calm w w' (h.mono hcalm) hw.view, onDisk_of_aside w w' (h.mono haside) hw.policy⟩

theorem succeeds_activateProfile {change : Option TargetChange} {revoked : AuthPolicy}
    {backup : Option Path} {vault bytes : List UInt8}
    (hb : ∀ p ∈ backup, p = systemRoot ++ [Name.previous uid a.previousNonce]) :
    Succeeds sys (InView uid vault bytes)
      (activateProfile env a uid change key previous revoked backup) fun _ w =>
        ∃ enabled, enabledPolicy uid previous change = .ok enabled ∧
          Installed uid vault bytes enabled w := by
  have hverify : Stays sys (fun _ => True) (Calm uid) (verifyInstalled env uid key).run :=
    stays_verifyInstalled
  refine succeeds_ifOk (hverify.succeeds inView_of_calm) ?_ fun P => succeeds_lift_throw
  cases he : enabledPolicy uid previous change with
  | error e =>
    have hwrite : Succeeds sys (InView uid vault bytes) (writeEnabled env a uid change previous)
        fun _ _ => False := by
      simp only [writeEnabled, he]
      exact succeeds_throw
    exact succeeds_ifOk hwrite (fun _ h => h.elim) fun P =>
      Succeeds.lift (Q := fun _ _ => True) (fun w _ => safe_trivial _ w) fun b =>
        Succeeds.ite (fun _ => succeeds_lift_throw) fun _ => succeeds_throw
  | ok enabled =>
    have hwrite : Succeeds sys (InView uid vault bytes) (writeEnabled env a uid change previous)
        fun _ => Installed uid vault bytes enabled := by
      simp only [writeEnabled, he]
      exact (succeeds_writePolicy fun _ _ h hw => inView_of_wrote h hw).mono (fun _ h => h)
        fun _ _ h => ⟨h.1, h.2⟩
    refine succeeds_ifOk hwrite ?_ fun P =>
      Succeeds.lift (Q := fun _ _ => True) (fun w _ => safe_trivial _ w) fun b =>
        Succeeds.ite (fun _ => succeeds_lift_throw) fun _ => succeeds_throw
    have hcommit : Stays sys (fun _ => True)
        (systemRoot ++ [Name.previous uid a.previousNonce] <+: ·) (commitSwap backup) :=
      stays_commitSwap fun p hp q hq => hb p hp ▸ hq
    refine (hcommit.lift.succeeds fun w w' h hw => ?_).mono (fun _ h => h)
      fun _ _ h => ⟨enabled, rfl, h⟩
    exact hw.within h (fun _ hq => calm_root (by simp) hq) fun _ hq => aside_previous hq

theorem succeeds_replaceProfile {change : Option TargetChange} {vault bytes : List UInt8} :
    Succeeds sys (fun w => Staged a uid vault bytes w ∧ Before previous w)
      (replaceProfile env a uid change key) fun _ w =>
        ∃ enabled, enabledPolicy uid previous change = .ok enabled ∧
          Installed uid vault bytes enabled w := by
  refine succeeds_withPolicy (fun _ h => h.2) ?_
  cases hr : previous.revokeUserTargets uid with
  | error e =>
    simp only [revoke, hr]
    exact succeeds_throw
  | ok revoked =>
    rw [revoke_bind hr]
    refine succeeds_ifOk (J := Staged a uid vault bytes) ?_ ?_ fun P => succeeds_lift_throw
    · exact (succeeds_writePolicy fun _ _ h hw => staged_of_wrote h hw.1).mono (fun _ h => h)
        fun _ _ h => h.1
    refine Succeeds.lift (Q := fun r w => ∀ backup, r = some backup → InView uid vault bytes w ∧
      ∀ p ∈ backup, p = systemRoot ++ [Name.previous uid a.previousNonce]) (fun w hw => ?_)
      fun r => ?_
    · refine safe_value? (succeeds_installStagedProfile w hw) (fun backup w' h _ hb => ?_)
        fun _ _ _ => (fun _ h => by cases h)
      obtain rfl := Option.some.inj hb
      exact h _ rfl
    · cases r with
      | none => exact succeeds_lift_throw
      | some backup =>
        intro w hw
        exact succeeds_activateProfile (hw backup rfl).2 w (hw backup rfl).1

/-- The key in view, and the policy on disk. -/
def Keeping (uid : UInt32) (key : List UInt8) (policy : AuthPolicy) (w : Files) : Prop :=
  (view uid w).key = some key ∧ Before policy w

theorem keeping_of_within {bytes : List UInt8} {S : Path → Prop} (h : Within S w w')
    (hcalm : ∀ q, S q → Calm uid q) (haside : ∀ q, S q → Aside uid q)
    (hw : Keeping uid bytes policy w) : Keeping uid bytes policy w' := by
  refine ⟨?_, before_of_aside w w' (h.mono haside) hw.2⟩
  rw [view_of_within (h.mono hcalm)]
  exact hw.1

theorem succeeds_commitVerifiedProfile {change : Option TargetChange} {vault bytes : List UInt8} :
    Succeeds sys (fun w => Staged a uid vault bytes w ∧ Before previous w)
      (commitVerifiedProfile env a uid change key) fun _ w =>
        ∃ enabled, enabledPolicy uid previous change = .ok enabled ∧
          Installed uid vault bytes enabled w := by
  have hstaged : ∀ {S : Path → Prop} {w w' : Files}, Within S w w' → (∀ q, S q → q = policyLock) →
      Staged a uid vault bytes w ∧ Before previous w →
      Staged a uid vault bytes w' ∧ Before previous w' := by
    refine fun h hS hw => ⟨⟨?_, ?_⟩, before_of_lock _ _ (h.mono hS) hw.2⟩
    · rw [contentAt_congr (h.get _ fun hq => ?_)]
      · exact hw.1.1
      · have := hS _ hq
        simp [stagingPath, systemRoot, policyLock, configDir] at this
    · rw [view_of_within (h.mono fun q hq => hS q hq ▸ calm_policyLock)]
      exact hw.1.2
  have hprepared : Stays sys (fun _ => True) (fun _ => False)
      (commitVerifiedProfile.prepared a change) := by
    unfold commitVerifiedProfile.prepared
    split_ifs
    · exact stays_runSetup
    · exact stays_pure _
  refine Succeeds.lift (Q := fun _ w => Staged a uid vault bytes w ∧ Before previous w)
    (fun w hw => ((hprepared w w (.refl _ _)).mono (fun _ _ => trivial)
      fun _ w' h => hstaged h (fun _ hq => hq.elim) hw)) fun b => ?_
  refine Succeeds.ite (fun _ => ?_) fun _ => succeeds_throw
  refine succeeds_withFileLock (fun w w' h hw => hstaged h (fun _ hq => hq) hw)
    succeeds_replaceProfile ?_
  rintro _ w w' h ⟨enabled, he, hw⟩
  exact ⟨enabled, he, hw.within h (fun _ hq => hq.elim) fun _ hq => hq.elim⟩

/-- A path that is neither in the system vault nor in the configuration. -/
def Elsewhere (p : Path) : Prop := ¬ systemRoot <+: p ∧ ¬ configDir <+: p

instance (p : Path) : Decidable (Elsewhere p) := inferInstanceAs (Decidable (_ ∧ _))

/-- The user vault. -/
def userVault (input : UserInput) : Path :=
  input.dataHome ++ [Name.kfaceauth] ++ [Name.identityVault]

/-- The profile is that of the user vault, with the given content. -/
def IsUserProfile (env : Env) (uid : UInt32) (input : UserInput) (content : Option (List UInt8))
    (profile : Profile) : Prop :=
  Elsewhere (userVault input) →
    ∃ bytes, content = some bytes ∧ decodeVault env.crypto bytes input.key uid = .ok profile

/-- The user vault has the given content, the key is in view and the policy on disk. -/
def Ready (uid : UInt32) (input : UserInput) (content : Option (List UInt8)) (key : List UInt8)
    (policy : AuthPolicy) (w : Files) : Prop :=
  (Elsewhere (userVault input) → contentAt w (userVault input) = content) ∧
    Keeping uid key policy w

theorem Ready.staging {input : UserInput} {content : Option (List UInt8)} {bytes : List UInt8}
    (w w' : Files) (h : Within (stagingPath a <+: ·) w w')
    (hw : Ready uid input content bytes policy w) : Ready uid input content bytes policy w' := by
  refine ⟨fun helse => ?_, keeping_of_within h (fun _ hq => calm_staging hq)
    (fun _ hq => aside_staging hq) hw.2⟩
  rw [contentAt_congr (h.get _ fun hq => helse.1 ((List.prefix_append _ _).trans hq))]
  exact hw.1 helse

/-- The profile is staged, checked and installed. -/
theorem succeeds_stage {change : Option TargetChange} {profile : Profile} {digest : List UInt8} :
    Succeeds sys (Keeping uid key.bytes previous) (do
      orFail ((systemVault (stagingPath a) uid).commitProfile env key profile a.retries a.draws)
      applySystemProfilePermissions env uid (stagingPath a)
      let _ ← orFail ((systemVault (stagingPath a) uid).validateIntegrity env key)
      Freshness.writeStagedMetadata env (stagingPath a ++ [Name.uid uid]) uid digest
      commitVerifiedProfile env a uid change key) fun _ w => ∃ vault enabled,
        encodeVault env.crypto profile key uid a.draws.nonce = .ok vault ∧
        enabledPolicy uid previous change = .ok enabled ∧
        Installed uid vault key.bytes enabled w := by
  have hkept : ∀ {S : Path → Prop}, (∀ q, S q → Calm uid q) → (∀ q, S q → Aside uid q) →
      ∀ w w', Within S w w' → Keeping uid key.bytes previous w →
        Keeping uid key.bytes previous w' :=
    fun hcalm haside _ _ h hw => keeping_of_within h hcalm haside hw
  have hfile : stagingPath a <+: stagingPath a ++ [Name.uid uid] ++ [Name.identityFreshness] :=
    staging_above _
  -- the vault that is written is the encoding of the profile
  refine Succeeds.bind (Q := fun _ w => Keeping uid key.bytes previous w ∧
    contentAt w (stagingPath a ++ [Name.uid uid] ++ [Name.identityVault]) =
      (encodeVault env.crypto profile key uid a.draws.nonce).toOption) ?_ fun _ => ?_
  · have hcommit : Stays sys (fun _ => True) (fun q => Calm uid q ∧ Aside uid q)
        ((systemVault (stagingPath a) uid).commitProfile env key profile a.retries a.draws).run :=
      stays_commitStaged (fun _ hq => ⟨calm_staging hq, aside_staging hq⟩)
        fun _ hq => ⟨calm_systemRoot hq, .root hq⟩
    exact succeeds_orFail (((hcommit.succeeds (hkept (fun _ h => h.1) fun _ h => h.2)).and
      succeeds_commitProfile).mono (fun _ h => ⟨h, trivial⟩) fun _ _ h => h)
  refine Succeeds.bind (Q := fun _ w => Keeping uid key.bytes previous w ∧
    contentAt w (stagingPath a ++ [Name.uid uid] ++ [Name.identityVault]) =
      (encodeVault env.crypto profile key uid a.draws.nonce).toOption) ?_ fun _ => ?_
  · have hset : Stays sys (fun _ => True) (stagingPath a <+: ·)
        (applySystemProfilePermissions env uid (stagingPath a)).run :=
      stays_applySystemProfilePermissions fun _ h => h
    exact (hset.succeeds (hkept (fun _ hq => calm_staging hq) fun _ hq => aside_staging hq)).and
      (succeeds_applySystemProfilePermissions fun w w' h hw => (h.data _).trans hw)
  -- and it is there, since it was opened
  refine Succeeds.bind (Q := fun _ w => Keeping uid key.bytes previous w ∧ ∃ vault,
    encodeVault env.crypto profile key uid a.draws.nonce = .ok vault ∧
    contentAt w (stagingPath a ++ [Name.uid uid] ++ [Name.identityVault]) = some vault) ?_
    fun _ => ?_
  · refine succeeds_of_safe (I := fun _ _ => True) (T := fun w r w' => w' = w ∧ (r.isOk → ∃ vault,
        contentAt w (stagingPath a ++ [Name.uid uid] ++ [Name.identityVault]) = some vault))
      (fun w _ => safe_orFail (Vault.safe_validateIntegrity trivial) (fun _ w₁ h₁ =>
        ⟨h₁.1, fun _ => ?_⟩) fun _ w₁ h₁ => ⟨h₁.1, fun h => by cases h⟩) fun w hw _ w' h => ?_
    · obtain ⟨-, ⟨n, hn, -⟩, -⟩ := h₁.2 rfl
      exact ⟨n.data, contentAt_of_get hn⟩
    · obtain ⟨rfl, hsome⟩ := h
      obtain ⟨vault, hvault⟩ := hsome rfl
      refine ⟨hw.1, vault, ?_, hvault⟩
      have henc := hw.2.symm.trans hvault
      cases he : encodeVault env.crypto profile key uid a.draws.nonce with
      | error e =>
        rw [he] at henc
        cases henc
      | ok v =>
        rw [he] at henc
        rw [Option.some.inj henc]
  refine Succeeds.bind (Q := fun _ w => ∃ vault,
    encodeVault env.crypto profile key uid a.draws.nonce = .ok vault ∧
    Staged a uid vault key.bytes w ∧ Before previous w) ?_ fun _ => ?_
  · have hmetadata : Stays sys (fun _ => True)
        (· = stagingPath a ++ [Name.uid uid] ++ [Name.identityFreshness])
        (Freshness.writeStagedMetadata env (stagingPath a ++ [Name.uid uid]) uid digest).run :=
      stays_writeStagedMetadata rfl
    refine (hmetadata.succeeds (P := fun w => Keeping uid key.bytes previous w ∧ ∃ vault,
      encodeVault env.crypto profile key uid a.draws.nonce = .ok vault ∧
      contentAt w (stagingPath a ++ [Name.uid uid] ++ [Name.identityVault]) = some vault) ?_).mono
      (fun _ h => h) ?_
    swap
    · rintro _ w ⟨hkeeping, vault, he, hvault⟩
      exact ⟨vault, he, ⟨hvault, hkeeping.1⟩, hkeeping.2⟩
    rintro w w' h ⟨hkeeping, vault, he, hvault⟩
    refine ⟨hkept ?_ ?_ w w' h hkeeping, vault, he,
      (contentAt_congr (h.get _ (by simp))).trans hvault⟩
    · rintro q rfl
      exact calm_staging hfile
    · rintro q rfl
      exact aside_staging hfile
  rintro w ⟨vault, he, hw⟩
  refine (succeeds_commitVerifiedProfile w hw).post fun r w' h b hb => ?_
  obtain ⟨enabled, henabled, hinstalled⟩ := h b hb
  exact ⟨vault, enabled, he, henabled, hinstalled⟩

theorem succeeds_stageProfile {change : Option TargetChange} {input : UserInput}
    {content : Option (List UInt8)} :
    Succeeds sys (Ready uid input content key.bytes previous)
      (stageProfile env a uid change input key) fun _ w => ∃ profile vault enabled,
        IsUserProfile env uid input content profile ∧
        encodeVault env.crypto profile key uid a.draws.nonce = .ok vault ∧
        enabledPolicy uid previous change = .ok enabled ∧
        Installed uid vault key.bytes enabled w := by
  have hdir : stagingPath a <+: stagingPath a ++ [Name.uid uid] := List.prefix_append _ _
  have hmkdir : Stays sys (fun _ => True) (stagingPath a <+: ·)
      (demand (.mkdir (stagingPath a ++ [Name.uid uid]) 0o777)).run :=
    stays_demand fun q hq => hq ▸ hdir
  have hpermissions : Stays sys (fun _ => True) (stagingPath a <+: ·)
      (setFdPermissions env (stagingPath a ++ [Name.uid uid]) 0 0o750 .kfaceauth).run :=
    stays_setFdPermissions hdir
  refine Succeeds.bind (hmkdir.succeeds Ready.staging) fun _ => ?_
  refine Succeeds.bind (succeeds_skip trivial) fun _ => ?_
  refine Succeeds.bind (hpermissions.succeeds Ready.staging) fun _ => ?_
  refine Succeeds.bind (succeeds_skip trivial) fun _ => ?_
  -- the profile is read from the user vault
  refine Succeeds.bind (Q := fun r w => IsUserProfile env uid input content r.1 ∧
    Keeping uid key.bytes previous w) ?_ fun r => ?_
  · refine succeeds_of_safe (T := fun w r w' => w' = w ∧ ∀ x, r = .ok x →
        ∃ bytes, contentAt w (userVault input) = some bytes ∧
          decodeVault env.crypto bytes input.key uid = .ok x.1)
      (fun w _ => safe_orFail safe_openAnchoredProfileSnapshot
        (fun x _ h => ⟨h.1, fun _ hx => h.2 _ (congrArg Except.ok (Except.ok.inj hx))⟩)
        fun _ _ h => ⟨h.1, fun _ => not_ok⟩) fun w hw x w' h => ?_
    rw [h.1]
    refine ⟨fun helse => ?_, hw.2⟩
    obtain ⟨bytes, hbytes, hdecode⟩ := h.2 x rfl
    exact ⟨bytes, (hw.1 helse).symm.trans hbytes, hdecode⟩
  obtain ⟨profile, digest⟩ := r
  intro w₀ hw₀
  obtain ⟨hprofile, hkeeping⟩ := hw₀
  refine (succeeds_stage w₀ hkeeping).post fun r w h b hb => ?_
  obtain ⟨vault, enabled, h⟩ := h b hb
  exact ⟨profile, vault, enabled, hprofile, h⟩

/-! ## Starting -/

/-- What an operation starts from. -/
structure Start (input : Option UserInput) (content : Option (List UInt8)) (policy : AuthPolicy)
    (w : Files) : Prop where
  wf : w.WF
  user : ∀ i, input = some i → Elsewhere (userVault i) → contentAt w (userVault i) = content
  policy : Before policy w

section Start

variable {input : Option UserInput} {content : Option (List UInt8)}

theorem Start.within {S : Path → Prop} (hS : ∀ q, S q → ¬ Elsewhere q)
    (hpolicy : ¬ S (policyPath configDir)) (w w' : Files) (h : Within S w w')
    (hw : Start input content policy w) : Start input content policy w' := by
  refine ⟨h.wf hw.wf, fun i hi helse => ?_, before_of_within h hpolicy hw.policy⟩
  rw [contentAt_congr (h.get _ fun hq => hS _ hq helse)]
  exact hw.user i hi helse

theorem start_of_before (hwf : w.WF) (h : Before policy w) :
    Start input (input.bind fun i => contentAt w (userVault i)) policy w := by
  refine ⟨hwf, fun i hi _ => ?_, h⟩
  rw [hi]
  rfl

theorem succeeds_anchorDirectories :
    Succeeds sys (Start input content previous) (anchorDirectories env)
      fun _ => Start input content previous := by
  have hanchor : Stays sys (fun _ => True) (fun q => q = systemRoot ∨ q = configDir ∨ q = keysDir)
      (anchorDirectories env).run :=
    stays_anchorDirectories (.inl rfl) (.inr (.inl rfl)) (.inr (.inr rfl))
  refine hanchor.succeeds (Start.within ?_ ?_)
  · rintro q (rfl | rfl | rfl) ⟨hroot, hconfig⟩
    · exact hroot List.prefix_rfl
    · exact hconfig List.prefix_rfl
    · exact hconfig ⟨[.keys], rfl⟩
  · simp [policyPath, systemRoot, configDir, keysDir]

theorem succeeds_readUserSessionInput :
    Succeeds sys P (readUserSessionInput uid input) fun i w => input = some i ∧ P w := by
  cases input with
  | none => exact succeeds_throw
  | some i =>
    refine Succeeds.bind (succeeds_skip trivial) fun _ => ?_
    refine Succeeds.bind (succeeds_skip trivial) fun m => ?_
    exact Succeeds.ite (fun _ => succeeds_throw) fun _ => succeeds_pure fun _ h => ⟨rfl, h⟩

/-- The profile of the user vault is installed with the key that is stored. -/
theorem succeeds_syncProfile {change : Option TargetChange} :
    Succeeds sys (Start input content previous) (syncProfile env a uid change input) fun _ w =>
      ∃ i key profile vault enabled, input = some i ∧
        IsUserProfile env uid i content profile ∧
        encodeVault env.crypto profile key uid a.draws.nonce = .ok vault ∧
        enabledPolicy uid previous change = .ok enabled ∧
        Installed uid vault key.bytes enabled w := by
  refine Succeeds.bind succeeds_readUserSessionInput fun i => ?_
  refine Succeeds.bind (Q := fun r w => (input = some i ∧ Start input content previous w) ∧
    (r.2 = false → contentAt w (keyPath uid) = some r.1.bytes)) ?_ fun r => ?_
  · refine succeeds_of_safe (I := fun _ _ => True)
      (fun w _ => safe_loadOrGenerateSystemKey trivial) fun w hw r w' h => ?_
    obtain ⟨rfl, hold, -⟩ := h
    refine ⟨hw, fun hr => hold r.1 ?_⟩
    rw [← hr]
  obtain ⟨key, isNew⟩ := r
  refine Succeeds.onError ?_
  -- the key is there, whether it is new or not
  refine Succeeds.bind (Q := fun _ w => input = some i ∧ Ready uid i content key.bytes previous w)
    ?_ fun _ => ?_
  · have hconfig : configDir <+: keysDir := ⟨[.keys], rfl⟩
    have hstore : Stays sys (fun _ => True) (fun q => configDir <+: q ∧ Aside uid q)
        (storeNewKey env a uid key isNew).run := by
      have hbelow : ∀ {n : Name} {q : Path}, keysDir ++ [n] <+: q → configDir <+: q :=
        fun hq => hconfig.trans ((List.prefix_append _ _).trans hq)
      exact stays_storeNewKey ⟨hconfig, .keys rfl⟩
        (fun q hq => ⟨hbelow hq, .key (.inr (.inl ⟨_, rfl⟩)) hq⟩)
        (fun q hq => ⟨hbelow hq, .key (.inl rfl) hq⟩) isNew
    refine ((hstore.succeeds (P := fun w => input = some i ∧ Start input content previous w)
      fun w w' h hw => ⟨hw.1, Start.within (fun _ hq helse => helse.2 hq.1)
        (fun hq => hq.2.policy rfl) w w' h hw.2⟩).and
      (succeeds_storeNewKey (P := fun w => isNew = false →
        contentAt w (keyPath uid) = some key.bytes) fun hnew _ hw => hw hnew)).mono (fun _ h => h)
      fun _ w h => ⟨h.1.1, h.1.2.user i h.1.1, h.2, h.1.2.policy⟩
  have hstaging : Stays sys (fun _ => True) (stagingPath a <+: ·)
      (createStagingDirectory env a).run :=
    stays_createStagingDirectory fun _ hq => hq
  have hremove : Stays sys (fun _ => True) (stagingPath a <+: ·) (removeQuietly (stagingPath a)) :=
    stays_removeQuietly fun _ hq => hq
  refine Succeeds.bind (Q := fun _ w => input = some i ∧ Ready uid i content key.bytes previous w)
    (hstaging.succeeds fun w w' h hw => ⟨hw.1, Ready.staging w w' h hw.2⟩) fun _ => ?_
  refine Succeeds.inScope (Q := fun _ w => ∃ i key profile vault enabled, input = some i ∧
    IsUserProfile env uid i content profile ∧
    encodeVault env.crypto profile key uid a.draws.nonce = .ok vault ∧
    enabledPolicy uid previous change = .ok enabled ∧
    Installed uid vault key.bytes enabled w) ?_ hremove ?_
  · intro w hw
    refine (succeeds_stageProfile w hw.2).post fun r w' h b hb => ?_
    obtain ⟨profile, vault, enabled, h⟩ := h b hb
    exact ⟨i, key, profile, vault, enabled, hw.1, h⟩
  · rintro _ w w' h ⟨i, key, profile, vault, enabled, hi, hprofile, he, henabled, hw⟩
    exact ⟨i, key, profile, vault, enabled, hi, hprofile, he, henabled,
      hw.within h (fun _ hq => calm_staging hq) fun _ hq => aside_staging hq⟩

theorem succeeds_main {op : Operation} {Q : Files → Prop} (hQ : Quiet Q)
    (h : Succeeds sys (Start input content previous) (perform env a uid input op) fun _ => Q) :
    Succeeds sys (Start input content previous) (main env a uid input op) fun _ => Q := by
  have hlock : configDir <+: keysDir ++ [Name.syncLock uid] := ⟨[.keys, .syncLock uid], rfl⟩
  refine Succeeds.bind succeeds_anchorDirectories fun _ => ?_
  refine succeeds_withFileLock (Start.within ?_ ?_) h fun _ w w' hin hw => hQ w w' hin hw
  · rintro q rfl helse
    exact helse.2 hlock
  · simp [policyPath, configDir, keysDir]

end Start

/-! ## Operations that succeed -/

/-- The mode of a target after an operation for the user `uid`. -/
def Operation.modeAfter (uid v : UInt32) (t : AuthTarget) (mode : AuthPolicyMode) :
    Operation → AuthPolicyMode
  | .enable target new => if v = uid ∧ t = target then new else mode
  | .disable target => if v = uid ∧ t = target then .off else mode
  | .deleteProfile => if v = uid then .off else mode
  | .resyncProfile => mode

/-- The policy on disk has the requested change, and no other. -/
def Changed (uid : UInt32) (op : Operation) (previous : AuthPolicy) (w : Files) : Prop :=
  ∃ policy, OnDisk w configDir policy ∧
    ∀ v t, policy.modeFor v t = op.modeAfter uid v t (previous.modeFor v t)

theorem quiet_changed {op : Operation} : Quiet (Changed uid op previous) := by
  rintro w w' h ⟨policy, hdisk, hmodes⟩
  exact ⟨policy, onDisk_of_quiet w w' h hdisk, hmodes⟩

theorem changed_of_setMode {op : Operation} {target : AuthTarget} {mode : AuthPolicyMode}
    (hop : ∀ v t m, op.modeAfter uid v t m = if v = uid ∧ t = target then mode else m)
    (h : previous.setMode uid target mode = .ok policy) (hdisk : OnDisk w configDir policy) :
    Changed uid op previous w := by
  refine ⟨policy, hdisk, fun v t => ?_⟩
  rw [AuthPolicy.modeFor_setMode h, hop]

theorem changed_perform {input : Option UserInput} {content : Option (List UInt8)}
    (op : Operation) :
    Succeeds sys (Start input content previous) (perform env a uid input op)
      fun _ => Changed uid op previous := by
  cases op with
  | enable target mode =>
    refine succeeds_syncProfile.mono (fun _ h => h) ?_
    rintro _ w ⟨i, key, profile, vault, enabled, -, -, -, henabled, hw⟩
    exact changed_of_setMode (fun _ _ _ => rfl) henabled hw.policy
  | disable target =>
    refine succeeds_disableTarget.mono (fun _ h => h.policy) ?_
    rintro _ w ⟨policy, hset, hdisk⟩
    exact changed_of_setMode (fun _ _ _ => rfl) hset hdisk
  | deleteProfile =>
    refine succeeds_deleteSystemProfile.mono (fun _ h => ⟨h.wf, h.policy⟩) ?_
    rintro _ w ⟨revoked, hrevoke, hw, -⟩
    exact ⟨revoked, hw.policy, fun v t => AuthPolicy.modeFor_revokeUserTargets hrevoke v t⟩
  | resyncProfile =>
    refine succeeds_syncProfile.mono (fun _ h => h) ?_
    rintro _ w ⟨i, key, profile, vault, enabled, -, -, -, henabled, hw⟩
    obtain rfl := Except.ok.inj henabled
    exact ⟨_, hw.policy, fun _ _ => rfl⟩

/-- When an operation reports success, the policy that is loaded differs from the one
    before in the modes that the operation was asked to change, and in no other. -/
theorem policy_of_main {input : Option UserInput} {op : Operation} {s : List Choice}
    (hwf : w.WF) (hbefore : Reads previous w)
    (hrun : (main env a uid input op).run.run (handler sys) s w = (some (.ok ()), w')) :
    ∃ policy, Loaded sys policy w' ∧
      ∀ v t, policy.modeFor v t = op.modeAfter uid v t (previous.modeFor v t) := by
  obtain ⟨policy, hdisk, hmodes⟩ := (succeeds_main quiet_changed (changed_perform op)).run
    (start_of_before hwf (before_of_reads hbefore)) hrun
  exact ⟨policy, loaded_iff.2 hdisk, hmodes⟩

/-- What the user session of the example sends. -/
def homeInput : UserInput := ⟨[.other "home"], zeroKey⟩

/-- The login screen is turned on for a user without a profile. -/
def enableRun : Option (Except Unit Unit) × Files :=
  (main groupEnv (syncAnswers true) 1000 (some homeInput) (.enable .sddm .manual)).run.run
    (handler (.byDepth 0 0 0o22)) [] homeFiles

theorem eq_of_fst_eq {α β : Type} {p : α × β} {a : α} (h : p.1 = a) : p = (a, p.2) := by
  rw [← h]

set_option maxRecDepth 100000 in
theorem enableRun_ok : enableRun = (some (.ok ()), enableRun.2) :=
  eq_of_fst_eq (by decide +kernel)

theorem policy_of_main_enable :
    ∃ policy, Loaded (.byDepth 0 0 0o22) policy enableRun.2 ∧
      policy.modeFor 1000 .sddm = .manual ∧ policy.modeFor 1001 .sddm = .off := by
  have hbefore : Reads default homeFiles := rfl
  obtain ⟨policy, hload, hmodes⟩ := policy_of_main pristine_homeFiles.wf hbefore enableRun_ok
  exact ⟨policy, hload, hmodes 1000 .sddm, hmodes 1001 .sddm⟩

/-- A cipher that opens what it has sealed. -/
structure OpensSealed (crypto : Crypto) : Prop where
  length : ∀ key nonce aad plaintext ciphertext tag,
    crypto.encrypt key nonce aad plaintext = .ok (ciphertext, tag) →
      ciphertext.length = plaintext.length ∧ tag.length = tagBytes
  opens : ∀ key nonce aad plaintext ciphertext tag,
    crypto.encrypt key nonce aad plaintext = .ok (ciphertext, tag) →
      crypto.decrypt key nonce aad ciphertext tag = .ok plaintext

theorem decodeVault_of_encodeVault {crypto : Crypto} {profile : Profile} {nonce vault : List UInt8}
    (hcrypto : OpensSealed crypto) (hnonce : nonce.length = nonceBytes)
    (hnorm : ∀ sample ∈ profile.samples, crypto.isNormalized sample)
    (h : encodeVault crypto profile key uid nonce = .ok vault) :
    decodeVault crypto vault key uid = .ok profile := by
  cases he : crypto.encrypt key.bytes nonce (associatedData uid) (encodeProfile profile uid) with
  | error e => simp [encodeVault, he] at h
  | ok sealed =>
    obtain ⟨ciphertext, tag⟩ := sealed
    obtain ⟨hlen, htag⟩ := hcrypto.length _ _ _ _ _ _ he
    obtain ⟨hne, hmax, hencode⟩ := encodeVault_ok hnonce he hlen htag
    obtain rfl := Except.ok.inj (hencode.symm.trans h)
    exact decodeVault_iff.2 ⟨nonce, tag, ciphertext, hnonce, htag, rfl, hne, hmax,
      hcrypto.opens _ _ _ _ _ _ he, hnorm⟩

/-- When a synchronization reports success, the stored key opens the installed vault,
    to the profile that the key of the user opens the user vault to. -/
theorem profile_of_main {i : UserInput} {change : Option TargetChange} {s : List Choice}
    (hcrypto : OpensSealed env.crypto) (hnonce : a.draws.nonce.length = nonceBytes)
    (hwf : w.WF) (helse : Elsewhere (userVault i))
    (hrun : (main env a uid (some i) (syncOperation change)).run.run (handler sys) s w =
      (some (.ok ()), w')) :
    ∃ source vault profile key, contentAt w (userVault i) = some source ∧
      decodeVault env.crypto source i.key uid = .ok profile ∧
      contentAt w' (keyPath uid) = some key.bytes ∧ contentAt w' (vaultPath uid) = some vault ∧
      decodeVault env.crypto vault key uid = .ok profile := by
  obtain ⟨previous, hbefore⟩ := exists_before w
  have hstart : Start (some i) (contentAt w (userVault i)) previous w :=
    start_of_before hwf hbefore
  have hsync : Succeeds sys (Start (some i) (contentAt w (userVault i)) previous)
      (perform env a uid (some i) (syncOperation change)) fun _ w' => ∃ source vault profile key,
        contentAt w (userVault i) = some source ∧
        decodeVault env.crypto source i.key uid = .ok profile ∧
        InView uid vault key.bytes w' ∧ decodeVault env.crypto vault key uid = .ok profile := by
    have hperform : perform env a uid (some i) (syncOperation change) =
        syncProfile env a uid change (some i) := by
      cases change <;> rfl
    rw [hperform]
    refine succeeds_syncProfile.mono (fun _ h => h) ?_
    rintro _ w₁ ⟨_, key, profile, vault, enabled, ⟨⟩, hprofile, he, -, hw₁⟩
    obtain ⟨source, hsource, hdecode⟩ := hprofile helse
    obtain ⟨-, -, -, -, -, -, -, -, -, hnorm⟩ := decodeVault_iff.1 hdecode
    exact ⟨source, vault, profile, key, hsource, hdecode, hw₁.view,
      decodeVault_of_encodeVault hcrypto hnonce hnorm he⟩
  obtain ⟨source, vault, profile, key, hsource, hdecode, hview, hopens⟩ :=
    (succeeds_main (by
      rintro w₁ w₂ h ⟨source, vault, profile, key, hs, hd, hview, ho⟩
      exact ⟨source, vault, profile, key, hs, hd,
        inView_of_calm w₁ w₂ (h.mono fun _ hq => hq.elim) hview, ho⟩) hsync).run hstart hrun
  exact ⟨source, vault, profile, key, hsource, hdecode, hview.2, hview.1, hopens⟩

theorem profile_of_main_enable :
    ∃ source vault profile key, contentAt homeFiles (userVault homeInput) = some source ∧
      decodeVault plainCrypto source zeroKey 1000 = .ok profile ∧
      contentAt enableRun.2 (keyPath 1000) = some key.bytes ∧
      contentAt enableRun.2 (vaultPath 1000) = some vault ∧
      decodeVault plainCrypto vault key 1000 = .ok profile := by
  have hcrypto : OpensSealed plainCrypto := by
    refine ⟨?_, ?_⟩
    · rintro _ _ _ _ _ _ ⟨⟩
      exact ⟨rfl, List.length_replicate⟩
    · rintro _ _ _ _ _ _ ⟨⟩
      rfl
  have hrun : (main groupEnv (syncAnswers true) 1000 (some homeInput)
      (syncOperation (some (.sddm, .manual)))).run.run (handler (.byDepth 0 0 0o22)) [] homeFiles =
      (some (.ok ()), enableRun.2) := enableRun_ok
  exact profile_of_main hcrypto List.length_replicate pristine_homeFiles.wf (by decide) hrun

/-- When a deletion reports success, the profile, the key and their revoked copies are
    gone. -/
theorem deleted_of_main {input : Option UserInput} {s : List Choice} (hwf : w.WF)
    (hrun : (main env a uid input .deleteProfile).run.run (handler sys) s w =
      (some (.ok ()), w')) : ∃ policy, Deleted uid policy w' ∧ NoCopies uid w' := by
  obtain ⟨previous, hbefore⟩ := exists_before w
  have hdelete : Succeeds sys (Start input (input.bind fun i => contentAt w (userVault i)) previous)
      (perform env a uid input .deleteProfile) fun _ w => ∃ policy, Deleted uid policy w ∧
        NoCopies uid w := by
    refine succeeds_deleteSystemProfile.mono (fun _ h => ⟨h.wf, h.policy⟩) ?_
    rintro _ w ⟨revoked, -, hw⟩
    exact ⟨revoked, hw⟩
  exact (succeeds_main (by
    rintro w₁ w₂ h ⟨policy, hdeleted, hcopies⟩
    exact ⟨policy, hdeleted.within h, hcopies.within h⟩) hdelete).run (start_of_before hwf hbefore) hrun

/-- When a deletion reports success, nothing is left of the profile, of the key and of
    their revoked copies. -/
theorem nothing_of_main {input : Option UserInput} {s : List Choice} (hwf : w.WF)
    (hrun : (main env a uid input .deleteProfile).run.run (handler sys) s w =
      (some (.ok ()), w')) :
    (∀ q, profilePath uid <+: q → w'.get q = none) ∧
      (∀ q, keyPath uid <+: q → w'.get q = none) ∧
      (∀ n, isRevoked uid n → ∀ q, systemRoot ++ [n] <+: q → w'.get q = none) ∧
      ∀ n, isRevokedKey uid n → ∀ q, keysDir ++ [n] <+: q → w'.get q = none := by
  obtain ⟨policy, hdeleted, hcopies⟩ := deleted_of_main hwf hrun
  exact ⟨hdeleted.profile, hdeleted.key, hcopies.profile, hcopies.key⟩

/-- A deletion that fails after the profile and the key were renamed. -/
def revokedFiles : Files :=
  filesAfter ((main groupEnv (syncAnswers false) 1000 none .deleteProfile).run.run
    (handler (.byDepth 0 0 0o22)) (List.replicate 80 Choice.ok ++ [Choice.fault]) installedFiles)

/-- The profile is installed again, beside the revoked copies. -/
def leftoverFiles : Files :=
  filesAfter ((main groupEnv (syncAnswers false) 1000 (some homeInput) .resyncProfile).run.run
    (handler (.byDepth 0 0 0o22)) [] revokedFiles)

/-- The installed profile is deleted again. -/
def deleteRun : Option (Except Unit Unit) × Files :=
  (main groupEnv { syncAnswers false with revokedNonce := 1 } 1000 none .deleteProfile).run.run
    (handler (.byDepth 0 0 0o22)) [] leftoverFiles

theorem reached_leftoverFiles : Reached groupEnv leftoverFiles := by
  have hrevoked : Reached groupEnv revokedFiles := by
    refine reached_filesAfter (.sync _ _ _ _ _ _ reached_installedFiles ?_)
    intro st _ _ _ hsetup
    cases hsetup
  refine reached_filesAfter (.sync _ _ _ _ _ _ hrevoked ?_)
  intro st _ _ _ hsetup
  cases hsetup

set_option maxRecDepth 100000 in
/-- The copies that the failed deletion has left are gone as well. -/
theorem nothing_of_main_leftover :
    ((leftoverFiles.get (systemRoot ++ [Name.revoked 1000 "0" false])).isSome ∧
      (leftoverFiles.get (keysDir ++ [Name.revoked 1000 "0" true])).isSome) ∧
    (∀ q, profilePath 1000 <+: q → deleteRun.2.get q = none) ∧
      (∀ q, keyPath 1000 <+: q → deleteRun.2.get q = none) ∧
      (∀ q, systemRoot ++ [Name.revoked 1000 "0" false] <+: q → deleteRun.2.get q = none) ∧
      ∀ q, keysDir ++ [Name.revoked 1000 "0" true] <+: q → deleteRun.2.get q = none := by
  have hruns : ((leftoverFiles.get (systemRoot ++ [Name.revoked 1000 "0" false])).isSome ∧
      (leftoverFiles.get (keysDir ++ [Name.revoked 1000 "0" true])).isSome) ∧
      deleteRun.1 = some (.ok ()) := by decide +kernel
  obtain ⟨hleft, hvalue⟩ := hruns
  have hrun : deleteRun = (some (.ok ()), deleteRun.2) := eq_of_fst_eq hvalue
  have hgood : Good groupEnv 1000 False leftoverFiles := good_of_reached reached_leftoverFiles
  obtain ⟨hprofile, hkey, hprofiles, hkeys⟩ := nothing_of_main hgood.wf hrun
  exact ⟨hleft, hprofile, hkey, hprofiles _ (by decide), hkeys _ (by decide)⟩

end SyncVault

end KFaceAuth
