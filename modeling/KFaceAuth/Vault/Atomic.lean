import KFaceAuth.Vault.Footprint

/-!
# Failed operations and the vault file

An operation replaces or removes the vault file in one call, and then
synchronizes the directory. A failure before that call leaves the file as it
was; a failure of the synchronization does not, although it is returned as an
error like any other.

* `operate_error_iff`: an operation that returns an error has left the vault as
  it was, unless the synchronization failed and the bytes written are others.
-/

namespace KFaceAuth

open Prog Fs

namespace Vault

variable {sys : Sys Name} {env : Env} {v : Vault} {G : Step FileCall Files → Prop} {w w' : Files}

/-- The content of the vault file, if there is one. -/
def bytes (v : Vault) (w : Files) : Option (List UInt8) := (w.get v.file).map Node.data

/-- What an operation leaves as the content of the vault file. -/
def replacement (env : Env) (v : Vault) (draws : Draws) (w : Files) : Change → Option (List UInt8)
  | .commit key profile => (encodeVault env.crypto profile key v.uid draws.nonce).toOption
  | .rotate old new =>
    (v.bytes w).bind fun bytes => (decodeVault env.crypto bytes old v.uid).toOption.bind
      fun profile => (encodeVault env.crypto profile new v.uid draws.nonce).toOption
  | .delete _ | .reset => none

theorem bytes_congr (h : w'.get v.file = w.get v.file) : v.bytes w' = v.bytes w := by
  simp only [bytes, h]

/-! ## Before the synchronization -/

/-- The vault file is replaced by the last call, or not at all. -/
theorem safe_replaceFile {bytes suffix : List UInt8} {key : MasterKey} :
    (v.replaceFile env bytes key suffix).run.Safe (handler sys) G (fun _ => True) (fun r w' =>
      match r with
      | .ok _ => v.bytes w' = some bytes
      | .error _ => w'.get v.file = w.get v.file) w := by
  have hne : v.file ≠ v.temporary suffix := temporary_ne_file.symm
  refine Safe.act trivial trivial (fun _ w₁ h₁ => ?_) fun _ _ => rfl
  obtain ⟨-, -, hs₁, -⟩ := exec_createNew h₁
  refine Safe.bindE (safe_setPermissions.mono (fun _ _ => trivial) fun _ _ h => h) ?_ ?_
  swap
  · rintro e w₂ ⟨hp, -⟩
    exact (hp.same _ hne).trans (hs₁.of_ne hne)
  rintro _ w₂ ⟨hp, -⟩
  have hf₂ : w₂.get v.file = w.get v.file := (hp.same _ hne).trans (hs₁.of_ne hne)
  refine Safe.act trivial trivial (fun _ w₃ h₃ => ?_) fun _ _ => hf₂
  obtain ⟨n, -, hs₃, -⟩ := exec_write h₃
  have hf₃ : w₃.get v.file = w.get v.file := (hs₃.of_ne hne).trans hf₂
  refine Safe.look trivial trivial (fun _ _ => ?_) fun _ _ => hf₃
  refine Safe.bindE (safe_readSecureFile trivial) ?_ fun e _ h => h.1 ▸ hf₃
  rintro verified w₄ ⟨rfl, -⟩
  refine Safe.bindE safe_decode ?_ fun e _ h => h.1 ▸ hf₃
  rintro profile w₅ ⟨rfl, -⟩
  refine Safe.last (c := .rename _ _) trivial trivial (fun _ w₆ h₆ => ?_) fun _ _ => hf₃
  obtain ⟨m, hm, -, -, hmove⟩ := exec_rename h₆
  rw [hs₃.self] at hm
  cases hm
  simp only [Vault.bytes, hmove.target, hs₃.self, Option.map_some]

theorem safe_writeVerified {bytes suffix : List UInt8} {key : MasterKey} :
    (v.writeVerified env bytes key suffix).run.Safe (handler sys) G (fun _ => True) (fun r w' =>
      match r with
      | .ok _ => v.bytes w' = some bytes
      | .error _ => w'.get v.file = w.get v.file) w := by
  unfold writeVerified
  split_ifs
  · exact rfl
  refine Safe.look trivial trivial (fun _ _ => ?_) fun _ _ => rfl
  refine Safe.onError safe_replaceFile (fun _ _ h => h) fun e w₁ h => ?_
  refine Safe.ignore trivial (fun _ w₂ h₂ => ?_) fun _ _ => h
  obtain ⟨-, -, -, hs, -⟩ := exec_unlink h₂
  exact (hs.of_ne temporary_ne_file.symm).trans h

theorem safe_writeProfile {profile : Profile} {key : MasterKey} {draws : Draws} :
    (v.writeProfile env profile key draws).run.Safe (handler sys) G (fun _ => True) (fun r w' =>
      match r with
      | .ok _ => v.bytes w' = (encodeVault env.crypto profile key v.uid draws.nonce).toOption
      | .error _ => w'.get v.file = w.get v.file) w := by
  refine Safe.look trivial trivial (fun _ _ => ?_) fun _ _ => rfl
  cases he : encodeVault env.crypto profile key v.uid draws.nonce with
  | error e => exact rfl
  | ok encoded =>
    refine safe_writeVerified.post fun r w' h => ?_
    cases r with
    | ok _ => exact h
    | error _ => exact h

/-- A change is made as a whole, or not at all. -/
theorem safe_change {draws : Draws} (c : Change) :
    (v.change env draws c).run.Safe (handler sys) G (fun _ => True) (fun r w' =>
      match r with
      | .ok _ => v.bytes w' = v.replacement env draws w c
      | .error _ => v.bytes w' = v.bytes w) w := by
  have removed : ∀ {w₁}, exec sys (.unlink v.file) w = (.ok (), w₁) → v.bytes w₁ = none := by
    intro w₁ h
    obtain ⟨n, -, -, hs, -⟩ := exec_unlink h
    simp [Vault.bytes, hs.self]
  cases c with
  | commit key profile =>
    refine Safe.bindE (Q := fun _ w' => w' = w) ?_ ?_ ?_
    · refine Safe.look trivial trivial (fun b _ => ?_) fun _ _ => rfl
      split_ifs
      · refine Safe.bindE (safe_readSecureFile trivial) ?_ fun _ _ h => h.1
        rintro existing w₁ ⟨rfl, -⟩
        refine Safe.bindE safe_decode ?_ fun _ _ h => h.1
        rintro _ w₁ ⟨rfl, -⟩
        exact rfl
      · exact rfl
    · rintro _ w₁ rfl
      refine safe_writeProfile.post fun r w' h => ?_
      cases r with
      | ok _ => exact h
      | error _ => exact bytes_congr h
    · rintro e w₁ rfl
      exact rfl
  | rotate old new =>
    refine Safe.bindE (safe_readSecureFile trivial) ?_ fun _ _ h => h.1 ▸ rfl
    rintro bytes w₁ ⟨rfl, hbytes⟩
    obtain ⟨n, hn, -, -, rfl⟩ := hbytes bytes rfl
    refine Safe.bindE safe_decode ?_ fun _ _ h => h.1 ▸ rfl
    rintro profile w₂ ⟨rfl, hprofile⟩
    refine safe_writeProfile.post fun r w' h => ?_
    cases r with
    | ok _ => simpa [replacement, Vault.bytes, hn, ← hprofile, Except.toOption] using h
    | error _ => exact bytes_congr h
  | delete key =>
    refine Safe.bindE (safe_readSecureFile trivial) ?_ fun _ _ h => h.1 ▸ rfl
    rintro bytes w₁ ⟨rfl, -⟩
    refine Safe.bindE safe_decode ?_ fun _ _ h => h.1 ▸ rfl
    rintro profile w₂ ⟨rfl, -⟩
    exact Safe.last (c := .unlink _) trivial trivial (fun _ w₁ h => removed h) fun _ _ => rfl
  | reset =>
    refine Safe.bindE (safe_validateSecurePath trivial) ?_ fun _ _ h => h.1 ▸ rfl
    rintro st w₁ ⟨rfl, -⟩
    exact Safe.last (c := .unlink _) trivial trivial (fun _ w₁ h => removed h) fun _ _ => rfl

theorem not_works_root {suffix : List UInt8} : ¬ v.Works suffix v.root := by
  have : ∀ n : Name, ¬ v.root ++ [n] <+: v.root := child_not_above v.root
  exact fun h => h.elim (this _) (this _)

theorem not_works_lock {suffix : List UInt8} : ¬ v.Works suffix v.lock := by
  have : ∀ n : Name, v.root ++ [n] <+: v.lock → n = .identityLock := by
    intro n h
    simpa [lock] using h.eq_of_length (by simp [lock])
  rintro (h | h)
  · cases this _ h
  · cases this _ h

/-- A failure of the synchronization. -/
def SyncFault (v : Vault) (st : Step FileCall Files) : Prop :=
  Syncs v.root st.call ∧ st.choice = .fault

theorem safe_syncDirectory (hdir : w.IsDir v.root) :
    v.syncDirectory.run.Safe (handler sys) (fun st => ¬ v.SyncFault st) (fun _ => True)
      (fun r w' => r = .ok () ∧ w' = w) w := by
  obtain ⟨n, hn, hk⟩ := hdir
  refine Safe.look trivial trivial (fun _ _ => ?_) fun e he => ?_
  · refine Safe.last (c := .fsync _) trivial trivial (fun _ w₁ h => ?_) fun e he => ?_
    · exact ⟨rfl, exec_readOnly h trivial⟩
    · obtain h | h := he
      · exact absurd ⟨rfl, rfl⟩ h
      · simp [exec, hn] at h
  · obtain h | h := he
    · exact absurd ⟨rfl, rfl⟩ h
    · simp [exec, hn, hk] at h

/-- The lock is acquired in a directory, and nothing else is changed. -/
theorem safe_acquire (retries : ℕ) :
    (v.acquire env retries).run.Safe (handler sys) G (fun _ => True) (fun r w' =>
      Within (· = v.lock) w w' ∧ (r.isOk → w'.IsDir v.root)) w := by
  have hdir : (v.acquire env retries).run.Safe (handler sys) G (fun _ => True)
      (fun r w' => r.isOk → w'.IsDir v.root) w := by
    refine Safe.bindE (safe_validateDirectory trivial) ?_ fun _ _ _ => nofun
    rintro _ w₁ ⟨rfl, hd⟩
    refine ((safe_within ((calls_tryLock (v := v) (S := (· = v.lock)) rfl retries).mono
      fun _ h => h.1)).mono (fun _ _ => trivial) fun r w' h => ?_)
    exact fun _ => (isDir_congr (h.get _ lock_ne_root.symm)).2 hd.isDir
  exact ((safe_within ((calls_acquire (S := (· = v.lock)) rfl retries).mono fun _ h => h.1)).and
    hdir).mono
    (fun _ _ => trivial) fun _ _ h => h

theorem bytes_of_prepare {r : Except VaultError Unit} {c : Change} {s : List Choice}
    (h : (v.prepare env c).run.run (handler sys) s w = (some r, w')) : v.bytes w' = v.bytes w := by
  have hw := Safe.ends (G := fun _ => True) h (safe_within ((calls_prepare c).mono fun _ h => h.1))
    fun _ _ => trivial
  exact bytes_congr (hw.get _ (child_not_above v.root _))

/-! ## Whole operations -/

/-- The choices for a pattern of failures. -/
def failures (fs : List Bool) : List Choice := fs.map fun b => if b then .fault else .ok

theorem stop_notMem_failures (fs : List Bool) : .stop ∉ failures fs := by
  simp only [failures, List.mem_map, not_exists, not_and]
  intro b _
  cases b <;> nofun

theorem safe_releaseLock {Q : Option (List UInt8) → Prop} (h : Q (v.bytes w)) :
    (ignore (.unlink v.lock) : FileProg Unit).Safe (handler sys) G (fun _ => True)
      (fun _ w' => Q (v.bytes w')) w := by
  refine Safe.ignore trivial (fun _ w₁ h₁ => ?_) fun _ _ => h
  obtain ⟨-, -, -, hs, -⟩ := exec_unlink h₁
  rwa [bytes_congr (hs.of_ne file_ne_lock)]

/-- Unless the synchronization fails, an error leaves the vault as it was. -/
theorem safe_operate_of_sync (retries : ℕ) (draws : Draws) (c : Change) :
    (v.operate env retries draws c).run.Safe (handler sys) (fun st => ¬ v.SyncFault st)
      (fun _ => True) (fun r w' => ¬ r.isOk → v.bytes w' = v.bytes w) w := by
  have prepared : ∀ {w'}, Within (· <+: v.root) w w' → v.bytes w' = v.bytes w := fun h =>
    bytes_congr (h.get _ (child_not_above v.root _))
  have locked : ∀ {w₁ w₂}, Within (· = v.lock) w₁ w₂ → v.bytes w₂ = v.bytes w₁ := fun h =>
    bytes_congr (h.get _ file_ne_lock)
  refine Safe.bindE ((safe_within ((calls_prepare c).mono fun _ h => h.1)).mono
    (fun _ _ => trivial) fun _ _ h => h) ?_ fun _ _ h _ => prepared h
  intro _ w₁ h₁
  refine Safe.bindE (safe_acquire retries) ?_ fun _ _ h _ => (locked h.1).trans (prepared h₁)
  rintro _ w₂ ⟨h₂, hdir⟩
  have hb₂ : v.bytes w₂ = v.bytes w := (locked h₂).trans (prepared h₁)
  refine Safe.inScope (Q := fun r w' => ¬ r.isOk → v.bytes w' = v.bytes w) ?_
    fun r w₃ h₃ => safe_releaseLock (Q := fun b => ¬ r.isOk → b = v.bytes w) h₃
  refine Safe.bindE ((safe_change c).and ((safe_within ((calls_change c).mono
    fun _ h => h.1)).mono (fun _ _ => trivial) fun _ _ h => h) |>.mono (fun _ _ => trivial)
    fun _ _ h => h) ?_ fun _ _ h _ => h.1.trans hb₂
  rintro _ w₃ ⟨-, h₃⟩
  refine (safe_syncDirectory ?_).post fun r w₄ h₄ => ?_
  · exact (isDir_congr (h₃.get _ not_works_root)).2 (hdir rfl)
  · rintro hr
    rw [h₄.1] at hr
    exact absurd rfl hr

theorem io_eq {c : FileCall} {conv : IoError → VaultError} :
    (io conv c).run = .call c fun r => .pure (r.mapError conv) := by
  change Prog.call c _ = _
  congr 1
  funext r
  cases r <;> rfl

/-- A call that is made to fail is an error, and changes nothing. -/
theorem run_io_of_fault {c : FileCall} {conv : IoError → VaultError} {s : List Choice}
    {st : Step FileCall Files} (hc : c.faultReply = some (.error .other))
    (hst : st ∈ (io conv c).run.steps (handler sys) s w) (hf : st.choice = .fault) :
    (io conv c).run.run (handler sys) s w = (some (.error (conv .other)), w) := by
  rw [io_eq] at hst ⊢
  match s, hst with
  | [], hst =>
    obtain rfl := List.mem_singleton.1 hst
    cases hf
  | .ok :: s, hst =>
    obtain rfl := List.mem_singleton.1 hst
    cases hf
  | .stop :: s, hst =>
    obtain rfl := List.mem_singleton.1 hst
    cases hf
  | .fault :: s, _ => simp only [run, handler, hc, Except.mapError]

/-- A synchronization with a failure is an error, and changes nothing. -/
theorem error_of_syncFault {s : List Choice} {st : Step FileCall Files}
    (hst : st ∈ v.syncDirectory.run.steps (handler sys) s w) (hf : st.choice = .fault) :
    ∃ e, v.syncDirectory.run.run (handler sys) s w = (some (.error e), w) := by
  have open_fault : ∀ {st : Step FileCall Files}, st.choice = .fault →
      st ∈ (io VaultError.ofIo (.openFile v.root)).run.steps (handler sys) s w →
      (io VaultError.ofIo (.openFile v.root)).run.run (handler sys) s w =
        (some (.error (.ofIo .other)), w) := fun hf hst => run_io_of_fault rfl hst hf
  obtain ⟨w₁, h₁, -, h₃⟩ | ⟨e, w₁, h₁, h₂, h₃⟩ | ⟨_, w₁, s', h₁, h₂, -, h₃⟩ :=
    run_bindE (H := handler sys) (io VaultError.ofIo (.openFile v.root))
      (fun _ => io VaultError.ofIo (.fsync v.root)) s w
  · have h : st ∈ _ := h₃ ▸ hst
    rw [open_fault hf h] at h₁
    cases h₁
  · have h : st ∈ _ := h₃ ▸ hst
    rw [open_fault hf h] at h₁
    cases h₁
    exact ⟨_, h₂⟩
  · have h : st ∈ _ := h₃ ▸ hst
    rcases List.mem_append.1 h with hopen | hsync
    · rw [open_fault hf hopen] at h₁
      cases h₁
    · have hs : (io VaultError.ofIo (.openFile v.root)).run.Safe (handler sys) (fun _ => True)
          (fun _ => True) (fun _ w' => w' = w) w := by
        exact Safe.last (c := .openFile _) trivial trivial (fun _ w' h => exec_readOnly h trivial)
          fun _ _ => rfl
      obtain rfl := hs.ends h₁ fun _ _ => trivial
      exact ⟨_, h₂.trans (run_io_of_fault rfl hsync hf)⟩

/-- After a failed synchronization the change has been made, and an error is
    returned. -/
theorem operate_of_syncFault {retries : ℕ} {draws : Draws} {c : Change} {fs : List Bool}
    {st : Step FileCall Files}
    (hst : st ∈ (v.operate env retries draws c).run.steps (handler sys) (failures fs) w)
    (hf : v.SyncFault st) :
    ∃ e w', (v.operate env retries draws c).run.run (handler sys) (failures fs) w =
      (some (.error e), w') ∧ v.bytes w' = v.replacement env draws w c := by
  have hstop := stop_notMem_failures fs
  generalize failures fs = s at hst hstop ⊢
  -- the step is none of the programs that do not synchronize
  have hsync : ∀ {S : Path → Prop} {α : Type} {p : FileProg α} {s w},
      p.Calls (v.Allowed S) → st ∉ p.steps (handler sys) s w := by
    intro S α p s w hp hmem
    exact (hp.steps hmem).2 hf.1
  obtain ⟨w₁, -, -, h₃⟩ | ⟨e, w₁, -, -, h₃⟩ | ⟨_, w₁, s₁, h₁, h₂, hs₁, h₃⟩ :=
    run_bindE (H := handler sys) (v.prepare env c) (fun _ => v.withLock env retries do
      v.change env draws c
      v.syncDirectory) s w
  · exact absurd (h₃ ▸ hst) (hsync (calls_prepare c))
  · exact absurd (h₃ ▸ hst) (hsync (calls_prepare c))
  have hb₁ : v.bytes w₁ = v.bytes w := bytes_of_prepare h₁
  have hst₁ : st ∈ _ ++ _ := h₃ ▸ hst
  replace hst₁ := (List.mem_append.1 hst₁).resolve_left (hsync (calls_prepare c))
  obtain ⟨w₂, -, -, h₆⟩ | ⟨e, w₂, -, -, h₆⟩ | ⟨_, w₂, s₂, h₄, h₅, hs₂, h₆⟩ :=
    run_bindE (H := handler sys) (v.acquire env retries) (fun _ => inScope (do
      v.change env draws c
      v.syncDirectory) (ignore (.unlink v.lock))) s₁ w₁
  · exact absurd (h₆ ▸ hst₁) (hsync (calls_acquire (S := (· = v.lock)) rfl retries))
  · exact absurd (h₆ ▸ hst₁) (hsync (calls_acquire (S := (· = v.lock)) rfl retries))
  have hb₂ : v.bytes w₂ = v.bytes w₁ := by
    have := Safe.ends (G := fun _ => True) h₄ (safe_acquire retries) fun _ _ => trivial
    exact bytes_congr (this.1.get _ file_ne_lock)
  have hst₂ : st ∈ _ ++ _ := h₆ ▸ hst₁
  replace hst₂ := (List.mem_append.1 hst₂).resolve_left
    (hsync (calls_acquire (S := (· = v.lock)) rfl retries))
  have hstop₂ : .stop ∉ s₂ := fun h => hstop ((hs₂.trans hs₁).subset h)
  -- the body of the scope, and then the release of the lock
  obtain ⟨w₃, h₇, -, -⟩ | ⟨r, w₃, s₃, h₇, h₈, hs₃, h₉⟩ := run_bind (H := handler sys)
    (do
      v.change env draws c
      v.syncDirectory : ExceptT VaultError FileProg Unit).run
    (fun r => (do
      ignore (.unlink v.lock)
      return r : FileProg (Except VaultError Unit))) s₂ w₂
  · obtain ⟨a, w', h⟩ := run_ends (H := handler sys) (do
      v.change env draws c
      v.syncDirectory : ExceptT VaultError FileProg Unit).run hstop₂ w₂
    rw [h₇] at h
    cases h
  have hst₃ : st ∈ _ ++ _ := h₉ ▸ hst₂
  replace hst₃ := (List.mem_append.1 hst₃).resolve_right (hsync (S := (· = v.lock))
    (Calls.bind (calls_ignore.2 (allowed_of_mem not_false rfl fun _ h => h)) fun _ => trivial))
  obtain ⟨w₄, -, -, h⟩ | ⟨e, w₄, -, -, h⟩ | ⟨_, w₄, s₄, h₁₀, h₁₁, hs₄, h₁₂⟩ :=
    run_bindE (H := handler sys) (v.change env draws c) (fun _ => v.syncDirectory) s₂ w₂
  · exact absurd (h ▸ hst₃) (hsync (calls_change c))
  · exact absurd (h ▸ hst₃) (hsync (calls_change c))
  have hst₄ : st ∈ _ ++ _ := h₁₂ ▸ hst₃
  replace hst₄ := (List.mem_append.1 hst₄).resolve_left (hsync (calls_change c))
  obtain ⟨e, he⟩ := error_of_syncFault hst₄ hf.2
  have hb₄ : v.bytes w₄ = v.replacement env draws w c := by
    have := Safe.ends (G := fun _ => True) h₁₀ (safe_change c) fun _ _ => trivial
    refine this.trans ?_
    cases c <;> simp only [replacement, hb₂, hb₁]
  have hbody := h₇.symm.trans (h₁₁.trans he)
  obtain ⟨rfl, rfl⟩ : r = .error e ∧ w₃ = w₄ := by simpa using hbody
  obtain ⟨r, w', hr⟩ := run_ends (H := handler sys) (do
    ignore (.unlink v.lock)
    return .error e : FileProg (Except VaultError Unit)) (fun h => hstop₂ (hs₃.subset h)) w₃
  have hend : r = .error e ∧ v.bytes w' = v.replacement env draws w c := by
    have hsafe : (do
        ignore (.unlink v.lock)
        return .error e : FileProg (Except VaultError Unit)).Safe (handler sys) (fun _ => True)
        (fun _ => True)
        (fun r w' => r = .error e ∧ v.bytes w' = v.replacement env draws w c) w₃ :=
      (safe_releaseLock (Q := (· = v.replacement env draws w c)) hb₄).bind fun _ _ h => ⟨rfl, h⟩
    have := hsafe.ends hr fun _ _ => trivial
    exact this
  obtain ⟨rfl, hb⟩ := hend
  exact ⟨e, w', h₂.trans (h₅.trans (h₈.trans hr)), hb⟩

/-- An operation that returns an error has left the vault as it was, unless the
    synchronization of the directory failed, after a change of its content. -/
theorem operate_error_iff (sys : Sys Name) (env : Env) (v : Vault) (retries : ℕ) (draws : Draws)
    (c : Change) (fs : List Bool) (w : Files) :
    (∀ e w', (v.operate env retries draws c).run.run (handler sys) (failures fs) w =
        (some (.error e), w') → v.bytes w' = v.bytes w) ↔
      ¬ ((∃ st ∈ (v.operate env retries draws c).run.steps (handler sys) (failures fs) w,
          v.SyncFault st) ∧ v.replacement env draws w c ≠ v.bytes w) := by
  constructor
  · rintro h ⟨⟨st, hst, hf⟩, hne⟩
    obtain ⟨e, w', hrun, hb⟩ := operate_of_syncFault hst hf
    exact hne (hb.symm.trans (h e w' hrun))
  · intro h e w' hrun
    by_cases hf : ∃ st ∈ (v.operate env retries draws c).run.steps (handler sys) (failures fs) w,
        v.SyncFault st
    · obtain ⟨st, hst, hf'⟩ := hf
      obtain ⟨e', w₁, hrun', hb⟩ := operate_of_syncFault hst hf'
      rw [hrun] at hrun'
      cases hrun'
      rw [hb]
      by_contra hne
      exact h ⟨⟨st, hst, hf'⟩, hne⟩
    · exact Safe.ends hrun (safe_operate_of_sync retries draws c)
        (fun st hst hs => hf ⟨st, hst, hs⟩) nofun

/-! ## A failed synchronization -/

/-- The vault of user 1000. -/
def exampleVault : Vault := ⟨[.other "home"], 1000, .userSession⟩

/-- Its directory, with a vault that no longer decodes. -/
def exampleFiles : Files where
  entries := [([.other "home"], ⟨.dir, 1000, 1000, 0o700, 1, 1, []⟩),
    ([.other "home", .identityVault], ⟨.file, 1000, 1000, 0o600, 1, 2, [1, 2, 3]⟩)]
  next := 3
  locks := []
  log := []

/-- Resetting an unreadable vault removes it and returns an error if the last
    call fails. -/
theorem operate_error_iff_fails :
    ∃ e w', (exampleVault.resetUnreadable ⟨plainCrypto, none⟩ 0 ⟨[], []⟩).run.run
        (handler (.byDepth 1000 1000 0o22))
        (failures [false, false, false, false, false, false, false, false, true]) exampleFiles =
      (some (.error e), w') ∧ exampleVault.bytes exampleFiles = some [1, 2, 3] ∧
      exampleVault.bytes w' = none := by
  refine ⟨.io, _, Prod.ext ?_ rfl, rfl, ?_⟩
  · decide +kernel
  · decide +kernel

end Vault

end KFaceAuth
