import KFaceAuth.Vault.Atomic

/-!
# The lock of a vault

The lock is a file that an operation creates and removes at its end. It is left
behind by a process that is killed while it holds the lock, and by an early
return of `acquire` after the file is created: only the check of the metadata
cleans up. A lock that is left behind is never removed, and every later attempt
to acquire it times out (`acquire_of_locked`).

* `acquire_after_runs`: after any operations, the lock can be acquired, if none
  was killed while the lock file existed, and no call on that file failed.
-/

namespace KFaceAuth

open Prog Fs

namespace Vault

variable {sys : Sys Name} {env : Env} {v : Vault} {G : Step FileCall Files → Prop} {w w' : Files}

/-! ## Acquiring the lock -/

/-- A file created by the process may serve as a file of the vault. -/
def CreatesValid (v : Vault) (sys : Sys Name) : Prop :=
  v.kind = .userSession → sys.uid = v.uid.toNat ∧ sys.mode v.kind.fileMode &&& 0o777 =
    v.kind.fileMode

/-- The metadata of the lock file, once its permissions are set, is as checked. -/
theorem fileValid_of_permits {n m : Node (List UInt8)} {w₀ : Files}
    (hn : n = w₀.newNode sys .file v.kind.fileMode) (hsys : v.CreatesValid sys)
    (hw : w.get v.lock = some n) (hm : w'.get v.lock = some m)
    (hp : Permits env v.lock 0 v.kind.fileMode .kfaceauth w w')
    (hu : v.kind = .userSession → w' = w)
    (hs : v.kind = .system → Permitted env v.lock 0 v.kind.fileMode .kfaceauth w w') :
    v.FileValid env m := by
  subst hn
  cases hk : v.kind with
  | userSession =>
    obtain rfl := hu hk
    rw [hw] at hm
    cases hm
    obtain ⟨huid, hmode⟩ := hsys hk
    exact ⟨rfl, hk ▸ huid, rfl, hmode⟩
  | system =>
    obtain ⟨n, gid, hn, -, hg, hw'⟩ := hs hk
    rw [hw] at hn
    cases hn
    rw [hm] at hw'
    cases hw'
    refine ⟨rfl, ?_, rfl, ?_⟩
    · rw [hk]
      exact ⟨rfl, hg⟩
    · simp [hk, VaultKind.fileMode]

/-- Once the lock file is created, the lock is held, or the file is removed
    again, unless a call on it fails. -/
theorem safe_secureLock {w₀ : Files} (hG : ¬ Disturbs G v.lock)
    (hgroup : v.kind = .system → env.group ≠ none)
    (hw : w.get v.lock = some (w₀.newNode sys .file v.kind.fileMode)) :
    (v.secureLock env).run.Safe (handler sys) G (fun _ => True) (fun r w' =>
      match r with
      | .ok _ => ∃ n, w'.get v.lock = some n ∧ n.kind = .file
      | .error e => e ≠ .lockTimeout ∧ w'.get v.lock = none ∧
          (MayFail G ∨ ¬ v.CreatesValid sys)) w := by
  have disturbed : ∀ {c : FileCall} {w' : Files} {e : IoError} {n}, Fails sys G c w' e →
      w'.get v.lock = some n → FsCall.Concerns v.lock c → (exec sys c w').1 = .error e :=
    fun h hn hc => h.resolve_left fun g => hG ⟨_, _, hc, by simp [hn], g⟩
  refine Safe.bindE (Q := fun r w' => r.isOk ∧ (v.kind = .userSession → w' = w) ∧
    Permits env v.lock 0 v.kind.fileMode .kfaceauth w w' ∧
    (v.kind = .system → Permitted env v.lock 0 v.kind.fileMode .kfaceauth w w')) ?_ ?_ ?_
  · have huser : (v.setPermissions env v.lock).run.Safe (handler sys) G (fun _ => True)
        (fun _ w' => v.kind = .userSession → w' = w) w := by
      unfold setPermissions
      cases hk : v.kind with
      | userSession => exact fun _ => rfl
      | system => exact (safe_orUnsafe safe_setFdPermissions (T := fun _ _ => True)
          (fun _ _ _ => trivial) fun _ _ _ => trivial).mono (fun _ _ => trivial) fun _ _ _ h => by cases h
    refine (huser.and safe_setPermissions).mono (fun _ _ => trivial) fun r w' h => ?_
    obtain ⟨hu, hp, hr⟩ := h
    cases r with
    | ok _ => exact ⟨rfl, hu, hp, hr⟩
    | error e =>
      obtain ⟨hk, -, hd | hnone | hlink⟩ := hr
      · exact absurd hd hG
      · exact absurd hnone (hgroup hk)
      · cases hlink _ hw
  · rintro _ w₁ ⟨-, hu, hp, hs⟩
    obtain ⟨n, hn, hkind⟩ : ∃ n, w₁.get v.lock = some n ∧ n.kind = .file := by
      obtain h | ⟨n, gid, hn, -, h | h⟩ := hp.node
      · exact ⟨_, h.trans hw, rfl⟩
      all_goals
        rw [hw] at hn
        cases hn
        exact ⟨_, h, rfl⟩
    refine Safe.look trivial trivial (fun st hst => ?_) fun e he => ?_
    swap
    · have := disturbed he hn rfl
      simp [exec, hn] at this
    obtain ⟨m, hm, rfl⟩ := hst.fstat
    rw [hn] at hm
    cases hm
    refine Safe.liftE (safe_isOwnerValid trivial) fun owner w₂ ho => ?_
    obtain ⟨rfl, ho⟩ := ho
    split_ifs with hc
    · refine Safe.liftE (Q := fun _ w' => w'.get v.lock = none) ?_ fun _ w₃ h₃ =>
        ⟨by simp, h₃, ?_⟩
      · refine Safe.ignore trivial (fun _ w₃ h₃ => ?_) fun e he => ?_
        · obtain ⟨-, -, -, hs₃, -⟩ := exec_unlink h₃
          exact hs₃.self
        · have := disturbed he hn rfl
          simp [exec, hn, hkind] at this
      · by_contra! hno
        obtain ⟨hfail, hsys⟩ := hno
        have hv := fileValid_of_permits rfl hsys hw hn hp hu hs
        rcases hc with hc | hc | hc
        · subst hc
          exact ho.elim hfail fun h => h hv.owner
        · exact hc hv.mode
        · exact hc hv.nlink
    · refine Safe.last (c := .fsync _) trivial trivial (fun _ w₃ h₃ => ?_) fun e he => ?_
      · obtain rfl := exec_readOnly h₃ trivial
        exact ⟨n, hn, hkind⟩
      · have := disturbed he hn rfl
        simp [exec, hn] at this
  · rintro e w₁ ⟨h, -⟩
    cases h

/-- A lock that is free is acquired, or stays free, unless a call on its file
    fails. -/
theorem safe_acquire_of_free (hG : ¬ Disturbs G v.lock) (hw : w.get v.lock = none)
    (retries : ℕ) :
    (v.acquire env retries).run.Safe (handler sys) G (fun _ => True) (fun r w' =>
      match r with
      | .ok _ => ∃ n, w'.get v.lock = some n ∧ n.kind = .file
      | .error e => w'.get v.lock = none ∧ (MayFail G ∨
          e ≠ .lockTimeout ∧ (v.DirectoryValid env w → ¬ v.CreatesValid sys))) w := by
  refine Safe.bindE (safe_validateDirectory trivial) ?_ ?_
  swap
  · rintro e w₁ ⟨rfl, hne, hd⟩
    exact ⟨hw, hd.imp_right fun hd => ⟨hne, fun h => absurd h hd⟩⟩
  rintro _ w₁ ⟨rfl, hd⟩
  have hgroup : v.kind = .system → env.group ≠ none := by
    rintro hk
    obtain ⟨n, -, -, ho, -⟩ := hd
    rw [hk] at ho
    simp [ho.2]
  unfold tryLock
  refine Safe.liftE (Q := Post
    (fun _ w' => w'.get v.lock = some (w₁.newNode sys .file v.kind.fileMode))
    fun e w' => MayFail G ∧ e = .other ∧ w' = w₁) ⟨fun _ => trivial, fun _ => ?_, ?_⟩ ?_
  · rcases hx : exec sys (.createNew v.lock v.kind.fileMode) w₁ with ⟨_ | _, w₂⟩
    · have he := create_error (congrArg Prod.fst hx)
      rcases he with ⟨hs, -⟩ | ⟨hnd, -⟩
      · simp [hw] at hs
      · exact absurd (by simpa [lock] using hd.isDir) hnd
    · obtain ⟨-, -, hs, -⟩ := exec_createNew hx
      simp only [handler, hx]
      exact hs.self
  · rintro r ⟨⟩ hg
    exact ⟨⟨_, _, hg⟩, rfl, rfl⟩
  · rintro r w₂ hr
    rcases r with e | _
    · obtain ⟨hmay, rfl, rfl⟩ := hr
      exact ⟨hw, .inl hmay⟩
    · refine (safe_secureLock hG hgroup hr).post fun r w₃ h₃ => ?_
      cases r with
      | ok _ => exact h₃
      | error e => exact ⟨h₃.2.1, h₃.2.2.imp_right fun h => ⟨h₃.1, fun _ => h⟩⟩

/-! ## Runs of operations -/

/-- A step at which the lock file is not left behind: while it exists, the
    process is not killed, and no call on it fails. -/
def KeepsLock (v : Vault) (st : Step FileCall Files) : Prop :=
  st.before.get v.lock ≠ none →
    st.choice ≠ .stop ∧ (st.choice = .fault → ¬ FsCall.Concerns v.lock st.call)

instance (p : Path) (c : FileCall) : Decidable (FsCall.Concerns p c) :=
  match c with
  | .fstat q | .query q | .chown q _ _ | .chmod q _ | .fsync q | .unlink q =>
    inferInstanceAs (Decidable (q = p))
  | .lstat _ | .pathExists _ | .isDir _ | .openFile _ | .openDir _ | .read _ | .mkdir _ _
  | .createNew _ _ | .openCreate _ _ | .write _ _ | .rename _ _ | .rmdir _ | .readDir _ | .walk _
  | .lock _ | .unlock _ | .spawn => inferInstanceAs (Decidable False)

instance (v : Vault) (st : Step FileCall Files) : Decidable (v.KeepsLock st) :=
  inferInstanceAs (Decidable (_ → _))

theorem not_disturbs_keepsLock : ¬ Disturbs v.KeepsLock v.lock := by
  rintro ⟨c, w, hc, hs, hG⟩
  exact (hG (by simpa [Option.isSome_iff_ne_none] using hs)).2 rfl hc

/-- An operation that ends leaves the lock free. -/
theorem safe_operate_free (hw : w.get v.lock = none) (retries : ℕ) (draws : Draws) (c : Change) :
    (v.operate env retries draws c).run.Safe (handler sys) v.KeepsLock (fun _ => True)
      (fun _ w' => w'.get v.lock = none) w := by
  refine Safe.bindE ((safe_within ((calls_prepare c).mono fun _ h => h.1)).mono
    (fun _ _ => trivial) fun _ _ h => (h.get _ (child_not_above v.root _)).trans hw) ?_
    fun _ _ h => h
  intro _ w₁ h₁
  refine Safe.bindE (safe_acquire_of_free not_disturbs_keepsLock h₁ retries) ?_
    fun _ _ h => h.1
  rintro _ w₂ ⟨n, hn, hk⟩
  refine Safe.inScope (Q := fun _ w' => w'.get v.lock = some n) ?_ fun r w₃ h₃ => ?_
  · refine Safe.bindE ((safe_within ((calls_change c).mono fun _ h => h.1)).mono
      (fun _ _ => trivial) fun _ _ h => (h.get _ not_works_lock).trans hn) ?_ fun _ _ h => h
    intro _ w₃ h₃
    refine Safe.look trivial trivial (fun _ _ => ?_) fun _ _ => h₃
    refine Safe.last (c := .fsync _) trivial trivial (fun _ w₄ h₄ => ?_) fun _ _ => h₃
    obtain rfl := exec_readOnly h₄ trivial
    exact h₃
  · refine Safe.ignore trivial (fun _ w₄ h₄ => ?_) fun e he => ?_
    · obtain ⟨-, -, -, hs, -⟩ := exec_unlink h₄
      exact hs.self
    · exfalso
      rcases he with g | he
      · exact not_disturbs_keepsLock ⟨.unlink v.lock, w₃, rfl, by simp [h₃], g⟩
      · simp [exec, h₃, hk] at he

/-- A run of an operation: the process, what it draws, and what happens at its
    calls. -/
structure Run where
  sys : Sys Name
  env : Env
  retries : ℕ
  draws : Draws
  change : Change
  choices : List Choice

namespace Run

def program (v : Vault) (r : Run) : ExceptT VaultError FileProg Unit :=
  v.operate r.env r.retries r.draws r.change

/-- What the run leaves, however it ended. -/
def leaves (v : Vault) (r : Run) (w : Files) : Files :=
  ((r.program v).run.run (handler r.sys) r.choices w).2

def steps (v : Vault) (r : Run) (w : Files) : List (Step FileCall Files) :=
  (r.program v).run.steps (handler r.sys) r.choices w

theorem free_of_keepsLock {r : Run} (hw : w.get v.lock = none)
    (hs : ∀ st ∈ r.steps v w, v.KeepsLock st) : (r.leaves v w).get v.lock = none := by
  rcases h : (r.program v).run.run (handler r.sys) r.choices w with ⟨_ | res, w'⟩
  · -- a killed process held no lock
    obtain ⟨c, hc⟩ := stop_mem_steps h
    rw [leaves, h]
    by_contra hne
    exact (hs _ hc hne).1 rfl
  · rw [leaves, h]
    have := Safe.ends h (safe_operate_free hw r.retries r.draws r.change) hs
    exact this

end Run

/-- What operations, one after the other, leave. -/
def leaves (v : Vault) : List Run → Files → Files
  | [], w => w
  | r :: rs, w => v.leaves rs (r.leaves v w)

/-- The steps of operations, one after the other. -/
def steps (v : Vault) : List Run → Files → List (Step FileCall Files)
  | [], _ => []
  | r :: rs, w => r.steps v w ++ v.steps rs (r.leaves v w)

theorem free_of_keepsLock (rs : List Run) (hw : w.get v.lock = none)
    (hs : ∀ st ∈ v.steps rs w, v.KeepsLock st) : (v.leaves rs w).get v.lock = none := by
  induction rs generalizing w with
  | nil => exact hw
  | cons r rs ih =>
    refine ih (Run.free_of_keepsLock hw fun st hst => ?_) fun st hst => ?_
    · exact hs st (List.mem_append_left _ hst)
    · exact hs st (List.mem_append_right _ hst)

/-- After any operations, the next process alone never times out on the lock,
    and acquires it in a valid directory, if none of the operations was killed
    while the lock file existed, and no call on that file failed. -/
theorem acquire_after_runs (v : Vault) (rs : List Run) (w : Files) (hw : w.get v.lock = none)
    (hs : ∀ st ∈ v.steps rs w, v.KeepsLock st) (sys : Sys Name) (env : Env) (retries : ℕ) :
    ((v.acquire env retries).run.run (handler sys) [] (v.leaves rs w)).1 ≠
        some (.error .lockTimeout) ∧
      (v.DirectoryValid env (v.leaves rs w) → v.CreatesValid sys →
        ((v.acquire env retries).run.run (handler sys) [] (v.leaves rs w)).1 = some (.ok ())) := by
  have hfree := free_of_keepsLock rs hw hs
  obtain ⟨r, w', hr⟩ := run_ends (H := handler sys) (v.acquire env retries).run
    (s := []) List.not_mem_nil (v.leaves rs w)
  have := Safe.ends hr (safe_acquire_of_free (fun h => not_mayFail_ok h.mayFail) hfree retries)
    fun st hst => choice_of_steps_nil hst
  rw [hr]
  cases r with
  | ok _ => exact ⟨nofun, fun _ _ => rfl⟩
  | error e =>
    obtain ⟨hne, hvalid⟩ := this.2.resolve_left not_mayFail_ok
    exact ⟨by simpa using hne, fun hd hsys => absurd hsys (hvalid hd)⟩

/-- The operations of the example are made by the user of the vault. -/
theorem acquire_after_runs_example :
    ((exampleVault.acquire ⟨plainCrypto, none⟩ 3).run.run (handler (.byDepth 1000 1000 0o22)) []
      (exampleVault.leaves [⟨.byDepth 1000 1000 0o22, ⟨plainCrypto, none⟩, 0, ⟨[], []⟩, .reset,
        failures [false, false, false, false, false, true]⟩] exampleFiles)).1 = some (.ok ()) := by
  refine (acquire_after_runs exampleVault _ exampleFiles (by decide +kernel) ?_ _ _ 3).2 ?_ ?_
  · decide +kernel
  · exact ⟨⟨.dir, 1000, 1000, 0o700, 1, 1, []⟩, by decide +kernel, rfl, rfl, by decide⟩
  · exact fun _ => ⟨rfl, by decide⟩

/-! ## A lock left behind -/

/-- While the lock file exists, every attempt to acquire the lock times out. -/
theorem acquire_of_locked (hd : v.DirectoryValid env w) (hl : (w.get v.lock).isSome)
    (sys : Sys Name) (retries : ℕ) :
    ((v.acquire env retries).run.run (handler sys) [] w).1 = some (.error .lockTimeout) := by
  have htry : ∀ n, (v.tryLock env n).run.Safe (handler sys) (fun st => st.choice = .ok)
      (fun _ => True) (fun r _ => r = .error .lockTimeout) w := by
    intro n
    have hexec : exec sys (.createNew v.lock v.kind.fileMode) w = (.error .alreadyExists, w) := by
      simp [exec, create, hl]
    induction n with
    | zero =>
      unfold tryLock
      refine ⟨fun h => (by cases h), fun _ => ?_, fun _ _ h => by cases h⟩
      simp only [handler, hexec]
      rfl
    | succ n ih =>
      unfold tryLock
      refine ⟨fun h => (by cases h), fun _ => ?_, fun _ _ h => by cases h⟩
      simp only [handler, hexec]
      exact ih
  have hsafe : (v.acquire env retries).run.Safe (handler sys) (fun st => st.choice = .ok)
      (fun _ => True) (fun r _ => r = .error .lockTimeout) w := by
    refine Safe.bindE (safe_validateDirectory trivial) ?_ ?_
    · rintro _ w₁ ⟨rfl, -⟩
      exact htry retries
    · rintro e w₁ ⟨rfl, -, h⟩
      exact absurd hd (h.resolve_left not_mayFail_ok)
  obtain ⟨r, w', hr⟩ := run_ends (H := handler sys) (v.acquire env retries).run (s := [])
    List.not_mem_nil w
  rw [hr]
  have := hsafe.ends hr fun st hst => choice_of_steps_nil hst
  exact congrArg some this

/-- A reset that returns an error as the lock file fails to be synchronized, and
    one killed while it holds the lock, both make every later attempt time out. -/
theorem acquire_after_runs_fails :
    exampleFiles.get exampleVault.lock = none ∧
    (∃ e, ((exampleVault.resetUnreadable ⟨plainCrypto, none⟩ 0 ⟨[], []⟩).run.run
        (handler (.byDepth 1000 1000 0o22)) (failures [false, false, false, false, true])
        exampleFiles).1 = some (.error e)) ∧
    ∀ choices ∈ [failures [false, false, false, false, true], [.ok, .ok, .ok, .ok, .ok, .stop]],
      ∀ (sys : Sys Name) (retries : ℕ),
        ((exampleVault.acquire ⟨plainCrypto, none⟩ retries).run.run (handler sys) []
          (exampleVault.leaves [⟨.byDepth 1000 1000 0o22, ⟨plainCrypto, none⟩, 0, ⟨[], []⟩, .reset,
            choices⟩] exampleFiles)).1 = some (.error .lockTimeout) := by
  refine ⟨by decide +kernel, ⟨.io, by decide +kernel⟩, fun choices hc sys retries => ?_⟩
  refine acquire_of_locked ⟨⟨.dir, 1000, 1000, 0o700, 1, 1, []⟩, ?_, rfl, ?_, ?_⟩ ?_ sys retries
  · revert choices
    decide +kernel
  · exact rfl
  · decide
  · revert choices
    decide +kernel

end Vault

end KFaceAuth
