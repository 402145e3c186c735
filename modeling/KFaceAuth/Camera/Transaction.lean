import KFaceAuth.Camera.Config

/-!
# The transaction of the camera configuration

What a run of `transaction` leaves, whatever its calls do.

* `ensures_readConfig`: what is read is what the file holds, and reading changes
  nothing;
* `transaction_restores`: unless the rollback is reported as failed, a transaction
  that fails leaves the file and the service as they were, and one that succeeds
  leaves the new file and the service active.
-/

namespace KFaceAuth

namespace Camera

open Prog

variable {sys : Sys FileName} {w w' : World} {owner : ℕ}

/-- A call that only looks at the file system changes nothing. -/
theorem Happens.readOnly {c : FsCall FileName (List UInt8)} {r : c.Reply}
    (h : Happens sys (.fs c) w r w') (hc : Fs.ReadOnly c) : w' = w := by
  have hfs : (Fs.exec sys c w.fs).2 = w.fs := by
    rcases hexec : Fs.exec sys c w.fs with ⟨r', fs'⟩
    exact Fs.exec_readOnly hexec hc
  cases h with
  | done => rw [hfs]
  | failed => rfl
  | late => rw [hfs]
  | half => exact hc.elim

/-- A value that is replied without a fault is that of the call. -/
theorem Happens.value {c : FsCall FileName (List UInt8)} {v : c.Value}
    (h : Happens sys (.fs c) w (.ok v) w') (hc : c.Errs) : (Fs.exec sys c w.fs).1 = .ok v := by
  have hfault := hc.faultReply
  generalize hr : (Except.ok v : c.Reply) = r at h
  cases h with
  | done => rfl
  | failed h =>
    rw [hfault] at h
    cases h
    cases hr
  | late h =>
    rw [hfault] at h
    cases h
    cases hr
  | half => cases hr

/-- An error that is told apart is that of the call. -/
theorem Happens.notFound {c : FsCall FileName (List UInt8)}
    (h : Happens sys (.fs c) w (.error .notFound) w') (hc : c.Errs) :
    (Fs.exec sys c w.fs).1 = .error .notFound := by
  have hfault := hc.faultReply
  generalize hr : (Except.error .notFound : c.Reply) = r at h
  cases h with
  | done => rfl
  | failed h =>
    rw [hfault] at h
    cases h
    cases hr
  | late h =>
    rw [hfault] at h
    cases h
    cases hr
  | half => cases hr

/-- A call that only looks, in a program that gives up at the first error: the
    value is right, and nothing changes. -/
theorem Ensures.check {α : Type} {e : ConfigError} {c : FsCall FileName (List UInt8)}
    {f : c.Value → ExceptT ConfigError ConfigProg α} {Q : Except ConfigError α → World → Prop}
    (hc : c.Errs) (hread : Fs.ReadOnly c)
    (hok : ∀ v, (Fs.exec sys c w.fs).1 = .ok v → (f v).run.Ensures (Happens sys) Q w)
    (herr : Q (.error e) w) : (check e c >>= f).run.Ensures (Happens sys) Q w := by
  intro r w' h
  obtain rfl := h.readOnly hread
  rcases r with e' | v
  · exact herr
  · exact hok v (h.value hc)

/-- Of a file that is there, what is read is what it holds. -/
theorem ensures_readPresent (owner : ℕ) (w : World) :
    (readPresent owner).run.Ensures (Happens sys)
      (fun r w' => w' = w ∧ ∀ bytes, r = .ok bytes → some bytes = w.config) w := by
  have herr : ∀ e : ConfigError, w = w ∧ ∀ bytes : List UInt8,
      (Except.error e : Except ConfigError (List UInt8)) = .ok bytes → some bytes = w.config :=
    fun e => ⟨rfl, nofun⟩
  refine Ensures.check trivial trivial (fun _ _ => ?_) (herr _)
  refine Ensures.check trivial trivial (fun before _ => ?_) (herr _)
  split
  · exact herr _
  refine Ensures.check trivial trivial (fun data hdata => ?_) (herr _)
  have hconfig : w.config = some data := by
    simp only [Fs.exec] at hdata
    rcases hnode : w.fs.get [.config] with _ | n
    · rw [hnode] at hdata
      cases hdata
    · simp only [hnode] at hdata
      split at hdata
      · cases hdata
        rw [World.config, hnode]
        rfl
      · cases hdata
  dsimp only
  split
  · exact herr _
  next hlen =>
  refine Ensures.check trivial trivial (fun after _ => ?_) (herr _)
  refine Ensures.check trivial trivial (fun _ _ => ?_) (herr _)
  refine Ensures.check trivial trivial (fun current _ => ?_) (herr _)
  split
  · exact herr _
  · refine ⟨rfl, fun bytes hbytes => ?_⟩
    cases hbytes
    -- What was read is not longer than the bound, so that it is all there is.
    rw [hconfig, List.take_of_length_le]
    rw [not_or, Nat.not_lt, List.length_take] at hlen
    omega

/-- What is read is what the file holds, and reading changes nothing. -/
theorem ensures_readConfig (owner : ℕ) (w : World) :
    (readConfig owner).run.Ensures (Happens sys)
      (fun r w' => w' = w ∧ ∀ bytes, r = .ok bytes → bytes = w.config) w := by
  refine Ensures.liftE (Q := fun r w' => w' = w ∧ (r = .error .notFound → w.config = none))
    (fun r w' h => ?_) fun r w' => ?_
  · obtain rfl := h.readOnly (c := .lstat [.config]) trivial
    refine ⟨rfl, ?_⟩
    rintro rfl
    have hget := h.notFound trivial
    simp only [Fs.exec] at hget
    rw [World.config]
    rcases hnode : w'.fs.get [.config] with _ | n
    · rfl
    · rw [hnode] at hget
      cases hget
  rintro ⟨rfl, hnone⟩
  split
  · refine ⟨rfl, fun bytes hbytes => ?_⟩
    cases hbytes
    exact (hnone rfl).symm
  · refine Ensures.bindE (ensures_readPresent owner w') ?_ ?_
    · rintro bytes w'' ⟨rfl, hbytes⟩
      refine ⟨rfl, fun bytes' h => ?_⟩
      cases h
      exact hbytes bytes rfl
    · rintro e w'' ⟨rfl, -⟩
      exact ⟨rfl, fun _ h => by cases h⟩

/-- The service tells whether it is active, and is not changed by that. -/
theorem ensures_isActive (w : World) :
    (service .isActive).run.Ensures (Happens sys)
      (fun r w' => w' = w ∧ ∀ active, r = .ok active → active = w.active) w := by
  intro r w' h
  cases h with
  | active =>
    refine ⟨rfl, fun active h => ?_⟩
    cases h
    rfl
  | unanswered w e => exact ⟨rfl, nofun⟩

/-- When all was applied, the file is the new one and the service is active. -/
theorem ensures_apply (owner : ℕ) (next : List UInt8) (w : World) :
    (apply owner next).run.Ensures (Happens sys)
      (fun r w' => r = .ok () → w'.config = some next ∧ w'.active = true) w := by
  -- What the file and the service are before does not matter: both are looked at
  -- after the last change.
  refine Ensures.bindE (Q := fun _ _ => True)
    (ensures_of_calls _ (fun _ _ _ _ _ _ => trivial) trivial) (fun _ w _ => ?_) (fun _ _ _ => nofun)
  refine Ensures.bindE (Q := fun _ _ => True)
    (ensures_of_calls _ (fun _ _ _ _ _ _ => trivial) trivial) (fun restarted w _ => ?_)
    (fun _ _ _ => nofun)
  split
  · exact nofun
  refine Ensures.bindE (ensures_isActive w) ?_ (fun _ _ _ => nofun)
  rintro active w' ⟨rfl, hactive⟩
  split
  · exact nofun
  next hisActive =>
  have hactive : w'.active = true := by
    rw [← hactive active rfl]
    simpa using hisActive
  refine Ensures.liftE (Q := fun _ w'' => w'' = w') (fun valid w'' h => ?_) ?_
  · cases h
    rfl
  rintro valid w'' rfl
  split
  · exact nofun
  refine Ensures.bindE (ensures_readConfig owner w'') ?_ (fun _ _ _ => nofun)
  rintro bytes w₃ ⟨rfl, hbytes⟩
  split
  · exact nofun
  next hsame =>
  intro _
  rw [← hbytes bytes rfl]
  exact ⟨not_not.mp hsame, hactive⟩

/-- When all was restored, the file and the service are as they were. -/
theorem ensures_restore (owner : ℕ) (previous : Option (List UInt8)) (wasActive : Bool)
    (w : World) :
    (restore owner previous wasActive).Ensures (Happens sys)
      (fun r w' => r = true → w'.config = previous ∧ w'.active = wasActive) w := by
  refine Ensures.bind (Q := fun _ _ => True)
    (ensures_of_calls _ (fun _ _ _ _ _ _ => trivial) trivial) fun written w _ => ?_
  split
  · exact nofun
  refine Ensures.bind (Q := fun _ _ => True)
    (ensures_of_calls _ (fun _ _ _ _ _ _ => trivial) trivial) fun done w _ => ?_
  split
  · exact nofun
  · exact nofun
  refine Ensures.bind (ensures_isActive w) ?_
  rintro active w' ⟨rfl, hactive⟩
  split
  · exact nofun
  split
  · exact nofun
  next active hwas =>
  refine Ensures.bind (ensures_readConfig owner w') ?_
  rintro bytes w₂ ⟨rfl, hbytes⟩
  split
  · exact nofun
  next bytes =>
  intro hsame
  rw [← hbytes bytes rfl, ← hactive active rfl]
  exact ⟨of_decide_eq_true hsame, not_not.mp hwas⟩

/-- A transaction that fails leaves the file and the service as they were, unless
    it reports that the rollback failed. One that succeeds leaves the file that
    replaces the old one, and the service active. -/
theorem transaction_restores (sys : Sys FileName) (owner : ℕ) (desired : Option (List Char))
    (w w' : World) (result : Except ConfigError Unit)
    (h : (transaction owner desired).run.Ends (Happens sys) w result w') :
    (∀ e, result = .error e → e ≠ .rollbackFailed →
      w'.config = w.config ∧ w'.active = w.active) ∧
    (result = .ok () → ∃ next, replacement (w.config.getD []) desired = .ok next ∧
      w'.config = some next ∧ w'.active = true) := by
  refine Ensures.ends (Q := fun result w' => (∀ e, result = .error e → e ≠ .rollbackFailed →
      w'.config = w.config ∧ w'.active = w.active) ∧
    (result = .ok () → ∃ next, replacement (w.config.getD []) desired = .ok next ∧
      w'.config = some next ∧ w'.active = true)) ?_ h
  refine Ensures.bindE (ensures_readConfig owner w) ?_ ?_
  case refine_2 =>
    rintro e w₁ ⟨rfl, -⟩
    exact ⟨fun _ _ _ => ⟨rfl, rfl⟩, nofun⟩
  rintro previous w₁ ⟨rfl, hprevious⟩
  obtain rfl := hprevious previous rfl
  rcases hnext : replacement (w₁.config.getD []) desired with e | next
  · exact ⟨fun _ _ _ => ⟨rfl, rfl⟩, nofun⟩
  refine Ensures.bindE (Q := fun r w₂ => r = .ok next ∧ w₂ = w₁) ⟨rfl, rfl⟩ ?_ (by simp)
  rintro _ w₁ ⟨⟨⟩, rfl⟩
  refine Ensures.bindE (ensures_isActive w₁) ?_ ?_
  case refine_2 =>
    rintro e w₂ ⟨rfl, -⟩
    exact ⟨fun _ _ _ => ⟨rfl, rfl⟩, nofun⟩
  rintro wasActive w₂ ⟨rfl, hactive⟩
  obtain rfl := hactive wasActive rfl
  refine Ensures.liftE (ensures_apply owner next w₂) fun applied w₃ happlied => ?_
  rcases applied with e | _
  · refine Ensures.liftE (ensures_restore owner w₂.config w₂.active w₃)
      fun restored w₄ hrestored => ?_
    rcases restored with _ | _
    · refine ⟨fun e' he' hne => ?_, nofun⟩
      cases he'
      exact absurd rfl hne
    · exact ⟨fun _ _ _ => hrestored rfl, nofun⟩
  · exact ⟨nofun, fun _ => ⟨next, rfl, happlied rfl⟩⟩

/-- The run in which every call is carried out, with an answer of `validate`. -/
def carryOut (sys : Sys FileName) (valid : Bool) : (c : ConfigCall) → World → c.Reply × World
  | .fs c, w => ((Fs.exec sys c w.fs).1, { w with fs := (Fs.exec sys c w.fs).2 })
  | .service .isActive, w => (.ok w.active, w)
  | .service .restart, w => (.ok true, { w with active := true })
  | .service .stop, w => (.ok true, { w with active := false })
  | .validate, w => (valid, w)

theorem happens_carryOut (sys : Sys FileName) (valid : Bool) (c : ConfigCall) (w : World) :
    Happens sys c w (carryOut sys valid c w).1 (carryOut sys valid c w).2 := by
  rcases c with c | action | _
  · exact .done c w
  · rcases action with _ | _ | _
    · exact .active w
    · exact .restarted w
    · exact .stopped w
  · exact .validated w valid

/-- Root, with the usual umask. -/
def root : Sys FileName := Sys.byDepth 0 0 0o022

/-- A configuration without a camera, and the service stopped. -/
def unset : World where
  fs := { entries := [([], ⟨.dir, 0, 0, 0o755, 1, 1, []⟩),
            ([.config], ⟨.file, 0, 0, 0o644, 1, 2, ascii "OTHER=yes"⟩)]
          next := 3, locks := [], log := [] }
  active := false

/-- `transaction` for a camera, with every call carried out. -/
def setCamera (valid : Bool) : Except ConfigError Unit × World :=
  (transaction 0 (some "/dev/video1".toList)).run.eval (carryOut root valid) unset

theorem ends_setCamera (valid : Bool) :
    (transaction 0 (some "/dev/video1".toList)).run.Ends (Happens root) unset (setCamera valid).1
      (setCamera valid).2 :=
  ends_eval (happens_carryOut root valid) _ unset

/-- The camera is set, or it is gone when it is looked for and all is restored. -/
theorem transaction_restores_unset :
    ((setCamera true).2.config =
        some (ascii "OTHER=yes" ++ [10] ++ ascii "KFACEAUTH_CAMERA_DEVICE=/dev/video1" ++ [10]) ∧
      (setCamera true).2.active = true) ∧
    (setCamera false).2.config = unset.config ∧ (setCamera false).2.active = unset.active := by
  constructor
  · obtain ⟨next, hnext, hconfig, hactive⟩ :=
      (transaction_restores _ _ _ _ _ _ (ends_setCamera true)).2 (by decide +kernel)
    have hsame : Except.ok next = (.ok (ascii "OTHER=yes" ++ [10] ++
        ascii "KFACEAUTH_CAMERA_DEVICE=/dev/video1" ++ [10]) : Except ConfigError _) :=
      hnext.symm.trans (by decide +kernel)
    cases hsame
    exact ⟨hconfig, hactive⟩
  · exact (transaction_restores _ _ _ _ _ _ (ends_setCamera false)).1 .unavailableSelection
      (by decide +kernel) (by decide)

end Camera

end KFaceAuth
