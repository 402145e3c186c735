import KFaceAuth.Lib.Prog
import KFaceAuth.System.LegacyRule

/-!
# Preparing a target

`kfaceauth-pam-setup` prepares a login target. Its last change is to take the legacy
rule out of the two PAM services that may hold it; each is backed up before. When a step
fails, what was done before is rolled back.

The script is a program of commands, each of which may fail; a command that writes a
file may fail after any byte. The steps that do not touch the two services are one
command each.

* `migration_laws`: a service is accepted exactly with a managed block, which is then
  removed; and after a failure whose rollback succeeds both services are as before,
  unless it is the last message that could not be written.
-/

namespace KFaceAuth

namespace PamSetup

/-! ## Files -/

/-- The two services, and the files that `mktemp` makes. -/
inductive Path
  | sddm
  | kde
  | temp (n : ℕ)
  deriving DecidableEq

inductive Kind
  | regular
  | symlink
  | other
  deriving DecidableEq

structure File where
  kind : Kind
  owner : ℕ
  bytes : List UInt8

/-- The files, and how many of them `mktemp` has made. -/
structure World where
  get : Path → Option File
  made : ℕ
  /-- Whether the dedicated service of the target is installed. -/
  dedicated : Bool

namespace World

def put (w : World) (p : Path) (file : Option File) : World :=
  { w with get := fun q => if q = p then file else w.get q }

def modify (w : World) (p : Path) (f : File → File) : World := w.put p ((w.get p).map f)

/-- The new file of `mktemp`. -/
def create (w : World) : World :=
  { w.put (.temp w.made) (some ⟨.regular, 0, []⟩) with made := w.made + 1 }

/-- The bytes of a file, if it is there. -/
def content (w : World) (p : Path) : Option (List UInt8) := (w.get p).map File.bytes

theorem get_put (w : World) (p q : Path) (file : Option File) :
    (w.put p file).get q = if q = p then file else w.get q := rfl

end World

/-! ## Commands -/

/-- Whether a command is part of the preparation or of its rollback. -/
inductive Phase
  | prepare
  | rollback
  deriving DecidableEq

inductive Command
  /-- The checks before anything is changed. -/
  | check
  | installDedicatedPamService
  | installPolicyModules
  /-- `systemctl enable --now kfaceauth.socket` -/
  | enableSocket
  | removeDedicatedPamService
  | restoreSocketState
  | rollbackModules
  /-- `[[ -e ]]`, `[[ -L ]]` and `[[ -f ]]` -/
  | test (file : Path)
  /-- `grep -Fqx` -/
  | grep (line : Line) (file : Path)
  /-- The scan for a rule that is not managed. -/
  | awkUnmanaged (file : Path)
  /-- `stat -c '%u'` -/
  | stat (file : Path)
  /-- The scan for a managed block. -/
  | awkManaged (file : Path)
  | mktemp
  | read (file : Path)
  | truncate (file : Path)
  | append (file : Path) (byte : UInt8)
  | chown (file : Path) (owner : ℕ)
  | mv (src dst : Path)
  | rm (file : Path)
  /-- The message at the end. -/
  | report
  deriving DecidableEq

structure Call where
  phase : Phase
  command : Command
  deriving DecidableEq

/-- What the script sees of a command: mostly whether it succeeds. -/
def Reply : Command → Type
  | .installDedicatedPamService => Option Bool
  | .test _ => Option Kind
  | .stat _ => Option ℕ
  | .mktemp => Option Path
  | .read _ => Option File
  | _ => Bool

/-- What a command does. -/
def exec : (c : Command) → World → Reply c × World
  | .check, w => (true, w)
  | .installDedicatedPamService, w => (some !w.dedicated, { w with dedicated := true })
  | .installPolicyModules, w => (true, w)
  | .enableSocket, w => (true, w)
  | .removeDedicatedPamService, w => (true, { w with dedicated := false })
  | .restoreSocketState, w => (true, w)
  | .rollbackModules, w => (true, w)
  | .test file, w => ((w.get file).map File.kind, w)
  | .grep line file, w => ((w.content file).any (hasLine line), w)
  | .awkUnmanaged file, w => ((w.content file).any fun bytes => (records bytes).any isFaceRule, w)
  | .stat file, w => ((w.get file).map File.owner, w)
  | .awkManaged file, w => ((w.content file).any fun bytes => accepts (records bytes), w)
  | .mktemp, w => (some (.temp w.made), w.create)
  | .read file, w => (w.get file, w)
  | .truncate file, w => ((w.get file).isSome, w.modify file fun f => { f with bytes := [] })
  | .append file byte, w =>
    ((w.get file).isSome, w.modify file fun f => { f with bytes := f.bytes ++ [byte] })
  | .chown file owner, w => ((w.get file).isSome, w.modify file fun f => { f with owner })
  | .mv src dst, w =>
    match w.get src with
    | none => (false, w)
    | some file => (true, (w.put dst (some file)).put src none)
  | .rm file, w => (true, w.put file none)
  | .report, w => (true, w)

/-- What the script sees of a command that fails, with nothing done. A test does not
    fail. -/
def fault : (c : Command) → Option (Reply c)
  | .check => some false
  | .installDedicatedPamService => some none
  | .installPolicyModules => some false
  | .enableSocket => some false
  | .removeDedicatedPamService => some false
  | .restoreSocketState => some false
  | .rollbackModules => some false
  | .test _ => none
  | .grep _ _ => some false
  | .awkUnmanaged _ => some false
  | .stat _ => some none
  | .awkManaged _ => some false
  | .mktemp => some none
  | .read _ => some none
  | .truncate _ => some false
  | .append _ _ => some false
  | .chown _ _ => some false
  | .mv _ _ => some false
  | .rm _ => some false
  | .report => some false

def shell : Handler Call (fun c => Reply c.command) World where
  exec c := exec c.command
  fault c := fault c.command

abbrev Script := Prog Call fun c => Reply c.command

/-! ## The script -/

section Script

variable (phase : Phase)

def command (c : Command) : Script (Reply c) := Prog.perform (Call.mk phase c)

def mktemp : Script (Option Path) := command phase .mktemp
def read (file : Path) : Script (Option File) := command phase (.read file)
def truncate (file : Path) : Script Bool := command phase (.truncate file)
def append (file : Path) (byte : UInt8) : Script Bool := command phase (.append file byte)
def chown (file : Path) (owner : ℕ) : Script Bool := command phase (.chown file owner)
def mv (src dst : Path) : Script Bool := command phase (.mv src dst)
def rm (file : Path) : Script Bool := command phase (.rm file)

/-- `a && b` -/
def both (a b : Script Bool) : Script Bool := do
  let ok ← a
  if ok then b else pure false

/-- `if [[ flag -eq 1 ]]; then a; fi` -/
def onlyIf (flag : Bool) (a : Script Bool) : Script Bool := if flag then a else pure true

/-- Writes bytes to the end of a file, until one cannot be written. -/
def writeAll (file : Path) : List UInt8 → Script Bool
  | [] => pure true
  | byte :: bytes => both (append phase file byte) (writeAll file bytes)

/-- `cp -p` -/
def cp (src dst : Path) : Script Bool := do
  let found ← read phase src
  match found with
  | none => pure false
  | some file =>
    both (truncate phase dst)
      (both (writeAll phase dst file.bytes) (chown phase dst file.owner))

/-- The scan that takes the block out, with its output in a file. -/
def awkStrip (src dst : Path) : Script Bool :=
  both (truncate phase dst) do
    let found ← read phase src
    match found with
    | none => pure false
    | some file => writeAll phase dst (printed (strip false (records file.bytes)))

end Script

def test (file : Path) : Script (Option Kind) := command .prepare (.test file)
def grep (line : Line) (file : Path) : Script Bool := command .prepare (.grep line file)
def awkUnmanaged (file : Path) : Script Bool := command .prepare (.awkUnmanaged file)
def stat (file : Path) : Script (Option ℕ) := command .prepare (.stat file)
def awkManaged (file : Path) : Script Bool := command .prepare (.awkManaged file)
def check : Script Bool := command .prepare .check
def installDedicatedPamService : Script (Option Bool) :=
  command .prepare .installDedicatedPamService
def installPolicyModules : Script Bool := command .prepare .installPolicyModules
def enableSocket : Script Bool := command .prepare .enableSocket
def report : Script Bool := command .prepare .report
def removeDedicatedPamService : Script Bool := command .rollback .removeDedicatedPamService
def restoreSocketState : Script Bool := command .rollback .restoreSocketState
def rollbackModules : Script Bool := command .rollback .rollbackModules

/-- `legacy_pam_files` and `legacy_pam_backups`, entry by entry: they grow together. -/
abbrev Legacy := List (Path × Path)

/-- The backup of a service, in a new file. -/
def backUp (file : Path) : Script (Option Path) := do
  let made ← mktemp .prepare
  match made with
  | none => pure none
  | some backup => do
    let ok ← cp .prepare file backup
    if ok then pure (some backup)
    else do
      let _ ← rm .prepare backup
      pure none

/-- The service without the block, in the place of the service. -/
def replaceService (file : Path) : Script Bool := do
  let made ← mktemp .prepare
  match made with
  | none => pure false
  | some temp => do
    let ok ← both (cp .prepare file temp)
      (both (awkStrip .prepare file temp) (mv .prepare temp file))
    if ok then pure true
    else do
      let _ ← rm .prepare temp
      pure false

/-- `migrate_legacy_global_rule` from the check of the owner on. -/
def migrateMarked (file : Path) (legacy : Legacy) : Script (Bool × Legacy) := do
  let owner ← stat file
  if owner ≠ some 0 then pure (false, legacy)
  else do
    let managed ← awkManaged file
    if !managed then pure (false, legacy)
    else do
      let saved ← backUp file
      match saved with
      | none => pure (false, legacy)
      | some backup => do
        let ok ← replaceService file
        pure (ok, legacy ++ [(file, backup)])

/-- Whether one of the markers is in a service. -/
def isMarked (file : Path) : Script Bool := do
  let begins ← grep legacyBegin file
  if begins then pure true else grep legacyEnd file

def migrateLegacyGlobalRule (file : Path) (legacy : Legacy) : Script (Bool × Legacy) := do
  let kind ← test file
  match kind with
  | none => pure (true, legacy)
  | some .regular => do
    let marked ← isMarked file
    if marked then migrateMarked file legacy
    else do
      let unmanaged ← awkUnmanaged file
      pure (!unmanaged, legacy)
  | some _ => pure (false, legacy)

def migrateLegacyGlobalRules : Script (Bool × Legacy) := do
  let (ok, legacy) ← migrateLegacyGlobalRule .sddm []
  if ok then migrateLegacyGlobalRule .kde legacy else pure (false, legacy)

/-- The body of the loop of `restore_legacy_pam_backups`. -/
def restoreBackup (file backup : Path) : Script Bool := do
  let made ← mktemp .rollback
  match made with
  | none => pure false
  | some temp => do
    let ok ← both (cp .rollback backup temp) (mv .rollback temp file)
    if ok then rm .rollback backup
    else do
      let _ ← rm .rollback temp
      pure false

/-- The loop of `restore_legacy_pam_backups`, from the last entry on. -/
def restoreBackups : Legacy → Script Bool
  | [] => pure true
  | (file, backup) :: legacy => do
    let ok ← restoreBackup file backup
    let rest ← restoreBackups legacy
    pure (ok && rest)

def restoreLegacyPamBackups (legacy : Legacy) : Script Bool := restoreBackups legacy.reverse

/-- `rollback_prepare`, which ends the script with a failure. -/
def rollbackPrepare (legacy : Legacy) (created socketStateTouched : Bool) : Script Bool := do
  let _ ← restoreLegacyPamBackups legacy
  let _ ← onlyIf created removeDedicatedPamService
  let _ ← onlyIf socketStateTouched restoreSocketState
  let _ ← rollbackModules
  pure false

/-- Removes the backups, whether that succeeds or not. -/
def removeBackups : Legacy → Script Unit
  | [] => pure ()
  | (_, backup) :: legacy => do
    let _ ← rm .prepare backup
    removeBackups legacy

/-- `prepare_target`: whether the script ends with success. -/
def prepareTarget : Script Bool := do
  let checked ← check
  if !checked then pure false
  else do
    let installed ← installDedicatedPamService
    match installed with
    | none => pure false
    | some created => do
      let policy ← installPolicyModules
      if !policy then rollbackPrepare [] created false
      else do
        let socket ← enableSocket
        if !socket then rollbackPrepare [] created true
        else do
          let (ok, legacy) ← migrateLegacyGlobalRules
          if !ok then rollbackPrepare legacy created true
          else do
            removeBackups legacy
            report

/-! ## What the commands do -/

section Commands

variable {G : Step Call World → Prop} {phase : Phase} {w w' w'' : World} {src dst file : Path}
  {α β : Type}

/-- The runs of a script whose steps meet `G` end with `Q`. -/
abbrev Ends (G : Step Call World → Prop) (p : Script α) (w : World) (Q : α → World → Prop) : Prop :=
  p.Safe shell G (fun _ => True) Q w

/-- No command of a phase fails. -/
def NoFault (G : Step Call World → Prop) (phase : Phase) : Prop :=
  ∀ c w, c.phase = phase → ¬ G ⟨c, .fault, w⟩

theorem ends_command {c : Command} {Q : Reply c → World → Prop}
    (hok : Q (exec c w).1 (exec c w).2)
    (hfault : ∀ r, fault c = some r → ¬ NoFault G phase → Q r w) :
    Ends G (command phase c) w Q :=
  ⟨fun _ => trivial, fun _ => hok, fun r hr hG => hfault r hr fun h => h _ _ rfl hG⟩

theorem ends_pure {a : α} {Q : α → World → Prop} (h : Q a w) : Ends G (pure a : Script α) w Q := h

theorem ends_bind {p : Script α} {f : α → Script β} {P : α → World → Prop} {Q : β → World → Prop}
    (hp : Ends G p w P) (hf : ∀ a w, P a w → Ends G (f a) w Q) : Ends G (p >>= f) w Q :=
  Prog.Safe.bind hp hf

theorem ends_both {a b : Script Bool} {P Q : Bool → World → Prop} (ha : Ends G a w P)
    (hb : ∀ w, P true w → Ends G b w Q) (hfail : ∀ w, P false w → Q false w) :
    Ends G (both a b) w Q := by
  refine ends_bind ha fun ok w' h => ?_
  cases ok with
  | true => exact hb w' h
  | false => exact hfail w' h

/-- Nothing but a file has changed. -/
structure Only (p : Path) (w w' : World) : Prop where
  made : w'.made = w.made
  get : ∀ q, q ≠ p → w'.get q = w.get q

theorem Only.refl (p : Path) (w : World) : Only p w w := ⟨rfl, fun _ _ => rfl⟩

theorem Only.trans {p : Path} (h : Only p w w') (h' : Only p w' w'') : Only p w w'' :=
  ⟨h'.made.trans h.made, fun q hq => (h'.get q hq).trans (h.get q hq)⟩

theorem only_put (w : World) (p : Path) (f : Option File) : Only p w (w.put p f) :=
  ⟨rfl, fun q hq => by rw [World.get_put, if_neg hq]⟩

theorem get_modify {f : File → File} {g : File} (h : w.get file = some g) :
    (w.modify file f).get file = some (f g) := by
  rw [World.modify, World.get_put, if_pos rfl, h, Option.map_some]

theorem ends_append {f : File} (hf : w.get file = some f) (byte : UInt8) :
    Ends G (append phase file byte) w fun ok w' => Only file w w' ∧
      (ok = true → w'.get file = some { f with bytes := f.bytes ++ [byte] }) ∧
      (NoFault G phase → ok = true) := by
  refine ends_command ⟨only_put _ _ _, fun _ => get_modify hf, fun _ => ?_⟩ fun r hr hG => ?_
  · simp [exec, hf]
  · cases hr
    exact ⟨.refl _ _, nofun, fun h => absurd h hG⟩

theorem ends_writeAll {f : File} (hf : w.get file = some f) (bytes : List UInt8) :
    Ends G (writeAll phase file bytes) w fun ok w' => Only file w w' ∧
      (ok = true → w'.get file = some { f with bytes := f.bytes ++ bytes }) ∧
      (NoFault G phase → ok = true) := by
  induction bytes generalizing w f with
  | nil =>
    refine ends_pure ⟨.refl _ _, fun _ => ?_, fun _ => rfl⟩
    rw [List.append_nil, hf]
  | cons byte bytes ih =>
    refine ends_both (ends_append hf byte) (fun w₁ h₁ => ?_) fun w₁ h₁ => ?_
    · obtain ⟨honly, hget, -⟩ := h₁
      refine (ih (hget rfl)).post fun ok w₂ h₂ => ⟨honly.trans h₂.1, fun hok => ?_, h₂.2.2⟩
      rw [h₂.2.1 hok, List.append_assoc]
      rfl
    · exact ⟨h₁.1, nofun, fun h => absurd (h₁.2.2 h) Bool.false_ne_true⟩

theorem ends_truncate {f : File} (hf : w.get file = some f) :
    Ends G (truncate phase file) w fun ok w' => Only file w w' ∧
      (ok = true → w'.get file = some { f with bytes := [] }) ∧ (NoFault G phase → ok = true) := by
  refine ends_command ⟨only_put _ _ _, fun _ => get_modify hf, fun _ => ?_⟩ fun r hr hG => ?_
  · simp [exec, hf]
  · cases hr
    exact ⟨.refl _ _, nofun, fun h => absurd h hG⟩

theorem ends_chown {f : File} (hf : w.get file = some f) (owner : ℕ) :
    Ends G (chown phase file owner) w fun ok w' => Only file w w' ∧
      (ok = true → w'.get file = some { f with owner }) ∧ (NoFault G phase → ok = true) := by
  refine ends_command ⟨only_put _ _ _, fun _ => get_modify hf, fun _ => ?_⟩ fun r hr hG => ?_
  · simp [exec, hf]
  · cases hr
    exact ⟨.refl _ _, nofun, fun h => absurd h hG⟩

theorem ends_read (file : Path) :
    Ends G (read phase file) w fun r w' => w' = w ∧ (r = none ∨ r = w.get file) ∧
      (NoFault G phase → r = w.get file) := by
  refine ends_command ⟨rfl, .inr rfl, fun _ => rfl⟩ fun r hr hG => ?_
  cases hr
  exact ⟨rfl, .inl rfl, fun h => absurd h hG⟩

/-- A copy changes nothing but its target, which is the source if it succeeds. -/
theorem ends_cp {g : File} (hg : w.get dst = some g) :
    Ends G (cp phase src dst) w fun ok w' => Only dst w w' ∧
      (ok = true → ∃ f, w.get src = some f ∧ w'.get dst = some ⟨g.kind, f.owner, f.bytes⟩) ∧
      (NoFault G phase → (w.get src).isSome → ok = true) := by
  refine ends_bind (ends_read src) fun r w₁ ⟨hw, hr, hnone⟩ => ?_
  subst hw
  cases r with
  | none =>
    refine ends_pure ⟨.refl _ _, nofun, fun h hsome => ?_⟩
    rw [← hnone h] at hsome
    cases hsome
  | some f =>
    have hsrc : w₁.get src = some f := by
      rcases hr with h | h
      · cases h
      · exact h.symm
    refine ends_both (ends_truncate hg) (fun w₂ h₂ => ?_) fun w₂ h₂ => ?_
    · refine ends_both (ends_writeAll (h₂.2.1 rfl) f.bytes) (fun w₃ h₃ => ?_) fun w₃ h₃ => ?_
      · refine (ends_chown (h₃.2.1 rfl) f.owner).post fun ok w₄ h₄ => ?_
        exact ⟨(h₂.1.trans h₃.1).trans h₄.1, fun hok => ⟨f, hsrc, h₄.2.1 hok⟩, fun h _ => h₄.2.2 h⟩
      · exact ⟨h₂.1.trans h₃.1, nofun,
          fun h _ => absurd (h₃.2.2 h) Bool.false_ne_true⟩
    · exact ⟨h₂.1, nofun, fun h _ => absurd (h₂.2.2 h) Bool.false_ne_true⟩

theorem ends_awkStrip {g : File} (hg : w.get dst = some g) (hne : src ≠ dst) :
    Ends G (awkStrip phase src dst) w fun ok w' => Only dst w w' ∧
      (ok = true → ∃ f, w.get src = some f ∧
        w'.get dst = some { g with bytes := printed (strip false (records f.bytes)) }) ∧
      (NoFault G phase → (w.get src).isSome → ok = true) := by
  refine ends_both (ends_truncate hg) (fun w₁ h₁ => ?_) fun w₁ h₁ => ?_
  · obtain ⟨honly, hget, -⟩ := h₁
    have hsrc := honly.get src hne
    refine ends_bind (ends_read src) fun r w₂ ⟨hw, hr, hnone⟩ => ?_
    subst hw
    cases r with
    | none =>
      refine ends_pure ⟨honly, nofun, fun h hsome => ?_⟩
      rw [← hsrc, ← hnone h] at hsome
      cases hsome
    | some f =>
      have hfound : w.get src = some f := by
        rcases hr with h | h
        · cases h
        · exact hsrc.symm.trans h.symm
      refine (ends_writeAll (hget rfl) _).post fun ok w₃ h₃ => ?_
      exact ⟨honly.trans h₃.1, fun hok => ⟨f, hfound, h₃.2.1 hok⟩, fun h _ => h₃.2.2 h⟩
  · exact ⟨h₁.1, nofun, fun h _ => absurd (h₁.2.2 h) Bool.false_ne_true⟩

theorem ends_mktemp :
    Ends G (mktemp phase) w fun r w' =>
      (∀ p, r = some p → p = .temp w.made ∧ w' = w.create) ∧ (r = none → w' = w) ∧
      (NoFault G phase → r ≠ none) := by
  refine ends_command ⟨fun p hp => ?_, nofun, fun _ => nofun⟩
    fun r hr hG => ?_
  · cases hp
    exact ⟨rfl, rfl⟩
  · cases hr
    exact ⟨fun p => nofun, fun _ => rfl, fun h => absurd h hG⟩

theorem ends_mv :
    Ends G (mv phase src dst) w fun ok w' =>
      (ok = true → ∃ f, w.get src = some f ∧ w' = (w.put dst (some f)).put src none) ∧
      (ok = false → w' = w) ∧ (NoFault G phase → (w.get src).isSome → ok = true) := by
  refine ends_command ?_ fun r hr hG => ?_
  · cases hsrc : w.get src with
    | none =>
      have hexec : exec (.mv src dst) w = (false, w) := by
        simp only [exec, hsrc]
        rfl
      rw [hexec]
      exact ⟨nofun, fun _ => rfl, fun _ => nofun⟩
    | some f =>
      have hexec : exec (.mv src dst) w = (true, (w.put dst (some f)).put src none) := by
        simp only [exec, hsrc]
        rfl
      rw [hexec]
      exact ⟨fun _ => ⟨f, rfl, rfl⟩, nofun, fun _ _ => rfl⟩
  · cases hr
    exact ⟨nofun, fun _ => rfl, fun h => absurd h hG⟩

theorem ends_rm (file : Path) :
    Ends G (rm phase file) w fun ok w' => Only file w w' ∧ (NoFault G phase → ok = true) := by
  refine ends_command ⟨only_put _ _ _, fun _ => rfl⟩ fun r hr hG => ?_
  cases hr
  exact ⟨.refl _ _, fun h => absurd h hG⟩

end Commands

/-! ## Backups -/

section Backups

variable {G : Step Call World → Prop} {w₀ w w' w'' : World} {file : Path} {legacy : Legacy}

/-- A file that was there before those that `mktemp` makes from now on. -/
def IsOld (w : World) (p : Path) : Prop := ∀ n, p = .temp n → n < w.made

/-- Nothing that was there has changed, but perhaps a file. -/
structure Besides (p : Path) (w w' : World) : Prop where
  made : w.made ≤ w'.made
  get : ∀ q, IsOld w q → q ≠ p → w'.get q = w.get q

theorem Only.besides {p : Path} (h : Only p w w') : Besides p w w' :=
  ⟨Nat.le_of_eq h.made.symm, fun q _ hne => h.get q hne⟩

/-- A new file is not seen. -/
theorem Only.besides_new {p : Path} (h : Only (.temp w.made) w.create w') : Besides p w w' := by
  refine ⟨?_, fun q hq _ => ?_⟩
  · rw [h.made]
    exact Nat.le_succ _
  · have hne : q ≠ .temp w.made := fun heq => absurd (hq _ heq) (Nat.lt_irrefl _)
    rw [h.get q hne]
    exact if_neg hne

theorem get_create (w : World) : w.create.get (.temp w.made) = some ⟨.regular, 0, []⟩ := if_pos rfl

theorem get_create_of_old {p : Path} (hp : IsOld w p) : w.create.get p = w.get p :=
  if_neg fun heq => absurd (hp _ heq) (Nat.lt_irrefl _)

theorem ends_backUp (hold : IsOld w file) :
    Ends G (backUp file) w fun r w' => (∀ p, Besides p w w') ∧
      (∀ b, r = some b → b = .temp w.made ∧ w.made < w'.made ∧
        ∃ f, w.get file = some f ∧ w'.content b = some f.bytes) ∧
      (NoFault G .prepare → (w.get file).isSome → r ≠ none) := by
  have hne : file ≠ .temp w.made := fun heq => absurd (hold _ heq) (Nat.lt_irrefl _)
  refine ends_bind ends_mktemp fun r w₁ ⟨hsome, hnone, hfault⟩ => ?_
  cases r with
  | none =>
    rw [hnone rfl]
    exact ends_pure ⟨fun p => (Only.refl p w).besides, fun b => nofun, fun h => absurd rfl (hfault h)⟩
  | some backup =>
    obtain ⟨rfl, rfl⟩ := hsome _ rfl
    refine ends_bind (ends_cp (get_create w)) fun ok w₂ ⟨honly, hok, hall⟩ => ?_
    rw [get_create_of_old hold] at hok hall
    cases ok with
    | true =>
      obtain ⟨f, hf, hget⟩ := hok rfl
      refine ends_pure ⟨fun p => honly.besides_new, fun b hb => ?_, fun _ _ => nofun⟩
      cases hb
      refine ⟨rfl, ?_, f, hf, by rw [World.content, hget]; rfl⟩
      rw [honly.made]
      exact Nat.lt_succ_self _
    | false =>
      refine ends_bind (ends_rm _) fun _ w₃ h₃ => ends_pure ⟨fun p => ?_, fun b => nofun, ?_⟩
      · exact (honly.trans h₃.1).besides_new
      · exact fun h hf => absurd (hall h hf) Bool.false_ne_true

theorem ends_replaceService (hold : IsOld w file) :
    Ends G (replaceService file) w fun ok w' => Besides file w w' ∧
      (ok = true → ∃ f, w.get file = some f ∧
        w'.content file = some (printed (strip false (records f.bytes)))) ∧
      (NoFault G .prepare → (w.get file).isSome → ok = true) := by
  have hne : file ≠ .temp w.made := fun heq => absurd (hold _ heq) (Nat.lt_irrefl _)
  refine ends_bind ends_mktemp fun r w₁ ⟨hsome, hnone, hfault⟩ => ?_
  cases r with
  | none =>
    rw [hnone rfl]
    exact ends_pure ⟨(Only.refl _ w).besides, nofun, fun h => absurd rfl (hfault h)⟩
  | some temp =>
    obtain ⟨rfl, rfl⟩ := hsome _ rfl
    refine ends_bind (P := fun ok w' => Besides file w w' ∧
      (ok = true → ∃ f, w.get file = some f ∧
        w'.content file = some (printed (strip false (records f.bytes)))) ∧
      (NoFault G .prepare → (w.get file).isSome → ok = true)) ?_ fun ok w₂ h₂ => ?_
    · refine ends_both (ends_cp (get_create w)) (fun w₂ h₂ => ?_) fun w₂ h₂ => ?_
      · obtain ⟨hcopy, hcopied, -⟩ := h₂
        obtain ⟨f, -, hget⟩ := hcopied rfl
        have hfile : w₂.get file = w.get file := by
          rw [hcopy.get file hne, get_create_of_old hold]
        refine ends_both (ends_awkStrip hget hne) (fun w₃ h₃ => ?_) fun w₃ h₃ => ?_
        · obtain ⟨hstrip, hstripped, -⟩ := h₃
          obtain ⟨f', hf', hget'⟩ := hstripped rfl
          have hnew := hcopy.trans hstrip
          refine ends_mv.post fun ok w₄ ⟨hok, hfail, hall⟩ => ?_
          cases ok with
          | true =>
            obtain ⟨g, hg, rfl⟩ := hok rfl
            rw [hget', Option.some.injEq] at hg
            refine ⟨⟨?_, fun q hq hqne => ?_⟩, fun _ => ⟨f', by rw [← hfile, hf'], ?_⟩,
              fun _ _ => rfl⟩
            · exact (hnew.besides_new (p := file)).made
            · have hqnew : q ≠ .temp w.made := fun heq => absurd (hq _ heq) (Nat.lt_irrefl _)
              rw [World.get_put, if_neg hqnew, World.get_put, if_neg hqne]
              exact hnew.besides_new.get q hq hqne
            · rw [World.content, World.get_put, if_neg hne, World.get_put, if_pos rfl, ← hg]
              rfl
          | false =>
            rw [hfail rfl]
            refine ⟨hnew.besides_new, nofun, fun h _ => hall h ?_⟩
            rw [hget']
            rfl
        · refine ⟨(hcopy.trans h₃.1).besides_new, nofun, fun h hf => h₃.2.2 h ?_⟩
          rwa [hfile]
      · refine ⟨h₂.1.besides_new, nofun, fun h hf => h₂.2.2 h ?_⟩
        rwa [get_create_of_old hold]
    · cases ok with
      | true => exact ends_pure h₂
      | false =>
        refine ends_bind (ends_rm _) fun _ w₃ h₃ => ends_pure ⟨⟨?_, fun q hq hqne => ?_⟩, nofun, ?_⟩
        · rw [h₃.1.made]
          exact h₂.1.made
        · rw [h₃.1.get q fun heq => absurd (hq _ heq) (Nat.lt_irrefl _), h₂.1.get q hq hqne]
        · exact h₂.2.2

end Backups

/-! ## Migration -/

section Migration

variable {G : Step Call World → Prop} {w₀ w w' : World} {file : Path} {legacy : Legacy}

/-- The services that may hold the rule. -/
def IsService (p : Path) : Prop := p = .sddm ∨ p = .kde

theorem IsService.isOld (h : IsService file) (w : World) : IsOld w file := by
  rintro n rfl
  rcases h with h | h <;> cases h

/-- What can be restored: the backups hold what their services were, and the other
    services are as they were. -/
structure Kept (w₀ : World) (legacy : Legacy) (w : World) : Prop where
  service : ∀ e ∈ legacy, IsService e.1
  backup : ∀ e ∈ legacy, (∃ n < w.made, e.2 = .temp n) ∧ w.content e.2 = w₀.content e.1
  present : ∀ e ∈ legacy, w₀.content e.1 ≠ none
  distinct : (legacy.map Prod.snd).Nodup
  others : ∀ p, IsService p → (∀ e ∈ legacy, e.1 ≠ p) → w.content p = w₀.content p

/-- Backups and other services are not seen to change. -/
theorem Kept.besides (h : Kept w₀ legacy w) (hb : Besides file w w') (hfile : IsService file)
    (hmem : ∃ e ∈ legacy, e.1 = file) : Kept w₀ legacy w' := by
  refine ⟨h.service, fun e he => ?_, h.present, h.distinct, fun p hp hne => ?_⟩
  · obtain ⟨⟨n, hn, htemp⟩, hcontent⟩ := h.backup e he
    refine ⟨⟨n, Nat.lt_of_lt_of_le hn hb.made, htemp⟩, ?_⟩
    have hsame : w'.get e.2 = w.get e.2 := by
      refine hb.get e.2 (fun m hm => ?_) fun heq => ?_
      · rw [htemp, Path.temp.injEq] at hm
        rwa [← hm]
      · rw [← heq, htemp] at hfile
        rcases hfile with h | h <;> cases h
    rw [World.content, hsame]
    exact hcontent
  · obtain ⟨e, he, hservice⟩ := hmem
    have hsame : w'.get p = w.get p :=
      hb.get p (hp.isOld w) fun heq => hne e he (hservice.trans heq.symm)
    rw [World.content, hsame]
    exact h.others p hp hne

theorem Kept.besides_all (h : Kept w₀ legacy w) (hb : ∀ p, Besides p w w') :
    Kept w₀ legacy w' := by
  have hsame : ∀ p, IsOld w p → w'.get p = w.get p := by
    intro p hp
    cases p with
    | sddm => exact (hb .kde).get _ hp (by decide)
    | kde => exact (hb .sddm).get _ hp (by decide)
    | temp n => exact (hb .sddm).get _ hp nofun
  refine ⟨h.service, fun e he => ?_, h.present, h.distinct, fun p hp hne => ?_⟩
  · obtain ⟨⟨n, hn, htemp⟩, hcontent⟩ := h.backup e he
    refine ⟨⟨n, Nat.lt_of_lt_of_le hn (hb .sddm).made, htemp⟩, ?_⟩
    rw [World.content, hsame e.2 fun m hm => ?_]
    · exact hcontent
    · rw [htemp, Path.temp.injEq] at hm
      rwa [← hm]
  · rw [World.content, hsame p (hp.isOld w)]
    exact h.others p hp hne

/-- One more backup. -/
theorem Kept.concat (h : Kept w₀ legacy w) (hb : ∀ p, Besides p w w') (hfile : IsService file)
    (hnew : ∀ e ∈ legacy, e.1 ≠ file) {f : File} (hf : w.get file = some f)
    (hmade : w.made < w'.made) (hbackup : w'.content (.temp w.made) = some f.bytes) :
    Kept w₀ (legacy ++ [(file, .temp w.made)]) w' := by
  have hcontent : w₀.content file = some f.bytes := by
    rw [← h.others file hfile hnew, World.content, hf]
    rfl
  have hkept := h.besides_all hb
  have hall : ∀ {P : Path × Path → Prop}, (∀ e ∈ legacy, P e) → P (file, .temp w.made) →
      ∀ e ∈ legacy ++ [(file, .temp w.made)], P e := by
    intro P hlegacy hlast e he
    rcases List.mem_append.1 he with he | he
    · exact hlegacy e he
    · rwa [List.mem_singleton.1 he]
  refine ⟨hall h.service hfile, hall hkept.backup ⟨⟨_, hmade, rfl⟩, hbackup.trans hcontent.symm⟩,
    hall h.present (by rw [hcontent]; nofun), ?_, fun p hp hne => ?_⟩
  · rw [List.map_append, List.nodup_append]
    refine ⟨h.distinct, List.pairwise_singleton _ _, fun a ha b hb heq => ?_⟩
    obtain ⟨e, he, rfl⟩ := List.mem_map.1 ha
    obtain ⟨⟨n, hn, htemp⟩, -⟩ := h.backup e he
    rw [List.map_singleton, List.mem_singleton] at hb
    rw [hb, htemp, Path.temp.injEq] at heq
    omega
  · exact hkept.others p hp fun e he => hne e (List.mem_append_left _ he)

theorem ends_look {c : Command} {Q : Reply c → World → Prop} (hexec : (exec c w).2 = w)
    (h : ∀ r, Q r w) : Ends G (command .prepare c) w Q :=
  ends_command (by rw [hexec]; exact h _) fun r _ _ => h r

/-- A migration keeps what can be restored. -/
theorem ends_migrate (hfile : IsService file) (h : Kept w₀ legacy w)
    (hnew : ∀ e ∈ legacy, e.1 ≠ file) :
    Ends G (migrateLegacyGlobalRule file legacy) w fun r w' =>
      Kept w₀ r.2 w' ∧ ∀ e ∈ r.2, e ∈ legacy ∨ e.1 = file := by
  have hsame : ∀ ok : Bool, Kept w₀ (ok, legacy).2 w ∧
      ∀ e ∈ (ok, legacy).2, e ∈ legacy ∨ e.1 = file := fun _ => ⟨h, fun e he => .inl he⟩
  have hmarked : Ends G (migrateMarked file legacy) w fun r w' =>
      Kept w₀ r.2 w' ∧ ∀ e ∈ r.2, e ∈ legacy ∨ e.1 = file := by
    refine ends_bind (P := fun _ w' => w' = w) (ends_look rfl fun _ => rfl) fun owner w₁ hw => ?_
    subst hw
    by_cases howner : owner ≠ some 0
    · rw [if_pos howner]
      exact ends_pure (hsame false)
    rw [if_neg howner]
    refine ends_bind (P := fun _ w' => w' = w₁) (ends_look rfl fun _ => rfl) fun managed w₂ hw => ?_
    subst hw
    cases managed with
    | false => exact ends_pure (hsame false)
    | true =>
      refine ends_bind (ends_backUp (hfile.isOld w₂)) fun saved w₃ ⟨hbesides, hsaved, _⟩ => ?_
      cases saved with
      | none => exact ends_pure ⟨h.besides_all hbesides, fun e he => .inl he⟩
      | some backup =>
        obtain ⟨rfl, hmade, f, hf, hbackup⟩ := hsaved _ rfl
        have hkept := h.concat hbesides hfile hnew hf hmade hbackup
        refine ends_bind (ends_replaceService (hfile.isOld w₃)) fun ok w₄ h₄ => ends_pure ⟨?_, ?_⟩
        · exact hkept.besides h₄.1 hfile
            ⟨_, List.mem_append_right _ (List.mem_singleton.2 rfl), rfl⟩
        · intro e he
          rcases List.mem_append.1 he with he | he
          · exact .inl he
          · exact .inr (by rw [List.mem_singleton.1 he])
  have hisMarked : Ends G (isMarked file) w fun _ w' => w' = w := by
    refine ends_bind (P := fun _ w' => w' = w) (ends_look rfl fun _ => rfl) fun begins w₁ hw => ?_
    subst hw
    cases begins with
    | true => exact ends_pure rfl
    | false => exact ends_look rfl fun _ => rfl
  refine ends_bind (P := fun _ w' => w' = w) (ends_look rfl fun _ => rfl) fun kind w₁ hw => ?_
  subst hw
  match kind with
  | none => exact ends_pure (hsame true)
  | some .symlink => exact ends_pure (hsame false)
  | some .other => exact ends_pure (hsame false)
  | some .regular =>
    refine ends_bind hisMarked fun marked w₂ hw => ?_
    subst hw
    cases marked with
    | true => exact hmarked
    | false =>
      refine ends_bind (P := fun _ w' => w' = w₂) (ends_look rfl fun _ => rfl) fun unmanaged w₃ hw => ?_
      subst hw
      exact ends_pure (hsame _)

theorem ends_migrateRules (w : World) :
    Ends G migrateLegacyGlobalRules w fun r w' => Kept w r.2 w' := by
  have hstart : Kept w [] w :=
    ⟨fun e he => absurd he List.not_mem_nil, fun e he => absurd he List.not_mem_nil,
      fun e he => absurd he List.not_mem_nil, List.nodup_nil, fun _ _ _ => rfl⟩
  refine ends_bind (ends_migrate (.inl rfl) hstart fun e he => absurd he List.not_mem_nil)
    fun r w₁ h₁ => ?_
  obtain ⟨ok, legacy⟩ := r
  obtain ⟨hkept, hnames⟩ := h₁
  cases ok with
  | false => exact ends_pure hkept
  | true =>
    refine (ends_migrate (.inr rfl) hkept fun e he => ?_).post fun r w₂ h₂ => h₂.1
    rw [(hnames e he).resolve_left List.not_mem_nil]
    decide

/-- A backup is put back. -/
theorem ends_restoreBackup (hG : NoFault G .rollback) {e : Path × Path}
    (h : Kept w₀ (e :: legacy) w) :
    Ends G (restoreBackup e.1 e.2) w fun _ w' => Kept w₀ legacy w' := by
  obtain ⟨file, backup⟩ := e
  have hfile := h.service _ List.mem_cons_self
  obtain ⟨⟨n, hn, htemp⟩, hcontent⟩ := h.backup _ List.mem_cons_self
  have hpresent := h.present _ List.mem_cons_self
  dsimp only at hfile htemp hcontent hpresent
  subst htemp
  have hne : file ≠ .temp w.made := fun heq => absurd (hfile.isOld w _ heq) (Nat.lt_irrefl _)
  have holdBackup : IsOld w (.temp n) := fun m hm => by
    rw [Path.temp.injEq] at hm
    rwa [← hm]
  have hbackupNe : (.temp n : Path) ≠ .temp w.made :=
    fun heq => absurd (holdBackup _ heq) (Nat.lt_irrefl _)
  refine ends_bind ends_mktemp fun r w₁ ⟨hsome, _, hnone⟩ => ?_
  cases r with
  | none => exact absurd rfl (hnone hG)
  | some temp =>
    obtain ⟨rfl, rfl⟩ := hsome _ rfl
    have hstored : ((w.create).get (.temp n)).isSome = true := by
      rw [get_create_of_old holdBackup]
      cases hget : w.get (.temp n) with
      | none =>
        rw [World.content, hget] at hcontent
        exact absurd hcontent.symm hpresent
      | some f => rfl
    refine ends_bind (P := fun ok w' => ok = true ∧ w.made ≤ w'.made ∧
      w'.content file = w₀.content file ∧
      ∀ q, IsOld w q → q ≠ file → w'.get q = w.get q) ?_ fun ok w₂ ⟨hok, hmade, hrestored, hrest⟩ => ?_
    · refine ends_both (ends_cp (get_create w)) (fun w₂ ⟨honly, hcopied, _⟩ => ?_) fun w₂ h₂ => ?_
      · obtain ⟨f, hf, hget⟩ := hcopied rfl
        rw [get_create_of_old holdBackup] at hf
        refine ends_mv.post fun ok w₃ ⟨hmoved, hfailed, hall⟩ => ?_
        have hok : ok = true := hall hG (by rw [hget]; rfl)
        subst hok
        obtain ⟨g, hg, rfl⟩ := hmoved rfl
        rw [hget, Option.some.injEq] at hg
        refine ⟨rfl, (honly.besides_new (p := file)).made, ?_, fun q hq hqne => ?_⟩
        · rw [← hcontent, World.content, World.get_put, if_neg hne, World.get_put, if_pos rfl, ← hg,
            World.content, hf]
          rfl
        · have hqnew : q ≠ .temp w.made := fun heq => absurd (hq _ heq) (Nat.lt_irrefl _)
          rw [World.get_put, if_neg hqnew, World.get_put, if_neg hqne]
          exact honly.besides_new.get q hq hqne
      · exact absurd (h₂.2.2 hG hstored) Bool.false_ne_true
    · subst hok
      refine (ends_rm _).post fun _ w₃ h₃ => ?_
      have hkeep : ∀ e ∈ legacy, w₃.get e.2 = w.get e.2 ∧ ∃ m < w₃.made, e.2 = .temp m := by
        intro e he
        obtain ⟨⟨m, hm, htemp⟩, -⟩ := h.backup e (List.mem_cons_of_mem _ he)
        have hnodup := h.distinct
        rw [List.map_cons, List.nodup_cons] at hnodup
        have hother : e.2 ≠ .temp n := by
          intro heq
          have hmem : e.2 ∈ legacy.map Prod.snd := List.mem_map_of_mem he
          rw [heq] at hmem
          exact hnodup.1 hmem
        refine ⟨?_, m, ?_, htemp⟩
        · rw [h₃.1.get e.2 hother, hrest e.2 (fun k hk => ?_) fun heq => ?_]
          · rw [htemp, Path.temp.injEq] at hk
            rwa [← hk]
          · rw [← heq, htemp] at hfile
            rcases hfile with h | h <;> cases h
        · rw [h₃.1.made]
          exact Nat.lt_of_lt_of_le hm hmade
      refine ⟨fun e he => h.service e (List.mem_cons_of_mem _ he), fun e he => ⟨(hkeep e he).2, ?_⟩,
        fun e he => h.present e (List.mem_cons_of_mem _ he), ?_, fun p hp hpne => ?_⟩
      · rw [World.content, (hkeep e he).1]
        exact (h.backup e (List.mem_cons_of_mem _ he)).2
      · have hnodup := h.distinct
        rw [List.map_cons, List.nodup_cons] at hnodup
        exact hnodup.2
      · have hpbackup : p ≠ .temp n := by
          rintro rfl
          rcases hp with h | h <;> cases h
        rw [World.content, h₃.1.get p hpbackup]
        rcases eq_or_ne p file with rfl | hpfile
        · exact hrestored
        · rw [hrest p (hp.isOld w) hpfile]
          refine h.others p hp fun e he => ?_
          rcases List.mem_cons.1 he with rfl | he
          · exact fun heq => hpfile heq.symm
          · exact hpne e he

theorem ends_restoreBackups (hG : NoFault G .rollback) (h : Kept w₀ legacy w) :
    Ends G (restoreBackups legacy) w fun _ w' => Kept w₀ [] w' := by
  induction legacy generalizing w with
  | nil => exact ends_pure h
  | cons e legacy ih =>
    refine ends_bind (ends_restoreBackup hG h) fun _ w₁ h₁ => ?_
    exact ends_bind (ih h₁) fun _ w₂ h₂ => ends_pure h₂

theorem Kept.reverse (h : Kept w₀ legacy w) : Kept w₀ legacy.reverse w := by
  refine ⟨fun e he => h.service e (List.mem_reverse.1 he),
    fun e he => h.backup e (List.mem_reverse.1 he), fun e he => h.present e (List.mem_reverse.1 he),
    ?_, fun p hp hne => h.others p hp fun e he => hne e (List.mem_reverse.2 he)⟩
  rw [List.map_reverse, List.Nodup, List.pairwise_reverse]
  exact h.distinct.imp fun hne heq => hne heq.symm

/-- A command that does not touch the services. -/
theorem ends_aside {c : Command} {phase : Phase} (hexec : (exec c w).2.get = w.get) :
    Ends G (command phase c) w fun _ w' => w'.get = w.get :=
  ends_command hexec fun _ _ _ => rfl

/-- A rollback that succeeds restores the services. -/
theorem ends_rollbackPrepare (hG : NoFault G .rollback) (h : Kept w₀ legacy w) (created touched : Bool) :
    Ends G (rollbackPrepare legacy created touched) w fun ok w' =>
      ok = false ∧ ∀ p, IsService p → w'.content p = w₀.content p := by
  refine ends_bind (ends_restoreBackups hG h.reverse) fun _ w₁ h₁ => ?_
  refine ends_bind (P := fun _ w' => w'.get = w₁.get) ?_ fun _ w₂ h₂ => ?_
  · cases created with
    | true => exact ends_aside rfl
    | false => exact ends_pure rfl
  refine ends_bind (P := fun _ w' => w'.get = w₂.get) ?_ fun _ w₃ h₃ => ?_
  · cases touched with
    | true => exact ends_aside rfl
    | false => exact ends_pure rfl
  refine ends_bind (P := fun _ w' => w'.get = w₃.get) (ends_aside rfl) fun _ w₄ h₄ => ?_
  refine ends_pure ⟨rfl, fun p hp => ?_⟩
  rw [World.content, h₄, h₃, h₂]
  exact h₁.others p hp fun e he => absurd he List.not_mem_nil

/-- After a failure whose rollback succeeds the services are as before, if it is not that
    of the message at the end. -/
theorem ends_prepareTarget (hG : NoFault G .rollback)
    (hreport : ∀ c w, c.command = .report → ¬ G ⟨c, .fault, w⟩) (w : World) :
    Ends G prepareTarget w fun ok w' =>
      ok = false → ∀ p, IsService p → w'.content p = w.content p := by
  have hstart : ∀ w', w'.get = w.get → Kept w [] w' := fun w' h =>
    ⟨fun e he => absurd he List.not_mem_nil, fun e he => absurd he List.not_mem_nil,
      fun e he => absurd he List.not_mem_nil, List.nodup_nil,
      fun p _ _ => by rw [World.content, h]; rfl⟩
  have hrollback : ∀ {legacy : Legacy} {w' : World} (created touched : Bool), Kept w legacy w' →
      Ends G (rollbackPrepare legacy created touched) w' fun ok w' =>
        ok = false → ∀ p, IsService p → w'.content p = w.content p := fun created touched h =>
    (ends_rollbackPrepare hG h created touched).post fun _ _ h _ => h.2
  refine ends_bind (P := fun _ w' => w'.get = w.get) (ends_aside rfl) fun checked w₁ h₁ => ?_
  cases checked with
  | false => exact ends_pure fun _ p _ => by rw [World.content, h₁]; rfl
  | true =>
  refine ends_bind (P := fun _ w' => w'.get = w₁.get) (ends_aside rfl) fun installed w₂ h₂ => ?_
  rw [h₁] at h₂
  cases installed with
  | none => exact ends_pure fun _ p _ => by rw [World.content, h₂]; rfl
  | some created =>
  refine ends_bind (P := fun _ w' => w'.get = w₂.get) (ends_aside rfl) fun policy w₃ h₃ => ?_
  rw [h₂] at h₃
  cases policy with
  | false => exact hrollback created false (hstart w₃ h₃)
  | true =>
  refine ends_bind (P := fun _ w' => w'.get = w₃.get) (ends_aside rfl) fun socket w₄ h₄ => ?_
  rw [h₃] at h₄
  cases socket with
  | false => exact hrollback created true (hstart w₄ h₄)
  | true =>
  refine ends_bind (ends_migrateRules w₄) fun r w₅ h₅ => ?_
  obtain ⟨ok, legacy⟩ := r
  have hkept : Kept w legacy w₅ := by
    have hsame : ∀ p, w₄.content p = w.content p := fun p => by rw [World.content, h₄]; rfl
    refine ⟨h₅.service, fun e he => ?_, fun e he => ?_, h₅.distinct, fun p hp hne => ?_⟩
    · rw [← hsame]
      exact h₅.backup e he
    · rw [← hsame]
      exact h₅.present e he
    · rw [← hsame]
      exact h₅.others p hp hne
  cases ok with
  | false => exact hrollback created true hkept
  | true =>
    -- nothing can fail any more but the message
    have hremove : ∀ (legacy : Legacy) (w : World),
        Ends G (removeBackups legacy) w fun _ _ => True := by
      intro legacy
      induction legacy with
      | nil => exact fun w => ends_pure trivial
      | cons e legacy ih => exact fun w => ends_bind (ends_rm e.2) fun _ w' _ => ih w'
    refine ends_bind (hremove legacy w₅) fun _ w₆ _ => ?_
    exact ⟨fun _ => trivial, fun _ => nofun, fun r _ h => absurd h (hreport _ _ rfl)⟩

/-- Without a failure a marked service is accepted as the scan says, and rewritten. -/
theorem ends_migrate_marked (hG : NoFault G .prepare) (hfile : IsService file)
    {bytes : List UInt8} (hget : w.get file = some ⟨.regular, 0, bytes⟩)
    (hmarked : legacyBegin ∈ records bytes ∨ legacyEnd ∈ records bytes) (legacy : Legacy) :
    Ends G (migrateLegacyGlobalRule file legacy) w fun r w' =>
      r.1 = accepts (records bytes) ∧
      (r.1 = true → w'.content file = some (printed (strip false (records bytes)))) := by
  have hlook : ∀ {c : Command} {Q : Reply c → World → Prop}, Q (exec c w).1 (exec c w).2 →
      Ends G (command .prepare c) w Q := fun h =>
    ends_command h fun _ _ hnot => absurd hG hnot
  have hcontent : w.content file = some bytes := by
    rw [World.content, hget]
    rfl
  have hgrep (line : Line) : Ends G (grep line file) w fun r w' =>
      w' = w ∧ r = decide (line ∈ records bytes) := by
    refine hlook ⟨rfl, ?_⟩
    simp [exec, hcontent, hasLine]
  have hisMarked : Ends G (isMarked file) w fun r w' => w' = w ∧ r = true := by
    refine ends_bind (hgrep legacyBegin) fun begins w₁ ⟨hw, hbegins⟩ => ?_
    subst hw
    cases begins with
    | true => exact ends_pure ⟨rfl, rfl⟩
    | false =>
      refine (hgrep legacyEnd).post fun r w₂ ⟨hw, hr⟩ => ⟨hw, ?_⟩
      rw [hr, decide_eq_true (hmarked.resolve_left (of_decide_eq_false hbegins.symm))]
  refine ends_bind (P := fun r w' => w' = w ∧ r = some Kind.regular)
    (hlook ⟨rfl, by simp [exec, hget]⟩) fun kind w₁ ⟨hw, hkind⟩ => ?_
  subst hw hkind
  refine ends_bind hisMarked fun marked w₂ ⟨hw, hmark⟩ => ?_
  subst hw hmark
  refine ends_bind (P := fun r w' => w' = w₂ ∧ r = some 0)
    (hlook ⟨rfl, by simp [exec, hget]⟩) fun owner w₃ ⟨hw, howner⟩ => ?_
  subst hw howner
  rw [if_neg (fun h => h rfl)]
  refine ends_bind (P := fun r w' => w' = w₃ ∧ r = accepts (records bytes))
    (hlook ⟨rfl, by simp [exec, hcontent]⟩) fun managed w₄ ⟨hw, hmanaged⟩ => ?_
  subst hw
  rw [← hmanaged]
  cases managed with
  | false => exact ends_pure ⟨rfl, nofun⟩
  | true =>
    have hsome : (w₄.get file).isSome = true := by
      rw [hget]
      rfl
    refine ends_bind (ends_backUp (hfile.isOld w₄)) fun saved w₅ ⟨hbesides, _, hsaved⟩ => ?_
    cases saved with
    | none => exact absurd rfl (hsaved hG hsome)
    | some backup =>
      have hsame : w₅.get file = w₄.get file := by
        rcases hfile with rfl | rfl
        · exact (hbesides .kde).get _ (IsService.isOld (.inl rfl) w₄) (by decide)
        · exact (hbesides .sddm).get _ (IsService.isOld (.inr rfl) w₄) (by decide)
      refine ends_bind (ends_replaceService (hfile.isOld w₅)) fun ok w₆ ⟨_, hok, hall⟩ => ?_
      rw [hsame] at hok hall
      have hdone : ok = true := hall hG hsome
      refine ends_pure ⟨hdone, fun _ => ?_⟩
      obtain ⟨f, hf, hnew⟩ := hok hdone
      rw [hget, Option.some.injEq] at hf
      rw [hnew, ← hf]

/-- Of a service with a marker, managed blocks are accepted and nothing else, and only the
    block is taken out. -/
def TakesOutBlock (file : Path) (legacy : Legacy) (s : List Choice) (w : World) : Prop :=
  ∀ bytes, w.get file = some ⟨.regular, 0, bytes⟩ → IsText bytes →
    legacyBegin ∈ records bytes ∨ legacyEnd ∈ records bytes →
    (∀ st ∈ (migrateLegacyGlobalRule file legacy).steps shell s w, st.choice = .ok) →
    ∃ r w', (migrateLegacyGlobalRule file legacy).run shell s w = (some r, w') ∧
      (r.1 = true ↔ ∃ before after, IsManaged before after (records bytes)) ∧
      ∀ before after, IsManaged before after (records bytes) →
        bytes = printed (before ++ [legacyBegin, legacyRule, legacyEnd] ++ after) ∧
        w'.content file = some (printed (before ++ after))

/-- After a failure whose rollback succeeds the services are as before. -/
def RestoresServices (s : List Choice) (w : World) : Prop :=
  ∀ w', prepareTarget.run shell s w = (some false, w') →
    (∀ st ∈ prepareTarget.steps shell s w, st.call.phase = .rollback → st.choice = .ok) →
    ∀ p, IsService p → w'.content p = w.content p

theorem takesOutBlock (hfile : IsService file) (legacy : Legacy) (s : List Choice) (w : World) :
    TakesOutBlock file legacy s w := by
  intro bytes hget htext hmarked hok
  have hends : ∃ r w', (migrateLegacyGlobalRule file legacy).run shell s w = (some r, w') := by
    cases hrun : (migrateLegacyGlobalRule file legacy).run shell s w with
    | mk r w' =>
      cases r with
      | some r => exact ⟨r, w', rfl⟩
      | none =>
        obtain ⟨c, hc⟩ := Prog.stop_mem_steps hrun
        cases hok _ hc
  obtain ⟨r, w', hrun⟩ := hends
  have hG : NoFault (fun st => st.choice = .ok) .prepare := fun c w _ => nofun
  have ⟨haccepts, hcontent⟩ := Prog.Safe.ends hrun (ends_migrate_marked hG hfile hget hmarked legacy) hok
  have hiff : r.1 = true ↔ ∃ before after, IsManaged before after (records bytes) := by
    rw [haccepts, accepts_iff]
  refine ⟨r, w', hrun, hiff, fun before after h => ⟨?_, ?_⟩⟩
  · rw [← h.eq, printed_records htext.newline]
  · rw [hcontent (hiff.2 ⟨before, after, h⟩), strip_managed h]

/-- Managed blocks are taken out of the services, and a failure takes that back, if the
    message at the end can be written. -/
theorem migration_laws {s : List Choice} {w : World}
    (hreport : ∀ st ∈ prepareTarget.steps shell s w,
      st.call.command = .report → st.choice ≠ .fault) :
    (∀ file, IsService file → ∀ legacy s w, TakesOutBlock file legacy s w) ∧
      RestoresServices s w := by
  refine ⟨fun file hfile legacy s w => takesOutBlock hfile legacy s w, fun w' hrun hrollback => ?_⟩
  have hG : NoFault (fun st => (st.call.phase = .rollback → st.choice = .ok) ∧
      (st.call.command = .report → st.choice ≠ .fault)) .rollback :=
    fun c w hc h => nomatch h.1 hc
  refine Prog.Safe.ends hrun (ends_prepareTarget hG (fun c w hc h => h.2 hc rfl) w)
    (fun st hst => ⟨hrollback st hst, hreport st hst⟩) rfl

/-- A machine where the block is in both services. -/
def twoServices : World where
  get p := if p = .sddm ∨ p = .kde then
      some ⟨.regular, 0, printed [legacyBegin, legacyRule, legacyEnd]⟩
    else none
  made := 0
  dedicated := false

/-- The block is taken out of the first service; the second cannot be backed up. -/
def backUpFails : List Choice := List.replicate 289 Choice.ok ++ [Choice.fault]

/-- The block was taken out of the first service, and the rollback puts it back. -/
theorem migration_laws_rolledBack :
    (∀ file, IsService file → ∀ legacy s w, TakesOutBlock file legacy s w) ∧
      ∃ w', prepareTarget.run shell backUpFails twoServices = (some false, w') ∧
        (∃ st ∈ prepareTarget.steps shell backUpFails twoServices,
          st.before.content .sddm = some []) ∧
        w'.content .sddm = some (printed [legacyBegin, legacyRule, legacyEnd]) ∧
        w'.content .kde = some (printed [legacyBegin, legacyRule, legacyEnd]) := by
  have hsteps : ((prepareTarget.steps shell backUpFails twoServices).all fun st =>
      (st.call.command = .report → st.choice ≠ .fault) ∧
        (st.call.phase = .rollback → st.choice = .ok)) = true := by decide +kernel
  have hstep := fun st hst => of_decide_eq_true (List.all_eq_true.mp hsteps st hst)
  have hvalue : (prepareTarget.run shell backUpFails twoServices).1 = some false := by
    decide +kernel
  have htaken : ((prepareTarget.steps shell backUpFails twoServices)[289]?.bind fun st =>
      st.before.content .sddm) = some [] := by decide +kernel
  obtain ⟨st, hst, hempty⟩ := Option.bind_eq_some_iff.mp htaken
  obtain ⟨htakes, hrestores⟩ := migration_laws (s := backUpFails) (w := twoServices)
    fun st hst => (hstep st hst).1
  cases hrun : prepareTarget.run shell backUpFails twoServices with
  | mk ok w' =>
    rw [hrun] at hvalue
    dsimp only at hvalue
    subst hvalue
    have hsame := hrestores w' hrun fun st hst => (hstep st hst).2
    exact ⟨htakes, w', rfl, ⟨st, List.mem_of_getElem? hst, hempty⟩, hsame .sddm (.inl rfl),
      hsame .kde (.inr rfl)⟩

/-- A machine whose login manager has the block. -/
def legacyWorld : World where
  get p := if p = .sddm then some ⟨.regular, 0, printed [legacyBegin, legacyRule, legacyEnd]⟩
    else none
  made := 0
  dedicated := false

/-- The message at the end cannot be written: nothing is rolled back, and the block is
    gone. -/
theorem migration_unreported :
    ¬ RestoresServices (List.replicate 287 Choice.ok ++ [Choice.fault]) legacyWorld := by
  intro hrestores
  have hvalue : (prepareTarget.run shell (List.replicate 287 Choice.ok ++ [Choice.fault])
      legacyWorld).1 = some false := by decide +kernel
  have hcontent : ((prepareTarget.run shell (List.replicate 287 Choice.ok ++ [Choice.fault])
      legacyWorld).2.content .sddm) = some [] := by decide +kernel
  have hphase : ((prepareTarget.steps shell (List.replicate 287 Choice.ok ++ [Choice.fault])
      legacyWorld).all fun st => st.call.phase = .prepare) = true := by decide +kernel
  cases hrun : prepareTarget.run shell (List.replicate 287 Choice.ok ++ [Choice.fault])
      legacyWorld with
  | mk ok w' =>
    rw [hrun] at hvalue hcontent
    dsimp only at hvalue hcontent
    rw [hvalue] at hrun
    have hsame := hrestores w' hrun (fun st hst hrollback => ?_) .sddm (.inl rfl)
    · rw [hcontent] at hsame
      cases hsame
    · rw [of_decide_eq_true (List.all_eq_true.mp hphase st hst)] at hrollback
      cases hrollback

end Migration

end PamSetup

end KFaceAuth
