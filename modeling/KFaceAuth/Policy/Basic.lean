import Std.Data.ExtTreeMap
import Mathlib.Tactic.Common

/-!
# The authentication policy

The per-user opt-in policy: for every user, the mode of each of the two targets
(the `users` map of `AuthPolicy`). An absent entry means `Off`; entries are
never stored as `Off` by `setMode`.

Two policies are the same if their maps are. `modeFor` is what the daemon asks
of it, and `setMode` is the only way it changes: it changes the mode of one
target of one user (`modeFor_setMode`). `revokeUserTargets` turns both targets
of a user off.
-/

namespace KFaceAuth

open Std

/-- `AuthTarget`. -/
inductive AuthTarget
  | sddm
  | plasmaLock
  deriving DecidableEq, Repr

instance : Ord AuthTarget where
  compare a b := compare a.ctorIdx b.ctorIdx

instance : TransOrd AuthTarget where
  eq_swap {a b} := by cases a <;> cases b <;> rfl
  isLE_trans {a b c} := by cases a <;> cases b <;> cases c <;> decide

instance : LawfulEqOrd AuthTarget where
  compare_self {a} := by cases a <;> rfl
  eq_of_compare {a b} := by cases a <;> cases b <;> decide

/-- `AuthPolicyMode`. -/
inductive AuthPolicyMode
  | off
  | onActivity
  | manual
  deriving DecidableEq, Repr

/-- `AuthPolicyError`. -/
inductive AuthPolicyError
  | invalid
  | unsafeFilesystem
  | io
  deriving DecidableEq, Repr

/-- The targets of one user. -/
abbrev Targets := ExtTreeMap AuthTarget AuthPolicyMode

/-- `AuthPolicy`. -/
structure AuthPolicy where
  users : ExtTreeMap UInt32 Targets
  deriving DecidableEq

namespace AuthPolicy

/-- `AuthPolicy::default`: everything is off. -/
instance : Inhabited AuthPolicy := ⟨⟨∅⟩⟩

/-- `AuthPolicy::mode_for`. -/
def modeFor (p : AuthPolicy) (uid : UInt32) (target : AuthTarget) : AuthPolicyMode :=
  ((p.users[uid]?.bind fun targets => targets[target]?)).getD .off

/-- `AuthPolicy::set_mode`. User zero is not eligible; a user left without
    targets is removed. -/
def setMode (p : AuthPolicy) (uid : UInt32) (target : AuthTarget) (mode : AuthPolicyMode) :
    Except AuthPolicyError AuthPolicy :=
  if uid = 0 then .error .invalid
  else if mode = .off then
    match p.users[uid]? with
    | none => .ok p
    | some targets =>
      let targets := targets.erase target
      if targets.isEmpty then .ok ⟨p.users.erase uid⟩ else .ok ⟨p.users.insert uid targets⟩
  else .ok ⟨p.users.insert uid ((p.users[uid]?.getD ∅).insert target mode)⟩

/-- `revoke_user_targets`. -/
def revokeUserTargets (p : AuthPolicy) (uid : UInt32) : Except AuthPolicyError AuthPolicy := do
  let p ← p.setMode uid .sddm .off
  p.setMode uid .plasmaLock .off

/-- Some target of `uid` is on. -/
def Enables (p : AuthPolicy) (uid : UInt32) : Prop := ∃ target, p.modeFor uid target ≠ .off

instance (p : AuthPolicy) (uid : UInt32) : Decidable (p.Enables uid) :=
  decidable_of_iff (p.modeFor uid .sddm ≠ .off ∨ p.modeFor uid .plasmaLock ≠ .off)
    ⟨fun h => h.elim (fun h => ⟨_, h⟩) fun h => ⟨_, h⟩, fun ⟨t, h⟩ => by
      cases t
      · exact .inl h
      · exact .inr h⟩

variable {p q : AuthPolicy} {uid : UInt32} {target : AuthTarget} {mode : AuthPolicyMode}

theorem not_enables : ¬ p.Enables uid ↔ ∀ target, p.modeFor uid target = .off := by
  simp [Enables]

/-- Only user zero is refused. -/
theorem setMode_isOk (h : uid ≠ 0) : ∃ q, p.setMode uid target mode = .ok q := by
  unfold setMode
  rw [if_neg h]
  split_ifs
  · split
    · exact ⟨_, rfl⟩
    · dsimp only
      split_ifs <;> exact ⟨_, rfl⟩
  · exact ⟨_, rfl⟩

theorem ne_zero_of_setMode (h : p.setMode uid target mode = .ok q) : uid ≠ 0 := by
  rintro rfl
  simp [setMode] at h

/-- `setMode` changes one target of one user, and nothing else. -/
theorem modeFor_setMode (h : p.setMode uid target mode = .ok q) (v : UInt32) (t : AuthTarget) :
    q.modeFor v t = if v = uid ∧ t = target then mode else p.modeFor v t := by
  rw [setMode, if_neg (ne_zero_of_setMode h)] at h
  split_ifs at h with hm
  · subst hm
    cases hu : p.users[uid]? with
    | none =>
      simp only [hu, Except.ok.injEq] at h
      subst h
      split_ifs with hvt
      · rw [modeFor, hvt.1, hu]
        rfl
      · rfl
    | some targets =>
      simp only [hu] at h
      have key : ((targets.erase target)[t]?).getD .off =
          if t = target then .off else (targets[t]?).getD .off := by
        rw [ExtTreeMap.getElem?_erase]
        by_cases ht : t = target
        · simp [ht]
        · simp [ht, Ne.symm ht]
      by_cases hv : v = uid
      · -- the user's own targets, whether or not some are left
        subst hv
        have hq : q.modeFor v t = ((targets.erase target)[t]?).getD .off := by
          split_ifs at h with he
          · cases h
            have hnone : (targets.erase target)[t]? = none := by
              rw [ExtTreeMap.isEmpty_iff.1 he]
              simp
            simp [modeFor, hnone]
          · cases h
            simp [modeFor]
        rw [hq, key]
        simp [modeFor, hu]
      · have hq : q.users[v]? = p.users[v]? := by
          split_ifs at h with he
          · cases h
            simp [ExtTreeMap.getElem?_erase, Ne.symm hv]
          · cases h
            simp [ExtTreeMap.getElem?_insert, Ne.symm hv]
        simp [modeFor, hq, hv]
  · cases h
    by_cases hv : v = uid
    · subst hv
      by_cases ht : t = target
      · simp [modeFor, ht]
      · cases hu : p.users[v]? <;>
          simp [modeFor, ExtTreeMap.getElem?_insert, ht, Ne.symm ht, hu]
    · simp [modeFor, ExtTreeMap.getElem?_insert, hv, Ne.symm hv]

theorem modeFor_revokeUserTargets (h : p.revokeUserTargets uid = .ok q) (v : UInt32)
    (t : AuthTarget) : q.modeFor v t = if v = uid then .off else p.modeFor v t := by
  unfold revokeUserTargets at h
  cases h₁ : p.setMode uid .sddm .off with
  | error e => simp [h₁, bind, Except.bind] at h
  | ok p₁ =>
    simp only [h₁, bind, Except.bind] at h
    rw [modeFor_setMode h, modeFor_setMode h₁]
    by_cases hv : v = uid
    · cases t <;> simp [hv]
    · simp [hv]

theorem not_enables_revokeUserTargets (h : p.revokeUserTargets uid = .ok q) :
    ¬ q.Enables uid := by
  rw [not_enables]
  intro t
  simp [modeFor_revokeUserTargets h]

end AuthPolicy

end KFaceAuth
