import KFaceAuth.Lib.FsProg

/-!
# Programs that keep an invariant

A program keeps `J` if, from a world satisfying `J`, whatever happens to its run
leaves a world satisfying `J` (`Keeps`). A program stays within a set of paths
if it keeps everything outside (`Stays`). Unlike a condition on its calls, this
can be said of a program that removes what it finds, as it finds nothing outside
the tree it looks at (`stays_removeDirAll`).

* `Stays.keeps`: a property that does not depend on the paths in `S` is kept.
-/

namespace KFaceAuth

open Prog

/-! ## Values -/

section Returns

variable {C : Type} {R : C → Type} {ε α β : Type} {P : Except ε β → Prop}

/-- What is returned after a program, whatever its value. -/
theorem Prog.returns_bindE {x : ExceptT ε (Prog C R) α} {f : α → ExceptT ε (Prog C R) β}
    (hok : ∀ a, (f a).run.Returns P) (herr : ∀ e, P (.error e)) : (x >>= f).run.Returns P := by
  refine (returns_true x.run).bind fun r _ => ?_
  cases r with
  | ok a => exact hok a
  | error e => exact herr e

theorem Prog.returns_ite {b : Prop} [Decidable b] {x y : ExceptT ε (Prog C R) β}
    (hx : x.run.Returns P) (hy : y.run.Returns P) : (if b then x else y).run.Returns P := by
  split_ifs
  · exact hx
  · exact hy

end Returns

/-! ## Invariants -/

section Keeps

variable {N D ε α β : Type} [DecidableEq N] [Content D]
  {H : Handler (FsCall N D) FsCall.Reply (Fs N D)} {G : Step (FsCall N D) (Fs N D) → Prop}
  {J : Fs N D → Prop}

/-- Whatever happens, `J` is kept. -/
def Keeps (H : Handler (FsCall N D) FsCall.Reply (Fs N D))
    (G : Step (FsCall N D) (Fs N D) → Prop) (J : Fs N D → Prop) (p : FsProg N D α) : Prop :=
  ∀ w, J w → p.Safe H G J (fun _ => J) w

omit [DecidableEq N] [Content D]

theorem keeps_pure (a : α) : Keeps H G J (Prog.pure a : FsProg N D α) := fun _ h => h

theorem Keeps.bind {p : FsProg N D α} {f : α → FsProg N D β} (h : Keeps H G J p)
    (hf : ∀ a, Keeps H G J (f a)) : Keeps H G J (p >>= f) :=
  fun w hw => Safe.bind (h w hw) fun a w₁ h₁ => hf a w₁ h₁

/-- The next program may rely on the value of the first. -/
theorem Keeps.bind_returns {p : FsProg N D α} {f : α → FsProg N D β} {P : α → Prop}
    (h : Keeps H G J p) (hp : p.Returns P) (hf : ∀ a, P a → Keeps H G J (f a)) :
    Keeps H G J (p >>= f) :=
  fun w hw => Safe.bind (hp.safe (h w hw)) fun a w₁ h₁ => hf a h₁.1 w₁ h₁.2

theorem Keeps.bindE {x : ExceptT ε (FsProg N D) α} {f : α → ExceptT ε (FsProg N D) β}
    (h : Keeps H G J x.run) (hf : ∀ a, Keeps H G J (f a).run) : Keeps H G J (x >>= f).run := by
  refine h.bind fun r => ?_
  cases r with
  | ok a => exact hf a
  | error e => exact keeps_pure _

theorem Keeps.lift {p : FsProg N D α} (h : Keeps H G J p) :
    Keeps H G J (liftM p : ExceptT ε (FsProg N D) α).run :=
  h.bind fun _ => keeps_pure _

theorem Keeps.liftE {p : FsProg N D α} {f : α → ExceptT ε (FsProg N D) β} (h : Keeps H G J p)
    (hf : ∀ a, Keeps H G J (f a).run) :
    Keeps H G J ((liftM p : ExceptT ε (FsProg N D) α) >>= f).run :=
  h.lift.bindE hf

theorem Keeps.liftE_returns {p : FsProg N D α} {f : α → ExceptT ε (FsProg N D) β} {P : α → Prop}
    (h : Keeps H G J p) (hp : p.Returns P) (hf : ∀ a, P a → Keeps H G J (f a).run) :
    Keeps H G J ((liftM p : ExceptT ε (FsProg N D) α) >>= f).run := by
  have hl : (p >>= fun a => .pure (Except.ok a) : FsProg N D (Except ε α)).Returns
      fun r => ∃ a, r = .ok a ∧ P a := hp.bind fun a ha => ⟨a, rfl, ha⟩
  refine Keeps.bind_returns (p := (liftM p : ExceptT ε (FsProg N D) α).run) h.lift hl fun r hr => ?_
  obtain ⟨a, rfl, ha⟩ := hr
  exact hf a ha

theorem Keeps.ite {b : Prop} [Decidable b] {x y : ExceptT ε (FsProg N D) α}
    (hx : Keeps H G J x.run) (hy : Keeps H G J y.run) : Keeps H G J (if b then x else y).run := by
  split_ifs
  · exact hx
  · exact hy

theorem Keeps.onError {body : ExceptT ε (FsProg N D) α} {cleanup : FsProg N D Unit}
    (h : Keeps H G J body.run) (hd : Keeps H G J cleanup) :
    Keeps H G J (KFaceAuth.onError body cleanup).run := by
  refine h.bind fun r => ?_
  cases r with
  | ok a => exact (keeps_pure _).bind fun _ => keeps_pure _
  | error e => exact hd.bind fun _ => keeps_pure _

end Keeps

/-! ## Sets of paths -/

namespace Fs

variable {N D : Type}

/-- The call touches only paths in `S`. -/
def In (S : List N → Prop) (c : FsCall N D) : Prop := ∀ q, c.Touches q → S q

theorem in_of_readOnly {S : List N → Prop} {c : FsCall N D} (h : ReadOnly c) : In S c := by
  intro q hq
  cases c <;> first | exact hq.elim | exact h.elim

variable [DecidableEq N] [Content D] {sys : Sys N} {ε α β : Type}
  {G : Step (FsCall N D) (Fs N D) → Prop} {S : List N → Prop}

/-- Whatever happens, only paths in `S` are changed. -/
def Stays (sys : Sys N) (G : Step (FsCall N D) (Fs N D) → Prop) (S : List N → Prop)
    (p : FsProg N D α) : Prop :=
  ∀ w, Keeps (handler sys) G (Within S w) p

theorem stays_of_calls {p : FsProg N D α} (h : p.Calls (In S)) : Stays sys G S p := by
  intro w w₁ h₁
  exact (safe_within h).mono (fun _ h₂ => h₁.trans h₂) fun _ _ h₂ => h₁.trans h₂

/-- A property that does not depend on the paths in `S` is kept. -/
theorem Stays.keeps {p : FsProg N D α} (h : Stays sys G S p) {J : Fs N D → Prop}
    (hJ : ∀ w w', Within S w w' → J w → J w') : Keeps (handler sys) G J p := by
  intro w hw
  exact (h w w (.refl S w)).mono (fun w' h' => hJ w w' h' hw) fun _ w' h' => hJ w w' h' hw

theorem stays_pure (a : α) : Stays sys G S (Prog.pure a : FsProg N D α) := fun _ => keeps_pure a

theorem Stays.bind {p : FsProg N D α} {f : α → FsProg N D β} (h : Stays sys G S p)
    (hf : ∀ a, Stays sys G S (f a)) : Stays sys G S (p >>= f) :=
  fun w => (h w).bind fun a => hf a w

theorem Stays.bindE {x : ExceptT ε (FsProg N D) α} {f : α → ExceptT ε (FsProg N D) β}
    (h : Stays sys G S x.run) (hf : ∀ a, Stays sys G S (f a).run) :
    Stays sys G S (x >>= f).run :=
  fun w => (h w).bindE fun a => hf a w

theorem Stays.lift {p : FsProg N D α} (h : Stays sys G S p) :
    Stays sys G S (liftM p : ExceptT ε (FsProg N D) α).run :=
  fun w => (h w).lift

theorem Stays.liftE {p : FsProg N D α} {f : α → ExceptT ε (FsProg N D) β}
    (h : Stays sys G S p) (hf : ∀ a, Stays sys G S (f a).run) :
    Stays sys G S ((liftM p : ExceptT ε (FsProg N D) α) >>= f).run :=
  fun w => (h w).liftE fun a => hf a w

theorem Stays.ite {b : Prop} [Decidable b] {x y : ExceptT ε (FsProg N D) α}
    (hx : Stays sys G S x.run) (hy : Stays sys G S y.run) :
    Stays sys G S (if b then x else y).run :=
  fun w => .ite (hx w) (hy w)

theorem Stays.onError {body : ExceptT ε (FsProg N D) α} {cleanup : FsProg N D Unit}
    (h : Stays sys G S body.run) (hd : Stays sys G S cleanup) :
    Stays sys G S (KFaceAuth.onError body cleanup).run :=
  fun w => (h w).onError (hd w)

omit [Content D] in
theorem Pruned.within {p : List N} {w w' : Fs N D} (h : Pruned p w w') (hS : ∀ q, p <+: q → S q) :
    Within S w w' :=
  ⟨fun _ hq => h.of_not_prefix fun hp => hq (hS _ hp), ⟨[], h.log, by simp⟩, h.wf⟩

/-- The removal of a tree stays within the tree. -/
theorem stays_removeDirAll {p : List N} (hS : ∀ q, p <+: q → S q) :
    Stays sys G S (removeDirAll p : ExceptT IoError (FsProg N D) Unit).run := by
  intro w w₁ h₁
  exact (safe_removeDirAll p).mono (fun _ h => h₁.trans (h.within hS))
    fun _ _ h => h₁.trans (h.1.within hS)

end Fs

end KFaceAuth
