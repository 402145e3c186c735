import KFaceAuth.Lib.Stays

/-!
# Programs that succeed

What holds when a fallible program returns a value, whatever failed or was retried on
the way: `Succeeds sys P x Q` says that a run of `x` from files satisfying `P` that ends
with a value leaves files, and the value, satisfying `Q`. Nothing is said of runs that
end with an error, so that a branch that only throws needs no proof
(`succeeds_throw`).
-/

namespace KFaceAuth

open Prog Fs

variable {N D : Type} [DecidableEq N] [Content D] {sys : Sys N} {ε α β : Type}
  {P P' : Fs N D → Prop} {Q Q' : α → Fs N D → Prop} {R : β → Fs N D → Prop}

/-- Of every program nothing holds. -/
theorem safe_trivial (p : FsProg N D α) (w : Fs N D) :
    p.Safe (handler sys) (fun _ => True) (fun _ => True) (fun _ _ => True) w := by
  induction p generalizing w with
  | pure a => trivial
  | call c k ih => exact ⟨fun _ => trivial, fun _ => ih _ _, fun r _ _ => ih r w⟩

/-- A run from `P` that ends with a value satisfies `Q`. -/
def Succeeds (sys : Sys N) (P : Fs N D → Prop) (x : ExceptT ε (FsProg N D) α)
    (Q : α → Fs N D → Prop) : Prop :=
  ∀ w, P w → x.run.Safe (handler sys) (fun _ => True) (fun _ => True)
    (fun r w' => ∀ a, r = .ok a → Q a w') w

theorem Succeeds.run {x : ExceptT ε (FsProg N D) α} (h : Succeeds sys P x Q) {w w' : Fs N D}
    {s : List Choice} {a : α} (hw : P w) (hr : x.run.run (handler sys) s w = (some (.ok a), w')) :
    Q a w' :=
  Safe.ends hr (h w hw) (fun _ _ => trivial) a rfl

/-- From a rule that also says what an error leaves. -/
theorem succeeds_of_safe {x : ExceptT ε (FsProg N D) α} {I : Fs N D → Fs N D → Prop}
    {T : Fs N D → Except ε α → Fs N D → Prop}
    (h : ∀ w, P w → x.run.Safe (handler sys) (fun _ => True) (I w) (T w) w)
    (hT : ∀ w, P w → ∀ a w', T w (.ok a) w' → Q a w') : Succeeds sys P x Q := by
  intro w hw
  refine (h w hw).mono (fun _ _ => trivial) fun r w' hr a ha => ?_
  subst ha
  exact hT w hw a w' hr

theorem succeeds_pure {a : α} (h : ∀ w, P w → Q a w) :
    Succeeds sys P (pure a : ExceptT ε (FsProg N D) α) Q := by
  rintro w hw _ ⟨⟩
  exact h w hw

theorem succeeds_throw {e : ε} : Succeeds sys P (throw e : ExceptT ε (FsProg N D) α) Q :=
  fun _ _ _ h => by cases h

theorem Succeeds.mono {x : ExceptT ε (FsProg N D) α} (h : Succeeds sys P x Q)
    (hP : ∀ w, P' w → P w) (hQ : ∀ a w, Q a w → Q' a w) : Succeeds sys P' x Q' :=
  fun w hw => (h w (hP w hw)).post fun _ w' hr a ha => hQ a w' (hr a ha)

theorem Succeeds.and {x : ExceptT ε (FsProg N D) α} (h : Succeeds sys P x Q)
    (h' : Succeeds sys P' x Q') :
    Succeeds sys (fun w => P w ∧ P' w) x fun a w => Q a w ∧ Q' a w :=
  fun w hw => ((h w hw.1).and (h' w hw.2)).mono (fun _ _ => trivial)
    fun _ _ hr a ha => ⟨hr.1 a ha, hr.2 a ha⟩

/-- Sequential composition. -/
theorem Succeeds.bind {x : ExceptT ε (FsProg N D) α} {f : α → ExceptT ε (FsProg N D) β}
    (h : Succeeds sys P x Q) (hf : ∀ a, Succeeds sys (Q a) (f a) R) :
    Succeeds sys P (x >>= f) R :=
  fun w hw => Safe.bindE (h w hw) (fun a w' ha => hf a w' (ha a rfl)) fun _ _ _ _ h => by cases h

/-- Composition with a program that cannot fail. -/
theorem Succeeds.lift {p : FsProg N D α} {f : α → ExceptT ε (FsProg N D) β}
    (h : ∀ w, P w → p.Safe (handler sys) (fun _ => True) (fun _ => True) Q w)
    (hf : ∀ a, Succeeds sys (Q a) (f a) R) :
    Succeeds sys P ((liftM p : ExceptT ε (FsProg N D) α) >>= f) R :=
  fun w hw => Safe.liftE (h w hw) fun a w' ha => hf a w' ha

theorem Succeeds.ite {b : Prop} [Decidable b] {x y : ExceptT ε (FsProg N D) α}
    (hx : b → Succeeds sys P x Q) (hy : ¬ b → Succeeds sys P y Q) :
    Succeeds sys P (if b then x else y) Q := by
  split_ifs with hb
  · exact hx hb
  · exact hy hb

/-- A program that changes nothing else than what `S` allows. -/
theorem Fs.Stays.succeeds {S : List N → Prop} {x : ExceptT ε (FsProg N D) α}
    (h : Stays sys (fun _ => True) S x.run) (hP : ∀ w w', Within S w w' → P w → P w') :
    Succeeds sys P x fun _ => P :=
  fun w hw => (h.keeps hP w hw).mono (fun _ _ => trivial) fun _ _ h _ _ => h

/-- What the destructor of a scope does not change. -/
theorem Succeeds.inScope {x : ExceptT ε (FsProg N D) α} {drop : FsProg N D Unit}
    {S : List N → Prop} (h : Succeeds sys P x Q) (hd : Stays sys (fun _ => True) S drop)
    (hQ : ∀ a w w', Within S w w' → Q a w → Q a w') :
    Succeeds sys P (KFaceAuth.inScope x drop) Q := by
  intro w hw
  refine Safe.inScope (h w hw) fun r w₁ h₁ => ?_
  refine (hd w₁ w₁ (.refl _ _)).mono (fun _ _ => trivial) fun _ w₂ h₂ a ha => ?_
  exact hQ a w₁ w₂ h₂ (h₁ a ha)

/-- What is done on an error does not matter. -/
theorem Succeeds.onError {x : ExceptT ε (FsProg N D) α} {cleanup : FsProg N D Unit}
    (h : Succeeds sys P x Q) : Succeeds sys P (KFaceAuth.onError x cleanup) Q := by
  intro w hw
  refine Safe.onError (h w hw) (fun _ _ h => h) fun e w₁ _ => ?_
  exact (safe_trivial cleanup w₁).post fun _ _ _ _ h => by cases h

/-- What is done before an error does not matter. -/
theorem succeeds_lift_throw {p : FsProg N D α} {e : ε} :
    Succeeds sys P (do let _ ← p; throw e : ExceptT ε (FsProg N D) β) R :=
  Succeeds.lift (Q := fun _ _ => True) (fun w _ => safe_trivial p w) fun _ => succeeds_throw

end KFaceAuth
