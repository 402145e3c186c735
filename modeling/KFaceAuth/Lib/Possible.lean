import KFaceAuth.Lib.Prog

/-!
# Programs whose calls may go several ways

What a call does is a relation here: the replies that it may give, each with the
world after it. A call may then fail after it has taken effect, or after a part
of it. A run ends with a value and a world (`Prog.Ends`).

`Prog.Ensures A Q p w` says that every run of `p` from `w` ends with a value and
a world satisfying `Q` (`Ensures.ends`). It composes along the structure of
programs (`Ensures.bind`), so that callers use one statement for each function.
-/

namespace KFaceAuth

namespace Prog

variable {C : Type} {R : C → Type} {W α β ε : Type}

/-- A run of a program from `w`, by what its calls may do. -/
inductive Ends (A : (c : C) → W → R c → W → Prop) : Prog C R α → W → α → W → Prop
  | pure (a : α) (w : W) : Ends A (.pure a) w a w
  | call {c : C} {k : R c → Prog C R α} {r : R c} {a : α} {w w' w'' : W} (h : A c w r w')
      (hk : Ends A (k r) w' a w'') : Ends A (.call c k) w a w''

/-- Every run of a program from `w` ends with a value and a world satisfying `Q`. -/
def Ensures (A : (c : C) → W → R c → W → Prop) (Q : α → W → Prop) : Prog C R α → W → Prop
  | .pure a, w => Q a w
  | .call c k, w => ∀ r w', A c w r w' → (k r).Ensures A Q w'

variable {A : (c : C) → W → R c → W → Prop} {Q Q' : α → W → Prop} {w w' : W}

/-- `Ensures` is sound: it holds of every run. -/
theorem Ensures.ends {p : Prog C R α} {a : α} (h : p.Ensures A Q w) (hp : p.Ends A w a w') :
    Q a w' := by
  induction hp with
  | pure a w => exact h
  | call hc _ ih => exact ih (h _ _ hc)

/-- Sequential composition. -/
theorem Ensures.bind {p : Prog C R α} {f : α → Prog C R β} {Q' : β → W → Prop}
    (h : p.Ensures A Q w) (hf : ∀ a w, Q a w → (f a).Ensures A Q' w) :
    (p >>= f).Ensures A Q' w := by
  induction p generalizing w with
  | pure a => exact hf a w h
  | call c k ih => exact fun r w' hc => ih r (h r w' hc)

/-- Sequential composition of programs that give up at the first error. -/
theorem Ensures.bindE {x : ExceptT ε (Prog C R) α} {f : α → ExceptT ε (Prog C R) β}
    {Q : Except ε α → W → Prop} {Q' : Except ε β → W → Prop} (h : x.run.Ensures A Q w)
    (hok : ∀ a w, Q (.ok a) w → (f a).run.Ensures A Q' w)
    (herr : ∀ e w, Q (.error e) w → Q' (.error e) w) : (x >>= f).run.Ensures A Q' w := by
  refine h.bind fun r w hw => ?_
  rcases r with e | a
  · exact herr e w hw
  · exact hok a w hw

/-- A program without errors in one that gives up at the first error. -/
theorem Ensures.liftE {p : Prog C R α} {f : α → ExceptT ε (Prog C R) β}
    {Q' : Except ε β → W → Prop} (h : p.Ensures A Q w)
    (hf : ∀ a w, Q a w → (f a).run.Ensures A Q' w) :
    ((liftM p : ExceptT ε (Prog C R) α) >>= f).run.Ensures A Q' w := by
  have hlift : (p >>= fun a => .pure (Except.ok a) : Prog C R (Except ε α)).Ensures A
      (fun r w => ∃ a, r = .ok a ∧ Q a w) w :=
    h.bind fun a w hw => ⟨a, rfl, hw⟩
  refine Ensures.bindE (x := liftM p) hlift ?_ ?_
  · rintro a w ⟨_, ⟨⟩, hw⟩
    exact hf a w hw
  · rintro e w ⟨_, ⟨⟩, _⟩

/-- What every call keeps, a program keeps. -/
theorem ensures_of_calls {I : W → Prop} (p : Prog C R α)
    (hI : ∀ c w r w', A c w r w' → I w → I w') (hw : I w) : p.Ensures A (fun _ w => I w) w := by
  induction p generalizing w with
  | pure a => exact hw
  | call c k ih => exact fun r w' hc => ih r (hI c w r w' hc hw)

/-- The run of a program by a function for its calls. -/
def eval (exec : (c : C) → W → R c × W) : Prog C R α → W → α × W
  | .pure a, w => (a, w)
  | .call c k, w => (k (exec c w).1).eval exec (exec c w).2

/-- A function that gives what the calls may do gives a run. -/
theorem ends_eval {exec : (c : C) → W → R c × W}
    (h : ∀ c w, A c w (exec c w).1 (exec c w).2) (p : Prog C R α) (w : W) :
    p.Ends A w (p.eval exec w).1 (p.eval exec w).2 := by
  induction p generalizing w with
  | pure a => exact .pure a w
  | call c k ih => exact .call (h c w) (ih _ _)

end Prog

end KFaceAuth
