import KFaceAuth.Lib.Prog

/-!
# Runs of programs under an open semantics

The calls of a program answered by a relation: `S w c r w'` says that in the
world `w` the call `c` may be answered by `r`, leaving `w'`. Whatever else
happens in the world between two calls is part of `S`. A run is a chain of
answered calls (`Prog.Runs`), and it decomposes along the structure of the
program (`runs_bind`).
-/

namespace KFaceAuth.Prog

variable {C : Type} {R : C → Type} {W α β : Type}

/-- The program may end with the value `a` and the world `w'`, from `w`. -/
inductive Runs (S : W → (c : C) → R c → W → Prop) : Prog C R α → W → α → W → Prop
  | pure (a : α) (w : W) : Runs S (.pure a) w a w
  | call {c : C} {k : R c → Prog C R α} {w w₁ w' : W} {r : R c} {a : α}
      (hc : S w c r w₁) (hk : Runs S (k r) w₁ a w') : Runs S (.call c k) w a w'

variable {S : W → (c : C) → R c → W → Prop} {w w' : W}

theorem runs_pure {a b : α} : Runs S (.pure a : Prog C R α) w b w' ↔ b = a ∧ w' = w := by
  constructor
  · rintro ⟨⟩
    exact ⟨rfl, rfl⟩
  · rintro ⟨rfl, rfl⟩
    exact .pure _ _

theorem runs_call {c : C} {k : R c → Prog C R α} {a : α} :
    Runs S (.call c k) w a w' ↔ ∃ r w₁, S w c r w₁ ∧ Runs S (k r) w₁ a w' := by
  constructor
  · rintro ⟨⟩
    exact ⟨_, _, ‹_›, ‹_›⟩
  · rintro ⟨r, w₁, hc, hk⟩
    exact .call hc hk

theorem runs_perform {c : C} {r : R c} :
    Runs S (perform c : Prog C R (R c)) w r w' ↔ S w c r w' := by
  rw [perform, runs_call]
  constructor
  · rintro ⟨r', w₁, hc, hk⟩
    obtain ⟨rfl, rfl⟩ := runs_pure.1 hk
    exact hc
  · exact fun h => ⟨r, w', h, .pure _ _⟩

theorem runs_bind {p : Prog C R α} {f : α → Prog C R β} {b : β} :
    Runs S (p >>= f) w b w' ↔ ∃ a w₁, Runs S p w a w₁ ∧ Runs S (f a) w₁ b w' := by
  induction p generalizing w with
  | pure a =>
    constructor
    · exact fun h => ⟨a, w, .pure _ _, h⟩
    · rintro ⟨a', w₁, h, hf⟩
      obtain ⟨rfl, rfl⟩ := runs_pure.1 h
      exact hf
  | call c k ih =>
    rw [call_bind, runs_call]
    constructor
    · rintro ⟨r, w₁, hc, h⟩
      obtain ⟨a, w₂, hk, hf⟩ := (ih r).1 h
      exact ⟨a, w₂, .call hc hk, hf⟩
    · rintro ⟨a, w₂, h, hf⟩
      obtain ⟨r, w₁, hc, hk⟩ := runs_call.1 h
      exact ⟨r, w₁, hc, (ih r).2 ⟨a, w₂, hk, hf⟩⟩

/-- Some run of a sequential composition, ending in a world with `P`. -/
theorem Runs.seq_post {p : Prog C R α} {f : α → Prog C R β} {a : α} {b : β} {w₁ : W}
    {P : W → Prop} (h : Runs S p w a w₁) (hf : ∃ w', Runs S (f a) w₁ b w' ∧ P w') :
    ∃ w', Runs S (p >>= f) w b w' ∧ P w' := by
  obtain ⟨w', hw', hP⟩ := hf
  exact ⟨w', runs_bind.2 ⟨a, w₁, h, hw'⟩, hP⟩

theorem Runs.seq {p : Prog C R α} {f : α → Prog C R β} {a : α} {b : β} {w₁ : W}
    (h : Runs S p w a w₁) (hf : ∃ w', Runs S (f a) w₁ b w') : ∃ w', Runs S (p >>= f) w b w' := by
  obtain ⟨w', hw'⟩ := hf
  exact ⟨w', runs_bind.2 ⟨a, w₁, h, hw'⟩⟩

/-- A relation that every answered call of a program satisfies, if reflexive
    and transitive, holds between the ends of a run. -/
theorem Runs.rel {p : Prog C R α} {a : α} (h : Runs S p w a w') {P : C → Prop} (hp : p.Calls P)
    {T : W → W → Prop} (hrefl : ∀ w, T w w) (htrans : ∀ w₁ w₂ w₃, T w₁ w₂ → T w₂ w₃ → T w₁ w₃)
    (hS : ∀ w c r w', P c → S w c r w' → T w w') : T w w' := by
  induction h with
  | pure a w => exact hrefl w
  | call hc _ ih => exact htrans _ _ _ (hS _ _ _ _ hp.1 hc) (ih (hp.2 _))

end KFaceAuth.Prog
