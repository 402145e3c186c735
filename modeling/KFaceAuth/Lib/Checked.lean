import Mathlib.Data.List.Basic

/-!
# Computations that may stop

What is known of a computation that ends with a value or stops with a fault:
the fault is one of `E`, and the value has `P` (`Meets`). The rules are those of
the parts of a program, `meets_bind` for one step after another and
`meets_range` for a loop with an invariant.
-/

namespace KFaceAuth

section Meets

variable {ε α β σ : Type} {E : ε → Prop} {P P' : α → Prop} {Q : β → Prop}

/-- The computation ends with a value of `P`, or stops with a fault of `E`. -/
def Meets (E : ε → Prop) (P : α → Prop) : Except ε α → Prop
  | .ok a => P a
  | .error e => E e

theorem meets_pure {a : α} (h : P a) : Meets E P (pure a) := h

theorem Meets.mono {x : Except ε α} (h : Meets E P x) (hP : ∀ a, P a → P' a) : Meets E P' x := by
  cases x with
  | ok a => exact hP a h
  | error e => exact h

theorem meets_bind {x : Except ε α} {f : α → Except ε β} (hx : Meets E P x)
    (hf : ∀ a, P a → Meets E Q (f a)) : Meets E Q (x >>= f) := by
  cases x with
  | ok a => exact hf a hx
  | error e => exact hx

/-- What a loop over `0..n` keeps, of the number of passes and the state. -/
theorem meets_range {n : ℕ} {f : σ → ℕ → Except ε σ} {I : ℕ → σ → Prop} {s : σ} (h0 : I 0 s)
    (hstep : ∀ i < n, ∀ s, I i s → Meets E (I (i + 1)) (f s i)) :
    Meets E (I n) ((List.range n).foldlM f s) := by
  induction n with
  | zero => exact h0
  | succ n ih =>
    rw [List.range_succ, List.foldlM_append]
    refine meets_bind (ih fun i hi => hstep i (Nat.lt_succ_of_lt hi)) fun s hs => ?_
    rw [List.foldlM_cons]
    exact meets_bind (hstep n (Nat.lt_succ_self n) s hs) fun s hs => meets_pure hs

/-- Where there is no fault, the computation ends. -/
theorem Meets.exists_ok {x : Except ε α} (h : Meets E P x) (hE : ∀ e, ¬ E e) :
    ∃ a, x = .ok a ∧ P a := by
  cases x with
  | ok a => exact ⟨a, rfl, h⟩
  | error e => exact absurd h (hE e)

end Meets

end KFaceAuth
